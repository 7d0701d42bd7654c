/-
# The ADC keys

`adckey_acts_poll` is called by a timer with the key code it reads. A key counts as
pressed once it has been read often enough, and the events go to the input system.

The early return for "no key" keeps the candidate and its count while no key is down, so
readings of a key are counted across the gaps between them. Once a key is down, every
reading counts, and the count is one of readings in a row.
-/

import SpeakerFirmware.Lib.Runs

namespace SpeakerFirmware.Drivers

open List

/-- The fields of `acts_adckey_data` that a poll keeps. `KEY_RESERVED` is 0. -/
structure AdckeyData where
  scanCount : Nat
  prevKeycode : UInt16
  prevStableKeycode : UInt16
  deriving DecidableEq, Repr

/-- A report with the value 1 or 0. -/
inductive KeyEvent
  | down (key : UInt16)
  | up (key : UInt16)
  deriving DecidableEq, Repr

/-- `adckey_acts_poll`, with the key code that was read; `dep` is `sample_filter_dep`. The count
stays below `dep`, so it does not leave the `int`. -/
def adckeyActsPoll (dep : Nat) (adckey : AdckeyData) (keycode : UInt16) :
    AdckeyData × List KeyEvent :=
  if keycode = 0 ∧ adckey.prevStableKeycode = 0 then (adckey, [])
  else if keycode = adckey.prevKeycode then
    if adckey.scanCount + 1 = dep then
      ({ adckey with prevStableKeycode := keycode, scanCount := 0 },
        (if adckey.prevStableKeycode ≠ 0 ∧ keycode ≠ adckey.prevStableKeycode then
          [.up adckey.prevStableKeycode] else []) ++
        if keycode ≠ 0 then [.down keycode] else [])
    else ({ adckey with scanCount := adckey.scanCount + 1 }, [])
  else ({ adckey with prevKeycode := keycode, scanCount := 0 }, [])

/-- The polls that read `codes`, from the driver's zeroed data on. -/
def adckeyPolls (dep : Nat) (codes : List UInt16) : AdckeyData × List KeyEvent :=
  Runs.transduce (adckeyActsPoll dep) ⟨0, 0, 0⟩ codes

variable {dep : Nat} {adckey : AdckeyData} {codes before : List UInt16} {keycode key : UInt16}

/-! ## The order of the events -/

/-- A key that goes down, is repeated some times and comes up. -/
def block (press : UInt16 × Nat) : List KeyEvent :=
  replicate (press.2 + 1) (.down press.1) ++ [.up press.1]

/-- Whole blocks, then a block of `count` events that has not ended. -/
def Blocks (events : List KeyEvent) (key : UInt16) (count : Nat) : Prop :=
  ∃ presses : List (UInt16 × Nat), events = presses.flatMap block ++ replicate count (.down key)

/-- The key that is down is the stable one. -/
def Pressed (adckey : AdckeyData) (events : List KeyEvent) : Prop :=
  ∃ count, Blocks events adckey.prevStableKeycode count ∧ (adckey.prevStableKeycode = 0 ↔ count = 0)

variable {events : List KeyEvent}

theorem Blocks.up {count : Nat} (h : Blocks events key (count + 1))
    (next : UInt16) : Blocks (events ++ [.up key]) next 0 := by
  obtain ⟨presses, rfl⟩ := h
  refine ⟨presses ++ [(key, count)], ?_⟩
  rw [flatMap_append, flatMap_singleton, block, append_assoc, replicate_zero, append_nil]

theorem Blocks.down {count : Nat} (h : Blocks events key count) :
    Blocks (events ++ [.down key]) key (count + 1) := by
  obtain ⟨presses, rfl⟩ := h
  exact ⟨presses, by rw [append_assoc, replicate_succ']⟩

theorem Blocks.none (h : Blocks events key 0) (next : UInt16) :
    Blocks events next 0 := h

/-- A poll continues the block of its key, or ends it and starts another. -/
theorem Pressed.poll (h : Pressed adckey events) (dep : Nat) (keycode : UInt16) :
    Pressed (adckeyActsPoll dep adckey keycode).1
      (events ++ (adckeyActsPoll dep adckey keycode).2) := by
  obtain ⟨count, hblocks, hzero⟩ := h
  have hsame : Pressed adckey (events ++ []) := by
    rw [append_nil]
    exact ⟨count, hblocks, hzero⟩
  unfold adckeyActsPoll
  split_ifs with hnone hprev hdep hup hkey hkey
  · exact hsame
  · -- another key is stable now
    obtain ⟨rest, rfl⟩ := Nat.exists_eq_succ_of_ne_zero (fun h => hup.1 (hzero.mpr h))
    rw [← append_assoc]
    exact ⟨1, (hblocks.up keycode).down, by simp [hkey]⟩
  · obtain ⟨rest, rfl⟩ := Nat.exists_eq_succ_of_ne_zero (fun h => hup.1 (hzero.mpr h))
    rw [append_nil]
    exact ⟨0, hblocks.up keycode, by simpa using hkey⟩
  · rw [nil_append]
    by_cases hstable : adckey.prevStableKeycode = 0
    · rw [hzero.mp hstable] at hblocks
      exact ⟨1, (hblocks.none keycode).down, by simp [hkey]⟩
    · have hrepeat : adckey.prevStableKeycode = keycode := by
        by_contra hne
        exact hup ⟨hstable, Ne.symm hne⟩
      rw [hrepeat] at hblocks
      exact ⟨count + 1, hblocks.down, by simp [hkey]⟩
  · exact absurd ⟨not_not.mp hkey, by_contra fun h => hup ⟨h, fun heq => h (heq ▸ not_not.mp hkey)⟩⟩
      hnone
  · exact hsame
  · exact hsame

theorem pressed_polls (dep : Nat) (codes : List UInt16) :
    Pressed (adckeyPolls dep codes).1 (adckeyPolls dep codes).2 :=
  Runs.transduce_invariant (fun _ adckey events => Pressed adckey events)
    ⟨0, ⟨[], rfl⟩, by simp⟩ (fun _ _ _ input h => h.poll dep input) codes

/-! ## The readings behind an event -/

/-- The candidate has been counted in a row, if a key is down. -/
def Counted (codes : List UInt16) (adckey : AdckeyData) : Prop :=
  adckey.prevStableKeycode ≠ 0 → replicate (adckey.scanCount + 1) adckey.prevKeycode <:+ codes

theorem replicate_suffix_append {n : Nat} (h : replicate n key <:+ codes) :
    replicate (n + 1) key <:+ codes ++ [key] := by
  rw [replicate_succ']
  exact (suffix_append_inj_of_length_eq rfl).mpr ⟨h, rfl⟩

theorem Counted.poll (h : Counted codes adckey) (dep : Nat) (keycode : UInt16) :
    Counted (codes ++ [keycode]) (adckeyActsPoll dep adckey keycode).1 := by
  have hlast : replicate (0 + 1) keycode <:+ codes ++ [keycode] := suffix_append _ _
  unfold adckeyActsPoll
  split_ifs with hnone hprev hdep hup hkey hkey
  · exact fun hstable => absurd hnone.2 hstable
  all_goals intro hstable
  all_goals try exact hprev ▸ hlast
  · rw [hprev]
    exact replicate_suffix_append (h hstable)
  · exact hlast

theorem counted_polls (dep : Nat) (codes : List UInt16) : Counted codes (adckeyPolls dep codes).1 :=
  Runs.transduce_invariant (fun codes adckey _ => Counted codes adckey)
    (fun h => absurd rfl h) (fun _ _ _ input h => h.poll dep input) codes

/-- A key goes down when the candidate is read once more and its count is complete. -/
theorem down_mem_poll :
    .down key ∈ (adckeyActsPoll dep adckey keycode).2 ↔
      key = keycode ∧ keycode ≠ 0 ∧ keycode = adckey.prevKeycode ∧ adckey.scanCount + 1 = dep := by
  unfold adckeyActsPoll
  split_ifs <;> simp_all

/-- The events form blocks, and a key goes down only at a poll that, like the `dep - 1` polls
before it, reads the key. -/
def Debounced (dep : Nat) (codes : List UInt16) : Prop :=
  (∃ key count, Blocks (adckeyPolls dep codes).2 key count) ∧
    ∀ before keycode key, before ++ [keycode] <+: codes →
      .down key ∈ (adckeyActsPoll dep (adckeyPolls dep before).1 keycode).2 →
      replicate dep key <:+ before ++ [keycode]

/-! ## The gaps between the readings -/

/-- The readings of `key` before the first of another key. -/
def readingsOf (key : UInt16) (codes : List UInt16) : Nat :=
  (codes.takeWhile fun code => code = 0 ∨ code = key).count key

/-- A poll that reads no key while no key is down, and finds a candidate that has been counted, is
followed by too few readings of the candidate to complete the count before another key is read. -/
def Gapless (dep : Nat) (codes : List UInt16) : Prop :=
  ∀ i < codes.length, codes[i]? = some 0 →
    let adckey := (adckeyPolls dep (codes.take i)).1
    adckey.prevStableKeycode = 0 → adckey.prevKeycode ≠ 0 → 1 ≤ adckey.scanCount →
      adckey.scanCount + readingsOf adckey.prevKeycode (codes.drop (i + 1)) < dep

instance (dep : Nat) (codes : List UInt16) : Decidable (Gapless dep codes) := by
  unfold Gapless
  infer_instance

theorem count_le_readingsOf {after : List UInt16} (tail : List UInt16)
    (h : ∀ code ∈ after, code = 0 ∨ code = key) :
    after.count key + 1 ≤ readingsOf key (after ++ ([key] ++ tail)) := by
  have hall : ∀ code ∈ after ++ [key], decide (code = 0 ∨ code = key) = true := by
    intro code hmem
    rcases mem_append.mp hmem with hmem | hmem
    · exact decide_eq_true (h code hmem)
    · exact decide_eq_true (.inr (mem_singleton.mp hmem))
  rw [readingsOf, ← append_assoc, takeWhile_append_of_pos hall, count_append, count_append,
    count_singleton_self]
  exact Nat.le_add_right _ _

theorem Gapless.gap {after : List UInt16} (h : Gapless dep (before ++ 0 :: after))
    (hstable : (adckeyPolls dep before).1.prevStableKeycode = 0)
    (hkey : (adckeyPolls dep before).1.prevKeycode ≠ 0)
    (hcount : 1 ≤ (adckeyPolls dep before).1.scanCount) :
    (adckeyPolls dep before).1.scanCount + readingsOf (adckeyPolls dep before).1.prevKeycode after <
      dep := by
  have hgap := h before.length (by simp) (by simp)
  rw [take_left] at hgap
  have hdrop : (before ++ 0 :: after).drop (before.length + 1) = after := by simp
  rw [hdrop] at hgap
  exact hgap hstable hkey hcount

theorem adckeyPolls_append (codes more : List UInt16) :
    (adckeyPolls dep (codes ++ more)).1 =
      (Runs.transduce (adckeyActsPoll dep) (adckeyPolls dep codes).1 more).1 := by
  rw [adckeyPolls, Runs.transduce_append]
  rfl

theorem adckeyPolls_concat (codes : List UInt16) (keycode : UInt16) :
    (adckeyPolls dep (codes ++ [keycode])).1 =
      (adckeyActsPoll dep (adckeyPolls dep codes).1 keycode).1 := by
  rw [adckeyPolls_append, Runs.transduce_singleton]

/-- What a poll keeps, without its events. -/
theorem adckeyActsPoll_state (dep : Nat) (adckey : AdckeyData) (keycode : UInt16) :
    (adckeyActsPoll dep adckey keycode).1 =
      if keycode = 0 ∧ adckey.prevStableKeycode = 0 then adckey
      else if keycode = adckey.prevKeycode then
        if adckey.scanCount + 1 = dep then
          { adckey with prevStableKeycode := keycode, scanCount := 0 }
        else { adckey with scanCount := adckey.scanCount + 1 }
      else { adckey with prevKeycode := keycode, scanCount := 0 } := by
  unfold adckeyActsPoll
  split_ifs <;> rfl

theorem scanCount_lt (hdep : 1 ≤ dep) (codes : List UInt16) :
    (adckeyPolls dep codes).1.scanCount < dep := by
  refine Runs.transduce_invariant (fun _ (adckey : AdckeyData) _ => adckey.scanCount < dep) ?_ ?_
    codes
  · exact hdep
  · intro _ adckey _ keycode h
    rw [adckeyActsPoll_state]
    split_ifs <;> grind

/-- While no key is down, the readings of the candidate are counted whatever gaps they have. -/
theorem counts_across_gaps {codes : List UInt16} (hkey : key ≠ 0)
    (hstable : adckey.prevStableKeycode = 0) (hprev : adckey.prevKeycode = key)
    (hcodes : ∀ code ∈ codes, code = 0 ∨ code = key)
    (hcount : adckey.scanCount + codes.count key < dep) :
    (Runs.transduce (adckeyActsPoll dep) adckey codes).1 =
      { adckey with scanCount := adckey.scanCount + codes.count key } := by
  induction codes generalizing adckey with
  | nil => rfl
  | cons code codes ih =>
    have hrest : ∀ code ∈ codes, code = 0 ∨ code = key :=
      fun code hmem => hcodes code (mem_cons_of_mem _ hmem)
    rw [Runs.transduce]
    dsimp only
    rcases hcodes code mem_cons_self with rfl | rfl
    · rw [count_cons_of_ne hkey.symm] at hcount ⊢
      have hpoll : adckeyActsPoll dep adckey 0 = (adckey, []) := if_pos ⟨rfl, hstable⟩
      rw [hpoll]
      exact ih hstable hprev hrest hcount
    · rw [count_cons_self] at hcount ⊢
      have hpoll : adckeyActsPoll dep adckey code =
          ({ adckey with scanCount := adckey.scanCount + 1 }, []) := by
        unfold adckeyActsPoll
        rw [if_neg (fun h => hkey h.1), if_pos hprev.symm, if_neg (by omega)]
      rw [hpoll]
      have hless : adckey.scanCount + 1 + codes.count code < dep := by omega
      rw [@ih { adckey with scanCount := adckey.scanCount + 1 } hstable hprev hrest hless]
      simp only [AdckeyData.mk.injEq, and_true]
      omega

/-- The candidate is counted across a poll of `codes` that read no key. -/
def AcrossGap (dep : Nat) (codes : List UInt16) (adckey : AdckeyData) : Prop :=
  ∃ before after, codes = before ++ 0 :: after ∧
    (adckeyPolls dep before).1.prevStableKeycode = 0 ∧
    (adckeyPolls dep before).1.prevKeycode = adckey.prevKeycode ∧
    1 ≤ (adckeyPolls dep before).1.scanCount ∧
    (∀ code ∈ after, code = 0 ∨ code = adckey.prevKeycode) ∧
    adckey.scanCount ≤ (adckeyPolls dep before).1.scanCount + after.count adckey.prevKeycode

theorem AcrossGap.concat {count : Nat} (h : AcrossGap dep codes adckey)
    (hcode : keycode = 0 ∨ keycode = adckey.prevKeycode)
    (hcount : count ≤ adckey.scanCount + [keycode].count adckey.prevKeycode) :
    AcrossGap dep (codes ++ [keycode]) { adckey with scanCount := count } := by
  obtain ⟨before, after, rfl, hstable, hprev, hpositive, hafter, hsum⟩ := h
  refine ⟨before, after ++ [keycode], by simp, hstable, hprev, hpositive, ?_, ?_⟩
  · intro code hmem
    rcases mem_append.mp hmem with hmem | hmem
    · exact hafter code hmem
    · rwa [mem_singleton.mp hmem]
  · rw [count_append]
    dsimp only
    omega

/-- While no key is down, the candidate has been counted in a row or across a gap. -/
theorem row_or_acrossGap (dep : Nat) (codes : List UInt16) :
    (adckeyPolls dep codes).1.prevStableKeycode = 0 →
      replicate (adckeyPolls dep codes).1.scanCount (adckeyPolls dep codes).1.prevKeycode <:+
        codes ∨
        AcrossGap dep codes (adckeyPolls dep codes).1 := by
  induction codes using List.reverseRecOn with
  | nil => exact fun _ => .inl nil_suffix
  | append_singleton codes keycode ih =>
    rw [adckeyPolls_concat, adckeyActsPoll_state]
    split_ifs with hnone hprev hdep
    · -- the early return keeps the count: a gap starts here, or the one before goes on
      intro hstable
      by_cases hzero : (adckeyPolls dep codes).1.scanCount = 0
      · rw [hzero]
        exact .inl nil_suffix
      · refine .inr ?_
        rcases ih hstable with - | hgap
        · exact ⟨codes, [], by rw [hnone.1], hstable, rfl, by omega, by simp, by simp⟩
        · exact hgap.concat (.inl hnone.1) (Nat.le_add_right _ _)
    · exact fun _ => .inl nil_suffix
    · intro hstable
      rcases ih hstable with hrow | hgap
      · rw [← hprev] at hrow
        exact .inl (hprev ▸ replicate_suffix_append hrow)
      · exact .inr (hgap.concat (.inr hprev)
          (Nat.le_of_eq (by rw [hprev, count_singleton_self])))
    · exact fun _ => .inl nil_suffix

/-- A key that is read often enough is read for the `n + 1`st time. -/
theorem exists_reading {n : Nat} (h : n < codes.count key) :
    ∃ front back, codes = front ++ key :: back ∧ front.count key = n := by
  induction codes generalizing n with
  | nil => cases h
  | cons code codes ih =>
    by_cases hcode : code = key
    · subst hcode
      cases n with
      | zero => exact ⟨[], codes, rfl, rfl⟩
      | succ n =>
        rw [count_cons_self] at h
        obtain ⟨front, back, rfl, hfront⟩ := ih (Nat.lt_of_succ_lt_succ h)
        exact ⟨code :: front, back, rfl, by rw [count_cons_self, hfront]⟩
    · rw [count_cons_of_ne hcode] at h
      obtain ⟨front, back, rfl, hfront⟩ := ih h
      exact ⟨code :: front, back, rfl, by rw [count_cons_of_ne hcode, hfront]⟩

/-- A key whose count is completed across a gap goes down without having been read `dep` times in
a row. -/
theorem gap_not_held {after : List UInt16} (hdep : 1 ≤ dep)
    (hcodes : before ++ 0 :: after <+: codes)
    (hstable : (adckeyPolls dep before).1.prevStableKeycode = 0)
    (hprev : (adckeyPolls dep before).1.prevKeycode = key) (hkey : key ≠ 0)
    (hpositive : 1 ≤ (adckeyPolls dep before).1.scanCount)
    (hread : dep ≤ (adckeyPolls dep before).1.scanCount + readingsOf key after) :
    ¬ Debounced dep codes := by
  rintro ⟨-, hheld⟩
  have hlt := scanCount_lt hdep before
  -- the reading that completes the count
  have hmore : dep - (adckeyPolls dep before).1.scanCount - 1 < readingsOf key after := by omega
  obtain ⟨front, back, hafter, hfront⟩ := exists_reading hmore
  have hprefix : front ++ [key] <+: after :=
    (prefix_append _ back).trans
      (by rw [append_assoc, singleton_append, ← hafter]; exact takeWhile_prefix _)
  have hcodes' : (before ++ 0 :: front) ++ [key] <+: codes := by
    refine IsPrefix.trans ?_ hcodes
    rw [append_assoc, cons_append]
    exact (prefix_append_right_inj _).mpr (cons_prefix_cons.mpr ⟨rfl, hprefix⟩)
  have hbits : ∀ code ∈ front, code = 0 ∨ code = key := by
    intro code hmem
    have hread := all_eq_true.mp (all_takeWhile (l := after)) code (hafter ▸ mem_append_left _ hmem)
    exact of_decide_eq_true hread
  have hstate : (adckeyPolls dep (before ++ 0 :: front)).1 = _ :=
    (adckeyPolls_append before (0 :: front)).trans
      (counts_across_gaps hkey hstable hprev (by simpa using hbits)
        (by rw [count_cons_of_ne hkey.symm]; omega))
  have hrow := hheld (before ++ 0 :: front) key key hcodes' (by
    rw [down_mem_poll, hstate, count_cons_of_ne hkey.symm]
    exact ⟨rfl, hkey, hprev.symm, by dsimp only; omega⟩)
  -- the row would go back behind the gap, or be one of too few readings
  have hgap : 0 :: front ++ [key] <:+ before ++ 0 :: front ++ [key] := ⟨before, by simp⟩
  rcases suffix_or_suffix_of_suffix hrow hgap with h | h
  · have hle := h.sublist.count_le key
    rw [count_replicate_self, count_append, count_cons_of_ne hkey.symm, count_singleton_self] at hle
    omega
  · exact hkey (eq_of_mem_replicate (h.mem mem_cons_self)).symm

/-- The keys are debounced exactly if no key is counted across a gap. -/
theorem debounced_iff_gapless (dep : Nat) (codes : List UInt16) (hdep : 1 ≤ dep) :
    Debounced dep codes ↔ Gapless dep codes := by
  obtain ⟨rest, rfl⟩ : ∃ rest, dep = rest + 1 := ⟨dep - 1, by omega⟩
  constructor
  · intro hdebounced i hi hgap adckey hstable hkey hpositive
    by_contra hread
    have hsplit : codes.take i ++ 0 :: codes.drop (i + 1) = codes := by
      rw [getElem?_eq_getElem hi, Option.some_inj] at hgap
      rw [← hgap, ← drop_eq_getElem_cons hi, take_append_drop]
    exact gap_not_held hdep ⟨[], (append_nil _).trans hsplit⟩ hstable rfl hkey hpositive
      (Nat.not_lt.mp hread) hdebounced
  · intro hgapless
    obtain ⟨count, hblocks, -⟩ := pressed_polls (rest + 1) codes
    refine ⟨⟨_, count, hblocks⟩, ?_⟩
    intro before keycode key hbefore hdown
    obtain ⟨rfl, hkey, hprev, hcount⟩ := down_mem_poll.mp hdown
    refine replicate_suffix_append ?_
    by_cases hstable : (adckeyPolls (rest + 1) before).1.prevStableKeycode = 0
    · rcases row_or_acrossGap (rest + 1) before hstable with hrow | hgap
      · rwa [← hprev, Nat.succ_inj.mp hcount] at hrow
      · obtain ⟨front, after, rfl, hfree, hcandidate, hpositive, hafter, hsum⟩ := hgap
        obtain ⟨tail, rfl⟩ := hbefore
        rw [← hprev] at hcandidate hafter hsum
        rw [append_assoc, append_assoc, cons_append] at hgapless
        have hfew := hgapless.gap hfree (by rwa [hcandidate]) hpositive
        have hreadings := count_le_readingsOf tail hafter
        rw [hcandidate] at hfew
        omega
    · -- a key is down: one reading more than needed has been counted
      have hcounted := counted_polls (rest + 1) before hstable
      rw [hcount, ← hprev, replicate_succ] at hcounted
      exact (suffix_cons _ _).trans hcounted

/-- A key read three times, not read once and read again: with the filter depth of the driver it
goes down at a poll whose predecessor read no key. -/
theorem not_debounced_bouncing :
    (adckeyPolls 3 [5, 5, 5, 0, 5]).2 = [.down 5] ∧ ¬ Debounced 3 [5, 5, 5, 0, 5] := by
  refine ⟨by decide, fun h => ?_⟩
  exact absurd (h.2 [5, 5, 5, 0] 5 5 (prefix_refl _) (by decide)) (by decide)

/-- A key is read twice, not read and read once more before another key: the first one's count
stays incomplete, and only the second goes down. -/
theorem debounced_second_key :
    (adckeyPolls 3 [5, 5, 0, 5, 7, 7, 7, 7]).2 = [.down 7] ∧ Debounced 3 [5, 5, 0, 5, 7, 7, 7, 7] :=
  ⟨by decide, (debounced_iff_gapless 3 [5, 5, 0, 5, 7, 7, 7, 7] (by decide)).mpr (by decide)⟩

end SpeakerFirmware.Drivers
