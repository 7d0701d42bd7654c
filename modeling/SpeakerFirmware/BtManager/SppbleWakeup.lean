/-
# When a blocked read ends

A link that goes down wakes the readers with one give of `read_sem`. The callback neither
takes `read_mutex` nor knows how many readers there are, and `sppble_read` resets the
semaphore after it has looked at the link. So what matters is the state at the last give:
every read returns if no read then stands between its test of the link and its reset, and
at most one has reset the semaphore and needs the give. Otherwise one read waits forever.
-/

import Mathlib.Data.List.GetD
import SpeakerFirmware.BtManager.SppbleStream

namespace SpeakerFirmware.BtManager

open Interleaving
open List Function Option Nat

variable {ι : Type} [DecidableEq ι] {wakes : List ι → ι} {i j : ι} {s s' : Stream ι} {pc pc' : Pc}
variable {num : Nat}

/-! ## What is left of a call -/

def ReadPc.rank : ReadPc → Nat
  | .lock => 10 | .testLink => 9 | .testWait => 8 | .reset => 7 | .unlockWait => 6 | .take => 5
  | .pended => 4 | .relock => 3 | .copy => 2 | .unlock _ _ => 1 | .returned _ _ => 0

def ReceivePc.rank : ReceivePc → Nat
  | .find => 9 | .testConn => 8 | .changed => 7 | .swap => 6 | .restore _ => 5 | .testType => 5
  | .lock => 4 | .store => 3 | .give => 2 | .unlock => 1 | .done => 0

def DisconnectPc.rank : DisconnectPc → Nat
  | .find => 8 | .testType => 7 | .delConn => 6 | .testCount => 5 | .setNone => 4 | .clearConn => 3
  | .give => 2 | .unlock => 1 | .done => 0

def Pc.rank : Pc → Nat
  | .read _ pc => pc.rank
  | .receive _ _ pc => pc.rank
  | .disconnect _ pc => pc.rank

/-! ## What a step can do -/

/-- The call holds `read_mutex`. -/
def Pc.holdsRead : Pc → Bool
  | .read _ pc => match pc with
      | .testLink | .testWait | .reset | .unlockWait | .copy | .unlock _ _ => true
      | _ => false
  | .receive _ _ pc => match pc with
      | .store | .give | .unlock => true
      | _ => false
  | .disconnect _ _ => false

/-- The call is in `os_sem_take`. -/
def Pc.pends : Pc → Bool
  | .read _ .pended => true
  | _ => false

def Pc.call : Pc → Call
  | .read num _ => .read num
  | .receive source data _ => .receive source data
  | .disconnect how _ => .disconnect how

/-- The call has taken the link down and has not yet given `read_sem`. -/
def Pc.owesGive : Pc → Bool
  | .disconnect _ .clearConn | .disconnect _ .give => true
  | _ => false

/-- What the step of thread `i` from `pc` to `pc'` does to `read_sem`. -/
inductive SemStep (wakes : List ι → ι) (i : ι) (s : Stream ι) : Pc → Pc → ReadSem ι → Prop
  | reset {num : Nat} :
      SemStep wakes i s (.read num .reset) (.read num .unlockWait) ⟨0, s.readSem.waitQ⟩
  | take {num : Nat} (hcount : 0 < s.readSem.count) :
      SemStep wakes i s (.read num .take) (.read num .relock)
        ⟨s.readSem.count - 1, s.readSem.waitQ⟩
  | pend {num : Nat} (hcount : s.readSem.count = 0) :
      SemStep wakes i s (.read num .take) (.read num .pended)
        ⟨s.readSem.count, s.readSem.waitQ ++ [i]⟩
  | give {here next : Pc} (hgives : here.gives) (hresets : ¬ next.resets)
      (hwait : ¬ next.goesToWait) :
      SemStep wakes i s here next (s.readSem.give wakes)
  | other {here next : Pc} (hgives : ¬ here.gives) (hresets : ¬ here.resets)
      (hlink : next.resets → s.connectType ≠ .none) (hwait : next.goesToWait = here.goesToWait)
      (hpends : here.pends → i ∉ s.readSem.waitQ) :
      SemStep wakes i s here next s.readSem

/-- What the step does to the rest of the stream, and where it leads. -/
structure Step (wakes : List ι → ι) (i : ι) (s s' : Stream ι) (pc pc' : Pc) : Prop where
  sem : SemStep wakes i s pc pc' s'.readSem
  link : s'.connectType = s.connectType ∨ s'.connectType = .none ∧ pc'.owesGive
  readMutex : s'.readMutex = none ∨ s'.readMutex = some i ∧ pc'.holdsRead ∨
    s'.readMutex = s.readMutex ∧ (pc.holdsRead → pc'.holdsRead)
  owed : pc.owesGive → pc'.owesGive ∨ pc.gives
  call : pc'.call = pc.call
  rank : pc'.rank < pc.rank

section

attribute [local simp] Pc.gives Pc.resets Pc.goesToWait Pc.pends Pc.owesGive Pc.holdsRead
  Pc.call Pc.rank ReadPc.rank ReceivePc.rank DisconnectPc.rank Disconnect.leave

theorem sppbleRead_step {here next : ReadPc}
    (h : sppbleRead i num s here = some (s', next)) :
    Step wakes i s s' (.read num here) (.read num next) := by
  cases here with
  | reset =>
    cases h
    exact ⟨.reset, by simp, by simp, by simp, by simp, by simp⟩
  | take =>
    simp only [sppbleRead] at h
    split at h
    · rename_i hcount
      cases h
      exact ⟨.take hcount, by simp, by simp, by simp, by simp, by simp⟩
    · rename_i hcount
      cases h
      exact ⟨.pend (Nat.eq_zero_of_not_pos hcount), by simp, by simp, by simp, by simp, by simp⟩
  | testWait =>
    simp only [sppbleRead] at h
    split at h
    · rename_i hlink
      cases h
      refine ⟨.other ?_ ?_ (fun _ => hlink.1) ?_ ?_, ?_, ?_, ?_, ?_, ?_⟩ <;> simp
    · cases h
      refine ⟨.other ?_ ?_ ?_ ?_ ?_, ?_, ?_, ?_, ?_, ?_⟩ <;> simp
  | pended =>
    simp only [sppbleRead] at h
    split at h
    · cases h
    · rename_i hout
      cases h
      refine ⟨.other ?_ ?_ ?_ ?_ (fun _ => hout), ?_, ?_, ?_, ?_, ?_⟩ <;> simp
  | unlockWait | unlock =>
    cases h
    refine ⟨.other ?_ ?_ ?_ ?_ ?_, ?_, ?_, ?_, ?_, ?_⟩ <;> simp
  | returned => cases h
  | lock | testLink | relock | copy =>
    simp only [sppbleRead] at h
    split at h <;> cases h <;>
      refine ⟨.other ?_ ?_ ?_ ?_ ?_, ?_, ?_, ?_, ?_, ?_⟩ <;> simp

theorem sppbleRxData_step {source : Source} {data : List UInt8} {here next : ReceivePc}
    (h : sppbleRxData wakes i source data s here = some (s', next)) :
    Step wakes i s s' (.receive source data here) (.receive source data next) := by
  cases here with
  | give =>
    cases h
    refine ⟨.give ?_ ?_ ?_, ?_, ?_, ?_, ?_, ?_⟩ <;> simp
  | restore | unlock =>
    cases h
    refine ⟨.other ?_ ?_ ?_ ?_ ?_, ?_, ?_, ?_, ?_, ?_⟩ <;> simp
  | done => cases h
  | find | changed | lock | store =>
    simp only [sppbleRxData] at h
    split at h <;> cases h <;>
      refine ⟨.other ?_ ?_ ?_ ?_ ?_, ?_, ?_, ?_, ?_, ?_⟩ <;> simp
  | testConn | swap | testType =>
    cases source <;> simp only [sppbleRxData] at h <;> (try split at h) <;> cases h <;>
      refine ⟨.other ?_ ?_ ?_ ?_ ?_, ?_, ?_, ?_, ?_, ?_⟩ <;> simp

theorem sppbleDisconnect_step {how : Disconnect} {here next : DisconnectPc}
    (h : sppbleDisconnect wakes i how s here = some (s', next)) :
    Step wakes i s s' (.disconnect how here) (.disconnect how next) := by
  cases here with
  | give =>
    cases h
    cases how <;> refine ⟨.give ?_ ?_ ?_, ?_, ?_, ?_, ?_, ?_⟩ <;> simp
  | clearConn | unlock =>
    cases h
    cases how <;> refine ⟨.other ?_ ?_ ?_ ?_ ?_, ?_, ?_, ?_, ?_, ?_⟩ <;> simp
  | done => cases h
  | find | testType | delConn | testCount | setNone =>
    cases how <;> simp only [sppbleDisconnect] at h <;> (try split at h) <;> cases h <;>
      refine ⟨.other ?_ ?_ ?_ ?_ ?_, ?_, ?_, ?_, ?_, ?_⟩ <;> simp

end

/-- What a step of a thread can do. -/
theorem advance_step (h : advance wakes i pc s = some (s', pc')) : Step wakes i s s' pc pc' := by
  cases pc with
  | read num here =>
    obtain ⟨⟨t, next⟩, hstep, heq⟩ := map_eq_some_iff.mp h
    cases heq
    exact sppbleRead_step hstep
  | receive source data here =>
    obtain ⟨⟨t, next⟩, hstep, heq⟩ := map_eq_some_iff.mp h
    cases heq
    exact sppbleRxData_step hstep
  | disconnect how here =>
    obtain ⟨⟨t, next⟩, hstep, heq⟩ := map_eq_some_iff.mp h
    cases heq
    exact sppbleDisconnect_step hstep

/-- A call that holds `read_mutex` or is about to give `read_sem` is not blocked. -/
theorem advance_ne_none (h : pc.holdsRead ∨ pc.owesGive ∨ pc.gives) :
    advance wakes i pc s ≠ none := by
  intro hnone
  cases pc with
  | read num here =>
    have hnone := map_eq_none_iff.mp hnone
    cases here with
    | reset | unlockWait | unlock => cases hnone
    | testLink | testWait | copy =>
      simp only [sppbleRead] at hnone
      split at hnone <;> cases hnone
    | lock | take | pended | relock | returned =>
      simp [Pc.holdsRead, Pc.owesGive, Pc.gives] at h
  | receive source data here =>
    have hnone := map_eq_none_iff.mp hnone
    cases here with
    | give | unlock => cases hnone
    | store =>
      simp only [sppbleRxData] at hnone
      split at hnone <;> cases hnone
    | find | testConn | changed | swap | restore | testType | lock | done =>
      simp [Pc.holdsRead, Pc.owesGive, Pc.gives] at h
  | disconnect how here =>
    have hnone := map_eq_none_iff.mp hnone
    cases here with
    | clearConn | give => cases hnone
    | find | testType | delConn | testCount | setNone | unlock | done =>
      simp [Pc.holdsRead, Pc.owesGive, Pc.gives] at h

theorem exists_advance_of_gives (wakes : List ι → ι) (i : ι) (s : Stream ι) (h : pc.gives) :
    ∃ s' pc', advance wakes i pc s = some (s', pc') := by
  have hsome : advance wakes i pc s ≠ none := advance_ne_none (.inr (.inr h))
  obtain ⟨⟨s', pc'⟩, hadvance⟩ := ne_none_iff_exists'.mp hsome
  exact ⟨s', pc', hadvance⟩

theorem forward (wakes : List ι → ι) : Forward (advance wakes) Pc.rank :=
  fun _ _ _ _ _ h => (advance_step h).rank

/-! ## What holds all the time -/

namespace Pc

theorem not_resets_of_gives (h : pc.gives) : ¬ pc.resets := by
  cases pc with
  | read => simp [gives] at h
  | receive | disconnect => simp [resets]

theorem not_goesToWait_of_gives (h : pc.gives) : ¬ pc.goesToWait := by
  cases pc with
  | read => simp [gives] at h
  | receive | disconnect => simp [goesToWait]

theorem not_pends_of_gives (h : pc.gives) : ¬ pc.pends := by
  cases pc with
  | read => simp [gives] at h
  | receive | disconnect => simp [pends]

theorem not_goesToWait_of_pends (h : pc.pends) : ¬ pc.goesToWait := by
  cases pc with
  | read num here => cases here <;> simp_all [pends, goesToWait]
  | receive | disconnect => simp [goesToWait]

end Pc

variable {st : State ι}

/-- Who has `read_mutex`, and who waits. -/
structure Sound (st : State ι) : Prop where
  owner : ∀ i, st.shared.readMutex = some i → (st.pc i).holdsRead
  waits : ∀ i ∈ st.shared.readSem.waitQ, (st.pc i).pends
  nodup : st.shared.readSem.waitQ.Nodup
  count_le : st.shared.readSem.count ≤ 1
  idle : st.shared.readSem.waitQ ≠ [] → st.shared.readSem.count = 0

section

variable (h : Sound st) (hstep : Step wakes i st.shared s' (st.pc i) pc')
include h hstep

theorem Sound.owner_step :
    ∀ j, s'.readMutex = some j → (update st.pc i pc' j).holdsRead := by
  intro j hj
  rcases hstep.readMutex with hfree | ⟨hlock, hholds⟩ | ⟨hsame, hkeep⟩
  · rw [hfree] at hj
    cases hj
  · rw [hlock] at hj
    cases hj
    rwa [update_self]
  · have hheld := h.owner j (hsame ▸ hj)
    by_cases hji : j = i
    · subst hji
      rw [update_self]
      exact hkeep hheld
    · rwa [update_of_ne hji]

/-- A thread in the queue does not move. -/
theorem Sound.ne_of_mem_waitQ (hj : j ∈ st.shared.readSem.waitQ) : j ≠ i := by
  rintro rfl
  have hpends := h.waits j hj
  have hsem := hstep.sem
  generalize st.pc j = here at hpends hsem
  generalize s'.readSem = sem at hsem
  cases hsem with
  | reset | take _ | pend _ => simp [Pc.pends] at hpends
  | give hgives => exact Pc.not_pends_of_gives hgives hpends
  | other _ _ _ _ hout => exact hout hpends hj

theorem Sound.sem_step :
    (∀ j ∈ s'.readSem.waitQ, (update st.pc i pc' j).pends) ∧ s'.readSem.waitQ.Nodup ∧
      s'.readSem.count ≤ 1 ∧ (s'.readSem.waitQ ≠ [] → s'.readSem.count = 0) := by
  have hstay : ∀ j ∈ st.shared.readSem.waitQ, (update st.pc i pc' j).pends := by
    intro j hj
    rw [update_of_ne (h.ne_of_mem_waitQ hstep hj)]
    exact h.waits j hj
  have hsem := hstep.sem
  have hidle := h.idle
  have hcount := h.count_le
  generalize s'.readSem = sem at hsem ⊢
  generalize hpc : st.pc i = here at hsem
  cases hsem with
  | reset => exact ⟨hstay, h.nodup, zero_le _, fun _ => rfl⟩
  | take hpos =>
    refine ⟨hstay, h.nodup, by dsimp only; omega, fun hne => ?_⟩
    have := hidle hne
    omega
  | pend hzero =>
    have hout : i ∉ st.shared.readSem.waitQ := fun hi => h.ne_of_mem_waitQ hstep hi rfl
    refine ⟨fun j hj => ?_, ?_, hcount, fun _ => hzero⟩
    · rcases mem_append.mp hj with hj | hj
      · exact hstay j hj
      · rw [mem_singleton.mp hj, update_self]
        rfl
    · exact nodup_append.mpr ⟨h.nodup, nodup_singleton i, fun a ha b hb hab =>
        hout (mem_singleton.mp hb ▸ hab ▸ ha)⟩
  | give hgives _ _ =>
    rw [ReadSem.give]
    split
    · rename_i hempty
      refine ⟨hstay, h.nodup, ?_, fun hne => absurd (isEmpty_iff.mp hempty) hne⟩
      dsimp only
      split <;> omega
    · rename_i hne
      refine ⟨fun j hj => hstay j (mem_of_mem_erase hj), h.nodup.erase _, hcount, fun _ => ?_⟩
      exact hidle (fun hnil => hne (isEmpty_iff.mpr hnil))
  | other => exact ⟨hstay, h.nodup, hcount, hidle⟩

end

theorem Sound.turn (i : ι) (st : State ι) (h : Sound st) :
    Sound (Interleaving.turn (advance wakes) i st) := by
  rcases turn_cases (advance wakes) i st with hsame | ⟨s', pc', hadvance, hturn⟩
  · rwa [hsame]
  · rw [hturn]
    have hstep := advance_step hadvance
    obtain ⟨hwaits, hnodup, hcount, hidle⟩ := h.sem_step hstep
    exact ⟨h.owner_step hstep, hwaits, hnodup, hcount, hidle⟩

theorem sound_run (sys : System ι) (sched : Nat → ι) (n : Nat) : Sound (sys.run sched n) := by
  refine run_invariant ?_ Sound.turn n
  refine ⟨fun i hi => ?_, fun i hi => ?_, ?_, sys.count_le, fun hne => absurd sys.nobody_waits hne⟩
  · rw [System.start, sys.readMutex_free] at hi
    cases hi
  · rw [System.start, sys.nobody_waits] at hi
    cases hi
  · rw [System.start, sys.nobody_waits]
    exact nodup_nil

/-- A read that is blocked waits for a give or has returned. -/
theorem Sound.read_blocked (h : Sound st)
    (hblocked : ∀ i, advance wakes i (st.pc i) st.shared = none) {here : ReadPc}
    (hpc : st.pc i = .read num here) :
    i ∈ st.shared.readSem.waitQ ∨ ∃ ret data, here = .returned ret data := by
  have hfree : st.shared.readMutex = none := by
    rw [eq_none_iff_forall_ne_some]
    exact fun j hj => advance_ne_none (.inl (h.owner j hj)) (hblocked j)
  have hnone := hblocked i
  rw [hpc] at hnone
  have hnone := map_eq_none_iff.mp hnone
  cases here with
  | returned ret data => exact .inr ⟨ret, data, rfl⟩
  | pended =>
    left
    by_contra hout
    simp [sppbleRead, hout] at hnone
  | lock | relock => simp [sppbleRead, hfree] at hnone
  | reset | unlockWait | unlock => cases hnone
  | testLink | testWait | take | copy =>
    simp only [sppbleRead] at hnone
    split at hnone <;> cases hnone

/-! ## After the last give -/

/-- The link is down and every read that needs a give gets one. -/
structure AllServed (st : State ι) : Prop where
  link : st.shared.connectType = .none
  resets : ∀ i, ¬ (st.pc i).resets
  queue : st.shared.readSem.waitQ = []
  one : ∀ i j, (st.pc i).goesToWait → (st.pc j).goesToWait → i = j
  token : ∀ i, (st.pc i).goesToWait → 0 < st.shared.readSem.count

/-- Some read needs a give more than there is. -/
def SomeLost (st : State ι) : Prop :=
  (∃ i, (st.pc i).resets) ∨ (st.shared.readSem.count = 0 ∧ ∃ i, Awaits st i) ∨
    ∃ i j, i ≠ j ∧ Awaits st i ∧ Awaits st j

/-- The link stays down. -/
theorem Step.link_down (hstep : Step wakes i s s' pc pc') (h : s.connectType = .none) :
    s'.connectType = .none := by
  rcases hstep.link with hsame | ⟨hnone, -⟩
  · exact hsame.trans h
  · exact hnone

theorem goesToWait_update (h : pc'.goesToWait = (st.pc i).goesToWait) (j : ι) :
    (update st.pc i pc' j).goesToWait = (st.pc j).goesToWait := by
  by_cases hji : j = i
  · rw [hji, update_self, h]
  · rw [update_of_ne hji]

theorem AllServed.turn (h : AllServed st) (hgives : ¬ (st.pc i).gives) :
    AllServed (Interleaving.turn (advance wakes) i st) := by
  rcases turn_cases (advance wakes) i st with hsame | ⟨s', pc', hadvance, hturn⟩
  · rwa [hsame]
  rw [hturn]
  have hstep := advance_step hadvance
  have hlink := hstep.link_down h.link
  have hsem := hstep.sem
  have hresets : ¬ pc'.resets → ∀ j, ¬ (update st.pc i pc' j).resets := by
    intro hpc j
    by_cases hji : j = i
    · rwa [hji, update_self]
    · rw [update_of_ne hji]
      exact h.resets j
  generalize hsem' : s'.readSem = sem at hsem
  generalize hpc : st.pc i = here at hsem
  cases hsem with
  | reset => exact absurd (hpc ▸ rfl) (h.resets i)
  | take hpos =>
    -- the one read that went to wait has got its give
    have hnobody : ∀ num j, ¬ (update st.pc i (.read num .relock) j).goesToWait := by
      intro num j hj
      by_cases hji : j = i
      · rw [hji, update_self] at hj
        cases hj
      · rw [update_of_ne hji] at hj
        exact hji (h.one j i hj (hpc ▸ rfl))
    exact ⟨hlink, hresets (by simp [Pc.resets]), hsem' ▸ h.queue,
      fun j _ hj => absurd hj (hnobody _ j), fun j hj => absurd hj (hnobody _ j)⟩
  | pend hzero =>
    have := h.token i (hpc ▸ rfl)
    omega
  | give hgive => exact absurd (hpc ▸ hgive) hgives
  | other _ _ hnone hsame _ =>
    have hwait := goesToWait_update (hpc.symm ▸ hsame)
    refine ⟨hlink, hresets fun hpc' => hnone hpc' h.link, hsem' ▸ h.queue, ?_, ?_⟩
    · intro j k hj hk
      exact h.one j k (hwait j ▸ hj) (hwait k ▸ hk)
    · intro j hj
      exact hsem' ▸ h.token j (hwait j ▸ hj)

theorem awaits_self (h : pc'.goesToWait) : Awaits ⟨s', update st.pc i pc'⟩ i := by
  left
  dsimp only
  rwa [update_self]

theorem awaits_of_ne (hji : j ≠ i) (h : (st.pc j).goesToWait) :
    Awaits ⟨s', update st.pc i pc'⟩ j := by
  left
  dsimp only
  rwa [update_of_ne hji]

/-- Only an `os_sem_take` that succeeds ends the need for a give. -/
theorem awaits_step (hstep : Step wakes i st.shared s' (st.pc i) pc')
    (hgives : ¬ (st.pc i).gives) (hj : Awaits st j) :
    Awaits ⟨s', update st.pc i pc'⟩ j ∨
      j = i ∧ 0 < st.shared.readSem.count ∧ s'.readSem.count = st.shared.readSem.count - 1 := by
  have hsem := hstep.sem
  rcases hj with hj | hj
  · by_cases hji : j = i
    · subst hji
      generalize hsem' : s'.readSem = sem at hsem
      generalize st.pc j = here at hsem hj hgives
      cases hsem with
      | reset => cases hj
      | take hpos => exact .inr ⟨rfl, hpos, rfl⟩
      | pend hzero => exact .inl (.inr (by simp [hsem']))
      | give hgive => exact absurd hgive hgives
      | other _ _ _ hsame _ => exact .inl (awaits_self (hsame.trans hj))
    · exact .inl (awaits_of_ne hji hj)
  · refine .inl (.inr ?_)
    dsimp only
    generalize st.pc i = here at hsem hgives
    generalize s'.readSem = sem at hsem ⊢
    cases hsem with
    | reset | take _ | other => exact hj
    | pend _ => exact mem_append_left _ hj
    | give hgive => exact absurd hgive hgives

theorem Step.count_le (hstep : Step wakes i s s' pc pc') (hgives : ¬ pc.gives) :
    s'.readSem.count ≤ s.readSem.count := by
  have hsem := hstep.sem
  generalize s'.readSem = sem at hsem ⊢
  cases hsem with
  | reset => exact zero_le _
  | take _ => exact sub_le _ _
  | give hgive => exact absurd hgive hgives
  | pend _ | other => exact le_rfl

/-- A reset leaves the read in need of a give, and none is there. -/
theorem Step.resets (hstep : Step wakes i s s' pc pc') (hresets : pc.resets) :
    s'.readSem.count = 0 ∧ pc'.goesToWait := by
  have hsem := hstep.sem
  generalize s'.readSem = sem at hsem ⊢
  cases hsem with
  | reset => exact ⟨rfl, rfl⟩
  | take _ | pend _ => cases hresets
  | give hgive => exact absurd hresets (Pc.not_resets_of_gives hgive)
  | other _ hnot => exact absurd hresets hnot

theorem SomeLost.turn (h : SomeLost st) (hsound : Sound st) (hgives : ¬ (st.pc i).gives) :
    SomeLost (Interleaving.turn (advance wakes) i st) := by
  rcases turn_cases (advance wakes) i st with hsame | ⟨s', pc', hadvance, hturn⟩
  · rwa [hsame]
  rw [hturn]
  have hstep := advance_step hadvance
  have hcount := hstep.count_le hgives
  rcases h with ⟨j, hj⟩ | ⟨hzero, j, hj⟩ | ⟨j, k, hjk, hj, hk⟩
  · by_cases hji : j = i
    · obtain ⟨hempty, hwait⟩ := hstep.resets (hji ▸ hj)
      exact .inr (.inl ⟨hempty, i, awaits_self hwait⟩)
    · refine .inl ⟨j, ?_⟩
      dsimp only
      rwa [update_of_ne hji]
  · right; left
    refine ⟨by dsimp only; omega, j, ?_⟩
    rcases awaits_step hstep hgives hj with hstay | ⟨-, hpos, -⟩
    · exact hstay
    · omega
  · have hle := hsound.count_le
    rcases awaits_step hstep hgives hj with hj' | ⟨hji, hpos, htaken⟩
    · rcases awaits_step hstep hgives hk with hk' | ⟨-, hpos, htaken⟩
      · exact .inr (.inr ⟨j, k, hjk, hj', hk'⟩)
      · exact .inr (.inl ⟨by dsimp only; omega, j, hj'⟩)
    · rcases awaits_step hstep hgives hk with hk' | ⟨hki, -, -⟩
      · exact .inr (.inl ⟨by dsimp only; omega, k, hk'⟩)
      · exact absurd (hji.trans hki.symm) hjk

/-! ## The last give -/

theorem give_of_empty {sem : ReadSem ι} (h : sem.waitQ = []) (hcount : sem.count ≤ 1) :
    sem.give wakes = ⟨1, []⟩ := by
  obtain ⟨count, waitQ⟩ := sem
  subst h
  simp only [ReadSem.give, isEmpty_nil, if_true, ReadSem.mk.injEq, and_true]
  dsimp only at hcount
  split <;> omega

theorem give_of_ne_nil {sem : ReadSem ι} (h : sem.waitQ ≠ []) :
    sem.give wakes = ⟨sem.count, sem.waitQ.erase (wakes sem.waitQ)⟩ := by
  rw [ReadSem.give, if_neg (by simpa using h)]

theorem Step.gives (hstep : Step wakes i s s' pc pc') (hgives : pc.gives) :
    s'.readSem = s.readSem.give wakes ∧ ¬ pc'.resets ∧ ¬ pc'.goesToWait := by
  have hsem := hstep.sem
  generalize s'.readSem = sem at hsem ⊢
  cases hsem with
  | reset | take _ | pend _ => cases hgives
  | give _ hresets hwait => exact ⟨rfl, hresets, hwait⟩
  | other hnot => exact absurd hgives hnot

omit [DecidableEq ι] in
/-- The thread that gives is none of those that need a give. -/
theorem Sound.ne_of_awaits (h : Sound st) (hgives : (st.pc i).gives) (hj : Awaits st j) :
    j ≠ i := by
  rintro rfl
  rcases hj with hj | hj
  · exact Pc.not_goesToWait_of_gives hgives hj
  · exact Pc.not_pends_of_gives hgives (h.waits j hj)

theorem WakesAll.allServed (h : WakesAll st) (hsound : Sound st)
    (hwakes : ∀ waitQ, waitQ ≠ [] → wakes waitQ ∈ waitQ) (hgives : (st.pc i).gives)
    (hlink : (Interleaving.turn (advance wakes) i st).shared.connectType = .none) :
    AllServed (Interleaving.turn (advance wakes) i st) := by
  obtain ⟨s', pc', hadvance⟩ := exists_advance_of_gives wakes i st.shared hgives
  rw [turn_of_some hadvance] at hlink ⊢
  obtain ⟨hsem, hresets, hwait⟩ := (advance_step hadvance).gives hgives
  have hbefore : ∀ j, (update st.pc i pc' j).goesToWait → (st.pc j).goesToWait := by
    intro j hj
    by_cases hji : j = i
    · rw [hji, update_self] at hj
      exact absurd hj hwait
    · rwa [update_of_ne hji] at hj
  have hnoresets : ∀ j, ¬ (update st.pc i pc' j).resets := by
    intro j
    by_cases hji : j = i
    · rwa [hji, update_self]
    · rw [update_of_ne hji]
      exact h.1 j
  have hone : ∀ j k, (update st.pc i pc' j).goesToWait →
      (update st.pc i pc' k).goesToWait → j = k :=
    fun j k hj hk => h.2 j k (.inl (hbefore j hj)) (.inl (hbefore k hk))
  by_cases hqueue : st.shared.readSem.waitQ = []
  · rw [give_of_empty hqueue hsound.count_le] at hsem
    exact ⟨hlink, hnoresets, by rw [hsem], hone, fun _ _ => by rw [hsem]; exact one_pos⟩
  · rw [give_of_ne_nil hqueue] at hsem
    have hwoken := hwakes _ hqueue
    refine ⟨hlink, hnoresets, ?_, hone, fun j hj => ?_⟩
    · dsimp only
      rw [hsem, eq_nil_iff_forall_not_mem]
      intro j hj
      have hj := hsound.nodup.mem_erase_iff.mp hj
      exact hj.1 (h.2 j _ (.inr hj.2) (.inr hwoken))
    · -- the woken read was the only one, and it was in the queue
      have hsame := h.2 j _ (.inl (hbefore j hj)) (.inr hwoken)
      exact absurd (hsame ▸ hbefore j hj) (Pc.not_goesToWait_of_pends (hsound.waits _ hwoken))

theorem someLost_of_not_wakesAll (h : ¬ WakesAll st) (hsound : Sound st)
    (hgives : (st.pc i).gives) :
    SomeLost (Interleaving.turn (advance wakes) i st) := by
  obtain ⟨s', pc', hadvance⟩ := exists_advance_of_gives wakes i st.shared hgives
  rw [turn_of_some hadvance]
  obtain ⟨hsem, -, -⟩ := (advance_step hadvance).gives hgives
  have hne := fun j => hsound.ne_of_awaits (j := j) hgives
  by_cases hresets : ∃ j, (st.pc j).resets
  · obtain ⟨j, hj⟩ := hresets
    have hji : j ≠ i := fun heq => Pc.not_resets_of_gives hgives (heq ▸ hj)
    refine .inl ⟨j, ?_⟩
    dsimp only
    rwa [update_of_ne hji]
  obtain ⟨j, k, hj, hk, hjk⟩ : ∃ j k, Awaits st j ∧ Awaits st k ∧ j ≠ k := by
    by_contra hone
    refine h ⟨fun j hj => hresets ⟨j, hj⟩, fun j k hj hk => ?_⟩
    by_contra hjk
    exact hone ⟨j, k, hj, hk, hjk⟩
  by_cases hqueue : st.shared.readSem.waitQ = []
  · have hstay : ∀ l, Awaits st l → Awaits ⟨s', update st.pc i pc'⟩ l := by
      rintro l (hl | hl)
      · exact awaits_of_ne (hne l (.inl hl)) hl
      · rw [hqueue] at hl
        cases hl
    exact .inr (.inr ⟨j, k, hjk, hstay j hj, hstay k hk⟩)
  · rw [give_of_ne_nil hqueue] at hsem
    have hstay : ∀ l, Awaits st l → l ≠ wakes st.shared.readSem.waitQ →
        Awaits ⟨s', update st.pc i pc'⟩ l := by
      rintro l (hl | hl) hother
      · exact awaits_of_ne (hne l (.inl hl)) hl
      · refine .inr ?_
        dsimp only
        rw [hsem]
        exact (mem_erase_of_ne hother).mpr hl
    refine .inr (.inl ⟨by dsimp only; rw [hsem]; exact hsound.idle hqueue, ?_⟩)
    by_cases hwoken : j = wakes st.shared.readSem.waitQ
    · exact ⟨k, hstay k hk fun heq => hjk (hwoken.trans heq.symm)⟩
    · exact ⟨j, hstay j hj hwoken⟩

/-! ## Runs -/

variable {sys : System ι} {sched : Nat → ι} {n m : Nat}

/-- The step at time `n` is an `os_sem_give` on `read_sem`. -/
def GivesAt (sys : System ι) (sched : Nat → ι) (n : Nat) : Prop :=
  ((sys.run sched n).pc (sched n)).gives

instance (sys : System ι) (sched : Nat → ι) (n : Nat) : Decidable (GivesAt sys sched n) :=
  inferInstanceAs (Decidable (_ = true))

/-- The step at time `n` is the last give of the run. -/
def LastGive (sys : System ι) (sched : Nat → ι) (n : Nat) : Prop :=
  GivesAt sys sched n ∧ ∀ m, n < m → ¬ GivesAt sys sched m

theorem run_call (sys : System ι) (sched : Nat → ι) (n : Nat) (i : ι) :
    ((sys.run sched n).pc i).call = sys.call i := by
  induction n with
  | zero =>
    change (sys.call i).entry.call = sys.call i
    cases sys.call i <;> rfl
  | succ n ih =>
    change ((turn (advance sys.wakes) (sched n) (sys.run sched n)).pc i).call = sys.call i
    by_cases hi : i = sched n
    · subst hi
      rcases turn_cases (advance sys.wakes) (sched n) (sys.run sched n) with
        hsame | ⟨s', pc', hadvance, -⟩
      · rwa [hsame]
      · rw [turn_pc_self hadvance, (advance_step hadvance).call, ih]
    · rwa [turn_pc_of_ne hi]

/-- A read that has returned does not go on. -/
theorem returned_stays {ret : Int} {data : List UInt8}
    (h : (sys.run sched n).pc i = .read num (.returned ret data)) (hm : n ≤ m) :
    (sys.run sched m).pc i = .read num (.returned ret data) := by
  induction m, hm using le_induction with
  | base => exact h
  | succ m _ ih =>
    change (turn (advance sys.wakes) (sched m) (sys.run sched m)).pc i = _
    by_cases hi : i = sched m
    · subst hi
      rw [turn_of_none (by rw [ih]; rfl), ih]
    · rwa [turn_pc_of_ne hi]

/-- Settled from some time on. -/
def SettledFrom (sys : System ι) (sched : Nat → ι) (n : Nat) : Prop :=
  ∀ m, n ≤ m → ∀ i, advance sys.wakes i ((sys.run sched m).pc i) (sys.run sched m).shared = none

theorem exists_settledFrom [Fintype ι] (sys : System ι) (hfair : Fair sched) :
    ∃ n, SettledFrom sys sched n := by
  obtain ⟨n, hn⟩ := hfair.settles_of_rank (forward sys.wakes) sys.start
  refine ⟨n, fun m hm i => ?_⟩
  have hsame : sys.run sched m = sys.run sched n := hn.run_eq hm
  rw [hsame]
  exact hn.advance_eq_none (forward sys.wakes) i

section

variable (h : SettledFrom sys sched n)
include h

theorem SettledFrom.run_eq (hm : n ≤ m) : sys.run sched m = sys.run sched n := by
  induction m, hm using le_induction with
  | base => rfl
  | succ m hm ih => exact (turn_of_none (h m hm (sched m))).trans ih

theorem SettledFrom.lt_of_givesAt (hm : GivesAt sys sched m) : m < n := by
  by_contra hle
  exact advance_ne_none (.inr (.inr hm)) (h m (Nat.le_of_not_lt hle) (sched m))

theorem SettledFrom.exists_lastGive (hm : GivesAt sys sched m) : ∃ k, LastGive sys sched k := by
  classical
  have hbound := fun k (hk : GivesAt sys sched k) => (h.lt_of_givesAt hk).le
  refine ⟨findGreatest (GivesAt sys sched) n, findGreatest_spec (hbound m hm) hm, ?_⟩
  intro k hk hgives
  exact findGreatest_is_greatest hk (hbound k hgives) hgives

/-- A link that goes down is followed by a give. -/
theorem SettledFrom.exists_givesAt {up down : Nat} (hle : up ≤ down)
    (hup : (sys.run sched up).shared.connectType ≠ .none)
    (hdown : (sys.run sched down).shared.connectType = .none) :
    ∃ m, up ≤ m ∧ GivesAt sys sched m := by
  obtain ⟨k, hk, hbefore, hafter⟩ :=
    exists_lost (p := fun st : State ι => st.shared.connectType ≠ .none) hle hup (not_not.mpr hdown)
  -- the callback that took the link down owes a give
  have howes : ((sys.run sched (k + 1)).pc (sched k)).owesGive := by
    change ¬ (turn (advance sys.wakes) (sched k) (sys.run sched k)).shared.connectType ≠ .none
      at hafter
    change ((turn (advance sys.wakes) (sched k) (sys.run sched k)).pc (sched k)).owesGive
    rcases turn_cases (advance sys.wakes) (sched k) (sys.run sched k) with
      hsame | ⟨s', pc', hadvance, hturn⟩
    · rw [hsame] at hafter
      exact absurd hbefore hafter
    · rw [turn_pc_self hadvance]
      rw [hturn] at hafter
      rcases (advance_step hadvance).link with hsame | ⟨-, howes⟩
      · exact absurd (fun hnone => hbefore (hsame.symm.trans hnone)) hafter
      · exact howes
  have hend : ¬ ((sys.run sched (max n (k + 1))).pc (sched k)).owesGive := fun howes =>
    advance_ne_none (.inr (.inl howes)) (h _ (le_max_left _ _) (sched k))
  obtain ⟨m, hm, hsched, s', pc', hadvance, howes, hdone⟩ :=
    exists_turn (p := fun pc : Pc => pc.owesGive) (le_max_right n (k + 1)) howes hend
  refine ⟨m, by omega, ?_⟩
  rw [GivesAt, hsched]
  exact ((advance_step hadvance).owed howes).resolve_left hdone

end

theorem AllServed.run {k : Nat} (h : AllServed (sys.run sched n))
    (hlast : ∀ m, n ≤ m → ¬ GivesAt sys sched m) (hk : n ≤ k) : AllServed (sys.run sched k) := by
  induction k, hk using le_induction with
  | base => exact h
  | succ k hk ih => exact ih.turn (hlast k hk)

theorem SomeLost.run {k : Nat} (h : SomeLost (sys.run sched n))
    (hlast : ∀ m, n ≤ m → ¬ GivesAt sys sched m) (hk : n ≤ k) : SomeLost (sys.run sched k) := by
  induction k, hk using le_induction with
  | base => exact h
  | succ k hk ih => exact ih.turn (sound_run sys sched k) (hlast k hk)

/-- A read that needs a give has not returned. -/
theorem SomeLost.exists_read (h : SomeLost (sys.run sched n)) :
    ∃ i num here, (sys.run sched n).pc i = .read num here ∧ ∀ ret data,
      here ≠ .returned ret data := by
  have hread : ∃ i, ((sys.run sched n).pc i).resets ∨ ((sys.run sched n).pc i).goesToWait ∨
      ((sys.run sched n).pc i).pends := by
    have hawaits : ∀ i, Awaits (sys.run sched n) i → ((sys.run sched n).pc i).goesToWait ∨
        ((sys.run sched n).pc i).pends :=
      fun i hi => hi.imp_right ((sound_run sys sched n).waits i)
    rcases h with ⟨i, hi⟩ | ⟨-, i, hi⟩ | ⟨i, -, -, hi, -⟩
    · exact ⟨i, .inl hi⟩
    · exact ⟨i, .inr (hawaits i hi)⟩
    · exact ⟨i, .inr (hawaits i hi)⟩
  obtain ⟨i, hi⟩ := hread
  cases hpc : (sys.run sched n).pc i with
  | read num here =>
    refine ⟨i, num, here, hpc, fun ret data hreturned => ?_⟩
    rw [hpc, hreturned] at hi
    simp [Pc.resets, Pc.goesToWait, Pc.pends] at hi
  | receive | disconnect =>
    rw [hpc] at hi
    simp [Pc.resets, Pc.goesToWait, Pc.pends] at hi

omit [DecidableEq ι] in
theorem allServed_start (h : sys.stream.connectType = .none) : AllServed sys.start := by
  have hstart : ∀ i, ¬ (sys.start.pc i).resets ∧ ¬ (sys.start.pc i).goesToWait := by
    intro i
    change ¬ (sys.call i).entry.resets ∧ ¬ (sys.call i).entry.goesToWait
    cases sys.call i <;> simp [Call.entry, Pc.resets, Pc.goesToWait]
  exact ⟨h, fun i => (hstart i).1, sys.nobody_waits, fun i _ hi => absurd hi (hstart i).2,
    fun i hi => absurd hi (hstart i).2⟩

/-- From some time on no give is made and every read that needs one has got one, if the last
give reaches all of them. -/
theorem exists_allServed (hsettled : SettledFrom sys sched n) {down : Nat}
    (hdown : ∀ m, down ≤ m → (sys.run sched m).shared.connectType = .none)
    (hlast : ∀ m, LastGive sys sched m → WakesAll (sys.run sched m)) :
    ∃ k, AllServed (sys.run sched k) ∧ ∀ m, k ≤ m → ¬ GivesAt sys sched m := by
  -- without a give after it, the link is down
  have hlink : ∀ m, (∀ k, m ≤ k → ¬ GivesAt sys sched k) →
      (sys.run sched m).shared.connectType = .none := by
    intro m hnone
    by_contra hup
    obtain ⟨k, hk, hgives⟩ := hsettled.exists_givesAt (le_max_right down m) hup
      (hdown _ (le_max_left down m))
    exact hnone k hk hgives
  by_cases hgive : ∃ m, GivesAt sys sched m
  · obtain ⟨m, hm⟩ := hgive
    obtain ⟨last, hgives, hlater⟩ := hsettled.exists_lastGive hm
    have hnone : ∀ m, last + 1 ≤ m → ¬ GivesAt sys sched m := fun m hm => hlater m hm
    exact ⟨last + 1, (hlast last ⟨hgives, hlater⟩).allServed (sound_run sys sched last)
      sys.wakes_mem hgives (hlink _ hnone), hnone⟩
  · have hnone : ∀ m, 0 ≤ m → ¬ GivesAt sys sched m := fun m _ hm => hgive ⟨m, hm⟩
    exact ⟨0, allServed_start (hlink 0 hnone), hnone⟩

/-- Every read returns. -/
def ReadsReturn (sys : System ι) (sched : Nat → ι) : Prop :=
  ∀ i num, sys.call i = .read num →
    ∃ n ret data, (sys.run sched n).pc i = .read num (.returned ret data)

/-- Once the link is down and stays so, every read returns if and only if the last give of
`read_sem` finds at most one read that needs it, and none on its way to reset the semaphore. -/
theorem reads_return_iff [Fintype ι] (sys : System ι) (hfair : Fair sched) {down : Nat}
    (hdown : ∀ m, down ≤ m → (sys.run sched m).shared.connectType = .none) :
    ReadsReturn sys sched ↔ ∀ n, LastGive sys sched n → WakesAll (sys.run sched n) := by
  obtain ⟨n, hsettled⟩ := exists_settledFrom sys hfair
  constructor
  · rintro hreturn last ⟨hgives, hlater⟩
    by_contra hnot
    have hlost : SomeLost (sys.run sched (last + 1)) :=
      someLost_of_not_wakesAll hnot (sound_run sys sched last) hgives
    -- at rest, some read has still not returned
    obtain ⟨i, num, here, hpc, hnever⟩ :=
      (hlost.run (fun m hm => hlater m hm) (le_max_right n (last + 1))).exists_read
    have hcall := run_call sys sched (max n (last + 1)) i
    rw [hpc] at hcall
    obtain ⟨m, ret, data, hm⟩ := hreturn i num hcall.symm
    have hend := returned_stays hm (le_max_right n m)
    rw [hsettled.run_eq (le_max_left n m), ← hsettled.run_eq (le_max_left n (last + 1)),
      hpc] at hend
    exact hnever ret data (Pc.read.inj hend).2
  · intro hlast i num hcall
    obtain ⟨k, hserved, hnone⟩ := exists_allServed hsettled hdown hlast
    have hend := hserved.run hnone (le_max_right n k)
    have hpc := run_call sys sched (max n k) i
    rw [hcall] at hpc
    cases hat : (sys.run sched (max n k)).pc i with
    | read num' here =>
      rw [hat] at hpc
      cases hpc
      rcases (sound_run sys sched _).read_blocked (hsettled _ (le_max_left n k)) hat with
        hqueue | ⟨ret, data, rfl⟩
      · rw [hend.queue] at hqueue
        cases hqueue
      · exact ⟨max n k, ret, data, hat⟩
    | receive | disconnect =>
      rw [hat] at hpc
      cases hpc

/-! ## A read and a link that is lost -/

/-- A read of one byte, and the phone closing its SPP channel. -/
def linkLoss : System (Fin 2) where
  call i := if i = 0 then .read 1 else .disconnect .spp
  stream :=
    { connectType := .spp
      conn := none
      connInfo := ⟨[none, none, none], 0⟩
      rxOnChanged := false
      cache := ⟨some (List.replicate 4 0), 0, 0, 0, 4⟩
      readMutex := none
      sppbleMutex := none
      readSem := ⟨0, []⟩ }
  readMutex_free := rfl
  sppbleMutex_free := rfl
  count_le := Nat.zero_le 1
  nobody_waits := rfl
  wakes waitQ := waitQ.headD 0
  wakes_mem waitQ h := by
    cases waitQ with
    | nil => exact absurd rfl h
    | cons i _ => exact mem_cons_self

/-- The two take turns after the steps of `first`. -/
def afterwards (first : List (Fin 2)) (n : Nat) : Fin 2 :=
  first.getD n (Fin.ofNat 2 n)

theorem fair_afterwards (first : List (Fin 2)) : Fair (afterwards first) := by
  intro i n
  refine ⟨2 * (n + first.length) + i, by omega, ?_⟩
  rw [afterwards, getD_eq_default _ _ (by omega)]
  ext
  simp only [Fin.ofNat_eq_cast, Fin.val_natCast]
  omega

/-- The link goes down while the read waits. -/
def readerWaits : Nat → Fin 2 :=
  afterwards [0, 0, 0, 0, 0, 0, 1, 1, 1, 1, 0, 0, 0, 0]

/-- The link goes down between the reader's test of the link and its reset of the semaphore. -/
def readerResets : Nat → Fin 2 :=
  afterwards [0, 0, 0, 1, 1, 1, 1, 0, 0, 0]

theorem settledFrom_of_blocked {sys : System ι}
    (h : ∀ i, advance sys.wakes i ((sys.run sched n).pc i) (sys.run sched n).shared = none) :
    SettledFrom sys sched n := by
  have hsettled : Settled (turn (advance sys.wakes)) (sys.run sched n) :=
    fun i => turn_of_none (h i)
  intro m hm i
  rw [show sys.run sched m = sys.run sched n from hsettled.run_eq hm]
  exact h i

theorem reads_return_iff_reader_waits : ReadsReturn linkLoss readerWaits := by
  have hsettled : SettledFrom linkLoss readerWaits 14 := settledFrom_of_blocked (by decide)
  have hdown : ∀ m, 14 ≤ m → (linkLoss.run readerWaits m).shared.connectType = .none := by
    intro m hm
    rw [hsettled.run_eq hm]
    decide
  refine (reads_return_iff linkLoss (fair_afterwards _) hdown).mpr fun n hn => ?_
  have hgives : ∀ k < 14, GivesAt linkLoss readerWaits k → k = 9 := by decide
  rw [hgives n (hsettled.lt_of_givesAt hn.1) hn.1]
  decide

/-- The give comes before the reset, and the read waits forever. -/
theorem read_never_returns : Fair readerResets ∧
    (∀ m, 10 ≤ m → (linkLoss.run readerResets m).shared.connectType = .none) ∧
    ¬ ReadsReturn linkLoss readerResets := by
  have hsettled : SettledFrom linkLoss readerResets 10 := settledFrom_of_blocked (by decide)
  refine ⟨fair_afterwards _, fun m hm => ?_, fun hreturn => ?_⟩
  · rw [hsettled.run_eq hm]
    decide
  · obtain ⟨n, ret, data, hn⟩ := hreturn 0 1 rfl
    have hend := returned_stays hn (le_max_right 10 n)
    rw [hsettled.run_eq (le_max_left 10 n)] at hend
    have hpended : (linkLoss.run readerResets 10).pc 0 = .read 1 .pended := by decide
    rw [hpended] at hend
    cases hend

end SpeakerFirmware.BtManager
