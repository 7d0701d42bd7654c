/-
# Segments and their headers

When the flash holds a segment, which segments it leaves valid, and what the header
searches of `region_scan` find. With one valid segment the search returns it; with
two consecutive ones it returns the later one and recognises the earlier.
-/

import SpeakerFirmware.Nvram.Access

namespace SpeakerFirmware.Nvram

open NorFlash
open List Nat

variable {r : RegionInfo}
variable {g : Image} {offs : Nat} {content : List UInt8} {offsets : List Nat}

/-! ## Headers -/

theorem length_newSegHeader (r : RegionInfo) (seqId : UInt8) :
    (newSegHeader r seqId).length = segHeaderSize := rfl

theorem isValid_newSegHeader (r : RegionInfo) (seqId : UInt8) :
    isValidRegionSegHeader ⟨newSegHeader r seqId⟩ = true := by
  have hcrc : (SegHeader.mk (newSegHeader r seqId)).crc =
      calcCrc8 ((newSegHeader r seqId).drop nvramRegionSegHeaderCrcOffset) 0 := rfl
  have hmagic : (SegHeader.mk (newSegHeader r seqId)).magic = nvramRegionSegMagic := rfl
  have hstate : (SegHeader.mk (newSegHeader r seqId)).state = nvramRegionSegStateValid := rfl
  rw [isValidRegionSegHeader, isSegHeaderInState, hcrc, hmagic, hstate]
  simp only [BEq.rfl, Bool.and_self]

theorem seqId_newSegHeader (r : RegionInfo) (seqId : UInt8) :
    (SegHeader.mk (newSegHeader r seqId)).seqId = seqId := rfl

/-- The segment at an offset has a valid header. -/
def segValid (f : Image) (offs : Nat) : Bool := isValidRegionSegHeader (readSegHeader f offs)

theorem segValid_congr {f : Image}
    (h : ∀ a, offs ≤ a → a < offs + segHeaderSize → f a = g a) :
    segValid f offs = segValid g offs := by
  rw [segValid, segValid, readSegHeader, readSegHeader, read_congr h]

section

variable {f : Image} {seqId : UInt8} (h : Holds f offs (newSegHeader r seqId))
include h

theorem readSegHeader_of_holds : readSegHeader f offs = ⟨newSegHeader r seqId⟩ :=
  congrArg SegHeader.mk h

theorem segValid_of_holds : segValid f offs = true := by
  rw [segValid, readSegHeader_of_holds h]
  exact isValid_newSegHeader r seqId

end

/-- An erased header is no header. -/
theorem isSegHeaderInState_erased {f : Image} (h : Erased f offs segHeaderSize)
    (state : UInt8) : isSegHeaderInState state (readSegHeader f offs) = false := by
  have hread : readSegHeader f offs = ⟨List.replicate segHeaderSize 0xff⟩ := by
    have hholds := erased_iff_holds.mp h
    unfold Holds at hholds
    rw [length_replicate] at hholds
    rw [readSegHeader, hholds]
  have hmagic : ((SegHeader.mk (List.replicate segHeaderSize 0xff)).magic ==
      nvramRegionSegMagic) = false := by decide
  rw [hread, isSegHeaderInState, hmagic]
  rfl

theorem segValid_erased {f : Image} (h : Erased f offs segHeaderSize) :
    segValid f offs = false :=
  isSegHeaderInState_erased h _

/-- A header whose state byte was cleared is not valid any more. -/
theorem segValid_of_state {f : Image} (h : f (offs + 4) ≠ nvramRegionSegStateValid) :
    segValid f offs = false := by
  have hstate : ((readSegHeader f offs).state == nvramRegionSegStateValid) = false := by
    have hbyte : (readSegHeader f offs).state = f (offs + 4) :=
      getD_read f offs segHeaderSize 4 (by decide) 0
    rw [hbyte]
    exact beq_false_of_ne h
  rw [segValid, isValidRegionSegHeader, isSegHeaderInState, hstate, Bool.and_false,
    Bool.false_and]

/-! ## Offsets of segments -/

/-- `offs` is where a segment of the region starts. -/
def IsSeg (r : RegionInfo) (offs : Nat) : Prop := offs ∈ segOffsets r

theorem isSeg_iff :
    IsSeg r offs ↔ r.segSize ∣ offs ∧ offs + r.segSize ≤ r.totalSize := by
  have hpos := r.segSize_pos
  simp only [IsSeg, segOffsets, mem_map, mem_range]
  constructor
  · rintro ⟨k, hk, rfl⟩
    refine ⟨dvd_mul_left _ _, ?_⟩
    have hle := Nat.mul_le_mul_right r.segSize (Nat.succ_le_of_lt hk)
    rw [Nat.div_mul_cancel r.seg_dvd, Nat.succ_mul] at hle
    exact hle
  · rintro ⟨⟨k, rfl⟩, hle⟩
    refine ⟨k, ?_, mul_comm _ _⟩
    rw [← mul_succ] at hle
    exact lt_of_succ_le ((le_div_iff_mul_le hpos).mpr (by rwa [mul_comm]))

theorem IsSeg.le (h : IsSeg r offs) : offs + r.segSize ≤ r.totalSize :=
  (isSeg_iff.mp h).2

/-- Two segments do not overlap. -/
theorem IsSeg.disjoint {first second : Nat} (hfirst : IsSeg r first) (hsecond : IsSeg r second)
    (hne : first ≠ second) : first + r.segSize ≤ second ∨ second + r.segSize ≤ first := by
  obtain ⟨⟨k, rfl⟩, -⟩ := isSeg_iff.mp hfirst
  obtain ⟨⟨l, rfl⟩, -⟩ := isSeg_iff.mp hsecond
  rcases lt_trichotomy k l with hlt | heq | hgt
  · left
    rw [← mul_succ]
    exact mul_le_mul_left _ hlt
  · exact absurd (congrArg _ heq) hne
  · right
    rw [← mul_succ]
    exact mul_le_mul_left _ hgt

theorem IsSeg.aligned (h : IsSeg r offs) : offs % nvramEraseAlignSize = 0 :=
  mod_eq_zero_of_dvd (dvd_trans r.sector_dvd (isSeg_iff.mp h).1)

theorem isSeg_zero (r : RegionInfo) : IsSeg r 0 := by
  have htwo := r.two_segs
  exact isSeg_iff.mpr ⟨dvd_zero _, by omega⟩

theorem header_le_segSize (r : RegionInfo) : 0x1000 ≤ r.segSize :=
  le_of_dvd r.segSize_pos r.sector_dvd

theorem sixteen_dvd_segSize (r : RegionInfo) : nvramItemAlignSize ∣ r.segSize :=
  dvd_trans (by decide) r.sector_dvd

/-- The segment `region_purge_seg` moves to. -/
theorem isSeg_nextSegOffset {s : RegionState} (h : IsSeg r s.segOffset) :
    IsSeg r (nextSegOffset r s) ∧ nextSegOffset r s ≠ s.segOffset := by
  have hpos := r.segSize_pos
  have htwo := r.two_segs
  obtain ⟨hdvd, hle⟩ := isSeg_iff.mp h
  unfold nextSegOffset
  split
  · rename_i hlast
    refine ⟨isSeg_zero r, ?_⟩
    intro hzero
    rw [← hzero] at hlast
    omega
  · rename_i hroom
    refine ⟨isSeg_iff.mpr ⟨Nat.dvd_add hdvd (Nat.dvd_refl _), ?_⟩, by omega⟩
    obtain ⟨k, hk⟩ := hdvd
    obtain ⟨t, ht⟩ := r.seg_dvd
    rw [hk, ht, ← mul_succ] at hroom
    rw [hk, ht, ← mul_succ, ← mul_succ]
    have hlt : k + 1 < t := Nat.lt_of_mul_lt_mul_left (Nat.not_le.mp hroom)
    exact Nat.mul_le_mul_left _ hlt

/-! ## A segment in the flash -/

/-- The bytes behind a header: the row of items, then erased flash. -/
structure SegBody (r : RegionInfo) (f : Image) (offs : Nat) (content : List UInt8) : Prop where
  fits : nvramSegItemStartOffset + content.length ≤ r.segSize
  holds : Holds f (offs + nvramSegItemStartOffset) content
  free : Erased f (offs + (nvramSegItemStartOffset + content.length))
    (r.segSize - (nvramSegItemStartOffset + content.length))

/-- A valid segment with these contents. -/
structure HoldsSeg (r : RegionInfo) (f : Image) (offs : Nat) (seqId : UInt8)
    (content : List UInt8) : Prop where
  seg : IsSeg r offs
  header : Holds f offs (newSegHeader r seqId)
  body : SegBody r f offs content

/-- No segment outside the list has a valid header. -/
def OnlyValid (r : RegionInfo) (f : Image) (offsets : List Nat) : Prop :=
  ∀ offs, IsSeg r offs → offs ∉ offsets → segValid f offs = false

section

variable {f : Image}

theorem SegBody.congr (h : SegBody r f offs content)
    (hsame : ∀ a, offs ≤ a → a < offs + r.segSize → g a = f a) : SegBody r g offs content := by
  have hfits := h.fits
  refine ⟨hfits, ?_, ?_⟩
  · unfold Holds
    rw [read_congr (g := f) fun a hlo hhi => hsame a (by omega) (by omega)]
    exact h.holds
  · intro a hlo hhi
    rw [hsame a (by omega) (by omega)]
    exact h.free a hlo hhi

theorem HoldsSeg.congr {seqId : UInt8} (h : HoldsSeg r f offs seqId content)
    (hsame : ∀ a, offs ≤ a → a < offs + r.segSize → g a = f a) :
    HoldsSeg r g offs seqId content := by
  have hsize := header_le_segSize r
  refine ⟨h.seg, ?_, h.body.congr hsame⟩
  unfold Holds
  rw [length_newSegHeader, read_congr (g := f) fun a hlo hhi =>
    hsame a hlo (by simp only [segHeaderSize] at hhi; omega)]
  exact h.header

/-- A segment does not notice operations inside another one. -/
theorem HoldsSeg.applyAll {other : Nat} {seqId : UInt8}
    (h : HoldsSeg r f offs seqId content) (hother : IsSeg r other) (hne : offs ≠ other)
    {ops : List Op} (hops : AllWithin other (other + r.segSize) ops) :
    HoldsSeg r (applyAll ops f) offs seqId content := by
  apply h.congr
  intro a hlo hhi
  rcases h.seg.disjoint hother hne with hbefore | hafter
  · exact hops.applyAll_eq f (.inl (by omega))
  · exact hops.applyAll_eq f (.inr (by omega))

theorem OnlyValid.congr (hseg : IsSeg r offs) (h : OnlyValid r f offsets)
    (hsame : ∀ a, a < offs ∨ offs + r.segSize ≤ a → g a = f a) :
    OnlyValid r g (offs :: offsets) := by
  have hsize := header_le_segSize r
  intro other hother hnot
  rw [mem_cons, not_or] at hnot
  rw [segValid_congr (g := f) fun a hlo hhi => hsame a ?_]
  · exact h other hother hnot.2
  · simp only [segHeaderSize] at hhi
    rcases hother.disjoint hseg hnot.1 with hbefore | hafter
    · omega
    · omega

theorem OnlyValid.mono {offsets' : List Nat} (h : OnlyValid r f offsets)
    (hsub : ∀ offs ∈ offsets, offs ∈ offsets' ∨ segValid f offs = false) :
    OnlyValid r f offsets' := by
  intro offs hseg hnot
  by_cases hmem : offs ∈ offsets
  · exact (hsub offs hmem).resolve_left hnot
  · exact h offs hseg hmem

/-- Changes inside a segment that may be valid do not matter. -/
theorem OnlyValid.congr_of_mem (hseg : IsSeg r offs)
    (hmem : offs ∈ offsets) (h : OnlyValid r f offsets)
    (hsame : ∀ a, a < offs ∨ offs + r.segSize ≤ a → g a = f a) : OnlyValid r g offsets := by
  apply (h.congr hseg hsame).mono
  intro other hother
  rcases mem_cons.mp hother with rfl | hother
  · exact .inl hmem
  · exact .inl hother

end

/-! ## The header searches -/

theorem isLaterSeqId_self (seqId : UInt8) : isLaterSeqId seqId seqId = false := by
  simp [isLaterSeqId]

theorem add_sub_seqId (seqId d : UInt8) : seqId + d - seqId = d := by
  rw [UInt8.add_comm, UInt8.add_sub_cancel]

theorem seqId_sub_add (seqId d : UInt8) : seqId - (seqId + d) = 0 - d := by
  apply UInt8.eq_of_toBitVec_eq
  simp only [UInt8.toBitVec_sub, UInt8.toBitVec_add, UInt8.toBitVec_zero]
  grind

/-- A number up to 127 steps ahead is later, and not the other way round. -/
theorem isLaterSeqId_add (seqId : UInt8) {d : UInt8}
    (hd : isLaterSeqId d 0 = true ∧ isLaterSeqId 0 d = false) :
    isLaterSeqId (seqId + d) seqId = true ∧ isLaterSeqId seqId (seqId + d) = false := by
  unfold isLaterSeqId at hd ⊢
  rw [UInt8.sub_zero] at hd
  rw [add_sub_seqId, seqId_sub_add]
  exact hd

/-- One step of the search over the headers. -/
def latestStep (flash : Image) (isCandidate : SegHeader → Bool) (found : Option (UInt8 × Nat))
    (offs : Nat) : Option (UInt8 × Nat) :=
  if isCandidate (readSegHeader flash offs) && (match found with
      | none => true
      | some (seqId, _) => isLaterSeqId (readSegHeader flash offs).seqId seqId) then
    some ((readSegHeader flash offs).seqId, offs)
  else found

theorem latestSeg_eq_foldl (flash : Image) (isCandidate : SegHeader → Bool) (offsets : List Nat) :
    latestSeg flash isCandidate offsets = offsets.foldl (latestStep flash isCandidate) none := rfl

variable {isCandidate : SegHeader → Bool}

theorem latestStep_of_not {flash : Image}
    (h : isCandidate (readSegHeader flash offs) = false) (found : Option (UInt8 × Nat)) :
    latestStep flash isCandidate found offs = found := by
  unfold latestStep
  rw [h, Bool.false_and, if_neg Bool.false_ne_true]

theorem latestStep_cases (flash : Image) (isCandidate : SegHeader → Bool)
    (found : Option (UInt8 × Nat)) (offs : Nat) : latestStep flash isCandidate found offs =
      some ((readSegHeader flash offs).seqId, offs) ∨
      latestStep flash isCandidate found offs = found :=
  ite_eq_or_eq ..

/-- Without a candidate nothing is found. -/
theorem latestSeg_none {flash : Image}
    (h : ∀ offs ∈ offsets, isCandidate (readSegHeader flash offs) = false) :
    latestSeg flash isCandidate offsets = none := by
  rw [latestSeg_eq_foldl]
  induction offsets with
  | nil => rfl
  | cons offs rest ih =>
    rw [foldl_cons, latestStep_of_not (h offs mem_cons_self)]
    exact ih fun o ho => h o (mem_cons_of_mem _ ho)

/-- What a search that keeps the last choice finds was chosen. -/
theorem foldl_choice {α β : Type} (chooses : Option β → α → Bool) (make : α → β) {elements : List α}
    {start : Option β} {found : β}
    (h : elements.foldl (fun best a => if chooses best a then some (make a) else best) start =
      some found) :
    start = some found ∨ ∃ a ∈ elements, found = make a ∧ ∃ best, chooses best a = true := by
  induction elements generalizing start with
  | nil => exact .inl h
  | cons a elements ih =>
    rcases ih h with hstart | ⟨a', hmem, hfacts⟩
    · dsimp only at hstart
      split at hstart
      · rename_i hchoice
        exact .inr ⟨a, mem_cons_self, (Option.some.inj hstart).symm, start, hchoice⟩
      · exact .inl hstart
    · exact .inr ⟨a', mem_cons_of_mem _ hmem, hfacts⟩

section

variable {f : Image} {seqId : UInt8}

theorem previousSeg_mem (h : previousSeg f seqId offsets = some offs) :
    offs ∈ offsets ∧ isValidRegionSegHeader (readSegHeader f offs) = true ∧
      seqId - (readSegHeader f offs).seqId = 1 := by
  rcases foldl_choice (fun _ offs => isValidRegionSegHeader (readSegHeader f offs) &&
    seqId - (readSegHeader f offs).seqId == 1) id h with hnone | ⟨a, hmem, rfl, -, hchoice⟩
  · cases hnone
  · obtain ⟨hvalid, hseq⟩ := Bool.and_eq_true_iff.mp hchoice
    exact ⟨hmem, hvalid, beq_iff_eq.mp hseq⟩

/-- A predecessor is found if there is one. -/
theorem previousSeg_ne_none (hmem : offs ∈ offsets)
    (hvalid : isValidRegionSegHeader (readSegHeader f offs) = true)
    (hseq : seqId - (readSegHeader f offs).seqId = 1) : previousSeg f seqId offsets ≠ none := by
  have hkeep : ∀ (rest : List Nat) (start : Option Nat), offs ∈ rest ∨ start ≠ none →
      rest.foldl (fun found offs => if isValidRegionSegHeader (readSegHeader f offs) &&
        seqId - (readSegHeader f offs).seqId == 1 then some offs else found) start ≠ none := by
    intro rest
    induction rest with
    | nil => exact fun start h => h.resolve_left not_mem_nil
    | cons first rest ih =>
      intro start h
      apply ih
      dsimp only
      split
      · exact .inr nofun
      · rename_i hno
        rcases h with h | h
        · refine (mem_cons.mp h).elim (fun heq => ?_) .inl
          rw [← heq, hvalid, hseq] at hno
          exact absurd rfl hno
        · exact .inr h
  exact hkeep offsets none (.inl hmem)

end

section

variable {f : Image} {cur : Nat} {seqId : UInt8}

theorem latestStep_valid (h : Holds f offs (newSegHeader r seqId)) :
    latestStep f isValidRegionSegHeader none offs = some (seqId, offs) ∧
      ∀ seqId' offs', latestStep f isValidRegionSegHeader (some (seqId', offs')) offs =
        if isLaterSeqId seqId seqId' then some (seqId, offs) else some (seqId', offs') := by
  unfold latestStep
  rw [readSegHeader_of_holds h, isValid_newSegHeader, seqId_newSegHeader]
  exact ⟨rfl, fun _ _ => rfl⟩

section

variable (hcur : Holds f cur (newSegHeader r seqId))
include hcur

/-- A valid segment that is later than every other one is found. -/
theorem latestSeg_of_later (hseg : IsSeg r cur)
    (hother : ∀ offs, IsSeg r offs → offs ≠ cur → segValid f offs = true →
      isLaterSeqId seqId (readSegHeader f offs).seqId = true ∧
        isLaterSeqId (readSegHeader f offs).seqId seqId = false) :
    latestSeg f isValidRegionSegHeader (segOffsets r) = some (seqId, cur) := by
  obtain ⟨hfirst, hlater⟩ := latestStep_valid hcur
  -- before `cur` the search has found nothing or an earlier segment
  have hfind : ∀ (rest : List Nat) (found : Option (UInt8 × Nat)), (∀ o ∈ rest, IsSeg r o) →
      found = some (seqId, cur) ∨ (cur ∈ rest ∧ ∀ seqId' offs, found = some (seqId', offs) →
        isLaterSeqId seqId seqId' = true) →
      rest.foldl (latestStep f isValidRegionSegHeader) found = some (seqId, cur) := by
    intro rest
    induction rest with
    | nil => exact fun found _ h => h.resolve_right fun hmem => absurd hmem.1 not_mem_nil
    | cons offs rest ih =>
      intro found hall h
      rw [foldl_cons]
      apply ih _ fun o ho => hall o (mem_cons_of_mem _ ho)
      by_cases heq : offs = cur
      · left
        rw [heq]
        rcases h with rfl | ⟨-, hearlier⟩
        · rw [hlater, isLaterSeqId_self]
          rfl
        · cases found with
          | none => exact hfirst
          | some place => rw [hlater, hearlier place.1 place.2 rfl, if_pos rfl]
      · cases hvalid : isValidRegionSegHeader (readSegHeader f offs) with
        | false =>
          rw [latestStep_of_not hvalid]
          exact h.imp_right fun hrest => ⟨(mem_cons.mp hrest.1).resolve_left (Ne.symm heq), hrest.2⟩
        | true =>
          obtain ⟨hlate, hearly⟩ := hother offs (hall offs mem_cons_self) heq hvalid
          rcases h with rfl | ⟨hmem, hearlier⟩
          · left
            simp [latestStep, hvalid, hearly]
          · refine .inr ⟨(mem_cons.mp hmem).resolve_left (Ne.symm heq),
              fun seqId' offs' hfound => ?_⟩
            rcases latestStep_cases f isValidRegionSegHeader found offs with hstep | hstep
            · obtain ⟨rfl, -⟩ := Prod.mk.inj (Option.some.inj (hstep.symm.trans hfound))
              exact hlate
            · exact hearlier seqId' offs' (hstep.symm.trans hfound)
  exact hfind _ none (fun o ho => ho) (.inr ⟨hseg, nofun⟩)

/-- A single valid segment is found. -/
theorem latestSeg_one (hseg : IsSeg r cur) (honly : OnlyValid r f [cur]) :
    latestSeg f isValidRegionSegHeader (segOffsets r) = some (seqId, cur) := by
  refine latestSeg_of_later hcur hseg fun offs hoffs hne hvalid => ?_
  rw [honly offs hoffs (by simpa using hne)] at hvalid
  cases hvalid

/-- A single valid segment has no predecessor. -/
theorem previousSeg_one
    (honly : OnlyValid r f [cur]) : previousSeg f seqId (segOffsets r) = none := by
  by_contra hsome
  obtain ⟨offs, hfound⟩ := Option.ne_none_iff_exists'.mp hsome
  obtain ⟨hseg, hvalid, hseq⟩ := previousSeg_mem hfound
  by_cases heq : offs = cur
  · rw [heq, readSegHeader_of_holds hcur, seqId_newSegHeader, UInt8.sub_self] at hseq
    exact absurd hseq (by decide)
  · exact absurd ((honly offs hseg (by simpa using heq)).symm.trans hvalid) Bool.false_ne_true

end

end

section

variable {f : Image} {old new : Nat} {seqId newSeqId : UInt8}
variable (hold : Holds f old (newSegHeader r seqId)) (hnew : Holds f new (newSegHeader r newSeqId))
variable (honly : OnlyValid r f [old, new])
include hold hnew honly

/-- Of two valid segments the later one is found. -/
theorem latestSeg_two (hseg : IsSeg r new)
    (horder : isLaterSeqId newSeqId seqId = true ∧ isLaterSeqId seqId newSeqId = false) :
    latestSeg f isValidRegionSegHeader (segOffsets r) = some (newSeqId, new) := by
  refine latestSeg_of_later hnew hseg fun offs hoffs hne hvalid => ?_
  by_cases heq : offs = old
  · rw [heq, readSegHeader_of_holds hold]
    exact horder
  · rw [honly offs hoffs (by simp [hne, heq])] at hvalid
    cases hvalid

/-- Only the earlier one can be the predecessor. -/
theorem previousSeg_eq_old (h : previousSeg f newSeqId (segOffsets r) = some offs) :
    offs = old ∧ newSeqId - seqId = 1 := by
  obtain ⟨hseg, hvalid, hseq⟩ := previousSeg_mem h
  have heq : offs = old := by
    by_contra hne
    by_cases heq : offs = new
    · rw [heq, readSegHeader_of_holds hnew, seqId_newSegHeader, UInt8.sub_self] at hseq
      exact absurd hseq (by decide)
    · exact absurd ((honly offs hseg (by simp [hne, heq])).symm.trans hvalid) Bool.false_ne_true
  rw [heq, readSegHeader_of_holds hold] at hseq
  exact ⟨heq, hseq⟩

/-- The earlier of two valid segments is the predecessor if it is one step older. -/
theorem previousSeg_two (hseg : IsSeg r old) (hstep : newSeqId - seqId = 1) :
    previousSeg f newSeqId (segOffsets r) = some old := by
  have hsome : previousSeg f newSeqId (segOffsets r) ≠ none := by
    apply previousSeg_ne_none hseg
    · exact segValid_of_holds hold
    · rw [readSegHeader_of_holds hold]
      exact hstep
  obtain ⟨offs, hfound⟩ := Option.ne_none_iff_exists'.mp hsome
  rw [hfound, (previousSeg_eq_old hold hnew honly hfound).1]

/-- A segment that is more than one step older is overlooked. -/
theorem previousSeg_two_none (hstep : newSeqId - seqId ≠ 1) :
    previousSeg f newSeqId (segOffsets r) = none := by
  by_contra hsome
  obtain ⟨offs, hfound⟩ := Option.ne_none_iff_exists'.mp hsome
  exact hstep (previousSeg_eq_old hold hnew honly hfound).2

end

end SpeakerFirmware.Nvram
