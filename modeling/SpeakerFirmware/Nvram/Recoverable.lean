/-
# Flashes a scan can recover

Power may be lost behind any flash operation. The module describes the flashes that
are left behind: one valid segment, with at most one torn item at the end of its
row, or two valid segments with consecutive sequence numbers, where the older one
is complete. It follows the operations of a move from one segment to another and
shows which of these flashes they pass through.
-/

import SpeakerFirmware.Nvram.Contents

namespace SpeakerFirmware.Nvram

open NorFlash
open List

variable {r : RegionInfo}
variable {offs : Nat} {copies : List Op}

/-! ## Sector erases -/

/-- Erasing a sector erases a header or leaves it alone. -/
theorem header_erase (f : Image) {addr : Nat} (hoffs : IsSeg r offs)
    (haddr : nvramEraseAlignSize ∣ addr) :
    (addr = offs ∧ Erased ((Op.erase addr nvramEraseAlignSize).apply f) offs segHeaderSize) ∨
      (addr ≠ offs ∧ ∀ a, offs ≤ a → a < offs + segHeaderSize →
        (Op.erase addr nvramEraseAlignSize).apply f a = f a) := by
  have halign := hoffs.aligned
  simp only [nvramEraseAlignSize, segHeaderSize] at haddr halign ⊢
  by_cases heq : addr = offs
  · left
    refine ⟨heq, ?_⟩
    intro a hlo hhi
    simp only [Op.apply]
    rw [if_pos (by omega)]
  · right
    refine ⟨heq, ?_⟩
    intro a hlo hhi
    exact Op.apply_erase_outside f (by omega)

/-- Erasing a sector makes no header appear. -/
theorem isSegHeaderInState_erase {f : Image} {addr : Nat} {state : UInt8} (hoffs : IsSeg r offs)
    (haddr : nvramEraseAlignSize ∣ addr)
    (h : isSegHeaderInState state (readSegHeader f offs) = false) :
    isSegHeaderInState state
      (readSegHeader ((Op.erase addr nvramEraseAlignSize).apply f) offs) = false := by
  rcases header_erase f hoffs haddr with ⟨-, herased⟩ | ⟨-, hsame⟩
  · exact isSegHeaderInState_erased herased state
  · rw [readSegHeader, read_congr hsame]
    exact h

theorem OnlyValid.erase {f : Image} {offsets : List Nat} {addr : Nat} (h : OnlyValid r f offsets)
    (haddr : nvramEraseAlignSize ∣ addr) :
    OnlyValid r ((Op.erase addr nvramEraseAlignSize).apply f) offsets :=
  fun offs hseg hnot => isSegHeaderInState_erase hseg haddr (h offs hseg hnot)

/-- What every sector erase of a segment keeps holds along the erase of the segment. -/
theorem along_eraseOps {P : Image → Prop} (hoffs : IsSeg r offs)
    (hstep : ∀ g addr, offs ≤ addr → addr + nvramEraseAlignSize ≤ offs + r.segSize →
      nvramEraseAlignSize ∣ addr → P g → P ((Op.erase addr nvramEraseAlignSize).apply g))
    (f : Image) {g : Image} (hg : P g) : Along P g (eraseOps f (segSectors r) offs) := by
  have hall : ∀ (sectors addr : Nat) (g : Image), offs ≤ addr →
      addr + sectors * nvramEraseAlignSize ≤ offs + r.segSize → nvramEraseAlignSize ∣ addr →
      P g → Along P g (eraseOps f sectors addr) := by
    intro sectors
    induction sectors with
    | zero =>
      intro addr g _ _ _ hg
      exact hg
    | succ sectors ih =>
      intro addr g hlo hhi hdvd hg
      rw [Nat.succ_mul] at hhi
      have hnext : ∀ g, P g →
          Along P g (eraseOps f sectors (addr + nvramEraseAlignSize)) := fun g hg =>
        ih _ g (by omega) (by omega) (Nat.dvd_add hdvd (Nat.dvd_refl _)) hg
      rw [eraseOps]
      cases hempty : isErased f addr nvramEraseAlignSize with
      | true =>
        rw [if_pos rfl, nil_append]
        exact hnext g hg
      | false =>
        rw [if_neg Bool.false_ne_true, singleton_append]
        exact ⟨hg, hnext _ (hstep g addr hlo (by omega) hdvd hg)⟩
  exact hall _ offs g le_rfl (by rw [segSectors_mul])
    (Nat.dvd_of_mod_eq_zero hoffs.aligned) hg

/-! ## The flashes -/

/-- No segment has a header in either state. -/
def Blank (r : RegionInfo) (f : Image) : Prop :=
  ∀ offs, IsSeg r offs → isValidRegionSegHeader (readSegHeader f offs) = false ∧
    isValidMergeRegionSegHeader (readSegHeader f offs) = false

/-- An item that was written only in part: its header and its name look right, its
checksum does not. -/
structure IsTorn (tail : List UInt8) : Prop where
  magic : (ItemHeader.mk (tail.take itemHeaderSize)).magic = nvramRegionItemMagic
  state : (ItemHeader.mk (tail.take itemHeaderSize)).state = nvramItemStateValid
  size : tail.length = itemGetAlignedSize ⟨tail.take itemHeaderSize⟩
  hash : (ItemHeader.mk (tail.take itemHeaderSize)).hash =
    calcHash ((tail.drop itemHeaderSize).take
      (ItemHeader.mk (tail.take itemHeaderSize)).nameSize)
  crc : (ItemHeader.mk (tail.take itemHeaderSize)).crc ≠
    calcCrc8 ((tail.drop
      (itemHeaderSize + (ItemHeader.mk (tail.take itemHeaderSize)).nameSize)).take
        (ItemHeader.mk (tail.take itemHeaderSize)).dataSize)
      (calcCrc8 ((tail.drop itemHeaderSize).take
          (ItemHeader.mk (tail.take itemHeaderSize)).nameSize)
        (calcCrc8 ((tail.take itemHeaderSize).drop nvramRegionItemCrcOffset) 0))

/-- One valid segment, with a row of slots and perhaps a torn item behind it. -/
structure OneSeg (r : RegionInfo) (f : Image) (cur : Nat) (seqId : UInt8) (slots : List Slot)
    (tail : List UInt8) : Prop where
  holds : HoldsSeg r f cur seqId (slotsBytes slots ++ tail)
  only : OnlyValid r f [cur]
  torn : tail = [] ∨ IsTorn tail

/-- Two valid segments: a complete one, and the header of the one its items are
moved to. -/
structure TwoSegs (r : RegionInfo) (f : Image) (old new : Nat) (seqId newSeqId : UInt8)
    (slots : List Slot) : Prop where
  holds : HoldsSeg r f old seqId (slotsBytes slots)
  header : Holds f new (newSegHeader r newSeqId)
  only : OnlyValid r f [old, new]

/-- The scan of this flash finds the map `m`. -/
inductive Recoverable (r : RegionInfo) (f : Image) :
    (List UInt8 → Option (List UInt8)) → Prop
  | blank (h : Blank r f) : Recoverable r f fun _ => none
  | one {cur : Nat} {seqId : UInt8} {slots : List Slot} {tail : List UInt8}
      (h : OneSeg r f cur seqId slots tail) : Recoverable r f (contents slots)
  | two {old new : Nat} {seqId : UInt8} {slots : List Slot} (hnew : IsSeg r new) (hne : old ≠ new)
      (h : TwoSegs r f old new seqId (seqId + 1) slots) : Recoverable r f (contents slots)

/-- Two valid segments have sequence numbers that differ by two. -/
def TwoApart (r : RegionInfo) (f : Image) : Prop :=
  ∃ first ∈ segOffsets r, ∃ second ∈ segOffsets r,
    segValid f first = true ∧ segValid f second = true ∧
      (readSegHeader f first).seqId = (readSegHeader f second).seqId + 2

instance (r : RegionInfo) (f : Image) : Decidable (TwoApart r f) :=
  inferInstanceAs (Decidable (∃ first ∈ segOffsets r, ∃ second ∈ segOffsets r, _))

/-! ## Along a move -/

section

variable {f : Image} {old new addr : Nat} {seqId newSeqId : UInt8} {slots : List Slot}
variable {tail : List UInt8}

theorem allWithin_erase (hlo : new ≤ addr) (hhi : addr + nvramEraseAlignSize ≤ new + r.segSize) :
    AllWithin new (new + r.segSize) [Op.erase addr nvramEraseAlignSize] :=
  allWithin_cons.mpr ⟨⟨hlo, hhi⟩, allWithin_nil _ _⟩

theorem OneSeg.erase (h : OneSeg r f old seqId slots tail) (hnew : IsSeg r new) (hne : old ≠ new)
    (hlo : new ≤ addr) (hhi : addr + nvramEraseAlignSize ≤ new + r.segSize)
    (hdvd : nvramEraseAlignSize ∣ addr) :
    OneSeg r ((Op.erase addr nvramEraseAlignSize).apply f) old seqId slots tail :=
  ⟨h.holds.applyAll hnew hne (allWithin_erase hlo hhi), h.only.erase hdvd, h.torn⟩

/-- Erasing the newer of two segments leaves both or the older one. -/
theorem TwoSegs.erase (h : TwoSegs r f old new seqId newSeqId slots) (hnew : IsSeg r new)
    (hne : old ≠ new) (hlo : new ≤ addr) (hhi : addr + nvramEraseAlignSize ≤ new + r.segSize)
    (hdvd : nvramEraseAlignSize ∣ addr) :
    TwoSegs r ((Op.erase addr nvramEraseAlignSize).apply f) old new seqId newSeqId slots ∨
      OneSeg r ((Op.erase addr nvramEraseAlignSize).apply f) old seqId slots [] := by
  have hold : HoldsSeg r ((Op.erase addr nvramEraseAlignSize).apply f) old seqId
      (slotsBytes slots) := h.holds.applyAll hnew hne (allWithin_erase hlo hhi)
  have honly := h.only.erase hdvd
  rcases header_erase f hnew hdvd with ⟨-, herased⟩ | ⟨-, hsame⟩
  · right
    refine ⟨by rwa [append_nil], honly.mono ?_, .inl rfl⟩
    intro offs hmem
    rcases mem_cons.mp hmem with heq | hmem
    · exact .inl (mem_singleton.mpr heq)
    · rw [mem_singleton.mp hmem]
      exact .inr (segValid_erased herased)
  · left
    refine ⟨hold, ?_, honly⟩
    unfold Holds
    rw [length_newSegHeader, read_congr hsame]
    exact h.header

/-- Writing the header of the next segment. -/
theorem twoSegs_header (hold : HoldsSeg r f old seqId (slotsBytes slots))
    (honly : OnlyValid r f [old, new]) (hnew : IsSeg r new) (hne : old ≠ new)
    (hfree : Erased f new r.segSize) :
    TwoSegs r ((Op.program new (newSegHeader r newSeqId)).apply f) old new seqId newSeqId
      slots := by
  have hsize := header_le_segSize r
  have hin : AllWithin new (new + r.segSize) [Op.program new (newSegHeader r newSeqId)] := by
    refine allWithin_cons.mpr ⟨⟨le_rfl, ?_⟩, allWithin_nil _ _⟩
    rw [length_newSegHeader]
    simp only [segHeaderSize]
    omega
  exact ⟨hold.applyAll hnew hne hin, (holdsSeg_header _ hnew hfree).header,
    honly.congr_of_mem hnew (mem_cons_of_mem _ mem_cons_self)
      fun a ha => hin.applyAll_eq f ha⟩

/-- Copying into the body of the newer segment. -/
theorem TwoSegs.along_copies (h : TwoSegs r f old new seqId newSeqId slots) (hnew : IsSeg r new)
    (hne : old ≠ new)
    (hcopies : AllWithin (new + nvramSegItemStartOffset) (new + r.segSize) copies) :
    Along (fun g => TwoSegs r g old new seqId newSeqId slots) f copies := by
  apply hcopies.along h
  intro f g hsame h
  have hsame' : ∀ a, a < new ∨ new + r.segSize ≤ a → g a = f a :=
    fun a ha => hsame a (ha.imp (fun hlt => by omega) id)
  refine ⟨h.holds.congr fun a hlo hhi => hsame' a ?_, ?_, ?_⟩
  · rcases h.holds.seg.disjoint hnew hne with hbefore | hafter
    · exact .inl (by omega)
    · exact .inr (by omega)
  · unfold Holds
    have hheader : read g new segHeaderSize = read f new segHeaderSize :=
      read_congr fun a hlo hhi => hsame a (.inl hhi)
    rw [length_newSegHeader, hheader]
    exact h.header
  · exact h.only.congr_of_mem hnew (mem_cons_of_mem _ mem_cons_self) hsame'

/-- The flash behind the header of a move. -/
theorem twoSegs_initOps (hold : HoldsSeg r f old seqId (slotsBytes slots))
    (honly : OnlyValid r f [old, new]) (hnew : IsSeg r new) (hne : old ≠ new) :
    TwoSegs r (applyAll (initOps r f new newSeqId) f) old new seqId newSeqId slots := by
  have hwithin := allWithin_eraseSeg (r := r) f new
  have honly' : OnlyValid r (applyAll (eraseOps f (segSectors r) new) f) [old, new] :=
    honly.congr_of_mem hnew (mem_cons_of_mem _ mem_cons_self)
      fun a ha => hwithin.applyAll_eq f ha
  rw [initOps, applyAll_append]
  exact twoSegs_header (hold.applyAll hnew hne hwithin) honly' hnew hne (erased_eraseSeg f new)

/-- The flashes a move passes through: those of the erase, those with two valid
segments, and the one at the end. -/
theorem Moved.along {s t : RegionState} {P : Image → Prop}
    (h : Moved r s t old new slots copies) (hnew : IsSeg r new) (hne : old ≠ new)
    (hold : HoldsSeg r s.flash old seqId (slotsBytes slots))
    (honly : OnlyValid r s.flash [old, new])
    (herase : Along P s.flash (eraseOps s.flash (segSectors r) new))
    (hmid : ∀ g, TwoSegs r g old new seqId (s.segSeqId + 1) slots → P g) (hend : P t.flash) :
    Along P s.flash (initOps r s.flash new (s.segSeqId + 1) ++ (copies ++ [retireOp old])) := by
  have htwo : TwoSegs r (applyAll (initOps r s.flash new (s.segSeqId + 1)) s.flash) old new seqId
      (s.segSeqId + 1) slots := twoSegs_initOps hold honly hnew hne
  have hcopies := htwo.along_copies hnew hne h.copies_within
  have hflash := h.issued.flash
  rw [applyAll_append, applyAll_append] at hflash
  rw [along_append, along_append]
  refine ⟨?_, hcopies.mono hmid, hmid _ hcopies.last, ?_⟩
  · rw [initOps, along_append]
    rw [initOps, applyAll_append] at htwo
    exact ⟨herase, herase.last, hmid _ htwo⟩
  · rw [hflash] at hend
    exact hend

end

/-- Behind a move only the new segment is valid. -/
theorem Moved.only {s t : RegionState} {old new : Nat} {slots : List Slot}
    (h : Moved r s t old new slots copies) (hold : IsSeg r old) (hnew : IsSeg r new)
    (honly : OnlyValid r s.flash [old, new]) : OnlyValid r t.flash [new] := by
  have hcopies := h.copies_within.mono (Nat.le_add_right new _) le_rfl
  have hsame : ∀ a, a < new ∨ new + r.segSize ≤ a →
      (a < old ∨ old + r.segSize ≤ a) → t.flash a = s.flash a := by
    intro a ha ha'
    rw [h.issued.flash, applyAll_append, applyAll_append,
      (allWithin_retireOp (r := r)).applyAll_eq _ ha', hcopies.applyAll_eq _ ha,
      allWithin_initOps.applyAll_eq _ ha]
  have hsize := header_le_segSize r
  intro offs hseg hnot
  by_cases heq : offs = old
  · rw [heq]
    exact h.retired
  · have hne : offs ≠ new := by simpa using hnot
    have hread : ∀ a, offs ≤ a → a < offs + segHeaderSize → t.flash a = s.flash a := by
      intro a hlo hhi
      simp only [segHeaderSize] at hhi
      apply hsame
      · rcases hseg.disjoint hnew hne with hbefore | hafter
        · exact .inl (by omega)
        · exact .inr (by omega)
      · rcases hseg.disjoint hold heq with hbefore | hafter
        · exact .inl (by omega)
        · exact .inr (by omega)
    rw [segValid_congr hread]
    exact honly offs hseg (by simp [heq, hne])

end SpeakerFirmware.Nvram
