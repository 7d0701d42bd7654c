/-
# Purging a row of items of any kind

`region_copy_seg` walks over the row with `item_check_validity`: obsolete items are left
behind, valid ones are copied, and at the first item that is neither the copy ends. The
padding of an item is not copied.
-/

import SpeakerFirmware.Nvram.Set

namespace SpeakerFirmware.Nvram

open NorFlash
open List

variable {r : RegionInfo}
variable {row : List RawItem}
variable {s : RegionState}

/-- Every header with the valid state is the header of an item of the first row. -/
def Inherits (row row' : List RawItem) : Prop :=
  ∀ item' ∈ row', item'.header.state = nvramItemStateValid → ∃ item ∈ row,
    item.header = item'.header

theorem Inherits.refl (row : List RawItem) : Inherits row row :=
    fun item hmem _ => ⟨item, hmem, rfl⟩

theorem Inherits.trans {row' row'' : List RawItem} (h : Inherits row row')
    (h' : Inherits row' row'') :
    Inherits row row'' := by
  intro item'' hmem hstate
  obtain ⟨item', hmem', heq⟩ := h' item'' hmem hstate
  obtain ⟨item, hmem'', heq'⟩ := h item' hmem' (heq ▸ hstate)
  exact ⟨item, hmem'', heq'.trans heq⟩

theorem Inherits.append_right {row' : List RawItem} (h : Inherits row row') (rest : List RawItem) :
    Inherits (row ++ rest) (row' ++ rest) := by
  intro item hmem hstate
  rcases mem_append.mp hmem with hmem | hmem
  · obtain ⟨source, hmem', heq⟩ := h item hmem hstate
    exact ⟨source, mem_append_left _ hmem', heq⟩
  · exact ⟨item, mem_append_right _ hmem, rfl⟩

theorem inherits_copyRow (row : List RawItem) : Inherits row (copyRow row) := by
  intro copy hmem _
  obtain ⟨item, hmem', rfl, -⟩ := mem_copyRow hmem
  exact ⟨item, hmem', item.header_packed.symm⟩

/-! ## The purge -/

/-- The active segment holds a row, and the write offset is behind it. -/
structure Walked (r : RegionInfo) (s : RegionState) (row : List RawItem) : Prop where
  seg : IsSeg r s.segOffset
  holds : Holds s.flash (s.segOffset + nvramSegItemStartOffset) (rowBytes row)
  fits : rowEnd row ≤ r.segSize
  write : s.segWriteOffset = s.segOffset + rowEnd row
  sized : MapSized r s.itemMap
  crc : ∀ item ∈ row, item.status = .valid → item.header.crc = item.crc

/-- Besides, the rest of the segment is erased, and the bitmap marks the valid items. -/
structure Laid (r : RegionInfo) (s : RegionState) (row : List RawItem) :
    Prop extends Walked r s row where
  free : Erased s.flash (s.segOffset + rowEnd row) (r.segSize - rowEnd row)
  marks : Marks r s.itemMap RawItem.isValid row

theorem Laid.body (h : Laid r s row) :
    SegBody r s.flash s.segOffset (rowBytes row) := ⟨h.fits, h.holds, h.free⟩

theorem Laid.withBuf (h : Laid r s row) (b : List UInt8) :
    Laid r (s.withBuf b) row :=
  ⟨⟨h.seg, h.holds, h.fits, h.write, h.sized, h.crc⟩, h.free, h.marks⟩

/-- All operations stay in one of two segments. -/
def InSegs (r : RegionInfo) (first second : Nat) (ops : List Op) : Prop :=
  ∀ op ∈ ops, op.Within first (first + r.segSize) ∨ op.Within second (second + r.segSize)

/-- A copy that has retired the old segment is a row of valid items. -/
theorem laid_moved {t : RegionState} {old new : Nat} {seqId : UInt8} (hold : IsSeg r old)
    (hne : old ≠ new)
    (hseg : t.segOffset = new) (hnew : HoldsSeg r t.flash new seqId (rowBytes (copyRow row)))
    (hmarks : Marks r t.itemMap (fun _ => true) (copyRow row))
    (hcrc : ∀ item ∈ row, item.status = .valid → item.header.crc = item.crc) :
    Laid r ({ t with segWriteOffset := new + rowEnd (copyRow row) }.issue [retireOp old])
      (copyRow row) := by
  subst hseg
  have hbody := (hnew.applyAll hold (Ne.symm hne) (allWithin_retireOp (r := r))).body
  refine ⟨⟨hnew.seg, hbody.holds, hbody.fits, rfl, hmarks.sized, ?_⟩, hbody.free, ?_⟩
  · intro copy hmem hstatus
    obtain ⟨item, hitem, rfl, hvalid⟩ := mem_copyRow hmem
    rw [item.header_packed, item.crc_packed]
    exact hcrc item hitem hvalid
  · exact hmarks.congr fun copy hmem => (RawItem.isValid_iff.mpr (copyRow_isValid hmem)).symm

/-- Setting up a segment, copying the row there and retiring the old segment. -/
theorem moveSeg_row {old new : Nat} (hold : IsSeg r old)
    (hnew : IsSeg r new) (hne : old ≠ new)
    (hholds : Holds s.flash (old + nvramSegItemStartOffset) (rowBytes row))
    (hfits : rowEnd row ≤ r.segSize) (hmap : MapSized r s.itemMap)
    (hcrc : ∀ item ∈ row, item.status = .valid → item.header.crc = item.crc) (checkCrc : Bool) :
    ∃ ops, Laid r (moveSeg r s new old (rowEnd row) checkCrc) (copyRow row) ∧
      (moveSeg r s new old (rowEnd row) checkCrc).segOffset = new ∧
      Issued s (moveSeg r s new old (rowEnd row) checkCrc) ops ∧ InSegs r old new ops := by
  obtain ⟨t, copies, olds, hmove, hissued, hnone, hcopies, hseg, -, hnewSeg, hmarks⟩ :=
    moveSeg_copied checkCrc [] hold hnew hne hholds hmap le_rfl hfits (fun _ => hcrc)
      (allWithin_nil _ _)
      fun t _ => ⟨t.buf, fun _ _ hlt => absurd hlt (Nat.lt_irrefl _)⟩
  obtain rfl : olds = [] := hnone.elim id id
  have hretire : AllWithin old (old + r.segSize) [retireOp old] := allWithin_retireOp
  rw [append_nil] at hissued
  rw [hmove]
  refine ⟨_, laid_moved hold hne hseg hnewSeg hmarks hcrc, hseg,
    Issued.trans ⟨hissued.flash, hissued.ops⟩ ⟨rfl, rfl⟩, ?_⟩
  intro op hop
  rcases mem_append.mp hop with hop | hop
  · rcases mem_append.mp hop with hop | hop
    · exact .inr (allWithin_initOps op hop)
    · exact .inr ((hcopies.mono (Nat.le_add_right _ _) le_rfl) op hop)
  · exact .inl (hretire op hop)

/-- A purge leaves the valid items before the first invalid one. -/
theorem Walked.purge (h : Walked r s row) (checkCrc : Bool) :
    ∃ ops, Laid r (regionPurgeSeg r s checkCrc) (copyRow row) ∧
      (regionPurgeSeg r s checkCrc).segOffset = nextSegOffset r s ∧
      Issued s (regionPurgeSeg r s checkCrc) ops ∧
        InSegs r s.segOffset (nextSegOffset r s) ops := by
  obtain ⟨hnew, hne⟩ := isSeg_nextSegOffset h.seg
  obtain ⟨b, pre, hpre, hwithin, -⟩ := clearNext_eq (r := r) h.seg
  have hdisjoint := h.seg.disjoint hnew (Ne.symm hne)
  have hfits := h.fits
  have hend : rowEnd row = nvramSegItemStartOffset + (rowBytes row).length := rfl
  have hholds :
      Holds (applyAll pre s.flash) (s.segOffset + nvramSegItemStartOffset) (rowBytes row) :=
    hwithin.holds h.holds (by omega)
  have hpurge := regionPurgeSeg_moves hpre h.write checkCrc
  obtain ⟨ops, hlaid, hseg, hissued, hops⟩ := moveSeg_row (s := (s.issue pre).withBuf b) h.seg hnew
    (Ne.symm hne) hholds h.fits h.sized h.crc checkCrc
  rw [← hpurge] at hlaid hseg hissued
  refine ⟨pre ++ ops, hlaid, hseg, Issued.trans ⟨rfl, rfl⟩ hissued, fun op hop => ?_⟩
  rcases mem_append.mp hop with hop | hop
  · exact .inr (hwithin op hop)
  · exact hops op hop

end SpeakerFirmware.Nvram
