/-
# Moving to a new segment

`region_purge_seg` and the merge of `region_scan` do the same three things: set up
an empty segment, copy the live items of another one into it, and mark that one
obsolete. The module gives the flash and the bitmap behind these steps, and keeps
the issued operations apart so that power loss between them can be discussed.
-/

import SpeakerFirmware.Nvram.Copy
import SpeakerFirmware.Nvram.Walk

namespace SpeakerFirmware.Nvram

open NorFlash
open List

variable {r : RegionInfo}
variable {s : RegionState} {f : Image} {offs : Nat} {bytes : List UInt8} {map : List (BitVec 32)}
variable {slots rest : List Slot} {item : Item} {row : List RawItem}

theorem length_live (item : Item) : (Slot.live item).bytes.length = item.size := by
  rw [Slot.length_bytes]
  exact item.header_size

theorem length_bytes_le_size (item : Item) : item.bytes.length ≤ item.size := by
  rw [item.length_bytes]
  exact itemCalcAlignedSize_ge _ _

/-! ## The bitmap -/

theorem marksLive_clearAll (h : MapSized r map) :
    MarksLive r (itemBitmapClearAll map) [] :=
  marksLive_iff.mpr (marks_clearAll _ h)

/-- Marking a new item at the end of the row. -/
theorem MarksLive.append_live (h : MarksLive r map slots) :
    MarksLive r (itemBitmapUpdate map (endOffset slots) true) (slots ++ [.live item]) := by
  have hmarks := (marksLive_iff.mp h).append (Slot.isValid_live item)
  rw [rowEnd_rawRow] at hmarks
  rw [marksLive_iff, rawRow_append]
  exact hmarks

/-- An obsolete slot is not marked. -/
theorem MarksLive.append_dead {obsolete : IsDead bytes} (h : MarksLive r map slots) :
    MarksLive r map (slots ++ [.dead bytes obsolete]) := by
  rw [marksLive_iff, rawRow_append]
  exact (marksLive_iff.mp h).append_unmarked (Slot.isValid_dead obsolete)

/-- Unmarking a slot that becomes obsolete. -/
theorem MarksLive.obsolete {done : List Slot} {dead : IsDead bytes}
    (hlen : bytes.length = (Slot.live item).bytes.length)
    (h : MarksLive r map (done ++ .live item :: rest)) :
    MarksLive r (itemBitmapUpdate map (endOffset done) false)
      (done ++ .dead bytes dead :: rest) := by
  rw [marksLive_iff, rawRow_append, rawRow_cons] at h ⊢
  rw [← rowEnd_rawRow]
  exact h.unmark hlen (Slot.isValid_dead dead)

/-! ## A new segment -/

/-- A header is one operation. -/
theorem nvramStorageWrite_newSegHeader (addr : Nat) (seqId : UInt8) :
    nvramStorageWrite addr (newSegHeader r seqId) = [.program addr (newSegHeader r seqId)] := rfl

/-- The number of erase sectors of a segment. -/
def segSectors (r : RegionInfo) : Nat := r.segSize / nvramEraseAlignSize

theorem segSectors_mul (r : RegionInfo) : segSectors r * nvramEraseAlignSize = r.segSize :=
  Nat.div_mul_cancel r.sector_dvd

/-- `region_erase` of a whole segment. -/
theorem regionErase_seg (s : RegionState) (hseg : IsSeg r offs) :
    ∃ b, regionErase r s offs r.segSize =
      (s.issue (eraseOps s.flash (segSectors r) offs)).withBuf b := by
  have h := regionErase_eq (r := r) s offs (segSectors r)
    (by rw [segSectors_mul]; exact hseg.le) hseg.aligned
  rwa [segSectors_mul] at h

theorem allWithin_eraseSeg (f : Image) (offs : Nat) :
    AllWithin offs (offs + r.segSize) (eraseOps f (segSectors r) offs) := by
  have h := allWithin_eraseOps f (segSectors r) offs
  rwa [segSectors_mul] at h

theorem erased_eraseSeg (f : Image) (offs : Nat) :
    Erased (applyAll (eraseOps f (segSectors r) offs) f) offs r.segSize := by
  have h := erased_eraseOps f (segSectors r) offs
  rwa [segSectors_mul] at h

/-- The operations of `region_init_new_seg`. -/
def initOps (r : RegionInfo) (f : Image) (offs : Nat) (seqId : UInt8) : List Op :=
  eraseOps f (segSectors r) offs ++ [.program offs (newSegHeader r seqId)]

theorem allWithin_initOps {seqId : UInt8} :
    AllWithin offs (offs + r.segSize) (initOps r f offs seqId) := by
  have hsize := header_le_segSize r
  rw [initOps, allWithin_append]
  refine ⟨allWithin_eraseSeg f offs, allWithin_cons.mpr ⟨⟨le_rfl, ?_⟩, allWithin_nil _ _⟩⟩
  rw [length_newSegHeader]
  simp only [segHeaderSize]
  omega

/-- An erased segment with a new header is a valid and empty one. -/
theorem holdsSeg_header (seqId : UInt8) (hseg : IsSeg r offs)
    (hfree : Erased f offs r.segSize) :
    HoldsSeg r ((Op.program offs (newSegHeader r seqId)).apply f) offs seqId [] := by
  have hsize := header_le_segSize r
  have hin : AllWithin offs (offs + segHeaderSize) [Op.program offs (newSegHeader r seqId)] :=
    allWithin_cons.mpr ⟨⟨le_rfl, le_rfl⟩, allWithin_nil _ _⟩
  refine ⟨hseg, (hfree.mono le_rfl ?_).program, ?_, holds_nil _ _, ?_⟩
  · rw [length_newSegHeader]
    simp only [segHeaderSize]
    omega
  · simp only [nvramSegItemStartOffset, length_nil]
    omega
  · apply hin.erased (hfree.mono (by omega) _) (.inr _)
    · simp only [nvramSegItemStartOffset, length_nil]
      omega
    · exact le_rfl

/-- What `region_init_new_seg` leaves behind. -/
structure NewSeg (r : RegionInfo) (s t : RegionState) (offs : Nat) : Prop where
  issued : Issued s t (initOps r s.flash offs (s.segSeqId + 1))
  segOffset : t.segOffset = offs
  segSeqId : t.segSeqId = s.segSeqId + 1
  segWriteOffset : t.segWriteOffset = offs + nvramSegItemStartOffset
  holds : HoldsSeg r t.flash offs (s.segSeqId + 1) []
  marks : MarksLive r t.itemMap []

theorem newSeg_regionInitNewSeg (hseg : IsSeg r offs)
    (hmap : MapSized r s.itemMap) : NewSeg r s (regionInitNewSeg r s offs) offs := by
  have hsize := header_le_segSize r
  have hle := hseg.le
  obtain ⟨b, hb⟩ := regionErase_seg s hseg
  have hin : offs + (newSegHeader r (s.segSeqId + 1)).length ≤ r.totalSize := by
    rw [length_newSegHeader]
    simp only [segHeaderSize]
    omega
  unfold regionInitNewSeg
  rw [hb]
  dsimp only
  rw [regionWrite_eq _ hin, nvramStorageWrite_newSegHeader, issue_withBuf, issue_issue]
  refine ⟨⟨rfl, rfl⟩, rfl, rfl, rfl, ?_, ?_⟩
  · have h := holdsSeg_header (s.segSeqId + 1) hseg
      (erased_eraseSeg s.flash offs)
    have hflash : applyAll (initOps r s.flash offs (s.segSeqId + 1)) s.flash =
        (Op.program offs (newSegHeader r (s.segSeqId + 1))).apply
          (applyAll (eraseOps s.flash (segSectors r) offs) s.flash) := by
      rw [initOps, applyAll_append]
      rfl
    rw [← hflash] at h
    exact h
  · exact marksLive_clearAll hmap

/-! ## The copy of a row of slots -/

/-- The row that a copy of the live items makes. -/
def liveSlots (slots : List Slot) : List Slot := (liveItems slots).map Slot.live

@[simp]
theorem liveSlots_live (item : Item) (slots : List Slot) :
    liveSlots (.live item :: slots) = .live item :: liveSlots slots := rfl

@[simp]
theorem liveSlots_dead (bytes : List UInt8) (obsolete : IsDead bytes) (slots : List Slot) :
    liveSlots (.dead bytes obsolete :: slots) = liveSlots slots := rfl

theorem liveItems_liveSlots (slots : List Slot) :
    liveItems (liveSlots slots) = liveItems slots := by
  simp [liveSlots, liveItems, filterMap_map, Function.comp_def, Slot.item?]

theorem length_liveSlots_le (slots : List Slot) :
    (slotsBytes (liveSlots slots)).length ≤ (slotsBytes slots).length := by
  induction slots with
  | nil => exact le_rfl
  | cons slot rest ih =>
    cases slot with
    | live item =>
      simp only [liveSlots_live, slotsBytes_cons, length_append]
      omega
    | dead bytes obsolete =>
      simp only [liveSlots_dead, slotsBytes_cons, length_append]
      omega

theorem Item.packed_raw (item : Item) : item.raw.packed = item.raw := by
  have hreal : item.raw.real = item.bytes.length := by
    rw [RawItem.real, item.header_raw, item.header_nameSize, item.header_dataSize,
      item.length_bytes]
  have hbytes : item.raw.packed.bytes = item.raw.bytes := by
    change item.raw.packedBytes = item.bytes ++ List.replicate (item.size - item.bytes.length) 0xff
    rw [RawItem.packedBytes, hreal]
    change take _ (item.bytes ++ _) ++ List.replicate ((item.bytes ++ _).length - _) _ = _
    rw [take_left, length_append, length_replicate, Nat.add_sub_cancel_left]
  exact RawItem.ext hbytes

/-- The live slots are what a copy makes of a row of slots. -/
theorem copyRow_rawRow (slots : List Slot) : copyRow (rawRow slots) = rawRow (liveSlots slots) := by
  induction slots with
  | nil => rfl
  | cons slot rest ih =>
    cases slot with
    | live item =>
      have hstatus : (Slot.live item).raw.status = .valid := item.status_raw
      rw [rawRow_cons, copyRow_valid hstatus, ih]
      exact congrArg (· :: _) item.packed_raw
    | dead bytes obsolete =>
      rw [rawRow_cons, copyRow_obsolete (Slot.status_dead obsolete), ih]
      rfl

/-! ## The move -/

theorem succ_length_slots_lt (slots : List Slot) : slots.length + 1 < endOffset slots := by
  induction slots using List.reverseRecOn with
  | nil => decide
  | append_singleton slots slot ih =>
    have hpos := slot.length_ge
    rw [endOffset_append_cons, length_append, length_singleton]
    simp only [nvramItemAlignSize] at hpos
    omega

theorem length_slots_lt (slots : List Slot) : slots.length < endOffset slots :=
  Nat.lt_of_succ_lt (succ_length_slots_lt slots)

/-- The steps that `region_purge_seg` and the merge of `region_scan` share. -/
def moveSeg (r : RegionInfo) (s : RegionState) (new old copySize : Nat) (checkCrc : Bool) :
    RegionState :=
  regionSegUpdateState r (regionCopySeg r (regionInitNewSeg r s new) new old copySize checkCrc) old
    nvramRegionSegStateObsolete

/-- The first part of `region_purge_seg`, which clears the next segment. -/
def clearNext (r : RegionInfo) (s : RegionState) : RegionState :=
  let checked := regionIsEmpty r.segSize s (nextSegOffset r s) r.segSize
  if checked.2 then checked.1 else regionErase r checked.1 (nextSegOffset r s) r.segSize

theorem regionPurgeSeg_eq (s : RegionState) (checkCrc : Bool) :
    regionPurgeSeg r s checkCrc = moveSeg r (clearNext r s) (nextSegOffset r s)
      (clearNext r s).segOffset
      ((clearNext r s).segWriteOffset - (clearNext r s).segOffset) checkCrc := rfl

theorem clearNext_eq (hseg : IsSeg r s.segOffset) :
    ∃ b ops, clearNext r s = (s.issue ops).withBuf b ∧
      AllWithin (nextSegOffset r s) (nextSegOffset r s + r.segSize) ops ∧
      (ops = [] ∨ ops = eraseOps s.flash (segSectors r) (nextSegOffset r s)) := by
  obtain ⟨hnew, -⟩ := isSeg_nextSegOffset hseg
  obtain ⟨b, hb⟩ := regionIsEmpty_eq r.segSize s (nextSegOffset r s) r.segSize le_rfl
    (Nat.dvd_trans (by decide) r.sector_dvd)
  rw [clearNext, hb]
  cases hempty : isErased s.flash (nextSegOffset r s) r.segSize with
  | true => exact ⟨b, [], by simp, allWithin_nil _ _, .inl rfl⟩
  | false =>
    obtain ⟨b', hb'⟩ := regionErase_seg (s.withBuf b) hnew
    refine ⟨b', eraseOps s.flash (segSectors r) (nextSegOffset r s), ?_, allWithin_eraseSeg _ _,
      .inr rfl⟩
    dsimp only
    rw [if_neg Bool.false_ne_true, hb', withBuf_flash, issue_withBuf, withBuf_withBuf]

/-- A purge is a move of the bytes up to the write offset. -/
theorem regionPurgeSeg_moves {b : List UInt8} {pre : List Op} {size : Nat}
    (hclear : clearNext r s = (s.issue pre).withBuf b)
    (hwrite : s.segWriteOffset = s.segOffset + size)
    (checkCrc : Bool) : regionPurgeSeg r s checkCrc =
      moveSeg r ((s.issue pre).withBuf b) (nextSegOffset r s) s.segOffset size checkCrc := by
  have hsize : (s.issue pre).segWriteOffset - (s.issue pre).segOffset = size := by
    simp only [RegionState.issue]
    omega
  rw [regionPurgeSeg_eq, hclear, withBuf_segOffset, withBuf_segWriteOffset, hsize]
  rfl

/-- The operation that retires a segment. -/
def retireOp (old : Nat) : Op := .program (old + 4) [nvramRegionSegStateObsolete]

theorem retireOp_apply (f : Image) (old a : Nat) :
    (retireOp old).apply f a =
      if a = old + 4 then f a &&& nvramRegionSegStateObsolete else f a := by
  simp only [retireOp, Op.apply, length_singleton]
  by_cases heq : a = old + 4
  · rw [if_pos (by omega), if_pos heq, heq, Nat.sub_self]
    rfl
  · rw [if_neg (by omega), if_neg heq]

theorem allWithin_retireOp {old : Nat} : AllWithin old (old + r.segSize) [retireOp old] := by
  have hsize := header_le_segSize r
  refine allWithin_cons.mpr ⟨⟨by omega, ?_⟩, allWithin_nil _ _⟩
  rw [length_singleton]
  omega

/-- A retired segment is not valid. -/
theorem segValid_retireOp (f : Image) (old : Nat) :
    segValid ((retireOp old).apply f) old = false := by
  apply segValid_of_state
  rw [retireOp_apply, if_pos rfl]
  intro h
  have hbit := congrArg (fun b : UInt8 => b &&& 0x01) h
  simp only [UInt8.and_assoc] at hbit
  rw [show nvramRegionSegStateObsolete &&& 0x01 = 0 from rfl, UInt8.and_zero] at hbit
  exact absurd hbit (by decide)

/-- What a move of the live items of `slots` from `old` to `new` does. -/
structure Moved (r : RegionInfo) (s t : RegionState) (old new : Nat) (slots : List Slot)
    (copies : List Op) : Prop where
  issued : Issued s t (initOps r s.flash new (s.segSeqId + 1) ++ (copies ++ [retireOp old]))
  copies_within : AllWithin (new + nvramSegItemStartOffset) (new + r.segSize) copies
  segOffset : t.segOffset = new
  segSeqId : t.segSeqId = s.segSeqId + 1
  segWriteOffset : t.segWriteOffset = new + endOffset (liveSlots slots)
  holds : HoldsSeg r t.flash new (s.segSeqId + 1) (slotsBytes (liveSlots slots))
  marks : MarksLive r t.itemMap (liveSlots slots)
  retired : segValid t.flash old = false

/-- Setting up a segment and copying a row there. Behind the row the copy stops, perhaps with an
operation in the old segment. -/
theorem moveSeg_copied {old new copySize : Nat} (checkCrc : Bool) (olds : List Op)
    (hold : IsSeg r old) (hnew : IsSeg r new) (hne : old ≠ new)
    (hholds : Holds s.flash (old + nvramSegItemStartOffset) (rowBytes row))
    (hmap : MapSized r s.itemMap) (hsize : rowEnd row ≤ copySize) (hcopy : copySize ≤ r.segSize)
    (hcrc : checkCrc = true → ∀ item ∈ row, item.status = .valid → item.header.crc = item.crc)
    (holds : AllWithin old (old + r.segSize) olds)
    (hstop : ∀ t : RegionState, (∀ a, old ≤ a → a < old + r.segSize → t.flash a = s.flash a) →
      ∃ b, ∀ fuel place, rowEnd row < copySize →
        copySegLoop r new (old + copySize) checkCrc (fuel + 1) t (old + rowEnd row) place =
          ((t.issue olds).withBuf b, place)) :
    ∃ t copies olds', moveSeg r s new old copySize checkCrc =
        { t with segWriteOffset := new + rowEnd (copyRow row) }.issue [retireOp old] ∧
      Issued s t (initOps r s.flash new (s.segSeqId + 1) ++ (copies ++ olds')) ∧
      (olds' = [] ∨ olds' = olds) ∧
      AllWithin (new + nvramSegItemStartOffset) (new + r.segSize) copies ∧
      t.segOffset = new ∧ t.segSeqId = s.segSeqId + 1 ∧
      HoldsSeg r t.flash new (s.segSeqId + 1) (rowBytes (copyRow row)) ∧
      Marks r t.itemMap (fun _ => true) (copyRow row) := by
  have hinit := newSeg_regionInitNewSeg (s := s) hnew hmap
  generalize hs : regionInitNewSeg r s new = s₁ at hinit
  have hdisjoint := hold.disjoint hnew hne
  have hcopied := length_copyRow_le row
  have hbig := header_le_segSize r
  have hlen := length_row_lt row
  have hend : rowEnd row = nvramSegItemStartOffset + (rowBytes row).length := rfl
  have hinitOps : AllWithin new (new + r.segSize) (initOps r s.flash new (s.segSeqId + 1)) :=
    allWithin_initOps
  have hsource : Holds s₁.flash (old + nvramSegItemStartOffset) (rowBytes row) := by
    rw [hinit.issued.flash]
    exact hinitOps.holds hholds (by omega)
  obtain ⟨t, copies, hissued, hcopies, hcopying, hseg, hseq, hloop⟩ :=
    copySegLoop_row hold hnew hne checkCrc
    (old + copySize) row { s₁ with itemMap := itemBitmapClearAll s₁.itemMap } []
    (copySize - row.length) (old + nvramSegItemStartOffset)
    ⟨hsource, Nat.le_add_right _ _, by omega, by rw [rowEnd_nil]; omega, hinit.holds.body,
      marks_clearAll _ hinit.marks.sized⟩ (by omega) hcrc
  rw [nil_append, Nat.sub_add_cancel (by omega), Nat.add_assoc old, ← hend] at hloop
  rw [nil_append] at hcopying
  have hall : AllWithin new (new + r.segSize) (initOps r s.flash new (s.segSeqId + 1) ++ copies) :=
    allWithin_append.mpr ⟨hinitOps, hcopies.mono (Nat.le_add_right _ _) le_rfl⟩
  have hflash : t.flash = applyAll (initOps r s.flash new (s.segSeqId + 1) ++ copies) s.flash := by
    rw [applyAll_append, ← hinit.issued.flash]
    exact hissued.flash
  have hnewSeg : HoldsSeg r t.flash new (s.segSeqId + 1) (rowBytes (copyRow row)) := by
    refine ⟨hnew, ?_, hcopying.body⟩
    rw [hissued.flash]
    exact hcopies.holds hinit.holds.header (.inl le_rfl)
  have hdone : Issued s t (initOps r s.flash new (s.segSeqId + 1) ++ copies) :=
    hinit.issued.trans ⟨hissued.flash, hissued.ops⟩
  -- the copy stops at the end it was given, at an invalid item, or behind the row
  obtain ⟨u, olds', hfinal, hchoice, hu⟩ : ∃ u olds',
      copySegLoop r new (old + copySize) checkCrc copySize
      { s₁ with itemMap := itemBitmapClearAll s₁.itemMap } (old + nvramSegItemStartOffset)
      (new + nvramSegItemStartOffset) = (u, new + rowEnd (copyRow row)) ∧
        (olds' = [] ∨ olds' = olds) ∧
      ∃ b, u = (t.issue olds').withBuf b := by
    obtain ⟨b, hb⟩ := hstop t fun a hlo hhi => hflash ▸ hall.applyAll_eq s.flash (by omega)
    rcases hloop with hloop | hloop
    · exact ⟨t, [], hloop, .inl rfl, t.buf, by rw [issue_nil]; rfl⟩
    · rcases Nat.lt_or_ge (rowEnd row) copySize with hlt | hge
      · refine ⟨_, olds, hloop.trans ?_, .inr rfl, b, rfl⟩
        obtain ⟨fuel, hfuel⟩ :=
          Nat.exists_eq_succ_of_ne_zero (show copySize - row.length ≠ 0 by omega)
        rw [hfuel]
        exact hb fuel _ hlt
      · exact ⟨t, [], hloop.trans (copySegLoop_stop t (.inl (by omega)) _ _ _), .inl rfl, t.buf,
          by rw [issue_nil]; rfl⟩
  obtain ⟨b, rfl⟩ := hu
  have holds' : AllWithin old (old + r.segSize) olds' := by
    rcases hchoice with rfl | rfl
    · exact allWithin_nil _ _
    · exact holds
  refine ⟨(t.issue olds').withBuf b, copies, olds', ?_, ?_, hchoice, hcopies,
    hseg.trans hinit.segOffset,
    hseq.trans hinit.segSeqId, hnewSeg.applyAll hold (Ne.symm hne) holds', hcopying.marks⟩
  · have hin : old + 4 + [nvramRegionSegStateObsolete].length ≤ r.totalSize := by
      have hle := hold.le
      rw [length_singleton]
      omega
    rw [moveSeg, hs, regionSegUpdateState, regionWrite_eq _ hin, nvramStorageWrite_singleton,
      regionCopySeg, hfinal]
    rfl
  · have hissue : Issued t ((t.issue olds').withBuf b) olds' := ⟨rfl, rfl⟩
    rw [← append_assoc]
    exact hdone.trans hissue

theorem moveSeg_moved {old new copySize : Nat} {seqId : UInt8}
    (hold : HoldsSeg r s.flash old seqId (slotsBytes slots)) (hnew : IsSeg r new) (hne : old ≠ new)
    (hmap : MapSized r s.itemMap) (hsize : endOffset slots ≤ copySize)
    (hcopy : copySize ≤ r.segSize) (checkCrc : Bool) :
    ∃ copies, Moved r s (moveSeg r s new old copySize checkCrc) old new slots copies := by
  have hholds := hold.body.holds
  rw [← rowBytes_rawRow] at hholds
  rw [← rowEnd_rawRow] at hsize
  -- behind the row the segment is erased
  obtain ⟨t, copies, olds, hmove, hissued, hnone, hcopies, hseg, hseq, hnewSeg, hmarks⟩ :=
    moveSeg_copied checkCrc [] hold.seg hnew hne hholds hmap hsize hcopy
      (fun _ _ hmem => rawRow_crc hmem) (allWithin_nil _ _) (by
        intro t hsame
        refine ⟨t.buf, fun fuel place hlt => ?_⟩
        rw [rowEnd_rawRow] at hlt ⊢
        have hdone := dvd_endOffset slots
        have hunits := sixteen_dvd_segSize r
        have hstart : nvramSegItemStartOffset + (slotsBytes slots).length = endOffset slots := rfl
        have hfree := hold.body.free
        rw [hstart] at hfree
        rw [issue_nil]
        refine copySegLoop_stop t (.inr (empty_of_erased fun a hlo hhi => ?_)) _ _ _
        simp only [nvramItemAlignSize, itemHeaderSize] at hdone hunits hhi
        rw [hsame a (by omega) (by omega)]
        exact hfree a hlo (by omega))
  obtain rfl : olds = [] := hnone.elim id id
  rw [copyRow_rawRow] at hmove hnewSeg hmarks
  rw [rowBytes_rawRow] at hnewSeg
  rw [rowEnd_rawRow] at hmove
  rw [append_nil] at hissued
  rw [hmove]
  refine ⟨copies, ⟨?_, hcopies, hseg, hseq, rfl, ?_, ?_, segValid_retireOp _ _⟩⟩
  · rw [← append_assoc]
    exact hissued.trans ⟨rfl, rfl⟩
  · exact hnewSeg.applyAll hold.seg (Ne.symm hne) allWithin_retireOp
  · refine marksLive_iff.mpr (hmarks.congr fun copy hmem => ?_)
    rw [← copyRow_rawRow] at hmem
    exact (RawItem.isValid_iff.mpr (copyRow_isValid hmem)).symm

end SpeakerFirmware.Nvram
