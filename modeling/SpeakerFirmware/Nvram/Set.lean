/-
# Setting a name

`region_set` on a state between two calls: the map changes at one name, and power
loss on the way leaves the old map, the new map, or a torn item that the next scan
drops. A set that finds the segment full first moves the live items to the next
segment, which changes nothing in the map.
-/

import SpeakerFirmware.Nvram.Recoverable

namespace SpeakerFirmware.Nvram

open NorFlash
open List Function Nat

variable {r : RegionInfo} {s : RegionState} {slots : List Slot}

/-! ## The purge -/

theorem Synced.oneSeg (h : Synced r s slots) :
    OneSeg r s.flash s.segOffset s.segSeqId slots [] :=
  ⟨by rw [append_nil]; exact h.holds, h.only, .inl rfl⟩

theorem Synced.recoverable (h : Synced r s slots) :
    Recoverable r s.flash (contents slots) :=
  .one h.oneSeg

/-- Clearing the next segment before a purge. -/
theorem Synced.clearNext (h : Synced r s slots) :
    ∃ b ops, Nvram.clearNext r s = (s.issue ops).withBuf b ∧
      Along (fun g => OneSeg r g s.segOffset s.segSeqId slots []) s.flash ops := by
  obtain ⟨hnew, hne⟩ := isSeg_nextSegOffset h.holds.seg
  obtain ⟨b, ops, hclear, -, hops⟩ := clearNext_eq h.holds.seg
  refine ⟨b, ops, hclear, ?_⟩
  rcases hops with rfl | rfl
  · exact h.oneSeg
  · apply along_eraseOps hnew _ s.flash h.oneSeg
    intro g addr hlo hhi hdvd hg
    exact hg.erase hnew (Ne.symm hne) hlo hhi hdvd

/-- A purge clears the next segment and moves there. -/
theorem Ready.purge_moved (h : Ready r s slots) (checkCrc : Bool) :
    ∃ s₁ pre copies, Issued s s₁ pre ∧ s₁.segSeqId = s.segSeqId ∧
      Along (fun g => OneSeg r g s.segOffset s.segSeqId slots []) s.flash pre ∧
      HoldsSeg r s₁.flash s.segOffset s.segSeqId (slotsBytes slots) ∧
      OnlyValid r s₁.flash [s.segOffset, nextSegOffset r s] ∧
      Moved r s₁ (regionPurgeSeg r s checkCrc) s.segOffset (nextSegOffset r s) slots copies := by
  obtain ⟨hnew, hne⟩ := isSeg_nextSegOffset h.holds.seg
  obtain ⟨b, pre, hpre, halong⟩ := h.clearNext
  have hone := halong.last
  have hold : HoldsSeg r (applyAll pre s.flash) s.segOffset s.segSeqId (slotsBytes slots) := by
    have hholds := hone.holds
    rwa [append_nil] at hholds
  have honly : OnlyValid r (applyAll pre s.flash) [s.segOffset, nextSegOffset r s] :=
    hone.only.mono fun offs hmem => .inl (by rw [mem_singleton.mp hmem]; exact mem_cons_self)
  have hpurge := regionPurgeSeg_moves hpre h.write checkCrc
  obtain ⟨copies, hmoved⟩ := moveSeg_moved (s := (s.issue pre).withBuf b) hold hnew (Ne.symm hne)
    h.marks.sized le_rfl h.holds.body.fits checkCrc
  rw [← hpurge] at hmoved
  exact ⟨(s.issue pre).withBuf b, pre, copies, ⟨rfl, rfl⟩, rfl, halong, hold, honly, hmoved⟩

/-- A purge keeps the map, at its end and at every power loss. -/
theorem Ready.purge (h : Ready r s slots) (checkCrc : Bool) :
    ∃ ops, Ready r (regionPurgeSeg r s checkCrc) (liveSlots slots) ∧
      Issued s (regionPurgeSeg r s checkCrc) ops ∧
      Along (fun g => Recoverable r g (contents slots)) s.flash ops := by
  obtain ⟨hnew, hne⟩ := isSeg_nextSegOffset h.holds.seg
  obtain ⟨s₁, pre, copies, hissued, hseq, halong, hold, honly, hmoved⟩ := h.purge_moved checkCrc
  have hready : Ready r (regionPurgeSeg r s checkCrc) (liveSlots slots) := by
    refine ⟨⟨?_, ?_, ?_, hmoved.marks⟩, by rw [names_liveSlots]; exact h.nodup⟩
    · rw [hmoved.segOffset, hmoved.segSeqId]
      exact hmoved.holds
    · rw [hmoved.segOffset]
      exact hmoved.only h.holds.seg hnew honly
    · rw [hmoved.segOffset]
      exact hmoved.segWriteOffset
  refine ⟨_, hready, hissued.trans hmoved.issued, ?_⟩
  rw [along_append, ← hissued.flash]
  refine ⟨halong.mono fun g hg => .one hg, ?_⟩
  apply hmoved.along hnew (Ne.symm hne) hold honly
  · have hone := halong.last
    rw [← hissued.flash] at hone
    apply (along_eraseOps hnew (P := fun g => OneSeg r g s.segOffset s.segSeqId slots []) _ _
      hone).mono fun g hg => .one hg
    intro g addr hlo hhi hdvd hg
    exact hg.erase hnew (Ne.symm hne) hlo hhi hdvd
  · intro g hg
    rw [hseq] at hg
    exact .two hnew (Ne.symm hne) hg
  · have hrec := hready.recoverable
    rw [contents_liveSlots] at hrec
    exact hrec

/-! ## Comparing the data -/

theorem sameDataPieces_eq (pieces : List (List UInt8)) (s : RegionState) (offset : Nat)
    (hin : offset + pieces.flatten.length ≤ r.totalSize) :
    ∃ b, sameDataPieces r s offset pieces =
      (s.withBuf b, decide (Holds s.flash offset pieces.flatten)) := by
  induction pieces generalizing s offset with
  | nil => exact ⟨s.buf, by simp [sameDataPieces, holds_nil, RegionState.withBuf]⟩
  | cons piece rest ih =>
    rw [flatten_cons, length_append] at hin
    rw [sameDataPieces, regionReadBuf_eq s (by omega), withBuf_buf, take_read_append]
    by_cases hpiece : read s.flash offset piece.length = piece
    · obtain ⟨b, hb⟩ := ih (s.withBuf (read s.flash offset piece.length ++ s.buf.drop piece.length))
        (offset + piece.length) (by omega)
      refine ⟨b, ?_⟩
      have hiff : Holds s.flash offset (piece :: rest).flatten ↔
          Holds s.flash (offset + piece.length) rest.flatten := by
        rw [flatten_cons, holds_append]
        exact ⟨fun h => h.2, fun h => ⟨hpiece, h⟩⟩
      rw [if_pos hpiece, hb, withBuf_withBuf, withBuf_flash, decide_eq_decide.mpr hiff]
    · refine ⟨read s.flash offset piece.length ++ s.buf.drop piece.length, ?_⟩
      have hnot : ¬ Holds s.flash offset (piece :: rest).flatten := by
        rw [flatten_cons, holds_append]
        exact fun h => hpiece h.1
      rw [if_neg hpiece, decide_eq_false hnot]

/-- `region_is_same_config_data` compares with the map. -/
theorem Ready.isSame (h : Ready r s slots)
    {name : List UInt8} (data : List UInt8) (hname : 0 ∉ name) :
    ∃ b, regionIsSameConfigData r s name data =
      (s.withBuf b, decide (contents slots name = some data)) := by
  obtain ⟨b, hfind, -⟩ := h.find hname
  rw [regionIsSameConfigData, hfind]
  rcases findLive_cases name slots nvramSegItemStartOffset with
    ⟨hnone, hnot⟩ | ⟨done, item, rest, rfl, rfl, -, hsome⟩
  · rw [hnone, contents_eq_none_iff.mpr hnot]
    exact ⟨b, rfl⟩
  · obtain ⟨hitem, hin⟩ := h.holds_item
    obtain ⟨-, -, hdata⟩ := holds_live hitem
    have htotal := slot_le_of_holds (hin.trans h.holds.seg.le)
    rw [hsome, h.contents_eq]
    simp only [Option.map_some, foundAt]
    have hoffs : s.segOffset + (nvramSegItemStartOffset + (slotsBytes done).length) =
        s.segOffset + endOffset done := rfl
    rw [hoffs]
    by_cases hlen : data.length = item.header.dataSize
    · have hflat : (pieces nvramBufferSize data.length data).flatten = data :=
        flatten_pieces (by decide) le_rfl
      obtain ⟨b', hb'⟩ := sameDataPieces_eq (r := r) (pieces nvramBufferSize data.length data)
        (s.withBuf b) (s.segOffset + endOffset done + itemHeaderSize + item.header.nameSize)
        (by rw [hflat, hlen]; exact htotal)
      refine ⟨b', ?_⟩
      rw [if_pos hlen, hb', hflat, withBuf_flash, withBuf_withBuf]
      have hiff : Holds s.flash (s.segOffset + endOffset done + itemHeaderSize +
          item.header.nameSize) data ↔ some item.data = some data := by
        unfold Holds
        rw [hlen, hdata, Option.some.injEq]
      rw [decide_eq_decide.mpr hiff]
    · refine ⟨b, ?_⟩
      have hne : ¬ some item.data = some data := by
        rw [Option.some.injEq]
        rintro rfl
        exact hlen item.header_dataSize.symm
      rw [if_neg hlen, decide_eq_false hne]

/-! ## Writing the item -/

/-- The pieces in which an item is written: those of the header with the name, then
those of the data. -/
def itemPieces (item : Item) : List (List UInt8) :=
  writePieces item.head ++
    ((pieces nvramBufferSize item.data.length item.data).map writePieces).flatten

variable (parts : List (List UInt8))

theorem flatten_map_writePieces :
    (parts.map writePieces).flatten.flatten = parts.flatten := by
  induction parts with
  | nil => rfl
  | cons part rest ih =>
    rw [map_cons, flatten_cons, flatten_append, flatten_writePieces, ih,
      flatten_cons]

theorem flatten_itemPieces (item : Item) : (itemPieces item).flatten = item.bytes := by
  rw [itemPieces, flatten_append, flatten_writePieces, flatten_map_writePieces,
    flatten_pieces (by decide) le_rfl, Item.bytes]

theorem writeDataPieces_eq (s : RegionState) (offset : Nat)
    (hin : offset + parts.flatten.length ≤ r.totalSize) :
    ∃ b, writeDataPieces r s offset parts =
      (s.issue (programs offset (parts.map writePieces).flatten)).withBuf b := by
  induction parts generalizing s offset with
  | nil => exact ⟨s.buf, by simp [writeDataPieces, programs, RegionState.withBuf]⟩
  | cons part rest ih =>
    rw [flatten_cons, length_append] at hin
    have hbuf : (part ++ s.buf.drop part.length).take part.length = part := by
      rw [take_append_of_le_length le_rfl, take_length]
    rw [writeDataPieces]
    change ∃ b, writeDataPieces r
        (regionWrite r (s.withBuf (part ++ s.buf.drop part.length)) offset
          ((part ++ s.buf.drop part.length).take part.length)) (offset + part.length) rest = _
    rw [hbuf, regionWrite_eq _ (by omega), issue_withBuf]
    obtain ⟨b, hb⟩ := ih ((s.issue (nvramStorageWrite offset part)).withBuf
      (part ++ s.buf.drop part.length)) (offset + part.length) (by omega)
    refine ⟨b, ?_⟩
    rw [hb, issue_withBuf, withBuf_withBuf, issue_issue, map_cons, flatten_cons,
      programs_append, flatten_writePieces, nvramStorageWrite_eq]

/-- `region_write_item` programs the pieces of the item one by one. -/
theorem regionWriteItem_eq (s : RegionState) (item : Item) {offset : Nat}
    (hin : offset + item.bytes.length ≤ r.totalSize) :
    ∃ b, regionWriteItem r s offset item.name item.data =
      (s.issue (programs offset (itemPieces item))).withBuf b := by
  have hhead : ¬ item.head.length > nvramBufferSize := by
    have hlen := item.name_lt
    rw [item.length_head]
    simp only [nvramMaxNameSize, itemHeaderSize, nvramBufferSize] at hlen ⊢
    omega
  have hbuf : (item.head ++ s.buf.drop item.head.length).take item.head.length = item.head := by
    rw [take_append_of_le_length le_rfl, take_length]
  have hparts : (pieces nvramBufferSize item.data.length item.data).flatten = item.data :=
    flatten_pieces (by decide) le_rfl
  rw [Item.bytes, length_append] at hin
  unfold regionWriteItem
  change ∃ b, (if item.head.length > nvramBufferSize then s else
    regionWriteData r (regionWrite r (s.withBuf (item.head ++ s.buf.drop item.head.length)) offset
      ((item.head ++ s.buf.drop item.head.length).take item.head.length))
      (offset + item.head.length) item.data) = _
  rw [if_neg hhead, hbuf, regionWrite_eq _ (by omega), issue_withBuf, regionWriteData]
  obtain ⟨b, hb⟩ := writeDataPieces_eq (r := r)
    (pieces nvramBufferSize item.data.length item.data)
    ((s.issue (nvramStorageWrite offset item.head)).withBuf
      (item.head ++ s.buf.drop item.head.length)) (offset + item.head.length)
    (by rw [hparts]; omega)
  refine ⟨b, ?_⟩
  rw [hb, issue_withBuf, withBuf_withBuf, issue_issue, itemPieces, programs_append,
    flatten_writePieces, nvramStorageWrite_eq]

/-- What the flash holds of an item behind `count` of its pieces. -/
def tornBytes (item : Item) (count : Nat) : List UInt8 :=
  ((itemPieces item).take count).flatten ++
    List.replicate (item.size - ((itemPieces item).take count).flatten.length) 0xff

theorem tornBytes_length_itemPieces (item : Item) :
    tornBytes item (itemPieces item).length = (Slot.live item).bytes := by
  rw [tornBytes, take_length, flatten_itemPieces]
  rfl

theorem length_take_itemPieces_le (item : Item) (count : Nat) :
    ((itemPieces item).take count).flatten.length ≤ item.size := by
  have hall := length_bytes_le_size item
  rw [← flatten_itemPieces, ← take_append_drop count (itemPieces item), flatten_append,
    length_append] at hall
  omega

section

variable (h : Synced r s slots) {item : Item} (hroom : endOffset slots + item.size ≤ r.segSize)
include h hroom

/-- The active segment behind some pieces of a new item. -/
theorem Synced.append_pieces (count : Nat) :
    HoldsSeg r (applyAll (programs s.segWriteOffset ((itemPieces item).take count)) s.flash)
        s.segOffset s.segSeqId (slotsBytes slots ++ tornBytes item count) ∧
      OnlyValid r (applyAll (programs s.segWriteOffset ((itemPieces item).take count)) s.flash)
        [s.segOffset] := by
  have hle := length_take_itemPieces_le item count
  have hend : nvramSegItemStartOffset + (slotsBytes slots).length = endOffset slots := rfl
  have hfree := h.holds.body.free
  rw [hend] at hfree
  rw [h.write]
  have hops := allWithin_programs (s.segOffset + endOffset slots) ((itemPieces item).take count)
  have hholds : Holds (applyAll (programs (s.segOffset + endOffset slots)
      ((itemPieces item).take count)) s.flash) (s.segOffset + endOffset slots)
      ((itemPieces item).take count).flatten :=
    (hfree.mono le_rfl (by omega)).programs
  have hbody := h.holds.body.extend (item.size - ((itemPieces item).take count).flatten.length)
    (by rw [hend]; omega) hops hholds
  refine ⟨⟨h.holds.seg, ?_, hbody⟩, ?_⟩
  · apply hops.holds h.holds.header (.inl _)
    rw [length_newSegHeader, endOffset]
    simp only [segHeaderSize, nvramSegItemStartOffset]
    omega
  · apply h.only.congr_of_mem h.holds.seg mem_cons_self
    intro a ha
    exact hops.applyAll_eq s.flash (by omega)

/-- The state with a new item behind the row. -/
theorem Synced.append (b : List UInt8) :
    Synced r { ((s.issue (programs s.segWriteOffset (itemPieces item))).withBuf b).mark
        (endOffset slots) true with segWriteOffset := s.segWriteOffset + item.size }
      (slots ++ [.live item]) := by
  obtain ⟨hholds, honly⟩ := h.append_pieces hroom (itemPieces item).length
  rw [take_length, tornBytes_length_itemPieces] at hholds
  rw [take_length] at honly
  have hbytes :
      slotsBytes (slots ++ [.live item]) = slotsBytes slots ++ (Slot.live item).bytes := by
    simp
  refine ⟨?_, honly, ?_, h.marks.append_live⟩
  · rw [hbytes]
    exact hholds
  · rw [endOffset_append_cons, length_live]
    change s.segWriteOffset + item.size = s.segOffset + (endOffset slots + item.size)
    rw [h.write, add_assoc]

end

/-! ## The item that is replaced -/

theorem obsoleteOld_none (s : RegionState) : obsoleteOld r s none = s := rfl

/-- The end of `region_set` retires the item it found. -/
theorem Synced.obsoleteOld {done rest : List Slot} {item : Item}
    (h : Synced r s (done ++ .live item :: rest)) :
    Nvram.obsoleteOld r s (some (foundAt s.segOffset (endOffset done, item))) =
      (s.issue [obsoleteOp (s.segOffset + endOffset done)]).mark (endOffset done) false := by
  have hin : s.segOffset + endOffset done + 2 ≤ r.totalSize := by
    have hfits := h.holds.body.fits
    have hle := h.holds.seg.le
    have hpos := (Slot.live item).length_ge
    rw [slotsBytes_append, slotsBytes_cons] at hfits
    simp only [length_append, nvramItemAlignSize, endOffset] at *
    omega
  simp only [Nvram.obsoleteOld, foundAt]
  rw [itemUpdateState_eq _ hin, Nat.add_sub_cancel_left]

/-! ## Replacing an item -/

/-- The part of `region_set` behind `region_prepare_write_item`. -/
def replaceItem (r : RegionInfo) (s : RegionState) (name data : List UInt8) : RegionState :=
  let old := regionFindItem r s name
  let s := regionWriteItem r old.1 old.1.segWriteOffset name data
  let s := s.mark (s.segWriteOffset - s.segOffset) true
  let s := { s with
    segWriteOffset := s.segWriteOffset + itemCalcAlignedSize (cstr name).length data.length }
  obsoleteOld r s old.2

theorem nodup_append_name {slots : List Slot} {item : Item} (hnodup : (names slots).Nodup)
    (hnot : item.name ∉ names slots) : (names (slots ++ [.live item])).Nodup := by
  rw [names_append, names_live, names_nil]
  exact nodup_append.mpr ⟨hnodup, nodup_singleton _, by
    intro name hmem name' hmem' heq
    rw [mem_singleton.mp hmem'] at heq
    exact hnot (heq ▸ hmem)⟩

section

variable (h : Ready r s slots) (item : Item) (hroom : endOffset slots + item.size ≤ r.segSize)
include h item hroom

/-- Until the old item is retired both are in the row. -/
theorem Ready.writeNew : ∃ t, replaceItem r s item.name item.data = obsoleteOld r t
        ((findLive item.name slots nvramSegItemStartOffset).map (foundAt t.segOffset)) ∧
      Synced r t (slots ++ [.live item]) ∧
      Issued s t (programs s.segWriteOffset (itemPieces item)) := by
  obtain ⟨b, hfind, -⟩ := h.find item.name_nul
  have hin : s.segWriteOffset + item.bytes.length ≤ r.totalSize := by
    have hle := h.holds.seg.le
    have hsize := length_bytes_le_size item
    rw [h.write]
    omega
  have hmark : s.segWriteOffset - s.segOffset = endOffset slots := by
    rw [h.write]
    omega
  obtain ⟨b', hwrite⟩ := regionWriteItem_eq (s.withBuf b) item hin
  refine ⟨_, ?_, h.toSynced.append hroom b', ⟨rfl, rfl⟩⟩
  rw [replaceItem, hfind]
  dsimp only
  rw [withBuf_segWriteOffset, hwrite, item.length_cstr]
  simp only [withBuf_segWriteOffset, withBuf_segOffset, issue_withBuf, withBuf_withBuf]
  rw [← hmark]
  rfl

/-- The new item is written before the old one is retired, so the map changes
behind the last piece of the item. -/
theorem Ready.replaceItem :
    ∃ slots' post, Ready r (Nvram.replaceItem r s item.name item.data) slots' ∧
      contents slots' = update (contents slots) item.name (some item.data) ∧
      endOffset slots' = endOffset slots + item.size ∧
      Issued s (Nvram.replaceItem r s item.name item.data)
        (programs s.segWriteOffset (itemPieces item) ++ post) ∧
      Along (fun g => Recoverable r g (contents slots'))
        (applyAll (programs s.segWriteOffset (itemPieces item)) s.flash) post := by
  obtain ⟨t, hstate, hsynced, hissued⟩ := h.writeNew item hroom
  have hcontents := contents_append_live slots item
  have hend : endOffset (slots ++ [.live item]) = endOffset slots + item.size := by
    rw [endOffset_append_cons, length_live]
  rw [hstate, ← hissued.flash]
  rcases findLive_cases item.name slots nvramSegItemStartOffset with
    ⟨hnone, hnot⟩ | ⟨done, old, rest, rfl, hname, -, hsome⟩
  · rw [hnone, Option.map_none, obsoleteOld_none]
    refine ⟨slots ++ [Slot.live item], [], ⟨hsynced, nodup_append_name h.nodup hnot⟩, hcontents,
      hend, ?_, hsynced.recoverable⟩
    rwa [append_nil]
  · rw [append_assoc, cons_append] at hsynced hcontents hend
    have hretired := hsynced.retire
    have hold : Nvram.obsoleteOld r t (some (foundAt t.segOffset
        (nvramSegItemStartOffset + (slotsBytes done).length, old))) =
        (t.issue [obsoleteOp (t.segOffset + endOffset done)]).mark (endOffset done) false :=
      hsynced.obsoleteOld
    have hover : old.name ∈ names (rest ++ [.live item]) := by
      rw [names_append, names_live, hname]
      exact mem_append_right _ mem_cons_self
    have hcontents' := contents_retire_overwritten done hover
    have hnodup : (names (done ++ old.retired :: (rest ++ [.live item]))).Nodup := by
      have hslots := h.nodup
      rw [names_append, names_live, hname, nodup_middle, nodup_cons,
        ← names_append] at hslots
      rw [names_retire, names_append rest, ← append_assoc, ← names_append done,
        ← names_append]
      exact nodup_append_name hslots.2 hslots.1
    rw [hsome, Option.map_some, hold]
    refine ⟨_, [obsoleteOp (t.segOffset + endOffset done)], ⟨hretired, hnodup⟩,
      hcontents'.trans hcontents, ?_, hissued.trans ⟨rfl, rfl⟩, ?_, hretired.recoverable⟩
    · rw [endOffset_retired]
      exact hend
    have hrec := hsynced.recoverable
    rwa [← hcontents'] at hrec

end

/-! ## Room for an item -/

/-- The walk of `liveItemsSize`, up to the write offset. -/
def liveSizeLoop (s : RegionState) : Nat → Nat → Nat
  | 0, _ => 0
  | fuel + 1, itemOffs =>
    if itemOffs < s.segWriteOffset then
      let item := readItemHeader s itemOffs
      (if item.state = nvramItemStateValid then itemGetAlignedSize item else 0) +
        liveSizeLoop s fuel (itemOffs + itemGetAlignedSize item)
    else 0

/-- The room the live items of the active segment take. -/
def liveItemsSize (r : RegionInfo) (s : RegionState) : Nat :=
  liveSizeLoop s r.segSize (s.segOffset + nvramSegItemStartOffset)

theorem liveSizeLoop_eq (s : RegionState) (slots : List Slot) :
    ∀ (fuel itemOffs : Nat), slots.length < fuel → Holds s.flash itemOffs (slotsBytes slots) →
      itemOffs + (slotsBytes slots).length = s.segWriteOffset →
      liveSizeLoop s fuel itemOffs = (slotsBytes (liveSlots slots)).length := by
  induction slots with
  | nil =>
    intro fuel itemOffs hfuel _ hend
    obtain ⟨fuel, rfl⟩ := exists_eq_add_one.mpr hfuel
    rw [slotsBytes_nil, length_nil, add_zero] at hend
    rw [liveSizeLoop, if_neg (by omega)]
    rfl
  | cons slot slots ih =>
    intro fuel itemOffs hfuel hholds hend
    obtain ⟨fuel, rfl⟩ := exists_eq_add_one.mpr (zero_lt_of_lt hfuel)
    have hpos := slot.length_ge
    obtain ⟨hslot, hrest⟩ := holds_append.mp hholds
    rw [slotsBytes_cons, length_append] at hend
    simp only [nvramItemAlignSize] at hpos
    have hnext := ih fuel (itemOffs + slot.bytes.length)
      (by rw [length_cons] at hfuel; omega) hrest (by omega)
    rw [liveSizeLoop, if_pos (by omega)]
    dsimp only
    rw [readItemHeader_slot hslot, ← slot.length_bytes, hnext]
    cases slot with
    | live item =>
      have hstate : (Slot.live item).header.state = nvramItemStateValid := item.header_state
      rw [if_pos hstate, liveSlots_live, slotsBytes_cons, length_append]
    | dead bytes obsolete =>
      have hstate : ¬ (Slot.dead bytes obsolete).header.state = nvramItemStateValid := by
        have hdead : (Slot.dead bytes obsolete).header.state = nvramItemStateObsolete :=
          obsolete.state
        rw [hdead]
        decide
      rw [if_neg hstate, zero_add, liveSlots_dead]

theorem Synced.liveItemsSize_eq (h : Synced r s slots) :
    liveItemsSize r s = (slotsBytes (liveSlots slots)).length := by
  apply liveSizeLoop_eq s slots _ _ _ h.holds.body.holds
  · rw [h.write, endOffset, add_assoc]
  · exact lt_of_lt_of_le (length_slots_lt slots) h.holds.body.fits

/-- The live items and the new one fit into a segment; deleting needs no room. -/
def Fits (r : RegionInfo) (s : RegionState) (name data : List UInt8) : Prop :=
  data = [] ∨ nvramSegItemStartOffset + liveItemsSize r s +
    itemCalcAlignedSize (name.length + 1) data.length ≤ r.segSize

instance (r : RegionInfo) (s : RegionState) (name data : List UInt8) :
    Decidable (Fits r s name data) :=
  inferInstanceAs (Decidable (_ ∨ _))

/-- The names and values a caller may set: a C string of at most 111 characters and
at most 512 bytes. -/
structure ValidSet (name data : List UInt8) : Prop where
  name_nul : 0 ∉ name
  name_lt : name.length < nvramMaxNameSize
  data_le : data.length ≤ nvramMaxDataSize

/-- What a set stores; no data deletes the name. -/
def storedValue (data : List UInt8) : Option (List UInt8) :=
  if data = [] then none else some data

/-- The item a set writes. -/
def ValidSet.item {name data : List UInt8} (h : ValidSet name data) (hdata : data ≠ []) : Item :=
  ⟨name, data, h.name_nul, h.name_lt, length_pos_iff.mpr hdata, h.data_le⟩

/-! ## The call -/

variable {name data : List UInt8}

/-- A set of data that differs from the stored value. -/
theorem regionSet_eq {s s' : RegionState} (h : ValidSet name data)
    (hdata : data ≠ []) {same : Bool} (hsame : regionIsSameConfigData r s name data = (s', same)) :
    regionSet r s name data = (if same then s' else
      replaceItem r (regionPrepareWriteItem r s'
        (itemCalcAlignedSize (cstr name).length data.length)) name data, none) := by
  have hlen : ¬ data.length > nvramMaxDataSize := not_lt.mpr h.data_le
  have hname : ¬ (cstr name).length > nvramMaxNameSize := by
    have hlt := h.name_lt
    rw [cstr, length_append, length_singleton]
    omega
  rw [regionSet, if_neg hlen, if_neg hname, if_pos (length_pos_iff.mpr hdata)]
  dsimp only
  rw [hsame]
  cases same with
  | true => rfl
  | false => rfl

theorem regionSet_nil {s : RegionState} {name : List UInt8} (h : ValidSet name []) :
    regionSet r s name [] =
      (obsoleteOld r (regionFindItem r s name).1 (regionFindItem r s name).2, none) := by
  have hname : ¬ (cstr name).length > nvramMaxNameSize := by
    have hlt := h.name_lt
    rw [cstr, length_append, length_singleton]
    omega
  rw [regionSet, if_neg (not_lt.mpr h.data_le), if_neg hname, if_neg (by simp)]

/-- Behind `region_prepare_write_item` there is room for the item. -/
theorem Ready.prepare (h : Ready r s slots) (size : Nat)
    (hfits : nvramSegItemStartOffset + liveItemsSize r s + size ≤ r.segSize) :
    ∃ slots' ops, Ready r (regionPrepareWriteItem r s size) slots' ∧
      endOffset slots' + size ≤ r.segSize ∧ contents slots' = contents slots ∧
      Issued s (regionPrepareWriteItem r s size) ops ∧
      Along (fun g => Recoverable r g (contents slots)) s.flash ops := by
  rw [h.liveItemsSize_eq] at hfits
  unfold regionPrepareWriteItem
  split
  · obtain ⟨ops, hready, hissued, halong⟩ := h.purge false
    exact ⟨liveSlots slots, ops, hready, hfits, contents_liveSlots slots, hissued, halong⟩
  · rename_i hroom
    have hwrite := h.write
    exact ⟨slots, [], h, by omega, rfl, ⟨rfl, by simp⟩, h.recoverable⟩

/-- A set with room in the segment appends to the row. -/
theorem Ready.store_room (h : Ready r s slots) (hvalid : ValidSet name data) (hdata : data ≠ [])
    (hroom : endOffset slots + itemCalcAlignedSize (name.length + 1) data.length ≤ r.segSize)
    (hne : contents slots name ≠ some data) :
    ∃ slots', Ready r (regionSet r s name data).1 slots' ∧
      contents slots' = update (contents slots) name (some data) ∧
      endOffset slots' = endOffset slots + itemCalcAlignedSize (name.length + 1) data.length := by
  obtain ⟨b, hsame⟩ := h.isSame data hvalid.name_nul
  have hlen : (cstr name).length = name.length + 1 := by
    rw [cstr, length_append, length_singleton]
  have hstay : regionPrepareWriteItem r (s.withBuf b)
      (itemCalcAlignedSize (cstr name).length data.length) = s.withBuf b := by
    rw [regionPrepareWriteItem, if_neg]
    rw [withBuf_segWriteOffset, withBuf_segOffset, h.write, hlen]
    omega
  obtain ⟨slots', -, hready, hcontents, hend, -, -⟩ :=
    (h.withBuf b).replaceItem (hvalid.item hdata) hroom
  rw [regionSet_eq hvalid hdata hsame, decide_eq_false hne, if_neg Bool.false_ne_true, hstay]
  exact ⟨slots', hready, hcontents, hend⟩

/-- A delete of a live item retires it in its place. -/
theorem Ready.delete_live {done rest : List Slot} {item : Item}
    (h : Ready r s (done ++ .live item :: rest)) :
    (∃ b, (regionSet r s item.name []).1 =
      ((s.withBuf b).issue [obsoleteOp (s.segOffset + endOffset done)]).mark
        (endOffset done) false) ∧
      Ready r (regionSet r s item.name []).1 (done ++ item.retired :: rest) := by
  have hslots := h.nodup
  rw [names_append, names_live, nodup_middle, nodup_cons, mem_append, not_or] at hslots
  obtain ⟨b, hfind, -⟩ := h.find item.name_nul
  rw [findLive_of_not_mem hslots.1.1] at hfind
  have hsynced := h.toSynced.withBuf b
  rw [regionSet_nil ⟨item.name_nul, item.name_lt, zero_le _⟩, hfind]
  have hold := hsynced.obsoleteOld
  refine ⟨⟨b, hold⟩, hold ▸ hsynced.retire, ?_⟩
  rw [names_retire]
  exact hslots.2

/-- A delete retires the item of the name. -/
theorem Ready.delete (h : Ready r s slots)
    {name : List UInt8} (hvalid : ValidSet name []) :
    ∃ slots' ops, Ready r (regionSet r s name []).1 slots' ∧
      contents slots' = update (contents slots) name none ∧
      Issued s (regionSet r s name []).1 ops ∧
      Along (fun g => Recoverable r g (contents slots) ∨ Recoverable r g (contents slots'))
        s.flash ops := by
  rcases findLive_cases name slots nvramSegItemStartOffset with
    ⟨hnone, hnot⟩ | ⟨done, item, rest, rfl, rfl, -, -⟩
  · obtain ⟨b, hfind, -⟩ := h.find hvalid.name_nul
    rw [regionSet_nil hvalid, hfind, hnone, Option.map_none, obsoleteOld_none]
    refine ⟨slots, [], h.withBuf b, ?_, ⟨rfl, by simp⟩, .inl h.recoverable⟩
    rw [← contents_eq_none_iff.mpr hnot, update_eq_self]
  · obtain ⟨⟨b, hstate⟩, hready⟩ := h.delete_live
    rw [hstate] at hready ⊢
    exact ⟨_, [obsoleteOp (s.segOffset + endOffset done)], hready, contents_retire h.nodup,
      ⟨rfl, rfl⟩,
      .inl h.recoverable, .inr hready.recoverable⟩

/-- The number of flash operations a set issues before the first piece of the new
item: those of the purge, if there is one. -/
def itemWriteStart (r : RegionInfo) (s : RegionState) (name data : List UInt8) : Nat :=
  (regionPrepareWriteItem r (regionIsSameConfigData r s name data).1
    (itemCalcAlignedSize (cstr name).length data.length)).ops.length - s.ops.length

/-- The next scan recognises what is left of an item behind `count` of its pieces:
nothing, the whole item, or a torn item. -/
def TearDetected (item : Item) (count : Nat) : Prop :=
  count = 0 ∨ tornBytes item count = (Slot.live item).bytes ∨ IsTorn (tornBytes item count)

/-- Power loss while the pieces of an item are written. -/
theorem Synced.recoverable_pieces (h : Synced r s slots)
    {item : Item} (hroom : endOffset slots + item.size ≤ r.segSize) {count : Nat}
    (htear : TearDetected item count) :
    Recoverable r (applyAll (programs s.segWriteOffset ((itemPieces item).take count)) s.flash)
        (contents slots) ∨
      Recoverable r (applyAll (programs s.segWriteOffset ((itemPieces item).take count)) s.flash)
        (update (contents slots) item.name (some item.data)) := by
  obtain ⟨hholds, honly⟩ := h.append_pieces hroom count
  rcases htear with rfl | hall | htorn
  · exact .inl h.recoverable
  · right
    rw [hall] at hholds
    have hbytes : slotsBytes (slots ++ [.live item]) ++ [] =
        slotsBytes slots ++ (Slot.live item).bytes := by simp
    rw [← contents_append_live]
    rw [← hbytes] at hholds
    exact .one ⟨hholds, honly, .inl rfl⟩
  · exact .inl (.one ⟨hholds, honly, .inr htorn⟩)

/-- A set stores the item; power loss on the way leaves the old or the new map, if a
torn item is recognised. -/
theorem Ready.store (h : Ready r s slots) (hvalid : ValidSet name data) (hdata : data ≠ [])
    (hfits : nvramSegItemStartOffset + liveItemsSize r s +
      itemCalcAlignedSize (name.length + 1) data.length ≤ r.segSize) :
    ∃ slots' ops, Ready r (regionSet r s name data).1 slots' ∧
      contents slots' = update (contents slots) name (some data) ∧
      Issued s (regionSet r s name data).1 ops ∧
      ∀ k, TearDetected (hvalid.item hdata) (k - itemWriteStart r s name data) →
        Recoverable r (applyAll (ops.take k) s.flash) (contents slots) ∨
          Recoverable r (applyAll (ops.take k) s.flash) (contents slots') := by
  obtain ⟨b, hsame⟩ := h.isSame data hvalid.name_nul
  have hcall := regionSet_eq hvalid hdata hsame
  rw [hcall]
  by_cases heq : contents slots name = some data
  · rw [decide_eq_true heq, if_pos rfl]
    refine ⟨slots, [], h.withBuf b, ?_, ⟨rfl, by simp⟩, fun k _ => .inl ?_⟩
    · rw [← heq, update_eq_self]
    · rw [take_nil]
      exact h.recoverable
  · rw [decide_eq_false heq, if_neg Bool.false_ne_true]
    have hsize : itemCalcAlignedSize (cstr name).length data.length = (hvalid.item hdata).size := by
      rw [cstr, length_append]
      rfl
    rw [h.liveItemsSize_eq, ← (h.withBuf b).liveItemsSize_eq] at hfits
    obtain ⟨slots₁, prep, hready₁, hroom, hcontents₁, hissued₁, halong⟩ :=
      (h.withBuf b).prepare (hvalid.item hdata).size hfits
    have hstart : itemWriteStart r s name data = prep.length := by
      rw [itemWriteStart, hsame, hsize, hissued₁.ops, withBuf_ops, length_append,
        Nat.add_sub_cancel_left]
    rw [hsize, hstart]
    generalize regionPrepareWriteItem r (s.withBuf b) (hvalid.item hdata).size = s₁ at *
    obtain ⟨slots', post, hready', hcontents', -, hissued', halong'⟩ :=
      hready₁.replaceItem (hvalid.item hdata) hroom
    rw [hcontents₁] at hcontents'
    refine ⟨slots', prep ++ (programs s₁.segWriteOffset (itemPieces (hvalid.item hdata)) ++ post),
      hready', hcontents', Issued.trans ⟨hissued₁.flash, hissued₁.ops⟩ hissued', ?_⟩
    intro k htear
    rw [take_append, applyAll_append]
    rcases Nat.lt_or_ge k prep.length with hlt | hge
    · rw [Nat.sub_eq_zero_of_le (Nat.le_of_lt hlt), take_zero, applyAll_nil]
      exact .inl (halong.take k)
    · have hflash : applyAll (prep.take k) s.flash = s₁.flash := by
        rw [take_of_length_le hge]
        exact hissued₁.flash.symm
      rw [hflash, take_append, applyAll_append, take_programs, length_programs]
      rcases lt_or_ge (k - prep.length) (itemPieces (hvalid.item hdata)).length with
        hinside | hbehind
      · rw [Nat.sub_eq_zero_of_le (Nat.le_of_lt hinside), take_zero, applyAll_nil,
          ← hcontents₁, hcontents', ← hcontents₁]
        exact hready₁.recoverable_pieces hroom htear
      · rw [take_of_length_le hbehind]
        exact .inr (halong'.take _)

end SpeakerFirmware.Nvram
