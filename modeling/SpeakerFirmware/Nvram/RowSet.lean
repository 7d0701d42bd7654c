/-
# Setting a name in a row of items of any kind

`region_set` in a segment that may hold damaged items: as long as the new item fits, the
segment stays a row of items whose valid ones are marked. `Scanned` collects the states
the driver gets into that way.
-/

import SpeakerFirmware.Nvram.RowScan

namespace SpeakerFirmware.Nvram

open NorFlash
open List

variable {r : RegionInfo}
variable {name : List UInt8}

/-! ## What reads and writes leave alone -/

/-- A read changes nothing but the shared buffer. -/
def OnlyBuf (s t : RegionState) : Prop := ∃ b, t = s.withBuf b

theorem OnlyBuf.refl (s : RegionState) : OnlyBuf s s := ⟨s.buf, rfl⟩

theorem OnlyBuf.trans {s t u : RegionState} (h : OnlyBuf s t) (h' : OnlyBuf t u) : OnlyBuf s u := by
  obtain ⟨b, rfl⟩ := h
  obtain ⟨b', rfl⟩ := h'
  exact ⟨b', rfl⟩

theorem onlyBuf_regionReadBuf (s : RegionState) (offset len : Nat) :
    OnlyBuf s (regionReadBuf r s offset len) := by
  unfold regionReadBuf
  split
  · exact .refl s
  · exact ⟨_, rfl⟩

theorem onlyBuf_findItemLoop (mem : List UInt8) (fuel : Nat) (s : RegionState) (offs : Nat) :
    OnlyBuf s (findItemLoop r mem fuel s offs).1 := by
  induction fuel generalizing s offs with
  | zero => exact .refl s
  | succ fuel ih =>
    rw [findItemLoop]
    dsimp only
    split
    · split
      · exact .refl s
      · split
        · split
          · exact onlyBuf_regionReadBuf _ _ _
          · exact (onlyBuf_regionReadBuf _ _ _).trans (ih _ _)
        · exact ih _ _
    · exact .refl s

theorem onlyBuf_find (s : RegionState) (name : List UInt8) :
    OnlyBuf s (regionFindItem r s name).1 :=
  onlyBuf_findItemLoop _ _ _ _

theorem onlyBuf_sameDataPieces (pieces : List (List UInt8)) (s : RegionState) (offset : Nat) :
    OnlyBuf s (sameDataPieces r s offset pieces).1 := by
  induction pieces generalizing s offset with
  | nil => exact .refl s
  | cons piece rest ih =>
    rw [sameDataPieces]
    split
    · exact (onlyBuf_regionReadBuf _ _ _).trans (ih _ _)
    · exact onlyBuf_regionReadBuf _ _ _

theorem onlyBuf_isSame (s : RegionState) (name data : List UInt8) :
    OnlyBuf s (regionIsSameConfigData r s name data).1 := by
  have hfind := onlyBuf_find (r := r) s name
  rw [regionIsSameConfigData]
  split
  · exact hfind
  · split
    · exact hfind.trans (onlyBuf_sameDataPieces _ _ _)
    · exact hfind

/-- The segment and the write offset are the same. -/
structure SameWindow (s t : RegionState) : Prop where
  segOffset : t.segOffset = s.segOffset
  segWriteOffset : t.segWriteOffset = s.segWriteOffset

theorem SameWindow.trans {s t u : RegionState} (h : SameWindow s t) (h' : SameWindow t u) :
    SameWindow s u :=
  ⟨h'.segOffset.trans h.segOffset, h'.segWriteOffset.trans h.segWriteOffset⟩

theorem sameWindow_regionWrite (s : RegionState) (offset : Nat) (bytes : List UInt8) :
    SameWindow s (regionWrite r s offset bytes) := by
  unfold regionWrite
  split <;> exact ⟨rfl, rfl⟩

theorem sameWindow_writeDataPieces (pieces : List (List UInt8)) (s : RegionState) (offset : Nat) :
    SameWindow s (writeDataPieces r s offset pieces) := by
  induction pieces generalizing s offset with
  | nil => exact ⟨rfl, rfl⟩
  | cons piece rest ih =>
    rw [writeDataPieces]
    have hfill : SameWindow s { s with buf := piece ++ s.buf.drop piece.length } := ⟨rfl, rfl⟩
    exact hfill.trans ((sameWindow_regionWrite _ _ _).trans (ih _ _))

theorem sameWindow_regionWriteItem (s : RegionState) (offset : Nat) (name data : List UInt8) :
    SameWindow s (regionWriteItem r s offset name data) := by
  unfold regionWriteItem
  dsimp only
  split
  · exact ⟨rfl, rfl⟩
  · have hfill : SameWindow s { s with
        buf := newItemHeader name data ++ cstr name ++
          s.buf.drop (newItemHeader name data ++ cstr name).length } := ⟨rfl, rfl⟩
    exact hfill.trans ((sameWindow_regionWrite _ _ _).trans (sameWindow_writeDataPieces _ _ _))

theorem sameWindow_obsoleteOld (s : RegionState) (old : Option (Nat × ItemHeader)) :
    SameWindow s (obsoleteOld r s old) := by
  cases old with
  | none => exact ⟨rfl, rfl⟩
  | some place => exact (sameWindow_regionWrite _ _ _).trans ⟨rfl, rfl⟩

/-- The write offset moves on by the size of the item, whether there is room or not. -/
theorem replaceItem_window (s : RegionState) (name data : List UInt8) :
    (replaceItem r s name data).segOffset = s.segOffset ∧
      (replaceItem r s name data).segWriteOffset =
        s.segWriteOffset + itemCalcAlignedSize (cstr name).length data.length := by
  obtain ⟨b, hb⟩ := onlyBuf_find (r := r) s name
  have hwrite := sameWindow_regionWriteItem (r := r) (s.withBuf b) s.segWriteOffset name data
  unfold replaceItem
  dsimp only
  rw [hb, withBuf_segWriteOffset]
  have hold := sameWindow_obsoleteOld (r := r)
    { (regionWriteItem r (s.withBuf b) s.segWriteOffset name data).mark
        ((regionWriteItem r (s.withBuf b) s.segWriteOffset name data).segWriteOffset -
          (regionWriteItem r (s.withBuf b) s.segWriteOffset name data).segOffset) true with
      segWriteOffset :=
        (regionWriteItem r (s.withBuf b) s.segWriteOffset name data).segWriteOffset +
        itemCalcAlignedSize (cstr name).length data.length } (regionFindItem r s name).2
  exact ⟨hold.segOffset.trans hwrite.segOffset,
    hold.segWriteOffset.trans (congrArg (· + _) hwrite.segWriteOffset)⟩

/-! ## The new item -/

namespace Laid

variable {s : RegionState} {row : List RawItem}

/-- Marking an item obsolete, in the flash and in the bitmap. -/
theorem obsolete {done rest : List RawItem} {item : RawItem} (h : Laid r s (done ++ item :: rest))
    (hmagic : item.header.magic = nvramRegionItemMagic)
    (hstate : item.header.state = nvramItemStateValid) :
    Laid r ((s.issue [obsoleteOp (s.segOffset + rowEnd done)]).mark (rowEnd done) false)
      (done ++ item.obsoleted :: rest) := by
  have hend := rowEnd_obsoleted done rest item
  have hmarks := h.marks.unmark item.length_obsoleted (item.isValid_obsoleted hmagic)
  refine ⟨⟨h.seg, holds_obsoleted h.holds hstate, hend ▸ h.fits, hend ▸ h.write, hmarks.sized, ?_⟩,
    ?_,
    hmarks⟩
  · intro other hmem hvalid
    rcases mem_append.mp hmem with hmem | hmem
    · exact h.crc other (mem_append_left _ hmem) hvalid
    · rcases mem_cons.mp hmem with rfl | hmem
      · rw [item.status_obsoleted hmagic] at hvalid
        cases hvalid
      · exact h.crc other (mem_append_right _ (mem_cons_of_mem _ hmem)) hvalid
  · rw [hend]
    intro a hlo hhi
    exact (obsoleteOp_apply_behind hlo).trans (h.free a hlo hhi)

/-- The end of `region_set`, for the item a search found. -/
theorem obsoleteOld {found : Option (Nat × RawItem)} {rest : List RawItem}
    (h : Laid r s (row ++ rest)) {map : List (BitVec 32)} {mem : List UInt8}
    (hfound : findRow r map mem row nvramSegItemStartOffset = found) :
    ∃ row' ops, Laid r (Nvram.obsoleteOld r s (found.map (rawFoundAt s.segOffset))) row' ∧
      Issued s (Nvram.obsoleteOld r s (found.map (rawFoundAt s.segOffset))) ops ∧
      AllWithin s.segOffset (s.segOffset + r.segSize) ops ∧ (found = none → row' = row ++ rest) ∧
      Inherits (row ++ rest) row' := by
  cases found with
  | none =>
    exact ⟨row ++ rest, [], h, ⟨rfl, by simp [obsoleteOld_none]⟩, allWithin_nil _ _, fun _ => rfl,
      .refl _⟩
  | some place =>
    obtain ⟨offs, item⟩ := place
    obtain ⟨done, last, rfl, hoffs, -, hmagic, hmatch⟩ := findRow_mem hfound
    have hplace : offs = rowEnd done := hoffs
    subst hplace
    rw [append_assoc, cons_append] at h
    have hfits := h.fits
    have hle := h.seg.le
    have hroom := rowEnd_lt_of_item done (last ++ rest) item
    simp only [nvramItemAlignSize] at hroom
    have hstate : Nvram.obsoleteOld r s ((some (rowEnd done, item)).map (rawFoundAt s.segOffset)) =
        (s.issue [obsoleteOp (s.segOffset + rowEnd done)]).mark (rowEnd done) false := by
      simp only [Option.map_some, rawFoundAt, Nvram.obsoleteOld]
      rw [itemUpdateState_eq _ (by omega), Nat.add_sub_cancel_left]
    rw [hstate]
    refine ⟨_, [obsoleteOp (s.segOffset + rowEnd done)], h.obsolete hmagic hmatch.1.1, ⟨rfl, rfl⟩,
      ?_, (by simp),
      ?_⟩
    · refine allWithin_cons.mpr ⟨⟨by omega, ?_⟩, allWithin_nil _ _⟩
      rw [length_singleton]
      omega
    · rw [append_assoc, cons_append]
      exact inherits_obsoleted done (last ++ rest) item

section

variable (h : Laid r s row) (item : Item) (hroom : rowEnd row + item.size ≤ r.segSize)
include h item hroom

/-- A new item behind the row. -/
theorem append (b : List UInt8) :
    Laid r { ((s.issue (programs s.segWriteOffset (itemPieces item))).withBuf b).mark
        (rowEnd row) true with segWriteOffset :=
          s.segWriteOffset + item.size } (row ++ [item.raw]) := by
  have hsize := length_bytes_le_size item
  have hops := allWithin_programs (s.segOffset + rowEnd row) (itemPieces item)
  have hfree : Erased s.flash (s.segOffset + rowEnd row) (itemPieces item).flatten.length := by
    rw [flatten_itemPieces]
    exact h.free.mono le_rfl (by omega)
  have hholds := hfree.programs
  rw [flatten_itemPieces] at hholds hops
  have hbody := h.body.extend (item.size - item.bytes.length)
    (by have hstart : nvramSegItemStartOffset + (rowBytes row).length = rowEnd row := rfl
        omega) hops hholds
  have hbytes :
      rowBytes row ++ (item.bytes ++ List.replicate (item.size - item.bytes.length) 0xff) =
      rowBytes (row ++ [item.raw]) := by
    rw [rowBytes_append, rowBytes_cons, rowBytes_nil, append_nil]
    rfl
  have hend : rowEnd (row ++ [item.raw]) = rowEnd row + item.size := by
    rw [rowEnd_append_singleton]
    exact congrArg (rowEnd row + ·) (length_live item)
  rw [hbytes] at hbody
  have hmarks := h.marks.append (RawItem.isValid_iff.mpr item.status_raw)
  rw [h.write]
  refine ⟨⟨h.seg, hbody.holds, hbody.fits, ?_, hmarks.sized, ?_⟩, hbody.free, hmarks⟩
  · rw [hend, ← Nat.add_assoc]
    rfl
  · intro other hmem hvalid
    rcases mem_append.mp hmem with hmem | hmem
    · exact h.crc other hmem hvalid
    · rw [mem_singleton.mp hmem]
      exact item.crc_raw

/-- The part of `region_set` behind the purge, with room for the item. -/
theorem replaceItem : ∃ row' ops, Laid r (Nvram.replaceItem r s item.name item.data) row' ∧
      Issued s (Nvram.replaceItem r s item.name item.data) ops ∧
      AllWithin s.segOffset (s.segOffset + r.segSize) ops ∧
      (findRow r s.itemMap (r.memory (cstr item.name)) row nvramSegItemStartOffset = none →
        row' = row ++ [item.raw]) ∧
      Inherits (row ++ [item.raw]) row' := by
  obtain ⟨b, hfind, -⟩ := h.searchable.find item.name
  have hle := h.seg.le
  have hsize := length_bytes_le_size item
  have hwrite := h.write
  have hmark : s.segWriteOffset - s.segOffset = rowEnd row := by omega
  obtain ⟨b', hwritten⟩ := regionWriteItem_eq (r := r) (s.withBuf b) item
    (show s.segWriteOffset + item.bytes.length ≤ r.totalSize by omega)
  have happend := h.append item hroom b'
  obtain ⟨row', ops, hlaid, hissued, hops, hnone, hinherits⟩ := happend.obsoleteOld
    (show findRow r s.itemMap (r.memory (cstr item.name)) row nvramSegItemStartOffset = _ from rfl)
  have hstate : Nvram.replaceItem r s item.name item.data = Nvram.obsoleteOld r
      { ((s.issue (programs s.segWriteOffset (itemPieces item))).withBuf b').mark (rowEnd row) true
        with
        segWriteOffset := s.segWriteOffset + item.size }
      ((findRow r s.itemMap (r.memory (cstr item.name)) row nvramSegItemStartOffset).map
        (rawFoundAt s.segOffset)) := by
    rw [Nvram.replaceItem, hfind]
    dsimp only
    rw [withBuf_segWriteOffset, hwritten, item.length_cstr, ← hmark]
    rfl
  have hpieces := allWithin_programs s.segWriteOffset (itemPieces item)
  rw [flatten_itemPieces] at hpieces
  rw [hstate]
  exact ⟨row', programs s.segWriteOffset (itemPieces item) ++ ops, hlaid,
    Issued.trans ⟨rfl, rfl⟩ hissued,
    allWithin_append.mpr ⟨hpieces.mono (by omega) (by omega), hops⟩, hnone, hinherits⟩

end

/-- `region_prepare_write_item` purges if the item does not fit. -/
theorem prepare (h : Laid r s row) (size : Nat) :
    ∃ row' ops, Laid r (regionPrepareWriteItem r s size) row' ∧
      Issued s (regionPrepareWriteItem r s size) ops ∧
      InSegs r s.segOffset (regionPrepareWriteItem r s size).segOffset ops ∧
      (row' = row ∧ rowEnd row + size ≤ r.segSize ∨ row' = copyRow row ∧
        r.segSize < rowEnd row + size) := by
  have hwrite := h.write
  unfold regionPrepareWriteItem
  split
  · obtain ⟨ops, hlaid, hseg, hissued, hops⟩ := h.purge false
    exact ⟨copyRow row, ops, hlaid, hissued, hseg ▸ hops, .inr ⟨rfl, by omega⟩⟩
  · exact ⟨row, [], h, ⟨rfl, by simp⟩, nofun, .inl ⟨rfl, by omega⟩⟩

end Laid

/-! ## The call -/

/-- The write offset is not beyond the active segment. -/
def InSegment (r : RegionInfo) (s : RegionState) : Prop :=
    s.segWriteOffset ≤ s.segOffset + r.segSize

/-- A set that does not run out of the segment keeps the row in order, and touches only the old and
the new active segment. -/
theorem Laid.set {s : RegionState} {row : List RawItem} (h : Laid r s row) {data : List UInt8}
    (hvalid : ValidSet name data) (hin : InSegment r (regionSet r s name data).1) :
    ∃ row' ops, Laid r (regionSet r s name data).1 row' ∧ Issued s (regionSet r s name data).1 ops ∧
      InSegs r s.segOffset (regionSet r s name data).1.segOffset ops ∧
      ∃ items : List Item, Inherits (row ++ items.map Item.raw) row' := by
  by_cases hdata : data = []
  · subst hdata
    obtain ⟨b, hfind, -⟩ := h.searchable.find name
    rw [regionSet_nil hvalid, hfind]
    have hlaid := h.withBuf b
    rw [← append_nil row] at hlaid
    obtain ⟨row', ops, hlaid', hissued, hops, -, hinherits⟩ := hlaid.obsoleteOld
      (show findRow r s.itemMap (r.memory (cstr name)) row nvramSegItemStartOffset = _ from rfl)
    exact ⟨row', ops, hlaid', ⟨hissued.flash, hissued.ops⟩, fun op hop => .inl (hops op hop), [],
      hinherits⟩
  · obtain ⟨b, hb⟩ := onlyBuf_isSame (r := r) s name data
    have hsame : regionIsSameConfigData r s name data =
        (s.withBuf b, (regionIsSameConfigData r s name data).2) := by rw [← hb]
    rw [regionSet_eq hvalid hdata hsame] at hin ⊢
    cases hdone : (regionIsSameConfigData r s name data).2 with
    | true =>
      refine ⟨row, [], h.withBuf b, ⟨rfl, by simp⟩, nofun, [], ?_⟩
      rw [map_nil, append_nil]
      exact .refl row
    | false =>
      rw [hdone] at hin
      obtain ⟨row', ops, hlaid, hissued, hops, hcases⟩ :=
        (h.withBuf b).prepare (itemCalcAlignedSize (cstr name).length data.length)
      have hcopied : Inherits row row' := by
        rcases hcases with ⟨rfl, -⟩ | ⟨rfl, -⟩
        · exact .refl _
        · exact inherits_copyRow row
      obtain ⟨hseg, hwrite⟩ := replaceItem_window (r := r)
        (regionPrepareWriteItem r (s.withBuf b)
          (itemCalcAlignedSize (cstr name).length data.length)) name data
      have hlen : (cstr name).length = name.length + 1 := by
        rw [cstr, length_append, length_singleton]
      have hroom : rowEnd row' + (hvalid.item hdata).size ≤ r.segSize := by
        have hin' : InSegment r (Nvram.replaceItem r (regionPrepareWriteItem r (s.withBuf b)
            (itemCalcAlignedSize (cstr name).length data.length)) name data) := hin
        have hsize : (hvalid.item hdata).size = itemCalcAlignedSize
            (cstr name).length data.length := by
          rw [hlen]
          rfl
        rw [InSegment, hseg, hwrite, hlaid.write] at hin'
        omega
      obtain ⟨row'', ops', hlaid', hissued', hops', -, hinherits⟩ :=
        hlaid.replaceItem (hvalid.item hdata) hroom
      rw [if_neg Bool.false_ne_true]
      refine ⟨row'', ops ++ ops', hlaid', Issued.trans ⟨hissued.flash, hissued.ops⟩ hissued', ?_,
        [hvalid.item hdata], (hcopied.append_right _).trans hinherits⟩
      intro op hop
      rw [hseg]
      rcases mem_append.mp hop with hop | hop
      · exact hops op hop
      · exact .inr (hops' op hop)

theorem findRow_eq_none {map : List (BitVec 32)} {mem : List UInt8} {row : List RawItem}
    {base : Nat} (h : ∀ item ∈ row, ¬ item.Matches mem) : findRow r map mem row base = none := by
  cases hfound : findRow r map mem row base with
  | none => rfl
  | some place =>
    obtain ⟨done, rest, rfl, -, -, -, hmatch⟩ := @findRow_mem _ _ _ _ _ place.1 place.2 hfound
    exact absurd hmatch (h _ (mem_append_right _ mem_cons_self))

/-- A name that is not in the row has no value to compare with. -/
theorem Laid.isSame_new {s : RegionState} {row : List RawItem} (h : Laid r s row)
    (data : List UInt8) (hnew : ∀ item ∈ row, ¬ item.Matches (r.memory (cstr name))) :
    (regionIsSameConfigData r s name data).2 = false := by
  obtain ⟨b, hfind, -⟩ := h.searchable.find name
  rw [regionIsSameConfigData, hfind, findRow_eq_none hnew]
  rfl

section

variable {s : RegionState} {row : List RawItem} (h : Laid r s row) (item : Item)
  (hnew : ∀ other ∈ row, ¬ other.Matches (r.memory (cstr item.name)))
    (hroom : rowEnd row + item.size ≤ r.segSize)
include h item hnew hroom

/-- A new name with room behind the row is written without a purge. -/
theorem Laid.set_new_eq :
    ∃ b, regionSet r s item.name item.data =
      (Nvram.replaceItem r (s.withBuf b) item.name item.data, none) := by
  have hvalid : ValidSet item.name item.data := ⟨item.name_nul, item.name_lt, item.data_le⟩
  have hdata : item.data ≠ [] := length_pos_iff.mp item.data_pos
  obtain ⟨b, hb⟩ := onlyBuf_isSame (r := r) s item.name item.data
  have hsame : regionIsSameConfigData r s item.name item.data = (s.withBuf b, false) := by
    rw [← hb, ← h.isSame_new item.data hnew]
  have hstay : regionPrepareWriteItem r (s.withBuf b)
      (itemCalcAlignedSize (cstr item.name).length item.data.length) = s.withBuf b := by
    have hwrite := h.write
    have hsize : itemCalcAlignedSize (cstr item.name).length item.data.length = item.size := by
      rw [item.length_cstr]
      rfl
    rw [regionPrepareWriteItem, hsize, withBuf_segWriteOffset, withBuf_segOffset, if_neg (by omega)]
  refine ⟨b, ?_⟩
  rw [regionSet_eq hvalid hdata hsame, if_neg Bool.false_ne_true, hstay]

/-- Setting a new name with room behind the row. -/
theorem Laid.set_new : Laid r (regionSet r s item.name item.data).1 (row ++ [item.raw]) := by
  obtain ⟨b, hset⟩ := h.set_new_eq item hnew hroom
  obtain ⟨row', -, hlaid, -, -, hrow, -⟩ := (h.withBuf b).replaceItem item hroom
  rw [hset]
  exact hrow (findRow_eq_none hnew) ▸ hlaid

theorem Laid.set_new_segOffset : (regionSet r s item.name item.data).1.segOffset = s.segOffset := by
  obtain ⟨b, hset⟩ := h.set_new_eq item hnew hroom
  rw [hset]
  exact (replaceItem_window _ _ _).1

end

/-- Arguments that are too long change nothing. -/
theorem regionSet_of_not_valid {s : RegionState} {data : List UInt8} (hname : 0 ∉ name)
    (hvalid : ¬ ValidSet name data) : regionSet r s name data = (s, some .einval) := by
  unfold regionSet
  split
  · rfl
  · rename_i hdata
    split
    · rfl
    · rename_i hlen
      refine absurd ⟨hname, ?_, Nat.not_lt.mp hdata⟩ hvalid
      rw [cstr, length_append, length_singleton] at hlen
      omega

/-! ## Runs -/

/-- The states the driver gets into: a new segment, or a scan of a segment whose items end in it
whatever they are, and then sets that do not run out of the segment. -/
inductive Scanned (r : RegionInfo) : RegionState → Prop
  | init (s : RegionState) (hmap : MapSized r s.itemMap) : Scanned r (regionInitNewSeg r s 0)
  | scan (s : RegionState) (forceMerge : Bool) (hseg : IsSeg r s.segOffset)
      (hmap : MapSized r s.itemMap)
      (hwalk : ∀ offs, OnWalk r s offs → offs ≤ r.segSize) :
        Scanned r (regionSegScan r s forceMerge)
  | set {s : RegionState} (h : Scanned r s) (name data : List UInt8) (hname : 0 ∉ name)
      (hin : InSegment r (regionSet r s name data).1) : Scanned r (regionSet r s name data).1

/-- A new segment is an empty row. -/
theorem laid_init {s : RegionState} (hmap : MapSized r s.itemMap) :
    Laid r (regionInitNewSeg r s 0) [] := by
  have hinit := newSeg_regionInitNewSeg (s := s) (isSeg_zero r) hmap
  have hbody := hinit.holds.body
  refine ⟨⟨hinit.segOffset ▸ isSeg_zero r, holds_nil _ _, hbody.fits, ?_, hinit.marks.sized, nofun⟩,
    ?_,
    hinit.marks.sized, hinit.marks.bits⟩
  · exact hinit.segOffset ▸ hinit.segWriteOffset
  · exact hinit.segOffset ▸ hbody.free

/-- In all these states the active segment is a row of items, with the valid ones marked. -/
theorem Scanned.laid {s : RegionState} (h : Scanned r s) : ∃ row, Laid r s row := by
  induction h with
  | init s hmap => exact ⟨[], laid_init hmap⟩
  | scan s forceMerge hseg hmap hwalk =>
    obtain ⟨row, hholds, hfits, hstop⟩ := exists_row hwalk r.segSize [] (Nat.sub_le _ _) .start
      (holds_nil _ _)
    have hscan : RowScanning r { s with itemMap := itemBitmapClearAll s.itemMap } [] row :=
      ⟨hseg, hholds, hfits, marks_clearAll _ hmap, nofun, hstop⟩
    obtain ⟨row', hlaid, -⟩ := regionSegScan_laid forceMerge hscan
    exact ⟨row', hlaid⟩
  | set h name data hname hin ih =>
    obtain ⟨row, hlaid⟩ := ih
    by_cases hvalid : ValidSet name data
    · obtain ⟨row', -, hlaid', -⟩ := hlaid.set hvalid hin
      exact ⟨row', hlaid'⟩
    · rw [regionSet_of_not_valid hname hvalid]
      exact ⟨row, hlaid⟩

/-- Setting one item after another. -/
def storeAll (r : RegionInfo) (s : RegionState) (items : List Item) : RegionState :=
  items.foldl (fun s item => (regionSet r s item.name item.data).1) s

/-- New names with room for all of them end up one behind the other. What each of these sets keeps
holds in the end. -/
theorem Laid.storeAll {P : RegionState → Prop} (items : List Item)
    (hkeeps : ∀ s (item : Item), P s → InSegment r (regionSet r s item.name item.data).1 →
      (regionSet r s item.name item.data).1.segOffset = s.segOffset →
        P (regionSet r s item.name item.data).1) :
    ∀ {s : RegionState} {row : List RawItem}, P s → Laid r s row →
    (∀ other ∈ row, ∀ item ∈ items, ¬ other.Matches (r.memory (cstr item.name))) →
    (items.map Item.name).Nodup → rowEnd row + (items.map Item.size).sum ≤ r.segSize →
    P (Nvram.storeAll r s items) ∧
      Laid r (Nvram.storeAll r s items) (row ++ items.map Item.raw) := by
  induction items with
  | nil =>
    intro s row hp h _ _ _
    rw [map_nil, append_nil]
    exact ⟨hp, h⟩
  | cons item items ih =>
    intro s row hp h hnew hnodup hroom
    obtain ⟨hhead, hnodup'⟩ := nodup_cons.mp hnodup
    rw [map_cons, sum_cons] at hroom
    have hnew' : ∀ other ∈ row, ¬ other.Matches (r.memory (cstr item.name)) := fun other hmem =>
      hnew other hmem item mem_cons_self
    have hset := h.set_new item hnew' (by omega)
    have hseg := h.set_new_segOffset item hnew' (by omega)
    have hsize : item.raw.bytes.length = item.size := length_live item
    have hin : InSegment r (regionSet r s item.name item.data).1 := by
      have hwrite := hset.write
      have hfits := hset.fits
      rw [InSegment]
      omega
    rw [map_cons, append_cons]
    refine ih (hkeeps s item hp hin hseg) hset ?_ hnodup' ?_
    · intro other hmem next hnext hmatch
      rcases mem_append.mp hmem with hmem | hmem
      · exact hnew other hmem next (mem_cons_of_mem _ hnext) hmatch
      · rw [mem_singleton.mp hmem] at hmatch
        have hname := (Item.matches_raw next.name_nul _).mp hmatch
        exact hhead (mem_map.mpr ⟨next, hnext, hname.symm⟩)
    · rw [rowEnd_append_singleton, hsize]
      omega

theorem Scanned.storeAll (items : List Item) {s : RegionState} {row : List RawItem}
    (hscanned : Scanned r s) (h : Laid r s row)
    (hnew : ∀ other ∈ row, ∀ item ∈ items, ¬ other.Matches (r.memory (cstr item.name)))
    (hnodup : (items.map Item.name).Nodup)
    (hroom : rowEnd row + (items.map Item.size).sum ≤ r.segSize) :
    Scanned r (Nvram.storeAll r s items) ∧
      Laid r (Nvram.storeAll r s items) (row ++ items.map Item.raw) :=
  Laid.storeAll items (fun _ item hp hin _ => hp.set item.name item.data item.name_nul hin) hscanned
    h hnew
    hnodup hroom

end SpeakerFirmware.Nvram
