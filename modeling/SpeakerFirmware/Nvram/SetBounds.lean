/-
# The bounds of a set

`region_set` looks once whether the new item fits. If it does not, the segment is purged,
and then the item is written whether it fits or not. So the call stays in its segment if
and only if there is room behind the row, or behind the items that the purge copies.
-/

import SpeakerFirmware.Nvram.RowSet

namespace SpeakerFirmware.Nvram

open NorFlash
open List

variable {r : RegionInfo}

/-! ## The room that is needed -/

/-- The walk of `copiedItemsSize`: valid items up to the first invalid one. -/
def copiedSizeLoop (r : RegionInfo) (s : RegionState) : Nat → Nat → Nat
  | 0, _ => 0
  | fuel + 1, itemOffs =>
    if itemOffs < s.segWriteOffset then
      let item := readItemHeader s itemOffs
      match (itemCheckValidity r s itemOffs item false).2 with
      | .valid => itemGetAlignedSize item + copiedSizeLoop r s fuel
          (itemOffs + itemGetAlignedSize item)
      | .obsolete => copiedSizeLoop r s fuel (itemOffs + itemGetAlignedSize item)
      | _ => 0
    else 0

/-- The room that the items take which a purge of the active segment would copy. -/
def copiedItemsSize (r : RegionInfo) (s : RegionState) : Nat :=
  copiedSizeLoop r s r.segSize (s.segOffset + nvramSegItemStartOffset)

theorem copiedSizeLoop_eq {s : RegionState} (rest : List RawItem) :
    ∀ (done : List RawItem) (fuel : Nat), rest.length < fuel → Laid r s (done ++ rest) →
      copiedSizeLoop r s fuel (s.segOffset + rowEnd done) = (rowBytes (copyRow rest)).length := by
  induction rest with
  | nil =>
    intro done fuel hfuel h
    obtain ⟨fuel, rfl⟩ := Nat.exists_eq_add_one.mpr hfuel
    have hwrite := h.write
    rw [append_nil] at hwrite
    rw [copiedSizeLoop, hwrite, if_neg (Nat.lt_irrefl _)]
    rfl
  | cons item rest ih =>
    intro done fuel hfuel h
    obtain ⟨fuel, rfl⟩ := Nat.exists_eq_add_one.mpr (Nat.zero_lt_of_lt hfuel)
    have hitem : Holds s.flash (s.segOffset + rowEnd done) item.bytes := holds_rawItem h.holds
    have hle := h.searchable.item_le
    have htotal := h.seg.le
    have hroom := rowEnd_lt_of_item done rest item
    have hwrite := h.write
    simp only [nvramItemAlignSize] at hroom
    obtain ⟨b, hcheck⟩ := itemCheckValidity_raw (r := r) hitem (by omega) false (by simp)
    have hsize : itemGetAlignedSize item.header = item.bytes.length := item.length_eq.symm
    have hrest : copiedSizeLoop r s fuel (s.segOffset + rowEnd done + item.bytes.length) =
        (rowBytes (copyRow rest)).length := by
      rw [append_cons] at h
      rw [length_cons] at hfuel
      have hnext := ih (done ++ [item]) fuel (by omega) h
      rwa [rowEnd_append_singleton, ← Nat.add_assoc] at hnext
    rw [copiedSizeLoop, if_pos (by omega)]
    dsimp only
    rw [readItemHeader_raw hitem, hcheck, hsize, hrest]
    cases hstatus : item.status with
    | empty => exact absurd hstatus item.status_ne_empty
    | valid => rw [copyRow_valid hstatus, rowBytes_cons, length_append, item.length_packed]
    | obsolete => rw [copyRow_obsolete hstatus]
    | invalid => rw [copyRow_invalid hstatus]; rfl

theorem Laid.copiedItemsSize_eq {s : RegionState} {row : List RawItem} (h : Laid r s row) :
    copiedItemsSize r s = (rowBytes (copyRow row)).length :=
  copiedSizeLoop_eq row [] r.segSize (lt_of_lt_of_le (length_row_lt row) h.fits) h

/-- The size of the item a set writes. -/
def newItemSize (name data : List UInt8) : Nat := itemCalcAlignedSize (cstr name).length data.length

/-- There is nothing to write, or there is room behind the row, or behind the items that a purge
copies. -/
def FitsSegment (r : RegionInfo) (s : RegionState) (name data : List UInt8) : Prop :=
  (regionIsSameConfigData r s name data).2 = true ∨
    s.segWriteOffset + newItemSize name data ≤ s.segOffset + r.segSize ∨
    nvramSegItemStartOffset + copiedItemsSize r s + newItemSize name data ≤ r.segSize

/-! ## The bounds -/

/-- What is asked of a set: the write offset, the programmed bytes and the bitmap index stay in the
segment, and a set without room fails and changes nothing. -/
structure StaysInside (r : RegionInfo) (s : RegionState) (name data : List UInt8) : Prop where
  write_ge : (regionSet r s name data).1.segOffset + nvramSegItemStartOffset ≤
    (regionSet r s name data).1.segWriteOffset
  write_le : (regionSet r s name data).1.segWriteOffset ≤
    (regionSet r s name data).1.segOffset + r.segSize
  programmed : ∀ addr bytes,
    Op.program addr bytes ∈ (regionSet r s name data).1.ops.drop s.ops.length →
    (s.segOffset ≤ addr ∧ addr + bytes.length ≤ s.segOffset + r.segSize) ∨
      ((regionSet r s name data).1.segOffset ≤ addr ∧
        addr + bytes.length ≤ (regionSet r s name data).1.segOffset + r.segSize)
  index : r.hasItemMap = true → (regionIsSameConfigData r s name data).2 = false →
    ((regionSet r s name data).1.segWriteOffset - newItemSize name data -
        (regionSet r s name data).1.segOffset) / nvramItemAlignSize <
      (regionSet r s name data).1.itemMap.length * 32
  full : ¬ FitsSegment r s name data → (regionSet r s name data).2 ≠ none ∧
    ∀ other maxLen, (regionGet r (regionSet r s name data).1 other maxLen).2 =
      (regionGet r s other maxLen).2

section

variable {s : RegionState} {row : List RawItem} {name data : List UInt8}

/-- Where a set that writes leaves the write offset: behind the row it writes to. -/
theorem Laid.set_window (h : Laid r s row) (hvalid : ValidSet name data) (hdata : data ≠ [])
    (hnew : (regionIsSameConfigData r s name data).2 = false) :
    ∃ row', (row' = row ∧ rowEnd row + newItemSize name data ≤ r.segSize ∨
        row' = copyRow row ∧ r.segSize < rowEnd row + newItemSize name data) ∧
      (regionSet r s name data).1.segWriteOffset =
        (regionSet r s name data).1.segOffset + rowEnd row' + newItemSize name data := by
  obtain ⟨b, hb⟩ := onlyBuf_isSame (r := r) s name data
  have hsame : regionIsSameConfigData r s name data = (s.withBuf b, false) := by rw [← hb, ← hnew]
  obtain ⟨row', ops, hlaid, -, -, hcases⟩ := (h.withBuf b).prepare (newItemSize name data)
  obtain ⟨hseg, hwrite⟩ := replaceItem_window (r := r)
    (regionPrepareWriteItem r (s.withBuf b) (newItemSize name data)) name data
  refine ⟨row', hcases, ?_⟩
  rw [regionSet_eq hvalid hdata hsame, if_neg Bool.false_ne_true]
  exact hwrite.trans (by rw [hlaid.write, ← hseg]; rfl)

/-- A set ends in its segment if and only if there is room. -/
theorem Laid.inSegment_set_iff (h : Laid r s row) (hvalid : ValidSet name data)
    (hdata : data ≠ []) :
    InSegment r (regionSet r s name data).1 ↔ FitsSegment r s name data := by
  have hwrite := h.write
  have hfits := h.fits
  cases hsame : (regionIsSameConfigData r s name data).2 with
  | true =>
    refine ⟨fun _ => .inl hsame, fun _ => ?_⟩
    obtain ⟨b, hb⟩ := onlyBuf_isSame (r := r) s name data
    have hpair : regionIsSameConfigData r s name data = (s.withBuf b, true) := by rw [← hb, ← hsame]
    rw [regionSet_eq hvalid hdata hpair, if_pos rfl]
    change s.segWriteOffset ≤ s.segOffset + r.segSize
    omega
  | false =>
    obtain ⟨row', hcases, hend⟩ := h.set_window hvalid hdata hsame
    have hcopy : rowEnd (copyRow row) = nvramSegItemStartOffset + copiedItemsSize r s := by
      rw [h.copiedItemsSize_eq]
      rfl
    rw [InSegment, FitsSegment, hsame, hend, hwrite]
    rcases hcases with ⟨rfl, hroom⟩ | ⟨rfl, hfull⟩
    · exact ⟨fun _ => .inr (.inl (by omega)), fun _ => by omega⟩
    · rw [hcopy]
      constructor
      · intro hle
        exact .inr (.inr (by omega))
      · rintro (hbad | hroom | hroom)
        · cases hbad
        · omega
        · omega

end

/-- In every state that a scan and sets lead to, a set of up to 512 bytes stays in its segment if
and only if the value is stored already, or there is room for the item behind the row or behind the
items that a purge copies. -/
theorem set_stays_inside_iff {s : RegionState} (h : Scanned r s) {name data : List UInt8}
    (hvalid : ValidSet name data) (hdata : data ≠ []) :
    StaysInside r s name data ↔ FitsSegment r s name data := by
  obtain ⟨row, hlaid⟩ := h.laid
  refine ⟨fun hinside => (hlaid.inSegment_set_iff hvalid hdata).mp hinside.write_le,
    fun hfits => ?_⟩
  have hin := (hlaid.inSegment_set_iff hvalid hdata).mpr hfits
  obtain ⟨row', ops, hlaid', hissued, hops, -⟩ := hlaid.set hvalid hin
  refine ⟨?_, hin, ?_, ?_, fun hnot => absurd hfits hnot⟩
  · rw [hlaid'.write]
    exact Nat.add_le_add_left (Nat.le_add_right _ _) _
  · intro addr bytes hmem
    rw [hissued.ops, drop_left] at hmem
    exact hops _ hmem
  · intro hmap hnew
    obtain ⟨row₁, -, hend⟩ := hlaid.set_window hvalid hdata hnew
    have hsize : nvramItemAlignSize ≤ newItemSize name data := itemCalcAlignedSize_pos _ _
    have hseg := sixteen_dvd_segSize r
    have hdvd := dvd_rowEnd row₁
    have hlt : rowEnd row₁ + newItemSize name data ≤ r.segSize := by
      rw [InSegment, hend] at hin
      omega
    have hoffs : (regionSet r s name data).1.segWriteOffset - newItemSize name data -
        (regionSet r s name data).1.segOffset = rowEnd row₁ := by omega
    rw [hoffs, hlaid'.sized hmap]
    simp only [nvramItemAlignSize] at *
    omega

/-! ## A segment full of live items -/

theorem length_letters_lt (i : Fin 7) : (List.replicate (i + 1) (0x41 : UInt8)).length <
    nvramMaxNameSize := by
  rw [length_replicate, nvramMaxNameSize]
  omega

/-- The names `A`, `AA`, ... with 512 bytes each. -/
def blockItem (i : Fin 7) : Item where
  name := List.replicate (i + 1) 0x41
  data := List.replicate 512 0
  name_nul := by simp
  name_lt := length_letters_lt i
  data_pos := by
    rw [length_replicate]
    decide
  data_le := by
    rw [length_replicate]
    decide

theorem blockItem_size (i : Fin 7) : (blockItem i).size = 528 := by
  have hlt := i.isLt
  simp only [Item.size, blockItem, length_replicate, itemCalcAlignedSize, itemCalcRealSize,
    itemHeaderSize, nvramItemAlignSize]
  omega

/-- A new factory region. -/
def newFactoryRegion : RegionState :=
  regionInitNewSeg factoryNvramRegion (powerOn factoryNvramRegion fun _ => 0xff) 0

/-- A new factory region after setting the seven names. -/
def fullFactoryRegion : RegionState :=
  storeAll factoryNvramRegion newFactoryRegion ((List.finRange 7).map blockItem)

theorem scanned_newFactoryRegion : Scanned factoryNvramRegion newFactoryRegion :=
  .init _ (mapSized_powerOn _ _)

theorem laid_newFactoryRegion : Laid factoryNvramRegion newFactoryRegion [] :=
  laid_init (mapSized_powerOn _ _)

theorem sum_blockItem_size : (((List.finRange 7).map blockItem).map Item.size).sum = 3696 := by
  have hsize : Item.size ∘ blockItem = fun _ => 528 := funext blockItem_size
  rw [map_map, hsize]
  rfl

theorem length_rowBytes_raw (items : List Item) :
    (rowBytes (items.map Item.raw)).length = (items.map Item.size).sum := by
  induction items with
  | nil => rfl
  | cons item items ih =>
    have hsize : item.raw.bytes.length = item.size := length_live item
    rw [map_cons, rowBytes_cons, length_append, hsize, ih, map_cons, sum_cons]

theorem nodup_blockItem : (((List.finRange 7).map blockItem).map Item.name).Nodup := by
  decide

theorem laid_fullFactoryRegion :
    Laid factoryNvramRegion fullFactoryRegion (((List.finRange 7).map blockItem).map Item.raw) :=
  (Scanned.storeAll _ scanned_newFactoryRegion laid_newFactoryRegion nofun nodup_blockItem
    (by rw [sum_blockItem_size]; decide)).2

theorem rowEnd_fullFactoryRegion :
    rowEnd (((List.finRange 7).map blockItem).map Item.raw) = 3712 := by
  rw [rowEnd, length_rowBytes_raw, sum_blockItem_size]
  rfl

/-- The copies of valid items take the room of the items. -/
theorem length_copyRow_of_valid {row : List RawItem} (h : ∀ item ∈ row, item.status = .valid) :
    (rowBytes (copyRow row)).length = (rowBytes row).length := by
  induction row with
  | nil => rfl
  | cons item rest ih =>
    rw [copyRow_valid (h item mem_cons_self), rowBytes_cons, rowBytes_cons, length_append,
      length_append, item.length_packed, ih fun i hi => h i (mem_cons_of_mem _ hi)]

/-- The eighth item is written 144 bytes beyond the segment, and the call returns 0. -/
theorem eighth_block_leaves_segment :
    (regionSet factoryNvramRegion fullFactoryRegion [0x42] (List.replicate 512 0)).2 = none ∧
      (regionSet factoryNvramRegion fullFactoryRegion [0x42]
        (List.replicate 512 0)).1.segWriteOffset =
        (regionSet factoryNvramRegion fullFactoryRegion [0x42] (List.replicate 512 0)).1.segOffset +
          factoryNvramRegion.segSize + 144 := by
  have hvalid : ValidSet [0x42] (List.replicate 512 0) :=
    ⟨by decide, by decide, by rw [length_replicate]; decide⟩
  have hdata : List.replicate 512 (0 : UInt8) ≠ [] := by decide
  have hnew : ∀ item ∈ ((List.finRange 7).map blockItem).map Item.raw,
      ¬ item.Matches (factoryNvramRegion.memory (cstr [0x42])) := by
    intro item hmem hmatch
    obtain ⟨block, hblock, rfl⟩ := mem_map.mp hmem
    obtain ⟨i, -, rfl⟩ := mem_map.mp hblock
    have hname := (Item.matches_raw (by decide) _).mp hmatch
    have hhead : some (0x41 : UInt8) = some 0x42 := congrArg List.head? hname
    exact absurd hhead (by decide)
  have hall : ∀ item ∈ ((List.finRange 7).map blockItem).map Item.raw, item.status = .valid := by
    intro item hmem
    obtain ⟨block, -, rfl⟩ := mem_map.mp hmem
    exact block.status_raw
  have hend := rowEnd_fullFactoryRegion
  have hcopies : rowEnd (copyRow (((List.finRange 7).map blockItem).map Item.raw)) = 3712 := by
    rw [← hend, rowEnd, length_copyRow_of_valid hall, rowEnd]
  have hsize : newItemSize [0x42] (List.replicate 512 0) = 528 := by
    rw [newItemSize, length_replicate]
    decide
  have hseg : factoryNvramRegion.segSize = 0x1000 := rfl
  have hnotSame := laid_fullFactoryRegion.isSame_new (List.replicate 512 0) hnew
  obtain ⟨row', hcases, hwrite⟩ := laid_fullFactoryRegion.set_window hvalid hdata hnotSame
  refine ⟨?_, ?_⟩
  · obtain ⟨b, hb⟩ :=
      onlyBuf_isSame (r := factoryNvramRegion) fullFactoryRegion [0x42] (List.replicate 512 0)
    rw [regionSet_eq hvalid hdata (Prod.ext hb hnotSame)]
  · rcases hcases with ⟨-, hroom⟩ | ⟨rfl, -⟩
    · omega
    · omega

/-- An eighth item that takes the last bytes of the segment. -/
theorem set_stays_inside_full_region :
    StaysInside factoryNvramRegion fullFactoryRegion [0x42] (List.replicate 366 0) := by
  have hscanned : Scanned factoryNvramRegion fullFactoryRegion :=
    (Scanned.storeAll _ scanned_newFactoryRegion laid_newFactoryRegion nofun nodup_blockItem
      (by rw [sum_blockItem_size]; decide)).1
  have hvalid : ValidSet [0x42] (List.replicate 366 0) :=
    ⟨by decide, by decide, by rw [length_replicate]; decide⟩
  have hsize : newItemSize [0x42] (List.replicate 366 0) = 384 := by
    rw [newItemSize, length_replicate]
    decide
  refine (set_stays_inside_iff hscanned hvalid (by decide)).mpr (.inr (.inl ?_))
  have hseg : factoryNvramRegion.segSize = 0x1000 := rfl
  have hend := rowEnd_fullFactoryRegion
  have hwrite := laid_fullFactoryRegion.write
  omega

end SpeakerFirmware.Nvram
