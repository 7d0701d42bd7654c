/-
# Rows of items of any kind

The walks over a segment step from header to header. A `RawItem` is what lies between
two steps: a live item, an obsolete one, one with a wrong checksum, one that was torn,
or any other bytes behind a header that is not erased. The module says what the
functions of the driver make of a row of them, without assuming that they were written
by `region_set`.

The name size of a damaged header can exceed `nvram_buf`. The C code then writes behind
the buffer; here the buffer grows.
-/

import SpeakerFirmware.Nvram.Segment

namespace SpeakerFirmware.Nvram

open NorFlash
open List Nat Bool

variable {r : RegionInfo}
variable {f : Image} {base : Nat}
variable {map : List (BitVec 32)}

/-- The operation that marks the item at an offset obsolete. -/
def obsoleteOp (itemOffs : Nat) : Op := .program (itemOffs + 1) [nvramItemStateObsolete]

/-- Marking an item obsolete is one operation. -/
theorem itemUpdateState_eq (s : RegionState) {itemOffs : Nat} (hin : itemOffs + 2 ≤ r.totalSize) :
    itemUpdateState r s itemOffs nvramItemStateObsolete = s.issue [obsoleteOp itemOffs] := by
  rw [itemUpdateState, regionWrite_eq _ (by rw [length_singleton]; omega),
    nvramStorageWrite_singleton, obsoleteOp]

theorem allWithin_obsoleteOp {lo hi itemOffs : Nat} (hlo : lo ≤ itemOffs + 1)
    (hhi : itemOffs + 2 ≤ hi) :
    AllWithin lo hi [obsoleteOp itemOffs] := by
  refine allWithin_cons.mpr ⟨⟨hlo, ?_⟩, allWithin_nil _ _⟩
  rw [length_singleton]
  exact hhi

/-- Marking one of several items obsolete. -/
theorem holds_obsoleteOp {offs : Nat} {before bytes after : List UInt8}
    (h : Holds f offs (before ++ (bytes ++ after)))
    (hlen : 2 ≤ bytes.length) (hstate : bytes.getD 1 0 = nvramItemStateValid) :
    Holds ((obsoleteOp (offs + before.length)).apply f) offs
      (before ++ (bytes.set 1 nvramItemStateObsolete ++ after)) := by
  have hop : AllWithin (offs + before.length) (offs + before.length + bytes.length)
      [obsoleteOp (offs + before.length)] := allWithin_obsoleteOp (le_succ _) (by omega)
  obtain ⟨hbefore, hrest⟩ := holds_append.mp h
  obtain ⟨hbytes, hafter⟩ := holds_append.mp hrest
  have hset := hbytes.program_byte (i := 1) nvramItemStateObsolete
  have hand : nvramItemStateValid &&& nvramItemStateObsolete = nvramItemStateObsolete := by decide
  rw [hstate, hand] at hset
  rw [holds_append, holds_append, length_set]
  exact ⟨hop.holds hbefore (.inl (by omega)), hset, hop.holds hafter (.inr le_rfl)⟩

/-- The bitmap has the size of the segment. -/
def MapSized (r : RegionInfo) (map : List (BitVec 32)) : Prop :=
  r.hasItemMap = true → map.length * 32 = r.segSize / nvramItemAlignSize

theorem empty_of_erased {s : RegionState} {offs : Nat} (h : Erased s.flash offs itemHeaderSize) :
    itemIsEmpty (readItemHeader s offs) = true := by
  rw [← isErased_iff, isErased_eq_all_read] at h
  exact h

/-- An erased header has no magic number. -/
theorem magic_of_empty {s : RegionState} {offs : Nat}
    (h : itemIsEmpty (readItemHeader s offs) = true) :
    (readItemHeader s offs).magic ≠ nvramRegionItemMagic := by
  have hbyte : (readItemHeader s offs).magic = s.flash offs :=
    getD_read s.flash offs itemHeaderSize 0 (by decide) 0
  have hmem : s.flash offs ∈ (readItemHeader s offs).bytes :=
    mem_map.mpr ⟨0, mem_range.mpr (by decide), rfl⟩
  have hff := beq_iff_eq.mp (all_eq_true.mp h _ hmem)
  rw [hbyte, hff]
  decide

/-- A header with the magic number is not erased. -/
theorem not_empty_of_magic {item : ItemHeader} (h : item.magic = nvramRegionItemMagic) :
    itemIsEmpty item = false := by
  obtain ⟨bytes⟩ := item
  rw [ItemHeader.magic] at h
  cases bytes with
  | nil => exact absurd h (by decide)
  | cons byte rest =>
    have hbyte : byte = nvramRegionItemMagic := h
    rw [hbyte]
    rfl

/-! ## Items -/

/-- The bytes between two steps of a walk: as many as the header says, and the header is
not erased. -/
@[ext]
structure RawItem where
  bytes : List UInt8
  length_eq : bytes.length = itemGetAlignedSize ⟨bytes.take itemHeaderSize⟩
  not_empty : itemIsEmpty ⟨bytes.take itemHeaderSize⟩ = false

variable {row : List RawItem}

namespace RawItem

variable (item : RawItem)

def header : ItemHeader := ⟨item.bytes.take itemHeaderSize⟩

/-- The stored name, with its zero byte if it has one. -/
def name : List UInt8 := (item.bytes.drop itemHeaderSize).take item.header.nameSize

def data : List UInt8 :=
  (item.bytes.drop (itemHeaderSize + item.header.nameSize)).take item.header.dataSize

/-- The CRC a reader computes. -/
def crc : UInt8 :=
  calcCrc8 item.data
    (calcCrc8 item.name (calcCrc8 (item.header.bytes.drop nvramRegionItemCrcOffset) 0))

/-- What `item_check_validity` says without a CRC check. -/
def status : ItemStatus :=
  if item.header.magic ≠ nvramRegionItemMagic then .invalid
  else if item.header.state ≠ nvramItemStateValid then
    if item.header.state = nvramItemStateObsolete then .obsolete else .invalid
  else if item.header.hash ≠ calcHash item.name then .invalid else .valid

/-- `region_find_item` takes this item for the name at the start of `mem`. -/
def Matches (mem : List UInt8) : Prop :=
  (item.header.state = nvramItemStateValid ∧ item.header.hash = calcHash (cstrAt mem)) ∧
    item.name = mem.take item.header.nameSize

instance (mem : List UInt8) : Decidable (item.Matches mem) := inferInstanceAs (Decidable (_ ∧ _))

theorem length_ge : nvramItemAlignSize ≤ item.bytes.length := by
  rw [item.length_eq]
  exact itemCalcAlignedSize_pos _ _

theorem dvd_length : nvramItemAlignSize ∣ item.bytes.length := by
  rw [item.length_eq]
  exact dvd_itemCalcAlignedSize _ _

theorem real_le : itemCalcRealSize item.header.nameSize item.header.dataSize ≤
    item.bytes.length := by
  rw [item.length_eq]
  exact itemCalcAlignedSize_ge _ _

/-- Name and data lie in the item. -/
theorem parts_le : itemHeaderSize + item.header.nameSize + item.header.dataSize ≤
    item.bytes.length :=
  item.real_le

theorem status_eq_valid : item.status = .valid ↔ item.header.magic = nvramRegionItemMagic ∧
    item.header.state = nvramItemStateValid ∧ item.header.hash = calcHash item.name := by
  unfold status
  split
  · rename_i hmagic
    exact ⟨nofun, fun h => absurd h.1 hmagic⟩
  · rename_i hmagic
    split
    · rename_i hstate
      refine ⟨fun h => ?_, fun h => absurd h.2.1 hstate⟩
      split at h <;> cases h
    · rename_i hstate
      split
      · rename_i hhash
        exact ⟨nofun, fun h => absurd h.2.2 hhash⟩
      · rename_i hhash
        exact ⟨fun _ => ⟨not_not.mp hmagic, not_not.mp hstate, not_not.mp hhash⟩, fun _ => rfl⟩

theorem status_ne_empty : item.status ≠ .empty := by
  unfold status
  split
  · nofun
  · split
    · split <;> nofun
    · split <;> nofun

end RawItem

/-- Whether an item is to be marked in the bitmap. -/
def RawItem.isValid (item : RawItem) : Bool := item.status == .valid

theorem RawItem.isValid_iff {item : RawItem} : item.isValid = true ↔ item.status = .valid :=
    beq_iff_eq

/-! ## Obsolete items -/

theorem getD_set_ne (bytes : List UInt8) {i j : Nat} (hne : i ≠ j) (b : UInt8) :
    (bytes.set i b).getD j 0 = bytes.getD j 0 := by
  simp only [List.getD, getElem?_set_ne hne]

namespace RawItem

variable (item : RawItem)

theorem take_set_state : (item.bytes.set 1 nvramItemStateObsolete).take itemHeaderSize =
    item.header.bytes.set 1 nvramItemStateObsolete := take_set

theorem one_lt_header : 1 < item.header.bytes.length := by
  have hlen := item.length_ge
  simp only [nvramItemAlignSize] at hlen
  rw [header, length_take, itemHeaderSize]
  omega

/-- The item behind a programming of its state byte. -/
def obsoleted : RawItem where
  bytes := item.bytes.set 1 nvramItemStateObsolete
  length_eq := by
    rw [take_set_state, length_set, item.length_eq]
    simp only [itemGetAlignedSize, ItemHeader.nameSize, ItemHeader.dataSize]
    rw [getD_set_ne _ (by decide), getD_set_ne _ (by decide), getD_set_ne _ (by decide)]
    rfl
  not_empty := by
    rw [take_set_state, itemIsEmpty, all_eq_false]
    refine ⟨nvramItemStateObsolete, ?_, by decide⟩
    exact mem_of_getElem? (getElem?_set_self item.one_lt_header)

theorem length_obsoleted : item.obsoleted.bytes.length = item.bytes.length := length_set

theorem header_obsoleted :
    item.obsoleted.header = ⟨item.header.bytes.set 1 nvramItemStateObsolete⟩ :=
  congrArg ItemHeader.mk item.take_set_state

theorem state_obsoleted : item.obsoleted.header.state = nvramItemStateObsolete := by
  rw [header_obsoleted, ItemHeader.state, List.getD, getElem?_set_self item.one_lt_header]
  rfl

theorem status_obsoleted (h : item.header.magic = nvramRegionItemMagic) :
    item.obsoleted.status = .obsolete := by
  have hmagic : item.obsoleted.header.magic = nvramRegionItemMagic := by
    rw [header_obsoleted, ItemHeader.magic, getD_set_ne _ (by decide)]
    exact h
  rw [status, if_neg (not_not.mpr hmagic), state_obsoleted, if_pos (by decide), if_pos rfl]

theorem isValid_obsoleted (h : item.header.magic = nvramRegionItemMagic) :
    item.obsoleted.isValid = false := by
  rw [isValid, item.status_obsoleted h]
  rfl

theorem getD_state : item.bytes.getD 1 0 = item.header.state := by
  rw [ItemHeader.state, header, List.getD, List.getD, getElem?_take_of_lt (by decide)]

end RawItem

section

variable {s : RegionState} {offs : Nat} {item : RawItem}

theorem readItemHeader_raw (h : Holds s.flash offs item.bytes) :
    readItemHeader s offs = item.header := by
  have hlen : itemHeaderSize ≤ item.bytes.length := le_trans (by decide) item.length_ge
  rw [readItemHeader, h.read_take hlen, RawItem.header]

theorem read_rawName (h : Holds f offs item.bytes) :
    read f (offs + itemHeaderSize) item.header.nameSize = item.name :=
  h.read_drop_take (le_trans (le_add_right _ _) item.parts_le)

theorem read_rawData (h : Holds f offs item.bytes) :
    read f (offs + itemHeaderSize + item.header.nameSize) item.header.dataSize = item.data := by
  rw [add_assoc]
  exact h.read_drop_take item.parts_le

section

variable (h : Holds s.flash offs item.bytes) (hin : offs + item.bytes.length ≤ r.totalSize)
include h hin

theorem itemCalcCrc_raw {b : List UInt8} (hb : b.take item.header.nameSize = item.name) :
    ∃ b', itemCalcCrc r (s.withBuf b) offs item.header = (s.withBuf b', item.crc) := by
  have hparts := item.parts_le
  obtain ⟨b', hb'⟩ := itemCalcDataCrc_eq (r := r) item.header.dataSize (s.withBuf b)
    (offs + itemHeaderSize + item.header.nameSize) item.header.dataSize
    (calcCrc8 item.name (calcCrc8 (item.header.bytes.drop nvramRegionItemCrcOffset) 0)) le_rfl
      (by omega)
  refine ⟨b', ?_⟩
  rw [itemCalcCrc, withBuf_buf, hb, hb', withBuf_flash, read_rawData h, withBuf_withBuf]
  rfl

/-- The validity check of an item, with the CRC check left out or passed. -/
theorem itemCheckValidity_raw (checkCrc : Bool)
    (hcrc : checkCrc = true → item.status = .valid → item.header.crc = item.crc) :
    ∃ b, itemCheckValidity r s offs item.header checkCrc = (s.withBuf b, item.status) := by
  have hparts := item.parts_le
  have hempty : itemIsEmpty item.header = false := item.not_empty
  unfold itemCheckValidity RawItem.status
  by_cases hmagic : item.header.magic ≠ nvramRegionItemMagic
  · rw [if_pos hmagic, if_pos hmagic, hempty]
    exact ⟨s.buf, rfl⟩
  rw [if_neg hmagic, if_neg hmagic]
  by_cases hstate : item.header.state ≠ nvramItemStateValid
  · rw [if_pos hstate, if_pos hstate]
    exact ⟨s.buf, rfl⟩
  rw [if_neg hstate, if_neg hstate, regionReadBuf_eq s (by omega)]
  dsimp only
  rw [withBuf_buf, take_read_append, read_rawName h]
  by_cases hhash : item.header.hash ≠ calcHash item.name
  · rw [if_pos hhash, if_pos hhash]
    exact ⟨_, rfl⟩
  rw [if_neg hhash, if_neg hhash]
  cases checkCrc with
  | false => exact ⟨_, rfl⟩
  | true =>
    have hvalid : item.status = .valid :=
      item.status_eq_valid.mpr ⟨not_not.mp hmagic, not_not.mp hstate, not_not.mp hhash⟩
    obtain ⟨b, hb⟩ := itemCalcCrc_raw (r := r) (s := s) h hin
      (b := item.name ++ s.buf.drop item.header.nameSize)
      (by rw [← read_rawName h, take_read_append])
    rw [if_pos rfl, hb, if_neg (not_not.mpr (hcrc rfl hvalid))]
    exact ⟨b, rfl⟩

/-- An item with a wrong CRC is marked obsolete. -/
theorem itemCheckValidity_badCrc (hvalid : item.status = .valid)
    (hcrc : item.header.crc ≠ item.crc) :
    ∃ b, itemCheckValidity r s offs item.header true =
      ((s.issue [obsoleteOp offs]).withBuf b, .invalid) := by
  have hparts := item.parts_le
  have hlen := item.length_ge
  simp only [nvramItemAlignSize] at hlen
  obtain ⟨hmagic, hstate, hhash⟩ := item.status_eq_valid.mp hvalid
  obtain ⟨b, hb⟩ := itemCalcCrc_raw (r := r) (s := s) h hin
    (b := item.name ++ s.buf.drop item.header.nameSize)
    (by rw [← read_rawName h, take_read_append])
  rw [itemCheckValidity, if_neg (not_not.mpr hmagic), if_neg (not_not.mpr hstate),
    regionReadBuf_eq s (by omega)]
  dsimp only
  rw [withBuf_buf, take_read_append, read_rawName h, if_neg (not_not.mpr hhash), if_pos rfl, hb,
    if_pos hcrc]
  refine ⟨b, ?_⟩
  rw [itemUpdateState_eq _ (by omega), issue_withBuf]

end

end

/-! ## Rows -/

def rowBytes (row : List RawItem) : List UInt8 := (row.map RawItem.bytes).flatten

@[simp]
theorem rowBytes_nil : rowBytes [] = [] := rfl

@[simp]
theorem rowBytes_cons (item : RawItem) (row : List RawItem) :
    rowBytes (item :: row) = item.bytes ++ rowBytes row := rfl

variable (first second : List RawItem)

@[simp]
theorem rowBytes_append :
    rowBytes (first ++ second) = rowBytes first ++ rowBytes second := by
  simp [rowBytes]

/-- Where the item behind a row starts, relative to the segment. -/
def rowEnd (row : List RawItem) : Nat := nvramSegItemStartOffset + (rowBytes row).length

@[simp]
theorem rowEnd_nil : rowEnd [] = nvramSegItemStartOffset := rfl

theorem rowEnd_append_singleton (row : List RawItem) (item : RawItem) :
    rowEnd (row ++ [item]) = rowEnd row + item.bytes.length := by
  simp [rowEnd, add_assoc]

theorem rowEnd_append :
    rowEnd (first ++ second) = rowEnd first + (rowBytes second).length := by
  simp [rowEnd, add_assoc]

theorem dvd_rowEnd (row : List RawItem) : nvramItemAlignSize ∣ rowEnd row := by
  induction row using List.reverseRecOn with
  | nil => exact ⟨1, rfl⟩
  | append_singleton row item ih =>
    rw [rowEnd_append_singleton]
    exact Nat.dvd_add ih item.dvd_length

theorem length_row_lt (row : List RawItem) : row.length < rowEnd row := by
  induction row using List.reverseRecOn with
  | nil => decide
  | append_singleton row item ih =>
    have hpos := item.length_ge
    rw [rowEnd_append_singleton, length_append, length_singleton]
    simp only [nvramItemAlignSize] at hpos
    omega

/-- An item of a row, at its place in the flash. -/
theorem holds_rawItem {done rest : List RawItem} {item : RawItem}
    (h : Holds f (base + nvramSegItemStartOffset) (rowBytes (done ++ item :: rest))) :
    Holds f (base + rowEnd done) item.bytes := by
  rw [rowBytes_append, rowBytes_cons] at h
  have hitem := (holds_append.mp (holds_append.mp h).2).1
  rwa [add_assoc] at hitem

/-! ## The bitmap -/

/-- The offsets of the items of a row that have a property. -/
def offsetsOf (P : RawItem → Bool) : List RawItem → Nat → List Nat
  | [], _ => []
  | item :: rest, offs =>
    (if P item then [offs] else []) ++ offsetsOf P rest (offs + item.bytes.length)

theorem offsetsOf_append (P : RawItem → Bool) (first second : List RawItem) (offs : Nat) :
    offsetsOf P (first ++ second) offs =
      offsetsOf P first offs ++ offsetsOf P second (offs + (rowBytes first).length) := by
  induction first generalizing offs with
  | nil => rfl
  | cons item rest ih => simp [offsetsOf, ih, add_assoc]

variable {P : RawItem → Bool}

theorem mem_offsetsOf {row : List RawItem} {base offs : Nat}
    (h : offs ∈ offsetsOf P row base) :
    ∃ done item rest, row = done ++ item :: rest ∧ offs = base + (rowBytes done).length := by
  induction row generalizing base with
  | nil => exact absurd h not_mem_nil
  | cons item row ih =>
    rcases mem_append.mp h with hhead | hrest
    · split at hhead
      · exact ⟨[], item, row, rfl, mem_singleton.mp hhead⟩
      · exact absurd hhead not_mem_nil
    · obtain ⟨done, item', rest, rfl, hoffs⟩ := ih hrest
      refine ⟨item :: done, item', rest, rfl, ?_⟩
      rw [hoffs, rowBytes_cons, length_append, add_assoc]

theorem offsetsOf_bounds {offs : Nat}
    (h : offs ∈ offsetsOf P row base) : base ≤ offs ∧ offs < base + (rowBytes row).length := by
  obtain ⟨done, item, rest, rfl, hoffs⟩ := mem_offsetsOf h
  have hpos := item.length_ge
  simp only [nvramItemAlignSize] at hpos
  rw [rowBytes_append, rowBytes_cons, length_append, length_append]
  omega

/-- The bitmap of a region that has one marks the items with a property. -/
structure Marks (r : RegionInfo) (map : List (BitVec 32)) (P : RawItem → Bool)
    (row : List RawItem) :
    Prop where
  sized : MapSized r map
  bits : r.hasItemMap = true → ∀ bit < r.segSize / nvramItemAlignSize,
    (mapBit map bit = true ↔ bit * nvramItemAlignSize ∈ offsetsOf P row nvramSegItemStartOffset)

/-- The bitmap marks nothing but items of the row. -/
structure MarksWithin (r : RegionInfo) (map : List (BitVec 32)) (row : List RawItem) : Prop where
  sized : MapSized r map
  bits : r.hasItemMap = true → ∀ bit < r.segSize / nvramItemAlignSize, mapBit map bit = true →
    bit * nvramItemAlignSize ∈ offsetsOf (fun _ => true) row nvramSegItemStartOffset

theorem Marks.within
    (h : Marks r map P row) (rest : List RawItem) : MarksWithin r map (row ++ rest) := by
  refine ⟨h.sized, fun hmap bit hbit hset => ?_⟩
  rw [offsetsOf_append]
  apply mem_append_left
  have hmem := (h.bits hmap bit hbit).mp hset
  generalize nvramSegItemStartOffset = base at hmem ⊢
  clear h
  induction row generalizing base with
  | nil => exact hmem
  | cons item row ih =>
    rcases mem_append.mp hmem with hhead | hrest
    · split at hhead
      · exact mem_append_left _ hhead
      · exact absurd hhead not_mem_nil
    · exact mem_append_right _ (ih _ hrest)

/-- A search looks at the item at this offset. -/
def visible (r : RegionInfo) (map : List (BitVec 32)) (offs : Nat) : Bool :=
  !r.hasItemMap || mapBit map (offs / nvramItemAlignSize)

/-- Behind the row nothing is marked. -/
theorem Marks.not_visible {offs : Nat} (h : Marks r map P row)
    (hmap : r.hasItemMap = true) (hge : rowEnd row ≤ offs) (hlt : offs < r.segSize)
    (hdvd : nvramItemAlignSize ∣ offs) : visible r map offs = false := by
  have hseg := sixteen_dvd_segSize r
  rw [visible, hmap, Bool.not_true, Bool.false_or, Bool.eq_false_iff]
  intro hset
  have hmem := (h.bits hmap _ (by simp only [nvramItemAlignSize] at *; omega)).mp hset
  rw [Nat.div_mul_cancel hdvd] at hmem
  have hbounds := offsetsOf_bounds hmem
  rw [rowEnd] at hge
  omega

section

variable {s : RegionState} {done rest : List RawItem} {item : RawItem}

theorem nextOffset_visible (hsized : MapSized r s.itemMap) (hlt : rowEnd done < r.segSize)
    (hvisible : visible r s.itemMap (rowEnd done) = true) :
    itemBitmapNextOffset r s (rowEnd done) = rowEnd done := by
  unfold itemBitmapNextOffset
  split
  · rename_i hmap
    have hsize := hsized hmap
    have hseg := sixteen_dvd_segSize r
    have hdvd := dvd_rowEnd done
    have hset : mapBit s.itemMap (rowEnd done / nvramItemAlignSize) = true := by
      rwa [visible, hmap, Bool.not_true, Bool.false_or] at hvisible
    simp only [nvramItemAlignSize] at *
    rw [← hsize, findNextBit_of_set (by omega) hset]
    omega
  · rfl

/-- An item that is not marked is passed over. -/
theorem nextOffset_hidden (hmarks : MarksWithin r s.itemMap (done ++ item :: rest))
    (hend : rowEnd (done ++ [item]) ≤ r.segSize)
    (hhidden : visible r s.itemMap (rowEnd done) = false) :
    itemBitmapNextOffset r s (rowEnd done) = itemBitmapNextOffset r s
      (rowEnd (done ++ [item])) := by
  obtain ⟨hmap, hclear⟩ : r.hasItemMap = true ∧
      mapBit s.itemMap (rowEnd done / nvramItemAlignSize) = false := by
    rw [visible, or_eq_false_iff, not_eq_false'] at hhidden
    exact hhidden
  have hsize := hmarks.sized hmap
  have hdone := dvd_rowEnd done
  have hnext := dvd_rowEnd (done ++ [item])
  have hseg := sixteen_dvd_segSize r
  rw [rowEnd_append_singleton] at hend hnext ⊢
  rw [itemBitmapNextOffset, itemBitmapNextOffset, if_pos hmap, if_pos hmap, ← hsize]
  congr 1
  simp only [nvramItemAlignSize] at hsize hdone hnext hseg hclear ⊢
  apply findNextBit_of_clear (by omega) (by omega)
  intro bit hlo hhi
  rw [eq_false_iff]
  intro hset
  have hmem := hmarks.bits hmap bit (by simp only [nvramItemAlignSize]; omega) hset
  rw [offsetsOf_append, mem_append, offsetsOf, mem_append] at hmem
  simp only [nvramItemAlignSize, rowEnd, if_true, mem_singleton] at hmem hlo hhi hdone hnext hclear
  rcases hmem with hbefore | heq | hafter
  · have hbounds := offsetsOf_bounds hbefore
    omega
  · rw [← heq, Nat.mul_div_cancel _ (by decide)] at hclear
    exact absurd hset (by rw [hclear]; decide)
  · have hbounds := offsetsOf_bounds hafter
    omega

/-- Behind the row a marked search ends. -/
theorem nextOffset_rowEnd (hmarks : MarksWithin r s.itemMap done) (hend : rowEnd done ≤ r.segSize)
    (hmap : r.hasItemMap = true) : itemBitmapNextOffset r s (rowEnd done) = r.segSize := by
  have hsize := hmarks.sized hmap
  have hdone := dvd_rowEnd done
  have hseg := sixteen_dvd_segSize r
  rw [itemBitmapNextOffset, if_pos hmap, ← hsize]
  simp only [nvramItemAlignSize] at hsize hdone hseg ⊢
  have hclear : findNextBit s.itemMap (s.itemMap.length * 32) (rowEnd done / 16) =
      findNextBit s.itemMap (s.itemMap.length * 32) (s.itemMap.length * 32) :=
    findNextBit_of_clear (by omega) le_rfl (by
      intro bit hlo hhi
      rw [eq_false_iff]
      intro hset
      have hmem := hmarks.bits hmap bit (by simp only [nvramItemAlignSize]; omega) hset
      have hbounds := offsetsOf_bounds hmem
      simp only [nvramItemAlignSize, rowEnd] at hbounds hlo hdone
      omega)
  rw [hclear, findNextBit, if_pos le_rfl]
  omega

/-- The search starts behind the segment header. -/
theorem itemBitmapFirstOffset_row (hmarks : MarksWithin r s.itemMap row) :
    itemBitmapFirstOffset r s = itemBitmapNextOffset r s (rowEnd []) := by
  unfold itemBitmapFirstOffset itemBitmapNextOffset
  split
  · rename_i hmap
    have hsize := hmarks.sized hmap
    have hpos := r.segSize_pos
    have hseg := sixteen_dvd_segSize r
    rw [← hsize, findFirstBit_eq_findNextBit]
    congr 1
    apply findNextBit_of_clear (zero_le _)
    · simp only [nvramItemAlignSize, rowEnd_nil, nvramSegItemStartOffset] at *
      omega
    · intro bit _ hhi
      rw [eq_false_iff]
      intro hset
      simp only [nvramItemAlignSize, rowEnd_nil, nvramSegItemStartOffset] at hhi hsize hseg
      have hmem := hmarks.bits hmap bit (by simp only [nvramItemAlignSize]; omega) hset
      have hbounds := offsetsOf_bounds hmem
      simp only [nvramItemAlignSize, nvramSegItemStartOffset] at hbounds
      omega
  · rfl

end

/-! ## Finding an item -/

/-- The first item a search takes for the name. It ends at a visible item without the magic
number. -/
def findRow (r : RegionInfo) (map : List (BitVec 32)) (mem : List UInt8) :
    List RawItem → Nat → Option (Nat × RawItem)
  | [], _ => none
  | item :: rest, offs =>
    if visible r map offs = false then findRow r map mem rest (offs + item.bytes.length)
    else if item.header.magic ≠ nvramRegionItemMagic then none
    else if item.Matches mem then some (offs, item)
    else findRow r map mem rest (offs + item.bytes.length)

theorem findRow_hidden {mem : List UInt8}
    (h : ∀ offs ∈ offsetsOf (fun _ => true) row base, visible r map offs = false) :
    findRow r map mem row base = none := by
  induction row generalizing base with
  | nil => rfl
  | cons item rest ih =>
    rw [findRow, if_pos (h base mem_cons_self)]
    exact ih fun offs hmem => h offs (mem_cons_of_mem _ hmem)

/-- What a search returns for an item of the row. -/
def rawFoundAt (segOffset : Nat) (found : Nat × RawItem) : Nat × ItemHeader :=
  (segOffset + found.1, found.2.header)

/-- The state of a search: the row lies in the active segment, and the walk ends behind it. -/
structure Searchable (r : RegionInfo) (s : RegionState) (row : List RawItem) : Prop where
  seg : IsSeg r s.segOffset
  holds : Holds s.flash (s.segOffset + nvramSegItemStartOffset) (rowBytes row)
  fits : rowEnd row ≤ r.segSize
  marks : MarksWithin r s.itemMap row
  stop : rowEnd row = r.segSize ∨
    (readItemHeader s (s.segOffset + rowEnd row)).magic ≠ nvramRegionItemMagic

theorem Searchable.withBuf {s : RegionState} (h : Searchable r s row)
    (b : List UInt8) : Searchable r (s.withBuf b) row :=
  ⟨h.seg, h.holds, h.fits, h.marks, h.stop⟩

theorem Searchable.item_le {s : RegionState} {done rest : List RawItem} {item : RawItem}
    (h : Searchable r s (done ++ item :: rest)) :
    rowEnd done + item.bytes.length ≤ r.segSize := by
  have hfits := h.fits
  rw [rowEnd_append, rowBytes_cons, length_append] at hfits
  omega

/-- The search over the rest of a row. -/
theorem findItemLoop_row (mem : List UInt8) (rest : List RawItem) :
    ∀ (done : List RawItem) (s : RegionState) (fuel : Nat), rest.length < fuel →
      Searchable r s (done ++ rest) →
      ∃ b, findItemLoop r mem fuel s (itemBitmapNextOffset r s (rowEnd done)) =
          (s.withBuf b, (findRow r s.itemMap mem rest (rowEnd done)).map (rawFoundAt s.segOffset)) ∧
        ∀ offs item, findRow r s.itemMap mem rest (rowEnd done) = some (offs, item) →
          b.take item.header.nameSize = item.name := by
  induction rest with
  | nil =>
    intro done s fuel hfuel h
    rw [append_nil] at h
    obtain ⟨fuel, rfl⟩ := exists_eq_add_one.mpr hfuel
    refine ⟨s.buf, ?_, (by rintro _ _ ⟨⟩)⟩
    rw [findItemLoop]
    cases hmap : r.hasItemMap with
    | true =>
      rw [nextOffset_rowEnd h.marks h.fits hmap, if_neg (lt_irrefl _)]
      rfl
    | false =>
      have hoff : itemBitmapNextOffset r s (rowEnd done) = rowEnd done := by
        simp [itemBitmapNextOffset, hmap]
      rw [hoff]
      rcases h.stop with hfull | hmagic
      · rw [if_neg (by omega)]
        rfl
      · split
        · rw [if_pos hmagic]
          rfl
        · rfl
  | cons item rest ih =>
    intro done s fuel hfuel h
    obtain ⟨fuel, rfl⟩ := exists_eq_add_one.mpr (zero_lt_of_lt hfuel)
    have hfuel' : rest.length < fuel := by
      rw [length_cons] at hfuel
      omega
    have hitem : Holds s.flash (s.segOffset + rowEnd done) item.bytes := holds_rawItem h.holds
    have hle := h.item_le
    have hlen := item.length_ge
    have hparts := item.parts_le
    have htotal := h.seg.le
    simp only [nvramItemAlignSize] at hlen
    have hnext : rowEnd done + itemGetAlignedSize item.header = rowEnd (done ++ [item]) := by
      rw [rowEnd_append_singleton, item.length_eq]
      rfl
    -- the search goes on behind the item
    have hskip : ∀ (b : List UInt8) (fuel : Nat), rest.length < fuel →
        ∃ b', findItemLoop r mem fuel (s.withBuf b)
            (itemBitmapNextOffset r s (rowEnd (done ++ [item]))) =
            (s.withBuf b', (findRow r s.itemMap mem rest (rowEnd done + item.bytes.length)).map
              (rawFoundAt s.segOffset)) ∧
          ∀ offs item', findRow r s.itemMap mem rest (rowEnd done + item.bytes.length) =
            some (offs, item') → b'.take item'.header.nameSize = item'.name := by
      intro b fuel hfuel
      rw [← rowEnd_append_singleton]
      rw [append_cons] at h
      exact ih (done ++ [item]) (s.withBuf b) fuel hfuel (h.withBuf b)
    cases hvisible : visible r s.itemMap (rowEnd done) with
    | false =>
      rw [findRow, if_pos hvisible,
        nextOffset_hidden h.marks (by rw [rowEnd_append_singleton]; exact hle) hvisible]
      exact hskip s.buf _ (lt_succ_of_lt hfuel')
    | true =>
      have hnot : ¬ visible r s.itemMap (rowEnd done) = false := by
        rw [hvisible]
        decide
      rw [findRow, if_neg hnot, nextOffset_visible h.marks.sized (by omega) hvisible, findItemLoop,
        if_pos (by omega)]
      dsimp only
      rw [readItemHeader_raw hitem, hnext]
      by_cases hmagic : item.header.magic ≠ nvramRegionItemMagic
      · rw [if_pos hmagic, if_pos hmagic]
        exact ⟨s.buf, rfl, (by simp)⟩
      rw [if_neg hmagic, if_neg hmagic]
      by_cases hhash : item.header.state = nvramItemStateValid ∧
        item.header.hash = calcHash (cstrAt mem)
      · rw [if_pos hhash, regionReadBuf_eq s (by omega), withBuf_buf, take_read_append,
          read_rawName hitem]
        by_cases hname : item.name = mem.take item.header.nameSize
        · rw [if_pos hname, if_pos (show item.Matches mem from ⟨hhash, hname⟩)]
          refine ⟨_, rfl, fun offs found hfound => ?_⟩
          obtain ⟨-, rfl⟩ := Prod.mk.inj (Option.some.inj hfound)
          rw [← read_rawName hitem, take_read_append]
        · rw [if_neg hname, if_neg (fun hmatch : item.Matches mem => hname hmatch.2)]
          exact hskip _ fuel hfuel'
      · rw [if_neg hhash, if_neg (fun hmatch : item.Matches mem => hhash hmatch.1)]
        exact hskip s.buf fuel hfuel'

/-- `region_find_item` in a segment of raw items. -/
theorem Searchable.findAt {s : RegionState} (h : Searchable r s row)
    (mem : List UInt8) :
    ∃ b, regionFindItemAt r s mem =
        (s.withBuf b, (findRow r s.itemMap mem row nvramSegItemStartOffset).map
          (rawFoundAt s.segOffset)) ∧
      ∀ offs item, findRow r s.itemMap mem row nvramSegItemStartOffset = some (offs, item) →
        b.take item.header.nameSize = item.name := by
  have hfind :=
    findItemLoop_row mem row [] s r.segSize (lt_of_lt_of_le (length_row_lt row) h.fits) h
  rw [← itemBitmapFirstOffset_row h.marks] at hfind
  exact hfind

theorem Searchable.find {s : RegionState} (h : Searchable r s row) (name : List UInt8) :
    ∃ b, regionFindItem r s name =
        (s.withBuf b, (findRow r s.itemMap (r.memory (cstr name)) row nvramSegItemStartOffset).map
          (rawFoundAt s.segOffset)) ∧
      ∀ offs item, findRow r s.itemMap (r.memory (cstr name)) row nvramSegItemStartOffset =
        some (offs, item) → b.take item.header.nameSize = item.name :=
  h.findAt _

/-- What a search finds is an item of the row. -/
theorem findRow_mem {mem : List UInt8} {offs : Nat}
    {item : RawItem} (h : findRow r map mem row base = some (offs, item)) :
    ∃ done rest, row = done ++ item :: rest ∧ offs = base + (rowBytes done).length ∧
      visible r map offs = true ∧ item.header.magic = nvramRegionItemMagic ∧ item.Matches mem := by
  induction row generalizing base with
  | nil => cases h
  | cons first row ih =>
    have hlater : findRow r map mem row (base + first.bytes.length) = some (offs, item) →
        ∃ done rest, first :: row = done ++ item :: rest ∧ offs = base + (rowBytes done).length ∧
          visible r map offs = true ∧ item.header.magic = nvramRegionItemMagic ∧
            item.Matches mem := by
      intro hfound
      obtain ⟨done, rest, rfl, hoffs, hfacts⟩ := ih hfound
      refine ⟨first :: done, rest, rfl, ?_, hfacts⟩
      rw [hoffs, rowBytes_cons, length_append, add_assoc]
    rw [findRow] at h
    split at h
    · exact hlater h
    · rename_i hvisible
      split at h
      · cases h
      · rename_i hmagic
        split at h
        · rename_i hmatch
          obtain ⟨rfl, rfl⟩ := Prod.mk.inj (Option.some.inj h)
          exact ⟨[], row, rfl, rfl, not_eq_false _ ▸ hvisible, not_not.mp hmagic, hmatch⟩
        · exact hlater h

/-! ## Reading a value -/

/-- What `region_get` returns for the item it found. -/
def getRow (found : Option (Nat × RawItem)) (maxLen : Nat) : Except Errno (List UInt8) :=
  match found with
  | none => .error .enoent
  | some (_, item) => if item.header.crc ≠ item.crc then .error .eacces
      else .ok (item.data.take maxLen)

theorem Searchable.get {s : RegionState} (h : Searchable r s row)
    (name : List UInt8) {maxLen : Nat} (hlen : 0 < maxLen) :
    ∃ b, regionGet r s name maxLen =
      (s.withBuf b,
        getRow (findRow r s.itemMap (r.memory (cstr name)) row nvramSegItemStartOffset)
        maxLen) := by
  obtain ⟨b, hfind, hbuf⟩ := h.find name
  rw [regionGet, if_neg (ne_of_gt hlen), hfind]
  cases hfound : findRow r s.itemMap (r.memory (cstr name)) row nvramSegItemStartOffset with
  | none => exact ⟨b, rfl⟩
  | some found =>
    obtain ⟨offs, item⟩ := found
    obtain ⟨done, rest, rfl, hoffs, -⟩ := findRow_mem hfound
    have hitem : Holds s.flash (s.segOffset + rowEnd done) item.bytes := holds_rawItem h.holds
    have hle := h.item_le
    have hparts := item.parts_le
    have htotal := h.seg.le
    have hplace : offs = rowEnd done := hoffs
    subst hplace
    obtain ⟨b', hcrc⟩ := itemCalcCrc_raw (r := r) hitem (by omega) (hbuf _ _ hfound)
    refine ⟨b', ?_⟩
    simp only [Option.map_some, rawFoundAt, getRow]
    rw [hcrc]
    split
    · rfl
    · have hdata := read_rawData hitem
      have hholds :
          Holds s.flash (s.segOffset + rowEnd done + itemHeaderSize + item.header.nameSize)
          item.data := by
        rw [Holds, ← hdata, length_read]
      have hsize : item.header.dataSize = item.data.length := by
        rw [← hdata, length_read]
      have hshort : (if maxLen < item.header.dataSize then maxLen else item.header.dataSize) ≤
          item.header.dataSize := by
        split <;> omega
      dsimp only
      rw [regionReadData, if_neg (by omega), withBuf_flash, hsize]
      split
      · rename_i hlt
        rw [hholds.read_take (le_of_lt hlt)]
      · rename_i hge
        rw [hholds.read_take le_rfl, take_of_length_le (le_refl _),
          take_of_length_le (not_lt.mp hge)]

end SpeakerFirmware.Nvram
