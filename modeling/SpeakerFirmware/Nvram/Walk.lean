/-
# Rows of slots

A row of slots is a row of items, live or obsolete. With and without a bitmap a search in it
returns the first live slot of the name: the bitmap only leaves out slots that cannot match.
-/

import SpeakerFirmware.Nvram.Row

namespace SpeakerFirmware.Nvram

open NorFlash
open List

variable {r : RegionInfo}
variable {s : RegionState} {offs : Nat} {item : Item} {map : List (BitVec 32)}
variable {slots done rest : List Slot} {name : List UInt8}
variable {bytes : List UInt8} {slot : Slot}

/-! ## Slots as items -/

/-- The item `region_set` writes. -/
def Item.raw (item : Item) : RawItem where
  bytes := (Slot.live item).bytes
  length_eq := by
    rw [Slot.take_bytes]
    exact Slot.length_bytes _
  not_empty := by
    rw [Slot.take_bytes]
    rfl

theorem Item.header_raw (item : Item) : item.raw.header = item.header :=
  congrArg ItemHeader.mk (Slot.take_bytes (.live item))

theorem Item.parts_raw (item : Item) : item.raw.name = cstr item.name ∧
    item.raw.data = item.data := by
  have hbytes : item.raw.bytes = item.header.bytes ++ (cstr item.name ++
      (item.data ++ List.replicate (item.size - item.bytes.length) 0xff)) := by
    simp [Item.raw, Slot.bytes, Item.bytes, Item.head, Item.header]
  rw [RawItem.name, RawItem.data, item.header_raw, hbytes, ← item.length_header]
  have hname : item.header.nameSize = (cstr item.name).length := by
    rw [item.header_nameSize, item.length_cstr]
  refine ⟨?_, ?_⟩
  · rw [drop_left, hname, take_left]
  · rw [← drop_drop, drop_left, hname, drop_left, item.header_dataSize, take_left]

theorem Item.status_raw (item : Item) : item.raw.status = .valid := by
  rw [RawItem.status_eq_valid, item.header_raw, item.parts_raw.1]
  exact ⟨rfl, rfl, rfl⟩

theorem Item.crc_raw (item : Item) : item.raw.header.crc = item.raw.crc := by
  rw [RawItem.crc, item.parts_raw.1, item.parts_raw.2, item.header_raw]
  exact item.header_crc

/-- A slot as an item of a row. -/
def Slot.raw : Slot → RawItem
  | .live item => item.raw
  | .dead bytes obsolete => ⟨bytes, obsolete.size, not_empty_of_magic obsolete.magic⟩

@[simp]
theorem Slot.bytes_raw (slot : Slot) : slot.raw.bytes = slot.bytes := by
  cases slot <;> rfl

theorem Slot.header_raw (slot : Slot) : slot.raw.header = slot.header := by
  rw [RawItem.header, bytes_raw, take_bytes]

theorem Slot.status_dead (obsolete : IsDead bytes) :
    (Slot.dead bytes obsolete).raw.status = .obsolete := by
  have hmagic : (Slot.dead bytes obsolete).raw.header.magic = nvramRegionItemMagic := obsolete.magic
  have hstate : (Slot.dead bytes obsolete).raw.header.state = nvramItemStateObsolete :=
    obsolete.state
  rw [RawItem.status, if_neg (not_not.mpr hmagic), hstate, if_pos (by decide), if_pos rfl]

theorem Slot.isValid_live (item : Item) : (Slot.live item).raw.isValid = true :=
  RawItem.isValid_iff.mpr item.status_raw

theorem Slot.isValid_dead (obsolete : IsDead bytes) :
    (Slot.dead bytes obsolete).raw.isValid = false := by
  rw [RawItem.isValid, Slot.status_dead]
  rfl

/-- A slot as an item has the CRC of its header, if it is valid. -/
theorem Slot.crc_raw (h : slot.raw.status = .valid) :
    slot.raw.header.crc = slot.raw.crc := by
  cases slot with
  | live item => exact item.crc_raw
  | dead bytes obsolete => cases (status_dead obsolete).symm.trans h

/-- The items of a row of slots. -/
def rawRow (slots : List Slot) : List RawItem := slots.map Slot.raw

@[simp]
theorem rawRow_append (first second : List Slot) :
    rawRow (first ++ second) = rawRow first ++ rawRow second :=
  map_append

@[simp]
theorem rawRow_cons (slot : Slot) (slots : List Slot) :
    rawRow (slot :: slots) = slot.raw :: rawRow slots := rfl

@[simp]
theorem rowBytes_rawRow (slots : List Slot) : rowBytes (rawRow slots) = slotsBytes slots := by
  simp [rowBytes, rawRow, slotsBytes, Function.comp_def]

@[simp]
theorem rowEnd_rawRow (slots : List Slot) : rowEnd (rawRow slots) = endOffset slots := by
  rw [rowEnd, rowBytes_rawRow, endOffset]

/-- A slot of a row, at its place in the flash. -/
theorem holds_slot {f : Image} {base : Nat}
    (h : Holds f (base + nvramSegItemStartOffset) (slotsBytes (done ++ slot :: rest))) :
    Holds f (base + endOffset done) slot.bytes := by
  rw [← rowBytes_rawRow, rawRow_append, rawRow_cons] at h
  have hslot := holds_rawItem h
  rwa [rowEnd_rawRow, Slot.bytes_raw] at hslot

theorem endOffset_slot_le (h : endOffset (done ++ slot :: rest) ≤ r.segSize) :
    endOffset (done ++ [slot]) ≤ r.segSize := by
  rw [append_cons, endOffset, slotsBytes_append, length_append] at h
  rw [endOffset]
  omega

theorem rawRow_crc {other : RawItem} (h : other ∈ rawRow slots) (hvalid : other.status = .valid) :
    other.header.crc = other.crc := by
  obtain ⟨slot, -, rfl⟩ := mem_map.mp h
  exact Slot.crc_raw hvalid

/-! ## Reading a slot -/

theorem readItemHeader_slot
    (h : Holds s.flash offs slot.bytes) : readItemHeader s offs = slot.header := by
  rw [← slot.bytes_raw] at h
  rw [readItemHeader_raw h, slot.header_raw]

/-- The three parts of a live slot. -/
theorem holds_live {f : Image}
    (h : Holds f offs (Slot.live item).bytes) :
    Holds f offs item.bytes ∧
      read f (offs + itemHeaderSize) item.header.nameSize = cstr item.name ∧
      read f (offs + itemHeaderSize + item.header.nameSize) item.header.dataSize = item.data := by
  have hbytes := (holds_append.mp h).1
  have hparts := holds_append.mp hbytes
  have hname := (holds_append.mp hparts.1).2
  refine ⟨hbytes, ?_, ?_⟩
  · rw [item.header_nameSize, ← item.length_cstr]
    exact hname
  · have hdata := hparts.2
    rw [item.length_head, ← item.header_nameSize, ← Nat.add_assoc] at hdata
    rw [item.header_dataSize]
    exact hdata

theorem slot_le_of_holds {total : Nat}
    (hin : offs + (Slot.live item).bytes.length ≤ total) :
    offs + itemHeaderSize + item.header.nameSize + item.header.dataSize ≤ total := by
  have hsize := itemCalcAlignedSize_ge item.header.nameSize item.header.dataSize
  rw [Slot.length_bytes] at hin
  simp only [itemCalcRealSize] at hsize
  have hslot : itemGetAlignedSize (Slot.live item).header =
      itemCalcAlignedSize item.header.nameSize item.header.dataSize := rfl
  omega

/-! ## Comparing names -/

/-- A C string ends at its zero byte, whatever stands behind it. -/
theorem takeWhile_cstr_append {name : List UInt8} (h : 0 ∉ name) (tail : List UInt8) :
    (cstr name ++ tail).takeWhile (· != 0) = name := by
  have hall : ∀ byte ∈ name, (byte != 0) = true := fun byte hmem =>
    bne_iff_ne.mpr fun heq => h (heq ▸ hmem)
  rw [cstr, append_assoc, takeWhile_append_of_pos hall, singleton_append,
    takeWhile_cons_of_neg (by decide), append_nil]

theorem cstrAt_append {name : List UInt8} (h : 0 ∉ name) (tail : List UInt8) :
    cstrAt (cstr name ++ tail) = cstr name :=
  congrArg cstr (takeWhile_cstr_append h tail)

/-- `memcmp` over the length of a stored name tells names apart, whatever stands behind the
name that is looked for. -/
theorem cstr_eq_take_iff {stored name : List UInt8} (hstored : 0 ∉ stored) (hname : 0 ∉ name)
    (tail : List UInt8) :
    cstr stored = (cstr name ++ tail).take (stored.length + 1) ↔ stored = name := by
  constructor
  · intro h
    have hsplit := take_append_drop (stored.length + 1) (cstr name ++ tail)
    rw [← h] at hsplit
    have hread := congrArg (List.takeWhile (· != 0)) hsplit
    rwa [takeWhile_cstr_append hstored, takeWhile_cstr_append hname] at hread
  · rintro rfl
    rw [take_append_of_le_length (by simp [cstr]), take_of_length_le (by simp [cstr])]

theorem Item.matches_raw (hname : 0 ∉ name) (tail : List UInt8) :
    item.raw.Matches (cstr name ++ tail) ↔ item.name = name := by
  rw [RawItem.Matches, cstrAt_append hname, item.parts_raw.1, item.header_raw,
    item.header_nameSize, cstr_eq_take_iff item.name_nul hname]
  refine ⟨And.right, ?_⟩
  rintro rfl
  exact ⟨⟨item.header_state, item.header_hash⟩, rfl⟩

/-! ## Live slots and the bitmap -/

/-- The offsets of the live slots of a row that starts at `base`. -/
def liveOffsets : List Slot → Nat → List Nat
  | [], _ => []
  | .live item :: rest, base => base :: liveOffsets rest (base + (Slot.live item).bytes.length)
  | .dead bytes _ :: rest, base => liveOffsets rest (base + bytes.length)

theorem offsetsOf_rawRow (slots : List Slot) (base : Nat) :
    offsetsOf RawItem.isValid (rawRow slots) base = liveOffsets slots base := by
  induction slots generalizing base with
  | nil => rfl
  | cons slot rest ih =>
    cases slot with
    | live item =>
      rw [rawRow_cons, offsetsOf, Slot.bytes_raw, ih, if_pos (Slot.isValid_live item)]
      rfl
    | dead bytes obsolete =>
      rw [rawRow_cons, offsetsOf, Slot.isValid_dead, ih]
      rfl

/-- The bitmap of a region that has one marks exactly the live slots. -/
structure MarksLive (r : RegionInfo) (map : List (BitVec 32)) (slots : List Slot) : Prop where
  length : r.hasItemMap = true → map.length * 32 = r.segSize / nvramItemAlignSize
  bits : r.hasItemMap = true → ∀ bit < r.segSize / nvramItemAlignSize,
    (mapBit map bit = true ↔ bit * nvramItemAlignSize ∈ liveOffsets slots nvramSegItemStartOffset)

theorem marksLive_iff : MarksLive r map slots ↔ Marks r map RawItem.isValid (rawRow slots) := by
  constructor
  · intro h
    refine ⟨h.length, ?_⟩
    rw [offsetsOf_rawRow]
    exact h.bits
  · intro h
    refine ⟨h.sized, ?_⟩
    rw [← offsetsOf_rawRow]
    exact h.bits

theorem MarksLive.sized (h : MarksLive r map slots) :
    MapSized r map := h.length

theorem MarksLive.within (h : MarksLive r map slots) : MarksWithin r map (rawRow slots) := by
  have hwithin := (marksLive_iff.mp h).within []
  rwa [append_nil] at hwithin

/-- A search looks at every live slot. -/
theorem MarksLive.visible (h : MarksLive r map slots) (hend : endOffset slots ≤ r.segSize)
    (hmem : offs ∈ liveOffsets slots nvramSegItemStartOffset) : visible r map offs = true := by
  rw [← offsetsOf_rawRow] at hmem
  have hbounds := offsetsOf_bounds hmem
  obtain ⟨first, other, last, hrow, hoffs⟩ := mem_offsetsOf hmem
  have hdvd : nvramItemAlignSize ∣ offs := hoffs ▸ dvd_rowEnd first
  have hseg := sixteen_dvd_segSize r
  rw [rowBytes_rawRow] at hbounds
  rw [Nvram.visible, Bool.or_eq_true, Bool.not_eq_true']
  cases hmap : r.hasItemMap with
  | false => exact .inl rfl
  | true =>
    refine .inr ((h.bits hmap _ ?_).mpr ?_)
    · simp only [nvramItemAlignSize, endOffset] at *
      omega
    · rwa [Nat.div_mul_cancel hdvd, ← offsetsOf_rawRow]

theorem mem_liveOffsets (done rest : List Slot) (item : Item) :
    endOffset done ∈ liveOffsets (done ++ .live item :: rest) nvramSegItemStartOffset := by
  rw [← offsetsOf_rawRow, rawRow_append, offsetsOf_append, rowBytes_rawRow, rawRow_cons, offsetsOf,
    if_pos (Slot.isValid_live item)]
  exact mem_append_right _ mem_cons_self

/-- A search comes to a slot that is visible, and passes over one that is not. -/
theorem nextOffset_slot (hmarks : MarksLive r s.itemMap slots) (hlt : endOffset done < r.segSize)
    (hvisible : visible r s.itemMap (endOffset done) = true) :
    itemBitmapNextOffset r s (endOffset done) = endOffset done := by
  rw [← rowEnd_rawRow] at hlt hvisible ⊢
  exact nextOffset_visible hmarks.sized hlt hvisible

theorem nextOffset_hiddenSlot (hmarks : MarksLive r s.itemMap (done ++ slot :: rest))
    (hend : endOffset (done ++ [slot]) ≤ r.segSize)
    (hhidden : visible r s.itemMap (endOffset done) = false) :
    itemBitmapNextOffset r s (endOffset done) = itemBitmapNextOffset r s
      (endOffset (done ++ [slot])) := by
  have hwithin := hmarks.within
  rw [rawRow_append] at hwithin
  simp only [← rowEnd_rawRow] at hend hhidden ⊢
  rw [rawRow_append] at hend ⊢
  exact nextOffset_hidden hwithin hend hhidden

/-- Behind the last slot a marked search ends. -/
theorem nextOffset_end (hmarks : MarksLive r s.itemMap done) (hend : endOffset done ≤ r.segSize)
    (hmap : r.hasItemMap = true) : itemBitmapNextOffset r s (endOffset done) = r.segSize := by
  rw [← rowEnd_rawRow] at hend ⊢
  exact nextOffset_rowEnd hmarks.within hend hmap

/-- The search starts behind the segment header. -/
theorem itemBitmapFirstOffset_eq (hmarks : MarksLive r s.itemMap slots) :
    itemBitmapFirstOffset r s = itemBitmapNextOffset r s (endOffset []) :=
  itemBitmapFirstOffset_row hmarks.within

/-! ## Finding an item -/

/-- The first live slot of a name in a row that starts at `base`. -/
def findLive (name : List UInt8) : List Slot → Nat → Option (Nat × Item)
  | [], _ => none
  | .live item :: rest, base =>
    if item.name = name then some (base, item)
    else findLive name rest (base + (Slot.live item).bytes.length)
  | .dead bytes _ :: rest, base => findLive name rest (base + bytes.length)

/-- A search in a row that starts with slots. -/
theorem findRow_rawRow (hname : 0 ∉ name) (tail : List UInt8) (slots : List Slot)
    (behind : List RawItem) (base : Nat)
    (hvisible : ∀ offs ∈ liveOffsets slots base, visible r map offs = true) :
    findRow r map (cstr name ++ tail) (rawRow slots ++ behind) base =
      ((findLive name slots base).map fun found => (found.1, found.2.raw)).or
        (findRow r map (cstr name ++ tail) behind (base + (slotsBytes slots).length)) := by
  induction slots generalizing base with
  | nil => rfl
  | cons slot rest ih =>
    have hrest := ih (base + slot.bytes.length)
    rw [slotsBytes_cons, length_append, ← Nat.add_assoc, rawRow_cons, cons_append, findRow,
      Slot.bytes_raw,
      Slot.header_raw, if_neg (not_not.mpr slot.header_magic)]
    cases slot with
    | live item =>
      rw [hvisible base mem_cons_self, if_neg (by decide),
        hrest fun offs hmem => hvisible offs (mem_cons_of_mem _ hmem), findLive]
      have hmatch : (Slot.live item).raw.Matches (cstr name ++ tail) ↔ item.name = name :=
        Item.matches_raw hname tail
      by_cases heq : item.name = name
      · rw [if_pos (hmatch.mpr heq), if_pos heq]
        rfl
      · rw [if_neg (mt hmatch.mp heq), if_neg heq]
    | dead bytes obsolete =>
      have hdead : ¬ (Slot.dead bytes obsolete).raw.Matches (cstr name ++ tail) := fun hmatch =>
        absurd (obsolete.state.symm.trans hmatch.1.1) (by decide)
      rw [if_neg hdead, ite_self]
      exact hrest hvisible

/-- What a search returns for the slot it found. -/
def foundAt (segOffset : Nat) (found : Nat × Item) : Nat × ItemHeader :=
  (segOffset + found.1, found.2.header)

end SpeakerFirmware.Nvram
