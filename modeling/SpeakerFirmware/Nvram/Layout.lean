/-
# What a segment holds

The abstract side of the NVRAM store. A segment is a header and a row of slots; a
slot is a live item or an obsolete one. The module says which bytes they are, how a
walk over the flash sees them, and what the bitmap must mark.
-/

import SpeakerFirmware.Nvram.Driver

namespace SpeakerFirmware.Nvram

/-! ## Items -/

/-- A name and its value, within the limits `region_set` accepts. -/
structure Item where
  name : List UInt8
  data : List UInt8
  name_nul : 0 ∉ name
  name_lt : name.length < nvramMaxNameSize
  data_pos : 0 < data.length
  data_le : data.length ≤ nvramMaxDataSize

namespace Item

variable (item : Item)

/-- The bytes `region_write_item` writes first. -/
def head : List UInt8 := newItemHeader item.name item.data ++ cstr item.name

/-- The item as it is written. -/
def bytes : List UInt8 := item.head ++ item.data

def header : ItemHeader := ⟨newItemHeader item.name item.data⟩

/-- The room the item takes in a segment. -/
def size : Nat := itemCalcAlignedSize (item.name.length + 1) item.data.length

theorem length_cstr : (cstr item.name).length = item.name.length + 1 := by
  simp [cstr]

theorem length_header : item.header.bytes.length = itemHeaderSize := rfl

theorem length_head : item.head.length = itemHeaderSize + (item.name.length + 1) := by
  rw [head, List.length_append, length_cstr]
  rfl

theorem length_bytes :
    item.bytes.length = itemCalcRealSize (item.name.length + 1) item.data.length := by
  rw [bytes, List.length_append, length_head, itemCalcRealSize]

theorem header_magic : item.header.magic = nvramRegionItemMagic := rfl

theorem header_state : item.header.state = nvramItemStateValid := rfl

theorem header_hash : item.header.hash = calcHash (cstr item.name) := rfl

theorem header_nameSize : item.header.nameSize = item.name.length + 1 := by
  have hlen := item.name_lt
  have hvalue : item.header.nameSize = (UInt8.ofNat (cstr item.name).length).toNat := rfl
  simp only [nvramMaxNameSize] at hlen
  rw [hvalue, UInt8.toNat_ofNat', length_cstr]
  omega

theorem header_dataSize : item.header.dataSize = item.data.length := by
  have hlen := item.data_le
  have hvalue : item.header.dataSize = (UInt8.ofNat (item.data.length % 256)).toNat +
      256 * (UInt8.ofNat (item.data.length / 256)).toNat := rfl
  simp only [nvramMaxDataSize] at hlen
  rw [hvalue, UInt8.toNat_ofNat', UInt8.toNat_ofNat']
  omega

theorem header_size : itemGetAlignedSize item.header = item.size := by
  rw [itemGetAlignedSize, header_nameSize, header_dataSize, size]

/-- The CRC in the header is the one a reader computes. -/
theorem header_crc : item.header.crc = calcCrc8 item.data
    (calcCrc8 (cstr item.name)
      (calcCrc8 (item.header.bytes.drop nvramRegionItemCrcOffset) 0)) := rfl

end Item

variable (nameSize dataSize : Nat)

theorem itemCalcAlignedSize_ge :
    itemCalcRealSize nameSize dataSize ≤ itemCalcAlignedSize nameSize dataSize := by
  simp only [itemCalcAlignedSize, nvramItemAlignSize]
  omega

theorem dvd_itemCalcAlignedSize :
    nvramItemAlignSize ∣ itemCalcAlignedSize nameSize dataSize :=
  Nat.dvd_mul_left _ _

theorem itemCalcAlignedSize_pos :
    nvramItemAlignSize ≤ itemCalcAlignedSize nameSize dataSize := by
  simp only [itemCalcAlignedSize, itemCalcRealSize, itemHeaderSize, nvramItemAlignSize]
  omega

/-! ## Slots -/

/-- The bytes of an item that was marked obsolete: what remains of it is its place
in the row. -/
structure IsDead (bytes : List UInt8) : Prop where
  magic : (ItemHeader.mk (bytes.take itemHeaderSize)).magic = nvramRegionItemMagic
  state : (ItemHeader.mk (bytes.take itemHeaderSize)).state = nvramItemStateObsolete
  size : bytes.length = itemGetAlignedSize ⟨bytes.take itemHeaderSize⟩

/-- One place in the row of items of a segment. -/
inductive Slot
  | live (item : Item)
  | dead (bytes : List UInt8) (obsolete : IsDead bytes)

namespace Slot

/-- The flash contents of a slot; the rest up to the alignment stays erased. -/
def bytes : Slot → List UInt8
  | .live item => item.bytes ++ List.replicate (item.size - item.bytes.length) 0xff
  | .dead bytes _ => bytes

def header : Slot → ItemHeader
  | .live item => item.header
  | .dead bytes _ => ⟨bytes.take itemHeaderSize⟩

def item? : Slot → Option Item
  | .live item => some item
  | .dead _ _ => none

variable (slot : Slot)

theorem length_bytes : slot.bytes.length = itemGetAlignedSize slot.header := by
  cases slot with
  | live item =>
    have hge := itemCalcAlignedSize_ge (item.name.length + 1) item.data.length
    rw [← item.length_bytes] at hge
    rw [bytes, header, item.header_size, List.length_append, List.length_replicate, Item.size]
    omega
  | dead bytes obsolete => exact obsolete.size

theorem header_magic : slot.header.magic = nvramRegionItemMagic := by
  cases slot with
  | live item => rfl
  | dead bytes obsolete => exact obsolete.magic

theorem length_ge : nvramItemAlignSize ≤ slot.bytes.length := by
  rw [length_bytes]
  exact itemCalcAlignedSize_pos _ _

theorem dvd_length : nvramItemAlignSize ∣ slot.bytes.length := by
  rw [length_bytes]
  exact dvd_itemCalcAlignedSize _ _

theorem take_bytes : slot.bytes.take itemHeaderSize = slot.header.bytes := by
  cases slot with
  | live item => rfl
  | dead bytes obsolete => rfl

end Slot

/-- The bytes of a row of slots. -/
def slotsBytes (slots : List Slot) : List UInt8 := (slots.map Slot.bytes).flatten

@[simp]
theorem slotsBytes_nil : slotsBytes [] = [] := rfl

@[simp]
theorem slotsBytes_cons (slot : Slot) (slots : List Slot) :
    slotsBytes (slot :: slots) = slot.bytes ++ slotsBytes slots := rfl

@[simp]
theorem slotsBytes_append (first second : List Slot) :
    slotsBytes (first ++ second) = slotsBytes first ++ slotsBytes second := by
  simp [slotsBytes]

/-- Where the slot behind a row of slots starts. -/
def endOffset (slots : List Slot) : Nat := nvramSegItemStartOffset + (slotsBytes slots).length

theorem endOffset_append_cons (done : List Slot) (slot : Slot) :
    endOffset (done ++ [slot]) = endOffset done + slot.bytes.length := by
  simp [endOffset, Nat.add_assoc]

theorem dvd_endOffset (slots : List Slot) : nvramItemAlignSize ∣ endOffset slots := by
  induction slots using List.reverseRecOn with
  | nil => exact ⟨1, rfl⟩
  | append_singleton slots slot ih =>
    rw [endOffset_append_cons]
    exact Nat.dvd_add ih slot.dvd_length

/-- The live items of a row of slots, in order. -/
def liveItems (slots : List Slot) : List Item := slots.filterMap Slot.item?

end SpeakerFirmware.Nvram
