/-
# The NVRAM configuration store

This module embeds `nvram_config.c` and the write path of `nvram_storage.c`. A
region of the NOR flash is cut into segments. One segment is active: a header with
a sequence number, then items that are only ever appended. Setting a name appends
a new item and marks the old one obsolete; when the segment is full its live items
are copied to the next one. `region_scan` finds the active segment after a reboot.

The state `Nvram` holds the flash, the operations issued on it so far, the shared
buffer `nvram_buf`, and the run-time fields of `struct region_info`. Flash
addresses are relative to the base address of the region. Calls of
`is_in_nvram_region_bounds` always succeed on the regions of the driver, and
flash operations succeed, so neither has an error branch here.
-/

import SpeakerFirmware.Lib.NorFlash

namespace SpeakerFirmware.Nvram

def nvramMaxNameSize : Nat := 112
def nvramMaxDataSize : Nat := 512
def nvramItemAlignSize : Nat := 0x10
def nvramEraseAlignSize : Nat := 0x1000
def nvramBufferSize : Nat := 128
def nvramStorageWriteSegmentSize : Nat := 32

/-- `NVRAM_REGION_SEG_MAGIC`, the four bytes of `NVRS`. -/
def nvramRegionSegMagic : List UInt8 := [0x4E, 0x56, 0x53, 0x52]

def nvramRegionItemMagic : UInt8 := 0x49
def nvramRegionSegVersion : UInt8 := 1
def nvramRegionSegStateValid : UInt8 := 0xff
def nvramRegionSegStateObsolete : UInt8 := 0x5a
def nvramItemStateValid : UInt8 := 0xff
def nvramItemStateObsolete : UInt8 := 0x5a
def nvramRegionSegHeaderCrcOffset : Nat := 6
def nvramRegionItemCrcOffset : Nat := 3

/-- `sizeof(struct region_seg_header)`. -/
def segHeaderSize : Nat := 16

/-- `sizeof(struct nvram_item)`. -/
def itemHeaderSize : Nat := 8

def nvramSegItemStartOffset : Nat := 16

/-- The fixed fields of `struct region_info`, with what the board configuration
guarantees: segments are made of erase sectors, and there are at least two. The memory of
the callers is fixed here too; names are constants of the firmware image. -/
structure RegionInfo where
  totalSize : Nat
  segSize : Nat
  /-- Whether the region has a `seg_item_map`. -/
  hasItemMap : Bool
  /-- What stands in memory behind a name that is passed to a search. -/
  behind : List UInt8 → List UInt8
  /-- What the buffer given to `region_get` holds before the call. -/
  getBuf : List UInt8
  segSize_pos : 0 < segSize
  sector_dvd : nvramEraseAlignSize ∣ segSize
  seg_dvd : segSize ∣ totalSize
  two_segs : 2 * segSize ≤ totalSize

def userNvramRegion : RegionInfo :=
  ⟨0xc000, 0x2000, true, fun _ => [], [], by decide, by decide, by decide, by decide⟩

/-- `factory_nvram_region`, and `factory_rw_nvram_region` with the same sizes. -/
def factoryNvramRegion : RegionInfo :=
  ⟨0x2000, 0x1000, false, fun _ => [], [], by decide, by decide, by decide, by decide⟩

/-- The errors the store reports. -/
inductive Errno
  | einval | enoent | eacces
  deriving DecidableEq, Repr

/-! ## Checksums -/

def calcHash (key : List UInt8) : UInt8 :=
  key.foldl (· + ·) 0 ^^^ 0xa5

def crc8Table : List UInt8 :=
  [0x00, 0x5E, 0xBC, 0xE2, 0x61, 0x3F, 0xDD, 0x83,
   0xC2, 0x9C, 0x7E, 0x20, 0xA3, 0xFD, 0x1F, 0x41,
   0x00, 0x9D, 0x23, 0xBE, 0x46, 0xDB, 0x65, 0xF8,
   0x8C, 0x11, 0xAF, 0x32, 0xCA, 0x57, 0xE9, 0x74]

/-- The body of the loop of `calc_crc8`. -/
def crc8Byte (crc byte : UInt8) : UInt8 :=
  let crc := byte ^^^ crc
  crc8Table.getD (crc &&& 0x0f).toNat 0 ^^^ crc8Table.getD (16 + ((crc >>> 4) &&& 0x0f).toNat) 0

def calcCrc8 (bytes : List UInt8) (initialCrc : UInt8) : UInt8 :=
  bytes.foldl crc8Byte initialCrc

/-! ## Packed headers -/

/-- `struct region_seg_header` as it lies in memory. -/
structure SegHeader where
  bytes : List UInt8
  deriving DecidableEq, Repr

namespace SegHeader

variable (hdr : SegHeader)

def magic : List UInt8 := hdr.bytes.take 4
def state : UInt8 := hdr.bytes.getD 4 0
def crc : UInt8 := hdr.bytes.getD 5 0
def seqId : UInt8 := hdr.bytes.getD 8 0

end SegHeader

/-- `struct nvram_item` without the name and the data behind it. -/
structure ItemHeader where
  bytes : List UInt8
  deriving DecidableEq, Repr

namespace ItemHeader

variable (item : ItemHeader)

def magic : UInt8 := item.bytes.getD 0 0
def state : UInt8 := item.bytes.getD 1 0
def crc : UInt8 := item.bytes.getD 2 0
def hash : UInt8 := item.bytes.getD 3 0
def nameSize : Nat := (item.bytes.getD 5 0).toNat

/-- The little-endian `u16_t data_size`. -/
def dataSize : Nat :=
  (item.bytes.getD 6 0).toNat + 256 * (item.bytes.getD 7 0).toNat

end ItemHeader

def itemIsEmpty (item : ItemHeader) : Bool := item.bytes.all (· == 0xff)

def itemCalcRealSize (nameSize dataSize : Nat) : Nat := itemHeaderSize + nameSize + dataSize

/-- `item_calc_aligned_size`, with `ROUND_UP` to the item alignment. -/
def itemCalcAlignedSize (nameSize dataSize : Nat) : Nat :=
  (itemCalcRealSize nameSize dataSize + (nvramItemAlignSize - 1)) / nvramItemAlignSize *
    nvramItemAlignSize

def itemGetAlignedSize (item : ItemHeader) : Nat :=
  itemCalcAlignedSize item.nameSize item.dataSize

/-- `is_valid_region_seg_header` and `is_valid_merge_region_seg_header`, which
differ in the state they ask for. -/
def isSegHeaderInState (state : UInt8) (hdr : SegHeader) : Bool :=
  hdr.magic == nvramRegionSegMagic && hdr.state == state &&
    hdr.crc == calcCrc8 (hdr.bytes.drop nvramRegionSegHeaderCrcOffset) 0

def isValidRegionSegHeader (hdr : SegHeader) : Bool :=
  isSegHeaderInState nvramRegionSegStateValid hdr

def isValidMergeRegionSegHeader (hdr : SegHeader) : Bool :=
  isSegHeaderInState nvramRegionSegStateObsolete hdr

/-- The header `region_init_new_seg` builds; the CRC covers the bytes from the
version on. -/
def newSegHeader (r : RegionInfo) (seqId : UInt8) : List UInt8 :=
  let covered : List UInt8 :=
    [nvramRegionSegVersion, 0, seqId, UInt8.ofNat segHeaderSize,
     UInt8.ofNat (r.segSize % 0x10000 % 256), UInt8.ofNat (r.segSize % 0x10000 / 256), 0, 0, 0, 0]
  nvramRegionSegMagic ++ [nvramRegionSegStateValid, calcCrc8 covered 0] ++ covered

/-- A C string in memory. -/
def cstr (name : List UInt8) : List UInt8 := name ++ [0]

/-- The header `region_write_item` builds; the CRC covers the header from the hash
on, the name and the data. -/
def newItemHeader (name data : List UInt8) : List UInt8 :=
  let covered : List UInt8 :=
    [calcHash (cstr name), 0, UInt8.ofNat (cstr name).length,
     UInt8.ofNat (data.length % 256), UInt8.ofNat (data.length / 256)]
  let crc := calcCrc8 data (calcCrc8 (cstr name) (calcCrc8 covered 0))
  [nvramRegionItemMagic, nvramItemStateValid, crc] ++ covered

end SpeakerFirmware.Nvram
