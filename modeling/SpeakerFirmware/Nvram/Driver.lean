/-
# The operations of the NVRAM store

The functions of `nvram_config.c` from `region_read` to `region_scan`, as state
passing over `RegionState`. The loops of the source become recursions on a fuel argument
that bounds their iterations; every loop gets enough of it, since each iteration
of an item walk moves on by at least 16 bytes.
-/

import SpeakerFirmware.Nvram.ItemMap

namespace SpeakerFirmware.Nvram

open NorFlash

/-- The flash of a region, the operations issued on it, and the RAM of the driver. -/
structure RegionState where
  flash : Image
  /-- The flash operations issued since power-on, in order. -/
  ops : List Op
  /-- `nvram_buf`. -/
  buf : List UInt8
  segOffset : Nat
  segWriteOffset : Nat
  segSeqId : UInt8
  /-- `seg_item_map`, empty for a region without one. -/
  itemMap : List (BitVec 32)

/-- The RAM of a region after power-on. -/
def powerOn (r : RegionInfo) (flash : Image) : RegionState where
  flash := flash
  ops := []
  buf := List.replicate nvramBufferSize 0
  segOffset := 0
  segWriteOffset := 0
  segSeqId := 0
  itemMap := if r.hasItemMap then List.replicate (r.segSize / nvramItemAlignSize / 32) 0 else []

/-- Issue operations on the flash. -/
def RegionState.issue (s : RegionState) (ops : List Op) : RegionState :=
  { s with flash := applyAll ops s.flash, ops := s.ops ++ ops }

/-! ## Access to the flash -/

def nvramStorageWrite (addr : Nat) (bytes : List UInt8) : List Op :=
  programs addr (pieces nvramStorageWriteSegmentSize bytes.length bytes)

variable (r : RegionInfo) (s : RegionState)

def regionWrite (offset : Nat) (bytes : List UInt8) : RegionState :=
  if offset + bytes.length > r.totalSize then s else s.issue (nvramStorageWrite offset bytes)

/-- `region_read` into `nvram_buf`. -/
def regionReadBuf (offset len : Nat) : RegionState :=
  if offset + len > r.totalSize then s
  else { s with buf := read s.flash offset len ++ s.buf.drop len }

/-- `region_read` of an item header. Item offsets are multiples of 16 below the
end of a segment, so the bounds check passes. -/
def readItemHeader (s : RegionState) (offset : Nat) : ItemHeader :=
  ⟨read s.flash offset itemHeaderSize⟩

/-- `region_read` of a segment header. -/
def readSegHeader (flash : Image) (offset : Nat) : SegHeader :=
  ⟨read flash offset segHeaderSize⟩

/-- `region_is_empy`, which looks at whole words and reads through `nvram_buf`. -/
def regionIsEmpty : Nat → RegionState → Nat → Nat → RegionState × Bool
  | 0, s, _, _ => (s, true)
  | fuel + 1, s, offset, size =>
    if size = 0 then (s, true) else
    let readSize := min size nvramBufferSize
    let s := { s with buf := read s.flash offset readSize ++ s.buf.drop readSize }
    if (s.buf.take (readSize / 4 * 4)).all (· == 0xff) then
      regionIsEmpty fuel s (offset + readSize) (size - readSize)
    else (s, false)

/-- The loop of `region_erase`: sectors that are empty are skipped. -/
def eraseSectors : Nat → RegionState → Nat → RegionState
  | 0, s, _ => s
  | sectors + 1, s, offset =>
    let checked := regionIsEmpty nvramEraseAlignSize s offset nvramEraseAlignSize
    let s := if checked.2 then checked.1
      else checked.1.issue [.erase offset nvramEraseAlignSize]
    eraseSectors sectors s (offset + nvramEraseAlignSize)

def regionErase (offset size : Nat) : RegionState :=
  if offset + size > r.totalSize ∨ offset % nvramEraseAlignSize ≠ 0 ∨
      size % nvramEraseAlignSize ≠ 0 then s
  else eraseSectors (size / nvramEraseAlignSize) s offset

def regionCopy (r : RegionInfo) : Nat → RegionState → Nat → Nat → Nat → RegionState
  | 0, s, _, _, _ => s
  | fuel + 1, s, srcOffset, destOffset, len =>
    if len = 0 then s else
    let writeSize := min len nvramBufferSize
    if srcOffset + writeSize > r.totalSize then s else
    let s := regionReadBuf r s srcOffset writeSize
    if destOffset + writeSize > r.totalSize then s else
    regionCopy r fuel (regionWrite r s destOffset (s.buf.take writeSize))
      (srcOffset + writeSize) (destOffset + writeSize) (len - writeSize)

/-! ## Bitmap access -/

def itemBitmapFirstOffset : Nat :=
  if r.hasItemMap then
    findFirstBit s.itemMap (r.segSize / nvramItemAlignSize) * nvramItemAlignSize
  else nvramSegItemStartOffset

def itemBitmapNextOffset (offset : Nat) : Nat :=
  if r.hasItemMap then
    findNextBit s.itemMap (r.segSize / nvramItemAlignSize) (offset / nvramItemAlignSize) *
      nvramItemAlignSize
  else offset

/-- Mark or unmark an item; a region without a map has nothing to update. -/
def RegionState.mark (s : RegionState) (offset : Nat) (isSet : Bool) : RegionState :=
  { s with itemMap := itemBitmapUpdate s.itemMap offset isSet }

/-! ## Items -/

inductive ItemStatus
  | empty | valid | obsolete | invalid
  deriving DecidableEq, Repr

/-- `item_update_state`; the state is the second byte of an item. -/
def itemUpdateState (itemOffset : Nat) (state : UInt8) : RegionState :=
  regionWrite r s (itemOffset + 1) [state]

def itemCalcDataCrc (r : RegionInfo) : Nat → RegionState → Nat → Nat → UInt8 → RegionState × UInt8
  | 0, s, _, _, crc => (s, crc)
  | fuel + 1, s, offset, size, crc =>
    if size = 0 then (s, crc) else
    let readSize := min size nvramBufferSize
    let s := regionReadBuf r s offset readSize
    itemCalcDataCrc r fuel s (offset + readSize) (size - readSize)
      (calcCrc8 (s.buf.take readSize) crc)

/-- The CRC of an item whose name is in `nvram_buf`, as `item_check_validity` and
`region_get` compute it. -/
def itemCalcCrc (itemOffs : Nat) (item : ItemHeader) :
    RegionState × UInt8 :=
  let crc := calcCrc8 (item.bytes.drop nvramRegionItemCrcOffset) 0
  let crc := calcCrc8 (s.buf.take item.nameSize) crc
  itemCalcDataCrc r item.dataSize s (itemOffs + itemHeaderSize + item.nameSize) item.dataSize crc

/-- `item_check_validity`; an item with a wrong CRC is marked obsolete on the way. -/
def itemCheckValidity (itemOffs : Nat) (item : ItemHeader)
    (checkCrc : Bool) : RegionState × ItemStatus :=
  if item.magic ≠ nvramRegionItemMagic then
    (s, if itemIsEmpty item then .empty else .invalid)
  else if item.state ≠ nvramItemStateValid then
    (s, if item.state = nvramItemStateObsolete then .obsolete else .invalid)
  else
    let s := regionReadBuf r s (itemOffs + itemHeaderSize) item.nameSize
    if item.hash ≠ calcHash (s.buf.take item.nameSize) then (s, .invalid)
    else if checkCrc then
      let computed := itemCalcCrc r s itemOffs item
      if item.crc ≠ computed.2 then
        (itemUpdateState r computed.1 itemOffs nvramItemStateObsolete, .invalid)
      else (computed.1, .valid)
    else (s, .valid)

/-- The C string at the start of a piece of memory, with its zero byte. -/
def cstrAt (mem : List UInt8) : List UInt8 := cstr (mem.takeWhile (· != 0))

/-- The loop of `region_find_item`, for the memory from `name` on. The hash is that of the
C string, but `memcmp` compares `name_size` bytes, also those behind the string. -/
def findItemLoop (r : RegionInfo) (mem : List UInt8) :
    Nat → RegionState → Nat → RegionState × Option (Nat × ItemHeader)
  | 0, s, _ => (s, none)
  | fuel + 1, s, offs =>
    if offs < r.segSize then
      let itemOffs := s.segOffset + offs
      let item := readItemHeader s itemOffs
      if item.magic ≠ nvramRegionItemMagic then (s, none) else
      let next := offs + itemGetAlignedSize item
      if item.state = nvramItemStateValid ∧ item.hash = calcHash (cstrAt mem) then
        let s := regionReadBuf r s (itemOffs + itemHeaderSize) item.nameSize
        if s.buf.take item.nameSize = mem.take item.nameSize then
          (s, some (itemOffs, item))
        else findItemLoop r mem fuel s (itemBitmapNextOffset r s next)
      else findItemLoop r mem fuel s (itemBitmapNextOffset r s next)
    else (s, none)

/-- `region_find_item` for the memory from `name` on; `none` is `-ENOENT`. -/
def regionFindItemAt (mem : List UInt8) : RegionState × Option (Nat × ItemHeader) :=
  findItemLoop r mem r.segSize s (itemBitmapFirstOffset r s)

/-- The memory from an object on. -/
def RegionInfo.memory (r : RegionInfo) (bytes : List UInt8) : List UInt8 := bytes ++ r.behind bytes

/-- `region_find_item` for a name of a caller. -/
def regionFindItem (name : List UInt8) : RegionState × Option (Nat × ItemHeader) :=
  regionFindItemAt r s (r.memory (cstr name))

/-! ## Writing and copying items -/

/-- `region_seg_update_state`; the state is the fifth byte of a header. -/
def regionSegUpdateState (segOffset : Nat) (state : UInt8) :
    RegionState :=
  regionWrite r s (segOffset + 4) [state]

/-- The loop of `region_write_data`, over the pieces that fit `nvram_buf`. -/
def writeDataPieces (r : RegionInfo) : RegionState → Nat → List (List UInt8) → RegionState
  | s, _, [] => s
  | s, offset, piece :: rest =>
    let s := { s with buf := piece ++ s.buf.drop piece.length }
    writeDataPieces r (regionWrite r s offset (s.buf.take piece.length))
      (offset + piece.length) rest

def regionWriteData (offset : Nat) (data : List UInt8) :
    RegionState :=
  writeDataPieces r s offset (pieces nvramBufferSize data.length data)

/-- `region_write_item`: the header and the name are put together in `nvram_buf`. -/
def regionWriteItem (offset : Nat) (name data : List UInt8) :
    RegionState :=
  let head := newItemHeader name data ++ cstr name
  if head.length > nvramBufferSize then s else
  let s := { s with buf := head ++ s.buf.drop head.length }
  let s := regionWrite r s offset (s.buf.take head.length)
  regionWriteData r s (offset + head.length) data

/-- The loop of `region_copy_seg`; returns where the next item of the new segment
would go. -/
def copySegLoop (r : RegionInfo) (newSegOffset endOffset : Nat) (checkCrc : Bool) :
    Nat → RegionState → Nat → Nat → RegionState × Nat
  | 0, s, _, newItemOffs => (s, newItemOffs)
  | fuel + 1, s, itemOffs, newItemOffs =>
    if itemOffs < endOffset then
      let item := readItemHeader s itemOffs
      let checked := itemCheckValidity r s itemOffs item checkCrc
      let total := itemGetAlignedSize item
      match checked.2 with
      | .invalid => (checked.1, newItemOffs)
      | .empty => (checked.1, newItemOffs)
      | .obsolete =>
        copySegLoop r newSegOffset endOffset checkCrc fuel checked.1 (itemOffs + total)
          newItemOffs
      | .valid =>
        let size := itemCalcRealSize item.nameSize item.dataSize
        let s := regionCopy r size checked.1 itemOffs newItemOffs size
        let s := s.mark (newItemOffs - newSegOffset) true
        copySegLoop r newSegOffset endOffset checkCrc fuel s (itemOffs + total)
          (newItemOffs + total)
    else (s, newItemOffs)

def regionCopySeg (newSegOffset oldSegOffset copySize : Nat)
    (checkCrc : Bool) : RegionState :=
  let s := { s with itemMap := itemBitmapClearAll s.itemMap }
  let copied := copySegLoop r newSegOffset (oldSegOffset + copySize) checkCrc copySize s
    (oldSegOffset + nvramSegItemStartOffset) (newSegOffset + nvramSegItemStartOffset)
  { copied.1 with segWriteOffset := copied.2 }

def regionInitNewSeg (segOffset : Nat) : RegionState :=
  let seqId := s.segSeqId + 1
  let s := regionErase r s segOffset r.segSize
  let s := regionWrite r s segOffset (newSegHeader r seqId)
  { s with
    segSeqId := seqId, segOffset := segOffset
    segWriteOffset := segOffset + nvramSegItemStartOffset
    itemMap := itemBitmapClearAll s.itemMap }

/-- The segment behind the active one; the last is followed by the first. -/
def nextSegOffset : Nat :=
  if s.segOffset + r.segSize ≥ r.totalSize then 0 else s.segOffset + r.segSize

def regionPurgeSeg (checkCrc : Bool) : RegionState :=
  let newSegOffset := nextSegOffset r s
  let checked := regionIsEmpty r.segSize s newSegOffset r.segSize
  let s := if checked.2 then checked.1 else regionErase r checked.1 newSegOffset r.segSize
  let oldSegOffset := s.segOffset
  let copySize := s.segWriteOffset - s.segOffset
  let s := regionInitNewSeg r s newSegOffset
  let s := regionCopySeg r s newSegOffset oldSegOffset copySize checkCrc
  regionSegUpdateState r s oldSegOffset nvramRegionSegStateObsolete

def regionPrepareWriteItem (itemSize : Nat) : RegionState :=
  if s.segWriteOffset + itemSize > s.segOffset + r.segSize then regionPurgeSeg r s false else s

/-! ## The interface -/

/-- The loop of `region_is_same_config_data`, over the pieces of the new data. -/
def sameDataPieces (r : RegionInfo) : RegionState → Nat → List (List UInt8) → RegionState × Bool
  | s, _, [] => (s, true)
  | s, offset, piece :: rest =>
    let s := regionReadBuf r s offset piece.length
    if s.buf.take piece.length = piece then sameDataPieces r s (offset + piece.length) rest
    else (s, false)

def regionIsSameConfigData (name data : List UInt8) :
    RegionState × Bool :=
  let found := regionFindItem r s name
  match found.2 with
  | none => (found.1, false)
  | some (offs, item) =>
    if data.length = item.dataSize then
      sameDataPieces r found.1 (offs + itemHeaderSize + item.nameSize)
        (pieces nvramBufferSize data.length data)
    else (found.1, false)

/-- The end of `region_set`: the old item, if there was one, is marked obsolete. -/
def obsoleteOld (old : Option (Nat × ItemHeader)) :
    RegionState :=
  match old with
  | none => s
  | some (offs, _) =>
    (itemUpdateState r s offs nvramItemStateObsolete).mark (offs - s.segOffset) false

/-- `region_set`; `none` is the return value 0. Names are C strings, so they hold
no zero byte. -/
def regionSet (name data : List UInt8) :
    RegionState × Option Errno :=
  if data.length > nvramMaxDataSize then (s, some .einval)
  else if (cstr name).length > nvramMaxNameSize then (s, some .einval)
  else if data.length > 0 then
    let same := regionIsSameConfigData r s name data
    if same.2 then (same.1, none) else
    let newItemSize := itemCalcAlignedSize (cstr name).length data.length
    let s := regionPrepareWriteItem r same.1 newItemSize
    let old := regionFindItem r s name
    let s := regionWriteItem r old.1 old.1.segWriteOffset name data
    let s := s.mark (s.segWriteOffset - s.segOffset) true
    let s := { s with segWriteOffset := s.segWriteOffset + newItemSize }
    (obsoleteOld r s old.2, none)
  else
    let old := regionFindItem r s name
    (obsoleteOld r old.1 old.2, none)

/-- `region_read` into the buffer given to `region_get`, which is left as it was when the
range is not in the region. -/
def regionReadData (offset len : Nat) : List UInt8 :=
  if offset + len > r.totalSize then r.getBuf.take len else read s.flash offset len

/-- `region_get`; the name that `region_find_item` left in `nvram_buf` goes into the
CRC. -/
def regionGet (name : List UInt8) (maxLen : Nat) :
    RegionState × Except Errno (List UInt8) :=
  if maxLen = 0 then (s, .error .einval) else
  let found := regionFindItem r s name
  match found.2 with
  | none => (found.1, .error .enoent)
  | some (offs, item) =>
    let computed := itemCalcCrc r found.1 offs item
    if item.crc ≠ computed.2 then (computed.1, .error .eacces)
    else
      let len := if maxLen < item.dataSize then maxLen else item.dataSize
      (computed.1, .ok (regionReadData r computed.1 (offs + itemHeaderSize + item.nameSize) len))

/-! ## Scanning after power-on -/

/-- The zeroed array `item_name` of `region_seg_scan` after `bytes` were read into it. -/
def nameArray (bytes : List UInt8) : List UInt8 :=
  bytes ++ List.replicate (nvramMaxNameSize - bytes.length) 0

/-- `item_get_item_name` into that array. The checks of magic and state that it repeats
have passed before. -/
def itemGetItemName (itemOffs : Nat) (item : ItemHeader) :
    Option (List UInt8) :=
  if nvramMaxNameSize < item.nameSize then none
  else if itemOffs + itemHeaderSize + item.nameSize > r.totalSize then some (nameArray [])
  else some (nameArray (read s.flash (itemOffs + itemHeaderSize) item.nameSize))

/-- The loop of `region_seg_scan`; returns the offset where it stops. -/
def segScanLoop (r : RegionInfo) : Nat → RegionState → Nat → RegionState × Nat
  | 0, s, offs => (s, offs)
  | fuel + 1, s, offs =>
    if offs < r.segSize then
      let itemOffs := s.segOffset + offs
      let item := readItemHeader s itemOffs
      let checked := itemCheckValidity r s itemOffs item true
      let next := offs + itemGetAlignedSize item
      match checked.2 with
      | .empty => (checked.1, offs)
      | .obsolete => segScanLoop r fuel checked.1 next
      | .invalid => segScanLoop r fuel checked.1 next
      | .valid =>
        let s := match itemGetItemName r checked.1 itemOffs item with
          | none => checked.1
          | some itemName =>
            let found := regionFindItemAt r checked.1 (r.memory itemName)
            match found.2 with
            | some (oldOffs, _) =>
              if oldOffs ≠ itemOffs then
                (itemUpdateState r found.1 oldOffs nvramItemStateObsolete).mark
                  (oldOffs - found.1.segOffset) false
              else found.1
            | none => found.1
        segScanLoop r fuel (s.mark offs true) next
    else (s, offs)

def regionSegScan (forceMerge : Bool) : RegionState :=
  let s := { s with itemMap := itemBitmapClearAll s.itemMap }
  let scanned := segScanLoop r r.segSize s nvramSegItemStartOffset
  let itemOffs := scanned.1.segOffset + scanned.2
  let s := { scanned.1 with segWriteOffset := itemOffs }
  if scanned.2 ≥ r.segSize then regionPurgeSeg r s true
  else
    let rest := regionIsEmpty r.segSize s itemOffs (r.segSize - scanned.2)
    if forceMerge || !rest.2 then regionPurgeSeg r rest.1 true else rest.1

/-- The offsets of the segments, in the order of the loops of `region_scan`. -/
def segOffsets (r : RegionInfo) : List Nat :=
  (List.range (r.totalSize / r.segSize)).map (· * r.segSize)

/-- `(s8_t)(first - second) > 0`. -/
def isLaterSeqId (first second : UInt8) : Bool :=
  decide (0 < (first - second).toNat ∧ (first - second).toNat < 128)

/-- The header search of `region_scan`: the latest header in a state, with its
sequence number. -/
def latestSeg (flash : Image) (isCandidate : SegHeader → Bool) (offsets : List Nat) :
    Option (UInt8 × Nat) :=
  offsets.foldl (fun found offs =>
    let hdr := readSegHeader flash offs
    if isCandidate hdr && (match found with
        | none => true
        | some (seqId, _) => isLaterSeqId hdr.seqId seqId) then some (hdr.seqId, offs)
    else found) none

/-- The second loop of `region_scan`: the last valid segment that is one step older
than the active one. -/
def previousSeg (flash : Image) (seqId : UInt8) (offsets : List Nat) : Option Nat :=
  offsets.foldl (fun found offs =>
    let hdr := readSegHeader flash offs
    if isValidRegionSegHeader hdr && seqId - hdr.seqId == 1 then some offs else found) none

/-- The merge of `region_scan`: the active segment is built again from the previous
one. -/
def mergeSeg (lastRegionOff : Nat) : RegionState :=
  let s := regionInitNewSeg r s s.segOffset
  let s := regionCopySeg r s s.segOffset lastRegionOff r.segSize true
  regionSegUpdateState r s lastRegionOff nvramRegionSegStateObsolete

def regionScan : RegionState :=
  match latestSeg s.flash isValidRegionSegHeader (segOffsets r) with
  | some (seqId, offs) =>
    let s := { s with segSeqId := seqId, segOffset := offs }
    let s := match previousSeg s.flash seqId (segOffsets r) with
      | some lastRegionOff => mergeSeg r s lastRegionOff
      | none => s
    regionSegScan r s false
  | none =>
    match latestSeg s.flash isValidMergeRegionSegHeader (segOffsets r) with
    | some (seqId, offs) =>
      regionSegScan r { s with segSeqId := seqId, segOffset := offs } true
    | none => regionInitNewSeg r s 0

end SpeakerFirmware.Nvram
