/-
# The header of an OTA image

An image starts with a header of 1024 bytes: sizes, checksums and a directory of 16 entries.
`ota_image_check` accepts a header that the host sends, `ota_storage_image_check` one that is in
flash. Both compare the header with a CRC that stands in it, and neither looks at the number of
entries, at the start of the data or at the entries themselves, which the lookups then use.

The lookups run over `file_cnt` entries. What lies in memory behind the directory is not part of
the header, so the entries are a function on all indices, and a lookup reports which indices it
has read.
-/

import SpeakerFirmware.Lib.CString
import SpeakerFirmware.Ota.Bt.Model

namespace SpeakerFirmware.Ota.Image

open CString
open Bt (le16 le32 utilsCrc32)
open List

/-! ## Header and directory -/

def otaFwHdrMagic : UInt32 := 0x41544f41

/-- `sizeof(struct ota_fw_head)`. -/
def fwHeadSize : Nat := 1024

def otaImageMaxLength : UInt32 := 0x1000000

/-- The number of entries of `struct ota_fw_dir`. -/
def dirEntryCnt : Nat := 16

/-- The fields of `struct ota_fw_hdr` that are read. -/
structure FwHdr where
  magic : UInt32
  headerChecksum : UInt32
  headerSize : UInt16
  fileCnt : UInt16
  dataOffset : UInt16
  dataSize : UInt32
  dataChecksum : UInt32
  deriving DecidableEq, Repr

def FwHdr.ofBytes (bytes : List UInt8) : FwHdr where
  magic := le32 bytes
  headerChecksum := le32 (bytes.drop 4)
  headerSize := le16 (bytes.drop 10)
  fileCnt := le16 (bytes.drop 12)
  dataOffset := le16 (bytes.drop 18)
  dataSize := le32 (bytes.drop 20)
  dataChecksum := le32 (bytes.drop 24)

/-- `struct ota_dir_entry`. -/
structure DirEntry where
  filename : List UInt8
  offset : UInt32
  length : UInt32
  checksum : UInt32
  deriving DecidableEq, Repr

def DirEntry.ofBytes (bytes : List UInt8) : DirEntry where
  filename := bytes.take 12
  offset := le32 (bytes.drop 16)
  length := le32 (bytes.drop 20)
  checksum := le32 (bytes.drop 28)

/-- `struct ota_fw_head`, as its bytes. -/
@[ext]
structure FwHead where
  bytes : List UInt8
  length_bytes : bytes.length = fwHeadSize

namespace FwHead

def hdr (head : FwHead) : FwHdr := .ofBytes head.bytes

/-- `dir.entrys[i]`. -/
def entry (head : FwHead) (i : Nat) : DirEntry := .ofBytes (head.bytes.drop (0x200 + 32 * i))

/-- The same with what lies behind the header. -/
def entrys (head : FwHead) (behind : Nat → DirEntry) (i : Nat) : DirEntry :=
  if i < dirEntryCnt then head.entry i else behind i

end FwHead

/-! ## Lookups -/

/-- The entries that a lookup has read, and the one it returns. -/
structure Lookup where
  reads : List Nat
  found : Option Nat
  deriving DecidableEq, Repr

/-- The loop of the lookups, with `n` entries to go. -/
def findLoop (entrys : Nat → DirEntry) (filename : List UInt8) : Nat → Nat → Lookup
  | 0, _ => ⟨[], none⟩
  | n + 1, i =>
    if strncmp (entrys i).filename filename 12 = 0 then ⟨[i], some i⟩
    else
      let rest := findLoop entrys filename n (i + 1)
      ⟨i :: rest.reads, rest.found⟩

def otaFwHeadFindFile (head : FwHead) (behind : Nat → DirEntry) (filename : List UInt8) : Lookup :=
  findLoop (head.entrys behind) filename head.hdr.fileCnt.toNat 0

/-- `struct ota_image`. -/
structure OtaImage where
  /-- `backend` is not `NULL`. -/
  hasBackend : Bool
  hdr : FwHdr
  entrys : Nat → DirEntry
  curDir : Option DirEntry

/-- `ota_image_find_file`. The entry in `cur_dir` is not returned when it is the one; nothing sets
`cur_dir`. -/
def otaImageFindFile (img : OtaImage) (filename : List UInt8) : Lookup :=
  if img.curDir.any fun dir => strncmp dir.filename filename 12 = 0 then ⟨[], none⟩
  else findLoop img.entrys filename img.hdr.fileCnt.toNat 0

/-- A value as `int`. -/
def toInt (x : UInt32) : Int := x.toBitVec.toInt

/-- `ota_image_get_file_length`, of a file. -/
def otaImageGetFileLength (img : OtaImage) (filename : List UInt8) : Int :=
  match (otaImageFindFile img filename).found with
  | none => -1
  | some i => toInt (img.entrys i).length

/-- `ota_image_get_file_offset`, of a file. -/
def otaImageGetFileOffset (img : OtaImage) (filename : List UInt8) : Int :=
  match (otaImageFindFile img filename).found with
  | none => -1
  | some i => toInt (img.entrys i).offset

/-! ## Checks -/

/-- `ota_image_check_head_crc`: the checksum covers the header behind the magic and itself. -/
def otaImageCheckHeadCrc (head : FwHead) : Int :=
  let crc := utilsCrc32 0 (head.bytes.drop 8)
  if crc = 0xffffffff ∨ crc ≠ head.hdr.headerChecksum then -1 else 0

def otaImageCheck (img : Option OtaImage) (head : FwHead) : Int :=
  if !img.any OtaImage.hasBackend then -22
  else if head.hdr.magic ≠ otaFwHdrMagic then -1
  else if head.hdr.headerSize.toNat ≠ fwHeadSize then -1
  else if head.hdr.dataSize > otaImageMaxLength then -1
  else if otaImageCheckHeadCrc head ≠ 0 then -1
  else 0

/-- What `ota_image_open` does with an accepted header. -/
def OtaImage.load (img : OtaImage) (head : FwHead) : OtaImage :=
  { img with hdr := head.hdr, entrys := head.entrys img.entrys }

variable (flash : Nat → UInt8)

/-- `ota_storage_read`, from a flash by address. -/
def otaStorageRead (addr : UInt32) (size : Nat) : List UInt8 :=
  (List.range size).map fun i => flash (addr + UInt32.ofNat i).toNat

/-- The header at an address. -/
def headAt (addr : UInt32) : FwHead :=
  ⟨otaStorageRead flash addr fwHeadSize, by rw [otaStorageRead, length_map, length_range]⟩

/-- The loop of `ota_storage_calc_crc`. -/
def calcCrcLoop (flash : Nat → UInt8) : Nat → UInt32 → UInt32 → UInt32 → UInt32 → Option UInt32
  | 0, _, size, _, crc => if size > 0 then none else some crc
  | fuel + 1, addr, size, rlen, crc =>
    if size > 0 then
      let rlen := if size < rlen then size else rlen
      calcCrcLoop flash fuel (addr + rlen) (size - rlen) rlen
        (utilsCrc32 crc (otaStorageRead flash addr rlen.toNat))
    else some crc

/-- `ota_storage_calc_crc`: there are no more turns than bytes, unless the buffer has no byte. -/
def otaStorageCalcCrc (addr size bufSize : UInt32) : Option UInt32 :=
  calcCrcLoop flash size.toNat addr size bufSize 0

def otaStorageCheckImageDataCrc (head : FwHead) (fileOffset bufSize : UInt32) : Option Int :=
  (otaStorageCalcCrc flash (fileOffset + head.hdr.dataOffset.toUInt32)
    (head.hdr.dataSize - head.hdr.dataOffset.toUInt32) bufSize).map fun crc =>
      if crc = 0 ∨ crc ≠ head.hdr.dataChecksum then -1 else 0

/-- `ota_storage_image_check`. The magic is set, not compared, and nothing behind that reads it. -/
def otaStorageImageCheck (fileOffset bufSize : UInt32) : Option Int :=
  let head := headAt flash fileOffset
  if head.hdr.headerSize.toNat ≠ fwHeadSize then some (-1)
  else if head.hdr.dataSize > otaImageMaxLength then some (-1)
  else if otaImageCheckHeadCrc head ≠ 0 then some (-1)
  else (otaStorageCheckImageDataCrc flash head fileOffset bufSize).map fun err =>
    if err ≠ 0 then -1 else 0

/-- The headers that one of the checks accepts. -/
inductive Accepted (head : FwHead) : Prop
  | image (img : Option OtaImage) (h : otaImageCheck img head = 0)
  | storage (flash : Nat → UInt8) (fileOffset bufSize : UInt32)
      (hhead : headAt flash fileOffset = head)
      (h : otaStorageImageCheck flash fileOffset bufSize = some 0)

/-- Both bound the size of the image. -/
theorem Accepted.dataSize_le {head : FwHead} (h : Accepted head) :
    head.hdr.dataSize ≤ otaImageMaxLength := by
  apply UInt32.not_lt.mp
  intro hlarge
  cases h with
  | image img h =>
    rw [otaImageCheck] at h
    grind
  | storage flash fileOffset bufSize hhead h =>
    subst hhead
    rw [otaStorageImageCheck] at h
    grind

/-! ## What a lookup reads and finds -/

section

variable {entrys : Nat → DirEntry} {filename : List UInt8}

/-- An entry has the name. -/
def DirEntry.Named (dir : DirEntry) (filename : List UInt8) : Prop :=
  (text dir.filename).take 12 = (text filename).take 12

instance (dir : DirEntry) : DecidablePred dir.Named := fun _ => inferInstanceAs (Decidable (_ = _))

/-- Only the entries that are left are read. -/
theorem findLoop_reads {n i j : Nat} (h : j ∈ (findLoop entrys filename n i).reads) :
    j < i + n := by
  induction n generalizing i with
  | zero => cases h
  | succ n ih =>
    rw [findLoop] at h
    split at h
    · rw [mem_singleton.mp h]
      omega
    · rcases mem_cons.mp h with rfl | hrest
      · omega
      · have hlt := ih hrest
        omega

/-- The first entry with the name is found. -/
theorem findLoop_found_iff {n i j : Nat} :
    (findLoop entrys filename n i).found = some j ↔
      i ≤ j ∧ j < i + n ∧ (entrys j).Named filename ∧ ∀ l, i ≤ l → l < j →
        ¬ (entrys l).Named filename := by
  induction n generalizing i with
  | zero => exact iff_of_false nofun fun h => by omega
  | succ n ih =>
    rw [findLoop]
    by_cases hnamed : (entrys i).Named filename
    · rw [if_pos (strncmp_eq_zero_iff.mpr hnamed), Option.some_inj]
      constructor
      · rintro rfl
        exact ⟨le_rfl, by omega, hnamed, fun l hlo hhi => by omega⟩
      · rintro ⟨hle, -, -, hfirst⟩
        by_contra hne
        exact hfirst i le_rfl (by omega) hnamed
    · rw [if_neg (fun h => hnamed (strncmp_eq_zero_iff.mp h))]
      change (findLoop entrys filename n (i + 1)).found = some j ↔ _
      rw [ih]
      constructor
      · rintro ⟨hle, hlt, hj, hfirst⟩
        refine ⟨by omega, by omega, hj, fun l hlo hhi => ?_⟩
        rcases Nat.eq_or_lt_of_le hlo with rfl | hlo
        · exact hnamed
        · exact hfirst l hlo hhi
      · rintro ⟨hle, hlt, hj, hfirst⟩
        have hne : i ≠ j := by
          rintro rfl
          exact hnamed hj
        exact ⟨by omega, by omega, hj, fun l hlo hhi => hfirst l (by omega) hhi⟩

end

/-! ## Headers that are safe to use -/

/-- A lookup stays in the directory, and the file it finds in the image. -/
structure Lookup.Within (l : Lookup) (head : FwHead) : Prop where
  reads : ∀ i ∈ l.reads, i < dirEntryCnt
  index : ∀ i, l.found = some i → i < dirEntryCnt
  file : ∀ i, l.found = some i →
    (head.entry i).offset.toNat + (head.entry i).length.toNat ≤ head.hdr.dataSize.toNat

/-- The header is safe to use: whatever file is looked for, in the header or in the image it was
loaded to, the lookup stays in the directory and what it returns in the image. -/
structure Safe (head : FwHead) : Prop where
  fileCnt_le : head.hdr.fileCnt.toNat ≤ dirEntryCnt
  dataOffset_le : head.hdr.dataOffset.toNat ≤ head.hdr.dataSize.toNat
  headLookup : ∀ behind filename, (otaFwHeadFindFile head behind filename).Within head
  imageLookup : ∀ (img : OtaImage) filename, (otaImageFindFile (img.load head) filename).Within head
  range : ∀ (img : OtaImage) filename, (otaImageFindFile (img.load head) filename).found.isSome →
    0 ≤ otaImageGetFileOffset (img.load head) filename ∧
      0 ≤ otaImageGetFileLength (img.load head) filename ∧
      otaImageGetFileOffset (img.load head) filename + otaImageGetFileLength
        (img.load head) filename ≤
        head.hdr.dataSize.toNat

/-- The directory has no more entries than room, the data does not start behind its end, and each
entry that is the first of its name lies in the image. -/
structure WellFormed (head : FwHead) : Prop where
  fileCnt_le : head.hdr.fileCnt.toNat ≤ dirEntryCnt
  dataOffset_le : head.hdr.dataOffset.toNat ≤ head.hdr.dataSize.toNat
  entry : ∀ i < head.hdr.fileCnt.toNat, (∀ j < i, ¬ (head.entry j).Named (head.entry i).filename) →
    (head.entry i).offset.toNat + (head.entry i).length.toNat ≤ head.hdr.dataSize.toNat

section

variable {head : FwHead}

theorem entrys_of_lt (behind : Nat → DirEntry) {i : Nat} (h : i < dirEntryCnt) :
    head.entrys behind i = head.entry i :=
  if_pos h

/-- Every lookup over a well-formed directory. -/
theorem WellFormed.within (h : WellFormed head) (behind : Nat → DirEntry) (filename : List UInt8) :
    (findLoop (head.entrys behind) filename head.hdr.fileCnt.toNat 0).Within head := by
  have hcnt := h.fileCnt_le
  have hindex : ∀ i, (findLoop (head.entrys behind) filename head.hdr.fileCnt.toNat 0).found =
      some i →
      i < head.hdr.fileCnt.toNat := fun i hfound => by
    obtain ⟨-, hlt, -⟩ := findLoop_found_iff.mp hfound
    omega
  refine ⟨fun i hi => ?_, fun i hfound => (hindex i hfound).trans_le hcnt, fun i hfound => ?_⟩
  · have hlt := findLoop_reads hi
    omega
  · have hlt := hindex i hfound
    obtain ⟨-, -, hnamed, hfirst⟩ := findLoop_found_iff.mp hfound
    refine h.entry i hlt fun j hj hsame => hfirst j (Nat.zero_le j) hj ?_
    rw [entrys_of_lt behind (by omega)] at hnamed ⊢
    exact hsame.trans hnamed

theorem toInt_eq {x : UInt32} (h : x.toNat ≤ otaImageMaxLength.toNat) : toInt x = x.toNat := by
  have hmax : otaImageMaxLength.toNat = 0x1000000 := rfl
  rw [toInt, BitVec.toInt_eq_toNat_of_lt]
  · rfl
  · change 2 * x.toNat < _
    omega

/-- A header that was accepted is safe to use if and only if it is well formed: the checks look at
none of this. -/
theorem accepted_safe_iff (h : Accepted head) : Safe head ↔ WellFormed head := by
  constructor
  · intro hsafe
    refine ⟨hsafe.fileCnt_le, hsafe.dataOffset_le, fun i hi hfirst => ?_⟩
    -- a lookup of its name finds it
    have hentrys : ∀ j ≤ i, head.entrys (fun _ => head.entry 0) j = head.entry j := fun j hj =>
      entrys_of_lt _ (by have := hsafe.fileCnt_le; omega)
    refine (hsafe.headLookup (fun _ => head.entry 0) (head.entry i).filename).file i
      (findLoop_found_iff.mpr
      ⟨Nat.zero_le i, by omega, ?_, fun l _ hl => ?_⟩)
    · rw [hentrys i le_rfl]
      rfl
    · rw [hentrys l hl.le]
      exact hfirst l hl
  · intro hwf
    have himage : ∀ (img : OtaImage) filename,
        (otaImageFindFile (img.load head) filename).Within head := by
      intro img filename
      rw [otaImageFindFile]
      split
      · exact ⟨nofun, nofun, nofun⟩
      · exact hwf.within img.entrys filename
    refine ⟨hwf.fileCnt_le, hwf.dataOffset_le, hwf.within, himage, fun img filename hfound => ?_⟩
    obtain ⟨i, hi⟩ := Option.isSome_iff_exists.mp hfound
    have hfile := (himage img filename).file i hi
    have hsize : head.hdr.dataSize.toNat ≤ otaImageMaxLength.toNat := h.dataSize_le
    have hentry : (img.load head).entrys i = head.entry i :=
      entrys_of_lt _ ((himage img filename).index i hi)
    rw [otaImageGetFileOffset, otaImageGetFileLength, hi]
    dsimp only
    rw [hentry, toInt_eq (by omega), toInt_eq (by omega)]
    omega

end

/-! ## Two headers -/

/-- An image of 1025 bytes, the last one its data, with a number of entries and the first of
them. -/
def oneByteImage (headerChecksum : List UInt8) (fileCnt : UInt8) (entry : List UInt8) :
    List UInt8 :=
  [0x41, 0x4f, 0x54, 0x41] ++ headerChecksum ++
    [0, 0, 0x00, 0x04, fileCnt, 0, 0, 0, 0, 0, 0x00, 0x04, 0x01, 0x04, 0, 0, 0x1b, 0xdf, 0x05,
      0xa5] ++
    List.replicate 484 0 ++ entry ++ List.replicate (512 - entry.length) 0

theorem length_oneByteImage {headerChecksum entry : List UInt8} (fileCnt : UInt8)
    (hchecksum : headerChecksum.length = 4) (hentry : entry.length ≤ 512) :
    (oneByteImage headerChecksum fileCnt entry).length = fwHeadSize := by
  simp only [oneByteImage, length_append, length_replicate, length_cons, length_nil, hchecksum,
    fwHeadSize]
  omega

/-- A header with seventeen entries and the right checksum. -/
def seventeenEntries : FwHead :=
  ⟨oneByteImage [0x2f, 0x13, 0x15, 0x9b] 17 [], length_oneByteImage 17 rfl (by decide)⟩

/-- An image before its header is read. -/
def boundImage : OtaImage := ⟨true, .ofBytes [], fun _ => .ofBytes [], none⟩

/-- A flash that starts with a header, with ones behind it. -/
def flashWith (head : FwHead) (a : Nat) : UInt8 := if a < fwHeadSize then head.bytes.getD a 0 else 1

theorem headAt_flashWith (head : FwHead) : headAt (flashWith head) 0 = head := by
  apply FwHead.ext
  apply ext_getElem
  · rw [(headAt _ _).length_bytes, head.length_bytes]
  · intro i hi hi'
    have hlt : i < fwHeadSize := head.length_bytes ▸ hi'
    have haddr : (0 + UInt32.ofNat i : UInt32).toNat = i := by
      rw [UInt32.zero_add, UInt32.toNat_ofNat_of_lt' (hlt.trans (by decide))]
    simp only [headAt, otaStorageRead, getElem_map, getElem_range, haddr, flashWith, if_pos hlt]
    rw [getD_eq_getElem?_getD, getElem?_eq_getElem hi', Option.getD_some]

/-- Both checks accept the header with seventeen entries, and a lookup reads the entry behind the
directory. -/
theorem seventeen_entries_accepted :
    otaImageCheck (some boundImage) seventeenEntries = 0 ∧
      otaStorageImageCheck (flashWith seventeenEntries) 0 1 = some 0 ∧
      16 ∈ (otaFwHeadFindFile seventeenEntries (fun _ => .ofBytes []) [0x78]).reads ∧
      ¬ Safe seventeenEntries := by
  have hreads : 16 ∈ (otaFwHeadFindFile seventeenEntries (fun _ => .ofBytes []) [0x78]).reads :=
    by decide +kernel
  have hcrc : otaImageCheckHeadCrc seventeenEntries = 0 := by decide +kernel
  refine ⟨?_, ?_, hreads, fun hsafe => ?_⟩
  · rw [otaImageCheck, hcrc]
    decide +kernel
  · rw [otaStorageImageCheck, headAt_flashWith, hcrc]
    decide +kernel
  · exact absurd ((hsafe.headLookup _ _).reads 16 hreads) (by decide)

/-- A directory entry for `ota.xml`, the one byte of the image's data. -/
def otaXmlEntry : List UInt8 :=
  [0x6f, 0x74, 0x61, 0x2e, 0x78, 0x6d, 0x6c, 0, 0, 0, 0, 0] ++ [0, 0, 0, 0] ++ [0x00, 0x04, 0, 0] ++
    [1, 0, 0, 0] ++
    List.replicate 8 0

/-- A header with this entry only. -/
def oneEntry : FwHead :=
  ⟨oneByteImage [0x68, 0x72, 0x4e, 0x79] 1 otaXmlEntry, length_oneByteImage 1 rfl (by decide)⟩

theorem one_entry_safe : Safe oneEntry := by
  refine (accepted_safe_iff (.image (some boundImage) (by decide +kernel))).mpr
    ⟨by decide +kernel, by decide +kernel, ?_⟩
  intro i hi _
  have hcnt : oneEntry.hdr.fileCnt.toNat = 1 := by decide +kernel
  have hzero : i = 0 := by omega
  subst hzero
  decide +kernel

end SpeakerFirmware.Ota.Image
