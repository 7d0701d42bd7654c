/-
# Reading the manifest of an image

`ota_manifest_parse_file` looks the manifest up in the directory of the image, reads it, compares
its checksum, parses it and compares the sizes of the files it lists with the directory.
`ota_upgrade_check` goes on with the upgrade if the result is 0.

A file that is not in the directory has the length -1 and the offset -1. The length passes the
test for too long a file, and the offset leads to the exit with an error code that is still 0.
-/

import SpeakerFirmware.Ota.Image.Header
import SpeakerFirmware.Ota.Manifest.Model
import SpeakerFirmware.Ota.Upgrade.TempImage

namespace SpeakerFirmware.Ota.Manifest

open Image
open Bt (utilsCrc32)
open Int

variable {manifest : OtaManifest}

/-! ## The functions -/

/-- What a read of the backend does: it fails, or it delivers as many bytes as were asked for. A
negative number of bytes is a huge one for the copy, which then overruns the buffer. -/
inductive ReadResult (size : Int)
  | failed (err : Int) (h : err ≠ 0)
  | done (bytes : List UInt8) (h : bytes.length = size)
  | overrun (h : size < 0)

/-- An image that was opened, its backend, and whether reads are cancelled. -/
structure Source where
  img : OtaImage
  read : (offset size : Int) → ReadResult size
  cancelReadFlag : Bool

def otaImageRead (src : Source) (offset size : Int) : ReadResult size :=
  if src.cancelReadFlag then .failed Errno.eio (by decide) else src.read offset size

def otaImageCheckFile (img : OtaImage) (filename buf : List UInt8) : Int :=
  match (otaImageFindFile img filename).found with
  | none => -1
  | some i => if utilsCrc32 0 buf ≠ (img.entrys i).checksum then -1 else 0

/-- `OTA_MANIFSET_FILE_MAX_SIZE`. -/
def otaManifestFileMaxSize : Int := 1536 - 1

/-- `ota_manifest_check_data`. The five bytes are compared in the buffer, however long the file
is. -/
def otaManifestCheckData (img : OtaImage) (fileName xml : List UInt8) (size : Nat) : Int :=
  if ¬ (ascii "<?xml").isPrefixOf xml then -1 else otaImageCheckFile img fileName (xml.take size)

/-- `ota_manifest_check_file_size`. The length, an `int`, is compared with an unsigned size. -/
def otaManifestCheckFileSize (manifest : OtaManifest) (img : OtaImage) : Int :=
  if manifest.files.any fun file => UInt32.ofInt (otaImageGetFileLength img file.name) ≠ file.size
    then -22 else 0

/-- How a call ends. After an error the manifest is not used. -/
inductive Outcome
  | returned (err : Int) (manifest : OtaManifest)
  | overrun

/-- `ota_manifest_parse_file`, with what `ota_manifest_buffer` holds before. -/
def otaManifestParseFile (src : Source) (buffer fileName : List UInt8) : Outcome :=
  let fileSize := otaImageGetFileLength src.img fileName
  if fileSize > otaManifestFileMaxSize then .returned (-1) .zero
  else
    let imgFileOffset := otaImageGetFileOffset src.img fileName
    -- the exit with the error code that was set at the start
    if imgFileOffset < 0 then .returned 0 .zero
    else
      match otaImageRead src imgFileOffset fileSize with
      | .overrun _ => .overrun
      | .failed err _ => .returned err .zero
      | .done bytes _ =>
        let err := otaManifestCheckData src.img fileName
          (bytes ++ buffer.drop bytes.length) bytes.length
        if err ≠ 0 then .returned err .zero
        else
          match otaManifestParseData .zero bytes with
          | .error err => .returned err .zero
          | .ok manifest => .returned (otaManifestCheckFileSize manifest src.img) manifest

section

open Upgrade

variable (fw : Firmware) (ota : UpgradeInfo)

/-- `ota_upgrade_check` behind the call: `needUpgrade` is the result of `ota_is_need_upgrade`, and
`upgrade` what is done when the upgrade is wanted. -/
def otaUpgradeCheckFrom (needUpgrade : OtaManifest → Int)
    (upgrade : OtaManifest → Writing → Writing) (a : Attempt)
    (err : Int) (manifest : OtaManifest) : Writing :=
  if err ≠ 0 then (otaBreakpointExit fw a).writing
  else if needUpgrade manifest ≤ 0 then
    (otaBreakpointExit fw (otaBreakpointUpdateState fw a .writingImgFail)).writing
  else if needUpgrade manifest = 2 then
    upgrade manifest
      (otaPartitionUpdatePrepare fw ota false
      (otaBreakpointUpdateState fw a .writingImgFail)).writing
  else upgrade manifest a.writing

/-- Nothing but the record is written. -/
def RecordOnly (a : Attempt) (x : Writing) : Prop :=
  ∃ events, (∀ e ∈ events, ∃ bp, e = Event.cache bp ∨ e = .save bp) ∧
    x.changes = (a.events ++ events).map .event

theorem recordOnly_otaBreakpointExit (a : Attempt) :
    RecordOnly a (otaBreakpointExit fw a).writing := by
  unfold otaBreakpointExit otaBreakpointSave
  split
  · exact ⟨[], nofun, by rw [List.append_nil]; rfl⟩
  · refine ⟨[_], fun e he => ?_, rfl⟩
    rw [List.mem_singleton.mp he]
    split
    · exact ⟨_, .inr rfl⟩
    · exact ⟨_, .inl rfl⟩

end

/-! ## What is verified -/

/-- The manifest comes from the named file of the image, which was read and verified, and every file
it lists has the size that the directory gives. -/
structure Verified (src : Source) (fileName : List UInt8) (manifest : OtaManifest) (i : Nat)
    (bytes : List UInt8) :
    Prop where
  present : (otaImageFindFile src.img fileName).found = some i
  offset : 0 ≤ toInt (src.img.entrys i).offset
  read : ∃ h, otaImageRead src (toInt (src.img.entrys i).offset) (toInt (src.img.entrys i).length) =
    .done bytes h
  length : (src.img.entrys i).length.toNat = bytes.length ∧ bytes.length < 1536
  checksum : utilsCrc32 0 bytes = (src.img.entrys i).checksum
  parsed : otaManifestParseData .zero bytes = .ok manifest
  sizes : ∀ file ∈ manifest.files, ∃ j, (otaImageFindFile src.img file.name).found = some j ∧
    (src.img.entrys j).length = file.size

/-- A result of 0 means a verified manifest, everything else is an error, and then no partition is
written. -/
structure Guarded (src : Source) (buffer fileName : List UInt8) : Prop where
  returns : otaManifestParseFile src buffer fileName ≠ .overrun
  verified : ∀ manifest, otaManifestParseFile src buffer fileName = .returned 0 manifest →
    ∃ i bytes, Verified src fileName manifest i bytes
  stops : ∀ err manifest, otaManifestParseFile src buffer fileName = .returned err manifest →
    err ≠ 0 →
    ∀ fw ota needUpgrade upgrade a,
      RecordOnly a (otaUpgradeCheckFrom fw ota needUpgrade upgrade a err manifest)

/-- The manifest that is read, checked and parsed. -/
def Reads (src : Source) (buffer fileName : List UInt8) (manifest : OtaManifest) : Prop :=
  otaImageGetFileLength src.img fileName ≤ otaManifestFileMaxSize ∧ ∃ bytes h,
    otaImageRead src (otaImageGetFileOffset src.img fileName)
      (otaImageGetFileLength src.img fileName) = .done bytes h ∧
    otaManifestCheckData src.img fileName (bytes ++ buffer.drop bytes.length) bytes.length = 0 ∧
    otaManifestParseData .zero bytes = .ok manifest

/-- The directory has the manifest, at an offset that is not negative as an `int`, unless it is
refused as too long; its length is not negative either, unless the backend refuses the read; and the
manifest does not list a file of the size `2 ^ 32 - 1` that the directory lacks, unless the sizes of
other files are wrong. -/
structure Usable (src : Source) (buffer fileName : List UInt8) : Prop where
  present : (otaImageFindFile src.img fileName).found ≠ none
  offset : otaImageGetFileLength src.img fileName ≤ otaManifestFileMaxSize →
    0 ≤ otaImageGetFileOffset src.img fileName
  length : 0 ≤ otaImageGetFileLength src.img fileName ∨ ∃ err h,
    otaImageRead src (otaImageGetFileOffset src.img fileName)
      (otaImageGetFileLength src.img fileName) = .failed err h
  listed : ∀ manifest, Reads src buffer fileName manifest →
    (∃ file ∈ manifest.files, (otaImageFindFile src.img file.name).found = none ∧
      file.size = 0xffffffff) →
      otaManifestCheckFileSize manifest src.img ≠ 0

section

variable {src : Source} {buffer fileName : List UInt8}

/-- After an error nothing more happens. -/
theorem Guarded.of_error {err : Int} (herr : err ≠ 0)
    (h : otaManifestParseFile src buffer fileName = .returned err manifest) :
    Guarded src buffer fileName := by
  refine ⟨?_, fun manifest' h' => ?_, fun err' manifest' h' herr' fw ota needUpgrade upgrade a =>
    ?_⟩
  · rw [h]
    exact nofun
  · cases h.symm.trans h'
    exact absurd rfl herr
  · rw [otaUpgradeCheckFrom, if_pos herr']
    exact recordOnly_otaBreakpointExit fw a

theorem toInt_cond (x : UInt32) : toInt x = x.toNat ∨ toInt x = x.toNat - 2 ^ 32 := by
  have hcond : toInt x = if 2 * x.toNat < 2 ^ 32 then (x.toNat : Int)
      else x.toNat - (2 ^ 32 : Nat) :=
    BitVec.toInt_eq_toNat_cond x.toBitVec
  split at hcond
  · exact .inl hcond
  · exact .inr hcond

theorem toNat_of_toInt {x : UInt32} {n : Nat} (h : toInt x = n) : x.toNat = n := by
  have hlt := x.toNat_lt
  rcases toInt_cond x with hcond | hcond <;> omega

/-- A length as an `int` and back. -/
theorem ofInt_toInt (x : UInt32) : UInt32.ofInt (toInt x) = x := by
  have hlt := x.toNat_lt
  have hemod : toInt x % 2 ^ 32 = x.toNat := by
    rcases toInt_cond x with hcond | hcond <;> omega
  rw [UInt32.ofInt]
  apply UInt32.toNat_inj.mp
  rw [UInt32.toNat_ofNat', hemod]
  omega

/-- A listed file has the size the directory gives, or it is not there and has the size `2 ^ 32 -
1`. -/
theorem checkFileSize_eq_zero_iff {img : OtaImage} :
    otaManifestCheckFileSize manifest img = 0 ↔ ∀ file ∈ manifest.files,
      (∃ j, (otaImageFindFile img file.name).found = some j ∧ (img.entrys j).length = file.size) ∨
        (otaImageFindFile img file.name).found = none ∧ file.size = 0xffffffff := by
  have hsize : ∀ file : OtaFile, UInt32.ofInt (otaImageGetFileLength img file.name) = file.size ↔
      (∃ j, (otaImageFindFile img file.name).found = some j ∧ (img.entrys j).length = file.size) ∨
        (otaImageFindFile img file.name).found = none ∧ file.size = 0xffffffff := by
    intro file
    have hminus : UInt32.ofInt (-1) = 0xffffffff := by decide
    rw [otaImageGetFileLength]
    cases hfound : (otaImageFindFile img file.name).found with
    | none => simp [hminus, eq_comm]
    | some j => simp [ofInt_toInt]
  simp only [← hsize]
  rw [otaManifestCheckFileSize]
  split
  · rename_i hany
    obtain ⟨file, hmem, hne⟩ := List.any_eq_true.mp hany
    exact iff_of_false (by decide) fun hall => of_decide_eq_true hne (hall file hmem)
  · rename_i hany
    refine iff_of_true rfl fun file hmem => ?_
    by_contra hne
    exact hany (List.any_eq_true.mpr ⟨file, hmem, decide_eq_true hne⟩)

/-- The checks of the text. -/
theorem checkData_eq_zero {i : Nat} (hfound : (otaImageFindFile src.img fileName).found = some i)
    {bytes rest : List UInt8}
    (h : otaManifestCheckData src.img fileName (bytes ++ rest) bytes.length = 0) :
    utilsCrc32 0 bytes = (src.img.entrys i).checksum := by
  rw [otaManifestCheckData] at h
  split at h
  · cases h
  · rw [otaImageCheckFile, hfound, List.take_left] at h
    by_contra hne
    exact absurd ((if_pos hne).symm.trans h) (by decide)

theorem parseData_error {xml : List UInt8} {err : Int}
    (h : otaManifestParseData manifest xml = .error err) : err ≠ 0 := by
  rw [otaManifestParseData] at h
  generalize (do
    let fwVer ← parseFwVersion xml (ascii "firmware_version")
    otaManifestParsePartitions { manifest with fwVer } xml : Except Int OtaManifest) = parsed at h
  cases parsed with
  | error e =>
    rw [← Except.error.inj h]
    exact (by decide : (-1 : Int) ≠ 0)
  | ok m => cases h

variable {i : Nat} (hfound : (otaImageFindFile src.img fileName).found = some i)

include hfound

theorem getFileLength_eq : otaImageGetFileLength src.img fileName =
    toInt (src.img.entrys i).length := by
  rw [otaImageGetFileLength, hfound]

theorem getFileOffset_eq : otaImageGetFileOffset src.img fileName =
    toInt (src.img.entrys i).offset := by
  rw [otaImageGetFileOffset, hfound]

/-- A manifest that was read: what is left are the sizes of the files it lists. -/
theorem guarded_iff_of_read
    (hlong : ¬ otaImageGetFileLength src.img fileName > otaManifestFileMaxSize)
    (hoffset : ¬ otaImageGetFileOffset src.img fileName < 0) {bytes : List UInt8}
    (hlength : bytes.length = otaImageGetFileLength src.img fileName)
    (hread : otaImageRead src (otaImageGetFileOffset src.img fileName)
      (otaImageGetFileLength src.img fileName) =
      .done bytes hlength) :
    Guarded src buffer fileName ↔ Usable src buffer fileName := by
  have husable : (∀ manifest, Reads src buffer fileName manifest →
      (∃ file ∈ manifest.files, (otaImageFindFile src.img file.name).found = none ∧
        file.size = 0xffffffff) →
        otaManifestCheckFileSize manifest src.img ≠ 0) → Usable src buffer fileName :=
    fun hlisted => ⟨by rw [hfound]; exact nofun, fun _ => not_lt.mp hoffset,
      .inl (hlength ▸ natCast_nonneg _), hlisted⟩
  -- the bytes are those of this read
  have hreads : ∀ manifest, Reads src buffer fileName manifest →
      otaManifestCheckData src.img fileName (bytes ++ buffer.drop bytes.length) bytes.length = 0 ∧
        otaManifestParseData .zero bytes = .ok manifest := by
    rintro manifest ⟨-, bytes', h', hread', hcheck, hdata⟩
    cases hread.symm.trans hread'
    exact ⟨hcheck, hdata⟩
  have hparse : otaManifestParseFile src buffer fileName =
      if otaManifestCheckData src.img fileName (bytes ++ buffer.drop bytes.length) bytes.length ≠ 0
        then
        .returned (otaManifestCheckData src.img fileName
          (bytes ++ buffer.drop bytes.length) bytes.length) .zero
      else
        match otaManifestParseData .zero bytes with
        | .error err => .returned err .zero
        | .ok manifest => .returned (otaManifestCheckFileSize manifest src.img) manifest := by
    rw [otaManifestParseFile]
    dsimp only
    rw [if_neg hlong, if_neg hoffset, hread]
  by_cases hcheck :
    otaManifestCheckData src.img fileName (bytes ++ buffer.drop bytes.length) bytes.length ≠ 0
  · rw [if_pos hcheck] at hparse
    exact iff_of_true (.of_error hcheck hparse)
      (husable fun manifest h => absurd (hreads manifest h).1 hcheck)
  · rw [if_neg hcheck] at hparse
    cases hdata : otaManifestParseData .zero bytes with
    | error err =>
      rw [hdata] at hparse
      refine iff_of_true (.of_error (parseData_error hdata) hparse) (husable fun manifest h => ?_)
      cases hdata.symm.trans (hreads manifest h).2
    | ok manifest =>
      rw [hdata] at hparse
      dsimp only at hparse
      by_cases hsizes : otaManifestCheckFileSize manifest src.img = 0
      · have hall := checkFileSize_eq_zero_iff.mp hsizes
        rw [hsizes] at hparse
        constructor
        · intro hguarded
          refine husable fun manifest' h => ?_
          cases hdata.symm.trans (hreads manifest' h).2
          rintro ⟨file, hmem, hnone, -⟩
          obtain ⟨i', bytes', hverified⟩ := hguarded.verified manifest hparse
          obtain ⟨j, hj, -⟩ := hverified.sizes file hmem
          cases hnone.symm.trans hj
        · intro hus
          have hreads' : Reads src buffer fileName manifest :=
            ⟨not_lt.mp hlong, bytes, hlength, hread, Decidable.of_not_not hcheck, hdata⟩
          refine ⟨by rw [hparse]; exact nofun, fun manifest' h => ?_,
            fun err manifest' h herr => ?_⟩
          · cases hparse.symm.trans h
            refine ⟨i, bytes, hfound, ?_, ?_, ?_,
              checkData_eq_zero hfound (Decidable.of_not_not hcheck), hdata,
              fun file hmem => ?_⟩
            · rw [← getFileOffset_eq hfound]
              exact not_lt.mp hoffset
            · rw [← getFileLength_eq hfound, ← getFileOffset_eq hfound]
              exact ⟨hlength, hread⟩
            · rw [getFileLength_eq hfound] at hlength hlong
              have hmax : otaManifestFileMaxSize = 1535 := rfl
              exact ⟨toNat_of_toInt hlength.symm, by omega⟩
            · refine (hall file hmem).resolve_right fun hmissing => ?_
              exact hus.listed manifest hreads' ⟨file, hmem, hmissing⟩ hsizes
          · cases hparse.symm.trans h
            exact absurd rfl herr
      · refine iff_of_true (.of_error hsizes hparse) (husable fun manifest' h => ?_)
        cases hdata.symm.trans (hreads manifest' h).2
        exact fun _ => hsizes

end

/-- The manifest is only used after it was verified if and only if it is usable. -/
theorem parseFile_guarded_iff (src : Source) (buffer fileName : List UInt8) :
    Guarded src buffer fileName ↔ Usable src buffer fileName := by
  cases hfound : (otaImageFindFile src.img fileName).found with
  | none =>
    -- the error code is still 0
    have hlen : otaImageGetFileLength src.img fileName = -1 := by rw [otaImageGetFileLength, hfound]
    have hoff : otaImageGetFileOffset src.img fileName = -1 := by rw [otaImageGetFileOffset, hfound]
    have hparse : otaManifestParseFile src buffer fileName = .returned 0 .zero := by
      rw [otaManifestParseFile, hlen, hoff]
      rfl
    refine iff_of_false (fun hguarded => ?_) fun husable => husable.present hfound
    obtain ⟨i, bytes, hverified⟩ := hguarded.verified .zero hparse
    cases hfound.symm.trans hverified.present
  | some i =>
    by_cases hlong : otaImageGetFileLength src.img fileName > otaManifestFileMaxSize
    · have hparse : otaManifestParseFile src buffer fileName = .returned (-1) .zero := by
        rw [otaManifestParseFile]
        exact if_pos hlong
      refine iff_of_true (.of_error (by decide) hparse)
        ⟨by rw [hfound]; simp, fun hle => ?_, ?_, fun _ h => ?_⟩
      · exact absurd hlong (not_lt.mpr hle)
      · exact .inl (le_of_lt ((by decide : (0 : Int) < otaManifestFileMaxSize).trans hlong))
      · exact absurd hlong (not_lt.mpr h.1)
    · by_cases hoffset : otaImageGetFileOffset src.img fileName < 0
      · have hparse : otaManifestParseFile src buffer fileName = .returned 0 .zero := by
          rw [otaManifestParseFile]
          dsimp only
          rw [if_neg hlong, if_pos hoffset]
        refine iff_of_false (fun hguarded => ?_) fun husable =>
          absurd hoffset (not_lt.mpr (husable.offset (not_lt.mp hlong)))
        obtain ⟨i', bytes, hverified⟩ := hguarded.verified .zero hparse
        rw [getFileOffset_eq hverified.present] at hoffset
        exact absurd hoffset (not_lt.mpr hverified.offset)
      · cases hread : otaImageRead src (otaImageGetFileOffset src.img fileName)
            (otaImageGetFileLength src.img fileName) with
        | done bytes hlength => exact guarded_iff_of_read hfound hlong hoffset hlength hread
        | failed err herr =>
          have hparse : otaManifestParseFile src buffer fileName = .returned err .zero := by
            rw [otaManifestParseFile]
            dsimp only
            rw [if_neg hlong, if_neg hoffset, hread]
          refine iff_of_true (.of_error herr hparse)
            ⟨by rw [hfound]; simp, fun _ => not_lt.mp hoffset,
            .inr ⟨err, herr, hread⟩, fun manifest h => ?_⟩
          obtain ⟨-, bytes, hlength, hdone, -⟩ := h
          cases hread.symm.trans hdone
        | overrun hneg =>
          have hparse : otaManifestParseFile src buffer fileName = .overrun := by
            rw [otaManifestParseFile]
            dsimp only
            rw [if_neg hlong, if_neg hoffset, hread]
          refine iff_of_false (fun hguarded => hguarded.returns hparse) fun husable => ?_
          rcases husable.length with hnonneg | ⟨err, herr, hfailed⟩
          · exact absurd hneg (not_lt.mpr hnonneg)
          · cases hread.symm.trans hfailed

/-- An image with an empty directory. -/
def emptyImage : OtaImage := ⟨true, .ofBytes (List.replicate 32 0), fun _ => .ofBytes [], none⟩

/-- It has no manifest, and the call returns 0. -/
theorem missing_manifest_accepted :
    otaManifestParseFile ⟨emptyImage, fun _ _ => .failed Errno.eio (by decide), false⟩ []
      (ascii "ota.xml") =
        .returned 0 .zero ∧
      ¬ Guarded ⟨emptyImage, fun _ _ => .failed Errno.eio (by decide), false⟩ []
        (ascii "ota.xml") := by
  have hparse : otaManifestParseFile ⟨emptyImage, fun _ _ => .failed Errno.eio (by decide), false⟩
      [] (ascii "ota.xml") =
      .returned 0 .zero := rfl
  refine ⟨hparse, fun hguarded => ?_⟩
  obtain ⟨i, bytes, hverified⟩ := hguarded.verified .zero hparse
  have hnone : (otaImageFindFile emptyImage (ascii "ota.xml")).found = none := by decide
  cases hnone.symm.trans hverified.present

end SpeakerFirmware.Ota.Manifest
