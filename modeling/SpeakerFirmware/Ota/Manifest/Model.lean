/-
# The manifest of an OTA image

The manifest `ota.xml` lists the files of an image: their names, types, sizes and checksums.
This module embeds its parser. `xml_get_data` looks for a start tag from a pointer on and for the
end tag behind it, wherever they are; the other functions are built on it.
-/

import SpeakerFirmware.Errno
import SpeakerFirmware.Lib.CString

namespace SpeakerFirmware.Ota.Manifest

open CString

/-- The characters of a literal. -/
def ascii (s : String) : List UInt8 := s.toList.map fun c => UInt8.ofNat c.toNat

def xmlTagMaxLen : Nat := 31

def otaManifestMaxFileCnt : Nat := 15

def startTag (tag : List UInt8) : List UInt8 := 0x3c :: tag ++ [0x3e]

def endTag (tag : List UInt8) : List UInt8 := 0x3c :: 0x2f :: tag ++ [0x3e]

/-- `xml_get_data`: the text from behind the start tag on, and that from the end tag on. -/
def xmlGetData (buf tag : List UInt8) : Except Int (List UInt8 × List UInt8) :=
  if tag.length > xmlTagMaxLen then .error (-1)
  else
    match strstr buf (startTag tag) with
    | none => .error (-1)
    | some find =>
      match strstr (find.drop (tag.length + 2)) (endTag tag) with
      | none => .error (-1)
      | some stop => .ok (find.drop (tag.length + 2), stop)

def xmlGetInt (buf tag : List UInt8) : Except Int UInt32 :=
  (xmlGetData buf tag).map fun data => strtoul data.1 0

def xmlGetStr (buf tag : List UInt8) (maxLen : Nat) : Except Int (List UInt8) :=
  (xmlGetData buf tag).bind fun data =>
    let len := data.1.length - data.2.length
    if len + 1 > maxLen then .error (-1) else .ok (data.1.take len)

def otaFileTypeStrs : List (List UInt8) :=
  ["RESERVED", "BOOT", "SYS_PARAM", "SYSTEM", "DATA", "TEMP"].map ascii

def otaGetFileType (type : List UInt8) : Int :=
  match otaFileTypeStrs.findIdx? fun str => str.isPrefixOf type with
  | some i => i
  | none => -1

/-- `struct fw_version`, the fields the manifest sets. -/
structure FwVersion where
  versionCode : UInt32
  versionName : List UInt8
  boardName : List UInt8
  deriving DecidableEq, Repr

/-- `struct ota_file`. -/
structure OtaFile where
  name : List UInt8
  type : UInt8
  fileId : UInt8
  size : UInt32
  checksum : UInt32
  deriving DecidableEq, Repr

/-- `struct ota_manifest`: the first `file_cnt` of `wfiles`. -/
structure OtaManifest where
  fwVer : FwVersion
  files : List OtaFile
  deriving DecidableEq, Repr

/-- After the `memset`. -/
def OtaManifest.zero : OtaManifest := ⟨⟨0, [], []⟩, []⟩

def parseFwVersion (xml verTag : List UInt8) : Except Int FwVersion :=
  let ver : Except Int FwVersion := do
    let seg ← xmlGetData xml verTag
    let versionCode ← xmlGetInt seg.1 (ascii "version_code")
    let versionName ← xmlGetStr seg.1 (ascii "version_name") 64
    let boardName ← xmlGetStr seg.1 (ascii "board_name") 32
    return ⟨versionCode, versionName, boardName⟩
  ver.mapError fun _ => -2

/-- The fields of one partition, read from behind its start tag on. -/
def parsePartition (seg : List UInt8) : Except Int OtaFile := do
  let type ← xmlGetData seg (ascii "type")
  let fileId ← xmlGetInt seg (ascii "file_id")
  let fileName ← xmlGetStr seg (ascii "file_name") 13
  let fileSize ← xmlGetInt seg (ascii "file_size")
  let checksum ← xmlGetInt seg (ascii "checksum")
  return ⟨fileName, .ofInt (otaGetFileType type.1), fileId.toUInt8, fileSize, checksum⟩

/-- The loop of `ota_manifest_parse_partitions`. -/
def parseLoop : Nat → OtaManifest → List UInt8 → Except Int OtaManifest
  | 0, manifest, _ => .ok manifest
  | n + 1, manifest, seg => do
      let part ← xmlGetData seg (ascii "partition")
      let file ← parsePartition part.1
      parseLoop n { manifest with files := manifest.files ++ [file] } part.2

/-- `ota_manifest_parse_partitions`. The number is an `int`. -/
def otaManifestParsePartitions (manifest : OtaManifest) (xml : List UInt8) :
    Except Int OtaManifest := do
  let partNum ← xmlGetInt xml (ascii "partitionsNum")
  if partNum.toBitVec.toInt > otaManifestMaxFileCnt then .error Errno.einval
  else
    let parts ← xmlGetData xml (ascii "partitions")
    parseLoop partNum.toBitVec.toInt.toNat manifest parts.1

def otaManifestParseData (manifest : OtaManifest) (xml : List UInt8) : Except Int OtaManifest :=
  let parsed : Except Int OtaManifest := do
    let fwVer ← parseFwVersion xml (ascii "firmware_version")
    otaManifestParsePartitions { manifest with fwVer } xml
  parsed.mapError fun _ => -1

end SpeakerFirmware.Ota.Manifest
