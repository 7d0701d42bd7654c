/-
# Fields of a partition and their element

`ota_manifest_parse_partitions` reads each field of a partition from behind the partition's start
tag on, to the end of the whole text. A field that is missing is so taken from a later partition.
If the element has all its fields, each of them ends in the element, and reading the element alone
gives the same file.

The number of partitions is compared as an `int`: a negative one passes the check, and no
partition is read at all.
-/

import SpeakerFirmware.Ota.Manifest.Model

namespace SpeakerFirmware.Ota.Manifest

open CString
open List

/-! ## Reading a text alone -/

theorem bind_eq_ok {α β : Type} {x : Except Int α} {f : α → Except Int β} {b : β}
    (h : x.bind f = .ok b) :
    ∃ a, x = .ok a ∧ f a = .ok b := by
  cases x with
  | error e => cases h
  | ok a => exact ⟨a, rfl, h⟩

section

variable {s tag start stop : List UInt8}

theorem zero_notMem_startTag (htag : 0 ∉ tag) : 0 ∉ startTag tag := by
  simp [startTag, htag]

theorem zero_notMem_endTag (htag : 0 ∉ tag) : 0 ∉ endTag tag := by
  simp [endTag, htag]

theorem xmlGetData_ok_iff :
    xmlGetData s tag = .ok (start, stop) ↔ tag.length ≤ xmlTagMaxLen ∧ ∃ find,
      strstr s (startTag tag) = some find ∧
      start = find.drop (tag.length + 2) ∧ strstr start (endTag tag) = some stop := by
  unfold xmlGetData
  constructor
  · intro h
    split at h
    · cases h
    · split at h
      · cases h
      · rename_i hlen _ find hfind
        split at h
        · cases h
        · rename_i _ stop' hstop
          cases h
          exact ⟨Nat.not_lt.mp hlen, find, hfind, rfl, hstop⟩
  · rintro ⟨hlen, find, hfind, rfl, hstop⟩
    rw [if_neg (Nat.not_lt.mpr hlen), hfind]
    dsimp only
    rw [hstop]

section

variable (htag : 0 ∉ tag) (h : xmlGetData s tag = .ok (start, stop))
include htag h

/-- The value of a tag ends where its end tag starts. -/
theorem xmlGetData_value : ∃ value, start = value ++ stop ∧ 0x3c ∈ stop := by
  obtain ⟨-, find, -, -, hstop⟩ := xmlGetData_ok_iff.mp h
  obtain ⟨⟨value, hvalue⟩, hprefix⟩ := strstr_spec (zero_notMem_endTag htag) hstop
  exact ⟨value, hvalue.symm, hprefix.mem mem_cons_self⟩

variable (more : List UInt8)

/-- A tag that a text has is found at the same place when more text follows. -/
theorem xmlGetData_append :
    xmlGetData (s ++ more) tag = .ok (start ++ more, stop ++ more) := by
  obtain ⟨hlen, find, hfind, rfl, hstop⟩ := xmlGetData_ok_iff.mp h
  refine xmlGetData_ok_iff.mpr
    ⟨hlen, find ++ more, strstr_append (zero_notMem_startTag htag) hfind more, ?_,
    strstr_append (zero_notMem_endTag htag) hstop more⟩
  have hle := (strstr_spec (zero_notMem_startTag htag) hfind).2.length_le
  have hstart : (startTag tag).length = tag.length + 2 := by simp [startTag]
  exact (drop_append_of_le_length (hstart ▸ hle)).symm

/-- Both texts agree on the value of the tag. -/
theorem sameUntil_value : SameUntil 0x3c (start ++ more) start := by
  obtain ⟨value, rfl, hmem⟩ := xmlGetData_value htag h
  have hsame := SameUntil.append (mem_append_right value hmem) more []
  rwa [append_nil] at hsame

theorem xmlGetInt_append : xmlGetInt (s ++ more) tag = xmlGetInt s tag := by
  rw [xmlGetInt, xmlGetInt, xmlGetData_append htag h more, h]
  exact congrArg Except.ok (strtoul_congr (sameUntil_value htag h more) 0)

theorem xmlGetStr_append
    (maxLen : Nat) : xmlGetStr (s ++ more) tag maxLen = xmlGetStr s tag maxLen := by
  rw [xmlGetStr, xmlGetStr, xmlGetData_append htag h more, h]
  obtain ⟨value, rfl, -⟩ := xmlGetData_value htag h
  simp [Except.bind]

end

theorem findIdx?_eq_of_forall {α : Type} {p q : α → Bool} {l : List α} (h : ∀ x ∈ l, p x = q x) :
    l.findIdx? p = l.findIdx? q := by
  induction l with
  | nil => rfl
  | cons x l ih =>
    obtain ⟨hx, hl⟩ := forall_mem_cons.mp h
    rw [findIdx?_cons, findIdx?_cons, hx, ih hl]

theorem otaGetFileType_append (htag : 0 ∉ tag) (h : xmlGetData s tag = .ok (start, stop))
    (more : List UInt8) :
    otaGetFileType (start ++ more) = otaGetFileType start := by
  have hsame : ∀ str ∈ otaFileTypeStrs, str.isPrefixOf (start ++ more) = str.isPrefixOf start := by
    intro str hstr
    have hlt : ∀ str ∈ otaFileTypeStrs, (0x3c : UInt8) ∉ str := by decide
    rw [Bool.eq_iff_iff, isPrefixOf_iff_prefix, isPrefixOf_iff_prefix]
    exact (sameUntil_value htag h more).prefix_iff (hlt str hstr)
  rw [otaGetFileType, otaGetFileType, findIdx?_eq_of_forall hsame]

end

/-! ## One partition -/

/-- The fields of a partition. -/
def fieldTags : List (List UInt8) :=
    ["type", "file_id", "file_name", "file_size", "checksum"].map ascii

/-- A text has a tag, with its end. -/
def HasTag (s tag : List UInt8) : Prop := ∃ data, xmlGetData s tag = .ok data

theorem zero_notMem_fieldTags : ∀ tag ∈ fieldTags, (0 : UInt8) ∉ tag := by decide

theorem forall_fieldTags {P : List UInt8 → Prop} :
    (∀ tag ∈ fieldTags, P tag) ↔ P (ascii "type") ∧ P (ascii "file_id") ∧ P (ascii "file_name") ∧
      P (ascii "file_size") ∧ P (ascii "checksum") := by
  simp [fieldTags]

/-- An element with all its fields reads the same alone and in its text. -/
theorem parsePartition_append {element : List UInt8} (h : ∀ tag ∈ fieldTags, HasTag element tag)
    (more : List UInt8) : parsePartition (element ++ more) = parsePartition element := by
  obtain ⟨⟨type, htype⟩, ⟨fileId, hfileId⟩, ⟨fileName, hfileName⟩, ⟨fileSize, hfileSize⟩,
      ⟨checksum, hchecksum⟩⟩ :=
    forall_fieldTags.mp h
  obtain ⟨ztype, zfileId, zfileName, zfileSize, zchecksum⟩ :=
    forall_fieldTags.mp zero_notMem_fieldTags
  unfold parsePartition
  rw [xmlGetData_append ztype htype more, htype, xmlGetInt_append zfileId hfileId,
    xmlGetStr_append zfileName hfileName,
    xmlGetInt_append zfileSize hfileSize, xmlGetInt_append zchecksum hchecksum]
  simp only [bind, Except.bind, otaGetFileType_append ztype htype more]

theorem hasTag_of_xmlGetInt {s tag : List UInt8} {value : UInt32}
    (h : xmlGetInt s tag = .ok value) : HasTag s tag := by
  rw [xmlGetInt] at h
  cases hdata : xmlGetData s tag with
  | error e =>
    rw [hdata] at h
    cases h
  | ok data => exact ⟨data, hdata⟩

theorem hasTag_of_xmlGetStr {s tag value : List UInt8} {maxLen : Nat}
    (h : xmlGetStr s tag maxLen = .ok value) :
    HasTag s tag := by
  obtain ⟨data, hdata, -⟩ := bind_eq_ok h
  exact ⟨data, hdata⟩

/-- An element that can be read alone has all its fields. -/
theorem hasTag_of_parsePartition {element : List UInt8} {file : OtaFile}
    (h : parsePartition element = .ok file) :
    ∀ tag ∈ fieldTags, HasTag element tag := by
  obtain ⟨type, htype, h⟩ := bind_eq_ok h
  obtain ⟨fileId, hfileId, h⟩ := bind_eq_ok h
  obtain ⟨fileName, hfileName, h⟩ := bind_eq_ok h
  obtain ⟨fileSize, hfileSize, h⟩ := bind_eq_ok h
  obtain ⟨checksum, hchecksum, -⟩ := bind_eq_ok h
  exact forall_fieldTags.mpr
    ⟨⟨type, htype⟩, hasTag_of_xmlGetInt hfileId, hasTag_of_xmlGetStr hfileName,
    hasTag_of_xmlGetInt hfileSize, hasTag_of_xmlGetInt hchecksum⟩

/-! ## All partitions -/

/-- The text between the start tag and the end tag of each of the first partitions, and the text
from the end tag on. -/
def elements : Nat → List UInt8 → List (List UInt8 × List UInt8)
  | 0, _ => []
  | n + 1, seg =>
    match xmlGetData seg (ascii "partition") with
    | .error _ => []
    | .ok (start, stop) => (start.take (start.length - stop.length), stop) :: elements n stop

/-- What the loop has read, partition by partition. -/
theorem parseLoop_ok {n : Nat} {manifest result : OtaManifest} {seg : List UInt8}
    (h : parseLoop n manifest seg = .ok result) :
    ∃ files, result = { manifest with files := manifest.files ++ files } ∧ files.length = n ∧
      (elements n seg).map (fun element => parsePartition (element.1 ++ element.2)) =
        files.map .ok := by
  induction n generalizing manifest seg with
  | zero =>
    cases h
    exact ⟨[], by rw [append_nil], rfl, rfl⟩
  | succ n ih =>
    obtain ⟨⟨start, stop⟩, hpart, h⟩ := bind_eq_ok h
    obtain ⟨file, hfile, h⟩ := bind_eq_ok h
    obtain ⟨files, rfl, hlength, hall⟩ := ih h
    obtain ⟨value, rfl, -⟩ := xmlGetData_value (by decide) hpart
    refine ⟨file :: files, by rw [append_assoc, singleton_append], congrArg Nat.succ hlength, ?_⟩
    rw [elements, hpart]
    dsimp only
    rw [length_append, Nat.add_sub_cancel, take_left, map_cons, hfile, hall]
    rfl

/-- The files of the manifest are those of the partitions of the text: as many as `partitionsNum`
says, and each one what its own element says. -/
structure Faithful (xml : List UInt8) (files : List OtaFile) : Prop where
  count : ∃ partNum, xmlGetInt xml (ascii "partitionsNum") = .ok partNum ∧
    partNum.toBitVec.toInt = files.length
  count_le : files.length ≤ otaManifestMaxFileCnt
  fields : ∃ parts, xmlGetData xml (ascii "partitions") = .ok parts ∧
    (elements files.length parts.1).map (fun element => parsePartition element.1) = files.map .ok

/-- The number of partitions is not negative, and each of the partitions has all its fields. -/
structure Complete (xml : List UInt8) : Prop where
  count : ∀ partNum, xmlGetInt xml (ascii "partitionsNum") = .ok partNum →
    0 ≤ partNum.toBitVec.toInt
  fields : ∀ partNum parts, xmlGetInt xml (ascii "partitionsNum") = .ok partNum →
    xmlGetData xml (ascii "partitions") = .ok parts →
    ∀ element ∈ elements partNum.toBitVec.toInt.toNat parts.1, ∀ tag ∈ fieldTags,
      HasTag element.1 tag

/-- Reading each element alone. -/
theorem map_alone_iff {parts : List (List UInt8 × List UInt8)} {files : List OtaFile}
    (h : parts.map (fun element => parsePartition (element.1 ++ element.2)) = files.map .ok) :
    parts.map (fun element => parsePartition element.1) = files.map .ok ↔
      ∀ element ∈ parts, ∀ tag ∈ fieldTags, HasTag element.1 tag := by
  induction parts generalizing files with
  | nil => exact iff_of_true h nofun
  | cons element parts ih =>
    cases files with
    | nil => cases h
    | cons file files =>
      obtain ⟨hfile, hrest⟩ := cons_eq_cons.mp h
      rw [map_cons, map_cons, cons_eq_cons, forall_mem_cons, ih hrest]
      refine and_congr_left fun _ => ⟨hasTag_of_parsePartition, fun htags => ?_⟩
      exact (parsePartition_append htags element.2).symm.trans hfile

/-- A manifest that is accepted says what its text says if and only if the text is complete. -/
theorem parsePartitions_faithful_iff {xml : List UInt8} {manifest : OtaManifest}
    (h : otaManifestParsePartitions .zero xml = .ok manifest) : Faithful xml manifest.files ↔
      Complete xml := by
  obtain ⟨partNum, hnum, h⟩ := bind_eq_ok h
  split at h
  · cases h
  · rename_i hmax
    obtain ⟨parts, hparts, h⟩ := bind_eq_ok h
    obtain ⟨files, rfl, hlength, hall⟩ := parseLoop_ok h
    change Faithful xml ([] ++ files) ↔ _
    rw [nil_append]
    have halone := map_alone_iff hall
    rw [← hlength] at halone
    constructor
    · rintro ⟨⟨partNum', hnum', hcount⟩, -, parts', hparts', hfields⟩
      cases hnum.symm.trans hnum'
      cases hparts.symm.trans hparts'
      refine ⟨fun partNum' hnum' => ?_, fun partNum' parts' hnum' hparts' => ?_⟩
      · cases hnum.symm.trans hnum'
        omega
      · cases hnum.symm.trans hnum'
        cases hparts.symm.trans hparts'
        rw [← hlength]
        exact halone.mp hfields
    · intro hcomplete
      have hnonneg := hcomplete.count partNum hnum
      have hfields := hcomplete.fields partNum parts hnum hparts
      rw [← hlength] at hfields
      exact ⟨⟨partNum, hnum, by omega⟩, by omega, parts, hparts, halone.mpr hfields⟩

/-! ## Texts -/

/-- A partition with a given text for its checksum. -/
def partitionText (fileId checksum : String) : List UInt8 :=
  ascii "<partition><type>DATA</type><file_id>" ++ ascii fileId ++
    ascii "</file_id><file_name>a.bin</file_name><file_size>0x10</file_size>" ++ ascii checksum ++
      ascii "</partition>"

/-- A text with partitions. -/
def partitionsText (partitionsNum : String) (partitions : List (List UInt8)) : List UInt8 :=
  ascii "<partitionsNum>" ++ ascii partitionsNum ++ ascii "</partitionsNum><partitions>" ++
    partitions.flatten ++
    ascii "</partitions>"

/-- The first partition has no checksum. -/
def missingChecksum : List UInt8 :=
  partitionsText "2" [partitionText "1" "", partitionText "2" "<checksum>7</checksum>"]

def fileOf (fileId : UInt8) : OtaFile := ⟨ascii "a.bin", 4, fileId, 16, 7⟩

/-- It gets the one of the second. And a number of partitions that is negative as an `int` is
accepted, with no file at all. -/
theorem missing_field_from_next_partition :
    otaManifestParsePartitions .zero missingChecksum = .ok
      { OtaManifest.zero with files := [fileOf 1, fileOf 2] } ∧
      ¬ Faithful missingChecksum [fileOf 1, fileOf 2] ∧
      otaManifestParsePartitions .zero (partitionsText "4294967295" []) = .ok .zero ∧
      ¬ Faithful (partitionsText "4294967295" []) [] := by
  have hmissing : otaManifestParsePartitions .zero missingChecksum =
      .ok { OtaManifest.zero with files := [fileOf 1, fileOf 2] } := by decide +kernel
  have hnegative : otaManifestParsePartitions .zero (partitionsText "4294967295" []) = .ok .zero :=
    by decide +kernel
  refine ⟨hmissing, fun hfaithful => ?_, hnegative, fun hfaithful => ?_⟩
  · obtain ⟨parts, hparts, hfields⟩ := hfaithful.fields
    have hread : (xmlGetData missingChecksum (ascii "partitions")).map (fun parts =>
        (elements 2 parts.1).map fun element => parsePartition element.1) = .ok [.error (-1),
          .ok (fileOf 2)] := by
      decide +kernel
    rw [hparts] at hread
    exact absurd ((Except.ok.inj hread).symm.trans hfields) (by decide)
  · obtain ⟨partNum, hnum, hcount⟩ := hfaithful.count
    have hread : xmlGetInt (partitionsText "4294967295" []) (ascii "partitionsNum") =
        .ok 4294967295 := by decide +kernel
    cases hread.symm.trans hnum
    exact absurd hcount (by decide)

/-- The text between the tags of a partition with its checksum. -/
def completeElement (fileId : String) : List UInt8 :=
  ascii "<type>DATA</type><file_id>" ++ ascii fileId ++
    ascii "</file_id><file_name>a.bin</file_name>" ++
    ascii "<file_size>0x10</file_size><checksum>7</checksum>"

/-- Two partitions with their checksums. -/
def completeText : List UInt8 :=
  partitionsText "2"
    [partitionText "1" "<checksum>7</checksum>", partitionText "2" "<checksum>7</checksum>"]

/-- With the checksums the text is complete. -/
theorem complete_text_faithful : Faithful completeText [fileOf 1, fileOf 2] := by
  have hparse : otaManifestParsePartitions .zero completeText =
      .ok { OtaManifest.zero with files := [fileOf 1, fileOf 2] } := by decide +kernel
  have hnum : xmlGetInt completeText (ascii "partitionsNum") = .ok 2 := by decide +kernel
  have hparts : (xmlGetData completeText (ascii "partitions")).map
      (fun parts => (elements 2 parts.1).map Prod.fst) =
        .ok [completeElement "1", completeElement "2"] := by decide +kernel
  have hfirst : parsePartition (completeElement "1") = .ok (fileOf 1) := by decide +kernel
  have hsecond : parsePartition (completeElement "2") = .ok (fileOf 2) := by decide +kernel
  refine (parsePartitions_faithful_iff hparse).mpr
    ⟨fun partNum h => ?_, fun partNum parts h hdata element hmem => ?_⟩
  · cases hnum.symm.trans h
    decide
  · cases hnum.symm.trans h
    rw [hdata] at hparts
    have hfst : element.1 ∈ [completeElement "1", completeElement "2"] :=
      Except.ok.inj hparts ▸ mem_map_of_mem hmem
    rcases mem_pair.mp hfst with heq | heq
    · rw [heq]
      exact hasTag_of_parsePartition hfirst
    · rw [heq]
      exact hasTag_of_parsePartition hsecond

end SpeakerFirmware.Ota.Manifest
