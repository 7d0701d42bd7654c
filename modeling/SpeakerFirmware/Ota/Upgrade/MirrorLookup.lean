/-
# Looking up the partition of a file

A file id may have two partitions, one for each mirror. `partition_get_part` stops at the first
entry with the file id, and gives up if that is the entry of the other mirror; it does not go on
to the second one. So the order of the table decides: the mirror whose entry comes first finds
its partition, the other one finds none. `partition_get_mirror_part` tests each entry, and finds
the other mirror's wherever it stands.
-/

import SpeakerFirmware.Ota.Pipeline.Model
import SpeakerFirmware.Ota.Upgrade.Model

namespace SpeakerFirmware.Ota.Upgrade

open Errno
open List

/-! ## The lookups -/

/-- The loop of `partition_has_mirror_part`; `found` is `idx != -1`. -/
def hasMirrorPartLoop (fileId : UInt8) : Bool → List PartitionEntry → Bool
  | _, [] => false
  | found, part :: parts =>
    if part.fileId = fileId then
      if found then true else hasMirrorPartLoop fileId true parts
    else hasMirrorPartLoop fileId found parts

variable (fw : Firmware) (fileId : UInt8)

def Firmware.partitionHasMirrorPart : Bool :=
  hasMirrorPartLoop fileId false fw.parts

/-- The loop of `partition_get_part`. -/
def Firmware.getPartLoop (fw : Firmware) (fileId : UInt8) (hasMirrorPart : Bool) :
    List PartitionEntry → Option PartitionEntry
  | [] => none
  | part :: parts =>
    if part.fileId = fileId then
      if hasMirrorPart && fw.isMirrorPart part then none else some part
    else fw.getPartLoop fileId hasMirrorPart parts

def Firmware.partitionGetPart : Option PartitionEntry :=
  fw.getPartLoop fileId (fw.partitionHasMirrorPart fileId) fw.parts

def Firmware.partitionGetMirrorPart : Option PartitionEntry :=
  fw.parts.find? fun part => part.fileId = fileId ∧ fw.isMirrorPart part

/-- `ota_write_file_partition` for a file, with the partition that `partition_get_part` finds. -/
def Firmware.otaWriteFilePartition (job : Pipeline.Job) (offs : Nat) (data : List UInt8) :
    Pipeline.Written :=
  Pipeline.otaWriteFilePartition { job with partFound := (fw.partitionGetPart fileId).isSome } offs
    data

/-! ## The entries of a file id -/

/-- The entries of a file id, in the order of the table. -/
def Firmware.entries : List PartitionEntry :=
  fw.parts.filter fun part => part.fileId = fileId

section

variable (fw : Firmware) (fileId : UInt8)

theorem hasMirrorPartLoop_eq (found : Bool) (parts : List PartitionEntry) :
    hasMirrorPartLoop fileId found parts =
      decide (2 ≤ found.toNat + (parts.filter fun part => part.fileId = fileId).length) := by
  induction parts generalizing found with
  | nil => cases found <;> rfl
  | cons part parts ih =>
    rw [hasMirrorPartLoop]
    by_cases hpart : part.fileId = fileId
    · rw [if_pos hpart, filter_cons_of_pos (by simpa using hpart), length_cons]
      cases found with
      | true =>
        rw [if_pos rfl, Bool.toNat_true]
        exact (decide_eq_true (by omega)).symm
      | false =>
        rw [if_neg Bool.false_ne_true, ih]
        simp [Nat.add_comm]
    · rw [if_neg hpart, filter_cons_of_neg (by simpa using hpart), ih]

/-- A second entry is what makes a mirror part. -/
theorem hasMirrorPart_eq : fw.partitionHasMirrorPart fileId =
    decide (2 ≤ (fw.entries fileId).length) := by
  rw [Firmware.partitionHasMirrorPart, hasMirrorPartLoop_eq, Bool.toNat_false, Nat.zero_add,
    Firmware.entries]

/-- Only the first entry counts. -/
theorem getPartLoop_eq (hasMirrorPart : Bool) (parts : List PartitionEntry) :
    fw.getPartLoop fileId hasMirrorPart parts =
      (parts.filter fun part => part.fileId = fileId).head?.filter fun part =>
        !(hasMirrorPart && fw.isMirrorPart part) := by
  induction parts with
  | nil => rfl
  | cons part parts ih =>
    rw [Firmware.getPartLoop]
    by_cases hpart : part.fileId = fileId
    · rw [if_pos hpart, filter_cons_of_pos (by simpa using hpart), head?_cons]
      cases hmirror : hasMirrorPart && fw.isMirrorPart part <;> simp [Option.filter, hmirror]
    · rw [if_neg hpart, filter_cons_of_neg (by simpa using hpart), ih]

theorem getPart_eq : fw.partitionGetPart fileId =
    (fw.entries fileId).head?.filter fun part =>
      !(decide (2 ≤ (fw.entries fileId).length) && fw.isMirrorPart part) := by
  rw [Firmware.partitionGetPart, getPartLoop_eq, hasMirrorPart_eq, Firmware.entries]

theorem getPart_of_single {fw : Firmware} {fileId : UInt8} {part : PartitionEntry}
    (h : fw.entries fileId = [part]) : fw.partitionGetPart fileId = some part := by
  simp [getPart_eq, h]

/-- Without a partition nothing is written. -/
theorem otaWriteFilePartition_of_none {fw : Firmware} {fileId : UInt8}
    (h : fw.partitionGetPart fileId = none) (job : Pipeline.Job) (offs : Nat) (data : List UInt8) :
    fw.otaWriteFilePartition fileId job offs data = ⟨[], einval, false⟩ := by
  rw [Firmware.otaWriteFilePartition, h]
  rfl

theorem getMirrorPart_eq : fw.partitionGetMirrorPart fileId =
    (fw.entries fileId).find? fw.isMirrorPart := by
  rw [Firmware.partitionGetMirrorPart, Firmware.entries, find?_filter]
  simp

end

/-! ## Two mirrors -/

/-- The file id has two entries, in either order: one of the mirror that runs and one of the
other. -/
structure Mirrored (fw : Firmware) (fileId : UInt8) (running other : PartitionEntry) : Prop where
  order : fw.entries fileId = [running, other] ∨ fw.entries fileId = [other, running]
  current : running.mirrorId.val = fw.currentMirrorId
  ids : running.mirrorId = 0 ∧ other.mirrorId = 1 ∨ running.mirrorId = 1 ∧ other.mirrorId = 0

namespace Mirrored

variable {fw : Firmware} {fileId : UInt8} {running other : PartitionEntry}

section

variable (h : Mirrored fw fileId running other)
include h

theorem not_isMirrorPart_running : fw.isMirrorPart running = false := by
  simp [Firmware.isMirrorPart, h.current]

theorem isMirrorPart_other : fw.isMirrorPart other = true := by
  have hcurrent := h.current
  rcases h.ids with ⟨hrunning, hother⟩ | ⟨hrunning, hother⟩ <;>
    simp [Firmware.isMirrorPart, ← hcurrent, hrunning, hother, partitionMirrorIdInvalid]

/-- The other mirror's entry is found in either order. -/
theorem getMirrorPart : fw.partitionGetMirrorPart fileId = some other := by
  rw [getMirrorPart_eq]
  rcases h.order with horder | horder <;>
    simp [horder, find?, h.not_isMirrorPart_running, h.isMirrorPart_other]

theorem getPart_of_first (horder : fw.entries fileId = [running, other]) :
    fw.partitionGetPart fileId = some running := by
  simp [getPart_eq, horder, h.not_isMirrorPart_running]

/-- Behind the other mirror's entry the running one's is not found. -/
theorem getPart_of_second (horder : fw.entries fileId = [other, running]) :
    fw.partitionGetPart fileId = none := by
  simp [getPart_eq, horder, h.isMirrorPart_other]

end

/-- On each table with two mirrors, one of them cannot write the file. -/
theorem otaWriteFilePart_other {fw' : Firmware} (h : Mirrored fw fileId running other)
    (h' : Mirrored fw' fileId other running) (hparts : fw'.parts = fw.parts) :
    (∀ job offs data, fw.otaWriteFilePartition fileId job offs data = ⟨[], einval, false⟩) ∨
      ∀ job offs data, fw'.otaWriteFilePartition fileId job offs data = ⟨[], einval, false⟩ := by
  have hentries : fw'.entries fileId = fw.entries fileId := by
    rw [Firmware.entries, hparts, Firmware.entries]
  rcases h.order with horder | horder
  · exact .inr (otaWriteFilePartition_of_none (h'.getPart_of_second (hentries.trans horder)))
  · exact .inl (otaWriteFilePartition_of_none (h.getPart_of_second horder))

end Mirrored

/-- The lookups do what their names say if and only if the entry of the running mirror comes before
the other one. With a single entry there is nothing to tell apart. -/
theorem mirror_lookup_iff_running_first (fw : Firmware) (fileId : UInt8) :
    ((∀ running other, Mirrored fw fileId running other →
        fw.partitionGetPart fileId = some running ∧ fw.partitionGetMirrorPart fileId = some other) ∧
      ∀ part, fw.entries fileId = [part] → fw.partitionGetPart fileId = some part) ↔
    ∀ running other, Mirrored fw fileId running other → fw.entries fileId = [running, other] := by
  constructor
  · rintro ⟨hlookup, -⟩ running other h
    rcases h.order with horder | horder
    · exact horder
    · cases (h.getPart_of_second horder).symm.trans (hlookup running other h).1
  · intro hfirst
    refine ⟨fun running other h => ⟨h.getPart_of_first (hfirst running other h), h.getMirrorPart⟩,
      ?_⟩
    exact fun part => getPart_of_single

/-- The system of a mirror. -/
def systemPart (mirrorId : Fin 16) (offset : Nat) : PartitionEntry where
  type := 2
  fileId := partitionFileIdSystem
  mirrorId := mirrorId
  storageId := 0
  offset := offset
  size := 0x10000

/-- A table with the system of mirror 0 before that of mirror 1. -/
def bothSystems (curNorAddr : Nat) : Firmware where
  parts := [systemPart 0 0x10000, systemPart 1 0x20000] ++ List.replicate 13 ⟨0, 0, 0, 0, 0, 0⟩
  curNorAddr := curNorAddr
  fwVersionCode := 1
  rebootResume := true
  recovery := false
  length_parts := rfl

/-- Running from mirror 1, the system has no partition; from mirror 0 it has. -/
theorem second_mirror_finds_no_part :
    Mirrored (bothSystems 0x20000) partitionFileIdSystem (systemPart 1 0x20000)
      (systemPart 0 0x10000) ∧
      (bothSystems 0x20000).partitionGetPart partitionFileIdSystem = none ∧
      (bothSystems 0x10000).partitionGetPart partitionFileIdSystem = some (systemPart 0 0x10000) :=
  ⟨⟨by decide, by decide, by decide⟩, by decide, by decide⟩

theorem otaWriteFilePart_other_systems :
    (∀ job offs data,
      (bothSystems 0x10000).otaWriteFilePartition partitionFileIdSystem job offs data =
        ⟨[], einval, false⟩) ∨
      ∀ job offs data,
        (bothSystems 0x20000).otaWriteFilePartition partitionFileIdSystem job offs data =
        ⟨[], einval, false⟩ :=
  @Mirrored.otaWriteFilePart_other _ _ (systemPart 0 0x10000) (systemPart 1 0x20000) _
    ⟨by decide, by decide, by decide⟩ ⟨by decide, by decide, by decide⟩ rfl

end SpeakerFirmware.Ota.Upgrade
