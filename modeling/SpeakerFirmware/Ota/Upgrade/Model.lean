/-
# Preparing the partitions for an upgrade

Before an image is written, `ota_upgrade.c` makes the partitions it will write to empty,
and keeps a breakpoint record in NVRAM that says how far an interrupted upgrade got:
`ota_partition_update_prepare_init` after power-on, `ota_partition_update_prepare` when
an upgrade starts or is resumed. The log and dump writers borrow the same partitions and
note that in the same record.

An attempt collects its `Event`s, the flash operations among them, in order. Power may
be lost behind any of them; what is left then is what the events so far have done to
the `World`.
-/

import SpeakerFirmware.Ota.Upgrade.Storage

namespace SpeakerFirmware.Ota.Upgrade

open NorFlash

/-! ## The partition table -/

/-- `partition_entry`, without the name, the flags and the file offset. -/
structure PartitionEntry where
  type : UInt8
  fileId : UInt8
  mirrorId : Fin 16
  storageId : Fin 16
  offset : Nat
  size : Nat
  deriving DecidableEq, Repr

def PartitionEntry.stop (part : PartitionEntry) : Nat :=
  part.offset + part.size

def maxPartitionCount : Nat := 15

def partitionTypeTemp : UInt8 := 5
def partitionFileIdSystem : UInt8 := 4
def partitionFileIdSdfs : UInt8 := 5
def partitionFileIdCoredump : UInt8 := 0xf0
def partitionFileIdEvtbuf : UInt8 := 0xfd
def partitionFileIdOtaTemp : UInt8 := 0xfe

scoped instance neZero_sixteen : NeZero 16 := ⟨by decide⟩

def partitionMirrorIdInvalid : Fin 16 := 0xf

/-- A build of the firmware with its partition table: the flash address it runs from, its
version, and whether `CONFIG_OTA_ENABLE_REBOOT_RESUME_UPGRADE` and `CONFIG_OTA_RECOVERY`
are set. -/
structure Firmware where
  parts : List PartitionEntry
  curNorAddr : Nat
  fwVersionCode : Nat
  rebootResume : Bool
  recovery : Bool
  length_parts : parts.length = maxPartitionCount

variable (fw : Firmware)

def Firmware.partitionFindPart (addr : Nat) : Option PartitionEntry :=
  fw.parts.find? fun part => part.offset ≤ addr ∧ addr < part.stop

/-- `partition_get_current_mirror_id`; without a partition it is `(u8_t)-1`. -/
def Firmware.currentMirrorId : Nat :=
  match fw.partitionFindPart fw.curNorAddr with
  | some part => part.mirrorId
  | none => 255

/-- `!partition_get_current_mirror_id()`. -/
def Firmware.otherMirrorId : Nat :=
  if fw.currentMirrorId = 0 then 1 else 0

/-- `partition_is_mirror_part`. -/
def Firmware.isMirrorPart (part : PartitionEntry) : Bool :=
  part.mirrorId.val ≠ fw.currentMirrorId ∧ part.mirrorId ≠ partitionMirrorIdInvalid

/-! ## The breakpoint record -/

/-- The `OTA_BP_STATE_` values. -/
inductive BpState
  | unknown | clean | writingImg | upgradePending | upgradeWriting | upgradeWritingOther
  | upgradeDone | writingImgFail | upgradingFail
  deriving DecidableEq, Repr

/-- The `OTA_BP_FILE_STATE_` values. -/
inductive FileState
  | unknown | clean | writeStart | writing | writingDirty | writingClean | writeDone | verifyPass
  | otherWriting | writeFail | verifyFail
  deriving DecidableEq, Repr

/-- `ota_file`, without its name and type. -/
structure OtaFile where
  fileId : UInt8
  offset : Nat
  size : Nat
  checksum : Nat
  deriving DecidableEq, Repr

/-- `ota_breakpoint_file_state`. -/
structure FileSlot where
  fileId : UInt8
  state : FileState
  deriving DecidableEq, Repr

/-- `ota_breakpoint`. -/
structure Breakpoint where
  bpId : UInt8
  mirrorId : Nat
  backendType : UInt8
  state : BpState
  oldVersion : Nat
  newVersion : Nat
  totalFileNum : UInt8
  writeDoneFileNum : UInt8
  curFile : OtaFile
  curFileWriteOffset : Nat
  fileState : List FileSlot
  dataChecksum : Nat
  deriving DecidableEq, Repr

/-- A record of zeros; `OTA_FW_MAX_FILE` is 8. -/
def zeroBreakpoint : Breakpoint where
  bpId := 0
  mirrorId := 0
  backendType := 0
  state := .unknown
  oldVersion := 0
  newVersion := 0
  totalFileNum := 0
  writeDoneFileNum := 0
  curFile := ⟨0, 0, 0, 0⟩
  curFileWriteOffset := 0
  fileState := List.replicate 8 ⟨0, .unknown⟩
  dataChecksum := 0

/-- Write the first slot that belongs to `key`. -/
def setSlot (key : UInt8) (slot : FileSlot) : List FileSlot → Option (List FileSlot)
  | [] => none
  | s :: slots =>
    if s.fileId = key then some (slot :: slots) else (setSlot key slot slots).map (s :: ·)

/-- `ota_breakpoint_set_file_state`: the slot of the file, else a free one, else nothing. No
caller looks at the result. -/
def otaBreakpointSetFileState (bp : Breakpoint) (fileId : UInt8) (state : FileState) : Breakpoint :=
  match setSlot fileId ⟨fileId, state⟩ bp.fileState with
  | some slots => { bp with fileState := slots }
  | none =>
    match setSlot 0 ⟨fileId, state⟩ bp.fileState with
    | some slots => { bp with fileState := slots }
    | none => bp

/-- `ota_breakpoint_get_file_state`; `none` is its `-1`. -/
def otaBreakpointGetFileState (bp : Breakpoint) (fileId : UInt8) : Option FileState :=
  (bp.fileState.find? (·.fileId = fileId)).map FileSlot.state

def otaBreakpointClearAllFileState (bp : Breakpoint) : Breakpoint :=
  { bp with
    fileState := bp.fileState.map fun _ => ⟨0, .unknown⟩
    curFile := ⟨0, 0, 0, 0⟩, curFileWriteOffset := 0, dataChecksum := 0 }

def otaBreakpointInitDefaultValue : Breakpoint :=
  { zeroBreakpoint with oldVersion := fw.fwVersionCode, mirrorId := fw.otherMirrorId }

/-! ## The world and what happens to it -/

/-- The flash chips by storage id, the record in NVRAM, and the copy of it in RAM. Two lists
only grow: the erases that were issued for a partition, with the mode they were issued
in, and the partitions recorded as clean, with the contents of their chip at that time. -/
structure World where
  flash : Fin 16 → Image
  saved : Option Breakpoint
  otaBp : Breakpoint
  erases : List (Bool × PartitionEntry × Op)
  recorded : List (PartitionEntry × Image)

inductive Event
  | erase (useRecovery : Bool) (part : PartitionEntry) (op : Op)
  | recordClean (part : PartitionEntry)
  | cache (bp : Breakpoint)
  | save (bp : Breakpoint)

def Event.apply (w : World) : Event → World
  | .erase useRecovery part op =>
    { w with
      flash := Function.update w.flash part.storageId (op.apply (w.flash part.storageId))
      erases := w.erases ++ [(useRecovery, part, op)] }
  | .recordClean part => { w with recorded := w.recorded ++ [(part, w.flash part.storageId)] }
  | .cache bp => { w with otaBp := bp }
  | .save bp => { w with otaBp := bp, saved := some bp }

/-- A running `ota_upgrade_init` or `ota_upgrade_check`, with `ota->bp` and what it has done. -/
structure Attempt where
  world : World
  bp : Breakpoint
  events : List Event

def Attempt.emit (a : Attempt) (event : Event) : Attempt :=
  { a with world := event.apply a.world, events := a.events ++ [event] }

def Attempt.emitAll (a : Attempt) (events : List Event) : Attempt :=
  events.foldl Attempt.emit a

def otaBreakpointSave (a : Attempt) : Attempt :=
  if a.world.otaBp = a.bp then a else
  let bp := { a.bp with bpId := a.bp.bpId + 1 }
  { a with bp }.emit (if fw.rebootResume then .save bp else .cache bp)

/-- The first part of `ota_breakpoint_load`: the copy in RAM is read from NVRAM. -/
def loadOtaBp (a : Attempt) : Attempt :=
  if fw.rebootResume then a.emit (.cache (a.world.saved.getD zeroBreakpoint)) else a

/-- `ota_breakpoint_init`: a record that is missing or bad is replaced by a fresh one. -/
def otaBreakpointInit (a : Attempt) : Attempt :=
  let a := loadOtaBp fw a
  if (fw.rebootResume ∧ a.world.saved.isNone) ∨ a.world.otaBp.mirrorId > 2 then
    otaBreakpointSave fw { a with bp := otaBreakpointInitDefaultValue fw }
  else { a with bp := a.world.otaBp }

def otaBreakpointUpdateState (a : Attempt) (state : BpState) : Attempt :=
  let bp := { a.bp with state }
  otaBreakpointSave fw { a with
    bp := if state = .upgradeDone ∨ state = .upgradePending then otaBreakpointClearAllFileState bp
      else bp }

/-! ## Erasing a partition -/

/-- The flags of `ota_upgrade_info`, and the storages it has opened. -/
structure UpgradeInfo where
  useRecovery : Bool
  useRecoveryApp : Bool
  storages : List (Fin 16)
  deriving DecidableEq, Repr

section

variable (ota : UpgradeInfo)

/-- `ota_get_part_storage` finds a storage. -/
def UpgradeInfo.hasStorage (part : PartitionEntry) : Bool :=
  part.storageId ∈ ota.storages

/-- The erases of `ota_partition_erase_part` on the chip of the partition. The initial erase
leaves the first sector for last. -/
def erasePartOps (f : Image) (part : PartitionEntry) (startOffset : Int) (initialState : Bool) :
    List Op × Option Err :=
  let alignAddr := i32 (roundDown (part.offset + startOffset))
  let alignSize := i32 (roundUp (part.size - startOffset))
  if initialState = false then otaStorageErase f alignAddr alignSize
  else if alignSize > otaEraseAlignSize then
    let rest := otaStorageEraseInitial (alignAddr + otaEraseAlignSize)
      (alignSize - otaEraseAlignSize)
    let first := otaStorageEraseInitial alignAddr otaEraseAlignSize
    (rest.1 ++ first.1, rest.2.orElse fun _ => first.2)
  else otaStorageEraseInitial alignAddr alignSize

/-- `ota_partition_erase_part`. No caller looks at the result. -/
def otaPartitionErasePart (a : Attempt) (part : PartitionEntry) (startOffset : Int)
    (initialState : Bool) : Attempt × Option Err :=
  if ota.hasStorage part then
    let r := erasePartOps (a.world.flash part.storageId) part startOffset initialState
    (a.emitAll (r.1.map (.erase ota.useRecovery part)), r.2)
  else (a, some .einval)

/-- The loop of `ota_partition_check_part_is_clean` from sample `i` on, with `left` samples to
go. It stops when a sample would start behind the partition. -/
def checkSamples (f : Image) (part : PartitionEntry) : Nat → Nat → Bool
  | _, 0 => true
  | i, left + 1 =>
    if part.size < i * 0x10000 then true
    else otaStorageIsClean 32 f (u32 (part.offset + i * 0x10000)) otaEraseAlignSize &&
      checkSamples f part (i + 1) left

/-- `ota_partition_check_part_is_clean`: the first sectors of up to four blocks. -/
def otaPartitionCheckPartIsClean (w : World) (part : PartitionEntry) : Bool :=
  ota.hasStorage part && !ota.useRecoveryApp && checkSamples (w.flash part.storageId) part 0 4

/-- `ota_breakpoint_set_file_state` to `OTA_BP_FILE_STATE_CLEAN` for a partition. -/
def recordClean (a : Attempt) (part : PartitionEntry) : Attempt :=
  { a with bp := otaBreakpointSetFileState a.bp part.fileId .clean }.emit (.recordClean part)

/-! ## `ota_partition_update_prepare_init` -/

/-- The partitions of the other mirror that hold files of the firmware. -/
def Firmware.isOtherFirmware (part : PartitionEntry) : Bool :=
  fw.isMirrorPart part ∧ part.fileId ≠ partitionFileIdEvtbuf ∧ part.fileId ≠ partitionFileIdCoredump

/-- The partitions `ota_partition_update_prepare_init` is responsible for. -/
def prepareInitHandles (part : PartitionEntry) : Bool :=
  part.fileId ≠ 0 ∧
    if ota.useRecovery = false then fw.isOtherFirmware part
    else if ota.useRecoveryApp then
      ota.hasStorage part ∧
        (part.fileId = partitionFileIdSystem ∨ part.fileId = partitionFileIdSdfs)
    else ota.hasStorage part ∧
      (part.type = partitionTypeTemp ∨ part.fileId = partitionFileIdOtaTemp)

def prepareInitPart (a : Attempt) (part : PartitionEntry) : Attempt :=
  if prepareInitHandles fw ota part then
    recordClean (if otaPartitionCheckPartIsClean ota a.world part then a
      else (otaPartitionErasePart ota a part 0 true).1) part
  else a

def otaPartitionUpdatePrepareInit (a : Attempt) : Attempt :=
  let a := fw.parts.foldl (prepareInitPart fw ota) a
  otaBreakpointSave fw { a with bp := { a.bp with state := .clean } }

/-! ## `ota_partition_update_prepare` -/

/-- The partitions `ota_partition_update_prepare` is responsible for. -/
def prepareHandles (part : PartitionEntry) : Bool :=
  part.fileId ≠ 0 ∧
    if ota.useRecovery = false then fw.isOtherFirmware part
    else (part.type = partitionTypeTemp ∨ part.fileId = partitionFileIdOtaTemp) ∧
      ota.hasStorage part ∧ ¬ (ota.useRecoveryApp ∧ part.type = partitionTypeTemp)

/-- The states in which an upgrade is resumed. -/
def BpState.Resumes (state : BpState) : Prop :=
  state = .upgradeWriting ∨ state = .writingImg ∨ state = .upgradeWritingOther

instance (state : BpState) : Decidable state.Resumes :=
  inferInstanceAs (Decidable (_ ∨ _))

/-- The sector where writing the current file stopped: the `int` sum with its low bits
cleared. -/
def Breakpoint.eraseStart (bp : Breakpoint) : Int :=
  i32 (bp.curFile.offset + bp.curFileWriteOffset) / otaEraseAlignSize * otaEraseAlignSize

/-- A partition in the middle of a file: it is erased from where writing stopped. -/
def resumePart (initState : Bool) (a : Attempt) (part : PartitionEntry) : Attempt :=
  let eraseOffset := i32 (a.bp.eraseStart - part.offset)
  let bp := { a.bp with
    curFileWriteOffset := u32 (part.offset + eraseOffset - a.bp.curFile.offset) }
  let a := (otaPartitionErasePart ota { a with bp } part eraseOffset initState).1
  { a with bp := otaBreakpointSetFileState a.bp part.fileId .writingClean }

/-- A partition that is erased whole. -/
def erasePart (initState : Bool) (a : Attempt) (part : PartitionEntry) : Attempt :=
  let a := recordClean (otaPartitionErasePart ota a part 0 initState).1 part
  if a.bp.state = .writingImgFail ∧ part.fileId = partitionFileIdOtaTemp then
    { a with bp := { a.bp with state := .clean } }
  else a

/-- What the loop does with a partition it is responsible for. -/
def preparePart (initState : Bool) (a : Attempt) (part : PartitionEntry) :
    Attempt :=
  if prepareHandles fw ota part = false then a
  else if a.bp.state.Resumes then
    match otaBreakpointGetFileState a.bp part.fileId with
    | some .clean | some .writeDone | some .verifyPass | some .writingClean => a
    | some .writing | some .otherWriting =>
      if ota.useRecovery ∨ a.bp.mirrorId = fw.otherMirrorId then resumePart ota initState a part
      else erasePart ota initState a part
    | _ => erasePart ota initState a part
  else erasePart ota initState a part

/-- The states in which `ota_partition_update_prepare` leaves the partitions alone. -/
def prepareSkips (state : BpState) : Bool :=
  state = .clean ∨ ota.useRecoveryApp ∧ state = .upgradeDone ∨
    ota.useRecovery ∧ (state = .upgradePending ∨ state = .upgradeWriting ∨ state = .upgradingFail)

def otaPartitionUpdatePrepare (initState : Bool) (a : Attempt) : Attempt :=
  if prepareSkips ota a.bp.state then a else
  let a := fw.parts.foldl (preparePart fw ota initState) a
  let bp :=
    if a.bp.state = .upgradeWriting ∨ a.bp.state = .writingImg ∨ a.bp.state = .clean then a.bp
    else { (if a.bp.state ≠ .unknown then otaBreakpointInitDefaultValue fw else a.bp) with
      state := .clean }
  otaBreakpointSave fw { a with bp }

end

/-! ## `ota_upgrade_init`, `ota_upgrade_check` and the other writers -/

/-- `ota_upgrade_param`, as far as it concerns the partitions. -/
structure UpgradeParam where
  storages : List (Fin 16)
  flagUseRecovery : Bool
  flagUseRecoveryApp : Bool
  flagSkipInitErase : Bool
  flagEnableRebootResumeUpgrade : Bool
  deriving DecidableEq, Repr

def UpgradeParam.ota (param : UpgradeParam) : UpgradeInfo :=
  ⟨param.flagUseRecovery, param.flagUseRecoveryApp, param.storages⟩

/-- An attempt as it starts. `memset` clears `ota->bp`, which is then loaded. -/
def Attempt.start (w : World) : Attempt :=
  ⟨w, zeroBreakpoint, []⟩

/-- The part of `ota_upgrade_init` behind `ota_breakpoint_init`. -/
def otaUpgradeInitParts (param : UpgradeParam) (a : Attempt) : Attempt :=
  if param.flagEnableRebootResumeUpgrade then otaPartitionUpdatePrepare fw param.ota true a
  else
    let a := { a with bp := otaBreakpointClearAllFileState a.bp }
    if param.flagSkipInitErase then a else otaPartitionUpdatePrepareInit fw param.ota a

/-- `ota_upgrade_init`. A recovery app without recovery is refused before anything is done. -/
def otaUpgradeInit (w : World) (param : UpgradeParam) : Attempt :=
  if param.flagUseRecoveryApp ∧ ¬ param.flagUseRecovery then .start w
  else otaBreakpointSave fw (otaUpgradeInitParts fw param (otaBreakpointInit fw (.start w)))

/-- `ota_upgrade_check` up to the point where the image is written. `bpChanged` says that the
host offers another image than the one the record belongs to. -/
def otaUpgradeCheck (w : World) (ota : UpgradeInfo) (bpChanged : Bool) : Attempt :=
  let a := otaPartitionUpdatePrepare fw ota false (otaBreakpointInit fw (.start w))
  if bpChanged then
    otaPartitionUpdatePrepare fw ota false (otaBreakpointUpdateState fw a .writingImgFail)
  else a

/-- A partition another writer may borrow. -/
def Firmware.borrows (fileId : UInt8) (part : PartitionEntry) : Bool :=
  part.fileId ≠ 0 ∧ (fw.recovery ∨ fw.isMirrorPart part) ∧ part.fileId = fileId

/-- The record a writer leaves that borrows a partition. -/
def otherWriting (fw : Firmware) (bp : Breakpoint) (part : PartitionEntry) (fileId : UInt8) :
    Breakpoint :=
  let bp := { bp with
    state := .upgradeWritingOther, curFile := { bp.curFile with offset := part.offset }
    curFileWriteOffset := 0 }
  let bp := otaBreakpointSetFileState bp fileId .otherWriting
  if fw.recovery then otaBreakpointSetFileState bp partitionFileIdOtaTemp .otherWriting
  else otaBreakpointSetFileState
    (otaBreakpointSetFileState bp partitionFileIdSystem .otherWriting)
    partitionFileIdSdfs .otherWriting

/-- The loop of `ota_upgrade_get_ota_partition_other_writing`. -/
def getOtherWritingLoop (fw : Firmware) (fileId : UInt8) (a : Attempt) :
    List PartitionEntry → Attempt × Option PartitionEntry
  | [] => (a, none)
  | part :: parts =>
    if fw.borrows fileId part = false then getOtherWritingLoop fw fileId a parts
    else if a.bp.state = .clean then
      (otaBreakpointSave fw { a with bp := otherWriting fw a.bp part fileId }, some part)
    else if a.bp.state = .upgradeWritingOther ∧
        otaBreakpointGetFileState a.bp part.fileId = some .otherWriting then (a, some part)
    else getOtherWritingLoop fw fileId a parts

def otaUpgradeGetOtaPartitionOtherWriting (w : World) (fileId : UInt8) :
    Attempt × Option PartitionEntry :=
  getOtherWritingLoop fw fileId (otaBreakpointInit fw (.start w)) fw.parts

def otaUpgradeSetOtaPartitionOtherWriting (w : World) (fileId : UInt8) :
    Attempt × Option Err :=
  let a := otaBreakpointInit fw (.start w)
  match fw.parts.find? (fw.borrows fileId) with
  | none => (a, some .einval)
  | some part =>
    if a.bp.state ≠ .upgradeWritingOther then
      (otaBreakpointSave fw { a with bp := otherWriting fw a.bp part fileId }, none)
    else (a, none)

/-! ## The system -/

/-- What happens to the device. An attempt may lose power behind any number of its events;
`other` is whatever the rest of the firmware does in between, such as writing the image:
it may leave any flash and any record. -/
inductive Label
  | init (param : UpgradeParam) (cut : Option Nat)
  | check (ota : UpgradeInfo) (bpChanged : Bool) (cut : Option Nat)
  | getOtherWriting (fileId : UInt8)
  | setOtherWriting (fileId : UInt8)
  | other (flash : Fin 16 → Image) (saved : Option Breakpoint) (otaBp : Breakpoint)

/-- What an attempt leaves; a power loss also clears the RAM. -/
def Attempt.outcome (a : Attempt) (w : World) : Option Nat → World
  | none => a.world
  | some n => { (a.events.take n).foldl Event.apply w with otaBp := zeroBreakpoint }

def World.step (w : World) : Label → World
  | .init param cut => (otaUpgradeInit fw w param).outcome w cut
  | .check ota bpChanged cut => (otaUpgradeCheck fw w ota bpChanged).outcome w cut
  | .getOtherWriting fileId => (otaUpgradeGetOtaPartitionOtherWriting fw w fileId).1.world
  | .setOtherWriting fileId => (otaUpgradeSetOtaPartitionOtherWriting fw w fileId).1.world
  | .other flash saved otaBp => { w with flash, saved, otaBp }

end SpeakerFirmware.Ota.Upgrade
