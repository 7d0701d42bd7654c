/-
# Writing the temp image

In recovery mode an upgrade writes the whole image to the temp partition
(`ota_write_temp_img`); the recovery app installs it after a reboot. An attempt may end
early, by a read error, a write error or a power loss, and the next one goes on from what
the breakpoint record says.

An attempt collects its `Change`s: the events of the functions that prepare the partition,
and the program operations of the flash. A power loss leaves some first part of them. The
writing itself is the pipeline of `ota_write_file_normal` under some schedule; what reaches
the partition are the actions of its trace.
-/

import SpeakerFirmware.Ota.Upgrade.MirrorLookup
import SpeakerFirmware.Ota.Upgrade.Prepare

namespace SpeakerFirmware.Ota.Upgrade

open Errno
open NorFlash

/-! ## Programming the flash -/

/-- The loop of `xspi_nor_write_internal`: a command for each page of 256 bytes, the first one up
to the end of its page. `fuel` counts commands. -/
def xspiNorWriteInternal : Nat → Nat → List UInt8 → List Op
  | 0, _, _ => []
  | fuel + 1, addr, data =>
    if data.length = 0 then [] else
    let writeSize := min data.length (256 - addr % 256)
    .program addr (data.take writeSize) ::
      xspiNorWriteInternal fuel (addr + writeSize) (data.drop writeSize)

/-- `flash_write`, that is `xspi_nor_write`. -/
def flashWrite (addr : Nat) (data : List UInt8) : List Op :=
  xspiNorWriteInternal data.length addr data

/-- `OTA_STORAGE_DEFAULT_WRITE_SEGMENT_SIZE`, the `max_write_seg` of every storage. -/
def maxWriteSeg : Nat := 64

/-- The loop of `ota_storage_write`. `fuel` counts segments. -/
def otaStorageWrite : Nat → Nat → List UInt8 → List Op
  | 0, _, _ => []
  | fuel + 1, offs, buf =>
    if buf.length = 0 then [] else
    let wlen := if buf.length < maxWriteSeg then buf.length else maxWriteSeg
    flashWrite offs (buf.take wlen) ++ otaStorageWrite fuel (offs + wlen) (buf.drop wlen)

/-! ## The temp partition and its file -/

/-- `partition_get_temp_part`. -/
def Firmware.getTempPart (fw : Firmware) : Option PartitionEntry :=
  match fw.partitionGetPart partitionFileIdOtaTemp with
  | some part => if part.type ≠ partitionTypeTemp then none else some part
  | none => none

/-- The image the host offers: its bytes, `ota_upgrade_get_temp_img_size`, the version in its
manifest and its checksum. -/
structure OtaImage where
  bytes : Image
  size : Nat
  versionCode : Nat
  checksum : Nat

/-- `ota_init_temp_file_data`, not in the recovery app. -/
def otaInitTempFileData (img : OtaImage) (part : PartitionEntry) : Option OtaFile :=
  if img.size ≥ part.size then none else some ⟨partitionFileIdOtaTemp, part.offset, img.size, 0⟩

/-- `ota_breakpoint_update_file_state`. The difference of the offsets is unsigned. -/
def otaBreakpointUpdateFileState (fw : Firmware) (a : Attempt) (file : OtaFile) (state : FileState)
    (curOffset : Int) (force : Bool) : Attempt :=
  let ahead := u32 (curOffset - a.bp.curFileWriteOffset)
  let due := force || ahead == 0 || decide (ahead ≥ 128 * 1024)
  let bp := match state with
    | .writeStart => { a.bp with curFile := file, curFileWriteOffset := u32 curOffset }
    | .writing => if due then { a.bp with curFileWriteOffset := u32 curOffset } else a.bp
    | _ => a.bp
  let needSave := match state with
    | .writeStart => false
    | .writing => due
    | _ => true
  let a := { a with bp := otaBreakpointSetFileState bp file.fileId state }
  if needSave then otaBreakpointSave fw a else a

/-! ## An attempt -/

/-- What happens to the world: an event, an operation of a write, or that the file of a partition
is noted as written. -/
inductive Change
  | event (event : Event)
  | program (storageId : Fin 16) (op : Op)
  | writeDone (part : PartitionEntry)

def Change.apply (w : World) : Change → World
  | .event e => e.apply w
  | .program storageId op =>
    { w with flash := Function.update w.flash storageId (op.apply (w.flash storageId)) }
  | .writeDone _ => w

/-- A running attempt that may also program: the world, `ota->bp`, and what it has done. -/
structure Writing where
  world : World
  bp : Breakpoint
  changes : List Change

def Attempt.writing (a : Attempt) : Writing :=
  ⟨a.world, a.bp, a.events.map .event⟩

/-- A call of one of the functions before. -/
def Writing.call (x : Writing) (f : Attempt → Attempt) : Writing :=
  let a := f ⟨x.world, x.bp, []⟩
  ⟨a.world, a.bp, x.changes ++ a.events.map .event⟩

def Writing.change (x : Writing) (change : Change) : Writing :=
  { x with world := change.apply x.world, changes := x.changes ++ [change] }

def Writing.program (x : Writing) (storageId : Fin 16) (ops : List Op) : Writing :=
  ops.foldl (fun x op => x.change (.program storageId op)) x

/-- How the image is received: it cannot be opened or read, or it is not wanted
(`ota_is_need_upgrade` is not positive), or it is taken. -/
inductive Verdict
  | unreadable | refused | accepted
  deriving DecidableEq, Repr

/-- What an attempt meets: the storages it opens, the backend, the calls that fail, how much of a
storage write is done when it fails, and the schedule of the two threads with the number of
steps until the attempt is over or power is lost. -/
structure Transfer where
  storages : List (Fin 16)
  verdict : Verdict
  backendType : UInt8
  configBluetooth : Bool
  isBtBackend : Bool
  maxReqSize : Nat
  maxReqSize_pos : 0 < maxReqSize
  segSize : Nat
  segSize_pos : 0 < segSize
  segSize_le : segSize ≤ 4096
  prepareFails : Nat → Bool
  readFails : Nat → Bool
  storageFails : Nat → Bool
  consumeTime : UInt32
  opsBeforeFailure : Nat
  sched : Nat → Pipeline.Thread
  steps : Nat

/-- Recovery mode, not in the recovery app. -/
def recoveryInfo (storages : List (Fin 16)) : UpgradeInfo :=
  ⟨true, false, storages⟩

/-- The call of `ota_write_file_normal`. The temp image starts at offset 0 of the image. -/
def Transfer.job (t : Transfer) (img : OtaImage) (file : OtaFile) (start : Nat) : Pipeline.Job where
  configBluetooth := t.configBluetooth
  isBtBackend := t.isBtBackend
  readLocalImage := false
  maxReqSize := t.maxReqSize
  maxReqSize_pos := t.maxReqSize_pos
  segSize := t.segSize
  segSize_pos := t.segSize_pos
  segSize_le := t.segSize_le
  imgFileOffset := some 0
  fileLen := file.size
  startFileOffs := start
  fileOffset := file.offset
  isTemp := true
  partFound := true
  storageFound := true
  encrypted := false
  image := img.bytes
  prepareFails := t.prepareFails
  readFails := t.readFails
  storageFails := t.storageFails
  consumeTime := t.consumeTime

section

variable (fw : Firmware) (img : OtaImage) (t : Transfer) (part : PartitionEntry) (file : OtaFile)

/-- An action of the pipeline. -/
def Writing.act (job : Pipeline.Job) (x : Writing) : Pipeline.Action → Writing
  | .record offs force => x.call fun a => otaBreakpointUpdateFileState fw a file .writing offs force
  | .write offs data ret =>
    let buf := job.stored offs data
    let ops := otaStorageWrite buf.length (file.offset + offs) buf
    x.program part.storageId (if ret = 0 then ops else ops.take t.opsBeforeFailure)

/-- `ota_write_file`; there is no result as long as it has not returned. -/
def otaWriteFile (x : Writing) (start : Nat) : Writing × Option Int :=
  let job := t.job img file start
  let s := job.run t.sched t.steps
  (s.trace.foldl (Writing.act fw t part file job) x,
    match s.writerPc with
    | .returned ret => some ret
    | _ => none)

/-- Where `ota_write_and_verify_file` starts to write and whether it erases the rest before;
`none` if the file is written already. -/
def writePlan (bp : Breakpoint) : Option (Int × Bool) :=
  match otaBreakpointGetFileState bp file.fileId with
  | some .writeDone | some .verifyPass => none
  | some .otherWriting | some .clean => some (0, false)
  | some .writingClean => some (i32 bp.curFileWriteOffset, false)
  | some .writing => some (i32 bp.curFileWriteOffset, true)
  | _ => some (0, true)

/-- The end of `ota_write_and_verify_file` behind its label `failed`. -/
def Writing.writeFailed (x : Writing) (err : Int) : Writing :=
  if err ≠ eio ∧ err ≠ eagain then
    x.call fun a => otaBreakpointUpdateFileState fw a file .writeFail 0 false
  else x

/-- The part of `ota_write_and_verify_file` that writes, from an offset on. -/
def writeFrom (x : Writing) (start : Int) : Writing × Option Int :=
  let x := x.call fun a => otaBreakpointUpdateFileState fw a file .writeStart start false
  let r := otaWriteFile fw img t part file x start.toNat
  match r.2 with
  | none => r
  | some 0 =>
    ((r.1.change (.writeDone part)).call fun a =>
      otaBreakpointUpdateFileState fw a file .writeDone 0 false, some 0)
  | some err => (r.1.writeFailed fw file err, some err)

/-- `ota_write_and_verify_file` in recovery mode, with `need_verify` false. -/
def otaWriteAndVerifyFile (x : Writing) : Writing × Option Int :=
  let ota := recoveryInfo t.storages
  if ota.hasStorage part = false then
    (x.writeFailed fw file einval, some einval)
  else
    match writePlan file x.bp with
    | none => (x, some 0)
    | some (start, false) => writeFrom fw img t part file x start
    | some (start, true) =>
      let eraseOffset := roundDown (file.offset + start)
      let start := (eraseOffset : Int) - file.offset
      let x := x.call fun a =>
        let a := (otaPartitionErasePart ota a part (eraseOffset - part.offset) false).1
        { a with bp := { a.bp with curFileWriteOffset := u32 start } }
      writeFrom fw img t part file x start

def otaWriteTempImg (x : Writing) : Writing × Option Int :=
  match fw.getTempPart with
  | none => (x, some einval)
  | some part =>
    match otaInitTempFileData img part with
    | none => (x, some einval)
    | some file => otaWriteAndVerifyFile fw img t part file x

/-- `ota_is_need_upgrade` finds that the record belongs to another image. -/
def OtaImage.changed (bp : Breakpoint) : Bool :=
  (bp.state = .writingImg ∨ bp.state = .upgradeWriting ∨ bp.state = .upgradePending) ∧
    (bp.newVersion ≠ 0 ∧ bp.newVersion ≠ img.versionCode ∨
      bp.dataChecksum ≠ 0 ∧ bp.dataChecksum ≠ img.checksum)

def otaBreakpointExit (a : Attempt) : Attempt :=
  otaBreakpointSave fw a

/-- `ota_upgrade_check` in recovery mode: up to the end of `ota_write_temp_img` if that succeeds,
else to the end. -/
def otaUpgradeCheckRecovery (w : World) : Writing :=
  let ota := recoveryInfo t.storages
  let a := otaPartitionUpdatePrepare fw ota false (otaBreakpointInit fw (.start w))
  match t.verdict with
  | .unreadable => (otaBreakpointExit fw a).writing
  | .refused => (otaBreakpointExit fw (otaBreakpointUpdateState fw a .writingImgFail)).writing
  | .accepted =>
    let a := otaUpgradeCheck fw w ota (img.changed a.bp)
    let bp := { a.bp with
      backendType := t.backendType, newVersion := img.versionCode, dataChecksum := img.checksum }
    let r := otaWriteTempImg fw img t
      (otaBreakpointUpdateState fw { a with bp } .writingImg).writing
    match r.2 with
    | none | some 0 => r.1
    | some err =>
      let x := if err ≠ eio ∧ err ≠ eagain then
          r.1.call fun a => otaBreakpointUpdateState fw a .writingImgFail
        else r.1
      x.call (otaBreakpointExit fw)

end

/-! ## The device -/

/-- The partitions that are prepared for an upgrade with recovery. -/
def PartitionEntry.isTemp (part : PartitionEntry) : Bool :=
  part.type = partitionTypeTemp ∨ part.fileId = partitionFileIdOtaTemp

/-- A firmware that keeps its record over a reboot, its temp partition, and an image that is not
larger. -/
structure Setup where
  fw : Firmware
  wellFormed : fw.WellFormed
  rebootResume : fw.rebootResume = true
  part : PartitionEntry
  only : fw.parts.filter PartitionEntry.isTemp = [part]
  type_eq : part.type = partitionTypeTemp
  fileId_eq : part.fileId = partitionFileIdOtaTemp
  img : OtaImage
  size_le : img.size ≤ part.size

/-- The world, the operations on the chip of the temp partition so far, and what the chip held
whenever the temp file was noted as written. -/
structure Device where
  world : World
  ops : List Op
  written : List Image

/-- The operations of a change on a chip. -/
def Change.ops (storageId : Fin 16) : Change → List Op
  | .event (.erase _ part op) => if part.storageId = storageId then [op] else []
  | .event _ => []
  | .program id op => if id = storageId then [op] else []
  | .writeDone _ => []

namespace Setup

variable (S : Setup)

/-- The chip of the temp partition. -/
def chip (w : World) : Image :=
  w.flash S.part.storageId

def change (d : Device) (c : Change) : Device where
  world := c.apply d.world
  ops := d.ops ++ c.ops S.part.storageId
  written := match c with
    | .writeDone _ => d.written ++ [S.chip d.world]
    | _ => d.written

/-- What is attempted: `ota_upgrade_init` with the flags of a resumed upgrade, or
`ota_upgrade_check`. Power may be lost behind any number of changes. -/
inductive Label
  | init (storages : List (Fin 16)) (flagSkipInitErase : Bool) (cut : Option Nat)
  | check (t : Transfer) (cut : Option Nat)

/-- The changes of an attempt that goes through. -/
def changes (w : World) : Label → List Change
  | .init storages flagSkipInitErase _ =>
    (otaUpgradeInit S.fw w ⟨storages, true, false, flagSkipInitErase, true⟩).writing.changes
  | .check t _ => (otaUpgradeCheckRecovery S.fw S.img t w).changes

/-- A power loss clears the RAM. -/
def Label.outcome (changes : List Change) (d : Device) : Label → Device
  | .init _ _ none | .check _ none => changes.foldl S.change d
  | .init _ _ (some n) | .check _ (some n) =>
    let d := (changes.take n).foldl S.change d
    { d with world := { d.world with otaBp := zeroBreakpoint } }

def step (d : Device) (label : Label) : Device :=
  label.outcome S (S.changes d.world label) d

/-- What the temp partition holds of the image: all of it, without the first bytes. -/
def stored : List UInt8 :=
  Pipeline.blankHeader (NorFlash.read S.img.bytes 0 S.img.size)

end Setup

end SpeakerFirmware.Ota.Upgrade
