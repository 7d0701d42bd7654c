/-
# Writing a file while it is being received

`ota_write_file_normal` writes one file of an upgrade. It starts `ota_rx_thread`, which
reads the file from the backend in segments and puts them into a ring buffer, and itself
takes what is in the ring, in whole sectors, and writes it to the partition. Two
semaphores wake the two sides: `rx_get_sem` when bytes were put, `rx_put_sem` when bytes
were taken out. At the end, and after an error, `ota_rx_stop` asks the thread to stop and
waits until it has.

The two threads take turns in any order. One step is the code up to the next access to
something the other side uses: a semaphore, a flag, `rx_errno`, or a counter of the ring.
The copying in `acts_ringbuf_put` and `acts_ringbuf_get` needs no steps of its own, since
the other side looks at the bytes only when the counter has moved.

What the backend and the storage answer is part of the `Job`: which calls fail is a
function of the offset, and no offset is asked for twice in one call.
-/

import SpeakerFirmware.Lib.Interleaving
import SpeakerFirmware.Utils.ActsRingbuf

namespace SpeakerFirmware.Ota.Pipeline

open NorFlash (Image)
open Errno
open Utils

/-! ## Semaphores of the kernel -/

/-- `k_sem`. Each semaphore here has one thread that takes it: `waiting` says that this thread
is in `wait_q`. -/
structure KSem where
  count : Nat
  limit : Nat
  waiting : Bool
  deriving DecidableEq, Repr

/-- `k_sem_init`, or `k_sem_reset` while no thread waits. -/
def kSemInit (limit : Nat) : KSem :=
  ⟨0, limit, false⟩

/-- `k_sem_give`: a waiting thread is made ready, and has then taken the semaphore. -/
def kSemGive (sem : KSem) : KSem :=
  if sem.waiting then { sem with waiting := false }
  else { sem with count := if sem.count ≠ sem.limit then sem.count + 1 else sem.count }

/-- `k_sem_take` with `K_FOREVER`; on `false` the thread waits. -/
def kSemTake (sem : KSem) : KSem × Bool :=
  if sem.count > 0 then ({ sem with count := sem.count - 1 }, true)
  else ({ sem with waiting := true }, false)

/-! ## One call -/

def otaEraseAlignSize : Nat := 4096

/-- What a call of `ota_write_file_normal` works on, and the answers it gets. -/
structure Job where
  /-- `CONFIG_OTA_BACKEND_BLUETOOTH`, which decides on the sizes of the buffers. -/
  configBluetooth : Bool
  isBtBackend : Bool
  /-- The file is read from the image in the temp partition. -/
  readLocalImage : Bool
  /-- `OTA_BACKEND_IOCTL_GET_MAX_SIZE`, or the default: positive for every backend. -/
  maxReqSize : Nat
  maxReqSize_pos : 0 < maxReqSize
  /-- `ota_calc_write_seg_size` for a data buffer of 4096 bytes. -/
  segSize : Nat
  segSize_pos : 0 < segSize
  segSize_le : segSize ≤ 4096
  /-- `ota_image_get_file_offset`, unless the image has no such file. -/
  imgFileOffset : Option Nat
  fileLen : Nat
  startFileOffs : Nat
  /-- `file->offset`. -/
  fileOffset : Nat
  /-- The file is `PARTITION_FILE_ID_OTA_TEMP`. -/
  isTemp : Bool
  partFound : Bool
  storageFound : Bool
  /-- The recovery app writes to a partition with `PARTITION_FLAG_ENABLE_ENCRYPTION`. -/
  encrypted : Bool
  /-- What the backend delivers, by the offset in the image. -/
  image : Image
  prepareFails : Nat → Bool
  readFails : Nat → Bool
  /-- The addresses at which `ota_storage_write` returns an error. -/
  storageFails : Nat → Bool
  /-- `consume_time`: the milliseconds between the two calls of `k_uptime_get_32`. -/
  consumeTime : UInt32

namespace Job

variable (job : Job)

/-- `OTA_RX_BUFSIZE`. -/
def rxBufsize : Nat :=
  if job.configBluetooth then 78 * 1024 else 16 * 1024

/-- `OTA_IN_BUFSIZE`. -/
def inBufsize : Nat :=
  if job.configBluetooth then 40 * 1024 else 16 * 1024

/-- The rx thread announces its requests with `ota_image_read_prepare`. -/
def prepares : Bool :=
  job.isBtBackend && !job.readLocalImage

end Job

/-- What a call of `ota_write_file_partition` does: the storage writes that succeed, its result,
and whether it has called `ota_rx_stop` itself. -/
structure Written where
  writes : List (Nat × List UInt8)
  ret : Int
  stopped : Bool

/-- The loop over pieces of 32 bytes for an encrypted partition. -/
def writeEncrypted (job : Job) : Nat → Nat → List UInt8 → Written
  | 0, _, _ => ⟨[], 0, false⟩
  | pieces + 1, addr, data =>
    if job.storageFails addr then ⟨[], efault, false⟩
    else
      let rest := writeEncrypted job pieces (addr + 32) (data.drop 32)
      { rest with writes := (addr, data.take 32) :: rest.writes }

/-- `memset(data, 0xFF, 4)`, as far as the data is written. -/
def blankHeader (data : List UInt8) : List UInt8 :=
  List.replicate (min 4 data.length) 0xff ++ data.drop 4

section

variable (job : Job)

/-- What is handed to the storage. The first bytes of the temp image are left out: its header
becomes valid later. -/
def Job.stored (offs : Nat) (data : List UInt8) : List UInt8 :=
  if job.isTemp && offs == 0 then blankHeader data else data

def otaWriteFilePartition (offs : Nat) (data : List UInt8) : Written :=
  let addr := job.fileOffset + offs
  if !job.partFound || !job.storageFound then ⟨[], einval, false⟩
  else if job.encrypted then
    if data.length % 32 ≠ 0 then ⟨[], einval, false⟩
    else writeEncrypted job (data.length / 32) (addr ||| 2 ^ 31) data
  else if job.storageFails addr then ⟨[], eio, true⟩
  else ⟨[(addr, job.stored offs data)], 0, false⟩

/-! ## The two threads -/

/-- Where `ota_rx_thread` is: at the head of the outer loop, in `ota_image_read_prepare`, at the
head of the inner loop, at the test of the space, in `os_sem_take` on `rx_put_sem`, waiting
there, in `acts_ringbuf_put`, in `os_sem_give` behind it, at the last `os_sem_give`, in front of
`thread_terminated = true`, or at its end. -/
inductive RxPc
  | loopHead | prepare | segment | checkSpace | takePut | pendedPut | put | giveGet | exitGive
  | terminate | done
  deriving DecidableEq, Repr

/-- Why `ota_write_file_normal` calls `ota_rx_stop`. -/
inductive StopReason
  | finished | readFailed | getFailed | writeFailed
  deriving DecidableEq, Repr

/-- Where `ota_write_file_normal` is: at the head of the loop, in `os_sem_take` on `rx_get_sem`,
waiting there, at the test of `rx_errno`, at `acts_ringbuf_length`, at `acts_ringbuf_get`, in
`os_sem_give` behind it, in `ota_write_file_partition`, in `ota_rx_stop` in front of the flag or
in its loop, with the number of calls of it that are to follow, in the exception of a division by
zero, or at its end. -/
inductive WriterPc
  | loopHead | takeGet | pendedGet | checkErrno | readLength | get | givePut | write
  | stop (more : Nat) (reason : StopReason)
  | waitRx (more : Nat) (reason : StopReason)
  | trapped
  | returned (ret : Int)
  deriving DecidableEq, Repr

/-- The calls that leave the pipeline: `ota_breakpoint_update_file_state` with
`OTA_BP_FILE_STATE_WRITING`, and `ota_write_file_partition` with its result. -/
inductive Action
  | record (offs : Nat) (force : Bool)
  | write (offs : Nat) (data : List UInt8) (ret : Int)
  deriving DecidableEq, Repr

/-- `ota_rx_info` and the local variables of both threads. -/
structure State where
  offset : Nat
  size : Nat
  rxErrno : Int
  threadTerminated : Bool
  threadNeedTerminated : Bool
  getSem : KSem
  putSem : KSem
  rbuf : ActsRingbuf
  -- `ota_rx_thread`
  rxPc : RxPc
  reqSize : Nat
  rlen : Nat
  dataBuf : List UInt8
  -- `ota_write_file_normal`
  writerPc : WriterPc
  offs : Nat
  wlen : Nat
  inSize : Nat
  noWait : Bool
  isRecord : Bool
  inBuf : List UInt8
  trace : List Action

/-- `ota_write_file_normal` up to the loop, with `ota_rx_start`. Nothing is started for a file
that is complete or that the image does not have. -/
def Job.start : State where
  offset := job.imgFileOffset.getD 0 + job.startFileOffs
  size := job.fileLen - job.startFileOffs
  rxErrno := 0
  threadTerminated := false
  threadNeedTerminated := false
  getSem := kSemInit 5
  putSem := kSemInit 1
  rbuf := actsRingbufReset (actsRingbufInit (fun _ => 0) job.rxBufsize)
  rxPc := if job.startFileOffs ≥ job.fileLen ∨ job.imgFileOffset = none then .done else .loopHead
  reqSize := 0
  rlen := 0
  dataBuf := []
  writerPc :=
    if job.startFileOffs ≥ job.fileLen ∨
      job.imgFileOffset = none then .returned einval else .loopHead
  offs := job.startFileOffs
  wlen := job.fileLen - job.startFileOffs
  inSize := 0
  noWait := false
  isRecord := false
  inBuf := []
  trace := []

/-- The next step of `ota_rx_thread`. -/
def otaRxThread (s : State) : State :=
  match s.rxPc with
  | .loopHead =>
    if s.size > 0 ∧ s.rxErrno = 0 ∧ s.threadNeedTerminated = false then
      { s with
        reqSize := if s.size > job.maxReqSize then job.maxReqSize else s.size
        rxPc := if job.prepares then .prepare else .segment }
    else { s with rxPc := .exitGive }
  | .prepare =>
    -- the inner loop is entered all the same
    { s with rxErrno := if job.prepareFails s.offset then eagain else s.rxErrno, rxPc := .segment }
  | .segment =>
    if s.reqSize > 0 then
      let rlen := if s.reqSize < job.segSize then s.reqSize else job.segSize
      if job.readFails s.offset then { s with rlen := rlen, rxErrno := eagain, rxPc := .loopHead }
      else
        { s with rlen := rlen, dataBuf := NorFlash.read job.image s.offset rlen, rxPc :=
          .checkSpace }
    else { s with rxPc := .loopHead }
  | .checkSpace =>
    if actsRingbufSpace s.rbuf < s.rlen then { s with rxPc := .takePut }
      else { s with rxPc := .put }
  | .takePut =>
    let take := kSemTake s.putSem
    { s with putSem := take.1, rxPc := if take.2 then .checkSpace else .pendedPut }
  | .pendedPut => if s.putSem.waiting then s else { s with rxPc := .checkSpace }
  | .put => { s with rbuf := (actsRingbufPut s.rbuf s.dataBuf).1, rxPc := .giveGet }
  | .giveGet =>
    { s with
      getSem := kSemGive s.getSem
      reqSize := s.reqSize - s.rlen
      offset := s.offset + s.rlen
      size := s.size - s.rlen
      rxPc := .segment }
  | .exitGive => { s with getSem := kSemGive s.getSem, rxPc := .terminate }
  | .terminate => { s with threadTerminated := true, rxPc := .done }
  | .done => s

/-- `ota_write_file_normal` behind `acts_ringbuf_length`: how much is taken, and the note in the
breakpoint record. -/
def takeChunk (s : State) (length : Nat) : State :=
  let noWait := decide (length > job.inBufsize ∧ length ≥ job.inBufsize * 2)
  let most := if length > job.inBufsize then job.inBufsize else length
  if most < s.wlen ∧ most < otaEraseAlignSize then
    { s with noWait := noWait, inSize := most, writerPc := .loopHead }
  else
    let inSize := if most < s.wlen then most / otaEraseAlignSize * otaEraseAlignSize else most
    let force := !s.isRecord || s.wlen == inSize
    { s with
      noWait := noWait
      inSize := inSize
      isRecord := s.isRecord || job.isTemp
      trace := if job.isTemp then s.trace ++ [.record s.offs force] else s.trace
      writerPc := .get }

/-- What `ota_write_file_normal` does when its last `ota_rx_stop` is over. -/
def finish (s : State) : StopReason → State
  | .finished => { s with writerPc := .returned 0 }
  | .readFailed =>
    { s with trace := s.trace ++ [.record s.offs true], writerPc := .returned s.rxErrno }
  | .getFailed => { s with writerPc := .returned eagain }
  | .writeFailed => { s with writerPc := .returned eio }

/-- The next step of `ota_write_file_normal`. -/
def otaWriteFileNormal (s : State) : State :=
  match s.writerPc with
  | .loopHead =>
    if s.wlen > 0 then { s with writerPc := if s.noWait then .readLength else .takeGet }
    else
      -- the log message behind the loop has `file_len / consume_time`
      { s with writerPc := if job.consumeTime = 0 then .trapped else .stop 0 .finished }
  | .takeGet =>
    let take := kSemTake s.getSem
    { s with getSem := take.1, writerPc := if take.2 then .checkErrno else .pendedGet }
  | .pendedGet => if s.getSem.waiting then s else { s with writerPc := .checkErrno }
  | .checkErrno =>
    if s.rxErrno ≠ 0 then { s with writerPc := .stop 0 .readFailed }
    else { s with writerPc := .readLength }
  | .readLength => takeChunk job s (actsRingbufLength s.rbuf)
  | .get =>
    let got := actsRingbufGet s.rbuf s.inSize
    { s with rbuf := got.1, inBuf := got.2, writerPc := .givePut }
  | .givePut =>
    { s with
      putSem := kSemGive s.putSem
      writerPc := if s.inBuf.length ≠ s.inSize then .stop 0 .getFailed else .write }
  | .write =>
    let written := otaWriteFilePartition job s.offs s.inBuf
    let trace := s.trace ++ [Action.write s.offs s.inBuf written.ret]
    if written.ret ≠ 0 then
      { s with trace := trace, writerPc := .stop (if written.stopped then 1 else 0) .writeFailed }
    else
      { s with
        trace := trace
        offs := s.offs + s.inSize
        wlen := s.wlen - s.inSize
        writerPc := .loopHead }
  | .stop more reason => { s with threadNeedTerminated := true, writerPc := .waitRx more reason }
  | .waitRx more reason =>
    if s.threadTerminated = false then s
    else
      match more with
      | 0 => finish s reason
      | more + 1 => { s with writerPc := .stop more reason }
  | .trapped | .returned _ => s

inductive Thread
  | rx | writer
  deriving DecidableEq, Repr

def step : Thread → State → State
  | .rx => otaRxThread job
  | .writer => otaWriteFileNormal job

end

/-- The call under a schedule. -/
def Job.run (job : Job) (sched : Nat → Thread) : Nat → State :=
  Interleaving.run (step job) sched job.start

end SpeakerFirmware.Ota.Pipeline
