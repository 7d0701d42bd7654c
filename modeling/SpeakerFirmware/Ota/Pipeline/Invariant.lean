/-
# Where the bytes are

Every byte of the file is in one of four places: still with the backend, in the ring, in
the chunk that the writer has taken out, or handed to the partition. The counters of the
ring say how many are behind each step of the way.

What holds is written down for each place in the code of the two threads, `RxAt` and
`WriterAt`. A thread keeps its own assertions when it moves. It keeps those of the other
side because of the little that it changes there (`RxFrame` and `WriterFrame`): the rx
thread only moves the tail of the ring, the writer only moves the head.
-/

import SpeakerFirmware.Ota.Pipeline.Model

namespace SpeakerFirmware.Ota.Pipeline

open NorFlash (length_read read_add)
open Utils Nat

variable {job : Job} {s s' : State}

/-! ## The job -/

namespace Job

variable (job : Job)

/-- The bytes of the file that are to be written. -/
def len : Nat :=
  job.fileLen - job.startFileOffs

/-- Where they start in the image. -/
def base : Nat :=
  job.imgFileOffset.getD 0 + job.startFileOffs

/-- There is something to write, and the image has the file. -/
def Startable : Prop :=
  job.startFileOffs < job.fileLen ∧ job.imgFileOffset ≠ none

theorem inBufsize_mod : job.inBufsize % 4096 = 0 := by
  unfold inBufsize
  split <;> rfl

theorem buffers : 8192 ≤ job.inBufsize ∧ 8192 ≤ job.rxBufsize ∧
    job.rxBufsize < 2 * job.inBufsize := by
  unfold inBufsize rxBufsize
  split <;> decide

end Job

/-! ## What the threads do to each other -/

/-- What a step of the rx thread leaves to the writer. -/
structure RxFrame (s s' : State) : Prop where
  writerPc : s'.writerPc = s.writerPc
  offs : s'.offs = s.offs
  wlen : s'.wlen = s.wlen
  inSize : s'.inSize = s.inSize
  noWait : s'.noWait = s.noWait
  inBuf : s'.inBuf = s.inBuf
  trace : s'.trace = s.trace
  needTerminated : s'.threadNeedTerminated = s.threadNeedTerminated
  head : s'.rbuf.head = s.rbuf.head
  tail : s.rbuf.tail ≤ s'.rbuf.tail

/-- What a step of the writer leaves to the rx thread. -/
structure WriterFrame (s s' : State) : Prop where
  rxPc : s'.rxPc = s.rxPc
  offset : s'.offset = s.offset
  size : s'.size = s.size
  reqSize : s'.reqSize = s.reqSize
  rlen : s'.rlen = s.rlen
  dataBuf : s'.dataBuf = s.dataBuf
  rxErrno : s'.rxErrno = s.rxErrno
  terminated : s'.threadTerminated = s.threadTerminated
  needTerminated : s.threadNeedTerminated = true → s'.threadNeedTerminated = true
  rbufSize : s'.rbuf.size = s.rbuf.size
  head : s.rbuf.head ≤ s'.rbuf.head
  tail : s'.rbuf.tail = s.rbuf.tail

theorem tail_le_put (rb : ActsRingbuf) (bytes : List UInt8) :
    (actsRingbufPut rb bytes).1.head = rb.head ∧ rb.tail ≤ (actsRingbufPut rb bytes).1.tail := by
  rw [actsRingbufPut]
  split
  · exact ⟨rfl, le_refl _⟩
  · exact ⟨rfl, le_add_right _ _⟩

theorem rxFrame (job : Job) (s : State) : RxFrame s (otaRxThread job s) := by
  have hput := tail_le_put s.rbuf s.dataBuf
  cases hpc : s.rxPc <;> simp only [otaRxThread, hpc]
  case put => exact ⟨rfl, rfl, rfl, rfl, rfl, rfl, rfl, rfl, hput.1, hput.2⟩
  all_goals
    repeat' split
    all_goals exact ⟨rfl, rfl, rfl, rfl, rfl, rfl, rfl, rfl, rfl, le_refl _⟩

theorem writerFrame (job : Job) (s : State) : WriterFrame s (otaWriteFileNormal job s) := by
  cases hpc : s.writerPc <;> simp only [otaWriteFileNormal, takeChunk, hpc]
  case get =>
    exact ⟨rfl, rfl, rfl, rfl, rfl, rfl, rfl, rfl, id, rfl, le_add_right _ _, rfl⟩
  case stop =>
    exact ⟨rfl, rfl, rfl, rfl, rfl, rfl, rfl, rfl, fun _ => rfl, rfl, le_refl _, rfl⟩
  case waitRx more reason =>
    cases reason <;> repeat' split
    all_goals exact ⟨rfl, rfl, rfl, rfl, rfl, rfl, rfl, rfl, id, rfl, le_refl _, rfl⟩
  all_goals
    repeat' split
    all_goals exact ⟨rfl, rfl, rfl, rfl, rfl, rfl, rfl, rfl, id, rfl, le_refl _, rfl⟩

/-! ## The ring -/

/-- The ring holds the bytes of the file between its two counters. -/
structure RingInv (job : Job) (s : State) : Prop where
  size_eq : s.rbuf.size = job.rxBufsize
  contains : Contains s.rbuf
    (NorFlash.read job.image (job.base + s.rbuf.head) (s.rbuf.tail - s.rbuf.head))

namespace RingInv

section

variable (h : RingInv job s)
include h

theorem head_le : s.rbuf.head ≤ s.rbuf.tail := by
  have htail := h.contains.tail_eq
  rw [length_read] at htail
  omega

theorem length_le : s.rbuf.tail - s.rbuf.head ≤ job.rxBufsize := by
  have hle := h.contains.le_size
  rwa [length_read, h.size_eq] at hle

theorem space_eq : actsRingbufSpace s.rbuf = job.rxBufsize - (s.rbuf.tail - s.rbuf.head) := by
  rw [actsRingbufSpace, h.size_eq]

/-- Putting the next bytes of the file. -/
theorem put {offset n : Nat} (hoffset : offset = job.base + s.rbuf.tail)
    (hroom : n ≤ actsRingbufSpace s.rbuf) {bytes : List UInt8}
    (hbytes : bytes = NorFlash.read job.image offset n) :
    (actsRingbufPut s.rbuf bytes).1.tail = s.rbuf.tail + n ∧
    Contains (actsRingbufPut s.rbuf bytes).1
      (NorFlash.read job.image (job.base + s.rbuf.head) (s.rbuf.tail + n - s.rbuf.head)) := by
  have hlen : bytes.length = n := by rw [hbytes, length_read]
  rw [← hlen] at hroom
  refine ⟨hlen ▸ (counters_put s.rbuf hroom).2, ?_⟩
  have hread := read_add job.image (job.base + s.rbuf.head) (s.rbuf.tail - s.rbuf.head) n
  have hle := h.head_le
  have hnext : job.base + s.rbuf.head + (s.rbuf.tail - s.rbuf.head) = offset := by omega
  have hmore : s.rbuf.tail - s.rbuf.head + n = s.rbuf.tail + n - s.rbuf.head := by omega
  rw [hnext, hmore, ← hbytes] at hread
  rw [hread]
  exact h.contains.put hroom

/-- What is taken out are the next bytes of the file. -/
theorem get {n : Nat} (hn : s.rbuf.head + n ≤ s.rbuf.tail) :
    (actsRingbufGet s.rbuf n).2 = NorFlash.read job.image (job.base + s.rbuf.head) n ∧
    (actsRingbufGet s.rbuf n).1.head = s.rbuf.head + n ∧
    Contains (actsRingbufGet s.rbuf n).1
      (NorFlash.read job.image (job.base + (s.rbuf.head + n))
        (s.rbuf.tail - (s.rbuf.head + n))) := by
  have hread := read_add job.image (job.base + s.rbuf.head) n (s.rbuf.tail - (s.rbuf.head + n))
  have hlen : n + (s.rbuf.tail - (s.rbuf.head + n)) = s.rbuf.tail - s.rbuf.head := by omega
  have hcontains := h.contains
  rw [← hlen, hread] at hcontains
  have hfront : n ≤ (NorFlash.read job.image (job.base + s.rbuf.head) n ++
      NorFlash.read job.image (job.base + s.rbuf.head + n)
        (s.rbuf.tail - (s.rbuf.head + n))).length := by
    rw [List.length_append, length_read]
    exact le_add_right _ _
  obtain ⟨hbytes, hrest⟩ := hcontains.get hfront
  rw [List.take_left' (length_read _ _ _)] at hbytes
  rw [List.drop_left' (length_read _ _ _), add_assoc] at hrest
  have hhead : (actsRingbufGet s.rbuf n).1.head =
      s.rbuf.head + (actsRingbufGet s.rbuf n).2.length := rfl
  rw [hbytes, length_read] at hhead
  exact ⟨hbytes, hhead, hrest⟩

end

end RingInv

/-! ## The rx thread -/

/-- All but the last `justPut` bytes in the ring are accounted for. -/
def Received (job : Job) (s : State) (justPut : Nat) : Prop :=
  s.rbuf.tail + s.size = job.len + justPut ∧ s.offset + justPut = job.base + s.rbuf.tail

/-- The segment at hand is part of the request, and that of the rest of the file. -/
def Requested (s : State) : Prop :=
  0 < s.rlen ∧ s.rlen ≤ s.reqSize ∧ s.rlen ≤ 4096 ∧ s.reqSize ≤ s.size

/-- The segment at hand has been read. -/
def Loaded (job : Job) (s : State) : Prop :=
  Received job s 0 ∧ Requested s ∧ s.dataBuf = NorFlash.read job.image s.offset s.rlen

/-- There is nothing more to receive. -/
def Over (job : Job) (s : State) : Prop :=
  Received job s 0 ∧ (s.size = 0 ∨ s.rxErrno ≠ 0 ∨ s.threadNeedTerminated = true)

/-- What holds at each place in `ota_rx_thread`. -/
def RxAt (job : Job) (s : State) : RxPc → Prop
  | .loopHead => Received job s 0
  | .prepare => Received job s 0 ∧ 0 < s.reqSize ∧ s.reqSize ≤ s.size
  | .segment => Received job s 0 ∧ s.reqSize ≤ s.size
  | .checkSpace | .takePut | .pendedPut => Loaded job s
  | .put => Loaded job s ∧ s.rlen ≤ actsRingbufSpace s.rbuf
  | .giveGet => Received job s s.rlen ∧ Requested s
  | .exitGive | .terminate | .done => Over job s

/-- The rx thread keeps its assertions. -/
theorem RxAt.rx (h : RxAt job s s.rxPc) (hring : RingInv job s) :
    RxAt job (otaRxThread job s) (otaRxThread job s).rxPc := by
  cases hpc : s.rxPc <;> simp only [hpc, RxAt] at h <;> simp only [otaRxThread, hpc]
  case loopHead =>
    have hmax := job.maxReqSize_pos
    split
    case isTrue hgo =>
      have hreq : 0 < (if s.size > job.maxReqSize then job.maxReqSize else s.size) ∧
          (if s.size > job.maxReqSize then job.maxReqSize else s.size) ≤ s.size := by
        split <;> omega
      cases job.prepares
      · exact ⟨h, hreq.2⟩
      · exact ⟨h, hreq⟩
    case isFalse hend =>
      refine ⟨h, ?_⟩
      dsimp only
      grind
  case prepare => exact ⟨h.1, h.2.2⟩
  case segment =>
    have hpos := job.segSize_pos
    have hle := job.segSize_le
    split
    case isTrue hgo =>
      split
      · exact h.1
      · have hreq := h.2
        refine ⟨h.1, ?_, rfl⟩
        dsimp only [Requested]
        grind
    case isFalse => exact h.1
  case checkSpace =>
    split
    · exact h
    · exact ⟨h, not_lt.mp ‹_›⟩
  case takePut =>
    split <;> exact h
  case pendedPut =>
    split
    · rw [hpc]
      exact h
    · exact h
  case put =>
    obtain ⟨⟨⟨hmoved, hplace⟩, hreq, hdata⟩, hroom⟩ := h
    have htail := (hring.put hplace hroom hdata).1
    refine ⟨⟨?_, ?_⟩, hreq⟩
    · dsimp only
      omega
    · dsimp only at hplace ⊢
      omega
  case giveGet =>
    obtain ⟨⟨hmoved, hplace⟩, hpos, hle, hsector, hreq⟩ := h
    refine ⟨⟨?_, ?_⟩, ?_⟩ <;> dsimp only <;> omega
  case exitGive => exact h
  case terminate => exact h
  case done => exact h

/-- The writer keeps them as well. -/
theorem RxAt.writer (hframe : WriterFrame s s') {pc : RxPc} (h : RxAt job s pc) :
    RxAt job s' pc := by
  have hspace : actsRingbufSpace s.rbuf ≤ actsRingbufSpace s'.rbuf := by
    have hhead := hframe.head
    rw [actsRingbufSpace, actsRingbufSpace, hframe.rbufSize, hframe.tail]
    omega
  have hneed := hframe.needTerminated
  cases pc <;> simp only [RxAt, Loaded, Over, Received, Requested, hframe.tail, hframe.size,
    hframe.offset,
    hframe.reqSize, hframe.rlen, hframe.dataBuf, hframe.rxErrno] at h ⊢
  case put => exact ⟨h.1, h.2.trans hspace⟩
  case exitGive | terminate | done => exact ⟨h.1, h.2.imp_right fun h => h.imp_right hneed⟩
  all_goals exact h

/-- There are never more bytes in the ring than the file has. -/
theorem RxAt.tail_le {pc : RxPc} (h : RxAt job s pc) : s.rbuf.tail ≤ job.len := by
  cases pc <;> simp only [RxAt, Loaded, Over, Received, Requested] at h <;> omega

/-- `thread_terminated` is set at the end of the thread. -/
def TerminatedInv (s : State) : Prop :=
  s.threadTerminated = true ↔ s.rxPc = .done

theorem TerminatedInv.rx (h : TerminatedInv s) : TerminatedInv (otaRxThread job s) := by
  unfold TerminatedInv at *
  cases hpc : s.rxPc <;> simp only [otaRxThread, hpc] <;> grind

/-! ## The writer -/

/-- All but the last `taken` bytes that are out of the ring have been written. -/
def Placed (job : Job) (s : State) (taken : Nat) : Prop :=
  s.wlen + s.rbuf.head = job.len + taken ∧ s.offs + taken = job.startFileOffs + s.rbuf.head ∧
    s.threadNeedTerminated = false

/-- A chunk is the rest of the file, or whole sectors of it. -/
def Chunk (s : State) : Prop :=
  0 < s.inSize ∧ s.inSize ≤ s.wlen ∧ (s.inSize < s.wlen → s.inSize % 4096 = 0)

/-- The chunk at hand is out of the ring. -/
def Taken (job : Job) (s : State) : Prop :=
  Placed job s s.inSize ∧ Chunk s ∧
    s.inBuf = NorFlash.read job.image (job.imgFileOffset.getD 0 + s.offs) s.inSize

/-- What holds at each place in `ota_write_file_normal`. -/
def WriterAt (job : Job) (s : State) : WriterPc → Prop
  | .loopHead => Placed job s 0
  | .takeGet | .pendedGet | .checkErrno | .readLength => Placed job s 0 ∧ 0 < s.wlen
  | .get => Placed job s 0 ∧ Chunk s ∧ s.rbuf.head + s.inSize ≤ s.rbuf.tail
  | .givePut | .write => Taken job s
  | .stop _ .finished | .waitRx _ .finished => s.rbuf.head = job.len
  | .stop _ _ | .waitRx _ _ | .trapped | .returned _ => True

/-- The rx thread keeps the writer's assertions. -/
theorem WriterAt.rx (hframe : RxFrame s s') {pc : WriterPc} (h : WriterAt job s pc) :
    WriterAt job s' pc := by
  have htail := hframe.tail
  cases pc
  case stop more reason | waitRx more reason =>
    cases reason <;> simp only [WriterAt, hframe.head] at h ⊢
    exact h
  all_goals
    simp only [WriterAt, Placed, Taken, Chunk, hframe.head, hframe.offs, hframe.wlen, hframe.inSize,
      hframe.inBuf, hframe.needTerminated] at h ⊢
  case get => exact ⟨h.1, h.2.1, h.2.2.trans htail⟩
  all_goals exact h

/-! ### The size of a chunk -/

/-- What the writer decides when it has looked at the ring. -/
inductive Decision (job : Job) (s : State) : State → Prop
  /-- There is less than a sector, and the file is longer. -/
  | wait (inSize : Nat) (hless : s.rbuf.tail - s.rbuf.head < 4096)
      (hmore : s.rbuf.tail - s.rbuf.head < s.wlen) :
      Decision job s { s with noWait := false, inSize := inSize, writerPc := .loopHead }
  /-- A chunk is taken: a full buffer, or what there is in whole sectors, or the rest. -/
  | take (inSize : Nat) (isRecord : Bool) (trace : List Action)
      (htrace : trace = s.trace ∨ ∃ force, trace = s.trace ++ [.record s.offs force])
      (hchunk : 0 < inSize ∧ inSize ≤ s.wlen ∧ (inSize < s.wlen → inSize % 4096 = 0))
      (hle : inSize ≤ s.rbuf.tail - s.rbuf.head)
      (hfull : job.inBufsize < s.rbuf.tail - s.rbuf.head → inSize = job.inBufsize)
      (hrest : s.rbuf.tail - s.rbuf.head ≤ job.inBufsize →
        s.rbuf.tail - s.rbuf.head < inSize + 4096 ∧
        (s.rbuf.tail - s.rbuf.head = s.wlen → inSize = s.wlen)) :
      Decision job s
        { s with noWait := false, inSize := inSize, isRecord := isRecord, trace :=
          trace, writerPc := .get }

theorem decision (hring : RingInv job s) (hlen : s.rbuf.tail - s.rbuf.head ≤ s.wlen)
    (hpos : 0 < s.wlen) :
    Decision job s (takeChunk job s (actsRingbufLength s.rbuf)) := by
  have hbuf := job.buffers
  have hmod := job.inBufsize_mod
  have hle := hring.length_le
  rw [takeChunk, actsRingbufLength, otaEraseAlignSize]
  have hwait : decide (s.rbuf.tail - s.rbuf.head > job.inBufsize ∧
      s.rbuf.tail - s.rbuf.head ≥ job.inBufsize * 2) = false := by
    rw [decide_eq_false_iff_not]
    omega
  dsimp only
  rw [hwait]
  generalize hmost : (if s.rbuf.tail - s.rbuf.head > job.inBufsize then job.inBufsize
    else s.rbuf.tail - s.rbuf.head) = most
  split
  case isTrue hless =>
    refine .wait most ?_ ?_ <;> split at hmost <;> omega
  case isFalse hmany =>
    refine .take _ _ _ ?_ ?_ ?_ ?_ ?_
    · split
      · exact .inr ⟨_, rfl⟩
      · exact .inl rfl
    all_goals split at hmost <;> split <;> omega

/-- The ring has at most what is still to be written. -/
theorem length_le_wlen (hrx : RxAt job s s.rxPc) (h : Placed job s 0) :
    s.rbuf.tail - s.rbuf.head ≤ s.wlen := by
  have htail := hrx.tail_le
  have hgoal := h.1
  omega

section

variable (h : WriterAt job s s.writerPc) (hring : RingInv job s) (hrx : RxAt job s s.rxPc)
  (hnowait : s.noWait = false)
include h hring hrx hnowait

/-- The writer keeps its assertions. -/
theorem WriterAt.writer :
    WriterAt job (otaWriteFileNormal job s) (otaWriteFileNormal job s).writerPc := by
  cases hpc : s.writerPc
  case stop more reason =>
    simp only [hpc] at h
    simp only [otaWriteFileNormal, hpc]
    cases reason <;> exact h
  case waitRx more reason =>
    simp only [hpc] at h
    simp only [otaWriteFileNormal, hpc]
    split
    · rw [hpc]
      exact h
    · cases more <;> cases reason <;> first | exact h | exact trivial
  all_goals
    simp only [hpc, WriterAt] at h
    simp only [otaWriteFileNormal, hpc]
  case loopHead =>
    rw [hnowait]
    split
    · exact ⟨h, ‹_›⟩
    · have hgoal := h.1
      have hhead : s.rbuf.head = job.len := by omega
      split
      · exact trivial
      · exact hhead
  case takeGet => split <;> exact h
  case pendedGet =>
    split
    · rw [hpc]
      exact h
    · exact h
  case checkErrno =>
    split
    · exact trivial
    · exact h
  case readLength =>
    have hdecision := decision hring (length_le_wlen hrx h.1) h.2
    generalize takeChunk job s (actsRingbufLength s.rbuf) = next at hdecision
    cases hdecision with
    | wait inSize _ _ => exact h.1
    | take inSize isRecord trace _ hchunk hle _ _ =>
      have hhead := hring.head_le
      refine ⟨h.1, hchunk, ?_⟩
      dsimp only
      omega
  case get =>
    obtain ⟨⟨hgoal, hplace, halive⟩, hchunk, hready⟩ := h
    obtain ⟨hbytes, hhead, -⟩ := hring.get hready
    refine ⟨⟨?_, ?_, halive⟩, hchunk, ?_⟩
    · dsimp only
      omega
    · dsimp only
      omega
    · rw [add_zero] at hplace
      rw [Job.base, add_assoc, ← hplace] at hbytes
      exact hbytes
  case givePut =>
    split
    · exact trivial
    · exact h
  case write =>
    split
    · exact trivial
    · obtain ⟨⟨hgoal, hplace, halive⟩, ⟨hpos, hle, hsectors⟩, -⟩ := h
      refine ⟨?_, ?_, halive⟩
      · dsimp only
        omega
      · exact hplace
  case trapped | returned => exact trivial

theorem noWait_writer : (otaWriteFileNormal job s).noWait = false := by
  cases hpc : s.writerPc <;> simp only [otaWriteFileNormal, hpc]
  case readLength =>
    rw [hpc] at h
    have hdecision := decision hring (length_le_wlen hrx h.1) h.2
    generalize takeChunk job s (actsRingbufLength s.rbuf) = next at hdecision
    cases hdecision <;> rfl
  case waitRx more reason =>
    cases reason <;> repeat' split
    all_goals exact hnowait
  all_goals
    repeat' split
    all_goals exact hnowait

end

/-! ## Both sides -/

/-- What holds between two steps. -/
structure Inv (job : Job) (s : State) : Prop where
  ring : RingInv job s
  rx : RxAt job s s.rxPc
  terminated : TerminatedInv s
  writer : WriterAt job s s.writerPc
  noWait : s.noWait = false

theorem RingInv.rx (h : RingInv job s) (hrx : RxAt job s s.rxPc) :
    RingInv job (otaRxThread job s) := by
  cases hpc : s.rxPc <;> simp only [otaRxThread, hpc]
  case put =>
    rw [hpc] at hrx
    obtain ⟨⟨⟨-, hplace⟩, -, hdata⟩, hroom⟩ := hrx
    obtain ⟨htail, hcontains⟩ := h.put hplace hroom hdata
    refine ⟨(size_put _ _).trans h.size_eq, ?_⟩
    dsimp only
    rw [htail, (tail_le_put _ _).1]
    exact hcontains
  all_goals
    repeat' split
    all_goals exact ⟨h.size_eq, h.contains⟩

theorem RingInv.writer (h : RingInv job s) (hwriter : WriterAt job s s.writerPc) :
    RingInv job (otaWriteFileNormal job s) := by
  cases hpc : s.writerPc <;> simp only [otaWriteFileNormal, takeChunk, hpc]
  case get =>
    rw [hpc] at hwriter
    obtain ⟨-, hhead, hcontains⟩ := h.get hwriter.2.2
    refine ⟨h.size_eq, ?_⟩
    dsimp only
    rw [hhead]
    exact hcontains
  case waitRx more reason =>
    cases reason <;> repeat' split
    all_goals exact ⟨h.size_eq, h.contains⟩
  all_goals
    repeat' split
    all_goals exact ⟨h.size_eq, h.contains⟩

theorem start_loopHead (h : job.Startable) : job.start.rxPc = .loopHead ∧
    job.start.writerPc = .loopHead := by
  have hstop : ¬ (job.startFileOffs ≥ job.fileLen ∨ job.imgFileOffset = none) :=
    not_or.mpr ⟨not_le.mpr h.1, h.2⟩
  exact ⟨if_neg hstop, if_neg hstop⟩

theorem inv_start (h : job.Startable) : Inv job job.start := by
  obtain ⟨hrx, hwriter⟩ := start_loopHead h
  refine ⟨⟨rfl, contains_reset _⟩, ?_, ?_, ?_, rfl⟩
  · rw [hrx]
    exact ⟨zero_add _, rfl⟩
  · rw [TerminatedInv, hrx]
    exact ⟨nofun, nofun⟩
  · rw [hwriter]
    exact ⟨rfl, rfl, rfl⟩

theorem Inv.step (h : Inv job s) (thread : Thread) : Inv job (step job thread s) := by
  cases thread with
  | rx =>
    have hframe := rxFrame job s
    refine ⟨h.ring.rx h.rx, h.rx.rx h.ring, h.terminated.rx, ?_, ?_⟩
    · change WriterAt job (otaRxThread job s) (otaRxThread job s).writerPc
      rw [hframe.writerPc]
      exact h.writer.rx hframe
    · exact hframe.noWait.trans h.noWait
  | writer =>
    have hframe := writerFrame job s
    refine ⟨h.ring.writer h.writer, ?_, ?_, h.writer.writer h.ring h.rx h.noWait,
      noWait_writer h.writer h.ring h.rx h.noWait⟩
    · change RxAt job (otaWriteFileNormal job s) (otaWriteFileNormal job s).rxPc
      rw [hframe.rxPc]
      exact h.rx.writer hframe
    · change TerminatedInv (otaWriteFileNormal job s)
      rw [TerminatedInv, hframe.terminated, hframe.rxPc]
      exact h.terminated

end SpeakerFirmware.Ota.Pipeline
