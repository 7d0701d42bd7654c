/-
# What reaches the partition

If the backend delivers the file and no write fails, the calls of
`ota_write_file_partition` are the file from the start offset on, piece by piece. Each
piece but the last is whole sectors, because the writer rounds down as long as more is to
come.
-/

import SpeakerFirmware.Ota.Pipeline.Stop

namespace SpeakerFirmware.Ota.Pipeline

open NorFlash (length_read read_add)
open Utils Interleaving
open List

variable {job : Job} {s s' : State} {sched : Nat → Thread}

/-! ## The calls of `ota_write_file_partition` -/

/-- The offsets and the data of the calls. -/
def writes (trace : List Action) : List (Nat × List UInt8) :=
  trace.filterMap fun action => match action with
    | .write offs data _ => some (offs, data)
    | .record _ _ => none

/-- Each piece starts where the one before it ends. -/
def Consecutive : Nat → List (Nat × List UInt8) → Prop
  | _, [] => True
  | offs, (start, data) :: pieces => start = offs ∧ Consecutive (offs + data.length) pieces

/-- All the data of the calls. -/
def written (trace : List Action) : List UInt8 :=
  (writes trace).flatMap Prod.snd

theorem writes_append_record (trace : List Action) (offs : Nat) (force : Bool) :
    writes (trace ++ [.record offs force]) = writes trace := by
  simp [writes]

theorem writes_append_write (trace : List Action) (offs : Nat) (data : List UInt8) (ret : Int) :
    writes (trace ++ [.write offs data ret]) = writes trace ++ [(offs, data)] := by
  simp [writes]

theorem consecutive_append {offs : Nat} {pieces : List (Nat × List UInt8)}
    {piece : Nat × List UInt8}
    (h : Consecutive offs pieces) (hpiece : piece.1 = offs + (pieces.flatMap Prod.snd).length) :
    Consecutive offs (pieces ++ [piece]) := by
  induction pieces generalizing offs with
  | nil => exact ⟨hpiece, trivial⟩
  | cons first pieces ih =>
    refine ⟨h.1, ih h.2 ?_⟩
    rw [hpiece, flatMap_cons, length_append, Nat.add_assoc]

/-- A piece of whole sectors. -/
def Sectors (piece : Nat × List UInt8) : Prop :=
  0 < piece.2.length ∧ otaEraseAlignSize ∣ piece.2.length

/-- What has been handed over is the file up to `offs`; unless it is all, in whole sectors. -/
structure Delivered (job : Job) (s : State) : Prop where
  start_le : job.startFileOffs ≤ s.offs
  bytes : written s.trace = NorFlash.read job.image job.base (s.offs - job.startFileOffs)
  order : Consecutive job.startFileOffs (writes s.trace)
  sectors : 0 < s.wlen → ∀ piece ∈ writes s.trace, Sectors piece
  dropLast : ∀ piece ∈ (writes s.trace).dropLast, Sectors piece

theorem delivered_start (job : Job) : Delivered job job.start where
  start_le := Nat.le_refl _
  bytes := by
    change [] = NorFlash.read job.image job.base (job.startFileOffs - job.startFileOffs)
    rw [Nat.sub_self]
    rfl
  order := trivial
  sectors := nofun
  dropLast := nofun

/-- A step that hands over nothing. -/
theorem Delivered.congr (h : Delivered job s) (htrace : writes s'.trace = writes s.trace)
    (hoffs : s'.offs = s.offs) (hwlen : s'.wlen = s.wlen) : Delivered job s' := by
  obtain ⟨h1, h2, h3, h4, h5⟩ := h
  constructor
  · rwa [hoffs]
  · rwa [written, htrace, hoffs]
  · rwa [htrace]
  · rwa [htrace, hwlen]
  · rwa [htrace]

/-- Handing over the chunk at hand. -/
theorem Delivered.write (h : Delivered job s) (htaken : Taken job s) (ret : Int) :
    Delivered job { s with
      trace := s.trace ++ [.write s.offs s.inBuf ret]
      offs := s.offs + s.inSize
      wlen := s.wlen - s.inSize
      writerPc := .loopHead } := by
  obtain ⟨h1, h2, h3, h4, h5⟩ := h
  obtain ⟨-, ⟨hpos, hle, hmod⟩, hbuf⟩ := htaken
  have hlen : s.inBuf.length = s.inSize := by rw [hbuf, length_read]
  have hsent : (written s.trace).length = s.offs - job.startFileOffs := by rw [h2, length_read]
  have hall : ∀ piece ∈ writes s.trace, Sectors piece := h4 (by omega)
  constructor
  · dsimp only
    omega
  · dsimp only
    rw [written, writes_append_write, flatMap_append, ← written, h2,
      show s.offs + s.inSize - job.startFileOffs = s.offs - job.startFileOffs + s.inSize by
        omega, read_add,
      show job.base + (s.offs - job.startFileOffs) = job.imgFileOffset.getD 0 + s.offs by
        rw [Job.base]; omega, ← hbuf]
    simp
  · dsimp only
    rw [writes_append_write]
    refine consecutive_append h3 ?_
    rw [← written, hsent]
    dsimp only
    omega
  · dsimp only
    intro hmore piece hpiece
    rw [writes_append_write, mem_append, mem_singleton] at hpiece
    rcases hpiece with hpiece | rfl
    · exact hall piece hpiece
    · refine ⟨by rw [hlen]; exact hpos, ?_⟩
      rw [hlen, otaEraseAlignSize]
      exact Nat.dvd_of_mod_eq_zero (hmod (by omega))
  · dsimp only
    rw [writes_append_write, dropLast_concat]
    exact hall

/-! ## Nothing fails -/

/-- The backend delivers the file. -/
def Job.Delivers (job : Job) : Prop :=
  ∀ offset, job.base ≤ offset → offset < job.base + job.len →
    job.prepareFails offset = false ∧ job.readFails offset = false

/-- A write has failed. -/
def WriteFailed (s : State) : Prop :=
  ∃ offs data ret, .write offs data ret ∈ s.trace ∧ ret ≠ 0

/-- The call is not on its way to an error, unless the loop is over in no time. -/
def NoError (job : Job) : WriterPc → Prop
  | .stop _ reason | .waitRx _ reason => reason = .finished ∧ job.consumeTime ≠ 0
  | .trapped => job.consumeTime = 0
  | .returned ret => ret = 0 ∧ job.consumeTime ≠ 0
  | _ => True

/-- As long as no write fails, everything goes well. -/
structure Fine (job : Job) (s : State) : Prop where
  errno : s.rxErrno = 0
  delivered : Delivered job s
  noError : NoError job s.writerPc
  all : s.writerPc.inLoop = false → s.offs = job.startFileOffs + job.len

theorem errno_rx (hdelivers : job.Delivers) (h : Inv job s) (herrno : s.rxErrno = 0) :
    (otaRxThread job s).rxErrno = 0 := by
  have hrx := h.rx
  cases hpc : s.rxPc <;> simp only [otaRxThread, hpc, RxAt, Received] at hrx ⊢
  case prepare =>
    have hok := (hdelivers s.offset (by omega) (by omega)).1
    simp [hok, herrno]
  case segment =>
    split
    case isTrue hreq =>
      have hok := (hdelivers s.offset (by omega) (by omega)).2
      simp [hok, herrno]
    case isFalse => exact herrno
  all_goals
    repeat' split
    all_goals exact herrno

theorem Fine.rx (h : Fine job s) (hinv : Inv job s) (hdelivers : job.Delivers) :
    Fine job (otaRxThread job s) := by
  have hframe := rxFrame job s
  refine ⟨errno_rx hdelivers hinv h.errno, ?_, ?_, ?_⟩
  · exact h.delivered.congr (by rw [hframe.trace]) hframe.offs hframe.wlen
  · rw [hframe.writerPc]
    exact h.noError
  · rw [hframe.writerPc, hframe.offs]
    exact h.all

/-- A step in the loop that hands over nothing. -/
theorem Fine.congr (h : Fine job s) (hframe : WriterFrame s s')
    (htrace : writes s'.trace = writes s.trace) (hoffs : s'.offs = s.offs)
    (hwlen : s'.wlen = s.wlen) (hloop : s'.writerPc.inLoop = true) : Fine job s' := by
  refine ⟨hframe.rxErrno.trans h.errno, h.delivered.congr htrace hoffs hwlen, ?_, ?_⟩
  · generalize s'.writerPc = pc at hloop
    cases pc <;> trivial
  · rw [hloop]
    exact nofun

theorem Fine.writer (h : Fine job s) (hinv : Inv job s) :
    WriteFailed (otaWriteFileNormal job s) ∨ Fine job (otaWriteFileNormal job s) := by
  have hframe := writerFrame job s
  have hwriter := hinv.writer
  have hall := h.all
  have hnoError := h.noError
  cases hpc : s.writerPc <;> rw [hpc] at hwriter hnoError hall <;>
    simp only [otaWriteFileNormal, hpc] at hframe ⊢
  case loopHead =>
    right
    rw [hinv.noWait] at hframe ⊢
    split
    case isTrue hmore =>
      rw [if_pos hmore] at hframe
      exact h.congr hframe rfl rfl rfl rfl
    case isFalse hend =>
      refine ⟨h.errno, h.delivered.congr rfl rfl rfl, ?_, fun _ => ?_⟩
      · dsimp only
        split
        case isTrue htime => exact htime
        case isFalse htime => exact ⟨rfl, htime⟩
      · obtain ⟨hgoal, hplace, -⟩ := hwriter
        dsimp only
        omega
  case takeGet =>
    right
    exact h.congr hframe rfl rfl rfl (by split <;> rfl)
  case pendedGet =>
    right
    split
    · exact h
    case isFalse hgiven =>
      rw [if_neg hgiven] at hframe
      exact h.congr hframe rfl rfl rfl rfl
  case checkErrno =>
    right
    have hok : ¬ s.rxErrno ≠ 0 := not_not.mpr h.errno
    rw [if_neg hok] at hframe ⊢
    exact h.congr hframe rfl rfl rfl rfl
  case readLength =>
    right
    have hdecision := decision hinv.ring (length_le_wlen hinv.rx hwriter.1) hwriter.2
    generalize takeChunk job s (actsRingbufLength s.rbuf) = next at hdecision hframe
    cases hdecision with
    | wait inSize _ _ => exact h.congr hframe rfl rfl rfl rfl
    | take inSize isRecord trace htrace _ _ _ _ =>
      refine h.congr hframe ?_ rfl rfl rfl
      rcases htrace with rfl | ⟨force, rfl⟩
      · rfl
      · exact writes_append_record _ _ _
  case get =>
    right
    exact h.congr hframe rfl rfl rfl rfl
  case givePut =>
    right
    have hlen : ¬ s.inBuf.length ≠ s.inSize := by
      rw [hwriter.2.2, length_read]
      exact not_not.mpr rfl
    rw [if_neg hlen] at hframe ⊢
    exact h.congr hframe rfl rfl rfl rfl
  case write =>
    split
    case isTrue hfailed =>
      exact .inl ⟨s.offs, s.inBuf, _, mem_append_right _ mem_cons_self, hfailed⟩
    case isFalse =>
      right
      exact ⟨h.errno, h.delivered.write hwriter _, trivial, (by rintro ⟨⟩)⟩
  case stop more reason =>
    right
    exact ⟨h.errno, h.delivered.congr rfl rfl rfl, hnoError, fun _ => hall rfl⟩
  case waitRx more reason =>
    right
    obtain ⟨rfl, htime⟩ := hnoError
    split
    · exact h
    · cases more with
      | zero => exact ⟨h.errno, h.delivered.congr rfl rfl rfl, ⟨rfl, htime⟩, fun _ => hall rfl⟩
      | succ more => exact ⟨h.errno, h.delivered.congr rfl rfl rfl, ⟨rfl, htime⟩, fun _ => hall rfl⟩
  case trapped | returned => exact .inr h

/-! ## The whole call -/

theorem run_fine (hstart : job.Startable) (hdelivers : job.Delivers)
    (hwrites : ∀ i offs data ret, .write offs data ret ∈ (job.run sched i).trace → ret = 0)
    (n : Nat) :
    Fine job (job.run sched n) := by
  have hinv : ∀ n, LiveInv job (job.run sched n) :=
    run_invariant (liveInv_start hstart) fun thread _ h => h.step thread
  induction n with
  | zero =>
    have hpc : job.start.writerPc = .loopHead :=
      if_neg (not_or.mpr ⟨Nat.not_le.mpr hstart.1, hstart.2⟩)
    change Fine job job.start
    refine ⟨rfl, delivered_start job, ?_, ?_⟩
    · rw [hpc]
      trivial
    · rw [hpc]
      exact nofun
  | succ n ih =>
    have hnext : job.run sched (n + 1) = step job (sched n) (job.run sched n) := rfl
    rw [hnext]
    cases hthread : sched n with
    | rx => exact ih.rx (hinv n).toInv hdelivers
    | writer =>
      rcases ih.writer (hinv n).toInv with hfailed | hfine
      · obtain ⟨offs, data, ret, hmem, hret⟩ := hfailed
        refine absurd (hwrites (n + 1) offs data ret ?_) hret
        rw [hnext, hthread]
        exact hmem
      · exact hfine

/-- The call hands over the file from the start offset on, in pieces that follow each other, all but
the last of whole sectors. It then returns 0 if a millisecond has passed, and only then. -/
theorem delivers_file (hstart : job.startFileOffs < job.fileLen) {imgOffset : Nat}
    (himg : job.imgFileOffset = some imgOffset)
    (hreads : ∀ offset, imgOffset + job.startFileOffs ≤ offset → offset < imgOffset + job.fileLen →
      job.prepareFails offset = false ∧ job.readFails offset = false)
    (hfair : Fair sched)
    (hwrites : ∀ i offs data ret, .write offs data ret ∈ (job.run sched i).trace → ret = 0) :
    ∃ n, ∀ i, n ≤ i →
      ((job.run sched i).writerPc = .returned 0 ↔ job.consumeTime ≠ 0) ∧
      written (job.run sched i).trace =
        NorFlash.read job.image (imgOffset + job.startFileOffs) (job.fileLen - job.startFileOffs) ∧
      Consecutive job.startFileOffs (writes (job.run sched i).trace) ∧
      ∀ piece ∈ (writes (job.run sched i).trace).dropLast, Sectors piece := by
  have hstartable : job.Startable := ⟨hstart, by rw [himg]; exact Option.some_ne_none _⟩
  have hbase : job.base = imgOffset + job.startFileOffs := by rw [Job.base, himg]; rfl
  have hdelivers : job.Delivers := by
    intro offset hle hlt
    rw [hbase] at hle hlt
    rw [Job.len] at hlt
    exact hreads offset hle (by omega)
  obtain ⟨n, hsettled, hlive⟩ := exists_settled hstartable hfair
  refine ⟨n, fun i hi => ?_⟩
  have hsame : job.run sched i = job.run sched n := hsettled.run_eq hi
  have hfine := run_fine hstartable hdelivers hwrites n
  rw [hsame]
  have hno := hfine.noError
  have hend : ((job.run sched n).writerPc = .returned 0 ↔ job.consumeTime ≠ 0) ∧
      (job.run sched n).writerPc.inLoop = false := by
    rcases hlive.settled hsettled with (hpc | ⟨ret, hpc⟩) | ⟨more, reason, hpc, hpended, -⟩
    · rw [hpc] at hno ⊢
      exact ⟨⟨fun h => (by cases h), fun htime => absurd hno htime⟩, rfl⟩
    · rw [hpc] at hno ⊢
      obtain ⟨rfl, htime⟩ := hno
      exact ⟨⟨fun _ => htime, fun _ => rfl⟩, rfl⟩
    · -- the whole file is out of the ring, so the rx thread has nothing to put
      have hwriter := hlive.writer
      have hrx := hlive.rx
      rw [hpc] at hno hwriter
      obtain ⟨rfl, -⟩ := hno
      rw [hpended] at hrx
      obtain ⟨⟨hmoved, -⟩, ⟨hpos, hle, -, hreq⟩, -⟩ := hrx
      have hhead : (job.run sched n).rbuf.head = job.len := hwriter
      have htail := hlive.ring.head_le
      omega
  have hoffs := hfine.all hend.2
  obtain ⟨-, hbytes, horder, -, hsectors⟩ := hfine.delivered
  rw [hoffs, Nat.add_sub_cancel_left, hbase, Job.len] at hbytes
  exact ⟨hend.1, hbytes, horder, hsectors⟩

/-! ### A storage that takes everything -/

/-- The results that are noted are those of `ota_write_file_partition`. -/
theorem ret_of_mem_trace (n : Nat) {offs : Nat} {data : List UInt8} {ret : Int}
    (h : .write offs data ret ∈ (job.run sched n).trace) :
    ret = (otaWriteFilePartition job offs data).ret := by
  induction n with
  | zero => cases h
  | succ n ih =>
    change .write offs data ret ∈ (step job (sched n) (job.run sched n)).trace at h
    generalize job.run sched n = s at h ih
    generalize sched n = thread at h
    cases thread with
    | rx => exact ih ((rxFrame job s).trace ▸ h)
    | writer =>
      change .write offs data ret ∈ (otaWriteFileNormal job s).trace at h
      cases hpc : s.writerPc <;> simp only [otaWriteFileNormal, takeChunk, hpc] at h
      case waitRx more reason => cases more <;> cases reason <;> grind [finish]
      all_goals grind

/-- The job of before with a storage that works. -/
def workingJob : Job := { failingJob with storageFails := fun _ => false }

theorem delivers_file_working :
    ∃ n, ∀ i, n ≤ i →
      ((workingJob.run alternating i).writerPc = .returned 0 ↔ workingJob.consumeTime ≠ 0) ∧
      written (workingJob.run alternating i).trace = NorFlash.read workingJob.image 0 24576 ∧
      Consecutive 0 (writes (workingJob.run alternating i).trace) ∧
      ∀ piece ∈ (writes (workingJob.run alternating i).trace).dropLast, Sectors piece := by
  refine delivers_file (show 0 < 24576 by decide) rfl (fun _ _ _ => ⟨rfl, rfl⟩) fair_alternating ?_
  intro i offs data ret hmem
  exact ret_of_mem_trace i hmem

/-- A file of sixteen bytes that is written in less than a millisecond. -/
def instantJob : Job := { workingJob with fileLen := 16, consumeTime := 0 }

/-- Everything is delivered and written, but the call does not return. -/
theorem instant_file_traps :
    Fair alternating ∧
      (∀ i offs data ret, .write offs data ret ∈ (instantJob.run alternating i).trace → ret = 0) ∧
      written (instantJob.run alternating 21).trace = NorFlash.read instantJob.image 0 16 ∧
      ∀ i ret, (instantJob.run alternating i).writerPc ≠ .returned ret := by
  refine ⟨fair_alternating, fun i offs data ret hmem => ret_of_mem_trace i hmem,
    by decide +kernel, ?_⟩
  exact @not_returned_of_loopOver instantJob alternating 21 rfl (by decide)
    ⟨by decide +kernel, by decide +kernel⟩

end SpeakerFirmware.Ota.Pipeline
