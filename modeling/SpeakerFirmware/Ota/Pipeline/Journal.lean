/-
# What a call leaves behind

Two kinds of calls leave `ota_write_file_normal`: notes in the breakpoint record and writes
to the partition. For the temp image they come in a fixed order, whatever fails and
whenever the call is looked at: there is a note before the first write, each write follows
the one before it, and each note has the offset up to which everything has been written.

`Journal` is that order. A write that fails is the last action of the call.
-/

import SpeakerFirmware.Ota.Pipeline.Invariant

namespace SpeakerFirmware.Ota.Pipeline

open Errno
open Interleaving

variable {job : Job} {s : State} {sched : Nat → Thread}

/-! ## The order of the actions -/

/-- The bytes of the file from an offset on. -/
def Job.bytes (job : Job) (offs len : Nat) : List UInt8 :=
  NorFlash.read job.image (job.imgFileOffset.getD 0 + offs) len

/-- The actions of a call that has written the file up to `offs`, and whether it has made a note.
Unless the file is complete, it has written whole sectors. -/
inductive Journal (job : Job) : List Action → Nat → Bool → Prop
  | start : Journal job [] job.startFileOffs false
  | record {trace : List Action} {offs : Nat} {noted : Bool} (force : Bool)
      (before : Journal job trace offs noted) (hmore : offs < job.fileLen)
      (hforce : noted = false → force = true) :
      Journal job (trace ++ [.record offs force]) offs true
  | write {trace : List Action} {offs : Nat} (len : Nat) (before : Journal job trace offs true)
      (hpos : 0 < len) (hle : offs + len ≤ job.fileLen)
        (hsectors : offs + len < job.fileLen → len % 4096 = 0) :
      Journal job (trace ++ [.write offs (job.bytes offs len) 0]) (offs + len) true

/-- The actions of a call at any time. -/
inductive Actions (job : Job) : List Action → Prop
  | running {trace : List Action} {offs : Nat} {noted : Bool}
      (journal : Journal job trace offs noted) :
      Actions job trace
  | failed {trace : List Action} {offs : Nat} (len : Nat) (ret : Int)
      (before : Journal job trace offs true)
      (hpos : 0 < len) (hle : offs + len ≤ job.fileLen) (hret : ret ≠ 0) :
      Actions job (trace ++ [.write offs (job.bytes offs len) ret])

/-- The actions of a call that has written everything. -/
def Complete (job : Job) (trace : List Action) : Prop :=
  ∃ noted, Journal job trace job.fileLen noted

/-- Writing stops at a sector boundary or at the end. -/
theorem Journal.aligned {trace : List Action} {offs : Nat} {noted : Bool}
    (h : Journal job trace offs noted) :
    job.startFileOffs ≤ offs ∧ (offs < job.fileLen → (offs - job.startFileOffs) % 4096 = 0) := by
  induction h with
  | start => exact ⟨le_rfl, fun _ => by rw [Nat.sub_self]⟩
  | record force before hmore hforce ih => exact ih
  | write len before hpos hle hsectors ih =>
    exact ⟨by omega, fun hmore => by have := hsectors hmore; omega⟩

/-! ## Where the writer is -/

/-- What is known of the actions at each place in `ota_write_file_normal`. -/
def JournalAt (job : Job) (s : State) : WriterPc → Prop
  | .loopHead | .takeGet | .pendedGet | .checkErrno | .readLength =>
    Journal job s.trace s.offs s.isRecord
  | .get | .givePut | .write => Journal job s.trace s.offs true ∧ s.isRecord = true
  | .stop _ .finished | .waitRx _ .finished | .trapped => Complete job s.trace
  | .stop _ .readFailed | .waitRx _ .readFailed =>
    Journal job s.trace s.offs s.isRecord ∧ s.offs < job.fileLen ∧ s.rxErrno ≠ 0
  | .stop _ .getFailed | .waitRx _ .getFailed | .stop _ .writeFailed | .waitRx _ .writeFailed =>
    Actions job s.trace
  | .returned ret => Actions job s.trace ∧ (ret = 0 → Complete job s.trace)

/-- The rx thread does not take an error back. -/
theorem rxErrno_rx (h : s.rxErrno ≠ 0) : (otaRxThread job s).rxErrno ≠ 0 := by
  cases hpc : s.rxPc <;> simp only [otaRxThread, hpc] <;> repeat' split
  all_goals first | exact h | exact (by decide : eagain ≠ 0)

theorem isRecord_rx : (otaRxThread job s).isRecord = s.isRecord := by
  cases hpc : s.rxPc <;> simp only [otaRxThread, hpc] <;> repeat' split
  all_goals rfl

theorem JournalAt.rx {pc : WriterPc} (h : JournalAt job s pc) :
    JournalAt job (otaRxThread job s) pc := by
  have hframe := rxFrame job s
  have hrecord : (otaRxThread job s).isRecord = s.isRecord := isRecord_rx
  cases pc
  case stop more reason | waitRx more reason =>
    cases reason <;> simp only [JournalAt, hframe.trace, hframe.offs, hrecord] at h ⊢
    case readFailed => exact ⟨h.1, h.2.1, rxErrno_rx h.2.2⟩
    all_goals exact h
  all_goals
    simp only [JournalAt, hframe.trace, hframe.offs, hrecord] at h ⊢
    exact h

/-- The writer waits for more, or notes where it is and takes a chunk. -/
theorem takeChunk_journal (htemp : job.isTemp = true) (h : Journal job s.trace s.offs s.isRecord)
    (hmore : s.offs < job.fileLen) (length : Nat) :
    JournalAt job (takeChunk job s length) (takeChunk job s length).writerPc := by
  rw [takeChunk, htemp]
  dsimp only
  generalize (if length > job.inBufsize then job.inBufsize else length) = most
  split
  · exact h
  · refine ⟨.record _ h hmore fun hnone => ?_, Bool.or_true _⟩
    rw [hnone]
    rfl

theorem JournalAt.writer (hstart : job.Startable) (htemp : job.isTemp = true)
    (h : JournalAt job s s.writerPc) (hinv : Inv job s) :
    JournalAt job (otaWriteFileNormal job s) (otaWriteFileNormal job s).writerPc := by
  have hlen : job.startFileOffs + job.len = job.fileLen := Nat.add_sub_cancel' hstart.1.le
  have hwriter := hinv.writer
  cases hpc : s.writerPc
  case waitRx more reason =>
    simp only [otaWriteFileNormal, hpc]
    rw [hpc] at h
    split
    · rw [hpc]
      exact h
    · cases more with
      | succ more => cases reason <;> exact h
      | zero =>
        cases reason with
        | finished => exact ⟨.running h.choose_spec, fun _ => h⟩
        | readFailed =>
          exact ⟨.running (.record true h.1 h.2.1 fun _ => rfl), fun hret => absurd hret h.2.2⟩
        | getFailed => exact ⟨h, fun hret => absurd hret (by decide)⟩
        | writeFailed => exact ⟨h, fun hret => absurd hret (by decide)⟩
  case stop more reason =>
    simp only [otaWriteFileNormal, hpc]
    rw [hpc] at h
    cases reason <;> exact h
  all_goals
    rw [hpc] at h hwriter
    simp only [otaWriteFileNormal, hpc]
  case loopHead =>
    rw [hinv.noWait]
    split
    · exact h
    · obtain ⟨hgoal, hplace, -⟩ := hwriter
      have hcomplete : Complete job s.trace := by
        refine ⟨s.isRecord, ?_⟩
        rw [show job.fileLen = s.offs by omega]
        exact h
      split <;> exact hcomplete
  case takeGet => split <;> exact h
  case pendedGet =>
    split
    · rw [hpc]
      exact h
    · exact h
  case checkErrno =>
    obtain ⟨⟨hgoal, hplace, -⟩, hpos⟩ := hwriter
    split
    case isTrue herrno => exact ⟨h, by dsimp only; omega, herrno⟩
    case isFalse => exact h
  case readLength =>
    obtain ⟨⟨hgoal, hplace, -⟩, hpos⟩ := hwriter
    exact takeChunk_journal htemp h (by omega) _
  case get => exact h
  case givePut =>
    split
    · exact .running h.1
    · exact h
  case write =>
    obtain ⟨⟨hgoal, hplace, -⟩, ⟨hpos, hle, hsectors⟩, hbuf⟩ := hwriter
    obtain ⟨hjournal, hnoted⟩ := h
    have hdata : job.bytes s.offs s.inSize = s.inBuf := hbuf.symm
    split
    case isTrue hret =>
      have hfailed := Actions.failed s.inSize _ hjournal hpos (by omega) hret
      rwa [hdata] at hfailed
    case isFalse hret =>
      have hwrote := Journal.write s.inSize hjournal hpos (by omega) fun hmore =>
        hsectors (by omega)
      rw [hdata, ← not_not.mp hret, ← hnoted] at hwrote
      exact hwrote
  case trapped | returned => exact h

/-! ## Every call -/

theorem run_journalAt (htemp : job.isTemp = true) (hstart : job.Startable) (n : Nat) :
    JournalAt job (job.run sched n) (job.run sched n).writerPc := by
  have hboth : ∀ n, Inv job (job.run sched n) ∧
      JournalAt job (job.run sched n) (job.run sched n).writerPc := by
    apply @run_invariant Thread State (step job) sched job.start fun s =>
      Inv job s ∧ JournalAt job s s.writerPc
    · refine ⟨inv_start hstart, ?_⟩
      have hpc : job.start.writerPc = .loopHead :=
        if_neg (not_or.mpr ⟨Nat.not_le.mpr hstart.1, hstart.2⟩)
      rw [hpc]
      exact .start
    · intro thread s h
      refine ⟨h.1.step thread, ?_⟩
      cases thread with
      | rx =>
        change JournalAt job (otaRxThread job s) (otaRxThread job s).writerPc
        rw [(rxFrame job s).writerPc]
        exact h.2.rx
      | writer => exact h.2.writer hstart htemp h.1
  exact (hboth n).2

theorem JournalAt.actions {pc : WriterPc} (h : JournalAt job s pc) : Actions job s.trace := by
  cases pc with
  | loopHead | takeGet | pendedGet | checkErrno | readLength => exact .running h
  | get | givePut | write => exact .running h.1
  | stop more reason | waitRx more reason =>
    cases reason with
    | finished => exact .running h.choose_spec
    | readFailed => exact .running h.1
    | getFailed | writeFailed => exact h
  | trapped => exact .running h.choose_spec
  | returned ret => exact h.1

/-- At any time the actions of a call for the temp image are in order; when it has returned 0, they
are all there. -/
theorem run_actions (sched : Nat → Thread) (htemp : job.isTemp = true) (n : Nat) :
    Actions job (job.run sched n).trace ∧
      ((job.run sched n).writerPc = .returned 0 → Complete job (job.run sched n).trace) := by
  by_cases hstart : job.Startable
  · have h : JournalAt job (job.run sched n) (job.run sched n).writerPc :=
      run_journalAt htemp hstart n
    refine ⟨h.actions, fun hpc => ?_⟩
    rw [hpc] at h
    exact h.2 rfl
  · -- nothing is started
    have hstop : job.startFileOffs ≥ job.fileLen ∨ job.imgFileOffset = none := by
      rw [Job.Startable, not_and_or, not_lt, not_not] at hstart
      exact hstart
    have hsettled : ∀ n, (job.run sched n).writerPc = .returned einval ∧
        (job.run sched n).trace = [] := by
      apply @run_invariant Thread State (step job) sched job.start fun s =>
        s.writerPc = .returned einval ∧ s.trace = []
      · exact ⟨if_pos hstop, rfl⟩
      · intro thread s h
        cases thread with
        | rx => exact ⟨(rxFrame job s).writerPc.trans h.1, (rxFrame job s).trace.trans h.2⟩
        | writer =>
          change (otaWriteFileNormal job s).writerPc = _ ∧ (otaWriteFileNormal job s).trace = _
          rw [otaWriteFileNormal, h.1]
          exact h
    obtain ⟨hpc, htrace⟩ := hsettled n
    rw [hpc, htrace]
    exact ⟨.running .start, (by rintro ⟨⟩)⟩

end SpeakerFirmware.Ota.Pipeline
