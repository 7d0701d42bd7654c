/-
# When the call returns

Every step that changes something brings the call nearer to its end (`measure_rx` and
`measure_writer`), so a fair run comes to rest, and `LiveInv.settled` says where. What is
left is `ota_rx_stop`. It sets a flag that the rx thread tests only when a whole request is
done, and nobody takes anything out of the ring any more. So the rx thread ends if what it
can still read of its request fits into the ring, and waits for room forever if not.
-/

import SpeakerFirmware.Ota.Pipeline.Wakeup

namespace SpeakerFirmware.Ota.Pipeline

open Errno
open Utils Interleaving

variable {job : Job} {s : State} {sched : Nat → Thread}

/-! ## The measure -/

/-- The steps of the rx thread until it next reads a segment, takes or gives a token, or ends. -/
def State.rxRank (s : State) : Nat :=
  match s.rxPc with
  | .done => 0
  | .terminate => 1
  | .exitGive => 7
  | .pendedPut | .put => 9
  | .takePut => 10
  | .checkSpace => 11
  | .prepare => 13
  | .loopHead => if s.rxErrno = 0 then 14 else 8
  | .segment => if s.reqSize > 0 then 12 else 15
  | .giveGet => 21

/-- The steps of the writer. -/
def State.writerRank (s : State) : Nat :=
  match s.writerPc with
  | .trapped | .returned _ => 0
  | .waitRx more _ => 2 * more + 1
  | .stop more _ => 2 * more + 2
  | .pendedGet => 7
  | .takeGet | .get => 8
  | .loopHead => 9
  | .readLength => 10
  | .checkErrno => 11
  | .write => 12
  | .givePut => 16

/-- The bytes that are not in the ring yet. -/
def State.toPut (s : State) : Nat :=
  s.size - if s.rxPc = .giveGet then s.rlen else 0

/-- The tokens for the writer, with one that it was given while it waited. -/
def State.getTokens (s : State) : Nat :=
  s.getSem.count + if s.writerPc = .pendedGet ∧ s.getSem.waiting = false then 1 else 0

/-- The tokens for the rx thread. -/
def State.putTokens (s : State) : Nat :=
  s.putSem.count + if s.rxPc = .pendedPut ∧ s.putSem.waiting = false then 1 else 0

def State.measure (s : State) : Nat :=
  22 * s.toPut + 9 * (s.rbuf.tail - s.rbuf.head) + 5 * s.getTokens + 3 * s.putTokens + s.rxRank +
    s.writerRank

/-- A give adds at most one token. -/
theorem getTokens_give (s : State) :
    ((kSemGive s.getSem).count +
      if s.writerPc = .pendedGet ∧ (kSemGive s.getSem).waiting = false then 1
        else 0) ≤ s.getTokens + 1 := by
  simp only [State.getTokens, kSemGive]
  grind

theorem putTokens_give (s : State) :
    ((kSemGive s.putSem).count +
      if s.rxPc = .pendedPut ∧ (kSemGive s.putSem).waiting = false then 1
        else 0) ≤ s.putTokens + 1 := by
  simp only [State.putTokens, kSemGive]
  grind

theorem measure_rx (h : Inv job s) : otaRxThread job s = s ∨
    (otaRxThread job s).measure < s.measure := by
  have hrank : (otaRxThread job s).writerRank = s.writerRank := by
    rw [State.writerRank, (rxFrame job s).writerPc]
    rfl
  have hgive := getTokens_give s
  have hrx := h.rx
  rw [State.measure, State.measure, hrank]
  cases hpc : s.rxPc <;> simp only [otaRxThread, hpc, RxAt] at hrx ⊢
  case done => exact .inl trivial
  case pendedPut =>
    split
    · exact .inl rfl
    · right
      simp only [State.toPut, State.getTokens, State.putTokens, State.rxRank, hpc]
      grind
  case put =>
    right
    obtain ⟨⟨⟨hmoved, hplace⟩, ⟨hpos, hle, -, hreq⟩, hdata⟩, hroom⟩ := hrx
    have htail := (h.ring.put hplace hroom hdata).1
    have hhead := (tail_le_put s.rbuf s.dataBuf).1
    have hle := h.ring.head_le
    simp only [State.toPut, State.getTokens, State.putTokens, State.rxRank, hpc]
    grind
  case loopHead =>
    right
    have hmax := job.maxReqSize_pos
    repeat' split
    all_goals
      simp only [State.toPut, State.getTokens, State.putTokens, State.rxRank, hpc]
      grind
  case giveGet =>
    right
    obtain ⟨-, hpos, hle, -, hreq⟩ := hrx
    simp only [State.toPut, State.getTokens, State.putTokens, State.rxRank, hpc] at hgive ⊢
    grind
  all_goals
    right
    repeat' split
    all_goals
      simp only [State.toPut, State.getTokens, State.putTokens, State.rxRank, hpc] at hgive ⊢
      grind [kSemTake, eagain]

theorem measure_writer (h : Inv job s) :
    otaWriteFileNormal job s = s ∨ (otaWriteFileNormal job s).measure < s.measure := by
  have hframe := writerFrame job s
  have hrank : (otaWriteFileNormal job s).rxRank = s.rxRank := by
    rw [State.rxRank, hframe.rxPc, hframe.rxErrno, hframe.reqSize]
    rfl
  have hput : (otaWriteFileNormal job s).toPut = s.toPut := by
    rw [State.toPut, hframe.size, hframe.rxPc, hframe.rlen]
    rfl
  have hgive := putTokens_give s
  have hwriter := h.writer
  rw [State.measure, State.measure, hrank, hput]
  cases hpc : s.writerPc <;> simp only [otaWriteFileNormal, hpc, WriterAt] at hwriter ⊢
  case trapped | returned => exact .inl trivial
  case pendedGet =>
    split
    · exact .inl rfl
    · right
      simp only [State.getTokens, State.putTokens, State.writerRank, hpc]
      grind
  case waitRx more reason =>
    split
    · exact .inl rfl
    · right
      cases more <;> cases reason <;>
        simp only [finish, State.getTokens, State.putTokens, State.writerRank, hpc] <;> grind
  case readLength =>
    right
    have hdecision := decision h.ring (length_le_wlen h.rx hwriter.1) hwriter.2
    generalize takeChunk job s (actsRingbufLength s.rbuf) = next at hdecision
    cases hdecision <;> simp only [State.getTokens, State.putTokens, State.writerRank, hpc] <;>
      grind
  case get =>
    right
    obtain ⟨-, ⟨hpos, -, -⟩, hready⟩ := hwriter
    have hhead := (h.ring.get hready).2.1
    have htail : (actsRingbufGet s.rbuf s.inSize).1.tail = s.rbuf.tail := rfl
    simp only [State.getTokens, State.putTokens, State.writerRank, hpc]
    grind
  all_goals
    right
    rw [h.noWait]
    repeat' split
    all_goals
      simp only [State.getTokens, State.putTokens, State.writerRank, hpc] at hgive ⊢
      grind [kSemTake]

/-- A fair run comes to rest. -/
theorem exists_settled (hstart : job.Startable) (hfair : Fair sched) :
    ∃ n, Settled (step job) (job.run sched n) ∧ LiveInv job (job.run sched n) := by
  have hinv : ∀ n, LiveInv job (job.run sched n) :=
    run_invariant (liveInv_start hstart) fun thread _ h => h.step thread
  obtain ⟨n, hn⟩ := hfair.settles State.measure (liveInv_start hstart)
    (fun thread _ h => h.step thread) fun thread s h => by
      cases thread with
      | rx => exact measure_rx h.toInv
      | writer => exact measure_writer h.toInv
  exact ⟨n, hn, hinv n⟩

/-! ## The request in flight -/

/-- The bytes of a request that the backend delivers before a read fails. -/
def Job.deliverable (job : Job) (offset req : Nat) : Nat :=
  if 0 < req then
    let rlen := if req < job.segSize then req else job.segSize
    if job.readFails offset then 0 else rlen + job.deliverable (offset + rlen) (req - rlen)
  else 0
termination_by req
decreasing_by
  have := job.segSize_pos
  split <;> omega

theorem deliverable_of_fails {offset : Nat} (req : Nat) (h : job.readFails offset = true) :
    job.deliverable offset req = 0 := by
  rw [Job.deliverable, if_pos h, ite_self]

theorem deliverable_of_reads {offset req : Nat} (hreq : 0 < req)
    (h : ¬ job.readFails offset = true) :
    job.deliverable offset req =
      (if req < job.segSize then req else job.segSize) +
        job.deliverable (offset + if req < job.segSize then req else job.segSize)
          (req - if req < job.segSize then req else job.segSize) := by
  rw [Job.deliverable, if_pos hreq, if_neg h]

/-- What the rx thread will still put into the ring before it tests the flags again. -/
def inFlight (job : Job) (s : State) : Nat :=
  match s.rxPc with
  | .prepare | .segment => job.deliverable s.offset s.reqSize
  | .checkSpace | .takePut | .pendedPut | .put =>
    s.rlen + job.deliverable (s.offset + s.rlen) (s.reqSize - s.rlen)
  | .giveGet => job.deliverable (s.offset + s.rlen) (s.reqSize - s.rlen)
  | _ => 0

theorem rlen_le_inFlight (hpc : s.rxPc = .pendedPut) : s.rlen ≤ inFlight job s := by
  rw [inFlight, hpc]
  exact Nat.le_add_right _ _

/-- After `thread_need_terminated` was set, what is put into the ring comes out of what was in
flight. -/
theorem inFlight_rx (h : Inv job s) (hneed : s.threadNeedTerminated = true) :
    inFlight job (otaRxThread job s) + actsRingbufSpace s.rbuf =
      inFlight job s + actsRingbufSpace (otaRxThread job s).rbuf := by
  have hrx := h.rx
  cases hpc : s.rxPc <;> simp only [otaRxThread, hpc, RxAt] at hrx ⊢
  case loopHead => simp [inFlight, hpc, hneed]
  case segment =>
    have hflight : inFlight job s = job.deliverable s.offset s.reqSize := by rw [inFlight, hpc]
    rw [hflight]
    split
    case isTrue hreq =>
      split
      case isTrue hfails => rw [deliverable_of_fails _ hfails]; rfl
      case isFalse hreads => rw [deliverable_of_reads hreq hreads]; rfl
    case isFalse hreq => rw [Job.deliverable, if_neg hreq]; rfl
  case put =>
    obtain ⟨⟨⟨-, hplace⟩, -, hdata⟩, hroom⟩ := hrx
    have htail := (h.ring.put hplace hroom hdata).1
    have hhead := (tail_le_put s.rbuf s.dataBuf).1
    have hle := h.ring.head_le
    simp only [inFlight, hpc, actsRingbufSpace, size_put, htail, hhead] at hroom ⊢
    omega
  all_goals
    simp only [inFlight, hpc]
    repeat' split
    all_goals grind

/-! ## `ota_rx_stop` -/

/-- The writer waits in `ota_rx_stop`. -/
def Waits (s : State) : Prop :=
  ∃ more reason, s.writerPc = .waitRx more reason

theorem waits_writer (h : Waits (otaWriteFileNormal job s)) :
    otaWriteFileNormal job s = s ∨ ∃ more reason, s.writerPc = .stop more reason ∧
      otaWriteFileNormal job s =
        { s with threadNeedTerminated := true, writerPc := .waitRx more reason } := by
  obtain ⟨more, reason, h⟩ := h
  cases hpc : s.writerPc <;> simp only [otaWriteFileNormal, takeChunk, hpc] at h ⊢
  case stop more reason => exact .inr ⟨more, reason, rfl, rfl⟩
  case waitRx more reason =>
    split
    · exact .inl rfl
    · cases more <;> cases reason <;> grind [finish]
  all_goals grind

/-- While `ota_rx_stop` waits, whether the rest of the request fits into the ring does not
change. -/
theorem fits_rx (h : Inv job s) (hneed : s.threadNeedTerminated = true) :
    inFlight job (otaRxThread job s) ≤ actsRingbufSpace (otaRxThread job s).rbuf ↔
      inFlight job s ≤ actsRingbufSpace s.rbuf := by
  have hflight := inFlight_rx h hneed
  omega

theorem waits_rx : Waits (otaRxThread job s) ↔ Waits s := by
  rw [Waits, (rxFrame job s).writerPc, Waits]

/-- The writer waits for an rx thread whose request does not fit. -/
structure Stuck (job : Job) (s : State) : Prop where
  inv : LiveInv job s
  waits : Waits s
  need : s.threadNeedTerminated = true
  tooBig : actsRingbufSpace s.rbuf < inFlight job s

/-- That is how it stays. -/
theorem Stuck.step (h : Stuck job s) (thread : Thread) : Stuck job (step job thread s) := by
  have hinv := h.inv.step thread
  cases thread with
  | rx =>
    refine ⟨hinv, waits_rx.mpr h.waits, (rxFrame job s).needTerminated.trans h.need, ?_⟩
    exact Nat.not_le.mp fun hfits => Nat.not_le.mpr h.tooBig ((fits_rx h.inv.toInv h.need).mp hfits)
  | writer =>
    -- the rx thread has something in flight, so it has not ended
    have hrun : s.threadTerminated = false := by
      rw [← Bool.not_eq_true]
      intro hterminated
      have hover := h.tooBig
      simp [inFlight, h.inv.terminated.mp hterminated] at hover
    obtain ⟨more, reason, hpc⟩ := h.waits
    have hsame : otaWriteFileNormal job s = s := by simp only [otaWriteFileNormal, hpc, if_pos hrun]
    rw [Pipeline.step, hsame]
    exact h

/-- If at each call of `ota_rx_stop` the rest of the request fits into the ring, it always does
while `ota_rx_stop` waits. -/
theorem fits_of_stops (hinv : ∀ n, LiveInv job (job.run sched n))
    (hstops : ∀ i more reason, sched i = .writer → (job.run sched i).writerPc = .stop more reason →
      inFlight job (job.run sched i) ≤ actsRingbufSpace (job.run sched i).rbuf) (n : Nat) :
    Waits (job.run sched n) → (job.run sched n).threadNeedTerminated = true ∧
      inFlight job (job.run sched n) ≤ actsRingbufSpace (job.run sched n).rbuf := by
  induction n with
  | zero =>
    rintro ⟨more, reason, hpc⟩
    have hstart : job.start.writerPc = .waitRx more reason := hpc
    rw [Job.start] at hstart
    split at hstart <;> cases hstart
  | succ n ih =>
    have hnext : job.run sched (n + 1) = step job (sched n) (job.run sched n) := rfl
    rw [hnext]
    cases hthread : sched n with
    | rx =>
      intro hwaits
      obtain ⟨hneed, hfits⟩ := ih (waits_rx.mp hwaits)
      exact ⟨(rxFrame job _).needTerminated.trans hneed, (fits_rx (hinv n).toInv hneed).mpr hfits⟩
    | writer =>
      intro hwaits
      rcases waits_writer hwaits with hsame | ⟨more, reason, hpc, hstop⟩
      · rw [step, hsame] at hwaits ⊢
        exact ih hwaits
      · rw [step, hstop]
        exact ⟨rfl, hstops n more reason hthread hpc⟩

/-- Where `ota_write_file_normal` goes no further. -/
def WriterPc.isOver : WriterPc → Bool
  | .trapped | .returned _ => true
  | _ => false

theorem over_stays {pc : WriterPc} (hover : pc.isOver = true) {n m : Nat}
    (hn : (job.run sched n).writerPc = pc) (hm : n ≤ m) : (job.run sched m).writerPc = pc := by
  induction m, hm using Nat.le_induction with
  | base => exact hn
  | succ m _ ih =>
    change (step job (sched m) (job.run sched m)).writerPc = _
    cases sched m with
    | rx => exact (rxFrame job _).writerPc.trans ih
    | writer =>
      rw [step, otaWriteFileNormal, ih]
      cases pc with
      | trapped => exact ih
      | returned ret => exact ih
      | _ => cases hover

theorem returned_stays {ret : Int} {n m : Nat} (hn : (job.run sched n).writerPc = .returned ret)
    (hm : n ≤ m) : (job.run sched m).writerPc = .returned ret :=
  over_stays rfl hn hm

/-- The writer is behind its loop. -/
def LoopOver (s : State) : Prop :=
  s.writerPc = .loopHead ∧ s.wlen = 0

/-- The division by zero is that behind the loop. -/
theorem exists_loopOver_of_trapped {n : Nat} (h : (job.run sched n).writerPc = .trapped) :
    job.consumeTime = 0 ∧ ∃ i, sched i = .writer ∧ LoopOver (job.run sched i) := by
  induction n with
  | zero =>
    have hstart : job.start.writerPc = .trapped := h
    rw [Job.start] at hstart
    split at hstart <;> cases hstart
  | succ n ih =>
    change (step job (sched n) (job.run sched n)).writerPc = _ at h
    cases hthread : sched n with
    | rx =>
      rw [hthread] at h
      exact ih ((rxFrame job _).writerPc.symm.trans h)
    | writer =>
      rw [hthread, step] at h
      cases hpc : (job.run sched n).writerPc <;>
        simp only [otaWriteFileNormal, takeChunk, hpc] at h
      case loopHead =>
        split at h
        · split at h <;> cases h
        case isFalse hend =>
          split at h
          case isTrue htime => exact ⟨htime, n, hthread, hpc, Nat.eq_zero_of_not_pos hend⟩
          case isFalse => cases h
      case trapped => exact ih hpc
      case waitRx more reason => cases more <;> cases reason <;> grind [finish]
      all_goals grind

theorem trapped_of_loopOver {i : Nat} (htime : job.consumeTime = 0) (hthread : sched i = .writer)
    (hover : LoopOver (job.run sched i)) : (job.run sched (i + 1)).writerPc = .trapped := by
  change (step job (sched i) (job.run sched i)).writerPc = _
  rw [hthread, step, otaWriteFileNormal, hover.1]
  dsimp only
  rw [if_neg (by rw [hover.2]; decide), if_pos htime]

/-- Without anything to write the call returns at once. -/
theorem returned_of_not_startable (sched : Nat → Thread) (h : ¬ job.Startable) :
    (job.run sched 0).writerPc = .returned einval := by
  rw [Job.Startable, not_and_or, Nat.not_lt, not_not] at h
  exact if_pos h

/-- A call of `ota_rx_stop` while more is in flight than fits into the ring does not return. -/
theorem not_returned_of_over (hstart : job.Startable) {i more : Nat} {reason : StopReason}
    (hthread : sched i = .writer) (hpc : (job.run sched i).writerPc = .stop more reason)
    (hover : actsRingbufSpace (job.run sched i).rbuf < inFlight job (job.run sched i)) (j : Nat)
    (ret : Int) :
    (job.run sched j).writerPc ≠ .returned ret := by
  have hinv : ∀ n, LiveInv job (job.run sched n) :=
    run_invariant (liveInv_start hstart) fun thread _ h => h.step thread
  have hnext : job.run sched (i + 1) =
      { job.run sched i with threadNeedTerminated := true, writerPc := .waitRx more reason } := by
    change step job (sched i) (job.run sched i) = _
    rw [hthread]
    simp only [step, otaWriteFileNormal, hpc]
  have hstuck : Stuck job (job.run sched (i + 1)) := by
    refine ⟨hinv (i + 1), ?_, ?_, ?_⟩ <;> rw [hnext]
    · exact ⟨more, reason, rfl⟩
    · exact hover
  intro hret
  rcases Nat.lt_or_ge i j with hlt | hge
  · have hlater : Stuck job (job.run sched j) :=
      run_invariant_from hstuck (fun thread _ h => h.step thread) hlt
    obtain ⟨more', reason', hpc'⟩ := hlater.waits
    cases hret.symm.trans hpc'
  · cases (returned_stays hret hge).symm.trans hpc

/-- A loop that is over in its first millisecond does not return. -/
theorem not_returned_of_loopOver {i : Nat} (htime : job.consumeTime = 0)
    (hthread : sched i = .writer) (hover : LoopOver (job.run sched i)) (j : Nat) (ret : Int) :
    (job.run sched j).writerPc ≠ .returned ret := by
  have htrapped := trapped_of_loopOver htime hthread hover
  intro hret
  rcases Nat.le_total j (i + 1) with hle | hge
  · cases (returned_stays hret hle).symm.trans htrapped
  · cases (over_stays rfl htrapped hge).symm.trans hret

/-- `ota_write_file_normal` returns if and only if, whenever it calls `ota_rx_stop`, what the rx
thread will still put into the ring fits, and a millisecond has passed when the loop is over. -/
theorem returns_iff (hfair : Fair sched) :
    (∃ i ret, (job.run sched i).writerPc = .returned ret) ↔
      (∀ i more reason, sched i = .writer → (job.run sched i).writerPc = .stop more reason →
        inFlight job (job.run sched i) ≤ actsRingbufSpace (job.run sched i).rbuf) ∧
      ∀ i, sched i = .writer → LoopOver (job.run sched i) → job.consumeTime ≠ 0 := by
  by_cases hstart : job.Startable
  case neg =>
    have hret := returned_of_not_startable sched hstart
    refine ⟨fun _ => ⟨fun i more reason _ hpc => ?_, fun i _ hover => ?_⟩,
      fun _ => ⟨0, einval, hret⟩⟩
    · cases (returned_stays hret (Nat.zero_le i)).symm.trans hpc
    · cases (returned_stays hret (Nat.zero_le i)).symm.trans hover.1
  constructor
  · rintro ⟨j, ret, hret⟩
    refine ⟨fun i more reason hthread hpc => ?_, fun i hthread hover htime => ?_⟩
    · by_contra hover
      exact not_returned_of_over hstart hthread hpc (Nat.not_le.mp hover) j ret hret
    · exact not_returned_of_loopOver htime hthread hover j ret hret
  · rintro ⟨hstops, htimes⟩
    have hinv : ∀ n, LiveInv job (job.run sched n) :=
      run_invariant (liveInv_start hstart) fun thread _ h => h.step thread
    obtain ⟨n, hsettled, hlive⟩ := exists_settled hstart hfair
    rcases hlive.settled hsettled with
      (htrapped | ⟨ret, hret⟩) | ⟨more, reason, hpc, hpended, hwait⟩
    · obtain ⟨htime, i, hthread, hover⟩ := exists_loopOver_of_trapped htrapped
      exact absurd htime (htimes i hthread hover)
    · exact ⟨n, ret, hret⟩
    · obtain ⟨-, hfits⟩ := fits_of_stops hinv hstops n ⟨more, reason, hpc⟩
      have hspace :=
        hlive.room (.inr hwait) (hlive.sem.putWaiting hwait).2 (by rw [hpc]; exact nofun)
      exact absurd ((rlen_le_inFlight hpended).trans hfits) (Nat.not_le.mpr hspace)

/-- The threads take turns. -/
def alternating (i : Nat) : Thread :=
  if i % 2 = 0 then .rx else .writer

theorem fair_alternating : Fair alternating := by
  intro thread n
  cases thread with
  | rx => exact ⟨2 * n, by omega, by grind [alternating]⟩
  | writer => exact ⟨2 * n + 1, by omega, by grind [alternating]⟩

theorem sector_pos : 0 < 4096 := by
  decide

/-- A file of six sectors, and a storage that fails at the first write. -/
def failingJob : Job where
  configBluetooth := false
  isBtBackend := false
  readLocalImage := false
  maxReqSize := 128 * 1024
  maxReqSize_pos := by decide
  segSize := 4096
  segSize_pos := sector_pos
  segSize_le := Nat.le_refl _
  imgFileOffset := some 0
  fileLen := 24576
  startFileOffs := 0
  fileOffset := 0
  isTemp := false
  partFound := true
  storageFound := true
  encrypted := false
  image := fun _ => 0
  prepareFails := fun _ => false
  readFails := fun _ => false
  storageFails := fun _ => true
  consumeTime := 1

/-- A file of three sectors, which fits into the ring. -/
def shortJob : Job := { failingJob with fileLen := 12288 }

/-- The first write fails while the rx thread puts the last sector. -/
theorem returns_iff_short :
    let s := shortJob.run alternating 21
    s.writerPc = .stop 1 .writeFailed ∧ s.rxPc = .put ∧ s.rlen = 4096 ∧
      inFlight shortJob s ≤ actsRingbufSpace s.rbuf := by
  have hret : ∃ i ret, (shortJob.run alternating i).writerPc = .returned ret :=
    ⟨38, eio, by decide +kernel⟩
  have hstop : (shortJob.run alternating 21).writerPc = .stop 1 .writeFailed := by decide +kernel
  have hfits := ((returns_iff fair_alternating).mp hret).1 21 1 .writeFailed (by decide) hstop
  exact ⟨hstop, by decide +kernel, by decide +kernel, hfits⟩

/-! ## A call that does not return -/

/-- The rx thread puts a segment, the writer takes it out, the rx thread fills the ring while the
writer is in front of its write, and then both take turns. -/
def fillingSched (i : Nat) : Thread :=
  if i < 5 then .rx
  else if i < 11 then .writer
  else if i < 32 then .rx
  else if i < 34 then .writer
  else alternating i

theorem fair_fillingSched : Fair fillingSched := by
  intro thread n
  obtain ⟨m, hm, hthread⟩ := fair_alternating thread (n + 34)
  refine ⟨m, by omega, ?_⟩
  rw [fillingSched, if_neg (by omega), if_neg (by omega), if_neg (by omega), if_neg (by omega),
    hthread]

/-- When the write has failed, the ring is full and the sixth segment waits for room. -/
theorem fillingSched_stop :
    let s := failingJob.run fillingSched 33
    s.writerPc = .stop 1 .writeFailed ∧ s.rxPc = .pendedPut ∧ s.rlen = 4096 ∧
      actsRingbufSpace s.rbuf = 0 := by
  decide +kernel

/-- `ota_rx_stop` waits forever for a thread that waits for room in the ring. -/
theorem failed_write_never_returns :
    Fair fillingSched ∧ ∀ i ret, (failingJob.run fillingSched i).writerPc ≠ .returned ret := by
  obtain ⟨hpc, hpended, hrlen, hspace⟩ := fillingSched_stop
  have hover : actsRingbufSpace (failingJob.run fillingSched 33).rbuf <
      inFlight failingJob (failingJob.run fillingSched 33) := by
    rw [hspace]
    exact lt_of_lt_of_le (by rw [hrlen]; decide) (rlen_le_inFlight hpended)
  exact ⟨fair_fillingSched, not_returned_of_over ⟨by decide, by decide⟩ (by decide) hpc hover⟩

end SpeakerFirmware.Ota.Pipeline
