/-
# Nobody waits for the other

The writer takes one token of `rx_get_sem` for each look at the ring, and the semaphore
keeps no more than five. So the rx thread may have put many segments for each token that
is left. That is enough, because one look sees all of them: after a look with nothing put
since, less than a sector is left in the ring, unless the chunk was cut to the size of the
writer's buffer; and then the ring was so full that further tokens are there.

`Looked` says this about the last look. From it, a state in which no thread can move is
one in which the writer has returned, or in which `ota_rx_stop` waits for an rx thread that
waits for room in the ring.
-/

import SpeakerFirmware.Ota.Pipeline.Invariant

namespace SpeakerFirmware.Ota.Pipeline

open Utils Interleaving Nat

variable {job : Job} {s s' : State}
variable {seen puts : Nat} {cut : Bool}

/-! ## The semaphores -/

/-- Each semaphore is waited for in one place only, and only when it has no token. -/
structure SemInv (s : State) : Prop where
  getLimit : s.getSem.limit = 5
  getCount : s.getSem.count ≤ 5
  getWaiting : s.getSem.waiting = true → s.writerPc = .pendedGet ∧ s.getSem.count = 0
  putLimit : s.putSem.limit = 1
  putCount : s.putSem.count ≤ 1
  putWaiting : s.putSem.waiting = true → s.rxPc = .pendedPut ∧ s.putSem.count = 0

theorem SemInv.rx (h : SemInv s) : SemInv (otaRxThread job s) := by
  obtain ⟨h1, h2, h3, h4, h5, h6⟩ := h
  cases hpc : s.rxPc <;> simp only [otaRxThread, hpc]
  case takePut | giveGet | exitGive | pendedPut => constructor <;> grind [kSemTake, kSemGive]
  all_goals
    have hno : ¬ s.putSem.waiting = true := by grind
    repeat' split
    all_goals exact ⟨h1, h2, h3, h4, h5, fun hwait => absurd hwait hno⟩

theorem SemInv.writer (h : SemInv s) : SemInv (otaWriteFileNormal job s) := by
  obtain ⟨h1, h2, h3, h4, h5, h6⟩ := h
  cases hpc : s.writerPc <;> simp only [otaWriteFileNormal, takeChunk, hpc]
  case takeGet | givePut | pendedGet => constructor <;> grind [kSemTake, kSemGive]
  case waitRx more reason =>
    have hno : ¬ s.getSem.waiting = true := by grind
    cases reason <;> repeat' split
    all_goals exact ⟨h1, h2, fun hwait => absurd hwait hno, h4, h5, h6⟩
  all_goals
    have hno : ¬ s.getSem.waiting = true := by grind
    repeat' split
    all_goals exact ⟨h1, h2, fun hwait => absurd hwait hno, h4, h5, h6⟩

/-- While the rx thread is going to wait for room, there is no room, or a token is on its way. -/
def RoomInv (s : State) : Prop :=
  s.rxPc = .takePut ∨ s.putSem.waiting = true → s.putSem.count = 0 → s.writerPc ≠ .givePut →
    actsRingbufSpace s.rbuf < s.rlen

theorem RoomInv.rx (h : RoomInv s) (hsem : SemInv s) : RoomInv (otaRxThread job s) := by
  have hwait := hsem.putWaiting
  unfold RoomInv at *
  cases hpc : s.rxPc <;> simp only [otaRxThread, hpc]
  all_goals grind [kSemTake]

theorem RoomInv.writer (h : RoomInv s) (hsem : SemInv s) : RoomInv (otaWriteFileNormal job s) := by
  have hwait := hsem.putWaiting
  have hlimit := hsem.putLimit
  unfold RoomInv at *
  cases hpc : s.writerPc <;> simp only [otaWriteFileNormal, takeChunk, hpc]
  case waitRx more reason => cases reason <;> grind [finish]
  all_goals grind [kSemGive, kSemTake]

/-! ## The last look at the ring -/

/-- The writer is in its loop. -/
@[grind =]
def WriterPc.inLoop : WriterPc → Bool
  | .stop _ _ | .waitRx _ _ | .trapped | .returned _ => false
  | _ => true

/-- The writer has a token for a look that it has not yet made. -/
@[grind =]
def State.inHand (s : State) : Bool :=
  match s.writerPc with
  | .pendedGet => !s.getSem.waiting
  | .checkErrno | .readLength => true
  | _ => false

/-- The looks that are still to come without further segments: a token in the semaphore, one that
the rx thread is about to give, or one that the writer has in hand. -/
@[grind =]
def State.tokens (s : State) : Nat :=
  s.getSem.count + (if s.rxPc = .giveGet then 1 else 0) + (if s.inHand then 1 else 0)

/-- The head of the ring when the chunk that was decided on is out. -/
@[grind =]
def State.nextHead (s : State) : Nat :=
  match s.writerPc with
  | .get => s.rbuf.head + s.inSize
  | _ => s.rbuf.head

/-- At the last look the tail was at `seen`, and the chunk was cut to the size of the buffer or not;
since then `puts` segments were put. -/
structure Looked (job : Job) (s : State) (seen puts : Nat) (cut : Bool) : Prop where
  seen_le : seen ≤ s.rbuf.tail
  tail_le : s.rbuf.tail ≤ seen + 4096 * puts
  left : cut = false → seen < s.nextHead + 4096
  leftCut : cut = true → seen ≤ s.nextHead + (job.rxBufsize - job.inBufsize)
  all : cut = false → seen = job.len → s.nextHead = job.len
  tokens : min 5 (puts + cut.toNat) ≤ s.tokens

/-- The looks that were made and the tokens account for everything in the ring. -/
def LookInv (job : Job) (s : State) : Prop :=
  s.writerPc.inLoop = true → ∃ seen puts cut, Looked job s seen puts cut

/-- A step that neither looks nor puts, and loses no token below the limit. -/
theorem Looked.congr (h : Looked job s seen puts cut)
    (htail : s'.rbuf.tail = s.rbuf.tail) (hnext : s'.nextHead = s.nextHead)
    (htokens : min 5 s.tokens ≤ s'.tokens) : Looked job s' seen puts cut := by
  obtain ⟨h1, h2, h3, h4, h5, h6⟩ := h
  refine ⟨by omega, by omega, ?_, ?_, ?_, by omega⟩ <;> rwa [hnext]

/-- A segment was put; its token is about to be given. -/
theorem Looked.put (h : Looked job s seen puts cut)
    (htail : s.rbuf.tail ≤ s'.rbuf.tail) (hle : s'.rbuf.tail ≤ s.rbuf.tail + 4096)
    (hnext : s'.nextHead = s.nextHead) (htokens : s.tokens + 1 ≤ s'.tokens) :
    Looked job s' seen (puts + 1) cut := by
  obtain ⟨h1, h2, h3, h4, h5, h6⟩ := h
  have hmore : s'.rbuf.tail ≤ seen + 4096 * (puts + 1) := by
    rw [Nat.mul_add, Nat.mul_one, ← Nat.add_assoc]
    exact hle.trans (Nat.add_le_add_right h2 4096)
  have hmin : min 5 (puts + 1 + cut.toNat) ≤ s'.tokens := by omega
  refine ⟨h1.trans htail, hmore, ?_, ?_, ?_, hmin⟩ <;> rwa [hnext]

/-- The rx thread gives as many tokens as it promised, up to the limit. -/
theorem tokens_rx (hsem : SemInv s) (hpc : s.rxPc ≠ .put) :
    min 5 s.tokens ≤ (otaRxThread job s).tokens := by
  obtain ⟨h1, h2, h3, -, -, -⟩ := hsem
  cases hpc' : s.rxPc <;> simp only [otaRxThread, hpc'] <;> grind [kSemGive]

theorem nextHead_rx (hframe : RxFrame s s') : s'.nextHead = s.nextHead := by
  rw [State.nextHead, State.nextHead, hframe.writerPc, hframe.head, hframe.inSize]

theorem LookInv.rx (h : LookInv job s) (hinv : Inv job s) (hsem : SemInv s) :
    LookInv job (otaRxThread job s) := by
  have hframe := rxFrame job s
  intro hloop
  rw [hframe.writerPc] at hloop
  obtain ⟨seen, puts, cut, hlooked⟩ := h hloop
  by_cases hpc : s.rxPc = .put
  · have hrx := hinv.rx
    rw [hpc] at hrx
    obtain ⟨⟨⟨-, hplace⟩, ⟨-, -, hsector, -⟩, hdata⟩, hroom⟩ := hrx
    have htail := (hinv.ring.put hplace hroom hdata).1
    refine ⟨seen, puts + 1, cut, hlooked.put hframe.tail ?_ (nextHead_rx hframe) ?_⟩
    · simp only [otaRxThread, hpc, htail]
      omega
    · simp only [otaRxThread, hpc]
      grind
  · refine ⟨seen, puts, cut, hlooked.congr ?_ (nextHead_rx hframe) (tokens_rx hsem hpc)⟩
    cases hpc' : s.rxPc <;> simp only [otaRxThread, hpc'] <;> grind

/-- A new look. The chunk is cut only if there was enough in the ring for a second token. -/
theorem Looked.look (h : Looked job s seen puts cut)
    (hinv : Inv job s) (hpc : s.writerPc = .readLength) (hdecision : Decision job s s') :
    ∃ cut', Looked job s' s'.rbuf.tail 0 cut' := by
  have hbuf := job.buffers
  have hle := hinv.ring.head_le
  have hlen := hinv.ring.length_le
  have hwriter := hinv.writer
  rw [hpc] at hwriter
  obtain ⟨⟨hgoal, -, -⟩, hpos⟩ := hwriter
  obtain ⟨h1, h2, h3, h4, h5, h6⟩ := h
  have hnext : s.nextHead = s.rbuf.head := by rw [State.nextHead, hpc]
  have htokens : s.tokens = s.getSem.count + (if s.rxPc = .giveGet then 1 else 0) + 1 := by
    rw [State.tokens, State.inHand, hpc]
    rfl
  cases hdecision with
  | wait inSize hless hmore =>
    refine ⟨false, le_refl _, le_refl _, fun _ => ?_, nofun, fun _ hall => ?_, zero_le _⟩
    · dsimp only [State.nextHead]
      omega
    · dsimp only at hall
      omega
  | take inSize isRecord trace htrace hchunk hinle hfull hrest =>
    by_cases hcut : job.inBufsize < s.rbuf.tail - s.rbuf.head
    · have hsize := hfull hcut
      refine ⟨true, le_refl _, le_refl _, nofun, fun _ => ?_, nofun, ?_⟩
      · dsimp only [State.nextHead]
        omega
      · have hmany : 2 ≤ puts + cut.toNat := by
          cases cut with
          | true =>
            have hleft := h4 rfl
            simp only [Bool.toNat_true]
            omega
          | false =>
            have hleft := h3 rfl
            simp only [Bool.toNat_false]
            omega
        have hgot : s.getSem.count + (if s.rxPc = .giveGet then 1 else 0) ≤
            State.tokens { s with
              noWait := false, inSize := inSize, isRecord := isRecord, trace := trace, writerPc :=
                .get } :=
          le_refl _
        simp only [Bool.toNat_true]
        omega
    · obtain ⟨hfew, hend⟩ := hrest (not_lt.mp hcut)
      refine ⟨false, le_refl _, le_refl _, fun _ => ?_, nofun, fun _ hall => ?_, zero_le _⟩
      · dsimp only [State.nextHead]
        omega
      · dsimp only [State.nextHead] at hall ⊢
        omega

theorem inLoop_of_writer (hloop : (otaWriteFileNormal job s).writerPc.inLoop = true) :
    s.writerPc.inLoop = true := by
  cases hpc : s.writerPc
  case stop | trapped | returned => simp only [otaWriteFileNormal, hpc] at hloop; exact hloop
  case waitRx more reason =>
    simp only [otaWriteFileNormal, hpc] at hloop
    cases more <;> cases reason <;> grind [finish]
  all_goals rfl

/-- What the writer does between two looks keeps the tokens that are not used up. -/
theorem tokens_writer (hsem : SemInv s) (hpc : s.writerPc ≠ .readLength)
    (hloop : (otaWriteFileNormal job s).writerPc.inLoop = true) :
    min 5 s.tokens ≤ (otaWriteFileNormal job s).tokens := by
  have hwait := hsem.getWaiting
  have hin := inLoop_of_writer hloop
  cases hpc' : s.writerPc <;> simp only [otaWriteFileNormal, hpc'] at hloop ⊢
  case stop | waitRx | returned => rw [hpc'] at hin; cases hin
  all_goals grind [kSemTake]

theorem nextHead_writer (hinv : Inv job s) (hpc : s.writerPc ≠ .readLength)
    (hloop : (otaWriteFileNormal job s).writerPc.inLoop = true) :
    (otaWriteFileNormal job s).nextHead = s.nextHead := by
  have hwriter := hinv.writer
  have hin := inLoop_of_writer hloop
  cases hpc' : s.writerPc <;> simp only [otaWriteFileNormal, hpc'] at hloop ⊢
  case stop | waitRx => rw [hpc'] at hin; cases hin
  case get =>
    rw [hpc'] at hwriter
    simp only [State.nextHead, hpc']
    exact (hinv.ring.get hwriter.2.2).2.1
  all_goals grind

theorem LookInv.writer (h : LookInv job s) (hinv : Inv job s) (hsem : SemInv s) :
    LookInv job (otaWriteFileNormal job s) := by
  intro hloop
  obtain ⟨seen, puts, cut, hlooked⟩ := h (inLoop_of_writer hloop)
  by_cases hpc : s.writerPc = .readLength
  · have hwriter := hinv.writer
    rw [hpc] at hwriter
    have hdecision := decision hinv.ring (length_le_wlen hinv.rx hwriter.1) hwriter.2
    simp only [otaWriteFileNormal, hpc]
    obtain ⟨cut', hlooked'⟩ := hlooked.look hinv hpc hdecision
    exact ⟨_, _, _, hlooked'⟩
  · exact ⟨seen, puts, cut, hlooked.congr (writerFrame job s).tail (nextHead_writer hinv hpc hloop)
      (tokens_writer hsem hpc hloop)⟩

/-! ## Errors -/

/-- When the rx thread has ended with an error, the writer has a token with which it will see it. -/
def ErrnoInv (s : State) : Prop :=
  s.rxPc = .terminate ∨ s.rxPc = .done → s.rxErrno ≠ 0 → s.writerPc.inLoop = true →
    0 < s.getSem.count ∨ s.writerPc = .checkErrno ∨
      s.writerPc = .pendedGet ∧ s.getSem.waiting = false

theorem ErrnoInv.rx (h : ErrnoInv s) (hsem : SemInv s) : ErrnoInv (otaRxThread job s) := by
  have hwait := hsem.getWaiting
  have hlimit := hsem.getLimit
  have hcount := hsem.getCount
  unfold ErrnoInv at *
  cases hpc : s.rxPc <;> simp only [otaRxThread, hpc] <;> grind [kSemGive]

theorem ErrnoInv.writer (h : ErrnoInv s) : ErrnoInv (otaWriteFileNormal job s) := by
  unfold ErrnoInv at *
  cases hpc : s.writerPc <;> simp only [otaWriteFileNormal, takeChunk, hpc]
  case waitRx more reason => cases reason <;> grind [finish]
  all_goals grind [kSemTake]

/-! ## States in which nobody can move -/

/-- All that holds between two steps. -/
structure LiveInv (job : Job) (s : State) : Prop extends Inv job s where
  sem : SemInv s
  room : RoomInv s
  look : LookInv job s
  errno : ErrnoInv s

theorem liveInv_start (h : job.Startable) : LiveInv job job.start := by
  obtain ⟨hrx, -⟩ := start_loopHead h
  refine ⟨inv_start h, ⟨rfl, zero_le _, nofun, rfl, zero_le _, nofun⟩, ?_, ?_, ?_⟩
  · rw [RoomInv, hrx]
    rintro (hpc | hwait)
    · cases hpc
    · cases hwait
  · refine fun _ => ⟨0, 0, false, Nat.le_refl _, Nat.le_refl _, ?_, nofun, ?_, Nat.zero_le _⟩
    · exact fun _ => Nat.lt_add_left _ (by decide)
    · intro _ hlen
      exact absurd hlen (Nat.ne_of_lt (Nat.sub_pos_of_lt h.1))
  · rw [ErrnoInv, hrx]
    rintro (hpc | hpc)
    · cases hpc
    · cases hpc

theorem LiveInv.step (h : LiveInv job s) (thread : Thread) : LiveInv job (step job thread s) := by
  have hinv := h.toInv.step thread
  cases thread with
  | rx => exact ⟨hinv, h.sem.rx, h.room.rx h.sem, h.look.rx h.toInv h.sem, h.errno.rx h.sem⟩
  | writer =>
    exact ⟨hinv, h.sem.writer, h.room.writer h.sem, h.look.writer h.toInv h.sem, h.errno.writer⟩

theorem rx_still (h : otaRxThread job s = s) :
    s.rxPc = .done ∨ s.rxPc = .pendedPut ∧ s.putSem.waiting = true := by
  have hpc := congrArg State.rxPc h
  cases hpc' : s.rxPc <;> simp only [otaRxThread, hpc'] at hpc <;> grind

theorem writer_still (h : otaWriteFileNormal job s = s) :
    (s.writerPc = .trapped ∨ ∃ ret, s.writerPc = .returned ret) ∨
      s.writerPc = .pendedGet ∧ s.getSem.waiting = true ∨
      ∃ more reason, s.writerPc = .waitRx more reason ∧ s.threadTerminated = false := by
  have hpc := congrArg State.writerPc h
  cases hpc' : s.writerPc <;> simp only [otaWriteFileNormal, takeChunk, hpc'] at hpc
  case waitRx more reason =>
    cases more <;> cases reason <;> grind [finish]
  all_goals grind

/-- The writer does not wait for a token in vain. -/
theorem LiveInv.not_pended (h : LiveInv job s)
    (hrx : s.rxPc = .done ∨ s.rxPc = .pendedPut ∧ s.putSem.waiting = true)
    (hpc : s.writerPc = .pendedGet) (hwait : s.getSem.waiting = true) : False := by
  have hbuf := job.buffers
  have hcount := (h.sem.getWaiting hwait).2
  have hwriter := h.writer
  rw [hpc] at hwriter
  obtain ⟨⟨hgoal, -, halive⟩, hpos⟩ := hwriter
  obtain ⟨seen, puts, cut, hlooked⟩ := h.look (by rw [hpc]; rfl)
  have htokens : s.tokens = 0 := by
    rw [State.tokens, State.inHand, hpc, hcount, if_neg (by grind)]
    simp [hwait]
  have hnext : s.nextHead = s.rbuf.head := by rw [State.nextHead, hpc]
  -- nothing was put since the last look, and it was not cut
  obtain ⟨rfl, rfl⟩ : puts = 0 ∧ cut = false := by
    have hfew := hlooked.tokens
    rw [htokens] at hfew
    cases cut with
    | false =>
      simp only [Bool.toNat_false] at hfew
      exact ⟨by omega, rfl⟩
    | true =>
      simp only [Bool.toNat_true] at hfew
      omega
  have hseen : seen = s.rbuf.tail := by
    have hle := hlooked.seen_le
    have hge := hlooked.tail_le
    omega
  have hrx' := h.rx
  rcases hrx with hdone | ⟨hpended, hput⟩
  · rw [hdone] at hrx'
    obtain ⟨⟨hmoved, -⟩, hsize | herrno | hneed⟩ := hrx'
    · have hall := hlooked.all rfl (by omega)
      omega
    · have herr := h.errno (.inr hdone) herrno (by rw [hpc]; rfl)
      grind
    · rw [hneed] at halive
      cases halive
  · rw [hpended] at hrx'
    obtain ⟨-, ⟨-, -, hsector, -⟩, -⟩ := hrx'
    have hspace := h.room (.inr hput) (h.sem.putWaiting hput).2 (by rw [hpc]; decide)
    rw [h.ring.space_eq] at hspace
    have hleft := hlooked.left rfl
    omega

/-- A state in which nobody can move. -/
theorem LiveInv.settled (h : LiveInv job s) (hsettled : Settled (Pipeline.step job) s) :
    (s.writerPc = .trapped ∨ ∃ ret, s.writerPc = .returned ret) ∨
      ∃ more reason, s.writerPc = .waitRx more reason ∧ s.rxPc = .pendedPut ∧
        s.putSem.waiting = true := by
  have hrx := rx_still (hsettled .rx)
  rcases writer_still (hsettled .writer) with hret | ⟨hpc, hwait⟩ | ⟨more, reason, hpc, hnot⟩
  · exact .inl hret
  · exact (h.not_pended hrx hpc hwait).elim
  · rcases hrx with hdone | hpended
    · rw [h.terminated.mpr hdone] at hnot
      cases hnot
    · exact .inr ⟨more, reason, hpc, hpended⟩

end SpeakerFirmware.Ota.Pipeline
