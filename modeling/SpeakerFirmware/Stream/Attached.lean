/-
# Attached streams

What is read from a stream, or written to it, also goes to the streams that are attached to it for
that direction. `stream_read` and `stream_write` keep the result of the transfer and of every
mirror write in the one variable `brw`, and mirror the size that was asked for.

So the mirrors get the right bytes, and the caller the right number, if all that was asked for is
transferred and every mirror takes all of it, and in few other cases. What a stream's own `read`
or `write` returns, and what those of the attached streams return, is an input here.
-/

import SpeakerFirmware.Errno
import Mathlib.Data.List.Basic

namespace SpeakerFirmware.Stream

open Errno
open List

variable {start : Nat}

/-! ## The functions -/

def modeIn : UInt8 := 0x01
def modeOut : UInt8 := 0x02
def modeReadBlock : UInt8 := 0x04
def modeWriteBlock : UInt8 := 0x08
def modeBlockTimeout : UInt8 := 0x10
def modeMonoCopy : UInt8 := 0x20

def hasMode (mode mask : UInt8) : Bool :=
  mode &&& mask ≠ 0

inductive StreamState
  | init | open | close
  deriving DecidableEq, Repr

/-- A place of `attach_stream` with its `attach_mode`; the stream may be `NULL`. -/
structure Slot where
  mode : UInt8
  attached : Bool
  deriving DecidableEq, Repr

variable {slots : List Slot}

/-- The fields of a stream that reads and writes depend on. -/
structure Handle where
  state : StreamState
  mode : UInt8
  writeFinished : Bool
  attach : List Slot
  deriving DecidableEq, Repr

variable {handle : Handle}

/-- What a blocked call sees: what `stream_get_length` or `stream_get_space` says, and after the
wait for the semaphore whether the stream is still open and `write_finished` is set. -/
structure Look where
  available : Int
  stillOpen : Bool
  writeFinished : Bool

inductive Wait
  | ready | timedOut | closed | waiting
  deriving DecidableEq, Repr

/-- The loops of a blocked call. Only a read goes on when the writing has finished. -/
def waitLoop (breaks timeout : Bool) (num : Int) : Nat → List Look → Wait
  | _, [] => .waiting
  | tryCnt, look :: looks =>
    if look.available < num then
      if timeout ∧ tryCnt > 20 then .timedOut
      else if look.stillOpen = false then .closed
      else if breaks ∧ look.writeFinished then .ready
      else waitLoop breaks timeout num (tryCnt + 1) looks
    else .ready

/-- A call: the buffer with `num` bytes (for a read, as the stream's own `read` leaves it), what is
seen while it is blocked, what the stream's own operation returns, and what the writes of the
attached streams return. -/
structure Call where
  buf : List UInt8
  looks : List Look
  result : Int
  accepts : Nat → List UInt8 → Int
  result_le : result ≤ buf.length

variable {call : Call}

/-- What a call does: the value it returns, the bytes that the stream itself transferred with the
value for that, and the writes to the attached streams. -/
structure Outcome where
  handle : Handle
  ret : Int
  own : Int
  moved : List UInt8
  mirrored : List (Nat × List UInt8)

section

variable (handle : Handle)

/-- A call that returns without a transfer. -/
def refused (ret : Int) : Outcome :=
  ⟨handle, ret, ret, [], []⟩

/-- The loop over `attach_stream`: the last `brw`, and what was written. -/
def mirror (mode : UInt8) (accepts : Nat → List UInt8 → Int) (buf : List UInt8) :
    Nat → List Slot → Int → Int × List (Nat × List UInt8)
  | _, [], brw => (brw, [])
  | i, slot :: slots, brw =>
    if slot.mode ≠ mode then mirror mode accepts buf (i + 1) slots brw
    else if slot.attached = false then mirror mode accepts buf (i + 1) slots brw
    else
      let brw := accepts i buf
      if brw ≠ buf.length then (brw, [(i, buf)])
      else
        let r := mirror mode accepts buf (i + 1) slots brw
        (r.1, (i, buf) :: r.2)

/-- How far a call gets before its transfer. -/
def waits (block : UInt8) (breaks : Bool) (call : Call) : Wait :=
  if hasMode handle.mode block then
    waitLoop breaks (hasMode handle.mode modeBlockTimeout) call.buf.length 0 call.looks
  else .ready

/-- `stream_read` behind the wait. -/
def readTransfer (call : Call) : Outcome :=
  if call.result < 0 then ⟨handle, 0, 0, [], []⟩
  else
    let r := mirror modeIn call.accepts call.buf 0 handle.attach call.result
    ⟨handle, r.1, call.result, call.buf.take call.result.toNat, r.2⟩

/-- `stream_write` behind the wait. -/
def writeTransfer (call : Call) : Outcome :=
  if call.result ≠ call.buf.length then
    ⟨handle, call.result, call.result, call.buf.take call.result.toNat, []⟩
  else
    let handle := if call.buf.length = 0 then { handle with writeFinished := true } else handle
    let r := mirror modeOut call.accepts call.buf 0 handle.attach call.result
    ⟨handle, r.1, call.result, call.buf.take call.result.toNat, r.2⟩

/-- What both calls do before their transfer: `-ENOSYS`, `-EPERM`, the wait. -/
def guarded (mode block : UInt8) (breaks : Bool) (call : Call) (transfer : Outcome) :
    Option Outcome :=
  if handle.state ≠ .open then some (refused handle enosys)
  else if hasMode handle.mode mode = false then some (refused handle eperm)
  else
    match waits handle block breaks call with
    | .waiting => none
    | .timedOut => some (refused { handle with writeFinished := true } 0)
    | .closed => some (refused { handle with state := .close } enosys)
    | .ready => some transfer

/-- `stream_read`; it has no outcome while it waits. -/
def streamRead (call : Call) : Option Outcome :=
  guarded handle modeIn modeReadBlock true call (readTransfer handle call)

def streamWrite (call : Call) : Option Outcome :=
  guarded handle modeOut modeWriteBlock false call (writeTransfer handle call)

end

/-! ## The mirrors -/

/-- A stream is attached at the place, for the direction. -/
def Matches (slots : List Slot) (mode : UInt8) (i : Nat) : Prop :=
  slots[i]? = some ⟨mode, true⟩

/-- All that was written to the stream attached at a place. -/
def givenTo (i : Nat) (mirrored : List (Nat × List UInt8)) : List UInt8 :=
  (mirrored.filter fun write => write.1 = i).flatMap Prod.snd

/-- Each attached stream is given what was transferred, and the caller gets the number of the own
transfer. -/
structure Mirrors (handle : Handle) (mode : UInt8) (outcome : Outcome) : Prop where
  given : ∀ i, Matches handle.attach mode i → givenTo i outcome.mirrored = outcome.moved
  ret : outcome.ret = outcome.own

section

variable {i k : Nat} {buf : List UInt8} {mirrored : List (Nat × List UInt8)}

theorem givenTo_cons_self : givenTo i ((i, buf) :: mirrored) = buf ++ givenTo i mirrored := by
  simp [givenTo]

theorem givenTo_cons_of_ne (hne : k ≠ i) :
    givenTo i ((k, buf) :: mirrored) = givenTo i mirrored := by
  simp [givenTo, hne]

end

section

/-- The places from one on. -/
def MatchesFrom (start : Nat) (slots : List Slot) (mode : UInt8) (i : Nat) : Prop :=
  start ≤ i ∧ Matches slots mode (i - start)

theorem matchesFrom_zero {mode : UInt8} {i : Nat} :
    MatchesFrom 0 slots mode i ↔ Matches slots mode i := by
  simp [MatchesFrom]

theorem matchesFrom_cons {slot : Slot} {mode : UInt8} {i : Nat} :
    MatchesFrom start (slot :: slots) mode i ↔
      i = start ∧ slot = ⟨mode, true⟩ ∨ MatchesFrom (start + 1) slots mode i := by
  unfold MatchesFrom Matches
  rcases Nat.lt_trichotomy i start with hlt | rfl | hgt
  · have hne : ¬ i = start := by omega
    have hle : ¬ start ≤ i ∧ ¬ start + 1 ≤ i := by omega
    simp [hne, hle]
  · have hle : ¬ i + 1 ≤ i := by omega
    simp [hle]
  · obtain ⟨k, rfl⟩ := Nat.exists_eq_add_of_lt hgt
    have hsub : start + k + 1 - start = k + 1 := by omega
    have hsub' : start + k + 1 - (start + 1) = k := by omega
    have hne : ¬ start + k + 1 = start := by omega
    have hle : start ≤ start + k + 1 ∧ start + 1 ≤ start + k + 1 := by omega
    simp [hsub, hsub', hne, hle]

variable (mode : UInt8) (accepts : Nat → List UInt8 → Int) (buf : List UInt8)

/-- A slot that is empty, or for the other direction, is passed over. -/
theorem mirror_cons_of_ne {slot : Slot} (hslot : slot ≠ ⟨mode, true⟩) (i : Nat) (slots : List Slot)
    (brw : Int) :
    mirror mode accepts buf i (slot :: slots) brw = mirror mode accepts buf (i + 1) slots brw := by
  rw [mirror]
  split
  · rfl
  · rename_i hmode
    split
    · rfl
    · rename_i hattached
      refine absurd ?_ hslot
      cases slot
      simp_all

/-- An attached stream is given the buffer; the others get their turn if it takes all of it. -/
theorem mirror_cons_self (i : Nat) (slots : List Slot) (brw : Int) :
    mirror mode accepts buf i (⟨mode, true⟩ :: slots) brw =
      if accepts i buf = buf.length then
        ((mirror mode accepts buf (i + 1) slots buf.length).1,
          (i, buf) :: (mirror mode accepts buf (i + 1) slots buf.length).2)
      else (accepts i buf, [(i, buf)]) := by
  rw [mirror]
  by_cases haccepts : accepts i buf = buf.length <;> simp [haccepts]

theorem mirror_of_none (hnone : ∀ i, ¬ MatchesFrom start slots mode i) (brw : Int) :
    mirror mode accepts buf start slots brw = (brw, []) := by
  induction slots generalizing start with
  | nil => rfl
  | cons slot slots ih =>
    simp only [matchesFrom_cons, not_or, not_and] at hnone
    rw [mirror_cons_of_ne _ _ _ fun hslot => (hnone start).1 rfl hslot]
    exact ih fun i => (hnone i).2

/-- Nothing is written to a stream before its turn. -/
theorem givenTo_of_lt {i : Nat} (hi : i < start) (slots : List Slot) (brw : Int) :
    givenTo i (mirror mode accepts buf start slots brw).2 = [] := by
  induction slots generalizing start brw with
  | nil => rfl
  | cons slot slots ih =>
    have hne : start ≠ i := by omega
    have hrest : ∀ brw, givenTo i (mirror mode accepts buf (start + 1) slots brw).2 = [] :=
      ih (by omega)
    by_cases hslot : slot = ⟨mode, true⟩
    · rw [hslot, mirror_cons_self]
      split
      · rw [givenTo_cons_of_ne hne, hrest]
      · rw [givenTo_cons_of_ne hne]
        rfl
    · rw [mirror_cons_of_ne _ _ _ hslot, hrest]

/-- If every attached stream takes all, each of them gets all, and `brw` is that number. -/
theorem mirror_of_all
    (hall : ∀ i, MatchesFrom start slots mode i → accepts i buf = buf.length) :
    (mirror mode accepts buf start slots buf.length).1 = buf.length ∧
      ∀ i, MatchesFrom start slots mode i →
        givenTo i (mirror mode accepts buf start slots buf.length).2 = buf := by
  induction slots generalizing start with
  | nil => exact ⟨rfl, fun i hi => (by cases hi.2)⟩
  | cons slot slots ih =>
    simp only [matchesFrom_cons] at hall ⊢
    obtain ⟨hret, hgiven⟩ := ih fun i hi => hall i (.inr hi)
    by_cases hslot : slot = ⟨mode, true⟩
    · rw [hslot, mirror_cons_self, if_pos (hall start (.inl ⟨rfl, hslot⟩))]
      refine ⟨hret, fun i hi => ?_⟩
      rcases hi with ⟨rfl, -⟩ | hi
      · rw [givenTo_cons_self, givenTo_of_lt _ _ _ (Nat.lt_succ_self i), append_nil]
      · have hne : start ≠ i := Nat.ne_of_lt hi.1
        rw [givenTo_cons_of_ne hne, hgiven i hi]
    · rw [mirror_cons_of_ne _ _ _ hslot]
      refine ⟨hret, fun i hi => ?_⟩
      rcases hi with ⟨-, heq⟩ | hi
      · exact absurd heq hslot
      · exact hgiven i hi

/-- If an attached stream does not take all, `brw` is not that number. -/
theorem mirror_of_not_all {i : Nat} (hi : MatchesFrom start slots mode i)
    (hne : accepts i buf ≠ buf.length) (brw : Int) :
    (mirror mode accepts buf start slots brw).1 ≠ buf.length := by
  induction slots generalizing start brw with
  | nil => cases hi.2
  | cons slot slots ih =>
    rcases matchesFrom_cons.mp hi with ⟨rfl, hslot⟩ | hlater
    · rw [hslot, mirror_cons_self, if_neg hne]
      exact hne
    · have hrest := ih hlater
      by_cases hslot : slot = ⟨mode, true⟩
      · rw [hslot, mirror_cons_self]
        split
        · exact hrest _
        · assumption
      · rw [mirror_cons_of_ne _ _ _ hslot]
        exact hrest brw

/-- Whatever they take, the first attached stream is given the whole buffer. -/
theorem exists_givenTo {i : Nat} (hi : MatchesFrom start slots mode i) (brw : Int) :
    ∃ k, MatchesFrom start slots mode k ∧
      givenTo k (mirror mode accepts buf start slots brw).2 = buf := by
  induction slots generalizing start with
  | nil => cases hi.2
  | cons slot slots ih =>
    by_cases hslot : slot = ⟨mode, true⟩
    · refine ⟨start, matchesFrom_cons.mpr (.inl ⟨rfl, hslot⟩), ?_⟩
      rw [hslot, mirror_cons_self]
      split
      · rw [givenTo_cons_self, givenTo_of_lt _ _ _ (Nat.lt_succ_self start), append_nil]
      · rw [givenTo_cons_self]
        exact append_nil buf
    · rcases matchesFrom_cons.mp hi with ⟨-, heq⟩ | hlater
      · exact absurd heq hslot
      · obtain ⟨k, hk, hgiven⟩ := ih hlater
        rw [mirror_cons_of_ne _ _ _ hslot]
        exact ⟨k, matchesFrom_cons.mpr (.inr hk), hgiven⟩

end

/-! ## When the mirrors are right -/

/-- No stream is attached for the direction, or the own transfer is complete and so are those of all
attached streams. -/
def AllTake (handle : Handle) (mode : UInt8) (call : Call) : Prop :=
  (∀ i, ¬ Matches handle.attach mode i) ∨
    call.result = call.buf.length ∧ ∀ i, Matches handle.attach mode i →
      call.accepts i call.buf = call.buf.length

theorem mirrors_iff_allTake {handle' : Handle} {mode : UInt8} (hresult : 0 ≤ call.result) :
    Mirrors handle mode
      ⟨handle', (mirror mode call.accepts call.buf 0 handle.attach call.result).1, call.result,
        call.buf.take call.result.toNat,
          (mirror mode call.accepts call.buf 0 handle.attach call.result).2⟩ ↔
      AllTake handle mode call := by
  simp only [AllTake, ← matchesFrom_zero]
  constructor
  · rintro ⟨hgiven, hret⟩
    by_cases hnone : ∀ i, ¬ MatchesFrom 0 handle.attach mode i
    · exact .inl hnone
    · right
      obtain ⟨i, hi⟩ := not_forall_not.mp hnone
      obtain ⟨k, hk, hbuf⟩ := exists_givenTo mode call.accepts call.buf hi call.result
      have htake : call.buf = call.buf.take call.result.toNat :=
        hbuf.symm.trans (hgiven k (matchesFrom_zero.mp hk))
      have hle := call.result_le
      have hlen := congrArg length htake
      rw [length_take] at hlen
      have hfull : call.result = call.buf.length := by omega
      refine ⟨hfull, fun i hi => ?_⟩
      by_contra hne
      exact mirror_of_not_all mode call.accepts call.buf hi hne _ (hret.trans hfull)
  · rintro (hnone | ⟨hfull, hall⟩)
    · rw [mirror_of_none _ _ _ hnone]
      exact ⟨fun i hi => absurd (matchesFrom_zero.mpr hi) (hnone i), rfl⟩
    · obtain ⟨hret, hgiven⟩ := mirror_of_all mode call.accepts call.buf hall
      rw [hfull]
      refine ⟨fun i hi => ?_, hret⟩
      rw [hgiven i (matchesFrom_zero.mpr hi), Int.toNat_natCast, take_length]

/-- A write that is not complete is not mirrored at all. -/
theorem mirrors_partial_iff {handle' : Handle} {mode : UInt8}
    (hpart : call.result ≠ call.buf.length) :
    Mirrors handle mode ⟨handle', call.result, call.result, call.buf.take call.result.toNat, []⟩ ↔
      call.result ≠ call.buf.length ∧ call.result ≤ 0 ∨ AllTake handle mode call := by
  have hle := call.result_le
  constructor
  · rintro ⟨hgiven, -⟩
    by_cases hnone : ∀ i, ¬ Matches handle.attach mode i
    · exact .inr (.inl hnone)
    · obtain ⟨i, hi⟩ := not_forall_not.mp hnone
      have hlen := congrArg length (hgiven i hi)
      rw [length_take, show (givenTo i []).length = 0 from rfl] at hlen
      exact .inl ⟨hpart, by omega⟩
  · rintro (⟨-, hzero⟩ | hnone | ⟨hfull, -⟩)
    · refine ⟨fun i _ => ?_, rfl⟩
      rw [Int.toNat_of_nonpos hzero, take_zero]
      rfl
    · exact ⟨fun i hi => absurd hi (hnone i), rfl⟩
    · exact absurd hfull hpart

theorem mirrors_refused (handle handle' : Handle) (mode : UInt8) (ret : Int) :
    Mirrors handle mode (refused handle' ret) :=
  ⟨fun _ _ => rfl, rfl⟩

/-- The call gets as far as its transfer. -/
def Transfers (handle : Handle) (mode block : UInt8) (breaks : Bool) (call : Call) : Prop :=
  hasMode handle.mode mode = true ∧ waits handle block breaks call = .ready

theorem mirrors_guarded_iff (hopen : handle.state = .open) {mode block : UInt8} {breaks : Bool}
    {transfer : Outcome} {prop : Prop} (htransfer : Mirrors handle mode transfer ↔ prop) :
    (∀ outcome, guarded handle mode block breaks call transfer = some outcome →
      Mirrors handle mode outcome) ↔
      (Transfers handle mode block breaks call → prop) := by
  rw [guarded, if_neg (not_not.mpr hopen), Transfers, ← htransfer]
  cases hmode : hasMode handle.mode mode with
  | false => simp [mirrors_refused]
  | true => cases waits handle block breaks call <;> simp [mirrors_refused]

/-- Reads and writes of an open stream are mirrored right if and only if they make no transfer,
nothing is attached for their direction, or all is taken everywhere. -/
theorem attached_streams_mirror_iff {handle : Handle} (hopen : handle.state = .open) (call : Call) :
    ((∀ outcome, streamRead handle call = some outcome → Mirrors handle modeIn outcome) ↔
      (Transfers handle modeIn modeReadBlock true call → call.result < 0 ∨
        AllTake handle modeIn call)) ∧
    ((∀ outcome, streamWrite handle call = some outcome → Mirrors handle modeOut outcome) ↔
      (Transfers handle modeOut modeWriteBlock false call →
        call.result ≠ call.buf.length ∧ call.result ≤ 0 ∨ AllTake handle modeOut call)) := by
  constructor
  · refine mirrors_guarded_iff hopen ?_
    rw [readTransfer]
    split
    · rename_i hneg
      exact iff_of_true ⟨fun _ _ => rfl, rfl⟩ (.inl hneg)
    · rename_i hneg
      rw [mirrors_iff_allTake (by omega)]
      exact (or_iff_right hneg).symm
  · refine mirrors_guarded_iff hopen ?_
    rw [writeTransfer]
    split
    · rename_i hpart
      exact mirrors_partial_iff hpart
    · rename_i hfull
      rw [ne_eq, not_not] at hfull
      have hsame : (if call.buf.length = 0 then { handle with writeFinished := true }
        else handle).attach =
          handle.attach := by split <;> rfl
      dsimp only
      rw [hsame, mirrors_iff_allTake (by omega)]
      exact (or_iff_right fun h => h.1 hfull).symm

/-- A read of two bytes that gets one, with one attached stream that takes what it is given. -/
def shortRead : Call where
  buf := [1, 0xee]
  looks := []
  result := 1
  accepts _ data := data.length
  result_le := by decide

def tapped : Handle := ⟨.open, modeIn, false, [⟨modeIn, true⟩]⟩

/-- The attached stream is given two bytes, and the caller is told that there are two. -/
theorem short_read_mirrors_stale_byte :
    tapped.state = .open ∧ ∃ outcome, streamRead tapped shortRead = some outcome ∧
      outcome.moved = [1] ∧
      givenTo 0 outcome.mirrored = [1, 0xee] ∧ outcome.own = 1 ∧ outcome.ret = 2 :=
  ⟨rfl, _, rfl, by decide, by decide, rfl, by decide⟩

/-- A complete read. -/
def fullRead : Call where
  buf := [1, 2]
  looks := []
  result := 2
  accepts _ data := data.length
  result_le := by decide

theorem attached_streams_mirror_fullRead :
    tapped.state = .open ∧ ∀ outcome, streamRead tapped fullRead = some outcome →
      Mirrors tapped modeIn outcome :=
  ⟨rfl, (attached_streams_mirror_iff rfl fullRead).1.mpr fun _ => .inr (.inr ⟨rfl, fun _ _ => rfl⟩)⟩

end SpeakerFirmware.Stream
