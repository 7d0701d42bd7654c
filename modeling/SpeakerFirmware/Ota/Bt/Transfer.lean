/-
# One call against a host that answers

What a running `ota_backend_bt_read` or `ota_backend_bt_read_complete` keeps from one
step to the next when the host answers requests: `Synced` says that the stream holds
the rest of the answer and where the buffer stands in the image, `Activity.Good` what
is true at each place of a call. A request makes this so if nothing but commands is on
its way; a command keeps it, except for a negotiation result that `read_complete` takes
with part of its segment received.
-/

import Mathlib.Data.List.GetD
import SpeakerFirmware.Ota.Bt.Host

namespace SpeakerFirmware.Ota.Bt

open List

variable {got : Int} {input : LinkInput} {env : Env} {d' : Device} {c : UInt8}

/-! ## The host -/

/-- The bytes of commands of the handshake. -/
def CommandBytes (bytes : List UInt8) : Prop :=
  ∃ items : List Item, (∀ item ∈ items, item.IsCommand) ∧ ∀ ask, bytes = itemsBytes ask items

/-- The host sends commands at any time, and image data only in answer to a request that
goes out with the step. -/
def Honest (image : Int → UInt8) (requests : Prop) (d : Device) (input : LinkInput) (d' : Device) :
    Prop :=
  CommandBytes input.incoming ∨
    requests ∧ ∃ (ask : Ask) (items : List Item), ask.image = image ∧
      d'.sent = d.sent ++ [.requireImageData ask.offset ask.len] ∧
      Follows ask 0 items ∧ input.incoming = itemsBytes ask items

/-! ## What is in memory -/

/-- `n` bytes of the image from `offset` on are in memory at `buf`. -/
def Filled (image : Int → UInt8) (mem : Memory) (buf offset n : Int) : Prop :=
  ∀ i, 0 ≤ i → i < n → mem (buf + i) = image (offset + i)

section

variable {image : Int → UInt8} {mem mem' : Memory} {buf offset n : Int}

theorem Filled.mono {m : Int} (h : Filled image mem buf offset n) (hle : m ≤ n) :
    Filled image mem buf offset m :=
  fun i hi hlt => h i hi (hlt.trans_le hle)

section

variable (h : Filled image mem buf offset n)
include h

/-- Writes behind the bytes leave them alone. -/
theorem Filled.of_below
    (hbelow : ∀ a < buf + n, mem' a = mem a) : Filled image mem' buf offset n := by
  intro i hi hlt
  rw [hbelow (buf + i) (by omega)]
  exact h i hi hlt

/-- The next bytes of the image, written behind those that are there. -/
theorem Filled.write (count : Nat) :
    Filled image (mem.write (buf + n) (imageBytes image (offset + n) count)) buf offset
      (n + count) := by
  have hlength : (imageBytes image (offset + n) count).length = count := by
    rw [imageBytes, length_map, length_range]
  intro i hi hlt
  rw [Memory.write, hlength]
  split
  · rename_i hin
    have hget : (buf + i - (buf + n)).toNat < count := by omega
    rw [getD_eq_getElem _ _ (by rwa [hlength])]
    simp only [imageBytes, getElem_map, getElem_range]
    congr 1
    omega
  · exact h i hi (by omega)

theorem Filled.read : mem.read buf n.toNat = imageBytes image offset n.toNat := by
  refine map_congr_left fun i hi => ?_
  have hlt := mem_range.mp hi
  exact h i (by omega) (by omega)

end

end

theorem Memory.write_nil (mem : Memory) (addr : Int) : mem.write addr [] = mem := by
  funext a
  exact if_neg (by rw [length_nil]; omega)

/-! ## The answer on the stream -/

section

variable {ask : Ask} {n : Nat} {items commands : List Item} (h : Follows ask n items)
  (hcommands : ∀ item ∈ commands, item.IsCommand)
include h hcommands

theorem Follows.prepend : Follows ask n (commands ++ items) := by
  induction commands with
  | nil => exact h
  | cons item commands ih =>
    exact .command (hcommands item mem_cons_self)
      (ih fun other hother => hcommands other (mem_cons_of_mem _ hother))

theorem Follows.append : Follows ask n (items ++ commands) := by
  induction h with
  | nil n =>
    have hall : Follows ask n (commands ++ []) := .prepend (.nil n) hcommands
    rwa [append_nil] at hall
  | packet withCrc lost near due rest ih => exact .packet withCrc lost near due ih
  | spoiled lost fits bad rest ih => exact .spoiled lost fits bad ih
  | command isCommand rest ih => exact .command isCommand ih

end

theorem itemsBytes_append (ask : Ask) (items items' : List Item) :
    itemsBytes ask (items ++ items') = itemsBytes ask items ++ itemsBytes ask items' :=
  flatMap_append

/-- The stream holds the answer to the request, and `got` bytes of it are in the buffer
`buf`, which starts at `offset` of the image. -/
structure Synced (image : Int → UInt8) (d : Device) (buf offset got : Int) : Prop where
  answer : ∃ (ask : Ask) (n : Nat) (items : List Item), ask.image = image ∧ Due ask d n ∧
    Follows ask n items ∧ d.rx = itemsBytes ask items
  readBuf : d.ctx.readBuf = some buf
  readBufLen : d.ctx.readBufLen = got
  readDoneLen : d.ctx.readDoneLen = offset - d.ctx.readOffset + got
  got_nonneg : 0 ≤ got

section

variable {image : Int → UInt8} {d : Device} {buf offset : Int} (h : Synced image d buf offset got)
include h

theorem Synced.remaining : 0 ≤ d.ctx.readLen - d.ctx.readDoneLen := by
  obtain ⟨ask, n, items, -, hdue, -⟩ := h.answer
  exact hdue.remaining

/-- Commands that come in behind the answer, and a stream that is thrown away. -/
theorem Synced.whole (hincoming : CommandBytes input.incoming) :
    Synced image { d with rx := input.whole d } buf offset got := by
  obtain ⟨ask, n, items, himage, hdue, hfollows, hrx⟩ := h.answer
  obtain ⟨commands, hcommands, hbytes⟩ := hincoming
  have hdue' : Due ask { d with rx := input.whole d } n :=
    ⟨hdue.readOffset, hdue.readLen, hdue.readDoneLen, hdue.lastPsn⟩
  refine ⟨?_, h.readBuf, h.readBufLen, h.readDoneLen, h.got_nonneg⟩
  cases hflushed : input.flushed with
  | true =>
    refine ⟨ask, n, commands, himage, hdue', (Follows.nil n).append hcommands, ?_⟩
    rw [LinkInput.whole, hflushed, ← hbytes ask]
    rfl
  | false =>
    refine ⟨ask, n, items ++ commands, himage, hdue', hfollows.append hcommands, ?_⟩
    rw [LinkInput.whole, hflushed, itemsBytes_append, ← hbytes ask, ← hrx]
    rfl

end

theorem processCommand_nil {d : Device} (h : d.rx = []) :
    processCommand env d ≠ (d', .ok c) := by
  intro hok
  have hget : svcProtGetRxData d 5 = ({ d with rx := [] }, none) := by
    rw [svcProtGetRxData, h]
    rfl
  rw [processCommand, hget] at hok
  split at hok
  · cases hok
  · cases hok

/-- A command that succeeds stores the next bytes of the image behind those that are in
the buffer, none of them if it is a negotiation result. -/
structure Advanced (image : Int → UInt8) (d d' : Device) (c : UInt8) (buf offset got : Int)
    (count : Nat) :
    Prop where
  synced : Synced image d' buf offset (got + count)
  mem : d'.mem = d.mem.write (buf + got) (imageBytes image (offset + got) count)
  readOffset : d'.ctx.readOffset = d.ctx.readOffset
  readLen : d'.ctx.readLen = d.ctx.readLen
  result : c = otaCmdH2dNegotiationResultId → count = 0

theorem Synced.processed {image : Int → UInt8} {d : Device}
    {buf offset : Int} (h : Synced image d buf offset got)
    (hok : processCommand env d = (d', .ok c)) :
    ∃ count, Advanced image d d' c buf offset got count := by
  obtain ⟨ask, n, items, rfl, hdue, hfollows, hrx⟩ := h.answer
  cases hfollows with
  | nil => exact absurd hok (processCommand_nil hrx)
  | spoiled lost fits bad rest => exact absurd hok (hdue.spoiled fits bad hrx)
  | command isCommand rest =>
    obtain ⟨hrest, hkept, -⟩ := isCommand.processed hrx hok
    have hreading := hkept.reading
    have hbuf : d'.ctx.readBuf = d.ctx.readBuf := congrArg Reading.readBuf hreading
    have hlen : d'.ctx.readLen = d.ctx.readLen := congrArg Reading.readLen hreading
    have hdone : d'.ctx.readDoneLen = d.ctx.readDoneLen := congrArg Reading.readDoneLen hreading
    have hbufLen : d'.ctx.readBufLen = d.ctx.readBufLen := congrArg Reading.readBufLen hreading
    have hoffset : d'.ctx.readOffset = d.ctx.readOffset := congrArg Reading.readOffset hreading
    refine ⟨0, ⟨⟨ask, n, _, rfl, ⟨?_, ?_, ?_, ?_⟩, rest, hrest⟩, ?_, ?_, ?_, ?_⟩, ?_, hoffset,
      hlen, fun _ => rfl⟩
    · rw [hoffset, hdue.readOffset]
    · rw [hlen, hdue.readLen]
    · rw [hdone, hdue.readDoneLen]
    · rw [hkept.lastPsn, hdue.lastPsn]
    · rw [hbuf, h.readBuf]
    · rw [hbufLen, h.readBufLen, Int.natCast_zero, add_zero]
    · rw [hdone, hoffset, h.readDoneLen, Int.natCast_zero, add_zero]
    · rw [Int.natCast_zero, add_zero]
      exact h.got_nonneg
    · rw [hkept.mem]
      exact (Memory.write_nil _ _).symm
  | packet withCrc lost near due rest =>
    obtain ⟨hother, hindex, hrest, hdue', readBuf, hbuf, hbuf', hmem, hbufLen⟩ :=
      hdue.packet lost near hrx hok
    rw [hindex] at rest
    have hsame : readBuf = buf := Option.some.inj (hbuf.symm.trans h.readBuf)
    subst hsame
    have hoffset : d'.ctx.readOffset = d.ctx.readOffset :=
      hdue'.readOffset.trans hdue.readOffset.symm
    have hlength := ask.length_chunk n
    have hgrow := ask.delivered_le_succ n
    have hdone : (ask.delivered n : Int) = offset - d.ctx.readOffset + got :=
      hdue.readDoneLen.symm.trans h.readDoneLen
    refine ⟨(ask.chunk n).length, ⟨⟨ask, n + 1, _, rfl, hdue', rest, hrest⟩, hbuf', ?_, ?_, ?_⟩,
      ?_, hoffset, hdue'.readLen.trans hdue.readLen.symm, fun hc => absurd hc hother⟩
    · rw [hbufLen, h.readBufLen]
    · rw [hdue'.readDoneLen, hoffset, hlength]
      omega
    · have hnonneg := h.got_nonneg
      omega
    · -- the packet starts where the buffer ends
      have hstart : offset + got = ask.offset + ask.delivered n := by
        rw [hdone, ← hdue.readOffset]
        omega
      rw [hmem, h.readBufLen, hstart, hlength]
      rfl

/-! ## Requests -/

theorem requireImageData_ok {d : Device} {offset len buf : Int}
    (h : otaCmdRequireImageData env d offset len buf = (d', none)) :
    d' = { d with
      ctx := { d.ctx with
        readBuf := some buf, readLen := len, readDoneLen := 0, lastPsn := 0xff, readBufLen := 0
        readOffset := offset, state := .idle }
      sent := d.sent ++ [.requireImageData offset len] } := by
  unfold otaCmdRequireImageData otaBtSendCmd at h
  split at h
  · cases h
  · cases hsend : env.sendOk with
    | false =>
      rw [hsend] at h
      cases h
    | true =>
      rw [hsend] at h
      exact (congrArg Prod.fst h).symm

theorem requireImageData_mem (env : Env) (d : Device) (offset len buf : Int) :
    (otaCmdRequireImageData env d offset len buf).1.mem = d.mem := by
  unfold otaCmdRequireImageData otaBtSendCmd
  split
  · rfl
  · cases env.sendOk <;> rfl

/-- A request that goes out while only commands are on their way: what the stream holds
then is an answer to it. -/
theorem Synced.of_request {image : Int → UInt8} {d d₁ : Device}
    {requests : Prop} {offset len buf : Int} (hlen : 0 ≤ len)
    (hsafe : input.flushed ∨ CommandBytes d.rx)
    (hrequest : otaCmdRequireImageData input.env { d with rx := input.stream d } offset len buf =
      (d₁, none))
    (hd' : d' = { d₁ with rx := d₁.rx ++ (input.whole d).drop input.arrived })
    (hhonest : Honest image requests d input d') :
    Synced image d' buf offset 0 ∧ d'.ctx.readOffset = offset ∧ d'.ctx.readLen = len := by
  cases requireImageData_ok hrequest
  have hrx : d'.rx = input.whole d := by
    rw [hd']
    exact take_append_drop _ _
  have hpending : CommandBytes (if input.flushed then [] else d.rx) := by
    cases hflushed : input.flushed with
    | true => exact ⟨[], (fun item hitem => (by cases hitem)), fun _ => rfl⟩
    | false =>
      rw [hflushed] at hsafe
      exact hsafe.resolve_left Bool.false_ne_true
  obtain ⟨pending, hcommands, hbytes⟩ := hpending
  have hctx : d'.ctx = { d.ctx with
      readBuf := some buf, readLen := len, readDoneLen := 0, lastPsn := 0xff, readBufLen := 0
      readOffset := offset, state := .idle } := by
    rw [hd']
  have hanswer : ∃ (ask : Ask) (items : List Item), ask.image = image ∧ ask.offset = offset ∧
      ask.len = len ∧ Follows ask 0 items ∧ input.incoming = itemsBytes ask items := by
    rcases hhonest
      with ⟨items, hitems, hincoming⟩ | ⟨-, ask, items, himage, hsent, hfollows, hincoming⟩
    · exact ⟨⟨image, offset, len, 1, hlen, Nat.one_pos, by decide⟩, items, rfl, rfl, rfl,
        (Follows.nil 0).append hitems, hincoming _⟩
    · have hsent' : d'.sent = d.sent ++ [.requireImageData offset len] := by
        rw [hd']
      injection append_cancel_left (hsent.symm.trans hsent') with hmessage
      injection hmessage with hoffset hlen'
      exact ⟨ask, items, himage, hoffset, hlen', hfollows, hincoming⟩
  obtain ⟨ask, items, himage, hoffset, hlen', hfollows, hincoming⟩ := hanswer
  refine ⟨⟨⟨ask, 0, pending ++ items, himage, ⟨?_, ?_, ?_, ?_⟩, hfollows.prepend hcommands, ?_⟩,
    ?_, ?_, ?_, le_rfl⟩, ?_, ?_⟩
  · rw [hctx, hoffset]
  · rw [hctx, hlen']
  · rw [hctx, Ask.delivered, Nat.zero_mul, Nat.zero_min]
    rfl
  · rw [hctx]
    exact show (0xff : UInt8) + 1 = UInt8.ofNat 0 by decide
  · rw [hrx, itemsBytes_append, ← hbytes ask, ← hincoming]
    rfl
  · rw [hctx]
  · rw [hctx]
  · rw [hctx]
    dsimp only
    omega
  · rw [hctx]
  · rw [hctx]

/-! ## The invariant of a call -/

/-- A running call has read the bytes in front of what it asks for now. -/
structure Call.Placed (call : Call) : Prop where
  size_nonneg : 0 ≤ call.size
  size_le : call.size ≤ call.args.size
  offset : call.offset = call.args.offset + (call.args.size - call.size)
  buf : call.buf = call.args.buf + (call.args.size - call.size)
  complete : call.api = .readComplete → call.size = call.args.size
  retry : call.api = .readComplete → 0 < call.retryTimes → 0 ≤ call.retrySize

/-- The image is in the buffer of the call, and `n` bytes of what it asks for now. -/
def Call.Holds (image : Int → UInt8) (call : Call) (mem : Memory) (n : Int) : Prop :=
  Filled image mem call.args.buf call.args.offset (call.args.size - call.size + n)

/-- The call waits for the answer to its request. -/
structure Call.Waits (image : Int → UInt8) (call : Call) (d : Device) : Prop where
  placed : call.Placed
  synced : Synced image d call.buf call.offset (call.received d)
  holds : call.Holds image d.mem (call.received d)
  read : call.api = .read → d.ctx.readOffset = call.offset ∧ d.ctx.readLen = call.size

/-- The invariant at each place of a call. -/
def Activity.Good (image : Int → UInt8) (d : Device) : Activity → Prop
  | .ready => True
  | .tryAgain call => call.Placed ∧ call.Holds image d.mem 0 ∧
      (call.api = .readComplete → call.retryTimes = 0 → Synced image d call.buf call.offset 0)
  | .loop call => call.Waits image d
  | .returned call none => Filled image d.mem call.args.buf call.args.offset call.args.size ∧
      (call.api = .readComplete →
        Synced image d call.args.buf (call.args.offset + call.args.size) 0)
  | .returned _ (some _) => True

section

variable {image : Int → UInt8} {d : Device} {call : Call}

/-- An error leads to a second attempt or is returned. -/
theorem Call.Placed.finish_error (env : Env) {err : Err} (hplaced : call.Placed)
    (hholds : call.Holds image d.mem 0) (herr : call.err = some err)
    (hretry : call.api = .readComplete → 0 ≤ d.ctx.readLen - (call.offset - d.ctx.readOffset))
    (rest : List UInt8) :
    (call.finish env d).2.Good image ((call.finish env d).1.push rest) := by
  have hdrop : ∀ waitMs, (svcDropAllRxData d waitMs).mem = d.mem ∧
      (svcDropAllRxData d waitMs).ctx = d.ctx := by
    intro waitMs
    unfold svcDropAllRxData
    split <;> exact ⟨rfl, rfl⟩
  unfold Call.finish
  split
  · rename_i hapi
    split
    · refine ⟨⟨hplaced.size_nonneg, hplaced.size_le, hplaced.offset, hplaced.buf, hplaced.complete,
        fun h => (by cases hapi.symm.trans h)⟩, ?_, fun h => (by cases hapi.symm.trans h)⟩
      rw [← (hdrop 500).1] at hholds
      exact hholds
    · rw [herr]
      trivial
  · rename_i hapi
    split
    · obtain ⟨hmem, hctx⟩ := hdrop (d.ctx.readLen.tdiv 50 + 500)
      refine ⟨⟨hplaced.size_nonneg, hplaced.size_le, hplaced.offset, hplaced.buf, hplaced.complete,
        fun _ _ => ?_⟩, ?_, fun _ hzero => (by cases hzero)⟩
      · dsimp only
        rw [hctx]
        exact hretry hapi
      · rw [← hmem] at hholds
        exact hholds
    · rw [herr]
      trivial

/-- A call that has received all it asks for returns 0. -/
theorem Call.Waits.finish_done (env : Env) {rest : List UInt8}
    (h : call.Waits image (d.push rest)) (herr : call.err = none)
    (hreceived : call.received d = call.size) :
    (call.finish env d).2.Good image ((call.finish env d).1.push rest) := by
  have hreceived' : call.received (d.push rest) = call.size := hreceived
  have hfilled : Filled image d.mem call.args.buf call.args.offset call.args.size := by
    have hholds := h.holds
    rw [hreceived', Call.Holds, sub_add_cancel] at hholds
    exact hholds
  unfold Call.finish
  split
  · rename_i hapi
    rw [herr, if_neg (by simp)]
    exact ⟨hfilled, fun h => (by cases hapi.symm.trans h)⟩
  · rename_i hapi
    rw [herr, if_neg (by simp)]
    refine ⟨hfilled, fun _ => ?_⟩
    have hsynced := h.synced
    have hsize := h.placed.complete hapi
    have hoffset := h.placed.offset
    have hbuf := h.placed.buf
    rw [hreceived', hsize] at hsynced
    rw [hsize, sub_self, add_zero] at hoffset hbuf
    rw [hoffset, hbuf] at hsynced
    -- the next segment starts where this one ends
    refine ⟨?_, hsynced.readBuf, rfl, ?_, le_rfl⟩
    · obtain ⟨ask, n, items, himage, hdue, hfollows, hrx⟩ := hsynced.answer
      exact ⟨ask, n, items, himage,
        ⟨hdue.readOffset, hdue.readLen, hdue.readDoneLen, hdue.lastPsn⟩, hfollows, hrx⟩
    · refine hsynced.readDoneLen.trans ?_
      change call.args.offset - d.ctx.readOffset + call.args.size =
        call.args.offset + call.args.size - d.ctx.readOffset + 0
      omega

/-- A command that fails stores at most behind what the call has received. -/
theorem Call.Waits.of_error (h : call.Waits image d) {rx : List UInt8}
    {err : Err} (herror : processCommand env { d with rx } = (d', .error err)) :
    call.Holds image d'.mem 0 ∧ d'.ctx.reading = d.ctx.reading := by
  have hholds : call.Holds image d.mem (call.received d) := h.holds
  have hnonneg := h.synced.got_nonneg
  have hstart : call.Holds image d.mem 0 := hholds.mono (by omega)
  have hprocessed := processed_processCommand env { d with rx }
  rw [herror] at hprocessed
  cases hprocessed with
  | failed err kept =>
    refine ⟨?_, kept.reading⟩
    rw [show d'.mem = d.mem from kept.mem]
    exact hstart
  | rejected err payload head stored reading =>
    refine ⟨hstart.of_below fun a ha => stored.below call.buf h.synced.readBuf a ?_, reading⟩
    have hbufLen : d.ctx.readBufLen = call.received d := h.synced.readBufLen
    have hbuf := h.placed.buf
    change a < call.buf + d.ctx.readBufLen
    omega

section

variable (h : call.Waits image d) {count : Nat}
  (hadvanced : Advanced image d d' c call.buf call.offset (call.received d) count)
include h hadvanced

/-- What the call has received once a command has succeeded. -/
theorem Call.Waits.received : call.received d' = call.received d + count := by
  cases hapi : call.api with
  | read =>
    have hread := (h.read hapi).1
    have hdone := hadvanced.synced.readDoneLen
    rw [hadvanced.readOffset, hread, sub_self, zero_add] at hdone
    rw [← hdone, Call.received, hapi]
  | readComplete =>
    rw [← hadvanced.synced.readBufLen, Call.received, hapi]

/-- A command that succeeds leaves the call waiting for the rest of the answer. -/
theorem Call.Waits.advance : { call with err := none }.Waits image d' := by
  have hreceived : { call with err := none }.received d' = call.received d + count :=
    h.received hadvanced
  have hplaced := h.placed
  refine ⟨⟨hplaced.size_nonneg, hplaced.size_le, hplaced.offset, hplaced.buf, hplaced.complete,
    hplaced.retry⟩, ?_, ?_, fun hapi => ⟨?_, ?_⟩⟩
  · rw [hreceived]
    exact hadvanced.synced
  · have hholds := Filled.write h.holds count
    rw [hreceived, hadvanced.mem]
    rw [← add_assoc, ← add_assoc, ← hplaced.buf, ← hplaced.offset, add_assoc] at hholds
    exact hholds
  · exact hadvanced.readOffset.trans (h.read hapi).1
  · exact hadvanced.readLen.trans (h.read hapi).2

end

/-- A negotiation result moves a `read` on by what it has received, and leaves a
`read_complete` that has received nothing where it is. -/
theorem Call.Waits.again (h : call.Waits image d)
    (hresult : call.api = .readComplete → d.ctx.readBufLen = 0) :
    (Activity.tryAgain { call with
      err := none
      offset := call.offset + call.received d
      buf := call.buf + call.received d
      size := call.size - call.received d }).Good image d := by
  have hplaced := h.placed
  have hnonneg := h.synced.got_nonneg
  have hoffset := hplaced.offset
  have hbuf := hplaced.buf
  have hle := hplaced.size_le
  have hzero : call.api = .readComplete → call.received d = 0 := by
    intro hapi
    rw [Call.received, hapi]
    exact hresult hapi
  have hsize : 0 ≤ call.size - call.received d := by
    have hsize := hplaced.size_nonneg
    cases hapi : call.api with
    | read =>
      have hremaining := h.synced.remaining
      rw [(h.read hapi).2] at hremaining
      rw [Call.received, hapi]
      exact hremaining
    | readComplete =>
      rw [hzero hapi]
      omega
  refine ⟨⟨hsize, ?_, ?_, ?_, fun hapi => ?_, hplaced.retry⟩, ?_, fun hapi _ => ?_⟩
  · dsimp only
    omega
  · dsimp only
    omega
  · dsimp only
    omega
  · have hcomplete := hplaced.complete hapi
    dsimp only
    rw [hzero hapi, sub_zero, hcomplete]
  · have hholds := h.holds
    have hsum : call.args.size - call.size + call.received d =
        call.args.size - (call.size - call.received d) + 0 := by omega
    rw [Call.Holds, hsum] at hholds
    exact hholds
  · have hsynced := h.synced
    dsimp only
    rw [hzero hapi] at hsynced ⊢
    rw [add_zero, add_zero]
    exact hsynced

/-- One turn of the loop, with commands coming in. -/
theorem Call.Waits.turn (h : call.Waits image d)
    (hincoming : CommandBytes input.incoming)
    (hresult : call.api = .readComplete →
      HeadOf (input.stream d) otaCmdH2dNegotiationResultId → d.ctx.readBufLen = 0) :
    (input.onStream d (call.turn input.env ·)).2.Good image
      (input.onStream d (call.turn input.env ·)).1 := by
  have hpush : Device.push { d with rx := input.stream d } ((input.whole d).drop input.arrived) =
      { d with rx := input.whole d } :=
    congrArg (fun rx => ({ d with rx } : Device)) (take_append_drop _ _)
  have hsynced := h.synced.whole hincoming
  have hwhole : call.Waits image { d with rx := input.whole d } :=
    ⟨h.placed, hsynced, h.holds, h.read⟩
  have hretry : call.api = .readComplete →
      0 ≤ d.ctx.readLen - (call.offset - d.ctx.readOffset) := by
    intro _
    have hremaining := h.synced.remaining
    have hdone := h.synced.readDoneLen
    have hnonneg := h.synced.got_nonneg
    omega
  change (call.turn input.env { d with rx := input.stream d }).2.Good image
    ((call.turn input.env { d with rx := input.stream d }).1.push
      ((input.whole d).drop input.arrived))
  unfold Call.turn
  split
  · rename_i hreceived
    cases herr : call.err with
    | none => exact (hpush ▸ hwhole).finish_done input.env herr hreceived
    | some err =>
      refine h.placed.finish_error (d := { d with rx := input.stream d }) input.env ?_ herr hretry _
      have hnonneg := h.synced.got_nonneg
      exact Filled.mono h.holds (by omega)
  · split
    · rename_i d' err herror
      obtain ⟨hholds, hreading⟩ := h.of_error herror
      have hlen : d'.ctx.readLen = d.ctx.readLen := congrArg Reading.readLen hreading
      have hoffset : d'.ctx.readOffset = d.ctx.readOffset := congrArg Reading.readOffset hreading
      have hplaced := h.placed
      have hfailed : { call with err := some err }.Placed :=
        ⟨hplaced.size_nonneg, hplaced.size_le, hplaced.offset, hplaced.buf, hplaced.complete,
          hplaced.retry⟩
      refine hfailed.finish_error input.env hholds rfl (fun hapi => ?_) _
      rw [hlen, hoffset]
      exact hretry hapi
    · rename_i d' cmd hok
      have hfull := processCommand_push hok ((input.whole d).drop input.arrived)
      rw [hpush] at hfull
      obtain ⟨count, hadvanced⟩ := hsynced.processed hfull
      have hwaits := hwhole.advance hadvanced
      split
      · rename_i hcmd
        have hprocessed := processed_processCommand input.env { d with rx := input.stream d }
        rw [hok, hcmd] at hprocessed
        have hempty : call.api = .readComplete → d'.ctx.readBufLen = 0 := by
          intro hapi
          cases hprocessed with
          | result head kept done =>
            have hbufLen : d'.ctx.readBufLen = d.ctx.readBufLen :=
              congrArg Reading.readBufLen kept.reading
            exact hbufLen.trans (hresult hapi head)
          | handshake cmd other kept => exact absurd rfl other
          | data cmd other payload head stored reading => exact absurd rfl other
        exact hwaits.again hempty
      · exact hwaits

theorem Call.request_read (call : Call) (hapi : call.api = .read) (env : Env) (d : Device) :
    call.request env d =
      match otaCmdRequireImageData env d call.offset call.size call.buf with
      | (d, some _) => (d, .returned call (some .eio))
      | (d, none) => (d, .loop { call with err := none }) := by
  unfold Call.request
  split
  · rfl
  · rename_i h
    cases hapi.symm.trans h

theorem Call.request_readComplete (call : Call) (hapi : call.api = .readComplete) (env : Env)
    (d : Device) :
    call.request env d =
      if call.retryTimes > 0 then
        match otaCmdRequireImageData env d call.offset call.retrySize call.buf with
        | (d, some _) => (d, .returned call (some .eio))
        | (d, none) => (d, .loop { call with err := none })
      else (d, .loop call) := by
  unfold Call.request
  split
  · rename_i h
    cases hapi.symm.trans h
  · rfl

/-- The call makes a request at `try_again`. -/
def Call.Requests (call : Call) : Prop :=
  call.api = .read ∨ 0 < call.retryTimes

/-- The attempt at `try_again`: a request while only commands are on their way, or none. -/
theorem Activity.Good.request (h : (Activity.tryAgain call).Good image d)
    (hsafe : call.Requests → input.flushed ∨ CommandBytes d.rx)
    (hhonest : Honest image call.Requests d input (input.onStream d (call.request input.env ·)).1) :
    (input.onStream d (call.request input.env ·)).2.Good image
      (input.onStream d (call.request input.env ·)).1 := by
  obtain ⟨hplaced, hholds, hsynced⟩ := h
  have hanswered : ∀ {len : Int} {d₁ d' : Device}, call.Requests → 0 ≤ len →
      otaCmdRequireImageData input.env { d with rx := input.stream d } call.offset len call.buf =
        (d₁, none) →
      d' = d₁.push ((input.whole d).drop input.arrived) → Honest image call.Requests d input d' →
      (call.api = .read → len = call.size) → { call with err := none }.Waits image d' := by
    intro len d₁ d' hrequests hlen hrequest hd' hhonest' hread
    obtain ⟨hsynced', hoffset, hreadLen⟩ :=
      Synced.of_request hlen (hsafe hrequests) hrequest hd' hhonest'
    have hmem : d'.mem = d.mem := by
      have hmem := requireImageData_mem input.env
        { d with rx := input.stream d } call.offset len call.buf
      rw [hrequest] at hmem
      rw [hd']
      exact hmem
    have hreceived : { call with err := none }.received d' = 0 := by
      unfold Call.received
      split
      · have hdone := hsynced'.readDoneLen
        rw [hdone, hoffset]
        omega
      · exact hsynced'.readBufLen
    refine ⟨⟨hplaced.size_nonneg, hplaced.size_le, hplaced.offset, hplaced.buf, hplaced.complete,
      hplaced.retry⟩, ?_, ?_, fun hapi => ⟨hoffset, hreadLen.trans (hread hapi)⟩⟩
    · rw [hreceived]
      exact hsynced'
    · rw [hreceived, hmem]
      exact hholds
  change Honest image call.Requests d input
    ((call.request input.env { d with rx := input.stream d }).1.push
      ((input.whole d).drop input.arrived)) at hhonest
  change (call.request input.env { d with rx := input.stream d }).2.Good image
    ((call.request input.env { d with rx := input.stream d }).1.push
      ((input.whole d).drop input.arrived))
  cases hapi : call.api with
  | read =>
    rw [call.request_read hapi] at hhonest ⊢
    cases hrequest : otaCmdRequireImageData input.env { d with rx := input.stream d }
        call.offset call.size call.buf with
    | mk d₁ err =>
      rw [hrequest] at hhonest
      cases err with
      | none => exact hanswered (.inl hapi) hplaced.size_nonneg hrequest rfl hhonest fun _ => rfl
      | some err => trivial
  | readComplete =>
    rw [call.request_readComplete hapi] at hhonest ⊢
    split at hhonest
    · rename_i htimes
      rw [if_pos htimes]
      cases hrequest : otaCmdRequireImageData input.env { d with rx := input.stream d }
          call.offset call.retrySize call.buf with
      | mk d₁ err =>
        rw [hrequest] at hhonest
        cases err with
        | none =>
          exact hanswered (.inr htimes) (hplaced.retry hapi htimes) hrequest rfl hhonest
            fun h => (by cases hapi.symm.trans h)
        | some err => trivial
    · -- the first attempt goes on with the answer to the prepared request
      rename_i htimes
      have hincoming : CommandBytes input.incoming := by
        refine hhonest.elim id fun ⟨hrequests, _⟩ => ?_
        rcases hrequests with hread | hretry
        · cases hapi.symm.trans hread
        · exact absurd hretry htimes
      have hwhole := (hsynced hapi (Nat.eq_zero_of_not_pos htimes)).whole hincoming
      rw [if_neg htimes]
      change call.Waits image { d with rx := input.stream d ++ (input.whole d).drop input.arrived }
      rw [show input.stream d ++ (input.whole d).drop input.arrived = input.whole d from
        take_append_drop _ _]
      have hreceived : call.received { d with rx := input.whole d } = 0 := by
        rw [Call.received, hapi]
        exact hwhole.readBufLen
      refine ⟨hplaced, ?_, ?_, fun h => (by cases hapi.symm.trans h)⟩
      · rw [hreceived]
        exact hwhole
      · rw [hreceived]
        exact hholds

end

end SpeakerFirmware.Ota.Bt
