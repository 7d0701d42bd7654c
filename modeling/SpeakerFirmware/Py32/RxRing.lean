/-
# The receive ring

Interrupts put the received bytes into a ring of 256 places, and the thread takes them out and
gives them to the parser. A push runs with interrupts locked from its first byte to its last.
`py32_uart_ring_drain` locks them for one byte at a time, so that pushes may come before it takes
a byte and again before it feeds the byte it has taken.
-/

import SpeakerFirmware.Lib.Runs
import SpeakerFirmware.Py32.Soundness

namespace SpeakerFirmware.Py32

open List Function Nat

/-- `PY32_RX_RING_SIZE`. -/
def py32RxRingSize : Nat := 256

/-- `py32_rx_ring` with `py32_rx_head` and `py32_rx_tail`. -/
structure RxRing where
  ring : Nat → UInt8 := fun _ => 0
  head : Nat := 0
  tail : Nat := 0

/-- The locked loop of `py32_rx_ring_push`; the number is `pushed`. -/
def rxRingPush : RxRing → List UInt8 → RxRing × Nat
  | r, [] => (r, 0)
  | r, c :: data =>
    let next := (r.head + 1) % py32RxRingSize
    if next = r.tail then (r, 0)
    else
      let p := rxRingPush { r with ring := Function.update r.ring r.head c, head := next } data
      (p.1, p.2 + 1)

/-- Where the thread is in `py32_uart_ring_drain`. -/
inductive Drain where
  | outside
  | locking (n : Nat)
  | feeding (c : UInt8) (n : Nat)

/-- The ring and the thread, with the bytes the pushes accepted and those the parser was given. -/
structure RxSys where
  rx : RxRing := {}
  drain : Drain := .outside
  accepted : List UInt8 := []
  parsed : List UInt8 := []

/-- What may happen next: an interrupt pushes, or the thread goes on. -/
inductive RxEvent where
  | push (data : List UInt8)
  | thread
  deriving DecidableEq

def RxSys.step (s : RxSys) : RxEvent → RxSys
  | .push data =>
    let p := rxRingPush s.rx data
    { s with rx := p.1, accepted := s.accepted ++ data.take p.2 }
  | .thread =>
    match s.drain with
    | .outside => { s with drain := .locking 0 }
    | .locking n =>
      if s.rx.tail = s.rx.head then { s with drain := .outside }
      else { s with
        rx := { s.rx with tail := (s.rx.tail + 1) % py32RxRingSize }
        drain := .feeding (s.rx.ring s.rx.tail) n }
    | .feeding c n => { s with parsed := s.parsed ++ [c], drain := .locking (n + 1) }

/-- The byte the thread has taken and not yet fed. -/
def RxSys.held (s : RxSys) : List UInt8 :=
  match s.drain with
  | .feeding c _ => [c]
  | _ => []

/-- The ring stores the queue, with one place left free. -/
structure RxRing.Stores (r : RxRing) (queue : List UInt8) : Prop where
  tail_lt : r.tail < 256
  room : queue.length ≤ 255
  head_eq : r.head = (r.tail + queue.length) % 256
  bytes : ∀ i (h : i < queue.length), r.ring ((r.tail + i) % 256) = queue[i]

namespace RxRing.Stores

variable {r : RxRing} {queue : List UInt8}

theorem next_eq_tail_iff (h : r.Stores queue) :
    (r.head + 1) % py32RxRingSize = r.tail ↔ queue.length = 255 := by
  obtain ⟨htail, hroom, hhead, -⟩ := h
  rw [hhead, py32RxRingSize]
  omega

theorem tail_eq_head_iff (h : r.Stores queue) : r.tail = r.head ↔ queue = [] := by
  obtain ⟨htail, hroom, hhead, -⟩ := h
  rw [← length_eq_zero_iff]
  omega

theorem put (h : r.Stores queue) (hfull : queue.length ≠ 255) (c : UInt8) :
    Stores ⟨update r.ring r.head c, (r.head + 1) % py32RxRingSize, r.tail⟩
      (queue ++ [c]) := by
  obtain ⟨htail, hroom, hhead, hbytes⟩ := h
  have hlen : (queue ++ [c]).length = queue.length + 1 := length_append
  refine ⟨htail, by omega, ?_, fun i hi => ?_⟩
  · change (r.head + 1) % 256 = (r.tail + _) % 256
    omega
  · change update r.ring r.head c ((r.tail + i) % 256) = _
    rcases lt_or_ge i queue.length with hlt | hge
    · rw [getElem_append_left hlt, ← hbytes i hlt]
      exact update_of_ne (by omega) ..
    · obtain rfl : i = queue.length := by omega
      rw [getElem_concat_length rfl, ← hhead, update_self]

theorem take (h : r.Stores queue) (hne : r.tail ≠ r.head) : ∃ rest,
    queue = r.ring r.tail :: rest ∧
      Stores ⟨r.ring, r.head, (r.tail + 1) % py32RxRingSize⟩ rest := by
  obtain ⟨c, rest, rfl⟩ := exists_cons_of_ne_nil (mt h.tail_eq_head_iff.2 hne)
  obtain ⟨htail, hroom, hhead, hbytes⟩ := h
  rw [length_cons] at hroom hhead
  have hc := hbytes 0 (succ_pos _)
  rw [add_zero, mod_eq_of_lt htail, getElem_cons_zero] at hc
  refine ⟨rest, by rw [hc], mod_lt _ (by decide), by omega, ?_, fun i hi => ?_⟩
  · change r.head = ((r.tail + 1) % 256 + _) % 256
    omega
  · change r.ring (((r.tail + 1) % 256 + i) % 256) = _
    rw [mod_add_mod, add_right_comm]
    exact hbytes (i + 1) (succ_lt_succ hi)

/-- A push accepts what fits next to the bytes stored. -/
theorem push (h : r.Stores queue) (data : List UInt8) :
    (rxRingPush r data).2 = min (255 - queue.length) data.length ∧
      (rxRingPush r data).1.Stores (queue ++ data.take (rxRingPush r data).2) := by
  induction data generalizing r queue with
  | nil => exact ⟨(Nat.min_zero _).symm, by simpa [rxRingPush] using h⟩
  | cons c data ih =>
    rw [rxRingPush]
    split_ifs with hfull
    · rw [h.next_eq_tail_iff] at hfull
      exact ⟨by simp [hfull], by simpa using h⟩
    · rw [h.next_eq_tail_iff] at hfull
      obtain ⟨hcount, hstores⟩ := ih (h.put hfull c)
      have hroom := h.room
      rw [length_append, length_singleton] at hcount
      refine ⟨?_, by simpa using hstores⟩
      simp only [length_cons]
      omega

end RxRing.Stores

/-- What was accepted went through the thread to the parser, or is on its way. -/
def RxSys.Fifo (s : RxSys) (queue : List UInt8) : Prop :=
  s.rx.Stores queue ∧ s.accepted = s.parsed ++ s.held ++ queue

theorem RxSys.Fifo.step {s : RxSys} {queue : List UInt8} (h : s.Fifo queue) (event : RxEvent) :
    ∃ queue', (s.step event).Fifo queue' := by
  obtain ⟨hstores, hlog⟩ := h
  cases event with
  | push data =>
    refine ⟨_, (hstores.push data).2, ?_⟩
    change s.accepted ++ _ = s.parsed ++ s.held ++ _
    rw [hlog, append_assoc _ queue]
  | thread =>
    rw [RxSys.step]
    rw [held] at hlog
    split
    · next hd => exact ⟨queue, hstores, by simpa [held, hd] using hlog⟩
    · next n hd =>
      split_ifs with hempty
      · exact ⟨queue, hstores, by simpa [held, hd] using hlog⟩
      · obtain ⟨rest, rfl, hrest⟩ := hstores.take hempty
        exact ⟨rest, hrest, by simpa [held, hd] using hlog⟩
    · next c n hd => exact ⟨queue, hstores, by simpa [held, hd] using hlog⟩

theorem exists_fifo (events : List RxEvent) :
    ∃ queue, RxSys.Fifo (events.foldl RxSys.step {}) queue :=
  (Runs.run_foldl RxSys.step {} events).invariant (fun _ s => ∃ queue, s.Fifo queue)
    ⟨[], ⟨by decide, by decide, rfl, fun i h => by cases h⟩, rfl⟩
    (by rintro _ s event _ ⟨queue, h⟩ rfl; exact h.step event)

/-- A drain that is about to return has fed all that was accepted. -/
theorem RxSys.Fifo.returns {s : RxSys} {queue : List UInt8} (h : s.Fifo queue) {n : Nat}
    (hdrain : s.drain = .locking n) (hreturns : (s.step .thread).drain = .outside) :
    s.parsed = s.accepted := by
  obtain ⟨hstores, hlog⟩ := h
  rw [RxSys.step, hdrain] at hreturns
  dsimp only at hreturns
  split_ifs at hreturns with hempty
  rw [hlog, held, hdrain, hstores.tail_eq_head_iff.mp hempty, append_nil, append_nil]

/-! ## Progress -/

/-- How far the thread is with the next byte. -/
def Drain.done : Drain → Nat
  | .outside => 0
  | .locking _ => 1
  | .feeding _ _ => 2

/-- The steps of the thread until the parser has been given `goal` bytes. -/
def RxSys.toGo (s : RxSys) (goal : Nat) : Nat :=
  if goal ≤ s.parsed.length then 0 else 2 * (goal - s.parsed.length) + 1 - s.drain.done

theorem RxSys.parsed_mono (s : RxSys) (event : RxEvent) :
    s.parsed.length ≤ (s.step event).parsed.length := by
  cases event with
  | push data => exact le_rfl
  | thread =>
    rw [RxSys.step]
    split
    · exact le_rfl
    · split_ifs <;> exact le_rfl
    · simp

theorem RxSys.accepted_prefix (s : RxSys) (event : RxEvent) :
    s.accepted <+: (s.step event).accepted := by
  cases event with
  | push data => exact prefix_append _ _
  | thread =>
    rw [RxSys.step]
    split
    · exact prefix_rfl
    · split_ifs <;> exact prefix_rfl
    · exact prefix_rfl

/-- While an accepted byte has not been fed, each step of the thread brings it nearer. -/
theorem RxSys.Fifo.toGo_thread {s : RxSys} {queue : List UInt8} (h : s.Fifo queue) {goal : Nat}
    (hgoal : goal ≤ s.accepted.length) (hmore : s.parsed.length < goal) :
    (s.step .thread).toGo goal < s.toGo goal := by
  obtain ⟨hstores, hlog⟩ := h
  rw [hlog, length_append, length_append] at hgoal
  unfold toGo
  rw [if_neg (Nat.not_le.mpr hmore)]
  cases hdrain : s.drain with
  | outside =>
    have hstep : s.step .thread = { s with drain := .locking 0 } := by rw [RxSys.step, hdrain]
    rw [hstep, if_neg (Nat.not_le.mpr hmore), Drain.done, Drain.done]
    dsimp only
    omega
  | locking n =>
    -- nothing is held, so the byte is in the ring
    have hqueue : queue ≠ [] := by
      rintro rfl
      rw [held, hdrain] at hgoal
      simp only [length_nil] at hgoal
      omega
    have hstep : s.step .thread = { s with
        rx := { s.rx with tail := (s.rx.tail + 1) % py32RxRingSize }
        drain := .feeding (s.rx.ring s.rx.tail) n } := by
      rw [RxSys.step, hdrain]
      exact if_neg (mt hstores.tail_eq_head_iff.mp hqueue)
    rw [hstep, if_neg (Nat.not_le.mpr hmore), Drain.done, Drain.done]
    dsimp only
    omega
  | feeding c n =>
    have hstep : s.step .thread =
        { s with parsed := s.parsed ++ [c], drain := .locking (n + 1) } := by
      rw [RxSys.step, hdrain]
    rw [hstep]
    dsimp only
    rw [length_append, length_singleton, Drain.done, Drain.done]
    split_ifs <;> omega

/-- Enough steps of the thread give the parser the first `goal` of the accepted bytes, whatever is
pushed between them. -/
theorem RxSys.Fifo.parses {s : RxSys} {queue : List UInt8} (h : s.Fifo queue) {goal : Nat}
    (hgoal : goal ≤ s.accepted.length) {events : List RxEvent}
    (hsteps : s.toGo goal ≤ events.count .thread) :
    goal ≤ (events.foldl RxSys.step s).parsed.length := by
  induction events generalizing s queue with
  | nil =>
    rw [count_nil, toGo] at hsteps
    by_contra hless
    rw [foldl_nil] at hless
    rw [if_neg hless] at hsteps
    cases hdrain : s.drain <;> rw [hdrain, Drain.done] at hsteps <;> omega
  | cons event events ih =>
    obtain ⟨queue', h'⟩ := h.step event
    refine ih h' (hgoal.trans (s.accepted_prefix event).length_le) ?_
    by_cases hless : goal ≤ s.parsed.length
    · rw [toGo, if_pos (hless.trans (s.parsed_mono event))]
      exact Nat.zero_le _
    · cases event with
      | push data =>
        rw [count_cons_of_ne (by simp)] at hsteps
        exact hsteps
      | thread =>
        have hlt := h.toGo_thread hgoal (Nat.not_le.mp hless)
        rw [count_cons_self] at hsteps
        omega

theorem RxSys.accepted_prefix_foldl (s : RxSys) (events : List RxEvent) :
    s.accepted <+: (events.foldl RxSys.step s).accepted := by
  induction events generalizing s with
  | nil => exact prefix_rfl
  | cons event events ih => exact (s.accepted_prefix event).trans (ih _)

/-- Along every interleaving the parser is given the accepted bytes in order. A push accepts the
longest prefix that leaves at most 255 bytes stored. A drain that returns has fed all that was
accepted before, and so has the thread after two steps for each byte and one more, whatever is
pushed between them. -/
theorem rxRing_fifo (events : List RxEvent) :
    let s := events.foldl RxSys.step {}
    ∃ queue, s.Fifo queue ∧
      (∀ n, s.drain = .locking n → (s.step .thread).drain = .outside → s.parsed = s.accepted) ∧
      (∀ more : List RxEvent, 2 * (s.held ++ queue).length + 1 ≤ more.count .thread →
        s.accepted <+: (more.foldl RxSys.step s).parsed) ∧
      ∀ data, let kept := data.take (255 - queue.length)
        (s.step (.push data)).accepted = s.accepted ++ kept ∧
          (s.step (.push data)).rx.Stores (queue ++ kept) ∧
          (kept ≠ data → (queue ++ kept).length = 255) := by
  intro s
  obtain ⟨queue, hfifo⟩ := exists_fifo events
  refine ⟨queue, hfifo, fun n => hfifo.returns, fun more hmore => ?_, fun data => ?_⟩
  · have hlen : s.accepted.length - s.parsed.length = (s.held ++ queue).length := by
      rw [hfifo.2, append_assoc, length_append, Nat.add_sub_cancel_left]
    have hgoal : s.toGo s.accepted.length ≤ more.count .thread := by
      rw [RxSys.toGo, hlen]
      split_ifs <;> omega
    have hlong := hfifo.parses le_rfl hgoal
    obtain ⟨rest, hrest⟩ := exists_fifo (events ++ more)
    rw [foldl_append] at hrest
    have hparsed : (more.foldl RxSys.step s).parsed <+: (more.foldl RxSys.step s).accepted := by
      rw [hrest.2, append_assoc]
      exact prefix_append _ _
    exact prefix_of_prefix_length_le (s.accepted_prefix_foldl more) hparsed hlong
  · obtain ⟨hcount, hstores⟩ := hfifo.1.push data
    have hroom := hfifo.1.room
    have hkept : data.take (rxRingPush s.rx data).2 = data.take (255 - queue.length) := by
      rw [hcount, ← take_eq_take_min]
    rw [hkept] at hstores
    refine ⟨congrArg _ hkept, hstores, fun hdrop => ?_⟩
    rw [Ne, take_eq_self_iff] at hdrop
    rw [length_append, length_take]
    omega

/-- The frames that are handled are disjoint pieces of the bytes the ring has accepted, in their
order, whatever else happens to the parser; and when the drain returns, all accepted bytes have
gone through the parser. -/
theorem handled_accepted {events : List RxEvent} {inputs : List (Env × Input)}
    (hfed : bytesOf inputs = (events.foldl RxSys.step {}).parsed) (volume : Int) :
    FramesIn (events.foldl RxSys.step {}).accepted (handles (run (initSys volume) inputs).trace) ∧
      ∀ n, (events.foldl RxSys.step {}).drain = .locking n →
        ((events ++ [RxEvent.thread]).foldl RxSys.step {}).drain = .outside →
        bytesOf inputs = (events.foldl RxSys.step {}).accepted := by
  obtain ⟨queue, hfifo⟩ := exists_fifo events
  obtain ⟨settled, hstream, hframes⟩ := ((tracked_initSys volume).run inputs).frames
  rw [nil_append, hfed] at hstream
  refine ⟨?_, fun n hdrain hreturns => ?_⟩
  · rw [hfifo.2, hstream, append_assoc, append_assoc]
    exact hframes.append _
  · rw [foldl_append] at hreturns
    exact hfed.trans (hfifo.returns hdrain hreturns)

/-- A whole frame comes in two pushes, the second while the thread feeds the first byte of the
other, and the thread then feeds the rest. -/
def splitFrame : List RxEvent :=
  [.push [1, 16, 0], .thread, .thread, .push [45, 192]] ++ replicate 9 .thread

theorem handled_accepted_splitFrame :
    handles (run (initSys 0) (feed ⟨16, true, true⟩ [1, 16, 0, 45, 192])).trace =
        [hostFrame py32CmdCommon []] ∧
      FramesIn [1, 16, 0, 45, 192] [hostFrame py32CmdCommon []] := by
  have hhandles : handles (run (initSys 0) (feed ⟨16, true, true⟩ [1, 16, 0, 45, 192])).trace =
      [hostFrame py32CmdCommon []] := by decide +kernel
  refine ⟨hhandles, ?_⟩
  rw [← hhandles]
  exact (@handled_accepted splitFrame _ rfl 0).1

end SpeakerFirmware.Py32
