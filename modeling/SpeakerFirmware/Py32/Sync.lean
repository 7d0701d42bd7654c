/-
# Synchronisation of the PY32 receiver

A host that repeats one frame brings a misaligned receiver back into step within
one repetition, unless a CRC byte of the frame has the value of the host address.
Then the receiver ends every repetition at the same wrong place: behind a low CRC
byte 01 it waits for a length, behind a high one for a command.
-/

import SpeakerFirmware.Py32.Soundness

namespace SpeakerFirmware.Py32

open List

variable {p : Parser}

/-! ## Pieces of a repetition -/

theorem parserRun_consistent (h : p.Consistent) (bytes : List UInt8) :
    (parserRun p bytes).Consistent :=
  bytes.foldlRecOn _ h fun _ h c _ => h.next c

/-- Bytes other than the host address do not move an idle receiver. -/
theorem parserRun_idle (p : Parser) (bytes : List UInt8) (hidle : p.state = .addr)
    (hfree : py32AddrHost ∉ bytes) :
    parserRun p bytes = p ∧ completedRun p bytes = [] := by
  induction bytes with
  | nil => exact ⟨rfl, rfl⟩
  | cons c rest ih =>
    have hc : c ≠ py32AddrHost := fun h => hfree (h ▸ mem_cons_self)
    have hnext : nextParser p c = p := by simp [nextParser, rxFeedParser, rxFeedAddr, hidle, hc]
    have hquiet : completed p c = [] := by simp [completed, hidle]
    rw [parserRun_cons, completedRun, hnext, hquiet, nil_append]
    exact ih fun h => hfree (mem_cons_of_mem c h)

/-- Where two CRC bytes leave a receiver that was waiting in `state` and reads
neither of them as a CRC. -/
def stateAfterCrc (state : ParseState) (low high : UInt8) : ParseState :=
  if low = py32AddrHost then .len else if high = py32AddrHost then .cmd else state

theorem parserRun_crc_idle (p : Parser) (low high : UInt8) (hidle : p.state = .addr) :
    (parserRun p [low, high]).state = stateAfterCrc .addr low high ∧
      completedRun p [low, high] = [] := by
  by_cases hlow : low = py32AddrHost <;> by_cases hhigh : high = py32AddrHost <;>
    simp [parserRun, completedRun, completed, nextParser, rxFeedParser, rxFeedAddr, hidle, hlow,
      hhigh,
      stateAfterCrc]

/-- Behind some bytes that leave the receiver idle, only the CRC bytes can move it. -/
theorem parserRun_idle_crc (p : Parser) (first bytes : List UInt8) (low high : UInt8)
    (hidle : (parserRun p first).state = .addr) (hfree : py32AddrHost ∉ bytes) :
    (parserRun p (first ++ (bytes ++ [low, high]))).state = stateAfterCrc .addr low high ∧
      completedRun p (first ++ (bytes ++ [low, high])) = completedRun p first := by
  obtain ⟨hrest, hrest'⟩ := parserRun_idle _ bytes hidle hfree
  obtain ⟨hend, hend'⟩ := parserRun_crc_idle _ low high hidle
  rw [parserRun_append, parserRun_append, completedRun_append, completedRun_append, hrest, hrest',
    hend',
    append_nil, append_nil]
  exact ⟨hend, rfl⟩

theorem parserRun_crc_data (p : Parser) (low high : UInt8) (hstate : p.state = .data)
    (hgot : p.frameGot.toNat + 2 < p.frameLen.toNat) :
    (parserRun p [low, high]).state = stateAfterCrc .data low high ∧
      completedRun p [low, high] = [] := by
  have hbound := p.frameLen.toNat_lt
  have hfirst : p.frameGot < p.frameLen := UInt8.lt_iff_toNat_lt.mpr (by omega)
  have hsucc := toNat_frameGot_succ hfirst
  have hsecond : p.frameGot + 1 < p.frameLen := by
    rw [UInt8.lt_iff_toNat_lt, hsucc]
    omega
  have hthird : p.frameGot + 1 + 1 < p.frameLen := by
    have hsucc' := toNat_frameGot_succ (p := { p with frameGot := p.frameGot + 1 }) hsecond
    rw [UInt8.lt_iff_toNat_lt, hsucc', hsucc]
    omega
  have hmore := UInt8.not_le.mpr hsecond
  have hmore' := UInt8.not_le.mpr hthird
  by_cases hlow : low = py32AddrHost
  · simp [parserRun, completedRun, completed, nextParser, rxFeedParser, rxFeedAddr, hstate, hlow,
      hfirst, stateAfterCrc]
  · by_cases hhigh : high = py32AddrHost
    · simp [parserRun, completedRun, completed, nextParser, rxFeedParser, rxFeedAddr, hstate, hlow,
        hhigh, hmore, hsecond, stateAfterCrc]
    · simp [parserRun, completedRun, completed, nextParser, rxFeedParser, hstate, hlow,
        hhigh, hmore, hmore', stateAfterCrc]

/-! ## One repetition of a parameter frame -/

/-- The parameter frame of a host. -/
def setFrame (d0 d1 d2 d3 : UInt8) : Frame := hostFrame py32CmdCommon [d0, d1, d2, d3]

section

variable (d0 d1 d2 d3 low high : UInt8)

/-- The bytes of a parameter frame with its CRC bytes left open. -/
def setBytes : List UInt8 := [0x01, 0x10, 0x04, d0, d1, d2, d3] ++ [low, high]

variable (hfree : py32AddrHost ∉ [d0, d1, d2, d3])
include hfree

/-- Waiting for a command, the receiver reads the frame as one of length 16. -/
theorem setBytes_from_cmd (p : Parser) (hstate : p.state = .cmd) :
    (parserRun p (setBytes d0 d1 d2 d3 low high)).state = stateAfterCrc .data low high ∧
      completedRun p (setBytes d0 d1 d2 d3 low high) = [] := by
  have hsplit : setBytes d0 d1 d2 d3 low high =
      [0x01, 0x10] ++ ([0x04, d0, d1, d2, d3] ++ [low, high]) := rfl
  have hhead : parserRun p [0x01, 0x10] =
      { p with state := .data, frameCmd := 0x01, frameLen := 0x10, frameGot := 0 } := by
    simp [parserRun, nextParser, rxFeedParser, hstate, py32FrameMax]
  have hquiet : completedRun p [0x01, 0x10] = [] := by
    simp [completedRun, completed, nextParser, rxFeedParser, hstate]
  obtain ⟨⟨buf, hrun, -⟩, hnone⟩ := parserRun_data
    { p with state := .data, frameCmd := 0x01, frameLen := 0x10, frameGot := 0 }
    [0x04, d0, d1, d2, d3] rfl (show (0 : UInt8) < 0x10 by decide)
    (show (0 : UInt8).toNat + 5 ≤ (0x10 : UInt8).toNat by decide)
    (show (0x10 : UInt8).toNat ≤ py32FrameMax - 5 by decide)
    (not_mem_cons_of_ne_of_not_mem (by decide) hfree)
  have hmid : (parserRun
      { p with state := .data, frameCmd := 0x01, frameLen := 0x10, frameGot := 0 }
      [0x04, d0, d1, d2, d3]) =
      { p with state := .data, frameCmd := 0x01, frameLen := 0x10, frameGot := 5,
               frameData := buf } := hrun
  obtain ⟨hend, hend'⟩ := parserRun_crc_data
    { p with state := .data, frameCmd := 0x01, frameLen := 0x10, frameGot := 5,
             frameData := buf } low high rfl
    (show (5 : UInt8).toNat + 2 < (0x10 : UInt8).toNat by decide)
  rw [hsplit, parserRun_append, parserRun_append, completedRun_append, completedRun_append,
    hquiet, hhead, hnone, hmid, nil_append, nil_append]
  exact ⟨hend, hend'⟩

/-- Waiting for a length, the receiver takes the address for a length of one and
completes a frame of that length in the middle. -/
theorem setBytes_from_len (p : Parser) (hstate : p.state = .len) :
    (parserRun p (setBytes d0 d1 d2 d3 low high)).state = stateAfterCrc .addr low high ∧
      ∀ f ∈ completedRun p (setBytes d0 d1 d2 d3 low high), f.len = 1 := by
  have hhead : (parserRun p [0x01, 0x10, 0x04, d0]).state = .addr := by
    simp [parserRun, nextParser, rxFeedParser, hstate, py32FrameMax, py32AddrHost, py32ParseReset]
  have hframe : ∀ f ∈ completedRun p [0x01, 0x10, 0x04, d0], f.len = 1 := by
    simp [completedRun, completed, nextParser, rxFeedParser, hstate, py32FrameMax, py32AddrHost,
      Parser.frame]
  obtain ⟨hend, hcompleted⟩ := parserRun_idle_crc p _ [d1, d2, d3] low high hhead
    fun h => hfree (mem_cons_of_mem d0 h)
  exact ⟨hend, hcompleted ▸ hframe⟩

/-- Waiting for a CRC, the receiver completes its frame at once and drops the rest. -/
theorem setBytes_from_crcL (p : Parser) (hstate : p.state = .crcL) :
    (parserRun p (setBytes d0 d1 d2 d3 low high)).state = stateAfterCrc .addr low high :=
  (parserRun_idle_crc p [0x01, 0x10] [0x04, d0, d1, d2, d3] low high
    (parserRun_crc p 0x01 0x10 hstate).1
    (not_mem_cons_of_ne_of_not_mem (by decide) hfree)).1

theorem setBytes_from_crcH (p : Parser) (hstate : p.state = .crcH) :
    (parserRun p (setBytes d0 d1 d2 d3 low high)).state = stateAfterCrc .addr low high := by
  have hhead : (parserRun p [0x01]).state = .addr := by
    simp [parserRun, nextParser, rxFeedParser, hstate, py32ParseReset]
  exact (parserRun_idle_crc p _ [0x10, 0x04, d0, d1, d2, d3] low high hhead
    (not_mem_cons_of_ne_of_not_mem (by decide) (not_mem_cons_of_ne_of_not_mem (by decide) hfree))).1

end

/-- Inside the data of a cut frame the address restarts the receiver, so the next
frame is read as from idle. -/
theorem parserRun_hostFrame_of_data (p : Parser) (cmd : UInt8) (data : List UInt8)
    (hstate : p.state = .data) (hgot : p.frameGot < p.frameLen)
    (hlen : data.length ≤ py32FrameMax - 5) (hfree : py32AddrHost ∉ data) :
    (parserRun p (hostFrame cmd data).bytes).state = .addr ∧
      completedRun p (hostFrame cmd data).bytes = [hostFrame cmd data] := by
  have hsync : nextParser p py32AddrHost = nextParser (py32ParseReset p) py32AddrHost := by
    simp [nextParser, rxFeedParser, hstate, hgot, py32ParseReset]
  have hquiet : completed p py32AddrHost = completed (py32ParseReset p) py32AddrHost := by
    simp [completed, hstate, py32ParseReset]
  have hreset := parserRun_hostFrame (py32ParseReset p) cmd data rfl hlen hfree
  have hbytes : (hostFrame cmd data).bytes =
      py32AddrHost :: (hostFrame cmd data).bytes.tail := rfl
  rw [hbytes, parserRun_cons, completedRun] at hreset ⊢
  rw [hsync, hquiet]
  exact hreset

/-! ## Repetitions -/

/-- The registers that read the next frame correctly: between frames, or inside
the data of a cut one. -/
def Parser.Aligned (p : Parser) : Prop := p.state = .addr ∨ p.state = .data

section

variable (d0 d1 d2 d3 : UInt8)

/-- The two CRC bytes of the parameter frame. -/
def setCrcLow : UInt8 := (setFrame d0 d1 d2 d3).crc.toUInt8

def setCrcHigh : UInt8 := ((setFrame d0 d1 d2 d3).crc >>> 8).toUInt8

theorem setFrame_bytes : (setFrame d0 d1 d2 d3).bytes =
    setBytes d0 d1 d2 d3 (setCrcLow d0 d1 d2 d3) (setCrcHigh d0 d1 d2 d3) := by
  unfold setCrcLow setCrcHigh setFrame hostFrame
  generalize py32Crc16 _ = crc
  rfl

variable (hfree : py32AddrHost ∉ [d0, d1, d2, d3])
include hfree

/-- An aligned receiver takes a repetition and is idle behind it. -/
theorem setFrame_of_aligned (hp : p.Consistent) (haligned : p.Aligned) :
    (parserRun p (setFrame d0 d1 d2 d3).bytes).Aligned ∧
      completedRun p (setFrame d0 d1 d2 d3).bytes = [setFrame d0 d1 d2 d3] := by
  rcases haligned with hstate | hstate
  · obtain ⟨hidle, hframe⟩ := parserRun_hostFrame p py32CmdCommon [d0, d1, d2, d3] hstate
      (by simp [py32FrameMax]) hfree
    exact ⟨.inl hidle, hframe⟩
  · obtain ⟨hidle, hframe⟩ := parserRun_hostFrame_of_data p py32CmdCommon [d0, d1, d2, d3] hstate
      (hp.data hstate) (by simp [py32FrameMax]) hfree
    exact ⟨.inl hidle, hframe⟩

/-- Behind a repetition, a misaligned receiver is where the CRC bytes leave it. -/
theorem state_of_misaligned (hp : ¬ p.Aligned) :
    ∃ state, (state = .addr ∨ state = .data) ∧
      (parserRun p (setFrame d0 d1 d2 d3).bytes).state =
        stateAfterCrc state (setCrcLow d0 d1 d2 d3) (setCrcHigh d0 d1 d2 d3) := by
  rw [setFrame_bytes]
  cases hstate : p.state with
  | addr => exact absurd (.inl hstate) hp
  | data => exact absurd (.inr hstate) hp
  | cmd => exact ⟨.data, .inr rfl, (setBytes_from_cmd _ _ _ _ _ _ hfree p hstate).1⟩
  | len => exact ⟨.addr, .inl rfl, (setBytes_from_len _ _ _ _ _ _ hfree p hstate).1⟩
  | crcL => exact ⟨.addr, .inl rfl, setBytes_from_crcL _ _ _ _ _ _ hfree p hstate⟩
  | crcH => exact ⟨.addr, .inl rfl, setBytes_from_crcH _ _ _ _ _ _ hfree p hstate⟩

/-- A CRC byte with the value of the address keeps a misaligned receiver at the
place it leads to, and no later repetition is completed from there. -/
theorem setFrame_stuck (hp : ¬ p.Aligned)
    (hcrc : setCrcLow d0 d1 d2 d3 = py32AddrHost ∨ setCrcHigh d0 d1 d2 d3 = py32AddrHost) :
    ¬ (parserRun p (setFrame d0 d1 d2 d3).bytes).Aligned ∧
      setFrame d0 d1 d2 d3 ∉ completedRun (parserRun p (setFrame d0 d1 d2 d3).bytes)
        (setFrame d0 d1 d2 d3).bytes := by
  obtain ⟨state, -, hnext⟩ := state_of_misaligned d0 d1 d2 d3 hfree hp
  generalize parserRun p (setFrame d0 d1 d2 d3).bytes = q at hnext ⊢
  by_cases hlow : setCrcLow d0 d1 d2 d3 = py32AddrHost
  · have hlen : q.state = .len := by simpa [stateAfterCrc, hlow] using hnext
    refine ⟨by simp [Parser.Aligned, hlen], fun hmem => ?_⟩
    rw [setFrame_bytes] at hmem
    have hone := (setBytes_from_len _ _ _ _ _ _ hfree q hlen).2 _ hmem
    exact absurd hone (show ¬ UInt8.ofNat 4 = 1 by decide)
  · have hhigh := hcrc.resolve_left hlow
    have hcmd : q.state = .cmd := by simpa [stateAfterCrc, hlow, hhigh] using hnext
    refine ⟨by simp [Parser.Aligned, hcmd], ?_⟩
    rw [setFrame_bytes, (setBytes_from_cmd _ _ _ _ _ _ hfree q hcmd).2]
    exact not_mem_nil

/-- Other CRC bytes align the receiver within one repetition. -/
theorem aligned_of_misaligned (hp : ¬ p.Aligned)
    (hlow : setCrcLow d0 d1 d2 d3 ≠ py32AddrHost)
    (hhigh : setCrcHigh d0 d1 d2 d3 ≠ py32AddrHost) :
    (parserRun p (setFrame d0 d1 d2 d3).bytes).Aligned := by
  obtain ⟨state, hstate, hnext⟩ := state_of_misaligned d0 d1 d2 d3 hfree hp
  have hsame : (parserRun p (setFrame d0 d1 d2 d3).bytes).state = state := by
    simpa [stateAfterCrc, hlow, hhigh] using hnext
  unfold Parser.Aligned
  rw [hsame]
  exact hstate

end

/-! ## Twenty repetitions -/

/-- The system after some repetitions. Each repetition is a stretch of inputs, so
that other inputs may come between its bytes. -/
def afterRepeats (s : Sys) (parts : Nat → List (Env × Input)) : Nat → Sys
  | 0 => s
  | j + 1 => run (afterRepeats s parts j) (parts j)

/-- The frame enters `py32_process_complete_frame` during repetition `j`. -/
def HandedAt (s : Sys) (parts : Nat → List (Env × Input)) (frame : Frame) (j : Nat) : Prop :=
  ∃ frames, frame ∈ frames ∧
    completes (afterRepeats s parts (j + 1)).trace =
      completes (afterRepeats s parts j).trace ++ frames

/-- One of twenty repetitions of a frame is handed over with a passing CRC, and so
is every one behind it. -/
def SelfSynchronises (s : Sys) (parts : Nat → List (Env × Input)) (frame : Frame) : Prop :=
  frame.calcCrc = frame.crc ∧ ∃ k < 20, ∀ j, k ≤ j → j < 20 → HandedAt s parts frame j

section

variable (s : Sys) (parts : Nat → List (Env × Input)) (frame : Frame)
  (hparts : ∀ j, bytesOf (parts j) = frame.bytes) (j : Nat)
include s parts frame hparts j

theorem handedAt_iff : HandedAt s parts frame j ↔
      frame ∈ completedRun (afterRepeats s parts j).parser frame.bytes := by
  have hrun := (run_receiver (afterRepeats s parts j) (parts j)).2
  rw [hparts j] at hrun
  constructor
  · rintro ⟨frames, hmem, hframes⟩
    rw [afterRepeats, hrun, append_cancel_left_eq] at hframes
    rwa [hframes]
  · intro hmem
    exact ⟨_, hmem, hrun⟩

theorem afterRepeats_parser_succ : (afterRepeats s parts (j + 1)).parser =
      parserRun (afterRepeats s parts j).parser frame.bytes := by
  rw [afterRepeats, (run_receiver _ _).1, hparts]

end

theorem afterRepeats_consistent {s : Sys} (hs : s.parser.Consistent)
    (parts : Nat → List (Env × Input)) (j : Nat) :
    (afterRepeats s parts j).parser.Consistent := by
  induction j with
  | zero => exact hs
  | succ j ih =>
    rw [afterRepeats, (run_receiver _ _).1]
    exact parserRun_consistent ih _

section

variable {d0 d1 d2 d3 : UInt8} (hfree : py32AddrHost ∉ [d0, d1, d2, d3])
variable {s : Sys} {parts : Nat → List (Env × Input)}
variable (hparts : ∀ j, bytesOf (parts j) = (setFrame d0 d1 d2 d3).bytes)
include hfree hparts

/-- Once aligned, the receiver takes every repetition. -/
theorem handedAt_of_aligned (hs : s.parser.Consistent) {k : Nat}
    (haligned : (afterRepeats s parts k).parser.Aligned) {j : Nat} (hj : k ≤ j) :
    HandedAt s parts (setFrame d0 d1 d2 d3) j := by
  have hstays : (afterRepeats s parts j).parser.Aligned := by
    induction j, hj using Nat.le_induction with
    | base => exact haligned
    | succ j _ ih =>
      rw [afterRepeats_parser_succ s parts _ hparts]
      exact (setFrame_of_aligned _ _ _ _ hfree (afterRepeats_consistent hs parts j) ih).1
  rw [handedAt_iff s parts _ hparts,
    (setFrame_of_aligned _ _ _ _ hfree (afterRepeats_consistent hs parts j) hstays).2]
  exact mem_singleton_self _

/-- A receiver held back by a CRC byte takes no repetition but perhaps the first. -/
theorem not_handedAt_of_stuck (hs : ¬ s.parser.Aligned)
    (hcrc : setCrcLow d0 d1 d2 d3 = py32AddrHost ∨ setCrcHigh d0 d1 d2 d3 = py32AddrHost)
    (j : Nat) : ¬ HandedAt s parts (setFrame d0 d1 d2 d3) (j + 1) := by
  have hstays : ¬ (afterRepeats s parts j).parser.Aligned := by
    induction j with
    | zero => exact hs
    | succ j ih =>
      rw [afterRepeats_parser_succ s parts _ hparts]
      exact (setFrame_stuck _ _ _ _ hfree ih hcrc).1
  rw [handedAt_iff s parts _ hparts, afterRepeats_parser_succ s parts _ hparts]
  exact (setFrame_stuck _ _ _ _ hfree hstays hcrc).2

end

/-- From every reachable state, twenty repetitions of a parameter frame bring the
receiver into step exactly when it is already aligned or no CRC byte of the frame
has the value of the host address. -/
theorem selfSynchronises_iff (musicVolume : Int) (inputs : List (Env × Input))
    (parts : Nat → List (Env × Input)) (d0 d1 d2 d3 : UInt8)
    (hfree : py32AddrHost ∉ [d0, d1, d2, d3])
    (hparts : ∀ j, bytesOf (parts j) = (setFrame d0 d1 d2 d3).bytes) :
    SelfSynchronises (run (initSys musicVolume) inputs) parts (setFrame d0 d1 d2 d3) ↔
      (run (initSys musicVolume) inputs).parser.Aligned ∨
        setCrcLow d0 d1 d2 d3 ≠ py32AddrHost ∧ setCrcHigh d0 d1 d2 d3 ≠ py32AddrHost := by
  have hs := ((tracked_initSys musicVolume).run inputs).consistent
  generalize run (initSys musicVolume) inputs = s at hs
  have hcrc := hostFrame_calcCrc py32CmdCommon [d0, d1, d2, d3]
  constructor
  · rintro ⟨-, k, hk, hall⟩
    by_contra hnot
    rw [not_or, not_and_or, not_not, not_not] at hnot
    exact not_handedAt_of_stuck hfree hparts hnot.1 hnot.2 18 (hall 19 (by omega) (by omega))
  · have hfrom : ∀ k < 20, (afterRepeats s parts k).parser.Aligned →
        SelfSynchronises s parts (setFrame d0 d1 d2 d3) := by
      intro k hk haligned
      exact ⟨hcrc, k, hk, fun j hj _ => handedAt_of_aligned hfree hparts hs haligned hj⟩
    rintro (haligned | ⟨hlow, hhigh⟩)
    · exact hfrom 0 (by omega) haligned
    · by_cases haligned : s.parser.Aligned
      · exact hfrom 0 (by omega) haligned
      · apply hfrom 1 (by omega)
        rw [afterRepeats_parser_succ s parts _ hparts]
        exact aligned_of_misaligned _ _ _ _ hfree haligned hlow hhigh

/-- Behind a stray address byte, the example frame of the protocol document is
picked up again. -/
theorem selfSynchronises_example :
    SelfSynchronises (run (initSys 8) (feed ⟨16, true, true⟩ [0x01]))
      (fun _ => feed ⟨16, true, true⟩ (setFrame 80 12 12 50).bytes) (setFrame 80 12 12 50) :=
  (selfSynchronises_iff 8 _ _ 80 12 12 50 (by decide) fun _ => bytesOf_feed _ _).mpr
    (.inr (by decide +kernel))

/-- The frame for volume 12, flat equaliser and vibration 7 has the CRC `0x017F`.
Behind the same stray byte the receiver never gets back into step with it. -/
theorem selfSynchronises_fails :
    (setFrame 12 12 12 7).crc = 0x017F ∧
      ¬ SelfSynchronises (run (initSys 8) (feed ⟨16, true, true⟩ [0x01]))
        (fun _ => feed ⟨16, true, true⟩ (setFrame 12 12 12 7).bytes) (setFrame 12 12 12 7) := by
  refine ⟨by decide +kernel, ?_⟩
  rintro ⟨-, k, hk, hall⟩
  refine not_handedAt_of_stuck (by decide) (fun _ => bytesOf_feed _ _) ?_ (.inr ?_) 18
    (hall 19 (by omega) (by omega))
  · rintro (hstate | hstate)
    · exact absurd hstate (by decide)
    · exact absurd hstate (by decide)
  · decide +kernel

end SpeakerFirmware.Py32
