/-
# The PY32 receiver registers

Processing a complete frame always ends with `py32_parse_reset`, whatever the
frame holds. The receiver registers therefore run on their own: `nextParser` is
their step, `completed` the frame it hands over, and neither depends on the rest
of the system. This module proves that reading of `py32_rx_feed_byte`.
-/

import SpeakerFirmware.Py32.Effects

namespace SpeakerFirmware.Py32

variable (env : Env) (s : Sys)

/-- Whatever a complete frame holds, its processing is entered once and ends with
the receiver reset. -/
theorem py32ProcessCompleteFrame_receiver :
    (py32ProcessCompleteFrame env s).parser = py32ParseReset s.parser ∧
      completes (py32ProcessCompleteFrame env s).trace =
        completes s.trace ++ [s.parser.frame] := by
  have houtcome := processed_processCompleteFrame env s
  generalize py32ProcessCompleteFrame env s = t at houtcome
  cases houtcome with
  | rejected hbad hsent =>
    obtain ⟨bytes, htrace⟩ := hsent.trace
    exact ⟨congrArg py32ParseReset hsent.parser, by simp [htrace, Sys.log, completes]⟩
  | repeated => exact ⟨rfl, by simp [Sys.log, completes]⟩
  | handled hlen hcrc hnew hdone =>
    obtain ⟨bytes, htrace⟩ := hdone.trace
    refine ⟨congrArg py32ParseReset hdone.parser, ?_⟩
    rw [htrace]
    split <;> simp [Sys.log, completes]

/-! ## The registers as a machine of their own -/

/-- The registers after one byte, with the reset that ends a complete frame. -/
def nextParser (p : Parser) (c : UInt8) : Parser :=
  if p.state = .crcH then py32ParseReset (rxFeedParser p c) else rxFeedParser p c

/-- The frame one byte completes, if it completes one. -/
def completed (p : Parser) (c : UInt8) : List Frame :=
  if p.state = .crcH then [(rxFeedParser p c).frame] else []

/-- What one byte can do to the registers, label by label of the switch. -/
inductive RxStep (p : Parser) (c : UInt8) : Parser → Prop
  | /-- A byte between frames is dropped. -/
    idle (hstate : p.state = .addr) (hc : c ≠ py32AddrHost) : RxStep p c p
  | /-- The host address starts a frame. -/
    start (hstate : p.state = .addr) (hc : c = py32AddrHost) :
      RxStep p c { p with frameAddr := c, state := .cmd }
  | cmd (hstate : p.state = .cmd) : RxStep p c { p with frameCmd := c, state := .len }
  | /-- A frame without data goes on with its CRC. -/
    empty (hstate : p.state = .len) (hc : c = 0) :
      RxStep p c { p with frameLen := c, frameGot := 0, state := .crcL }
  | /-- A length that does not fit the buffers drops the frame. -/
    reject (hstate : p.state = .len) (hlarge : py32FrameMax - 5 < c.toNat) :
      RxStep p c (py32ParseReset p)
  | accept (hstate : p.state = .len) (hc : c ≠ 0) (hfits : c.toNat ≤ py32FrameMax - 5) :
      RxStep p c { p with frameLen := c, frameGot := 0, state := .data }
  | /-- The host address inside the data restarts the frame. -/
    resync (hstate : p.state = .data) (hc : c = py32AddrHost) (hgot : p.frameGot < p.frameLen) :
      RxStep p c { py32ParseReset p with frameAddr := c, state := .cmd }
  | store (hstate : p.state = .data) (hdata : c ≠ py32AddrHost ∨ ¬ p.frameGot < p.frameLen)
      (hmore : p.frameGot + 1 < p.frameLen) :
      RxStep p c { p with
        frameData := p.frameData.write p.frameGot.toNat c, frameGot := p.frameGot + 1 }
  | last (hstate : p.state = .data) (hdata : c ≠ py32AddrHost ∨ ¬ p.frameGot < p.frameLen)
      (hlast : p.frameLen ≤ p.frameGot + 1) :
      RxStep p c { p with
        frameData := p.frameData.write p.frameGot.toNat c, frameGot := p.frameGot + 1,
        state := .crcL }
  | crcL (hstate : p.state = .crcL) : RxStep p c { p with crcRx := c.toUInt16, state := .crcH }
  | /-- The last byte; the frame is processed and the registers are reset. -/
    crcH (hstate : p.state = .crcH) : RxStep p c (py32ParseReset p)

variable (p : Parser)

theorem rxStep_nextParser (c : UInt8) : RxStep p c (nextParser p c) := by
  unfold nextParser
  cases hstate : p.state with
  | addr =>
    by_cases hc : c = py32AddrHost
    · simpa [rxFeedParser, rxFeedAddr, hstate, hc] using RxStep.start hstate hc
    · simpa [rxFeedParser, rxFeedAddr, hstate, hc] using RxStep.idle hstate hc
  | cmd => simpa [rxFeedParser, hstate] using RxStep.cmd hstate
  | len =>
    by_cases hzero : c = 0
    · simpa [rxFeedParser, hstate, hzero] using RxStep.empty hstate hzero
    · by_cases hlarge : py32FrameMax - 5 < c.toNat
      · simpa [rxFeedParser, hstate, hzero, hlarge, py32ParseReset] using
          RxStep.reject hstate hlarge
      · simpa [rxFeedParser, hstate, hzero, hlarge] using
          RxStep.accept hstate hzero (Nat.le_of_not_lt hlarge)
  | data =>
    by_cases hsync : c = py32AddrHost ∧ p.frameGot < p.frameLen
    · simpa [rxFeedParser, rxFeedAddr, hstate, hsync] using
        RxStep.resync hstate hsync.1 hsync.2
    · have hdata := not_and_or.mp hsync
      by_cases hlast : p.frameLen ≤ p.frameGot + 1
      · simpa [rxFeedParser, hstate, hsync, hlast] using RxStep.last hstate hdata hlast
      · simpa [rxFeedParser, hstate, hsync, hlast] using
          RxStep.store hstate hdata (UInt8.not_le.mp hlast)
  | crcL => simpa [rxFeedParser, hstate] using RxStep.crcL hstate
  | crcH => simpa [rxFeedParser, hstate, py32ParseReset] using RxStep.crcH (c := c) hstate

/-- The registers after a byte string. -/
def parserRun (p : Parser) (bytes : List UInt8) : Parser := bytes.foldl nextParser p

/-- The frames a byte string completes, in order. -/
def completedRun : Parser → List UInt8 → List Frame
  | _, [] => []
  | p, c :: rest => completed p c ++ completedRun (nextParser p c) rest

@[simp]
theorem parserRun_nil : parserRun p [] = p := rfl

@[simp]
theorem parserRun_cons (c : UInt8) (rest : List UInt8) :
    parserRun p (c :: rest) = parserRun (nextParser p c) rest := rfl

variable (first second : List UInt8)

theorem parserRun_append :
    parserRun p (first ++ second) = parserRun (parserRun p first) second :=
  List.foldl_append

theorem completedRun_append :
    completedRun p (first ++ second) =
      completedRun p first ++ completedRun (parserRun p first) second := by
  induction first generalizing p with
  | nil => rfl
  | cons c rest ih => simp [completedRun, ih, List.append_assoc]

/-- One received byte moves the registers by `nextParser` and enters the
processing of exactly the frame it completes. -/
theorem py32RxFeedByte_receiver (c : UInt8) :
    (py32RxFeedByte env s c).parser = nextParser s.parser c ∧
      completes (py32RxFeedByte env s c).trace =
        completes s.trace ++ completed s.parser c := by
  unfold py32RxFeedByte nextParser completed
  by_cases last : s.parser.state = .crcH
  · simp only [last, if_true]
    exact py32ProcessCompleteFrame_receiver env { s with parser := rxFeedParser s.parser c }
  · simp only [last, if_false, List.append_nil, and_self]

/-- Inputs other than bytes do not reach the receiver. -/
theorem step_receiver (i : Input) :
    (step env s i).parser = parserRun s.parser i.byte?.toList ∧
      completes (step env s i).trace =
        completes s.trace ++ completedRun s.parser i.byte?.toList := by
  cases i with
  | byte c =>
    simpa [step, Input.byte?, completedRun] using py32RxFeedByte_receiver env s c
  | musicVolume level => simp [step, Input.byte?, completedRun]
  | rhythm bands playing => simp [step, Input.byte?, completedRun, py32RhythmSetData]
  | pushNow =>
    have sent := responded_sendStatusResponse env s py32ErrNone
    obtain ⟨bytes, htrace⟩ := sent.trace
    refine ⟨sent.parser, ?_⟩
    simp only [step, systemAppPy32UartPushNow, htrace]
    simp [completes, completedRun, Input.byte?]
  | reapplyEq =>
    obtain ⟨hparser, -, htrace⟩ := systemAppPy32ReapplyEq_keeps s
    simp [step, Input.byte?, completedRun, hparser, htrace]

theorem bytesOf_cons (i : Env × Input) (rest : List (Env × Input)) :
    bytesOf (i :: rest) = i.2.byte?.toList ++ bytesOf rest := by
  unfold bytesOf
  cases h : i.2.byte? <;> simp [h]

/-- The registers of a run depend on its bytes alone. -/
theorem run_receiver (inputs : List (Env × Input)) :
    (run s inputs).parser = parserRun s.parser (bytesOf inputs) ∧
      completes (run s inputs).trace =
        completes s.trace ++ completedRun s.parser (bytesOf inputs) := by
  induction inputs generalizing s with
  | nil => simp [run, bytesOf, completedRun]
  | cons i rest ih =>
    have head := step_receiver i.1 s i.2
    have tail := ih (step i.1 s i.2)
    have runs : run s (i :: rest) = run (step i.1 s i.2) rest := rfl
    rw [runs, bytesOf_cons, parserRun_append, completedRun_append, tail.1, tail.2, head.1, head.2,
      List.append_assoc]
    exact ⟨rfl, rfl⟩

end SpeakerFirmware.Py32
