/-
# The effect of a parameter command

`py32_process_complete_frame` keeps a copy of the last frame that passed the length
and CRC checks. The copy is meant to keep the log short, but a frame equal to it is
not handled at all. A correct command therefore takes effect exactly when the last
checked frame before it was a different one, whatever happened to the music volume
in between.
-/

import SpeakerFirmware.Py32.Effects

namespace SpeakerFirmware.Py32

/-! ## The copy of the last frame -/

/-- The frame the copy stands for; bytes behind its length are left over from
longer frames. -/
def RxLog.frame (log : RxLog) : Frame :=
  ⟨log.addr, log.cmd, log.len, log.data.1.take log.len.toNat, log.crc⟩

theorem py32RxFrameSame_iff (log : RxLog) (p : Parser) :
    py32RxFrameSame log p.frameAddr p.frameCmd p.frameData p.frameLen p.crcRx = true ↔
      log.frame = p.frame := by
  unfold py32RxFrameSame RxLog.frame Parser.frame
  rw [Frame.mk.injEq]
  split
  · rename_i hdiff
    constructor
    · nofun
    · rintro ⟨haddr, hcmd, hlen, -, hcrc⟩
      rcases hdiff with h | h | h | h
      · exact absurd haddr h
      · exact absurd hcmd h
      · exact absurd hlen h
      · exact absurd hcrc h
  · rename_i hsame
    simp only [not_or, not_not] at hsame
    obtain ⟨haddr, hcmd, hlen, hcrc⟩ := hsame
    split
    · rename_i hzero
      simp [haddr, hcmd, hlen, hcrc, hzero]
    · simp [haddr, hcmd, hlen, hcrc]

/-- Saving a frame makes the copy stand for it. -/
theorem py32SaveRxLog_frame (log : RxLog) (p : Parser)
    (hlen : p.frameLen.toNat ≤ py32FrameMax - 5) :
    (py32SaveRxLog log p.frameAddr p.frameCmd p.frameData p.frameLen p.crcRx).frame = p.frame := by
  have hbuf := p.frameData.2
  simp only [py32FrameMax] at hlen hbuf
  have hfits : p.frameLen.toNat ≤ p.frameData.1.length := by omega
  unfold py32SaveRxLog RxLog.frame Parser.frame
  rw [Frame.mk.injEq]
  refine ⟨rfl, rfl, rfl, ?_, rfl⟩
  by_cases hpos : p.frameLen > 0
  · simp [hpos, FrameBuf.copy, hfits]
  · have hzero : p.frameLen = 0 := by
      rw [← UInt8.le_zero_iff]
      exact UInt8.not_lt.mp hpos
    simp [hzero]

/-! ## Sequences of frames -/

/-- One event of a history: a complete frame in the receiver registers, or a change
of the music volume by another part of the system. -/
inductive Command
  | process (registers : Parser)
  | musicVolume (level : Int)
  deriving DecidableEq, Repr

/-- The effect of one event. -/
def commandStep (env : Env) (s : Sys) : Command → Sys
  | .process registers => py32ProcessCompleteFrame env { s with parser := registers }
  | .musicVolume level => { s with musicVolume := level }

/-- The state behind a history. -/
def commandRun (s : Sys) (history : List (Env × Command)) : Sys :=
  history.foldl (fun s e => commandStep e.1 s e.2) s

/-- The frame of an event, when it passes the length and the CRC check. -/
def Command.checked? : Command → Option Frame
  | .process registers =>
    if registers.frameLen.toNat ≤ py32FrameMax - 5 ∧
        registers.frame.calcCrc = registers.crcRx then some registers.frame
    else none
  | .musicVolume _ => none

/-- The last frame of a history that passed both checks. -/
def lastChecked (history : List (Env × Command)) : Option Frame :=
  (history.filterMap fun e => e.2.checked?).getLast?

/-- The copy after an event is the frame of the event, if it passed the checks. -/
theorem lastRxLog_commandStep (env : Env) (s : Sys) (command : Command) :
    (commandStep env s command).lastRxLog.frame = command.checked?.getD s.lastRxLog.frame := by
  cases command with
  | musicVolume level => rfl
  | process registers =>
    have houtcome := processed_processCompleteFrame env { s with parser := registers }
    simp only [commandStep, Command.checked?]
    generalize py32ProcessCompleteFrame env { s with parser := registers } = t at houtcome
    cases houtcome with
    | rejected hbad hsent =>
      have hno : ¬ (registers.frameLen.toNat ≤ py32FrameMax - 5 ∧
          registers.frame.calcCrc = registers.crcRx) := by
        rintro ⟨hlen, hcrc⟩
        exact hbad.elim (fun h => absurd hlen (Nat.not_le.mpr h)) (fun h => h hcrc)
      rw [if_neg hno, Option.getD_none]
      exact congrArg RxLog.frame hsent.lastRxLog
    | repeated hlen hcrc hsame =>
      rw [if_pos ⟨hlen, hcrc⟩, Option.getD_some]
      exact (py32RxFrameSame_iff s.lastRxLog registers).mp hsame
    | handled hlen hcrc hnew hdone =>
      rw [if_pos ⟨hlen, hcrc⟩, Option.getD_some]
      have hlog := congrArg RxLog.frame hdone.lastRxLog
      exact hlog.trans (py32SaveRxLog_frame s.lastRxLog registers hlen)

/-- The copy after a history is the last checked frame of it. -/
theorem lastRxLog_commandRun (s : Sys) (history : List (Env × Command)) :
    (commandRun s history).lastRxLog.frame = (lastChecked history).getD s.lastRxLog.frame := by
  induction history generalizing s with
  | nil => rfl
  | cons e rest ih =>
    have hrun : commandRun s (e :: rest) = commandRun (commandStep e.1 s e.2) rest := rfl
    rw [hrun, ih, lastRxLog_commandStep]
    unfold lastChecked
    cases hchecked : e.2.checked? with
    | none => simp [hchecked]
    | some frame =>
      simp only [List.filterMap_cons, hchecked, List.getLast?_cons, Option.getD_some]

/-! ## The effect of a command -/

/-- A command that the protocol promises to carry out. -/
structure Frame.IsSetCommand (frame : Frame) : Prop where
  crc : frame.calcCrc = frame.crc
  addr : frame.addr = py32AddrHost
  params : frame.SetsParams

/-- Processing the frame in the registers puts its parameters into force and sends
exactly one status response. -/
def TakesEffect (env : Env) (s : Sys) (registers : Parser) : Prop :=
  (commandStep env s (.process registers)).settings = registers.frame.settings env ∧
    ∃ response, transmits (commandStep env s (.process registers)).trace =
      transmits s.trace ++ [response]

/-- In every state, a command takes effect unless the copy stands for the same
frame. -/
theorem takesEffect_iff_lastRxLog (env : Env) (s : Sys) (registers : Parser)
    (hgood : registers.frame.IsSetCommand) :
    TakesEffect env s registers ↔ s.lastRxLog.frame ≠ registers.frame := by
  have houtcome := processed_processCompleteFrame env { s with parser := registers }
  simp only [TakesEffect, commandStep]
  generalize py32ProcessCompleteFrame env { s with parser := registers } = t at houtcome
  cases houtcome with
  | rejected hbad hsent =>
    have hlen : registers.frameLen = py32SetDataLen := hgood.params.2.1
    rcases hbad with hlarge | hcrc
    · simp only [hlen] at hlarge
      exact absurd hlarge (by decide)
    · exact absurd hgood.crc hcrc
  | repeated hlen hcrc hsame =>
    have hframe := (py32RxFrameSame_iff s.lastRxLog registers).mp hsame
    constructor
    · rintro ⟨-, response, hresponse⟩
      simp [Sys.log, transmits] at hresponse
    · intro hnew
      exact absurd hframe hnew
  | handled hlen hcrc hnew hdone =>
    have hframe : s.lastRxLog.frame ≠ registers.frame := by
      rw [Ne, ← py32RxFrameSame_iff, hnew]
      simp
    obtain ⟨bytes, htrace⟩ := hdone.trace
    have haddr : ({ s with parser := registers } : Sys).parser.frame.addr = py32AddrHost :=
      hgood.addr
    have hsettings := hdone.settings
    rw [if_pos ⟨haddr, hgood.params⟩] at hsettings
    rw [if_pos haddr] at htrace
    refine iff_of_true ⟨hsettings, bytes, ?_⟩ hframe
    simp [htrace, Sys.log, transmits]

/-- A correct command takes effect exactly when the last frame that passed the
length and CRC checks was a different one. -/
theorem command_takesEffect_iff (musicVolume : Int) (history : List (Env × Command)) (env : Env)
    (registers : Parser) (hgood : registers.frame.IsSetCommand) :
    TakesEffect env (commandRun (initSys musicVolume) history) registers ↔
      lastChecked history ≠ some registers.frame := by
  rw [takesEffect_iff_lastRxLog env _ registers hgood, lastRxLog_commandRun]
  cases hlast : lastChecked history with
  | none =>
    refine iff_of_true ?_ nofun
    intro hinit
    have haddr : (0 : UInt8) = py32AddrHost := (congrArg Frame.addr hinit).trans hgood.addr
    exact absurd haddr (by decide)
  | some frame => simp

/-- The registers when a parameter frame with the CRC of the protocol is complete. -/
def setRegisters (d0 d1 d2 d3 : UInt8) : Parser where
  state := .crcH
  frameAddr := py32AddrHost
  frameCmd := py32CmdCommon
  frameLen := py32SetDataLen
  frameData := (((FrameBuf.zero.write 0 d0).write 1 d1).write 2 d2).write 3 d3
  frameGot := py32SetDataLen
  crcRx := py32Crc16 [py32AddrHost, py32CmdCommon, py32SetDataLen, d0, d1, d2, d3]

/-- A command behind a different one takes effect. -/
theorem command_takesEffect_example :
    TakesEffect ⟨16, true, true⟩
      (commandRun (initSys 8) [(⟨16, true, true⟩, .process (setRegisters 60 12 12 50)),
        (⟨16, true, true⟩, .musicVolume 3)]) (setRegisters 80 12 12 50) :=
  (command_takesEffect_iff 8 _ _ _ ⟨by decide +kernel, rfl, by decide +kernel⟩).mpr
    (by decide +kernel)

/-- The volume is turned down on the phone and the host sends its last command
again: the frame is neither carried out nor answered. -/
theorem repeated_command_ignored :
    (setRegisters 80 12 12 50).frame.IsSetCommand ∧
      ¬ TakesEffect ⟨16, true, true⟩
        (commandRun (initSys 8) [(⟨16, true, true⟩, .process (setRegisters 80 12 12 50)),
          (⟨16, true, true⟩, .musicVolume 3)]) (setRegisters 80 12 12 50) := by
  have hgood : (setRegisters 80 12 12 50).frame.IsSetCommand :=
    ⟨by decide +kernel, rfl, by decide +kernel⟩
  refine ⟨hgood, ?_⟩
  rw [takesEffect_iff_lastRxLog _ _ _ hgood]
  decide +kernel

end SpeakerFirmware.Py32
