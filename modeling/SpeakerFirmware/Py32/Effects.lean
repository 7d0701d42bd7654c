/-
# What a complete frame does

`py32_process_complete_frame` has four outcomes: the frame is answered with an
error because its length or its CRC is wrong, it is dropped because it repeats the
last one, or it is handed to `py32_handle_frame`. Each outcome is stated once here,
as a relation between the state before and after; the invariants and the effect of
a command are read off these relations.
-/

import SpeakerFirmware.Py32.Model

namespace SpeakerFirmware.Py32

/-- The settings a host can change. -/
structure Settings where
  treble : UInt8
  bass : UInt8
  vibration : UInt8
  musicVolume : Int
  deriving DecidableEq, Repr

/-- The settings in force. -/
def Sys.settings (s : Sys) : Settings :=
  ⟨s.params.treble, s.params.bass, s.params.vibration, s.musicVolume⟩

/-- The ranges `py32_handle_set_params` checks. -/
def Frame.InRange (frame : Frame) : Prop :=
  frame.data.getD 0 0 ≤ 100 ∧ frame.data.getD 1 0 ≤ 24 ∧ frame.data.getD 2 0 ≤ 24 ∧
    frame.data.getD 3 0 ≤ 100

/-- A frame that sets the parameters: the right command, length and ranges. -/
def Frame.SetsParams (frame : Frame) : Prop :=
  frame.cmd = py32CmdCommon ∧ frame.len = py32SetDataLen ∧ frame.InRange

instance (frame : Frame) : Decidable frame.InRange :=
  inferInstanceAs (Decidable (_ ∧ _))

instance (frame : Frame) : Decidable frame.SetsParams :=
  inferInstanceAs (Decidable (_ ∧ _))

/-- The settings a frame asks for. -/
def Frame.settings (env : Env) (frame : Frame) : Settings where
  treble := frame.data.getD 1 0
  bass := frame.data.getD 2 0
  vibration := frame.data.getD 3 0
  musicVolume := py32VolumePctToLevel env.maxLevel (frame.data.getD 0 0)

/-! ## A status response -/

/-- Exactly one status frame was sent; the settings, the receiver and the copy of
the last frame are as before. -/
structure Responded (s t : Sys) : Prop where
  parser : t.parser = s.parser
  lastRxLog : t.lastRxLog = s.lastRxLog
  settings : t.settings = s.settings
  trace : ∃ bytes, t.trace = s.trace ++ [.transmit bytes]

variable (env : Env) (s : Sys)

theorem responded_sendStatusResponse (errCode : UInt8) :
    Responded s (py32SendStatusResponse env s errCode) := by
  have hsync : (py32SyncStatusForResponse env s).parser = s.parser ∧
      (py32SyncStatusForResponse env s).lastRxLog = s.lastRxLog ∧
      (py32SyncStatusForResponse env s).settings = s.settings ∧
      (py32SyncStatusForResponse env s).trace = s.trace := by
    unfold py32SyncStatusForResponse
    split <;> exact ⟨rfl, rfl, rfl, rfl⟩
  obtain ⟨hparser, hlog, hsettings, htrace⟩ := hsync
  unfold py32SendStatusResponse py32TxStatusFrame
  by_cases hnone : errCode = py32ErrNone
  · simp only [hnone, if_true]
    exact ⟨hparser, hlog, hsettings, _, congrArg (· ++ _) htrace⟩
  · simp only [hnone, if_false]
    exact ⟨rfl, rfl, rfl, _, rfl⟩

/-- The error code kept for the next report is not part of what a response may
not change. -/
theorem Responded.of_lastError {s t : Sys} {code : UInt8}
    (h : Responded { s with params := { s.params with lastError := code } } t) :
    Responded s t :=
  ⟨h.parser, h.lastRxLog, h.settings, h.trace⟩

/-! ## The parameter command -/

/-- The level `py32_volume_pct_to_level` computes survives the clamp of the audio
system. -/
theorem systemVolumeSet_pctToLevel (pct : UInt8) :
    (systemVolumeSet env s (py32VolumePctToLevel env.maxLevel pct)).musicVolume =
      py32VolumePctToLevel env.maxLevel pct := by
  have hrange : 0 ≤ py32VolumePctToLevel env.maxLevel pct ∧
      (py32VolumePctToLevel env.maxLevel pct ≤ env.maxLevel ∨
        env.maxLevel ≤ 0 ∧ py32VolumePctToLevel env.maxLevel pct = 0) := by
    unfold py32VolumePctToLevel
    dsimp only
    split
    · omega
    · generalize (if env.maxLevel ≠ 16 then _ else _ : Int) = level
      split_ifs <;> omega
  unfold systemVolumeSet
  dsimp only
  split_ifs <;> omega

variable (frame : Frame)

/-- A frame of the wrong length or out of range is only answered. -/
theorem handleSetParams_refused
    (hbad : ¬ (frame.len = py32SetDataLen ∧ frame.InRange)) :
    Responded s (py32HandleSetParams env s frame.data frame.len) := by
  unfold py32HandleSetParams
  by_cases hlen : frame.len = py32SetDataLen
  · have hrange : frame.data.getD 0 0 > 100 ∨ frame.data.getD 1 0 > 24 ∨
        frame.data.getD 2 0 > 24 ∨ frame.data.getD 3 0 > 100 := by
      by_contra hnone
      simp only [not_or, gt_iff_lt, UInt8.not_lt] at hnone
      exact hbad ⟨hlen, hnone⟩
    simp only [hlen, ne_eq, not_true_eq_false, if_false, hrange, if_true]
    exact (responded_sendStatusResponse env _ _).of_lastError
  · simp only [hlen, ne_eq, not_false_eq_true, if_true]
    exact (responded_sendStatusResponse env _ _).of_lastError

/-- A frame of the right length and in range puts all its parameters into force
and is answered. -/
theorem handleSetParams_applied
    (hlen : frame.len = py32SetDataLen) (hrange : frame.InRange) :
    ∃ t : Sys, t.parser = s.parser ∧ t.lastRxLog = s.lastRxLog ∧ t.trace = s.trace ∧
      t.settings = frame.settings env ∧
      Responded t (py32HandleSetParams env s frame.data frame.len) := by
  obtain ⟨hvolume, htreble, hbass, hvibration⟩ := hrange
  have hok : ¬ (frame.data.getD 0 0 > 100 ∨ frame.data.getD 1 0 > 24 ∨
      frame.data.getD 2 0 > 24 ∨ frame.data.getD 3 0 > 100) := by
    simp only [not_or, gt_iff_lt, UInt8.not_lt]
    exact ⟨hvolume, htreble, hbass, hvibration⟩
  have heq : ¬ (frame.data.getD 1 0 > 24 ∨ frame.data.getD 2 0 > 24) :=
    fun h => hok (h.elim (fun h => .inr (.inl h)) (fun h => .inr (.inr (.inl h))))
  unfold py32HandleSetParams
  simp only [hlen, ne_eq, not_true_eq_false, if_false, hok, py32ApplyTrebleBass, heq]
  refine ⟨_, ?_, ?_, ?_, ?_, responded_sendStatusResponse env _ _⟩
  · rfl
  · rfl
  · rfl
  · have hlevel := systemVolumeSet_pctToLevel env
      { s with params := { s.params with volume := frame.data.getD 0 0 } } (frame.data.getD 0 0)
    simp only [Sys.settings, Frame.settings, Settings.mk.injEq, true_and]
    exact hlevel

/-- Applying the equaliser again changes at most the error code. -/
theorem systemAppPy32ReapplyEq_keeps :
    (systemAppPy32ReapplyEq s).parser = s.parser ∧
      (systemAppPy32ReapplyEq s).settings = s.settings ∧
      (systemAppPy32ReapplyEq s).trace = s.trace := by
  unfold systemAppPy32ReapplyEq py32ApplyTrebleBass
  split <;> exact ⟨rfl, rfl, rfl⟩

/-! ## Handling and processing a frame -/

/-- What `py32_handle_frame` does: a frame with the host address is answered once,
and its parameters come into force exactly when they pass every check. -/
structure Handled (env : Env) (frame : Frame) (s t : Sys) : Prop where
  parser : t.parser = s.parser
  lastRxLog : t.lastRxLog = s.lastRxLog
  settings : t.settings =
    if frame.addr = py32AddrHost ∧ frame.SetsParams then frame.settings env else s.settings
  trace : ∃ bytes, t.trace = s.trace ++
    .handle frame :: if frame.addr = py32AddrHost then [.transmit bytes] else []

/-- A frame that is answered but does not set the parameters. -/
theorem Responded.handled {env : Env} {frame : Frame} {s t : Sys}
    (hsent : Responded (s.log (.handle frame)) t) (haddr : frame.addr = py32AddrHost)
    (hbad : ¬ frame.SetsParams) : Handled env frame s t := by
  obtain ⟨bytes, hbytes⟩ := hsent.trace
  refine ⟨hsent.parser, hsent.lastRxLog, ?_, bytes, ?_⟩
  · rw [if_neg fun h => hbad h.2]
    exact hsent.settings
  · rw [hbytes]
    simp [haddr, Sys.log]

theorem handled_handleFrame :
    Handled env frame s (py32HandleFrame env s frame) := by
  unfold py32HandleFrame
  by_cases haddr : frame.addr = py32AddrHost
  · by_cases hcmd : frame.cmd = py32CmdCommon
    · simp only [haddr, hcmd, ne_eq, not_true_eq_false, if_false, if_true]
      by_cases hgood : frame.len = py32SetDataLen ∧ frame.InRange
      · obtain ⟨t, hparser, hlog, htrace, hsettings, hsent⟩ :=
          handleSetParams_applied env (s.log (.handle frame)) frame hgood.1 hgood.2
        obtain ⟨bytes, hbytes⟩ := hsent.trace
        refine ⟨hsent.parser.trans hparser, hsent.lastRxLog.trans hlog, ?_, bytes, ?_⟩
        · rw [if_pos ⟨haddr, hcmd, hgood⟩, hsent.settings, hsettings]
        · rw [hbytes, htrace]
          simp [haddr, Sys.log]
      · exact (handleSetParams_refused env _ frame hgood).handled haddr fun h => hgood h.2
    · simp only [haddr, hcmd, ne_eq, not_true_eq_false, if_false]
      exact (responded_sendStatusResponse env _ _).of_lastError.handled haddr fun h => hcmd h.1
  · simp only [haddr, ne_eq, not_false_eq_true, if_true]
    refine ⟨rfl, rfl, ?_, [], ?_⟩
    · rw [if_neg fun h => haddr h.1]
      rfl
    · simp [haddr, Sys.log]

/-- The outcomes of `py32_process_complete_frame`. The frame is the one in the
receiver registers, and every outcome ends with `py32_parse_reset`. -/
inductive Processed (env : Env) (s : Sys) : Sys → Prop
  | /-- The length or the CRC is wrong. -/
    rejected {t : Sys}
      (hbad : py32FrameMax - 5 < s.parser.frameLen.toNat ∨ s.parser.frame.calcCrc ≠ s.parser.crcRx)
      (hsent : Responded (s.log (.complete s.parser.frame)) t) :
      Processed env s { t with parser := py32ParseReset t.parser }
  | /-- The frame repeats the last one. -/
    repeated (hlen : s.parser.frameLen.toNat ≤ py32FrameMax - 5)
      (hcrc : s.parser.frame.calcCrc = s.parser.crcRx)
      (hsame : py32RxFrameSame s.lastRxLog s.parser.frameAddr s.parser.frameCmd
        s.parser.frameData s.parser.frameLen s.parser.crcRx = true) :
      Processed env s
        { s.log (.complete s.parser.frame) with parser := py32ParseReset s.parser }
  | handled {t : Sys} (hlen : s.parser.frameLen.toNat ≤ py32FrameMax - 5)
      (hcrc : s.parser.frame.calcCrc = s.parser.crcRx)
      (hnew : py32RxFrameSame s.lastRxLog s.parser.frameAddr s.parser.frameCmd
        s.parser.frameData s.parser.frameLen s.parser.crcRx = false)
      (hdone : Handled env s.parser.frame
        { s.log (.complete s.parser.frame) with
          lastRxLog := py32SaveRxLog s.lastRxLog s.parser.frameAddr s.parser.frameCmd
            s.parser.frameData s.parser.frameLen s.parser.crcRx } t) :
      Processed env s { t with parser := py32ParseReset t.parser }

theorem processed_processCompleteFrame :
    Processed env s (py32ProcessCompleteFrame env s) := by
  unfold py32ProcessCompleteFrame
  dsimp only
  split
  · rename_i hlarge
    exact .rejected (.inl hlarge) (responded_sendStatusResponse env _ _)
  · rename_i hlarge
    have hlen := Nat.le_of_not_lt hlarge
    split
    · rename_i hcrc
      exact .rejected (.inr hcrc) (responded_sendStatusResponse env _ _).of_lastError
    · rename_i hcrc
      have hcrc := not_not.mp hcrc
      split
      · rename_i hsame
        exact .repeated hlen hcrc hsame
      · rename_i hnew
        exact .handled hlen hcrc (Bool.eq_false_iff.mpr hnew) (handled_handleFrame env _ _)

end SpeakerFirmware.Py32
