/-
# Soundness of the PY32 receiver

Over every run from reset, with any bytes on the line and any calls in between, the
frames that reach `py32_handle_frame` are disjoint pieces of the byte stream with a
matching CRC, the buffers are not overrun, frames that fail a check change no
setting, and the settings stay in their ranges.

The invariant ties the registers to the stream: `Parser.pending` is the part of the
current frame already read, and it is always the end of the stream.
-/

import SpeakerFirmware.Py32.Delivery

namespace SpeakerFirmware.Py32

open List UInt8

variable {stream : List UInt8} {p : Parser} {s : Sys}

/-! ## Frames inside a stream -/

/-- The frames occur in the stream in this order, as disjoint contiguous pieces. -/
inductive FramesIn : List UInt8 → List Frame → Prop
  | nil : FramesIn [] []
  | skip {stream : List UInt8} {frames : List Frame} (c : UInt8)
      (rest : FramesIn stream frames) : FramesIn (stream ++ [c]) frames
  | frame {stream : List UInt8} {frames : List Frame} (f : Frame)
      (rest : FramesIn stream frames) : FramesIn (stream ++ f.bytes) (frames ++ [f])

/-- Bytes that belong to no frame may follow. -/
theorem FramesIn.append {frames : List Frame}
    (h : FramesIn stream frames) (bytes : List UInt8) : FramesIn (stream ++ bytes) frames := by
  induction bytes generalizing stream with
  | nil => simpa using h
  | cons c rest ih => simpa using ih (h.skip c)

/-- The bytes of the frame that the registers are in the middle of. -/
def Parser.pending (p : Parser) : List UInt8 :=
  match p.state with
  | .addr => []
  | .cmd => [p.frameAddr]
  | .len => [p.frameAddr, p.frameCmd]
  | .data => p.frameAddr :: p.frameCmd :: p.frameLen :: p.frameData.1.take p.frameGot.toNat
  | .crcL => p.frameAddr :: p.frameCmd :: p.frameLen :: p.frameData.1.take p.frameLen.toNat
  | .crcH => p.frameAddr :: p.frameCmd :: p.frameLen ::
      (p.frameData.1.take p.frameLen.toNat ++ [p.crcRx.toUInt8])

/-- What holds of the registers between two bytes. -/
structure Parser.Consistent (p : Parser) : Prop where
  got_le : p.frameGot ≤ p.frameLen
  len_le : p.frameLen.toNat ≤ py32FrameMax - 5
  addr : p.state ≠ .addr → p.frameAddr = py32AddrHost
  data : p.state = .data → p.frameGot < p.frameLen
  crc : p.state = .crcH → p.crcRx.toUInt8.toUInt16 = p.crcRx

theorem Parser.Consistent.reset (p : Parser) : (py32ParseReset p).Consistent where
  got_le := by simp [py32ParseReset]
  len_le := by simp [py32ParseReset]
  addr := by simp [py32ParseReset]
  data := by simp [py32ParseReset]
  crc := by simp [py32ParseReset]

theorem toNat_frameGot_succ (hgot : p.frameGot < p.frameLen) :
    (p.frameGot + 1).toNat = p.frameGot.toNat + 1 := by
  have hlt := UInt8.lt_iff_toNat_lt.mp hgot
  have hbound := p.frameLen.toNat_lt
  have hone : (1 : UInt8).toNat = 1 := rfl
  rw [UInt8.toNat_add]
  omega

/-- Every byte keeps the registers consistent. -/
theorem Parser.Consistent.next (h : p.Consistent) (c : UInt8) :
    (nextParser p c).Consistent := by
  have hstep := rxStep_nextParser p c
  generalize nextParser p c = q at hstep
  cases hstep with
  | idle => exact h
  | start hstate hc => exact ⟨h.got_le, h.len_le, fun _ => hc, nofun, nofun⟩
  | cmd hstate =>
    exact ⟨h.got_le, h.len_le, fun _ => h.addr (by simp [hstate]), nofun, nofun⟩
  | empty hstate hc =>
    refine ⟨?_, ?_, fun _ => h.addr (by simp [hstate]), nofun, nofun⟩
    · exact le_iff_toNat_le.mpr (Nat.zero_le _)
    · simp [hc]
  | reject => exact .reset p
  | accept hstate hc hfits =>
    have hpos : 0 < c := UInt8.pos_iff_ne_zero.mpr hc
    exact ⟨UInt8.le_of_lt hpos, hfits, fun _ => h.addr (by simp [hstate]), fun _ => hpos, nofun⟩
  | resync hstate hc =>
    exact ⟨(Consistent.reset p).got_le, (Consistent.reset p).len_le, fun _ => hc, nofun, nofun⟩
  | store hstate hdata hmore =>
    exact ⟨UInt8.le_of_lt hmore, h.len_le, fun _ => h.addr (by simp [hstate]), fun _ => hmore,
      by simp [hstate]⟩
  | last hstate hdata hlast =>
    refine ⟨?_, h.len_le, fun _ => h.addr (by simp [hstate]), nofun, nofun⟩
    have hgot := h.data hstate
    have hlt := lt_iff_toNat_lt.mp hgot
    rw [le_iff_toNat_le, toNat_frameGot_succ hgot]
    exact hlt
  | crcL hstate =>
    refine ⟨h.got_le, h.len_le, fun _ => h.addr (by simp [hstate]), nofun, fun _ => ?_⟩
    simp
  | crcH => exact .reset p

/-- A byte that completes no frame extends the part already read, or drops some of
it. -/
theorem pending_nextParser (h : p.Consistent) (c : UInt8) (hstate : p.state ≠ .crcH) :
    ∃ dropped, p.pending ++ [c] = dropped ++ (nextParser p c).pending := by
  have hstep := rxStep_nextParser p c
  generalize nextParser p c = q at hstep
  cases hstep with
  | idle haddr => exact ⟨[c], by simp [Parser.pending, haddr]⟩
  | start haddr hc => exact ⟨[], by simp [Parser.pending, haddr]⟩
  | cmd hcmd => exact ⟨[], by simp [Parser.pending, hcmd]⟩
  | empty hlen hc => exact ⟨[], by simp [Parser.pending, hlen, hc]⟩
  | reject hlen =>
    exact ⟨p.pending ++ [c], by simp [Parser.pending, py32ParseReset]⟩
  | accept hlen => exact ⟨[], by simp [Parser.pending, hlen]⟩
  | resync hdata hc => exact ⟨p.pending, by simp [Parser.pending]⟩
  | store hdata _ hmore =>
    have hgot := h.data hdata
    have hlt := lt_iff_toNat_lt.mp hgot
    have hmax := h.len_le
    have hbuf := FrameBuf.take_write p.frameData p.frameGot.toNat c
      (by simp only [py32FrameMax] at hmax ⊢; omega)
    refine ⟨[], ?_⟩
    simp [Parser.pending, hdata, toNat_frameGot_succ hgot, hbuf]
  | last hdata _ hlast =>
    have hgot := h.data hdata
    have hlt := lt_iff_toNat_lt.mp hgot
    have hmax := h.len_le
    have hbuf := FrameBuf.take_write p.frameData p.frameGot.toNat c
      (by simp only [py32FrameMax] at hmax ⊢; omega)
    have hend : p.frameLen.toNat = p.frameGot.toNat + 1 := by
      have hle := le_iff_toNat_le.mp hlast
      rw [toNat_frameGot_succ hgot] at hle
      omega
    refine ⟨[], ?_⟩
    simp [Parser.pending, hdata, hend, hbuf]
  | crcL hcrc => exact ⟨[], by simp [Parser.pending, hcrc]⟩
  | crcH hlast => exact absurd hlast hstate

/-- Two received CRC bytes are the low and the high byte of the CRC they form. -/
theorem crc_split (low high : UInt8) :
    (low.toUInt16 ||| (high.toUInt16 <<< 8)).toUInt8 = low ∧
      ((low.toUInt16 ||| (high.toUInt16 <<< 8)) >>> 8).toUInt8 = high := by
  have hlow : low.toNat < 2 ^ 8 := low.toNat_lt
  have hhigh : high.toNat < 2 ^ 8 := high.toNat_lt
  have hvalue : (low.toUInt16 ||| (high.toUInt16 <<< 8)).toNat =
      2 ^ 8 * high.toNat + low.toNat := by
    have hshift : high.toNat * 256 % 65536 = 2 ^ 8 * high.toNat := by omega
    simp only [UInt16.toNat_or, toNat_toUInt16, UInt16.toNat_shiftLeft, Nat.shiftLeft_eq]
    change low.toNat ||| high.toNat * 256 % 65536 = _
    rw [Nat.or_comm, hshift, Nat.two_pow_add_eq_or_of_lt hlow]
  constructor
  · apply UInt8.toNat_inj.mp
    rw [UInt16.toNat_toUInt8, hvalue]
    omega
  · apply UInt8.toNat_inj.mp
    rw [UInt16.toNat_toUInt8, UInt16.toNat_shiftRight, hvalue, Nat.shiftRight_eq_div_pow]
    change (2 ^ 8 * high.toNat + low.toNat) / 256 % 256 = high.toNat
    omega

/-- The byte that completes a frame makes the part already read the whole frame. -/
theorem pending_frame (h : p.Consistent) (c : UInt8) (hstate : p.state = .crcH) :
    p.pending ++ [c] = (rxFeedParser p c).frame.bytes := by
  obtain ⟨hlow, hhigh⟩ := crc_split p.crcRx.toUInt8 c
  rw [h.crc hstate] at hlow hhigh
  simp [Parser.pending, Parser.frame, Frame.bytes, frameBytes, rxFeedParser, hstate, hlow, hhigh]

/-! ## Runs -/

/-- The stream of a run is split by the frames that were handled; what the
registers hold is its end. -/
structure Tracked (stream : List UInt8) (s : Sys) : Prop where
  consistent : s.parser.Consistent
  frames : ∃ settled, stream = settled ++ s.parser.pending ∧ FramesIn settled (handles s.trace)
  valid : ∀ f ∈ handles s.trace, f.addr = py32AddrHost ∧ f.len.toNat ≤ py32FrameMax - 5 ∧
    f.data.length = f.len.toNat ∧ f.calcCrc = f.crc

variable (env : Env)

/-- A complete frame reaches `py32_handle_frame` at most once, and only with a
CRC that checks. -/
theorem handles_processCompleteFrame (s : Sys) :
    handles (py32ProcessCompleteFrame env s).trace = handles s.trace ∨
      handles (py32ProcessCompleteFrame env s).trace = handles s.trace ++ [s.parser.frame] ∧
        s.parser.frame.calcCrc = s.parser.crcRx := by
  have houtcome := processed_processCompleteFrame env s
  generalize py32ProcessCompleteFrame env s = t at houtcome
  cases houtcome with
  | rejected hbad hsent =>
    obtain ⟨bytes, htrace⟩ := hsent.trace
    exact .inl (by simp [htrace, Sys.log, handles])
  | repeated => exact .inl (by simp [Sys.log, handles])
  | handled hlen hcrc hnew hdone =>
    obtain ⟨bytes, htrace⟩ := hdone.trace
    refine .inr ⟨?_, hcrc⟩
    rw [htrace]
    split <;> simp [Sys.log, handles]

/-- A received byte keeps the stream and the registers in step. -/
theorem Tracked.feedByte (h : Tracked stream s) (env : Env)
    (c : UInt8) : Tracked (stream ++ [c]) (py32RxFeedByte env s c) := by
  obtain ⟨settled, hstream, hframes⟩ := h.frames
  have hparser := (py32RxFeedByte_receiver env s c).1
  have hconsistent : (py32RxFeedByte env s c).parser.Consistent := by
    rw [hparser]
    exact h.consistent.next c
  by_cases hstate : s.parser.state = .crcH
  · have hframe := pending_frame h.consistent c hstate
    have hidle : (nextParser s.parser c).pending = [] := by
      simp [nextParser, hstate, Parser.pending, py32ParseReset]
    have hfeed : py32RxFeedByte env s c =
        py32ProcessCompleteFrame env { s with parser := rxFeedParser s.parser c } := by
      simp [py32RxFeedByte, hstate]
    rcases handles_processCompleteFrame env { s with parser := rxFeedParser s.parser c } with
      hsame | ⟨hnew, hcrc⟩
    · rw [← hfeed] at hsame
      refine ⟨hconsistent, ⟨stream ++ [c], by rw [hparser, hidle, append_nil], ?_⟩, ?_⟩
      · rw [hsame, hstream, append_assoc]
        exact hframes.append _
      · rw [hsame]
        exact h.valid
    · rw [← hfeed] at hnew
      refine ⟨hconsistent, ⟨stream ++ [c], by rw [hparser, hidle, append_nil], ?_⟩, ?_⟩
      · rw [hnew, hstream, append_assoc, hframe]
        exact hframes.frame _
      · rw [hnew]
        intro f hf
        rcases mem_append.mp hf with hold | hlast
        · exact h.valid f hold
        · rw [mem_singleton] at hlast
          subst hlast
          have hlen := h.consistent.len_le
          have hbuf := s.parser.frameData.2
          simp only [py32FrameMax] at hlen hbuf
          refine ⟨?_, ?_, ?_, hcrc⟩
          · simpa [Parser.frame, rxFeedParser, hstate] using
              h.consistent.addr (by simp [hstate])
          · simpa [Parser.frame, rxFeedParser, hstate] using h.consistent.len_le
          · simp only [Parser.frame, rxFeedParser, hstate, length_take, hbuf]
            omega
  · obtain ⟨dropped, hpending⟩ := pending_nextParser h.consistent c hstate
    have hhandles : handles (py32RxFeedByte env s c).trace = handles s.trace := by
      simp [py32RxFeedByte, hstate]
    refine ⟨hconsistent, ⟨settled ++ dropped, ?_, ?_⟩, ?_⟩
    · rw [hstream, hparser, append_assoc, append_assoc, hpending]
    · rw [hhandles]
      exact hframes.append _
    · rw [hhandles]
      exact h.valid

/-- Inputs other than bytes leave the registers and the handled frames alone. -/
theorem Tracked.step (h : Tracked stream s) (env : Env)
    (i : Input) : Tracked (stream ++ i.byte?.toList) (step env s i) := by
  have hkept : ∀ t : Sys, t.parser = s.parser → handles t.trace = handles s.trace →
      Tracked (stream ++ []) t := by
    intro t hparser hhandles
    rw [append_nil]
    exact ⟨hparser ▸ h.consistent, hparser ▸ hhandles ▸ h.frames, hhandles ▸ h.valid⟩
  cases i with
  | byte c => exact h.feedByte env c
  | musicVolume level => exact hkept _ rfl rfl
  | rhythm bands playing => exact hkept _ rfl rfl
  | pushNow =>
    have hsent := responded_sendStatusResponse env s py32ErrNone
    obtain ⟨bytes, htrace⟩ := hsent.trace
    apply hkept _ hsent.parser
    simp only [htrace]
    simp [handles]
  | reapplyEq =>
    obtain ⟨hparser, -, htrace⟩ := systemAppPy32ReapplyEq_keeps s
    exact hkept _ hparser (congrArg handles htrace)

theorem Tracked.run (h : Tracked stream s)
    (inputs : List (Env × Input)) :
    Tracked (stream ++ bytesOf inputs) (run s inputs) := by
  induction inputs generalizing stream s with
  | nil => simpa [bytesOf, SpeakerFirmware.Py32.run] using h
  | cons i rest ih =>
    have hrest := ih (h.step i.1 i.2)
    rwa [append_assoc, ← bytesOf_cons] at hrest

theorem tracked_initSys (musicVolume : Int) : Tracked [] (initSys musicVolume) where
  consistent := Parser.Consistent.reset (initSys musicVolume).parser
  frames := ⟨[], rfl, .nil⟩
  valid := nofun

/-! ## Settings -/

/-- The ranges the protocol gives the settings. -/
def Settings.InRange (settings : Settings) : Prop :=
  settings.treble ≤ 24 ∧ settings.bass ≤ 24 ∧ settings.vibration ≤ 100

/-- Only a frame that passes every check changes a setting. -/
theorem settings_processCompleteFrame (s : Sys) :
    (py32ProcessCompleteFrame env s).settings = s.settings ∨
      (py32ProcessCompleteFrame env s).settings = s.parser.frame.settings env ∧
        s.parser.frame.SetsParams ∧ s.parser.frame.calcCrc = s.parser.crcRx := by
  have houtcome := processed_processCompleteFrame env s
  generalize py32ProcessCompleteFrame env s = t at houtcome
  cases houtcome with
  | rejected hbad hsent => exact .inl hsent.settings
  | repeated => exact .inl rfl
  | handled hlen hcrc hnew hdone =>
    have hsettings := hdone.settings
    split at hsettings
    · rename_i hgood
      exact .inr ⟨hsettings, hgood.2, hcrc⟩
    · exact .inl hsettings

/-- Every input keeps the settings in range. -/
theorem settings_inRange_step (s : Sys) (i : Input) (h : s.settings.InRange) :
    (step env s i).settings.InRange := by
  cases i with
  | byte c =>
    unfold step py32RxFeedByte
    dsimp only
    split
    · rcases settings_processCompleteFrame env { s with parser := rxFeedParser s.parser c } with
        hsame | ⟨hnew, ⟨-, -, -, htreble, hbass, hvibration⟩, -⟩
      · rw [hsame]
        exact h
      · rw [hnew]
        exact ⟨htreble, hbass, hvibration⟩
    · exact h
  | musicVolume level => exact h
  | rhythm bands playing => exact h
  | pushNow =>
    have hsent := responded_sendStatusResponse env s py32ErrNone
    exact hsent.settings ▸ h
  | reapplyEq =>
    obtain ⟨-, hsettings, -⟩ := systemAppPy32ReapplyEq_keeps s
    exact hsettings ▸ h

theorem settings_inRange_run (s : Sys) (inputs : List (Env × Input)) (h : s.settings.InRange) :
    (run s inputs).settings.InRange := by
  induction inputs generalizing s with
  | nil => exact h
  | cons i rest ih => exact ih _ (settings_inRange_step i.1 s i.2 h)

theorem initSys_inRange (musicVolume : Int) : (initSys musicVolume).settings.InRange := by
  change (12 : UInt8) ≤ 24 ∧ (12 : UInt8) ≤ 24 ∧ (0 : UInt8) ≤ 100
  decide

/-! ## The receiver over whole runs -/

/-- What a state reached over a byte stream guarantees. -/
structure ReceiverSound (stream : List UInt8) (s : Sys) : Prop where
  /-- The handled frames are disjoint contiguous pieces of the stream, in order. -/
  frames : FramesIn stream (handles s.trace)
  /-- Each is a host frame of at most 123 data bytes with a matching CRC. -/
  valid : ∀ f ∈ handles s.trace,
    f.addr = py32AddrHost ∧ f.len.toNat ≤ 123 ∧ f.data.length = f.len.toNat ∧ f.calcCrc = f.crc
  got_le : s.parser.frameGot ≤ s.parser.frameLen
  len_le : s.parser.frameLen.toNat ≤ 123
  /-- `frame_data` is written in the data state only, at index `frame_got`. -/
  index_lt : s.parser.state = .data → s.parser.frameGot.toNat < py32FrameMax
  /-- The CRC check copies `frame_len` bytes behind the three header bytes of `hdr`. -/
  hdr_le : 3 + s.parser.frameLen.toNat ≤ py32FrameMax
  /-- The frame a byte completes changes no setting when it fails a check. -/
  rejects : ∀ (env : Env) (c : UInt8) (f : Frame),
    completes (py32RxFeedByte env s c).trace = completes s.trace ++ [f] →
    (f.calcCrc ≠ f.crc ∨ f.cmd ≠ py32CmdCommon ∨ f.len ≠ py32SetDataLen ∨ ¬ f.InRange) →
    (py32RxFeedByte env s c).settings = s.settings
  settings : s.settings.InRange

/-- In every state a failed check protects the settings. -/
theorem settings_feedByte_of_bad (s : Sys) (c : UInt8) (f : Frame)
    (hcomplete : completes (py32RxFeedByte env s c).trace = completes s.trace ++ [f])
    (hbad : f.calcCrc ≠ f.crc ∨ f.cmd ≠ py32CmdCommon ∨ f.len ≠ py32SetDataLen ∨ ¬ f.InRange) :
    (py32RxFeedByte env s c).settings = s.settings := by
  rw [(py32RxFeedByte_receiver env s c).2, append_cancel_left_eq] at hcomplete
  have hstate : s.parser.state = .crcH := by
    by_contra hother
    simp [completed, hother] at hcomplete
  have hframe : (rxFeedParser s.parser c).frame = f := by
    simpa [completed, hstate] using hcomplete
  have hrx : (rxFeedParser s.parser c).crcRx = f.crc := by rw [← hframe, Parser.frame]
  have hfeed : py32RxFeedByte env s c =
      py32ProcessCompleteFrame env { s with parser := rxFeedParser s.parser c } := by
    simp [py32RxFeedByte, hstate]
  rw [hfeed]
  rcases settings_processCompleteFrame env { s with parser := rxFeedParser s.parser c } with
    hsame | ⟨-, ⟨hcmd, hlen, hin⟩, hcrc⟩
  · exact hsame
  · simp only [hframe] at hcmd hlen hin hcrc
    rcases hbad with hbad | hbad | hbad | hbad
    · exact absurd (hcrc.trans hrx) hbad
    · exact absurd hcmd hbad
    · exact absurd hlen hbad
    · exact absurd hin hbad

/-- Every run from reset, over any byte stream and with any calls in between, is
sound. -/
theorem receiver_sound (musicVolume : Int) (inputs : List (Env × Input)) :
    ReceiverSound (bytesOf inputs) (run (initSys musicVolume) inputs) := by
  have htracked := (tracked_initSys musicVolume).run inputs
  have hrange := settings_inRange_run _ inputs (initSys_inRange musicVolume)
  rw [nil_append] at htracked
  generalize run (initSys musicVolume) inputs = s at htracked hrange
  obtain ⟨settled, hstream, hframes⟩ := htracked.frames
  have hlen : s.parser.frameLen.toNat ≤ 123 := htracked.consistent.len_le
  exact {
    frames := hstream ▸ hframes.append _
    valid := htracked.valid
    got_le := htracked.consistent.got_le
    len_le := hlen
    index_lt := fun hstate => by
      have hlt := lt_iff_toNat_lt.mp (htracked.consistent.data hstate)
      simp only [py32FrameMax]
      omega
    hdr_le := by
      simp only [py32FrameMax]
      omega
    rejects := fun env c f => settings_feedByte_of_bad env s c f
    settings := hrange }

end SpeakerFirmware.Py32
