/-
# The PY32 UART link

The speaker talks to its PY32 host controller over a UART: the host sends
`Addr CMD LEN DATA CRC16` frames, the speaker applies the parameters they carry
and answers with a status frame. This module embeds `system_app_py32_uart.c`:
the CRC, the volume maps, the status response, the parameter command, the
processing of a complete frame and the byte-driven receiver.

Everything the file keeps in static variables is one record `Sys`. What the file
does to the outside, and the calls whose order matters, are recorded in its
`trace`. Answers of other subsystems (the maximum volume level, the Bluetooth
connection and playback status) are an `Env` that may differ at every call.
-/

import Mathlib.Data.UInt

namespace SpeakerFirmware.Py32

/-- `PY32_ADDR_HOST`: frames from the host carry this address. -/
def py32AddrHost : UInt8 := 0x01

/-- `PY32_ADDR_SLAVE`: frames to the host carry this address. -/
def py32AddrSlave : UInt8 := 0x02

/-- `PY32_CMD_COMMON`: the one command code of the protocol. -/
def py32CmdCommon : UInt8 := 0x10

/-- `PY32_SET_DATA_LEN`: volume, treble, bass and vibration. -/
def py32SetDataLen : UInt8 := 4

/-- `PY32_RSP_DATA_LEN`: six status bytes, ten bands and the playback flag. -/
def py32RspDataLen : UInt8 := 17

/-- `PY32_FRAME_MAX`: the size of every frame buffer. -/
def py32FrameMax : Nat := 128

def py32ErrNone : UInt8 := 0x00
def py32ErrUnsupported : UInt8 := 0x01
def py32ErrBadLen : UInt8 := 0x02
def py32ErrBadValue : UInt8 := 0x03
def py32ErrCrc : UInt8 := 0x04

/-! ## CRC16 -/

/-- One of the eight shifts `py32_crc16` makes for a byte. -/
def py32CrcShift (crc : UInt16) : UInt16 :=
  if crc &&& 0x0001 ≠ 0 then (crc >>> 1) ^^^ 0xA001 else crc >>> 1

/-- The body of the byte loop of `py32_crc16`. -/
def py32CrcByte (crc : UInt16) (byte : UInt8) : UInt16 :=
  py32CrcShift^[8] (crc ^^^ byte.toUInt16)

/-- `py32_crc16`: reflected polynomial `0xA001`, initial value `0xFFFF`. -/
def py32Crc16 (data : List UInt8) : UInt16 :=
  data.foldl py32CrcByte 0xFFFF

/-! ## Volume maps -/

def pctAnchor : List Nat := [0, 10, 20, 30, 40, 50, 60, 70, 80, 90, 100]

def levelAnchor : List Nat := [0, 3, 6, 8, 10, 11, 12, 13, 14, 15, 16]

/-- The search loop of both volume maps: the first index from 1 on whose anchor
is not below the value, or the last index when there is none. -/
def anchorIndex (anchors : List Nat) (value : Nat) : Nat :=
  ((List.range (anchors.length - 1)).map (· + 1)).find?
    (fun i => value ≤ anchors.getD i 0) |>.getD (anchors.length - 1)

/-- `py32_volume_pct_to_level`; `max` is `audio_policy_get_volume_level()`. -/
def py32VolumePctToLevel (max : Int) (pct : UInt8) : Int :=
  if max ≤ 0 then 0 else
  let pct : Nat := if pct > 100 then 100 else pct.toNat
  let i := anchorIndex pctAnchor pct
  let loPct := pctAnchor.getD (i - 1) 0
  let hiPct := pctAnchor.getD i 0
  let loLvl := levelAnchor.getD (i - 1) 0
  let hiLvl := levelAnchor.getD i 0
  let level : Int :=
    if hiPct = loPct then loLvl
    else ((loLvl + ((pct - loPct) * (hiLvl - loLvl) + (hiPct - loPct) / 2) /
      (hiPct - loPct) : Nat) : Int)
  let level := if max ≠ 16 then (level * max + 8).tdiv 16 else level
  let level := if level < 0 then 0 else level
  if level > max then max else level

/-- `py32_volume_level_to_pct`; the result is cast to `uint8_t`. -/
def py32VolumeLevelToPct (max level : Int) : UInt8 :=
  let level := if level < 0 then 0 else level
  if max ≤ 0 then 0 else
  let level := if level > max then max else level
  let mapped : Int := if max ≠ 16 then (level * 16 + max.tdiv 2).tdiv max else level
  let mapped : Nat := (if mapped > 16 then 16 else mapped).toNat
  let i := anchorIndex levelAnchor mapped
  let loPct := pctAnchor.getD (i - 1) 0
  let hiPct := pctAnchor.getD i 0
  let loLvl := levelAnchor.getD (i - 1) 0
  let hiLvl := levelAnchor.getD i 0
  if hiLvl = loLvl then UInt8.ofNat loPct
  else UInt8.ofNat (loPct + ((mapped - loLvl) * (hiPct - loPct) + (hiLvl - loLvl) / 2) /
    (hiLvl - loLvl))

/-! ## State -/

/-- A static buffer of `PY32_FRAME_MAX` bytes. -/
abbrev FrameBuf := { bytes : List UInt8 // bytes.length = py32FrameMax }

namespace FrameBuf

/-- The zeroed buffer of a static variable. -/
def zero : FrameBuf := ⟨List.replicate py32FrameMax 0, List.length_replicate⟩

/-- Store one byte. C does not check the index; that it is in range is a property
of the receiver, and a store outside has no effect here. -/
def write (buf : FrameBuf) (index : Nat) (byte : UInt8) : FrameBuf :=
  ⟨buf.1.set index byte, by rw [List.length_set, buf.2]⟩

/-- `memcpy` of the first `len` bytes of another buffer. -/
def copy (buf src : FrameBuf) (len : Nat) : FrameBuf :=
  ⟨src.1.take len ++ buf.1.drop len, by
    have hsrc := src.2
    have hbuf := buf.2
    simp only [List.length_append, List.length_take, List.length_drop]
    omega⟩

end FrameBuf

/-- `py32_parse_state`. The C variable is an `u8_t` that only ever holds these
six values, so the `default` label of its switch is never reached. -/
inductive ParseState
  | addr | cmd | len | data | crcL | crcH
  deriving DecidableEq, Repr

/-- The fields of one frame, as they are handed from the receiver to the
handlers; `data` holds the `len` bytes a handler may read. -/
structure Frame where
  addr : UInt8
  cmd : UInt8
  len : UInt8
  data : List UInt8
  crc : UInt16
  deriving DecidableEq, Repr

/-- The receiver registers `py32_parse_state`, `py32_frame_*`, `py32_crc_rx`. -/
structure Parser where
  state : ParseState
  frameAddr : UInt8
  frameCmd : UInt8
  frameLen : UInt8
  frameData : FrameBuf
  frameGot : UInt8
  crcRx : UInt16
  deriving DecidableEq, Repr

/-- `struct py32_params`. -/
structure Params where
  volume : UInt8
  treble : UInt8
  bass : UInt8
  vibration : UInt8
  lastError : UInt8
  deriving DecidableEq, Repr

/-- `py32_last_rx_log`, the copy of the last frame kept to suppress repeats. -/
structure RxLog where
  addr : UInt8
  cmd : UInt8
  len : UInt8
  data : FrameBuf
  crc : UInt16
  deriving DecidableEq, Repr

/-- The calls and outputs of the file that the properties speak about. -/
inductive Event
  /-- `py32_process_complete_frame` was entered with this frame. -/
  | complete (frame : Frame)
  /-- `py32_handle_frame` was called with this frame. -/
  | handle (frame : Frame)
  /-- `py32_uart_tx_bytes` sent these bytes to the host. -/
  | transmit (bytes : List UInt8)
  deriving DecidableEq, Repr

/-- The statics of the file, the music volume of `audio_system` that it sets, and
the trace of its calls. -/
structure Sys where
  parser : Parser
  params : Params
  lastRxLog : RxLog
  rhythmBands : List UInt8
  rhythmPlaying : UInt8
  rhythmDirty : UInt8
  musicVolume : Int
  trace : List Event
  deriving DecidableEq, Repr

/-- What the other subsystems answer during one call: the maximum level
`audio_policy_get_volume_level()`, whether a Bluetooth device is connected, and
whether `bt_manager_media_get_status()` is `BT_STATUS_PLAYING`. -/
structure Env where
  maxLevel : Int
  btConnected : Bool
  mediaPlaying : Bool
  deriving DecidableEq, Repr

/-- `py32_parse_reset`; the data buffer keeps its old bytes. -/
def py32ParseReset (p : Parser) : Parser :=
  { p with state := .addr, frameAddr := 0, frameCmd := 0, frameLen := 0, frameGot := 0, crcRx := 0 }

/-- The static initial values, which `py32_uart_do_init` establishes again. -/
def initSys (musicVolume : Int) : Sys where
  parser := ⟨.addr, 0, 0, 0, FrameBuf.zero, 0, 0⟩
  params := ⟨0, 12, 12, 0, 0⟩
  lastRxLog := ⟨0, 0, 0, FrameBuf.zero, 0⟩
  rhythmBands := List.replicate 10 0
  rhythmPlaying := 0
  rhythmDirty := 0
  musicVolume := musicVolume
  trace := []

/-- Record a call or an output. -/
def Sys.log (s : Sys) (e : Event) : Sys := { s with trace := s.trace ++ [e] }

/-! ## Status response -/

variable (env : Env) (s : Sys)

/-- `system_volume_set(AUDIO_STREAM_MUSIC, level, true)` as far as the stored
music volume goes: `audio_system_set_stream_volume` clamps it to `0 .. max`. -/
def systemVolumeSet (level : Int) : Sys :=
  let level := if level ≥ env.maxLevel then env.maxLevel else level
  { s with musicVolume := if level ≤ 0 then 0 else level }

def py32SyncStatusForResponse : Sys :=
  if s.musicVolume ≥ 0 then
    { s with params := { s.params with volume := py32VolumeLevelToPct env.maxLevel s.musicVolume } }
  else s

/-- The 17 data bytes of a status response. -/
def statusData (errCode : UInt8) : List UInt8 :=
  [s.params.volume, s.params.treble, s.params.bass, s.params.vibration,
    if env.btConnected then 1 else 0, errCode] ++
  (if env.mediaPlaying then s.rhythmBands.take 10 else List.replicate 10 0) ++
  [if env.mediaPlaying then 1 else 0]

/-- The bytes of a frame on the wire, the CRC low byte first. -/
def frameBytes (addr cmd len : UInt8) (data : List UInt8) (crc : UInt16) : List UInt8 :=
  addr :: cmd :: len :: (data ++ [crc.toUInt8, (crc >>> 8).toUInt8])

def py32TxStatusFrame (errCode : UInt8) : Sys :=
  let s := if errCode = py32ErrNone then py32SyncStatusForResponse env s else s
  let data := statusData env s errCode
  let s := { s with rhythmPlaying := if env.mediaPlaying then 1 else 0, rhythmDirty := 0 }
  let crc := py32Crc16 (py32AddrSlave :: py32CmdCommon :: py32RspDataLen :: data)
  s.log (.transmit (frameBytes py32AddrSlave py32CmdCommon py32RspDataLen data crc))

def py32SendStatusResponse (errCode : UInt8) : Sys :=
  py32TxStatusFrame env s errCode

/-! ## The parameter command -/

def py32ApplyVolume (volumePct : UInt8) : Sys :=
  let level := py32VolumePctToLevel env.maxLevel volumePct
  systemVolumeSet env { s with params := { s.params with volume := volumePct } } level

/-- `py32_apply_treble_bass`; the equaliser registers it programs are not read
back by anything modelled here. -/
def py32ApplyTrebleBass (s : Sys) (treble bass : UInt8) : Sys :=
  if treble > 24 ∨ bass > 24 then
    { s with params := { s.params with lastError := py32ErrBadValue } }
  else { s with params := { s.params with treble := treble, bass := bass } }

def py32HandleSetParams (data : List UInt8) (len : UInt8) : Sys :=
  if len ≠ py32SetDataLen then
    py32SendStatusResponse env
      { s with params := { s.params with lastError := py32ErrBadLen } } py32ErrBadLen
  else
    let d0 := data.getD 0 0
    let d1 := data.getD 1 0
    let d2 := data.getD 2 0
    let d3 := data.getD 3 0
    if d0 > 100 ∨ d1 > 24 ∨ d2 > 24 ∨ d3 > 100 then
      py32SendStatusResponse env
        { s with params := { s.params with lastError := py32ErrBadValue } } py32ErrBadValue
    else
      let s := py32ApplyVolume env s d0
      let s := py32ApplyTrebleBass s d1 d2
      let s := { s with params := { s.params with vibration := d3 } }
      py32SendStatusResponse env
        { s with params := { s.params with lastError := py32ErrNone } } py32ErrNone

/-- `py32_handle_frame`; a foreign address is only printed. -/
def py32HandleFrame (frame : Frame) : Sys :=
  let s := s.log (.handle frame)
  if frame.addr ≠ py32AddrHost then s
  else if frame.cmd = py32CmdCommon then py32HandleSetParams env s frame.data frame.len
  else
    py32SendStatusResponse env
      { s with params := { s.params with lastError := py32ErrUnsupported } } py32ErrUnsupported

/-! ## A complete frame -/

def py32RxFrameSame (log : RxLog) (addr cmd : UInt8) (data : FrameBuf) (len : UInt8)
    (crc : UInt16) : Bool :=
  if log.addr ≠ addr ∨ log.cmd ≠ cmd ∨ log.len ≠ len ∨ log.crc ≠ crc then false
  else if len = 0 then true
  else log.data.1.take len.toNat == data.1.take len.toNat

/-- `py32_save_rx_log`; the `memcpy` overwrites the first `len` bytes only. -/
def py32SaveRxLog (log : RxLog) (addr cmd : UInt8) (data : FrameBuf) (len : UInt8)
    (crc : UInt16) : RxLog :=
  { addr := addr, cmd := cmd, len := len, crc := crc
    data := if len > 0 then log.data.copy data len.toNat else log.data }

/-- The frame the receiver registers describe. -/
def Parser.frame (p : Parser) : Frame :=
  ⟨p.frameAddr, p.frameCmd, p.frameLen, p.frameData.1.take p.frameLen.toNat, p.crcRx⟩

/-- The CRC16 of a frame's header and data, what a sender puts on the wire. -/
def Frame.calcCrc (frame : Frame) : UInt16 :=
  py32Crc16 (frame.addr :: frame.cmd :: frame.len :: frame.data)

def py32ProcessCompleteFrame : Sys :=
  let p := s.parser
  let s := s.log (.complete p.frame)
  if p.frameLen.toNat > py32FrameMax - 5 then
    let s := py32SendStatusResponse env s py32ErrBadLen
    { s with parser := py32ParseReset s.parser }
  else if p.frame.calcCrc ≠ p.crcRx then
    let s := { s with params := { s.params with lastError := py32ErrCrc } }
    let s := py32SendStatusResponse env s py32ErrCrc
    { s with parser := py32ParseReset s.parser }
  else if py32RxFrameSame s.lastRxLog p.frameAddr p.frameCmd p.frameData p.frameLen p.crcRx then
    { s with parser := py32ParseReset s.parser }
  else
    let log := py32SaveRxLog s.lastRxLog p.frameAddr p.frameCmd p.frameData p.frameLen p.crcRx
    let s := { s with lastRxLog := log }
    let s := py32HandleFrame env s p.frame
    { s with parser := py32ParseReset s.parser }

/-! ## The receiver -/

/-- The `PY32_RX_ADDR` label: every byte but the host address is dropped. -/
def rxFeedAddr (p : Parser) (c : UInt8) : Parser :=
  if c ≠ py32AddrHost then p else { p with frameAddr := c, state := .cmd }

/-- The labels of `py32_rx_feed_byte` that only move the receiver registers. The
`PY32_RX_DATA` label calls the function again after a reset, which selects the
`PY32_RX_ADDR` label. -/
def rxFeedParser (p : Parser) (c : UInt8) : Parser :=
  match p.state with
  | .addr => rxFeedAddr p c
  | .cmd => { p with frameCmd := c, state := .len }
  | .len =>
    let p := { p with frameLen := c, frameGot := 0 }
    if c = 0 then { p with state := .crcL }
    else if c.toNat > py32FrameMax - 5 then py32ParseReset p
    else { p with state := .data }
  | .data =>
    if c = py32AddrHost ∧ p.frameGot < p.frameLen then rxFeedAddr (py32ParseReset p) c
    else
      let p := { p with
        frameData := p.frameData.write p.frameGot.toNat c, frameGot := p.frameGot + 1 }
      if p.frameGot ≥ p.frameLen then { p with state := .crcL } else p
  | .crcL => { p with crcRx := c.toUInt16, state := .crcH }
  | .crcH => { p with crcRx := p.crcRx ||| (c.toUInt16 <<< 8) }

def py32RxFeedByte (c : UInt8) : Sys :=
  let next := { s with parser := rxFeedParser s.parser c }
  if s.parser.state = .crcH then py32ProcessCompleteFrame env next else next

/-! ## The other entry points -/

def py32RhythmSetData (s : Sys) (bands : List UInt8) (playing : UInt8) : Sys :=
  { s with
    rhythmBands := bands.take 10, rhythmPlaying := if playing ≠ 0 then 1 else 0, rhythmDirty := 1 }

/-- `system_app_py32_uart_push_now`, and the periodic frame of the UART thread. -/
def systemAppPy32UartPushNow : Sys :=
  py32SendStatusResponse env s py32ErrNone

def systemAppPy32ReapplyEq (s : Sys) : Sys :=
  py32ApplyTrebleBass s s.params.treble s.params.bass

/-! ## Runs -/

/-- One thing that happens to the file: a received byte, a change of the music
volume by another part of the system, new rhythm data, a status frame that is
not a response, or the equaliser being applied again. -/
inductive Input
  | byte (c : UInt8)
  | musicVolume (level : Int)
  | rhythm (bands : List UInt8) (playing : UInt8)
  | pushNow
  | reapplyEq
  deriving DecidableEq, Repr

/-- The effect of one input. -/
def step : Input → Sys
  | .byte c => py32RxFeedByte env s c
  | .musicVolume level => { s with musicVolume := level }
  | .rhythm bands playing => py32RhythmSetData s bands playing
  | .pushNow => systemAppPy32UartPushNow env s
  | .reapplyEq => systemAppPy32ReapplyEq s

/-- A finite run; every input meets its own environment. -/
def run (s : Sys) (inputs : List (Env × Input)) : Sys :=
  inputs.foldl (fun s i => step i.1 s i.2) s

/-- The byte an input delivers, if it is one. -/
def Input.byte? : Input → Option UInt8
  | .byte c => some c
  | _ => none

/-- The byte stream of a run. -/
def bytesOf (inputs : List (Env × Input)) : List UInt8 :=
  inputs.filterMap fun i => i.2.byte?

/-- The frames `py32_process_complete_frame` was entered with, in order. -/
def completes (trace : List Event) : List Frame :=
  trace.filterMap fun
    | .complete frame => some frame
    | _ => none

/-- The frames that reached `py32_handle_frame`, in order. -/
def handles (trace : List Event) : List Frame :=
  trace.filterMap fun
    | .handle frame => some frame
    | _ => none

/-- The frames sent to the host, in order. -/
def transmits (trace : List Event) : List (List UInt8) :=
  trace.filterMap fun
    | .transmit bytes => some bytes
    | _ => none

end SpeakerFirmware.Py32
