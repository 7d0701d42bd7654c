/-
# The Bluetooth OTA backend

During an upgrade the speaker pulls the image from a phone over an SPP/BLE stream: it
requires a range of the image and the phone sends it in numbered packets. This module
embeds `ota_backend_bt.c`: the command handlers, `process_command`, the request, and
the three read functions of the backend.

The read functions wait in loops that a peer can keep going for ever, and `goto` back
to a label. Each call is therefore a machine: `Activity` is where the call stands, and
one step makes one request or processes one command. What the surroundings do during
a step (how much of the stream has arrived, whether a write to it succeeds, whether the
link is up) is its `Env`.
-/

import Mathlib.Data.UInt

namespace SpeakerFirmware.Ota.Bt

def serviceIdOta : UInt8 := 0x9

/-- `TLV_TYPE_MAIN`: the parameter type of every command. -/
def tlvTypeMain : UInt8 := 0x80

def tlvTypeOtaSupportFeatures : UInt8 := 0x09
def otaSupportFeatureUnitDataCrc : UInt8 := 1

def otaCmdH2dRequestUpgradeId : UInt8 := 0x01
def otaCmdH2dConnectNegotiationId : UInt8 := 0x02
def otaCmdH2dSendImageDataId : UInt8 := 0x04
def otaCmdH2dNegotiationResultId : UInt8 := 0x09
def otaCmdH2dSendImageDataWithCrcId : UInt8 := 0x0B

/-! ## CRC32 -/

/-- `s_crc32`, one entry per nibble. -/
def sCrc32 : List UInt32 :=
  [0, 0x1db71064, 0x3b6e20c8, 0x26d930ac, 0x76dc4190, 0x6b6b51f4, 0x4db26158, 0x5005713c,
    0xedb88320, 0xf00f9344, 0xd6d6a3e8, 0xcb61b38c, 0x9b64c2b0, 0x86d3d2d4, 0xa00ae278, 0xbdbdf21c]

def crc32Nibble (crc : UInt32) (nibble : UInt8) : UInt32 :=
  (crc >>> 4) ^^^ sCrc32.getD ((crc &&& 0xF) ^^^ nibble.toUInt32).toNat 0

/-- The body of the byte loop of `utils_crc32`: the low nibble, then the high one. -/
def crc32Byte (crc : UInt32) (byte : UInt8) : UInt32 :=
  crc32Nibble (crc32Nibble crc (byte &&& 0xF)) (byte >>> 4)

def utilsCrc32 (crc : UInt32) (bytes : List UInt8) : UInt32 :=
  ~~~(bytes.foldl crc32Byte (~~~crc))

/-! ## State -/

/-- The memory the backend writes image data to, by address. -/
abbrev Memory := Int → UInt8

namespace Memory

def write (mem : Memory) (addr : Int) (bytes : List UInt8) : Memory := fun a =>
  if addr ≤ a ∧ a < addr + bytes.length then bytes.getD (a - addr).toNat 0 else mem a

def read (mem : Memory) (addr : Int) (count : Nat) : List UInt8 :=
  (List.range count).map fun i : Nat => mem (addr + i)

end Memory

/-- `svc_prot_state`. -/
inductive ProtState
  | idle | data
  deriving DecidableEq, Repr

/-- The errors of this file: `-EIO`, `-EINVAL` and the `-1` of an unknown command. -/
inductive Err
  | eio | einval | invalidCmd
  deriving DecidableEq, Repr

/-- `svc_prot_context`, without the stream handle and the send buffer. A `read_buf` of
`none` is `NULL`. -/
structure SvcProtContext where
  state : ProtState
  readBuf : Option Int
  readLen : Int
  readDoneLen : Int
  readBufLen : Int
  readOffset : Int
  lastPsn : UInt8
  hostFeatures : UInt8
  otaUnitSize : UInt16
  negotiationDone : Bool
  deriving DecidableEq, Repr

/-- What the speaker sends, with the values it packs. -/
inductive Message
  | requestUpgradeAck (deviceFeatures : Option UInt8)
  | connectNegotiation (otaUnitSize : UInt16)
  | requireImageData (offset len : Int)
  deriving DecidableEq, Repr

/-- The backend with its surroundings: the bytes the stream still has to deliver, the
memory, every address `ota_cmd_h2d_send_image_data` wrote, and what was sent. -/
structure Device where
  ctx : SvcProtContext
  rx : List UInt8
  mem : Memory
  written : List Int
  sent : List Message

/-- What the surroundings answer during one step: whether `stream_write` succeeds and
whether `connect_type` is other than `NONE_CONNECT_TYPE`. -/
structure Env where
  sendOk : Bool
  connected : Bool
  deriving DecidableEq, Repr

/-! ## The stream -/

/-- `svc_prot_get_rx_data` into a local variable. The loop over `stream_read` takes what
is there; when the stream runs dry, what it took is gone. -/
def svcProtGetRxData (d : Device) (size : Nat) : Device × Option (List UInt8) :=
  ({ d with rx := d.rx.drop size }, if size ≤ d.rx.length then some (d.rx.take size) else none)

/-- `svc_prot_get_rx_data` into memory: bytes read before the stream runs dry have been
stored. A size that is not positive reads nothing. -/
def svcProtGetRxDataAt (d : Device) (addr size : Int) : Device × Bool :=
  let bytes := d.rx.take size.toNat
  ({ d with
      rx := d.rx.drop size.toNat
      mem := d.mem.write addr bytes
      written := d.written ++ (List.range bytes.length).map fun i : Nat => addr + i },
    decide (size.toNat ≤ d.rx.length))

def svcProtSkipRxData (d : Device) (size : Nat) : Device × Option Err :=
  match svcProtGetRxData d size with
  | (d, some _) => (d, none)
  | (d, none) => (d, some .eio)

/-- `svc_drop_all_rx_data`: with a positive waiting time, everything that arrives until
the stream has been quiet for that long. -/
def svcDropAllRxData (d : Device) (waitMs : Int) : Device :=
  if waitMs > 0 then { d with rx := [] } else d

variable (env : Env) (d : Device)

def otaBtSendCmd (message : Message) : Device × Option Err :=
  if env.sendOk then ({ d with sent := d.sent ++ [message] }, none) else (d, some .eio)

def le16 (bytes : List UInt8) : UInt16 :=
  (bytes.getD 0 0).toUInt16 ||| ((bytes.getD 1 0).toUInt16 <<< 8)

def le32 (bytes : List UInt8) : UInt32 :=
  (le16 bytes).toUInt32 ||| ((le16 (bytes.drop 2)).toUInt32 <<< 16)

/-- `tlv_unpack_head`: the type and the length. -/
def tlvUnpackHead : Device × Option (UInt8 × UInt16) :=
  match svcProtGetRxData d 3 with
  | (d, some bytes) => (d, some (bytes.getD 0 0, le16 (bytes.drop 1)))
  | (d, none) => (d, none)

/-! ## Command handlers -/

/-- The parameter loop of `ota_cmd_h2d_request_upgrade`. A feature parameter reads one
byte whatever its length says, and `param_size` wraps around. Every turn takes at
least the three head bytes, so `fuel` past the length of the stream is never used up. -/
def requestUpgradeLoop : Nat → Device → UInt16 → Device × Option Err
  | 0, d, _ => (d, some .eio)
  | fuel + 1, d, paramSize =>
    if paramSize = 0 then (d, none) else
    match tlvUnpackHead d with
    | (d, none) => (d, some .eio)
    | (d, some (type, len)) =>
      if type = tlvTypeOtaSupportFeatures then
        match svcProtGetRxData d 1 with
        | (d, none) => (d, some .eio)
        | (d, some bytes) =>
          requestUpgradeLoop fuel
            { d with ctx := { d.ctx with hostFeatures := bytes.getD 0 0 } }
            (paramSize - (3 + len))
      else
        match svcProtSkipRxData d len.toNat with
        | (d, some _) => (d, some .eio)
        | (d, none) => requestUpgradeLoop fuel d (paramSize - (3 + len))

def otaCmdH2dRequestUpgrade (paramSize : UInt16) : Device × Option Err :=
  match requestUpgradeLoop (d.rx.length + 1)
      { d with ctx := { d.ctx with hostFeatures := 0 } } paramSize with
  | (d, some err) => (d, some err)
  | (d, none) =>
    let d := { d with ctx := { d.ctx with state := .idle } }
    otaBtSendCmd env d (.requestUpgradeAck
      (if d.ctx.hostFeatures ≠ 0 then some otaSupportFeatureUnitDataCrc else none))

def otaCmdH2dConnectNegotiation (_paramLen : UInt16) :
    Device × Option Err :=
  let d := { d with ctx := { d.ctx with state := .idle } }
  otaBtSendCmd env d (.connectNegotiation d.ctx.otaUnitSize)

/-- `TLV_UNPACK_U8`: of a longer value only the first byte is read. -/
def tlvUnpackU8 (type : UInt8) : Device × Option Err :=
  match tlvUnpackHead d with
  | (d, none) => (d, some .eio)
  | (d, some (got, len)) =>
    match svcProtGetRxData d (if len = 0 then 0 else 1) with
    | (d, none) => (d, some .eio)
    | (d, some _) => (d, if got = type then none else some .eio)

/-- `ota_cmd_h2d_negotiation_result`. The result itself is only logged. -/
def otaCmdH2dNegotiationResult (_paramLen : UInt16) : Device × Option Err :=
  match tlvUnpackU8 d 0x1 with
  | (d, some _) => (d, some .eio)
  | (d, none) => ({ d with ctx := { d.ctx with negotiationDone := true, state := .idle } }, none)

/-- `ota_cmd_require_image_data`. The context is set before the request is sent. -/
def otaCmdRequireImageData (offset len buf : Int) : Device × Option Err :=
  if d.ctx.negotiationDone = false then (d, some .eio) else
  let ctx := { d.ctx with
    readBuf := some buf, readLen := len, readDoneLen := 0, lastPsn := 0xff, readBufLen := 0
    readOffset := offset }
  match otaBtSendCmd env { d with ctx := ctx } (.requireImageData offset len) with
  | (d, some err) => (d, some err)
  | (d, none) => ({ d with ctx := { d.ctx with state := .idle } }, none)

/-- `seg_len`: the rest of the request or of the parameter, whichever is shorter. -/
def segLen (remaining : Int) (paramLen : UInt16) : Int :=
  if remaining > paramLen.toNat then paramLen.toNat else remaining

/-- The part of `ota_cmd_h2d_send_image_data` behind the packet number and the CRC field;
`paramLen` is what remains of the parameter. The CRC is taken over what is in memory;
a negative `seg_len` would make its loop run through the whole `int` range. -/
def sendImagePayload (readBuf : Int) (paramLen : UInt16) (psn : UInt8)
    (crcOrig : Option UInt32) : Device × Option Err :=
  let len := segLen (d.ctx.readLen - d.ctx.readDoneLen) paramLen
  let addr := readBuf + d.ctx.readBufLen
  match svcProtGetRxDataAt d addr len with
  | (d, false) => (d, some .eio)
  | (d, true) =>
    if crcOrig.any (· ≠ utilsCrc32 0 (d.mem.read addr (len % 2 ^ 32).toNat)) then
      (d, some .eio)
    else if ((paramLen.toNat : Int) - len) % 2 ^ 16 ≠ 0 then (d, some .eio)
    else
      ({ d with ctx := { d.ctx with
          readDoneLen := d.ctx.readDoneLen + len, lastPsn := psn, state := .idle
          readBufLen := d.ctx.readBufLen + len } }, none)

/-- `ota_cmd_h2d_send_image_data`. The subtractions on `param_len` are of 16 bits. -/
def otaCmdH2dSendImageData (paramLen : UInt16) (withCrc : Bool) :
    Device × Option Err :=
  match d.ctx.readBuf with
  | none => (d, some .einval)
  | some readBuf =>
    if d.ctx.readLen = 0 ∨ paramLen < 1 then (d, some .einval) else
    match svcProtGetRxData d 1 with
    | (d, none) => (d, some .eio)
    | (d, some psn) =>
      if psn.getD 0 0 ≠ d.ctx.lastPsn + 1 then (d, some .eio) else
      if withCrc then
        match svcProtGetRxData d 4 with
        | (d, none) => (d, some .eio)
        | (d, some crc) =>
          sendImagePayload d readBuf (paramLen - 1 - 4) (psn.getD 0 0) (some (le32 crc))
      else sendImagePayload d readBuf (paramLen - 1) (psn.getD 0 0) none

/-- The handler `svc_cmds` names for a command. -/
def svcCmdHandler (env : Env) (cmd : UInt8) : Option (Device → UInt16 → Device × Option Err) :=
  if cmd = otaCmdH2dRequestUpgradeId then some (otaCmdH2dRequestUpgrade env)
  else if cmd = otaCmdH2dConnectNegotiationId then some (otaCmdH2dConnectNegotiation env)
  else if cmd = otaCmdH2dNegotiationResultId then some otaCmdH2dNegotiationResult
  else if cmd = otaCmdH2dSendImageDataId then some (otaCmdH2dSendImageData · · false)
  else if cmd = otaCmdH2dSendImageDataWithCrcId then some (otaCmdH2dSendImageData · · true)
  else none

/-- `process_command`; on success it returns the command it processed. -/
def processCommand : Device × Except Err UInt8 :=
  if d.ctx.state ≠ .idle then (d, .error .eio) else
  match svcProtGetRxData d 5 with
  | (d, none) => (d, .error .eio)
  | (d, some head) =>
    let d := { d with ctx := { d.ctx with state := .data } }
    if head.getD 0 0 ≠ serviceIdOta then (d, .error .eio)
    else if head.getD 2 0 ≠ tlvTypeMain then (d, .error .eio)
    else match svcCmdHandler env (head.getD 1 0) with
      | none => (d, .error .invalidCmd)
      | some handler =>
        match handler d (le16 (head.drop 3)) with
        | (d, some err) => (d, .error err)
        | (d, none) => ({ d with ctx := { d.ctx with state := .idle } }, .ok (head.getD 1 0))

/-! ## The read functions -/

/-- The arguments of a read function. -/
structure Request where
  offset : Int
  buf : Int
  size : Int
  deriving DecidableEq, Repr

inductive Api
  | read | readComplete
  deriving DecidableEq, Repr

/-- The variables of a running `ota_backend_bt_read` or `ota_backend_bt_read_complete`,
with the arguments as the caller passed them. -/
structure Call where
  api : Api
  args : Request
  offset : Int
  buf : Int
  size : Int
  err : Option Err
  retryTimes : Nat
  retrySize : Int
  deriving DecidableEq, Repr

/-- Where the backend stands: no call is running, a call is at its `try_again` label or
at the test of its `while` loop, or a call has returned. -/
inductive Activity
  | ready
  | tryAgain (call : Call)
  | loop (call : Call)
  | returned (call : Call) (err : Option Err)
  deriving DecidableEq, Repr

/-- A call as it starts. `ota_backend_bt_read_complete` does not set `err`, so the value
it starts with is whatever the stack holds. -/
def Call.start (api : Api) (args : Request) (garbage : Option Err) : Call :=
  { api, args, offset := args.offset, buf := args.buf, size := args.size
    err := garbage, retryTimes := 0, retrySize := args.size }

/-- What the loop of a call counts: the bytes of the request, or of the buffer. -/
def Call.received (call : Call) (d : Device) : Int :=
  match call.api with
  | .read => d.ctx.readDoneLen
  | .readComplete => d.ctx.readBufLen

/-- The request at `try_again`: `ota_backend_bt_read` always makes one, and
`ota_backend_bt_read_complete` only in a second attempt. -/
def Call.request (call : Call) : Device × Activity :=
  match call.api with
  | .read =>
    match otaCmdRequireImageData env d call.offset call.size call.buf with
    | (d, some _) => (d, .returned call (some .eio))
    | (d, none) => (d, .loop { call with err := none })
  | .readComplete =>
    if call.retryTimes > 0 then
      match otaCmdRequireImageData env d call.offset call.retrySize call.buf with
      | (d, some _) => (d, .returned call (some .eio))
      | (d, none) => (d, .loop { call with err := none })
    else (d, .loop call)

/-- Behind the loop: one more attempt after an error, or the return. -/
def Call.finish (call : Call) : Device × Activity :=
  match call.api with
  | .read =>
    if call.err.isSome ∧ call.retryTimes < 1 then
      let d := svcDropAllRxData d 500
      ({ d with ctx := { d.ctx with state := .idle } },
        .tryAgain { call with retryTimes := call.retryTimes + 1 })
    else (d, .returned call call.err)
  | .readComplete =>
    if call.err.isSome ∧ call.retryTimes < 1 ∧ env.connected then
      let d := svcDropAllRxData d (d.ctx.readLen.tdiv 50 + 500)
      ({ d with ctx := { d.ctx with state := .idle } },
        .tryAgain { call with
          retryTimes := call.retryTimes + 1
          retrySize := d.ctx.readLen - (call.offset - d.ctx.readOffset) })
    else ({ d with ctx := { d.ctx with readBufLen := 0 } }, .returned call call.err)

/-- One turn of the loop. A negotiation result moves the call on by what it received and
goes back to `try_again`. -/
def Call.turn (call : Call) : Device × Activity :=
  if call.received d = call.size then call.finish env d else
  match processCommand env d with
  | (d, .error err) => { call with err := some err }.finish env d
  | (d, .ok cmd) =>
    if cmd = otaCmdH2dNegotiationResultId then
      (d, .tryAgain { call with
        err := none
        offset := call.offset + call.received d
        buf := call.buf + call.received d
        size := call.size - call.received d })
    else (d, .loop { call with err := none })

/-- One step of a running call. -/
def Activity.step : Activity → Device × Activity
  | .tryAgain call => call.request env d
  | .loop call => call.turn env d
  | .ready => (d, .ready)
  | .returned call err => (d, .returned call err)

/-! ## The link -/

/-- What the link does during a step: the answers of its functions, the bytes the host
sends, how much of the stream can be read, whether a lost connection has thrown away
what was buffered, and the stack garbage a new call finds in `err`. -/
structure LinkInput where
  env : Env
  incoming : List UInt8
  arrived : Nat
  flushed : Bool
  garbage : Option Err

/-- All that is on its way to the device during a step. -/
def LinkInput.whole (input : LinkInput) (d : Device) : List UInt8 :=
  (if input.flushed then [] else d.rx) ++ input.incoming

/-- The part of the stream that can be read during a step. -/
def LinkInput.stream (input : LinkInput) (d : Device) : List UInt8 :=
  (input.whole d).take input.arrived

/-- Run `f` on what can be read; the rest of the stream comes later. -/
def LinkInput.onStream {α : Type} (input : LinkInput) (d : Device) (f : Device → Device × α) :
    Device × α :=
  let r := f { d with rx := input.stream d }
  ({ r.1 with rx := r.1.rx ++ (input.whole d).drop input.arrived }, r.2)

def otaBackendBtReadPrepare (args : Request) : Device × Option Err :=
  match otaCmdRequireImageData env d args.offset args.size args.buf with
  | (d, some _) => (d, some .eio)
  | (d, none) => (d, none)

end SpeakerFirmware.Ota.Bt
