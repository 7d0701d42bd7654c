/-
# The stream over SPP and BLE

`bt_manager_sppble_stream.c` gives one byte stream to an application, whichever way the
phone is connected: over SPP, over BLE, or over GATT on a BR link. The callbacks of the
Bluetooth stack put received bytes into a buffer and give `read_sem`; `sppble_read` takes
bytes out and waits on `read_sem` while there are none. A callback that finds the link gone
sets `connect_type` to `NONE_CONNECT_TYPE` and gives `read_sem` as well.

Every call of one of these functions is a thread of its own, so that any number of reads
and callbacks run at the same time. A step is one statement. What stands between the lock
and the unlock of `read_mutex` and touches only the buffer is one step, and so is the search
for the stream under `g_sppble_mutex`: nobody sees the states in between. The callbacks
are those that find this stream; `read_timeout` is `OS_FOREVER`.
-/

import SpeakerFirmware.Errno
import SpeakerFirmware.Lib.Threads

namespace SpeakerFirmware.BtManager

open Errno
open Interleaving

inductive ConnectType
  | none | spp | ble | gattOverBr
  deriving DecidableEq, Repr

/-- `BT_CONN_TYPE_LE` and `BT_CONN_TYPE_BR`. -/
inductive ConnType
  | le | br
  deriving DecidableEq, Repr

/-! ## The semaphore -/

/-- `read_sem`, whose limit is 1. -/
structure ReadSem (ι : Type) where
  count : Nat
  /-- The threads that wait, in the order in which they came. -/
  waitQ : List ι

variable {ι : Type} [DecidableEq ι]

/-- `k_sem_give`: the kernel readies one of the threads that wait. -/
def ReadSem.give (wakes : List ι → ι) (sem : ReadSem ι) : ReadSem ι :=
  if sem.waitQ.isEmpty then { sem with count := if sem.count ≠ 1 then sem.count + 1 else sem.count }
  else { sem with waitQ := sem.waitQ.erase (wakes sem.waitQ) }

/-! ## The stream -/

/-- `conn_info_t`. -/
structure ConnInfo where
  devConn : List (Option Nat)
  connectNum : Int
  deriving DecidableEq, Repr

/-- `conn_info_find_and_del`, on success. -/
def connInfoFindAndDel (info : ConnInfo) (conn : Option Nat) : Option ConnInfo :=
  if conn.isNone || !info.devConn.contains conn then none
  else some ⟨info.devConn.set (info.devConn.idxOf conn) none, info.connectNum - 1⟩

/-- The buffer of received bytes: `info->buff` and the fields of the handle. -/
structure Cache where
  buff : Option (List UInt8)
  cacheSize : Nat
  rofs : Nat
  wofs : Nat
  totalSize : Nat
  deriving DecidableEq, Repr

/-- `memcpy(&buff[ofs], data, …)`. -/
def copyTo (buff : List UInt8) (ofs : Nat) (data : List UInt8) : List UInt8 :=
  buff.take ofs ++ data ++ buff.drop (ofs + data.length)

/-- The buffer behind a `sppble_rx_data` that found room. -/
def Cache.store (cache : Cache) (data : List UInt8) : Cache :=
  let cacheSize := cache.cacheSize + data.length
  if cache.wofs + data.length > cache.totalSize then
    let wLen := cache.totalSize - cache.wofs
    { cache with
      buff := cache.buff.map fun buff =>
        copyTo (copyTo buff cache.wofs (data.take wLen)) 0 (data.drop wLen)
      cacheSize := cacheSize
      wofs := data.length - wLen }
  else
    { cache with
      buff := cache.buff.map fun buff => copyTo buff cache.wofs data
      cacheSize := cacheSize
      wofs := cache.wofs + data.length }

/-- The end of `sppble_read`: what it takes out of the buffer, and the buffer behind it. -/
def Cache.fetch (cache : Cache) (num : Nat) : List UInt8 × Cache :=
  let buff := cache.buff.getD []
  let rLen := (if cache.cacheSize > num then num else cache.cacheSize) % 65536
  let cacheSize := cache.cacheSize - rLen
  if cache.rofs + rLen > cache.totalSize then
    let rrLen := cache.totalSize - cache.rofs
    ((buff.drop cache.rofs).take rrLen ++ buff.take (rLen - rrLen),
      { cache with cacheSize := cacheSize, rofs := rLen - rrLen })
  else
    ((buff.drop cache.rofs).take rLen,
      { cache with cacheSize := cacheSize, rofs := cache.rofs + rLen })

/-- The fields of `sppble_info_t` and of the stream handle. -/
structure Stream (ι : Type) where
  connectType : ConnectType
  conn : Option Nat
  connInfo : ConnInfo
  /-- `rx_data_on_changed_con_cb` is registered. -/
  rxOnChanged : Bool
  cache : Cache
  readMutex : Option ι
  /-- `g_sppble_mutex`. -/
  sppbleMutex : Option ι
  readSem : ReadSem ι

/-! ## The programs -/

/-- The places of `sppble_read`: the first lock, the two tests of the link, `os_sem_reset`, the
unlock in front of the wait, `os_sem_take`, the wait, the second lock, the copying, the last
unlock and the end. -/
inductive ReadPc
  | lock | testLink | testWait | reset | unlockWait | take | pended | relock | copy
  | unlock (ret : Int) (data : List UInt8)
  | returned (ret : Int) (data : List UInt8)
  deriving DecidableEq, Repr

/-- The places of the callbacks for received data. The first ones are in front of
`sppble_rx_data`; `changed`, `swap` and `restore` are passed when the bytes come from another
connection. -/
inductive ReceivePc
  | find | testConn | changed | swap | restore (connBack : Option Nat) | testType | lock | store
  | give | unlock | done
  deriving DecidableEq, Repr

/-- The places of the callbacks for a lost link. -/
inductive DisconnectPc
  | find | testType | delConn | testCount | setNone | clearConn | give | unlock | done
  deriving DecidableEq, Repr

/-- `stream_spp_receive_data_cb` or `stream_ble_rx_data`. -/
inductive Source
  | spp
  | ble (conn : Option Nat)
  deriving DecidableEq, Repr

/-- `stream_spp_disconnected_cb`, `stream_ble_connect_cb` with `connected = 0`, or
`stream_ble_rx_set_notifyind_ex` with `value = 0`. -/
inductive Disconnect
  | spp
  | ble (conn : Option Nat) (connType : ConnType)
  | ccc (conn : Option Nat)
  deriving DecidableEq, Repr

/-- A call and the place it is at. -/
inductive Pc
  | read (num : Nat) (pc : ReadPc)
  | receive (source : Source) (data : List UInt8) (pc : ReceivePc)
  | disconnect (how : Disconnect) (pc : DisconnectPc)
  deriving DecidableEq, Repr

/-- The calls of the stream's functions. -/
inductive Call
  | read (num : Nat)
  | receive (source : Source) (data : List UInt8)
  | disconnect (how : Disconnect)
  deriving DecidableEq, Repr

/-- The place at which a call begins. -/
def Call.entry : Call → Pc
  | .read num => .read num .lock
  | .receive source data => .receive source data .find
  | .disconnect how => .disconnect how .find

def sppbleRead (i : ι) (num : Nat) (s : Stream ι) : ReadPc → Option (Stream ι × ReadPc)
  | .lock => if s.readMutex.isNone then some ({ s with readMutex := some i }, .testLink) else none
  | .testLink =>
    if s.connectType = .none ∨ s.cache.buff = none then some (s, .unlock eio [])
    else some (s, .testWait)
  | .testWait =>
    if s.connectType ≠ .none ∧ s.cache.cacheSize = 0 then some (s, .reset) else some (s, .copy)
  | .reset => some ({ s with readSem := { s.readSem with count := 0 } }, .unlockWait)
  | .unlockWait => some ({ s with readMutex := none }, .take)
  | .take =>
    if s.readSem.count > 0 then
      some ({ s with readSem := { s.readSem with count := s.readSem.count - 1 } }, .relock)
    else some ({ s with readSem := { s.readSem with waitQ := s.readSem.waitQ ++ [i] } }, .pended)
  -- `_Swap` comes back when a give has taken the thread out of the queue
  | .pended => if i ∈ s.readSem.waitQ then none else some (s, .relock)
  | .relock => if s.readMutex.isNone then some ({ s with readMutex := some i }, .copy) else none
  | .copy =>
    if s.cache.cacheSize = 0 then some (s, .unlock 0 [])
    else
      let (data, cache) := s.cache.fetch num
      some ({ s with cache := cache }, .unlock data.length data)
  | .unlock ret data => some ({ s with readMutex := none }, .returned ret data)
  | .returned _ _ => none

/-- The callbacks for received data, and `sppble_rx_data`. -/
def sppbleRxData (wakes : List ι → ι) (i : ι) (source : Source) (data : List UInt8) (s : Stream ι) :
    ReceivePc → Option (Stream ι × ReceivePc)
  | .find => if s.sppbleMutex.isNone then some (s, .testConn) else none
  | .testConn =>
    match source with
    | .spp => some (s, .testType)
    | .ble conn =>
      if s.conn.isSome ∧ conn ≠ s.conn then some (s, .changed) else some (s, .testType)
  | .changed =>
    if s.connectType = .gattOverBr ∧ s.rxOnChanged then some (s, .swap) else some (s, .done)
  | .swap =>
    match source with
    | .spp => some (s, .done)
    | .ble conn => some ({ s with conn := conn }, .restore s.conn)
  | .restore connBack => some ({ s with conn := connBack }, .done)
  | .testType =>
    match source with
    | .spp => if s.connectType = .spp then some (s, .lock) else some (s, .done)
    | .ble _ =>
      if s.connectType = .ble ∨ s.connectType = .gattOverBr then some (s, .lock)
      else some (s, .done)
  | .lock => if s.readMutex.isNone then some ({ s with readMutex := some i }, .store) else none
  | .store =>
    if s.cache.cacheSize + data.length ≤ s.cache.totalSize then
      some ({ s with cache := s.cache.store data }, .give)
    else some (s, .unlock)
  | .give => some ({ s with readSem := s.readSem.give wakes }, .unlock)
  | .unlock => some ({ s with readMutex := none }, .done)
  | .done => none

/-- Where a callback for a lost link goes when there is nothing more to do:
`stream_ble_connect_cb` still holds `g_sppble_mutex`. -/
def Disconnect.leave : Disconnect → DisconnectPc
  | .ble _ _ => .unlock
  | .spp | .ccc _ => .done

/-- The callbacks for a lost link. -/
def sppbleDisconnect (wakes : List ι → ι) (i : ι) (how : Disconnect) (s : Stream ι) :
    DisconnectPc → Option (Stream ι × DisconnectPc)
  | .find =>
    if s.sppbleMutex.isNone then
      match how with
      | .ble _ _ => some ({ s with sppbleMutex := some i }, .testType)
      | .spp | .ccc _ => some (s, .testType)
    else none
  | .testType =>
    match how with
    | .spp => if s.connectType = .spp then some (s, .setNone) else some (s, how.leave)
    | .ble _ connType =>
      if (connType = .le ∧ s.connectType = .ble) ∨ (connType = .br ∧ s.connectType = .gattOverBr)
      then some (s, .delConn)
      else some (s, how.leave)
    | .ccc _ =>
      if s.connectType = .ble ∨ s.connectType = .gattOverBr then some (s, .delConn)
      else some (s, how.leave)
  | .delConn =>
    match how with
    | .spp => some (s, how.leave)
    | .ble conn _ | .ccc conn =>
      match connInfoFindAndDel s.connInfo conn with
      | some info => some ({ s with connInfo := info }, .testCount)
      | none => some (s, how.leave)
  | .testCount => if s.connInfo.connectNum = 0 then some (s, .setNone) else some (s, how.leave)
  | .setNone =>
    match how with
    | .spp => some ({ s with connectType := .none }, .give)
    | .ble _ _ | .ccc _ => some ({ s with connectType := .none }, .clearConn)
  | .clearConn => some ({ s with conn := none }, .give)
  | .give => some ({ s with readSem := s.readSem.give wakes }, how.leave)
  | .unlock => some ({ s with sppbleMutex := none }, .done)
  | .done => none

/-- One step of a thread. -/
def advance (wakes : List ι → ι) (i : ι) : Pc → Stream ι → Option (Stream ι × Pc)
  | .read num pc, s => (sppbleRead i num s pc).map (Prod.map id (Pc.read num))
  | .receive source data pc, s =>
    (sppbleRxData wakes i source data s pc).map (Prod.map id (Pc.receive source data))
  | .disconnect how pc,
      s => (sppbleDisconnect wakes i how s pc).map (Prod.map id (Pc.disconnect how))

/-! ## Runs -/

/-- The stream and the calls that are made on it. -/
structure System (ι : Type) where
  call : ι → Call
  stream : Stream ι
  readMutex_free : stream.readMutex = none
  sppbleMutex_free : stream.sppbleMutex = none
  count_le : stream.readSem.count ≤ 1
  nobody_waits : stream.readSem.waitQ = []
  /-- The thread that the kernel readies, out of those that wait. -/
  wakes : List ι → ι
  wakes_mem : ∀ waitQ, waitQ ≠ [] → wakes waitQ ∈ waitQ

/-- The state while the calls run. -/
abbrev State (ι : Type) := Threads ι (Stream ι) Pc

namespace System

variable (sys : System ι)

/-- No call has begun. -/
def start : State ι :=
  ⟨sys.stream, fun i => (sys.call i).entry⟩

/-- The state at time `n` of a schedule. -/
def run (sched : Nat → ι) : Nat → State ι :=
  Interleaving.run (turn (advance sys.wakes)) sched sys.start

end System

/-- The next step of the call is an `os_sem_give` on `read_sem`. -/
def Pc.gives : Pc → Bool
  | .receive _ _ .give | .disconnect _ .give => true
  | _ => false

/-- The call has found the link up and no bytes, and goes to `os_sem_reset` next. -/
def Pc.resets : Pc → Bool
  | .read _ .reset => true
  | _ => false

/-- The call has made its `os_sem_reset` and not yet its `os_sem_take`. -/
def Pc.goesToWait : Pc → Bool
  | .read _ .unlockWait | .read _ .take => true
  | _ => false

/-- A read that has made its `os_sem_reset` and needs a give to go on. -/
def Awaits (s : State ι) (i : ι) : Prop :=
  (s.pc i).goesToWait ∨ i ∈ s.shared.readSem.waitQ

instance (s : State ι) (i : ι) : Decidable (Awaits s i) :=
  inferInstanceAs (Decidable (_ ∨ _))

/-- At most one read waits or goes to wait, and no read is still going to reset the semaphore. -/
def WakesAll (s : State ι) : Prop :=
  (∀ i, ¬ (s.pc i).resets) ∧ ∀ i j, Awaits s i → Awaits s j → i = j

instance [Fintype ι] (s : State ι) : Decidable (WakesAll s) :=
  inferInstanceAs (Decidable (_ ∧ _))

end SpeakerFirmware.BtManager
