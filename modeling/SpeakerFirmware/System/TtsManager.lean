/-
# The queue of voice prompts

`tts_manager.c` plays short voice files. `tts_manager_play` appends an item to a list of at
most three; `tts_manager_play_process` takes the first one out and starts it, either on a
player of its own or mixed into the music by the merge manager, and `tts_curr` is the item
that plays. It ends with the stop timer or with `tts_manager_stop`, both through
`_tts_remove_current_node`, which frees it.

An operation is what runs between two changes of the owner of `tts_mutex`. So
`tts_manager_wait_finished(true)` is the three operations `lock`, `clean` and `unlock`, with
anything in between, and `tts_manager_play_process` is cut in two where
`_tts_event_nodify` unlocks the mutex and waits for the front application: the second part
is the operation `replied`. The heap records what becomes of every `tts_item_t`, and
`heard` what the listener was told about which item.
-/

import SpeakerFirmware.Errno
import SpeakerFirmware.Lib.Ownership
import SpeakerFirmware.Lib.Runs

namespace SpeakerFirmware.System.Tts

open Errno
open Ownership

/-! ## The manager -/

inductive TtsEvent
  | startPlay | stopPlay | powerOff
  deriving DecidableEq, Repr

def blockUninterruptable : Nat := 2
def unblockUninterruptable : Nat := 4
def ttsMixModeWithTrack : Nat := 0x40

/-- `tts_item_t`; of the handles it matters whether they are `NULL`. -/
structure TtsItem where
  ttsFileName : List Char
  ttsMode : Nat
  ttsMixMode : Bool
  playerHandle : Bool
  ttsStream : Bool
  deriving DecidableEq, Repr, Inhabited

/-- `tts_manager_ctx_t`, with the items on the heap and what was sent out. -/
structure Manager where
  heap : Heap TtsItem
  ttsList : List Nat
  ttsCurr : Option Nat
  ttsManagerLocked : Nat
  ttsItemNum : Nat
  /-- A listener is registered. -/
  lisener : Bool
  /-- The items of the calls of `tts_manager_play_process` that wait for the front application. -/
  starting : List Nat
  /-- The calls of the listener, by item. -/
  heard : List (Nat × TtsEvent)
  /-- The messages to the front application. -/
  posted : List TtsEvent
  deriving DecidableEq, Repr

namespace Manager

/-- `tts_manager_init`. -/
def init (lisener : Bool) : Manager :=
  { heap := .empty
    ttsList := []
    ttsCurr := none
    ttsManagerLocked := 0
    ttsItemNum := 0
    lisener := lisener
    starting := []
    heard := []
    posted := [] }

variable (m : Manager)

/-- `tts_ctx->lisener(&tts_item->tts_file_name[0], event)`, if there is a listener: it reads the
name. -/
def callLisener (item : Nat) (event : TtsEvent) : Manager :=
  if m.lisener then { m with heap := m.heap.touch item, heard := m.heard ++ [(item, event)] } else m

/-- `_tts_event_nodify`, up to the wait. -/
def eventNodify (event : TtsEvent) : Manager :=
  { m with posted := m.posted ++ [event] }

/-- `mem_free(tts_item)`. -/
def memFree (item : Nat) : Manager :=
  { m with heap := m.heap.free item }

/-- Reads and writes fields of an item. -/
def update (item : Nat) (f : TtsItem → TtsItem) : Manager :=
  { m with heap := (m.heap.touch item).modify item f }

/-- `tts_manager_lock`. -/
def lock : Manager :=
  { m with ttsManagerLocked := (m.ttsManagerLocked + 1) % 256 }

/-- `tts_manager_unlock`. -/
def unlock : Manager :=
  if m.ttsManagerLocked > 0 then { m with ttsManagerLocked := m.ttsManagerLocked - 1 } else m

/-- `strncmp(name, "poweroff", 8) == 0`. -/
def isPoweroff (name : List Char) : Bool :=
  "poweroff".toList.isPrefixOf name

/-- `_tts_remove_current_node`. -/
def removeCurrentNode : Manager :=
  match m.ttsCurr with
  | none => m
  | some item =>
    let closed := m.update item fun i => { i with playerHandle := false, ttsStream := false }
    let told := { closed with ttsCurr := none }.callLisener item .stopPlay
    let notified :=
      if (m.heap.cell item).ttsMixMode then told
      else
        let posted := told.eventNodify .stopPlay
        if isPoweroff (m.heap.cell item).ttsFileName then (posted.eventNodify .powerOff).lock
        else posted
    notified.memFree item

/-- `_tts_start_play` and the end of `tts_manager_play_process` behind it; `opened` says that
`media_player_open` succeeds. -/
def startPlay (item : Nat) (opened : Bool) : Int × Manager :=
  let current := { m.update item fun i => { i with ttsStream := true, playerHandle := opened } with
    ttsCurr := some item }
  if opened then (0, current)
  else (-2, (current.removeCurrentNode.eventNodify .stopPlay).callLisener item .stopPlay)

/-- What `tts_manager_play_process` finds: a main player whose track runs, so that a prompt can be
mixed in; the outcomes of `_tts_create_stream`, of sending the message and of
`media_player_open`; and the answer of `tts_merge_manager_is_running`. The result of
`tts_merge_manager_start` is not looked at. -/
structure Env where
  mixable : Bool
  streamCreated : Bool
  sent : Bool
  opened : Bool
  mergeRunning : Bool
  deriving DecidableEq, Repr

/-- `tts_mix_mode` of an item that is about to start. -/
def mixes (env : Env) (item : Nat) : Bool :=
  env.mixable && (m.heap.cell item).ttsMode &&& ttsMixModeWithTrack != 0

/-- The part of `tts_manager_play_process` behind the choice of `tts_mix_mode`, up to the wait for
the front application. -/
def startItem (env : Env) (item : Nat) (mix : Bool) : Int × Manager :=
  if mix then
    -- nothing is done with the item that is dropped
    if env.mergeRunning then (0, m) else (0, { m with ttsCurr := some item })
  else if env.streamCreated then
    if env.sent then
      (0, { m.eventNodify .startPlay with starting := m.starting ++ [item] })
    else m.startPlay item env.opened
  else (0, m.memFree item)

/-- `tts_manager_play_process`. -/
def playProcess (env : Env) : Int × Manager :=
  match m.ttsList with
  | [] => (enoent, m)
  | head :: rest =>
    if m.ttsCurr.isSome || m.ttsManagerLocked != 0 then (enolck, m)
    else
      let taken := { m with ttsList := rest, ttsItemNum := (m.ttsItemNum + 255) % 256 }
      let mix := m.mixes env head
      ((taken.callLisener head .startPlay).update head
        fun i => { i with ttsMixMode := mix }).startItem env head mix

/-- The front application has replied to the call that starts `item`. -/
def replied (item : Nat) (opened : Bool) : Int × Manager :=
  if item ∈ m.starting then
    { m with starting := m.starting.erase item }.startPlay item opened
  else (0, m)

/-- The oldest item of a full list is dropped. -/
def makeRoom : Manager :=
  if m.ttsItemNum ≥ 3 then
    match m.ttsList with
    | [] => m
    | head :: rest =>
      { m with
        heap := (m.heap.touch head).free head
        ttsList := rest
        ttsItemNum := (m.ttsItemNum + 255) % 256 }
  else m

/-- `tts_manager_play`; `allocated` says that there is memory for the item. -/
def play (name : List Char) (mode : Nat) (allocated : Bool) : Int × Manager :=
  if m.ttsManagerLocked > 0 then
    (enolck, if isPoweroff name then m.eventNodify .powerOff else m)
  else if name = "keytone.pcm".toList then (0, m)
  else
    let room := m.makeRoom
    if allocated then
      let item : TtsItem := ⟨name, mode % 256, false, false, false⟩
      (0, { room with
        heap := room.heap.alloc item
        ttsList := room.ttsList ++ [room.heap.next]
        ttsItemNum := (room.ttsItemNum + 1) % 256 })
    else (enomem, room)

/-- `tts_manager_stop`. -/
def stop : Manager :=
  match m.ttsCurr with
  | none => m
  | some item =>
    let touched := { m with heap := m.heap.touch item }
    let mode := (m.heap.cell item).ttsMode
    if mode &&& unblockUninterruptable ≠ 0 || mode &&& blockUninterruptable ≠ 0 then touched
    else touched.removeCurrentNode

/-- The part of `tts_manager_wait_finished(true)` behind the wait. -/
def clean : Manager :=
  if m.ttsList.isEmpty then m
  else { m with
    heap := m.ttsList.foldl (fun heap item => (heap.touch item).free item) m.heap
    ttsList := []
    ttsItemNum := 0 }

end Manager

/-! ## Runs -/

inductive Op
  | play (name : List Char) (mode : Nat) (allocated : Bool)
  | playProcess (env : Manager.Env)
  | replied (item : Nat) (opened : Bool)
  | stop
  | stopTimer
  | lock
  | unlock
  | clean
  deriving DecidableEq, Repr

namespace Manager

def step (m : Manager) : Op → Manager
  | .play name mode allocated => (m.play name mode allocated).2
  | .playProcess env => (m.playProcess env).2
  | .replied item opened => (m.replied item opened).2
  | .stop => m.stop
  | .stopTimer => m.removeCurrentNode
  | .lock => m.lock
  | .unlock => m.unlock
  | .clean => m.clean

def run (m : Manager) (ops : List Op) : Manager :=
  ops.foldl step m

/-- The items that have left the list and are not freed: the current one and those that are being
started. -/
def playing (m : Manager) : List Nat :=
  m.ttsCurr.toList ++ m.starting

/-- The count is right, every item is held once or freed once and never used afterwards, and the
listener has heard one stop for each start of an item that no longer plays. -/
structure Accounted (m : Manager) : Prop where
  num : m.ttsItemNum = m.ttsList.length
  num_le : m.ttsItemNum ≤ 3
  owns : Owns m.heap (m.ttsList ++ m.playing)
  noStale : m.heap.stale = []
  balanced : m.lisener → ∀ item,
    m.heard.count (item, .startPlay) = m.heard.count (item, .stopPlay) + m.playing.count item

/-- The step starts no item, or it starts one without a failure. -/
def Regular (m : Manager) : Op → Prop
  | .playProcess env =>
    ∀ head rest, m.ttsList = head :: rest → m.ttsCurr = none → m.ttsManagerLocked = 0 →
      if m.mixes env head then env.mergeRunning = false
      else m.lisener → env.streamCreated ∧ (env.sent ∨ env.opened)
  | .replied item opened => item ∈ m.starting → m.ttsCurr = none ∧ (m.lisener → opened)
  | _ => True

end Manager

end SpeakerFirmware.System.Tts
