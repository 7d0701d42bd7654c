/-
# Reading the image

A caller reads the image with `ota_backend_bt_read`, or with one
`ota_backend_bt_read_prepare` and a row of `ota_backend_bt_read_complete` that take the
request apart. Against a host that answers, a call that returns 0 has filled its buffer
with the bytes of the image it was asked for, in every run in which

* nothing but commands is on its way when a request is made, and
* `read_complete` takes a negotiation result only with none of its segment received.

`read_complete` moves on after a negotiation result without asking again and without
counting anew, so one in the middle of a segment makes it return with half of the
segment. A request does not throw away what is left of an earlier answer, whose packets
are numbered from 0 as well.
-/

import SpeakerFirmware.Lib.Runs
import SpeakerFirmware.Ota.Bt.Transfer

namespace SpeakerFirmware.Ota.Bt

open Runs

variable {args : Request}

/-! ## Sessions -/

/-- The backend between calls and during one. `prepared` is where the next `read_complete`
of the prepared request goes on, and its buffer. -/
structure Session where
  dev : Device
  activity : Activity
  prepared : Option (Int × Int)

/-- What the caller does, or one step of the call that is running. -/
inductive Event
  | read (args : Request)
  | prepare (args : Request)
  | complete (args : Request)
  | proceed
  deriving DecidableEq, Repr

/-- Where the request goes on behind a step. -/
def preparedAfter (prepared : Option (Int × Int)) : Activity → Option (Int × Int)
  | .returned call none =>
    if call.api = .readComplete then some (call.args.offset + call.args.size, call.args.buf)
    else none
  | .returned _ (some _) | .ready => none
  | .tryAgain _ | .loop _ => prepared

def Session.step (input : LinkInput) (s : Session) : Event → Session
  | .read args =>
    { dev := (input.onStream s.dev (·, ())).1
      activity := .tryAgain (Call.start .read args input.garbage), prepared := none }
  | .prepare args =>
    let r := input.onStream s.dev (otaBackendBtReadPrepare input.env · args)
    { dev := r.1, activity := .ready
      prepared := if r.2.isNone then some (args.offset, args.buf) else none }
  | .complete args =>
    { dev := (input.onStream s.dev (·, ())).1
      activity := .tryAgain (Call.start .readComplete args input.garbage)
      prepared := s.prepared }
  | .proceed =>
    let r := input.onStream s.dev (s.activity.step input.env ·)
    { dev := r.1, activity := r.2, prepared := preparedAfter s.prepared r.2 }

/-- No call is running. -/
def Session.Idle (s : Session) : Prop :=
  match s.activity with
  | .ready | .returned _ _ => True
  | .tryAgain _ | .loop _ => False

/-- The calls a caller may make: one at a time, of a length that is not negative, and a
`read_complete` where the prepared request goes on. -/
def Session.Allowed (s : Session) : Event → Prop
  | .read args | .prepare args => s.Idle ∧ 0 ≤ args.size
  | .complete args => s.Idle ∧ 0 ≤ args.size ∧ s.prepared = some (args.offset, args.buf)
  | .proceed => ¬ s.Idle

/-- The step makes a request when the negotiation is done. -/
def Session.MakesRequest (s : Session) : Event → Prop
  | .prepare _ => True
  | .proceed =>
    match s.activity with
    | .tryAgain call => call.Requests
    | _ => False
  | .read _ | .complete _ => False

/-- What a step needs. -/
structure Session.Safe (s : Session) (event : Event) (input : LinkInput) : Prop where
  request : s.MakesRequest event → input.flushed ∨ CommandBytes s.dev.rx
  result : event = .proceed → ∀ call, s.activity = .loop call → call.api = .readComplete →
    HeadOf (input.stream s.dev) otaCmdH2dNegotiationResultId → s.dev.ctx.readBufLen = 0

/-- The returned call has filled its buffer with the image. -/
def Session.Correct (image : Int → UInt8) (s : Session) : Prop :=
  ∀ call, s.activity = .returned call none →
    s.dev.mem.read call.args.buf call.args.size.toNat =
      imageBytes image call.args.offset call.args.size.toNat

/-- A step of the caller or of its call, with a host that answers. -/
def Session.Steps (image : Int → UInt8) (s : Session) (label : Event × LinkInput) (s' : Session) :
    Prop :=
  s.Allowed label.1 ∧ s' = s.step label.2 label.1 ∧
    Honest image (s.MakesRequest label.1) s.dev label.2 s'.dev

def Session.SafeSteps (image : Int → UInt8) (s : Session) (label : Event × LinkInput)
    (s' : Session) : Prop :=
  s.Safe label.1 label.2 ∧ s.Steps image label s'

/-! ## The invariant -/

structure Session.Inv (image : Int → UInt8) (s : Session) : Prop where
  good : s.activity.Good image s.dev
  prepared : s.Idle → ∀ offset buf, s.prepared = some (offset, buf) →
    Synced image s.dev buf offset 0

theorem start_placed (api : Api) (hsize : 0 ≤ args.size) (garbage : Option Err) :
    (Call.start api args garbage).Placed where
  size_nonneg := hsize
  size_le := le_rfl
  offset := by rw [Call.start, sub_self, add_zero]
  buf := by rw [Call.start, sub_self, add_zero]
  complete := fun _ => rfl
  retry := fun _ h => (by cases h)

theorem start_holds (image : Int → UInt8) (api : Api) (args : Request) (garbage : Option Err)
    (mem : Memory) : (Call.start api args garbage).Holds image mem 0 := by
  intro i hi hlt
  change i < args.size - args.size + 0 at hlt
  omega

theorem readPrepare_ok {env : Env} {d d' : Device}
    (h : otaBackendBtReadPrepare env d args = (d', none)) :
    otaCmdRequireImageData env d args.offset args.size args.buf = (d', none) := by
  unfold otaBackendBtReadPrepare at h
  split at h
  · cases h
  · rename_i hrequest
    exact hrequest.trans h

section

variable {image : Int → UInt8} {s : Session} {input : LinkInput}

theorem Session.Inv.prepare (hsize : 0 ≤ args.size)
    (hsafe : s.Safe (.prepare args) input)
    (hhonest : Honest image True s.dev input (s.step input (.prepare args)).dev) :
    (s.step input (.prepare args)).Inv image := by
  refine ⟨trivial, fun _ offset buf hprepared => ?_⟩
  cases hrun : otaBackendBtReadPrepare input.env { s.dev with rx := input.stream s.dev } args with
  | mk d₁ err =>
    have hstep : s.step input (.prepare args) =
        { dev := d₁.push ((input.whole s.dev).drop input.arrived), activity := .ready
          prepared := if err.isNone then some (args.offset, args.buf) else none } := by
      unfold Session.step LinkInput.onStream
      dsimp only
      rw [hrun]
      rfl
    rw [hstep] at hprepared hhonest ⊢
    cases err with
    | some err => cases hprepared
    | none =>
      cases hprepared
      exact (Synced.of_request hsize (hsafe.request trivial) (readPrepare_ok hrun) rfl hhonest).1

/-- What a step of the running call leaves behind for the next one. -/
theorem Session.Inv.of_good {d : Device} {activity : Activity} {prepared : Option (Int × Int)}
    (hgood : activity.Good image d) :
    Session.Inv image { dev := d, activity, prepared := preparedAfter prepared activity } := by
  refine ⟨hgood, fun hidle offset buf hprepared => ?_⟩
  cases activity with
  | ready => cases hprepared
  | tryAgain call => exact hidle.elim
  | loop call => exact hidle.elim
  | returned call err =>
    cases err with
    | some err => cases hprepared
    | none =>
      change (if call.api = .readComplete then
        some (call.args.offset + call.args.size, call.args.buf) else none) = _ at hprepared
      split at hprepared
      · rename_i hapi
        cases hprepared
        exact hgood.2 hapi
      · cases hprepared

theorem Session.Inv.proceed (h : s.Inv image) (hbusy : ¬ s.Idle)
    (hsafe : s.Safe .proceed input)
    (hhonest : Honest image (s.MakesRequest .proceed) s.dev input (s.step input .proceed).dev) :
    (s.step input .proceed).Inv image := by
  obtain ⟨dev, activity, prepared⟩ := s
  cases activity with
  | ready => exact absurd trivial hbusy
  | returned call err => exact absurd trivial hbusy
  | tryAgain call =>
    exact .of_good (h.good.request hsafe.request hhonest)
  | loop call =>
    have hincoming : CommandBytes input.incoming := hhonest.elim id fun h => h.1.elim
    exact .of_good (Call.Waits.turn h.good hincoming (hsafe.result rfl call rfl))

theorem Session.Inv.step {event : Event} {s' : Session} (h : s.Inv image)
    (hstep : s.SafeSteps image (event, input) s') : s'.Inv image := by
  obtain ⟨hsafe, hallowed, rfl, hhonest⟩ := hstep
  cases event with
  | read args =>
    exact ⟨⟨start_placed .read hallowed.2 input.garbage,
      start_holds image .read args input.garbage _, fun h => (by cases h)⟩, fun hidle => hidle.elim⟩
  | prepare args => exact .prepare hallowed.2 hsafe hhonest
  | complete args =>
    obtain ⟨hidle, hsize, hprepared⟩ := hallowed
    have hincoming : CommandBytes input.incoming := hhonest.elim id fun h => h.1.elim
    have hsynced := (h.prepared hidle args.offset args.buf hprepared).whole hincoming
    have hdev : (s.step input (.complete args)).dev = { s.dev with rx := input.whole s.dev } :=
      congrArg (fun rx => ({ s.dev with rx } : Device)) (List.take_append_drop _ _)
    refine ⟨⟨start_placed .readComplete hsize input.garbage,
      start_holds image .readComplete args input.garbage _, fun _ _ => ?_⟩, fun hidle => hidle.elim⟩
    rw [hdev]
    exact hsynced
  | proceed => exact h.proceed hallowed hsafe hhonest

end

/-- In every run that keeps the two conditions, a call that returns 0 has filled its buffer
with the image. -/
theorem returned_mem_eq_image {image : Int → UInt8} {start s : Session}
    {labels : List (Event × LinkInput)} (hready : start.activity = .ready)
    (hprepared : start.prepared = none) (run : Run (Session.SafeSteps image) start labels s) :
    s.Correct image := by
  have hstart : start.Inv image :=
    ⟨by rw [hready]; trivial, fun _ offset buf h => (by cases hprepared.symm.trans h)⟩
  have hinv : s.Inv image := run.invariant (fun _ s => s.Inv image) hstart
    fun _ _ _ _ hinv hstep => hinv.step hstep
  intro call hreturned
  have hgood := hinv.good
  rw [hreturned] at hgood
  exact hgood.1.read

/-! ## A negotiation result in the middle of a segment -/

/-- A backend behind a finished negotiation, with units of two bytes. -/
def idleSession : Session where
  dev :=
    { ctx :=
        { state := .idle, readBuf := none, readLen := 0, readDoneLen := 0, readBufLen := 0
          readOffset := 0, lastPsn := 0, hostFeatures := 0, otaUnitSize := 2
          negotiationDone := true }
      rx := [], mem := fun _ => 0, written := [], sent := [] }
  activity := .ready
  prepared := none

/-- Four bytes of an image of ones, in two packets. -/
def twoUnits : Ask where
  image := fun _ => 1
  offset := 0
  len := 4
  unit := 2
  len_nonneg := by decide
  unit_pos := by decide
  unit_le := by decide

def fourBytes : Request := ⟨0, 100, 4⟩

/-- A step during which the host sends `incoming` and the first `arrived` bytes of the
stream can be read. -/
def linkStep (event : Event) (incoming : List UInt8) (arrived : Nat) : Event × LinkInput :=
  (event, ⟨⟨true, true⟩, incoming, arrived, false, none⟩)

def Session.next (s : Session) (label : Event × LinkInput) : Session :=
  s.step label.2 label.1

/-- The session behind some steps. -/
def sessionAfter (labels : List (Event × LinkInput)) : Session :=
  labels.foldl Session.next idleSession

/-- The host answers the prepared request. -/
theorem prepare_steps {items : List Item} (hfollows : Follows twoUnits 0 items) :
    idleSession.Steps twoUnits.image (linkStep (.prepare fourBytes) (itemsBytes twoUnits items) 0)
      (sessionAfter [linkStep (.prepare fourBytes) (itemsBytes twoUnits items) 0]) :=
  ⟨⟨trivial, by decide⟩, rfl, .inr ⟨trivial, twoUnits, items, rfl, rfl, hfollows, rfl⟩⟩

variable {labels : List (Event × LinkInput)}

/-- A step during which the host is quiet. -/
theorem quiet_steps (event : Event) (arrived : Nat)
    (hallowed : (sessionAfter labels).Allowed event) :
    (sessionAfter labels).Steps twoUnits.image (linkStep event [] arrived)
      (sessionAfter (labels ++ [linkStep event [] arrived])) :=
  ⟨hallowed, List.foldl_append, .inl ⟨[], (fun _ h => (by cases h)), fun _ => rfl⟩⟩

/-- The host sends the first packet, goes through the negotiation again and waits.
`read_complete` takes the result with half of its segment received and returns 0. -/
theorem negotiation_leaves_half_segment :
    ∃ labels s, Run (Session.Steps twoUnits.image) idleSession labels s ∧
      ¬ s.Correct twoUnits.image := by
  have hfollows : Follows twoUnits 0 [.packet 0 false, .negotiationResult 0] :=
    .packet false le_rfl (by decide) (by decide) (.command trivial (.nil 1))
  have hprepare := Run.nil.snoc (prepare_steps hfollows)
  have hcomplete := hprepare.snoc
    (quiet_steps (.complete fourBytes) 0 ⟨trivial, by decide, rfl⟩)
  have hattempt := hcomplete.snoc (quiet_steps .proceed 0 id)
  have hpacket := hattempt.snoc (quiet_steps .proceed 8 id)
  have hresult := hpacket.snoc (quiet_steps .proceed 9 id)
  have hagain := hresult.snoc (quiet_steps .proceed 0 id)
  have hreturn := hagain.snoc (quiet_steps .proceed 0 id)
  exact ⟨_, _, hreturn, fun h => absurd (h _ rfl) (by decide +kernel)⟩

/-- A quiet step of a running call is safe when it makes no request and the stream does not
deliver a negotiation result. -/
theorem safe_proceed {s : Session} {arrived : Nat} (hrequest : ¬ s.MakesRequest .proceed)
    (hhead : headCmd ((linkStep .proceed [] arrived).2.stream s.dev) ≠
      otaCmdH2dNegotiationResultId) :
    s.Safe .proceed (linkStep .proceed [] arrived).2 :=
  ⟨fun h => absurd h hrequest, fun _ _ _ _ h => absurd h.cmd hhead⟩

theorem run_snoc_safe {image : Int → UInt8} {start s s' : Session} {label : Event × LinkInput}
    (run : Run (Session.SafeSteps image) start labels s)
    (hsteps : s.Steps image label s') (hsafe : s.Safe label.1 label.2) :
    Run (Session.SafeSteps image) start (labels ++ [label]) s' :=
  run.snoc ⟨hsafe, hsteps⟩

theorem returned_mem_eq_image_example :
    ∃ (s : Session) (call : Call), s.activity = .returned call none ∧ call.args = fourBytes ∧
      s.Correct twoUnits.image := by
  have hfollows : Follows twoUnits 0 [.packet 0 false, .packet 1 true] :=
    .packet false le_rfl (by decide) (by decide)
      (.packet true le_rfl (by decide) (by decide) (.nil 2))
  have hprepareSafe : idleSession.Safe (.prepare fourBytes) (linkStep (.prepare fourBytes)
      (itemsBytes twoUnits [.packet 0 false, .packet 1 true]) 0).2 :=
    ⟨fun _ => .inr ⟨[], (fun _ h => (by cases h)), fun _ => rfl⟩, fun h => (by cases h)⟩
  have hcompleteSafe : ∀ s : Session,
      s.Safe (.complete fourBytes) (linkStep (.complete fourBytes) [] 0).2 :=
    fun s => ⟨fun h => h.elim, fun h => (by cases h)⟩
  have hprepare := run_snoc_safe .nil (prepare_steps hfollows) hprepareSafe
  have hcomplete := run_snoc_safe hprepare
    (quiet_steps (.complete fourBytes) 0 ⟨trivial, by decide, rfl⟩) (hcompleteSafe _)
  have hnoRequest : ¬ (Call.start .readComplete fourBytes none).Requests :=
    fun h => h.elim (fun h => (by cases h)) fun h => (by cases h)
  have hattempt := run_snoc_safe hcomplete (quiet_steps .proceed 0 id)
    (safe_proceed hnoRequest (by decide))
  have hfirst := run_snoc_safe hattempt (quiet_steps .proceed 8 id) (safe_proceed id (by decide))
  have hsecond := run_snoc_safe hfirst (quiet_steps .proceed 12 id) (safe_proceed id (by decide))
  have hreturn := run_snoc_safe hsecond (quiet_steps .proceed 0 id) (safe_proceed id (by decide))
  exact ⟨_, _, rfl, rfl, returned_mem_eq_image rfl rfl hreturn⟩

end SpeakerFirmware.Ota.Bt
