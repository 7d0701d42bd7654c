/-
# Runs of a labelled system

A system is a relation between a state, an event and the next state. `Run` is a
finite run with the events it took, the last one at the end. `Run.invariant` is the
rule for properties of a state together with the history that led to it.

A machine that answers each input with a list of outputs is run by `transduce`;
`transduce_invariant` is the same rule for it, with what came in and what went out.

A list of effects that may stop behind any of them is described by `Keeps`: a property that
holds at every moment, and a guard that every effect finds fulfilled.
-/

import Mathlib.Data.List.Induction

namespace Runs

open List

variable {σ ε : Type*}

/-- A finite run, with its events in order. -/
inductive Run (step : σ → ε → σ → Prop) (start : σ) : List ε → σ → Prop
  | nil : Run step start [] start
  | snoc {events : List ε} {s s' : σ} {event : ε} (run : Run step start events s)
      (last : step s event s') : Run step start (events ++ [event]) s'

/-- What holds at the start and is kept by every step holds at the end. -/
theorem Run.invariant {step : σ → ε → σ → Prop} {start s : σ} {events : List ε}
    (run : Run step start events s) (inv : List ε → σ → Prop) (hstart : inv [] start)
    (hstep : ∀ events s event s', inv events s → step s event s' → inv (events ++ [event]) s') :
    inv events s := by
  induction run with
  | nil => exact hstart
  | snoc run last ih => exact hstep _ _ _ _ ih last

/-- The run of a system whose next state is a function of the state and the event. -/
theorem run_foldl (next : σ → ε → σ) (start : σ) (events : List ε) :
    Run (fun s event s' => s' = next s event) start events (events.foldl next start) := by
  induction events using List.reverseRecOn with
  | nil => exact .nil
  | append_singleton events event ih =>
    rw [foldl_append]
    exact .snoc ih rfl

section

variable {next : σ → ε → σ} {inv : σ → Prop} {allowed : σ → ε → Prop}

/-- If the invariant survives the steps that are allowed, it holds all along a run of such steps. -/
theorem foldl_invariant
    (hstep : ∀ s event, inv s → allowed s event → inv (next s event)) {events : List ε} {start : σ}
    (hstart : inv start)
    (hallowed : ∀ first event rest, events = first ++ event :: rest →
      allowed (first.foldl next start) event) :
    ∀ first rest, events = first ++ rest → inv (first.foldl next start) := by
  intro first
  induction first using List.reverseRecOn with
  | nil => exact fun _ _ => hstart
  | append_singleton first event ih =>
    intro rest heq
    rw [append_assoc, singleton_append] at heq
    rw [foldl_append]
    exact hstep _ event (ih _ heq) (hallowed first event rest heq)

/-- If the invariant survives exactly the steps that are allowed, it holds all along a run if and
only if all steps of the run are allowed. -/
theorem foldl_invariant_iff
    (hstep : ∀ s event, inv s → (inv (next s event) ↔ allowed s event)) (events : List ε)
    {start : σ} (hstart : inv start) :
    (∀ first rest, events = first ++ rest → inv (first.foldl next start)) ↔
      ∀ first event rest, events = first ++ event :: rest →
        allowed (first.foldl next start) event := by
  constructor
  · intro h first event rest heq
    refine (hstep _ event (h first _ heq)).mp ?_
    have hnext := h (first ++ [event]) rest (by rw [heq, append_assoc, singleton_append])
    rwa [foldl_append] at hnext
  · exact foldl_invariant (fun s event hinv => (hstep s event hinv).mpr) hstart

end

/-! ## Machines with outputs -/

variable {ι ω : Type*}

/-- The machine on a list of inputs: the last state, and the outputs in order. -/
def transduce (step : σ → ι → σ × List ω) : σ → List ι → σ × List ω
  | s, [] => (s, [])
  | s, input :: inputs =>
    let r := step s input
    let rest := transduce step r.1 inputs
    (rest.1, r.2 ++ rest.2)

/-- A step with one output. -/
def single (r : σ × ω) : σ × List ω :=
  (r.1, [r.2])

variable (step : σ → ι → σ × List ω)

theorem transduce_append (s : σ) (first second : List ι) :
    transduce step s (first ++ second) =
      ((transduce step (transduce step s first).1 second).1,
        (transduce step s first).2 ++ (transduce step (transduce step s first).1 second).2) := by
  induction first generalizing s with
  | nil => rfl
  | cons input first ih =>
    rw [cons_append, transduce, transduce, ih]
    simp only [append_assoc]

theorem transduce_singleton (s : σ) (input : ι) :
    transduce step s [input] = step s input := by
  simp only [transduce, append_nil]

/-- What holds at the start and is kept by every input holds of all inputs, the state they lead to
and the outputs. -/
theorem transduce_invariant {step : σ → ι → σ × List ω} {start : σ}
    (inv : List ι → σ → List ω → Prop) (hstart : inv [] start [])
    (hstep : ∀ inputs s outputs input, inv inputs s outputs →
      inv (inputs ++ [input]) (step s input).1 (outputs ++ (step s input).2)) (inputs : List ι) :
    inv inputs (transduce step start inputs).1 (transduce step start inputs).2 := by
  induction inputs using List.reverseRecOn with
  | nil => exact hstart
  | append_singleton inputs input ih =>
    rw [transduce_append, transduce_singleton]
    exact hstep inputs _ _ input ih

/-! ## Effects that may stop anywhere -/

/-- The property holds before, between and behind the effects, and each of them happens in a state
that meets its guard. -/
def Keeps (apply : σ → ε → σ) (prop : σ → Prop) (guard : σ → ε → Prop) : σ → List ε → Prop
  | s, [] => prop s
  | s, effect :: effects => prop s ∧ guard s effect ∧
      Keeps apply prop guard (apply s effect) effects

section

variable {apply : σ → ε → σ} {prop : σ → Prop} {guard : σ → ε → Prop} {s : σ} {effects : List ε}

theorem Keeps.head (h : Keeps apply prop guard s effects) : prop s := by
  cases effects with
  | nil => exact h
  | cons effect effects => exact h.1

theorem keeps_append {first second : List ε} :
    Keeps apply prop guard s (first ++ second) ↔
      Keeps apply prop guard s first ∧ Keeps apply prop guard (first.foldl apply s) second := by
  induction first generalizing s with
  | nil =>
    constructor
    · intro h
      exact ⟨h.head, h⟩
    · rintro ⟨-, h⟩
      exact h
  | cons effect effects ih => simp only [cons_append, Keeps, foldl_cons, ih, and_assoc]

/-- The effects up to any of them. -/
theorem Keeps.take (h : Keeps apply prop guard s effects) (n : Nat) :
    Keeps apply prop guard s (effects.take n) := by
  rw [← take_append_drop n effects] at h
  exact (keeps_append.mp h).1

theorem Keeps.last (h : Keeps apply prop guard s effects) : prop (effects.foldl apply s) := by
  rw [← append_nil effects] at h
  exact (keeps_append.mp h).2

end

end Runs
