/-
# Threads that take turns

A system of threads is a function: `step t s` is the state after thread `t` took its next
step in `s`. A thread that is blocked or has ended leaves the state as it is, so that a
schedule is any sequence of threads. It is fair if every thread gets its turn again and
again.

`Fair.settles` is the rule for liveness: if a step that changes the state makes a
measure smaller, a fair run reaches a state in which no thread can move. What is left
to show is what such a state looks like, which is a question about invariants.
-/

import Mathlib.Order.WellFounded

namespace Interleaving

variable {ι σ : Type*} {step : ι → σ → σ} {sched : Nat → ι} {start : σ}
variable {n m : Nat}

/-- The states of the run of a schedule. -/
def run (step : ι → σ → σ) (sched : Nat → ι) (start : σ) : Nat → σ
  | 0 => start
  | n + 1 => step (sched n) (run step sched start n)

/-- Every thread gets its turn after every point of time. -/
def Fair (sched : Nat → ι) : Prop :=
  ∀ thread n, ∃ m, n ≤ m ∧ sched m = thread

/-- No thread can move. -/
def Settled (step : ι → σ → σ) (s : σ) : Prop :=
  ∀ thread, step thread s = s

/-- What holds at some point and is kept by every step holds from there on. -/
theorem run_invariant_from {inv : σ → Prop} (hn : inv (run step sched start n))
    (hstep : ∀ thread s, inv s → inv (step thread s)) (hm : n ≤ m) :
    inv (run step sched start m) := by
  induction m, hm using Nat.le_induction with
  | base => exact hn
  | succ m _ ih => exact hstep _ _ ih

/-- What holds at the start and is kept by every step holds all the time. -/
theorem run_invariant {inv : σ → Prop} (hstart : inv start)
    (hstep : ∀ thread s, inv s → inv (step thread s)) (n : Nat) : inv (run step sched start n) :=
  run_invariant_from (n := 0) hstart hstep (Nat.zero_le n)

/-- If every change makes a measure smaller, a fair run comes to rest. -/
theorem Fair.settles (hfair : Fair sched) {inv : σ → Prop} (measure : σ → Nat) (hstart : inv start)
    (hstep : ∀ thread s, inv s → inv (step thread s))
    (hless : ∀ thread s, inv s → step thread s = s ∨ measure (step thread s) < measure s) :
    ∃ n, Settled step (run step sched start n) := by
  have hinv : ∀ n, inv (run step sched start n) := run_invariant hstart hstep
  -- the time at which the measure is smallest
  obtain ⟨n, hn⟩ : ∃ n, ∀ m, measure (run step sched start n) ≤ measure (run step sched start m) :=
    ⟨_, fun m => Function.argmin_le (fun n => measure (run step sched start n)) m⟩
  have hstill : ∀ m, n ≤ m → run step sched start m = run step sched start n := by
    intro m hm
    induction m, hm using Nat.le_induction with
    | base => rfl
    | succ m _ ih =>
      rcases hless (sched m) _ (hinv m) with hsame | hlt
      · exact hsame.trans ih
      · rw [ih] at hlt
        have hle := hn (m + 1)
        rw [run, ih] at hle
        exact absurd hle (Nat.not_le.mpr hlt)
  refine ⟨n, fun thread => ?_⟩
  obtain ⟨m, hm, rfl⟩ := hfair thread n
  rw [← hstill m hm]
  exact (hstill (m + 1) (Nat.le_succ_of_le hm)).trans (hstill m hm).symm

/-- Once at rest, a run stays where it is. -/
theorem Settled.run_eq
    (hsettled : Settled step (run step sched start n)) (hm : n ≤ m) :
    run step sched start m = run step sched start n := by
  induction m, hm using Nat.le_induction with
  | base => rfl
  | succ m _ ih =>
    rw [run, ih]
    exact hsettled _

/-- What holds at one time and not at a later one is lost by a step in between. -/
theorem exists_lost {p : σ → Prop} (hnm : n ≤ m)
    (hn : p (run step sched start n)) (hm : ¬ p (run step sched start m)) :
    ∃ k, n ≤ k ∧ p (run step sched start k) ∧ ¬ p (run step sched start (k + 1)) := by
  induction m, hnm using Nat.le_induction with
  | base => exact absurd hn hm
  | succ m hle ih =>
    by_cases hp : p (run step sched start m)
    · exact ⟨m, hle, hp, hm⟩
    · exact ih hp

end Interleaving
