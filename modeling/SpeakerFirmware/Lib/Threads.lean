/-
# Threads with a place in their program

A thread is at a place of its program and works on a state that all threads share.
`advance i pc s` is what thread `i` at place `pc` does next: the shared state and its place
behind the step, or `none` if it is blocked or has ended. Here no thread runs backwards:
`rank` counts what is left of a program, so that a fair run of finitely many threads comes
to rest (`Fair.settles_of_rank`).

`exists_turn` turns "the thread was here and is not any more" into the step that it took.
-/

import Mathlib.Algebra.Order.BigOperators.Group.Finset
import SpeakerFirmware.Lib.Interleaving

namespace Interleaving

open Function

variable {ι σ π : Type*} [DecidableEq ι]

/-- The shared state and the places of the threads. -/
structure Threads (ι σ π : Type*) where
  shared : σ
  pc : ι → π

variable {advance : ι → π → σ → Option (σ × π)} {sched : Nat → ι} {start s s' : Threads ι σ π}
  {i j : ι}

/-- Thread `i` takes its turn. -/
def turn (advance : ι → π → σ → Option (σ × π)) (i : ι) (s : Threads ι σ π) : Threads ι σ π :=
  match advance i (s.pc i) s.shared with
  | none => s
  | some (shared, pc) => ⟨shared, Function.update s.pc i pc⟩

theorem turn_of_none (h : advance i (s.pc i) s.shared = none) : turn advance i s = s := by
  simp only [turn, h]

section

variable {shared : σ} {pc : π} (h : advance i (s.pc i) s.shared = some (shared, pc))
include h

theorem turn_of_some : turn advance i s = ⟨shared, update s.pc i pc⟩ := by
  simp only [turn, h]

theorem turn_pc_self : (turn advance i s).pc i = pc := by
  rw [turn_of_some h]
  exact update_self ..

end

/-- A turn does nothing or makes one step of one thread. -/
theorem turn_cases (advance : ι → π → σ → Option (σ × π)) (i : ι) (s : Threads ι σ π) :
    turn advance i s = s ∨ ∃ shared pc, advance i (s.pc i) s.shared = some (shared, pc) ∧
      turn advance i s = ⟨shared, update s.pc i pc⟩ := by
  cases h : advance i (s.pc i) s.shared with
  | none => exact .inl (turn_of_none h)
  | some next => exact .inr ⟨next.1, next.2, rfl, turn_of_some h⟩

/-- A turn moves no other thread. -/
theorem turn_pc_of_ne (h : j ≠ i) : (turn advance i s).pc j = s.pc j := by
  rcases turn_cases advance i s with hsame | ⟨shared, pc, -, hturn⟩
  · rw [hsame]
  · rw [hturn]
    exact update_of_ne h _ _

/-- Every step leaves less of its thread's program. -/
def Forward (advance : ι → π → σ → Option (σ × π)) (rank : π → Nat) : Prop :=
  ∀ i pc s s' pc', advance i pc s = some (s', pc') → rank pc' < rank pc

section

variable [Fintype ι] {rank : π → Nat}

private theorem sum_rank_update_lt (pc : ι → π) (i : ι) {next : π} (h : rank next < rank (pc i)) :
    ∑ j, rank (update pc i next j) < ∑ j, rank (pc j) := by
  refine Finset.sum_lt_sum (fun j _ => ?_) ⟨i, Finset.mem_univ i, ?_⟩
  · by_cases hj : j = i
    · subst hj
      rw [update_self]
      exact h.le
    · rw [update_of_ne hj]
  · rw [update_self]
    exact h

/-- A fair run of finitely many threads comes to rest. -/
theorem Fair.settles_of_rank (hfair : Fair sched) (hforward : Forward advance rank)
    (start : Threads ι σ π) : ∃ n, Settled (turn advance) (run (turn advance) sched start n) := by
  refine @Fair.settles _ _ _ _ _ hfair (fun _ => True) (fun s => ∑ j, rank (s.pc j)) trivial
    (fun _ _ _ => trivial) (fun i s _ => ?_)
  rcases turn_cases advance i s with hsame | ⟨shared, pc, hadvance, hturn⟩
  · exact .inl hsame
  · right
    rw [hturn]
    exact sum_rank_update_lt s.pc i (hforward _ _ _ _ _ hadvance)

end

/-- At rest, every thread is blocked or has ended. -/
theorem Settled.advance_eq_none {rank : π → Nat} (hsettled : Settled (turn advance) s)
    (hforward : Forward advance rank) (i : ι) : advance i (s.pc i) s.shared = none := by
  cases h : advance i (s.pc i) s.shared with
  | none => rfl
  | some next =>
    have hpc : (turn advance i s).pc i = next.2 := turn_pc_self h
    rw [hsettled i] at hpc
    have hless := hforward _ _ _ _ _ h
    rw [hpc] at hless
    exact absurd hless (lt_irrefl _)

/-- A thread that was at one of some places and no longer is has made a step from there. -/
theorem exists_turn {p : π → Prop} {n m : Nat} (hnm : n ≤ m)
    (hn : p ((run (turn advance) sched start n).pc i))
    (hm : ¬ p ((run (turn advance) sched start m).pc i)) :
    ∃ k, n ≤ k ∧ sched k = i ∧ ∃ shared pc,
      advance i ((run (turn advance) sched start k).pc i)
        (run (turn advance) sched start k).shared = some (shared, pc) ∧
      p ((run (turn advance) sched start k).pc i) ∧ ¬ p pc := by
  obtain ⟨k, hk, hp, hlost⟩ := exists_lost (p := fun s : Threads ι σ π => p (s.pc i)) hnm hn hm
  have hturn : sched k = i := by
    by_contra hne
    rw [run, turn_pc_of_ne (Ne.symm hne)] at hlost
    exact hlost hp
  refine ⟨k, hk, hturn, ?_⟩
  rw [run, hturn] at hlost
  rcases turn_cases advance i (run (turn advance) sched start k) with hsame | ⟨shared, pc, h, -⟩
  · rw [hsame] at hlost
    exact absurd hp hlost
  · rw [turn_pc_self h] at hlost
    exact ⟨shared, pc, h, hp, hlost⟩

end Interleaving
