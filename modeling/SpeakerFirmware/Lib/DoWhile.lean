/-
# Loops without a bound

A loop `do { … } while (1)` whose body either goes round again with a new state or breaks
with a result. It is run with a number of rounds that it may take at most; `Ends` says that
some number is enough.

A loop ends if the states at its head are known in advance and one of them breaks
(`ends_of_states`), or if every round makes a measure smaller (`ends_of_measure`). It does
not end if every state of some set goes round into the set (`not_ends`).
-/

import Mathlib.Order.Nat

namespace DoWhile

variable {σ ρ : Type*} {body : σ → σ ⊕ ρ} {s : σ} {r : ρ}

/-- The loop, for at most `fuel` rounds. -/
def loop (body : σ → σ ⊕ ρ) : Nat → σ → Option ρ
  | 0, _ => none
  | fuel + 1, s =>
    match body s with
    | .inl s' => loop body fuel s'
    | .inr r => some r

/-- The states at the head of the loop. -/
def visits (body : σ → σ ⊕ ρ) : Nat → σ → List σ
  | 0, _ => []
  | fuel + 1, s =>
    s :: match body s with
      | .inl s' => visits body fuel s'
      | .inr _ => []

/-- The loop breaks with a result. -/
def Ends (body : σ → σ ⊕ ρ) (s : σ) (r : ρ) : Prop :=
  ∃ fuel, loop body fuel s = some r

theorem Ends.of_break (h : body s = .inr r) : Ends body s r :=
  ⟨1, by rw [loop, h]⟩

theorem Ends.of_again {s' : σ} (h : body s = .inl s') (hends : Ends body s' r) : Ends body s r := by
  obtain ⟨fuel, hloop⟩ := hends
  refine ⟨fuel + 1, ?_⟩
  rw [loop, h]
  exact hloop

/-- A result has what the break gives it, from what every round keeps. -/
theorem Ends.post (hends : Ends body s r) (inv : σ → Prop) (post : ρ → Prop) (hinv : inv s)
    (hagain : ∀ s s', inv s → body s = .inl s' → inv s')
    (hbreak : ∀ s r, inv s → body s = .inr r → post r) :
    post r := by
  obtain ⟨fuel, hloop⟩ := hends
  induction fuel generalizing s with
  | zero => cases hloop
  | succ fuel ih =>
    rw [loop] at hloop
    cases hbody : body s with
    | inl s' =>
      rw [hbody] at hloop
      exact ih (hagain s s' hinv hbody) hloop
    | inr r' =>
      rw [hbody] at hloop
      cases hloop
      exact hbreak s r hinv hbody

/-- What every round keeps holds at the head of the loop. -/
theorem visits_invariant {inv : σ → Prop} (hinv : inv s)
    (hagain : ∀ s s', inv s → body s = .inl s' → inv s')
    (fuel : Nat) : ∀ v ∈ visits body fuel s, inv v := by
  induction fuel generalizing s with
  | zero => exact fun _ hmem => absurd hmem List.not_mem_nil
  | succ fuel ih =>
    intro v hmem
    rw [visits, List.mem_cons] at hmem
    rcases hmem with rfl | hmem
    · exact hinv
    · cases hbody : body s with
      | inl s' =>
        rw [hbody] at hmem
        exact ih (hagain s s' hinv hbody) v hmem
      | inr r =>
        rw [hbody] at hmem
        exact absurd hmem List.not_mem_nil

/-- A loop that goes through given states until it breaks, and one of them breaks. -/
theorem ends_of_states (states : Nat → σ)
    (hagain : ∀ k s', body (states k) = .inl s' → s' = states (k + 1))
    {n : Nat} (hbreak : ∃ r, body (states n) = .inr r) : ∃ r, Ends body (states 0) r := by
  induction n generalizing states with
  | zero => exact hbreak.imp fun _ => Ends.of_break
  | succ n ih =>
    cases hbody : body (states 0) with
    | inl s' =>
      obtain ⟨r, hends⟩ := ih (fun k => states (k + 1)) (fun k => hagain (k + 1)) hbreak
      rw [← hagain 0 s' hbody] at hends
      exact ⟨r, hends.of_again hbody⟩
    | inr r => exact ⟨r, .of_break hbody⟩

/-- A loop in which every round makes a measure smaller. -/
theorem ends_of_measure (measure : σ → Nat)
    (hless : ∀ s s', body s = .inl s' → measure s' < measure s) (s : σ) :
    ∃ r, Ends body s r := by
  induction hn : measure s using Nat.strong_induction_on generalizing s with
  | _ n ih =>
    cases hbody : body s with
    | inl s' =>
      obtain ⟨r, hends⟩ := ih _ (hn ▸ hless s s' hbody) s' rfl
      exact ⟨r, hends.of_again hbody⟩
    | inr r => exact ⟨r, .of_break hbody⟩

/-- A loop that cannot leave a set of states that go round. -/
theorem not_ends {inv : σ → Prop} (hinv : inv s)
    (hagain : ∀ s, inv s → ∃ s', body s = .inl s' ∧ inv s') :
    ¬ Ends body s r := by
  intro hends
  have hround : ∀ s s', inv s → body s = .inl s' → inv s' := by
    intro s s' hs hbody
    obtain ⟨t, ht, hinv⟩ := hagain s hs
    rw [hbody] at ht
    cases ht
    exact hinv
  refine hends.post inv (fun _ => False) hinv hround ?_
  intro s r hs hbody
  obtain ⟨t, ht, -⟩ := hagain s hs
  rw [hbody] at ht
  cases ht

end DoWhile
