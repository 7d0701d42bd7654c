/-
# Parsers of a stream that arrives in pieces

A parser looks at the bytes it has, and either takes some of them off the front, with
what they mean, or waits for more. It may not change its mind when more bytes arrive:
`Parser.extend`. Running such a parser on a stream gives the same results however the
stream was cut: `Parser.run_append`, where what one piece leaves over is put before the
next.
-/

import Mathlib.Data.List.Basic

namespace StreamParser

open List

variable {β γ : Type*}
variable {n : Nat}

/-- One step takes a number of bytes off the front, with the results they stand for. -/
structure Parser (β γ : Type*) where
  step : List β → Option (List γ × Nat)
  pos {xs : List β} {out : List γ} {n : Nat} : step xs = some (out, n) → 0 < n
  le {xs : List β} {out : List γ} {n : Nat} : step xs = some (out, n) → n ≤ xs.length
  extend {xs : List β} {r : List γ × Nat} (ys : List β) : step xs = some r →
    step (xs ++ ys) = some r

namespace Parser

variable (p : Parser β γ)

/-- At most `fuel` steps. -/
def steps : Nat → List β → List γ × List β
  | 0, xs => ([], xs)
  | fuel + 1, xs =>
    match p.step xs with
    | none => ([], xs)
    | some (out, n) => (out ++ (steps fuel (xs.drop n)).1, (steps fuel (xs.drop n)).2)

/-- All steps: the results, and the bytes left over. -/
def run (xs : List β) : List γ × List β :=
  p.steps xs.length xs

variable {xs : List β}

theorem steps_of_none (h : p.step xs = none) (fuel : Nat) :
    p.steps fuel xs = ([], xs) := by
  cases fuel with
  | zero => rfl
  | succ fuel => rw [steps, h]

/-- Every step takes a byte, so the number of bytes is enough fuel. -/
theorem steps_eq_run {fuel : Nat} (hfuel : xs.length ≤ fuel) :
    p.steps fuel xs = p.run xs := by
  suffices hall : ∀ k fuel (xs : List β), xs.length ≤ k → k ≤ fuel →
      p.steps fuel xs = p.steps k xs from
    hall xs.length fuel xs (Nat.le_refl _) hfuel
  intro k
  induction k with
  | zero =>
    intro fuel xs hlen hle
    have hnil : xs = [] := length_eq_zero_iff.mp (by omega)
    have hnone : p.step xs = none := by
      cases hstep : p.step xs with
      | none => rfl
      | some r =>
        have hpos := p.pos hstep
        have hle := p.le hstep
        omega
    rw [p.steps_of_none hnone, p.steps_of_none hnone]
  | succ k ih =>
    intro fuel xs hlen hle
    obtain ⟨fuel, rfl⟩ := Nat.exists_eq_succ_of_ne_zero (show fuel ≠ 0 by omega)
    rw [steps, steps]
    cases hstep : p.step xs with
    | none => rfl
    | some r =>
      have hpos := p.pos hstep
      have hshort : (xs.drop r.2).length ≤ k := by
        rw [length_drop]
        omega
      dsimp only
      rw [ih fuel (xs.drop r.2) hshort (by omega)]

theorem run_of_none (h : p.step xs = none) : p.run xs = ([], xs) :=
  p.steps_of_none h _

theorem run_of_some {out : List γ} (h : p.step xs = some (out, n)) :
    p.run xs = (out ++ (p.run (xs.drop n)).1, (p.run (xs.drop n)).2) := by
  have hpos := p.pos h
  have hle := p.le h
  obtain ⟨fuel, hfuel⟩ := Nat.exists_eq_succ_of_ne_zero (show xs.length ≠ 0 by omega)
  have hshort : (xs.drop n).length ≤ fuel := by
    rw [length_drop]
    omega
  rw [← p.steps_eq_run hshort, run, hfuel, steps, h]

/-- Induction along a run. -/
theorem run_induction {motive : List β → Prop} (hstop : ∀ xs, p.step xs = none → motive xs)
    (hstep : ∀ xs out n, p.step xs = some (out, n) → motive (xs.drop n) → motive xs) (xs : List β) :
    motive xs := by
  induction hlen : xs.length using Nat.strongRecOn generalizing xs with
  | ind len ih =>
    cases h : p.step xs with
    | none => exact hstop xs h
    | some r =>
      have hpos := p.pos h
      have hle := p.le h
      refine hstep xs r.1 r.2 h (ih (xs.drop r.2).length ?_ _ rfl)
      rw [length_drop]
      omega

/-- A run stops where the parser waits for more. -/
theorem step_run (xs : List β) : p.step (p.run xs).2 = none := by
  induction xs using p.run_induction with
  | hstop xs h =>
    rw [p.run_of_none h]
    exact h
  | hstep xs out n h ih =>
    rw [p.run_of_some h]
    exact ih

/-- What is left over is the end of what was there. -/
theorem run_suffix (xs : List β) : (p.run xs).2 <:+ xs := by
  induction xs using p.run_induction with
  | hstop xs h =>
    rewrite [p.run_of_none h]
    exact suffix_refl xs
  | hstep xs out n h ih =>
    rw [p.run_of_some h]
    exact ih.trans (drop_suffix n xs)

/-- A stream can be parsed in two pieces, with what the first leaves put before the second. -/
theorem run_append (xs ys : List β) :
    p.run (xs ++ ys) = ((p.run xs).1 ++ (p.run ((p.run xs).2 ++ ys)).1,
      (p.run ((p.run xs).2 ++ ys)).2) := by
  induction xs using p.run_induction with
  | hstop xs h => rw [p.run_of_none h, nil_append]
  | hstep xs out n h ih =>
    rw [p.run_of_some h, p.run_of_some (p.extend ys h), drop_append_of_le_length (p.le h), ih]
    simp only [append_assoc]

/-! ## Waiting for a number of bytes -/

/-- The parser that waits until there are `n` bytes. -/
def atLeast (n : Nat) : Parser β γ where
  step xs := if xs.length < n then none else p.step xs
  pos {xs out k} h := by
    split at h
    · cases h
    · exact p.pos h
  le {xs out k} h := by
    split at h
    · cases h
    · exact p.le h
  extend {xs r} ys h := by
    split at h
    · cases h
    · rename_i hlen
      rw [length_append, if_neg (by omega)]
      exact p.extend ys h

theorem atLeast_step_of_lt (h : xs.length < n) : (p.atLeast n).step xs = none :=
  if_pos h

theorem atLeast_step_of_le (h : n ≤ xs.length) :
    (p.atLeast n).step xs = p.step xs :=
  if_neg (Nat.not_lt.mpr h)

/-- A parser that has no results below `n` bytes loses none by waiting for them. -/
theorem atLeast_run
    (hquiet : ∀ (xs : List β) out k, xs.length < n → p.step xs = some (out, k) → out = [])
    (xs : List β) :
    ((p.atLeast n).run xs).1 = (p.run xs).1 := by
  have hshort : ∀ xs : List β, xs.length < n → (p.run xs).1 = [] := by
    intro xs
    induction xs using p.run_induction with
    | hstop xs h =>
      rw [p.run_of_none h]
      exact fun _ => rfl
    | hstep xs out k h ih =>
      intro hlen
      rw [p.run_of_some h, hquiet xs out k hlen h, nil_append]
      refine ih ?_
      rw [length_drop]
      omega
  induction xs using (p.atLeast n).run_induction with
  | hstop xs h =>
    rw [(p.atLeast n).run_of_none h]
    rcases Nat.lt_or_ge xs.length n with hlt | hge
    · exact (hshort xs hlt).symm
    · rw [p.run_of_none (p.atLeast_step_of_le hge ▸ h)]
  | hstep xs out k h ih =>
    have hge : n ≤ xs.length := by
      by_contra hlt
      rw [p.atLeast_step_of_lt (Nat.not_le.mp hlt)] at h
      cases h
    rw [(p.atLeast n).run_of_some h, p.run_of_some (p.atLeast_step_of_le hge ▸ h), ih]

end Parser

end StreamParser
