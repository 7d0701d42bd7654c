/-
# Changing the scale of a value

A value counted in steps of one scale is expressed in steps of another one, rounded to the
nearest step. Going to a finer scale and back loses nothing.
-/

import Mathlib.Order.Monotone.Basic

namespace Rescale

/-- `n` of `a` steps as a number of `b` steps. -/
def rescale (a b n : Nat) : Nat :=
  (n * b + a / 2) / a

variable {a b n : Nat}

theorem rescale_mono (a b : Nat) : Monotone (rescale a b) := fun _ _ h =>
  Nat.div_le_div_right (Nat.add_le_add_right (Nat.mul_le_mul_right b h) _)

theorem rescale_zero (ha : 0 < a) (b : Nat) : rescale a b 0 = 0 := by
  rw [rescale, Nat.zero_mul, Nat.zero_add]
  exact Nat.div_eq_of_lt (Nat.div_lt_self ha Nat.one_lt_two)

/-- The top of the scale stays the top. -/
theorem rescale_self (ha : 0 < a) (b : Nat) : rescale a b a = b := by
  rw [rescale, Nat.mul_add_div ha, Nat.div_eq_of_lt (Nat.div_lt_self ha Nat.one_lt_two),
    Nat.add_zero]

theorem rescale_le (ha : 0 < a) (b : Nat) (h : n ≤ a) : rescale a b n ≤ b :=
  (rescale_mono a b h).trans_eq (rescale_self ha b)

/-- The same scale. -/
theorem rescale_same (ha : 0 < a) (n : Nat) : rescale a a n = n := by
  rw [rescale, Nat.mul_comm, Nat.mul_add_div ha,
    Nat.div_eq_of_lt (Nat.div_lt_self ha Nat.one_lt_two),
    Nat.add_zero]

/-- On a finer scale the rounding error is less than half a step of the coarse one. -/
theorem rescale_rescale (ha : 0 < a) (hab : a < b) (n : Nat) : rescale b a (rescale a b n) = n := by
  have hdiv : rescale a b n * a + (n * b + a / 2) % a = n * b + a / 2 := Nat.div_add_mod' _ _
  have hmod := Nat.mod_lt (n * b + a / 2) ha
  refine Nat.div_eq_of_lt_le ?_ ?_
  · omega
  · rw [Nat.succ_mul]
    omega

end Rescale
