/-
# Reflected cyclic redundancy checks

The register shifts towards its low end, where the bits of a message enter, least significant bit
first. When the polynomial has its highest bit, a bit that entered wrong sets the highest place of
the register wrong, and the difference cannot leave the register before as many more steps as it
has places below. After that a step is injective.
-/

import Mathlib.Data.BitVec
import Mathlib.Logic.Function.Iterate

namespace ReflectedCrc

variable {w : Nat} {poly : BitVec w}

/-- The register after one shift. -/
def shift (poly crc : BitVec w) : BitVec w :=
  if crc.getLsbD 0 then (crc >>> 1) ^^^ poly else crc >>> 1

/-- A bit of the message enters at the low end and the register shifts. -/
def feed (poly crc : BitVec w) (bit : Bool) : BitVec w :=
  shift poly (crc ^^^ BitVec.setWidth w (BitVec.ofBool bit))

/-- The registers differ at place `k` or above. -/
def DifferFrom (k : Nat) (a b : BitVec w) : Prop :=
  ∃ i, k ≤ i ∧ a.getLsbD i ≠ b.getLsbD i

theorem DifferFrom.ne {k : Nat} {a b : BitVec w} (h : DifferFrom k a b) : a ≠ b := by
  rintro rfl
  obtain ⟨i, -, hne⟩ := h
  exact hne rfl

theorem getLsbD_shift (crc : BitVec w) (i : Nat) : (shift poly crc).getLsbD i =
    (crc.getLsbD (i + 1) ^^ (crc.getLsbD 0 && poly.getLsbD i)) := by
  rw [shift]
  split <;> simp_all [Nat.add_comm]

theorem getLsbD_feed (hw : 0 < w) (crc : BitVec w) (bit : Bool) (i : Nat) :
    (feed poly crc bit).getLsbD i =
      (crc.getLsbD (i + 1) ^^ ((crc.getLsbD 0 ^^ bit) && poly.getLsbD i)) := by
  simp [feed, getLsbD_shift, hw]

/-- A word of `n` bits that is added at once and then shifted out enters bit by bit. -/
theorem iterate_shift_xor (hw : 0 < w) (n : Nat) (crc word : BitVec w) (h : word.toNat < 2 ^ n) :
    (shift poly)^[n] (crc ^^^ word) =
      ((List.range n).map word.getLsbD).foldl (feed poly) crc := by
  induction n generalizing crc word with
  | zero =>
    have : word = 0 := BitVec.eq_of_toNat_eq (by simpa using h)
    simp [this]
  | succ n ih =>
    have hlow : shift poly (crc ^^^ word) = feed poly crc (word.getLsbD 0) ^^^ word >>> 1 := by
      apply BitVec.eq_of_getLsbD_eq
      intro i _
      simp only [getLsbD_shift, getLsbD_feed hw, BitVec.getLsbD_xor, BitVec.getLsbD_ushiftRight,
        Nat.add_comm 1, Bool.xor_right_comm]
    rw [Function.iterate_succ_apply, hlow, ih, List.range_succ_eq_map]
    · rw [List.map_cons, List.map_map, List.foldl_cons]
      congr 2
      funext i
      rw [BitVec.getLsbD_ushiftRight, Nat.add_comm, Function.comp_apply]
    · rw [BitVec.toNat_ushiftRight, Nat.shiftRight_eq_div_pow]
      omega

section Bursts

variable (hp : poly.msb = true)
include hp

theorem width_pos : 0 < w := by
  rcases Nat.eq_zero_or_pos w with rfl | hw
  · simp [BitVec.eq_nil poly] at hp
  · exact hw

theorem getLsbD_feed_top (a : BitVec w) (x : Bool) :
    (feed poly a x).getLsbD (w - 1) = (a.getLsbD 0 ^^ x) := by
  have hw := width_pos hp
  rw [BitVec.msb_eq_getLsbD_last] at hp
  simp [getLsbD_feed hw, hp, Nat.sub_add_cancel hw]

theorem feed_injective (x : Bool) : Function.Injective (feed poly · x) := by
  intro a b (h : feed poly a x = feed poly b x)
  have htop := congrArg (BitVec.getLsbD · (w - 1)) h
  simp only [getLsbD_feed_top hp, Bool.xor_left_inj] at htop
  apply BitVec.eq_of_getLsbD_eq
  intro i _
  cases i with
  | zero => exact htop
  | succ i =>
    have := congrArg (BitVec.getLsbD · i) h
    simpa [getLsbD_feed (width_pos hp), htop] using this

theorem foldl_feed_injective (xs : List Bool) :
    Function.Injective (fun crc => xs.foldl (feed poly) crc) := by
  induction xs with
  | nil => exact Function.injective_id
  | cons x xs ih => exact ih.comp (feed_injective hp x)

theorem DifferFrom.step {a b : BitVec w} {k : Nat} (h : DifferFrom (k + 1) a b) (x y : Bool) :
    DifferFrom k (feed poly a x) (feed poly b y) := by
  obtain ⟨i, hk, hne⟩ := h
  by_cases hxy : (a.getLsbD 0 ^^ x) = (b.getLsbD 0 ^^ y)
  · obtain ⟨i, rfl⟩ : ∃ j, i = j + 1 := ⟨i - 1, by omega⟩
    refine ⟨i, by omega, ?_⟩
    simpa [getLsbD_feed (width_pos hp), hxy] using hne
  · refine ⟨w - 1, ?_, by simpa only [getLsbD_feed_top hp] using hxy⟩
    by_contra hw
    exact hne (by rw [BitVec.getLsbD_of_ge _ _ (by omega), BitVec.getLsbD_of_ge _ _ (by omega)])

/-- The messages may differ in as many bits as the difference needs to reach the low end. -/
theorem DifferFrom.foldl_ne {k : Nat} {a b : BitVec w} {xs ys : List Bool} (h : DifferFrom k a b)
    (hlen : xs.length = ys.length) (heq : ∀ i, k ≤ i → xs[i]? = ys[i]?) :
    xs.foldl (feed poly) a ≠ ys.foldl (feed poly) b := by
  induction k generalizing a b xs ys with
  | zero =>
    rw [List.ext_getElem? fun i => heq i (Nat.zero_le i)]
    exact (foldl_feed_injective hp ys).ne h.ne
  | succ k ih =>
    cases xs with
    | nil =>
      rw [List.length_eq_zero_iff.1 hlen.symm]
      exact h.ne
    | cons x xs =>
      obtain ⟨y, ys, rfl⟩ := List.exists_cons_of_length_eq_add_one hlen.symm
      rw [List.foldl_cons, List.foldl_cons]
      exact ih (h.step hp x y) (Nat.succ.inj hlen) fun i hi => by
        simpa using heq (i + 1) (Nat.succ_le_succ hi)

/-- Two messages that differ only in a window not longer than the register. -/
theorem foldl_feed_ne {crc : BitVec w} {xs ys : List Bool} {s : Nat} (hlen : xs.length = ys.length)
    (hne : xs ≠ ys) (hwin : ∀ i, xs[i]? ≠ ys[i]? → s ≤ i ∧ i < s + w) :
    xs.foldl (feed poly) crc ≠ ys.foldl (feed poly) crc := by
  induction xs generalizing crc ys s with
  | nil => exact absurd (List.length_eq_zero_iff.1 hlen.symm).symm hne
  | cons x xs ih =>
    obtain ⟨y, ys, rfl⟩ := List.exists_cons_of_length_eq_add_one hlen.symm
    have htail (i : Nat) (h : xs[i]? ≠ ys[i]?) : s ≤ i + 1 ∧ i + 1 < s + w :=
      hwin (i + 1) (by simpa using h)
    rw [List.foldl_cons, List.foldl_cons]
    by_cases hxy : x = y
    · subst hxy
      exact ih (s := s - 1) (Nat.succ.inj hlen) (by simpa using hne) fun i h => by
        have := htail i h
        omega
    · have h0 := hwin 0 (by simpa using hxy)
      refine DifferFrom.foldl_ne hp (k := w - 1) ⟨w - 1, le_rfl, ?_⟩ (Nat.succ.inj hlen) ?_
      · simpa [getLsbD_feed_top hp] using hxy
      · intro i hi
        by_contra h
        have := htail i h
        omega

end Bursts

end ReflectedCrc
