/-
# The map behind a log

A log-structured store appends key-value pairs and reads a key as the last pair
written for it. `valueOf` is the map such a log stands for. The rules say how it
changes when a pair is appended, when a pair that was overwritten is dropped, and
when the only pair of a key is dropped.
-/

import Mathlib.Logic.Function.Basic

namespace LogMap

open List

variable {K V : Type*} [DecidableEq K]
variable {key : K}

/-- The value of a key is the one written last. -/
def valueOf (log : List (K × V)) (key : K) : Option V := log.reverse.lookup key

theorem valueOf_append (first second : List (K × V)) (key : K) :
    valueOf (first ++ second) key = (valueOf second key).or (valueOf first key) := by
  rw [valueOf, reverse_append, lookup_append]
  rfl

theorem valueOf_singleton (key key' : K) (value : V) :
    valueOf [(key, value)] key' = if key' = key then some value else none := by
  by_cases h : key' = key
  · simp [valueOf, h]
  · have hbeq : (key' == key) = false := beq_false_of_ne h
    simp [valueOf, List.lookup_cons, hbeq, h]

theorem valueOf_cons (key key' : K) (value : V) (log : List (K × V)) :
    valueOf ((key, value) :: log) key' =
      (valueOf log key').or (if key' = key then some value else none) := by
  rw [← valueOf_singleton, ← valueOf_append]
  rfl

theorem valueOf_eq_none_iff {log : List (K × V)} :
    valueOf log key = none ↔ key ∉ log.map Prod.fst := by
  induction log with
  | nil => simp [valueOf]
  | cons entry log ih =>
    obtain ⟨key', value⟩ := entry
    rw [valueOf_cons, Option.or_eq_none_iff, ih]
    by_cases h : key = key'
    · simp [h]
    · simp [h]

/-- Appending a pair updates its key. -/
theorem valueOf_append_singleton (log : List (K × V)) (key : K) (value : V) :
    valueOf (log ++ [(key, value)]) = Function.update (valueOf log) key (some value) := by
  funext key'
  rw [valueOf_append, valueOf_singleton, Function.update_apply]
  split
  · rfl
  · rfl

variable {first second : List (K × V)}

/-- A pair that is overwritten later does not matter. -/
theorem valueOf_drop_overwritten (value : V)
    (h : key ∈ second.map Prod.fst) :
    valueOf (first ++ (key, value) :: second) = valueOf (first ++ second) := by
  funext key'
  rw [valueOf_append, valueOf_append, valueOf_cons]
  by_cases heq : key' = key
  · have hsome : valueOf second key ≠ none := fun hnone => valueOf_eq_none_iff.mp hnone h
    obtain ⟨value', hvalue⟩ := Option.ne_none_iff_exists'.mp hsome
    rw [heq, hvalue]
    rfl
  · rw [if_neg heq, Option.or_none]

/-- Dropping the only pair of a key deletes the key. -/
theorem valueOf_drop_only (value : V)
    (hfirst : key ∉ first.map Prod.fst) (hsecond : key ∉ second.map Prod.fst) :
    valueOf (first ++ second) =
      Function.update (valueOf (first ++ (key, value) :: second)) key none := by
  funext key'
  rw [Function.update_apply]
  by_cases heq : key' = key
  · rw [if_pos heq, heq, valueOf_append, valueOf_eq_none_iff.mpr hfirst,
      valueOf_eq_none_iff.mpr hsecond]
    rfl
  · rw [if_neg heq, valueOf_append, valueOf_append, valueOf_cons, if_neg heq, Option.or_none]

/-- Without duplicate keys the order of the log does not matter. -/
theorem valueOf_of_mem {log : List (K × V)} {value : V}
    (hnodup : (log.map Prod.fst).Nodup) (hmem : (key, value) ∈ log) :
    valueOf log key = some value := by
  obtain ⟨first, second, rfl⟩ := append_of_mem hmem
  rw [map_append, map_cons] at hnodup
  have hnot : key ∉ second.map Prod.fst :=
    (nodup_cons.mp (nodup_append.mp hnodup).2.1).1
  rw [valueOf_append, valueOf_cons, valueOf_eq_none_iff.mpr hnot, if_pos rfl]
  rfl

/-- Dropping all pairs of some keys deletes those keys. -/
theorem valueOf_filter (log : List (K × V)) (gone : K → Bool) (key : K) :
    valueOf (log.filter fun entry => !gone entry.1) key = if gone key then none
      else valueOf log key := by
  induction log with
  | nil =>
    rw [filter_nil]
    split <;> rfl
  | cons entry log ih =>
    obtain ⟨key', value⟩ := entry
    rw [filter_cons, valueOf_cons]
    by_cases heq : key = key'
    · subst heq
      cases hgone : gone key <;> simp [hgone, valueOf_cons, ih]
    · cases gone key' <;> simp [valueOf_cons, ih, heq]

end LogMap
