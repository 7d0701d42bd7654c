/-
# Tables of slots with keys

A table is a fixed list of slots. A slot in use has a key, a free one has none. As long as
no two slots have the same key the table is a partial map; `lookup_set` says how writing
one slot changes it.
-/

import Mathlib.Data.List.Basic

namespace SlotTable

open List

variable {σ κ : Type*} [DecidableEq κ] (key : σ → Option κ)
variable {i : Nat}

/-- The first slot with this key. -/
def lookup (table : List σ) (k : κ) : Option σ :=
  table.find? fun slot => key slot = some k

/-- No key stands in two slots. -/
def Distinct (table : List σ) : Prop :=
  ∀ (i j : Nat) (a b : σ) (k : κ), table[i]? = some a → table[j]? = some b →
    key a = some k → key b = some k → i = j

variable {key} {table : List σ}

theorem lookup_key {k : κ} {slot : σ} (h : lookup key table k = some slot) : key slot = some k :=
  of_decide_eq_true (find?_some (p := fun slot => key slot = some k) h)

theorem lookup_eq_none {k : κ} :
    lookup key table k = none ↔ ∀ (i : Nat) (slot : σ), table[i]? = some slot →
      key slot ≠ some k := by
  simp only [lookup, find?_eq_none, decide_eq_true_eq]
  constructor
  · exact fun h i slot hi => h slot (mem_of_getElem? hi)
  · intro h slot hmem
    obtain ⟨i, hi⟩ := getElem?_of_mem hmem
    exact h i slot hi

/-- In a table with distinct keys every slot is found by its key. -/
theorem Distinct.lookup_eq_some (h : Distinct key table) {k : κ} {slot : σ} :
    lookup key table k = some slot ↔ ∃ i : Nat, table[i]? = some slot ∧ key slot = some k := by
  constructor
  · intro hfind
    obtain ⟨i, hi⟩ := getElem?_of_mem (mem_of_find?_eq_some hfind)
    exact ⟨i, hi, lookup_key hfind⟩
  · rintro ⟨i, hi, hkey⟩
    cases hfind : lookup key table k with
    | none => exact absurd hkey (lookup_eq_none.mp hfind i slot hi)
    | some other =>
      obtain ⟨j, hj⟩ := getElem?_of_mem (mem_of_find?_eq_some hfind)
      have hij := h i j slot other k hi hj hkey (lookup_key hfind)
      rw [← hij, hi] at hj
      exact hj.symm

/-- A slot may be written if its new key stands in no other slot. -/
def Vacant (key : σ → Option κ) (table : List σ) (i : Nat) (new : σ) : Prop :=
  ∀ k, key new = some k → ∀ (j : Nat) (slot : σ), table[j]? = some slot → key slot = some k → j = i

omit [DecidableEq κ] in
theorem getElem?_set_cases {j : Nat} {new slot : σ} (h : (table.set i new)[j]? = some slot) :
    (j = i ∧ slot = new) ∨ (j ≠ i ∧ table[j]? = some slot) := by
  rcases eq_or_ne j i with rfl | hne
  · have hlt : j < table.length := by
      simpa using (List.getElem?_eq_some_iff.mp h).1
    rw [List.getElem?_set_self hlt] at h
    exact .inl ⟨rfl, (Option.some.inj h).symm⟩
  · rw [getElem?_set_ne hne.symm] at h
    exact .inr ⟨hne, h⟩

omit [DecidableEq κ] in
theorem Distinct.set (h : Distinct key table) {new : σ} (hnew : Vacant key table i new) :
    Distinct key (table.set i new) := by
  intro j j' a b k hj hj' ha hb
  rcases getElem?_set_cases hj with ⟨rfl, rfl⟩ | ⟨-, hold⟩
  · rcases getElem?_set_cases hj' with ⟨rfl, -⟩ | ⟨-, hold'⟩
    · rfl
    · exact (hnew k ha j' b hold' hb).symm
  · rcases getElem?_set_cases hj' with ⟨rfl, rfl⟩ | ⟨-, hold'⟩
    · exact hnew k hb j a hold ha
    · exact h j j' a b k hold hold' ha hb

/-- Writing a slot adds its new key and takes away its old one. -/
theorem Distinct.lookup_set (h : Distinct key table) {old new : σ} (hold : table[i]? = some old)
    (hnew : Vacant key table i new) (k : κ) :
    lookup key (table.set i new) k =
      if key new = some k then some new else if key old = some k then none
        else lookup key table k := by
  have hset := h.set hnew
  split
  · rename_i hkey
    have hlt : i < table.length := (List.getElem?_eq_some_iff.mp hold).1
    exact hset.lookup_eq_some.mpr ⟨i, List.getElem?_set_self hlt, hkey⟩
  · rename_i hkey
    split
    · rename_i hkeyOld
      refine lookup_eq_none.mpr fun j slot hj hslot => ?_
      rcases getElem?_set_cases hj with ⟨-, rfl⟩ | ⟨hne, hj'⟩
      · exact hkey hslot
      · exact hne (h j i slot old k hj' hold hslot hkeyOld)
    · rename_i hkeyOld
      cases hfind : lookup key table k with
      | none =>
        refine lookup_eq_none.mpr fun j slot hj hslot => ?_
        rcases getElem?_set_cases hj with ⟨-, rfl⟩ | ⟨-, hj'⟩
        · exact hkey hslot
        · exact lookup_eq_none.mp hfind j slot hj' hslot
      | some slot =>
        obtain ⟨j, hj, hslot⟩ := h.lookup_eq_some.mp hfind
        have hne : i ≠ j := by
          rintro rfl
          rw [hold] at hj
          cases hj
          exact hkeyOld hslot
        exact hset.lookup_eq_some.mpr ⟨j, (getElem?_set_ne hne).trans hj, hslot⟩

end SlotTable
