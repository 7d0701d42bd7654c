/-
# Objects that are made and freed

`Heap` keeps the objects of one kind that a program has ever made, in the order in which it
made them, together with the frees and with the accesses that came after a free. `Owns`
says that a list of references accounts for all of them: every object is held by exactly
one reference or has been freed exactly once.
-/

import Mathlib.Data.List.Count

namespace Ownership

open List

variable {α : Type*}

structure Heap (α : Type*) where
  /-- The objects ever made; their place in the list is their reference. -/
  cells : List α
  /-- The references that were freed, each as often as it was. -/
  freed : List Nat
  /-- The references that were used after they were freed. -/
  stale : List Nat
  deriving DecidableEq, Repr

namespace Heap

def empty : Heap α :=
  ⟨[], [], []⟩

/-- The reference of the next object. -/
def next (h : Heap α) : Nat :=
  h.cells.length

def alloc (h : Heap α) (a : α) : Heap α :=
  { h with cells := h.cells ++ [a] }

def free (h : Heap α) (ref : Nat) : Heap α :=
  { h with freed := h.freed ++ [ref] }

/-- Reads or writes through a reference. -/
def touch (h : Heap α) (ref : Nat) : Heap α :=
  { h with stale := if ref ∈ h.freed then h.stale ++ [ref] else h.stale }

def modify (h : Heap α) (ref : Nat) (f : α → α) : Heap α :=
  { h with cells := h.cells.modify ref f }

def cell [Inhabited α] (h : Heap α) (ref : Nat) : α :=
  h.cells.getD ref default

variable {h : Heap α} {ref : Nat}

theorem stale_touch (hlive : ref ∉ h.freed) : (h.touch ref).stale = h.stale :=
  if_neg hlive

theorem stale_touch_ne_nil (hfreed : ref ∈ h.freed) : (h.touch ref).stale ≠ [] := by
  simp [touch, hfreed]

end Heap

/-- Every object is held by one of the references or was freed, once in all. -/
def Owns (h : Heap α) (owners : List Nat) : Prop :=
  ∀ ref, h.freed.count ref + owners.count ref = if ref < h.next then 1 else 0

namespace Owns

variable {h : Heap α} {owners owners' : List Nat} {ref : Nat}

theorem empty : Owns (Heap.empty : Heap α) [] :=
  fun _ => rfl

/-- The order of the references does not matter. -/
theorem of_count (howns : Owns h owners) (hcount : ∀ ref, owners'.count ref = owners.count ref) :
    Owns h owners' :=
  fun ref => hcount ref ▸ howns ref

/-- The heap matters only by its size and by what was freed. -/
theorem congr {h' : Heap α} (howns : Owns h owners) (hfreed : h'.freed = h.freed)
    (hnext : h'.next = h.next) : Owns h' owners := by
  intro ref
  rw [hfreed, hnext]
  exact howns ref

section

variable (howns : Owns h owners)
include howns

theorem touch (ref : Nat) : Owns (h.touch ref) owners :=
  howns.congr rfl rfl

theorem modify (ref : Nat) (f : α → α) : Owns (h.modify ref f) owners :=
  howns.congr rfl (length_modify ..)

theorem not_mem_freed (href : ref ∈ owners) : ref ∉ h.freed := by
  intro hfreed
  have hcount := howns ref
  have hheld := count_pos_iff.mpr href
  have hgone := count_pos_iff.mpr hfreed
  split at hcount <;> omega

/-- The new object is held by the reference that `alloc` returns. -/
theorem alloc (a : α) : Owns (h.alloc a) (owners ++ [h.next]) := by
  intro ref
  have hcount := howns ref
  have hnext : (h.alloc a).next = h.next + 1 := by simp [Heap.next, Heap.alloc]
  rw [count_append, hnext, show (h.alloc a).freed = h.freed from rfl, count_singleton]
  by_cases hnew : ref = h.next
  · subst hnew
    rw [if_neg (Nat.lt_irrefl _)] at hcount
    simp
    omega
  · rw [if_neg (by simpa using fun heq => hnew heq.symm)]
    split at hcount <;> split <;> omega

end

/-- A free takes a reference away. -/
theorem free (howns : Owns h (ref :: owners)) : Owns (h.free ref) owners := by
  intro other
  have hcount := howns other
  rw [count_cons] at hcount
  rw [show (h.free ref).freed = h.freed ++ [ref] from rfl, count_append, count_singleton,
    show (h.free ref).next = h.next from rfl]
  omega

/-- Many references are used for the last time and freed. -/
theorem freeAll {refs : List Nat} (howns : Owns h (refs ++ owners)) :
    Owns (refs.foldl (fun h ref => (h.touch ref).free ref) h) owners ∧
      (refs.foldl (fun h ref => (h.touch ref).free ref) h).stale = h.stale := by
  induction refs generalizing h with
  | nil => exact ⟨howns, rfl⟩
  | cons ref refs ih =>
    have hlive := howns.not_mem_freed mem_cons_self
    obtain ⟨hfinal, hstale⟩ := ih (howns.touch ref).free
    exact ⟨hfinal, hstale.trans (Heap.stale_touch hlive)⟩

end Owns

end Ownership
