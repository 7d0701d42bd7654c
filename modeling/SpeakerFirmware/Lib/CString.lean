/-
# Strings of the C library

The functions of the C library that read text in memory. A pointer is the list of the bytes
from it on; behind the end of the list there is the terminating zero. What these functions
find in a text they find at the same place when more text follows.
-/

import Mathlib.Data.UInt

namespace CString

open List

/-- The characters of the string at a pointer. -/
def text (s : List UInt8) : List UInt8 := s.takeWhile (· ≠ 0)

@[simp]
theorem text_nil : text [] = [] := rfl

theorem text_cons {c : UInt8} (h : c ≠ 0) (s : List UInt8) : text (c :: s) = c :: text s :=
  takeWhile_cons_of_pos (decide_eq_true h)

theorem text_append {s : List UInt8} (h : 0 ∉ s) (rest : List UInt8) :
    text (s ++ rest) = s ++ text rest := by
  refine takeWhile_append_of_pos fun c hmem => decide_eq_true ?_
  rintro rfl
  exact h hmem

theorem text_of_zero_notMem {s : List UInt8} (h : 0 ∉ s) : text s = s := by
  have happend := text_append h []
  rwa [append_nil, text_nil, append_nil] at happend

/-! ## `strncmp` -/

def strncmp : List UInt8 → List UInt8 → Nat → Int
  | _, _, 0 => 0
  | s, t, n + 1 =>
    if s.headD 0 = t.headD 0 ∧ s.headD 0 ≠ 0 then strncmp s.tail t.tail n
    else (s.headD 0).toNat - (t.headD 0).toNat

theorem text_eq (s : List UInt8) :
    text s = if s.headD 0 = 0 then [] else s.headD 0 :: text s.tail := by
  cases s with
  | nil => rfl
  | cons c s =>
    by_cases hc : c = 0
    · subst hc
      rfl
    · rw [text_cons hc, headD_cons, if_neg hc, tail_cons]

/-- Two strings compare equal if they have the same first characters. -/
theorem strncmp_eq_zero_iff {s t : List UInt8} {n : Nat} :
    strncmp s t n = 0 ↔ (text s).take n = (text t).take n := by
  induction n generalizing s t with
  | zero => simp [strncmp]
  | succ n ih =>
    rw [strncmp, text_eq s, text_eq t]
    generalize s.headD 0 = c, t.headD 0 = d
    by_cases hcd : c = d
    · subst hcd
      by_cases hc : c = 0
      · rw [if_neg (fun h => h.2 hc), if_pos hc, if_pos hc]
        exact iff_of_true (Int.sub_self _) rfl
      · rw [if_pos ⟨rfl, hc⟩, if_neg hc, if_neg hc, ih, take_succ_cons, take_succ_cons,
          cons_inj_right]
    · rw [if_neg (fun h => hcd h.1)]
      refine iff_of_false (fun h => hcd (UInt8.toNat_inj.mp (by omega))) ?_
      split <;> split <;> simp_all

/-- A text without a zero, compared over its length, is a prefix. -/
theorem strncmp_length_iff {s t : List UInt8} (ht : 0 ∉ t) : strncmp s t t.length = 0 ↔
    t <+: s := by
  rw [strncmp_eq_zero_iff, text_of_zero_notMem ht, take_length]
  constructor
  · intro h
    have hprefix : t <+: text s := h ▸ take_prefix _ _
    exact hprefix.trans (List.takeWhile_prefix _)
  · rintro ⟨rest, rfl⟩
    rw [text_append ht, take_left]

/-! ## `strstr` -/

/-- The loop of `strstr`, for a string with a first character `c`. -/
def strstrLoop (c : UInt8) (find : List UInt8) : List UInt8 → Option (List UInt8)
  | [] => none
  | sc :: s =>
    if sc = 0 then none
    else if sc = c ∧ strncmp s find find.length = 0 then some (sc :: s) else strstrLoop c find s

def strstr (s : List UInt8) : List UInt8 → Option (List UInt8)
  | [] => some s
  | c :: find => strstrLoop c find s

section

variable {c : UInt8} {find : List UInt8} (hfind : 0 ∉ find)

include hfind

/-- What is found starts with the string that was looked for. -/
theorem strstrLoop_spec {s t : List UInt8} (h : strstrLoop c find s = some t) : t <:+ s ∧
    c :: find <+: t := by
  induction s with
  | nil => cases h
  | cons sc s ih =>
    rw [strstrLoop] at h
    split at h
    · cases h
    · split at h
      · rename_i hmatch
        cases h
        rw [strncmp_length_iff hfind] at hmatch
        exact ⟨suffix_refl _, cons_prefix_cons.mpr ⟨hmatch.1.symm, hmatch.2⟩⟩
      · obtain ⟨hsuffix, hprefix⟩ := ih h
        exact ⟨hsuffix.trans (suffix_cons _ _), hprefix⟩

/-- More text behind it does not change what is found. -/
theorem strstrLoop_append {s t : List UInt8} (h : strstrLoop c find s = some t)
    (more : List UInt8) :
    strstrLoop c find (s ++ more) = some (t ++ more) := by
  induction s with
  | nil => cases h
  | cons sc s ih =>
    rw [strstrLoop] at h
    rw [cons_append, strstrLoop]
    split at h
    · cases h
    · rename_i hzero
      rw [if_neg hzero]
      split at h
      · rename_i hmatch
        cases h
        rw [strncmp_length_iff hfind] at hmatch
        rw [if_pos ⟨hmatch.1, (strncmp_length_iff hfind).mpr (hmatch.2.trans (prefix_append _ _))⟩]
        rfl
      · rename_i hmatch
        -- an occurrence that the text behind completes would end behind the one that was found
        obtain ⟨hsuffix, hprefix⟩ := strstrLoop_spec hfind h
        have hlong : find.length ≤ s.length := by
          have hle := hprefix.length_le.trans hsuffix.length_le
          rw [length_cons] at hle
          omega
        rw [strncmp_length_iff hfind] at hmatch
        rw [if_neg, ih h]
        rintro ⟨hc, hmore⟩
        rw [strncmp_length_iff hfind] at hmore
        exact hmatch ⟨hc, prefix_of_prefix_length_le hmore (prefix_append _ _) hlong⟩

end

section

variable {s find t : List UInt8} (hfind : 0 ∉ find) (h : strstr s find = some t)
include hfind h

theorem strstr_spec : t <:+ s ∧ find <+: t := by
  cases find with
  | nil =>
    cases h
    exact ⟨suffix_refl _, nil_prefix⟩
  | cons c find => exact strstrLoop_spec (fun hmem => hfind (mem_cons_of_mem c hmem)) h

theorem strstr_append (more : List UInt8) : strstr (s ++ more) find = some (t ++ more) := by
  cases find with
  | nil =>
    cases h
    rfl
  | cons c find => exact strstrLoop_append (fun hmem => hfind (mem_cons_of_mem c hmem)) h more

end

/-! ## Texts that agree up to a character -/

/-- Both texts have the character `c`, and they agree up to it. -/
def SameUntil (c : UInt8) (s t : List UInt8) : Prop :=
  ∃ v r r', s = v ++ c :: r ∧ t = v ++ c :: r'

namespace SameUntil

variable {c : UInt8} {s t : List UInt8}

theorem append {v : List UInt8} (h : c ∈ v) (r r' : List UInt8) :
    SameUntil c (v ++ r) (v ++ r') := by
  obtain ⟨front, back, rfl⟩ := append_of_mem h
  exact ⟨front, back ++ r, back ++ r', by simp, by simp⟩

section

variable (h : SameUntil c s t)
include h

theorem headD : s.headD 0 = t.headD 0 := by
  obtain ⟨v, r, r', rfl, rfl⟩ := h
  cases v <;> rfl

theorem tail (hhead : s.headD 0 ≠ c) : SameUntil c s.tail t.tail := by
  obtain ⟨v, r, r', rfl, rfl⟩ := h
  cases v with
  | nil => exact absurd rfl hhead
  | cons d v => exact ⟨v, r, r', rfl, rfl⟩

theorem dropWhile {p : UInt8 → Bool} (hp : p c = false) :
    SameUntil c (s.dropWhile p) (t.dropWhile p) := by
  obtain ⟨v, r, r', rfl, rfl⟩ := h
  induction v with
  | nil =>
    rw [nil_append, nil_append, dropWhile_cons_of_neg (by simp [hp]),
      dropWhile_cons_of_neg (by simp [hp])]
    exact ⟨[], r, r', rfl, rfl⟩
  | cons d v ih =>
    rw [cons_append, cons_append, dropWhile_cons, dropWhile_cons]
    split
    · exact ih
    · exact ⟨d :: v, r, r', rfl, rfl⟩

/-- A text without the character is a prefix of both or of none. -/
theorem prefix_iff {find : List UInt8} (hfind : c ∉ find) : find <+: s ↔ find <+: t := by
  obtain ⟨v, r, r', rfl, rfl⟩ := h
  have hshort : ∀ r, find <+: v ++ c :: r → find <+: v := by
    intro r hprefix
    refine prefix_of_prefix_length_le hprefix (prefix_append _ _) ?_
    by_contra hlong
    -- the character would stand in the text that was looked for
    refine hfind ((prefix_of_prefix_length_le ?_ hprefix ?_ : v ++ [c] <+: find).mem ?_)
    · exact ⟨r, by simp⟩
    · rw [length_append, length_singleton]
      omega
    · exact mem_append_right _ mem_cons_self
  exact ⟨fun h => (hshort r h).trans (prefix_append _ _),
    fun h => (hshort r' h).trans (prefix_append _ _)⟩

end

end SameUntil

/-! ## `strtoul` -/

def isspace (c : UInt8) : Bool := c = 0x20 ∨ c - 0x09 < 5

def isdigit (c : UInt8) : Bool := c - 0x30 < 10

def isalpha (c : UInt8) : Bool := (c ||| 32) - 0x61 < 26

def isupper (c : UInt8) : Bool := c - 0x41 < 26

/-- The value of a digit, in any base. -/
def digitOf (c : UInt8) : Option Nat :=
  if isdigit c then some (c - 0x30).toNat
  else if isalpha c then some (c - if isupper c then 0x41 - 10 else 0x61 - 10).toNat
  else none

def ulongMax : Nat := 2 ^ 32 - 1

/-- The loop of `strtoul`: the value, and whether it is out of range. -/
def digitsLoop (base : Nat) : List UInt8 → Nat → Bool → Nat × Bool
  | [], acc, overflow => (acc, overflow)
  | c :: s, acc, overflow =>
    match digitOf c with
    | none => (acc, overflow)
    | some d =>
      if d ≥ base then (acc, overflow)
      else if overflow ∨ acc > ulongMax / base ∨ acc = ulongMax / base ∧ d > ulongMax % base then
        digitsLoop base s acc true
      else digitsLoop base s (acc * base + d) overflow

/-- Behind the sign. -/
def skipSign (s : List UInt8) : List UInt8 :=
  if s.headD 0 = 0x2d ∨ s.headD 0 = 0x2b then s.tail else s

/-- Behind a `0x`, and the base of what follows. -/
def skipHex (s : List UInt8) (base : Nat) : List UInt8 × Nat :=
  if (base = 0 ∨ base = 16) ∧ s.headD 0 = 0x30 ∧
    (s.tail.headD 0 = 0x78 ∨ s.tail.headD 0 = 0x58) then
    (s.tail.tail, 16)
  else (s, if base = 0 then if s.headD 0 = 0x30 then 8 else 10 else base)

/-- `strtoul`, where `long` has 32 bits. -/
def strtoul (nptr : List UInt8) (base : Nat) : UInt32 :=
  let s := nptr.dropWhile isspace
  let digits := skipHex (skipSign s) base
  let r := digitsLoop digits.2 digits.1 0 false
  if r.2 then .ofNat ulongMax else if s.headD 0 = 0x2d then -.ofNat r.1 else .ofNat r.1

/-- The character `<` ends a number: what follows it is not read. -/
theorem digitsLoop_congr (base : Nat) {s t : List UInt8} (h : SameUntil 0x3c s t) (acc : Nat)
    (overflow : Bool) :
    digitsLoop base s acc overflow = digitsLoop base t acc overflow := by
  obtain ⟨v, r, r', rfl, rfl⟩ := h
  induction v generalizing acc overflow with
  | nil => rfl
  | cons c v ih =>
    rw [cons_append, cons_append, digitsLoop, digitsLoop]
    simp only [ih]

section

variable {s t : List UInt8} (h : SameUntil 0x3c s t)
include h

theorem skipSign_congr : SameUntil 0x3c (skipSign s) (skipSign t) := by
  rw [skipSign, skipSign, h.headD]
  split
  · rename_i hsign
    refine h.tail ?_
    rw [h.headD]
    rcases hsign with hsign | hsign <;> rw [hsign] <;> decide
  · exact h

theorem skipHex_congr (base : Nat) :
    SameUntil 0x3c (skipHex s base).1 (skipHex t base).1 ∧
      (skipHex s base).2 = (skipHex t base).2 := by
  unfold skipHex
  rw [h.headD]
  by_cases hzero : t.headD 0 = 0x30
  · have htail : SameUntil 0x3c s.tail t.tail := h.tail (by rw [h.headD, hzero]; decide)
    rw [htail.headD]
    split
    · rename_i hhex
      refine ⟨htail.tail ?_, rfl⟩
      rw [htail.headD]
      rcases hhex.2.2 with hx | hx <;> rw [hx] <;> decide
    · exact ⟨h, rfl⟩
  · simp only [hzero, false_and, and_false, if_false]
    exact ⟨h, trivial⟩

theorem strtoul_congr (base : Nat) : strtoul s base = strtoul t base := by
  have hspace := h.dropWhile (p := isspace) (by decide)
  obtain ⟨hdigits, hbase⟩ := skipHex_congr (skipSign_congr hspace) base
  unfold strtoul
  dsimp only
  rw [hbase, digitsLoop_congr _ hdigits, hspace.headD]

end

end CString
