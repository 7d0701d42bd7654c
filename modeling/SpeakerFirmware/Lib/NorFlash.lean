/-
# NOR flash

A flash is a byte at every address. Two operations change it: programming can only
clear bits, and erasing sets a range to `0xff`. A driver call is a list of such
operations, and power may be lost behind any of them.

`read`, `Holds` and `Erased` say what is in the flash, with rules for gluing ranges
together. `Op.Within` is the frame rule: operations inside a range leave everything
outside it alone. `AllBlank` says that only erased bytes are programmed, and
`ErasedBetween` what follows from that for the history of a byte. `Along` says that a
property holds before, between and behind the operations of a list, which is what must
be shown of a driver that may lose power.
-/

import Mathlib.Data.UInt
import Mathlib.Order.Interval.Set.LinearOrder

namespace NorFlash

open List Nat

variable {a addr len n i m lo hi size : Nat} {bytes : List UInt8}

/-- The contents of a flash. -/
abbrev Image := Nat → UInt8

variable {f : Image}

/-- One operation of the flash controller. -/
inductive Op
  | program (addr : Nat) (bytes : List UInt8)
  | erase (addr size : Nat)
  deriving DecidableEq, Repr

variable {op : Op} {first second ops : List Op}

/-- Programming clears bits, erasing sets them all. -/
def Op.apply : Op → Image → Image
  | .program addr bytes, f => fun a =>
    if addr ≤ a ∧ a < addr + bytes.length then f a &&& bytes.getD (a - addr) 0xff else f a
  | .erase addr size, f => fun a => if addr ≤ a ∧ a < addr + size then 0xff else f a

/-- A list of operations, the first one first. -/
def applyAll (ops : List Op) (f : Image) : Image :=
  ops.foldl (fun f op => op.apply f) f

@[simp]
theorem applyAll_nil (f : Image) : applyAll [] f = f := rfl

@[simp]
theorem applyAll_cons (op : Op) (ops : List Op) (f : Image) :
    applyAll (op :: ops) f = applyAll ops (op.apply f) := rfl

theorem applyAll_append (first second : List Op) (f : Image) :
    applyAll (first ++ second) f = applyAll second (applyAll first f) :=
  foldl_append

/-! ## What is in the flash -/

/-- The bytes of a range. -/
def read (f : Image) (addr len : Nat) : List UInt8 :=
  (List.range len).map fun i => f (addr + i)

@[simp]
theorem length_read (f : Image) (addr len : Nat) : (read f addr len).length = len := by
  simp [read]

theorem read_add (f : Image) (addr m n : Nat) :
    read f addr (m + n) = read f addr m ++ read f (addr + m) n := by
  simp [read, range_add, add_assoc, Function.comp_def]

theorem read_congr {g : Image}
    (h : ∀ a, addr ≤ a → a < addr + len → f a = g a) : read f addr len = read g addr len := by
  apply map_congr_left
  intro i hi
  have hlt := mem_range.mp hi
  exact h (addr + i) (Nat.le_add_right _ _) (Nat.add_lt_add_left hlt _)

theorem getD_read (f : Image) (addr len i : Nat) (hi : i < len) (d : UInt8) :
    (read f addr len).getD i d = f (addr + i) := by
  simp [read, getD, hi]

/-- The range starting at `addr` holds exactly these bytes. -/
def Holds (f : Image) (addr : Nat) (bytes : List UInt8) : Prop :=
  read f addr bytes.length = bytes

instance (f : Image) (addr : Nat) (bytes : List UInt8) : Decidable (Holds f addr bytes) :=
  inferInstanceAs (Decidable (read f addr bytes.length = bytes))

theorem holds_nil (f : Image) (addr : Nat) : Holds f addr [] := rfl

theorem holds_append {first second : List UInt8} :
    Holds f addr (first ++ second) ↔
      Holds f addr first ∧ Holds f (addr + first.length) second := by
  unfold Holds
  rw [length_append, read_add]
  constructor
  · intro h
    exact append_inj h (length_read _ _ _)
  · rintro ⟨hfirst, hsecond⟩
    rw [hfirst, hsecond]

theorem Holds.read_take (h : Holds f addr bytes) (hn : n ≤ bytes.length) :
    read f addr n = bytes.take n := by
  obtain ⟨k, hk⟩ := Nat.exists_eq_add_of_le hn
  unfold Holds at h
  rw [hk, read_add] at h
  rw [← h, take_append_of_le_length (by simp), take_of_length_le (by simp)]

theorem Holds.read_drop_take (h : Holds f addr bytes) (hi : i + n ≤ bytes.length) :
    read f (addr + i) n = (bytes.drop i).take n := by
  have hsplit : Holds f addr (bytes.take i ++ bytes.drop i) := by
    rwa [take_append_drop]
  have hdrop := (holds_append.mp hsplit).2
  rw [length_take, min_eq_left (by omega)] at hdrop
  apply hdrop.read_take
  rw [length_drop]
  omega

theorem Holds.getD (h : Holds f addr bytes) (hi : i < bytes.length) (d : UInt8) :
    f (addr + i) = bytes.getD i d := by
  rw [← getD_read f addr bytes.length i hi d]
  exact congrArg (fun l => l.getD i d) h

theorem holds_iff_getD :
    Holds f addr bytes ↔ ∀ i < bytes.length, f (addr + i) = bytes.getD i 0 := by
  constructor
  · intro h i hi
    exact h.getD hi 0
  · intro h
    apply ext_getElem (length_read _ _ _)
    intro i hi hi'
    have hbyte := h i hi'
    simpa [read, getD, hi'] using hbyte

/-- Every byte of the range is erased. -/
def Erased (f : Image) (addr len : Nat) : Prop :=
  ∀ a, addr ≤ a → a < addr + len → f a = 0xff

theorem erased_zero (f : Image) (addr : Nat) : Erased f addr 0 :=
  fun _ hlo hhi => absurd (lt_of_le_of_lt hlo hhi) (lt_irrefl _)

theorem erased_add :
    Erased f addr (m + n) ↔ Erased f addr m ∧ Erased f (addr + m) n := by
  constructor
  · intro h
    exact ⟨fun a hlo hhi => h a hlo (by omega), fun a hlo hhi => h a (by omega) (by omega)⟩
  · rintro ⟨hfirst, hsecond⟩ a hlo hhi
    rcases lt_or_ge a (addr + m) with hlt | hge
    · exact hfirst a hlo hlt
    · exact hsecond a hge (by omega)

theorem Erased.mono {addr' len' : Nat} (h : Erased f addr len)
    (hlo : addr ≤ addr') (hhi : addr' + len' ≤ addr + len) : Erased f addr' len' :=
  fun a ha ha' => h a (hlo.trans ha) (lt_of_lt_of_le ha' hhi)

theorem erased_iff_holds :
    Erased f addr len ↔ Holds f addr (replicate len 0xff) := by
  rw [holds_iff_getD, length_replicate]
  constructor
  · intro h i hi
    rw [h (addr + i) (Nat.le_add_right _ _) (Nat.add_lt_add_left hi _)]
    simp [getD, hi]
  · intro h a hlo hhi
    have hbyte := h (a - addr) (by omega)
    rw [Nat.add_sub_cancel' hlo] at hbyte
    rw [hbyte]
    have hlt : a - addr < len := by omega
    simp [getD, hlt]

/-- The check a driver makes before it erases. -/
def isErased (f : Image) (addr len : Nat) : Bool :=
  (List.range len).all fun i => f (addr + i) == 0xff

theorem isErased_iff :
    isErased f addr len = true ↔ Erased f addr len := by
  simp only [isErased, all_eq_true, mem_range, beq_iff_eq]
  constructor
  · intro h a hlo hhi
    have hbyte := h (a - addr) (by omega)
    rwa [Nat.add_sub_cancel' hlo] at hbyte
  · intro h i hi
    exact h (addr + i) (Nat.le_add_right _ _) (Nat.add_lt_add_left hi _)

theorem isErased_eq_all_read (f : Image) (addr len : Nat) :
    isErased f addr len = (read f addr len).all (· == 0xff) := by
  simp [isErased, read, all_map, Function.comp_def]

theorem isErased_add (f : Image) (addr m n : Nat) :
    isErased f addr (m + n) = (isErased f addr m && isErased f (addr + m) n) := by
  rw [isErased_eq_all_read, read_add, all_append, ← isErased_eq_all_read,
    ← isErased_eq_all_read]

/-! ## The frame rule -/

/-- The operation changes nothing outside `lo ..< hi`. -/
def Op.Within (lo hi : Nat) : Op → Prop
  | .program addr bytes => lo ≤ addr ∧ addr + bytes.length ≤ hi
  | .erase addr size => lo ≤ addr ∧ addr + size ≤ hi

/-- The operation may change this address. -/
def Op.Touches (a : Nat) : Op → Prop
  | .program addr bytes => addr ≤ a ∧ a < addr + bytes.length
  | .erase addr size => addr ≤ a ∧ a < addr + size

theorem Op.Within.of_touches (h : op.Within lo hi) (ha : op.Touches a) :
    lo ≤ a ∧ a < hi := by
  cases op with
  | program addr bytes => exact ⟨h.1.trans ha.1, ha.2.trans_le h.2⟩
  | erase addr size => exact ⟨h.1.trans ha.1, ha.2.trans_le h.2⟩

/-- All operations of a list stay inside `lo ..< hi`. -/
def AllWithin (lo hi : Nat) (ops : List Op) : Prop :=
  ∀ op ∈ ops, op.Within lo hi

theorem allWithin_nil (lo hi : Nat) : AllWithin lo hi [] := nofun

theorem allWithin_append :
    AllWithin lo hi (first ++ second) ↔ AllWithin lo hi first ∧ AllWithin lo hi second :=
  forall_mem_append

theorem allWithin_cons :
    AllWithin lo hi (op :: ops) ↔ op.Within lo hi ∧ AllWithin lo hi ops :=
  forall_mem_cons

theorem AllWithin.mono {lo' hi' : Nat} (h : AllWithin lo hi ops)
    (hlo : lo' ≤ lo) (hhi : hi ≤ hi') : AllWithin lo' hi' ops := by
  intro op hop
  have hin := h op hop
  cases op with
  | program addr bytes => exact ⟨hlo.trans hin.1, hin.2.trans hhi⟩
  | erase addr size => exact ⟨hlo.trans hin.1, hin.2.trans hhi⟩

theorem Op.apply_of_within (h : op.Within lo hi) (f : Image)
    (ha : a < lo ∨ hi ≤ a) : op.apply f a = f a := by
  cases op with
  | program addr bytes =>
    obtain ⟨hlo, hhi⟩ := h
    have hout : ¬ (addr ≤ a ∧ a < addr + bytes.length) := by omega
    simp only [Op.apply, if_neg hout]
  | erase addr size =>
    obtain ⟨hlo, hhi⟩ := h
    have hout : ¬ (addr ≤ a ∧ a < addr + size) := by omega
    simp only [Op.apply, if_neg hout]

theorem Op.apply_erase_outside (f : Image) (ha : a < addr ∨ addr + size ≤ a) :
    (Op.erase addr size).apply f a = f a :=
  Op.apply_of_within (show (Op.erase addr size).Within addr (addr + size) from ⟨le_rfl, le_rfl⟩) f
    ha

section

variable (h : AllWithin lo hi ops)
include h

/-- Operations inside a range do not change a byte outside it. -/
theorem AllWithin.applyAll_eq (f : Image) (ha : a < lo ∨ hi ≤ a) : applyAll ops f a = f a := by
  induction ops generalizing f with
  | nil => rfl
  | cons op ops ih =>
    obtain ⟨hop, hops⟩ := allWithin_cons.mp h
    rw [applyAll_cons, ih hops, Op.apply_of_within hop f ha]

theorem AllWithin.read_eq (f : Image) (hout : addr + len ≤ lo ∨ hi ≤ addr) :
    read (applyAll ops f) addr len = read f addr len := by
  apply read_congr
  intro a hlo hhi
  exact h.applyAll_eq f (by omega)

theorem AllWithin.holds (hf : Holds f addr bytes)
    (hout : addr + bytes.length ≤ lo ∨ hi ≤ addr) : Holds (applyAll ops f) addr bytes := by
  unfold Holds
  rw [h.read_eq f hout]
  exact hf

theorem AllWithin.erased (hf : Erased f addr len) (hout : addr + len ≤ lo ∨ hi ≤ addr) :
    Erased (applyAll ops f) addr len := by
  intro a hlo hhi
  rw [h.applyAll_eq f (by omega)]
  exact hf a hlo hhi

end

/-! ## Erasing a range -/

/-- The operations leave a range erased and change nothing outside it. -/
structure Clears (f : Image) (addr len : Nat) (ops : List Op) : Prop where
  within : AllWithin addr (addr + len) ops
  erased : Erased (applyAll ops f) addr len

theorem Erased.clears (h : Erased f addr len) : Clears f addr len [] :=
  ⟨allWithin_nil _ _, h⟩

theorem clears_erase (f : Image) (addr len : Nat) : Clears f addr len [.erase addr len] := by
  refine ⟨allWithin_cons.mpr ⟨⟨le_rfl, le_rfl⟩, allWithin_nil _ _⟩, fun a hlo hhi => ?_⟩
  exact if_pos ⟨hlo, hhi⟩

/-- The front of a range, then the rest. -/
theorem Clears.append
    (h : Clears f addr m first) (h' : Clears (applyAll first f) (addr + m) n second) :
    Clears f addr (m + n) (first ++ second) := by
  refine ⟨allWithin_append.mpr
    ⟨h.within.mono le_rfl (by omega), h'.within.mono (by omega) (by omega)⟩, ?_⟩
  rw [applyAll_append, erased_add]
  exact ⟨h'.within.erased h.erased (.inl le_rfl), h'.erased⟩

/-- The rest of a range, then its front. -/
theorem Clears.append_front
    (h : Clears f (addr + m) n first) (h' : Clears (applyAll first f) addr m second) :
    Clears f addr (m + n) (first ++ second) := by
  refine ⟨allWithin_append.mpr
    ⟨h.within.mono (by omega) (by omega), h'.within.mono le_rfl (by omega)⟩, ?_⟩
  rw [applyAll_append, erased_add]
  exact ⟨h'.erased, h'.within.erased h.erased (.inr le_rfl)⟩

/-- A range that is erased unless it is erased already. -/
theorem Clears.unless_erased (h : Clears f addr len ops)
    {done : Bool} (hdone : done = true → Erased f addr len) :
    Clears f addr len (if done then [] else ops) := by
  cases done with
  | true => exact (hdone rfl).clears
  | false => exact h

/-! ## Erasing a set of addresses -/

/-- The operations leave a set of addresses erased and change nothing outside it; each of them
works on a range of the set. -/
structure ClearsAll (f : Image) (R : Set Nat) (ops : List Op) : Prop where
  within : ∀ op ∈ ops, ∃ lo hi, lo < hi ∧ op.Within lo hi ∧ Set.Ico lo hi ⊆ R
  erased : ∀ a ∈ R, applyAll ops f a = 0xff

theorem clearsAll_nil (f : Image) : ClearsAll f ∅ [] := ⟨nofun, nofun⟩

theorem ClearsAll.applyAll_eq {R : Set Nat} (h : ClearsAll f R ops)
    (g : Image) (ha : a ∉ R) : applyAll ops g a = g a := by
  have hwithin := h.within
  clear h
  induction ops generalizing g with
  | nil => rfl
  | cons op ops ih =>
    obtain ⟨hop, hops⟩ := forall_mem_cons.mp hwithin
    obtain ⟨lo, hi, -, hin, hsub⟩ := hop
    have hout : a < lo ∨ hi ≤ a := by
      by_contra hmem
      rw [not_or, not_lt, not_le] at hmem
      exact ha (hsub hmem)
    rw [applyAll_cons, ih _ hops, Op.apply_of_within hin g hout]

theorem ClearsAll.append {R R' : Set Nat}
    (h : ClearsAll f R first) (h' : ClearsAll (applyAll first f) R' second) :
    ClearsAll f (R ∪ R') (first ++ second) := by
  refine ⟨forall_mem_append.mpr ⟨fun op hop => ?_, fun op hop => ?_⟩, fun a ha => ?_⟩
  · obtain ⟨lo, hi, hlt, hin, hsub⟩ := h.within op hop
    exact ⟨lo, hi, hlt, hin, hsub.trans Set.subset_union_left⟩
  · obtain ⟨lo, hi, hlt, hin, hsub⟩ := h'.within op hop
    exact ⟨lo, hi, hlt, hin, hsub.trans Set.subset_union_right⟩
  · rw [applyAll_append]
    by_cases hlast : a ∈ R'
    · exact h'.erased a hlast
    · rw [h'.applyAll_eq _ hlast]
      exact h.erased a (ha.resolve_right hlast)

/-- The set may be a range. -/
theorem Clears.clearsAll (h : Clears f addr len ops)
    (hlen : 0 < len) : ClearsAll f (Set.Ico addr (addr + len)) ops :=
  ⟨fun op hop => ⟨addr, addr + len, Nat.lt_add_of_pos_right hlen, h.within op hop, subset_rfl⟩,
    fun a ha => h.erased a ha.1 ha.2⟩

theorem ClearsAll.clears
    (h : ClearsAll f (Set.Ico addr (addr + len)) ops) : Clears f addr len ops := by
  refine ⟨fun op hop => ?_, fun a hlo hhi => h.erased a ⟨hlo, hhi⟩⟩
  obtain ⟨lo, hi, hlt, hin, hsub⟩ := h.within op hop
  obtain ⟨hlo, hhi⟩ := (Set.Ico_subset_Ico_iff hlt).mp hsub
  have hone : AllWithin lo hi [op] := allWithin_cons.mpr ⟨hin, allWithin_nil lo hi⟩
  exact hone.mono hlo hhi op mem_cons_self

/-! ## Programming erased flash -/

theorem and_erased (b : UInt8) : (0xff : UInt8) &&& b = b := by
  have hall : (0xff : UInt8) = -1 := rfl
  rw [hall, UInt8.neg_one_and]

/-- Erased flash takes any bytes. -/
theorem Erased.program
    (h : Erased f addr bytes.length) : Holds ((Op.program addr bytes).apply f) addr bytes := by
  rw [holds_iff_getD]
  intro i hi
  have hin : addr ≤ addr + i ∧ addr + i < addr + bytes.length := by omega
  simp only [Op.apply, if_pos hin, h (addr + i) hin.1 hin.2, and_erased]
  simp [getD, hi]

/-- Programming one byte again. -/
theorem Holds.program_byte (h : Holds f addr bytes)
    (b : UInt8) :
    Holds ((Op.program (addr + i) [b]).apply f) addr (bytes.set i (bytes.getD i 0 &&& b)) := by
  rw [holds_iff_getD, length_set]
  intro j hj
  have hbyte := h.getD hj 0
  simp only [Op.apply, length_singleton]
  by_cases heq : j = i
  · subst heq
    rw [if_pos (by omega), hbyte, Nat.sub_self]
    simp [hj]
  · rw [if_neg (by omega), hbyte]
    simp only [List.getD, List.getElem?_set_ne (Ne.symm heq)]

/-- Consecutive pieces, programmed one by one. -/
def programs : Nat → List (List UInt8) → List Op
  | _, [] => []
  | addr, piece :: rest => .program addr piece :: programs (addr + piece.length) rest

@[simp]
theorem length_programs (addr : Nat) (pieces : List (List UInt8)) :
    (programs addr pieces).length = pieces.length := by
  induction pieces generalizing addr with
  | nil => rfl
  | cons piece rest ih => simp [programs, ih]

theorem programs_append (addr : Nat) (first second : List (List UInt8)) :
    programs addr (first ++ second) =
      programs addr first ++ programs (addr + first.flatten.length) second := by
  induction first generalizing addr with
  | nil => rfl
  | cons piece rest ih => simp [programs, ih, add_assoc]

/-- Power lost behind some of the pieces leaves just these pieces programmed. -/
theorem take_programs (addr k : Nat) (pieces : List (List UInt8)) :
    (programs addr pieces).take k = programs addr (pieces.take k) := by
  induction pieces generalizing addr k with
  | nil => simp [programs]
  | cons piece rest ih =>
    cases k with
    | zero => rfl
    | succ k => simp [programs, ih]

theorem allWithin_programs (addr : Nat) (pieces : List (List UInt8)) :
    AllWithin addr (addr + pieces.flatten.length) (programs addr pieces) := by
  induction pieces generalizing addr with
  | nil => exact allWithin_nil _ _
  | cons piece rest ih =>
    rw [programs, allWithin_cons, flatten_cons, length_append]
    refine ⟨⟨le_rfl, by omega⟩, (ih (addr + piece.length)).mono (by omega) (by omega)⟩

theorem Erased.programs {pieces : List (List UInt8)}
    (h : Erased f addr pieces.flatten.length) :
    Holds (applyAll (programs addr pieces) f) addr pieces.flatten := by
  induction pieces generalizing f addr with
  | nil => exact holds_nil _ _
  | cons piece rest ih =>
    rw [flatten_cons, length_append, erased_add] at h
    have hone : (Op.program addr piece).Within addr (addr + piece.length) := ⟨le_rfl, le_rfl⟩
    have hone' : AllWithin addr (addr + piece.length) [Op.program addr piece] :=
      allWithin_cons.mpr ⟨hone, allWithin_nil _ _⟩
    have hrest := hone'.erased h.2 (.inr le_rfl)
    rw [NorFlash.programs, applyAll_cons, flatten_cons, holds_append]
    exact ⟨(allWithin_programs _ _).holds h.1.program (.inl le_rfl), ih hrest⟩

/-- A byte string cut into pieces of at most `size` bytes; `fuel` bounds their
number. -/
def pieces (size : Nat) : Nat → List UInt8 → List (List UInt8)
  | 0, _ => []
  | _ + 1, [] => []
  | fuel + 1, bytes => bytes.take size :: pieces size fuel (bytes.drop size)

theorem flatten_pieces (hsize : 0 < size) {fuel : Nat}
    (hfuel : bytes.length ≤ fuel) : (pieces size fuel bytes).flatten = bytes := by
  induction fuel generalizing bytes with
  | zero => exact (length_eq_zero_iff.mp (le_zero.mp hfuel)).symm
  | succ fuel ih =>
    cases bytes with
    | nil => rfl
    | cons b rest =>
      have hrest : ((b :: rest).drop size).length ≤ fuel := by
        simp only [length_drop, length_cons] at hfuel ⊢
        omega
      rw [pieces, flatten_cons, ih hrest, take_append_drop]
      · nofun

/-! ## Programming only what is erased -/

/-- The operation programs only bytes that are erased. -/
def Op.Blank (f : Image) : Op → Prop
  | .program addr bytes => Erased f addr bytes.length
  | .erase _ _ => True

/-- Each operation of a list does so, at its time. -/
def AllBlank : Image → List Op → Prop
  | _, [] => True
  | f, op :: ops => op.Blank f ∧ AllBlank (op.apply f) ops

theorem allBlank_append :
    AllBlank f (first ++ second) ↔ AllBlank f first ∧ AllBlank (applyAll first f) second := by
  induction first generalizing f with
  | nil => exact (true_and _).symm.to_iff
  | cons op ops ih => simp only [cons_append, AllBlank, applyAll_cons, ih, and_assoc]

/-- The operations only erase. -/
def OnlyErases (ops : List Op) : Prop :=
  ∀ op ∈ ops, ∃ addr size, op = .erase addr size

theorem onlyErases_nil : OnlyErases [] := nofun

theorem onlyErases_cons (h : OnlyErases ops) :
    OnlyErases (.erase addr size :: ops) :=
  forall_mem_cons.mpr ⟨⟨addr, size, rfl⟩, h⟩

theorem OnlyErases.append (h : OnlyErases first) (h' : OnlyErases second) :
    OnlyErases (first ++ second) :=
  forall_mem_append.mpr ⟨h, h'⟩

/-- The operation programs this byte with this value. -/
def Op.Programs (a : Nat) (b : UInt8) : Op → Prop
  | .program addr bytes => addr ≤ a ∧ bytes[a - addr]? = some b
  | .erase _ _ => False

/-- The operation erases this byte. -/
def Op.Erases (a : Nat) : Op → Prop
  | .program _ _ => False
  | .erase addr size => addr ≤ a ∧ a < addr + size

/-- A byte that was programmed with a value that counts is erased before it is programmed again. -/
def ErasedBetween (counts : UInt8 → Prop) (ops : List Op) : Prop :=
  ∀ before first between second after, ops = before ++ first :: (between ++ second :: after) →
    ∀ a b b', first.Programs a b → counts b → second.Programs a b' → ∃ op ∈ between, op.Erases a

/-- Only erasing sets bits. -/
theorem Op.erased_of_apply (h : op.apply f a = 0xff)
    (hkept : ¬ op.Erases a) : f a = 0xff := by
  cases op with
  | program addr bytes =>
    simp only [Op.apply] at h
    split at h
    · exact (UInt8.and_eq_neg_one_iff.mp h).1
    · exact h
  | erase addr size =>
    have hout : ¬ (addr ≤ a ∧ a < addr + size) := hkept
    simp only [Op.apply, if_neg hout] at h
    exact h

theorem erased_of_applyAll (h : applyAll ops f a = 0xff)
    (hkept : ∀ op ∈ ops, ¬ op.Erases a) : f a = 0xff := by
  induction ops generalizing f with
  | nil => exact h
  | cons op ops ih =>
    obtain ⟨hop, hops⟩ := forall_mem_cons.mp hkept
    exact op.erased_of_apply (ih h hops) hop

theorem Op.Blank.of_programs {b : UInt8} (h : op.Blank f)
    (ha : op.Programs a b) : f a = 0xff ∧ op.apply f a = b := by
  cases op with
  | program addr bytes =>
    obtain ⟨hlo, hbyte⟩ := ha
    obtain ⟨hlt, -⟩ := List.getElem?_eq_some_iff.mp hbyte
    have herased := h a hlo (by omega)
    have hin : addr ≤ a ∧ a < addr + bytes.length := by omega
    refine ⟨herased, ?_⟩
    simp only [Op.apply, if_pos hin, herased, and_erased, getD, hbyte, Option.getD_some]
  | erase addr size => exact ha.elim

/-- What is programmed only when it is erased has been erased since it was last programmed, unless
that left it as it was. -/
theorem AllBlank.erasedBetween (h : AllBlank f ops) :
    ErasedBetween (· ≠ 0xff) ops := by
  intro before first between second after heq a b b' hfirst hb hsecond
  rw [heq, allBlank_append] at h
  obtain ⟨-, hblank, h⟩ := h
  obtain ⟨-, hblank', -⟩ := allBlank_append.mp h
  obtain ⟨-, hbyte⟩ := hblank.of_programs hfirst
  obtain ⟨herased, -⟩ := hblank'.of_programs hsecond
  by_contra hnone
  refine hb (hbyte.symm.trans (erased_of_applyAll herased fun op hop hin => hnone ⟨op, hop, hin⟩))

/-! ## Power loss -/

/-- The property holds before, between and behind the operations. -/
def Along (P : Image → Prop) : Image → List Op → Prop
  | f, [] => P f
  | f, op :: ops => P f ∧ Along P (op.apply f) ops

section

variable {P : Image → Prop}

theorem Along.head (h : Along P f ops) : P f := by
  cases ops with
  | nil => exact h
  | cons op ops => exact h.1

theorem along_append :
    Along P f (first ++ second) ↔ Along P f first ∧ Along P (applyAll first f) second := by
  induction first generalizing f with
  | nil =>
    constructor
    · intro h
      exact ⟨h.head, h⟩
    · rintro ⟨-, h⟩
      exact h
  | cons op ops ih =>
    simp only [cons_append, Along, applyAll_cons, ih, and_assoc]

/-- Power lost behind any number of operations leaves a flash with the property. -/
theorem Along.take (h : Along P f ops) (k : Nat) : P (applyAll (ops.take k) f) := by
  induction ops generalizing f k with
  | nil =>
    rw [take_nil]
    exact h
  | cons op ops ih =>
    cases k with
    | zero => exact h.1
    | succ k => exact ih h.2 k

theorem Along.last (h : Along P f ops) : P (applyAll ops f) := by
  have hall := h.take ops.length
  rwa [take_length] at hall

end

theorem Along.mono {P Q : Image → Prop} (h : Along P f ops)
    (hPQ : ∀ f, P f → Q f) : Along Q f ops := by
  induction ops generalizing f with
  | nil => exact hPQ f h
  | cons op ops ih => exact ⟨hPQ f h.1, ih h.2⟩

/-- Operations inside a range keep what is stable under changes of that range. -/
theorem AllWithin.along {P : Image → Prop}
    (h : AllWithin lo hi ops) (hf : P f)
    (hstable : ∀ f g : Image, (∀ a, a < lo ∨ hi ≤ a → g a = f a) → P f → P g) : Along P f ops := by
  induction ops generalizing f with
  | nil => exact hf
  | cons op ops ih =>
    obtain ⟨hop, hops⟩ := allWithin_cons.mp h
    refine ⟨hf, ih hops (hstable f _ ?_ hf)⟩
    intro a ha
    exact Op.apply_of_within hop f ha

end NorFlash
