/-
# Copying into a flash, with interruptions

Some content is copied into a range of a flash, piece by piece from the front. A record
beside the flash says how far this has come, so that the copying can go on after an
interruption: `Progress` is what such a record can say, and `Progress.Means` what that is
then worth.

A record may lag behind the flash. What it says stays true as long as the bytes it counts
are in place, whatever stands behind them (`Progress.Behind`). To go on from there the rest
is erased (`Copied.clear`); erased flash is then programmed piece by piece
(`Ready.program`).
-/

import SpeakerFirmware.Lib.NorFlash

namespace ResumableCopy

open NorFlash

/-- Some content and the range of the flash it is copied to. -/
structure Target where
  base : Nat
  room : Nat
  content : List UInt8
  fits : content.length ≤ room

variable {t : Target} {f g : Image} {n : Nat}

/-- The first bytes are in place. -/
structure Copied (t : Target) (f : Image) (n : Nat) : Prop where
  le : n ≤ t.content.length
  holds : Holds f t.base (t.content.take n)

/-- The first bytes are in place, and the rest of the range is erased. -/
structure Ready (t : Target) (f : Image) (n : Nat) : Prop extends Copied t f n where
  erased : Erased f (t.base + n) (t.room - n)

theorem copied_zero (t : Target) (f : Image) : Copied t f 0 :=
  ⟨Nat.zero_le _, holds_nil f t.base⟩

theorem ready_zero (h : Erased f t.base t.room) : Ready t f 0 :=
  ⟨copied_zero t f, h⟩

theorem Copied.congr (h : Copied t f n) (heq : ∀ a, a < t.base + n → g a = f a) : Copied t g n := by
  refine ⟨h.le, ?_⟩
  have hlen : (t.content.take n).length = n := List.length_take_of_le h.le
  have hread : read g t.base n = read f t.base n := read_congr fun a _ ha => heq a ha
  have hholds := h.holds
  rw [Holds, hlen] at hholds ⊢
  exact hread.trans hholds

/-- Erasing everything behind what is in place. -/
theorem Copied.clear (h : Copied t f n) {ops : List Op}
    (hclears : Clears f (t.base + n) (t.room - n) ops) : Ready t (applyAll ops f) n :=
  ⟨h.congr fun _ ha => hclears.within.applyAll_eq f (.inl ha), hclears.erased⟩

section

variable (h : Ready t f n) {len : Nat} (hlen : n + len ≤ t.content.length)
include h hlen

/-- The next bytes find the flash erased. -/
theorem Ready.erased_next : Erased f (t.base + n) len :=
  h.erased.mono le_rfl (by have := t.fits; omega)

/-- Programming the next bytes. -/
theorem Ready.program
    {pieces : List (List UInt8)} (hpieces : pieces.flatten = (t.content.drop n).take len) :
    Ready t (applyAll (programs (t.base + n) pieces) f) (n + len) := by
  have hcount : pieces.flatten.length = len := by
    rw [hpieces, List.length_take, List.length_drop]
    omega
  have hwithin := allWithin_programs (t.base + n) pieces
  rw [hcount] at hwithin
  have hnext : Holds (applyAll (programs (t.base + n) pieces) f) (t.base + n) pieces.flatten :=
    Erased.programs (hcount ▸ h.erased_next hlen)
  have hfront : (t.content.take n).length = n := List.length_take_of_le h.le
  refine ⟨⟨hlen, ?_⟩, ?_⟩
  · rw [List.take_add, holds_append, hfront, ← hpieces]
    refine ⟨hwithin.holds h.holds (.inl ?_), hnext⟩
    rw [hfront]
  · refine hwithin.erased (h.erased.mono ?_ ?_) (.inr ?_)
    all_goals have := t.fits; omega

end

theorem Ready.complete (h : Ready t f t.content.length) : Holds f t.base t.content := by
  have hholds := h.holds
  rwa [List.take_length] at hholds

/-! ## What a record says -/

/-- What a record can say about the range: nothing, that it is erased, that so many bytes are in
place, that besides the rest is erased, or that everything is in place. -/
inductive Progress
  | unknown
  | blank
  | upTo (n : Nat)
  | ready (n : Nat)
  | complete
  deriving DecidableEq, Repr

/-- What it is worth. Copying goes on only from a sector boundary. -/
def Progress.Means (t : Target) (sector : Nat) (f : Image) : Progress → Prop
  | .unknown => True
  | .blank => Erased f t.base t.room
  | .upTo n => n % sector = 0 ∧ Copied t f n
  | .ready n => n % sector = 0 ∧ Ready t f n
  | .complete => Holds f t.base t.content

/-- Nothing is said about the bytes from `n` on. -/
def Progress.Behind (n : Nat) : Progress → Prop
  | .unknown => True
  | .upTo m => m ≤ n
  | .blank | .ready _ | .complete => False

theorem Progress.Behind.mono {p : Progress} {m : Nat} (h : p.Behind m) (hle : m ≤ n) :
    p.Behind n := by
  cases p with
  | unknown => trivial
  | upTo k => exact h.trans hle
  | blank | ready _ | complete => exact h.elim

/-- Then they may change. -/
theorem Progress.Means.congr {sector : Nat} {p : Progress} (h : p.Means t sector f)
    (hbehind : p.Behind n) (heq : ∀ a, a < t.base + n → g a = f a) : p.Means t sector g := by
  cases p with
  | unknown => trivial
  | upTo m => exact ⟨h.1, h.2.congr fun a ha => heq a (ha.trans_le (Nat.add_le_add_left hbehind _))⟩
  | blank | ready _ | complete => exact hbehind.elim

end ResumableCopy
