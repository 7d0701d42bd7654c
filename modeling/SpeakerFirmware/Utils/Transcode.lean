/-
# Decoding UTF-8

`utf8_to_unicode` takes a text apart into sequences of one, two and three bytes. It keeps the marker
bits of the first byte in its scalar value until the value is stored, so that the value it compares
with the smallest one of a sequence, and with the surrogates, is always larger than both. Overlong
sequences and surrogates are accepted.

A text is made of `Piece`s, the sequences the decoder accepts. What well-formed text is, is said by
the encoder of the standard library.
-/

import Mathlib.Data.Nat.Bitwise
import Mathlib.Data.List.Basic

namespace SpeakerFirmware.Utils.Transcode

open List UInt8 Option Nat

variable {v : Nat}

/-! ## The functions -/

/-- `utf8_to_unicode`; without a result it is `-1`. -/
def utf8ToUnicode : List UInt8 → Option (List UInt16)
  | [] => some []
  | c0 :: utf8 =>
    if c0 < 0x80 then (utf8ToUnicode utf8).map (c0.toUInt16 :: ·)
    else if c0 &&& 0xc0 = 0x80 then none
    else
      match utf8 with
      | [] => none
      | c1 :: utf8 =>
        if c1 &&& 0xc0 ≠ 0x80 then none
        else
          let scalar : UInt32 := c0.toUInt32 <<< 6 ||| (c1 &&& 0x3f).toUInt32
          if c0 &&& 0x20 = 0 then
            if scalar ≠ 0 ∧ scalar < 0x80 then none
            else (utf8ToUnicode utf8).map ((scalar.toUInt16 &&& 0x7ff) :: ·)
          else
            match utf8 with
            | [] => none
            | c1 :: utf8 =>
              if c1 &&& 0xc0 ≠ 0x80 then none
              else
                let scalar := scalar <<< 6 ||| (c1 &&& 0x3f).toUInt32
                if c0 &&& 0x10 = 0 then
                  if scalar < 0x800 then none
                  else if scalar ≥ 0xd800 ∧ scalar < 0xe000 then none
                  else (utf8ToUnicode utf8).map ((scalar &&& 0xffff).toUInt16 :: ·)
                else none

def encodeUtf8 (widechar : UInt16) : List UInt8 :=
  if widechar &&& 0xf800 > 0 then
    [((0xe0 : UInt16) ||| widechar >>> 12).toUInt8,
      ((0x80 : UInt16) ||| (widechar >>> 6 &&& 0x3f)).toUInt8,
      ((0x80 : UInt16) ||| (widechar &&& 0x3f)).toUInt8]
  else if widechar &&& 0xff80 > 0 then
    [((0xc0 : UInt16) ||| widechar >>> 6).toUInt8,
      ((0x80 : UInt16) ||| (widechar &&& 0x3f)).toUInt8]
  else [widechar.toUInt8]

/-- The loop of `unicode_to_utf8`, with the size of the buffer and the bytes so far; without a
result it is `-1`. -/
def unicodeToUtf8Loop (buffersize : Nat) : Nat → List UInt16 → Option (List UInt8)
  | _, [] => some []
  | utf8Total, unicode :: units =>
    if unicode = 0 then some []
    else
      let bytes := encodeUtf8 unicode
      if utf8Total + bytes.length > buffersize then none
      else (unicodeToUtf8Loop buffersize (utf8Total + bytes.length) units).map (bytes ++ ·)

def unicodeToUtf8 (units : List UInt16) (buffersize : Nat) : Option (List UInt8) :=
  unicodeToUtf8Loop buffersize 0 units

/-! ## Pieces -/

/-- A sequence of one, two or three bytes, by the bits that are not markers. -/
inductive Piece
  | one (low : Fin 128)
  | two (high : Fin 32) (low : Fin 64)
  | three (high : Fin 16) (middle low : Fin 64)
  deriving DecidableEq, Repr

def Piece.value : Piece → Nat
  | one low => low
  | two high low => high * 64 + low
  | three high middle low => high * 4096 + middle * 64 + low

def Piece.bytes : Piece → List UInt8
  | one low => [.ofNat low]
  | two high low => [.ofNat (high + 192), .ofNat (low + 128)]
  | three high middle low => [.ofNat (high + 224), .ofNat (middle + 128), .ofNat (low + 128)]

def Piece.unit (piece : Piece) : UInt16 :=
  .ofNat piece.value

/-- The piece is the shortest one for its value. -/
def Piece.Shortest : Piece → Prop
  | one _ => True
  | two high low => 128 ≤ (two high low).value
  | three high middle low => 2048 ≤ (three high middle low).value

theorem Piece.value_lt (piece : Piece) : piece.value < 65536 := by
  cases piece <;> simp only [Piece.value] <;> omega

/-! ## Bits -/

section

/-- What holds of the 256 bytes holds of every byte. -/
theorem forall_byte {p : UInt8 → Prop} (h : ∀ n < 256, p (.ofNat n)) (c : UInt8) : p c := by
  have hc := h c.toNat c.toNat_lt
  rwa [UInt8.ofNat_toNat] at hc

theorem continuation_iff : ∀ c : UInt8, c &&& 0xc0 = 0x80 ↔ 128 ≤ c.toNat ∧ c.toNat < 192 := by
  apply forall_byte
  decide +kernel

/-- The first bytes of the sequences. -/
theorem lead_iff : ∀ c : UInt8,
    (¬ c < 0x80 ∧ ¬ c &&& 0xc0 = 0x80 ∧ c &&& 0x20 = 0 ↔ 192 ≤ c.toNat ∧ c.toNat < 224) ∧
      (¬ c < 0x80 ∧ ¬ c &&& 0xc0 = 0x80 ∧ ¬ c &&& 0x20 = 0 ∧ c &&& 0x10 = 0 ↔ 224 ≤ c.toNat ∧
        c.toNat < 240) := by
  apply forall_byte
  decide +kernel

theorem toNat_and_six (c : UInt8) : (c &&& 0x3f).toNat = c.toNat % 64 := by
  rw [UInt8.toNat_and]
  exact and_two_pow_sub_one_eq_mod c.toNat 6

/-- Shifting in six bits. -/
theorem shift_or (a : UInt32) (c : UInt8) (h : a.toNat < 2 ^ 26) :
    (a <<< 6 ||| (c &&& 0x3f).toUInt32).toNat = a.toNat * 64 + c.toNat % 64 := by
  have hlt : c.toNat % 64 < 2 ^ 6 := mod_lt _ (by decide)
  rw [UInt32.toNat_or, UInt32.toNat_shiftLeft, toNat_toUInt32, toNat_and_six,
    show (6 : UInt32).toNat % 32 = 6 from rfl,
    mod_eq_of_lt (by rw [shiftLeft_eq]; omega), ← shiftLeft_add_eq_or_of_lt hlt, shiftLeft_eq]

theorem toNat_scalar (c0 c1 : UInt8) :
    (c0.toUInt32 <<< 6 ||| (c1 &&& 0x3f).toUInt32).toNat = c0.toNat * 64 + c1.toNat % 64 := by
  have hc0 := c0.toNat_lt
  rw [shift_or _ _ (by rw [toNat_toUInt32]; omega), toNat_toUInt32]

theorem toNat_scalar_three (c0 c1 c2 : UInt8) :
    ((c0.toUInt32 <<< 6 ||| (c1 &&& 0x3f).toUInt32) <<< 6 ||| (c2 &&& 0x3f).toUInt32).toNat =
      (c0.toNat * 64 + c1.toNat % 64) * 64 + c2.toNat % 64 := by
  have hc0 := c0.toNat_lt
  rw [shift_or _ _ (by rw [toNat_scalar]; omega), toNat_scalar]

theorem toUInt16_and (scalar : UInt32) :
    scalar.toUInt16 &&& 0x7ff = .ofNat (scalar.toNat % 2048) := by
  apply UInt16.toNat_inj.mp
  rw [UInt16.toNat_and, UInt32.toNat_toUInt16, UInt16.toNat_ofNat',
    show (0x7ff : UInt16).toNat = 2 ^ 11 - 1 from rfl,
    and_two_pow_sub_one_eq_mod]
  omega

theorem and_toUInt16 (scalar : UInt32) :
    (scalar &&& 0xffff).toUInt16 = .ofNat (scalar.toNat % 65536) := by
  apply UInt16.toNat_inj.mp
  rw [UInt32.toNat_toUInt16, UInt32.toNat_and, UInt16.toNat_ofNat',
    show (0xffff : UInt32).toNat = 2 ^ 16 - 1 from rfl,
    and_two_pow_sub_one_eq_mod]

end

/-! ## Decoding pieces -/

section

variable {c0 c1 c2 : UInt8} {utf8 : List UInt8}

theorem decode_one (h : c0.toNat < 128) :
    utf8ToUnicode (c0 :: utf8) = (utf8ToUnicode utf8).map (UInt16.ofNat c0.toNat :: ·) := by
  have hlt : c0 < 0x80 := lt_iff_toNat_lt.mpr h
  have hunit : c0.toUInt16 = .ofNat c0.toNat := by
    apply UInt16.toNat_inj.mp
    rw [toNat_toUInt16, UInt16.toNat_ofNat', mod_eq_of_lt (by omega)]
  rw [utf8ToUnicode.eq_def]
  dsimp only
  rw [if_pos hlt, hunit]

/-- The check for an overlong sequence of two bytes never fails. -/
theorem decode_two (h0 : 192 ≤ c0.toNat ∧ c0.toNat < 224) (h1 : 128 ≤ c1.toNat ∧ c1.toNat < 192) :
    utf8ToUnicode (c0 :: c1 :: utf8) =
      (utf8ToUnicode utf8).map (UInt16.ofNat ((c0.toNat - 192) * 64 + (c1.toNat - 128)) :: ·) := by
  obtain ⟨hascii, hcont, hbit⟩ := (lead_iff c0).1.mpr h0
  have hscalar := toNat_scalar c0 c1
  have hlarge : ¬ ((c0.toUInt32 <<< 6 ||| (c1 &&& 0x3f).toUInt32) ≠ 0 ∧
      (c0.toUInt32 <<< 6 ||| (c1 &&& 0x3f).toUInt32) < 0x80) := by
    rintro ⟨-, hlt⟩
    have hlt : (c0.toUInt32 <<< 6 ||| (c1 &&& 0x3f).toUInt32).toNat < 128 :=
      UInt32.lt_iff_toNat_lt.mp hlt
    omega
  have hvalue : (c0.toNat * 64 + c1.toNat % 64) % 2048 = (c0.toNat - 192) * 64 + (c1.toNat - 128) :=
    by omega
  rw [utf8ToUnicode.eq_def]
  dsimp only
  rw [if_neg hascii, if_neg hcont, if_neg (not_not.mpr ((continuation_iff c1).mpr h1)), if_pos hbit,
    if_neg hlarge, toUInt16_and, hscalar,
    hvalue]

/-- Neither does the one for three bytes, nor the one for surrogates. -/
theorem decode_three (h0 : 224 ≤ c0.toNat ∧ c0.toNat < 240) (h1 : 128 ≤ c1.toNat ∧ c1.toNat < 192)
    (h2 : 128 ≤ c2.toNat ∧ c2.toNat < 192) :
    utf8ToUnicode (c0 :: c1 :: c2 :: utf8) = (utf8ToUnicode utf8).map
      (UInt16.ofNat ((c0.toNat - 224) * 4096 + (c1.toNat - 128) * 64 + (c2.toNat - 128)) :: ·) := by
  obtain ⟨hascii, hcont, hbit, hbit'⟩ := (lead_iff c0).2.mpr h0
  have hscalar := toNat_scalar_three c0 c1 c2
  generalize hs : (c0.toUInt32 <<< 6 ||| (c1 &&& 0x3f).toUInt32) <<< 6 ||| (c2 &&& 0x3f).toUInt32 =
      scalar at hscalar
  have hlarge : ¬ scalar < 0x800 := by
    intro hlt
    have hlt : scalar.toNat < 2048 := UInt32.lt_iff_toNat_lt.mp hlt
    omega
  have hsurrogate : ¬ (scalar ≥ 0xd800 ∧ scalar < 0xe000) := by
    rintro ⟨-, hlt⟩
    have hlt : scalar.toNat < 0xe000 := UInt32.lt_iff_toNat_lt.mp hlt
    omega
  have hvalue : ((c0.toNat * 64 + c1.toNat % 64) * 64 + c2.toNat % 64) % 65536 =
      (c0.toNat - 224) * 4096 + (c1.toNat - 128) * 64 + (c2.toNat - 128) := by omega
  rw [utf8ToUnicode.eq_def]
  dsimp only
  rw [if_neg hascii, if_neg hcont, if_neg (not_not.mpr ((continuation_iff c1).mpr h1)), if_neg hbit,
    if_neg (not_not.mpr ((continuation_iff c2).mpr h2)), hs, if_pos hbit', if_neg hlarge,
      if_neg hsurrogate,
    and_toUInt16, hscalar, hvalue]

theorem toNat_byte (n : Nat) (hn : n < 256) : (ofNat n).toNat = n := toNat_ofNat_of_lt' hn

theorem decode_piece (piece : Piece) (utf8 : List UInt8) :
    utf8ToUnicode (piece.bytes ++ utf8) = (utf8ToUnicode utf8).map (piece.unit :: ·) := by
  cases piece with
  | one low =>
    have hlow := toNat_byte low (by omega)
    rw [Piece.bytes, singleton_append, decode_one (by omega), hlow]
    rfl
  | two high low =>
    have hhigh := toNat_byte (high + 192) (by omega)
    have hlow := toNat_byte (low + 128) (by omega)
    rw [Piece.bytes, cons_append, singleton_append, decode_two (by omega) (by omega), hhigh, hlow,
      Nat.add_sub_cancel, Nat.add_sub_cancel]
    rfl
  | three high middle low =>
    have hhigh := toNat_byte (high + 224) (by omega)
    have hmiddle := toNat_byte (middle + 128) (by omega)
    have hlow := toNat_byte (low + 128) (by omega)
    rw [Piece.bytes, cons_append, cons_append, singleton_append,
      decode_three (by omega) (by omega) (by omega), hhigh, hmiddle, hlow, Nat.add_sub_cancel,
        Nat.add_sub_cancel,
      Nat.add_sub_cancel]
    rfl

theorem decode_pieces (pieces : List Piece) :
    utf8ToUnicode (pieces.flatMap Piece.bytes) = some (pieces.map Piece.unit) := by
  induction pieces with
  | nil => rfl
  | cons piece pieces ih => rw [flatMap_cons, decode_piece, ih, map_cons, map_some]

theorem ofNat_sub_add {c : UInt8} {n : Nat} (h : n ≤ c.toNat) :
    UInt8.ofNat (c.toNat - n + n) = c := by
  rw [Nat.sub_add_cancel h, UInt8.ofNat_toNat]

/-- Accepted text starts with a piece. -/
theorem exists_piece (h : (utf8ToUnicode (c0 :: utf8)).isSome) :
    ∃ piece rest, c0 :: utf8 = Piece.bytes piece ++ rest ∧ (utf8ToUnicode rest).isSome := by
  rw [utf8ToUnicode.eq_def] at h
  dsimp only at h
  split at h
  · rename_i hascii
    rw [isSome_map] at h
    have hlt : c0.toNat < 128 := lt_iff_toNat_lt.mp hascii
    refine ⟨.one ⟨c0.toNat, hlt⟩, utf8, ?_, h⟩
    rw [Piece.bytes, UInt8.ofNat_toNat, singleton_append]
  · rename_i hascii
    split at h
    · cases h
    · rename_i hcont
      split at h
      · cases h
      · rename_i c1 utf8
        split at h
        · cases h
        · rename_i hcont1
          have h1 := (continuation_iff c1).mp (not_not.mp hcont1)
          split at h
          · rename_i hbit
            have h0 := (lead_iff c0).1.mp ⟨hascii, hcont, hbit⟩
            split at h
            · cases h
            · rw [isSome_map] at h
              refine ⟨.two ⟨c0.toNat - 192, by omega⟩ ⟨c1.toNat - 128, by omega⟩, utf8, ?_, h⟩
              rw [Piece.bytes, ofNat_sub_add h0.1, ofNat_sub_add h1.1]
              rfl
          · rename_i hbit
            split at h
            · cases h
            · rename_i c2 utf8
              split at h
              · cases h
              · rename_i hcont2
                have h2 := (continuation_iff c2).mp (not_not.mp hcont2)
                split at h
                · rename_i hbit'
                  have h0 := (lead_iff c0).2.mp ⟨hascii, hcont, hbit, hbit'⟩
                  split at h
                  · cases h
                  · split at h
                    · cases h
                    · rw [isSome_map] at h
                      refine ⟨.three ⟨c0.toNat - 224, by omega⟩ ⟨c1.toNat - 128, by omega⟩
                        ⟨c2.toNat - 128, by omega⟩, utf8, ?_, h⟩
                      rw [Piece.bytes, ofNat_sub_add h0.1, ofNat_sub_add h1.1, ofNat_sub_add h2.1]
                      rfl
                · cases h

theorem Piece.length_bytes_pos (piece : Piece) : 0 < piece.bytes.length := by
  cases piece <;> exact succ_pos _

/-- The text that is accepted is the one made of pieces. -/
theorem exists_pieces {utf8 : List UInt8} (h : (utf8ToUnicode utf8).isSome) :
    ∃ pieces : List Piece, utf8 = pieces.flatMap Piece.bytes := by
  induction hlen : utf8.length using Nat.strongRecOn generalizing utf8 with
  | ind n ih =>
    cases utf8 with
    | nil => exact ⟨[], rfl⟩
    | cons c0 utf8 =>
      obtain ⟨piece, rest, heq, hrest⟩ := exists_piece h
      have hpos := piece.length_bytes_pos
      have hshorter : rest.length < n := by
        rw [← hlen, heq, length_append]
        omega
      obtain ⟨pieces, rfl⟩ := ih rest.length hshorter hrest rfl
      exact ⟨piece :: pieces, heq⟩

end

/-! ## Encoding pieces -/

section

/-- The upper bits of a unit are zero if the unit is small. -/
theorem and_upper_eq_zero {x k m : Nat} (hx : x < 2 ^ 16) (hk : k ≤ 16)
    (hm : m = (2 ^ (16 - k) - 1) * 2 ^ k) :
    x &&& m = 0 ↔ x < 2 ^ k := by
  have hpow : 2 ^ (16 - k) * 2 ^ k = 2 ^ 16 := by rw [← Nat.pow_add, Nat.sub_add_cancel hk]
  have hdiv : (x &&& m) / 2 ^ k = x / 2 ^ k := by
    have hlt : x / 2 ^ k < 2 ^ (16 - k) := by
      rw [Nat.div_lt_iff_lt_mul (Nat.two_pow_pos k), hpow]
      exact hx
    rw [Nat.and_div_two_pow, hm, Nat.mul_div_cancel _ (Nat.two_pow_pos k),
      Nat.and_two_pow_sub_one_eq_mod,
      Nat.mod_eq_of_lt hlt]
  have hmod : (x &&& m) % 2 ^ k = 0 := by rw [and_mod_two_pow, hm, mul_mod_left, and_zero]
  have hsum := div_add_mod (x &&& m) (2 ^ k)
  rw [hdiv, hmod, Nat.add_zero] at hsum
  rw [← hsum, Nat.mul_eq_zero, Nat.div_eq_zero_iff]
  simp

theorem toUInt8_or {w : UInt16} {a k : Nat} (hw : w.toNat < 2 ^ k) {marker : UInt16}
    (hmarker : marker.toNat = 2 ^ k * a) :
    (marker ||| w).toUInt8 = .ofNat (w.toNat + 2 ^ k * a) := by
  apply UInt8.toNat_inj.mp
  rw [UInt16.toNat_toUInt8, UInt16.toNat_or, hmarker, ← two_pow_add_eq_or_of_lt hw,
    UInt8.toNat_ofNat',
    add_comm]

/-- `encode_utf8` in numbers. -/
theorem encodeUtf8_ofNat (hv : v < 65536) : encodeUtf8 (.ofNat v) =
    if 2048 ≤ v then [.ofNat (v / 4096 + 224), .ofNat (v / 64 % 64 + 128), .ofNat (v % 64 + 128)]
    else if 128 ≤ v then [.ofNat (v / 64 + 192), .ofNat (v % 64 + 128)]
    else [.ofNat v] := by
  generalize hw : UInt16.ofNat v = w
  have hwv : w.toNat = v := by rw [← hw, UInt16.toNat_ofNat_of_lt' hv]
  have hpos : ∀ m : UInt16, w &&& m > 0 ↔ ¬ v &&& m.toNat = 0 := by
    intro m
    rw [gt_iff_lt, UInt16.lt_iff_toNat_lt, UInt16.toNat_and, hwv]
    exact Nat.pos_iff_ne_zero
  have hlow : (w &&& 0x3f).toNat = v % 64 := by
    rw [UInt16.toNat_and, hwv]
    exact and_two_pow_sub_one_eq_mod v 6
  have hshift : (w >>> 6).toNat = v / 64 := by
    rw [UInt16.toNat_shiftRight, hwv]
    exact shiftRight_eq_div_pow v 6
  have hmiddle : (w >>> 6 &&& 0x3f).toNat = v / 64 % 64 := by
    rw [UInt16.toNat_and, hshift]
    exact and_two_pow_sub_one_eq_mod (v / 64) 6
  have hhigh : (w >>> 12).toNat = v / 4096 := by
    rw [UInt16.toNat_shiftRight, hwv]
    exact shiftRight_eq_div_pow v 12
  have hbyte : ∀ u : UInt16, u.toNat < 64 →
      ((0x80 : UInt16) ||| u).toUInt8 = .ofNat (u.toNat + 128) :=
    fun u hu => toUInt8_or (k := 6) (a := 2) hu rfl
  have hthree : w &&& 0xf800 > 0 ↔ 2048 ≤ v := by
    have hupper : v &&& 0xf800 = 0 ↔ v < 2048 := and_upper_eq_zero (k := 11) hv (by decide) rfl
    rw [hpos, ← not_lt]
    exact not_congr hupper
  have htwo : w &&& 0xff80 > 0 ↔ 128 ≤ v := by
    have hupper : v &&& 0xff80 = 0 ↔ v < 128 := and_upper_eq_zero (k := 7) hv (by decide) rfl
    rw [hpos, ← not_lt]
    exact not_congr hupper
  rw [encodeUtf8]
  simp only [hthree, htwo]
  split
  · have hlead := toUInt8_or (k := 4) (a := 14) (show (w >>> 12).toNat < 2 ^ 4 by omega)
      (show (0xe0 : UInt16).toNat = 2 ^ 4 * 14 from rfl)
    rw [hlead, hbyte _ (by omega), hbyte _ (by omega), hhigh, hmiddle, hlow,
      show 2 ^ 4 * 14 = 224 from rfl]
  · split
    · have hlead := toUInt8_or (k := 5) (a := 6) (show (w >>> 6).toNat < 2 ^ 5 by omega)
        (show (0xc0 : UInt16).toNat = 2 ^ 5 * 6 from rfl)
      rw [hlead, hbyte _ (by omega), hshift, hlow, show 2 ^ 5 * 6 = 192 from rfl]
    · rw [← hwv, ← UInt16.ofNat_toNat (x := w)]
      rfl

/-- The piece that a value is encoded as. -/
def pieceOf (v : Nat) : Piece :=
  if h : v < 128 then .one ⟨v, h⟩
  else if h : v < 2048 then .two ⟨v / 64, by omega⟩ ⟨v % 64, by omega⟩
  else .three ⟨v / 4096 % 16, by omega⟩ ⟨v / 64 % 64, by omega⟩ ⟨v % 64, by omega⟩

theorem pieceOf_one (h : v < 128) : pieceOf v = .one ⟨v, h⟩ :=
  dif_pos h

theorem pieceOf_two (hge : 128 ≤ v) (hlt : v < 2048) :
    pieceOf v = .two ⟨v / 64, by omega⟩ ⟨v % 64, by omega⟩ := by
  rw [pieceOf, dif_neg (by omega), dif_pos hlt]

theorem pieceOf_three (hge : 2048 ≤ v) (hlt : v < 65536) :
    pieceOf v = .three ⟨v / 4096, by omega⟩ ⟨v / 64 % 64, by omega⟩ ⟨v % 64, by omega⟩ := by
  have hmod : v / 4096 % 16 = v / 4096 := mod_eq_of_lt (by omega)
  rw [pieceOf, dif_neg (by omega), dif_neg (by omega)]
  simp only [hmod]

theorem encodeUtf8_eq (hv : v < 65536) : encodeUtf8 (.ofNat v) = (pieceOf v).bytes := by
  rw [encodeUtf8_ofNat hv]
  split
  · rw [pieceOf_three (by omega) hv, Piece.bytes]
  · split
    · rw [pieceOf_two (by omega) (by omega), Piece.bytes]
    · rw [pieceOf_one (by omega), Piece.bytes]

/-- The shortest piece for a value is the one it is encoded as; any other has more bytes. -/
theorem pieceOf_value (piece : Piece) : (piece.Shortest → pieceOf piece.value = piece) ∧
    (¬ piece.Shortest → (pieceOf piece.value).bytes.length < piece.bytes.length) := by
  have hlt := piece.value_lt
  cases piece with
  | one low => exact ⟨fun _ => pieceOf_one low.isLt, fun h => absurd trivial h⟩
  | two high low =>
    refine ⟨fun h => ?_, fun h => ?_⟩
    · rw [Piece.Shortest] at h
      rw [pieceOf_two h (by rw [Piece.value]; omega)]
      simp only [Piece.value, Piece.two.injEq, Fin.ext_iff]
      omega
    · rw [Piece.Shortest, not_le] at h
      rw [pieceOf_one h]
      exact lt_succ_self 1
  | three high middle low =>
    refine ⟨fun h => ?_, fun h => ?_⟩
    · rw [Piece.Shortest] at h
      rw [pieceOf_three h hlt]
      simp only [Piece.value, Piece.three.injEq, Fin.ext_iff]
      omega
    · rw [Piece.Shortest, not_le] at h
      rcases lt_or_ge (Piece.three high middle low).value 128 with hone | htwo
      · rw [pieceOf_one hone]
        exact (by decide : 1 < 3)
      · rw [pieceOf_two htwo h]
        exact (by decide : 2 < 3)

/-- A text is encoded from its units byte by byte, or with fewer bytes: if a piece is overlong, or
if a unit is zero, where the encoder stops. -/
theorem unicodeToUtf8Loop_pieces (pieces : List Piece) (buffersize utf8Total : Nat)
    (hroom : utf8Total + (pieces.flatMap Piece.bytes).length ≤ buffersize) :
    ∃ out, unicodeToUtf8Loop buffersize utf8Total (pieces.map Piece.unit) = some out ∧
      out.length ≤ (pieces.flatMap Piece.bytes).length ∧
      (out = pieces.flatMap Piece.bytes ↔ ∀ piece ∈ pieces, piece.Shortest ∧ piece.value ≠ 0) := by
  induction pieces generalizing utf8Total with
  | nil => exact ⟨[], rfl, le_refl _, by simp⟩
  | cons piece pieces ih =>
    have hpos := piece.length_bytes_pos
    rw [flatMap_cons, length_append] at hroom ⊢
    rw [map_cons, unicodeToUtf8Loop]
    have hzero : piece.unit = 0 ↔ piece.value = 0 := by
      rw [← UInt16.toNat_inj, Piece.unit, UInt16.toNat_ofNat_of_lt' piece.value_lt]
      rfl
    by_cases hvalue : piece.value = 0
    · refine ⟨[], if_pos (hzero.mpr hvalue), zero_le _, iff_of_false (fun h => ?_) fun h => ?_⟩
      · have hlen := congrArg List.length h
        rw [length_nil, length_append] at hlen
        omega
      · exact (h piece mem_cons_self).2 hvalue
    · rw [if_neg (hzero.not.mpr hvalue), Piece.unit, encodeUtf8_eq piece.value_lt]
      obtain ⟨hshortest, hoverlong⟩ := pieceOf_value piece
      have hle : (pieceOf piece.value).bytes.length ≤ piece.bytes.length := by
        by_cases h : piece.Shortest
        · rw [hshortest h]
        · exact le_of_lt (hoverlong h)
      obtain ⟨out, hout, hlen, heq⟩ :=
        ih (utf8Total + (pieceOf piece.value).bytes.length) (by omega)
      refine ⟨(pieceOf piece.value).bytes ++ out, ?_, by rw [length_append]; omega, ?_⟩
      · dsimp only
        rw [if_neg (by omega), hout]
        rfl
      · rw [forall_mem_cons, ← heq]
        by_cases h : piece.Shortest
        · rw [hshortest h, append_cancel_left_eq]
          exact (and_iff_right ⟨h, hvalue⟩).symm
        · have hless := hoverlong h
          refine iff_of_false (fun heq' => ?_) fun hand => h hand.1.1
          have hlen' := congrArg List.length heq'
          rw [length_append, length_append] at hlen'
          omega

end

/-! ## Well-formed text -/

/-- UTF-8 of characters of the basic plane. A `Char` is never a surrogate. -/
def WellFormed (utf8 : List UInt8) : Prop :=
  ∃ text : List Char, (∀ c ∈ text, c.toNat < 65536) ∧ utf8 = text.flatMap String.utf8EncodeChar

def Piece.Surrogate (piece : Piece) : Prop :=
  0xd800 ≤ piece.value ∧ piece.value < 0xe000

theorem utf8EncodeChar_eq {c : Char} (hc : c.toNat < 65536) :
    String.utf8EncodeChar c = (pieceOf c.toNat).bytes := by
  have hnat : c.val.toNat = c.toNat := rfl
  rw [String.utf8EncodeChar, hnat]
  split
  · rw [pieceOf_one (by omega), Piece.bytes]
  · split
    · rw [pieceOf_two (by omega) (by omega), Piece.bytes,
        mod_eq_of_lt (show c.toNat / 64 < 32 by omega)]
    · rw [if_pos (by omega), pieceOf_three (by omega) hc, Piece.bytes,
        mod_eq_of_lt (show c.toNat / 4096 < 16 by omega)]

theorem shortest_pieceOf (hv : v < 65536) : (pieceOf v).Shortest ∧ (pieceOf v).value = v := by
  rcases lt_or_ge v 128 with hone | hge
  · rw [pieceOf_one hone]
    exact ⟨trivial, rfl⟩
  · rcases lt_or_ge v 2048 with htwo | hthree
    · rw [pieceOf_two hge htwo]
      simp only [Piece.Shortest, Piece.value]
      omega
    · rw [pieceOf_three hthree hv]
      simp only [Piece.Shortest, Piece.value]
      omega

scoped instance neZero_sixteen : NeZero 16 := ⟨by decide⟩

/-- The first piece of a text, told by its first byte, and the rest. -/
def takePiece (utf8 : List UInt8) : Piece × List UInt8 :=
  let c0 := (utf8.headD 0).toNat
  let c1 := (utf8.tail.headD 0).toNat
  if c0 < 128 then (.one (.ofNat 128 c0), utf8.tail)
  else if c0 < 224 then (.two (.ofNat 32 (c0 - 192)) (.ofNat 64 (c1 - 128)), utf8.tail.tail)
  else
    (.three (.ofNat 16 (c0 - 224)) (.ofNat 64 (c1 - 128))
      (.ofNat 64 ((utf8.tail.tail.headD 0).toNat - 128)),
      utf8.tail.tail.tail)

theorem takePiece_bytes (piece : Piece) (rest : List UInt8) :
    takePiece (piece.bytes ++ rest) = (piece, rest) := by
  cases piece with
  | one low =>
    have hlow := toNat_byte low (by omega)
    simp [takePiece, Piece.bytes, hlow]
  | two high low =>
    have hhigh := toNat_byte (high + 192) (by omega)
    have hlow := toNat_byte (low + 128) (by omega)
    have hlead : ¬ high.val + 192 < 128 ∧ high.val + 192 < 224 := by omega
    simp only [takePiece, Piece.bytes, cons_append, nil_append, headD_cons, tail_cons, hhigh, hlow]
    rw [if_neg hlead.1, if_pos hlead.2, Nat.add_sub_cancel, Nat.add_sub_cancel]
    simp
  | three high middle low =>
    have hhigh := toNat_byte (high + 224) (by omega)
    have hmiddle := toNat_byte (middle + 128) (by omega)
    have hlow := toNat_byte (low + 128) (by omega)
    have hlead : ¬ high.val + 224 < 128 ∧ ¬ high.val + 224 < 224 := by omega
    simp only [takePiece, Piece.bytes, cons_append, nil_append, headD_cons, tail_cons, hhigh,
      hmiddle, hlow]
    rw [if_neg hlead.1, if_neg hlead.2, Nat.add_sub_cancel, Nat.add_sub_cancel, Nat.add_sub_cancel]
    simp

theorem flatMap_bytes_inj {pieces pieces' : List Piece}
    (h : pieces.flatMap Piece.bytes = pieces'.flatMap Piece.bytes) : pieces = pieces' := by
  induction pieces generalizing pieces' with
  | nil =>
    cases pieces' with
    | nil => rfl
    | cons piece' pieces' =>
      have hpos := piece'.length_bytes_pos
      have hlen := congrArg List.length h
      rw [flatMap_nil, flatMap_cons, length_nil, length_append] at hlen
      omega
  | cons piece pieces ih =>
    cases pieces' with
    | nil =>
      have hpos := piece.length_bytes_pos
      have hlen := congrArg List.length h
      rw [flatMap_nil, flatMap_cons, length_nil, length_append] at hlen
      omega
    | cons piece' pieces' =>
      have hfirst := congrArg takePiece h
      rw [flatMap_cons, flatMap_cons, takePiece_bytes, takePiece_bytes] at hfirst
      obtain ⟨rfl, hrest⟩ := Prod.mk.inj hfirst
      rw [ih hrest]

theorem flatMap_utf8EncodeChar {text : List Char} (h : ∀ c ∈ text, c.toNat < 65536) :
    text.flatMap String.utf8EncodeChar =
      (text.map fun c => pieceOf c.toNat).flatMap Piece.bytes := by
  rw [flatMap_map]
  exact flatMap_congr fun c hc => utf8EncodeChar_eq (h c hc)

/-- Text is well-formed if and only if no piece of it is overlong or a surrogate. -/
theorem wellFormed_pieces_iff (pieces : List Piece) :
    WellFormed (pieces.flatMap Piece.bytes) ↔ ∀ piece ∈ pieces, piece.Shortest ∧
      ¬ piece.Surrogate := by
  constructor
  · rintro ⟨text, hbmp, heq⟩
    rw [flatMap_utf8EncodeChar hbmp] at heq
    obtain rfl := flatMap_bytes_inj heq
    intro piece hpiece
    obtain ⟨c, hc, rfl⟩ := mem_map.mp hpiece
    obtain ⟨hshortest, hvalue⟩ := shortest_pieceOf (hbmp c hc)
    refine ⟨hshortest, ?_⟩
    have hvalid := c.valid
    rw [Piece.Surrogate, hvalue]
    have hnat : c.val.toNat = c.toNat := rfl
    rw [UInt32.isValidChar, Nat.isValidChar, hnat] at hvalid
    omega
  · intro h
    induction pieces with
    | nil => exact ⟨[], fun _ hc => absurd hc not_mem_nil, rfl⟩
    | cons piece pieces ih =>
      obtain ⟨⟨hshortest, hsurrogate⟩, hrest⟩ := forall_mem_cons.mp h
      obtain ⟨text, hbmp, heq⟩ := ih hrest
      have hlt := piece.value_lt
      have hvalid : piece.value.isValidChar := by
        rw [Piece.Surrogate] at hsurrogate
        rw [Nat.isValidChar]
        omega
      have hnat : (Char.ofNat piece.value).toNat = piece.value := by
        rw [Char.ofNat, dif_pos hvalid]
        rfl
      refine ⟨.ofNat piece.value :: text, forall_mem_cons.mpr ⟨hnat.trans_lt hlt, hbmp⟩, ?_⟩
      rw [flatMap_cons, flatMap_cons, heq, utf8EncodeChar_eq (hnat.trans_lt hlt), hnat,
        (pieceOf_value piece).1 hshortest]

/-! ## Round trips -/

/-- No byte is zero or starts an overlong sequence, nor do two bytes start one or a surrogate. -/
def Tidy : List UInt8 → Prop
  | [] => True
  | c :: utf8 =>
    c ≠ 0 ∧ c ≠ 0xc0 ∧ c ≠ 0xc1 ∧ (c = 0xe0 → 0xa0 ≤ utf8.headD 0) ∧
      (c = 0xed → utf8.headD 0 < 0xa0) ∧ Tidy utf8

instance decidableTidy : (utf8 : List UInt8) → Decidable (Tidy utf8)
  | [] => inferInstanceAs (Decidable True)
  | c :: utf8 =>
    have := decidableTidy utf8
    inferInstanceAs (Decidable (c ≠ 0 ∧ c ≠ 0xc0 ∧ c ≠ 0xc1 ∧ (c = 0xe0 → 0xa0 ≤ utf8.headD 0) ∧
      (c = 0xed → utf8.headD 0 < 0xa0) ∧ Tidy utf8))

section

variable {c : UInt8} {utf8 : List UInt8}

theorem tidy_cons : Tidy (c :: utf8) ↔ (c.toNat ≠ 0 ∧ c.toNat ≠ 192 ∧ c.toNat ≠ 193 ∧
    (c.toNat = 224 → 160 ≤ (utf8.headD 0).toNat) ∧
    (c.toNat = 237 → (utf8.headD 0).toNat < 160)) ∧ Tidy utf8 := by
  rw [Tidy, ne_eq, ne_eq, ne_eq, ← UInt8.toNat_inj, ← UInt8.toNat_inj, ← UInt8.toNat_inj,
    ← UInt8.toNat_inj,
    ← UInt8.toNat_inj, UInt8.le_iff_toNat_le, UInt8.lt_iff_toNat_lt]
  simp only [and_assoc]
  rfl

theorem tidy_cons_low (h : c.toNat < 192) : Tidy (c :: utf8) ↔ c.toNat ≠ 0 ∧ Tidy utf8 := by
  rw [tidy_cons]
  exact and_congr_left fun _ =>
    ⟨fun h' => h'.1, fun h' => ⟨h', by omega, by omega, by omega, by omega⟩⟩

theorem tidy_piece_iff (piece : Piece) (utf8 : List UInt8) :
    Tidy (piece.bytes ++ utf8) ↔ (piece.Shortest ∧ piece.value ≠ 0 ∧ ¬ piece.Surrogate) ∧
      Tidy utf8 := by
  cases piece with
  | one low =>
    have hlow := toNat_byte low (by omega)
    rw [Piece.bytes, singleton_append, tidy_cons_low (by omega), hlow]
    refine and_congr_left fun _ => ?_
    simp only [Piece.Shortest, Piece.Surrogate, Piece.value, true_and]
    omega
  | two high low =>
    have hhigh := toNat_byte (high + 192) (by omega)
    have hlow := toNat_byte (low + 128) (by omega)
    rw [Piece.bytes, cons_append, singleton_append, tidy_cons, tidy_cons_low (by omega), hhigh,
      hlow,
      ← and_assoc]
    refine and_congr_left fun _ => ?_
    simp only [Piece.Shortest, Piece.Surrogate, Piece.value]
    omega
  | three high middle low =>
    have hhigh := toNat_byte (high + 224) (by omega)
    have hmiddle := toNat_byte (middle + 128) (by omega)
    have hlow := toNat_byte (low + 128) (by omega)
    rw [Piece.bytes, cons_append, cons_append, singleton_append, tidy_cons,
      tidy_cons_low (by omega),
      tidy_cons_low (by omega), headD_cons, hhigh, hmiddle, hlow, ← and_assoc, ← and_assoc]
    refine and_congr_left fun _ => ?_
    simp only [Piece.Shortest, Piece.Surrogate, Piece.value]
    omega

theorem tidy_pieces_iff (pieces : List Piece) : Tidy (pieces.flatMap Piece.bytes) ↔
    ∀ piece ∈ pieces, piece.Shortest ∧ piece.value ≠ 0 ∧ ¬ piece.Surrogate := by
  induction pieces with
  | nil => simp [Tidy]
  | cons piece pieces ih => rw [flatMap_cons, tidy_piece_iff, ih, forall_mem_cons]

end

/-- Accepted text is well-formed, and comes back when its units are encoded, if and only if it is
tidy. -/
theorem accepted_round_trip_iff {utf8 : List UInt8} {units : List UInt16} {buffersize : Nat}
    (haccepted : utf8ToUnicode utf8 = some units) (hroom : utf8.length ≤ buffersize) :
    unicodeToUtf8 units buffersize = some utf8 ∧ WellFormed utf8 ↔ Tidy utf8 := by
  obtain ⟨pieces, rfl⟩ := exists_pieces (by rw [haccepted, isSome_some])
  obtain ⟨out, hout, -, heq⟩ := unicodeToUtf8Loop_pieces pieces buffersize 0 (by omega)
  rw [decode_pieces, some.injEq] at haccepted
  subst haccepted
  rw [tidy_pieces_iff]
  simp only [unicodeToUtf8, hout, some.injEq, heq, wellFormed_pieces_iff, ← forall_and]
  exact forall₂_congr fun piece _ =>
    ⟨fun h => ⟨h.1.1, h.1.2, h.2.2⟩, fun h => ⟨⟨h.1, h.2.1⟩, h.1, h.2.2⟩⟩

/-- A letter, a letter with an accent and a Chinese character come back. -/
theorem accepted_round_trip_sample :
    utf8ToUnicode [0x41, 0xc3, 0xa9, 0xe4, 0xb8, 0xad] = some [0x41, 0xe9, 0x4e2d] ∧
      unicodeToUtf8 [0x41, 0xe9, 0x4e2d] 6 = some [0x41, 0xc3, 0xa9, 0xe4, 0xb8, 0xad] :=
  ⟨by decide, ((accepted_round_trip_iff (by decide) (by decide)).mpr (by decide)).1⟩

/-- A slash in two bytes, and a surrogate: both are accepted. The slash comes back as one byte. -/
theorem overlong_and_surrogate_accepted :
    utf8ToUnicode [0xc0, 0xaf] = some [0x2f] ∧ unicodeToUtf8 [0x2f] 2 = some [0x2f] ∧
      ¬ WellFormed [0xc0, 0xaf] ∧ utf8ToUnicode [0xed, 0xa0, 0x80] = some [0xd800] ∧
        ¬ WellFormed [0xed, 0xa0, 0x80] := by
  refine ⟨by decide, by decide, fun h => ?_, by decide, fun h => ?_⟩
  · have hle : 128 ≤ (Piece.two 0 47).value :=
      ((wellFormed_pieces_iff [.two 0 47]).mp h _ mem_cons_self).1
    exact absurd hle (by decide)
  · exact ((wellFormed_pieces_iff [.three 13 32 0]).mp h _ mem_cons_self).2 ⟨by decide, by decide⟩

end SpeakerFirmware.Utils.Transcode
