/-
# The other decoder of UTF-8

`utf8_to_gbk` decodes UTF-8 on its own and looks each unit up in the conversion table of the file
system, except for ASCII, which it copies. It takes four bits of the first byte of a sequence of two
where there are five, so that the characters from 0x400 to 0x7ff are looked up 0x400 too low. Like
any function on C strings it stops at a zero byte.

The pointer into the text is the list of the bytes from there on, with what lies behind the text.
-/

import SpeakerFirmware.Utils.Transcode

namespace SpeakerFirmware.Utils.Transcode

open List

/-! ## The function -/

/-- What one turn of the loop does with the text: ASCII is copied, a unit is looked up, and what is
not UTF-8 is copied. -/
inductive Token
  | ascii (c : UInt8)
  | table (unicode : UInt16)
  | copied (bytes : List UInt8)
  deriving DecidableEq, Repr

/-- The code that was found, or the bytes themselves. -/
def gbkBytes (gbkcode : UInt16) (bytes : List UInt8) : List UInt8 :=
  if gbkcode ≠ 0 then [(gbkcode >>> 8).toUInt8, gbkcode.toUInt8] else bytes

/-- One turn of the loop, from the next three bytes: its token, its output and how many of them it
takes. -/
def gbkTurn (ffConvert : UInt16 → UInt16) (c c1 c2 : UInt8) : Token × List UInt8 × Nat :=
  if c ≤ 0x7f then (.ascii c, [c], 1)
  else if c &&& 0xe0 = 0xc0 then
    if c1 &&& 0xc0 = 0x80 then
      let unicode := (c &&& 0xf).toUInt16 <<< 6 ||| (c1 &&& 0x3f).toUInt16
      (.table unicode, gbkBytes (ffConvert unicode) [c, c1], 2)
    else (.copied [c, c1], [c, c1], 2)
  else if c &&& 0xf0 = 0xe0 then
    if c1 &&& 0xc0 = 0x80 ∧ c2 &&& 0xc0 = 0x80 then
      let unicode :=
        ((c &&& 0xf).toUInt16 <<< 6 ||| (c1 &&& 0x3f).toUInt16) <<< 6 ||| (c2 &&& 0x3f).toUInt16
      (.table unicode, gbkBytes (ffConvert unicode) [c, c1, c2], 3)
    else (.copied [c, c1, c2], [c, c1, c2], 3)
  else (.copied [c], [c], 1)

/-- The loop; it makes no more turns than there are bytes. -/
def utf8ToGbkLoop (ffConvert : UInt16 → UInt16) (len : Nat) : Nat → Nat → List UInt8 →
    List Token × List UInt8
  | 0, _, _ => ([], [])
  | turns + 1, pos, utf8 =>
    if utf8.headD 0 ≠ 0 ∧ pos ≤ len then
      let r := gbkTurn ffConvert (utf8.headD 0) (utf8.tail.headD 0) (utf8.tail.tail.headD 0)
      let rest := utf8ToGbkLoop ffConvert len turns (pos + r.2.2) (utf8.drop r.2.2)
      (r.1 :: rest.1, r.2.1 ++ rest.2)
    else ([], [])

def utf8ToGbk (ffConvert : UInt16 → UInt16) (utf8 : List UInt8) (len : Nat) :
    List Token × List UInt8 :=
  utf8ToGbkLoop ffConvert len utf8.length 0 utf8

/-! ## Turns -/

theorem lead_mask_iff : ∀ c : UInt8, (c ≤ 0x7f ↔ c.toNat < 128) ∧
    (c &&& 0xe0 = 0xc0 ↔ 192 ≤ c.toNat ∧ c.toNat < 224) ∧
    (c &&& 0xf0 = 0xe0 ↔ 224 ≤ c.toNat ∧ c.toNat < 240) := by
  apply forall_byte
  decide +kernel

theorem toNat_and_four (c : UInt8) : (c &&& 0xf).toUInt16.toNat = c.toNat % 16 := by
  rw [UInt8.toNat_toUInt16, UInt8.toNat_and]
  exact Nat.and_two_pow_sub_one_eq_mod c.toNat 4

/-- Shifting six bits into a unit. -/
theorem shift_or_unit (a : UInt16) (c : UInt8) (h : a.toNat < 2 ^ 10) :
    (a <<< 6 ||| (c &&& 0x3f).toUInt16).toNat = a.toNat * 64 + c.toNat % 64 := by
  have hlt : c.toNat % 64 < 2 ^ 6 := Nat.mod_lt _ (by decide)
  rw [UInt16.toNat_or, UInt16.toNat_shiftLeft, UInt8.toNat_toUInt16, toNat_and_six,
    show (6 : UInt16).toNat % 16 = 6 from rfl,
    Nat.mod_eq_of_lt (by rw [Nat.shiftLeft_eq]; omega), ← Nat.shiftLeft_add_eq_or_of_lt hlt,
      Nat.shiftLeft_eq]

/-- The token for a piece. -/
def Piece.token : Piece → Token
  | one low => .ascii (.ofNat low)
  | two high low => .table (.ofNat (high % 16 * 64 + low))
  | three high middle low => .table (three high middle low).unit

section

variable (ffConvert : UInt16 → UInt16) (c c1 c2 : UInt8)

theorem gbkTurn_one (h : c.toNat < 128) : gbkTurn ffConvert c c1 c2 = (.ascii c, [c], 1) := by
  rw [gbkTurn, if_pos ((lead_mask_iff c).1.mpr h)]

/-- Four bits are taken from the first byte, not five. -/
theorem gbkTurn_two (h : 192 ≤ c.toNat ∧ c.toNat < 224) (h1 : 128 ≤ c1.toNat ∧ c1.toNat < 192) :
    ∃ out,
    gbkTurn ffConvert c c1 c2 =
      (.table (.ofNat (c.toNat % 16 * 64 + (c1.toNat - 128))), out, 2) := by
  obtain ⟨hascii, htwo, -⟩ := lead_mask_iff c
  have hunit : (c &&& 0xf).toUInt16 <<< 6 ||| (c1 &&& 0x3f).toUInt16 =
      .ofNat (c.toNat % 16 * 64 + (c1.toNat - 128)) := by
    apply UInt16.toNat_inj.mp
    rw [shift_or_unit _ _ (by rw [toNat_and_four]; omega), toNat_and_four,
      UInt16.toNat_ofNat_of_lt' (show c.toNat % 16 * 64 + (c1.toNat - 128) < 2 ^ 16 by omega)]
    omega
  rw [gbkTurn, if_neg (hascii.not.mpr (by omega)), if_pos (htwo.mpr h),
    if_pos ((continuation_iff c1).mpr h1), hunit]
  exact ⟨_, rfl⟩

theorem gbkTurn_three (h : 224 ≤ c.toNat ∧ c.toNat < 240) (h1 : 128 ≤ c1.toNat ∧ c1.toNat < 192)
    (h2 : 128 ≤ c2.toNat ∧ c2.toNat < 192) : ∃ out, gbkTurn ffConvert c c1 c2 =
      (.table (.ofNat ((c.toNat - 224) * 4096 + (c1.toNat - 128) * 64 + (c2.toNat - 128))), out,
        3) := by
  obtain ⟨hascii, htwo, hthree⟩ := lead_mask_iff c
  have hfirst := shift_or_unit (c &&& 0xf).toUInt16 c1 (by rw [toNat_and_four]; omega)
  rw [toNat_and_four] at hfirst
  have hunit : ((c &&& 0xf).toUInt16 <<< 6 ||| (c1 &&& 0x3f).toUInt16) <<< 6 |||
      (c2 &&& 0x3f).toUInt16 =
      .ofNat ((c.toNat - 224) * 4096 + (c1.toNat - 128) * 64 + (c2.toNat - 128)) := by
    apply UInt16.toNat_inj.mp
    rw [shift_or_unit _ _ (by omega), hfirst, UInt16.toNat_ofNat_of_lt' (show
      (c.toNat - 224) * 4096 + (c1.toNat - 128) * 64 + (c2.toNat - 128) < 2 ^ 16 by omega)]
    omega
  rw [gbkTurn, if_neg (hascii.not.mpr (by omega)), if_neg (htwo.not.mpr (by omega)),
    if_pos (hthree.mpr h),
    if_pos ⟨(continuation_iff c1).mpr h1, (continuation_iff c2).mpr h2⟩, hunit]
  exact ⟨_, rfl⟩

/-- A piece makes one turn. -/
theorem gbkTurn_piece (piece : Piece) (rest : List UInt8) {utf8 : List UInt8}
    (hutf8 : utf8 = piece.bytes ++ rest) :
    ∃ out, gbkTurn ffConvert (utf8.headD 0) (utf8.tail.headD 0) (utf8.tail.tail.headD 0) =
      (piece.token, out, piece.bytes.length) := by
  subst hutf8
  cases piece with
  | one low =>
    have hlow := toNat_byte low (by omega)
    exact ⟨_, gbkTurn_one ffConvert _ _ _
      (by rw [Piece.bytes, singleton_append, headD_cons]; omega)⟩
  | two high low =>
    have hhigh := toNat_byte (high + 192) (by omega)
    have hlow := toNat_byte (low + 128) (by omega)
    have hvalue : (high.val + 192) % 16 * 64 + (low + 128 - 128) = high % 16 * 64 + low := by omega
    obtain ⟨out, hturn⟩ :=
      gbkTurn_two ffConvert (.ofNat (high + 192)) (.ofNat (low + 128)) (rest.headD 0)
      (by omega) (by omega)
    rw [hhigh, hlow, hvalue] at hturn
    exact ⟨out, hturn⟩
  | three high middle low =>
    have hhigh := toNat_byte (high + 224) (by omega)
    have hmiddle := toNat_byte (middle + 128) (by omega)
    have hlow := toNat_byte (low + 128) (by omega)
    obtain ⟨out, hturn⟩ :=
      gbkTurn_three ffConvert (.ofNat (high + 224)) (.ofNat (middle + 128)) (.ofNat (low + 128))
      (by omega) (by omega) (by omega)
    rw [hhigh, hmiddle, hlow, Nat.add_sub_cancel, Nat.add_sub_cancel, Nat.add_sub_cancel] at hturn
    exact ⟨out, hturn⟩

end

/-- The shortest piece that starts with a zero byte is the one for zero. -/
theorem headD_bytes_eq_zero_iff {piece : Piece} (h : piece.Shortest) (rest : List UInt8) :
    (piece.bytes ++ rest).headD 0 = 0 ↔ piece.value = 0 := by
  have hbyte : ∀ n < 256, (UInt8.ofNat n = 0 ↔ n = 0) := by
    intro n hn
    rw [← UInt8.toNat_inj, UInt8.toNat_ofNat_of_lt' hn]
    rfl
  cases piece with
  | one low => exact hbyte low (by omega)
  | two high low =>
    rw [Piece.Shortest] at h
    exact (hbyte (high + 192) (by omega)).trans (iff_of_false (by omega) (by omega))
  | three high middle low =>
    rw [Piece.Shortest] at h
    exact (hbyte (high + 224) (by omega)).trans (iff_of_false (by omega) (by omega))

/-- The tokens of a text are those of its pieces, up to the first zero. -/
theorem utf8ToGbkLoop_pieces (ffConvert : UInt16 → UInt16) {len : Nat} (behind : List UInt8)
    {pieces : List Piece} (hshortest : ∀ piece ∈ pieces, piece.Shortest) {turns pos : Nat}
    (hturns : pieces.length < turns) (hpos : pos + (pieces.flatMap Piece.bytes).length ≤ len) :
    (utf8ToGbkLoop ffConvert len turns pos (pieces.flatMap Piece.bytes ++ 0 :: behind)).1 =
      (pieces.takeWhile fun piece => piece.value ≠ 0).map Piece.token := by
  induction pieces generalizing turns pos with
  | nil =>
    cases turns with
    | zero => rfl
    | succ turns =>
      rw [utf8ToGbkLoop, if_neg fun h => h.1 rfl]
      rfl
  | cons piece pieces ih =>
    obtain ⟨hfirst, hrest⟩ := forall_mem_cons.mp hshortest
    rw [flatMap_cons, length_append] at hpos
    rw [length_cons] at hturns
    obtain ⟨turns, rfl⟩ : ∃ n, turns = n + 1 := ⟨turns - 1, by omega⟩
    rw [flatMap_cons, append_assoc, utf8ToGbkLoop]
    have hhead := headD_bytes_eq_zero_iff hfirst (pieces.flatMap Piece.bytes ++ 0 :: behind)
    obtain ⟨out, hturn⟩ :=
      gbkTurn_piece ffConvert piece (pieces.flatMap Piece.bytes ++ 0 :: behind) rfl
    by_cases hvalue : piece.value = 0
    · rw [if_neg fun h => h.1 (hhead.mpr hvalue), takeWhile_cons_of_neg (by simpa using hvalue)]
      rfl
    · rw [if_pos ⟨hhead.not.mpr hvalue, by omega⟩, takeWhile_cons_of_pos (by simpa using hvalue),
        map_cons]
      rw [hturn]
      dsimp only
      rw [drop_left, ih hrest (by omega) (by omega)]

/-! ## The decoders compared -/

/-- A character as it is to be looked up; ASCII stands for itself. -/
def charToken (c : Char) : Token :=
  if c.toNat < 128 then .ascii (.ofNat c.toNat) else .table (.ofNat c.toNat)

/-- Only the characters with eleven bits are looked up wrongly. -/
theorem token_pieceOf_iff {c : Char} (hc : c.toNat < 65536) :
    (pieceOf c.toNat).token = charToken c ↔ ¬ (0x400 ≤ c.toNat ∧ c.toNat < 0x800) := by
  rw [charToken]
  rcases Nat.lt_or_ge c.toNat 128 with hone | hge
  · rw [pieceOf_one hone, if_pos hone]
    exact iff_of_true rfl (by omega)
  · rw [if_neg (by omega)]
    rcases Nat.lt_or_ge c.toNat 2048 with htwo | hthree
    · rw [pieceOf_two hge htwo, Piece.token, Token.table.injEq, ← UInt16.toNat_inj,
        UInt16.toNat_ofNat_of_lt' (show _ < 2 ^ 16 by dsimp only; omega),
          UInt16.toNat_ofNat_of_lt' hc]
      dsimp only
      omega
    · rw [pieceOf_three hthree hc, Piece.token, Piece.unit, Piece.value]
      refine iff_of_true ?_ (by omega)
      dsimp only
      rw [show c.toNat / 4096 * 4096 + c.toNat / 64 % 64 * 64 + c.toNat % 64 = c.toNat by omega]

theorem map_takeWhile_eq_iff {α β : Type*} {p : α → Bool} {f g : α → β} {xs : List α} :
    (xs.takeWhile p).map f = xs.map g ↔ ∀ x ∈ xs, p x = true ∧ f x = g x := by
  induction xs with
  | nil => simp
  | cons x xs ih =>
    cases hx : p x with
    | true => rw [takeWhile_cons_of_pos hx]; simp [ih, hx]
    | false => rw [takeWhile_cons_of_neg (by simp [hx])]; simp [hx]

/-- `utf8_to_unicode` decodes every well-formed text of the basic plane. `utf8_to_gbk` looks up the
same units if and only if the text has no zero and no character from 0x400 to 0x7ff. -/
theorem decoders_agree_iff {text : List Char} (hbmp : ∀ c ∈ text, c.toNat < 65536)
    (ffConvert : UInt16 → UInt16)
    {len : Nat} (hlen : (text.flatMap String.utf8EncodeChar).length ≤ len) (behind : List UInt8) :
    utf8ToUnicode (text.flatMap String.utf8EncodeChar) =
      some (text.map fun c => UInt16.ofNat c.toNat) ∧
      ((utf8ToGbk ffConvert (text.flatMap String.utf8EncodeChar ++ 0 :: behind) len).1 =
        text.map charToken ↔
        ∀ c ∈ text, c.toNat ≠ 0 ∧ ¬ (0x400 ≤ c.toNat ∧ c.toNat < 0x800)) := by
  have hpieces := flatMap_utf8EncodeChar hbmp
  have hvalue : ∀ c ∈ text, (pieceOf c.toNat).value = c.toNat :=
    fun c hc => (shortest_pieceOf (hbmp c hc)).2
  constructor
  · rw [hpieces, decode_pieces, map_map]
    refine congrArg some (map_congr_left fun c hc => ?_)
    rw [Function.comp_apply, Piece.unit, hvalue c hc]
  · have hshortest : ∀ piece ∈ text.map fun c => pieceOf c.toNat, piece.Shortest := by
      intro piece hpiece
      obtain ⟨c, hc, rfl⟩ := mem_map.mp hpiece
      exact (shortest_pieceOf (hbmp c hc)).1
    have hcount : ∀ pieces : List Piece, pieces.length ≤ (pieces.flatMap Piece.bytes).length := by
      intro pieces
      induction pieces with
      | nil => exact Nat.le_refl 0
      | cons piece pieces ih =>
        have hpos := piece.length_bytes_pos
        rw [flatMap_cons, length_append, length_cons]
        omega
    rw [hpieces] at hlen ⊢
    rw [utf8ToGbk, utf8ToGbkLoop_pieces ffConvert behind hshortest
      (by rw [length_append, length_cons]; have h :=
        hcount (text.map fun c => pieceOf c.toNat); omega)
      (by omega), takeWhile_map, map_map, map_takeWhile_eq_iff]
    refine forall₂_congr fun c hc => and_congr ?_ (token_pieceOf_iff (hbmp c hc))
    simp [hvalue c hc]

/-- A Latin, an accented and a Chinese character. -/
theorem decoders_agree_sample :
    (utf8ToGbk id (['A', 'é', '中'].flatMap String.utf8EncodeChar ++ [0]) 6).1 =
    ['A', 'é', '中'].map charToken :=
  (decoders_agree_iff (by simp) id (by decide) []).2.mpr (by simp)

/-- The Hebrew letter alef, 0x5d0, is looked up as 0x1d0. -/
theorem hebrew_looked_up_wrong :
    utf8ToUnicode (String.utf8EncodeChar 'א') = some [0x5d0] ∧
      (utf8ToGbk id (String.utf8EncodeChar 'א' ++ [0]) 2).1 = [.table 0x1d0] :=
  ⟨by decide, by decide⟩

end SpeakerFirmware.Utils.Transcode
