/-
# The item bitmap

`seg_item_map` has a bit for every 16 bytes of the active segment; a set bit marks
the start of a live item. This module embeds the bit searches of `nvram_config.c`,
which go word by word, and proves what they compute: the first set bit at or behind
a position, or the number of bits when there is none.
-/

import SpeakerFirmware.Nvram.Model

namespace SpeakerFirmware.Nvram

open List Nat

variable {offset : Nat}

/-- `find_lsb_set(word) - 1` of a word that is not zero. -/
def lsbIndex (word : BitVec 32) : Nat :=
  ((List.range 32).find? fun i => word.getLsbD i).getD 32

/-- The word loop that `find_first_bit` and `find_next_bit` share; `words` starts
at the word of bit `result`, and `size` bits are left. -/
def findBitLoop : List (BitVec 32) → Nat → Nat → Nat
  | [], size, result => result + size
  | word :: words, size, result =>
    if 32 ≤ size then
      if word ≠ 0 then result + lsbIndex word else findBitLoop words (size - 32) (result + 32)
    else if size = 0 then result
    else
      let tmp := word &&& (BitVec.allOnes 32 >>> (32 - size))
      if tmp = 0 then result + size else result + lsbIndex tmp

variable (words : List (BitVec 32))

def findFirstBit (size : Nat) : Nat :=
  findBitLoop words size 0

/-- `find_next_bit`; bits below `offset` in its word are masked out first. -/
def findNextBit (size offset : Nat) : Nat :=
  if size ≤ offset then size else
  let p := words.drop (offset / 32)
  let result := offset / 32 * 32
  let size := size - result
  if offset % 32 ≠ 0 then
    let tmp := p.getD 0 0 &&& (BitVec.allOnes 32 <<< (offset % 32))
    if size < 32 then
      let tmp := tmp &&& (BitVec.allOnes 32 >>> (32 - size))
      if tmp = 0 then result + size else result + lsbIndex tmp
    else if tmp ≠ 0 then result + lsbIndex tmp
    else findBitLoop (p.drop 1) (size - 32) (result + 32)
  else findBitLoop p size result

/-- `item_bitmap_update`; `offset` is relative to the segment. -/
def itemBitmapUpdate (offset : Nat) (isSet : Bool) :
    List (BitVec 32) :=
  let bit := offset / nvramItemAlignSize
  words.modify (bit / 32) fun word =>
    if isSet then word ||| (1#32 <<< (bit % 32)) else word &&& ~~~(1#32 <<< (bit % 32))

def itemBitmapClearAll : List (BitVec 32) :=
  words.map fun _ => 0

/-! ## Bits -/

/-- The bit of the map at an index. -/
def mapBit (bit : Nat) : Bool :=
  (words.getD (bit / 32) 0).getLsbD (bit % 32)

theorem lsbIndex_spec {word : BitVec 32} (hword : word ≠ 0) :
    lsbIndex word < 32 ∧ word.getLsbD (lsbIndex word) = true ∧
      ∀ i < lsbIndex word, word.getLsbD i = false := by
  cases hfind : (List.range 32).find? fun i => word.getLsbD i with
  | none =>
    exfalso
    apply hword
    apply BitVec.eq_of_getLsbD_eq
    intro i hi
    simpa using find?_range_eq_none.mp hfind i hi
  | some k =>
    have hk : lsbIndex word = k := by rw [lsbIndex, hfind, Option.getD_some]
    obtain ⟨hset, hmem, hbefore⟩ := find?_range_eq_some.mp hfind
    rw [hk]
    exact ⟨mem_range.mp hmem, hset, fun i hi => by simpa using hbefore i hi⟩

/-- `n` is the first position from `lo` on where `P` holds, or `size`. -/
structure NextSet (P : Nat → Bool) (lo size n : Nat) : Prop where
  le_size : n ≤ size
  holds : n < size → P n = true
  below : ∀ b, lo ≤ b → b < n → P b = false

theorem NextSet.unique {P : Nat → Bool} {lo size m n : Nat} (hm : NextSet P lo size m)
    (hn : NextSet P lo size n) (hlom : lo ≤ m) (hlon : lo ≤ n) : m = n := by
  rcases lt_trichotomy m n with hlt | heq | hgt
  · have hset := hm.holds (hlt.trans_le hn.le_size)
    rw [hn.below m hlom hlt] at hset
    exact absurd hset Bool.false_ne_true
  · exact heq
  · have hset := hn.holds (hgt.trans_le hm.le_size)
    rw [hm.below n hlon hgt] at hset
    exact absurd hset Bool.false_ne_true

section

variable {P Q : Nat → Bool} {lo size n : Nat}

theorem NextSet.congr (h : NextSet P lo size n) (hlo : lo ≤ n) (heq : ∀ b, lo ≤ b → Q b = P b) :
    NextSet Q lo size n :=
  ⟨h.le_size, fun hlt => (heq n hlo).trans (h.holds hlt),
    fun b hb hn => (heq b hb).trans (h.below b hb hn)⟩

/-- Clear bits in front of the start. -/
theorem NextSet.extend {start : Nat} (h : NextSet P start size n)
    (hclear : ∀ b, lo ≤ b → b < start → P b = false) : NextSet P lo size n := by
  refine ⟨h.le_size, h.holds, fun b hlo hhi => ?_⟩
  rcases lt_or_ge b start with hlt | hge
  · exact hclear b hlo hlt
  · exact h.below b hge hhi

/-- The first set bit is in the word at `result`. -/
theorem nextSet_lsbIndex {word : BitVec 32} (hword : word ≠ 0) {result : Nat}
    (hsize : result + 32 ≤ size)
    (hbits : ∀ i < 32, word.getLsbD i = (P (result + i) && decide (lo ≤ result + i)))
    (hlo : result ≤ lo) :
    lo ≤ result + lsbIndex word ∧ NextSet P lo size (result + lsbIndex word) := by
  obtain ⟨hlt, hset, hbelow⟩ := lsbIndex_spec hword
  rw [hbits _ hlt, Bool.and_eq_true, decide_eq_true_eq] at hset
  refine ⟨hset.2, by omega, fun _ => hset.1, fun b hb hhi => ?_⟩
  obtain ⟨i, rfl⟩ := Nat.exists_eq_add_of_le (hlo.trans hb)
  have hclear := hbelow i (by omega)
  rwa [hbits i (by omega), decide_eq_true hb, Bool.and_true] at hclear

end

variable (word : BitVec 32)

theorem mapBit_cons_lt (words : List (BitVec 32)) {bit : Nat} (h : bit < 32) :
    mapBit (word :: words) bit = word.getLsbD bit := by
  simp [mapBit, div_eq_of_lt h, mod_eq_of_lt h]

theorem mapBit_cons_add (words : List (BitVec 32)) (bit : Nat) :
    mapBit (word :: words) (bit + 32) = mapBit words bit := by
  simp [mapBit]

variable (words : List (BitVec 32))

/-- The word loop finds the first set bit of the words. -/
theorem findBitLoop_spec (result : Nat) :
    result ≤ findBitLoop words (words.length * 32) result ∧
      NextSet (fun b => mapBit words (b - result)) result (result + words.length * 32)
        (findBitLoop words (words.length * 32) result) := by
  induction words generalizing result with
  | nil => exact ⟨by simp [findBitLoop], by simp [findBitLoop], by simp [findBitLoop], by
      simp only [findBitLoop, length_nil]
      intro b hlo hhi
      omega⟩
  | cons word words ih =>
    have hsize : (word :: words).length * 32 = words.length * 32 + 32 := by
      rw [length_cons]
      omega
    rw [hsize, findBitLoop, if_pos (by omega)]
    by_cases hword : word = 0
    · obtain ⟨hge, hnext⟩ := ih (result + 32)
      rw [if_neg (not_not.mpr hword), Nat.add_sub_cancel]
      rw [show result + 32 + words.length * 32 = result + (words.length * 32 + 32) by
        omega] at hnext
      refine ⟨by omega, (hnext.congr hge fun b hb => ?_).extend fun b hlo hhi => ?_⟩
      · rw [show b - result = b - (result + 32) + 32 by omega, mapBit_cons_add]
      · rw [mapBit_cons_lt _ _ (by omega), hword]
        exact BitVec.getLsbD_zero
    · rw [if_pos hword]
      refine nextSet_lsbIndex hword (by omega) (fun i hi => ?_) le_rfl
      rw [Nat.add_sub_cancel_left, mapBit_cons_lt _ _ hi, decide_eq_true (Nat.le_add_right _ _),
        Bool.and_true]

/-- The loop from a word on. -/
theorem findBitLoop_drop {k : Nat} (hk : k ≤ words.length) :
    k * 32 ≤ findBitLoop (words.drop k) ((words.length - k) * 32) (k * 32) ∧
      NextSet (mapBit words) (k * 32) (words.length * 32)
        (findBitLoop (words.drop k) ((words.length - k) * 32) (k * 32)) := by
  obtain ⟨hge, hnext⟩ := findBitLoop_spec (words.drop k) (k * 32)
  rw [length_drop] at hge hnext
  rw [show k * 32 + (words.length - k) * 32 = words.length * 32 by omega] at hnext
  refine ⟨hge, hnext.congr hge fun b hb => ?_⟩
  obtain ⟨i, rfl⟩ := Nat.exists_eq_add_of_le hb
  have hdiv : (k * 32 + i) / 32 = k + i / 32 := by omega
  have hmod : (k * 32 + i) % 32 = i % 32 := by omega
  simp [mapBit, List.getD, hdiv, hmod, getElem?_drop]

theorem getLsbD_maskLow (offset : Nat) {i : Nat} (hi : i < 32) :
    (word &&& (BitVec.allOnes 32 <<< offset)).getLsbD i =
      (word.getLsbD i && decide (offset ≤ i)) := by
  rw [BitVec.getLsbD_and, BitVec.getLsbD_shiftLeft, BitVec.getLsbD_allOnes]
  by_cases hle : offset ≤ i
  · have hsub : i - offset < 32 := by omega
    simp [hi, hle, not_lt.mpr hle, hsub]
  · simp [hi, hle, not_le.mp hle]

/-- `find_next_bit` finds the first set bit at or behind its offset. -/
theorem findNextBit_spec
    (hoffset : offset ≤ words.length * 32) :
    offset ≤ findNextBit words (words.length * 32) offset ∧
      NextSet (mapBit words) offset (words.length * 32)
        (findNextBit words (words.length * 32) offset) := by
  unfold findNextBit
  by_cases hend : words.length * 32 ≤ offset
  · rw [if_pos hend]
    exact ⟨hoffset, le_rfl, fun h => absurd h (lt_irrefl _), fun b hlo hhi => by omega⟩
  rw [if_neg hend]
  dsimp only
  by_cases hmod : offset % 32 = 0
  · have hloop := findBitLoop_drop words (k := offset / 32) (by omega)
    rw [Nat.sub_mul, Nat.div_mul_cancel (Nat.dvd_of_mod_eq_zero hmod)] at hloop
    rwa [if_neg (not_not.mpr hmod), Nat.div_mul_cancel (Nat.dvd_of_mod_eq_zero hmod)]
  -- the word of the offset, without the bits below it
  have hbits : ∀ i < 32, ((words.drop (offset / 32)).getD 0 0 &&&
      (BitVec.allOnes 32 <<< (offset % 32))).getLsbD i =
        (mapBit words (offset / 32 * 32 + i) && decide (offset ≤ offset / 32 * 32 + i)) := by
    intro i hi
    have hdiv : (offset / 32 * 32 + i) / 32 = offset / 32 := by omega
    have hmod : (offset / 32 * 32 + i) % 32 = i := by omega
    have hle : offset % 32 ≤ i ↔ offset ≤ offset / 32 * 32 + i := by omega
    rw [getLsbD_maskLow _ _ hi, mapBit, hdiv, hmod]
    simp [List.getD, getElem?_drop, hle]
  rw [if_pos hmod, if_neg (by omega), drop_drop]
  generalize (words.drop (offset / 32)).getD 0 0 &&& (BitVec.allOnes 32 <<< (offset % 32)) =
      tmp at hbits ⊢
  by_cases htmp : tmp = 0
  · obtain ⟨hge, hnext⟩ := findBitLoop_drop words (k := offset / 32 + 1) (by omega)
    rw [if_neg (not_not.mpr htmp), show words.length * 32 - offset / 32 * 32 - 32 =
      (words.length - (offset / 32 + 1)) * 32 by
        omega, show offset / 32 * 32 + 32 = (offset / 32 + 1) * 32 by omega]
    refine ⟨by omega, hnext.extend fun b hlo hhi => ?_⟩
    obtain ⟨i, rfl⟩ := Nat.exists_eq_add_of_le (show offset / 32 * 32 ≤ b by omega)
    have hclear := hbits i (by omega)
    rw [htmp, decide_eq_true hlo, Bool.and_true] at hclear
    exact hclear.symm.trans BitVec.getLsbD_zero
  · rw [if_pos htmp]
    exact nextSet_lsbIndex htmp (by omega) hbits (by omega)

/-- `find_first_bit` is the search from the start. -/
theorem findFirstBit_eq_findNextBit :
    findFirstBit words (words.length * 32) = findNextBit words (words.length * 32) 0 := by
  cases words with
  | nil => rfl
  | cons word words => simp [findFirstBit, findNextBit]

/-- A set bit is found at once. -/
theorem findNextBit_of_set {words : List (BitVec 32)}
    (hoffset : offset < words.length * 32) (hset : mapBit words offset = true) :
    findNextBit words (words.length * 32) offset = offset := by
  obtain ⟨hge, hnext⟩ := findNextBit_spec words hoffset.le
  exact hnext.unique ⟨hoffset.le, fun _ => hset, fun b hlo hhi => by omega⟩ hge le_rfl

/-- Clear bits are passed over. -/
theorem findNextBit_of_clear {words : List (BitVec 32)} {offset' : Nat}
    (hle : offset ≤ offset') (hoffset' : offset' ≤ words.length * 32)
    (hclear : ∀ b, offset ≤ b → b < offset' → mapBit words b = false) :
    findNextBit words (words.length * 32) offset =
      findNextBit words (words.length * 32) offset' := by
  obtain ⟨hge, hnext⟩ := findNextBit_spec words (hle.trans hoffset')
  obtain ⟨hge', hnext'⟩ := findNextBit_spec words hoffset'
  exact hnext.unique (hnext'.extend hclear) hge (hle.trans hge')

/-! ## Updates -/

@[simp]
theorem length_itemBitmapUpdate (offset : Nat) (isSet : Bool) :
    (itemBitmapUpdate words offset isSet).length = words.length := by
  simp [itemBitmapUpdate]

@[simp]
theorem length_itemBitmapClearAll :
    (itemBitmapClearAll words).length = words.length := by
  simp [itemBitmapClearAll]

theorem mapBit_itemBitmapClearAll (bit : Nat) :
    mapBit (itemBitmapClearAll words) bit = false := by
  have hzero : (itemBitmapClearAll words).getD (bit / 32) 0 = 0 := by
    simp only [itemBitmapClearAll, List.getD, getElem?_map]
    cases words[bit / 32]? <;> rfl
  rw [mapBit, hzero]
  exact BitVec.getLsbD_zero

/-- An update changes the bit of its offset only. -/
theorem mapBit_itemBitmapUpdate (offset : Nat) (isSet : Bool)
    {bit : Nat} (hbit : bit < words.length * 32) :
    mapBit (itemBitmapUpdate words offset isSet) bit =
      if bit = offset / nvramItemAlignSize then isSet else mapBit words bit := by
  have hword : bit / 32 < words.length := by omega
  have hmod : bit % 32 < 32 := mod_lt _ (by decide)
  simp only [mapBit, itemBitmapUpdate, List.getD, getElem?_modify]
  generalize offset / nvramItemAlignSize = target
  rw [getElem?_eq_getElem hword]
  by_cases hsame : target / 32 = bit / 32
  · simp only [hsame, if_true, Option.getD_some]
    by_cases heq : bit = target
    · subst heq
      cases isSet <;> simp [hmod]
    · have hdiff : bit % 32 ≠ target % 32 := by omega
      cases isSet <;> simp [hmod, heq] <;> omega
  · have heq : bit ≠ target := by
      rintro rfl
      exact hsame rfl
    simp [hsame, heq]

end SpeakerFirmware.Nvram
