/-
# Erasing segments ahead of time

`region_clear` erases the segments behind the active one, so that a later purge finds them
empty. It rounds the requested size up to whole segments, cuts it down to all segments but
the active one, and splits it where it runs over the end of the region. The arithmetic is
of 32 bits, with signed and unsigned comparisons as in the source.

Rounding up makes a request of more than `2 ^ 31` minus one segment negative. It then passes
the test for its size, and the erase at the start of the region is asked for a size out of
range and refused: `regionClear_iff`.
-/

import SpeakerFirmware.Nvram.RowSet

namespace SpeakerFirmware.Nvram

open NorFlash
open List BitVec Nat

variable {c a : Nat} {s : RegionState}

/-! ## The function -/

/-- `ROUND_UP`, for a power of two. -/
def roundUpMask (x align : BitVec 32) : BitVec 32 := (x + (align - 1)) &&& ~~~(align - 1)

/-- The calls of `region_erase` that `region_clear` makes, each with its offset and its size. -/
def clearCalls (r : RegionInfo) (segOffset : Nat) (clearSize : BitVec 32) :
    List (BitVec 32 × BitVec 32) :=
  let total := BitVec.ofNat 32 r.totalSize
  let seg := BitVec.ofNat 32 r.segSize
  let clearSize := roundUpMask clearSize seg
  let clearSize := if (total - seg).slt clearSize then total - seg else clearSize
  let offset := BitVec.ofNat 32 segOffset + seg
  if total.ult (offset + clearSize) then
    let eraseSize := total - offset
    [(offset, eraseSize), (0, clearSize - eraseSize)]
  else [(offset, clearSize)]

def regionClear (r : RegionInfo) (s : RegionState) (clearSize : BitVec 32) : RegionState :=
  (clearCalls r s.segOffset clearSize).foldl
    (fun s call => regionErase r s call.1.toNat call.2.toNat) s

/-- The arguments of an erase lie in the region: a size that is not negative, on sector
boundaries. -/
structure InRange (r : RegionInfo) (call : BitVec 32 × BitVec 32) : Prop where
  nonneg : 0 ≤ call.2.toInt
  inside : call.1.toNat + call.2.toNat ≤ r.totalSize
  offset : call.1.toNat % nvramEraseAlignSize = 0
  size : call.2.toNat % nvramEraseAlignSize = 0

/-- The addresses of the segments that follow the active one, the first behind the last. -/
def following (r : RegionInfo) (segOffset count : Nat) : Set Nat :=
  {a | ∃ j, 1 ≤ j ∧ j ≤ count ∧ (segOffset + j * r.segSize) % r.totalSize ≤ a ∧
    a < (segOffset + j * r.segSize) % r.totalSize + r.segSize}

/-! ## Arithmetic of 32 bits -/

theorem ofNat_pow_sub_one {k : Nat} (hk : k < 32) :
    BitVec.ofNat 32 (2 ^ k) - 1 = BitVec.ofNat 32 (2 ^ k - 1) := by
  apply BitVec.eq_of_toNat_eq
  have hlt : 2 ^ k < 2 ^ 32 := Nat.pow_lt_pow_right (by decide) hk
  have hpos := Nat.two_pow_pos k
  have hone : (1 : BitVec 32).toNat = 1 := rfl
  rw [toNat_sub, toNat_ofNat, toNat_ofNat, hone]
  omega

/-- Clearing the low bits. -/
theorem toNat_and_not_mask (x : BitVec 32) {k : Nat} (hk : k < 32) :
    (x &&& ~~~(BitVec.ofNat 32 (2 ^ k) - 1)).toNat = x.toNat / 2 ^ k * 2 ^ k := by
  rw [ofNat_pow_sub_one hk]
  apply eq_of_testBit_eq
  intro i
  rw [Nat.testBit_mul_two_pow, Nat.testBit_div_two_pow, testBit_toNat, getLsbD_and,
    getLsbD_not, getLsbD_ofNat, Nat.testBit_two_pow_sub_one, testBit_toNat]
  by_cases hik : k ≤ i
  · rw [Nat.sub_add_cancel hik]
    simp only [hik, Nat.not_lt.mpr hik, decide_true, decide_false, Bool.and_false, Bool.not_false,
      Bool.and_true, Bool.true_and, Bool.and_eq_left_iff_imp, decide_eq_true_eq]
    exact lt_of_getLsbD
  · simp only [hik, Nat.not_le.mp hik, decide_true, decide_false, Bool.and_true, Bool.false_and,
      Bool.and_not_self, Bool.and_false]

/-- `ROUND_UP` of a size that is not negative. -/
theorem roundUpMask_eq {k : Nat} (hk : k < 31) (hc : c < 2 ^ 31) :
    roundUpMask (BitVec.ofNat 32 c) (BitVec.ofNat 32 (2 ^ k)) =
      BitVec.ofNat 32 ((c + (2 ^ k - 1)) / 2 ^ k * 2 ^ k) := by
  have hlt : 2 ^ k < 2 ^ 31 := Nat.pow_lt_pow_right (by decide) hk
  have hle : (c + (2 ^ k - 1)) / 2 ^ k * 2 ^ k ≤ c + (2 ^ k - 1) := Nat.div_mul_le_self _ _
  apply eq_of_toNat_eq
  rw [roundUpMask, toNat_and_not_mask _ (by omega), ofNat_pow_sub_one (by omega),
    ← BitVec.ofNat_add,
    BitVec.toNat_ofNat, BitVec.toNat_ofNat, mod_eq_of_lt (by omega), mod_eq_of_lt (by omega)]

theorem toInt_ofNat {n : Nat} (h : n < 2 ^ 31) : (BitVec.ofNat 32 n).toInt = n := by
  have hnat : (BitVec.ofNat 32 n).toNat = n := by
    rw [BitVec.toNat_ofNat, mod_eq_of_lt (by omega)]
  rw [toInt_eq_toNat_of_lt (by omega), hnat]

theorem slt_ofNat {b : Nat} (ha : a < 2 ^ 31) (hb : b < 2 ^ 31) :
    (BitVec.ofNat 32 a).slt (BitVec.ofNat 32 b) = decide (a < b) := by
  rw [BitVec.slt, toInt_ofNat ha, toInt_ofNat hb]
  simp

theorem ult_ofNat {b : Nat} (ha : a < 2 ^ 32) (hb : b < 2 ^ 32) :
    (BitVec.ofNat 32 a).ult (BitVec.ofNat 32 b) = decide (a < b) := by
  rw [BitVec.ult, BitVec.toNat_ofNat, BitVec.toNat_ofNat, mod_eq_of_lt ha, mod_eq_of_lt hb]

/-! ## The calls -/

section

variable (r : RegionInfo) (segOffset : Nat)

/-- The calls for a size that is a number of bytes of the region, as numbers. -/
def wrappedCalls (size : Nat) : List (Nat × Nat) :=
  if r.totalSize < segOffset + r.segSize + size then
    [(segOffset + r.segSize, r.totalSize - (segOffset + r.segSize)),
      (0, size - (r.totalSize - (segOffset + r.segSize)))]
  else [(segOffset + r.segSize, size)]

variable {r segOffset}

/-- What the requested size is rounded and cut to. -/
def clearLen (r : RegionInfo) (c : Nat) : Nat :=
  min ((c + (r.segSize - 1)) / r.segSize * r.segSize) (r.totalSize - r.segSize)

theorem clearCalls_eq {k : Nat} (hpow : r.segSize = 2 ^ k) (htotal : r.totalSize < 2 ^ 31)
    (hseg : segOffset + r.segSize ≤ r.totalSize) (hc : c ≤ 2 ^ 31 - r.segSize) :
    clearCalls r segOffset (BitVec.ofNat 32 c) =
      (wrappedCalls r segOffset (clearLen r c)).map fun call =>
        (BitVec.ofNat 32 call.1, BitVec.ofNat 32 call.2) := by
  have hpos := r.segSize_pos
  have hk : k < 31 := by
    by_contra hge
    have hle : 2 ^ 31 ≤ 2 ^ k := Nat.pow_le_pow_right (by decide) (Nat.not_lt.mp hge)
    omega
  have hround : roundUpMask (BitVec.ofNat 32 c) (BitVec.ofNat 32 r.segSize) =
      BitVec.ofNat 32 ((c + (r.segSize - 1)) / r.segSize * r.segSize) := by
    rw [hpow]
    exact roundUpMask_eq hk (by omega)
  have hle : (c + (r.segSize - 1)) / r.segSize * r.segSize < 2 ^ 31 := by
    have hmul := div_mul_le_self (c + (r.segSize - 1)) r.segSize
    omega
  unfold clearCalls wrappedCalls clearLen
  dsimp only
  rw [hround, ofNat_sub_ofNat_of_le _ _ (by omega) (by omega), slt_ofNat (by omega) hle]
  generalize (c + (r.segSize - 1)) / r.segSize * r.segSize = size at hle ⊢
  have hcut : (if decide (r.totalSize - r.segSize < size) = true then
      BitVec.ofNat 32 (r.totalSize - r.segSize) else BitVec.ofNat 32 size) =
      BitVec.ofNat 32 (min size (r.totalSize - r.segSize)) := by
    rw [min_def]
    by_cases hlt : r.totalSize - r.segSize < size
    · rw [if_pos (decide_eq_true hlt), if_neg (by omega)]
    · rw [if_neg (by simpa using hlt), if_pos (by omega)]
  rw [hcut]
  have hmin : min size (r.totalSize - r.segSize) ≤ r.totalSize - r.segSize := min_le_right _ _
  generalize min size (r.totalSize - r.segSize) = cut at hmin ⊢
  rw [← ofNat_add, ← ofNat_add, ult_ofNat (by omega) (by omega)]
  by_cases hwrap : r.totalSize < segOffset + r.segSize + cut
  · rw [if_pos (decide_eq_true hwrap), if_pos hwrap,
      ofNat_sub_ofNat_of_le _ _ (by omega) (by omega),
      ofNat_sub_ofNat_of_le _ _ (by omega) (by omega)]
    rfl
  · rw [if_neg (by simpa using hwrap), if_neg hwrap]
    rfl

end

/-! ## The segments that are erased -/

/-- How many segments a request is for. -/
def clearCount (r : RegionInfo) (c : Nat) : Nat :=
  min ((c + (r.segSize - 1)) / r.segSize) (r.totalSize / r.segSize - 1)

theorem clearLen_eq (r : RegionInfo) (c : Nat) : clearLen r c = clearCount r c * r.segSize := by
  obtain ⟨n, hn⟩ := r.seg_dvd
  rw [clearLen, clearCount, hn, Nat.mul_div_cancel_left n r.segSize_pos, ← Nat.mul_min_mul_right,
    Nat.sub_mul,
    Nat.one_mul, Nat.mul_comm r.segSize n]

section

variable {r : RegionInfo} {n i count : Nat}

/-- In numbers of segments. -/
theorem mem_following (hn : r.totalSize = n * r.segSize) :
    a ∈ following r (i * r.segSize) count ↔ ∃ j, 1 ≤ j ∧ j ≤ count ∧
      (i + j) % n = a / r.segSize := by
  have hpos := r.segSize_pos
  have hstart : ∀ j, (i * r.segSize + j * r.segSize) % r.totalSize = (i + j) % n * r.segSize := by
    intro j
    rw [hn, ← Nat.add_mul, Nat.mul_mod_mul_right]
  simp only [following, Set.mem_ofPred_eq, hstart]
  refine exists_congr fun j => and_congr_right fun _ => and_congr_right fun _ => ?_
  rw [← Nat.succ_mul, ← Nat.le_div_iff_mul_le hpos, ← Nat.div_lt_iff_lt_mul hpos]
  omega

theorem add_mod_segs {j : Nat} (hi : i < n) (hj : j < n) :
    (i + j) % n = if i + j < n then i + j else i + j - n := by
  split
  · rename_i hlt
    exact mod_eq_of_lt hlt
  · rename_i hge
    rw [mod_eq_sub_mod (not_lt.mp hge), mod_eq_of_lt (by omega)]

variable (hn : r.totalSize = n * r.segSize) (hi : i < n) (hcount : count < n)

include hn hi hcount

/-- The active segment is not among them. -/
theorem active_notMem_following (ha : a / r.segSize = i) :
    a ∉ following r (i * r.segSize) count := by
  rw [mem_following hn, ha]
  rintro ⟨j, hlo, hhi, hj⟩
  rw [add_mod_segs hi (by omega)] at hj
  split at hj <;> omega

theorem mem_following_straight (hend : i + 1 + count ≤ n) :
    a ∈ following r (i * r.segSize) count ↔ i + 1 ≤ a / r.segSize ∧
      a / r.segSize < i + 1 + count := by
  rw [mem_following hn]
  generalize a / r.segSize = seg
  constructor
  · rintro ⟨j, hlo, hhi, hj⟩
    rw [add_mod_segs hi (by omega), if_pos (by omega)] at hj
    omega
  · rintro ⟨hlo, hhi⟩
    refine ⟨seg - i, by omega, by omega, ?_⟩
    rw [add_mod_segs hi (by omega), if_pos (by omega)]
    omega

theorem mem_following_wrapped (hend : n < i + 1 + count) :
    a ∈ following r (i * r.segSize) count ↔
      (i + 1 ≤ a / r.segSize ∧ a / r.segSize < n) ∨ a / r.segSize < i + 1 + count - n := by
  rw [mem_following hn]
  generalize a / r.segSize = seg
  constructor
  · rintro ⟨j, hlo, hhi, hj⟩
    rw [add_mod_segs hi (by omega)] at hj
    split at hj <;> omega
  · rintro (⟨hlo, hhi⟩ | hlt)
    · refine ⟨seg - i, by omega, by omega, ?_⟩
      rw [add_mod_segs hi (by omega), if_pos (by omega)]
      omega
    · refine ⟨seg + n - i, by omega, by omega, ?_⟩
      rw [add_mod_segs hi (by omega), if_neg (by omega)]
      omega

end

/-- The addresses of a list of ranges, each with its start and its length. -/
def ranges (calls : List (Nat × Nat)) : Set Nat :=
    {a | ∃ call ∈ calls, call.1 ≤ a ∧ a < call.1 + call.2}

/-- The ranges of the calls are the segments that follow. -/
theorem following_eq_ranges {r : RegionInfo} {segOffset : Nat} (hseg : IsSeg r segOffset)
    {count : Nat} (hcount : count < r.totalSize / r.segSize) :
    following r segOffset count = ranges (wrappedCalls r segOffset (count * r.segSize)) := by
  have hpos := r.segSize_pos
  obtain ⟨n, hn⟩ := r.seg_dvd
  rw [mul_comm] at hn
  obtain ⟨⟨i, hi⟩, hle⟩ := isSeg_iff.mp hseg
  rw [mul_comm] at hi
  subst hi
  rw [hn, Nat.mul_div_cancel _ hpos] at hcount
  have hin : i < n := by
    rw [hn, ← Nat.succ_mul] at hle
    exact Nat.le_of_mul_le_mul_right hle hpos
  have hfront : i * r.segSize + r.segSize = (i + 1) * r.segSize := (Nat.succ_mul i r.segSize).symm
  ext a
  unfold ranges wrappedCalls
  rw [hfront, hn, ← Nat.add_mul, ← Nat.sub_mul, ← Nat.sub_mul]
  by_cases hwrap : n < i + 1 + count
  · rw [mem_following_wrapped hn hin hcount hwrap, if_pos (Nat.mul_lt_mul_of_pos_right hwrap hpos)]
    simp only [Set.mem_ofPred_eq, mem_cons, not_mem_nil, or_false, exists_eq_or_imp, exists_eq_left,
      Nat.zero_le, true_and, Nat.zero_add, ← Nat.add_mul, ← Nat.le_div_iff_mul_le hpos,
      ← Nat.div_lt_iff_lt_mul hpos]
    omega
  · rw [mem_following_straight hn hin hcount (by omega),
      if_neg (fun h => hwrap (Nat.lt_of_mul_lt_mul_right h))]
    simp only [Set.mem_ofPred_eq, mem_singleton, exists_eq_left, ← Nat.add_mul,
      ← le_div_iff_mul_le hpos, ← div_lt_iff_lt_mul hpos]

/-! ## What the calls do -/

theorem clearsAll_eraseOps (f : Image) (sectors offset : Nat) :
    ClearsAll f (Set.Ico offset (offset + sectors * nvramEraseAlignSize))
      (eraseOps f sectors offset) := by
  rcases Nat.eq_zero_or_pos sectors with rfl | hpos
  · rw [Nat.zero_mul, Nat.add_zero, Set.Ico_self]
    exact clearsAll_nil f
  · have hclears : Clears f offset (sectors * nvramEraseAlignSize) (eraseOps f sectors offset) :=
      ⟨allWithin_eraseOps f sectors offset, erased_eraseOps f sectors offset⟩
    exact hclears.clearsAll (Nat.mul_pos hpos (by decide))

theorem ranges_nil : ranges [] = ∅ := by
  ext a
  simp [ranges]

theorem ranges_cons (call : Nat × Nat) (calls : List (Nat × Nat)) :
    ranges (call :: calls) = Set.Ico call.1 (call.1 + call.2) ∪ ranges calls := by
  ext a
  simp [ranges]

/-- A list of erases in range. -/
theorem foldl_regionErase {r : RegionInfo} (calls : List (Nat × Nat)) (s : RegionState)
    (hcalls : ∀ call ∈ calls, call.1 + call.2 ≤ r.totalSize ∧ call.1 % nvramEraseAlignSize = 0 ∧
      call.2 % nvramEraseAlignSize = 0) :
    ∃ b ops, calls.foldl (fun s call => regionErase r s call.1 call.2) s = (s.issue ops).withBuf b ∧
      ClearsAll s.flash (ranges calls) ops := by
  induction calls generalizing s with
  | nil =>
    refine ⟨s.buf, [], by simp [RegionState.issue, RegionState.withBuf], ?_⟩
    rw [ranges_nil]
    exact clearsAll_nil s.flash
  | cons call calls ih =>
    obtain ⟨⟨hin, hoffset, hsize⟩, hrest⟩ := forall_mem_cons.mp hcalls
    have hsectors : call.2 / nvramEraseAlignSize * nvramEraseAlignSize = call.2 :=
      Nat.div_mul_cancel (Nat.dvd_of_mod_eq_zero hsize)
    obtain ⟨b, hb⟩ := regionErase_eq (r := r) s call.1 (call.2 / nvramEraseAlignSize)
      (by rw [hsectors]; exact hin) hoffset
    have hclears := clearsAll_eraseOps s.flash (call.2 / nvramEraseAlignSize) call.1
    rw [hsectors] at hb hclears
    generalize eraseOps s.flash (call.2 / nvramEraseAlignSize) call.1 = first at hb hclears
    obtain ⟨b', ops, hfold, hall⟩ := ih ((s.issue first).withBuf b) hrest
    refine ⟨b', first ++ ops, ?_, ?_⟩
    · rw [foldl_cons, hb, hfold]
      simp
    · rw [ranges_cons]
      exact hclears.append hall

/-- A search depends on the active segment only. -/
theorem Searchable.of_segment {r : RegionInfo} {t : RegionState} {row : List RawItem}
    (h : Searchable r s row) (hseg : t.segOffset = s.segOffset) (hmap : t.itemMap = s.itemMap)
    (hflash : ∀ a, s.segOffset ≤ a → a < s.segOffset + r.segSize → t.flash a = s.flash a) :
    Searchable r t row := by
  have hfits := h.fits
  refine ⟨hseg ▸ h.seg, ?_, hfits, hmap ▸ h.marks, ?_⟩
  · have hholds := h.holds
    rw [rowEnd] at hfits
    rw [hseg, Holds]
    refine (read_congr fun a hlo hhi => hflash a (by omega) (by omega)).trans hholds
  · rcases Nat.eq_or_lt_of_le hfits with hfull | hlt
    · exact .inl hfull
    · have hmagic := h.stop.resolve_left (Nat.ne_of_lt hlt)
      have hdvd := dvd_rowEnd row
      have hsixteen := sixteen_dvd_segSize r
      have hheader : readItemHeader t (s.segOffset + rowEnd row) =
          readItemHeader s (s.segOffset + rowEnd row) := by
        rw [readItemHeader, readItemHeader]
        refine congrArg ItemHeader.mk (read_congr fun a hlo hhi => hflash a (by omega) ?_)
        simp only [nvramItemAlignSize, itemHeaderSize] at *
        omega
      rw [hseg, hheader]
      exact .inr hmagic

/-- What `region_clear` is for: it asks for erases of the segments that follow the active one and of
nothing else, in range, and leaves them erased and everything else as it was. -/
structure ErasesAhead (r : RegionInfo) (s : RegionState) (clearSize : BitVec 32) (count : Nat) :
    Prop where
  asks : ∀ call ∈ clearCalls r s.segOffset clearSize,
    Set.Ico call.1.toNat (call.1.toNat + call.2.toNat) ⊆ following r s.segOffset count
  inRange : ∀ call ∈ clearCalls r s.segOffset clearSize, InRange r call
  flash : ∃ b ops, regionClear r s clearSize = (s.issue ops).withBuf b ∧
    ClearsAll s.flash (following r s.segOffset count) ops

/-- And no value changes. -/
structure ClearsAhead (r : RegionInfo) (s : RegionState) (clearSize : BitVec 32) (count : Nat) :
    Prop extends
    ErasesAhead r s clearSize count where
  gets : ∀ name maxLen, (regionGet r (regionClear r s clearSize) name maxLen).2 =
    (regionGet r s name maxLen).2

section

variable {r : RegionInfo} {k : Nat} (hpow : r.segSize = 2 ^ k) (htotal : r.totalSize < 2 ^ 31)

theorem clearCount_lt (r : RegionInfo) (c : Nat) : clearCount r c < r.totalSize / r.segSize := by
  have htwo : 2 ≤ r.totalSize / r.segSize := (le_div_iff_mul_le r.segSize_pos).mpr r.two_segs
  have hmin : clearCount r c ≤ r.totalSize / r.segSize - 1 := min_le_right _ _
  omega

/-- The calls of a request stay in the region, on sector boundaries. -/
theorem wrappedCalls_inRange {segOffset : Nat} (hseg : IsSeg r segOffset) {size : Nat}
    (hsize : size % nvramEraseAlignSize = 0) (hle : size ≤ r.totalSize - r.segSize) :
    ∀ call ∈ wrappedCalls r segOffset size, call.1 + call.2 ≤ r.totalSize ∧
      call.1 % nvramEraseAlignSize = 0 ∧ call.2 % nvramEraseAlignSize = 0 := by
  have hend := hseg.le
  have haligned := hseg.aligned
  have hsector : r.segSize % nvramEraseAlignSize = 0 := mod_eq_zero_of_dvd r.sector_dvd
  have htotal : r.totalSize % nvramEraseAlignSize = 0 :=
    mod_eq_zero_of_dvd (r.sector_dvd.trans r.seg_dvd)
  simp only [nvramEraseAlignSize] at *
  intro call hcall
  unfold wrappedCalls at hcall
  split at hcall
  · rcases mem_cons.mp hcall with rfl | hcall
    · exact ⟨by omega, by omega, by omega⟩
    · rw [mem_singleton.mp hcall]
      exact ⟨by omega, by omega, by omega⟩
  · rw [mem_singleton.mp hcall]
    exact ⟨by omega, by omega, by omega⟩

/-- A call as numbers. -/
def natCall (call : BitVec 32 × BitVec 32) : Nat × Nat := (call.1.toNat, call.2.toNat)

theorem regionClear_eq (s : RegionState) (clearSize : BitVec 32) :
    regionClear r s clearSize = ((clearCalls r s.segOffset clearSize).map natCall).foldl
      (fun s call => regionErase r s call.1 call.2) s := by
  rw [regionClear, foldl_map]
  rfl

include hpow htotal

/-- A request that does not become negative. -/
theorem natCall_clearCalls {segOffset : Nat} (hseg : IsSeg r segOffset)
    (hc : c ≤ 2 ^ 31 - r.segSize) :
    (clearCalls r segOffset (BitVec.ofNat 32 c)).map natCall =
        wrappedCalls r segOffset (clearCount r c * r.segSize) ∧
      ∀ call ∈ clearCalls r segOffset (BitVec.ofNat 32 c), InRange r call := by
  have hlen : clearLen r c ≤ r.totalSize - r.segSize := min_le_right _ _
  have hsector : clearLen r c % nvramEraseAlignSize = 0 := by
    rw [clearLen_eq]
    exact mod_eq_zero_of_dvd (r.sector_dvd.trans (dvd_mul_left _ _))
  have hcalls := wrappedCalls_inRange hseg hsector hlen
  rw [clearCalls_eq hpow htotal hseg.le hc, ← clearLen_eq]
  -- all numbers are small, so they are what their 32 bits say
  have hsmall : ∀ call ∈ wrappedCalls r segOffset (clearLen r c),
      natCall (BitVec.ofNat 32 call.1, BitVec.ofNat 32 call.2) = call := by
    intro call hcall
    have hin := (hcalls call hcall).1
    rw [natCall, toNat_ofNat, toNat_ofNat, mod_eq_of_lt (by omega),
      mod_eq_of_lt (by omega)]
  constructor
  · rw [map_map]
    exact (map_congr_left hsmall).trans (map_id'' (fun _ => rfl) _)
  · intro call hcall
    obtain ⟨pair, hpair, rfl⟩ := mem_map.mp hcall
    obtain ⟨hin, hoffset, hsize⟩ := hcalls pair hpair
    have hfirst : (BitVec.ofNat 32 pair.1).toNat = pair.1 := congrArg Prod.fst (hsmall pair hpair)
    have hsecond : (BitVec.ofNat 32 pair.2).toNat = pair.2 := congrArg Prod.snd (hsmall pair hpair)
    refine ⟨?_, ?_, ?_, ?_⟩ <;> dsimp only
    · rw [toInt_ofNat (by omega)]
      exact Int.natCast_nonneg _
    · rw [hfirst, hsecond]
      exact hin
    · rw [hfirst]
      exact hoffset
    · rw [hsecond]
      exact hsize

/-- Rounding up to the sign bit. -/
theorem roundUpMask_negative (hint : c < 2 ^ 31) (hc : 2 ^ 31 - r.segSize < c) :
    roundUpMask (BitVec.ofNat 32 c) (BitVec.ofNat 32 r.segSize) = BitVec.ofNat 32 (2 ^ 31) := by
  have hpos := r.segSize_pos
  have htwo := r.two_segs
  have hk : k < 31 := by
    by_contra hge
    have hle : 2 ^ 31 ≤ 2 ^ k := Nat.pow_le_pow_right (by decide) (Nat.not_lt.mp hge)
    omega
  obtain ⟨m, hm⟩ : r.segSize ∣ 2 ^ 31 := by
    rw [hpow]
    exact pow_dvd_pow 2 hk.le
  have hdiv : (c + (r.segSize - 1)) / r.segSize = m := by
    rw [Nat.mul_comm] at hm
    exact Nat.div_eq_of_lt_le (by omega) (by rw [Nat.succ_mul]; omega)
  have hround := roundUpMask_eq hk hint
  rw [← hpow, hdiv, mul_comm m, ← hm] at hround
  exact hround

/-- Such a request asks for the active segment as well. -/
theorem clearCalls_negative {segOffset : Nat} (hend : segOffset + r.segSize ≤ r.totalSize)
    (hint : c < 2 ^ 31) (hc : 2 ^ 31 - r.segSize < c) :
    ∃ call ∈ clearCalls r segOffset (BitVec.ofNat 32 c), call.1.toNat = 0 ∧
      segOffset < call.2.toNat := by
  have hpos := r.segSize_pos
  have hslt : (BitVec.ofNat 32 (r.totalSize - r.segSize)).slt (BitVec.ofNat 32 (2 ^ 31)) =
      false := by
    have hnegative : (BitVec.ofNat 32 (2 ^ 31)).toInt = -2 ^ 31 := by decide
    rw [BitVec.slt, toInt_ofNat (by omega), hnegative, decide_eq_false_iff_not]
    omega
  unfold clearCalls
  dsimp only
  rw [roundUpMask_negative hpow htotal hint hc, ofNat_sub_ofNat_of_le _ _ (by omega) (by omega),
    hslt,
    if_neg Bool.false_ne_true, ← ofNat_add, ← ofNat_add, ult_ofNat (by omega) (by omega),
    if_pos (decide_eq_true (by omega)), ofNat_sub_ofNat_of_le _ _ (by omega) (by omega),
    ofNat_sub_ofNat_of_le _ _ (by omega) (by omega)]
  refine ⟨_, mem_cons_of_mem _ mem_cons_self, rfl, ?_⟩
  rw [toNat_ofNat]
  omega

omit hpow htotal in
/-- The active segment is left alone. -/
theorem notMem_following {segOffset : Nat} (hseg : IsSeg r segOffset) (c : Nat)
    (hlo : segOffset ≤ a)
    (hhi : a < segOffset + r.segSize) : a ∉ following r segOffset (clearCount r c) := by
  have hpos := r.segSize_pos
  have hcount := clearCount_lt r c
  obtain ⟨n, hn⟩ := r.seg_dvd
  obtain ⟨⟨i, hi⟩, hle⟩ := isSeg_iff.mp hseg
  rw [mul_comm] at hi hn
  rw [hn, Nat.mul_div_cancel _ hpos] at hcount
  rw [hi, ← Nat.succ_mul] at hhi
  rw [hi, hn, ← Nat.succ_mul] at hle
  rw [hi] at hlo ⊢
  exact active_notMem_following hn (Nat.le_of_mul_le_mul_right hle hpos) hcount
    (Nat.div_eq_of_lt_le hlo hhi)

/-- A request that does not become negative does what it is for. -/
theorem erasesAhead_of_le (hseg : IsSeg r s.segOffset) (hc : c ≤ 2 ^ 31 - r.segSize) :
    ErasesAhead r s (BitVec.ofNat 32 c) (clearCount r c) := by
  obtain ⟨hcalls, hrange⟩ := natCall_clearCalls hpow htotal hseg hc
  have hfollowing := following_eq_ranges hseg (clearCount_lt r c)
  have hnat : ∀ call ∈ (clearCalls r s.segOffset (BitVec.ofNat 32 c)).map natCall,
      call.1 + call.2 ≤ r.totalSize ∧ call.1 % nvramEraseAlignSize = 0 ∧
        call.2 % nvramEraseAlignSize = 0 := by
    intro call hcall
    obtain ⟨pair, hpair, rfl⟩ := mem_map.mp hcall
    exact ⟨(hrange pair hpair).inside, (hrange pair hpair).offset, (hrange pair hpair).size⟩
  obtain ⟨b, ops, hfold, hclears⟩ := foldl_regionErase _ s hnat
  rw [← regionClear_eq] at hfold
  rw [hcalls, ← hfollowing] at hclears
  refine ⟨fun call hcall a ha => ?_, hrange, ⟨b, ops, hfold, hclears⟩⟩
  rw [hfollowing, ← hcalls]
  exact ⟨natCall call, mem_map_of_mem hcall, ha⟩

omit hpow htotal in
/-- Then a search in the active segment finds what it found before. -/
theorem ErasesAhead.gets {row : List RawItem} (h : Searchable r s row)
    (herases : ErasesAhead r s (BitVec.ofNat 32 c) (clearCount r c)) (name : List UInt8)
    (maxLen : Nat) :
    (regionGet r (regionClear r s (BitVec.ofNat 32 c)) name maxLen).2 =
    (regionGet r s name maxLen).2 := by
  obtain ⟨b, ops, hfold, hclears⟩ := herases.flash
  rw [hfold]
  have hafter : Searchable r ((s.issue ops).withBuf b) row :=
    h.of_segment rfl rfl fun a hlo hhi =>
      hclears.applyAll_eq s.flash (notMem_following h.seg c hlo hhi)
  rcases Nat.eq_zero_or_pos maxLen with rfl | hlen
  · rfl
  · obtain ⟨_, hget⟩ := h.get name hlen
    obtain ⟨_, hget'⟩ := hafter.get name hlen
    rw [hget', hget]
    rfl

/-- `region_clear` erases what it is for if rounding does not make the request negative, and for no
other request. No value changes where the items end in the active segment. -/
theorem regionClear_iff {s : RegionState} (hseg : IsSeg r s.segOffset) {c : Nat}
    (hint : c < 2 ^ 31) :
    (ErasesAhead r s (BitVec.ofNat 32 c) (clearCount r c) ↔ c ≤ 2 ^ 31 - r.segSize) ∧
      ∀ row, Searchable r s row →
        (ClearsAhead r s (BitVec.ofNat 32 c) (clearCount r c) ↔ c ≤ 2 ^ 31 - r.segSize) := by
  have herases : ErasesAhead r s (BitVec.ofNat 32 c) (clearCount r c) ↔ c ≤ 2 ^ 31 - r.segSize := by
    refine ⟨fun herases => ?_, erasesAhead_of_le hpow htotal hseg⟩
    by_contra hc
    have hpos := r.segSize_pos
    -- the second erase is asked for the active segment as well
    obtain ⟨call, hcall, hzero, hlt⟩ := clearCalls_negative hpow htotal hseg.le hint (not_le.mp hc)
    have hmem := herases.asks call hcall (Set.mem_Ico.mpr ⟨by omega, by omega⟩ : s.segOffset ∈ _)
    exact notMem_following hseg c le_rfl (by omega) hmem
  refine ⟨herases, fun row h => ⟨fun hclears => herases.mp hclears.toErasesAhead, fun hc => ?_⟩⟩
  have herased := herases.mpr hc
  exact ⟨herased, herased.gets h⟩

end

/-- The factory region with its first segment in use and its second one active. -/
def secondActive : RegionState :=
  { powerOn factoryNvramRegion (fun a => if a < 0x1000 then 0 else 0xff) with segOffset := 0x1000 }

/-- A request for the largest size erases nothing: the erase of the first segment is asked for `2 ^
31` bytes and refused. -/
theorem largest_clear_erases_nothing :
    clearCalls factoryNvramRegion secondActive.segOffset 0x7fffffff =
      [(0x2000, 0), (0, 0x80000000)] ∧
      ¬ InRange factoryNvramRegion (0, 0x80000000) ∧
      regionClear factoryNvramRegion secondActive 0x7fffffff = secondActive ∧
      clearCount factoryNvramRegion 0x7fffffff = 1 ∧
      ¬ ErasesAhead factoryNvramRegion secondActive 0x7fffffff 1 := by
  have hcalls : clearCalls factoryNvramRegion secondActive.segOffset 0x7fffffff =
      [(0x2000, 0), (0, 0x80000000)] := by
    decide
  have hrange : ¬ InRange factoryNvramRegion (0, 0x80000000) := fun h => absurd h.nonneg (by decide)
  refine ⟨hcalls, hrange, ?_, by decide, fun h => hrange (h.inRange _ ?_)⟩
  · rw [regionClear, hcalls]
    rfl
  · rw [hcalls]
    exact mem_cons_of_mem _ mem_cons_self

/-- The items `A` and `B`. -/
def twoItems : List Item :=
  [⟨[0x41], [5, 6, 7], by decide, by decide, by decide, by decide⟩,
    ⟨[0x42], [3], by decide, by decide, by decide, by decide⟩]

/-- The factory region with these items in its first segment, and its second one in use. -/
def firstActive : RegionState :=
  storeAll factoryNvramRegion (regionInitNewSeg factoryNvramRegion
    (powerOn factoryNvramRegion fun a => if a < 0x1000 then 0xff else 0) 0) twoItems

/-- A request for one byte erases the other segment, and the two items stay readable. -/
theorem smallest_clear_erases_other :
    ClearsAhead factoryNvramRegion firstActive 1 1 := by
  have hlaid : Laid factoryNvramRegion firstActive ([] ++ twoItems.map Item.raw) :=
    (Laid.storeAll (P := fun _ => True) twoItems (fun _ _ _ _ _ => trivial) trivial
      (laid_init (mapSized_powerOn _ _)) nofun (by decide) (by decide)).2
  exact ((regionClear_iff (k := 12) (c := 1) (by decide) (by decide) hlaid.seg (by decide)).2 _
    hlaid.searchable).mpr (by decide)

end SpeakerFirmware.Nvram
