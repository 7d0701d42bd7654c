/-
# What the flash accesses of the driver do

One lemma for each function below the item walks: what it returns and what it
issues. Reads only change the shared buffer; writes and erases issue operations
inside the range they are given.
-/

import SpeakerFirmware.Nvram.Layout

namespace SpeakerFirmware.Nvram

open NorFlash

variable {r : RegionInfo}

/-- The state with other contents of `nvram_buf`. -/
def RegionState.withBuf (s : RegionState) (b : List UInt8) : RegionState := { s with buf := b }

@[simp]
theorem withBuf_flash (s : RegionState) (b : List UInt8) : (s.withBuf b).flash = s.flash := rfl

@[simp]
theorem withBuf_buf (s : RegionState) (b : List UInt8) : (s.withBuf b).buf = b := rfl

@[simp]
theorem withBuf_ops (s : RegionState) (b : List UInt8) : (s.withBuf b).ops = s.ops := rfl

@[simp]
theorem withBuf_segOffset (s : RegionState) (b : List UInt8) :
    (s.withBuf b).segOffset = s.segOffset := rfl

@[simp]
theorem withBuf_segWriteOffset (s : RegionState) (b : List UInt8) :
    (s.withBuf b).segWriteOffset = s.segWriteOffset := rfl

@[simp]
theorem withBuf_withBuf (s : RegionState) (b b' : List UInt8) :
    (s.withBuf b).withBuf b' = s.withBuf b' := rfl

@[simp]
theorem issue_withBuf (s : RegionState) (b : List UInt8) (ops : List Op) :
    (s.withBuf b).issue ops = (s.issue ops).withBuf b := rfl

@[simp]
theorem issue_nil (s : RegionState) : s.issue [] = s := by
  simp [RegionState.issue]

@[simp]
theorem issue_issue (s : RegionState) (first second : List Op) :
    (s.issue first).issue second = s.issue (first ++ second) := by
  simp [RegionState.issue, applyAll_append, List.append_assoc]

/-! ## Reads -/

theorem regionReadBuf_eq (s : RegionState) {offset len : Nat} (hin : offset + len ≤ r.totalSize) :
    regionReadBuf r s offset len = s.withBuf (read s.flash offset len ++ s.buf.drop len) := by
  rw [regionReadBuf, if_neg (Nat.not_lt.mpr hin)]
  rfl

theorem take_read_append (f : Image) (offset len : Nat) (rest : List UInt8) :
    (read f offset len ++ rest).take len = read f offset len := by
  rw [List.take_append_of_le_length (by simp), List.take_of_length_le (by simp)]

/-- The emptiness check of a range of whole words. -/
theorem regionIsEmpty_eq (fuel : Nat) (s : RegionState) (offset size : Nat) (hfuel : size ≤ fuel)
    (hwords : 4 ∣ size) :
    ∃ b, regionIsEmpty fuel s offset size =
      (s.withBuf b, isErased s.flash offset size) := by
  induction fuel generalizing s offset size with
  | zero =>
    have hzero : size = 0 := Nat.le_zero.mp hfuel
    subst hzero
    exact ⟨s.buf, rfl⟩
  | succ fuel ih =>
    rw [regionIsEmpty]
    by_cases hzero : size = 0
    · subst hzero
      exact ⟨s.buf, rfl⟩
    · have hpiece : min size nvramBufferSize / 4 * 4 = min size nvramBufferSize := by
        simp only [nvramBufferSize]
        omega
      have hsplit : size = min size nvramBufferSize + (size - min size nvramBufferSize) := by
        omega
      have hpos : 0 < min size nvramBufferSize := by
        simp only [nvramBufferSize]
        omega
      have hrest : 4 ∣ size - min size nvramBufferSize := by omega
      generalize min size nvramBufferSize = n at hpiece hsplit hpos hrest ⊢
      rw [if_neg hzero]
      dsimp only
      rw [hpiece, take_read_append, ← isErased_eq_all_read]
      cases hempty : isErased s.flash offset n with
      | true =>
        obtain ⟨b, hb⟩ := ih (s.withBuf (read s.flash offset n ++ s.buf.drop n))
          (offset + n) (size - n) (by omega) hrest
        refine ⟨b, ?_⟩
        rw [if_pos rfl]
        refine hb.trans ?_
        conv_rhs => rw [hsplit, isErased_add, hempty, Bool.true_and]
        rfl
      | false =>
        refine ⟨read s.flash offset n ++ s.buf.drop n, ?_⟩
        rw [if_neg Bool.false_ne_true]
        conv_rhs => rw [hsplit, isErased_add, hempty, Bool.false_and]
        rfl

/-- The CRC of the data, read piece by piece. -/
theorem itemCalcDataCrc_eq (fuel : Nat) (s : RegionState) (offset size : Nat) (crc : UInt8)
    (hfuel : size ≤ fuel) (hin : offset + size ≤ r.totalSize) :
    ∃ b, itemCalcDataCrc r fuel s offset size crc =
      (s.withBuf b, calcCrc8 (read s.flash offset size) crc) := by
  induction fuel generalizing s offset size crc with
  | zero =>
    have hzero : size = 0 := Nat.le_zero.mp hfuel
    subst hzero
    exact ⟨s.buf, rfl⟩
  | succ fuel ih =>
    rw [itemCalcDataCrc]
    by_cases hzero : size = 0
    · subst hzero
      exact ⟨s.buf, rfl⟩
    · have hsplit : size = min size nvramBufferSize + (size - min size nvramBufferSize) := by
        omega
      have hpos : 0 < min size nvramBufferSize := by
        simp only [nvramBufferSize]
        omega
      generalize min size nvramBufferSize = n at hsplit hpos ⊢
      rw [if_neg hzero]
      dsimp only
      rw [regionReadBuf_eq s (by omega), withBuf_buf, take_read_append]
      obtain ⟨b, hb⟩ := ih (s.withBuf (read s.flash offset n ++ s.buf.drop n)) (offset + n)
        (size - n) (calcCrc8 (read s.flash offset n) crc) (by omega) (by omega)
      refine ⟨b, ?_⟩
      rw [hb]
      conv_rhs => rw [hsplit, read_add, calcCrc8, List.foldl_append]
      rfl

/-! ## Writes -/

theorem regionWrite_eq (s : RegionState) {offset : Nat} {bytes : List UInt8}
    (hin : offset + bytes.length ≤ r.totalSize) :
    regionWrite r s offset bytes = s.issue (nvramStorageWrite offset bytes) := by
  rw [regionWrite, if_neg (Nat.not_lt.mpr hin)]

/-- The pieces of a write, one operation each. -/
def writePieces (bytes : List UInt8) : List (List UInt8) :=
  pieces nvramStorageWriteSegmentSize bytes.length bytes

theorem flatten_writePieces (bytes : List UInt8) : (writePieces bytes).flatten = bytes :=
  flatten_pieces (by decide) le_rfl

theorem nvramStorageWrite_eq (addr : Nat) (bytes : List UInt8) :
    nvramStorageWrite addr bytes = programs addr (writePieces bytes) := rfl

theorem allWithin_nvramStorageWrite (addr : Nat) (bytes : List UInt8) :
    AllWithin addr (addr + bytes.length) (nvramStorageWrite addr bytes) := by
  have h := allWithin_programs addr (writePieces bytes)
  rwa [flatten_writePieces] at h

theorem Erased.nvramStorageWrite {f : Image} {addr : Nat} {bytes : List UInt8}
    (h : Erased f addr bytes.length) :
    Holds (applyAll (nvramStorageWrite addr bytes) f) addr bytes := by
  rw [← flatten_writePieces bytes] at h
  have hprog := h.programs
  rwa [flatten_writePieces] at hprog

/-- A write of one byte is one operation. -/
theorem nvramStorageWrite_singleton (addr : Nat) (byte : UInt8) :
    nvramStorageWrite addr [byte] = [.program addr [byte]] := rfl

/-! ## Erasing -/

/-- The operations of the erase loop: the sectors that are not empty yet. -/
def eraseOps (f : Image) : Nat → Nat → List Op
  | 0, _ => []
  | sectors + 1, offset =>
    (if isErased f offset nvramEraseAlignSize then [] else [.erase offset nvramEraseAlignSize]) ++
      eraseOps f sectors (offset + nvramEraseAlignSize)

theorem isErased_congr {f g : Image} {addr len : Nat}
    (h : ∀ a, addr ≤ a → a < addr + len → f a = g a) :
    isErased f addr len = isErased g addr len := by
  rw [isErased_eq_all_read, isErased_eq_all_read, read_congr h]

theorem eraseOps_congr {f g : Image} (sectors offset : Nat) (h : ∀ a, offset ≤ a → f a = g a) :
    eraseOps f sectors offset = eraseOps g sectors offset := by
  induction sectors generalizing offset with
  | zero => rfl
  | succ sectors ih =>
    have hone : isErased f offset nvramEraseAlignSize = isErased g offset nvramEraseAlignSize :=
      isErased_congr fun a ha _ => h a ha
    rw [eraseOps, eraseOps, hone, ih _ fun a ha => h a (by omega)]

theorem eraseSectors_eq (sectors : Nat) (s : RegionState) (offset : Nat) :
    ∃ b, eraseSectors sectors s offset =
      (s.issue (eraseOps s.flash sectors offset)).withBuf b := by
  induction sectors generalizing s offset with
  | zero => exact ⟨s.buf, by simp [eraseSectors, eraseOps, RegionState.withBuf]⟩
  | succ sectors ih =>
    obtain ⟨b, hb⟩ := regionIsEmpty_eq nvramEraseAlignSize s offset nvramEraseAlignSize le_rfl
      (by decide)
    rw [eraseSectors, hb, eraseOps]
    cases hempty : isErased s.flash offset nvramEraseAlignSize with
    | true =>
      obtain ⟨b', hb'⟩ := ih (s.withBuf b) (offset + nvramEraseAlignSize)
      exact ⟨b', by simpa using hb'⟩
    | false =>
      obtain ⟨b', hb'⟩ := ih ((s.withBuf b).issue [.erase offset nvramEraseAlignSize])
        (offset + nvramEraseAlignSize)
      have hlater : eraseOps (s.issue [.erase offset nvramEraseAlignSize]).flash sectors
            (offset + nvramEraseAlignSize) =
          eraseOps s.flash sectors (offset + nvramEraseAlignSize) :=
        eraseOps_congr _ _ fun a ha => Op.apply_erase_outside s.flash (.inr ha)
      refine ⟨b', ?_⟩
      simpa [hlater] using hb'

theorem allWithin_eraseOps (f : Image) (sectors offset : Nat) :
    AllWithin offset (offset + sectors * nvramEraseAlignSize) (eraseOps f sectors offset) := by
  induction sectors generalizing offset with
  | zero => exact allWithin_nil _ _
  | succ sectors ih =>
    rw [eraseOps, allWithin_append, Nat.succ_mul]
    refine ⟨?_, (ih _).mono (by omega) (by omega)⟩
    split
    · exact allWithin_nil _ _
    · exact allWithin_cons.mpr ⟨⟨le_rfl, by omega⟩, allWithin_nil _ _⟩

/-- Behind the erase loop the whole range is erased. -/
theorem erased_eraseOps (f : Image) (sectors offset : Nat) :
    Erased (applyAll (eraseOps f sectors offset) f) offset (sectors * nvramEraseAlignSize) := by
  induction sectors generalizing f offset with
  | zero => simpa using erased_zero _ _
  | succ sectors ih =>
    have hsize : (sectors + 1) * nvramEraseAlignSize =
        nvramEraseAlignSize + sectors * nvramEraseAlignSize := by
      rw [Nat.succ_mul, Nat.add_comm]
    rw [eraseOps, applyAll_append, hsize, erased_add]
    have hfirst : ∀ g : Image, Erased g offset nvramEraseAlignSize →
        Erased (applyAll (eraseOps f sectors (offset + nvramEraseAlignSize)) g) offset
          nvramEraseAlignSize := fun g hg =>
      (allWithin_eraseOps _ _ _).erased hg (.inl le_rfl)
    cases hempty : isErased f offset nvramEraseAlignSize with
    | true => exact ⟨hfirst f (isErased_iff.mp hempty), ih f _⟩
    | false =>
      rw [if_neg Bool.false_ne_true, applyAll_cons, applyAll_nil]
      refine ⟨hfirst _ ?_, ?_⟩
      · intro a hlo hhi
        simp [Op.apply, hlo, hhi]
      · have hlater := eraseOps_congr (f := f)
          (g := (Op.erase offset nvramEraseAlignSize).apply f) sectors
          (offset + nvramEraseAlignSize) fun a ha =>
            (Op.apply_erase_outside f (.inr ha)).symm
        rw [hlater]
        exact ih _ _

theorem regionErase_eq (s : RegionState) (offset sectors : Nat)
    (hin : offset + sectors * nvramEraseAlignSize ≤ r.totalSize)
    (halign : offset % nvramEraseAlignSize = 0) :
    ∃ b, regionErase r s offset (sectors * nvramEraseAlignSize) =
      (s.issue (eraseOps s.flash sectors offset)).withBuf b := by
  have hok : ¬ (offset + sectors * nvramEraseAlignSize > r.totalSize ∨
      offset % nvramEraseAlignSize ≠ 0 ∨
      sectors * nvramEraseAlignSize % nvramEraseAlignSize ≠ 0) := by
    rw [Nat.mul_mod_left]
    omega
  rw [regionErase, if_neg hok, Nat.mul_div_cancel _ (by decide)]
  exact eraseSectors_eq sectors s offset

end SpeakerFirmware.Nvram
