/-
# What the frame check detects

`py32_crc16` adds a byte to the low end of the register and shifts eight times. That is a
reflected check which takes the bits of the frame in the order in which the UART sends them, so it
detects every burst of errors of at most sixteen bits, however long the frame is.
-/

import SpeakerFirmware.Lib.ReflectedCrc
import SpeakerFirmware.Py32.Model

namespace SpeakerFirmware.Py32

open ReflectedCrc

/-- The bits of a byte string in transmission order. -/
def wireBits (data : List UInt8) : List Bool :=
  data.flatMap fun byte => (List.range 8).map byte.toBitVec.getLsbD

theorem wireBits_cons (byte : UInt8) (data : List UInt8) :
    wireBits (byte :: data) = (List.range 8).map byte.toBitVec.getLsbD ++ wireBits data :=
  List.flatMap_cons

theorem length_wireBits (data : List UInt8) : (wireBits data).length = 8 * data.length := by
  simp [wireBits, List.length_flatMap, Nat.mul_comm]

theorem wireBits_injective : Function.Injective wireBits := by
  intro a b h
  induction a generalizing b with
  | nil =>
    cases b with
    | nil => rfl
    | cons y ys => cases h
  | cons x xs ih =>
    cases b with
    | nil => cases h
    | cons y ys =>
      rw [wireBits_cons, wireBits_cons] at h
      obtain ⟨hbits, hrest⟩ := List.append_inj h (by simp)
      have hxy : x = y := by
        apply UInt8.toBitVec_inj.1
        apply BitVec.eq_of_getLsbD_eq
        intro i hi
        exact List.map_inj_left.1 hbits i (List.mem_range.2 hi)
      rw [hxy, ih hrest]

theorem and_one_ne_zero_iff (crc : UInt16) : crc &&& 1 ≠ 0 ↔ crc.toBitVec.getLsbD 0 = true := by
  rw [Ne, ← UInt16.toNat_inj, UInt16.toNat_and, UInt16.toNat_one, Nat.and_one_is_mod]
  exact Nat.mod_two_ne_zero.trans Nat.mod_two_eq_one_iff_testBit_zero

theorem toBitVec_py32CrcShift (crc : UInt16) :
    (py32CrcShift crc).toBitVec = shift 0xA001#16 crc.toBitVec := by
  rw [py32CrcShift, shift]
  simp only [and_one_ne_zero_iff]
  split <;> rfl

theorem toBitVec_py32CrcByte (crc : UInt16) (byte : UInt8) : (py32CrcByte crc byte).toBitVec =
    ((List.range 8).map byte.toBitVec.getLsbD).foldl (feed 0xA001#16) crc.toBitVec := by
  have hshift : Function.Semiconj UInt16.toBitVec py32CrcShift (shift 0xA001#16) :=
    toBitVec_py32CrcShift
  have hword : byte.toUInt16.toBitVec.toNat < 2 ^ 8 := byte.toNat_lt
  rw [py32CrcByte, (hshift.iterate_right 8).eq, UInt16.toBitVec_xor,
    iterate_shift_xor (by decide) 8 _ _ hword]
  rfl

theorem toBitVec_py32Crc16 (data : List UInt8) :
    (py32Crc16 data).toBitVec = (wireBits data).foldl (feed 0xA001#16) 0xFFFF#16 := by
  rw [py32Crc16, wireBits, List.foldl_flatMap]
  exact (List.foldl_hom UInt16.toBitVec fun crc byte => (toBitVec_py32CrcByte crc byte).symm).symm

/-- Strings of one length that differ, and only within a window of sixteen bits. -/
theorem py32Crc16_burst {a b : List UInt8} {start : Nat} (hlen : a.length = b.length) (hne : a ≠ b)
    (hwin : ∀ i, (wireBits a)[i]? ≠ (wireBits b)[i]? → start ≤ i ∧ i < start + 16) :
    py32Crc16 a ≠ py32Crc16 b := by
  have h : (wireBits a).foldl (feed 0xA001#16) 0xFFFF#16 ≠
      (wireBits b).foldl (feed 0xA001#16) 0xFFFF#16 :=
    foldl_feed_ne (by decide) (by rw [length_wireBits, length_wireBits, hlen])
      (wireBits_injective.ne hne) hwin
  rw [← toBitVec_py32Crc16, ← toBitVec_py32Crc16] at h
  exact fun heq => h (congrArg _ heq)

theorem py32Crc16_burst_two_bytes : py32Crc16 [0x01, 0x80] ≠ py32Crc16 [0xfe, 0x7f] :=
  py32Crc16_burst rfl (by decide) fun i h => by
    refine ⟨Nat.zero_le i, ?_⟩
    by_contra hi
    exact h ((List.getElem?_eq_none (Nat.le_of_not_lt hi)).trans
      (List.getElem?_eq_none (Nat.le_of_not_lt hi)).symm)

end SpeakerFirmware.Py32
