/-
# The version of the next firmware

`ota_auto_update_version` counts the version code up by one. Each of its three low bytes is a
number below 100: a byte that reached 100 is set back by 100 and the next one counts up, by an
addition that is tried twice.
-/

import Mathlib.Data.UInt

namespace SpeakerFirmware.Ota

open Nat

/-- `if ((version_code & 0xFF) >= 0x64) version_code += 0x9C`, for the byte that counts `unit`s. -/
def carryAt (unit code : Nat) : Nat :=
  if code &&& 0xFF * unit ≥ 0x64 * unit then (code + 0x9C * unit) % 2 ^ 32 else code

/-- The new version code of `ota_auto_update_version` with `OTA_FWVERSION_LIMIT_100`. -/
def autoUpdateVersion (code : Nat) : Nat :=
  let code := (code + 1) % 2 ^ 32
  let code := carryAt 0x1 (carryAt 0x1 code)
  let code := carryAt 0x100 (carryAt 0x100 code)
  carryAt 0x10000 (carryAt 0x10000 code)

/-- The number a version code stands for when its three low bytes are digits. -/
def versionNumber (code : Nat) : Nat :=
  ((code / 2 ^ 24 * 100 + code / 2 ^ 16 % 256) * 100 + code / 2 ^ 8 % 256) * 100 + code % 256

theorem and_byte (n k : Nat) : n &&& 0xFF * 2 ^ k = n / 2 ^ k % 256 * 2 ^ k := by
  rw [← shiftLeft_eq, ← shiftLeft_eq, ← shiftRight_eq_div_pow,
    ← and_two_pow_sub_one_eq_mod _ 8]
  apply eq_of_testBit_eq
  intro i
  by_cases hi : k ≤ i <;> simp [hi]

theorem carryAt_eq {k code : Nat} (h : code + 156 * 2 ^ k < 2 ^ 32) : carryAt (2 ^ k) code =
    code + if 100 ≤ code / 2 ^ k % 256 then 156 * 2 ^ k else 0 := by
  rw [carryAt, and_byte, Nat.mod_eq_of_lt h]
  simp only [ge_iff_le, Nat.mul_le_mul_right_iff (Nat.two_pow_pos k)]
  split <;> rfl

/-- Tried twice, the addition leaves a digit and carries what the byte held above it. -/
theorem carryAt_carryAt {k n low : Nat} (hlow : low < 2 ^ k) (h : (n + 313) * 2 ^ k < 2 ^ 32) :
    carryAt (2 ^ k) (carryAt (2 ^ k) (n * 2 ^ k + low)) =
      ((n / 256 + n % 256 / 100) * 256 + n % 256 % 100) * 2 ^ k + low := by
  have hstep (m : Nat) (hm : m ≤ n + 156) : carryAt (2 ^ k) (m * 2 ^ k + low) =
      (m + if 100 ≤ m % 256 then 156 else 0) * 2 ^ k + low := by
    have hdiv : (m * 2 ^ k + low) / 2 ^ k = m := by
      rw [Nat.mul_comm, Nat.mul_add_div (Nat.two_pow_pos k), Nat.div_eq_of_lt hlow, Nat.add_zero]
    have hmul := Nat.mul_le_mul_right (2 ^ k) hm
    rw [add_mul] at h hmul
    rw [carryAt_eq (by omega), hdiv]
    split <;> rw [add_mul] <;> omega
  rw [hstep n (by omega), hstep _ (by split <;> omega)]
  congr 2
  split <;> split <;> omega

/-- The new code, byte by byte. -/
theorem autoUpdateVersion_eq {code n1 n2 d0 d1 : Nat} (h : code / 2 ^ 24 < 0xFD)
    (hn1 : n1 = (code + 1) / 256 + (code + 1) % 256 / 100) (hd0 : d0 = (code + 1) % 256 % 100)
    (hn2 : n2 = n1 / 256 + n1 % 256 / 100) (hd1 : d1 = n1 % 256 % 100) : autoUpdateVersion code =
      ((n2 / 256 + n2 % 256 / 100) * 256 + n2 % 256 % 100) * 2 ^ 16 + (d1 * 2 ^ 8 + d0) := by
  have h0 := @carryAt_carryAt 0 (code + 1) 0 (by decide) (by omega)
  have h1 := @carryAt_carryAt 8 n1 d0 (by omega) (by omega)
  have h2 := @carryAt_carryAt 16 n2 (d1 * 2 ^ 8 + d0) (by omega) (by omega)
  rw [← hn2, ← hd1, add_mul, add_assoc, mul_assoc] at h1
  simp only [reducePow, reduceMul, mul_one, add_zero, ← hn1, ← hd0] at h0 h1 h2 ⊢
  rw [autoUpdateVersion, mod_eq_of_lt (by omega), h0, h1, h2]

theorem bytes_eq {t d0 d1 d2 : Nat} (h0 : d0 < 100) (h1 : d1 < 100) (h2 : d2 < 100) :
    let code := (t * 256 + d2) * 2 ^ 16 + (d1 * 2 ^ 8 + d0)
    code % 256 = d0 ∧ code / 2 ^ 8 % 256 = d1 ∧ code / 2 ^ 16 % 256 = d2 ∧ code / 2 ^ 24 = t := by
  refine ⟨?_, ?_, ?_, ?_⟩ <;> omega

/-- Counting in digits: `n1` and `n2` are what the low byte and the next one carry to. -/
theorem versionNumber_succ {code n1 n2 : Nat} (h0 : code % 256 < 100)
    (h1 : code / 2 ^ 8 % 256 < 100)
    (h2 : code / 2 ^ 16 % 256 < 100) (hn1 : n1 = (code + 1) / 256 + (code + 1) % 256 / 100)
    (hn2 : n2 = n1 / 256 + n1 % 256 / 100) :
    (((n2 / 256 + n2 % 256 / 100) * 100 + n2 % 256 % 100) * 100 + n1 % 256 % 100) * 100 +
      (code + 1) % 256 % 100 = versionNumber code + 1 := by
  have hm1 : n1 % 256 = code / 2 ^ 8 % 256 + (code + 1) % 256 / 100 := by omega
  have hq1 : n1 / 256 = code / 2 ^ 16 := by omega
  have hm2 : n2 % 256 = code / 2 ^ 16 % 256 + n1 % 256 / 100 := by omega
  have hq2 : n2 / 256 = code / 2 ^ 24 := by omega
  rw [versionNumber]
  omega

/-- The code grows and its low bytes are digits; if they were digits before, it counts by one. -/
theorem autoUpdateVersion_succ {code : Nat} (h : code / 2 ^ 24 < 0xFD) :
    code < autoUpdateVersion code ∧ autoUpdateVersion code % 256 < 100 ∧
      autoUpdateVersion code / 2 ^ 8 % 256 < 100 ∧ autoUpdateVersion code / 2 ^ 16 % 256 < 100 ∧
      (code % 256 < 100 → code / 2 ^ 8 % 256 < 100 → code / 2 ^ 16 % 256 < 100 →
        versionNumber (autoUpdateVersion code) = versionNumber code + 1) := by
  have hdigit (n : Nat) : n % 256 % 100 < 100 := mod_lt _ (by decide)
  have hgrow (n : Nat) : n ≤ (n / 256 + n % 256 / 100) * 256 + n % 256 % 100 := by omega
  obtain ⟨n1, hn1⟩ : ∃ n1, n1 = (code + 1) / 256 + (code + 1) % 256 / 100 := ⟨_, rfl⟩
  obtain ⟨n2, hn2⟩ : ∃ n2, n2 = n1 / 256 + n1 % 256 / 100 := ⟨_, rfl⟩
  have hlt : code < ((n2 / 256 + n2 % 256 / 100) * 256 + n2 % 256 % 100) * 2 ^ 16 +
      (n1 % 256 % 100 * 2 ^ 8 + (code + 1) % 256 % 100) := by
    have h0 := hgrow (code + 1)
    have h1 := hgrow n1
    have h2 := hgrow n2
    omega
  obtain ⟨hb0, hb1, hb2, hb3⟩ := bytes_eq (t := n2 / 256 + n2 % 256 / 100) (hdigit (code + 1))
    (hdigit n1) (hdigit n2)
  rw [autoUpdateVersion_eq h hn1 rfl hn2 rfl, versionNumber, hb0, hb1, hb2, hb3]
  exact ⟨hlt, hdigit _, hdigit _, hdigit _, fun h0 h1 h2 => versionNumber_succ h0 h1 h2 hn1 hn2⟩

/-- `99.99.99` with a top byte is followed by the next top byte. -/
theorem autoUpdateVersion_succ_nines : autoUpdateVersion 0x01636363 = 0x02000000 ∧
    versionNumber (autoUpdateVersion 0x01636363) = versionNumber 0x01636363 + 1 :=
  ⟨by decide, (autoUpdateVersion_succ (by decide)).2.2.2.2 (by decide) (by decide) (by decide)⟩

end SpeakerFirmware.Ota
