/-
# Volume levels of LE audio

LE audio counts the volume from 0 to 255, the speaker from 0 to the number of its levels. Both
conversions of `bt_manager_audio.c` round down, one of them from the upper end of a step, so a
level survives the way to LE audio and back.
-/

import Mathlib.Data.UInt

namespace SpeakerFirmware.Audio

open Nat

/-- `bt_manager_music_to_lea_volume`, for the level count `maxVolume` of the audio policy. -/
def musicToLeaVolume (maxVolume musicVol : Nat) : Nat :=
  if musicVol = 0 then 0
  else if musicVol ≥ maxVolume then 255
  else musicVol * 256 % 2 ^ 32 / maxVolume

/-- `bt_manager_lea_to_music_volume`. -/
def leaToMusicVolume (maxVolume leaVol : Nat) : Nat :=
  if leaVol = 0 then 0
  else if leaVol ≥ 255 then maxVolume
  else (leaVol + 1) * maxVolume % 2 ^ 32 / 256

section

variable {maxVolume : Nat} (hpos : 1 ≤ maxVolume) (hmax : maxVolume ≤ 255)
include hmax

/-- Both ends and the middle are one formula. -/
theorem leaToMusicVolume_eq (leaVol : Nat) :
    leaToMusicVolume maxVolume leaVol = (min leaVol 255 + 1) * maxVolume / 256 := by
  have hmul := mul_le_mul_right maxVolume (show min leaVol 255 + 1 ≤ 256 by omega)
  rw [leaToMusicVolume]
  split_ifs with h0 h255
  · rw [h0, Nat.zero_min, Nat.zero_add, Nat.one_mul]
    omega
  · rw [Nat.min_eq_right h255]
    omega
  · rw [min_eq_left (by omega)] at hmul ⊢
    rw [mod_eq_of_lt (by omega)]

include hpos

theorem musicToLeaVolume_eq (musicVol : Nat) :
    musicToLeaVolume maxVolume musicVol = min 255 (musicVol * 256 / maxVolume) := by
  rw [musicToLeaVolume]
  split_ifs with h0 hge
  · rw [h0, Nat.zero_mul, Nat.zero_div, Nat.min_zero]
  · have : 256 ≤ musicVol * 256 / maxVolume := (Nat.le_div_iff_mul_le hpos).2 (by omega)
    omega
  · have : musicVol * 256 / maxVolume < 256 := (div_lt_iff_lt_mul hpos).2 (by omega)
    rw [mod_eq_of_lt (by omega)]
    omega

theorem leaToMusicVolume_musicToLeaVolume {musicVol : Nat} (h : musicVol ≤ maxVolume) :
    leaToMusicVolume maxVolume (musicToLeaVolume maxVolume musicVol) = musicVol := by
  have hlo := div_mul_le_self (musicVol * 256) maxVolume
  have hhi : musicVol * 256 < _ := lt_div_mul_add hpos
  rw [leaToMusicVolume_eq hmax, musicToLeaVolume_eq hpos hmax, min_right_comm, min_self]
  generalize musicVol * 256 / maxVolume = lea at hlo hhi
  rcases le_total lea 255 with hlea | hlea
  · rw [min_eq_right hlea, add_mul]
    omega
  · have := mul_le_mul_right maxVolume hlea
    rw [min_eq_left hlea]
    omega

end

/-- Nothing is lost: the level comes back, and a second round trip changes nothing. -/
theorem leaVolume_lossless {maxVolume : Nat} (hpos : 1 ≤ maxVolume) (hmax : maxVolume ≤ 255) :
    (∀ v ≤ maxVolume, leaToMusicVolume maxVolume (musicToLeaVolume maxVolume v) = v) ∧
      Monotone (musicToLeaVolume maxVolume) ∧ (∀ v, musicToLeaVolume maxVolume v ≤ 255) ∧
      Monotone (leaToMusicVolume maxVolume) ∧ (∀ l, leaToMusicVolume maxVolume l ≤ maxVolume) ∧
      ∀ l, leaToMusicVolume maxVolume (musicToLeaVolume maxVolume (leaToMusicVolume maxVolume l)) =
        leaToMusicVolume maxVolume l := by
  have hround {v : Nat} (h : v ≤ maxVolume) := leaToMusicVolume_musicToLeaVolume hpos hmax h
  have hle (l : Nat) : leaToMusicVolume maxVolume l ≤ maxVolume := by
    rw [leaToMusicVolume_eq hmax]
    exact Nat.div_le_of_le_mul (Nat.mul_le_mul_right _ (by omega))
  refine ⟨fun v h => hround h, fun v v' h => ?_, fun v => ?_, fun l l' h => ?_, hle,
    fun l => hround (hle l)⟩
  · rw [musicToLeaVolume_eq hpos hmax, musicToLeaVolume_eq hpos hmax]
    have := Nat.div_le_div_right (c := maxVolume) (Nat.mul_le_mul_right 256 h)
    omega
  · rw [musicToLeaVolume_eq hpos hmax]
    exact min_le_left ..
  · rw [leaToMusicVolume_eq hmax, leaToMusicVolume_eq hmax]
    exact Nat.div_le_div_right (Nat.mul_le_mul_right _ (by omega))

/-- The default of the audio policy. -/
theorem leaVolume_lossless_sixteen : leaToMusicVolume 16 (musicToLeaVolume 16 7) = 7 :=
  (leaVolume_lossless (by decide) (by decide)).1 7 (by decide)

end SpeakerFirmware.Audio
