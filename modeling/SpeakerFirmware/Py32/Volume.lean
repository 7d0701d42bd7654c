/-
# The volume maps

`py32_volume_pct_to_level` and `py32_volume_level_to_pct` read the same two tables of
anchors in opposite directions, and change between the scale of the tables, which has 16
steps, and the one of the audio system. The tables invert each other on all 17 levels. If
the scale of the audio system is the finer one, changing to it and back loses nothing; the
coarser ones are few.
-/

import SpeakerFirmware.Lib.Rescale
import SpeakerFirmware.Py32.Model

namespace SpeakerFirmware.Py32

open Rescale Nat UInt8

variable {max : Nat}

/-! ## The tables -/

/-- What both maps do between two anchors. -/
def interpolate (xs ys : List Nat) (x : Nat) : Nat :=
  let i := anchorIndex xs x
  let lo := xs.getD (i - 1) 0
  let hi := xs.getD i 0
  if hi = lo then ys.getD (i - 1) 0
  else ys.getD (i - 1) 0 + ((x - lo) * (ys.getD i 0 - ys.getD (i - 1) 0) + (hi - lo) / 2) /
    (hi - lo)

/-- The level for a percentage, on the scale of the tables. -/
def tableLevel (pct : Nat) : Nat :=
  interpolate pctAnchor levelAnchor (min pct 100)

/-- The percentage for a level on that scale. -/
def tablePct (level : Nat) : Nat :=
  interpolate levelAnchor pctAnchor (min level 16)

theorem tableLevel_mono : Monotone tableLevel := by
  have hstep : ∀ pct < 100, interpolate pctAnchor levelAnchor pct ≤
      interpolate pctAnchor levelAnchor (pct + 1) := by decide
  refine monotone_nat_of_le_succ fun pct => ?_
  rw [tableLevel, tableLevel]
  rcases lt_or_ge pct 100 with hlt | hge
  · rw [min_eq_left hlt.le, min_eq_left hlt]
    exact hstep pct hlt
  · rw [min_eq_right hge, min_eq_right (hge.trans pct.le_succ)]

theorem tablePct_mono : Monotone tablePct := by
  have hstep : ∀ level < 16, interpolate levelAnchor pctAnchor level ≤
      interpolate levelAnchor pctAnchor (level + 1) := by decide
  refine monotone_nat_of_le_succ fun level => ?_
  rw [tablePct, tablePct]
  rcases lt_or_ge level 16 with hlt | hge
  · rw [min_eq_left hlt.le, min_eq_left hlt]
    exact hstep level hlt
  · rw [min_eq_right hge, min_eq_right (hge.trans level.le_succ)]

theorem tableLevel_of_ge {pct : Nat} (h : 100 ≤ pct) : tableLevel pct = 16 := by
  rw [tableLevel, min_eq_right h]
  decide

theorem tableLevel_le (pct : Nat) : tableLevel pct ≤ 16 :=
  (tableLevel_mono (le_max_left pct 100)).trans_eq (tableLevel_of_ge (le_max_right pct 100))

theorem tablePct_le (level : Nat) : tablePct level ≤ 100 := by
  refine (tablePct_mono (le_max_left level 16)).trans_eq ?_
  rw [tablePct, min_eq_right (le_max_right level 16)]
  decide

/-- No level is lost in the tables. -/
theorem tableLevel_tablePct : ∀ level ≤ 16, tableLevel (tablePct level) = level := by
  decide

/-! ## The maps -/

/-- Leaving out the change of scale for 16 steps makes no difference. -/
theorem toScale_eq (level : Nat) :
    (if (max : Int) ≠ 16 then ((level : Int) * max + 8).tdiv 16 else level) =
    (rescale 16 max level : Int) := by
  split
  · rw [rescale]
    norm_cast
  · rename_i h
    obtain rfl : max = 16 := by omega
    rw [rescale_same (by decide)]

section

variable (hmax : 0 < max)
include hmax

theorem ofScale_eq (level : Nat) :
    (if (max : Int) ≠ 16 then ((level : Int) * 16 + (max : Int).tdiv 2).tdiv max else level) =
      (rescale max 16 level : Int) := by
  split
  · rw [rescale]
    norm_cast
  · rename_i h
    obtain rfl : max = 16 := by omega
    rw [rescale_same (by decide)]

theorem pctToLevel_eq (pct : UInt8) :
    py32VolumePctToLevel max pct = rescale 16 max (tableLevel pct.toNat) := by
  have hpct : (if pct > 100 then 100 else pct.toNat) = min pct.toNat 100 := by
    have hlt : pct > 100 ↔ 100 < pct.toNat := lt_iff_toNat_lt
    rcases lt_or_ge 100 pct.toNat with habove | hbelow
    · rw [if_pos (hlt.mpr habove), min_eq_right habove.le]
    · rw [if_neg (fun h => absurd (hlt.mp h) hbelow.not_gt), min_eq_left hbelow]
  have htable := tableLevel.eq_1 pct.toNat
  rw [interpolate] at htable
  have hle := rescale_le (a := 16) (by decide) max (tableLevel_le pct.toNat)
  unfold py32VolumePctToLevel
  rw [hpct, if_neg (by omega)]
  dsimp only
  rw [← apply_ite (Nat.cast : Nat → Int), ← htable, toScale_eq, if_neg (by omega),
    if_neg (by omega)]

/-- A level is first brought into the range of the audio system. -/
theorem levelToPct_eq (level : Int) :
    py32VolumeLevelToPct max level = ofNat (tablePct (rescale max 16 (min level.toNat max))) := by
  have hlevel :
      (if (if level < 0 then 0 else level) > max then (max : Int) else if level < 0 then 0
      else level) =
      (min level.toNat max : Nat) := by
    split_ifs <;> omega
  have hle := rescale_le hmax 16 (min_le_right level.toNat max)
  have hmapped : (if (rescale max 16 (min level.toNat max) : Int) > 16 then (16 : Int)
      else (rescale max 16 (min level.toNat max) : Int)).toNat = rescale max 16 (min level.toNat
        max) := by
    rw [if_neg (by omega), Int.toNat_natCast]
  unfold py32VolumeLevelToPct
  dsimp only
  rw [if_neg (by omega), hlevel, ofScale_eq hmax, hmapped, tablePct, min_eq_left hle]
  exact (apply_ite ofNat _ _ _).symm

theorem toNat_levelToPct (level : Int) :
    (py32VolumeLevelToPct max level).toNat = tablePct (rescale max 16 (min level.toNat max)) := by
  have hle := tablePct_le (rescale max 16 (min level.toNat max))
  rw [levelToPct_eq hmax, toNat_ofNat']
  exact mod_eq_of_lt (by omega)

theorem pctToLevel_mono {pct pct' : UInt8} (h : pct ≤ pct') :
    py32VolumePctToLevel max pct ≤ py32VolumePctToLevel max pct' := by
  rw [pctToLevel_eq hmax, pctToLevel_eq hmax]
  exact_mod_cast rescale_mono 16 max (tableLevel_mono (le_iff_toNat_le.mp h))

theorem levelToPct_mono {level level' : Int} (h : level ≤ level') :
    py32VolumeLevelToPct max level ≤ py32VolumeLevelToPct max level' := by
  rw [le_iff_toNat_le, toNat_levelToPct hmax, toNat_levelToPct hmax]
  exact tablePct_mono (rescale_mono max 16 (by omega))

theorem pctToLevel_le (pct : UInt8) : py32VolumePctToLevel max pct ≤ max := by
  rw [pctToLevel_eq hmax]
  exact_mod_cast rescale_le (by decide) max (tableLevel_le pct.toNat)

end

/-- On a scale with at most 16 steps every level has a percentage of its own. -/
theorem pctToLevel_levelToPct : ∀ max ≤ 16, ∀ level ≤ max,
    py32VolumePctToLevel (max : Nat) (py32VolumeLevelToPct max (level : Nat)) = (level : Int) := by
  decide +kernel

/-- A finer scale of the audio system keeps the level of the tables. -/
theorem pctToLevel_reported (hmax : 16 < max) (pct : UInt8) :
    py32VolumePctToLevel max (py32VolumeLevelToPct max (py32VolumePctToLevel max pct)) =
      py32VolumePctToLevel max pct := by
  have hpos : 0 < max := by omega
  have hle := rescale_le (a := 16) (by decide) max (tableLevel_le pct.toNat)
  rw [pctToLevel_eq hpos, toNat_levelToPct hpos, pctToLevel_eq hpos, Int.toNat_natCast,
    min_eq_left hle,
    rescale_rescale (by decide) hmax, tableLevel_tablePct _ (tableLevel_le _)]

/-- Up to this size of the scale the products of both maps stay inside an `int`, so that their
arithmetic is the one of the integers. -/
theorem products_fit_int (hmax : max < 2 ^ 26) (pct level : Nat) :
    tableLevel pct * max + 8 < 2 ^ 31 ∧ min level max * 16 + max / 2 < 2 ^ 31 := by
  have hle := mul_le_mul_right max (tableLevel_le pct)
  omega

/-- The two maps fit together for every scale of the audio system, and below `2 ^ 26` steps none of
their products leaves the `int`. -/
theorem volume_maps_consistent {max : Int} (hmax : 0 < max) :
    ((∀ pct pct', pct ≤ pct' → py32VolumePctToLevel max pct ≤ py32VolumePctToLevel max pct') ∧
      (∀ pct, 0 ≤ py32VolumePctToLevel max pct ∧ py32VolumePctToLevel max pct ≤ max) ∧
      py32VolumePctToLevel max 0 = 0 ∧ ∀ pct ≥ 100, py32VolumePctToLevel max pct = max) ∧
    ((∀ level level', level ≤ level' → py32VolumeLevelToPct max level ≤
      py32VolumeLevelToPct max level') ∧
      ∀ level, py32VolumeLevelToPct max level ≤ 100) ∧
    (∀ pct, py32VolumePctToLevel max (py32VolumeLevelToPct max (py32VolumePctToLevel max pct)) =
      py32VolumePctToLevel max pct) ∧
    (max ≤ 16 → ∀ level, 0 ≤ level → level ≤ max →
      py32VolumePctToLevel max (py32VolumeLevelToPct max level) = level) ∧
    (max < 2 ^ 26 → ∀ pct level : Nat,
      tableLevel pct * max + 8 < 2 ^ 31 ∧ min (level : Int) max * 16 + max / 2 < 2 ^ 31) := by
  obtain ⟨max, rfl⟩ := Int.eq_ofNat_of_zero_le hmax.le
  have hpos : 0 < max := by omega
  have hsmall : max ≤ 16 → ∀ level : Int, 0 ≤ level → level ≤ max →
      py32VolumePctToLevel max (py32VolumeLevelToPct max level) = level := by
    intro hle level hlo hhi
    obtain ⟨level, rfl⟩ := Int.eq_ofNat_of_zero_le hlo
    exact pctToLevel_levelToPct max hle level (by omega)
  have hnonneg : ∀ pct, 0 ≤ py32VolumePctToLevel max pct := by
    intro pct
    rw [pctToLevel_eq hpos]
    exact Int.natCast_nonneg _
  refine ⟨⟨fun _ _ => pctToLevel_mono hpos, fun pct => ⟨hnonneg pct, pctToLevel_le hpos pct⟩, ?_,
    ?_⟩,
    ⟨fun _ _ => levelToPct_mono hpos, ?_⟩, ?_, fun hle => hsmall (by omega),
      fun hlt pct level => ?_⟩
  · rw [pctToLevel_eq hpos, show tableLevel (toNat 0) = 0 by decide, rescale_zero (by decide)]
    rfl
  · intro pct hpct
    rw [pctToLevel_eq hpos, tableLevel_of_ge (le_iff_toNat_le.mp hpct), rescale_self (by decide)]
  · intro level
    rw [le_iff_toNat_le, toNat_levelToPct hpos]
    exact tablePct_le _
  · intro pct
    rcases lt_or_ge 16 max with hfine | hcoarse
    · exact pctToLevel_reported hfine pct
    · exact hsmall hcoarse _ (hnonneg pct) (pctToLevel_le hpos pct)
  · obtain ⟨htable, hlevel⟩ := products_fit_int (show max < 2 ^ 26 by exact_mod_cast hlt) pct level
    exact ⟨by exact_mod_cast htable, by omega⟩

/-- A scale that is not the one of the tables. -/
theorem volume_maps_consistent_thirty :
    (0 : Int) < 30 ∧ py32VolumeLevelToPct 30 (py32VolumePctToLevel 30 49) ≠ 49 ∧
      py32VolumePctToLevel 30 (py32VolumeLevelToPct 30 (py32VolumePctToLevel 30 49)) =
        py32VolumePctToLevel 30 49 :=
  ⟨by decide, by decide, (@volume_maps_consistent 30 (by decide)).2.2.1 49⟩

end SpeakerFirmware.Py32
