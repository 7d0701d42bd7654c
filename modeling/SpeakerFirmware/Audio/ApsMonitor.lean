/-
# The control of the playback clock

`audio_aps_monitor_normal` keeps a stream buffer between two marks by the level of the clock.
Outside the marks the level jumps to an end of its range and stays there until the buffer has
passed the middle; then it goes back step by step. For the types with software resampling the
two ends are exchanged. What the hardware does with a level is not modelled.
-/

import Mathlib.Data.UInt
import SpeakerFirmware.Lib.Runs

namespace SpeakerFirmware.Audio

open List

/-- The `APS_STATUS_` values. -/
inductive ApsStatus
  | dec | inc | default
  deriving DecidableEq, Repr

/-- The `APS_OPR_` values. -/
inductive ApsOpr
  | set | adjust | fastSet
  deriving DecidableEq, Repr

/-- The fields of `aps_monitor_info_t` in use; `soft` is `aps_type & APS_TYPE_SOFT`. -/
structure ApsMonitorInfo where
  currentLevel : Nat
  destLevel : Nat
  apsStatus : ApsStatus
  needAps : Bool
  soft : Bool
  deriving DecidableEq, Repr

/-- The thresholds of the audio policy, and the levels a caller gives. -/
structure ApsLimits where
  increase : UInt16
  reduce : UInt16
  maxLevel : Nat
  minLevel : Nat
  level : Nat
  reduce_lt : reduce < increase
  min_le : minLevel ≤ level
  le_max : level ≤ maxLevel

/-- The two steps at the end of `audio_aps_monitor_set_aps`. -/
def approach (current dest : Nat) : Nat :=
  let current := if current > dest then current - 1 else current
  if current < dest then current + 1 else current

def audioApsMonitorSetAps (handle : ApsMonitorInfo) (opr : ApsOpr) (level : Nat) : ApsMonitorInfo :=
  match opr with
  | .set => { handle with destLevel := level, currentLevel := approach handle.currentLevel level }
  | .adjust => { handle with currentLevel := approach handle.currentLevel handle.destLevel }
  | .fastSet => { handle with destLevel := level, currentLevel := approach level level }

def midThreshold (limits : ApsLimits) (soft : Bool) : UInt16 :=
  let diffThreshold := limits.increase - limits.reduce
  if soft then limits.increase - diffThreshold / 5 * 2 else limits.increase - diffThreshold / 2

variable (limits : ApsLimits) (handle : ApsMonitorInfo)

def audioApsMonitorNormal (streamLength : Int) :
    ApsMonitorInfo × UInt16 :=
  let increase := limits.increase.toNat
  let reduce := limits.reduce.toNat
  let mid := midThreshold limits handle.soft
  let toMax := { audioApsMonitorSetAps handle .fastSet limits.maxLevel with apsStatus := .inc }
  let toMin := { audioApsMonitorSetAps handle .fastSet limits.minLevel with apsStatus := .dec }
  let back := { audioApsMonitorSetAps handle .set limits.level with apsStatus := .default }
  let adjust := audioApsMonitorSetAps handle .adjust 0
  if handle.needAps = false then (handle, 0)
  else
    (match handle.apsStatus with
      | .default =>
        if streamLength > increase then if handle.soft then toMin else toMax
        else if streamLength < reduce then if handle.soft then toMax else toMin
        else adjust
      | .inc =>
        if handle.soft then
          if streamLength > increase then toMin else if streamLength ≥ mid.toNat then back
            else adjust
        else if streamLength < reduce then toMin else if streamLength ≤ mid.toNat then back
          else adjust
      | .dec =>
        if handle.soft then
          if streamLength < reduce then toMax else if streamLength ≤ mid.toNat then back else adjust
        else if streamLength > increase then toMax else if streamLength ≥ mid.toNat then back
          else adjust,
      mid)

/-- The handle behind a sequence of calls. -/
def monitor (lengths : List Int) : ApsMonitorInfo :=
  lengths.foldl (fun handle length => (audioApsMonitorNormal limits handle length).1) handle

/-! ## One call -/

/-- The levels are in their range, and in the states of the two ends they are there. -/
structure InRange (limits : ApsLimits) (handle : ApsMonitorInfo) : Prop where
  need : handle.needAps = true
  current : limits.minLevel ≤ handle.currentLevel ∧ handle.currentLevel ≤ limits.maxLevel
  dest : limits.minLevel ≤ handle.destLevel ∧ handle.destLevel ≤ limits.maxLevel
  inc : handle.apsStatus = .inc → handle.currentLevel = limits.maxLevel ∧
    handle.destLevel = limits.maxLevel
  dec : handle.apsStatus = .dec → handle.currentLevel = limits.minLevel ∧
    handle.destLevel = limits.minLevel

/-- The length is not outside the marks. -/
def Between (limits : ApsLimits) (length : Int) : Prop :=
  limits.reduce.toNat ≤ length ∧ length ≤ limits.increase.toNat

/-- At most one step from `current`, towards `dest` and not past it; only a level that is there
stays. -/
structure OneStep (current dest next : Nat) : Prop where
  bound : next ≤ current + 1 ∧ current ≤ next + 1
  up : current ≤ dest → current ≤ next ∧ next ≤ dest
  down : dest ≤ current → dest ≤ next ∧ next ≤ current
  moves : current ≠ dest → next ≠ current

/-- What a call does to the levels. -/
structure Follows (limits : ApsLimits) (handle handle' : ApsMonitorInfo) (length : Int) : Prop where
  above : length > limits.increase.toNat →
    handle'.currentLevel = if handle.soft then limits.minLevel else limits.maxLevel
  below : length < limits.reduce.toNat →
    handle'.currentLevel = if handle.soft then limits.maxLevel else limits.minLevel
  between : Between limits length →
    OneStep handle.currentLevel handle'.destLevel handle'.currentLevel

variable {limits : ApsLimits} {handle : ApsMonitorInfo}

theorem approach_self (level : Nat) : approach level level = level := by
  simp [approach]

theorem oneStep_approach (current dest : Nat) : OneStep current dest (approach current dest) := by
  unfold approach
  constructor <;> grind

theorem mid_mem (limits : ApsLimits) (soft : Bool) :
    limits.reduce.toNat ≤ (midThreshold limits soft).toNat ∧
      (midThreshold limits soft).toNat ≤ limits.increase.toNat := by
  have hlt := UInt16.lt_iff_toNat_lt.mp limits.reduce_lt
  have hmax := limits.increase.toNat_lt
  have hdiff : (limits.increase - limits.reduce).toNat =
      limits.increase.toNat - limits.reduce.toNat :=
    UInt16.toNat_sub_of_le _ _ (UInt16.le_iff_toNat_le.mpr hlt.le)
  unfold midThreshold
  cases soft with
  | true =>
    have hpart : ((limits.increase - limits.reduce) / 5 * 2).toNat =
        (limits.increase.toNat - limits.reduce.toNat) / 5 * 2 := by
      rw [UInt16.toNat_mul, UInt16.toNat_div, hdiff]
      refine Nat.mod_eq_of_lt ?_
      change _ / 5 * 2 < _
      omega
    rw [if_pos rfl, UInt16.toNat_sub_of_le _ _ (UInt16.le_iff_toNat_le.mpr (by omega)), hpart]
    omega
  | false =>
    have hpart : ((limits.increase - limits.reduce) / 2).toNat =
        (limits.increase.toNat - limits.reduce.toNat) / 2 := by
      rw [UInt16.toNat_div, hdiff]
      rfl
    rw [if_neg Bool.false_ne_true,
      UInt16.toNat_sub_of_le _ _ (UInt16.le_iff_toNat_le.mpr (by omega)), hpart]
    omega

theorem InRange.approach (h : InRange limits handle) {dest : Nat}
    (hdest : limits.minLevel ≤ dest ∧ dest ≤ limits.maxLevel) :
    limits.minLevel ≤ approach handle.currentLevel dest ∧
      approach handle.currentLevel dest ≤ limits.maxLevel := by
  have hcurrent := h.current
  unfold Audio.approach
  grind

/-- A call jumps to an end, turns back to the level of the caller or makes a step. -/
theorem call_follows (h : InRange limits handle) (length : Int) :
    InRange limits (audioApsMonitorNormal limits handle length).1 ∧
      Follows limits handle (audioApsMonitorNormal limits handle length).1 length := by
  have hmid := mid_mem limits handle.soft
  have hlevel := limits.min_le
  have hmax := limits.le_max
  have hset := h.approach ⟨hlevel, hmax⟩
  have hadjust := h.approach h.dest
  have hself := approach_self
  have hstep := oneStep_approach handle.currentLevel
  obtain ⟨hneed, hcurrent, hdest, hinc, hdec⟩ := h
  unfold audioApsMonitorNormal
  dsimp only
  rw [if_neg (by rw [hneed]; decide)]
  cases hstatus : handle.apsStatus <;> cases hsoft : handle.soft <;>
    dsimp only [Bool.false_eq_true] <;>
    split_ifs <;> refine ⟨⟨?_, ?_, ?_, ?_, ?_⟩, ⟨?_, ?_, ?_⟩⟩ <;>
      simp only [audioApsMonitorSetAps, Between, hsoft, hself] <;> grind

/-! ## Every sequence of calls -/

theorem monitor_append (limits : ApsLimits) (handle : ApsMonitorInfo) (lengths more : List Int) :
    monitor limits handle (lengths ++ more) = monitor limits (monitor limits handle lengths) more :=
  foldl_append

theorem InRange.monitor (h : InRange limits handle) (lengths : List Int) :
    InRange limits (monitor limits handle lengths) :=
  lengths.foldlRecOn _ h fun _ h length _ => (call_follows h length).1

/-- Back in the default state, the level is on its way to that of the caller. -/
structure Returning (limits : ApsLimits) (handle : ApsMonitorInfo) : Prop where
  status : handle.apsStatus = .default
  dest : handle.destLevel = limits.level

/-- How far the current level is from that of the caller. -/
def distance (limits : ApsLimits) (handle : ApsMonitorInfo) : Nat :=
  (handle.currentLevel - limits.level) + (limits.level - handle.currentLevel)

theorem returning_of_default {length : Int} (h : InRange limits handle)
    (hstatus : handle.apsStatus ≠ .default)
    (hback : (audioApsMonitorNormal limits handle length).1.apsStatus = .default) :
    Returning limits (audioApsMonitorNormal limits handle length).1 := by
  have hneed : handle.needAps ≠ false := by simp [h.need]
  refine ⟨hback, ?_⟩
  unfold audioApsMonitorNormal at hback ⊢
  dsimp only at hback ⊢
  rw [if_neg hneed] at hback ⊢
  cases hcase : handle.apsStatus with
  | default => exact absurd hcase hstatus
  | inc | dec =>
    simp only [hcase] at hback ⊢
    split_ifs at hback ⊢ <;>
      first | rfl | cases hback | exact absurd (hcase.symm.trans hback) (by decide)

/-- A call between the marks makes one step back. -/
theorem Returning.step (h : Returning limits handle) (hrange : InRange limits handle) {length : Int}
    (hlength : Between limits length) :
    Returning limits (audioApsMonitorNormal limits handle length).1 ∧
      distance limits (audioApsMonitorNormal limits handle length).1 =
        distance limits handle - 1 := by
  have hneed : handle.needAps ≠ false := by simp [hrange.need]
  obtain ⟨hlow, hhigh⟩ := hlength
  have hcall : (audioApsMonitorNormal limits handle length).1 =
      audioApsMonitorSetAps handle .adjust 0 := by
    unfold audioApsMonitorNormal
    dsimp only
    rw [if_neg hneed, h.status]
    dsimp only
    rw [if_neg (by omega), if_neg (by omega)]
  rw [hcall]
  refine ⟨⟨h.status, h.dest⟩, ?_⟩
  simp only [distance, audioApsMonitorSetAps, approach, h.dest]
  grind

theorem Returning.monitor (h : Returning limits handle) (hrange : InRange limits handle)
    {lengths : List Int} (hlengths : ∀ length ∈ lengths, Between limits length) :
    distance limits (monitor limits handle lengths) = distance limits handle - lengths.length := by
  induction lengths generalizing handle with
  | nil => rfl
  | cons length lengths ih =>
    obtain ⟨hstep, hdistance⟩ := h.step hrange (hlengths length mem_cons_self)
    have hrest := ih hstep (call_follows hrange length).1 fun other hmem =>
      hlengths other (mem_cons_of_mem _ hmem)
    rw [Audio.monitor, foldl_cons, length_cons]
    exact hrest.trans (by omega)

/-- The levels stay in their range; a call outside the marks takes the level to an end and every
other one a step towards `dest_level`; and once back in the default state it is at the level of the
caller after `maxLevel - minLevel` calls between the marks, and stays there. -/
theorem clock_follows_buffer (hneed : handle.needAps = true) (hstatus : handle.apsStatus = .default)
    (hcurrent : limits.minLevel ≤ handle.currentLevel ∧ handle.currentLevel ≤ limits.maxLevel)
    (hdest : limits.minLevel ≤ handle.destLevel ∧ handle.destLevel ≤ limits.maxLevel)
    (lengths : List Int) :
    (limits.minLevel ≤ (monitor limits handle lengths).currentLevel ∧
      (monitor limits handle lengths).currentLevel ≤ limits.maxLevel) ∧
    (limits.minLevel ≤ (monitor limits handle lengths).destLevel ∧
      (monitor limits handle lengths).destLevel ≤ limits.maxLevel) ∧
    ∀ length, Follows limits (monitor limits handle lengths)
      (monitor limits handle (lengths ++ [length])) length ∧
      ((monitor limits handle lengths).apsStatus ≠ .default →
        (monitor limits handle (lengths ++ [length])).apsStatus = .default →
        ∀ more : List Int, (∀ length ∈ more, Between limits length) →
          limits.maxLevel - limits.minLevel ≤ more.length →
          (monitor limits handle (lengths ++ length :: more)).currentLevel = limits.level) := by
  have hstart : InRange limits handle :=
    ⟨hneed, hcurrent, hdest, fun h => (by cases hstatus.symm.trans h),
      fun h => (by cases hstatus.symm.trans h)⟩
  have hrange := hstart.monitor lengths
  refine ⟨hrange.current, hrange.dest, fun length => ?_⟩
  obtain ⟨hnext, hfollows⟩ := call_follows hrange length
  rw [monitor_append]
  refine ⟨hfollows, fun hstatus hback more hmore hlong => ?_⟩
  rw [monitor_append]
  have hdone := (returning_of_default hrange hstatus hback).monitor hnext hmore
  have hcur := hnext.current
  have hmin := limits.min_le
  have hmax := limits.le_max
  unfold distance at hdone
  change (monitor limits (audioApsMonitorNormal limits _ length).1 more).currentLevel = _
  omega

/-- Marks at 10 and 20, and a buffer that runs full. -/
theorem clock_follows_buffer_once :
    (monitor ⟨20, 10, 6, 4, 5, by decide, by decide, by decide⟩ ⟨5, 5, .default, true, false⟩
      ([25] ++ 12 :: [12, 12])).currentLevel = 5 :=
  ((clock_follows_buffer rfl rfl (by decide) (by decide) [25]).2.2 12).2 (by decide) (by decide) _
    (by simp [Between]) (by decide)

end SpeakerFirmware.Audio
