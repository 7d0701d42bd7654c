/-
# The battery level

The voltage poll of the battery driver takes a sample and measures the voltage: once enough
samples have come in, this is the mean of the middle two of four averages, each of them over
eight samples without the least and the greatest.

A voltage is stored when it has moved by three millivolts, and its capacity with it, unless the
capacity is zero: zero doubles as "not computed". So a battery that runs empty keeps the level
it had before.
-/

import SpeakerFirmware.Lib.Runs
import Mathlib.Data.UInt

namespace SpeakerFirmware.Drivers

open List

/-! ## The driver -/

structure BatteryCap where
  cap : UInt16
  volt : UInt16

structure VoltageTbl where
  volData : List UInt16
  dIndex : Nat
  volAverage : List UInt16
  aIndex : Nat
  dataCollecting : Bool

/-- The fields of `acts_battery_info` that hold the voltage. -/
structure BatteryInfo where
  volTbl : VoltageTbl
  curVoltage : BitVec 13
  curCap : BitVec 7

/-- The inner loop of the sort. -/
def minFrom (arr : List UInt16) (i : Nat) : Nat :=
  (range' (i + 1) (arr.length - (i + 1))).foldl
    (fun min j => if arr.getD min 0 > arr.getD j 0 then j else min) i

def batteryVoltSelectsort (arr : List UInt16) : List UInt16 :=
  (range (arr.length - 1)).foldl (fun arr i =>
    let min := minFrom arr i
    if min ≠ i then
      let arr := arr.set min (arr.getD min 0 ^^^ arr.getD i 0)
      let arr := arr.set i (arr.getD i 0 ^^^ arr.getD min 0)
      arr.set min (arr.getD min 0 ^^^ arr.getD i 0)
    else arr) arr

def mean (arr : List UInt16) : Nat :=
  (arr.foldl (fun sum volt => sum + volt.toNat) 0 * 10 / arr.length + 5) / 10

/-- The mean of a sorted array without its ends. -/
def innerMean (arr : List UInt16) : Nat := mean ((arr.drop 1).take (arr.length - 2))

/-- `sample_one_voltage` with what the converter reads. -/
def sampleOneVoltage (tbl : VoltageTbl) (voltMv : UInt16) : VoltageTbl :=
  let volData := tbl.volData.set tbl.dIndex voltMv
  let dIndex := (tbl.dIndex + 1) % 8
  if dIndex = 0 then
    let sorted := batteryVoltSelectsort volData
    let aIndex := (tbl.aIndex + 1) % 4
    ⟨sorted, dIndex, tbl.volAverage.set tbl.aIndex (.ofNat (innerMean sorted)), aIndex,
      tbl.dataCollecting && aIndex != 0⟩
  else { tbl with volData := volData, dIndex := dIndex }

/-- `battery_get_voltage`; without data it returns `-EAGAIN`. -/
def batteryGetVoltage (tbl : VoltageTbl) (voltMv : UInt16) : VoltageTbl × Option Nat :=
  let tbl := sampleOneVoltage tbl voltMv
  if tbl.dataCollecting then
    let taken := tbl.volData.take tbl.dIndex ++ tbl.volAverage.take tbl.aIndex
    (tbl, if taken.length = 0 then none else some (mean taken))
  else (tbl, some (innerMean (batteryVoltSelectsort tbl.volAverage)))

/-- `voltage2capacit`, in unsigned 32-bit arithmetic. -/
def voltage2capacit (capTbl : Fin 12 → BatteryCap) (volt : UInt32) : UInt32 :=
  if volt ≤ (capTbl 0).volt.toUInt32 then 0
  else if volt ≥ (capTbl 11).volt.toUInt32 then 100
  else
    ((finRange 11).find? fun i => decide (volt < (capTbl i.succ).volt.toUInt32)).elim 0 fun i =>
      let bc := capTbl i.succ
      let bcPrev := capTbl i.castSucc
      bcPrev.cap.toUInt32 +
        (((bc.cap.toUInt32 - bcPrev.cap.toUInt32) * (volt - bcPrev.volt.toUInt32) * 10 + 5) /
        (bc.volt.toUInt32 - bcPrev.volt.toUInt32)) / 10

section

variable (capTbl : Fin 12 → BatteryCap)

def batteryActsVoltagePoll (bat : BatteryInfo) (voltMv : UInt16) : BatteryInfo :=
  let got := batteryGetVoltage bat.volTbl voltMv
  let bat := { bat with volTbl := got.1 }
  match got.2 with
  | none => bat
  | some volt =>
    if got.1.dataCollecting then bat
    else if bat.curVoltage.toNat ≥ volt + 3 ∨ bat.curVoltage.toNat + 3 ≤ volt then
      let cap := voltage2capacit capTbl (.ofNat volt)
      { bat with
        curVoltage := .ofNat 13 volt
        curCap := if cap ≠ 0 ∧ cap.toNat ≠ bat.curCap.toNat then .ofNat 7 cap.toNat
          else bat.curCap }
    else bat

/-! ## The level and the voltage -/

/-- A caller asks for the voltage, or the timer polls; both take a sample. -/
inductive BatteryEvent
  | sample (voltMv : UInt16)
  | poll (voltMv : UInt16)

/-- The driver, with the voltage of the last poll that has found `data_collecting` clear. -/
def batteryStep (s : BatteryInfo × Option Nat) : BatteryEvent → BatteryInfo × Option Nat
  | .sample voltMv => ({ s.1 with volTbl := (batteryGetVoltage s.1.volTbl voltMv).1 }, s.2)
  | .poll voltMv =>
    let got := batteryGetVoltage s.1.volTbl voltMv
    (batteryActsVoltagePoll capTbl s.1 voltMv, if got.1.dataCollecting then s.2 else got.2)

variable {capTbl} {s : BatteryInfo × Option Nat} {voltMv : UInt16} {volt : Nat}

/-- A poll that is still collecting only takes its sample. -/
theorem batteryStep_collecting (h : (batteryGetVoltage s.1.volTbl voltMv).1.dataCollecting = true) :
    batteryStep capTbl s (.poll voltMv) = batteryStep capTbl s (.sample voltMv) := by
  rw [batteryStep, batteryStep, batteryActsVoltagePoll, h]
  cases (batteryGetVoltage s.1.volTbl voltMv).2 <;> rfl

theorem batteryGetVoltage_clear
    (h : (batteryGetVoltage s.1.volTbl voltMv).1.dataCollecting = false) :
    ∃ volt, (batteryGetVoltage s.1.volTbl voltMv).2 = some volt := by
  rw [batteryGetVoltage] at h ⊢
  dsimp only at h ⊢
  split at h
  · rename_i hcollecting
    exact absurd (hcollecting.symm.trans h) Bool.true_eq_false.mp
  · rename_i hclear
    rw [if_neg hclear]
    exact ⟨_, rfl⟩

/-- Until a poll finds `data_collecting` clear, the values are those of the reset. -/
def Untouched (s : BatteryInfo × Option Nat) : Prop :=
  s.2 = none → s.1.curVoltage = 0 ∧ s.1.curCap = 0

theorem Untouched.step (h : Untouched s) (event : BatteryEvent) :
    Untouched (batteryStep capTbl s event) := by
  cases event with
  | sample voltMv => exact h
  | poll voltMv =>
    cases hclear : (batteryGetVoltage s.1.volTbl voltMv).1.dataCollecting with
    | true =>
      rw [batteryStep_collecting hclear]
      exact h
    | false =>
      obtain ⟨volt, hvolt⟩ := batteryGetVoltage_clear hclear
      intro hnone
      rw [batteryStep, hclear, hvolt] at hnone
      cases hnone

end

end SpeakerFirmware.Drivers
