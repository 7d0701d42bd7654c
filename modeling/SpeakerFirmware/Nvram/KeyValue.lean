/-
# The store as a map

Without power loss the store is a map from names to values. `Stores` ties a state of
the driver to the map it stands for; every call moves both sides alike, so after any
sequence of sets, purges and reboots a name reads as its last set. Nothing in the
argument counts segments or sequence numbers, so it does not matter how often either
wraps.
-/

import SpeakerFirmware.Nvram.Scan

namespace SpeakerFirmware.Nvram

open NorFlash

variable {r : RegionInfo}

/-! ## Driver states and maps -/

/-- The state stands for the map `m`. -/
def Stores (r : RegionInfo) (s : RegionState) (m : List UInt8 → Option (List UInt8)) : Prop :=
  ∃ slots, Ready r s slots ∧ contents slots = m

namespace Stores

variable {s : RegionState} {m : List UInt8 → Option (List UInt8)}

section

variable (h : Stores r s m)
include h

theorem recoverable : Recoverable r s.flash m := by
  obtain ⟨slots, hready, rfl⟩ := h
  exact hready.recoverable

/-- A reboot keeps the map. -/
theorem reboot : Stores r (regionScan r (powerOn r s.flash)) m := by
  obtain ⟨slots, hready, hcontents, -⟩ := h.recoverable.scan
  exact ⟨slots, hready, hcontents⟩

/-- A purge keeps the map. -/
theorem purge (checkCrc : Bool) : Stores r (regionPurgeSeg r s checkCrc) m := by
  obtain ⟨slots, hready, rfl⟩ := h
  obtain ⟨-, hready', -, -⟩ := hready.purge checkCrc
  exact ⟨liveSlots slots, hready', contents_liveSlots slots⟩

/-- A set succeeds and changes the map at its name. -/
theorem set {name data : List UInt8} (hvalid : ValidSet name data) (hfits : Fits r s name data) :
    (regionSet r s name data).2 = none ∧
      Stores r (regionSet r s name data).1 (Function.update m name (storedValue data)) := by
  obtain ⟨slots, hready, rfl⟩ := h
  by_cases hdata : data = []
  · subst hdata
    obtain ⟨slots', -, hready', hcontents, -, -⟩ := hready.delete hvalid
    exact ⟨by rw [regionSet_nil hvalid], slots', hready', hcontents⟩
  · obtain ⟨b, hsame⟩ := hready.isSame data hvalid.name_nul
    obtain ⟨slots', -, hready', hcontents, -, -⟩ :=
      hready.store hvalid hdata (hfits.resolve_left hdata)
    refine ⟨by rw [regionSet_eq hvalid hdata hsame], slots', hready', ?_⟩
    rw [hcontents, storedValue, if_neg hdata]

/-- A get reads the map. -/
theorem get {name : List UInt8} (hname : 0 ∉ name) {maxLen : Nat}
    (hlen : 0 < maxLen) : (regionGet r s name maxLen).2 = readBack (m name) maxLen := by
  obtain ⟨slots, hready, rfl⟩ := h
  obtain ⟨b, hget⟩ := hready.get hname hlen
  rw [hget]

end

end Stores

/-! ## Sequences of calls -/

/-- The calls that change the store. -/
inductive Call
  | set (name data : List UInt8)
  | purge (checkCrc : Bool)
  | reboot

section

variable (r : RegionInfo) (s : RegionState)

/-- The state behind a call. -/
def call : Call → RegionState
  | .set name data => (regionSet r s name data).1
  | .purge checkCrc => regionPurgeSeg r s checkCrc
  | .reboot => regionScan r (powerOn r s.flash)

/-- The state behind a sequence of calls. -/
def calls (cs : List Call) : RegionState :=
  cs.foldl (call r) s

/-- A set is admissible if its arguments are valid and the new item fits. -/
def Call.Admissible : Call → Prop
  | .set name data => ValidSet name data ∧ Fits r s name data
  | .purge _ => True
  | .reboot => True

end

/-- Every call is admissible in the state it is made in. -/
def AllAdmissible (r : RegionInfo) : RegionState → List Call → Prop
  | _, [] => True
  | s, c :: cs => c.Admissible r s ∧ AllAdmissible r (call r s c) cs

/-- How a call changes the map. -/
def Call.update (m : List UInt8 → Option (List UInt8)) : Call → List UInt8 → Option (List UInt8)
  | .set name data => Function.update m name (storedValue data)
  | .purge _ => m
  | .reboot => m

/-- The value of the last set of each name; `m` is what the store held before. -/
def lastSet (m : List UInt8 → Option (List UInt8)) (cs : List Call) :
    List UInt8 → Option (List UInt8) :=
  cs.foldl Call.update m

section

variable {s : RegionState} {m : List UInt8 → Option (List UInt8)} (h : Stores r s m)
include h

theorem Stores.call
    {c : Call} (hc : c.Admissible r s) : Stores r (Nvram.call r s c) (c.update m) := by
  cases c with
  | set name data => exact (h.set hc.1 hc.2).2
  | purge checkCrc => exact h.purge checkCrc
  | reboot => exact h.reboot

theorem Stores.calls
    {cs : List Call} (hcs : AllAdmissible r s cs) :
    Stores r (Nvram.calls r s cs) (lastSet m cs) := by
  induction cs generalizing s m with
  | nil => exact h
  | cons c cs ih => exact ih (h.call hcs.1) hcs.2

end

/-- After `region_scan` of a recoverable flash and any admissible calls, every name
reads as its last set, and a set of one name does not change another. On a flash
without segment headers the map before the calls is empty. -/
theorem region_is_map {f : Image} {m : List UInt8 → Option (List UInt8)} (hf : Recoverable r f m)
    {cs : List Call} (hcs : AllAdmissible r (regionScan r (powerOn r f)) cs) {name : List UInt8}
    (hname : 0 ∉ name) {maxLen : Nat} (hlen : 0 < maxLen) :
    (regionGet r (calls r (regionScan r (powerOn r f)) cs) name maxLen).2 =
        readBack (lastSet m cs name) maxLen ∧
      ∀ other data, other ≠ name → ValidSet other data →
        Fits r (calls r (regionScan r (powerOn r f)) cs) other data →
        (regionSet r (calls r (regionScan r (powerOn r f)) cs) other data).2 = none ∧
        (regionGet r (regionSet r (calls r (regionScan r (powerOn r f)) cs) other data).1 name
            maxLen).2 =
          (regionGet r (calls r (regionScan r (powerOn r f)) cs) name maxLen).2 := by
  obtain ⟨slots, hready, hcontents, -⟩ := hf.scan
  have hstores := Stores.calls ⟨slots, hready, hcontents⟩ hcs
  refine ⟨hstores.get hname hlen, ?_⟩
  intro other data hne hvalid hfits
  obtain ⟨hok, hstores'⟩ := hstores.set hvalid hfits
  refine ⟨hok, ?_⟩
  rw [hstores'.get hname hlen, hstores.get hname hlen, Function.update_of_ne (Ne.symm hne)]

theorem blank_erased (r : RegionInfo) : Blank r fun _ => 0xff := by
  intro offs _
  have herased : Erased (fun _ => 0xff) offs segHeaderSize := fun _ _ _ => rfl
  exact ⟨isSegHeaderInState_erased herased _, isSegHeaderInState_erased herased _⟩

/-- The name `a` is set on a new flash, and its first byte is read after a reboot. -/
theorem region_is_map_example :
    (regionGet factoryNvramRegion (calls factoryNvramRegion
      (regionScan factoryNvramRegion (powerOn factoryNvramRegion fun _ => 0xff))
      [.set [0x61] [1, 2], .reboot]) [0x61] 1).2 = .ok [1] := by
  have hcs : AllAdmissible factoryNvramRegion
      (regionScan factoryNvramRegion (powerOn factoryNvramRegion fun _ => 0xff))
      [.set [0x61] [1, 2], .reboot] :=
    ⟨⟨⟨by decide, by decide, by decide⟩, by decide +kernel⟩, trivial, trivial⟩
  exact (region_is_map (.blank (blank_erased _)) hcs (by decide) (by decide)).1

end SpeakerFirmware.Nvram
