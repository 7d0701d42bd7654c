/-
# Power loss

The store over whole runs of sets, power losses and reboots, where power may be lost
behind any flash operation of a call, also during the scan that recovers from an
earlier loss.

A value survives every such run if two things never happen. A torn item must be
recognised: the part of it that reached the flash must have the hash of its name and
a wrong checksum, because an item with a wrong hash is left in the row, where a later
purge stops, and one whose checksum matches by chance is taken for a value. And a
scan must not start from two segments whose numbers are two apart, which is what
power loss during the merge leaves behind.
-/

import SpeakerFirmware.Lib.Runs
import SpeakerFirmware.Nvram.KeyValue

namespace SpeakerFirmware.Nvram

open NorFlash Runs Function

variable {r : RegionInfo}

/-! ## The device -/

/-- A device without power, of which only the flash remains, or one that has
completed `region_scan`. -/
inductive Device
  | off (flash : Image)
  | on (s : RegionState)

/-- `bootCut k` and `setCut name data k` lose power behind `k` flash operations of
the call. -/
inductive Event
  | boot
  | bootCut (k : Nat)
  | set (name data : List UInt8)
  | setCut (name data : List UInt8) (k : Nat)
  | powerLoss

variable {events : List Event}

/-- The flash operations of `region_scan`. -/
def scanOps (r : RegionInfo) (f : Image) : List Op := (regionScan r (powerOn r f)).ops

/-- The flash operations of `region_set`. -/
def setOps (r : RegionInfo) (s : RegionState) (name data : List UInt8) : List Op :=
  (regionSet r s name data).1.ops.drop s.ops.length

/-- What an event does to the device. -/
inductive DeviceStep (r : RegionInfo) : Device → Event → Device → Prop
  | boot (f : Image) : DeviceStep r (.off f) .boot (.on (regionScan r (powerOn r f)))
  | bootCut (f : Image) (k : Nat) :
      DeviceStep r (.off f) (.bootCut k) (.off (applyAll ((scanOps r f).take k) f))
  | set (s : RegionState) (name data : List UInt8) :
      DeviceStep r (.on s) (.set name data) (.on (regionSet r s name data).1)
  | setCut (s : RegionState) (name data : List UInt8) (k : Nat) :
      DeviceStep r (.on s) (.setCut name data k)
        (.off (applyAll ((setOps r s name data).take k) s.flash))
  | powerLoss (s : RegionState) : DeviceStep r (.on s) .powerLoss (.off s.flash)

/-- Sets have valid arguments and an item that fits. -/
def Legal (r : RegionInfo) : Device → Event → Prop
  | .on s, .set name data => ValidSet name data ∧ Fits r s name data
  | .on s, .setCut name data _ => ValidSet name data ∧ Fits r s name data
  | _, _ => True

/-- The two things that must not happen: a cut that leaves a torn item the scan does
not recognise, and a scan of two segments whose numbers are two apart. -/
def Safe (r : RegionInfo) : Device → Event → Prop
  | .off f, .boot => ¬ TwoApart r f
  | .off f, .bootCut _ => ¬ TwoApart r f
  | .on s, .setCut name data k => ∀ item : Item, item.name = name → item.data = data →
      TearDetected item (k - itemWriteStart r s name data)
  | _, _ => True

/-! ## The values a name may have -/

/-- The values allowed for each name: a completed set leaves its own value, a set
that was cut adds its value to those allowed before. -/
def Event.allow (values : List UInt8 → Set (Option (List UInt8))) :
    Event → List UInt8 → Set (Option (List UInt8))
  | .set name data => Function.update values name {storedValue data}
  | .setCut name data _ => Function.update values name (insert (storedValue data) (values name))
  | .boot => values
  | .bootCut _ => values
  | .powerLoss => values

/-- The values allowed behind a sequence of events on a new flash. -/
def allowed (events : List Event) : List UInt8 → Set (Option (List UInt8)) :=
  events.foldl Event.allow fun _ => {none}

theorem allowed_append (events : List Event) (event : Event) :
    allowed (events ++ [event]) = event.allow (allowed events) :=
  List.foldl_append

/-- The map has an allowed value for every name. -/
def AllowedMap (events : List Event) (m : List UInt8 → Option (List UInt8)) : Prop :=
  ∀ name, m name ∈ allowed events name

section

variable {m : List UInt8 → Option (List UInt8)} (h : AllowedMap events m) (name data : List UInt8)
include h name data

theorem AllowedMap.set :
    AllowedMap (events ++ [.set name data]) (update m name (storedValue data)) := by
  intro name'
  rw [allowed_append, Event.allow]
  by_cases heq : name' = name
  · rw [heq, update_self, update_self]
    exact rfl
  · rw [update_of_ne heq, update_of_ne heq]
    exact h name'

theorem AllowedMap.setCut_old (k : Nat) : AllowedMap (events ++ [.setCut name data k]) m := by
  intro name'
  rw [allowed_append, Event.allow]
  by_cases heq : name' = name
  · rw [heq, update_self]
    exact Set.mem_insert_of_mem _ (h name)
  · rw [update_of_ne heq]
    exact h name'

theorem AllowedMap.setCut_new (k : Nat) :
    AllowedMap (events ++ [.setCut name data k]) (update m name (storedValue data)) := by
  intro name'
  rw [allowed_append, Event.allow]
  by_cases heq : name' = name
  · rw [heq, update_self, update_self]
    exact Set.mem_insert _ _
  · rw [update_of_ne heq, update_of_ne heq]
    exact h name'

end

/-! ## One step -/

/-- Power loss during a set leaves the old or the new map. -/
theorem Stores.set_cut {s : RegionState} {m : List UInt8 → Option (List UInt8)} (h : Stores r s m)
    {name data : List UInt8} (hvalid : ValidSet name data) (hfits : Fits r s name data) {k : Nat}
    (hsafe : Safe r (.on s) (.setCut name data k)) :
    Recoverable r (applyAll ((setOps r s name data).take k) s.flash) m ∨
      Recoverable r (applyAll ((setOps r s name data).take k) s.flash)
        (update m name (storedValue data)) := by
  obtain ⟨slots, hready, rfl⟩ := h
  by_cases hdata : data = []
  · subst hdata
    obtain ⟨slots', ops, -, hcontents, hissued, halong⟩ := hready.delete hvalid
    have hops : setOps r s name [] = ops := by
      rw [setOps, hissued.ops, List.drop_left]
    rw [hops]
    have hcut := halong.take k
    rw [hcontents] at hcut
    exact hcut
  · obtain ⟨slots', ops, -, hcontents, hissued, hcut⟩ :=
      hready.store hvalid hdata (hfits.resolve_left hdata)
    have hops : setOps r s name data = ops := by
      rw [setOps, hissued.ops, List.drop_left]
    rw [hops, storedValue, if_neg hdata, ← hcontents]
    exact hcut k (hsafe (hvalid.item hdata) rfl rfl)

/-- What the device holds, with and without power. -/
def Consistent (r : RegionInfo) (events : List Event) : Device → Prop
  | .on s => ∃ m, Stores r s m ∧ AllowedMap events m
  | .off f => (∃ m, Recoverable r f m ∧ AllowedMap events m) ∨ TwoApart r f

theorem Consistent.step {d d' : Device} {event : Event}
    (h : Consistent r events d) (hlegal : Legal r d event) (hsafe : Safe r d event)
    (hstep : DeviceStep r d event d') : Consistent r (events ++ [event]) d' := by
  cases hstep with
  | boot f =>
    obtain ⟨m, hrec, hallowed⟩ := h.resolve_right hsafe
    obtain ⟨slots, hready, hcontents, -⟩ := hrec.scan
    refine ⟨m, ⟨slots, hready, hcontents⟩, ?_⟩
    intro name
    rw [allowed_append]
    exact hallowed name
  | bootCut f k =>
    obtain ⟨m, hrec, hallowed⟩ := h.resolve_right hsafe
    obtain ⟨-, -, -, halong⟩ := hrec.scan
    rcases halong.take k with hrec' | htwo
    · refine .inl ⟨m, hrec', ?_⟩
      intro name
      rw [allowed_append]
      exact hallowed name
    · exact .inr htwo
  | set s name data =>
    obtain ⟨m, hstores, hallowed⟩ := h
    exact ⟨_, (hstores.set hlegal.1 hlegal.2).2, hallowed.set name data⟩
  | setCut s name data k =>
    obtain ⟨m, hstores, hallowed⟩ := h
    rcases hstores.set_cut hlegal.1 hlegal.2 hsafe with hold | hnew
    · exact .inl ⟨m, hold, hallowed.setCut_old name data k⟩
    · exact .inl ⟨_, hnew, hallowed.setCut_new name data k⟩
  | powerLoss s =>
    obtain ⟨m, hstores, hallowed⟩ := h
    refine .inl ⟨m, hstores.recoverable, ?_⟩
    intro name
    rw [allowed_append]
    exact hallowed name

/-! ## Whole runs -/

/-- The steps of a device whose sets are legal, under a further condition. -/
def LegalStep (r : RegionInfo) (cond : Device → Event → Prop) (d : Device) (event : Event)
    (d' : Device) : Prop :=
  DeviceStep r d event d' ∧ Legal r d event ∧ cond d event

/-- In every run from a new flash whose steps are all safe, a name reads as its last
completed set; only a name with a cut set may read another allowed value. -/
theorem get_allowed_of_safe {f : Image} (hf : Blank r f) {events : List Event} {s : RegionState}
    (hrun : Run (LegalStep r (Safe r)) (.off f) events (.on s)) {name : List UInt8}
    (hname : 0 ∉ name) {maxLen : Nat} (hlen : 0 < maxLen) :
    ∃ value ∈ allowed events name, (regionGet r s name maxLen).2 = readBack value maxLen := by
  have hinv : Consistent r events (.on s) := by
    apply hrun.invariant (Consistent r)
    · exact .inl ⟨_, .blank hf, fun _ => rfl⟩
    · intro events d event d' h hstep
      exact h.step hstep.2.1 hstep.2.2 hstep.1
  obtain ⟨m, hstores, hallowed⟩ := hinv
  exact ⟨m name, hallowed name, hstores.get hname hlen⟩

theorem Blank.not_twoApart {f : Image} (h : Blank r f) : ¬ TwoApart r f := by
  rintro ⟨first, hfirst, -, -, hvalid, -, -⟩
  exact absurd hvalid (by rw [segValid, (h first hfirst).1]; exact Bool.false_ne_true)

/-- The item `a` with two bytes of data. -/
def exampleItem : Item := ⟨[0x61], [1, 2], by decide, by decide, by decide, by decide⟩

theorem tearDetected_exampleItem : TearDetected exampleItem 1 :=
  .inr (.inr ⟨by decide, by decide, by decide, by decide, by decide⟩)

/-- A new flash after its first scan. -/
def exampleState : RegionState :=
  regionScan factoryNvramRegion (powerOn factoryNvramRegion fun _ => 0xff)

/-- The set of the item loses power between its name and its data. -/
def exampleFlash : Image :=
  applyAll ((setOps factoryNvramRegion exampleState [0x61] [1, 2]).take 1) exampleState.flash

theorem get_allowed_of_safe_example :
    ∃ value ∈ allowed ([] ++ [.boot] ++ [.setCut [0x61] [1, 2] 1] ++ [.boot]) [0x61],
      (regionGet factoryNvramRegion (regionScan factoryNvramRegion
        (powerOn factoryNvramRegion exampleFlash)) [0x61] 2).2 = readBack value 2 := by
  have hblank := blank_erased factoryNvramRegion
  have hfits : Fits factoryNvramRegion exampleState [0x61] [1, 2] := by decide +kernel
  have hstart : itemWriteStart factoryNvramRegion exampleState [0x61] [1, 2] = 0 := by
    decide +kernel
  have htwo : ¬ TwoApart factoryNvramRegion exampleFlash := by decide +kernel
  have hsafe : Safe factoryNvramRegion (.on exampleState) (.setCut [0x61] [1, 2] 1) := by
    intro item hname hdata
    rw [hstart]
    obtain ⟨name, data, _, _, _, _⟩ := item
    subst hname hdata
    exact tearDetected_exampleItem
  have hboot : Run (LegalStep factoryNvramRegion (Safe factoryNvramRegion)) (.off fun _ => 0xff)
      ([] ++ [.boot]) (.on exampleState) := .snoc .nil ⟨.boot _, trivial, hblank.not_twoApart⟩
  have hcut : Run (LegalStep factoryNvramRegion (Safe factoryNvramRegion)) (.off fun _ => 0xff)
      ([] ++ [.boot] ++ [.setCut [0x61] [1, 2] 1]) (.off exampleFlash) :=
    .snoc hboot ⟨.setCut _ _ _ 1, ⟨⟨by decide, by decide, by decide⟩, hfits⟩, hsafe⟩
  exact get_allowed_of_safe hblank (.snoc hcut ⟨.boot exampleFlash, trivial, htwo⟩) (by decide)
    (by decide)

end SpeakerFirmware.Nvram
