/-
# The table of devices

`bt_manager_dev_info.c` has an entry for each device. An entry is freed in two ways: it is
cleared, or, behind a lost link, kept with its flags so that the device finds them when it
comes back. A new device gets a free entry or, if there is none, one that was kept.
-/

import SpeakerFirmware.Lib.Runs
import SpeakerFirmware.Lib.SlotTable

namespace SpeakerFirmware.BtManager

open List Runs SlotTable

/-- `bd_address_t`, six bytes. -/
abbrev BdAddress := BitVec 48

/-- The fields of `bt_mgr_dev_info_t` that the functions for the table use. -/
structure DevInfo where
  addr : BdAddress
  hdl : UInt16
  used : Bool
  isTws : Bool
  haltPhone : Bool
  newDev : Bool
  timeoutDisconnected : Bool
  autoReconnect : Bool
  needResumePlay : Bool
  btMusicVol : UInt8
  btCallVol : UInt8
  deriving DecidableEq, Repr

/-- An entry behind `memset`. -/
def DevInfo.zero : DevInfo := ⟨0, 0, false, false, false, false, false, false, false, 0, 0⟩

/-- `bt_mgr_saved_dev_volume_t`. -/
structure SavedDevVolume where
  addr : BdAddress
  btMusicVol : UInt8
  btCallVol : UInt8
  deriving DecidableEq, Repr

/-- The part of `bt_manager_context_t` with the devices, and the default volumes of the
configuration. -/
structure Devices where
  dev : List DevInfo
  savedDevVolume : List SavedDevVolume
  btMusicDefaultVolumeEx : UInt8
  btCallDefaultVolume : UInt8
  deriving DecidableEq, Repr

def maxMgrDev : Nat := 3

/-- `bt_manager_read_dev_volume`: whether there is a record, and the two volumes. -/
def btManagerReadDevVolume (s : Devices) (addr : BdAddress) : Bool × UInt8 × UInt8 :=
  match s.savedDevVolume.find? fun p => p.addr = addr with
  | some p => (true, p.btMusicVol, p.btCallVol)
  | none => (false, s.btMusicDefaultVolumeEx, s.btCallDefaultVolume)

/-- Write an entry, and go on at `Exit`, where the volumes are read. -/
def Devices.enter (s : Devices) (addr : BdAddress) (i : Nat) (info : DevInfo) : Devices :=
  let volume := btManagerReadDevVolume s addr
  let new := { info with newDev := !volume.1, btMusicVol := volume.2.1, btCallVol := volume.2.2 }
  { s with dev := s.dev.set i new }

/-- One of the loops over the table: the first entry with a property. -/
def Devices.search (s : Devices) (p : DevInfo → Bool) : Option (Nat × DevInfo) :=
  (s.dev.findIdx? p).bind fun i => (s.dev[i]?).map (i, ·)

def btMgrAddDevInfo (s : Devices) (addr : BdAddress) (hdl : UInt16) : Devices :=
  match s.search fun info => info.used && info.addr == addr with
  | some (i, info) => s.enter addr i { info with hdl := hdl }
  | none =>
    match s.search fun info => !info.used with
    | some (i, info) => s.enter addr i { info with used := true, hdl := hdl, addr := addr }
    | none =>
      match s.search fun info => (info.timeoutDisconnected || info.haltPhone) && info.hdl == 0 with
      | some (i, info) => s.enter addr i { info with used := true, hdl := hdl, addr := addr }
      | none => s

def btMgrFreeDevInfo (info : DevInfo) : DevInfo :=
  if !info.timeoutDisconnected && !info.haltPhone then .zero
  else
    { DevInfo.zero with
      addr := info.addr
      needResumePlay := info.needResumePlay
      timeoutDisconnected := info.timeoutDisconnected
      haltPhone := info.haltPhone
      autoReconnect := info.autoReconnect
      used := true }

/-- What happens to the table: the two functions, and other code that sets the flags of an entry. -/
inductive DevEvent
  | add (addr : BdAddress) (hdl : UInt16)
  | free (i : Nat)
  | setFlags (i : Nat) (needResumePlay timeoutDisconnected haltPhone autoReconnect : Bool)
  deriving DecidableEq, Repr

def devStep (s : Devices) : DevEvent → Devices
  | .add addr hdl => btMgrAddDevInfo s addr hdl
  | .free i => { s with dev := s.dev.modify i btMgrFreeDevInfo }
  | .setFlags i needResumePlay timeoutDisconnected haltPhone autoReconnect =>
    { s with dev := s.dev.modify i fun info =>
        if info.used then
          { info with needResumePlay, timeoutDisconnected, haltPhone, autoReconnect } else info }

/-! ## The entries -/

/-- The address that an entry is for. -/
def DevInfo.key (info : DevInfo) : Option BdAddress :=
  if info.used then some info.addr else none

/-- None of the four flags that a kept entry has. -/
def DevInfo.Unflagged (info : DevInfo) : Prop :=
  info.needResumePlay = false ∧ info.timeoutDisconnected = false ∧ info.haltPhone = false ∧
    info.autoReconnect = false

/-- One entry for an address, and no flags in an entry that is not in use. -/
structure Devices.Tidy (s : Devices) : Prop where
  distinct : Distinct DevInfo.key s.dev
  unused : ∀ info ∈ s.dev, info.used = false → info.Unflagged

theorem DevInfo.key_eq_some {info : DevInfo} {addr : BdAddress} :
    info.key = some addr ↔ info.used = true ∧ info.addr = addr := by
  unfold DevInfo.key
  split <;> simp_all

variable {s : Devices} {addr : BdAddress} {p : DevInfo → Bool} {i : Nat} {info : DevInfo}

theorem search_some (h : s.search p = some (i, info)) : s.dev[i]? = some info ∧ p info = true := by
  obtain ⟨k, hk, hget⟩ := Option.bind_eq_some_iff.mp h
  obtain ⟨other, hother, heq⟩ := Option.map_eq_some_iff.mp hget
  cases heq
  obtain ⟨hlt, hp, -⟩ := findIdx?_eq_some_iff_getElem.mp hk
  exact ⟨hother, (List.getElem?_eq_some_iff.mp hother).2 ▸ hp⟩

theorem search_none (h : s.search p = none) : ∀ info ∈ s.dev, p info = false := by
  refine findIdx?_eq_none_iff.mp (Option.eq_none_iff_forall_ne_some.mpr fun k hk => ?_)
  obtain ⟨hlt, -⟩ := findIdx?_eq_some_iff_getElem.mp hk
  rw [Devices.search, hk, Option.bind_some, getElem?_eq_getElem hlt] at h
  cases h

/-- What `bt_mgr_add_dev_info` does: a device has its entry, or it gets a free or a kept one, or it
gets none. -/
theorem add_cases (s : Devices) (addr : BdAddress) (hdl : UInt16) :
    (∃ i info, s.dev[i]? = some info ∧ info.key = some addr ∧
      btMgrAddDevInfo s addr hdl = s.enter addr i { info with hdl := hdl }) ∨
    (∀ info ∈ s.dev, info.key ≠ some addr) ∧
      ((∃ i info, s.dev[i]? = some info ∧
          btMgrAddDevInfo s addr hdl = s.enter addr i
            { info with used := true, hdl := hdl, addr := addr } ∧
          (info.used = false ∨ (∀ info ∈ s.dev, info.used = true) ∧ info.hdl = 0 ∧
            (info.timeoutDisconnected = true ∨ info.haltPhone = true))) ∨
        btMgrAddDevInfo s addr hdl = s ∧
          ∀ info ∈ s.dev, info.hdl = 0 → info.timeoutDisconnected = false ∧
            info.haltPhone = false) := by
  unfold btMgrAddDevInfo
  split
  · rename_i i info hfound
    obtain ⟨hget, hp⟩ := search_some hfound
    exact .inl ⟨i, info, hget, DevInfo.key_eq_some.mpr (by simpa using hp), rfl⟩
  · rename_i hnone
    refine .inr ⟨fun info hmem hkey => ?_, ?_⟩
    · have hp := search_none hnone info hmem
      simp [DevInfo.key_eq_some.mp hkey] at hp
    split
    · rename_i i info hfound
      obtain ⟨hget, hp⟩ := search_some hfound
      exact .inl ⟨i, info, hget, rfl, .inl (by simpa using hp)⟩
    · rename_i hfull
      have hused : ∀ info ∈ s.dev, info.used = true :=
        fun info hmem => by simpa using search_none hfull info hmem
      split
      · rename_i i info hfound
        obtain ⟨hget, hp⟩ := search_some hfound
        simp only [Bool.and_eq_true, Bool.or_eq_true, beq_iff_eq] at hp
        exact .inl ⟨i, info, hget, rfl, .inr ⟨hused, hp.2, hp.1⟩⟩
      · rename_i hkept
        refine .inr ⟨rfl, fun info hmem hhdl => ?_⟩
        simpa [hhdl] using search_none hkept info hmem

/-! ## Every sequence of events -/

theorem Devices.Tidy.set (h : s.Tidy) {new : DevInfo} (hvacant : Vacant DevInfo.key s.dev i new)
    (hnew : new.used = false → new.Unflagged) : Devices.Tidy { s with dev := s.dev.set i new } where
  distinct := h.distinct.set hvacant
  unused := by
    intro other hmem hother
    rcases mem_or_eq_of_mem_set hmem with hold | rfl
    · exact h.unused other hold hother
    · exact hnew hother

/-- An entry that keeps its address, or loses it, can be written. -/
theorem Devices.Tidy.modify (h : s.Tidy) {f : DevInfo → DevInfo} (i : Nat)
    (hf : ∀ info : DevInfo, (info.used = false → info.Unflagged) →
      (∀ addr, (f info).key = some addr → info.key = some addr) ∧
        ((f info).used = false → (f info).Unflagged)) :
    Devices.Tidy { s with dev := s.dev.modify i f } := by
  rw [modify_eq_set_getElem?]
  cases hget : s.dev[i]? with
  | none => exact h
  | some info =>
    obtain ⟨hkey, hflags⟩ := hf info (h.unused info (mem_of_getElem? hget))
    exact h.set (fun addr hnew j other hj hother =>
      h.distinct j i other info addr hj hget hother (hkey addr hnew))
      hflags

theorem Devices.Tidy.step (h : s.Tidy) (event : DevEvent) : (devStep s event).Tidy := by
  cases event with
  | add addr hdl =>
    rw [devStep]
    rcases add_cases s addr hdl
      with ⟨i, info, hget, hkey, heq⟩ | ⟨hnew, ⟨i, info, hget, heq, -⟩ | ⟨heq, -⟩⟩
    · rw [heq]
      refine h.set (fun k hk j other hj hother => h.distinct j i other info k hj hget hother hk)
        fun hunused => ?_
      exact absurd ((DevInfo.key_eq_some.mp hkey).1.symm.trans hunused) (by decide)
    · rw [heq]
      refine h.set (fun k hk j other hj hother => ?_) fun hunused =>
        absurd hunused.symm Bool.false_ne_true
      rw [← (DevInfo.key_eq_some.mp hk).2] at hother
      exact absurd hother (hnew other (mem_of_getElem? hj))
    · rw [heq]
      exact h
  | free i =>
    refine h.modify i fun info hold => ?_
    unfold btMgrFreeDevInfo
    split
    · exact ⟨fun addr hkey => (by cases hkey), fun _ => ⟨rfl, rfl, rfl, rfl⟩⟩
    · rename_i hkept
      refine ⟨fun addr hkey => DevInfo.key_eq_some.mpr ⟨?_, (DevInfo.key_eq_some.mp hkey).2⟩,
        fun hused => (by cases hused)⟩
      by_contra hunused
      obtain ⟨-, htimeout, hhalt, -⟩ := hold (by simpa using hunused)
      simp [htimeout, hhalt] at hkept
  | setFlags i needResumePlay timeoutDisconnected haltPhone autoReconnect =>
    refine h.modify i fun info hold => ?_
    split
    · rename_i hused
      exact ⟨fun addr hkey => hkey, fun hunused => absurd (hused.symm.trans hunused) (by decide)⟩
    · exact ⟨fun addr hkey => hkey, hold⟩

/-- The address has no entry, and the entry it gets has none of the flags. -/
def StartsUnflagged (s : Devices) (addr : BdAddress) (hdl : UInt16) : Prop :=
  (∀ info ∈ s.dev, info.key ≠ some addr) →
    ∀ info ∈ (btMgrAddDevInfo s addr hdl).dev, info.key = some addr → info.Unflagged

/-- The address has an entry, or one is free, or none is kept for a device that is away. -/
def NeedsNoKept (s : Devices) (addr : BdAddress) : Prop :=
  (∃ info ∈ s.dev, info.key = some addr) ∨ (∃ info ∈ s.dev, info.used = false) ∨
    ∀ info ∈ s.dev, info.hdl = 0 → info.timeoutDisconnected = false ∧ info.haltPhone = false

theorem startsUnflagged_iff (h : s.Tidy) (addr : BdAddress) (hdl : UInt16) :
    StartsUnflagged s addr hdl ↔ NeedsNoKept s addr := by
  rcases add_cases s addr hdl
    with ⟨i, info, hget, hkey, -⟩ | ⟨hnew, ⟨i, info, hget, heq, hslot⟩ | ⟨heq, hkept⟩⟩
  · have hmem := mem_of_getElem? hget
    exact iff_of_true (fun hnew => absurd hkey (hnew info hmem)) (.inl ⟨info, hmem, hkey⟩)
  · have hmem := mem_of_getElem? hget
    rcases hslot with hunused | ⟨hused, hhdl, hflag⟩
    · refine iff_of_true (fun _ other hother hkey => ?_) (.inr (.inl ⟨info, hmem, hunused⟩))
      rw [heq] at hother
      rcases mem_or_eq_of_mem_set hother with hold | rfl
      · exact absurd hkey (hnew other hold)
      · exact h.unused info hmem hunused
    · refine iff_of_false (fun hstarts => ?_) ?_
      · -- the entry that is written keeps the flag for which it was chosen
        rw [StartsUnflagged, heq] at hstarts
        have hin := hstarts hnew _ (mem_set (List.getElem?_eq_some_iff.mp hget).1 _) rfl
        rcases hflag with hflag | hflag
        · exact absurd (hflag.symm.trans hin.2.1) (by decide)
        · exact absurd (hflag.symm.trans hin.2.2.1) (by decide)
      · rintro (⟨other, hother, hkey⟩ | ⟨other, hother, hunused⟩ | hkept)
        · exact hnew other hother hkey
        · exact absurd ((hused other hother).symm.trans hunused) (by decide)
        · obtain ⟨htimeout, hhalt⟩ := hkept info hmem hhdl
          simp [htimeout, hhalt] at hflag
  · refine iff_of_true (fun _ other hother hkey => ?_) (.inr (.inr hkept))
    rw [heq] at hother
    exact absurd hkey (hnew other hother)

/-- The table behind `memset`, with any saved volumes. -/
def noDevices (saved : List SavedDevVolume) (music call : UInt8) : Devices :=
  ⟨replicate maxMgrDev .zero, saved, music, call⟩

theorem tidy_noDevices (saved : List SavedDevVolume) (music call : UInt8) :
    (noDevices saved music call).Tidy where
  distinct := by
    intro i j a b k hi hj ha
    rw [eq_of_mem_replicate (mem_of_getElem? hi)] at ha
    cases ha
  unused := by
    intro info hmem _
    rw [eq_of_mem_replicate hmem]
    exact ⟨rfl, rfl, rfl, rfl⟩

/-- In every sequence of events there is one entry for an address. A new entry has none of the flags
if and only if, whenever a device is added, no kept entry has to be taken. -/
theorem new_entries_unflagged_iff (saved : List SavedDevVolume) (music call : UInt8)
    (events : List DevEvent) :
    (∀ first rest, events = first ++ rest →
      Distinct DevInfo.key (first.foldl devStep (noDevices saved music call)).dev) ∧
    ((∀ first addr hdl rest, events = first ++ .add addr hdl :: rest →
        StartsUnflagged (first.foldl devStep (noDevices saved music call)) addr hdl) ↔
      ∀ first addr hdl rest, events = first ++ .add addr hdl :: rest →
        NeedsNoKept (first.foldl devStep (noDevices saved music call)) addr) := by
  have htidy : ∀ first rest, events = first ++ rest →
      (first.foldl devStep (noDevices saved music call)).Tidy :=
    foldl_invariant (fun s event h (_ : True) => h.step event)
      (tidy_noDevices saved music call) fun _ _ _ _ => trivial
  refine ⟨fun first rest heq => (htidy first rest heq).distinct, ?_⟩
  refine forall_congr' fun first => forall_congr' fun addr => forall_congr' fun hdl =>
    forall_congr' fun rest => ?_
  exact imp_congr_right fun heq => startsUnflagged_iff (htidy first _ heq) addr hdl

/-- The link to a phone is lost, and three others come. -/
def fourPhones : List DevEvent :=
  [.add 1 1, .setFlags 0 true true false true, .free 0, .add 2 2, .add 3 3, .add 4 4]

/-- The fourth phone is to resume what the first one played. -/
theorem fourth_phone_inherits_flags :
    ((fourPhones.foldl devStep (noDevices [] 10 10)).dev.map fun info =>
      (info.addr, info.needResumePlay)) =
      [(4, true), (2, false), (3, false)] := by
  decide

end SpeakerFirmware.BtManager
