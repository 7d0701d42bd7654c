/-
# What preparing the partitions does

`Extends` relates an attempt to a later moment of it: the events in between account for
everything that happened to the world. Because the lists of the world only grow, what
is shown at the end of an attempt holds wherever power was lost in it.

`erasePartOps_clears` is the one fact about the erase functions the rest needs: on an
aligned partition they erase from the offset on to its end, and nothing else.
-/

import Mathlib.Data.List.Pairwise
import SpeakerFirmware.Ota.Upgrade.Model

namespace SpeakerFirmware.Ota.Upgrade

open NorFlash
open List Function

variable {part : PartitionEntry} {ota : UpgradeInfo} {fw : Firmware}

/-! ## Events -/

/-- The second attempt is a later moment of the first. -/
def Attempt.Extends (a a' : Attempt) : Prop :=
  ∃ events, a'.events = a.events ++ events ∧ a'.world = events.foldl Event.apply a.world

theorem Attempt.Extends.refl (a : Attempt) : a.Extends a :=
  ⟨[], (append_nil _).symm, rfl⟩

theorem Attempt.Extends.trans {a₁ a₂ a₃ : Attempt} (h : a₁.Extends a₂) (h' : a₂.Extends a₃) :
    a₁.Extends a₃ := by
  obtain ⟨events, hevents, hworld⟩ := h
  obtain ⟨events', hevents', hworld'⟩ := h'
  refine ⟨events ++ events', ?_, ?_⟩
  · rw [hevents', hevents, append_assoc]
  · rw [hworld', hworld, foldl_append]

theorem Attempt.extends_emit (a : Attempt) (event : Event) : a.Extends (a.emit event) :=
  ⟨[event], rfl, rfl⟩

/-- Changing `ota->bp` is no event. -/
theorem Attempt.extends_bp (a : Attempt) (bp : Breakpoint) : a.Extends { a with bp } :=
  ⟨[], (append_nil _).symm, rfl⟩

theorem Attempt.extends_emitAll (a : Attempt) (events : List Event) :
    a.Extends (a.emitAll events) := by
  induction events generalizing a with
  | nil => exact .refl a
  | cons event events ih => exact (a.extends_emit event).trans (ih (a.emit event))

theorem Attempt.extends_foldl {step : Attempt → PartitionEntry → Attempt}
    (hstep : ∀ (a : Attempt) (part : PartitionEntry), a.Extends (step a part)) (a : Attempt)
    (parts : List PartitionEntry) :
    a.Extends (parts.foldl step a) :=
  foldlRecOn parts step (.refl a) fun a' h part _ => h.trans (hstep a' part)

theorem extends_save (fw : Firmware) (a : Attempt) : a.Extends (otaBreakpointSave fw a) := by
  unfold otaBreakpointSave
  split
  · exact .refl a
  · exact (a.extends_bp _).trans (Attempt.extends_emit _ _)

theorem extends_init (fw : Firmware) (a : Attempt) : a.Extends (otaBreakpointInit fw a) := by
  have hload : a.Extends (loadOtaBp fw a) := by
    unfold loadOtaBp
    split
    · exact a.extends_emit _
    · exact .refl a
  unfold otaBreakpointInit
  dsimp only
  split
  · exact (hload.trans (Attempt.extends_bp _ _)).trans (extends_save fw _)
  · exact hload.trans (Attempt.extends_bp _ _)

theorem extends_updateState (fw : Firmware) (a : Attempt) (state : BpState) :
    a.Extends (otaBreakpointUpdateState fw a state) :=
  (a.extends_bp _).trans (extends_save fw _)

theorem extends_erasePart (ota : UpgradeInfo) (a : Attempt) (part : PartitionEntry)
    (startOffset : Int) (initialState : Bool) :
    a.Extends (otaPartitionErasePart ota a part startOffset initialState).1 := by
  unfold otaPartitionErasePart
  split
  · exact a.extends_emitAll _
  · exact .refl a

theorem extends_recordClean (a : Attempt) (part : PartitionEntry) :
    a.Extends (recordClean a part) :=
  (a.extends_bp _).trans (Attempt.extends_emit _ _)

theorem extends_prepareInit (fw : Firmware) (ota : UpgradeInfo) (a : Attempt) :
    a.Extends (otaPartitionUpdatePrepareInit fw ota a) := by
  have hpart : ∀ (a : Attempt) (part : PartitionEntry),
      a.Extends (prepareInitPart fw ota a part) := by
    intro a part
    unfold prepareInitPart
    split
    · split
      · exact extends_recordClean a part
      · exact (extends_erasePart ota a part 0 true).trans (extends_recordClean _ part)
    · exact .refl a
  exact ((Attempt.extends_foldl hpart a fw.parts).trans (Attempt.extends_bp _ _)).trans
    (extends_save fw _)

theorem extends_preparePart (fw : Firmware) (ota : UpgradeInfo) (initState : Bool) (a : Attempt)
    (part : PartitionEntry) : a.Extends (preparePart fw ota initState a part) := by
  have hwhole : a.Extends (erasePart ota initState a part) := by
    have hrecord := (extends_erasePart ota a part 0 initState).trans (extends_recordClean _ part)
    unfold erasePart
    dsimp only
    split
    · exact hrecord.trans (Attempt.extends_bp _ _)
    · exact hrecord
  have hresume : a.Extends (resumePart ota initState a part) :=
    ((a.extends_bp _).trans (extends_erasePart ota _ part _ initState)).trans
      (Attempt.extends_bp _ _)
  unfold preparePart
  split
  · exact .refl a
  · split
    · split
      all_goals first | exact .refl a | exact hwhole | skip
      all_goals split <;> assumption
    · exact hwhole

theorem extends_prepare (fw : Firmware) (ota : UpgradeInfo) (initState : Bool) (a : Attempt) :
    a.Extends (otaPartitionUpdatePrepare fw ota initState a) := by
  unfold otaPartitionUpdatePrepare
  split
  · exact .refl a
  · exact ((Attempt.extends_foldl (extends_preparePart fw ota initState) a fw.parts).trans
      (Attempt.extends_bp _ _)).trans (extends_save fw _)

theorem extends_upgradeInit (fw : Firmware) (w : World) (param : UpgradeParam) :
    (Attempt.start w).Extends (otaUpgradeInit fw w param) := by
  have hinit := extends_init fw (.start w)
  unfold otaUpgradeInit
  split
  · exact .refl _
  · refine (hinit.trans ?_).trans (extends_save fw _)
    unfold otaUpgradeInitParts
    split
    · exact extends_prepare fw _ true _
    · dsimp only
      split
      · exact Attempt.extends_bp _ _
      · exact (Attempt.extends_bp _ _).trans (extends_prepareInit fw _ _)

theorem extends_upgradeCheck (fw : Firmware) (w : World) (ota : UpgradeInfo) (bpChanged : Bool) :
    (Attempt.start w).Extends (otaUpgradeCheck fw w ota bpChanged) := by
  have hfirst := (extends_init fw (.start w)).trans (extends_prepare fw ota false _)
  unfold otaUpgradeCheck
  dsimp only
  split
  · exact (hfirst.trans (extends_updateState fw _ _)).trans (extends_prepare fw ota false _)
  · exact hfirst

/-! ## Growing lists -/

theorem Event.erases_subset (w : World) (event : Event) : w.erases ⊆ (event.apply w).erases := by
  cases event with
  | erase useRecovery part op => exact subset_append_left _ _
  | recordClean part => exact fun _ h => h
  | cache bp => exact fun _ h => h
  | save bp => exact fun _ h => h

theorem Event.recorded_subset (w : World) (event : Event) :
    w.recorded ⊆ (event.apply w).recorded := by
  cases event with
  | erase useRecovery part op => exact fun _ h => h
  | recordClean part => exact subset_append_left _ _
  | cache bp => exact fun _ h => h
  | save bp => exact fun _ h => h

theorem foldl_lists_subset (w : World) (events : List Event) :
    w.erases ⊆ (events.foldl Event.apply w).erases ∧
      w.recorded ⊆ (events.foldl Event.apply w).recorded :=
  foldlRecOn (motive := fun w' => w.erases ⊆ w'.erases ∧ w.recorded ⊆ w'.recorded) events
    Event.apply
    ⟨fun _ h => h, fun _ h => h⟩ fun w' h event _ =>
      ⟨List.Subset.trans h.1 (event.erases_subset w'),
        List.Subset.trans h.2 (event.recorded_subset w')⟩

/-- Wherever power is lost, the lists hold no more than at the end of the attempt. -/
theorem Attempt.outcome_subset {w : World} {a : Attempt} (h : (Attempt.start w).Extends a)
    (cut : Option Nat) :
    (a.outcome w cut).erases ⊆ a.world.erases ∧ (a.outcome w cut).recorded ⊆ a.world.recorded := by
  cases cut with
  | none => exact ⟨fun _ h => h, fun _ h => h⟩
  | some n =>
    obtain ⟨events, hevents, hworld⟩ := h
    have hall : a.world = (a.events.drop n).foldl Event.apply
        ((a.events.take n).foldl Event.apply w) := by
      rw [← foldl_append, take_append_drop, hevents, hworld]
      rfl
    have hsub := foldl_lists_subset ((a.events.take n).foldl Event.apply w) (a.events.drop n)
    rw [← hall] at hsub
    exact hsub

/-! ## Properties of the lists -/

/-- A property of what is in the two lists. -/
def World.OfLists (P : World → Prop) : Prop :=
  ∀ {w w' : World}, w'.erases ⊆ w.erases → w'.recorded ⊆ w.recorded → P w → P w'

/-- Storing the record changes neither the flash nor the lists. -/
theorem save_frame (fw : Firmware) (a : Attempt) :
    (otaBreakpointSave fw a).world.flash = a.world.flash ∧
      (otaBreakpointSave fw a).world.erases = a.world.erases ∧
      (otaBreakpointSave fw a).world.recorded = a.world.recorded := by
  unfold otaBreakpointSave
  split
  · exact ⟨rfl, rfl, rfl⟩
  · dsimp only
    split <;> exact ⟨rfl, rfl, rfl⟩

/-- Nor does loading it. -/
theorem init_frame (fw : Firmware) (w : World) :
    (otaBreakpointInit fw (.start w)).world.flash = w.flash ∧
      (otaBreakpointInit fw (.start w)).world.erases = w.erases ∧
      (otaBreakpointInit fw (.start w)).world.recorded = w.recorded := by
  have hload : (loadOtaBp fw (.start w)).world.flash = w.flash ∧
      (loadOtaBp fw (.start w)).world.erases = w.erases ∧
      (loadOtaBp fw (.start w)).world.recorded = w.recorded := by
    unfold loadOtaBp
    split <;> exact ⟨rfl, rfl, rfl⟩
  unfold otaBreakpointInit
  dsimp only
  split
  · obtain ⟨hflash, herases, hrecorded⟩ :=
      save_frame fw { loadOtaBp fw (.start w) with bp := otaBreakpointInitDefaultValue fw }
    exact ⟨hflash.trans hload.1, herases.trans hload.2.1, hrecorded.trans hload.2.2⟩
  · exact hload

theorem save_state (fw : Firmware) (a : Attempt) :
    (otaBreakpointSave fw a).bp.state = a.bp.state := by
  unfold otaBreakpointSave
  split <;> rfl

section

variable {P : World → Prop} (hP : World.OfLists P) {w : World} {a : Attempt}

include hP

theorem save_keeps (h : P a.world) : P (otaBreakpointSave fw a).world :=
  hP ((save_frame fw a).2.1 ▸ List.Subset.refl _) ((save_frame fw a).2.2 ▸ List.Subset.refl _) h

theorem init_keeps (h : P w) : P (otaBreakpointInit fw (.start w)).world :=
  hP ((init_frame fw w).2.1 ▸ List.Subset.refl _) ((init_frame fw w).2.2 ▸ List.Subset.refl _) h

theorem upgradeInit_keeps {param : UpgradeParam}
    (hprepare : param.flagEnableRebootResumeUpgrade = true → ∀ a,
      a = otaBreakpointInit fw (.start w) →
      P a.world → P (otaPartitionUpdatePrepare fw param.ota true a).world)
    (hinit : param.flagEnableRebootResumeUpgrade = false → param.flagSkipInitErase = false →
      ∀ a : Attempt, a.world.flash = w.flash → P a.world →
        P (otaPartitionUpdatePrepareInit fw param.ota a).world)
    (h : P w) : P (otaUpgradeInit fw w param).world := by
  have hloaded : P (otaBreakpointInit fw (.start w)).world := init_keeps hP h
  unfold otaUpgradeInit
  split
  · exact h
  · apply save_keeps hP
    unfold otaUpgradeInitParts
    split
    · rename_i hflag
      exact hprepare hflag _ rfl hloaded
    · rename_i hflag
      dsimp only
      split
      · exact hloaded
      · rename_i hskip
        exact hinit (Bool.not_eq_true _ ▸ hflag) (Bool.not_eq_true _ ▸ hskip) _
          (init_frame fw w).1 hloaded

/-- Another image resumes nothing. -/
theorem upgradeCheck_keeps (bpChanged : Bool)
    (hprepare : ∀ a : Attempt, a = otaBreakpointInit fw (.start w) ∨ ¬ a.bp.state.Resumes →
      P a.world →
      P (otaPartitionUpdatePrepare fw ota false a).world)
    (h : P w) : P (otaUpgradeCheck fw w ota bpChanged).world := by
  have hfirst := hprepare _ (.inl rfl) (init_keeps hP h)
  unfold otaUpgradeCheck
  dsimp only
  split
  · refine hprepare _ (.inr fun hstate => ?_) (save_keeps hP hfirst)
    rw [otaBreakpointUpdateState, save_state] at hstate
    exact absurd hstate (show ¬ BpState.writingImgFail.Resumes by decide)
  · exact hfirst

theorem getOtherWriting_keeps (fileId : UInt8) (parts : List PartitionEntry) (h : P a.world) :
    P (getOtherWritingLoop fw fileId a parts).1.world := by
  induction parts with
  | nil => exact h
  | cons part parts ih =>
    rw [getOtherWritingLoop]
    split
    · exact ih
    · split
      · exact save_keeps hP h
      · split
        · exact h
        · exact ih

theorem setOtherWriting_keeps (fileId : UInt8) (h : P w) :
    P (otaUpgradeSetOtaPartitionOtherWriting fw w fileId).1.world := by
  have hinit : P (otaBreakpointInit fw (.start w)).world := init_keeps hP h
  unfold otaUpgradeSetOtaPartitionOtherWriting
  dsimp only
  split
  · exact hinit
  · split
    · exact save_keeps hP hinit
    · exact hinit

/-- One step keeps the property if the attempts that prepare the partitions do. -/
theorem step_keeps {label : Label}
    (hinit : ∀ param cut, label = .init param cut → P (otaUpgradeInit fw w param).world)
    (hcheck : ∀ ota bpChanged cut, label = .check ota bpChanged cut →
      P (otaUpgradeCheck fw w ota bpChanged).world)
    (h : P w) : P (w.step fw label) := by
  -- a power loss leaves no more in the lists than the whole attempt
  have hcut : ∀ (a : Attempt) (cut : Option Nat), (Attempt.start w).Extends a → P a.world →
      P (a.outcome w cut) := fun a cut hextends =>
    hP (Attempt.outcome_subset hextends cut).1 (Attempt.outcome_subset hextends cut).2
  cases label with
  | init param cut => exact hcut _ cut (extends_upgradeInit fw w param) (hinit param cut rfl)
  | check ota bpChanged cut =>
    exact hcut _ cut (extends_upgradeCheck fw w ota bpChanged) (hcheck ota bpChanged cut rfl)
  | getOtherWriting fileId => exact getOtherWriting_keeps hP fileId fw.parts (init_keeps hP h)
  | setOtherWriting fileId => exact setOtherWriting_keeps hP fileId h
  | other flash saved otaBp => exact hP (w := w) (fun _ hmem => hmem) (fun _ hmem => hmem) h

end

/-! ## Erases of a partition -/

/-- A partition on sector boundaries, in the range of an `int`. -/
structure PartitionEntry.Aligned (part : PartitionEntry) : Prop where
  offset : part.offset % 0x1000 = 0
  size : part.size % 0x1000 = 0
  stop_lt : part.stop < 2 ^ 31

/-- From an offset inside the partition on, everything up to its end is erased. -/
theorem erasePartOps_clears (f : Image) (hpart : part.Aligned) {skip : Nat}
    (haligned : skip % 0x1000 = 0) (hskip : skip ≤ part.size) (initialState : Bool) :
    Clears f (part.offset + skip) (part.size - skip) (erasePartOps f part skip initialState).1 := by
  obtain ⟨rest, hsize⟩ := Nat.exists_eq_add_of_le hskip
  have hoffset := hpart.offset
  have hrest : rest % 0x1000 = 0 := by
    have hsize' := hpart.size
    omega
  have hstop : part.offset + skip + rest < 2 ^ 31 := by
    have hlt := hpart.stop_lt
    rw [PartitionEntry.stop] at hlt
    omega
  have haddr : i32 (roundDown (part.offset + skip)) = ((part.offset + skip : Nat) : Int) := by
    rw [← Int.natCast_add, roundDown_of_aligned (by omega) (by omega)]
    exact i32_of_nat (by omega)
  have hlen : i32 (roundUp (part.size - skip)) = (rest : Int) := by
    rw [show (part.size : Int) - skip = rest by omega, roundUp_of_aligned (by omega) hrest]
    exact i32_of_nat (by omega)
  rw [show part.size - skip = rest by omega]
  unfold erasePartOps
  rw [haddr, hlen]
  dsimp only
  split
  · exact otaStorageErase_clears f (by omega) hrest (by omega)
  · split
    · rename_i hlarge
      rw [otaEraseAlignSize] at hlarge
      -- the first sector is erased last
      obtain ⟨more, rfl⟩ := Nat.exists_eq_add_of_le (show 0x1000 ≤ rest by omega)
      have hback : Clears f (part.offset + skip + 0x1000) more
          (otaStorageEraseInitial (part.offset + skip + 0x1000 : Nat) more).1 :=
        otaStorageEraseInitial_clears f (by omega) (by omega) (by omega)
      have hfront := otaStorageEraseInitial_clears
        (applyAll (otaStorageEraseInitial (part.offset + skip + 0x1000 : Nat) more).1 f)
        (show (part.offset + skip) % 0x1000 = 0 by omega) (show 0x1000 % 0x1000 = 0 by decide)
          (by omega)
      have hcast : ((part.offset + skip : Nat) : Int) + otaEraseAlignSize =
          (part.offset + skip + 0x1000 : Nat) := rfl
      have hcast' : ((0x1000 + more : Nat) : Int) - otaEraseAlignSize = more := by
        rw [otaEraseAlignSize]
        omega
      rw [hcast, hcast']
      exact hback.append_front hfront
    · exact otaStorageEraseInitial_clears f (by omega) hrest (by omega)

theorem erasePartOps_onlyErases (f : Image) (part : PartitionEntry) (startOffset : Int)
    (initialState : Bool) : OnlyErases (erasePartOps f part startOffset initialState).1 := by
  unfold erasePartOps
  dsimp only
  split
  · exact otaStorageErase_onlyErases _ _ _
  · split
    · exact (flashErase_onlyErases _ _).append (flashErase_onlyErases _ _)
    · exact flashErase_onlyErases _ _

/-- The erases of a partition in the world. -/
theorem emitAll_erases (a : Attempt) (useRecovery : Bool) (part : PartitionEntry) (ops : List Op) :
    (a.emitAll (ops.map (.erase useRecovery part))).world = { a.world with
      flash := update a.world.flash part.storageId
        (applyAll ops (a.world.flash part.storageId))
      erases := a.world.erases ++ ops.map fun op => (useRecovery, part, op) } := by
  induction ops generalizing a with
  | nil =>
    rw [map_nil, map_nil, append_nil, applyAll_nil, update_eq_self]
    rfl
  | cons op ops ih =>
    have hnext := ih (a.emit (.erase useRecovery part op))
    rw [map_cons]
    refine hnext.trans ?_
    simp only [Attempt.emit, Event.apply, update_self, update_idem, map_cons,
      append_assoc, singleton_append, applyAll_cons]

/-- What erasing a partition from an offset on does to an attempt. -/
structure Attempt.ErasedFrom (a a' : Attempt) (useRecovery : Bool) (part : PartitionEntry)
    (skip : Nat) (ops : List Op) : Prop where
  clears : Clears (a.world.flash part.storageId) (part.offset + skip) (part.size - skip) ops
  flash : a'.world.flash = Function.update a.world.flash part.storageId
    (applyAll ops (a.world.flash part.storageId))
  erases : a'.world.erases = a.world.erases ++ ops.map fun op => (useRecovery, part, op)
  recorded : a'.world.recorded = a.world.recorded
  bp : a'.bp = a.bp

theorem emitAll_bp (a : Attempt) (events : List Event) : (a.emitAll events).bp = a.bp := by
  induction events generalizing a with
  | nil => rfl
  | cons event events ih => exact ih (a.emit event)

theorem erasedFrom_erasePart (a : Attempt) (hpart : part.Aligned)
    (hstorage : ota.hasStorage part = true) {skip : Nat} (haligned : skip % 0x1000 = 0)
    (hskip : skip ≤ part.size) (initialState : Bool) :
    ∃ ops, a.ErasedFrom (otaPartitionErasePart ota a part skip initialState).1 ota.useRecovery part
      skip ops := by
  have hworld := emitAll_erases a ota.useRecovery part
    (erasePartOps (a.world.flash part.storageId) part skip initialState).1
  refine ⟨_, erasePartOps_clears _ hpart haligned hskip initialState, ?_, ?_, ?_, ?_⟩
  all_goals rw [otaPartitionErasePart, if_pos hstorage]
  · exact congrArg World.flash hworld
  · exact congrArg World.erases hworld
  · have hrecorded := congrArg World.recorded hworld
    exact hrecorded
  · exact emitAll_bp a _

/-! ## Well-formed tables -/

/-- Two entries in use on one chip do not overlap. -/
def PartitionEntry.Apart (p q : PartitionEntry) : Prop :=
  p.fileId ≠ 0 → q.fileId ≠ 0 → p.storageId = q.storageId → p.stop ≤ q.offset ∨ q.stop ≤ p.offset

/-- A table of disjoint partitions on sector boundaries. -/
structure Firmware.WellFormed (fw : Firmware) : Prop where
  aligned : ∀ part ∈ fw.parts, part.fileId ≠ 0 → part.Aligned
  apart : fw.parts.Pairwise PartitionEntry.Apart

instance : Std.Symm PartitionEntry.Apart :=
  ⟨fun _ _ h hq hp hstorage => (h hp hq hstorage.symm).symm⟩

theorem Firmware.WellFormed.apart_of_ne (h : fw.WellFormed) {p q : PartitionEntry}
    (hp : p ∈ fw.parts) (hq : q ∈ fw.parts) (hne : p ≠ q) : p.Apart q :=
  h.apart.forall hp hq hne

theorem prepareInitHandles_fileId
    (h : prepareInitHandles fw ota part = true) : part.fileId ≠ 0 :=
  (of_decide_eq_true h).1

theorem prepareHandles_fileId
    (h : prepareHandles fw ota part = true) : part.fileId ≠ 0 :=
  (of_decide_eq_true h).1

/-- Without recovery only partitions of the other mirror are handled. -/
theorem isMirrorPart_of_isOtherFirmware
    (h : fw.isOtherFirmware part = true) : part.mirrorId.val ≠ fw.currentMirrorId := by
  have hmirror : fw.isMirrorPart part = true := (of_decide_eq_true h).1
  exact (of_decide_eq_true hmirror).1

theorem mirror_of_prepareHandles (h : prepareHandles fw ota part = true)
    (hrecovery : ota.useRecovery = false) :
    part.mirrorId.val ≠ fw.currentMirrorId :=
  isMirrorPart_of_isOtherFirmware ((if_pos hrecovery).symm.trans (of_decide_eq_true h).2)

theorem mirror_of_prepareInitHandles (h : prepareInitHandles fw ota part = true)
    (hrecovery : ota.useRecovery = false) : part.mirrorId.val ≠ fw.currentMirrorId :=
  isMirrorPart_of_isOtherFirmware ((if_pos hrecovery).symm.trans (of_decide_eq_true h).2)

/-! ## A small device -/

/-- A table with the event buffer and the firmware of the other mirror on both sides of the
running firmware. -/
def eventBufferB : PartitionEntry := ⟨0, partitionFileIdEvtbuf, 1, 0, 0x1000, 0x1000⟩
def systemA : PartitionEntry := ⟨1, partitionFileIdSystem, 0, 0, 0x2000, 0x1000⟩
def systemB : PartitionEntry := ⟨1, partitionFileIdSystem, 1, 0, 0x3000, 0x2000⟩

def mirroredFirmware : Firmware where
  parts := [eventBufferB, systemA, systemB] ++ List.replicate 12 ⟨0, 0, 0, 0, 0, 0⟩
  curNorAddr := 0x2000
  fwVersionCode := 1
  rebootResume := true
  recovery := false
  length_parts := rfl

theorem mirroredFirmware_wellFormed : mirroredFirmware.WellFormed where
  aligned := by
    intro part hpart hused
    rcases mem_append.mp hpart with hin | hpad
    · simp only [mem_cons, not_mem_nil, or_false] at hin
      rcases hin with rfl | rfl | rfl <;> exact ⟨by decide, by decide, by decide⟩
    · exact absurd (congrArg PartitionEntry.fileId (eq_of_mem_replicate hpad)) hused
  apart := by
    refine pairwise_append.mpr ⟨?_, ?_, ?_⟩
    · simp only [pairwise_cons, mem_cons, not_mem_nil, or_false, forall_eq_or_imp,
        forall_eq, List.Pairwise.nil, and_true, IsEmpty.forall_iff, implies_true]
      refine ⟨⟨?_, ?_⟩, ?_⟩
      all_goals exact fun _ _ _ => .inl (by decide)
    · exact pairwise_replicate.mpr (.inr fun h => absurd rfl h)
    · intro part _ pad hpad _ hused
      exact absurd (congrArg PartitionEntry.fileId (eq_of_mem_replicate hpad)) hused

def blankWorld : World where
  flash := fun _ _ => 0
  saved := none
  otaBp := zeroBreakpoint
  erases := []
  recorded := []

end SpeakerFirmware.Ota.Upgrade
