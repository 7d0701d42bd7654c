/-
# Resuming the temp image

A device attempts the same upgrade any number of times. Each attempt may be refused, fail or
lose power behind any of its changes. The record that is saved is true of the flash all the
time, so that whenever the temp file is noted as written the partition holds the image, and
only erased bytes are ever programmed.
-/

import SpeakerFirmware.Ota.Upgrade.TempWrite

namespace SpeakerFirmware.Ota.Upgrade

open NorFlash
open Runs (Keeps)
open List

namespace Setup

variable {S : Setup} {w₀ w : World} {a a' : Attempt} {x : Writing}

/-! ## `ota_upgrade_check` -/

/-- The attempt has saved its record and may end. -/
theorem Saved.stops (h : S.Saved w₀ a a') (hcounts : a.bp.state.Counts) :
    S.Stops w₀ a'.writing := by
  refine ⟨h.runs, h.describes, ?_⟩
  obtain ⟨bpId, hbp⟩ := h.bp
  dsimp only [Attempt.writing]
  rw [hbp]
  exact hcounts

/-- `ota_breakpoint_exit`. -/
theorem Trail.exit (h : S.Trail w₀ x.world x.changes)
    (hdescribes : S.Describes x.bp (S.chip x.world)) :
    S.Trail w₀ (x.call (otaBreakpointExit S.fw)).world (x.call (otaBreakpointExit S.fw)).changes :=
  h.call (Runs.save (a := ⟨x.world, x.bp, []⟩) h.start hdescribes).runs

/-- The record of a failed upgrade says nothing, whatever the flash holds. -/
theorem Runs.fail (h : S.Runs w₀ a) :
    S.Runs w₀ (otaBreakpointExit S.fw (otaBreakpointUpdateState S.fw a .writingImgFail)) := by
  have hsaved := @Runs.updateState S w₀ a h .writingImgFail ⟨nofun, nofun⟩ (describes_failed rfl)
  exact (hsaved.runs.save hsaved.describes).runs

/-- The record of the upgrade that starts to write. -/
theorem Prepared.startWriting (h : S.Prepared w₀ a) (backendType : UInt8)
    (newVersion dataChecksum : Nat) :
    S.Saved w₀ { a with bp :=
      { a.bp with backendType, newVersion, dataChecksum, state := .writingImg } }
      (otaBreakpointUpdateState S.fw
        { a with bp := { a.bp with backendType, newVersion, dataChecksum } }
        .writingImg) := by
  obtain ⟨p, hp, hmeans⟩ : S.Describes a.bp (S.chip a.world) := h.record ▸ h.runs.sound
  refine Runs.updateState
    (a := { a with bp := { a.bp with backendType, newVersion, dataChecksum } }) h.runs
    ⟨nofun, nofun⟩ (describes_of_file ⟨nofun, nofun, nofun⟩ ⟨p, ?_, hmeans⟩)
  rw [progress_of_counts h.counts] at hp
  exact hp

theorem trail_checkRecovery (h : S.Sound w) (t : Transfer) :
    S.Trail w (otaUpgradeCheckRecovery S.fw S.img t w).world
      (otaUpgradeCheckRecovery S.fw S.img t w).changes := by
  have hprepared := fun bpChanged => prepared_check h t.storages bpChanged
  have hfirst : S.Prepared w (otaPartitionUpdatePrepare S.fw (recoveryInfo t.storages) false
    (otaBreakpointInit S.fw (.start w))) := hprepared false
  unfold otaUpgradeCheckRecovery
  cases t.verdict with
  | unreadable => exact (hfirst.runs.save (hfirst.record ▸ hfirst.runs.sound)).runs
  | refused => exact hfirst.runs.fail
  | accepted =>
    dsimp only
    have hsaved :=
      (hprepared (S.img.changed (otaPartitionUpdatePrepare S.fw (recoveryInfo t.storages) false
      (otaBreakpointInit S.fw
        (.start w))).bp)).startWriting t.backendType S.img.versionCode S.img.checksum
    have hstops := Stops.writeTempImg (t := t) (hsaved.stops ⟨nofun, nofun, nofun⟩) hsaved.record
    generalize otaWriteTempImg S.fw S.img t (Attempt.writing _) = r at hstops
    obtain ⟨x, ret⟩ := r
    dsimp only at hstops ⊢
    split
    · exact hstops.trail
    · exact hstops.trail
    · split
      · have hsaved :=
          @Runs.updateState S x.world ⟨x.world, x.bp, []⟩ hstops.trail.start .writingImgFail
          ⟨nofun, nofun⟩ (describes_failed rfl)
        exact (hstops.trail.call hsaved.runs).exit hsaved.describes
      · exact hstops.trail.exit hstops.describes

/-! ## The device -/

/-- The operations of a change are what it does to the chip. -/
theorem chip_apply (w : World) (c : Change) :
    S.chip (c.apply w) = applyAll (c.ops S.part.storageId) (S.chip w) := by
  have hupdate : ∀ (id : Fin 16) (op : Op),
      Function.update w.flash id (op.apply (w.flash id)) S.part.storageId =
        applyAll (if id = S.part.storageId then [op] else []) (w.flash S.part.storageId) := by
    intro id op
    split
    case isTrue heq =>
      rw [heq]
      exact Function.update_self _ _ _
    case isFalse hne => exact Function.update_of_ne (Ne.symm hne) _ _
  cases c with
  | event e =>
    cases e with
    | erase useRecovery part op => exact hupdate part.storageId op
    | recordClean | cache | save => rfl
  | program id op => exact hupdate id op
  | writeDone => rfl

/-- A change is at most one operation. -/
theorem allBlank_ops {c : Change} (hguard : S.Guard w c) :
    AllBlank (S.chip w) (c.ops S.part.storageId) := by
  have hone : c.ops S.part.storageId = [] ∨ ∃ op, c.ops S.part.storageId = [op] := by
    cases c with
    | event e =>
      cases e with
      | erase useRecovery part op =>
        rw [Change.ops]
        split
        · exact .inr ⟨op, rfl⟩
        · exact .inl rfl
      | recordClean | cache | save => exact .inl rfl
    | program id op =>
      rw [Change.ops]
      split
      · exact .inr ⟨op, rfl⟩
      · exact .inl rfl
    | writeDone => exact .inl rfl
  have hblank := hguard.1
  rcases hone with heq | ⟨op, heq⟩
  · rw [heq]
    trivial
  · rw [heq] at hblank ⊢
    exact ⟨hblank op (mem_singleton_self op), trivial⟩

variable (S) in
/-- What is kept from attempt to attempt: the record is true, only erased bytes were programmed,
and the image was in place whenever its file was noted as written. -/
structure Kept (f₀ : Image) (d : Device) : Prop where
  sound : S.Sound d.world
  chip : applyAll d.ops f₀ = S.chip d.world
  blank : AllBlank f₀ d.ops
  written : ∀ f ∈ d.written, Holds f S.part.offset S.stored

variable {f₀ : Image} {d : Device}

section

variable (h : S.Kept f₀ d)
include h

theorem Kept.change {c : Change} (hguard : S.Guard d.world c)
    (hsound : S.Sound (c.apply d.world)) : S.Kept f₀ (S.change d c) := by
  refine ⟨hsound, ?_, ?_, ?_⟩
  · exact (applyAll_append _ _ _).trans ((congrArg _ h.chip).trans (chip_apply d.world c).symm)
  · refine allBlank_append.mpr ⟨h.blank, ?_⟩
    rw [h.chip]
    exact allBlank_ops hguard
  · cases c with
    | event | program => exact h.written
    | writeDone part =>
      intro f hf
      rcases mem_append.mp hf with hold | hnew
      · exact h.written f hold
      · rw [mem_singleton.mp hnew]
        exact hguard.2

/-- The changes of an attempt, or the first ones of them. -/
theorem Kept.changes {changes : List Change}
    (hkeeps : Keeps Change.apply S.Sound S.Guard d.world changes) :
    S.Kept f₀ (changes.foldl S.change d) := by
  induction changes generalizing d with
  | nil => exact h
  | cons c changes ih => exact ih (h.change hkeeps.2.1 hkeeps.2.2.head) hkeeps.2.2

/-- A power loss clears the RAM, which the record does not depend on. -/
theorem Kept.reset : S.Kept f₀ { d with world := { d.world with otaBp := zeroBreakpoint } } :=
  ⟨h.sound.congr rfl rfl, h.chip, h.blank, h.written⟩

theorem Kept.step (label : Label) : S.Kept f₀ (S.step d label) := by
  have hkeeps : Keeps Change.apply S.Sound S.Guard d.world (S.changes d.world label) := by
    cases label with
    | init storages flagSkipInitErase cut =>
      exact (runs_upgradeInit h.sound storages flagSkipInitErase).keeps
    | check t cut => exact (trail_checkRecovery h.sound t).keeps
  unfold Setup.step
  generalize S.changes d.world label = changes at hkeeps
  cases label with
  | init _ _ cut | check _ cut =>
    cases cut with
    | none => exact h.changes hkeeps
    | some n => exact (h.changes (hkeeps.take n)).reset

theorem Kept.run (labels : List Label) : S.Kept f₀ (labels.foldl S.step d) :=
  foldlRecOn labels S.step h fun _ h' label _ => h'.step label

end

/-- The device starts with an erased temp partition that is recorded as clean. -/
structure Fresh (S : Setup) (w : World) : Prop where
  state : (w.record S.fw).state = .clean
  file : otaBreakpointGetFileState (w.record S.fw) S.part.fileId = some .clean
  erased : Erased (S.chip w) S.part.offset S.part.size

theorem Fresh.kept (h : S.Fresh w) : S.Kept (S.chip w) ⟨w, [], []⟩ := by
  refine ⟨⟨.blank, ?_, h.erased⟩, rfl, trivial, nofun⟩
  rw [progress_of_counts (by rw [h.state]; exact ⟨nofun, nofun, nofun⟩), Breakpoint.fileProgress,
    h.file]
  rfl

/-- However often an upgrade is attempted and however its attempts end: whenever the temp file is
noted as written, the partition holds the image without its first four bytes; as long as
the record says so, it still does; and every byte that is programmed is erased at that
time, so that it was erased since it was last programmed, unless that was with `0xff`. -/
theorem resumed_image_is_whole (S : Setup) {w : World} (hfresh : S.Fresh w) (labels : List Label) :
    let d := labels.foldl S.step ⟨w, [], []⟩
    (∀ f ∈ d.written, Holds f S.part.offset S.stored) ∧
      ((d.world.record S.fw).state = .writingImg →
        otaBreakpointGetFileState (d.world.record S.fw) S.part.fileId = some .writeDone →
          Holds (S.chip d.world) S.part.offset S.stored) ∧
      AllBlank (S.chip w) d.ops ∧ ErasedBetween (· ≠ 0xff) d.ops := by
  intro d
  have hkept := hfresh.kept.run labels
  refine ⟨hkept.written, ?_, hkept.blank, hkept.blank.erasedBetween⟩
  intro hstate hdone
  obtain ⟨p, hp, hmeans⟩ := hkept.sound
  rw [progress_of_counts (by rw [hstate]; exact ⟨nofun, nofun, nofun⟩), Breakpoint.fileProgress,
    hdone] at hp
  obtain rfl := Option.some.inj hp
  exact hmeans

end Setup

/-! ## A write error between two attempts -/

/-- A table with a temp partition of one sector. -/
def tempPart : PartitionEntry :=
  ⟨partitionTypeTemp, partitionFileIdOtaTemp, partitionMirrorIdInvalid, 0, 0x1000, 0x1000⟩

def recoveryFirmware : Firmware where
  parts := tempPart :: List.replicate 14 ⟨0, 0, 0, 0, 0, 0⟩
  curNorAddr := 0x2000
  fwVersionCode := 1
  rebootResume := true
  recovery := true
  length_parts := rfl

theorem recoveryFirmware_wellFormed : recoveryFirmware.WellFormed where
  aligned := by
    intro part hpart hused
    rcases mem_cons.mp hpart with rfl | hpad
    · exact ⟨by decide, by decide, by decide⟩
    · exact absurd (congrArg PartitionEntry.fileId (eq_of_mem_replicate hpad)) hused
  apart := by
    refine pairwise_cons.mpr ⟨?_, ?_⟩
    · intro part hpad _ hused
      exact absurd (congrArg PartitionEntry.fileId (eq_of_mem_replicate hpad)) hused
    · exact pairwise_replicate.mpr (.inr fun hused => absurd rfl hused)

/-- An image whose first segment, behind the header, is as blank as erased flash. -/
def recoverySetup : Setup where
  fw := recoveryFirmware
  wellFormed := recoveryFirmware_wellFormed
  rebootResume := rfl
  part := tempPart
  only := rfl
  type_eq := rfl
  fileId_eq := rfl
  img := ⟨fun a => if 4 ≤ a ∧ a < maxWriteSeg then 0xff else 0x5a, 72, 2, 3⟩
  size_le := by decide

/-- All flash is erased, and the temp partition is recorded as clean. -/
def recoveryWorld : World where
  flash := fun _ _ => 0xff
  saved := some
    (otaBreakpointSetFileState { zeroBreakpoint with state := .clean } partitionFileIdOtaTemp
    .clean)
  otaBp := zeroBreakpoint
  erases := []
  recorded := []

theorem recoveryWorld_fresh : recoverySetup.Fresh recoveryWorld :=
  ⟨rfl, rfl, fun _ _ _ => rfl⟩

/-- A transfer that goes through, unless the storage fails after one operation of each write. -/
def recoveryTransfer (storageFails : Bool) : Transfer where
  storages := [0]
  verdict := .accepted
  backendType := 0
  configBluetooth := true
  isBtBackend := true
  maxReqSize := 1024
  maxReqSize_pos := by decide
  segSize := 1024
  segSize_pos := by decide
  segSize_le := by decide
  prepareFails := fun _ => false
  readFails := fun _ => false
  storageFails := fun _ => storageFails
  consumeTime := 1
  opsBeforeFailure := 1
  sched := fun n => if n % 2 = 0 then .writer else .rx
  steps := 60

/-- A first attempt fails, a second one goes through. -/
def failThenWrite : List Setup.Label :=
  [.check (recoveryTransfer true) none, .check (recoveryTransfer false) none]

theorem ops_failThenWrite : (failThenWrite.foldl recoverySetup.step ⟨recoveryWorld, [], []⟩).ops =
    [.program 0x1000 (List.replicate 64 0xff), .program 0x1000 (List.replicate 64 0xff),
      .program 0x1040 (List.replicate 8 0x5a)] := by
  decide +kernel

/-- The sector the first attempt has written still reads as erased and is skipped by the erase of
the second one, which programs the same bytes again. -/
theorem blank_bytes_programmed_twice : recoverySetup.Fresh recoveryWorld ∧
    ¬ ErasedBetween (fun _ => True)
      (failThenWrite.foldl recoverySetup.step ⟨recoveryWorld, [], []⟩).ops := by
  refine ⟨recoveryWorld_fresh, fun h => ?_⟩
  obtain ⟨op, hop, -⟩ := h [] (.program 0x1000 (List.replicate 64 0xff)) []
    (.program 0x1000 (List.replicate 64 0xff))
      [.program 0x1040 (List.replicate 8 0x5a)] ops_failThenWrite
    0x1000 0xff 0xff ⟨by decide, rfl⟩ trivial ⟨by decide, rfl⟩
  cases hop

/-- The image is in place all the same. -/
theorem resumed_image_is_whole_failThenWrite :
    (failThenWrite.foldl recoverySetup.step ⟨recoveryWorld, [], []⟩).written.length = 1 ∧
      ∀ f ∈ (failThenWrite.foldl recoverySetup.step ⟨recoveryWorld, [], []⟩).written,
        Holds f 0x1000 (List.replicate 64 0xff ++ List.replicate 8 0x5a) := by
  have hstored : recoverySetup.stored = List.replicate 64 0xff ++ List.replicate 8 0x5a :=
    by decide +kernel
  refine ⟨by decide +kernel, ?_⟩
  rw [← hstored]
  exact (Setup.resumed_image_is_whole recoverySetup recoveryWorld_fresh failThenWrite).1

end SpeakerFirmware.Ota.Upgrade
