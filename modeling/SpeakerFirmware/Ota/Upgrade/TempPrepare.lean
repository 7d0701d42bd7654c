/-
# Preparing the temp partition

An attempt starts by loading the record and preparing the temp partition. Whatever the
record says, it is true again of the flash when this is done, and it is true at every moment
in between: an erase only touches bytes about which the saved record says nothing.
-/

import SpeakerFirmware.Ota.Upgrade.Progress

namespace SpeakerFirmware.Ota.Upgrade

open NorFlash ResumableCopy

variable {ota : UpgradeInfo}

/-! ## States of the record -/

/-- The file states count. -/
def BpState.Counts (state : BpState) : Prop :=
  state ≠ .unknown ∧ state ≠ .upgradeDone ∧ state ≠ .writingImgFail

/-- `ota_partition_update_prepare` does not drop the file states at its end. -/
def BpState.KeepsFiles (state : BpState) : Prop :=
  state = .upgradeWriting ∨ state = .writingImg ∨ state = .clean ∨ state = .unknown

theorem progress_of_counts {bp : Breakpoint} (h : bp.state.Counts) (part : PartitionEntry) :
    bp.progress part = bp.fileProgress part := by
  obtain ⟨h1, h2, h3⟩ := h
  unfold Breakpoint.progress
  split <;> first | contradiction | rfl

namespace Setup

variable {S : Setup} {w₀ w : World} {a a' : Attempt} {bp : Breakpoint} {f : Image}

theorem describes_of_file (hcounts : bp.state.Counts) (h : S.FileDescribes bp f) :
    S.Describes bp f := by
  obtain ⟨p, hp, hmeans⟩ := h
  exact ⟨p, (progress_of_counts hcounts _).trans hp, hmeans⟩

theorem fileDescribes_of (h : S.Describes bp f) (hkeeps : bp.state.KeepsFiles) :
    S.FileDescribes bp f := by
  obtain ⟨p, hp, hmeans⟩ := h
  rcases hkeeps with hstate | hstate | hstate | hstate <;>
    simp only [Breakpoint.progress, hstate] at hp
  case inr.inr.inr =>
    split at hp
    case isTrue hnone =>
      refine ⟨.unknown, ?_, trivial⟩
      rw [Breakpoint.fileProgress, hnone]
      rfl
    case isFalse => cases hp
  all_goals exact ⟨p, hp, hmeans⟩

/-- A failed upgrade says nothing. -/
theorem describes_failed (hstate : bp.state = .writingImgFail) : S.Describes bp f :=
  ⟨.unknown, by rw [Breakpoint.progress, hstate], trivial⟩

/-! ## Attempts -/

theorem record_eq (w : World) : w.record S.fw = w.saved.getD zeroBreakpoint :=
  if_pos S.rebootResume

variable (S)

/-- All went well in the attempt so far. -/
def Runs (w₀ : World) (a : Attempt) : Prop :=
  S.Trail w₀ a.world (a.events.map .event)

/-- The attempt has saved `ota->bp`. -/
structure Saved (w₀ : World) (a a' : Attempt) : Prop where
  runs : S.Runs w₀ a'
  record : a'.world.record S.fw = a'.bp
  bp : ∃ bpId, a'.bp = { a.bp with bpId }
  chip : S.chip a'.world = S.chip a.world

variable {S}

theorem Runs.emit (h : S.Runs w₀ a) {event : Event} (hguard : S.Guard a.world (.event event))
    (hsound : S.Sound (event.apply a.world))
    (hsynced : (event.apply a.world).record S.fw = (event.apply a.world).otaBp) :
    S.Runs w₀ (a.emit event) := by
  have hnext := h.snoc hguard hsound hsynced
  rwa [Runs, Attempt.emit, List.map_append]

theorem Runs.save (h : S.Runs w₀ a) (hdescribes : S.Describes a.bp (S.chip a.world)) :
    S.Saved w₀ a (otaBreakpointSave S.fw a) := by
  unfold otaBreakpointSave
  split
  case isTrue hsame => exact ⟨h, h.synced.trans hsame, ⟨a.bp.bpId, rfl⟩, rfl⟩
  case isFalse =>
    dsimp only
    rw [if_pos S.rebootResume]
    have hrecord : (Event.apply a.world (.save { a.bp with bpId := a.bp.bpId + 1 })).record S.fw =
        { a.bp with bpId := a.bp.bpId + 1 } := record_eq _
    refine ⟨?_, hrecord, ⟨_, rfl⟩, rfl⟩
    refine Runs.emit (a := { a with bp := _ }) h ⟨nofun, trivial⟩ ?_ hrecord
    rw [Sound, hrecord]
    exact hdescribes

theorem Saved.describes (h : S.Saved w₀ a a') : S.Describes a'.bp (S.chip a'.world) :=
  h.record ▸ h.runs.sound

/-! ## Loading the record -/

theorem get_default (fw : Firmware) : otaBreakpointGetFileState (otaBreakpointInitDefaultValue fw)
    S.part.fileId = none := by
  rw [S.fileId_eq]
  rfl

theorem Sound.congr (h : S.Sound w) {w' : World} (hsaved : w'.saved = w.saved)
    (hchip : S.chip w' = S.chip w) : S.Sound w' := by
  rw [Sound, record_eq] at h ⊢
  rwa [hsaved, hchip]

theorem runs_init (h : S.Sound w) :
    S.Runs w (otaBreakpointInit S.fw (.start w)) ∧
      (otaBreakpointInit S.fw (.start w)).world.record S.fw =
        (otaBreakpointInit S.fw (.start w)).bp := by
  have hload : loadOtaBp S.fw (.start w) = (Attempt.start w).emit (.cache (w.record S.fw)) := by
    rw [loadOtaBp, if_pos S.rebootResume, record_eq]
    rfl
  have hsynced : (Event.apply w (.cache (w.record S.fw))).record S.fw = w.record S.fw := by
    rw [record_eq, record_eq]
    rfl
  have hruns : S.Runs w ((Attempt.start w).emit (.cache (w.record S.fw))) :=
    ⟨⟨h, ⟨nofun, trivial⟩, h.congr rfl rfl⟩, rfl, hsynced⟩
  unfold otaBreakpointInit
  rw [hload]
  dsimp only
  split
  · have hfresh : S.Describes (otaBreakpointInitDefaultValue S.fw) (S.chip w) :=
      ⟨.unknown, if_pos (get_default S.fw), trivial⟩
    have hsaved := Runs.save (a := { (Attempt.start w).emit (.cache (w.record S.fw)) with
      bp := otaBreakpointInitDefaultValue S.fw }) hruns hfresh
    exact ⟨hsaved.runs, hsaved.record⟩
  · exact ⟨hruns, hsynced⟩

/-! ## Erasing the rest of the partition -/

theorem aligned_part : S.part.Aligned := by
  have hmem : S.part ∈ S.fw.parts.filter PartitionEntry.isTemp := S.only ▸ List.mem_singleton_self _
  refine S.wellFormed.aligned S.part (List.mem_of_mem_filter hmem) ?_
  rw [S.fileId_eq]
  decide

/-- The erases go well if the record says nothing about what they erase. -/
theorem Runs.erases {n hi : Nat} {ops : List Op} (h : S.Runs w₀ a) {p : Progress}
    (hp : (a.world.record S.fw).progress S.part = some p) (hbehind : p.Behind n)
    (hwithin : AllWithin (S.part.offset + n) hi ops) (honly : OnlyErases ops) (useRecovery : Bool) :
    S.Runs w₀ (a.emitAll (ops.map (.erase useRecovery S.part))) := by
  induction ops generalizing a with
  | nil => exact h
  | cons op ops ih =>
    obtain ⟨hop, hops⟩ := allWithin_cons.mp hwithin
    obtain ⟨⟨addr, size, rfl⟩, honly'⟩ := List.forall_mem_cons.mp honly
    have hrecord :
        (Event.apply a.world (.erase useRecovery S.part (.erase addr size))).record S.fw =
        a.world.record S.fw := by
      rw [record_eq, record_eq]
      rfl
    have hchip : S.chip (Event.apply a.world (.erase useRecovery S.part (.erase addr size))) =
        (Op.erase addr size).apply (S.chip a.world) := Function.update_self _ _ _
    refine ih (h.emit ⟨?_, trivial⟩ ?_ ?_) ?_ hops honly'
    · intro op hmem
      rw [Change.ops, if_pos rfl, List.mem_singleton] at hmem
      rw [hmem]
      trivial
    · obtain ⟨p', hp', hmeans⟩ := h.sound
      obtain rfl := Option.some.inj (hp'.symm.trans hp)
      rw [Sound, hrecord, hchip]
      refine ⟨p', hp, hmeans.congr hbehind fun b hb => ?_⟩
      exact Op.apply_of_within hop _ (.inl hb)
    · rw [hrecord]
      exact h.synced
    · exact hrecord ▸ hp

variable (S)

/-- The partition has been erased from an offset on. -/
structure Cleared (w₀ : World) (a a' : Attempt) (n : Nat) : Prop where
  runs : S.Runs w₀ a'
  bp : a'.bp = a.bp
  record : a'.world.record S.fw = a.world.record S.fw
  ready : Ready S.target (S.chip a'.world) n

variable {S}

theorem Runs.clear (h : S.Runs w₀ a) (hstorage : ota.hasStorage S.part = true) {n : Nat}
    (haligned : n % 4096 = 0) {p : Progress} (hp : (a.world.record S.fw).progress S.part = some p)
    (hbehind : p.Behind n) (hcopied : Copied S.target (S.chip a.world) n) (initialState : Bool) :
    S.Cleared w₀ a (otaPartitionErasePart ota a S.part n initialState).1 n := by
  have hle : n ≤ S.part.size := hcopied.le.trans S.target.fits
  have hclears := erasePartOps_clears (S.chip a.world) aligned_part haligned hle initialState
  have honly := erasePartOps_onlyErases (S.chip a.world) S.part n initialState
  have hworld := emitAll_erases a ota.useRecovery S.part
    (erasePartOps (S.chip a.world) S.part n initialState).1
  have hsaved := congrArg World.saved hworld
  rw [otaPartitionErasePart, if_pos hstorage]
  refine ⟨h.erases hp hbehind hclears.within honly _, emitAll_bp a _, ?_, ?_⟩
  · rw [record_eq, record_eq]
    exact congrArg (Option.getD · zeroBreakpoint) hsaved
  · have hchip : S.chip (a.emitAll ((erasePartOps (S.chip a.world) S.part n initialState).1.map
        (.erase ota.useRecovery S.part))).world =
        applyAll (erasePartOps (S.chip a.world) S.part n initialState).1 (S.chip a.world) := by
      rw [Setup.chip, hworld]
      exact Function.update_self _ _ _
    exact hchip ▸ hcopied.clear hclears

/-! ## `ota_partition_update_prepare` -/

variable (S)

/-- The loop of `ota_partition_update_prepare` is over. -/
structure LoopDone (w₀ : World) (a : Attempt) : Prop where
  runs : S.Runs w₀ a
  describes : a.bp.state.KeepsFiles → S.FileDescribes a.bp (S.chip a.world)

/-- The partition has been prepared, and the record saved. -/
structure Prepared (w₀ : World) (a : Attempt) : Prop where
  runs : S.Runs w₀ a
  record : a.world.record S.fw = a.bp
  counts : a.bp.state.Counts

variable {S}

/-- Erasing the whole partition. -/
theorem Runs.erasePart (h : S.Runs w₀ a) (hstorage : ota.hasStorage S.part = true)
    (hp : (a.world.record S.fw).progress S.part = some .unknown) (initState : Bool) :
    S.LoopDone w₀ (erasePart ota initState a S.part) := by
  have hcleared : S.Cleared w₀ a (otaPartitionErasePart ota a S.part 0 initState).1 0 :=
    h.clear hstorage rfl hp trivial (copied_zero _ _) initState
  generalize hnext : (otaPartitionErasePart ota a S.part 0 initState).1 = a₁ at hcleared
  have hruns : S.Runs w₀ (recordClean a₁ S.part) := by
    refine Runs.emit (a := { a₁ with bp := _ }) hcleared.runs ⟨nofun, trivial⟩ ?_ ?_
    · exact hcleared.runs.sound.congr rfl rfl
    · rw [record_eq]
      exact (record_eq a₁.world).symm.trans hcleared.runs.synced
  have hdescribes : S.FileDescribes (recordClean a₁ S.part).bp (S.chip a₁.world) :=
    FileDescribes.set rfl hcleared.ready.erased
  unfold Upgrade.erasePart
  rw [hnext]
  dsimp only
  split
  · exact ⟨hruns, fun _ => hdescribes⟩
  · exact ⟨hruns, fun _ => hdescribes⟩

/-- Erasing the partition from where writing stopped. -/
theorem Runs.resumePart (h : S.Runs w₀ a) (hstorage : ota.hasStorage S.part = true)
    (hrecord : a.world.record S.fw = a.bp) (hcounts : a.bp.state.Counts)
    (hwriting : otaBreakpointGetFileState a.bp S.part.fileId = some .writing) (initState : Bool) :
    S.LoopDone w₀ (resumePart ota initState a S.part) := by
  obtain ⟨p, hp, hmeans⟩ := h.sound
  have hfile := hp
  rw [hrecord, progress_of_counts hcounts, Breakpoint.fileProgress, hwriting,
    FileState.progress] at hfile
  split at hfile
  case isFalse => cases hfile
  case isTrue hplace =>
    obtain rfl := Option.some.inj hfile
    obtain ⟨haligned, hcopied⟩ := hmeans
    have hplace' : a.bp.curFile.offset = S.part.offset := of_decide_eq_true hplace
    have hle : a.bp.curFileWriteOffset ≤ S.part.size := hcopied.le.trans S.target.fits
    have hpart := aligned_part (S := S)
    have hoffset := hpart.offset
    have hstop := hpart.stop_lt
    rw [PartitionEntry.stop] at hstop
    -- the sector where writing stopped is the offset of the record
    have hstart : a.bp.eraseStart = (S.part.offset + a.bp.curFileWriteOffset : Nat) := by
      rw [Breakpoint.eraseStart, hplace', ← Int.natCast_add, i32_of_nat (by omega),
        otaEraseAlignSize]
      omega
    have heraseOffset : i32 (a.bp.eraseStart - S.part.offset) =
        (a.bp.curFileWriteOffset : Int) := by
      rw [hstart, Int.natCast_add, add_sub_cancel_left]
      exact i32_of_nat (by omega)
    have hwrite : u32 (S.part.offset + (a.bp.curFileWriteOffset : Int) - a.bp.curFile.offset) =
        a.bp.curFileWriteOffset := by
      rw [hplace', add_sub_cancel_left]
      exact u32_of_nat (by omega)
    have hcleared := h.clear hstorage haligned hp (Nat.le_refl _) hcopied initState
    unfold Upgrade.resumePart
    rw [heraseOffset]
    dsimp only
    rw [hwrite]
    refine ⟨hcleared.runs, fun _ => ?_⟩
    dsimp only
    rw [hcleared.bp]
    refine FileDescribes.set (p := .ready a.bp.curFileWriteOffset) ?_ ⟨haligned, hcleared.ready⟩
    rw [FileState.progress, if_pos hplace]

theorem prepareHandles_recovery {fw : Firmware} {storages : List (Fin 16)} {part : PartitionEntry}
    (h : prepareHandles fw (recoveryInfo storages) part = true) :
    part.isTemp = true ∧ (recoveryInfo storages).hasStorage part = true := by
  have hhandles := (of_decide_eq_true h).2
  rw [if_neg (show ¬ (recoveryInfo storages).useRecovery = false from nofun),
    decide_eq_true_eq] at hhandles
  exact ⟨decide_eq_true hhandles.1, hhandles.2.1⟩

theorem prepareSkips_recovery (storages : List (Fin 16)) (state : BpState) :
    prepareSkips (recoveryInfo storages) state = decide (state = .clean ∨ state = .upgradePending ∨
      state = .upgradeWriting ∨ state = .upgradingFail) := by
  cases state <;> rfl

/-- What the loop does with the temp partition. -/
theorem Runs.preparePart {storages : List (Fin 16)} (h : S.Runs w₀ a)
    (hrecord : a.world.record S.fw = a.bp)
    (hskips : prepareSkips (recoveryInfo storages) a.bp.state = false) (initState : Bool) :
    S.LoopDone w₀ (preparePart S.fw (recoveryInfo storages) initState a S.part) := by
  have hsound : S.Describes a.bp (S.chip a.world) := hrecord ▸ h.sound
  have hkept : S.LoopDone w₀ a := ⟨h, fileDescribes_of hsound⟩
  obtain ⟨p, hp, -⟩ := hsound
  unfold Upgrade.preparePart
  split
  case isTrue => exact hkept
  case isFalse hhandles =>
    have hstorage := (prepareHandles_recovery ((Bool.not_eq_false _).mp hhandles)).2
    have hwhole : a.bp.progress S.part = some .unknown →
        S.LoopDone w₀ (Upgrade.erasePart (recoveryInfo storages) initState a S.part) :=
          fun hunknown =>
      h.erasePart hstorage (hrecord ▸ hunknown) initState
    split
    case isTrue hresumes =>
      have hcounts : a.bp.state.Counts := by
        rcases hresumes
          with hstate | hstate | hstate <;> rw [hstate] <;> exact ⟨(by simp), (by simp), (by simp)⟩
      have hfile := (progress_of_counts hcounts S.part).symm.trans hp
      cases hstate : otaBreakpointGetFileState a.bp S.part.fileId with
      | none => exact hwhole (by rw [progress_of_counts hcounts,
          Breakpoint.fileProgress, hstate]; rfl)
      | some state =>
        rw [Breakpoint.fileProgress, hstate] at hfile
        cases state
        case clean | writeDone | verifyPass | writingClean => exact hkept
        case writing => exact h.resumePart hstorage hrecord hcounts hstate initState
        case otherWriting => cases hfile
        all_goals
          exact hwhole (by rw [progress_of_counts hcounts, Breakpoint.fileProgress, hstate]; rfl)
    case isFalse hover =>
      -- the upgrade is over, has failed or was never there, and the file states do not count
      refine hwhole ?_
      unfold Breakpoint.progress at hp ⊢
      rw [prepareSkips_recovery] at hskips
      cases hstate : a.bp.state <;> rw [hstate] at hskips hover hp
      case unknown =>
        dsimp only at hp ⊢
        split at hp
        case isTrue hnone => exact if_pos hnone
        case isFalse => cases hp
      case writingImg => exact absurd (.inr (.inl rfl)) hover
      case upgradeWritingOther => exact absurd (.inr (.inr rfl)) hover
      all_goals exact absurd hskips (by decide)

/-- Only the temp partition is handled. -/
theorem foldl_preparePart (storages : List (Fin 16)) (initState : Bool) (a : Attempt) :
    S.fw.parts.foldl (preparePart S.fw (recoveryInfo storages) initState) a =
      preparePart S.fw (recoveryInfo storages) initState a S.part := by
  have hstep : preparePart S.fw (recoveryInfo storages) initState = fun a part =>
      if part.isTemp then preparePart S.fw (recoveryInfo storages) initState a part else a := by
    funext a part
    split
    case isTrue => rfl
    case isFalse htemp =>
      exact if_pos ((Bool.not_eq_true _).mp fun hhandles =>
        htemp (prepareHandles_recovery hhandles).1)
  rw [hstep, ← List.foldl_filter, S.only]
  exact (if_pos (decide_eq_true (Or.inl S.type_eq))).symm

theorem Runs.prepare (h : S.Runs w₀ a) (hrecord : a.world.record S.fw = a.bp)
    (storages : List (Fin 16)) (initState : Bool) :
    S.Prepared w₀ (otaPartitionUpdatePrepare S.fw (recoveryInfo storages) initState a) := by
  unfold otaPartitionUpdatePrepare
  split
  case isTrue hskips =>
    refine ⟨h, hrecord, ?_⟩
    rw [prepareSkips_recovery, decide_eq_true_eq] at hskips
    rcases hskips with hstate | hstate | hstate | hstate <;> rw [hstate] <;>
      exact ⟨nofun, nofun, nofun⟩
  case isFalse hskips =>
    rw [foldl_preparePart]
    have hdone := h.preparePart hrecord ((Bool.not_eq_true _).mp hskips) initState
    generalize Upgrade.preparePart S.fw (recoveryInfo storages) initState a S.part = a₁ at hdone
    dsimp only
    generalize hbp :
        (if a₁.bp.state = .upgradeWriting ∨ a₁.bp.state = .writingImg ∨ a₁.bp.state = .clean
      then a₁.bp else
        { (if a₁.bp.state ≠ .unknown then otaBreakpointInitDefaultValue S.fw else a₁.bp) with
        state := .clean }) = bp
    have hnew : bp.state.Counts ∧ S.FileDescribes bp (S.chip a₁.world) := by
      split at hbp
      case isTrue hkeeps =>
        subst hbp
        refine ⟨?_, hdone.describes (by unfold BpState.KeepsFiles; tauto)⟩
        rcases hkeeps with hstate | hstate | hstate <;> rw [hstate] <;> exact ⟨nofun, nofun, nofun⟩
      case isFalse =>
        subst hbp
        refine ⟨⟨nofun, nofun, nofun⟩, ?_⟩
        split
        case isTrue =>
          refine ⟨.unknown, ?_, trivial⟩
          have hnone := get_default (S := S) S.fw
          rw [Breakpoint.fileProgress]
          exact congrArg _ hnone
        case isFalse hunknown =>
          exact hdone.describes (.inr (.inr (.inr (not_not.mp hunknown))))
    have hsaved := Runs.save (a := { a₁ with bp }) hdone.runs (describes_of_file hnew.1 hnew.2)
    refine ⟨hsaved.runs, hsaved.record, ?_⟩
    obtain ⟨bpId, heq⟩ := hsaved.bp
    rw [heq]
    exact hnew.1

/-! ## `ota_upgrade_init`, and `ota_upgrade_check` up to the writing -/

theorem runs_upgradeInit (h : S.Sound w) (storages : List (Fin 16)) (flagSkipInitErase : Bool) :
    S.Runs w (otaUpgradeInit S.fw w ⟨storages, true, false, flagSkipInitErase, true⟩) := by
  obtain ⟨hruns, hrecord⟩ := runs_init h
  have hprepared := hruns.prepare hrecord storages true
  exact (hprepared.runs.save (hprepared.record ▸ hprepared.runs.sound)).runs

/-- Changing the state of the upgrade. -/
theorem Runs.updateState (h : S.Runs w₀ a) {state : BpState}
    (hstate : state ≠ .upgradeDone ∧ state ≠ .upgradePending)
    (hdescribes : S.Describes { a.bp with state } (S.chip a.world)) :
    S.Saved w₀ { a with bp := { a.bp with state } } (otaBreakpointUpdateState S.fw a state) := by
  unfold otaBreakpointUpdateState
  dsimp only
  rw [if_neg (not_or.mpr hstate)]
  exact Runs.save (a := { a with bp := { a.bp with state } }) h hdescribes

theorem prepared_check (h : S.Sound w) (storages : List (Fin 16)) (bpChanged : Bool) :
    S.Prepared w (otaUpgradeCheck S.fw w (recoveryInfo storages) bpChanged) := by
  obtain ⟨hruns, hrecord⟩ := runs_init h
  have hprepared := hruns.prepare hrecord storages false
  unfold otaUpgradeCheck
  dsimp only
  split
  · have hfailed :=
      @Runs.updateState S w _ hprepared.runs .writingImgFail ⟨nofun, nofun⟩ (describes_failed rfl)
    exact hfailed.runs.prepare hfailed.record storages false
  · exact hprepared

end Setup

end SpeakerFirmware.Ota.Upgrade
