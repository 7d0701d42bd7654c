/-
# Partitions recorded as clean

Both functions that prepare the partitions record a partition as clean once they have
erased it. `ota_partition_update_prepare_init` leaves the erase out when a sample of the
partition is erased, the first sector of up to four blocks. The sample shows an erase
that was interrupted if the first sector is erased last, as the initial erase does; the
erase of `ota_upgrade_check` goes upwards, and the sample then says nothing about the
rest.

In every run in which the sample tells, and in which the partitions that are handled have
their storage opened, a partition is erased whenever it is recorded as clean.
-/

import SpeakerFirmware.Lib.Runs
import SpeakerFirmware.Ota.Upgrade.Prepare

namespace SpeakerFirmware.Ota.Upgrade

open NorFlash Runs
open List

variable {w : World} {a : Attempt}

/-- Every partition was erased when it was recorded as clean. -/
def World.RecordsErased (w : World) : Prop :=
  ∀ part image, (part, image) ∈ w.recorded → Erased image part.offset part.size

theorem ofLists_recordsErased : World.OfLists World.RecordsErased :=
  fun _ hrecorded h part image hmem => h part image (hrecorded hmem)

/-- If the sectors the sample looks at are erased, so is the partition. -/
def SampleTells (f : Image) (part : PartitionEntry) : Prop :=
  (∀ i < 4, i * 0x10000 < part.size → Erased f (part.offset + i * 0x10000) 0x1000) →
    Erased f part.offset part.size

/-- What `ota_partition_update_prepare_init` needs of the flash. -/
def InitReady (fw : Firmware) (ota : UpgradeInfo) (flash : Fin 16 → Image) : Prop :=
  ∀ part ∈ fw.parts, prepareInitHandles fw ota part = true → ota.hasStorage part = true ∧
    (ota.useRecoveryApp = false → SampleTells (flash part.storageId) part)

/-- The storages of the partitions `ota_partition_update_prepare` handles are open. -/
def Opened (fw : Firmware) (ota : UpgradeInfo) : Prop :=
  ∀ part ∈ fw.parts, prepareHandles fw ota part = true → ota.hasStorage part = true

/-- What a step needs. -/
def World.Ready (fw : Firmware) (w : World) : Label → Prop
  | .init param _ =>
    (param.flagEnableRebootResumeUpgrade = true → Opened fw param.ota) ∧
      (param.flagEnableRebootResumeUpgrade = false → param.flagSkipInitErase = false →
        InitReady fw param.ota w.flash)
  | .check ota _ _ => Opened fw ota
  | .getOtherWriting _ | .setOtherWriting _ | .other _ _ _ => True

/-! ## The sample -/

/-- The sample looks at the partition only. -/
theorem SampleTells.congr {f g : Image} {part : PartitionEntry} (hpart : part.Aligned)
    (heq : ∀ a, part.offset ≤ a → a < part.stop → g a = f a) (h : SampleTells f part) :
    SampleTells g part := by
  intro hsample a hlo hhi
  rw [heq a hlo hhi]
  refine h (fun i hi hlt b hblo hbhi => ?_) a hlo hhi
  have hsize := hpart.size
  have hin : b < part.stop := by
    rw [PartitionEntry.stop]
    omega
  rw [← heq b (by omega) hin]
  exact hsample i hi hlt b hblo hbhi

theorem checkSamples_erased {f : Image} {part : PartitionEntry} (hpart : part.Aligned)
    {i left : Nat} (h : checkSamples f part i left = true) :
    ∀ j, i ≤ j → j < i + left → j * 0x10000 < part.size →
      Erased f (part.offset + j * 0x10000) 0x1000 := by
  induction left generalizing i with
  | zero => exact fun j hlo hhi => absurd hhi (by omega)
  | succ left ih =>
    intro j hlo hhi hlt
    rw [checkSamples] at h
    split at h
    · omega
    · obtain ⟨hfirst, hrest⟩ := Bool.and_eq_true_iff.mp h
      rcases Nat.eq_or_lt_of_le hlo with rfl | hlater
      · have hstop := hpart.stop_lt
        rw [PartitionEntry.stop] at hstop
        have haddr := u32_of_nat (show part.offset + i * 0x10000 < 2 ^ 32 by omega)
        rw [Int.natCast_add, Int.natCast_mul] at haddr
        rw [otaEraseAlignSize] at hfirst
        exact erased_of_otaStorageIsClean (by decide) (by decide) (haddr ▸ hfirst)
      · exact ih hrest j hlater (by omega) hlt

/-- A partition that passes the check is erased, if its sample tells. -/
theorem erased_of_isClean {ota : UpgradeInfo} {part : PartitionEntry}
    (hpart : part.Aligned) (hclean : otaPartitionCheckPartIsClean ota w part = true)
    (htells : ota.useRecoveryApp = false → SampleTells (w.flash part.storageId) part) :
    Erased (w.flash part.storageId) part.offset part.size := by
  obtain ⟨hfront, hsamples⟩ := Bool.and_eq_true_iff.mp hclean
  have hnoApp : ota.useRecoveryApp = false := by
    simpa using (Bool.and_eq_true_iff.mp hfront).2
  refine htells hnoApp fun i hi hlt => ?_
  exact checkSamples_erased hpart hsamples i (Nat.zero_le i) (by omega) hlt

/-! ## One partition -/

theorem erasePart_recorded (ota : UpgradeInfo) (a : Attempt) (part : PartitionEntry)
    (startOffset : Int) (initialState : Bool) :
    (otaPartitionErasePart ota a part startOffset initialState).1.world.recorded =
      a.world.recorded := by
  unfold otaPartitionErasePart
  split
  · exact (congrArg World.recorded (emitAll_erases a ota.useRecovery part _)).trans rfl
  · rfl

theorem recordClean_erased {part : PartitionEntry}
    (herased : Erased (a.world.flash part.storageId) part.offset part.size)
    (h : a.world.RecordsErased) : (recordClean a part).world.RecordsErased := by
  intro part' image hmem
  rcases mem_append.mp hmem with hold | hnew
  · exact h part' image hold
  · cases mem_singleton.mp hnew
    exact herased

section

variable {ota : UpgradeInfo} {part : PartitionEntry} (hpart : part.Aligned)
  (hstorage : ota.hasStorage part = true)

include hpart hstorage

/-- Erasing a whole partition and recording it. -/
theorem erase_recordClean (initialState : Bool) (h : a.world.RecordsErased) :
    (recordClean (otaPartitionErasePart ota a part 0 initialState).1 part).world.RecordsErased := by
  obtain ⟨ops, herased⟩ := erasedFrom_erasePart a hpart hstorage (show 0 % 0x1000 = 0 by decide)
    (Nat.zero_le _) initialState
  apply recordClean_erased
  · have hflash := congrFun herased.flash part.storageId
    rw [Function.update_self] at hflash
    exact hflash ▸ herased.clears.erased
  · rw [World.RecordsErased, erasePart_recorded]
    exact h

/-- The partitions behind this one are left as they were. -/
theorem prepareInitPart_flash {fw : Firmware} {q : PartitionEntry} (hapart : part.Apart q)
    (hused : part.fileId ≠ 0) (hqused : q.fileId ≠ 0) :
    ∀ addr, q.offset ≤ addr → addr < q.stop →
      (prepareInitPart fw ota a part).world.flash q.storageId addr =
        a.world.flash q.storageId addr := by
  intro addr hlo hhi
  unfold prepareInitPart
  split
  · split
    · rfl
    · obtain ⟨ops, herased⟩ := erasedFrom_erasePart a hpart hstorage (show 0 % 0x1000 = 0 by decide)
        (Nat.zero_le _) true
      refine (congrFun (congrFun herased.flash q.storageId) addr).trans ?_
      rcases eq_or_ne q.storageId part.storageId with hchip | hchip
      · rw [hchip, Function.update_self]
        have hout := hapart hused hqused hchip.symm
        rw [PartitionEntry.stop] at hout
        exact herased.clears.within.applyAll_eq _ (by omega)
      · rw [Function.update_of_ne hchip]
  · rfl

theorem prepareInitPart_erased {fw : Firmware}
    (htells : ota.useRecoveryApp = false → SampleTells (a.world.flash part.storageId) part)
    (h : a.world.RecordsErased) : (prepareInitPart fw ota a part).world.RecordsErased := by
  unfold prepareInitPart
  split
  · split
    · rename_i hclean
      exact recordClean_erased (erased_of_isClean hpart hclean htells) h
    · exact erase_recordClean hpart hstorage true h
  · exact h

end

theorem preparePart_erased {fw : Firmware} {ota : UpgradeInfo} {part : PartitionEntry}
    (hpart : part.fileId ≠ 0 → part.Aligned)
    (hstorage : prepareHandles fw ota part = true → ota.hasStorage part = true) (initState : Bool)
    (h : a.world.RecordsErased) :
    (preparePart fw ota initState a part).world.RecordsErased := by
  unfold preparePart
  split
  · exact h
  · rename_i hhandles
    rw [Bool.not_eq_false] at hhandles
    have hwhole : (erasePart ota initState a part).world.RecordsErased := by
      have hrecord := erase_recordClean (hpart (prepareHandles_fileId hhandles)) (hstorage hhandles)
        initState h
      unfold erasePart
      dsimp only
      split <;> exact hrecord
    have hresume : (resumePart ota initState a part).world.RecordsErased := by
      unfold resumePart World.RecordsErased
      dsimp only
      rw [erasePart_recorded]
      exact h
    split
    · split
      all_goals first | exact h | exact hwhole | skip
      all_goals split <;> assumption
    · exact hwhole

/-! ## Whole attempts -/

section

variable {fw : Firmware} (hfw : fw.WellFormed) {ota : UpgradeInfo}

include hfw

/-- The loop of `ota_partition_update_prepare_init`. The partitions still to come are as they
were, because the erases so far lie in other partitions. -/
theorem prepareInit_erased (hready : InitReady fw ota a.world.flash)
    (h : a.world.RecordsErased) : (otaPartitionUpdatePrepareInit fw ota a).world.RecordsErased := by
  have hloop : ∀ parts : List PartitionEntry, parts.Pairwise PartitionEntry.Apart →
      (∀ part ∈ parts, part.fileId ≠ 0 → part.Aligned) → ∀ a' : Attempt,
      (∀ part ∈ parts, prepareInitHandles fw ota part = true → ota.hasStorage part = true ∧
        (ota.useRecoveryApp = false → SampleTells (a'.world.flash part.storageId) part)) →
      a'.world.RecordsErased → (parts.foldl (prepareInitPart fw ota) a').world.RecordsErased := by
    intro parts
    induction parts with
    | nil => exact fun _ _ a' _ h' => h'
    | cons part parts ih =>
      intro hapart haligned a' hready' h'
      obtain ⟨hfirst, hrest⟩ := pairwise_cons.mp hapart
      have haligned' := fun q hq => haligned q (mem_cons_of_mem _ hq)
      rw [foldl_cons]
      cases hhandles : prepareInitHandles fw ota part with
      | false =>
        rw [prepareInitPart, if_neg (by rw [hhandles]; decide)]
        exact ih hrest haligned' a' (fun q hq => hready' q (mem_cons_of_mem _ hq)) h'
      | true =>
        have hused := prepareInitHandles_fileId hhandles
        have hpart := haligned part mem_cons_self hused
        obtain ⟨hstorage, htells⟩ := hready' part mem_cons_self hhandles
        refine ih hrest haligned' _ (fun q hq hqhandles => ?_)
          (prepareInitPart_erased hpart hstorage htells h')
        have hqused := prepareInitHandles_fileId hqhandles
        obtain ⟨hqstorage, hqtells⟩ := hready' q (mem_cons_of_mem _ hq) hqhandles
        exact ⟨hqstorage, fun hnoApp => (hqtells hnoApp).congr (haligned' q hq hqused)
          (prepareInitPart_flash hpart hstorage (hfirst q hq) hused hqused)⟩
  have hall := hloop fw.parts hfw.apart hfw.aligned a hready h
  exact save_keeps ofLists_recordsErased hall

theorem prepare_erased (initState : Bool) (hopened : Opened fw ota)
    (h : a.world.RecordsErased) :
    (otaPartitionUpdatePrepare fw ota initState a).world.RecordsErased := by
  unfold otaPartitionUpdatePrepare
  split
  · exact h
  · have hall := foldlRecOn (motive := fun a' => a'.world.RecordsErased) fw.parts
      (preparePart fw ota initState) h
      fun _ h' part hpart => preparePart_erased (hfw.aligned part hpart)
        (hopened part hpart) initState h'
    exact save_keeps ofLists_recordsErased hall

end

/-! ## Runs -/

/-- One step. -/
theorem step_erased {fw : Firmware} (hfw : fw.WellFormed) {label : Label}
    (hready : w.Ready fw label) (h : w.RecordsErased) : (w.step fw label).RecordsErased := by
  refine step_keeps ofLists_recordsErased ?_ ?_ h
  · rintro param cut rfl
    refine upgradeInit_keeps ofLists_recordsErased ?_ ?_ h
    · exact fun hflag _ _ => prepare_erased hfw true (hready.1 hflag)
    · intro hflag hskip a hflash
      exact prepareInit_erased hfw (hflash ▸ hready.2 hflag hskip)
  · rintro ota bpChanged cut rfl
    exact upgradeCheck_keeps ofLists_recordsErased bpChanged
      (fun _ _ => prepare_erased hfw false hready) h

/-- The steps from states in which the sample tells. -/
def ReadySteps (fw : Firmware) (w : World) (label : Label) (w' : World) : Prop :=
  w.Ready fw label ∧ w' = w.step fw label

/-- In every such run a partition is erased whenever it is recorded as clean. -/
theorem recorded_clean_is_erased {fw : Firmware} (hfw : fw.WellFormed) {w w' : World}
    {labels : List Label} (hstart : w.recorded = []) (run : Run (ReadySteps fw) w labels w') :
    w'.RecordsErased := by
  refine run.invariant (fun _ s => s.RecordsErased) ?_ ?_
  · intro part image hmem
    rw [hstart] at hmem
    cases hmem
  · rintro _ s label s' h ⟨hready, rfl⟩
    exact step_erased hfw hready h

/-! ## An interrupted erase -/

/-- Power is lost when `ota_upgrade_check` has erased the first of two sectors; the next
`ota_upgrade_init` finds it erased. -/
def interruptedErase : List Label :=
  [.check ⟨false, false, [0]⟩ false (some 3), .init ⟨[0], false, false, false, false⟩ none]

/-- The partition is recorded as clean with its second sector as it was. -/
theorem half_erased_recorded_clean :
    mirroredFirmware.WellFormed ∧
      (interruptedErase.foldl (World.step mirroredFirmware) blankWorld).recorded.map
        (fun r => (r.1, r.2 (systemB.offset + 0x1000))) = [(systemB, 0)] ∧
      ¬ (interruptedErase.foldl (World.step mirroredFirmware) blankWorld).RecordsErased := by
  have hrecorded : (interruptedErase.foldl (World.step mirroredFirmware) blankWorld).recorded.map
      (fun r => (r.1, r.2 (systemB.offset + 0x1000))) = [(systemB, 0)] := by
    decide +kernel
  refine ⟨mirroredFirmware_wellFormed, hrecorded, fun h => ?_⟩
  have hin := mem_singleton_self (systemB, (0 : UInt8))
  rw [← hrecorded] at hin
  obtain ⟨⟨part, image⟩, hmem, heq⟩ := mem_map.mp hin
  obtain ⟨rfl, hbyte⟩ := Prod.mk.inj heq
  have herased := h systemB image hmem (systemB.offset + 0x1000) (by decide) (by decide)
  exact absurd (hbyte.symm.trans herased) (by decide)

/-- On flash that is not erased anywhere the sample tells. -/
theorem recorded_clean_is_erased_mirrored :
    (blankWorld.step mirroredFirmware
      (.init ⟨[0], false, false, false, false⟩ none)).RecordsErased := by
  have hparts : ∀ part ∈ mirroredFirmware.parts,
      prepareInitHandles mirroredFirmware ⟨false, false, [0]⟩ part = true →
      part.storageId = 0 ∧ 0 < part.size := by
    decide
  have hready :
      blankWorld.Ready mirroredFirmware (.init ⟨[0], false, false, false, false⟩ none) := by
    refine ⟨(fun h => (by cases h)), fun _ _ part hpart hhandles => ?_⟩
    obtain ⟨hstorage, hsize⟩ := hparts part hpart hhandles
    refine ⟨decide_eq_true (hstorage ▸ mem_singleton_self _), fun _ hsample => ?_⟩
    have hbyte := hsample 0 (by decide) hsize part.offset (Nat.le_refl _) (by omega)
    exact absurd hbyte (show (0 : UInt8) ≠ 0xff by decide)
  exact recorded_clean_is_erased mirroredFirmware_wellFormed rfl (.snoc .nil ⟨hready, rfl⟩)

end SpeakerFirmware.Ota.Upgrade
