/-
# Erases stay inside their partition

When an upgrade is resumed, `ota_partition_update_prepare` erases a partition whose file
is in the middle of being written from where writing stopped. It takes that place from
`bp->cur_file` without asking whether the current file lies in the partition at hand. A
writer that borrows one partition marks the files of others as well, and then they do
not.

In every run in which a resumed upgrade finds the current file inside each partition
that is marked as being written, every erase stays inside the partition it is issued
for, and without recovery it leaves the partitions of the running mirror alone.
-/

import SpeakerFirmware.Lib.Runs
import SpeakerFirmware.Ota.Upgrade.Prepare

namespace SpeakerFirmware.Ota.Upgrade

open NorFlash Runs
open List Option

variable {key : UInt8} {slot : FileSlot} {slots : List FileSlot} {bp₀ : Breakpoint} {w : World}

/-- What an erase may touch: its partition, and without recovery nothing of the mirror that
is running. -/
def EraseInside (fw : Firmware) (useRecovery : Bool) (part : PartitionEntry) (op : Op) : Prop :=
  ∀ a, op.Touches a → (part.offset ≤ a ∧ a < part.stop) ∧
    (useRecovery = false → ∀ q ∈ fw.parts, q.fileId ≠ 0 → q.mirrorId.val = fw.currentMirrorId →
      q.storageId = part.storageId → ¬ (q.offset ≤ a ∧ a < q.stop))

section

variable (fw : Firmware) (w : World)

def World.ErasesInside : Prop :=
  ∀ useRecovery part op, (useRecovery, part, op) ∈ w.erases → EraseInside fw useRecovery part op

theorem ofLists_erasesInside {fw : Firmware} : World.OfLists (World.ErasesInside fw) :=
  fun herases _ h useRecovery part op hmem => h useRecovery part op (herases hmem)

/-- The record an attempt starts from. -/
def World.record : Breakpoint :=
  if fw.rebootResume then w.saved.getD zeroBreakpoint else w.otaBp

/-- The record says that this file is in the middle of being written. -/
def Breakpoint.Interrupted (bp : Breakpoint) (fileId : UInt8) : Prop :=
  otaBreakpointGetFileState bp fileId = some .writing ∨
    otaBreakpointGetFileState bp fileId = some .otherWriting

/-- If an upgrade is resumed from the record, the place where writing stopped lies inside each
partition whose file is in the middle of being written. -/
def ResumesInside (fw : Firmware) (ota : UpgradeInfo) (bp : Breakpoint) : Prop :=
  bp.state.Resumes → (ota.useRecovery = true ∨ bp.mirrorId = fw.otherMirrorId) →
    ∀ part ∈ fw.parts, prepareHandles fw ota part = true → bp.Interrupted part.fileId →
      (part.offset : Int) ≤ bp.eraseStart ∧ bp.eraseStart ≤ part.stop

/-- What a step needs. -/
def World.Resumable : Label → Prop
  | .init param _ => param.flagEnableRebootResumeUpgrade = true →
      ResumesInside fw param.ota (w.record fw)
  | .check ota _ _ => ResumesInside fw ota (w.record fw)
  | .getOtherWriting _ | .setOtherWriting _ | .other _ _ _ => True

end

/-! ## File states -/

theorem find_setSlot_other {fileId : UInt8} {slots' : List FileSlot}
    (h : setSlot key slot slots = some slots') (hkey : fileId ≠ key)
    (hslot : fileId ≠ slot.fileId) :
    slots'.find? (·.fileId = fileId) = slots.find? (·.fileId = fileId) := by
  induction slots generalizing slots' with
  | nil => cases h
  | cons s slots ih =>
    rw [setSlot] at h
    split at h
    · rename_i hs
      cases h
      rw [find?_cons_of_neg (by simpa using hslot.symm),
        find?_cons_of_neg (by simpa [hs] using hkey.symm)]
    · obtain ⟨rest, hrest, rfl⟩ := map_eq_some_iff.mp h
      rw [find?_cons, find?_cons, ih hrest]

/-- The slot that was written is the one found, unless the file had another. -/
theorem find_setSlot_self {slots' : List FileSlot}
    (h : setSlot key slot slots = some slots')
    (hfirst : ∀ s ∈ slots, s.fileId = slot.fileId → s.fileId = key) :
    slots'.find? (·.fileId = slot.fileId) = some slot := by
  induction slots generalizing slots' with
  | nil => cases h
  | cons s slots ih =>
    rw [setSlot] at h
    split at h
    · cases h
      exact find?_cons_of_pos (by simp)
    · rename_i hs
      obtain ⟨rest, hrest, rfl⟩ := map_eq_some_iff.mp h
      have hne : ¬ s.fileId = slot.fileId := fun heq => hs (hfirst s mem_cons_self heq)
      rw [find?_cons_of_neg (by simpa using hne)]
      exact ih hrest fun other hother => hfirst other (mem_cons_of_mem _ hother)

theorem setSlot_none
    (h : setSlot key slot slots = none) : ∀ s ∈ slots, s.fileId ≠ key := by
  induction slots with
  | nil => exact fun s hs => (by cases hs)
  | cons s slots ih =>
    rw [setSlot] at h
    split at h
    · cases h
    · rename_i hs
      intro other hother
      rcases mem_cons.mp hother with rfl | hrest
      · exact hs
      · exact ih (map_eq_none_iff.mp h) other hrest

/-- Setting the state of a file to one that is not interrupted interrupts no file. -/
theorem Breakpoint.Interrupted.of_set {bp : Breakpoint} {fileId other : UInt8} {state : FileState}
    (hother : other ≠ 0) (hwriting : state ≠ .writing) (hborrowed : state ≠ .otherWriting)
    (h : (otaBreakpointSetFileState bp fileId state).Interrupted other) : bp.Interrupted other := by
  -- whichever slot was written, the other files find what they found before
  have hslots : ∀ key slots, setSlot key ⟨fileId, state⟩ bp.fileState = some slots →
      other ≠ key ∨ other = fileId → (∀ s ∈ bp.fileState, s.fileId = fileId → s.fileId = key) →
      ({ bp with fileState := slots } : Breakpoint).Interrupted other → bp.Interrupted other := by
    intro key slots hset hkey hfirst hinterrupted
    by_cases hsame : other = fileId
    · have hfind := find_setSlot_self hset hfirst
      have hget : otaBreakpointGetFileState { bp with fileState := slots } other = some state := by
        rw [hsame]
        exact congrArg (Option.map FileSlot.state) hfind
      rcases hinterrupted with hw | hw
      · exact absurd (Option.some.inj (hget.symm.trans hw)) hwriting
      · exact absurd (some.inj (hget.symm.trans hw)) hborrowed
    · have hfind := find_setSlot_other hset (hkey.resolve_right hsame) hsame
      have hget : otaBreakpointGetFileState { bp with fileState := slots } other =
          otaBreakpointGetFileState bp other :=
        congrArg (Option.map FileSlot.state) hfind
      rwa [Breakpoint.Interrupted, hget] at hinterrupted
  unfold otaBreakpointSetFileState at h
  split at h
  · rename_i slots hset
    exact hslots fileId slots hset (ne_or_eq other fileId) (fun _ _ heq => heq) h
  · rename_i hnone
    split at h
    · rename_i slots hset
      exact hslots 0 slots hset (.inl hother)
        (fun s hs heq => absurd heq (setSlot_none hnone s hs)) h
    · exact h

/-! ## One partition -/

theorem i32_congr (x : Int) : (i32 x - x) % 2 ^ 32 = 0 := by
  unfold i32
  split <;> omega

theorem i32_range (x : Int) : -2 ^ 31 ≤ i32 x ∧ i32 x < 2 ^ 31 := by
  unfold i32
  split <;> omega

theorem u32_congr (x : Int) : ((u32 x : Int) - x) % 2 ^ 32 = 0 := by
  unfold u32
  omega

theorem i32_eq {x y : Int} (hcongr : (x - y) % 2 ^ 32 = 0) (hlow : -2 ^ 31 ≤ y)
    (hhigh : y < 2 ^ 31) :
    i32 x = y := by
  have hx := i32_congr x
  have hrange := i32_range x
  omega

variable (bp : Breakpoint)

theorem eraseStart_bounds :
    bp.eraseStart % 4096 = 0 ∧ -2 ^ 31 ≤ bp.eraseStart ∧ bp.eraseStart < 2 ^ 31 := by
  have hrange := i32_range (bp.curFile.offset + bp.curFileWriteOffset)
  rw [Breakpoint.eraseStart, otaEraseAlignSize]
  omega

/-- Moving the write offset back to the sector leaves the sector where it is. -/
theorem eraseStart_resume (offset : Nat) {writeOffset : Nat}
    (h : writeOffset = u32 (offset + i32 (bp.eraseStart - offset) - bp.curFile.offset)) :
    ({ bp with curFileWriteOffset := writeOffset } : Breakpoint).eraseStart = bp.eraseStart := by
  obtain ⟨haligned, hlow, hhigh⟩ := eraseStart_bounds bp
  have hwrite := u32_congr (offset + i32 (bp.eraseStart - offset) - bp.curFile.offset)
  have hoffset := i32_congr (bp.eraseStart - offset)
  have hsum : i32 (bp.curFile.offset + writeOffset) = bp.eraseStart :=
    i32_eq (by omega) hlow hhigh
  rw [Breakpoint.eraseStart, hsum, otaEraseAlignSize]
  omega

/-- What the loop leaves of the record it started from. -/
structure Later (bp₀ bp : Breakpoint) : Prop where
  start : bp.eraseStart = bp₀.eraseStart
  state : bp.state.Resumes → bp₀.state.Resumes
  mirrorId : bp.mirrorId = bp₀.mirrorId
  interrupted : ∀ fileId, fileId ≠ 0 → bp.Interrupted fileId → bp₀.Interrupted fileId

theorem Later.refl : Later bp bp :=
  ⟨rfl, id, rfl, fun _ _ h => h⟩

theorem setFileState_fields (fileId : UInt8) (state : FileState) :
    (otaBreakpointSetFileState bp fileId state).eraseStart = bp.eraseStart ∧
      (otaBreakpointSetFileState bp fileId state).state = bp.state ∧
      (otaBreakpointSetFileState bp fileId state).mirrorId = bp.mirrorId := by
  unfold otaBreakpointSetFileState
  split
  · exact ⟨rfl, rfl, rfl⟩
  · split <;> exact ⟨rfl, rfl, rfl⟩

theorem Later.setFileState {bp : Breakpoint} (h : Later bp₀ bp) (fileId : UInt8)
    {state : FileState} (hwriting : state ≠ .writing) (hborrowed : state ≠ .otherWriting) :
    Later bp₀ (otaBreakpointSetFileState bp fileId state) := by
  obtain ⟨hstart, hstate, hmirror⟩ := setFileState_fields bp fileId state
  refine ⟨hstart.trans h.start, ?_, hmirror.trans h.mirrorId, fun other hother hinterrupted => ?_⟩
  · rw [hstate]
    exact h.state
  · exact h.interrupted other hother (hinterrupted.of_set hother hwriting hborrowed)

section

variable {fw : Firmware} (hfw : fw.WellFormed) {part : PartitionEntry} (hpart : part ∈ fw.parts)

include hfw hpart

/-- The erases of a partition from an offset on stay inside. -/
theorem Attempt.ErasedFrom.inside {a a' : Attempt} {useRecovery : Bool} {skip : Nat} {ops : List Op}
    (h : a.ErasedFrom a' useRecovery part skip ops) (hused : part.fileId ≠ 0)
    (hmirror : useRecovery = false → part.mirrorId.val ≠ fw.currentMirrorId)
    (hskip : skip ≤ part.size) (hinside : a.world.ErasesInside fw) : a'.world.ErasesInside fw := by
  intro useRecovery' part' op hmem
  rw [h.erases] at hmem
  rcases mem_append.mp hmem with hold | hnew
  · exact hinside useRecovery' part' op hold
  · obtain ⟨op', hop, heq⟩ := mem_map.mp hnew
    cases heq
    intro addr htouches
    obtain ⟨hlow, hhigh⟩ := (h.clears.within op hop).of_touches htouches
    have hin : part.offset ≤ addr ∧ addr < part.stop := by
      rw [PartitionEntry.stop]
      omega
    refine ⟨hin, fun hrecovery q hq hqused hrunning hstorage hqin => ?_⟩
    have hne : part ≠ q := fun heq => hmirror hrecovery (heq ▸ hrunning)
    have hapart := hfw.apart_of_ne hpart hq hne hused hqused hstorage.symm
    omega

section

variable {ota : UpgradeInfo} {a : Attempt} (hused : part.fileId ≠ 0)
  (hmirror : ota.useRecovery = false → part.mirrorId.val ≠ fw.currentMirrorId)
include hused hmirror

/-- Erasing an aligned partition from an offset on, with or without its storage. -/
theorem erasePart_inside {skip : Nat}
    (haligned : skip % 0x1000 = 0) (hskip : skip ≤ part.size) (initialState : Bool)
    (hinside : a.world.ErasesInside fw) :
    (otaPartitionErasePart ota a part skip initialState).1.world.ErasesInside fw ∧
      (otaPartitionErasePart ota a part skip initialState).1.bp = a.bp := by
  cases hstorage : ota.hasStorage part with
  | true =>
    obtain ⟨ops, herased⟩ := erasedFrom_erasePart a (hfw.aligned part hpart hused) hstorage haligned
      hskip initialState
    exact ⟨herased.inside hfw hpart hused hmirror hskip hinside, herased.bp⟩
  | false =>
    rw [otaPartitionErasePart, hstorage]
    exact ⟨hinside, rfl⟩

/-- A partition that is erased whole. -/
theorem erasePart_whole (initState : Bool)
    (hinside : a.world.ErasesInside fw) (hlater : Later bp₀ a.bp) :
    (erasePart ota initState a part).world.ErasesInside fw ∧
      Later bp₀ (erasePart ota initState a part).bp := by
  obtain ⟨hworld, hbp⟩ := erasePart_inside hfw hpart hused hmirror (show 0 % 0x1000 = 0 by decide)
    (Nat.zero_le _) initState hinside
  have hclean :
      Later bp₀ (recordClean (otaPartitionErasePart ota a part (0 : Nat) initState).1 part).bp := by
    rw [recordClean, hbp]
    exact hlater.setFileState part.fileId (by decide) (by decide)
  unfold erasePart
  dsimp only
  split
  · exact ⟨hworld, hclean.start, fun h => absurd h (show ¬ BpState.clean.Resumes by decide),
      hclean.mirrorId, hclean.interrupted⟩
  · exact ⟨hworld, hclean⟩

/-- A partition that is erased from where writing stopped. -/
theorem resumePart_inside (initState : Bool)
    (hlow : (part.offset : Int) ≤ a.bp.eraseStart) (hhigh : a.bp.eraseStart ≤ part.stop)
    (hinside : a.world.ErasesInside fw) (hlater : Later bp₀ a.bp) :
    (resumePart ota initState a part).world.ErasesInside fw ∧
      Later bp₀ (resumePart ota initState a part).bp := by
  obtain ⟨haligned, -, hlt⟩ := eraseStart_bounds a.bp
  obtain ⟨skip, hskip⟩ : ∃ skip : Nat, a.bp.eraseStart - part.offset = skip :=
    ⟨(a.bp.eraseStart - part.offset).toNat, by omega⟩
  have hoffset := (hfw.aligned part hpart hused).offset
  have heraseOffset : i32 (a.bp.eraseStart - part.offset) = skip := by
    rw [hskip]
    exact i32_of_nat (by omega)
  have hmoved : Later bp₀ { a.bp with
      curFileWriteOffset := u32 (part.offset + skip - a.bp.curFile.offset) } := by
    refine ⟨?_, hlater.state, hlater.mirrorId, hlater.interrupted⟩
    refine (eraseStart_resume a.bp part.offset ?_).trans hlater.start
    rw [heraseOffset]
  have hskip_le : skip ≤ part.size := by
    rw [PartitionEntry.stop] at hhigh
    omega
  obtain ⟨hworld, hbp⟩ := erasePart_inside (a := { a with bp := { a.bp with
      curFileWriteOffset := u32 (part.offset + skip - a.bp.curFile.offset) } }) hfw hpart hused
    hmirror (show skip % 0x1000 = 0 by omega) hskip_le initState hinside
  unfold resumePart
  rw [heraseOffset]
  refine ⟨hworld, ?_⟩
  dsimp only
  rw [hbp]
  exact hmoved.setFileState part.fileId (by decide) (by decide)

end

theorem preparePart_inside {ota : UpgradeInfo} {a : Attempt} (initState : Bool)
    (hresumes : ResumesInside fw ota bp₀) (hinside : a.world.ErasesInside fw)
    (hlater : Later bp₀ a.bp) :
    (preparePart fw ota initState a part).world.ErasesInside fw ∧
      Later bp₀ (preparePart fw ota initState a part).bp := by
  unfold preparePart
  split
  · exact ⟨hinside, hlater⟩
  · rename_i hhandles
    rw [Bool.not_eq_false] at hhandles
    have hused := prepareHandles_fileId hhandles
    have hmirror := mirror_of_prepareHandles hhandles
    have hwhole := erasePart_whole hfw hpart hused hmirror initState hinside hlater
    have hresumed : a.bp.state.Resumes → a.bp.Interrupted part.fileId →
        (if ota.useRecovery ∨ a.bp.mirrorId = fw.otherMirrorId then resumePart ota initState a part
          else erasePart ota initState a part).world.ErasesInside fw ∧
        Later bp₀ (if ota.useRecovery ∨ a.bp.mirrorId = fw.otherMirrorId then
          resumePart ota initState a part else erasePart ota initState a part).bp := by
      intro hstate hinterrupted
      split
      · rename_i hmode
        rw [hlater.mirrorId] at hmode
        have hplace := hresumes (hlater.state hstate) hmode part hpart hhandles
          (hlater.interrupted part.fileId hused hinterrupted)
        rw [← hlater.start] at hplace
        exact resumePart_inside hfw hpart hused hmirror initState hplace.1 hplace.2 hinside hlater
      · exact hwhole
    split
    · rename_i hstate
      split
      · exact ⟨hinside, hlater⟩
      · exact ⟨hinside, hlater⟩
      · exact ⟨hinside, hlater⟩
      · exact ⟨hinside, hlater⟩
      · rename_i hfile
        exact hresumed hstate (.inl hfile)
      · rename_i hfile
        exact hresumed hstate (.inr hfile)
      · exact hwhole
    · exact hwhole

theorem prepareInitPart_inside {ota : UpgradeInfo} {a : Attempt}
    (hinside : a.world.ErasesInside fw) :
    (prepareInitPart fw ota a part).world.ErasesInside fw := by
  unfold prepareInitPart
  split
  · rename_i hhandles
    split
    · exact hinside
    · exact (erasePart_inside hfw hpart (prepareInitHandles_fileId hhandles)
        (mirror_of_prepareInitHandles hhandles) (show 0 % 0x1000 = 0 by decide) (Nat.zero_le _) true
        hinside).1
  · exact hinside

end

/-! ## Whole attempts -/

section

variable {fw : Firmware} {a : Attempt}

/-- The record an attempt works with is the stored one, or a fresh one that resumes nothing. -/
theorem init_record (fw : Firmware) (w : World) :
    (otaBreakpointInit fw (.start w)).bp = w.record fw ∨
      ¬ (otaBreakpointInit fw (.start w)).bp.state.Resumes := by
  unfold otaBreakpointInit
  dsimp only
  split
  · right
    rw [save_state]
    exact show ¬ BpState.unknown.Resumes by decide
  · left
    unfold loadOtaBp World.record
    split <;> rfl

variable {ota : UpgradeInfo}

theorem resumesInside_init (h : ResumesInside fw ota (w.record fw)) :
    ResumesInside fw ota (otaBreakpointInit fw (.start w)).bp := by
  rcases init_record fw w with hstored | hfresh
  · rwa [hstored]
  · exact fun hstate => absurd hstate hfresh

variable (hfw : fw.WellFormed)

include hfw

theorem prepare_inside (initState : Bool) (hresumes : ResumesInside fw ota a.bp)
    (hinside : a.world.ErasesInside fw) :
    (otaPartitionUpdatePrepare fw ota initState a).world.ErasesInside fw := by
  unfold otaPartitionUpdatePrepare
  split
  · exact hinside
  · have hall := foldlRecOn (motive := fun a' => a'.world.ErasesInside fw ∧ Later a.bp a'.bp)
      fw.parts
      (preparePart fw ota initState) ⟨hinside, .refl _⟩ fun _ h _ hpart =>
        preparePart_inside hfw hpart initState hresumes h.1 h.2
    exact save_keeps ofLists_erasesInside hall.1

theorem prepareInit_inside (hinside : a.world.ErasesInside fw) :
    (otaPartitionUpdatePrepareInit fw ota a).world.ErasesInside fw := by
  have hall := foldlRecOn (motive := fun a' => a'.world.ErasesInside fw) fw.parts
    (prepareInitPart fw ota) hinside
    fun _ h _ hpart => prepareInitPart_inside hfw hpart h
  exact save_keeps ofLists_erasesInside hall

end

/-! ## Runs -/

/-- One step keeps every erase inside its partition. -/
theorem step_inside {fw : Firmware} (hfw : fw.WellFormed) {label : Label}
    (hresumable : w.Resumable fw label) (hinside : w.ErasesInside fw) :
    (w.step fw label).ErasesInside fw := by
  refine step_keeps ofLists_erasesInside ?_ ?_ hinside
  · rintro param cut rfl
    refine upgradeInit_keeps ofLists_erasesInside ?_ (fun _ _ _ _ => prepareInit_inside hfw) hinside
    rintro hflag a rfl
    exact prepare_inside hfw true (resumesInside_init (hresumable hflag))
  · rintro ota bpChanged cut rfl
    refine upgradeCheck_keeps ofLists_erasesInside bpChanged ?_ hinside
    rintro a (rfl | hfresh)
    · exact prepare_inside hfw false (resumesInside_init hresumable)
    · exact prepare_inside hfw false fun hstate => absurd hstate hfresh

/-- The steps from states in which a resumed upgrade finds the current file where it looks
for it. -/
def ResumableSteps (fw : Firmware) (w : World) (label : Label) (w' : World) : Prop :=
  w.Resumable fw label ∧ w' = w.step fw label

/-- In every such run, whatever the flash, the records and the power losses, every erase stays
inside its partition, and without recovery outside the running mirror. -/
theorem erases_inside_partition {fw : Firmware} (hfw : fw.WellFormed) {w w' : World}
    {labels : List Label} (hstart : w.erases = []) (run : Run (ResumableSteps fw) w labels w') :
    w'.ErasesInside fw := by
  refine run.invariant (fun _ s => s.ErasesInside fw) ?_ ?_
  · intro useRecovery part op hmem
    rw [hstart] at hmem
    cases hmem
  · rintro _ s label s' hinside ⟨hresumable, rfl⟩
    exact step_inside hfw hresumable hinside

/-! ## A borrowed partition -/

/-- The event buffer is borrowed, then an upgrade starts. -/
def borrowThenUpgrade : List Label :=
  [.setOtherWriting partitionFileIdEvtbuf, .check ⟨false, false, [0]⟩ false none]

/-- The firmware of the other mirror is erased from the event buffer on, and the running
firmware with it. -/
theorem borrowing_erases_running_firmware :
    mirroredFirmware.WellFormed ∧ systemA.mirrorId.val = mirroredFirmware.currentMirrorId ∧
      (false, systemB, Op.erase systemA.offset systemA.size) ∈
        (borrowThenUpgrade.foldl (World.step mirroredFirmware) blankWorld).erases ∧
      ¬ (borrowThenUpgrade.foldl (World.step mirroredFirmware) blankWorld).ErasesInside
        mirroredFirmware := by
  have hmem : (false, systemB, Op.erase systemA.offset systemA.size) ∈
      (borrowThenUpgrade.foldl (World.step mirroredFirmware) blankWorld).erases := by
    decide +kernel
  refine ⟨mirroredFirmware_wellFormed, by decide, hmem, fun h => ?_⟩
  have hin := (h false systemB _ hmem systemA.offset ⟨by decide, by decide⟩).1.1
  exact absurd hin (by decide)

/-- Without the loan the same upgrade stays inside. -/
theorem erases_inside_partition_mirrored :
    (blankWorld.step mirroredFirmware (.check ⟨false, false, [0]⟩ false none)).ErasesInside
      mirroredFirmware := by
  have hresumable : blankWorld.Resumable mirroredFirmware (.check ⟨false, false, [0]⟩ false none) :=
    fun hstate => absurd hstate (show ¬ BpState.unknown.Resumes by decide)
  exact erases_inside_partition mirroredFirmware_wellFormed rfl (.snoc .nil ⟨hresumable, rfl⟩)

end SpeakerFirmware.Ota.Upgrade
