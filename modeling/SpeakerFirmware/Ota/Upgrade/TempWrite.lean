/-
# Writing the rest of the temp image

`ota_write_and_verify_file` goes on where the record says the last attempt has stopped. What
reaches the partition are the actions of the pipeline: writes of the next bytes, and records
of how far it has come. Each write finds its bytes erased and outside of what the saved
record counts, so the record stays true while the flash moves on.
-/

import SpeakerFirmware.Ota.Upgrade.TempPrepare

namespace SpeakerFirmware.Ota.Upgrade

open NorFlash ResumableCopy
open Pipeline (Action Actions Journal)
open List

variable {p : Progress} {n offs len : Nat}

namespace Setup

variable {S : Setup} {w₀ : World} {x : Writing} {t : Transfer}

/-! ## The file -/

variable (S) in
/-- The file of the image. -/
def file : OtaFile :=
  ⟨S.part.fileId, S.part.offset, S.img.size, 0⟩

theorem getTempPart_eq : S.fw.getTempPart = some S.part := by
  have hentries : S.fw.entries partitionFileIdOtaTemp = [S.part] := by
    have hsub : (fun part : PartitionEntry =>
        decide (part.fileId = partitionFileIdOtaTemp) && part.isTemp) =
        fun part => decide (part.fileId = partitionFileIdOtaTemp) := by
      funext part
      rw [Bool.and_eq_left_iff_imp]
      exact fun h => decide_eq_true (Or.inr (of_decide_eq_true h))
    rw [Firmware.entries, ← hsub, ← filter_filter, S.only]
    exact filter_eq_self.mpr fun q hq => by
      rw [mem_singleton.mp hq]
      exact decide_eq_true S.fileId_eq
  rw [Firmware.getTempPart, getPart_of_single hentries]
  exact if_neg (not_not.mpr S.type_eq)

theorem initTempFileData_eq {data : OtaFile} (h : otaInitTempFileData S.img S.part = some data) :
    data = S.file := by
  unfold otaInitTempFileData at h
  split at h
  · cases h
  · rw [file, S.fileId_eq]
    exact (Option.some.inj h).symm

/-! ## Calls and programming -/

theorem Trail.start (h : S.Trail w₀ x.world x.changes) : S.Runs x.world ⟨x.world, x.bp, []⟩ :=
  trail_nil h.sound h.synced

theorem Trail.call (h : S.Trail w₀ x.world x.changes) {g : Attempt → Attempt}
    (hg : S.Runs x.world (g ⟨x.world, x.bp, []⟩)) :
    S.Trail w₀ (x.call g).world (x.call g).changes :=
  h.trans hg

variable (S) in
/-- The operations have been programmed. -/
structure Programmed (w₀ : World) (x x' : Writing) (ops : List Op) : Prop where
  trail : S.Trail w₀ x'.world x'.changes
  bp : x'.bp = x.bp
  record : x'.world.record S.fw = x.world.record S.fw
  chip : S.chip x'.world = applyAll ops (S.chip x.world)

/-- Programming erased bytes about which the record says nothing. -/
theorem Trail.program (h : S.Trail w₀ x.world x.changes)
    (hp : (x.world.record S.fw).progress S.part = some p) (hbehind : p.Behind n) {addr : Nat}
    (haddr : S.part.offset + n ≤ addr) {pages : List (List UInt8)}
    (herased : Erased (S.chip x.world) addr pages.flatten.length) :
    S.Programmed w₀ x (x.program S.part.storageId (programs addr pages)) (programs addr pages) := by
  induction pages generalizing x addr with
  | nil => exact ⟨h, rfl, rfl, rfl⟩
  | cons page pages ih =>
    rw [flatten_cons, length_append, erased_add] at herased
    have hop : (Op.program addr page).Within addr (addr + page.length) := ⟨le_rfl, le_rfl⟩
    have hrecord :
        (Change.apply x.world (.program S.part.storageId (.program addr page))).record S.fw =
        x.world.record S.fw := by
      rw [record_eq, record_eq]
      rfl
    have hchip : S.chip (Change.apply x.world (.program S.part.storageId (.program addr page))) =
        (Op.program addr page).apply (S.chip x.world) := Function.update_self _ _ _
    have htrail : S.Trail w₀ (x.change (.program S.part.storageId (.program addr page))).world
        (x.change (.program S.part.storageId (.program addr page))).changes := by
      have hguard : S.Guard x.world (.program S.part.storageId (.program addr page)) := by
        refine ⟨?_, trivial⟩
        intro op hmem
        rw [Change.ops, if_pos rfl, mem_singleton] at hmem
        rw [hmem]
        exact herased.1
      refine h.snoc hguard ?_ ?_
      · obtain ⟨p', hp', hmeans⟩ := h.sound
        obtain rfl := Option.some.inj (hp'.symm.trans hp)
        rw [Sound, hrecord, hchip]
        refine ⟨p', hp, hmeans.congr hbehind fun b hb => ?_⟩
        exact Op.apply_of_within hop _ (.inl (hb.trans_le haddr))
      · rw [hrecord]
        exact h.synced
    have hrest : Erased ((Op.program addr page).apply (S.chip x.world)) (addr + page.length)
        pages.flatten.length := by
      intro b hlo hhi
      rw [Op.apply_of_within hop _ (.inr hlo)]
      exact herased.2 b hlo hhi
    have hnext := ih htrail (hrecord ▸ hp) (haddr.trans (Nat.le_add_right _ _)) (hchip ▸ hrest)
    exact ⟨hnext.trail, hnext.bp, hnext.record.trans hrecord,
      hnext.chip.trans (by rw [programs]; exact congrArg _ hchip)⟩

/-! ## The actions of the pipeline -/

variable (S) in
/-- The image has been written up to an offset. Once this was noted, the record is saved. -/
structure Wrote (w₀ : World) (x : Writing) (offs : Nat) (noted : Bool) : Prop where
  trail : S.Trail w₀ x.world x.changes
  ready : Ready S.target (S.chip x.world) offs
  place : x.bp.curFile.offset = S.part.offset
  counts : x.bp.state.Counts
  describes : S.Describes x.bp (S.chip x.world)
  record : noted = true → x.world.record S.fw = x.bp
  settled : noted = true → otaBreakpointSetFileState x.bp S.part.fileId .writing = x.bp
  behind : noted = true → ∃ p, x.bp.progress S.part = some p ∧ p.Behind offs

theorem size_lt : S.img.size < 2 ^ 31 := by
  have hle := S.size_le
  have hstop := (aligned_part (S := S)).stop_lt
  rw [PartitionEntry.stop] at hstop
  omega

/-- `ota_breakpoint_update_file_state` while the file is being written. -/
theorem Wrote.note {noted force : Bool} (h : S.Wrote w₀ x offs noted) (haligned : offs % 4096 = 0)
    (hforce : noted = false → force = true) :
    S.Wrote w₀ (x.call fun a => otaBreakpointUpdateFileState S.fw a S.file .writing offs force) offs
      true := by
  have hle : offs ≤ S.img.size := h.ready.le.trans_eq S.length_stored
  have hsize := size_lt (S := S)
  have hoffs : u32 offs = offs := u32_of_nat (by omega)
  cases hdue : force || u32 ((offs : Int) - x.bp.curFileWriteOffset) == 0 ||
    decide (u32 ((offs : Int) - x.bp.curFileWriteOffset) ≥ 128 * 1024) with
  | true =>
    have hcall : otaBreakpointUpdateFileState S.fw ⟨x.world, x.bp, []⟩ S.file .writing offs force =
        otaBreakpointSave S.fw ⟨x.world, otaBreakpointSetFileState
          { x.bp with curFileWriteOffset := offs } S.part.fileId .writing, []⟩ := by
      simp only [otaBreakpointUpdateFileState, hdue, if_true, hoffs]
      rfl
    obtain ⟨slots, hset, -⟩ :=
      get_set { x.bp with curFileWriteOffset := offs } S.part.fileId .writing
    have hprogress := fileProgress_set { x.bp with curFileWriteOffset := offs } S.part .writing
    have hagain := set_again { x.bp with curFileWriteOffset := offs } S.part.fileId .writing
    generalize otaBreakpointSetFileState
        { x.bp with curFileWriteOffset := offs } S.part.fileId .writing = bp
      at hcall hset hprogress hagain
    have hcounts : bp.state.Counts := hset ▸ h.counts
    obtain ⟨p, hp, hmeans, hbehind⟩ : ∃ p, bp.progress S.part = some p ∧
        p.Means S.target 4096 (S.chip x.world) ∧ p.Behind offs := by
      rw [progress_of_counts hcounts]
      rcases hprogress with heq | heq
      · refine ⟨.upTo offs, heq.trans ?_, ⟨haligned, h.ready.toCopied⟩, Nat.le_refl _⟩
        rw [FileState.progress, if_pos (decide_eq_true h.place)]
      · exact ⟨.unknown, heq, trivial, trivial⟩
    have hsaved := Runs.save (a := ⟨x.world, bp, []⟩) h.trail.start ⟨p, hp, hmeans⟩
    obtain ⟨bpId, hbp⟩ := hsaved.bp
    have htrail := h.trail.call (g := fun a =>
      otaBreakpointUpdateFileState S.fw a S.file .writing offs force) (hcall ▸ hsaved.runs)
    rw [← hcall] at hsaved hbp
    refine ⟨htrail, ?_, ?_, ?_, hsaved.describes, fun _ => hsaved.record, fun _ => ?_, fun _ => ?_⟩
    · exact hsaved.chip ▸ h.ready
    all_goals dsimp only [Writing.call]; rw [hbp]
    · rw [hset]
      exact h.place
    · exact hcounts
    · rw [set_bpId, hagain]
    · exact ⟨p, hp, hbehind⟩
  | false =>
    -- the offset of the record is not far behind, and nothing is saved
    have hnoted : noted = true := by
      cases noted with
      | true => rfl
      | false =>
        rw [hforce rfl] at hdue
        cases hdue
    have hcall : otaBreakpointUpdateFileState S.fw ⟨x.world, x.bp, []⟩ S.file .writing offs force =
        ⟨x.world, x.bp, []⟩ := by
      simp only [otaBreakpointUpdateFileState, hdue]
      exact congrArg (Attempt.mk x.world · []) (h.settled hnoted)
    have hsame : (x.call fun a => otaBreakpointUpdateFileState S.fw a S.file .writing offs force) =
        x := by
      rw [Writing.call, hcall]
      dsimp only
      rw [map_nil, append_nil]
    rw [hsame, ← hnoted]
    exact h

/-- A storage write of the next bytes, or of some first part of them. -/
theorem Wrote.store (h : S.Wrote w₀ x offs true) (pages : List (List UInt8))
    (hlen : pages.flatten.length = len) (hle : offs + len ≤ S.img.size) :
    S.Programmed w₀ x (x.program S.part.storageId (programs (S.part.offset + offs) pages))
      (programs (S.part.offset + offs) pages) := by
  obtain ⟨p, hp, hbehind⟩ := h.behind rfl
  refine h.trail.program (h.record rfl ▸ hp) hbehind le_rfl ?_
  rw [hlen]
  exact h.ready.erased_next (hle.trans_eq S.length_stored.symm)

/-- A write that succeeds. -/
theorem Wrote.write {start : Nat} (h : S.Wrote w₀ x offs true) (hoffs : offs % 4096 = 0)
    (hle : offs + len ≤ S.img.size) :
    S.Wrote w₀ (x.act S.fw t S.part S.file (t.job S.img S.file start)
      (.write offs ((t.job S.img S.file start).bytes offs len) 0)) (offs + len) true := by
  have hchunk := S.stored_chunk t S.file start hoffs hle
  have hlen : ((S.stored.drop offs).take len).length = len := by
    rw [length_take, length_drop, S.length_stored]
    omega
  obtain ⟨pages, hops, hpages⟩ := otaStorageWrite_eq (S.file.offset + offs)
    (le_refl ((S.stored.drop offs).take len).length)
  have hprogrammed := h.store pages (by rw [hpages, hlen]) hle
  have hact : x.act S.fw t S.part S.file (t.job S.img S.file start)
      (.write offs ((t.job S.img S.file start).bytes offs len) 0) =
      x.program S.part.storageId (programs (S.part.offset + offs) pages) := by
    rw [Writing.act, hchunk, if_pos rfl, hops]
    rfl
  rw [hact]
  have hready : Ready S.target (S.chip (x.program S.part.storageId
      (programs (S.part.offset + offs) pages)).world) (offs + len) := by
    rw [hprogrammed.chip]
    exact h.ready.program (hle.trans_eq S.length_stored.symm) hpages
  generalize x.program S.part.storageId (programs (S.part.offset + offs) pages) =
      x' at hprogrammed hready
  have hrecord : x'.world.record S.fw = x'.bp := by
    rw [hprogrammed.record, hprogrammed.bp]
    exact h.record rfl
  obtain ⟨p, hp, hbehind⟩ := h.behind rfl
  refine ⟨hprogrammed.trail, hready, ?_, ?_, hrecord ▸ hprogrammed.trail.sound, fun _ => hrecord,
    fun _ => ?_,
    fun _ => ?_⟩
  all_goals rw [hprogrammed.bp]
  · exact h.place
  · exact h.counts
  · exact h.settled rfl
  · exact ⟨p, hp, hbehind.mono (Nat.le_add_right _ _)⟩

variable (S) in
/-- The record and `ota->bp` are true of the flash: the attempt may end here. -/
structure Stops (w₀ : World) (x : Writing) : Prop where
  trail : S.Trail w₀ x.world x.changes
  describes : S.Describes x.bp (S.chip x.world)
  counts : x.bp.state.Counts

/-- A write that fails after some of its operations. -/
theorem Wrote.writeFailed {start : Nat} {ret : Int} (h : S.Wrote w₀ x offs true)
    (hoffs : offs % 4096 = 0) (hle : offs + len ≤ S.img.size) (hret : ret ≠ 0) :
    S.Stops w₀ (x.act S.fw t S.part S.file (t.job S.img S.file start)
      (.write offs ((t.job S.img S.file start).bytes offs len) ret)) := by
  have hchunk := S.stored_chunk t S.file start hoffs hle
  obtain ⟨pages, hops, hpages⟩ := otaStorageWrite_eq (S.file.offset + offs)
    (le_refl ((S.stored.drop offs).take len).length)
  have hsplit := congrArg List.flatten (take_append_drop t.opsBeforeFailure pages)
  rw [flatten_append, hpages] at hsplit
  have hlen := congrArg List.length hsplit
  rw [length_append, length_take, length_drop, S.length_stored] at hlen
  have hprogrammed := h.store (pages.take t.opsBeforeFailure) rfl (by omega)
  have hact : x.act S.fw t S.part S.file (t.job S.img S.file start)
      (.write offs ((t.job S.img S.file start).bytes offs len) ret) =
      x.program S.part.storageId
        (programs (S.part.offset + offs) (pages.take t.opsBeforeFailure)) := by
    rw [Writing.act, hchunk, if_neg hret, hops, take_programs]
    rfl
  rw [hact]
  have hrecord := h.record rfl
  rw [← hprogrammed.record, ← hprogrammed.bp] at hrecord
  exact ⟨hprogrammed.trail, hrecord ▸ hprogrammed.trail.sound, hprogrammed.bp ▸ h.counts⟩

section

variable {start : Nat} (haligned : start % 4096 = 0) (h : S.Wrote w₀ x start false)
  {trace : List Action}

include haligned h

/-- The actions of a call that is running. -/
theorem Wrote.journal {noted : Bool}
    (hjournal : Journal (t.job S.img S.file start) trace offs noted) :
    S.Wrote w₀ (trace.foldl (Writing.act S.fw t S.part S.file (t.job S.img S.file start)) x) offs
      noted := by
  have hsector : ∀ {trace offs noted}, Journal (t.job S.img S.file start) trace offs noted →
      offs < S.img.size →
      offs % 4096 = 0 := by
    intro trace offs noted hjournal hmore
    obtain ⟨hge, hmod⟩ := hjournal.aligned
    have hstart : start ≤ offs := hge
    have hrest : (offs - start) % 4096 = 0 := hmod hmore
    omega
  induction hjournal with
  | start => exact h
  | record force before hmore hforce ih =>
    rw [foldl_append]
    exact ih.note (hsector before hmore) hforce
  | write len before hpos hle hsectors ih =>
    rw [foldl_append]
    have hle' : _ + len ≤ S.img.size := hle
    exact ih.write (hsector before (by omega)) hle'

/-- The actions of a call at any time. -/
theorem Wrote.actions (hactions : Actions (t.job S.img S.file start) trace) :
    S.Stops w₀ (trace.foldl (Writing.act S.fw t S.part S.file (t.job S.img S.file start)) x) := by
  cases hactions with
  | running journal =>
    have hwrote := h.journal haligned journal
    exact ⟨hwrote.trail, hwrote.describes, hwrote.counts⟩
  | failed len ret before hpos hle hret =>
    rw [foldl_append]
    obtain ⟨hge, hmod⟩ := before.aligned
    have hle' : _ + len ≤ S.img.size := hle
    have hstart : start ≤ _ := hge
    have hrest : (_ - start) % 4096 = 0 := hmod (show _ < S.img.size by omega)
    exact (h.journal haligned before).writeFailed (by omega) hle' hret

end

/-! ## `ota_write_temp_img` -/

section

variable (h : S.Stops w₀ x)
include h

/-- A call that saves the record. -/
theorem Stops.call {g : Attempt → Attempt} {a : Attempt}
    (hsaved : S.Saved x.world a (g ⟨x.world, x.bp, []⟩)) (hcounts : a.bp.state.Counts) :
    S.Stops w₀ (x.call g) := by
  refine ⟨h.trail.call hsaved.runs, hsaved.describes, ?_⟩
  obtain ⟨bpId, hbp⟩ := hsaved.bp
  dsimp only [Writing.call]
  rw [hbp]
  exact hcounts

/-- `ota_breakpoint_update_file_state` with a state that is saved at once. -/
theorem Stops.updateFile
    {state : FileState} (hstate : state ≠ .writeStart ∧ state ≠ .writing)
    (hp : ∀ inPlace offset, FileState.progress inPlace offset (some state) = some p)
    (hmeans : p.Means S.target 4096 (S.chip x.world)) :
    S.Stops w₀ (x.call fun a => otaBreakpointUpdateFileState S.fw a S.file state 0 false) := by
  have hcall : otaBreakpointUpdateFileState S.fw ⟨x.world, x.bp, []⟩ S.file state 0 false =
      otaBreakpointSave S.fw ⟨x.world, otaBreakpointSetFileState x.bp S.part.fileId state, []⟩ := by
    cases state
    case writeStart => exact absurd rfl hstate.1
    case writing => exact absurd rfl hstate.2
    all_goals rfl
  have hcounts : (otaBreakpointSetFileState x.bp S.part.fileId state).state.Counts :=
    (setFileState_fields x.bp S.part.fileId state).2.1 ▸ h.counts
  have hsaved := Runs.save (a := ⟨x.world, otaBreakpointSetFileState x.bp S.part.fileId state, []⟩)
    h.trail.start (describes_of_file hcounts (FileDescribes.set (hp _ _) hmeans))
  exact h.call (hcall ▸ hsaved) hcounts

/-- The end of `ota_write_and_verify_file` after an error. -/
theorem Stops.writeFailed (err : Int) : S.Stops w₀ (x.writeFailed S.fw S.file err) := by
  unfold Writing.writeFailed
  split
  · exact h.updateFile ⟨nofun, nofun⟩ (fun _ _ => rfl) trivial
  · exact h

/-- The image is in place, and its file is going to be noted as written. -/
theorem Stops.noteWritten (hholds : Holds (S.chip x.world) S.part.offset S.stored) :
    S.Stops w₀ (x.change (.writeDone S.part)) := by
  have hguard : S.Guard x.world (.writeDone S.part) := ⟨fun _ hop => (by cases hop), hholds⟩
  exact ⟨h.trail.snoc hguard h.trail.sound h.trail.synced, h.describes, h.counts⟩

/-- Writing from an offset on, with everything behind it erased. -/
theorem Stops.writeFrom {start : Nat} (haligned : start % 4096 = 0)
    (hready : Ready S.target (S.chip x.world) start) :
    S.Stops w₀ (writeFrom S.fw S.img t S.part S.file x start).1 := by
  -- `OTA_BP_FILE_STATE_WRITE_START` is not saved
  have hstarted : S.Wrote w₀ (x.call fun a =>
      otaBreakpointUpdateFileState S.fw a S.file .writeStart start false) start false := by
    have hset := setFileState_fields
      { x.bp with curFile := S.file, curFileWriteOffset := u32 start }
      S.part.fileId .writeStart
    obtain ⟨slots, hslots, -⟩ :=
      get_set { x.bp with curFile := S.file, curFileWriteOffset := u32 start }
      S.part.fileId .writeStart
    have hcounts :
        (otaBreakpointSetFileState { x.bp with curFile := S.file, curFileWriteOffset := u32 start }
      S.part.fileId .writeStart).state.Counts := hset.2.1 ▸ h.counts
    have htrail : S.Trail w₀ x.world (x.changes ++ []) := by
      rw [append_nil]
      exact h.trail
    refine ⟨htrail, hready, ?_, hcounts, ?_, nofun, nofun, nofun⟩
    · exact congrArg (·.curFile.offset) hslots
    · exact describes_of_file hcounts (FileDescribes.set rfl trivial)
  obtain ⟨hactions, hcomplete⟩ :=
    @Pipeline.run_actions (t.job S.img S.file start) t.sched rfl t.steps
  have hstops := hstarted.actions haligned hactions
  unfold Upgrade.writeFrom otaWriteFile
  dsimp only
  rw [Int.toNat_natCast]
  generalize (t.job S.img S.file start).run t.sched t.steps = s at *
  cases hpc : s.writerPc
  case returned ret =>
    dsimp only
    split
    case h_1 => exact hstops
    case h_2 hzero =>
      obtain ⟨noted, hjournal⟩ := hcomplete (hpc.trans (congrArg _ (Option.some.inj hzero)))
      have hwrote := hstarted.journal haligned hjournal
      have hend : S.target.content.length = (t.job S.img S.file start).fileLen := S.length_stored
      have hready : Ready S.target _ S.target.content.length := hend ▸ hwrote.ready
      exact (hstops.noteWritten hready.complete).updateFile ⟨nofun, nofun⟩
        (fun _ _ => rfl) hready.complete
    case h_3 err _ _ => exact hstops.writeFailed err
  all_goals exact hstops

end

/-- Where writing starts after what the record says, and whether the rest is erased before. -/
def planOf : Progress → Option (Int × Bool)
  | .unknown => some (0, true)
  | .blank => some (0, false)
  | .upTo n => some (i32 n, true)
  | .ready n => some (i32 n, false)
  | .complete => none

theorem writePlan_eq {bp : Breakpoint} (hp : bp.fileProgress S.part = some p) :
    writePlan S.file bp = planOf p := by
  rw [Breakpoint.fileProgress] at hp
  have hid : S.file.fileId = S.part.fileId := rfl
  rw [writePlan, hid]
  generalize otaBreakpointGetFileState bp S.part.fileId = state at hp
  rcases state with _ | state
  · cases hp
    rfl
  · cases state
    case writing | writingClean =>
      rw [FileState.progress] at hp
      split at hp <;> cases hp
      rfl
    case otherWriting => cases hp
    all_goals
      cases hp
      rfl

/-- Setting the offset of the record to where writing starts does not change what it says. -/
theorem progress_offset {inPlace : Bool} {offset : Nat} {state : Option FileState}
    (hp : FileState.progress inPlace offset state = some p) (hn : p = .unknown ∨ p = .upTo n) :
    FileState.progress inPlace n state = some p := by
  rcases state with _ | state
  · exact hp
  · cases state
    case writing =>
      rw [FileState.progress] at hp ⊢
      split at hp <;> cases hp
      rcases hn with hn | hn <;> cases hn
      exact if_pos ‹_›
    case writingClean =>
      rw [FileState.progress] at hp
      split at hp <;> cases hp
      rcases hn with hn | hn <;> cases hn
    all_goals exact hp

section

variable (h : S.Stops w₀ x) (hrecord : x.world.record S.fw = x.bp)
include h hrecord

/-- Erasing the rest of the partition, then writing it. -/
theorem Stops.eraseAndWrite (hstorage : (recoveryInfo t.storages).hasStorage S.part = true)
    (hp : x.bp.progress S.part = some p) (haligned : n % 4096 = 0)
    (hn : p = .unknown ∨ p = .upTo n)
    (hcopied : Copied S.target (S.chip x.world) n)
    (hplan : writePlan S.file x.bp = some ((n : Int), true)) :
    S.Stops w₀ (otaWriteAndVerifyFile S.fw S.img t S.part S.file x).1 := by
  have hle : n ≤ S.part.size := hcopied.le.trans S.target.fits
  have hpart := aligned_part (S := S)
  have hoffset := hpart.offset
  have hstop := hpart.stop_lt
  rw [PartitionEntry.stop] at hstop
  have hround : roundDown (S.file.offset + (n : Int)) = S.part.offset + n := by
    have hplace : S.file.offset = S.part.offset := rfl
    rw [hplace, ← Int.natCast_add, roundDown, u32_of_nat (by omega), otaEraseAlignSize]
    omega
  have hstart : ((S.part.offset + n : Nat) : Int) - S.part.offset = n := by omega
  have hbehind : p.Behind n := by
    rcases hn with rfl | rfl
    · trivial
    · exact Nat.le_refl n
  have hcleared :=
    Runs.clear (a := ⟨x.world, x.bp, []⟩) h.trail.start hstorage haligned (hrecord ▸ hp) hbehind
    hcopied false
  obtain ⟨p', hp', hmeans⟩ := hcleared.runs.sound
  rw [hcleared.record] at hp'
  obtain rfl := Option.some.inj (hp'.symm.trans (hrecord ▸ hp))
  unfold otaWriteAndVerifyFile
  rw [if_neg (by rw [hstorage]; simp), hplan]
  dsimp only
  rw [hround]
  change S.Stops w₀ (Upgrade.writeFrom S.fw S.img t S.part S.file (x.call fun a =>
    { (otaPartitionErasePart (recoveryInfo t.storages) a S.part
        (((S.part.offset + n : Nat) : Int) - S.part.offset) false).1 with
      bp := { (otaPartitionErasePart (recoveryInfo t.storages) a S.part
          (((S.part.offset + n : Nat) : Int) - S.part.offset) false).1.bp with
        curFileWriteOffset := u32 (((S.part.offset + n : Nat) : Int) - S.part.offset) } })
    (((S.part.offset + n : Nat) : Int) - S.part.offset)).1
  rw [hstart, u32_of_nat (by omega)]
  refine Stops.writeFrom ⟨h.trail.call hcleared.runs, ?_, ?_⟩ haligned hcleared.ready
  all_goals dsimp only [Writing.call]; rw [hcleared.bp]
  · refine describes_of_file h.counts ⟨p', ?_, hmeans⟩
    rw [progress_of_counts h.counts] at hp
    exact progress_offset hp hn
  · exact h.counts

/-- `ota_write_and_verify_file` for the temp file. -/
theorem Stops.writeAndVerifyFile :
    S.Stops w₀ (otaWriteAndVerifyFile S.fw S.img t S.part S.file x).1 := by
  obtain ⟨p, hp, hmeans⟩ := h.describes
  have hplan := writePlan_eq ((progress_of_counts h.counts S.part).symm.trans hp)
  cases hstorage : (recoveryInfo t.storages).hasStorage S.part with
  | false =>
    rw [otaWriteAndVerifyFile, if_pos hstorage]
    exact h.writeFailed Errno.einval
  | true =>
    have hoffs : ∀ {n}, Copied S.target (S.chip x.world) n → i32 n = n := fun hcopied =>
      i32_of_nat (hcopied.le.trans_lt (S.length_stored.trans_lt size_lt))
    have hwrite : ∀ {n : Nat}, n % 4096 = 0 → Ready S.target (S.chip x.world) n →
        writePlan S.file x.bp = some ((n : Int), false) →
        S.Stops w₀ (otaWriteAndVerifyFile S.fw S.img t S.part S.file x).1 := by
      intro n haligned hready hfrom
      rw [otaWriteAndVerifyFile, if_neg (by rw [hstorage]; exact nofun), hfrom]
      exact h.writeFrom haligned hready
    cases p with
    | unknown => exact h.eraseAndWrite hrecord hstorage hp rfl (.inl rfl) (copied_zero _ _) hplan
    | blank => exact hwrite rfl (ready_zero hmeans) hplan
    | upTo n =>
      rw [planOf, hoffs hmeans.2] at hplan
      exact h.eraseAndWrite hrecord hstorage hp hmeans.1 (.inr rfl) hmeans.2 hplan
    | ready n =>
      rw [planOf, hoffs hmeans.2.toCopied] at hplan
      exact hwrite hmeans.1 hmeans.2 hplan
    | complete =>
      rw [otaWriteAndVerifyFile, if_neg (by rw [hstorage]; exact nofun), hplan]
      exact h

/-- `ota_write_temp_img`. -/
theorem Stops.writeTempImg : S.Stops w₀ (otaWriteTempImg S.fw S.img t x).1 := by
  unfold otaWriteTempImg
  rw [getTempPart_eq]
  dsimp only
  split
  · exact h
  · rename_i data hdata
    rw [initTempFileData_eq hdata]
    exact h.writeAndVerifyFile hrecord

end

end Setup

end SpeakerFirmware.Ota.Upgrade
