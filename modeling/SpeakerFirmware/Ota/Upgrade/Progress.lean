/-
# What the breakpoint record says about the temp partition

The file state of the temp file and `cur_file_write_offset` say how much of the image is in
the partition and whether the rest of it is erased: `Breakpoint.progress` reads the record
this way. In some states of the record the file states do not count, because
`ota_partition_update_prepare` is going to erase the partition anyway.

`Trail` is what is shown of every attempt: at each moment the record that is saved is true of
the flash, only erased bytes are programmed, and the image is complete when that is noted.
-/

import SpeakerFirmware.Lib.ResumableCopy
import SpeakerFirmware.Ota.Pipeline.Journal
import SpeakerFirmware.Ota.Upgrade.Bounds
import SpeakerFirmware.Ota.Upgrade.TempImage

namespace SpeakerFirmware.Ota.Upgrade

open NorFlash ResumableCopy Runs
open List

/-! ## A write of the storage -/

/-- The commands of a `flash_write` are the data, page by page. -/
theorem xspiNorWriteInternal_eq {fuel : Nat} (addr : Nat) {data : List UInt8}
    (hfuel : data.length ≤ fuel) :
    ∃ pages, xspiNorWriteInternal fuel addr data = programs addr pages ∧ pages.flatten = data := by
  induction fuel generalizing addr data with
  | zero =>
    obtain rfl := length_eq_zero_iff.mp (Nat.le_zero.mp hfuel)
    exact ⟨[], rfl, rfl⟩
  | succ fuel ih =>
    rw [xspiNorWriteInternal]
    split
    case isTrue hnone =>
      obtain rfl := length_eq_zero_iff.mp hnone
      exact ⟨[], rfl, rfl⟩
    case isFalse hsome =>
      generalize hsize : min data.length (256 - addr % 256) = size
      have hlen : (data.take size).length = size := length_take_of_le (by omega)
      obtain ⟨pages, heq, hflatten⟩ :=
        @ih (addr + size) (data.drop size) (by rw [length_drop]; omega)
      refine ⟨data.take size :: pages, ?_, ?_⟩
      · dsimp only
        rw [programs, hlen, heq]
      · rw [flatten_cons, hflatten, take_append_drop]

/-- So are those of `ota_storage_write`. -/
theorem otaStorageWrite_eq {fuel : Nat} (offs : Nat) {buf : List UInt8}
    (hfuel : buf.length ≤ fuel) :
    ∃ pages, otaStorageWrite fuel offs buf = programs offs pages ∧ pages.flatten = buf := by
  induction fuel generalizing offs buf with
  | zero =>
    obtain rfl := length_eq_zero_iff.mp (Nat.le_zero.mp hfuel)
    exact ⟨[], rfl, rfl⟩
  | succ fuel ih =>
    rw [otaStorageWrite]
    split
    case isTrue hnone =>
      obtain rfl := length_eq_zero_iff.mp hnone
      exact ⟨[], rfl, rfl⟩
    case isFalse hsome =>
      generalize hsize : (if buf.length < maxWriteSeg then buf.length else maxWriteSeg) = size
      have hbounds : 0 < size ∧ size ≤ buf.length := by
        rw [maxWriteSeg] at hsize
        split at hsize <;> omega
      have hlen : (buf.take size).length = size := length_take_of_le hbounds.2
      obtain ⟨first, hfirst, hflatten⟩ :=
        xspiNorWriteInternal_eq offs (le_refl (buf.take size).length)
      obtain ⟨rest, hrest, hflatten'⟩ := @ih (offs + size) (buf.drop size)
        (by rw [length_drop]; omega)
      refine ⟨first ++ rest, ?_, ?_⟩
      · rw [programs_append, hflatten, hlen, ← hrest, ← hfirst]
        rfl
      · rw [flatten_append, hflatten, hflatten', take_append_drop]

/-! ## The bytes of the image -/

theorem getElem?_blankHeader (data : List UInt8) (i : Nat) :
    (Pipeline.blankHeader data)[i]? = if i < 4 then data[i]?.map fun _ => 0xff else data[i]? := by
  unfold Pipeline.blankHeader
  rcases Nat.lt_or_ge i (min 4 data.length) with hlt | hge
  · rw [getElem?_append_left (by simpa using hlt), if_pos (by omega)]
    simp [getElem?_eq_getElem (show i < data.length by omega), hlt]
  · rw [getElem?_append_right (by simpa using hge), length_replicate, getElem?_drop]
    rcases Nat.lt_or_ge i 4 with hlt | hge'
    · rw [if_pos hlt, getElem?_eq_none (show data.length ≤ i by omega),
        getElem?_eq_none (show data.length ≤ 4 + (i - min 4 data.length) by omega)]
      rfl
    · rw [if_neg (by omega)]
      rcases Nat.lt_or_ge data.length 4 with hshort | hlong
      · rw [getElem?_eq_none (show data.length ≤ i by omega),
          getElem?_eq_none (show data.length ≤ 4 + (i - min 4 data.length) by omega)]
      · rw [Nat.min_eq_left hlong, Nat.add_sub_cancel' hge']

theorem length_blankHeader (data : List UInt8) :
    (Pipeline.blankHeader data).length = data.length := by
  rw [Pipeline.blankHeader, length_append, length_replicate, length_drop]
  omega

theorem getElem?_read (f : Image) (addr len i : Nat) :
    (NorFlash.read f addr len)[i]? = if i < len then some (f (addr + i)) else none := by
  rw [NorFlash.read, getElem?_map]
  split
  · rw [getElem?_range ‹_›]
    rfl
  · rw [getElem?_eq_none (by rw [length_range]; omega)]
    rfl

namespace Setup

variable (S : Setup)

theorem length_stored : S.stored.length = S.img.size := by
  rw [stored, length_blankHeader, length_read]

/-- The range the image is copied to. -/
def target : Target where
  base := S.part.offset
  room := S.part.size
  content := S.stored
  fits := S.length_stored.trans_le S.size_le

/-- A chunk is stored as the temp partition is to hold it. -/
theorem stored_chunk (t : Transfer) (file : OtaFile) (start : Nat) {offs len : Nat}
    (hoffs : offs % 4096 = 0) (hle : offs + len ≤ S.img.size) :
    (t.job S.img file start).stored offs ((t.job S.img file start).bytes offs len) =
      (S.stored.drop offs).take len := by
  have hbytes : (t.job S.img file start).bytes offs len = NorFlash.read S.img.bytes offs len := by
    rw [Pipeline.Job.bytes]
    exact congrArg (fun a => NorFlash.read S.img.bytes a len) (Nat.zero_add offs)
  rw [hbytes]
  apply ext_getElem?
  intro i
  rw [getElem?_take, getElem?_drop, stored, getElem?_blankHeader, getElem?_read,
    Pipeline.Job.stored]
  rcases Nat.eq_zero_or_pos offs with rfl | hpos
  · rw [if_pos (by rfl), getElem?_blankHeader, getElem?_read]
    split <;> grind
  · rw [if_neg (by simp [Transfer.job]; omega), getElem?_read]
    grind

end Setup

/-! ## File states -/

/-- A state that was set is found, unless there is no slot for the file. -/
theorem get_set (bp : Breakpoint) (fileId : UInt8) (state : FileState) :
    ∃ slots, otaBreakpointSetFileState bp fileId state = { bp with fileState := slots } ∧
      (otaBreakpointGetFileState { bp with fileState := slots } fileId = some state ∨
        otaBreakpointGetFileState { bp with fileState := slots } fileId = none) := by
  unfold otaBreakpointSetFileState
  split
  · rename_i slots hset
    refine ⟨slots, rfl, .inl ?_⟩
    exact congrArg (Option.map FileSlot.state) (find_setSlot_self hset fun _ _ heq => heq)
  · rename_i hnone
    have hmissing := setSlot_none hnone
    split
    · rename_i slots hset
      refine ⟨slots, rfl, .inl ?_⟩
      exact congrArg (Option.map FileSlot.state)
        (find_setSlot_self hset fun s hs heq => absurd heq (hmissing s hs))
    · refine ⟨bp.fileState, rfl, .inr ?_⟩
      have hfind : bp.fileState.find? (·.fileId = fileId) = none :=
        find?_eq_none.mpr fun s hs => by simpa using hmissing s hs
      exact congrArg (Option.map FileSlot.state) hfind

theorem setSlot_again {key : UInt8} {slot : FileSlot} {slots slots' : List FileSlot}
    (h : setSlot key slot slots = some slots')
    (hfirst : ∀ s ∈ slots, s.fileId = slot.fileId → s.fileId = key) :
    setSlot slot.fileId slot slots' = some slots' := by
  induction slots generalizing slots' with
  | nil => cases h
  | cons s slots ih =>
    rw [setSlot] at h
    split at h
    · cases h
      rw [setSlot, if_pos rfl]
    · rename_i hs
      obtain ⟨rest, hrest, rfl⟩ := Option.map_eq_some_iff.mp h
      have hne : ¬ s.fileId = slot.fileId := fun heq => hs (hfirst s mem_cons_self heq)
      rw [setSlot, if_neg hne, ih hrest fun other hother => hfirst other (mem_cons_of_mem _ hother)]
      rfl

/-- Setting a state again changes nothing. -/
theorem set_again (bp : Breakpoint) (fileId : UInt8) (state : FileState) :
    otaBreakpointSetFileState (otaBreakpointSetFileState bp fileId state) fileId state =
      otaBreakpointSetFileState bp fileId state := by
  cases hown : setSlot fileId ⟨fileId, state⟩ bp.fileState with
  | some slots =>
    have hset : otaBreakpointSetFileState bp fileId state = { bp with fileState := slots } := by
      rw [otaBreakpointSetFileState, hown]
    rw [hset, otaBreakpointSetFileState, setSlot_again hown fun _ _ heq => heq]
  | none =>
    have hmissing := setSlot_none hown
    cases hfree : setSlot 0 ⟨fileId, state⟩ bp.fileState with
    | some slots =>
      have hset : otaBreakpointSetFileState bp fileId state = { bp with fileState := slots } := by
        rw [otaBreakpointSetFileState, hown, hfree]
      rw [hset, otaBreakpointSetFileState,
        setSlot_again hfree fun s hs heq => absurd heq (hmissing s hs)]
    | none =>
      have hset : otaBreakpointSetFileState bp fileId state = bp := by
        rw [otaBreakpointSetFileState, hown, hfree]
      rw [hset, hset]

theorem set_bpId (bp : Breakpoint) (bpId : UInt8) (fileId : UInt8) (state : FileState) :
    otaBreakpointSetFileState { bp with bpId } fileId state =
      { otaBreakpointSetFileState bp fileId state with bpId } := by
  simp only [otaBreakpointSetFileState]
  split
  · rfl
  · split <;> rfl

/-! ## Reading the record -/

/-- What the state of the temp file says, with the offset of the record. The offset is one into
the temp partition if that is where the current file lies. -/
def FileState.progress (inPlace : Bool) (offset : Nat) : Option FileState → Option Progress
  | some .clean => some .blank
  | some .writing => if inPlace then some (.upTo offset) else none
  | some .writingClean => if inPlace then some (.ready offset) else none
  | some .writeDone | some .verifyPass => some .complete
  | some .otherWriting => none
  | _ => some .unknown

def Breakpoint.fileProgress (bp : Breakpoint) (part : PartitionEntry) : Option Progress :=
  FileState.progress (bp.curFile.offset = part.offset) bp.curFileWriteOffset
    (otaBreakpointGetFileState bp part.fileId)

/-- The file state that was set counts, unless there is no slot for it. -/
theorem fileProgress_set (bp : Breakpoint) (part : PartitionEntry) (state : FileState) :
    (otaBreakpointSetFileState bp part.fileId state).fileProgress part =
        FileState.progress (bp.curFile.offset = part.offset) bp.curFileWriteOffset (some state) ∨
      (otaBreakpointSetFileState bp part.fileId state).fileProgress part = some .unknown := by
  obtain ⟨slots, hset, hget⟩ := get_set bp part.fileId state
  rw [hset, Breakpoint.fileProgress]
  rcases hget with hget | hget
  · rw [hget]
    exact .inl rfl
  · rw [hget]
    exact .inr rfl

/-- What the record says. A record that is not in use has no state for the file, and one of an
upgrade that is over or has failed is followed by an erase. -/
def Breakpoint.progress (bp : Breakpoint) (part : PartitionEntry) : Option Progress :=
  match bp.state with
  | .upgradeDone | .writingImgFail => some .unknown
  | .unknown => if otaBreakpointGetFileState bp part.fileId = none then some .unknown else none
  | _ => bp.fileProgress part

namespace Setup

variable (S : Setup) {w₀ w w' : World} {changes changes' : List Change} {bp : Breakpoint}
  {f : Image}

/-- The file state is true of the flash. -/
def FileDescribes (bp : Breakpoint) (f : Image) : Prop :=
  ∃ p, bp.fileProgress S.part = some p ∧ p.Means S.target 4096 f

/-- The record is true of the flash. -/
def Describes (bp : Breakpoint) (f : Image) : Prop :=
  ∃ p, bp.progress S.part = some p ∧ p.Means S.target 4096 f

variable {S}

theorem FileDescribes.set {state : FileState} {p : Progress}
    (hp : FileState.progress (bp.curFile.offset = S.part.offset) bp.curFileWriteOffset
      (some state) = some p)
    (hmeans : p.Means S.target 4096 f) :
    S.FileDescribes (otaBreakpointSetFileState bp S.part.fileId state) f := by
  rcases fileProgress_set bp S.part state with heq | heq
  · exact ⟨p, heq.trans hp, hmeans⟩
  · exact ⟨.unknown, heq, trivial⟩

/-! ## The trail of an attempt -/

variable (S)

/-- The record that is saved is true of the flash. -/
def Sound (w : World) : Prop :=
  S.Describes (w.record S.fw) (S.chip w)

/-- What a change needs: only erased bytes are programmed, and the image is in place when it is
noted as written. -/
def Guard (w : World) (c : Change) : Prop :=
  (∀ op ∈ c.ops S.part.storageId, op.Blank (S.chip w)) ∧
    match c with
    | .writeDone _ => Holds (S.chip w) S.part.offset S.stored
    | _ => True

/-- The changes lead from one world to the other, and all goes well on the way. -/
structure Trail (w₀ w : World) (changes : List Change) : Prop where
  keeps : Keeps Change.apply S.Sound S.Guard w₀ changes
  world : changes.foldl Change.apply w₀ = w
  synced : w.record S.fw = w.otaBp

variable {S}

theorem Trail.sound (h : S.Trail w₀ w changes) : S.Sound w := by
  rw [← h.world]
  exact h.keeps.last

theorem trail_nil (h : S.Sound w) (hsynced : w.record S.fw = w.otaBp) : S.Trail w w [] :=
  ⟨h, rfl, hsynced⟩

theorem Trail.trans (h : S.Trail w₀ w changes) (h' : S.Trail w w' changes') :
    S.Trail w₀ w' (changes ++ changes') := by
  refine ⟨keeps_append.mpr ⟨h.keeps, ?_⟩, ?_, h'.synced⟩
  · rw [h.world]
    exact h'.keeps
  · rw [foldl_append, h.world, h'.world]

theorem Trail.snoc (h : S.Trail w₀ w changes) {c : Change} (hguard : S.Guard w c)
    (hsound : S.Sound (c.apply w)) (hsynced : (c.apply w).record S.fw = (c.apply w).otaBp) :
    S.Trail w₀ (c.apply w) (changes ++ [c]) :=
  h.trans ⟨⟨h.sound, hguard, hsound⟩, rfl, hsynced⟩

end Setup

end SpeakerFirmware.Ota.Upgrade
