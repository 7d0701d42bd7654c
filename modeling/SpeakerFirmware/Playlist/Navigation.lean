/-
# Moving in a playlist

`file_plist_iterator.c` keeps the number of files of each folder, and three counters for the
current track: its number in the whole list, its folder, and its number in that folder. All
the moves set the first one and find the other two from it.

A track is `Located` if the three belong together. `seek_eq` says that a located track is
determined by its number, so that every move is known by the number it leads to. The moves
return `none` if they look at a folder that is not there, which they never do.
-/

import Mathlib.Data.List.GetD
import Mathlib.Data.UInt

namespace SpeakerFirmware.Playlist

open List Option Nat

/-- The part of `play_list_t` that the scan of the disk leaves behind: `dir_file_count` for each
folder. Their number fits `folder_seq_num`, and the files can be counted in 16 bits. -/
structure PlayList where
  folderInfo : List Nat
  length_le : folderInfo.length ≤ 256
  sum_pos : 0 < folderInfo.sum
  sum_lt : folderInfo.sum < 65535

def PlayList.sumFileCount (plist : PlayList) : Nat :=
  plist.folderInfo.sum

/-- `sum_folder_count`, which is the index of the last folder. -/
def PlayList.sumFolderCount (plist : PlayList) : Nat :=
  plist.folderInfo.length - 1

/-- The counters of the current track, and the play mode. -/
structure Track where
  fileSeqNum : Nat
  folderSeqNum : Nat
  dirFileSeqNum : Nat
  mode : Nat
  deriving DecidableEq, Repr

/-- The loop that finds the folder of a file: the folder, and the number of the file in it. -/
def locateFrom (fileSeqNum : Nat) : List Nat → Nat → Nat → Option (Nat × Nat)
  | [], _, _ => none
  | dirFileCount :: rest, i, sumFile =>
    let sumFile := sumFile + dirFileCount
    if sumFile ≥ fileSeqNum then some (i, fileSeqNum - (sumFile - dirFileCount))
    else locateFrom fileSeqNum rest (i + 1) sumFile

variable (plist : PlayList) (track : Track)

/-- The end of all the functions that compute a track. -/
def relocate : Track :=
  match locateFrom track.fileSeqNum plist.folderInfo 0 0 with
  | some (i, dirFileSeqNum) =>
    { track with folderSeqNum := i % 256, dirFileSeqNum := dirFileSeqNum % 65536 }
  | none => track

def calcTrackNoPlaylistInfo (trackNo : Nat) : Track :=
  if trackNo = 0 ∨ trackNo > plist.sumFileCount then track
  else relocate plist { track with fileSeqNum := trackNo }

def calcNextPlaylistInfo (add : Bool) : Track :=
  let fileSeqNum :=
    if add then
      if track.fileSeqNum < plist.sumFileCount then track.fileSeqNum + 1 else 1
    else
      if track.fileSeqNum > 1 then track.fileSeqNum - 1 else plist.sumFileCount
  relocate plist { track with fileSeqNum }

/-- The loop `while (folder_info[--folder_seq_num]->dir_file_count == 0)`, with 8-bit indices. -/
def prevValidFolder (plist : PlayList) : Nat → Nat → Option Nat
  | 0, _ => none
  | fuel + 1, folderSeqNum =>
    let folderSeqNum := (folderSeqNum + 255) % 256
    match plist.folderInfo[folderSeqNum]? with
    | none => none
    | some 0 => prevValidFolder plist fuel folderSeqNum
    | some (_ + 1) => some folderSeqNum

def calcNextFolderPlaylistInfo (add : Bool) : Option Track :=
  if add then
    plist.folderInfo[track.folderSeqNum]?.map fun count =>
      let fileSeqNum := (track.fileSeqNum + 65536 - track.dirFileSeqNum + count + 1) % 65536
      -- the current folder is the last one
      let fileSeqNum := if fileSeqNum > plist.sumFileCount then 1 else fileSeqNum
      relocate plist { track with fileSeqNum }
  else
    let fileSeqNum := (track.fileSeqNum + 65536 - track.dirFileSeqNum) % 65536
    if fileSeqNum > 0 then
      (prevValidFolder plist 256 track.folderSeqNum).bind fun folderSeqNum =>
        plist.folderInfo[folderSeqNum]?.map fun count =>
          relocate plist
            { track with folderSeqNum, fileSeqNum := (fileSeqNum + 65536 - count + 1) % 65536 }
    else
      -- the current folder is the first one
      plist.folderInfo[plist.sumFolderCount]?.bind fun last =>
        (if last = 0 then prevValidFolder plist 256 plist.sumFolderCount
          else some plist.sumFolderCount).bind
          fun folderSeqNum =>
            plist.folderInfo[folderSeqNum]?.map fun count =>
              relocate plist
                { track with folderSeqNum, fileSeqNum :=
                  (plist.sumFileCount + 65536 - count + 1) % 65536 }

/-- What a move leaves behind: the track, and the folder and the position that
`file_dirname_get` is asked for, if it comes to that. -/
abbrev Moved := Track × Option (Nat × Nat)

/-- The end of a move whose directory reads succeed. -/
def opened (track : Track) : Moved :=
  (track, some (track.folderSeqNum, track.dirFileSeqNum))

/-- `file_iterator_set_track_no`. -/
def setTrackNo (trackNo : Nat) : Moved :=
  if trackNo = 0 ∨ trackNo > plist.sumFileCount then (track, none)
  else opened (calcTrackNoPlaylistInfo plist track trackNo)

/-- `file_iterator_set_mode`. -/
def setMode (track : Track) (mode : Nat) : Track :=
  { track with mode }

/-- `file_iterator_next_folder`. -/
def nextFolder : Option Moved :=
  (calcNextFolderPlaylistInfo plist track true).map opened

/-- `file_iterator_prev_folder`. -/
def prevFolder : Option Moved :=
  (calcNextFolderPlaylistInfo plist track false).map opened

def next (forceSwitch : Bool) : Option Moved :=
  -- no cycle in mode 2
  if track.mode = 2 ∧ track.fileSeqNum = plist.sumFileCount ∧ ¬ forceSwitch then some (track, none)
  else if track.mode = 3 then
    -- folder cycle in mode 3
    plist.folderInfo[track.folderSeqNum]?.map fun count =>
      let fileSeqNum :=
        if track.dirFileSeqNum ≥ count then (track.fileSeqNum + 65536 - track.dirFileSeqNum) % 65536
        else track.fileSeqNum
      opened (calcNextPlaylistInfo plist { track with fileSeqNum } true)
  else some (opened (calcNextPlaylistInfo plist track true))

def prev : Option Moved :=
  -- folder cycle in mode 3
  if track.mode = 3 ∧ track.dirFileSeqNum = 1 then
    plist.folderInfo[track.folderSeqNum]?.map fun count =>
      opened (calcNextPlaylistInfo plist
        { track with fileSeqNum := (track.fileSeqNum + count) % 65536 } false)
  else some (opened (calcNextPlaylistInfo plist track false))

/-- The moves. -/
inductive Move where
  | next (forceSwitch : Bool)
  | prev
  | nextFolder
  | prevFolder
  | setTrackNo (trackNo : Nat)
  | setMode (mode : Nat)
  deriving DecidableEq, Repr

def move : Move → Option Moved
  | .next forceSwitch => next plist track forceSwitch
  | .prev => prev plist track
  | .nextFolder => nextFolder plist track
  | .prevFolder => prevFolder plist track
  | .setTrackNo trackNo => some (setTrackNo plist track trackNo)
  | .setMode mode => some (setMode track mode, none)

/-- The track behind a sequence of moves. -/
def run (plist : PlayList) (track : Track) : List Move → Option Track
  | [] => some track
  | m :: moves => (move plist track m).bind fun moved => run plist moved.1 moves

/-! ## Where a track is -/

section

variable {plist : PlayList}

/-- The number of files in the folders before one. -/
def PlayList.before (plist : PlayList) (i : Nat) : Nat :=
  (plist.folderInfo.take i).sum

/-- The number of files in a folder. -/
def PlayList.count (plist : PlayList) (i : Nat) : Nat :=
  plist.folderInfo.getD i 0

/-- The counters belong together. -/
structure Located (plist : PlayList) (track : Track) : Prop where
  folder_lt : track.folderSeqNum < plist.folderInfo.length
  pos : 1 ≤ track.dirFileSeqNum
  le_count : track.dirFileSeqNum ≤ plist.count track.folderSeqNum
  seq_eq : track.fileSeqNum = plist.before track.folderSeqNum + track.dirFileSeqNum

theorem before_zero : plist.before 0 = 0 :=
  rfl

theorem before_length : plist.before plist.folderInfo.length = plist.sumFileCount := by
  rw [PlayList.before, take_length, PlayList.sumFileCount]

section

variable {i : Nat} (hi : i < plist.folderInfo.length)
include hi

theorem before_succ : plist.before (i + 1) = plist.before i + plist.count i := by
  rw [PlayList.before, take_add_one, List.sum_append, PlayList.before, PlayList.count,
    getD_eq_getElem?_getD, getElem?_eq_getElem hi]
  simp

theorem getElem?_folderInfo : plist.folderInfo[i]? = some (plist.count i) := by
  rw [PlayList.count, getD_eq_getElem _ _ hi, getElem?_eq_getElem hi]

end

theorem before_mono {i j : Nat} (hij : i ≤ j) (hj : j ≤ plist.folderInfo.length) :
    plist.before i ≤ plist.before j := by
  induction j, hij using le_induction with
  | base => exact le_refl _
  | succ j hij ih =>
    rw [before_succ hj]
    exact (ih (by omega)).trans (le_add_right _ _)

theorem before_le (i : Nat) (hi : i ≤ plist.folderInfo.length) :
    plist.before i ≤ plist.sumFileCount := by
  rw [← before_length]
  exact before_mono hi (le_refl _)

/-- The folders between two with the same number of files before them are empty. -/
theorem count_eq_zero {i j k : Nat} (heq : plist.before i = plist.before j) (hik : i ≤ k)
    (hkj : k < j) (hj : j ≤ plist.folderInfo.length) : plist.count k = 0 := by
  have hfirst := before_mono hik (show k ≤ plist.folderInfo.length by omega)
  have hnext : plist.before (k + 1) ≤ plist.before j := before_mono hkj hj
  rw [before_succ (show k < plist.folderInfo.length by omega)] at hnext
  omega

namespace Located

variable {track other : Track}

section

variable (h : Located plist track)
include h

theorem before_next :
    plist.before (track.folderSeqNum + 1) =
      plist.before track.folderSeqNum + plist.count track.folderSeqNum :=
  before_succ h.folder_lt

theorem seq_pos : 1 ≤ track.fileSeqNum := by
  rw [h.seq_eq]
  exact h.pos.trans (le_add_left _ _)

theorem folder_end_le :
    plist.before track.folderSeqNum + plist.count track.folderSeqNum ≤ plist.sumFileCount :=
  h.before_next ▸ before_le _ (succ_le_of_lt h.folder_lt)

theorem seq_le : track.fileSeqNum ≤ plist.sumFileCount := by
  rw [h.seq_eq]
  exact (Nat.add_le_add_left h.le_count _).trans h.folder_end_le

end

section

variable (h : Located plist track) (h' : Located plist other)
  (heq : track.fileSeqNum = other.fileSeqNum)
include h h' heq

/-- A file is in one folder only. -/
theorem folder_unique : track.folderSeqNum ≤ other.folderSeqNum := by
  by_contra hlt
  have hmono := before_mono (succ_le_of_lt (not_le.mp hlt)) h.folder_lt.le
  rw [succ_eq_add_one, h'.before_next] at hmono
  have hseq := h.seq_eq
  have hseq' := h'.seq_eq
  have hpos := h.pos
  have hcount := h'.le_count
  omega

/-- A located track is determined by its number and the mode. -/
theorem ext (hmode : track.mode = other.mode) : track = other := by
  have hfolder := (h.folder_unique h' heq).antisymm (h'.folder_unique h heq.symm)
  have hseq := h.seq_eq
  have hseq' := h'.seq_eq
  rw [hfolder] at hseq
  obtain ⟨q, f, d, m⟩ := track
  obtain ⟨q', f', d', m'⟩ := other
  dsimp only at *
  subst heq hfolder hmode
  congr 1
  omega

end

end Located

/-- The loop finds the folder whose files the number falls into. -/
theorem locateFrom_spec {fileSeqNum : Nat} (counts : List Nat) (i sumFile : Nat)
    (hlo : sumFile < fileSeqNum) (hhi : fileSeqNum ≤ sumFile + counts.sum) :
    ∃ k, k < counts.length ∧ sumFile + (counts.take k).sum < fileSeqNum ∧
      fileSeqNum ≤ sumFile + (counts.take k).sum + counts.getD k 0 ∧
      locateFrom fileSeqNum counts i sumFile =
        some (i + k, fileSeqNum - (sumFile + (counts.take k).sum)) := by
  induction counts generalizing i sumFile with
  | nil =>
    rw [sum_nil] at hhi
    omega
  | cons count counts ih =>
    rw [sum_cons] at hhi
    rw [locateFrom]
    split
    · next hin =>
        refine ⟨0, succ_pos _, ?_, ?_, ?_⟩
        · simpa using hlo
        · simpa using hin
        · simp
    · next hout =>
        obtain ⟨k, hk, hlt, hle, heq⟩ := ih (i + 1) (sumFile + count) (by omega) (by omega)
        refine ⟨k + 1, succ_lt_succ hk, ?_, ?_, ?_⟩
        · rw [take_succ_cons, sum_cons]
          omega
        · rw [take_succ_cons, sum_cons, getD_cons_succ]
          omega
        · rw [heq, take_succ_cons, sum_cons]
          congr 2
          · omega
          · omega

/-- `relocate` puts the counters right for every number of the list. -/
theorem located_relocate {track : Track} (hpos : 1 ≤ track.fileSeqNum)
    (hle : track.fileSeqNum ≤ plist.sumFileCount) :
    Located plist (relocate plist track) ∧ (relocate plist track).fileSeqNum = track.fileSeqNum ∧
      (relocate plist track).mode = track.mode := by
  obtain ⟨k, hk, hlt, hcount, heq⟩ :=
    locateFrom_spec plist.folderInfo 0 0 hpos (hle.trans_eq (zero_add _).symm)
  have hlength := plist.length_le
  have hsum := plist.sum_lt
  rw [PlayList.sumFileCount] at hle
  rw [zero_add] at hlt hcount
  rw [zero_add, zero_add] at heq
  rw [relocate, heq]
  refine ⟨?_, rfl, rfl⟩
  have hfolder : k % 256 = k := mod_eq_of_lt (by omega)
  have hdir : (track.fileSeqNum - (plist.folderInfo.take k).sum) % 65536 =
      track.fileSeqNum - (plist.folderInfo.take k).sum := mod_eq_of_lt (by omega)
  dsimp only
  rw [hfolder, hdir]
  refine ⟨hk, ?_, ?_, ?_⟩
  · dsimp only
    omega
  · dsimp only [PlayList.count]
    omega
  · dsimp only [PlayList.before]
    omega

/-- The located track with a number. -/
def seek (plist : PlayList) (track : Track) (fileSeqNum : Nat) : Track :=
  relocate plist { track with fileSeqNum }

theorem located_seek {fileSeqNum : Nat} (hpos : 1 ≤ fileSeqNum)
    (hle : fileSeqNum ≤ plist.sumFileCount) (track : Track) :
    Located plist (seek plist track fileSeqNum) ∧
      (seek plist track fileSeqNum).fileSeqNum = fileSeqNum ∧
      (seek plist track fileSeqNum).mode = track.mode :=
  @located_relocate plist { track with fileSeqNum } hpos hle

/-- Finding the counters for a number gives the track that has them. -/
theorem seek_eq {track other : Track} (h : Located plist other) (hmode : track.mode = other.mode) :
    seek plist track other.fileSeqNum = other := by
  obtain ⟨hlocated, hseq, hsame⟩ := located_seek h.seq_pos h.seq_le track
  exact hlocated.ext h hseq (hsame.trans hmode)

/-- The track at a place of a folder. -/
theorem seek_before {f d : Nat} (hf : f < plist.folderInfo.length) (hpos : 1 ≤ d)
    (hle : d ≤ plist.count f) (track : Track) : seek plist track (plist.before f + d) =
      ⟨plist.before f + d, f, d, track.mode⟩ :=
  @seek_eq plist track ⟨plist.before f + d, f, d, track.mode⟩ ⟨hf, hpos, hle, rfl⟩ rfl

/-! ## One file on -/

variable {track : Track}

theorem calcNext_true (fileSeqNum : Nat) :
    calcNextPlaylistInfo plist { track with fileSeqNum } true =
      seek plist track (if fileSeqNum < plist.sumFileCount then fileSeqNum + 1 else 1) :=
  rfl

theorem calcNext_false (fileSeqNum : Nat) :
    calcNextPlaylistInfo plist { track with fileSeqNum } false =
      seek plist track (if fileSeqNum > 1 then fileSeqNum - 1 else plist.sumFileCount) :=
  rfl

/-- The cyclic successor and predecessor of a track in the whole list. -/
def nextNumber (plist : PlayList) (fileSeqNum : Nat) : Nat :=
  if fileSeqNum = plist.sumFileCount then 1 else fileSeqNum + 1

def prevNumber (plist : PlayList) (fileSeqNum : Nat) : Nat :=
  if fileSeqNum = 1 then plist.sumFileCount else fileSeqNum - 1

/-- The cyclic successor and predecessor of a file in its folder. -/
def nextInFolder (count dirFileSeqNum : Nat) : Nat :=
  if dirFileSeqNum = count then 1 else dirFileSeqNum + 1

def prevInFolder (count dirFileSeqNum : Nat) : Nat :=
  if dirFileSeqNum = 1 then count else dirFileSeqNum - 1

/-- Mode 2 stops at the last track. -/
def Stops (plist : PlayList) (track : Track) (forceSwitch : Bool) : Prop :=
  track.mode = 2 ∧ track.fileSeqNum = plist.sumFileCount ∧ ¬ forceSwitch

theorem next_of_stops {forceSwitch : Bool} (hstops : Stops plist track forceSwitch) :
    next plist track forceSwitch = some (track, none) :=
  if_pos hstops

section

variable (h : Located plist track) (hmode : track.mode ≠ 3)
include h hmode

/-- Outside the folder cycle, `next` goes to the next number. -/
theorem next_eq {forceSwitch : Bool} (hstops : ¬ Stops plist track forceSwitch) :
    next plist track forceSwitch =
      some (opened (seek plist track (nextNumber plist track.fileSeqNum))) := by
  have hle := h.seq_le
  have hnumber : (if track.fileSeqNum < plist.sumFileCount then track.fileSeqNum + 1 else 1) =
      nextNumber plist track.fileSeqNum := by
    rw [nextNumber]
    split <;> split <;> omega
  rw [Stops] at hstops
  rw [next, if_neg hstops, if_neg hmode, ← hnumber]
  rfl

/-- Outside the folder cycle, `prev` goes to the number before. -/
theorem prev_eq :
    prev plist track = some (opened (seek plist track (prevNumber plist track.fileSeqNum))) := by
  have hpos := h.seq_pos
  have hnumber : (if track.fileSeqNum > 1 then track.fileSeqNum - 1 else plist.sumFileCount) =
      prevNumber plist track.fileSeqNum := by
    rw [prevNumber]
    split <;> split <;> omega
  rw [prev, if_neg fun hcycle => hmode hcycle.1, ← hnumber]
  rfl

end

/-- The place of a track in its folder. -/
def inFolder (plist : PlayList) (track : Track) (dirFileSeqNum : Nat) : Track :=
  ⟨plist.before track.folderSeqNum + dirFileSeqNum, track.folderSeqNum, dirFileSeqNum, track.mode⟩

section

variable (h : Located plist track)
include h

theorem located_inFolder {d : Nat} (hpos : 1 ≤ d)
    (hle : d ≤ plist.count track.folderSeqNum) : Located plist (inFolder plist track d) :=
  ⟨h.folder_lt, hpos, hle, rfl⟩

/-- The first number of the folder cycle is reached through the number before it, which may be
zero. -/
theorem next_mode_three (hmode : track.mode = 3) (forceSwitch : Bool) :
    next plist track forceSwitch = some (opened (inFolder plist track
      (nextInFolder (plist.count track.folderSeqNum) track.dirFileSeqNum))) := by
  have hpos := h.pos
  have hcount := h.le_count
  have hseq := h.seq_eq
  have hle := h.folder_end_le
  have hsum : plist.sumFileCount < 65535 := plist.sum_lt
  rw [next, if_neg (by rw [hmode]; omega), if_pos hmode, getElem?_folderInfo h.folder_lt, map_some]
  dsimp only
  rw [calcNext_true, nextInFolder]
  congr 2
  by_cases hlast : track.dirFileSeqNum = plist.count track.folderSeqNum
  · rw [if_pos hlast, if_pos hlast.ge,
      show (track.fileSeqNum + 65536 - track.dirFileSeqNum) % 65536 =
      plist.before track.folderSeqNum by omega, if_pos (by omega)]
    exact seek_before h.folder_lt (le_refl _) (by omega) track
  · rw [if_neg hlast, if_neg (show ¬ track.dirFileSeqNum ≥ plist.count track.folderSeqNum by omega),
      if_pos (by omega), hseq, add_assoc]
    exact seek_before h.folder_lt (by omega) (by omega) track

/-- The last number of the folder cycle is reached through the number behind it. -/
theorem prev_mode_three (hmode : track.mode = 3) :
    prev plist track = some (opened (inFolder plist track
      (prevInFolder (plist.count track.folderSeqNum) track.dirFileSeqNum))) := by
  have hpos := h.pos
  have hcount := h.le_count
  have hseq := h.seq_eq
  have hle := h.folder_end_le
  have hsum : plist.sumFileCount < 65535 := plist.sum_lt
  rw [prev, prevInFolder]
  by_cases hfirst : track.dirFileSeqNum = 1
  · rw [if_pos ⟨hmode, hfirst⟩, if_pos hfirst, getElem?_folderInfo h.folder_lt, map_some,
      calcNext_false,
      mod_eq_of_lt (by omega), if_pos (by omega),
        show track.fileSeqNum + plist.count track.folderSeqNum - 1 =
      plist.before track.folderSeqNum + plist.count track.folderSeqNum by omega]
    congr 2
    exact seek_before h.folder_lt (by omega) (le_refl _) track
  · rw [if_neg fun hcycle => hfirst hcycle.2, if_neg hfirst]
    congr 2
    have hcalc : calcNextPlaylistInfo plist track false = _ := calcNext_false track.fileSeqNum
    rw [hcalc, if_pos (by omega), show track.fileSeqNum - 1 =
      plist.before track.folderSeqNum + (track.dirFileSeqNum - 1) by omega]
    exact seek_before h.folder_lt (by omega) (by omega) track

end

/-! ## One folder on -/

/-- The first folder with files behind one, going round. -/
def NextFolder (plist : PlayList) (f g : Nat) : Prop :=
  ∃ k, 1 ≤ k ∧ k ≤ plist.folderInfo.length ∧ g = (f + k) % plist.folderInfo.length ∧
    0 < plist.count g ∧
    ∀ j, 1 ≤ j → j < k → plist.count ((f + j) % plist.folderInfo.length) = 0

theorem nextFolder_of_lt {f g : Nat} (hlt : f < g) (hg : g < plist.folderInfo.length)
    (hfiles : 0 < plist.count g)
    (hempty : ∀ k, f < k → k < g → plist.count k = 0) : NextFolder plist f g := by
  refine ⟨g - f, by omega, by omega, ?_, hfiles, fun j hj hjk => ?_⟩
  · rw [Nat.add_sub_cancel' hlt.le, Nat.mod_eq_of_lt hg]
  · rw [Nat.mod_eq_of_lt (by omega)]
    exact hempty _ (by omega) (by omega)

/-- The way round the end of the list. -/
theorem nextFolder_of_ge {f g : Nat} (hle : g ≤ f) (hf : f < plist.folderInfo.length)
    (hfiles : 0 < plist.count g)
    (hbehind : ∀ k, f < k → k < plist.folderInfo.length → plist.count k = 0)
    (hahead : ∀ k, k < g → plist.count k = 0) : NextFolder plist f g := by
  refine ⟨plist.folderInfo.length - f + g, by omega, by omega, ?_, hfiles, fun j hj hjk => ?_⟩
  · rw [show f + (plist.folderInfo.length - f + g) = g + plist.folderInfo.length by
      omega, add_mod_right,
      mod_eq_of_lt (by omega)]
  · rcases lt_or_ge (f + j) plist.folderInfo.length with hin | hout
    · rw [mod_eq_of_lt hin]
      exact hbehind _ (by omega) hin
    · rw [mod_eq_sub_mod hout, mod_eq_of_lt (by omega)]
      exact hahead _ (by omega)

/-- The first file of a folder. -/
def firstFile (plist : PlayList) (folderSeqNum mode : Nat) : Track :=
  ⟨plist.before folderSeqNum + 1, folderSeqNum, 1, mode⟩

/-- The file behind all the files of some folders is the first one of the next folder with files. -/
theorem exists_firstFile {i : Nat} (hi : i ≤ plist.folderInfo.length)
    (hlt : plist.before i < plist.sumFileCount) (track : Track) :
    ∃ g, i ≤ g ∧ g < plist.folderInfo.length ∧ plist.before g = plist.before i ∧ 0 < plist.count g ∧
      seek plist track (plist.before i + 1) = firstFile plist g track.mode := by
  obtain ⟨hlocated, hseq, -⟩ := located_seek (succ_pos (plist.before i)) hlt track
  obtain ⟨hfolder, hpos, hcount, hnumber⟩ := hlocated
  rw [hseq, succ_eq_add_one] at hnumber
  generalize (seek plist track (plist.before i).succ).folderSeqNum = g at *
  generalize (seek plist track (plist.before i).succ).dirFileSeqNum = d at *
  have hge : i ≤ g := by
    by_contra hbelow
    have hmono := before_mono (show g + 1 ≤ i by omega) hi
    rw [before_succ hfolder] at hmono
    omega
  have hbefore := before_mono hge hfolder.le
  refine ⟨g, hge, hfolder, by omega, by omega, ?_⟩
  rw [show plist.before i + 1 = plist.before g + 1 by omega]
  exact seek_before hfolder (le_refl _) (by omega) track

/-- `next_folder` goes to the first file of the next folder with files. -/
theorem nextFolder_eq (h : Located plist track) :
    ∃ g, g < plist.folderInfo.length ∧ NextFolder plist track.folderSeqNum g ∧
      nextFolder plist track = some (opened (firstFile plist g track.mode)) := by
  have hpos := h.pos
  have hcount := h.le_count
  have hseq := h.seq_eq
  have hfolder := h.folder_lt
  have hle := h.folder_end_le
  have hsum : plist.sumFileCount < 65535 := plist.sum_lt
  have hnext := h.before_next
  have hnumber :
      (track.fileSeqNum + 65536 - track.dirFileSeqNum + plist.count track.folderSeqNum + 1) %
      65536 =
      plist.before (track.folderSeqNum + 1) + 1 := by
    omega
  have hmove : nextFolder plist track = some (opened (seek plist track
      (if plist.before (track.folderSeqNum + 1) + 1 > plist.sumFileCount then 1
        else plist.before (track.folderSeqNum + 1) + 1))) := by
    rw [nextFolder, calcNextFolderPlaylistInfo, if_pos rfl, getElem?_folderInfo hfolder, map_some]
    dsimp only
    rw [hnumber]
    rfl
  rw [hmove]
  rcases lt_or_ge (plist.before (track.folderSeqNum + 1)) plist.sumFileCount with hmore | hlast
  · obtain ⟨g, hge, hg, hbefore, hfiles, hfirst⟩ :=
      exists_firstFile (succ_le_of_lt hfolder) hmore track
    refine ⟨g, hg, nextFolder_of_lt hge hg hfiles fun k hk hkg => ?_, ?_⟩
    · exact count_eq_zero hbefore.symm hk hkg hg.le
    · rw [if_neg (by omega)]
      exact congrArg (fun t => some (opened t)) hfirst
  · -- behind the last files the first ones come again
    obtain ⟨g, -, hg, hbefore, hfiles, hfirst⟩ := exists_firstFile (zero_le _) plist.sum_pos track
    have hend : plist.before (track.folderSeqNum + 1) = plist.before plist.folderInfo.length := by
      rw [before_length]
      omega
    have hgf : g ≤ track.folderSeqNum := by
      by_contra hbehind
      have hmono := before_mono (show track.folderSeqNum + 1 ≤ g by omega) hg.le
      rw [hend, before_length, hbefore, before_zero] at hmono
      exact absurd hmono (not_le.mpr plist.sum_pos)
    refine ⟨g, hg, nextFolder_of_ge hgf hfolder hfiles (fun k hk hkl => ?_) (fun k hk => ?_), ?_⟩
    · exact count_eq_zero hend hk hkl (le_refl _)
    · exact count_eq_zero hbefore.symm (zero_le _) hk hg.le
    · rw [if_pos (by omega)]
      exact congrArg (fun t => some (opened t)) hfirst

/-- Empty folders do not change the number of files before. -/
theorem before_eq {i j : Nat} (hij : i ≤ j) (hj : j ≤ plist.folderInfo.length)
    (hempty : ∀ k, i ≤ k → k < j → plist.count k = 0) : plist.before i = plist.before j := by
  induction j, hij using le_induction with
  | base => rfl
  | succ j hij ih =>
    rw [before_succ hj, hempty j hij (lt_succ_self j), add_zero]
    exact ih (by omega) fun k hk hkj => hempty k hk (by omega)

/-- The loop backwards stops at the last folder with files, if there is one below. -/
theorem prevValidFolder_eq {f : Nat} (hf : f ≤ 255) (hlength : f ≤ plist.folderInfo.length)
    (hfiles : 0 < plist.before f) {fuel : Nat} (hfuel : f ≤ fuel) :
    ∃ g, prevValidFolder plist fuel f = some g ∧ g < f ∧ 0 < plist.count g ∧
      ∀ k, g < k → k < f → plist.count k = 0 := by
  induction f generalizing fuel with
  | zero => exact absurd hfiles (lt_irrefl 0)
  | succ f ih =>
    obtain ⟨fuel, rfl⟩ := exists_eq_succ_of_ne_zero (show fuel ≠ 0 by omega)
    have hback : (f + 1 + 255) % 256 = f := by omega
    rw [before_succ hlength] at hfiles
    rw [prevValidFolder, hback, getElem?_folderInfo hlength]
    cases hcount : plist.count f with
    | zero =>
      obtain ⟨g, heq, hg, hpos, hempty⟩ :=
        ih (by omega) (by omega) (by omega) (le_of_succ_le_succ hfuel)
      refine ⟨g, heq, by omega, hpos, fun k hk hkf => ?_⟩
      rcases lt_or_ge k f with hlt | hge
      · exact hempty k hk hlt
      · rw [show k = f by omega]
        exact hcount
    | succ count => exact ⟨f, rfl, lt_succ_self f, by omega, fun k hk hkf => by omega⟩

/-- The last folder with files, found from the end. -/
theorem lastFolder_eq (plist : PlayList) :
    ∃ g, (if plist.count plist.sumFolderCount = 0
      then prevValidFolder plist 256 plist.sumFolderCount
        else some plist.sumFolderCount) = some g ∧ g < plist.folderInfo.length ∧ 0 < plist.count g ∧
      ∀ k, g < k → k < plist.folderInfo.length → plist.count k = 0 := by
  have hlength := plist.length_le
  have hsome : plist.folderInfo ≠ [] := by
    intro hnil
    have hpos := plist.sum_pos
    rw [hnil, sum_nil] at hpos
    exact lt_irrefl 0 hpos
  have hpos := length_pos_iff.mpr hsome
  have hlast : plist.sumFolderCount + 1 = plist.folderInfo.length := by
    rw [PlayList.sumFolderCount]
    omega
  split
  · next hzero =>
      have hfiles : 0 < plist.before plist.sumFolderCount := by
        have htotal : plist.before plist.folderInfo.length = plist.sumFileCount := before_length
        rw [← hlast, before_succ (by omega), hzero, add_zero] at htotal
        rw [htotal]
        exact plist.sum_pos
      obtain ⟨g, heq, hg, hcount, hempty⟩ :=
        prevValidFolder_eq (show plist.sumFolderCount ≤ 255 by omega) (by omega)
        hfiles (show plist.sumFolderCount ≤ 256 by omega)
      refine ⟨g, heq, by omega, hcount, fun k hk hkl => ?_⟩
      rcases lt_or_ge k plist.sumFolderCount with hlt | hge
      · exact hempty k hk hlt
      · rw [show k = plist.sumFolderCount by omega]
        exact hzero
  · next hfiles => exact ⟨_, rfl, by omega, Nat.pos_of_ne_zero hfiles, fun k hk hkl => by omega⟩

/-- `prev_folder` goes to the first file of the folder with files before. -/
theorem prevFolder_eq (h : Located plist track) :
    ∃ g, g < plist.folderInfo.length ∧ 0 < plist.count g ∧ NextFolder plist g track.folderSeqNum ∧
      prevFolder plist track = some (opened (firstFile plist g track.mode)) := by
  have hpos := h.pos
  have hcount := h.le_count
  have hseq := h.seq_eq
  have hfolder := h.folder_lt
  have hlength := plist.length_le
  have hsum : plist.sumFileCount < 65535 := plist.sum_lt
  have hbeforeLe := before_le _ hfolder.le
  have hnumber : (track.fileSeqNum + 65536 - track.dirFileSeqNum) % 65536 =
      plist.before track.folderSeqNum := by
    omega
  -- the first number of a folder, from the number of files up to its end
  have hfirst : ∀ {g total : Nat}, g < plist.folderInfo.length → 0 < plist.count g →
      total = plist.before g + plist.count g → total ≤ plist.sumFileCount →
      relocate plist { track with folderSeqNum := g, fileSeqNum :=
        (total + 65536 - plist.count g + 1) % 65536 } =
        firstFile plist g track.mode := by
    intro g total hg hfiles htotal hle
    rw [show (total + 65536 - plist.count g + 1) % 65536 = plist.before g + 1 by omega]
    exact seek_before hg (le_refl _) hfiles { track with folderSeqNum := g }
  rw [prevFolder, calcNextFolderPlaylistInfo, if_neg Bool.false_ne_true]
  dsimp only
  rw [hnumber]
  split
  · next hsome =>
      obtain ⟨g, heq, hgf, hfiles, hempty⟩ :=
        prevValidFolder_eq (show track.folderSeqNum ≤ 255 by omega) hfolder.le
        hsome (show track.folderSeqNum ≤ 256 by omega)
      have hg : g < plist.folderInfo.length := by omega
      have hbefore := before_eq (show g + 1 ≤ track.folderSeqNum by omega) hfolder.le
        fun k hk hkf => hempty k (by omega) hkf
      rw [before_succ hg] at hbefore
      refine ⟨g, hg, hfiles, nextFolder_of_lt hgf hfolder (by omega) hempty, ?_⟩
      rw [heq, bind_some, getElem?_folderInfo hg, map_some, hfirst hg hfiles hbefore.symm hbeforeLe]
      rfl
  · next hnone =>
      obtain ⟨g, heq, hg, hfiles, hempty⟩ := lastFolder_eq plist
      have hbefore := before_eq (show g + 1 ≤ plist.folderInfo.length from hg) (le_refl _)
        fun k hk hkf => hempty k (by omega) hkf
      rw [before_succ hg, before_length] at hbefore
      have hfg : track.folderSeqNum ≤ g := by
        by_contra hbehind
        have hzero := hempty _ (not_le.mp hbehind) hfolder
        omega
      refine ⟨g, hg, hfiles, nextFolder_of_ge hfg hg (by omega) hempty fun k hk => ?_, ?_⟩
      · have hzero : plist.before 0 = plist.before track.folderSeqNum := by
          rw [before_zero]
          omega
        exact count_eq_zero hzero (zero_le _) hk hfolder.le
      · rw [getElem?_folderInfo (show plist.sumFolderCount < plist.folderInfo.length by
          rw [PlayList.sumFolderCount]; omega), bind_some, heq, bind_some, getElem?_folderInfo hg,
          map_some, hfirst hg hfiles hbefore.symm (le_refl _)]
        rfl

/-! ## Sequences of moves -/

section

variable {count d : Nat} (hpos : 1 ≤ d) (hle : d ≤ count)
include hpos hle

theorem nextInFolder_range : 1 ≤ nextInFolder count d ∧ nextInFolder count d ≤ count := by
  rw [nextInFolder]
  split <;> omega

theorem prevInFolder_range : 1 ≤ prevInFolder count d ∧ prevInFolder count d ≤ count := by
  rw [prevInFolder]
  split <;> omega

end

theorem located_firstFile {g : Nat} (hg : g < plist.folderInfo.length) (hfiles : 0 < plist.count g)
    (mode : Nat) :
    Located plist (firstFile plist g mode) :=
  ⟨hg, le_refl _, hfiles, rfl⟩

/-- Every move looks only at folders that are there, and leads to a located track. -/
theorem Located.move (h : Located plist track) (m : Move) :
    ∃ moved, Playlist.move plist track m = some moved ∧ Located plist moved.1 := by
  cases m with
  | next forceSwitch =>
    by_cases hstops : Stops plist track forceSwitch
    · exact ⟨_, next_of_stops hstops, h⟩
    · by_cases hmode : track.mode = 3
      · have hrange := nextInFolder_range h.pos h.le_count
        exact ⟨_, next_mode_three h hmode forceSwitch, located_inFolder h hrange.1 hrange.2⟩
      · have hrange := nextInFolder_range h.seq_pos h.seq_le
        exact ⟨_, next_eq h hmode hstops, (located_seek hrange.1 hrange.2 track).1⟩
  | prev =>
    by_cases hmode : track.mode = 3
    · have hrange := prevInFolder_range h.pos h.le_count
      exact ⟨_, prev_mode_three h hmode, located_inFolder h hrange.1 hrange.2⟩
    · have hrange := prevInFolder_range h.seq_pos h.seq_le
      exact ⟨_, prev_eq h hmode, (located_seek hrange.1 hrange.2 track).1⟩
  | nextFolder =>
    obtain ⟨g, hg, ⟨k, -, -, -, hfiles, -⟩, heq⟩ := nextFolder_eq h
    exact ⟨_, heq, located_firstFile hg hfiles _⟩
  | prevFolder =>
    obtain ⟨g, hg, hfiles, -, heq⟩ := prevFolder_eq h
    exact ⟨_, heq, located_firstFile hg hfiles _⟩
  | setTrackNo trackNo =>
    refine ⟨_, rfl, ?_⟩
    rw [setTrackNo, calcTrackNoPlaylistInfo]
    split
    · exact h
    · next hin =>
        exact (located_seek (show 1 ≤ trackNo by omega) (by omega) track).1
  | setMode mode => exact ⟨_, rfl, h.folder_lt, h.pos, h.le_count, h.seq_eq⟩

theorem Located.run (h : Located plist track) (moves : List Move) :
    ∃ last, Playlist.run plist track moves = some last ∧ Located plist last := by
  induction moves generalizing track with
  | nil => exact ⟨track, rfl, h⟩
  | cons m moves ih =>
    obtain ⟨moved, heq, hmoved⟩ := h.move m
    rw [Playlist.run, heq, bind_some]
    exact ih hmoved

/-- `next` and `prev` are the cyclic successor and its inverse on the numbers of the list. -/
def CyclesInList (plist : PlayList) (track : Track) : Prop :=
  ∀ forceSwitch, ∃ after earlier,
    next plist track forceSwitch = some (opened after) ∧
      after.fileSeqNum = nextNumber plist track.fileSeqNum ∧
        prev plist after = some (opened track) ∧
    prev plist track = some (opened earlier) ∧
      earlier.fileSeqNum = prevNumber plist track.fileSeqNum ∧
        next plist earlier forceSwitch = some (opened track)

/-- `next` and `prev` are the cyclic successor and its inverse inside the current folder. -/
def CyclesInFolder (plist : PlayList) (track : Track) : Prop :=
  ∀ forceSwitch, ∃ after earlier,
    next plist track forceSwitch = some (opened after) ∧ after.folderSeqNum = track.folderSeqNum ∧
      after.dirFileSeqNum = nextInFolder (plist.count track.folderSeqNum) track.dirFileSeqNum ∧
      prev plist after = some (opened track) ∧
    prev plist track = some (opened earlier) ∧ earlier.folderSeqNum = track.folderSeqNum ∧
      earlier.dirFileSeqNum = prevInFolder (plist.count track.folderSeqNum) track.dirFileSeqNum ∧
      next plist earlier forceSwitch = some (opened track)

/-- `next_folder` and `prev_folder` go to the first file of the folder with files behind and
before. -/
def CyclesFolders (plist : PlayList) (track : Track) : Prop :=
  ∃ after earlier,
    nextFolder plist track = some (opened after) ∧ after.dirFileSeqNum = 1 ∧
      NextFolder plist track.folderSeqNum after.folderSeqNum ∧
    prevFolder plist track = some (opened earlier) ∧ earlier.dirFileSeqNum = 1 ∧
      0 < plist.count earlier.folderSeqNum ∧
        NextFolder plist earlier.folderSeqNum track.folderSeqNum

theorem prevInFolder_nextInFolder {count d : Nat} (hpos : 1 ≤ d) :
    prevInFolder count (nextInFolder count d) = d := by
  rw [nextInFolder, prevInFolder]
  split <;> split <;> omega

theorem nextInFolder_prevInFolder {count d : Nat} (hpos : 1 ≤ d) (hle : d ≤ count) :
    nextInFolder count (prevInFolder count d) = d := by
  rw [prevInFolder, nextInFolder]
  split <;> split <;> omega

section

variable (h : Located plist track)
include h

theorem Located.cyclesInList (hmode : track.mode = 0) : CyclesInList plist track := by
  intro forceSwitch
  have hzero : (0 : Nat) ≠ 3 := by decide
  have hgoes : ∀ {t : Track}, t.mode = 0 → ¬ Stops plist t forceSwitch := fun ht hstops =>
    absurd (ht.symm.trans hstops.1) (by decide)
  have hafter : 1 ≤ nextNumber plist _ ∧ _ := nextInFolder_range h.seq_pos h.seq_le
  have hearlier : 1 ≤ prevNumber plist _ ∧ _ := prevInFolder_range h.seq_pos h.seq_le
  obtain ⟨hlocated, hseq, hsame⟩ := located_seek hafter.1 hafter.2 track
  obtain ⟨hlocated', hseq', hsame'⟩ := located_seek hearlier.1 hearlier.2 track
  refine ⟨_, _, next_eq h (hmode ▸ hzero) (hgoes hmode), hseq, ?_, prev_eq h (hmode ▸ hzero), hseq',
    ?_⟩
  · have hback : prevNumber plist (nextNumber plist _) = _ := prevInFolder_nextInFolder h.seq_pos
    rw [prev_eq hlocated (by rw [hsame, hmode]; exact hzero), hseq, hback, seek_eq h hsame]
  · have hback : nextNumber plist (prevNumber plist _) = _ :=
      nextInFolder_prevInFolder h.seq_pos h.seq_le
    rw [next_eq hlocated' (by rw [hsame', hmode]; exact hzero) (hgoes (hsame'.trans hmode)), hseq',
      hback,
      seek_eq h hsame']

theorem Located.cyclesInFolder (hmode : track.mode = 3) : CyclesInFolder plist track := by
  intro forceSwitch
  have hafter := nextInFolder_range h.pos h.le_count
  have hearlier := prevInFolder_range h.pos h.le_count
  refine ⟨_, _, next_mode_three h hmode forceSwitch, rfl, rfl, ?_, prev_mode_three h hmode, rfl,
    rfl, ?_⟩
  · rw [prev_mode_three (located_inFolder h hafter.1 hafter.2) hmode]
    dsimp only [inFolder]
    rw [prevInFolder_nextInFolder h.pos, ← h.seq_eq]
  · rw [next_mode_three (located_inFolder h hearlier.1 hearlier.2) hmode]
    dsimp only [inFolder]
    rw [nextInFolder_prevInFolder h.pos h.le_count, ← h.seq_eq]

theorem Located.cyclesFolders : CyclesFolders plist track := by
  obtain ⟨g, -, hnext, heq⟩ := nextFolder_eq h
  obtain ⟨g', -, hfiles, hprev, heq'⟩ := prevFolder_eq h
  exact ⟨_, _, heq, rfl, hnext, heq', rfl, hfiles, hprev⟩

end

/-- After any sequence of moves from a located track, the counters belong together, and the moves
from there are the ones a listener expects; none of them looks at a folder that is not there. -/
theorem navigation_consistent (plist : PlayList) {start : Track} (h : Located plist start)
    (moves : List Move) :
    ∃ track, run plist start moves = some track ∧ Located plist track ∧
      1 ≤ track.fileSeqNum ∧ track.fileSeqNum ≤ plist.sumFileCount ∧
      (track.mode = 0 → CyclesInList plist track) ∧ (track.mode = 3 → CyclesInFolder plist track) ∧
      CyclesFolders plist track ∧ ∀ m, ∃ moved, move plist track m = some moved := by
  obtain ⟨track, hrun, hlocated⟩ := h.run moves
  exact ⟨track, hrun, hlocated, hlocated.seq_pos, hlocated.seq_le, hlocated.cyclesInList,
    hlocated.cyclesInFolder,
    hlocated.cyclesFolders, fun m => (hlocated.move m).imp fun _ hmoved => hmoved.1⟩

/-- Three folders, the second one empty. -/
theorem navigation_consistent_three_folders :
    let plist : PlayList := ⟨[2, 0, 3], by decide, by decide, by decide⟩
    Located plist ⟨3, 2, 1, 0⟩ ∧
      ∃ track, run plist ⟨3, 2, 1, 0⟩ [.prevFolder, .setMode 3, .prev, .nextFolder] = some track ∧
        Located plist track := by
  intro plist
  have hstart : Located plist ⟨3, 2, 1, 0⟩ := ⟨by decide, by decide, by decide, by decide⟩
  obtain ⟨track, hrun, hlocated, -⟩ :=
    navigation_consistent plist hstart [.prevFolder, .setMode 3, .prev, .nextFolder]
  exact ⟨hstart, track, hrun, hlocated⟩

end

end SpeakerFirmware.Playlist
