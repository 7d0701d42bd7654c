/-
# Playing what the scan has counted

`file_dirname_get` finds a file by reading its directory again, with filters of its own: it
asks the match function about the name alone, and it leaves out neither hidden names nor
paths that are too long. The match function does not tell a path from the name at its end
(`matchFn_append`), so a file that the scan counts is one that is found. The other way
round there are files that only the second reading sees, and they shift the positions of
those behind them. `Aligned` is the directories in which that does not happen.
-/

import SpeakerFirmware.Playlist.Scan
import SpeakerFirmware.Playlist.Navigation

namespace SpeakerFirmware.Playlist

open DoWhile
open List Nat

variable (config : Config)
variable {q : Nat}

/-! ## Finding a file again -/

/-- The loop of `file_dirname_get`: the index of the entry it stops at. -/
def openFrom (dirFileSeqNum : Nat) : Nat → Nat → Dir → Option Nat
  | _, _, .done => none
  | times, index, .file name rest =>
    let times := if iteratorMatchFn config name false then times + 1 else times
    if times < dirFileSeqNum then openFrom dirFileSeqNum times (index + 1) rest else some index
  | times, index, .sub _ _ rest =>
    if times < dirFileSeqNum then openFrom dirFileSeqNum times (index + 1) rest else some index

/-- `file_dirname_get` in a directory: the entry that it opens. -/
def fileDirnameGet (dir : Dir) (dirFileSeqNum : Nat) : Option Nat :=
  if dirFileSeqNum = 0 then none else openFrom config dirFileSeqNum 0 0 dir

/-- The indices of the files of a directory that the loop counts. -/
def openable : Nat → Dir → List Nat
  | _, .done => []
  | index, .file name rest =>
    if iteratorMatchFn config name false then index :: openable (index + 1) rest
      else openable (index + 1) rest
  | index, .sub _ _ rest => openable (index + 1) rest

variable {config} (dir : Dir) (index : Nat)

theorem openFrom_eq {dirFileSeqNum times : Nat} (htimes : times < dirFileSeqNum) :
    openFrom config dirFileSeqNum times index dir =
      (openable config index dir)[dirFileSeqNum - 1 - times]? := by
  induction dir generalizing times index with
  | done => rfl
  | file name rest ih =>
    rw [openFrom, openable]
    by_cases hname : iteratorMatchFn config name false = true
    · rw [if_pos hname, if_pos hname]
      split
      · next hmore =>
          rw [ih (index + 1) hmore, show dirFileSeqNum - 1 - times =
            dirFileSeqNum - 1 - (times + 1) + 1 by omega,
            getElem?_cons_succ]
      · next hthis =>
          rw [show dirFileSeqNum - 1 - times = 0 by omega]
          rfl
    · rw [if_neg hname, if_neg hname, if_pos htimes]
      exact ih (index + 1) htimes
  | sub name content rest _ ih =>
    rw [openFrom, if_pos htimes, openable]
    exact ih (index + 1) htimes

/-- The file at a position is the one at that place among the files that the loop counts. -/
theorem fileDirnameGet_eq {dirFileSeqNum : Nat} (hpos : 1 ≤ dirFileSeqNum) :
    fileDirnameGet config dir dirFileSeqNum = (openable config 0 dir)[dirFileSeqNum - 1]? := by
  rw [fileDirnameGet, if_neg (by omega), openFrom_eq dir 0 hpos]
  rfl

/-! ## Paths and names -/

/-- A path up to the entries of a directory ends in a separator. -/
def EndsInSeparator (path : List UInt8) : Prop :=
  ∃ before sep, path = before ++ [sep] ∧ (sep = 47 ∨ sep = 58)

theorem endsInSeparator_topPath (topdir : List UInt8) : EndsInSeparator (topPath topdir) := by
  rw [topPath]
  split
  · next hsep =>
      rcases hsep with hsep | hsep <;> obtain ⟨before, rfl⟩ := getLast?_eq_some_iff.mp hsep
      · exact ⟨before, 58, rfl, .inr rfl⟩
      · exact ⟨before, 47, rfl, .inl rfl⟩
  · exact ⟨topdir, 47, rfl, .inl rfl⟩

theorem endsInSeparator_subPath (path name : List UInt8) : EndsInSeparator (subPath path name) :=
  ⟨path ++ name, 47, rfl, .inl rfl⟩

theorem endsInSeparator_of_mem_subFolders {path : List UInt8} :
    ∀ place ∈ subFolders config path dir, EndsInSeparator place.1 := by
  induction dir generalizing path with
  | done => exact fun _ hmem => absurd hmem not_mem_nil
  | file name rest ih => exact ih
  | sub name content rest ihContent ihRest =>
    intro place hmem
    rw [subFolders] at hmem
    split at hmem
    · rcases mem_cons.mp hmem with rfl | hmem
      · exact endsInSeparator_subPath path name
      · rcases mem_append.mp hmem with hmem | hmem
        · exact ihContent place hmem
        · exact ihRest place hmem
    · exact ihRest place hmem

theorem endsInSeparator_of_mem {path : List UInt8} (hpath : EndsInSeparator path) (tree : Dir) :
    ∀ place ∈ allFolders config path tree, EndsInSeparator place.1 := by
  intro place hmem
  rcases mem_cons.mp hmem with rfl | hmem
  · exact hpath
  · exact endsInSeparator_of_mem_subFolders tree place hmem

/-- An extension that can only match inside a name. -/
def IsExtension (ext : List UInt8) : Prop :=
  ext ≠ [] ∧ 47 ∉ ext.map toUpper ∧ 58 ∉ ext.map toUpper

instance (ext : List UInt8) : Decidable (IsExtension ext) :=
  inferInstanceAs (Decidable (_ ∧ _))

section

variable {path : List UInt8} (hpath : EndsInSeparator path) (name : List UInt8)
include hpath name

/-- The end of a path is the end of the name. -/
theorem parseMatch_append {ext : List UInt8}
    (hext : IsExtension ext) : parseMatchExtensionType (path ++ name) ext =
      parseMatchExtensionType name ext := by
  obtain ⟨before, sep, rfl, hsep⟩ := hpath
  obtain ⟨hne, hslash, hcolon⟩ := hext
  have hpos := length_pos_iff.mpr hne
  have hlen : (before ++ [sep] ++ name).length = before.length + 1 + name.length := by
    simp only [length_append, length_singleton]
  unfold parseMatchExtensionType
  rw [if_neg (by simp), hlen]
  rcases lt_or_ge name.length ext.length with hshort | hlong
  · have hname : (if name = [] then false else if name.length < ext.length then false
        else decide (ext.map toUpper =
          (name.drop (name.length - ext.length)).map toUpper)) = false := by
      rw [if_pos hshort]
      split <;> rfl
    rw [hname]
    split
    · rfl
    · -- the extension would reach over the separator
      refine decide_eq_false fun heq => ?_
      have hmem : sep ∈ (before ++ [sep] ++ name).drop
          (before.length + 1 + name.length - ext.length) := by
        rw [append_assoc, drop_append_of_le_length (by omega)]
        simp
      have hupper : toUpper sep = sep := by rcases hsep with rfl | rfl <;> rfl
      have hin : sep ∈ ext.map toUpper := by
        have himage := mem_map_of_mem (f := toUpper) hmem
        rwa [hupper, ← heq] at himage
      rcases hsep with rfl | rfl
      · exact hslash hin
      · exact hcolon hin
  · have hnil : name ≠ [] := length_pos_iff.mp (by omega)
    have hdrop : (before ++ [sep] ++ name).drop (before.length + 1 + name.length - ext.length) =
        name.drop (name.length - ext.length) := by
      rw [show before.length + 1 + name.length - ext.length =
        (before ++ [sep]).length + (name.length - ext.length) by
          simp; omega, drop_length_add_append]
    rw [if_neg (by omega), if_neg hnil, if_neg (by omega), hdrop]

theorem getMusicFileType_append
    (decoders : Decoders) : getMusicFileType decoders (path ++ name) =
      getMusicFileType decoders name := by
  unfold getMusicFileType
  simp (disch := decide) only [parseMatch_append hpath]

/-- The match function says the same of a file by its path and by its name. -/
theorem matchFn_append :
    iteratorMatchFn config (path ++ name) false = iteratorMatchFn config name false := by
  unfold iteratorMatchFn
  rw [if_neg Bool.false_ne_true, if_neg Bool.false_ne_true, getMusicFileType_append hpath]

end

/-- What the scan counts is found. -/
theorem match_of_accepts {path name : List UInt8} (hpath : EndsInSeparator path)
    (h : accepts config path name false = true) : iteratorMatchFn config name false = true := by
  rw [accepts, Bool.and_eq_true] at h
  rw [← matchFn_append hpath]
  exact h.2

/-! ## Directories in which the positions agree -/

/-- No file that is found without having been counted lies before one that is counted. -/
def Aligned (config : Config) (path : List UInt8) (dir : Dir) : Prop :=
  ∀ j ∈ countable config path 0 dir, ∀ i ∈ openable config 0 dir, i < j →
    i ∈ countable config path 0 dir

instance (path : List UInt8) (dir : Dir) : Decidable (Aligned config path dir) :=
  inferInstanceAs (Decidable (∀ j ∈ _, ∀ i ∈ _, i < j → i ∈ _))

theorem countable_ge {path : List UInt8} : ∀ j ∈ countable config path index dir, index ≤ j := by
  induction dir generalizing index with
  | done => exact fun _ hmem => absurd hmem not_mem_nil
  | file name rest ih =>
    intro j hmem
    rw [countable] at hmem
    split at hmem
    · rcases mem_cons.mp hmem with rfl | hmem
      · exact le_refl _
      · exact le_of_succ_le (ih (index + 1) j hmem)
    · exact le_of_succ_le (ih (index + 1) j hmem)
  | sub name content rest _ ih => exact fun j hmem => le_of_succ_le (ih (index + 1) j hmem)

theorem openable_ge : ∀ i ∈ openable config index dir, index ≤ i := by
  induction dir generalizing index with
  | done => exact fun _ hmem => absurd hmem not_mem_nil
  | file name rest ih =>
    intro i hmem
    rw [openable] at hmem
    split at hmem
    · rcases mem_cons.mp hmem with rfl | hmem
      · exact le_refl _
      · exact le_of_succ_le (ih (index + 1) i hmem)
    · exact le_of_succ_le (ih (index + 1) i hmem)
  | sub name content rest _ ih => exact fun i hmem => le_of_succ_le (ih (index + 1) i hmem)

/-- The counted files are the first ones that are found exactly in the aligned directories. -/
theorem countable_prefix_iff {path : List UInt8} (hpath : EndsInSeparator path) (dir : Dir)
    (index : Nat) :
    countable config path index dir <+: openable config index dir ↔
      ∀ j ∈ countable config path index dir, ∀ i ∈ openable config index dir, i < j →
        i ∈ countable config path index dir := by
  induction dir generalizing index with
  | done => exact iff_of_true (prefix_refl _) fun _ hmem => absurd hmem not_mem_nil
  | file name rest ih =>
    have hcountable : ∀ j ∈ countable config path (index + 1) rest, index < j :=
      countable_ge rest (index + 1)
    have hopenable : ∀ i ∈ openable config (index + 1) rest, index < i :=
      openable_ge rest (index + 1)
    rw [countable, openable]
    by_cases hcounted : accepts config path name false = true
    · rw [if_pos hcounted, if_pos (match_of_accepts hpath hcounted), cons_prefix_cons,
        ih (index + 1)]
      constructor
      · rintro ⟨-, halign⟩ j hj i hi hij
        rcases mem_cons.mp hi with rfl | hi
        · exact mem_cons_self ..
        · rcases mem_cons.mp hj with rfl | hj
          · exact absurd hij (not_lt.mpr (hopenable i hi).le)
          · exact mem_cons_of_mem _ (halign j hj i hi hij)
      · refine fun halign => ⟨rfl, fun j hj i hi hij => ?_⟩
        have hmem := halign j (mem_cons_of_mem _ hj) i (mem_cons_of_mem _ hi) hij
        exact (mem_cons.mp hmem).resolve_left (hopenable i hi).ne'
    · rw [if_neg hcounted]
      by_cases hfound : iteratorMatchFn config name false = true
      · -- this file is found and not counted, so that no file behind it may be counted
        rw [if_pos hfound]
        cases hlist : countable config path (index + 1) rest with
        | nil => exact iff_of_true nil_prefix fun _ hmem => absurd hmem not_mem_nil
        | cons first others =>
          rw [hlist] at hcountable
          have hfirst := hcountable first (mem_cons_self ..)
          refine iff_of_false (fun hprefix => ?_) fun halign => ?_
          · exact hfirst.ne' (cons_prefix_cons.mp hprefix).1
          · have hmem := halign first (mem_cons_self ..) index (mem_cons_self ..) hfirst
            exact absurd (hcountable index hmem) (lt_irrefl _)
      · rw [if_neg hfound]
        exact ih (index + 1)
  | sub name content rest _ ih => exact ih (index + 1)

/-- `file_dirname_get` opens the files that the scan has counted, at their positions. -/
def OpensCounted (config : Config) (r : Scan) : Prop :=
  ∀ folder ∈ r.folders, ∀ k, 1 ≤ k → k ≤ folder.counted.length →
    fileDirnameGet config folder.dir k = folder.counted[k - 1]?

section

variable {path : List UInt8} {tree : Dir} {r : Scan}

/-- In one folder the positions agree exactly if the counted files are the first ones found. -/
theorem opens_iff_counted_first (folder : Folder) :
    (∀ k, 1 ≤ k → k ≤ folder.counted.length →
      fileDirnameGet config folder.dir k = folder.counted[k - 1]?) ↔
      folder.counted <+: openable config 0 folder.dir := by
  rw [prefix_iff_getElem?]
  constructor
  · intro hopens i hi
    have hopen := hopens (i + 1) (Nat.succ_pos i) hi
    rw [fileDirnameGet_eq _ (Nat.succ_pos i), Nat.add_sub_cancel, getElem?_eq_getElem hi] at hopen
    exact hopen
  · intro hprefix k hpos hle
    rw [fileDirnameGet_eq _ hpos, hprefix (k - 1) (by omega), getElem?_eq_getElem]

theorem opensCounted_iff (hpath : EndsInSeparator path) (hfound : Found config path tree r) :
    OpensCounted config r ↔ ∀ place ∈ allFolders config path tree,
      Aligned config place.1 place.2 := by
  obtain ⟨missing, hvisited, hmissing⟩ := hfound.visited
  have hmem : ∀ folder ∈ r.folders, folder.place ∈ allFolders config path tree := by
    intro folder hmem
    rw [← hvisited]
    exact mem_append_left _ (mem_map_of_mem hmem)
  have hfolder : ∀ folder ∈ r.folders,
      ((∀ k, 1 ≤ k → k ≤ folder.counted.length →
        fileDirnameGet config folder.dir k = folder.counted[k - 1]?) ↔
        Aligned config folder.path folder.dir) := by
    intro folder hin
    rw [opens_iff_counted_first, hfound.counted folder hin]
    exact countable_prefix_iff (endsInSeparator_of_mem hpath tree _ (hmem folder hin)) folder.dir 0
  constructor
  · intro hopens place hplace
    rw [← hvisited] at hplace
    rcases mem_append.mp hplace with hplace | hplace
    · obtain ⟨folder, hin, rfl⟩ := mem_map.mp hplace
      exact (hfolder folder hin).mp (hopens folder hin)
    · intro j hj
      rw [hmissing place hplace] at hj
      exact absurd hj not_mem_nil
  · exact fun haligned folder hin => (hfolder folder hin).mpr (haligned _ (hmem folder hin))

end

/-! ## Playing the whole list -/

/-- The folder and the position that a track stands for. -/
def Track.position (track : Track) : Nat × Nat :=
  (track.folderSeqNum, track.dirFileSeqNum)

/-- The positions that a number of calls of `next` open. -/
def openedBy (plist : PlayList) (forceSwitch : Bool) : Nat → Track → List (Nat × Nat)
  | 0, _ => []
  | n + 1, track =>
    match next plist track forceSwitch with
    | some (track', some position) => position :: openedBy plist forceSwitch n track'
    | _ => []

/-- The position of a number of the list. -/
def positionOf (plist : PlayList) (track : Track) (fileSeqNum : Nat) : Nat × Nat :=
  (seek plist track fileSeqNum).position

section

variable {plist : PlayList} {track : Track}

/-- A call of `next` in mode 0. -/
theorem openedBy_succ (hmode : track.mode = 0) (forceSwitch : Bool) (n : Nat) (hpos : 1 ≤ q)
    (hle : q ≤ plist.sumFileCount) :
    openedBy plist forceSwitch (n + 1) (seek plist track q) =
      positionOf plist track (nextNumber plist q) ::
        openedBy plist forceSwitch n (seek plist track (nextNumber plist q)) := by
  obtain ⟨hlocated, hseq, hsame⟩ := located_seek hpos hle track
  have hstops : ¬ Stops plist (seek plist track q) forceSwitch := fun hstops =>
    absurd ((hsame.trans hmode).symm.trans hstops.1) (by decide)
  have hrange : 1 ≤ nextNumber plist q ∧ _ := nextInFolder_range hpos hle
  obtain ⟨hlocated', hseq', hsame'⟩ := located_seek hrange.1 hrange.2 track
  have hseek : seek plist (seek plist track q) (nextNumber plist q) =
      seek plist track (nextNumber plist q) := by
    have heq := @seek_eq plist (seek plist track q) _ hlocated' (hsame.trans hsame'.symm)
    rwa [hseq'] at heq
  rw [openedBy, next_eq hlocated (by rw [hsame, hmode]; decide) hstops, hseq, hseek]
  rfl

/-- Calls that do not go beyond the end of the list open the numbers behind the current one. -/
theorem openedBy_add (hmode : track.mode = 0) (forceSwitch : Bool) (n rest : Nat) (hpos : 1 ≤ q)
    (hle : q + n ≤ plist.sumFileCount) :
    openedBy plist forceSwitch (n + rest) (seek plist track q) =
      (List.range' (q + 1) n).map (positionOf plist track) ++
        openedBy plist forceSwitch rest (seek plist track (q + n)) := by
  induction n generalizing q with
  | zero => rw [zero_add, add_zero]; rfl
  | succ n ih =>
    have hnext : nextNumber plist q = q + 1 := if_neg (by omega)
    rw [add_right_comm, openedBy_succ hmode forceSwitch _ hpos (by omega), hnext,
      ih (succ_pos q) (by omega), List.range'_succ, map_cons, cons_append,
      add_assoc q 1 n, add_comm 1 n]

/-- As many calls as there are files open every number once. -/
theorem openedBy_perm (h : Located plist track) (hmode : track.mode = 0) (forceSwitch : Bool) :
    (openedBy plist forceSwitch plist.sumFileCount track).Perm
      ((List.range' 1 plist.sumFileCount).map (positionOf plist track)) := by
  have hpos := h.seq_pos
  have hle := h.seq_le
  obtain ⟨q, hq⟩ := Nat.exists_eq_add_of_le' hpos
  obtain ⟨more, hmore⟩ := Nat.exists_eq_add_of_le hle
  have hself : seek plist track track.fileSeqNum = track := seek_eq h rfl
  have htop : 1 ≤ plist.sumFileCount := by omega
  have hlast : nextNumber plist plist.sumFileCount = 1 := if_pos rfl
  -- first the numbers up to the end, then those from the start
  have hopened : openedBy plist forceSwitch plist.sumFileCount track =
      (List.range' (track.fileSeqNum + 1) more).map (positionOf plist track) ++
        (List.range' 1 track.fileSeqNum).map (positionOf plist track) := by
    have hup := openedBy_add hmode forceSwitch more track.fileSeqNum hpos hmore.ge
    have hround := openedBy_succ hmode forceSwitch q htop (le_refl _)
    have hagain :=
      openedBy_add hmode forceSwitch q 0 (le_refl 1) (show 1 + q ≤ plist.sumFileCount by omega)
    rw [add_zero, openedBy, append_nil] at hagain
    rw [hlast, hagain, ← hq] at hround
    rw [hself, add_comm more, ← hmore, hround] at hup
    have hnumbers : List.range' 1 track.fileSeqNum = 1 :: List.range' 2 q :=
      by rw [hq, List.range'_succ]
    rw [hup, hnumbers, map_cons]
  have hrange : List.range' 1 plist.sumFileCount =
      List.range' 1 track.fileSeqNum ++ List.range' (track.fileSeqNum + 1) more := by
    rw [hmore, add_comm track.fileSeqNum 1, ← List.range'_append_1]
  rw [hopened, hrange, map_append]
  exact perm_append_comm

/-- The folders and positions of consecutive numbers, folder by folder. -/
theorem map_locateFrom (counts : List Nat) (i sumFile : Nat) :
    (List.range' (sumFile + 1) counts.sum).map (fun q => locateFrom q counts i sumFile) =
      (counts.zipIdx i).flatMap fun p => (List.range' 1 p.1).map fun d => some (p.2, d) := by
  induction counts generalizing i sumFile with
  | nil => rfl
  | cons count counts ih =>
    rw [sum_cons, ← List.range'_append_1, map_append, zipIdx_cons, flatMap_cons, ← ih]
    congr 1
    · rw [← map_add_range', map_map]
      refine map_congr_left fun d hd => ?_
      have hrange := mem_range'_1.mp hd
      rw [Function.comp_apply, locateFrom, if_pos (by omega)]
      congr 2
      omega
    · rw [add_right_comm]
      refine map_congr_left fun q hq => ?_
      have hrange := mem_range'_1.mp hq
      rw [locateFrom, if_neg (by omega)]

theorem some_positionOf (hpos : 1 ≤ q) (hle : q ≤ plist.sumFileCount) (track : Track) :
    some (positionOf plist track q) = locateFrom q plist.folderInfo 0 0 := by
  obtain ⟨k, hk, hlt, hcount, heq⟩ :=
    locateFrom_spec plist.folderInfo 0 0 hpos (hle.trans_eq (Nat.zero_add _).symm)
  rw [zero_add] at hlt hcount
  rw [zero_add, zero_add] at heq
  change plist.before k < q at hlt
  change q ≤ plist.before k + plist.count k at hcount
  have hseek : seek plist track (plist.before k + (q - plist.before k)) = _ :=
    seek_before hk (by omega) (by omega) track
  rw [Nat.add_sub_cancel' hlt.le] at hseek
  rw [heq, positionOf, hseek]
  rfl

/-- The positions of all the numbers, folder by folder. -/
theorem positions_eq (plist : PlayList) (track : Track) :
    (List.range' 1 plist.sumFileCount).map (positionOf plist track) =
      plist.folderInfo.zipIdx.flatMap fun p => (List.range' 1 p.1).map fun d => (p.2, d) := by
  have hsome : ((List.range' 1 plist.sumFileCount).map (positionOf plist track)).map some =
      (plist.folderInfo.zipIdx.flatMap fun p => (List.range' 1 p.1).map fun d => (p.2, d)).map
        some := by
    rw [map_map, map_flatMap]
    simp only [map_map]
    refine Eq.trans (map_congr_left fun q hq => ?_) (map_locateFrom plist.folderInfo 0 0)
    have hrange := mem_range'_1.mp hq
    exact some_positionOf (by omega) (by omega) track
  exact map_injective_iff.mpr (Option.some_injective _) hsome

end

/-- The files that the scan has counted, as folder and entry. -/
def countedFiles (r : Scan) : List (Nat × Nat) :=
  r.folders.zipIdx.flatMap fun p => p.1.counted.map fun j => (p.2, j)

/-- The file that `file_dirname_get` opens for a position. -/
def openFile (config : Config) (r : Scan) (position : Nat × Nat) : Option (Nat × Nat) :=
  r.folders[position.1]?.bind fun folder =>
    (fileDirnameGet config folder.dir position.2).map fun j => (position.1, j)

/-- As many calls of `next` in mode 0 as there are files, from any track, open every counted file
exactly once. -/
def PlaysEach (config : Config) (r : Scan) : Prop :=
  ∀ plist : PlayList, plist.folderInfo = r.folders.map (fun folder => folder.counted.length) →
    ∀ track, Located plist track → track.mode = 0 → ∀ forceSwitch,
      ((openedBy plist forceSwitch plist.sumFileCount track).map (openFile config r)).Perm
        ((countedFiles r).map some) ∧ (countedFiles r).Nodup

section

variable {path : List UInt8} {tree : Dir} {r : Scan}

theorem nodup_countable (dir : Dir) (index : Nat) : (countable config path index dir).Nodup := by
  induction dir generalizing index with
  | done => exact nodup_nil
  | file name rest ih =>
    rw [countable]
    split
    · exact nodup_cons.mpr
        ⟨fun hmem => absurd (countable_ge rest (index + 1) index hmem) (not_succ_le_self _),
          ih (index + 1)⟩
    · exact ih (index + 1)
  | sub name content rest _ ih => exact ih (index + 1)

theorem nodup_countedFiles (hfound : Found config path tree r) : (countedFiles r).Nodup := by
  rw [countedFiles, nodup_flatMap]
  constructor
  · intro p hp
    have hmem := fst_mem_of_mem_zipIdx hp
    rw [hfound.counted p.1 hmem]
    exact (nodup_countable p.1.dir 0).map fun a b hab => (Prod.mk.inj hab).2
  · have hindices : (r.folders.zipIdx.map Prod.snd).Pairwise (· ≠ ·) := by
      rw [zipIdx_map_snd]
      exact nodup_range'
    refine (pairwise_map.mp hindices).imp fun {p p'} hne file hin hin' => ?_
    obtain ⟨j, -, rfl⟩ := mem_map.mp hin
    obtain ⟨j', -, heq⟩ := mem_map.mp hin'
    exact hne (Prod.mk.inj heq).1.symm

/-- With the positions right, the positions of a folder open its counted files. -/
theorem map_openFile (hopens : OpensCounted config r) {p : Folder × Nat}
    (hp : p ∈ r.folders.zipIdx) :
    ((List.range' 1 p.1.counted.length).map fun d => openFile config r (p.2, d)) =
      p.1.counted.map fun j => some (p.2, j) := by
  have hfolder : r.folders[p.2]? = some p.1 := mem_zipIdx_iff_getElem?.mp hp
  apply ext_getElem
  · rw [length_map, length_map, length_range']
  intro i hi _
  rw [length_map, length_range'] at hi
  have hopen := hopens p.1 (mem_of_getElem? hfolder) (1 + i) (le_add_right 1 i) (by omega)
  rw [Nat.add_sub_cancel_left, getElem?_eq_getElem hi] at hopen
  simp only [getElem_map, getElem_range', Nat.one_mul]
  rw [openFile, hfolder, Option.bind_some, hopen, Option.map_some]

theorem playsEach_of_opens (hfound : Found config path tree r) (hopens : OpensCounted config r) :
    PlaysEach config r := by
  intro plist hplist track hlocated hmode forceSwitch
  refine ⟨?_, nodup_countedFiles hfound⟩
  have hall : ((List.range' 1 plist.sumFileCount).map (positionOf plist track)).map
      (openFile config r) =
      (countedFiles r).map some := by
    rw [positions_eq, hplist, zipIdx_map, flatMap_map, map_flatMap, countedFiles, map_flatMap]
    refine flatMap_congr fun p hp => ?_
    simp only [map_map]
    exact map_openFile hopens hp
  rw [← hall]
  exact (openedBy_perm hlocated hmode forceSwitch).map _

/-- The scan of a tree within the limits ends. What it has counted can be played, at its positions
and every file once in a round, exactly if no directory has a file that is found but not counted
before one that is counted. -/
theorem scan_plays_iff (hlimits : WithinLimits config (topPath path) tree) :
    ∃ r, Ends (scanBody config) (scanStart (topPath path) tree) r ∧
      (OpensCounted config r ∧ PlaysEach config r ↔
        ∀ place ∈ allFolders config (topPath path) tree, Aligned config place.1 place.2) := by
  obtain ⟨r, hends, hfound⟩ := scan_spec hlimits
  refine ⟨r, hends, ?_⟩
  rw [← opensCounted_iff (endsInSeparator_topPath path) hfound]
  exact ⟨fun h => h.1, fun hopens => ⟨hopens, playsEach_of_opens hfound hopens⟩⟩

/-- The limits of a player for MP3 files, with the default sizes. -/
def mp3Player : Config where
  decoders := ⟨false, false, true, false, false, false⟩
  formatCheck := true
  filtersDirs := true
  fullPathLen := 258
  maxLevel := 9
  maxFolderCount := 100
  maxFileCount := 10000

/-- A file, and a directory with another one. -/
theorem scan_plays_iff_two_folders :
    let tree : Dir := .file (chars ['a', '.', 'm', 'p', '3'])
      (.sub (chars ['d']) (.file (chars ['b', '.', 'M', 'P', '3']) .done) .done)
    WithinLimits mp3Player (topPath (chars ['S', 'D', ':'])) tree ∧
      ∃ r, Ends (scanBody mp3Player) (scanStart (topPath (chars ['S', 'D', ':'])) tree) r ∧
        OpensCounted mp3Player r ∧ PlaysEach mp3Player r := by
  intro tree
  have hlimits : WithinLimits mp3Player (topPath (chars ['S', 'D', ':'])) tree :=
    ⟨by decide, by decide, by decide⟩
  obtain ⟨r, hends, hiff⟩ := scan_plays_iff hlimits
  exact ⟨hlimits, r, hends, hiff.mpr (by decide)⟩

/-- A hidden file before the only one that is counted: the scan counts the second entry, and
position 1 opens the first. -/
theorem hidden_file_is_opened :
    let tree : Dir :=
      .file (chars ['.', 'a', '.', 'm', 'p', '3']) (.file (chars ['b', '.', 'm', 'p', '3']) .done)
    let path := topPath (chars ['S', 'D', ':'])
    WithinLimits mp3Player path tree ∧
      (loop (scanBody mp3Player) 3 (scanStart path tree)).map Scan.folders =
        some [⟨path, tree, [1]⟩] ∧
      fileDirnameGet mp3Player tree 1 = some 0 := by
  exact ⟨⟨by decide, by decide, by decide⟩, by decide, by decide⟩

end

end SpeakerFirmware.Playlist
