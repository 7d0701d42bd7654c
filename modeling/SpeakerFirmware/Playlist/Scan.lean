/-
# The scan of the disk

`file_iterator_scan_disk` walks over a directory tree with one open directory for each
level. Every directory is read twice: first its files are counted, then, if it has
sub-directories, it is opened again and they are visited. Two flags say which of the two
passes is on, and they are shared by all the levels.

A directory is the list of its entries in the order in which they are read. The folders
that the scan should find are a recursive function of the tree (`allFolders`), and so are
the files it should count in each of them (`countable`). `scan_spec` says that the loop
ends and finds them.
-/

import SpeakerFirmware.Lib.DoWhile
import Mathlib.Data.UInt

namespace SpeakerFirmware.Playlist

open DoWhile List Bool

variable {name : List UInt8}

/-- A directory: its entries, in the order in which `fs_readdir` returns them. -/
inductive Dir where
  | done
  | file (name : List UInt8) (rest : Dir)
  | sub (name : List UInt8) (content : Dir) (rest : Dir)
  deriving DecidableEq, Repr

variable {rest content : Dir}

/-! ## Which names are accepted -/

/-- A C string. -/
def chars (text : List Char) : List UInt8 :=
  text.map Char.toUInt8

def toUpper (c : UInt8) : UInt8 :=
  if 97 ≤ c ∧ c ≤ 122 then c - 32 else c

def parseMatchExtensionType (url matchStr : List UInt8) : Bool :=
  if url = [] then false
  else if url.length < matchStr.length then false
  else decide (matchStr.map toUpper = (url.drop (url.length - matchStr.length)).map toUpper)

inductive MusicType where
  | m4a
  | wav
  | mp3
  | ape
  | wma
  | fla
  | unsupport
  deriving DecidableEq, Repr

/-- The decoders of a build, `CONFIG_DECODER_AAC` and so on. -/
structure Decoders where
  aac : Bool
  wav : Bool
  mp3 : Bool
  ape : Bool
  wma : Bool
  flac : Bool
  deriving DecidableEq, Repr

def getMusicFileType (decoders : Decoders) (url : List UInt8) : MusicType :=
  let isType := fun ext => parseMatchExtensionType url (chars ext)
  if decoders.aac && (isType ['.', 'a', 'a', 'c'] || isType ['.', 'm', '4', 'a']) then .m4a
  else if decoders.wav && isType ['.', 'w', 'a', 'v'] then .wav
  else if decoders.mp3 && (isType ['.', 'm', 'p', '3'] || isType ['.', 'm', 'p', '2'] ||
      isType ['.', 'm', 'p', '1']) then .mp3
  else if decoders.ape && isType ['.', 'a', 'p', 'e'] then .ape
  else if decoders.wma && isType ['.', 'w', 'm', 'a'] then .wma
  else if decoders.flac && (isType ['.', 'f', 'l', 'a', 'c'] || isType ['.', 'f', 'l', 'a'])
    then .fla
  else .unsupport

/-- What the scan depends on: the build, the current application, and the limits. -/
structure Config where
  decoders : Decoders
  /-- `CONFIG_FORMAT_CHECK`. -/
  formatCheck : Bool
  /-- The current application is one of the two players that leave out some directories. -/
  filtersDirs : Bool
  /-- `FULL_PATH_LEN`. -/
  fullPathLen : Nat
  maxLevel : Nat
  /-- `CONFIG_PLIST_SUPPORT_FOLDER_CNT`. -/
  maxFolderCount : Nat
  /-- `max_file_cnt`, or `MAX_SUPPORT_FILE_CNT` if that is zero. -/
  maxFileCount : Nat
  deriving DecidableEq, Repr

variable (config : Config)

def iteratorFilterDir (path : List UInt8) : Bool :=
  config.filtersDirs &&
    decide (chars ['R', 'E', 'C', 'O', 'R', 'D'] <:+: path ∨
      chars ['A', 'L', 'A', 'R', 'M'] <:+: path ∨
      chars ['S', 'Y', 'S', 'T', 'E', 'M'] <:+: path ∨ chars ['L', 'O', 'O', 'P'] <:+: path)

def iteratorMatchFn (path : List UInt8) (isDir : Bool) : Bool :=
  if isDir then !iteratorFilterDir config path
  else !config.formatCheck || getMusicFileType config.decoders path != .unsupport

/-- The name starts with a dot. -/
def isHidden (name : List UInt8) : Bool :=
  name.head? == some 46

/-- The filters of the scan for an entry of the directory with a path: hidden names, paths that are
too long, and the match function on the full path. -/
def accepts (path name : List UInt8) (isDir : Bool) : Bool :=
  !isHidden name && decide (path.length + name.length < config.fullPathLen - 1) &&
    iteratorMatchFn config (path ++ name) isDir

/-! ## The loop -/

/-- An open directory: the full path up to its entries, all of them, and what is left to read with
the index of the next entry. -/
structure Level where
  path : List UInt8
  whole : Dir
  index : Nat
  rest : Dir
  deriving DecidableEq, Repr

/-- `folder_info_t`: the directory that starts at the cluster, and the files counted in it, by their
index. `dir_file_count` is their number. -/
structure Folder where
  path : List UInt8
  dir : Dir
  counted : List Nat
  deriving DecidableEq, Repr

/-- The open directories, the flags of the two passes, and the playlist up to now. -/
structure Scan where
  level : Level
  outer : List Level
  isFileType : Bool
  hasSubFolder : Bool
  earlier : List Folder
  /-- `folder_info[sum_folder_count]`. -/
  last : Folder
  deriving DecidableEq, Repr

variable (s : Scan)

/-- `folder_info[0]` to `folder_info[sum_folder_count]`. -/
def Scan.folders : List Folder :=
  s.earlier ++ [s.last]

def Scan.sumFileCount : Nat :=
  (s.folders.map fun folder => folder.counted.length).sum

/-- One entry has been read. -/
def Scan.read (rest : Dir) : Scan :=
  { s with level := { s.level with index := s.level.index + 1, rest } }

/-- The directory is opened again to visit its sub-directories. -/
def Scan.rewind : Scan :=
  { s with
    level := { s.level with index := 0, rest := s.level.whole }
    isFileType := false
    hasSubFolder := false }

/-- A file is counted. -/
def Scan.count (index : Nat) : Scan :=
  { s with last := { s.last with counted := s.last.counted ++ [index] } }

/-- The path up to the entries of a sub-directory. -/
def subPath (path name : List UInt8) : List UInt8 :=
  path ++ name ++ [47]

/-- A sub-directory is opened, and it becomes the last folder. -/
def Scan.descend (name : List UInt8) (content : Dir) : Scan :=
  { level := ⟨subPath s.level.path name, content, 0, content⟩
    outer := s.level :: s.outer
    isFileType := true
    hasSubFolder := s.hasSubFolder
    earlier := s.folders
    last := ⟨subPath s.level.path name, content, []⟩ }

/-- The body of the loop of `file_iterator_scan_disk`. -/
def scanBody : Scan ⊕ Scan :=
  match s.level.rest with
  | .done =>
    if s.isFileType && s.hasSubFolder then .inl s.rewind
    else
      match s.outer with
      | [] => .inr s
      | up :: outer => .inl { s with level := up, outer, isFileType := false }
  | .file name rest =>
    if !accepts config s.level.path name false then .inl (s.read rest)
    else if s.isFileType then
      let s' := (s.read rest).count s.level.index
      if s'.sumFileCount = config.maxFileCount then .inr s' else .inl s'
    else .inl (s.read rest)
  | .sub name content rest =>
    if !accepts config s.level.path name true then .inl (s.read rest)
    else if s.isFileType then .inl { s.read rest with hasSubFolder := true }
    else if s.outer.length + 1 ≥ config.maxLevel then .inl (s.read rest)
    else if s.earlier.length + 1 ≥ config.maxFolderCount then .inr (s.read rest)
    else .inl ((s.read rest).descend name content)

/-- The path of the top directory, which ends in a separator. -/
def topPath (topdir : List UInt8) : List UInt8 :=
  if topdir.getLast? = some 58 ∨ topdir.getLast? = some 47 then topdir else topdir ++ [47]

/-- The start of the scan. -/
def scanStart (path : List UInt8) (tree : Dir) : Scan where
  level := ⟨path, tree, 0, tree⟩
  outer := []
  isFileType := true
  hasSubFolder := false
  earlier := []
  last := ⟨path, tree, []⟩

/-! ## What the scan should find -/

/-- The indices of the files of a directory that the scan counts. -/
def countable (path : List UInt8) : Nat → Dir → List Nat
  | _, .done => []
  | index, .file name rest =>
    if accepts config path name false then index :: countable path (index + 1) rest
    else countable path (index + 1) rest
  | index, .sub _ _ rest => countable path (index + 1) rest

/-- The sub-directories that the scan visits, with their own ones, as path and directory. -/
def subFolders (path : List UInt8) : Dir → List (List UInt8 × Dir)
  | .done => []
  | .file _ rest => subFolders path rest
  | .sub name content rest =>
    if accepts config path name true then
      (subPath path name, content) ::
        (subFolders (subPath path name) content ++ subFolders path rest)
    else subFolders path rest

/-- All the folders of a tree, the top directory first. -/
def allFolders (path : List UInt8) (tree : Dir) : List (List UInt8 × Dir) :=
  (path, tree) :: subFolders config path tree

/-- How deep the folders lie below a directory. -/
def depth (path : List UInt8) : Dir → Nat
  | .done => 0
  | .file _ rest => depth path rest
  | .sub name content rest =>
    if accepts config path name true then
      max (depth (subPath path name) content + 1) (depth path rest)
    else depth path rest

/-- The tree is within the limits of the scan. -/
structure WithinLimits (path : List UInt8) (tree : Dir) : Prop where
  depth_lt : depth config path tree < config.maxLevel
  folders_le : (allFolders config path tree).length ≤ config.maxFolderCount
  files_le : ((allFolders config path tree).map fun folder =>
    (countable config folder.1 0 folder.2).length).sum ≤
    config.maxFileCount

/-! ## The invariant -/

variable {config}

/-- The entries of the current directory whose sub-directories are still to be visited. -/
def Scan.todo (s : Scan) : Dir :=
  if s.isFileType then s.level.whole else s.level.rest

/-- The folders that are still to be visited. The outer directories are all in their second pass. -/
def Scan.pending (config : Config) (s : Scan) : List (List UInt8 × Dir) :=
  subFolders config s.level.path s.todo ++ s.outer.flatMap fun level =>
    subFolders config level.path level.rest

/-- The files of the last folder that are still to be counted. -/
def Scan.uncounted (config : Config) (s : Scan) : List Nat :=
  if s.isFileType then countable config s.level.path s.level.index s.level.rest else []

/-- The outer directories are not too deep. -/
def DepthOk (config : Config) : List Level → Prop
  | [] => True
  | level :: outer => outer.length + depth config level.path level.rest < config.maxLevel ∧
      DepthOk config outer

/-- The directory behind a folder. -/
def Folder.place (folder : Folder) : List UInt8 × Dir :=
  (folder.path, folder.dir)

structure ScanInv (config : Config) (path : List UInt8) (tree : Dir) (s : Scan) : Prop where
  visited : s.folders.map Folder.place ++ s.pending config = allFolders config path tree
  earlier_full : ∀ folder ∈ s.earlier, folder.counted = countable config folder.path 0 folder.dir
  last_counted : s.last.counted ++ s.uncounted config = countable config s.last.path 0 s.last.dir
  no_sub : s.isFileType = true → s.hasSubFolder = false →
    subFolders config s.level.path s.level.whole = subFolders config s.level.path s.level.rest
  second_pass : s.isFileType = false → s.hasSubFolder = false
  depth_level : s.outer.length + depth config s.level.path s.todo < config.maxLevel
  depth_outer : DepthOk config s.outer

namespace ScanInv

variable {path : List UInt8} {tree : Dir} {s : Scan}

theorem start (hlimits : WithinLimits config path tree) :
    ScanInv config path tree (scanStart path tree) where
  visited := by
    simp [scanStart, Scan.folders, Scan.pending, Scan.todo, Folder.place, allFolders]
  earlier_full _ hmem := absurd hmem not_mem_nil
  last_counted := rfl
  no_sub _ _ := rfl
  second_pass h := (by cases h)
  depth_level := by
    rw [show (scanStart path tree).outer.length = 0 from rfl, Nat.zero_add]
    exact hlimits.depth_lt
  depth_outer := trivial

section

variable (h : ScanInv config path tree s)
include h

/-- Reading an entry that has no sub-directories to visit, in either pass. -/
theorem read
    (hsub : subFolders config s.level.path rest = subFolders config s.level.path s.level.rest)
    (hcounted : s.isFileType = true → countable config s.level.path (s.level.index + 1) rest =
      countable config s.level.path s.level.index s.level.rest)
    (hdepth : depth config s.level.path rest ≤ depth config s.level.path s.level.rest) :
    ScanInv config path tree (s.read rest) := by
  obtain ⟨level, outer, isFileType, hasSubFolder, earlier, last⟩ := s
  obtain ⟨hvisited, hearlier, hlast, hnosub, hsecond, hlevel, houter⟩ := h
  cases isFileType with
  | true =>
    refine ⟨hvisited, hearlier, ?_, ?_, hsecond, hlevel, houter⟩
    · exact (congrArg (last.counted ++ ·) (hcounted rfl)).trans hlast
    · exact fun ht hf => (hnosub ht hf).trans hsub.symm
  | false =>
    refine ⟨?_, hearlier, hlast, fun hf => (by cases hf), hsecond, ?_, houter⟩
    · exact (congrArg (fun subs => _ ++ (subs ++ _)) hsub).trans hvisited
    · exact (Nat.add_le_add_left hdepth _).trans_lt hlevel

/-- A file is counted in the first pass. -/
theorem count (hpass : s.isFileType = true)
    (hrest : s.level.rest = .file name rest)
    (hname : accepts config s.level.path name false = true) :
    ScanInv config path tree ((s.read rest).count s.level.index) := by
  obtain ⟨⟨levelPath, whole, index, _⟩, outer, isFileType, hasSubFolder, earlier, last⟩ := s
  dsimp only at hpass hrest hname
  subst hpass hrest
  obtain ⟨hvisited, hearlier, hlast, hnosub, hsecond, hlevel, houter⟩ := h
  have hsame : ∀ folder : Folder,
      (earlier ++ [{ folder with counted := folder.counted ++ [index] }]).map Folder.place =
      (earlier ++ [folder]).map Folder.place := by
    intro folder
    simp [Folder.place]
  refine ⟨?_, hearlier, ?_, hnosub, hsecond, hlevel, houter⟩
  · exact (congrArg (· ++ _) (hsame last)).trans hvisited
  · have hnext : countable config levelPath index (.file name rest) =
        index :: countable config levelPath (index + 1) rest := by
      rw [countable, if_pos hname]
    refine Eq.trans ?_ hlast
    change last.counted ++ [index] ++ countable config levelPath (index + 1) rest =
      last.counted ++ countable config levelPath index (.file name rest)
    rw [hnext, append_assoc, singleton_append]

/-- A sub-directory is seen in the first pass. -/
theorem noteSub (hpass : s.isFileType = true) (hrest : s.level.rest = .sub name content rest) :
    ScanInv config path tree { s.read rest with hasSubFolder := true } := by
  obtain ⟨⟨levelPath, whole, index, _⟩, outer, isFileType, hasSubFolder, earlier, last⟩ := s
  dsimp only at hpass hrest
  subst hpass hrest
  obtain ⟨hvisited, hearlier, hlast, -, -, hlevel, houter⟩ := h
  exact ⟨hvisited, hearlier, hlast, fun _ hf => (by cases hf), fun hf => (by cases hf), hlevel,
    houter⟩

/-- A sub-directory is opened in the second pass. -/
theorem descend (hpass : s.isFileType = false) (hrest : s.level.rest = .sub name content rest)
    (hname : accepts config s.level.path name true = true) :
    ScanInv config path tree ((s.read rest).descend name content) := by
  obtain ⟨⟨levelPath, whole, index, _⟩, outer, isFileType, hasSubFolder, earlier, last⟩ := s
  dsimp only at hpass hrest hname
  subst hpass hrest
  obtain ⟨hvisited, hearlier, hlast, -, hsecond, hlevel, houter⟩ := h
  have hsub : subFolders config levelPath (.sub name content rest) =
      (subPath levelPath name, content) ::
        (subFolders config (subPath levelPath name) content ++
          subFolders config levelPath rest) := by
    rw [subFolders, if_pos hname]
  have hdepth : depth config levelPath (.sub name content rest) =
      max (depth config (subPath levelPath name) content + 1) (depth config levelPath rest) := by
    rw [depth, if_pos hname]
  have hlevel' : outer.length + depth config levelPath (.sub name content rest) < config.maxLevel :=
    hlevel
  rw [hdepth] at hlevel'
  refine ⟨?_, ?_, rfl, fun _ _ => rfl, fun hf => (by cases hf), ?_, ?_, houter⟩
  · refine Eq.trans ?_ hvisited
    change ((earlier ++ [last]) ++ [_]).map Folder.place ++ (subFolders config _ content ++
      (subFolders config levelPath rest ++ _)) = (earlier ++ [last]).map Folder.place ++
      (subFolders config levelPath (.sub name content rest) ++ _)
    rw [hsub, map_append, append_assoc, cons_append, append_assoc]
    rfl
  · intro folder hmem
    rcases mem_append.mp hmem with hmem | hmem
    · exact hearlier folder hmem
    · obtain rfl := mem_singleton.mp hmem
      exact (append_nil _).symm.trans hlast
  · change outer.length + 1 + depth config (subPath levelPath name) content < config.maxLevel
    omega
  · change outer.length + depth config levelPath rest < config.maxLevel
    omega

/-- The directory is opened again. -/
theorem rewind (hpass : s.isFileType = true) (hrest : s.level.rest = .done) :
    ScanInv config path tree s.rewind := by
  obtain ⟨⟨levelPath, whole, index, _⟩, outer, isFileType, hasSubFolder, earlier, last⟩ := s
  dsimp only at hpass hrest
  subst hpass hrest
  obtain ⟨hvisited, hearlier, hlast, -, -, hlevel, houter⟩ := h
  exact ⟨hvisited, hearlier, hlast, fun hf => (by cases hf), fun _ => rfl, hlevel, houter⟩

/-- At the end of a directory that is not read again, none of its sub-directories is left. -/
theorem subFolders_todo (hrest : s.level.rest = .done)
    (hend : (s.isFileType && s.hasSubFolder) = false) :
    subFolders config s.level.path s.todo = [] := by
  rw [Scan.todo]
  cases hpass : s.isFileType with
  | true =>
    rw [hpass, Bool.true_and] at hend
    rw [if_pos rfl, h.no_sub hpass hend, hrest]
    rfl
  | false =>
    rw [if_neg Bool.false_ne_true, hrest]
    rfl

end

theorem uncounted_eq_nil (hrest : s.level.rest = .done) : s.uncounted config = [] := by
  rw [Scan.uncounted, hrest]
  split <;> rfl

section

variable (h : ScanInv config path tree s)
include h

/-- Back in the directory above. -/
theorem up (hrest : s.level.rest = .done)
    (hend : (s.isFileType && s.hasSubFolder) = false) {level : Level} {outer : List Level}
    (houter : s.outer = level :: outer) :
    ScanInv config path tree { s with level, outer, isFileType := false } := by
  have hsub := h.subFolders_todo hrest hend
  have hfull := h.last_counted
  have hvisited := h.visited
  have hdepth := h.depth_outer
  rw [uncounted_eq_nil hrest, append_nil] at hfull
  rw [Scan.pending, hsub, nil_append, houter, flatMap_cons] at hvisited
  rw [houter] at hdepth
  refine ⟨hvisited, h.earlier_full, (append_nil _).trans hfull, fun hf => (by cases hf),
    fun _ => ?_, hdepth.1,
    hdepth.2⟩
  cases hpass : s.isFileType with
  | true =>
    rw [hpass, Bool.true_and] at hend
    exact hend
  | false => exact h.second_pass hpass

/-- An entry that the filters leave out. -/
theorem skipFile (hrest : s.level.rest = .file name rest)
    (hskip : s.isFileType = true → accepts config s.level.path name false = false) :
    ScanInv config path tree (s.read rest) := by
  refine h.read (by rw [hrest]; rfl) (fun hpass => ?_) (by rw [hrest]; exact Nat.le_refl _)
  rw [hrest, countable, hskip hpass, if_neg Bool.false_ne_true]

theorem skipSub
    (hrest : s.level.rest = .sub name content rest)
    (hskip : accepts config s.level.path name true = false) :
    ScanInv config path tree (s.read rest) := by
  refine h.read ?_ (fun _ => by rw [hrest]; rfl) ?_
  · rw [hrest, subFolders, hskip, if_neg Bool.false_ne_true]
  · rw [hrest, depth, hskip, if_neg Bool.false_ne_true]

/-- A sub-directory that is about to be visited is not too deep. -/
theorem level_lt (hpass : s.isFileType = false) (hrest : s.level.rest = .sub name content rest)
    (hname : accepts config s.level.path name true = true) :
    s.outer.length + 1 < config.maxLevel := by
  have hlevel := h.depth_level
  rw [Scan.todo, hpass, if_neg Bool.false_ne_true, hrest, depth, if_pos hname] at hlevel
  omega

/-- Every round of the loop keeps the invariant. -/
theorem again {s' : Scan} (hbody : scanBody config s = .inl s') : ScanInv config path tree s' := by
  rw [scanBody] at hbody
  cases hrest : s.level.rest with
  | done =>
    simp only [hrest] at hbody
    split at hbody
    · next hboth =>
        cases hbody
        exact h.rewind (and_eq_true _ _ ▸ hboth).1 hrest
    · next hend =>
        split at hbody
        · cases hbody
        · next houter =>
            cases hbody
            exact h.up hrest (eq_false_iff.mpr hend) houter
  | file name rest =>
    simp only [hrest] at hbody
    split at hbody
    · next hname =>
        cases hbody
        exact h.skipFile hrest fun _ => (not_eq_true' _).mp hname
    · next hname =>
        have haccepts : accepts config s.level.path name false = true := by simpa using hname
        split at hbody
        · next hpass =>
            split at hbody
            · cases hbody
            · cases hbody
              exact h.count hpass hrest haccepts
        · next hpass =>
            cases hbody
            exact h.skipFile hrest fun ht => absurd ht hpass
  | sub name content rest =>
    simp only [hrest] at hbody
    split at hbody
    · next hname =>
        cases hbody
        exact h.skipSub hrest ((not_eq_true' _).mp hname)
    · next hname =>
        have haccepts : accepts config s.level.path name true = true := by simpa using hname
        split at hbody
        · next hpass =>
            cases hbody
            exact h.noteSub hpass hrest
        · next hpass =>
            have hsecond := eq_false_iff.mpr hpass
            split at hbody
            · next hdeep => exact absurd (h.level_lt hsecond hrest haccepts) (Nat.not_lt.mpr hdeep)
            · split at hbody
              · cases hbody
              · cases hbody
                exact h.descend hsecond hrest haccepts

end

end ScanInv

/-! ## The result -/

/-- The scan has counted all the files that it should, in folders in the order in which it should
visit them; the folders that are missing have no files to count. -/
structure Found (config : Config) (path : List UInt8) (tree : Dir) (s : Scan) : Prop where
  counted : ∀ folder ∈ s.folders, folder.counted = countable config folder.path 0 folder.dir
  visited : ∃ missing, s.folders.map Folder.place ++ missing = allFolders config path tree ∧
    ∀ place ∈ missing, countable config place.1 0 place.2 = []

section

variable {path : List UInt8} {tree : Dir} {s : Scan}

theorem ScanInv.found_of_counted (h : ScanInv config path tree s) (hall : s.uncounted config = [])
    (hmissing : ∀ place ∈ s.pending config, countable config place.1 0 place.2 = []) :
    Found config path tree s where
  counted folder hmem := by
    rcases mem_append.mp hmem with hmem | hmem
    · exact h.earlier_full folder hmem
    · obtain rfl := mem_singleton.mp hmem
      have hlast := h.last_counted
      rwa [hall, append_nil] at hlast
  visited := ⟨_, h.visited, hmissing⟩

section

variable (h : ScanInv config path tree s) (hlimits : WithinLimits config path tree)
include h hlimits

/-- If as many files have been counted as there are, none is left. -/
theorem ScanInv.found_of_full
    (hfull : s.sumFileCount = config.maxFileCount) : Found config path tree s := by
  have htotal := hlimits.files_le
  have hearlier :
      (s.earlier.map fun folder => (countable config folder.place.1 0 folder.place.2).length) =
      s.earlier.map fun folder => folder.counted.length :=
    map_congr_left fun folder hmem => congrArg length (h.earlier_full folder hmem).symm
  have hlast : s.last.counted.length + (s.uncounted config).length =
      (countable config s.last.place.1 0 s.last.place.2).length := by
    rw [← length_append]
    exact congrArg length h.last_counted
  rw [Scan.sumFileCount, Scan.folders, map_append, sum_append, map_singleton,
    sum_singleton] at hfull
  rw [← h.visited, map_append, sum_append, Scan.folders, map_append, map_append, sum_append,
    map_singleton, map_singleton, sum_singleton, map_map, Function.comp_def, hearlier] at htotal
  refine h.found_of_counted (List.length_eq_zero_iff.mp (by omega)) fun place hmem => ?_
  have hnone := List.sum_eq_zero_iff_forall_eq_nat.mp
    (show ((s.pending config).map fun place => (countable config place.1 0 place.2).length).sum =
      0 by omega)
  exact length_eq_zero_iff.mp (hnone _ (mem_map_of_mem hmem))

/-- A break leaves all the files counted: at the end of the top directory nothing is left, at the
largest number of files there are no more, and there are not too many folders. -/
theorem ScanInv.found {r : Scan}
    (hbody : scanBody config s = .inr r) : Found config path tree r := by
  rw [scanBody] at hbody
  cases hrest : s.level.rest with
  | done =>
    simp only [hrest] at hbody
    split at hbody
    · cases hbody
    · next hend =>
        split at hbody
        · next houter =>
            cases hbody
            refine h.found_of_counted (uncounted_eq_nil hrest) ?_
            rw [Scan.pending, h.subFolders_todo hrest (eq_false_iff.mpr hend), houter]
            exact fun _ hmem => absurd hmem not_mem_nil
        · cases hbody
  | file name rest =>
    simp only [hrest] at hbody
    split at hbody
    · cases hbody
    · next hname =>
        have haccepts : accepts config s.level.path name false = true := by simpa using hname
        split at hbody
        · next hpass =>
            split at hbody
            · next hfull =>
                cases hbody
                exact (h.count hpass hrest haccepts).found_of_full hlimits hfull
            · cases hbody
        · cases hbody
  | sub name content rest =>
    simp only [hrest] at hbody
    split at hbody
    · cases hbody
    · next hname =>
        have haccepts : accepts config s.level.path name true = true := by simpa using hname
        split at hbody
        · cases hbody
        · next hpass =>
            split at hbody
            · cases hbody
            · split at hbody
              · next hmany =>
                  -- one folder more than there are
                  have hfolders := hlimits.folders_le
                  rw [← h.visited, length_append, length_map, Scan.folders, length_append,
                    Scan.pending, Scan.todo, if_neg hpass, hrest, subFolders,
                      if_pos haccepts] at hfolders
                  simp only [length_cons, length_append, length_nil] at hfolders
                  omega
              · cases hbody

end

/-- The number of entries of a directory. -/
def entryCount : Dir → Nat
  | .done => 0
  | .file _ rest => entryCount rest + 1
  | .sub _ _ rest => entryCount rest + 1

/-- The rounds that the second pass over a directory takes at most, with both passes over each of
its sub-directories. -/
def passWork : Dir → Nat
  | .done => 1
  | .file _ rest => passWork rest + 1
  | .sub _ content rest => entryCount content + 1 + passWork content + passWork rest + 1

/-- The rounds that are left at most. -/
def Scan.work (s : Scan) : Nat :=
  (if s.isFileType then entryCount s.level.rest + 1 + passWork s.level.whole
    else passWork s.level.rest) +
    (s.outer.map fun level => passWork level.rest).sum

theorem passWork_pos (dir : Dir) : 0 < passWork dir := by
  cases dir <;> exact Nat.succ_pos _

/-- Reading an entry is work done. -/
theorem work_read (hcount : entryCount rest < entryCount s.level.rest)
    (hwork : passWork rest < passWork s.level.rest) : (s.read rest).work < s.work := by
  obtain ⟨level, outer, isFileType, hasSubFolder, earlier, last⟩ := s
  cases isFileType with
  | true => exact Nat.add_lt_add_right (Nat.add_lt_add_right (Nat.succ_lt_succ hcount) _) _
  | false => exact Nat.add_lt_add_right hwork _

theorem work_lt {s' : Scan} (hbody : scanBody config s = .inl s') : s'.work < s.work := by
  rw [scanBody] at hbody
  cases hrest : s.level.rest with
  | done =>
    simp only [hrest] at hbody
    split at hbody
    · next hboth =>
        cases hbody
        have hpass := (and_eq_true _ _ ▸ hboth).1
        simp only [Scan.work, Scan.rewind, hpass, hrest, entryCount, if_true, false_eq_true,
          if_false]
        omega
    · split at hbody
      · cases hbody
      · next up outer houter =>
          cases hbody
          have hpos := passWork_pos s.level.rest
          simp only [Scan.work, houter, map_cons, sum_cons, false_eq_true, if_false]
          split <;> omega
  | file name rest =>
    have hread : (s.read rest).work < s.work :=
      work_read (by rw [hrest]; exact Nat.lt_succ_self _) (by rw [hrest]; exact Nat.lt_succ_self _)
    simp only [hrest] at hbody
    split at hbody
    · cases hbody
      exact hread
    · split at hbody
      · split at hbody
        · cases hbody
        · cases hbody
          exact hread
      · cases hbody
        exact hread
  | sub name content rest =>
    have hread : (s.read rest).work < s.work :=
      work_read (by rw [hrest]; exact Nat.lt_succ_self _) (by rw [hrest, passWork]; omega)
    simp only [hrest] at hbody
    split at hbody
    · cases hbody
      exact hread
    · split at hbody
      · cases hbody
        exact hread
      · next hpass =>
          split at hbody
          · cases hbody
            exact hread
          · split at hbody
            · cases hbody
            · cases hbody
              simp only [Scan.work, Scan.descend, Scan.read, map_cons, sum_cons, if_neg hpass,
                hrest,
                passWork, if_true]
              omega

/-- The scan of a tree within the limits ends, and finds what it should. -/
theorem scan_spec (hlimits : WithinLimits config path tree) :
    ∃ r, Ends (scanBody config) (scanStart path tree) r ∧ Found config path tree r := by
  obtain ⟨r, hends⟩ :=
    ends_of_measure Scan.work (fun _ _ hbody => work_lt hbody) (scanStart path tree)
  refine ⟨r, hends, hends.post (ScanInv config path tree) (Found config path tree) (.start hlimits)
    (fun _ _ h => h.again) fun _ _ h => h.found hlimits⟩

end

end SpeakerFirmware.Playlist
