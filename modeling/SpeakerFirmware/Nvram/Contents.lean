/-
# The contents of the active segment

The row of slots of a segment is a log of names and values, and the map it stands
for is what the store is about. `Ready` is the state between two calls: one valid
segment, its row without duplicate names, and the driver's RAM in step with it. In
such a state `region_get` reads the map.
-/

import SpeakerFirmware.Lib.LogMap
import SpeakerFirmware.Nvram.Move

namespace SpeakerFirmware.Nvram

open NorFlash
open List

variable {r : RegionInfo}
variable {name : List UInt8} {done rest : List Slot} {item : Item}

/-! ## The map of a row -/

/-- The name and the value of an item. -/
def Item.entry (item : Item) : List UInt8 × List UInt8 := (item.name, item.data)

/-- The names and values of the live slots, the oldest first. -/
def entries (slots : List Slot) : List (List UInt8 × List UInt8) :=
  (liveItems slots).map Item.entry

/-- The names of the live slots. -/
def names (slots : List Slot) : List (List UInt8) := (entries slots).map Prod.fst

/-- The map a row of slots stands for. -/
def contents (slots : List Slot) : List UInt8 → Option (List UInt8) :=
  LogMap.valueOf (entries slots)

@[simp]
theorem entries_nil : entries [] = [] := rfl

@[simp]
theorem entries_live (item : Item) (slots : List Slot) :
    entries (.live item :: slots) = (item.name, item.data) :: entries slots := rfl

@[simp]
theorem entries_dead (bytes : List UInt8) (obsolete : IsDead bytes) (slots : List Slot) :
    entries (.dead bytes obsolete :: slots) = entries slots := rfl

@[simp]
theorem entries_append (first second : List Slot) :
    entries (first ++ second) = entries first ++ entries second := by
  simp [entries, liveItems]

@[simp]
theorem entries_liveSlots (slots : List Slot) : entries (liveSlots slots) = entries slots := by
  rw [entries, liveItems_liveSlots, entries]

@[simp]
theorem names_nil : names [] = [] := rfl

@[simp]
theorem names_live (item : Item) (slots : List Slot) :
    names (.live item :: slots) = item.name :: names slots := rfl

@[simp]
theorem names_dead (bytes : List UInt8) (obsolete : IsDead bytes) (slots : List Slot) :
    names (.dead bytes obsolete :: slots) = names slots := rfl

@[simp]
theorem names_append (first second : List Slot) :
    names (first ++ second) = names first ++ names second := by
  simp [names]

theorem names_liveSlots (slots : List Slot) : names (liveSlots slots) = names slots := by
  rw [names, entries_liveSlots, names]

theorem contents_liveSlots (slots : List Slot) : contents (liveSlots slots) = contents slots := by
  rw [contents, entries_liveSlots, contents]

/-- Appending an item updates its name. -/
theorem contents_append_live (slots : List Slot) (item : Item) :
    contents (slots ++ [.live item]) =
      Function.update (contents slots) item.name (some item.data) := by
  rw [contents, entries_append]
  exact LogMap.valueOf_append_singleton _ _ _

theorem contents_eq_none_iff {slots : List Slot} :
    contents slots name = none ↔ name ∉ names slots :=
  LogMap.valueOf_eq_none_iff

/-! ## Retired items -/

/-- An item whose state byte was programmed to obsolete. -/
def Item.retired (item : Item) : Slot :=
  .dead ((Slot.live item).bytes.set 1 nvramItemStateObsolete) (by
    have htake : ((Slot.live item).bytes.set 1 nvramItemStateObsolete).take itemHeaderSize =
        item.header.bytes.set 1 nvramItemStateObsolete := by
      rw [take_set, Slot.take_bytes]
      rfl
    refine ⟨?_, ?_, ?_⟩
    · rw [htake]
      rfl
    · rw [htake]
      rfl
    · rw [length_set, Slot.length_bytes, htake]
      rfl)

theorem Item.length_retired (item : Item) :
    item.retired.bytes.length = (Slot.live item).bytes.length := by
  simp only [retired, Slot.bytes, length_set]

theorem endOffset_retired (done rest : List Slot) (item : Item) :
    endOffset (done ++ item.retired :: rest) = endOffset (done ++ .live item :: rest) := by
  simp only [endOffset, slotsBytes_append, slotsBytes_cons, length_append, item.length_retired]

section

variable {f : Image} {offs : Nat} {seqId : UInt8}

/-- A segment behind an operation that marks one of its items obsolete. -/
theorem HoldsSeg.obsolete {before bytes after : List UInt8}
    (h : HoldsSeg r f offs seqId (before ++ (bytes ++ after))) (honly : OnlyValid r f [offs])
    (hlen : 2 ≤ bytes.length) (hstate : bytes.getD 1 0 = nvramItemStateValid) :
    HoldsSeg r ((obsoleteOp (offs + (nvramSegItemStartOffset + before.length))).apply f) offs seqId
        (before ++ (bytes.set 1 nvramItemStateObsolete ++ after)) ∧
      OnlyValid r ((obsoleteOp (offs + (nvramSegItemStartOffset + before.length))).apply f)
        [offs] := by
  have hfits := h.body.fits
  have hsame : (before ++ (bytes.set 1 nvramItemStateObsolete ++ after)).length =
      (before ++ (bytes ++ after)).length := by
    simp only [length_append, length_set]
  have hop : AllWithin (offs + (nvramSegItemStartOffset + before.length))
      (offs + (nvramSegItemStartOffset + before.length) + bytes.length)
      [obsoleteOp (offs + (nvramSegItemStartOffset + before.length))] :=
    allWithin_obsoleteOp (Nat.le_succ _) (by omega)
  refine ⟨⟨h.seg, ?_, ?_, ?_, ?_⟩, ?_⟩
  · apply hop.holds h.header (.inl _)
    rw [length_newSegHeader]
    simp only [segHeaderSize, nvramSegItemStartOffset]
    omega
  · rw [hsame]
    exact hfits
  · rw [← Nat.add_assoc]
    exact holds_obsoleteOp h.body.holds hlen hstate
  · rw [hsame]
    apply hop.erased h.body.free (.inr _)
    rw [length_append, length_append]
    omega
  · apply honly.congr_of_mem h.seg mem_cons_self
    intro a ha
    simp only [length_append] at hfits
    exact (hop.mono (Nat.le_add_right _ _) (by omega)).applyAll_eq f ha

/-- A segment behind an operation that retires one of its items. -/
theorem HoldsSeg.retire {tail : List UInt8}
    (h : HoldsSeg r f offs seqId (slotsBytes (done ++ .live item :: rest) ++ tail))
    (honly : OnlyValid r f [offs]) :
    HoldsSeg r ((obsoleteOp (offs + endOffset done)).apply f) offs seqId
        (slotsBytes (done ++ item.retired :: rest) ++ tail) ∧
      OnlyValid r ((obsoleteOp (offs + endOffset done)).apply f) [offs] := by
  have hsplit : ∀ slot : Slot, slotsBytes (done ++ slot :: rest) ++ tail =
      slotsBytes done ++ (slot.bytes ++ (slotsBytes rest ++ tail)) := by
    intro slot
    simp
  rw [hsplit] at h ⊢
  exact h.obsolete honly (le_trans (by decide) (Slot.live item).length_ge) rfl

end

/-- Retiring the only item of a name deletes the name. -/
theorem contents_retire
    (hnodup : (names (done ++ .live item :: rest)).Nodup) :
    contents (done ++ item.retired :: rest) =
      Function.update (contents (done ++ .live item :: rest)) item.name none := by
  rw [names_append, names_live, nodup_append] at hnodup
  obtain ⟨-, hrest, hdisjoint⟩ := hnodup
  have hdone : item.name ∉ names done := fun hmem =>
    hdisjoint item.name hmem item.name mem_cons_self rfl
  rw [contents, contents, entries_append, entries_append, entries_live]
  exact LogMap.valueOf_drop_only item.data hdone (nodup_cons.mp hrest).1

/-- Retiring an item that a later one overwrites changes nothing. -/
theorem contents_retire_overwritten (done : List Slot)
    (h : item.name ∈ names rest) :
    contents (done ++ item.retired :: rest) = contents (done ++ .live item :: rest) := by
  rw [contents, contents, entries_append, entries_append, entries_live]
  exact (LogMap.valueOf_drop_overwritten item.data h).symm

theorem names_retire (done rest : List Slot) (item : Item) :
    names (done ++ item.retired :: rest) = names done ++ names rest := by
  rw [names_append]
  rfl

/-! ## Searching a row -/

/-- What a search in a row of slots comes to. -/
theorem findLive_cases (name : List UInt8) (slots : List Slot) (base : Nat) :
    (findLive name slots base = none ∧ name ∉ names slots) ∨
      ∃ done item rest, slots = done ++ .live item :: rest ∧ item.name = name ∧
        name ∉ names done ∧
        findLive name slots base = some (base + (slotsBytes done).length, item) := by
  induction slots generalizing base with
  | nil => exact .inl ⟨rfl, not_mem_nil⟩
  | cons slot slots ih =>
    cases slot with
    | dead bytes obsolete =>
      rcases ih (base + bytes.length) with
        ⟨hnone, hnot⟩ | ⟨done, item, rest, rfl, hname, hnot, hfind⟩
      · exact .inl ⟨hnone, hnot⟩
      · refine .inr ⟨.dead bytes obsolete :: done, item, rest, rfl, hname, hnot, ?_⟩
        rw [findLive, hfind, slotsBytes_cons, length_append, Nat.add_assoc]
        rfl
    | live item =>
      by_cases heq : item.name = name
      · refine .inr ⟨[], item, slots, rfl, heq, not_mem_nil, ?_⟩
        rw [findLive, if_pos heq]
        rfl
      · have hskip : findLive name (.live item :: slots) base =
            findLive name slots (base + (Slot.live item).bytes.length) := by
          rw [findLive, if_neg heq]
        rcases ih (base + (Slot.live item).bytes.length) with
          ⟨hnone, hnot⟩ | ⟨done, item', rest, rfl, hname, hnot, hfind⟩
        · refine .inl ⟨hskip.trans hnone, ?_⟩
          rw [names_live, mem_cons, not_or]
          exact ⟨fun h => heq h.symm, hnot⟩
        · refine .inr ⟨.live item :: done, item', rest, rfl, hname, ?_, ?_⟩
          · rw [names_live, mem_cons, not_or]
            exact ⟨fun h => heq h.symm, hnot⟩
          · rw [hskip, hfind, slotsBytes_cons, length_append, Nat.add_assoc]

theorem findLive_of_not_mem {done rest : List Slot} {item : Item} (h : item.name ∉ names done)
    (base : Nat) :
    findLive item.name (done ++ .live item :: rest) base =
      some (base + (slotsBytes done).length, item) := by
  induction done generalizing base with
  | nil => rw [nil_append, findLive, if_pos rfl, slotsBytes_nil, length_nil, Nat.add_zero]
  | cons slot done ih =>
    cases slot with
    | live other =>
      rw [names_live, mem_cons, not_or] at h
      rw [cons_append, findLive, if_neg (Ne.symm h.1), ih h.2, slotsBytes_cons,
        length_append, Nat.add_assoc]
    | dead bytes obsolete =>
      rw [names_dead] at h
      rw [cons_append, findLive, ih h, slotsBytes_cons, length_append, Nat.add_assoc]
      rfl

/-- Behind the row of a segment there is no item. -/
theorem SegBody.stop {s : RegionState} {content : List UInt8}
    (h : SegBody r s.flash s.segOffset content) :
    r.segSize ≤ nvramSegItemStartOffset + content.length ∨
      (readItemHeader s (s.segOffset + (nvramSegItemStartOffset + content.length))).magic ≠
        nvramRegionItemMagic := by
  rcases Nat.lt_or_ge (nvramSegItemStartOffset + content.length) r.segSize with hlt | hge
  · right
    have hbyte : (readItemHeader s
        (s.segOffset + (nvramSegItemStartOffset + content.length))).magic =
        s.flash (s.segOffset + (nvramSegItemStartOffset + content.length)) :=
      getD_read s.flash _ itemHeaderSize 0 (by decide) 0
    rw [hbyte, h.free _ le_rfl (by omega)]
    decide
  · exact .inl hge

section

variable {s : RegionState} {slots : List Slot}

/-- What a search in the row of a segment comes to. -/
theorem findRow_slots (hname : 0 ∉ name) (hend : endOffset slots ≤ r.segSize)
    (hmarks : MarksLive r s.itemMap slots) :
    findRow r s.itemMap (r.memory (cstr name)) (rawRow slots) nvramSegItemStartOffset =
      (findLive name slots nvramSegItemStartOffset).map fun found => (found.1, found.2.raw) := by
  have hfind := findRow_rawRow hname (r.behind (cstr name)) slots []
    nvramSegItemStartOffset fun _ => hmarks.visible hend
  rwa [append_nil, findRow, Option.or_none] at hfind

section

variable (hseg : IsSeg r s.segOffset) (hbody : SegBody r s.flash s.segOffset (slotsBytes slots))
  (hmarks : MarksLive r s.itemMap slots)
include hseg hbody hmarks

/-- A segment that holds a row of slots can be searched. -/
theorem searchable_rawRow : Searchable r s (rawRow slots) := by
  refine ⟨hseg, ?_, ?_, hmarks.within, ?_⟩
  · rw [rowBytes_rawRow]
    exact hbody.holds
  · rw [rowEnd_rawRow]
    exact hbody.fits
  · rw [rowEnd_rawRow]
    exact hbody.stop.imp_left (Nat.le_antisymm hbody.fits)

/-- `region_find_item` in a segment whose bitmap marks the row. -/
theorem regionFindItem_eq (hname : 0 ∉ name) :
    ∃ b, regionFindItem r s name =
        (s.withBuf b, (findLive name slots nvramSegItemStartOffset).map (foundAt s.segOffset)) ∧
      ((findLive name slots nvramSegItemStartOffset).isSome →
        b.take (name.length + 1) = cstr name) := by
  obtain ⟨b, hfind, hbuf⟩ := (searchable_rawRow hseg hbody hmarks).find name
  rw [findRow_slots hname hbody.fits hmarks] at hfind hbuf
  refine ⟨b, ?_, ?_⟩
  · rw [hfind, Option.map_map]
    rfl
  · rcases findLive_cases name slots nvramSegItemStartOffset with
      ⟨hnone, -⟩ | ⟨done, item, rest, -, hitem, -, hsome⟩
    · rw [hnone]
      exact nofun
    · have htake := hbuf _ item.raw (by rw [hsome]; rfl)
      rw [item.header_raw, item.header_nameSize, item.parts_raw.1, hitem] at htake
      exact fun _ => htake

end

end

/-! ## The state between two calls -/

/-- The flash has one valid segment, with this row of slots, and the RAM of the
driver agrees with it. -/
structure Synced (r : RegionInfo) (s : RegionState) (slots : List Slot) : Prop where
  holds : HoldsSeg r s.flash s.segOffset s.segSeqId (slotsBytes slots)
  only : OnlyValid r s.flash [s.segOffset]
  write : s.segWriteOffset = s.segOffset + endOffset slots
  marks : MarksLive r s.itemMap slots

/-- The state between two calls: no name has two live slots. -/
structure Ready (r : RegionInfo) (s : RegionState) (slots : List Slot) : Prop
    extends Synced r s slots where
  nodup : (names slots).Nodup

theorem Synced.withBuf {s : RegionState} {slots : List Slot} (h : Synced r s slots)
    (b : List UInt8) : Synced r (s.withBuf b) slots :=
  ⟨h.holds, h.only, h.write, h.marks⟩

/-- Retiring an item in the flash and in the bitmap. -/
theorem Synced.retire {s : RegionState}
    (h : Synced r s (done ++ .live item :: rest)) :
    Synced r ((s.issue [obsoleteOp (s.segOffset + endOffset done)]).mark (endOffset done) false)
      (done ++ item.retired :: rest) := by
  have hholds := h.holds
  rw [← append_nil (slotsBytes _)] at hholds
  obtain ⟨hretired, honly⟩ := hholds.retire h.only
  rw [append_nil] at hretired
  refine ⟨hretired, honly, ?_, ?_⟩
  · rw [endOffset_retired]
    exact h.write
  · exact h.marks.obsolete (by rw [length_set])

namespace Ready

variable {s : RegionState} {slots : List Slot}

section

variable (h : Ready r s slots)
include h

theorem withBuf (b : List UInt8) : Ready r (s.withBuf b) slots :=
  ⟨h.toSynced.withBuf b, h.nodup⟩

theorem stop : r.segSize ≤ endOffset slots ∨
    (readItemHeader s (s.segOffset + endOffset slots)).magic ≠ nvramRegionItemMagic :=
  h.holds.body.stop

theorem find (hname : 0 ∉ name) : ∃ b, regionFindItem r s name =
        (s.withBuf b, (findLive name slots nvramSegItemStartOffset).map (foundAt s.segOffset)) ∧
      ((findLive name slots nvramSegItemStartOffset).isSome →
        b.take (name.length + 1) = cstr name) :=
  regionFindItem_eq h.holds.seg h.holds.body h.marks hname

end

section

variable (h : Ready r s (done ++ .live item :: rest))
include h

/-- The value of a live item. -/
theorem contents_eq : contents (done ++ .live item :: rest) item.name = some item.data := by
  apply LogMap.valueOf_of_mem h.nodup
  rw [entries_append, entries_live]
  exact mem_append_right _ mem_cons_self

/-- A live item, at its place in the flash. -/
theorem holds_item : Holds s.flash (s.segOffset + endOffset done) (Slot.live item).bytes ∧
      s.segOffset + endOffset done + (Slot.live item).bytes.length ≤ s.segOffset + r.segSize := by
  have hend := endOffset_slot_le h.holds.body.fits
  rw [endOffset_append_cons] at hend
  exact ⟨holds_slot h.holds.body.holds, by omega⟩

end

end Ready

/-- What `region_get` returns for a value. -/
def readBack (value : Option (List UInt8)) (maxLen : Nat) : Except Errno (List UInt8) :=
  match value with
  | some data => .ok (data.take maxLen)
  | none => .error .enoent

/-- `region_get` reads the map of the active segment, and changes nothing but the
shared buffer. -/
theorem Ready.get {s : RegionState} {slots : List Slot} (h : Ready r s slots)
    (hname : 0 ∉ name) {maxLen : Nat} (hlen : 0 < maxLen) :
    ∃ b, regionGet r s name maxLen = (s.withBuf b, readBack (contents slots name) maxLen) := by
  have hbody := h.holds.body
  obtain ⟨b, hget⟩ := (searchable_rawRow h.holds.seg hbody h.marks).get name hlen
  refine ⟨b, ?_⟩
  rw [hget, findRow_slots hname hbody.fits h.marks]
  rcases findLive_cases name slots nvramSegItemStartOffset with
    ⟨hnone, hnot⟩ | ⟨done, item, rest, rfl, rfl, -, hsome⟩
  · rw [hnone, contents_eq_none_iff.mpr hnot]
    rfl
  · rw [hsome, h.contents_eq, Option.map_some, getRow]
    dsimp only
    rw [if_neg (not_not.mpr item.crc_raw), item.parts_raw.2]
    rfl

end SpeakerFirmware.Nvram
