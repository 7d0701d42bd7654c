/-
# Searching with the bitmap and without it

`region_find_item` visits the items whose bit is set in `seg_item_map`; without a bitmap it
visits every item of the segment, one behind the other. In a segment with a row of live and
obsolete slots both find the same: the bitmap marks where valid items start, and no name has
two of them.

A set that does not fit breaks this. `region_set` marks the item it was going to write even
if the flash refused it.
-/

import SpeakerFirmware.Nvram.KeyValue
import SpeakerFirmware.Nvram.SetBounds

namespace SpeakerFirmware.Nvram

open NorFlash
open List

variable {r : RegionInfo} {s : RegionState}
variable {slots : List Slot} {name : List UInt8}

/-! ## The linear walk -/

/-- The region with `seg_item_map` set to `NULL`. -/
def RegionInfo.withoutMap (r : RegionInfo) : RegionInfo :=
  { r with hasItemMap := false }

/-- The offsets in the active segment at which items with the state VALID start. Every item is
visited by its size, from `offs` on. -/
def validStarts (r : RegionInfo) (s : RegionState) : Nat → Nat → List Nat
  | 0, _ => []
  | fuel + 1, offs =>
    if offs < r.segSize then
      let item := readItemHeader s (s.segOffset + offs)
      if item.magic ≠ nvramRegionItemMagic then []
      else
        let rest := validStarts r s fuel (offs + itemGetAlignedSize item)
        if item.state = nvramItemStateValid then offs :: rest else rest
    else []

/-- The offsets of all valid items. -/
def allValidStarts (r : RegionInfo) (s : RegionState) : List Nat :=
  validStarts r s r.segSize nvramSegItemStartOffset

/-- The name stored in an item. -/
def storedName (s : RegionState) (offs : Nat) : List UInt8 :=
  read s.flash (s.segOffset + offs + itemHeaderSize)
    (readItemHeader s (s.segOffset + offs)).nameSize

/-- The bitmap marks the valid items, no name has two of them, and a search finds what it finds
without the bitmap. -/
structure LinearSearch (r : RegionInfo) (s : RegionState) : Prop where
  bits : r.hasItemMap = true → ∀ bit < r.segSize / nvramItemAlignSize,
    (mapBit s.itemMap bit = true ↔ bit * nvramItemAlignSize ∈ allValidStarts r s)
  unique : ((allValidStarts r s).map (storedName s)).Nodup
  find : ∀ name, 0 ∉ name → (regionFindItem r s name).2 = (regionFindItem r.withoutMap s name).2

/-- An item starts where the walk finds one. -/
theorem magic_of_mem_validStarts {fuel offs start : Nat} (h : start ∈ validStarts r s fuel offs) :
    (readItemHeader s (s.segOffset + start)).magic = nvramRegionItemMagic := by
  induction fuel generalizing offs with
  | zero => cases h
  | succ fuel ih =>
    rw [validStarts] at h
    split at h
    case isFalse => cases h
    case isTrue =>
      dsimp only at h
      split at h
      case isTrue => cases h
      case isFalse hmagic =>
        split at h
        case isTrue =>
          rcases mem_cons.mp h with rfl | hrest
          · exact not_not.mp hmagic
          · exact ih hrest
        case isFalse => exact ih h

/-! ## A row of slots -/

/-- Over a row of slots the walk finds the live ones. -/
theorem validStarts_eq (rest : List Slot) : ∀ (done : List Slot) (fuel : Nat), rest.length < fuel →
    Holds s.flash (s.segOffset + nvramSegItemStartOffset) (slotsBytes (done ++ rest)) →
    endOffset (done ++ rest) ≤ r.segSize →
    (r.segSize ≤ endOffset (done ++ rest) ∨
      (readItemHeader s (s.segOffset + endOffset (done ++ rest))).magic ≠ nvramRegionItemMagic) →
    validStarts r s fuel (endOffset done) = liveOffsets rest (endOffset done) := by
  induction rest with
  | nil =>
    intro done fuel hfuel _ _ hstop
    rw [append_nil] at hstop
    obtain ⟨fuel, rfl⟩ := Nat.exists_eq_add_one.mpr hfuel
    rw [validStarts, liveOffsets]
    rcases hstop with hfull | hmagic
    · exact if_neg (Nat.not_lt.mpr hfull)
    · rw [if_pos hmagic, ite_self]
  | cons slot rest ih =>
    intro done fuel hfuel hholds hend hstop
    obtain ⟨fuel, rfl⟩ := Nat.exists_eq_add_one.mpr (Nat.zero_lt_of_lt hfuel)
    have hassoc : done ++ slot :: rest = done ++ [slot] ++ rest := by simp
    have hslot := holds_slot hholds
    have hoffs : endOffset done < r.segSize := by
      have hpos := slot.length_ge
      have hpart := endOffset_slot_le hend
      rw [endOffset_append_cons] at hpart
      simp only [nvramItemAlignSize] at hpos
      omega
    have hnext : endOffset done + itemGetAlignedSize slot.header = endOffset (done ++ [slot]) := by
      rw [endOffset_append_cons, slot.length_bytes]
    have hrest :=
      ih (done ++ [slot]) fuel (Nat.lt_of_succ_lt_succ hfuel) (hassoc ▸ hholds) (hassoc ▸ hend)
      (hassoc ▸ hstop)
    rw [validStarts, if_pos hoffs]
    dsimp only
    rw [readItemHeader_slot hslot, if_neg (not_not.mpr slot.header_magic), hnext, hrest,
      endOffset_append_cons]
    cases slot with
    | live item => exact if_pos item.header_state
    | dead bytes obsolete =>
      refine if_neg fun hvalid => ?_
      have hdead : (Slot.dead bytes obsolete).header.state = nvramItemStateObsolete :=
        obsolete.state
      exact absurd (hdead.symm.trans hvalid) (by decide)

/-- The names stored in the live slots. -/
theorem storedName_liveOffsets (slots : List Slot) : ∀ base,
    Holds s.flash (s.segOffset + base) (slotsBytes slots) →
    (liveOffsets slots base).map (storedName s) = (names slots).map cstr := by
  induction slots with
  | nil => exact fun _ _ => rfl
  | cons slot rest ih =>
    intro base hholds
    rw [slotsBytes_cons, holds_append] at hholds
    obtain ⟨hslot, hrest⟩ := hholds
    rw [Nat.add_assoc] at hrest
    have htail := ih _ hrest
    cases slot with
    | live item =>
      have hname : storedName s base = cstr item.name := by
        rw [storedName, readItemHeader_slot hslot]
        exact (holds_live hslot).2.1
      rw [liveOffsets, names_live, map_cons, map_cons, hname, htail]
    | dead bytes obsolete =>
      rw [liveOffsets, names_dead]
      exact htail

theorem cstr_injective : Function.Injective cstr := fun _ _ h => append_cancel_right h

theorem Ready.linearSearch (h : Ready r s slots) : LinearSearch r s := by
  have hholds := h.holds.body.holds
  have hfits := h.holds.body.fits
  have hstarts : allValidStarts r s = liveOffsets slots nvramSegItemStartOffset :=
    validStarts_eq slots [] r.segSize (lt_of_lt_of_le (length_slots_lt slots) hfits) hholds hfits
      h.holds.body.stop
  refine ⟨?_, ?_, ?_⟩
  · rw [hstarts]
    exact h.marks.bits
  · rw [hstarts, storedName_liveOffsets slots _ hholds]
    exact h.nodup.map cstr_injective
  · intro name hname
    obtain ⟨b, hfind, -⟩ := h.find hname
    obtain ⟨b', hlinear, -⟩ := regionFindItem_eq (r := r.withoutMap) h.holds.seg
      ⟨hfits, hholds, h.holds.body.free⟩ ⟨nofun, nofun⟩ hname
    rw [hfind, hlinear]

/-! ## Runs -/

/-- Erased flash has no headers. -/
theorem blank_of_erased {f : Image} (h : Erased f 0 r.totalSize) : Blank r f := by
  intro offs hseg
  have hle := hseg.le
  have hsize := header_le_segSize r
  have herased : Erased f offs segHeaderSize :=
    h.mono (Nat.zero_le _) (by simp only [segHeaderSize]; omega)
  exact ⟨isSegHeaderInState_erased herased _, isSegHeaderInState_erased herased _⟩

/-- A set has a C string for its name; it is refused, or writes nothing new, or there is room for
the new item beside the live ones. -/
def Call.Fitting (r : RegionInfo) (s : RegionState) : Call → Prop
  | .set name data => 0 ∉ name ∧
      (¬ ValidSet name data ∨ (regionIsSameConfigData r s name data).2 = true ∨ Fits r s name data)
  | .purge _ => True
  | .reboot => True

/-- Every call fits in the state it is made in. -/
def AllFitting (r : RegionInfo) : RegionState → List Call → Prop
  | _, [] => True
  | s, c :: cs => c.Fitting r s ∧ AllFitting r (call r s c) cs

theorem Ready.set (h : Ready r s slots) {data : List UInt8} (hname : 0 ∉ name)
    (hfits : ¬ ValidSet name data ∨ (regionIsSameConfigData r s name data).2 = true ∨
      Fits r s name data) :
    ∃ slots', Ready r (regionSet r s name data).1 slots' := by
  by_cases hvalid : ValidSet name data
  case neg =>
    rw [regionSet_of_not_valid hname hvalid]
    exact ⟨slots, h⟩
  case pos =>
    by_cases hdata : data = []
    case pos =>
      subst hdata
      obtain ⟨slots', -, hready, -⟩ := h.delete hvalid
      exact ⟨slots', hready⟩
    case neg =>
      rcases hfits.resolve_left (not_not.mpr hvalid) with hsame | hroom
      · obtain ⟨b, hb⟩ := onlyBuf_isSame (r := r) s name data
        rw [regionSet_eq hvalid hdata (Prod.ext hb hsame), if_pos rfl]
        exact ⟨slots, h.withBuf b⟩
      · obtain ⟨slots', -, hready, -⟩ := h.store hvalid hdata (hroom.resolve_left hdata)
        exact ⟨slots', hready⟩

theorem Ready.call (h : Ready r s slots) {c : Call} (hc : c.Fitting r s) :
    ∃ slots', Ready r (Nvram.call r s c) slots' := by
  cases c with
  | set name data => exact h.set hc.1 hc.2
  | purge checkCrc =>
    obtain ⟨-, hready, -⟩ := h.purge checkCrc
    exact ⟨liveSlots slots, hready⟩
  | reboot =>
    obtain ⟨slots', hready, -⟩ := h.recoverable.scan
    exact ⟨slots', hready⟩

theorem Ready.calls (h : Ready r s slots) {cs : List Call} (hcs : AllFitting r s cs) :
    ∃ slots', Ready r (Nvram.calls r s cs) slots' := by
  induction cs generalizing s slots with
  | nil => exact ⟨slots, h⟩
  | cons c cs ih =>
    obtain ⟨slots', hready⟩ := h.call hcs.1
    exact ih hready hcs.2

/-- On an erased region, after any scans, purges and sets that fit. -/
theorem bitmap_search_is_linear {f : Image} (hf : Erased f 0 r.totalSize) {cs : List Call}
    (hcs : AllFitting r (regionScan r (powerOn r f)) cs) :
    LinearSearch r (calls r (regionScan r (powerOn r f)) cs) := by
  obtain ⟨slots, hready⟩ := (blank_of_erased hf).scan.1.calls hcs
  exact hready.linearSearch

/-- Two items, the first of them written again, then a purge and a reboot. -/
def rewrittenCalls : List Call :=
  [.set [0x61] [1, 2], .set [0x62] [3], .set [0x61] [4], .purge false, .reboot]

theorem bitmap_search_is_linear_user :
    LinearSearch userNvramRegion (calls userNvramRegion
      (regionScan userNvramRegion (powerOn userNvramRegion fun _ => 0xff)) rewrittenCalls) := by
  have hcs : AllFitting userNvramRegion
      (regionScan userNvramRegion (powerOn userNvramRegion fun _ => 0xff)) rewrittenCalls :=
    ⟨⟨by decide, .inr (.inr (by decide +kernel))⟩, ⟨by decide, .inr (.inr (by decide +kernel))⟩,
      ⟨by decide, .inr (.inr (by decide +kernel))⟩, trivial, trivial, trivial⟩
  exact bitmap_search_is_linear (fun _ _ _ => rfl) hcs

/-! ## A set that does not fit -/

theorem onlyBuf_writeDataPieces_outside {offset : Nat} (houtside : r.totalSize < offset)
    (data : List (List UInt8)) : OnlyBuf s (writeDataPieces r s offset data) := by
  induction data generalizing s offset with
  | nil => exact .refl s
  | cons piece rest ih =>
    rw [writeDataPieces, regionWrite, if_pos (by omega)]
    have hfill : OnlyBuf s { s with buf := piece ++ s.buf.drop piece.length } := ⟨_, rfl⟩
    exact hfill.trans (ih (by omega))

/-- At the end of the region the flash refuses the item. -/
theorem onlyBuf_regionWriteItem_outside {offset : Nat} (data : List UInt8)
    (houtside : r.totalSize < offset + itemHeaderSize + (name.length + 1)) :
    OnlyBuf s (regionWriteItem r s offset name data) := by
  have hhead : (newItemHeader name data ++ cstr name).length =
      itemHeaderSize + (name.length + 1) := by
    rw [length_append, cstr, length_append]
    rfl
  unfold regionWriteItem
  dsimp only
  split
  · exact .refl s
  · rw [take_append_of_le_length le_rfl, take_length, regionWrite, if_pos (by omega)]
    have hfill : OnlyBuf s { s with
        buf := newItemHeader name data ++ cstr name ++
          s.buf.drop (newItemHeader name data ++ cstr name).length } := ⟨_, rfl⟩
    exact hfill.trans (onlyBuf_writeDataPieces_outside (by omega) _)

/-- The item that was refused is marked all the same. -/
theorem Laid.refused_is_marked {row : List RawItem} (h : Laid r s row) (hmap : r.hasItemMap = true)
    (data : List UInt8) (hnew : ∀ item ∈ row, ¬ item.Matches (r.memory (cstr name)))
    (hroom : rowEnd row < r.segSize)
    (houtside : r.totalSize < s.segWriteOffset + itemHeaderSize + (name.length + 1)) :
    ¬ LinearSearch r (Nvram.replaceItem r s name data) := by
  obtain ⟨b, hfind, -⟩ := h.searchable.find name
  rw [findRow_eq_none hnew] at hfind
  obtain ⟨b', hwrite⟩ := onlyBuf_regionWriteItem_outside (r := r) (s := s.withBuf b) data houtside
  have hstate : Nvram.replaceItem r s name data = { (s.withBuf b').mark (rowEnd row) true with
      segWriteOffset :=
        s.segWriteOffset + itemCalcAlignedSize (cstr name).length data.length } := by
    have hoffs : s.segWriteOffset - s.segOffset = rowEnd row := by
      rw [h.write]
      omega
    rw [Nvram.replaceItem, hfind]
    dsimp only
    rw [withBuf_segWriteOffset, hwrite]
    dsimp only [RegionState.withBuf]
    rw [hoffs]
    rfl
  intro hlinear
  rw [hstate] at hlinear
  have hdvd := dvd_rowEnd row
  have hseg := sixteen_dvd_segSize r
  have hsized := h.sized hmap
  have hset : mapBit (itemBitmapUpdate s.itemMap (rowEnd row) true)
      (rowEnd row / nvramItemAlignSize) = true := by
    rw [mapBit_itemBitmapUpdate _ _ _ (by simp only [nvramItemAlignSize] at *; omega), if_pos rfl]
  have hmem := (hlinear.bits hmap (rowEnd row / nvramItemAlignSize)
    (by simp only [nvramItemAlignSize] at *; omega)).mp hset
  rw [Nat.div_mul_cancel hdvd] at hmem
  have hmagic := magic_of_mem_validStarts hmem
  have hbyte : s.flash (s.segOffset + rowEnd row) = nvramRegionItemMagic := hmagic
  have herased := h.free (s.segOffset + rowEnd row) le_rfl (by omega)
  rw [herased] at hbyte
  exact absurd hbyte (by decide)

/-- Sixteen names of two letters. Fifteen of them have 512 bytes, and the last one fills up the
segment but for sixteen bytes. -/
def fillItem (i : Fin 16) : Item where
  name := [0x41, 0x41 + UInt8.ofNat i]
  data := List.replicate (if i = 15 then 229 else 512) 0
  name_nul := by
    revert i
    decide
  name_lt := (by decide : 2 < 112)
  data_pos := by
    rw [length_replicate]
    split <;> decide
  data_le := by
    rw [length_replicate]
    split <;> decide

theorem sum_fillItem_size : (((List.finRange 16).map fillItem).map Item.size).sum = 8160 := by
  have hsize : Item.size ∘ fillItem = fun i => if i = 15 then 240 else 528 := by
    funext i
    simp only [Function.comp_apply, Item.size, fillItem, length_replicate, length_cons, length_nil]
    split <;> decide
  rw [map_map, hsize]
  rfl

/-- Four purges of a new region, the sixteen items, and one more, for whose name there is no
room. -/
def overfill : List Call :=
  List.replicate 4 (.purge false) ++ ((List.finRange 16).map fillItem).map
    (fun item => .set item.name item.data) ++
    [.set (List.replicate 8 0x61) [1]]

theorem calls_append (s : RegionState) (first second : List Call) :
    calls r s (first ++ second) = calls r (calls r s first) second :=
  foldl_append

theorem calls_sets (s : RegionState) (items : List Item) :
    calls r s (items.map fun item => .set item.name item.data) = storeAll r s items :=
  foldl_map

/-- Purges of a new region move it to the fifth segment. -/
theorem laid_purged : ∀ n ≤ 4,
    Laid userNvramRegion (calls userNvramRegion
        (regionScan userNvramRegion (powerOn userNvramRegion fun _ => 0xff))
          (List.replicate n (.purge false))) [] ∧
      (calls userNvramRegion (regionScan userNvramRegion (powerOn userNvramRegion fun _ => 0xff))
        (List.replicate n (.purge false))).segOffset = n * 0x2000 := by
  intro n hn
  induction n with
  | zero =>
    have hinit := newSeg_regionInitNewSeg (isSeg_zero userNvramRegion)
      (mapSized_powerOn userNvramRegion fun _ => 0xff)
    rw [(blank_erased _).scan_eq]
    exact ⟨laid_init (mapSized_powerOn _ _), hinit.segOffset⟩
  | succ n ih =>
    obtain ⟨hlaid, hseg⟩ := ih (Nat.le_of_succ_le hn)
    obtain ⟨-, hlaid', hseg', -⟩ := hlaid.purge false
    rw [replicate_succ', calls_append]
    refine ⟨hlaid', hseg'.trans ?_⟩
    have hsize : userNvramRegion.segSize = 0x2000 := rfl
    have htotal : userNvramRegion.totalSize = 0xc000 := rfl
    rw [nextSegOffset, hseg, if_neg (by omega), hsize]
    omega

/-- The purge before the last set frees nothing and moves the row to the last segment, where the
item is refused. -/
theorem refused_item_is_marked :
    ¬ LinearSearch userNvramRegion (calls userNvramRegion
      (regionScan userNvramRegion (powerOn userNvramRegion fun _ => 0xff)) overfill) := by
  have hsize : userNvramRegion.segSize = 0x2000 := rfl
  have htotal : userNvramRegion.totalSize = 0xc000 := rfl
  obtain ⟨hlaid, hseg⟩ := laid_purged 4 le_rfl
  rw [overfill, calls_append, calls_append, calls_sets]
  generalize calls userNvramRegion _ (List.replicate 4 (.purge false)) = s at hlaid hseg
  have hnodup : (((List.finRange 16).map fillItem).map Item.name).Nodup := by decide
  have hstored :=
    Laid.storeAll (P := fun t => t.segOffset = s.segOffset) ((List.finRange 16).map fillItem)
    (fun _ _ hp _ hsame => hsame.trans hp) rfl hlaid nofun hnodup
      (by rw [sum_fillItem_size]; decide)
  rw [nil_append] at hstored
  generalize storeAll userNvramRegion s _ = t at hstored
  obtain ⟨hsame, hlaid⟩ := hstored
  have hall : ∀ item ∈ ((List.finRange 16).map fillItem).map Item.raw,
      item.status = .valid ∧
        ¬ item.Matches (userNvramRegion.memory (cstr (List.replicate 8 0x61))) := by
    intro item hmem
    obtain ⟨fill, hfill, rfl⟩ := mem_map.mp hmem
    obtain ⟨i, -, rfl⟩ := mem_map.mp hfill
    refine ⟨(fillItem i).status_raw, fun hmatch => ?_⟩
    exact absurd (congrArg List.length ((Item.matches_raw (by decide) _).mp hmatch))
      (by decide : ¬ 2 = 8)
  have hend : rowEnd (((List.finRange 16).map fillItem).map Item.raw) = 8176 := by
    rw [rowEnd, length_rowBytes_raw, sum_fillItem_size]
    rfl
  generalize ((List.finRange 16).map fillItem).map Item.raw = row at hlaid hall hend
  obtain ⟨b, hb⟩ := onlyBuf_isSame (r := userNvramRegion) t (List.replicate 8 0x61) [1]
  have hnew : regionIsSameConfigData userNvramRegion t (List.replicate 8 0x61) [1] =
      (t.withBuf b, false) :=
    Prod.ext hb (hlaid.isSame_new [1] fun item hmem => (hall item hmem).2)
  obtain ⟨-, hpurged, hpurgedSeg, -⟩ := (hlaid.withBuf b).purge false
  have hprepare : regionPrepareWriteItem userNvramRegion (t.withBuf b)
      (itemCalcAlignedSize (cstr (List.replicate 8 0x61)).length ([1] : List UInt8).length) =
      regionPurgeSeg userNvramRegion (t.withBuf b) false := by
    have hwrite := hlaid.write
    have hnewSize : itemCalcAlignedSize (cstr (List.replicate 8 0x61)).length
        ([1] : List UInt8).length = 32 := by decide
    rw [regionPrepareWriteItem, hnewSize, withBuf_segWriteOffset, withBuf_segOffset,
      if_pos (by omega)]
  rw [calls, foldl_cons, foldl_nil, call,
    regionSet_eq ⟨by decide, by decide, by decide⟩ (by decide) hnew, if_neg Bool.false_ne_true,
      hprepare]
  have hcopies : rowEnd (copyRow row) = 8176 := by
    rw [← hend, rowEnd, length_copyRow_of_valid fun item hmem => (hall item hmem).1, rowEnd]
  refine hpurged.refused_is_marked rfl [1] ?_ (by omega) ?_
  · intro copy hmem hmatch
    obtain ⟨item, hitem, rfl, -⟩ := mem_copyRow hmem
    exact (hall item hitem).2 ((item.matches_packed _).mp hmatch)
  · have hwrite := hpurged.write
    rw [nextSegOffset, withBuf_segOffset, hsame, hseg, if_neg (by omega)] at hpurgedSeg
    rw [hwrite, hpurgedSeg, hcopies, length_replicate]
    decide

end SpeakerFirmware.Nvram
