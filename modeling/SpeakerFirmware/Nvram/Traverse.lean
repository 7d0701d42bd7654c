/-
# Walking the store while it changes

`region_traverse` hands the name of every valid item to a callback, and the callback may
call `region_set` on the store that is being walked. The walk keeps no pointer into the
flash but the offset of the next item, which it computes from a header that it read before
the callback, and the bitmap, which it asks after it. So a callback that deletes the item
it was called for does not disturb it: the deleted item keeps its place in the row.
-/

import SpeakerFirmware.Nvram.KeyValue

namespace SpeakerFirmware.Nvram

open NorFlash
open List

variable {r : RegionInfo}
variable {done rest : List Slot} {s : RegionState}

/-! ## The loop -/

/-- The loop of `region_traverse`, with the names that were given to the callback. The callback
gets the name as a C string in a buffer of the caller; without a callback for the data nothing
else is read. -/
def traverseLoop (r : RegionInfo) (nameCb : List UInt8 → RegionState → RegionState) :
    Nat → RegionState → Nat → RegionState × List (List UInt8)
  | 0, s, _ => (s, [])
  | fuel + 1, s, offs =>
    if offs < r.segSize then
      let itemOffs := s.segOffset + offs
      let item := readItemHeader s itemOffs
      if item.magic ≠ nvramRegionItemMagic then (s, []) else
      let next := offs + itemGetAlignedSize item
      if item.state ≠ nvramItemStateValid then
        traverseLoop r nameCb fuel s (itemBitmapNextOffset r s next)
      else
        let name := (read s.flash (itemOffs + itemHeaderSize) item.nameSize).takeWhile (· != 0)
        let s := nameCb name s
        let rest := traverseLoop r nameCb fuel s (itemBitmapNextOffset r s next)
        (rest.1, name :: rest.2)
    else (s, [])

def regionTraverse (r : RegionInfo) (s : RegionState)
    (nameCb : List UInt8 → RegionState → RegionState) : RegionState × List (List UInt8) :=
  traverseLoop r nameCb r.segSize s (itemBitmapFirstOffset r s)

/-! ## Deleting the item that is visited -/

/-- The row when the items of some names have been deleted. -/
def retireAll (gone : List UInt8 → Bool) (slots : List Slot) : List Slot :=
  slots.map fun slot => match slot with
    | .live item => if gone item.name then item.retired else .live item
    | .dead bytes obsolete => .dead bytes obsolete

variable (gone : List UInt8 → Bool)

theorem entries_retireAll (slots : List Slot) :
    entries (retireAll gone slots) = (entries slots).filter fun entry => !gone entry.1 := by
  induction slots with
  | nil => rfl
  | cons slot slots ih =>
    cases slot with
    | live item =>
      rw [entries_live, filter_cons, ← ih]
      simp only [retireAll, map_cons]
      cases gone item.name <;> rfl
    | dead bytes obsolete => exact ih

/-- A delete of some names, as a map. -/
theorem contents_retireAll (slots : List Slot) (name : List UInt8) :
    contents (retireAll gone slots) name = if gone name then none else contents slots name := by
  rw [contents, entries_retireAll, LogMap.valueOf_filter, contents]

/-! ## The walk -/

/-- The names in the flash are C strings. -/
theorem zero_not_mem_of_mem_names {slots : List Slot} {name : List UInt8} (h : name ∈ names slots) :
    0 ∉ name := by
  induction slots with
  | nil => simp at h
  | cons slot slots ih =>
    cases slot with
    | live item =>
      rw [names_live, mem_cons] at h
      rcases h with rfl | h
      · exact item.name_nul
      · exact ih h
    | dead bytes obsolete => exact ih h

/-- A callback that deletes the item it is called for, if its name is to go. -/
def deletes (r : RegionInfo) (gone : List UInt8 → Bool) (name : List UInt8) (s : RegionState) :
    RegionState :=
  if gone name then (regionSet r s name []).1 else s

/-- Where the loop is in a row: the slot at hand, and the offset of the next one. -/
theorem Ready.slot_at {slot : Slot}
    (h : Ready r s (done ++ slot :: rest)) :
    Holds s.flash (s.segOffset + endOffset done) slot.bytes ∧
      endOffset (done ++ [slot]) ≤ r.segSize ∧ endOffset done < r.segSize ∧
      endOffset done + itemGetAlignedSize slot.header = endOffset (done ++ [slot]) := by
  have hend := endOffset_slot_le h.holds.body.fits
  have hpos := slot.length_ge
  refine ⟨holds_slot h.holds.body.holds, hend, ?_, ?_⟩
  · rw [endOffset_append_cons] at hend
    simp only [nvramItemAlignSize] at hpos
    omega
  · rw [endOffset_append_cons, ← slot.length_bytes]

/-- The walk over the rest of a row visits every live slot once and deletes what has to go. The
slots in `done` are those behind the walk, with what was deleted there. -/
theorem traverseLoop_eq (rest : List Slot) :
    ∀ (done : List Slot) (s : RegionState) (fuel : Nat), rest.length < fuel →
      Ready r s (done ++ rest) →
      ∃ s', traverseLoop r (deletes r gone) fuel s (itemBitmapNextOffset r s (endOffset done)) =
          (s', names rest) ∧ Ready r s' (done ++ retireAll gone rest) := by
  induction rest with
  | nil =>
    intro done s fuel hfuel h
    refine ⟨s, ?_, h⟩
    obtain ⟨fuel, rfl⟩ := Nat.exists_eq_add_one.mpr hfuel
    rw [append_nil] at h
    rw [traverseLoop]
    cases hmap : r.hasItemMap with
    | true =>
      rw [nextOffset_end h.marks h.holds.body.fits hmap, if_neg (Nat.lt_irrefl _)]
      rfl
    | false =>
      have hoff : itemBitmapNextOffset r s (endOffset done) = endOffset done := by
        simp [itemBitmapNextOffset, hmap]
      rw [hoff]
      rcases h.stop with hfull | hmagic
      · rw [if_neg (Nat.not_lt.mpr hfull)]
        rfl
      · split
        · rw [if_pos hmagic]
          rfl
        · rfl
  | cons slot rest ih =>
    intro done s fuel hfuel h
    obtain ⟨fuel, rfl⟩ := Nat.exists_eq_add_one.mpr (Nat.zero_lt_of_lt hfuel)
    obtain ⟨hslot, hpart, hoffs, hnext⟩ := h.slot_at
    have hfuel' : rest.length < fuel := by
      rw [length_cons] at hfuel
      omega
    -- the walk goes on behind a slot that may have been replaced
    have hgo : ∀ (s' : RegionState) (slot' : Slot) (fuel : Nat), rest.length < fuel →
        endOffset (done ++ [slot']) = endOffset (done ++ [slot]) →
        Ready r s' (done ++ slot' :: rest) →
        ∃ s'', traverseLoop r (deletes r gone) fuel s'
            (itemBitmapNextOffset r s' (endOffset (done ++ [slot]))) = (s'', names rest) ∧
          Ready r s'' (done ++ slot' :: retireAll gone rest) := by
      intro s' slot' fuel hfuel hend h'
      have hassoc : ∀ l : List Slot, done ++ slot' :: l = done ++ [slot'] ++ l := by simp
      rw [hassoc] at h' ⊢
      rw [← hend]
      exact ih (done ++ [slot']) s' fuel hfuel h'
    cases slot with
    | dead bytes obsolete =>
      cases hvisible : visible r s.itemMap (endOffset done) with
      | false =>
        rw [nextOffset_hiddenSlot h.marks hpart hvisible]
        exact hgo s _ _ (Nat.lt_succ_of_lt hfuel') rfl h
      | true =>
        have hstate : (Slot.dead bytes obsolete).header.state ≠ nvramItemStateValid := fun hvalid =>
          absurd (obsolete.state.symm.trans hvalid) (by decide)
        rw [nextOffset_slot h.marks hoffs hvisible, traverseLoop, if_pos hoffs]
        dsimp only
        rw [readItemHeader_slot hslot, if_neg (not_not.mpr (Slot.header_magic _)),
          if_pos hstate, hnext]
        exact hgo s _ fuel hfuel' rfl h
    | live item =>
      have hname : (read s.flash (s.segOffset + endOffset done + itemHeaderSize)
          item.header.nameSize).takeWhile (· != 0) = item.name := by
        rw [(holds_live hslot).2.1, takeWhile_cstr item.name_nul]
      have hvisible := h.marks.visible h.holds.body.fits (mem_liveOffsets done rest item)
      rw [nextOffset_slot h.marks hoffs hvisible, traverseLoop, if_pos hoffs]
      dsimp only
      rw [readItemHeader_slot hslot, if_neg (not_not.mpr (Slot.header_magic _)), hnext,
        show (Slot.live item).header = item.header from rfl,
        if_neg (not_not.mpr item.header_state), hname]
      obtain ⟨s', hs', hready⟩ := hgo (deletes r gone item.name s)
        (if gone item.name then item.retired else .live item) fuel hfuel'
        (by split; exacts [endOffset_retired done [] item, rfl])
        (by rw [deletes]; split; exacts [h.delete_live.2, h])
      refine ⟨s', ?_, hready⟩
      rw [hs', names_live]

/-- `region_traverse` with a callback that deletes some of the items it is called for: every item
that was valid is visited once, and exactly those that have to go are gone. -/
theorem Ready.traverse {slots : List Slot} (h : Ready r s slots)
    (gone : List UInt8 → Bool) :
    ∃ s', regionTraverse r s (deletes r gone) = (s', names slots) ∧
      Ready r s' (retireAll gone slots) := by
  have hfuel : slots.length < r.segSize :=
    lt_of_lt_of_le (length_slots_lt slots) h.holds.body.fits
  have hloop := traverseLoop_eq gone slots [] s r.segSize hfuel h
  rw [← itemBitmapFirstOffset_eq h.marks] at hloop
  exact hloop

end SpeakerFirmware.Nvram
