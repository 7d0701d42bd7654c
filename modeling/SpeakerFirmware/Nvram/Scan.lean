/-
# The scan after power-on

`region_scan` finds the active segment, undoes a move that was cut, and walks over
the items. The walk drops a torn item, retires older items of a name, and rebuilds
the bitmap. From every recoverable flash the scan reaches a state between two calls
with the same map. Power loss during the scan leaves a recoverable flash again, with
one exception: the merge writes a header whose sequence number is two ahead of the
segment it reads from.
-/

import SpeakerFirmware.Nvram.RowScan

namespace SpeakerFirmware.Nvram

open NorFlash
open List

variable {r : RegionInfo}
variable {slots : List Slot} {f : Image} {seqId : UInt8} {old new : Nat}

/-! ## The walk -/

theorem takeWhile_cstr {name : List UInt8} (h : 0 ∉ name) :
    (cstr name).takeWhile (· != 0) = name := by
  rw [← append_nil (cstr name), takeWhile_cstr_append h]

/-- The memory of the array that holds a stored name. -/
theorem memory_nameArray (name : List UInt8) : ∃ tail, r.memory (nameArray (cstr name)) =
    cstr name ++ tail :=
  ⟨_, append_assoc _ _ _⟩

/-- A torn item, as one of a row. -/
def IsTorn.raw {tail : List UInt8} (h : IsTorn tail) : RawItem :=
  ⟨tail, h.size, not_empty_of_magic h.magic⟩

/-- The state of the walk: `done` has been seen and is marked, `rest` is still to
come, and a torn item may follow. -/
structure Scanning (r : RegionInfo) (s : RegionState) (done rest : List Slot)
    (tail : List UInt8) : Prop where
  holds : HoldsSeg r s.flash s.segOffset s.segSeqId (slotsBytes (done ++ rest) ++ tail)
  only : OnlyValid r s.flash [s.segOffset]
  torn : tail = [] ∨ IsTorn tail
  marks : MarksLive r s.itemMap done
  nodup : (names done).Nodup

namespace Scanning

variable {s : RegionState} {done rest : List Slot} {tail : List UInt8} {item : Item}

theorem withBuf (h : Scanning r s done rest tail) (b : List UInt8) :
    Scanning r (s.withBuf b) done rest tail :=
  ⟨h.holds, h.only, h.torn, h.marks, h.nodup⟩

theorem recoverable (h : Scanning r s done rest tail) :
    Recoverable r s.flash (contents (done ++ rest)) :=
  .one ⟨h.holds, h.only, h.torn⟩

/-- An obsolete slot is passed over. -/
theorem skip {bytes : List UInt8} {obsolete : IsDead bytes}
    (h : Scanning r s done (.dead bytes obsolete :: rest) tail) :
    Scanning r s (done ++ [.dead bytes obsolete]) rest tail := by
  refine ⟨?_, h.only, h.torn, h.marks.append_dead, ?_⟩
  · rw [append_assoc]
    exact h.holds
  · rw [names_append, names_dead, names_nil, append_nil]
    exact h.nodup

section

variable {behind : List RawItem} (h : Scanning r s done (.live item :: rest) (rowBytes behind))
include h

/-- The search for an older item of the name of the next slot. A region without a
bitmap may find the next slot itself. -/
theorem find : (∃ first old second, done = first ++ .live old :: second ∧ old.name = item.name ∧
      findRow r s.itemMap (r.memory (nameArray (cstr item.name)))
        (rawRow done ++ item.raw :: (rawRow rest ++ behind))
        nvramSegItemStartOffset = some (endOffset first, old.raw)) ∨
    (item.name ∉ names done ∧
      ∀ place ∈ findRow r s.itemMap (r.memory (nameArray (cstr item.name)))
        (rawRow done ++ item.raw :: (rawRow rest ++ behind))
        nvramSegItemStartOffset, place.1 = endOffset done) := by
  have hend : rowEnd (rawRow done ++ item.raw :: (rawRow rest ++ behind)) ≤ r.segSize := by
    have hfits := h.holds.body.fits
    rw [slotsBytes_append, slotsBytes_cons] at hfits
    simpa [rowEnd, Item.raw, Nat.add_assoc] using hfits
  rw [rowEnd_append, rowEnd_rawRow] at hend
  have hmarks := marksLive_iff.mp h.marks
  obtain ⟨tail, htail⟩ := memory_nameArray (r := r) item.name
  -- a region with a bitmap does not look behind the slots that were seen
  have hnext : findRow r s.itemMap (r.memory (nameArray (cstr item.name)))
      (item.raw :: (rawRow rest ++ behind)) (endOffset done) =
      if r.hasItemMap then none else some (endOffset done, item.raw) := by
    cases hmap : r.hasItemMap with
    | true =>
      refine findRow_hidden fun offs hmem => ?_
      have hbounds := offsetsOf_bounds hmem
      obtain ⟨first, other, last, -, rfl⟩ := mem_offsetsOf hmem
      refine hmarks.not_visible hmap (by rw [rowEnd_rawRow]; omega) (by omega) ?_
      rw [← rowEnd_rawRow, ← rowEnd_append]
      exact dvd_rowEnd _
    | false =>
      rw [findRow, visible, hmap, if_neg (by simp), item.header_raw,
        if_neg (not_not.mpr item.header_magic),
        htail, if_pos ((Item.matches_raw item.name_nul tail).mpr rfl)]
      rfl
  have hrow := findRow_rawRow item.name_nul tail done
    (item.raw :: (rawRow rest ++ behind)) nvramSegItemStartOffset
    fun _ => h.marks.visible (Nat.le_trans (Nat.le_add_right _ _) hend)
  rw [show nvramSegItemStartOffset + (slotsBytes done).length = endOffset done from rfl, ← htail,
    hnext] at hrow
  rw [hrow]
  rcases findLive_cases item.name done nvramSegItemStartOffset with
    ⟨hnone, hnot⟩ | ⟨first, old, second, heq, hname, -, hsome⟩
  · right
    refine ⟨hnot, fun place hplace => ?_⟩
    rw [hnone] at hplace
    cases hmap : r.hasItemMap with
    | true =>
      rw [hmap] at hplace
      cases hplace
    | false =>
      rw [hmap] at hplace
      rw [← Option.some.inj hplace]
  · left
    rw [hsome]
    exact ⟨first, old, second, heq, hname, rfl⟩

/-- The name `item_get_item_name` reads from a live slot. -/
theorem itemName :
    itemGetItemName r s (s.segOffset + endOffset done) item.header =
      some (nameArray (cstr item.name)) := by
  have hslot := holds_slot (holds_append.mp h.holds.body.holds).1
  obtain ⟨-, hname, -⟩ := holds_live hslot
  have hend : endOffset done + (Slot.live item).bytes.length ≤ r.segSize := by
    have hfits := h.holds.body.fits
    simp only [slotsBytes_append, slotsBytes_cons, length_append] at hfits
    rw [endOffset]
    omega
  have hin : s.segOffset + endOffset done + (Slot.live item).bytes.length ≤ r.totalSize := by
    have hseg := h.holds.seg.le
    omega
  have htotal := slot_le_of_holds hin
  have hlt := item.name_lt
  rw [itemGetItemName, if_neg (by rw [item.header_nameSize]; omega), if_neg (by omega), hname]

/-- The next slot joins those that were seen. -/
theorem accept (hnot : item.name ∉ names done) :
    Scanning r (s.mark (endOffset done) true) (done ++ [.live item]) rest (rowBytes behind) := by
  refine ⟨?_, h.only, h.torn, h.marks.append_live, nodup_append_name h.nodup hnot⟩
  rw [append_assoc]
  exact h.holds

end

variable {first second : List Slot}

/-- An older item of the name is retired first. -/
theorem retireOlder {old : Item}
    (h : Scanning r s (first ++ .live old :: second) rest tail) :
    Scanning r ((s.issue [obsoleteOp (s.segOffset + endOffset first)]).mark (endOffset first) false)
      (first ++ old.retired :: second) rest tail := by
  have hholds := h.holds
  rw [append_assoc, cons_append] at hholds
  obtain ⟨hretired, honly⟩ := hholds.retire h.only
  refine ⟨?_, honly, h.torn, h.marks.obsolete (by rw [length_set]), ?_⟩
  · rw [append_assoc, cons_append]
    exact hretired
  · have hnodup := h.nodup
    rw [names_append, names_live, nodup_middle, nodup_cons] at hnodup
    rw [names_retire]
    exact hnodup.2

/-- A live slot whose name was seen takes the place of the older item. -/
theorem replace {old : Item} {behind : List RawItem}
    (h : Scanning r s (first ++ .live old :: second) (.live item :: rest) (rowBytes behind))
    (hold : old.name = item.name) :
    Scanning r (((s.issue [obsoleteOp (s.segOffset + endOffset first)]).mark
      (endOffset first) false).mark
        (endOffset (first ++ .live old :: second)) true) (first ++ old.retired :: second ++
          [.live item]) rest
        (rowBytes behind) ∧
      contents (first ++ old.retired :: second ++ [.live item] ++ rest) =
        contents (first ++ .live old :: second ++ .live item :: rest) := by
  have hnot : item.name ∉ names (first ++ old.retired :: second) := by
    have hnodup := h.nodup
    rw [names_append, names_live, hold, nodup_middle, nodup_cons] at hnodup
    rw [names_retire]
    exact hnodup.1
  refine ⟨endOffset_retired first second old ▸ h.retireOlder.accept hnot, ?_⟩
  simp only [append_assoc, cons_append, nil_append]
  apply contents_retire_overwritten
  rw [names_append, names_live, hold]
  exact mem_append_right _ mem_cons_self

end Scanning

/-! ## A torn item -/

/-- A torn item that was marked obsolete. -/
theorem IsTorn.isDead {tail : List UInt8} (h : IsTorn tail) :
    IsDead (tail.set 1 nvramItemStateObsolete) := by
  refine ⟨?_, h.raw.state_obsoleted, h.raw.obsoleted.length_eq⟩
  have hheader : ItemHeader.mk ((tail.set 1 nvramItemStateObsolete).take itemHeaderSize) = _ :=
    h.raw.header_obsoleted
  rw [hheader, ItemHeader.magic, getD_set_ne _ (by decide)]
  exact h.magic

/-- A torn item is retired, and the walk goes on behind it. -/
theorem Scanning.retireTorn {s : RegionState} {done : List Slot} {tail : List UInt8}
    (h : Scanning r s done [] tail) (htorn : IsTorn tail) :
    Scanning r (s.issue [obsoleteOp (s.segOffset + endOffset done)])
      (done ++ [.dead _ htorn.isDead]) [] [] ∧
      contents (done ++ [.dead _ htorn.isDead]) = contents done := by
  have hholds := h.holds
  have hlen := htorn.raw.length_ge
  rw [append_nil, ← append_nil tail] at hholds
  obtain ⟨hdead, honly⟩ := hholds.obsolete h.only (Nat.le_trans (by decide) hlen)
    (htorn.raw.getD_state.trans htorn.state)
  refine ⟨⟨?_, honly, .inl rfl, h.marks.append_dead, ?_⟩, ?_⟩
  · have hbytes : slotsBytes (done ++ [.dead _ htorn.isDead] ++ []) ++ [] =
        slotsBytes done ++ (tail.set 1 nvramItemStateObsolete ++ []) := by
      simp [Slot.bytes]
    rw [hbytes]
    exact hdead
  · rw [names_append, names_dead, names_nil, append_nil]
    exact h.nodup
  · rw [contents, entries_append, entries_dead, entries_nil, append_nil, contents]

/-! ## The whole walk -/

/-- What may follow the slots of a segment. -/
def TornRow (behind : List RawItem) : Prop := behind = [] ∨ ∃ tail, ∃ h : IsTorn tail,
    behind = [h.raw]

/-- What the scan has kept since the state `s`: the items are slots, with a torn one at the end at
most, and their map is `m`. -/
def KeptMap (r : RegionInfo) (s : RegionState) (m : List UInt8 → Option (List UInt8))
    (t : RegionState) (seen ahead : List RawItem) : Prop :=
  ∃ done rest behind ops, seen = rawRow done ∧ ahead = rawRow rest ++ behind ∧ TornRow behind ∧
    Scanning r t done rest (rowBytes behind) ∧ contents (done ++ rest) = m ∧ Issued s t ops ∧
    Along (fun g => Recoverable r g m) s.flash ops

/-- Two beginnings of a row that end at one place. -/
theorem rowEnd_inj {first first' last last' : List RawItem} (h : first ++ last = first' ++ last')
    (hend : rowEnd first = rowEnd first') : first = first' := by
  have hnil : ∀ front middle : List RawItem, rowEnd front = rowEnd (front ++ middle) →
      middle = [] := by
    intro front middle hsame
    cases middle with
    | nil => rfl
    | cons item middle =>
      have hlt := rowEnd_lt_of_item front middle item
      simp only [nvramItemAlignSize] at hlt
      omega
  rcases append_eq_append_iff.mp h with ⟨middle, rfl, -⟩ | ⟨middle, rfl, -⟩
  · rw [hnil _ _ hend, append_nil]
  · rw [hnil _ _ hend.symm, append_nil]

/-- One item of the walk. -/
theorem Scanning.step {s t : RegionState} {done rest : List Slot}
    {behind seen ahead ahead' : List RawItem}
    {item : RawItem} {ops : List Op} (h : Scanning r s done rest (rowBytes behind))
    (htorn : TornRow behind) (hahead : item :: ahead = rawRow rest ++ behind)
    (hstep : RowStep r s (rawRow done) item ahead t seen ahead' ops) :
    ∃ done' rest' behind', seen = rawRow done' ∧ ahead' = rawRow rest' ++ behind' ∧
      TornRow behind' ∧
      Scanning r t done' rest' (rowBytes behind') ∧
        contents (done' ++ rest') = contents (done ++ rest) := by
  cases rest with
  | nil =>
    rcases htorn with rfl | ⟨tail, htorn, rfl⟩
    · cases hahead
    · obtain ⟨rfl, rfl⟩ := List.cons.inj hahead
      have hvalid : htorn.raw.status = .valid :=
        htorn.raw.status_eq_valid.mpr ⟨htorn.magic, htorn.state, htorn.hash⟩
      have htail : rowBytes [htorn.raw] = tail := append_nil tail
      rw [htail] at h
      cases hstep with
      | skip b hstatus => exact absurd hvalid hstatus
      | reject b =>
        obtain ⟨hscan, hcontents⟩ := h.retireTorn htorn
        refine ⟨done ++ [.dead _ htorn.isDead], [], [],
          by rw [rawRow_append]; rfl, rfl, .inl rfl, ?_, ?_⟩
        · rw [rowEnd_rawRow]
          exact hscan.withBuf b
        · rw [append_nil, append_nil, hcontents]
      | accept b _ hcrc => exact absurd hcrc htorn.crc
      | replace b _ hcrc => exact absurd hcrc htorn.crc
  | cons slot rest =>
    obtain ⟨rfl, rfl⟩ := List.cons.inj hahead
    cases slot with
    | dead bytes obsolete =>
      have hstatus := Slot.status_dead obsolete
      cases hstep with
      | skip b =>
        refine ⟨done ++ [.dead bytes obsolete], rest, behind,
          by rw [rawRow_append]; rfl, rfl, htorn,
          h.skip.withBuf b, ?_⟩
        rw [append_assoc]
        rfl
      | reject b hvalid => cases hstatus.symm.trans hvalid
      | accept b hvalid => cases hstatus.symm.trans hvalid
      | replace b hvalid => cases hstatus.symm.trans hvalid
    | live item =>
      have hname := h.itemName
      rw [← item.header_raw, ← rowEnd_rawRow] at hname
      cases hstep with
      | skip b hstatus => exact absurd item.status_raw hstatus
      | reject b _ hcrc => exact absurd item.crc_raw hcrc
      | accept b _ _ hfound =>
        have hnot : item.name ∉ names done := by
          rcases h.find with ⟨first, old, second, rfl, -, hfind⟩ | ⟨hnot, -⟩
          · have heq : endOffset first = rowEnd (rawRow (first ++ .live old :: second)) :=
              hfound _ hname _ hfind
            have hlt := rowEnd_lt_of_item (rawRow first) (rawRow second) (Slot.live old).raw
            rw [← rawRow_cons, ← rawRow_append, rowEnd_rawRow first, heq] at hlt
            simp only [nvramItemAlignSize] at hlt
            omega
          · exact hnot
        refine ⟨done ++ [.live item], rest, behind, by rw [rawRow_append]; rfl, rfl, htorn, ?_, ?_⟩
        · rw [rowEnd_rawRow]
          exact (h.withBuf b).accept hnot
        · rw [append_assoc]
          rfl
      | @replace b name found front last seen' _ _ _ hread hfound hne hlen hsplit hsplit' =>
        obtain rfl := Option.some.inj (hname.symm.trans hread)
        rcases h.find with ⟨first, old, second, rfl, hold, hfind⟩ | ⟨-, hplace⟩
        · have hsame := Option.some.inj (hfind.symm.trans hfound)
          obtain ⟨hend, rfl⟩ := Prod.mk.inj hsame
          rw [← rowEnd_rawRow] at hend
          rw [rawRow_append, append_assoc] at hsplit
          obtain rfl := rowEnd_inj hsplit hend
          have hlast : rawRow second ++ (Slot.live item).raw :: (rawRow rest ++ behind) = last :=
            (List.cons.inj (append_cancel_left hsplit)).2
          have hrow : seen' ++ (Slot.live item).raw :: ahead' =
              rawRow (first ++ old.retired :: second) ++ (Slot.live item).raw ::
                (rawRow rest ++ behind) := by
            rw [hsplit', ← hlast, rawRow_append, append_assoc]
            rfl
          obtain ⟨rfl, hrest⟩ := append_inj hrow (hlen.trans (by simp [rawRow]))
          obtain ⟨hscan, hcontents⟩ := (h.withBuf b).replace hold
          refine ⟨_, rest, behind,
            by rw [rawRow_append _ [.live item]]; rfl, (List.cons.inj hrest).2, htorn,
            ?_, hcontents⟩
          rw [rowEnd_rawRow, rowEnd_rawRow]
          exact hscan
        · have heq := hplace _ hfound
          rw [rowEnd_rawRow] at hne
          exact absurd heq hne

variable {m : List UInt8 → Option (List UInt8)}

/-- The steps of the scan keep the map. -/
theorem KeptMap.step {s t t' : RegionState}
    {seen ahead seen' ahead' : List RawItem} {item : RawItem} {ops : List Op}
    (h : KeptMap r s m t seen (item :: ahead))
    (hstep : RowStep r t seen item ahead t' seen' ahead' ops) :
    KeptMap r s m t' seen' ahead' := by
  obtain ⟨done, rest, behind, ops', rfl, hahead, htorn, hscan, hcontents, hissued, halong⟩ := h
  obtain ⟨done', rest', behind', rfl, rfl, htorn', hscan', hcontents'⟩ :=
    hscan.step htorn hahead hstep
  have hrec := hscan.recoverable
  have hrec' := hscan'.recoverable
  rw [hcontents'] at hrec'
  rw [hcontents] at hrec hrec' hcontents'
  refine ⟨done', rest', behind', ops' ++ ops, rfl, rfl, htorn', hscan', hcontents',
    hissued.trans hstep.issued, ?_⟩
  rw [along_append, ← hissued.flash]
  exact ⟨halong, hstep.along hrec hrec'⟩

/-- The walk over the items of a segment that may end in a torn one. -/
theorem OneSeg.segScanLoop {s : RegionState} {tail : List UInt8}
    (h : OneSeg r s.flash s.segOffset s.segSeqId slots tail) (hmap : MapSized r s.itemMap) :
    ∃ t done ops, Nvram.segScanLoop r r.segSize { s with itemMap := itemBitmapClearAll s.itemMap }
        nvramSegItemStartOffset = (t, endOffset done) ∧
      Scanning r t done [] [] ∧ contents done = contents slots ∧ Issued s t ops ∧
      Along (fun g => Recoverable r g (contents slots)) s.flash ops := by
  obtain ⟨behind, htorn, rfl⟩ : ∃ behind, TornRow behind ∧ rowBytes behind = tail := by
    rcases h.torn with rfl | htorn
    · exact ⟨[], .inl rfl, rfl⟩
    · exact ⟨[htorn.raw], .inr ⟨tail, htorn, rfl⟩, append_nil tail⟩
  have hbytes : rowBytes (rawRow slots ++ behind) = slotsBytes slots ++ rowBytes behind := by
    rw [rowBytes_append, rowBytes_rawRow]
  have hbody := h.holds.body
  rw [← hbytes] at hbody
  have hstart :
      Scanning r { s with itemMap := itemBitmapClearAll s.itemMap } [] slots (rowBytes behind) :=
    ⟨h.holds, h.only, h.torn, marksLive_clearAll hmap, nodup_nil⟩
  obtain ⟨t, row, hloop, -, done, rest, behind', ops, rfl, hnil, -, hscan, hcontents, hissued,
      halong⟩ :=
    RowScanning.loop (P := KeptMap r s (contents slots)) (fun _ _ _ _ _ _ _ _ => KeptMap.step) _ _
      [] _
      r.segSize rfl (lt_of_lt_of_le (length_row_lt _) hbody.fits)
        (RowScanning.start h.holds.seg hbody hmap)
      ⟨[], slots, behind, [], rfl, rfl, htorn, hstart, rfl, ⟨rfl, (append_nil _).symm⟩,
        hstart.recoverable⟩
  obtain ⟨hrest, rfl⟩ := append_eq_nil_iff.mp hnil.symm
  obtain rfl := map_eq_nil_iff.mp hrest
  rw [append_nil] at hcontents
  rw [rowEnd_rawRow] at hloop
  exact ⟨t, done, ops, hloop, hscan, hcontents, hissued, halong⟩

/-- `region_seg_scan` of a segment that may end in a torn item. -/
theorem OneSeg.segScan {s : RegionState} {tail : List UInt8}
    (h : OneSeg r s.flash s.segOffset s.segSeqId slots tail) (hmap : MapSized r s.itemMap) :
    ∃ slots' ops, Ready r (regionSegScan r s false) slots' ∧ contents slots' = contents slots ∧
      Issued s (regionSegScan r s false) ops ∧
      Along (fun g => Recoverable r g (contents slots)) s.flash ops := by
  obtain ⟨t, done, ops, hloop, hscan, hcontents, hissued, halong⟩ := h.segScanLoop hmap
  have hholds := hscan.holds
  rw [append_nil, append_nil] at hholds
  have hready : Ready r { t with segWriteOffset := t.segOffset + endOffset done } done :=
    ⟨⟨hholds, hscan.only, rfl, hscan.marks⟩, hscan.nodup⟩
  obtain ⟨b, hpurge | ⟨heq, -⟩⟩ := regionSegScan_cases false hloop (dvd_endOffset done)
  · obtain ⟨ops', hready', hissued', halong'⟩ := (hready.withBuf b).purge true
    rw [hcontents] at halong'
    rw [hpurge]
    refine ⟨_, ops ++ ops', hready', (contents_liveSlots done).trans hcontents,
      hissued.trans ⟨hissued'.flash, hissued'.ops⟩, ?_⟩
    rw [along_append, ← hissued.flash]
    exact ⟨halong, halong'⟩
  · rw [heq]
    exact ⟨done, ops, hready.withBuf b, hcontents, ⟨hissued.flash, hissued.ops⟩, halong⟩

/-! ## Finding the segment -/

theorem Blank.scan_eq (h : Blank r f) :
    regionScan r (powerOn r f) = regionInitNewSeg r (powerOn r f) 0 := by
  have hvalid : latestSeg (powerOn r f).flash isValidRegionSegHeader (segOffsets r) = none :=
    latestSeg_none fun offs hoffs => (h offs hoffs).1
  have hmerge : latestSeg (powerOn r f).flash isValidMergeRegionSegHeader (segOffsets r) = none :=
    latestSeg_none fun offs hoffs => (h offs hoffs).2
  rw [regionScan, hvalid]
  dsimp only
  rw [hmerge]

/-- The first start on a flash without headers. -/
theorem Blank.scan (h : Blank r f) :
    Ready r (regionScan r (powerOn r f)) [] ∧
      Along (fun g => Recoverable r g fun _ => none) f (regionScan r (powerOn r f)).ops := by
  have hnew := newSeg_regionInitNewSeg (isSeg_zero r) (mapSized_powerOn r f)
  rw [h.scan_eq]
  have hready : Ready r (regionInitNewSeg r (powerOn r f) 0) [] := by
    refine ⟨⟨?_, ?_, ?_, hnew.marks⟩, nodup_nil⟩
    · rw [hnew.segOffset, hnew.segSeqId]
      exact hnew.holds
    · rw [hnew.segOffset, hnew.issued.flash]
      have hnone : OnlyValid r (powerOn r f).flash [] := fun offs hseg _ => (h offs hseg).1
      exact hnone.congr (isSeg_zero r) fun a ha => allWithin_initOps.applyAll_eq _ ha
    · rw [hnew.segWriteOffset, hnew.segOffset]
      rfl
  refine ⟨hready, ?_⟩
  have hops := hnew.issued.ops
  rw [hops]
  change Along _ f (initOps r f 0 _)
  rw [initOps, along_append]
  have herase : Along (Blank r) f (eraseOps f (segSectors r) 0) := by
    apply along_eraseOps (isSeg_zero r) _ f h
    intro g addr _ _ hdvd hg offs hseg
    exact ⟨isSegHeaderInState_erase hseg hdvd (hg offs hseg).1,
      isSegHeaderInState_erase hseg hdvd (hg offs hseg).2⟩
  refine ⟨herase.mono fun g hg => .blank hg, .blank herase.last, ?_⟩
  have hrec := hready.recoverable
  rw [hnew.issued.flash] at hrec
  change Recoverable r (applyAll (initOps r f 0 _) f) _ at hrec
  rw [initOps, applyAll_append] at hrec
  exact hrec

/-- A flash with one valid segment. -/
theorem OneSeg.scan {cur : Nat} {tail : List UInt8}
    (h : OneSeg r f cur seqId slots tail) :
    ∃ slots', Ready r (regionScan r (powerOn r f)) slots' ∧ contents slots' = contents slots ∧
      Along (fun g => Recoverable r g (contents slots)) f (regionScan r (powerOn r f)).ops := by
  have hlatest : latestSeg (powerOn r f).flash isValidRegionSegHeader (segOffsets r) =
      some (seqId, cur) := latestSeg_one h.holds.header h.holds.seg h.only
  have hprevious : previousSeg (powerOn r f).flash seqId (segOffsets r) = none :=
    previousSeg_one h.holds.header h.only
  have hscan : regionScan r (powerOn r f) =
      regionSegScan r { powerOn r f with segSeqId := seqId, segOffset := cur } false := by
    rw [regionScan, hlatest]
    dsimp only
    rw [hprevious]
  have hone : OneSeg r { powerOn r f with segSeqId := seqId, segOffset := cur }.flash cur seqId
      slots tail := h
  obtain ⟨slots', ops, hready, hcontents, hissued, halong⟩ :=
    hone.segScan (mapSized_powerOn r f)
  rw [hscan, hissued.ops]
  exact ⟨slots', hready, hcontents, halong⟩

/-- Two valid segments whose numbers are two apart. -/
theorem TwoSegs.twoApart
    (hnew : IsSeg r new) (h : TwoSegs r f old new seqId (seqId + 1 + 1) slots) : TwoApart r f := by
  refine ⟨new, hnew, old, h.holds.seg, segValid_of_holds h.header,
    segValid_of_holds h.holds.header, ?_⟩
  rw [readSegHeader_of_holds h.header, readSegHeader_of_holds h.holds.header, seqId_newSegHeader,
    seqId_newSegHeader, UInt8.add_assoc]
  rfl

section

variable (hnew : IsSeg r new) (hne : old ≠ new) (h : TwoSegs r f old new seqId (seqId + 1) slots)
include hnew hne h

/-- The scan of a flash in the middle of a move starts the move again, with the next
sequence number. -/
theorem TwoSegs.scan_moved :
    ∃ t copies, Moved r { powerOn r f with segSeqId := seqId + 1, segOffset := new } t old new slots
        copies ∧ regionScan r (powerOn r f) = regionSegScan r t false ∧
      OneSeg r t.flash t.segOffset t.segSeqId (liveSlots slots) [] := by
  have hlatest : latestSeg (powerOn r f).flash isValidRegionSegHeader (segOffsets r) =
      some (seqId + 1, new) := latestSeg_two h.holds.header h.header h.only hnew
    (isLaterSeqId_add seqId (by decide))
  have hprevious : previousSeg (powerOn r f).flash (seqId + 1) (segOffsets r) = some old :=
    previousSeg_two h.holds.header h.header h.only h.holds.seg (add_sub_seqId seqId 1)
  obtain ⟨copies, hmoved⟩ := moveSeg_moved
    (s := { powerOn r f with segSeqId := seqId + 1, segOffset := new }) h.holds hnew hne
    (mapSized_powerOn r f) h.holds.body.fits le_rfl true
  refine ⟨_, copies, hmoved, ?_, ?_⟩
  · rw [regionScan, hlatest]
    dsimp only
    rw [hprevious]
    rfl
  · rw [hmoved.segOffset, hmoved.segSeqId]
    refine ⟨?_, hmoved.only h.holds.seg hnew h.only, .inl rfl⟩
    rw [append_nil]
    exact hmoved.holds

/-- A flash in the middle of a move. While the scan repeats the move, the numbers of
the two segments are two apart. -/
theorem TwoSegs.scan :
    ∃ slots', Ready r (regionScan r (powerOn r f)) slots' ∧ contents slots' = contents slots ∧
      Along (fun g => Recoverable r g (contents slots) ∨ TwoApart r g) f
        (regionScan r (powerOn r f)).ops := by
  obtain ⟨t, copies, hmoved, hscan, hone⟩ := h.scan_moved hnew hne
  have hrec : Recoverable r t.flash (contents slots) := by
    rw [← contents_liveSlots]
    exact .one hone
  obtain ⟨slots', ops, hready, hcontents, hissued, halong⟩ := hone.segScan hmoved.marks.sized
  rw [contents_liveSlots] at hcontents halong
  rw [hscan]
  refine ⟨slots', hready, hcontents, ?_⟩
  have herase : Along (fun g => Recoverable r g (contents slots) ∨ TwoApart r g) f
      (eraseOps f (segSectors r) new) := by
    have hforms := along_eraseOps hnew
      (P := fun g => TwoSegs r g old new seqId (seqId + 1) slots ∨ OneSeg r g old seqId slots [])
      (by
        rintro g addr hlo hhi hdvd (htwo | hone)
        · exact htwo.erase hnew hne hlo hhi hdvd
        · exact .inr (hone.erase hnew hne hlo hhi hdvd)) f (.inl h)
    refine hforms.mono ?_
    rintro g (htwo | hone)
    · exact .inl (.two hnew hne htwo)
    · exact .inl (.one hone)
  have hops : t.ops = initOps r f new (seqId + 1 + 1) ++ (copies ++ [retireOp old]) :=
    hmoved.issued.ops
  rw [hissued.ops, hops, along_append]
  refine ⟨?_, ?_⟩
  · exact hmoved.along hnew hne h.holds h.only herase
      (fun g hg => .inr (TwoSegs.twoApart hnew hg)) (.inl hrec)
  · have hflash : t.flash = applyAll (initOps r f new (seqId + 1 + 1) ++
        (copies ++ [retireOp old])) f := hmoved.issued.flash
    rw [← hflash]
    exact halong.mono fun g hg => .inl hg

end

/-- From every recoverable flash the scan reaches a state with its map. -/
theorem Recoverable.scan
    (h : Recoverable r f m) :
    ∃ slots, Ready r (regionScan r (powerOn r f)) slots ∧ contents slots = m ∧
      Along (fun g => Recoverable r g m ∨ TwoApart r g) f (regionScan r (powerOn r f)).ops := by
  cases h with
  | blank h =>
    obtain ⟨hready, halong⟩ := h.scan
    exact ⟨[], hready, rfl, halong.mono fun g hg => .inl hg⟩
  | one h =>
    obtain ⟨slots, hready, hcontents, halong⟩ := h.scan
    exact ⟨slots, hready, hcontents, halong.mono fun g hg => .inl hg⟩
  | two hnew hne h => exact h.scan hnew hne

end SpeakerFirmware.Nvram
