/-
# Scanning a row of items of any kind

`region_seg_scan` steps over items that are neither valid nor obsolete and keeps what is
behind them, so the segment it leaves may hold such items between valid ones. An item
with a wrong CRC is made obsolete, and so is one that the search finds for the name of
a later item.
-/

import SpeakerFirmware.Nvram.RowMove

namespace SpeakerFirmware.Nvram

open NorFlash
open List Nat

variable {r : RegionInfo}
variable {offs : Nat} {row : List RawItem}

/-! ## Obsolete items -/

theorem inherits_obsoleted (first last : List RawItem) (old : RawItem) :
    Inherits (first ++ old :: last) (first ++ old.obsoleted :: last) := by
  intro item hmem hstate
  rcases mem_append.mp hmem with hmem | hmem
  · exact ⟨item, mem_append_left _ hmem, rfl⟩
  · rcases mem_cons.mp hmem with rfl | hmem
    · rw [old.state_obsoleted] at hstate
      exact absurd hstate (by decide)
    · exact ⟨item, mem_append_right _ (mem_cons_of_mem _ hmem), rfl⟩

/-- A row of the same length with one item made obsolete. -/
theorem rowEnd_obsoleted (done rest : List RawItem) (item : RawItem) :
    rowEnd (done ++ item.obsoleted :: rest) = rowEnd (done ++ item :: rest) := by
  simp only [rowEnd, rowBytes_append, rowBytes_cons, length_append, item.length_obsoleted]

theorem rowEnd_lt_of_item (done rest : List RawItem) (item : RawItem) :
    rowEnd done + nvramItemAlignSize ≤ rowEnd (done ++ item :: rest) := by
  have hlen := item.length_ge
  rw [rowEnd_append, rowBytes_cons, length_append]
  omega

/-- Programming the state byte of an item of the row. -/
theorem holds_obsoleted {f : Image} {seg : Nat} {done rest : List RawItem} {item : RawItem}
    (h : Holds f (seg + nvramSegItemStartOffset) (rowBytes (done ++ item :: rest)))
    (hstate : item.header.state = nvramItemStateValid) :
    Holds ((obsoleteOp (seg + rowEnd done)).apply f) (seg + nvramSegItemStartOffset)
      (rowBytes (done ++ item.obsoleted :: rest)) := by
  have hlen := item.length_ge
  simp only [nvramItemAlignSize] at hlen
  rw [rowBytes_append, rowBytes_cons] at h ⊢
  rw [rowEnd, ← add_assoc]
  exact holds_obsoleteOp h (by omega) (item.getD_state.trans hstate)

/-- What is behind the row does not change. -/
theorem obsoleteOp_apply_behind {f : Image} {seg a : Nat} {done rest : List RawItem}
    {item : RawItem} (ha : seg + rowEnd (done ++ item :: rest) ≤ a) :
    (obsoleteOp (seg + rowEnd done)).apply f a = f a := by
  have hlt := rowEnd_lt_of_item done rest item
  simp only [nvramItemAlignSize] at hlt
  have hwithin :
      (obsoleteOp (seg + rowEnd done)).Within (seg + rowEnd done) (seg + rowEnd done + 2) :=
    ⟨le_succ _, le_rfl⟩
  exact Op.apply_of_within hwithin f (.inr (by omega))

theorem mapSized_powerOn (r : RegionInfo) (f : Image) : MapSized r (powerOn r f).itemMap := by
  intro hmap
  obtain ⟨k, hk⟩ := r.sector_dvd
  simp only [powerOn, hmap, if_true, length_replicate, hk, nvramEraseAlignSize,
    nvramItemAlignSize]
  omega

/-- Behind the row of a segment there is no item. -/
theorem SegBody.empty_behind {s : RegionState} (h : SegBody r s.flash s.segOffset (rowBytes row)) :
    rowEnd row = r.segSize ∨ itemIsEmpty (readItemHeader s (s.segOffset + rowEnd row)) = true := by
  have hfits : rowEnd row ≤ r.segSize := h.fits
  have hfree : Erased s.flash (s.segOffset + rowEnd row) (r.segSize - rowEnd row) := h.free
  refine (eq_or_lt_of_le hfits).imp_right fun hlt => empty_of_erased (hfree.mono le_rfl ?_)
  have hdvd := dvd_rowEnd row
  have hseg := sixteen_dvd_segSize r
  simp only [nvramItemAlignSize, itemHeaderSize] at *
  omega

theorem Laid.stop {s : RegionState} (h : Laid r s row) :
    rowEnd row = r.segSize ∨ itemIsEmpty (readItemHeader s (s.segOffset + rowEnd row)) = true :=
  h.body.empty_behind

theorem Laid.searchable {s : RegionState} (h : Laid r s row) : Searchable r s row := by
  refine ⟨h.seg, h.holds, h.fits, ?_, h.stop.imp_right magic_of_empty⟩
  have hwithin := h.marks.within []
  rwa [append_nil] at hwithin

/-! ## The scan -/

/-- The state of the scan between two items. -/
structure RowScanning (r : RegionInfo) (s : RegionState) (done rest : List RawItem) : Prop where
  seg : IsSeg r s.segOffset
  holds : Holds s.flash (s.segOffset + nvramSegItemStartOffset) (rowBytes (done ++ rest))
  fits : rowEnd (done ++ rest) ≤ r.segSize
  marks : Marks r s.itemMap RawItem.isValid done
  crc : ∀ item ∈ done, item.status = .valid → item.header.crc = item.crc
  stop : rowEnd (done ++ rest) = r.segSize ∨
    itemIsEmpty (readItemHeader s (s.segOffset + rowEnd (done ++ rest))) = true

namespace RowScanning

variable {s : RegionState} {done rest : List RawItem} {item : RawItem}

theorem withBuf (h : RowScanning r s done rest) (b : List UInt8) :
    RowScanning r (s.withBuf b) done rest :=
  ⟨h.seg, h.holds, h.fits, h.marks, h.crc, h.stop⟩

/-- The scan of a segment starts with an empty bitmap. -/
theorem start (hseg : IsSeg r s.segOffset) (hbody : SegBody r s.flash s.segOffset (rowBytes row))
    (hmap : MapSized r s.itemMap) :
    RowScanning r { s with itemMap := itemBitmapClearAll s.itemMap } [] row :=
  ⟨hseg, hbody.holds, hbody.fits, marks_clearAll _ hmap, by simp, hbody.empty_behind⟩

theorem searchable (h : RowScanning r s done rest) : Searchable r s (done ++ rest) :=
  ⟨h.seg, h.holds, h.fits, h.marks.within rest, h.stop.imp_right magic_of_empty⟩

section

variable (h : RowScanning r s done (item :: rest))
include h

theorem item_le : rowEnd done + item.bytes.length ≤ r.segSize :=
  h.searchable.item_le

/-- An item that stays unmarked. -/
theorem skip (hstatus : item.status ≠ .valid) : RowScanning r s (done ++ [item]) rest := by
  have hassoc := append_cons done item rest
  refine ⟨h.seg, hassoc ▸ h.holds, hassoc ▸ h.fits, h.marks.append_unmarked ?_, ?_, hassoc ▸ h.stop⟩
  · rw [RawItem.isValid, beq_eq_false_iff_ne]
    exact hstatus
  · intro other hmem hvalid
    rcases mem_append.mp hmem with hmem | hmem
    · exact h.crc other hmem hvalid
    · rw [mem_singleton.mp hmem] at hvalid
      exact absurd hvalid hstatus

/-- A valid item is marked. -/
theorem accept (hstatus : item.status = .valid) (hcrc : item.header.crc = item.crc) :
    RowScanning r (s.mark (rowEnd done) true) (done ++ [item]) rest := by
  have hassoc := append_cons done item rest
  refine ⟨h.seg, hassoc ▸ h.holds, hassoc ▸ h.fits,
    h.marks.append (RawItem.isValid_iff.mpr hstatus), ?_,
    hassoc ▸ h.stop⟩
  intro other hmem hvalid
  rcases mem_append.mp hmem with hmem | hmem
  · exact h.crc other hmem hvalid
  · rw [mem_singleton.mp hmem]
    exact hcrc

end

/-- An item with the valid state is made obsolete, wherever it is in the row. -/
theorem obsolete_aux {first last : List RawItem} {old : RawItem}
    (h : RowScanning r s done rest) (hsplit : done ++ rest = first ++ old :: last)
    (hstate : old.header.state = nvramItemStateValid) {done' rest' : List RawItem}
    {map : List (BitVec 32)} (hsplit' : done' ++ rest' = first ++ old.obsoleted :: last)
    (hmarks : Marks r map RawItem.isValid done')
    (hcrc : ∀ item ∈ done', item.status = .valid → item.header.crc = item.crc) :
    RowScanning r { s.issue [obsoleteOp (s.segOffset + rowEnd first)] with itemMap := map } done'
      rest' := by
  have hholds := h.holds
  have hfits := h.fits
  have hstop := h.stop
  rw [hsplit] at hholds hfits hstop
  have hend := rowEnd_obsoleted first last old
  refine ⟨h.seg, ?_, ?_, hmarks, hcrc, ?_⟩
  · rw [hsplit']
    exact holds_obsoleted hholds hstate
  · rw [hsplit', hend]
    exact hfits
  · rw [hsplit', hend]
    refine hstop.imp_right fun hempty => ?_
    rw [readItemHeader] at hempty ⊢
    rw [← hempty]
    congr 2
    apply read_congr
    intro a hlo hhi
    exact obsoleteOp_apply_behind hlo

/-- An item with a wrong CRC. -/
theorem reject (h : RowScanning r s done (item :: rest)) (hstatus : item.status = .valid) :
    RowScanning r (s.issue [obsoleteOp (s.segOffset + rowEnd done)])
      (done ++ [item.obsoleted]) rest := by
  obtain ⟨hmagic, hstate, -⟩ := item.status_eq_valid.mp hstatus
  have hstatus' := item.status_obsoleted hmagic
  refine h.obsolete_aux rfl hstate (by rw [append_assoc]; rfl)
    (h.marks.append_unmarked (item.isValid_obsoleted hmagic)) ?_
  intro other hmem hvalid
  rcases mem_append.mp hmem with hmem | hmem
  · exact h.crc other hmem hvalid
  · rw [mem_singleton.mp hmem, hstatus'] at hvalid
    cases hvalid

/-- Another item that the search takes for the name is made obsolete; without a bitmap it may
lie ahead. -/
theorem retireOther {mem : List UInt8} {old : RawItem}
    (h : RowScanning r s done (item :: rest))
    (hfound : findRow r s.itemMap mem (done ++ item :: rest) nvramSegItemStartOffset =
      some (offs, old))
    (hne : offs ≠ rowEnd done) :
    ∃ done' rest' first last, RowScanning r
        ((s.issue [obsoleteOp (s.segOffset + rowEnd first)]).mark (rowEnd first) false) done'
          (item :: rest') ∧
      rowEnd done' = rowEnd done ∧ done'.length = done.length ∧ offs = rowEnd first ∧
      done ++ item :: rest = first ++ old :: last ∧
        done' ++ item :: rest' = first ++ old.obsoleted :: last := by
  obtain ⟨first, last, hsplit, hoffs, hvisible, hmagic, hmatch⟩ := findRow_mem hfound
  have hplace : offs = rowEnd first := hoffs
  subst hplace
  have hP := old.isValid_obsoleted hmagic
  have hdead := old.status_obsoleted hmagic
  rcases append_eq_append_iff.mp hsplit with ⟨middle, hfirst, hrest⟩ | ⟨middle, hdone, hlast⟩
  · cases middle with
    | nil => exact absurd (by rw [hfirst, append_nil]) hne
    | cons next middle =>
      obtain ⟨rfl, rfl⟩ := List.cons.inj hrest
      -- only a region without a bitmap looks ahead
      have hmap : r.hasItemMap = false := by
        by_contra hmap
        rw [Bool.not_eq_false] at hmap
        have hsearch := h.searchable
        rw [hsplit] at hsearch
        have hle := hsearch.item_le
        have hlen := old.length_ge
        have hfirst' := rowEnd_lt_of_item done middle item
        rw [← hfirst] at hfirst'
        simp only [nvramItemAlignSize] at hlen
        rw [h.marks.not_visible hmap (by omega) (by omega) (dvd_rowEnd first)] at hvisible
        cases hvisible
      have hsame : done ++ item :: (middle ++ old.obsoleted :: last) =
          first ++ old.obsoleted :: last := by
        rw [hfirst]
        simp
      refine ⟨done, middle ++ old.obsoleted :: last, first, last, ?_, rfl, rfl, rfl, hsplit, hsame⟩
      refine h.obsolete_aux hsplit hmatch.1.1 hsame ⟨?_, ?_⟩ h.crc
      · intro hmap'
        exact absurd (hmap.symm.trans hmap') Bool.false_ne_true
      · intro hmap'
        exact absurd (hmap.symm.trans hmap') Bool.false_ne_true
  · cases middle with
    | nil =>
      rw [append_nil] at hdone
      exact absurd (by rw [hdone]) hne
    | cons next middle =>
      obtain ⟨rfl, rfl⟩ := List.cons.inj hlast
      subst hdone
      refine ⟨first ++ old.obsoleted :: middle, rest, first, middle ++ item :: rest, ?_,
        rowEnd_obsoleted first middle old, by simp, rfl, hsplit, by simp⟩
      refine h.obsolete_aux hsplit hmatch.1.1 (by simp) (h.marks.unmark old.length_obsoleted hP) ?_
      intro other hmem hvalid
      rcases mem_append.mp hmem with hmem | hmem
      · exact h.crc other (mem_append_left _ hmem) hvalid
      · rcases mem_cons.mp hmem with rfl | hmem
        · rw [hdead] at hvalid
          cases hvalid
        · exact h.crc other (mem_append_right _ (mem_cons_of_mem _ hmem)) hvalid

/-- What the scan does with a valid item before it marks it. -/
def dropOlder (r : RegionInfo) (s : RegionState) (itemOffs : Nat) (item : ItemHeader) :
    RegionState :=
  match itemGetItemName r s itemOffs item with
  | none => s
  | some name =>
    let found := regionFindItemAt r s (r.memory name)
    match found.2 with
    | some (oldOffs, _) =>
      if oldOffs ≠ itemOffs then
        (itemUpdateState r found.1 oldOffs nvramItemStateObsolete).mark
          (oldOffs - found.1.segOffset) false
      else found.1
    | none => found.1

end RowScanning

/-- What the scan does with one item: the next state, the items seen and those to come, and the
operations on the flash. -/
inductive RowStep (r : RegionInfo) (s : RegionState) (done : List RawItem) (item : RawItem)
    (rest : List RawItem) : RegionState → List RawItem → List RawItem → List Op → Prop
  | skip (b : List UInt8) (hstatus : item.status ≠ .valid) :
      RowStep r s done item rest (s.withBuf b) (done ++ [item]) rest []
  | reject (b : List UInt8) (hvalid : item.status = .valid) (hcrc : item.header.crc ≠ item.crc) :
      RowStep r s done item rest ((s.issue [obsoleteOp (s.segOffset + rowEnd done)]).withBuf b)
        (done ++ [item.obsoleted]) rest [obsoleteOp (s.segOffset + rowEnd done)]
  | accept (b : List UInt8) (hvalid : item.status = .valid) (hcrc : item.header.crc = item.crc)
      (hfound : ∀ name ∈ itemGetItemName r s (s.segOffset + rowEnd done) item.header, ∀ place ∈
        findRow r s.itemMap (r.memory name) (done ++ item :: rest) nvramSegItemStartOffset,
          place.1 = rowEnd done) :
      RowStep r s done item rest ((s.withBuf b).mark (rowEnd done) true) (done ++ [item]) rest []
  | replace (b : List UInt8) {name : List UInt8} {old : RawItem}
      {first last done' rest' : List RawItem}
      (hvalid : item.status = .valid) (hcrc : item.header.crc = item.crc)
      (hname : itemGetItemName r s (s.segOffset + rowEnd done) item.header = some name)
      (hfound : findRow r s.itemMap (r.memory name) (done ++ item :: rest) nvramSegItemStartOffset =
        some (rowEnd first, old)) (hne : rowEnd first ≠ rowEnd done) (hlen :
          done'.length = done.length)
      (hsplit : done ++ item :: rest = first ++ old :: last)
      (hsplit' : done' ++ item :: rest' = first ++ old.obsoleted :: last) :
      RowStep r s done item rest
        ((((s.withBuf b).issue [obsoleteOp (s.segOffset + rowEnd first)]).mark
          (rowEnd first) false).mark
          (rowEnd done) true) (done' ++ [item]) rest' [obsoleteOp (s.segOffset + rowEnd first)]

section

variable {s t : RegionState} {done rest done' rest' : List RawItem} {item : RawItem} {ops : List Op}

theorem RowStep.issued (h : RowStep r s done item rest t done' rest' ops) : Issued s t ops := by
  cases h with
  | skip => exact ⟨rfl, (append_nil _).symm⟩
  | reject => exact ⟨rfl, rfl⟩
  | accept => exact ⟨rfl, (append_nil _).symm⟩
  | replace => exact ⟨rfl, rfl⟩

/-- A step issues one operation at most. -/
theorem RowStep.along {P : Image → Prop} (h : RowStep r s done item rest t done' rest' ops)
    (hs : P s.flash) (ht : P t.flash) : Along P s.flash ops := by
  cases h with
  | skip => exact hs
  | reject => exact ⟨hs, ht⟩
  | accept => exact hs
  | replace => exact ⟨hs, ht⟩

theorem RowStep.length (h : RowStep r s done item rest t done' rest' ops) :
    rest'.length = rest.length := by
  cases h with
  | replace b hvalid hcrc hname hfound hne hlen hsplit hsplit' =>
    have hold := congrArg List.length hsplit
    have hnew := congrArg List.length hsplit'
    simp only [length_append, length_cons] at hold hnew
    omega
  | _ => rfl

theorem RowStep.inherits (h : RowStep r s done item rest t done' rest' ops) :
    Inherits (done ++ item :: rest) (done' ++ rest') := by
  cases h with
  | replace b hvalid hcrc hname hfound hne hlen hsplit hsplit' =>
    rw [append_assoc, singleton_append, hsplit, hsplit']
    exact inherits_obsoleted _ _ _
  | reject =>
    rw [append_assoc, singleton_append]
    exact inherits_obsoleted done rest item
  | _ =>
    rw [append_assoc, singleton_append]
    exact .refl _

end

namespace RowScanning

variable {s : RegionState} {done rest : List RawItem} {item : RawItem}

section

variable (h : RowScanning r s done (item :: rest))
include h

/-- A valid item. -/
theorem step_valid (b : List UInt8) (hvalid : item.status = .valid)
    (hcrc : item.header.crc = item.crc) :
    ∃ done' rest' ops, RowStep r s done item rest
        ((dropOlder r (s.withBuf b) (s.segOffset + rowEnd done) item.header).mark
          (rowEnd done) true)
        (done' ++ [item]) rest' ops ∧ rowEnd done' = rowEnd done ∧
      RowScanning r
        ((dropOlder r (s.withBuf b) (s.segOffset + rowEnd done) item.header).mark
        (rowEnd done) true)
        (done' ++ [item]) rest' := by
  unfold dropOlder
  cases hname : itemGetItemName r (s.withBuf b) (s.segOffset + rowEnd done) item.header with
  | none =>
    refine ⟨done, rest, [], .accept b hvalid hcrc ?_, rfl, (h.withBuf b).accept hvalid hcrc⟩
    exact fun name hmem => absurd (hname.symm.trans hmem) (by simp)
  | some name =>
    obtain ⟨b', hfind, -⟩ := (h.withBuf b).searchable.findAt (r.memory name)
    dsimp only
    rw [hfind]
    cases hfound : findRow r (s.withBuf b).itemMap (r.memory name)
      (done ++ item :: rest) nvramSegItemStartOffset with
    | none =>
      refine ⟨done, rest, [], .accept b' hvalid hcrc ?_, rfl, (h.withBuf b').accept hvalid hcrc⟩
      intro name' hmem place hplace
      obtain rfl := Option.some.inj (hname.symm.trans hmem)
      exact absurd (hfound.symm.trans hplace) (by simp)
    | some found =>
      obtain ⟨offs, old⟩ := found
      simp only [Option.map_some, rawFoundAt, withBuf_withBuf, withBuf_segOffset]
      by_cases hne : s.segOffset + offs ≠ s.segOffset + rowEnd done
      · have hne' : offs ≠ rowEnd done := fun heq => hne (congrArg (s.segOffset + ·) heq)
        obtain ⟨done', rest', first, last, hscan, hend, hlen, rfl, hsplit, hsplit'⟩ :=
          (h.withBuf b').retireOther hfound hne'
        have hin : s.segOffset + rowEnd first + 2 ≤ r.totalSize := by
          have hfits := h.fits
          have hle := h.seg.le
          have hroom := rowEnd_lt_of_item first last old
          rw [hsplit] at hfits
          simp only [nvramItemAlignSize] at hroom
          omega
        rw [if_pos hne, Nat.add_sub_cancel_left, itemUpdateState_eq _ hin]
        have haccept := hscan.accept hvalid hcrc
        rw [hend] at haccept
        exact ⟨done', rest', _, .replace b' hvalid hcrc hname hfound hne' hlen hsplit hsplit', hend,
          haccept⟩
      · rw [if_neg hne]
        refine ⟨done, rest, [], .accept b' hvalid hcrc ?_, rfl, (h.withBuf b').accept hvalid hcrc⟩
        intro name' hmem place hplace
        obtain rfl := Option.some.inj (hname.symm.trans hmem)
        obtain rfl := Option.some.inj (hfound.symm.trans hplace)
        exact add_left_cancel (not_not.mp hne)

/-- One item of the scan. -/
theorem step : ∃ t done' rest' ops, (∀ fuel, segScanLoop r (fuel + 1) s (rowEnd done) =
        segScanLoop r fuel t (rowEnd done')) ∧
      RowScanning r t done' rest' ∧ RowStep r s done item rest t done' rest' ops := by
  have hitem : Holds s.flash (s.segOffset + rowEnd done) item.bytes := holds_rawItem h.holds
  have hle := h.item_le
  have htotal := h.seg.le
  have hlen := item.length_ge
  simp only [nvramItemAlignSize] at hlen
  have hnext : ∀ next : RawItem, next.bytes.length = item.bytes.length →
      rowEnd done + itemGetAlignedSize item.header = rowEnd (done ++ [next]) := by
    intro next hsame
    rw [rowEnd_append_singleton, hsame, item.length_eq]
    rfl
  by_cases hvalid : item.status = .valid
  · by_cases hcrc : item.header.crc = item.crc
    · obtain ⟨b, hcheck⟩ := itemCheckValidity_raw (r := r) hitem (by omega) true (fun _ _ => hcrc)
      obtain ⟨done', rest', ops, hstep, hend, hscan⟩ := h.step_valid b hvalid hcrc
      refine ⟨_, _, rest', ops, fun fuel => ?_, hscan, hstep⟩
      rw [rowEnd_append_singleton, hend, ← rowEnd_append_singleton, ← hnext item rfl, segScanLoop,
        if_pos (by omega)]
      dsimp only
      rw [readItemHeader_raw hitem, hcheck, hvalid]
      rfl
    · obtain ⟨b, hcheck⟩ := itemCheckValidity_badCrc (r := r) hitem (by omega) hvalid hcrc
      refine ⟨_, _, rest, _, fun fuel => ?_, (h.reject hvalid).withBuf b, .reject b hvalid hcrc⟩
      rw [← hnext item.obsoleted item.length_obsoleted, segScanLoop, if_pos (by omega)]
      dsimp only
      rw [readItemHeader_raw hitem, hcheck]
  · obtain ⟨b, hcheck⟩ := itemCheckValidity_raw (r := r) hitem (by omega) true
      (fun _ hstatus => absurd hstatus hvalid)
    refine ⟨_, _, rest, _, fun fuel => ?_, (h.withBuf b).skip hvalid, .skip b hvalid⟩
    rw [← hnext item rfl, segScanLoop, if_pos (by omega)]
    dsimp only
    rw [readItemHeader_raw hitem, hcheck]
    cases hstatus : item.status with
    | empty => exact absurd hstatus item.status_ne_empty
    | valid => exact absurd hstatus hvalid
    | obsolete => rfl
    | invalid => rfl

end

/-- The scan ends behind the row. -/
theorem finish (h : RowScanning r s done []) (fuel : Nat) :
    segScanLoop r (fuel + 1) s (rowEnd done) = (s, rowEnd done) := by
  have hstop := h.stop
  rw [append_nil] at hstop
  rw [segScanLoop]
  split
  · rename_i hlt
    have hempty := hstop.resolve_left (Nat.ne_of_lt hlt)
    have hmagic := magic_of_empty hempty
    dsimp only
    rw [itemCheckValidity, if_pos hmagic, hempty, if_pos rfl]
  · rfl

/-- The loop of the scan, with what its steps keep. -/
theorem loop {P : RegionState → List RawItem → List RawItem → Prop}
    (hstep : ∀ s done item rest t done' rest' ops, P s done (item :: rest) →
      RowStep r s done item rest t done' rest' ops → P t done' rest') (n : Nat) :
    ∀ (s : RegionState) (done rest : List RawItem) (fuel : Nat), rest.length = n → n < fuel →
    RowScanning r s done rest → P s done rest →
    ∃ t row, segScanLoop r fuel s (rowEnd done) = (t, rowEnd row) ∧ RowScanning r t row [] ∧
      P t row [] := by
  induction n with
  | zero =>
    intro s done rest fuel hlen hfuel h hkept
    obtain ⟨fuel, rfl⟩ := exists_eq_add_one.mpr hfuel
    rw [length_eq_zero_iff.mp hlen] at h hkept
    exact ⟨s, done, h.finish fuel, h, hkept⟩
  | succ n ih =>
    intro s done rest fuel hlen hfuel h hkept
    obtain ⟨fuel, rfl⟩ := exists_eq_add_one.mpr (zero_lt_of_lt hfuel)
    obtain ⟨item, rest, rfl⟩ := exists_cons_of_length_eq_add_one hlen
    rw [length_cons, add_right_cancel_iff] at hlen
    obtain ⟨t, done', rest', ops, hround, hscan, hstep'⟩ := h.step
    rw [hround]
    exact ih t done' rest' fuel (hstep'.length.trans hlen) (by omega) hscan
      (hstep _ _ _ _ _ _ _ _ hkept hstep')

end RowScanning

/-- Behind its loop `region_seg_scan` moves the segment, unless the rest of it is erased. -/
theorem regionSegScan_cases {s t : RegionState} (forceMerge : Bool)
    (hloop : segScanLoop r r.segSize { s with itemMap := itemBitmapClearAll s.itemMap }
      nvramSegItemStartOffset = (t, offs)) (hdvd : nvramItemAlignSize ∣ offs) :
    ∃ b, regionSegScan r s forceMerge =
        regionPurgeSeg r ({ t with segWriteOffset := t.segOffset + offs }.withBuf b) true ∨
      regionSegScan r s forceMerge = { t with segWriteOffset := t.segOffset + offs }.withBuf b ∧
        Erased t.flash (t.segOffset + offs) (r.segSize - offs) := by
  rw [regionSegScan]
  dsimp only
  rw [hloop]
  dsimp only
  split
  · exact ⟨t.buf, .inl rfl⟩
  · obtain ⟨b, hb⟩ := regionIsEmpty_eq r.segSize { t with segWriteOffset := t.segOffset + offs }
      (t.segOffset + offs) (r.segSize - offs) (sub_le _ _)
      (dvd_sub (dvd_trans (by decide) r.sector_dvd) (dvd_trans (by decide) hdvd))
    rw [hb]
    dsimp only
    split
    · exact ⟨b, .inl rfl⟩
    · rename_i hclean
      rw [Bool.or_eq_true, not_or, Bool.not_eq_true', Bool.not_eq_false] at hclean
      exact ⟨b, .inr ⟨rfl, isErased_iff.mp hclean.2⟩⟩

/-- `region_seg_scan` leaves a row whose valid items are marked, whatever the items are. -/
theorem regionSegScan_laid {s : RegionState} (forceMerge : Bool)
    (h : RowScanning r { s with itemMap := itemBitmapClearAll s.itemMap } [] row) :
    ∃ row', Laid r (regionSegScan r s forceMerge) row' ∧ Inherits row row' := by
  have hfits := h.fits
  rw [nil_append] at hfits
  obtain ⟨t, row', hloop, hscan, hinherits⟩ := RowScanning.loop
    (P := fun _ done rest => Inherits row (done ++ rest)) (fun _ _ _ _ _ _ _ _ hkept hstep =>
      hkept.trans hstep.inherits) row.length _ [] row r.segSize rfl
    (lt_of_lt_of_le (length_row_lt row) hfits) h (.refl row)
  rw [append_nil] at hinherits
  rw [rowEnd_nil] at hloop
  have hscanFits := hscan.fits
  have hholds := hscan.holds
  rw [append_nil] at hscanFits hholds
  have hwalked : ∀ b,
      Walked r ({ t with segWriteOffset := t.segOffset + rowEnd row' }.withBuf b) row' :=
    fun b => ⟨hscan.seg, hholds, hscanFits, rfl, hscan.marks.sized, hscan.crc⟩
  obtain ⟨b, hpurge | ⟨heq, herased⟩⟩ := regionSegScan_cases forceMerge hloop (dvd_rowEnd row')
  · obtain ⟨ops, hlaid, -⟩ := (hwalked b).purge true
    rw [hpurge]
    exact ⟨_, hlaid, hinherits.trans (inherits_copyRow row')⟩
  · rw [heq]
    exact ⟨row', ⟨hwalked b, herased, hscan.marks⟩, hinherits⟩

/-! ## The walk -/

/-- The offsets a walk over the headers of the active segment comes to. -/
inductive OnWalk (r : RegionInfo) (s : RegionState) : Nat → Prop
  | start : OnWalk r s nvramSegItemStartOffset
  | next {offs : Nat} (h : OnWalk r s offs) (hlt : offs < r.segSize)
      (hitem : itemIsEmpty (readItemHeader s (s.segOffset + offs)) = false) :
      OnWalk r s (offs + itemGetAlignedSize (readItemHeader s (s.segOffset + offs)))

section

variable {s : RegionState}

/-- The bytes from one header to the next. -/
theorem exists_rawItem (hitem : itemIsEmpty (readItemHeader s offs) = false) :
    ∃ item : RawItem, Holds s.flash offs item.bytes ∧
      item.bytes.length = itemGetAlignedSize (readItemHeader s offs) := by
  have hge : itemHeaderSize ≤ itemGetAlignedSize (readItemHeader s offs) :=
    le_trans (by decide) (itemCalcAlignedSize_pos _ _)
  have hholds :
      Holds s.flash offs (read s.flash offs (itemGetAlignedSize (readItemHeader s offs))) := by
    rw [Holds, length_read]
  have htake : (read s.flash offs (itemGetAlignedSize (readItemHeader s offs))).take
      itemHeaderSize =
      (readItemHeader s offs).bytes := by
    rw [← hholds.read_take (by rw [length_read]; exact hge)]
    rfl
  refine ⟨⟨read s.flash offs (itemGetAlignedSize (readItemHeader s offs)), ?_, ?_⟩, hholds,
    length_read _ _ _⟩
  · rw [htake, length_read]
  · rw [htake]
    exact hitem

/-- A walk that stays in the segment goes over a row. -/
theorem exists_row (hwalk : ∀ offs, OnWalk r s offs → offs ≤ r.segSize) (n : Nat) :
    ∀ done : List RawItem, r.segSize - rowEnd done ≤ n → OnWalk r s (rowEnd done) →
      Holds s.flash (s.segOffset + nvramSegItemStartOffset) (rowBytes done) →
      ∃ row, Holds s.flash (s.segOffset + nvramSegItemStartOffset) (rowBytes row) ∧
        rowEnd row ≤ r.segSize ∧ (rowEnd row = r.segSize ∨
          itemIsEmpty (readItemHeader s (s.segOffset + rowEnd row)) = true) := by
  induction n with
  | zero =>
    intro done hleft hon hholds
    have hle := hwalk _ hon
    exact ⟨done, hholds, hle, .inl (by omega)⟩
  | succ n ih =>
    intro done hleft hon hholds
    have hle := hwalk _ hon
    rcases eq_or_lt_of_le hle with heq | hlt
    · exact ⟨done, hholds, hle, .inl heq⟩
    · cases hempty : itemIsEmpty (readItemHeader s (s.segOffset + rowEnd done)) with
      | true => exact ⟨done, hholds, hle, .inr hempty⟩
      | false =>
        obtain ⟨item, hitem, hlen⟩ := exists_rawItem hempty
        have hpos := item.length_ge
        simp only [nvramItemAlignSize] at hpos
        apply ih (done ++ [item])
        · rw [rowEnd_append_singleton]
          omega
        · rw [rowEnd_append_singleton, hlen]
          exact hon.next hlt hempty
        · rw [rowBytes_append, holds_append, add_assoc]
          refine ⟨hholds, ?_⟩
          rw [rowBytes_cons, rowBytes_nil, append_nil]
          exact hitem

end

end SpeakerFirmware.Nvram
