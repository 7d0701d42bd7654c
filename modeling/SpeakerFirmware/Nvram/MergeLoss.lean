/-
# Power loss during the merge

A purge that loses power behind the header of the new segment leaves two valid
segments, and the next scan repeats the move. But it takes the next sequence number
for it, so that power loss during the scan leaves numbers that differ by two. The
scan after that takes the new segment for the active one and does not look for a
predecessor two steps back: every item is lost.
-/

import SpeakerFirmware.Nvram.PowerLoss

namespace SpeakerFirmware.Nvram

open NorFlash Runs
open List Function

variable {r : RegionInfo}
variable {s : RegionState} {slots : List Slot}

/-! ## The two cuts -/

/-- A set that has to purge can be cut behind the header of the new segment. -/
theorem Ready.set_cut_header (h : Ready r s slots)
    {name data : List UInt8} (hvalid : ValidSet name data) (hdata : data ≠ [])
    (hfits : Fits r s name data) (hne : contents slots name ≠ some data)
    (hfull : r.segSize < endOffset slots + itemCalcAlignedSize (name.length + 1) data.length) :
    ∃ k, TwoSegs r (applyAll ((setOps r s name data).take k) s.flash) s.segOffset
      (nextSegOffset r s) s.segSeqId (s.segSeqId + 1) slots := by
  obtain ⟨hnew, hnew_ne⟩ := isSeg_nextSegOffset h.holds.seg
  obtain ⟨b, hsame⟩ := h.isSame data hvalid.name_nul
  have hsize : itemCalcAlignedSize (cstr name).length data.length = (hvalid.item hdata).size := by
    rw [cstr, length_append]
    rfl
  have hpurge : regionPrepareWriteItem r (s.withBuf b) (hvalid.item hdata).size =
      regionPurgeSeg r (s.withBuf b) false := by
    rw [regionPrepareWriteItem, if_pos]
    rw [withBuf_segWriteOffset, withBuf_segOffset, h.write, Nat.add_assoc]
    exact Nat.add_lt_add_left hfull _
  have hroom := hfits.resolve_left hdata
  rw [h.liveItemsSize_eq, ← (h.withBuf b).liveItemsSize_eq] at hroom
  obtain ⟨slots₁, -, hready₁, hroom₁, -, -, -⟩ :=
    (h.withBuf b).prepare (hvalid.item hdata).size hroom
  obtain ⟨-, post, -, -, -, hissued₁, -⟩ := hready₁.replaceItem (hvalid.item hdata) hroom₁
  obtain ⟨s₁, pre, copies, hissued, hseq, -, hold, honly, hmoved⟩ :=
    (h.withBuf b).purge_moved false
  rw [hpurge] at hissued₁
  have hall := (hissued.trans hmoved.issued).trans hissued₁
  refine ⟨(pre ++ initOps r s₁.flash (nextSegOffset r s) (s₁.segSeqId + 1)).length, ?_⟩
  have hops : (setOps r s name data).take
      (pre ++ initOps r s₁.flash (nextSegOffset r s) (s₁.segSeqId + 1)).length =
      pre ++ initOps r s₁.flash (nextSegOffset r s) (s₁.segSeqId + 1) := by
    have hcall := regionSet_eq hvalid hdata hsame
    rw [decide_eq_false hne, if_neg Bool.false_ne_true, hsize, hpurge] at hcall
    rw [setOps, hcall]
    have hissue : (Nvram.replaceItem r (regionPurgeSeg r (s.withBuf b) false) name data).ops =
        s.ops ++ _ := hall.ops
    have hcut : ∀ first second third fourth : List Op,
        (first ++ (second ++ third) ++ fourth).take (first ++ second).length = first ++ second := by
      intro first second third fourth
      rw [← append_assoc, append_assoc (first ++ second), take_left]
    rw [hissue, drop_left]
    exact hcut _ _ _ _
  have hflash : applyAll pre s.flash = s₁.flash := hissued.flash.symm
  rw [hops, applyAll_append, hflash, hseq]
  exact twoSegs_initOps hold honly hnew (Ne.symm hnew_ne)

/-- The scan of a flash in the middle of a move can be cut behind the header it
writes. -/
theorem TwoSegs.scan_cut_header {f : Image} {old new : Nat} {seqId : UInt8}
    (hnew : IsSeg r new) (hne : old ≠ new) (h : TwoSegs r f old new seqId (seqId + 1) slots) :
    ∃ k, TwoSegs r (applyAll ((scanOps r f).take k) f) old new seqId (seqId + 1 + 1) slots ∧
      HoldsSeg r (applyAll ((scanOps r f).take k) f) new (seqId + 1 + 1) [] := by
  obtain ⟨t, copies, hmoved, hscan, hone⟩ := h.scan_moved hnew hne
  obtain ⟨-, ops, -, -, hissued, -⟩ := hone.segScan hmoved.marks.sized
  have hops : t.ops = initOps r f new (seqId + 1 + 1) ++ (copies ++ [retireOp old]) :=
    hmoved.issued.ops
  refine ⟨(initOps r f new (seqId + 1 + 1)).length, ?_⟩
  have htake : (scanOps r f).take (initOps r f new (seqId + 1 + 1)).length =
      initOps r f new (seqId + 1 + 1) := by
    rw [scanOps, hscan, hissued.ops, hops, append_assoc, take_left]
  rw [htake]
  refine ⟨twoSegs_initOps h.holds h.only hnew hne, ?_⟩
  rw [initOps, applyAll_append]
  exact holdsSeg_header _ hnew (erased_eraseSeg f new)

/-- The walk over an empty segment leaves nothing to find. -/
theorem regionGet_emptySeg (hseg : IsSeg r s.segOffset)
    (hbody : SegBody r s.flash s.segOffset (rowBytes []))
    (hmap : MapSized r s.itemMap) (name : List UInt8) {maxLen : Nat} (hlen : 0 < maxLen) :
    (regionGet r (regionSegScan r s false) name maxLen).2 = .error .enoent := by
  obtain ⟨row, hlaid, hinherits⟩ := regionSegScan_laid false (.start hseg hbody hmap)
  obtain ⟨b, hget⟩ := hlaid.searchable.get name hlen
  rw [hget]
  cases hfound : findRow r (regionSegScan r s false).itemMap
    (r.memory (cstr name)) row nvramSegItemStartOffset with
  | none => rfl
  | some found =>
    obtain ⟨first, last, rfl, -, -, -, hmatch⟩ := findRow_mem hfound
    obtain ⟨item, hmem, -⟩ := hinherits found.2 (mem_append_right _ mem_cons_self) hmatch.1.1
    cases hmem

/-- The scan of two segments whose numbers are two apart finds only the newer one. -/
theorem TwoSegs.scan_lost {f : Image} {old new : Nat} {seqId : UInt8}
    (hnew : IsSeg r new) (h : TwoSegs r f old new seqId (seqId + 1 + 1) slots)
    (hempty : HoldsSeg r f new (seqId + 1 + 1) []) (name : List UInt8)
    {maxLen : Nat} (hlen : 0 < maxLen) :
    (regionGet r (regionScan r (powerOn r f)) name maxLen).2 = .error .enoent := by
  have htwo : seqId + 1 + 1 = seqId + 2 := by
    rw [UInt8.add_assoc]
    rfl
  have horder : isLaterSeqId (seqId + 1 + 1) seqId = true ∧
      isLaterSeqId seqId (seqId + 1 + 1) = false := by
    rw [htwo]
    exact isLaterSeqId_add seqId (by decide)
  have hlatest : latestSeg (powerOn r f).flash isValidRegionSegHeader (segOffsets r) =
      some (seqId + 1 + 1, new) := latestSeg_two h.holds.header h.header h.only hnew horder
  have hprevious : previousSeg (powerOn r f).flash (seqId + 1 + 1) (segOffsets r) = none := by
    apply previousSeg_two_none h.holds.header h.header h.only
    rw [htwo, add_sub_seqId]
    decide
  have hscan : regionScan r (powerOn r f) = regionSegScan r
      { powerOn r f with segSeqId := seqId + 1 + 1, segOffset := new } false := by
    rw [regionScan, hlatest]
    dsimp only
    rw [hprevious]
  rw [hscan]
  exact regionGet_emptySeg (s := { powerOn r f with segSeqId := seqId + 1 + 1, segOffset := new })
    hnew
    hempty.body (mapSized_powerOn r f) name hlen

/-! ## A run that loses a value -/

/-- Values that differ from one set to the next. -/
def fillValue (n : Nat) : List UInt8 := List.replicate 512 (UInt8.ofNat n)

/-- The name `a` is set again and again. -/
def fillEvents (n : Nat) : List Event :=
  .boot :: (List.range n).map fun i => .set [0x61] (fillValue i)

theorem fillEvents_succ (n : Nat) :
    fillEvents (n + 1) = fillEvents n ++ [.set [0x61] (fillValue n)] := by
  rw [fillEvents, range_succ, map_append]
  rfl

/-- The map behind `fillEvents`. -/
def fillMap (n : Nat) : List UInt8 → Option (List UInt8) :=
  Function.update (fun _ => none) [0x61] (if n = 0 then none else some (fillValue (n - 1)))

theorem validSet_fill (name : UInt8) (hname : name ≠ 0) (n : Nat) :
    ValidSet [name] (fillValue n) := by
  refine ⟨?_, ?_, ?_⟩
  · rw [mem_singleton]
    exact hname.symm
  · rw [length_singleton]
    decide
  · rw [fillValue, length_replicate]
    exact le_rfl

theorem fillValue_ne_nil (n : Nat) : fillValue n ≠ [] := by
  intro h
  have hlen := congrArg List.length h
  rw [fillValue, length_replicate] at hlen
  exact absurd hlen (by decide)

/-- Two consecutive values differ. -/
theorem fillMap_ne {n : Nat} (hn : n < 256) : fillMap n [0x61] ≠ some (fillValue n) := by
  rw [fillMap, update_self]
  split
  · exact nofun
  · rename_i hpos
    intro h
    have hhead := replicate_inj.mp (Option.some.inj h)
    have hbyte := hhead.2.resolve_left (by decide)
    have hnat := congrArg UInt8.toNat hbyte
    rw [UInt8.toNat_ofNat', UInt8.toNat_ofNat'] at hnat
    omega

/-- A row with a single name holds a single live item. -/
theorem Ready.length_live_le (h : Ready r s slots)
    (name data : List UInt8) (hother : ∀ name', name' ≠ name → contents slots name' = none)
    (hname : ∀ data', contents slots name = some data' → data'.length ≤ data.length) :
    (slotsBytes (liveSlots slots)).length ≤
      itemCalcAlignedSize (name.length + 1) data.length := by
  have hnames : names slots = (liveItems slots).map Item.name := by
    rw [names, entries, map_map]
    rfl
  have hall : ∀ item ∈ liveItems slots, item.name = name := by
    intro item hmem
    by_contra hne
    have hnone := contents_eq_none_iff.mp (hother item.name hne)
    rw [hnames] at hnone
    exact hnone (mem_map_of_mem hmem)
  have hnodup := h.nodup
  rw [hnames] at hnodup
  have hvalue : ∀ item ∈ liveItems slots, contents slots item.name = some item.data := by
    intro item hmem
    apply LogMap.valueOf_of_mem h.nodup
    exact mem_map_of_mem hmem
  rw [liveSlots]
  rcases hitems : liveItems slots with _ | ⟨first, _ | ⟨second, rest⟩⟩
  · exact Nat.zero_le _
  · have hmem : first ∈ liveItems slots := by rw [hitems]; exact mem_cons_self
    have hname' := hall first hmem
    have hdata := hvalue first hmem
    rw [hname'] at hdata
    have hle := hname first.data hdata
    rw [map_singleton, slotsBytes_cons, slotsBytes_nil, append_nil, length_live,
      Item.size, hname']
    simp only [itemCalcAlignedSize, itemCalcRealSize, nvramItemAlignSize]
    omega
  · rw [hitems, map_cons, map_cons, nodup_cons] at hnodup
    have hfirst := hall first (by rw [hitems]; exact mem_cons_self)
    have hsecond := hall second (by
      rw [hitems]
      exact mem_cons_of_mem _ mem_cons_self)
    rw [hfirst, hsecond] at hnodup
    exact absurd mem_cons_self hnodup.1

/-- The steps of a device, with no condition but that sets are legal. -/
abbrev AnyStep : Device → Event → Device → Prop := LegalStep factoryNvramRegion fun _ _ => True

theorem fill_run {n : Nat} (hn : n ≤ 7) :
    ∃ s slots, Run AnyStep (.off fun _ => 0xff) (fillEvents n) (.on s) ∧
      Ready factoryNvramRegion s slots ∧ contents slots = fillMap n ∧
      endOffset slots = 16 + 528 * n := by
  induction n with
  | zero =>
    obtain ⟨hready, -⟩ := (blank_erased factoryNvramRegion).scan
    refine ⟨_, [], ?_, hready, ?_, rfl⟩
    · have hoff : Run AnyStep (.off fun _ => 0xff) [] (.off fun _ => 0xff) := .nil
      exact hoff.snoc ⟨.boot _, trivial, trivial⟩
    · rw [fillMap, if_pos rfl, update_eq_self]
      rfl
  | succ n ih =>
    obtain ⟨s, slots, hrun, hready, hcontents, hend⟩ := ih (by omega)
    have hvalid := validSet_fill 0x61 (by decide) n
    have hsize : itemCalcAlignedSize ([0x61] : List UInt8).length.succ (fillValue n).length =
        528 := by
      rw [fillValue, length_replicate]
      decide
    have hseg : factoryNvramRegion.segSize = 4096 := rfl
    have hfits : Fits factoryNvramRegion s [0x61] (fillValue n) := by
      right
      have hlive := length_liveSlots_le slots
      rw [hready.liveItemsSize_eq, hsize, hseg]
      rw [endOffset] at hend
      simp only [nvramSegItemStartOffset] at hend ⊢
      omega
    obtain ⟨slots', hready', hcontents', hend'⟩ := hready.store_room hvalid (fillValue_ne_nil n)
      (by rw [hsize, hend, hseg]; omega) (by rw [hcontents]; exact fillMap_ne (by omega))
    refine ⟨_, slots', ?_, hready', ?_, ?_⟩
    · rw [fillEvents_succ]
      exact .snoc hrun ⟨.set _ _ _, ⟨hvalid, hfits⟩, trivial⟩
    · rw [hcontents', hcontents, fillMap, fillMap, update_idem, if_neg (by omega),
        Nat.add_sub_cancel]
    · rw [hend', hend, hsize]
      omega

/-- After seven sets of `a`, a set of `b` that is cut during its purge, a scan that is
cut during its merge, and a complete scan, `a` is gone. -/
theorem merge_powerLoss_loses_value :
    ∃ k k' s, Run AnyStep (.off fun _ => 0xff)
        (fillEvents 7 ++ [.setCut [0x62] (fillValue 7) k] ++ [.bootCut k'] ++ [.boot]) (.on s) ∧
      allowed (fillEvents 7 ++ [.setCut [0x62] (fillValue 7) k] ++ [.bootCut k'] ++ [.boot])
        [0x61] = {some (fillValue 6)} ∧
      (regionGet factoryNvramRegion s [0x61] 512).2 = .error .enoent := by
  obtain ⟨s, slots, hrun, hready, hcontents, hend⟩ := fill_run le_rfl
  obtain ⟨hnew, hne⟩ := isSeg_nextSegOffset hready.holds.seg
  have hvalid := validSet_fill 0x62 (by decide) 7
  have hsize : ∀ n, itemCalcAlignedSize ([0x62] : List UInt8).length.succ (fillValue n).length =
      528 := by
    intro n
    rw [fillValue, length_replicate]
    decide
  have hseg : factoryNvramRegion.segSize = 4096 := rfl
  have hlive : (slotsBytes (liveSlots slots)).length ≤ 528 := by
    rw [← hsize 6]
    apply hready.length_live_le [0x61] (fillValue 6)
    · intro name hother
      rw [hcontents, fillMap, update_of_ne hother]
    · intro data hdata
      rw [hcontents, fillMap, update_self, if_neg (by decide)] at hdata
      rw [← Option.some.inj hdata]
  have hfits : Fits factoryNvramRegion s [0x62] (fillValue 7) := by
    right
    rw [hready.liveItemsSize_eq, hsize, hseg]
    simp only [nvramSegItemStartOffset]
    omega
  obtain ⟨k, htwo⟩ := hready.set_cut_header hvalid (fillValue_ne_nil 7) hfits
    (by rw [hcontents, fillMap, update_of_ne (by decide)]; simp)
    (by rw [hsize, hend, hseg]; decide)
  obtain ⟨k', htwo', hempty⟩ := htwo.scan_cut_header hnew (Ne.symm hne)
  refine ⟨k, k', _, ?_, ?_, htwo'.scan_lost hnew hempty _ (by decide)⟩
  · have hcut : Run AnyStep (.off fun _ => 0xff) (fillEvents 7 ++ [.setCut [0x62] (fillValue 7) k])
        (.off _) := .snoc hrun ⟨.setCut s [0x62] (fillValue 7) k, ⟨hvalid, hfits⟩, trivial⟩
    have hcut' : Run AnyStep (.off fun _ => 0xff)
        (fillEvents 7 ++ [.setCut [0x62] (fillValue 7) k] ++ [.bootCut k']) (.off _) :=
      .snoc hcut ⟨.bootCut _ k', trivial, trivial⟩
    exact .snoc hcut' ⟨.boot _, trivial, trivial⟩
  · rw [allowed_append, allowed_append, allowed_append]
    simp only [Event.allow]
    rw [update_of_ne (by decide), fillEvents_succ 6, allowed_append, Event.allow,
      update_self, storedValue, if_neg (fillValue_ne_nil 6)]

end SpeakerFirmware.Nvram
