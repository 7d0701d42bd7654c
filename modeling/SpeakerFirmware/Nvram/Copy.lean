/-
# Copying items

The loop of `region_copy_seg` copies the valid items of a row into another segment, packed and
marked, until it comes to an invalid one.
-/

import SpeakerFirmware.Nvram.Row

namespace SpeakerFirmware.Nvram

open NorFlash
open List Nat

variable {r : RegionInfo}
variable {s : RegionState} {f : Image} {offs : Nat} {bytes : List UInt8}
variable {row : List RawItem} {map : List (BitVec 32)}

/-- `t` is reached from `s` by issuing these operations. -/
structure Issued (s t : RegionState) (ops : List Op) : Prop where
  flash : t.flash = applyAll ops s.flash
  ops : t.ops = s.ops ++ ops

theorem Issued.trans {t u : RegionState} {first second : List Op} (hfirst : Issued s t first)
    (hsecond : Issued t u second) : Issued s u (first ++ second) := by
  refine ⟨?_, ?_⟩
  · rw [hsecond.flash, hfirst.flash, applyAll_append]
  · rw [hsecond.ops, hfirst.ops, append_assoc]

/-! ## Bytes appended to a segment -/

/-- Bytes programmed behind the row of items extend it. -/
theorem SegBody.extend {content : List UInt8} {ops : List Op}
    (h : SegBody r f offs content) (pad : Nat)
    (hfits : nvramSegItemStartOffset + content.length + bytes.length + pad ≤ r.segSize)
    (hops : AllWithin (offs + (nvramSegItemStartOffset + content.length))
      (offs + (nvramSegItemStartOffset + content.length) + bytes.length) ops)
    (hholds : Holds (applyAll ops f) (offs + (nvramSegItemStartOffset + content.length)) bytes) :
    SegBody r (applyAll ops f) offs (content ++ (bytes ++ List.replicate pad 0xff)) := by
  have hlen : (content ++ (bytes ++ List.replicate pad 0xff)).length =
      content.length + (bytes.length + pad) := by simp
  have hfree : Erased (applyAll ops f)
      (offs + (nvramSegItemStartOffset + content.length) + bytes.length)
      (r.segSize - (nvramSegItemStartOffset + content.length + bytes.length)) := by
    apply hops.erased (h.free.mono (by omega) (by omega)) (.inr le_rfl)
  refine ⟨by omega, ?_, ?_⟩
  · rw [holds_append, holds_append, add_assoc offs]
    refine ⟨hops.holds h.holds (.inl (by omega)), hholds, ?_⟩
    exact erased_iff_holds.mp (hfree.mono (by omega) (by omega))
  · rw [hlen]
    exact hfree.mono (by omega) (by omega)

/-! ## Copying one item -/

/-- `region_copy` between ranges that do not overlap. -/
theorem regionCopy_eq (fuel : Nat) (s : RegionState) (src dest len : Nat) (hfuel : len ≤ fuel)
    (hsrc : src + len ≤ r.totalSize) (hdest : dest + len ≤ r.totalSize)
    (hdisjoint : src + len ≤ dest ∨ dest + len ≤ src) (hfree : Erased s.flash dest len) :
    ∃ b ops, regionCopy r fuel s src dest len = (s.issue ops).withBuf b ∧
      AllWithin dest (dest + len) ops ∧
      Holds (applyAll ops s.flash) dest (read s.flash src len) := by
  induction fuel generalizing s src dest len with
  | zero =>
    have hzero : len = 0 := le_zero.mp hfuel
    subst hzero
    exact ⟨s.buf, [], by simp [regionCopy, RegionState.withBuf], allWithin_nil _ _, holds_nil _ _⟩
  | succ fuel ih =>
    rw [regionCopy]
    by_cases hzero : len = 0
    · subst hzero
      exact ⟨s.buf, [], by simp [RegionState.withBuf], allWithin_nil _ _, holds_nil _ _⟩
    · have hsplit : len = min len nvramBufferSize + (len - min len nvramBufferSize) := by
        omega
      have hpos : 0 < min len nvramBufferSize := by
        simp only [nvramBufferSize]
        omega
      generalize min len nvramBufferSize = n at hsplit hpos ⊢
      generalize hrest : len - n = m at hsplit ⊢
      subst hsplit
      rw [erased_add] at hfree
      rw [if_neg hzero, if_neg (by omega), if_neg (by omega), regionReadBuf_eq s (by omega),
        withBuf_buf, take_read_append]
      have hone := allWithin_nvramStorageWrite dest (read s.flash src n)
      rw [length_read] at hone
      rw [regionWrite_eq _ (by rw [length_read]; omega), issue_withBuf]
      obtain ⟨b, ops, heq, hops, hholds⟩ := ih
        ((s.issue (nvramStorageWrite dest (read s.flash src n))).withBuf
          (read s.flash src n ++ s.buf.drop n))
        (src + n) (dest + n) m (by omega) (by omega) (by omega) (by omega)
        (hone.erased hfree.2 (.inr le_rfl))
      refine ⟨b, nvramStorageWrite dest (read s.flash src n) ++ ops, ?_, ?_, ?_⟩
      · rw [hrest, heq]
        simp
      · rw [allWithin_append]
        exact ⟨hone.mono le_rfl (by omega), hops.mono (by omega) (by omega)⟩
      · have hsame : read (applyAll (nvramStorageWrite dest (read s.flash src n)) s.flash)
            (src + n) m = read s.flash (src + n) m := hone.read_eq s.flash (by omega)
        have hfirst : Holds (applyAll (nvramStorageWrite dest (read s.flash src n)) s.flash) dest
            (read s.flash src n) := by
          apply Erased.nvramStorageWrite
          rw [length_read]
          exact hfree.1
        have hsecond : Holds (applyAll ops
            (applyAll (nvramStorageWrite dest (read s.flash src n)) s.flash)) (dest + n)
            (read s.flash (src + n) m) := by
          rw [← hsame]
          exact hholds
        rw [applyAll_append, read_add, holds_append, length_read]
        exact ⟨hops.holds hfirst (.inl (by rw [length_read])), hsecond⟩

/-! ## Copies -/

namespace RawItem

variable (item : RawItem)

/-- The bytes of an item that count: header, name and data. -/
def real : Nat := itemCalcRealSize item.header.nameSize item.header.dataSize

theorem header_le_real : itemHeaderSize ≤ item.real := by
  rw [real, itemCalcRealSize, add_assoc]
  exact le_add_right _ _

/-- The bytes of a copy; the padding stays erased. -/
def packedBytes : List UInt8 :=
  item.bytes.take item.real ++ List.replicate (item.bytes.length - item.real) 0xff

theorem length_take_real : (item.bytes.take item.real).length = item.real :=
  length_take_of_le item.real_le

theorem length_packedBytes : item.packedBytes.length = item.bytes.length := by
  have hreal : item.real ≤ item.bytes.length := item.real_le
  rw [packedBytes, length_append, item.length_take_real, length_replicate]
  omega

/-- A copy agrees with the item in all bytes that count. -/
theorem drop_take_packedBytes {i n : Nat} (h : i + n ≤ item.real) :
    (item.packedBytes.drop i).take n = (item.bytes.drop i).take n := by
  have hlen := item.length_take_real
  rw [packedBytes, drop_append_of_le_length (by omega),
    take_append_of_le_length (by rw [length_drop]; omega), drop_take, take_take,
    min_eq_left (by omega)]

theorem take_packedBytes : item.packedBytes.take itemHeaderSize =
    item.bytes.take itemHeaderSize := by
  have h := item.drop_take_packedBytes (i := 0) (n := itemHeaderSize)
    (by rw [zero_add]; exact item.header_le_real)
  rwa [drop_zero, drop_zero] at h

/-- The copy of an item. -/
def packed : RawItem where
  bytes := item.packedBytes
  length_eq := by
    rw [take_packedBytes, length_packedBytes]
    exact item.length_eq
  not_empty := by
    rw [take_packedBytes]
    exact item.not_empty

theorem length_packed : item.packed.bytes.length = item.bytes.length := item.length_packedBytes

@[simp]
theorem header_packed : item.packed.header = item.header :=
    congrArg ItemHeader.mk item.take_packedBytes

@[simp]
theorem name_packed : item.packed.name = item.name := by
  rw [name, header_packed]
  refine item.drop_take_packedBytes ?_
  rw [real, itemCalcRealSize]
  exact le_add_right _ _

@[simp]
theorem data_packed : item.packed.data = item.data := by
  rw [data, header_packed]
  exact item.drop_take_packedBytes le_rfl

@[simp]
theorem crc_packed : item.packed.crc = item.crc := by
  rw [crc, data_packed, name_packed, header_packed, crc]

@[simp]
theorem status_packed : item.packed.status = item.status := by
  rw [status, header_packed, name_packed, status]

@[simp]
theorem matches_packed (mem : List UInt8) : item.packed.Matches mem ↔ item.Matches mem := by
  rw [Matches, header_packed, name_packed, Matches]

end RawItem

/-- The row that `region_copy_seg` makes. -/
def copyRow : List RawItem → List RawItem
  | [] => []
  | item :: rest =>
    match item.status with
    | .valid => item.packed :: copyRow rest
    | .invalid => []
    | _ => copyRow rest

section

variable {item : RawItem}

theorem copyRow_valid (h : item.status = .valid) (rest : List RawItem) :
    copyRow (item :: rest) = item.packed :: copyRow rest := by
  rw [copyRow, h]

theorem copyRow_invalid (h : item.status = .invalid) (rest : List RawItem) :
    copyRow (item :: rest) = [] := by
  rw [copyRow, h]

theorem copyRow_obsolete (h : item.status = .obsolete) (rest : List RawItem) :
    copyRow (item :: rest) = copyRow rest := by
  rw [copyRow, h]

end

theorem length_copyRow_le (row : List RawItem) :
    (rowBytes (copyRow row)).length ≤ (rowBytes row).length := by
  induction row with
  | nil => exact le_rfl
  | cons item rest ih =>
    rw [rowBytes_cons, length_append]
    cases hstatus : item.status with
    | empty => exact absurd hstatus item.status_ne_empty
    | valid =>
      rw [copyRow_valid hstatus, rowBytes_cons, length_append, item.length_packed]
      omega
    | obsolete =>
      rw [copyRow_obsolete hstatus]
      omega
    | invalid =>
      rw [copyRow_invalid hstatus]
      exact zero_le _

theorem mem_copyRow {copy : RawItem} (h : copy ∈ copyRow row) :
    ∃ item ∈ row, copy = item.packed ∧ item.status = .valid := by
  induction row with
  | nil => exact absurd h not_mem_nil
  | cons item rest ih =>
    have hlater : copy ∈ copyRow rest → ∃ item' ∈ item :: rest, copy = item'.packed ∧
        item'.status = .valid := by
      intro hmem
      obtain ⟨item', hmem', hfacts⟩ := ih hmem
      exact ⟨item', mem_cons_of_mem _ hmem', hfacts⟩
    cases hstatus : item.status with
    | empty => exact absurd hstatus item.status_ne_empty
    | valid =>
      rw [copyRow_valid hstatus] at h
      rcases mem_cons.mp h with rfl | hmem
      · exact ⟨item, mem_cons_self, rfl, hstatus⟩
      · exact hlater hmem
    | obsolete =>
      rw [copyRow_obsolete hstatus] at h
      exact hlater h
    | invalid =>
      rw [copyRow_invalid hstatus] at h
      exact absurd h not_mem_nil

theorem copyRow_isValid {item : RawItem} (h : item ∈ copyRow row) :
    item.status = .valid := by
  obtain ⟨source, -, rfl, hstatus⟩ := mem_copyRow h
  rw [source.status_packed, hstatus]

/-! ## The bitmap -/

theorem marks_clearAll (P : RawItem → Bool) (h : MapSized r map) :
    Marks r (itemBitmapClearAll map) P [] := by
  refine ⟨fun hmap => by rw [length_itemBitmapClearAll]; exact h hmap, fun _ bit _ => ?_⟩
  rw [mapBit_itemBitmapClearAll]
  exact ⟨nofun, nofun⟩

theorem rowEnd_div (row : List RawItem) :
    rowEnd row / nvramItemAlignSize * nvramItemAlignSize = rowEnd row :=
  Nat.div_mul_cancel (dvd_rowEnd row)

section

variable {P : RawItem → Bool} {item : RawItem} (h : Marks r map P row)
include h

/-- Marking an item at the end of the row. -/
theorem Marks.append (hP : P item = true) :
    Marks r (itemBitmapUpdate map (rowEnd row) true) P (row ++ [item]) := by
  refine ⟨fun hmap => by rw [length_itemBitmapUpdate]; exact h.sized hmap, ?_⟩
  intro hmap bit hbit
  have hsize := h.sized hmap
  have hdiv := rowEnd_div row
  rw [mapBit_itemBitmapUpdate _ _ _ (by rw [hsize]; exact hbit), offsetsOf_append, mem_append]
  simp only [offsetsOf, hP, if_true, append_nil, mem_singleton]
  have hstart : nvramSegItemStartOffset + (rowBytes row).length = rowEnd row := rfl
  rw [hstart]
  by_cases heq : bit = rowEnd row / nvramItemAlignSize
  · rw [if_pos heq, heq, hdiv]
    exact ⟨fun _ => .inr rfl, fun _ => rfl⟩
  · rw [if_neg heq, h.bits hmap bit hbit]
    refine ⟨.inl, ?_⟩
    rintro (hmem | hend)
    · exact hmem
    · exact absurd (by rw [← hend, Nat.mul_div_cancel _ (by decide)]) heq

/-- An item that is not to be marked. -/
theorem Marks.append_unmarked (hP : P item = false) : Marks r map P (row ++ [item]) := by
  refine ⟨h.sized, fun hmap bit hbit => ?_⟩
  rw [h.bits hmap bit hbit, offsetsOf_append, offsetsOf, hP, if_neg Bool.false_ne_true, offsetsOf,
    append_nil, append_nil]

end

/-- Unmarking an item. -/
theorem Marks.unmark {P : RawItem → Bool} {done rest : List RawItem}
    {item item' : RawItem} (h : Marks r map P (done ++ item :: rest))
    (hlen : item'.bytes.length = item.bytes.length) (hP : P item' = false) :
    Marks r (itemBitmapUpdate map (rowEnd done) false) P (done ++ item' :: rest) := by
  refine ⟨fun hmap => by rw [length_itemBitmapUpdate]; exact h.sized hmap, ?_⟩
  intro hmap bit hbit
  have hsize := h.sized hmap
  have hdiv := rowEnd_div done
  have hold := h.bits hmap bit hbit
  have hpos := item.length_ge
  rw [offsetsOf_append, mem_append, offsetsOf, mem_append] at hold ⊢
  have hstart : nvramSegItemStartOffset + (rowBytes done).length = rowEnd done := rfl
  rw [mapBit_itemBitmapUpdate _ _ _ (by rw [hsize]; exact hbit)]
  rw [hstart] at hold ⊢
  rw [hlen, hP, if_neg Bool.false_ne_true]
  by_cases heq : bit = rowEnd done / nvramItemAlignSize
  · rw [if_pos heq, heq, hdiv]
    refine ⟨(by simp), ?_⟩
    rintro (hmem | hmem | hmem)
    · have hbounds := offsetsOf_bounds hmem
      rw [hstart] at hbounds
      omega
    · exact absurd hmem not_mem_nil
    · have hbounds := offsetsOf_bounds hmem
      simp only [nvramItemAlignSize] at hpos
      omega
  · rw [if_neg heq, hold]
    refine ⟨?_, ?_⟩
    · rintro (hmem | hmem | hmem)
      · exact .inl hmem
      · split at hmem
        · refine absurd ?_ heq
          rw [← mem_singleton.mp hmem, Nat.mul_div_cancel _ (by decide)]
        · exact absurd hmem not_mem_nil
      · exact .inr (.inr hmem)
    · rintro (hmem | hmem | hmem)
      · exact .inl hmem
      · exact absurd hmem not_mem_nil
      · exact .inr (.inr hmem)

theorem offsetsOf_congr {P Q : RawItem → Bool} (h : ∀ item ∈ row, P item = Q item)
    (base : Nat) : offsetsOf P row base = offsetsOf Q row base := by
  induction row generalizing base with
  | nil => rfl
  | cons item rest ih =>
    rw [offsetsOf, offsetsOf, h item mem_cons_self, ih fun i hi => h i (mem_cons_of_mem _ hi)]

theorem Marks.congr {P Q : RawItem → Bool}
    (h : Marks r map P row) (hPQ : ∀ item ∈ row, P item = Q item) : Marks r map Q row := by
  refine ⟨h.sized, fun hmap bit hbit => ?_⟩
  rw [h.bits hmap bit hbit, offsetsOf_congr hPQ]

/-! ## The copy loop -/

/-- The state between two items of a copy: `copied` has arrived in the new segment, and `rest`
is still to be read in the old one. -/
structure RowCopying (r : RegionInfo) (old new : Nat) (s : RegionState) (copied rest : List RawItem)
    (itemOffs : Nat) : Prop where
  source : Holds s.flash itemOffs (rowBytes rest)
  source_ge : old ≤ itemOffs
  source_le : itemOffs + (rowBytes rest).length ≤ old + r.segSize
  room : rowEnd copied + (rowBytes (copyRow rest)).length ≤ r.segSize
  body : SegBody r s.flash new (rowBytes copied)
  marks : Marks r s.itemMap (fun _ => true) copied

namespace RowCopying

variable {old new : Nat} {s : RegionState} {copied rest : List RawItem} {item : RawItem}
  {itemOffs : Nat}

theorem withBuf (h : RowCopying r old new s copied rest itemOffs) (b : List UInt8) :
    RowCopying r old new (s.withBuf b) copied rest itemOffs :=
  ⟨h.source, h.source_ge, h.source_le, h.room, h.body, h.marks⟩

/-- An obsolete item is left behind. -/
theorem skip (h : RowCopying r old new s copied (item :: rest) itemOffs)
    (hstatus : item.status = .obsolete) :
    RowCopying r old new s copied rest (itemOffs + item.bytes.length) := by
  have hge := h.source_ge
  have hle := h.source_le
  have hroom := h.room
  rw [copyRow_obsolete hstatus] at hroom
  rw [rowBytes_cons, length_append] at hle
  exact ⟨(holds_append.mp h.source).2, by omega, by omega, hroom, h.body, h.marks⟩

/-- A valid item is copied behind the others and marked. -/
theorem copy (hold : IsSeg r old) (hnew : IsSeg r new) (hne : old ≠ new)
    (h : RowCopying r old new s copied (item :: rest) itemOffs) (hstatus : item.status = .valid) :
    ∃ b ops, regionCopy r item.real s itemOffs (new + rowEnd copied) item.real =
      (s.issue ops).withBuf b ∧
      AllWithin (new + nvramSegItemStartOffset) (new + r.segSize) ops ∧
      RowCopying r old new (((s.issue ops).withBuf b).mark (rowEnd copied) true)
        (copied ++ [item.packed]) rest (itemOffs + item.bytes.length) := by
  have hge := h.source_ge
  have hle := h.source_le
  have hroom := h.room
  have hreal : item.real ≤ item.bytes.length := item.real_le
  have hdisjoint := hold.disjoint hnew hne
  have hbody := h.body.free
  have hstart : nvramSegItemStartOffset + (rowBytes copied).length = rowEnd copied := rfl
  have hoffs : nvramSegItemStartOffset ≤ rowEnd copied := le_add_right _ _
  obtain ⟨hhead, hsource⟩ := holds_append.mp h.source
  rw [copyRow_valid hstatus, rowBytes_cons, length_append, item.length_packed] at hroom
  rw [rowBytes_cons, length_append] at hle
  rw [hstart] at hbody
  obtain ⟨b, ops, hcopy, hops, hholds⟩ := regionCopy_eq (r := r) item.real s itemOffs
    (new + rowEnd copied) item.real le_rfl (by have := hold.le; omega)
    (by have := hnew.le; omega) (by omega) (hbody.mono le_rfl (by omega))
  rw [hhead.read_take hreal] at hholds
  refine ⟨b, ops, hcopy, hops.mono (by omega) (by omega), ?_⟩
  refine ⟨hops.holds hsource (by omega), by omega, by omega, ?_, ?_, h.marks.append rfl⟩
  · rw [rowEnd_append_singleton, item.length_packed]
    omega
  · have hbytes : rowBytes (copied ++ [item.packed]) = rowBytes copied ++
        (item.bytes.take item.real ++ List.replicate (item.bytes.length - item.real) 0xff) := by
      rw [rowBytes_append, rowBytes_cons, rowBytes_nil, append_nil]
      rfl
    rw [hbytes]
    have hlen := item.length_take_real
    refine h.body.extend _ (by rw [hstart]; omega) ?_ hholds
    rw [hlen]
    exact hops

end RowCopying

/-- The loop of `region_copy_seg` over a row. It goes on behind the row, unless it has come to an
invalid item. -/
theorem copySegLoop_row {old new : Nat} (hold : IsSeg r old) (hnew : IsSeg r new) (hne : old ≠ new)
    (checkCrc : Bool) (finish : Nat) (rest : List RawItem) :
    ∀ (s : RegionState) (copied : List RawItem) (fuel itemOffs : Nat),
      RowCopying r old new s copied rest itemOffs → itemOffs + (rowBytes rest).length ≤ finish →
      (checkCrc = true → ∀ item ∈ rest, item.status = .valid → item.header.crc = item.crc) →
      ∃ t ops, Issued s t ops ∧ AllWithin (new + nvramSegItemStartOffset) (new + r.segSize) ops ∧
        RowCopying r old new t (copied ++ copyRow rest) [] (itemOffs + (rowBytes rest).length) ∧
        t.segOffset = s.segOffset ∧ t.segSeqId = s.segSeqId ∧
        (copySegLoop r new finish checkCrc (fuel + rest.length) s itemOffs (new + rowEnd copied) =
            (t, new + rowEnd (copied ++ copyRow rest)) ∨
          copySegLoop r new finish checkCrc (fuel + rest.length) s itemOffs (new + rowEnd copied) =
            copySegLoop r new finish checkCrc fuel t (itemOffs + (rowBytes rest).length)
              (new + rowEnd (copied ++ copyRow rest))) := by
  induction rest with
  | nil =>
    intro s copied fuel itemOffs h _ _
    rw [copyRow, append_nil]
    exact ⟨s, [], ⟨rfl, by simp⟩, allWithin_nil _ _, h, rfl, rfl, .inr rfl⟩
  | cons item rest ih =>
    intro s copied fuel itemOffs h hfinish hcrc
    have hpos := item.length_ge
    have hin := hold.le
    have hle := h.source_le
    have hitem := (holds_append.mp h.source).1
    have hlen : (rowBytes (item :: rest)).length = item.bytes.length + (rowBytes rest).length := by
      rw [rowBytes_cons, length_append]
    have hsize : itemGetAlignedSize item.header = item.bytes.length := item.length_eq.symm
    simp only [nvramItemAlignSize] at hpos
    rw [hlen, ← add_assoc] at hfinish ⊢
    rw [hlen] at hle
    obtain ⟨b, hcheck⟩ := itemCheckValidity_raw (r := r) hitem (by omega) checkCrc
      (fun hyes => hcrc hyes item mem_cons_self)
    have hcrc' : checkCrc = true → ∀ i ∈ rest, i.status = .valid → i.header.crc = i.crc :=
      fun hyes i hi => hcrc hyes i (mem_cons_of_mem _ hi)
    rw [length_cons, ← add_assoc, copySegLoop, if_pos (by omega), readItemHeader_raw hitem]
    dsimp only
    rw [hcheck, hsize]
    cases hstatus : item.status with
    | empty => exact absurd hstatus item.status_ne_empty
    | invalid =>
      have hge := h.source_ge
      rw [copyRow_invalid hstatus, append_nil]
      exact ⟨s.withBuf b, [], ⟨rfl, by simp⟩, allWithin_nil _ _,
        ⟨holds_nil _ _,
          by omega, by rw [rowBytes_nil, length_nil]; omega, h.body.fits, h.body, h.marks⟩,
        rfl, rfl, .inl rfl⟩
    | obsolete =>
      rw [copyRow_obsolete hstatus]
      obtain ⟨t, ops, hissued, hrest⟩ :=
        ih (s.withBuf b) copied fuel _ ((h.withBuf b).skip hstatus) hfinish hcrc'
      exact ⟨t, ops, ⟨hissued.flash, hissued.ops⟩, hrest⟩
    | valid =>
      obtain ⟨b', ops, hcopy, hops, hnext⟩ := (h.withBuf b).copy hold hnew hne hstatus
      have hoffs : new + rowEnd copied + item.bytes.length =
          new + rowEnd (copied ++ [item.packed]) := by
        rw [rowEnd_append_singleton, item.length_packed, add_assoc]
      have hcopy' :
          regionCopy r (itemCalcRealSize item.header.nameSize item.header.dataSize) (s.withBuf b)
          itemOffs (new + rowEnd copied)
            (itemCalcRealSize item.header.nameSize item.header.dataSize) =
          ((s.withBuf b).issue ops).withBuf b' := hcopy
      dsimp only
      rw [hcopy', Nat.add_sub_cancel_left, hoffs]
      obtain ⟨t, ops', hissued, hops', hcopying, hseg, hseq, hloop⟩ :=
        ih _ _ fuel _ hnext hfinish hcrc'
      have hassoc : copied ++ copyRow (item :: rest) = copied ++ [item.packed] ++ copyRow rest := by
        rw [copyRow_valid hstatus, append_assoc, singleton_append]
      rw [hassoc]
      exact ⟨t, ops ++ ops', Issued.trans ⟨rfl, rfl⟩ hissued, allWithin_append.mpr ⟨hops, hops'⟩,
        hcopying, hseg, hseq, hloop⟩

/-- The loop ends where it was told to, and at an erased header. -/
theorem copySegLoop_stop {new finish itemOffs : Nat} (s : RegionState)
    (h : finish ≤ itemOffs ∨ itemIsEmpty (readItemHeader s itemOffs) = true)
    (checkCrc : Bool) (fuel newItemOffs : Nat) :
    copySegLoop r new finish checkCrc fuel s itemOffs newItemOffs = (s, newItemOffs) := by
  cases fuel with
  | zero => rfl
  | succ fuel =>
    rw [copySegLoop]
    split
    · rename_i hlt
      have hempty := h.resolve_left (not_le.mpr hlt)
      dsimp only
      rw [itemCheckValidity, if_pos (magic_of_empty hempty), hempty, if_pos rfl]
    · rfl

end SpeakerFirmware.Nvram
