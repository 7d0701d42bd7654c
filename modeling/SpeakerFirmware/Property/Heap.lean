/-
# The buffers of the property cache

`Property.Cache` has the names and the values of the entries. Here the slots hold the
pointers of `cahce_item_data`, and the blocks that `mem_malloc` has handed out and
`mem_free` has not taken back are counted, so that a lost buffer shows. `Memory.view`
forgets the pointers; `view_set` says that `property_cache_set` does the same on both
levels.

A set that runs out of memory is harmless only on the way to a new entry of
`get_property_cache`: `failed_set_harmless_iff`.
-/

import SpeakerFirmware.Property.Cache

namespace SpeakerFirmware.Property

open Nvram
open List

/-! ## State -/

/-- A block of `mem_malloc`, with what it holds. In a block for a name this is the string without
the zero behind it. -/
structure Block where
  addr : Nat
  bytes : List UInt8
  deriving DecidableEq, Repr

/-- What the `data` of a slot points to: a block, or memory of the caller. -/
inductive Buffer
  | own (block : Block)
  | caller (bytes : List UInt8)
  deriving DecidableEq, Repr

def Buffer.bytes : Buffer → List UInt8
  | .own block => block.bytes
  | .caller bytes => bytes

/-- `memcpy` to the front of a buffer. -/
def Buffer.write (data : List UInt8) : Buffer → Buffer
  | .own block => .own { block with bytes := data ++ block.bytes.drop data.length }
  | .caller bytes => .caller (data ++ bytes.drop data.length)

/-- `cahce_item_data` with its pointers; `none` is NULL. -/
structure Slot where
  name : Option Block
  data : Option Buffer
  dataLen : Nat
  usedFlag : Bool
  flushReq : Bool
  globalData : Bool
  deriving DecidableEq, Repr

def freeSlot : Slot := ⟨none, none, 0, false, false, false⟩

/-- The cache, the blocks in use, every answer of `mem_malloc` so far, and the two NVRAM maps. -/
structure Memory where
  slots : List Slot
  live : List Nat
  mallocs : List (Option Nat)
  user : List UInt8 → Option (List UInt8)
  factory : List UInt8 → Option (List UInt8)

namespace Memory

def slot (m : Memory) (i : Nat) : Slot := m.slots.getD i freeSlot

def setSlot (m : Memory) (i : Nat) (slot : Slot) : Memory := { m with slots := m.slots.set i slot }

/-- `mem_malloc` with the address it returns. -/
def memMalloc (m : Memory) (result : Option Nat) : Memory :=
  { m with live := result.toList ++ m.live, mallocs := m.mallocs ++ [result] }

/-- `mem_free`; memory of the caller is no block. -/
def memFree (m : Memory) : Option Buffer → Memory
  | some (.own block) => { m with live := m.live.erase block.addr }
  | _ => m

def memFreeName (m : Memory) (name : Option Block) : Memory := m.memFree (name.map .own)

end Memory

/-- The entry without its pointers. Of a free slot only the flags count. -/
def Slot.view (slot : Slot) : CacheItem where
  name := if slot.usedFlag then (slot.name.map Block.bytes).getD [] else []
  data := if slot.usedFlag then slot.data.map Buffer.bytes else none
  dataLen := slot.dataLen
  usedFlag := slot.usedFlag
  flushReq := slot.flushReq
  globalData := slot.globalData

def Memory.propertyCacheInit (user factory : List UInt8 → Option (List UInt8)) : Memory :=
  ⟨List.replicate maxNvramItemCacheNum freeSlot, [], [], user, factory⟩

def Memory.view (m : Memory) : Store := ⟨m.slots.map Slot.view, m.user, m.factory⟩

/-! ## Slots -/

variable (m : Memory)

def Memory.findPropertyCache (name : List UInt8) : Option Nat :=
  m.slots.findIdx? fun slot => slot.usedFlag ∧ (slot.name.map Block.bytes).getD [] = name

/-- The first slot that is not in use. -/
def Memory.findFree : Option Nat :=
  m.slots.findIdx? fun slot => slot.usedFlag = false

/-- `get_property_cache`. Without memory for the data the name is freed again, and the slot keeps
the pointer to it. `alloc` has the answers of `mem_malloc` during a call. -/
def Memory.getPropertyCache (len : Nat) (alloc : Nat → Option Nat) : Memory × Option Nat :=
  match m.findFree with
  | none => (m, none)
  | some i =>
    let m₁ := m.memMalloc (alloc 0)
    match alloc 0 with
    | none => (m₁.setSlot i { m.slot i with name := none }, none)
    | some nameAddr =>
      let named := { m.slot i with name := some ⟨nameAddr, []⟩, data := none }
      if len = 0 then (m₁.setSlot i named, some i)
      else
        let m₂ := m₁.memMalloc (alloc 1)
        match alloc 1 with
        | none => ((m₂.setSlot i named).memFreeName named.name, none)
        | some dataAddr =>
          (m₂.setSlot i { named with data := some (.own ⟨dataAddr, List.replicate len 0⟩) }, some i)

def Memory.getPropertyCache2 (len : Nat) (alloc : Nat → Option Nat) : Memory × Option Nat :=
  match m.findFree with
  | none => (m, none)
  | some i =>
    let m₁ := m.memMalloc (alloc 0)
    let flagged := { m.slot i with globalData := true }
    match alloc 0 with
    | none => (m₁.setSlot i { flagged with name := none }, none)
    | some nameAddr =>
      let named := { flagged with name := some ⟨nameAddr, []⟩ }
      (m₁.setSlot i (if len = 0 then { named with data := none } else named), some i)

def Memory.putPropertyCache (i : Nat) : Memory :=
  let slot := m.slot i
  let m := if slot.globalData then m else m.memFree slot.data
  (m.memFreeName slot.name).setSlot i freeSlot

/-! ## Set -/

/-- `memcpy(item->name, name, strlen(name))`. -/
def Slot.copyName (slot : Slot) (name : List UInt8) : Slot :=
  { slot with name := slot.name.map fun block => { block with bytes := name } }

/-- New data for an entry, as `property_cache_set_bt_keys` and `property_cache_set2` write them. -/
def Memory.writeItem (i : Nat) (data : List UInt8) (alloc : Nat → Option Nat) :
    Memory × SetResult :=
  let slot := m.slot i
  if slot.dataLen = data.length then
    match slot.data with
    | some buffer => (m.setSlot i { slot with data := some (buffer.write data) }, .ok)
    | none => (m, .fault)
  else
    let m₁ := m.memMalloc (alloc 0)
    match alloc 0 with
    | none => (m₁.setSlot i { slot with data := none }, .ok)
    | some addr =>
      ((m₁.setSlot i
        { slot with data := some (.own ⟨addr, data⟩), dataLen := data.length % 1024 }).memFree
        slot.data, .ok)

variable (m : Memory) (name : List UInt8) (data : Option (List UInt8)) (alloc : Nat → Option Nat)

/-- The second half of `property_cache_set_bt_keys` and `property_cache_set2`. -/
def Memory.addItem : Memory × SetResult :=
  match m.getPropertyCache (data.getD []).length alloc with
  | (m, none) => (m, .enomem)
  | (m, some i) =>
    let slot := (m.slot i).copyName name
    (m.setSlot i { slot with
      data := slot.data.map (Buffer.write (data.getD [])), dataLen := (data.getD []).length % 1024
      usedFlag := true }, .ok)

def Memory.propertyCacheSetGlobalData : Memory × SetResult :=
  match m.findPropertyCache name with
  | some i =>
    match data with
    | none => (m.putPropertyCache i, .ok)
    | some bytes =>
      (m.setSlot i { m.slot i with data := some (.caller bytes), dataLen := bytes.length % 1024 },
        .ok)
  | none =>
    match m.getPropertyCache2 (data.getD []).length alloc with
    | (m, none) => (m, .enomem)
    | (m, some i) =>
      (m.setSlot i { (m.slot i).copyName name with
        data := data.map .caller, dataLen := (data.getD []).length % 1024, usedFlag := true }, .ok)

def Memory.propertyCacheSetBtKeys : Memory × SetResult :=
  match m.findPropertyCache name with
  | some i =>
    match data with
    | none => (m.putPropertyCache i, .ok)
    | some bytes => m.writeItem i bytes alloc
  | none => m.addItem name data alloc

def Memory.propertyCacheSet2 : Memory × SetResult :=
  match m.findPropertyCache name with
  | some i =>
    match data with
    | none =>
      if (m.slot i).data.isSome then
        ((m.memFree (m.slot i).data).setSlot i { m.slot i with data := none, dataLen := 0 }, .ok)
      else (m, .ok)
    | some bytes => m.writeItem i bytes alloc
  | none => m.addItem name data alloc

def Memory.propertyCacheSet : Memory × SetResult :=
  if data = some [] then (m, .einval)
  else match setter name with
    | .globalData => m.propertyCacheSetGlobalData name data alloc
    | .btKeys => m.propertyCacheSetBtKeys name data alloc
    | .set2 => m.propertyCacheSet2 name data alloc

def Memory.propertyCacheGet (m : Memory) (name : List UInt8) (len : Nat) :
    Except Errno (Nat × List UInt8) :=
  Property.propertyCacheGet m.view name len

/-! ## The view -/

section

variable (m : Memory)

theorem view_item (i : Nat) : m.view.item i = (m.slot i).view := by
  rw [Store.item, Memory.view, getD_eq_getElem?_getD, getElem?_map, Memory.slot,
    getD_eq_getElem?_getD]
  cases m.slots[i]? <;> rfl

theorem view_setSlot (i : Nat) (slot : Slot) :
    (m.setSlot i slot).view = m.view.setItem i slot.view := by
  rw [Memory.view, Memory.setSlot, Store.setItem, Memory.view, map_set]

@[simp]
theorem view_memMalloc (result : Option Nat) : (m.memMalloc result).view = m.view := rfl

@[simp]
theorem view_memFree (buffer : Option Buffer) : (m.memFree buffer).view = m.view := by
  unfold Memory.memFree
  split <;> rfl

@[simp]
theorem view_memFreeName (name : Option Block) : (m.memFreeName name).view = m.view :=
    view_memFree m _

theorem view_findFree : Property.findFree m.view = m.findFree := by
  rw [Property.findFree, Memory.findFree, Memory.view, findIdx?_map]
  rfl

theorem view_findPropertyCache (name : List UInt8) :
    Property.findPropertyCache m.view name = m.findPropertyCache name := by
  rw [Property.findPropertyCache, Memory.findPropertyCache, Memory.view, findIdx?_map]
  congr 1
  funext slot
  cases hused : slot.usedFlag <;> simp [Slot.view, CacheItem.key, hused]

theorem setItem_item (s : Store) (i : Nat) : s.setItem i (s.item i) = s := by
  rw [Store.setItem, Store.item]
  rcases Nat.lt_or_ge i s.cache.length with hlt | hge
  · rw [getD_eq_getElem?_getD, getElem?_eq_getElem hlt, Option.getD_some, set_getElem_self]
  · rw [set_eq_of_length_le hge]

/-- A slot that stands for the same entry. -/
theorem view_setSlot_same {i : Nat} {slot : Slot} (h : slot.view = (m.slot i).view) :
    (m.setSlot i slot).view = m.view := by
  rw [view_setSlot, h, ← view_item, setItem_item]

end

section

variable {m : Memory} {i : Nat}

theorem findFree_unused (h : m.findFree = some i) : (m.slot i).usedFlag = false ∧
    i < m.slots.length := by
  obtain ⟨hlt, hfree, -⟩ := findIdx?_eq_some_iff_getElem.mp h
  refine ⟨?_, hlt⟩
  rw [Memory.slot, getD_eq_getElem?_getD, getElem?_eq_getElem hlt]
  exact of_decide_eq_true hfree

/-- The pointers of a free slot stand for nothing. -/
theorem view_unused {slot slot' : Slot} (hused : slot.usedFlag = false)
    (hsame : slot' = { slot with name := slot'.name, data := slot'.data }) :
    slot'.view = slot.view := by
  rw [hsame]
  simp [Slot.view, hused]

theorem slot_setSlot (slot : Slot) (h : i < m.slots.length) : (m.setSlot i slot).slot i = slot := by
  rw [Memory.slot, Memory.setSlot, getD_eq_getElem?_getD, getElem?_set_self h]
  rfl

theorem setSlot_setSlot (slot slot' : Slot) :
    (m.setSlot i slot).setSlot i slot' = m.setSlot i slot' := by
  rw [Memory.setSlot, Memory.setSlot, Memory.setSlot, set_set]

end

/-- The outcomes of `get_property_cache`: no slot, no memory for the name or for the data, or a
slot. -/
inductive Allotted (m : Memory) (len : Nat) (alloc : Nat → Option Nat) : Memory × Option Nat → Prop
  | noSlot (hfree : m.findFree = none) : Allotted m len alloc (m, none)
  | noName (i : Nat) (hfree : m.findFree = some i) (hname : alloc 0 = none) :
      Allotted m len alloc ((m.memMalloc none).setSlot i { m.slot i with name := none }, none)
  | noData (i nameAddr : Nat) (hfree : m.findFree = some i) (hname : alloc 0 = some nameAddr)
      (hlen : len ≠ 0) (hdata : alloc 1 = none) :
      Allotted m len alloc
        (((((m.memMalloc (some nameAddr)).memMalloc none).setSlot i
          { m.slot i with name := some ⟨nameAddr, []⟩, data := none }).memFreeName (some
            ⟨nameAddr, []⟩)), none)
  | empty (i nameAddr : Nat) (hfree : m.findFree = some i) (hname : alloc 0 = some nameAddr)
      (hlen : len = 0) :
      Allotted m len alloc
        ((m.memMalloc (some nameAddr)).setSlot i
          { m.slot i with name := some ⟨nameAddr, []⟩, data := none }, some i)
  | filled (i nameAddr dataAddr : Nat) (hfree : m.findFree = some i)
      (hname : alloc 0 = some nameAddr)
      (hlen : len ≠ 0) (hdata : alloc 1 = some dataAddr) :
      Allotted m len alloc
        (((m.memMalloc (some nameAddr)).memMalloc (some dataAddr)).setSlot i
          { m.slot i with
            name := some ⟨nameAddr, []⟩, data :=
              some (.own ⟨dataAddr, List.replicate len 0⟩) }, some i)

theorem getPropertyCache_cases (m : Memory) (len : Nat) (alloc : Nat → Option Nat) :
    Allotted m len alloc (m.getPropertyCache len alloc) := by
  unfold Memory.getPropertyCache
  cases hfree : m.findFree with
  | none => exact .noSlot hfree
  | some i =>
    dsimp only
    cases hname : alloc 0 with
    | none => exact .noName i hfree hname
    | some nameAddr =>
      dsimp only
      split
      · rename_i hlen
        exact .empty i nameAddr hfree hname hlen
      · rename_i hlen
        cases hdata : alloc 1 with
        | none => exact .noData i nameAddr hfree hname hlen hdata
        | some dataAddr => exact .filled i nameAddr dataAddr hfree hname hlen hdata

/-! ## Both levels agree -/

section

variable (m : Memory) (name : List UInt8) (data : Option (List UInt8)) (alloc : Nat → Option Nat)

/-- The answers of `mem_malloc` as the level above has them. -/
def succeeds (alloc : Nat → Option Nat) : Nat → Bool := fun k => (alloc k).isSome

/-- A result that stands for one of the level above. -/
structure Views (r : Memory × SetResult) (q : Store × SetResult) : Prop where
  view : r.1.view = q.1
  result : r.2 = q.2

theorem view_writeItem (i : Nat) (bytes : List UInt8) (hused : (m.slot i).usedFlag = true) :
    Views (m.writeItem i bytes alloc)
      (m.view.setItem i (Property.writeItem (m.view.item i) bytes (succeeds alloc)).1,
        (Property.writeItem (m.view.item i) bytes (succeeds alloc)).2) := by
  have hsame : m.view.setItem i (m.slot i).view = m.view := by rw [← view_item, setItem_item]
  rw [view_item]
  unfold Memory.writeItem Property.writeItem
  generalize m.slot i = slot at hused hsame ⊢
  obtain ⟨nameBlock, buffer, dataLen, usedFlag, flushReq, globalData⟩ := slot
  subst hused
  simp only [Slot.view] at hsame ⊢
  by_cases hlen : dataLen = bytes.length
  · rw [if_pos hlen, if_pos hlen]
    cases buffer with
    | none => exact ⟨hsame.symm, rfl⟩
    | some buffer =>
      refine ⟨?_, rfl⟩
      rw [view_setSlot]
      cases buffer <;> rfl
  · rw [if_neg hlen, if_neg hlen, succeeds]
    cases alloc 0 with
    | none => exact ⟨view_setSlot _ _ _, rfl⟩
    | some addr =>
      refine ⟨?_, rfl⟩
      rw [view_memFree, view_setSlot]
      rfl

/-- A new entry of both levels. -/
theorem view_newEntry {i : Nat} {slot : Slot} (hslot : slot.view = (m.slot i).view) (block : Block)
    {buffer : Option Buffer} (hbuffer : buffer.map Buffer.bytes = data) :
    (m.setSlot i { slot with
      name := some { block with bytes := name }, data := buffer
      dataLen := (data.getD []).length % 1024, usedFlag := true }).view =
      m.view.setItem i (newEntry (m.view.item i) name data) := by
  rw [view_setSlot, view_item, ← hslot, ← hbuffer]
  rfl

/-- The entry that `addItem` makes of the slot it got. -/
theorem addItem_eq {m' : Memory} {i : Nat} {slot : Slot}
    (hget : m.getPropertyCache (data.getD []).length alloc = (m'.setSlot i slot, some i))
    (h : i < m'.slots.length) :
    m.addItem name data alloc = (m'.setSlot i { slot.copyName name with
      data := slot.data.map (Buffer.write (data.getD [])), dataLen := (data.getD []).length % 1024
      usedFlag := true }, .ok) := by
  unfold Memory.addItem
  rw [hget]
  dsimp only
  rw [slot_setSlot _ h, setSlot_setSlot]
  rfl

theorem addItem_none {m' : Memory}
    (hget : m.getPropertyCache (data.getD []).length alloc = (m', none)) :
    m.addItem name data alloc = (m', .enomem) := by
  unfold Memory.addItem
  rw [hget]

theorem view_addItem (hdata : data ≠ some []) :
    Views (m.addItem name data alloc) (Property.addItem m.view name data (succeeds alloc)) := by
  have hcases := getPropertyCache_cases m (data.getD []).length alloc
  unfold Property.addItem Property.getPropertyCache
  rw [view_findFree, succeeds, succeeds]
  generalize hget : m.getPropertyCache (data.getD []).length alloc = r at hcases
  cases hcases with
  | noSlot hfree =>
    rw [addItem_none m name data alloc hget, hfree]
    exact ⟨rfl, rfl⟩
  | noName i hfree hname =>
    obtain ⟨hunused, -⟩ := findFree_unused hfree
    rw [addItem_none m name data alloc hget, hfree, hname]
    exact ⟨view_setSlot_same (m.memMalloc none) (view_unused hunused rfl), rfl⟩
  | noData i nameAddr hfree hname hlen hnull =>
    obtain ⟨hunused, -⟩ := findFree_unused hfree
    rw [addItem_none m name data alloc hget, hfree, hname, hnull]
    dsimp only
    rw [if_neg (by simp [hlen])]
    refine ⟨?_, rfl⟩
    rw [view_memFreeName]
    exact view_setSlot_same ((m.memMalloc (some nameAddr)).memMalloc none) (view_unused hunused rfl)
  | empty i nameAddr hfree hname hlen =>
    obtain ⟨hunused, hlt⟩ := findFree_unused hfree
    have hnone : data = none := by
      cases data with
      | none => rfl
      | some bytes => exact absurd (congrArg some (length_eq_zero_iff.mp hlen)) hdata
    subst hnone
    rw [addItem_eq m name none alloc hget hlt, hfree, hname]
    dsimp only
    rw [if_pos ⟨rfl, .inl rfl⟩]
    exact ⟨view_newEntry (m.memMalloc (some nameAddr)) name none (view_unused hunused rfl)
      ⟨nameAddr, []⟩ rfl, rfl⟩
  | filled i nameAddr dataAddr hfree hname hlen hok =>
    obtain ⟨hunused, hlt⟩ := findFree_unused hfree
    cases data with
    | none => exact absurd rfl hlen
    | some bytes =>
      rw [addItem_eq m name (some bytes) alloc hget hlt, hfree, hname, hok]
      dsimp only
      rw [if_pos ⟨rfl, .inr rfl⟩]
      refine ⟨?_, rfl⟩
      -- the data fill a block that was cleared
      dsimp only [Option.map_some, Option.getD_some, Buffer.write]
      rw [drop_of_length_le (by rw [length_replicate]), append_nil]
      exact view_newEntry ((m.memMalloc (some nameAddr)).memMalloc (some dataAddr)) name
        (some bytes) (view_unused hunused rfl) ⟨nameAddr, []⟩ rfl

theorem view_putPropertyCache (i : Nat) :
    (m.putPropertyCache i).view = m.view.setItem i freeItem := by
  unfold Memory.putPropertyCache
  dsimp only
  rw [view_setSlot, view_memFreeName]
  split
  · rfl
  · rw [view_memFree]
    rfl

theorem findPropertyCache_used {m : Memory} {name : List UInt8} {i : Nat}
    (h : m.findPropertyCache name = some i) : (m.slot i).usedFlag = true := by
  obtain ⟨hlt, hfound, -⟩ := findIdx?_eq_some_iff_getElem.mp h
  rw [Memory.slot, getD_eq_getElem?_getD, getElem?_eq_getElem hlt]
  exact (of_decide_eq_true hfound).1

theorem view_setGlobalData :
    Views (m.propertyCacheSetGlobalData name data alloc)
      (Property.propertyCacheSetGlobalData m.view name data (succeeds alloc)) := by
  unfold Memory.propertyCacheSetGlobalData Property.propertyCacheSetGlobalData
  rw [view_findPropertyCache]
  cases hfind : m.findPropertyCache name with
  | some i =>
    cases data with
    | none => exact ⟨view_putPropertyCache m i, rfl⟩
    | some bytes =>
      have hused := findPropertyCache_used hfind
      refine ⟨?_, rfl⟩
      dsimp only
      rw [view_setSlot, view_item]
      simp [Slot.view, hused, Buffer.bytes]
  | none =>
    dsimp only
    unfold Memory.getPropertyCache2
    rw [view_findFree, succeeds]
    cases hfree : m.findFree with
    | none => exact ⟨rfl, rfl⟩
    | some i =>
      obtain ⟨hunused, hlt⟩ := findFree_unused hfree
      dsimp only
      cases alloc 0 with
      | none =>
        refine ⟨?_, rfl⟩
        dsimp only
        rw [view_setSlot, view_memMalloc, view_item]
        simp [Slot.view, hunused]
      | some nameAddr =>
        have hlt' : i < (m.memMalloc (some nameAddr)).slots.length := hlt
        refine ⟨?_, rfl⟩
        dsimp only
        rw [slot_setSlot _ hlt', setSlot_setSlot, view_setSlot, view_memMalloc, view_item]
        cases data with
        | none => simp [Slot.view, Slot.copyName, newEntry]
        | some bytes =>
          split <;> simp [Slot.view, Slot.copyName, newEntry, Buffer.bytes]

theorem view_setBtKeys (hdata : data ≠ some []) :
    Views (m.propertyCacheSetBtKeys name data alloc)
      (Property.propertyCacheSetBtKeys m.view name data (succeeds alloc)) := by
  unfold Memory.propertyCacheSetBtKeys Property.propertyCacheSetBtKeys
  rw [view_findPropertyCache]
  cases hfind : m.findPropertyCache name with
  | some i =>
    cases data with
    | none => exact ⟨view_putPropertyCache m i, rfl⟩
    | some bytes => exact view_writeItem m alloc i bytes (findPropertyCache_used hfind)
  | none => exact view_addItem m name data alloc hdata

theorem view_set2 (hdata : data ≠ some []) :
    Views (m.propertyCacheSet2 name data alloc)
      (Property.propertyCacheSet2 m.view name data (succeeds alloc)) := by
  unfold Memory.propertyCacheSet2 Property.propertyCacheSet2
  rw [view_findPropertyCache]
  cases hfind : m.findPropertyCache name with
  | some i =>
    cases data with
    | none =>
      have hused := findPropertyCache_used hfind
      have hsome : (m.view.item i).data.isSome = (m.slot i).data.isSome := by
        rw [view_item]
        simp [Slot.view, hused]
      dsimp only
      rw [hsome]
      split
      · refine ⟨?_, rfl⟩
        dsimp only
        rw [view_setSlot, view_memFree, view_item]
        simp [Slot.view, hused]
      · exact ⟨rfl, rfl⟩
    | some bytes => exact view_writeItem m alloc i bytes (findPropertyCache_used hfind)
  | none => exact view_addItem m name data alloc hdata

/-- `property_cache_set` does the same on both levels. -/
theorem view_set :
    Views (m.propertyCacheSet name data alloc)
      (Property.propertyCacheSet m.view name data (succeeds alloc)) := by
  unfold Memory.propertyCacheSet Property.propertyCacheSet
  split
  · exact ⟨rfl, rfl⟩
  · rename_i hdata
    cases setter name with
    | globalData => exact view_setGlobalData m name data alloc
    | btKeys => exact view_setBtKeys m name data alloc hdata
    | set2 => exact view_set2 m name data alloc hdata

/-- So does every sequence of calls, each with its own answers of `mem_malloc`. -/
theorem view_sets (calls : List (List UInt8 × Option (List UInt8) × (Nat → Option Nat))) :
    (calls.foldl (fun m c => (m.propertyCacheSet c.1 c.2.1 c.2.2).1) m).view =
      calls.foldl (fun s c => (propertyCacheSet s c.1 c.2.1 (succeeds c.2.2)).1) m.view :=
  (foldl_hom Memory.view fun m c => (view_set m c.1 c.2.1 c.2.2).view.symm).symm

end

/-! ## A set that runs out of memory -/

/-- The block a buffer is. -/
def Buffer.addr : Buffer → Option Nat
  | .own block => some block.addr
  | .caller _ => none

/-- The block belongs to the slot. -/
def Slot.Owns (slot : Slot) (addr : Nat) : Prop :=
  slot.name.map Block.addr = some addr ∨ slot.data.bind Buffer.addr = some addr

instance (slot : Slot) (addr : Nat) : Decidable (slot.Owns addr) :=
    inferInstanceAs (Decidable (_ ∨ _))

/-- A block that is in use and that no entry points to. -/
def Memory.Leaked (m : Memory) (addr : Nat) : Prop :=
  addr ∈ m.live ∧ ∀ slot ∈ m.slots, slot.usedFlag = true → ¬ slot.Owns addr

instance (m : Memory) (addr : Nat) : Decidable (m.Leaked addr) :=
    inferInstanceAs (Decidable (_ ∧ _))

/-- A slot has data if and only if it has a length, a free one has none, and a slot is marked only
for the data of `property_cache_set_global_data`: in use, for a name that this function handles. -/
structure Slot.Sound (slot : Slot) : Prop where
  data : slot.data = none ↔ slot.dataLen = 0
  unused : slot.usedFlag = false → slot.data = none
  marked : slot.globalData = true →
    slot.usedFlag = true ∧ ∃ block, slot.name = some block ∧ setter block.bytes = .globalData

def Memory.Sound (m : Memory) : Prop := ∀ slot ∈ m.slots, slot.Sound

/-- A call that fails and leaves no trace. -/
structure Harmless (m m' : Memory) (result : SetResult) : Prop where
  negative : result = .enomem ∨ result = .einval
  gets : ∀ name len, m'.propertyCacheGet name len = m.propertyCacheGet name len
  noLeak : ∀ addr, m'.Leaked addr → m.Leaked addr
  sound : m'.Sound

/-- During the call some `mem_malloc` returned NULL. -/
def NullReturned (m m' : Memory) : Prop := none ∈ m'.mallocs.drop m.mallocs.length

instance (m m' : Memory) : Decidable (NullReturned m m') := inferInstanceAs (Decidable (_ ∈ _))

theorem not_nullReturned {m m' : Memory} (h : m'.mallocs = m.mallocs) : ¬ NullReturned m m' := by
  rw [NullReturned, h, drop_length]
  exact not_mem_nil

theorem nullReturned_one {m m' : Memory} {result : Option Nat}
    (h : m'.mallocs = m.mallocs ++ [result]) (hnull : NullReturned m m') : result = none := by
  rw [NullReturned, h, drop_left, mem_singleton] at hnull
  exact hnull.symm

theorem mallocs_memFree (m : Memory) (buffer : Option Buffer) :
    (m.memFree buffer).mallocs = m.mallocs := by
  unfold Memory.memFree
  split <;> rfl

theorem mallocs_putPropertyCache (m : Memory) (i : Nat) :
    (m.putPropertyCache i).mallocs = m.mallocs := by
  unfold Memory.putPropertyCache
  dsimp only
  rw [Memory.setSlot, Memory.memFreeName, mallocs_memFree]
  split
  · rfl
  · exact mallocs_memFree m _

theorem slot_mem {m : Memory} {i : Nat} (h : i < m.slots.length) : m.slot i ∈ m.slots := by
  rw [Memory.slot, getD_eq_getElem?_getD, getElem?_eq_getElem h]
  exact getElem_mem h

/-- A free slot whose pointers change, with the same blocks in use. -/
theorem harmless_unused {m m' : Memory} {i : Nat} {slot : Slot} (hsound : m.Sound)
    (hfree : m.findFree = some i) (hslots : m'.slots = m.slots.set i slot)
    (hslot : slot = { m.slot i with name := slot.name }) (hlive : m'.live = m.live)
    (hview : m'.view = m.view) : Harmless m m' .enomem := by
  obtain ⟨hunused, hlt⟩ := findFree_unused hfree
  refine ⟨.inl rfl, fun name len => ?_, fun addr hleak =>
    ⟨hlive ▸ hleak.1, fun other hmem hused howns => ?_⟩,
    fun other hmem => ?_⟩
  · rw [Memory.propertyCacheGet, hview]
    rfl
  · obtain ⟨j, hj⟩ := getElem?_of_mem hmem
    have hne : i ≠ j := by
      rintro rfl
      rw [Memory.slot, getD_eq_getElem?_getD, hj] at hunused
      cases hused.symm.trans hunused
    refine hleak.2 other ?_ hused howns
    rw [hslots]
    exact mem_of_getElem? (by rw [getElem?_set_ne hne]; exact hj)
  · rw [hslots] at hmem
    rcases mem_or_eq_of_mem_set hmem with hold | rfl
    · exact hsound other hold
    · have hbefore := hsound _ (slot_mem hlt)
      rw [hslot]
      exact ⟨hbefore.data, hbefore.unused, fun hmarked =>
        absurd (hbefore.marked hmarked).1 (by rw [hunused]; decide)⟩

/-- New data for an entry: the one allocation is for the new buffer, and without it the call still
returns 0. -/
theorem writeItem_null {m : Memory} {i : Nat} {bytes : List UInt8} {alloc : Nat → Option Nat}
    (hnull : NullReturned m (m.writeItem i bytes alloc).1) :
    (m.writeItem i bytes alloc).2 = .ok := by
  unfold Memory.writeItem at hnull ⊢
  dsimp only at hnull ⊢
  split at hnull
  · cases hdata : (m.slot i).data with
    | none =>
      rw [hdata] at hnull
      exact absurd hnull (not_nullReturned rfl)
    | some buffer =>
      rw [hdata] at hnull
      exact absurd hnull (not_nullReturned rfl)
  · rename_i hlen
    rw [if_neg hlen]
    cases alloc 0 <;> rfl

theorem addItem_null {m : Memory} (hsound : m.Sound) {name : List UInt8}
    {data : Option (List UInt8)}
    {alloc : Nat → Option Nat} (hnull : NullReturned m (m.addItem name data alloc).1) :
    Harmless m (m.addItem name data alloc).1 (m.addItem name data alloc).2 := by
  have hcases := getPropertyCache_cases m (data.getD []).length alloc
  generalize hget : m.getPropertyCache (data.getD []).length alloc = r at hcases
  cases hcases with
  | noSlot hfree =>
    rw [addItem_none m name data alloc hget] at hnull
    exact absurd hnull (not_nullReturned rfl)
  | noName i hfree hname =>
    obtain ⟨hunused, -⟩ := findFree_unused hfree
    rw [addItem_none m name data alloc hget]
    exact harmless_unused hsound hfree rfl rfl rfl
      (view_setSlot_same (m.memMalloc none) (view_unused hunused rfl))
  | noData i nameAddr hfree hname hlen hnone =>
    obtain ⟨hunused, hlt⟩ := findFree_unused hfree
    have hempty := (hsound _ (slot_mem hlt)).unused hunused
    rw [addItem_none m name data alloc hget]
    refine harmless_unused hsound hfree rfl ?_ ?_ ?_
    · rw [← hempty]
    · exact erase_cons_head nameAddr m.live
    · rw [view_memFreeName]
      exact view_setSlot_same ((m.memMalloc (some nameAddr)).memMalloc none)
        (view_unused hunused rfl)
  | empty i nameAddr hfree hname hlen =>
    obtain ⟨-, hlt⟩ := findFree_unused hfree
    rw [addItem_eq m name data alloc hget hlt] at hnull
    cases nullReturned_one rfl hnull
  | filled i nameAddr dataAddr hfree hname hlen hok =>
    obtain ⟨-, hlt⟩ := findFree_unused hfree
    rw [addItem_eq m name data alloc hget hlt, NullReturned] at hnull
    dsimp only [Memory.setSlot, Memory.memMalloc] at hnull
    rw [append_assoc, drop_left] at hnull
    simp at hnull

/-- Without memory for the name `get_property_cache2` has marked the free slot already. -/
theorem setGlobalData_null {m : Memory} {name : List UInt8} {data : Option (List UInt8)}
    {alloc : Nat → Option Nat}
    (hnull : NullReturned m (m.propertyCacheSetGlobalData name data alloc).1) :
    ¬ (m.propertyCacheSetGlobalData name data alloc).1.Sound := by
  unfold Memory.propertyCacheSetGlobalData at hnull ⊢
  cases hfind : m.findPropertyCache name with
  | some i =>
    rw [hfind] at hnull
    cases data with
    | none => exact absurd hnull (not_nullReturned (mallocs_putPropertyCache m i))
    | some bytes => exact absurd hnull (not_nullReturned rfl)
  | none =>
    rw [hfind] at hnull
    unfold Memory.getPropertyCache2 at hnull ⊢
    cases hfree : m.findFree with
    | none =>
      rw [hfree] at hnull
      exact absurd hnull (not_nullReturned rfl)
    | some i =>
      obtain ⟨hunused, hlt⟩ := findFree_unused hfree
      rw [hfree] at hnull
      cases halloc : alloc 0 with
      | some nameAddr =>
        rw [halloc] at hnull
        cases nullReturned_one rfl hnull
      | none =>
        intro hsound
        have hmarked := (hsound { m.slot i with globalData := true, name := none }
          (mem_set hlt _)).marked rfl
        cases hmarked.1.symm.trans hunused

/-- A set during which memory runs out is harmless exactly if it is for a new entry and not for
`property_cache_set_global_data`. -/
theorem failed_set_harmless_iff {m : Memory} (hsound : m.Sound) {name : List UInt8}
    {data : Option (List UInt8)} {alloc : Nat → Option Nat}
    (hnull : NullReturned m (m.propertyCacheSet name data alloc).1) :
    Harmless m (m.propertyCacheSet name data alloc).1 (m.propertyCacheSet name data alloc).2 ↔
      m.findPropertyCache name = none ∧ setter name ≠ .globalData := by
  unfold Memory.propertyCacheSet at hnull ⊢
  by_cases hdata : data = some []
  · rw [if_pos hdata] at hnull
    exact absurd hnull (not_nullReturned rfl)
  rw [if_neg hdata] at hnull ⊢
  -- the entry exists: a failed allocation is the one for new data, and 0 is returned
  have hentry : ∀ {r : Memory × SetResult} {i : Nat}, r.2 = .ok →
      (Harmless m r.1 r.2 ↔ some i = none ∧ setter name ≠ .globalData) := by
    intro r i hok
    refine ⟨fun h => ?_, fun h => (by cases h.1)⟩
    rw [hok] at h
    exact absurd h.negative (by decide)
  cases hsetter : setter name with
  | globalData =>
    rw [hsetter] at hnull
    exact ⟨fun h => absurd h.sound (setGlobalData_null hnull), fun h => absurd rfl h.2⟩
  | btKeys =>
    rw [hsetter] at hnull hentry
    unfold Memory.propertyCacheSetBtKeys at hnull ⊢
    cases hfind : m.findPropertyCache name with
    | none =>
      rw [hfind] at hnull
      exact iff_of_true (addItem_null hsound hnull) ⟨rfl, by decide⟩
    | some i =>
      rw [hfind] at hnull
      cases data with
      | none => exact absurd hnull (not_nullReturned (mallocs_putPropertyCache m i))
      | some bytes => exact hentry (writeItem_null hnull)
  | set2 =>
    rw [hsetter] at hnull hentry
    unfold Memory.propertyCacheSet2 at hnull ⊢
    cases hfind : m.findPropertyCache name with
    | none =>
      rw [hfind] at hnull
      exact iff_of_true (addItem_null hsound hnull) ⟨rfl, by decide⟩
    | some i =>
      rw [hfind] at hnull
      cases data with
      | none =>
        refine absurd hnull (not_nullReturned ?_)
        dsimp only
        split
        · exact mallocs_memFree m _
        · rfl
      | some bytes => exact hentry (writeItem_null hnull)

/-- The cache behind a first set of the name `X`. -/
def oneEntry : Memory :=
  ((Memory.propertyCacheInit (fun _ => none) (fun _ => none)).propertyCacheSet [0x58] (some [1])
    fun k => some (100 + k)).1

/-- New data of another length, without memory for them. -/
def failedRewrite : Memory × SetResult :=
    oneEntry.propertyCacheSet [0x58] (some [1, 2]) fun _ => none

/-- A first set of `BT_KEYS`, without memory for the name. -/
def failedKeys : Memory × SetResult := oneEntry.propertyCacheSet cfgBtKeys (some [1]) fun _ => none

/-- The failed rewrite returns 0, the value is gone and its block is lost. The failed set of
`BT_KEYS` leaves a free slot that is marked. -/
theorem failed_rewrite_loses_value :
    (NullReturned oneEntry failedRewrite.1 ∧ failedRewrite.2 = .ok ∧
      oneEntry.propertyCacheGet [0x58] 4 = .ok (1, [1]) ∧
      failedRewrite.1.propertyCacheGet [0x58] 4 = .ok (1, []) ∧
      ¬ oneEntry.Leaked 101 ∧ failedRewrite.1.Leaked 101 ∧
      (failedRewrite.1.slot 0).data = none ∧ (failedRewrite.1.slot 0).dataLen = 1) ∧
    (NullReturned oneEntry failedKeys.1 ∧ (failedKeys.1.slot 1).usedFlag = false ∧
      (failedKeys.1.slot 1).globalData = true) :=
  ⟨⟨by decide, rfl, rfl, rfl, by decide, by decide, rfl, rfl⟩, by decide, rfl, rfl⟩

theorem sound_oneEntry : oneEntry.Sound := by
  have hslots : ∀ slot ∈ oneEntry.slots, (slot.data = none ↔ slot.dataLen = 0) ∧
      (slot.usedFlag = false → slot.data = none) ∧ slot.globalData = false := by decide
  intro slot hmem
  obtain ⟨hdata, hunused, hmark⟩ := hslots slot hmem
  exact ⟨hdata, hunused, fun hmarked => absurd (hmark.symm.trans hmarked) (by decide)⟩

/-- A second entry, with memory for its name and none for the data. -/
theorem failed_set_harmless_second :
    let r := oneEntry.propertyCacheSet [0x59] (some [1]) (fun k => if k = 0 then some 102 else none)
    NullReturned oneEntry r.1 ∧ Harmless oneEntry r.1 r.2 :=
  ⟨by decide, (failed_set_harmless_iff sound_oneEntry (by decide)).mpr ⟨by decide, by decide⟩⟩

end SpeakerFirmware.Property
