/-
# The property cache

`property_cache.c` keeps properties in a table of seventy slots in front of the NVRAM
store. A set writes the cache only; a flush writes entries to NVRAM and drops them from
the cache. A value of NULL stands for a deletion. Which of three set functions is called
depends on how the name starts, and they treat a deletion differently.

The NVRAM store below is the map the driver implements (`Nvram.Stores`); a write to it
may fail without effect, and so may each allocation.
-/

import SpeakerFirmware.Lib.SlotTable
import SpeakerFirmware.Nvram.KeyValue

namespace SpeakerFirmware.Property

open Nvram SlotTable
open List

/-! ## State -/

def maxNvramItemCacheNum : Nat := 70

/-- `cahce_item_data`. The data of a property set through `property_cache_set_global_data` belong
to the caller, who keeps them as they are. -/
structure CacheItem where
  name : List UInt8
  data : Option (List UInt8)
  dataLen : Nat
  usedFlag : Bool
  flushReq : Bool
  globalData : Bool
  deriving DecidableEq, Repr

/-- A slot as `property_cache_init` and `put_property_cache` leave it. -/
def freeItem : CacheItem := ⟨[], none, 0, false, false, false⟩

/-- The name of a slot in use. -/
def CacheItem.key (item : CacheItem) : Option (List UInt8) :=
  if item.usedFlag then some item.name else none

/-- The cache, and what the user region and the factory regions hold. -/
structure Store where
  cache : List CacheItem
  user : List UInt8 → Option (List UInt8)
  factory : List UInt8 → Option (List UInt8)

def propertyCacheInit (user factory : List UInt8 → Option (List UInt8)) : Store :=
  ⟨List.replicate maxNvramItemCacheNum freeItem, user, factory⟩

/-- What a set function returns. `fault` is a `memcpy` to NULL. -/
inductive SetResult
  | ok | einval | enomem | fault
  deriving DecidableEq, Repr

/-! ## NVRAM -/

/-- `nvram_config_set`: whether it succeeds on valid arguments is up to the store. -/
def nvramConfigSet (user : List UInt8 → Option (List UInt8)) (name : List UInt8)
    (data : Option (List UInt8)) (len : Nat) (succeeds : Bool) :
    (List UInt8 → Option (List UInt8)) × Bool :=
  if (data = none ∧ len ≠ 0) ∨ nvramMaxDataSize < len ∨ nvramMaxNameSize < name.length + 1 ∨
      succeeds = false then (user, false)
  else (Function.update user name (storedValue ((data.getD []).take len)), true)

variable (s : Store)

/-- `nvram_config_get`: the user region comes before the factory regions. -/
def nvramConfigGet (name : List UInt8) (maxLen : Nat) : Except Errno (List UInt8) :=
  if maxLen = 0 then .error .einval
  else match s.user name with
    | some value => readBack (some value) maxLen
    | none => readBack (s.factory name) maxLen

/-! ## Slots -/

/-- `find_property_cache`: the index of the slot. -/
def findPropertyCache (name : List UInt8) : Option Nat :=
  s.cache.findIdx? fun item => item.key = some name

/-- The first slot that is not in use. -/
def findFree : Option Nat :=
  s.cache.findIdx? fun item => item.usedFlag = false

/-- `get_property_cache`: the slot for a new entry. `alloc` says which of the allocations of a
call succeed. What it writes to the slot is written again by its callers. -/
def getPropertyCache (len : Nat) (alloc : Nat → Bool) : Option Nat :=
  match findFree s with
  | none => none
  | some i => if alloc 0 ∧ (len = 0 ∨ alloc 1) then some i else none

def Store.setItem (i : Nat) (item : CacheItem) : Store :=
  { s with cache := s.cache.set i item }

def Store.item (i : Nat) : CacheItem :=
  s.cache.getD i freeItem

/-- A new entry as the set functions fill it in; the length has ten bits. -/
def newEntry (slot : CacheItem) (name : List UInt8) (data : Option (List UInt8)) : CacheItem :=
  { slot with name, data, dataLen := (data.getD []).length % 1024, usedFlag := true }

/-! ## Set -/

/-- New data for an entry of `property_cache_set_bt_keys` and `property_cache_set2`: into the old
buffer if the length is the same, else into a new one. -/
def writeItem (item : CacheItem) (data : List UInt8) (alloc : Nat → Bool) : CacheItem × SetResult :=
  if item.dataLen = data.length then
    match item.data with
    | some old => ({ item with data := some (data ++ old.drop data.length) }, .ok)
    | none => (item, .fault)
  else if alloc 0 then ({ item with data := some data, dataLen := data.length % 1024 }, .ok)
  else ({ item with data := none }, .ok)

section

variable (s : Store) (name : List UInt8) (data : Option (List UInt8)) (alloc : Nat → Bool)

/-- A name that is not in the cache yet. -/
def addItem :
    Store × SetResult :=
  match getPropertyCache s (data.getD []).length alloc with
  | none => (s, .enomem)
  | some i => (s.setItem i (newEntry (s.item i) name data), .ok)

def propertyCacheSetGlobalData : Store × SetResult :=
  match findPropertyCache s name with
  | some i =>
    match data with
    | none => (s.setItem i freeItem, .ok)
    | some bytes =>
      (s.setItem i { s.item i with data := some bytes, dataLen := bytes.length % 1024 }, .ok)
  | none =>
    -- `get_property_cache2` marks the slot even if there is no memory for the name
    match findFree s with
    | none => (s, .enomem)
    | some i =>
      let slot := { s.item i with globalData := true }
      if alloc 0 then (s.setItem i (newEntry slot name data), .ok)
      else (s.setItem i slot, .enomem)

def propertyCacheSetBtKeys : Store × SetResult :=
  match findPropertyCache s name with
  | some i =>
    match data with
    | none => (s.setItem i freeItem, .ok)
    | some bytes =>
      let r := writeItem (s.item i) bytes alloc
      (s.setItem i r.1, r.2)
  | none => addItem s name data alloc

def propertyCacheSet2 : Store × SetResult :=
  match findPropertyCache s name with
  | some i =>
    match data with
    | none =>
      if (s.item i).data.isSome then (s.setItem i { s.item i with data := none, dataLen := 0 }, .ok)
      else (s, .ok)
    | some bytes =>
      let r := writeItem (s.item i) bytes alloc
      (s.setItem i r.1, r.2)
  | none => addItem s name data alloc

/-- `CFG_BT_KEYS`, `CFG_BT_CCC`, `CFG_BT_CF` and `CFG_BT_SC`: the characters of "BT_KEYS" and so
on. -/
def cfgBtKeys : List UInt8 := [0x42, 0x54, 0x5f, 0x4b, 0x45, 0x59, 0x53]
def cfgBtCcc : List UInt8 := [0x42, 0x54, 0x5f, 0x43, 0x43, 0x43]
def cfgBtCf : List UInt8 := [0x42, 0x54, 0x5f, 0x43, 0x46]
def cfgBtSc : List UInt8 := [0x42, 0x54, 0x5f, 0x53, 0x43]

/-- `strncmp(a, b, n) == 0` for strings that end with a zero byte. -/
def strncmpEq (a b : List UInt8) (n : Nat) : Bool :=
  (a ++ [0]).take n = (b ++ [0]).take n

/-- The set function that is responsible for a name. -/
inductive Setter
  | globalData | btKeys | set2
  deriving DecidableEq, Repr

/-- The choice of `property_cache_set`. -/
def setter (name : List UInt8) : Setter :=
  if name.getD 0 0 ≠ 0x42 ∨ name.getD 1 0 ≠ 0x54 then .set2
  else if strncmpEq name cfgBtKeys 7 then .globalData
  else if strncmpEq name cfgBtCcc 6 ∨ strncmpEq name cfgBtCf 6 ∨
    strncmpEq name cfgBtSc 6 then .btKeys
  else .set2

/-- `property_cache_set`; `none` is a value of NULL. -/
def propertyCacheSet : Store × SetResult :=
  if data = some [] then (s, .einval)
  else match setter name with
    | .globalData => propertyCacheSetGlobalData s name data alloc
    | .btKeys => propertyCacheSetBtKeys s name data alloc
    | .set2 => propertyCacheSet2 s name data alloc

end

/-! ## Get -/

/-- `property_cache_get`: the length it returns and the bytes it copies. -/
def propertyCacheGet (s : Store) (name : List UInt8) (len : Nat) :
    Except Errno (Nat × List UInt8) :=
  match findPropertyCache s name with
  | some i =>
    let item := s.item i
    let readLen := if len < item.dataLen then len else item.dataLen
    .ok (readLen, ((item.data.map (·.take readLen)).getD []))
  | none => (nvramConfigGet s name len).map fun bytes => (bytes.length, bytes)

/-! ## Flush -/

/-- `!name || memcmp(item->name, name, strlen(name)) == 0`. -/
def selects (name : Option (List UInt8)) (item : CacheItem) : Bool :=
  match name with
  | none => true
  | some bytes => bytes.isPrefixOf item.name

/-- Writing one slot to NVRAM, if it is selected. An entry that was written is dropped; `keep` is
what becomes of one that was not. -/
def flushSlot (selected : CacheItem → Bool) (keep : CacheItem → CacheItem) (succeeds : Nat → Bool)
    (s : Store) (i : Nat) : Store :=
  let item := s.item i
  if item.usedFlag && selected item then
    let r := nvramConfigSet s.user item.name item.data item.dataLen (succeeds i)
    if r.2 then { s with user := r.1 }.setItem i freeItem else s.setItem i (keep item)
  else s

def propertyCacheFlush (s : Store) (name : Option (List UInt8)) (succeeds : Nat → Bool) : Store :=
  (List.range maxNvramItemCacheNum).foldl (flushSlot (selects name) id succeeds) s

/-- One slot of `property_cache_flush_req`. -/
def flushReqSlot (name : Option (List UInt8)) (s : Store) (i : Nat) : Store :=
  let item := s.item i
  if item.usedFlag && selects name item then s.setItem i { item with flushReq := true } else s

def propertyCacheFlushReq (s : Store) (name : Option (List UInt8)) : Store :=
  (List.range maxNvramItemCacheNum).foldl (flushReqSlot name) s

def propertyCacheFlushReqDeal (s : Store) (succeeds : Nat → Bool) : Store :=
  (List.range maxNvramItemCacheNum).foldl
    (flushSlot CacheItem.flushReq (fun item => { item with flushReq := false }) succeeds) s

/-! ## Calls -/

inductive Call
  | set (name : List UInt8) (data : Option (List UInt8)) (alloc : Nat → Bool)
  | flush (name : Option (List UInt8)) (succeeds : Nat → Bool)
  | flushReq (name : Option (List UInt8))
  | flushReqDeal (succeeds : Nat → Bool)

/-- A call, with what it returns. -/
def Store.call (s : Store) : Call → Store × SetResult
  | .set name data alloc => propertyCacheSet s name data alloc
  | .flush name succeeds => (propertyCacheFlush s name succeeds, .ok)
  | .flushReq name => (propertyCacheFlushReq s name, .ok)
  | .flushReqDeal succeeds => (propertyCacheFlushReqDeal s succeeds, .ok)

/-! ## The cache as a map -/

/-- The entry of a name. -/
def Store.cached (s : Store) (name : List UInt8) : Option CacheItem :=
  lookup CacheItem.key s.cache name

theorem item_of_getElem? {s : Store} {i : Nat} {item : CacheItem} (h : s.cache[i]? = some item) :
    s.item i = item := by
  rw [Store.item, getD_eq_getElem?_getD, h]
  rfl

theorem key_freeItem : freeItem.key = none := rfl

section

variable {s : Store}

theorem findPropertyCache_none {name : List UInt8} (h : findPropertyCache s name = none) :
    s.cached name = none := by
  rw [Store.cached, lookup_eq_none]
  intro i item hi hkey
  have hall := findIdx?_eq_none_iff.mp h item (mem_of_getElem? hi)
  rw [hkey, decide_eq_true rfl] at hall
  cases hall

theorem findPropertyCache_some (hdistinct : Distinct CacheItem.key s.cache) {name : List UInt8}
    {i : Nat} (h : findPropertyCache s name = some i) :
    s.cache[i]? = some (s.item i) ∧ (s.item i).key = some name ∧
      s.cached name = some (s.item i) := by
  obtain ⟨hlt, hkey, -⟩ := findIdx?_eq_some_iff_getElem.mp h
  have hi : s.cache[i]? = some (s.cache[i]) := getElem?_eq_getElem hlt
  rw [item_of_getElem? hi]
  exact ⟨hi, of_decide_eq_true hkey, hdistinct.lookup_eq_some.mpr ⟨i, hi, of_decide_eq_true hkey⟩⟩

theorem findFree_some {i : Nat} (h : findFree s = some i) :
    s.cache[i]? = some (s.item i) ∧ (s.item i).key = none := by
  obtain ⟨hlt, hfree, -⟩ := findIdx?_eq_some_iff_getElem.mp h
  have hi : s.cache[i]? = some (s.cache[i]) := getElem?_eq_getElem hlt
  rw [item_of_getElem? hi]
  exact ⟨hi, if_neg (by rw [of_decide_eq_true hfree]; decide)⟩

/-- Writing the slot of a name, or a free slot for a name that has none, concerns no other
name. -/
theorem setItem_cached (hdistinct : Distinct CacheItem.key s.cache) {i : Nat} {name : List UInt8}
    {old new : CacheItem} (hi : s.cache[i]? = some old)
    (hold : old.key = some name ∨ (old.key = none ∧ s.cached name = none))
    (hnew : new.key = some name ∨ new.key = none) :
    Distinct CacheItem.key (s.setItem i new).cache ∧
      (s.setItem i new).cached name = (if new.key = some name then some new else none) ∧
      ∀ other, other ≠ name → (s.setItem i new).cached other = s.cached other := by
  have hvacant : Vacant CacheItem.key s.cache i new := by
    intro k hk j slot hj hslot
    have hname : k = name := by
      rcases hnew with hkey | hkey
      · exact Option.some.inj (hk.symm.trans hkey)
      · cases hk.symm.trans hkey
    subst hname
    rcases hold with hkey | ⟨-, hnone⟩
    · exact hdistinct j i slot old k hj hi hslot hkey
    · exact absurd hslot (lookup_eq_none.mp hnone j slot hj)
  have hset := hdistinct.lookup_set hi hvacant
  refine ⟨hdistinct.set hvacant, ?_, fun other hne => ?_⟩
  · rw [Store.cached, Store.setItem, hset name]
    split
    · rfl
    · rcases hold with hkey | ⟨hkey, hnone⟩
      · rw [if_pos hkey]
      · rw [if_neg (by rw [hkey]; simp)]
        exact hnone
  · have hneNew : ¬ new.key = some other := by
      rintro hkey
      rcases hnew with hk | hk
      · exact hne (Option.some.inj (hkey.symm.trans hk))
      · cases hkey.symm.trans hk
    have hneOld : ¬ old.key = some other := by
      rintro hkey
      rcases hold with hk | ⟨hk, -⟩
      · exact hne (Option.some.inj (hkey.symm.trans hk))
      · cases hkey.symm.trans hk
    rw [Store.cached, Store.setItem, hset other, if_neg hneNew, if_neg hneOld]
    rfl

end

/-! ## What a flush does -/

/-- One slot of a flush: nothing, or the entry is written and dropped, or only its request flag
changes. -/
inductive FlushStep (s : Store) : Store → Prop
  | refl : FlushStep s s
  | written (i : Nat) (item : CacheItem) (hi : s.cache[i]? = some item)
      (hused : item.usedFlag = true)
      (hdata : item.data = none → item.dataLen = 0) :
      FlushStep s ({ s with
        user := Function.update s.user item.name
          (storedValue ((item.data.getD []).take item.dataLen)) }.setItem
          i freeItem)
  | kept (i : Nat) (item : CacheItem) (flushReq : Bool) (hi : s.cache[i]? = some item)
      (hused : item.usedFlag = true) : FlushStep s (s.setItem i { item with flushReq })

theorem getElem?_of_used {s : Store} {i : Nat} (h : (s.item i).usedFlag = true) :
    s.cache[i]? = some (s.item i) := by
  cases hi : s.cache[i]? with
  | some item => rw [item_of_getElem? hi]
  | none =>
    rw [Store.item, getD_eq_getElem?_getD, hi] at h
    cases h

theorem nvramConfigSet_ok {user : List UInt8 → Option (List UInt8)} {name : List UInt8}
    {data : Option (List UInt8)} {len : Nat} {succeeds : Bool}
    (h : (nvramConfigSet user name data len succeeds).2 = true) :
    (data = none → len = 0) ∧ (nvramConfigSet user name data len succeeds).1 =
      Function.update user name (storedValue ((data.getD []).take len)) := by
  unfold nvramConfigSet at h ⊢
  split at h
  · cases h
  · rename_i hvalid
    rw [if_neg hvalid]
    refine ⟨fun hdata => ?_, rfl⟩
    by_contra hlen
    exact hvalid (.inl ⟨hdata, hlen⟩)

/-- With `keep` changing at most the request flag. -/
theorem flushSlot_step (selected : CacheItem → Bool) {keep : CacheItem → CacheItem}
    (hkeep : ∀ item, ∃ flushReq, keep item = { item with flushReq }) (succeeds : Nat → Bool)
    (s : Store) (i : Nat) : FlushStep s (flushSlot selected keep succeeds s i) := by
  unfold flushSlot
  dsimp only
  split
  · rename_i hselected
    have hused := (Bool.and_eq_true_iff.mp hselected).1
    have hi := getElem?_of_used hused
    split
    · rename_i hok
      obtain ⟨hdata, huser⟩ := nvramConfigSet_ok hok
      rw [huser]
      exact .written i (s.item i) hi hused hdata
    · obtain ⟨flushReq, heq⟩ := hkeep (s.item i)
      rw [heq]
      exact .kept i (s.item i) flushReq hi hused
  · exact .refl

theorem flushReqSlot_step (name : Option (List UInt8)) (s : Store) (i : Nat) :
    FlushStep s (flushReqSlot name s i) := by
  unfold flushReqSlot
  dsimp only
  split
  · rename_i hselected
    have hused := (Bool.and_eq_true_iff.mp hselected).1
    exact .kept i (s.item i) true (getElem?_of_used hused) hused
  · exact .refl

section

variable {P : Store → Prop} (hP : ∀ s s', FlushStep s s' → P s → P s')
include hP

/-- What every slot of a flush keeps, the whole flush keeps. -/
theorem foldl_flushStep
    (step : Store → Nat → Store) (hstep : ∀ s i, FlushStep s (step s i)) (slots : List Nat)
    {s : Store} (h : P s) : P (slots.foldl step s) :=
  foldlRecOn slots step h fun s h i _ => hP s _ (hstep s i) h

theorem call_flush {s : Store} (h : P s)
    {c : Call} (hc : ∀ name data alloc, c ≠ .set name data alloc) : P (s.call c).1 := by
  cases c with
  | set name data alloc => exact absurd rfl (hc name data alloc)
  | flush name succeeds =>
    simp only [Store.call, propertyCacheFlush]
    exact foldl_flushStep hP (flushSlot (selects name) id succeeds)
      (flushSlot_step _ (fun item => ⟨item.flushReq, rfl⟩) succeeds)
        (List.range maxNvramItemCacheNum) h
  | flushReq name =>
    simp only [Store.call, propertyCacheFlushReq]
    exact foldl_flushStep hP (flushReqSlot name) (flushReqSlot_step name)
      (List.range maxNvramItemCacheNum) h
  | flushReqDeal succeeds =>
    simp only [Store.call, propertyCacheFlushReqDeal]
    exact foldl_flushStep hP
      (flushSlot CacheItem.flushReq (fun item => { item with flushReq := false }) succeeds)
      (flushSlot_step _ (fun _ => ⟨false, rfl⟩) succeeds) (List.range maxNvramItemCacheNum) h

end

/-! ## What a set does -/

/-- What a set leaves alone: NVRAM, and the entries of other names. -/
structure Frame (s s' : Store) (name : List UInt8) : Prop where
  distinct : Distinct CacheItem.key s'.cache
  user : s'.user = s.user
  factory : s'.factory = s.factory
  others : ∀ other, other ≠ name → s'.cached other = s.cached other

theorem Frame.refl {s : Store} (hdistinct : Distinct CacheItem.key s.cache) (name : List UInt8) :
    Frame s s name :=
  ⟨hdistinct, rfl, rfl, fun _ _ => rfl⟩

/-- What a set does to the entry of its name. -/
inductive Effect (s s' : Store) (name : List UInt8) (alloc : Nat → Bool) :
    Option (List UInt8) → SetResult → Prop
  /-- There is no room or no memory for a new entry. -/
  | failed (data : Option (List UInt8)) (hold : s.cached name = none)
      (hnew : s'.cached name = none) :
      Effect s s' name alloc data .enomem
  /-- A new entry. -/
  | added (data : Option (List UInt8)) (slot : CacheItem) (hold : s.cached name = none)
      (hnew : s'.cached name = some (newEntry slot name data)) : Effect s s' name alloc data .ok
  /-- New data for the entry, in the old buffer or in a new one. -/
  | rewritten (bytes : List UInt8) (item item' : CacheItem) (hold : s.cached name = some item)
      (hnew : s'.cached name = some item')
      (hdata : (item.dataLen = bytes.length ∧ item'.dataLen = item.dataLen ∧
          ∃ old, item.data = some old ∧ item'.data = some (bytes ++ old.drop bytes.length)) ∨
        (item'.dataLen = bytes.length % 1024 ∧ item'.data = some bytes)) :
      Effect s s' name alloc (some bytes) .ok
  /-- No memory for a new buffer. -/
  | lost (bytes : List UInt8) (item item' : CacheItem) (halloc : alloc 0 = false)
      (hold : s.cached name = some item) (hnew : s'.cached name = some item')
      (hdata : item'.data = none) : Effect s s' name alloc (some bytes) .ok
  | fault (bytes : List UInt8) (item : CacheItem) (hold : s.cached name = some item)
      (hdata : item.data = none) (hlen : item.dataLen = bytes.length)
        (hsame : s'.cached name = s.cached name) :
      Effect s s' name alloc (some bytes) .fault
  /-- A deletion drops the entry. -/
  | dropped (item : CacheItem) (hsetter : setter name ≠ .set2) (hold : s.cached name = some item)
      (hnew : s'.cached name = none) : Effect s s' name alloc none .ok
  /-- A deletion empties the entry. -/
  | emptied (item item' : CacheItem) (hsetter : setter name = .set2)
      (hold : s.cached name = some item)
      (hnew : s'.cached name = some item') (hdata : item'.data = none) :
        Effect s s' name alloc none .ok
  | invalid (hsame : s'.cached name = s.cached name) : Effect s s' name alloc (some []) .einval

theorem key_newEntry (slot : CacheItem) (name : List UInt8) (data : Option (List UInt8)) :
    (newEntry slot name data).key = some name := rfl

theorem key_of_used {item item' : CacheItem} (hname : item'.name = item.name)
    (hused : item'.usedFlag = item.usedFlag) : item'.key = item.key := by
  rw [CacheItem.key, CacheItem.key, hname, hused]

section

variable {s : Store} (hdistinct : Distinct CacheItem.key s.cache) {name : List UInt8}

include hdistinct

/-- Writing the slot of the name. -/
theorem setItem_frame {i : Nat} {old : CacheItem} (hi : s.cache[i]? = some old) (new : CacheItem)
    (hold : old.key = some name ∨ (old.key = none ∧ s.cached name = none))
    (hnew : new.key = some name ∨ new.key = none) :
    Frame s (s.setItem i new) name ∧
      (s.setItem i new).cached name = (if new.key = some name then some new else none) := by
  obtain ⟨hdistinct', hname, hothers⟩ := setItem_cached hdistinct hi hold hnew
  exact ⟨⟨hdistinct', rfl, rfl, hothers⟩, hname⟩

theorem addItem_spec (hnone : s.cached name = none) (data : Option (List UInt8))
    (alloc : Nat → Bool) :
    Frame s (addItem s name data alloc).1 name ∧
      Effect s (addItem s name data alloc).1 name alloc data (addItem s name data alloc).2 := by
  unfold addItem getPropertyCache
  cases hfree : findFree s with
  | none => exact ⟨.refl hdistinct name, .failed data hnone hnone⟩
  | some i =>
    obtain ⟨hi, hkey⟩ := findFree_some hfree
    dsimp only
    by_cases halloc : alloc 0 ∧ ((data.getD []).length = 0 ∨ alloc 1)
    · rw [if_pos halloc]
      obtain ⟨hframe, hcached⟩ := setItem_frame hdistinct hi (newEntry (s.item i) name data)
        (.inr ⟨hkey, hnone⟩) (.inl (key_newEntry _ _ _))
      rw [if_pos (key_newEntry _ _ _)] at hcached
      exact ⟨hframe, .added data _ hnone hcached⟩
    · rw [if_neg halloc]
      exact ⟨.refl hdistinct name, .failed data hnone hnone⟩

section

variable {i : Nat} (hfind : findPropertyCache s name = some i)
include hfind

/-- Other data for an entry. -/
theorem rewrite_frame (new : CacheItem) (hname : new.name = (s.item i).name)
    (hused : new.usedFlag = (s.item i).usedFlag) :
    Frame s (s.setItem i new) name ∧ (s.setItem i new).cached name = some new := by
  obtain ⟨hi, hkey, -⟩ := findPropertyCache_some hdistinct hfind
  have hnew : new.key = some name := (key_of_used hname hused).trans hkey
  obtain ⟨hframe, hcached⟩ := setItem_frame hdistinct hi new (.inl hkey) (.inl hnew)
  rw [if_pos hnew] at hcached
  exact ⟨hframe, hcached⟩

/-- New data for an entry. -/
theorem writeItem_spec (bytes : List UInt8) (alloc : Nat → Bool) :
    Frame s (s.setItem i (writeItem (s.item i) bytes alloc).1) name ∧
      Effect s (s.setItem i (writeItem (s.item i) bytes alloc).1) name alloc (some bytes)
        (writeItem (s.item i) bytes alloc).2 := by
  obtain ⟨-, -, hcached⟩ := findPropertyCache_some hdistinct hfind
  have hwrite := rewrite_frame hdistinct hfind
  unfold writeItem
  split
  · rename_i hlen
    cases hdata : (s.item i).data with
    | some old =>
      obtain ⟨hframe, hnew⟩ :=
        hwrite { s.item i with data := some (bytes ++ old.drop bytes.length) } rfl rfl
      exact ⟨hframe, .rewritten bytes _ _ hcached hnew (.inl ⟨hlen, rfl, old, hdata, rfl⟩)⟩
    | none =>
      obtain ⟨hframe, hnew⟩ := hwrite (s.item i) rfl rfl
      exact ⟨hframe, .fault bytes _ hcached hdata hlen (hnew.trans hcached.symm)⟩
  · split
    · obtain ⟨hframe, hnew⟩ := hwrite
        { s.item i with data := some bytes, dataLen := bytes.length % 1024 } rfl rfl
      exact ⟨hframe, .rewritten bytes _ _ hcached hnew (.inr ⟨rfl, rfl⟩)⟩
    · rename_i halloc
      obtain ⟨hframe, hnew⟩ := hwrite { s.item i with data := none } rfl rfl
      exact ⟨hframe, .lost bytes _ _ (Bool.not_eq_true _ ▸ halloc) hcached hnew rfl⟩

/-- A deletion that drops the entry. -/
theorem drop_spec (hsetter : setter name ≠ .set2) (alloc : Nat → Bool) :
    Frame s (s.setItem i freeItem) name ∧ Effect s (s.setItem i freeItem) name alloc none .ok := by
  obtain ⟨hi, hkey, hcached⟩ := findPropertyCache_some hdistinct hfind
  obtain ⟨hframe, hnew⟩ := setItem_frame hdistinct hi freeItem (.inl hkey) (.inr key_freeItem)
  exact ⟨hframe, .dropped _ hsetter hcached hnew⟩

end

section

variable (hsetter : setter name ≠ .set2) (data : Option (List UInt8)) (alloc : Nat → Bool)
include hsetter data alloc

theorem setGlobalData_spec : Frame s (propertyCacheSetGlobalData s name data alloc).1 name ∧
      Effect s (propertyCacheSetGlobalData s name data alloc).1 name alloc data
        (propertyCacheSetGlobalData s name data alloc).2 := by
  unfold propertyCacheSetGlobalData
  cases hfind : findPropertyCache s name with
  | some i =>
    cases data with
    | none => exact drop_spec hdistinct hfind hsetter alloc
    | some bytes =>
      obtain ⟨-, -, hcached⟩ := findPropertyCache_some hdistinct hfind
      obtain ⟨hframe, hnew⟩ := rewrite_frame hdistinct hfind
        { s.item i with data := some bytes, dataLen := bytes.length % 1024 } rfl rfl
      exact ⟨hframe, .rewritten bytes _ _ hcached hnew (.inr ⟨rfl, rfl⟩)⟩
  | none =>
    have hnone := findPropertyCache_none hfind
    dsimp only
    cases hfree : findFree s with
    | none => exact ⟨.refl hdistinct name, .failed data hnone hnone⟩
    | some i =>
      obtain ⟨hi, hkey⟩ := findFree_some hfree
      dsimp only
      split
      · obtain ⟨hframe, hcached⟩ := setItem_frame hdistinct hi
          (newEntry { s.item i with globalData := true } name data) (.inr ⟨hkey, hnone⟩)
          (.inl (key_newEntry _ _ _))
        rw [if_pos (key_newEntry _ _ _)] at hcached
        exact ⟨hframe, .added data _ hnone hcached⟩
      · have hnew : ({ s.item i with globalData := true } : CacheItem).key = none := hkey
        obtain ⟨hframe, hcached⟩ := setItem_frame hdistinct hi _ (.inr ⟨hkey, hnone⟩) (.inr hnew)
        rw [if_neg (by rw [hnew]; exact nofun)] at hcached
        exact ⟨hframe, .failed data hnone hcached⟩

theorem setBtKeys_spec : Frame s (propertyCacheSetBtKeys s name data alloc).1 name ∧
      Effect s (propertyCacheSetBtKeys s name data alloc).1 name alloc data
        (propertyCacheSetBtKeys s name data alloc).2 := by
  unfold propertyCacheSetBtKeys
  cases hfind : findPropertyCache s name with
  | some i =>
    cases data with
    | none => exact drop_spec hdistinct hfind hsetter alloc
    | some bytes => exact writeItem_spec hdistinct hfind bytes alloc
  | none => exact addItem_spec hdistinct (findPropertyCache_none hfind) data alloc

end

theorem set2_spec (hsetter : setter name = .set2) (data : Option (List UInt8))
    (alloc : Nat → Bool) :
    Frame s (propertyCacheSet2 s name data alloc).1 name ∧
      Effect s (propertyCacheSet2 s name data alloc).1 name alloc data
        (propertyCacheSet2 s name data alloc).2 := by
  unfold propertyCacheSet2
  cases hfind : findPropertyCache s name with
  | some i =>
    cases data with
    | none =>
      obtain ⟨-, -, hcached⟩ := findPropertyCache_some hdistinct hfind
      dsimp only
      split
      · obtain ⟨hframe, hnew⟩ :=
          rewrite_frame hdistinct hfind { s.item i with data := none, dataLen := 0 } rfl rfl
        exact ⟨hframe, .emptied _ _ hsetter hcached hnew rfl⟩
      · rename_i hdata
        exact ⟨.refl hdistinct name,
          .emptied _ _ hsetter hcached hcached (Option.not_isSome_iff_eq_none.mp hdata)⟩
    | some bytes => exact writeItem_spec hdistinct hfind bytes alloc
  | none => exact addItem_spec hdistinct (findPropertyCache_none hfind) data alloc

/-- What `property_cache_set` does. -/
theorem propertyCacheSet_spec (data : Option (List UInt8)) (alloc : Nat → Bool) :
    Frame s (propertyCacheSet s name data alloc).1 name ∧
      Effect s (propertyCacheSet s name data alloc).1 name alloc data
        (propertyCacheSet s name data alloc).2 := by
  unfold propertyCacheSet
  split
  · rename_i hempty
    rw [hempty]
    exact ⟨.refl hdistinct name, .invalid rfl⟩
  · cases hsetter : setter name with
    | globalData => exact setGlobalData_spec hdistinct (by rw [hsetter]; decide) data alloc
    | btKeys => exact setBtKeys_spec hdistinct (by rw [hsetter]; decide) data alloc
    | set2 => exact set2_spec hdistinct hsetter data alloc

end

/-- What one slot of a flush does to the entry of a name: written, its value moves to NVRAM. -/
theorem FlushStep.spec {s s' : Store} (h : FlushStep s s')
    (hdistinct : Distinct CacheItem.key s.cache) :
    s' = s ∨ ∃ name item, s.cached name = some item ∧ Distinct CacheItem.key s'.cache ∧
      s'.factory = s.factory ∧ (∀ other, other ≠ name → s'.cached other = s.cached other) ∧
      (((item.data = none → item.dataLen = 0) ∧ s'.cached name = none ∧
          s'.user = Function.update s.user name
            (storedValue ((item.data.getD []).take item.dataLen))) ∨
        (s'.user = s.user ∧ ∃ flushReq, s'.cached name = some { item with flushReq })) := by
  cases h with
  | refl => exact .inl rfl
  | written i item hi hused hdata =>
    have hkey : item.key = some item.name := if_pos hused
    obtain ⟨hframe, hcached⟩ := setItem_frame hdistinct hi freeItem (.inl hkey) (.inr key_freeItem)
    exact .inr ⟨item.name, item, hdistinct.lookup_eq_some.mpr ⟨i, hi, hkey⟩, hframe.distinct, rfl,
      hframe.others, .inl ⟨hdata, hcached, rfl⟩⟩
  | kept i item flushReq hi hused =>
    have hkey : item.key = some item.name := if_pos hused
    have hnew : ({ item with flushReq } : CacheItem).key = some item.name := hkey
    obtain ⟨hframe, hcached⟩ := setItem_frame hdistinct hi _ (.inl hkey) (.inl hnew)
    rw [if_pos hnew] at hcached
    exact .inr ⟨item.name, item, hdistinct.lookup_eq_some.mpr ⟨i, hi, hkey⟩, hframe.distinct, rfl,
      hframe.others, .inr ⟨rfl, flushReq, hcached⟩⟩

theorem distinct_init (user factory : List UInt8 → Option (List UInt8)) :
    Distinct CacheItem.key (propertyCacheInit user factory).cache := by
  intro i j a b k hi _ ha _
  have hfree := eq_of_mem_replicate (mem_of_getElem? hi)
  rw [hfree] at ha
  cases ha

theorem distinct_call {s : Store} (hdistinct : Distinct CacheItem.key s.cache) (c : Call) :
    Distinct CacheItem.key (s.call c).1.cache := by
  cases c with
  | set name data alloc => exact (propertyCacheSet_spec hdistinct data alloc).1.distinct
  | _ =>
    refine call_flush (P := fun s => Distinct CacheItem.key s.cache)
      (fun s s' hstep hd => ?_) hdistinct
      (fun _ _ _ => nofun)
    rcases hstep.spec hd with rfl | ⟨_, _, _, hd', _⟩
    · exact hd
    · exact hd'

/-! ## What a get reads -/

section

variable {s : Store} (hdistinct : Distinct CacheItem.key s.cache) {name : List UInt8}
include hdistinct

/-- `property_cache_get` in terms of the entry of the name. -/
theorem propertyCacheGet_cached {item : CacheItem} (h : s.cached name = some item) (len : Nat) :
    propertyCacheGet s name len = .ok (min len item.dataLen,
      (item.data.map (·.take (min len item.dataLen))).getD []) := by
  unfold propertyCacheGet
  cases hfind : findPropertyCache s name with
  | none => cases (findPropertyCache_none hfind).symm.trans h
  | some i =>
    obtain ⟨-, -, hcached⟩ := findPropertyCache_some hdistinct hfind
    rw [h] at hcached
    dsimp only
    rw [← Option.some.inj hcached, show (if len < item.dataLen then len else item.dataLen) =
      min len item.dataLen by split <;> omega]

theorem propertyCacheGet_nvram (h : s.cached name = none) (len : Nat) :
    propertyCacheGet s name len = (nvramConfigGet s name len).map fun bytes =>
      (bytes.length, bytes) := by
  unfold propertyCacheGet
  cases hfind : findPropertyCache s name with
  | none => rfl
  | some i => cases h.symm.trans (findPropertyCache_some hdistinct hfind).2.2

end

end SpeakerFirmware.Property
