/-
# Clearing stale pairing data at boot

The Bluetooth host keeps a client's GATT configuration in items whose names end in the
peer's address: `BT_CCC_…`, `BT_SC_…` and `BT_CF_…`. The pairings themselves are in the
records `BT_KEYS_0`, `BT_KEYS_1` and so on. `system_le_cleanup_nvram_on_boot` reads the
addresses of the records, walks the user region and deletes the configuration of peers
that are no longer paired, while the walk is under way.

The walk is not disturbed by what it deletes (`Nvram.Ready.traverse`). What is deleted
depends on the eight lookups that load the addresses: they use one buffer on the stack,
and a record that is too short to hold an address leaves there what was there before.
-/

import SpeakerFirmware.Nvram.Traverse
import SpeakerFirmware.Property.Cache

namespace SpeakerFirmware.System.LeCleanup

open Nvram
open Property (cfgBtKeys cfgBtCcc cfgBtCf cfgBtSc strncmpEq)

variable {r : RegionInfo}
variable {name pre text value : List UInt8} {i : Nat}

/-! ## Names and addresses -/

def maxBtKeys : Nat := 8

/-- `sizeof(struct bt_keys_data)`: an id, a type and the six bytes of the address. -/
def btKeysDataSize : Nat := 8

/-- The address in a `bt_keys_data`. -/
def addrOf (keysData : List UInt8) : List UInt8 := (keysData.drop 2).take 6

/-- A digit of `%x`. -/
def hexDigit (n : Nat) : UInt8 := UInt8.ofNat (if n < 10 then 0x30 + n else 0x57 + n)

/-- A byte as `%02x`. -/
def hexByte (byte : UInt8) : List UInt8 := [hexDigit (byte.toNat / 16), hexDigit (byte.toNat % 16)]

/-- `bt_addr_to_str`: the last byte of the address comes first. -/
def btAddrToStr (addr : List UInt8) : List UInt8 := addr.reverse.flatMap hexByte

/-- The name `BT_KEYS_<i>`. -/
def btKeysName (i : Nat) : List UInt8 :=
  cfgBtKeys ++ 0x5f :: (Nat.toDigits 10 i).map fun digit => UInt8.ofNat digit.toNat

/-- The prefixes of the names that are looked at, each with its underscore. -/
def prefixes : List (List UInt8) := [cfgBtCcc ++ [0x5f], cfgBtSc ++ [0x5f], cfgBtCf ++ [0x5f]]

/-! ## The code -/

/-- The factory regions behind the user region: what they hold, and what a lookup there leaves in
the buffer that all regions share. -/
structure Factory where
  value : List UInt8 → Option (List UInt8)
  buf : List UInt8 → List UInt8 → List UInt8

section

variable (r : RegionInfo) (factory : Factory)

def nvramConfigGet (s : RegionState) (name : List UInt8)
    (maxLen : Nat) : RegionState × Except Errno (List UInt8) :=
  let got := regionGet r s name maxLen
  match got.2 with
  | .ok value => (got.1, .ok value)
  | .error _ =>
    (got.1.withBuf (factory.buf name got.1.buf), readBack (factory.value name) maxLen)

/-- An entry of `valid_addr_list`: the address and the index of its record. -/
structure ValidAddr where
  addr : List UInt8
  index : Nat

/-- The state of the loop that loads the records; `keysData` is the buffer of the lookups. -/
structure Loading where
  region : RegionState
  keysData : List UInt8
  addrList : List ValidAddr

/-- The lookup of one record. -/
def loadBtKey (l : Loading) (i : Nat) : Loading :=
  let got := nvramConfigGet r factory l.region (btKeysName i) btKeysDataSize
  match got.2 with
  | .ok value =>
    -- the lookup writes as many bytes as the record has, and the others stay
    let keysData := value ++ l.keysData.drop value.length
    if value.length > 0 then
      ⟨got.1, keysData, l.addrList ++ [⟨btAddrToStr (addrOf keysData), i⟩]⟩
    else ⟨got.1, keysData, l.addrList⟩
  | .error _ => ⟨got.1, l.keysData, l.addrList⟩

/-- `system_le_cleanup_load_bt_keys`; `stack` are the bytes that `keys_data` starts with. -/
def systemLeCleanupLoadBtKeys (s : RegionState)
    (stack : Vector UInt8 btKeysDataSize) : Loading :=
  (List.range maxBtKeys).foldl (loadBtKey r factory) ⟨s, stack.toList, []⟩

def extractAddrFromKey (keyName pre : List UInt8) : Option (List UInt8) :=
  if strncmpEq keyName pre pre.length then
    let addrPart := keyName.drop pre.length
    if addrPart.length < 12 then none else some addrPart
  else none

def isAddrValid (addrStr : List UInt8) (addrList : List ValidAddr) : Bool :=
  addrList.any fun entry => strncmpEq entry.addr addrStr 12

def checkCleanupBleNvramOnBoot (r : RegionInfo) (addrList : List ValidAddr) (keyName : List UInt8)
    (s : RegionState) : RegionState :=
  prefixes.foldl (fun s pre =>
    match extractAddrFromKey keyName pre with
    | some addrPart =>
      if addrList.length = 0 then (regionSet r s keyName []).1
      else if isAddrValid addrPart addrList then s
      else (regionSet r s keyName []).1
    | none => s) s

/-- `system_le_cleanup_nvram_on_boot`, with the names that the callback was called for. -/
def systemLeCleanupNvramOnBoot (s : RegionState)
    (stack : Vector UInt8 btKeysDataSize) : RegionState × List (List UInt8) :=
  let loaded := systemLeCleanupLoadBtKeys r factory s stack
  regionTraverse r loaded.region (checkCleanupBleNvramOnBoot r loaded.addrList)

end

/-! ## What the cleanup is for -/

/-- The value of a hexadecimal digit of either case. -/
def hexValue (char : UInt8) : Option Nat :=
  if 0x30 ≤ char ∧ char ≤ 0x39 then some (char.toNat - 0x30)
  else if 0x61 ≤ char ∧ char ≤ 0x66 then some (char.toNat - 0x57)
  else if 0x41 ≤ char ∧ char ≤ 0x46 then some (char.toNat - 0x37)
  else none

/-- The bytes that a text of hexadecimal digits stands for. -/
def hexBytes : List UInt8 → Option (List UInt8)
  | [] => some []
  | [_] => none
  | high :: low :: text =>
    match hexValue high, hexValue low, hexBytes text with
    | some h, some l, some bytes => some (UInt8.ofNat (16 * h + l) :: bytes)
    | _, _, _ => none

/-- The address that a text stands for. -/
def peerAddress (text : List UInt8) : Option (List UInt8) := (hexBytes text).map List.reverse

/-- The name has a prefix that is looked at, and the twelve characters `text` behind it. -/
def Carries (name text : List UInt8) : Prop :=
  ∃ pre ∈ prefixes, ∃ rest, name = pre ++ (text ++ rest) ∧ text.length = 12

section

variable (factory : Factory) (slots : List Slot)

/-- The record `BT_KEYS_<i>`: an item of the user region hides one of the factory regions. -/
def record (i : Nat) : Option (List UInt8) :=
  (contents slots (btKeysName i)).or (factory.value (btKeysName i))

/-- The address occurs in a record. -/
def Recorded (addr : List UInt8) : Prop :=
  ∃ i value, record factory slots i = some value ∧ btKeysDataSize ≤ value.length ∧
    addrOf value = addr

/-- The item is the configuration of a peer without a record. -/
def Stale (name : List UInt8) : Prop :=
  ∃ text addr, Carries name text ∧ peerAddress text = some addr ∧ ¬ Recorded factory slots addr

/-- The cleanup visits every live item once; the stale names are gone after it, and every other
name reads as before. -/
def CleansUp (r : RegionInfo) (s : RegionState) (stack : Vector UInt8 btKeysDataSize) : Prop :=
  (systemLeCleanupNvramOnBoot r factory s stack).2 = names slots ∧
    ∀ name maxLen, 0 ∉ name → 0 < maxLen →
      (Stale factory slots name →
        (regionGet r (systemLeCleanupNvramOnBoot r factory s stack).1 name maxLen).2 =
          .error .enoent) ∧
      (¬ Stale factory slots name →
        (regionGet r (systemLeCleanupNvramOnBoot r factory s stack).1 name maxLen).2 =
          (regionGet r s name maxLen).2)

/-- A byte of the stack buffer behind the first `i` lookups: it is from the last of these records
that is long enough to have it, or else was there from the start. -/
def latestByte (stack : Vector UInt8 btKeysDataSize) : Nat → Nat → UInt8
  | 0, j => stack.toList.getD j 0
  | i + 1, j => ((record factory slots i).bind fun value => value[j]?).getD (latestByte stack i j)

/-- The address that the stack buffer shows behind the lookup of record `i`. -/
def shownAddr (stack : Vector UInt8 btKeysDataSize) (i : Nat) : List UInt8 :=
  (List.range 6).map fun j => latestByte factory slots stack (i + 1) (2 + j)

/-- One of the eight records that are looked up is there, and the buffer shows the address then. -/
def Shown (stack : Vector UInt8 btKeysDataSize) (addr : List UInt8) : Prop :=
  ∃ i < maxBtKeys, ∃ value, record factory slots i = some value ∧ value ≠ [] ∧
    shownAddr factory slots stack i = addr

/-- What the cleanup relies on. Behind a prefix that it looks at stands an address; if there is a
record of the address, then it is one that is found, and the name has the address in lower case; and
no record that is too short for an address is taken for one of this peer. -/
def Legible (stack : Vector UInt8 btKeysDataSize) : Prop :=
  ∀ name ∈ names slots, ∀ text, Carries name text →
    ∃ addr, peerAddress text = some addr ∧
      (Recorded factory slots addr →
        text = btAddrToStr addr ∧ Shown factory slots stack addr) ∧
      (text = btAddrToStr addr → ∀ i < maxBtKeys, ∀ value, record factory slots i = some value →
        value ≠ [] → value.length < btKeysDataSize → shownAddr factory slots stack i = addr →
        Recorded factory slots addr)

end

section

open List

/-! ## Addresses as text -/

theorem hexValue_hexDigit : ∀ n < 16, hexValue (hexDigit n) = some n := by
  decide

@[simp]
theorem length_flatMap_hexByte (bytes : List UInt8) :
    (bytes.flatMap hexByte).length = 2 * bytes.length := by
  induction bytes with
  | nil => rfl
  | cons byte bytes ih =>
    rw [flatMap_cons, length_append, ih, length_cons]
    simp only [hexByte, length_cons, length_nil]
    omega

/-- What is printed reads back. -/
theorem hexBytes_flatMap_hexByte (bytes : List UInt8) :
    hexBytes (bytes.flatMap hexByte) = some bytes := by
  induction bytes with
  | nil => rfl
  | cons byte bytes ih =>
    have hbyte := byte.toNat_lt
    have hvalue : 16 * (byte.toNat / 16) + byte.toNat % 16 = byte.toNat := Nat.div_add_mod _ 16
    rw [flatMap_cons, hexByte, cons_append, cons_append, nil_append, hexBytes,
      hexValue_hexDigit _ (by omega), hexValue_hexDigit _ (by omega), ih]
    simp only [hvalue, UInt8.ofNat_toNat]

theorem peerAddress_btAddrToStr (addr : List UInt8) :
    peerAddress (btAddrToStr addr) = some addr := by
  rw [peerAddress, btAddrToStr, hexBytes_flatMap_hexByte, Option.map_some, reverse_reverse]

theorem length_btAddrToStr (addr : List UInt8) : (btAddrToStr addr).length = 2 * addr.length := by
  rw [btAddrToStr, length_flatMap_hexByte, length_reverse]

/-! ## The callback -/

theorem zero_not_mem_pre : ∀ pre ∈ prefixes, 0 ∉ pre := by
  decide

/-- No name has two of the prefixes. -/
theorem eq_of_isPrefix {other : List UInt8} (hpre : pre ∈ prefixes)
    (hother : other ∈ prefixes) (h : pre <+: name) (h' : other <+: name) : pre = other := by
  have hapart : ∀ p ∈ prefixes, ∀ q ∈ prefixes, p <+: q → p = q := by decide
  rcases prefix_or_prefix_of_prefix h h' with hle | hle
  · exact hapart pre hpre other hother hle
  · exact (hapart other hother pre hpre hle).symm

theorem strncmpEq_iff_isPrefix (hpre : 0 ∉ pre) :
    strncmpEq name pre pre.length = true ↔ pre <+: name := by
  rw [strncmpEq, decide_eq_true_iff, take_left, eq_comm, ← prefix_iff_eq_take]
  constructor
  · intro h
    rcases prefix_concat_iff.mp h with rfl | h
    · simp at hpre
    · exact h
  · exact fun h => h.trans (prefix_append _ _)

theorem extractAddrFromKey_eq_some {part : List UInt8} (hpre : pre ∈ prefixes) :
    extractAddrFromKey name pre = some part ↔ name = pre ++ part ∧ 12 ≤ part.length := by
  rw [extractAddrFromKey]
  by_cases h : pre <+: name
  · obtain ⟨tail, rfl⟩ := h
    rw [if_pos ((strncmpEq_iff_isPrefix (zero_not_mem_pre pre hpre)).mpr (prefix_append _ _)),
      drop_left]
    dsimp only
    rw [append_cancel_left_eq]
    split
    · simp only [reduceCtorEq, false_iff, not_and]
      rintro rfl
      omega
    · simp only [Option.some.injEq]
      constructor
      · rintro rfl
        exact ⟨rfl, by omega⟩
      · exact fun h => h.1
  · rw [if_neg (h ∘ (strncmpEq_iff_isPrefix (zero_not_mem_pre pre hpre)).mp)]
    simp only [reduceCtorEq, false_iff, not_and]
    rintro rfl
    exact absurd (prefix_append _ _) h

/-- The twelve characters behind the prefix are determined by the name. -/
theorem Carries.unique {other : List UInt8} (h : Carries name text)
    (h' : Carries name other) : text = other := by
  obtain ⟨pre, hpre, rest, rfl, hlen⟩ := h
  obtain ⟨pre', hpre', rest', heq, hlen'⟩ := h'
  have hother : pre' <+: pre ++ (text ++ rest) := heq ▸ prefix_append _ _
  obtain rfl := eq_of_isPrefix hpre hpre' (prefix_append _ _) hother
  exact (append_inj (append_cancel_left heq) (hlen.trans hlen'.symm)).1

/-- The callback deletes the item: a prefix matches and no loaded address does. -/
def isUnpaired (addrList : List ValidAddr) (keyName : List UInt8) : Bool :=
  prefixes.any fun pre => (extractAddrFromKey keyName pre).any fun part =>
    !isAddrValid part addrList

/-- A step that applies to at most one element of a list is done once or not at all. -/
theorem foldl_once {α β : Type} {applies : α → Bool} {f : β → β} {l : List α}
    (h : l.Pairwise fun a b => applies a = true → applies b = false) (b : β) :
    l.foldl (fun b a => if applies a then f b else b) b = if l.any applies then f b else b := by
  induction l with
  | nil => rfl
  | cons a l ih =>
    rw [pairwise_cons] at h
    rw [foldl_cons, any_cons]
    cases ha : applies a with
    | true =>
      have hrest : ∀ (b : β) (l : List α), (∀ x ∈ l, applies x = false) →
          l.foldl (fun b a => if applies a then f b else b) b = b := by
        intro b l hl
        induction l with
        | nil => rfl
        | cons x l ih =>
          rw [forall_mem_cons] at hl
          rw [foldl_cons, hl.1]
          exact ih hl.2
      rw [Bool.true_or, if_pos rfl, hrest (f b) l fun x hx => h.1 x hx ha]
    | false =>
      rw [Bool.false_or]
      exact ih h.2

theorem checkCleanupBleNvramOnBoot_eq (addrList : List ValidAddr) :
    checkCleanupBleNvramOnBoot r addrList = deletes r (isUnpaired addrList) := by
  funext name s
  have hstep : (fun (s : RegionState) (pre : List UInt8) =>
      match extractAddrFromKey name pre with
      | some addrPart =>
        if addrList.length = 0 then (regionSet r s name []).1
        else if isAddrValid addrPart addrList then s
        else (regionSet r s name []).1
      | none => s) =
      fun s pre => if (extractAddrFromKey name pre).any fun part => !isAddrValid part addrList then
        (regionSet r s name []).1 else s := by
    funext s pre
    cases extractAddrFromKey name pre with
    | none => rfl
    | some part =>
      cases addrList with
      | nil => rfl
      | cons entry addrs => cases h : isAddrValid part (entry :: addrs) <;> simp [h]
  have honce : prefixes.Pairwise fun pre other =>
      ((extractAddrFromKey name pre).any fun part => !isAddrValid part addrList) = true →
      ((extractAddrFromKey name other).any fun part => !isAddrValid part addrList) = false := by
    have hdistinct : prefixes.Pairwise (· ≠ ·) := by decide
    refine hdistinct.imp_of_mem fun {pre other} hpre hother hne h => ?_
    rw [Option.any_eq_true] at h
    obtain ⟨part, hpart, -⟩ := h
    have hname := ((extractAddrFromKey_eq_some hpre).mp hpart).1
    cases hother' : extractAddrFromKey name other with
    | none => rfl
    | some part' =>
      have hname' := ((extractAddrFromKey_eq_some hother).mp hother').1
      have hsame : pre = other := eq_of_isPrefix hpre hother (hname ▸ prefix_append _ _)
        (hname' ▸ prefix_append _ _)
      exact absurd hsame hne
  rw [checkCleanupBleNvramOnBoot, hstep, foldl_once honce, deletes, isUnpaired]

theorem isAddrValid_iff {addrList : List ValidAddr} {rest : List UInt8}
    (htext : text.length = 12) (haddrs : ∀ entry ∈ addrList, entry.addr.length = 12) :
    isAddrValid (text ++ rest) addrList = true ↔ ∃ entry ∈ addrList, entry.addr = text := by
  rw [isAddrValid, any_eq_true]
  refine exists_congr fun entry => and_congr_right fun hentry => ?_
  rw [strncmpEq, decide_eq_true_iff, append_assoc, take_left' (haddrs entry hentry),
    take_left' htext]

theorem isUnpaired_iff {addrList : List ValidAddr}
    (haddrs : ∀ entry ∈ addrList, entry.addr.length = 12) :
    isUnpaired addrList name = true ↔
      ∃ text, Carries name text ∧ ∀ entry ∈ addrList, entry.addr ≠ text := by
  have hvalid : ∀ part : List UInt8, 12 ≤ part.length →
      ((!isAddrValid part addrList) = true ↔ ∀ entry ∈ addrList, entry.addr ≠ part.take 12) := by
    intro part hpart
    have htake : (part.take 12).length = 12 := by
      rw [length_take]
      omega
    rw [← take_append_drop 12 part, Bool.not_eq_true', ← Bool.not_eq_true,
      isAddrValid_iff htake haddrs, take_left' htake]
    simp
  rw [isUnpaired, any_eq_true]
  constructor
  · rintro ⟨pre, hpre, h⟩
    obtain ⟨part, hpart, hnot⟩ := (Option.any_eq_true _ _).mp h
    obtain ⟨rfl, hlen⟩ := (extractAddrFromKey_eq_some hpre).mp hpart
    refine ⟨part.take 12, ⟨pre, hpre, part.drop 12, ?_, ?_⟩, (hvalid part hlen).mp hnot⟩
    · rw [take_append_drop]
    · rw [length_take]
      omega
  · rintro ⟨text, ⟨pre, hpre, rest, rfl, hlen⟩, hnot⟩
    have hpart : 12 ≤ (text ++ rest).length := by
      rw [length_append]
      omega
    refine ⟨pre, hpre, (Option.any_eq_true _ _).mpr ⟨text ++ rest, ?_, ?_⟩⟩
    · exact (extractAddrFromKey_eq_some hpre).mpr ⟨rfl, hpart⟩
    · rw [hvalid _ hpart, take_left' hlen]
      exact hnot

end

/-! ## Loading the records -/

section

variable {factory : Factory} {slots : List Slot} {stack : Vector UInt8 btKeysDataSize}
  {s : RegionState}

theorem nvramConfigGet_eq (h : Ready r s slots) (hname : 0 ∉ name)
    {maxLen : Nat} (hlen : 0 < maxLen) :
    ∃ b, nvramConfigGet r factory s name maxLen =
      (s.withBuf b, readBack ((contents slots name).or (factory.value name)) maxLen) := by
  obtain ⟨b, hget⟩ := h.get hname hlen
  rw [nvramConfigGet, hget]
  cases contents slots name with
  | some value => exact ⟨b, rfl⟩
  | none => exact ⟨_, rfl⟩

theorem zero_not_mem_btKeysName : ∀ i < maxBtKeys, 0 ∉ btKeysName i := by
  decide

/-- What the first `n` lookups leave. -/
structure Loaded (factory : Factory) (slots : List Slot) (stack : Vector UInt8 btKeysDataSize)
    (s : RegionState) (n : Nat) (l : Loading) : Prop where
  region : ∃ b, l.region = s.withBuf b
  bytes : ∀ j < btKeysDataSize, l.keysData[j]? = some (latestByte factory slots stack n j)
  addrs : ∀ text, (∃ entry ∈ l.addrList, entry.addr = text) ↔
    ∃ i < n, ∃ value, record factory slots i = some value ∧ value ≠ [] ∧
      btAddrToStr (shownAddr factory slots stack i) = text

theorem loaded_zero : Loaded factory slots stack s 0 ⟨s, stack.toList, []⟩ := by
  refine ⟨⟨s.buf, rfl⟩, ?_, ?_⟩
  · intro j hj
    have hlen : j < stack.toList.length := by rwa [Vector.length_toList]
    rw [latestByte, List.getD_eq_getElem?_getD, List.getElem?_eq_getElem hlen, Option.getD_some]
  · simp

/-- The bytes that show an address. -/
theorem addrOf_eq_shownAddr {keysData : List UInt8}
    (h : ∀ j < btKeysDataSize, keysData[j]? = some (latestByte factory slots stack (i + 1) j)) :
    addrOf keysData = shownAddr factory slots stack i := by
  apply List.ext_getElem?
  intro j
  rw [addrOf, shownAddr, List.getElem?_take, List.getElem?_drop, List.getElem?_map]
  by_cases hj : j < 6
  · rw [if_pos hj, List.getElem?_range hj, h (2 + j) (by unfold btKeysDataSize; omega)]
    rfl
  · rw [if_neg hj, List.getElem?_eq_none (by rw [List.length_range]; omega)]
    rfl

/-- A lookup overwrites the bytes that the record has. -/
theorem getElem?_overwritten {keysData : List UInt8} {n j : Nat}
    (hj : j < btKeysDataSize) (hrecord : record factory slots n = some value)
    (h : keysData[j]? = some (latestByte factory slots stack n j)) :
    (value.take btKeysDataSize ++ keysData.drop (value.take btKeysDataSize).length)[j]? =
      some (latestByte factory slots stack (n + 1) j) := by
  rw [latestByte, hrecord, Option.bind_some]
  by_cases hin : j < value.length
  · have hlt : j < (value.take btKeysDataSize).length := by
      rw [List.length_take]
      omega
    rw [List.getElem?_append_left hlt, List.getElem?_take, if_pos hj,
      List.getElem?_eq_getElem hin, Option.getD_some]
  · have hall : value.take btKeysDataSize = value := List.take_of_length_le (by omega)
    rw [hall, List.getElem?_append_right (by omega), List.getElem?_drop,
      Nat.add_sub_cancel' (by omega), h, List.getElem?_eq_none (by omega), Option.getD_none]

theorem Loaded.step (h : Ready r s slots) {n : Nat} (hn : n < maxBtKeys) {l : Loading}
    (hl : Loaded factory slots stack s n l) :
    Loaded factory slots stack s (n + 1) (loadBtKey r factory l n) := by
  obtain ⟨b, hregion⟩ := hl.region
  have hready : Ready r l.region slots := hregion ▸ ⟨h.toSynced.withBuf b, h.nodup⟩
  obtain ⟨b', hget⟩ : ∃ b', nvramConfigGet r factory l.region (btKeysName n) btKeysDataSize =
      (l.region.withBuf b', readBack (record factory slots n) btKeysDataSize) :=
    nvramConfigGet_eq hready (zero_not_mem_btKeysName n hn) (by decide)
  have hregion' : ∃ b, l.region.withBuf b' = s.withBuf b := ⟨b', by rw [hregion, withBuf_withBuf]⟩
  rw [loadBtKey, hget]
  cases hrecord : record factory slots n with
  | none =>
    dsimp only [readBack]
    refine ⟨hregion', fun j hj => ?_, fun text => ?_⟩
    · rw [latestByte, hrecord]
      exact hl.bytes j hj
    · rw [Nat.exists_lt_succ_right, ← hl.addrs text]
      simp [hrecord]
  | some value =>
    have hbytes : ∀ j < btKeysDataSize, (value.take btKeysDataSize ++
        l.keysData.drop (value.take btKeysDataSize).length)[j]? =
        some (latestByte factory slots stack (n + 1) j) :=
      fun j hj => getElem?_overwritten hj hrecord (hl.bytes j hj)
    dsimp only [readBack]
    split
    case isTrue hpos =>
      have hne : value ≠ [] := by
        rintro rfl
        simp at hpos
      refine ⟨hregion', hbytes, fun text => ?_⟩
      rw [Nat.exists_lt_succ_right, ← hl.addrs text, ← addrOf_eq_shownAddr hbytes]
      simp [hrecord, hne, or_and_right, exists_or]
    case isFalse hzero =>
      have hnil : value = [] := by
        have hlen := List.length_take (i := btKeysDataSize) (l := value)
        rw [btKeysDataSize] at hlen hzero
        exact List.length_eq_zero_iff.mp (by omega)
      refine ⟨hregion', hbytes, fun text => ?_⟩
      rw [Nat.exists_lt_succ_right, ← hl.addrs text]
      simp [hrecord, hnil]

theorem loaded_foldl (h : Ready r s slots) : ∀ n ≤ maxBtKeys,
    Loaded factory slots stack s n
      ((List.range n).foldl (loadBtKey r factory) ⟨s, stack.toList, []⟩) := by
  intro n hn
  induction n with
  | zero => exact loaded_zero
  | succ n ih =>
    rw [List.range_succ, List.foldl_append]
    exact (ih (by omega)).step h hn

variable (factory stack) in
theorem loaded (h : Ready r s slots) :
    Loaded factory slots stack s maxBtKeys (systemLeCleanupLoadBtKeys r factory s stack) :=
  loaded_foldl h maxBtKeys le_rfl

theorem length_shownAddr (i : Nat) : (shownAddr factory slots stack i).length = 6 := by
  rw [shownAddr, List.length_map, List.length_range]

/-- A record that is long enough shows its own address. -/
theorem shownAddr_eq_addrOf
    (hrecord : record factory slots i = some value) (hlen : btKeysDataSize ≤ value.length) :
    shownAddr factory slots stack i = addrOf value := by
  have htake : addrOf (value.take btKeysDataSize) = addrOf value := by
    rw [addrOf, List.drop_take, List.take_take]
    rfl
  rw [← htake]
  refine (addrOf_eq_shownAddr fun j hj => ?_).symm
  rw [latestByte, hrecord, Option.bind_some, List.getElem?_take, if_pos hj,
    List.getElem?_eq_getElem (lt_of_lt_of_le hj hlen), Option.getD_some]

/-- The items that the callback deletes: those whose text is not the address that some lookup
showed. -/
theorem isUnpaired_load_iff (h : Ready r s slots) :
    isUnpaired (systemLeCleanupLoadBtKeys r factory s stack).addrList name = true ↔
      ∃ text, Carries name text ∧
        ∀ addr, Shown factory slots stack addr → text ≠ btAddrToStr addr := by
  have hloaded := loaded factory stack h
  have hlen : ∀ entry ∈ (systemLeCleanupLoadBtKeys r factory s stack).addrList,
      entry.addr.length = 12 := by
    intro entry hentry
    obtain ⟨i, -, value, -, -, haddr⟩ := (hloaded.addrs entry.addr).mp ⟨entry, hentry, rfl⟩
    rw [← haddr, length_btAddrToStr, length_shownAddr]
  rw [isUnpaired_iff hlen]
  refine exists_congr fun text => and_congr_right fun _ => ?_
  have hany := not_congr (hloaded.addrs text)
  constructor
  · rintro hnot addr ⟨i, hi, value, hvalue, hne, rfl⟩ heq
    refine hany.mp ?_ ⟨i, hi, value, hvalue, hne, heq.symm⟩
    rintro ⟨entry, hentry, haddr⟩
    exact hnot entry hentry haddr
  · rintro hnot entry hentry haddr
    obtain ⟨i, hi, value, hvalue, hne, htext⟩ := (hloaded.addrs text).mp ⟨entry, hentry, haddr⟩
    exact hnot _ ⟨i, hi, value, hvalue, hne, rfl⟩ htext.symm

/-! ## The cleanup -/

variable (factory stack) in
/-- The walk visits every live item, and the store behind it lacks what was deleted. -/
theorem cleanup_eq (h : Ready r s slots) :
    (systemLeCleanupNvramOnBoot r factory s stack).2 = names slots ∧
      Ready r (systemLeCleanupNvramOnBoot r factory s stack).1 (retireAll
        (isUnpaired (systemLeCleanupLoadBtKeys r factory s stack).addrList) slots) := by
  obtain ⟨b, hregion⟩ := (loaded factory stack h).region
  have hready : Ready r (systemLeCleanupLoadBtKeys r factory s stack).region slots :=
    hregion ▸ ⟨h.toSynced.withBuf b, h.nodup⟩
  obtain ⟨s', hwalk, hready'⟩ := hready.traverse
    (isUnpaired (systemLeCleanupLoadBtKeys r factory s stack).addrList)
  rw [systemLeCleanupNvramOnBoot, checkCleanupBleNvramOnBoot_eq, hwalk]
  exact ⟨rfl, hready'⟩

/-- The cleanup does its work if it deletes the stale ones among the live items. -/
theorem cleansUp_iff_forall (h : Ready r s slots) :
    CleansUp factory slots r s stack ↔ ∀ name ∈ names slots,
      (isUnpaired (systemLeCleanupLoadBtKeys r factory s stack).addrList name = true ↔
        Stale factory slots name) := by
  obtain ⟨hvisits, hafter⟩ := cleanup_eq factory stack h
  generalize isUnpaired (systemLeCleanupLoadBtKeys r factory s stack).addrList = gone at hafter ⊢
  -- what a get reads before and after
  have hget : ∀ name maxLen, 0 ∉ name → 0 < maxLen →
      (regionGet r s name maxLen).2 = readBack (contents slots name) maxLen := by
    intro name maxLen hname hlen
    obtain ⟨b, hget⟩ := h.get hname hlen
    rw [hget]
  have hget' : ∀ name maxLen, 0 ∉ name → 0 < maxLen →
      (regionGet r (systemLeCleanupNvramOnBoot r factory s stack).1 name maxLen).2 =
        readBack (if gone name then none else contents slots name) maxLen := by
    intro name maxLen hname hlen
    obtain ⟨b, hget⟩ := hafter.get hname hlen
    rw [hget, contents_retireAll]
  rw [CleansUp, and_iff_right hvisits]
  constructor
  · intro hall name hname
    obtain ⟨value, hvalue⟩ : ∃ value, contents slots name = some value :=
      Option.ne_none_iff_exists'.mp fun hnone => contents_eq_none_iff.mp hnone hname
    have hnul : 0 ∉ name := zero_not_mem_of_mem_names hname
    obtain ⟨hgone, hstays⟩ := hall name 1 hnul Nat.one_pos
    rw [hget' name 1 hnul Nat.one_pos, hvalue] at hgone hstays
    rw [hget name 1 hnul Nat.one_pos, hvalue] at hstays
    cases hgone' : gone name <;> simp_all [readBack]
  · intro hagree name maxLen hname hlen
    rw [hget' name maxLen hname hlen, hget name maxLen hname hlen]
    by_cases hmem : name ∈ names slots
    · have hiff := hagree name hmem
      cases hgone : gone name <;> simp_all [readBack]
    · rw [contents_eq_none_iff.mpr hmem, ite_self]
      exact ⟨fun _ => rfl, fun _ => rfl⟩

/-- Whether the code and the purpose agree on an item, read off the text in its name. -/
theorem agrees_iff (h : Ready r s slots) (hcarries : Carries name text) :
    (isUnpaired (systemLeCleanupLoadBtKeys r factory s stack).addrList name = true ↔
      Stale factory slots name) ↔
    ∃ addr, peerAddress text = some addr ∧
      (Recorded factory slots addr ↔ text = btAddrToStr addr ∧ Shown factory slots stack addr) := by
  have hunpaired : isUnpaired (systemLeCleanupLoadBtKeys r factory s stack).addrList name = true ↔
      ∀ addr, Shown factory slots stack addr → text ≠ btAddrToStr addr := by
    rw [isUnpaired_load_iff h]
    constructor
    · rintro ⟨other, hother, hnot⟩
      exact hcarries.unique hother ▸ hnot
    · exact fun hnot => ⟨text, hcarries, hnot⟩
  have hstale : Stale factory slots name ↔
      ∃ addr, peerAddress text = some addr ∧ ¬ Recorded factory slots addr := by
    constructor
    · rintro ⟨other, addr, hother, haddr, hnot⟩
      exact ⟨addr, hcarries.unique hother ▸ haddr, hnot⟩
    · rintro ⟨addr, haddr, hnot⟩
      exact ⟨text, addr, hcarries, haddr, hnot⟩
  rw [hunpaired, hstale]
  cases haddr : peerAddress text with
  | none =>
    -- a text that is no address is deleted, but is not stale
    have hnot : ∀ addr, Shown factory slots stack addr → text ≠ btAddrToStr addr := by
      rintro addr - rfl
      rw [peerAddress_btAddrToStr] at haddr
      cases haddr
    simp only [reduceCtorEq, false_and, exists_false, iff_false, not_forall]
    exact fun ⟨addr, hshown, htext⟩ => htext (hnot addr hshown)
  | some addr =>
    have hshown : (∀ other, Shown factory slots stack other → text ≠ btAddrToStr other) ↔
        ¬ (text = btAddrToStr addr ∧ Shown factory slots stack addr) := by
      constructor
      · rintro hnot ⟨htext, hshown⟩
        exact hnot addr hshown htext
      · rintro hnot other hshown rfl
        rw [peerAddress_btAddrToStr, Option.some.injEq] at haddr
        exact hnot ⟨haddr ▸ rfl, haddr ▸ hshown⟩
    rw [hshown]
    simp only [Option.some.injEq, exists_eq_left']
    exact not_iff_not.trans Iff.comm

/-- A full record that is looked up is recorded. -/
theorem recorded_of_shown {addr : List UInt8} (h : Shown factory slots stack addr)
    (hshort : ∀ i < maxBtKeys, ∀ value, record factory slots i = some value → value ≠ [] →
      value.length < btKeysDataSize → shownAddr factory slots stack i = addr →
      Recorded factory slots addr) : Recorded factory slots addr := by
  obtain ⟨i, hi, value, hvalue, hne, hshown⟩ := h
  by_cases hlen : value.length < btKeysDataSize
  · exact hshort i hi value hvalue hne hlen hshown
  · have hfull := Nat.not_lt.mp hlen
    exact ⟨i, value, hvalue, hfull, (shownAddr_eq_addrOf hvalue hfull).symm.trans hshown⟩

/-- The cleanup deletes exactly the configuration of peers without a record if and only if the
names and records are legible to it. -/
theorem cleansUp_iff_legible (h : Ready r s slots) :
    CleansUp factory slots r s stack ↔ Legible factory slots stack := by
  rw [cleansUp_iff_forall h]
  constructor
  · intro hall name hname text hcarries
    obtain ⟨addr, haddr, hiff⟩ := (agrees_iff h hcarries).mp (hall name hname)
    refine ⟨addr, haddr, hiff.mp, ?_⟩
    intro htext i hi value hvalue hne _ hshown
    exact hiff.mpr ⟨htext, i, hi, value, hvalue, hne, hshown⟩
  · intro hlegible name hname
    by_cases hcarries : ∃ text, Carries name text
    · obtain ⟨text, hcarries⟩ := hcarries
      obtain ⟨addr, haddr, hshows, hshort⟩ := hlegible name hname text hcarries
      refine (agrees_iff h hcarries).mpr ⟨addr, haddr, hshows, ?_⟩
      rintro ⟨htext, hshown⟩
      exact recorded_of_shown hshown (hshort htext)
    · rw [isUnpaired_load_iff h]
      constructor
      · rintro ⟨text, htext, -⟩
        exact absurd ⟨text, htext⟩ hcarries
      · rintro ⟨text, -, htext, -⟩
        exact absurd ⟨text, htext⟩ hcarries

end

/-! ## Two stores

Both hold the configuration of the peer with the address zero. -/

/-- `BT_CCC_0000000000000`: the prefix, the address and the address type. -/
def zeroPeerName : List UInt8 := cfgBtCcc ++ 0x5f :: btAddrToStr (List.replicate 6 0) ++ [0x30]

/-- A new store with a record and with the configuration of the peer zero. -/
def storeWith (keys : List UInt8) : RegionState :=
  calls userNvramRegion (regionScan userNvramRegion (powerOn userNvramRegion fun _ => 0xff))
    [.set (btKeysName 0) keys, .set zeroPeerName [1]]

def noFactory : Factory := ⟨fun _ => none, fun _ buf => buf⟩

theorem storeWith_ready {keys : List UInt8} (hne : keys ≠ [])
    (hadmissible : AllAdmissible userNvramRegion
      (regionScan userNvramRegion (powerOn userNvramRegion fun _ => 0xff))
      [.set (btKeysName 0) keys, .set zeroPeerName [1]]) :
    ∃ slots, Ready userNvramRegion (storeWith keys) slots ∧
      ∀ name, contents slots name =
        if name = zeroPeerName then some [1] else if name = btKeysName 0 then some keys
          else none := by
  have hblank : Stores userNvramRegion
      (regionScan userNvramRegion (powerOn userNvramRegion fun _ => 0xff)) fun _ => none :=
    ⟨[], (blank_erased userNvramRegion).scan.1, rfl⟩
  obtain ⟨slots, hready, hcontents⟩ := hblank.calls hadmissible
  refine ⟨slots, hready, fun name => ?_⟩
  rw [hcontents]
  simp [lastSet, Call.update, Function.update_apply, storedValue, hne]

theorem carries_zeroPeer : Carries zeroPeerName (btAddrToStr (List.replicate 6 0)) :=
  ⟨_, List.mem_cons_self, [0x30], by decide, by decide⟩

/-- In these stores the only record is `BT_KEYS_0`. -/
theorem record_storeWith {keys : List UInt8} {slots : List Slot}
    (hcontents : ∀ name, contents slots name =
      if name = zeroPeerName then some [1] else if name = btKeysName 0 then some keys
        else none) (h : record noFactory slots i = some value) : value = keys := by
  have hname : btKeysName i ≠ zeroPeerName := by
    intro heq
    have hthird : (btKeysName i)[3]? = zeroPeerName[3]? := by rw [heq]
    exact absurd hthird (by simp [btKeysName, zeroPeerName, cfgBtKeys, cfgBtCcc])
  rw [record, hcontents, if_neg hname] at h
  by_cases hzero : btKeysName i = btKeysName 0
  · rw [if_pos hzero] at h
    exact (Option.some.inj h).symm
  · rw [if_neg hzero] at h
    cases h

/-- The peer zero is not paired: its configuration is deleted. -/
theorem cleansUp_other_peer :
    ∃ slots, Ready userNvramRegion (storeWith [0, 0, 1, 2, 3, 4, 5, 6]) slots ∧
      Stale noFactory slots zeroPeerName ∧
      CleansUp noFactory slots userNvramRegion (storeWith [0, 0, 1, 2, 3, 4, 5, 6])
        (Vector.replicate _ 0) := by
  obtain ⟨slots, hready, hcontents⟩ := storeWith_ready
    (show ([0, 0, 1, 2, 3, 4, 5, 6] : List UInt8) ≠ [] by decide)
    ⟨⟨⟨by decide, by decide, by decide⟩, by decide +kernel⟩,
      ⟨⟨by decide, by decide, by decide⟩, by decide +kernel⟩, trivial⟩
  have hnot : ¬ Recorded noFactory slots (List.replicate 6 0) := by
    rintro ⟨i, value, hvalue, -, haddr⟩
    rw [record_storeWith hcontents hvalue] at haddr
    exact absurd haddr (by decide)
  refine ⟨slots, hready, ⟨_, _, carries_zeroPeer, peerAddress_btAddrToStr _, hnot⟩,
    (cleansUp_iff_legible hready).mpr ?_⟩
  intro name hname text hcarries
  have hpeer : name = zeroPeerName := by
    by_contra hne
    have hsome : contents slots name ≠ none := fun hnone => contents_eq_none_iff.mp hnone hname
    rw [hcontents, if_neg hne] at hsome
    by_cases hkeys : name = btKeysName 0
    · obtain ⟨pre, hpre, rest, heq, -⟩ := hcarries
      have hno : ∀ pre ∈ prefixes, ¬ pre <+: btKeysName 0 := by decide
      exact hno pre hpre (hkeys ▸ heq ▸ List.prefix_append _ _)
    · rw [if_neg hkeys] at hsome
      exact hsome rfl
  subst hpeer
  obtain rfl := carries_zeroPeer.unique hcarries
  refine ⟨_, peerAddress_btAddrToStr _, fun hrecorded => absurd hrecorded hnot, ?_⟩
  intro _ i _ value hvalue _ hshort _
  rw [record_storeWith hcontents hvalue] at hshort
  exact absurd hshort (by decide)

/-- A record of one byte leaves the zeroes that the stack had, and these are taken for an address:
the configuration of the peer zero stays, though it has no record. -/
theorem short_record_keeps_stale :
    ∃ slots, Ready userNvramRegion (storeWith [1]) slots ∧
      Stale noFactory slots zeroPeerName ∧
      ¬ CleansUp noFactory slots userNvramRegion (storeWith [1]) (Vector.replicate _ 0) := by
  obtain ⟨slots, hready, hcontents⟩ := storeWith_ready
    (show ([1] : List UInt8) ≠ [] by decide)
    ⟨⟨⟨by decide, by decide, by decide⟩, by decide +kernel⟩,
      ⟨⟨by decide, by decide, by decide⟩, by decide +kernel⟩, trivial⟩
  have hnot : ¬ Recorded noFactory slots (List.replicate 6 0) := by
    rintro ⟨i, value, hvalue, hlen, -⟩
    rw [record_storeWith hcontents hvalue] at hlen
    exact absurd hlen (by decide)
  have hstale : Stale noFactory slots zeroPeerName :=
    ⟨_, _, carries_zeroPeer, peerAddress_btAddrToStr _, hnot⟩
  refine ⟨slots, hready, hstale, fun hcleans => ?_⟩
  have hlive : zeroPeerName ∈ names slots := by
    by_contra hdead
    have hnone := contents_eq_none_iff.mpr hdead
    rw [hcontents, if_pos rfl] at hnone
    cases hnone
  obtain ⟨text, hcarries, hnone⟩ :=
    (isUnpaired_load_iff hready).mp (((cleansUp_iff_forall hready).mp hcleans _ hlive).mpr hstale)
  obtain rfl := carries_zeroPeer.unique hcarries
  have hrecord : record noFactory slots 0 = some [1] := by
    rw [record, hcontents, if_neg (by decide), if_pos rfl]
    rfl
  refine hnone (List.replicate 6 0) ⟨0, by decide, [1], hrecord, by decide, ?_⟩ rfl
  simp only [shownAddr, latestByte, hrecord]
  decide

end SpeakerFirmware.System.LeCleanup
