/-
# The property cache is transparent

With enough memory a name reads as the value of its last successful set, whether the value
is in the cache, has been flushed, or could not be flushed. The invariant is that the
cache and the NVRAM store together are one map: an entry in the cache has the value of the
map, and behind a name without an entry NVRAM has it.
-/

import SpeakerFirmware.Property.Cache

namespace SpeakerFirmware.Property

open Nvram SlotTable
open List Function

/-- The calls of the transparency result: every set has a value of 1 to 512 bytes, memory, and a
name whose data the cache owns. -/
def Call.Valid : Call → Prop
  | .set name data alloc =>
    (∃ bytes, data = some bytes ∧ 1 ≤ bytes.length ∧ bytes.length ≤ 512) ∧
      ¬ cfgBtKeys <+: name ∧ ∀ i, alloc i = true
  | _ => True

/-- How a call that returned `r` changes the map. -/
def Call.update (m : List UInt8 → Option (List UInt8)) (r : SetResult) :
    Call → List UInt8 → Option (List UInt8)
  | .set name (some bytes) _ => if r = .ok then Function.update m name (some bytes) else m
  | _ => m

/-- A sequence of calls, with the value of the last successful set of each name; `m` is what the
names read as before. -/
def Store.calls (s : Store) (m : List UInt8 → Option (List UInt8)) :
    List Call → Store × (List UInt8 → Option (List UInt8))
  | [] => (s, m)
  | c :: cs => Store.calls (s.call c).1 (c.update m (s.call c).2) cs

/-- The cache and the store together hold the map `m`. -/
structure Holds (s : Store) (m : List UInt8 → Option (List UInt8)) : Prop where
  distinct : Distinct CacheItem.key s.cache
  cached : ∀ name item, s.cached name = some item → ∃ bytes, item.data = some bytes ∧
    item.dataLen = bytes.length ∧ bytes ≠ [] ∧ bytes.length ≤ 512 ∧ m name = some bytes
  stored : ∀ name, s.cached name = none → m name = (s.user name).or (s.factory name)

theorem holds_init (user factory : List UInt8 → Option (List UInt8)) :
    Holds (propertyCacheInit user factory) fun name => (user name).or (factory name) where
  distinct := distinct_init user factory
  cached name item h := by
    have hfree : item.key = none := by
      have hmem := mem_of_find?_eq_some h
      rw [eq_of_mem_replicate hmem]
      rfl
    cases hfree.symm.trans (lookup_key h)
  stored _ _ := rfl

namespace Holds

variable {s s' : Store} {m : List UInt8 → Option (List UInt8)}

section

variable (h : Holds s m)
include h

/-- A get reads the map. -/
theorem get (name : List UInt8) {len : Nat} (hlen : 0 < len) :
    propertyCacheGet s name len = (readBack (m name) len).map fun bytes =>
      (bytes.length, bytes) := by
  cases hcached : s.cached name with
  | some item =>
    obtain ⟨bytes, hdata, hdataLen, -, -, hm⟩ := h.cached name item hcached
    have htake : bytes.take (min len bytes.length) = bytes.take len := by
      rw [← take_take, take_length]
    rw [propertyCacheGet_cached h.distinct hcached, hdata, hdataLen, hm, Option.map_some, htake,
      ← length_take]
    rfl
  | none =>
    rw [propertyCacheGet_nvram h.distinct hcached, h.stored name hcached, nvramConfigGet,
      if_neg (Nat.ne_of_gt hlen)]
    cases s.user name <;> rfl

/-- A set that changes no entry. -/
theorem unchanged {name : List UInt8} (hframe : Frame s s' name)
    (hsame : s'.cached name = s.cached name) : Holds s' m := by
  have hall : ∀ other, s'.cached other = s.cached other := by
    intro other
    rcases eq_or_ne other name with rfl | hne
    · exact hsame
    · exact hframe.others other hne
  refine ⟨hframe.distinct, fun other item hcached => ?_, fun other hnone => ?_⟩
  · exact h.cached other item (hall other ▸ hcached)
  · rw [hframe.user, hframe.factory]
    exact h.stored other (hall other ▸ hnone)

/-- A set that leaves the value in the cache. -/
theorem written {name bytes : List UInt8} (hframe : Frame s s' name) {item : CacheItem}
    (hcached : s'.cached name = some item) (hdata : item.data = some bytes)
    (hdataLen : item.dataLen = bytes.length) (hne : bytes ≠ []) (hmax : bytes.length ≤ 512) :
    Holds s' (update m name (some bytes)) := by
  refine ⟨hframe.distinct, fun other item' hcached' => ?_, fun other hnone => ?_⟩
  · rcases eq_or_ne other name with rfl | hother
    · rw [hcached] at hcached'
      rw [← Option.some.inj hcached', update_self]
      exact ⟨bytes, hdata, hdataLen, hne, hmax, rfl⟩
    · rw [update_of_ne hother]
      exact h.cached other item' (hframe.others other hother ▸ hcached')
  · have hother : other ≠ name := by
      rintro rfl
      cases hcached.symm.trans hnone
    rw [update_of_ne hother, hframe.user, hframe.factory]
    exact h.stored other (hframe.others other hother ▸ hnone)

/-- A set with a value and memory. -/
theorem set {name bytes : List UInt8} {alloc : Nat → Bool} (hpos : 1 ≤ bytes.length)
    (hmax : bytes.length ≤ 512) (halloc : ∀ i, alloc i = true) :
    Holds (propertyCacheSet s name (some bytes) alloc).1
      ((Call.set name (some bytes) alloc).update m
        (propertyCacheSet s name (some bytes) alloc).2) := by
  have hne : bytes ≠ [] := ne_nil_of_length_pos hpos
  have hmod : bytes.length % 1024 = bytes.length := Nat.mod_eq_of_lt (by omega)
  obtain ⟨hframe, heffect⟩ : Frame s (propertyCacheSet s name (some bytes) alloc).1 name ∧ _ :=
    propertyCacheSet_spec h.distinct (some bytes) alloc
  generalize propertyCacheSet s name (some bytes) alloc = r at hframe heffect ⊢
  obtain ⟨s', result⟩ := r
  dsimp only at hframe heffect ⊢
  cases heffect with
  | failed _ hold hnew => exact h.unchanged hframe (hnew.trans hold.symm)
  | added _ slot hold hnew => exact h.written hframe hnew rfl hmod hne hmax
  | rewritten _ item item' hold hnew hdata =>
    rcases hdata with ⟨hlen, hlen', old, hold', hnew'⟩ | ⟨hlen', hnew'⟩
    · -- the old buffer is filled
      obtain ⟨value, hvalue, hvalueLen, -⟩ := h.cached name item hold
      have hold'' : old = value := Option.some.inj (hold'.symm.trans hvalue)
      rw [hold'', drop_eq_nil_of_le (by omega), append_nil] at hnew'
      exact h.written hframe hnew hnew' (hlen'.trans hlen) hne hmax
    · exact h.written hframe hnew hnew' (hlen'.trans hmod) hne hmax
  | lost _ item item' hno => cases hno.symm.trans (halloc 0)
  | fault _ item hold hdata hlen hsame =>
    obtain ⟨value, hvalue, -⟩ := h.cached name item hold
    cases hdata.symm.trans hvalue
  | invalid hsame => exact absurd rfl hne

/-- A flush moves values, it does not change them. -/
theorem flushStep (hstep : FlushStep s s') : Holds s' m := by
  rcases hstep.spec h.distinct with rfl | ⟨name, item, hitem, hdistinct, hfactory, hothers, hcase⟩
  · exact h
  · obtain ⟨bytes, hdata, hdataLen, hne, hmax, hm⟩ := h.cached name item hitem
    rcases hcase with ⟨-, hnone, huser⟩ | ⟨huser, flushReq, hkept⟩
    · refine ⟨hdistinct, fun other item' hcached => ?_, fun other hother => ?_⟩
      · have hne' : other ≠ name := by
          rintro rfl
          cases hnone.symm.trans hcached
        exact h.cached other item' (hothers other hne' ▸ hcached)
      · rw [huser, hfactory]
        rcases eq_or_ne other name with rfl | hne'
        · rw [update_self, hdata, hdataLen, Option.getD_some, take_length, storedValue,
            if_neg hne, hm]
          rfl
        · rw [update_of_ne hne']
          exact h.stored other (hothers other hne' ▸ hother)
    · refine ⟨hdistinct, fun other item' hcached => ?_, fun other hother => ?_⟩
      · rcases eq_or_ne other name with rfl | hne'
        · rw [hkept] at hcached
          rw [← Option.some.inj hcached]
          exact ⟨bytes, hdata, hdataLen, hne, hmax, hm⟩
        · exact h.cached other item' (hothers other hne' ▸ hcached)
      · have hne' : other ≠ name := by
          rintro rfl
          cases hkept.symm.trans hother
        rw [huser, hfactory]
        exact h.stored other (hothers other hne' ▸ hother)

/-- One call. -/
theorem call {c : Call} (hc : c.Valid) : Holds (s.call c).1 (c.update m (s.call c).2) := by
  cases c with
  | set name data alloc =>
    obtain ⟨⟨bytes, rfl, hpos, hmax⟩, -, halloc⟩ := hc
    exact h.set hpos hmax halloc
  | _ =>
    exact call_flush (P := fun s => Holds s m) (fun _ _ hstep h => h.flushStep hstep) h
      (fun _ _ _ => nofun)

theorem calls {cs : List Call} (hcs : ∀ c ∈ cs, c.Valid) :
    Holds (s.calls m cs).1 (s.calls m cs).2 := by
  induction cs generalizing s m with
  | nil => exact h
  | cons c cs ih =>
    obtain ⟨hc, hrest⟩ := forall_mem_cons.mp hcs
    exact ih (h.call hc) hrest

end

end Holds

/-- After any sequence of valid calls on an empty cache over any NVRAM, whatever NVRAM writes fail,
each name reads as its last successful set (as what NVRAM held, if there was none), cut to the
length asked for; and a set of one name does not change what another reads as. -/
theorem cache_transparent (user factory : List UInt8 → Option (List UInt8)) {cs : List Call}
    (hcs : ∀ c ∈ cs, c.Valid) :
    (∀ name len, 0 < len →
      propertyCacheGet ((propertyCacheInit user factory).calls
          (fun name => (user name).or (factory name)) cs).1 name len =
        (readBack (((propertyCacheInit user factory).calls
          (fun name => (user name).or (factory name)) cs).2 name) len).map
          fun bytes => (bytes.length, bytes)) ∧
    ∀ name data alloc, (Call.set name data alloc).Valid → ∀ other len, other ≠ name → 0 < len →
      propertyCacheGet (propertyCacheSet ((propertyCacheInit user factory).calls
          (fun name => (user name).or (factory name)) cs).1 name data alloc).1 other len =
        propertyCacheGet ((propertyCacheInit user factory).calls
          (fun name => (user name).or (factory name)) cs).1 other len := by
  have hall := (holds_init user factory).calls hcs
  refine ⟨fun name len hlen => hall.get name hlen, fun name data alloc hset other len hother hlen =>
    ?_⟩
  have hnext := hall.call hset
  rw [hall.get other hlen]
  refine (hnext.get other hlen).trans ?_
  obtain ⟨⟨bytes, rfl, -⟩, -⟩ := hset
  rw [Call.update]
  split
  · rw [update_of_ne hother]
  · rfl

/-- A value is set, its flush fails, and it is set again and flushed. -/
theorem cache_transparent_example :
    propertyCacheGet ((propertyCacheInit (fun _ => none) (fun _ => none)).calls (fun _ => none)
      [.set [0x41] (some [1, 2]) (fun _ => true), .flush none (fun _ => false),
        .set [0x41] (some [3]) (fun _ => true), .flush none (fun _ => true)]).1 [0x41] 8 =
      .ok (1, [3]) := by
  have hvalid : ∀ c ∈ [Call.set [0x41] (some [1, 2]) (fun _ => true), .flush none (fun _ => false),
      .set [0x41] (some [3]) (fun _ => true), .flush none (fun _ => true)], c.Valid := by
    intro c hc
    simp only [mem_cons, not_mem_nil, or_false] at hc
    rcases hc with rfl | rfl | rfl | rfl
    · exact ⟨⟨[1, 2], rfl, by decide, by decide⟩, by decide, fun _ => rfl⟩
    · trivial
    · exact ⟨⟨[3], rfl, by decide, by decide⟩, by decide, fun _ => rfl⟩
    · trivial
  have hget := (cache_transparent (fun _ => none) (fun _ => none) hvalid).1 [0x41] 8 (by decide)
  refine hget.trans ?_
  decide +kernel

end SpeakerFirmware.Property
