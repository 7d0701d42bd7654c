/-
# Deleting a property

A set with NULL deletes a property. `property_cache_set2` leaves an empty entry that hides
what NVRAM still holds and that the next flush turns into a deletion there. The two set
functions for pairing data drop the entry instead, and the value that was flushed before
comes back.

`deleted_iff` says exactly when a deletion holds: if the name is one of
`property_cache_set2`, or NVRAM has no value for it.
-/

import SpeakerFirmware.Property.Cache

namespace SpeakerFirmware.Property

open SlotTable

/-- The value a get takes from the cache or the user region, if there is one. -/
def Store.userValue (s : Store) (name : List UInt8) : Option (List UInt8) :=
  match s.cached name with
  | some item => item.data.map (·.take item.dataLen)
  | none => s.user name

section

variable {s : Store} {name : List UInt8}

theorem userValue_cached {item : CacheItem} (h : s.cached name = some item) :
    s.userValue name = item.data.map (·.take item.dataLen) := by
  rw [Store.userValue, h]

theorem userValue_nvram (h : s.cached name = none) : s.userValue name = s.user name := by
  rw [Store.userValue, h]

end

/-- A call that gives the name a value. -/
def Call.SetsValue (name : List UInt8) : Call → Prop
  | .set other (some _) _ => other = name
  | _ => False

/-- The store behind a sequence of calls. -/
def Store.run (s : Store) (cs : List Call) : Store :=
  cs.foldl (fun s c => (s.call c).1) s

theorem distinct_run {s : Store} (hdistinct : Distinct CacheItem.key s.cache) (cs : List Call) :
    Distinct CacheItem.key (s.run cs).cache := by
  induction cs generalizing s with
  | nil => exact hdistinct
  | cons c cs ih => exact ih (distinct_call hdistinct c)

/-- The name stays deleted: an empty entry hides it for good, or NVRAM has no value and the cache
has none either. -/
structure Deleted (s : Store) (name : List UInt8) : Prop where
  distinct : Distinct CacheItem.key s.cache
  hidden : (setter name = .set2 ∧ ∃ item, s.cached name = some item ∧ item.data = none) ∨
    (s.user name = none ∧ ∀ item, s.cached name = some item → item.data = none)

namespace Deleted

variable {s s' : Store} {name : List UInt8}

theorem userValue (h : Deleted s name) : s.userValue name = none := by
  cases hcached : s.cached name with
  | some item =>
    have hdata : item.data = none := by
      rcases h.hidden with ⟨-, item', hitem', hdata⟩ | ⟨-, hall⟩
      · rw [hcached] at hitem'
        rwa [Option.some.inj hitem']
      · exact hall item hcached
    rw [userValue_cached hcached, hdata, Option.map_none]
  | none =>
    rw [userValue_nvram hcached]
    rcases h.hidden with ⟨-, item, hitem, -⟩ | ⟨huser, -⟩
    · cases hcached.symm.trans hitem
    · exact huser

/-- A set of another name. -/
theorem set_other (h : Deleted s name) {other : List UInt8} (hframe : Frame s s' other)
    (hne : name ≠ other) :
    Deleted s' name := by
  refine ⟨hframe.distinct, ?_⟩
  rw [hframe.others name hne, hframe.user]
  exact h.hidden

/-- A deletion, of a name that stays deleted or has no value in NVRAM. -/
theorem of_delete (hframe : Frame s s' name) {alloc : Nat → Bool} {r : SetResult}
    (heffect : Effect s s' name alloc none r) (hr : r = .ok ∨ Deleted s name)
    (hkeeps : setter name = .set2 ∨ s.user name = none) : Deleted s' name := by
  refine ⟨hframe.distinct, ?_⟩
  cases heffect with
  | failed _ hold hnew =>
    rw [hnew, ← hold, hframe.user]
    exact (hr.resolve_left (by decide)).hidden
  | added _ slot hold hnew =>
    rcases hkeeps with hset2 | hnone
    · exact .inl ⟨hset2, _, hnew, rfl⟩
    · refine .inr ⟨hframe.user ▸ hnone, fun item hitem => ?_⟩
      rw [hnew] at hitem
      rw [← Option.some.inj hitem]
      rfl
  | dropped item hsetter hold hnew =>
    refine .inr ⟨hframe.user ▸ hkeeps.resolve_left hsetter, fun item' hitem => ?_⟩
    cases hnew.symm.trans hitem
  | emptied item item' hsetter hold hnew hdata => exact .inl ⟨hsetter, item', hnew, hdata⟩

section

variable (h : Deleted s name)
include h

/-- One slot of a flush. -/
theorem flushStep (hstep : FlushStep s s') : Deleted s' name := by
  rcases hstep.spec h.distinct with rfl | ⟨other, item, hitem, hdistinct, hfactory, hothers, hcase⟩
  · exact h
  · refine ⟨hdistinct, ?_⟩
    rcases eq_or_ne name other with rfl | hne
    · have hdata : item.data = none := by
        have hvalue := h.userValue
        rw [userValue_cached hitem] at hvalue
        exact Option.map_eq_none_iff.mp hvalue
      rcases hcase with ⟨-, hnone, huser⟩ | ⟨huser, flushReq, hkept⟩
      · -- the empty entry is written: NVRAM deletes the name
        refine .inr ⟨?_, fun item' hitem' => (by cases hnone.symm.trans hitem')⟩
        rw [huser, Function.update_self, hdata, Option.getD_none, List.take_nil]
        rfl
      · rw [hkept, huser]
        rcases h.hidden with ⟨hset2, -⟩ | ⟨huser', -⟩
        · exact .inl ⟨hset2, _, rfl, hdata⟩
        · refine .inr ⟨huser', fun item' hitem' => ?_⟩
          rw [← Option.some.inj hitem']
          exact hdata
    · have huser : s'.user name = s.user name := by
        rcases hcase with ⟨-, -, huser⟩ | ⟨huser, -⟩
        · rw [huser, Function.update_of_ne hne]
        · rw [huser]
      rw [hothers name hne, huser]
      exact h.hidden

/-- A deletion is final for `property_cache_set2`, and where NVRAM has no value. -/
theorem keeps : setter name = .set2 ∨ s.user name = none :=
  h.hidden.imp And.left And.left

theorem call {c : Call} (hc : ¬ c.SetsValue name) : Deleted (s.call c).1 name := by
  cases c with
  | set other data alloc =>
    obtain ⟨hframe, heffect⟩ : Frame s (propertyCacheSet s other data alloc).1 other ∧ _ :=
      propertyCacheSet_spec h.distinct data alloc
    rcases eq_or_ne name other with rfl | hne
    · cases data with
      | some bytes => exact absurd rfl hc
      | none => exact of_delete hframe heffect (.inr h) h.keeps
    · exact h.set_other hframe hne
  | _ =>
    exact call_flush (P := fun s => Deleted s name) (fun _ _ hstep h => h.flushStep hstep) h
      (fun _ _ _ => nofun)

theorem run {cs : List Call} (hcs : ∀ c ∈ cs, ¬ c.SetsValue name) : Deleted (s.run cs) name :=
  cs.foldlRecOn (motive := fun s => Deleted s name) _ h fun _ h c hc => h.call (hcs c hc)

end

end Deleted

/-- A deletion of a name of the other set functions shows what NVRAM holds, at once or if it is
repeated. -/
theorem userValue_delete_again {s : Store} (hdistinct : Distinct CacheItem.key s.cache)
    {name : List UInt8} (hsetter : setter name ≠ .set2) {alloc : Nat → Bool}
    (hok : (propertyCacheSet s name none alloc).2 = .ok) :
    (propertyCacheSet s name none alloc).1.userValue name = s.user name ∨
      (propertyCacheSet (propertyCacheSet s name none alloc).1 name none alloc).1.userValue name =
        s.user name := by
  obtain ⟨hframe, heffect⟩ : Frame s (propertyCacheSet s name none alloc).1 name ∧ _ :=
    propertyCacheSet_spec hdistinct none alloc
  rw [hok] at heffect
  cases heffect with
  | dropped item _ hold hnew =>
    exact .inl ((userValue_nvram hnew).trans (congrFun hframe.user name))
  | emptied item item' hset2 => exact absurd hset2 hsetter
  | added _ slot hold hentry =>
    right
    obtain ⟨hframe', heffect'⟩ : Frame (propertyCacheSet s name none alloc).1
        (propertyCacheSet (propertyCacheSet s name none alloc).1 name none alloc).1 name ∧ _ :=
      propertyCacheSet_spec hframe.distinct none alloc
    generalize propertyCacheSet (propertyCacheSet s name none alloc).1 name none alloc = r at *
    obtain ⟨s₂, result⟩ := r
    cases heffect' with
    | dropped item _ hold' hnew' =>
      exact (userValue_nvram hnew').trans (congrFun (hframe'.user.trans hframe.user) name)
    | emptied item item' hset2 => exact absurd hset2 hsetter
    | added _ slot' hold' => cases hentry.symm.trans hold'
    | failed _ hold' => cases hentry.symm.trans hold'

/-- Whatever was set and flushed before: after a successful deletion, and until the name is given a
value again, a get finds no user value, if and only if the name is one of `property_cache_set2` or
NVRAM had no value for it. -/
theorem deleted_iff (user factory : List UInt8 → Option (List UInt8)) (cs : List Call)
    (name : List UInt8) (alloc : Nat → Bool)
    (hok : (propertyCacheSet ((propertyCacheInit user factory).run cs) name none alloc).2 = .ok) :
    (∀ later : List Call, (∀ c ∈ later, ¬ c.SetsValue name) →
      ((propertyCacheSet ((propertyCacheInit user factory).run cs) name none alloc).1.run
        later).userValue
        name = none) ↔
      setter name = .set2 ∨ ((propertyCacheInit user factory).run cs).user name = none := by
  have hdistinct := distinct_run (distinct_init user factory) cs
  generalize (propertyCacheInit user factory).run cs = s at *
  constructor
  · intro hgone
    by_contra hkeeps
    obtain ⟨hsetter, huser⟩ := not_or.mp hkeeps
    rcases userValue_delete_again hdistinct hsetter hok with hshown | hshown
    · exact huser (hshown.symm.trans (hgone [] nofun))
    · refine huser (hshown.symm.trans (hgone [.set name none alloc] ?_))
      rintro c hc
      rw [List.mem_singleton.mp hc]
      exact id
  · intro hkeeps later hlater
    obtain ⟨hframe, heffect⟩ : Frame s (propertyCacheSet s name none alloc).1 name ∧ _ :=
      propertyCacheSet_spec hdistinct none alloc
    exact ((Deleted.of_delete hframe heffect (.inl hok) hkeeps).run hlater).userValue

/-- A value of "BT_CCC" is flushed, set again and deleted: the get returns the flushed value. -/
theorem deleted_ccc_comes_back :
    let s := (propertyCacheInit (fun _ => none) (fun _ => none)).run
      [.set cfgBtCcc (some [1]) (fun _ => true), .flush none (fun _ => true),
        .set cfgBtCcc (some [2]) (fun _ => true)]
    let deleted := propertyCacheSet s cfgBtCcc none (fun _ => true)
    deleted.2 = .ok ∧ deleted.1.userValue cfgBtCcc = some [1] ∧
      propertyCacheGet deleted.1 cfgBtCcc 8 = .ok (1, [1]) := by
  decide +kernel

/-- The same with a name of `property_cache_set2`. -/
theorem deleted_iff_set2 :
    ((propertyCacheSet ((propertyCacheInit (fun _ => none) (fun _ => none)).run
        [.set [0x41] (some [1]) (fun _ => true), .flush none (fun _ => true),
          .set [0x41] (some [2]) (fun _ => true)]) [0x41] none (fun _ => true)).1.run
        [.flush none (fun _ => true)]).userValue [0x41] = none :=
  (deleted_iff (fun _ => none) (fun _ => none) [.set [0x41] (some [1]) (fun _ => true),
    .flush none (fun _ => true), .set [0x41] (some [2]) (fun _ => true)] [0x41] (fun _ => true)
    (by decide +kernel)).mpr (.inl (by decide)) [.flush none
      (fun _ => true)] (by simp [Call.SetsValue])

end SpeakerFirmware.Property
