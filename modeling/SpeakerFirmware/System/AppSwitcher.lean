/-
# The application switcher

`app_switcher.c` holds the list of applications with a flag for each that says whether it
is plugged in, the index of the current application and the index of the last one.
`get_targe_app` looks for the application to switch to in a loop without a bound.

The two indices are both invalid until the first switch, and both valid from then on
(`Valid`). The loop ends if it can come back to the current application, or if it can find
another one; `ends_iff` says when that is.
-/

import SpeakerFirmware.Lib.DoWhile
import SpeakerFirmware.Lib.Runs

namespace SpeakerFirmware.System

open DoWhile Runs Nat

variable {fuel : Nat}

def invalidAppIndex : Nat := 0xFF

/-- `app_switch_mode_e`. -/
inductive SwitchMode where
  | next
  | prev
  | last
  | curr
  deriving DecidableEq, Repr

variable {mode : SwitchMode}

/-- `app_switch_node_t`. -/
structure AppNode where
  appName : List UInt8
  pluged : Bool
  deriving DecidableEq, Repr

/-- `app_switch_ctx_t`. -/
structure AppSwitchCtx where
  locked : UInt8
  forceLocked : UInt8
  curIndex : Nat
  lastIndex : Nat
  appActivedNum : UInt8
  appList : List AppNode
  deriving DecidableEq, Repr

variable {ctx' : AppSwitchCtx}

variable (ctx : AppSwitchCtx)

/-- `app_num`, a byte that is set when the list is. -/
def AppSwitchCtx.appNum : Nat :=
  ctx.appList.length % 256

/-- `app_list[i]`. -/
def AppSwitchCtx.node (i : Nat) : AppNode :=
  ctx.appList.getD i ⟨[], false⟩

def appSwitchInit (appIdSwitchList : List (List UInt8)) : AppSwitchCtx where
  locked := 0
  forceLocked := 0
  curIndex := invalidAppIndex
  lastIndex := invalidAppIndex
  appActivedNum := 0
  appList := appIdSwitchList.map fun appName => ⟨appName, false⟩

/-- `memcmp` of a node's name with another name, over the length of that name. -/
def AppNode.isNamed (node : AppNode) (name : List UInt8) : Bool :=
  name.isPrefixOf node.appName

/-- The node is the one that the caller wants left out. -/
def AppNode.isFiltered (node : AppNode) : Option (List UInt8) → Bool
  | none => false
  | some filter => node.isNamed filter

/-! ## The search -/

/-- The mode and the target at the head of the loop. -/
structure Search where
  mode : SwitchMode
  target : Nat
  deriving DecidableEq, Repr

/-- The target of the next round. -/
def Search.advance (s : Search) : Nat :=
  match s.mode with
  | .next => (s.target + 1) % ctx.appNum
  | .prev => (s.target + ctx.appNum - 1) % ctx.appNum
  | .last => ctx.lastIndex
  | .curr => s.target

/-- The body of the loop of `get_targe_app`. -/
def searchBody (force : Bool) (filter : Option (List UInt8)) (s : Search) : Search ⊕ Nat :=
  let target := s.advance ctx
  if target = ctx.curIndex then .inr target
  else
    let node := ctx.node target
    if node.isFiltered filter then .inl { s with target }
    else if force || node.pluged then .inr target
    else
      -- if last is not plugged, go to prev
      .inl { mode := if s.mode = .last then .prev else s.mode, target }

/-- `get_targe_app`, for at most `fuel` rounds of its loop. -/
def getTargeApp (fuel : Nat) (ctx : AppSwitchCtx) (mode : SwitchMode) (force : Bool)
    (filter : Option (List UInt8)) :
    Option Nat :=
  if ctx.appNum ≤ 1 then some ctx.curIndex
  else loop (searchBody ctx force filter) fuel ⟨mode, ctx.curIndex⟩

/-- The indices at which the first rounds of `get_targe_app` read `app_list`. -/
def reads (fuel : Nat) (ctx : AppSwitchCtx) (mode : SwitchMode) (force : Bool)
    (filter : Option (List UInt8)) :
    List Nat :=
  if ctx.appNum ≤ 1 then []
  else
    ((visits (searchBody ctx force filter) fuel ⟨mode, ctx.curIndex⟩).map
      (Search.advance ctx)).filter
      (· ≠ ctx.curIndex)

/-! ## Switching, plugging and locking -/

/-- The search by name: of several nodes the last one counts. -/
def findApp (name : List UInt8) (force : Bool) (filter : Option (List UInt8)) : Nat :=
  (List.range ctx.appNum).foldl
    (fun found i =>
      let node := ctx.node i
      if node.isFiltered filter then found
      else if node.isNamed name && (node.pluged || force) then i
      else found)
    invalidAppIndex

section

variable (activeApp : List UInt8 → Int) (fuel : Nat) (ctx : AppSwitchCtx)
  (appName : Option (List UInt8)) (mode : SwitchMode) (force : Bool)

/-- The two switching functions: the context and the result, if the search ends. `activeApp` is
`app_manager_active_app`. -/
def switchTo (filter : Option (List UInt8)) : Option (AppSwitchCtx × Int) :=
  if ctx.forceLocked ≠ 0 then some (ctx, 0)
  else if ctx.locked ≠ 0 ∧ ¬ force then some (ctx, 0)
  else
    let found :=
      match appName with
      | some name => some (findApp ctx name force filter)
      | none => getTargeApp fuel ctx mode force filter
    found.map fun target =>
      if target = ctx.curIndex then (ctx, 0xff)
      else if target ≥ ctx.appNum then (ctx, 0xff)
      else
        let lastIndex := if ctx.curIndex ≥ ctx.appNum then target else ctx.curIndex
        ({ ctx with lastIndex, curIndex := target }, activeApp (ctx.node target).appName)

def appSwitch : Option (AppSwitchCtx × Int) :=
  switchTo activeApp fuel ctx appName mode force none

def appSwitchFilter (filter : Option (List UInt8)) :
    Option (AppSwitchCtx × Int) :=
  switchTo activeApp fuel ctx appName mode force filter

end

/-- The node is to be plugged in or out, and is not yet. -/
def AppNode.changes (node : AppNode) (name : List UInt8) (pluged : Bool) : Bool :=
  node.isNamed name && node.pluged != pluged

/-- The loop over the list that sets the flag of the nodes with a name. -/
def AppSwitchCtx.plug (name : List UInt8) (pluged : Bool) : List AppNode :=
  (ctx.appList.take ctx.appNum).map
    (fun node => if node.changes name pluged then { node with pluged } else node) ++
    ctx.appList.drop ctx.appNum

/-- How many flags that changes. -/
def AppSwitchCtx.changeCount (name : List UInt8) (pluged : Bool) : UInt8 :=
  .ofNat ((ctx.appList.take ctx.appNum).countP (AppNode.changes · name pluged))

def appSwitchAddApp (name : List UInt8) : AppSwitchCtx :=
  { ctx with
    appList := ctx.plug name true
    appActivedNum := ctx.appActivedNum + ctx.changeCount name true }

def appSwitchRemoveApp (name : List UInt8) : AppSwitchCtx :=
  { ctx with
    appList := ctx.plug name false
    appActivedNum := ctx.appActivedNum - ctx.changeCount name false }

/-- The calls of the module. -/
inductive Call where
  | switch (appName : Option (List UInt8)) (mode : SwitchMode) (force : Bool)
  | switchFilter (appName : Option (List UInt8)) (mode : SwitchMode) (force : Bool)
      (filter : Option (List UInt8))
  | addApp (name : List UInt8)
  | removeApp (name : List UInt8)
  | lock (reason : UInt8)
  | unlock (reason : UInt8)
  | forceLock (reason : UInt8)
  | forceUnlock (reason : UInt8)

/-- A call that returns. -/
def Step (activeApp : List UInt8 → Int) (ctx : AppSwitchCtx) (call : Call) (ctx' : AppSwitchCtx) :
    Prop :=
  match call with
  | .switch appName mode force => ∃ fuel ret,
      appSwitch activeApp fuel ctx appName mode force = some (ctx', ret)
  | .switchFilter appName mode force filter =>
    ∃ fuel ret, appSwitchFilter activeApp fuel ctx appName mode force filter = some (ctx', ret)
  | .addApp name => ctx' = appSwitchAddApp ctx name
  | .removeApp name => ctx' = appSwitchRemoveApp ctx name
  | .lock reason => ctx' = { ctx with locked := ctx.locked ||| reason }
  | .unlock reason => ctx' = { ctx with locked := ctx.locked &&& ~~~reason }
  | .forceLock reason => ctx' = { ctx with forceLocked := ctx.forceLocked ||| reason }
  | .forceUnlock reason => ctx' = { ctx with forceLocked := ctx.forceLocked &&& ~~~reason }

/-- The application at an index may be switched to. -/
def Acceptable (force : Bool) (filter : Option (List UInt8)) (i : Nat) : Prop :=
  (ctx.node i).isFiltered filter = false ∧ (force = true ∨ (ctx.node i).pluged = true)

instance (ctx : AppSwitchCtx) (force : Bool) (filter : Option (List UInt8)) (i : Nat) :
    Decidable (Acceptable ctx force filter i) :=
  inferInstanceAs (Decidable (_ ∧ _))

/-- The indices are both invalid or both valid. -/
def Valid : Prop :=
  (ctx.curIndex = invalidAppIndex ∧ ctx.lastIndex = invalidAppIndex) ∨
    (ctx.curIndex < ctx.appNum ∧ ctx.lastIndex < ctx.appNum)

/-! ## The calls keep the indices valid -/

theorem appNum_plug (ctx : AppSwitchCtx) (name : List UInt8) (pluged : Bool) :
    (ctx.plug name pluged).length % 256 = ctx.appNum := by
  have hlen : (ctx.plug name pluged).length = ctx.appList.length := by
    rw [AppSwitchCtx.plug, List.length_append, List.length_map, ← List.length_append,
      List.take_append_drop]
  rw [hlen, AppSwitchCtx.appNum]

section

variable {activeApp : List UInt8 → Int} {ctx : AppSwitchCtx} {appName : Option (List UInt8)}
  {force : Bool} {filter : Option (List UInt8)} {ret : Int}

/-- A switch leaves the context or makes a valid index the current one. -/
theorem switchTo_cases
    (h : switchTo activeApp fuel ctx appName mode force filter = some (ctx', ret)) :
    ctx' = ctx ∨ ∃ target, target < ctx.appNum ∧
      ctx' = { ctx with
        lastIndex := if ctx.curIndex ≥ ctx.appNum then target else ctx.curIndex
        curIndex := target } := by
  unfold System.switchTo at h
  split at h
  · cases h
    exact .inl rfl
  · split at h
    · cases h
      exact .inl rfl
    · obtain ⟨target, -, htarget⟩ := Option.map_eq_some_iff.mp h
      split at htarget
      · cases htarget
        exact .inl rfl
      · split at htarget
        · cases htarget
          exact .inl rfl
        · next hlt =>
            cases htarget
            exact .inr ⟨target, not_le.mp hlt, rfl⟩

theorem Valid.switchTo
    (hvalid : Valid ctx)
    (h : switchTo activeApp fuel ctx appName mode force filter = some (ctx', ret)) :
    Valid ctx' := by
  rcases switchTo_cases h with rfl | ⟨target, hlt, rfl⟩
  · exact hvalid
  · refine .inr ⟨hlt, ?_⟩
    change (if ctx.curIndex ≥ ctx.appNum then target else ctx.curIndex) < ctx.appNum
    split
    · exact hlt
    · next hcur => exact not_le.mp hcur

end

theorem Valid.step {activeApp : List UInt8 → Int} {ctx : AppSwitchCtx} {call : Call}
    (hvalid : Valid ctx) (h : Step activeApp ctx call ctx') : Valid ctx' := by
  cases call with
  | switch appName mode force =>
    obtain ⟨fuel, ret, h⟩ := h
    exact hvalid.switchTo h
  | switchFilter appName mode force filter =>
    obtain ⟨fuel, ret, h⟩ := h
    exact hvalid.switchTo h
  | addApp name | removeApp name =>
    subst h
    have hnum := appNum_plug ctx name
    refine hvalid.imp id fun hlt => ?_
    change _ < (ctx.plug name _).length % 256 ∧ _ < (ctx.plug name _).length % 256
    rw [hnum]
    exact hlt
  | lock reason | unlock reason | forceLock reason | forceUnlock reason =>
    subst h
    exact hvalid

/-- The indices are valid after every history of calls. -/
theorem Valid.of_run {activeApp : List UInt8 → Int} {names : List (List UInt8)} {calls : List Call}
    {ctx : AppSwitchCtx} (run : Run (Step activeApp) (appSwitchInit names) calls ctx) : Valid ctx :=
  run.invariant (fun _ ctx => Valid ctx) (.inl ⟨rfl, rfl⟩) fun _ _ _ _ hvalid h => hvalid.step h

/-! ## When the search ends -/

section

variable {ctx : AppSwitchCtx} {force : Bool} {filter : Option (List UInt8)}

/-- A round breaks at the current application and at one that may be switched to. -/
theorem searchBody_eq (s : Search) :
    searchBody ctx force filter s =
      if s.advance ctx = ctx.curIndex ∨ Acceptable ctx force filter (s.advance ctx)
        then .inr (s.advance ctx)
      else .inl {
        mode := if s.mode = .last ∧ (ctx.node (s.advance ctx)).isFiltered filter = false then .prev
          else s.mode
        target := s.advance ctx } := by
  unfold searchBody Acceptable
  dsimp only
  by_cases hcur : s.advance ctx = ctx.curIndex
  · simp [hcur]
  · by_cases hfilter : (ctx.node (s.advance ctx)).isFiltered filter = true
    · simp [hcur, hfilter]
    · by_cases hok : (force || (ctx.node (s.advance ctx)).pluged) = true
      · simp [hcur, hfilter, ← Bool.or_eq_true, hok]
      · simp [hcur, hfilter, ← Bool.or_eq_true, hok]

/-- How far a mode goes in the circle of the indices. -/
def stride (ctx : AppSwitchCtx) : SwitchMode → Nat
  | .prev => ctx.appNum - 1
  | _ => 1

/-- A mode that goes round. -/
def SwitchMode.Circular (mode : SwitchMode) : Prop :=
  mode = .next ∨ mode = .prev

section

variable (hmode : mode.Circular) (hnum : 1 < ctx.appNum)
include hmode hnum

theorem advance_eq (target : Nat) :
    Search.advance ctx ⟨mode, target⟩ = (target + stride ctx mode) % ctx.appNum := by
  rcases hmode with rfl | rfl
  · rfl
  · rw [Search.advance, stride, Nat.add_sub_assoc (by omega)]

/-- Going round, the search comes to every index. -/
theorem exists_round (start : Nat) {i : Nat}
    (hi : i < ctx.appNum) : ∃ k, (start + (k + 1) * stride ctx mode) % ctx.appNum = i := by
  rcases hmode with rfl | rfl
  · have hle : start + 1 ≤ ctx.appNum * (start + 1) := Nat.le_mul_of_pos_left _ (by omega)
    refine ⟨i + ctx.appNum * (start + 1) - (start + 1), ?_⟩
    have hsum : start + (i + ctx.appNum * (start + 1) - (start + 1) + 1) * stride ctx .next =
        i + ctx.appNum * (start + 1) := by
      change start + (i + ctx.appNum * (start + 1) - (start + 1) + 1) * 1 = _
      omega
    rw [hsum, Nat.add_mul_mod_self_left, Nat.mod_eq_of_lt hi]
  · obtain ⟨m, hm⟩ := Nat.exists_eq_add_of_le (show i + 1 ≤ start + ctx.appNum by omega)
    refine ⟨m, ?_⟩
    have hsum : start + (m + 1) * (ctx.appNum - 1) = i + ctx.appNum * m := by
      obtain ⟨n, hn⟩ := Nat.exists_eq_add_of_le' (show 1 ≤ ctx.appNum by omega)
      rw [hn] at hm ⊢
      rw [Nat.add_sub_cancel, Nat.add_mul, Nat.add_mul, Nat.mul_comm m n]
      omega
    rw [stride, hsum, add_mul_mod_self_left, mod_eq_of_lt hi]

/-- Going round, the search ends at the current application if there is one, and otherwise only at
one that may be switched to. -/
theorem circular_ends_iff (start : Nat) :
    (∃ r, Ends (searchBody ctx force filter) ⟨mode, start⟩ r) ↔
      ctx.curIndex < ctx.appNum ∨ ∃ i, i < ctx.appNum ∧ Acceptable ctx force filter i := by
  have hlast : mode ≠ .last := by rcases hmode with rfl | rfl <;> decide
  constructor
  · rintro ⟨r, hends⟩
    by_contra hnone
    obtain ⟨hcur, hacc⟩ := not_or.mp hnone
    have hagain : ∀ s : Search, s.mode = mode → ∃ s', searchBody ctx force filter s = .inl s' ∧
        s'.mode = mode := by
      rintro ⟨mode', target⟩ (rfl : mode' = mode)
      have hlt : Search.advance ctx ⟨mode', target⟩ < ctx.appNum := by
        rw [advance_eq hmode hnum]
        exact mod_lt _ (by omega)
      have hstop : ¬ (Search.advance ctx ⟨mode', target⟩ = ctx.curIndex ∨
          Acceptable ctx force filter (Search.advance ctx ⟨mode', target⟩)) := by
        rintro (heq | hok)
        · exact hcur (heq ▸ hlt)
        · exact hacc ⟨_, hlt, hok⟩
      rw [searchBody_eq, if_neg hstop]
      exact ⟨_, rfl, if_neg fun h => hlast h.1⟩
    exact @not_ends _ _ _ _ r (fun s => s.mode = mode) rfl hagain hends
  · intro hex
    obtain ⟨i, hi, hstop⟩ : ∃ i, i < ctx.appNum ∧
        (i = ctx.curIndex ∨ Acceptable ctx force filter i) := by
      rcases hex with hcur | ⟨i, hi, hok⟩
      · exact ⟨_, hcur, .inl rfl⟩
      · exact ⟨i, hi, .inr hok⟩
    -- the states at the head of the loop, as long as it goes on
    let states : Nat → Search := fun k =>
      ⟨mode, if k = 0 then start else (start + k * stride ctx mode) % ctx.appNum⟩
    have hadvance : ∀ k,
        (states k).advance ctx = (start + (k + 1) * stride ctx mode) % ctx.appNum := by
      intro k
      rw [advance_eq hmode hnum]
      split
      · next hzero => rw [hzero, Nat.zero_add, Nat.one_mul]
      · rw [Nat.mod_add_mod, Nat.add_mul, Nat.one_mul, Nat.add_assoc]
    obtain ⟨k, hk⟩ := exists_round hmode hnum start hi
    refine ends_of_states states (n := k) (fun j s' hbody => ?_) ?_
    · rw [searchBody_eq, hadvance] at hbody
      split at hbody
      · cases hbody
      · cases hbody
        simp [states, hlast]
    · refine ⟨i, ?_⟩
      rw [searchBody_eq, hadvance, hk, if_pos hstop]

end

/-- When the search ends. Going round it needs a current application or one that may be switched to,
and going to the last application it needs that one not to be filtered. -/
def Ending (ctx : AppSwitchCtx) (mode : SwitchMode) (force : Bool) (filter : Option (List UInt8)) :
    Prop :=
  ctx.appNum ≤ 1 ∨
    match mode with
    | .next | .prev => ctx.curIndex < ctx.appNum ∨ ∃ i, i < ctx.appNum ∧
        Acceptable ctx force filter i
    | .last => ctx.lastIndex = ctx.curIndex ∨ (ctx.node ctx.lastIndex).isFiltered filter = false
    | .curr => True

/-- In mode `last` the first round leads to the last application; if that one is filtered, so do all
the others. -/
theorem last_ends_iff (hvalid : Valid ctx) (hnum : 1 < ctx.appNum) :
    (∃ r, Ends (searchBody ctx force filter) ⟨.last, ctx.curIndex⟩ r) ↔
      ctx.lastIndex = ctx.curIndex ∨ (ctx.node ctx.lastIndex).isFiltered filter = false := by
  have hadvance : ∀ target, Search.advance ctx ⟨.last, target⟩ = ctx.lastIndex := fun _ => rfl
  constructor
  · rintro ⟨r, hends⟩
    by_contra hnone
    obtain ⟨hcur, hfilter⟩ := not_or.mp hnone
    have hagain : ∀ s : Search, s.mode = .last →
        ∃ s', searchBody ctx force filter s = .inl s' ∧ s'.mode = .last := by
      rintro ⟨mode, target⟩ (rfl : mode = .last)
      rw [searchBody_eq, hadvance, if_neg (not_or.mpr ⟨hcur, fun hok => hfilter hok.1⟩)]
      exact ⟨_, rfl, if_neg fun h => hfilter h.2⟩
    exact @not_ends _ _ _ _ r (fun s => s.mode = .last) rfl hagain hends
  · intro hex
    by_cases hstop : ctx.lastIndex = ctx.curIndex ∨ Acceptable ctx force filter ctx.lastIndex
    · exact ⟨_, .of_break (by rw [searchBody_eq, hadvance, if_pos hstop])⟩
    · obtain ⟨hcur, -⟩ := not_or.mp hstop
      have hfilter := hex.resolve_left hcur
      have hlt : ctx.curIndex < ctx.appNum := by
        rcases hvalid with ⟨hinvalid, hinvalid'⟩ | ⟨hlt, -⟩
        · exact absurd (hinvalid'.trans hinvalid.symm) hcur
        · exact hlt
      have hprev : ∃ r, Ends (searchBody ctx force filter) ⟨.prev, ctx.lastIndex⟩ r :=
        (circular_ends_iff (.inr rfl) hnum _).mpr (.inl hlt)
      obtain ⟨r, hends⟩ := hprev
      refine ⟨r, hends.of_again ?_⟩
      rw [searchBody_eq, hadvance, if_neg hstop, if_pos ⟨rfl, hfilter⟩]

/-- What every round keeps: mode `curr` stays at the current application. -/
def OnCourse (ctx : AppSwitchCtx) (s : Search) : Prop :=
  s.mode = .curr → s.target = ctx.curIndex

/-- No round leads out of the list. -/
theorem OnCourse.advance_lt {s : Search} (h : OnCourse ctx s) (hvalid : Valid ctx)
    (hnum : 1 < ctx.appNum) (hne : s.advance ctx ≠ ctx.curIndex) : s.advance ctx < ctx.appNum := by
  obtain ⟨mode, target⟩ := s
  cases mode with
  | next => exact mod_lt _ (by omega)
  | prev => exact mod_lt _ (by omega)
  | last =>
    rcases hvalid with ⟨hinvalid, hinvalid'⟩ | ⟨-, hlt⟩
    · exact absurd (hinvalid'.trans hinvalid.symm) hne
    · exact hlt
  | curr => exact absurd (h rfl) hne

theorem OnCourse.again {s s' : Search} (h : OnCourse ctx s)
    (hbody : searchBody ctx force filter s = .inl s') :
    OnCourse ctx s' := by
  rw [searchBody_eq] at hbody
  split at hbody
  · cases hbody
  · next hstop =>
      cases hbody
      obtain ⟨mode, target⟩ := s
      intro hmode
      cases mode with
      | curr => exact absurd (.inl (h rfl)) hstop
      | next | prev | last =>
        dsimp only at hmode
        split at hmode <;> simp_all

theorem getTargeApp_ends_iff (hvalid : Valid ctx) (mode : SwitchMode) :
    (∃ fuel target, getTargeApp fuel ctx mode force filter = some target) ↔
      Ending ctx mode force filter := by
  unfold getTargeApp Ending
  by_cases hnum : ctx.appNum ≤ 1
  · simp [hnum]
  · have hmore : 1 < ctx.appNum := not_le.mp hnum
    simp only [hnum, if_false, false_or]
    rw [exists_comm]
    cases mode with
    | next => exact circular_ends_iff (.inl rfl) hmore _
    | prev => exact circular_ends_iff (.inr rfl) hmore _
    | last => exact last_ends_iff hvalid hmore
    | curr =>
      refine iff_true_intro ⟨ctx.curIndex, Ends.of_break ?_⟩
      rw [searchBody_eq]
      exact if_pos (.inl rfl)

/-- The application that `get_targe_app` returns is the current one or may be switched to. -/
theorem getTargeApp_target (hvalid : Valid ctx) {target : Nat}
    (h : getTargeApp fuel ctx mode force filter = some target) :
    target = ctx.curIndex ∨ target < ctx.appNum ∧ Acceptable ctx force filter target := by
  unfold getTargeApp at h
  split at h
  · cases h
    exact .inl rfl
  · next hnum =>
      have hends : Ends (searchBody ctx force filter) ⟨mode, ctx.curIndex⟩ target := ⟨fuel, h⟩
      refine hends.post (OnCourse ctx)
        (fun r => r = ctx.curIndex ∨ r < ctx.appNum ∧ Acceptable ctx force filter r)
        (fun _ => rfl) (fun _ _ hs => hs.again) ?_
      intro s r hs hbody
      rw [searchBody_eq] at hbody
      split at hbody
      · next hstop =>
          cases hbody
          by_cases hcur : s.advance ctx = ctx.curIndex
          · exact .inl hcur
          · exact .inr ⟨hs.advance_lt hvalid (not_le.mp hnum) hcur, hstop.resolve_left hcur⟩
      · cases hbody

/-- `get_targe_app` reads inside the list, whether it ends or not. -/
theorem reads_lt (hvalid : Valid ctx) (mode : SwitchMode) (fuel : Nat) :
    ∀ i ∈ reads fuel ctx mode force filter, i < ctx.appNum := by
  intro i hmem
  unfold reads at hmem
  split at hmem
  · exact absurd hmem List.not_mem_nil
  · next hnum =>
      obtain ⟨hmem, hne⟩ := List.mem_filter.mp hmem
      obtain ⟨s, hs, rfl⟩ := List.mem_map.mp hmem
      have hcourse : OnCourse ctx s :=
        visits_invariant (show OnCourse ctx ⟨mode, ctx.curIndex⟩ from fun _ => rfl)
          (fun _ _ h => h.again) fuel s hs
      exact hcourse.advance_lt hvalid (not_le.mp hnum) (of_decide_eq_true hne)

end

/-- `get_targe_app` returns, with the current application or with one that is plugged in, or that
the switch is forced to, and that is not filtered; and it reads no node behind the end of the
list. -/
def FindsTarget (ctx : AppSwitchCtx) (mode : SwitchMode) (force : Bool)
    (filter : Option (List UInt8)) : Prop :=
  (∃ fuel target, getTargeApp fuel ctx mode force filter = some target ∧
      (target = ctx.curIndex ∨ target < ctx.appNum ∧ Acceptable ctx force filter target)) ∧
    ∀ fuel, ∀ i ∈ reads fuel ctx mode force filter, i < ctx.appNum

/-- After every history of calls, `get_targe_app` finds its target exactly if its search ends. -/
theorem finds_target_iff {activeApp : List UInt8 → Int} {names : List (List UInt8)}
    {calls : List Call}
    {ctx : AppSwitchCtx} (run : Run (Step activeApp) (appSwitchInit names) calls ctx)
    (mode : SwitchMode) (force : Bool) (filter : Option (List UInt8)) :
    FindsTarget ctx mode force filter ↔ Ending ctx mode force filter := by
  have hvalid := Valid.of_run run
  rw [← getTargeApp_ends_iff hvalid]
  constructor
  · rintro ⟨⟨fuel, target, h, -⟩, -⟩
    exact ⟨fuel, target, h⟩
  · rintro ⟨fuel, target, h⟩
    exact ⟨⟨fuel, target, h, getTargeApp_target hvalid h⟩, fun fuel => reads_lt hvalid mode fuel⟩

/-- Two applications, the first one plugged in. -/
theorem finds_target_iff_plugged :
    let ctx := appSwitchAddApp (appSwitchInit [[1], [2]]) [1]
    Run (Step fun _ => 0) (appSwitchInit [[1], [2]]) [.addApp [1]] ctx ∧
      FindsTarget ctx .next false none := by
  have run : Run (Step fun _ => 0) (appSwitchInit [[1], [2]]) [.addApp [1]]
      (appSwitchAddApp (appSwitchInit [[1], [2]]) [1]) := .snoc .nil rfl
  exact ⟨run, (finds_target_iff run .next false none).mpr (.inr (.inr ⟨0, by decide, by decide⟩))⟩

/-- With no application plugged in, the first switch to the next one never returns. Nor does a
switch back to the last application if that is the one to leave out. -/
theorem get_targe_app_never_returns :
    (∀ fuel, getTargeApp fuel (appSwitchInit [[1], [2]]) .next false none = none) ∧
      ∃ calls ctx, Run (Step fun _ => 0) (appSwitchInit [[1], [2]]) calls ctx ∧
        ∀ fuel, getTargeApp fuel ctx .last false (some [1]) = none := by
  have hnone : ∀ {ctx : AppSwitchCtx} {mode : SwitchMode} {filter : Option (List UInt8)},
      Valid ctx →
      ¬ Ending ctx mode false filter → ∀ fuel, getTargeApp fuel ctx mode false filter = none := by
    intro ctx mode filter hvalid hlost fuel
    rw [Option.eq_none_iff_forall_ne_some]
    exact fun target h => hlost ((getTargeApp_ends_iff hvalid mode).mp ⟨fuel, target, h⟩)
  constructor
  · refine hnone (.inl ⟨rfl, rfl⟩) ?_
    rintro (hfew | hcur | ⟨i, hi, hok⟩)
    · exact absurd hfew (by decide)
    · exact absurd hcur (by decide)
    · have hlost : ∀ i, i < 2 → ¬ Acceptable (appSwitchInit [[1], [2]]) false none i := by decide
      exact hlost i hi hok
  · let calls : List Call :=
      [.addApp [1], .addApp [2], .switch (some [1]) .curr false, .switch (some [2]) .curr false]
    let ctx : AppSwitchCtx :=
      { appSwitchAddApp (appSwitchAddApp (appSwitchInit [[1], [2]]) [1]) [2]
        with curIndex := 1, lastIndex := 0 }
    have run : Run (Step fun _ => 0) (appSwitchInit [[1], [2]]) calls ctx :=
      .snoc (.snoc (.snoc (.snoc .nil rfl) rfl) ⟨0, 0, rfl⟩) ⟨0, 0, rfl⟩
    refine ⟨calls, ctx, run, hnone (.of_run run) ?_⟩
    rintro (hfew | hcur | hkept)
    · exact absurd hfew (by decide)
    · exact absurd hcur (by decide)
    · exact absurd hkept (by decide)

end SpeakerFirmware.System
