/-
# Who holds a voice prompt

Every item of the queue has one holder: the list, `tts_curr`, a call that waits for the front
application, or a call that has it in a local variable. `Books m hand owed` says so for the
middle of an operation: `hand` are the items in local variables, and `owed` are the items
that the listener has to hear a stop of although they no longer play. The operations of the
manager are chains of small ones, and there is one rule for each of those.

Between two operations nothing is in hand and nothing is owed. Three paths of
`tts_manager_play_process` do not come back to that: one drops the item, one drops the stop
event, and one uses the item after `_tts_remove_current_node` has freed it.
-/

import SpeakerFirmware.System.TtsManager

namespace SpeakerFirmware.System.Tts

open Ownership
open List

namespace Manager

variable {m : Manager} {item : Nat} {hand owed : List Nat}

/-! ## The books in the middle of an operation -/

structure Books (m : Manager) (hand owed : List Nat) : Prop where
  num : m.ttsItemNum = m.ttsList.length
  num_le : m.ttsItemNum ≤ 3
  owns : Owns m.heap (hand ++ (m.ttsList ++ m.playing))
  noStale : m.heap.stale = []
  balanced : m.lisener → ∀ i,
    m.heard.count (i, .startPlay) = m.heard.count (i, .stopPlay) + (owed ++ m.playing).count i

theorem accounted_iff_books : m.Accounted ↔ Books m [] [] :=
  ⟨fun h => ⟨h.num, h.num_le, h.owns, h.noStale, h.balanced⟩,
    fun h => ⟨h.num, h.num_le, h.owns, h.noStale, h.balanced⟩⟩

/-- What is in hand cannot be forgotten. -/
theorem Books.not_of_hand {owed' : List Nat} (h : Books m (item :: hand) owed) :
    ¬ Books m [] owed' := by
  intro h'
  have hcount := h.owns item
  have hcount' := h'.owns item
  simp only [cons_append, count_cons_self, count_append, nil_append]
    at hcount hcount'
  omega

/-- Nor can a stop that is owed to a listener. -/
theorem Books.not_of_owed {hand' : List Nat} (h : Books m hand (item :: owed))
    (hlisener : m.lisener) :
    ¬ Books m hand' [] := by
  intro h'
  have hcount := h.balanced hlisener item
  have hcount' := h'.balanced hlisener item
  simp only [cons_append, count_cons_self, count_append, nil_append]
    at hcount hcount'
  omega

theorem Books.not_mem_freed (h : Books m hand owed) (hitem : item ∈ hand) : item ∉ m.heap.freed :=
  h.owns.not_mem_freed (mem_append_left _ hitem)

theorem count_heard (heard : List (Nat × TtsEvent)) (item i : Nat) (event e : TtsEvent) :
    (heard ++ [(item, event)]).count (i, e) =
      heard.count (i, e) + if item = i ∧ event = e then 1 else 0 := by
  rw [count_append, count_singleton]
  simp only [beq_iff_eq, Prod.mk.injEq]

theorem Books.swap {first second : Nat}
    (h : Books m (first :: second :: hand) (first :: second :: owed)) :
    Books m (second :: first :: hand) (second :: first :: owed) := by
  refine ⟨h.num, h.num_le, h.owns.of_count fun ref => ?_, h.noStale, fun hlisener i => ?_⟩
  · exact (List.Perm.swap first second _).count_eq ref
  · rw [h.balanced hlisener i]
    exact congrArg _ ((List.Perm.swap second first _).count_eq i)

/-! ## One rule for each small operation -/

section

variable (h : Books m hand owed)
include h

theorem Books.eventNodify (event : TtsEvent) : Books (m.eventNodify event) hand owed :=
  ⟨h.num, h.num_le, h.owns, h.noStale, h.balanced⟩

theorem Books.lock : Books m.lock hand owed :=
  ⟨h.num, h.num_le, h.owns, h.noStale, h.balanced⟩

theorem Books.unlock : Books m.unlock hand owed := by
  rw [Manager.unlock]
  split
  · exact ⟨h.num, h.num_le, h.owns, h.noStale, h.balanced⟩
  · exact h

theorem Books.touch (hlive : item ∉ m.heap.freed) :
    Books { m with heap := m.heap.touch item } hand owed :=
  ⟨h.num, h.num_le, h.owns.touch item, (Heap.stale_touch hlive).trans h.noStale, h.balanced⟩

theorem Books.update (hlive : item ∉ m.heap.freed) (f : TtsItem → TtsItem) :
    Books (m.update item f) hand owed :=
  ⟨h.num, h.num_le, (h.owns.touch item).modify item f, (Heap.stale_touch hlive).trans h.noStale,
    h.balanced⟩

/-- The listener hears of an event, and what is owed to it changes with that. -/
theorem Books.hear {event : TtsEvent} {owed' : List Nat} (hlive : item ∉ m.heap.freed)
    (howed : ∀ i, owed.count i + (if item = i ∧ event = .startPlay then 1 else 0) =
      owed'.count i + if item = i ∧ event = .stopPlay then 1 else 0) :
    Books (m.callLisener item event) hand owed' := by
  rw [callLisener]
  split
  · refine ⟨h.num, h.num_le, h.owns.touch item, (Heap.stale_touch hlive).trans h.noStale, ?_⟩
    intro hlisener i
    have hbalanced := h.balanced hlisener i
    have hi := howed i
    change _ = _ + (_ ++ m.playing).count i
    rw [count_append] at hbalanced
    rw [count_heard, count_heard, count_append]
    omega
  · rename_i hnone
    exact ⟨h.num, h.num_le, h.owns, h.noStale, fun hlisener => absurd hlisener hnone⟩

/-- The listener hears of a start. -/
theorem Books.hearStart (hlive : item ∉ m.heap.freed) :
    Books (m.callLisener item .startPlay) hand (item :: owed) :=
  h.hear hlive fun i => by simp [count_cons]

/-- Items go from hand to the player or back, and the stops that are owed with them. -/
theorem Books.hold {ttsCurr : Option Nat} {starting hand' owed' : List Nat}
    (hcount : ∀ i, (ttsCurr.toList ++ starting).count i + hand'.count i =
      m.playing.count i + hand.count i ∧
      (ttsCurr.toList ++ starting).count i + owed'.count i = m.playing.count i + owed.count i) :
    Books { m with ttsCurr, starting } hand' owed' := by
  refine ⟨h.num, h.num_le, h.owns.of_count fun ref => ?_, h.noStale, fun hlisener i => ?_⟩
  · have hi := (hcount ref).1
    simp only [playing, count_append] at hi ⊢
    omega
  · have hbalanced := h.balanced hlisener i
    have hi := (hcount i).2
    simp only [playing, count_append] at hbalanced hi ⊢
    omega

end

/-- The listener hears a stop that is owed. -/
theorem Books.hearStop (h : Books m hand (item :: owed)) (hlive : item ∉ m.heap.freed) :
    Books (m.callLisener item .stopPlay) hand owed :=
  h.hear hlive fun i => by simp [count_cons]

theorem Books.memFree (h : Books m (item :: hand) owed) : Books (m.memFree item) hand owed :=
  ⟨h.num, h.num_le, h.owns.free, h.noStale, h.balanced⟩

/-- The first item of the list is taken in hand. -/
theorem Books.takeHead {head : Nat} {rest : List Nat} (h : Books m hand owed)
    (hlist : m.ttsList = head :: rest) :
    Books { m with ttsList := rest, ttsItemNum := (m.ttsItemNum + 255) % 256 }
      (head :: hand) owed := by
  have hnum := h.num
  have hle := h.num_le
  rw [hlist, length_cons] at hnum
  refine ⟨by dsimp only; omega, by dsimp only; omega, ?_, h.noStale, h.balanced⟩
  refine h.owns.of_count fun ref => ?_
  change (head :: hand ++ (rest ++ m.playing)).count ref = _
  simp only [hlist, count_append, cons_append, count_cons]
  omega

/-- The current item is taken in hand. -/
theorem Books.clearCurr (h : Books m hand owed) (hcurr : m.ttsCurr = some item) :
    Books { m with ttsCurr := none } (item :: hand) (item :: owed) :=
  h.hold fun i => by
    simp only [playing, hcurr, count_append, count_cons, Option.toList_some, Option.toList_none,
      count_nil]
    omega

/-- The item in hand becomes the current one. -/
theorem Books.setCurr (h : Books m (item :: hand) (item :: owed)) (hcurr : m.ttsCurr = none) :
    Books { m with ttsCurr := some item } hand owed :=
  h.hold fun i => by
    simp only [playing, hcurr, count_append, count_cons, Option.toList_some, Option.toList_none,
      count_nil]
    omega

/-- The call waits with the item in hand. -/
theorem Books.wait (h : Books m (item :: hand) (item :: owed)) :
    Books { m with starting := m.starting ++ [item] } hand owed :=
  h.hold fun i => by
    simp only [playing, count_append, count_cons, count_nil]
    omega

/-- The call goes on. -/
theorem Books.resume (h : Books m hand owed) (hitem : item ∈ m.starting) :
    Books { m with starting := m.starting.erase item } (item :: hand) (item :: owed) :=
  h.hold fun i => by
    have hcount := (perm_cons_erase hitem).count_eq i
    simp only [playing, count_append, count_cons] at hcount ⊢
    omega

/-! ## The operations -/

/-- `_tts_remove_current_node` closes the books of the current item. -/
theorem Books.removeCurrentNode (h : Books m hand owed) : Books m.removeCurrentNode hand owed := by
  rw [Manager.removeCurrentNode]
  cases hcurr : m.ttsCurr with
  | none => exact h
  | some item =>
    have hlive : item ∉ m.heap.freed := (h.clearCurr hcurr).not_mem_freed mem_cons_self
    have hclosed := (h.update hlive fun i => { i with playerHandle := false, ttsStream := false })
    have htold := (hclosed.clearCurr hcurr).hearStop hlive
    refine Books.memFree ?_
    dsimp only
    split
    · exact htold
    · split
      · exact ((htold.eventNodify _).eventNodify _).lock
      · exact htold.eventNodify _

theorem mem_freed_removeCurrentNode (hcurr : m.ttsCurr = some item) :
    item ∈ m.removeCurrentNode.heap.freed := by
  simp only [Manager.removeCurrentNode, hcurr]
  exact mem_append_right _ (mem_singleton_self item)

theorem lisener_callLisener (m : Manager) (item : Nat) (event : TtsEvent) :
    (m.callLisener item event).lisener = m.lisener := by
  rw [callLisener]
  split <;> rfl

theorem ttsCurr_callLisener (event : TtsEvent) :
    (m.callLisener item event).ttsCurr = m.ttsCurr := by
  rw [callLisener]
  split <;> rfl

theorem lisener_removeCurrentNode : m.removeCurrentNode.lisener = m.lisener := by
  rw [Manager.removeCurrentNode]
  cases m.ttsCurr with
  | none => rfl
  | some item =>
    have htold := lisener_callLisener { m.update item fun i =>
      { i with playerHandle := false, ttsStream := false } with ttsCurr := none } item .stopPlay
    change Manager.lisener (ite _ _ _) = m.lisener
    split
    · exact htold
    · change Manager.lisener (ite _ _ _) = m.lisener
      split <;> exact htold

/-- The item in hand takes the place of the current one. -/
theorem Books.replaceCurr (h : Books m (item :: hand) (item :: owed)) :
    Books { m with ttsCurr := some item } (m.ttsCurr.toList ++ hand)
      (m.ttsCurr.toList ++ owed) := by
  cases hcurr : m.ttsCurr with
  | none => exact h.setCurr hcurr
  | some other =>
    have hboth := (h.clearCurr hcurr).swap
    exact hboth.setCurr rfl

/-- `_tts_start_play` opens the player, or fails with nobody listening. -/
theorem Books.startPlay {opened : Bool} (h : Books m (item :: hand) (item :: owed))
    (hok : m.lisener → opened) :
    Books (m.startPlay item opened).2 (m.ttsCurr.toList ++ hand) (m.ttsCurr.toList ++ owed) := by
  have hlive := h.not_mem_freed mem_cons_self
  have hcurrent := (h.update hlive fun i =>
    { i with ttsStream := true, playerHandle := opened }).replaceCurr
  rw [Manager.startPlay]
  cases opened with
  | true => exact hcurrent
  | false =>
    have hremoved := hcurrent.removeCurrentNode.eventNodify .stopPlay
    rw [if_neg Bool.false_ne_true, callLisener, if_neg]
    · exact hremoved
    · intro hlisener
      change (Manager.removeCurrentNode _).lisener = true at hlisener
      rw [lisener_removeCurrentNode] at hlisener
      exact Bool.false_ne_true (hok hlisener)

/-- When the player does not open, the listener is given an item that is already freed. -/
theorem stale_startPlay (hlisener : m.lisener) : (m.startPlay item false).2.heap.stale ≠ [] := by
  rw [Manager.startPlay, if_neg Bool.false_ne_true, callLisener, if_pos]
  · exact Heap.stale_touch_ne_nil (mem_freed_removeCurrentNode rfl)
  · exact lisener_removeCurrentNode.trans hlisener

theorem accounted_replied {opened : Bool} (h : m.Accounted) :
    (m.replied item opened).2.Accounted ↔
      (item ∈ m.starting → m.ttsCurr = none ∧ (m.lisener → opened)) := by
  rw [accounted_iff_books] at h ⊢
  rw [replied]
  by_cases hitem : item ∈ m.starting
  · rw [if_pos hitem]
    have hresumed := h.resume hitem
    constructor
    · rintro hbooks -
      have hok : m.lisener → opened := by
        intro hlisener
        cases opened with
        | true => rfl
        | false => exact absurd hbooks.noStale (stale_startPlay hlisener)
      refine ⟨?_, hok⟩
      have hafter := hresumed.startPlay hok
      cases hcurr : m.ttsCurr with
      | none => rfl
      | some other =>
        simp only [hcurr, Option.toList_some, cons_append] at hafter
        exact absurd hbooks hafter.not_of_hand
    · intro hok
      obtain ⟨hcurr, hopened⟩ := hok hitem
      have hafter := hresumed.startPlay hopened
      simpa only [hcurr, Option.toList_none, nil_append] using hafter
  · rw [if_neg hitem]
    exact ⟨fun _ hin => absurd hin hitem, fun _ => h⟩

/-- With the item in hand and its start told, the books are right in the end if and only if
nothing fails. -/
theorem books_startItem {mix : Bool} (env : Env) (h : Books m [item] [item])
    (hcurr : m.ttsCurr = none) :
    Books (m.startItem env item mix).2 [] [] ↔
      if mix then env.mergeRunning = false
      else m.lisener → env.streamCreated ∧ (env.sent ∨ env.opened) := by
  obtain ⟨mixable, streamCreated, sent, opened, mergeRunning⟩ := env
  cases mix with
  | true =>
    rw [startItem, if_pos rfl, if_pos rfl]
    cases mergeRunning with
    | true => exact ⟨fun hbooks => absurd hbooks h.not_of_hand, fun hno => (by cases hno)⟩
    | false => exact ⟨fun _ => rfl, fun _ => h.setCurr hcurr⟩
  | false =>
    rw [startItem, if_neg Bool.false_ne_true, if_neg Bool.false_ne_true]
    cases streamCreated with
    | false =>
      have hfreed := h.memFree
      refine ⟨fun hbooks hlisener => absurd hbooks (hfreed.not_of_owed hlisener), fun hok => ?_⟩
      have hnobody : ¬ m.lisener := fun hlisener => Bool.false_ne_true (hok hlisener).1
      exact ⟨hfreed.num, hfreed.num_le, hfreed.owns, hfreed.noStale,
        fun hlisener => absurd hlisener hnobody⟩
    | true =>
      cases sent with
      | true => exact ⟨fun _ _ => ⟨rfl, .inl rfl⟩, fun _ => (h.eventNodify _).wait⟩
      | false =>
        constructor
        · intro hbooks hlisener
          refine ⟨rfl, .inr ?_⟩
          cases opened with
          | true => rfl
          | false => exact absurd hbooks.noStale (stale_startPlay hlisener)
        · intro hok
          have hafter := h.startPlay fun hlisener =>
            (hok hlisener).2.resolve_left Bool.false_ne_true
          rwa [hcurr] at hafter

theorem accounted_playProcess (env : Env) (h : m.Accounted) :
    (m.playProcess env).2.Accounted ↔ m.Regular (.playProcess env) := by
  rw [accounted_iff_books] at h ⊢
  rw [Regular]
  cases hlist : m.ttsList with
  | nil => simpa [playProcess, hlist] using h
  | cons head rest =>
    by_cases hbusy : m.ttsCurr.isSome || m.ttsManagerLocked != 0
    · simp only [playProcess, hlist, if_pos hbusy]
      refine ⟨fun _ other rest' _ hcurr hlocked => ?_, fun _ => h⟩
      simp [hcurr, hlocked] at hbusy
    · obtain ⟨hcurr, hlocked⟩ : m.ttsCurr = none ∧ m.ttsManagerLocked = 0 := by
        simpa using hbusy
      have hheard := (h.takeHead hlist).hearStart
        ((h.takeHead hlist).not_mem_freed mem_cons_self)
      have htold := hheard.update (hheard.not_mem_freed mem_cons_self)
        fun i => { i with ttsMixMode := m.mixes env head }
      simp only [playProcess, hlist, if_neg hbusy]
      rw [books_startItem env htold ((ttsCurr_callLisener _).trans hcurr)]
      simp [hcurr, hlocked, Manager.update, lisener_callLisener]

section

variable (h : Books m [] [])
include h

theorem Books.makeRoom : Books m.makeRoom [] [] ∧ m.makeRoom.ttsItemNum ≤ 2 := by
  rw [Manager.makeRoom]
  have hnum := h.num
  have hle := h.num_le
  split
  · rename_i hfull
    cases hlist : m.ttsList with
    | nil =>
      rw [hlist, length_nil] at hnum
      omega
    | cons head rest =>
      have htaken := h.takeHead hlist
      have hlive := htaken.not_mem_freed mem_cons_self
      exact ⟨(htaken.touch hlive).memFree, by dsimp only; omega⟩
  · exact ⟨h, by omega⟩

theorem Books.append (hroom : m.ttsItemNum ≤ 2) (item : TtsItem) : Books { m with
      heap := m.heap.alloc item
      ttsList := m.ttsList ++ [m.heap.next]
      ttsItemNum := (m.ttsItemNum + 1) % 256 } [] [] := by
  have hnum := h.num
  refine ⟨?_, by
    dsimp only; omega, (h.owns.alloc item).of_count fun ref => ?_, h.noStale, h.balanced⟩
  · change (m.ttsItemNum + 1) % 256 = (m.ttsList ++ [m.heap.next]).length
    rw [length_append, length_singleton]
    omega
  · change ([] ++ (m.ttsList ++ [m.heap.next] ++ m.playing)).count ref = _
    simp only [nil_append, count_append]
    omega

theorem Books.play (name : List Char) (mode : Nat) (allocated : Bool) :
    Books (m.play name mode allocated).2 [] [] := by
  rw [Manager.play]
  split
  · dsimp only
    split
    · exact h.eventNodify _
    · exact h
  · split
    · exact h
    · obtain ⟨hbooks, hroom⟩ := h.makeRoom
      cases allocated with
      | true => exact hbooks.append hroom _
      | false => exact hbooks

theorem Books.stop : Books m.stop [] [] := by
  rw [Manager.stop]
  cases hcurr : m.ttsCurr with
  | none => exact h
  | some item =>
    have hlive : item ∉ m.heap.freed := (h.clearCurr hcurr).not_mem_freed mem_cons_self
    have htouched := h.touch hlive
    rw [hcurr] at htouched
    dsimp only
    split
    · exact htouched
    · exact htouched.removeCurrentNode

theorem Books.clean : Books m.clean [] [] := by
  rw [Manager.clean]
  split
  · exact h
  · have hheld : Owns m.heap (m.ttsList ++ m.playing) := h.owns
    obtain ⟨howns, hstale⟩ := hheld.freeAll
    exact ⟨rfl, Nat.zero_le 3, howns, hstale.trans h.noStale, h.balanced⟩

end

theorem accounted_init (lisener : Bool) : (init lisener).Accounted :=
  ⟨rfl, Nat.zero_le 3, Owns.empty, rfl, fun _ _ => rfl⟩

/-- A step keeps the books if and only if it is regular. -/
theorem accounted_step (op : Op) (h : m.Accounted) : (m.step op).Accounted ↔ m.Regular op := by
  have hbooks := accounted_iff_books.mp h
  cases op with
  | playProcess env => exact accounted_playProcess env h
  | replied item opened => exact accounted_replied h
  | play name mode allocated => exact iff_of_true (accounted_iff_books.mpr (hbooks.play ..)) trivial
  | stop => exact iff_of_true (accounted_iff_books.mpr hbooks.stop) trivial
  | stopTimer => exact iff_of_true (accounted_iff_books.mpr hbooks.removeCurrentNode) trivial
  | lock => exact iff_of_true (accounted_iff_books.mpr hbooks.lock) trivial
  | unlock => exact iff_of_true (accounted_iff_books.mpr hbooks.unlock) trivial
  | clean => exact iff_of_true (accounted_iff_books.mpr hbooks.clean) trivial

/-- In every run, the books are right in every state that is reached if and only if every step is
regular. -/
theorem run_accounted_iff (lisener : Bool) (ops : List Op) :
    (∀ first rest, ops = first ++ rest → ((init lisener).run first).Accounted) ↔
      ∀ first op rest, ops = first ++ op :: rest → ((init lisener).run first).Regular op :=
  Runs.foldl_invariant_iff (fun _ op h => accounted_step op h) ops (accounted_init lisener)

/-- A prompt whose player does not open, one whose stream cannot be created, and one that comes
while another is being mixed in. -/
theorem failed_start_breaks_books :
    ((init true).run [.play ['a'] 8 true, .playProcess ⟨false, true, true, false, false⟩,
        .replied 0 false]).heard = [(0, .startPlay), (0, .stopPlay), (0, .stopPlay)] ∧
      ((init true).run [.play ['a'] 8 true, .playProcess ⟨false, true, true, false, false⟩,
        .replied 0 false]).heap.stale = [0] ∧
      ((init true).run [.play ['a'] 8 true, .playProcess ⟨false, false, true, true, false⟩]).heard =
        [(0, .startPlay)] ∧
      ¬ ((init true).run [.play ['a'] 0x40 true,
        .playProcess ⟨true, true, true, true, true⟩]).Accounted := by
  refine ⟨by decide, by decide, by decide, fun h => ?_⟩
  exact absurd (h.owns 0) (by decide)

end Manager

end SpeakerFirmware.System.Tts
