/-
# A ring buffer is a bounded queue

Any number of rings, and any sequence of the operations of `acts_ringbuf.c` on them. Each
operation has an `Outcome`: the ring behind it, its result, the bytes it accepted and the
bytes it removed, and what it showed to its caller. `RingOp.spec` is one operation on one
ring, `Op.spec` one operation on the family, and `run_is_fifo` a whole run: all the bytes a
ring has accepted are the bytes it has given away followed by its content.

No operation looks at or changes a byte outside the memory of its rings: it commutes with
every change of the bytes around them (`Op.outcome_surround`).

`acts_ringbuf_copy` is the one operation on two rings, and it takes the bytes out of its
source.
-/

import SpeakerFirmware.Utils.RingbufFrame

namespace SpeakerFirmware.Utils

open NorFlash (Image length_read)
open Errno
open List Nat

variable {n : Nat}

/-- The bytes at consecutive counts. -/
def circle (rb : ActsRingbuf) (count n : Nat) : List UInt8 :=
  (List.range n).map fun i => rb.memory ((count + i) % rb.size)

/-- What is readable in a ring. -/
def content (rb : ActsRingbuf) : List UInt8 :=
  circle rb rb.head (actsRingbufLength rb)

/-- The operations on one ring. `putClaim` comes with what the caller stores in the piece it was
handed. -/
inductive RingOp where
  | put (data : List UInt8)
  | putNull (size : Nat)
  | get (size : Nat)
  | getNull (size : Nat)
  | peek (size : Nat)
  | peekNull (size : Nat)
  | putClaim (size : Nat) (stored : List UInt8)
  | putFinish (size : Nat)
  | getClaim (size : Nat)
  | getFinish (size : Nat)
  | drop (size : Nat)
  | fill (c : UInt8) (size : Nat)
  | read (size : Nat) (streamWrite : Nat → List UInt8 → Int)
  | write (size : Nat) (streamRead : Nat → Nat → List UInt8 × Int)
  | defrag

variable {op : RingOp}

/-- The streams of an operation keep to the sizes they are given. -/
def RingOp.Proper : RingOp → Prop
  | .read _ streamWrite => TakesAtMost streamWrite
  | .write _ streamRead => DeliversAtMost streamRead
  | _ => True

/-- What an operation on one ring has done. -/
structure Outcome where
  ring : ActsRingbuf
  ret : Int
  accepted : List UInt8 := []
  removed : List UInt8 := []
  shown : List UInt8 := []

variable (rb : ActsRingbuf)

def RingOp.outcome : RingOp → Outcome
  | .put data =>
    let (ring, ret) := actsRingbufPut rb data
    { ring, ret, accepted := data.take ret }
  | .putNull size =>
    let (ring, ret) := actsRingbufPutNull rb size
    { ring, ret, accepted := circle rb rb.tail ret }
  | .get size =>
    let (ring, bytes) := actsRingbufGet rb size
    { ring, ret := bytes.length, removed := bytes, shown := bytes }
  | .getNull size =>
    let (ring, ret) := actsRingbufGetNull rb size
    { ring, ret, removed := circle rb rb.head ret }
  | .peek size =>
    let bytes := actsRingbufPeek rb size
    { ring := rb, ret := bytes.length, shown := bytes }
  | .peekNull size => { ring := rb, ret := actsRingbufPeekNull rb size }
  | .putClaim size stored =>
    let (_, len) := actsRingbufPutClaim rb size
    { ring := storeClaimed rb (stored.take len), ret := len }
  | .putFinish size =>
    let (ring, ret) := actsRingbufPutFinish rb size
    { ring, ret, accepted := if ret = 0 then NorFlash.read rb.memory (rb.place rb.tail) size
      else [] }
  | .getClaim size =>
    let (offset, len) := actsRingbufGetClaim rb size
    { ring := rb, ret := len, shown := NorFlash.read rb.memory offset len }
  | .getFinish size =>
    let (ring, ret) := actsRingbufGetFinish rb size
    { ring, ret, removed := if ret = 0 then circle rb rb.head size else [] }
  | .drop size =>
    let (ring, ret) := actsRingbufDrop rb size
    { ring, ret, removed := circle rb rb.head ret }
  | .fill c size =>
    let (ring, ret) := actsRingbufFill rb c size
    { ring, ret, accepted := List.replicate ret c }
  | .read size streamWrite =>
    let (ring, ret, taken) := actsRingbufRead rb size streamWrite
    { ring, ret, removed := taken, shown := taken }
  | .write size streamRead =>
    let (ring, ret, given) := actsRingbufWrite rb size streamRead
    { ring, ret, accepted := given }
  | .defrag => { ring := actsRingbufDefrag rb, ret := 0 }

/-- The counts of an operation: its result, and how many bytes it accepts, removes and shows. -/
structure Counts where
  ret : Int
  accepted : Nat := 0
  removed : Nat := 0
  shown : Nat := 0

/-- All of a request, or nothing. -/
def allOrNothing (size most : Nat) : Nat :=
  if size ≤ most then size else 0

/-- The counts that an operation should have, from the length and the space of the ring and from
the room up to the end of the memory. -/
def RingOp.counts : RingOp → Counts
  | .put data =>
    let n := allOrNothing data.length (actsRingbufSpace rb)
    { ret := n, accepted := n }
  | .putNull size =>
    let n := allOrNothing size (actsRingbufSpace rb)
    { ret := n, accepted := n }
  | .get size =>
    let n := allOrNothing size (actsRingbufLength rb)
    { ret := n, removed := n, shown := n }
  | .getNull size =>
    let n := allOrNothing size (actsRingbufLength rb)
    { ret := n, removed := n }
  | .peek size =>
    let n := allOrNothing size (actsRingbufLength rb)
    { ret := n, shown := n }
  | .peekNull size => { ret := allOrNothing size (actsRingbufLength rb) }
  | .putClaim size _ =>
    let n := min size (min (rb.size - rb.tail % rb.size) (actsRingbufSpace rb))
    { ret := n }
  | .putFinish size =>
    if size ≤ min (rb.size - rb.tail % rb.size) (actsRingbufSpace rb)
      then { ret := 0, accepted := size }
    else { ret := einval }
  | .getClaim size =>
    let n := min size (min (rb.size - rb.head % rb.size) (actsRingbufLength rb))
    { ret := n, shown := n }
  | .getFinish size =>
    if size ≤ min (rb.size - rb.head % rb.size) (actsRingbufLength rb)
      then { ret := 0, removed := size }
    else { ret := einval }
  | .drop size =>
    let n := allOrNothing size (actsRingbufLength rb)
    { ret := n, removed := n }
  | .fill _ size =>
    let n := allOrNothing size (actsRingbufSpace rb)
    { ret := n, accepted := n }
  | .read size streamWrite =>
    let n := if size ≤ actsRingbufLength rb then
      takenCount streamWrite (rb.size - rb.head % rb.size) size (content rb) else 0
    { ret := n, removed := n, shown := n }
  | .write size streamRead =>
    let n := if size ≤ actsRingbufSpace rb then
      (givenBytes streamRead (rb.size - rb.tail % rb.size) size).length else 0
    { ret := n, accepted := n }
  | .defrag => { ret := 0 }

/-! ## One operation on one ring -/

/-- What an outcome means for a ring with a queue in it. -/
structure Outcome.Spec (o : Outcome) (rb : ActsRingbuf) (queue : List UInt8) (counts : Counts) :
    Prop where
  ret_eq : o.ret = counts.ret
  length_accepted : o.accepted.length = counts.accepted
  removed_eq : o.removed = queue.take counts.removed
  removed_le : counts.removed ≤ queue.length
  shown_eq : o.shown = queue.take counts.shown
  contains : Contains o.ring (queue.drop counts.removed ++ o.accepted)
  size_eq : o.ring.size = rb.size
  tail_le : o.ring.tail ≤ rb.tail + o.accepted.length

variable {rb : ActsRingbuf} {queue : List UInt8}

theorem Contains.circle_eq (h : Contains rb queue) (hn : n ≤ queue.length) :
    circle rb rb.head n = queue.take n := by
  apply ext_getElem
  · rw [circle, length_map, length_range, length_take_of_le hn]
  intro i hi _
  rw [circle, length_map, length_range] at hi
  have hbyte := h.byte i (by omega)
  rw [getD_eq_getElem _ _ (by omega)] at hbyte
  rw [getElem_take, ← hbyte]
  simp [circle]

/-- The queue of a ring is its content. -/
theorem Contains.content_eq (h : Contains rb queue) : content rb = queue := by
  rw [content, h.length_eq, h.circle_eq (le_refl _), take_length]

theorem allOrNothing_le (size most : Nat) : allOrNothing size most ≤ most := by
  unfold allOrNothing
  split <;> omega

/-- An operation that only looks. -/
theorem spec_look (h : Contains rb queue) (ret : Int) {shown : List UInt8}
    (hshown : shown = queue.take n) :
    ({ ring := rb, ret, shown } : Outcome).Spec rb queue { ret, shown := n } where
  ret_eq := rfl
  length_accepted := rfl
  removed_eq := rfl
  removed_le := zero_le _
  shown_eq := hshown
  contains := by rw [drop_zero, append_nil]; exact h
  size_eq := rfl
  tail_le := le_refl _

/-- An operation that moves the head. -/
theorem spec_advance (h : Contains rb queue) (ret : Int) (m : Nat) (hn : n ≤ queue.length)
    {removed shown : List UInt8} (hremoved : removed = queue.take n)
    (hshown : shown = queue.take m) :
    ({ ring := { rb with head := rb.head + n }, ret, removed, shown } : Outcome).Spec rb queue
      { ret, removed := n, shown := m } where
  ret_eq := rfl
  length_accepted := rfl
  removed_eq := hremoved
  removed_le := hn
  shown_eq := hshown
  contains := by rw [append_nil]; exact h.advance hn
  size_eq := rfl
  tail_le := le_refl _

/-- An operation that stores bytes behind the tail and moves it. -/
theorem spec_extend (rb : ActsRingbuf) (ret : Int) {ring : ActsRingbuf} {accepted : List UInt8}
    (hring : Contains ring (queue ++ accepted)) (hsize : ring.size = rb.size)
    (htail : ring.tail ≤ rb.tail + accepted.length) (hn : accepted.length = n) :
    ({ ring, ret, accepted } : Outcome).Spec rb queue { ret, accepted := n } where
  ret_eq := rfl
  length_accepted := hn
  removed_eq := rfl
  removed_le := zero_le _
  shown_eq := rfl
  contains := hring
  size_eq := hsize
  tail_le := htail

section

variable (h : Contains rb queue)

include h

theorem spec_put (data : List UInt8) :
    ((RingOp.put data).outcome rb).Spec rb queue ((RingOp.put data).counts rb) := by
  rw [RingOp.outcome, RingOp.counts]
  rcases lt_or_ge (actsRingbufSpace rb) data.length with hfull | hroom
  · have hput : actsRingbufPut rb data = (rb, 0) := if_pos hfull
    rw [hput, allOrNothing, if_neg (not_le.mpr hfull)]
    exact spec_extend rb 0 (by rw [take_zero, append_nil]; exact h) rfl (le_add_right _ _) rfl
  · rw [put_eq hroom, allOrNothing, if_pos hroom]
    dsimp only
    rw [take_length]
    exact spec_extend rb _ (h.store hroom) rfl (le_refl _) rfl

variable (size : Nat)

/-- What `acts_ringbuf_peek` shows. -/
theorem peek_eq :
    actsRingbufPeek rb size = queue.take (allOrNothing size (actsRingbufLength rb)) ∧
      (actsRingbufPeek rb size).length = allOrNothing size (actsRingbufLength rb) := by
  rw [allOrNothing, h.length_eq]
  split
  · next hle =>
      rw [h.peek hle]
      exact ⟨rfl, length_take_of_le hle⟩
  · next hlt =>
      rw [actsRingbufPeek, h.length_eq, if_pos (not_le.mp hlt)]
      exact ⟨rfl, rfl⟩

theorem spec_peek :
    ((RingOp.peek size).outcome rb).Spec rb queue ((RingOp.peek size).counts rb) := by
  obtain ⟨hpeek, hlen⟩ := peek_eq h size
  rw [RingOp.outcome, RingOp.counts, hlen]
  exact spec_look h _ hpeek

theorem spec_get : ((RingOp.get size).outcome rb).Spec rb queue ((RingOp.get size).counts rb) := by
  obtain ⟨hpeek, hlen⟩ := peek_eq h size
  rw [RingOp.outcome, RingOp.counts, actsRingbufGet]
  dsimp only
  rw [hlen]
  exact spec_advance h _ _ ((allOrNothing_le _ _).trans h.length_eq.le) hpeek hpeek

theorem spec_drop :
    ((RingOp.drop size).outcome rb).Spec rb queue ((RingOp.drop size).counts rb) := by
  rw [RingOp.outcome, RingOp.counts, actsRingbufDrop, allOrNothing, h.length_eq]
  rcases lt_or_ge queue.length size with hfew | hle
  · rw [if_pos hfew, if_neg (not_le.mpr hfew)]
    exact spec_advance h 0 0 (zero_le _) rfl rfl
  · rw [if_neg (not_lt.mpr hle), if_pos hle]
    exact spec_advance h _ 0 hle (h.circle_eq hle) rfl

omit h in
theorem peekNull_eq (rb : ActsRingbuf) (size : Nat) :
    actsRingbufPeekNull rb size = allOrNothing size (actsRingbufLength rb) := by
  rw [actsRingbufPeekNull, allOrNothing]
  split <;> split <;> omega

theorem spec_peekNull :
    ((RingOp.peekNull size).outcome rb).Spec rb queue ((RingOp.peekNull size).counts rb) := by
  rw [RingOp.outcome, RingOp.counts, peekNull_eq]
  exact spec_look h _ (n := 0) rfl

theorem spec_getNull :
    ((RingOp.getNull size).outcome rb).Spec rb queue ((RingOp.getNull size).counts rb) := by
  have hle := (allOrNothing_le size (actsRingbufLength rb)).trans h.length_eq.le
  rw [RingOp.outcome, RingOp.counts, actsRingbufGetNull, peekNull_eq]
  exact spec_advance h _ 0 hle (h.circle_eq hle) rfl

/-- What stands behind the tail, as bytes of the queue. -/
theorem spec_putNull :
    ((RingOp.putNull size).outcome rb).Spec rb queue ((RingOp.putNull size).counts rb) := by
  rw [RingOp.outcome, RingOp.counts, actsRingbufPutNull, allOrNothing]
  rcases lt_or_ge (actsRingbufSpace rb) size with hfull | hroom
  · rw [if_pos hfull, if_neg (not_le.mpr hfull)]
    exact spec_extend rb 0 (by rw [circle, range_zero, map_nil, append_nil]; exact h) rfl
      (le_add_right _ _) rfl
  · rw [if_neg (not_lt.mpr hroom), if_pos hroom]
    have hlen : (circle rb rb.tail size).length = size := by
      rw [circle, length_map, length_range]
    have hnew : ∀ i, i < (circle rb rb.tail size).length →
        rb.memory ((rb.tail + i) % rb.size) = (circle rb rb.tail size).getD i 0 :=
      fun i hi => by simp [circle, hlen ▸ hi]
    have hextend := h.extend (hlen.trans_le hroom) hnew fun _ _ _ => rfl
    rw [hlen] at hextend
    exact spec_extend rb _ hextend rfl (by rw [hlen]) hlen

theorem spec_fill (c : UInt8) (size : Nat) :
    ((RingOp.fill c size).outcome rb).Spec rb queue ((RingOp.fill c size).counts rb) := by
  have hput := spec_put h (List.replicate size c)
  rw [RingOp.outcome, RingOp.counts, length_replicate] at hput
  rw [RingOp.outcome, RingOp.counts, fill_eq]
  have hret : (actsRingbufPut rb (List.replicate size c)).2 ≤ size := by
    rw [actsRingbufPut, length_replicate]
    split <;> simp
  dsimp only at hput ⊢
  rw [take_replicate, min_eq_left hret] at hput
  exact hput

theorem spec_putClaim (size : Nat) (stored : List UInt8) :
    ((RingOp.putClaim size stored).outcome rb).Spec rb queue
      ((RingOp.putClaim size stored).counts rb) := by
  have hlen : (actsRingbufPutClaim rb size).2 = min size rb.backPiece := by
    rw [actsRingbufPutClaim]
    dsimp only
    split <;> omega
  have hpiece : rb.backPiece ≤ rb.size - rb.place rb.tail ∧ rb.backPiece ≤ actsRingbufSpace rb :=
    ⟨min_le_left _ _, min_le_right _ _⟩
  have hstored : (stored.take (min size rb.backPiece)).length ≤ rb.backPiece :=
    (length_take_le _ _).trans (min_le_right _ _)
  have hstore := h.store_take (hstored.trans hpiece.2) (zero_le _)
  rw [memcpyWrapped_of_le (hstored.trans hpiece.1), take_zero] at hstore
  rw [RingOp.outcome, RingOp.counts]
  dsimp only
  rw [hlen, ← place_eq]
  exact spec_extend rb _ hstore rfl (le_refl _) rfl

theorem spec_putFinish :
    ((RingOp.putFinish size).outcome rb).Spec rb queue ((RingOp.putFinish size).counts rb) := by
  rw [RingOp.outcome, RingOp.counts, ← place_eq, actsRingbufPutFinish, ActsRingbuf.backPiece]
  rcases lt_or_ge (min (rb.size - rb.place rb.tail) (actsRingbufSpace rb)) size with hmany | hle
  · rw [if_pos hmany, if_neg (not_le.mpr hmany)]
    exact spec_look h einval (n := 0) rfl
  · rw [if_neg (not_lt.mpr hle), if_pos hle]
    have hlen : (NorFlash.read rb.memory (rb.place rb.tail) size).length = size := length_read ..
    -- the bytes that become part of the queue are the ones already in the piece
    have hsame : memcpy rb.memory (rb.place rb.tail)
        (NorFlash.read rb.memory (rb.place rb.tail) size) = rb.memory := by
      funext a
      rw [memcpy, hlen]
      split
      · next hin =>
          rw [NorFlash.getD_read _ _ _ _ (by omega)]
          congr 1
          omega
      · rfl
    have hstore := h.store (hlen.trans_le (hle.trans (min_le_right _ _)))
    rw [memcpyWrapped_of_le (hlen.trans_le (hle.trans (Nat.min_le_left _ _))), hsame,
      hlen] at hstore
    exact spec_extend rb 0 hstore rfl (Nat.add_le_add_left hlen.ge _) hlen

theorem spec_getClaim (size : Nat) :
    ((RingOp.getClaim size).outcome rb).Spec rb queue ((RingOp.getClaim size).counts rb) := by
  have hlen : (actsRingbufGetClaim rb size).2 = min size rb.frontPiece := by
    rw [actsRingbufGetClaim]
    dsimp only
    split <;> omega
  have hread := h.read_claim size
  rw [RingOp.outcome, RingOp.counts, ← place_eq]
  dsimp only
  rw [hlen] at hread ⊢
  exact spec_look h _ hread

theorem spec_getFinish :
    ((RingOp.getFinish size).outcome rb).Spec rb queue ((RingOp.getFinish size).counts rb) := by
  rw [RingOp.outcome, RingOp.counts, ← place_eq, actsRingbufGetFinish, ActsRingbuf.frontPiece,
    h.length_eq]
  rcases lt_or_ge (min (rb.size - rb.place rb.head) queue.length) size with hmany | hle
  · rw [if_pos hmany, if_neg (not_le.mpr hmany)]
    exact spec_look h einval (n := 0) rfl
  · rw [if_neg (not_lt.mpr hle), if_pos hle]
    have hsize : size ≤ queue.length := hle.trans (min_le_right _ _)
    exact spec_advance h 0 0 hsize (h.circle_eq hsize) rfl

theorem spec_read (size : Nat) {streamWrite : Nat → List UInt8 → Int}
    (hstream : TakesAtMost streamWrite) :
    ((RingOp.read size streamWrite).outcome rb).Spec rb queue
    ((RingOp.read size streamWrite).counts rb) := by
  have hlength := h.length_eq
  rw [RingOp.outcome, RingOp.counts, ← place_eq, h.content_eq, hlength]
  rcases lt_or_ge queue.length size with hfew | hle
  · have hread : actsRingbufRead rb size streamWrite = (rb, 0, []) := if_pos (hlength.trans_lt hfew)
    rw [hread, if_neg (not_le.mpr hfew)]
    exact spec_look h 0 (n := 0) rfl
  · have htaken := (takenCount_le hstream (rb.size - rb.place rb.head) size queue).trans hle
    rw [h.read hle hstream, if_pos hle]
    exact spec_advance h _ _ htaken rfl rfl

theorem spec_write (size : Nat) {streamRead : Nat → Nat → List UInt8 × Int}
    (hstream : DeliversAtMost streamRead) :
    ((RingOp.write size streamRead).outcome rb).Spec rb queue
    ((RingOp.write size streamRead).counts rb) := by
  rw [RingOp.outcome, RingOp.counts, ← place_eq]
  rcases lt_or_ge (actsRingbufSpace rb) size with hfull | hle
  · have hwrite : actsRingbufWrite rb size streamRead = (rb, 0, []) := if_pos hfull
    rw [hwrite, if_neg (not_le.mpr hfull)]
    exact spec_look h 0 (n := 0) rfl
  · obtain ⟨hcontains, hret, hhead, hsize⟩ := h.write hle hstream
    have htail : (actsRingbufWrite rb size streamRead).1.tail =
        rb.tail + (givenBytes streamRead (rb.size - rb.place rb.tail) size).length := by
      rw [hcontains.tail_eq, hhead, length_append, h.tail_eq, add_assoc]
    rw [if_pos hle]
    dsimp only
    rw [congrArg Prod.fst hret, congrArg Prod.snd hret]
    exact spec_extend rb _ hcontains hsize htail.le rfl

theorem spec_defrag (hsize : rb.size ≤ 2 ^ 31) :
    (RingOp.defrag.outcome rb).Spec rb queue (RingOp.defrag.counts rb) := by
  have hcounts := h.tail_eq
  have hsame : (actsRingbufDefrag rb).size = rb.size := by
    rw [actsRingbufDefrag]
    split <;> [rfl; (split <;> rfl)]
  have hle : (actsRingbufDefrag rb).tail ≤ rb.tail := by
    have hdiv := div_add_mod rb.tail rb.size
    rw [actsRingbufDefrag]
    split
    · exact sub_le _ _
    · split
      · next hne hge =>
          -- the head lies at or behind the place of the tail, which is a turn ahead
          rw [place_eq, place_eq] at hge
          have hturn : 0 < rb.tail / rb.size := by
            by_contra hzero
            rw [Nat.eq_zero_of_not_pos hzero] at hdiv
            have hmod := Nat.mod_le rb.head rb.size
            omega
          have hround := Nat.le_mul_of_pos_right rb.size hturn
          dsimp only
          rw [place_eq]
          exact (mod_le _ _).trans (by omega)
      · exact sub_le _ _
  exact spec_extend rb 0 (by rw [append_nil]; exact h.defrag hsize) hsame
    (hle.trans (le_add_right _ _)) rfl

end

/-- An operation on a ring is an operation on its queue, with the counts it should have. -/
theorem RingOp.spec (h : Contains rb queue) (hsize : rb.size ≤ 2 ^ 31) (hop : op.Proper) :
    (op.outcome rb).Spec rb queue (op.counts rb) := by
  cases op with
  | put data => exact spec_put h data
  | putNull size => exact spec_putNull h size
  | get size => exact spec_get h size
  | getNull size => exact spec_getNull h size
  | peek size => exact spec_peek h size
  | peekNull size => exact spec_peekNull h size
  | putClaim size stored => exact spec_putClaim h size stored
  | putFinish size => exact spec_putFinish h size
  | getClaim size => exact spec_getClaim h size
  | getFinish size => exact spec_getFinish h size
  | drop size => exact spec_drop h size
  | fill c size => exact spec_fill h c size
  | read size streamWrite => exact spec_read h size hop
  | write size streamRead => exact spec_write h size hop
  | defrag => exact spec_defrag h hsize

/-! ## The bytes around a ring -/

def Outcome.surround (o : Outcome) (other : Image) : Outcome :=
  { o with ring := o.ring.surround other }

theorem circle_surround (hpos : 0 < rb.size) (other : Image) (count n : Nat) :
    circle (rb.surround other) count n = circle rb count n := by
  apply map_congr_left
  intro i _
  exact if_pos (mod_lt _ hpos)

section

variable (hpos : 0 < rb.size) (other : Image)

include hpos

theorem putClaim_surround (size : Nat) (stored : List UInt8) :
    (RingOp.putClaim size stored).outcome (rb.surround other) =
      ((RingOp.putClaim size stored).outcome rb).surround other := by
  have hlen : (actsRingbufPutClaim rb size).2 ≤ rb.backPiece := by
    rw [actsRingbufPutClaim]
    dsimp only
    split <;> omega
  have hstored := (length_take_le (actsRingbufPutClaim rb size).2 stored).trans hlen
  have hclaim : actsRingbufPutClaim (rb.surround other) size = actsRingbufPutClaim rb size := rfl
  rw [RingOp.outcome, hclaim]
  dsimp only
  rw [storeClaimed_surround hpos other hstored]
  rfl

theorem putFinish_surround (size : Nat) :
    (RingOp.putFinish size).outcome (rb.surround other) =
      ((RingOp.putFinish size).outcome rb).surround other := by
  have hplace := place_lt hpos rb.tail
  have hpiece : rb.backPiece ≤ rb.size - rb.place rb.tail := min_le_left _ _
  have hback : (rb.surround other).backPiece = rb.backPiece := rfl
  rw [RingOp.outcome, RingOp.outcome, actsRingbufPutFinish, actsRingbufPutFinish, hback]
  by_cases hmany : size > rb.backPiece
  · rw [if_pos hmany, if_pos hmany]
    rfl
  · rw [if_neg hmany, if_neg hmany]
    have hread : NorFlash.read (rb.surround other).memory
        ((rb.surround other).place (rb.surround other).tail) size = _ :=
      read_surround (show rb.place rb.tail + size ≤ rb.size by omega)
    dsimp only
    rw [hread]
    rfl

theorem getClaim_surround (size : Nat) :
    (RingOp.getClaim size).outcome (rb.surround other) =
      ((RingOp.getClaim size).outcome rb).surround other := by
  have hplace := place_lt hpos rb.head
  have hpiece : rb.frontPiece ≤ rb.size - rb.place rb.head := min_le_left _ _
  have hlen : (actsRingbufGetClaim rb size).2 ≤ rb.frontPiece := by
    rw [actsRingbufGetClaim]
    dsimp only
    split <;> omega
  have hread : NorFlash.read (rb.surround other).memory (actsRingbufGetClaim rb size).1
      (actsRingbufGetClaim rb size).2 = _ :=
    read_surround (show rb.place rb.head + _ ≤ rb.size by omega)
  have hclaim : actsRingbufGetClaim (rb.surround other) size = actsRingbufGetClaim rb size := rfl
  rw [RingOp.outcome, hclaim]
  dsimp only
  rw [hread]
  rfl

end

/-- An operation on one ring commutes with a change of the bytes around it. -/
theorem RingOp.outcome_surround (h : Contains rb queue) (hpos : 0 < rb.size) (hop : op.Proper)
    (other : Image) : op.outcome (rb.surround other) = (op.outcome rb).surround other := by
  have hlength : actsRingbufLength rb ≤ rb.size := h.length_eq.trans_le h.le_size
  have hcircle := circle_surround hpos other
  cases op with
  | put data =>
    rw [RingOp.outcome, put_surround other hpos]
    rfl
  | putNull size =>
    rw [RingOp.outcome, RingOp.outcome]
    simp only [hcircle]
    rw [actsRingbufPutNull, actsRingbufPutNull]
    split <;> split <;> first | rfl | contradiction
  | get size =>
    rw [RingOp.outcome, actsRingbufGet, peek_surround other hpos hlength]
    rfl
  | getNull size =>
    rw [RingOp.outcome, RingOp.outcome]
    simp only [hcircle]
    rfl
  | peek size =>
    rw [RingOp.outcome, peek_surround other hpos hlength]
    rfl
  | peekNull size => rfl
  | putClaim size stored => exact putClaim_surround hpos other size stored
  | putFinish size => exact putFinish_surround hpos other size
  | getClaim size => exact getClaim_surround hpos other size
  | getFinish size =>
    have hfront : (rb.surround other).frontPiece = rb.frontPiece := rfl
    rw [RingOp.outcome, RingOp.outcome, actsRingbufGetFinish, actsRingbufGetFinish, hfront]
    simp only [hcircle]
    split <;> rfl
  | drop size =>
    rw [RingOp.outcome, RingOp.outcome]
    simp only [hcircle]
    rw [actsRingbufDrop, actsRingbufDrop]
    split <;> split <;> first | rfl | contradiction
  | fill c size =>
    rw [RingOp.outcome, fill_eq, put_surround other hpos, ← fill_eq]
    rfl
  | read size streamWrite =>
    rw [RingOp.outcome, actsRingbufRead_surround hpos other hlength]
    rfl
  | write size streamRead =>
    rw [RingOp.outcome, actsRingbufWrite_surround hpos other size hop]
    rfl
  | defrag =>
    rw [RingOp.outcome, defrag_surround hpos other]
    rfl

/-! ## Claimed memory -/

/-- The operations of the reader. -/
def RingOp.Takes : RingOp → Prop
  | .get _ | .getNull _ | .peek _ | .peekNull _ | .getClaim _ | .getFinish _ | .drop _ | .read _
      _ =>
    True
  | _ => False

/-- A ring whose reader has gone on. -/
structure Ahead (rb ring : ActsRingbuf) : Prop where
  memory_eq : ring.memory = rb.memory
  tail_eq : ring.tail = rb.tail
  size_eq : ring.size = rb.size
  head_le : rb.head ≤ ring.head

theorem Ahead.refl (rb : ActsRingbuf) : Ahead rb rb :=
  ⟨rfl, rfl, rfl, le_refl _⟩

theorem Ahead.trans {a b c : ActsRingbuf} (hab : Ahead a b) (hbc : Ahead b c) : Ahead a c where
  memory_eq := hbc.memory_eq.trans hab.memory_eq
  tail_eq := hbc.tail_eq.trans hab.tail_eq
  size_eq := hbc.size_eq.trans hab.size_eq
  head_le := hab.head_le.trans hbc.head_le

theorem ahead_of_head (rb : ActsRingbuf) (n : Nat) : Ahead rb { rb with head := rb.head + n } :=
  ⟨rfl, rfl, rfl, le_add_right _ _⟩

theorem ahead_finishRead (rb : ActsRingbuf) (streamLen : Int) (taken : List UInt8) :
    Ahead rb (finishRead rb streamLen taken).1 := by
  rw [finishRead]
  split
  · exact ahead_of_head rb _
  · exact .refl rb

theorem ahead_read (rb : ActsRingbuf) (size : Nat) (streamWrite : Nat → List UInt8 → Int) :
    Ahead rb (actsRingbufRead rb size streamWrite).1 := by
  rw [actsRingbufRead]
  split
  · exact .refl rb
  · dsimp only
    split
    · exact ahead_finishRead rb _ _
    · split <;> exact ahead_finishRead rb _ _

theorem RingOp.Takes.ahead (htakes : op.Takes) (rb : ActsRingbuf) :
    Ahead rb (op.outcome rb).ring := by
  cases op with
  | get size => exact ahead_of_head rb _
  | getNull size => exact ahead_of_head rb _
  | peek size => exact .refl rb
  | peekNull size => exact .refl rb
  | getClaim size => exact .refl rb
  | getFinish size =>
    change Ahead rb (actsRingbufGetFinish rb size).1
    rw [actsRingbufGetFinish]
    split
    · exact .refl rb
    · exact ahead_of_head rb _
  | drop size =>
    change Ahead rb (actsRingbufDrop rb size).1
    rw [actsRingbufDrop]
    split
    · exact .refl rb
    · exact ahead_of_head rb _
  | read size streamWrite => exact ahead_read rb size streamWrite
  | put _ | putNull _ | putClaim _ _ | putFinish _ | fill _ _ | write _ _ | defrag =>
    exact htakes.elim

/-- Storing into the claimed piece does not change the queue. -/
theorem Contains.storeClaimed (h : Contains rb queue) {stored : List UInt8}
    (hstored : stored.length ≤ rb.backPiece) : Contains (storeClaimed rb stored) queue := by
  have hstore := h.store_take (hstored.trans (min_le_right _ _)) (zero_le _)
  rw [memcpyWrapped_of_le (hstored.trans (min_le_left _ _)), take_zero, append_nil] at hstore
  exact hstore

section

variable {ring : ActsRingbuf} {stored : List UInt8} (hahead : Ahead (storeClaimed rb stored) ring)
include hahead

theorem Ahead.place_eq : ring.place ring.tail = rb.place rb.tail := by
  rw [Utils.place_eq, Utils.place_eq, hahead.tail_eq, hahead.size_eq]
  rfl

/-- The reader only makes room. -/
theorem Ahead.backPiece_le : rb.backPiece ≤ ring.backPiece := by
  have hhead := hahead.head_le
  rw [ActsRingbuf.backPiece, ActsRingbuf.backPiece, hahead.place_eq, actsRingbufSpace,
    actsRingbufSpace, hahead.tail_eq, hahead.size_eq]
  dsimp only [storeClaimed] at hhead ⊢
  omega

/-- The stored bytes are still where the writer has put them. -/
theorem Ahead.read_stored :
    NorFlash.read ring.memory (ring.place ring.tail) stored.length = stored := by
  rw [hahead.memory_eq, hahead.place_eq]
  apply ext_getElem
  · exact length_read ..
  intro i hi hlt
  rw [← getD_eq_getElem _ 0 hi, NorFlash.getD_read _ _ _ _ hlt, storeClaimed]
  dsimp only
  rw [memcpy_inside (Nat.le_add_right _ _) (by omega), Nat.add_sub_cancel_left,
    getD_eq_getElem _ _ hlt]

end

/-- What the writer has stored in the piece it was handed is what it later adds to the queue,
whatever the reader does in between. -/
theorem stored_is_accepted (h : Contains rb queue) (hsize : rb.size ≤ 2 ^ 31) {stored : List UInt8}
    (hstored : stored.length ≤ rb.backPiece) {ops : List RingOp}
    (hops : ∀ op ∈ ops, op.Takes ∧ op.Proper) :
    let ring := ops.foldl (fun ring op => (op.outcome ring).ring) (storeClaimed rb stored)
    let done := (RingOp.putFinish stored.length).outcome ring
    done.ret = 0 ∧ done.accepted = stored ∧ content done.ring = content ring ++ stored := by
  intro ring done
  have hring : Ahead (storeClaimed rb stored) ring ∧ ∃ queue', Contains ring queue' := by
    refine List.foldlRecOn (motive := fun ring => Ahead (storeClaimed rb stored) ring ∧
      ∃ queue', Contains ring queue') ops _ ⟨.refl _, queue, h.storeClaimed hstored⟩ ?_
    rintro ring ⟨hahead, queue', hcontains⟩ op hmem
    obtain ⟨htakes, hproper⟩ := hops op hmem
    exact ⟨hahead.trans (htakes.ahead ring), _,
      (RingOp.spec hcontains (hahead.size_eq.trans_le hsize) hproper).contains⟩
  obtain ⟨hahead, queue', hcontains⟩ := hring
  have hroom : ¬ stored.length > ring.backPiece :=
    Nat.not_lt.mpr (hstored.trans hahead.backPiece_le)
  have hfinish : actsRingbufPutFinish ring stored.length =
      ({ ring with tail := ring.tail + stored.length }, 0) := if_neg hroom
  have haccepted : done.accepted = stored := by
    change ((RingOp.putFinish stored.length).outcome ring).accepted = stored
    rw [RingOp.outcome, hfinish]
    exact hahead.read_stored
  have hret : done.ret = 0 := by
    change ((RingOp.putFinish stored.length).outcome ring).ret = 0
    rw [RingOp.outcome, hfinish]
  have hfinal := (spec_putFinish hcontains stored.length).contains
  have hkeeps : ((RingOp.putFinish stored.length).counts ring).removed = 0 := by
    rw [RingOp.counts]
    split <;> rfl
  rw [hkeeps, drop_zero] at hfinal
  refine ⟨hret, haccepted, ?_⟩
  rw [hfinal.content_eq, hcontains.content_eq, haccepted]

/-- The reader takes the byte in the ring while the writer fills its piece. -/
theorem stored_is_accepted_between :
    let rb := (actsRingbufPut (actsRingbufInit (fun _ => 0) 4) [7]).1
    let ring := ((RingOp.get 1).outcome (storeClaimed rb [8, 9])).ring
    let done := (RingOp.putFinish 2).outcome ring
    done.ret = 0 ∧ done.accepted = [8, 9] ∧ content done.ring = content ring ++ [8, 9] := by
  have hput : Contains (actsRingbufPut (actsRingbufInit (fun _ => 0) 4) [7]).1 ([] ++ [7]) :=
    (contains_reset (actsRingbufInit (fun _ => 0) 4)).put (by decide)
  exact @stored_is_accepted _ _ hput (by decide) [8, 9] (by decide) [.get 1]
    (by simp [RingOp.Takes, RingOp.Proper])

/-! ## A family of rings -/

section

variable {ι : Type} [DecidableEq ι]

/-- An operation on one of the rings, or a copy between two of them. -/
inductive Op (ι : Type) where
  | one (i : ι) (op : RingOp)
  | copy (dst src : ι) (size : Nat)

def Op.Proper : Op ι → Prop
  | .one _ op => op.Proper
  | .copy dst src _ => dst ≠ src

/-- What an operation has done to one of the rings. -/
def Op.outcome (rings : ι → ActsRingbuf) (i : ι) : Op ι → Outcome
  | .one j op => if i = j then op.outcome (rings i) else { ring := rings i, ret := 0 }
  | .copy dst src size =>
    let (ring, source, ret) := actsRingbufCopy (rings dst) (rings src) size
    let moved := circle (rings src) (rings src).head ret
    if i = dst then { ring, ret, accepted := moved }
    else if i = src then { ring := source, ret, removed := moved, shown := moved }
    else { ring := rings i, ret := 0 }

/-- The counts an operation should have on one of the rings. -/
def Op.counts (rings : ι → ActsRingbuf) (i : ι) : Op ι → Counts
  | .one j op => if i = j then op.counts (rings i) else { ret := 0 }
  | .copy dst src size =>
    let n := min (min size (actsRingbufLength (rings src))) (actsRingbufSpace (rings dst))
    if i = dst then { ret := n, accepted := n }
    else if i = src then { ret := n, removed := n, shown := n }
    else { ret := 0 }

def exec (rings : ι → ActsRingbuf) (op : Op ι) : ι → ActsRingbuf :=
  fun i => (op.outcome rings i).ring

def run (rings : ι → ActsRingbuf) (ops : List (Op ι)) : ι → ActsRingbuf :=
  ops.foldl exec rings

/-- All the bytes a ring accepts in a run, and all that it gives away. -/
def accepted (i : ι) (rings : ι → ActsRingbuf) : List (Op ι) → List UInt8
  | [] => []
  | op :: ops => (op.outcome rings i).accepted ++ accepted i (exec rings op) ops

def removed (i : ι) (rings : ι → ActsRingbuf) : List (Op ι) → List UInt8
  | [] => []
  | op :: ops => (op.outcome rings i).removed ++ removed i (exec rings op) ops

theorem sizes_copy (dst src : ActsRingbuf) (size : Nat) :
    (actsRingbufCopy dst src size).1.size = dst.size ∧
    (actsRingbufCopy dst src size).2.1.size = src.size ∧
      (actsRingbufCopy dst src size).1.tail = dst.tail + copySize dst src size ∧
      (actsRingbufCopy dst src size).2.1.tail = src.tail := by
  rw [actsRingbufCopy]
  split
  · next hzero => exact ⟨rfl, rfl, by rw [hzero, add_zero], rfl⟩
  · exact ⟨rfl, rfl, rfl, rfl⟩

/-- A ring that an operation does not concern. -/
theorem spec_other (h : Contains rb queue) :
    ({ ring := rb, ret := 0 } : Outcome).Spec rb queue { ret := 0 } :=
  spec_look h 0 (n := 0) rfl

variable {rings : ι → ActsRingbuf} {queues : ι → List UInt8}

section

variable (h : ∀ i, Contains (rings i) (queues i))
include h

theorem spec_copy {dst src : ι} (hne : dst ≠ src) (size : Nat) (i : ι) :
    ((Op.copy dst src size).outcome rings i).Spec (rings i) (queues i)
    ((Op.copy dst src size).counts rings i) := by
  obtain ⟨hdst, hsrc, hret⟩ := (h dst).copy (h src) size
  obtain ⟨hdstSize, hsrcSize, hdstTail, hsrcTail⟩ := sizes_copy (rings dst) (rings src) size
  have hle : copySize (rings dst) (rings src) size ≤ (queues src).length := by
    rw [copySize, (h src).length_eq]
    omega
  have hmoved := (h src).circle_eq hle
  have hlen : (circle (rings src) (rings src).head (copySize (rings dst) (rings src) size)).length =
      copySize (rings dst) (rings src) size := by
    rw [hmoved, length_take_of_le hle]
  rw [Op.outcome, Op.counts]
  dsimp only
  rw [hret]
  change Outcome.Spec _ _ _ (if i = dst then
      { ret := copySize (rings dst) (rings src) size, accepted :=
        copySize (rings dst) (rings src) size }
    else if i = src then
      { ret := copySize (rings dst) (rings src) size, removed :=
        copySize (rings dst) (rings src) size
        shown := copySize (rings dst) (rings src) size }
    else { ret := 0 })
  by_cases hi : i = dst
  · subst hi
    rw [if_pos rfl, if_pos rfl]
    exact spec_extend _ _ (by rw [hmoved]; exact hdst) hdstSize (by rw [hlen, hdstTail]) hlen
  · rw [if_neg hi, if_neg hi]
    by_cases hi' : i = src
    · subst hi'
      rw [if_pos rfl, if_pos rfl]
      exact {
        ret_eq := rfl
        length_accepted := rfl
        removed_eq := hmoved
        removed_le := hle
        shown_eq := hmoved
        contains := by rw [append_nil]; exact hsrc
        size_eq := hsrcSize
        tail_le := hsrcTail.le }
    · rw [if_neg hi', if_neg hi']
      exact spec_other (h i)

variable (hsize : ∀ i, (rings i).size ≤ 2 ^ 31)
include hsize

/-- An operation on the family is an operation on each queue. -/
theorem Op.spec {op : Op ι} (hop : op.Proper) (i : ι) :
    (op.outcome rings i).Spec (rings i) (queues i) (op.counts rings i) := by
  cases op with
  | one j op =>
    rw [Op.outcome, Op.counts]
    split
    · exact RingOp.spec (h i) (hsize i) hop
    · exact spec_other (h i)
  | copy dst src size => exact spec_copy h hop size i

/-- A run: the accepted bytes are the bytes of before and the new ones, less those given away. -/
theorem run_spec {ops : List (Op ι)} (hops : ∀ op ∈ ops, op.Proper) :
    ∃ final : ι → List UInt8, ∀ i, Contains (run rings ops i) (final i) ∧
      (run rings ops i).size = (rings i).size ∧
      queues i ++ accepted i rings ops = removed i rings ops ++ final i ∧
      (run rings ops i).tail ≤ (rings i).tail + (accepted i rings ops).length := by
  induction ops generalizing rings queues with
  | nil =>
    refine ⟨queues, fun i => ⟨h i, rfl, ?_, le_refl _⟩⟩
    rw [accepted, removed, append_nil, nil_append]
  | cons op ops ih =>
    have hstep := fun i => Op.spec h hsize (hops op (mem_cons_self ..)) i
    obtain ⟨final, hfinal⟩ := @ih (exec rings op) _ (fun i => (hstep i).contains)
      (fun i => (hstep i).size_eq.trans_le (hsize i)) fun op' hmem =>
        hops op' (mem_cons_of_mem _ hmem)
    refine ⟨final, fun i => ?_⟩
    obtain ⟨hcontains, hsize, hhistory, htail⟩ := hfinal i
    have htailStep := (hstep i).tail_le
    refine ⟨hcontains, hsize.trans (hstep i).size_eq, ?_, ?_⟩
    · rw [accepted, removed, (hstep i).removed_eq, append_assoc, ← hhistory]
      simp only [← append_assoc, take_append_drop]
    · rw [accepted, length_append, ← Nat.add_assoc]
      exact htail.trans (Nat.add_le_add_right htailStep _)

end

/-- An operation on the family commutes with a change of the bytes around the rings. -/
theorem Op.outcome_surround (h : ∀ i, Contains (rings i) (queues i))
    (hpos : ∀ i, 0 < (rings i).size) {op : Op ι} (hop : op.Proper) (other : ι → Image) (i : ι) :
    op.outcome (fun j => (rings j).surround (other j)) i =
      (op.outcome rings i).surround (other i) := by
  cases op with
  | one j op =>
    rw [Op.outcome, Op.outcome]
    split
    · exact RingOp.outcome_surround (h i) (hpos i) hop (other i)
    · rfl
  | copy dst src size =>
    rw [Op.outcome, Op.outcome, copy_surround (hpos dst) (hpos src)]
    simp only [circle_surround (hpos src)]
    by_cases hi : i = dst
    · subst hi
      rw [if_pos rfl, if_pos rfl]
      rfl
    · rw [if_neg hi, if_neg hi]
      by_cases hi' : i = src
      · subst hi'
        rw [if_pos rfl, if_pos rfl]
        rfl
      · rw [if_neg hi', if_neg hi']
        rfl

/-- The operations that only look, or move the content in memory. -/
def RingOp.Looks : RingOp → Prop
  | .peek _ | .peekNull _ | .getClaim _ | .putClaim _ _ | .defrag => True
  | _ => False

/-- They have nothing to add to a queue or to take from it. -/
theorem RingOp.Looks.counts_eq (hlooks : op.Looks) (rb : ActsRingbuf) :
    (op.counts rb).accepted = 0 ∧ (op.counts rb).removed = 0 := by
  cases op <;> first | exact ⟨rfl, rfl⟩ | exact hlooks.elim

/-- An operation that should accept nothing only takes from the front. -/
theorem Outcome.Spec.content_of_accepted_zero {o : Outcome} {counts : Counts}
    (h : o.Spec rb queue counts) (hzero : counts.accepted = 0) :
    content o.ring = queue.drop counts.removed := by
  have hnothing := h.length_accepted
  rw [hzero, length_eq_zero_iff] at hnothing
  rw [h.contains.content_eq, hnothing, append_nil]

theorem contains_init (memory : Image) (size : Nat) :
    Contains (actsRingbufInit memory size) [] where
  tail_eq := rfl
  le_size := zero_le _
  byte _ hi := absurd hi (not_lt_zero _)

/-- Every run from empty rings. The bytes a ring has accepted are the bytes it has given away and
its content, in order; the counters stay within the size, and below the number of accepted
bytes; and the next operation, whichever it is, has the counts it should have, takes its bytes
from the front and puts them at the back, and neither reads nor changes a byte outside the
memory of the rings. Looking and `acts_ringbuf_defrag` leave the content; `acts_ringbuf_copy`
takes from its source what it copies. The sum in `acts_ringbuf_defrag` is 32 bits wide. -/
theorem run_is_fifo (memory : ι → Image) (size : ι → Nat)
    (hsize : ∀ i, 0 < size i ∧ size i ≤ 2 ^ 31) (ops : List (Op ι))
    (hops : ∀ op ∈ ops, op.Proper) (i : ι) :
    let start := fun i => actsRingbufInit (memory i) (size i)
    let rings := run start ops
    accepted i start ops = removed i start ops ++ content (rings i) ∧
      (rings i).head ≤ (rings i).tail ∧ actsRingbufLength (rings i) ≤ size i ∧
      actsRingbufLength (rings i) + actsRingbufSpace (rings i) = size i ∧
      (rings i).tail ≤ (accepted i start ops).length ∧
      (∀ op : Op ι, op.Proper →
        (op.outcome rings i).Spec (rings i) (content (rings i)) (op.counts rings i) ∧
        ∀ other : ι → Image, op.outcome (fun j => (rings j).surround (other j)) i =
          (op.outcome rings i).surround (other i)) ∧
      (∀ op : RingOp, op.Looks → content (exec rings (.one i op) i) = content (rings i)) ∧
      ∀ dst n, dst ≠ i → content (exec rings (.copy dst i n) i) =
        (content (rings i)).drop
          (min (min n (actsRingbufLength (rings i))) (actsRingbufSpace (rings dst))) := by
  intro start rings
  obtain ⟨final, hfinal⟩ := run_spec (fun i => contains_init (memory i) (size i))
    (fun i => (hsize i).2) hops
  have hcontains : ∀ j, Contains (rings j) (content (rings j)) := fun j => by
    rw [(hfinal j).1.content_eq]
    exact (hfinal j).1
  have hrings : ∀ j, (rings j).size = size j := fun j => (hfinal j).2.1
  have hpos : ∀ j, 0 < (rings j).size := fun j => (hsize j).1.trans_eq (hrings j).symm
  have hsmall : ∀ j, (rings j).size ≤ 2 ^ 31 := fun j => (hrings j).trans_le (hsize j).2
  have hstep : ∀ op : Op ι, op.Proper →
      (op.outcome rings i).Spec (rings i) (content (rings i)) (op.counts rings i) :=
    fun op hop => Op.spec hcontains hsmall hop i
  have hle := (hcontains i).le_size
  have hlength := (hcontains i).length_eq
  refine ⟨?_, ?_, ?_, ?_, ?_,
    fun op hop => ⟨hstep op hop, fun other => Op.outcome_surround hcontains hpos hop other i⟩, ?_,
      ?_⟩
  · rw [(hfinal i).1.content_eq]
    exact (hfinal i).2.2.1
  · rw [(hcontains i).tail_eq]
    exact le_add_right _ _
  · rw [hlength, ← hrings i]
    exact hle
  · rw [hlength, (hcontains i).space_eq, hrings i]
    rw [hrings i] at hle
    omega
  · exact (hfinal i).2.2.2.trans_eq (zero_add _)
  · intro op hlooks
    have hproper : op.Proper := by cases op <;> trivial
    have hspec := hstep (.one i op) hproper
    obtain ⟨haccepted, hremoved⟩ := hlooks.counts_eq (rings i)
    have hcounts : (Op.one i op).counts rings i = op.counts (rings i) := if_pos rfl
    rw [hcounts] at hspec
    rw [exec, hspec.content_of_accepted_zero haccepted, hremoved, drop_zero]
  · intro dst n hne
    have hspec := hstep (.copy dst i n) hne
    have hcounts : (Op.copy dst i n).counts rings i =
        { ret := copySize (rings dst) (rings i) n, removed := copySize (rings dst) (rings i) n
          shown := copySize (rings dst) (rings i) n } :=
      (if_neg (Ne.symm hne)).trans (if_pos rfl)
    rw [hcounts] at hspec
    exact hspec.content_of_accepted_zero rfl

/-- Two rings of three and four bytes: what has been put into the first and read in part is put on
around its end and copied to the second. -/
theorem run_is_fifo_two_rings :
    let start := fun i : Bool => actsRingbufInit (fun _ => 0) (if i then 3 else 4)
    let ops : List (Op Bool) :=
      [.one true (.put [1, 2, 3]), .one true (.get 2), .one true (.put [4, 5]), .copy false true 2]
    (∀ op ∈ ops, op.Proper) ∧
      accepted true start ops = removed true start ops ++ content (run start ops true) ∧
      content (run start ops true) = [5] := by
  intro start ops
  have hsize : ∀ i, (0 < if i = true then 3 else 4) ∧ (if i = true then 3 else 4) ≤ 2 ^ 31 := by
    decide
  have hops : ∀ op ∈ ops, op.Proper := by
    intro op hmem
    simp only [ops, mem_cons, not_mem_nil, or_false] at hmem
    rcases hmem with rfl | rfl | rfl | rfl
    · trivial
    · trivial
    · trivial
    · exact Bool.false_ne_true
  exact ⟨hops, (run_is_fifo (fun _ _ => 0) (fun i => if i then 3 else 4) hsize ops hops true).1,
    by decide⟩

/-- A copy of one byte leaves its source empty, and a put of two bytes into a ring of one returns
zero, not one. -/
theorem copy_leaves_source_empty :
    let rings := run (fun _ : Bool => actsRingbufInit (fun _ => 0) 4) [.one true (.put [7])]
    content (rings true) = [7] ∧ content (exec rings (.copy false true 1) true) = [] ∧
      ((RingOp.put [1, 2]).outcome (actsRingbufInit (fun _ => 0) 1)).ret = 0 := by
  decide

end

end SpeakerFirmware.Utils
