/-
# The ring buffer of the Actions utilities

`acts_ringbuf` counts the bytes that ever went in (`tail`) and out (`head`); the place of
a count in memory is its remainder by the size, which is a mask when the size is a power of
two. The counters are 64-bit in the source and are not reset while a ring is in use; here
they are natural numbers, since no ring moves that many bytes.

A ring is a bounded queue of bytes. `Contains rb queue` says what is in it, and
`Contains.put` and `Contains.get` are the two operations on the queue.
-/

import SpeakerFirmware.Errno
import SpeakerFirmware.Lib.NorFlash
import Mathlib.Data.List.GetD

namespace SpeakerFirmware.Utils

open NorFlash (Image length_read)
open List Nat

variable {bytes : List UInt8} {a n offset : Nat} {memory : Image}

def isPowerOfTwo (x : Nat) : Bool :=
  x != 0 && (x &&& (x - 1)) == 0

/-- `acts_ringbuf`, with the memory its address points to. -/
structure ActsRingbuf where
  head : Nat
  tail : Nat
  size : Nat
  mask : Nat
  memory : Image
  mask_eq : mask = if isPowerOfTwo size then size - 1 else 0

def actsRingbufInit (memory : Image) (size : Nat) : ActsRingbuf where
  head := 0
  tail := 0
  size := size
  mask := if isPowerOfTwo size then size - 1 else 0
  memory := memory
  mask_eq := rfl

variable (rb : ActsRingbuf)

def actsRingbufReset : ActsRingbuf :=
  { rb with head := 0, tail := 0 }

def actsRingbufLength : Nat :=
  rb.tail - rb.head

def actsRingbufSpace : Nat :=
  rb.size - (rb.tail - rb.head)

/-- The place of a byte count in memory. -/
def ActsRingbuf.place (count : Nat) : Nat :=
  if rb.mask ≠ 0 then count &&& rb.mask else count % rb.size

/-- The bytes `acts_ringbuf_peek` copies, in two pieces if they wrap; it returns how many they
are, which is none if there are fewer than asked for. -/
def actsRingbufPeek (size : Nat) : List UInt8 :=
  if size > actsRingbufLength rb then []
  else
    let offset := rb.place rb.head
    let len := rb.size - offset
    if len ≥ size then NorFlash.read rb.memory offset size
    else NorFlash.read rb.memory offset len ++ NorFlash.read rb.memory 0 (size - len)

/-- `acts_ringbuf_peek` with `data` NULL, which copies nothing. -/
def actsRingbufPeekNull (size : Nat) : Nat :=
  if size > actsRingbufLength rb then 0 else size

def actsRingbufGet (size : Nat) : ActsRingbuf × List UInt8 :=
  let bytes := actsRingbufPeek rb size
  ({ rb with head := rb.head + bytes.length }, bytes)

/-- `acts_ringbuf_get` with `data` NULL. -/
def actsRingbufGetNull (size : Nat) : ActsRingbuf × Nat :=
  let size := actsRingbufPeekNull rb size
  ({ rb with head := rb.head + size }, size)

/-- `memcpy` into the memory. -/
def memcpy (memory : Image) (offset : Nat) (bytes : List UInt8) : Image :=
  fun a => if offset ≤ a ∧ a < offset + bytes.length then bytes.getD (a - offset) 0 else memory a

def actsRingbufPut (bytes : List UInt8) : ActsRingbuf × Nat :=
  if bytes.length > actsRingbufSpace rb then (rb, 0)
  else
    let offset := rb.place rb.tail
    let len := rb.size - offset
    let memory :=
      if len ≥ bytes.length then memcpy rb.memory offset bytes
      else memcpy (memcpy rb.memory offset (bytes.take len)) 0 (bytes.drop len)
    ({ rb with tail := rb.tail + bytes.length, memory := memory }, bytes.length)

/-- `acts_ringbuf_put` with `data` NULL: what stands behind the tail becomes content. -/
def actsRingbufPutNull (size : Nat) : ActsRingbuf × Nat :=
  if size > actsRingbufSpace rb then (rb, 0) else ({ rb with tail := rb.tail + size }, size)

/-! ## The counters -/

section

variable (rb : ActsRingbuf)

@[simp]
theorem size_put (bytes : List UInt8) : (actsRingbufPut rb bytes).1.size = rb.size := by
  rw [actsRingbufPut]
  split <;> rfl

/-- With room for the bytes, `acts_ringbuf_put` moves the tail. -/
theorem counters_put (hroom : bytes.length ≤ actsRingbufSpace rb) :
    (actsRingbufPut rb bytes).1.head = rb.head ∧
      (actsRingbufPut rb bytes).1.tail = rb.tail + bytes.length := by
  rw [actsRingbufPut, if_neg (not_lt.mpr hroom)]
  exact ⟨rfl, rfl⟩

theorem place_eq (count : Nat) : rb.place count = count % rb.size := by
  have hmask := rb.mask_eq
  rw [ActsRingbuf.place]
  cases hpow : isPowerOfTwo rb.size with
  | false =>
    rw [hpow, if_neg Bool.false_ne_true] at hmask
    rw [if_neg (not_not.mpr hmask)]
  | true =>
    rw [hpow, if_pos rfl] at hmask
    simp only [isPowerOfTwo, Bool.and_eq_true, bne_iff_ne, beq_iff_eq] at hpow
    obtain ⟨k, hk⟩ := (and_sub_one_eq_zero_iff_isPowerOfTwo hpow.1).mp hpow.2
    rw [hmask, hk]
    split
    · exact and_two_pow_sub_one_eq_mod count k
    · rfl

end

/-! ## The ring as a queue -/

/-- The bytes in the ring, the oldest first. -/
structure Contains (rb : ActsRingbuf) (queue : List UInt8) : Prop where
  tail_eq : rb.tail = rb.head + queue.length
  le_size : queue.length ≤ rb.size
  byte : ∀ i, i < queue.length → rb.memory ((rb.head + i) % rb.size) = queue.getD i 0

theorem contains_reset (rb : ActsRingbuf) : Contains (actsRingbufReset rb) [] where
  tail_eq := rfl
  le_size := zero_le _
  byte _ hi := absurd hi (not_lt_zero _)

/-- A place behind another one, at most a whole turn further on. -/
theorem add_mod_eq {i : Nat} (hi : i < n) :
    (a + i) % n = if a % n + i < n then a % n + i else a % n + i - n := by
  have hlt := mod_lt a (zero_lt_of_lt hi)
  rw [← mod_add_mod]
  split
  · next h => exact mod_eq_of_lt h
  · next h =>
      rw [mod_eq_sub_mod (not_lt.mp h)]
      exact mod_eq_of_lt (by omega)

namespace Contains

variable {rb : ActsRingbuf} {queue : List UInt8}

section

variable (h : Contains rb queue)
include h

theorem length_eq : actsRingbufLength rb = queue.length := by
  rw [actsRingbufLength, h.tail_eq, Nat.add_sub_cancel_left]

theorem space_eq : actsRingbufSpace rb = rb.size - queue.length := by
  rw [actsRingbufSpace, h.tail_eq, Nat.add_sub_cancel_left]

/-- A piece of the queue that does not wrap. -/
theorem read_piece (first : Nat) (hn : first + n ≤ queue.length)
    (hplace : ∀ i, i < n → (rb.head + (first + i)) % rb.size = offset + i) :
    NorFlash.read rb.memory offset n = (queue.drop first).take n := by
  apply ext_getElem
  · rw [length_read, length_take_of_le (by rw [length_drop]; omega)]
  intro i hi _
  rw [length_read] at hi
  have hbyte := h.byte (first + i) (by omega)
  rw [hplace i hi, getD_eq_getElem _ _ (by omega)] at hbyte
  rw [getElem_take, getElem_drop, ← hbyte]
  simp [NorFlash.read]

/-- The bytes at the front, read in one piece or in two. -/
theorem peek (hn : n ≤ queue.length) : actsRingbufPeek rb n = queue.take n := by
  have hle := h.le_size
  rw [actsRingbufPeek, h.length_eq, if_neg (not_lt.mpr hn)]
  dsimp only
  rw [place_eq]
  split
  · refine h.read_piece 0 (by omega) fun i hi => ?_
    rw [zero_add, add_mod_eq (by omega), if_pos (by omega)]
  · have hlen : rb.size - rb.head % rb.size ≤ n := by omega
    obtain ⟨rest, rfl⟩ := Nat.exists_eq_add_of_le hlen
    have hlt := Nat.mod_lt rb.head (show 0 < rb.size by omega)
    rw [take_add, Nat.add_sub_cancel_left]
    congr 1
    · refine h.read_piece 0 (by omega) fun i hi => ?_
      rw [zero_add, add_mod_eq (by omega), if_pos (by omega)]
    · refine h.read_piece _ (by omega) fun i hi => ?_
      rw [add_mod_eq (by omega), if_neg (by omega)]
      omega

/-- Moving the head takes bytes from the front. -/
theorem advance (hn : n ≤ queue.length) :
    Contains { rb with head := rb.head + n } (queue.drop n) := by
  have hle := h.le_size
  have htail := h.tail_eq
  refine ⟨?_, ?_, ?_⟩
  · rw [length_drop]
    dsimp only
    omega
  · rw [length_drop]
    exact (sub_le _ _).trans hle
  · intro i hi
    rw [length_drop] at hi
    dsimp only
    rw [add_assoc, h.byte (n + i) (by omega)]
    simp [List.getD]

/-- `acts_ringbuf_get` takes bytes from the front. -/
theorem get (hn : n ≤ queue.length) :
    (actsRingbufGet rb n).2 = queue.take n ∧ Contains (actsRingbufGet rb n).1 (queue.drop n) := by
  have hpeek := h.peek hn
  refine ⟨hpeek, ?_⟩
  rw [actsRingbufGet, hpeek, length_take_of_le hn]
  exact h.advance hn

/-- Moving the tail puts bytes at the back, if they are in memory there and the bytes of the queue
still are in theirs. Counted from the tail, the queue lies behind the free space. -/
theorem extend (hroom : bytes.length ≤ actsRingbufSpace rb)
    (hnew : ∀ i, i < bytes.length → memory ((rb.tail + i) % rb.size) = bytes.getD i 0)
    (hold : ∀ i, actsRingbufSpace rb ≤ i → i < rb.size →
      memory ((rb.tail + i) % rb.size) = rb.memory ((rb.tail + i) % rb.size)) :
    Contains { rb with tail := rb.tail + bytes.length, memory := memory } (queue ++ bytes) := by
  have hle := h.le_size
  have htail := h.tail_eq
  rw [h.space_eq] at hroom hold
  refine ⟨?_, ?_, ?_⟩
  · rw [length_append]
    dsimp only
    omega
  · rw [length_append]
    dsimp only
    omega
  intro i hi
  rw [length_append] at hi
  dsimp only
  rcases lt_or_ge i queue.length with hfront | hback
  · have hturn : (rb.tail + (rb.size - queue.length + i)) % rb.size = (rb.head + i) % rb.size := by
      rw [show rb.tail + (rb.size - queue.length + i) = rb.head + i + rb.size by
        omega, add_mod_right]
    have hmem := hold (rb.size - queue.length + i) (le_add_right _ _) (by omega)
    rw [hturn] at hmem
    rw [hmem, h.byte i hfront]
    simp [List.getD, getElem?_append_left hfront]
  · have hmem := hnew (i - queue.length) (by omega)
    rw [show rb.tail + (i - queue.length) = rb.head + i by omega] at hmem
    rw [hmem]
    simp [List.getD, getElem?_append_right hback]

end

end Contains

theorem memcpy_inside (hlo : offset ≤ a)
    (hhi : a < offset + bytes.length) : memcpy memory offset bytes a = bytes.getD (a - offset) 0 :=
  if_pos ⟨hlo, hhi⟩

theorem memcpy_outside
    (h : ¬ (offset ≤ a ∧ a < offset + bytes.length)) : memcpy memory offset bytes a = memory a :=
  if_neg h

/-- Bytes that are copied into the circle from some count on, in one piece or in two. -/
def memcpyWrapped (rb : ActsRingbuf) (memory : Image) (count : Nat) (bytes : List UInt8) : Image :=
  let offset := rb.place count
  let len := rb.size - offset
  if len ≥ bytes.length then memcpy memory offset bytes
  else memcpy (memcpy memory offset (bytes.take len)) 0 (bytes.drop len)

/-- At the places of the counts are then the bytes, and everywhere else what was there. -/
theorem memcpyWrapped_apply {rb : ActsRingbuf} (hsize : bytes.length ≤ rb.size)
    (memory : Image) (count : Nat) {i : Nat} (hi : i < rb.size) :
    memcpyWrapped rb memory count bytes ((count + i) % rb.size) =
      if i < bytes.length then bytes.getD i 0 else memory ((count + i) % rb.size) := by
  have hlt := mod_lt count (show 0 < rb.size by omega)
  rw [memcpyWrapped, place_eq, add_mod_eq hi]
  split
  · next hone =>
      split <;> split
      · rw [memcpy_inside (by omega) (by omega), Nat.add_sub_cancel_left]
      · exact memcpy_outside (by omega)
      · omega
      · exact memcpy_outside (by omega)
  · next htwo =>
      have htake : (bytes.take (rb.size - count % rb.size)).length = rb.size - count % rb.size :=
        length_take_of_le (by omega)
      have hdrop : (bytes.drop (rb.size - count % rb.size)).length =
          bytes.length - (rb.size - count % rb.size) := length_drop
      split <;> split
      · rw [memcpy_outside (by rw [hdrop]; omega), memcpy_inside (by omega) (by rw [htake]; omega),
          Nat.add_sub_cancel_left]
        simp [List.getD, getElem?_take_of_lt (show i < rb.size - count % rb.size by omega)]
      · omega
      · rw [memcpy_inside (zero_le _) (by rw [hdrop]; omega)]
        simp only [List.getD, getElem?_drop]
        congr 2
        omega
      · rw [memcpy_outside (by rw [hdrop]; omega), memcpy_outside (by rw [htake]; omega)]

theorem put_eq {rb : ActsRingbuf} (hroom : bytes.length ≤ actsRingbufSpace rb) :
    actsRingbufPut rb bytes =
      ({ rb with tail := rb.tail + bytes.length, memory :=
        memcpyWrapped rb rb.memory rb.tail bytes },
        bytes.length) := by
  rw [actsRingbufPut, if_neg (not_lt.mpr hroom)]
  rfl

section

variable {rb : ActsRingbuf} {queue : List UInt8} (h : Contains rb queue)
  (hroom : bytes.length ≤ actsRingbufSpace rb)
include h hroom

/-- Bytes copied behind the tail are a longer queue. -/
theorem Contains.store :
    Contains { rb with tail :=
      rb.tail + bytes.length, memory := memcpyWrapped rb rb.memory rb.tail bytes }
      (queue ++ bytes) := by
  have hsize : bytes.length ≤ rb.size := hroom.trans (sub_le _ _)
  refine h.extend hroom (fun i hi => ?_) fun i hspace hi => ?_
  · rw [memcpyWrapped_apply hsize _ _ (by omega), if_pos hi]
  · rw [memcpyWrapped_apply hsize _ _ hi, if_neg (by omega)]

/-- `acts_ringbuf_put` puts bytes at the back. -/
theorem Contains.put : Contains (actsRingbufPut rb bytes).1 (queue ++ bytes) := by
  rw [put_eq hroom]
  exact h.store hroom

end

end SpeakerFirmware.Utils
