/-
# The other operations of the ring buffer

The rest of `acts_ringbuf.c`: handing out pieces of the memory, dropping and filling,
moving bytes from one ring to another, reading and writing through a stream, and moving
the content to the front. Each operation is followed by what it does to the queue.

`memcpy` copies upwards, so `acts_ringbuf_defrag`, which copies downwards in one memory,
may use it: `memcpyUp_apply`.
-/

import SpeakerFirmware.Utils.ActsRingbuf

namespace SpeakerFirmware.Utils

open NorFlash (Image length_read)
open Errno
open List Nat

variable {memory : Image} {size n : Nat}

variable {rb : ActsRingbuf} {queue : List UInt8}

/-! ## Claims -/

/-- The bytes that can be read in one piece, and the free places that can be written in one. -/
def ActsRingbuf.frontPiece (rb : ActsRingbuf) : Nat :=
  min (rb.size - rb.place rb.head) (actsRingbufLength rb)

def ActsRingbuf.backPiece (rb : ActsRingbuf) : Nat :=
  min (rb.size - rb.place rb.tail) (actsRingbufSpace rb)

/-- `acts_ringbuf_get_claim`: the offset of the pointer it sets, and its result. -/
def actsRingbufGetClaim (rb : ActsRingbuf) (size : Nat) : Nat × Nat :=
  (rb.place rb.head, if size ≤ rb.frontPiece then size else rb.frontPiece)

def actsRingbufGetFinish (rb : ActsRingbuf) (size : Nat) : ActsRingbuf × Int :=
  if size > rb.frontPiece then (rb, einval) else ({ rb with head := rb.head + size }, 0)

def actsRingbufPutClaim (rb : ActsRingbuf) (size : Nat) : Nat × Nat :=
  (rb.place rb.tail, if size ≤ rb.backPiece then size else rb.backPiece)

def actsRingbufPutFinish (rb : ActsRingbuf) (size : Nat) : ActsRingbuf × Int :=
  if size > rb.backPiece then (rb, einval) else ({ rb with tail := rb.tail + size }, 0)

/-- What the caller stores in the memory it has claimed. -/
def storeClaimed (rb : ActsRingbuf) (bytes : List UInt8) : ActsRingbuf :=
  { rb with memory := memcpy rb.memory (rb.place rb.tail) bytes }

/-- A claimed piece shows the front of the queue. -/
theorem Contains.read_claim (h : Contains rb queue) (size : Nat) :
    NorFlash.read rb.memory (actsRingbufGetClaim rb size).1 (actsRingbufGetClaim rb size).2 =
      queue.take (actsRingbufGetClaim rb size).2 := by
  have hle : (actsRingbufGetClaim rb size).2 ≤ rb.frontPiece := by
    rw [actsRingbufGetClaim]
    dsimp only
    split <;> omega
  rw [ActsRingbuf.frontPiece, h.length_eq, place_eq] at hle
  have hsize := h.le_size
  refine h.read_piece 0 (by omega) fun i hi => ?_
  rw [zero_add, add_mod_eq (by omega), if_pos (by omega), ← place_eq]
  rfl

/-- A piece that does not wrap is copied as it is. -/
theorem memcpyWrapped_of_le {count : Nat} {bytes : List UInt8}
    (h : bytes.length ≤ rb.size - rb.place count) :
    memcpyWrapped rb memory count bytes = memcpy memory (rb.place count) bytes := by
  rw [memcpyWrapped]
  exact if_pos h

/-! ## Dropping and filling -/

def actsRingbufDrop (rb : ActsRingbuf) (size : Nat) : ActsRingbuf × Nat :=
  if size > actsRingbufLength rb then (rb, 0) else ({ rb with head := rb.head + size }, size)

/-- `memset` on the memory. -/
def memset (memory : Image) (offset : Nat) (c : UInt8) (size : Nat) : Image :=
  fun a => if offset ≤ a ∧ a < offset + size then c else memory a

def actsRingbufFill (rb : ActsRingbuf) (c : UInt8) (size : Nat) : ActsRingbuf × Nat :=
  if size > actsRingbufSpace rb then (rb, 0)
  else
    let offset := rb.place rb.tail
    let len := rb.size - offset
    let memory :=
      if len ≥ size then memset rb.memory offset c size
      else memset (memset rb.memory offset c len) 0 c (size - len)
    ({ rb with tail := rb.tail + size, memory := memory }, size)

theorem memset_eq (memory : Image) (offset : Nat) (c : UInt8) (size : Nat) :
    memset memory offset c size = memcpy memory offset (List.replicate size c) := by
  funext a
  rw [memset, memcpy, length_replicate]
  split
  · rw [getD_replicate]
    omega
  · rfl

/-- Filling is putting the same byte many times. -/
theorem fill_eq (rb : ActsRingbuf) (c : UInt8) (size : Nat) :
    actsRingbufFill rb c size = actsRingbufPut rb (List.replicate size c) := by
  rw [actsRingbufFill, actsRingbufPut, length_replicate]
  simp only [memset_eq, take_replicate, drop_replicate]
  split
  · rfl
  · split
    · rfl
    · rw [min_eq_left (by omega)]

/-! ## Moving bytes to another ring -/

/-- The loop of `acts_ringbuf_copy`: the memory of the destination behind it. Every round copies a
byte, so that `size` rounds are enough. -/
def copyLoop (dst src : ActsRingbuf) : Nat → Image → Nat → Nat → Nat → Image
  | 0, memory, _, _, _ => memory
  | fuel + 1, memory, srcOffset, dstOffset, size =>
    let most := min (src.size - srcOffset) (dst.size - dstOffset)
    let len := if most > size then size else most
    let memory := memcpy memory dstOffset (NorFlash.read src.memory srcOffset len)
    if size - len = 0 then memory
    else
      let srcOffset := if srcOffset + len ≥ src.size then 0 else srcOffset + len
      let dstOffset := if dstOffset + len ≥ dst.size then 0 else dstOffset + len
      copyLoop dst src fuel memory srcOffset dstOffset (size - len)

/-- How much `acts_ringbuf_copy` moves. -/
def copySize (dst src : ActsRingbuf) (size : Nat) : Nat :=
  min (min size (actsRingbufLength src)) (actsRingbufSpace dst)

/-- `acts_ringbuf_copy`: the destination, the source, and the result. -/
def actsRingbufCopy (dst src : ActsRingbuf) (size : Nat) : ActsRingbuf × ActsRingbuf × Nat :=
  let n := copySize dst src size
  if n = 0 then (dst, src, 0)
  else
    let memory := copyLoop dst src n dst.memory (src.place src.head) (dst.place dst.tail) n
    ({ dst with tail := dst.tail + n, memory := memory }, { src with head := src.head + n }, n)

/-- The offset behind a piece, in the circle. -/
theorem wrap_offset {offset len : Nat} (hlt : offset < size) (hlen : len ≤ size - offset) :
    (if offset + len ≥ size then 0 else offset + len) = (offset + len) % size := by
  split
  · have hsum : offset + len = size := by omega
    rw [hsum, mod_self]
  · exact (mod_eq_of_lt (by omega)).symm

/-- The loop copies the circle of the source into the circle of the destination, and touches
nothing else there. -/
theorem copyLoop_apply {dst src : ActsRingbuf} {fuel srcOffset dstOffset : Nat}
    (hfuel : size ≤ fuel)
    (hsize : size ≤ dst.size) (hsrc : srcOffset < src.size) (hdst : dstOffset < dst.size)
    (memory : Image) {i : Nat} (hi : i < dst.size) :
    copyLoop dst src fuel memory srcOffset dstOffset size ((dstOffset + i) % dst.size) =
      if i < size then src.memory ((srcOffset + i) % src.size)
        else memory ((dstOffset + i) % dst.size) := by
  induction fuel generalizing size srcOffset dstOffset memory i with
  | zero =>
    rw [copyLoop, if_neg (by omega)]
  | succ fuel ih =>
    rw [copyLoop]
    dsimp only
    generalize hlen : (if min (src.size - srcOffset) (dst.size - dstOffset) > size then size
      else min (src.size - srcOffset) (dst.size - dstOffset)) = len
    have hle : len ≤ size ∧ len ≤ src.size - srcOffset ∧ len ≤ dst.size - dstOffset ∧
        (size = 0 ∨ 0 < len) := by
      rw [← hlen]
      split <;> omega
    obtain ⟨hlsize, hlsrc, hldst, hpos⟩ := hle
    have hplace : (dstOffset + i) % dst.size = _ := add_mod_eq hi
    rw [mod_eq_of_lt hdst] at hplace
    -- the piece of this round
    have hpiece : memcpy memory dstOffset (NorFlash.read src.memory srcOffset len)
          ((dstOffset + i) % dst.size) =
        if i < len then src.memory ((srcOffset + i) % src.size)
          else memory ((dstOffset + i) % dst.size) := by
      split
      · next hin =>
          rw [hplace, if_pos (by omega), memcpy_inside (by omega) (by rw [length_read]; omega),
            Nat.add_sub_cancel_left, NorFlash.getD_read _ _ _ _ hin, Nat.mod_eq_of_lt (by omega)]
      · next hout =>
          refine memcpy_outside ?_
          rw [length_read, hplace]
          split <;> omega
    split
    · next hdone =>
        have heq : len = size := by omega
        rw [hpiece, heq]
    · next hmore =>
        rw [wrap_offset hsrc hlsrc, wrap_offset hdst hldst]
        have hnext : ∀ k, k < dst.size →
            copyLoop dst src fuel (memcpy memory dstOffset (NorFlash.read src.memory srcOffset len))
              ((srcOffset + len) % src.size) ((dstOffset + len) % dst.size) (size - len)
              (((dstOffset + len) % dst.size + k) % dst.size) =
            if k < size - len then src.memory (((srcOffset + len) % src.size + k) % src.size)
            else memcpy memory dstOffset (NorFlash.read src.memory srcOffset len)
              (((dstOffset + len) % dst.size + k) % dst.size) :=
          fun k hk => ih (by omega) (by omega) (mod_lt _ (by omega)) (mod_lt _ (by omega)) _ hk
        rcases lt_or_ge i len with hin | hout
        · -- a place this round has written comes at the end of the circle for the next ones
          have hturn : ((dstOffset + len) % dst.size + (dst.size - len + i)) % dst.size =
              (dstOffset + i) % dst.size := by
            rw [mod_add_mod, show dstOffset + len + (dst.size - len + i) =
              dstOffset + i + dst.size by omega,
              add_mod_right]
          have hlast := hnext (dst.size - len + i) (by omega)
          rw [hturn, if_neg (by omega)] at hlast
          rw [hlast, hpiece, if_pos hin, if_pos (by omega)]
        · obtain ⟨k, rfl⟩ := Nat.exists_eq_add_of_le hout
          have hlast := hnext k (by omega)
          rw [Nat.mod_add_mod, Nat.mod_add_mod, Nat.add_assoc, Nat.add_assoc] at hlast
          rw [hlast]
          split
          · rw [if_pos (by omega)]
          · rw [hpiece, if_neg (by omega), if_neg (by omega)]

/-- `acts_ringbuf_copy` takes bytes from the front of the source and puts them at the back of the
destination. -/
theorem Contains.copy {dst src : ActsRingbuf} {dstQueue srcQueue : List UInt8}
    (hdst : Contains dst dstQueue) (hsrc : Contains src srcQueue) (size : Nat) :
    Contains (actsRingbufCopy dst src size).1 (dstQueue ++ srcQueue.take (copySize dst src size)) ∧
      Contains (actsRingbufCopy dst src size).2.1 (srcQueue.drop (copySize dst src size)) ∧
      (actsRingbufCopy dst src size).2.2 = copySize dst src size := by
  have hmove : copySize dst src size ≤ srcQueue.length ∧
      copySize dst src size ≤ actsRingbufSpace dst := by
    rw [copySize, hsrc.length_eq]
    omega
  rw [actsRingbufCopy]
  split
  · next hzero =>
      rw [hzero, take_zero, append_nil, drop_zero]
      exact ⟨hdst, hsrc, rfl⟩
  · next hsome =>
      refine ⟨?_, hsrc.advance hmove.1, rfl⟩
      have htake : (srcQueue.take (copySize dst src size)).length = copySize dst src size :=
        length_take_of_le hmove.1
      have hspace : actsRingbufSpace dst ≤ dst.size := sub_le _ _
      have hsrcSize := hsrc.le_size
      have hcopied : ∀ i, i < dst.size →
          copyLoop dst src (copySize dst src size) dst.memory (src.place src.head)
            (dst.place dst.tail)
            (copySize dst src size) ((dst.tail + i) % dst.size) =
          if i < copySize dst src size then src.memory ((src.head + i) % src.size)
          else dst.memory ((dst.tail + i) % dst.size) := by
        intro i hi
        have hfuel : copySize dst src size ≤ copySize dst src size := le_refl _
        have hloop := copyLoop_apply hfuel (by omega) (mod_lt src.head (show 0 < src.size by omega))
          (mod_lt dst.tail (show 0 < dst.size by omega)) dst.memory hi
        rw [mod_add_mod, mod_add_mod] at hloop
        rw [place_eq, place_eq]
        exact hloop
      have hnew : ∀ i, i < (srcQueue.take (copySize dst src size)).length →
          copyLoop dst src (copySize dst src size) dst.memory (src.place src.head)
            (dst.place dst.tail)
            (copySize dst src size) ((dst.tail + i) % dst.size) =
          (srcQueue.take (copySize dst src size)).getD i 0 := by
        intro i hi
        rw [htake] at hi
        rw [hcopied i (by omega), if_pos hi, hsrc.byte i (by omega)]
        simp [List.getD, getElem?_take_of_lt hi]
      have hextend := hdst.extend (by omega) hnew fun i hlo hi =>
        by rw [hcopied i hi, if_neg (by omega)]
      rw [htake] at hextend
      exact hextend

/-! ## Streams -/

/-- The end of `acts_ringbuf_read`: the bytes the stream has taken leave the ring. -/
def finishRead (rb : ActsRingbuf) (streamLen : Int) (taken : List UInt8) :
    ActsRingbuf × Nat × List UInt8 :=
  if streamLen > 0 then ({ rb with head := rb.head + streamLen.toNat }, streamLen.toNat, taken)
  else (rb, 0, [])

/-- `acts_ringbuf_read`: the result, and the bytes the stream has taken. `streamWrite` is given the
number of the call and a piece, and returns how much of it it took, or an error. -/
def actsRingbufRead (rb : ActsRingbuf) (size : Nat) (streamWrite : Nat → List UInt8 → Int) :
    ActsRingbuf × Nat × List UInt8 :=
  if size > actsRingbufLength rb then (rb, 0, [])
  else
    let offset := rb.place rb.head
    let len := rb.size - offset
    if len ≥ size then
      let piece := NorFlash.read rb.memory offset size
      let streamLen := streamWrite 0 piece
      finishRead rb streamLen (piece.take streamLen.toNat)
    else
      let piece := NorFlash.read rb.memory offset len
      let streamLen := streamWrite 0 piece
      if streamLen = len then
        let more := NorFlash.read rb.memory 0 (size - len)
        let tmp := streamWrite 1 more
        finishRead rb (if tmp > 0 then streamLen + tmp else streamLen)
          (piece ++ more.take tmp.toNat)
      else finishRead rb streamLen (piece.take streamLen.toNat)

/-- The end of `acts_ringbuf_write`: the bytes the stream has delivered enter the ring. -/
def finishWrite (rb : ActsRingbuf) (streamLen : Int) (given : List UInt8) :
    ActsRingbuf × Nat × List UInt8 :=
  if streamLen > 0 then ({ rb with tail := rb.tail + streamLen.toNat }, streamLen.toNat, given)
  else (rb, 0, [])

/-- `acts_ringbuf_write`: the result, and the bytes the stream has delivered. `streamRead` is given
the number of the call and a size; it stores bytes and returns how many of them count, or an
error. -/
def actsRingbufWrite (rb : ActsRingbuf) (size : Nat) (streamRead : Nat → Nat → List UInt8 × Int) :
    ActsRingbuf × Nat × List UInt8 :=
  if size > actsRingbufSpace rb then (rb, 0, [])
  else
    let offset := rb.place rb.tail
    let len := rb.size - offset
    if len ≥ size then
      let got := streamRead 0 size
      finishWrite { rb with memory := memcpy rb.memory offset got.1 } got.2 (got.1.take got.2.toNat)
    else
      let got := streamRead 0 len
      let memory := memcpy rb.memory offset got.1
      if got.2 = len then
        let more := streamRead 1 (size - len)
        finishWrite { rb with memory := memcpy memory 0 more.1 }
          (if more.2 > 0 then got.2 + more.2 else got.2) (got.1 ++ more.1.take more.2.toNat)
      else finishWrite { rb with memory := memory } got.2 (got.1.take got.2.toNat)

/-- A stream takes no more than it is given. -/
def TakesAtMost (streamWrite : Nat → List UInt8 → Int) : Prop :=
  ∀ call piece, streamWrite call piece ≤ (piece.length : Int)

/-- A stream stores no more than it is asked for, and counts no more than it stores. -/
def DeliversAtMost (streamRead : Nat → Nat → List UInt8 × Int) : Prop :=
  ∀ call size, (streamRead call size).1.length ≤ size ∧
    (streamRead call size).2 ≤ ((streamRead call size).1.length : Int)

/-- How much of the front of a queue a stream takes, with the first `most` places up to the end of
the memory. -/
def takenCount (streamWrite : Nat → List UInt8 → Int) (most size : Nat) (bytes : List UInt8) :
    Nat :=
  if size ≤ most then (streamWrite 0 (bytes.take size)).toNat
  else if streamWrite 0 (bytes.take most) = most then
    most + (streamWrite 1 ((bytes.drop most).take (size - most))).toNat
  else (streamWrite 0 (bytes.take most)).toNat

section

variable {streamWrite : Nat → List UInt8 → Int} (hstream : TakesAtMost streamWrite)
include hstream

theorem TakesAtMost.toNat_le
    (call : Nat) (bytes : List UInt8) (n : Nat) : (streamWrite call (bytes.take n)).toNat ≤ n := by
  have hle := hstream call (bytes.take n)
  have hlen := length_take_le n bytes
  omega

theorem takenCount_le
    (most size : Nat) (bytes : List UInt8) : takenCount streamWrite most size bytes ≤ size := by
  unfold takenCount
  split
  · exact hstream.toNat_le 0 bytes size
  · split
    · have hmore := hstream.toNat_le 1 (bytes.drop most) (size - most)
      omega
    · have hfirst := hstream.toNat_le 0 bytes most
      omega

end

theorem finishRead_eq (rb : ActsRingbuf) {streamLen : Int} {front taken : List UInt8}
    (hn : streamLen.toNat = n) (htaken : taken = front.take n) :
    finishRead rb streamLen taken = ({ rb with head := rb.head + n }, n, front.take n) := by
  subst hn htaken
  rw [finishRead]
  split
  · rfl
  · rw [show streamLen.toNat = 0 by omega]
    rfl

/-- The part of the memory up to its end, from the head on. -/
theorem Contains.read_front (h : Contains rb queue) (hn : n ≤ queue.length)
    (hone : n ≤ rb.size - rb.place rb.head) :
    NorFlash.read rb.memory (rb.place rb.head) n = queue.take n := by
  have hle := h.le_size
  rw [place_eq] at hone ⊢
  refine h.read_piece 0 (by omega) fun i hi => ?_
  rw [zero_add, add_mod_eq (by omega), if_pos (by omega)]

/-- The part from the start of the memory on. -/
theorem Contains.read_wrapped (h : Contains rb queue)
    (hn : rb.size - rb.place rb.head + n ≤ queue.length) :
    NorFlash.read rb.memory 0 n = (queue.drop (rb.size - rb.place rb.head)).take n := by
  have hle := h.le_size
  rw [place_eq] at hn ⊢
  refine h.read_piece _ hn fun i hi => ?_
  have hlt := mod_lt rb.head (show 0 < rb.size by omega)
  rw [add_mod_eq (by omega), if_neg (by omega)]
  omega

/-- `acts_ringbuf_read` gives the front of the queue to the stream, and takes out what the stream
has taken. -/
theorem Contains.read (h : Contains rb queue) (hsize : size ≤ queue.length)
    {streamWrite : Nat → List UInt8 → Int} (hstream : TakesAtMost streamWrite) :
    actsRingbufRead rb size streamWrite =
      ({ rb with head := rb.head + takenCount streamWrite (rb.size - rb.place rb.head) size queue },
        takenCount streamWrite (rb.size - rb.place rb.head) size queue,
        queue.take (takenCount streamWrite (rb.size - rb.place rb.head) size queue)) := by
  rw [actsRingbufRead, h.length_eq, if_neg (not_lt.mpr hsize), takenCount]
  dsimp only
  generalize hmost : rb.size - rb.place rb.head = most
  split
  · next hone =>
      rw [h.read_front hsize (by omega)]
      refine finishRead_eq rb rfl ?_
      rw [take_take, min_eq_left (hstream.toNat_le 0 queue size)]
  · next htwo =>
      have hpos : 0 < most := by
        have hlt := mod_lt rb.head (show 0 < rb.size by have := h.le_size; omega)
        rw [← place_eq] at hlt
        omega
      rw [h.read_front (n := most) (by omega) (by omega)]
      split
      · next hfull =>
          have hmore : NorFlash.read rb.memory 0 (size - most) =
              (queue.drop most).take (size - most) := by
            rw [← hmost]
            exact h.read_wrapped (by omega)
          have htmp := hstream.toNat_le 1 (queue.drop most) (size - most)
          rw [hmore, hfull]
          refine finishRead_eq rb ?_ ?_
          · split <;> omega
          · rw [take_take, min_eq_left htmp, take_add]
      · refine finishRead_eq rb rfl ?_
        rw [take_take, min_eq_left (hstream.toNat_le 0 queue most)]

/-- The bytes of a stream that enter a ring with `most` places up to the end of the memory. -/
def givenBytes (streamRead : Nat → Nat → List UInt8 × Int) (most size : Nat) : List UInt8 :=
  if size ≤ most then (streamRead 0 size).1.take (streamRead 0 size).2.toNat
  else if (streamRead 0 most).2 = most then
    (streamRead 0 most).1 ++ (streamRead 1 (size - most)).1.take
      (streamRead 1 (size - most)).2.toNat
  else (streamRead 0 most).1.take (streamRead 0 most).2.toNat

/-- Bytes are stored behind the tail, and the first `n` of them become part of the queue. -/
theorem Contains.store_take (h : Contains rb queue) {stored : List UInt8}
    (hroom : stored.length ≤ actsRingbufSpace rb) (hn : n ≤ stored.length) :
    Contains { rb with tail := rb.tail + n, memory := memcpyWrapped rb rb.memory rb.tail stored }
      (queue ++ stored.take n) := by
  have hsize : stored.length ≤ rb.size := hroom.trans (sub_le _ _)
  have htake : (stored.take n).length = n := length_take_of_le hn
  have hnew : ∀ i, i < (stored.take n).length →
      memcpyWrapped rb rb.memory rb.tail stored ((rb.tail + i) % rb.size) =
        (stored.take n).getD i 0 := by
    intro i hi
    rw [htake] at hi
    rw [memcpyWrapped_apply hsize _ _ (by omega), if_pos (by omega)]
    simp [List.getD, getElem?_take_of_lt hi]
  have hextend := h.extend (by omega) hnew fun i hlo hi => by
    rw [memcpyWrapped_apply hsize _ _ hi, if_neg (by omega)]
  rw [htake] at hextend
  exact hextend

theorem memcpy_nil (memory : Image) (offset : Nat) : memcpy memory offset [] = memory := by
  funext a
  exact memcpy_outside (by rw [length_nil]; omega)

/-- Two pieces, the first up to the end of the memory, the second from its start on. -/
theorem memcpyWrapped_append (memory : Image) (count : Nat) {first second : List UInt8}
    (hfirst : first.length = rb.size - rb.place count) :
    memcpyWrapped rb memory count (first ++ second) =
      memcpy (memcpy memory (rb.place count) first) 0 second := by
  rw [memcpyWrapped, length_append, ← hfirst, take_left, drop_left]
  split
  · next hnone =>
      have hnil : second = [] := length_eq_zero_iff.mp (by omega)
      rw [hnil, append_nil, memcpy_nil]
  · rfl

theorem Contains.finishWrite (h : Contains rb queue) {stored given : List UInt8} {streamLen : Int}
    (hroom : stored.length ≤ actsRingbufSpace rb) (hlen : streamLen ≤ (stored.length : Int))
    (hgiven : given = stored.take streamLen.toNat)
    (hmemory : memory = memcpyWrapped rb rb.memory rb.tail stored) :
    Contains (Utils.finishWrite { rb with memory := memory } streamLen given).1 (queue ++ given) ∧
      (Utils.finishWrite { rb with memory := memory } streamLen given).2 = (given.length, given) ∧
      (Utils.finishWrite { rb with memory := memory } streamLen given).1.head = rb.head ∧
      (Utils.finishWrite { rb with memory := memory } streamLen given).1.size = rb.size := by
  have hstore := h.store_take hroom (n := streamLen.toNat) (by omega)
  rw [← hmemory, ← hgiven] at hstore
  rw [Utils.finishWrite]
  split
  · refine ⟨hstore, ?_, rfl, rfl⟩
    rw [hgiven, length_take_of_le (by omega)]
  · have hzero : streamLen.toNat = 0 := by omega
    rw [hzero, take_zero] at hgiven
    rw [hzero] at hstore
    refine ⟨hstore, ?_, rfl, rfl⟩
    rw [hgiven, length_nil]

/-- `acts_ringbuf_write` puts what the stream has delivered at the back. -/
theorem Contains.write (h : Contains rb queue) (hsize : size ≤ actsRingbufSpace rb)
    {streamRead : Nat → Nat → List UInt8 × Int} (hstream : DeliversAtMost streamRead) :
    Contains (actsRingbufWrite rb size streamRead).1
        (queue ++ givenBytes streamRead (rb.size - rb.place rb.tail) size) ∧
      (actsRingbufWrite rb size streamRead).2 =
        ((givenBytes streamRead (rb.size - rb.place rb.tail) size).length,
          givenBytes streamRead (rb.size - rb.place rb.tail) size) ∧
      (actsRingbufWrite rb size streamRead).1.head = rb.head ∧
      (actsRingbufWrite rb size streamRead).1.size = rb.size := by
  rw [actsRingbufWrite, if_neg (not_lt.mpr hsize), givenBytes]
  dsimp only
  split
  · next hone =>
      have hgot := hstream 0 size
      exact h.finishWrite (by omega) hgot.2 rfl (memcpyWrapped_of_le (by omega)).symm
  · next htwo =>
      have hgot := hstream 0 (rb.size - rb.place rb.tail)
      split
      · next hfull =>
          have hmore := hstream 1 (size - (rb.size - rb.place rb.tail))
          have hlen : (streamRead 0 (rb.size - rb.place rb.tail)).1.length =
              rb.size - rb.place rb.tail := by
            omega
          have hcount : (if (streamRead 1 (size - (rb.size - rb.place rb.tail))).2 > 0 then
                (streamRead 0 (rb.size - rb.place rb.tail)).2 +
                  (streamRead 1 (size - (rb.size - rb.place rb.tail))).2
              else (streamRead 0 (rb.size - rb.place rb.tail)).2).toNat =
              (streamRead 0 (rb.size - rb.place rb.tail)).1.length +
                (streamRead 1 (size - (rb.size - rb.place rb.tail))).2.toNat := by
            split <;> omega
          refine h.finishWrite (by rw [length_append]; omega) ?_ ?_
            (memcpyWrapped_append _ _ hlen).symm
          · rw [length_append]
            split <;> omega
          · rw [hcount, take_length_add_append]
      · exact h.finishWrite (by omega) hgot.2 rfl (memcpyWrapped_of_le (by omega)).symm

/-! ## Moving the content to the front -/

/-- `memcpy` inside one memory, which copies upwards. -/
def memcpyUp (memory : Image) (dst src : Nat) : Nat → Image
  | 0 => memory
  | n + 1 => fun a =>
    if a = dst + n then memcpyUp memory dst src n (src + n) else memcpyUp memory dst src n a

def actsRingbufDefrag (rb : ActsRingbuf) : ActsRingbuf :=
  let roff := rb.place rb.head
  let woff := rb.place rb.tail
  if roff = 0 ∨ rb.head = rb.tail then { rb with head := 0, tail := rb.tail - rb.head }
  else if roff ≥ woff then
    -- both are `uint32_t`, the tail is not
    { rb with head := roff, tail := (woff + rb.size) % 2 ^ 32 }
  else
    { rb with
      head := 0
      tail := rb.tail - rb.head
      memory := memcpyUp rb.memory 0 roff (woff - roff) }

/-- Copying upwards to a lower place reads no byte that has been written. -/
theorem memcpyUp_apply {dst src : Nat} (hle : dst ≤ src) (n a : Nat) :
    memcpyUp memory dst src n a =
      if dst ≤ a ∧ a < dst + n then memory (src + (a - dst)) else memory a := by
  induction n generalizing a with
  | zero => rw [memcpyUp, if_neg (by omega)]
  | succ n ih =>
    have hsrc : memcpyUp memory dst src n (src + n) = memory (src + n) := by
      rw [ih, if_neg (by omega)]
    rw [memcpyUp]
    dsimp only
    rw [hsrc, ih]
    by_cases heq : a = dst + n
    · rw [if_pos heq, if_pos (by omega), heq, Nat.add_sub_cancel_left]
    · rw [if_neg heq]
      exact if_congr (by omega) rfl rfl

/-- `acts_ringbuf_defrag` leaves the queue as it is. -/
theorem Contains.defrag (h : Contains rb queue) (hsize : rb.size ≤ 2 ^ 31) :
    Contains (actsRingbufDefrag rb) queue := by
  have hle := h.le_size
  have htail := h.tail_eq
  rw [actsRingbufDefrag, place_eq, place_eq]
  split
  · next hstart =>
      refine ⟨by dsimp only; omega, hle, fun i hi => ?_⟩
      dsimp only
      rw [← h.byte i hi, zero_add]
      rcases hstart with hzero | hempty
      · rw [add_mod, hzero, zero_add, mod_mod]
      · omega
  · next hstart =>
      have hpos : 0 < queue.length := by omega
      have hplace : rb.tail % rb.size = if rb.head % rb.size + queue.length < rb.size then
          rb.head % rb.size + queue.length else rb.head % rb.size + queue.length - rb.size := by
        have hlt := mod_lt rb.head (show 0 < rb.size by omega)
        rw [htail, ← mod_add_mod]
        split
        · next hin => exact mod_eq_of_lt hin
        · next hout =>
            rw [mod_eq_sub_mod (not_lt.mp hout)]
            exact mod_eq_of_lt (by omega)
      split
      · next hwrap =>
          have hlt := mod_lt rb.tail (show 0 < rb.size by omega)
          refine ⟨?_, hle, fun i hi => ?_⟩
          · dsimp only
            rw [mod_eq_of_lt (by omega)]
            split at hplace <;> omega
          · dsimp only
            rw [mod_add_mod]
            exact h.byte i hi
      · next hone =>
          refine ⟨by dsimp only; omega, hle, fun i hi => ?_⟩
          have hfits : rb.head % rb.size + queue.length < rb.size ∧
              rb.tail % rb.size = rb.head % rb.size + queue.length := by
            split at hplace <;> omega
          have hbyte := h.byte i hi
          rw [add_mod_eq (by omega), if_pos (by omega)] at hbyte
          dsimp only
          rw [Nat.zero_add, Nat.mod_eq_of_lt (show i < rb.size by omega),
            memcpyUp_apply (Nat.zero_le _),
            if_pos ⟨Nat.zero_le i, by rw [hfits.2]; omega⟩, ← hbyte, Nat.sub_zero]

end SpeakerFirmware.Utils
