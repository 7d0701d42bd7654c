/-
# The bytes around a ring buffer

A ring owns the first `size` bytes of the memory its address points to. `surround` keeps
these and replaces all others. Each function of `acts_ringbuf.c` gives the same results on
a ring and on the ring with other bytes around it, and leaves the bytes around it as they
are. So it accesses nothing outside the ring.
-/

import SpeakerFirmware.Utils.RingbufOps

namespace SpeakerFirmware.Utils

open NorFlash (Image length_read)
open List Nat

variable {memory other : Image} {size n offset count : Nat} {bytes : List UInt8}

/-- The first `size` bytes of a memory, and other bytes behind them. -/
def surround (size : Nat) (other memory : Image) : Image :=
  fun a => if a < size then memory a else other a

def ActsRingbuf.surround (rb : ActsRingbuf) (other : Image) : ActsRingbuf :=
  { rb with memory := Utils.surround rb.size other rb.memory }

/-! ## Copies inside the memory -/

theorem read_surround (h : offset + n ≤ size) :
    NorFlash.read (surround size other memory) offset n = NorFlash.read memory offset n := by
  apply ext_getElem
  · rw [length_read, length_read]
  · intro i hi _
    rw [length_read] at hi
    simp only [NorFlash.read, getElem_map, getElem_range, surround]
    rw [if_pos (by omega)]

theorem memcpy_surround (h : offset + bytes.length ≤ size) :
    memcpy (surround size other memory) offset bytes =
      surround size other (memcpy memory offset bytes) := by
  funext a
  simp only [memcpy, surround]
  by_cases hin : offset ≤ a ∧ a < offset + bytes.length
  · rw [if_pos hin, if_pos hin, if_pos (by omega)]
  · rw [if_neg hin, if_neg hin]

theorem memcpyUp_surround {src : Nat} (h : src + n ≤ size) :
    memcpyUp (surround size other memory) 0 src n =
      surround size other (memcpyUp memory 0 src n) := by
  funext a
  rw [memcpyUp_apply (zero_le _)]
  simp only [surround]
  rw [memcpyUp_apply (zero_le _)]
  by_cases hin : 0 ≤ a ∧ a < 0 + n
  · rw [if_pos hin, if_pos hin, if_pos (by omega), if_pos (by omega)]
  · rw [if_neg hin, if_neg hin]

variable {rb : ActsRingbuf}

theorem place_lt (hpos : 0 < rb.size) (count : Nat) : rb.place count < rb.size := by
  rw [place_eq]
  exact mod_lt _ hpos

section

variable (hpos : 0 < rb.size)
include hpos

theorem memcpyWrapped_surround (hsize : bytes.length ≤ rb.size) :
    memcpyWrapped (rb.surround other) (surround rb.size other memory) count bytes =
      surround rb.size other (memcpyWrapped rb memory count bytes) := by
  have hplace := place_lt hpos count
  have hsame : (rb.surround other).place count = rb.place count := rfl
  have hsize' : (rb.surround other).size = rb.size := rfl
  rw [memcpyWrapped, memcpyWrapped, hsame, hsize']
  split
  · exact memcpy_surround (by omega)
  · have htake := length_take_le (rb.size - rb.place count) bytes
    have hdrop : (bytes.drop (rb.size - rb.place count)).length =
        bytes.length - (rb.size - rb.place count) := length_drop
    rw [memcpy_surround (by omega), memcpy_surround (by omega)]

/-! ## The functions -/

variable (other)

theorem put_surround (bytes : List UInt8) :
    actsRingbufPut (rb.surround other) bytes =
      ((actsRingbufPut rb bytes).1.surround other, (actsRingbufPut rb bytes).2) := by
  have hspace : actsRingbufSpace rb ≤ rb.size := sub_le _ _
  rcases lt_or_ge (actsRingbufSpace rb) bytes.length with hfull | hroom
  · have hput : actsRingbufPut rb bytes = (rb, 0) := if_pos hfull
    rw [hput]
    exact if_pos hfull
  · have hroom' : bytes.length ≤ actsRingbufSpace (rb.surround other) := hroom
    rw [put_eq hroom, put_eq hroom']
    have hmemory : memcpyWrapped (rb.surround other) (rb.surround other).memory
        (rb.surround other).tail bytes = _ := memcpyWrapped_surround hpos (hroom.trans hspace)
    rw [hmemory]
    rfl

/-- `hle` is part of every ring's invariant. -/
theorem peek_surround (hle : actsRingbufLength rb ≤ rb.size) (size : Nat) :
    actsRingbufPeek (rb.surround other) size = actsRingbufPeek rb size := by
  have hplace := place_lt hpos rb.head
  have hlength : actsRingbufLength (rb.surround other) = actsRingbufLength rb := rfl
  have hsame : (rb.surround other).place (rb.surround other).head = rb.place rb.head := rfl
  have hsize : (rb.surround other).size = rb.size := rfl
  rw [actsRingbufPeek, actsRingbufPeek, hlength, hsame, hsize]
  split
  · rfl
  · have hmemory : (rb.surround other).memory = surround rb.size other rb.memory := rfl
    dsimp only
    rw [hmemory]
    split
    · exact read_surround (by omega)
    · rw [read_surround (by omega), read_surround (by omega)]

end

theorem storeClaimed_surround (hpos : 0 < rb.size) (other : Image)
    (hbytes : bytes.length ≤ rb.backPiece) :
    storeClaimed (rb.surround other) bytes = (storeClaimed rb bytes).surround other := by
  have hplace := place_lt hpos rb.tail
  have hpiece : rb.backPiece ≤ rb.size - rb.place rb.tail := min_le_left _ _
  have hmemory : memcpy (surround rb.size other rb.memory) (rb.place rb.tail) bytes = _ :=
    memcpy_surround (by omega)
  exact congrArg (fun memory => { rb with memory := memory }) hmemory

theorem finishRead_surround (other : Image) (streamLen : Int) (taken : List UInt8) :
    finishRead (rb.surround other) streamLen taken =
      ((finishRead rb streamLen taken).1.surround other, (finishRead rb streamLen taken).2) := by
  unfold finishRead
  split <;> rfl

theorem actsRingbufRead_surround (hpos : 0 < rb.size) (other : Image)
    (hle : actsRingbufLength rb ≤ rb.size) (size : Nat) (streamWrite : Nat → List UInt8 → Int) :
    actsRingbufRead (rb.surround other) size streamWrite =
      ((actsRingbufRead rb size streamWrite).1.surround other,
        (actsRingbufRead rb size streamWrite).2) := by
  have hplace := place_lt hpos rb.head
  have hlength : actsRingbufLength (rb.surround other) = actsRingbufLength rb := rfl
  have hsame : (rb.surround other).place (rb.surround other).head = rb.place rb.head := rfl
  have hsize : (rb.surround other).size = rb.size := rfl
  have hmemory : (rb.surround other).memory = surround rb.size other rb.memory := rfl
  rw [actsRingbufRead, actsRingbufRead, hlength, hsame, hsize, hmemory]
  split
  · rfl
  · dsimp only
    split
    · rw [read_surround (by omega)]
      exact finishRead_surround other _ _
    · rw [read_surround (by omega), read_surround (by omega)]
      split <;> exact finishRead_surround other _ _

theorem finishWrite_surround (other : Image) (streamLen : Int) (given : List UInt8) :
    finishWrite (rb.surround other) streamLen given =
      ((finishWrite rb streamLen given).1.surround other, (finishWrite rb streamLen given).2) := by
  unfold finishWrite
  split <;> rfl

theorem actsRingbufWrite_surround (hpos : 0 < rb.size) (other : Image) (size : Nat)
    {streamRead : Nat → Nat → List UInt8 × Int} (hstream : DeliversAtMost streamRead) :
    actsRingbufWrite (rb.surround other) size streamRead =
      ((actsRingbufWrite rb size streamRead).1.surround other,
        (actsRingbufWrite rb size streamRead).2) := by
  have hplace := place_lt hpos rb.tail
  have hspace : actsRingbufSpace rb ≤ rb.size := sub_le _ _
  have hend : ∀ {copied memory : Image} (streamLen : Int) (given : List UInt8),
      copied = surround rb.size other memory →
      finishWrite { rb.surround other with memory := copied } streamLen given =
        ((finishWrite { rb with memory := memory } streamLen given).1.surround other,
          (finishWrite { rb with memory := memory } streamLen given).2) := by
    rintro _ memory streamLen given rfl
    exact @finishWrite_surround { rb with memory := memory } other streamLen given
  have hroom : actsRingbufSpace (rb.surround other) = actsRingbufSpace rb := rfl
  have hsame : (rb.surround other).place (rb.surround other).tail = rb.place rb.tail := rfl
  rw [actsRingbufWrite, actsRingbufWrite, hroom, hsame]
  split
  · rfl
  · dsimp only
    by_cases hone : rb.size - rb.place rb.tail ≥ size
    · have hone' : (rb.surround other).size - rb.place rb.tail ≥ size := hone
      have hgot := (hstream 0 size).1
      rw [if_pos hone, if_pos hone']
      exact hend _ _ (memcpy_surround (by omega))
    · have hone' : ¬ (rb.surround other).size - rb.place rb.tail ≥ size := hone
      have hsize : (rb.surround other).size - rb.place rb.tail = rb.size - rb.place rb.tail := rfl
      have hgot := (hstream 0 (rb.size - rb.place rb.tail)).1
      have hmore := (hstream 1 (size - (rb.size - rb.place rb.tail))).1
      have hfirst : memcpy (rb.surround other).memory (rb.place rb.tail)
          (streamRead 0 (rb.size - rb.place rb.tail)).1 = _ := memcpy_surround (by omega)
      rw [if_neg hone, if_neg hone', hsize]
      split
      · refine hend _ _ ?_
        rw [hfirst, memcpy_surround (by omega)]
      · exact hend _ _ hfirst

theorem defrag_surround (hpos : 0 < rb.size) (other : Image) :
    actsRingbufDefrag (rb.surround other) = (actsRingbufDefrag rb).surround other := by
  have htail := place_lt hpos rb.tail
  have hroff : (rb.surround other).place (rb.surround other).head = rb.place rb.head := rfl
  have hwoff : (rb.surround other).place (rb.surround other).tail = rb.place rb.tail := rfl
  have hmoved : (rb.surround other).head = rb.head ∧ (rb.surround other).tail = rb.tail :=
    ⟨rfl, rfl⟩
  have hmemory : (rb.surround other).memory = surround rb.size other rb.memory := rfl
  rw [actsRingbufDefrag, actsRingbufDefrag, hroff, hwoff, hmoved.1, hmoved.2, hmemory]
  split
  · rfl
  · split
    · rfl
    · rw [memcpyUp_surround (by omega)]
      rfl

/-! ## Two rings -/

theorem copyLoop_surround {dst src : ActsRingbuf} (dstOther srcOther : Image) (fuel : Nat)
    {srcOffset dstOffset : Nat} (hsrc : srcOffset ≤ src.size) (hdst : dstOffset ≤ dst.size)
    (memory : Image) (size : Nat) :
    copyLoop (dst.surround dstOther) (src.surround srcOther) fuel
        (surround dst.size dstOther memory) srcOffset dstOffset size =
      surround dst.size dstOther (copyLoop dst src fuel memory srcOffset dstOffset size) := by
  induction fuel generalizing size srcOffset dstOffset memory with
  | zero => rfl
  | succ fuel ih =>
    have hdstSize : (dst.surround dstOther).size = dst.size := rfl
    have hsrcSize : (src.surround srcOther).size = src.size := rfl
    have hsrcMemory : (src.surround srcOther).memory = surround src.size srcOther src.memory := rfl
    rw [copyLoop, copyLoop, hdstSize, hsrcSize, hsrcMemory]
    dsimp only
    generalize hlen : (if min (src.size - srcOffset) (dst.size - dstOffset) > size then size
      else min (src.size - srcOffset) (dst.size - dstOffset)) = len
    have hle : len ≤ src.size - srcOffset ∧ len ≤ dst.size - dstOffset := by
      rw [← hlen]
      split <;> omega
    rw [read_surround (by omega), memcpy_surround (by rw [length_read]; omega)]
    split
    · rfl
    · refine ih ?_ ?_ _ _
      · split <;> omega
      · split <;> omega

theorem copy_surround {dst src : ActsRingbuf} (hdst : 0 < dst.size) (hsrc : 0 < src.size)
    (dstOther srcOther : Image) (size : Nat) :
    actsRingbufCopy (dst.surround dstOther) (src.surround srcOther) size =
      ((actsRingbufCopy dst src size).1.surround dstOther,
        (actsRingbufCopy dst src size).2.1.surround srcOther,
          (actsRingbufCopy dst src size).2.2) := by
  have hcopy : copySize (dst.surround dstOther) (src.surround srcOther) size =
      copySize dst src size :=
    rfl
  rw [actsRingbufCopy, actsRingbufCopy, hcopy]
  dsimp only
  split
  · rfl
  · have hloop : copyLoop (dst.surround dstOther) (src.surround srcOther) (copySize dst src size)
        (dst.surround dstOther).memory ((src.surround srcOther).place (src.surround srcOther).head)
        ((dst.surround dstOther).place (dst.surround dstOther).tail) (copySize dst src size) = _ :=
      copyLoop_surround dstOther srcOther _ (place_lt hsrc _).le (place_lt hdst _).le dst.memory _
    rw [hloop]
    rfl

end SpeakerFirmware.Utils
