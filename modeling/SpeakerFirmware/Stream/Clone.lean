/-
# Clone streams

A clone stream passes reads and writes on to its origin, and gives a copy of the data to other
streams. With `MODE_MONO_COPY` a copy has the first of the two samples of each frame of four bytes,
collected in a buffer of half the size.

The copies are made of the size that was asked for. A short transfer so copies bytes that were not
transferred, and a size that ends inside a frame makes the loop write behind its buffer. What the
origin transfers, and whether there is memory for a buffer, is an input here.
-/

import SpeakerFirmware.Lib.Runs
import SpeakerFirmware.Stream.Attached

namespace SpeakerFirmware.Stream

open Runs
open List

/-! ## The functions -/

/-- What `clone_stream_copy` does for one clone: what it writes to the stream, the places of the
data that it reads, and the places of its buffer that it writes, with the size of that buffer. -/
structure Copy where
  given : List UInt8
  reads : List Nat
  writes : List Nat
  size : Nat

/-- Nothing is copied. -/
def Copy.nothing : Copy := ⟨[], [], [], 0⟩

/-- The loop that leaves out every other sample: pairs of a place in the buffer and the place in the
data that it gets. There are no more than `num` turns. -/
def monoLoop (num : Nat) : Nat → Nat → Nat → List (Nat × Nat)
  | 0, _, _ => []
  | turns + 1, i, j =>
    if j + 1 < num then (i, j) :: (i + 1, j + 1) :: monoLoop num turns (i + 2) (j + 4) else []

/-- The buffer behind the loop. -/
def monoBuffer (buf : List UInt8) (moves : List (Nat × Nat)) (m : Nat → UInt8) : Nat → UInt8 :=
  moves.foldl (fun m move => fun i => if i = move.1 then buf.getD move.2 0 else m i) m

/-- `clone_stream_copy`, for a stream that is not `NULL`. -/
def cloneStreamCopy (mode : UInt8) (buf : List UInt8) (malloc : Bool) (m : Nat → UInt8) : Copy :=
  let num := buf.length
  if hasMode mode modeMonoCopy then
    if malloc = false then .nothing
    else
      let moves := monoLoop num num 0 0
      ⟨(List.range (num / 2)).map (monoBuffer buf moves m), moves.map Prod.snd, moves.map Prod.fst,
        num / 2⟩
  else ⟨buf, List.range num, [], 0⟩

/-- `clone_stream_info`; a clone may be `NULL`. -/
structure CloneInfo where
  cloneMode : UInt8
  clones : List Bool

inductive Direction
  | read | write
  deriving DecidableEq, Repr

/-- A read or a write through the clone stream: the buffer with `num` bytes (for a read, as the
origin leaves it), what the origin returns, and for each clone whether there is memory and what is
in it. -/
structure Transfer where
  direction : Direction
  buf : List UInt8
  len : Int
  malloc : Nat → Bool
  memory : Nat → Nat → UInt8
  len_le : len ≤ buf.length

/-- The offsets of the clone stream. -/
structure CloneHandle where
  rofs : Nat
  wofs : Nat

/-- The bytes that were transferred, what is returned, and the copies. -/
structure CloneOutcome where
  direction : Direction
  moved : List UInt8
  ret : Int
  copies : List Copy

/-- The direction of a transfer is cloned. -/
def CloneInfo.clonesFor (info : CloneInfo) : Direction → Bool
  | .read => hasMode info.cloneMode modeOut
  | .write => hasMode info.cloneMode modeIn

/-- `clone_stream_read` and `clone_stream_write`. -/
def cloneStreamTransfer (info : CloneInfo) (handle : CloneHandle) (transfer : Transfer) :
    CloneHandle × List CloneOutcome :=
  let moved := transfer.buf.take transfer.len.toNat
  if transfer.len ≤ 0 then (handle, [⟨transfer.direction, moved, transfer.len, []⟩])
  else
    let handle :=
      match transfer.direction with
      | .read => { handle with rofs := handle.rofs + transfer.len.toNat }
      | .write => { handle with wofs := handle.wofs + transfer.len.toNat }
    let copies :=
      if info.clonesFor transfer.direction then
        info.clones.mapIdx fun i present =>
          if present then cloneStreamCopy info.cloneMode transfer.buf (transfer.malloc i)
            (transfer.memory i)
          else .nothing
      else []
    (handle, [⟨transfer.direction, moved, transfer.len, copies⟩])

/-! ## The first samples -/

/-- The first sample of each frame. -/
def firstSamples : List UInt8 → List UInt8
  | a :: b :: _ :: _ :: frames => a :: b :: firstSamples frames
  | _ => []

/-- The place in the data of a byte of the samples. -/
def samplePlace (i : Nat) : Nat :=
  i / 2 * 4 + i % 2

theorem firstSamples_eq (data : List UInt8) :
    firstSamples data = (List.range (2 * (data.length / 4))).map fun i =>
      data.getD (samplePlace i) 0 := by
  induction data using firstSamples.induct with
  | case1 a b c d frames ih =>
    have hcount : 2 * ((frames.length + 4) / 4) = 2 * (frames.length / 4) + 1 + 1 := by omega
    have hplace : ∀ i, samplePlace (i + 1 + 1) = samplePlace i + 4 := by
      intro i
      simp only [samplePlace]
      omega
    rw [firstSamples, ih]
    simp only [length_cons, hcount, range_succ_eq_map, map_cons, map_map]
    refine congrArg₂ _ rfl (congrArg₂ _ rfl (map_congr_left fun i _ => ?_))
    simp only [Function.comp_apply, Nat.succ_eq_add_one, hplace, getD_cons_succ]
  | case2 data hshort =>
    rcases data with _ | ⟨a, _ | ⟨b, _ | ⟨c, _ | ⟨d, frames⟩⟩⟩⟩
    · rfl
    · simp [firstSamples]
    · simp [firstSamples]
    · simp [firstSamples]
    · exact (hshort a b c d frames rfl).elim

theorem length_firstSamples (data : List UInt8) :
    (firstSamples data).length = 2 * (data.length / 4) := by
  rw [firstSamples_eq, length_map, length_range]

section

variable (num : Nat)

/-- The frames that the loop sees, the last one perhaps not complete. -/
def frameCount (num : Nat) : Nat :=
  (num + 2) / 4

theorem mem_monoLoop (turns t : Nat) (hturns : num ≤ turns + 4 * t) (move : Nat × Nat) :
    move ∈ monoLoop num turns (2 * t) (4 * t) ↔
      2 * t ≤ move.1 ∧ move.1 < 2 * frameCount num ∧ move.2 = samplePlace move.1 := by
  induction turns generalizing t with
  | zero =>
    rw [monoLoop, frameCount]
    simp only [not_mem_nil, false_iff]
    omega
  | succ turns ih =>
    have hrest := ih (t + 1) (by omega)
    rw [monoLoop]
    split
    · rename_i hmore
      obtain ⟨i, j⟩ := move
      rw [mem_cons, mem_cons, show 2 * t + 2 = 2 * (t + 1) by omega,
        show 4 * t + 4 = 4 * (t + 1) by omega, hrest]
      simp only [Prod.mk.injEq, frameCount, samplePlace]
      omega
    · simp only [not_mem_nil, false_iff, frameCount]
      omega

theorem monoBuffer_eq (buf : List UInt8) (turns t : Nat) (hturns : num ≤ turns + 4 * t)
    (m : Nat → UInt8) {i : Nat}
    (hi : i < 2 * frameCount num) (hm : ∀ k < 2 * t, m k = buf.getD (samplePlace k) 0) :
    monoBuffer buf (monoLoop num turns (2 * t) (4 * t)) m i = buf.getD (samplePlace i) 0 := by
  induction turns generalizing t m with
  | zero =>
    rw [frameCount] at hi
    exact hm i (by omega)
  | succ turns ih =>
    rw [monoLoop]
    split
    · have hplaces : samplePlace (2 * t) = 4 * t ∧ samplePlace (2 * t + 1) = 4 * t + 1 := by
        simp only [samplePlace]
        omega
      rw [show 2 * t + 2 = 2 * (t + 1) by omega, show 4 * t + 4 = 4 * (t + 1) by omega]
      refine ih (t + 1) (by omega) _ fun k hk => ?_
      dsimp only
      by_cases hlast : k = 2 * t + 1
      · rw [if_pos hlast, hlast, hplaces.2]
      · rw [if_neg hlast]
        by_cases hfirst : k = 2 * t
        · rw [if_pos hfirst, hfirst, hplaces.1]
        · rw [if_neg hfirst]
          exact hm k (by omega)
    · rw [frameCount] at hi
      exact hm i (by omega)

end

/-! ## Exact copies -/

/-- The clone is given the data that was transferred, or its first samples; only transferred data is
read, and the buffer is not left. -/
structure Exact (mode : UInt8) (moved : List UInt8) (copy : Copy) : Prop where
  given : copy.given = if hasMode mode modeMonoCopy then firstSamples moved else moved
  reads : ∀ i ∈ copy.reads, i < moved.length
  writes : ∀ i ∈ copy.writes, i < copy.size

/-- The size fits: all of it was transferred, or in a mono copy all of its frames, none of which
is incomplete by two bytes or more. -/
def CopyFits (mode : UInt8) (num len : Nat) (malloc : Bool) : Prop :=
  if hasMode mode modeMonoCopy then
    if malloc = false then len < 4 else num % 4 ≤ 1 ∧ len / 4 = num / 4
  else len = num

instance (mode : UInt8) (num len : Nat) (malloc : Bool) :
    Decidable (CopyFits mode num len malloc) :=
  inferInstanceAs (Decidable (if hasMode mode modeMonoCopy then
    if malloc = false then len < 4 else num % 4 ≤ 1 ∧ len / 4 = num / 4 else len = num))

theorem exact_mono_iff {mode : UInt8} (hmono : hasMode mode modeMonoCopy = true) (buf : List UInt8)
    {len : Nat} (hlen : len ≤ buf.length) (m : Nat → UInt8) :
    Exact mode (buf.take len) (cloneStreamCopy mode buf true m) ↔ buf.length % 4 ≤ 1 ∧
      len / 4 = buf.length / 4 := by
  have hmem : ∀ move, move ∈ monoLoop buf.length buf.length 0 0 ↔
      move.1 < 2 * frameCount buf.length ∧ move.2 = samplePlace move.1 := by
    intro move
    have h := mem_monoLoop buf.length buf.length 0 (by omega) move
    simpa using h
  have htake : (buf.take len).length = len := length_take_of_le hlen
  constructor
  · rintro ⟨hgiven, -, hwrites⟩
    simp only [cloneStreamCopy, hmono, if_true, Bool.true_eq_false, if_false] at hgiven hwrites
    have hframes : buf.length % 4 ≤ 1 := by
      by_contra hrest
      have hmove :=
        (hmem (2 * frameCount buf.length - 1, samplePlace (2 * frameCount buf.length - 1))).mpr
        ⟨by rw [frameCount]; omega, rfl⟩
      have hlast := hwrites _ (mem_map_of_mem hmove)
      rw [frameCount] at hlast
      omega
    have hsizes := congrArg List.length hgiven
    rw [length_map, length_range, length_firstSamples, htake] at hsizes
    omega
  · rintro ⟨hframes, hsame⟩
    have hcount : frameCount buf.length = len / 4 := by
      rw [frameCount]
      omega
    refine ⟨?_, ?_, ?_⟩ <;>
      simp only [cloneStreamCopy, hmono, if_true, Bool.true_eq_false, if_false]
    · rw [firstSamples_eq, htake, show buf.length / 2 = 2 * (len / 4) by omega]
      refine map_congr_left fun i hi => ?_
      rw [mem_range] at hi
      have hplace : samplePlace i < len := by
        rw [samplePlace]
        omega
      have hbuffer : monoBuffer buf (monoLoop buf.length buf.length 0 0) m i =
          buf.getD (samplePlace i) 0 :=
        monoBuffer_eq buf.length buf buf.length 0 (by omega) m (by omega) fun k hk =>
          absurd hk (by omega)
      rw [hbuffer, getD_eq_getElem?_getD, getD_eq_getElem?_getD, getElem?_take_of_lt hplace]
    · intro i hi
      obtain ⟨move, hmove, rfl⟩ := mem_map.mp hi
      obtain ⟨hlt, hplace⟩ := (hmem move).mp hmove
      rw [hplace, htake, samplePlace]
      omega
    · intro i hi
      obtain ⟨move, hmove, rfl⟩ := mem_map.mp hi
      have hlt := ((hmem move).mp hmove).1
      omega

theorem exact_iff_copyFits (mode : UInt8) (buf : List UInt8) {len : Nat} (hlen : len ≤ buf.length)
    (malloc : Bool) (m : Nat → UInt8) :
    Exact mode (buf.take len) (cloneStreamCopy mode buf malloc m) ↔
      CopyFits mode buf.length len malloc := by
  have htake : (buf.take len).length = len := length_take_of_le hlen
  rw [CopyFits]
  cases hmono : hasMode mode modeMonoCopy with
  | true =>
    rw [if_pos rfl]
    cases malloc with
    | true => exact exact_mono_iff hmono buf hlen m
    | false =>
      -- without memory nothing is given, which is right if there is no whole frame
      have hcopy : cloneStreamCopy mode buf false m = .nothing := by simp [cloneStreamCopy, hmono]
      have hlength := length_firstSamples (buf.take len)
      rw [htake] at hlength
      rw [hcopy, if_pos rfl]
      constructor
      · rintro ⟨hgiven, -, -⟩
        rw [if_pos hmono] at hgiven
        rw [← hgiven, show Copy.nothing.given.length = 0 from rfl] at hlength
        omega
      · intro hfew
        refine ⟨?_, fun _ h => absurd h not_mem_nil, fun _ h => absurd h not_mem_nil⟩
        rw [if_pos hmono]
        exact (eq_nil_of_length_eq_zero (by omega)).symm
  | false =>
    have hcopy : cloneStreamCopy mode buf malloc m = ⟨buf, List.range buf.length, [], 0⟩ := by
      simp [cloneStreamCopy, hmono]
    rw [hcopy, if_neg Bool.false_ne_true]
    constructor
    · rintro ⟨hgiven, -, -⟩
      have hlength := congrArg List.length hgiven
      rw [hmono, if_neg Bool.false_ne_true, htake] at hlength
      exact hlength.symm
    · rintro rfl
      rw [take_length]
      refine ⟨by rw [hmono, if_neg Bool.false_ne_true], fun i hi => mem_range.mp hi, ?_⟩
      exact fun _ h => absurd h not_mem_nil

/-! ## Every sequence of transfers -/

/-- A direction that is cloned is cloned to each of the clones, exactly. -/
def ExactOutcome (info : CloneInfo) (outcome : CloneOutcome) : Prop :=
  info.clonesFor outcome.direction = true → ∀ i, info.clones[i]? = some true →
    Exact info.cloneMode outcome.moved (outcome.copies.getD i .nothing)

/-- The size of a transfer fits for each of the clones, if there is anything to copy. -/
def TransferFits (info : CloneInfo) (transfer : Transfer) : Prop :=
  0 < transfer.len → info.clonesFor transfer.direction = true → ∀ i, info.clones[i]? = some true →
    CopyFits info.cloneMode transfer.buf.length transfer.len.toNat (transfer.malloc i)

theorem exactOutcome_iff (info : CloneInfo) (handle : CloneHandle) (transfer : Transfer) :
    (∀ outcome ∈ (cloneStreamTransfer info handle transfer).2, ExactOutcome info outcome) ↔
      TransferFits info transfer := by
  have hle := transfer.len_le
  unfold cloneStreamTransfer TransferFits ExactOutcome
  dsimp only
  split
  · rename_i hnone
    simp only [mem_singleton, forall_eq]
    refine iff_of_true (fun _ i _ => ?_) fun hpos => absurd hpos (by omega)
    rw [Int.toNat_of_nonpos hnone, take_zero, getD_nil]
    refine ⟨?_, fun _ h => absurd h not_mem_nil, fun _ h => absurd h not_mem_nil⟩
    split <;> rfl
  · rename_i hsome
    simp only [mem_singleton, forall_eq]
    rw [forall_prop_of_true (show 0 < transfer.len by omega)]
    refine imp_congr_right fun hclones => forall_congr' fun i => imp_congr_right fun hi => ?_
    rw [if_pos hclones, getD_eq_getElem?_getD, getElem?_mapIdx, hi]
    exact exact_iff_copyFits _ _ (by omega) _ _

/-- In a sequence of transfers all copies are exact if and only if the size of each transfer
fits. -/
theorem clones_exact_iff (info : CloneInfo) (handle : CloneHandle) (transfers : List Transfer) :
    (∀ outcome ∈ (transduce (cloneStreamTransfer info) handle transfers).2,
      ExactOutcome info outcome) ↔
      ∀ transfer ∈ transfers, TransferFits info transfer := by
  induction transfers generalizing handle with
  | nil => simp [transduce]
  | cons transfer transfers ih =>
    rw [transduce]
    dsimp only
    rw [forall_mem_append, forall_mem_cons, exactOutcome_iff, ih]

/-- A read of six bytes that are all there, with a mono copy. -/
def halfFrame : Transfer where
  direction := .read
  buf := [1, 2, 3, 4, 5, 6]
  len := 6
  malloc _ := true
  memory _ _ := 0
  len_le := by decide

/-- A read of four bytes, of which two are there. -/
def halfRead : Transfer where
  direction := .read
  buf := [1, 2, 0xee, 0xee]
  len := 2
  malloc _ := true
  memory _ _ := 0
  len_le := by decide

def monoClone : CloneInfo := ⟨modeOut ||| modeMonoCopy, [true]⟩

def plainClone : CloneInfo := ⟨modeOut, [true]⟩

/-- The mono copy writes byte 3 of a buffer of 3 bytes, and a plain copy of a short read gives two
bytes that were not read. -/
theorem inexact_clones :
    (¬ (∀ outcome ∈ (cloneStreamTransfer monoClone ⟨0, 0⟩ halfFrame).2,
      ExactOutcome monoClone outcome) ∧
      (cloneStreamTransfer monoClone ⟨0, 0⟩ halfFrame).2.flatMap
        (fun outcome => outcome.copies.map fun copy => (copy.writes, copy.size)) =
          [([0, 1, 2, 3], 3)]) ∧
    ¬ (∀ outcome ∈ (cloneStreamTransfer plainClone ⟨0, 0⟩ halfRead).2,
      ExactOutcome plainClone outcome) ∧
      (cloneStreamTransfer plainClone ⟨0, 0⟩ halfRead).2.flatMap
        (fun outcome => outcome.copies.map fun copy => (outcome.moved, copy.given)) =
          [([1, 2], [1, 2, 0xee, 0xee])] := by
  refine ⟨⟨fun h => ?_, by decide⟩, fun h => ?_, by decide⟩
  · exact absurd ((exactOutcome_iff _ _ _).mp h (by decide) (by decide) 0 rfl) (by decide)
  · exact absurd ((exactOutcome_iff _ _ _).mp h (by decide) (by decide) 0 rfl) (by decide)

end SpeakerFirmware.Stream
