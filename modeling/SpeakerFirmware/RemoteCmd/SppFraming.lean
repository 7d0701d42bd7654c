/-
# Frames and packets of the serial port profile

Fed with chunks that always fit, the accumulator finds the frames the reference parser
finds in the bytes received so far: `accumulator_refines_reference`.

Behind `bridge_spp_receive_data_cb` this is not so for every cut. A chunk in the middle of
a frame that happens to look like a bare command is executed and is missing from the
frame, and a chunk that does not fit behind the started frame flushes it.
`payloads_eq_frames_iff` says that nothing else goes wrong.
-/

import SpeakerFirmware.Lib.Runs
import SpeakerFirmware.RemoteCmd.Spp

namespace SpeakerFirmware.RemoteCmd.Spp

open Runs
open List Nat

variable {xs : List UInt8} {frames : List (List UInt8)}

/-! ## The accumulator -/

variable (forward : Bool)

/-- Small chunks are parsed as the stream they are cut from. -/
theorem transduce_feed (xs : List UInt8) (chunks : List (List UInt8))
    (hchunks : ∀ data ∈ chunks, data.length ≤ 65) :
    transduce (sppFeedAccumulator forward) (sppParser.run xs).2 chunks =
      ((sppParser.run (xs ++ chunks.flatten)).2,
        (sppParser.run ((sppParser.run xs).2 ++ chunks.flatten)).1.flatMap
          (sppHandleFramePayload forward)) := by
  induction chunks generalizing xs with
  | nil =>
    rw [flatten_nil, append_nil, append_nil,
      sppParser.run_of_none (sppParser.step_run xs)]
    rfl
  | cons data chunks ih =>
    obtain ⟨hdata, hrest⟩ := forall_mem_cons.mp hchunks
    have hwaits := sppParser.step_run xs
    have hlen := length_of_sppStep_none hwaits
    have hfeed := sppFeedAccumulator_eq forward hwaits
      (show (sppParser.run xs).2.length + data.length ≤ sppAccCap by rw [sppAccCap]; omega)
    have hacc : (sppParser.run ((sppParser.run xs).2 ++ data)).2 =
        (sppParser.run (xs ++ data)).2 := by
      rw [sppParser.run_append xs data]
    have hnext := ih (xs ++ data) hrest
    rw [transduce, hfeed, parsed, hacc]
    dsimp only
    rw [hnext, flatten_cons, ← append_assoc, ← append_assoc,
      sppParser.run_append ((sppParser.run xs).2 ++ data), hacc, flatMap_append]

/-- From an empty accumulator, chunks of up to 65 bytes hand over exactly the frames the
reference parser completes on the bytes received so far. Nothing is flushed, and what the
accumulator holds is the end of the stream and shorter than the longest frame. -/
theorem accumulator_refines_reference (forward : Bool) (chunks : List (List UInt8))
    (hchunks : ∀ data ∈ chunks, 1 ≤ data.length ∧ data.length ≤ 65) :
    payloads (transduce (sppFeedAccumulator forward) [] chunks).2 =
        (referenceParser.run chunks.flatten).1 ∧
      (∀ bytes, Effect.flush bytes ∉ (transduce (sppFeedAccumulator forward) [] chunks).2 ∧
        Effect.overflow bytes ∉ (transduce (sppFeedAccumulator forward) [] chunks).2) ∧
      (transduce (sppFeedAccumulator forward) [] chunks).1 <:+ chunks.flatten ∧
      (transduce (sppFeedAccumulator forward) [] chunks).1.length ≤ 515 := by
  have hall := transduce_feed forward [] chunks fun data hdata => (hchunks data hdata).2
  rw [sppParser.run_of_none rfl, nil_append] at hall
  rw [hall, ← sppParser_frames]
  refine ⟨(effects_flatMap_handle forward _).1, fun bytes => ⟨fun hmem => ?_, fun hmem => ?_⟩,
    sppParser.run_suffix _, ?_⟩
  · obtain ⟨payload, -, hin⟩ := mem_flatMap.mp hmem
    exact ((sppHandleFramePayload_effects forward payload).2.2 bytes).1 hin
  · obtain ⟨payload, -, hin⟩ := mem_flatMap.mp hmem
    exact ((sppHandleFramePayload_effects forward payload).2.2 bytes).2 hin
  · have hlen := length_of_sppStep_none (sppParser.step_run chunks.flatten)
    exact le_of_lt_succ hlen

/-- Two frames with noise in front, the second one cut. -/
theorem accumulator_refines_reference_cut :
    payloads (transduce (sppFeedAccumulator false) []
      [[0x00, 0xa5, 0xa5, 0x5a, 0x00], [0x02, 0xd2, 0x01],
      [0xa5, 0x5a, 0x00, 0x01, 0x07, 0xa5]]).2 = [[0xd2, 0x01], [0x07]] := by
  have href := (accumulator_refines_reference false
    [[0x00, 0xa5, 0xa5, 0x5a, 0x00], [0x02, 0xd2, 0x01], [0xa5, 0x5a, 0x00, 0x01, 0x07, 0xa5]]
    (by decide)).1
  exact href.trans (by decide)

/-! ## Streams of frames -/

/-- A frame with its header. -/
def encodeFrame (payload : List UInt8) : List UInt8 :=
  sppSync0 :: sppSync1 :: UInt8.ofNat (payload.length / 256) :: UInt8.ofNat payload.length ::
    payload

theorem length_encodeFrame (payload : List UInt8) :
    (encodeFrame payload).length = sppFrameHdr + payload.length := by
  rw [encodeFrame, sppFrameHdr]
  simp only [length_cons]
  omega

/-- The length field of a frame is its length. -/
theorem lengthField_ofNat {n : Nat} (h : n ≤ sppMaxPayload) :
    lengthField (UInt8.ofNat (n / 256)) (UInt8.ofNat n) = n := by
  rw [sppMaxPayload] at h
  rw [lengthField, UInt8.toNat_ofNat', UInt8.toNat_ofNat']
  omega

/-- A frame at the front of the stream is taken. -/
theorem sppStep_frame {payload : List UInt8} (h : payload.length ≤ sppMaxPayload)
    (rest : List UInt8) :
    sppParser.step (encodeFrame payload ++ rest) = some
      ([payload], (encodeFrame payload).length) := by
  have hlen := length_encodeFrame payload
  refine (referenceParser.atLeast_step_of_le ?_).trans ?_
  · rw [length_append]
    omega
  · rw [referenceParser_step, hlen, encodeFrame, cons_append, cons_append, referenceStep,
      if_neg (by decide),
      cons_append, cons_append, frameStep, lengthField_ofNat h, if_neg (by omega),
      length_append, if_neg (by omega), take_left]

/-- The start of a frame waits for the rest of it. -/
theorem sppStep_started {payload rest : List UInt8} (h : payload.length ≤ sppMaxPayload)
    (hxs : xs ++ rest = encodeFrame payload) (hrest : rest ≠ []) : sppParser.step xs = none := by
  cases hstep : sppParser.step xs with
  | none => rfl
  | some r =>
    -- the step would be the one that takes the whole frame
    have hwhole := sppStep_frame h []
    rw [append_nil, ← hxs, sppParser.extend rest hstep] at hwhole
    obtain ⟨out, n⟩ := r
    have hle := sppParser.le hstep
    have hn : n = (xs ++ rest).length := congrArg Prod.snd (Option.some.inj hwhole)
    have hpos := length_pos_iff.mpr hrest
    rw [length_append] at hn
    omega

/-- At position `pos` of a stream of frames, the bytes of the frame that has been started. -/
def startedAt : List (List UInt8) → Nat → Nat
  | [], _ => 0
  | payload :: frames, pos =>
    if pos < sppFrameHdr + payload.length then pos
      else startedAt frames (pos - (sppFrameHdr + payload.length))

section

variable (hframes : ∀ payload ∈ frames, payload.length ≤ sppMaxPayload)
include hframes

/-- The first part of a stream of frames: what is left over is the started frame. -/
theorem length_run_started {rest : List UInt8} (hxs : xs ++ rest = frames.flatMap encodeFrame) :
    (sppParser.run xs).2.length = startedAt frames xs.length := by
  induction frames generalizing xs with
  | nil =>
    have hnil : xs = [] := (append_eq_nil_iff.mp hxs).1
    rw [hnil, sppParser.run_of_none rfl]
    rfl
  | cons payload frames ih =>
    obtain ⟨hpayload, hlater⟩ := forall_mem_cons.mp hframes
    have hlen := length_encodeFrame payload
    rw [flatMap_cons] at hxs
    rw [startedAt, ← hlen]
    have hfront : xs <+: encodeFrame payload ++ frames.flatMap encodeFrame := ⟨rest, hxs⟩
    split
    · rename_i hshort
      obtain ⟨more, hmore⟩ :=
        prefix_of_prefix_length_le hfront (prefix_append _ _) (le_of_lt hshort)
      have hne : more ≠ [] := by
        rintro rfl
        rw [← hmore, append_nil] at hshort
        exact absurd hshort (lt_irrefl _)
      rw [sppParser.run_of_none (sppStep_started hpayload hmore hne)]
    · rename_i hlong
      obtain ⟨more, rfl⟩ := prefix_of_prefix_length_le (prefix_append _ _) hfront
        (not_lt.mp hlong)
      rw [append_assoc] at hxs
      rw [sppParser.run_of_some (sppStep_frame hpayload more), drop_left, length_append,
        Nat.add_sub_cancel_left]
      exact ih hlater (append_cancel_left hxs)

theorem run_frames : (sppParser.run (frames.flatMap encodeFrame)).1 = frames := by
  induction frames with
  | nil => rw [flatMap_nil, sppParser.run_of_none rfl]
  | cons payload frames ih =>
    obtain ⟨hpayload, hlater⟩ := forall_mem_cons.mp hframes
    rw [flatMap_cons, sppParser.run_of_some (sppStep_frame hpayload _), drop_left, ih hlater]
    rfl

end

/-! ## Packets -/

/-- No chunk looks like a bare command, and every chunk fits behind the frame that was started
before it. The chunks start at position `pos` of the stream. -/
def Undisturbed (frames : List (List UInt8)) : Nat → List (List UInt8) → Prop
  | _, [] => True
  | pos, data :: chunks =>
    sppTryBareCmd data = false ∧ startedAt frames pos + data.length ≤ sppAccCap ∧
      Undisturbed frames (pos + data.length) chunks

/-- The parser takes no more bytes than its frames have. -/
theorem length_run (xs : List UInt8) :
    ((sppParser.run xs).1.flatMap encodeFrame).length + (sppParser.run xs).2.length ≤
      xs.length := by
  induction xs using sppParser.run_induction with
  | hstop xs h =>
    simp [sppParser.run_of_none h]
  | hstep xs out n h ih =>
    have hle := sppParser.le h
    have hout : (out.flatMap encodeFrame).length ≤ n := by
      have hstep : referenceStep xs = some (out, n) := by
        rcases lt_or_ge xs.length sppFrameHdr with hlt | hge
        · cases (referenceParser.atLeast_step_of_lt hlt).symm.trans h
        · exact (referenceParser.atLeast_step_of_le hge).symm.trans h
      rcases referenceStep_cases hstep with ⟨rfl, -, -⟩ | ⟨rfl, -, -⟩ | ⟨payload, rfl, rfl, -⟩
      · exact zero_le _
      · exact zero_le _
      · exact le_of_eq (by rw [flatMap_singleton, length_encodeFrame])
    rw [length_drop] at ih
    rw [sppParser.run_of_some h, flatMap_append, length_append]
    dsimp only
    omega

/-- Whatever the chunks are, the payloads handed over with their headers are no longer than the
bytes that were there. -/
theorem length_payloads_transduce (rxAcc : List UInt8) (chunks : List (List UInt8)) :
    ((payloads (transduce (bridgeSppReceiveDataCb forward) rxAcc chunks).2).flatMap
      encodeFrame).length ≤
      rxAcc.length + chunks.flatten.length := by
  have hparsed : ∀ xs : List UInt8, ((payloads (parsed forward xs).2).flatMap encodeFrame).length +
      (parsed forward xs).1.length ≤ xs.length := by
    intro xs
    rw [parsed, (effects_flatMap_handle forward _).1]
    exact length_run xs
  have hone : ∀ rxAcc data : List UInt8,
      ((payloads (bridgeSppReceiveDataCb forward rxAcc data).2).flatMap encodeFrame).length +
        (bridgeSppReceiveDataCb forward rxAcc data).1.length ≤ rxAcc.length + data.length := by
    intro rxAcc data
    unfold bridgeSppReceiveDataCb sppFeedAccumulator
    split
    · exact show 0 + rxAcc.length ≤ _ by omega
    · split
      · exact show 0 + rxAcc.length ≤ _ by omega
      · split
        · have hdata := hparsed data
          rw [← sppProcessAccumulator_eq] at hdata
          exact le_trans hdata (le_add_left _ _)
        · have hdata := hparsed (rxAcc ++ data)
          rw [← sppProcessAccumulator_eq, length_append] at hdata
          exact hdata
  induction chunks generalizing rxAcc with
  | nil => exact zero_le _
  | cons data chunks ih =>
    have hfirst := hone rxAcc data
    have hlater := ih (bridgeSppReceiveDataCb forward rxAcc data).1
    rw [transduce, payloads_append, flatMap_append, length_append, flatten_cons,
      length_append]
    omega

/-- A flush loses a frame: the bytes behind it are too few for the frames still to come. -/
theorem payloads_ne_of_flush {data : List UInt8} {chunks later : List (List UInt8)}
    (hbare : sppTryBareCmd data = false) (hdata : data.length ≤ sppAccCap)
    (hflush : sppAccCap < (sppParser.run xs).2.length + data.length)
    (hlength : xs.length + (data.length + chunks.flatten.length) =
      ((sppParser.run xs).1.flatMap encodeFrame).length + (later.flatMap encodeFrame).length) :
    payloads (transduce (bridgeSppReceiveDataCb forward) (sppParser.run xs).2 (data :: chunks)).2 ≠
      later := by
  intro hpayloads
  have hne : data.length ≠ 0 := by
    have hlen := length_of_sppStep_none (sppParser.step_run xs)
    rw [sppAccCap] at hflush
    omega
  have hempty : bridgeSppReceiveDataCb forward [] data = sppProcessAccumulator forward data := by
    unfold bridgeSppReceiveDataCb sppFeedAccumulator
    rw [if_neg (by rw [hbare]; decide), if_neg hne, if_neg (by rw [length_nil]; omega),
      nil_append]
  have hdropped : bridgeSppReceiveDataCb forward (sppParser.run xs).2 data =
      ((sppProcessAccumulator forward data).1,
        .flush (sppParser.run xs).2 :: (sppProcessAccumulator forward data).2) := by
    unfold bridgeSppReceiveDataCb sppFeedAccumulator
    rw [if_neg (by rw [hbare]; decide), if_neg hne, if_pos hflush]
  -- the same payloads would come from an empty accumulator
  have htotal := length_payloads_transduce forward [] (data :: chunks)
  rw [transduce, hdropped] at hpayloads
  rw [transduce, hempty, show payloads ((sppProcessAccumulator forward data).2 ++ _) = later from
    hpayloads,
    flatten_cons, length_append, length_nil] at htotal
  have hxs := length_run xs
  omega

/-- The rest of the stream, from position `xs.length` on. -/
theorem transduce_bridge_iff
    (hframes : ∀ payload ∈ frames, payload.length ≤ sppMaxPayload) (xs : List UInt8)
    {chunks : List (List UInt8)} (hchunks : ∀ data ∈ chunks, data.length ≤ sppAccCap)
    (hstream : xs ++ chunks.flatten = frames.flatMap encodeFrame) {later : List (List UInt8)}
    (hlater : frames = (sppParser.run xs).1 ++ later) :
    (payloads (transduce (bridgeSppReceiveDataCb forward) (sppParser.run xs).2 chunks).2 = later ∧
        bareCmds (transduce (bridgeSppReceiveDataCb forward) (sppParser.run xs).2 chunks).2 = []) ↔
      Undisturbed frames xs.length chunks := by
  induction chunks generalizing xs later with
  | nil =>
    rw [flatten_nil, append_nil] at hstream
    have hnone : later = [] := by
      have hall := run_frames hframes
      rw [← hstream] at hall
      rw [hall] at hlater
      exact self_eq_append_right.mp hlater
    rw [hnone]
    exact ⟨fun _ => trivial, fun _ => ⟨rfl, rfl⟩⟩
  | cons data chunks ih =>
    obtain ⟨hdata, hrest⟩ := forall_mem_cons.mp hchunks
    rw [flatten_cons] at hstream
    have hstarted := length_run_started hframes hstream
    have hwaits := sppParser.step_run xs
    rw [transduce, Undisturbed, ← hstarted, payloads_append, bareCmds_append]
    cases hbare : sppTryBareCmd data with
    | true =>
      -- the chunk is executed
      rw [bridgeSppReceiveDataCb, if_pos hbare]
      refine ⟨fun h => ?_, fun h => (by cases h.1)⟩
      cases (append_eq_nil_iff.mp h.2).1
    | false =>
      rcases lt_or_ge sppAccCap ((sppParser.run xs).2.length + data.length) with hflush | hfits
      · refine ⟨fun h => ?_, fun h => absurd h.2.1 (by omega)⟩
        have hlength := congrArg List.length hstream
        rw [length_append, length_append, hlater, flatMap_append,
          length_append] at hlength
        rw [← payloads_append] at h
        exact absurd h.1 (payloads_ne_of_flush forward hbare hdata hflush hlength)
      · have hfeed : bridgeSppReceiveDataCb forward (sppParser.run xs).2 data =
            parsed forward ((sppParser.run xs).2 ++ data) := by
          rw [bridgeSppReceiveDataCb, if_neg (by rw [hbare]; decide)]
          exact sppFeedAccumulator_eq forward hwaits hfits
        have hacc : (sppParser.run ((sppParser.run xs).2 ++ data)).2 =
            (sppParser.run (xs ++ data)).2 := by
          rw [sppParser.run_append xs data]
        rw [← append_assoc] at hstream
        obtain ⟨later', hlater'⟩ : ∃ later', frames = (sppParser.run (xs ++ data)).1 ++ later' := by
          have hall := run_frames hframes
          rw [← hstream, sppParser.run_append] at hall
          exact ⟨_, hall.symm⟩
        have hsplit : later = (sppParser.run ((sppParser.run xs).2 ++ data)).1 ++ later' := by
          rw [hlater, sppParser.run_append xs data, append_assoc] at hlater'
          exact append_cancel_left hlater'
        have hnext := ih (xs ++ data) hrest hstream hlater'
        rw [length_append] at hnext
        rw [hfeed, parsed, hacc, (effects_flatMap_handle forward _).1,
          (effects_flatMap_handle forward _).2, hsplit, append_cancel_left_eq, nil_append, hnext]
        exact ⟨fun h => ⟨rfl, hfits, h⟩, fun h => h.2.2⟩

/-- However a stream of frames is cut, exactly its frames are handed over and no bare command is
executed, if and only if no chunk looks like a bare command and every chunk fits behind the
frame that was started before it. -/
theorem payloads_eq_frames_iff (forward : Bool) {frames : List (List UInt8)}
    (hframes : ∀ payload ∈ frames, payload.length ≤ 512) {chunks : List (List UInt8)}
    (hchunks : ∀ data ∈ chunks, 1 ≤ data.length ∧ data.length ≤ 580)
    (hstream : chunks.flatten = frames.flatMap encodeFrame) :
    (payloads (transduce (bridgeSppReceiveDataCb forward) [] chunks).2 = frames ∧
        bareCmds (transduce (bridgeSppReceiveDataCb forward) [] chunks).2 = []) ↔
      Undisturbed frames 0 chunks :=
  transduce_bridge_iff forward hframes [] (fun data hdata => (hchunks data hdata).2) hstream rfl

/-- `A5 5A 00 02 D2 01` cut behind its header, and the next frame: the first command is executed
as a bare one, and the header swallows the sync bytes of the next frame. -/
theorem cut_behind_header_is_bare :
    [[0xa5, 0x5a, 0x00, 0x02], [0xd2, 0x01], [0xa5, 0x5a, 0x00, 0x02, 0xd2, 0x05]].flatten =
        [[0xd2, 0x01], [0xd2, 0x05]].flatMap encodeFrame ∧
      (transduce (bridgeSppReceiveDataCb false) []
        [[0xa5, 0x5a, 0x00, 0x02], [0xd2, 0x01], [0xa5, 0x5a, 0x00, 0x02, 0xd2, 0x05]]).2 =
        [.dispatchRemoteCmd [0xd2, 0x01] false, .framePayload [0xa5, 0x5a]] := by
  decide

/-- Cut elsewhere the same two frames arrive. -/
theorem payloads_eq_frames_cut :
    payloads (transduce (bridgeSppReceiveDataCb false) []
      [[0xa5, 0x5a, 0x00, 0x02, 0xd2], [0x01, 0xa5, 0x5a, 0x00, 0x02], [0xd2], [0x05]]).2 =
      [[0xd2, 0x01], [0xd2, 0x05]] := by
  refine ((payloads_eq_frames_iff false (by decide) (by decide) (by decide)).mpr ?_).1
  exact ⟨by decide,
    by decide, by decide, by decide, by decide, by decide, by decide, by decide, trivial⟩

/-! ## The buffer -/

/-- The `memcpy` of `spp_feed_accumulator`: its place in `rx_acc` and the number of bytes. The sum
it tests has 32 bits. -/
def sppFeedCopy (rxAccLen len : Nat) : Nat × Nat :=
  if sppAccCap < (rxAccLen + len) % 2 ^ 32 then (0, len) else (rxAccLen, len)

/-- The `memcpy` a packet leads to; a bare command and an empty packet lead to none. -/
def receiveCopy (rxAcc data : List UInt8) : Option (Nat × Nat) :=
  if sppTryBareCmd data ∨ data.length = 0 then none else some (sppFeedCopy rxAcc.length data.length)

/-- A packet is copied into `rx_acc`, and leaves no more than fits there. -/
def StaysInside (forward : Bool) (rxAcc data : List UInt8) : Prop :=
  (∀ copy, receiveCopy rxAcc data = some copy → copy.1 + copy.2 ≤ sppAccCap) ∧
    (bridgeSppReceiveDataCb forward rxAcc data).1.length ≤ sppAccCap

/-- Whatever the packets are, the accumulator waits for the rest of a frame. -/
theorem sppStep_bridge {rxAcc : List UInt8} (hwaits : sppParser.step rxAcc = none)
    (data : List UInt8) : sppParser.step (bridgeSppReceiveDataCb forward rxAcc data).1 = none := by
  unfold bridgeSppReceiveDataCb sppFeedAccumulator
  simp only [sppProcessAccumulator_eq]
  split
  · exact hwaits
  · split
    · exact hwaits
    · split
      · exact sppParser.step_run data
      · exact sppParser.step_run (rxAcc ++ data)

theorem sppStep_transduce (chunks : List (List UInt8)) :
    sppParser.step (transduce (bridgeSppReceiveDataCb forward) [] chunks).1 = none :=
  transduce_invariant (fun _ rxAcc _ => sppParser.step rxAcc = none) rfl
    (fun _ _ _ data hwaits => sppStep_bridge forward hwaits data) chunks

theorem length_of_sppTryBareCmd {data : List UInt8} (h : sppTryBareCmd data = true) :
    data.length ≤ 16 := by
  simp only [sppTryBareCmd, decide_eq_true_eq] at h
  exact h.2.1

/-- A packet stays inside exactly if it is no longer than the buffer: an overlong packet flushes
what was there and is copied all the same. -/
theorem staysInside_iff {rxAcc : List UInt8} (hwaits : sppParser.step rxAcc = none)
    (data : List UInt8) : StaysInside forward rxAcc data ↔ data.length ≤ sppAccCap := by
  have hacc := length_of_sppStep_none hwaits
  have hleft := length_of_sppStep_none (sppStep_bridge forward hwaits data)
  constructor
  · rintro ⟨hcopy, -⟩
    by_cases hnone : sppTryBareCmd data ∨ data.length = 0
    · rcases hnone with hbare | hempty
      · exact le_trans (length_of_sppTryBareCmd hbare) (by decide)
      · omega
    · have hlen := hcopy _ (if_neg hnone)
      have hsize : (sppFeedCopy rxAcc.length data.length).2 = data.length := by
        rw [sppFeedCopy]
        split <;> rfl
      omega
  · intro hlen
    rw [sppAccCap] at hlen
    refine ⟨fun copy hcopy => ?_, by rw [sppAccCap]; omega⟩
    rw [receiveCopy] at hcopy
    split at hcopy
    · cases hcopy
    · cases hcopy
      rw [sppFeedCopy, mod_eq_of_lt (by rw [sppFrameHdr, sppMaxPayload] at hlen hacc; omega)]
      split
      · rw [zero_add, sppAccCap]
        exact hlen
      · omega

/-- In a sequence of packets each is copied into `rx_acc` and leaves no more than fits there,
exactly if none is longer than the buffer. -/
theorem receive_stays_inside_iff (forward : Bool) (chunks : List (List UInt8)) :
    (∀ first data rest, chunks = first ++ data :: rest →
      StaysInside forward (transduce (bridgeSppReceiveDataCb forward) [] first).1 data) ↔
      ∀ data ∈ chunks, data.length ≤ sppAccCap := by
  constructor
  · intro h data hmem
    obtain ⟨first, rest, hsplit⟩ := append_of_mem hmem
    exact (staysInside_iff forward (sppStep_transduce forward first) data).mp
      (h first data rest hsplit)
  · rintro h first data rest rfl
    refine (staysInside_iff forward (sppStep_transduce forward first) data).mpr (h data ?_)
    exact mem_append_right first mem_cons_self

/-- A packet of 581 bytes, the first one received, is copied over the end of the buffer. -/
theorem receive_leaves_buffer : ¬ StaysInside false [] (List.replicate 581 0) := by
  intro h
  have hlen := h.1 (0, 581) (by decide +kernel)
  exact absurd hlen (by decide)

end SpeakerFirmware.RemoteCmd.Spp
