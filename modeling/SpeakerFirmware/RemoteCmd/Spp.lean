/-
# Commands over the serial port profile

`system_app_spp_uart_bridge.c` receives what the phone sends over RFCOMM, in packets cut
wherever the stack likes. A packet that looks like a bare command is executed at once;
everything else goes through an accumulator that looks for frames
`A5 5A LEN_H LEN_L payload`.

`sppParser` is the loop of `spp_process_accumulator` as a parser of the stream:
`processLoop_eq` connects the two. `referenceParser` says what the frames of a stream are,
without an accumulator; the two find the same frames.
-/

import Mathlib.Data.UInt
import SpeakerFirmware.Lib.StreamParser

namespace SpeakerFirmware.RemoteCmd.Spp

open StreamParser
open List

/-! ## The receiver -/

def sppSync0 : UInt8 := 0xa5
def sppSync1 : UInt8 := 0x5a
def sppFrameHdr : Nat := 4
def sppMaxPayload : Nat := 512

/-- `SPP_ACC_CAP`, the size of `rx_acc`. -/
def sppAccCap : Nat := sppFrameHdr + sppMaxPayload + 64

/-- What the receiver does: it calls `spp_handle_frame_payload`, executes a command, sends a
line to the UART, or drops what it has because a chunk does not fit or nothing does. -/
inductive Effect
  | framePayload (payload : List UInt8)
  | dispatchRemoteCmd (payload : List UInt8) (framed : Bool)
  | emitPayloadLine (payload : List UInt8)
  | flush (dropped : List UInt8)
  | overflow (dropped : List UInt8)
  deriving DecidableEq, Repr

/-- `spp_handle_frame_payload`; `forward` is `CONFIG_SYSTEM_APP_SPP_UART_FORWARD`. -/
def sppHandleFramePayload (forward : Bool) (payload : List UInt8) : List Effect :=
  .framePayload payload ::
    if payload.length < 2 then []
    else if payload.getD 0 0 = 0xd2 then [.dispatchRemoteCmd payload true]
    else if forward then [.emitPayloadLine payload]
    else []

/-- The length field at the front of what follows the two sync bytes. -/
def lengthField (hi lo : UInt8) : Nat :=
  hi.toNat * 256 + lo.toNat

/-- The loop of `spp_process_accumulator`, from index `i` on: the payloads it handles, and
the index where it stops. Every round moves `i`, so that `fuel` rounds are enough when there
are no more bytes than that. -/
def processLoop (rxAcc : List UInt8) : Nat → Nat → List (List UInt8) × Nat
  | 0, i => ([], i)
  | fuel + 1, i =>
    if rxAcc.length < i + sppFrameHdr then ([], i)
    else if rxAcc.getD i 0 ≠ sppSync0 ∨ rxAcc.getD (i + 1) 0 ≠ sppSync1 then
      processLoop rxAcc fuel (i + 1)
    else
      let plen := lengthField (rxAcc.getD (i + 2) 0) (rxAcc.getD (i + 3) 0)
      if sppMaxPayload < plen then processLoop rxAcc fuel (i + 2)
      else if rxAcc.length < i + (sppFrameHdr + plen) then ([], i)
      else
        let r := processLoop rxAcc fuel (i + (sppFrameHdr + plen))
        ((rxAcc.drop (i + sppFrameHdr)).take plen :: r.1, r.2)

/-- `spp_process_accumulator`. The accumulator is the bytes of `rx_acc` below `rx_acc_len`. -/
def sppProcessAccumulator (forward : Bool) (rxAcc : List UInt8) : List UInt8 × List Effect :=
  let r := processLoop rxAcc rxAcc.length 0
  let effects := r.1.flatMap (sppHandleFramePayload forward)
  if 0 < r.2 ∧ r.2 < rxAcc.length then (rxAcc.drop r.2, effects)
  else if rxAcc.length ≤ r.2 then ([], effects)
  else if sppAccCap ≤ rxAcc.length then ([], effects ++ [.overflow rxAcc])
  else (rxAcc, effects)

def sppFeedAccumulator (forward : Bool) (rxAcc data : List UInt8) : List UInt8 × List Effect :=
  if data.length = 0 then (rxAcc, [])
  else if sppAccCap < rxAcc.length + data.length then
    let r := sppProcessAccumulator forward data
    (r.1, .flush rxAcc :: r.2)
  else sppProcessAccumulator forward (rxAcc ++ data)

/-- `spp_try_bare_cmd`: the packets it takes for a bare command. -/
def sppTryBareCmd (data : List UInt8) : Bool :=
  2 ≤ data.length ∧ data.length ≤ 16 ∧ data.getD 0 0 = 0xd2 ∧
    ¬ (4 ≤ data.length ∧ data.getD 1 0 = 0x5a)

def bridgeSppReceiveDataCb (forward : Bool) (rxAcc data : List UInt8) : List UInt8 × List Effect :=
  if sppTryBareCmd data then (rxAcc, [.dispatchRemoteCmd data false])
  else sppFeedAccumulator forward rxAcc data

/-- The payloads given to `spp_handle_frame_payload`. -/
def payloads (effects : List Effect) : List (List UInt8) :=
  effects.filterMap fun
    | .framePayload payload => some payload
    | _ => none

/-- The packets executed as bare commands. -/
def bareCmds (effects : List Effect) : List (List UInt8) :=
  effects.filterMap fun
    | .dispatchRemoteCmd payload false => some payload
    | _ => none

/-! ## The reference parser -/

/-- Behind the sync bytes: a length above the maximum skips them, and a frame is taken when all
of it is there. -/
def frameStep : List UInt8 → Option (List (List UInt8) × Nat)
  | hi :: lo :: body =>
    if sppMaxPayload < lengthField hi lo then some ([], 2)
    else if body.length < lengthField hi lo then none
    else some ([body.take (lengthField hi lo)], sppFrameHdr + lengthField hi lo)
  | _ => none

/-- The frames of a stream; a byte that does not start with the sync bytes is skipped. -/
def referenceStep : List UInt8 → Option (List (List UInt8) × Nat)
  | b₀ :: b₁ :: rest =>
    if b₀ ≠ sppSync0 ∨ b₁ ≠ sppSync1 then some ([], 1) else frameStep rest
  | _ => none

/-- The cases of a step of the reference parser. -/
theorem referenceStep_cases {xs : List UInt8} {out : List (List UInt8)} {n : Nat}
    (h : referenceStep xs = some (out, n)) :
    (out = [] ∧ n = 1 ∧ 2 ≤ xs.length) ∨ (out = [] ∧ n = 2 ∧ 4 ≤ xs.length) ∨
      ∃ payload, out = [payload] ∧ n = sppFrameHdr + payload.length ∧ n ≤ xs.length := by
  match xs with
  | [] | [_] => cases h
  | b₀ :: b₁ :: rest =>
    rw [referenceStep] at h
    split at h
    · cases h
      exact .inl ⟨rfl, rfl, by simp⟩
    · match rest with
      | [] | [_] => cases h
      | hi :: lo :: body =>
        rw [frameStep] at h
        split at h
        · cases h
          exact .inr (.inl ⟨rfl, rfl, by simp⟩)
        · split at h
          · cases h
          · rename_i hlen
            cases h
            refine .inr (.inr ⟨_, rfl, ?_, ?_⟩)
            · rw [length_take, Nat.min_eq_left (by omega)]
            · simp only [length_cons, sppFrameHdr]
              omega

def referenceParser : Parser UInt8 (List UInt8) where
  step := referenceStep
  pos {xs out n} h := by
    rcases referenceStep_cases h with ⟨-, rfl, -⟩ | ⟨-, rfl, -⟩ | ⟨payload, -, rfl, -⟩
    · decide
    · decide
    · exact Nat.add_pos_left (by decide) _
  le {xs out n} h := by
    rcases referenceStep_cases h with ⟨-, rfl, hlen⟩ | ⟨-, rfl, hlen⟩ | ⟨payload, -, -, hlen⟩
    · omega
    · omega
    · exact hlen
  extend {xs r} ys h := by
    match xs with
    | [] | [_] => cases h
    | b₀ :: b₁ :: rest =>
      rw [cons_append, cons_append]
      rw [referenceStep] at h ⊢
      split at h
      · rename_i hsync
        rw [if_pos hsync]
        exact h
      · rename_i hsync
        rw [if_neg hsync]
        match rest with
        | [] | [_] => cases h
        | hi :: lo :: body =>
          rw [cons_append, cons_append]
          rw [frameStep] at h ⊢
          split at h
          · rename_i hlong
            rw [if_pos hlong]
            exact h
          · rename_i hlong
            rw [if_neg hlong]
            split at h
            · cases h
            · rename_i hlen
              rw [length_append, if_neg (by omega), take_append_of_le_length (by omega)]
              exact h

variable (xs : List UInt8)

theorem referenceParser_step : referenceParser.step xs = referenceStep xs := rfl

/-! ## The accumulator as a parser -/

/-- The loop of the accumulator waits for a whole header. -/
def sppParser : Parser UInt8 (List UInt8) :=
  referenceParser.atLeast sppFrameHdr

/-- Waiting for the header delays no frame. -/
theorem sppParser_frames : (sppParser.run xs).1 = (referenceParser.run xs).1 := by
  refine referenceParser.atLeast_run (fun xs out n hlen h => ?_) xs
  rcases referenceStep_cases h with ⟨rfl, -, -⟩ | ⟨rfl, -, -⟩ | ⟨payload, -, hn, hle⟩
  · rfl
  · rfl
  · omega

/-- A parser that waits has less than one frame of the greatest length. -/
theorem length_of_sppStep_none {xs : List UInt8} (h : sppParser.step xs = none) :
    xs.length < sppFrameHdr + sppMaxPayload := by
  rcases Nat.lt_or_ge xs.length sppFrameHdr with hlt | hge
  · exact Nat.lt_of_lt_of_le hlt (Nat.le_add_right _ _)
  · have hnone : referenceStep xs = none := (referenceParser.atLeast_step_of_le hge).symm.trans h
    match xs with
    | b₀ :: b₁ :: hi :: lo :: body =>
      rw [referenceStep] at hnone
      split at hnone
      · cases hnone
      · rw [frameStep] at hnone
        split at hnone
        · cases hnone
        · split at hnone
          · simp only [length_cons, sppFrameHdr]
            omega
          · cases hnone

theorem getD_drop (i k : Nat) : xs.getD (i + k) 0 = (xs.drop i).getD k 0 := by
  simp only [getD_eq_getElem?_getD, getElem?_drop]

/-- The loop of the source runs the parser on the bytes from index `i` on. -/
theorem processLoop_eq (rxAcc : List UInt8) (fuel i : Nat) (hi : i ≤ rxAcc.length)
    (hfuel : rxAcc.length ≤ i + fuel) :
    (processLoop rxAcc fuel i).1 = (sppParser.run (rxAcc.drop i)).1 ∧
      rxAcc.drop (processLoop rxAcc fuel i).2 = (sppParser.run (rxAcc.drop i)).2 ∧
      (processLoop rxAcc fuel i).2 ≤ rxAcc.length := by
  induction fuel generalizing i with
  | zero =>
    have hnone : sppParser.step (rxAcc.drop i) = none :=
      referenceParser.atLeast_step_of_lt (by rw [length_drop, sppFrameHdr]; omega)
    rw [sppParser.run_of_none hnone]
    exact ⟨rfl, rfl, hi⟩
  | succ fuel ih =>
    rw [processLoop]
    split
    · rename_i hshort
      have hnone : sppParser.step (rxAcc.drop i) = none :=
        referenceParser.atLeast_step_of_lt (by rw [length_drop]; omega)
      rw [sppParser.run_of_none hnone]
      exact ⟨rfl, rfl, hi⟩
    · rename_i hlong
      rw [sppFrameHdr] at hlong
      have hstep : sppParser.step (rxAcc.drop i) = referenceStep (rxAcc.drop i) :=
        referenceParser.atLeast_step_of_le (by rw [length_drop, sppFrameHdr]; omega)
      -- the four bytes of the header, and what is behind them
      obtain ⟨b₀, b₁, hi, lo, body, hdrop⟩ : ∃ b₀ b₁ hi lo body,
          rxAcc.drop i = b₀ :: b₁ :: hi :: lo :: body := by
        match h : rxAcc.drop i with
        | b₀ :: b₁ :: hi :: lo :: body => exact ⟨b₀, b₁, hi, lo, body, rfl⟩
        | [] | [_] | [_, _] | [_, _, _] =>
          have hlen := congrArg List.length h
          simp only [length_drop, length_cons, length_nil] at hlen
          omega
      have hbody : rxAcc.drop (i + sppFrameHdr) = body := by
        rw [← drop_drop, hdrop]
        rfl
      have hlen := congrArg List.length hbody
      rw [length_drop] at hlen
      rw [show rxAcc.getD i 0 = b₀ by rw [← Nat.add_zero i, getD_drop, hdrop]; rfl,
        show rxAcc.getD (i + 1) 0 = b₁ by rw [getD_drop, hdrop]; rfl,
        show rxAcc.getD (i + 2) 0 = hi by rw [getD_drop, hdrop]; rfl,
        show rxAcc.getD (i + 3) 0 = lo by rw [getD_drop, hdrop]; rfl, hbody]
      rw [hdrop, referenceStep, frameStep] at hstep
      have hnext : ∀ out n, sppParser.step (rxAcc.drop i) = some (out, n) →
          sppParser.run (rxAcc.drop i) = (out ++ (sppParser.run (rxAcc.drop (i + n))).1,
            (sppParser.run (rxAcc.drop (i + n))).2) := by
        intro out n h
        rw [sppParser.run_of_some h, drop_drop]
      rw [← hdrop] at hstep
      dsimp only at hstep ⊢
      split
      · rename_i hsync
        rw [if_pos hsync] at hstep
        rw [hnext _ _ hstep]
        exact ih (i + 1) (by omega) (by omega)
      · rename_i hsync
        rw [if_neg hsync] at hstep
        split
        · rename_i hbad
          rw [if_pos hbad] at hstep
          rw [hnext _ _ hstep]
          exact ih (i + 2) (by omega) (by omega)
        · rename_i hgood
          rw [if_neg hgood] at hstep
          rw [sppFrameHdr] at hlen ⊢
          split
          · rw [if_pos (by omega)] at hstep
            rw [sppParser.run_of_none hstep]
            exact ⟨rfl, rfl, by omega⟩
          · rw [if_neg (by omega)] at hstep
            rw [hnext _ _ hstep]
            obtain ⟨hout, hrest, hle⟩ := ih (i + (4 + lengthField hi lo)) (by omega) (by omega)
            exact ⟨congrArg _ hout, hrest, hle⟩

/-- What processing an accumulator gives. -/
def parsed (forward : Bool) (xs : List UInt8) : List UInt8 × List Effect :=
  ((sppParser.run xs).2, (sppParser.run xs).1.flatMap (sppHandleFramePayload forward))

variable (forward : Bool)

/-- `spp_process_accumulator` never drops anything: a full accumulator holds a frame. -/
theorem sppProcessAccumulator_eq (rxAcc : List UInt8) :
    sppProcessAccumulator forward rxAcc = parsed forward rxAcc := by
  obtain ⟨hout, hrest, hle⟩ := processLoop_eq rxAcc rxAcc.length 0 (Nat.zero_le _) (by omega)
  rw [drop_zero] at hout hrest
  unfold sppProcessAccumulator parsed
  dsimp only
  rw [hout]
  split
  · rw [hrest]
  · rename_i hmiddle
    split
    · rename_i hend
      rw [← hrest, drop_eq_nil_of_le hend]
    · rename_i hend
      have hzero : (processLoop rxAcc rxAcc.length 0).2 = 0 := by omega
      rw [hzero, drop_zero] at hrest
      have hstuck := sppParser.step_run rxAcc
      rw [← hrest] at hstuck ⊢
      have hlen := length_of_sppStep_none hstuck
      rw [if_neg (by rw [sppAccCap]; omega)]

/-- A chunk that fits is parsed behind what the accumulator holds. -/
theorem sppFeedAccumulator_eq {rxAcc data : List UInt8}
    (hwaits : sppParser.step rxAcc = none) (hfits : rxAcc.length + data.length ≤ sppAccCap) :
    sppFeedAccumulator forward rxAcc data = parsed forward (rxAcc ++ data) := by
  unfold sppFeedAccumulator
  split
  · rename_i hempty
    rw [length_eq_zero_iff.mp hempty, append_nil, parsed, sppParser.run_of_none hwaits]
    rfl
  · rw [if_neg (by omega), sppProcessAccumulator_eq]

variable (first second : List Effect)

@[simp]
theorem payloads_append :
    payloads (first ++ second) = payloads first ++ payloads second :=
  filterMap_append

@[simp]
theorem bareCmds_append :
    bareCmds (first ++ second) = bareCmds first ++ bareCmds second :=
  filterMap_append

theorem sppHandleFramePayload_effects (payload : List UInt8) :
    payloads (sppHandleFramePayload forward payload) = [payload] ∧
      bareCmds (sppHandleFramePayload forward payload) = [] ∧
      ∀ bytes, Effect.flush bytes ∉ sppHandleFramePayload forward payload ∧
        Effect.overflow bytes ∉ sppHandleFramePayload forward payload := by
  unfold sppHandleFramePayload
  split
  · simp [payloads, bareCmds]
  · split
    · simp [payloads, bareCmds]
    · split <;> simp [payloads, bareCmds]

/-- Handling payloads hands over each of them, and executes no bare command. -/
theorem effects_flatMap_handle (frames : List (List UInt8)) :
    payloads (frames.flatMap (sppHandleFramePayload forward)) = frames ∧
      bareCmds (frames.flatMap (sppHandleFramePayload forward)) = [] := by
  induction frames with
  | nil => exact ⟨rfl, rfl⟩
  | cons payload frames ih =>
    obtain ⟨hpayloads, hbare, -⟩ := sppHandleFramePayload_effects forward payload
    rw [flatMap_cons, payloads_append, bareCmds_append, ih.1, ih.2, hpayloads, hbare]
    exact ⟨rfl, rfl⟩

end SpeakerFirmware.RemoteCmd.Spp
