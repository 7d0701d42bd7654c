/-
# Commands over BLE

`system_app_ble_remote_cmd.c` takes the same commands as the serial port profile, one in
each write: a bare command, or one frame `A5 5A LEN_H LEN_L payload`. There is no
accumulator; the value written is all there is.

The length of a frame is checked with a sum of 16 bits, which is too small for the
largest lengths: `parse_inside_iff` says which. For frames the two channels agree; a bare
command may be longer here than on the serial port: `spp_ble_dispatch_iff`.
-/

import SpeakerFirmware.RemoteCmd.SppFraming

namespace SpeakerFirmware.RemoteCmd.Ble

open Spp
open List

variable {data : List UInt8}

def bleCmdFrameHdr : Nat := 4

/-- The arguments of `bt_manager_remote_cmd_dispatch`, the payload as its place in the value that
was written, and whether a header was in front of it. -/
structure Parsed where
  payload : Nat
  plen : Nat
  framed : Bool
  deriving DecidableEq, Repr

/-- `ble_remote_cmd_parse_write`; `none` is its `-EINVAL`. -/
def bleRemoteCmdParseWrite (data : List UInt8) : Option Parsed :=
  if bleCmdFrameHdr ≤ data.length ∧ data.getD 0 0 = sppSync0 ∧ data.getD 1 0 = sppSync1 then
    let bodyLen := lengthField (data.getD 2 0) (data.getD 3 0)
    if bodyLen < 2 ∨ data.length < (bleCmdFrameHdr + bodyLen) % 2 ^ 16 then none
    else some ⟨bleCmdFrameHdr, bodyLen, true⟩
  else if 2 ≤ data.length ∧ data.getD 0 0 = 0xd2 then some ⟨0, data.length, false⟩
  else none

/-- The call of `bt_manager_remote_cmd_dispatch` in `ble_remote_cmd_write_cb`. -/
def bleRemoteCmdWriteCb (offset : Nat) (data : List UInt8) : Option Parsed :=
  if offset ≠ 0 then none
  else if data.length < 2 then none
  else bleRemoteCmdParseWrite data

/-! ## Bounds -/

/-- The payload has a subcommand and lies in the value. -/
def Parsed.Inside (parsed : Parsed) (data : List UInt8) : Prop :=
  2 ≤ parsed.plen ∧ parsed.payload + parsed.plen ≤ data.length

/-- A frame whose length field makes the sum of the check wrap. -/
def WrapsLength (data : List UInt8) : Prop :=
  bleCmdFrameHdr ≤ data.length ∧ data.getD 0 0 = sppSync0 ∧ data.getD 1 0 = sppSync1 ∧
    0xfffc ≤ lengthField (data.getD 2 0) (data.getD 3 0)

theorem lengthField_lt (hi lo : UInt8) : lengthField hi lo < 2 ^ 16 := by
  have hhi := hi.toNat_lt
  have hlo := lo.toNat_lt
  rw [lengthField]
  omega

theorem parse_inside {parsed : Parsed} (hwrap : ¬ WrapsLength data)
    (h : bleRemoteCmdParseWrite data = some parsed) : parsed.Inside data := by
  unfold bleRemoteCmdParseWrite at h
  split at h
  · rename_i hsync
    dsimp only at h
    split at h
    · cases h
    · rename_i hgood
      cases h
      have hsmall : lengthField (data.getD 2 0) (data.getD 3 0) < 0xfffc :=
        Nat.not_le.mp fun hlarge => hwrap ⟨hsync.1, hsync.2.1, hsync.2.2, hlarge⟩
      rw [bleCmdFrameHdr, Nat.mod_eq_of_lt (by omega)] at hgood
      rw [Parsed.Inside, bleCmdFrameHdr]
      dsimp only
      omega
  · split at h
    · rename_i hbare
      cases h
      exact ⟨hbare.1, Nat.le_of_eq (Nat.zero_add _)⟩
    · cases h

/-- A frame that wraps is accepted, with a length beyond any value. -/
theorem parse_wrapping (h : WrapsLength data) :
    bleRemoteCmdParseWrite data =
      some ⟨bleCmdFrameHdr, lengthField (data.getD 2 0) (data.getD 3 0), true⟩ := by
  obtain ⟨hlen, hsync0, hsync1, hlarge⟩ := h
  have hlt := lengthField_lt (data.getD 2 0) (data.getD 3 0)
  rw [bleRemoteCmdParseWrite, if_pos ⟨hlen, hsync0, hsync1⟩]
  dsimp only
  rw [bleCmdFrameHdr] at hlen ⊢
  rw [if_neg (by omega)]

theorem writeCb_zero (hlen : 2 ≤ data.length) :
    bleRemoteCmdWriteCb 0 data = bleRemoteCmdParseWrite data := by
  rw [bleRemoteCmdWriteCb, if_neg (not_not.mpr rfl), if_neg (by omega)]

/-- What is dispatched was parsed. -/
theorem parse_of_writeCb {offset : Nat} {parsed : Parsed}
    (h : bleRemoteCmdWriteCb offset data = some parsed) :
    bleRemoteCmdParseWrite data = some parsed := by
  unfold bleRemoteCmdWriteCb at h
  split at h
  · cases h
  · split at h
    · cases h
    · exact h

/-- A value is parsed to a payload inside it, and only such a payload is dispatched, exactly if it
is not a frame whose length field is `FFFC` or more. -/
theorem parse_inside_iff (data : List UInt8) (hmin : 2 ≤ data.length) (hmax : data.length ≤ 65535) :
    ((∀ parsed, bleRemoteCmdParseWrite data = some parsed → parsed.Inside data) ∧
        ∀ offset parsed, bleRemoteCmdWriteCb offset data = some parsed → parsed.Inside data) ↔
      ¬ WrapsLength data := by
  constructor
  · rintro ⟨hparse, -⟩ hwrap
    have hinside := hparse _ (parse_wrapping hwrap)
    have hlarge := hwrap.2.2.2
    rw [Parsed.Inside, bleCmdFrameHdr] at hinside
    dsimp only at hinside
    omega
  · intro hwrap
    exact ⟨fun parsed h => parse_inside hwrap h,
      fun offset parsed h => parse_inside hwrap (parse_of_writeCb h)⟩

/-- `A5 5A FF FE D2 01`: six bytes written, and a command of 65534 bytes is dispatched. -/
theorem parse_accepts_wrapped_length :
    bleRemoteCmdWriteCb 0 [0xa5, 0x5a, 0xff, 0xfe, 0xd2, 0x01] = some ⟨4, 65534, true⟩ ∧
      ¬ Parsed.Inside ⟨4, 65534, true⟩ [0xa5, 0x5a, 0xff, 0xfe, 0xd2, 0x01] :=
  ⟨by decide, fun h => absurd h.2 (by decide)⟩

/-- `A5 5A 00 02 D2 01` is parsed to the last two bytes. -/
theorem parse_inside_next : Parsed.Inside ⟨4, 2, true⟩ [0xa5, 0x5a, 0x00, 0x02, 0xd2, 0x01] :=
  ((parse_inside_iff [0xa5, 0x5a, 0x00, 0x02, 0xd2, 0x01] (by decide) (by decide)).mpr
    (fun hwrap => absurd hwrap.2.2.2 (by decide))).1 ⟨4, 2, true⟩ (by decide)

/-! ## The two channels -/

/-- The payload and the length that are given to `bt_manager_remote_cmd_dispatch`. -/
def dispatched : Effect → Option (List UInt8 × Nat)
  | .dispatchRemoteCmd payload _ => some (payload, payload.length)
  | _ => none

/-- What a packet makes the serial port give to it. -/
def sppDispatches (forward : Bool) (data : List UInt8) : List (List UInt8 × Nat) :=
  (bridgeSppReceiveDataCb forward [] data).2.filterMap dispatched

/-- What a write makes BLE give to it. -/
def bleDispatches (data : List UInt8) : List (List UInt8 × Nat) :=
  (bleRemoteCmdWriteCb 0 data).toList.map fun parsed =>
    ((data.drop parsed.payload).take parsed.plen, parsed.plen)

theorem bleDispatches_bare (hlen : 2 ≤ data.length) (hbare : data.getD 0 0 = 0xd2) :
    bleDispatches data = [(data, data.length)] := by
  have hsync : ¬
      (bleCmdFrameHdr ≤ data.length ∧ data.getD 0 0 = sppSync0 ∧ data.getD 1 0 = sppSync1) := by
    rw [hbare]
    exact fun h => absurd h.2.1 (by decide)
  rw [bleDispatches, writeCb_zero hlen, bleRemoteCmdParseWrite, if_neg hsync, if_pos ⟨hlen, hbare⟩]
  simp only [Option.toList_some, map_cons, map_nil, drop_zero, take_length]

theorem bleDispatches_frame {payload : List UInt8} (hlen : 2 ≤ payload.length)
    (hmax : payload.length ≤ sppMaxPayload) :
    bleDispatches (encodeFrame payload) = [(payload, payload.length)] := by
  have hframe := length_encodeFrame payload
  have hfield : lengthField ((encodeFrame payload).getD 2 0) ((encodeFrame payload).getD 3 0) =
      payload.length := lengthField_ofNat hmax
  rw [sppFrameHdr] at hframe
  rw [sppMaxPayload] at hmax
  rw [bleDispatches, writeCb_zero (by omega), bleRemoteCmdParseWrite,
    if_pos ⟨by rw [bleCmdFrameHdr]; omega, rfl, rfl⟩]
  dsimp only
  rw [hfield, bleCmdFrameHdr, if_neg (by rw [hframe, Nat.mod_eq_of_lt (by omega)]; omega)]
  simp only [Option.toList_some, map_cons, map_nil, encodeFrame, drop_succ_cons,
    drop_zero, take_length]

theorem filterMap_handle_dispatch (forward : Bool) (payload : List UInt8) :
    (sppHandleFramePayload forward payload).filterMap dispatched =
      if 2 ≤ payload.length ∧ payload.getD 0 0 = 0xd2 then [(payload, payload.length)] else [] := by
  unfold sppHandleFramePayload
  split
  · rw [if_neg (by omega)]
    rfl
  · split
    · rename_i hcmd
      rw [if_pos ⟨by omega, hcmd⟩]
      rfl
    · rename_i hcmd
      rw [if_neg (show ¬ (2 ≤ payload.length ∧ payload.getD 0 0 = 0xd2) from fun h => hcmd h.2)]
      split <;> rfl

/-- A packet that is not a bare command and fits is parsed for frames. -/
theorem sppDispatches_parsed (forward : Bool) (hbare : sppTryBareCmd data = false)
    (hlen : data.length ≤ sppAccCap) :
    sppDispatches forward data = (sppParser.run data).1.flatMap fun payload =>
      if 2 ≤ payload.length ∧ payload.getD 0 0 = 0xd2 then [(payload, payload.length)] else [] := by
  have hfeed : sppFeedAccumulator forward [] data = parsed forward ([] ++ data) :=
    sppFeedAccumulator_eq forward rfl (by rw [length_nil]; omega)
  rw [sppDispatches, bridgeSppReceiveDataCb, if_neg (by rw [hbare]; decide), hfeed, parsed,
    nil_append,
    filterMap_flatMap]
  exact congrArg (fun f => (sppParser.run data).1.flatMap f)
    (funext (filterMap_handle_dispatch forward))

/-- On packets of up to 500 bytes: both channels dispatch the payload of a frame with a command. Of
a packet that starts with `D2`, BLE dispatches all of it, and the serial port does so exactly if the
packet has at most 16 bytes and, with four bytes or more, its second one is not `5A`. -/
theorem spp_ble_dispatch_iff (forward : Bool) (data : List UInt8) (hmin : 2 ≤ data.length)
    (hmax : data.length ≤ 500) :
    (∀ payload, data = encodeFrame payload → 2 ≤ payload.length → payload.getD 0 0 = 0xd2 →
        bleDispatches data = [(payload, payload.length)] ∧
          sppDispatches forward data = bleDispatches data) ∧
      (data.getD 0 0 = 0xd2 → bleDispatches data = [(data, data.length)] ∧
        (sppDispatches forward data = bleDispatches data ↔
          data.length ≤ 16 ∧ ¬ (4 ≤ data.length ∧ data.getD 1 0 = 0x5a))) := by
  have hcap : data.length ≤ sppAccCap := Nat.le_trans hmax (by decide)
  constructor
  · rintro payload rfl hlen hcmd
    have hframe := length_encodeFrame payload
    have hpayload : payload.length ≤ sppMaxPayload := by
      rw [sppFrameHdr] at hframe
      rw [sppMaxPayload]
      omega
    have hble := bleDispatches_frame hlen hpayload
    have hbare : sppTryBareCmd (encodeFrame payload) = false :=
      decide_eq_false fun h => absurd h.2.2.1 (show ¬ sppSync0 = 0xd2 by decide)
    have hrun : (sppParser.run (encodeFrame payload)).1 = [payload] := by
      have hframes : (sppParser.run ([payload].flatMap encodeFrame)).1 = [payload] :=
        run_frames (by simpa using hpayload)
      rwa [flatMap_singleton] at hframes
    refine ⟨hble, ?_⟩
    rw [hble, sppDispatches_parsed forward hbare hcap, hrun, flatMap_singleton, if_pos ⟨hlen, hcmd⟩]
  · intro hcmd
    have hble := bleDispatches_bare hmin hcmd
    refine ⟨hble, ?_⟩
    cases hbare : sppTryBareCmd data with
    | true =>
      rw [sppDispatches, bridgeSppReceiveDataCb, if_pos hbare, hble]
      simp only [sppTryBareCmd, decide_eq_true_eq] at hbare
      exact ⟨fun _ => ⟨hbare.2.1, hbare.2.2.2⟩, fun _ => rfl⟩
    | false =>
      refine ⟨fun hsame => ?_, fun h => ?_⟩
      · -- the payload of a frame is shorter than the packet it is in
        rw [hble, sppDispatches_parsed forward hbare hcap] at hsame
        have hmem : (data, data.length) ∈ [(data, data.length)] := mem_singleton_self _
        rw [← hsame] at hmem
        obtain ⟨payload, hin, hpair⟩ := mem_flatMap.mp hmem
        split at hpair
        · cases mem_singleton.mp hpair
          have hrun := length_run data
          have hsub := (sublist_flatten_of_mem (mem_map_of_mem (f := encodeFrame) hin)).length_le
          rw [← flatMap_def, length_encodeFrame, sppFrameHdr] at hsub
          omega
        · cases hpair
      · simp only [sppTryBareCmd, decide_eq_false_iff_not] at hbare
        exact absurd ⟨hmin, h.1, hcmd, h.2⟩ hbare

/-- A command with fifteen more bytes, which only BLE executes. -/
theorem long_bare_cmd_differs :
    sppDispatches false (0xd2 :: 0x01 :: List.replicate 15 0) = [] ∧
      bleDispatches (0xd2 :: 0x01 :: List.replicate 15 0) =
        [(0xd2 :: 0x01 :: List.replicate 15 0, 17)] := by
  decide

/-- `D2 01`, bare and in a frame. -/
theorem spp_ble_dispatch_next :
    sppDispatches false [0xd2, 0x01] = [([0xd2, 0x01], 2)] ∧
      sppDispatches false (encodeFrame [0xd2, 0x01]) = [([0xd2, 0x01], 2)] := by
  have hbare := (spp_ble_dispatch_iff false [0xd2, 0x01] (by decide) (by decide)).2 rfl
  have hframe := (spp_ble_dispatch_iff false (encodeFrame [0xd2, 0x01]) (by decide) (by decide)).1
    [0xd2, 0x01] rfl (by decide) rfl
  exact ⟨(hbare.2.mpr ⟨by decide, by decide⟩).trans hbare.1, hframe.2.trans hframe.1⟩

end SpeakerFirmware.RemoteCmd.Ble
