/-
# Binary command frames on the UART

`bt_mgr_uart_rx_binary_feed` takes the bytes from the UART one by one and puts together
frames `D3 VER LEN_H LEN_L payload CRC8`. It is a machine of six states with a buffer for
the payload.

The machine is right in both directions. Frames with noise between them are dispatched
each once and in order: `feed_frame` is the argument for one frame. And on any bytes
whatever, what is dispatched stood on the line in a frame with a matching CRC: the
invariant is that the frame the machine is in the middle of, `pending`, is the end of the
bytes so far.
-/

import Mathlib.Data.UInt
import SpeakerFirmware.Lib.Runs

namespace SpeakerFirmware.RemoteCmd.UartBinary

open Runs
open List UInt16 Nat

/-! ## The receiver -/

/-- `CONFIG_BT_MANAGER_UART_RX_BIN_VER` and `CONFIG_BT_MANAGER_UART_RX_BIN_MAX_PAYLOAD`. The
length field has two bytes. -/
structure Config where
  ver : UInt8
  maxPayload : Nat
  maxPayload_lt : maxPayload < 2 ^ 16

/-- The `BIN_RX_` states. -/
inductive BinRxState
  | sync | ver | lenH | lenL | payload | crc
  deriving DecidableEq, Repr

/-- The variables `bin_rx_`. -/
structure BinRx (cfg : Config) where
  state : BinRxState
  ver : UInt8
  len : UInt16
  got : UInt16
  payload : List UInt8
  length_payload : payload.length = cfg.maxPayload

/-- What the receiver does: it writes a byte of `bin_rx_payload`, calls
`bt_manager_uart_rx_binary_dispatch`, or complains about a CRC. -/
inductive Effect
  | store (index : Nat)
  | dispatch (payload : List UInt8)
  | crcError
  deriving DecidableEq, Repr

/-- One of the eight shifts of `bin_crc8_feed`. -/
def binCrc8Shift (crc : UInt8) : UInt8 :=
  if crc &&& 1 ≠ 0 then (crc >>> 1) ^^^ 0x8c else crc >>> 1

def binCrc8Feed (crc byte : UInt8) : UInt8 :=
  binCrc8Shift^[8] (crc ^^^ byte)

def binCrc8 (data : List UInt8) : UInt8 :=
  data.foldl binCrc8Feed 0

variable {cfg : Config}

variable (s : BinRx cfg)

def binRxReset : BinRx cfg :=
  { s with state := .sync, ver := 0, len := 0, got := 0 }

/-- The bytes `mid[1]` and `mid[2]` of the length. -/
def lenHi (len : UInt16) : UInt8 := ((len >>> 8) &&& 0xff).toUInt8
def lenLo (len : UInt16) : UInt8 := (len &&& 0xff).toUInt8

/-- `crc_calc`, over the version, the length and the payload. -/
def frameCrc : UInt8 :=
  (s.payload.take s.len.toNat).foldl binCrc8Feed (binCrc8 [s.ver, lenHi s.len, lenLo s.len])

/-- `bt_mgr_uart_rx_binary_feed`. -/
def binaryFeed (c : UInt8) : BinRx cfg × List Effect :=
  match s.state with
  | .sync => (if c = 0xd3 then { s with state := .ver } else s, [])
  | .ver =>
    let s := { s with ver := c }
    if c = cfg.ver then ({ s with state := .lenH }, [])
    else if c = 0xd3 then ({ s with state := .ver }, [])
    else (binRxReset s, [])
  | .lenH => ({ s with len := c.toUInt16 <<< 8, state := .lenL }, [])
  | .lenL =>
    let s := { s with len := s.len ||| c.toUInt16 }
    if cfg.maxPayload < s.len.toNat then (binRxReset s, [])
    else ({ s with got := 0, state := if s.len = 0 then .crc else .payload }, [])
  | .payload =>
    let s' := { s with
      payload := s.payload.set s.got.toNat c, got := s.got + 1
      length_payload := length_set.trans s.length_payload }
    ({ s' with state := if s'.len ≤ s'.got then .crc else .payload }, [.store s.got.toNat])
  | .crc =>
    (binRxReset s,
      [if frameCrc s = c then .dispatch (s.payload.take s.len.toNat) else .crcError])

/-- The payloads given to `bt_manager_uart_rx_binary_dispatch`. -/
def dispatched (effects : List Effect) : List (List UInt8) :=
  effects.filterMap fun
    | .dispatch payload => some payload
    | _ => none

theorem dispatched_append (first second : List Effect) :
    dispatched (first ++ second) = dispatched first ++ dispatched second :=
  filterMap_append

/-- A frame as it is sent. -/
def encodeFrame (cfg : Config) (payload : List UInt8) : List UInt8 :=
  let hi := UInt8.ofNat (payload.length / 256)
  let lo := UInt8.ofNat payload.length
  0xd3 :: cfg.ver :: hi :: lo :: (payload ++ [binCrc8 (cfg.ver :: hi :: lo :: payload)])

/-! ## The length field -/

/-- The length the two bytes stand for. -/
theorem toNat_len (hi lo : UInt8) :
    ((hi.toUInt16 <<< 8) ||| lo.toUInt16).toNat = hi.toNat * 256 + lo.toNat := by
  have hhi := hi.toNat_lt
  have hlo := lo.toNat_lt
  have hshift : (hi.toUInt16 <<< 8).toNat = hi.toNat <<< 8 := by
    rw [UInt16.toNat_shiftLeft, UInt8.toNat_toUInt16, show (8 : UInt16).toNat % 16 = 8 by decide]
    exact mod_eq_of_lt (by rw [shiftLeft_eq]; omega)
  rw [UInt16.toNat_or, hshift, UInt8.toNat_toUInt16, ← shiftLeft_add_eq_or_of_lt (by omega),
    shiftLeft_eq]

variable (len : UInt16)

theorem toNat_lenHi : (lenHi len).toNat = len.toNat / 256 := by
  have hlen := len.toNat_lt
  rw [lenHi, UInt16.toNat_toUInt8, UInt16.toNat_and, UInt16.toNat_shiftRight,
    shiftRight_eq_div_pow, show (8 : UInt16).toNat % 16 = 8 by decide,
    show (0xff : UInt16).toNat = 2 ^ 8 - 1 by decide, and_two_pow_sub_one_eq_mod]
  omega

theorem toNat_lenLo : (lenLo len).toNat = len.toNat % 256 := by
  rw [lenLo, UInt16.toNat_toUInt8, UInt16.toNat_and,
    show (0xff : UInt16).toNat = 2 ^ 8 - 1 by decide,
    and_two_pow_sub_one_eq_mod]
  omega

theorem lenHi_len (hi lo : UInt8) : lenHi ((hi.toUInt16 <<< 8) ||| lo.toUInt16) = hi := by
  have hlo := lo.toNat_lt
  apply UInt8.toNat_inj.mp
  rw [toNat_lenHi, toNat_len]
  omega

theorem lenLo_len (hi lo : UInt8) : lenLo ((hi.toUInt16 <<< 8) ||| lo.toUInt16) = lo := by
  have hlo := lo.toNat_lt
  apply UInt8.toNat_inj.mp
  rw [toNat_lenLo, toNat_len]
  omega

theorem lenHi_shift (hi : UInt8) : lenHi (hi.toUInt16 <<< 8) = hi := by
  have hlen := lenHi_len hi 0
  rwa [show (0 : UInt8).toUInt16 = 0 from rfl, UInt16.or_zero] at hlen

/-- The length bytes of a frame with this payload. -/
theorem lenHi_eq_ofNat : lenHi len = UInt8.ofNat (len.toNat / 256) := by
  have hlen := len.toNat_lt
  apply UInt8.toNat_inj.mp
  rw [toNat_lenHi, UInt8.toNat_ofNat']
  omega

theorem lenLo_eq_ofNat : lenLo len = UInt8.ofNat len.toNat := by
  apply UInt8.toNat_inj.mp
  rw [toNat_lenLo, UInt8.toNat_ofNat']

theorem frameCrc_eq (s : BinRx cfg) :
    frameCrc s = binCrc8 (s.ver :: lenHi s.len :: lenLo s.len :: s.payload.take s.len.toNat) := by
  simp only [frameCrc, binCrc8, foldl_cons, foldl_nil]

/-! ## What is sent is dispatched -/

section

variable {s : BinRx cfg}

theorem feed_noise (hs : s.state = .sync) {noise : List UInt8} (hnoise : 0xd3 ∉ noise) :
    transduce binaryFeed s noise = (s, []) := by
  induction noise with
  | nil => rfl
  | cons c noise ih =>
    have hfeed : binaryFeed s c = (s, []) := by
      rw [binaryFeed, hs]
      dsimp only
      rw [if_neg (ne_of_not_mem_cons hnoise).symm]
    rw [transduce, hfeed]
    dsimp only
    rw [ih (not_mem_of_not_mem_cons hnoise), nil_append]

/-- The header: the length is known, and the payload or the CRC follows. -/
theorem feed_header (hs : s.state = .sync) (hi lo : UInt8)
    (hlen : hi.toNat * 256 + lo.toNat ≤ cfg.maxPayload) :
    transduce binaryFeed s [0xd3, cfg.ver, hi, lo] =
      ({ s with
        state := if (hi.toUInt16 <<< 8) ||| lo.toUInt16 = 0 then .crc else .payload
        ver := cfg.ver, len := (hi.toUInt16 <<< 8) ||| lo.toUInt16, got := 0 }, []) := by
  have hle : ¬ cfg.maxPayload < ((hi.toUInt16 <<< 8) ||| lo.toUInt16).toNat := by
    rw [toNat_len]
    omega
  simp only [transduce, binaryFeed, hs, ↓reduceIte, if_neg hle, append_nil]

/-- One byte of the payload. -/
theorem binaryFeed_payload (hs : s.state = .payload) (c : UInt8) :
    ∃ s', binaryFeed s c = (s', [.store s.got.toNat]) ∧
      s'.state = (if s.len ≤ s.got + 1 then .crc else .payload) ∧ s'.ver = s.ver ∧ s'.len = s.len ∧
      s'.got = s.got + 1 ∧ s'.payload = s.payload.set s.got.toNat c := by
  rw [binaryFeed, hs]
  exact ⟨_, rfl, rfl, rfl, rfl, rfl, rfl⟩

theorem toNat_got_succ (h : s.got < s.len) : (s.got + 1).toNat = s.got.toNat + 1 := by
  have hlt := UInt16.lt_iff_toNat_lt.mp h
  have hlen := s.len.toNat_lt
  rw [UInt16.toNat_add, show (1 : UInt16).toNat = 1 by decide]
  exact mod_eq_of_lt (by omega)

end

theorem take_set_succ (bytes : List UInt8) {n : Nat} (hn : n < bytes.length) (c : UInt8) :
    (bytes.set n c).take (n + 1) = bytes.take n ++ [c] := by
  rw [take_set, take_succ_eq_append_getElem hn,
    set_append_right _ _ (by rw [length_take]; omega), length_take,
    Nat.min_eq_left (Nat.le_of_lt hn), Nat.sub_self, set_cons_zero]

section

variable {s : BinRx cfg}

/-- The bytes of the payload. -/
theorem feed_payload (hs : s.state = .payload) (hmax : s.len.toNat ≤ cfg.maxPayload)
    {bytes : List UInt8} (hne : bytes ≠ []) (hlen : s.got.toNat + bytes.length = s.len.toNat) :
    ∃ s' effects, transduce binaryFeed s bytes = (s', effects) ∧ s'.state = .crc ∧ s'.ver = s.ver ∧
      s'.len = s.len ∧ s'.payload.take s'.len.toNat = s.payload.take s.got.toNat ++ bytes ∧
      dispatched effects = [] := by
  induction bytes generalizing s with
  | nil => exact absurd rfl hne
  | cons c bytes ih =>
    obtain ⟨s', hfeed, hstate, hver, hlen', hgot, hpayload⟩ := binaryFeed_payload hs c
    rw [length_cons] at hlen
    have hlt : s.got < s.len := lt_iff_toNat_lt.mpr (by omega)
    have hsucc := toNat_got_succ hlt
    have htake : s'.payload.take s'.got.toNat = s.payload.take s.got.toNat ++ [c] := by
      rw [hpayload, hgot, hsucc]
      exact take_set_succ _ (by rw [s.length_payload]; omega) c
    rw [transduce, hfeed]
    dsimp only
    rcases eq_or_ne bytes [] with rfl | hmore
    · -- the last byte
      have hend : s.len ≤ s.got + 1 := le_iff_toNat_le.mpr (by rw [hsucc]; simp at hlen; omega)
      rw [if_pos hend] at hstate
      refine ⟨s', _, rfl, hstate, hver, hlen', ?_, rfl⟩
      rw [← htake, hgot, hsucc, hlen']
      congr 1
      simpa using hlen.symm
    · have hpos := length_pos_iff.mpr hmore
      have hgo : ¬ s.len ≤ s.got + 1 := fun h => by
        have hle := le_iff_toNat_le.mp h
        omega
      rw [if_neg hgo] at hstate
      obtain ⟨s'', effects, hrun, hstate'', hver'', hlen'', htake'', hquiet⟩ :=
        ih hstate (by rw [hlen']; exact hmax) hmore (by rw [hgot, hsucc, hlen']; omega)
      refine ⟨s'', .store s.got.toNat :: effects, by rw [hrun]; rfl, hstate'', hver''.trans hver,
        hlen''.trans hlen', ?_, hquiet⟩
      rw [htake'', htake, append_assoc]
      rfl

/-- The CRC byte ends the frame. -/
theorem binaryFeed_crc (hs : s.state = .crc) (c : UInt8) :
    ∃ s', s'.state = .sync ∧ binaryFeed s c = (s',
      [if frameCrc s = c then .dispatch (s.payload.take s.len.toNat) else .crcError]) := by
  rw [binaryFeed, hs]
  exact ⟨_, rfl, rfl⟩

/-- A frame is dispatched. -/
theorem feed_frame (hs : s.state = .sync) {payload : List UInt8}
    (hlen : payload.length ≤ cfg.maxPayload) :
    ∃ s' effects, transduce binaryFeed s (encodeFrame cfg payload) = (s', effects) ∧
      s'.state = .sync ∧
      dispatched effects = [payload] := by
  have hshort := cfg.maxPayload_lt
  obtain ⟨hi, hhi⟩ : ∃ hi, hi = UInt8.ofNat (payload.length / 256) := ⟨_, rfl⟩
  obtain ⟨lo, hlo⟩ : ∃ lo, lo = UInt8.ofNat payload.length := ⟨_, rfl⟩
  have hlength : hi.toNat * 256 + lo.toNat = payload.length := by
    rw [hhi, hlo, UInt8.toNat_ofNat', UInt8.toNat_ofNat']
    omega
  -- behind the header the payload follows, if there is one; then the state is `crc`
  have hpayload : ∃ s' effects, transduce binaryFeed s ([0xd3, cfg.ver, hi, lo] ++ payload) =
      (s', effects) ∧
      s'.state = .crc ∧ s'.ver = cfg.ver ∧ s'.len = (hi.toUInt16 <<< 8) ||| lo.toUInt16 ∧
      s'.payload.take s'.len.toNat = payload ∧ dispatched effects = [] := by
    rw [transduce_append, feed_header hs hi lo (by omega)]
    rcases eq_or_ne payload [] with rfl | hne
    · have hzero : (hi.toUInt16 <<< 8) ||| lo.toUInt16 = 0 := by
        apply UInt16.toNat_inj.mp
        rw [toNat_len, hlength]
        rfl
      refine ⟨_, _, rfl, if_pos hzero, rfl, rfl, ?_, rfl⟩
      show s.payload.take ((hi.toUInt16 <<< 8) ||| lo.toUInt16).toNat = []
      rw [toNat_len, hlength]
      rfl
    · have hpos := length_pos_iff.mpr hne
      have hnonzero : ¬ (hi.toUInt16 <<< 8) ||| lo.toUInt16 = 0 := fun h => by
        have hnat := congrArg toNat h
        rw [toNat_len, hlength, show (0 : UInt16).toNat = 0 by decide] at hnat
        omega
      dsimp only
      rw [if_neg hnonzero]
      obtain ⟨s', effects, hrun, hstate, hver, hlen', htake, hquiet⟩ :=
        feed_payload (s := { s with
            state := .payload, ver := cfg.ver, len := (hi.toUInt16 <<< 8) ||| lo.toUInt16, got :=
              0 })
          rfl (by rw [toNat_len]; omega) hne (by rw [toNat_len, hlength]; exact zero_add _)
      exact ⟨s', effects, by rw [hrun]; rfl, hstate, hver, hlen', htake, hquiet⟩
  obtain ⟨s', effects, hrun, hstate, hver, hlen', htake, hquiet⟩ := hpayload
  obtain ⟨s'', hsync, hfeed⟩ := binaryFeed_crc hstate (binCrc8 (cfg.ver :: hi :: lo :: payload))
  have hcrc : frameCrc s' = binCrc8 (cfg.ver :: hi :: lo :: payload) := by
    rw [frameCrc_eq, htake, hver, hlen', lenHi_len, lenLo_len]
  rw [if_pos hcrc, htake] at hfeed
  have hframe : encodeFrame cfg payload = [0xd3, cfg.ver, hi, lo] ++ payload ++
      [binCrc8 (cfg.ver :: hi :: lo :: payload)] := by
    rw [hhi, hlo]
    rfl
  refine ⟨s'', effects ++ [.dispatch payload], ?_, hsync, ?_⟩
  · rw [hframe, transduce_append, hrun, transduce_singleton, hfeed]
  · rw [dispatched_append, hquiet]
    rfl

/-- Frames with noise before each. -/
theorem feed_frames (hs : s.state = .sync) {frames : List (List UInt8 × List UInt8)}
    (hframes : ∀ frame ∈ frames, 0xd3 ∉ frame.1 ∧ frame.2.length ≤ cfg.maxPayload) :
    ∃ s' effects,
      transduce binaryFeed s (frames.flatMap fun frame => frame.1 ++ encodeFrame cfg frame.2) =
      (s', effects) ∧ s'.state = .sync ∧ dispatched effects = frames.map Prod.snd := by
  induction frames generalizing s with
  | nil => exact ⟨s, [], rfl, hs, rfl⟩
  | cons frame frames ih =>
    obtain ⟨⟨hnoise, hlen⟩, hlater⟩ := forall_mem_cons.mp hframes
    obtain ⟨s', effects, hrun, hs', hdispatched⟩ := feed_frame hs hlen
    obtain ⟨s'', effects', hrun', hs'', hdispatched'⟩ := ih hs' hlater
    refine ⟨s'', effects ++ effects', ?_, hs'', ?_⟩
    · rw [flatMap_cons, transduce_append, transduce_append, feed_noise hs hnoise, hrun]
      dsimp only
      rw [hrun']
      rfl
    · rw [dispatched_append, hdispatched, hdispatched']
      rfl

end

/-! ## What is dispatched was sent -/

/-- The header of the frame the machine is in the middle of. -/
def BinRx.header (s : BinRx cfg) : List UInt8 :=
  [0xd3, cfg.ver, lenHi s.len, lenLo s.len]

/-- The bytes of the frame the machine is in the middle of. -/
def BinRx.pending (s : BinRx cfg) : List UInt8 :=
  match s.state with
  | .sync => []
  | .ver => [0xd3]
  | .lenH => [0xd3, cfg.ver]
  | .lenL => [0xd3, cfg.ver, lenHi s.len]
  | .payload => s.header ++ s.payload.take s.got.toNat
  | .crc => s.header ++ s.payload.take s.len.toNat

/-- What the variables satisfy in each state. -/
def BinRx.Consistent (s : BinRx cfg) : Prop :=
  match s.state with
  | .sync | .ver => True
  | .lenH => s.ver = cfg.ver
  | .lenL => s.ver = cfg.ver ∧ ∃ hi : UInt8, s.len = hi.toUInt16 <<< 8
  | .payload => s.ver = cfg.ver ∧ s.len.toNat ≤ cfg.maxPayload ∧ s.got < s.len
  | .crc => s.ver = cfg.ver ∧ s.len.toNat ≤ cfg.maxPayload

/-- What holds of the bytes so far, the variables and the effects. -/
structure Inv (stream : List UInt8) (s : BinRx cfg) (effects : List Effect) : Prop where
  consistent : s.Consistent
  pending : s.pending <:+ stream
  store : ∀ i, Effect.store i ∈ effects → i < cfg.maxPayload
  dispatch : ∀ payload ∈ dispatched effects, encodeFrame cfg payload <:+: stream

section

variable {stream : List UInt8} {s : BinRx cfg} {effects : List Effect}

section

variable (h : Inv stream s effects) (c : UInt8) {s' : BinRx cfg}
include h c

/-- What a byte leads to, if its effects are right. -/
theorem Inv.next {more : List Effect}
    (hconsistent : s'.Consistent) (hpending : s'.pending <:+ stream ++ [c])
    (hstore : ∀ i, Effect.store i ∈ more → i < cfg.maxPayload)
    (hdispatch : ∀ payload ∈ dispatched more, encodeFrame cfg payload <:+: stream ++ [c]) :
    Inv (stream ++ [c]) s' (effects ++ more) where
  consistent := hconsistent
  pending := hpending
  store i hmem := (mem_append.mp hmem).elim (h.store i) (hstore i)
  dispatch payload hmem := by
    rw [dispatched_append] at hmem
    rcases mem_append.mp hmem with hold | hnew
    · exact (h.dispatch payload hold).trans (prefix_append _ _).isInfix
    · exact hdispatch payload hnew

theorem Inv.quiet (hconsistent : s'.Consistent)
    (hpending : s'.pending <:+ stream ++ [c]) : Inv (stream ++ [c]) s' (effects ++ []) :=
  h.next c hconsistent hpending (fun _ hmem => (by cases hmem)) (fun _ hmem => (by cases hmem))

end

/-- Outside a frame nothing is pending. -/
theorem consistent_of_sync {s : BinRx cfg} (hs : s.state = .sync) (stream : List UInt8) :
    s.Consistent ∧ s.pending <:+ stream := by
  rw [BinRx.Consistent, BinRx.pending, hs]
  exact ⟨trivial, nil_suffix⟩

/-- The next byte behind the pending ones. -/
theorem suffix_concat {pending : List UInt8} (h : pending <:+ stream) (c : UInt8) :
    pending ++ [c] <:+ stream ++ [c] := by
  obtain ⟨before, rfl⟩ := h
  exact ⟨before, (append_assoc _ _ _).symm⟩

section

variable (h : Inv stream s effects)
include h

theorem Inv.feed_sync (hs : s.state = .sync) (c : UInt8) :
    Inv (stream ++ [c]) (binaryFeed s c).1 (effects ++ (binaryFeed s c).2) := by
  rw [binaryFeed, hs]
  dsimp only
  split
  · rename_i hc
    exact h.quiet c trivial (hc ▸ suffix_append _ _)
  · obtain ⟨hconsistent, hpending⟩ := consistent_of_sync hs (stream ++ [c])
    exact h.quiet c hconsistent hpending

theorem Inv.feed_ver (hs : s.state = .ver) (c : UInt8) :
    Inv (stream ++ [c]) (binaryFeed s c).1 (effects ++ (binaryFeed s c).2) := by
  have hpending := h.pending
  rw [BinRx.pending, hs] at hpending
  rw [binaryFeed, hs]
  dsimp only
  split
  · rename_i hc
    exact h.quiet c hc (hc ▸ suffix_concat hpending c)
  · split
    · -- a second sync byte starts the frame anew
      rename_i hc
      exact h.quiet c trivial (hc ▸ suffix_append _ _)
    · exact h.quiet c trivial nil_suffix

theorem Inv.feed_lenH (hs : s.state = .lenH) (c : UInt8) :
    Inv (stream ++ [c]) (binaryFeed s c).1 (effects ++ (binaryFeed s c).2) := by
  have hpending := h.pending
  have hver := h.consistent
  rw [BinRx.pending, hs] at hpending
  rw [BinRx.Consistent, hs] at hver
  rw [binaryFeed, hs]
  refine h.quiet c ⟨hver, c, rfl⟩ ?_
  rw [BinRx.pending]
  dsimp only
  rw [lenHi_shift]
  exact suffix_concat hpending c

theorem Inv.feed_lenL (hs : s.state = .lenL) (c : UInt8) :
    Inv (stream ++ [c]) (binaryFeed s c).1 (effects ++ (binaryFeed s c).2) := by
  have hpending := h.pending
  have hconsistent := h.consistent
  rw [BinRx.pending, hs] at hpending
  rw [BinRx.Consistent, hs] at hconsistent
  obtain ⟨hver, hi, hlen⟩ := hconsistent
  rw [binaryFeed, hs]
  dsimp only
  split
  · exact h.quiet c trivial nil_suffix
  · rename_i hshort
    rw [not_lt] at hshort
    have hheader : [0xd3, cfg.ver, lenHi (s.len ||| c.toUInt16), lenLo (s.len ||| c.toUInt16)] <:+
        stream ++ [c] := by
      rw [hlen, lenHi_shift] at hpending
      rw [hlen, lenHi_len, lenLo_len]
      exact suffix_concat hpending c
    split
    · rename_i hzero
      refine h.quiet c ⟨hver, hshort⟩ ?_
      rw [BinRx.pending, BinRx.header]
      dsimp only
      rw [hzero] at hheader ⊢
      exact hheader
    · rename_i hnonzero
      exact h.quiet c ⟨hver, hshort, UInt16.pos_iff_ne_zero.mpr hnonzero⟩ hheader

theorem Inv.feed_payload (hs : s.state = .payload) (c : UInt8) :
    Inv (stream ++ [c]) (binaryFeed s c).1 (effects ++ (binaryFeed s c).2) := by
  have hpending := h.pending
  have hconsistent := h.consistent
  rw [BinRx.pending, hs] at hpending
  rw [BinRx.Consistent, hs] at hconsistent
  obtain ⟨hver, hmax, hgot⟩ := hconsistent
  obtain ⟨s', hfeed, hstate, hver', hlen', hgot', hpayload'⟩ := binaryFeed_payload hs c
  have hlt := lt_iff_toNat_lt.mp hgot
  have hsucc := toNat_got_succ hgot
  have hnext : s'.header ++ s'.payload.take (s.got.toNat + 1) <:+ stream ++ [c] := by
    rw [hpayload', take_set_succ _ (by rw [s.length_payload]; omega), BinRx.header, hlen',
      ← append_assoc]
    exact suffix_concat hpending c
  have hstore : ∀ i, Effect.store i ∈ [Effect.store s.got.toNat] → i < cfg.maxPayload := by
    intro i hmem
    cases mem_singleton.mp hmem
    omega
  rw [hfeed]
  by_cases hend : s.len ≤ s.got + 1
  · -- that was the last byte
    have hle := le_iff_toNat_le.mp hend
    rw [if_pos hend] at hstate
    refine h.next c ?_ ?_ hstore (fun _ hmem => (by cases hmem))
    · rw [BinRx.Consistent, hstate, hver', hlen']
      exact ⟨hver, hmax⟩
    · rw [BinRx.pending, hstate, hlen', show s.len.toNat = s.got.toNat + 1 by omega]
      exact hnext
  · rw [if_neg hend] at hstate
    refine h.next c ?_ ?_ hstore (fun _ hmem => (by cases hmem))
    · rw [BinRx.Consistent, hstate, hver', hlen', hgot']
      exact ⟨hver, hmax, UInt16.not_le.mp hend⟩
    · rw [BinRx.pending, hstate, hgot', hsucc]
      exact hnext

theorem Inv.feed_crc (hs : s.state = .crc) (c : UInt8) :
    Inv (stream ++ [c]) (binaryFeed s c).1 (effects ++ (binaryFeed s c).2) := by
  have hpending := h.pending
  have hconsistent := h.consistent
  rw [BinRx.pending, hs] at hpending
  rw [BinRx.Consistent, hs] at hconsistent
  obtain ⟨hver, hmax⟩ := hconsistent
  obtain ⟨s', hsync, hfeed⟩ := binaryFeed_crc hs c
  obtain ⟨hconsistent', hpending'⟩ := consistent_of_sync hsync (stream ++ [c])
  rw [hfeed]
  split
  · rename_i hcrc
    refine h.next c hconsistent' hpending' (fun i hmem => ?_) (fun payload hmem => ?_)
    · cases mem_singleton.mp hmem
    · cases mem_singleton.mp hmem
      -- the pending bytes and this one are the frame
      have hlength : (s.payload.take s.len.toNat).length = s.len.toNat := by
        rw [length_take, s.length_payload]
        omega
      have hframe : encodeFrame cfg (s.payload.take s.len.toNat) =
          s.header ++ s.payload.take s.len.toNat ++ [c] := by
        rw [encodeFrame, hlength, ← lenHi_eq_ofNat, ← lenLo_eq_ofNat, ← hver, ← frameCrc_eq, hcrc,
          BinRx.header, hver]
        rfl
      rw [hframe]
      exact (suffix_concat hpending c).isInfix
  · refine h.next c hconsistent' hpending' (fun i hmem => ?_) (fun payload hmem => (by cases hmem))
    cases mem_singleton.mp hmem

/-- One byte keeps the invariant. -/
theorem Inv.feed (c : UInt8) :
    Inv (stream ++ [c]) (binaryFeed s c).1 (effects ++ (binaryFeed s c).2) := by
  cases hs : s.state with
  | sync => exact h.feed_sync hs c
  | ver => exact h.feed_ver hs c
  | lenH => exact h.feed_lenH hs c
  | lenL => exact h.feed_lenL hs c
  | payload => exact h.feed_payload hs c
  | crc => exact h.feed_crc hs c

end

end

/-- From the state outside a frame: frames with noise before, between and behind them are
dispatched each once and in order; and on any bytes whatever, the payload buffer is written
inside its bounds only, and what is dispatched stood on the line in a frame with a matching
CRC. -/
theorem binary_framing (s : BinRx cfg) (hs : s.state = .sync) :
    (∀ (frames : List (List UInt8 × List UInt8)) (behind : List UInt8),
      (∀ frame ∈ frames, 0xd3 ∉ frame.1 ∧ frame.2.length ≤ cfg.maxPayload) → 0xd3 ∉ behind →
      dispatched (transduce binaryFeed s
        ((frames.flatMap fun frame => frame.1 ++ encodeFrame cfg frame.2) ++ behind)).2 =
        frames.map Prod.snd) ∧
    ∀ stream : List UInt8,
      (∀ i, Effect.store i ∈ (transduce binaryFeed s stream).2 → i < cfg.maxPayload) ∧
      ∀ payload ∈ dispatched (transduce binaryFeed s stream).2,
        encodeFrame cfg payload <:+: stream := by
  constructor
  · intro frames behind hframes hbehind
    obtain ⟨s', effects, hrun, hs', hdispatched⟩ := feed_frames hs hframes
    rw [transduce_append, hrun, feed_noise hs' hbehind, dispatched_append, hdispatched]
    exact append_nil _
  · intro stream
    obtain ⟨hconsistent, hpending⟩ := consistent_of_sync hs []
    have hstart : Inv [] s [] :=
      ⟨hconsistent, hpending, (fun _ hmem => (by cases hmem)), fun _ hmem => (by cases hmem)⟩
    have hall := transduce_invariant Inv hstart (fun _ _ _ c h => h.feed c) stream
    exact ⟨hall.store, hall.dispatch⟩

/-- The default configuration, with the command "volume up" behind a stray byte. -/
def defaultConfig : Config := ⟨0x02, 32, by decide⟩

theorem binary_framing_volume_up :
    dispatched (transduce binaryFeed
      (⟨.sync, 0, 0, 0, List.replicate 32 0, rfl⟩ : BinRx defaultConfig)
      ([0x0d] ++ encodeFrame defaultConfig [0xd2, 0x05])).2 = [[0xd2, 0x05]] := by
  have hframes :=
    (binary_framing (⟨.sync, 0, 0, 0, List.replicate 32 0, rfl⟩ : BinRx defaultConfig) rfl).1
    [([0x0d], [0xd2, 0x05])] [] (by decide) (by decide)
  exact hframes

end SpeakerFirmware.RemoteCmd.UartBinary
