/-
# Delivery of host frames

A host frame fed to an idle receiver is handed to `py32_process_complete_frame`
exactly when its data does not contain the host address. The reverse direction
counts bytes: after a resynchronisation inside the data the receiver can only
complete a frame that fits in what is left, so never the one that was sent.
-/

import SpeakerFirmware.Py32.Receiver

namespace SpeakerFirmware.Py32

open List UInt8

/-- The frame a host following the protocol builds for a command and its data. -/
def hostFrame (cmd : UInt8) (data : List UInt8) : Frame where
  addr := py32AddrHost
  cmd := cmd
  len := UInt8.ofNat data.length
  data := data
  crc := py32Crc16 (py32AddrHost :: cmd :: UInt8.ofNat data.length :: data)

theorem hostFrame_calcCrc (cmd : UInt8) (data : List UInt8) :
    (hostFrame cmd data).calcCrc = (hostFrame cmd data).crc := by
  rw [Frame.calcCrc, hostFrame]

/-- A frame on the wire. -/
def Frame.bytes (frame : Frame) : List UInt8 :=
  frameBytes frame.addr frame.cmd frame.len frame.data frame.crc

/-! ## Reading a frame -/

/-- Storing a byte right behind a prefix extends the prefix. -/
theorem FrameBuf.take_write (buf : FrameBuf) (index : Nat) (byte : UInt8)
    (hindex : index < py32FrameMax) :
    (buf.write index byte).1.take (index + 1) = buf.1.take index ++ [byte] := by
  have hlength : index < buf.1.length := by rw [buf.2]; exact hindex
  rw [FrameBuf.write, take_add_one, take_set_of_le le_rfl]
  simp [hlength]

/-- The receiver collects data bytes that are not the host address, moves on to
the CRC when the announced length is reached, and completes no frame on the way. -/
theorem parserRun_data (p : Parser) (data : List UInt8) (hstate : p.state = .data)
    (hgot : p.frameGot < p.frameLen) (hlen : p.frameGot.toNat + data.length ≤ p.frameLen.toNat)
    (hmax : p.frameLen.toNat ≤ py32FrameMax - 5) (hfree : py32AddrHost ∉ data) :
    (∃ buf : FrameBuf,
      parserRun p data = { p with
        state := if p.frameGot.toNat + data.length = p.frameLen.toNat then .crcL else .data
        frameGot := ofNat (p.frameGot.toNat + data.length)
        frameData := buf } ∧
      buf.1.take (p.frameGot.toNat + data.length) =
        p.frameData.1.take p.frameGot.toNat ++ data) ∧
      completedRun p data = [] := by
  induction data generalizing p with
  | nil =>
    have hne : p.frameGot.toNat ≠ p.frameLen.toNat := (lt_iff_toNat_lt.mp hgot).ne
    refine ⟨⟨p.frameData, ?_, by simp⟩, rfl⟩
    simp [hne, ← hstate]
  | cons c rest ih =>
    simp only [length_cons] at hlen
    simp only [py32FrameMax] at hmax
    have hc : c ≠ py32AddrHost := fun h => hfree (h ▸ mem_cons_self)
    have hlt := lt_iff_toNat_lt.mp hgot
    have hsucc : (p.frameGot + 1).toNat = p.frameGot.toNat + 1 := by
      rw [UInt8.toNat_add]
      have : (1 : UInt8).toNat = 1 := rfl
      omega
    have hbuf := FrameBuf.take_write p.frameData p.frameGot.toNat c
      (by simp only [py32FrameMax]; omega)
    have hquiet : completed p c = [] := by simp [completed, hstate]
    rw [parserRun_cons, completedRun, hquiet, nil_append]
    by_cases hlast : p.frameLen ≤ p.frameGot + 1
    · have hend : p.frameLen.toNat = p.frameGot.toNat + 1 := by
        have := le_iff_toNat_le.mp hlast
        omega
      have hrest : rest = [] := length_eq_zero_iff.mp (by omega)
      subst hrest
      have hnext : nextParser p c = { p with
          frameData := p.frameData.write p.frameGot.toNat c, frameGot := p.frameGot + 1,
          state := .crcL } := by
        simp [nextParser, rxFeedParser, hstate, hc, hlast]
      have hvalue : p.frameGot + 1 = ofNat (p.frameGot.toNat + 1) := by
        apply UInt8.toNat_inj.mp
        rw [hsucc, UInt8.toNat_ofNat']
        omega
      refine ⟨⟨p.frameData.write p.frameGot.toNat c, ?_, by simpa using hbuf⟩, rfl⟩
      rw [parserRun_nil, hnext, hvalue]
      simp [hend]
    · have hmore : p.frameGot + 1 < p.frameLen := UInt8.not_le.mp hlast
      have hnext : nextParser p c = { p with
          frameData := p.frameData.write p.frameGot.toNat c, frameGot := p.frameGot + 1 } := by
        simp [nextParser, rxFeedParser, hstate, hc, hlast]
      obtain ⟨⟨buf, hrun, htake⟩, hnone⟩ := ih
        { p with frameGot := p.frameGot + 1, frameData := p.frameData.write p.frameGot.toNat c }
        hstate hmore (by simp only [hsucc]; omega) (by simpa [py32FrameMax] using hmax)
        (fun h => hfree (mem_cons_of_mem c h))
      have hsum : p.frameGot.toNat + 1 + rest.length = p.frameGot.toNat + (rest.length + 1) := by
        omega
      simp only [hsucc, hsum] at hrun htake
      rw [hnext, length_cons]
      refine ⟨⟨buf, hrun, ?_⟩, hnone⟩
      rw [htake, hbuf, append_assoc]
      rfl

/-- Reassembling a little-endian CRC gives the CRC back. -/
theorem crc_reassemble (crc : UInt16) :
    crc.toUInt8.toUInt16 ||| ((crc >>> 8).toUInt8.toUInt16 <<< 8) = crc := by
  apply UInt16.toNat_inj.mp
  have hbound : crc.toNat < 2 ^ 16 := crc.toNat_lt
  have hlow : crc.toNat % 256 < 2 ^ 8 := Nat.mod_lt _ (by decide)
  have hparts := Nat.two_pow_add_eq_or_of_lt hlow (crc.toNat / 256)
  have hhigh : crc.toNat / 256 % 256 * 256 % 65536 = 2 ^ 8 * (crc.toNat / 256) := by omega
  simp only [UInt16.toNat_or, toNat_toUInt16, UInt16.toNat_toUInt8, UInt16.toNat_shiftLeft,
    UInt16.toNat_shiftRight, Nat.shiftRight_eq_div_pow, Nat.shiftLeft_eq]
  rw [Nat.or_comm]
  change crc.toNat / 256 % 256 * 256 % 65536 ||| crc.toNat % 256 = crc.toNat
  rw [hhigh, ← hparts]
  omega

/-- The two CRC bytes complete the frame that the registers hold. -/
theorem parserRun_crc (p : Parser) (low high : UInt8) (hstate : p.state = .crcL) :
    (parserRun p [low, high]).state = .addr ∧
      completedRun p [low, high] =
        [⟨p.frameAddr, p.frameCmd, p.frameLen, p.frameData.1.take p.frameLen.toNat,
          low.toUInt16 ||| (high.toUInt16 <<< 8)⟩] := by
  simp [parserRun, completedRun, nextParser, completed, rxFeedParser, hstate, py32ParseReset,
    Parser.frame]

theorem toNat_ofNat_length {data : List UInt8} (hlen : data.length ≤ py32FrameMax - 5) :
    (ofNat data.length).toNat = data.length := by
  simp only [py32FrameMax] at hlen
  rw [toNat_ofNat']
  omega

theorem zero_lt_ofNat_length {data : List UInt8} (hne : data ≠ [])
    (hlen : data.length ≤ py32FrameMax - 5) : 0 < ofNat data.length := by
  rw [lt_iff_toNat_lt, toNat_ofNat_length hlen]
  exact length_pos_iff.mpr hne

section

variable (p : Parser) (cmd : UInt8) (data : List UInt8) (hidle : p.state = .addr)
  (hlen : data.length ≤ py32FrameMax - 5)
include p cmd data hidle hlen

/-- The registers after the three header bytes of a host frame. -/
theorem parserRun_header : parserRun p [py32AddrHost, cmd, ofNat data.length] = { p with
          state := if data = [] then .crcL else .data
          frameAddr := py32AddrHost, frameCmd := cmd
          frameLen := ofNat data.length, frameGot := 0 } ∧
      completedRun p [py32AddrHost, cmd, ofNat data.length] = [] := by
  have hsize := toNat_ofNat_length hlen
  simp only [py32FrameMax] at hlen
  have hzero : UInt8.ofNat data.length = 0 ↔ data = [] := by
    rw [← UInt8.toNat_inj, hsize]
    exact length_eq_zero_iff
  have hfits : ¬ data.length > 123 := by omega
  by_cases hdata : data = []
  · simp [parserRun, completedRun, nextParser, completed, rxFeedParser, rxFeedAddr, hidle, hdata]
  · simp [parserRun, completedRun, nextParser, completed, rxFeedParser, rxFeedAddr, hidle, hdata,
      hzero, hsize, hfits, py32FrameMax]

/-- A host frame without the host address in its data is read completely. -/
theorem parserRun_hostFrame (hfree : py32AddrHost ∉ data) :
    (parserRun p (hostFrame cmd data).bytes).state = .addr ∧
      completedRun p (hostFrame cmd data).bytes = [hostFrame cmd data] := by
  have hsize := toNat_ofNat_length hlen
  obtain ⟨hhead, hquiet⟩ := parserRun_header p cmd data hidle hlen
  unfold hostFrame Frame.bytes frameBytes
  generalize py32Crc16 _ = crc
  have hsplit : py32AddrHost :: cmd :: ofNat data.length ::
      (data ++ [crc.toUInt8, (crc >>> 8).toUInt8]) =
      [py32AddrHost, cmd, ofNat data.length] ++
        (data ++ [crc.toUInt8, (crc >>> 8).toUInt8]) := rfl
  rw [hsplit, parserRun_append, completedRun_append, hquiet, hhead, nil_append]
  by_cases hdata : data = []
  · subst hdata
    obtain ⟨hdone, hframe⟩ := parserRun_crc
      { p with state := .crcL, frameAddr := py32AddrHost, frameCmd := cmd,
               frameLen := ofNat 0, frameGot := 0 }
      crc.toUInt8 (crc >>> 8).toUInt8 rfl
    rw [crc_reassemble] at hframe
    exact ⟨hdone, hframe⟩
  · rw [if_neg hdata]
    obtain ⟨⟨buf, hrun, htake⟩, hnone⟩ := parserRun_data
      { p with state := .data, frameAddr := py32AddrHost, frameCmd := cmd,
               frameLen := ofNat data.length, frameGot := 0 }
      data rfl (zero_lt_ofNat_length hdata hlen) (by simp [hsize]) (by rw [hsize]; exact hlen) hfree
    obtain ⟨hdone, hframe⟩ := parserRun_crc
      { p with state := .crcL, frameAddr := py32AddrHost, frameCmd := cmd,
               frameLen := ofNat data.length, frameGot := ofNat data.length,
               frameData := buf }
      crc.toUInt8 (crc >>> 8).toUInt8 rfl
    have hbuf : buf.1.take data.length = data := by simpa using htake
    simp only [UInt8.toNat_zero, Nat.zero_add, hsize, if_true] at hrun
    rw [parserRun_append, completedRun_append, hnone, hrun, nil_append]
    rw [crc_reassemble, hsize, hbuf] at hframe
    exact ⟨hdone, hframe⟩

end

/-! ## A frame cut by a resynchronisation -/

/-- A lower bound on the bytes the registers still need to complete a frame whose
length field is `len`. -/
def bytesToGo (p : Parser) (len : UInt8) : Nat :=
  match p.state with
  | .addr => len.toNat + 5
  | .cmd => len.toNat + 4
  | .len => len.toNat + 3
  | .data => if p.frameLen = len then len.toNat - p.frameGot.toNat + 2 else len.toNat + 5
  | .crcL => if p.frameLen = len then 2 else len.toNat + 5
  | .crcH => if p.frameLen = len then 1 else len.toNat + 5

/-- One byte brings a frame at most one byte closer. -/
theorem bytesToGo_le_succ (p : Parser) (c len : UInt8) :
    bytesToGo p len ≤ bytesToGo (nextParser p c) len + 1 := by
  have hstep := rxStep_nextParser p c
  generalize nextParser p c = q at hstep
  have hgot : (p.frameGot + 1).toNat ≤ p.frameGot.toNat + 1 := by
    rw [UInt8.toNat_add]
    exact Nat.mod_le _ _
  cases hstep with
  | idle hstate => exact Nat.le_succ _
  | start hstate => simp [bytesToGo, hstate]
  | cmd hstate => simp [bytesToGo, hstate]
  | empty hstate hc =>
    by_cases hlen : (0 : UInt8) = len
    · simp [bytesToGo, hstate, hc, ← hlen]
    · simp [bytesToGo, hstate, hc, hlen]
  | reject hstate => simp [bytesToGo, hstate, py32ParseReset]
  | accept hstate =>
    by_cases hlen : c = len <;> simp [bytesToGo, hstate, hlen]
  | resync hstate =>
    by_cases hlen : p.frameLen = len
    · simp only [bytesToGo, hstate, hlen, if_true]
      omega
    · simp [bytesToGo, hstate, hlen]
  | store hstate =>
    by_cases hlen : p.frameLen = len
    · simp only [bytesToGo, hstate, hlen, if_true]
      omega
    · simp [bytesToGo, hstate, hlen]
  | last hstate _ hlast =>
    by_cases hlen : p.frameLen = len
    · have hle := le_iff_toNat_le.mp hlast
      rw [hlen] at hle
      simp only [bytesToGo, hstate, hlen, if_true]
      omega
    · simp [bytesToGo, hstate, hlen]
  | crcL hstate => by_cases hlen : p.frameLen = len <;> simp [bytesToGo, hstate, hlen]
  | crcH hstate => by_cases hlen : p.frameLen = len <;>
      simp [bytesToGo, hstate, hlen, py32ParseReset]

/-- A frame is completed only by enough bytes. -/
theorem bytesToGo_le_of_mem_completedRun (p : Parser) (bytes : List UInt8) (frame : Frame)
    (hmem : frame ∈ completedRun p bytes) : bytesToGo p frame.len ≤ bytes.length := by
  induction bytes generalizing p with
  | nil => simp [completedRun] at hmem
  | cons c rest ih =>
    rw [completedRun, mem_append] at hmem
    rw [length_cons]
    rcases hmem with hnow | hlater
    · unfold completed at hnow
      split at hnow
      · rename_i hstate
        have hframe : frame = (rxFeedParser p c).frame := by simpa using hnow
        have hlen : p.frameLen = frame.len := by
          simp [hframe, Parser.frame, rxFeedParser, hstate]
        simp [bytesToGo, hstate, hlen]
      · simp at hnow
    · exact (bytesToGo_le_succ p c frame.len).trans (Nat.succ_le_succ (ih _ hlater))

/-- A host frame with the host address among its data bytes is not delivered. -/
theorem hostFrame_not_mem_completedRun (p : Parser) (cmd : UInt8) (data : List UInt8)
    (hidle : p.state = .addr) (hlen : data.length ≤ py32FrameMax - 5)
    (hmem : py32AddrHost ∈ data) :
    hostFrame cmd data ∉ completedRun p (hostFrame cmd data).bytes := by
  have hsize := toNat_ofNat_length hlen
  obtain ⟨before, after, hdata, hbefore⟩ := eq_append_cons_of_mem hmem
  have hne : data ≠ [] := ne_nil_of_mem hmem
  have hcount : data.length = before.length + 1 + after.length := by
    rw [hdata, length_append, length_cons]
    omega
  obtain ⟨hhead, hquiet⟩ := parserRun_header p cmd data hidle hlen
  obtain ⟨⟨buf, hrun, -⟩, hnone⟩ := parserRun_data
    { p with state := .data, frameAddr := py32AddrHost, frameCmd := cmd,
             frameLen := ofNat data.length, frameGot := 0 }
    before rfl (zero_lt_ofNat_length hne hlen) (by simp [hsize]; omega)
    (by rw [hsize]; exact hlen) hbefore
  intro hframe
  generalize hhost : hostFrame cmd data = frame at hframe
  have hbytes : frame.bytes = [py32AddrHost, cmd, ofNat data.length] ++
      (before ++ (py32AddrHost :: (after ++ [frame.crc.toUInt8, (frame.crc >>> 8).toUInt8]))) := by
    subst hhost
    simp [Frame.bytes, frameBytes, hostFrame, hdata]
  rw [hbytes, completedRun_append, hquiet, hhead, if_neg hne, nil_append,
    completedRun_append, hnone, nil_append, completedRun] at hframe
  have hshort : before.length ≠ data.length := by omega
  simp only [UInt8.toNat_zero, Nat.zero_add, hsize, hshort, if_false] at hrun
  rw [hrun] at hframe
  have hgot : UInt8.ofNat before.length < UInt8.ofNat data.length := by
    rw [lt_iff_toNat_lt, hsize, toNat_ofNat_length (by omega)]
    omega
  rcases mem_append.mp hframe with hnow | hlater
  · simp [completed] at hnow
  · have hgo := bytesToGo_le_of_mem_completedRun _ _ _ hlater
    simp only [nextParser, rxFeedParser, hgot, rxFeedAddr, bytesToGo, length_append,
      length_cons, length_nil, reduceCtorEq, if_false, and_self, if_true, ne_eq,
      not_true_eq_false] at hgo
    have hframeLen : frame.len.toNat = data.length := by
      rw [← hhost]
      exact hsize
    omega

/-! ## The delivery of a frame -/

/-- A frame sent to an idle receiver enters `py32_process_complete_frame` once and
as it was sent, with a CRC that checks, and leaves the receiver idle. -/
def Delivered (s : Sys) (inputs : List (Env × Input)) (frame : Frame) : Prop :=
  completes (run s inputs).trace = completes s.trace ++ [frame] ∧
    frame.calcCrc = frame.crc ∧ (run s inputs).parser.state = .addr

/-- Whether a host frame is delivered depends on its data alone: the receiver
drops exactly the frames that carry the value of the host address. -/
theorem hostFrame_delivered_iff (s : Sys) (inputs : List (Env × Input)) (cmd : UInt8)
    (data : List UInt8) (hidle : s.parser.state = .addr) (hlen : data.length ≤ py32FrameMax - 5)
    (hbytes : bytesOf inputs = (hostFrame cmd data).bytes) :
    Delivered s inputs (hostFrame cmd data) ↔ py32AddrHost ∉ data := by
  obtain ⟨hparser, hcompletes⟩ := run_receiver s inputs
  rw [hbytes] at hparser hcompletes
  constructor
  · rintro ⟨hframe, -, -⟩ hmem
    rw [hcompletes, append_cancel_left_eq] at hframe
    apply hostFrame_not_mem_completedRun s.parser cmd data hidle hlen hmem
    rw [hframe]
    exact mem_singleton_self _
  · intro hfree
    obtain ⟨hdone, hframe⟩ := parserRun_hostFrame s.parser cmd data hidle hlen hfree
    refine ⟨?_, hostFrame_calcCrc cmd data, ?_⟩
    · rw [hcompletes, hframe]
    · rw [hparser, hdone]

/-- The bytes of one stretch of the stream, met in one environment. -/
def feed (env : Env) (bytes : List UInt8) : List (Env × Input) :=
  bytes.map fun c => (env, .byte c)

@[simp]
theorem bytesOf_feed (env : Env) (bytes : List UInt8) : bytesOf (feed env bytes) = bytes := by
  simp [bytesOf, feed, Input.byte?]

/-- The parameters of the protocol document's example are delivered. -/
theorem hostFrame_delivered_example :
    (hostFrame py32CmdCommon [80, 12, 12, 50]).bytes =
        [0x01, 0x10, 0x04, 0x50, 0x0C, 0x0C, 0x32, 0xAD, 0x46] ∧
      Delivered (initSys 8) (feed ⟨16, true, true⟩ (hostFrame py32CmdCommon [80, 12, 12, 50]).bytes)
        (hostFrame py32CmdCommon [80, 12, 12, 50]) :=
  ⟨by decide +kernel,
    (hostFrame_delivered_iff _ _ _ _ rfl (by decide) (bytesOf_feed _ _)).mpr (by decide)⟩

/-- Volume 1 is in the documented range, but a frame that sets it is lost. -/
theorem hostFrame_volume_one_lost :
    ¬ Delivered (initSys 8) (feed ⟨16, true, true⟩ (hostFrame py32CmdCommon [1, 12, 12, 50]).bytes)
      (hostFrame py32CmdCommon [1, 12, 12, 50]) := by
  unfold Delivered
  decide +kernel

end SpeakerFirmware.Py32
