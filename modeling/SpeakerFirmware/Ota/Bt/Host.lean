/-
# A host that answers

A host answers a request with the bytes of the image, in packets of the unit size that
are numbered from 0. On the way a packet may get lost, so that the next one has a
number that does not follow, or may be spoiled, so that its CRC does not match. In
between the host may go through the handshake again.

`Item` is what such a host puts on the stream, `Item.bytes` how it looks there. The
results say what `process_command` does with an item at the head of the stream.
-/

import SpeakerFirmware.Ota.Bt.Stream

namespace SpeakerFirmware.Ota.Bt

open List UInt16

variable {n : Nat} {d d' : Device} {rest payload : List UInt8} {env : Env} {c psn : UInt8}
variable {crc : Option UInt32}

/-! ## What the host sends -/

/-- `count` bytes of the image from `offset` on. -/
def imageBytes (image : Int → UInt8) (offset : Int) (count : Nat) : List UInt8 :=
  (List.range count).map fun i : Nat => image (offset + i)

/-- The request an answer belongs to, with the image and the unit size. A packet of a unit
fits the 16-bit length of a parameter, and no request asks for a negative length. -/
structure Ask where
  image : Int → UInt8
  offset : Int
  len : Int
  unit : Nat
  len_nonneg : 0 ≤ len
  unit_pos : 0 < unit
  unit_le : unit ≤ 65530

variable {ask : Ask}

/-- Bytes delivered by the first `n` packets: units, and a shorter one at the end. -/
def Ask.delivered (ask : Ask) (n : Nat) : Nat :=
  min (n * ask.unit) ask.len.toNat

/-- The payload of packet `i`. -/
def Ask.chunk (ask : Ask) (i : Nat) : List UInt8 :=
  imageBytes ask.image (ask.offset + ask.delivered i) (ask.delivered (i + 1) - ask.delivered i)

/-- A parameter of an upgrade request. -/
inductive Param
  | features (value : UInt8)
  | other (type : UInt8) (value : List UInt8)
  deriving DecidableEq, Repr

/-- What a host puts on the stream. -/
inductive Item
  | packet (index : Nat) (withCrc : Bool)
  | spoiled (index : Nat) (psn : UInt8) (crc : UInt32) (payload : List UInt8)
  | requestUpgrade (params : List Param)
  | connectNegotiation
  | negotiationResult (value : UInt8)
  deriving DecidableEq, Repr

def u16Bytes (n : Nat) : List UInt8 :=
  [UInt8.ofNat n, UInt8.ofNat (n / 256)]

def u32Bytes (x : UInt32) : List UInt8 :=
  [x.toUInt8, (x >>> 8).toUInt8, (x >>> 16).toUInt8, (x >>> 24).toUInt8]

def Param.bytes : Param → List UInt8
  | .features value => [tlvTypeOtaSupportFeatures] ++ u16Bytes 1 ++ [value]
  | .other type value => [type] ++ u16Bytes value.length ++ value

/-- A command with its head. -/
def commandBytes (cmd : UInt8) (param : List UInt8) : List UInt8 :=
  [serviceIdOta, cmd, tlvTypeMain] ++ u16Bytes param.length ++ param

/-- The parameter of a data packet. -/
def packetParam (psn : UInt8) (crc : Option UInt32) (payload : List UInt8) : List UInt8 :=
  [psn] ++ (crc.map u32Bytes).getD [] ++ payload

def Item.bytes (ask : Ask) : Item → List UInt8
  | .packet index withCrc => commandBytes (dataCmd withCrc) (packetParam (UInt8.ofNat index)
      (if withCrc then some (utilsCrc32 0 (ask.chunk index)) else none) (ask.chunk index))
  | .spoiled _ psn crc payload =>
    commandBytes (dataCmd true) (packetParam psn (some crc) payload)
  | .requestUpgrade params =>
    commandBytes otaCmdH2dRequestUpgradeId (params.flatMap Param.bytes)
  | .connectNegotiation => commandBytes otaCmdH2dConnectNegotiationId []
  | .negotiationResult value =>
    commandBytes otaCmdH2dNegotiationResultId ([0x1] ++ u16Bytes 1 ++ [value])

def itemsBytes (ask : Ask) (items : List Item) : List UInt8 :=
  items.flatMap (Item.bytes ask)

/-- A parameter with a type that is not the features', of a length that fits. -/
def Param.Valid : Param → Prop
  | .features _ => True
  | .other type value => type ≠ tlvTypeOtaSupportFeatures ∧ value.length < 2 ^ 16

/-- A command of the handshake. -/
def Item.IsCommand : Item → Prop
  | .packet _ _ | .spoiled _ _ _ _ => False
  | .requestUpgrade params =>
    (∀ param ∈ params, param.Valid) ∧ (params.flatMap Param.bytes).length < 2 ^ 16
  | .connectNegotiation | .negotiationResult _ => True

/-- The items of an answer from packet `n` on. The packets come in order; packets left out
were lost, fewer than 256 in a row, and what is spoiled fails its CRC. -/
inductive Follows (ask : Ask) : Nat → List Item → Prop
  | nil (n : Nat) : Follows ask n []
  | packet {n index : Nat} {items : List Item} (withCrc : Bool) (lost : n ≤ index)
      (near : index - n < 256) (due : ask.delivered index < ask.len.toNat)
      (rest : Follows ask (index + 1) items) : Follows ask n (.packet index withCrc :: items)
  | spoiled {n index : Nat} {items : List Item} {psn : UInt8} {crc : UInt32}
      {payload : List UInt8} (lost : n ≤ index) (fits : payload.length ≤ 65530)
      (bad : crc ≠ utilsCrc32 0 payload) (rest : Follows ask (index + 1) items) :
      Follows ask n (.spoiled index psn crc payload :: items)
  | command {n : Nat} {item : Item} {items : List Item} (isCommand : item.IsCommand)
      (rest : Follows ask n items) : Follows ask n (item :: items)

/-! ## Numbers on the wire -/

theorem toNat_le16 (low high : UInt8) (rest : List UInt8) :
    (le16 (low :: high :: rest)).toNat = low.toNat + 256 * high.toNat := by
  have hlow := low.toNat_lt
  have hhigh := high.toNat_lt
  change (low.toUInt16 ||| (high.toUInt16 <<< 8)).toNat = _
  rw [UInt16.toNat_or, UInt16.toNat_shiftLeft, UInt8.toNat_toUInt16, UInt8.toNat_toUInt16]
  have hshift : high.toNat <<< ((8 : UInt16).toNat % 16) % 2 ^ 16 = 2 ^ 8 * high.toNat := by
    rw [show (8 : UInt16).toNat % 16 = 8 from rfl, Nat.shiftLeft_eq]
    omega
  rw [hshift, Nat.or_comm, ← Nat.two_pow_add_eq_or_of_lt (by omega)]
  omega

theorem le16_u16Bytes (h : n < 2 ^ 16) (rest : List UInt8) :
    le16 (u16Bytes n ++ rest) = UInt16.ofNat n := by
  apply UInt16.toNat_inj.mp
  have hbytes : u16Bytes n ++ rest = UInt8.ofNat n :: UInt8.ofNat (n / 256) :: rest := rfl
  rw [hbytes, toNat_le16, UInt8.toNat_ofNat', UInt8.toNat_ofNat', UInt16.toNat_ofNat']
  omega

theorem le32_u32Bytes (x : UInt32) : le32 (u32Bytes x) = x := by
  have hlow : (le16 (u32Bytes x)).toNat = x.toNat % 2 ^ 16 := by
    rw [u32Bytes, toNat_le16, UInt32.toNat_toUInt8, UInt32.toNat_toUInt8, UInt32.toNat_shiftRight]
    simp only [UInt32.reduceToNat, Nat.reduceMod, Nat.shiftRight_eq_div_pow]
    omega
  have hhigh : (le16 ((u32Bytes x).drop 2)).toNat = x.toNat / 2 ^ 16 := by
    have hlt := x.toNat_lt
    change (le16 [(x >>> 16).toUInt8, (x >>> 24).toUInt8]).toNat = _
    rw [toNat_le16, UInt32.toNat_toUInt8, UInt32.toNat_toUInt8, UInt32.toNat_shiftRight,
      UInt32.toNat_shiftRight]
    simp only [UInt32.reduceToNat, Nat.reduceMod, Nat.shiftRight_eq_div_pow]
    omega
  have hlt := x.toNat_lt
  apply UInt32.toNat_inj.mp
  rw [le32, UInt32.toNat_or, UInt32.toNat_shiftLeft, toNat_toUInt32, toNat_toUInt32,
    hlow, hhigh]
  have hshift : (x.toNat / 2 ^ 16) <<< ((16 : UInt32).toNat % 32) % 2 ^ 32 =
      2 ^ 16 * (x.toNat / 2 ^ 16) := by
    rw [show (16 : UInt32).toNat % 32 = 16 from rfl, Nat.shiftLeft_eq]
    omega
  rw [hshift, Nat.or_comm, ← Nat.two_pow_add_eq_or_of_lt (by omega)]
  omega

/-- Reading exactly the bytes at the head of the stream. -/
theorem getRxData_append {bytes : List UInt8} (h : d.rx = bytes ++ rest) :
    svcProtGetRxData d bytes.length = ({ d with rx := rest }, some bytes) := by
  unfold svcProtGetRxData
  rw [h, drop_left, take_left, if_pos (by rw [length_append]; omega)]

/-! ## Commands of the handshake -/

/-- A valid parameter is read as it was written. -/
theorem Param.Valid.bytes_eq {param : Param} (h : param.Valid) :
    ∃ type value, param.bytes = [type] ++ u16Bytes value.length ++ value ∧ value.length < 2 ^ 16 ∧
      valueLen type (ofNat value.length) = value.length := by
  cases param with
  | features value => exact ⟨_, [value], rfl, Nat.one_lt_two_pow (by decide), rfl⟩
  | other type value =>
    refine ⟨type, value, rfl, h.2, ?_⟩
    rw [valueLen, if_neg h.1, toNat_ofNat']
    exact Nat.mod_eq_of_lt h.2

/-- What is left of the parameters once one has been read. -/
theorem paramSize_sub (len rest : Nat) :
    ofNat (3 + len + rest) - (3 + ofNat len) = ofNat rest := by
  apply UInt16.toNat_inj.mp
  rw [UInt16.toNat_sub, UInt16.toNat_add, UInt16.toNat_ofNat', UInt16.toNat_ofNat',
    UInt16.toNat_ofNat']
  simp only [reduceToNat]
  omega

/-- The parameters of a host are a list as the parameter loop reads it. -/
theorem paramList_params {params : List Param} (hvalid : ∀ param ∈ params, param.Valid)
    (hlen : (params.flatMap Param.bytes).length < 2 ^ 16) :
    ParamList (ofNat (params.flatMap Param.bytes).length) (params.flatMap Param.bytes) := by
  induction params with
  | nil => exact .done
  | cons param params ih =>
    obtain ⟨type, value, hbytes, hvalue, hread⟩ := (hvalid param mem_cons_self).bytes_eq
    have hsize : param.bytes.length = 3 + value.length := by
      rw [hbytes, length_append]
      rfl
    rw [flatMap_cons, length_append, hsize] at hlen ⊢
    have hle : le16 [UInt8.ofNat value.length, UInt8.ofNat (value.length / 256)] =
        ofNat value.length :=
      le16_u16Bytes hvalue []
    have hrest := ih (fun p hp => hvalid p (mem_cons_of_mem _ hp)) (by omega)
    rw [← paramSize_sub value.length, ← hle] at hrest
    rw [hbytes, append_assoc]
    refine @ParamList.param _ type _ _ value _ (fun hzero => ?_) (by rw [hle, hread]) hrest
    have hnat := congrArg toNat hzero
    rw [toNat_ofNat'] at hnat
    simp only [reduceToNat] at hnat
    omega

/-- A command that succeeds went through its handler, which found the parameter at the
head of the stream. -/
theorem processCommand_ok {cmd : UInt8} {param : List UInt8}
    (hlen : param.length < 2 ^ 16) (hrx : d.rx = commandBytes cmd param ++ rest)
    (h : processCommand env d = (d', .ok c)) :
    c = cmd ∧ ∃ handler d₂, svcCmdHandler env cmd = some handler ∧
      handler { d with rx := param ++ rest, ctx := { d.ctx with state := .data } }
        (ofNat param.length) = (d₂, none) ∧
      d' = { d₂ with ctx := { d₂.ctx with state := .idle } } := by
  have htake : d.rx.take 5 = [serviceIdOta, cmd, tlvTypeMain] ++ u16Bytes param.length := by
    rw [hrx]
    rfl
  have hdrop : d.rx.drop 5 = param ++ rest := by
    rw [hrx]
    rfl
  have hsize : headParamLen d.rx = ofNat param.length := by
    rw [headParamLen, htake]
    exact le16_u16Bytes hlen []
  obtain ⟨-, -, hhead, handler, d₂, hhandler, hdone, rfl⟩ := processCommand_ok_iff.mp h
  have hcmd : c = cmd := by
    rw [← hhead.cmd, headCmd, htake]
    rfl
  rw [hdrop, hsize] at hdone
  exact ⟨hcmd, handler, d₂, hcmd ▸ hhandler, hdone, rfl⟩

/-- A command of the handshake that succeeds is read to its end and changes nothing of
the request. -/
theorem Item.IsCommand.processed {item : Item} (hitem : item.IsCommand)
    (hrx : d.rx = item.bytes ask ++ rest) (h : processCommand env d = (d', .ok c)) :
    d'.rx = rest ∧ Kept d d' ∧ d'.ctx.state = .idle := by
  cases item with
  | packet index withCrc => exact hitem.elim
  | spoiled index psn crc payload => exact hitem.elim
  | requestUpgrade params =>
    obtain ⟨-, handler, d₂, hhandler, hdone, rfl⟩ := processCommand_ok hitem.2 hrx h
    cases hhandler
    have hkept := kept_requestUpgrade env
      { d with rx := params.flatMap Param.bytes ++ rest, ctx := { d.ctx with state := .data } }
      (ofNat (params.flatMap Param.bytes).length)
    rw [hdone] at hkept
    have hrest : d₂.rx = rest := by
      obtain ⟨⟨read, hread, hsplit⟩, -⟩ := requestUpgrade_reads hdone
      have hsame := (paramList_params hitem.1 hitem.2).unique hread hsplit
      rw [← hsame] at hsplit
      exact (append_cancel_left hsplit).symm
    exact ⟨hrest, ⟨hkept.reading, hkept.mem, hkept.written, hkept.negotiation⟩, rfl⟩
  | connectNegotiation =>
    obtain ⟨-, handler, d₂, hhandler, hdone, rfl⟩ :=
      processCommand_ok (by decide) hrx h
    cases hhandler
    have hkept := kept_connectNegotiation env
      { d with rx := [] ++ rest, ctx := { d.ctx with state := .data } }
      (ofNat ([] : List UInt8).length)
    have hsend := sendCmd_rx env { d with rx := rest, ctx := { d.ctx with state := .idle } }
      (.connectNegotiation d.ctx.otaUnitSize)
    rw [hdone] at hkept
    have hrest : d₂.rx = rest := (congrArg (fun r => r.1.rx) hdone).symm.trans hsend
    exact ⟨hrest, ⟨hkept.reading, hkept.mem, hkept.written, hkept.negotiation⟩, rfl⟩
  | negotiationResult value =>
    have hlen : ([0x1] ++ u16Bytes 1 ++ [value]).length < 2 ^ 16 := by simp [u16Bytes]
    obtain ⟨-, handler, d₂, hhandler, hdone, rfl⟩ := processCommand_ok hlen hrx h
    cases hhandler
    obtain ⟨hkept, -⟩ := kept_negotiationResult { d with
      rx := [0x1] ++ u16Bytes 1 ++ [value] ++ rest, ctx := { d.ctx with state := .data } }
      (ofNat ([0x1] ++ u16Bytes 1 ++ [value]).length)
    rw [hdone] at hkept
    obtain ⟨bytes, hsplit, hbytes⟩ := (reads_negotiationResult hdone).took
    have hone : le16 (u16Bytes 1 ++ ([value] ++ rest)) ≠ 0 := by
      rw [le16_u16Bytes (by decide)]
      decide
    have hlen : bytes.length = 4 := hbytes.trans (congrArg (3 + ·) (if_neg hone))
    have hrest : rest = d₂.rx := append_inj_right hsplit hlen.symm
    exact ⟨hrest.symm, ⟨hkept.reading, hkept.mem, hkept.written, hkept.negotiation⟩, rfl⟩

/-! ## Data packets -/

theorem Memory.read_write (mem : Memory) (addr : Int) (bytes : List UInt8) :
    (mem.write addr bytes).read addr bytes.length = bytes := by
  apply ext_getElem
  · rw [Memory.read, length_map, length_range]
  · intro i hi hbytes
    have hinside : addr ≤ addr + (i : Int) ∧ addr + (i : Int) < addr + bytes.length := by omega
    simp only [Memory.read, getElem_map, getElem_range, Memory.write]
    rw [if_pos hinside, show (addr + (i : Int) - addr).toNat = i by omega,
      getD_eq_getElem?_getD, getElem?_eq_getElem hbytes, Option.getD_some]

/-- A payload that is accepted is within the request, agrees with its CRC, and is in
memory behind what the buffer held. -/
theorem sendImagePayload_ok {readBuf : Int} (hfits : payload.length ≤ 65530)
    (hremaining : 0 ≤ d.ctx.readLen - d.ctx.readDoneLen) (hrx : d.rx = payload ++ rest)
    (h : sendImagePayload d readBuf (ofNat payload.length) psn crc = (d', none)) :
    (∀ c, crc = some c → c = utilsCrc32 0 payload) ∧ d'.rx = rest ∧
      d'.mem = d.mem.write (readBuf + d.ctx.readBufLen) payload ∧ d'.ctx.state = .idle ∧
      d'.ctx.reading = { d.ctx.reading with
        readDoneLen := d.ctx.readDoneLen + payload.length
        readBufLen := d.ctx.readBufLen + payload.length
        lastPsn := psn } := by
  have hnat : (ofNat payload.length).toNat = payload.length := by
    rw [toNat_ofNat']
    omega
  unfold sendImagePayload at h
  dsimp only at h
  split at h
  · cases h
  · rename_i d₁ hget
    split at h
    · cases h
    · rename_i hcrc
      split at h
      · cases h
      · rename_i hrest
        -- a payload longer than the rest of the request leaves a remainder
        have hseg : segLen (d.ctx.readLen - d.ctx.readDoneLen) (ofNat payload.length) =
            payload.length := by
          rw [segLen, hnat] at hrest ⊢
          split at hrest <;> split <;> omega
        cases congrArg Prod.fst hget
        cases h
        rw [hseg] at hcrc ⊢
        have htake : d.rx.take (payload.length : Int).toNat = payload := by
          rw [hrx, Int.toNat_natCast, take_left]
        have hdrop : d.rx.drop (payload.length : Int).toNat = rest := by
          rw [hrx, Int.toNat_natCast, drop_left]
        have hmod : ((payload.length : Int) % 2 ^ 32).toNat = payload.length := by omega
        dsimp only at hcrc ⊢
        refine ⟨fun c hc => ?_, hdrop, by rw [htake], rfl, rfl⟩
        rw [htake, hmod, Memory.read_write, hc] at hcrc
        simpa using hcrc

theorem length_packetParam (psn : UInt8) (crc : Option UInt32) (payload : List UInt8) :
    (packetParam psn crc payload).length = 1 + (if crc.isSome then 4 else 0) + payload.length := by
  rw [packetParam, length_append, length_append]
  cases crc with
  | none => rfl
  | some c => rfl

/-- The 16-bit length of a payload is what the subtractions on `param_len` leave. -/
theorem ofNat_sub_header (header len : Nat) :
    ofNat (header + len) - ofNat header = ofNat len := by
  apply UInt16.toNat_inj.mp
  rw [UInt16.toNat_sub, UInt16.toNat_ofNat', UInt16.toNat_ofNat', UInt16.toNat_ofNat']
  omega

/-- A data packet that is accepted has the number that follows, and its payload was
accepted. -/
theorem sendImageData_ok (hrx : d.rx = packetParam psn crc payload ++ rest)
    (h : otaCmdH2dSendImageData d (ofNat (packetParam psn crc payload).length) crc.isSome =
      (d', none)) :
    psn = d.ctx.lastPsn + 1 ∧ ∃ readBuf, d.ctx.readBuf = some readBuf ∧
      sendImagePayload { d with rx := payload ++ rest } readBuf (ofNat payload.length) psn
        crc = (d', none) := by
  unfold otaCmdH2dSendImageData at h
  split at h
  · cases h
  · rename_i readBuf hbuf
    split at h
    · cases h
    · have hsplit : d.rx = [psn] ++ ((crc.map u32Bytes).getD [] ++ payload ++ rest) := by
        rw [hrx, packetParam]
        simp only [append_assoc]
      have hpsn : svcProtGetRxData d 1 =
          ({ d with rx := (crc.map u32Bytes).getD [] ++ payload ++ rest }, some [psn]) :=
        getRxData_append hsplit
      rw [hpsn, length_packetParam] at h
      dsimp only at h
      split at h
      · cases h
      · rename_i hnext
        refine ⟨not_not.mp hnext, readBuf, hbuf, ?_⟩
        cases crc with
        | none =>
          have hsub := ofNat_sub_header 1 payload.length
          change sendImagePayload { d with rx := payload ++ rest } readBuf
            (ofNat (1 + payload.length) - 1) psn none = _ at h
          rwa [show ofNat (1 + payload.length) - 1 = ofNat payload.length from hsub] at h
        | some c =>
          have hsub := ofNat_sub_header 1 (4 + payload.length)
          have hsub' := ofNat_sub_header 4 payload.length
          have hcrc : svcProtGetRxData
              { d with rx := ((some c).map u32Bytes).getD [] ++ payload ++ rest } 4 =
              ({ d with rx := payload ++ rest }, some (u32Bytes c)) :=
            getRxData_append (d := { d with rx := u32Bytes c ++ payload ++ rest })
              (append_assoc (u32Bytes c) payload rest)
          rw [if_pos Option.isSome_some, hcrc] at h
          change sendImagePayload { d with rx := payload ++ rest } readBuf
            (ofNat (1 + 4 + payload.length) - 1 - 4) psn (some (le32 (u32Bytes c))) = _ at h
          rw [le32_u32Bytes, Nat.add_assoc] at h
          rwa [show ofNat (1 + (4 + payload.length)) - 1 =
              ofNat (4 + payload.length) from hsub,
            show ofNat (4 + payload.length) - 4 = ofNat payload.length from hsub'] at h

theorem length_packetParam_lt (psn : UInt8) (crc : Option UInt32)
    (h : payload.length ≤ 65530) : (packetParam psn crc payload).length < 2 ^ 16 := by
  rw [length_packetParam]
  cases crc with
  | none =>
    change 1 + 0 + payload.length < 2 ^ 16
    omega
  | some c =>
    change 1 + 4 + payload.length < 2 ^ 16
    omega

theorem svcCmdHandler_dataCmd (env : Env) (withCrc : Bool) :
    svcCmdHandler env (dataCmd withCrc) = some (otaCmdH2dSendImageData · · withCrc) := by
  cases withCrc with
  | false => rfl
  | true => rfl

/-- A data packet that succeeds has the number that follows, and its payload was
accepted. -/
theorem packet_ok (hfits : payload.length ≤ 65530)
    (hrx : d.rx = commandBytes (dataCmd crc.isSome) (packetParam psn crc payload) ++ rest)
    (hok : processCommand env d = (d', .ok c)) :
    c = dataCmd crc.isSome ∧ psn = d.ctx.lastPsn + 1 ∧ ∃ readBuf d₂, d.ctx.readBuf = some readBuf ∧
      sendImagePayload { d with rx := payload ++ rest, ctx := { d.ctx with state := .data } }
        readBuf
        (ofNat payload.length) psn crc = (d₂, none) ∧
      d' = { d₂ with ctx := { d₂.ctx with state := .idle } } := by
  obtain ⟨hcmd, handler, d₂, hhandler, hdone, rfl⟩ :=
    processCommand_ok (length_packetParam_lt psn crc hfits) hrx hok
  cases hhandler.symm.trans (svcCmdHandler_dataCmd env crc.isSome)
  obtain ⟨hpsn, readBuf, hbuf, hpayload⟩ := sendImageData_ok rfl hdone
  exact ⟨hcmd, hpsn, readBuf, d₂, hbuf, hpayload, rfl⟩

/-! ## The packet that is due -/

/-- The device is where packet `n` of the answer to `ask` is due. -/
structure Due (ask : Ask) (d : Device) (n : Nat) : Prop where
  readOffset : d.ctx.readOffset = ask.offset
  readLen : d.ctx.readLen = ask.len
  readDoneLen : d.ctx.readDoneLen = ask.delivered n
  lastPsn : d.ctx.lastPsn + 1 = UInt8.ofNat n

theorem Ask.delivered_le_succ (ask : Ask) (n : Nat) : ask.delivered n ≤ ask.delivered (n + 1) := by
  have hmul : n * ask.unit ≤ (n + 1) * ask.unit := Nat.mul_le_mul_right _ (Nat.le_succ n)
  exact min_le_min_right _ hmul

theorem Ask.length_chunk (ask : Ask) (i : Nat) :
    (ask.chunk i).length = ask.delivered (i + 1) - ask.delivered i := by
  rw [Ask.chunk, imageBytes, length_map, length_range]

theorem Ask.length_chunk_le (ask : Ask) (i : Nat) : (ask.chunk i).length ≤ 65530 := by
  have hunit := ask.unit_le
  rw [ask.length_chunk, Ask.delivered, Ask.delivered, Nat.add_mul, Nat.one_mul]
  omega

/-- No answer delivers more than was asked for. -/
theorem Due.remaining (h : Due ask d n) :
    0 ≤ d.ctx.readLen - d.ctx.readDoneLen := by
  have hlen := ask.len_nonneg
  have hle : ask.delivered n ≤ ask.len.toNat := min_le_right _ _
  rw [h.readLen, h.readDoneLen]
  omega

/-- A packet of the answer that succeeds is the one that is due; its payload is in memory
behind what the buffer held, and the next packet is due. -/
theorem Due.packet {index : Nat} {withCrc : Bool} (h : Due ask d n) (hlost : n ≤ index)
    (hnear : index - n < 256) (hrx : d.rx = (Item.packet index withCrc).bytes ask ++ rest)
    (hok : processCommand env d = (d', .ok c)) :
    c ≠ otaCmdH2dNegotiationResultId ∧ index = n ∧ d'.rx = rest ∧ Due ask d' (n + 1) ∧
      ∃ readBuf, d.ctx.readBuf = some readBuf ∧ d'.ctx.readBuf = some readBuf ∧
        d'.mem = d.mem.write (readBuf + d.ctx.readBufLen) (ask.chunk n) ∧
        d'.ctx.readBufLen = d.ctx.readBufLen + (ask.chunk n).length := by
  have hchunk := ask.length_chunk_le index
  have hisSome : (if withCrc then some (utilsCrc32 0 (ask.chunk index)) else none).isSome =
      withCrc := by
    cases withCrc <;> rfl
  have hpacket : d.rx = commandBytes
      (dataCmd (if withCrc then some (utilsCrc32 0 (ask.chunk index)) else none).isSome)
      (packetParam (UInt8.ofNat index)
        (if withCrc then some (utilsCrc32 0 (ask.chunk index)) else none)
          (ask.chunk index)) ++ rest := by
    rw [hisSome]
    exact hrx
  obtain ⟨hcmd, hpsn, readBuf, d₂, hbuf, hpayload, rfl⟩ := packet_ok hchunk hpacket hok
  have hsame : index = n := by
    have hnat := congrArg UInt8.toNat (hpsn.trans h.lastPsn)
    rw [UInt8.toNat_ofNat', UInt8.toNat_ofNat'] at hnat
    omega
  subst hsame
  obtain ⟨-, hrest, hmem, -, hreading⟩ := sendImagePayload_ok
    (d := { d with rx := ask.chunk index ++ rest, ctx := { d.ctx with state := .data } }) hchunk
    h.remaining rfl hpayload
  have hgrow := ask.delivered_le_succ index
  refine ⟨?_, rfl, hrest, ⟨?_, ?_, ?_, ?_⟩, readBuf, hbuf, ?_, hmem, ?_⟩
  · rw [hcmd, hisSome]
    cases withCrc <;> decide
  · exact (congrArg Reading.readOffset hreading).trans h.readOffset
  · exact (congrArg Reading.readLen hreading).trans h.readLen
  · refine (congrArg Reading.readDoneLen hreading).trans ?_
    change d.ctx.readDoneLen + ((ask.chunk index).length : Int) = _
    rw [h.readDoneLen, ask.length_chunk]
    omega
  · change d₂.ctx.reading.lastPsn + 1 = _
    rw [hreading]
    apply UInt8.toNat_inj.mp
    rw [UInt8.toNat_add, UInt8.toNat_ofNat', UInt8.toNat_ofNat']
    simp only [UInt8.reduceToNat]
    omega
  · exact (congrArg Reading.readBuf hreading).trans hbuf
  · exact congrArg Reading.readBufLen hreading

/-- A spoiled packet never succeeds. -/
theorem Due.spoiled {index : Nat}
    {crc : UInt32} (h : Due ask d n)
    (hfits : payload.length ≤ 65530) (hbad : crc ≠ utilsCrc32 0 payload)
    (hrx : d.rx = (Item.spoiled index psn crc payload).bytes ask ++ rest) :
    processCommand env d ≠ (d', .ok c) := by
  intro hok
  have hpacket : d.rx = commandBytes (dataCmd (some crc).isSome)
      (packetParam psn (some crc) payload) ++ rest := hrx
  obtain ⟨-, -, readBuf, d₂, -, hpayload, -⟩ := packet_ok hfits hpacket hok
  obtain ⟨hcrc, -⟩ := sendImagePayload_ok
    (d := { d with rx := payload ++ rest, ctx := { d.ctx with state := .data } }) hfits
    h.remaining rfl hpayload
  exact hbad (hcrc crc rfl)

end SpeakerFirmware.Ota.Bt
