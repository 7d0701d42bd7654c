/-
# What one command does

`process_command` has five outcomes: it fails before any image data is stored, it
rejects a data packet, it handles a command of the handshake, it takes a negotiation
result, or it accepts a data packet. They are stated once here, for any bytes on the
stream; the bounds of the transfer are read off them.
-/

import SpeakerFirmware.Ota.Bt.Model

namespace SpeakerFirmware.Ota.Bt

open Prod

variable {d₁ d d' : Device}

/-- The fields that say how far the current request has been answered. -/
structure Reading where
  readBuf : Option Int
  readLen : Int
  readDoneLen : Int
  readBufLen : Int
  readOffset : Int
  lastPsn : UInt8
  deriving DecidableEq, Repr

def SvcProtContext.reading (c : SvcProtContext) : Reading :=
  ⟨c.readBuf, c.readLen, c.readDoneLen, c.readBufLen, c.readOffset, c.lastPsn⟩

/-! ## Commands that store nothing -/

/-- Nothing was stored, the request stands as before, and a finished negotiation stays
finished. -/
structure Kept (d d' : Device) : Prop where
  reading : d'.ctx.reading = d.ctx.reading
  mem : d'.mem = d.mem
  written : d'.written = d.written
  negotiation : d.ctx.negotiationDone = true → d'.ctx.negotiationDone = true

theorem Kept.refl (d : Device) : Kept d d :=
  ⟨rfl, rfl, rfl, id⟩

theorem Kept.trans {d₂ d₃ : Device} (h : Kept d₁ d₂) (h' : Kept d₂ d₃) : Kept d₁ d₃ :=
  ⟨h'.reading.trans h.reading, h'.mem.trans h.mem, h'.written.trans h.written,
    h'.negotiation ∘ h.negotiation⟩

theorem kept_getRxData (d : Device) (size : Nat) : Kept d (svcProtGetRxData d size).1 :=
  ⟨rfl, rfl, rfl, id⟩

theorem getRxData_some {size : Nat} {bytes : List UInt8}
    (h : svcProtGetRxData d size = (d', some bytes)) :
    d' = { d with rx := d.rx.drop size } ∧ bytes = d.rx.take size := by
  have hbytes : (if size ≤ d.rx.length then some (d.rx.take size) else none) = some bytes :=
    congrArg snd h
  split at hbytes
  · exact ⟨(congrArg fst h).symm, (Option.some.inj hbytes).symm⟩
  · cases hbytes

theorem kept_skipRxData (d : Device) (size : Nat) : Kept d (svcProtSkipRxData d size).1 := by
  have hget := kept_getRxData d size
  unfold svcProtSkipRxData
  split <;> rename_i h <;> rwa [h] at hget

theorem kept_unpackHead (d : Device) : Kept d (tlvUnpackHead d).1 := by
  have hget := kept_getRxData d 3
  unfold tlvUnpackHead
  split <;> rename_i h <;> rwa [h] at hget

variable (env : Env)

theorem kept_sendCmd (d : Device) (message : Message) :
    Kept d (otaBtSendCmd env d message).1 := by
  unfold otaBtSendCmd
  split <;> exact ⟨rfl, rfl, rfl, id⟩

theorem kept_idle (d : Device) : Kept d { d with ctx := { d.ctx with state := .idle } } :=
  ⟨rfl, rfl, rfl, id⟩

/-- Every turn of the parameter loop only reads the stream and the feature byte. -/
theorem kept_requestUpgradeLoop (fuel : Nat) (d : Device) (paramSize : UInt16) :
    Kept d (requestUpgradeLoop fuel d paramSize).1 := by
  induction fuel generalizing d paramSize with
  | zero => exact .refl d
  | succ fuel ih =>
    rw [requestUpgradeLoop]
    split
    · exact .refl d
    · have hhead := kept_unpackHead d
      split
      · rename_i h
        rwa [h] at hhead
      · rename_i d₁ type len h
        rw [h] at hhead
        split
        · have hget := kept_getRxData d₁ 1
          split
          · rename_i h'
            rw [h'] at hget
            exact hhead.trans hget
          · rename_i d₂ bytes h'
            rw [h'] at hget
            have hfeatures : Kept d₂
                { d₂ with ctx := { d₂.ctx with hostFeatures := bytes.getD 0 0 } } :=
              ⟨rfl, rfl, rfl, id⟩
            exact ((hhead.trans hget).trans hfeatures).trans (ih _ _)
        · have hskip := kept_skipRxData d₁ len.toNat
          split
          · rename_i h'
            rw [h'] at hskip
            exact hhead.trans hskip
          · rename_i h'
            rw [h'] at hskip
            exact (hhead.trans hskip).trans (ih _ _)

theorem kept_requestUpgrade (d : Device) (paramSize : UInt16) :
    Kept d (otaCmdH2dRequestUpgrade env d paramSize).1 := by
  have hloop := kept_requestUpgradeLoop (d.rx.length + 1)
    { d with ctx := { d.ctx with hostFeatures := 0 } } paramSize
  have hstart : Kept d { d with ctx := { d.ctx with hostFeatures := 0 } } := ⟨rfl, rfl, rfl, id⟩
  unfold otaCmdH2dRequestUpgrade
  split
  · rename_i h
    rw [h] at hloop
    exact hstart.trans hloop
  · rename_i d₁ h
    rw [h] at hloop
    exact (hstart.trans hloop).trans ((kept_idle d₁).trans (kept_sendCmd env _ _))

theorem kept_connectNegotiation (d : Device) (paramLen : UInt16) :
    Kept d (otaCmdH2dConnectNegotiation env d paramLen).1 :=
  (kept_idle d).trans (kept_sendCmd env _ _)

theorem kept_unpackU8 (d : Device) (type : UInt8) : Kept d (tlvUnpackU8 d type).1 := by
  have hhead := kept_unpackHead d
  unfold tlvUnpackU8
  split
  · rename_i h
    rwa [h] at hhead
  · rename_i d₁ _ len h
    rw [h] at hhead
    have hget := kept_getRxData d₁ (if len = 0 then 0 else 1)
    split <;> rename_i h' <;> rw [h'] at hget <;> exact hhead.trans hget

/-- A negotiation result that is accepted finishes the negotiation. -/
theorem kept_negotiationResult (d : Device) (paramLen : UInt16) :
    Kept d (otaCmdH2dNegotiationResult d paramLen).1 ∧
      ((otaCmdH2dNegotiationResult d paramLen).2 = none →
        (otaCmdH2dNegotiationResult d paramLen).1.ctx.negotiationDone = true) := by
  have hunpack := kept_unpackU8 d 0x1
  unfold otaCmdH2dNegotiationResult
  split
  · rename_i h
    rw [h] at hunpack
    exact ⟨hunpack, fun h => (by cases h)⟩
  · rename_i h
    rw [h] at hunpack
    exact ⟨hunpack.trans ⟨rfl, rfl, rfl, fun _ => rfl⟩, fun _ => rfl⟩

/-! ## Data packets -/

/-- What is left of the parameter of a data packet behind the packet number and the CRC. -/
def payloadLen (withCrc : Bool) (paramLen : UInt16) : UInt16 :=
  if withCrc then paramLen - 1 - 4 else paramLen - 1

/-- The bytes of a payload the request still takes. -/
def Reading.segLen (r : Reading) (payload : UInt16) : Int :=
  Bt.segLen (r.readLen - r.readDoneLen) payload

/-- Image data was stored behind what the buffer already holds, and nowhere else. -/
structure Stored (d d' : Device) (payload : UInt16) : Prop where
  inside : ∃ readBuf, d.ctx.readBuf = some readBuf ∧ ∀ a ∈ d'.written, a ∈ d.written ∨
    readBuf + d.ctx.readBufLen ≤ a ∧
      a < readBuf + d.ctx.readBufLen + d.ctx.reading.segLen payload
  below : ∀ readBuf, d.ctx.readBuf = some readBuf → ∀ a < readBuf + d.ctx.readBufLen,
    d'.mem a = d.mem a
  negotiation : d.ctx.negotiationDone = true → d'.ctx.negotiationDone = true

theorem Kept.lastPsn (h : Kept d d') : d'.ctx.lastPsn = d.ctx.lastPsn :=
  congrArg Reading.lastPsn h.reading

/-- The head of the packet has been read meanwhile. -/
theorem Stored.of_kept {payload : UInt16} (h : Stored d₁ d' payload)
    (hkept : Kept d d₁) : Stored d d' payload := by
  obtain ⟨readBuf, hbuf, hinside⟩ := h.inside
  have hbuf' : d₁.ctx.readBuf = d.ctx.readBuf := congrArg Reading.readBuf hkept.reading
  have hlen : d₁.ctx.readBufLen = d.ctx.readBufLen := congrArg Reading.readBufLen hkept.reading
  rw [hlen, hkept.reading, hkept.written] at hinside
  refine ⟨⟨readBuf, hbuf'.symm.trans hbuf, hinside⟩, fun base hbase a ha => ?_,
    h.negotiation ∘ hkept.negotiation⟩
  rw [h.below base (hbuf'.trans hbase) a (by rwa [hlen]), hkept.mem]

/-- The request moved on by one packet. -/
def Reading.advance (r : Reading) (payload : UInt16) (psn : UInt8) : Reading :=
  { r with
    readDoneLen := r.readDoneLen + r.segLen payload
    readBufLen := r.readBufLen + r.segLen payload
    lastPsn := psn }

/-- What a data packet does behind its number and CRC field. -/
theorem stored_sendImagePayload {readBuf : Int} (hbuf : d.ctx.readBuf = some readBuf)
    (payload : UInt16) (psn : UInt8) (crcOrig : Option UInt32) :
    Stored d (sendImagePayload d readBuf payload psn crcOrig).1 payload ∧
      ((sendImagePayload d readBuf payload psn crcOrig).2 = none →
        (sendImagePayload d readBuf payload psn crcOrig).1.ctx.reading =
          d.ctx.reading.advance payload psn) ∧
      ((sendImagePayload d readBuf payload psn crcOrig).2 ≠ none →
        (sendImagePayload d readBuf payload psn crcOrig).1.ctx.reading = d.ctx.reading) := by
  have hwritten : ∀ a ∈ d.written ++ (List.range (d.rx.take
      (d.ctx.reading.segLen payload).toNat).length).map
        (fun i : Nat => readBuf + d.ctx.readBufLen + i),
      a ∈ d.written ∨ readBuf + d.ctx.readBufLen ≤ a ∧
        a < readBuf + d.ctx.readBufLen + d.ctx.reading.segLen payload := by
    intro a ha
    rcases List.mem_append.mp ha with hold | hnew
    · exact .inl hold
    · obtain ⟨i, hi, rfl⟩ := List.mem_map.mp hnew
      have hlt := List.mem_range.mp hi
      rw [List.length_take] at hlt
      exact .inr ⟨by omega, by omega⟩
  have hbelow : ∀ base, d.ctx.readBuf = some base → ∀ a < base + d.ctx.readBufLen,
      d.mem.write (readBuf + d.ctx.readBufLen) (d.rx.take (d.ctx.reading.segLen payload).toNat) a =
        d.mem a := by
    intro base hbase a ha
    have hsame : base = readBuf := Option.some.inj (hbase.symm.trans hbuf)
    rw [Memory.write, if_neg (by omega)]
  unfold sendImagePayload
  dsimp only
  split
  · rename_i h
    cases congrArg fst h
    exact ⟨⟨⟨readBuf, hbuf, hwritten⟩, hbelow, id⟩, (fun h => (by cases h)), fun _ => rfl⟩
  · rename_i h
    cases congrArg fst h
    split
    · exact ⟨⟨⟨readBuf, hbuf, hwritten⟩, hbelow, id⟩, (fun h => (by cases h)), fun _ => rfl⟩
    · split
      · exact ⟨⟨⟨readBuf, hbuf, hwritten⟩, hbelow, id⟩, (fun h => (by cases h)), fun _ => rfl⟩
      · exact ⟨⟨⟨readBuf, hbuf, hwritten⟩, hbelow, id⟩, fun _ => rfl, fun h => absurd rfl h⟩

/-- What a data packet does: it is refused before anything is stored, or its payload is
stored; if it is accepted its number follows the last one. -/
theorem sendImageData_cases (d : Device) (paramLen : UInt16) (withCrc : Bool) :
    (Kept d (otaCmdH2dSendImageData d paramLen withCrc).1 ∧
        (otaCmdH2dSendImageData d paramLen withCrc).2 ≠ none) ∨
      (1 ≤ paramLen ∧ Stored d (otaCmdH2dSendImageData d paramLen withCrc).1
          (payloadLen withCrc paramLen) ∧
        ((otaCmdH2dSendImageData d paramLen withCrc).2 = none →
          (otaCmdH2dSendImageData d paramLen withCrc).1.ctx.reading =
            d.ctx.reading.advance (payloadLen withCrc paramLen) (d.ctx.lastPsn + 1)) ∧
        ((otaCmdH2dSendImageData d paramLen withCrc).2 ≠ none →
          (otaCmdH2dSendImageData d paramLen withCrc).1.ctx.reading = d.ctx.reading)) := by
  unfold otaCmdH2dSendImageData
  split
  · exact .inl ⟨.refl d, fun h => (by cases h)⟩
  · rename_i readBuf hbuf
    split
    · exact .inl ⟨.refl d, fun h => (by cases h)⟩
    · rename_i hlen
      have hone : 1 ≤ paramLen := UInt16.not_lt.mp fun h => hlen (.inr h)
      have hget := kept_getRxData d 1
      split
      · rename_i h
        rw [h] at hget
        exact .inl ⟨hget, fun h => (by cases h)⟩
      · rename_i d₁ psn h
        cases congrArg fst h
        split
        · exact .inl ⟨hget, fun h => (by cases h)⟩
        · rename_i hpsn
          rw [ne_eq, not_not] at hpsn
          rw [hpsn]
          cases withCrc with
          | false =>
            obtain ⟨hstored, haccept, hreject⟩ := stored_sendImagePayload
              (d := (svcProtGetRxData d 1).1) hbuf (paramLen - 1) (d.ctx.lastPsn + 1) none
            exact .inr ⟨hone, ⟨hstored.inside, hstored.below, hstored.negotiation⟩, haccept,
              hreject⟩
          | true =>
            have hget' := kept_getRxData (svcProtGetRxData d 1).1 4
            rw [if_pos rfl]
            split
            · rename_i h'
              cases congrArg fst h'
              exact .inl ⟨hget.trans hget', fun h => (by cases h)⟩
            · rename_i crc h'
              cases congrArg fst h'
              obtain ⟨hstored, haccept, hreject⟩ := stored_sendImagePayload
                (d := (svcProtGetRxData (svcProtGetRxData d 1).1 4).1) hbuf (paramLen - 1 - 4)
                (d.ctx.lastPsn + 1) (some (le32 crc))
              exact .inr ⟨hone, ⟨hstored.inside, hstored.below, hstored.negotiation⟩, haccept,
                hreject⟩

/-! ## A command -/

/-- The command and the parameter length of the head the stream delivers next. -/
def headCmd (rx : List UInt8) : UInt8 :=
  (rx.take 5).getD 1 0

def headParamLen (rx : List UInt8) : UInt16 :=
  le16 ((rx.take 5).drop 3)

/-- The stream delivers a head of the OTA service with this command next. -/
structure HeadOf (rx : List UInt8) (cmd : UInt8) : Prop where
  svcId : (rx.take 5).getD 0 0 = serviceIdOta
  cmd : headCmd rx = cmd
  paramType : (rx.take 5).getD 2 0 = tlvTypeMain

/-- The command of a data packet. -/
def dataCmd (withCrc : Bool) : UInt8 :=
  if withCrc then otaCmdH2dSendImageDataWithCrcId else otaCmdH2dSendImageDataId

/-- The stream delivers the head of a data packet with this payload next. -/
def DataHead (rx : List UInt8) (payload : UInt16) : Prop :=
  ∃ withCrc, HeadOf rx (dataCmd withCrc) ∧ 1 ≤ headParamLen rx ∧
    payload = payloadLen withCrc (headParamLen rx)

/-- The outcomes of `process_command`. -/
inductive Processed (d d' : Device) : Except Err UInt8 → Prop
  | failed (err : Err) (kept : Kept d d') : Processed d d' (.error err)
  | rejected (err : Err) (payload : UInt16) (head : DataHead d.rx payload)
      (stored : Stored d d' payload) (reading : d'.ctx.reading = d.ctx.reading) :
      Processed d d' (.error err)
  | handshake (cmd : UInt8) (other : cmd ≠ otaCmdH2dNegotiationResultId) (kept : Kept d d') :
      Processed d d' (.ok cmd)
  | result (head : HeadOf d.rx otaCmdH2dNegotiationResultId) (kept : Kept d d')
      (done : d'.ctx.negotiationDone = true) :
      Processed d d' (.ok otaCmdH2dNegotiationResultId)
  | data (cmd : UInt8) (other : cmd ≠ otaCmdH2dNegotiationResultId) (payload : UInt16)
      (head : DataHead d.rx payload) (stored : Stored d d' payload)
      (reading : d'.ctx.reading = d.ctx.reading.advance payload (d.ctx.lastPsn + 1)) :
      Processed d d' (.ok cmd)

/-- Going back to the idle state changes no outcome. -/
theorem Processed.idle {r : Except Err UInt8} (h : Processed d d' r) :
    Processed d { d' with ctx := { d'.ctx with state := .idle } } r := by
  cases h with
  | failed err kept => exact .failed err (kept.trans (kept_idle d'))
  | rejected err payload head stored reading =>
    exact .rejected err payload head ⟨stored.inside, stored.below, stored.negotiation⟩ reading
  | handshake cmd other kept => exact .handshake cmd other (kept.trans (kept_idle d'))
  | result head kept done => exact .result head (kept.trans (kept_idle d')) done
  | data cmd other payload head stored reading =>
    exact .data cmd other payload head ⟨stored.inside, stored.below, stored.negotiation⟩ reading

/-- A command behind its head: `d₁` is the device once the head has been read. -/
theorem processed_handler {env : Env}
    {handler : Device → UInt16 → Device × Option Err} (hkept : Kept d d₁)
    (hsvc : (d.rx.take 5).getD 0 0 = serviceIdOta) (htype : (d.rx.take 5).getD 2 0 = tlvTypeMain)
    (hhandler : svcCmdHandler env (headCmd d.rx) = some handler) :
    (∀ err, (handler d₁ (headParamLen d.rx)).2 = some err →
      Processed d (handler d₁ (headParamLen d.rx)).1 (.error err)) ∧
    ((handler d₁ (headParamLen d.rx)).2 = none →
      Processed d (handler d₁ (headParamLen d.rx)).1 (.ok (headCmd d.rx))) := by
  have hdata : ∀ withCrc, headCmd d.rx = dataCmd withCrc →
      (∀ err, (otaCmdH2dSendImageData d₁ (headParamLen d.rx) withCrc).2 = some err →
        Processed d (otaCmdH2dSendImageData d₁ (headParamLen d.rx) withCrc).1 (.error err)) ∧
      ((otaCmdH2dSendImageData d₁ (headParamLen d.rx) withCrc).2 = none →
        Processed d (otaCmdH2dSendImageData d₁ (headParamLen d.rx) withCrc).1
          (.ok (headCmd d.rx))) := by
    intro withCrc hcmd
    have hother : headCmd d.rx ≠ otaCmdH2dNegotiationResultId := by
      rw [hcmd]
      cases withCrc <;> decide
    rcases sendImageData_cases d₁ (headParamLen d.rx) withCrc with
      ⟨hrefused, hsome⟩ | ⟨hone, hstored, haccept, hreject⟩
    · exact ⟨fun err _ => .failed err (hkept.trans hrefused), fun h => absurd h hsome⟩
    · have hhead : DataHead d.rx (payloadLen withCrc (headParamLen d.rx)) :=
        ⟨withCrc, ⟨hsvc, hcmd, htype⟩, hone, rfl⟩
      have hstored' := hstored.of_kept hkept
      refine ⟨fun err h => .rejected err _ hhead hstored' ?_,
        fun h => .data _ hother _ hhead hstored' ?_⟩
      · rw [hreject (by rw [h]; exact Option.some_ne_none err), hkept.reading]
      · rw [haccept h, hkept.reading, hkept.lastPsn]
  unfold svcCmdHandler at hhandler
  split at hhandler
  · rename_i hcmd
    cases hhandler
    have h := hkept.trans (kept_requestUpgrade env d₁ (headParamLen d.rx))
    exact ⟨fun err _ => .failed err h, fun _ => .handshake _ (by rw [hcmd]; decide) h⟩
  · split at hhandler
    · rename_i hcmd
      cases hhandler
      have h := hkept.trans (kept_connectNegotiation env d₁ (headParamLen d.rx))
      exact ⟨fun err _ => .failed err h, fun _ => .handshake _ (by rw [hcmd]; decide) h⟩
    · split at hhandler
      · rename_i hcmd
        cases hhandler
        obtain ⟨h, hdone⟩ := kept_negotiationResult d₁ (headParamLen d.rx)
        refine ⟨fun err _ => .failed err (hkept.trans h), fun hnone => ?_⟩
        rw [hcmd]
        exact .result ⟨hsvc, hcmd, htype⟩ (hkept.trans h) (hdone hnone)
      · split at hhandler
        · rename_i hcmd
          cases hhandler
          exact hdata false hcmd
        · split at hhandler
          · rename_i hcmd
            cases hhandler
            exact hdata true hcmd
          · cases hhandler

/-- `process_command` has one of the five outcomes. -/
theorem processed_processCommand (d : Device) :
    Processed d (processCommand env d).1 (processCommand env d).2 := by
  unfold processCommand
  split
  · exact .failed _ (.refl d)
  · have hget := kept_getRxData d 5
    split
    · rename_i h
      rw [h] at hget
      exact .failed _ hget
    · rename_i d₁ head h
      obtain ⟨rfl, rfl⟩ := getRxData_some h
      have hkept : Kept d { d with rx := d.rx.drop 5, ctx := { d.ctx with state := .data } } :=
        ⟨rfl, rfl, rfl, id⟩
      dsimp only
      split
      · exact .failed _ hkept
      · rename_i hsvc
        split
        · exact .failed _ hkept
        · rename_i htype
          split
          · exact .failed _ hkept
          · rename_i handler hhandler
            obtain ⟨herror, hok⟩ :=
              processed_handler hkept (not_not.mp hsvc) (not_not.mp htype) hhandler
            split
            · rename_i d₂ err h'
              rw [← show _ = d₂ from congrArg fst h']
              exact herror err (congrArg snd h')
            · rename_i d₂ h'
              have hprocessed : Processed d d₂ (.ok (headCmd d.rx)) := by
                rw [← show _ = d₂ from congrArg fst h']
                exact hok (congrArg snd h')
              exact hprocessed.idle

end SpeakerFirmware.Ota.Bt
