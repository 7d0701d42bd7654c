/-
# What a command takes off the stream

A command that succeeds takes a number of bytes off the stream that is known exactly, and
it does the same when more bytes follow them: it reads what it reads and leaves the rest.
`Consumes` says both of a call; the handlers put it together from their reads. With the first
half the bytes that are taken can be compared with those a command announces; with the
second the state of a transfer can be described by whole packets, although a step only
sees a part of them.
-/

import SpeakerFirmware.Ota.Bt.Effects

namespace SpeakerFirmware.Ota.Bt

open List Prod

variable {d d' d₁ d₂ d₃ : Device} {env : Env} {paramLen : UInt16}

/-- The device with more bytes on its stream. -/
def Device.push (d : Device) (more : List UInt8) : Device :=
  { d with rx := d.rx ++ more }

@[simp]
theorem Device.push_ctx (d : Device) (more : List UInt8) : (d.push more).ctx = d.ctx :=
  rfl

/-! ## Bytes taken off the stream -/

/-- Exactly `n` bytes of the stream were taken. -/
def Took (d d' : Device) (n : Nat) : Prop :=
  ∃ bytes, d.rx = bytes ++ d'.rx ∧ bytes.length = n

instance (d d' : Device) (n : Nat) : Decidable (Took d d' n) :=
  decidable_of_iff (n ≤ d.rx.length ∧ d'.rx = d.rx.drop n) <| by
    constructor
    · rintro ⟨hle, hrest⟩
      exact ⟨d.rx.take n, by rw [hrest, take_append_drop], length_take_of_le hle⟩
    · rintro ⟨bytes, hrx, rfl⟩
      rw [hrx]
      exact ⟨by simp, drop_left.symm⟩

theorem took_drop {n : Nat} (hle : n ≤ d.rx.length) : Took d { d with rx := d.rx.drop n } n :=
  ⟨d.rx.take n, (take_append_drop n d.rx).symm, length_take_of_le hle⟩

theorem Took.trans {m n : Nat} (h : Took d₁ d₂ m) (h' : Took d₂ d₃ n) :
    Took d₁ d₃ (m + n) := by
  obtain ⟨first, hfirst, rfl⟩ := h
  obtain ⟨second, hsecond, rfl⟩ := h'
  exact ⟨first ++ second, by rw [hfirst, hsecond, append_assoc], length_append⟩

/-- The number of bytes is determined. -/
theorem Took.iff_eq {m : Nat} (h : Took d d' m) (n : Nat) : Took d d' n ↔ m = n := by
  refine ⟨fun h' => ?_, fun heq => heq ▸ h⟩
  obtain ⟨bytes, hrx, rfl⟩ := h
  obtain ⟨bytes', hrx', rfl⟩ := h'
  rw [hrx] at hrx'
  rw [append_cancel_right hrx']

/-- The call takes `n` bytes, whatever follows them. -/
structure Consumes {α : Type} (call : Device → Device × α) (d d' : Device) (a : α) (n : Nat) :
    Prop where
  took : Took d d' n
  push : ∀ more, call (d.push more) = (d'.push more, a)

theorem reads_getRxData {size : Nat} {bytes : List UInt8}
    (h : svcProtGetRxData d size = (d', some bytes)) :
    Consumes (svcProtGetRxData · size) d d' (some bytes) size := by
  by_cases hle : size ≤ d.rx.length
  · obtain ⟨rfl, rfl⟩ := getRxData_some h
    refine ⟨took_drop hle, fun more => ?_⟩
    have hle' : size ≤ (d.push more).rx.length := hle.trans (by simp [Device.push])
    unfold svcProtGetRxData
    rw [if_pos hle']
    unfold Device.push
    rw [take_append_of_le_length hle, drop_append_of_le_length hle]
  · rw [svcProtGetRxData, if_neg hle] at h
    cases h

theorem reads_getRxDataAt {addr size : Int} (h : svcProtGetRxDataAt d addr size = (d', true)) :
    Consumes (svcProtGetRxDataAt · addr size) d d' true size.toNat := by
  have hle : size.toNat ≤ d.rx.length := of_decide_eq_true (congrArg snd h)
  cases congrArg fst h
  refine ⟨took_drop hle, fun more => ?_⟩
  have hle' : size.toNat ≤ (d.rx ++ more).length := hle.trans (by simp)
  unfold svcProtGetRxDataAt Device.push
  rw [decide_eq_true hle', take_append_of_le_length hle, drop_append_of_le_length hle]

theorem reads_skipRxData {size : Nat} (h : svcProtSkipRxData d size = (d', none)) :
    Consumes (svcProtSkipRxData · size) d d' none size := by
  unfold svcProtSkipRxData at h ⊢
  split at h
  · rename_i hget
    have hreads := reads_getRxData hget
    cases h
    refine ⟨hreads.took, fun more => ?_⟩
    rw [hreads.push more]
  · cases h

/-- A parameter head is a type and two bytes of length. -/
theorem reads_unpackHead {type : UInt8} {len : UInt16}
    (h : tlvUnpackHead d = (d', some (type, len))) :
    Consumes tlvUnpackHead d d' (some (type, len)) 3 ∧
      ∃ low high, d.rx = type :: low :: high :: d'.rx ∧ len = le16 [low, high] := by
  unfold tlvUnpackHead at h
  split at h
  · rename_i bytes hget
    have hreads := reads_getRxData hget
    obtain ⟨head, hrx, hlen⟩ := hreads.took
    obtain ⟨-, hbytes⟩ := getRxData_some hget
    rw [hrx, ← hlen, take_left] at hbytes
    subst hbytes
    obtain ⟨rfl, hfields⟩ := mk.inj h
    refine ⟨⟨hreads.took, fun more => ?_⟩, ?_⟩
    · rw [tlvUnpackHead, hreads.push more, ← hfields]
    · obtain ⟨htype, hle⟩ := mk.inj (Option.some.inj hfields)
      obtain ⟨first, low, high, rfl⟩ := length_eq_three.mp hlen
      exact ⟨low, high, by rw [hrx, ← htype]; rfl, hle.symm⟩
  · cases h

/-! ## The parameters of an upgrade request -/

/-- The number of value bytes of a parameter that `ota_cmd_h2d_request_upgrade` reads. -/
def valueLen (type : UInt8) (len : UInt16) : Nat :=
  if type = tlvTypeOtaSupportFeatures then 1 else len.toNat

/-- A list of parameters whose length fields use up a number of bytes, counted in 16 bits. -/
inductive ParamList : UInt16 → List UInt8 → Prop
  | done : ParamList 0 []
  | param {left : UInt16} {type low high : UInt8} {value rest : List UInt8} (hleft : left ≠ 0)
      (hvalue : value.length = valueLen type (le16 [low, high]))
      (hrest : ParamList (left - (3 + le16 [low, high])) rest) :
      ParamList left (type :: low :: high :: (value ++ rest))

/-- A stream starts with at most one such list. -/
theorem ParamList.unique {left : UInt16} {params : List UInt8} (h : ParamList left params) :
    ∀ {params' rest rest' : List UInt8}, ParamList left params' →
      params ++ rest = params' ++ rest' → params = params' := by
  induction h with
  | done =>
    intro params' rest rest' h' heq
    cases h' with
    | done => rfl
    | param hleft => exact absurd rfl hleft
  | param hleft hvalue hrest ih =>
    intro params' rest rest' h' heq
    cases h' with
    | done => exact absurd rfl hleft
    | param hleft' hvalue' hrest' =>
      simp only [cons_append, append_assoc, List.cons.injEq] at heq
      obtain ⟨rfl, rfl, rfl, hbody⟩ := heq
      obtain ⟨rfl, htail⟩ := append_inj hbody (hvalue.trans hvalue'.symm)
      rw [ih hrest' htail]

/-- A loop that succeeds takes such a list, also with more fuel. -/
theorem requestUpgradeLoop_reads {fuel : Nat} {left : UInt16}
    (h : requestUpgradeLoop fuel d left = (d', none)) :
    (∃ params, ParamList left params ∧ d.rx = params ++ d'.rx) ∧ ∀ more extra,
      requestUpgradeLoop (fuel + extra) (d.push more) left = (d'.push more, none) := by
  induction fuel generalizing d left with
  | zero => cases h
  | succ fuel ih =>
    rw [requestUpgradeLoop] at h
    split at h
    · rename_i hzero
      cases h
      refine ⟨⟨[], hzero ▸ .done, rfl⟩, fun more extra => ?_⟩
      rw [Nat.add_right_comm, requestUpgradeLoop, if_pos hzero]
    rename_i hleft
    split at h
    · cases h
    rename_i d₁ type len hhead
    obtain ⟨hreads, low, high, hrx, rfl⟩ := reads_unpackHead hhead
    -- both kinds of parameters take their value bytes and go on
    have htake : ∀ d₂ : Device, Took d₁ d₂ (valueLen type (le16 [low, high])) →
        (∃ params, ParamList (left - (3 + le16 [low, high])) params ∧ d₂.rx = params ++ d'.rx) →
        ∃ params, ParamList left params ∧ d.rx = params ++ d'.rx := by
      rintro d₂ ⟨value, hvalue, hlen⟩ ⟨params, hparams, hrest⟩
      refine ⟨_, .param hleft hlen hparams, ?_⟩
      rw [hrx, hvalue, hrest, cons_append, cons_append, cons_append, append_assoc]
    split at h
    · rename_i htype
      split at h
      · cases h
      rename_i d₂ bytes hget
      have hvalue := reads_getRxData hget
      obtain ⟨hparams, hpush⟩ := ih h
      refine ⟨htake d₂ ?_ hparams, fun more extra => ?_⟩
      · rw [valueLen, if_pos htype]
        exact hvalue.took
      · rw [Nat.add_right_comm, requestUpgradeLoop, if_neg hleft, hreads.push more]
        dsimp only
        rw [if_pos htype, hvalue.push more]
        exact hpush more extra
    · rename_i htype
      split at h
      · cases h
      rename_i d₂ hskip
      have hvalue := reads_skipRxData hskip
      obtain ⟨hparams, hpush⟩ := ih h
      refine ⟨htake d₂ ?_ hparams, fun more extra => ?_⟩
      · rw [valueLen, if_neg htype]
        exact hvalue.took
      · rw [Nat.add_right_comm, requestUpgradeLoop, if_neg hleft, hreads.push more]
        dsimp only
        rw [if_neg htype, hvalue.push more]
        exact hpush more extra

/-! ## The handlers -/

theorem sendCmd_rx (env : Env) (d : Device) (message : Message) :
    (otaBtSendCmd env d message).1.rx = d.rx := by
  unfold otaBtSendCmd
  split <;> rfl

theorem reads_sendCmd {message : Message} (h : otaBtSendCmd env d message = (d', none)) :
    Consumes (otaBtSendCmd env · message) d d' none 0 := by
  unfold otaBtSendCmd at h ⊢
  split at h
  · rename_i hok
    cases h
    exact ⟨⟨[], rfl, rfl⟩, fun more => if_pos hok⟩
  · cases h

theorem requestUpgrade_reads (h : otaCmdH2dRequestUpgrade env d paramLen = (d', none)) :
    (∃ params, ParamList paramLen params ∧ d.rx = params ++ d'.rx) ∧
      ∀ more, otaCmdH2dRequestUpgrade env (d.push more) paramLen = (d'.push more, none) := by
  unfold otaCmdH2dRequestUpgrade at h ⊢
  split at h
  · cases h
  rename_i d₁ hloop
  have hsend := reads_sendCmd h
  obtain ⟨⟨params, hparams, hrx⟩, hpush⟩ := requestUpgradeLoop_reads hloop
  have hrest : d'.rx = d₁.rx := by
    have hrx := sendCmd_rx env { d₁ with ctx := { d₁.ctx with state := .idle } }
      (.requestUpgradeAck
        (if d₁.ctx.hostFeatures ≠ 0 then some otaSupportFeatureUnitDataCrc else none))
    rwa [show otaBtSendCmd env _ _ = (d', none) from h] at hrx
  refine ⟨⟨params, hparams, by rw [hrest]; exact hrx⟩, fun more => ?_⟩
  have hfuel : (d.push more).rx.length + 1 = d.rx.length + 1 + more.length := by
    simp [Device.push, Nat.add_right_comm]
  have hloop' : requestUpgradeLoop ((d.push more).rx.length + 1)
      { d.push more with ctx := { (d.push more).ctx with hostFeatures := 0 } } paramLen =
        (d₁.push more, none) := by
    rw [hfuel]
    exact hpush more more.length
  rw [hloop']
  exact hsend.push more

/-- What `ota_cmd_h2d_negotiation_result` takes: a parameter head, and one value byte unless the
length field is zero. -/
def resultLen (rx : List UInt8) : Nat :=
  3 + if le16 (rx.drop 1) = 0 then 0 else 1

theorem reads_unpackU8 {type : UInt8} (h : tlvUnpackU8 d type = (d', none)) :
    Consumes (tlvUnpackU8 · type) d d' none (resultLen d.rx) := by
  unfold tlvUnpackU8 at h
  split at h
  · cases h
  rename_i d₁ got len hhead
  obtain ⟨hfirst, low, high, hrx, rfl⟩ := reads_unpackHead hhead
  split at h
  · cases h
  rename_i d₂ bytes hget
  have hvalue := reads_getRxData hget
  have hlen : le16 (d.rx.drop 1) = le16 [low, high] := by rw [hrx]; rfl
  obtain ⟨rfl, hgot⟩ := mk.inj h
  rw [resultLen, hlen]
  refine ⟨hfirst.took.trans hvalue.took, fun more => ?_⟩
  unfold tlvUnpackU8
  rw [hfirst.push more]
  dsimp only
  rw [hvalue.push more]
  dsimp only
  rw [hgot]

theorem reads_negotiationResult (h : otaCmdH2dNegotiationResult d paramLen = (d', none)) :
    Consumes (otaCmdH2dNegotiationResult · paramLen) d d' none (resultLen d.rx) := by
  unfold otaCmdH2dNegotiationResult at h
  split at h
  · cases h
  rename_i d₂ hunpack
  have hreads := reads_unpackU8 hunpack
  cases h
  refine ⟨hreads.took, fun more => ?_⟩
  rw [otaCmdH2dNegotiationResult, hreads.push more]
  rfl

/-- The bytes in front of the payload of a data packet: its number, and the CRC if it has one. -/
def overhead (withCrc : Bool) : Nat :=
  if withCrc then 5 else 1

/-- A payload is taken as far as the request goes, and then nothing of it may be left. -/
theorem reads_sendImagePayload {readBuf : Int} {psn : UInt8} {crcOrig : Option UInt32}
    (h : sendImagePayload d readBuf paramLen psn crcOrig = (d', none)) :
    Consumes (sendImagePayload · readBuf paramLen psn crcOrig) d d' none
      (if d.ctx.readDoneLen ≤ d.ctx.readLen then paramLen.toNat else 0) := by
  unfold sendImagePayload at h
  dsimp only at h
  split at h
  · cases h
  rename_i d₁ hget
  have hreads := reads_getRxDataAt hget
  split at h
  · cases h
  rename_i hcrc
  split at h
  · cases h
  rename_i hwhole
  cases h
  have hlen : (segLen (d.ctx.readLen - d.ctx.readDoneLen) paramLen).toNat =
      if d.ctx.readDoneLen ≤ d.ctx.readLen then paramLen.toNat else 0 := by
    have hlt := paramLen.toNat_lt
    unfold segLen at hwhole ⊢
    split at hwhole <;> split <;> split <;> omega
  rw [← hlen]
  refine ⟨hreads.took, fun more => ?_⟩
  unfold sendImagePayload
  simp only [Device.push_ctx]
  rw [hreads.push more]
  exact (if_neg hcrc).trans (if_neg hwhole)

theorem reads_sendImageData {withCrc : Bool}
    (h : otaCmdH2dSendImageData d paramLen withCrc = (d', none)) :
    Consumes (otaCmdH2dSendImageData · paramLen withCrc) d d' none
      (overhead withCrc + if d.ctx.readDoneLen ≤ d.ctx.readLen then
        (paramLen - UInt16.ofNat (overhead withCrc)).toNat else 0) := by
  unfold otaCmdH2dSendImageData at h
  split at h
  · cases h
  rename_i readBuf hbuf
  split at h
  · cases h
  rename_i hlen
  split at h
  · cases h
  rename_i d₁ psn hpsn
  obtain ⟨rfl, -⟩ := getRxData_some hpsn
  have hfirst := reads_getRxData hpsn
  split at h
  · cases h
  rename_i hnext
  have hbuf' : ∀ more, (d.push more).ctx.readBuf = some readBuf := fun _ => hbuf
  have hlen' : ∀ more, ¬ ((d.push more).ctx.readLen = 0 ∨ paramLen < 1) := fun _ => hlen
  cases withCrc with
  | false =>
    rw [if_neg Bool.false_ne_true] at h
    have hpayload := reads_sendImagePayload h
    refine ⟨hfirst.took.trans hpayload.took, fun more => ?_⟩
    simp only [otaCmdH2dSendImageData, hbuf' more, if_neg (hlen' more), hfirst.push more]
    exact (if_neg hnext).trans (hpayload.push more)
  | true =>
    rw [if_pos rfl] at h
    split at h
    · cases h
    rename_i d₂ crc hcrc
    obtain ⟨rfl, -⟩ := getRxData_some hcrc
    have hsecond := reads_getRxData hcrc
    have hpayload := reads_sendImagePayload h
    have hfive : paramLen - 1 - 4 = paramLen - UInt16.ofNat (overhead true) := by
      change paramLen - 1 - 4 = paramLen - 5
      grind
    refine ⟨hfive ▸ (hfirst.took.trans hsecond.took).trans hpayload.took, fun more => ?_⟩
    simp only [otaCmdH2dSendImageData, hbuf' more, if_neg (hlen' more), hfirst.push more,
      hsecond.push more]
    exact (if_neg hnext).trans (hpayload.push more)

/-- A handler that does not look past what it reads. -/
def Local (handler : Device → UInt16 → Device × Option Err) : Prop :=
  ∀ {d d' : Device} {paramLen : UInt16}, handler d paramLen = (d', none) →
    ∀ more, handler (d.push more) paramLen = (d'.push more, none)

theorem local_svcCmdHandler {cmd : UInt8}
    {handler : Device → UInt16 → Device × Option Err}
    (h : svcCmdHandler env cmd = some handler) : Local handler := by
  unfold svcCmdHandler at h
  split_ifs at h <;> cases h
  · exact fun h => (requestUpgrade_reads h).2
  · exact fun h => (reads_sendCmd h).push
  · exact fun h => (reads_negotiationResult h).push
  · exact fun h => (reads_sendImageData h).push
  · exact fun h => (reads_sendImageData h).push

/-! ## A command -/

/-- A command succeeds if an idle backend finds a head of the service and the handler succeeds. -/
theorem processCommand_ok_iff {cmd : UInt8} :
    processCommand env d = (d', .ok cmd) ↔ d.ctx.state = .idle ∧ 5 ≤ d.rx.length ∧ HeadOf d.rx cmd ∧
      ∃ handler d₁, svcCmdHandler env cmd = some handler ∧
        handler { d with rx := d.rx.drop 5, ctx := { d.ctx with state := .data } }
          (headParamLen d.rx) =
          (d₁, none) ∧
        d' = { d₁ with ctx := { d₁.ctx with state := .idle } } := by
  constructor
  · intro h
    unfold processCommand at h
    split at h
    · cases h
    rename_i hidle
    split at h
    · cases h
    rename_i d₀ head hget
    obtain ⟨bytes, hrx, hlen⟩ := (reads_getRxData hget).took
    obtain ⟨rfl, rfl⟩ := getRxData_some hget
    dsimp only at h
    split at h
    · cases h
    rename_i hsvc
    split at h
    · cases h
    rename_i htype
    split at h
    · cases h
    rename_i handler hhandler
    split at h
    · cases h
    rename_i d₁ hdone
    cases h
    refine ⟨not_not.mp hidle, ?_, ⟨not_not.mp hsvc, rfl, not_not.mp htype⟩, handler, d₁, hhandler,
      hdone, rfl⟩
    rw [hrx, length_append, hlen]
    exact Nat.le_add_right _ _
  · rintro ⟨hidle, hlen, ⟨hsvc, rfl, htype⟩, handler, d₁, hhandler, hdone, rfl⟩
    have hget : svcProtGetRxData d 5 = ({ d with rx := d.rx.drop 5 }, some (d.rx.take 5)) := by
      rw [svcProtGetRxData, if_pos hlen]
    unfold processCommand
    rw [if_neg (not_not.mpr hidle), hget]
    dsimp only
    rw [if_neg (not_not.mpr hsvc), if_neg (not_not.mpr htype),
      show svcCmdHandler env ((d.rx.take 5).getD 1 0) = some handler from hhandler]
    dsimp only
    rw [show handler _ (le16 ((d.rx.take 5).drop 3)) = (d₁, none) from hdone]
    rfl

/-- A command that succeeds does the same with more bytes behind it. -/
theorem processCommand_push {cmd : UInt8}
    (h : processCommand env d = (d', .ok cmd)) (more : List UInt8) :
    processCommand env (d.push more) = (d'.push more, .ok cmd) := by
  obtain ⟨hidle, hlen, ⟨hsvc, hcmd, htype⟩, handler, d₁, hhandler, hdone, rfl⟩ :=
    processCommand_ok_iff.mp h
  have htake : (d.push more).rx.take 5 = d.rx.take 5 := take_append_of_le_length hlen
  have hdrop : (d.push more).rx.drop 5 = d.rx.drop 5 ++ more := drop_append_of_le_length hlen
  refine processCommand_ok_iff.mpr
    ⟨hidle, hlen.trans (by simp [Device.push]), ⟨?_, ?_, ?_⟩, handler,
    d₁.push more, hhandler, ?_, rfl⟩
  · rwa [htake]
  · rwa [headCmd, htake]
  · rwa [htake]
  · rw [hdrop, headParamLen, htake]
    exact local_svcCmdHandler hhandler hdone more

end SpeakerFirmware.Ota.Bt
