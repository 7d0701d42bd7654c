/-
# Where a command ends

A command announces the length of its parameters, and its handler takes them off the
stream. The next command is found only if the two agree. For every handler that succeeds
the number of bytes it takes is known exactly, so that the result compares it with the
announcement.

Two handlers look at the announced length only to log it, and the parameter loop of an
upgrade request trusts the length fields of the parameters but reads one byte of a
feature parameter whatever its field says.
-/

import SpeakerFirmware.Ota.Bt.Host

namespace SpeakerFirmware.Ota.Bt

open List

variable {d d' : Device} {env : Env}

/-! ## A command -/

/-- The parameters of the next command are what its handler takes. Of the commands without such a
parameter list, the connection request takes none, and a data packet takes its payload only while
the request is not overfull. -/
structure Framed (ctx : SvcProtContext) (rx : List UInt8) : Prop where
  request : headCmd rx = otaCmdH2dRequestUpgradeId → (headParamLen rx).toNat ≤ (rx.drop 5).length ∧
    ParamList (headParamLen rx) ((rx.drop 5).take (headParamLen rx).toNat)
  negotiation : headCmd rx = otaCmdH2dConnectNegotiationId → headParamLen rx = 0
  result : headCmd rx = otaCmdH2dNegotiationResultId →
    resultLen (rx.drop 5) = (headParamLen rx).toNat
  data : ∀ withCrc, headCmd rx = dataCmd withCrc → overhead withCrc ≤ (headParamLen rx).toNat ∧
    (ctx.readDoneLen ≤ ctx.readLen ∨ (headParamLen rx).toNat = overhead withCrc)

/-- Among the bytes behind the head, the ones that were announced are the parameter list. -/
theorem paramList_iff {n : UInt16} {body params rest : List UInt8} (h : ParamList n params)
    (hbody : body = params ++ rest) :
    params.length = n.toNat ↔ n.toNat ≤ body.length ∧ ParamList n (body.take n.toNat) := by
  constructor
  · intro hlen
    rw [hbody, ← hlen, take_left, length_append]
    exact ⟨Nat.le_add_right _ _, h⟩
  · rintro ⟨hle, h'⟩
    have hparams : params = body.take n.toNat :=
      h.unique h' (hbody.symm.trans (take_append_drop n.toNat body).symm)
    rw [hparams, length_take_of_le hle]

/-- What a data packet takes is what it announces. -/
theorem dataLen_iff {n : UInt16} (withCrc : Bool) (inside : Prop) [Decidable inside] :
    (overhead withCrc + if inside then (n - UInt16.ofNat (overhead withCrc)).toNat else 0) =
      n.toNat ↔
      overhead withCrc ≤ n.toNat ∧ (inside ∨ n.toNat = overhead withCrc) := by
  have hlt := n.toNat_lt
  have hsmall : (UInt16.ofNat (overhead withCrc)).toNat = overhead withCrc := by
    cases withCrc <;> rfl
  rw [UInt16.toNat_sub, hsmall]
  have hover : overhead withCrc ≤ 5 := by cases withCrc <;> decide
  by_cases hin : inside
  · rw [if_pos hin]
    simp only [hin, true_or, and_true]
    omega
  · rw [if_neg hin]
    simp only [hin, false_or]
    omega

theorem other_command {cmd c c' : UInt8} {P : Prop} (h : cmd = c) (hne : c ≠ c') : cmd = c' → P :=
  fun h' => absurd (h.symm.trans h') hne

/-- On success a command has taken its head and the parameters it announced exactly if it is
framed. -/
theorem processCommand_framed_iff {env : Env} {d d' : Device} {cmd : UInt8}
    (h : processCommand env d = (d', .ok cmd)) :
    Took d d' (5 + (headParamLen d.rx).toNat) ↔ Framed d.ctx d.rx := by
  obtain ⟨-, hfive, ⟨-, rfl, -⟩, handler, d₁, hhandler, hdone, hd'⟩ := processCommand_ok_iff.mp h
  have hbehind : ∀ {m : Nat},
      Took { d with rx := d.rx.drop 5, ctx := { d.ctx with state := .data } } d₁ m →
      (Took d d' (5 + (headParamLen d.rx).toNat) ↔ m = (headParamLen d.rx).toNat) := by
    intro m hm
    have hhead : Took d { d with rx := d.rx.drop 5, ctx := { d.ctx with state := .data } } 5 :=
      took_drop hfive
    rw [hd']
    exact (Took.iff_eq (hhead.trans hm) _).trans Nat.add_left_cancel_iff
  -- one case for each row of `svc_cmds`
  unfold svcCmdHandler at hhandler
  split at hhandler
  · rename_i hcmd
    cases hhandler
    obtain ⟨⟨params, hparams, hbody⟩, -⟩ := requestUpgrade_reads hdone
    rw [hbehind ⟨params, hbody, rfl⟩, paramList_iff hparams hbody]
    refine ⟨fun hlist =>
      ⟨fun _ => hlist, other_command hcmd (by decide), other_command hcmd (by decide),
      fun withCrc => other_command hcmd ?_⟩, fun hframed => hframed.request hcmd⟩
    cases withCrc <;> decide
  split at hhandler
  · rename_i hcmd
    cases hhandler
    rw [hbehind (reads_sendCmd hdone).took]
    refine ⟨fun hzero => ⟨other_command hcmd (by decide), fun _ => UInt16.toNat_inj.mp hzero.symm,
      other_command hcmd (by decide), fun withCrc => other_command hcmd ?_⟩, fun hframed => ?_⟩
    · cases withCrc <;> decide
    · rw [hframed.negotiation hcmd]
      rfl
  split at hhandler
  · rename_i hcmd
    cases hhandler
    rw [hbehind (reads_negotiationResult hdone).took]
    refine ⟨fun hlen =>
      ⟨other_command hcmd (by decide), other_command hcmd (by decide), fun _ => hlen,
      fun withCrc => other_command hcmd ?_⟩, fun hframed => hframed.result hcmd⟩
    cases withCrc <;> decide
  -- the two rows of data packets differ in the flag
  obtain ⟨withCrc, hcmd, hdata⟩ : ∃ withCrc, headCmd d.rx = dataCmd withCrc ∧
      otaCmdH2dSendImageData { d with rx := d.rx.drop 5, ctx := { d.ctx with state := .data } }
        (headParamLen d.rx) withCrc = (d₁, none) := by
    split at hhandler
    · rename_i hcmd
      cases hhandler
      exact ⟨false, hcmd, hdone⟩
    · split at hhandler
      · rename_i hcmd
        cases hhandler
        exact ⟨true, hcmd, hdone⟩
      · cases hhandler
  rw [hbehind (reads_sendImageData hdata).took, dataLen_iff]
  refine ⟨fun hlen => ⟨other_command hcmd ?_, other_command hcmd ?_, other_command hcmd ?_,
    fun withCrc' hcmd' => ?_⟩, fun hframed => hframed.data withCrc hcmd⟩
  · cases withCrc <;> decide
  · cases withCrc <;> decide
  · cases withCrc <;> decide
  · have hsame : withCrc' = withCrc := by
      revert hcmd' hcmd
      generalize headCmd d.rx = cmd
      rintro rfl
      cases withCrc <;> cases withCrc' <;> decide
    rw [hsame]
    exact hlen

/-- An idle backend without a request. -/
def idleDevice (rx : List UInt8) : Device where
  ctx :=
    { state := .idle, readBuf := none, readLen := 0, readDoneLen := 0, readBufLen :=
      0, readOffset := 0
      lastPsn := 0xff, hostFeatures := 0, otaUnitSize := 2048, negotiationDone := false }
  rx := rx
  mem := fun _ => 0
  written := []
  sent := []

/-- A connection request that announces three bytes of parameters succeeds and leaves them on the
stream. -/
theorem connectNegotiation_leaves_parameters :
    (processCommand ⟨true, true⟩ (idleDevice [9, 2, 0x80, 3, 0, 4, 0, 0])).2 = .ok 2 ∧
      headParamLen (idleDevice [9, 2, 0x80, 3, 0, 4, 0, 0]).rx = 3 ∧
      (processCommand ⟨true, true⟩ (idleDevice [9, 2, 0x80, 3, 0, 4, 0, 0])).1.rx = [4, 0, 0] ∧
      ¬ Took (idleDevice [9, 2, 0x80, 3, 0, 4, 0, 0])
        (processCommand ⟨true, true⟩ (idleDevice [9, 2, 0x80, 3, 0, 4, 0, 0])).1 (5 + 3) :=
  ⟨rfl, rfl, rfl, by decide⟩

/-- An upgrade request with one feature parameter of one byte. -/
theorem processCommand_framed_features :
    Took (idleDevice [9, 1, 0x80, 4, 0, 9, 1, 0, 1])
      (processCommand ⟨true, true⟩ (idleDevice [9, 1, 0x80, 4, 0, 9, 1, 0, 1])).1 (5 + 4) := by
  have hframed : Framed (idleDevice []).ctx [9, 1, 0x80, 4, 0, 9, 1, 0, 1] := by
    refine ⟨fun _ => ⟨by decide, ?_⟩, fun h => absurd h (by decide), fun h => absurd h (by decide),
      ?_⟩
    · have hend : ParamList (4 - (3 + le16 [1, 0])) [] := .done
      exact .param (by decide) (show ([1] : List UInt8).length = _ from rfl) hend
    · intro withCrc h
      cases withCrc <;> exact absurd h (by decide)
  have hok : processCommand ⟨true, true⟩ (idleDevice [9, 1, 0x80, 4, 0, 9, 1, 0, 1]) =
      ((processCommand ⟨true, true⟩ (idleDevice [9, 1, 0x80, 4, 0, 9, 1, 0, 1])).1, .ok 1) := rfl
  exact (processCommand_framed_iff hok).mpr hframed

end SpeakerFirmware.Ota.Bt
