/-
# The receive thread

`ota_rx_thread` pulls a file in large requests and takes each request apart in segments
that fit `data_buf`: one `read_prepare` for the request, then one `read_complete` per
segment, all into the same buffer. The buffer is the smallest of three lengths: a
request may be far longer, and a packet is as long as the host says.

The store of a packet is bounded by the request, not by the segment. The bytes stay in
`data_buf` as long as no packet runs past the segment that is being read, and no
negotiation result arrives in the middle of one.
-/

import Mathlib.Tactic.Ring
import SpeakerFirmware.Lib.Runs
import SpeakerFirmware.Ota.Bt.Effects

namespace SpeakerFirmware.Ota.Bt

open Runs

/-! ## The thread -/

/-- What the thread is started with. A segment fits the buffer. -/
structure RxConfig where
  dataBuf : Int
  dataBufSize : Int
  segSize : Int
  maxReqSize : Int
  seg_nonneg : 0 ≤ segSize
  seg_le : segSize ≤ dataBufSize

/-- The test of the outer loop, the test of the inner loop with what is left of the
request, a running `read_complete`, and the end. -/
inductive RxPhase
  | outer
  | inner (reqSize : Int)
  | completing (reqSize rlen : Int) (activity : Activity)
  | exited

/-- The thread with its part of `ota_rx_info`. -/
structure RxThread where
  dev : Device
  offset : Int
  size : Int
  rxErrno : Bool
  phase : RxPhase

/-- What happens during a step: what the link does, and whether the thread is asked to
end. -/
structure RxInput extends LinkInput where
  terminate : Bool

/-- One step of `ota_rx_thread` with the Bluetooth backend. -/
def RxThread.step (cfg : RxConfig) (input : RxInput) (t : RxThread) : RxThread :=
  match t.phase with
  | .outer =>
    if t.size > 0 ∧ t.rxErrno = false ∧ input.terminate = false then
      let reqSize := if t.size > cfg.maxReqSize then cfg.maxReqSize else t.size
      let r := input.onStream t.dev
        (otaBackendBtReadPrepare input.env · ⟨t.offset, cfg.dataBuf, reqSize⟩)
      -- the error is noted, but the inner loop still runs
      { t with dev := r.1, rxErrno := r.2.isSome, phase := .inner reqSize }
    else { t with phase := .exited }
  | .inner reqSize =>
    if reqSize > 0 then
      let rlen := if reqSize < cfg.segSize then reqSize else cfg.segSize
      { t with phase := .completing reqSize rlen (.tryAgain
          (Call.start .readComplete ⟨t.offset, cfg.dataBuf, rlen⟩ input.garbage)) }
    else { t with phase := .outer }
  | .completing reqSize rlen (.returned _ none) =>
    { t with
      offset := t.offset + rlen, size := t.size - rlen, phase := .inner (reqSize - rlen) }
  | .completing _ _ (.returned _ (some _)) => { t with rxErrno := true, phase := .outer }
  | .completing reqSize rlen activity =>
    let r := input.onStream t.dev (activity.step input.env ·)
    { t with dev := r.1, phase := .completing reqSize rlen r.2 }
  | .exited => t

/-! ## The invariant -/

/-- The request is answered up to `got` bytes of the segment at `offset`; `rest` bytes of
it are due from `offset` on. -/
structure Reading.Answers (r : Reading) (buf offset rest got : Int) : Prop where
  buf : r.readBuf = some buf
  bufLen : r.readBufLen = got
  done : r.readDoneLen = offset - r.readOffset + got
  len : r.readLen = offset - r.readOffset + rest

/-- A `read_complete` of the segment at `offset` that has not moved. -/
structure Call.Reads (call : Call) (cfg : RxConfig) (offset reqSize rlen : Int) : Prop where
  api : call.api = .readComplete
  offset : call.offset = offset
  buf : call.buf = cfg.dataBuf
  size : call.size = rlen
  retry : 0 < call.retryTimes → call.retrySize = reqSize

/-- The request is answered up to some part of the segment. -/
def Partly (cfg : RxConfig) (d : Device) (offset reqSize rlen : Int) : Prop :=
  ∃ got, 0 ≤ got ∧ got ≤ rlen ∧ d.ctx.reading.Answers cfg.dataBuf offset reqSize got

/-- What holds while a segment is read. -/
def Reads (cfg : RxConfig) (d : Device) (offset reqSize rlen : Int) : Activity → Prop
  | .ready => True
  | .tryAgain call | .loop call =>
    call.Reads cfg offset reqSize rlen ∧ Partly cfg d offset reqSize rlen
  | .returned _ none => d.ctx.reading.Answers cfg.dataBuf (offset + rlen) (reqSize - rlen) 0
  | .returned _ (some _) => True

/-- What arrives on the stream meanwhile does not matter to the segment. -/
theorem Reads.rx {cfg : RxConfig} {d : Device} {offset reqSize rlen : Int} {activity : Activity}
    (h : Reads cfg d offset reqSize rlen activity) {rx : List UInt8} :
    Reads cfg { d with rx := rx } offset reqSize rlen activity := by
  cases activity with
  | ready => trivial
  | tryAgain call => exact h
  | loop call => exact h
  | returned call err =>
    cases err with
    | none => exact h
    | some err => trivial

/-- Every address written so far lies in `data_buf`. -/
def RxConfig.Contains (cfg : RxConfig) (d : Device) : Prop :=
  ∀ a ∈ d.written, cfg.dataBuf ≤ a ∧ a < cfg.dataBuf + cfg.dataBufSize

/-- The invariant of the thread. -/
structure RxThread.Bounded (cfg : RxConfig) (t : RxThread) : Prop where
  contains : cfg.Contains t.dev
  phase : match t.phase with
    | .outer | .exited => True
    | .inner reqSize => t.dev.ctx.negotiationDone = true ∧
        t.dev.ctx.reading.Answers cfg.dataBuf t.offset reqSize 0
    | .completing reqSize rlen activity => t.dev.ctx.negotiationDone = true ∧
        0 ≤ rlen ∧ rlen ≤ reqSize ∧ rlen ≤ cfg.segSize ∧
        Reads cfg t.dev t.offset reqSize rlen activity

/-- The next bytes are safe for a segment of `size`: a data packet does not run past its
end, and a negotiation result finds none of it received. -/
def SafeHead (rx : List UInt8) (size got : Int) : Prop :=
  (∀ payload, DataHead rx payload → (payload.toNat : Int) ≤ size - got) ∧
    (HeadOf rx otaCmdH2dNegotiationResultId → got = 0)

/-! ## Requests and the end of a call -/

/-- A request that passes the negotiation check stands answered by nothing, whether or
not it could be sent. -/
theorem requireImageData_answers (env : Env) {d : Device} (h : d.ctx.negotiationDone = true)
    (offset len buf : Int) :
    (otaCmdRequireImageData env d offset len buf).1.ctx.reading.Answers buf offset len 0 ∧
      (otaCmdRequireImageData env d offset len buf).1.written = d.written ∧
      (otaCmdRequireImageData env d offset len buf).1.ctx.negotiationDone = true := by
  unfold otaCmdRequireImageData otaBtSendCmd
  rw [if_neg (by rw [h]; decide)]
  have hfresh : (⟨some buf, len, 0, 0, offset, 0xff⟩ : Reading).Answers buf offset len 0 :=
    ⟨rfl, rfl, by simp, by simp⟩
  cases env.sendOk with
  | false => exact ⟨hfresh, rfl, h⟩
  | true => exact ⟨hfresh, rfl, h⟩

/-- What a step of the call owes: no write outside, the negotiation still done, and the
invariant of the segment. -/
structure StepKeeps (cfg : RxConfig) (offset reqSize rlen : Int) (r : Device × Activity) :
    Prop where
  contains : cfg.Contains r.1
  negotiation : r.1.ctx.negotiationDone = true
  reads : Reads cfg r.1 offset reqSize rlen r.2

section

variable {cfg : RxConfig} (env : Env) {d : Device} {call : Call} {offset reqSize rlen : Int}

/-- At `try_again` the first attempt goes on with the request of `read_prepare`; a second
one asks for the rest of it again. -/
theorem Call.Reads.request (hcall : call.Reads cfg offset reqSize rlen) (hrlen : 0 ≤ rlen)
    (hin : cfg.Contains d) (hdone : d.ctx.negotiationDone = true)
    (hpartly : Partly cfg d offset reqSize rlen) :
    StepKeeps cfg offset reqSize rlen (call.request env d) := by
  rw [Call.request, hcall.api]
  dsimp only
  split
  · rename_i hretry
    obtain ⟨hanswers, hwritten, hdone'⟩ :=
      requireImageData_answers env hdone call.offset call.retrySize call.buf
    rw [hcall.offset, hcall.retry hretry, hcall.buf] at hanswers hwritten hdone' ⊢
    split
    · rename_i d₁ _ h
      rw [h] at hwritten hdone'
      exact ⟨by rw [RxConfig.Contains, hwritten]; exact hin, hdone', trivial⟩
    · rename_i d₁ h
      rw [h] at hanswers hwritten hdone'
      exact ⟨by rw [RxConfig.Contains, hwritten]; exact hin, hdone',
        ⟨rfl, rfl, rfl, hcall.size, fun _ => rfl⟩, 0, le_rfl, hrlen, hanswers⟩
  · exact ⟨hin, hdone, hcall, hpartly⟩

/-- Behind the loop: a call that ends without an error has received its segment. -/
theorem Call.Reads.finish (hcall : call.Reads cfg offset reqSize rlen) (hin : cfg.Contains d)
    (hdone : d.ctx.negotiationDone = true) (hpartly : Partly cfg d offset reqSize rlen)
    (hfull : call.err = none → d.ctx.readBufLen = rlen) :
    StepKeeps cfg offset reqSize rlen (call.finish env d) := by
  obtain ⟨got, hnonneg, hle, hanswers⟩ := hpartly
  have hlen : d.ctx.readLen = offset - d.ctx.readOffset + reqSize := hanswers.len
  rw [Call.finish, hcall.api]
  dsimp only
  split
  · -- the drop changes the stream only
    have hdrop : (svcDropAllRxData d (d.ctx.readLen.tdiv 50 + 500)).ctx = d.ctx ∧
        (svcDropAllRxData d (d.ctx.readLen.tdiv 50 + 500)).written = d.written := by
      unfold svcDropAllRxData
      split <;> exact ⟨rfl, rfl⟩
    obtain ⟨hctx, hwritten⟩ := hdrop
    refine ⟨by rw [RxConfig.Contains]; exact hwritten ▸ hin, by rw [hctx]; exact hdone, ?_, got,
      hnonneg, hle, by rw [hctx]; exact hanswers⟩
    refine ⟨rfl, hcall.offset, hcall.buf, hcall.size, fun _ => ?_⟩
    rw [hctx, hcall.offset, hlen]
    ring
  · refine ⟨hin, hdone, ?_⟩
    cases herr : call.err with
    | some err => trivial
    | none =>
      have hgot : got = rlen := hanswers.bufLen.symm.trans (hfull herr)
      have hread : d.ctx.readDoneLen = offset - d.ctx.readOffset + got := hanswers.done
      refine ⟨hanswers.buf, rfl, ?_, ?_⟩
      · change d.ctx.readDoneLen = offset + rlen - d.ctx.readOffset + 0
        rw [hread, hgot]
        ring
      · change d.ctx.readLen = offset + rlen - d.ctx.readOffset + (reqSize - rlen)
        rw [hlen]
        ring

/-- What a packet stores lies in the segment when the packet does. -/
theorem Stored.contains {d' : Device} {payload : UInt16} {got : Int}
    (hstored : Stored d d' payload) (hin : cfg.Contains d)
    (hanswers : d.ctx.reading.Answers cfg.dataBuf offset reqSize got) (hgot : 0 ≤ got)
    (hfits : (payload.toNat : Int) ≤ rlen - got) (hrlen : rlen ≤ cfg.segSize) :
    cfg.Contains d' := by
  obtain ⟨readBuf, hbuf, hinside⟩ := hstored.inside
  have hbase : readBuf = cfg.dataBuf := Option.some.inj (hbuf.symm.trans hanswers.buf)
  have hlen : d.ctx.readBufLen = got := hanswers.bufLen
  have hseg : d.ctx.reading.segLen payload ≤ payload.toNat := by
    rw [Reading.segLen, segLen]
    split <;> omega
  have hcap := cfg.seg_le
  intro a ha
  rcases hinside a ha with hold | ⟨hlo, hhi⟩
  · exact hin a hold
  · rw [hbase, hlen] at hlo hhi
    exact ⟨by omega, by omega⟩

/-- A turn of the loop on safe bytes keeps the segment. -/
theorem Call.Reads.turn (hcall : call.Reads cfg offset reqSize rlen) (hin : cfg.Contains d)
    (hdone : d.ctx.negotiationDone = true) (hpartly : Partly cfg d offset reqSize rlen)
    (hreq : rlen ≤ reqSize) (hseg : rlen ≤ cfg.segSize)
    (hsafe : SafeHead d.rx call.size d.ctx.readBufLen) :
    StepKeeps cfg offset reqSize rlen (call.turn env d) := by
  have hreceived : ∀ d', call.received d' = d'.ctx.readBufLen := by
    intro d'
    rw [Call.received, hcall.api]
  rw [Call.turn, hreceived]
  split
  · rename_i hfull
    exact hcall.finish env hin hdone hpartly fun _ => hfull.trans hcall.size
  · obtain ⟨got, hnonneg, hle, hanswers⟩ := hpartly
    have hbufLen : d.ctx.readBufLen = got := hanswers.bufLen
    rw [hcall.size, hbufLen] at hsafe
    have hfailed : ∀ err, { call with err := some err }.Reads cfg offset reqSize rlen :=
      fun _ => ⟨hcall.api, hcall.offset, hcall.buf, hcall.size, hcall.retry⟩
    have hpassed : { call with err := none }.Reads cfg offset reqSize rlen :=
      ⟨hcall.api, hcall.offset, hcall.buf, hcall.size, hcall.retry⟩
    have hprocessed := processed_processCommand env d
    split
    · rename_i d' err h
      rw [h] at hprocessed
      cases hprocessed with
      | failed _ kept =>
        refine (hfailed err).finish env ?_ (kept.negotiation hdone) ⟨got, hnonneg, hle, ?_⟩
          (fun h => (by cases h))
        · rw [RxConfig.Contains, kept.written]
          exact hin
        · rw [kept.reading]
          exact hanswers
      | rejected _ payload head stored reading =>
        refine (hfailed err).finish env ?_ (stored.negotiation hdone) ⟨got, hnonneg, hle, ?_⟩
          (fun h => (by cases h))
        · exact stored.contains hin hanswers hnonneg (hsafe.1 payload head) hseg
        · rw [reading]
          exact hanswers
    · rename_i d' cmd h
      rw [h] at hprocessed
      cases hprocessed with
      | handshake _ other kept =>
        rw [if_neg other]
        refine ⟨?_, kept.negotiation hdone, hpassed, got, hnonneg, hle, ?_⟩
        · rw [RxConfig.Contains, kept.written]
          exact hin
        · rw [kept.reading]
          exact hanswers
      | result head kept done =>
        have hzero : got = 0 := hsafe.2 head
        have hsame : d'.ctx.readBufLen = 0 := by
          rw [show d'.ctx.readBufLen = d.ctx.readBufLen from
            congrArg Reading.readBufLen kept.reading, hbufLen, hzero]
        rw [if_pos rfl, hreceived, hsame]
        refine ⟨?_, done, ⟨hcall.api, ?_, ?_, ?_, hcall.retry⟩, got, hnonneg, hle, ?_⟩
        · rw [RxConfig.Contains, kept.written]
          exact hin
        · exact (Int.add_zero _).trans hcall.offset
        · exact (Int.add_zero _).trans hcall.buf
        · exact (Int.sub_zero _).trans hcall.size
        · rw [kept.reading]
          exact hanswers
      | data _ other payload head stored reading =>
        have hfits := hsafe.1 payload head
        have hread : d.ctx.reading.readLen - d.ctx.reading.readDoneLen = reqSize - got := by
          rw [hanswers.len, hanswers.done]
          ring
        have hsegLen : 0 ≤ d.ctx.reading.segLen payload ∧
            got + d.ctx.reading.segLen payload ≤ rlen := by
          rw [Reading.segLen, hread, segLen]
          split <;> omega
        rw [if_neg other]
        refine ⟨stored.contains hin hanswers hnonneg hfits hseg, stored.negotiation hdone, hpassed,
          got + d.ctx.reading.segLen payload, by omega, hsegLen.2, ?_⟩
        rw [reading]
        refine ⟨hanswers.buf, ?_, ?_, hanswers.len⟩
        · exact congrArg (· + _) hanswers.bufLen
        · change d.ctx.reading.readDoneLen + _ = offset - d.ctx.reading.readOffset + _
          rw [hanswers.done]
          ring

end

/-! ## Every run -/

/-- What a step needs: a request is made with the negotiation done, and a turn of the
loop finds safe bytes. -/
def RxThread.Safe (input : RxInput) (t : RxThread) : Prop :=
  match t.phase with
  | .outer => t.dev.ctx.negotiationDone = true
  | .completing _ _ (.loop call) => SafeHead (input.stream t.dev) call.size t.dev.ctx.readBufLen
  | _ => True

/-- A step of the thread, and one on safe input. -/
def RxThread.Steps (cfg : RxConfig) (t : RxThread) (input : RxInput) (t' : RxThread) : Prop :=
  t' = t.step cfg input

def RxThread.SafeSteps (cfg : RxConfig) (t : RxThread) (input : RxInput) (t' : RxThread) : Prop :=
  t.Safe input ∧ t' = t.step cfg input

/-- A step on safe input keeps the invariant. -/
theorem RxThread.Bounded.step {cfg : RxConfig} {t : RxThread} {input : RxInput}
    (h : t.Bounded cfg) (hsafe : t.Safe input) : (t.step cfg input).Bounded cfg := by
  obtain ⟨dev, offset, size, rxErrno, phase⟩ := t
  obtain ⟨hin, hphase⟩ := h
  cases phase with
  | exited => exact ⟨hin, trivial⟩
  | outer =>
    rw [RxThread.step]
    dsimp only
    split
    · obtain ⟨hanswers, hwritten, hdone⟩ := requireImageData_answers input.env
        (d := { dev with rx := input.stream dev }) hsafe offset
        (if size > cfg.maxReqSize then cfg.maxReqSize else size) cfg.dataBuf
      unfold LinkInput.onStream otaBackendBtReadPrepare
      dsimp only
      generalize otaCmdRequireImageData input.env { dev with rx := input.stream dev } offset
        (if size > cfg.maxReqSize then cfg.maxReqSize else size) cfg.dataBuf = r at *
      obtain ⟨d', err⟩ := r
      have hin' : cfg.Contains d' := by
        rw [RxConfig.Contains, show d'.written = dev.written from hwritten]
        exact hin
      cases err with
      | none => exact ⟨hin', hdone, hanswers⟩
      | some err => exact ⟨hin', hdone, hanswers⟩
    · exact ⟨hin, trivial⟩
  | inner reqSize =>
    obtain ⟨hdone, hanswers⟩ := hphase
    rw [RxThread.step]
    dsimp only
    have hseg := cfg.seg_nonneg
    split
    · have hrlen : 0 ≤ (if reqSize < cfg.segSize then reqSize else cfg.segSize) ∧
          (if reqSize < cfg.segSize then reqSize else cfg.segSize) ≤ reqSize ∧
          (if reqSize < cfg.segSize then reqSize else cfg.segSize) ≤ cfg.segSize := by
        split <;> omega
      exact ⟨hin, hdone, hrlen.1, hrlen.2.1, hrlen.2.2,
        ⟨rfl, rfl, rfl, rfl, fun h => absurd h (lt_irrefl 0)⟩, 0, le_rfl, hrlen.1, hanswers⟩
    · exact ⟨hin, trivial⟩
  | completing reqSize rlen activity =>
    obtain ⟨hdone, hrlen, hreq, hseg, hreads⟩ := hphase
    cases activity with
    | ready => exact ⟨hin, hdone, hrlen, hreq, hseg, trivial⟩
    | tryAgain call =>
      have hstep := hreads.1.request input.env
        (d := { dev with rx := input.stream dev }) hrlen hin hdone hreads.2
      exact ⟨hstep.contains, hstep.negotiation, hrlen, hreq, hseg, hstep.reads.rx⟩
    | loop call =>
      have hstep := hreads.1.turn input.env
        (d := { dev with rx := input.stream dev }) hin hdone hreads.2 hreq hseg hsafe
      exact ⟨hstep.contains, hstep.negotiation, hrlen, hreq, hseg, hstep.reads.rx⟩
    | returned call err =>
      cases err with
      | none => exact ⟨hin, hdone, hreads⟩
      | some err => exact ⟨hin, trivial⟩

/-- In every run on safe input, every byte a data packet stores lies in `data_buf`. -/
theorem written_mem_dataBuf {cfg : RxConfig} {t₀ t : RxThread} {inputs : List RxInput}
    (hphase : t₀.phase = .outer) (hwritten : t₀.dev.written = [])
    (hrun : Run (RxThread.SafeSteps cfg) t₀ inputs t) :
    ∀ a ∈ t.dev.written, cfg.dataBuf ≤ a ∧ a < cfg.dataBuf + cfg.dataBufSize := by
  have hstart : t₀.Bounded cfg := by
    refine ⟨?_, by rw [hphase]; trivial⟩
    rw [RxConfig.Contains, hwritten]
    exact fun a ha => absurd ha List.not_mem_nil
  have hinv : t.Bounded cfg := by
    apply hrun.invariant (fun _ t => t.Bounded cfg) hstart
    intro _ t input t' h hstep
    rw [hstep.2]
    exact h.step hstep.1
  exact hinv.contains

/-! ## A transfer into the default buffer -/

/-- The default `data_buf` of `OTA_DATA_BUFFER_SIZE` bytes at address 0, filled in one
segment, with requests of up to `OTA_REQ_MAX_SIZE`. -/
def defaultConfig : RxConfig where
  dataBuf := 0
  dataBufSize := 1024
  segSize := 1024
  maxReqSize := 131072
  seg_nonneg := by decide
  seg_le := le_rfl

/-- A thread that is to receive `size` bytes, behind a finished negotiation. -/
def startedThread (size : Int) : RxThread where
  dev :=
    { ctx :=
        { state := .idle, readBuf := none, readLen := 0, readDoneLen := 0, readBufLen := 0
          readOffset := 0, lastPsn := 0, hostFeatures := 0, otaUnitSize := 256
          negotiationDone := true }
      rx := [], mem := fun _ => 0, written := [], sent := [] }
  offset := 0
  size := size
  rxErrno := false
  phase := .outer

/-- The first packet of an answer, without a CRC. -/
def firstPacket (payload : List UInt8) : List UInt8 :=
  [serviceIdOta, otaCmdH2dSendImageDataId, tlvTypeMain, UInt8.ofNat (payload.length + 1),
    UInt8.ofNat ((payload.length + 1) / 256), 0] ++ payload

/-- A step during which the host sends `incoming` and the first `arrived` bytes of the
stream can be read. -/
def linkUp (incoming : List UInt8) (arrived : Nat) : RxInput :=
  ⟨⟨⟨true, true⟩, incoming, arrived, false, none⟩, false⟩

/-- The request, the start of the first `read_complete`, its first attempt, and the turn
that takes the packet. -/
def packetInputs (payload : List UInt8) : List RxInput :=
  [linkUp (firstPacket payload) 0, linkUp [] 0, linkUp [] 0, linkUp [] (payload.length + 6)]

/-- A packet of 1025 bytes in answer to a request of 4096 is stored past the end of the
buffer of 1024. -/
theorem long_packet_leaves_dataBuf :
    ∃ inputs t, Run (RxThread.Steps defaultConfig) (startedThread 4096) inputs t ∧
      ∃ a ∈ t.dev.written, defaultConfig.dataBuf + defaultConfig.dataBufSize ≤ a := by
  have hrun : Run (RxThread.Steps defaultConfig) (startedThread 4096)
      (packetInputs (List.replicate 1025 0)) ((packetInputs (List.replicate 1025 0)).foldl
        (fun t input => t.step defaultConfig input) (startedThread 4096)) :=
    run_foldl _ _ _
  exact ⟨_, _, hrun, 1024, by decide +kernel, le_rfl⟩

/-- The head of a short packet is safe for a whole segment. -/
theorem safeHead_firstPacket : SafeHead (firstPacket [1, 2, 3, 4]) 1024 0 := by
  constructor
  · rintro payload ⟨withCrc, hhead, -, rfl⟩
    cases withCrc with
    | false => decide
    | true => exact absurd hhead.cmd (by decide)
  · exact fun hhead => absurd hhead.cmd (by decide)

theorem written_mem_dataBuf_example :
    ∃ t : RxThread, t.dev.written = [0, 1, 2, 3] ∧
      ∀ a ∈ t.dev.written, defaultConfig.dataBuf ≤ a ∧
        a < defaultConfig.dataBuf + defaultConfig.dataBufSize := by
  let next := fun (t : RxThread) (input : RxInput) => t.step defaultConfig input
  have hstep : ∀ (inputs : List RxInput) (input : RxInput),
      Run (RxThread.SafeSteps defaultConfig) (startedThread 4096) inputs
        (inputs.foldl next (startedThread 4096)) →
      (inputs.foldl next (startedThread 4096)).Safe input →
      Run (RxThread.SafeSteps defaultConfig) (startedThread 4096) (inputs ++ [input])
        ((inputs ++ [input]).foldl next (startedThread 4096)) := by
    intro inputs input hrun hsafe
    rw [List.foldl_append]
    exact hrun.snoc ⟨hsafe, rfl⟩
  have hrequest := hstep [] (linkUp (firstPacket [1, 2, 3, 4]) 0) .nil rfl
  have hstart := hstep _ (linkUp [] 0) hrequest trivial
  have hattempt := hstep _ (linkUp [] 0) hstart trivial
  have hpacket := hstep _ (linkUp [] 10) hattempt safeHead_firstPacket
  exact ⟨_, by decide +kernel, written_mem_dataBuf rfl rfl hpacket⟩

end SpeakerFirmware.Ota.Bt
