/-
# Mixing a prompt into the music

`tts_manager_merge_mode.c` mixes a clip of 16-bit samples into the track buffers that the
playback asks for. An output frame has four bytes for each channel and takes one sample, so
that the clip is used up more slowly than the buffers are filled; the tests for its end
compare the two lengths all the same. What is written to the buffers is not modelled.
-/

import Mathlib.Data.UInt
import SpeakerFirmware.Lib.Runs

namespace SpeakerFirmware.System.TtsMerge

open List Runs

/-- `struct tts_manager_merge_ctx_t`; the clip is known by the numbers of its samples. -/
structure MergeCtx where
  running : Bool
  nextReadOffset : Nat
  totalLen : Nat
  stopCb : Bool
  channel : Nat
  deriving DecidableEq, Repr

/-- What a call does: the samples it uses, and whether it calls `stop_cb`. -/
structure Mixed where
  samples : List Nat
  stopped : Bool
  deriving DecidableEq, Repr

/-- The samples that `tts_merge_manager_mix_data` takes from a byte offset on. -/
def mixData (offset srcLen ch : Nat) : List Nat :=
  (range (srcLen / (4 * ch))).map (offset / 2 + ·)

/-- The end of a clip in `tts_merge_manager_mix`. -/
def MergeCtx.finish (ctx : MergeCtx) (samples : List Nat) : MergeCtx × Mixed :=
  ({ ctx with nextReadOffset := ctx.totalLen, totalLen := 0, stopCb := false },
    ⟨samples, ctx.stopCb⟩)

def ttsMergeManagerMix (ctx : MergeCtx) (len : Nat) : MergeCtx × Mixed :=
  let rest := (ctx.totalLen + 2 ^ 32 - ctx.nextReadOffset) % 2 ^ 32
  if ctx.nextReadOffset = ctx.totalLen then (ctx, ⟨[], false⟩)
  else if len > ctx.totalLen then ctx.finish (mixData 0 ctx.totalLen ctx.channel)
  else if rest ≥ len then
    ({ ctx with nextReadOffset := (ctx.nextReadOffset + (len >>> ctx.channel)) % 2 ^ 16 },
      ⟨mixData ctx.nextReadOffset len ctx.channel, false⟩)
  else ctx.finish (mixData ctx.nextReadOffset rest ctx.channel)

def ttsMergeManagerRequestMoreData (ctx : MergeCtx) (len : Nat) : MergeCtx × Mixed :=
  if ctx.running ∧ ctx.totalLen ≠ 0 then ttsMergeManagerMix ctx len else (ctx, ⟨[], false⟩)

/-- `tts_merge_manager_start` with a clip and a callback, on a track that is playing. -/
def ttsMergeManagerStart (length : Nat) (stereo : Bool) : MergeCtx :=
  ⟨true, 0, length % 2 ^ 16, true, if stereo then 2 else 1⟩

/-- The calls for a clip. -/
def playClip (length : Nat) (stereo : Bool) (requests : List Nat) : MergeCtx × List Mixed :=
  transduce (fun ctx len => single (ttsMergeManagerRequestMoreData ctx len))
    (ttsMergeManagerStart length stereo)
    requests

/-- All samples of the clip are used, each once and in order, and the end is reported once. -/
def MixedCompletely (length : Nat) (calls : List Mixed) : Prop :=
  calls.flatMap Mixed.samples = range (length / 2) ∧ calls.countP Mixed.stopped = 1

/-- Before the end the first samples have been used; at the end one is missing or is used twice. -/
def Progress (length ch : Nat) (ctx : MergeCtx) (calls : List Mixed) : Prop :=
  ctx.channel = ch ∧
    ((ctx.totalLen = length ∧ ctx.stopCb = true ∧ ctx.nextReadOffset ≤ length ∧
      2 ∣ ctx.nextReadOffset ∧
      calls.flatMap Mixed.samples = range (ctx.nextReadOffset / 2) ∧
        calls.countP Mixed.stopped = 0) ∨
    ctx.totalLen = 0 ∧ ¬ MixedCompletely length calls)

/-- A call uses as many samples as its offset moves on. -/
theorem range_append_mixData (offset len ch : Nat) :
    range (offset / 2) ++ mixData offset len ch = range (offset / 2 + len / (4 * ch)) := by
  rw [mixData, range_add]

section

variable {length ch len : Nat} {ctx : MergeCtx} {calls : List Mixed}

theorem Progress.silent (h : Progress length ch ctx calls) :
    Progress length ch ctx (calls ++ [⟨[], false⟩]) := by
  have hsamples : (calls ++ [Mixed.mk [] false]).flatMap Mixed.samples =
      calls.flatMap Mixed.samples := by simp
  have hstops : (calls ++ [Mixed.mk [] false]).countP Mixed.stopped = calls.countP Mixed.stopped :=
    by simp
  rwa [Progress, MixedCompletely, hsamples, hstops]

section

variable (hlength : 2 ∣ length) (hch : ch = 1 ∨ ch = 2) {offset : Nat} (hlt : offset < length)
  (heven : 2 ∣ offset)
include hlength hch hlt heven

/-- The samples that are left are more than the last call uses. -/
theorem not_complete_of_rest
    : range (offset / 2) ++ mixData offset (length - offset) ch ≠ range (length / 2) := by
  intro heq
  rw [range_append_mixData] at heq
  have hcount := congrArg List.length heq
  rw [length_range, length_range] at hcount
  rcases hch with rfl | rfl <;> omega

/-- A call that asks for more than the clip begins again at its first sample. -/
theorem not_complete_of_again : range (offset / 2) ++ mixData 0 length ch ≠ range (length / 2) := by
  intro heq
  rcases Nat.eq_zero_or_pos (offset / 2) with hzero | hpos
  · have hoffset : offset = 0 := by omega
    rw [hoffset] at heq
    exact not_complete_of_rest hlength hch (Nat.zero_lt_of_lt hlt) (Nat.dvd_zero 2) heq
  · have hcount := congrArg List.length heq
    have hfirst := congrArg (fun l => l[offset / 2]?) heq
    simp only [mixData, length_append, length_range, length_map] at hcount
    rw [getElem?_append_right (by simp), length_range, Nat.sub_self, mixData, getElem?_map,
      getElem?_range (by rcases hch with rfl | rfl <;> omega), getElem?_range (by omega)] at hfirst
    simp only [Option.map_some, Option.some.injEq] at hfirst
    omega

end

theorem progress_request (hlength : 2 ∣ length) (hle : length ≤ 65535) (hch : ch = 1 ∨ ch = 2)
    (h : Progress length ch ctx calls) (hdvd : 4 * ch ∣ len) :
    Progress length ch (ttsMergeManagerRequestMoreData ctx len).1
      (calls ++ [(ttsMergeManagerRequestMoreData ctx len).2]) := by
  unfold ttsMergeManagerRequestMoreData
  split
  swap
  · exact h.silent
  rename_i hplaying
  obtain ⟨hchannel, ⟨htotal, hcb, hoffset, heven, hused, hstops⟩ | ⟨htotal, -⟩⟩ := h
  swap
  · exact absurd htotal hplaying.2
  have hrest : (ctx.totalLen + 2 ^ 32 - ctx.nextReadOffset) % 2 ^ 32 =
      length - ctx.nextReadOffset := by omega
  unfold ttsMergeManagerMix
  dsimp only
  rw [hrest, htotal, hchannel]
  split
  · exact Progress.silent ⟨hchannel, .inl ⟨htotal, hcb, hoffset, heven, hused, hstops⟩⟩
  rename_i hnot
  have hlt : ctx.nextReadOffset < length := by omega
  split
  · refine ⟨hchannel, .inr ⟨rfl, fun hcomplete => not_complete_of_again hlength hch hlt heven ?_⟩⟩
    have hsamples := hcomplete.1
    rwa [flatMap_append, hused, flatMap_singleton] at hsamples
  split
  · rename_i hfits
    have hmoved : (ctx.nextReadOffset + len >>> ch) % 2 ^ 16 =
        ctx.nextReadOffset + 2 * (len / (4 * ch)) := by
      rw [Nat.shiftRight_eq_div_pow]
      rcases hch with rfl | rfl <;> omega
    refine ⟨rfl, .inl ⟨rfl, hcb, ?_, ?_, ?_, ?_⟩⟩
    · dsimp only
      rw [hmoved]
      rcases hch with rfl | rfl <;> omega
    · dsimp only
      omega
    · dsimp only
      rw [flatMap_append, hused, flatMap_singleton, range_append_mixData, hmoved]
      congr 1
      omega
    · simp [hstops]
  · refine ⟨hchannel, .inr ⟨rfl, fun hcomplete => not_complete_of_rest hlength hch hlt heven ?_⟩⟩
    have hsamples := hcomplete.1
    rwa [flatMap_append, hused, flatMap_singleton] at hsamples

end

/-- No clip is mixed completely: when its end is reported, samples are missing or used again. -/
theorem never_mixed_completely {length : Nat} (hlength : 2 ∣ length) (hle : length ≤ 65535)
    (stereo : Bool)
    {requests : List Nat} (hrequests : ∀ len ∈ requests, 4 * (if stereo then 2 else 1) ∣ len) :
    ¬ MixedCompletely length (playClip length stereo requests).2 := by
  have hch : (if stereo then 2 else 1) = 1 ∨ (if stereo then 2 else 1) = 2 :=
    by cases stereo <;> decide
  have hprogress : Progress length (if stereo then 2 else 1) (playClip length stereo requests).1
      (playClip length stereo requests).2 := by
    refine transduce_invariant (fun inputs ctx calls =>
        (∀ len ∈ inputs, 4 * (if stereo then 2 else 1) ∣ len) →
          Progress length (if stereo then 2 else 1) ctx calls)
      (fun _ => ?_) (fun inputs ctx calls len h hinputs => ?_) requests hrequests
    · exact ⟨rfl, .inl
        ⟨Nat.mod_eq_of_lt (by omega), rfl, Nat.zero_le _, Nat.dvd_zero _,
        by simp [ttsMergeManagerStart], rfl⟩⟩
    · refine progress_request hlength hle hch (h fun other hmem => ?_) (hinputs len (by simp))
      exact hinputs other (mem_append_left _ hmem)
  obtain ⟨-, ⟨-, -, -, -, -, hstops⟩ | ⟨-, hnot⟩⟩ := hprogress
  · intro hcomplete
    exact absurd (hstops.symm.trans hcomplete.2) (by decide)
  · exact hnot

theorem never_mixed_completely_mono : ¬ MixedCompletely 8 (playClip 8 false [4, 8, 4]).2 :=
  never_mixed_completely (by decide) (by decide) false (by decide)

/-- Eight bytes in mono, in buffers of four: the last of the four samples is not used. -/
theorem last_sample_lost :
    (playClip 8 false [4, 4, 4, 4, 4]).2 =
      [⟨[0], false⟩, ⟨[1], false⟩, ⟨[2], false⟩, ⟨[], true⟩, ⟨[], false⟩] := by
  decide

end SpeakerFirmware.System.TtsMerge
