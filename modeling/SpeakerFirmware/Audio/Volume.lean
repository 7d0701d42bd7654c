/-
# Setting the volume

`system_volume_set` tells the phone, the amplifier, the ESD record and the TWS slave about a new
volume, and `audio_system_set_stream_volume` stores it. Both limit a request, but under different
conditions, so that what is told and what is stored can be two values.

The saved settings, the volumes of the tracks and the fading of the player are not modelled; all
the options of the code are on.
-/

import Mathlib.Data.UInt

namespace SpeakerFirmware.Audio

/-- `audio_stream_type_e`. -/
inductive StreamType
  | default | music | localMusic | tts | voice | linein | lineinMix | subwoofer | asr | ai | usound
  | usoundMix | uspeaker | i2srxIn | spdifIn | generateIn | generateOut | localRecord | gmaRecord
  | backgroundRecord | micIn | fm
  | tws | okmic | okmicFm | okmicLineIn | leAudio | soundbar | bmr
  deriving DecidableEq, Repr

/-- The volumes of `struct audio_system_t`. -/
structure AudioSystem where
  masterVolume : Nat
  ttsVolume : Nat
  musicVolume : Nat
  voiceVolume : Nat
  lineinVolume : Nat
  fmVolume : Nat
  i2srxInVolume : Nat
  micInVolume : Nat
  spidfInVolume : Nat
  usoundVolume : Nat
  lcmusicVolume : Nat
  maxVolume : Nat
  minVolume : Nat
  leaVolume : Nat
  bmrVolume : Nat
  deriving DecidableEq, Repr

/-- What the functions ask the rest of the system: the policy, the players and the tracks. -/
structure Playback where
  volumeLevel : UInt8
  ttsFixedVolume : Bool
  track : Option StreamType
  player : Bool
  hasTrack : StreamType → Bool
  ampDev : Bool

/-- The limits at the start of `audio_system_set_stream_volume`. -/
def limitVolume (p : Playback) (stream : StreamType) (volume : Int) : Nat :=
  let volume := if volume ≥ p.volumeLevel.toNat then (p.volumeLevel.toNat : Int) else volume
  let volume := if stream = .usound ∧ volume ≥ 16 then 16 else volume
  (if volume ≤ 0 then 0 else volume).toNat

def limitTts (a : AudioSystem) (volume : Nat) : Nat :=
  let volume := if volume < a.minVolume then a.minVolume else volume
  if volume > a.maxVolume then a.maxVolume else volume

variable (p : Playback) (a : AudioSystem) (stream : StreamType)

def audioSystemSetStreamVolume (request : Int) : AudioSystem :=
  let volume := limitVolume p stream request
  let put (streams : List StreamType) (old : Nat) := if stream ∈ streams then volume else old
  { a with
    voiceVolume := put [.voice] a.voiceVolume
    leaVolume := put [.leAudio] a.leaVolume
    bmrVolume := put [.bmr] a.bmrVolume
    musicVolume := put [.music, .default, .soundbar] a.musicVolume
    lineinVolume := put [.linein, .default] a.lineinVolume
    usoundVolume := put [.usound, .default] a.usoundVolume
    lcmusicVolume := put [.localMusic, .default] a.lcmusicVolume
    fmVolume := put [.fm, .default] a.fmVolume
    i2srxInVolume := put [.i2srxIn, .default] a.i2srxInVolume
    micInVolume := put [.micIn, .default] a.micInVolume
    spidfInVolume := put [.spdifIn, .default] a.spidfInVolume
    masterVolume := if stream ≠ .voice then volume else a.masterVolume
    ttsVolume := if stream ≠ .voice ∧ p.ttsFixedVolume = false then limitTts a volume
      else a.ttsVolume }

def audioSystemGetStreamVolume (a : AudioSystem) : StreamType → Nat
  | .music | .soundbar => a.musicVolume
  | .leAudio => a.leaVolume
  | .bmr => a.bmrVolume
  | .tts => a.ttsVolume
  | .voice => a.voiceVolume
  | .linein => a.lineinVolume
  | .usound => a.usoundVolume
  | .localMusic => a.lcmusicVolume
  | .fm => a.fmVolume
  | .i2srxIn => a.i2srxInVolume
  | .spdifIn => a.spidfInVolume
  | _ => a.masterVolume

def systemVolumeGetMapStreamType : StreamType :=
  if stream = .music ∧ p.track = some .soundbar then .soundbar else stream

/-- The request as `system_volume_set` passes it on. -/
def passedVolume (request : Int) : Int :=
  let level : Int := p.volumeLevel.toNat
  if p.player ∧ p.hasTrack stream then if request ≤ 0 then 0 else if request ≥ level then level
    else request
  else request

/-- Whom `system_volume_set` tells about a volume. -/
inductive Listener
  | amp | bt | esd | tws | ui
  deriving DecidableEq, Repr

/-- The calls for a new volume; `volume & 0xff` and `(u8_t)volume` are its low byte. -/
def tellVolume (volume : Int) : List (Listener × Int) :=
  let amp := if stream ∈ [.music, .voice, .tts, .linein, .usound, .leAudio, .localMusic] ∧
    p.ampDev then
    [(Listener.amp, volume % 256)] else []
  let bt := if stream ∈ [.soundbar, .music, .voice, .leAudio] then [(Listener.bt, volume)] else []
  amp ++ bt ++ [(.esd, volume % 256), (.tws, volume)]

/-- The value that is returned, the volumes that are stored, and the values that are told. -/
structure VolumeSet where
  ret : Int
  system : AudioSystem
  told : List (Listener × Int)

def systemVolumeSet (p : Playback) (a : AudioSystem) (streamType : StreamType) (request : Int)
    (display : Bool) :
    VolumeSet :=
  let oldVolume := audioSystemGetStreamVolume a streamType
  let stream := systemVolumeGetMapStreamType p streamType
  let volume := passedVolume p stream request
  let system := audioSystemSetStreamVolume p a stream volume
  let ui (ret : Int) := if display then [(Listener.ui, ret)] else []
  if oldVolume = audioSystemGetStreamVolume system stream then ⟨oldVolume, system, ui oldVolume⟩
  else ⟨volume, system, tellVolume p stream volume ++ ui volume⟩

def systemVolumeDown (decrement : Int) : VolumeSet :=
  systemVolumeSet p a stream (audioSystemGetStreamVolume a stream - decrement) true

def systemVolumeUp (increment : Int) : VolumeSet :=
  systemVolumeSet p a stream (audioSystemGetStreamVolume a stream + increment) true

/-! ## What is stored and what is told -/

/-- All that is told and returned is the volume that is stored, and that is in the range of the
policy. -/
structure Reports (p : Playback) (stream : StreamType) (result : VolumeSet) : Prop where
  ret : result.ret = audioSystemGetStreamVolume result.system stream
  told : ∀ listener value, (listener, value) ∈ result.told →
    value = audioSystemGetStreamVolume result.system stream
  level : audioSystemGetStreamVolume result.system stream ≤ p.volumeLevel.toNat

/-- The volume that a request leads to. -/
def storedVolume (request : Int) : Nat :=
  if stream = .tts then
    if p.ttsFixedVolume then a.ttsVolume else limitTts a (limitVolume p stream request)
  else limitVolume p stream request

/-- The request is in the range of the stream; with a player and a track only the limits that
`system_volume_set` does not know matter. -/
def Allowed (request : Int) : Prop :=
  (p.player = true ∧ p.hasTrack stream = true ∨ 0 ≤ request ∧ request ≤ p.volumeLevel.toNat) ∧
    (stream = .usound → request ≤ 16 ∨ p.volumeLevel.toNat ≤ 16) ∧
    (stream = .tts → limitTts a (limitVolume p stream request) = limitVolume p stream request)

section

variable (p : Playback) (a : AudioSystem) (stream : StreamType) (request : Int)

theorem get_set :
    audioSystemGetStreamVolume (audioSystemSetStreamVolume p a stream request) stream =
      storedVolume p a stream request := by
  cases stream <;> simp [audioSystemSetStreamVolume, audioSystemGetStreamVolume, storedVolume]
  cases p.ttsFixedVolume <;> rfl

theorem stored_passed :
    storedVolume p a stream (passedVolume p stream request) = storedVolume p a stream request := by
  have hlimit : limitVolume p stream (passedVolume p stream request) =
      limitVolume p stream request := by
    unfold limitVolume passedVolume
    grind
  simp only [storedVolume, hlimit]

theorem get_map :
    audioSystemGetStreamVolume a (systemVolumeGetMapStreamType p stream) =
      audioSystemGetStreamVolume a stream := by
  unfold systemVolumeGetMapStreamType
  split
  · rename_i h
    rw [h.1]
    rfl
  · rfl

end

variable {p : Playback} {a : AudioSystem} {stream : StreamType} {request : Int}

/-- What is passed on is what is stored if the request is allowed. -/
theorem passed_eq_stored_iff
    (hlevel : storedVolume p a stream request ≤ p.volumeLevel.toNat)
    (hfixed : stream = .tts → p.ttsFixedVolume = false) :
    passedVolume p stream request = storedVolume p a stream request ↔
      Allowed p a stream request := by
  unfold passedVolume Allowed storedVolume limitVolume at *
  grind

theorem value_of_told {volume value : Int} {listener : Listener}
    (h : (listener, value) ∈ tellVolume p stream volume) : value = volume ∨
      value = volume % 256 := by
  unfold tellVolume at h
  dsimp only at h
  split_ifs at h <;>
    simp only [List.mem_append, List.mem_cons, List.not_mem_nil, Prod.mk.injEq] at h <;> grind

/-- The values are the stored one if and only if that is in the range of the policy, and the request
changes nothing or is allowed for the stream. -/
theorem reports_iff_stored (p : Playback) (a : AudioSystem) (streamType : StreamType)
    (request : Int) (display : Bool) :
    Reports p (systemVolumeGetMapStreamType p streamType)
      (systemVolumeSet p a streamType request display) ↔
      storedVolume p a (systemVolumeGetMapStreamType p streamType) request ≤ p.volumeLevel.toNat ∧
        (storedVolume p a (systemVolumeGetMapStreamType p streamType) request =
            audioSystemGetStreamVolume a streamType ∨
          Allowed p a (systemVolumeGetMapStreamType p streamType) request) := by
  have hold := get_map p a streamType
  unfold systemVolumeSet
  dsimp only
  generalize systemVolumeGetMapStreamType p streamType = stream at hold ⊢
  have hnew : audioSystemGetStreamVolume
      (audioSystemSetStreamVolume p a stream (passedVolume p stream request))
      stream = storedVolume p a stream request := (get_set ..).trans (stored_passed ..)
  split
  · rename_i heq
    rw [hnew] at heq
    constructor
    · intro h
      exact ⟨hnew ▸ h.level, .inl heq.symm⟩
    · rintro ⟨hlevel, -⟩
      refine ⟨by dsimp only; omega, fun listener value hmem => ?_, by dsimp only; omega⟩
      split at hmem
      · simp only [List.mem_singleton, Prod.mk.injEq] at hmem
        dsimp only
        omega
      · cases hmem
  · rename_i hne
    rw [hnew] at hne
    have hfixed : stream = .tts → p.ttsFixedVolume = false := by
      rintro rfl
      by_contra hfix
      rw [storedVolume, if_pos rfl, if_pos (by simpa using hfix)] at hne
      exact hne hold.symm
    constructor
    · intro h
      have hlevel : storedVolume p a stream request ≤ p.volumeLevel.toNat := hnew ▸ h.level
      exact ⟨hlevel, .inr ((passed_eq_stored_iff hlevel hfixed).mp (h.ret.trans (by rw [hnew])))⟩
    · rintro ⟨hlevel, heq | hallowed⟩
      · exact absurd heq.symm hne
      have hpassed := (passed_eq_stored_iff hlevel hfixed).mpr hallowed
      have hbyte := p.volumeLevel.toNat_lt
      refine ⟨by dsimp only; omega, fun listener value hmem => ?_, by dsimp only; omega⟩
      dsimp only at hmem ⊢
      rw [hnew]
      rcases List.mem_append.mp hmem with hmem | hmem
      · rcases value_of_told hmem with hvalue | hvalue <;> omega
      · split at hmem
        · simp only [List.mem_singleton, Prod.mk.injEq] at hmem
          omega
        · cases hmem

/-! ## The requests that are reported -/

/-- `system_volume_set` limits a request only if there is a player and a track for it. -/
def Limits (p : Playback) (stream : StreamType) : Prop :=
  p.player = true ∧ p.hasTrack stream = true

/-- The highest volume of a stream. -/
def topVolume (p : Playback) (stream : StreamType) : Nat :=
  if stream = .usound then min 16 p.volumeLevel.toNat else p.volumeLevel.toNat

/-- A request for a stream with the volume `old` that is reported as it is stored: one in the range
of the stream, one outside that both functions bring to the same end of it, or one that changes
nothing. -/
def InStreamRange (p : Playback) (stream : StreamType) (old : Nat) (request : Int) : Prop :=
  0 ≤ request ∧ request ≤ topVolume p stream ∨
    request < 0 ∧ (Limits p stream ∨ old = 0) ∨
    request > topVolume p stream ∧
      (Limits p stream ∧ topVolume p stream = p.volumeLevel.toNat ∨ old = topVolume p stream)

/-- A request for the TTS volume. If it is fixed, it has to be in the range of the policy; if not, a
bound of the volume has to be, and the request has to change nothing or to be one that is kept
by the policy and by the bounds. -/
def InTtsRange (p : Playback) (a : AudioSystem) (request : Int) : Prop :=
  let level : Int := p.volumeLevel.toNat
  let volume := min (max request 0) level
  if p.ttsFixedVolume then a.ttsVolume ≤ level
  else
    (a.minVolume ≤ level ∨ a.maxVolume ≤ level) ∧
      (min (max volume a.minVolume) a.maxVolume = a.ttsVolume ∨
        (Limits p .tts ∨ request = volume) ∧ volume ≤ a.maxVolume ∧
          (a.minVolume ≤ volume ∨ volume = a.maxVolume))

/-- The requests for a stream that are reported as they are stored. -/
def Reportable (p : Playback) (a : AudioSystem) (stream : StreamType) (request : Int) : Prop :=
  if stream = .tts then InTtsRange p a request
  else InStreamRange p stream (audioSystemGetStreamVolume a stream) request

theorem inTtsRange_iff :
    InTtsRange p a request ↔ storedVolume p a .tts request ≤ p.volumeLevel.toNat ∧
      (storedVolume p a .tts request = a.ttsVolume ∨ Allowed p a .tts request) := by
  unfold InTtsRange storedVolume Allowed limitTts limitVolume Limits
  cases p.ttsFixedVolume <;> grind

theorem inStreamRange_iff {old : Nat} (hstream : stream ≠ .tts) :
    InStreamRange p stream old request ↔ storedVolume p a stream request ≤ p.volumeLevel.toNat ∧
      (storedVolume p a stream request = old ∨ Allowed p a stream request) := by
  unfold InStreamRange storedVolume Allowed limitVolume Limits topVolume
  rw [if_neg hstream]
  by_cases husound : stream = .usound
  · subst husound
    grind
  · grind

theorem reportable_iff :
    Reportable p a stream request ↔ storedVolume p a stream request ≤ p.volumeLevel.toNat ∧
      (storedVolume p a stream request = audioSystemGetStreamVolume a stream ∨
        Allowed p a stream request) := by
  unfold Reportable
  split
  · rename_i htts
    subst htts
    exact inTtsRange_iff
  · rename_i hstream
    exact inStreamRange_iff hstream

/-- What is returned and told is the stored volume, and that is in the range of the policy, if and
only if the request is one that `system_volume_set` and `audio_system_set_stream_volume` treat
alike. The requests of `system_volume_up` and `system_volume_down` are those for the volume
before, more or less the step. -/
theorem volume_reported_iff (p : Playback) (a : AudioSystem) (streamType : StreamType) :
    let stream := systemVolumeGetMapStreamType p streamType
    let old : Int := audioSystemGetStreamVolume a streamType
    (∀ request display, Reports p stream (systemVolumeSet p a streamType request display) ↔
        Reportable p a stream request) ∧
      (∀ increment, Reports p stream (systemVolumeUp p a streamType increment) ↔
        Reportable p a stream (old + increment)) ∧
      ∀ decrement, Reports p stream (systemVolumeDown p a streamType decrement) ↔
        Reportable p a stream (old - decrement) := by
  intro stream old
  have hset : ∀ request display, Reports p stream (systemVolumeSet p a streamType request display) ↔
      Reportable p a stream request := by
    intro request display
    rw [reports_iff_stored, reportable_iff, get_map]
  exact ⟨hset, fun increment => hset _ true, fun decrement => hset _ true⟩

/-- A level of 31 and no player: a request for 40 is told to the phone, and 31 is stored. -/
theorem request_told_unlimited :
    let result := systemVolumeSet ⟨31, true, none, false, fun _ => false, true⟩
      ⟨5, 5, 5, 5, 5, 5, 5, 5, 5, 5, 5, 31, 0, 5, 5⟩ .music 40 true
    result.ret = 40 ∧ (.bt, 40) ∈ result.told ∧
      audioSystemGetStreamVolume result.system .music = 31 := by
  decide

end SpeakerFirmware.Audio
