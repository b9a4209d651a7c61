import Microgarbage.Audio.Pool

/-!
# The audio service

`audio_arbiter.c` and the request handling of `audio_service.c`: tracks that play pool objects,
music objects that pair an intro with a loop, and music slots, one per music stream that plays. The
arbiter's sink is the service itself. Each of track, music object and music slot holds references
on pool objects.

The mixer, the players and the files are outside: whether a file opens, whether a player can be
created and whether a channel has drained are given with each request. Gain and pan go to the mixer
only.
-/

namespace Microgarbage.Audio

open Lib

def audioArbiterMaxTracks : Nat := 16

def audioVoiceNone : Nat := 0

def musicHandleTag : Nat := 0x80000000

def musicMaxObjects : Nat := 16

def audioServiceMaxMusic : Nat := 3

def audioServiceFftMaxVms : Nat := 64

abbrev AudioVoiceHandle := Nat

inductive AudioArbResult
  | ok
  | rejected
  | badObject
  | badVoice
  | invalidArg
  deriving DecidableEq

inductive AudioVoiceKind
  | sfx
  | music
  deriving DecidableEq

structure AudioTrack where
  active : Bool
  object : AudioObjHandle
  kind : AudioVoiceKind
  ownerVm : Nat
  generation : Nat

structure AudioArbiter where
  tracks : Nat → AudioTrack
  generations : Nat → Nat
  trackCount : Nat
  activeCount : Nat

structure MusicObject where
  inUse : Bool
  intro : AudioObjHandle
  loop : AudioObjHandle
  ownerVm : Nat

/-- A music stream: the track it feeds, its kind of source, and the loop object it holds. -/
structure MusicSlot where
  inUse : Bool
  track : Nat
  isFile : Bool
  isFmv : Bool
  /-- `stream_ctx.handle[1]`. -/
  loop : AudioObjHandle

structure AudioService where
  pool : AudioPool
  arbiter : AudioArbiter
  musicObjs : Nat → MusicObject
  musicGen : Nat → Nat
  musicSlots : Nat → MusicSlot
  fftEnableCount : Nat
  fftVmOn : Nat → Bool
  /-- The capacity of the staging buffer, if there is one. -/
  staging : Option Nat
  /-- There is a file reader. -/
  fileReader : Bool

/-- What the outside answers when a voice is started. -/
structure SinkEnv where
  /-- `audio_file_stream_open`. -/
  fileOpens : Bool
  /-- `music_create`. -/
  playerCreated : Bool

variable (svc : AudioService)

def AudioService.setTrack (t : Nat) (track : AudioTrack) : AudioService :=
  { svc with arbiter := { svc.arbiter with
      tracks := fun i => if i = t then track else svc.arbiter.tracks i } }

def AudioService.setMusic (i : Nat) (mo : MusicObject) : AudioService :=
  { svc with musicObjs := fun j => if j = i then mo else svc.musicObjs j }

def AudioService.setSlot (i : Nat) (ms : MusicSlot) : AudioService :=
  { svc with musicSlots := fun j => if j = i then ms else svc.musicSlots j }

/-! ## Music handles -/

def packMusic (slot gen : Nat) : Nat :=
  musicHandleTag + gen % 32768 * 65536 + (slot + 1) % 32768

def isMusicHandle (h : Nat) : Bool := musicHandleTag ≤ h

def unpackMusic (h : Nat) : Option (Nat × Nat) :=
  if isMusicHandle h then
    let s := h % 32768
    if s = 0 then none else some (s - 1, h / 65536 % 32768)
  else none

def resolveMusic (h : AudioObjHandle) : Option Nat :=
  match unpackMusic h with
  | none => none
  | some (slot, gen) =>
    if slot < musicMaxObjects ∧ (svc.musicObjs slot).inUse ∧ svc.musicGen slot % 32768 = gen then
      some slot
    else none

def findFreeMusicSlot : Option Nat :=
  (List.range audioServiceMaxMusic).find? fun i => !(svc.musicSlots i).inUse

def musicSlotForTrack (track : Nat) : Option Nat :=
  (List.range audioServiceMaxMusic).find? fun i =>
    (svc.musicSlots i).inUse && (svc.musicSlots i).track = track

/-! ## References on a handle that may be `NONE` -/

/-- `if (h != NONE) audio_pool_ref(p, h)`. -/
def refIfAny (p : AudioPool) (h : AudioObjHandle) : AudioPoolResult × AudioPool :=
  if h = audioPoolHandleNone then (.ok, p) else audioPoolRef p h

/-- `if (h != NONE) audio_pool_unref(p, h, NULL)`. -/
def unrefIfAny (p : AudioPool) (h : AudioObjHandle) : AudioPool :=
  if h = audioPoolHandleNone then p else (audioPoolUnref p h).2.2

/-! ## The sink -/

/-- What a music voice is to play: `pend_loop`, `pend_is_stream`, `pend_is_fmv` and
`pend_is_pcm_stream` of the service. -/
inductive Pending
  | pool (loop : AudioObjHandle)
  | stream
  | fmv
  | pcmStream

/-- The pool-backed case of `svc_sink_start`: a reference on the loop for the duration. -/
def startPoolMusic (i track : Nat) (loop : AudioObjHandle) (env : SinkEnv) : Bool × AudioService :=
  let svc := svc.setSlot i { svc.musicSlots i with isFile := false }
  match refIfAny svc.pool loop with
  | (.ok, pool) =>
    let svc := { svc with pool := pool }.setSlot i { svc.musicSlots i with loop := loop }
    if env.playerCreated then
      (true, svc.setSlot i { svc.musicSlots i with track := track, inUse := true })
    else (false, { svc with pool := unrefIfAny svc.pool loop })
  | _ => (false, svc)

def svcSinkStart (track : Nat) (kind : AudioVoiceKind) (object : AudioObjHandle) (pend : Pending)
    (env : SinkEnv) : Bool × AudioService :=
  match kind with
  | .sfx => (audioPoolObjectSize svc.pool object ≠ 0, svc)
  | .music =>
    match pend with
    | .pcmStream => (true, svc)
    | .stream =>
      match findFreeMusicSlot svc with
      | none => (false, svc)
      | some i =>
        if svc.fileReader ∧ env.fileOpens then
          let svc := svc.setSlot i { svc.musicSlots i with isFile := true }
          if env.playerCreated then
            (true, svc.setSlot i { svc.musicSlots i with track := track, inUse := true })
          else (false, svc.setSlot i { svc.musicSlots i with isFile := false })
        else (false, svc)
    | .fmv =>
      match findFreeMusicSlot svc with
      | none => (false, svc)
      | some i =>
        let svc := svc.setSlot i { svc.musicSlots i with isFmv := true }
        if env.playerCreated then
          (true, svc.setSlot i { svc.musicSlots i with track := track, inUse := true })
        else (false, svc.setSlot i { svc.musicSlots i with isFmv := false })
    | .pool loop =>
      match findFreeMusicSlot svc with
      | none => (false, svc)
      | some i => startPoolMusic svc i track loop env

def svcSinkStop (track : Nat) : AudioService :=
  match musicSlotForTrack svc track with
  | none => svc
  | some i =>
    let ms := svc.musicSlots i
    if ms.isFmv then svc.setSlot i { ms with isFmv := false, inUse := false }
    else if ms.isFile then svc.setSlot i { ms with isFile := false, inUse := false }
    else { svc with pool := unrefIfAny svc.pool ms.loop }.setSlot i { ms with inUse := false }

/-! ## The arbiter -/

def packVoice (track gen : Nat) : Nat := gen * 65536 + (track + 1)

def unpackVoice (v : Nat) : Option (Nat × Nat) :=
  if v = audioVoiceNone then none
  else
    let t := v % 65536
    if t = 0 then none else some (t - 1, v / 65536)

/-- The arbiter's `resolve`: the live track a voice handle names. -/
def resolveVoice (a : AudioArbiter) (v : AudioVoiceHandle) : Option Nat :=
  match unpackVoice v with
  | none => none
  | some (track, gen) =>
    if track < a.trackCount ∧ (a.tracks track).active ∧ (a.tracks track).generation = gen then
      some track
    else none

def idleTrack : AudioTrack := ⟨false, audioPoolHandleNone, .sfx, 0, 0⟩

def audioArbiterInit (trackCount : Nat) : AudioArbiter :=
  ⟨fun _ => idleTrack, fun _ => 1, min trackCount audioArbiterMaxTracks, 0⟩

def findFreeTrack (a : AudioArbiter) : Option Nat :=
  (List.range a.trackCount).find? fun t => !(a.tracks t).active

/-- The end of a play: the voice occupies its track. -/
def claimTrack (t : Nat) (object : AudioObjHandle) (kind : AudioVoiceKind) (ownerVm : Nat) :
    AudioService :=
  let gen := svc.arbiter.generations t
  let svc := svc.setTrack t ⟨true, object, kind, ownerVm, gen⟩
  { svc with arbiter := { svc.arbiter with activeCount := svc.arbiter.activeCount + 1 } }

def audioArbiterPlay (object : AudioObjHandle) (kind : AudioVoiceKind) (ownerVm : Nat)
    (pend : Pending) (env : SinkEnv) : AudioArbResult × AudioVoiceHandle × AudioService :=
  if !audioPoolHandleValid svc.pool object then (.badObject, audioVoiceNone, svc)
  else
    match findFreeTrack svc.arbiter with
    | none => (.rejected, audioVoiceNone, svc)
    | some t =>
      match audioPoolRef svc.pool object with
      | (.ok, pool) =>
        match svcSinkStart { svc with pool := pool } t kind object pend env with
        | (false, svc) =>
          (.rejected, audioVoiceNone, { svc with pool := (audioPoolUnref svc.pool object).2.2 })
        | (true, svc) =>
          (.ok, packVoice t (svc.arbiter.generations t), claimTrack svc t object kind ownerVm)
      | _ => (.badObject, audioVoiceNone, svc)

def audioArbiterPlayExternal (ownerVm : Nat) (pend : Pending) (env : SinkEnv) :
    AudioArbResult × AudioVoiceHandle × AudioService :=
  match findFreeTrack svc.arbiter with
  | none => (.rejected, audioVoiceNone, svc)
  | some t =>
    match svcSinkStart svc t .music audioPoolHandleNone pend env with
    | (false, svc) => (.rejected, audioVoiceNone, svc)
    | (true, svc) =>
      (.ok, packVoice t (svc.arbiter.generations t),
        claimTrack svc t audioPoolHandleNone .music ownerVm)

/-- The track, its music slot and their references are released. -/
def stopTrack (t : Nat) : AudioService :=
  let track := svc.arbiter.tracks t
  if track.active then
    let svc := svcSinkStop svc t
    let svc := { svc with pool := unrefIfAny svc.pool track.object }.setTrack t idleTrack
    { svc with arbiter := { svc.arbiter with
        generations := setBlock svc.arbiter.generations t
          (nextGeneration (svc.arbiter.generations t))
        activeCount := svc.arbiter.activeCount - 1 } }
  else svc

def audioArbiterStop (voice : AudioVoiceHandle) : AudioArbResult × AudioService :=
  match resolveVoice svc.arbiter voice with
  | none => (.badVoice, svc)
  | some t => (.ok, stopTrack svc t)

/-- One turn of the loop of `audio_arbiter_reap`. -/
def reapTrack (isDone : Nat → Bool) (svc : AudioService) (t : Nat) : AudioService :=
  if (svc.arbiter.tracks t).active ∧ (svc.arbiter.tracks t).kind = .sfx ∧ isDone t then
    stopTrack svc t
  else svc

def audioArbiterReap (isDone : Nat → Bool) : AudioService :=
  (List.range svc.arbiter.trackCount).foldl (reapTrack isDone) svc

/-- One turn of the loop of `audio_arbiter_sweep_vm`. -/
def sweepTrack (ownerVm : Nat) (svc : AudioService) (t : Nat) : AudioService :=
  if (svc.arbiter.tracks t).active ∧ (svc.arbiter.tracks t).ownerVm = ownerVm then stopTrack svc t
  else svc

def audioArbiterSweepVm (ownerVm : Nat) : AudioService :=
  (List.range svc.arbiter.trackCount).foldl (sweepTrack ownerVm) svc

/-! ## Requests -/

def audioServiceCreate (pool : AudioPool) (trackCount : Nat) (staging : Option Nat)
    (fileReader : Bool) : AudioService where
  pool := pool
  arbiter := audioArbiterInit (if trackCount = 0 then 16 else trackCount)
  musicObjs := fun _ => ⟨false, audioPoolHandleNone, audioPoolHandleNone, 0⟩
  musicGen := fun _ => 1
  musicSlots := fun _ => ⟨false, 0, false, false, audioPoolHandleNone⟩
  fftEnableCount := 0
  fftVmOn := fun _ => false
  staging := staging
  fileReader := fileReader

def audioServiceSweepVm (vmId : Nat) : AudioService :=
  let svc := audioArbiterSweepVm svc vmId
  let svc := { svc with pool := audioPoolSweepVm svc.pool vmId }
  if vmId < audioServiceFftMaxVms ∧ svc.fftVmOn vmId then
    { svc with
      fftVmOn := fun vm => if vm = vmId then false else svc.fftVmOn vm
      fftEnableCount := svc.fftEnableCount - 1 }
  else svc

/-- The music branch of `REQ_AUDIO_POOL_FREE`: the object drops its references. -/
def freeMusic (slot : Nat) : AudioService :=
  let mo := svc.musicObjs slot
  let pool := unrefIfAny (audioPoolUnref svc.pool mo.intro).2.2 mo.loop
  let gen := (svc.musicGen slot + 1) % 32768
  { svc with
    pool := pool
    musicGen := setBlock svc.musicGen slot (if gen = 0 then 1 else gen) }.setMusic slot
      { mo with inUse := false }

def loadMusic (intro loop : AudioObjHandle) (ownerVm : Nat) :
    AudioPoolResult × AudioObjHandle × AudioService :=
  if !audioPoolHandleValid svc.pool intro then (.errBadHandle, 0, svc)
  else if loop ≠ audioPoolHandleNone ∧ !audioPoolHandleValid svc.pool loop then
    (.errBadHandle, 0, svc)
  else
    match (List.range musicMaxObjects).find? fun i => !(svc.musicObjs i).inUse with
    | none => (.errNoObjects, 0, svc)
    | some slot =>
      let pool := (refIfAny (audioPoolRef svc.pool intro).2 loop).2
      (.ok, packMusic slot (svc.musicGen slot),
        { svc with pool := pool }.setMusic slot ⟨true, intro, loop, ownerVm⟩)

def fftEnable (vm : Nat) (want : Bool) : AudioService :=
  let count := if want then svc.fftEnableCount + 1 else svc.fftEnableCount - 1
  if vm < audioServiceFftMaxVms then
    if want ≠ svc.fftVmOn vm then
      { svc with
        fftVmOn := fun v => if v = vm then want else svc.fftVmOn v
        fftEnableCount := count }
    else svc
  else { svc with fftEnableCount := count }

/-- The requests of the service that touch pool, arbiter, music or meter, with their arguments;
`quiet` stands for those that only drive the mixer or read the meter. -/
inductive AudioRequest
  | poolAlloc (size ownerVm : Nat)
  | poolFree (h : AudioObjHandle)
  | loadSample (size ownerVm : Nat)
  | triggerSfx (object : AudioObjHandle) (ownerVm : Nat)
  | loadMusic (intro loop : AudioObjHandle) (ownerVm : Nat)
  | playMusic (h : AudioObjHandle) (ownerVm : Nat)
  | streamWav (len ownerVm : Nat)
  | loadStaged (size ownerVm sampleRate : Nat) (pcm : List Byte)
  | fftEnable (vm : Nat) (want : Bool)
  | voiceStop (voice : AudioVoiceHandle)
  | sweepVm (vmId : Nat)
  | pcmStreamOpen (rate channels ownerVm : Nat)
  | fmvOpen (ownerVm : Nat)
  | quiet

/-- The status of a response. -/
inductive AudioStatus
  | pool (r : AudioPoolResult)
  | arb (r : AudioArbResult)
  deriving DecidableEq

structure AudioResponse where
  status : AudioStatus
  handle : Nat
  deriving DecidableEq

def poolFree (h : AudioObjHandle) : AudioResponse × AudioService :=
  if isMusicHandle h then
    match resolveMusic svc h with
    | none => (⟨.pool .errBadHandle, 0⟩, svc)
    | some slot => (⟨.pool .ok, 1⟩, freeMusic svc slot)
  else
    let (r, freed, pool) := audioPoolUnref svc.pool h
    (⟨.pool r, if freed then 1 else 0⟩, { svc with pool := pool })

/-- `respond` for an allocation. -/
def allocated (res : AudioPoolResult × AudioObjHandle × AudioPool) : AudioResponse × AudioService :=
  (⟨.pool res.1, if res.1 = .ok then res.2.1 else 0⟩, { svc with pool := res.2.2 })

/-- `respond` for a play. -/
def played (res : AudioArbResult × AudioVoiceHandle × AudioService) :
    AudioResponse × AudioService :=
  (⟨.arb res.1, if res.1 = .ok then res.2.1 else 0⟩, res.2.2)

/-- A staged load: an object of `size` bytes, filled from the staging buffer, which holds `pcm`. -/
def loadStaged (size ownerVm sampleRate : Nat) (pcm : List Byte) : AudioResponse × AudioService :=
  if size = 0 ∨ svc.staging.all (· < size) then (⟨.pool .errInvalidArg, 0⟩, svc)
  else
    match audioPoolAllocWithRate svc.pool size ownerVm sampleRate with
    | (.ok, h, pool) =>
      (⟨.pool .ok, h⟩, { svc with pool := (audioPoolWrite pool h 0 (pcm.take size)).2.2 })
    | (r, _, pool) => (⟨.pool r, 0⟩, { svc with pool := pool })

/-- `handle_one`. VM ids are 16 bits. -/
def handleOne (env : SinkEnv) : AudioRequest → AudioResponse × AudioService
  | .poolAlloc size ownerVm | .loadSample size ownerVm =>
    allocated svc (audioPoolAlloc svc.pool size (ownerVm % 65536))
  | .poolFree h => poolFree svc h
  | .triggerSfx object ownerVm =>
    played (audioArbiterPlay svc object .sfx (ownerVm % 65536) (.pool audioPoolHandleNone) env)
  | .loadMusic intro loop ownerVm =>
    let (r, h, svc) := loadMusic svc intro loop (ownerVm % 65536)
    (⟨.pool r, h⟩, svc)
  | .playMusic h ownerVm =>
    match resolveMusic svc h with
    | none => (⟨.arb .badObject, 0⟩, svc)
    | some slot =>
      let mo := svc.musicObjs slot
      played (audioArbiterPlay svc mo.intro .music (ownerVm % 65536) (.pool mo.loop) env)
  | .streamWav len ownerVm =>
    if svc.staging.all (· < len) ∨ !svc.fileReader ∨ len = 0 then (⟨.arb .invalidArg, 0⟩, svc)
    else played (audioArbiterPlayExternal svc (ownerVm % 65536) .stream env)
  | .loadStaged size ownerVm sampleRate pcm =>
    loadStaged svc size (ownerVm % 65536) sampleRate pcm
  | .fftEnable vm want => (⟨.arb .ok, 0⟩, fftEnable svc vm want)
  | .voiceStop voice =>
    let (r, svc) := audioArbiterStop svc voice
    (⟨.arb r, 0⟩, svc)
  | .sweepVm vmId => (⟨.arb .ok, 0⟩, audioServiceSweepVm svc (vmId % 65536))
  | .pcmStreamOpen rate channels ownerVm =>
    if rate < 8000 ∨ channels ≠ 2 then (⟨.arb .invalidArg, 0⟩, svc)
    else played (audioArbiterPlayExternal svc (ownerVm % 65536) .pcmStream env)
  | .fmvOpen ownerVm => played (audioArbiterPlayExternal svc (ownerVm % 65536) .fmv env)
  | .quiet => (⟨.arb .ok, 0⟩, svc)

/-- `audio_service_fft_hold`. -/
def audioServiceFftHold (on : Bool) : AudioService :=
  { svc with fftEnableCount := if on then svc.fftEnableCount + 1 else svc.fftEnableCount - 1 }

end Microgarbage.Audio
