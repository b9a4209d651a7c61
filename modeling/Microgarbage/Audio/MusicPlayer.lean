import Microgarbage.Lib.Slice

/-!
# The music player

`music_player.c`: a player that feeds one mixer channel with an intro, played once, and a loop,
played until stopped. Each segment starts with the frames of its pinned head, fetched in advance,
and goes on with frames pulled from the stream callback through a streaming buffer.

Frames are of any type; a buffer is a function from positions to frames. The callback may answer
differently at every call, so each function that calls it takes it as an argument. Pointers other
than the two heads are never `NULL` here, and the samples counts are naturals.
-/

namespace Microgarbage.Audio

open Lib

variable {φ : Type*}

/-! ## The mixer channel -/

/-- One channel of the mixer: the ring of frames that wait to be played, oldest first. -/
structure MixerChannel (φ : Type*) where
  capacity : Nat
  ring : List φ
  active : Bool
  /-- Every frame ever pushed to the ring, oldest first. -/
  pushed : List φ

variable (c : MixerChannel φ)

/-- `rb_push`: on a full ring the oldest frame is overwritten. -/
def rbPush (frame : φ) : MixerChannel φ :=
  { c with
    ring := if c.ring.length = c.capacity then c.ring.tail ++ [frame] else c.ring ++ [frame]
    pushed := c.pushed ++ [frame] }

def mixerWriteChannel (samples : List φ) : MixerChannel φ :=
  samples.foldl rbPush c

def mixerChannelBuffered : Nat := c.ring.length

def mixerChannelStart : MixerChannel φ := { c with active := true }

def mixerChannelStop : MixerChannel φ := { c with active := false }

def mixerChannelReset : MixerChannel φ := { c with active := false, ring := [] }

/-- The mixer renders: an active channel loses up to `n` frames from the front of its ring. -/
def mixerRender (n : Nat) : MixerChannel φ :=
  if c.active then { c with ring := c.ring.drop n } else c

/-! ## Configuration and state -/

def musicStreamNone : Int := -1

/-- The stream callback: stream id, requested samples and offset to the samples it provides. -/
abbrev MusicStreamFn (φ : Type*) := Int → Nat → Nat → List φ

inductive MusicState
  | stopped
  | playingIntro
  | playingLoop
  | paused
  deriving DecidableEq

inductive CurrentSegment
  | none
  | intro
  | loop
  deriving DecidableEq

structure MusicPlayerConfig (φ : Type*) where
  introStreamId : Int
  loopStreamId : Int
  streamingBufferSamples : Nat
  /-- 0 fills the channel to its capacity. -/
  maxChannelFillSamples : Nat
  introHeadBuffer : Option (Nat → φ)
  introHeadSamples : Nat
  loopHeadBuffer : Option (Nat → φ)
  loopHeadSamples : Nat

structure MusicPlayer (φ : Type*) where
  cfg : MusicPlayerConfig φ
  channel : MixerChannel φ
  /-- What `cfg.streaming_buffer` points to. -/
  streamingBuffer : Nat → φ
  state : MusicState
  segment : CurrentSegment
  segmentOffset : Nat
  pinnedRemaining : Nat
  streamingCount : Nat
  streamingReadPos : Nat

def validateConfig (cfg : MusicPlayerConfig φ) : Bool :=
  cfg.streamingBufferSamples ≠ 0 &&
  !(cfg.introStreamId = musicStreamNone && cfg.loopStreamId = musicStreamNone) &&
  !(cfg.introHeadBuffer.isSome && cfg.introHeadSamples = 0) &&
  !(cfg.loopHeadBuffer.isSome && cfg.loopHeadSamples = 0) &&
  cfg.introHeadSamples ≤ cfg.streamingBufferSamples &&
  cfg.loopHeadSamples ≤ cfg.streamingBufferSamples

def musicCreate (cfg : MusicPlayerConfig φ) (channel : MixerChannel φ)
    (streamingBuffer : Nat → φ) : Option (MusicPlayer φ) :=
  if validateConfig cfg then
    some ⟨cfg, channel, streamingBuffer, .stopped, .none, 0, 0, 0, 0⟩
  else none

/-! ## Pinning the heads -/

/-- The head after priming, and whether `prime_head` returns 0. -/
def primeHead (fn : MusicStreamFn φ) (streamId : Int) (headBuf : Option (Nat → φ))
    (headSamples : Nat) : Option (Nat → φ) × Bool :=
  match headBuf with
  | none => (none, true)
  | some buf =>
    if headSamples = 0 ∨ streamId = musicStreamNone then (some buf, true)
    else
      let got := fn streamId headSamples 0
      (some (splice buf 0 got), got.length = headSamples)

def musicPrimeIntro (mp : MusicPlayer φ) (fn : MusicStreamFn φ) : MusicPlayer φ × Bool :=
  let primed := primeHead fn mp.cfg.introStreamId mp.cfg.introHeadBuffer mp.cfg.introHeadSamples
  ({ mp with cfg := { mp.cfg with introHeadBuffer := primed.1 } }, primed.2)

def musicPrimeLoop (mp : MusicPlayer φ) (fn : MusicStreamFn φ) : MusicPlayer φ × Bool :=
  let primed := primeHead fn mp.cfg.loopStreamId mp.cfg.loopHeadBuffer mp.cfg.loopHeadSamples
  ({ mp with cfg := { mp.cfg with loopHeadBuffer := primed.1 } }, primed.2)

/-! ## Segments -/

def currentSegmentStreamId (cfg : MusicPlayerConfig φ) : CurrentSegment → Int
  | .intro => cfg.introStreamId
  | .loop => cfg.loopStreamId
  | .none => musicStreamNone

def currentPinnedBuffer (cfg : MusicPlayerConfig φ) : CurrentSegment → Option (Nat → φ)
  | .intro => cfg.introHeadBuffer
  | .loop => cfg.loopHeadBuffer
  | .none => none

def currentPinnedSize (cfg : MusicPlayerConfig φ) : CurrentSegment → Nat
  | .intro => cfg.introHeadSamples
  | .loop => cfg.loopHeadSamples
  | .none => 0

/-- The frames a segment has in its head: none without a buffer. -/
def headFrames (cfg : MusicPlayerConfig φ) (seg : CurrentSegment) : Nat :=
  if (currentPinnedBuffer cfg seg).isSome then currentPinnedSize cfg seg else 0

def enterSegment (mp : MusicPlayer φ) (seg : CurrentSegment) : MusicPlayer φ :=
  { mp with
    segment := seg
    segmentOffset := 0
    streamingCount := 0
    streamingReadPos := 0
    pinnedRemaining := headFrames mp.cfg seg }

/-! ## Playback control -/

def musicResume (mp : MusicPlayer φ) : MusicPlayer φ :=
  if mp.state = .paused then
    match mp.segment with
    | .intro => { mp with state := .playingIntro, channel := mixerChannelStart mp.channel }
    | .loop => { mp with state := .playingLoop, channel := mixerChannelStart mp.channel }
    | .none => { mp with state := .stopped }
  else mp

def musicPlay (mp : MusicPlayer φ) : MusicPlayer φ :=
  match mp.state with
  | .paused => musicResume mp
  | .playingIntro | .playingLoop => mp
  | .stopped =>
    let rewound := { mp with channel := mixerChannelStart (mixerChannelReset mp.channel) }
    if mp.cfg.introStreamId ≠ musicStreamNone then
      { enterSegment rewound .intro with state := .playingIntro }
    else if mp.cfg.loopStreamId ≠ musicStreamNone then
      { enterSegment rewound .loop with state := .playingLoop }
    else mp

def musicStop (mp : MusicPlayer φ) : MusicPlayer φ :=
  { mp with
    channel := mixerChannelReset (mixerChannelStop mp.channel)
    state := .stopped
    segment := .none
    segmentOffset := 0
    pinnedRemaining := 0
    streamingCount := 0
    streamingReadPos := 0 }

def musicPause (mp : MusicPlayer φ) : MusicPlayer φ :=
  if mp.state = .playingIntro ∨ mp.state = .playingLoop then
    { mp with channel := mixerChannelStop mp.channel, state := .paused }
  else mp

/-! ## `music_update` -/

/-- Frames that wait in the streaming buffer. -/
def MusicPlayer.streaming (mp : MusicPlayer φ) : List φ :=
  slice mp.streamingBuffer mp.streamingReadPos mp.streamingCount

/-- The waiting frames are moved to the front of the buffer. -/
def compactStreamingBuffer (mp : MusicPlayer φ) : MusicPlayer φ :=
  { mp with
    streamingBuffer :=
      if 0 < mp.streamingReadPos ∧ 0 < mp.streamingCount then
        splice mp.streamingBuffer 0 mp.streaming
      else mp.streamingBuffer
    streamingReadPos := 0 }

def refillStreamingBuffer (mp : MusicPlayer φ) (fn : MusicStreamFn φ) : MusicPlayer φ :=
  let mp := compactStreamingBuffer mp
  let room := mp.cfg.streamingBufferSamples - mp.streamingCount
  let sid := currentSegmentStreamId mp.cfg mp.segment
  if room = 0 ∨ sid = musicStreamNone then mp
  else
    let callbackOffset := mp.segmentOffset + mp.pinnedRemaining + mp.streamingCount
    let got := fn sid room callbackOffset
    { mp with
      streamingBuffer := splice mp.streamingBuffer mp.streamingCount got
      streamingCount := mp.streamingCount + got.length }

/-- `push_to_mixer` of the next `take` frames of the head; the mixer takes every frame it is given. -/
def pushPinned (mp : MusicPlayer φ) (head : Nat → φ) (take : Nat) : MusicPlayer φ :=
  let pinnedStart := currentPinnedSize mp.cfg mp.segment - mp.pinnedRemaining
  { mp with
    channel := mixerWriteChannel mp.channel (slice head pinnedStart take)
    pinnedRemaining := mp.pinnedRemaining - take }

/-- `push_to_mixer` of the first `take` frames that wait in the streaming buffer. -/
def pushStreaming (mp : MusicPlayer φ) (take : Nat) : MusicPlayer φ :=
  { mp with
    channel := mixerWriteChannel mp.channel (slice mp.streamingBuffer mp.streamingReadPos take)
    streamingReadPos := mp.streamingReadPos + take
    streamingCount := mp.streamingCount - take
    segmentOffset := mp.segmentOffset + take }

/-- The first part of `pump_to_mixer`: the pinned head. Also the number of frames pushed. -/
def pumpPinned (mp : MusicPlayer φ) (maxToTransfer : Nat) : MusicPlayer φ × Nat :=
  if 0 < mp.pinnedRemaining then
    match currentPinnedBuffer mp.cfg mp.segment with
    | none => (mp, 0)   -- never: without a buffer the segment has no head
    | some head =>
      let take := min mp.pinnedRemaining maxToTransfer
      (pushPinned mp head take, take)
  else (mp, 0)

/-- The second part: the streaming buffer. Each pass pushes a frame at least, so as many passes as
there are frames suffice. -/
def pumpStreaming (maxToTransfer : Nat) : Nat → MusicPlayer φ → Nat → MusicPlayer φ
  | 0, mp, _ => mp
  | passes + 1, mp, transferred =>
    if transferred < maxToTransfer ∧ 0 < mp.streamingCount then
      let take := min mp.streamingCount (maxToTransfer - transferred)
      pumpStreaming maxToTransfer passes (pushStreaming mp take) (transferred + take)
    else mp

def pumpToMixer (mp : MusicPlayer φ) (maxToTransfer : Nat) : MusicPlayer φ :=
  let (mp, transferred) := pumpPinned mp maxToTransfer
  pumpStreaming maxToTransfer mp.streamingCount mp transferred

def segmentExhausted (mp : MusicPlayer φ) (lastRefillWasZero : Bool) : Bool :=
  lastRefillWasZero && mp.streamingCount == 0 && mp.pinnedRemaining == 0

/-- How many frames one call may push. -/
def transferTarget (mp : MusicPlayer φ) : Nat :=
  let cap := mp.channel.capacity
  let cap := if mp.cfg.maxChannelFillSamples ≠ 0 ∧ mp.cfg.maxChannelFillSamples < cap then
    mp.cfg.maxChannelFillSamples else cap
  let fill := mixerChannelBuffered mp.channel
  let target := if fill < cap then cap - fill else 0
  if mp.cfg.streamingBufferSamples < target then mp.cfg.streamingBufferSamples else target

/-- The refill of one pass of the loop, and whether it found the stream at its end. -/
def refillPass (mp : MusicPlayer φ) (fn : MusicStreamFn φ) : MusicPlayer φ × Bool :=
  if mp.streamingCount < mp.cfg.streamingBufferSamples / 2 then
    let refilled := refillStreamingBuffer mp fn
    let got := refilled.streamingCount - mp.streamingCount
    let want := mp.cfg.streamingBufferSamples - mp.streamingCount
    (refilled, got < want && got == 0)
  else (mp, false)

/-- The end of one pass: the player after a transition, if there is one, and whether the loop goes
on. -/
def transitionPass (mp : MusicPlayer φ) (lastRefillZero : Bool) : MusicPlayer φ × Bool :=
  if segmentExhausted mp lastRefillZero then
    if mp.segment = .intro ∧ mp.cfg.loopStreamId ≠ musicStreamNone then
      ({ enterSegment mp .loop with state := .playingLoop }, true)
    else if mp.segment = .loop then (enterSegment mp .loop, true)
    else (musicStop mp, false)
  else (mp, false)

/-- One pass of the loop in `music_update`. -/
def updatePass (mp : MusicPlayer φ) (fn : MusicStreamFn φ) (target : Nat) : MusicPlayer φ × Bool :=
  let (mp, lastRefillZero) := refillPass mp fn
  transitionPass (pumpToMixer mp target) lastRefillZero

def musicUpdate (mp : MusicPlayer φ) (fn : MusicStreamFn φ) : MusicPlayer φ :=
  if mp.state = .playingIntro ∨ mp.state = .playingLoop then
    let target := transferTarget mp
    if target = 0 then mp
    else
      let (mp, again) := updatePass mp fn target
      if again then (updatePass mp fn target).1 else mp
  else mp

end Microgarbage.Audio
