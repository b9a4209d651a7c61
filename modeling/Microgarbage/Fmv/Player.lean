import Microgarbage.Fmv.VideoStream
import Microgarbage.Lib.Transition

/-!
# The video player

`fmv_player.c` with its stream in `stream_arbiter.c`. The worker opens a clip, ticks its producer and
tears it down; the console thread polls the frame-ready byte and strobes when it has burst a
sub-frame. A step of the console thread is cut at each of its accesses to the stream: it loads the
active flag, looks up the handle, and then uses the ring, while the worker goes on.
-/

namespace Microgarbage.Fmv

open Lib Cart

/-! ## State -/

abbrev streamArbiterMax : Nat := 4
abbrev fmvRingDepth : Nat := 4
abbrev offSiphonHtime : Nat := 0x79C2

abbrev StreamHandle := Fin streamArbiterMax

/-- A slot of the arbiter. An unregistered slot keeps its ring indices and its end flag, but the
ring's storage and the producer's read buffer are gone. -/
structure StreamSlot where
  inUse : Bool
  ctx : FmvVideoCtx
  ring : List MgCompleteFrame
  eof : Bool

/-- One element of the ring stays free. -/
def StreamSlot.full (s : StreamSlot) : Bool := decide (fmvRingDepth ≤ s.ring.length + 1)

inductive FmvStatus where
  | idle
  | playing
  | eof
  deriving DecidableEq

structure Player where
  fd : Option Nat
  videoH : Option StreamHandle
  dma : Option Nat
  stopPending : Bool
  siphonHtime : Byte
  /-- The audio service has a ring for the clip. -/
  audioRing : Bool
  audioVoice : Bool
  audioStarted : Bool
  preroll : Nat
  prerollCfg : Nat
  cur : MgCompleteFrame
  sfIdx : Nat
  kicked : Bool
  active : Bool
  state : FmvStatus

/-- Which call into the arbiter the console thread is in. -/
inductive CountQuery where
  | primed
  | lookahead
  deriving DecidableEq

inductive EofQuery where
  | primed
  | lookahead (avail : Nat)
  | next
  deriving DecidableEq

inductive PopQuery where
  | kick
  | next
  deriving DecidableEq

inductive Query where
  | count (q : CountQuery)
  | eof (q : EofQuery)
  | pop (q : PopQuery)
  deriving DecidableEq

/-- Where the console thread is. -/
inductive ConsolePc where
  | idle
  /-- A poll has found the player active. -/
  | polled
  /-- A strobe has. -/
  | strobed
  /-- Before the lookup of the handle. -/
  | asking (q : Query)
  /-- The slot was in use. -/
  | holding (q : Query) (h : StreamHandle)
  /-- The slot's end flag was set; the ring is looked at next. -/
  | drained (q : EofQuery) (h : StreamHandle)
  deriving DecidableEq

/-- The call is made on the way from one frame to the next one; the others belong to the start. -/
def Query.next : Query → Bool
  | .eof .next | .pop .next => true
  | _ => false

namespace ConsolePc

/-- The console thread has looked up the slot and not yet finished with it. -/
def holdsRing : ConsolePc → Bool
  | .holding _ _ | .drained _ _ => true
  | _ => false

/-- It has burst its frame and is on the way to the next one. -/
def finishing : ConsolePc → Bool
  | .asking q | .holding q _ => q.next
  | .drained q _ => (Query.eof q).next
  | _ => false

end ConsolePc

/-- What has been brought to the screen: a frame out of the ring, or the current one again. For the
latter, whether the ring had been found empty, and whether the stream was at its end. -/
inductive Promotion where
  | popped (f : MgCompleteFrame)
  | repeated (f : MgCompleteFrame) (sawEmpty atEnd : Bool)

/-- How many frames were taken out of the ring. -/
def popped : List Promotion → Nat
  | [] => 0
  | .popped _ :: log => popped log + 1
  | .repeated .. :: log => popped log

structure Sys where
  player : Player
  slots : StreamHandle → StreamSlot
  files : Nat → Option OpenFile
  /-- The DMA engines that have been created and not destroyed. -/
  engines : List Nat
  nextEngine : Nat
  copro : Copro
  console : ConsolePc
  /-- The clip opened last. -/
  clip : Clip
  /-- The promotions of this clip, the latest first. -/
  log : List Promotion
  /-- The sub-frames that were burst, with the number of their unit. -/
  bursts : List (Nat × Nat)
  /-- The last pop found the ring of a registered stream empty. -/
  sawEmpty : Bool
  /-- Memory was used after it was freed or outside its bounds, or freed under a console step that
  has looked it up. -/
  fault : Bool

/-! ## The window -/

namespace Player

variable (p : Player)

/-- `publish_siphon_config`. -/
def publishSiphonConfig (sfIdx : Nat) (w : CartWindow) : CartWindow :=
  let stepB := p.cur.siphonLines.toNat * p.cur.siphonBytes.toNat
  let src := p.cur.siphonSrc + BitVec.ofNat 16 (sfIdx * stepB)
  let vram := p.cur.siphonVram + BitVec.ofNat 16 (sfIdx * (stepB / 2))
  (w.loadBlob offSiphonConfig [p.cur.siphonBytes, byteOf src 0, byteOf src 1, byteOf vram 0,
    byteOf vram 1, p.cur.siphonLines]).loadBlob offSiphonHtime [p.siphonHtime]

/-- The window's part of `promote_current`. -/
def promoteCurrent (w : CartWindow) : CartWindow :=
  (p.publishSiphonConfig 0 ((w.loadBlob 0 p.cur.payload).setPpuBatch p.cur.ppuBatch)).writeSubframe
    (p.cur.subframes.getD 0 [])

end Player

/-- What the sprite overlay puts into its regions of the window. -/
structure Overlay where
  cgram : List Byte
  fftChr : List Byte
  fftCgram : List Byte
  oam : List Byte

/-- `fmv_overlay_write_oam`. -/
def overlayWriteOam (oam : List Byte) (w : CartWindow) : CartWindow :=
  w.loadBlob offSprOam (oam.take sprOamBytes)

/-- `fmv_overlay_setup`. -/
def overlaySetup (o : Overlay) (w : CartWindow) : CartWindow :=
  overlayWriteOam o.oam
    (((w.loadBlob offSprCgram (o.cgram.take sprCgramBytes)).loadBlob offSprFftChr
      (o.fftChr.take sprFftChrBytes)).loadBlob offSprFftCgram (o.fftCgram.take sprFftCgramBytes))

namespace Sys

variable (s : Sys)

def onCart (f : CartWindow → CartWindow) : Sys :=
  { s with copro := { s.copro with cart := f s.copro.cart } }

def setReady (byte : Byte) : Sys := s.onCart fun w => { w with frameReady := byte }

/-! ## The worker -/

/-- `slot_for`. -/
def slotFor (h : Option StreamHandle) : Option StreamHandle := h.filter fun h => (s.slots h).inUse

def setSlot (h : StreamHandle) (slot : StreamSlot) : Sys :=
  { s with slots := Function.update s.slots h slot }

/-- `stream_arbiter_unregister`. -/
def unregister (h : StreamHandle) : Sys :=
  { s.setSlot h { s.slots h with inUse := false } with fault := s.fault || s.console.holdsRing }

/-- `fmv_player_finalize`, as one step: the console thread stays out of it when it is idle before,
since `s_active` is false then to its end. -/
def finalize : Sys :=
  let s := s.onCart fun w => w.loadBlob offSiphonConfig (List.replicate 6 0)
  let s := (s.slotFor s.player.videoH).elim s s.unregister
  { s with
    engines := s.player.dma.elim s.engines s.engines.erase
    files := s.player.fd.elim s.files fun fd => Function.update s.files fd none
    player := { s.player with
      audioVoice := false
      audioRing := false
      audioStarted := false
      preroll := 0
      videoH := none
      dma := none
      fd := none
      kicked := false
      sfIdx := 0
      state := .idle } }

/-- What `fmv_player_start` finds around it: the audio service, the values of the two environment
variables, and the overlay. -/
structure StartEnv where
  audioRing : Bool
  htime : Option Int
  preroll : Option Int
  overlay : Overlay

/-- The header of 32 bytes: the magic bytes, the number of frames and the audio bytes of a unit. -/
def headerOf (m : Mem) : Option (Nat × Nat) :=
  let nframes := (m.load32 12).toNat
  let abytes := (m.load32 24).toNat
  if m.bytes 0 4 = [0x46, 0x4D, 0x56, 0x32] ∧ nframes ≠ 0 ∧ abytes ≠ 0 then some (nframes, abytes)
  else none

/-- The header behind a descriptor, when the whole of it can be read. -/
def header (fd : Nat) (limit : Option Nat) : Option (Nat × Nat) :=
  (s.files fd).bind fun f => if (f.readFull 32 limit).1 = 32 then headerOf f.ahead else none

/-- The first slot that is free. -/
def freeSlot : Option StreamHandle :=
  (List.finRange streamArbiterMax).find? fun h => !(s.slots h).inUse

/-- `fmv_player_start` behind the header. -/
def openClip (fd : Nat) (f : OpenFile) (nframes abytes : Nat) (env : StartEnv) : Sys :=
  let dma := s.nextEngine
  let s := { s with nextEngine := dma + 1, player := { s.player with audioRing := env.audioRing } }
  match s.freeSlot with
  | none => s
  | some h =>
    let s := s.setSlot h ⟨true, ⟨fd, 0, nframes, abytes, fun _ => 0, dma, false⟩, [], false⟩
    let htime := (env.htime.filter fun v => 0 < v ∧ v < 256).elim s.player.siphonHtime
      (BitVec.ofInt 8)
    let prerollCfg := (env.preroll.filter fun v => 0 ≤ v ∧ v < 240).elim s.player.prerollCfg
      Int.toNat
    let s := s.onCart (overlaySetup env.overlay)
    { s with
      engines := dma :: s.engines
      player := { s.player with
        fd := some fd
        dma := some dma
        videoH := some h
        siphonHtime := htime
        prerollCfg := prerollCfg
        kicked := false
        sfIdx := 0
        audioStarted := false
        preroll := 0
        stopPending := false
        state := .playing
        active := true }
      clip := ⟨f.ahead, f.size - f.pos, nframes, abytes⟩
      log := []
      bursts := []
      sawEmpty := false }

/-- A player that is still active is torn down first. -/
def heal : Sys :=
  if s.player.active then { s with player := { s.player with active := false } }.finalize else s

/-- `fmv_player_start`. -/
def start (fd : Nat) (limit : Option Nat) (env : StartEnv) : Sys :=
  let s := s.heal
  match s.files fd with
  | none => s
  | some f =>
    let f' := (f.readFull 32 limit).2
    let header := s.header fd limit
    let s := { s with files := Function.update s.files fd (some f') }
    match header with
    | none => s
    | some (nframes, abytes) => s.openClip fd f' nframes abytes env

/-- `fmv_player_stop`. -/
def stop : Sys :=
  if s.player.active then
    { s.setReady 0 with player := { s.player with active := false, stopPending := true } }
  else s

/-- `fmv_player_tick`. -/
def tick : Sys :=
  if s.player.stopPending then
    let s := s.finalize
    { s with player := { s.player with stopPending := false } }
  else s

/-- `fmv_player_shutdown`. -/
def shutdown : Sys :=
  { s with player := { s.player with active := false, stopPending := false } }.finalize

/-- `fmv_player_set_htime`. -/
def setHtime (htime : Byte) : Sys :=
  let htime := if htime = 0 then 1 else htime
  { s.onCart fun w => w.loadBlob offSiphonHtime [htime] with
    player := { s.player with siphonHtime := htime } }

/-- The file behind a descriptor; a closed one reads nothing. -/
def fileAt (fd : Nat) : OpenFile := (s.files fd).getD ⟨fun _ => 0, 0, 0⟩

/-- What `stream_arbiter_tick` does for one slot. -/
def produce (h : StreamHandle) (limit : Option Nat) : Sys :=
  let slot := s.slots h
  if !slot.inUse || slot.eof || slot.full then s
  else
    let (frame, ctx, f) := slot.ctx.fill (s.fileAt slot.ctx.fd) limit
    let file := (s.files slot.ctx.fd).map fun _ => f
    let s := { s with files := Function.update s.files slot.ctx.fd file }
    match frame with
    | none => s.setSlot h { slot with ctx := ctx, eof := slot.eof || ctx.eof }
    | some frame =>
      { s.setSlot h { slot with ctx := ctx, ring := slot.ring ++ [frame] } with
        fault := s.fault || !decide (slot.ctx.dma ∈ s.engines) || !decide slot.ctx.Within }

/-! ## The console thread -/

/-- A poll of the frame-ready byte. -/
def poll : Option Sys :=
  match s.console with
  | .idle => some (if s.player.active then { s with console := .polled } else s)
  | _ => none

/-- A strobe of the frame-done address. -/
def strobe : Option Sys :=
  match s.console with
  | .idle =>
    some (if s.copro.cart.frameReady = 0 then s
      else if s.player.active then { s with console := .strobed }
      else { s with copro := s.copro.frameDone })
  | _ => none

def goto (pc : ConsolePc) : Sys := { s with console := pc }

/-- The poll returns `byte`. -/
def polledByte (byte : Byte) : Sys := (s.setReady byte).goto .idle

/-- The strobe goes on behind `fmv_player_on_frame_done`. -/
def advanced (adv : Advance) : Sys := (s.onCart (Copro.frameDoneCounters adv)).goto .idle

/-- The audio voice is opened, and the video held while the audio fills its pipe. -/
def openVoice (voice : Bool) : Sys :=
  let audioVoice := s.player.audioVoice || (s.player.audioRing && voice)
  let preroll := if s.player.audioRing && audioVoice then s.player.prerollCfg else 0
  { s with player := { s.player with
    audioVoice := audioVoice
    audioStarted := true
    preroll := preroll } }.polledByte 0

/-- A frame out of the ring is promoted. -/
def promote (f : MgCompleteFrame) : Sys :=
  let player := { s.player with cur := f, sfIdx := 0 }
  { s.onCart player.promoteCurrent with player := player, log := .popped f :: s.log }

/-- The first frame is loaded. -/
def kick : Sys := { s with player := { s.player with kicked := true } }

/-- The stream has nothing left. -/
def atEnd : Bool :=
  (s.slotFor s.player.videoH).any fun h => (s.slots h).eof && (s.slots h).ring.isEmpty

/-- The current frame is promoted again. -/
def repromote : Sys :=
  let player := { s.player with sfIdx := 0 }
  { s.onCart player.promoteCurrent with
    player := player
    log := .repeated s.player.cur s.sawEmpty s.atEnd :: s.log }

/-- `chunks_available` has returned. -/
def onCount (voice : Bool) (avail : Nat) : CountQuery → Sys
  | .primed => if avail < 1 then s.goto (.asking (.eof .primed)) else s.openVoice voice
  | .lookahead =>
    if avail < 2 then s.goto (.asking (.eof (.lookahead avail))) else s.goto (.asking (.pop .kick))

/-- `is_eof` has returned. -/
def onEof (voice : Bool) (eof : Bool) : EofQuery → Sys
  | .primed => if eof then s.openVoice voice else s.polledByte 0
  | .lookahead avail =>
    if !eof then s.polledByte 0
    else if avail = 0 then s.polledByte 0
    else s.goto (.asking (.pop .kick))
  | .next =>
    if eof then
      { s with player := { s.player with state := .eof } }.advanced .empty
    else s.repromote.advanced .promoted

/-- `consume` has returned. -/
def onPop (f : Option MgCompleteFrame) : PopQuery → Sys
  | .kick =>
    match f with
    | none => s.polledByte 0
    | some f => (s.promote f).kick.polledByte 1
  | .next =>
    match f with
    | none => s.goto (.asking (.eof .next))
    | some f => (s.promote f).advanced .promoted

/-- The answer for a handle that is not registered. -/
def onUnregistered (voice : Bool) : Query → Sys
  | .count q => s.onCount voice 0 q
  | .eof q => s.onEof voice true q
  | .pop q => { s with sawEmpty := false }.onPop none q

/-- The ring is used. -/
def useRing (voice : Bool) (h : StreamHandle) : Query → Sys
  | .count q => s.onCount voice (s.slots h).ring.length q
  | .eof q => if (s.slots h).eof then s.goto (.drained q h) else s.onEof voice false q
  | .pop q =>
    match (s.slots h).ring with
    | [] => { s with sawEmpty := (s.slots h).inUse }.onPop none q
    | f :: ring =>
      let s := { s with fault := s.fault || !(s.slots h).inUse }
      (s.setSlot h { s.slots h with ring := ring }).onPop (some f) q

/-- `fmv_player_frame_ready_byte` up to its first call into the arbiter. -/
def frameReadyByte : Sys :=
  if s.player.state = .eof then s.polledByte 0
  else if s.player.kicked then s.polledByte 1
  else if !s.player.audioStarted then s.goto (.asking (.count .primed))
  else if 0 < s.player.preroll then
    { s with player := { s.player with preroll := s.player.preroll - 1 } }.polledByte 0
  else s.goto (.asking (.count .lookahead))

/-- `fmv_player_on_frame_done` up to its first call into the arbiter. -/
def onFrameDone (oam : List Byte) : Sys :=
  if !s.player.kicked then s.advanced .empty
  else
    let s := s.onCart (overlayWriteOam oam)
    let s := { s with bursts := (popped s.log - 1, s.player.sfIdx) :: s.bursts }
    if s.player.sfIdx + 1 < s.player.cur.subframes.length then
      let player := { s.player with sfIdx := s.player.sfIdx + 1 }
      { s.onCart fun w => (player.publishSiphonConfig 0 w).writeSubframe
          (player.cur.subframes.getD player.sfIdx []) with player := player }.advanced .more
    else s.goto (.asking (.pop .next))

/-- The next access of the console thread. -/
def advance (voice : Bool) (oam : List Byte) : Option Sys :=
  match s.console with
  | .idle => none
  | .polled => some s.frameReadyByte
  | .strobed => some (s.onFrameDone oam)
  | .asking q =>
    match s.slotFor s.player.videoH with
    | none => some (s.onUnregistered voice q)
    | some h => some (s.goto (.holding q h))
  | .holding q h => some (s.useRing voice h q)
  | .drained q h => some (s.onEof voice (s.slots h).ring.isEmpty q)

end Sys

/-! ## Events -/

inductive Event where
  /-- The guest opens a file. -/
  | fopen (fd : Nat) (f : OpenFile)
  | start (fd : Nat) (limit : Option Nat) (env : Sys.StartEnv)
  | stop
  | tick
  | shutdown
  | setHtime (htime : Byte)
  | produce (h : StreamHandle) (limit : Option Nat)
  | poll
  | strobe
  | advance (voice : Bool) (oam : List Byte)

namespace Sys

variable (s : Sys)

/-- `fopen` gives out a descriptor that is not open. -/
def step : Event → Option Sys
  | .fopen fd f =>
    if (s.files fd).isNone then some { s with files := Function.update s.files fd (some f) } else none
  | .start fd limit env => some (s.start fd limit env)
  | .stop => some s.stop
  | .tick => some s.tick
  | .shutdown => some s.shutdown
  | .setHtime htime => some (s.setHtime htime)
  | .produce h limit => some (s.produce h limit)
  | .poll => s.poll
  | .strobe => s.strobe
  | .advance voice oam => s.advance voice oam

/-- Program start, with whatever the staging side has in the window. -/
def init (copro : Copro) : Sys where
  player :=
    { fd := none
      videoH := none
      dma := none
      stopPending := false
      siphonHtime := 155
      audioRing := false
      audioVoice := false
      audioStarted := false
      preroll := 0
      prerollCfg := 11
      cur := .zero
      sfIdx := 0
      kicked := false
      active := false
      state := .idle }
  slots := fun _ => ⟨false, ⟨0, 0, 0, 0, fun _ => 0, 0, false⟩, [], false⟩
  files := fun _ => none
  engines := []
  nextEngine := 0
  copro := copro
  console := .idle
  clip := ⟨fun _ => 0, 0, 0, 0⟩
  log := []
  bursts := []
  sawEmpty := false
  fault := false

end Sys

end Microgarbage.Fmv
