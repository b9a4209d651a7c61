import Microgarbage.Cart.Ecalls
import Microgarbage.Vm.Core

/-!
# The graphics calls by number

The tables of handlers in `copro_ecalls.c` and `copro_mg_handlers.c`. A handler cuts the registers
`a0` to `a3` to the widths of its arguments, translates pointers through the guest's regions, cell by
cell where it copies a list, and writes its result to `a0`. The calls for joypads, waiting and panics
are not among them.
-/

namespace Microgarbage.Cart

open Lib

/-! ## The guest -/

structure Guest where
  cpu : Vm.VmCpu
  mem : Mem

def regA3 : Vm.Reg := 13

namespace Guest

variable (g : Guest)

def a0 : Word := g.cpu.regs Vm.regA0
def a1 : Word := g.cpu.regs Vm.regA1
def a2 : Word := g.cpu.regs Vm.regA2
def a3 : Word := g.cpu.regs regA3

/-- `vm_translate_read`. -/
def read (va size : Word) : GuestBytes :=
  match Vm.vmTranslateRead g.cpu va size with
  | .ok host => some fun i => g.mem (host + i)
  | .error _ => none

/-- `guest_write`: the memory afterwards. -/
def write (va : Word) (bs : List Byte) : Option Mem :=
  match Vm.vmTranslateWrite g.cpu va (BitVec.ofNat 32 bs.length) with
  | .ok host => some (g.mem.copy host bs)
  | .error _ => none

/-- Cell `i` of a list of words. -/
def cell (va : Word) (i : Nat) : Option (BitVec 16) :=
  (g.read (va + BitVec.ofNat 32 (i * 2)) 2).map fun b => b 1 ++ b 0

/-- Colour `i` of a list of 3-byte colours. -/
def rgbCell (va : Word) (i : Nat) : Option (BitVec 16) :=
  (g.read (va + BitVec.ofNat 32 (i * 3)) 3).map fun b => MgState.packRgb (b 0) (b 1) (b 2)

end Guest

/-! ## Structures in guest memory -/

def MgSpriteHost.ofBytes (b : Nat → Byte) : MgSpriteHost where
  x := b 1 ++ b 0
  y := b 2
  tile := b 5 ++ b 4
  palette := (b 6).extractLsb' 0 3
  priority := (b 6).extractLsb' 3 2
  hflip := (b 6).getLsbD 5
  vflip := (b 6).getLsbD 6
  sizeLarge := (b 6).getLsbD 7

def MgSpriteHost.bytes (s : MgSpriteHost) : List Byte :=
  [byteOf s.x 0, byteOf s.x 1, s.y, 0, byteOf s.tile 0, byteOf s.tile 1,
    s.palette.setWidth 8 ||| s.priority.setWidth 8 <<< 3 ||| bit s.hflip <<< 5 |||
      bit s.vflip <<< 6 ||| bit s.sizeLarge <<< 7, 0]

def MgState.MgMode7ParamsHost.ofBytes (b : Nat → Byte) : MgState.MgMode7ParamsHost :=
  ⟨b 1 ++ b 0, b 3 ++ b 2, b 5 ++ b 4, b 7 ++ b 6, b 9 ++ b 8, b 11 ++ b 10, b 13 ++ b 12,
    b 15 ++ b 14⟩

def MgState.MgHdmaCfgHost.ofBytes (b : Nat → Byte) : MgState.MgHdmaCfgHost := ⟨b 0, b 1, b 2, b 3⟩

/-- What `h_panic` keeps for the reader of the crash. -/
structure MgPanic where
  active : Bool
  vmId : Word
  pc : Word
  args : Fin 7 → Word
  msg : Mem
  msgLen : Word
  fits : msgLen.toNat ≤ 240

namespace MgPanic

def le32 (v : Word) : List Byte := [byteOf v 0, byteOf v 1, byteOf v 2, byteOf v 3]

/-- The 44 bytes of the context. -/
def ctx (p : MgPanic) : List Byte :=
  le32 p.vmId ++ le32 p.pc ++ (List.finRange 7).flatMap (fun i => le32 (p.args i)) ++
    le32 p.msgLen ++ [0, 0, 0, 0]

/-- The bytes that a reader with a buffer of this size gets. -/
def readable (p : MgPanic) (cap : Word) : Nat := min p.msgLen.toNat cap.toNat

end MgPanic

/-! ## Handlers that only read -/

namespace MgState

variable (st : MgState)

/-- The sprite that `h_sprite_get` puts together. -/
def spriteAt (slot : Nat) : MgSpriteHost :=
  let off := slot * 4
  let attrs := st.oamShadow (off + 3)
  let hi := st.oamShadow (hiByteOff slot) >>> hiShift slot
  let x := (st.oamShadow off).signExtend 16
  { x := if hi.getLsbD 0 then x - 256 else x
    y := st.oamShadow (off + 1)
    tile := (attrs &&& 1) ++ st.oamShadow (off + 2)
    palette := attrs.extractLsb' 1 3
    priority := attrs.extractLsb' 4 2
    hflip := attrs.getLsbD 6
    vflip := attrs.getLsbD 7
    sizeLarge := hi.getLsbD 1 }

def tileAt (layer : Fin 4) (x y : Nat) : BitVec 16 := (st.bg layer).shadow.load16 ((y * 32 + x) * 2)

end MgState

/-! ## The table -/

inductive GraphicsEcall where
  | stagePayload | stageDmaSlot | frameCommit
  | spriteSet | spriteMove | spriteHide | spriteGet | spritesClearAll | spriteSizes | spriteChrBase
  | spriteAlloc | spriteFree | oamSnapRestore
  | bgMode | bgSetup | bgEnable | bgSetTile | bgGetTile | bgBlit | bgUpload | bgScroll | bgMosaic
  | bgMainPriority
  | mode7Set | mode7Wrap | hdmaSetup | hdmaUpload | hdmaEnable
  | chrUpload | chrUploadTransient | paletteWrite | paletteSnapRestore | packChr
  | frameState | ppuCleanSlate | nmiInstall | hirqInstall | kernelLayout | siphonConfigure
  deriving DecidableEq

/-- The value of `a0`, the guest's memory and the staging state after a call. -/
structure Reply where
  a0 : Word
  mem : Mem
  copro : Copro

namespace Guest

variable (g : Guest) (c : Copro)

def reply (a0 : Word) : Reply := ⟨a0, g.mem, c⟩

/-- A result that is written to the guest's memory. -/
def replyAt (va : Word) (bs : List Byte) (a0 : Word) : Reply :=
  match g.write va bs with
  | none => g.reply c mgRErrInvalid
  | some mem => ⟨a0, mem, c⟩

def call (mg : MgCall) : Option Reply := (mg.apply c).map fun r => g.reply r.2 r.1

/-! ## Handlers that change the staging state -/

/-- The length of an upload. -/
def size16 : BitVec 16 := g.a2.setWidth 16

/-- The cells of a blit. -/
def cells : List (Option (BitVec 16)) :=
  (List.range (g.a3.setWidth 16 : BitVec 16).toNat).map (g.cell g.a2)

/-- `h_bg_blit`; column and row are the low bytes of `a1`. -/
def bgBlit : ShadowCall :=
  .bgBlit (g.a0.setWidth 8) (byteOf g.a1 0) (byteOf g.a1 1) g.cells

/-- Colour `i` in the format of `a3`. -/
def color (i : Nat) : Option (BitVec 16) :=
  if (g.a3.setWidth 8 : Byte) = 0 then g.cell g.a2 i else g.rgbCell g.a2 i

/-- The arguments of the handlers that change the staging state. -/
def decode : GraphicsEcall → Option MgCall
  | .stagePayload => some (.stagePayload g.a0 g.a2 (g.read g.a1 g.a2))
  | .stageDmaSlot => some (.stageDmaSlot g.a0 g.a1 g.a2)
  | .frameCommit => some (.frameCommit (g.a0.setWidth 8))
  | .spriteSet => some (.shadow
      (.spriteSet (g.a0.setWidth 8) ((g.read g.a1 8).map MgSpriteHost.ofBytes)))
  | .spriteMove => some (.shadow
      (.spriteMove (g.a0.setWidth 8) (g.a1.setWidth 16) (g.a2.setWidth 8)))
  | .spriteHide => some (.shadow (.spriteHide (g.a0.setWidth 8)))
  | .spritesClearAll => some (.shadow .spritesClearAll)
  | .spriteSizes => some (.shadow (.spriteSizes (g.a0.setWidth 8)))
  | .spriteChrBase => some (.shadow (.spriteChrBase (g.a0.setWidth 16) (g.a1.setWidth 16)))
  | .bgMode => some (.shadow (.bgMode (g.a0.setWidth 8)))
  | .bgSetup => some (.shadow
      (.bgSetup (g.a0.setWidth 8) (g.a1.setWidth 16) (g.a2.setWidth 8) (g.a3.setWidth 16)))
  | .bgEnable => some (.shadow (.bgEnable (g.a0.setWidth 8) (g.a1.setWidth 8)))
  | .bgSetTile => some (.shadow
      (.bgSetTile (g.a0.setWidth 8) (g.a1.setWidth 8) (g.a2.setWidth 8) (g.a3.setWidth 16)))
  | .bgBlit => some (.shadow g.bgBlit)
  | .bgUpload => some (.shadow g.bgBlit)
  | .bgScroll => some (.shadow
      (.bgScroll (g.a0.setWidth 8) (g.a1.setWidth 16) (g.a2.setWidth 16)))
  | .mode7Set => some (.shadow (.mode7Set ((g.read g.a0 16).map .ofBytes)))
  | .mode7Wrap => some (.shadow (.mode7Wrap (g.a0.setWidth 8)))
  | .hdmaSetup => some (.shadow (.hdmaSetup ((g.read g.a0 4).map .ofBytes)))
  | .hdmaUpload => some
      (.hdmaUpload (g.a0.setWidth 8) g.size16 (g.read g.a1 (g.size16.setWidth 32)))
  | .hdmaEnable => some (.shadow (.hdmaEnable (g.a0.setWidth 8) g.a1))
  | .chrUpload => some
      (.chrUpload (g.a0.setWidth 16) g.size16 (g.read g.a1 (g.size16.setWidth 32)))
  | .chrUploadTransient => some
      (.chrUploadTransient (g.a0.setWidth 16) g.size16 (g.read g.a1 (g.size16.setWidth 32)))
  | .paletteWrite => some (.shadow
      (.paletteWrite (g.a0.setWidth 8) (g.a1.setWidth 16) g.color))
  | .frameState =>
    if g.a0 = 4 then some (.shadow (.setBlank (g.a1.setWidth 8) (g.a2.setWidth 8))) else none
  | .ppuCleanSlate => some .ppuCleanSlate
  | .nmiInstall => some (.nmiInstall g.a1 (g.read g.a0 g.a1))
  | .hirqInstall => some (.hirqInstall g.a1 (g.read g.a0 g.a1))
  | .kernelLayout => some (.kernelLayout (g.a0.setWidth 8) (g.a1.setWidth 8))
  | .siphonConfigure => some
      (.siphonConfigure (g.a0.setWidth 8) (g.a1.setWidth 16) g.a2)
  | _ => none

/-! ## Handlers that only read it -/

/-- `h_sprite_get`. -/
def spriteGet : Option Reply :=
  (oamSlot (g.a0.setWidth 8) 128).map fun slot =>
    g.replyAt c g.a1 (c.state.spriteAt slot).bytes mgROk

/-- `h_bg_get_tile`. -/
def bgGetTile : Reply :=
  let layer : Byte := g.a0.setWidth 8
  let x : Byte := g.a1.setWidth 8
  let y : Byte := g.a2.setWidth 8
  if h : layer.toNat < 4 then
    if 32 ≤ x.toNat ∨ 32 ≤ y.toNat then g.reply c mgRErrInvalid
    else g.replyAt c g.a3 (CartDmaSlot.le16 (c.state.tileAt ⟨layer.toNat, h⟩ x.toNat y.toNat)) mgROk
  else
    g.reply c mgRErrInvalid

/-- The operations of `h_frame_state` but the one that sets the blank lines. -/
def frameState (p : MgPanic) : Reply :=
  match g.a0.toNat with
  | 0 => g.reply c (c.slotsRemaining.setWidth 32)
  | 1 => g.reply c (c.bytesRemaining.setWidth 32)
  | 2 => g.reply c (BitVec.ofNat 32 c.state.forceBlankTop)
  | 3 => g.reply c (BitVec.ofNat 32 c.state.forceBlankBottom)
  | 5 =>
    if p.active ∧ p.readable g.a2 ≠ 0 then
      g.replyAt c g.a1 (p.msg.bytes 0 (p.readable g.a2)) (BitVec.ofNat 32 (p.readable g.a2))
    else
      g.reply c 0
  | 6 => if p.active then g.replyAt c g.a1 p.ctx mgROk else g.reply c 0
  | _ => g.reply c mgRErrInvalid

/-- The handlers that leave the staging state as it is. -/
def answer (p : MgPanic) : GraphicsEcall → Option Reply
  | .spriteGet => g.spriteGet c
  | .spriteAlloc => some (g.reply c 0)
  | .spriteFree => some (g.reply c g.a0)
  | .bgGetTile => some (g.bgGetTile c)
  | .frameState => some (g.frameState c p)
  -- Not implemented: snapshots, mosaic, priority and the packing of tiles.
  | _ => some (g.reply c mgROk)

/-- The handler of a call; `none` where it reads or writes behind an array. -/
def handle (p : MgPanic) (e : GraphicsEcall) : Option Reply :=
  match g.decode e with
  | some mg => g.call c mg
  | none => g.answer c p e

end Guest

/-! ## The machine -/

inductive GraphicsEvent where
  | ecall (p : MgPanic) (g : Guest) (e : GraphicsEcall)
  /-- The console reads the cartridge. -/
  | read (snesAddr : BitVec 24)
  | unload

def Copro.graphicsStep (c : Copro) : GraphicsEvent → Option Copro
  | .ecall p g e => (g.handle c p e).map Reply.copro
  | .read snesAddr => c.step (.read snesAddr)
  | .unload => c.step .unload

namespace Guest

variable {g : Guest} {c : Copro} {p : MgPanic} {r : Reply}

theorem call_step {mg : MgCall} (h : g.call c mg = some r) : c.step (.call mg) = some r.copro := by
  obtain ⟨x, hx, rfl⟩ := Option.map_eq_some_iff.mp h
  have happly : (CartEvent.call mg).apply c = some x := hx
  unfold Copro.step
  rw [happly]
  rfl

@[simp] theorem replyAt_copro (va : Word) (bs : List Byte) (a0 : Word) :
    (g.replyAt c va bs a0).copro = c := by
  unfold replyAt
  split <;> rfl

theorem answer_copro {e : GraphicsEcall} (h : g.answer c p e = some r) : r.copro = c := by
  unfold answer at h
  split at h
  · obtain ⟨slot, -, rfl⟩ := Option.map_eq_some_iff.mp h
    exact replyAt_copro ..
  · cases h
    rfl
  · cases h
    rfl
  · cases h
    unfold bgGetTile
    dsimp only
    split
    · split
      · rfl
      · exact replyAt_copro ..
    · rfl
  · cases h
    unfold frameState
    split
    any_goals rfl
    all_goals
      split
      · exact replyAt_copro ..
      · rfl
  · cases h
    rfl

/-- A handler does what a decoded call does, or leaves the staging state as it is. -/
theorem handle_cases {e : GraphicsEcall} (h : g.handle c p e = some r) :
    r.copro = c ∨ ∃ mg : MgCall, c.step (.call mg) = some r.copro := by
  unfold handle at h
  split at h
  · exact .inr ⟨_, call_step h⟩
  · exact .inl (answer_copro h)

end Guest

end Microgarbage.Cart
