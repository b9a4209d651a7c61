import Microgarbage.Cart.FrameQueue

/-!
# The 3D renderer service

`copro_r3d.c`: the scene calls, the split of a framebuffer into the bit planes of two layers, the
two tilemaps, and the delivery of a frame to the cart window in thirds. What the rasteriser draws of
a scene, and the bytes of the interrupt routine, are parameters.
-/

namespace Microgarbage.R3d

open Lib Cart

/-! ## Layout -/

abbrev vw : Nat := 240
abbrev vh : Nat := 200
abbrev tw : Nat := 30
abbrev nTiles : Nat := 750
abbrev thirdTiles : Nat := 250
abbrev nBands : Nat := 3
abbrev thirdBg1Bytes : Nat := 8000
abbrev thirdBg3Bytes : Nat := 4000

abbrev stageBg1 : Nat := 0x0000
abbrev stageBg3 : Nat := 0x2000
abbrev offTmapA : Nat := 0x3000
abbrev offTmapB : Nat := 0x3800
abbrev offPal : Nat := 0x4000
abbrev mbBg1dst : Nat := 0x4100
abbrev mbBg3dst : Nat := 0x4102
abbrev mbReveal : Nat := 0x4104
abbrev mbNba1 : Nat := 0x4105
abbrev mbNba3 : Nat := 0x4106
abbrev mbSc : Nat := 0x4107
abbrev offIsrMode : Nat := 0x79C4

inductive Third where
  | top
  | mid
  | bot
  deriving DecidableEq

inductive Parity where
  | a
  | b
  deriving DecidableEq

def Parity.flip : Parity → Parity
  | .a => .b
  | .b => .a

/-- The first tile of a third. -/
def Third.t0 : Third → Nat
  | .top => 0
  | .mid => 250
  | .bot => 500

/-- `s_deliver_order`. -/
def deliverOrder : Nat → Third
  | 0 => .bot
  | 1 => .mid
  | _ => .top

/-- The VRAM words of a third, for BG1 and BG3. Both parities read the top from one place. -/
def slotFor : Third → Parity → BitVec 16 × BitVec 16
  | .top, _ => (0x2000, 0x6000)
  | .mid, .a => (0x0000, 0x5000)
  | .mid, .b => (0x3000, 0x6800)
  | .bot, .a => (0x1000, 0x5800)
  | .bot, .b => (0x4000, 0x7000)

def nba1 : Parity → Byte
  | .a => 0x00
  | .b => 0x02

def nba3 : Parity → Byte
  | .a => 0x05
  | .b => 0x06

def scVal : Parity → Byte
  | .a => 0x78
  | .b => 0x7C

/-! ## Encoding -/

/-- `s_fbuf`: pixel `y * VW + x` holds `hue << 2 | brightness`. -/
abbrev Framebuffer := Nat → Byte

def hcBaseOf (v : Byte) : Byte := (v >>> 2) &&& 0x0F

def hcSubOf (v : Byte) : Byte := v &&& 0x03

/-- One byte of a bit plane: the pixels of a row from the left, the first in bit 7. -/
def planeByte (pixel : Nat → Byte) (plane : Nat) : Byte :=
  (List.range 8).foldl (fun acc xx => acc ||| (((pixel xx >>> plane) &&& 1) <<< (7 - xx))) 0

/-- The pixels of row `yy` of tile `t`. -/
def tileRow (fb : Framebuffer) (t yy xx : Nat) : Byte :=
  fb ((t / tw * 8 + yy) * vw + (t % tw * 8 + xx))

/-- `s_chr` of `encode_dual`: planes 0 and 1 of the hue in the first 16 bytes of a tile, then 2
and 3. -/
def encodeChr (fb : Framebuffer) : Mem := fun a =>
  let k := a % 32
  planeByte (fun xx => hcBaseOf (tileRow fb (a / 32) (k % 16 / 2) xx)) (k / 16 * 2 + k % 2)

/-- `s_chr2`: the two planes of the brightness. -/
def encodeChr2 (fb : Framebuffer) : Mem := fun a =>
  let k := a % 16
  planeByte (fun xx => hcSubOf (tileRow fb (a / 16) (k / 2) xx)) (k % 2)

/-! ## Tilemaps and palette -/

def tmapIdxA (n : Nat) : BitVec 16 :=
  if n < thirdTiles then BitVec.ofNat 16 (512 + n)
  else if n < 2 * thirdTiles then BitVec.ofNat 16 (n - thirdTiles)
  else BitVec.ofNat 16 (256 + (n - 2 * thirdTiles))

def tmapIdxB (n : Nat) : BitVec 16 :=
  if n < thirdTiles then BitVec.ofNat 16 n
  else if n < 2 * thirdTiles then BitVec.ofNat 16 (256 + (n - thirdTiles))
  else BitVec.ofNat 16 (512 + (n - 2 * thirdTiles))

def tmapIdx : Parity → Nat → BitVec 16
  | .a => tmapIdxA
  | .b => tmapIdxB

def tmapPal1 : BitVec 16 := 0x0400

def blankTile : BitVec 16 := 255

/-- `fill_tilemaps`: the 1024 cells of one map. -/
def tilemapCell (p : Parity) (cell : Nat) : BitVec 16 :=
  if cell % 32 < tw ∧ cell / 32 < 25 then tmapIdx p (cell / 32 * tw + cell % 32) ||| tmapPal1
  else blankTile ||| tmapPal1

def tilemap (p : Parity) : List Byte :=
  (List.range 2048).map fun i => byteOf (tilemapCell p (i / 2)) (i % 2)

def hcBase : List (BitVec 16) :=
  [0x0000, 0x001F, 0x019F, 0x03FF, 0x03F0, 0x03E0, 0x43E0, 0x7FE0, 0x7E00, 0x7C00, 0x7C10, 0x7C1F,
    0x401F, 0x7FFF, 0x4210, 0x1110]

def hcSub : List (BitVec 16) := [0x0000, 0x2529, 0x4A52, 0x6739]

/-- `build_palette`: brightness levels at 4, hues at 16. -/
def palette : List Byte :=
  (List.replicate 4 0 ++ hcSub ++ List.replicate 8 0 ++ hcBase).flatMap CartDmaSlot.le16

/-! ## The scene -/

abbrev maxObjects : Nat := 8

structure Instance where
  used : Bool
  visible : Bool
  meshId : Byte
  px : Word
  py : Word
  pz : Word
  rx : Word
  ry : Word
  rz : Word

def Instance.none : Instance := ⟨false, false, 0, 0, 0, 0, 0, 0, 0⟩

structure Cam where
  ex : Word
  ey : Word
  ez : Word
  yaw : Word
  pitch : Word
  roll : Word
  focal : Word

structure Scene where
  objs : Nat → Instance
  cam : Cam

namespace Scene

variable (s : Scene)

/-- 160 in Q16.16. -/
def focalDefault : Word := 0xA00000

/-- 6.0 in Q16.16. -/
def camZDefault : Word := 0x60000

/-- What `copro_r3d_reset` leaves. -/
def cleared : Scene := ⟨fun _ => .none, ⟨0, 0, 0, 0, 0, 0, focalDefault⟩⟩

/-- `copro_r3d_set_camera`: a zero focal length keeps the old one. -/
def setCamera (cam : Cam) : Scene :=
  { s with cam := { cam with focal := if cam.focal ≠ 0 then cam.focal else s.cam.focal } }

/-- `copro_r3d_add`: the handle, or -1. -/
def add (meshId : Byte) : Word × Scene :=
  match (List.range maxObjects).find? fun i => !(s.objs i).used with
  | none => (-1, s)
  | some i =>
    (BitVec.ofNat 32 i,
      { s with objs := Function.update s.objs i ⟨true, true, meshId, 0, 0, camZDefault, 0, 0, 0⟩ })

/-- A call on an object; a bad handle does nothing. -/
def onObject (h : Word) (f : Instance → Instance) : Scene :=
  if 0 ≤ h.toInt ∧ h.toInt < maxObjects ∧ (s.objs h.toNat).used = true then
    { s with objs := Function.update s.objs h.toNat (f (s.objs h.toNat)) }
  else s

def objectMove (h x y z : Word) : Scene := s.onObject h fun o => { o with px := x, py := y, pz := z }

def objectRotate (h x y z : Word) : Scene :=
  s.onObject h fun o => { o with rx := x, ry := y, rz := z }

def objectShow (h : Word) (visible : Bool) : Scene :=
  s.onObject h fun o => { o with visible := visible }

end Scene

/-! ## Delivery -/

/-- What is drawn of a scene at a morph frame and a plasma time. -/
abbrev Raster := Scene → Word → Word → Framebuffer

/-- The interrupt routine that the service assembles, at most 1024 bytes. -/
abbrev Isr := { image : List Byte // image.length ≤ nmiCodeBytes }

structure Renderer where
  scene : Scene
  /-- The third of the frame to deliver next. -/
  deliver : Nat
  initDone : Bool
  haveFrame : Bool
  buildParity : Parity
  chr : Mem
  chr2 : Mem
  morphFrame : Word
  plasmaT : Word

namespace Renderer

variable (r : Renderer)

/-- After `copro_r3d_init`. -/
def init : Renderer := ⟨.cleared, 0, false, false, .b, fun _ => 0, fun _ => 0, 0, 0⟩

def reset : Renderer :=
  { r with scene := .cleared, deliver := 0, initDone := false, haveFrame := false, buildParity := .b }

/-- The framebuffer that `render_frame` draws. -/
def draws (raster : Raster) : Framebuffer := raster r.scene r.morphFrame r.plasmaT

def renderFrame (raster : Raster) : Renderer :=
  { r with
    chr := encodeChr (r.draws raster)
    chr2 := encodeChr2 (r.draws raster)
    morphFrame := r.morphFrame + 1
    plasmaT := r.plasmaT + 3
    haveFrame := true }

end Renderer

/-- The window's share of the first render: tilemaps, palette, the routine and its version. -/
def stageInit (isr : Isr) (w : CartWindow) : CartWindow :=
  let w := w.storeU16Le offKernelLayout (12 ||| 12 <<< 8)
  let w := w.loadBlob offHdmaConfig (List.replicate 56 0)
  let w := w.loadBlob offPal palette
  let w := w.loadBlob offTmapA (tilemap .a)
  let w := w.loadBlob offTmapB (tilemap .b)
  let w := w.loadBlob offIsrMode [1]
  let w := w.loadBlob offNmiCode isr.1
  w.bumpNmiVersion

/-- The descriptor's reveal flag and registers: set with the top third only. -/
def revealBytes (third : Third) (p : Parity) : List Byte :=
  if third = .top then [1, nba1 p, nba3 p, scVal p] else [0, 0, 0, 0]

/-- One third and its descriptor. -/
def stageThird (chr chr2 : Mem) (third : Third) (p : Parity) (w : CartWindow) : CartWindow :=
  let w := w.loadBlob stageBg1 (chr.bytes (32 * third.t0) thirdBg1Bytes)
  let w := w.loadBlob stageBg3 (chr2.bytes (16 * third.t0) thirdBg3Bytes)
  let w := w.storeU16Le mbBg1dst (slotFor third p).1
  let w := w.storeU16Le mbBg3dst (slotFor third p).2
  let w := w.loadBlob mbReveal (revealBytes third p)
  w.setFrameReady 1

namespace Renderer

variable (raster : Raster) (r : Renderer)

/-- The frame to deliver from is there. -/
def ahead : Renderer := if r.haveFrame then r else r.renderFrame raster

/-- Behind the third `r.deliver`: the next third, or the next frame in the other parity. -/
def advance : Renderer :=
  if r.deliver + 1 < nBands then { r with deliver := r.deliver + 1 }
  else { r with deliver := 0, buildParity := r.buildParity.flip }.renderFrame raster

/-- `copro_r3d_render`; it returns 0. -/
def render (isr : Isr) (w : CartWindow) : Renderer × CartWindow :=
  let r := r.ahead raster
  let w := if r.initDone then w else stageInit isr w
  let r := if r.initDone then r else { r with deliver := 0, buildParity := .b, initDone := true }
  (r.advance raster, stageThird r.chr r.chr2 (deliverOrder r.deliver) r.buildParity w)

end Renderer

end Microgarbage.R3d
