import Microgarbage.Cart.Window

/-!
# Shadow PPU state

`copro_mg_state.h` and the shadow handlers of `copro_mg_handlers.c`: guests write a copy of the
sprite table, the palette and the four tilemaps, and each copy has a range of dirty bytes that only
widens until a frame is built. The words of the palette are kept as their bytes in memory order.
-/

namespace Microgarbage.Cart

open Lib Mem

abbrev mgOamBytes : Nat := 544
abbrev mgCgramBytes : Nat := 512
abbrev mgBgTilemapBytes : Nat := 2048

def mgROk : Word := 0
def mgRErrDmaSlots : Word := -1
def mgRErrDmaBytes : Word := -2
def mgRErrInvalid : Word := -3

/-! ## Dirty ranges -/

/-- A half-open range of bytes, empty when both ends are equal. -/
structure DirtyRange where
  lo : Nat
  hi : Nat
  deriving DecidableEq

namespace DirtyRange

def clean : DirtyRange := ⟨0, 0⟩

def widen (r : DirtyRange) (lo hi : Nat) : DirtyRange :=
  if r.hi = r.lo then ⟨lo, hi⟩ else ⟨if lo < r.lo then lo else r.lo, if r.hi < hi then hi else r.hi⟩

/-- `mg_state_dirty_*`: a range that is empty or runs over the end of the shadow is ignored. -/
def mark (r : DirtyRange) (size lo hi : Nat) : DirtyRange :=
  if hi ≤ lo ∨ size < hi then r else r.widen lo hi

def Dirty (r : DirtyRange) : Prop := r.lo < r.hi

instance (r : DirtyRange) : Decidable r.Dirty := inferInstanceAs (Decidable (_ < _))

def Mem (r : DirtyRange) (i : Nat) : Prop := r.lo ≤ i ∧ i < r.hi

end DirtyRange

/-! ## State -/

structure MgBgLayerState where
  tilemapWord : BitVec 16
  chrWord : BitVec 16
  sizeCode : Byte
  enabledMain : Bool
  enabledSub : Bool
  hofs : BitVec 16
  vofs : BitVec 16
  shadow : Mem
  dirty : DirtyRange
  shadowEverWritten : Bool

def MgBgLayerState.reset : MgBgLayerState :=
  ⟨0, 0, 0, false, false, 0, 0, fun _ => 0, .clean, false⟩

def MgBgLayerState.enabled (bg : MgBgLayerState) : Bool := bg.enabledMain || bg.enabledSub

structure HdmaChannel where
  enabled : Bool
  bbad : Byte
  dmap : Byte
  tableOff : BitVec 16

structure MgSpriteConfig where
  sizesCode : Byte
  chrBase0Word : BitVec 16
  chrBase1Word : BitVec 16

structure MgState where
  oamShadow : Mem
  oamDirty : DirtyRange
  cgramShadow : Mem
  cgramDirty : DirtyRange
  bg : Fin 4 → MgBgLayerState
  spr : MgSpriteConfig
  bgmode : Byte
  colorMath : Bool
  forceBlankTop : Nat
  forceBlankBottom : Nat
  hdma : Fin 7 → HdmaChannel
  m7a : BitVec 16
  m7b : BitVec 16
  m7c : BitVec 16
  m7d : BitVec 16
  m7cx : BitVec 16
  m7cy : BitVec 16
  m7sel : Byte

namespace MgState

variable (st : MgState)

/-- Every sprite off the screen at line 240. -/
def hiddenOam : Mem := fun i => if i % 4 = 1 ∧ i < 512 then 240 else 0

/-- The shadow part of `mg_state_reset`. -/
def reset : MgState where
  oamShadow := hiddenOam
  oamDirty := ⟨0, mgOamBytes⟩
  cgramShadow := fun _ => 0
  cgramDirty := ⟨0, mgCgramBytes⟩
  bg := fun _ => .reset
  spr := ⟨0, 0, 0⟩
  bgmode := 0
  colorMath := false
  forceBlankTop := 0
  forceBlankBottom := 0
  hdma := fun _ => ⟨false, 0, 0, 0⟩
  m7a := 256
  m7b := 0
  m7c := 0
  m7d := 256
  m7cx := 0
  m7cy := 0
  m7sel := 0

def dirtyOam (lo hi : Nat) : MgState := { st with oamDirty := st.oamDirty.mark mgOamBytes lo hi }

def dirtyCgram (lo hi : Nat) : MgState :=
  { st with cgramDirty := st.cgramDirty.mark mgCgramBytes lo hi }

def setBg (layer : Fin 4) (f : MgBgLayerState → MgBgLayerState) : MgState :=
  { st with bg := Function.update st.bg layer (f (st.bg layer)) }

def dirtyBg (layer : Fin 4) (lo hi : Nat) : MgState :=
  if hi ≤ lo ∨ mgBgTilemapBytes < hi then st
  else st.setBg layer fun bg =>
    { bg with dirty := bg.dirty.widen lo hi, shadowEverWritten := true }

end MgState

/-! ## Sprites -/

structure MgSpriteHost where
  x : BitVec 16
  y : Byte
  tile : BitVec 16
  palette : BitVec 3
  priority : BitVec 2
  hflip : Bool
  vflip : Bool
  sizeLarge : Bool

/-- Byte and bit position of the sprite's cell in the high table. -/
def hiByteOff (slot : Nat) : Nat := 512 + slot / 4

def hiShift (slot : Nat) : Nat := slot % 4 * 2

def xHigh (x : BitVec 16) : Byte := if x.toInt < 0 ∨ 255 < x.toInt then 1 else 0

def bit (b : Bool) : Byte := if b then 1 else 0

def MgSpriteHost.attrs (s : MgSpriteHost) : Byte :=
  byteOf s.tile 1 &&& 1 ||| s.palette.setWidth 8 <<< 1 ||| s.priority.setWidth 8 <<< 4 |||
    bit s.hflip <<< 6 ||| bit s.vflip <<< 7

/-- The handlers do not check the slot: where the bytes of the first `n` slots only are inside the
table, a higher one writes behind it, which has no result in C and none here. -/
def oamSlot (slot : Byte) (n : Nat) : Option Nat := if slot.toNat < n then some slot.toNat else none

namespace MgState

variable (st : MgState)

def shadowWriteSprite (slot : Nat) (s : MgSpriteHost) : MgState :=
  let off := slot * 4
  let oam := st.oamShadow.copy off [byteOf s.x 0, s.y, byteOf s.tile 0, s.attrs]
  let bits := xHigh s.x ||| bit s.sizeLarge <<< 1
  let hi := (oam (hiByteOff slot) &&& ~~~((3 : Byte) <<< hiShift slot)) ||| bits <<< hiShift slot
  { st with oamShadow := Function.update oam (hiByteOff slot) hi }
    |>.dirtyOam off (off + 4) |>.dirtyOam (hiByteOff slot) (hiByteOff slot + 1)

def spriteSet (slot : Byte) (s : Option MgSpriteHost) : Option (Word × MgState) :=
  match s with
  | none => some (mgRErrInvalid, st)
  | some s => (oamSlot slot 128).map fun slot => (mgROk, st.shadowWriteSprite slot s)

def spriteMove (slot : Byte) (x : BitVec 16) (y : Byte) : Option (Word × MgState) :=
  (oamSlot slot 128).map fun slot =>
    let off := slot * 4
    let oam := st.oamShadow.copy off [byteOf x 0, y]
    let cur := (oam (hiByteOff slot) &&& ~~~((1 : Byte) <<< hiShift slot)) ||| xHigh x <<< hiShift slot
    (mgROk, { st with oamShadow := Function.update oam (hiByteOff slot) cur }
      |>.dirtyOam off (off + 2) |>.dirtyOam (hiByteOff slot) (hiByteOff slot + 1))

def spriteHide (slot : Byte) : Option (Word × MgState) :=
  (oamSlot slot 136).map fun slot =>
    let off := slot * 4
    (mgROk, { st with oamShadow := Function.update st.oamShadow (off + 1) 240 }
      |>.dirtyOam (off + 1) (off + 2))

def spritesClearAll : Word × MgState :=
  (mgROk, { st with oamShadow := fun i => if i % 4 = 1 ∧ i < 512 then 240 else st.oamShadow i }
    |>.dirtyOam 0 mgOamBytes)

def spriteSizes (code : Byte) : Word × MgState :=
  (mgROk, { st with spr := { st.spr with sizesCode := code } })

def spriteChrBase (base0 base1 : BitVec 16) : Word × MgState :=
  (mgROk, { st with spr := { st.spr with chrBase0Word := base0, chrBase1Word := base1 } })

/-! ## Backgrounds -/

def bgMode (mode : Byte) : Word × MgState := (mgROk, { st with bgmode := mode &&& 7 })

/-- The handlers of one layer reject a layer that does not exist. -/
def onLayer (layer : Byte) (f : Fin 4 → Word × MgState) : Word × MgState :=
  if h : layer.toNat < 4 then f ⟨layer.toNat, h⟩ else (mgRErrInvalid, st)

def bgSetup (layer : Byte) (tilemapWord : BitVec 16) (sizeCode : Byte) (chrWord : BitVec 16) :
    Word × MgState :=
  st.onLayer layer fun l => (mgROk, st.setBg l fun bg =>
    { bg with tilemapWord := tilemapWord, sizeCode := sizeCode, chrWord := chrWord })

def bgEnable (layer mask : Byte) : Word × MgState :=
  st.onLayer layer fun l => (mgROk, st.setBg l fun bg =>
    { bg with enabledMain := mask.getLsbD 0, enabledSub := mask.getLsbD 1 })

def bgSetTile (layer x y : Byte) (word : BitVec 16) : Word × MgState :=
  st.onLayer layer fun l =>
    if 32 ≤ x.toNat ∨ 32 ≤ y.toNat then (mgRErrInvalid, st)
    else
      let off := (y.toNat * 32 + x.toNat) * 2
      (mgROk, (st.setBg l fun bg => { bg with shadow := bg.shadow.store off 2 word }).dirtyBg l off
        (off + 2))

/-- The cells of a blit from position `pos` on; a cell at or behind the end wraps to the start. The
second part is false when a cell of the guest could not be read. -/
def blitCells (map : Mem) (pos : Nat) : List (Option (BitVec 16)) → Mem × Bool
  | [] => (map, true)
  | none :: _ => (map, false)
  | some word :: cells =>
    let pos := if mgBgTilemapBytes ≤ pos then 0 else pos
    blitCells (map.store pos 2 word) (pos + 2) cells

/-- The cells read before a fault stay in the shadow without being marked. -/
def bgBlit (layer x y : Byte) (cells : List (Option (BitVec 16))) : Word × MgState :=
  st.onLayer layer fun l =>
    let r := blitCells (st.bg l).shadow ((y.toNat * 32 + x.toNat) * 2) cells
    let st' := st.setBg l fun bg => { bg with shadow := r.1 }
    if r.2 then (mgROk, st'.dirtyBg l 0 mgBgTilemapBytes) else (mgRErrInvalid, st')

def bgScroll (layer : Byte) (hx vy : BitVec 16) : Word × MgState :=
  st.onLayer layer fun l => (mgROk, st.setBg l fun bg => { bg with hofs := hx, vofs := vy })

/-! ## Mode 7, HDMA and the palette -/

structure MgMode7ParamsHost where
  a : BitVec 16
  b : BitVec 16
  c : BitVec 16
  d : BitVec 16
  cx : BitVec 16
  cy : BitVec 16
  hofs : BitVec 16
  vofs : BitVec 16

def mode7Set (p : Option MgMode7ParamsHost) : Word × MgState :=
  match p with
  | none => (mgRErrInvalid, st)
  | some p =>
    let st := { st with
      m7a := p.a
      m7b := p.b
      m7c := p.c
      m7d := p.d
      m7cx := p.cx
      m7cy := p.cy }
    (mgROk, st.setBg 0 fun bg => { bg with hofs := p.hofs, vofs := p.vofs })

def snesScreenOver (guest : BitVec 2) : Byte :=
  if guest = 2 then 0xC0 else if guest = 3 then 0x80 else 0

def mode7Wrap (guest : Byte) : Word × MgState :=
  (mgROk, { st with m7sel := snesScreenOver (guest.setWidth 2) })

/-- Guests have the channels 1 to 6. -/
def onChannel (channel : Byte) (f : Fin 7 → Word × MgState) : Word × MgState :=
  if h : channel.toNat < 7 then
    if channel = 0 then (mgRErrInvalid, st) else f ⟨channel.toNat, h⟩
  else (mgRErrInvalid, st)

def setHdma (c : Fin 7) (f : HdmaChannel → HdmaChannel) : MgState :=
  { st with hdma := Function.update st.hdma c (f (st.hdma c)) }

def hdmaDmap (xfer : Byte) (indirect : Bool) : Byte :=
  let d : Byte := match (xfer.setWidth 2).toNat with
    | 0 => 0
    | 1 => 2
    | 2 => 1
    | _ => 3
  if indirect then d ||| 0x40 else d

structure MgHdmaCfgHost where
  channel : Byte
  dest : Byte
  xfer : Byte
  indirect : Byte

def hdmaSetup (cfg : Option MgHdmaCfgHost) : Word × MgState :=
  match cfg with
  | none => (mgRErrInvalid, st)
  | some cfg => st.onChannel cfg.channel fun c => (mgROk, st.setHdma c fun ch =>
      { ch with bbad := cfg.dest, dmap := hdmaDmap cfg.xfer (cfg.indirect != 0) })

def hdmaEnable (channel : Byte) (on : Word) : Word × MgState :=
  st.onChannel channel fun c => (mgROk, st.setHdma c fun ch => { ch with enabled := on != 0 })

/-- Red, green and blue to five bits each. -/
def packRgb (r g b : Byte) : BitVec 16 :=
  (b.setWidth 16 >>> 3) <<< 10 ||| (g.setWidth 16 >>> 3) <<< 5 ||| r.setWidth 16 >>> 3

/-- Palette entries from `i` on, up to the first colour that could not be read. -/
def writeColors (cgram : Mem) (i : Nat) : List (Option (BitVec 16)) → Mem × Bool
  | [] => (cgram, true)
  | none :: _ => (cgram, false)
  | some w :: ws => writeColors (cgram.store (i * 2) 2 w) (i + 1) ws

/-- `colors` are the guest's entries, packed from 24 bits when the format says so. -/
def paletteWrite (start : Byte) (count : Nat) (colors : Nat → Option (BitVec 16)) :
    Word × MgState :=
  if count = 0 then (mgROk, st)
  else
    let count := if 256 < start.toNat + count then 256 - start.toNat else count
    let r := writeColors st.cgramShadow start.toNat ((List.range count).map colors)
    let st' := { st with cgramShadow := r.1 }
    if r.2 then (mgROk, st'.dirtyCgram (start.toNat * 2) ((start.toNat + count) * 2))
    else (mgRErrInvalid, st')

/-- At least 16 lines stay visible. -/
def setBlank (top bot : Byte) : Word × MgState :=
  if 208 < top.toNat + bot.toNat then (mgRErrInvalid, st)
  else (mgROk, { st with forceBlankTop := top.toNat, forceBlankBottom := bot.toNat })

end MgState

/-! ## What the handlers keep -/

namespace DirtyRange

theorem widen_hi_le {r : DirtyRange} {lo hi size : Nat} (h : r.hi ≤ size) (hhi : hi ≤ size) :
    (r.widen lo hi).hi ≤ size := by
  unfold widen
  split
  · exact hhi
  · dsimp only
    split <;> assumption

theorem mark_hi_le {r : DirtyRange} {size : Nat} (lo hi : Nat) (h : r.hi ≤ size) :
    (r.mark size lo hi).hi ≤ size := by
  unfold mark
  split
  · exact h
  · exact widen_hi_le h (by omega)

end DirtyRange

/-- The dirty ranges are inside their shadows. -/
structure MgState.RangesOk (st : MgState) : Prop where
  cgram : st.cgramDirty.hi ≤ mgCgramBytes
  bg : ∀ i, (st.bg i).dirty.hi ≤ mgBgTilemapBytes

theorem MgState.RangesOk.reset : RangesOk MgState.reset := ⟨Nat.le_refl _, fun _ => Nat.zero_le _⟩

namespace MgState

/-- The lines that are kept dark. -/
def blankLines (st : MgState) : Nat := st.forceBlankTop + st.forceBlankBottom

/-- Nothing behind the shadows changes. -/
structure Within (st st' : MgState) : Prop where
  oam : SameFrom mgOamBytes st.oamShadow st'.oamShadow
  cgram : SameFrom mgCgramBytes st.cgramShadow st'.cgramShadow
  bg : ∀ i, SameFrom mgBgTilemapBytes (st.bg i).shadow (st'.bg i).shadow

namespace Within

variable {st st' st'' : MgState}

theorem refl : Within st st := ⟨.refl, .refl, fun _ => .refl⟩

theorem trans (h : Within st st') (h' : Within st' st'') : Within st st'' :=
  ⟨h.oam.trans h'.oam, h.cgram.trans h'.cgram, fun i => (h.bg i).trans (h'.bg i)⟩

end Within

/-- A handler keeps what is behind the shadows, the ends of the dirty ranges and the visible lines. -/
structure Keeps (st st' : MgState) : Prop extends Within st st' where
  ranges : st.RangesOk → st'.RangesOk
  blank : st.blankLines ≤ 208 → st'.blankLines ≤ 208

namespace Keeps

variable {st st' st'' : MgState}

theorem refl : Keeps st st := ⟨.refl, id, id⟩

theorem trans (h : Keeps st st') (h' : Keeps st' st'') : Keeps st st'' :=
  ⟨h.toWithin.trans h'.toWithin, h'.ranges ∘ h.ranges, h'.blank ∘ h.blank⟩

theorem setOam {oam : Mem} (d : DirtyRange) (h : SameFrom mgOamBytes st.oamShadow oam) :
    Keeps st { st with oamShadow := oam, oamDirty := d } :=
  ⟨⟨h, .refl, fun _ => .refl⟩, fun hr => ⟨hr.cgram, hr.bg⟩, id⟩

theorem setBg (l : Fin 4) {f : MgBgLayerState → MgBgLayerState}
    (hs : SameFrom mgBgTilemapBytes (st.bg l).shadow (f (st.bg l)).shadow)
    (hd : (st.bg l).dirty.hi ≤ mgBgTilemapBytes → (f (st.bg l)).dirty.hi ≤ mgBgTilemapBytes) :
    Keeps st (st.setBg l f) := by
  refine ⟨⟨.refl, .refl, ?_⟩, fun hr => ⟨hr.cgram, ?_⟩, id⟩
  · exact (Function.forall_update_iff st.bg
      (p := fun i bg => SameFrom mgBgTilemapBytes (st.bg i).shadow bg.shadow)).mpr
      ⟨hs, fun _ _ => .refl⟩
  · exact (Function.forall_update_iff st.bg (p := fun _ bg => bg.dirty.hi ≤ mgBgTilemapBytes)).mpr
      ⟨hd (hr.bg l), fun i _ => hr.bg i⟩

theorem dirtyBg (l : Fin 4) (lo hi : Nat) : Keeps st (st.dirtyBg l lo hi) := by
  unfold MgState.dirtyBg
  split
  · exact .refl
  · exact setBg l .refl fun hd => DirtyRange.widen_hi_le hd (by omega)

theorem onLayer {layer : Byte} {f : Fin 4 → Word × MgState} (hf : ∀ l, Keeps st (f l).2) :
    Keeps st (st.onLayer layer f).2 := by
  unfold MgState.onLayer
  split
  · exact hf _
  · exact .refl

theorem onChannel {channel : Byte} {f : HdmaChannel → HdmaChannel} :
    Keeps st (st.onChannel channel fun c => (mgROk, st.setHdma c f)).2 := by
  unfold MgState.onChannel
  split
  · split
    · exact .refl
    · exact ⟨⟨.refl, .refl, fun _ => .refl⟩, fun hr => ⟨hr.cgram, hr.bg⟩, id⟩
  · exact .refl

end Keeps

theorem blitCells_sameFrom (map : Mem) (pos : Nat) (hpos : pos % 2 = 0)
    (cells : List (Option (BitVec 16))) :
    SameFrom mgBgTilemapBytes map (blitCells map pos cells).1 := by
  induction cells generalizing map pos with
  | nil => exact .refl
  | cons cell cells ih =>
    cases cell with
    | none => exact .refl
    | some word =>
      unfold blitCells
      dsimp only
      generalize hp : (if mgBgTilemapBytes ≤ pos then 0 else pos) = p
      have hin : p + 2 ≤ mgBgTilemapBytes ∧ p % 2 = 0 := by
        have hsize : mgBgTilemapBytes = 2048 := rfl
        split at hp <;> omega
      exact (SameFrom.store word hin.1).trans (ih _ _ (by omega))

theorem writeColors_sameFrom (cgram : Mem) (i : Nat) (colors : List (Option (BitVec 16)))
    (h : i + colors.length ≤ 256) :
    SameFrom mgCgramBytes cgram (writeColors cgram i colors).1 := by
  induction colors generalizing cgram i with
  | nil => exact .refl
  | cons color colors ih =>
    cases color with
    | none => exact .refl
    | some w =>
      rw [List.length_cons] at h
      have hsize : mgCgramBytes = 512 := rfl
      exact (SameFrom.store w (by omega)).trans (ih _ _ (by omega))

end MgState

end Microgarbage.Cart
