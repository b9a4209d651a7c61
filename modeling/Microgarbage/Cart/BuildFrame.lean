import Microgarbage.Cart.FrameQueue

/-!
# Building a frame

`mg_state_build_frame`: the register batches and tables are written, every dirty range of a shadow
is staged as a DMA, the transient uploads follow, and the staged list is committed.
-/

namespace Microgarbage.Cart

open Lib

/-! ## The register batch -/

def computeObsel (cfg : MgSpriteConfig) : Byte :=
  let nb := (cfg.chrBase0Word >>> 13).setWidth 8 &&& 7
  let nnPlus1 := ((cfg.chrBase1Word - cfg.chrBase0Word) >>> 12).toNat
  let gap : Byte :=
    if cfg.chrBase0Word < cfg.chrBase1Word ∧ 0 < nnPlus1 then BitVec.ofNat 8 (nnPlus1 - 1) &&& 3
    else 0
  cfg.sizesCode <<< 5 ||| gap <<< 3 ||| nb

/-- `mg_bg_sc`: the tilemap's base in units of 1024 words, and the size code. -/
def computeBgxsc (bg : MgBgLayerState) : Byte :=
  (bg.tilemapWord >>> 10).setWidth 8 <<< 2 ||| bg.sizeCode &&& 3

/-- `mg_chr_page`. -/
def chrPage (bg : MgBgLayerState) : Byte := (bg.chrWord >>> 12).setWidth 8 &&& 0x0F

namespace MgState

variable (st : MgState)

def anySpriteOnscreen : Bool := (List.range 128).any fun i => (st.oamShadow (i * 4 + 1)).toNat < 224

/-- One bit for each layer. -/
def layerMask (f : MgBgLayerState → Bool) : Byte :=
  (List.finRange 4).foldl (fun m i => if f (st.bg i) then m ||| (1 : Byte) <<< i.val else m) 0

/-- `emit_ppu_batch`. -/
def ppuBatch : PpuBatch where
  bgmode := st.bgmode
  obsel := computeObsel st.spr
  bg1sc := computeBgxsc (st.bg 0)
  bg2sc := computeBgxsc (st.bg 1)
  bg3sc := computeBgxsc (st.bg 2)
  bg4sc := computeBgxsc (st.bg 3)
  bg12nba := chrPage (st.bg 1) <<< 4 ||| chrPage (st.bg 0)
  bg34nba := chrPage (st.bg 3) <<< 4 ||| chrPage (st.bg 2)
  tm := if st.anySpriteOnscreen then st.layerMask (·.enabledMain) ||| 0x10
    else st.layerMask (·.enabledMain)
  ts := st.layerMask (·.enabledSub)
  mosaic := 0
  cgwsel := if st.colorMath then 0x02 else 0
  cgadsub := if st.colorMath then 0x41 else 0
  bg1hofs := (st.bg 0).hofs
  bg1vofs := (st.bg 0).vofs
  bg2hofs := (st.bg 1).hofs
  bg2vofs := (st.bg 1).vofs
  bg3hofs := (st.bg 2).hofs
  bg3vofs := (st.bg 2).vofs
  bg4hofs := (st.bg 3).hofs
  bg4vofs := (st.bg 3).vofs

open CartDmaSlot in
def mode7Batch : List Byte :=
  [st.m7sel, 0] ++ le16 st.m7a ++ le16 st.m7b ++ le16 st.m7c ++ le16 st.m7d ++ le16 st.m7cx ++
    le16 st.m7cy ++ [0, 0]

/-- The 8 bytes of one HDMA channel. -/
def hdmaCfg (ch : HdmaChannel) : List Byte :=
  [bit ch.enabled, ch.bbad, ch.dmap, 0, byteOf ch.tableOff 0, byteOf ch.tableOff 1, 0, 0]

def hdmaConfig : List Byte := (List.finRange 7).flatMap fun c => hdmaCfg (st.hdma c)

end MgState

/-! ## The brightness table -/

/-- Chunks of at most 127 lines, each a count and one value for each line. -/
def lbChunks (val : Byte) : Nat → Nat → List Byte
  | 0, _ => []
  | fuel + 1, lines =>
    if lines = 0 then []
    else
      let n := min lines 127
      (0x80 ||| BitVec.ofNat 8 n) :: List.replicate n val ++ lbChunks val fuel (lines - n)

/-- The buffer of the table behind its end is zero. -/
def padInidisp (table : List Byte) : List Byte :=
  table ++ List.replicate (inidispHdmaBytes - table.length) 0

/-- `emit_inidisp_table`: what is written. Only the table with a top and a bottom is not padded. -/
def inidispTable (blank : Bool) (t b : Nat) : List Byte :=
  if blank then padInidisp (lbChunks 0x80 224 224 ++ [0])
  else if t = 0 ∧ b = 0 then padInidisp []
  else if 0 < t ∧ b = 0 then padInidisp (lbChunks 0x80 t t ++ [0x81, 0x0F] ++ [0])
  else
    let visible := 224 - t - b
    lbChunks 0x80 t t ++ lbChunks 0x0F visible visible ++ lbChunks 0x80 b b ++ [0]

namespace Copro

variable (c : Copro)

/-! ## The steps of `mg_state_build_frame` -/

/-- The slot of the VRAM clear is emptied once the console has consumed a frame after it. -/
def dropCleanSlate : Copro :=
  if c.cleanSlatePending ∧ c.cleanSlateDropAtConsumed ≤ c.cart.frameConsumed then
    { c with
      cart := c.cart.setDmaSlot 0 .empty
      cleanSlatePending := false
      cleanSlateDropAtConsumed := 0 }
  else
    c

def reuploadCgram : Copro :=
  if 0 < c.cgramReuploadFrames then
    { c with
      state := { c.state with cgramDirty := ⟨0, mgCgramBytes⟩ }
      cgramReuploadFrames := c.cgramReuploadFrames - 1 }
  else
    c

/-- A layer that is enabled, has been written and is clean is sent again in full. -/
def reuploadLayer (bg : MgBgLayerState) : MgBgLayerState :=
  if bg.enabled ∧ bg.shadowEverWritten ∧ ¬ bg.dirty.Dirty then
    { bg with dirty := ⟨0, mgBgTilemapBytes⟩ }
  else
    bg

def reuploadBg : Copro :=
  if 0 < c.bgReuploadFrames then
    { c with
      state := { c.state with bg := fun i => reuploadLayer (c.state.bg i) }
      bgReuploadFrames := c.bgReuploadFrames - 1 }
  else
    c

/-- Back to the direct uploads. -/
def rewind : Copro :=
  { c with
    payloadUsed := c.payloadCheckpoint
    slotUsed := c.slotCheckpoint
    staged := c.staged.take c.stagedCheckpoint
    hdmaTablesUsed := 0 }

/-- The slots that the last frame used behind the direct uploads are emptied. -/
def clearMgSlots : Copro :=
  { c with
    cart := (List.range 8).foldl (fun w i =>
      if c.slotCheckpoint ≤ i ∧ i < c.prevMgSlots then w.setDmaSlot i .empty else w) c.cart }

def emitPpuBatch : Copro := { c with queuedPpuBatch := c.state.ppuBatch }

def emitInidispTable : Copro :=
  let blank := c.forceBlankActive &&
    decide (c.cart.frameConsumed < c.forceBlankUntilConsumed)
  { c with
    cart := c.cart.loadBlob offInidispHdma
      (inidispTable blank c.state.forceBlankTop c.state.forceBlankBottom)
    forceBlankActive := blank }

def emitMode7Batch : Copro := { c with cart := c.cart.setMode7Batch c.state.mode7Batch }

def emitHdmaConfig : Copro := { c with cart := c.cart.loadBlob offHdmaConfig c.state.hdmaConfig }

/-- The dirty range is cleared whether or not the bytes could be staged. -/
def stageCgram : Copro :=
  let r := c.state.cgramDirty
  if r.Dirty then
    let c := (c.stageDma (c.state.cgramShadow.bytes r.lo (r.hi - r.lo)) bbusCgdata dmap1b1r
      (BitVec.ofNat 16 (r.lo / 2 % 256))).2
    { c with state := { c.state with cgramDirty := .clean } }
  else
    c

/-- The whole sprite table is sent, whatever the range. -/
def stageOam : Copro :=
  if c.state.oamDirty.Dirty then
    let c := (c.stageDma (c.state.oamShadow.bytes 0 mgOamBytes) bbusOamdata dmap1b1r 0).2
    { c with state := { c.state with oamDirty := .clean } }
  else
    c

/-- A disabled layer keeps its dirty range. -/
def stageLayer (i : Fin 4) : Copro :=
  let bg := c.state.bg i
  if bg.dirty.Dirty ∧ bg.enabled then
    let c := (c.stageDma (bg.shadow.bytes bg.dirty.lo (bg.dirty.hi - bg.dirty.lo)) bbusVmdatal
      dmap2b2r (bg.tilemapWord + BitVec.ofNat 16 (bg.dirty.lo / 2))).2
    { c with state := c.state.setBg i fun bg => { bg with dirty := .clean } }
  else
    c

def stageLayers : Copro := (List.finRange 4).foldl stageLayer c

/-- Registers and tables, and the staged list back at the direct uploads. -/
def prepareFrame : Copro :=
  c.dropCleanSlate.reuploadCgram.reuploadBg.rewind.clearMgSlots.emitPpuBatch.emitInidispTable
    |>.emitMode7Batch |>.emitHdmaConfig

/-- The part of `mg_state_build_frame` before the frame is packed. -/
def stageFrame : Copro :=
  c.prepareFrame.stageCgram.stageOam.stageLayers.flushPendingTransients

/-- How many slots the next frame clears. -/
def rememberSlots : Copro := { c with prevMgSlots := c.slotUsed }

/-- `mg_state_build_frame`. -/
def buildFrame : Copro := c.stageFrame.flushSubframes.rememberSlots

end Copro

end Microgarbage.Cart
