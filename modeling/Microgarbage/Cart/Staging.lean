import Microgarbage.Cart.Shadow

/-!
# Staging

The state of `copro_mg_state.c` beside the shadows: the bytes and DMA descriptors that are staged
for the next frame, the frame the console is walking and the frame queued behind it. Direct uploads
move a checkpoint that each frame starts from again; transient uploads wait in a buffer until the
frame is built. The two 28 KB buffers of the level-two heap are taken as allocated.
-/

namespace Microgarbage.Cart

open Lib

def mgMaxStagedSlots : Nat := 48
def mgMaxSubframes : Nat := 8
def mgSubframeByteBudget : Nat := 9180
abbrev payloadBytes : Nat := 0x7000
def mgPendingTransientBufBytes : Nat := 32 * 1024
def mgPendingTransientMax : Nat := 8

def bbusOamdata : Byte := 0x04
def bbusVmdatal : Byte := 0x18
def bbusCgdata : Byte := 0x22
def dmap1b1r : Byte := 0
def dmap2b2r : Byte := 1

structure StagedSlot where
  bbus : Byte
  dmap : Byte
  prep : BitVec 16
  src : BitVec 16
  size : BitVec 16
  deriving DecidableEq

def StagedSlot.toDmaSlot (s : StagedSlot) : CartDmaSlot := { s with }

/-- A size of 0 transfers 65536 bytes. -/
def StagedSlot.transferBytes (s : StagedSlot) : Nat := if s.size = 0 then 65536 else s.size.toNat

/-- Up to 8 slots that are walked in one burst. -/
abbrev SubFrame := List StagedSlot

structure PendingTransientDma where
  bytes : List Byte
  prep : BitVec 16
  bbus : Byte
  dmap : Byte

/-- The window and the whole staging state. -/
structure Copro where
  cart : CartWindow
  state : MgState
  /-- `MG_NO_COMMIT_AHEAD`: one frame in flight instead of two. -/
  noCommitAhead : Bool
  hostPayload : Mem
  payloadUsed : Nat
  slotUsed : Nat
  payloadCheckpoint : Nat
  slotCheckpoint : Nat
  prevMgSlots : Nat
  staged : List StagedSlot
  stagedCheckpoint : Nat
  /-- The sub-frames of the active frame. -/
  subframes : List SubFrame
  subframeIndex : Nat
  activeValid : Bool
  queuedSubframes : List SubFrame
  queuedUsed : Nat
  queuedValid : Bool
  queuedHold : Mem
  queuedPpuBatch : PpuBatch
  pending : List PendingTransientDma
  hdmaTablesUsed : Nat
  cleanSlatePending : Bool
  cleanSlateDropAtConsumed : Word
  forceBlankUntilConsumed : Word
  forceBlankActive : Bool
  cgramReuploadFrames : Nat
  bgReuploadFrames : Nat

/-- Frames that may be in flight. -/
def Copro.pipelineMaxInflight (c : Copro) : Word := if c.noCommitAhead then 1 else 2

def CartWindow.clearDmaSlots (w : CartWindow) : CartWindow :=
  (List.range 8).foldl (fun w i => w.setDmaSlot i .empty) w

namespace Copro

variable (c : Copro)

/-- Program start: `cart_window_init` and `mg_state_init`. -/
def init (noCommitAhead : Bool) : Copro where
  cart := CartWindow.init.clearDmaSlots
  state := .reset
  noCommitAhead := noCommitAhead
  hostPayload := fun _ => 0
  payloadUsed := 0
  slotUsed := 0
  payloadCheckpoint := 0
  slotCheckpoint := 0
  prevMgSlots := 0
  staged := []
  stagedCheckpoint := 0
  subframes := []
  subframeIndex := 0
  activeValid := false
  queuedSubframes := []
  queuedUsed := 0
  queuedValid := false
  queuedHold := fun _ => 0
  queuedPpuBatch := .zero
  pending := []
  hdmaTablesUsed := 0
  cleanSlatePending := false
  cleanSlateDropAtConsumed := 0
  forceBlankUntilConsumed := 0
  forceBlankActive := false
  cgramReuploadFrames := 0
  bgReuploadFrames := 0

/-- `mg_state_reset`: the frames in flight are forgotten, the counters of the window are not. -/
def mgStateReset : Copro :=
  { c with
    state := .reset
    cart := c.cart.clearDmaSlots
    payloadUsed := 0
    slotUsed := 0
    prevMgSlots := 0
    payloadCheckpoint := 0
    slotCheckpoint := 0
    staged := []
    stagedCheckpoint := 0
    subframes := []
    subframeIndex := 0
    activeValid := false
    queuedValid := false
    queuedSubframes := []
    queuedUsed := 0
    cleanSlatePending := false
    cleanSlateDropAtConsumed := 0
    cgramReuploadFrames := 0
    bgReuploadFrames := 0 }

/-! ## HDMA tables -/

/-- `mg_state_stage_hdma_table`: the offset of the table in the window, or `none` when the pool is
full. -/
def stageHdmaTable (src : List Byte) : Option (BitVec 16 × Copro) :=
  if src.length = 0 then some (0, c)
  else if hdmaTablesBytes < c.hdmaTablesUsed + src.length then none
  else
    let off := offHdmaTables + c.hdmaTablesUsed
    some (BitVec.ofNat 16 off, { c with
      cart := c.cart.loadBlob off src
      hdmaTablesUsed := c.hdmaTablesUsed + src.length })

def dropHdmaTables : Copro := { c with hdmaTablesUsed := 0 }

/-! ## Payload and slots -/

def allocPayload (bytes : Nat) : Option (Nat × Copro) :=
  if payloadBytes < c.payloadUsed + bytes then none
  else some (c.payloadUsed, { c with payloadUsed := c.payloadUsed + bytes })

/-- `stage_dma`: the bytes go to the host's copy of the payload area and a descriptor to the end of
the staged list. -/
def stageDma (src : List Byte) (bbus dmap : Byte) (prep : BitVec 16) : Bool × Copro :=
  if mgMaxStagedSlots ≤ c.staged.length then (false, c)
  else if src.length = 0 then (true, c)
  else
    match c.allocPayload src.length with
    | none => (false, c)
    | some (off, c) =>
      (true, { c with
        hostPayload := c.hostPayload.copy off src
        staged := c.staged ++ [⟨bbus, dmap, prep, BitVec.ofNat 16 off, BitVec.ofNat 16 src.length⟩]
        slotUsed := c.slotUsed + 1 })

/-- Everything staged so far stays for the frames to come. -/
def checkpoint : Copro :=
  { c with
    payloadCheckpoint := c.payloadUsed
    slotCheckpoint := c.slotUsed
    stagedCheckpoint := c.staged.length }

/-- `mg_state_queue_dma`: a direct upload; the result is 0, -1 (no slot) or -2 (no bytes). -/
def queueDma (src : List Byte) (bbus dmap : Byte) (prep : BitVec 16) : Int × Copro :=
  if 8 ≤ c.slotUsed then (-1, c)
  else if payloadBytes < c.payloadUsed + src.length then (-2, c)
  else
    let r := c.stageDma src bbus dmap prep
    if r.1 then (0, r.2.checkpoint) else (-1, r.2)

def pendingBufUsed : Nat := (c.pending.map (·.bytes.length)).sum

def queueDmaTransient (src : List Byte) (bbus dmap : Byte) (prep : BitVec 16) : Int × Copro :=
  if mgPendingTransientMax ≤ c.pending.length then (-1, c)
  else if mgPendingTransientBufBytes < c.pendingBufUsed + src.length then (-2, c)
  else (0, { c with pending := c.pending ++ [⟨src, prep, bbus, dmap⟩] })

def dropPendingTransients : Copro := { c with pending := [] }

/-- Transients that do not fit are lost. -/
def flushPendingTransients : Copro :=
  { c.pending.foldl (fun c p => (c.stageDma p.bytes p.bbus p.dmap p.prep).2) c with pending := [] }

/-! ## Clean slate -/

/-- `mg_state_stage_vram_clear`: two zero bytes and a slot with a fixed source and the size 0. The
slot is written to the window and not to the staged list. -/
def stageVramClear : Bool × Copro :=
  if 8 ≤ c.slotUsed then (false, c)
  else
    match c.allocPayload 2 with
    | none => (false, c)
    | some (off, c) =>
      (true, { c with
        hostPayload := c.hostPayload.copy off [0, 0]
        cart := c.cart.setDmaSlot c.slotUsed
          ⟨bbusVmdatal, dmap2b2r ||| 0x10, BitVec.ofNat 16 off, 0, 0⟩
        slotUsed := c.slotUsed + 1 })

def armCleanSlateVramClear : Bool × Copro :=
  if c.slotUsed ≠ 0 then (false, c)
  else
    let r := c.stageVramClear
    if r.1 then
      (true, { r.2.checkpoint with
        cleanSlateDropAtConsumed := c.cart.frameConsumed + 1
        cleanSlatePending := true
        cgramReuploadFrames := 3
        bgReuploadFrames := 60
        forceBlankUntilConsumed := c.cart.frameConsumed + 4
        forceBlankActive := true })
    else
      (false, r.2)

/-- `h_ppu_clean_slate`. -/
def ppuCleanSlate : Copro :=
  let c := c.mgStateReset
  let c := { c with state := { c.state with cgramDirty := ⟨0, mgCgramBytes⟩ } }
  c.armCleanSlateVramClear.2

/-! ## What the queues change -/

variable {c}

theorem stageDma_cases (c : Copro) (src : List Byte) (bbus dmap : Byte) (prep : BitVec 16) :
    (c.stageDma src bbus dmap prep).2 = c ∧
        (mgMaxStagedSlots ≤ c.staged.length ∨ src.length = 0 ∨
          payloadBytes < c.payloadUsed + src.length) ∨
      c.stageDma src bbus dmap prep = (true, { c with
        payloadUsed := c.payloadUsed + src.length
        hostPayload := c.hostPayload.copy c.payloadUsed src
        staged := c.staged ++
          [⟨bbus, dmap, prep, BitVec.ofNat 16 c.payloadUsed, BitVec.ofNat 16 src.length⟩]
        slotUsed := c.slotUsed + 1 }) ∧
        c.staged.length < mgMaxStagedSlots ∧ src.length ≠ 0 ∧
          c.payloadUsed + src.length ≤ payloadBytes := by
  unfold stageDma
  split
  · exact .inl ⟨rfl, .inl ‹_›⟩
  · split
    · exact .inl ⟨rfl, .inr (.inl ‹_›)⟩
    · unfold allocPayload
      by_cases hfull : payloadBytes < c.payloadUsed + src.length
      · rw [if_pos hfull]
        exact .inl ⟨rfl, .inr (.inr hfull)⟩
      · rw [if_neg hfull]
        exact .inr ⟨rfl, by omega, ‹_›, by omega⟩

theorem queueDma_cases (c : Copro) (src : List Byte) (bbus dmap : Byte) (prep : BitVec 16) :
    (c.queueDma src bbus dmap prep).2 = c ∨
      (c.queueDma src bbus dmap prep).2 = (c.stageDma src bbus dmap prep).2.checkpoint := by
  unfold queueDma
  split
  · exact .inl rfl
  · split
    · exact .inl rfl
    · dsimp only
      split
      · exact .inr rfl
      · rename_i hr
        rcases stageDma_cases c src bbus dmap prep with ⟨heq, -⟩ | ⟨heq, -⟩
        · exact .inl heq
        · exact absurd (congrArg Prod.fst heq) hr

end Copro

end Microgarbage.Cart
