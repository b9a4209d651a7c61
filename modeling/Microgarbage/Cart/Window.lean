import Mathlib.Algebra.GroupWithZero.Nat
import Mathlib.Logic.Function.Basic
import Microgarbage.Lib.Bytes

/-!
# The cart window

`cart_window.c`: the 64 KB that the console sees as its cartridge, and the registers behind it. A
read is served from the window except at a few addresses that have side effects. Producers copy
blocks into the window; a block that runs over the end is clipped. Counters of staged and consumed
frames wrap at 32 bits.
-/

namespace Microgarbage.Cart

open Lib

/-- For the numbers of the layers. -/
scoped instance (priority := 2000) neZeroLayers : NeZero 4 := ⟨Nat.succ_ne_zero 3⟩

abbrev Word := BitVec 32

/-! ## Layout -/

abbrev cartWindowBytes : Nat := 0x10000

abbrev offFrameReady : Nat := 0x7800
abbrev offDmaList : Nat := 0x7808
abbrev offPpuBatch : Nat := 0x7848
abbrev offInidispHdma : Nat := 0x7868
abbrev inidispHdmaBytes : Nat := 256
abbrev offHdmaConfig : Nat := 0x7968
abbrev offMode7Batch : Nat := 0x79A0
abbrev offHdmaTables : Nat := 0x7000
abbrev hdmaTablesBytes : Nat := 0x800
abbrev offNmiCode : Nat := 0x6C00
abbrev nmiCodeBytes : Nat := 0x400
abbrev offHirqCode : Nat := 0x6800
abbrev offStrobeBoot : Nat := 0x79B0
abbrev offStatus : Nat := 0x79B1
abbrev offNmiVersion : Nat := 0x79B2
abbrev offHirqVersion : Nat := 0x79B3
abbrev offHirqSched : Nat := 0x79B4
abbrev offKernelLayout : Nat := 0x79B9
abbrev offSiphonConfig : Nat := 0x79BB
abbrev offFrameDone : Nat := 0x79C1
abbrev offDbgBudget : Nat := 0x7A00
abbrev offDbgSiphon : Nat := 0x7A40
abbrev offJoyBase : Nat := 0x7000
abbrev offJoyEnd : Nat := 0x7800

def statusKernelRdy : Byte := 0x80

/-! ## Descriptors -/

/-- A DMA descriptor of 8 bytes; a zero `bbus` marks an empty slot. -/
structure CartDmaSlot where
  bbus : Byte
  dmap : Byte
  src : BitVec 16
  size : BitVec 16
  prep : BitVec 16
  deriving DecidableEq

namespace CartDmaSlot

def empty : CartDmaSlot := ⟨0, 0, 0, 0, 0⟩

def le16 (v : BitVec 16) : List Byte := [byteOf v 0, byteOf v 1]

def bytes (s : CartDmaSlot) : List Byte :=
  [s.bbus, s.dmap] ++ le16 s.src ++ le16 s.size ++ le16 s.prep

@[simp] theorem length_bytes (s : CartDmaSlot) : s.bytes.length = 8 := rfl

end CartDmaSlot

/-- The registers the kernel writes at vblank, before the DMA list. -/
structure PpuBatch where
  bgmode : Byte
  obsel : Byte
  bg1sc : Byte
  bg2sc : Byte
  bg3sc : Byte
  bg4sc : Byte
  bg12nba : Byte
  bg34nba : Byte
  tm : Byte
  ts : Byte
  mosaic : Byte
  cgwsel : Byte
  cgadsub : Byte
  bg1hofs : BitVec 16
  bg1vofs : BitVec 16
  bg2hofs : BitVec 16
  bg2vofs : BitVec 16
  bg3hofs : BitVec 16
  bg3vofs : BitVec 16
  bg4hofs : BitVec 16
  bg4vofs : BitVec 16
  deriving DecidableEq

namespace PpuBatch

open CartDmaSlot in
def bytes (b : PpuBatch) : List Byte :=
  [b.bgmode, b.obsel, b.bg1sc, b.bg2sc, b.bg3sc, b.bg4sc, b.bg12nba, b.bg34nba, b.tm, b.ts,
    b.mosaic, b.cgwsel, b.cgadsub, 0, 0, 0] ++
  le16 b.bg1hofs ++ le16 b.bg1vofs ++ le16 b.bg2hofs ++ le16 b.bg2vofs ++
  le16 b.bg3hofs ++ le16 b.bg3vofs ++ le16 b.bg4hofs ++ le16 b.bg4vofs

@[simp] theorem length_bytes (b : PpuBatch) : b.bytes.length = 32 := rfl

def zero : PpuBatch := ⟨0, 0, 0, 0, 0, 0, 0, 0, 0, 0, 0, 0, 0, 0, 0, 0, 0, 0, 0, 0, 0⟩

end PpuBatch

/-! ## State -/

structure CartWindow where
  window : Mem
  status : Byte
  frameReady : Byte
  frameStaged : Word
  frameConsumed : Word
  /-- The joypad port polled last, `UINT_MAX` before any. -/
  lastPadPort : Word

namespace CartWindow

variable (w : CartWindow)

/-- `cart_window_init`; the counters are zero at program start. -/
def init : CartWindow := ⟨fun _ => 0, statusKernelRdy, 0, 0, 0, -1⟩

/-! ## Producers -/

/-- `memcpy` to an offset, clipped at the end of the window. -/
def loadBlob (off : Nat) (src : List Byte) : CartWindow :=
  if cartWindowBytes ≤ off then w
  else { w with window := w.window.copy off (src.take (cartWindowBytes - off)) }

def storeU16Le (off : Nat) (v : BitVec 16) : CartWindow :=
  if cartWindowBytes < off + 2 then w else { w with window := w.window.store off 2 v }

/-- With no video player active, a staged frame clears the siphon configuration. -/
def setFrameReady (byte : Byte) : CartWindow :=
  let w := { w with frameReady := byte }
  if byte ≠ 0 then
    { w with frameStaged := w.frameStaged + 1 }.loadBlob offSiphonConfig (List.replicate 6 0)
  else
    w

/-- A version counts from 1 to 255 and skips 0, which means that nothing is installed. -/
def bumpVersion (off : Nat) : CartWindow :=
  let v := w.window off + 1
  { w with window := Function.update w.window off (if v = 0 then 1 else v) }

def bumpNmiVersion : CartWindow := w.bumpVersion offNmiVersion

def clearNmiVersion : CartWindow := { w with window := Function.update w.window offNmiVersion 0 }

def bumpHirqVersion : CartWindow := w.bumpVersion offHirqVersion

def clearHirqVersion : CartWindow := { w with window := Function.update w.window offHirqVersion 0 }

def setDmaSlot (index : Nat) (slot : CartDmaSlot) : CartWindow :=
  if 8 ≤ index then w
  else { w with window := w.window.copy (offDmaList + index * 8) slot.bytes }

def setPpuBatch (batch : PpuBatch) : CartWindow :=
  { w with window := w.window.copy offPpuBatch batch.bytes }

def setMode7Batch (batch : List Byte) : CartWindow :=
  { w with window := w.window.copy offMode7Batch batch }

/-! ## Reads -/

/-- `cart_window_read` at every offset but the frame-done strobe. -/
def readByte (off : Nat) : Byte × CartWindow :=
  if off = offStatus then
    (w.status, w)
  else if off = offFrameReady then
    (w.frameReady, w)
  else if offDbgBudget ≤ off ∧ off < offDbgBudget + 64 then
    (0, w)
  else if offDbgSiphon ≤ off ∧ off < offDbgSiphon + 64 then
    (0, w)
  else if off = offStrobeBoot then
    (0, { w with status := w.status &&& ~~~statusKernelRdy })
  else if offJoyBase ≤ off ∧ off < offJoyEnd then
    (0, { w with lastPadPort := BitVec.ofNat 32 ((off - offJoyBase) / 256) })
  else
    (w.window off, w)

theorem readByte_regs (off : Nat) :
    ∃ status port, (w.readByte off).2 = { w with status := status, lastPadPort := port } := by
  unfold readByte
  by_cases hstatus : off = offStatus
  · rw [if_pos hstatus]
    exact ⟨_, _, rfl⟩
  rw [if_neg hstatus]
  by_cases hready : off = offFrameReady
  · rw [if_pos hready]
    exact ⟨_, _, rfl⟩
  rw [if_neg hready]
  by_cases hbudget : offDbgBudget ≤ off ∧ off < offDbgBudget + 64
  · rw [if_pos hbudget]
    exact ⟨_, _, rfl⟩
  rw [if_neg hbudget]
  by_cases hsiphon : offDbgSiphon ≤ off ∧ off < offDbgSiphon + 64
  · rw [if_pos hsiphon]
    exact ⟨_, _, rfl⟩
  rw [if_neg hsiphon]
  by_cases hboot : off = offStrobeBoot
  · rw [if_pos hboot]
    exact ⟨_, _, rfl⟩
  rw [if_neg hboot]
  by_cases hjoy : offJoyBase ≤ off ∧ off < offJoyEnd
  · rw [if_pos hjoy]
    exact ⟨_, _, rfl⟩
  rw [if_neg hjoy]
  exact ⟨_, _, rfl⟩

/-! ## What the producers change -/

/-- The registers of two windows agree. -/
structure SameRegs (w w' : CartWindow) : Prop where
  status : w'.status = w.status
  frameReady : w'.frameReady = w.frameReady
  frameStaged : w'.frameStaged = w.frameStaged
  frameConsumed : w'.frameConsumed = w.frameConsumed

variable {w}

theorem SameRegs.refl : SameRegs w w := ⟨rfl, rfl, rfl, rfl⟩

theorem SameRegs.trans {w₁ w₂ w₃ : CartWindow} (h : SameRegs w₁ w₂) (h' : SameRegs w₂ w₃) :
    SameRegs w₁ w₃ :=
  ⟨h'.status.trans h.status, h'.frameReady.trans h.frameReady,
    h'.frameStaged.trans h.frameStaged, h'.frameConsumed.trans h.frameConsumed⟩

theorem loadBlob_regs (off : Nat) (src : List Byte) : SameRegs w (w.loadBlob off src) := by
  unfold loadBlob
  split <;> exact ⟨rfl, rfl, rfl, rfl⟩

theorem storeU16Le_regs (off : Nat) (v : BitVec 16) : SameRegs w (w.storeU16Le off v) := by
  unfold storeU16Le
  split <;> exact ⟨rfl, rfl, rfl, rfl⟩

theorem bumpVersion_regs (off : Nat) : SameRegs w (w.bumpVersion off) := ⟨rfl, rfl, rfl, rfl⟩

theorem setDmaSlot_regs (i : Nat) (slot : CartDmaSlot) : SameRegs w (w.setDmaSlot i slot) := by
  unfold setDmaSlot
  split <;> exact ⟨rfl, rfl, rfl, rfl⟩

theorem setPpuBatch_regs (b : PpuBatch) : SameRegs w (w.setPpuBatch b) := ⟨rfl, rfl, rfl, rfl⟩

theorem setFrameReady_ready (byte : Byte) : (w.setFrameReady byte).frameReady = byte := by
  unfold setFrameReady
  dsimp only
  split
  · exact (loadBlob_regs ..).frameReady
  · rfl

theorem setFrameReady_staged (byte : Byte) :
    (w.setFrameReady byte).frameStaged =
      if byte ≠ 0 then w.frameStaged + 1 else w.frameStaged := by
  unfold setFrameReady
  dsimp only
  split
  · exact (loadBlob_regs ..).frameStaged
  · rfl

theorem setFrameReady_consumed (byte : Byte) :
    (w.setFrameReady byte).frameConsumed = w.frameConsumed := by
  unfold setFrameReady
  dsimp only
  split
  · exact (loadBlob_regs ..).frameConsumed
  · rfl

theorem loadBlob_sameFrom (off : Nat) (src : List Byte) :
    Mem.SameFrom cartWindowBytes w.window (w.loadBlob off src).window := by
  unfold loadBlob
  split
  · exact .refl
  · refine .copy ?_
    rw [List.length_take]
    omega

theorem storeU16Le_sameFrom (off : Nat) (v : BitVec 16) :
    Mem.SameFrom cartWindowBytes w.window (w.storeU16Le off v).window := by
  unfold storeU16Le
  split
  · exact .refl
  · exact .store v (by omega)

theorem setDmaSlot_sameFrom (i : Nat) (s : CartDmaSlot) :
    Mem.SameFrom cartWindowBytes w.window (w.setDmaSlot i s).window := by
  unfold setDmaSlot
  split
  · exact .refl
  · refine .copy ?_
    have hl : cartWindowBytes = 65536 ∧ offDmaList = 30728 := ⟨rfl, rfl⟩
    rw [CartDmaSlot.length_bytes]
    omega

end CartWindow

end Microgarbage.Cart
