import Microgarbage.Tui.Canvas
import Microgarbage.Lib.Slice
import Mathlib.Algebra.BigOperators.Group.Finset.Basic
import Mathlib.Data.Fintype.Prod

/-!
# Tiles

Tiles are small canvases that guests keep in a shared arena of cells. A tile is named by a handle
that packs the slot's generation, the VM and the slot. Creation takes cells from the end of the
arena, destruction gives nothing back; when a VM is unloaded its tiles are dropped and the ranges
that are left are moved down, in the order of VMs and slots.
-/

namespace Microgarbage.Tui

open Lib

def vmTuiTilesPerVm : Nat := 16

/-- `sizeof(HostCell)`. -/
def cellBytes : Nat := 7

/-- `sizeof(g_tile_arena)`, a whole number of cells below `VM_TUI_TILE_ARENA_BYTES`. -/
def tileArenaBytes : Nat := 16384 / cellBytes * cellBytes

def vmEbadf : BitVec 32 := 9

def vmEnomem : BitVec 32 := 12

def vmEbusy : BitVec 32 := 16

/-- A row of `g_tile_slots`: the VM and the slot. -/
abbrev TileId := VmId × Fin 16

structure TileSlot where
  inUse : Bool
  generation : BitVec 16
  rows : Nat
  cols : Nat
  /-- Byte offset into the arena. -/
  arenaOff : Nat
  arenaLen : Nat
  deriving DecidableEq

def TileSlot.empty : TileSlot := ⟨false, 0, 0, 0, 0, 0⟩

structure Tiles where
  arena : Nat → HostCell
  used : Nat
  slots : TileId → TileSlot

def Tiles.init : Tiles := ⟨fun _ => zeroCell, 0, fun _ => .empty⟩

def packHandle (vm : VmId) (slot : Fin 16) (gen : BitVec 16) : BitVec 32 :=
  gen ++ BitVec.ofNat 8 vm ++ BitVec.ofNat 8 slot

section Calls

variable (t : Tiles)

def Tiles.setSlot (k : TileId) (s : TileSlot) : Tiles :=
  { t with slots := Function.update t.slots k s }

def resolveHandle (callerVm : VmId) (handle : BitVec 32) : Option TileId :=
  let slot := (handle.setWidth 8).toNat
  let hvm := ((handle >>> 8).setWidth 8).toNat
  let gen := (handle >>> 16).setWidth 16
  if hvm ≠ callerVm then none
  else if h : slot < vmTuiTilesPerVm then
    let s := t.slots (callerVm, ⟨slot, h⟩)
    if s.inUse = false then none
    else if s.generation ≠ gen then none
    else some (callerVm, ⟨slot, h⟩)
  else none

/-- The index of the tile's first cell. -/
def TileSlot.base (s : TileSlot) : Nat := s.arenaOff / cellBytes

def TileSlot.cellCount (s : TileSlot) : Nat := s.rows * s.cols

/-- Rewrites the cells of a tile, each from its index in the tile and its content. -/
def Tiles.edit (s : TileSlot) (f : Nat → HostCell → HostCell) : Tiles :=
  { t with arena := fun j =>
      if s.base ≤ j ∧ j < s.base + s.cellCount then f (j - s.base) (t.arena j) else t.arena j }

def transparentCell : HostCell := { blankCell with flags := 1 }

def nextGeneration (gen : BitVec 16) : BitVec 16 := if gen + 1 = 0 then 1 else gen + 1

def tileCreate (vm : VmId) (rows cols : Int) : BitVec 32 × Tiles :=
  if rows ≤ 0 ∨ cols ≤ 0 then (0, t)
  else if rows > vmTuiMaxRows ∨ cols > vmTuiMaxCols then (0, t)
  else
    let need := rows.toNat * cols.toNat * cellBytes
    if t.used + need > tileArenaBytes then (0, t)
    else
      match (List.finRange vmTuiTilesPerVm).find? fun i => !(t.slots (vm, i)).inUse with
      | none => (0, t)
      | some i =>
        let gen := nextGeneration (t.slots (vm, i)).generation
        let s : TileSlot := ⟨true, gen, rows.toNat, cols.toNat, t.used, need⟩
        let t := { t.setSlot (vm, i) s with used := t.used + need }
        (packHandle vm i gen, t.edit s fun _ _ => transparentCell)

def tileDestroy (vm : VmId) (handle : BitVec 32) : BitVec 32 × Tiles :=
  match resolveHandle t vm handle with
  | none => (-vmEbadf, t)
  | some k => (0, t.setSlot k { t.slots k with inUse := false })

/-- The order in which the arena is compacted. -/
@[irreducible] def tileIds : List TileId :=
  (List.finRange 64).flatMap fun v => (List.finRange vmTuiTilesPerVm).map fun i => (v, i)

/-- `memmove` of whole cells. -/
def moveCells (arena : Nat → HostCell) (dst src n : Nat) : Nat → HostCell :=
  splice arena dst (slice arena src n)

/-- One round of the compaction, with `new_used`. -/
def compactSlot (st : Tiles × Nat) (k : TileId) : Tiles × Nat :=
  let (t, newUsed) := st
  let s := t.slots k
  if s.inUse = false then (t, newUsed)
  else
    let t :=
      if s.arenaOff ≠ newUsed then
        { t.setSlot k { s with arenaOff := newUsed } with
          arena := moveCells t.arena (newUsed / cellBytes) (s.arenaOff / cellBytes)
            (s.arenaLen / cellBytes) }
      else t
    (t, newUsed + s.arenaLen)

/-- The slots of a VM, dropped. -/
def Tiles.drop (vm : VmId) : Tiles :=
  { t with slots := fun k => if k.1 = vm then { t.slots k with inUse := false } else t.slots k }

def tileReleaseForVm (vm : VmId) : Tiles :=
  let (t, newUsed) := tileIds.foldl compactSlot (t.drop vm, 0)
  { t with used := newUsed }

end Calls

/-! ## What the calls do to the cells of a tile

Each is given the session of the caller and the dimensions of the tile. -/

def tileSet (row col : Int) (cell : HostCell) (rows cols : Nat) (i : Nat) (old : HostCell) :
    HostCell :=
  if row < 1 ∨ row > rows ∨ col < 1 ∨ col > cols then old
  else if (i : Int) = (row - 1) * cols + (col - 1) then cell
  else old

def tileSetTransparent (row col : Int) (rows cols : Nat) (i : Nat) (old : HostCell) : HostCell :=
  if row < 1 ∨ row > rows ∨ col < 1 ∨ col > cols then old
  else if (i : Int) = (row - 1) * cols + (col - 1) then { old with flags := old.flags ||| 1 }
  else old

/-- A rectangle of the canvas, clamped to the tile. The loop visits cell `r * cols + c` for each row
and column of the rectangle. -/
def tileGrab (sess : VmTuiSession) (srcRow srcCol : Int) (h w : Nat) (rows cols : Nat) (i : Nat)
    (old : HostCell) : HostCell :=
  let r := i / cols
  let c := i % cols
  if r < min h rows ∧ c < min w cols then
    if inCanvas sess (srcRow + r) (srcCol + c) then
      { sess.canvas (srcRow + r - 1).toNat (srcCol + c - 1).toNat with flags := 0 }
    else transparentCell
  else old

def tileBlitCell (cells : Nat → HostCell) (cols : Nat) (destRow destCol : Int)
    (sess : VmTuiSession) (r c : Nat) : VmTuiSession :=
  let src := cells (r * cols + c)
  if src.transparent then sess
  else setCell sess (destRow + r) (destCol + c) { src with flags := 0 }

/-- The tile's cells, drawn on the canvas. -/
def tileBlit (cells : Nat → HostCell) (rows cols : Nat) (destRow destCol : Int)
    (sess : VmTuiSession) : VmTuiSession :=
  (List.range rows).foldl (fun sess r => (List.range cols).foldl (fun sess c =>
    tileBlitCell cells cols destRow destCol sess r c) sess) sess

/-! ## The calls of the guests -/

/-- The calls on a tile, with the argument registers behind the handle. -/
inductive TileOp
  | set (rc ca fg bg : BitVec 32)
  | fill (ca fg bg : BitVec 32)
  | setTransparent (row col : BitVec 32)
  | blit (destRow destCol : BitVec 32)
  | grab (rc hw : BitVec 32)
  | dims

/-- The `SYS_TUI_TILE_*` calls. -/
inductive TileCall
  | create (rows cols : BitVec 32)
  | destroy (handle : BitVec 32)
  | use (handle : BitVec 32) (op : TileOp)

/-- Registers that pack two halfwords, `(hi << 16) | lo`. -/
def hiHalf (r : BitVec 32) : Nat := (r >>> 16).toNat

def loHalf (r : BitVec 32) : Nat := (r.setWidth 16).toNat

/-- The cell of `TILE_SET` and `TILE_FILL`: `(c << 8) | attrs` and the colours. -/
def argCell (ca fg bg : BitVec 32) : HostCell :=
  ⟨(ca >>> 8).setWidth 8, fg.setWidth 16, bg.setWidth 16, ca.setWidth 8, 0⟩

/-- What a call does with its tile. -/
structure TileUse where
  edit : (rows cols : Nat) → Nat → HostCell → HostCell
  /-- What it draws on the caller's canvas. -/
  draw : (cells : Nat → HostCell) → (rows cols : Nat) → VmTuiSession → VmTuiSession
  ret : (rows cols : Nat) → BitVec 32

def keepCells (_ _ _ : Nat) (old : HostCell) : HostCell := old

def keepCanvas (_ : Nat → HostCell) (_ _ : Nat) (sess : VmTuiSession) : VmTuiSession := sess

def TileOp.run (sess : VmTuiSession) : TileOp → TileUse
  | .set rc ca fg bg =>
    ⟨tileSet (hiHalf rc) (loHalf rc) (argCell ca fg bg), keepCanvas, fun _ _ => 0⟩
  | .fill ca fg bg => ⟨fun _ _ _ _ => argCell ca fg bg, keepCanvas, fun _ _ => 0⟩
  | .setTransparent row col => ⟨tileSetTransparent row.toInt col.toInt, keepCanvas, fun _ _ => 0⟩
  | .blit destRow destCol =>
    ⟨keepCells, fun cells rows cols => tileBlit cells rows cols destRow.toInt destCol.toInt,
      fun _ _ => 0⟩
  | .grab rc hw =>
    ⟨tileGrab sess (hiHalf rc) (loHalf rc) (hiHalf hw) (loHalf hw), keepCanvas, fun _ _ => 0⟩
  | .dims =>
    ⟨keepCells, keepCanvas, fun rows cols => BitVec.ofNat 32 rows <<< 16 ||| BitVec.ofNat 32 cols⟩

/-- The handlers: the value returned in `a0`, the tiles and the caller's session. Only a VM that
owns its session has tiles. -/
def tileCall (t : Tiles) (vm : VmId) (sess : VmTuiSession) (call : TileCall) :
    BitVec 32 × Tiles × VmTuiSession :=
  if sess.ownerVm ≠ some vm then (-vmEbusy, t, sess)
  else
    match call with
    | .create rows cols =>
      let (h, t) := tileCreate t vm rows.toInt cols.toInt
      (if h = 0 then -vmEnomem else h, t, sess)
    | .destroy handle =>
      let (r, t) := tileDestroy t vm handle
      (r, t, sess)
    | .use handle op =>
      match resolveHandle t vm handle with
      | none => (-vmEbadf, t, sess)
      | some k =>
        let s := t.slots k
        let use := op.run sess
        (use.ret s.rows s.cols, t.edit s (use.edit s.rows s.cols),
          use.draw (fun i => t.arena (s.base + i)) s.rows s.cols sess)

end Microgarbage.Tui
