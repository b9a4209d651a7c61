import Mathlib.Algebra.GroupWithZero.Nat
import Mathlib.Logic.Function.Basic

/-!
# The terminal canvas of one session

A session has a canvas of 30 by 80 cells that the guest draws on, the front buffer that was last
presented, the pen, the cursor and the clip rectangle. Guests draw by submitting a buffer of draw
commands. Rows and columns count from 1.
-/

namespace Microgarbage.Tui

abbrev Byte := BitVec 8

/-- A `vm_id` below `VM_SCHED_MAX_VMS`. -/
abbrev VmId := Fin 64

scoped instance (priority := 2000) neZeroSucc (n : Nat) : NeZero (n + 1) := ⟨Nat.succ_ne_zero n⟩

scoped instance (priority := 2000) neZeroMaxVms : NeZero 64 := ⟨Nat.succ_ne_zero 63⟩

def vmTuiMaxRows : Nat := 30

def vmTuiMaxCols : Nat := 80

def vmTuiDefaultColor : BitVec 16 := 256

def vmTuiMaxFlushBytes : Nat := 4096

def vmEinval : Int := 22

/-! ## Cells -/

structure HostCell where
  c : Byte
  fg : BitVec 16
  bg : BitVec 16
  attrs : Byte
  flags : Byte
  deriving DecidableEq

/-- Bit 0 of the flags, `VM_TUI_CELL_TRANSPARENT`. -/
def HostCell.transparent (cell : HostCell) : Bool := cell.flags.getLsbD 0

def makeCell (c : Byte) (fg bg : BitVec 16) (attrs : Byte) : HostCell := ⟨c, fg, bg, attrs, 0⟩

/-- A blank in the default colours. -/
def blankCell : HostCell := makeCell 32 vmTuiDefaultColor vmTuiDefaultColor 0

def zeroCell : HostCell := ⟨0, 0, 0, 0, 0⟩

abbrev Cells := Nat → Nat → HostCell

def Cells.set (cells : Cells) (r c : Nat) (cell : HostCell) : Cells :=
  Function.update cells r (Function.update (cells r) c cell)

@[simp] theorem Cells.set_self (cells : Cells) (r c : Nat) (cell : HostCell) :
    cells.set r c cell r c = cell := by
  simp [Cells.set]

theorem Cells.set_ne (cells : Cells) {r c r' c' : Nat} (cell : HostCell) (h : ¬(r' = r ∧ c' = c)) :
    cells.set r c cell r' c' = cells r' c' := by
  unfold Cells.set
  by_cases hr : r' = r
  · subst hr
    rw [Function.update_self, Function.update_of_ne fun hc => h ⟨rfl, hc⟩]
  · rw [Function.update_of_ne hr]

/-! ## Sessions -/

inductive InState
  | ground
  | esc
  | csi
  | csiO
  deriving DecidableEq

/-- The input ring and the state of the escape sequence parser. -/
structure InputParser where
  buf : List Byte
  /-- How many bytes of `in_buf` were already taken: `in_head`. -/
  head : Nat
  state : InState
  csiParams : List Int
  csiCurr : Int
  csiHasCurr : Bool
  csiIntermediate : Byte
  escIdlePolls : Nat
  deriving DecidableEq

def InputParser.reset : InputParser := ⟨[], 0, .ground, [], 0, false, 0, 0⟩

structure VmTuiSession where
  /-- `UINT16_MAX` is `none`. -/
  ownerVm : Option VmId
  initialized : Bool
  flags : BitVec 32
  rows : Int
  cols : Int
  canvas : Cells
  front : Cells
  frontValid : Bool
  rawModeWeSet : Bool
  penFg : BitVec 16
  penBg : BitVec 16
  penAttrs : Byte
  curRow : Int
  curCol : Int
  clipR : Int
  clipC : Int
  clipH : Int
  clipW : Int
  input : InputParser

/-- `session_reset`. -/
def VmTuiSession.reset : VmTuiSession where
  ownerVm := none
  initialized := false
  flags := 0
  rows := vmTuiMaxRows
  cols := vmTuiMaxCols
  canvas := fun _ _ => zeroCell
  front := fun _ _ => zeroCell
  frontValid := false
  rawModeWeSet := false
  penFg := vmTuiDefaultColor
  penBg := vmTuiDefaultColor
  penAttrs := 0
  curRow := 1
  curCol := 1
  clipR := 1
  clipC := 1
  clipH := vmTuiMaxRows
  clipW := vmTuiMaxCols
  input := .reset

section Draw

variable (s : VmTuiSession)

def inCanvas (row col : Int) : Prop := 1 ≤ row ∧ row ≤ s.rows ∧ 1 ≤ col ∧ col ≤ s.cols

def inClip (row col : Int) : Prop :=
  s.clipR ≤ row ∧ row < s.clipR + s.clipH ∧ s.clipC ≤ col ∧ col < s.clipC + s.clipW

def drawable (row col : Int) : Prop := inCanvas s row col ∧ inClip s row col

instance (row col : Int) : Decidable (inCanvas s row col) := inferInstanceAs (Decidable (_ ∧ _))

instance (row col : Int) : Decidable (inClip s row col) := inferInstanceAs (Decidable (_ ∧ _))

instance (row col : Int) : Decidable (drawable s row col) := inferInstanceAs (Decidable (_ ∧ _))

def setCell (row col : Int) (cell : HostCell) : VmTuiSession :=
  if drawable s row col then
    { s with canvas := s.canvas.set (row - 1).toNat (col - 1).toNat cell }
  else s

def canvasClear : VmTuiSession :=
  { s with canvas := fun r c =>
      if (r : Int) < s.rows ∧ (c : Int) < s.cols then blankCell else s.canvas r c }

/-- The cell a drawing operation with the current pen writes. -/
def penCell (c : Byte) : HostCell := makeCell c s.penFg s.penBg s.penAttrs

/-- A dimension that is out of range is taken for the largest. -/
def clampDim (n max : Int) : Int := if n ≤ 0 ∨ n > max then max else n

/-- What `do_init` writes to the session, up to the terminal setup. -/
def initSession (vm : VmId) (rows cols : Int) (flags : BitVec 32) : VmTuiSession :=
  let rows := clampDim rows vmTuiMaxRows
  let cols := clampDim cols vmTuiMaxCols
  let s := canvasClear { s with
    ownerVm := some vm
    initialized := true
    flags := flags
    rows := rows
    cols := cols
    penFg := vmTuiDefaultColor
    penBg := vmTuiDefaultColor
    penAttrs := 0
    curRow := 1
    curCol := 1
    clipR := 1
    clipC := 1
    clipH := rows
    clipW := cols
    frontValid := false }
  { s with front := fun _ _ => zeroCell, input := .reset }

end Draw

def fillRect (s : VmTuiSession) (row col : Int) (h w : Nat) (cell : HostCell) : VmTuiSession :=
  (List.range h).foldl (fun s (r : Nat) => (List.range w).foldl (fun s (x : Nat) =>
    setCell s (row + r) (col + x) cell) s) s

/-- The bytes `text`, one cell each, from `(row, col)` to the right. -/
def putText (s : VmTuiSession) (row col : Int) (text : List Byte) (cell : Byte → HostCell) :
    VmTuiSession :=
  text.zipIdx.foldl (fun s (c, i) => setCell s row (col + i) (cell c)) s

/-- Every style draws the ASCII glyphs. -/
def applyBoxAsciiOnly (s : VmTuiSession) (row col h w : Int) : VmTuiSession :=
  if h < 2 ∨ w < 2 then s
  else
    let corner := penCell s 43
    let hbar := penCell s 45
    let vbar := penCell s 124
    let s := setCell s row col corner
    let s := setCell s row (col + w - 1) corner
    let s := setCell s (row + h - 1) col corner
    let s := setCell s (row + h - 1) (col + w - 1) corner
    let s := (List.range (w - 2).toNat).foldl (fun s (i : Nat) =>
      setCell (setCell s row (col + 1 + i) hbar) (row + h - 1) (col + 1 + i) hbar) s
    (List.range (h - 2).toNat).foldl (fun s (i : Nat) =>
      setCell (setCell s (row + 1 + i) col vbar) (row + 1 + i) (col + w - 1) vbar) s

/-! ## Draw commands -/

section Parser

def rdU8 : List Byte → Option (Byte × List Byte)
  | [] => none
  | b :: p => some (b, p)

def rdU16 : List Byte → Option (BitVec 16 × List Byte)
  | lo :: hi :: p => some (hi ++ lo, p)
  | _ => none

/-- One command after its opcode; `none` is `-VM_EINVAL`. -/
def drawCommand (s : VmTuiSession) (op : Byte) (p : List Byte) :
    Option (VmTuiSession × List Byte) := do
  match op.toNat with
  | 1 =>
    let (row, p) ← rdU16 p
    let (col, p) ← rdU16 p
    let (c, p) ← rdU8 p
    let (fg, p) ← rdU16 p
    let (bg, p) ← rdU16 p
    let (attrs, p) ← rdU8 p
    some (setCell s row.toNat col.toNat (makeCell c fg bg attrs), p)
  | 2 =>
    let (row, p) ← rdU16 p
    let (col, p) ← rdU16 p
    let (h, p) ← rdU16 p
    let (w, p) ← rdU16 p
    let (c, p) ← rdU8 p
    some (fillRect s row.toNat col.toNat h.toNat w.toNat (penCell s c), p)
  | 3 =>
    let (row, p) ← rdU16 p
    let (col, p) ← rdU16 p
    let (fg, p) ← rdU16 p
    let (bg, p) ← rdU16 p
    let (attrs, p) ← rdU8 p
    let (slen, p) ← rdU16 p
    if p.length < slen.toNat then none
    else some (putText s row.toNat col.toNat (p.take slen.toNat) fun c => makeCell c fg bg attrs,
      p.drop slen.toNat)
  | 4 =>
    let (row, p) ← rdU16 p
    let (col, p) ← rdU16 p
    let (h, p) ← rdU16 p
    let (w, p) ← rdU16 p
    let (_, p) ← rdU8 p
    some (applyBoxAsciiOnly s row.toNat col.toNat h.toNat w.toNat, p)
  | 5 =>
    let (row, p) ← rdU16 p
    let (col, p) ← rdU16 p
    some ({ s with curRow := row.toNat, curCol := col.toNat }, p)
  | 6 =>
    let (v, p) ← rdU16 p
    some ({ s with penFg := v }, p)
  | 7 =>
    let (v, p) ← rdU16 p
    some ({ s with penBg := v }, p)
  | 8 =>
    let (v, p) ← rdU8 p
    some ({ s with penAttrs := v }, p)
  | 9 => some (canvasClear s, p)
  | 10 =>
    let (row, p) ← rdU16 p
    let (col, p) ← rdU16 p
    let (h, p) ← rdU16 p
    let (w, p) ← rdU16 p
    some ({ s with
      clipR := row.toNat
      clipC := col.toNat
      clipH := h.toNat
      clipW := w.toNat }, p)
  | 11 => some ({ s with clipR := 1, clipC := 1, clipH := s.rows, clipW := s.cols }, p)
  | 12 =>
    let (c, p) ← rdU8 p
    some ({ setCell s s.curRow s.curCol (penCell s c) with curCol := s.curCol + 1 }, p)
  | 13 =>
    let (slen, p) ← rdU16 p
    if p.length < slen.toNat then none
    else some ({ putText s s.curRow s.curCol (p.take slen.toNat) (penCell s) with
      curCol := s.curCol + slen.toNat }, p.drop slen.toNat)
  | _ => none

/-- The loop; every round takes at least the opcode, so the length of the buffer is fuel enough. -/
def drawLoop : Nat → VmTuiSession → List Byte → Int × VmTuiSession
  | 0, s, _ => (0, s)
  | _ + 1, s, [] => (0, s)
  | n + 1, s, op :: p =>
    if op = 0 then (0, s)
    else
      match drawCommand s op p with
      | none => (-vmEinval, s)
      | some (s, p) => drawLoop n s p

/-- `parse_draw_commands`; the handlers only look whether the result is negative. -/
def parseDrawCommands (s : VmTuiSession) (buf : List Byte) : Int × VmTuiSession :=
  drawLoop buf.length s buf

/-- `SYS_TUI_FLUSH_DRAW` of a buffer that could be read. -/
def flushDraw (s : VmTuiSession) (buf : List Byte) : Int × VmTuiSession :=
  if buf.length = 0 then (0, s)
  else if buf.length > vmTuiMaxFlushBytes then (-vmEinval, s)
  else parseDrawCommands s buf

end Parser

end Microgarbage.Tui
