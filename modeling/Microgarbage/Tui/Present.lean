import Microgarbage.Tui.Canvas

/-!
# Presenting the canvas

`do_present` writes every cell, `do_present_diff` those that differ from the front buffer. Both keep
track of the colours in force in the row; `0xFFFF` and `0xFF` stand for "unknown". Output is
gathered in a buffer and handed on when that is full and at the end.
-/

namespace Microgarbage.Tui

def outBufCap : Nat := 4096

/-- What was written to the transport, and the bytes in `g_out_buf`. -/
structure OutBuf where
  sent : List Byte
  buf : List Byte
  deriving DecidableEq

def outFlush (o : OutBuf) : OutBuf := ⟨o.sent ++ o.buf, []⟩

def outBytes (o : OutBuf) (p : List Byte) : OutBuf :=
  if o.buf.length + p.length ≤ outBufCap then { o with buf := o.buf ++ p }
  else
    let o := outFlush o
    if outBufCap ≤ p.length then { o with sent := o.sent ++ p }
    else { o with buf := o.buf ++ p }

/-- The `while (v)` loop of `out_dec`; a 32-bit number has at most ten digits. -/
def decLoop : Nat → Nat → List Byte → List Byte
  | 0, _, acc => acc
  | n + 1, v, acc => if v = 0 then acc else decLoop n (v / 10) (BitVec.ofNat 8 (48 + v % 10) :: acc)

/-- The digits that `out_dec` writes. -/
def decimal (v : Nat) : List Byte := if v = 0 then [48] else decLoop 10 v []

def outDec (o : OutBuf) (v : Nat) : OutBuf := outBytes o (decimal v)

/-- `"\x1b["`. -/
def csi : List Byte := [0x1b, 0x5b]

/-- `\x1b[<row>;<col>H` -/
def emitMove (o : OutBuf) (row col : Nat) : OutBuf :=
  let o := outBytes o csi
  let o := outDec o row
  let o := outBytes o [0x3b]
  let o := outDec o col
  outBytes o [0x48]

def vmTuiAttrBold (attrs : Byte) : Bool := attrs.getLsbD 0

def vmTuiAttrDim (attrs : Byte) : Bool := attrs.getLsbD 1

def vmTuiAttrUnderline (attrs : Byte) : Bool := attrs.getLsbD 2

def vmTuiAttrReverse (attrs : Byte) : Bool := attrs.getLsbD 3

/-- The colour parameters: `std`, `bright` and `wide` are what comes before the number of a colour
below 8, below 16 and below 256. -/
def emitColor (o : OutBuf) (color : BitVec 16) (std bright wide : List Byte) : OutBuf :=
  if color = vmTuiDefaultColor then o
  else if color.toNat < 8 then outDec (outBytes o std) color.toNat
  else if color.toNat < 16 then outDec (outBytes o bright) (color.toNat - 8)
  else if color.toNat < 256 then outDec (outBytes o wide) color.toNat
  else o

/-- Reset, then set: `\x1b[0`, one parameter for each attribute and colour, `m`. -/
def emitSgr (o : OutBuf) (fg bg : BitVec 16) (attrs : Byte) : OutBuf :=
  let o := outBytes o (csi ++ [0x30])
  let o := if vmTuiAttrBold attrs then outBytes o [0x3b, 0x31] else o
  let o := if vmTuiAttrDim attrs then outBytes o [0x3b, 0x32] else o
  let o := if vmTuiAttrUnderline attrs then outBytes o [0x3b, 0x34] else o
  let o := if vmTuiAttrReverse attrs then outBytes o [0x3b, 0x37] else o
  let o := emitColor o fg [0x3b, 0x33] [0x3b, 0x39] [0x3b, 0x33, 0x38, 0x3b, 0x35, 0x3b]
  let o := emitColor o bg [0x3b, 0x34] [0x3b, 0x31, 0x30] [0x3b, 0x34, 0x38, 0x3b, 0x35, 0x3b]
  outBytes o [0x6d]

/-- The UTF-8 sequences of the character codes from `0x80` on; the rest of the table is empty. -/
def glyphs : List (List Byte) :=
  [[0xe2, 0x96, 0x88], [0xe2, 0x96, 0x80], [0xe2, 0x96, 0x84], [0xe2, 0x96, 0x8c],
    [0xe2, 0x96, 0x90], [0xe2, 0x96, 0x91], [0xe2, 0x96, 0x92], [0xe2, 0x96, 0x93],
    [0xe2, 0x97, 0x8f], [0xe2, 0x96, 0xb2], [0xe2, 0x96, 0xbc], [0xe2, 0x97, 0x86],
    [0xe2, 0x97, 0x86], [0xe2, 0x97, 0x86], [0xe2, 0x97, 0x86], [0xe2, 0x97, 0x86],
    [0xe2, 0x95, 0x90], [0xe2, 0x95, 0x91], [0xe2, 0x97, 0x8b], [0xe2, 0x96, 0xa0],
    [0xe2, 0x96, 0xa1], [0xe2, 0x97, 0x80], [0xe2, 0x96, 0xb6]]

/-- What `emit_cell_char` writes: the byte, its glyph, or `?`. -/
def cellChar (c : Byte) : List Byte :=
  if c.toNat < 0x80 then [c] else (glyphs[c.toNat - 0x80]?).getD [63]

def cellsEqual (a b : HostCell) : Bool :=
  a.c = b.c ∧ a.fg = b.fg ∧ a.bg = b.bg ∧ a.attrs = b.attrs

/-- The output and the colours that the row has in force. -/
structure RowState where
  out : OutBuf
  curFg : BitVec 16
  curBg : BitVec 16
  curAttrs : Byte
  /-- `last_col_emitted`, once the cursor was placed. -/
  lastCol : Option Nat

/-- The colours if they are not in force, then the character. -/
def emitCell (st : RowState) (cell : HostCell) : RowState :=
  let st :=
    if cell.fg ≠ st.curFg ∨ cell.bg ≠ st.curBg ∨ cell.attrs ≠ st.curAttrs then
      { st with
        out := emitSgr st.out cell.fg cell.bg cell.attrs
        curFg := cell.fg
        curBg := cell.bg
        curAttrs := cell.attrs }
    else st
  { st with out := outBytes st.out (cellChar cell.c) }

section Rows

variable (s : VmTuiSession)

/-- Row `r`, from 1. -/
def emitFullRow (o : OutBuf) (r : Nat) : OutBuf :=
  ((List.range s.cols.toNat).foldl (fun st c => emitCell st (s.canvas (r - 1) c))
    ⟨emitMove o r 1, 0xFFFF, 0xFFFF, 0xFF, none⟩).out

/-- One round of the loop over the columns. -/
def emitDiffCell (r : Nat) (st : RowState) (c : Nat) : RowState :=
  let back := s.canvas (r - 1) c
  if cellsEqual back (s.front (r - 1) c) then st
  else
    let st :=
      if st.lastCol.all fun last => c ≠ last + 1 then
        { st with out := emitMove st.out r (c + 1), curFg := 0xFFFF }
      else st
    { emitCell st back with lastCol := some c }

def emitDiffRow (o : OutBuf) (r : Nat) : OutBuf :=
  ((List.range s.cols.toNat).foldl (emitDiffCell s r) ⟨o, 0xFFFF, 0xFFFF, 0xFF, none⟩).out

def copyBackToFront : VmTuiSession := { s with front := s.canvas, frontValid := true }

/-- `VM_TUI_USE_SYNC_OUTPUT`. -/
def useSyncOutput : Bool := s.flags.getLsbD 4

/-- `\x1b[?<digits>` and `h` or `l`. -/
def decMode (digits : List Byte) (final : Byte) : List Byte := csi ++ 0x3f :: (digits ++ [final])

/-- `\x1b[?2026h` and `\x1b[?2026l` around the frame. -/
def syncMode (o : OutBuf) (final : Byte) : OutBuf :=
  if useSyncOutput s then outBytes o (decMode [0x32, 0x30, 0x32, 0x36] final) else o

/-- The end of a frame: `\x1b[0m`, the end of the synchronized output, and the flush. -/
def endFrame (o : OutBuf) : List Byte :=
  (outFlush (syncMode s (outBytes o (csi ++ [0x30, 0x6d])) 0x6c)).sent

/-- The bytes written and the session after it. -/
def doPresent : List Byte × VmTuiSession :=
  let o := emitMove (syncMode s ⟨[], []⟩ 0x68) 1 1
  let o := (List.range s.rows.toNat).foldl (fun o r => emitFullRow s o (r + 1)) o
  (endFrame s o, copyBackToFront s)

def doPresentDiff : List Byte × VmTuiSession :=
  if s.frontValid = false then doPresent s
  else
    let o := (List.range s.rows.toNat).foldl (fun o r => emitDiffRow s o (r + 1))
      (syncMode s ⟨[], []⟩ 0x68)
    (endFrame s o, copyBackToFront s)

end Rows

/-! ## Setting up the terminal -/

def modeHigh : Byte := 0x68

def modeLow : Byte := 0x6c

/-- The modes, as their digits. -/
def altScreen : List Byte := [0x31, 0x30, 0x34, 0x39]

def showCursor : List Byte := [0x32, 0x35]

def sgrMouse : List Byte := [0x31, 0x30, 0x30, 0x36]

def anyMotion : List Byte := [0x31, 0x30, 0x30, 0x33]

def buttonMotion : List Byte := [0x31, 0x30, 0x30, 0x32]

section Setup

variable (flags : BitVec 32)

def useAltScreen : Bool := flags.getLsbD 0

def useRaw : Bool := flags.getLsbD 1

def hideCursor : Bool := flags.getLsbD 2

def useMouseMotion : Bool := flags.getLsbD 6

def useMouse : Bool := flags.getLsbD 3 || useMouseMotion flags

/-- What `do_init` writes, one item for each `hwrite`. -/
def setupWrites : List (List Byte) :=
  (if useAltScreen flags then [decMode altScreen modeHigh] else []) ++
    (if hideCursor flags then [decMode showCursor modeLow] else []) ++
    if useMouse flags then
      [decMode (if useMouseMotion flags then anyMotion else buttonMotion) modeHigh ++
        decMode sgrMouse modeHigh]
    else []

/-- What `do_shutdown` writes. -/
def restoreWrites : List (List Byte) :=
  (if useMouse flags then
    [decMode sgrMouse modeLow ++ decMode anyMotion modeLow ++ decMode buttonMotion modeLow]
  else []) ++
    (if hideCursor flags then [decMode showCursor modeHigh] else []) ++
    if useAltScreen flags then [decMode altScreen modeLow] else [csi ++ [0x30, 0x6d, 0x0d, 0x0a]]

end Setup

end Microgarbage.Tui
