import Mathlib.Data.List.DropRight
import Mathlib.Data.List.TakeWhile
import Microgarbage.Tui.Figures

/-!
# The guest's drawing library

`tui.c` collects draw commands in a buffer of 2 KB and flushes it to the host when the next command
might not fit. Coordinates are `int` on the guest's side and 16 bits in the commands.
-/

namespace Microgarbage.Tui

open Lib List

def cmdBufCap : Nat := 2048

/-! ## Commands -/

/-- A draw command, as it stands in the buffer. -/
inductive DrawOp
  | setCell (row col : BitVec 16) (c : Byte) (fg bg : BitVec 16) (attrs : Byte)
  | fillRect (row col h w : BitVec 16) (c : Byte)
  | print (row col fg bg : BitVec 16) (attrs : Byte) (text : List Byte)
  | box (row col h w : BitVec 16) (style : Byte)
  | move (row col : BitVec 16)
  | setFg (v : BitVec 16)
  | setBg (v : BitVec 16)
  | setAttr (v : Byte)
  | clear
  | setClip (row col h w : BitVec 16)
  | clearClip
  | putc (c : Byte)
  | puts (text : List Byte)

/-- The two bytes of `put_u16`. -/
def u16 (v : BitVec 16) : List Byte := [v.setWidth 8, (v >>> 8).setWidth 8]

namespace DrawOp

def code : DrawOp → Byte
  | setCell .. => 1
  | fillRect .. => 2
  | print .. => 3
  | box .. => 4
  | move .. => 5
  | setFg _ => 6
  | setBg _ => 7
  | setAttr _ => 8
  | clear => 9
  | setClip .. => 10
  | clearClip => 11
  | putc _ => 12
  | puts _ => 13

def payload : DrawOp → List Byte
  | setCell row col c fg bg attrs => u16 row ++ u16 col ++ [c] ++ u16 fg ++ u16 bg ++ [attrs]
  | fillRect row col h w c => u16 row ++ u16 col ++ u16 h ++ u16 w ++ [c]
  | print row col fg bg attrs text =>
    u16 row ++ u16 col ++ u16 fg ++ u16 bg ++ [attrs] ++ u16 (BitVec.ofNat 16 text.length) ++ text
  | box row col h w style => u16 row ++ u16 col ++ u16 h ++ u16 w ++ [style]
  | move row col => u16 row ++ u16 col
  | setFg v | setBg v => u16 v
  | setAttr v => [v]
  | clear | clearClip => []
  | setClip row col h w => u16 row ++ u16 col ++ u16 h ++ u16 w
  | putc c => [c]
  | puts text => u16 (BitVec.ofNat 16 text.length) ++ text

def encode (op : DrawOp) : List Byte := op.code :: op.payload

/-- The length of a text fits its field. -/
def Fits : DrawOp → Prop
  | print _ _ _ _ _ text | puts text => text.length < 2 ^ 16
  | _ => True

/-- What the host does with the command. -/
def exec (s : VmTuiSession) : DrawOp → VmTuiSession
  | setCell row col c fg bg attrs => Tui.setCell s row.toNat col.toNat (makeCell c fg bg attrs)
  | fillRect row col h w c => Tui.fillRect s row.toNat col.toNat h.toNat w.toNat (penCell s c)
  | print row col fg bg attrs text =>
    putText s row.toNat col.toNat text fun c => makeCell c fg bg attrs
  | box row col h w _ => applyBoxAsciiOnly s row.toNat col.toNat h.toNat w.toNat
  | move row col => { s with curRow := row.toNat, curCol := col.toNat }
  | setFg v => { s with penFg := v }
  | setBg v => { s with penBg := v }
  | setAttr v => { s with penAttrs := v }
  | clear => canvasClear s
  | setClip row col h w =>
    { s with
      clipR := row.toNat
      clipC := col.toNat
      clipH := h.toNat
      clipW := w.toNat }
  | clearClip => { s with clipR := 1, clipC := 1, clipH := s.rows, clipW := s.cols }
  | putc c => { Tui.setCell s s.curRow s.curCol (penCell s c) with curCol := s.curCol + 1 }
  | puts text =>
    { putText s s.curRow s.curCol text (penCell s) with curCol := s.curCol + text.length }

end DrawOp

/-! ## The library -/

/-- The library of one guest, and the session the host keeps for it. -/
structure TuiSys where
  /-- `g_cmd_buf` up to `g_cmd_pos`. -/
  cmdBuf : List Byte
  initialized : Bool
  /-- How far the buffer has ever been written. -/
  high : Nat
  session : VmTuiSession
  /-- The host has refused no flush. -/
  accepted : Bool

namespace TuiSys

variable (g : TuiSys)

/-- `put_bytes`. -/
def putBytes (bytes : List Byte) : TuiSys :=
  { g with
    cmdBuf := g.cmdBuf ++ bytes
    high := max g.high (g.cmdBuf.length + bytes.length) }

def putU8 (v : Byte) : TuiSys := g.putBytes [v]

def putU16 (v : BitVec 16) : TuiSys := g.putBytes (u16 v)

/-- `flush_cmds`. -/
def flushCmds : TuiSys :=
  if g.cmdBuf = [] then g
  else
    let g := g.putU8 0
    let r := flushDraw g.session g.cmdBuf
    { g with
      cmdBuf := []
      session := r.2
      accepted := g.accepted && decide (0 ≤ r.1) }

def ensureSpace (need : Nat) : TuiSys :=
  if !g.initialized then g
  else if cmdBufCap < g.cmdBuf.length + need + 1 then g.flushCmds
  else g

/-- `(uint16_t)` of an `int`. -/
def narrow (v : BitVec 32) : BitVec 16 := v.setWidth 16

def tuiSetClip (row col h w : BitVec 32) : TuiSys :=
  (((((g.ensureSpace 9).putU8 10).putU16 (narrow row)).putU16 (narrow col)).putU16
    (narrow h)).putU16 (narrow w)

def tuiClearClip : TuiSys := (g.ensureSpace 1).putU8 11

def tuiSetFg (c : BitVec 16) : TuiSys := ((g.ensureSpace 3).putU8 6).putU16 c

def tuiSetBg (c : BitVec 16) : TuiSys := ((g.ensureSpace 3).putU8 7).putU16 c

def tuiSetAttr (attrs : BitVec 32) : TuiSys := ((g.ensureSpace 2).putU8 8).putU8 (attrs.setWidth 8)

def tuiReset : TuiSys :=
  ((g.tuiSetFg vmTuiDefaultColor).tuiSetBg vmTuiDefaultColor).tuiSetAttr 0

def tuiSetCell (row col : BitVec 32) (c : Byte) (fg bg : BitVec 16) (attrs : BitVec 32) : TuiSys :=
  (((((((g.ensureSpace 11).putU8 1).putU16 (narrow row)).putU16 (narrow col)).putU8 c).putU16
    fg).putU16 bg).putU8 (attrs.setWidth 8)

def tuiMove (row col : BitVec 32) : TuiSys :=
  (((g.ensureSpace 5).putU8 5).putU16 (narrow row)).putU16 (narrow col)

def tuiPutc (c : Byte) : TuiSys := ((g.ensureSpace 2).putU8 12).putU8 c

/-- A C string: the bytes up to the terminator. -/
def cString (s : List Byte) : List Byte := s.takeWhile (· ≠ 0)

/-- The loop of `tui_puts`; every round takes a byte at least. -/
def tuiPutsLoop : Nat → TuiSys → List Byte → TuiSys
  | 0, g, _ => g
  | k + 1, g, s =>
    if s = [] then g
    else
      let n := min s.length 200
      tuiPutsLoop k ((((g.ensureSpace (3 + n)).putU8 13).putU16 (BitVec.ofNat 16 n)).putBytes
        (s.take n)) (s.drop n)

def tuiPuts (s : List Byte) : TuiSys := tuiPutsLoop (cString s).length g (cString s)

def tuiClear : TuiSys := (g.ensureSpace 1).putU8 9

def tuiFillRect (row col h w : BitVec 32) (c : Byte) : TuiSys :=
  ((((((g.ensureSpace 10).putU8 2).putU16 (narrow row)).putU16 (narrow col)).putU16
    (narrow h)).putU16 (narrow w)).putU8 c

/-- The loop of `tui_text_block` from the row `r` on, up to the row `stop`. -/
def tuiTextBlockLoop (col w stop : BitVec 32) : Nat → TuiSys → List Byte → BitVec 32 → TuiSys
  | 0, g, _, _ => g
  | k + 1, g, text, r =>
    if text = [] ∨ stop.toInt ≤ r.toInt then g
    else
      let n := min (text.takeWhile (· ≠ 10)).length w.toInt.toNat
      let g :=
        if 0 < n then
          ((((((((g.ensureSpace (12 + n)).putU8 3).putU16 (narrow r)).putU16 (narrow col)).putU16
            vmTuiDefaultColor).putU16 vmTuiDefaultColor).putU8 0).putU16
            (BitVec.ofNat 16 n)).putBytes (text.take n)
        else g
      -- the rest of the line is skipped, and its end
      tuiTextBlockLoop col w stop k g ((text.drop n).dropWhile (· ≠ 10)).tail (r + 1)

def tuiTextBlock (row col h w : BitVec 32) (text : List Byte) : TuiSys :=
  tuiTextBlockLoop col w (row + h) (cString text).length g (cString text) row

def boxWithStyle (row col h w : BitVec 32) (style : Byte) : TuiSys :=
  ((((((g.ensureSpace 10).putU8 4).putU16 (narrow row)).putU16 (narrow col)).putU16
    (narrow h)).putU16 (narrow w)).putU8 style

def tuiBoxSingle (row col h w : BitVec 32) : TuiSys := g.boxWithStyle row col h w 0

def tuiBoxDouble (row col h w : BitVec 32) : TuiSys := g.boxWithStyle row col h w 1

def tuiBoxAscii (row col h w : BitVec 32) : TuiSys := g.boxWithStyle row col h w 2

end TuiSys

inductive DrawCall
  | setClip (row col h w : BitVec 32)
  | clearClip
  | setFg (c : BitVec 16)
  | setBg (c : BitVec 16)
  | setAttr (attrs : BitVec 32)
  | reset
  | setCell (row col : BitVec 32) (c : Byte) (fg bg : BitVec 16) (attrs : BitVec 32)
  | move (row col : BitVec 32)
  | putc (c : Byte)
  | puts (s : List Byte)
  | clear
  | fillRect (row col h w : BitVec 32) (c : Byte)
  | textBlock (row col h w : BitVec 32) (text : List Byte)
  | boxSingle (row col h w : BitVec 32)
  | boxDouble (row col h w : BitVec 32)
  | boxAscii (row col h w : BitVec 32)

def TuiSys.call (g : TuiSys) : DrawCall → TuiSys
  | .setClip row col h w => g.tuiSetClip row col h w
  | .clearClip => g.tuiClearClip
  | .setFg c => g.tuiSetFg c
  | .setBg c => g.tuiSetBg c
  | .setAttr attrs => g.tuiSetAttr attrs
  | .reset => g.tuiReset
  | .setCell row col c fg bg attrs => g.tuiSetCell row col c fg bg attrs
  | .move row col => g.tuiMove row col
  | .putc c => g.tuiPutc c
  | .puts s => g.tuiPuts s
  | .clear => g.tuiClear
  | .fillRect row col h w c => g.tuiFillRect row col h w c
  | .textBlock row col h w text => g.tuiTextBlock row col h w text
  | .boxSingle row col h w => g.tuiBoxSingle row col h w
  | .boxDouble row col h w => g.tuiBoxDouble row col h w
  | .boxAscii row col h w => g.tuiBoxAscii row col h w

/-! ## Drawing directly -/

/-- Line `i` of a text, and what is left from it on. -/
def linesFrom (text : List Byte) : Nat → List Byte
  | 0 => text
  | i + 1 => ((linesFrom text i).dropWhile (· ≠ 10)).tail

def lineAt (text : List Byte) (i : Nat) : List Byte := (linesFrom text i).takeWhile (· ≠ 10)

/-- A cell of a text block. -/
def blockCell (b : Byte) : HostCell := makeCell b vmTuiDefaultColor vmTuiDefaultColor 0

/-- The first `n` lines of a text, cut at the width, in the default colours. -/
def blockFigure (row col w : Int) (n : Nat) (text : List Byte) : Figure :=
  fun r c =>
    if row ≤ r ∧ r < row + n then
      Figure.text r col ((lineAt text (r - row).toNat).take w.toNat) blockCell r c
    else none

/-- A text at the cursor. -/
def typeText (d : VmTuiSession) (bytes : List Byte) : VmTuiSession :=
  { paint d (.text d.curRow d.curCol bytes (penCell d)) with curCol := d.curCol + bytes.length }

/-- The call applied to a session, clipped to the canvas and the clip rectangle. -/
def direct (d : VmTuiSession) : DrawCall → VmTuiSession
  | .setClip row col h w =>
    { d with
      clipR := row.toInt
      clipC := col.toInt
      clipH := h.toInt
      clipW := w.toInt }
  | .clearClip => { d with clipR := 1, clipC := 1, clipH := d.rows, clipW := d.cols }
  | .setFg c => { d with penFg := c }
  | .setBg c => { d with penBg := c }
  | .setAttr attrs => { d with penAttrs := attrs.setWidth 8 }
  | .reset => { d with penFg := vmTuiDefaultColor, penBg := vmTuiDefaultColor, penAttrs := 0 }
  | .setCell row col c fg bg attrs =>
    paint d (.dot row.toInt col.toInt (makeCell c fg bg (attrs.setWidth 8)))
  | .move row col => { d with curRow := row.toInt, curCol := col.toInt }
  | .putc c => typeText d [c]
  | .puts s => typeText d (TuiSys.cString s)
  | .clear => canvasClear d
  | .fillRect row col h w c => paint d (.rect row.toInt col.toInt h.toInt w.toInt (penCell d c))
  | .textBlock row col h w text =>
    paint d (blockFigure row.toInt col.toInt w.toInt h.toInt.toNat (TuiSys.cString text))
  | .boxSingle row col h w | .boxDouble row col h w | .boxAscii row col h w =>
    paint d (.box row.toInt col.toInt h.toInt w.toInt (penCell d))

/-! ## Which calls survive the narrowing -/

/-- A text block's line, as it is printed. -/
def blockLine (w : BitVec 32) (text : List Byte) (i : Nat) : List Byte :=
  (lineAt (TuiSys.cString text) i).take w.toInt.toNat

/-- Both places show the same of what is written from there on. -/
def CursorAlike (d : VmTuiSession) (row col row' col' : Int) : Prop :=
  (row = row' ∧ col = col') ∨ (¬ (1 ≤ row ∧ row ≤ d.rows) ∧ ¬ (1 ≤ row' ∧ row' ≤ d.rows)) ∨
    (d.cols < col ∧ d.cols < col')

open TuiSys in
/-- With coordinates and sizes reduced to 16 bits the call shows the same. The lines of a text block
fit the buffer, and its last row is an `int`. -/
def DrawOk (d : VmTuiSession) : DrawCall → Prop
  | .setClip row col h w => ∀ r c, inCanvas d r c →
      ((((narrow row).toNat : Int) ≤ r ∧ r < (narrow row).toNat + (narrow h).toNat ∧
        (narrow col).toNat ≤ c ∧ c < (narrow col).toNat + (narrow w).toNat) ↔
        row.toInt ≤ r ∧ r < row.toInt + h.toInt ∧ col.toInt ≤ c ∧ c < col.toInt + w.toInt)
  | .setCell row col c fg bg attrs =>
    SameShown d (.dot (narrow row).toNat (narrow col).toNat (makeCell c fg bg (attrs.setWidth 8)))
      (.dot row.toInt col.toInt (makeCell c fg bg (attrs.setWidth 8)))
  | .move row col => CursorAlike d (narrow row).toNat (narrow col).toNat row.toInt col.toInt
  | .fillRect row col h w c =>
    SameShown d
      (.rect (narrow row).toNat (narrow col).toNat (narrow h).toNat (narrow w).toNat (penCell d c))
      (.rect row.toInt col.toInt h.toInt w.toInt (penCell d c))
  | .textBlock row col h w text => (row + h).toInt = row.toInt + h.toInt ∧ ∀ i < h.toInt.toNat,
      12 + (blockLine w text i).length + 1 ≤ cmdBufCap ∧
      SameShown d
        (.text (narrow (row + BitVec.ofNat 32 i)).toNat (narrow col).toNat (blockLine w text i)
          blockCell)
        (.text (row.toInt + i) col.toInt (blockLine w text i) blockCell)
  | .boxSingle row col h w | .boxDouble row col h w | .boxAscii row col h w =>
    SameShown d
      (.box (narrow row).toNat (narrow col).toNat (narrow h).toNat (narrow w).toNat (penCell d))
      (.box row.toInt col.toInt h.toInt w.toInt (penCell d))
  | _ => True

/-! ## The host's parser reads the commands -/

section Decode

@[simp] theorem rdU8_cons (b : Byte) (p : List Byte) : rdU8 (b :: p) = some (b, p) := rfl

@[simp] theorem rdU16_u16 (v : BitVec 16) (p : List Byte) : rdU16 (u16 v ++ p) = some (v, p) := by
  have hv : (v >>> 8).setWidth 8 ++ v.setWidth 8 = v := by
    apply BitVec.eq_of_getLsbD_eq
    intro i hi
    rw [BitVec.getLsbD_append]
    by_cases h8 : i < 8
    · simp [h8]
    · have h16 : i - 8 < 8 := by omega
      have hsum : 8 + (i - 8) = i := by omega
      simp [h8, h16, hsum]
  unfold u16 rdU16
  dsimp only [cons_append, nil_append]
  rw [hv]

theorem u16_length (v : BitVec 16) : (u16 v).length = 2 := rfl

theorem toNat_textLength {text : List Byte} (h : text.length < 2 ^ 16) :
    (BitVec.ofNat 16 text.length).toNat = text.length := by
  rw [BitVec.toNat_ofNat, Nat.mod_eq_of_lt h]

theorem drawCommand_encode (s : VmTuiSession) (op : DrawOp) (h : op.Fits) (p : List Byte) :
    drawCommand s op.code (op.payload ++ p) = some (op.exec s, p) := by
  cases op with
  | print row col fg bg attrs text =>
    have hlen := toNat_textLength h
    have hnot : ¬ (text ++ p).length < text.length := by
      rw [length_append]
      omega
    simp [drawCommand, DrawOp.code, DrawOp.payload, DrawOp.exec, hlen]
  | puts text =>
    have hlen := toNat_textLength h
    simp [drawCommand, DrawOp.code, DrawOp.payload, DrawOp.exec, hlen]
  | _ => simp [drawCommand, DrawOp.code, DrawOp.payload, DrawOp.exec]

theorem DrawOp.code_ne_zero (op : DrawOp) : op.code ≠ 0 := by
  cases op <;> simp [code]

theorem drawLoop_encode (ops : List DrawOp) (hfits : ∀ op ∈ ops, op.Fits) (s : VmTuiSession) (n : Nat)
    (hn : (ops.flatMap DrawOp.encode).length < n) :
    drawLoop n s (ops.flatMap DrawOp.encode ++ [0]) = (0, ops.foldl DrawOp.exec s) := by
  induction ops generalizing s n with
  | nil =>
    obtain ⟨n, rfl⟩ : ∃ m, n = m + 1 := ⟨n - 1, by omega⟩
    rfl
  | cons op ops ih =>
    obtain ⟨n, rfl⟩ : ∃ m, n = m + 1 := ⟨n - 1, by omega⟩
    rw [flatMap_cons, length_append] at hn
    have hcode : op.encode.length = op.payload.length + 1 := rfl
    have hsplit : (op :: ops).flatMap DrawOp.encode ++ [0] =
        op.code :: (op.payload ++ (ops.flatMap DrawOp.encode ++ [0])) := by
      rw [flatMap_cons, append_assoc]
      rfl
    rw [hsplit]
    unfold drawLoop
    rw [if_neg op.code_ne_zero, drawCommand_encode s op (hfits op mem_cons_self)]
    exact ih (fun o ho => hfits o (mem_cons_of_mem _ ho)) (op.exec s) n (by omega)

end Decode

/-! ## The buffer -/

namespace TuiSys

variable {g : TuiSys} {v : VmTuiSession}

/-- The buffer holds whole commands that leave room for the terminator; done by the host, they give
`v`. -/
structure Synced (g : TuiSys) (v : VmTuiSession) : Prop where
  initialized : g.initialized = true
  accepted : g.accepted = true
  high : g.high ≤ cmdBufCap
  room : g.cmdBuf.length + 1 ≤ cmdBufCap
  ops : ∃ ops : List DrawOp, (∀ op ∈ ops, op.Fits) ∧ g.cmdBuf = ops.flatMap DrawOp.encode ∧
    v = ops.foldl DrawOp.exec g.session

theorem Synced.flush (h : Synced g v) : Synced g.flushCmds v ∧ g.flushCmds.cmdBuf = [] ∧
    g.flushCmds.session = v := by
  obtain ⟨ops, hfits, hbuf, hv⟩ := h.ops
  have hcap : cmdBufCap = 2048 := rfl
  unfold flushCmds
  split
  · rename_i hnil
    refine ⟨h, hnil, ?_⟩
    cases ops with
    | nil => exact hv.symm
    | cons op ops =>
      rw [hnil] at hbuf
      cases hbuf
  · rename_i hne
    have hroom := h.room
    have hlen : ¬ (g.cmdBuf ++ [0]).length = 0 := by simp
    have hmax : ¬ vmTuiMaxFlushBytes < (g.cmdBuf ++ [0]).length := by
      have hbytes : vmTuiMaxFlushBytes = 4096 := rfl
      rw [length_append, length_singleton]
      omega
    have hflush : flushDraw g.session (g.cmdBuf ++ [0]) = (0, v) := by
      unfold flushDraw parseDrawCommands
      rw [if_neg hlen, if_neg hmax, hv, hbuf]
      refine drawLoop_encode ops hfits _ _ ?_
      rw [length_append, length_singleton]
      omega
    have hhigh := h.high
    dsimp only [putU8, putBytes]
    rw [hflush]
    refine ⟨⟨h.initialized, ?_, ?_, ?_, [], fun _ ho => (not_mem_nil ho).elim, rfl, rfl⟩, rfl,
      rfl⟩
    · dsimp only
      rw [h.accepted]
      rfl
    · dsimp only [length_singleton]
      omega
    · exact Nat.le_of_ble_eq_true rfl

theorem Synced.ensureSpace (h : Synced g v) {need : Nat} (hneed : need + 1 ≤ cmdBufCap) :
    Synced (g.ensureSpace need) v ∧ (g.ensureSpace need).cmdBuf.length + need + 1 ≤ cmdBufCap := by
  unfold TuiSys.ensureSpace
  rw [h.initialized]
  split
  · rename_i hnot
    cases hnot
  · split
    · obtain ⟨hsync, hnil, -⟩ := h.flush
      refine ⟨hsync, ?_⟩
      rw [hnil, length_nil]
      omega
    · exact ⟨h, by omega⟩

theorem putBytes_putBytes (g : TuiSys) (a b : List Byte) :
    (g.putBytes a).putBytes b = g.putBytes (a ++ b) := by
  have hmax : max (max g.high (g.cmdBuf.length + a.length)) ((g.cmdBuf ++ a).length + b.length) =
      max g.high (g.cmdBuf.length + (a ++ b).length) := by
    rw [length_append, length_append]
    omega
  unfold putBytes
  dsimp only
  rw [hmax, append_assoc]

theorem Synced.emit (h : Synced g v) (op : DrawOp) {need : Nat} (hfits : op.Fits)
    (hlen : op.encode.length = need) (hneed : need + 1 ≤ cmdBufCap) :
    Synced ((g.ensureSpace need).putBytes op.encode) (op.exec v) := by
  obtain ⟨hsync, hroom⟩ := h.ensureSpace hneed
  obtain ⟨ops, hops, hbuf, hv⟩ := hsync.ops
  have hhigh := hsync.high
  refine ⟨hsync.initialized, hsync.accepted, ?_, ?_, ops ++ [op], ?_, ?_, ?_⟩
  · unfold putBytes
    dsimp only
    omega
  · unfold putBytes
    dsimp only
    rw [length_append]
    omega
  · intro o ho
    rcases mem_append.mp ho with ho | ho
    · exact hops o ho
    · rw [mem_singleton.mp ho]
      exact hfits
  · unfold putBytes
    dsimp only
    rw [hbuf, flatMap_append, flatMap_singleton]
  · rw [foldl_append, foldl_cons, foldl_nil, hv]
    rfl

end TuiSys

/-! ## Two sessions that look alike -/

section Alike

variable {v : VmTuiSession}

/-- The host's session and the one that is drawn directly. -/
structure Alike (v d : VmTuiSession) : Prop where
  canvas : v.canvas = d.canvas
  rows : v.rows = d.rows
  cols : v.cols = d.cols
  penFg : v.penFg = d.penFg
  penBg : v.penBg = d.penBg
  penAttrs : v.penAttrs = d.penAttrs
  clip : ∀ r c, inCanvas d r c → (inClip v r c ↔ inClip d r c)
  cursor : CursorAlike d v.curRow v.curCol d.curRow d.curCol

variable {d : VmTuiSession}

theorem Alike.penCell (h : Alike v d) : Tui.penCell v = Tui.penCell d := by
  funext b
  unfold Tui.penCell
  rw [h.penFg, h.penBg, h.penAttrs]

theorem Alike.drawable (h : Alike v d) (r c : Int) : Tui.drawable v r c ↔ Tui.drawable d r c := by
  have hin : inCanvas v r c ↔ inCanvas d r c := by
    unfold inCanvas
    rw [h.rows, h.cols]
  constructor
  · rintro ⟨hcanvas, hclip⟩
    exact ⟨hin.mp hcanvas, (h.clip r c (hin.mp hcanvas)).mp hclip⟩
  · rintro ⟨hcanvas, hclip⟩
    exact ⟨hin.mpr hcanvas, (h.clip r c hcanvas).mpr hclip⟩

/-- Two figures that look the same, painted on sessions that look alike. -/
theorem Alike.paint (h : Alike v d) {f f' : Figure} (hshown : SameShown d f f') :
    Alike (Tui.paint v f) (Tui.paint d f') := by
  refine { h with canvas := funext fun r => funext fun c => ?_ }
  rw [paint_canvas, paint_canvas, h.canvas]
  by_cases hd : Tui.drawable d (r + 1) (c + 1)
  · rw [if_pos ((h.drawable _ _).mpr hd), if_pos hd, hshown _ _ hd]
  · rw [if_neg fun hv => hd ((h.drawable _ _).mp hv), if_neg hd]

theorem CursorAlike.text {row col row' col' : Int} (h : CursorAlike d row col row' col')
    (bytes : List Byte) (cell : Byte → HostCell) :
    SameShown d (.text row col bytes cell) (.text row' col' bytes cell) := by
  rintro r c ⟨⟨hr1, hr2, hc1, hc2⟩, -⟩
  unfold Figure.text
  rcases h with ⟨rfl, rfl⟩ | ⟨hout, hout'⟩ | ⟨hright, hright'⟩
  · rfl
  · rw [if_neg fun hrc : r = row ∧ col ≤ c => hout (hrc.1 ▸ ⟨hr1, hr2⟩),
      if_neg fun hrc : r = row' ∧ col' ≤ c => hout' (hrc.1 ▸ ⟨hr1, hr2⟩)]
  · rw [if_neg fun hrc : r = row ∧ col ≤ c => by omega,
      if_neg fun hrc : r = row' ∧ col' ≤ c => by omega]

theorem CursorAlike.advance {row col row' col' : Int} (h : CursorAlike d row col row' col') (n : Nat) :
    CursorAlike d row (col + n) row' (col' + n) := by
  rcases h with ⟨rfl, rfl⟩ | hout | ⟨hright, hright'⟩
  · exact .inl ⟨rfl, rfl⟩
  · exact .inr (.inl hout)
  · exact .inr (.inr ⟨by omega, by omega⟩)

theorem Alike.puts (h : Alike v d) (bytes : List Byte) :
    Alike (DrawOp.exec v (.puts bytes)) (typeText d bytes) := by
  have hpaint := h.paint (h.cursor.text bytes (Tui.penCell d))
  have hexec : DrawOp.exec v (.puts bytes) = { Tui.paint v (.text v.curRow v.curCol bytes
      (Tui.penCell d)) with curCol := v.curCol + bytes.length } := by
    rw [← putText_eq_paint, ← h.penCell]
    rfl
  rw [hexec]
  exact { hpaint with cursor := h.cursor.advance bytes.length }

theorem Alike.putc (h : Alike v d) (b : Byte) :
    Alike (DrawOp.exec v (.putc b)) (typeText d [b]) := by
  have hexec : DrawOp.exec v (.putc b) = DrawOp.exec v (.puts [b]) := by
    have hcell : setCell v v.curRow v.curCol (Tui.penCell v b) =
        putText v v.curRow v.curCol [b] (Tui.penCell v) := by
      rw [putText_eq_paint, setCell_eq_paint, text_singleton]
    exact congrArg (fun s : VmTuiSession => { s with curCol := v.curCol + 1 }) hcell
  rw [hexec]
  exact h.puts [b]

theorem typeText_append (d : VmTuiSession) (a b : List Byte) :
    typeText (typeText d a) b = typeText d (a ++ b) := by
  have hpaint : Tui.paint (Tui.paint d (.text d.curRow d.curCol a (Tui.penCell d)))
      (.text d.curRow (d.curCol + a.length) b (Tui.penCell d)) =
      Tui.paint d (.text d.curRow d.curCol (a ++ b) (Tui.penCell d)) := by
    rw [paint_paint, text_append]
  have hcol : d.curCol + a.length + b.length = d.curCol + (a ++ b).length := by
    rw [length_append]
    omega
  calc typeText (typeText d a) b
      = { Tui.paint (Tui.paint d (.text d.curRow d.curCol a (Tui.penCell d)))
          (.text d.curRow (d.curCol + a.length) b (Tui.penCell d)) with
          curCol := d.curCol + a.length + b.length } := rfl
    _ = typeText d (a ++ b) := by
      rw [hpaint, hcol]
      rfl

theorem typeText_nil (d : VmTuiSession) : typeText d [] = d := by
  have hempty : Figure.text d.curRow d.curCol [] (Tui.penCell d) = .empty := by
    funext r c
    simp [Figure.text, Figure.empty]
  unfold typeText
  rw [hempty, paint_empty]
  simp

theorem Alike.clear (h : Alike v d) : Alike (canvasClear v) (canvasClear d) := by
  refine { h with canvas := funext fun r => funext fun c => ?_ }
  unfold canvasClear
  dsimp only
  rw [h.rows, h.cols, h.canvas]

end Alike

/-! ## Text blocks -/

section TextBlock

theorem linesFrom_of_nil {text : List Byte} {i : Nat} (h : linesFrom text i = []) {j : Nat}
    (hij : i ≤ j) : linesFrom text j = [] := by
  induction j, hij using Nat.le_induction with
  | base => exact h
  | succ j _ ih =>
    unfold linesFrom
    rw [ih]
    rfl

theorem take_line (text : List Byte) (p : Byte → Bool) (w : Nat) :
    text.take (min (text.takeWhile p).length w) = (text.takeWhile p).take w := by
  have htake : text.takeWhile p = text.take (text.takeWhile p).length :=
    prefix_iff_eq_take.mp ( takeWhile_prefix p)
  conv_rhs => rw [htake, take_take, Nat.min_comm]

theorem dropWhile_drop (text : List Byte) (p : Byte → Bool) {n : Nat}
    (hn : n ≤ (text.takeWhile p).length) : (text.drop n).dropWhile p = text.dropWhile p := by
  have hsplit : text.drop n = (text.takeWhile p).drop n ++ text.dropWhile p := by
    conv_lhs => rw [← takeWhile_append_dropWhile (p := p) (l := text)]
    rw [drop_append_of_le_length hn]
  rw [hsplit, dropWhile_append_of_pos, dropWhile_idempotent]
  exact fun a ha => mem_takeWhile_imp (mem_of_mem_drop ha)

theorem blockFigure_zero (row col w : Int) (text : List Byte) :
    blockFigure row col w 0 text = .empty := by
  funext r c
  unfold blockFigure Figure.empty
  rw [if_neg (by omega)]

theorem blockFigure_succ (row col w : Int) (n : Nat) (text : List Byte) :
    (Figure.text (row + n) col ((lineAt text n).take w.toNat) blockCell).onTop
      (blockFigure row col w n text) = blockFigure row col w (n + 1) text := by
  funext r c
  unfold Figure.onTop blockFigure
  by_cases hr : r = row + n
  · have hi : (r - row).toNat = n := by omega
    rw [if_neg (by omega : ¬ (row ≤ r ∧ r < row + n)), if_pos (by omega), hi, Option.or_none, hr]
  · have hnone : Figure.text (row + n) col ((lineAt text n).take w.toNat) blockCell r c = none := by
      unfold Figure.text
      rw [if_neg fun h : r = row + n ∧ col ≤ c => hr h.1]
    rw [hnone, Option.none_or]
    by_cases hin : row ≤ r ∧ r < row + n
    · rw [if_pos hin, if_pos (by omega)]
    · rw [if_neg hin, if_neg (by omega)]

theorem blockFigure_of_nil {row col w : Int} {text : List Byte} {i n : Nat}
    (h : linesFrom text i = []) (hin : i ≤ n) :
    blockFigure row col w n text = blockFigure row col w i text := by
  induction n, hin using Nat.le_induction with
  | base => rfl
  | succ n hn ih =>
    rw [← blockFigure_succ, ih]
    have hline : lineAt text n = [] := by
      unfold lineAt
      rw [linesFrom_of_nil h hn]
      rfl
    have hempty : Figure.text (row + n) col ((lineAt text n).take w.toNat) blockCell = .empty := by
      funext r c
      rw [hline]
      simp [Figure.text, Figure.empty]
    rw [hempty, Figure.empty_onTop]

theorem toInt_add_ofNat {row : BitVec 32} {i : Nat} (h : row.toInt + i < 0x80000000) :
    (row + BitVec.ofNat 32 i).toInt = row.toInt + i := by
  have hlow := BitVec.le_toInt row
  rw [BitVec.toInt_add, BitVec.toInt_ofNat', Int.add_bmod_bmod]
  exact Int.bmod_eq_of_le (by omega) (by omega)

end TextBlock

/-! ## Every call -/

namespace TuiSys

variable {g : TuiSys} {v d : VmTuiSession}

/-- What the host shows once the buffer is flushed looks like `d`. -/
def Shows (g : TuiSys) (d : VmTuiSession) : Prop := ∃ v, Synced g v ∧ Alike v d

theorem Synced.shows (h : Synced g v) (op : DrawOp) {need : Nat} (hfits : op.Fits)
    (hlen : op.encode.length = need) (hneed : need + 1 ≤ cmdBufCap) (halike : Alike (op.exec v) d) :
    Shows ((g.ensureSpace need).putBytes op.encode) d :=
  ⟨_, h.emit op hfits hlen hneed, halike⟩

theorem puts_length (text : List Byte) : (DrawOp.puts text).encode.length = 3 + text.length := by
  simp only [DrawOp.encode, DrawOp.payload, u16_length, length_cons, length_append]
  omega

theorem print_length (row col fg bg : BitVec 16) (attrs : Byte) (text : List Byte) :
    (DrawOp.print row col fg bg attrs text).encode.length = 12 + text.length := by
  simp only [DrawOp.encode, DrawOp.payload, u16_length, length_cons, length_append,
    length_nil]
  omega

theorem put_puts (g : TuiSys) (text : List Byte) :
    ((g.putU8 13).putU16 (BitVec.ofNat 16 text.length)).putBytes text =
      g.putBytes (DrawOp.puts text).encode := by
  unfold putU8 putU16
  rw [putBytes_putBytes, putBytes_putBytes]
  rfl

theorem put_print (g : TuiSys) (row col fg bg : BitVec 16) (attrs : Byte) (text : List Byte) :
    (((((((g.putU8 3).putU16 row).putU16 col).putU16 fg).putU16 bg).putU8 attrs).putU16
      (BitVec.ofNat 16 text.length)).putBytes text =
      g.putBytes (DrawOp.print row col fg bg attrs text).encode := by
  unfold putU8 putU16
  simp only [putBytes_putBytes]
  rfl

theorem Shows.puts {k : Nat} (h : Shows g d) {bytes : List Byte} (hk : bytes.length ≤ k) :
    Shows (tuiPutsLoop k g bytes) (typeText d bytes) := by
  induction k generalizing g d bytes with
  | zero =>
    have hnil : bytes = [] := eq_nil_of_length_eq_zero (by omega)
    rw [hnil, typeText_nil]
    exact h
  | succ k ih =>
    unfold tuiPutsLoop
    split
    · rename_i hnil
      rw [hnil, typeText_nil]
      exact h
    · rename_i hne
      obtain ⟨v, hsync, halike⟩ := h
      have hpos : 0 < bytes.length := length_pos_of_ne_nil hne
      dsimp only
      generalize hn : min bytes.length 200 = n
      have hlen : (bytes.take n).length = n := by
        rw [length_take]
        omega
      have hcap : 3 + n + 1 ≤ cmdBufCap := by
        have : cmdBufCap = 2048 := rfl
        omega
      have hfits : (DrawOp.puts (bytes.take n)).Fits := by
        have : (bytes.take n).length < 2 ^ 16 := by omega
        exact this
      have hput := put_puts (g.ensureSpace (3 + n)) (bytes.take n)
      have hsize := puts_length (bytes.take n)
      rw [hlen] at hput hsize
      rw [hput]
      have hshows := hsync.shows _ hfits hsize hcap (halike.puts (bytes.take n))
      have hshort : (bytes.drop n).length ≤ k := by
        rw [length_drop]
        omega
      have hrest := ih hshows hshort
      rwa [typeText_append, take_append_drop] at hrest

theorem Shows.textBlock {row col h w : BitVec 32} {text : List Byte}
    (hok : DrawOk d (.textBlock row col h w text)) {k i : Nat}
    (hshows : Shows g (paint d (blockFigure row.toInt col.toInt w.toInt i (cString text))))
    (hi : i ≤ h.toInt.toNat) (hk : (linesFrom (cString text) i).length ≤ k) :
    Shows (tuiTextBlockLoop col w (row + h) k g (linesFrom (cString text) i)
        (row + BitVec.ofNat 32 i))
      (paint d (blockFigure row.toInt col.toInt w.toInt h.toInt.toNat (cString text))) := by
  obtain ⟨hstop, hlines⟩ := hok
  have hhigh := BitVec.toInt_lt (x := row + h)
  induction k generalizing g i with
  | zero =>
    have hnil : linesFrom (cString text) i = [] := eq_nil_of_length_eq_zero (by omega)
    rw [blockFigure_of_nil hnil hi]
    exact hshows
  | succ k ih =>
    unfold tuiTextBlockLoop
    have hrow : (row + BitVec.ofNat 32 i).toInt = row.toInt + i := by
      have hmax := BitVec.toInt_lt (x := row)
      apply toInt_add_ofNat
      omega
    split
    · rename_i hdone
      rcases hdone with hnil | hend
      · rw [blockFigure_of_nil hnil hi]
        exact hshows
      · have : i = h.toInt.toNat := by omega
        rw [← this]
        exact hshows
    · rename_i hnot
      obtain ⟨hne, hlt⟩ := not_or.mp hnot
      have hi' : i < h.toInt.toNat := by omega
      obtain ⟨hcap, hshown⟩ := hlines i hi'
      dsimp only
      generalize hn : min ((linesFrom (cString text) i).takeWhile (· ≠ 10)).length w.toInt.toNat = n
      have hwhole : n ≤ ((linesFrom (cString text) i).takeWhile (· ≠ 10)).length := by omega
      have hline : (linesFrom (cString text) i).take n = blockLine w text i := by
        rw [← hn, take_line]
        rfl
      have hlen : (blockLine w text i).length = n := by
        have hle := ( takeWhile_prefix (l := linesFrom (cString text) i) (· ≠ 10)).length_le
        rw [← hline, length_take]
        omega
      have hrest : (((linesFrom (cString text) i).drop n).dropWhile (· ≠ 10)).tail =
          linesFrom (cString text) (i + 1) := by
        rw [dropWhile_drop _ _ hwhole]
        rfl
      have hshort : (linesFrom (cString text) (i + 1)).length ≤ k := by
        have hle := length_dropWhile_le (· ≠ 10) (linesFrom (cString text) i)
        have hpos := length_pos_of_ne_nil hne
        unfold linesFrom
        rw [length_tail]
        omega
      have hnext : row + BitVec.ofNat 32 i + 1 = row + BitVec.ofNat 32 (i + 1) := by
        rw [BitVec.add_assoc, BitVec.ofNat_add]
        rfl
      rw [hrest, hline, hnext]
      refine ih ?_ hi' hshort
      rw [← blockFigure_succ, ← paint_paint]
      split
      · obtain ⟨v, hsync, halike⟩ := hshows
        have hput := put_print (g.ensureSpace (12 + n)) (narrow (row + BitVec.ofNat 32 i)) (narrow col)
          vmTuiDefaultColor vmTuiDefaultColor 0 (blockLine w text i)
        have hsize := print_length (narrow (row + BitVec.ofNat 32 i)) (narrow col)
          vmTuiDefaultColor vmTuiDefaultColor 0 (blockLine w text i)
        rw [hlen] at hput hsize hcap
        rw [hput]
        refine hsync.shows _ ?_ hsize hcap ?_
        · have hbytes : cmdBufCap = 2048 := rfl
          have : (blockLine w text i).length < 2 ^ 16 := by omega
          exact this
        · have hexec : DrawOp.exec v (.print (narrow (row + BitVec.ofNat 32 i)) (narrow col)
              vmTuiDefaultColor vmTuiDefaultColor 0 (blockLine w text i)) =
              paint v (.text (narrow (row + BitVec.ofNat 32 i)).toNat (narrow col).toNat
                (blockLine w text i) blockCell) := putText_eq_paint v _ _ _ blockCell
          rw [hexec]
          exact halike.paint hshown
      · have hnil : blockLine w text i = [] := eq_nil_of_length_eq_zero (by omega)
        have hempty : Figure.text (row.toInt + i) col.toInt (blockLine w text i) blockCell =
            .empty := by
          funext r c
          rw [hnil]
          simp [Figure.text, Figure.empty]
        have hnone := paint_empty (paint d (blockFigure row.toInt col.toInt w.toInt i (cString text)))
        rw [← hempty] at hnone
        exact (congrArg g.Shows hnone).mpr hshows

theorem Shows.emit (h : Shows g d) (need : Nat) (op : DrawOp) (hfits : op.Fits)
    (hlen : op.encode.length = need) (hneed : need + 1 ≤ cmdBufCap) {g' : TuiSys}
    (hput : g' = (g.ensureSpace need).putBytes op.encode) {d' : VmTuiSession}
    (halike : ∀ v, Alike v d → Alike (op.exec v) d') : Shows g' d' := by
  obtain ⟨v, hsync, hv⟩ := h
  rw [hput]
  exact hsync.shows op hfits hlen hneed (halike v hv)

theorem tuiSetFg_eq (c : BitVec 16) :
    g.tuiSetFg c = (g.ensureSpace 3).putBytes (DrawOp.setFg c).encode := by
  unfold tuiSetFg putU8 putU16
  rw [putBytes_putBytes]
  rfl

theorem tuiSetBg_eq (c : BitVec 16) :
    g.tuiSetBg c = (g.ensureSpace 3).putBytes (DrawOp.setBg c).encode := by
  unfold tuiSetBg putU8 putU16
  rw [putBytes_putBytes]
  rfl

theorem tuiSetAttr_eq (attrs : BitVec 32) :
    g.tuiSetAttr attrs = (g.ensureSpace 2).putBytes (DrawOp.setAttr (attrs.setWidth 8)).encode := by
  unfold tuiSetAttr putU8
  rw [putBytes_putBytes]
  rfl

theorem Shows.setFg (h : Shows g d) (c : BitVec 16) : Shows (g.tuiSetFg c) { d with penFg := c } :=
  h.emit 3 (.setFg c) trivial rfl (by decide) (tuiSetFg_eq c) fun _ hv => { hv with penFg := rfl }

theorem Shows.setBg (h : Shows g d) (c : BitVec 16) : Shows (g.tuiSetBg c) { d with penBg := c } :=
  h.emit 3 (.setBg c) trivial rfl (by decide) (tuiSetBg_eq c) fun _ hv => { hv with penBg := rfl }

theorem Shows.setAttr (h : Shows g d) (attrs : BitVec 32) :
    Shows (g.tuiSetAttr attrs) { d with penAttrs := attrs.setWidth 8 } :=
  h.emit 2 (.setAttr _) trivial rfl (by decide) (tuiSetAttr_eq attrs) fun _ hv =>
    { hv with penAttrs := rfl }

theorem Shows.box (h : Shows g d) {row col ht w : BitVec 32} (style : Byte)
    (hok : DrawOk d (.boxSingle row col ht w)) : Shows (g.boxWithStyle row col ht w style)
      (paint d (.box row.toInt col.toInt ht.toInt w.toInt (penCell d))) := by
  refine h.emit 10 (.box (narrow row) (narrow col) (narrow ht) (narrow w) style) trivial rfl (by decide)
    ?_ fun v hv => ?_
  · unfold boxWithStyle putU8 putU16
    simp only [putBytes_putBytes]
    rfl
  · unfold DrawOp.exec
    dsimp only
    rw [applyBoxAsciiOnly_eq_paint, hv.penCell]
    exact hv.paint hok

theorem Shows.call (h : Shows g d) (c : DrawCall) (hok : DrawOk d c) :
    Shows (g.call c) (direct d c) := by
  cases c with
  | setClip row col ht w =>
    refine h.emit 9 (.setClip (narrow row) (narrow col) (narrow ht) (narrow w)) trivial rfl (by decide)
      ?_ fun v hv => ?_
    · unfold TuiSys.call tuiSetClip putU8 putU16
      simp only [putBytes_putBytes]
      rfl
    · exact { hv with clip := hok }
  | clearClip =>
    refine h.emit 1 .clearClip trivial rfl (by decide) rfl fun v hv => { hv with clip := ?_ }
    intro r c _
    unfold inClip DrawOp.exec direct
    dsimp only
    rw [hv.rows, hv.cols]
  | setFg c => exact h.setFg c
  | setBg c => exact h.setBg c
  | setAttr attrs => exact h.setAttr attrs
  | reset => exact ((h.setFg _).setBg _).setAttr 0
  | setCell row col c fg bg attrs =>
    refine h.emit 11 (.setCell (narrow row) (narrow col) c fg bg (attrs.setWidth 8)) trivial rfl
      (by decide) ?_ fun v hv => ?_
    · unfold TuiSys.call tuiSetCell putU8 putU16
      simp only [putBytes_putBytes]
      rfl
    · unfold DrawOp.exec
      dsimp only
      rw [setCell_eq_paint]
      exact hv.paint hok
  | move row col =>
    refine h.emit 5 (.move (narrow row) (narrow col)) trivial rfl (by decide) ?_ fun v hv => ?_
    · unfold TuiSys.call tuiMove putU8 putU16
      simp only [putBytes_putBytes]
      rfl
    · exact { hv with cursor := hok }
  | putc c =>
    refine h.emit 2 (.putc c) trivial rfl (by decide) ?_ fun v hv => hv.putc c
    unfold TuiSys.call tuiPutc putU8
    dsimp only
    rw [putBytes_putBytes]
    rfl
  | puts s => exact h.puts (Nat.le_refl _)
  | clear => exact h.emit 1 .clear trivial rfl (by decide) rfl fun v hv => hv.clear
  | fillRect row col ht w c =>
    refine h.emit 10 (.fillRect (narrow row) (narrow col) (narrow ht) (narrow w) c) trivial rfl
      (by decide) ?_ fun v hv => ?_
    · unfold TuiSys.call tuiFillRect putU8 putU16
      simp only [putBytes_putBytes]
      rfl
    · unfold DrawOp.exec
      dsimp only
      rw [fillRect_eq_paint, hv.penCell]
      exact hv.paint hok
  | textBlock row col ht w text =>
    have hblock := Shows.textBlock (g := g) (i := 0) hok (by rwa [blockFigure_zero, paint_empty])
      (Nat.zero_le _) (Nat.le_refl _)
    rwa [show row + BitVec.ofNat 32 0 = row from BitVec.add_zero row] at hblock
  | boxSingle row col ht w => exact h.box 0 hok
  | boxDouble row col ht w => exact h.box 1 hok
  | boxAscii row col ht w => exact h.box 2 hok

end TuiSys

/-! ## Every run -/

/-- The library with the host, and the session that is drawn directly. -/
structure TuiPair where
  guest : TuiSys
  ideal : VmTuiSession

namespace TuiPair

def step (p : TuiPair) (c : DrawCall) : Option TuiPair := some ⟨p.guest.call c, direct p.ideal c⟩

/-- After `tui_init`. -/
def init (s : VmTuiSession) : TuiPair := ⟨⟨[], true, 0, s, true⟩, s⟩

/-- With the buffer flushed, the host has accepted every command, the buffer has never been
overrun, and the canvas is the one that is drawn directly. -/
def Faithful (p : TuiPair) : Prop :=
  p.guest.flushCmds.accepted = true ∧ p.guest.flushCmds.high ≤ cmdBufCap ∧
    p.guest.flushCmds.session.canvas = p.ideal.canvas

theorem init_shows (s : VmTuiSession) : (init s).guest.Shows (init s).ideal :=
  ⟨s, ⟨rfl, rfl, Nat.zero_le _, Nat.le_of_ble_eq_true rfl, [], fun _ ho => (not_mem_nil ho).elim, rfl, rfl⟩,
    ⟨rfl, rfl, rfl, rfl, rfl, rfl, fun _ _ _ => Iff.rfl, .inl ⟨rfl, rfl⟩⟩⟩

theorem faithful_of_shows {p : TuiPair} (h : p.guest.Shows p.ideal) : p.Faithful := by
  obtain ⟨v, hsync, halike⟩ := h
  obtain ⟨hflushed, -, hsession⟩ := hsync.flush
  refine ⟨hflushed.accepted, hflushed.high, ?_⟩
  rw [hsession]
  exact halike.canvas

/-- Drawing through the library is drawing directly, if no call loses anything in 16 bits and no
line of a text block overruns the buffer. -/
theorem run_tui_faithful (s : VmTuiSession) {cs : List DrawCall}
    (hok : Meets step (fun p c => DrawOk p.ideal c) (init s) cs) {p : TuiPair}
    (hrun : run step (init s) cs = some p) : p.Faithful := by
  have hstep : ∀ (p : TuiPair) c p', p.guest.Shows p.ideal → DrawOk p.ideal c → p.step c = some p' →
      p'.guest.Shows p'.ideal := by
    intro p c p' h hok hs
    cases hs
    exact h.call c hok
  have hshows : p.guest.Shows p.ideal := run_invariant hstep (init_shows s) hok hrun
  exact faithful_of_shows hshows

/-- A session of the full size. -/
def fullSession : VmTuiSession := initSession .reset 0 30 80 0

/-- A rectangle and a box that reach over a clip of three rows and four columns, and a text. -/
def clippedCalls : List DrawCall :=
  [.setClip 2 2 3 4, .fillRect 1 1 10 10 120, .boxSingle 3 3 9 9, .move 3 4, .puts [104, 105]]

theorem run_tui_faithful_clipped : ∃ p, run step (init fullSession) clippedCalls = some p ∧
    (p.ideal.canvas 1 1).c = 120 ∧ (p.ideal.canvas 0 1).c = 32 ∧ p.Faithful := by
  have hok : Meets step (fun p c => DrawOk p.ideal c) (init fullSession) clippedCalls :=
    ⟨fun _ _ _ => Iff.rfl, fun _ _ => ⟨fun _ _ _ => rfl, fun _ _ => ⟨fun _ _ _ => rfl, fun _ _ =>
      ⟨.inl ⟨rfl, rfl⟩, fun _ _ => ⟨trivial, fun _ _ => trivial⟩⟩⟩⟩⟩
  exact ⟨_, rfl, by decide +kernel, by decide +kernel, run_tui_faithful fullSession hok rfl⟩

/-- A rectangle that begins above the canvas is lost, and a text block with a long line overruns the
buffer. -/
theorem rectangle_lost :
    (∃ p, run step (init fullSession) [.fillRect (-1) 1 4 2 120] = some p ∧ ¬ p.Faithful) ∧
      ∃ p, run step (init fullSession) [.textBlock 1 1 1 3000 (List.replicate 2040 120)] = some p ∧
        ¬ p.Faithful := by
  refine ⟨⟨_, rfl, fun h => ?_⟩, ⟨_, rfl, fun h => ?_⟩⟩
  · have hcell := congrFun (congrFun h.2.2 0) 0
    revert hcell
    decide +kernel
  · have hhigh := h.2.1
    revert hhigh
    decide +kernel

end TuiPair

end Microgarbage.Tui
