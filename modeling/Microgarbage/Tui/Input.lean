import Microgarbage.Tui.Canvas

/-!
# The input parser of a session

Bytes from the terminal are kept in the session's ring and decoded into key and mouse events, at
most one for each poll. Escape sequences may arrive in pieces.
-/

namespace Microgarbage.Tui

def inBufCap : Nat := 256

def maxCsiParams : Nat := 6

/-! ## Events -/

def vmTuiKeyEnter : Nat := 256

def vmTuiKeyBackspace : Nat := 257

def vmTuiKeyTab : Nat := 258

def vmTuiKeyEscape : Nat := 259

def vmTuiKeyUp : Nat := 260

def vmTuiKeyDown : Nat := 261

def vmTuiKeyLeft : Nat := 262

def vmTuiKeyRight : Nat := 263

def vmTuiKeyHome : Nat := 264

def vmTuiKeyEnd : Nat := 265

def vmTuiKeyPageUp : Nat := 266

def vmTuiKeyPageDown : Nat := 267

def vmTuiKeyInsert : Nat := 268

def vmTuiKeyDelete : Nat := 269

def vmTuiKeyF1 : Nat := 270

def modShift : Nat := 1

def modAlt : Nat := 2

def modCtrl : Nat := 4

/-- `VM_TUI_MB_*`. -/
inductive MouseButton
  | none
  | left
  | middle
  | right
  | wheelUp
  | wheelDown
  deriving DecidableEq

inductive InEvent
  | key (key mods : Nat)
  | mouse (row col : Int) (button : MouseButton) (mods : Nat) (press drag : Bool)
  deriving DecidableEq

/-! ## The ring -/

namespace InputParser

variable (p : InputParser)

def pop : Option (Byte × InputParser) :=
  match p.buf with
  | [] => none
  | b :: buf => some (b, { p with buf := buf, head := if buf = [] then 0 else p.head + 1 })

/-- How many bytes a read may bring. -/
def avail : Nat := if p.buf = [] then inBufCap else inBufCap - (p.head + p.buf.length)

/-- `in_buf_refill`, when the terminal has `bytes`. -/
def refill (bytes : List Byte) : InputParser :=
  { p with head := if p.buf = [] then 0 else p.head, buf := p.buf ++ bytes.take p.avail }

/-! ## Control sequences -/

def csiReset : InputParser :=
  { p with csiParams := [], csiCurr := 0, csiHasCurr := false, csiIntermediate := 0 }

def csiCommitParam : InputParser :=
  { p with
    csiParams :=
      if p.csiHasCurr ∧ p.csiParams.length < maxCsiParams then p.csiParams ++ [p.csiCurr]
      else p.csiParams
    csiCurr := 0
    csiHasCurr := false }

/-- `csi_reset` and `IN_STATE_GROUND`. -/
def toGround : InputParser := { p.csiReset with state := .ground }

end InputParser

def bitMods (shift alt ctrl : Bool) : Nat :=
  (if shift then modShift else 0) + (if alt then modAlt else 0) + if ctrl then modCtrl else 0

def csiModDecode (m : Int) : Nat :=
  if m ≤ 1 then 0
  else
    let m := (m - 1).toNat
    bitMods (m.testBit 0) (m.testBit 1) (m.testBit 2)

/-- The button of a mouse report, and whether it is a drag; `none` drops the report. -/
def mouseButton (b : Nat) : Option (MouseButton × Bool) :=
  if b.testBit 6 then
    match b % 4 with
    | 0 => some (.wheelUp, false)
    | 1 => some (.wheelDown, false)
    | _ => none
  else
    some (match b % 4 with
      | 0 => .left
      | 1 => .middle
      | 2 => .right
      | _ => .none, b.testBit 5)

def finishMouse (p : InputParser) (final : Nat) : Option InEvent :=
  match p.csiParams with
  | b :: col :: row :: _ =>
    (mouseButton b.toNat).map fun (button, drag) =>
      .mouse row col button (bitMods (b.toNat.testBit 2) (b.toNat.testBit 3) (b.toNat.testBit 4))
        (final = 0x4d) drag
  | _ => none

/-- The keys that a final letter names, in control sequences and after `ESC O`. -/
def letterKey : Nat → Option Nat
  | 0x41 => some vmTuiKeyUp
  | 0x42 => some vmTuiKeyDown
  | 0x43 => some vmTuiKeyRight
  | 0x44 => some vmTuiKeyLeft
  | 0x48 => some vmTuiKeyHome
  | 0x46 => some vmTuiKeyEnd
  | _ => none

/-- The keys of `CSI n ~`. -/
def tildeKey : Int → Option Nat
  | 1 => some vmTuiKeyHome
  | 2 => some vmTuiKeyInsert
  | 3 => some vmTuiKeyDelete
  | 4 => some vmTuiKeyEnd
  | 5 => some vmTuiKeyPageUp
  | 6 => some vmTuiKeyPageDown
  | 15 => some (vmTuiKeyF1 + 4)
  | 17 => some (vmTuiKeyF1 + 5)
  | 18 => some (vmTuiKeyF1 + 6)
  | 19 => some (vmTuiKeyF1 + 7)
  | 20 => some (vmTuiKeyF1 + 8)
  | 21 => some (vmTuiKeyF1 + 9)
  | 23 => some (vmTuiKeyF1 + 10)
  | 24 => some (vmTuiKeyF1 + 11)
  | _ => none

def csiKey (params : List Int) (final : Nat) : Option Nat :=
  match letterKey final with
  | some key => some key
  | none =>
    match params with
    | n :: _ => if final = 0x7e then tildeKey n else none
    | [] => none

/-- The parser is back on the ground whatever the sequence was. -/
def finishCsi (p : InputParser) (final : Nat) : Option InEvent × InputParser :=
  let p := p.csiCommitParam
  if p.csiIntermediate = 0x3c ∧ (final = 0x4d ∨ final = 0x6d) then (finishMouse p final, p.toGround)
  else
    let mods := match p.csiParams with
      | _ :: m :: _ => csiModDecode m
      | _ => 0
    ((csiKey p.csiParams final).map fun key => .key key mods, p.toGround)

def csiOKey (final : Nat) : Option Nat :=
  match final with
  | 0x50 => some vmTuiKeyF1
  | 0x51 => some (vmTuiKeyF1 + 1)
  | 0x52 => some (vmTuiKeyF1 + 2)
  | 0x53 => some (vmTuiKeyF1 + 3)
  | _ => letterKey final

def finishCsiO (p : InputParser) (final : Nat) : Option InEvent × InputParser :=
  ((csiOKey final).map fun key => .key key 0, { p with state := .ground })

/-! ## Polling -/

def groundKey (b : Nat) : Nat :=
  if b = 0x0d ∨ b = 0x0a then vmTuiKeyEnter
  else if b = 0x09 then vmTuiKeyTab
  else if b = 0x7f ∨ b = 0x08 then vmTuiKeyBackspace
  else b

/-- What the parser makes of one byte, which has been taken from the ring. -/
def inputByte (p : InputParser) (b : Nat) : Option InEvent × InputParser :=
  match p.state with
  | .ground =>
    if b = 0x1b then (none, { p with state := .esc, escIdlePolls := 0 })
    else (some (.key (groundKey b) 0), p)
  | .esc =>
    if b = 0x5b then (none, { p.csiReset with state := .csi })
    else if b = 0x4f then (none, { p with state := .csiO })
    else (if 0x20 ≤ b ∧ b < 0x7f then some (.key b modAlt) else none, { p with state := .ground })
  | .csi =>
    if 0x30 ≤ b ∧ b ≤ 0x39 then
      (none, { p with csiCurr := p.csiCurr * 10 + (b - 0x30), csiHasCurr := true })
    else if b = 0x3b then (none, p.csiCommitParam)
    else if b = 0x3c ∨ b = 0x3f then (none, { p with csiIntermediate := BitVec.ofNat 8 b })
    else if 0x40 ≤ b ∧ b ≤ 0x7e then finishCsi p b
    else (none, p.toGround)
  | .csiO => finishCsiO p b

/-- The loop over the ring; every round takes one byte. -/
def inputLoop : Nat → InputParser → Option InEvent × InputParser
  | 0, p => (none, p)
  | n + 1, p =>
    match p.pop with
    | none => (none, p)
    | some (b, p) =>
      match inputByte p b.toNat with
      | (some ev, p) => (some ev, p)
      | (none, p) => inputLoop n p

/-- A bare escape becomes a key after two polls without a byte. -/
def escIdle (p : InputParser) : Option InEvent × InputParser :=
  if p.state = .esc then
    if 2 ≤ p.escIdlePolls + 1 then
      (some (.key vmTuiKeyEscape 0), { p with state := .ground, escIdlePolls := 0 })
    else (none, { p with escIdlePolls := p.escIdlePolls + 1 })
  else (none, p)

def pollInput (p : InputParser) (bytes : List Byte) : Option InEvent × InputParser :=
  let p := p.refill bytes
  match inputLoop p.buf.length p with
  | (some ev, p) => (some ev, p)
  | (none, p) => escIdle p

/-! ## The record that the guest reads -/

structure VmTuiEventRecord where
  kind : Byte
  key : BitVec 16
  mods : Byte
  button : Byte
  row : BitVec 16
  col : BitVec 16
  flags : Byte
  deriving DecidableEq

def MouseButton.code : MouseButton → Byte
  | .none => 0
  | .left => 1
  | .middle => 2
  | .right => 3
  | .wheelUp => 4
  | .wheelDown => 5

def marshalEvent : InEvent → VmTuiEventRecord
  | .key key mods => ⟨1, BitVec.ofNat 16 key, BitVec.ofNat 8 mods, 0, 0, 0, 0⟩
  | .mouse row col button mods press drag =>
    ⟨2, 0, BitVec.ofNat 8 mods, button.code, BitVec.ofInt 16 row, BitVec.ofInt 16 col,
      (if press then 1 else 0) ||| if drag then 2 else 0⟩

end Microgarbage.Tui
