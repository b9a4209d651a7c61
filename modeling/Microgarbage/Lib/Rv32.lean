import Mathlib.Algebra.Ring.Int.Defs
import Mathlib.Algebra.Ring.Nat
import Mathlib.Tactic.Common

/-!
# The RV32IM instruction set

Syntax, decoding and execution of RV32I with the M extension and the Zicsr accesses, as the manual
defines them: fields are bit slices, immediates are concatenations, and the arithmetic is on the
integers a register denotes. Memory, its faults and the control registers are a `Platform`, so the
same semantics serves any machine with one hart.
-/

namespace Microgarbage.Lib.Rv32

abbrev Word := BitVec 32
abbrev Reg := BitVec 5

/-! ## Syntax -/

inductive AluOp where
  | add | sub | sll | slt | sltu | xor | srl | sra | or | and
  deriving DecidableEq

inductive MulOp where
  | mul | mulh | mulhsu | mulhu | div | divu | rem | remu
  deriving DecidableEq

inductive Cond where
  | eq | ne | lt | ge | ltu | geu
  deriving DecidableEq

inductive Width where
  | byte | half | word
  deriving DecidableEq

def Width.bytes : Width → Nat
  | .byte => 1
  | .half => 2
  | .word => 4

inductive CsrOp where
  | rw | rs | rc
  deriving DecidableEq

inductive CsrSrc where
  | reg (r : Reg)
  | imm (u : BitVec 5)
  deriving DecidableEq

inductive Instr where
  | lui (rd : Reg) (imm : Word)
  | auipc (rd : Reg) (imm : Word)
  | jal (rd : Reg) (imm : Word)
  | jalr (rd rs1 : Reg) (imm : Word)
  | branch (cond : Cond) (rs1 rs2 : Reg) (imm : Word)
  | load (width : Width) (signed : Bool) (rd rs1 : Reg) (imm : Word)
  | store (width : Width) (rs1 rs2 : Reg) (imm : Word)
  | opImm (op : AluOp) (rd rs1 : Reg) (imm : Word)
  | op (op : AluOp) (rd rs1 rs2 : Reg)
  | mulDiv (op : MulOp) (rd rs1 rs2 : Reg)
  | fence
  | ecall
  | ebreak
  | csr (op : CsrOp) (rd : Reg) (src : CsrSrc) (num : BitVec 12)
  deriving DecidableEq

/-! ## Decoding -/

def opcode (w : Word) : BitVec 7 := w.extractLsb' 0 7
def rd (w : Word) : Reg := w.extractLsb' 7 5
def funct3 (w : Word) : BitVec 3 := w.extractLsb' 12 3
def rs1 (w : Word) : Reg := w.extractLsb' 15 5
def rs2 (w : Word) : Reg := w.extractLsb' 20 5
def funct7 (w : Word) : BitVec 7 := w.extractLsb' 25 7
def imm12 (w : Word) : BitVec 12 := w.extractLsb' 20 12

def immI (w : Word) : Word := (imm12 w).signExtend 32

/-- The amount of an immediate shift. -/
def shamt (w : Word) : Word := (rs2 w).setWidth 32

def immS (w : Word) : Word := (w.extractLsb' 25 7 ++ w.extractLsb' 7 5).signExtend 32

def immB (w : Word) : Word :=
  (w.extractLsb' 31 1 ++ w.extractLsb' 7 1 ++ w.extractLsb' 25 6 ++ w.extractLsb' 8 4 ++
    0#1).signExtend 32

def immU (w : Word) : Word := w.extractLsb' 12 20 ++ 0#12

def immJ (w : Word) : Word :=
  (w.extractLsb' 31 1 ++ w.extractLsb' 12 8 ++ w.extractLsb' 20 1 ++ w.extractLsb' 21 10 ++
    0#1).signExtend 32

def condOf : BitVec 3 → Option Cond
  | 0#3 => some .eq
  | 1#3 => some .ne
  | 4#3 => some .lt
  | 5#3 => some .ge
  | 6#3 => some .ltu
  | 7#3 => some .geu
  | _ => none

/-- Width and signedness of a load. -/
def loadOf : BitVec 3 → Option (Width × Bool)
  | 0#3 => some (.byte, true)
  | 1#3 => some (.half, true)
  | 2#3 => some (.word, true)
  | 4#3 => some (.byte, false)
  | 5#3 => some (.half, false)
  | _ => none

def storeOf : BitVec 3 → Option Width
  | 0#3 => some .byte
  | 1#3 => some .half
  | 2#3 => some .word
  | _ => none

/-- The register-immediate operations; only the shifts have a `funct7`. -/
def aluImmOf (f3 : BitVec 3) (f7 : BitVec 7) : Option AluOp :=
  match f3 with
  | 0#3 => some .add
  | 1#3 => if f7 = 0x00#7 then some .sll else none
  | 2#3 => some .slt
  | 3#3 => some .sltu
  | 4#3 => some .xor
  | 5#3 => if f7 = 0x00#7 then some .srl else if f7 = 0x20#7 then some .sra else none
  | 6#3 => some .or
  | _ => some .and

def AluOp.isShift : AluOp → Bool
  | .sll | .srl | .sra => true
  | _ => false

def aluOf (f3 : BitVec 3) (f7 : BitVec 7) : Option AluOp :=
  match f3, f7 with
  | 0#3, 0x00#7 => some .add
  | 0#3, 0x20#7 => some .sub
  | 1#3, 0x00#7 => some .sll
  | 2#3, 0x00#7 => some .slt
  | 3#3, 0x00#7 => some .sltu
  | 4#3, 0x00#7 => some .xor
  | 5#3, 0x00#7 => some .srl
  | 5#3, 0x20#7 => some .sra
  | 6#3, 0x00#7 => some .or
  | 7#3, 0x00#7 => some .and
  | _, _ => none

def mulOf : BitVec 3 → MulOp
  | 0#3 => .mul
  | 1#3 => .mulh
  | 2#3 => .mulhsu
  | 3#3 => .mulhu
  | 4#3 => .div
  | 5#3 => .divu
  | 6#3 => .rem
  | _ => .remu

def csrOf (w : Word) : Option Instr :=
  match funct3 w with
  | 1#3 => some (.csr .rw (rd w) (.reg (rs1 w)) (imm12 w))
  | 2#3 => some (.csr .rs (rd w) (.reg (rs1 w)) (imm12 w))
  | 3#3 => some (.csr .rc (rd w) (.reg (rs1 w)) (imm12 w))
  | 5#3 => some (.csr .rw (rd w) (.imm (rs1 w)) (imm12 w))
  | 6#3 => some (.csr .rs (rd w) (.imm (rs1 w)) (imm12 w))
  | 7#3 => some (.csr .rc (rd w) (.imm (rs1 w)) (imm12 w))
  | _ => none

/-- ECALL and EBREAK are one word each. -/
def systemOf (w : Word) : Option Instr :=
  if w = 0x00000073#32 then some .ecall
  else if w = 0x00100073#32 then some .ebreak
  else csrOf w

/-- The instruction a 32-bit word encodes. -/
def decode (w : Word) : Option Instr :=
  match opcode w with
  | 0x37#7 => some (.lui (rd w) (immU w))
  | 0x17#7 => some (.auipc (rd w) (immU w))
  | 0x6F#7 => some (.jal (rd w) (immJ w))
  | 0x67#7 => if funct3 w = 0#3 then some (.jalr (rd w) (rs1 w) (immI w)) else none
  | 0x63#7 => (condOf (funct3 w)).map (.branch · (rs1 w) (rs2 w) (immB w))
  | 0x03#7 => (loadOf (funct3 w)).map fun l => .load l.1 l.2 (rd w) (rs1 w) (immI w)
  | 0x23#7 => (storeOf (funct3 w)).map (.store · (rs1 w) (rs2 w) (immS w))
  | 0x13#7 => (aluImmOf (funct3 w) (funct7 w)).map fun op =>
      .opImm op (rd w) (rs1 w) (if op.isShift then shamt w else immI w)
  | 0x33#7 =>
    if funct7 w = 0x01#7 then some (.mulDiv (mulOf (funct3 w)) (rd w) (rs1 w) (rs2 w))
    else (aluOf (funct3 w) (funct7 w)).map (.op · (rd w) (rs1 w) (rs2 w))
  | 0x0F#7 => if funct3 w = 0#3 then some .fence else none
  | 0x73#7 => systemOf w
  | _ => none

/-! ## Arithmetic -/

/-- The second operand of a shift counts modulo 32. -/
def AluOp.eval (a b : Word) : AluOp → Word
  | .add => a + b
  | .sub => a - b
  | .sll => BitVec.ofNat 32 (a.toNat * 2 ^ (b.toNat % 32))
  | .slt => if a.toInt < b.toInt then 1 else 0
  | .sltu => if a.toNat < b.toNat then 1 else 0
  | .xor => a ^^^ b
  | .srl => BitVec.ofNat 32 (a.toNat / 2 ^ (b.toNat % 32))
  | .sra => BitVec.ofInt 32 (a.toInt / 2 ^ (b.toNat % 32))
  | .or => a ||| b
  | .and => a &&& b

/-- Integer `/` rounds down, `tdiv` and `tmod` toward zero. -/
def MulOp.eval (a b : Word) : MulOp → Word
  | .mul => BitVec.ofInt 32 (a.toInt * b.toInt)
  | .mulh => BitVec.ofInt 32 (a.toInt * b.toInt / 2 ^ 32)
  | .mulhsu => BitVec.ofInt 32 (a.toInt * b.toNat / 2 ^ 32)
  | .mulhu => BitVec.ofNat 32 (a.toNat * b.toNat / 2 ^ 32)
  | .div => if b = 0#32 then BitVec.allOnes 32 else BitVec.ofInt 32 (a.toInt.tdiv b.toInt)
  | .divu => if b = 0#32 then BitVec.allOnes 32 else BitVec.ofNat 32 (a.toNat / b.toNat)
  | .rem => if b = 0#32 then a else BitVec.ofInt 32 (a.toInt.tmod b.toInt)
  | .remu => if b = 0#32 then a else BitVec.ofNat 32 (a.toNat % b.toNat)

def Cond.holds (a b : Word) : Cond → Bool
  | .eq => a = b
  | .ne => a ≠ b
  | .lt => a.toInt < b.toInt
  | .ge => b.toInt ≤ a.toInt
  | .ltu => a.toNat < b.toNat
  | .geu => b.toNat ≤ a.toNat

/-- The register value of a loaded quantity. -/
def extend (width : Width) (signed : Bool) (v : Word) : Word :=
  match width with
  | .byte => if signed then (v.extractLsb' 0 8).signExtend 32 else v
  | .half => if signed then (v.extractLsb' 0 16).signExtend 32 else v
  | .word => v

def CsrOp.eval (old source : Word) : CsrOp → Word
  | .rw => source
  | .rs => old ||| source
  | .rc => old &&& ~~~source

/-! ## Execution -/

structure Hart where
  pc : Word
  x : Reg → Word

/-- Write `rd`, unless it is `x0`, and go on at `next`. -/
def Hart.write (h : Hart) (rd : Reg) (v next : Word) : Hart where
  pc := next
  x := fun r => if r = rd ∧ r ≠ 0 then v else h.x r

/-- What surrounds a hart: memory accesses that may raise a fault `ε`, with the loaded value in
the low bits, and control registers that may not exist or refuse a write. -/
structure Platform (μ ε : Type) where
  load : μ → Width → Word → Except ε Word
  store : μ → Width → Word → Word → Except ε μ
  csrRead : μ → BitVec 12 → Option Word
  csrWrite : μ → BitVec 12 → Word → Option μ

inductive Outcome (μ ε : Type) where
  | next (h : Hart) (s : μ)
  | fault (e : ε)
  | illegal
  | ecall
  | ebreak

section Exec

variable {μ ε : Type}

def CsrSrc.value (h : Hart) : CsrSrc → Word
  | .reg r => h.x r
  | .imm u => u.setWidth 32

/-- CSRRS and CSRRC from `x0` or with a zero immediate do not write. -/
def csrWrites (op : CsrOp) (src : CsrSrc) : Bool :=
  match op, src with
  | .rw, _ => true
  | _, .reg r => r ≠ 0
  | _, .imm u => u ≠ 0

def execCsr (P : Platform μ ε) (len : Word) (h : Hart) (s : μ) (op : CsrOp) (rd : Reg)
    (src : CsrSrc) (num : BitVec 12) : Outcome μ ε :=
  match P.csrRead s num with
  | none => .illegal
  | some old =>
    let done := h.write rd old (h.pc + len)
    if csrWrites op src then
      match P.csrWrite s num (op.eval old (src.value h)) with
      | none => .illegal
      | some s' => .next done s'
    else .next done s

/-- One instruction of length `len`. -/
def exec (P : Platform μ ε) (len : Word) (h : Hart) (s : μ) : Instr → Outcome μ ε
  | .lui rd imm => .next (h.write rd imm (h.pc + len)) s
  | .auipc rd imm => .next (h.write rd (h.pc + imm) (h.pc + len)) s
  | .jal rd imm => .next (h.write rd (h.pc + len) (h.pc + imm)) s
  | .jalr rd rs1 imm =>
    .next (h.write rd (h.pc + len) ((h.x rs1 + imm).extractLsb' 1 31 ++ 0#1)) s
  | .branch c rs1 rs2 imm =>
    .next { h with pc := if c.holds (h.x rs1) (h.x rs2) then h.pc + imm else h.pc + len } s
  | .load width signed rd rs1 imm =>
    match P.load s width (h.x rs1 + imm) with
    | .error e => .fault e
    | .ok v => .next (h.write rd (extend width signed v) (h.pc + len)) s
  | .store width rs1 rs2 imm =>
    match P.store s width (h.x rs1 + imm) (h.x rs2) with
    | .error e => .fault e
    | .ok s' => .next { h with pc := h.pc + len } s'
  | .opImm op rd rs1 imm => .next (h.write rd (op.eval (h.x rs1) imm) (h.pc + len)) s
  | .op op rd rs1 rs2 => .next (h.write rd (op.eval (h.x rs1) (h.x rs2)) (h.pc + len)) s
  | .mulDiv op rd rs1 rs2 => .next (h.write rd (op.eval (h.x rs1) (h.x rs2)) (h.pc + len)) s
  | .fence => .next { h with pc := h.pc + len } s
  | .ecall => .ecall
  | .ebreak => .ebreak
  | .csr op rd src num => execCsr P len h s op rd src num

end Exec

/-! ## Facts about the semantics -/

section Facts

variable {μ ε : Type} {P : Platform μ ε} {len : Word} {h h' : Hart} {s s' : μ} {i : Instr}

theorem Hart.write_x0 (rd : Reg) (v next : Word) : (h.write rd v next).x 0 = h.x 0 := by
  simp [Hart.write]

theorem execCsr_x0 {op : CsrOp} {rd : Reg} {src : CsrSrc} {num : BitVec 12}
    (he : execCsr P len h s op rd src num = .next h' s') : h'.x 0 = h.x 0 := by
  unfold execCsr at he
  split at he
  · cases he
  · split at he
    · split at he
      · cases he
      · cases he
        exact Hart.write_x0 _ _ _
    · cases he
      exact Hart.write_x0 _ _ _

theorem exec_x0 (he : exec P len h s i = .next h' s') : h'.x 0 = h.x 0 := by
  cases i with
  | load width signed rd rs1 imm =>
    simp only [exec] at he
    split at he
    · cases he
    · cases he
      exact Hart.write_x0 _ _ _
  | store width rs1 rs2 imm =>
    simp only [exec] at he
    split at he
    · cases he
    · cases he
      rfl
  | csr op rd src num => exact execCsr_x0 he
  | ecall => cases he
  | ebreak => cases he
  | lui | auipc | jal | jalr | opImm | op | mulDiv =>
    cases he
    exact Hart.write_x0 _ _ _
  | branch | fence =>
    cases he
    rfl

end Facts

end Microgarbage.Lib.Rv32
