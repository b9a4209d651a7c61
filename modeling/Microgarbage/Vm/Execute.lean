import Microgarbage.Vm.Core

/-!
# The interpreter: decode helpers, the compressed expander, execution

`executeOne` is the interpreter's switch, one definition per major opcode. The nested switches on
`funct3` and `funct7` are result functions that return `none` where the C code jumps to its
`illegal:` label. `uint32_t` values are 32-bit vectors, masks and shifts are as in the source, and
an `int32_t` is the same vector read signed.
-/

namespace Microgarbage.Vm

open Lib

/-! ## Instruction fields -/

def opcodeOf (insn : Word) : Word := insn &&& 0x7F#32
def rdOf (insn : Word) : Word := insn >>> 7 &&& 0x1F#32
def funct3Of (insn : Word) : Word := insn >>> 12 &&& 0x7#32
def rs1Of (insn : Word) : Word := insn >>> 15 &&& 0x1F#32
def rs2Of (insn : Word) : Word := insn >>> 20 &&& 0x1F#32
def funct7Of (insn : Word) : Word := insn >>> 25 &&& 0x7F#32

/-- The register a masked field names. -/
def regOf (field : Word) : Reg := field.setWidth 5

def immI (insn : Word) : Word := insn.sshiftRight 20

def immS (insn : Word) : Word :=
  let hi := insn >>> 25 &&& 0x7F#32
  let lo := insn >>> 7 &&& 0x1F#32
  let combined := hi <<< 5 ||| lo
  (combined <<< 20).sshiftRight 20

def immB (insn : Word) : Word :=
  let b12 := insn >>> 31 &&& 0x1#32
  let b11 := insn >>> 7 &&& 0x1#32
  let b10_5 := insn >>> 25 &&& 0x3F#32
  let b4_1 := insn >>> 8 &&& 0xF#32
  let combined := b12 <<< 12 ||| b11 <<< 11 ||| b10_5 <<< 5 ||| b4_1 <<< 1
  (combined <<< 19).sshiftRight 19

def immJ (insn : Word) : Word :=
  let b20 := insn >>> 31 &&& 0x1#32
  let b19_12 := insn >>> 12 &&& 0xFF#32
  let b11 := insn >>> 20 &&& 0x1#32
  let b10_1 := insn >>> 21 &&& 0x3FF#32
  let combined := b20 <<< 20 ||| b19_12 <<< 12 ||| b11 <<< 11 ||| b10_1 <<< 1
  (combined <<< 11).sshiftRight 11

def immU (insn : Word) : Word := insn &&& 0xFFFFF000#32

def shamtOf (insn : Word) : Word := insn >>> 20 &&& 0x1F#32

/-- Arithmetic shift right written out on unsigned values. -/
def sra32 (v shift : Word) : Word :=
  let s := shift &&& 0x1F#32
  if s = 0#32 then v
  else
    let result := v >>> s
    if v &&& 0x80000000#32 ≠ 0#32 then
      result ||| ~~~((1#32 <<< (32#32 - s)) - 1#32)
    else result

/-! ## Control and status registers -/

def csrRead (cpu : VmCpu) (csr : Word) : Word :=
  match csr with
  | 0xC00#32 => cpu.instructionsRetired.setWidth 32
  | 0xC02#32 => cpu.instructionsRetired.setWidth 32
  | 0xC80#32 => (cpu.instructionsRetired >>> 32).setWidth 32
  | 0xC82#32 => (cpu.instructionsRetired >>> 32).setWidth 32
  | 0xF14#32 => cpu.vmId.setWidth 32
  | _ => 0

/-- Every supported register is read-only: writes are dropped. -/
def csrWrite (cpu : VmCpu) (_csr _value : Word) : VmCpu := cpu

/-! ## The compressed-instruction expander -/

def mkR (f7 rs2 rs1 f3 rd op : Word) : Word :=
  f7 <<< 25 ||| rs2 <<< 20 ||| rs1 <<< 15 ||| f3 <<< 12 ||| rd <<< 7 ||| op

def mkI (imm12 rs1 f3 rd op : Word) : Word :=
  (imm12 &&& 0xFFF#32) <<< 20 ||| rs1 <<< 15 ||| f3 <<< 12 ||| rd <<< 7 ||| op

def mkS (imm12 rs2 rs1 f3 op : Word) : Word :=
  let hi := imm12 >>> 5 &&& 0x7F#32
  let lo := imm12 &&& 0x1F#32
  hi <<< 25 ||| rs2 <<< 20 ||| rs1 <<< 15 ||| f3 <<< 12 ||| lo <<< 7 ||| op

def mkB (imm rs2 rs1 f3 op : Word) : Word :=
  let b12 := imm >>> 12 &&& 0x1#32
  let b11 := imm >>> 11 &&& 0x1#32
  let b10_5 := imm >>> 5 &&& 0x3F#32
  let b4_1 := imm >>> 1 &&& 0xF#32
  b12 <<< 31 ||| b10_5 <<< 25 ||| rs2 <<< 20 ||| rs1 <<< 15 ||| f3 <<< 12 ||| b4_1 <<< 8 |||
    b11 <<< 7 ||| op

def mkU (imm rd op : Word) : Word := (imm &&& 0xFFFFF000#32) ||| rd <<< 7 ||| op

def mkJ (imm rd op : Word) : Word :=
  let b20 := imm >>> 20 &&& 0x1#32
  let b19_12 := imm >>> 12 &&& 0xFF#32
  let b11 := imm >>> 11 &&& 0x1#32
  let b10_1 := imm >>> 1 &&& 0x3FF#32
  b20 <<< 31 ||| b10_1 <<< 21 ||| b11 <<< 20 ||| b19_12 <<< 12 ||| rd <<< 7 ||| op

def signExtend (v : Word) (bits : Nat) : Word :=
  (v <<< (32 - bits)).sshiftRight (32 - bits)

/-- Compressed register field: `x8` … `x15`. -/
def creg (f3 : Word) : Word := f3 + 8

/-- The 12-bit jump offset shared by C.JAL and C.J. -/
def cjImm (c : Word) : Word :=
  (c >>> 12 &&& 0x1#32) <<< 11 |||
  (c >>> 11 &&& 0x1#32) <<< 4 |||
  (c >>> 9 &&& 0x3#32) <<< 8 |||
  (c >>> 8 &&& 0x1#32) <<< 10 |||
  (c >>> 7 &&& 0x1#32) <<< 6 |||
  (c >>> 6 &&& 0x1#32) <<< 7 |||
  (c >>> 3 &&& 0x7#32) <<< 1 |||
  (c >>> 2 &&& 0x1#32) <<< 5

/-- The word offset shared by C.LW and C.SW. -/
def clwImm (c : Word) : Word :=
  (c >>> 10 &&& 0x7#32) <<< 3 |||
  (c >>> 6 &&& 0x1#32) <<< 2 |||
  (c >>> 5 &&& 0x1#32) <<< 6

/-- The 6-bit immediate of C.ADDI, C.LI and C.ANDI. -/
def ciImm (c : Word) : Word := (c >>> 12 &&& 0x1#32) <<< 5 ||| (c >>> 2 &&& 0x1F#32)

def expandQuadrant0 (c : Word) : Word :=
  match c >>> 13 &&& 0x7#32 with
  | 0x0#32 =>
    -- C.ADDI4SPN, the zero immediate is reserved
    let rdP := creg (c >>> 2 &&& 0x7#32)
    let imm :=
      (c >>> 11 &&& 0x3#32) <<< 4 |||
      (c >>> 7 &&& 0xF#32) <<< 6 |||
      (c >>> 6 &&& 0x1#32) <<< 2 |||
      (c >>> 5 &&& 0x1#32) <<< 3
    if imm = 0#32 then 0 else mkI imm 2 0x0 rdP 0x13
  | 0x2#32 =>
    -- C.LW
    let rdP := creg (c >>> 2 &&& 0x7#32)
    let rs1P := creg (c >>> 7 &&& 0x7#32)
    mkI (clwImm c) rs1P 0x2 rdP 0x03
  | 0x6#32 =>
    -- C.SW
    let rs2P := creg (c >>> 2 &&& 0x7#32)
    let rs1P := creg (c >>> 7 &&& 0x7#32)
    mkS (clwImm c) rs2P rs1P 0x2 0x23
  | _ => 0

/-- C.ADDI16SP (`rd = 2`) and C.LUI. -/
def expandLui (c : Word) : Word :=
  let rd := c >>> 7 &&& 0x1F#32
  if rd = 0#32 then 0
  else if rd = 2#32 then
    let imm :=
      (c >>> 12 &&& 0x1#32) <<< 9 |||
      (c >>> 6 &&& 0x1#32) <<< 4 |||
      (c >>> 5 &&& 0x1#32) <<< 6 |||
      (c >>> 3 &&& 0x3#32) <<< 7 |||
      (c >>> 2 &&& 0x1#32) <<< 5
    if imm = 0#32 then 0 else mkI (signExtend imm 10) 2 0x0 2 0x13
  else
    let imm := (c >>> 12 &&& 0x1#32) <<< 17 ||| (c >>> 2 &&& 0x1F#32) <<< 12
    if imm = 0#32 then 0 else mkU (signExtend imm 18) rd 0x37

/-- C.SRLI, C.SRAI, C.ANDI and the register-register group. -/
def expandMiscAlu (c : Word) : Word :=
  let sub := c >>> 10 &&& 0x3#32
  let rdP := creg (c >>> 7 &&& 0x7#32)
  if sub = 0x0#32 ∨ sub = 0x1#32 then
    let shamt5 := c >>> 12 &&& 0x1#32
    let shamt40 := c >>> 2 &&& 0x1F#32
    if shamt5 ≠ 0#32 then 0
    else
      let f7 := if sub = 0x1#32 then 0x20#32 else 0x00#32
      mkI (f7 <<< 5 ||| shamt40) rdP 0x5 rdP 0x13
  else if sub = 0x2#32 then
    mkI (signExtend (ciImm c) 6) rdP 0x7 rdP 0x13
  else
    let rs2P := creg (c >>> 2 &&& 0x7#32)
    if c >>> 12 &&& 0x1#32 ≠ 0#32 then 0
    else
      match c >>> 5 &&& 0x3#32 with
      | 0x0#32 => mkR 0x20 rs2P rdP 0x0 rdP 0x33
      | 0x1#32 => mkR 0x00 rs2P rdP 0x4 rdP 0x33
      | 0x2#32 => mkR 0x00 rs2P rdP 0x6 rdP 0x33
      | 0x3#32 => mkR 0x00 rs2P rdP 0x7 rdP 0x33
      | _ => 0

def expandQuadrant1 (c : Word) : Word :=
  let rd := c >>> 7 &&& 0x1F#32
  let branch (f3 : Word) :=
    let rs1P := creg (c >>> 7 &&& 0x7#32)
    let imm :=
      (c >>> 12 &&& 0x1#32) <<< 8 |||
      (c >>> 10 &&& 0x3#32) <<< 3 |||
      (c >>> 5 &&& 0x3#32) <<< 6 |||
      (c >>> 3 &&& 0x3#32) <<< 1 |||
      (c >>> 2 &&& 0x1#32) <<< 5
    mkB (signExtend imm 9) 0 rs1P f3 0x63
  match c >>> 13 &&& 0x7#32 with
  | 0x0#32 => mkI (signExtend (ciImm c) 6) rd 0x0 rd 0x13
  | 0x1#32 => mkJ (signExtend (cjImm c) 12) 1 0x6F
  | 0x2#32 => mkI (signExtend (ciImm c) 6) 0 0x0 rd 0x13
  | 0x3#32 => expandLui c
  | 0x4#32 => expandMiscAlu c
  | 0x5#32 => mkJ (signExtend (cjImm c) 12) 0 0x6F
  | 0x6#32 => branch 0x0
  | 0x7#32 => branch 0x1
  | _ => 0

/-- C.JR, C.MV, C.EBREAK, C.JALR and C.ADD. -/
def expandJrMvAdd (c : Word) : Word :=
  let rdOrRs1 := c >>> 7 &&& 0x1F#32
  let rs2 := c >>> 2 &&& 0x1F#32
  let bit12 := c >>> 12 &&& 0x1#32
  if bit12 = 0#32 then
    if rs2 = 0#32 then
      if rdOrRs1 = 0#32 then 0 else mkI 0 rdOrRs1 0x0 0 0x67
    else mkR 0x00 rs2 0 0x0 rdOrRs1 0x33
  else if rdOrRs1 = 0#32 ∧ rs2 = 0#32 then 0x00100073
  else if rs2 = 0#32 then mkI 0 rdOrRs1 0x0 1 0x67
  else if rdOrRs1 = 0#32 then 0
  else mkR 0x00 rs2 rdOrRs1 0x0 rdOrRs1 0x33

def expandQuadrant2 (c : Word) : Word :=
  match c >>> 13 &&& 0x7#32 with
  | 0x0#32 =>
    -- C.SLLI
    let rd := c >>> 7 &&& 0x1F#32
    let shamt5 := c >>> 12 &&& 0x1#32
    let shamt40 := c >>> 2 &&& 0x1F#32
    if shamt5 ≠ 0#32 then 0 else mkI shamt40 rd 0x1 rd 0x13
  | 0x2#32 =>
    -- C.LWSP, rd = x0 is reserved
    let rd := c >>> 7 &&& 0x1F#32
    if rd = 0#32 then 0
    else
      let imm :=
        (c >>> 12 &&& 0x1#32) <<< 5 |||
        (c >>> 4 &&& 0x7#32) <<< 2 |||
        (c >>> 2 &&& 0x3#32) <<< 6
      mkI imm 2 0x2 rd 0x03
  | 0x4#32 => expandJrMvAdd c
  | 0x6#32 =>
    -- C.SWSP
    let rs2 := c >>> 2 &&& 0x1F#32
    let imm := (c >>> 9 &&& 0xF#32) <<< 2 ||| (c >>> 7 &&& 0x3#32) <<< 6
    mkS imm rs2 2 0x2 0x23
  | _ => 0

/-- The 32-bit equivalent of a compressed instruction, or 0 when it has none. -/
def expandCompressed (c : BitVec 16) : Word :=
  let c := c.setWidth 32
  let quadrant := c &&& 0x3#32
  if quadrant = 0#32 then expandQuadrant0 c
  else if quadrant = 1#32 then expandQuadrant1 c
  else expandQuadrant2 c

/-! ## Execution, one definition per major opcode -/

/-- OP-IMM (0x13). -/
def opImmResult (f3 f7 a uimm shamt : Word) : Option Word :=
  match f3 with
  | 0x0#32 => some (a + uimm)
  | 0x2#32 => some (if a.slt uimm then 1 else 0)
  | 0x3#32 => some (if a.ult uimm then 1 else 0)
  | 0x4#32 => some (a ^^^ uimm)
  | 0x6#32 => some (a ||| uimm)
  | 0x7#32 => some (a &&& uimm)
  | 0x1#32 => if f7 ≠ 0x00#32 then none else some (a <<< shamt)
  | 0x5#32 =>
    if f7 = 0x00#32 then some (a >>> shamt)
    else if f7 = 0x20#32 then some (sra32 a shamt)
    else none
  | _ => none

/-- OP (0x33) with funct7 = 1: the M extension. Products are 64 bits wide; division by zero and
the one overflowing quotient are guarded. -/
def mulDivResult (f3 a b : Word) : Option Word :=
  match f3 with
  | 0x0#32 => some (a * b)
  | 0x1#32 =>
    let prod := a.signExtend 64 * b.signExtend 64
    some ((prod >>> 32).setWidth 32)
  | 0x2#32 =>
    let prod := a.signExtend 64 * b.setWidth 64
    some ((prod >>> 32).setWidth 32)
  | 0x3#32 =>
    let prod := a.setWidth 64 * b.setWidth 64
    some ((prod >>> 32).setWidth 32)
  | 0x4#32 =>
    if b = 0#32 then some 0xFFFFFFFF
    else if a = 0x80000000#32 ∧ b = 0xFFFFFFFF#32 then some 0x80000000
    else some (a.sdiv b)
  | 0x5#32 => if b = 0#32 then some 0xFFFFFFFF else some (a / b)
  | 0x6#32 =>
    if b = 0#32 then some a
    else if a = 0x80000000#32 ∧ b = 0xFFFFFFFF#32 then some 0
    else some (a.srem b)
  | 0x7#32 => if b = 0#32 then some a else some (a % b)
  | _ => none

/-- OP (0x33), base instructions. -/
def opResult (f3 f7 a b : Word) : Option Word :=
  match f3 with
  | 0x0#32 =>
    if f7 = 0x00#32 then some (a + b)
    else if f7 = 0x20#32 then some (a - b)
    else none
  | 0x1#32 => if f7 ≠ 0x00#32 then none else some (a <<< (b &&& 0x1F#32))
  | 0x2#32 => if f7 ≠ 0x00#32 then none else some (if a.slt b then 1 else 0)
  | 0x3#32 => if f7 ≠ 0x00#32 then none else some (if a.ult b then 1 else 0)
  | 0x4#32 => if f7 ≠ 0x00#32 then none else some (a ^^^ b)
  | 0x5#32 =>
    if f7 = 0x00#32 then some (a >>> (b &&& 0x1F#32))
    else if f7 = 0x20#32 then some (sra32 a (b &&& 0x1F#32))
    else none
  | 0x6#32 => if f7 ≠ 0x00#32 then none else some (a ||| b)
  | 0x7#32 => if f7 ≠ 0x00#32 then none else some (a &&& b)
  | _ => none

/-- Common tail of the register-writing opcodes. -/
def writeBack (m : Machine) (insn insnSize : Word) : Option Word → Except Machine Machine
  | none => .error (m.illegal insn)
  | some result => .ok (m.retireTo (regOf (rdOf insn)) result (m.cpu.pc + insnSize))

def execOpImm (m : Machine) (insn insnSize : Word) : Except Machine Machine :=
  let a := m.cpu.regs (regOf (rs1Of insn))
  writeBack m insn insnSize (opImmResult (funct3Of insn) (funct7Of insn) a (immI insn) (shamtOf insn))

def execOp (m : Machine) (insn insnSize : Word) : Except Machine Machine :=
  let a := m.cpu.regs (regOf (rs1Of insn))
  let b := m.cpu.regs (regOf (rs2Of insn))
  if funct7Of insn = 0x01#32 then
    writeBack m insn insnSize (mulDivResult (funct3Of insn) a b)
  else
    writeBack m insn insnSize (opResult (funct3Of insn) (funct7Of insn) a b)

/-- A load of `size` bytes: alignment test, translation, then `value` of the host pointer. -/
def loadAt (m : Machine) (addr size : Word) (value : Nat → Word) : Except Machine Word :=
  if addr &&& (size - 1) ≠ 0#32 then
    .error (m.withCpu (m.cpu.fault .loadMisaligned addr))
  else
    match xlatRead m.cpu addr size .loadFault with
    | .error cpu => .error (m.withCpu cpu)
    | .ok p => .ok (value p)

/-- LOAD (0x03): LB, LH, LW, LBU, LHU. -/
def execLoad (m : Machine) (insn insnSize : Word) : Except Machine Machine := do
  let addr := m.cpu.regs (regOf (rs1Of insn)) + immI insn
  let result ←
    match funct3Of insn with
    | 0x0#32 => loadAt m addr 1 fun p => (m.mem p).signExtend 32
    | 0x1#32 => loadAt m addr 2 fun p => (m.mem.load16 p).signExtend 32
    | 0x2#32 => loadAt m addr 4 fun p => m.mem.load32 p
    | 0x4#32 => loadAt m addr 1 fun p => (m.mem p).setWidth 32
    | 0x5#32 => loadAt m addr 2 fun p => (m.mem.load16 p).setWidth 32
    | _ => .error (m.illegal insn)
  return m.retireTo (regOf (rdOf insn)) result (m.cpu.pc + insnSize)

/-- A store of the low `size` bytes of `value`. -/
def storeAt (m : Machine) (addr size value : Word) : Except Machine Machine :=
  if addr &&& (size - 1) ≠ 0#32 then
    .error (m.withCpu (m.cpu.fault .storeMisaligned addr))
  else
    match xlatWrite m.cpu addr size with
    | .error cpu => .error (m.withCpu cpu)
    | .ok p => .ok { m with mem := m.mem.store p size.toNat value }

/-- STORE (0x23): SB, SH, SW. -/
def execStore (m : Machine) (insn insnSize : Word) : Except Machine Machine := do
  let addr := m.cpu.regs (regOf (rs1Of insn)) + immS insn
  let value := m.cpu.regs (regOf (rs2Of insn))
  let m' ←
    match funct3Of insn with
    | 0x0#32 => storeAt m addr 1 value
    | 0x1#32 => storeAt m addr 2 value
    | 0x2#32 => storeAt m addr 4 value
    | _ => .error (m.illegal insn)
  return m'.jumpTo (m.cpu.pc + insnSize)

/-- Whether a branch is taken; `none` for the two undefined conditions. -/
def branchTaken (f3 a b : Word) : Option Bool :=
  match f3 with
  | 0x0#32 => some (a == b)
  | 0x1#32 => some (a != b)
  | 0x4#32 => some (a.slt b)
  | 0x5#32 => some (!a.slt b)
  | 0x6#32 => some (a.ult b)
  | 0x7#32 => some (!a.ult b)
  | _ => none

/-- BRANCH (0x63). -/
def execBranch (m : Machine) (insn insnSize : Word) : Except Machine Machine :=
  let a := m.cpu.regs (regOf (rs1Of insn))
  let b := m.cpu.regs (regOf (rs2Of insn))
  match branchTaken (funct3Of insn) a b with
  | none => .error (m.illegal insn)
  | some true => .ok (m.jumpTo (m.cpu.pc + immB insn))
  | some false => .ok (m.jumpTo (m.cpu.pc + insnSize))

/-- JALR (0x67). The base register is read before the link register is written. -/
def execJalr (m : Machine) (insn insnSize : Word) : Except Machine Machine :=
  if funct3Of insn ≠ 0x0#32 then .error (m.illegal insn)
  else
    let link := m.cpu.pc + insnSize
    let target := (m.cpu.regs (regOf (rs1Of insn)) + immI insn) &&& ~~~1#32
    .ok (m.retireTo (regOf (rdOf insn)) link target)

/-- The new CSR value and whether it is written; `none` for the undefined operation. -/
def csrUpdate (f3 oldValue source : Word) : Option (Word × Bool) :=
  match f3 &&& 0x3#32 with
  | 0x1#32 => some (source, true)
  | 0x2#32 => some (oldValue ||| source, source ≠ 0#32)
  | 0x3#32 => some (oldValue &&& ~~~source, source ≠ 0#32)
  | _ => none

/-- SYSTEM (0x73): ECALL, EBREAK and the CSR instructions. -/
def execSystem (m : Machine) (insn insnSize : Word) : Except Machine Machine :=
  let f3 := funct3Of insn
  if f3 = 0x0#32 then
    let imm := insn >>> 20 &&& 0xFFF#32
    if imm = 0x000#32 then
      -- pc is advanced past the call before the trap is reported
      .error (m.withCpu { m.cpu with
        pc := m.cpu.pc + insnSize
        trapCause := .ecall
        trapPc := m.cpu.pc + insnSize - insnSize })
    else if imm = 0x001#32 then
      .error (m.withCpu (m.cpu.insnTrap .breakpoint insn))
    else .error (m.illegal insn)
  else
    let csr := insn >>> 20 &&& 0xFFF#32
    let useImm := f3 &&& 0x4#32 ≠ 0#32
    let source := if useImm then rs1Of insn else m.cpu.regs (regOf (rs1Of insn))
    let oldValue := csrRead m.cpu csr
    match csrUpdate f3 oldValue source with
    | none => .error (m.illegal insn)
    | some (newValue, doWrite) =>
      let m' := m.retireTo (regOf (rdOf insn)) oldValue (m.cpu.pc + insnSize)
      .ok (if doWrite then m'.withCpu (csrWrite m'.cpu csr newValue) else m')

/-- The switch on the major opcode, entered with a 32-bit encoding. -/
def executeWord (m : Machine) (insn insnSize : Word) : Except Machine Machine :=
  match opcodeOf insn with
  | 0x13#32 => execOpImm m insn insnSize
  | 0x33#32 => execOp m insn insnSize
  | 0x37#32 => .ok (m.retireTo (regOf (rdOf insn)) (immU insn) (m.cpu.pc + insnSize))
  | 0x17#32 => .ok (m.retireTo (regOf (rdOf insn)) (m.cpu.pc + immU insn) (m.cpu.pc + insnSize))
  | 0x03#32 => execLoad m insn insnSize
  | 0x23#32 => execStore m insn insnSize
  | 0x63#32 => execBranch m insn insnSize
  | 0x6F#32 =>
    .ok (m.retireTo (regOf (rdOf insn)) (m.cpu.pc + insnSize) (m.cpu.pc + immJ insn))
  | 0x67#32 => execJalr m insn insnSize
  | 0x0F#32 =>
    if funct3Of insn ≠ 0x0#32 ∧ funct3Of insn ≠ 0x1#32 then .error (m.illegal insn)
    else .ok (m.jumpTo (m.cpu.pc + insnSize))
  | 0x73#32 => execSystem m insn insnSize
  | _ => .error (m.illegal insn)

/-- `execute_one`: expand a compressed instruction, then run the switch. -/
def executeOne (m : Machine) (insn insnSize : Word) : Except Machine Machine :=
  if insnSize = 2#32 then
    let expanded := expandCompressed (insn.setWidth 16)
    if expanded = 0#32 then .error (m.illegal insn)
    else executeWord m expanded insnSize
  else executeWord m insn insnSize

/-! ## One iteration of the dispatch loop, and the loop -/

def bumpTrapCount (m : Machine) : Machine :=
  m.withCpu { m.cpu with trapCount := m.cpu.trapCount + 1 }

/-- `x0` is squashed and the retired counter bumped after every completed instruction. -/
def retired (m : Machine) : Machine :=
  m.withCpu { m.cpu.setReg 0 0 with instructionsRetired := m.cpu.instructionsRetired + 1 }

def stepOnce (m : Machine) : Bool × Machine :=
  match fetchInstruction m with
  | .error cpu => (false, bumpTrapCount (m.withCpu cpu))
  | .ok (insn, insnSize) =>
    match executeOne m insn insnSize with
    | .error m' =>
      if m'.cpu.trapCause ≠ .ecall then (false, bumpTrapCount m') else (false, m')
    | .ok m' => (true, retired m')

/-- How the dispatch loop reports an exit that `stepOnce` signalled. -/
def stepExit (m : Machine) : VmStepResult × Machine :=
  match m.cpu.trapCause with
  | .ecall => (.ecall, m.withCpu { m.cpu with ecallCount := m.cpu.ecallCount + 1 })
  | .halt => (.halted, m.withCpu { m.cpu with halted := true })
  | _ => (.trapped, m)

/-- The `while (steps < budget)` loop; `remaining` is `budget - steps`. -/
def vmStepLoop : Nat → Nat → Machine → VmStepResult × Nat × Machine
  | 0, steps, m => (.quantumExpired, steps, m)
  | remaining + 1, steps, m =>
    match stepOnce m with
    | (false, m') => ((stepExit m').1, steps, (stepExit m').2)
    | (true, m') => vmStepLoop remaining (steps + 1) m'

def clearTrapState (m : Machine) : Machine :=
  m.withCpu { m.cpu with trapCause := .none, trapPc := 0, trapAddr := 0, trapInsn := 0 }

/-- Run up to `budget` instructions; returns the result, the steps completed and the machine. -/
def vmStep (m : Machine) (budget : Nat) : VmStepResult × Nat × Machine :=
  if m.cpu.halted then (.halted, 0, m)
  else vmStepLoop budget 0 (clearTrapState m)

end Microgarbage.Vm
