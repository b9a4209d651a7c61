import Microgarbage.Lib.Rv32

/-!
# The compressed extension RV32C

The instruction each 16-bit parcel stands for, as the manual's tables give it for an RV32 hart
without floating point. HINTs are the no-ops their encodings spell out; reserved parcels and those
of extensions outside RV32IMC have no instruction.
-/

namespace Microgarbage.Lib.Rvc

open Rv32

def quadrant (c : BitVec 16) : BitVec 2 := c.extractLsb' 0 2
def funct3 (c : BitVec 16) : BitVec 3 := c.extractLsb' 13 3

/-- The full register fields. -/
def rd (c : BitVec 16) : Reg := c.extractLsb' 7 5
def rs2 (c : BitVec 16) : Reg := c.extractLsb' 2 5

/-- The three-bit register fields name `x8` … `x15`. -/
def rdLow (c : BitVec 16) : Reg := 1#2 ++ c.extractLsb' 2 3
def rdHigh (c : BitVec 16) : Reg := 1#2 ++ c.extractLsb' 7 3

/-! ## Immediates -/

def imm4spn (c : BitVec 16) : BitVec 10 :=
  c.extractLsb' 7 4 ++ c.extractLsb' 11 2 ++ c.extractLsb' 5 1 ++ c.extractLsb' 6 1 ++ 0#2

def immLw (c : BitVec 16) : BitVec 7 :=
  c.extractLsb' 5 1 ++ c.extractLsb' 10 3 ++ c.extractLsb' 6 1 ++ 0#2

def immCi (c : BitVec 16) : BitVec 6 := c.extractLsb' 12 1 ++ c.extractLsb' 2 5

def immJ (c : BitVec 16) : BitVec 12 :=
  c.extractLsb' 12 1 ++ c.extractLsb' 8 1 ++ c.extractLsb' 9 2 ++ c.extractLsb' 6 1 ++
    c.extractLsb' 7 1 ++ c.extractLsb' 2 1 ++ c.extractLsb' 11 1 ++ c.extractLsb' 3 3 ++ 0#1

def imm16sp (c : BitVec 16) : BitVec 10 :=
  c.extractLsb' 12 1 ++ c.extractLsb' 3 2 ++ c.extractLsb' 5 1 ++ c.extractLsb' 2 1 ++
    c.extractLsb' 6 1 ++ 0#4

def immLui (c : BitVec 16) : BitVec 18 := c.extractLsb' 12 1 ++ c.extractLsb' 2 5 ++ 0#12

def immB (c : BitVec 16) : BitVec 9 :=
  c.extractLsb' 12 1 ++ c.extractLsb' 5 2 ++ c.extractLsb' 2 1 ++ c.extractLsb' 10 2 ++
    c.extractLsb' 3 2 ++ 0#1

def immLwsp (c : BitVec 16) : BitVec 8 :=
  c.extractLsb' 2 2 ++ c.extractLsb' 12 1 ++ c.extractLsb' 4 3 ++ 0#2

def immSwsp (c : BitVec 16) : BitVec 8 := c.extractLsb' 7 2 ++ c.extractLsb' 9 4 ++ 0#2

/-- The amount of a shift; its sixth bit must be clear on RV32. -/
def shamt (c : BitVec 16) : Word := (rs2 c).setWidth 32

/-! ## Decoding -/

def decode0 (c : BitVec 16) : Option Instr :=
  match funct3 c with
  | 0#3 =>
    if imm4spn c = 0#10 then none
    else some (.opImm .add (rdLow c) 2 ((imm4spn c).setWidth 32))
  | 2#3 => some (.load .word true (rdLow c) (rdHigh c) ((immLw c).setWidth 32))
  | 6#3 => some (.store .word (rdHigh c) (rdLow c) ((immLw c).setWidth 32))
  | _ => none

/-- C.ADDI16SP and C.LUI; with `rd = x0` the latter is a HINT. -/
def decodeLui (c : BitVec 16) : Option Instr :=
  if rd c = 2#5 then
    if imm16sp c = 0#10 then none else some (.opImm .add 2 2 ((imm16sp c).signExtend 32))
  else if immLui c = 0#18 then none
  else some (.lui (rd c) ((immLui c).signExtend 32))

def decodeAlu (c : BitVec 16) : Option Instr :=
  match c.extractLsb' 10 2 with
  | 0#2 =>
    if c.extractLsb' 12 1 = 0#1 then some (.opImm .srl (rdHigh c) (rdHigh c) (shamt c)) else none
  | 1#2 =>
    if c.extractLsb' 12 1 = 0#1 then some (.opImm .sra (rdHigh c) (rdHigh c) (shamt c)) else none
  | 2#2 => some (.opImm .and (rdHigh c) (rdHigh c) ((immCi c).signExtend 32))
  | _ =>
    if c.extractLsb' 12 1 = 0#1 then
      match c.extractLsb' 5 2 with
      | 0#2 => some (.op .sub (rdHigh c) (rdHigh c) (rdLow c))
      | 1#2 => some (.op .xor (rdHigh c) (rdHigh c) (rdLow c))
      | 2#2 => some (.op .or (rdHigh c) (rdHigh c) (rdLow c))
      | _ => some (.op .and (rdHigh c) (rdHigh c) (rdLow c))
    else none

def decode1 (c : BitVec 16) : Option Instr :=
  match funct3 c with
  | 0#3 => some (.opImm .add (rd c) (rd c) ((immCi c).signExtend 32))
  | 1#3 => some (.jal 1 ((immJ c).signExtend 32))
  | 2#3 => some (.opImm .add (rd c) 0 ((immCi c).signExtend 32))
  | 3#3 => decodeLui c
  | 4#3 => decodeAlu c
  | 5#3 => some (.jal 0 ((immJ c).signExtend 32))
  | 6#3 => some (.branch .eq (rdHigh c) 0 ((immB c).signExtend 32))
  | _ => some (.branch .ne (rdHigh c) 0 ((immB c).signExtend 32))

/-- C.JR, C.MV, C.EBREAK, C.JALR and C.ADD; C.MV and C.ADD into `x0` are HINTs. -/
def decodeJrMvAdd (c : BitVec 16) : Option Instr :=
  if c.extractLsb' 12 1 = 0#1 then
    if rs2 c = 0#5 then
      if rd c = 0#5 then none else some (.jalr 0 (rd c) 0)
    else some (.op .add (rd c) 0 (rs2 c))
  else if rs2 c = 0#5 then
    if rd c = 0#5 then some .ebreak else some (.jalr 1 (rd c) 0)
  else some (.op .add (rd c) (rd c) (rs2 c))

def decode2 (c : BitVec 16) : Option Instr :=
  match funct3 c with
  | 0#3 =>
    if c.extractLsb' 12 1 = 0#1 then some (.opImm .sll (rd c) (rd c) (shamt c)) else none
  | 2#3 =>
    if rd c = 0#5 then none else some (.load .word true (rd c) 2 ((immLwsp c).setWidth 32))
  | 4#3 => decodeJrMvAdd c
  | 6#3 => some (.store .word 2 (rs2 c) ((immSwsp c).setWidth 32))
  | _ => none

/-- The instruction a parcel stands for; a parcel ending in `11` starts a longer word. -/
def decode (c : BitVec 16) : Option Instr :=
  match quadrant c with
  | 0#2 => decode0 c
  | 1#2 => decode1 c
  | 2#2 => decode2 c
  | _ => none

end Microgarbage.Lib.Rvc
