import Microgarbage.Lib.Bytes

/-!
# The VM core: CPU state, memory access, fetch

The state of one virtual machine (`VmCpu`), the region table that maps its 32-bit address space
onto host memory, and the accessors every load, store and fetch goes through. A C function that
returns `false` or `NULL` after setting trap state on the CPU is an `Except` here, the error being
the machine with that trap state.

Host pointers are natural numbers and host memory is one byte function, so that two regions may
overlap when the host maps them so.
-/

namespace Microgarbage.Vm

open Lib

abbrev Word := BitVec 32

/-- A general-purpose register index, `x0` … `x31`. -/
abbrev Reg := BitVec 5

inductive VmStepResult where
  | quantumExpired
  | ecall
  | trapped
  | halted
  deriving DecidableEq

inductive VmTrapCause where
  | none
  | illegalInstr
  | loadFault
  | storeFault
  | loadMisaligned
  | storeMisaligned
  | storeRo
  | instrFetchFault
  | instrMisaligned
  | ecall
  | breakpoint
  | halt
  | watchpoint
  | singlestep
  deriving DecidableEq

inductive VmBlockReason where
  | none
  | yielded
  | mailboxRecv
  | sleep
  | onChild
  | frameConsumed
  deriving DecidableEq

/-- A memory region: host base pointer, length in bytes, and whether guest stores are allowed. -/
structure VmRegion where
  base : Nat
  length : Word
  writable : Bool
  deriving DecidableEq

/-- Region indices are the top two bits of an address. -/
abbrev RegionId := BitVec 2

def regionCode : RegionId := 0
def regionRodata : RegionId := 1
def regionData : RegionId := 2
def regionShared : RegionId := 3

structure VmCpu where
  regs : Reg → Word
  pc : Word
  regions : RegionId → VmRegion
  /-- Upper half of the shared region; absent when its length is 0. -/
  l2Shared : VmRegion
  trapCause : VmTrapCause
  trapPc : Word
  trapAddr : Word
  trapInsn : Word
  halted : Bool
  inCritical : Bool
  blockReason : VmBlockReason
  blockDeadline : Word
  blockChildVm : BitVec 16
  reloadPeriod : Word
  reloadNextDeadline : Word
  vmId : BitVec 16
  instructionsRetired : BitVec 64
  trapCount : Word
  ecallCount : Word
  internal : Fin 5 → Word

/-- One CPU together with the host memory its regions point into. -/
structure Machine where
  cpu : VmCpu
  mem : Mem

/-- ABI names used by the ecall handlers. -/
def regSp : Reg := 2
def regA0 : Reg := 10
def regA1 : Reg := 11
def regA2 : Reg := 12
def regA7 : Reg := 17

/-! ## Lifecycle -/

def VmRegion.absent : VmRegion := ⟨0, 0, false⟩

/-- `memset` to zero, then the identity and the "not waiting on a child" sentinel. -/
def vmInit (vmId : BitVec 16) : VmCpu where
  regs := fun _ => 0
  pc := 0
  regions := fun _ => .absent
  l2Shared := .absent
  trapCause := .none
  trapPc := 0
  trapAddr := 0
  trapInsn := 0
  halted := false
  inCritical := false
  blockReason := .none
  blockDeadline := 0
  blockChildVm := 0xFFFF
  reloadPeriod := 0
  reloadNextDeadline := 0
  vmId := vmId
  instructionsRetired := 0
  trapCount := 0
  ecallCount := 0
  internal := fun _ => 0

/-! ## Register file and trap state -/

namespace VmCpu

def setReg (cpu : VmCpu) (r : Reg) (v : Word) : VmCpu :=
  { cpu with regs := fun i => if i = r then v else cpu.regs i }

/-- Trap state of a faulting memory access. -/
def fault (cpu : VmCpu) (cause : VmTrapCause) (addr : Word) : VmCpu :=
  { cpu with trapCause := cause, trapPc := cpu.pc, trapAddr := addr }

/-- Trap state of a rejected or breaking instruction. -/
def insnTrap (cpu : VmCpu) (cause : VmTrapCause) (insn : Word) : VmCpu :=
  { cpu with trapCause := cause, trapPc := cpu.pc, trapInsn := insn }

end VmCpu

namespace Machine

def withCpu (m : Machine) (cpu : VmCpu) : Machine := { m with cpu := cpu }

/-- The `illegal:` label. -/
def illegal (m : Machine) (insn : Word) : Machine :=
  m.withCpu (m.cpu.insnTrap .illegalInstr insn)

/-- `regs[rd] = v; pc = next`. -/
def retireTo (m : Machine) (rd : Reg) (v next : Word) : Machine :=
  m.withCpu { m.cpu.setReg rd v with pc := next }

def jumpTo (m : Machine) (next : Word) : Machine :=
  m.withCpu { m.cpu with pc := next }

end Machine

/-! ## Address translation -/

/-- The region an address selects and the offset into it. The shared quarter is split again at
bit 29. -/
def xlatPick (cpu : VmCpu) (addr : Word) : VmRegion × Word :=
  let region := addr >>> 30
  if region = 3#32 then
    if addr &&& 0x20000000#32 ≠ 0#32 then
      (cpu.l2Shared, addr &&& 0x1FFFFFFF#32)
    else
      (cpu.regions regionShared, addr &&& 0x1FFFFFFF#32)
  else
    (cpu.regions (region.setWidth 2), addr &&& 0x3FFFFFFF#32)

/-- The fault test shared by the read and the write path, in 32-bit arithmetic. -/
def outOfRegion (r : VmRegion) (offset size : Word) : Bool :=
  r.length == 0#32 || r.length.ult offset || (r.length - offset).ult size

def xlatRead (cpu : VmCpu) (addr size : Word) (faultCause : VmTrapCause) : Except VmCpu Nat :=
  let (r, offset) := xlatPick cpu addr
  if outOfRegion r offset size then
    .error (cpu.fault faultCause addr)
  else
    .ok (r.base + offset.toNat)

def xlatWrite (cpu : VmCpu) (addr size : Word) : Except VmCpu Nat :=
  let (r, offset) := xlatPick cpu addr
  if outOfRegion r offset size then
    .error (cpu.fault .storeFault addr)
  else if !r.writable then
    .error (cpu.fault .storeRo addr)
  else
    .ok (r.base + offset.toNat)

/-! ## Public accessors, used by the ecall handlers -/

def vmTranslateRead (cpu : VmCpu) (addr size : Word) : Except VmCpu Nat :=
  if size = 0#32 then .error cpu else xlatRead cpu addr size .loadFault

def vmTranslateWrite (cpu : VmCpu) (addr size : Word) : Except VmCpu Nat :=
  if size = 0#32 then .error cpu else xlatWrite cpu addr size

/-! ## Instruction fetch -/

/-- The instruction bits at `pc` and their size, 2 or 4. -/
def fetchInstruction (m : Machine) : Except VmCpu (Word × Word) := do
  let cpu := m.cpu
  if cpu.pc &&& 1#32 ≠ 0#32 then
    .error (cpu.fault .instrMisaligned cpu.pc)
  else
    let p ← xlatRead cpu cpu.pc 2 .instrFetchFault
    let lo := m.mem.load16 p
    if lo &&& 3#16 = 3#16 then
      let p ← xlatRead cpu (cpu.pc + 2) 2 .instrFetchFault
      let hi := m.mem.load16 p
      return (hi.setWidth 32 <<< 16 ||| lo.setWidth 32, 4)
    else
      return (lo.setWidth 32, 2)

end Microgarbage.Vm
