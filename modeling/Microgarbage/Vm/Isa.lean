import Microgarbage.Vm.AddressSpace
import Microgarbage.Vm.Codec

/-!
# The interpreter implements RV32IM

The instruction set of `Lib.Rv32` on the VM's platform: memory accesses go through the address
map, the five counters are the control registers. One step of the interpreter at a word `w` is one
instruction of that machine (`executeWord_eq`), an illegal word included. Three things are accepted
beyond the manual, all announced in the source: ECALL and EBREAK whatever their `rd` and `rs1`,
FENCE.I, and accesses to control registers that do not exist or cannot be written.
-/

namespace Microgarbage.Vm

open Lib

/-! ## The VM as a platform -/

/-- A trap cause and the address it reports. -/
abbrev Fault := VmTrapCause × Word

def loadBytes (mem : Mem) (p : Nat) : Rv32.Width → Word
  | .byte => (mem p).setWidth 32
  | .half => (mem.load16 p).setWidth 32
  | .word => mem.load32 p

/-- A load: natural alignment, then a mapped region. -/
def guestLoad (cpu : VmCpu) (mem : Mem) (width : Rv32.Width) (a : Word) : Except Fault Word :=
  if a.toNat % width.bytes ≠ 0 then .error (.loadMisaligned, a)
  else if Mapped cpu a width.bytes then .ok (loadBytes mem (hostAddr cpu a) width)
  else .error (.loadFault, a)

/-- A store: natural alignment, a mapped region, then its permission. -/
def guestStore (cpu : VmCpu) (mem : Mem) (width : Rv32.Width) (a v : Word) : Except Fault Mem :=
  if a.toNat % width.bytes ≠ 0 then .error (.storeMisaligned, a)
  else if Mapped cpu a width.bytes then
    if (regionAt cpu a).writable then .ok (mem.store (hostAddr cpu a) width.bytes v)
    else .error (.storeRo, a)
  else .error (.storeFault, a)

/-- `cycle`, `instret`, their upper halves, and `mhartid`. -/
def counter (cpu : VmCpu) (num : BitVec 12) : Option Word :=
  if num = 0xC00#12 ∨ num = 0xC02#12 then some (cpu.instructionsRetired.extractLsb' 0 32)
  else if num = 0xC80#12 ∨ num = 0xC82#12 then some (cpu.instructionsRetired.extractLsb' 32 32)
  else if num = 0xF14#12 then some (cpu.vmId.setWidth 32)
  else none

/-- The manual's view: the five read-only registers and nothing else. -/
def isaPlatform (cpu : VmCpu) : Rv32.Platform Mem Fault where
  load := guestLoad cpu
  store := guestStore cpu
  csrRead := fun _ num => counter cpu num
  csrWrite := fun _ _ _ => none

/-- The VM's view: unknown registers read as zero, writes are dropped. -/
def guestPlatform (cpu : VmCpu) : Rv32.Platform Mem Fault where
  load := guestLoad cpu
  store := guestStore cpu
  csrRead := fun _ num => some ((counter cpu num).getD 0)
  csrWrite := fun mem _ _ => some mem

/-- Words accepted beyond the manual. -/
def liberalDecode (w : Word) : Option Rv32.Instr :=
  if Rv32.opcode w = 0x73#7 ∧ Rv32.funct3 w = 0#3 ∧ Rv32.imm12 w = 0#12 then some .ecall
  else if Rv32.opcode w = 0x73#7 ∧ Rv32.funct3 w = 0#3 ∧ Rv32.imm12 w = 1#12 then some .ebreak
  else if Rv32.opcode w = 0x0F#7 ∧ Rv32.funct3 w = 1#3 then some .fence
  else Rv32.decode w

def hartOf (cpu : VmCpu) : Rv32.Hart := ⟨cpu.pc, cpu.regs⟩

/-- What each outcome of an instruction means for the VM. -/
def deliver (m : Machine) (insn len : Word) : Rv32.Outcome Mem Fault → Bool × Machine
  | .next h mem =>
    (true, ⟨{ m.cpu with
      pc := h.pc
      regs := h.x
      instructionsRetired := m.cpu.instructionsRetired + 1 }, mem⟩)
  | .fault e => (false, bumpTrapCount (m.withCpu (m.cpu.fault e.1 e.2)))
  | .illegal => (false, bumpTrapCount (m.illegal insn))
  | .ecall =>
    (false, m.withCpu { m.cpu with
      pc := m.cpu.pc + len, trapCause := .ecall, trapPc := m.cpu.pc })
  | .ebreak => (false, bumpTrapCount (m.withCpu (m.cpu.insnTrap .breakpoint insn)))

/-- One instruction on a given platform, under a given decoder. -/
def isaStep (P : VmCpu → Rv32.Platform Mem Fault) (i : Option Rv32.Instr) (m : Machine)
    (insn len : Word) : Bool × Machine :=
  match i with
  | none => deliver m insn len .illegal
  | some i => deliver m insn len (Rv32.exec (P m.cpu) len (hartOf m.cpu) m.mem i)

/-! ## Sized accesses -/

variable (width : Rv32.Width)

def sizeOf : Word := BitVec.ofNat 32 width.bytes

theorem toNat_sizeOf : (sizeOf width).toNat = width.bytes := by
  cases width <;> rfl

theorem sizeOf_pos : 0 < (sizeOf width).toNat := by
  cases width <;> exact (by decide)

theorem misaligned_iff (a : Word) :
    a &&& (sizeOf width - 1) ≠ 0#32 ↔ a.toNat % width.bytes ≠ 0 := by
  have hmask : (a &&& (sizeOf width - 1)).toNat = a.toNat % width.bytes := by
    rw [BitVec.toNat_and]
    cases width with
    | byte => exact Nat.and_two_pow_sub_one_eq_mod a.toNat 0
    | half => exact Nat.and_two_pow_sub_one_eq_mod a.toNat 1
    | word => exact Nat.and_two_pow_sub_one_eq_mod a.toNat 2
  rw [← hmask, not_iff_not, ← BitVec.toNat_inj]
  rfl

theorem loadAt_eq (m : Machine) (width : Rv32.Width) (a : Word) (value : Nat → Word) :
    loadAt m a (sizeOf width) value =
      if a.toNat % width.bytes ≠ 0 then .error (m.withCpu (m.cpu.fault .loadMisaligned a))
      else if Mapped m.cpu a width.bytes then .ok (value (hostAddr m.cpu a))
      else .error (m.withCpu (m.cpu.fault .loadFault a)) := by
  simp only [loadAt, misaligned_iff, xlatRead_eq _ _ _ _ (sizeOf_pos width), toNat_sizeOf]
  by_cases h : Mapped m.cpu a width.bytes
  · rw [if_pos h, if_pos h]
  · rw [if_neg h, if_neg h]

theorem storeAt_eq (m : Machine) (width : Rv32.Width) (a v : Word) :
    storeAt m a (sizeOf width) v =
      if a.toNat % width.bytes ≠ 0 then .error (m.withCpu (m.cpu.fault .storeMisaligned a))
      else if Mapped m.cpu a width.bytes then
        if (regionAt m.cpu a).writable then
          .ok { m with mem := m.mem.store (hostAddr m.cpu a) width.bytes v }
        else .error (m.withCpu (m.cpu.fault .storeRo a))
      else .error (m.withCpu (m.cpu.fault .storeFault a)) := by
  simp only [storeAt, misaligned_iff, xlatWrite_eq _ _ _ (sizeOf_pos width), toNat_sizeOf]
  by_cases h : Mapped m.cpu a width.bytes
  · rw [if_pos h, if_pos h]
    cases (regionAt m.cpu a).writable <;> rfl
  · rw [if_neg h, if_neg h]

/-! ## Control registers -/

theorem low_half (x : BitVec 64) : x.setWidth 32 = x.extractLsb' 0 32 :=
  BitVec.setWidth_eq_extractLsb' (by omega)

theorem high_half (x : BitVec 64) : (x >>> 32).setWidth 32 = x.extractLsb' 32 32 :=
  BitVec.setWidth_ushiftRight_eq_extractLsb

theorem csrRead_eq (cpu : VmCpu) (num : BitVec 12) :
    csrRead cpu (num.setWidth 32) = (counter cpu num).getD 0 := by
  have hinj : ∀ k : BitVec 12, num.setWidth 32 = k.setWidth 32 → num = k :=
    fun k h => (setWidth_inj (by omega)).mp h
  unfold csrRead
  split
  · rename_i h
    rw [hinj 0xC00#12 h, low_half]
    rfl
  · rename_i h
    rw [hinj 0xC02#12 h, low_half]
    rfl
  · rename_i h
    rw [hinj 0xC80#12 h, high_half]
    rfl
  · rename_i h
    rw [hinj 0xC82#12 h, high_half]
    rfl
  · rename_i h
    rw [hinj 0xF14#12 h]
    rfl
  · rename_i h1 h2 h3 h4 h5
    have hne : ∀ k : BitVec 12, ¬ num.setWidth 32 = k.setWidth 32 → num ≠ k :=
      fun k h hc => h (by rw [hc])
    have hnone : counter cpu num = none := by
      unfold counter
      rw [if_neg (not_or.mpr ⟨hne 0xC00#12 h1, hne 0xC02#12 h2⟩),
        if_neg (not_or.mpr ⟨hne 0xC80#12 h3, hne 0xC82#12 h4⟩), if_neg (hne 0xF14#12 h5)]
    rw [hnone]
    rfl

/-! ## The liberal decoder -/

theorem liberalDecode_of_opcode {w : Word} (h : Rv32.opcode w ≠ 0x73#7)
    (h' : Rv32.opcode w ≠ 0x0F#7) : liberalDecode w = Rv32.decode w := by
  simp only [liberalDecode, h, h', false_and, ↓reduceIte]

theorem liberalDecode_csr {w : Word} (hop : Rv32.opcode w = 0x73#7) (h : Rv32.funct3 w ≠ 0#3) :
    liberalDecode w = Rv32.csrOf w := by
  have hw : ∀ k : Word, Rv32.funct3 k = 0#3 → w ≠ k := fun k hk e => h (e ▸ hk)
  have hf : (0x73#7 : BitVec 7) ≠ 0x0F#7 := by decide
  simp only [liberalDecode, hop, h, hf, false_and, and_false, ↓reduceIte, Rv32.decode,
    Rv32.systemOf]
  rw [if_neg (hw _ rfl), if_neg (hw _ rfl)]

theorem liberalDecode_env {w : Word} (hop : Rv32.opcode w = 0x73#7) (h : Rv32.funct3 w = 0#3) :
    liberalDecode w =
      if Rv32.imm12 w = 0#12 then some .ecall
      else if Rv32.imm12 w = 1#12 then some .ebreak
      else none := by
  have hf : (0x73#7 : BitVec 7) ≠ 0x0F#7 := by decide
  simp only [liberalDecode, hop, h, hf, true_and, false_and, ↓reduceIte, Rv32.decode,
    Rv32.systemOf]
  by_cases h0 : Rv32.imm12 w = 0#12
  · rw [if_pos h0, if_pos h0]
  rw [if_neg h0, if_neg h0]
  by_cases h1 : Rv32.imm12 w = 1#12
  · rw [if_pos h1, if_pos h1]
  rw [if_neg h1, if_neg h1, if_neg (fun e => h0 (by rw [e]; rfl)),
    if_neg (fun e => h1 (by rw [e]; rfl))]
  simp only [Rv32.csrOf, h]
  rfl

theorem liberalDecode_fence {w : Word} (hop : Rv32.opcode w = 0x0F#7) :
    liberalDecode w =
      if Rv32.funct3 w ≠ 0#3 ∧ Rv32.funct3 w ≠ 1#3 then none else some .fence := by
  have hf : (0x0F#7 : BitVec 7) ≠ 0x73#7 := by decide
  simp only [liberalDecode, hop, hf, true_and, false_and, ↓reduceIte, Rv32.decode]
  obtain h | h | h | h | h | h | h | h := funct3_cases (Rv32.funct3 w) <;> simp [h]

/-! ## The tail of `stepOnce` -/

def commit : Except Machine Machine → Bool × Machine
  | .error m' => if m'.cpu.trapCause ≠ .ecall then (false, bumpTrapCount m') else (false, m')
  | .ok m' => (true, retired m')

theorem stepOnce_of_fetch {m : Machine} {insn size : Word}
    (h : fetchInstruction m = .ok (insn, size)) :
    stepOnce m = commit (executeOne m insn size) := by
  unfold stepOnce
  rw [h]
  rfl

section Commit

variable {m : Machine} (insn len : Word)

theorem commit_fault {cause : VmTrapCause} {a : Word} (hc : cause ≠ .ecall) :
    commit (.error (m.withCpu (m.cpu.fault cause a))) = deliver m insn len (.fault (cause, a)) := by
  show (if cause ≠ .ecall then _ else _) = _
  rw [if_pos hc]
  rfl

variable (hx : m.cpu.regs 0 = 0)
include hx

theorem commit_retireTo (rd : Reg) (v next : Word) :
    commit (.ok (m.retireTo rd v next)) =
      deliver m insn len (.next ((hartOf m.cpu).write rd v next) m.mem) := by
  have hregs : (fun r : Reg => if r = 0 then 0 else if r = rd then v else m.cpu.regs r) =
      fun r => if r = rd ∧ r ≠ 0 then v else m.cpu.regs r := by
    funext r
    by_cases h0 : r = 0
    · rw [if_pos h0, if_neg (fun h => h.2 h0), h0, hx]
    · rw [if_neg h0]
      simp only [h0, ne_eq, not_false_eq_true, and_true]
  simp only [commit, retired, Machine.retireTo, Machine.withCpu, VmCpu.setReg, deliver,
    Rv32.Hart.write, hartOf, hregs]

theorem commit_jumpTo (mem : Mem) (next : Word) :
    commit (.ok ({ m with mem := mem }.jumpTo next)) =
      deliver m insn len (.next { hartOf m.cpu with pc := next } mem) := by
  have hregs : (fun r : Reg => if r = 0 then 0 else m.cpu.regs r) = m.cpu.regs := by
    funext r
    by_cases h0 : r = 0
    · rw [if_pos h0, h0, hx]
    · rw [if_neg h0]
  simp only [commit, retired, Machine.jumpTo, Machine.withCpu, VmCpu.setReg, deliver, hartOf,
    hregs]

theorem commit_writeBack (result : Option Word) :
    commit (writeBack m insn len result) =
      deliver m insn len (match result with
        | none => .illegal
        | some v => .next ((hartOf m.cpu).write (Rv32.rd insn) v (m.cpu.pc + len)) m.mem) := by
  cases result with
  | none => rfl
  | some v =>
    simp only [writeBack, regOf_rd]
    exact commit_retireTo insn len hx _ _ _

/-! ## One lemma per major opcode -/

theorem execOpImm_eq :
    commit (execOpImm m insn len) =
      isaStep guestPlatform
        ((Rv32.aluImmOf (Rv32.funct3 insn) (Rv32.funct7 insn)).map fun op =>
          .opImm op (Rv32.rd insn) (Rv32.rs1 insn)
            (if op.isShift then Rv32.shamt insn else Rv32.immI insn)) m insn len := by
  unfold execOpImm
  simp only [regOf_rs1, funct3Of_eq, funct7Of_eq, immI_eq, shamtOf_eq, Rv32.shamt, opImmResult_eq]
  rw [commit_writeBack insn len hx]
  cases Rv32.aluImmOf (Rv32.funct3 insn) (Rv32.funct7 insn) <;> rfl

theorem execOp_eq :
    commit (execOp m insn len) =
      isaStep guestPlatform
        (if Rv32.funct7 insn = 0x01#7 then
          some (.mulDiv (Rv32.mulOf (Rv32.funct3 insn)) (Rv32.rd insn) (Rv32.rs1 insn)
            (Rv32.rs2 insn))
        else (Rv32.aluOf (Rv32.funct3 insn) (Rv32.funct7 insn)).map
          (.op · (Rv32.rd insn) (Rv32.rs1 insn) (Rv32.rs2 insn))) m insn len := by
  have h7 : (Rv32.funct7 insn).setWidth 32 = 0x01#32 ↔ Rv32.funct7 insn = 0x01#7 :=
    setWidth_inj (y := 0x01#7) (by omega)
  unfold execOp
  simp only [regOf_rs1, regOf_rs2, funct3Of_eq, funct7Of_eq, h7, mulDivResult_eq, opResult_eq]
  by_cases h : Rv32.funct7 insn = 0x01#7
  · rw [if_pos h, if_pos h, commit_writeBack insn len hx]
    rfl
  · rw [if_neg h, if_neg h, commit_writeBack insn len hx]
    cases Rv32.aluOf (Rv32.funct3 insn) (Rv32.funct7 insn) <;> rfl

theorem execBranch_eq :
    commit (execBranch m insn len) =
      isaStep guestPlatform
        ((Rv32.condOf (Rv32.funct3 insn)).map
          (.branch · (Rv32.rs1 insn) (Rv32.rs2 insn) (Rv32.immB insn))) m insn len := by
  unfold execBranch
  simp only [regOf_rs1, regOf_rs2, funct3Of_eq, immB_eq, branchTaken_eq]
  cases hc : Rv32.condOf (Rv32.funct3 insn) with
  | none => rfl
  | some c =>
    have hj := fun next => commit_jumpTo insn len hx m.mem next
    simp only [Option.map_some, isaStep, Rv32.exec]
    cases hb : c.holds (m.cpu.regs (Rv32.rs1 insn)) (m.cpu.regs (Rv32.rs2 insn)) with
    | true => simpa [hartOf, hb] using hj (m.cpu.pc + Rv32.immB insn)
    | false => simpa [hartOf, hb] using hj (m.cpu.pc + len)

theorem execJalr_eq :
    commit (execJalr m insn len) =
      isaStep guestPlatform
        (if Rv32.funct3 insn = 0#3 then
          some (.jalr (Rv32.rd insn) (Rv32.rs1 insn) (Rv32.immI insn))
        else none) m insn len := by
  have h3 : (Rv32.funct3 insn).setWidth 32 = 0x0#32 ↔ Rv32.funct3 insn = 0#3 :=
    setWidth_inj (y := 0#3) (by omega)
  unfold execJalr
  simp only [regOf_rs1, regOf_rd, funct3Of_eq, immI_eq, ne_eq, h3, clear_bit0]
  by_cases h : Rv32.funct3 insn = 0#3
  · rw [if_neg (not_not.mpr h), if_pos h]
    exact commit_retireTo insn len hx _ _ _
  · rw [if_pos h, if_neg h]
    rfl

/-- A load with its write-back, for a `value` that reads the guest's bytes. -/
theorem commit_load (width : Rv32.Width) (signed : Bool) (rd rs1 : Reg) (imm : Word)
    (value : Nat → Word)
    (hv : ∀ p, value p = Rv32.extend width signed (loadBytes m.mem p width)) :
    commit (loadAt m (m.cpu.regs rs1 + imm) (sizeOf width) value >>= fun v =>
        pure (m.retireTo rd v (m.cpu.pc + len))) =
      isaStep guestPlatform (some (.load width signed rd rs1 imm)) m insn len := by
  simp only [isaStep, Rv32.exec, guestPlatform, hartOf, loadAt_eq, guestLoad]
  generalize m.cpu.regs rs1 + imm = a
  by_cases h : a.toNat % width.bytes ≠ 0
  · rw [if_pos h, if_pos h]
    exact commit_fault insn len (by decide)
  rw [if_neg h, if_neg h]
  by_cases h' : Mapped m.cpu a width.bytes
  · rw [if_pos h', if_pos h']
    simp only [← hv]
    exact commit_retireTo insn len hx _ _ _
  · rw [if_neg h', if_neg h']
    exact commit_fault insn len (by decide)

theorem commit_store (width : Rv32.Width) (rs1 rs2 : Reg) (imm : Word) :
    commit (storeAt m (m.cpu.regs rs1 + imm) (sizeOf width) (m.cpu.regs rs2) >>= fun m' =>
        pure (m'.jumpTo (m.cpu.pc + len))) =
      isaStep guestPlatform (some (.store width rs1 rs2 imm)) m insn len := by
  simp only [isaStep, Rv32.exec, guestPlatform, hartOf, storeAt_eq, guestStore]
  generalize m.cpu.regs rs1 + imm = a
  by_cases h : a.toNat % width.bytes ≠ 0
  · rw [if_pos h, if_pos h]
    exact commit_fault insn len (by decide)
  rw [if_neg h, if_neg h]
  by_cases h' : Mapped m.cpu a width.bytes
  · rw [if_pos h', if_pos h']
    by_cases hw : (regionAt m.cpu a).writable = true
    · rw [if_pos hw, if_pos hw]
      exact commit_jumpTo insn len hx _ _
    · rw [if_neg hw, if_neg hw]
      exact commit_fault insn len (by decide)
  · rw [if_neg h', if_neg h']
    exact commit_fault insn len (by decide)

theorem execLoad_eq :
    commit (execLoad m insn len) =
      isaStep guestPlatform
        ((Rv32.loadOf (Rv32.funct3 insn)).map fun l =>
          .load l.1 l.2 (Rv32.rd insn) (Rv32.rs1 insn) (Rv32.immI insn)) m insn len := by
  have hload := fun width signed value hv =>
    commit_load insn len hx width signed (Rv32.rd insn) (Rv32.rs1 insn) (Rv32.immI insn) value hv
  unfold execLoad
  simp only [regOf_rs1, regOf_rd, funct3Of_eq, immI_eq]
  obtain h | h | h | h | h | h | h | h := funct3_cases (Rv32.funct3 insn) <;> rw [h]
  · exact hload .byte true (fun p => (m.mem p).signExtend 32) fun p => by
      simp only [Rv32.extend, loadBytes, low_slice (show 8 ≤ 32 by omega), ↓reduceIte]
  · exact hload .half true (fun p => (m.mem.load16 p).signExtend 32) fun p => by
      simp only [Rv32.extend, loadBytes, low_slice (show 16 ≤ 32 by omega), ↓reduceIte]
  · exact hload .word true (fun p => m.mem.load32 p) fun _ => rfl
  · rfl
  · exact hload .byte false (fun p => (m.mem p).setWidth 32) fun _ => rfl
  · exact hload .half false (fun p => (m.mem.load16 p).setWidth 32) fun _ => rfl
  · rfl
  · rfl

theorem execStore_eq :
    commit (execStore m insn len) =
      isaStep guestPlatform
        ((Rv32.storeOf (Rv32.funct3 insn)).map
          (.store · (Rv32.rs1 insn) (Rv32.rs2 insn) (Rv32.immS insn))) m insn len := by
  have hstore := fun width =>
    commit_store insn len hx width (Rv32.rs1 insn) (Rv32.rs2 insn) (Rv32.immS insn)
  unfold execStore
  simp only [regOf_rs1, regOf_rs2, funct3Of_eq, immS_eq]
  obtain h | h | h | h | h | h | h | h := funct3_cases (Rv32.funct3 insn) <;> rw [h]
  · exact hstore .byte
  · exact hstore .half
  · exact hstore .word
  all_goals rfl

/-- Every control-register access succeeds: reads are total and writes are dropped. -/
theorem exec_csr (op : Rv32.CsrOp) (rd : Reg) (src : Rv32.CsrSrc) (num : BitVec 12) :
    commit (.ok (m.retireTo rd ((counter m.cpu num).getD 0) (m.cpu.pc + len))) =
      isaStep guestPlatform (some (.csr op rd src num)) m insn len := by
  simp only [isaStep, Rv32.exec, Rv32.execCsr, guestPlatform, ite_self]
  exact commit_retireTo insn len hx _ _ _

theorem execSystem_csr (h0 : Rv32.funct3 insn ≠ 0#3) :
    commit (execSystem m insn len) = isaStep guestPlatform (Rv32.csrOf insn) m insn len := by
  have h0' : (Rv32.funct3 insn).setWidth 32 ≠ 0x0#32 := fun hc =>
    h0 ((setWidth_inj (y := 0#3) (by omega)).mp hc)
  have hcsr := fun op src =>
    exec_csr insn len hx op (Rv32.rd insn) src (Rv32.imm12 insn)
  have hdrop : ∀ (b : Bool) (m' : Machine) (c v : Word),
      (if b then m'.withCpu (csrWrite m'.cpu c v) else m') = m' := by
    intro b m' c v
    cases b <;> rfl
  unfold execSystem
  simp only [regOf_rd, regOf_rs1, funct3Of_eq, imm12_mask, csrRead_eq, hdrop, if_neg h0']
  obtain h | h | h | h | h | h | h | h := funct3_cases (Rv32.funct3 insn)
  · exact absurd h h0
  all_goals rw [h]
  all_goals unfold Rv32.csrOf
  all_goals rw [h]
  · exact hcsr .rw (.reg (Rv32.rs1 insn))
  · exact hcsr .rs (.reg (Rv32.rs1 insn))
  · exact hcsr .rc (.reg (Rv32.rs1 insn))
  · rfl
  · exact hcsr .rw (.imm (Rv32.rs1 insn))
  · exact hcsr .rs (.imm (Rv32.rs1 insn))
  · exact hcsr .rc (.imm (Rv32.rs1 insn))

omit hx in
/-- SYSTEM with `funct3 = 0`: the 12-bit immediate alone tells the three cases apart. -/
theorem execSystem_env (h0 : Rv32.funct3 insn = 0#3) :
    commit (execSystem m insn len) =
      isaStep guestPlatform
        (if Rv32.imm12 insn = 0#12 then some .ecall
        else if Rv32.imm12 insn = 1#12 then some .ebreak
        else none) m insn len := by
  have hz : (Rv32.imm12 insn).setWidth 32 = 0x000#32 ↔ Rv32.imm12 insn = 0#12 :=
    setWidth_inj (y := 0#12) (by omega)
  have ho : (Rv32.imm12 insn).setWidth 32 = 0x001#32 ↔ Rv32.imm12 insn = 1#12 :=
    setWidth_inj (y := 1#12) (by omega)
  unfold execSystem
  simp only [funct3Of_eq, imm12_mask, h0, hz, ho]
  rw [if_pos (show (0#3).setWidth 32 = 0x0#32 from rfl)]
  by_cases h : Rv32.imm12 insn = 0#12
  · rw [if_pos h, if_pos h, BitVec.add_sub_cancel]
    rfl
  rw [if_neg h, if_neg h]
  by_cases h' : Rv32.imm12 insn = 1#12
  · rw [if_pos h', if_pos h']
    rfl
  · rw [if_neg h', if_neg h']
    rfl

/-! ## The switch on the opcode -/

theorem executeWord_eq :
    commit (executeWord m insn len) =
      isaStep guestPlatform (liberalDecode insn) m insn len := by
  have hinj : ∀ k : BitVec 7, (Rv32.opcode insn).setWidth 32 = k.setWidth 32 →
      Rv32.opcode insn = k := fun k h => (setWidth_inj (by omega)).mp h
  have hdec : ∀ k : BitVec 7, Rv32.opcode insn = k → k ≠ 0x73#7 ∧ k ≠ 0x0F#7 →
      liberalDecode insn = Rv32.decode insn :=
    fun k h hk => liberalDecode_of_opcode (h ▸ hk.1) (h ▸ hk.2)
  unfold executeWord
  rw [opcodeOf_eq]
  split
  · rename_i h
    have hop := hinj 0x13#7 h
    rw [execOpImm_eq insn len hx, hdec _ hop (by decide), Rv32.decode, hop]
    rfl
  · rename_i h
    have hop := hinj 0x33#7 h
    rw [execOp_eq insn len hx, hdec _ hop (by decide), Rv32.decode, hop]
    rfl
  · rename_i h
    have hop := hinj 0x37#7 h
    rw [hdec _ hop (by decide), Rv32.decode, hop, regOf_rd, immU_eq]
    exact commit_retireTo insn len hx _ _ _
  · rename_i h
    have hop := hinj 0x17#7 h
    rw [hdec _ hop (by decide), Rv32.decode, hop, regOf_rd, immU_eq]
    exact commit_retireTo insn len hx _ _ _
  · rename_i h
    have hop := hinj 0x03#7 h
    rw [execLoad_eq insn len hx, hdec _ hop (by decide), Rv32.decode, hop]
    rfl
  · rename_i h
    have hop := hinj 0x23#7 h
    rw [execStore_eq insn len hx, hdec _ hop (by decide), Rv32.decode, hop]
    rfl
  · rename_i h
    have hop := hinj 0x63#7 h
    rw [execBranch_eq insn len hx, hdec _ hop (by decide), Rv32.decode, hop]
    rfl
  · rename_i h
    have hop := hinj 0x6F#7 h
    rw [hdec _ hop (by decide), Rv32.decode, hop, regOf_rd, immJ_eq]
    exact commit_retireTo insn len hx _ _ _
  · rename_i h
    have hop := hinj 0x67#7 h
    rw [execJalr_eq insn len hx, hdec _ hop (by decide), Rv32.decode, hop]
    rfl
  · rename_i h
    have hop := hinj 0x0F#7 h
    have hne : ∀ k : BitVec 3, funct3Of insn ≠ k.setWidth 32 ↔ Rv32.funct3 insn ≠ k :=
      fun k => by rw [funct3Of_eq, ne_eq, setWidth_inj (by omega)]
    rw [liberalDecode_fence hop]
    have h0 := hne 0#3
    have h1 := hne 1#3
    by_cases hc : Rv32.funct3 insn ≠ 0#3 ∧ Rv32.funct3 insn ≠ 1#3
    · rw [if_pos hc, if_pos ⟨h0.mpr hc.1, h1.mpr hc.2⟩]
      rfl
    · rw [if_neg hc, if_neg (fun hc' => hc ⟨h0.mp hc'.1, h1.mp hc'.2⟩)]
      exact commit_jumpTo insn len hx _ _
  · rename_i h
    have hop := hinj 0x73#7 h
    by_cases hf : Rv32.funct3 insn = 0#3
    · rw [execSystem_env insn len hf, liberalDecode_env hop hf]
    · rw [execSystem_csr insn len hx hf, liberalDecode_csr hop hf]
  · rename_i h1 h2 h3 h4 h5 h6 h7 h8 h9 h10 h11
    have hne : ∀ k : BitVec 7, ¬ (Rv32.opcode insn).setWidth 32 = k.setWidth 32 →
        Rv32.opcode insn ≠ k := fun k h e => h (by rw [e])
    rw [liberalDecode_of_opcode (hne 0x73#7 h11) (hne 0x0F#7 h10)]
    have hnone : Rv32.decode insn = none := by
      unfold Rv32.decode
      split
      · rename_i h; exact absurd h (hne 0x37#7 h3)
      · rename_i h; exact absurd h (hne 0x17#7 h4)
      · rename_i h; exact absurd h (hne 0x6F#7 h8)
      · rename_i h; exact absurd h (hne 0x67#7 h9)
      · rename_i h; exact absurd h (hne 0x63#7 h7)
      · rename_i h; exact absurd h (hne 0x03#7 h5)
      · rename_i h; exact absurd h (hne 0x23#7 h6)
      · rename_i h; exact absurd h (hne 0x13#7 h1)
      · rename_i h; exact absurd h (hne 0x33#7 h2)
      · rename_i h; exact absurd h (hne 0x0F#7 h10)
      · rename_i h; exact absurd h (hne 0x73#7 h11)
      · rfl
    rw [hnone]
    rfl

end Commit

/-! ## One step at a word or a parcel -/

/-- The word `w`, with its low bits `11`, is what memory holds at `pc`. -/
structure WordAt (m : Machine) (w : Word) : Prop where
  even : m.cpu.pc.toNat % 2 = 0
  mappedLo : Mapped m.cpu m.cpu.pc 2
  mappedHi : Mapped m.cpu (m.cpu.pc + 2) 2
  bytes : m.mem.load16 (hostAddr m.cpu (m.cpu.pc + 2)) ++ m.mem.load16 (hostAddr m.cpu m.cpu.pc) = w
  long : (m.mem.load16 (hostAddr m.cpu m.cpu.pc)).extractLsb' 0 2 = 3#2

/-- The 16-bit parcel `c`, with low bits other than `11`, is what memory holds at `pc`. -/
structure ParcelAt (m : Machine) (c : BitVec 16) : Prop where
  even : m.cpu.pc.toNat % 2 = 0
  mapped : Mapped m.cpu m.cpu.pc 2
  bytes : m.mem.load16 (hostAddr m.cpu m.cpu.pc) = c
  short : c.extractLsb' 0 2 ≠ 3#2

theorem odd_iff (a : Word) : a &&& 1#32 ≠ 0#32 ↔ a.toNat % 2 ≠ 0 := misaligned_iff .half a

theorem fetch_xlat {cpu : VmCpu} {a : Word} (h : Mapped cpu a 2) :
    xlatRead cpu a 2 .instrFetchFault = .ok (hostAddr cpu a) := by
  rw [xlatRead_eq _ _ _ _ (by decide)]
  exact if_pos h

theorem fetch_word {m : Machine} {w : Word} (h : WordAt m w) :
    fetchInstruction m = .ok (w, 4) := by
  have hodd : ¬ (m.cpu.pc &&& 1#32 ≠ 0#32) := by
    rw [odd_iff, h.even]
    simp
  unfold fetchInstruction
  rw [if_neg hodd]
  simp only [fetch_xlat h.mappedLo, fetch_xlat h.mappedHi, bind, Except.bind]
  rw [if_pos ((long_iff _).mpr h.long), join_halves, h.bytes]
  rfl

theorem fetch_parcel {m : Machine} {c : BitVec 16} (h : ParcelAt m c) :
    fetchInstruction m = .ok (c.setWidth 32, 2) := by
  have hodd : ¬ (m.cpu.pc &&& 1#32 ≠ 0#32) := by
    rw [odd_iff, h.even]
    simp
  unfold fetchInstruction
  rw [if_neg hodd]
  simp only [fetch_xlat h.mapped, bind, Except.bind, h.bytes]
  rw [if_neg (fun hc => h.short ((long_iff c).mp hc))]
  rfl

theorem stepOnce_word {m : Machine} {w : Word} (hx : m.cpu.regs 0 = 0) (h : WordAt m w) :
    stepOnce m = isaStep guestPlatform (liberalDecode w) m w 4 := by
  rw [stepOnce_of_fetch (fetch_word h)]
  exact executeWord_eq w 4 hx

/-! ## Where the manual is followed to the letter -/

/-- A control-register access the manual makes illegal. -/
def csrRefused (cpu : VmCpu) : Rv32.Instr → Bool
  | .csr op _ src num => (counter cpu num).isNone || Rv32.csrWrites op src
  | _ => false

/-- The words on which the VM is more liberal than the manual: ECALL or EBREAK with a nonzero
`rd` or `rs1`, FENCE.I, and refused control-register accesses. -/
def Liberal (cpu : VmCpu) (w : Word) : Prop :=
  (Rv32.opcode w = 0x73#7 ∧ Rv32.funct3 w = 0#3 ∧
      (Rv32.imm12 w = 0#12 ∨ Rv32.imm12 w = 1#12) ∧ (Rv32.rd w ≠ 0 ∨ Rv32.rs1 w ≠ 0)) ∨
    (Rv32.opcode w = 0x0F#7 ∧ Rv32.funct3 w = 1#3) ∨
    (Rv32.decode w).any (csrRefused cpu) = true

theorem exec_platforms {cpu : VmCpu} {i : Rv32.Instr} (hi : csrRefused cpu i = false) (len : Word)
    (h : Rv32.Hart) (mem : Mem) :
    Rv32.exec (guestPlatform cpu) len h mem i = Rv32.exec (isaPlatform cpu) len h mem i := by
  cases i with
  | csr op rd src num =>
    simp only [csrRefused, Bool.or_eq_false_iff] at hi
    cases hc : counter cpu num with
    | none => simp [hc] at hi
    | some v =>
      simp only [Rv32.exec, Rv32.execCsr, guestPlatform, isaPlatform, hc, hi.2]
      rfl
  | _ => rfl

theorem isaStep_platforms {m : Machine} {i : Option Rv32.Instr}
    (hi : i.any (csrRefused m.cpu) = false) (insn len : Word) :
    isaStep guestPlatform i m insn len = isaStep isaPlatform i m insn len := by
  cases i with
  | none => rfl
  | some i => simp only [isaStep, exec_platforms hi]

theorem system_word {w : Word} (hop : Rv32.opcode w = 0x73#7) (hf : Rv32.funct3 w = 0#3)
    (hrd : Rv32.rd w = 0#5) (hrs : Rv32.rs1 w = 0#5) :
    w.toNat = (Rv32.imm12 w).toNat * 0x100000 + 0x73 := by
  have hop := congrArg BitVec.toNat hop
  have hf := congrArg BitVec.toNat hf
  have hrd := congrArg BitVec.toNat hrd
  have hrs := congrArg BitVec.toNat hrs
  have hw := w.isLt
  simp only [Rv32.opcode, Rv32.funct3, Rv32.rd, Rv32.rs1, Rv32.imm12, BitVec.extractLsb'_toNat,
    Nat.shiftRight_eq_div_pow, BitVec.toNat_ofNat] at *
  omega

theorem liberalDecode_strict {cpu : VmCpu} {w : Word} (h : ¬ Liberal cpu w) :
    liberalDecode w = Rv32.decode w := by
  obtain ⟨hs, hf, -⟩ : _ ∧ _ ∧ _ := by simpa only [Liberal, not_or] using h
  have hregs : Rv32.opcode w = 0x73#7 → Rv32.funct3 w = 0#3 →
      (Rv32.imm12 w = 0#12 ∨ Rv32.imm12 w = 1#12) →
      w.toNat = (Rv32.imm12 w).toNat * 0x100000 + 0x73 := by
    intro h1 h2 h3
    have hr : ¬ (Rv32.rd w ≠ 0 ∨ Rv32.rs1 w ≠ 0) := fun hc => hs ⟨h1, h2, h3, hc⟩
    obtain ⟨hrd, hrs⟩ := not_or.mp hr
    exact system_word h1 h2 (not_not.mp hrd) (not_not.mp hrs)
  unfold liberalDecode
  split
  · rename_i hc
    have hw := hregs hc.1 hc.2.1 (.inl hc.2.2)
    rw [hc.2.2] at hw
    rw [show w = 0x73#32 from BitVec.eq_of_toNat_eq hw]
    rfl
  split
  · rename_i hc
    have hw := hregs hc.1 hc.2.1 (.inr hc.2.2)
    rw [hc.2.2] at hw
    rw [show w = 0x00100073#32 from BitVec.eq_of_toNat_eq hw]
    rfl
  · rfl

/-! ## `x0` stays zero -/

theorem deliver_x0 {m : Machine} (hx : m.cpu.regs 0 = 0) {insn len : Word}
    {o : Rv32.Outcome Mem Fault} (ho : ∀ h s, o = .next h s → h.x 0 = 0) :
    (deliver m insn len o).2.cpu.regs 0 = 0 := by
  cases o with
  | next h s => exact ho h s rfl
  | fault | illegal | ecall | ebreak => exact hx

theorem isaStep_x0 {m : Machine} (hx : m.cpu.regs 0 = 0) (i : Option Rv32.Instr)
    (insn len : Word) : (isaStep guestPlatform i m insn len).2.cpu.regs 0 = 0 := by
  cases i with
  | none => exact hx
  | some i =>
    refine deliver_x0 hx fun h s he => ?_
    rw [Rv32.exec_x0 he]
    exact hx

/-! ## The interpreter step is an instruction of the machine -/

/-- For every word at `pc`, every register file and every memory: one step is one instruction of
the VM's RV32IM, `x0` reads as zero afterwards, and off the announced liberties it is the manual's
instruction, undefined words included. -/
theorem stepOnce_refines_isa {m : Machine} {w : Word} (hx : m.cpu.regs 0 = 0) (h : WordAt m w) :
    stepOnce m = isaStep guestPlatform (liberalDecode w) m w 4 ∧
      (stepOnce m).2.cpu.regs 0 = 0 ∧
      (¬ Liberal m.cpu w → stepOnce m = isaStep isaPlatform (Rv32.decode w) m w 4) := by
  have hstep := stepOnce_word hx h
  refine ⟨hstep, ?_, fun hl => ?_⟩
  · rw [hstep]
    exact isaStep_x0 hx _ _ _
  · have hcsr : (Rv32.decode w).any (csrRefused m.cpu) = false := by
      simpa using fun hc => hl (.inr (.inr hc))
    rw [hstep, liberalDecode_strict hl, isaStep_platforms hcsr]

/-- A machine with `code` at the start of its code region and 64 bytes of data behind it. -/
def flatMachine (code : List Byte) : Machine where
  cpu := { vmInit 0 with
    regions := fun r => if r = regionCode then ⟨0, 64, false⟩
      else if r = regionData then ⟨64, 64, true⟩ else .absent }
  mem := fun a => code.getD a 0

/-- `mulh x5, x6, x7`. -/
theorem stepOnce_refines_isa_mulh :
    stepOnce (flatMachine [0xB3, 0x12, 0x73, 0x02]) =
      isaStep guestPlatform (liberalDecode 0x027312B3)
        (flatMachine [0xB3, 0x12, 0x73, 0x02]) 0x027312B3 4 :=
  (stepOnce_refines_isa rfl ⟨by decide, by decide, by decide, by decide, by decide⟩).1

/-- `ecall` with `rd = 1` is not an instruction of the manual, and the VM performs the call. -/
theorem stepOnce_liberal_ecall :
    ¬ ∀ m w, m.cpu.regs 0 = 0 → WordAt m w →
      stepOnce m = isaStep isaPlatform (Rv32.decode w) m w 4 := by
  intro h
  have h := h (flatMachine [0xF3, 0, 0, 0]) 0x000000F3 rfl
    ⟨by decide, by decide, by decide, by decide, by decide⟩
  have hc := congrArg (·.2.cpu.trapCause) h
  exact absurd hc (by decide)

end Microgarbage.Vm
