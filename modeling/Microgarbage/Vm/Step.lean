import Microgarbage.Vm.Isa

/-!
# What a step may change, and where a quantum may be cut

The step lemma is about two machines with one CPU and memories that agree on the guest's bytes:
both complete an instruction, with the same registers and the same store if any, or both trap the
same way. Taken with one memory twice it is an inversion of a single step. From it follow the
control fields that survive any number of steps, and that running `a` instructions and then `b`
more is running `a + b`.
-/

namespace Microgarbage.Vm

open Lib

/-! ## Pairs of executions -/

/-- The two memories after at most one permitted store, the same on both sides. -/
inductive Stored (cpu : VmCpu) (mem mem' : Mem) : Mem → Mem → Prop where
  | none : Stored cpu mem mem' mem mem'
  | store (width : Rv32.Width) (a v : Word) (mapped : Mapped cpu a width.bytes)
      (writable : (regionAt cpu a).writable = true) :
      Stored cpu mem mem' (mem.store (hostAddr cpu a) width.bytes v)
        (mem'.store (hostAddr cpu a) width.bytes v)

/-- Two executions that complete alike or trap alike. -/
inductive Paired (cpu : VmCpu) (mem mem' : Mem) :
    Except Machine Machine → Except Machine Machine → Prop where
  | completes (regs : Reg → Word) (pc : Word) (s s' : Mem) (stored : Stored cpu mem mem' s s') :
      Paired cpu mem mem' (.ok ⟨{ cpu with regs := regs, pc := pc }, s⟩)
        (.ok ⟨{ cpu with regs := regs, pc := pc }, s'⟩)
  | traps (pc : Word) (cause : VmTrapCause) (trapPc trapAddr trapInsn : Word)
      (cause_ne : cause ≠ .none) (cause_ne' : cause ≠ .halt) :
      Paired cpu mem mem'
        (.error ⟨{ cpu with
          pc := pc, trapCause := cause, trapPc := trapPc, trapAddr := trapAddr
          trapInsn := trapInsn }, mem⟩)
        (.error ⟨{ cpu with
          pc := pc, trapCause := cause, trapPc := trapPc, trapAddr := trapAddr
          trapInsn := trapInsn }, mem'⟩)

section Paired

variable (cpu : VmCpu) (mem mem' : Mem) (insn len : Word)

theorem paired_retireTo (rd : Reg) (v next : Word) :
    Paired cpu mem mem' (.ok (Machine.retireTo ⟨cpu, mem⟩ rd v next))
      (.ok (Machine.retireTo ⟨cpu, mem'⟩ rd v next)) :=
  .completes _ _ _ _ .none

theorem paired_jumpTo (next : Word) :
    Paired cpu mem mem' (.ok (Machine.jumpTo ⟨cpu, mem⟩ next))
      (.ok (Machine.jumpTo ⟨cpu, mem'⟩ next)) :=
  .completes _ _ _ _ .none

theorem paired_illegal :
    Paired cpu mem mem' (.error (Machine.illegal ⟨cpu, mem⟩ insn))
      (.error (Machine.illegal ⟨cpu, mem'⟩ insn)) :=
  .traps _ _ _ _ _ (by decide) (by decide)

theorem paired_fault {cause : VmTrapCause} (h : cause ≠ .none) (h' : cause ≠ .halt) (a : Word) :
    Paired cpu mem mem' (.error ⟨cpu.fault cause a, mem⟩) (.error ⟨cpu.fault cause a, mem'⟩) :=
  .traps _ _ _ _ _ h h'

theorem paired_writeBack (r : Option Word) :
    Paired cpu mem mem' (writeBack ⟨cpu, mem⟩ insn len r) (writeBack ⟨cpu, mem'⟩ insn len r) := by
  cases r with
  | none => exact paired_illegal cpu mem mem' insn
  | some v => exact paired_retireTo cpu mem mem' _ _ _

theorem paired_execOp :
    Paired cpu mem mem' (execOp ⟨cpu, mem⟩ insn len) (execOp ⟨cpu, mem'⟩ insn len) := by
  unfold execOp
  by_cases h : funct7Of insn = 0x01#32
  · rw [if_pos h, if_pos h]
    exact paired_writeBack cpu mem mem' insn len _
  · rw [if_neg h, if_neg h]
    exact paired_writeBack cpu mem mem' insn len _

theorem paired_store (a v : Word) (width : Rv32.Width) :
    Paired cpu mem mem'
      (storeAt ⟨cpu, mem⟩ a (sizeOf width) v >>= fun m => pure (m.jumpTo (cpu.pc + len)))
      (storeAt ⟨cpu, mem'⟩ a (sizeOf width) v >>= fun m => pure (m.jumpTo (cpu.pc + len))) := by
  rw [storeAt_eq, storeAt_eq]
  by_cases h : a.toNat % width.bytes ≠ 0
  · rw [if_pos h, if_pos h]
    exact paired_fault cpu mem mem' (by decide) (by decide) a
  rw [if_neg h, if_neg h]
  by_cases h' : Mapped cpu a width.bytes
  · rw [if_pos h', if_pos h']
    by_cases hw : (regionAt cpu a).writable = true
    · rw [if_pos hw, if_pos hw]
      exact .completes _ _ _ _ (.store width a v h' hw)
    · rw [if_neg hw, if_neg hw]
      exact paired_fault cpu mem mem' (by decide) (by decide) a
  · rw [if_neg h', if_neg h']
    exact paired_fault cpu mem mem' (by decide) (by decide) a

theorem paired_execStore :
    Paired cpu mem mem' (execStore ⟨cpu, mem⟩ insn len) (execStore ⟨cpu, mem'⟩ insn len) := by
  unfold execStore
  rw [funct3Of_eq]
  obtain h | h | h | h | h | h | h | h := funct3_cases (Rv32.funct3 insn) <;> rw [h]
  · exact paired_store cpu mem mem' len _ _ .byte
  · exact paired_store cpu mem mem' len _ _ .half
  · exact paired_store cpu mem mem' len _ _ .word
  all_goals exact paired_illegal cpu mem mem' insn

theorem paired_execBranch :
    Paired cpu mem mem' (execBranch ⟨cpu, mem⟩ insn len) (execBranch ⟨cpu, mem'⟩ insn len) := by
  unfold execBranch
  dsimp only
  split
  · exact paired_illegal cpu mem mem' insn
  · exact paired_jumpTo cpu mem mem' _
  · exact paired_jumpTo cpu mem mem' _

theorem paired_execJalr :
    Paired cpu mem mem' (execJalr ⟨cpu, mem⟩ insn len) (execJalr ⟨cpu, mem'⟩ insn len) := by
  unfold execJalr
  split
  · exact paired_illegal cpu mem mem' insn
  · exact paired_retireTo cpu mem mem' _ _ _

theorem paired_execSystem :
    Paired cpu mem mem' (execSystem ⟨cpu, mem⟩ insn len) (execSystem ⟨cpu, mem'⟩ insn len) := by
  have hdrop : ∀ (b : Bool) (m' : Machine) (c v : Word),
      (if b then m'.withCpu (csrWrite m'.cpu c v) else m') = m' := by
    intro b m' c v
    cases b <;> rfl
  unfold execSystem
  simp only [hdrop]
  split
  · split
    · exact .traps _ _ _ _ _ (by decide) (by decide)
    · split
      · exact .traps _ _ _ _ _ (by decide) (by decide)
      · exact paired_illegal cpu mem mem' insn
  · split
    · exact paired_illegal cpu mem mem' insn
    · exact paired_retireTo cpu mem mem' _ _ _

variable {mem mem'} (hag : Agree cpu mem mem')
include hag

theorem loadBytes_agree {a : Word} {width : Rv32.Width} (h : Mapped cpu a width.bytes) :
    loadBytes mem (hostAddr cpu a) width = loadBytes mem' (hostAddr cpu a) width := by
  have hb : ∀ i < width.bytes, mem (hostAddr cpu a + i) = mem' (hostAddr cpu a + i) :=
    fun i hi => hag _ (mapped_visible h hi)
  cases width with
  | byte => exact congrArg (BitVec.setWidth 32) (hb 0 (by decide))
  | half => exact congrArg (BitVec.setWidth 32) (Mem.load16_congr hb)
  | word => exact Mem.load32_congr hb

/-- A sized load with its write-back, for a `value` that extends the guest's bytes. -/
theorem paired_load (a : Word) (width : Rv32.Width) (signed : Bool) (value : Mem → Nat → Word)
    (hv : ∀ s p, value s p = Rv32.extend width signed (loadBytes s p width)) (rd : Reg) :
    Paired cpu mem mem'
      (loadAt ⟨cpu, mem⟩ a (sizeOf width) (value mem) >>= fun v =>
        pure (Machine.retireTo ⟨cpu, mem⟩ rd v (cpu.pc + len)))
      (loadAt ⟨cpu, mem'⟩ a (sizeOf width) (value mem') >>= fun v =>
        pure (Machine.retireTo ⟨cpu, mem'⟩ rd v (cpu.pc + len))) := by
  rw [loadAt_eq, loadAt_eq]
  by_cases h : a.toNat % width.bytes ≠ 0
  · rw [if_pos h, if_pos h]
    exact paired_fault cpu mem mem' (by decide) (by decide) a
  rw [if_neg h, if_neg h]
  by_cases h' : Mapped cpu a width.bytes
  · rw [if_pos h', if_pos h', hv, hv, loadBytes_agree cpu hag h']
    exact paired_retireTo cpu mem mem' _ _ _
  · rw [if_neg h', if_neg h']
    exact paired_fault cpu mem mem' (by decide) (by decide) a

theorem paired_execLoad :
    Paired cpu mem mem' (execLoad ⟨cpu, mem⟩ insn len) (execLoad ⟨cpu, mem'⟩ insn len) := by
  have hload := fun width signed value hv =>
    paired_load cpu len hag (cpu.regs (regOf (rs1Of insn)) + immI insn) width signed value hv
      (regOf (rdOf insn))
  unfold execLoad
  rw [funct3Of_eq]
  obtain h | h | h | h | h | h | h | h := funct3_cases (Rv32.funct3 insn) <;> rw [h]
  · exact hload .byte true (fun s p => (s p).signExtend 32) fun s p => by
      simp only [Rv32.extend, loadBytes, low_slice (show 8 ≤ 32 by omega), ↓reduceIte]
  · exact hload .half true (fun s p => (s.load16 p).signExtend 32) fun s p => by
      simp only [Rv32.extend, loadBytes, low_slice (show 16 ≤ 32 by omega), ↓reduceIte]
  · exact hload .word true (fun s p => s.load32 p) fun _ _ => rfl
  · exact paired_illegal cpu mem mem' insn
  · exact hload .byte false (fun s p => (s p).setWidth 32) fun _ _ => rfl
  · exact hload .half false (fun s p => (s.load16 p).setWidth 32) fun _ _ => rfl
  · exact paired_illegal cpu mem mem' insn
  · exact paired_illegal cpu mem mem' insn

theorem paired_executeWord :
    Paired cpu mem mem' (executeWord ⟨cpu, mem⟩ insn len) (executeWord ⟨cpu, mem'⟩ insn len) := by
  unfold executeWord
  split
  · exact paired_writeBack cpu mem mem' insn len _
  · exact paired_execOp cpu mem mem' insn len
  · exact paired_retireTo cpu mem mem' _ _ _
  · exact paired_retireTo cpu mem mem' _ _ _
  · exact paired_execLoad cpu insn len hag
  · exact paired_execStore cpu mem mem' insn len
  · exact paired_execBranch cpu mem mem' insn len
  · exact paired_retireTo cpu mem mem' _ _ _
  · exact paired_execJalr cpu mem mem' insn len
  · split
    · exact paired_illegal cpu mem mem' insn
    · exact paired_jumpTo cpu mem mem' _
  · exact paired_execSystem cpu mem mem' insn len
  · exact paired_illegal cpu mem mem' insn

theorem paired_executeOne :
    Paired cpu mem mem' (executeOne ⟨cpu, mem⟩ insn len) (executeOne ⟨cpu, mem'⟩ insn len) := by
  unfold executeOne
  split
  · dsimp only
    split
    · exact paired_illegal cpu mem mem' insn
    · exact paired_executeWord cpu _ len hag
  · exact paired_executeWord cpu insn len hag

theorem fetch_agree : fetchInstruction ⟨cpu, mem⟩ = fetchInstruction ⟨cpu, mem'⟩ := by
  have hpar : ∀ {a : Word} {p : Nat}, xlatRead cpu a 2 .instrFetchFault = .ok p →
      mem.load16 p = mem'.load16 p := by
    intro a p hp
    rw [xlatRead_eq _ _ _ _ (by decide)] at hp
    split at hp
    · rename_i hm
      cases hp
      exact Mem.load16_congr fun i hi => hag _ (mapped_visible hm hi)
    · cases hp
  unfold fetchInstruction
  dsimp only
  split
  · rfl
  · cases hlo : xlatRead cpu cpu.pc 2 .instrFetchFault with
    | error c => rfl
    | ok p =>
      simp only [bind, Except.bind, hpar hlo]
      split
      · cases hhi : xlatRead cpu (cpu.pc + 2) 2 .instrFetchFault with
        | error c => rfl
        | ok q => simp only [hpar hhi]
      · rfl

end Paired

/-! ## One iteration of the loop -/

theorem fetch_error {m : Machine} {cpu : VmCpu} (h : fetchInstruction m = .error cpu) :
    ∃ cause a, cpu = m.cpu.fault cause a ∧ (cause = .instrMisaligned ∨ cause = .instrFetchFault) := by
  have hx : ∀ {a : Word} {c : VmCpu}, xlatRead m.cpu a 2 .instrFetchFault = .error c →
      ∃ cause a, c = m.cpu.fault cause a ∧
        (cause = .instrMisaligned ∨ cause = .instrFetchFault) := by
    intro a c hc
    rw [xlatRead_eq _ _ _ _ (by decide)] at hc
    split at hc
    · cases hc
    · cases hc
      exact ⟨_, _, rfl, .inr rfl⟩
  unfold fetchInstruction at h
  dsimp only at h
  split at h
  · cases h
    exact ⟨_, _, rfl, .inl rfl⟩
  · cases hlo : xlatRead m.cpu m.cpu.pc 2 .instrFetchFault with
    | error c =>
      rw [hlo] at h
      cases h
      exact hx hlo
    | ok p =>
      rw [hlo] at h
      simp only [bind, Except.bind] at h
      split at h
      · cases hhi : xlatRead m.cpu (m.cpu.pc + 2) 2 .instrFetchFault with
        | error c =>
          rw [hhi] at h
          cases h
          exact hx hhi
        | ok p =>
          rw [hhi] at h
          cases h
      · cases h

/-- The outcomes of one iteration on two agreeing memories. -/
inductive PairedStep (cpu : VmCpu) (mem mem' : Mem) : Bool × Machine → Bool × Machine → Prop where
  | retires (regs : Reg → Word) (pc : Word) (s s' : Mem) (stored : Stored cpu mem mem' s s') :
      PairedStep cpu mem mem'
        (true, ⟨{ cpu with
          regs := regs, pc := pc, instructionsRetired := cpu.instructionsRetired + 1 }, s⟩)
        (true, ⟨{ cpu with
          regs := regs, pc := pc, instructionsRetired := cpu.instructionsRetired + 1 }, s'⟩)
  | stops (pc : Word) (cause : VmTrapCause) (trapPc trapAddr trapInsn trapCount : Word)
      (cause_ne : cause ≠ .none) (cause_ne' : cause ≠ .halt) :
      PairedStep cpu mem mem'
        (false, ⟨{ cpu with
          pc := pc, trapCause := cause, trapPc := trapPc, trapAddr := trapAddr
          trapInsn := trapInsn, trapCount := trapCount }, mem⟩)
        (false, ⟨{ cpu with
          pc := pc, trapCause := cause, trapPc := trapPc, trapAddr := trapAddr
          trapInsn := trapInsn, trapCount := trapCount }, mem'⟩)

theorem stepOnce_paired {cpu : VmCpu} {mem mem' : Mem} (hag : Agree cpu mem mem') :
    PairedStep cpu mem mem' (stepOnce ⟨cpu, mem⟩) (stepOnce ⟨cpu, mem'⟩) := by
  unfold stepOnce
  rw [← fetch_agree cpu hag]
  cases hf : fetchInstruction ⟨cpu, mem⟩ with
  | error c =>
    obtain ⟨cause, a, rfl, h⟩ := fetch_error hf
    have hne : cause ≠ .none ∧ cause ≠ .halt := by rcases h with rfl | rfl <;> decide
    exact .stops _ _ _ _ _ _ hne.1 hne.2
  | ok p =>
    obtain ⟨insn, size⟩ := p
    have he := paired_executeOne cpu insn size hag
    dsimp only
    revert he
    generalize executeOne ⟨cpu, mem⟩ insn size = r
    generalize executeOne ⟨cpu, mem'⟩ insn size = r'
    intro he
    cases he with
    | completes regs pc s s' stored => exact .retires _ _ _ _ stored
    | traps pc cause tpc ta ti h h' =>
      dsimp only
      split
      · exact .stops _ _ _ _ _ _ h h'
      · exact .stops _ _ _ _ _ _ h h'

/-- A retired instruction. -/
inductive Retires (m : Machine) : Machine → Prop where
  | mk (regs : Reg → Word) (pc : Word) (s : Mem) (stored : Stored m.cpu m.mem m.mem s s) :
      Retires m ⟨{ m.cpu with
        regs := regs, pc := pc, instructionsRetired := m.cpu.instructionsRetired + 1 }, s⟩

/-- A step that leaves the loop. -/
inductive Stops (m : Machine) : Machine → Prop where
  | mk (pc : Word) (cause : VmTrapCause) (trapPc trapAddr trapInsn trapCount : Word)
      (cause_ne : cause ≠ .none) (cause_ne' : cause ≠ .halt) :
      Stops m (m.withCpu { m.cpu with
        pc := pc, trapCause := cause, trapPc := trapPc, trapAddr := trapAddr
        trapInsn := trapInsn, trapCount := trapCount })

theorem stepOnce_self (m : Machine) : PairedStep m.cpu m.mem m.mem (stepOnce m) (stepOnce m) :=
  stepOnce_paired fun _ _ => rfl

variable {m m' : Machine}

theorem retires_of_stepOnce (h : stepOnce m = (true, m')) : Retires m m' := by
  have hp := stepOnce_self m
  rw [h] at hp
  cases hp
  exact .mk _ _ _ ‹_›

theorem stops_of_stepOnce (h : stepOnce m = (false, m')) : Stops m m' := by
  have hp := stepOnce_self m
  rw [h] at hp
  cases hp
  exact .mk _ _ _ _ _ _ ‹_› ‹_›

/-! ## The loop -/

/-- The trap state `vm_step` starts from. -/
structure TrapClear (m : Machine) : Prop where
  cause : m.cpu.trapCause = .none
  pc : m.cpu.trapPc = 0
  addr : m.cpu.trapAddr = 0
  insn : m.cpu.trapInsn = 0

theorem TrapClear.clear (m : Machine) : TrapClear (clearTrapState m) := ⟨rfl, rfl, rfl, rfl⟩

theorem TrapClear.retires (h : TrapClear m) (hr : Retires m m') : TrapClear m' := by
  obtain ⟨regs, pc, mem, -⟩ := hr
  exact ⟨h.cause, h.pc, h.addr, h.insn⟩

theorem clearTrapState_of_clear {m : Machine} (h : TrapClear m) : clearTrapState m = m := by
  obtain ⟨cpu, mem⟩ := m
  cases cpu
  obtain ⟨rfl, rfl, rfl, rfl⟩ := h
  rfl

theorem stepExit_ne (m : Machine) : (stepExit m).1 ≠ .quantumExpired := by
  unfold stepExit
  split <;> simp

theorem vmStepLoop_shift (b k s : Nat) (m : Machine) :
    vmStepLoop b (k + s) m =
      ((vmStepLoop b s m).1, k + (vmStepLoop b s m).2.1, (vmStepLoop b s m).2.2) := by
  induction b generalizing s m with
  | zero => rfl
  | succ b ih =>
    unfold vmStepLoop
    cases h : stepOnce m with
    | mk ok m' =>
      cases ok with
      | false => rfl
      | true => exact ih (s + 1) m'

/-- A loop that used up its budget has run only retired instructions, and more budget continues
where it stopped. -/
theorem vmStepLoop_add {a s s' : Nat} (h : vmStepLoop a s m = (.quantumExpired, s', m'))
    (hc : TrapClear m) :
    TrapClear m' ∧ m'.cpu.halted = m.cpu.halted ∧
      ∀ b, vmStepLoop (a + b) s m = vmStepLoop b s' m' := by
  induction a generalizing s m with
  | zero =>
    cases h
    refine ⟨hc, rfl, fun b => ?_⟩
    rw [Nat.zero_add]
  | succ a ih =>
    unfold vmStepLoop at h
    cases hs : stepOnce m with
    | mk ok m₁ =>
      rw [hs] at h
      cases ok with
      | false => exact absurd (congrArg Prod.fst h) (stepExit_ne m₁)
      | true =>
        have hr := retires_of_stepOnce hs
        obtain ⟨hc', hh, hrest⟩ := ih h (hc.retires hr)
        refine ⟨hc', ?_, fun b => ?_⟩
        · rw [hh]
          obtain ⟨regs, pc, mem, -⟩ := hr
          rfl
        · rw [Nat.succ_add, ← hrest b]
          conv_lhs => unfold vmStepLoop
          rw [hs]

/-! ## What a run never changes -/

/-- Agreement on everything but registers, `pc`, trap state and counters. -/
structure SameControl (c c' : VmCpu) : Prop where
  regions : c'.regions = c.regions
  l2Shared : c'.l2Shared = c.l2Shared
  halted : c'.halted = c.halted
  inCritical : c'.inCritical = c.inCritical
  blockReason : c'.blockReason = c.blockReason
  blockDeadline : c'.blockDeadline = c.blockDeadline
  blockChildVm : c'.blockChildVm = c.blockChildVm
  reloadPeriod : c'.reloadPeriod = c.reloadPeriod
  reloadNextDeadline : c'.reloadNextDeadline = c.reloadNextDeadline
  vmId : c'.vmId = c.vmId
  internal : c'.internal = c.internal

namespace SameControl

theorem refl (c : VmCpu) : SameControl c c :=
  ⟨rfl, rfl, rfl, rfl, rfl, rfl, rfl, rfl, rfl, rfl, rfl⟩

theorem trans {c c' c'' : VmCpu} (h : SameControl c c') (h' : SameControl c' c'') :
    SameControl c c'' :=
  ⟨h'.regions.trans h.regions, h'.l2Shared.trans h.l2Shared, h'.halted.trans h.halted,
    h'.inCritical.trans h.inCritical, h'.blockReason.trans h.blockReason,
    h'.blockDeadline.trans h.blockDeadline, h'.blockChildVm.trans h.blockChildVm,
    h'.reloadPeriod.trans h.reloadPeriod, h'.reloadNextDeadline.trans h.reloadNextDeadline,
    h'.vmId.trans h.vmId, h'.internal.trans h.internal⟩

theorem retires {m m' : Machine} (h : Retires m m') : SameControl m.cpu m'.cpu := by
  obtain ⟨regs, pc, mem, -⟩ := h
  exact ⟨rfl, rfl, rfl, rfl, rfl, rfl, rfl, rfl, rfl, rfl, rfl⟩

/-- An instruction that stops the loop reports it without halting: no instruction raises the
halt cause. -/
theorem stepExit {m m' : Machine} (h : Stops m m') :
    SameControl m.cpu (stepExit m').2.cpu ∧ (Vm.stepExit m').1 ≠ .halted := by
  obtain ⟨pc, cause, tpc, ta, ti, tc, -, hne⟩ := h
  cases cause with
  | halt => exact absurd rfl hne
  | _ =>
    exact ⟨⟨rfl, rfl, rfl, rfl, rfl, rfl, rfl, rfl, rfl, rfl, rfl⟩,
      by simp [Vm.stepExit, Machine.withCpu]⟩

end SameControl

/-- What every run of the loop guarantees its caller. -/
structure LoopSpec (budget steps : Nat) (m : Machine) (res : VmStepResult × Nat × Machine) :
    Prop where
  same : SameControl m.cpu res.2.2.cpu
  not_halted : res.1 ≠ .halted
  steps_le : res.2.1 ≤ steps + budget
  expired : res.1 = .quantumExpired → res.2.1 = steps + budget

theorem vmStepLoop_spec (b s : Nat) (m : Machine) : LoopSpec b s m (vmStepLoop b s m) := by
  induction b generalizing s m with
  | zero => exact ⟨.refl _, by simp [vmStepLoop], Nat.le_refl _, fun _ => rfl⟩
  | succ b ih =>
    unfold vmStepLoop
    cases hs : stepOnce m with
    | mk ok m' =>
      cases ok with
      | false =>
        obtain ⟨hsame, hne⟩ := SameControl.stepExit (stops_of_stepOnce hs)
        exact ⟨hsame, hne, Nat.le_add_right _ _, fun h => absurd h (stepExit_ne m')⟩
      | true =>
        obtain ⟨h1, h2, h3, h4⟩ := ih (s + 1) m'
        refine ⟨(SameControl.retires (retires_of_stepOnce hs)).trans h1, h2, ?_, fun h => ?_⟩
        · show (vmStepLoop b (s + 1) m').2.1 ≤ s + (b + 1)
          omega
        · have := h4 h
          show (vmStepLoop b (s + 1) m').2.1 = s + (b + 1)
          omega

theorem vmStep_spec {b n : Nat} {r : VmStepResult} (h : vmStep m b = (r, n, m')) :
    SameControl m.cpu m'.cpu ∧ (r = .halted ↔ m.cpu.halted = true) ∧ n ≤ b ∧
      (r = .quantumExpired → n = b) := by
  unfold vmStep at h
  cases hh : m.cpu.halted with
  | true =>
    rw [hh] at h
    cases h
    exact ⟨.refl _, by simp, Nat.zero_le _, by simp⟩
  | false =>
    rw [hh] at h
    obtain ⟨h1, h2, h3, h4⟩ := vmStepLoop_spec b 0 (clearTrapState m)
    simp only [Bool.false_eq_true, ↓reduceIte] at h
    rw [h] at h1 h2 h3 h4
    rw [Nat.zero_add] at h3 h4
    have hclear : SameControl m.cpu (clearTrapState m).cpu :=
      ⟨rfl, rfl, rfl, rfl, rfl, rfl, rfl, rfl, rfl, rfl, rfl⟩
    refine ⟨hclear.trans h1, ?_, h3, h4⟩
    simpa using h2

/-! ## Cutting a quantum -/

/-- Cutting a run where its budget ran out is invisible: registers, `pc`, memory, counters, step
total and result are those of the uncut run. -/
theorem vmStep_add {m m₁ m₂ : Machine} {a b sa sb : Nat} {r : VmStepResult}
    (ha : vmStep m a = (.quantumExpired, sa, m₁)) (hb : vmStep m₁ b = (r, sb, m₂)) :
    vmStep m (a + b) = (r, sa + sb, m₂) := by
  have hh : m.cpu.halted = false := by
    cases h : m.cpu.halted with
    | false => rfl
    | true =>
      unfold vmStep at ha
      rw [h] at ha
      cases ha
  have hloop : ∀ k, vmStep m k = vmStepLoop k 0 (clearTrapState m) := by
    intro k
    unfold vmStep
    rw [hh]
    rfl
  rw [hloop] at ha
  obtain ⟨hc, hh₁, hrest⟩ := vmStepLoop_add ha (TrapClear.clear m)
  have hb' : vmStepLoop b 0 m₁ = (r, sb, m₂) := by
    rw [← hb, vmStep, hh₁, clearTrapState_of_clear hc]
    show _ = if m.cpu.halted = true then _ else _
    rw [hh]
    rfl
  have hshift := vmStepLoop_shift b sa 0 m₁
  rw [hb', Nat.add_zero] at hshift
  rw [hloop, hrest b, hshift]

/-- Two `addi` instructions, cut between them. -/
theorem vmStep_add_addi :
    vmStep (flatMachine [0x13, 0x05, 0x15, 0x00, 0x13, 0x05, 0x15, 0x00]) (1 + 1) =
      (.quantumExpired, 1 + 1,
        (vmStep (vmStep (flatMachine [0x13, 0x05, 0x15, 0x00, 0x13, 0x05, 0x15, 0x00]) 1).2.2
          1).2.2) :=
  vmStep_add rfl rfl

end Microgarbage.Vm
