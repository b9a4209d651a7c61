import Microgarbage.Vm.Step

/-!
# Traps are precise

An instruction that does not complete writes the trap state and nothing else, except that an ecall
also moves `pc` past itself. What `vm_step` leaves behind after a trap is therefore the machine after
the last instruction that completed, and the next `vm_step` goes on from there.
-/

namespace Microgarbage.Vm

open Lib

/-! ## One instruction -/

/-- What an instruction of `len` bytes leaves that does not complete. -/
inductive Rejects (m : Machine) (len : Word) : Machine → Prop where
  | faults (cause : VmTrapCause) (addr insn : Word) (cause_ne : cause ≠ .none)
      (cause_ne_halt : cause ≠ .halt) (cause_ne_ecall : cause ≠ .ecall) :
      Rejects m len (m.withCpu { m.cpu with
        trapCause := cause, trapPc := m.cpu.pc, trapAddr := addr, trapInsn := insn })
  | calls :
      Rejects m len (m.withCpu { m.cpu with
        pc := m.cpu.pc + len, trapCause := .ecall, trapPc := m.cpu.pc })

section Instructions

variable {m m' : Machine} {insn len : Word}

theorem rejects_illegal : Rejects m len (m.illegal insn) :=
  .faults _ _ _ (by decide) (by decide) (by decide)

theorem bind_error {α : Type} {x : Except Machine α} {f : α → Machine}
    (h : (x >>= fun v => pure (f v)) = .error m') : x = .error m' := by
  cases x with
  | error e =>
    cases h
    rfl
  | ok v => cases h

theorem rejects_writeBack {r : Option Word} (h : writeBack m insn len r = .error m') :
    Rejects m len m' := by
  cases r with
  | none =>
    cases h
    exact rejects_illegal
  | some v => cases h

theorem rejects_loadAt {addr size : Word} {value : Nat → Word}
    (h : loadAt m addr size value = .error m') : Rejects m len m' := by
  unfold loadAt xlatRead at h
  dsimp only at h
  split at h
  · cases h
    exact .faults _ _ _ (by decide) (by decide) (by decide)
  split at h
  · next hx =>
    split at hx
    · cases hx
      cases h
      exact .faults _ _ _ (by decide) (by decide) (by decide)
    · cases hx
  · cases h

theorem rejects_execLoad (h : execLoad m insn len = .error m') : Rejects m len m' := by
  unfold execLoad at h
  dsimp only at h
  split at h
  all_goals first
    | exact rejects_loadAt (bind_error h)
    | cases h
      exact rejects_illegal

theorem rejects_storeAt {addr size value : Word} (h : storeAt m addr size value = .error m') :
    Rejects m len m' := by
  unfold storeAt xlatWrite at h
  dsimp only at h
  split at h
  · cases h
    exact .faults _ _ _ (by decide) (by decide) (by decide)
  split at h
  · next hx =>
    split at hx
    · cases hx
      cases h
      exact .faults _ _ _ (by decide) (by decide) (by decide)
    · split at hx
      · cases hx
        cases h
        exact .faults _ _ _ (by decide) (by decide) (by decide)
      · cases hx
  · cases h

theorem rejects_execStore (h : execStore m insn len = .error m') : Rejects m len m' := by
  unfold execStore at h
  dsimp only at h
  split at h
  all_goals first
    | exact rejects_storeAt (bind_error h)
    | cases h
      exact rejects_illegal

theorem rejects_execSystem (h : execSystem m insn len = .error m') : Rejects m len m' := by
  unfold execSystem at h
  dsimp only at h
  split at h
  · split at h
    · cases h
      rw [BitVec.add_sub_cancel]
      exact .calls
    · split at h
      · cases h
        exact .faults _ _ _ (by decide) (by decide) (by decide)
      · cases h
        exact rejects_illegal
  · split at h
    · cases h
      exact rejects_illegal
    · cases h

theorem rejects_executeWord (h : executeWord m insn len = .error m') : Rejects m len m' := by
  unfold executeWord at h
  split at h
  · exact rejects_writeBack h
  · unfold execOp at h
    dsimp only at h
    split at h <;> exact rejects_writeBack h
  · cases h
  · cases h
  · exact rejects_execLoad h
  · exact rejects_execStore h
  · unfold execBranch at h
    dsimp only at h
    split at h <;> cases h
    exact rejects_illegal
  · cases h
  · unfold execJalr at h
    split at h <;> cases h
    exact rejects_illegal
  · split at h <;> cases h
    exact rejects_illegal
  · exact rejects_execSystem h
  · cases h
    exact rejects_illegal

theorem rejects_executeOne (h : executeOne m insn len = .error m') : Rejects m len m' := by
  unfold executeOne at h
  split at h
  · dsimp only at h
    split at h
    · cases h
      exact rejects_illegal
    · exact rejects_executeWord h
  · exact rejects_executeWord h

end Instructions

/-! ## One iteration -/

/-- The trap is reported with the faulting instruction untouched. -/
structure Trapped (m m' : Machine) : Prop where
  trapPc : m'.cpu.trapPc = m.cpu.pc
  /-- Where the next `vm_step` starts. -/
  resumes : clearTrapState m' =
    clearTrapState (m.withCpu { m.cpu with trapCount := m.cpu.trapCount + 1 })

/-- The ecall is reported with `pc` behind it. -/
structure Called (m m' : Machine) : Prop where
  trapPc : m'.cpu.trapPc = m.cpu.pc
  resumes : ∃ insn len, fetchInstruction m = .ok (insn, len) ∧ clearTrapState m' =
    clearTrapState (m.withCpu { m.cpu with
      pc := m.cpu.pc + len, ecallCount := m.cpu.ecallCount + 1 })

theorem stepExit_trapped {m : Machine} (hcall : m.cpu.trapCause ≠ .ecall)
    (hhalt : m.cpu.trapCause ≠ .halt) : stepExit m = (.trapped, m) := by
  unfold stepExit
  split
  · next hc => exact absurd hc hcall
  · next hc => exact absurd hc hhalt
  · rfl

theorem stopped {m m' : Machine} (h : stepOnce m = (false, m')) :
    ((stepExit m').1 = .trapped ∧ Trapped m (stepExit m').2) ∨
      ((stepExit m').1 = .ecall ∧ Called m (stepExit m').2) := by
  unfold stepOnce at h
  cases hf : fetchInstruction m with
  | error c =>
    rw [hf] at h
    cases h
    obtain ⟨cause, a, rfl, hc⟩ := fetch_error hf
    have hne : cause ≠ .ecall ∧ cause ≠ .halt := by rcases hc with rfl | rfl <;> decide
    rw [stepExit_trapped hne.1 hne.2]
    exact .inl ⟨rfl, rfl, rfl⟩
  | ok p =>
    obtain ⟨insn, len⟩ := p
    rw [hf] at h
    dsimp only at h
    cases he : executeOne m insn len with
    | ok m₁ =>
      rw [he] at h
      cases h
    | error m₁ =>
      rw [he] at h
      dsimp only at h
      cases rejects_executeOne he with
      | faults cause addr insn hne hhalt hcall =>
        split at h
        · cases h
          rw [stepExit_trapped hcall hhalt]
          exact .inl ⟨rfl, rfl, rfl⟩
        · next hc => exact absurd hcall hc
      | calls =>
        split at h
        · next hc => exact absurd rfl hc
        · cases h
          exact .inr ⟨rfl, rfl, insn, len, hf, rfl⟩

/-! ## The loop -/

/-- `n` instructions complete. -/
inductive Completes : Nat → Machine → Machine → Prop where
  | refl (m : Machine) : Completes 0 m m
  | step {n : Nat} {m m₁ m' : Machine} (first : stepOnce m = (true, m₁))
      (rest : Completes n m₁ m') : Completes (n + 1) m m'

theorem Completes.retired {n : Nat} {m m' : Machine} (h : Completes n m m') :
    m'.cpu.instructionsRetired = m.cpu.instructionsRetired + BitVec.ofNat 64 n := by
  induction h with
  | refl m => exact (BitVec.add_zero _).symm
  | @step n m m₁ m' first rest ih =>
    have hfirst : m₁.cpu.instructionsRetired = m.cpu.instructionsRetired + 1 := by
      obtain ⟨regs, pc, s, -⟩ := retires_of_stepOnce first
      rfl
    rw [ih, hfirst, BitVec.add_assoc, BitVec.add_comm 1, BitVec.ofNat_add]
    rfl

/-- `vm_step` stops at the instruction that `m₁` is about to execute. -/
structure StopsAt (r : VmStepResult) (m₁ m' : Machine) : Prop where
  traps : r = .trapped → Trapped m₁ m'
  calls : r = .ecall → Called m₁ m'

theorem vmStepLoop_stops {b s n : Nat} {m m' : Machine} {r : VmStepResult}
    (h : vmStepLoop b s m = (r, n, m')) (hr : r = .trapped ∨ r = .ecall) :
    ∃ k m₁, n = s + k ∧ k < b ∧ Completes k m m₁ ∧ StopsAt r m₁ m' := by
  induction b generalizing s m with
  | zero =>
    cases h
    rcases hr with hr | hr <;> cases hr
  | succ b ih =>
    unfold vmStepLoop at h
    split at h
    · next m₁ hstop =>
      cases h
      refine ⟨0, m, rfl, Nat.succ_pos b, .refl m, ?_⟩
      rcases stopped hstop with ⟨he, ht⟩ | ⟨he, hc⟩
      · exact ⟨fun _ => ht, fun h => nomatch he.symm.trans h⟩
      · exact ⟨fun h => (nomatch he.symm.trans h), fun _ => hc⟩
    · next m₁ hgo =>
      obtain ⟨k, m₂, hn, hk, hrest, hstop⟩ := ih h
      exact ⟨k + 1, m₂, by omega, Nat.succ_lt_succ hk, .step hgo hrest, hstop⟩

/-- When `vm_step` reports a trap or an ecall after `n` steps, `n` instructions have completed and
nothing else has happened. -/
theorem vmStep_precise {m m' : Machine} {b n : Nat} {r : VmStepResult}
    (h : vmStep m b = (r, n, m')) (hr : r = .trapped ∨ r = .ecall) :
    ∃ m₁, n < b ∧ Completes n (clearTrapState m) m₁ ∧
      m₁.cpu.instructionsRetired = m.cpu.instructionsRetired + BitVec.ofNat 64 n ∧
      StopsAt r m₁ m' := by
  unfold vmStep at h
  split at h
  · cases h
    rcases hr with hr | hr <;> cases hr
  · obtain ⟨k, m₁, hn, hk, hdone, hstop⟩ := vmStepLoop_stops h hr
    rw [Nat.zero_add] at hn
    subst hn
    exact ⟨m₁, hk, hdone, hdone.retired, hstop⟩

/-- A `nop`, and then a word that is not an instruction. -/
theorem vmStep_precise_illegal :
    ∃ m₁, 1 < 5 ∧ Completes 1 (clearTrapState (flatMachine [0x13, 0x00, 0x00, 0x00])) m₁ ∧
      m₁.cpu.instructionsRetired =
        (flatMachine [0x13, 0x00, 0x00, 0x00]).cpu.instructionsRetired + BitVec.ofNat 64 1 ∧
      StopsAt .trapped m₁ (vmStep (flatMachine [0x13, 0x00, 0x00, 0x00]) 5).2.2 :=
  vmStep_precise (m := flatMachine [0x13, 0x00, 0x00, 0x00]) (b := 5) rfl (.inl rfl)

end Microgarbage.Vm
