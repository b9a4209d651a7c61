import Microgarbage.Sched.Core

/-!
# The ecall router and the CPU-only handlers

The router looks the number in `a7` up in two tables of 256 handlers. The handlers here write only
the calling VM's own CPU, some of them from the scheduler's clock.
-/

namespace Microgarbage.Sched

open Vm

variable {σ : Type}

/-- A handler is called with the CPU that made the call. -/
abbrev Handler (σ : Type) := Ptr → World σ → List (Act σ)

structure VmEcallRouter (σ : Type) where
  linuxSlots : Fin 256 → Option (Handler σ)
  vmSlots : Fin 256 → Option (Handler σ)
  fallback : Option (Handler σ)

/-- A handler that rewrites its own CPU, given the current tick. -/
def cpuHandler (f : Word → VmCpu → VmCpu) : Handler σ :=
  fun p w => [.cpu p (f w.sched.globalTick)]

/-- A handler's integer result. -/
def ret (v : Word) (cpu : VmCpu) : VmCpu := cpu.setReg regA0 v

@[simp] theorem ret_a0 (v : Word) (cpu : VmCpu) : (ret v cpu).regs regA0 = v := by
  simp [ret, VmCpu.setReg]

def defaultFallback : Handler σ := cpuHandler fun _ => ret (errno vmEnosys)

namespace VmEcallRouter

def init : VmEcallRouter σ := ⟨fun _ => none, fun _ => none, some defaultFallback⟩

/-- The content of the table slot of a number, `none` also when it has no slot. -/
def slotFor (r : VmEcallRouter σ) (num : Word) : Option (Handler σ) :=
  if h : num.toNat < 256 then
    r.linuxSlots ⟨num.toNat, h⟩
  else if h : 1024 ≤ num.toNat ∧ num.toNat < 1280 then
    r.vmSlots ⟨num.toNat - 1024, by omega⟩
  else
    none

/-- `vm_ecall_register`: `none` for a number without a slot or with an occupied one. -/
def register (r : VmEcallRouter σ) (num : Word) (handler : Handler σ) :
    Option (VmEcallRouter σ) :=
  if r.slotFor num |>.isSome then
    none
  else if h : num.toNat < 256 then
    some { r with linuxSlots := Function.update r.linuxSlots ⟨num.toNat, h⟩ (some handler) }
  else if h : 1024 ≤ num.toNat ∧ num.toNat < 1280 then
    some { r with
      vmSlots := Function.update r.vmSlots ⟨num.toNat - 1024, by omega⟩ (some handler) }
  else
    none

theorem slotFor_register {r r' : VmEcallRouter σ} {num : Word} {handler : Handler σ}
    (h : r.register num handler = some r') (n : Word) :
    r'.slotFor n = if n = num then some handler else r.slotFor n := by
  have hne : n ≠ num → n.toNat ≠ num.toNat := fun hn he => hn (BitVec.eq_of_toNat_eq he)
  unfold register at h
  split at h
  · cases h
  split at h
  · next hnum =>
    cases h
    by_cases hn : n = num
    · subst hn
      simp [slotFor, hnum]
    · have := hne hn
      simp only [slotFor, if_neg hn]
      split
      · rw [Function.update_of_ne (by simpa [Fin.ext_iff] using this)]
      · rfl
  · split at h
    · next hnum hrange =>
      cases h
      by_cases hn : n = num
      · subst hn
        simp [slotFor, hnum, hrange]
      · have := hne hn
        simp only [slotFor, if_neg hn]
        split
        · rfl
        · split
          · rw [Function.update_of_ne (by simp only [ne_eq, Fin.mk.injEq]; omega)]
          · rfl
    · cases h

theorem register_fallback {r r' : VmEcallRouter σ} {num : Word} {handler : Handler σ}
    (h : r.register num handler = some r') : r'.fallback = r.fallback := by
  unfold register at h
  split at h
  · cases h
  split at h
  · cases h
    rfl
  · split at h
    · cases h
      rfl
    · cases h

end VmEcallRouter

/-- The actions of the handler that serves the call in `a7`. -/
def vmEcallDispatch (r : VmEcallRouter σ) : Handler σ := fun p w =>
  match r.slotFor ((w.cpus p).regs regA7) with
  | some handler => handler p w
  | none =>
    match r.fallback with
    | some handler => handler p w
    | none => defaultFallback p w

/-! ## CPU-only handlers -/

def sysExit : Word := 93
def sysSelf : Word := 1024
def sysYield : Word := 1040
def sysCriticalEnter : Word := 1041
def sysCriticalExit : Word := 1042

def vmHandleExit : Handler σ := cpuHandler fun _ cpu => { cpu with halted := true }

def vmHandleSelf : Handler σ := cpuHandler fun _ cpu => ret (cpu.vmId.setWidth 32) cpu

/-- Leave the ready set for one round. -/
def yieldCpu (cpu : VmCpu) : VmCpu := { ret 0 cpu with blockReason := .yielded }

def vmHandleYield : Handler σ := cpuHandler fun _ => yieldCpu

def vmHandleCriticalEnter : Handler σ := cpuHandler fun _ cpu =>
  if cpu.inCritical then ret (errno vmEbusy) cpu
  else ret 0 { cpu with inCritical := true }

def vmHandleCriticalExit : Handler σ := cpuHandler fun _ cpu =>
  if !cpu.inCritical then ret (errno vmEinval) cpu
  else ret 0 { cpu with inCritical := false }

def cpuHandlers : List (Word × Handler σ) :=
  [(sysExit, vmHandleExit), (sysSelf, vmHandleSelf), (sysYield, vmHandleYield),
    (sysCriticalEnter, vmHandleCriticalEnter), (sysCriticalExit, vmHandleCriticalExit)]

/-- All five or none. -/
def vmEcallInstallCpuHandlers (r : VmEcallRouter σ) : Option (VmEcallRouter σ) :=
  cpuHandlers.foldlM (fun r (num, handler) => r.register num handler) r

/-! ## Clock handlers -/

def handleTicksNow : Handler σ := cpuHandler ret

def handleSleepTicks : Handler σ := cpuHandler fun now cpu =>
  let n := cpu.regs regA0
  if n = 0 then yieldCpu cpu
  else { cpu with blockReason := .sleep, blockDeadline := now + n }

def handleSleepUntil : Handler σ := cpuHandler fun now cpu =>
  let deadline := cpu.regs regA0
  if tickReached now deadline then yieldCpu cpu
  else { cpu with blockReason := .sleep, blockDeadline := deadline }

def handleSetReloadPeriod : Handler σ := cpuHandler fun now cpu =>
  let p := cpu.regs regA0
  ret 0 { cpu with reloadPeriod := p, reloadNextDeadline := if p = 0 then 0 else now + p }

/-- Step `next` over the periods that have passed, at most `safety` of them. -/
def catchUp (now period : Word) : Nat → Word → Word
  | 0, next => next
  | safety + 1, next => if tickReached now next then catchUp now period safety (next + period)
    else next

def handleYieldUntilReload : Handler σ := cpuHandler fun now cpu =>
  if cpu.reloadPeriod = 0 then yieldCpu cpu
  else
    let next := catchUp now cpu.reloadPeriod 1024 cpu.reloadNextDeadline
    { cpu with
      reloadNextDeadline := next + cpu.reloadPeriod
      blockReason := .sleep
      blockDeadline := next }

end Microgarbage.Sched
