import Microgarbage.Lib.Transition
import Microgarbage.Sched.Ecall
import Microgarbage.Vm.Step

/-!
# One scheduling decision

`vm_sched_step` wakes expired timeouts, picks a VM and runs it until its turn ends. The loop that
runs the VM is cut at its iterations: `turnIteration` is the loop body, the answer being the turn
that continues or `none` where the source breaks. The machine `step` takes one such piece at a
time, so its states include the ones inside a turn, and a turn that never ends is a run as well.
-/

namespace Microgarbage.Sched

open Lib Vm

variable {σ : Type}

inductive VmTrapAction where
  | terminate
  | resume
  | logAndTerminate
  deriving DecidableEq

inductive VmSchedStepResult where
  | ran
  | idle
  | allHalted
  deriving DecidableEq

/-- What the embedding system answers during one iteration: a sample of its clock when it has one,
the ecall router and the trap handler. -/
structure Env (σ : Type) where
  tick : Option Word
  ecallRouter : Option (VmEcallRouter σ)
  trapHandler : Ptr → World σ → List (Act σ) × VmTrapAction

/-- The local variables of `vm_sched_step` during a turn. -/
structure Turn where
  vmId : Slot
  cpu : Ptr
  budget : Nat
  debtPaid : Word
  deriving DecidableEq

/-! ## Ends of a quantum -/

def applyBlockTransition (w : World σ) (vmId : Slot) : World σ :=
  match w.sched.vms vmId with
  | none => w
  | some p => if (w.cpus p).blockReason = .none then w else w.onSched (·.park vmId)

def clearTrap (cpu : VmCpu) : VmCpu :=
  { cpu with trapCause := .none, trapPc := 0, trapAddr := 0, trapInsn := 0 }

def terminate (w : World σ) (p : Ptr) (vmId : Slot) : World σ :=
  (w.onCpu p ({ · with halted := true })).onSched (·.drop vmId)

def handleTrap (env : Env σ) (w : World σ) (vmId : Slot) : World σ :=
  match w.sched.vms vmId with
  | none => w
  | some p =>
    let (acts, action) := env.trapHandler p w
    let w := perform w acts
    match action with
    | .resume => w.onCpu p clearTrap
    | .logAndTerminate =>
      terminate (w.onSched fun s => { s with trappedVms := s.trappedVms + 1 }) p vmId
    | .terminate => terminate w p vmId

/-- The budget of the next turn and the debt it pays. -/
def effectiveQuantum (s : VmSched) (vmId : Slot) : Word × Word :=
  let baseline := s.config.baselineQuantum
  let cap := baseline / 2
  let debt := s.debt vmId
  let pay := if debt < cap then debt else cap
  (baseline - pay, pay)

def VmSched.payDebt (s : VmSched) (t : Turn) : VmSched :=
  s.setDebt t.vmId (if t.debtPaid ≤ s.debt t.vmId then s.debt t.vmId - t.debtPaid else 0)

/-- Totals and clock after `vm_step` used `used` instructions. -/
def VmSched.account (s : VmSched) (tick : Option Word) (used : Nat) : VmSched :=
  { s with
    totalQuantaRun := s.totalQuantaRun + 1
    totalInstructions := s.totalInstructions + BitVec.ofNat 64 used
    globalTick := match tick with
      | some now => now
      | none => s.globalTick + BitVec.ofNat 32 used }

/-! ## The loop body -/

def turnExpired (t : Turn) (used : Nat) (w : World σ) : World σ × Option Turn :=
  if (w.cpus t.cpu).inCritical then
    let consumed := w.sched.criticalSectionConsumed t.vmId + BitVec.ofNat 32 used
    if w.sched.config.maxCriticalOverrun < consumed then
      -- runaway section; only the ready bit is cleared here
      let w := w.onCpu t.cpu ({ · with halted := true, trapCause := .halt })
      (w.onSched fun s =>
        ({ s with ready := bmClear s.ready t.vmId }.setConsumed t.vmId 0).setDebt t.vmId 0, none)
    else
      (w.onSched fun s =>
        (s.setConsumed t.vmId consumed).setDebt t.vmId (s.debt t.vmId + BitVec.ofNat 32 used),
        some { t with budget := w.sched.config.baselineQuantum.toNat })
  else
    (w.onSched fun s => (s.payDebt t).setConsumed t.vmId 0, none)

/-- The actions that serve an ecall of the CPU `p`. -/
def serveEcall (env : Env σ) (p : Ptr) (w : World σ) : List (Act σ) :=
  match env.ecallRouter with
  | some router => vmEcallDispatch router p w
  | none => defaultFallback p w

/-- After dispatch: halted, blocked, out of budget, or on with the turn. -/
def turnDispatched (t : Turn) (used : Nat) (w : World σ) : World σ × Option Turn :=
  if (w.cpus t.cpu).halted then
    (w.onSched (·.drop t.vmId), none)
  else if (w.cpus t.cpu).blockReason ≠ .none then
    (applyBlockTransition w t.vmId, none)
  else if t.budget ≤ used then
    (w.onSched (·.payDebt t), none)
  else
    (w, some { t with budget := t.budget - used })

/-- Nothing but the bits of slot `id` and the scheduler's counters changed. -/
structure BitsOnly (id : Slot) (w w' : World σ) : Prop where
  cpus : w'.cpus = w.cpus
  mem : w'.mem = w.mem
  host : w'.host = w.host
  vms : w'.sched.vms = w.sched.vms
  blocked : ∀ j, j ≠ id → bmTest w'.sched.blocked j = bmTest w.sched.blocked j

theorem turnDispatched_frame (t : Turn) (used : Nat) (w : World σ) :
    BitsOnly t.vmId w (turnDispatched t used w).1 := by
  unfold turnDispatched applyBlockTransition
  split
  · exact ⟨rfl, rfl, rfl, rfl, fun j hj => by simp [VmSched.drop, hj]⟩
  split
  · dsimp only
    split
    · exact ⟨rfl, rfl, rfl, rfl, fun _ _ => rfl⟩
    · split
      · exact ⟨rfl, rfl, rfl, rfl, fun _ _ => rfl⟩
      · exact ⟨rfl, rfl, rfl, rfl, fun j hj => by simp [VmSched.park, hj]⟩
  · split <;> exact ⟨rfl, rfl, rfl, rfl, fun _ _ => rfl⟩

/-- The world after `vm_step` ran the CPU of the turn. -/
def ranWorld (tick : Option Word) (t : Turn) (w : World σ) : World σ :=
  let (_, used, m) := vmStep ⟨w.cpus t.cpu, w.mem⟩ t.budget
  { w with
    cpus := Function.update w.cpus t.cpu m.cpu
    mem := m.mem
    sched := w.sched.account tick used }

/-- The number of the ecall that ends this iteration's `vm_step`, if one does. -/
def ecallOf (tick : Option Word) (t : Turn) (w : World σ) : Option Word :=
  match (vmStep ⟨w.cpus t.cpu, w.mem⟩ t.budget).1 with
  | .ecall => some (((ranWorld tick t w).cpus t.cpu).regs regA7)
  | _ => none

def turnIteration (env : Env σ) (t : Turn) (w : World σ) : World σ × Option Turn :=
  let (r, used, _) := vmStep ⟨w.cpus t.cpu, w.mem⟩ t.budget
  let w := ranWorld env.tick t w
  match r with
  | .quantumExpired => turnExpired t used w
  | .ecall => turnDispatched t used (perform w (serveEcall env t.cpu w))
  | .halted => (w.onSched (·.drop t.vmId), none)
  | .trapped => (handleTrap env w t.vmId, none)

/-! ## Selection -/

/-- `(vm_id + 1) % VM_SCHED_MAX_VMS`. -/
def nextSlot (vmId : Slot) : Slot := ⟨(vmId.val + 1) % 64, Nat.mod_lt _ (by decide)⟩

def sampleTick (tick : Option Word) (w : World σ) : World σ :=
  match tick with
  | some now => w.onSched ({ · with globalTick := now })
  | none => w

/-- `vm_sched_step` up to its loop: the result when no VM can run, else the turn. A ready slot
without a VM would make `vm_step` answer `HALTED` at once. -/
def selectVm (tick : Option Word) (w : World σ) : World σ × (VmSchedStepResult ⊕ Turn) :=
  let (_, w) := wakeExpiredTimeouts (sampleTick tick w)
  if w.sched.ready = 0#64 then
    (w, .inl (if w.sched.blocked = 0#64 then .allHalted else .idle))
  else
    match findNextReady w.sched.ready w.sched.cursor with
    | none => (w, .inl .idle)
    | some vmId =>
      match w.sched.vms vmId with
      | none =>
        (w.onSched fun s => { (s.account tick 0).drop vmId with cursor := nextSlot vmId }, .inl .ran)
      | some p =>
        let (budget, debtPaid) := effectiveQuantum w.sched vmId
        (w, .inr ⟨vmId, p, budget.toNat, debtPaid⟩)

/-- Advance the cursor past a finished turn. -/
def endTurn (t : Turn) (w : World σ) : World σ := w.onSched ({ · with cursor := nextSlot t.vmId })

/-- The loop of one turn, one environment for each iteration; `none` when they do not reach its
end. -/
def turnLoop : List (Env σ) → Turn → World σ → Option (World σ)
  | [], _, _ => none
  | env :: envs, t, w =>
    match turnIteration env t w with
    | (w, none) => some (endTurn t w)
    | (w, some t) => turnLoop envs t w

def vmSchedStep (tick : Option Word) (envs : List (Env σ)) (w : World σ) :
    Option (VmSchedStepResult × World σ) :=
  match selectVm tick w with
  | (w, .inl r) => some (r, w)
  | (w, .inr t) => (turnLoop envs t w).map (VmSchedStepResult.ran, ·)

/-! ## The machine -/

/-- The world, and the turn that is under way. -/
structure Sys (σ : Type) where
  world : World σ
  turn : Option Turn

/-- `idle` is what `vm_sched_run` does between two steps when no VM is ready. -/
inductive Event (σ : Type) where
  | call (c : Call)
  | enter (tick : Option Word)
  | iterate (env : Env σ)
  | idle (acts : List (Act σ)) (tick : Option Word)

/-- The idle branch of `vm_sched_run`: timeouts, the idle handler, the clock. -/
def runIdle (acts : List (Act σ)) (tick : Option Word) (w : World σ) : World σ :=
  let w := perform (wakeExpiredTimeouts w).2 acts
  match tick with
  | some now => w.onSched ({ · with globalTick := now })
  | none => w.onSched fun s => { s with globalTick := s.globalTick + 1 }

def step (s : Sys σ) (e : Event σ) : Option (Sys σ) :=
  match s.turn, e with
  | none, .call c => some ⟨c.apply s.world, none⟩
  | none, .enter tick =>
    match selectVm tick s.world with
    | (w, .inl _) => some ⟨w, none⟩
    | (w, .inr t) => some ⟨w, some t⟩
  | none, .idle acts tick =>
    if s.world.sched.ready = 0#64 ∧ s.world.sched.blocked ≠ 0#64 then
      some ⟨runIdle acts tick s.world, none⟩
    else
      none
  | some t, .iterate env =>
    match turnIteration env t s.world with
    | (w, none) => some ⟨endTurn t w, none⟩
    | (w, some t) => some ⟨w, some t⟩
  | _, _ => none

/-- The machine before anything is registered. -/
def Sys.init (cfg : VmSchedConfig) (cpus : Ptr → VmCpu) (mem : Mem) (host : σ) : Sys σ :=
  ⟨⟨cpus, mem, vmSchedInit cfg, host⟩, none⟩

end Microgarbage.Sched
