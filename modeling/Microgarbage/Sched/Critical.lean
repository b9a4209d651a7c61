import Microgarbage.Sched.Step

/-!
# Critical sections

What an observer sees of a run is which CPU `vm_step` was called on, and who entered and left a
critical section. `run_exclusive` is the promise of the section, for the runs that keep out of the
ways in which the scheduler rotates away from a VM inside one.
-/

namespace Microgarbage.Sched

open Lib Vm

variable {σ : Type}

inductive Observation where
  | executes (p : Ptr)
  | enters (p : Ptr)
  | leaves (p : Ptr)
  deriving DecidableEq

/-- The observations of one iteration: a successful `SYS_CRITICAL_ENTER`; a `SYS_CRITICAL_EXIT`,
or a halt for whatever reason. -/
def observeTurn (env : Env σ) (t : Turn) (w : World σ) : List Observation :=
  let before := w.cpus t.cpu
  let after := (turnIteration env t w).1.cpus t.cpu
  let ecall := ecallOf env.tick t w
  .executes t.cpu ::
    (if ecall = some sysCriticalEnter ∧ !before.inCritical ∧ after.inCritical then [.enters t.cpu]
      else []) ++
    (if ecall = some sysCriticalExit ∨ after.halted then [.leaves t.cpu] else [])

def observe (s : Sys σ) : Event σ → List Observation
  | .iterate env =>
    match s.turn with
    | some t => observeTurn env t s.world
    | none => []
  | _ => []

/-! ## The monitor -/

/-- Who is inside a critical section; what anybody else does there is refused. -/
def monitor (owner : Option Ptr) : Observation → Option (Option Ptr)
  | .executes p => if owner = none ∨ owner = some p then some owner else none
  | .enters p => if owner = none ∨ owner = some p then some (some p) else none
  | .leaves p => some (if owner = some p then none else owner)

theorem monitor_stays {v : Ptr} {b : List Observation} {q : Option Ptr}
    (hrun : run monitor (some v) b = some q) (hb : .leaves v ∉ b) : q = some v := by
  induction b with
  | nil => exact (Option.some.inj hrun).symm
  | cons o b ih =>
    have hb' : .leaves v ∉ b := fun h => hb (List.mem_cons_of_mem _ h)
    rw [run_cons, Option.bind_eq_some_iff] at hrun
    obtain ⟨q₁, h₁, hrest⟩ := hrun
    have hq₁ : q₁ = some v := by
      cases o with
      | executes p =>
        simp only [monitor, Option.ite_none_right_eq_some] at h₁
        exact (Option.some.inj h₁.2).symm
      | enters p =>
        simp only [monitor, Option.ite_none_right_eq_some] at h₁
        rcases h₁.1 with h | h
        · cases h
        · exact (Option.some.inj h₁.2).symm.trans h.symm
      | leaves p =>
        have hne : some v ≠ some p := fun e => hb (Option.some.inj e ▸ List.mem_cons_self ..)
        exact (Option.some.inj h₁).symm.trans (if_neg hne)
    exact ih (hq₁ ▸ hrest) hb'

theorem monitor_exclusive {q q' : Option Ptr} {a b c : List Observation} {v u : Ptr}
    (hrun : run monitor q (a ++ .enters v :: (b ++ .executes u :: c)) = some q')
    (hb : .leaves v ∉ b) : u = v := by
  rw [run_append, Option.bind_eq_some_iff] at hrun
  obtain ⟨q₁, -, hrun⟩ := hrun
  rw [run_cons, Option.bind_eq_some_iff] at hrun
  obtain ⟨q₂, henter, hrun⟩ := hrun
  rw [run_append, Option.bind_eq_some_iff] at hrun
  obtain ⟨q₃, hrest, hrun⟩ := hrun
  rw [run_cons, Option.bind_eq_some_iff] at hrun
  obtain ⟨q₄, hexec, -⟩ := hrun
  simp only [monitor, Option.ite_none_right_eq_some] at henter hexec
  cases henter.2
  rw [monitor_stays hrest hb] at hexec
  rcases hexec.1 with h | h
  · cases h
  · exact (Option.some.inj h).symm

/-! ## Keeping the section -/

/-- The ways in which a turn ends inside a critical section, excluded one by one: an ecall handler
blocks the VM, the ecall was the last instruction of the budget, a trap handler resumes the VM or
finds its slot taken away. Only `SYS_CRITICAL_EXIT` clears the flag of a VM that runs on. -/
def Env.KeepsSection (env : Env σ) (t : Turn) (w : World σ) : Prop :=
  let w₁ := ranWorld env.tick t w
  let cpu := w₁.cpus t.cpu
  match (vmStep ⟨w.cpus t.cpu, w.mem⟩ t.budget).1 with
  | .ecall =>
    let after := (perform w₁ (serveEcall env t.cpu w₁)).cpus t.cpu
    after.halted = false →
      (cpu.inCritical = true → cpu.regs regA7 ≠ sysCriticalExit → after.inCritical = true) ∧
      (after.inCritical = true → after.blockReason = .none ∧
        (vmStep ⟨w.cpus t.cpu, w.mem⟩ t.budget).2.1 < t.budget)
  | .trapped =>
    cpu.inCritical = true →
      w₁.sched.vms t.vmId = some t.cpu ∧ (env.trapHandler t.cpu w₁).2 ≠ .resume
  | _ => True

theorem ranWorld_inCritical (tick : Option Word) (t : Turn) (w : World σ) :
    ((ranWorld tick t w).cpus t.cpu).inCritical = (w.cpus t.cpu).inCritical := by
  obtain ⟨hsame, -⟩ := vmStep_spec (m := ⟨w.cpus t.cpu, w.mem⟩) (b := t.budget) rfl
  show (Function.update w.cpus t.cpu _ t.cpu).inCritical = _
  rw [Function.update_self]
  exact hsame.inCritical

theorem ranWorld_halted (tick : Option Word) (t : Turn) (w : World σ) :
    ((ranWorld tick t w).cpus t.cpu).halted = (w.cpus t.cpu).halted := by
  obtain ⟨hsame, -⟩ := vmStep_spec (m := ⟨w.cpus t.cpu, w.mem⟩) (b := t.budget) rfl
  show (Function.update w.cpus t.cpu _ t.cpu).halted = _
  rw [Function.update_self]
  exact hsame.halted

theorem handleTrap_halted {env : Env σ} {w : World σ} {vmId : Slot} {p : Ptr}
    (hp : w.sched.vms vmId = some p) (hact : (env.trapHandler p w).2 ≠ .resume) :
    ((handleTrap env w vmId).cpus p).halted = true := by
  unfold handleTrap
  rw [hp]
  dsimp only
  cases ha : (env.trapHandler p w).2 with
  | resume => exact absurd ha hact
  | terminate => simp [terminate]
  | logAndTerminate => simp [terminate]

/-- A VM that entered a section in this iteration or was in one before it, and has neither left
nor halted, goes on with its turn, still inside. -/
theorem turn_keeps {env : Env σ} {t : Turn} {w w' : World σ} {next : Option Turn}
    (hok : env.KeepsSection t w) (hturn : turnIteration env t w = (w', next))
    (hin : (ecallOf env.tick t w = some sysCriticalEnter ∧ (w'.cpus t.cpu).inCritical = true) ∨
      (w.cpus t.cpu).inCritical = true)
    (hexit : ecallOf env.tick t w ≠ some sysCriticalExit)
    (hlive : (w'.cpus t.cpu).halted = false) :
    (w'.cpus t.cpu).inCritical = true ∧ ∃ t', next = some t' ∧ t'.cpu = t.cpu := by
  obtain ⟨-, hhalted, -⟩ := vmStep_spec (m := ⟨w.cpus t.cpu, w.mem⟩) (b := t.budget) rfl
  have hcrit := ranWorld_inCritical env.tick t w
  have hhalt := ranWorld_halted env.tick t w
  unfold Env.KeepsSection at hok
  unfold ecallOf at hin hexit
  unfold turnIteration at hturn
  dsimp only at hok hturn
  cases hr : (vmStep ⟨w.cpus t.cpu, w.mem⟩ t.budget).1 with
  | quantumExpired =>
    rw [hr] at hin hturn
    have hw : (w.cpus t.cpu).inCritical = true := by simpa using hin
    dsimp only at hturn
    unfold turnExpired at hturn
    rw [if_pos (hcrit.trans hw)] at hturn
    dsimp only at hturn
    split at hturn
    case isTrue =>
      cases hturn
      rw [onSched_cpus, onCpu_self] at hlive
      cases hlive
    case isFalse =>
      cases hturn
      exact ⟨hcrit.trans hw, _, rfl, rfl⟩
  | ecall =>
    rw [hr] at hok hin hexit hturn
    dsimp only at hok hin hexit hturn
    have hcpus := (turnDispatched_frame t (vmStep ⟨w.cpus t.cpu, w.mem⟩ t.budget).2.1
      (perform (ranWorld env.tick t w) (serveEcall env t.cpu (ranWorld env.tick t w)))).cpus
    rw [hturn] at hcpus
    dsimp only at hcpus
    rw [hcpus] at hlive hin ⊢
    obtain ⟨hstay, hcont⟩ := hok hlive
    have hafter : ((perform (ranWorld env.tick t w)
        (serveEcall env t.cpu (ranWorld env.tick t w))).cpus t.cpu).inCritical = true := by
      rcases hin with ⟨-, h⟩ | h
      · exact h
      · exact hstay (hcrit.trans h) fun e => hexit (congrArg some e)
    obtain ⟨hreason, hbudget⟩ := hcont hafter
    unfold turnDispatched at hturn
    rw [if_neg (by rw [hlive]; exact Bool.false_ne_true), if_neg (not_not.mpr hreason),
      if_neg (Nat.not_le.mpr hbudget)] at hturn
    cases hturn
    exact ⟨hafter, _, rfl, rfl⟩
  | halted =>
    rw [hr] at hturn
    cases hturn
    rw [onSched_cpus, hhalt, hhalted.mp hr] at hlive
    cases hlive
  | trapped =>
    rw [hr] at hok hin hturn
    have hw : (w.cpus t.cpu).inCritical = true := by simpa using hin
    obtain ⟨hslot, hact⟩ := hok (hcrit.trans hw)
    cases hturn
    rw [handleTrap_halted hslot hact] at hlive
    cases hlive

/-! ## Runs -/

/-- The owner of the monitor is the CPU of the turn, inside its section. -/
def Follows (s : Sys σ) (q : Option Ptr) : Prop :=
  ∀ v, q = some v → (∃ t, s.turn = some t ∧ t.cpu = v) ∧ (s.world.cpus v).inCritical = true

def Event.KeepsSection (s : Sys σ) : Event σ → Prop
  | .iterate env => ∀ t, s.turn = some t → env.KeepsSection t s.world
  | _ => True

theorem step_followed (s : Sys σ) (q : Option Ptr) (e : Event σ) (s' : Sys σ) (h : Follows s q)
    (hok : Event.KeepsSection s e) (hstep : step s e = some s') :
    ∃ q', run monitor q (observe s e) = some q' ∧ Follows s' q' := by
  obtain ⟨w, turn⟩ := s
  cases turn with
  | none =>
    have hq : q = none := by
      cases q with
      | none => rfl
      | some v =>
        obtain ⟨⟨t, ht, -⟩, -⟩ := h v rfl
        cases ht
    refine ⟨none, ?_, nofun⟩
    rw [hq]
    cases e <;> rfl
  | some t =>
    cases e with
    | iterate env =>
      have hq : q = none ∨ q = some t.cpu := by
        cases q with
        | none => exact .inl rfl
        | some v =>
          obtain ⟨⟨t', ht, hv⟩, -⟩ := h v rfl
          cases ht
          exact .inr (congrArg some hv.symm)
      have hkeep := hok t rfl
      unfold step at hstep
      unfold observe observeTurn
      dsimp only at hstep hkeep ⊢
      cases hturn : turnIteration env t w with
      | mk w' next =>
        -- the world after the event, up to the cursor
        have hs' : s'.world.cpus = w'.cpus ∧ s'.turn = next := by
          rw [hturn] at hstep
          cases next <;> cases hstep <;> exact ⟨rfl, rfl⟩
        have hfollow : ∀ q₁, (q₁ = some t.cpu →
            (ecallOf env.tick t w = some sysCriticalEnter ∧ (w'.cpus t.cpu).inCritical = true) ∨
              (w.cpus t.cpu).inCritical = true) →
            (q₁ = none ∨ q₁ = some t.cpu) →
            ecallOf env.tick t w ≠ some sysCriticalExit → (w'.cpus t.cpu).halted = false →
            Follows s' q₁ := by
          intro q₁ hin hq₁ hexit hlive v hv
          rcases hq₁ with rfl | rfl
          · cases hv
          · cases hv
            obtain ⟨hcrit, t', ht', hcpu⟩ := turn_keeps hkeep hturn (hin rfl) hexit hlive
            rw [hs'.1, hs'.2]
            exact ⟨⟨t', ht', hcpu⟩, hcrit⟩
        dsimp only
        split
        case isTrue henter =>
          split
          case isTrue => exact ⟨none, by simp [monitor, hq], nofun⟩
          case isFalse hleave =>
            rw [not_or] at hleave
            refine ⟨some t.cpu, by simp [monitor, hq], hfollow _ (fun _ => .inl ?_) (.inr rfl)
              hleave.1 (by simpa using hleave.2)⟩
            exact ⟨henter.1, henter.2.2⟩
        case isFalse =>
          split
          case isTrue =>
            refine ⟨none, ?_, nofun⟩
            rcases hq with rfl | rfl <;> simp [monitor]
          case isFalse hleave =>
            rw [not_or] at hleave
            refine ⟨q, by simp [monitor, hq], hfollow _ (fun e => .inr ?_) hq
              hleave.1 (by simpa using hleave.2)⟩
            exact (h t.cpu e).2
    | call c => cases hstep
    | enter tick => cases hstep
    | idle acts tick => cases hstep

/-- In every run whose iterations keep the section, nobody but `v` executes an instruction between
the entry of `v` and its leave. -/
theorem run_exclusive {cfg : VmSchedConfig} {cpus : Ptr → VmCpu} {mem : Mem} {host : σ}
    {es : List (Event σ)} {a b c : List Observation} {v u : Ptr}
    (hok : Meets step Event.KeepsSection (Sys.init cfg cpus mem host) es)
    (htrace : trace step observe (Sys.init cfg cpus mem host) es =
      a ++ .enters v :: (b ++ .executes u :: c))
    (hb : .leaves v ∉ b) : u = v := by
  obtain ⟨q, hq⟩ := trace_accepted (q := none) (R := Follows) step_followed nofun hok
  rw [htrace] at hq
  exact monitor_exclusive hq hb

/-- A CPU about to make the call `num`. -/
def callerCpu (num : Word) : VmCpu := (flatMachine []).cpu.setReg regA7 num

/-- `ecall; addi a7, a7, d; ecall` for a 12-bit `d` with the bytes `d0`, `d1`. -/
def callTwice (d0 d1 : Byte) : Mem := (flatMachine
  [0x73, 0x00, 0x00, 0x00, 0x93, 0x88, d0, d1, 0x73, 0x00, 0x00, 0x00]).mem

/-- The five CPU-only handlers and the default trap handler. -/
def cpuHandlersEnv : Env Unit :=
  ⟨none, vmEcallInstallCpuHandlers .init, fun _ _ => ([], .terminate)⟩

/-- `SYS_CRITICAL_ENTER`, then `SYS_CRITICAL_EXIT`. -/
theorem run_exclusive_enter_exit :
    trace step observe (Sys.init ⟨10, 0⟩ (fun _ => callerCpu sysCriticalEnter)
        (callTwice 0x18 0x00) ())
      [.call (.register (some 0)), .enter none, .iterate cpuHandlersEnv,
        .iterate cpuHandlersEnv] =
      [.executes 0] ++ .enters 0 :: ([] ++ .executes 0 :: [.leaves 0]) ∧ (0 : Ptr) = 0 := by
  have htrace : trace step observe (Sys.init ⟨10, 0⟩ (fun _ => callerCpu sysCriticalEnter)
        (callTwice 0x18 0x00) ())
      [.call (.register (some 0)), .enter none, .iterate cpuHandlersEnv,
        .iterate cpuHandlersEnv] =
      [.executes 0] ++ .enters 0 :: ([] ++ .executes 0 :: [.leaves 0]) := by
    decide
  refine ⟨htrace, run_exclusive ?_ htrace (by decide)⟩
  refine ⟨trivial, fun _ h₁ => ⟨trivial, fun _ h₂ => ⟨fun t ht => ?_, fun _ h₃ =>
    ⟨fun t ht => ?_, fun _ _ => trivial⟩⟩⟩⟩
  · cases h₁
    cases h₂
    cases ht
    exact fun _ => ⟨fun h => absurd h (by decide), fun _ => ⟨rfl, by decide⟩⟩
  · cases h₁
    cases h₂
    cases h₃
    cases ht
    exact fun _ => ⟨fun _ h => absurd rfl h, fun h => absurd h (by decide)⟩

/-- `SYS_CRITICAL_ENTER`, then `SYS_YIELD`: the yield is not refused, and the other VM runs. -/
theorem run_not_exclusive :
    ¬∀ (cfg : VmSchedConfig) (cpus : Ptr → VmCpu) (mem : Mem) (es : List (Event Unit))
      (a b c : List Observation) (v u : Ptr),
      trace step observe (Sys.init cfg cpus mem ()) es =
        a ++ .enters v :: (b ++ .executes u :: c) → .leaves v ∉ b → u = v := by
  intro h
  have htrace : trace step observe
      (Sys.init ⟨10, 0⟩ (fun _ => callerCpu sysCriticalEnter) (callTwice 0xF8 0xFF) ())
      [.call (.register (some 0)), .call (.register (some 1)), .enter none,
        .iterate cpuHandlersEnv, .iterate cpuHandlersEnv, .enter none,
        .iterate cpuHandlersEnv] =
      [.executes 0] ++ .enters 0 :: ([.executes 0] ++ .executes 1 :: [.enters 1]) := by
    decide
  exact absurd (h _ _ _ _ _ _ _ _ _ htrace (by decide)) (by decide)

end Microgarbage.Sched
