import Microgarbage.Sched.Critical
import Microgarbage.Sched.Frame

/-!
# Overrunning critical sections

`max_critical_overrun` bounds what one critical section may run past the turn's baseline. The
machine is run together with the account that this speaks of: what is left of the turn's own
budget, and how many instructions each VM's section has run past the budgets of its turns.
-/

namespace Microgarbage.Sched

open Lib Vm BitVec

variable {σ : Type}

/-- The CPU that slot `i` runs: the turn's own while its turn lasts. -/
def Sys.cpuOf (s : Sys σ) (i : Slot) : Option Ptr :=
  match s.turn with
  | some t => if i = t.vmId then some t.cpu else s.world.sched.vms i
  | none => s.world.sched.vms i

/-- The VM of slot `i` is alive and between `SYS_CRITICAL_ENTER` and `SYS_CRITICAL_EXIT`. -/
def Sys.inSection (s : Sys σ) (i : Slot) : Bool :=
  match s.cpuOf i with
  | some p => (s.world.cpus p).inCritical && !(s.world.cpus p).halted
  | none => false

/-- The section of slot `i` goes on from `s` to `s'`. -/
def Continues (s s' : Sys σ) (i : Slot) : Prop :=
  s.inSection i = true ∧ s'.inSection i = true ∧ s'.cpuOf i = s.cpuOf i

instance (s s' : Sys σ) (i : Slot) : Decidable (Continues s s' i) := by
  unfold Continues
  infer_instance

/-- How the turn's next `vm_step` ends. -/
def resultOf (t : Turn) (w : World σ) : VmStepResult := (vmStep ⟨w.cpus t.cpu, w.mem⟩ t.budget).1

/-- The instructions of the turn's next `vm_step`. -/
def usedOf (t : Turn) (w : World σ) : Nat := (vmStep ⟨w.cpus t.cpu, w.mem⟩ t.budget).2.1

/-- The machine and its account. -/
structure Watched (σ : Type) where
  sys : Sys σ
  /-- What is left of the turn's own budget. -/
  left : Nat
  /-- What the section of each slot has run past the budgets of its turns. -/
  past : Slot → Nat

namespace Watched

def init (cfg : VmSchedConfig) (cpus : Ptr → VmCpu) (mem : Mem) (host : σ) : Watched σ :=
  ⟨Sys.init cfg cpus mem host, 0, fun _ => 0⟩

/-- What the turn's next iteration runs past the turn's own budget. -/
def extra (s : Watched σ) (i : Slot) : Nat :=
  match s.sys.turn with
  | some t => if i = t.vmId then usedOf t s.sys.world - s.left else 0
  | none => 0

/-- The section's instructions past the budgets when the turn's next iteration is over. -/
def count (s : Watched σ) (t : Turn) : Nat := s.past t.vmId + (usedOf t s.sys.world - s.left)

def cap (s : Watched σ) : Nat := s.sys.world.sched.config.maxCriticalOverrun.toNat

def baseline (s : Watched σ) : Nat := s.sys.world.sched.config.baselineQuantum.toNat

def consumed (s : Watched σ) (i : Slot) : Nat :=
  (s.sys.world.sched.criticalSectionConsumed i).toNat

def leftAfter (s : Watched σ) (next : Option Turn) : Nat :=
  match s.sys.turn, next with
  | some t, some _ => s.left - usedOf t s.sys.world
  | none, some t => t.budget
  | _, none => 0

/-- The account after a step to `s'`. -/
def next (s : Watched σ) (s' : Sys σ) : Watched σ where
  sys := s'
  left := s.leftAfter s'.turn
  past i := if Continues s.sys s' i then s.past i + s.extra i else 0

end Watched

def watch (s : Watched σ) (e : Event σ) : Option (Watched σ) := (step s.sys e).map s.next

/-- The iteration's quantum expires and leaves the VM halted. -/
def forceHalted (env : Env σ) (t : Turn) (w : World σ) : Prop :=
  resultOf t w = .quantumExpired ∧ ((turnIteration env t w).1.cpus t.cpu).halted = true

/-- The turn's VM is in a section that has run more than `max_critical_overrun` past the budgets
when the iteration is over. -/
def Watched.Overruns (s : Watched σ) (t : Turn) : Prop :=
  s.sys.inSection t.vmId = true ∧ s.cap < s.count t

/-- The VM is force-halted exactly when its section overruns. -/
def HaltsExactly (s : Watched σ) : Event σ → Prop
  | .iterate env =>
    match s.sys.turn with
    | some t => forceHalted env t s.sys.world ↔ s.Overruns t
    | none => True
  | _ => True

instance (s : Watched σ) (e : Event σ) : Decidable (HaltsExactly s e) := by
  unfold HaltsExactly forceHalted Watched.Overruns
  cases e <;> dsimp only <;> try split
  all_goals infer_instance

/-! ## Where the counter is right -/

/-- Inside a section. A quantum that expires with the turn's own budget is counted as well: the
counter is then ahead of the account by no more than what `max_critical_overrun` has beyond whole
quanta. Later quanta do not wrap the counter. Other ways out of `vm_step` are not counted: they
come when the turn's own budget lasts, or before any instruction, or end a section that has not
overrun. -/
def Watched.SectionOk (s : Watched σ) (t : Turn) (s' : Sys σ) : Prop :=
  if resultOf t s.sys.world = .quantumExpired then
    if s.left = 0 then s.consumed t.vmId + t.budget < 2 ^ 32
    else s.consumed t.vmId + t.budget ≤
      s.past t.vmId + (s.cap - s.past t.vmId) % s.baseline
  else s.left = 0 →
    s.count t ≤ s.cap ∧ (Continues s.sys s' t.vmId → usedOf t s.sys.world = 0)

/-- A section begins with the counter of its slot at zero. -/
def BeginsAtZero (s s' : Sys σ) : Prop :=
  ∀ i, s'.inSection i = true → ¬Continues s s' i →
    s'.world.sched.criticalSectionConsumed i = 0

/-- Nobody takes a VM out of its slot and back inside a section. -/
def NotReset (s s' : Sys σ) : Prop :=
  ∀ i, Continues s s' i → s'.world.sched.criticalSectionConsumed i = 0 →
    s.world.sched.criticalSectionConsumed i = 0

/-- The step leaves the counters right. -/
def Counts (s : Watched σ) (e : Event σ) : Prop :=
  match step s.sys e with
  | none => True
  | some s' => BeginsAtZero s.sys s' ∧ NotReset s.sys s' ∧
    match s.sys.turn with
    | some t => s.sys.inSection t.vmId = true → s.SectionOk t s'
    | none => True

instance (s : Watched σ) (e : Event σ) : Decidable (Counts s e) := by
  unfold Counts BeginsAtZero NotReset Watched.SectionOk
  split
  · infer_instance
  · split <;> infer_instance

/-! ## What leaves the counters alone -/

namespace CountersKept

theorem selectVm (tick : Option Word) (w : World σ) :
    CountersKept w.sched (selectVm tick w).1.sched := by
  have hwake : CountersKept w.sched (wakeExpiredTimeouts (sampleTick tick w)).2.sched :=
    (Kept.sampleTick (P := fun _ => False) tick w).toCountersKept.trans
      (Kept.wakeExpired (P := fun _ => False) _).toCountersKept
  unfold Sched.selectVm
  dsimp only
  split
  · exact hwake
  · split
    · exact hwake
    · split
      · exact hwake.trans (of_eq rfl rfl)
      · exact hwake

theorem runIdle (acts : List (Act σ)) (tick : Option Word) (w : World σ) :
    CountersKept w.sched (runIdle acts tick w).sched := by
  have h := (Kept.wakeExpired (P := fun _ => False) w).toCountersKept.trans
    (Kept.perform (wakeExpiredTimeouts w).2 acts).toCountersKept
  unfold Sched.runIdle
  dsimp only
  split <;> exact h.trans (of_eq rfl rfl)

end CountersKept

/-! ## One iteration -/

section Iteration

variable {env : Env σ} {t : Turn} {w : World σ}

theorem usedOf_le (t : Turn) (w : World σ) : usedOf t w ≤ t.budget :=
  (vmStep_spec (m := ⟨w.cpus t.cpu, w.mem⟩) (b := t.budget) rfl).2.2.1

theorem usedOf_expired (h : resultOf t w = .quantumExpired) : usedOf t w = t.budget :=
  (vmStep_spec (m := ⟨w.cpus t.cpu, w.mem⟩) (b := t.budget) rfl).2.2.2 h

theorem ranWorld_live (tick : Option Word) (h : resultOf t w = .quantumExpired) :
    ((ranWorld tick t w).cpus t.cpu).halted = false := by
  have hhalted := (vmStep_spec (m := ⟨w.cpus t.cpu, w.mem⟩) (b := t.budget) rfl).2.1
  rw [ranWorld_halted]
  cases hh : (w.cpus t.cpu).halted with
  | false => rfl
  | true =>
    have hr : resultOf t w = .halted := hhalted.mpr hh
    rw [h] at hr
    cases hr

theorem turnIteration_expired (h : resultOf t w = .quantumExpired) :
    turnIteration env t w = turnExpired t t.budget (ranWorld env.tick t w) := by
  have hused : usedOf t w = t.budget := usedOf_expired h
  unfold turnIteration
  unfold usedOf at hused
  unfold resultOf at h
  dsimp only
  rw [h, hused]

/-- The counter after a quantum that expired inside the section. -/
def counted (t : Turn) (w : World σ) : Word :=
  w.sched.criticalSectionConsumed t.vmId + BitVec.ofNat 32 t.budget

variable {w' : World σ} {next : Option Turn}

theorem expired_forced (h : resultOf t w = .quantumExpired)
    (hcrit : (w.cpus t.cpu).inCritical = true)
    (hcap : w.sched.config.maxCriticalOverrun < counted t w)
    (hturn : turnIteration env t w = (w', next)) :
    next = none ∧ (w'.cpus t.cpu).halted = true ∧ w'.sched.config = w.sched.config ∧
      w'.sched.criticalSectionConsumed =
        Function.update w.sched.criticalSectionConsumed t.vmId 0 := by
  rw [turnIteration_expired h] at hturn
  unfold turnExpired at hturn
  rw [if_pos ((ranWorld_inCritical ..).trans hcrit)] at hturn
  dsimp only at hturn
  split at hturn
  · cases hturn
    refine ⟨rfl, ?_, rfl, rfl⟩
    rw [onSched_cpus, onCpu_self]
  · next hnot => exact absurd hcap hnot

theorem expired_on (h : resultOf t w = .quantumExpired) (hcrit : (w.cpus t.cpu).inCritical = true)
    (hcap : ¬w.sched.config.maxCriticalOverrun < counted t w)
    (hturn : turnIteration env t w = (w', next)) :
    next = some { t with budget := w.sched.config.baselineQuantum.toNat } ∧
      (w'.cpus t.cpu).halted = false ∧ w'.sched.config = w.sched.config ∧
      w'.sched.criticalSectionConsumed =
        Function.update w.sched.criticalSectionConsumed t.vmId (counted t w) := by
  rw [turnIteration_expired h] at hturn
  unfold turnExpired at hturn
  rw [if_pos ((ranWorld_inCritical ..).trans hcrit)] at hturn
  dsimp only at hturn
  split at hturn
  · next hforced => exact absurd hforced hcap
  · cases hturn
    exact ⟨rfl, ranWorld_live env.tick h, rfl, rfl⟩

theorem expired_outside (h : resultOf t w = .quantumExpired)
    (hcrit : (w.cpus t.cpu).inCritical = false) (hturn : turnIteration env t w = (w', next)) :
    next = none ∧ (w'.cpus t.cpu).halted = false ∧ CountersKept w.sched w'.sched := by
  rw [turnIteration_expired h] at hturn
  unfold turnExpired at hturn
  rw [if_neg (by rw [ranWorld_inCritical, hcrit]; exact Bool.false_ne_true)] at hturn
  cases hturn
  exact ⟨rfl, ranWorld_live env.tick h, .of_reset rfl rfl⟩

theorem vmStepLoop_lt (b s : Nat) (m : Machine)
    (h : (vmStepLoop b s m).1 ≠ .quantumExpired) : (vmStepLoop b s m).2.1 < s + b := by
  induction b generalizing s m with
  | zero => exact absurd rfl h
  | succ b ih =>
    unfold vmStepLoop at h ⊢
    split at h
    · exact Nat.lt_add_of_pos_right (Nat.succ_pos b)
    · next m' _ =>
      have hlt := ih (s + 1) m' h
      omega

theorem usedOf_lt (h : resultOf t w = .ecall) : usedOf t w < t.budget := by
  unfold resultOf at h
  unfold usedOf
  unfold vmStep at h ⊢
  split at h
  · cases h
  · next hlive =>
    rw [if_neg hlive]
    have hlt := vmStepLoop_lt t.budget 0 (clearTrapState ⟨w.cpus t.cpu, w.mem⟩)
      (by rw [h]; exact nofun)
    rwa [Nat.zero_add] at hlt

/-- A turn whose quantum did not expire leaves the counters of the VMs that stay, and goes on after an
ecall only. -/
theorem turnIteration_uncounted (h : resultOf t w ≠ .quantumExpired)
    (hturn : turnIteration env t w = (w', next)) :
    Kept (fun i => w.sched.Occupied i ∧
        (∀ a ∈ serveEcall env t.cpu (ranWorld env.tick t w), ¬ a.Evicts i) ∧
          (next = none → ∀ p, ∀ a ∈ (env.trapHandler p (ranWorld env.tick t w)).1, ¬ a.Evicts i))
        w.sched w'.sched ∧
      ∀ t', next = some t' → usedOf t w < t.budget ∧
        t' = { t with budget := t.budget - usedOf t w } ∧ resultOf t w = .ecall := by
  have hran : ∀ P, Kept P w.sched (ranWorld env.tick t w).sched := fun _ => .ranWorld env.tick t w
  unfold turnIteration at hturn
  unfold resultOf at h
  dsimp only at hturn
  cases hr : (vmStep ⟨w.cpus t.cpu, w.mem⟩ t.budget).1 with
  | quantumExpired => exact absurd hr h
  | ecall =>
    have hused := usedOf_lt hr
    have hserved := Kept.perform (ranWorld env.tick t w) (serveEcall env t.cpu (ranWorld env.tick t w))
    rw [hr] at hturn
    dsimp only at hturn
    have hdone := Kept.turnDispatched (P := fun _ => True) (t := t) (Nat.not_le.mpr hused)
      (perform (ranWorld env.tick t w) (serveEcall env t.cpu (ranWorld env.tick t w)))
    unfold usedOf at hdone
    rw [hturn] at hdone
    refine ⟨((hran _).trans hserved fun i hi => ⟨hi.1, hi.2.1⟩).trans hdone fun _ _ => trivial,
      fun t' ht' => ?_⟩
    subst ht'
    unfold turnDispatched at hturn
    split at hturn
    · cases hturn
    split at hturn
    · cases hturn
    split at hturn
    · cases hturn
    · cases hturn
      exact ⟨hused, rfl, hr⟩
  | halted =>
    rw [hr] at hturn
    cases hturn
    exact ⟨.of_same rfl rfl rfl rfl rfl, nofun⟩
  | trapped =>
    rw [hr] at hturn
    cases hturn
    exact ⟨(hran _).trans (.handleTrap env _ t.vmId) fun i hi => ⟨hi.1, hi.2.2 rfl⟩, nofun⟩

end Iteration

/-! ## The counter and the account -/

/-- The counter is ahead of the account by the part of the section in the turn's own budget, which
makes no difference to a section that goes on in whole quanta. -/
structure Watched.Account (s : Watched σ) (i : Slot) (e : Nat) : Prop where
  below : s.past i ≤ s.cap
  ahead : s.consumed i = s.past i + e
  drift : e = 0 ∨ e ≤ (s.cap - s.past i) % s.baseline ∧
    ∀ t, s.sys.turn = some t → t.vmId = i → s.left = 0 → t.budget = s.baseline

structure WatchInv (s : Watched σ) : Prop where
  baseline : 0 < s.baseline
  budget : ∀ t, s.sys.turn = some t → 0 < t.budget ∧ (0 < s.left → s.left = t.budget)
  account : ∀ i, s.sys.inSection i = true → ∃ e, s.Account i e

section Account

variable {s : Watched σ} {s' : Sys σ} {t : Turn} {i : Slot}

theorem inSection_turn {s : Sys σ} (h : s.turn = some t) :
    s.inSection t.vmId =
      ((s.world.cpus t.cpu).inCritical && !(s.world.cpus t.cpu).halted) := by
  unfold Sys.inSection Sys.cpuOf
  rw [h]
  dsimp only
  rw [if_pos rfl]

theorem next_cap (h : s'.world.sched.config = s.sys.world.sched.config) :
    (s.next s').cap = s.cap := by
  unfold Watched.cap Watched.next
  rw [h]

theorem next_baseline (h : s'.world.sched.config = s.sys.world.sched.config) :
    (s.next s').baseline = s.baseline := by
  unfold Watched.baseline Watched.next
  rw [h]

theorem extra_other (hturn : s.sys.turn = some t) (hi : i ≠ t.vmId) : s.extra i = 0 := by
  unfold Watched.extra
  rw [hturn]
  exact if_neg hi

theorem extra_self (hturn : s.sys.turn = some t) :
    s.extra t.vmId = usedOf t s.sys.world - s.left := by
  unfold Watched.extra
  rw [hturn]
  exact if_pos rfl

theorem account_begins (hbegin : BeginsAtZero s.sys s') (hin : s'.inSection i = true)
    (hc : ¬Continues s.sys s' i) : (s.next s').Account i 0 := by
  have hpast : (s.next s').past i = 0 := by
    unfold Watched.next
    exact if_neg hc
  refine ⟨hpast ▸ Nat.zero_le _, ?_, .inl rfl⟩
  rw [hpast]
  exact congrArg BitVec.toNat (hbegin i hin hc)

theorem Watched.Account.stays {e : Nat} (h : s.Account i e) (hc : Continues s.sys s' i)
    (hextra : s.extra i = 0) (hconf : s'.world.sched.config = s.sys.world.sched.config)
    (hkept : s'.world.sched.criticalSectionConsumed i =
      s.sys.world.sched.criticalSectionConsumed i)
    (hbudget : (∀ t, s.sys.turn = some t → t.vmId = i → s.left = 0 → t.budget = s.baseline) →
      ∀ t, s'.turn = some t → t.vmId = i → (s.next s').left = 0 → t.budget = s.baseline) :
    (s.next s').Account i e := by
  have hpast : (s.next s').past i = s.past i := by
    unfold Watched.next
    dsimp only
    rw [if_pos hc, hextra, Nat.add_zero]
  have hcons : (s.next s').consumed i = s.consumed i := congrArg BitVec.toNat hkept
  refine ⟨?_, ?_, ?_⟩
  · rw [hpast, next_cap hconf]
    exact h.below
  · rw [hpast, hcons]
    exact h.ahead
  · rw [hpast, next_cap hconf, next_baseline hconf]
    exact h.drift.imp_right fun ⟨hle, hb⟩ => ⟨hle, hbudget hb⟩

theorem NotReset.kept (h : NotReset s.sys s') (hc : Continues s.sys s' i)
    (hkept : s'.world.sched.criticalSectionConsumed i =
      s.sys.world.sched.criticalSectionConsumed i ∨
        s'.world.sched.criticalSectionConsumed i = 0) :
    s'.world.sched.criticalSectionConsumed i = s.sys.world.sched.criticalSectionConsumed i :=
  hkept.elim id fun h0 => h0.trans (h i hc h0).symm

theorem WatchInv.between (inv : WatchInv s) (hturn : s.sys.turn = none)
    (hkept : CountersKept s.sys.world.sched s'.world.sched) (hbegin : BeginsAtZero s.sys s')
    (hreset : NotReset s.sys s') (hnext : ∀ t, s'.turn = some t → 0 < t.budget) :
    WatchInv (s.next s') := by
  have hleft : ∀ t, s'.turn = some t → (s.next s').left = t.budget := by
    intro t ht
    unfold Watched.next Watched.leftAfter
    rw [hturn, ht]
  refine ⟨?_, fun t ht => ⟨hnext t ht, fun _ => hleft t ht⟩, fun i hin => ?_⟩
  · rw [next_baseline hkept.config]
    exact inv.baseline
  · by_cases hc : Continues s.sys s' i
    · obtain ⟨e, h⟩ := inv.account i hc.1
      have hextra : s.extra i = 0 := by
        unfold Watched.extra
        rw [hturn]
      refine ⟨e, h.stays hc hextra hkept.config (hreset.kept hc (hkept.consumed i))
        fun _ t ht _ h0 => ?_⟩
      have hpos := hnext t ht
      rw [hleft t ht] at h0
      omega
    · exact ⟨0, account_begins hbegin hin hc⟩

/-! ### An iteration of a turn -/

theorem step_iterate {env : Env σ} (hturn : s.sys.turn = some t)
    (hstep : step s.sys (.iterate env) = some s') :
    ∃ w' next, turnIteration env t s.sys.world = (w', next) ∧ s'.turn = next ∧
      s'.world.cpus = w'.cpus ∧ s'.world.sched.config = w'.sched.config ∧
      s'.world.sched.criticalSectionConsumed = w'.sched.criticalSectionConsumed := by
  unfold step at hstep
  rw [hturn] at hstep
  dsimp only at hstep
  cases hit : turnIteration env t s.sys.world with
  | mk w' next =>
    rw [hit] at hstep
    cases next <;> cases hstep <;> exact ⟨_, _, rfl, rfl, rfl, rfl, rfl⟩

theorem WatchInv.iterated (inv : WatchInv s) (hturn : s.sys.turn = some t)
    (hbegin : BeginsAtZero s.sys s') (hreset : NotReset s.sys s')
    (hconf : s'.world.sched.config = s.sys.world.sched.config)
    (hother : ∀ i, i ≠ t.vmId → s'.world.sched.criticalSectionConsumed i =
      s.sys.world.sched.criticalSectionConsumed i ∨ s'.world.sched.criticalSectionConsumed i = 0)
    (hself : Continues s.sys s' t.vmId → (s.left = 0 → usedOf t s.sys.world = 0) ∧
      (s'.world.sched.criticalSectionConsumed t.vmId =
        s.sys.world.sched.criticalSectionConsumed t.vmId ∨
          s'.world.sched.criticalSectionConsumed t.vmId = 0))
    (hnext : ∀ t', s'.turn = some t' → usedOf t s.sys.world < t.budget ∧
      t' = { t with budget := t.budget - usedOf t s.sys.world }) : WatchInv (s.next s') := by
  obtain ⟨hpos, hleft⟩ := inv.budget t hturn
  have hused := usedOf_le t s.sys.world
  have hleft' : ∀ t', s'.turn = some t' →
      (s.next s').left = s.left - usedOf t s.sys.world := by
    intro t' ht'
    unfold Watched.next Watched.leftAfter
    rw [hturn, ht']
  refine ⟨?_, fun t' ht' => ?_, fun i hin => ?_⟩
  · rw [next_baseline hconf]
    exact inv.baseline
  · obtain ⟨hlt, rfl⟩ := hnext t' ht'
    rw [hleft' _ ht']
    dsimp only
    omega
  · by_cases hc : Continues s.sys s' i
    · obtain ⟨e, h⟩ := inv.account i hc.1
      by_cases hi : i = t.vmId
      · subst hi
        obtain ⟨hzero, hkept⟩ := hself hc
        refine ⟨e, h.stays hc ?_ hconf (hreset.kept hc hkept) fun hb t' ht' _ h0 => ?_⟩
        · rw [extra_self hturn]
          omega
        · obtain ⟨hlt, rfl⟩ := hnext t' ht'
          rw [hleft' _ ht'] at h0
          have h0' : s.left = 0 := by omega
          rw [hzero h0']
          exact hb t hturn rfl h0'
      · refine ⟨e, h.stays hc (extra_other hturn hi) hconf (hreset.kept hc (hother i hi))
          fun _ t' ht' he _ => ?_⟩
        obtain ⟨-, rfl⟩ := hnext t' ht'
        exact absurd he.symm hi
    · exact ⟨0, account_begins hbegin hin hc⟩

theorem counted_toNat (inv : WatchInv s) (hin : s.sys.inSection t.vmId = true)
    (hr : resultOf t s.sys.world = .quantumExpired) (hok : s.SectionOk t s') :
    (counted t s.sys.world).toNat = s.consumed t.vmId + t.budget := by
  have hfits : s.consumed t.vmId + t.budget < 2 ^ 32 := by
    obtain ⟨e, h⟩ := inv.account t.vmId hin
    have hbelow := h.below
    unfold Watched.SectionOk at hok
    rw [if_pos hr] at hok
    split at hok
    · exact hok
    · have hcap : s.cap < 2 ^ 32 := BitVec.isLt _
      have hmod := Nat.mod_le (s.cap - s.past t.vmId) s.baseline
      omega
  unfold counted
  unfold Watched.consumed at hfits ⊢
  rw [toNat_add, toNat_ofNat, Nat.add_mod_mod, Nat.mod_eq_of_lt hfits]

/-- What is ahead of a multiple of the quantum stays behind the next one. -/
theorem add_le_iff_of_mod {d b e : Nat} (he : e ≤ d % b) : d < b + e ↔ d < b := by
  have hdiv := Nat.div_add_mod d b
  rcases Nat.eq_zero_or_pos (d / b) with h0 | hpos
  · rw [h0, Nat.mul_zero] at hdiv
    have hmod : b = 0 ∨ d % b < b := (Nat.eq_zero_or_pos b).imp_right (Nat.mod_lt d)
    rcases hmod with rfl | hmod
    · rw [Nat.mod_zero] at he
      omega
    · omega
  · have hle : b * 1 ≤ b * (d / b) := Nat.mul_le_mul_left b hpos
    omega

/-- In a section, a quantum that expires force-halts the VM exactly when the section overruns. -/
theorem WatchInv.forced_iff (inv : WatchInv s) (hturn : s.sys.turn = some t)
    (hr : resultOf t s.sys.world = .quantumExpired) (hin : s.sys.inSection t.vmId = true)
    (hok : s.SectionOk t s') :
    s.sys.world.sched.config.maxCriticalOverrun < counted t s.sys.world ↔ s.cap < s.count t := by
  obtain ⟨e, hbelow, hahead, hdrift⟩ := inv.account t.vmId hin
  rw [lt_def, counted_toNat inv hin hr hok]
  change s.cap < _ ↔ _
  unfold Watched.count
  rw [usedOf_expired hr]
  unfold Watched.SectionOk at hok
  rw [if_pos hr] at hok
  split at hok
  · next h0 =>
    rw [h0, Nat.sub_zero, hahead]
    rcases hdrift with rfl | ⟨hle, hb⟩
    · rfl
    · have hiff := add_le_iff_of_mod hle
      rw [hb t hturn rfl h0]
      omega
  · next h0 =>
    have hleft := (inv.budget t hturn).2 (Nat.pos_of_ne_zero h0)
    have hmod := Nat.mod_le (s.cap - s.past t.vmId) s.baseline
    omega

theorem WatchInv.expired (inv : WatchInv s) (hturn : s.sys.turn = some t)
    (hbegin : BeginsAtZero s.sys s') (hr : resultOf t s.sys.world = .quantumExpired)
    (hsec : s.sys.inSection t.vmId = true) (hok : s.SectionOk t s')
    (hcap : ¬s.sys.world.sched.config.maxCriticalOverrun < counted t s.sys.world)
    (hconf : s'.world.sched.config = s.sys.world.sched.config)
    (hcons : s'.world.sched.criticalSectionConsumed = Function.update
      s.sys.world.sched.criticalSectionConsumed t.vmId (counted t s.sys.world))
    (hnext : s'.turn = some { t with budget := s.baseline }) : WatchInv (s.next s') := by
  obtain ⟨hpos, hbudget⟩ := inv.budget t hturn
  have hused := usedOf_expired hr
  have hleft : (s.next s').left = 0 := by
    unfold Watched.next Watched.leftAfter
    rw [hturn, hnext]
    dsimp only
    omega
  have hself : ∀ t', (s.next s').sys.turn = some t' → t' = { t with budget := s.baseline } := by
    intro t' ht'
    rw [show (s.next s').sys.turn = _ from hnext, Option.some.injEq] at ht'
    exact ht'.symm
  refine ⟨?_, fun t' ht' => ?_, fun i hin => ?_⟩
  · rw [next_baseline hconf]
    exact inv.baseline
  · rw [hself t' ht', hleft]
    exact ⟨inv.baseline, fun h => absurd h (Nat.lt_irrefl 0)⟩
  by_cases hi : i = t.vmId
  · subst hi
    have hcount := counted_toNat inv hsec hr hok
    have hconsumed : (s.next s').consumed t.vmId = s.consumed t.vmId + t.budget := by
      rw [← hcount]
      unfold Watched.consumed Watched.next
      dsimp only
      rw [hcons, Function.update_self]
    -- the section goes on, since its counter is not zero
    have hc : Continues s.sys s' t.vmId := by
      by_contra hc
      have hzero : (s.next s').consumed t.vmId = 0 := congrArg BitVec.toNat (hbegin _ hin hc)
      omega
    have hpast : (s.next s').past t.vmId = s.past t.vmId + (t.budget - s.left) := by
      unfold Watched.next
      dsimp only
      rw [if_pos hc, extra_self hturn, hused]
    have hover : s.past t.vmId + (t.budget - s.left) ≤ s.cap := by
      have hle := Nat.le_of_not_lt (mt (inv.forced_iff hturn hr hsec hok).mpr hcap)
      unfold Watched.count at hle
      rwa [hused] at hle
    have hnextBudget : ∀ t', (s.next s').sys.turn = some t' → t'.vmId = t.vmId →
        (s.next s').left = 0 → t'.budget = s.baseline := fun t' ht' _ _ => by rw [hself t' ht']
    obtain ⟨e, hbelow, hahead, hdrift⟩ := inv.account t.vmId hsec
    unfold Watched.SectionOk at hok
    rw [if_pos hr] at hok
    split at hok
    · next h0 =>
      rw [h0, Nat.sub_zero] at hpast hover
      refine ⟨e, ?_, ?_, ?_⟩
      · rwa [hpast, next_cap hconf]
      · rw [hpast, hconsumed, hahead, Nat.add_right_comm]
      · rw [hpast, next_cap hconf, next_baseline hconf]
        refine hdrift.imp_right fun ⟨hle, hb⟩ => ⟨?_, hnextBudget⟩
        rw [hb t hturn rfl h0] at hover ⊢
        rwa [← Nat.sub_sub, ← Nat.mod_eq_sub_mod (by omega)]
    · next h0 =>
      rw [hbudget (Nat.pos_of_ne_zero h0), Nat.sub_self, Nat.add_zero] at hpast
      refine ⟨e + t.budget, ?_, ?_, .inr ⟨?_, ?_⟩⟩
      · rwa [hpast, next_cap hconf]
      · rw [hpast, hconsumed, hahead, Nat.add_assoc]
      · rw [hpast, next_cap hconf, next_baseline hconf]
        omega
      · rw [next_baseline hconf]
        exact hnextBudget
  · by_cases hc : Continues s.sys s' i
    · obtain ⟨e, h⟩ := inv.account i hc.1
      refine ⟨e, h.stays hc (extra_other hturn hi) hconf ?_ fun _ t' ht' he _ => ?_⟩
      · rw [hcons, Function.update_of_ne hi]
      · rw [hself t' ht'] at he
        exact absurd he.symm hi
    · exact ⟨0, account_begins hbegin hin hc⟩

/-! ### Every step -/

theorem effectiveQuantum_pos {sched : VmSched} (h : 0 < sched.config.baselineQuantum.toNat)
    (vmId : Slot) : 0 < (effectiveQuantum sched vmId).1.toNat := by
  have hhalf : (sched.config.baselineQuantum / 2).toNat =
      sched.config.baselineQuantum.toNat / 2 := toNat_udiv
  have hpay : ∀ pay : Word, pay.toNat ≤ sched.config.baselineQuantum.toNat / 2 →
      0 < (sched.config.baselineQuantum - pay).toNat := by
    intro pay hle
    rw [toNat_sub_of_le (le_def.mpr (by omega))]
    omega
  unfold effectiveQuantum
  dsimp only
  refine hpay _ ?_
  split
  · next hlt =>
    have hlt' := lt_def.mp hlt
    omega
  · exact hhalf.le

theorem selectVm_budget {tick : Option Word} {w w' : World σ} {t : Turn}
    (h : 0 < w.sched.config.baselineQuantum.toNat) (hs : selectVm tick w = (w', .inr t)) :
    0 < t.budget := by
  have hconf : (wakeExpiredTimeouts (sampleTick tick w)).2.sched.config = w.sched.config := by
    refine (Kept.wakeExpired (P := fun _ => False) _).config.trans ?_
    unfold sampleTick
    split <;> rfl
  unfold selectVm at hs
  dsimp only at hs
  split at hs
  · cases hs
  · split at hs
    · cases hs
    · split at hs
      · cases hs
      · cases hs
        exact effectiveQuantum_pos (hconf ▸ h) _

theorem WatchInv.step {e : Event σ} {s₁ : Watched σ} (inv : WatchInv s) (hok : Counts s e)
    (hstep : watch s e = some s₁) : WatchInv s₁ := by
  unfold watch at hstep
  obtain ⟨s', hs', rfl⟩ := Option.map_eq_some_iff.mp hstep
  unfold Counts at hok
  rw [hs'] at hok
  obtain ⟨hbegin, hreset, hsec⟩ := hok
  cases hturn : s.sys.turn with
  | none =>
    unfold Sched.step at hs'
    rw [hturn] at hs'
    cases e with
    | call c =>
      cases hs'
      exact inv.between hturn (Kept.call ..).toCountersKept hbegin hreset nofun
    | enter tick =>
      dsimp only at hs'
      have hkept := CountersKept.selectVm tick s.sys.world
      cases hsel : selectVm tick s.sys.world with
      | mk w next =>
        rw [hsel] at hs' hkept
        cases next with
        | inl r =>
          cases hs'
          exact inv.between hturn hkept hbegin hreset nofun
        | inr t =>
          cases hs'
          refine inv.between hturn hkept hbegin hreset fun t' ht' => ?_
          cases ht'
          exact selectVm_budget inv.baseline hsel
    | iterate env => cases hs'
    | idle acts tick =>
      dsimp only at hs'
      split at hs'
      · cases hs'
        exact inv.between hturn (.runIdle ..) hbegin hreset nofun
      · cases hs'
  | some t =>
    rw [hturn] at hsec
    cases e with
    | iterate env =>
      obtain ⟨w', next, hit, hnext, hcpus, hconf, hcons⟩ := step_iterate hturn hs'
      by_cases hr : resultOf t s.sys.world = .quantumExpired
      · have hlive : (s.sys.world.cpus t.cpu).halted = false :=
          (ranWorld_halted none t s.sys.world).symm.trans (ranWorld_live none hr)
        cases hcrit : (s.sys.world.cpus t.cpu).inCritical with
        | true =>
          have hin : s.sys.inSection t.vmId = true := by
            rw [inSection_turn hturn, hcrit, hlive]
            rfl
          by_cases hcap : s.sys.world.sched.config.maxCriticalOverrun < counted t s.sys.world
          · obtain ⟨rfl, hhalt, hconf', hcons'⟩ := expired_forced hr hcrit hcap hit
            refine inv.iterated hturn hbegin hreset (hconf.trans hconf') (fun i hi => ?_) (fun hc => ?_)
              fun t' ht' => ?_
            · rw [hcons, hcons', Function.update_of_ne hi]
              exact .inl rfl
            · -- the VM is halted, so its section is over
              have hcpu := hc.2.2
              have hsect := hc.2.1
              unfold Sys.cpuOf at hcpu
              unfold Sys.inSection Sys.cpuOf at hsect
              rw [hnext, hturn] at hcpu
              dsimp only at hcpu
              rw [if_pos rfl] at hcpu
              rw [hnext] at hsect
              dsimp only at hsect
              rw [hcpu, hcpus] at hsect
              dsimp only at hsect
              rw [hhalt, Bool.not_true, Bool.and_false] at hsect
              cases hsect
            · rw [hnext] at ht'
              cases ht'
          · obtain ⟨rfl, -, hconf', hcons'⟩ := expired_on hr hcrit hcap hit
            exact inv.expired hturn hbegin hr hin (hsec hin) hcap (hconf.trans hconf')
              (hcons.trans hcons') hnext
        | false =>
          obtain ⟨rfl, -, hkept⟩ := expired_outside hr hcrit hit
          refine inv.iterated hturn hbegin hreset (hconf.trans hkept.config)
            (fun i _ => hcons ▸ hkept.consumed i) (fun hc => ?_) fun t' ht' => ?_
          · have hin := hc.1
            rw [inSection_turn hturn, hcrit] at hin
            cases hin
          · rw [hnext] at ht'
            cases ht'
      · obtain ⟨hkept, hgoes⟩ := turnIteration_uncounted hr hit
        refine inv.iterated hturn hbegin hreset (hconf.trans hkept.config)
          (fun i _ => hcons ▸ hkept.consumed i) (fun hc => ⟨?_, hcons ▸ hkept.consumed _⟩)
          fun t' ht' => (hgoes t' (hnext ▸ ht')).imp_right And.left
        have hsect := hsec hc.1
        unfold Watched.SectionOk at hsect
        rw [if_neg hr] at hsect
        exact fun h0 => (hsect h0).2 hc
    | call c | enter tick | idle acts tick =>
      unfold Sched.step at hs'
      rw [hturn] at hs'
      cases hs'

theorem WatchInv.exact {e : Event σ} (inv : WatchInv s) (hok : Counts s e) :
    HaltsExactly s e := by
  cases e with
  | iterate env =>
    unfold HaltsExactly
    dsimp only
    split
    · next t hturn =>
      cases hstep : Sched.step s.sys (.iterate env) with
      | none =>
        unfold Sched.step at hstep
        rw [hturn] at hstep
        dsimp only at hstep
        split at hstep <;> cases hstep
      | some s' =>
        unfold Counts at hok
        rw [hstep] at hok
        dsimp only at hok
        rw [hturn] at hok
        obtain ⟨-, -, hsec⟩ := hok
        obtain ⟨w', next, hit, -, -, -, -⟩ := step_iterate hturn hstep
        have hw : (turnIteration env t s.sys.world).1 = w' := by rw [hit]
        unfold forceHalted Watched.Overruns
        rw [hw]
        constructor
        · rintro ⟨hr, hhalt⟩
          have hlive : (s.sys.world.cpus t.cpu).halted = false :=
            (ranWorld_halted none t s.sys.world).symm.trans (ranWorld_live none hr)
          cases hcrit : (s.sys.world.cpus t.cpu).inCritical with
          | true =>
            have hin : s.sys.inSection t.vmId = true := by
              rw [inSection_turn hturn, hcrit, hlive]
              rfl
            refine ⟨hin, (inv.forced_iff hturn hr hin (hsec hin)).mp ?_⟩
            by_contra hcap
            rw [(expired_on hr hcrit hcap hit).2.1] at hhalt
            cases hhalt
          | false =>
            rw [(expired_outside hr hcrit hit).2.1] at hhalt
            cases hhalt
        · rintro ⟨hin, hover⟩
          have hcrit : (s.sys.world.cpus t.cpu).inCritical = true := by
            rw [inSection_turn hturn, Bool.and_eq_true] at hin
            exact hin.1
          by_cases hr : resultOf t s.sys.world = .quantumExpired
          · have hcap := (inv.forced_iff hturn hr hin (hsec hin)).mpr hover
            exact ⟨hr, (expired_forced hr hcrit hcap hit).2.1⟩
          · have hsect := hsec hin
            unfold Watched.SectionOk at hsect
            rw [if_neg hr] at hsect
            rcases Nat.eq_zero_or_pos s.left with h0 | hpos
            · exact absurd hover (Nat.not_lt.mpr (hsect h0).1)
            · obtain ⟨e, h⟩ := inv.account t.vmId hin
              have hbelow := h.below
              have hused := usedOf_le t s.sys.world
              have hb := (inv.budget t hturn).2 hpos
              unfold Watched.count at hover
              omega
    · trivial
  | _ => trivial

end Account

/-! ## Runs -/

theorem init_watched (cfg : VmSchedConfig) (cpus : Ptr → VmCpu) (mem : Mem) (host : σ) :
    WatchInv (Watched.init cfg cpus mem host) := by
  refine ⟨?_, nofun, fun _ hin => ?_⟩
  · unfold Watched.baseline Watched.init Sys.init vmSchedInit
    dsimp only
    split
    · decide
    · next h => exact Nat.pos_of_ne_zero fun h0 => h (eq_of_toNat_eq h0)
  · exact absurd hin Bool.false_ne_true

/-- In every run whose iterations keep the counter right, a VM is force-halted exactly when its
section overruns. -/
theorem run_overrun {cfg : VmSchedConfig} {cpus : Ptr → VmCpu} {mem : Mem} {host : σ}
    {es : List (Event σ)} (hok : Meets watch Counts (Watched.init cfg cpus mem host) es) :
    Meets watch HaltsExactly (Watched.init cfg cpus mem host) es :=
  hok.of_invariant (fun _ _ _ h hc hs => h.step hc hs) (fun _ _ h hc => h.exact hc)
    (init_watched ..)

/-- A VM that makes the call `SYS_CRITICAL_ENTER` somewhere in `code`. -/
def entering (baseline cap : Word) (code : List Byte) : Watched Unit :=
  .init ⟨baseline, cap⟩ (fun _ => callerCpu sysCriticalEnter) (flatMachine code).mem ()

/-- The first `n` iterations of the only VM's first turn. -/
def firstTurn (n : Nat) : List (Event Unit) :=
  .call (.register (some 0)) :: .enter none :: List.replicate n (.iterate cpuHandlersEnv)

/-- Two `nop`, `ecall` and a jump to itself: a section that never ends is stopped after two whole
quanta. -/
theorem run_overrun_forever :
    Meets watch HaltsExactly (entering 4 7 [0x13, 0x00, 0x00, 0x00, 0x13, 0x00, 0x00, 0x00,
        0x73, 0x00, 0x00, 0x00, 0x6F, 0x00, 0x00, 0x00]) (firstTurn 4) ∧
      (run watch (entering 4 7 [0x13, 0x00, 0x00, 0x00, 0x13, 0x00, 0x00, 0x00,
        0x73, 0x00, 0x00, 0x00, 0x6F, 0x00, 0x00, 0x00]) (firstTurn 4)).map
          (fun s => (s.sys.world.cpus 0).halted) = some true :=
  ⟨run_overrun (by decide), by decide⟩

/-- `ecall` and a jump back to it: the calls inside the section keep the counter down. -/
theorem calls_uncounted :
    ¬Meets watch HaltsExactly (entering 4 3
      [0x73, 0x00, 0x00, 0x00, 0x6F, 0xF0, 0xDF, 0xFF]) (firstTurn 10) := by
  decide

end Microgarbage.Sched
