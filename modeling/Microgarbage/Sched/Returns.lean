import Microgarbage.Sched.Overrun
import Mathlib.Order.WellFounded

/-!
# When a turn ends

The loop of `vm_sched_step` goes on after an ecall with what is left of the budget, and inside a
critical section with a fresh one. The counter of the section and the budget make a measure that
falls with every instruction that retires; an ecall retires none.
-/

namespace Microgarbage.Sched

open Lib Vm

variable {σ : Type}

/-- One iteration of a turn that goes on. -/
def turnStep (x : Turn × World σ) (env : Env σ) : Option (Turn × World σ) :=
  match turnIteration env x.1 x.2 with
  | (w, some t) => some (t, w)
  | (_, none) => none

/-- The call returns when the environment answers by `envs`. -/
def Returns (tick : Option Word) (envs : Nat → Env σ) (w : World σ) : Prop :=
  ∃ n, (vmSchedStep tick ((List.range n).map envs) w).isSome

/-- The next instruction is an ecall. -/
def AtEcall (m : Machine) : Prop := (vmStep m 1).1 = .ecall

/-- The machine of the VM that has the turn. -/
def running (x : Turn × World σ) : Machine := ⟨x.2.cpus x.1.cpu, x.2.mem⟩

/-- The turn after `n` iterations, if it goes on. -/
def turnAt (envs : Nat → Env σ) (x : Turn × World σ) (n : Nat) : Option (Turn × World σ) :=
  run turnStep x ((List.range n).map envs)

/-- A turn begins in which, from some iteration on, ecall follows on ecall. -/
def EndlessEcalls (tick : Option Word) (envs : Nat → Env σ) (w : World σ) : Prop :=
  ∃ w₁ t, selectVm tick w = (w₁, .inr t) ∧
    ∃ n, ∀ m, n ≤ m → ∃ x, turnAt envs (t, w₁) m = some x ∧ AtEcall (running x)

/-! ## The loop and its iterations -/

theorem turnLoop_isNone_iff {envs : List (Env σ)} {t : Turn} {w : World σ} :
    (turnLoop envs t w).isNone ↔ (run turnStep (t, w) envs).isSome := by
  induction envs generalizing t w with
  | nil => exact iff_of_true rfl rfl
  | cons env envs ih =>
    rw [run_cons]
    unfold turnLoop turnStep
    dsimp only
    cases turnIteration env t w with
    | mk w₁ next =>
      cases next with
      | none => exact iff_of_false Bool.false_ne_true Bool.false_ne_true
      | some t₁ => exact ih

/-- The call does not return exactly when a turn begins that goes on after every iteration. -/
theorem not_returns_iff {tick : Option Word} {envs : Nat → Env σ} {w : World σ} :
    ¬ Returns tick envs w ↔
      ∃ w₁ t, selectVm tick w = (w₁, .inr t) ∧ ∀ n, (turnAt envs (t, w₁) n).isSome := by
  unfold Returns vmSchedStep turnAt
  cases selectVm tick w with
  | mk w₁ next =>
    cases next with
    | inl r => exact iff_of_false (fun h => h ⟨0, rfl⟩) (fun ⟨_, _, h, _⟩ => nomatch h)
    | inr t =>
      dsimp only
      constructor
      · intro h
        refine ⟨w₁, t, rfl, fun n => ?_⟩
        rw [← turnLoop_isNone_iff, Option.isNone_iff_eq_none]
        by_contra hn
        exact h ⟨n, by rw [Option.isSome_map]; exact Option.isSome_iff_ne_none.mpr hn⟩
      · rintro ⟨w₂, t₂, he, h⟩ ⟨n, hn⟩
        cases he
        have hnone := turnLoop_isNone_iff.mpr (h n)
        rw [Option.isSome_map] at hn
        rw [Option.isNone_iff_eq_none] at hnone
        rw [hnone] at hn
        cases hn

/-! ## The measure -/

/-- A turn under way, in a configuration in which the counter of a section does not wrap. -/
structure Underway (x : Turn × World σ) : Prop where
  fits : x.2.sched.config.maxCriticalOverrun.toNat +
    x.2.sched.config.baselineQuantum.toNat < 2 ^ 32
  home : x.2.sched.vms x.1.vmId = some x.1.cpu
  below : x.2.sched.criticalSectionConsumed x.1.vmId ≤ x.2.sched.config.maxCriticalOverrun
  pos : 0 < x.1.budget
  le : x.1.budget ≤ x.2.sched.config.baselineQuantum.toNat

/-- The instructions that the turn can still retire, from above. -/
def fuelLeft (x : Turn × World σ) : Nat :=
  (x.2.sched.config.maxCriticalOverrun.toNat -
    (x.2.sched.criticalSectionConsumed x.1.vmId).toNat) *
      (x.2.sched.config.baselineQuantum.toNat + 1) + x.1.budget

/-- No handler takes out the VM that it serves. -/
def SparesCaller (env : Env σ) : Prop :=
  ∀ p w i, w.sched.vms i = some p → ∀ a ∈ serveEcall env p w, ¬ a.Evicts i

theorem refill_lt {cap c b baseline : Nat} (hb : 0 < b) (h : c + b ≤ cap) :
    (cap - (c + b)) * (baseline + 1) + baseline < (cap - c) * (baseline + 1) + b := by
  have hsplit : cap - c = cap - (c + b) + b := by omega
  have hle : baseline + 1 ≤ b * (baseline + 1) := Nat.le_mul_of_pos_left _ hb
  rw [hsplit, Nat.add_mul]
  omega

section Iteration

variable {env : Env σ} {t t' : Turn} {w w' : World σ}

theorem ecall_on (hspare : SparesCaller env) (hhome : w.sched.vms t.vmId = some t.cpu)
    (h : resultOf t w ≠ .quantumExpired) (hturn : turnIteration env t w = (w', some t')) :
    resultOf t w = .ecall ∧ usedOf t w < t.budget ∧
      t' = { t with budget := t.budget - usedOf t w } ∧
      w'.sched.config = w.sched.config ∧ w'.sched.vms t.vmId = some t.cpu ∧
      w'.sched.criticalSectionConsumed t.vmId = w.sched.criticalSectionConsumed t.vmId := by
  obtain ⟨hkept, hon⟩ := turnIteration_uncounted h hturn
  obtain ⟨hused, hnext, hr⟩ := hon t' rfl
  have hocc : w.sched.Occupied t.vmId := by
    unfold VmSched.Occupied
    rw [hhome]
    rfl
  have hslot := hkept.slot t.vmId ⟨hocc, hspare t.cpu _ t.vmId hhome, nofun⟩
  exact ⟨hr, hused, hnext, hkept.config, hslot.1.trans hhome, hslot.2.2⟩

theorem atEcall_of_unused (hpos : 0 < t.budget) (hr : resultOf t w = .ecall)
    (hused : usedOf t w = 0) : AtEcall ⟨w.cpus t.cpu, w.mem⟩ := by
  unfold resultOf at hr
  unfold usedOf at hused
  unfold AtEcall
  obtain ⟨b, hb⟩ := Nat.exists_eq_succ_of_ne_zero (Nat.pos_iff_ne_zero.mp hpos)
  rw [hb] at hr hused
  unfold vmStep at hr hused ⊢
  split at hr
  · cases hr
  · next hlive =>
    rw [if_neg hlive] at hused ⊢
    unfold vmStepLoop at hr hused ⊢
    split at hr
    · exact hr
    · next m' hgo =>
      have hshift : vmStepLoop b (0 + 1) m' = _ := vmStepLoop_shift b 1 0 m'
      rw [hgo] at hused
      dsimp only at hused
      rw [hshift] at hused
      dsimp only at hused
      omega

theorem Underway.turnStep {x y : Turn × World σ} (inv : Underway x) (hspare : SparesCaller env)
    (h : Sched.turnStep x env = some y) :
    Underway y ∧ (fuelLeft y < fuelLeft x ∨ fuelLeft y = fuelLeft x ∧ AtEcall (running x)) := by
  obtain ⟨t, w⟩ := x
  unfold Sched.turnStep at h
  dsimp only at h
  cases hturn : turnIteration env t w with
  | mk w' next =>
    rw [hturn] at h
    cases next with
    | none => cases h
    | some t' =>
      cases h
      have hpos := inv.pos
      have hle := inv.le
      have hbelow := BitVec.le_def.mp inv.below
      have hfits := inv.fits
      dsimp only at hpos hle hbelow hfits
      by_cases hr : resultOf t w = .quantumExpired
      · cases hcrit : (w.cpus t.cpu).inCritical with
        | false => cases (expired_outside hr hcrit hturn).1
        | true =>
          by_cases hcap : w.sched.config.maxCriticalOverrun < counted t w
          · cases (expired_forced hr hcrit hcap hturn).1
          · obtain ⟨hnext, -, hconf, hcons⟩ := expired_on hr hcrit hcap hturn
            cases hnext
            have hvms : w'.sched.vms = w.sched.vms := by
              have hexpired : turnIteration env t w = _ := turnIteration_expired hr
              have h := congrArg (fun r => r.1.sched.vms) hexpired
              rw [hturn, turnExpired_vms] at h
              exact h
            have hself : w'.sched.criticalSectionConsumed t.vmId = counted t w := by
              rw [hcons, Function.update_self]
            have hcount : (counted t w).toNat =
                (w.sched.criticalSectionConsumed t.vmId).toNat + t.budget := by
              unfold counted
              rw [BitVec.toNat_add, BitVec.toNat_ofNat, Nat.mod_eq_of_lt (a := t.budget) (by omega),
                Nat.mod_eq_of_lt (by omega)]
            have hnot := fun h => hcap (BitVec.lt_def.mpr h)
            refine ⟨⟨by rw [hconf]; exact hfits, (congrFun hvms _).trans inv.home, ?_, ?_, ?_⟩,
              .inl ?_⟩
            · rw [hself, hconf]
              exact BitVec.not_lt.mp hcap
            · exact Nat.lt_of_lt_of_le hpos hle
            · rw [hconf]
            · unfold fuelLeft
              rw [hself, hconf, hcount]
              exact refill_lt hpos (hcount ▸ Nat.not_lt.mp hnot)
      · obtain ⟨hcall, hused, hnext, hconf, hvms, hcons⟩ := ecall_on hspare inv.home hr hturn
        subst hnext
        refine ⟨⟨by rw [hconf]; exact hfits, hvms, by rw [hcons, hconf]; exact inv.below,
          Nat.sub_pos_of_lt hused, ?_⟩, ?_⟩
        · rw [hconf]
          exact (Nat.sub_le ..).trans hle
        · unfold fuelLeft
          rw [hconf, hcons]
          rcases Nat.eq_zero_or_pos (usedOf t w) with h0 | h0
          · exact .inr ⟨by rw [h0, Nat.sub_zero], atEcall_of_unused hpos hcall h0⟩
          · refine .inl (Nat.add_lt_add_left ?_ _)
            dsimp only
            omega

end Iteration

/-! ## Turns -/

section Turns

variable {envs : Nat → Env σ} {x : Turn × World σ}

theorem turnAt_succ (n : Nat) :
    turnAt envs x (n + 1) = (turnAt envs x n).bind fun y => turnStep y (envs n) := by
  unfold turnAt
  rw [List.range_succ, List.map_append, run_append]
  cases run turnStep x ((List.range n).map envs) with
  | none => rfl
  | some y =>
    exact Option.bind_fun_some (turnStep y (envs n))

theorem isSome_turnAt {m n : Nat} (hmn : m ≤ n) (h : (turnAt envs x n).isSome) :
    (turnAt envs x m).isSome := by
  induction hmn with
  | refl => exact h
  | step _ ih =>
    refine ih ?_
    rw [turnAt_succ] at h
    cases hy : turnAt envs x _ with
    | none =>
      rw [hy] at h
      cases h
    | some y => rfl

theorem Underway.turnAt (inv : Underway x) (hspare : ∀ n, SparesCaller (envs n)) {n : Nat}
    {y : Turn × World σ} (h : Sched.turnAt envs x n = some y) : Underway y := by
  induction n generalizing y with
  | zero =>
    cases h
    exact inv
  | succ n ih =>
    rw [turnAt_succ, Option.bind_eq_some_iff] at h
    obtain ⟨z, hz, hy⟩ := h
    exact ((ih hz).turnStep (hspare n) hy).1

/-- A turn goes on for ever exactly when it comes to nothing but ecalls. -/
theorem Underway.endless_iff (inv : Underway x) (hspare : ∀ n, SparesCaller (envs n)) :
    (∀ n, (Sched.turnAt envs x n).isSome) ↔
      ∃ n, ∀ m, n ≤ m → ∃ y, Sched.turnAt envs x m = some y ∧ AtEcall (running y) := by
  constructor
  · intro h
    choose states hat using fun n => Option.isSome_iff_exists.mp (h n)
    have hstep : ∀ n, fuelLeft (states (n + 1)) < fuelLeft (states n) ∨
        fuelLeft (states (n + 1)) = fuelLeft (states n) ∧ AtEcall (running (states n)) := by
      intro n
      have hnext := hat (n + 1)
      rw [turnAt_succ, hat n] at hnext
      exact ((inv.turnAt hspare (hat n)).turnStep (hspare n) hnext).2
    -- from where the measure is least it stays the same
    obtain ⟨n, -, hleast⟩ := (measure fun n => fuelLeft (states n)).wf.has_min Set.univ ⟨0, trivial⟩
    have hmin : ∀ m, ¬ fuelLeft (states m) < fuelLeft (states n) := fun m => hleast m trivial
    have hconst : ∀ k, fuelLeft (states (n + k)) = fuelLeft (states n) := by
      intro k
      induction k with
      | zero => rfl
      | succ k ih =>
        rcases hstep (n + k) with hlt | ⟨heq, -⟩
        · exact absurd (ih ▸ hlt) (hmin _)
        · exact heq.trans ih
    refine ⟨n, fun m hm => ⟨states m, hat m, ?_⟩⟩
    obtain ⟨k, rfl⟩ := Nat.exists_eq_add_of_le hm
    rcases hstep (n + k) with hlt | ⟨-, hcall⟩
    · exact absurd (hconst k ▸ hlt) (hmin _)
    · exact hcall
  · rintro ⟨n, hn⟩ m
    obtain ⟨y, hy, -⟩ := hn (max n m) (Nat.le_max_left ..)
    exact isSome_turnAt (Nat.le_max_right n m) (Option.isSome_of_mem hy)

end Turns

/-! ## Runs -/

/-- No section has run past its cap. -/
structure Capped (cfg : VmSchedConfig) (s : Sys σ) : Prop where
  config : s.world.sched.config = (vmSchedInit cfg).config
  below : ∀ i, s.world.sched.criticalSectionConsumed i ≤ s.world.sched.config.maxCriticalOverrun

namespace Capped

variable {cfg : VmSchedConfig} {s s' : Sys σ}

theorem kept (inv : Capped cfg s) {w : World σ} {turn : Option Turn}
    (h : CountersKept s.world.sched w.sched) : Capped cfg ⟨w, turn⟩ :=
  ⟨h.config.trans inv.config, fun i => by
    rw [h.config]
    rcases h.consumed i with he | he
    · rw [he]
      exact inv.below i
    · rw [he]
      exact BitVec.le_def.mpr (Nat.zero_le _)⟩

theorem init (cfg : VmSchedConfig) (cpus : Ptr → VmCpu) (mem : Mem) (host : σ) :
    Capped cfg (Sys.init cfg cpus mem host) := ⟨rfl, fun _ => BitVec.le_def.mpr (Nat.zero_le _)⟩

theorem iterated {env : Env σ} {t : Turn} {w : World σ} {next : Option Turn}
    (inv : Capped cfg s) (h : turnIteration env t s.world = (w, next)) :
    Capped cfg ⟨w, next⟩ := by
  by_cases hr : resultOf t s.world = .quantumExpired
  · cases hcrit : (s.world.cpus t.cpu).inCritical with
    | false => exact inv.kept (expired_outside hr hcrit h).2.2
    | true =>
      have hupdate : ∀ v : Word, v ≤ s.world.sched.config.maxCriticalOverrun →
          w.sched.config = s.world.sched.config → w.sched.criticalSectionConsumed =
            Function.update s.world.sched.criticalSectionConsumed t.vmId v →
          Capped cfg ⟨w, next⟩ := by
        intro v hv hconf hcons
        refine ⟨hconf.trans inv.config, fun i => ?_⟩
        rw [hconf, hcons]
        by_cases hi : i = t.vmId
        · rw [hi, Function.update_self]
          exact hv
        · rw [Function.update_of_ne hi]
          exact inv.below i
      by_cases hcap : s.world.sched.config.maxCriticalOverrun < counted t s.world
      · obtain ⟨-, -, hconf, hcons⟩ := expired_forced hr hcrit hcap h
        exact hupdate 0 (BitVec.le_def.mpr (Nat.zero_le _)) hconf hcons
      · obtain ⟨-, -, hconf, hcons⟩ := expired_on hr hcrit hcap h
        exact hupdate _ (BitVec.not_lt.mp hcap) hconf hcons
  · exact inv.kept (turnIteration_uncounted hr h).1.toCountersKept

theorem step {e : Event σ} (inv : Capped cfg s) (h : Sched.step s e = some s') :
    Capped cfg s' := by
  obtain ⟨w, turn⟩ := s
  cases turn with
  | none =>
    cases e with
    | call c =>
      cases h
      exact inv.kept (Kept.call w c).toCountersKept
    | enter tick =>
      unfold Sched.step at h
      dsimp only at h
      have hkept := CountersKept.selectVm tick w
      split at h
      · next hsel =>
        cases h
        rw [hsel] at hkept
        exact inv.kept hkept
      · next hsel =>
        cases h
        rw [hsel] at hkept
        exact inv.kept hkept
    | iterate env => cases h
    | idle acts tick =>
      unfold Sched.step at h
      dsimp only at h
      split at h
      · cases h
        exact inv.kept (.runIdle acts tick w)
      · cases h
  | some t =>
    cases e with
    | iterate env =>
      unfold Sched.step at h
      dsimp only at h
      cases hturn : turnIteration env t w with
      | mk w' next =>
        have hnext := inv.iterated hturn
        rw [hturn] at h
        cases next <;> cases h
        · exact hnext.kept (.of_eq rfl rfl)
        · exact hnext
    | call c => cases h
    | enter tick => cases h
    | idle acts tick => cases h

end Capped

theorem effectiveQuantum_le (sched : VmSched) (vmId : Slot) :
    (effectiveQuantum sched vmId).1.toNat ≤ sched.config.baselineQuantum.toNat := by
  have hpay : (effectiveQuantum sched vmId).2 ≤ sched.config.baselineQuantum := by
    have hhalf : (sched.config.baselineQuantum / 2).toNat =
        sched.config.baselineQuantum.toNat / 2 := BitVec.toNat_udiv
    unfold effectiveQuantum
    dsimp only
    rw [BitVec.le_def]
    split
    · next hlt =>
      have hlt' := BitVec.lt_def.mp hlt
      omega
    · omega
  unfold effectiveQuantum at hpay ⊢
  rw [BitVec.toNat_sub_of_le hpay]
  exact Nat.sub_le ..

theorem selectVm_underway {cfg : VmSchedConfig} {s : Sys σ} (inv : Capped cfg s)
    (hfits : (vmSchedInit cfg).config.maxCriticalOverrun.toNat +
      (vmSchedInit cfg).config.baselineQuantum.toNat < 2 ^ 32)
    {tick : Option Word} {w : World σ} {t : Turn} (h : selectVm tick s.world = (w, .inr t)) :
    Underway (t, w) := by
  have hkept := CountersKept.selectVm tick s.world
  have hselected : Capped cfg ⟨_, some t⟩ := inv.kept hkept
  have hpos : 0 < (vmSchedInit cfg).config.baselineQuantum.toNat := (init_watched cfg (fun _ => vmInit 0) (fun _ => 0) ()).baseline
  rw [h] at hselected
  have hconf : w.sched.config = (vmSchedInit cfg).config := hselected.config
  have hbudget := selectVm_budget (inv.config ▸ hpos) h
  unfold selectVm at h
  dsimp only at h
  split at h
  · cases h
  split at h
  · cases h
  split at h
  · cases h
  · next p hp =>
    cases h
    refine ⟨hconf ▸ hfits, hp, hselected.below _, hbudget, ?_⟩
    exact effectiveQuantum_le _ _

/-- Where the counters of critical sections cannot wrap, a call of `vm_sched_step` returns exactly
when it does not come to nothing but ecalls that let the VM go on. -/
theorem step_returns_iff {cfg : VmSchedConfig} {cpus : Ptr → VmCpu} {mem : Mem} {host : σ}
    {es : List (Event σ)} {s : Sys σ}
    (hfits : (vmSchedInit cfg).config.maxCriticalOverrun.toNat +
      (vmSchedInit cfg).config.baselineQuantum.toNat < 2 ^ 32)
    (hrun : run step (Sys.init cfg cpus mem host) es = some s) (tick : Option Word)
    (envs : Nat → Env σ) (hspare : ∀ n, SparesCaller (envs n)) :
    Returns tick envs s.world ↔ ¬ EndlessEcalls tick envs s.world := by
  have hok : Meets step (fun _ _ => True) (Sys.init cfg cpus mem host) es :=
    .of_forall (fun _ _ => trivial) ..
  have inv : Capped cfg s := run_invariant (fun _ _ _ h _ hs => h.step hs) (.init ..) hok hrun
  rw [← not_iff_not, not_returns_iff, not_not]
  unfold EndlessEcalls
  refine exists_congr fun w => exists_congr fun t => and_congr_right fun hsel => ?_
  exact (selectVm_underway inv hfits hsel).endless_iff hspare

/-- Every call fails with `ENOSYS`. -/
def plainEnv : Env Unit := ⟨none, none, fun _ _ => ([], .terminate)⟩

theorem plainEnv_spares : SparesCaller plainEnv := by
  intro p w i _ a ha
  cases List.mem_singleton.mp ha
  exact id

/-- A guest that jumps to itself. -/
theorem step_returns_spinning :
    ¬ EndlessEcalls none (fun _ => plainEnv) ((Call.register (some 0)).apply
      (Sys.init ⟨10, 0⟩ (fun _ => callerCpu 0) (flatMachine [0x6F, 0x00, 0x00, 0x00]).mem
        ()).world) :=
  (@step_returns_iff Unit ⟨10, 0⟩ _ _ _ [.call (.register (some 0))] _ (by decide) rfl none _
    fun _ => plainEnv_spares).mp ⟨1, by decide⟩

/-! ## A guest that is nothing but ecalls -/

/-- One gibibyte of host memory, seen in every region. -/
def ringRegion : VmRegion := ⟨0, 0x40000000, false⟩

/-- `ecall` at every aligned address. -/
def ringMem : Mem := fun a => if a % 4 = 0 then 0x73 else 0

/-- A VM that asks for its own id. -/
def ringCpu : VmCpu :=
  { (vmInit 0).setReg regA7 sysSelf with regions := fun _ => ringRegion, l2Shared := ringRegion }

/-- The VM is at one of its ecalls. -/
structure InRing (x : Turn × World Unit) : Prop where
  budget : 0 < x.1.budget
  mem : x.2.mem = ringMem
  regions : (x.2.cpus x.1.cpu).regions = fun _ => ringRegion
  shared : (x.2.cpus x.1.cpu).l2Shared = ringRegion
  aligned : (x.2.cpus x.1.cpu).pc.toNat % 4 = 0
  number : (x.2.cpus x.1.cpu).regs regA7 = sysSelf
  live : (x.2.cpus x.1.cpu).halted = false
  unblocked : (x.2.cpus x.1.cpu).blockReason = .none

section Ring

variable {cpu : VmCpu}

theorem ring_mapped (hr : cpu.regions = fun _ => ringRegion) (hs : cpu.l2Shared = ringRegion)
    {a : Word} (ha : a.toNat % 2 = 0) : Mapped cpu a 2 ∧ hostAddr cpu a = offsetAt a := by
  have hreg : regionAt cpu a = ringRegion := by
    unfold regionAt
    rw [hr, hs]
    split_ifs <;> rfl
  unfold Mapped hostAddr
  rw [hreg]
  refine ⟨?_, Nat.zero_add _⟩
  change offsetAt a + 2 ≤ 0x40000000
  unfold offsetAt
  split_ifs <;> omega

theorem offsetAt_mod (a : Word) : offsetAt a % 4 = a.toNat % 4 := by
  unfold offsetAt
  split_ifs <;> omega

theorem ringMem_load {p : Nat} (h : p % 2 = 0) :
    ringMem.load16 p = if p % 4 = 0 then 0x73 else 0 := by
  unfold Mem.load16 ringMem
  rw [if_neg (by omega : ¬ (p + 1) % 4 = 0)]
  split <;> rfl

theorem ring_wordAt {m : Machine} (hmem : m.mem = ringMem)
    (hr : m.cpu.regions = fun _ => ringRegion) (hs : m.cpu.l2Shared = ringRegion)
    (ha : m.cpu.pc.toNat % 4 = 0) : WordAt m 0x73 := by
  have hpc := m.cpu.pc.isLt
  have hsecond : (m.cpu.pc + 2).toNat = m.cpu.pc.toNat + 2 := by
    rw [BitVec.toNat_add, Nat.mod_eq_of_lt (by change _ + 2 < _; omega)]
    rfl
  obtain ⟨hlo, hlo'⟩ := ring_mapped hr hs (a := m.cpu.pc) (by omega)
  obtain ⟨hhi, hhi'⟩ := ring_mapped hr hs (a := m.cpu.pc + 2) (by omega)
  have hmod := offsetAt_mod m.cpu.pc
  have hmod' := offsetAt_mod (m.cpu.pc + 2)
  refine ⟨by omega, hlo, hhi, ?_, ?_⟩
  · rw [hmem, hlo', hhi', ringMem_load (by omega), ringMem_load (by omega), if_neg (by omega),
      if_pos (by omega)]
    rfl
  · rw [hmem, hlo', ringMem_load (by omega), if_pos (by omega)]
    rfl

/-- The CPU after the ecall is reported. -/
def called (cpu : VmCpu) : VmCpu :=
  { cpu with
    pc := cpu.pc + 4
    trapCause := .ecall
    trapPc := cpu.pc + 4 - 4
    trapAddr := 0
    trapInsn := 0
    ecallCount := cpu.ecallCount + 1 }

theorem ring_vmStep {b : Nat} (hb : 0 < b) (hr : cpu.regions = fun _ => ringRegion)
    (hs : cpu.l2Shared = ringRegion) (ha : cpu.pc.toNat % 4 = 0) (hlive : cpu.halted = false) :
    vmStep ⟨cpu, ringMem⟩ b = (.ecall, 0, ⟨called cpu, ringMem⟩) := by
  obtain ⟨b, rfl⟩ := Nat.exists_eq_succ_of_ne_zero (Nat.pos_iff_ne_zero.mp hb)
  have hfetch := fetch_word (ring_wordAt (m := clearTrapState ⟨cpu, ringMem⟩) rfl hr hs ha)
  unfold vmStep
  dsimp only
  rw [hlive, if_neg Bool.false_ne_true]
  unfold vmStepLoop stepOnce
  rw [hfetch]
  rfl

end Ring

theorem InRing.turnStep {x : Turn × World Unit} (h : InRing x) :
    ∃ y, Sched.turnStep x cpuHandlersEnv = some y ∧ InRing y := by
  obtain ⟨t, w⟩ := x
  obtain ⟨hb, hmem, hr, hs, ha, hnum, hlive, hblock⟩ := h
  dsimp only at hb hmem hr hs ha hnum hlive hblock
  have hstep := ring_vmStep hb hr hs ha hlive
  rw [← hmem] at hstep
  have hacts : ∀ w' : World Unit, (w'.cpus t.cpu).regs regA7 = sysSelf →
      serveEcall cpuHandlersEnv t.cpu w' = vmHandleSelf t.cpu w' := by
    intro w' h'
    unfold serveEcall
    change vmEcallDispatch _ t.cpu w' = _
    unfold vmEcallDispatch
    rw [h']
    rfl
  have hran : (ranWorld cpuHandlersEnv.tick t w).cpus t.cpu = called (w.cpus t.cpu) ∧
      (ranWorld cpuHandlersEnv.tick t w).mem = ringMem := by
    unfold ranWorld
    rw [hstep]
    exact ⟨Function.update_self .., hmem⟩
  -- the world after the handler
  let w' := (ranWorld cpuHandlersEnv.tick t w).onCpu t.cpu fun c => ret (c.vmId.setWidth 32) c
  have hcpu : w'.cpus t.cpu = ret ((called (w.cpus t.cpu)).vmId.setWidth 32)
      (called (w.cpus t.cpu)) := by
    rw [onCpu_self, hran.1]
  have hserved : perform (ranWorld cpuHandlersEnv.tick t w)
      (serveEcall cpuHandlersEnv t.cpu (ranWorld cpuHandlersEnv.tick t w)) = w' := by
    rw [hacts _ (by rw [hran.1]; exact hnum)]
    rfl
  have hturn : turnIteration cpuHandlersEnv t w = (w', some { t with budget := t.budget - 0 }) := by
    unfold turnIteration
    rw [hstep]
    dsimp only
    rw [hserved]
    unfold turnDispatched
    rw [hcpu, if_neg (by change ¬ (w.cpus t.cpu).halted = true; rw [hlive]; exact Bool.false_ne_true),
      if_neg (by change ¬ (w.cpus t.cpu).blockReason ≠ .none; rw [hblock]; exact fun h => h rfl),
      if_neg (by omega)]
  unfold Sched.turnStep
  dsimp only
  rw [hturn]
  refine ⟨_, rfl, hb, hran.2, ?_, ?_, ?_, ?_, ?_, ?_⟩ <;> dsimp only <;> rw [hcpu]
  · exact hr
  · exact hs
  · change ((w.cpus t.cpu).pc + 4).toNat % 4 = 0
    rw [BitVec.toNat_add]
    change ((w.cpus t.cpu).pc.toNat + 4) % 2 ^ 32 % 4 = 0
    omega
  · exact hnum
  · exact hlive
  · exact hblock

/-- A scheduler with this one VM. -/
def ringSys : Sys Unit :=
  ⟨(Call.register (some 0)).apply (Sys.init ⟨0, 0⟩ (fun _ => ringCpu) ringMem ()).world, none⟩

theorem ring_selects :
    ∃ w t, selectVm none ringSys.world = (w, .inr t) ∧ InRing (t, w) := by
  exact ⟨_, _, rfl, by decide, rfl, rfl, rfl, rfl, rfl, rfl, rfl⟩

/-- With such a guest the first call never returns. -/
theorem ring_never_returns :
    ∃ s, run step (Sys.init ⟨0, 0⟩ (fun _ => ringCpu) ringMem ()) [.call (.register (some 0))] =
      some s ∧ ¬ Returns none (fun _ => cpuHandlersEnv) s.world := by
  obtain ⟨w, t, hsel, hin⟩ := ring_selects
  refine ⟨ringSys, rfl, not_returns_iff.mpr ⟨w, t, hsel, fun n => ?_⟩⟩
  have hring : ∀ n, ∃ y, turnAt (fun _ => cpuHandlersEnv) (t, w) n = some y ∧ InRing y := by
    intro n
    induction n with
    | zero => exact ⟨_, rfl, hin⟩
    | succ n ih =>
      obtain ⟨y, hy, hin⟩ := ih
      rw [turnAt_succ, hy]
      exact hin.turnStep
  obtain ⟨y, hy, -⟩ := hring n
  exact Option.isSome_of_mem hy

end Microgarbage.Sched
