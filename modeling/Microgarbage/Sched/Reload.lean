import Mathlib.Algebra.Order.Ring.Int
import Microgarbage.Lib.Clock
import Microgarbage.Sched.Ecall

/-!
# Periodic yields

`SYS_YIELD_UNTIL_RELOAD` puts a VM to sleep until the next boundary of its period. The boundaries
that have passed are stepped over in a loop that gives up after 1024 of them.
-/

namespace Microgarbage.Sched

open Lib Vm

variable {σ : Type}

/-- How long ago the VM's boundary was, negative when it is still ahead. -/
def lateness (now : Word) (cpu : VmCpu) : Int := (now - cpu.reloadNextDeadline).toInt

/-- How far ahead the deadline is that the VM waits for. -/
def ahead (now : Word) (cpu : VmCpu) : Int := (cpu.blockDeadline - now).toInt

/-- `cpu'` sleeps until a boundary of the period of `cpu` that is in the future, the next one when
its own has passed. -/
structure UntilBoundary (now : Word) (cpu cpu' : VmCpu) : Prop where
  sleeps : cpu'.blockReason = .sleep
  future : 0 < ahead now cpu'
  phase : (cpu.reloadPeriod.toNat : Int) ∣ ahead now cpu' + lateness now cpu
  near : 0 ≤ lateness now cpu → ahead now cpu' ≤ cpu.reloadPeriod.toNat

/-! ## The loop -/

section CatchUp

variable {now period : Word}

theorem toInt_step (hp : period.toNat < 2 ^ 31) {next : Word} (h : 0 ≤ (now - next).toInt) :
    (now - (next + period)).toInt = (now - next).toInt - period.toNat := by
  have hsub : now - (next + period) = (now - next) - period := by
    rw [BitVec.sub_eq_iff_eq_add, BitVec.add_comm next, ← BitVec.add_assoc, BitVec.sub_add_cancel,
      BitVec.sub_add_cancel]
  rw [hsub]
  generalize now - next = x at h ⊢
  rw [BitVec.toInt_eq_toNat_cond] at h ⊢
  rw [BitVec.toInt_eq_toNat_cond, BitVec.toNat_sub]
  have hx := x.isLt
  split at h <;> omega

theorem toInt_sub_swap {x y : Word} (h : (x - y).toInt ≠ -2 ^ 31) :
    (y - x).toInt = -(x - y).toInt := by
  rw [BitVec.toInt_eq_toNat_cond] at h ⊢
  rw [BitVec.toInt_eq_toNat_cond]
  rw [BitVec.toNat_sub] at h ⊢
  rw [BitVec.toNat_sub]
  have hx := x.isLt
  have hy := y.isLt
  split at h <;> split <;> omega

/-- Where the loop stops: `k` periods on, at a boundary in the future or when it gives up. -/
structure CaughtUp (now period next : Word) (safety : Nat) (res : Word) (k : Nat) : Prop where
  bound : k ≤ safety
  late : (now - res).toInt = (now - next).toInt - k * period.toNat
  stops : (now - res).toInt < 0 ∨ k = safety
  last : k = 0 ∨ 0 ≤ (now - res).toInt + period.toNat

theorem catchUp_spec (hp : period.toNat < 2 ^ 31) (safety : Nat) (next : Word) :
    ∃ k, CaughtUp now period next safety (catchUp now period safety next) k := by
  induction safety generalizing next with
  | zero => exact ⟨0, Nat.le_refl _, by simp [catchUp], .inr rfl, .inl rfl⟩
  | succ n ih =>
    unfold catchUp
    by_cases h : tickReached now next = true
    · rw [if_pos h]
      have hlate : 0 ≤ (now - next).toInt := (Clock.reached_iff now next).mp h
      have hstep := toInt_step hp hlate
      obtain ⟨k, hk⟩ := ih (next + period)
      have hmul : ((k + 1 : Nat) : Int) * period.toNat = k * period.toNat + period.toNat := by
        rw [Int.natCast_succ, Int.add_mul, Int.one_mul]
      have hlast := hk.late
      refine ⟨k + 1, Nat.succ_le_succ hk.bound, ?_, ?_, .inr ?_⟩
      · rw [hk.late, hstep, hmul]
        omega
      · exact hk.stops.imp id fun he => congrArg (· + 1) he
      · rcases hk.last with rfl | h0
        · rw [hk.late, hstep]
          omega
        · exact h0
    · rw [if_neg h]
      have hneg : (now - next).toInt < 0 :=
        Int.not_le.mp fun h0 => h ((Clock.reached_iff now next).mpr h0)
      exact ⟨0, Nat.zero_le _, by omega, .inl hneg, .inl rfl⟩

end CatchUp

/-! ## The call -/

/-- The CPU after the call. -/
def yielded (w : World σ) (p : Ptr) : VmCpu := (perform w (handleYieldUntilReload p w)).cpus p

theorem yielded_eq (w : World σ) (p : Ptr) (hp : (w.cpus p).reloadPeriod ≠ 0) :
    (yielded w p).blockReason = .sleep ∧
      (yielded w p).blockDeadline = catchUp w.sched.globalTick (w.cpus p).reloadPeriod 1024
        (w.cpus p).reloadNextDeadline := by
  unfold yielded handleYieldUntilReload cpuHandler perform
  simp only [List.foldl_cons, List.foldl_nil, Act.apply, onCpu_self]
  rw [if_neg hp]
  exact ⟨rfl, rfl⟩

/-- With gaps below half a turn of the clock, the call waits for the next boundary exactly when the
caller is less than 1024 periods late. -/
theorem yield_boundary_iff (w : World σ) (p : Ptr) (hpos : (w.cpus p).reloadPeriod ≠ 0)
    (hp : (w.cpus p).reloadPeriod.toNat < 2 ^ 31)
    (hgap : -2 ^ 31 < lateness w.sched.globalTick (w.cpus p)) :
    UntilBoundary w.sched.globalTick (w.cpus p) (yielded w p) ↔
      lateness w.sched.globalTick (w.cpus p) < 1024 * (w.cpus p).reloadPeriod.toNat := by
  obtain ⟨hreason, hdead⟩ := yielded_eq w p hpos
  obtain ⟨k, hk⟩ : ∃ k, CaughtUp w.sched.globalTick _ _ _ _ k :=
    catchUp_spec hp 1024 (w.cpus p).reloadNextDeadline
  rw [← hdead] at hk
  have hperiod : 0 < (w.cpus p).reloadPeriod.toNat :=
    Nat.pos_of_ne_zero fun h => hpos (BitVec.eq_of_toNat_eq h)
  change -2 ^ 31 < (w.sched.globalTick - (w.cpus p).reloadNextDeadline).toInt at hgap
  have hlate := hk.late
  change _ = lateness w.sched.globalTick (w.cpus p) - _ at hlate
  have hmin : (w.sched.globalTick - (yielded w p).blockDeadline).toInt ≠ -2 ^ 31 := by
    rcases hk.last with rfl | h0
    · rw [hk.late]
      omega
    · omega
  have hahead : ahead w.sched.globalTick (yielded w p) =
      -(w.sched.globalTick - (yielded w p).blockDeadline).toInt := toInt_sub_swap hmin
  constructor
  · intro h
    have hfuture := h.future
    have hmul : (k : Int) * (w.cpus p).reloadPeriod.toNat ≤
        1024 * (w.cpus p).reloadPeriod.toNat :=
      Int.mul_le_mul_of_nonneg_right (Int.ofNat_le.mpr hk.bound) (Int.natCast_nonneg _)
    omega
  · intro h
    have hneg : (w.sched.globalTick - (yielded w p).blockDeadline).toInt < 0 := by
      rcases hk.stops with hneg | rfl
      · exact hneg
      · omega
    refine ⟨hreason, by omega, ⟨k, ?_⟩, fun h0 => ?_⟩
    · rw [hahead, hlate, Int.mul_comm]
      omega
    · rcases hk.last with rfl | hlast
      · omega
      · omega

/-- The VM of `p` with a boundary at tick 0 and a period of 10. -/
def periodicWorld (tick : Word) : World Unit where
  cpus := fun _ => { vmInit 0 with reloadPeriod := 10 }
  mem := fun _ => 0
  sched := { vmSchedInit ⟨0, 0⟩ with globalTick := tick }
  host := ()

/-- 9 periods late. -/
theorem yield_boundary_late :
    UntilBoundary 95 ((periodicWorld 95).cpus 0) (yielded (periodicWorld 95) 0) :=
  (yield_boundary_iff (periodicWorld 95) 0 (by decide) (by decide) (by decide)).mpr (by decide)

/-- 1024 periods late, the VM waits for a boundary that has passed. -/
theorem yield_boundary_missed :
    ¬ UntilBoundary 10240 ((periodicWorld 10240).cpus 0) (yielded (periodicWorld 10240) 0) := by
  intro h
  exact absurd h.future (by decide +kernel)

end Microgarbage.Sched
