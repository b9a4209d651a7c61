import Mathlib.Algebra.Ring.Nat
import Mathlib.Logic.Function.Basic
import Microgarbage.Lib.Transition

/-!
# The worker thread

The worker of `worker.c`, cut at its atomic accesses, and any number of threads that signal it, wake
it or stop it, all in any order. What the worker sleeps on is a parameter: a counting semaphore on
POSIX, an auto-reset event on Windows.
-/

namespace Microgarbage.Mgapi

open Lib

/-- A primitive to sleep on, which a post leaves ready. -/
structure Wakeup (ω : Type*) where
  ready : ω → Bool
  post : ω → ω
  take : ω → ω
  ready_post (w : ω) : ready (post w) = true

/-- `CreateEvent` without manual reset. -/
def autoResetEvent : Wakeup Bool := ⟨id, fun _ => true, fun _ => false, fun _ => rfl⟩

/-- `sem_t`, which counts up to `SEM_VALUE_MAX`. -/
def countingSemaphore (semValueMax : Nat) (h : 0 < semValueMax) : Wakeup Nat where
  ready n := decide (0 < n)
  post n := min (n + 1) semValueMax
  take n := n - 1
  ready_post n := decide_eq_true (Nat.lt_min.mpr ⟨Nat.succ_pos n, h⟩)

/-- Where the worker is in `worker_entry` and `worker_drain`. -/
inductive WorkerPc where
  /-- Before the test of the outer loop. -/
  | top
  | waiting
  /-- Behind the wait, before the second test of `g_stop`. -/
  | woken
  /-- Before the load of `g_pending_vblanks`. -/
  | load
  | sub
  | elapsed
  | tick (ns : BitVec 64)
  /-- Behind the tick, before the last test of `g_stop`. -/
  | ticked
  | exited
  deriving DecidableEq

/-- What a thread asks of the worker. -/
inductive WorkerCall where
  | signal (ns : BitVec 64)
  | wake
  | stop
  deriving DecidableEq

/-- Where a thread is in its call, which found `g_started` set. -/
inductive CallerPc where
  | idle
  | storing (ns : BitVec 64)
  | adding
  | posting
  | stopping
  | stopPosting
  | joining
  deriving DecidableEq

def WorkerCall.entry : WorkerCall → CallerPc
  | .signal ns => .storing ns
  | .wake => .adding
  | .stop => .stopping

/-- The variables of `worker.c`; `accepted` counts the additions to the counter and `ticks` lists the
calls of `g_tick`. -/
structure WorkerSys (ι ω : Type*) where
  gStarted : Bool := true
  gStop : Bool := false
  gPendingVblanks : BitVec 32 := 0
  gLastElapsedNs : BitVec 64 := 0
  wakeup : ω
  worker : WorkerPc := .top
  callers : ι → CallerPc := fun _ => .idle
  accepted : Nat := 0
  ticks : List (BitVec 64) := []

inductive WorkerEvent (ι : Type*) where
  | worker
  | call (i : ι) (c : WorkerCall)
  | caller (i : ι)
  deriving DecidableEq

namespace WorkerSys

variable {ι ω : Type*} [DecidableEq ι] (k : Wakeup ω)

def setCaller (s : WorkerSys ι ω) (i : ι) (pc : CallerPc) : WorkerSys ι ω :=
  { s with callers := Function.update s.callers i pc }

/-- One step of the worker; the wait blocks until the primitive is ready, and it does not fail. -/
def stepWorker (s : WorkerSys ι ω) : Option (WorkerSys ι ω) :=
  match s.worker with
  | .top => some { s with worker := if s.gStop then .exited else .waiting }
  | .waiting =>
    if k.ready s.wakeup then some { s with wakeup := k.take s.wakeup, worker := .woken } else none
  | .woken => some { s with worker := if s.gStop then .exited else .load }
  | .load => some { s with worker := if s.gPendingVblanks = 0 then .top else .sub }
  | .sub => some { s with gPendingVblanks := s.gPendingVblanks - 1, worker := .elapsed }
  | .elapsed => some { s with worker := .tick s.gLastElapsedNs }
  | .tick ns => some { s with ticks := s.ticks ++ [ns], worker := .ticked }
  | .ticked => some { s with worker := if s.gStop then .top else .load }
  | .exited => none

/-- One step of a thread inside its call; the join blocks until the worker has exited. What other
threads still do to the primitive that is destroyed then is left out. -/
def stepCaller (s : WorkerSys ι ω) (i : ι) : Option (WorkerSys ι ω) :=
  match s.callers i with
  | .idle => none
  | .storing ns => some ({ s with gLastElapsedNs := ns }.setCaller i .adding)
  | .adding =>
    some ({ s with gPendingVblanks := s.gPendingVblanks + 1,
                   accepted := s.accepted + 1 }.setCaller i .posting)
  | .posting => some ({ s with wakeup := k.post s.wakeup }.setCaller i .idle)
  | .stopping => some ({ s with gStop := true }.setCaller i .stopPosting)
  | .stopPosting => some ({ s with wakeup := k.post s.wakeup }.setCaller i .joining)
  | .joining =>
    if s.worker = .exited then some ({ s with gStarted := false }.setCaller i .idle) else none

def step (s : WorkerSys ι ω) : WorkerEvent ι → Option (WorkerSys ι ω)
  | .worker => s.stepWorker k
  | .call i c =>
    if s.callers i = .idle then some (if s.gStarted then s.setCaller i c.entry else s) else none
  | .caller i => s.stepCaller k i

/-- An addition leaves fewer than 2^32 accepted signals without their tick. -/
def Spare (s : WorkerSys ι ω) : WorkerEvent ι → Prop
  | .caller i => s.callers i = .adding → s.accepted + 1 < s.ticks.length + 2 ^ 32
  | _ => True

instance (s : WorkerSys ι ω) : DecidablePred (Spare s)
  | .caller i => inferInstanceAs (Decidable (s.callers i = .adding → _))
  | .worker => isTrue trivial
  | .call _ _ => isTrue trivial

/-- The worker waits, nothing will let it go, and no thread is in a call. -/
structure Quiet (s : WorkerSys ι ω) : Prop where
  waits : s.worker = .waiting
  asleep : k.ready s.wakeup = false
  idle (i : ι) : s.callers i = .idle

/-- No accepted signal is lost or served twice, and a stop request ends the loop. -/
structure Serves (s : WorkerSys ι ω) : Prop where
  /-- The tick of a number starts after the signal of that number. -/
  paired : s.ticks.length ≤ s.accepted
  settled : Quiet k s → s.ticks.length = s.accepted
  /-- With a signal to serve, the worker can go on unless a thread is about to post. -/
  awake : s.gStop = false → s.ticks.length < s.accepted →
    (s.stepWorker k).isSome ∨ ∃ i, s.callers i = .posting
  /-- Enough steps of the worker serve every signal accepted so far. -/
  followed (fs : List (WorkerEvent ι)) (s' : WorkerSys ι ω) : Meets (step k) Spare s fs →
    run (step k) s fs = some s' → s'.gStop = false →
    5 * (s.accepted - s.ticks.length) + 2 ≤ fs.count .worker → s.accepted ≤ s'.ticks.length
  /-- Until it has left, a stopped worker can go on unless its stopper is about to post. -/
  released : s.gStop = true → s.worker ≠ .exited →
    (s.stepWorker k).isSome ∨ ∃ i, s.callers i = .stopPosting
  /-- A few steps of the stopped worker take it out of its loop. -/
  stopped (fs : List (WorkerEvent ι)) (s' : WorkerSys ι ω) : s.gStop = true →
    run (step k) s fs = some s' → 6 ≤ fs.count .worker → s'.worker = .exited

/-! ## The invariant -/

/-- A signal is off the counter and its tick has not started. -/
def taken (s : WorkerSys ι ω) : Nat :=
  match s.worker with
  | .elapsed => 1
  | .tick _ => 1
  | _ => 0

structure Inv (s : WorkerSys ι ω) : Prop where
  account : s.ticks.length + s.taken + s.gPendingVblanks.toNat = s.accepted
  loaded : s.worker = .sub → s.gPendingVblanks ≠ 0
  alert : s.gStop = false → s.worker = .top ∨ s.worker = .waiting → s.gPendingVblanks ≠ 0 →
    k.ready s.wakeup = true ∨ ∃ i, s.callers i = .posting
  stopping : s.gStop = true → s.worker = .waiting →
    k.ready s.wakeup = true ∨ ∃ i, s.callers i = .stopPosting
  left : s.worker = .exited → s.gStop = true

variable {k} {s s' : WorkerSys ι ω}

omit [DecidableEq ι] in
theorem inv_start (w : ω) : Inv k ({ wakeup := w } : WorkerSys ι ω) :=
  ⟨rfl, nofun, fun _ _ h => absurd rfl h, nofun, nofun⟩

omit [DecidableEq ι] in
theorem Inv.workerStep (h : Inv k s) (hs : s.stepWorker k = some s') : Inv k s' := by
  have hacc := h.account
  unfold taken at hacc
  unfold WorkerSys.stepWorker at hs
  cases hpc : s.worker <;> simp only [hpc] at hs hacc
  case top =>
    cases hs
    split
    case isTrue hstop => exact ⟨hacc, nofun, nofun, nofun, fun _ => hstop⟩
    case isFalse hstop =>
      exact ⟨hacc, nofun, fun h0 _ => h.alert h0 (.inl hpc), fun h1 => absurd h1 hstop, nofun⟩
  case waiting =>
    obtain ⟨-, hs⟩ := Option.ite_none_right_eq_some.mp hs
    cases hs
    exact ⟨hacc, nofun, nofun, nofun, nofun⟩
  case woken =>
    cases hs
    split
    case isTrue hstop => exact ⟨hacc, nofun, nofun, nofun, fun _ => hstop⟩
    case isFalse => exact ⟨hacc, nofun, nofun, nofun, nofun⟩
  case load =>
    cases hs
    split
    case isTrue hp => exact ⟨hacc, nofun, fun _ _ h0 => absurd hp h0, nofun, nofun⟩
    case isFalse hp => exact ⟨hacc, fun _ => hp, nofun, nofun, nofun⟩
  case sub =>
    cases hs
    have hp : s.gPendingVblanks.toNat ≠ 0 := fun h0 => h.loaded hpc (BitVec.eq_of_toNat_eq h0)
    have hsub : (s.gPendingVblanks - 1).toNat = s.gPendingVblanks.toNat - 1 :=
      BitVec.toNat_sub_of_le (BitVec.le_def.mpr (Nat.one_le_iff_ne_zero.mpr hp))
    refine ⟨?_, nofun, nofun, nofun, nofun⟩
    change s.ticks.length + 1 + (s.gPendingVblanks - 1).toNat = s.accepted
    omega
  case elapsed =>
    cases hs
    exact ⟨hacc, nofun, nofun, nofun, nofun⟩
  case tick ns =>
    cases hs
    refine ⟨?_, nofun, nofun, nofun, nofun⟩
    change (s.ticks ++ [ns]).length + 0 + s.gPendingVblanks.toNat = s.accepted
    rw [List.length_append, List.length_singleton]
    exact hacc
  case ticked =>
    cases hs
    split
    case isTrue hstop =>
      exact ⟨hacc, nofun, fun h0 => absurd (hstop.symm.trans h0) nofun, nofun, nofun⟩
    case isFalse => exact ⟨hacc, nofun, nofun, nofun, nofun⟩
  case exited => cases hs

theorem exists_setCaller {i : ι} {pc pc' : CallerPc} (hi : s.callers i ≠ pc)
    (h : ∃ j, s.callers j = pc) : ∃ j, (s.setCaller i pc').callers j = pc := by
  obtain ⟨j, hj⟩ := h
  have hij : j ≠ i := fun e => hi (e ▸ hj)
  exact ⟨j, (Function.update_of_ne hij ..).trans hj⟩

theorem Inv.setCaller (h : Inv k s) {i : ι} (hpost : s.callers i ≠ .posting)
    (hstop : s.callers i ≠ .stopPosting) (pc : CallerPc) : Inv k (s.setCaller i pc) where
  account := h.account
  loaded := h.loaded
  alert h0 hpc hp := (h.alert h0 hpc hp).imp_right (exists_setCaller hpost)
  stopping h1 hpc := (h.stopping h1 hpc).imp_right (exists_setCaller hstop)
  left := h.left

theorem Inv.post (h : Inv k s) (i : ι) (pc : CallerPc) :
    Inv k ({ s with wakeup := k.post s.wakeup }.setCaller i pc) where
  account := h.account
  loaded := h.loaded
  alert _ _ _ := .inl (k.ready_post _)
  stopping _ _ := .inl (k.ready_post _)
  left := h.left

theorem Inv.callerStep {i : ι} (h : Inv k s) (hok : Spare s (.caller i))
    (hs : s.stepCaller k i = some s') : Inv k s' := by
  unfold WorkerSys.stepCaller at hs
  cases hpc : s.callers i <;> simp only [hpc] at hs
  case idle => cases hs
  case storing ns =>
    cases hs
    have h' : Inv k { s with gLastElapsedNs := ns } := { h with }
    exact h'.setCaller (by simp [hpc]) (by simp [hpc]) _
  case adding =>
    cases hs
    have hspare := hok hpc
    have hacc := h.account
    have hadd : (s.gPendingVblanks + 1).toNat = s.gPendingVblanks.toNat + 1 :=
      (BitVec.toNat_add ..).trans (Nat.mod_eq_of_lt (by change _ + 1 < 2 ^ 32; omega))
    refine ⟨?_, fun _ h0 => ?_, fun _ _ _ => .inr ⟨i, Function.update_self ..⟩,
      fun h1 hw => (h.stopping h1 hw).imp_right (exists_setCaller (by simp [hpc])), h.left⟩
    · change s.ticks.length + s.taken + (s.gPendingVblanks + 1).toNat = s.accepted + 1
      omega
    · have hzero := congrArg BitVec.toNat h0
      change (s.gPendingVblanks + 1).toNat = 0 at hzero
      omega
  case posting =>
    cases hs
    exact h.post i _
  case stopping =>
    cases hs
    exact ⟨h.account, h.loaded, nofun, fun _ _ => .inr ⟨i, Function.update_self ..⟩, fun _ => rfl⟩
  case stopPosting =>
    cases hs
    exact h.post i _
  case joining =>
    obtain ⟨-, hs⟩ := Option.ite_none_right_eq_some.mp hs
    cases hs
    have h' : Inv k { s with gStarted := false } := { h with }
    exact h'.setCaller (by simp [hpc]) (by simp [hpc]) _

theorem Inv.event {e : WorkerEvent ι} (h : Inv k s) (hok : Spare s e)
    (hs : s.step k e = some s') : Inv k s' := by
  cases e with
  | worker => exact h.workerStep hs
  | caller i => exact h.callerStep hok hs
  | call i c =>
    obtain ⟨hidle, hs⟩ := Option.ite_none_right_eq_some.mp hs
    cases hs
    split
    · exact h.setCaller (by simp [hidle]) (by simp [hidle]) _
    · exact h

/-! ## Progress -/

/-- What no step takes back. -/
structure Grows (s s' : WorkerSys ι ω) : Prop where
  ticks : s.ticks.length ≤ s'.ticks.length
  accepted : s.accepted ≤ s'.accepted
  stop : s.gStop = true → s'.gStop = true

theorem stepCaller_grows {i : ι} (hs : s.stepCaller k i = some s') :
    Grows s s' ∧ s'.worker = s.worker ∧ s'.ticks = s.ticks := by
  unfold WorkerSys.stepCaller at hs
  cases hpc : s.callers i <;> simp only [hpc] at hs
  case idle => cases hs
  case storing | posting | stopPosting => cases hs; exact ⟨⟨Nat.le_refl _, Nat.le_refl _, id⟩, rfl, rfl⟩
  case adding => cases hs; exact ⟨⟨Nat.le_refl _, Nat.le_succ _, id⟩, rfl, rfl⟩
  case stopping => cases hs; exact ⟨⟨Nat.le_refl _, Nat.le_refl _, fun _ => rfl⟩, rfl, rfl⟩
  case joining =>
    obtain ⟨-, hs⟩ := Option.ite_none_right_eq_some.mp hs
    cases hs
    exact ⟨⟨Nat.le_refl _, Nat.le_refl _, id⟩, rfl, rfl⟩

theorem step_others {e : WorkerEvent ι} (he : e ≠ .worker) (hs : s.step k e = some s') :
    Grows s s' ∧ s'.worker = s.worker ∧ s'.ticks = s.ticks := by
  cases e with
  | worker => exact absurd rfl he
  | caller i => exact stepCaller_grows hs
  | call i c =>
    obtain ⟨-, hs⟩ := Option.ite_none_right_eq_some.mp hs
    cases hs
    split <;> exact ⟨⟨Nat.le_refl _, Nat.le_refl _, id⟩, rfl, rfl⟩

/-- How far the worker is, counted in its steps; a round of the drain is five of them. -/
def served (s : WorkerSys ι ω) : Nat :=
  5 * s.ticks.length + match s.worker with
    | .top => 0
    | .waiting => 1
    | .woken => 2
    | .load => 3
    | .sub => 4
    | .elapsed => 5
    | .tick _ => 6
    | .ticked => 2
    | .exited => 0

/-- The most steps that a stopped worker still takes. -/
def stepsLeft (s : WorkerSys ι ω) : Nat :=
  match s.worker with
  | .exited => 0
  | .top => 1
  | .woken => 1
  | .waiting => 2
  | .ticked => 2
  | .tick _ => 3
  | .elapsed => 4
  | .sub => 5
  | .load => 6

omit [DecidableEq ι] in
theorem stepWorker_grows (hs : s.stepWorker k = some s') : Grows s s' := by
  unfold WorkerSys.stepWorker at hs
  cases hpc : s.worker <;> simp only [hpc] at hs
  case waiting =>
    obtain ⟨-, hs⟩ := Option.ite_none_right_eq_some.mp hs
    cases hs
    exact ⟨Nat.le_refl _, Nat.le_refl _, id⟩
  case tick ns => cases hs; exact ⟨by simp, Nat.le_refl _, id⟩
  case exited => cases hs
  all_goals cases hs; exact ⟨Nat.le_refl _, Nat.le_refl _, id⟩

theorem step_grows {e : WorkerEvent ι} (hs : s.step k e = some s') : Grows s s' := by
  by_cases he : e = .worker
  · subst he
    exact stepWorker_grows hs
  · exact (step_others he hs).1

variable {fs : List (WorkerEvent ι)}

theorem run_grows (hrun : run (step k) s fs = some s') : Grows s s' :=
  run_invariant (fun _ _ _ h _ hs => have h' := step_grows hs
      ⟨Nat.le_trans h.ticks h'.ticks, Nat.le_trans h.accepted h'.accepted, h'.stop ∘ h.stop⟩)
    ⟨Nat.le_refl _, Nat.le_refl _, id⟩ (.of_forall (fun _ _ => trivial) ..) hrun

omit [DecidableEq ι] in
/-- With a signal to serve, each step of the worker brings the tick nearer. -/
theorem Inv.stepWorker_served (h : Inv k s) (hstop : s.gStop = false)
    (hlt : s.ticks.length < s.accepted) (hs : s.stepWorker k = some s') : s.served + 1 ≤ s'.served := by
  have hacc := h.account
  unfold taken at hacc
  unfold served
  unfold WorkerSys.stepWorker at hs
  cases hpc : s.worker <;> simp only [hpc] at hs hacc
  case top | woken | ticked => cases hs; simp [hstop]
  case waiting =>
    obtain ⟨-, hs⟩ := Option.ite_none_right_eq_some.mp hs
    cases hs
    exact Nat.le_refl _
  case load =>
    have hp : s.gPendingVblanks ≠ 0 := by
      intro h0
      rw [h0] at hacc
      change s.ticks.length + 0 + 0 = s.accepted at hacc
      omega
    rw [if_neg hp] at hs
    cases hs
    exact Nat.le_refl _
  case sub | elapsed => cases hs; exact Nat.le_refl _
  case tick ns =>
    cases hs
    simp only [List.length_append, List.length_singleton]
    omega
  case exited => cases hs

omit [DecidableEq ι] in
theorem stepWorker_stepsLeft (hstop : s.gStop = true) (hs : s.stepWorker k = some s') :
    s'.stepsLeft + 1 ≤ s.stepsLeft := by
  unfold stepsLeft
  unfold WorkerSys.stepWorker at hs
  cases hpc : s.worker <;> simp only [hpc] at hs
  case top | woken | ticked => cases hs; simp [hstop]
  case waiting =>
    obtain ⟨-, hs⟩ := Option.ite_none_right_eq_some.mp hs
    cases hs
    exact Nat.le_refl _
  case load =>
    split at hs <;> cases hs
    · exact Nat.le_add_left 2 4
    · exact Nat.le_refl _
  case sub | elapsed | tick => cases hs; exact Nat.le_refl _
  case exited => cases hs

theorem run_stepsLeft (hstop : s.gStop = true) (hrun : run (step k) s fs = some s') :
    s'.stepsLeft + fs.count .worker ≤ s.stepsLeft := by
  induction fs generalizing s with
  | nil =>
    cases hrun
    exact Nat.le_refl _
  | cons e fs ih =>
    rw [run_cons, Option.bind_eq_some_iff] at hrun
    obtain ⟨s₁, h₁, hrest⟩ := hrun
    have hle := ih ((step_grows h₁).stop hstop) hrest
    by_cases he : e = .worker
    · subst he
      have hone := stepWorker_stepsLeft hstop h₁
      rw [List.count_cons_self]
      omega
    · have hsame : s₁.stepsLeft = s.stepsLeft := by
        unfold stepsLeft
        rw [(step_others he h₁).2.1]
      rw [List.count_cons_of_ne he]
      omega

theorem Inv.run_served {fs : List (WorkerEvent ι)} (h : Inv k s) (hok : Meets (step k) Spare s fs)
    (hrun : run (step k) s fs = some s') (hstop : s'.gStop = false) {n : Nat}
    (hn : n ≤ s.accepted) : n ≤ s'.ticks.length ∨ s.served + fs.count .worker ≤ s'.served := by
  induction fs generalizing s with
  | nil =>
    cases hrun
    exact .inr (Nat.le_refl _)
  | cons e fs ih =>
    have hgrow := run_grows hrun
    rcases Nat.lt_or_ge s.ticks.length n with hlt | hge
    · rw [run_cons, Option.bind_eq_some_iff] at hrun
      obtain ⟨s₁, h₁, hrest⟩ := hrun
      have hrun' := ih (h.event hok.1 h₁) (hok.2 s₁ h₁) hrest (Nat.le_trans hn (step_grows h₁).accepted)
      refine hrun'.imp_right fun hle => ?_
      by_cases he : e = .worker
      · subst he
        have hgo : s.gStop = false := Bool.eq_false_iff.mpr fun h1 => by simp [hgrow.stop h1] at hstop
        have hone := h.stepWorker_served hgo (Nat.lt_of_lt_of_le hlt hn) h₁
        rw [List.count_cons_self]
        omega
      · have hsame : s₁.served = s.served := by
          unfold served
          rw [(step_others he h₁).2.1, (step_others he h₁).2.2]
        rw [List.count_cons_of_ne he]
        omega
    · exact .inl (Nat.le_trans hge hgrow.ticks)

/-! ## Every run -/

omit [DecidableEq ι] in
theorem stepWorker_isSome (hexit : s.worker ≠ .exited)
    (hwait : s.worker = .waiting → k.ready s.wakeup = true) : (s.stepWorker k).isSome := by
  unfold WorkerSys.stepWorker
  cases hpc : s.worker <;> try rfl
  case waiting => simp [hwait hpc]
  case exited => exact absurd hpc hexit

theorem Inv.serves (h : Inv k s) : Serves k s where
  paired := by
    have hacc := h.account
    omega
  settled hq := by
    have hacc := h.account
    have htaken : s.taken = 0 := by
      unfold taken
      rw [hq.waits]
    have hp : s.gPendingVblanks = 0 := by
      by_contra h0
      have hready : k.ready s.wakeup = true := by
        cases hstop : s.gStop with
        | false =>
          refine (h.alert hstop (.inr hq.waits) h0).resolve_right ?_
          rintro ⟨i, hi⟩
          exact absurd ((hq.idle i).symm.trans hi) nofun
        | true =>
          refine (h.stopping hstop hq.waits).resolve_right ?_
          rintro ⟨i, hi⟩
          exact absurd ((hq.idle i).symm.trans hi) nofun
      exact absurd (hq.asleep.symm.trans hready) nofun
    rw [htaken, hp] at hacc
    exact hacc
  awake hstop hlt := by
    by_cases hready : s.worker = .waiting → k.ready s.wakeup = true
    · refine .inl (stepWorker_isSome (fun he => ?_) hready)
      simp [h.left he] at hstop
    · obtain ⟨hw, hready⟩ := Classical.not_imp.mp hready
      refine .inr ((h.alert hstop (.inr hw) fun h0 => ?_).resolve_left hready)
      have hacc := h.account
      unfold taken at hacc
      rw [hw, h0] at hacc
      change s.ticks.length + 0 + 0 = s.accepted at hacc
      omega
  followed fs s' hok hrun hstop hcount := by
    refine (h.run_served hok hrun hstop (Nat.le_refl _)).elim id fun hle => ?_
    have hs : 5 * s.ticks.length ≤ s.served := Nat.le_add_right ..
    have hs' : s'.served ≤ 5 * s'.ticks.length + 6 := by
      unfold served
      cases s'.worker <;> simp
    omega
  released hstop hexit := by
    by_cases hready : s.worker = .waiting → k.ready s.wakeup = true
    · exact .inl (stepWorker_isSome hexit hready)
    · obtain ⟨hw, hready⟩ := Classical.not_imp.mp hready
      exact .inr ((h.stopping hstop hw).resolve_left hready)
  stopped fs s' hstop hrun hcount := by
    have hleft := run_stepsLeft hstop hrun
    have hmost : s.stepsLeft ≤ 6 := by
      unfold stepsLeft
      cases s.worker <;> simp
    have hzero : s'.stepsLeft = 0 := by omega
    unfold stepsLeft at hzero
    cases hpc : s'.worker <;> rw [hpc] at hzero <;> first | rfl | cases hzero

/-- The worker of every run that leaves the counter room serves its signals. -/
theorem run_worker_serves (w : ω) {es : List (WorkerEvent ι)}
    (hok : Meets (step k) Spare { wakeup := w } es) (hrun : run (step k) { wakeup := w } es = some s) :
    Serves k s :=
  (run_invariant (fun _ _ _ h hok hs => Inv.event h hok hs) (inv_start w) hok hrun).serves

theorem run_worker_serves_signal :
    ∃ s : WorkerSys Bool Bool, run (step autoResetEvent) { wakeup := false }
        [.call true (.signal 5), .caller true, .caller true, .worker, .caller true] = some s ∧
      Serves autoResetEvent s :=
  have hok : Meets (step autoResetEvent) Spare { wakeup := false } [.call true (.signal 5),
      .caller true, .caller true, .worker, .caller true] := by decide
  ⟨_, rfl, run_worker_serves false hok rfl⟩

/-! ## A counter that wraps -/

theorem run_wake {i : ι} (hidle : s.callers i = .idle) (hstart : s.gStarted = true) :
    run (step k) s [.call i .wake, .caller i, .caller i] =
      some { s with gPendingVblanks := s.gPendingVblanks + 1, accepted := s.accepted + 1,
                    wakeup := k.post s.wakeup } := by
  have hcallers : Function.update s.callers i .idle = s.callers := by
    rw [← hidle, Function.update_eq_self]
  simp [run, step, WorkerSys.stepCaller, hidle, hstart, setCaller, WorkerCall.entry, hcallers]

theorem run_wakes {s : WorkerSys ι Bool} {i : ι} (hidle : s.callers i = .idle)
    (hstart : s.gStarted = true) (n : Nat) :
    run (step autoResetEvent) s (List.replicate (n + 1) [.call i .wake, .caller i, .caller i]).flatten =
      some { s with gPendingVblanks := s.gPendingVblanks + BitVec.ofNat 32 (n + 1),
                    accepted := s.accepted + (n + 1), wakeup := true } := by
  induction n generalizing s with
  | zero => exact run_wake hidle hstart
  | succ n ih =>
    rw [List.replicate_succ, List.flatten_cons, run_append, run_wake hidle hstart]
    have hrest := @ih { s with gPendingVblanks := s.gPendingVblanks + 1, accepted := s.accepted + 1,
                               wakeup := true } hidle hstart
    refine hrest.trans ?_
    have hsum : s.gPendingVblanks + 1 + BitVec.ofNat 32 (n + 1) =
        s.gPendingVblanks + BitVec.ofNat 32 (n + 1 + 1) := by
      rw [BitVec.add_assoc, BitVec.add_comm 1, BitVec.ofNat_add (n + 1)]
      rfl
    simp only [hsum, Nat.add_assoc, Nat.add_comm 1]

/-- 2^32 calls while the worker does not run leave the counter at zero. -/
theorem signals_wrapped :
    ∃ (es : List (WorkerEvent Unit)) (s : WorkerSys Unit Bool),
      run (step autoResetEvent) { wakeup := false } es = some s ∧ Quiet autoResetEvent s ∧
        s.gStop = false ∧ s.accepted = 2 ^ 32 ∧ s.ticks = [] := by
  refine ⟨(List.replicate (4294967295 + 1) [.call () .wake, .caller (), .caller ()]).flatten ++
      List.replicate 5 .worker,
    { wakeup := false, worker := .waiting, accepted := 2 ^ 32 }, ?_,
    ⟨rfl, rfl, fun _ => rfl⟩, rfl, rfl, rfl⟩
  rw [run_append, run_wakes rfl rfl]
  rfl

end WorkerSys

end Microgarbage.Mgapi
