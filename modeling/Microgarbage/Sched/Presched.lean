import Microgarbage.Lib.Transition

/-!
# Blocking and waking a preemptive task

One task of the preemptive scheduler, cut at its atomic accesses: its own `presched_block` and
`presched_block_timeout`, any number of threads in `presched_wake`, the systick, and the threads
that hand the CPU on. Every thread takes its steps in any order with the others. The two platforms
differ in how the CPU is taken and given: POSIX parks on a semaphore and preempts by a signal whose
handler parks, Windows counts suspensions.
-/

namespace Microgarbage.Presched

open Lib
open Function (update)

inductive Platform where
  | posix
  | windows
  deriving DecidableEq

inductive TaskState where
  | ready
  | running
  | blocked
  | done
  deriving DecidableEq

/-- `presched_block`, or `presched_block_timeout` with its number of ticks. -/
inductive Call where
  | block
  | blockTimeout (ticks : BitVec 32)
  deriving DecidableEq

/-- Where the task's own thread is. -/
inductive Pc where
  /-- Before its first grant. -/
  | starting
  /-- In its body, outside the calls. -/
  | body
  | called (c : Call)
  /-- `pending_wake` was clear. -/
  | checked (c : Call)
  /-- The tick counter is loaded. -/
  | clocked (ticks : BitVec 32) (now : BitVec 64)
  /-- `wake_deadline` is stored. -/
  | armed (ticks : BitVec 32)
  /-- `TASK_BLOCKED` is stored. -/
  | blocking (c : Call)
  /-- The CPU is handed on. -/
  | parked (c : Call)
  | finished
  deriving DecidableEq

/-- A thread in `presched_wake`. `began` is the number of the task's call when it entered. -/
inductive Waker where
  | idle
  | called (began : Nat)
  /-- Its exchange made the task ready. -/
  | claimed (began : Nat)
  /-- Its exchange failed. -/
  | missed (began : Nat)
  deriving DecidableEq

/-- A thread that hands the CPU on: the systick, `hand_off_from`, `presched_run`. -/
inductive Grant where
  | idle
  /-- `next_ready` returned the task. -/
  | chose
  /-- `TASK_RUNNING` is stored. -/
  | granting
  deriving DecidableEq

/-- The systick's look at the task's deadline, and at the task as the current one. -/
inductive Systick where
  | idle
  | ticked (now : BitVec 64)
  /-- The deadline has passed. -/
  | due
  /-- The task was seen blocked. -/
  | expiring
  /-- `wake_deadline` is cleared. -/
  | cleared
  /-- The expiry loop is over. -/
  | choosing
  /-- The task was seen running; another one is next. -/
  | preempting
  /-- POSIX: `TASK_READY` is stored. Windows: the thread is suspended. -/
  | stopping
  deriving DecidableEq

structure TaskSys where
  platform : Platform
  state : TaskState
  pendingWake : Bool
  wakeDeadline : BitVec 64
  ticks : BitVec 64
  /-- POSIX: the value of the run gate. -/
  gate : Nat
  /-- POSIX: `SIGUSR1` is pending, and its handler waits for the gate. -/
  signal : Bool
  handler : Bool
  /-- Windows: the suspend count. -/
  suspended : Nat
  pc : Pc
  wakers : Nat → Waker
  grants : Nat → Grant
  systick : Systick
  /-- How many calls the task has begun. -/
  calls : Nat
  /-- A wake that was pending when the last call began, or began after it, is complete. -/
  heard : Bool
  /-- How many wakes have made the task ready or set its sticky flag. -/
  woken : Nat
  /-- The last call has found the sticky flag, or a wake has made the task ready in it. -/
  reached : Bool
  /-- How often an untimed block has returned, and whether one did that no wake had reached. -/
  returns : Nat
  unreached : Bool

/-- `presched_add_task`, and on Windows `CREATE_SUSPENDED`. -/
def TaskSys.init (platform : Platform) : TaskSys where
  platform := platform
  state := .ready
  pendingWake := false
  wakeDeadline := 0
  ticks := 0
  gate := 0
  signal := false
  handler := false
  suspended := 1
  pc := .starting
  wakers := fun _ => .idle
  grants := fun _ => .idle
  systick := .idle
  calls := 0
  heard := false
  woken := 0
  reached := false
  returns := 0
  unreached := false

inductive Event where
  /-- The task begins its body, calls, takes its next step in a call, returns from its body. -/
  | start
  | call (c : Call)
  | task
  | exit
  /-- Thread `i` enters `presched_wake`, and takes its next step. -/
  | wake (i : Nat)
  | waker (i : Nat)
  /-- Thread `i` finds the task in `next_ready`, and takes its next step. -/
  | choose (i : Nat)
  | grant (i : Nat)
  /-- A tick; the systick's next step; its decision to preempt the task, or to leave it. -/
  | tick
  | systick
  | preempt
  | pass
  /-- `SIGUSR1` arrives; its handler gets the gate. -/
  | deliver
  | resume

namespace TaskSys

variable (s : TaskSys)

/-- The task's thread executes. -/
def canRun : Bool :=
  match s.platform with
  | .posix => !s.handler
  | .windows => s.suspended == 0

/-- The wait in which a thread without the CPU stands. -/
def takeCpu : Option TaskSys :=
  if s.canRun then
    match s.platform with
    | .posix => if 0 < s.gate then some { s with gate := s.gate - 1 } else none
    | .windows => some s
  else none

/-- The task leaves its call. -/
def leave (c : Call) : TaskSys :=
  { s with
    pc := .body
    returns := if c = .block then s.returns + 1 else s.returns
    unreached := s.unreached || decide (c = .block) && !s.reached }

/-- The task's next step in its call. -/
def taskStep : Option TaskSys :=
  match s.pc with
  | .called c =>
    if s.pendingWake then some ({ s with pendingWake := false, reached := true }.leave c)
    else some { s with pc := .checked c }
  | .checked .block => some { s with state := .blocked, pc := .blocking .block }
  | .checked (.blockTimeout ticks) => some { s with pc := .clocked ticks s.ticks }
  | .clocked ticks now =>
    some { s with wakeDeadline := now + ticks.setWidth 64, pc := .armed ticks }
  | .armed ticks => some { s with state := .blocked, pc := .blocking (.blockTimeout ticks) }
  | .blocking c =>
    match s.platform with
    | .posix => some { s with pc := .parked c }
    | .windows => some { s with suspended := s.suspended + 1, pc := .parked c }
  | .parked c => s.takeCpu.map fun s => s.leave c
  | _ => none

/-- The next step of a thread in `presched_wake`. -/
def wakerStep (i : Nat) : Option TaskSys :=
  match s.wakers i with
  | .idle => none
  | .called began =>
    if s.state = .blocked then
      some { s with
        state := .ready
        wakers := update s.wakers i (.claimed began)
        woken := s.woken + 1
        reached := true }
    else some { s with wakers := update s.wakers i (.missed began) }
  | .claimed began =>
    some { s with
      wakeDeadline := 0
      wakers := update s.wakers i .idle
      heard := s.heard || began == s.calls }
  | .missed began =>
    some { s with
      pendingWake := true
      wakers := update s.wakers i .idle
      woken := s.woken + 1
      heard := s.heard || began == s.calls }

def grantStep (i : Nat) : Option TaskSys :=
  match s.grants i with
  | .idle => none
  | .chose =>
    some { s with state := .running, grants := update s.grants i .granting }
  | .granting =>
    let s := { s with grants := update s.grants i .idle }
    match s.platform with
    | .posix => some { s with gate := s.gate + 1 }
    | .windows => some { s with suspended := s.suspended - 1 }

def systickStep : Option TaskSys :=
  match s.systick with
  | .ticked now =>
    if s.wakeDeadline ≠ 0 ∧ s.wakeDeadline ≤ now then some { s with systick := .due }
    else some { s with systick := .choosing }
  | .due => some { s with systick := if s.state = .blocked then .expiring else .choosing }
  | .expiring => some { s with wakeDeadline := 0, systick := .cleared }
  | .cleared => some { s with state := .ready, systick := .choosing }
  | .preempting =>
    match s.platform with
    | .posix => some { s with state := .ready, systick := .stopping }
    | .windows => some { s with suspended := s.suspended + 1, systick := .stopping }
  | .stopping =>
    match s.platform with
    | .posix => some { s with signal := true, systick := .idle }
    | .windows => some { s with state := .ready, systick := .idle }
  | _ => none

def step : Event → Option TaskSys
  | .start => if s.pc = .starting then s.takeCpu.map fun s => { s with pc := .body } else none
  | .call c =>
    if s.pc = .body ∧ s.canRun then
      if c = .blockTimeout 0 then some s
      else
        some { s with
          pc := .called c
          calls := s.calls + 1
          heard := s.pendingWake
          reached := false }
    else none
  | .task => if s.canRun then s.taskStep else none
  | .exit =>
    if s.pc = .body ∧ s.canRun then some { s with state := .done, pc := .finished } else none
  | .wake i =>
    if s.wakers i = .idle then
      some { s with wakers := update s.wakers i (.called s.calls) }
    else none
  | .waker i => s.wakerStep i
  | .choose i =>
    if s.grants i = .idle ∧ (s.state = .ready ∨ s.state = .running) then
      some { s with grants := update s.grants i .chose }
    else none
  | .grant i => s.grantStep i
  | .tick =>
    if s.systick = .idle then
      some { s with ticks := s.ticks + 1, systick := .ticked (s.ticks + 1) }
    else none
  | .systick => s.systickStep
  | .preempt =>
    if s.systick = .choosing then
      some { s with systick := if s.state = .running then .preempting else .idle }
    else none
  | .pass => if s.systick = .choosing then some { s with systick := .idle } else none
  | .deliver =>
    if s.signal ∧ s.handler = false then
      some { s with signal := false, handler := s.state ≠ .done }
    else none
  | .resume =>
    if s.handler ∧ 0 < s.gate then some { s with gate := s.gate - 1, handler := false } else none

/-! ## What the calls promise -/

/-- No wake is lost, and no untimed block returns without one of its own. -/
structure Sound (s : TaskSys) : Prop where
  heard : s.heard = true → s.state ≠ .blocked
  returns : s.unreached = false ∧ s.returns ≤ s.woken

/-- The task has found no sticky wake and is not woken yet. -/
def Deaf : Prop :=
  s.state = .blocked ∨ (∃ c, s.pc = .checked c) ∨ (∃ ticks now, s.pc = .clocked ticks now) ∨
    ∃ ticks, s.pc = .armed ticks

/-- The task's next step is to store `TASK_BLOCKED`. -/
def Blocks : Prop := s.pc = .checked .block ∨ ∃ ticks, s.pc = .armed ticks

/-- No CPU grant of the task is under way. -/
def Ungranted : Prop := s.gate = 0 ∧ ∀ i, s.grants i ≠ .granting

/-- The systick's next step is to store `TASK_READY` over the state it preempts. -/
def Preempts : Prop :=
  match s.platform with
  | .posix => s.systick = .preempting
  | .windows => s.systick = .stopping

end TaskSys

/-- The steps that keep the promise: a wake of the current call sets the sticky flag only while the
call can still find it; a store of the scheduler finds the state that its load found, in a timed
call for an expiry; a task blocks with no grant under way. -/
def Event.Ok (s : TaskSys) : Event → Prop
  | .waker i => s.wakers i = .missed s.calls → ¬s.Deaf
  | .grant i => s.grants i = .chose → s.state = .ready
  | .systick => (s.systick = .cleared → s.state = .blocked ∧
      ∃ ticks, s.pc = .blocking (.blockTimeout ticks) ∨ s.pc = .parked (.blockTimeout ticks)) ∧
      (s.Preempts → s.state = .running)
  | .task => s.Blocks → s.Ungranted
  | _ => True

/-! ## The invariant -/

namespace TaskSys

/-- No wake of the current call has made the task ready yet. -/
def Fresh (s : TaskSys) : Prop := ∀ i, s.wakers i ≠ .claimed s.calls

/-- Between the look at the sticky flag and the store of `TASK_BLOCKED`. -/
def Deciding (s : TaskSys) : Prop :=
  (∃ c, s.pc = .checked c) ∨ (∃ ticks now, s.pc = .clocked ticks now) ∨ ∃ ticks, s.pc = .armed ticks

/-- An untimed block is about to return. -/
def Owed (s : TaskSys) : Prop :=
  (s.pc = .blocking .block ∨ s.pc = .parked .block) ∧ s.state ≠ .blocked

instance (s : TaskSys) : Decidable s.Owed := inferInstanceAs (Decidable (_ ∧ _))

/-- A task in its wait that cannot get the CPU. -/
def Waits (s : TaskSys) : Prop :=
  (∃ c, s.pc = .blocking c) ∨ ∃ c, s.pc = .parked c ∧ (s.platform = .windows → 0 < s.suspended)

/-- A wake has reached every untimed block that has returned or is about to. -/
def Paid (s : TaskSys) : Prop :=
  s.returns + s.pendingWake.toNat + (if s.Owed then 1 else 0) ≤ s.woken ∧
    (s.Owed → s.reached = true) ∧ s.unreached = false

structure Inv (s : TaskSys) : Prop where
  began : ∀ i b, s.wakers i = .called b ∨ s.wakers i = .claimed b ∨ s.wakers i = .missed b →
    b ≤ s.calls
  called : ∀ c, s.pc = .called c → s.Fresh ∧ (s.heard = true → s.pendingWake = true)
  deciding : s.Deciding → s.Fresh ∧ s.heard = false
  blocked : s.state = .blocked → s.Fresh ∧ s.heard = false ∧ s.Ungranted ∧ s.Waits
  paid : s.Paid

/-- A step after which no untimed block is about to return. -/
theorem Paid.unowed {s s' : TaskSys} (h : s.Paid) (hne : ¬s'.Owed)
    (hcount : s'.returns + s'.pendingWake.toNat ≤ s'.woken) (hsame : s'.unreached = s.unreached) :
    s'.Paid :=
  ⟨by rwa [if_neg hne], fun ho => absurd ho hne, hsame.trans h.2.2⟩

theorem init_inv (platform : Platform) : (init platform).Inv := by
  refine ⟨?_, ?_, ?_, ?_, Nat.le_refl _, fun ho => by simp [Owed, init] at ho, rfl⟩
  · intro i b h
    simp [init] at h
  · intro c h
    cases h
  · intro h
    simp [Deciding, init] at h
  · intro h
    cases h

section Steps

variable {s s' : TaskSys}

theorem Inv.takeCpu_parked (h : s.Inv) {c : Call} (hpc : s.pc = .parked c)
    (ht : s.takeCpu = some s') : s.state ≠ .blocked := by
  intro hb
  obtain ⟨-, -, ⟨hgate, -⟩, hw⟩ := h.blocked hb
  unfold takeCpu canRun at ht
  cases hp : s.platform with
  | posix => simp [hp, hgate] at ht
  | windows =>
    rcases hw with ⟨c', hc'⟩ | ⟨c', -, hsus⟩
    · rw [hpc] at hc'
      cases hc'
    · have hpos := hsus hp
      have hne : s.suspended ≠ 0 := by omega
      simp [hp, hne] at ht

theorem takeCpu_frame (ht : s.takeCpu = some s') : ∃ gate, s' = { s with gate := gate } := by
  obtain ⟨-, ht⟩ := enabled ht
  split at ht
  · split at ht
    · cases ht
      exact ⟨_, rfl⟩
    · cases ht
  · cases ht
    exact ⟨s.gate, rfl⟩

theorem Inv.not_blocked (h : s.Inv) (hw : ¬s.Waits) : s.state ≠ .blocked :=
  fun hb => hw (h.blocked hb).2.2.2

theorem Inv.not_blocked_deciding (h : s.Inv) (hd : s.Deciding) : s.state ≠ .blocked := by
  refine h.not_blocked ?_
  rcases hd with ⟨c, hpc⟩ | ⟨ticks, now, hpc⟩ | ⟨ticks, hpc⟩ <;> simp [Waits, hpc]

theorem Inv.publish (h : s.Inv) (hd : s.Deciding) (hun : s.Ungranted) (c : Call) :
    Inv { s with state := .blocked, pc := .blocking c } := by
  obtain ⟨hfresh, hheard⟩ := h.deciding hd
  refine ⟨h.began, ?_, ?_, fun _ => ⟨hfresh, hheard, hun, .inl ⟨c, rfl⟩⟩, ?_⟩
  · intro c' hc'
    cases hc'
  · intro hd'
    simp [Deciding] at hd'
  · have hle := h.paid.1
    refine h.paid.unowed (by simp [Owed]) ?_ rfl
    dsimp only
    omega

theorem Inv.decide (h : s.Inv) (hd : s.Deciding) {pc : Pc} (deadline : BitVec 64)
    (hd' : Deciding { s with wakeDeadline := deadline, pc := pc }) :
    Inv { s with wakeDeadline := deadline, pc := pc } := by
  have hnb := h.not_blocked_deciding hd
  refine ⟨h.began, ?_, fun _ => h.deciding hd, fun hb => absurd hb hnb, ?_⟩
  · rintro c rfl
    simp [Deciding] at hd'
  · have hle := h.paid.1
    have hne : ¬Owed { s with wakeDeadline := deadline, pc := pc } := by
      rintro ⟨hpc, -⟩
      rcases hpc with hpc | hpc <;> simp only at hpc <;> simp [Deciding, hpc] at hd'
    refine h.paid.unowed hne ?_ rfl
    dsimp only
    omega

theorem Inv.leave (h : s.Inv) (hnb : s.state ≠ .blocked) (c : Call)
    (hpaid : c = .block → s.returns + 1 + s.pendingWake.toNat ≤ s.woken ∧ s.reached = true) :
    Inv (s.leave c) := by
  refine ⟨h.began, ?_, ?_, fun hb => absurd hb hnb, ?_⟩
  · intro c' hc'
    cases hc'
  · intro hd
    simp [Deciding, TaskSys.leave] at hd
  · have hle := h.paid.1
    refine h.paid.unowed (by simp [Owed, TaskSys.leave]) ?_ ?_
    · unfold TaskSys.leave
      dsimp only
      split
      · next hc => exact (hpaid hc).1
      · omega
    · unfold TaskSys.leave
      by_cases hc : c = .block
      · simp [(hpaid hc).2]
      · simp [hc]

theorem Inv.park (h : s.Inv) {c : Call} (hpc : s.pc = .blocking c) (n : Nat)
    (hn : s.platform = .windows → 0 < n) : Inv { s with suspended := n, pc := .parked c } := by
  refine ⟨h.began, ?_, ?_, fun hb => ?_, ?_⟩
  · intro c' hc'
    cases hc'
  · intro hd
    simp [Deciding] at hd
  · obtain ⟨hfresh, hheard, hun, -⟩ := h.blocked hb
    exact ⟨hfresh, hheard, hun, .inr ⟨c, rfl, hn⟩⟩
  · exact ⟨by simpa [Owed, hpc] using h.paid.1, by simpa [Owed, hpc] using h.paid.2⟩

theorem Inv.gate (h : s.Inv) (hnb : s.state ≠ .blocked) (gate : Nat) :
    Inv { s with gate := gate } :=
  { h with blocked := fun hb => absurd hb hnb }

theorem Inv.task (h : s.Inv) (hok : s.Blocks → s.Ungranted) (hs : s.taskStep = some s') :
    s'.Inv := by
  have hcount := h.paid.1
  unfold taskStep at hs
  split at hs
  · next c hpc =>
    obtain ⟨hfresh, hheard⟩ := h.called c hpc
    have hnb : s.state ≠ .blocked := h.not_blocked (by simp [Waits, hpc])
    split at hs
    · next hpend =>
      cases hs
      have hclear : Inv { s with pc := .body, pendingWake := false, reached := true } := by
        refine ⟨h.began, ?_, ?_, fun hb => absurd hb hnb, ?_⟩
        · intro c' hc'
          cases hc'
        · intro hd
          simp [Deciding] at hd
        · refine h.paid.unowed (by simp [Owed]) ?_ rfl
          simp only [hpend, Bool.toNat_true] at hcount
          simp only [Bool.toNat_false]
          omega
      refine hclear.leave hnb c fun _ => ⟨?_, rfl⟩
      simp only [hpend, Bool.toNat_true] at hcount
      show s.returns + 1 + 0 ≤ s.woken
      omega
    · next hpend =>
      cases hs
      refine ⟨h.began, ?_, fun _ => ⟨hfresh, ?_⟩, fun hb => absurd hb hnb, ?_⟩
      · intro c' hc'
        cases hc'
      · by_contra hh
        exact hpend (hheard (by simpa using hh))
      · exact h.paid.unowed (by simp [Owed]) (by dsimp only; omega) rfl
  · next hpc =>
    cases hs
    exact h.publish (.inl ⟨_, hpc⟩) (hok (.inl hpc)) _
  · next ticks hpc =>
    cases hs
    exact h.decide (.inl ⟨_, hpc⟩) s.wakeDeadline (.inr (.inl ⟨_, _, rfl⟩))
  · next ticks now hpc =>
    cases hs
    exact h.decide (.inr (.inl ⟨_, _, hpc⟩)) _ (.inr (.inr ⟨_, rfl⟩))
  · next ticks hpc =>
    cases hs
    exact h.publish (.inr (.inr ⟨_, hpc⟩)) (hok (.inr ⟨_, hpc⟩)) _
  · next c hpc =>
    split at hs
    · next hp =>
      cases hs
      exact h.park hpc s.suspended fun hw => by rw [hp] at hw; cases hw
    · cases hs
      exact h.park hpc _ fun _ => Nat.succ_pos _
  · next c hpc =>
    rw [Option.map_eq_some_iff] at hs
    obtain ⟨s₁, ht, rfl⟩ := hs
    have hnb := h.takeCpu_parked hpc ht
    obtain ⟨gate, rfl⟩ := takeCpu_frame ht
    refine (h.gate hnb gate).leave hnb c fun hc => ?_
    have howed : s.Owed := ⟨.inr (hc ▸ hpc), hnb⟩
    rw [if_pos howed] at hcount
    refine ⟨?_, h.paid.2.1 howed⟩
    show s.returns + 1 + s.pendingWake.toNat ≤ s.woken
    omega
  · cases hs

theorem Inv.setWaker (h : s.Inv) (i : Nat) {w : Waker}
    (hw : (∃ b ≤ s.calls, w = .called b ∨ w = .missed b) ∨ w = .idle) :
    Inv { s with wakers := update s.wakers i w } := by
  have hfresh : s.Fresh → Fresh { s with wakers := update s.wakers i w } := by
    intro hf j
    by_cases hj : j = i
    · subst hj
      rcases hw with ⟨b, -, rfl | rfl⟩ | rfl <;> simp
    · simpa [hj] using hf j
  refine ⟨fun j b hb => ?_, fun c hc => ?_, fun hd => ?_, fun hb => ?_, h.paid⟩
  · by_cases hj : j = i
    · subst hj
      rcases hw with ⟨b', hle, rfl | rfl⟩ | rfl <;> simp at hb <;> exact hb ▸ hle
    · exact h.began j b (by simpa [hj] using hb)
  · exact ⟨hfresh (h.called c hc).1, (h.called c hc).2⟩
  · exact ⟨hfresh (h.deciding hd).1, (h.deciding hd).2⟩
  · obtain ⟨hf, hrest⟩ := h.blocked hb
    exact ⟨hfresh hf, hrest⟩

theorem Inv.claim (h : s.Inv) (hb : s.state = .blocked) {i b : Nat}
    (hi : s.wakers i = .called b) :
    Inv { s with
      state := .ready
      wakers := update s.wakers i (.claimed b)
      woken := s.woken + 1
      reached := true } := by
  obtain ⟨hfresh, hheard, -, hw⟩ := h.blocked hb
  have hpc : (∃ c, s.pc = .blocking c) ∨ ∃ c, s.pc = .parked c := by
    rcases hw with hc | ⟨c, hc, -⟩
    · exact .inl hc
    · exact .inr ⟨c, hc⟩
  refine ⟨fun j b' hb' => ?_, fun c hc => ?_, fun hd => ?_, fun h' => ?_, ?_⟩
  · by_cases hj : j = i
    · subst hj
      simp at hb'
      exact hb' ▸ h.began j b (.inl hi)
    · exact h.began j b' (by simpa [hj] using hb')
  · simp only at hc
    simp [hc] at hpc
  · rcases hpc with ⟨c, hpc⟩ | ⟨c, hpc⟩ <;> simp [Deciding, hpc] at hd
  · cases h'
  · have hle := h.paid.1
    have hne : ¬s.Owed := fun ho => ho.2 hb
    rw [if_neg hne] at hle
    refine ⟨?_, fun _ => rfl, h.paid.2.2⟩
    show s.returns + s.pendingWake.toNat + _ ≤ s.woken + 1
    split <;> omega

theorem Inv.finishClaim (h : s.Inv) {i b : Nat} (hi : s.wakers i = .claimed b) :
    Inv { s with
      wakeDeadline := 0
      wakers := update s.wakers i .idle
      heard := s.heard || b == s.calls } := by
  have h' := h.setWaker i (w := .idle) (.inr rfl)
  -- a fresh call knows no claim of its own
  have hne : s.Fresh → (b == s.calls) = false := by
    intro hf
    have hb := hf i
    rw [hi] at hb
    simpa using hb
  refine ⟨h'.began, fun c hc => ?_, fun hd => ?_, fun hb => ?_, h'.paid⟩
  · obtain ⟨hf, hheard⟩ := h.called c hc
    refine ⟨(h'.called c hc).1, ?_⟩
    show (s.heard || b == s.calls) = true → _
    rw [hne hf, Bool.or_false]
    exact hheard
  · obtain ⟨hf, hheard⟩ := h.deciding hd
    refine ⟨(h'.deciding hd).1, ?_⟩
    show (s.heard || b == s.calls) = false
    rw [hne hf, Bool.or_false]
    exact hheard
  · obtain ⟨hf, hheard, -⟩ := h.blocked hb
    obtain ⟨hf', -, hrest⟩ := h'.blocked hb
    refine ⟨hf', ?_, hrest⟩
    show (s.heard || b == s.calls) = false
    rw [hne hf, Bool.or_false]
    exact hheard

theorem Inv.stick (h : s.Inv) {i b : Nat} (hi : s.wakers i = .missed b)
    (hok : s.wakers i = .missed s.calls → ¬s.Deaf) :
    Inv { s with
      pendingWake := true
      wakers := update s.wakers i .idle
      woken := s.woken + 1
      heard := s.heard || b == s.calls } := by
  have h' := h.setWaker i (w := .idle) (.inr rfl)
  have hne : s.Deaf → (b == s.calls) = false := by
    intro hd
    by_contra hc
    have hb : b = s.calls := by simpa using hc
    exact hok (hb ▸ hi) hd
  refine ⟨h'.began, fun c hc => ?_, fun hd => ?_, fun hb => ?_, ?_⟩
  · exact ⟨(h'.called c hc).1, fun _ => rfl⟩
  · refine ⟨(h'.deciding hd).1, ?_⟩
    show (s.heard || b == s.calls) = false
    rw [hne (.inr hd), Bool.or_false]
    exact (h.deciding hd).2
  · obtain ⟨-, hheard, -⟩ := h.blocked hb
    obtain ⟨hf', -, hrest⟩ := h'.blocked hb
    refine ⟨hf', ?_, hrest⟩
    show (s.heard || b == s.calls) = false
    rw [hne (.inl hb), Bool.or_false]
    exact hheard
  · have hle := h.paid.1
    have hbit := s.pendingWake.toNat_le
    refine ⟨?_, h.paid.2.1, h.paid.2.2⟩
    show s.returns + 1 + (if s.Owed then 1 else 0) ≤ s.woken + 1
    omega

theorem Inv.waker (h : s.Inv) {i : Nat} (hok : s.wakers i = .missed s.calls → ¬s.Deaf)
    (hs : s.wakerStep i = some s') : s'.Inv := by
  unfold wakerStep at hs
  split at hs
  · cases hs
  · next b hi =>
    split at hs
    · next hb =>
      cases hs
      exact h.claim hb hi
    · cases hs
      exact h.setWaker i (.inl ⟨b, h.began i b (.inl hi), .inr rfl⟩)
  · next b hi =>
    cases hs
    exact h.finishClaim hi
  · next b hi =>
    cases hs
    exact h.stick hi hok

theorem Inv.setState (h : s.Inv) (hnb : s.state ≠ .blocked) (state : TaskState)
    (hst : state ≠ .blocked) : Inv { s with state := state } := by
  refine ⟨h.began, h.called, h.deciding, fun hb => absurd hb hst, ?_⟩
  have howed : Owed { s with state := state } ↔ s.Owed := by simp [Owed, hnb, hst]
  refine ⟨?_, fun ho => h.paid.2.1 (howed.mp ho), h.paid.2.2⟩
  rw [if_congr howed rfl rfl]
  exact h.paid.1

theorem Inv.expire (h : s.Inv) {ticks : BitVec 32}
    (hpc : s.pc = .blocking (.blockTimeout ticks) ∨ s.pc = .parked (.blockTimeout ticks)) :
    Inv { s with state := .ready } := by
  refine ⟨h.began, h.called, h.deciding, fun hb => ?_, ?_⟩
  · cases hb
  · have hle := h.paid.1
    have hne : ¬Owed { s with state := .ready } := by
      rcases hpc with hpc | hpc <;> simp [Owed, hpc]
    exact h.paid.unowed hne (by dsimp only; omega) rfl

theorem Inv.setGrant (h : s.Inv) (i : Nat) {g : Grant} (hg : s.state = .blocked → g ≠ .granting) :
    Inv { s with grants := update s.grants i g } := by
  refine { h with blocked := fun hb => ?_ }
  obtain ⟨hfresh, hheard, ⟨hgate, hun⟩, hw⟩ := h.blocked hb
  refine ⟨hfresh, hheard, ⟨hgate, fun j => ?_⟩, hw⟩
  by_cases hj : j = i
  · subst hj
    simpa using hg hb
  · simpa [hj] using hun j

theorem Inv.grant (h : s.Inv) {i : Nat} (hok : s.grants i = .chose → s.state = .ready)
    (hs : s.grantStep i = some s') : s'.Inv := by
  unfold grantStep at hs
  split at hs
  · cases hs
  · next hi =>
    cases hs
    have hnb : s.state ≠ .blocked := by
      rw [hok hi]
      decide
    have h' : Inv { s with state := .running } := h.setState hnb .running (by decide)
    exact h'.setGrant i fun hb => by cases hb
  · next hi =>
    have hnb : s.state ≠ .blocked := fun hb => (h.blocked hb).2.2.1.2 i hi
    have h' := h.setGrant i (g := .idle) fun _ => by decide
    dsimp only at hs
    split at hs
    · cases hs
      exact h'.gate hnb _
    · cases hs
      exact { h' with blocked := fun hb => absurd hb hnb }

theorem Inv.systick (h : s.Inv)
    (hexpire : s.systick = .cleared → s.state = .blocked ∧ ∃ ticks,
      s.pc = .blocking (.blockTimeout ticks) ∨ s.pc = .parked (.blockTimeout ticks))
    (hpreempt : s.Preempts → s.state = .running) (hs : s.systickStep = some s') : s'.Inv := by
  unfold Preempts at hpreempt
  unfold systickStep at hs
  generalize hst : s.systick = pc at hs
  cases pc with
  | idle | choosing => cases hs
  | ticked now =>
    dsimp only at hs
    split at hs <;> cases hs <;> exact { h with }
  | due | expiring =>
    cases hs
    exact { h with }
  | cleared =>
    cases hs
    obtain ⟨-, ticks, hpc⟩ := hexpire hst
    have h' := h.expire hpc
    exact { h' with }
  | preempting =>
    dsimp only at hs
    split at hs
    · next hp =>
      cases hs
      have hnb : s.state ≠ .blocked := by
        rw [hpreempt (by rw [hp]; exact hst)]
        decide
      have h' := h.setState hnb .ready (by decide)
      exact { h' with }
    · cases hs
      refine { h with blocked := fun hb => ?_ }
      obtain ⟨hfresh, hheard, hun, hw⟩ := h.blocked hb
      refine ⟨hfresh, hheard, hun, ?_⟩
      rcases hw with hc | ⟨c, hc, -⟩
      · exact .inl hc
      · exact .inr ⟨c, hc, fun _ => Nat.succ_pos _⟩
  | stopping =>
    dsimp only at hs
    split at hs
    · cases hs
      exact { h with }
    · next hp =>
      cases hs
      have hnb : s.state ≠ .blocked := by
        rw [hpreempt (by rw [hp]; exact hst)]
        decide
      have h' := h.setState hnb .ready (by decide)
      exact { h' with }

theorem Inv.call (h : s.Inv) (hpc : s.pc = .body) (c : Call) :
    Inv { s with
      pc := .called c
      calls := s.calls + 1
      heard := s.pendingWake
      reached := false } := by
  have hle := h.paid.1
  have hnb : s.state ≠ .blocked := h.not_blocked (by simp [Waits, hpc])
  refine ⟨fun i b hb => Nat.le_succ_of_le (h.began i b hb), fun c' _ => ⟨fun i hi => ?_, id⟩, ?_,
    fun hb => absurd hb hnb, ?_⟩
  · have hle := h.began i _ (.inr (.inl hi))
    exact absurd hle (Nat.not_succ_le_self _)
  · intro hd
    simp [Deciding] at hd
  · exact h.paid.unowed (by simp [Owed]) (by dsimp only; omega) rfl

theorem step_inv (h : s.Inv) {e : Event} (hok : e.Ok s) (hs : s.step e = some s') : s'.Inv := by
  cases e with
  | start =>
    obtain ⟨hpc, hs⟩ := enabled hs
    rw [Option.map_eq_some_iff] at hs
    obtain ⟨s₁, ht, rfl⟩ := hs
    obtain ⟨gate, rfl⟩ := takeCpu_frame ht
    have hnb : s.state ≠ .blocked := h.not_blocked (by simp [Waits, hpc])
    have h' := h.gate hnb gate
    refine ⟨h'.began, ?_, ?_, fun hb => absurd hb hnb, ?_⟩
    · intro c hc
      cases hc
    · intro hd
      simp [Deciding] at hd
    · have hle := h.paid.1
      exact h.paid.unowed (by simp [Owed]) (by dsimp only; omega) rfl
  | call c =>
    obtain ⟨hpc, hs⟩ := enabled hs
    split at hs
    · cases hs
      exact h
    · cases hs
      exact h.call hpc.1 c
  | task =>
    obtain ⟨-, hs⟩ := enabled hs
    exact h.task hok hs
  | exit =>
    obtain ⟨hpc, ⟨⟩⟩ := enabled hs
    refine ⟨h.began, ?_, ?_, ?_, ?_⟩
    · intro c hc
      cases hc
    · intro hd
      simp [Deciding] at hd
    · intro hb
      cases hb
    · have hle := h.paid.1
      exact h.paid.unowed (by simp [Owed]) (by dsimp only; omega) rfl
  | wake i =>
    obtain ⟨-, ⟨⟩⟩ := enabled hs
    exact h.setWaker i (.inl ⟨s.calls, Nat.le_refl _, .inl rfl⟩)
  | waker i => exact h.waker hok hs
  | choose i =>
    obtain ⟨-, ⟨⟩⟩ := enabled hs
    exact h.setGrant i fun _ => by decide
  | grant i => exact h.grant hok hs
  | tick | preempt | pass | deliver =>
    obtain ⟨-, ⟨⟩⟩ := enabled hs
    exact { h with }
  | systick => exact h.systick hok.1 hok.2 hs
  | resume =>
    obtain ⟨hg, ⟨⟩⟩ := enabled hs
    have hnb : s.state ≠ .blocked := by
      intro hb
      obtain ⟨-, -, ⟨hgate, -⟩, -⟩ := h.blocked hb
      rw [hgate] at hg
      exact Nat.lt_irrefl 0 hg.2
    have h' := h.gate hnb (s.gate - 1)
    exact { h' with }

theorem Inv.sound (h : s.Inv) : s.Sound where
  heard := by
    intro hh hb
    have hheard := (h.blocked hb).2.1
    rw [hh] at hheard
    cases hheard
  returns := ⟨h.paid.2.2, by have hle := h.paid.1; omega⟩

end Steps

end TaskSys

end Microgarbage.Presched
