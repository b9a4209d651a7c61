import Mathlib.Logic.Function.Basic
import Microgarbage.Sched.Presched

/-!
# Run gates

Any number of tasks of the preemptive scheduler on POSIX, with its tick thread, cut at their atomic
accesses. A task runs when its gate was posted. The tick thread takes the CPU from a task by a
signal whose handler waits for the gate; the signal arrives at any later time. A task that blocks,
sleeps or ends hands the CPU on itself.
-/

namespace Microgarbage.Gates

open Lib
open Presched (TaskState)

/-- `presched_block`, `presched_sleep` and `presched_block_timeout`. -/
inductive BlockCall where
  | block
  | sleep (ticks : BitVec 32)
  | blockTimeout (ticks : BitVec 32)
  deriving DecidableEq

/-- Where a thread is in `next_ready`. -/
inductive Scan where
  /-- The loop of `highest_ready_level`. -/
  | level (i : Nat) (best : Option Nat)
  | pick (lvl i : Nat)
  /-- The look at `from` itself. -/
  | last (lvl : Nat)
  deriving DecidableEq

/-- Where a task's own thread is. -/
inductive Pc where
  /-- Before its first grant. -/
  | starting
  | body
  /-- In `presched_wake`: at the exchange, behind one that made the task ready, behind one that
  failed. -/
  | waking (target : Nat)
  | claimed (target : Nat)
  | missed (target : Nat)
  /-- At the exchange of `pending_wake`. -/
  | called (c : BlockCall)
  /-- About to load the tick counter, and to store the deadline. -/
  | arming (ticks : BitVec 32)
  | armed (ticks : BitVec 32) (now : BitVec 64)
  /-- About to store `TASK_BLOCKED`, and at the end of the body `TASK_DONE`. -/
  | storing
  | exiting
  /-- `TASK_DONE` is stored. -/
  | stored
  /-- In `hand_off_from`; `fin` tells whether the body has ended. -/
  | scanning (fin : Bool) (k : Scan)
  | chosen (fin : Bool) (nxt : Option Nat)
  /-- `current` is stored. -/
  | named (fin : Bool) (nxt : Nat)
  /-- `TASK_RUNNING` is stored. -/
  | posting (fin : Bool) (nxt : Nat)
  /-- In the `sem_wait` of a blocking call. -/
  | waiting
  /-- About to count itself out, and to tell that it was the last one. -/
  | retiring
  | lastOut
  | finished
  deriving DecidableEq

/-- Where the tick thread is. -/
inductive TickPc where
  | idle
  | ticked (now : BitVec 64)
  /-- At the deadline of task `i`, at its state, at the two stores. -/
  | looking (now : BitVec 64) (i : Nat)
  | due (now : BitVec 64) (i : Nat)
  | clearing (now : BitVec 64) (i : Nat)
  | readying (now : BitVec 64) (i : Nat)
  /-- About to load `current`. -/
  | loading
  | scanning (cur : Option Nat) (k : Scan)
  | chosen (cur nxt : Option Nat)
  /-- About to store `TASK_READY`, -1 in `current`, and to send the signal. -/
  | preempting (cur nxt : Nat)
  | unnaming (cur nxt : Nat)
  | killing (cur nxt : Nat)
  /-- About to store `current`, `TASK_RUNNING`, and to post the gate. -/
  | naming (nxt : Nat)
  | granting (nxt : Nat)
  | posting (nxt : Nat)
  deriving DecidableEq

structure Task where
  state : TaskState
  gate : Nat
  priority : Nat
  pendingWake : Bool
  wakeDeadline : BitVec 64
  pc : Pc
  /-- `SIGUSR1` is pending, and its handler waits for the gate. -/
  signal : Bool
  handler : Bool
  /-- How many grants were posted, and how many of them made the task go on. -/
  posted : Nat
  resumed : Nat
  deriving DecidableEq

structure PreSched where
  nTasks : Nat
  tasks : Nat → Task
  /-- -1 is `none`. -/
  current : Option Nat
  ticks : BitVec 64
  runningCount : Nat
  stop : Bool
  systick : TickPc

/-- The task executes the code of its body, or of a call that has not given the CPU up. -/
def Pc.inBody : Pc → Bool
  | .body | .waking _ | .claimed _ | .missed _ | .called _ | .arming _ | .armed .. | .storing
  | .exiting => true
  | _ => false

/-- The task has stored its state and not yet handed the CPU on. -/
def Pc.handsOff : Pc → Bool
  | .stored | .scanning .. | .chosen .. | .named .. | .posting .. => true
  | _ => false

/-- The body has ended. -/
def Pc.ended : Pc → Bool
  | .stored | .scanning true _ | .chosen true _ | .named true _ | .posting true _ | .retiring
  | .lastOut | .finished => true
  | _ => false

/-- The tick thread has taken the first step of a switch. -/
def TickPc.commits : TickPc → Bool
  | .unnaming .. | .killing .. | .naming _ | .granting _ | .posting _ => true
  | _ => false

namespace PreSched

variable (s : PreSched)

def set (i : Nat) (t : Task) : PreSched := { s with tasks := Function.update s.tasks i t }

/-- Task `i` goes to `pc`. -/
def goto (i : Nat) (pc : Pc) : PreSched := s.set i { s.tasks i with pc := pc }

def setState (i : Nat) (st : TaskState) : PreSched := s.set i { s.tasks i with state := st }

/-- `sem_post` of a gate. -/
def post (i : Nat) : PreSched :=
  s.set i { s.tasks i with gate := (s.tasks i).gate + 1, posted := (s.tasks i).posted + 1 }

/-- A `sem_wait` that ends: the task goes on at `pc`. -/
def take (i : Nat) (pc : Pc) : PreSched :=
  s.set i { s.tasks i with
    gate := (s.tasks i).gate - 1
    resumed := (s.tasks i).resumed + 1
    pc := pc }

/-- The task was seen ready or running. -/
def runnable (i : Nat) : Bool := (s.tasks i).state = .ready || (s.tasks i).state = .running

/-- One load of `next_ready`: the next place, or the result. -/
def scan (start : Nat) : Scan → Scan ⊕ Option Nat
  | .level i best =>
    if i < s.nTasks then
      .inl (.level (i + 1) (if s.runnable i ∧ best.all (· < (s.tasks i).priority) then
        some (s.tasks i).priority else best))
    else
      match best with
      | none => .inr none
      | some lvl => .inl (.pick lvl 1)
  | .pick lvl i =>
    if i ≤ s.nTasks then
      let idx := (start + i) % s.nTasks
      if (s.tasks idx).priority = lvl ∧ s.runnable idx then .inr (some idx)
      else .inl (.pick lvl (i + 1))
    else .inl (.last lvl)
  | .last lvl =>
    let idx := start % s.nTasks
    .inr (if (s.tasks idx).priority = lvl ∧ s.runnable idx then some idx else none)

/-- Behind `hand_off_from`. -/
def handedOff (fin : Bool) : Pc := if fin then .retiring else .waiting

/-- The next step of task `i` by itself. -/
def taskStep (i : Nat) : Option PreSched :=
  match (s.tasks i).pc with
  | .starting =>
    if 0 < (s.tasks i).gate then some (s.take i (if s.stop then .exiting else .body)) else none
  | .body => none
  | .waking target =>
    if (s.tasks target).state = .blocked then
      some ((s.setState target .ready).goto i (.claimed target))
    else some (s.goto i (.missed target))
  | .claimed target =>
    some ((s.set target { s.tasks target with wakeDeadline := 0 }).goto i .body)
  | .missed target =>
    some ((s.set target { s.tasks target with pendingWake := true }).goto i .body)
  | .called c =>
    if (s.tasks i).pendingWake then some (s.set i { s.tasks i with pendingWake := false, pc := .body })
    else
      match c with
      | .block => some (s.goto i .storing)
      | .sleep ticks | .blockTimeout ticks => some (s.goto i (.arming ticks))
  | .arming ticks => some (s.goto i (.armed ticks s.ticks))
  | .armed ticks now =>
    some (s.set i { s.tasks i with wakeDeadline := now + ticks.setWidth 64, pc := .storing })
  | .storing =>
    some (s.set i { s.tasks i with state := .blocked, pc := .scanning false (.level 0 none) })
  | .exiting => some (s.set i { s.tasks i with state := .done, pc := .stored })
  | .stored =>
    some (s.goto i (if s.current = some i then .scanning true (.level 0 none) else .retiring))
  | .scanning fin k =>
    match s.scan i k with
    | .inl k => some (s.goto i (.scanning fin k))
    | .inr nxt => some (s.goto i (.chosen fin nxt))
  | .chosen fin nxt =>
    match nxt with
    | some x =>
      if x = i then some ({ s with current := none }.goto i (handedOff fin))
      else some ({ s with current := some x }.goto i (.named fin x))
    | none => some ({ s with current := none }.goto i (handedOff fin))
  | .named fin x => some ((s.setState x .running).goto i (.posting fin x))
  | .posting fin x => some ((s.post x).goto i (handedOff fin))
  | .waiting => if 0 < (s.tasks i).gate then some (s.take i .body) else none
  | .retiring =>
    some ({ s with runningCount := s.runningCount - 1 }.goto i
      (if s.runningCount = 1 then .lastOut else .finished))
  | .lastOut => some ({ s with stop := true }.goto i .finished)
  | .finished => none

def setTick (pc : TickPc) : PreSched := { s with systick := pc }

@[simp] theorem tasks_set (i : Nat) (t : Task) :
    (s.set i t).tasks = Function.update s.tasks i t := rfl
@[simp] theorem tasks_setTick (pc : TickPc) : (s.setTick pc).tasks = s.tasks := rfl

/-- The next step of the tick thread by itself. -/
def systickStep : Option PreSched :=
  match s.systick with
  | .idle => none
  | .ticked now => some (s.setTick (if s.runningCount = 0 then .idle else .looking now 0))
  | .looking now i =>
    if i < s.nTasks then
      if (s.tasks i).wakeDeadline ≠ 0 ∧ (s.tasks i).wakeDeadline ≤ now then some (s.setTick (.due now i))
      else some (s.setTick (.looking now (i + 1)))
    else some (s.setTick .loading)
  | .due now i =>
    if (s.tasks i).state = .blocked then some (s.setTick (.clearing now i))
    else some (s.setTick (.looking now (i + 1)))
  | .clearing now i =>
    some ((s.set i { s.tasks i with wakeDeadline := 0 }).setTick (.readying now i))
  | .readying now i => some ((s.setState i .ready).setTick (.looking now (i + 1)))
  | .loading => some (s.setTick (.scanning s.current (.level 0 none)))
  | .scanning cur k =>
    match s.scan (cur.getD 0) k with
    | .inl k => some (s.setTick (.scanning cur k))
    | .inr nxt => some (s.setTick (.chosen cur nxt))
  | .chosen cur nxt =>
    match nxt with
    | none => some (s.setTick .idle)
    | some x =>
      match cur with
      | none => some (s.setTick (.naming x))
      | some c =>
        if x = c then some (s.setTick .idle)
        else if (s.tasks c).state = .running then some (s.setTick (.preempting c x))
        else some (s.setTick (.naming x))
  | .preempting c x => some ((s.setState c .ready).setTick (.unnaming c x))
  | .unnaming c x => some ({ s with current := none }.setTick (.killing c x))
  | .killing c x => some ((s.set c { s.tasks c with signal := true }).setTick (.naming x))
  | .naming x => some ({ s with current := some x }.setTick (.granting x))
  | .granting x => some ((s.setState x .running).setTick (.posting x))
  | .posting x => some ((s.post x).setTick .idle)

end PreSched

inductive Event where
  /-- The body of task `i` blocks, wakes a task, returns. -/
  | call (i : Nat) (c : BlockCall)
  | wake (i target : Nat)
  | exit (i : Nat)
  /-- The next step of task `i`. -/
  | task (i : Nat)
  /-- A tick, while tasks are left; the tick thread's next step. -/
  | tick
  | systick
  /-- `SIGUSR1` takes effect on task `i`; its handler gets the gate. -/
  | deliver (i : Nat)
  | resume (i : Nat)
  deriving DecidableEq

namespace PreSched

variable (s : PreSched)

/-- The body of the task is at work. -/
def atBody (i : Nat) : Bool := (s.tasks i).pc = .body && !(s.tasks i).handler

def step : Event → Option PreSched
  | .call i c =>
    if s.atBody i then
      match c with
      | .block => some (s.goto i (.called .block))
      | .sleep ticks => if ticks = 0 then some s else some (s.goto i (.arming ticks))
      | .blockTimeout ticks =>
        if ticks = 0 then some s else some (s.goto i (.called (.blockTimeout ticks)))
    else none
  | .wake i target =>
    if s.atBody i then some (if target < s.nTasks then s.goto i (.waking target) else s) else none
  | .exit i => if s.atBody i then some (s.goto i .exiting) else none
  | .task i => if (s.tasks i).handler then none else s.taskStep i
  | .tick =>
    if s.systick = .idle ∧ 0 < s.runningCount then
      some { s with ticks := s.ticks + 1, systick := .ticked (s.ticks + 1) }
    else none
  | .systick => s.systickStep
  | .deliver i =>
    if (s.tasks i).signal ∧ (s.tasks i).handler = false then
      some (s.set i { s.tasks i with signal := false, handler := (s.tasks i).state ≠ .done })
    else none
  | .resume i =>
    if (s.tasks i).handler ∧ 0 < (s.tasks i).gate then
      some (s.set i { s.tasks i with
        gate := (s.tasks i).gate - 1
        handler := false
        resumed := (s.tasks i).resumed + if (s.tasks i).pc.inBody then 1 else 0 })
    else none

/-- After `presched_run` has granted the first task. -/
def init (n : Nat) (priority : Nat → Nat) (first : Nat) : PreSched where
  nTasks := n
  tasks i :=
    { state := if i = first then .running else .ready
      gate := if i = first then 1 else 0
      priority := priority i
      pendingWake := false
      wakeDeadline := 0
      pc := .starting
      signal := false
      handler := false
      posted := if i = first then 1 else 0
      resumed := 0 }
  current := some first
  ticks := 0
  runningCount := n
  stop := false
  systick := .idle

/-! ## What the gates promise -/

/-- The task has the CPU and executes. -/
def Executes (i : Nat) : Prop := (s.tasks i).pc.inBody = true ∧ (s.tasks i).handler = false

/-- One task executes at a time, every grant resumes its task once, and a finished task stays
finished. -/
structure Sound : Prop where
  single : ∀ i j, s.Executes i → s.Executes j → i = j
  grants : ∀ i, (s.tasks i).posted = (s.tasks i).resumed + (s.tasks i).gate
  finished : ∀ i, (s.tasks i).pc.ended = true → (s.tasks i).state = .done ∧ (s.tasks i).gate = 0

/-- The tick thread begins a switch only with what it has loaded still true: it grants the CPU when
no task holds it, and takes it from a task that is current and executes. It posts a gate only when
its signal has taken effect. A sleeper is still blocked when it is made ready. A task gives the CPU
up only outside a switch. -/
def GateOk : Event → Prop
  | .task i => (s.tasks i).pc = .storing ∨ (s.tasks i).pc = .exiting → s.systick.commits = false
  | .systick =>
    match s.systick with
    | .readying _ i => (s.tasks i).state = .blocked
    | .chosen cur (some x) => (∀ c ∈ cur, c ≠ x ∧ (s.tasks c).state ≠ .running) →
        s.current = none ∧ (s.tasks x).state = .ready
    | .preempting c x => s.current = some c ∧ s.Executes c ∧ (s.tasks x).state = .ready
    | .posting _ => ∀ i, (s.tasks i).signal = false
    | _ => True
  | _ => True

end PreSched

/-! ## Roles -/

def Pc.retired : Pc → Bool
  | .retiring | .lastOut | .finished => true
  | _ => false

namespace Task

variable (t : Task)

/-- The task waits for its gate. -/
def Parked : Prop :=
  (t.handler = true ∧ t.pc.inBody = true) ∨
    (t.handler = false ∧ (t.pc = .starting ∨ t.pc = .waiting))

/-- The task has ended and handed the CPU on. -/
def Retired : Prop := t.handler = false ∧ t.pc.retired = true ∧ t.state = .done

/-- A task changes between places of one kind, and is made ready when it was blocked. -/
structure Quiet (t t' : Task) : Prop where
  signal : t'.signal = t.signal
  gate : t'.gate = t.gate
  handler : t'.handler = t.handler
  posted : t'.posted = t.posted
  resumed : t'.resumed = t.resumed
  state : t'.state = t.state ∨ t.state = .blocked ∧ t'.state = .ready
  pc : t'.pc = t.pc ∨ t.pc.inBody = true ∧ t'.pc.inBody = true ∨
    t.pc.retired = true ∧ t'.pc.retired = true

theorem Quiet.refl : t.Quiet t := ⟨rfl, rfl, rfl, rfl, rfl, .inl rfl, .inl rfl⟩

end Task

/-- What a task does while the CPU is where it is. -/
inductive Role where
  | rest
  /-- Its state is running and its gate is about to be posted. -/
  | picked
  | granted
  | runs
  | hands
  /-- The tick thread has made it ready; `signal` tells whether the signal is sent. -/
  | loses (signal : Bool)
  deriving DecidableEq

def Role.Fits (t : Task) : Role → Prop
  | .rest => t.signal = false ∧ t.gate = 0 ∧
      (t.Parked ∧ (t.state = .ready ∨ t.state = .blocked) ∨ t.Retired)
  | .picked => t.signal = false ∧ t.gate = 0 ∧ t.Parked ∧ t.state = .running
  | .granted => t.signal = false ∧ t.gate = 1 ∧ t.Parked ∧ t.state = .running
  | .runs => t.signal = false ∧ t.gate = 0 ∧ t.handler = false ∧ t.pc.inBody = true ∧
      t.state = .running
  | .hands => t.signal = false ∧ t.gate = 0 ∧ t.handler = false ∧ t.pc.handsOff = true ∧
      (t.pc.ended = true ∧ t.state = .done ∨
        t.pc.ended = false ∧ (t.state = .ready ∨ t.state = .blocked))
  | .loses signal => t.signal = signal ∧ t.gate = 0 ∧ t.handler = false ∧ t.pc.inBody = true ∧
      t.state = .ready

section Places

variable {pc : Pc}

theorem Pc.not_handsOff_of_inBody (h : pc.inBody = true) : pc.handsOff = false := by
  cases pc <;> first | rfl | cases h

theorem Pc.not_retired_of_inBody (h : pc.inBody = true) : pc.retired = false := by
  cases pc <;> first | rfl | cases h

theorem Pc.not_ended_of_inBody (h : pc.inBody = true) : pc.ended = false := by
  cases pc <;> first | rfl | cases h

theorem Pc.not_handsOff_of_retired (h : pc.retired = true) : pc.handsOff = false := by
  cases pc <;> first | rfl | cases h

end Places

section Fits

variable {t t' : Task} {r : Role}

theorem Task.Parked.not_executes (h : t.Parked) : ¬(t.pc.inBody = true ∧ t.handler = false) := by
  rintro ⟨hb, hh⟩
  rcases h with ⟨ht, -⟩ | ⟨-, hp | hp⟩
  · exact absurd (ht.symm.trans hh) (by simp)
  · rw [hp] at hb
    cases hb
  · rw [hp] at hb
    cases hb

theorem Task.Parked.not_ended (h : t.Parked) : ¬t.pc.ended = true := by
  rcases h with ⟨-, hb⟩ | ⟨-, hp | hp⟩
  · simp [Pc.not_ended_of_inBody hb]
  · rw [hp]
    simp [Pc.ended]
  · rw [hp]
    simp [Pc.ended]

theorem Task.Parked.not_handsOff (h : t.Parked) : t.pc.handsOff = false := by
  rcases h with ⟨-, hb⟩ | ⟨-, hp | hp⟩
  · exact Pc.not_handsOff_of_inBody hb
  · rw [hp]
    rfl
  · rw [hp]
    rfl

theorem Task.Parked.quiet (h : t.Parked) (hq : t.Quiet t') : t'.Parked := by
  rcases h with ⟨hh, hb⟩ | ⟨hh, hp⟩
  · refine .inl ⟨hq.handler.trans hh, ?_⟩
    rcases hq.pc with he | ⟨-, hb'⟩ | ⟨hr, -⟩
    · rw [he]
      exact hb
    · exact hb'
    · rw [Pc.not_retired_of_inBody hb] at hr
      cases hr
  · refine .inr ⟨hq.handler.trans hh, ?_⟩
    rcases hq.pc with he | ⟨hb, -⟩ | ⟨hr, -⟩
    · rw [he]
      exact hp
    · rcases hp with hp | hp <;> rw [hp] at hb <;> cases hb
    · rcases hp with hp | hp <;> rw [hp] at hr <;> cases hr

theorem Task.Quiet.inBody (hq : t.Quiet t') (h : t.pc.inBody = true) : t'.pc.inBody = true := by
  rcases hq.pc with he | ⟨-, hb⟩ | ⟨hr, -⟩
  · rw [he]
    exact h
  · exact hb
  · rw [Pc.not_retired_of_inBody h] at hr
    cases hr

theorem Task.Quiet.retired (hq : t.Quiet t') (h : t.pc.retired = true) :
    t'.pc.retired = true := by
  rcases hq.pc with he | ⟨hb, -⟩ | ⟨-, hr⟩
  · rw [he]
    exact h
  · rw [Pc.not_retired_of_inBody hb] at h
    cases h
  · exact hr

theorem Task.Quiet.pc_eq (hq : t.Quiet t') (h : t.pc.handsOff = true) : t'.pc = t.pc := by
  rcases hq.pc with he | ⟨hb, -⟩ | ⟨hr, -⟩
  · exact he
  · rw [Pc.not_handsOff_of_inBody hb] at h
    cases h
  · rw [Pc.not_handsOff_of_retired hr] at h
    cases h

theorem Task.Quiet.state_eq (hq : t.Quiet t') (h : t.state ≠ .blocked) : t'.state = t.state :=
  hq.state.resolve_right fun hb => h hb.1

theorem Task.Quiet.waits (hq : t.Quiet t') (h : t.state = .ready ∨ t.state = .blocked) :
    t'.state = .ready ∨ t'.state = .blocked := by
  rcases hq.state with he | hb
  · rwa [he]
  · exact .inl hb.2

theorem Role.Fits.quiet (h : r.Fits t) (hq : t.Quiet t') : r.Fits t' := by
  cases r with
  | rest =>
    obtain ⟨hs, hg, ⟨hp, hst⟩ | ⟨hh, hr, hd⟩⟩ := h
    · exact ⟨hq.signal.trans hs, hq.gate.trans hg, .inl ⟨hp.quiet hq, hq.waits hst⟩⟩
    · refine ⟨hq.signal.trans hs, hq.gate.trans hg, .inr ⟨hq.handler.trans hh, hq.retired hr, ?_⟩⟩
      rw [hq.state_eq (by simp [hd]), hd]
  | picked | granted =>
    obtain ⟨hs, hg, hp, hst⟩ := h
    refine ⟨hq.signal.trans hs, hq.gate.trans hg, hp.quiet hq, ?_⟩
    rw [hq.state_eq (by simp [hst]), hst]
  | runs | loses signal =>
    obtain ⟨hs, hg, hh, hb, hst⟩ := h
    refine ⟨hq.signal.trans hs, hq.gate.trans hg, hq.handler.trans hh, hq.inBody hb, ?_⟩
    rw [hq.state_eq (by simp [hst]), hst]
  | hands =>
    obtain ⟨hs, hg, hh, ho, hst⟩ := h
    refine ⟨hq.signal.trans hs, hq.gate.trans hg, hq.handler.trans hh, ?_, ?_⟩
    · rw [hq.pc_eq ho]
      exact ho
    · rw [hq.pc_eq ho]
      rcases hst with ⟨he, hd⟩ | ⟨he, hw⟩
      · exact .inl ⟨he, (hq.state_eq (by simp [hd])).trans hd⟩
      · exact .inr ⟨he, hq.waits hw⟩

end Fits

/-! ## Phases -/

/-- Where the CPU is. -/
inductive Phase where
  | free
  | runs (c : Nat) (granted : Bool)
  /-- Task `h` hands the CPU on; with `x` it has named `x`, and stored its state. -/
  | hands (h : Nat)
  | names (h x : Nat)
  | posts (h x : Nat)
  /-- The tick thread takes it from `c` for `x`. -/
  | takes (c x : Nat) (unnamed : Bool)
  /-- The tick thread gives it to `x`; the signal of task `o` is pending. -/
  | naming (o : Option Nat) (x : Nat)
  | granting (o : Option Nat) (x : Nat)
  | posting (o : Option Nat) (x : Nat)

namespace Phase

@[simp] def role (j : Nat) : Phase → Role
  | .free => .rest
  | .runs c granted => if j = c then (if granted then .granted else .runs) else .rest
  | .hands h | .names h _ => if j = h then .hands else .rest
  | .posts h x => if j = h then .hands else if j = x then .picked else .rest
  | .takes c _ _ => if j = c then .loses false else .rest
  | .naming o _ | .granting o _ => if o = some j then .loses true else .rest
  | .posting o x => if o = some j then .loses true else if j = x then .picked else .rest

/-- Where a task that hands the CPU on stands tells the phase. -/
def ofPc (i : Nat) : Pc → Phase
  | .named _ x => .names i x
  | .posting _ x => .posts i x
  | _ => .hands i

/-- What is known of the place of a task `h` that has named no other one: whom it chose is still
ready. -/
def Choice (s : PreSched) (h : Nat) : Pc → Prop
  | .chosen _ nxt => ∀ x ∈ nxt, x = h ∨ (s.tasks x).state = .ready
  | .named .. | .posting .. => False
  | _ => True

theorem Choice.mono {s s' : PreSched} {h : Nat} {pc : Pc} (hc : Choice s h pc)
    (hr : ∀ x, x ≠ h → (s.tasks x).state = .ready → (s'.tasks x).state = .ready) :
    Choice s' h pc := by
  cases pc with
  | chosen fin nxt =>
    intro x hx
    by_cases hxh : x = h
    · exact .inl hxh
    · exact .inr (hr x hxh ((hc x hx).resolve_left hxh))
  | named fin x | posting fin x => exact hc
  | _ => trivial

def Facts (s : PreSched) : Phase → Prop
  | .free => s.current = none ∧ s.systick.commits = false
  | .runs c _ => s.current = some c ∧ s.systick.commits = false
  | .hands h => s.current = some h ∧ s.systick.commits = false ∧ Choice s h (s.tasks h).pc
  | .names h x => s.current = some x ∧ s.systick.commits = false ∧ x ≠ h ∧
      (s.tasks x).state = .ready ∧ ∃ fin, (s.tasks h).pc = .named fin x
  | .posts h x => s.current = some x ∧ s.systick.commits = false ∧ x ≠ h ∧
      ∃ fin, (s.tasks h).pc = .posting fin x
  | .takes c x unnamed => s.systick = (if unnamed then .killing c x else .unnaming c x) ∧
      s.current = (if unnamed then none else some c) ∧ x ≠ c ∧ (s.tasks x).state = .ready
  | .naming o x => s.systick = .naming x ∧ s.current = none ∧ o ≠ some x ∧
      (s.tasks x).state = .ready
  | .granting o x => s.systick = .granting x ∧ s.current = some x ∧ o ≠ some x ∧
      (s.tasks x).state = .ready
  | .posting o x => s.systick = .posting x ∧ s.current = some x ∧ o ≠ some x

variable {ph : Phase} {s s' : PreSched} {i : Nat}

theorem eq_of_runs (h : ph.role i = .runs) : ph = .runs i false := by
  cases ph with
  | runs c granted => by_cases hi : i = c <;> cases granted <;> simp [role, hi] at h ⊢
  | _ => simp [role] at h <;> grind

theorem eq_of_granted (h : ph.role i = .granted) : ph = .runs i true := by
  cases ph with
  | runs c granted => by_cases hi : i = c <;> cases granted <;> simp [role, hi] at h ⊢
  | _ => simp [role] at h <;> grind

theorem eq_of_hands (h : ph.role i = .hands) :
    ph = .hands i ∨ ∃ x, ph = .names i x ∨ ph = .posts i x := by
  cases ph <;> simp [role] at h ⊢ <;> grind

theorem eq_of_signal (h : ph.role i = .loses true) :
    ∃ x, ph = .naming (some i) x ∨ ph = .granting (some i) x ∨ ph = .posting (some i) x := by
  cases ph <;> simp [role] at h ⊢ <;> grind

theorem commits_of_loses {b : Bool} (hf : ph.Facts s) (h : ph.role i = .loses b) :
    s.systick.commits = true := by
  cases ph with
  | takes c x unnamed =>
    rw [hf.1]
    cases unnamed <;> rfl
  | naming o x | granting o x | posting o x =>
    rw [hf.1]
    rfl
  | runs c granted => cases granted <;> simp [role] at h <;> grind
  | _ => simp [role] at h <;> grind

/-- A phase does not see quiet changes, nor the tick thread outside a switch. -/
theorem Facts.quiet (hf : ph.Facts s) (hc : s'.current = s.current)
    (ht : s'.systick = s.systick ∨ s.systick.commits = false ∧ s'.systick.commits = false)
    (hhands : ∀ j, ph.role j = .hands → (s.tasks j).pc.handsOff = true)
    (hq : ∀ j, (s.tasks j).Quiet (s'.tasks j)) : ph.Facts s' := by
  have hready : ∀ j, (s.tasks j).state = .ready → (s'.tasks j).state = .ready := fun j hj =>
    ((hq j).state_eq (by simp [hj])).trans hj
  have hcalm : s.systick.commits = false → s'.systick.commits = false := fun h =>
    ht.elim (fun he => he ▸ h) And.right
  have hcommit : s.systick.commits = true → s'.systick = s.systick := fun h =>
    ht.resolve_right fun hn => by simp [hn.1] at h
  have hpc : ∀ j, ph.role j = .hands → (s'.tasks j).pc = (s.tasks j).pc := fun j hj =>
    (hq j).pc_eq (hhands j hj)
  cases ph with
  | free | runs c granted => exact ⟨hc.trans hf.1, hcalm hf.2⟩
  | hands h =>
    refine ⟨hc.trans hf.1, hcalm hf.2.1, ?_⟩
    rw [hpc h (if_pos rfl)]
    exact hf.2.2.mono fun x _ => hready x
  | names h x =>
    obtain ⟨hcur, hcalm', hne, hr, fin, hp⟩ := hf
    exact ⟨hc.trans hcur, hcalm hcalm', hne, hready x hr, fin, (hpc h (if_pos rfl)).trans hp⟩
  | posts h x =>
    obtain ⟨hcur, hcalm', hne, fin, hp⟩ := hf
    exact ⟨hc.trans hcur, hcalm hcalm', hne, fin, (hpc h (if_pos rfl)).trans hp⟩
  | takes c x unnamed =>
    obtain ⟨hs, hcur, hne, hr⟩ := hf
    refine ⟨(hcommit ?_).trans hs, hc.trans hcur, hne, hready x hr⟩
    rw [hs]
    cases unnamed <;> rfl
  | naming o x | granting o x =>
    obtain ⟨hs, hcur, hne, hr⟩ := hf
    exact ⟨(hcommit (by rw [hs]; rfl)).trans hs, hc.trans hcur, hne, hready x hr⟩
  | posting o x =>
    obtain ⟨hs, hcur, hne⟩ := hf
    exact ⟨(hcommit (by rw [hs]; rfl)).trans hs, hc.trans hcur, hne⟩

end Phase

/-! ## The invariant -/

structure PreSched.Holds (ph : Phase) (s : PreSched) : Prop where
  grants : ∀ j, (s.tasks j).posted = (s.tasks j).resumed + (s.tasks j).gate
  fits : ∀ j, (ph.role j).Fits (s.tasks j)
  facts : ph.Facts s

def PreSched.Inv (s : PreSched) : Prop := ∃ ph : Phase, s.Holds ph

namespace PreSched

variable {s s' : PreSched} {ph ph' : Phase} {i x : Nat} {t : Task}

theorem Holds.handsOff (h : s.Holds ph) (j : Nat) (hr : ph.role j = .hands) :
    (s.tasks j).pc.handsOff = true := by
  have hj := h.fits j
  rw [hr] at hj
  exact hj.2.2.2.1

theorem Holds.quiet (h : s.Holds ph) (hc : s'.current = s.current)
    (ht : s'.systick = s.systick ∨ s.systick.commits = false ∧ s'.systick.commits = false)
    (hq : ∀ j, (s.tasks j).Quiet (s'.tasks j)) : s'.Holds ph where
  grants j := by
    rw [(hq j).posted, (hq j).resumed, (hq j).gate]
    exact h.grants j
  fits j := (h.fits j).quiet (hq j)
  facts := h.facts.quiet hc ht h.handsOff hq

theorem Holds.change (h : s.Holds ph)
    (hj : ∀ j, s'.tasks j = s.tasks j ∧ ph'.role j = ph.role j ∨
      (s'.tasks j).posted = (s'.tasks j).resumed + (s'.tasks j).gate ∧
        (ph'.role j).Fits (s'.tasks j)) (hf : ph'.Facts s') : s'.Holds ph' where
  grants j := by
    rcases hj j with ⟨ht, -⟩ | ⟨hg, -⟩
    · rw [ht]
      exact h.grants j
    · exact hg
  fits j := by
    rcases hj j with ⟨ht, hr⟩ | ⟨-, hfit⟩
    · rw [ht, hr]
      exact h.fits j
    · exact hfit
  facts := hf

theorem Holds.update (h : s.Holds ph) (ht : s'.tasks = Function.update s.tasks i t)
    (hg : t.posted = t.resumed + t.gate) (hi : (ph'.role i).Fits t)
    (hrole : ∀ j, j ≠ i → ph'.role j = ph.role j) (hf : ph'.Facts s') : s'.Holds ph' := by
  refine h.change (fun j => ?_) hf
  by_cases hj : j = i
  · subst hj
    rw [ht, Function.update_self]
    exact .inr ⟨hg, hi⟩
  · rw [ht, Function.update_of_ne hj]
    exact .inl ⟨rfl, hrole j hj⟩

theorem Holds.update_two (h : s.Holds ph) {u : Task}
    (ht : s'.tasks = Function.update (Function.update s.tasks x u) i t)
    (hg : t.posted = t.resumed + t.gate) (hi : (ph'.role i).Fits t)
    (hu : u.posted = u.resumed + u.gate) (hx : (ph'.role x).Fits u)
    (hrole : ∀ j, j ≠ i → j ≠ x → ph'.role j = ph.role j) (hf : ph'.Facts s') : s'.Holds ph' := by
  refine h.change (fun j => ?_) hf
  rw [ht]
  by_cases hj : j = i
  · subst hj
    rw [Function.update_self]
    exact .inr ⟨hg, hi⟩
  rw [Function.update_of_ne hj]
  by_cases hjx : j = x
  · subst hjx
    rw [Function.update_self]
    exact .inr ⟨hu, hx⟩
  · rw [Function.update_of_ne hjx]
    exact .inl ⟨rfl, hrole j hj hjx⟩

theorem quiet_update (h : (s.tasks i).Quiet t) (j : Nat) :
    (s.tasks j).Quiet (Function.update s.tasks i t j) := by
  by_cases hj : j = i
  · subst hj
    rwa [Function.update_self]
  · rw [Function.update_of_ne hj]
    exact .refl _

theorem quiet_state_update (h : t.state = (s.tasks i).state) (j : Nat) :
    (Function.update s.tasks i t j).state = (s.tasks j).state := by
  by_cases hj : j = i
  · subst hj
    rwa [Function.update_self]
  · rw [Function.update_of_ne hj]

theorem Holds.set_quiet (h : s.Holds ph) (hq : (s.tasks i).Quiet t) : (s.set i t).Holds ph :=
  h.quiet rfl (.inl rfl) (quiet_update hq)

theorem Holds.goto (h : s.Holds ph) {pc : Pc} (hb : (s.tasks i).pc.inBody = true)
    (hb' : pc.inBody = true) : (s.goto i pc).Holds ph :=
  h.set_quiet ⟨rfl, rfl, rfl, rfl, rfl, .inl rfl, .inr (.inl ⟨hb, hb'⟩)⟩

theorem Holds.set_goto (h : s.Holds ph) (hq : (s.tasks x).Quiet t) {pc : Pc}
    (hb : (s.tasks i).pc.inBody = true) (hb' : pc.inBody = true) :
    ((s.set x t).goto i pc).Holds ph :=
  (h.set_quiet hq).goto ((quiet_update hq i).inBody hb) hb'

theorem quiet_ready (hb : (s.tasks i).state = .blocked) :
    (s.tasks i).Quiet { s.tasks i with state := .ready } :=
  ⟨rfl, rfl, rfl, rfl, rfl, .inr ⟨hb, rfl⟩, .inl rfl⟩

theorem Holds.setTick (h : s.Holds ph) {pc : TickPc} (hn : s.systick.commits = false)
    (hn' : pc.commits = false) : (s.setTick pc).Holds ph :=
  h.quiet rfl (.inr ⟨hn, hn'⟩) fun _ => .refl _

/-! ### Who has which role -/

theorem Holds.eq_of_gate (h : s.Holds ph) (hg : 0 < (s.tasks i).gate) : ph = .runs i true := by
  have hi := h.fits i
  generalize hr : ph.role i = r at hi
  cases r with
  | granted => exact Phase.eq_of_granted hr
  | _ =>
    exact absurd hi.2.1 (Nat.pos_iff_ne_zero.mp hg)

theorem Holds.role_of_executes (h : s.Holds ph) (he : s.Executes i) :
    ph.role i = .runs ∨ ∃ b, ph.role i = .loses b := by
  have hi := h.fits i
  generalize ph.role i = r at hi ⊢
  cases r with
  | runs => exact .inl rfl
  | loses b => exact .inr ⟨b, rfl⟩
  | rest =>
    obtain ⟨-, -, ⟨hp, -⟩ | ⟨-, hp, -⟩⟩ := hi
    · exact absurd he hp.not_executes
    · rw [Pc.not_retired_of_inBody he.1] at hp
      cases hp
  | picked | granted =>
    exact absurd he hi.2.2.1.not_executes
  | hands =>
    have hp := hi.2.2.2.1
    rw [Pc.not_handsOff_of_inBody he.1] at hp
    cases hp

theorem Holds.eq_of_executes (h : s.Holds ph) (he : s.Executes i)
    (hn : s.systick.commits = false) : ph = .runs i false := by
  rcases h.role_of_executes he with hr | ⟨b, hr⟩
  · exact Phase.eq_of_runs hr
  · have hc := Phase.commits_of_loses h.facts hr
    rw [hn] at hc
    cases hc

theorem Holds.eq_of_handsOff (h : s.Holds ph) (ho : (s.tasks i).pc.handsOff = true) :
    ph = .hands i ∨ ∃ x, ph = .names i x ∨ ph = .posts i x := by
  have hi := h.fits i
  generalize hr : ph.role i = r at hi
  cases r with
  | hands => exact Phase.eq_of_hands hr
  | runs | loses b =>
    rw [Pc.not_handsOff_of_inBody hi.2.2.2.1] at ho
    cases ho
  | rest =>
    obtain ⟨-, -, ⟨hp, -⟩ | ⟨-, hp, -⟩⟩ := hi
    · rw [hp.not_handsOff] at ho
      cases ho
    · rw [Pc.not_handsOff_of_retired hp] at ho
      cases ho
  | picked | granted =>
    rw [hi.2.2.1.not_handsOff] at ho
    cases ho

/-! ### Grants -/

theorem Holds.granted (h : s.Holds (.runs i true)) : Role.granted.Fits (s.tasks i) := by
  have hi := h.fits i
  rwa [Phase.role, if_pos rfl] at hi

theorem Holds.running (h : s.Holds (.runs i false)) : Role.runs.Fits (s.tasks i) := by
  have hi := h.fits i
  rwa [Phase.role, if_pos rfl] at hi

theorem Holds.resumed (h : s.Holds (.runs i true)) {pc : Pc} (hb : pc.inBody = true) :
    (s.set i { s.tasks i with
      gate := (s.tasks i).gate - 1, handler := false, resumed := (s.tasks i).resumed + 1,
      pc := pc }).Holds (.runs i false) := by
  obtain ⟨hs, hg, -, hst⟩ := h.granted
  have hgr := h.grants i
  refine h.update rfl ?_ ?_ (fun j hj => by simp [Phase.role, hj]) h.facts
  · simp only
    omega
  · rw [Phase.role, if_pos rfl]
    exact ⟨hs, by simp [hg], rfl, hb, hst⟩

theorem Holds.take (h : s.Holds ph) (hg : 0 < (s.tasks i).gate) {pc : Pc} (hb : pc.inBody = true)
    (hh : (s.tasks i).handler = false) : (s.take i pc).Inv := by
  obtain rfl := h.eq_of_gate hg
  have hr := h.resumed hb
  rw [← hh] at hr
  exact ⟨_, hr⟩

/-! ### The steps of a task -/

theorem pc_of_atBody (h : s.atBody i = true) : (s.tasks i).pc = .body :=
  of_decide_eq_true (Bool.and_eq_true_iff.mp h).1

theorem Inv.call (h : s.Inv) {c : BlockCall} (hs : s.step (.call i c) = some s') : s'.Inv := by
  obtain ⟨ph, h⟩ := h
  obtain ⟨hb, hs⟩ := enabled hs
  replace hb := pc_of_atBody hb
  have hgoto : ∀ pc : Pc, pc.inBody = true → (s.goto i pc).Inv := fun pc hpc =>
    ⟨ph, h.goto (by rw [hb]; rfl) hpc⟩
  cases c with
  | block =>
    cases hs
    exact hgoto _ rfl
  | sleep ticks | blockTimeout ticks =>
    simp only at hs
    split at hs <;> cases hs
    · exact ⟨ph, h⟩
    · exact hgoto _ rfl

theorem Inv.wake (h : s.Inv) {target : Nat} (hs : s.step (.wake i target) = some s') : s'.Inv := by
  obtain ⟨ph, h⟩ := h
  obtain ⟨hb, ⟨⟩⟩ := enabled hs
  replace hb := pc_of_atBody hb
  split
  · exact ⟨ph, h.goto (by rw [hb]; rfl) rfl⟩
  · exact ⟨ph, h⟩

theorem Inv.exit (h : s.Inv) (hs : s.step (.exit i) = some s') : s'.Inv := by
  obtain ⟨ph, h⟩ := h
  obtain ⟨hb, ⟨⟩⟩ := enabled hs
  replace hb := pc_of_atBody hb
  exact ⟨ph, h.goto (by rw [hb]; rfl) rfl⟩

theorem Holds.giveUp (h : s.Holds (.runs i false)) {st : TaskState} {pc : Pc}
    (hpc : (pc = .stored ∧ st = .done) ∨ (pc = .scanning false (.level 0 none) ∧ st = .blocked)) :
    (s.set i { s.tasks i with state := st, pc := pc }).Holds (.hands i) := by
  obtain ⟨hs, hg, hh, -, -⟩ := h.running
  refine h.update rfl (h.grants i) ?_ (fun j hj => by simp [Phase.role, hj]) ⟨h.facts.1, h.facts.2, ?_⟩
  · rw [Phase.role, if_pos rfl]
    rcases hpc with ⟨rfl, rfl⟩ | ⟨rfl, rfl⟩
    · exact ⟨hs, hg, hh, rfl, .inl ⟨rfl, rfl⟩⟩
    · exact ⟨hs, hg, hh, rfl, .inr ⟨rfl, .inr rfl⟩⟩
  · rw [tasks_set, Function.update_self]
    rcases hpc with ⟨rfl, -⟩ | ⟨rfl, -⟩ <;> exact trivial

theorem runnable_of_scan {start : Nat} {k : Scan} (h : s.scan start k = .inr (some x)) :
    (s.tasks x).state = .ready ∨ (s.tasks x).state = .running := by
  have hrun : ∀ j, s.runnable j = true →
      (s.tasks j).state = .ready ∨ (s.tasks j).state = .running := by
    intro j hj
    simpa [runnable] using hj
  cases k with
  | level j best =>
    simp only [scan] at h
    split at h
    · cases h
    · cases best <;> simp at h
  | pick lvl j =>
    simp only [scan] at h
    split at h
    · split at h
      · rename_i hx
        cases h
        exact hrun _ hx.2
      · cases h
    · cases h
  | last lvl =>
    simp only [scan, Sum.inr.injEq, Option.ite_none_right_eq_some, Option.some.injEq] at h
    obtain ⟨hx, rfl⟩ := h
    exact hrun _ hx.2

theorem Holds.hands (h : s.Holds ph) (hr : ph.role i = .hands) : Role.hands.Fits (s.tasks i) := by
  have hi := h.fits i
  rwa [hr] at hi

theorem Holds.eq_ofPc (h : s.Holds ph) {pc : Pc} (hpc : (s.tasks i).pc = pc)
    (ho : pc.handsOff = true) : ph = .ofPc i pc := by
  subst hpc
  rcases h.eq_of_handsOff ho with rfl | ⟨x, rfl | rfl⟩
  · have hc := h.facts.2.2
    generalize (s.tasks i).pc = pc at hc
    cases pc with
    | named | posting => cases hc
    | _ => rfl
  · obtain ⟨-, -, -, -, fin, hpc⟩ := h.facts
    rw [hpc]
    rfl
  · obtain ⟨-, -, -, fin, hpc⟩ := h.facts
    rw [hpc]
    rfl

theorem Holds.choose (h : s.Holds (.hands i)) {pc : Pc} (ho : pc.handsOff = true)
    (he : pc.ended = (s.tasks i).pc.ended)
    (hf : Phase.Choice s i pc) : (s.goto i pc).Holds (.hands i) := by
  have hrole : (Phase.hands i).role i = .hands := if_pos rfl
  obtain ⟨hs, hg, hh, -, hst⟩ := h.hands hrole
  refine h.update rfl (h.grants i) ?_ (fun j hj => rfl) ⟨h.facts.1, h.facts.2.1, ?_⟩
  · rw [hrole]
    refine ⟨hs, hg, hh, ho, ?_⟩
    simp only [he]
    exact hst
  · simp only [PreSched.goto, tasks_set, Function.update_self]
    refine hf.mono fun x hx hr => ?_
    rwa [tasks_set, Function.update_of_ne hx]

theorem Holds.behind (h : s.Holds ph) (hr : ph.role i = .hands) :
    Role.rest.Fits { s.tasks i with pc := handedOff (s.tasks i).pc.ended } := by
  obtain ⟨hs, hg, hh, -, hst⟩ := h.hands hr
  refine ⟨hs, hg, ?_⟩
  rcases hst with ⟨he, hd⟩ | ⟨he, hw⟩
  · rw [he]
    exact .inr ⟨hh, rfl, hd⟩
  · rw [he]
    exact .inl ⟨.inr ⟨hh, .inr rfl⟩, hw⟩

theorem Holds.drop (h : s.Holds (.hands i)) {fin : Bool} (he : (s.tasks i).pc.ended = fin) :
    ({ s with current := none }.goto i (handedOff fin)).Holds .free := by
  have hb := h.behind (i := i) (if_pos rfl)
  rw [he] at hb
  exact h.update rfl (h.grants i) hb (fun j hj => by simp [Phase.role, hj]) ⟨rfl, h.facts.2.1⟩

theorem Holds.named (h : s.Holds (.hands i)) {fin : Bool}
    (hpc : (s.tasks i).pc = .chosen fin (some x)) (hx : x ≠ i) :
    ({ s with current := some x }.goto i (.named fin x)).Holds (.names i x) := by
  have hrole : (Phase.hands i).role i = .hands := if_pos rfl
  obtain ⟨hs, hg, hh, -, hst⟩ := h.hands hrole
  have hready : (s.tasks x).state = .ready := by
    have hf := h.facts.2.2
    rw [hpc] at hf
    exact (hf x rfl).resolve_left hx
  refine h.update rfl (h.grants i) ?_ (fun j hj => rfl) ⟨rfl, h.facts.2.1, hx, ?_, fin, ?_⟩
  · rw [Phase.role, if_pos rfl]
    refine ⟨hs, hg, hh, rfl, ?_⟩
    have he : (Pc.named fin x).ended = (s.tasks i).pc.ended := by
      rw [hpc]
      cases fin <;> rfl
    simp only [he]
    exact hst
  · simp only [PreSched.goto, tasks_set, Function.update_of_ne hx]
    exact hready
  · simp only [PreSched.goto, tasks_set, Function.update_self]

theorem picked_of_ready {t : Task} (h : Role.rest.Fits t) (hr : t.state = .ready) :
    Role.picked.Fits { t with state := .running } := by
  obtain ⟨hs, hg, ⟨hp, -⟩ | ⟨-, -, hd⟩⟩ := h
  · exact ⟨hs, hg, hp, rfl⟩
  · rw [hr] at hd
    cases hd

theorem granted_of_picked {t : Task} (h : Role.picked.Fits t) :
    Role.granted.Fits { t with gate := t.gate + 1, posted := t.posted + 1 } := by
  obtain ⟨hs, hg, hp, hst⟩ := h
  exact ⟨hs, by simp [hg], hp, hst⟩

theorem Holds.picks (h : s.Holds (.names i x)) {fin : Bool} (hpc : (s.tasks i).pc = .named fin x) :
    ((s.setState x .running).goto i (.posting fin x)).Holds (.posts i x) := by
  obtain ⟨hcur, hn, hx, hr, -⟩ := h.facts
  have hi : (s.setState x .running).tasks i = s.tasks i := Function.update_of_ne (Ne.symm hx) ..
  obtain ⟨hs, hg, hh, -, hst⟩ := h.hands (i := i) (if_pos rfl)
  have hrest := h.fits x
  rw [Phase.role, if_neg hx] at hrest
  refine h.update_two rfl ?_ ?_ (h.grants x) ?_
    (fun j hji hjx => by simp [Phase.role, hji, hjx]) ⟨hcur, hn, hx, fin, ?_⟩
  · rw [hi]
    exact h.grants i
  · rw [hi, Phase.role, if_pos rfl]
    refine ⟨hs, hg, hh, rfl, ?_⟩
    have he : (Pc.posting fin x).ended = (s.tasks i).pc.ended := by
      rw [hpc]
      cases fin <;> rfl
    simp only [he]
    exact hst
  · rw [Phase.role, if_neg hx, if_pos rfl]
    exact picked_of_ready hrest hr
  · simp only [PreSched.goto, tasks_set, Function.update_self]

theorem Holds.posts (h : s.Holds (.posts i x)) {fin : Bool}
    (hpc : (s.tasks i).pc = .posting fin x) :
    ((s.post x).goto i (handedOff fin)).Holds (.runs x true) := by
  obtain ⟨hcur, hn, hx, -⟩ := h.facts
  have hi : (s.post x).tasks i = s.tasks i := Function.update_of_ne (Ne.symm hx) ..
  have hb := h.behind (i := i) (if_pos rfl)
  have he : (s.tasks i).pc.ended = fin := by
    rw [hpc]
    cases fin <;> rfl
  rw [he] at hb
  have hp := h.fits x
  rw [Phase.role, if_neg hx, if_pos rfl] at hp
  have hgr := h.grants x
  refine h.update_two rfl ?_ ?_ ?_ ?_
    (fun j hji hjx => by simp [Phase.role, hji, hjx]) ⟨hcur, hn⟩
  · rw [hi]
    exact h.grants i
  · rw [hi, Phase.role, if_neg (Ne.symm hx)]
    exact hb
  · simp only
    omega
  · rw [Phase.role, if_pos rfl]
    exact granted_of_picked hp

theorem Holds.scans (h : s.Holds (.hands i)) {fin : Bool} {k : Scan}
    (hpc : (s.tasks i).pc = .scanning fin k) (hs : s.taskStep i = some s') :
    s'.Holds (.hands i) := by
  unfold taskStep at hs
  rw [hpc] at hs
  dsimp only at hs
  cases hsc : s.scan i k with
  | inl k' =>
    rw [hsc] at hs
    cases hs
    refine h.choose rfl ?_ trivial
    rw [hpc]
    cases fin <;> rfl
  | inr nxt =>
    rw [hsc] at hs
    cases hs
    refine h.choose rfl ?_ ?_
    · rw [hpc]
      cases fin <;> rfl
    rintro x rfl
    by_cases hx : x = i
    · exact .inl hx
    · -- a task that rests does not run, so the one found is ready
      refine .inr ((runnable_of_scan hsc).resolve_right fun hrun => ?_)
      have hfit := h.fits x
      rw [Phase.role, if_neg hx] at hfit
      obtain ⟨-, -, ⟨-, hw⟩ | ⟨-, -, hd⟩⟩ := hfit
      · simp [hrun] at hw
      · simp [hrun] at hd

theorem Inv.task_handsOff (h : s.Inv) (ho : (s.tasks i).pc.handsOff = true)
    (hs : s.taskStep i = some s') : s'.Inv := by
  obtain ⟨ph, h⟩ := h
  cases hpc : (s.tasks i).pc with
  | stored =>
    obtain rfl : ph = .hands i := h.eq_ofPc hpc rfl
    simp only [taskStep, hpc, if_pos h.facts.1] at hs
    cases hs
    exact ⟨_, h.choose rfl (by rw [hpc]; rfl) trivial⟩
  | scanning fin k =>
    obtain rfl : ph = .hands i := h.eq_ofPc hpc rfl
    exact ⟨_, h.scans hpc hs⟩
  | chosen fin nxt =>
    obtain rfl : ph = .hands i := h.eq_ofPc hpc rfl
    have he : (s.tasks i).pc.ended = fin := by
      rw [hpc]
      cases fin <;> rfl
    simp only [taskStep, hpc] at hs
    cases nxt with
    | none =>
      cases hs
      exact ⟨_, h.drop he⟩
    | some x =>
      simp only at hs
      split at hs <;> cases hs
      · exact ⟨_, h.drop he⟩
      · rename_i hx
        exact ⟨_, h.named hpc hx⟩
  | named fin x =>
    obtain rfl : ph = .names i x := h.eq_ofPc hpc rfl
    simp only [taskStep, hpc] at hs
    cases hs
    exact ⟨_, h.picks hpc⟩
  | posting fin x =>
    obtain rfl : ph = .posts i x := h.eq_ofPc hpc rfl
    simp only [taskStep, hpc] at hs
    cases hs
    exact ⟨_, h.posts hpc⟩
  | _ =>
    rw [hpc] at ho
    cases ho

theorem Inv.task (h : s.Inv)
    (hok : (s.tasks i).pc = .storing ∨ (s.tasks i).pc = .exiting → s.systick.commits = false)
    (hs : s.step (.task i) = some s') : s'.Inv := by
  simp only [step, Option.ite_none_left_eq_some, Bool.not_eq_true] at hs
  obtain ⟨hh, hs⟩ := hs
  by_cases ho : (s.tasks i).pc.handsOff = true
  · exact h.task_handsOff ho hs
  obtain ⟨ph, h⟩ := h
  have hgoto : ∀ pc : Pc, (s.tasks i).pc.inBody = true → pc.inBody = true → (s.goto i pc).Inv :=
    fun pc hb hb' => ⟨ph, h.goto hb hb'⟩
  unfold taskStep at hs
  generalize hpc : (s.tasks i).pc = pc at hs ho
  cases pc with
  | body | finished => cases hs
  | stored | scanning | chosen | named | posting => exact absurd rfl ho
  | starting =>
    obtain ⟨hg, ⟨⟩⟩ := enabled hs
    refine h.take hg ?_ hh
    split <;> rfl
  | waiting =>
    obtain ⟨hg, ⟨⟩⟩ := enabled hs
    exact h.take hg rfl hh
  | waking target =>
    have hb : (s.tasks i).pc.inBody = true := by rw [hpc]; rfl
    dsimp only at hs
    split at hs <;> cases hs
    · rename_i hst
      exact ⟨ph, h.set_goto (quiet_ready hst) hb rfl⟩
    · exact hgoto _ hb rfl
  | claimed target | missed target =>
    have hb : (s.tasks i).pc.inBody = true := by rw [hpc]; rfl
    cases hs
    refine ⟨ph, h.set_goto ?_ hb rfl⟩
    exact ⟨rfl, rfl, rfl, rfl, rfl, .inl rfl, .inl rfl⟩
  | called c =>
    have hb : (s.tasks i).pc.inBody = true := by rw [hpc]; rfl
    dsimp only at hs
    split at hs
    · cases hs
      exact ⟨ph, h.set_quiet ⟨rfl, rfl, rfl, rfl, rfl, .inl rfl, .inr (.inl ⟨hb, rfl⟩)⟩⟩
    · cases c <;> cases hs <;> exact hgoto _ hb rfl
  | arming ticks =>
    cases hs
    exact hgoto _ (by rw [hpc]; rfl) rfl
  | armed ticks now =>
    cases hs
    have hb : (s.tasks i).pc.inBody = true := by rw [hpc]; rfl
    exact ⟨ph, h.set_quiet ⟨rfl, rfl, rfl, rfl, rfl, .inl rfl, .inr (.inl ⟨hb, rfl⟩)⟩⟩
  | storing =>
    cases hs
    obtain rfl := h.eq_of_executes ⟨by rw [hpc]; rfl, hh⟩ (hok (.inl hpc))
    exact ⟨_, h.giveUp (.inr ⟨rfl, rfl⟩)⟩
  | exiting =>
    cases hs
    obtain rfl := h.eq_of_executes ⟨by rw [hpc]; rfl, hh⟩ (hok (.inr hpc))
    exact ⟨_, h.giveUp (.inl ⟨rfl, rfl⟩)⟩
  | retiring =>
    cases hs
    refine ⟨ph, h.quiet rfl (.inl rfl)
      (quiet_update ⟨rfl, rfl, rfl, rfl, rfl, .inl rfl, .inr (.inr ⟨by rw [hpc]; rfl, ?_⟩)⟩)⟩
    simp only
    split <;> rfl
  | lastOut =>
    cases hs
    exact ⟨ph, h.quiet rfl (.inl rfl)
      (quiet_update ⟨rfl, rfl, rfl, rfl, rfl, .inl rfl, .inr (.inr ⟨by rw [hpc]; rfl, rfl⟩)⟩)⟩

/-! ### The steps of the tick thread and of the signal -/

theorem Holds.eq_free (h : s.Holds ph) (hc : s.current = none) (hn : s.systick.commits = false) :
    ph = .free := by
  have hf := h.facts
  cases ph with
  | free => rfl
  | runs c granted | hands c | names c x | posts c x =>
    rw [Phase.Facts, hc] at hf
    cases hf.1
  | takes c x unnamed =>
    rw [hf.1] at hn
    cases unnamed <;> cases hn
  | naming o x | granting o x | posting o x =>
    rw [hf.1] at hn
    cases hn

theorem Holds.eq_of_commits (h : s.Holds ph) {pc : TickPc} : s.systick = pc → pc.commits = true →
    match pc with
    | .unnaming c x => ph = .takes c x false
    | .killing c x => ph = .takes c x true
    | .naming x => ∃ o, ph = .naming o x
    | .granting x => ∃ o, ph = .granting o x
    | .posting x => ∃ o, ph = .posting o x
    | _ => False := by
  rintro rfl hc
  have hf := h.facts
  cases ph with
  | takes c x unnamed =>
    rw [hf.1]
    cases unnamed <;> rfl
  | naming o x | granting o x | posting o x =>
    rw [hf.1]
    exact ⟨o, rfl⟩
  | free | runs c granted =>
    rw [hf.2] at hc
    cases hc
  | hands c | names c x | posts c x =>
    rw [hf.2.1] at hc
    cases hc

theorem Holds.preempt (h : s.Holds (.runs i false)) (hx : (s.tasks x).state = .ready) :
    ((s.setState i .ready).setTick (.unnaming i x)).Holds (.takes i x false) := by
  obtain ⟨hs, hg, hh, hb, hst⟩ := h.running
  have hne : x ≠ i := by
    rintro rfl
    rw [hst] at hx
    cases hx
  refine h.update rfl (h.grants i) ?_ (fun j hj => by simp [Phase.role, hj])
    ⟨rfl, h.facts.1, hne, ?_⟩
  · rw [Phase.role, if_pos rfl]
    exact ⟨hs, hg, hh, hb, rfl⟩
  · rwa [setState, tasks_setTick, tasks_set, Function.update_of_ne hne]

theorem Holds.kill (h : s.Holds (.takes i x true)) :
    ((s.set i { s.tasks i with signal := true }).setTick (.naming x)).Holds
      (.naming (some i) x) := by
  obtain ⟨-, hcur, hne, hr⟩ := h.facts
  have hi := h.fits i
  rw [Phase.role, if_pos rfl] at hi
  obtain ⟨-, hg, hh, hb, hst⟩ := hi
  refine h.update rfl (h.grants i) ?_ (fun j hj => by simp [Phase.role, hj, Ne.symm hj])
    ⟨rfl, hcur, fun he => hne (Option.some.inj he).symm, ?_⟩
  · rw [Phase.role, if_pos rfl]
    exact ⟨rfl, hg, hh, hb, hst⟩
  · rwa [tasks_setTick, tasks_set, Function.update_of_ne hne]

theorem Holds.grant {o : Option Nat} (h : s.Holds (.granting o x)) :
    ((s.setState x .running).setTick (.posting x)).Holds (.posting o x) := by
  obtain ⟨-, hcur, hne, hr⟩ := h.facts
  have hx := h.fits x
  rw [Phase.role, if_neg hne] at hx
  refine h.update rfl (h.grants x) ?_ (fun j hj => by simp [Phase.role, hj]) ⟨rfl, hcur, hne⟩
  rw [Phase.role, if_neg hne, if_pos rfl]
  exact picked_of_ready hx hr

theorem Holds.postGate {o : Option Nat} (h : s.Holds (.posting o x))
    (hsig : ∀ j, (s.tasks j).signal = false) :
    ((s.post x).setTick .idle).Holds (.runs x true) := by
  have ho : o = none := by
    rw [Option.eq_none_iff_forall_ne_some]
    rintro c rfl
    have hc := h.fits c
    rw [Phase.role, if_pos rfl] at hc
    cases (hsig c).symm.trans hc.1
  subst ho
  have hx := h.fits x
  rw [Phase.role, if_neg (by simp), if_pos rfl] at hx
  have hgr := h.grants x
  refine h.update rfl ?_ ?_ (fun j hj => by simp [Phase.role, hj]) ⟨h.facts.2.1, rfl⟩
  · simp only
    omega
  · rw [Phase.role, if_pos rfl]
    exact granted_of_picked hx

theorem Inv.tick (h : s.Inv) (hs : s.step .tick = some s') : s'.Inv := by
  obtain ⟨ph, h⟩ := h
  obtain ⟨⟨hidle, -⟩, ⟨⟩⟩ := enabled hs
  exact ⟨ph, h.quiet rfl (.inr ⟨by rw [hidle]; rfl, rfl⟩) fun _ => .refl _⟩

theorem Inv.systick (h : s.Inv) (hok : s.GateOk .systick) (hs : s.step .systick = some s') :
    s'.Inv := by
  obtain ⟨ph, h⟩ := h
  unfold step systickStep at hs
  unfold GateOk at hok
  dsimp only at hs hok
  have hlook : ∀ pc : TickPc, s.systick.commits = false → pc.commits = false →
      (s.setTick pc).Inv := fun pc hn hn' => ⟨ph, h.setTick hn hn'⟩
  generalize htick : s.systick = pc at hs hok
  cases pc with
  | idle => cases hs
  | ticked now =>
    cases hs
    refine hlook _ (by rw [htick]; rfl) ?_
    split <;> rfl
  | looking now i =>
    have hn : s.systick.commits = false := by rw [htick]; rfl
    dsimp only at hs
    split at hs
    · split at hs <;> cases hs <;> exact hlook _ hn rfl
    · cases hs
      exact hlook _ hn rfl
  | due now i | scanning cur k =>
    have hn : s.systick.commits = false := by rw [htick]; rfl
    dsimp only at hs
    split at hs <;> cases hs <;> exact hlook _ hn rfl
  | clearing now i =>
    cases hs
    refine ⟨ph, h.quiet rfl (.inr ⟨by rw [htick]; rfl, rfl⟩) (quiet_update ?_)⟩
    exact ⟨rfl, rfl, rfl, rfl, rfl, .inl rfl, .inl rfl⟩
  | readying now i =>
    cases hs
    exact ⟨ph, h.quiet rfl (.inr ⟨by rw [htick]; rfl, rfl⟩) (quiet_update (quiet_ready hok))⟩
  | loading =>
    cases hs
    exact hlook _ (by rw [htick]; rfl) rfl
  | chosen cur nxt =>
    have hn : s.systick.commits = false := by rw [htick]; rfl
    dsimp only at hs hok
    cases nxt with
    | none =>
      cases hs
      exact hlook _ hn rfl
    | some x =>
      have hnaming : (∀ c ∈ cur, c ≠ x ∧ (s.tasks c).state ≠ .running) →
          (s.setTick (.naming x)).Inv := by
        intro hcur
        obtain ⟨hc, hr⟩ := hok hcur
        obtain rfl := h.eq_free hc hn
        refine ⟨.naming none x, h.change (fun j => .inl ⟨rfl, ?_⟩) ⟨rfl, hc, by simp, hr⟩⟩
        simp [Phase.role]
      cases cur with
      | none =>
        cases hs
        exact hnaming (by simp)
      | some c =>
        simp only at hs
        split at hs
        · cases hs
          exact hlook _ hn rfl
        · rename_i hx
          split at hs <;> cases hs
          · exact hlook _ hn rfl
          · rename_i hst
            refine hnaming fun c' hc' => ?_
            cases hc'
            exact ⟨Ne.symm hx, hst⟩
  | preempting c x =>
    cases hs
    obtain ⟨-, he, hr⟩ := hok
    obtain rfl := h.eq_of_executes he (by rw [htick]; rfl)
    exact ⟨_, h.preempt hr⟩
  | unnaming c x =>
    cases hs
    obtain rfl := h.eq_of_commits htick rfl
    obtain ⟨-, -, hne, hr⟩ := h.facts
    exact ⟨.takes c x true, h.change (fun j => .inl ⟨rfl, rfl⟩) ⟨rfl, rfl, hne, hr⟩⟩
  | killing c x =>
    cases hs
    obtain rfl := h.eq_of_commits htick rfl
    exact ⟨_, h.kill⟩
  | naming x =>
    cases hs
    obtain ⟨o, rfl⟩ := h.eq_of_commits htick rfl
    obtain ⟨-, -, hne, hr⟩ := h.facts
    exact ⟨.granting o x, h.change (fun j => .inl ⟨rfl, rfl⟩) ⟨rfl, rfl, hne, hr⟩⟩
  | granting x =>
    cases hs
    obtain ⟨o, rfl⟩ := h.eq_of_commits htick rfl
    exact ⟨_, h.grant⟩
  | posting x =>
    cases hs
    obtain ⟨o, rfl⟩ := h.eq_of_commits htick rfl
    exact ⟨_, h.postGate hok⟩

/-- A task that loses the CPU waits in the handler when its signal takes effect. -/
theorem Inv.deliver (h : s.Inv) (hs : s.step (.deliver i) = some s') : s'.Inv := by
  obtain ⟨ph, h⟩ := h
  obtain ⟨⟨hsig, hh⟩, hs⟩ := enabled hs
  replace hs := Option.some.inj hs
  have hi := h.fits i
  have hrole : ph.role i = .loses true := by
    generalize ph.role i = r at hi ⊢
    cases r with
    | loses b => rw [← hi.1, hsig]
    | _ => cases hsig.symm.trans hi.1
  rw [hrole] at hi
  obtain ⟨-, hg, -, hb, hst⟩ := hi
  have hgo : ∀ ph' : Phase, ph'.role i = .rest → (∀ j, j ≠ i → ph'.role j = ph.role j) →
      ph'.Facts s' → s'.Inv := by
    intro ph' hr hne hf
    subst hs
    refine ⟨ph', h.update rfl (h.grants i) ?_ hne hf⟩
    rw [hr]
    exact ⟨rfl, hg, .inl ⟨.inl ⟨by simp [hst], hb⟩, .inl hst⟩⟩
  have hready : ∀ x, (s.tasks x).state = .ready → (s'.tasks x).state = .ready := by
    intro x hx
    subst hs
    rw [tasks_set, quiet_state_update]
    · exact hx
    · rfl
  subst hs
  obtain ⟨x, rfl | rfl | rfl⟩ := Phase.eq_of_signal hrole
  · obtain ⟨ht, hcur, -, hr⟩ := h.facts
    exact hgo (.naming none x) (by simp) (fun j hj => by simp [Ne.symm hj])
      ⟨ht, hcur, by simp, hready x hr⟩
  · obtain ⟨ht, hcur, -, hr⟩ := h.facts
    exact hgo (.granting none x) (by simp) (fun j hj => by simp [Ne.symm hj])
      ⟨ht, hcur, by simp, hready x hr⟩
  · obtain ⟨ht, hcur, hne⟩ := h.facts
    exact hgo (.posting none x) (by simp [show i ≠ x from fun he => hne (he ▸ rfl)])
      (fun j hj => by simp [Ne.symm hj]) ⟨ht, hcur, by simp⟩

theorem Inv.resume (h : s.Inv) (hs : s.step (.resume i) = some s') : s'.Inv := by
  obtain ⟨ph, h⟩ := h
  obtain ⟨⟨hh, hg⟩, ⟨⟩⟩ := enabled hs
  obtain rfl := h.eq_of_gate hg
  have hb : (s.tasks i).pc.inBody = true := by
    rcases h.granted.2.2.1 with ⟨-, hb⟩ | ⟨hn, -⟩
    · exact hb
    · rw [hh] at hn
      cases hn
  have hr := h.resumed hb
  rw [if_pos hb]
  exact ⟨_, hr⟩

theorem step_inv (h : s.Inv) {e : Event} (hok : s.GateOk e) (hs : s.step e = some s') : s'.Inv := by
  cases e with
  | call i c => exact h.call hs
  | wake i target => exact h.wake hs
  | exit i => exact h.exit hs
  | task i => exact h.task hok hs
  | tick => exact h.tick hs
  | systick => exact h.systick hok hs
  | deliver i => exact h.deliver hs
  | resume i => exact h.resume hs

theorem init_inv (n : Nat) (priority : Nat → Nat) (first : Nat) : (init n priority first).Inv := by
  refine ⟨.runs first true, fun j => ?_, fun j => ?_, rfl, rfl⟩
  · simp [init]
  · by_cases hj : j = first
    · rw [Phase.role, if_pos hj]
      simp [Role.Fits, Task.Parked, init, hj]
    · rw [Phase.role, if_neg hj]
      simp [Role.Fits, Task.Parked, init, hj]

theorem Inv.sound (h : s.Inv) : s.Sound := by
  obtain ⟨ph, h⟩ := h
  refine ⟨fun i j hi hj => ?_, h.grants, fun i hi => ?_⟩
  · have hri := h.role_of_executes hi
    have hrj := h.role_of_executes hj
    cases ph <;> simp [Phase.role] at hri hrj <;> grind
  · have hfit := h.fits i
    generalize ph.role i = r at hfit
    cases r with
    | rest =>
      obtain ⟨-, hg, ⟨hp, -⟩ | ⟨-, -, hd⟩⟩ := hfit
      · exact absurd hi hp.not_ended
      · exact ⟨hd, hg⟩
    | hands =>
      obtain ⟨-, hg, -, -, ⟨-, hd⟩ | ⟨he, -⟩⟩ := hfit
      · exact ⟨hd, hg⟩
      · rw [hi] at he
        cases he
    | picked | granted =>
      exact absurd hi hfit.2.2.1.not_ended
    | runs | loses b =>
      rw [Pc.not_ended_of_inBody hfit.2.2.2.1] at hi
      cases hi

/-- In every interleaving whose steps meet the condition, one task runs at a time. -/
theorem run_gates {n : Nat} {priority : Nat → Nat} {first : Nat} {es : List Event}
    (hok : Meets step GateOk (init n priority first) es)
    (hrun : run step (init n priority first) es = some s) : s.Sound := by
  have hstep : ∀ s e s', Inv s → GateOk s e → step s e = some s' → Inv s' :=
    fun _ _ _ h hok hs => step_inv h hok hs
  have h : s.Inv := run_invariant hstep (init_inv n priority first) hok hrun
  exact h.sound

/-- Task 0 begins, and the tick thread chooses task 1 of the same priority. -/
def choosesNext : List Event :=
  [.task 0, .tick, .systick, .systick, .systick, .systick, .systick, .systick, .systick, .systick,
    .systick]

/-- It takes the CPU from task 0 and sends the signal. -/
def sendsSignal : List Event := choosesNext ++ [.systick, .systick, .systick, .systick]

def grantsNext : List Event := [.systick, .systick, .systick, .task 1]

theorem run_gates_preempts : ∃ s,
    run step (init 2 (fun _ => 0) 0) (sendsSignal ++ .deliver 0 :: grantsNext) = some s ∧
      s.Executes 1 ∧ s.Sound := by
  obtain ⟨s, hs, he⟩ : ∃ s, run step (init 2 (fun _ => 0) 0)
      (sendsSignal ++ .deliver 0 :: grantsNext) = some s ∧ s.Executes 1 := ⟨_, rfl, rfl, rfl⟩
  refine ⟨s, hs, he, run_gates ?_ hs⟩
  refine .cons (fun _ => rfl) rfl ?_
  iterate 10 refine .cons trivial rfl ?_
  refine .cons (fun h => absurd rfl (h 0 rfl).2) rfl ?_
  refine .cons ⟨rfl, ⟨rfl, rfl⟩, rfl⟩ rfl ?_
  iterate 5 refine .cons trivial rfl ?_
  refine .cons (fun i => ?_) rfl ?_
  · match i with
    | 0 => rfl
    | 1 => rfl
    | i + 2 => rfl
  · exact .cons (fun _ => rfl) rfl trivial

/-- Task 1 begins before the signal takes effect on task 0. -/
theorem two_tasks_execute : ¬∀ (n : Nat) (priority : Nat → Nat) (first : Nat) (es : List Event)
    (s : PreSched), run step (init n priority first) es = some s → s.Sound := by
  intro h
  have hsound := h 2 (fun _ => 0) 0 (sendsSignal ++ grantsNext) _ rfl
  cases hsound.single 0 1 ⟨rfl, rfl⟩ ⟨rfl, rfl⟩

end PreSched

end Microgarbage.Gates
