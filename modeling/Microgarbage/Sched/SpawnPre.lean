import Microgarbage.Lib.Transition

/-!
# Spawn and wait under the preemptive backend

A parent in `vm_host_fs_handle_spawn_and_wait` and its child in `vm_pre_task_body`, cut at their
accesses to shared state and interleaved in any order. The parent publishes its wait in two stores,
polls the child's halted flag and parks in `presched_block`; the child's body ends, looks through
the slots of all VMs, its own among them, for a waiter and wakes it. Other tasks may wake the parent
and look into the child's slot at any time.
-/

namespace Microgarbage.SpawnPre

open Lib

abbrev Word := BitVec 32

/-- `TrapCause`. -/
inductive TrapCause
  | none
  | illegalInstr
  | loadFault
  | storeFault
  | loadMisaligned
  | storeMisaligned
  | storeRo
  | instrFetchFault
  | instrMisaligned
  | ecall
  | breakpoint
  | halt
  | watchpoint
  | singlestep
  deriving DecidableEq

/-- The test for a crash, `TRAP_ILLEGAL_INSTR` to `TRAP_INSTR_MISALIGNED`. -/
def TrapCause.crashed : TrapCause → Bool
  | .illegalInstr | .loadFault | .storeFault | .loadMisaligned | .storeMisaligned | .storeRo
  | .instrFetchFault | .instrMisaligned => true
  | _ => false

def vmEio : Word := 5

/-- How a VM ends: by its exit call, by a halt, or by a trap. -/
inductive Ending
  | exited (a0 : Word)
  | halted (a0 : Word)
  | trapped (cause : TrapCause)
  deriving DecidableEq

/-- What spawn-and-wait is to return. -/
def Ending.code : Ending → Word
  | .exited a0 | .halted a0 => a0 &&& 0xFF
  | .trapped _ => -vmEio

/-! ## The two tasks -/

/-- Where the parent is, from the loaded child on. -/
inductive ParentPc
  | loaded
  /-- `block_child_vm` is stored. -/
  | named
  /-- Before the look at the child's halted flag. -/
  | polling
  /-- The child was seen halted, or gone. -/
  | seen
  /-- The result is in its register. -/
  | coded (code : Word)
  /-- `block_reason`, then `block_child_vm` are reset. -/
  | resumed (code : Word)
  | cleared (code : Word)
  /-- The child's `VmCpu` is freed; its slot still names it. -/
  | freed (code : Word)
  /-- In `presched_block`. -/
  | blocking
  /-- `pending_wake` was clear. -/
  | checked
  /-- `TASK_BLOCKED` is stored; waiting on the run gate. -/
  | parked
  | returned (code : Word)
  deriving DecidableEq

/-- The parent's next step frees the child. -/
def ParentPc.unloads : ParentPc → Bool
  | .cleared _ => true
  | _ => false

/-- A slot that the child's scan looks at: its own or its parent's. No other VM waits for it. -/
inductive Look
  | own
  | parent
  deriving DecidableEq

/-- Where the child is. -/
inductive ChildPc
  /-- In `vm_step`, or in an ecall that does not end it. -/
  | running
  /-- The exit handler has set the halted flag, which the body loads next. -/
  | exiting
  /-- The body has ended and looks for a waiter in the slots that are left. -/
  | scanning (left : List Look)
  /-- Its own slot was in use; its `block_reason` is read next. -/
  | own (left : List Look)
  /-- The parent's `block_reason` matched. -/
  | reasoned (left : List Look)
  /-- Its `block_child_vm` matched too. -/
  | matched
  /-- In `presched_wake`: the parent was not blocked. -/
  | missed
  | finished
  deriving DecidableEq

/-- The body has its own `VmCpu` in hand. -/
def ChildPc.holds : ChildPc → Bool
  | .running | .exiting | .own _ => true
  | _ => false

/-- The next step loads the child's own slot. -/
def ChildPc.looks : ChildPc → Bool
  | .scanning (.own :: _) => true
  | _ => false

/-- The scan is behind the parent's slot. -/
def ChildPc.passed : ChildPc → Bool
  | .scanning left | .own left => decide (.parent ∉ left)
  | .finished => true
  | _ => false

/-- The parent's task, as `presched_wake` sees it. -/
inductive TaskState
  | running
  | blocked
  | ready
  deriving DecidableEq

structure Sys where
  parent : ParentPc
  blockReason : Bool
  blockChildVm : Bool
  task : TaskState
  pendingWake : Bool
  child : ChildPc
  /-- The child has the lower id of the two. -/
  ownFirst : Bool
  /-- The child's slot in `sys->vms` is not null. -/
  slot : Bool
  /-- Its `VmCpu` is not freed. -/
  loaded : Bool
  halted : Bool
  trapCause : TrapCause
  a0 : Word
  /-- Other wakes that found the parent not blocked and have not set the sticky flag yet. -/
  wakers : Nat
  /-- Other tasks that have loaded the child's slot and not looked at its `VmCpu` yet. -/
  readers : Nat
  /-- How the child ended. -/
  ending : Option Ending
  unloads : Nat
  /-- The child's `VmCpu` was accessed after it was freed. -/
  touched : Bool
  deriving DecidableEq

/-- The child is loaded and registered. -/
def Sys.init (a0 : Word) (ownFirst : Bool) : Sys where
  parent := .loaded
  blockReason := false
  blockChildVm := false
  task := .running
  pendingWake := false
  child := .running
  ownFirst := ownFirst
  slot := true
  loaded := true
  halted := false
  trapCause := .none
  a0 := a0
  wakers := 0
  readers := 0
  ending := none
  unloads := 0
  touched := false

inductive Event
  /-- The parent's next step; the scheduler grants it the CPU. -/
  | parent
  | grant
  /-- The child runs on; it calls exit; it halts; it traps; the next step of its ending. -/
  | run (a0 : Word)
  | exit
  | halt
  | trap (cause : TrapCause)
  | child
  /-- Another task wakes the parent; it sets the sticky flag. -/
  | wake
  | stick
  /-- Another task loads the child's slot; it looks at the `VmCpu`. -/
  | look
  | peek

namespace Sys

variable (s : Sys)

/-- An access to the child's `VmCpu`. -/
def touch : Sys := { s with touched := s.touched || !s.loaded }

/-- The slots that the scan looks at, in its order. -/
def scan : List Look := if s.ownFirst then [.own, .parent] else [.parent, .own]

/-- The exit code that the parent reads from the child. -/
def exitCode : Word :=
  if s.slot then
    if s.trapCause.crashed then -vmEio else s.a0 &&& 0xFF
  else -vmEio

/-- `vm_system_unload_vm` up to its clearing of the slot. -/
def unload : Sys := { s with loaded := false, unloads := s.unloads + 1 }

def parentStep : Option Sys :=
  match s.parent with
  | .loaded => some { s with blockChildVm := true, parent := .named }
  | .named => some { s with blockReason := true, parent := .polling }
  | .polling =>
    some { s with parent := if s.slot = false ∨ s.halted = true then .seen else .blocking }
  | .seen => some { s with parent := .coded s.exitCode }
  | .coded code => some { s with blockReason := false, parent := .resumed code }
  | .resumed code => some { s with blockChildVm := false, parent := .cleared code }
  | .cleared code => some { s.unload with parent := .freed code }
  | .freed code => some { s with slot := false, parent := .returned code }
  | .blocking =>
    if s.pendingWake then some { s with pendingWake := false, parent := .polling }
    else some { s with parent := .checked }
  | .checked => some { s with task := .blocked, parent := .parked }
  | .parked | .returned _ => none

def childStep : Option Sys :=
  match s.child with
  | .running => none
  | .exiting => some { s.touch with child := .scanning s.scan }
  | .scanning [] => some { s with child := .finished }
  | .scanning (.own :: left) => some { s with child := if s.slot then .own left else .scanning left }
  | .own left => some { s.touch with child := .scanning left }
  | .scanning (.parent :: left) =>
    some { s with child := if s.blockReason then .reasoned left else .scanning left }
  | .reasoned left => some { s with child := if s.blockChildVm then .matched else .scanning left }
  | .matched =>
    if s.task = .blocked then some { s with task := .ready, child := .finished }
    else some { s with child := .missed }
  | .missed => some { s with pendingWake := true, child := .finished }
  | .finished => none

def step : Event → Option Sys
  | .parent => s.parentStep
  | .grant =>
    if s.parent = .parked ∧ s.task = .ready then
      some { s with task := .running, parent := .polling }
    else none
  | .run a0 => if s.child = .running then some { s.touch with a0 := a0 } else none
  | .exit =>
    if s.child = .running then
      some { s.touch with
        halted := true
        trapCause := .ecall
        ending := some (.exited s.a0)
        child := .exiting }
    else none
  | .halt =>
    if s.child = .running then
      some { s.touch with
        halted := true
        trapCause := .halt
        ending := some (.halted s.a0)
        child := .scanning s.scan }
    else none
  | .trap cause =>
    if s.child = .running then
      some { s.touch with
        trapCause := cause
        ending := some (.trapped cause)
        child := .scanning s.scan }
    else none
  | .child => s.childStep
  | .wake =>
    if s.task = .blocked then some { s with task := .ready }
    else some { s with wakers := s.wakers + 1 }
  | .stick =>
    if 0 < s.wakers then some { s with pendingWake := true, wakers := s.wakers - 1 } else none
  | .look => some (if s.slot then { s with readers := s.readers + 1 } else s)
  | .peek => if 0 < s.readers then some { s.touch with readers := s.readers - 1 } else none

/-! ## What spawn-and-wait promises -/

/-- Steps of the parent and grants end its call. -/
def Returns : Prop :=
  ∃ es, (∀ e ∈ es, e = .parent ∨ e = .grant) ∧
    ∃ s', run step s es = some s' ∧ ∃ code, s'.parent = .returned code

/-- The call returns behind the child's end with its code, the child is unloaded once and not
touched any more, and once the child's task is finished nothing keeps the parent from returning. -/
structure Sound : Prop where
  code : ∀ code, s.parent = .returned code →
    (∃ e, s.ending = some e ∧ code = e.code) ∧ s.unloads = 1
  unloads : s.unloads ≤ 1
  touched : s.touched = false
  returns : s.child = .finished → s.Returns

/-- The parent has found no sticky wake and is not woken yet. -/
def Deaf : Prop := s.parent = .checked ∨ s.task = .blocked

instance : Decidable s.Deaf := inferInstanceAs (Decidable (_ ∨ _))

/-- The slot names a `VmCpu` that is freed. -/
def Dangling : Prop := s.slot = true ∧ s.loaded = false

instance : Decidable s.Dangling := inferInstanceAs (Decidable (_ ∧ _))

end Sys

/-- The steps that keep the promise: the child does not trap; no task, the child's own included, has
its `VmCpu` in hand when the parent frees it, and none loads its slot until that is cleared; and its
wake sets the sticky flag only while the parent can still find it. -/
def Event.Ok (s : Sys) : Event → Prop
  | .trap _ => False
  | .parent => s.parent.unloads = true → s.child.holds = false ∧ s.readers = 0
  | .child => (s.child.looks = true → ¬ s.Dangling) ∧ (s.child = .missed → ¬ s.Deaf)
  | .look => ¬ s.Dangling
  | _ => True

instance (s : Sys) : ∀ e : Event, Decidable (e.Ok s)
  | .trap _ => inferInstanceAs (Decidable False)
  | .parent => inferInstanceAs (Decidable (_ → _))
  | .child => inferInstanceAs (Decidable (_ ∧ _))
  | .look => inferInstanceAs (Decidable (¬ _))
  | .grant | .run _ | .exit | .halt | .wake | .stick | .peek => inferInstanceAs (Decidable True)

/-! ## The invariant -/

namespace Sys

/-- A running child has not ended; afterwards its flag and its code stand. -/
def ChildOk (s : Sys) : ChildPc → Prop
  | .running => s.ending = none ∧ s.halted = false
  | _ => s.halted = true ∧
      ∃ e, s.ending = some e ∧ e.code = s.a0 &&& 0xFF ∧ s.trapCause.crashed = false

/-- What the parent knows. -/
def ParentOk (s : Sys) : ParentPc → Prop
  | .loaded => True
  | .named => s.blockChildVm = true
  | .polling | .blocking | .checked | .parked => s.blockReason = true ∧ s.blockChildVm = true
  | .seen => s.halted = true
  | .coded code | .resumed code | .cleared code | .freed code | .returned code =>
    s.halted = true ∧ code = s.a0 &&& 0xFF

/-- The child is in its slot until the parent frees it. -/
def SlotOk (s : Sys) : ParentPc → Prop
  | .freed _ => (s.slot = true ∧ s.loaded = false) ∧ s.unloads = 1
  | .returned _ => s.slot = false ∧ s.unloads = 1
  | _ => (s.slot = true ∧ s.loaded = true) ∧ s.unloads = 0

structure Inv (s : Sys) : Prop where
  child : s.ChildOk s.child
  parent : s.ParentOk s.parent
  slot : s.SlotOk s.parent
  /-- What is in hand is not freed. -/
  held : s.child.holds = true ∨ 0 < s.readers → s.loaded = true
  touched : s.touched = false
  task : s.task ≠ .running ↔ s.parent = .parked
  /-- A scan leaves no parent asleep behind it, nor one about to fall asleep. -/
  awake : s.child.passed = true → ¬ s.Deaf ∧ (s.parent = .blocking → s.pendingWake = true)

theorem init_inv (a0 : Word) (ownFirst : Bool) : (init a0 ownFirst).Inv := by
  refine ⟨⟨rfl, rfl⟩, trivial, ⟨⟨rfl, rfl⟩, rfl⟩, fun _ => rfl, rfl, ?_, ?_⟩
  · exact iff_of_false (fun h => h rfl) (fun h => by cases h)
  · intro h
    cases h

section Steps

variable {s s' : Sys}

theorem Inv.ended (h : s.Inv) (hh : s.halted = true) : s.child ≠ .running ∧
    ∃ e, s.ending = some e ∧ e.code = s.a0 &&& 0xFF ∧ s.trapCause.crashed = false := by
  have hchild := h.child
  cases hc : s.child with
  | running =>
    rw [hc] at hchild
    rw [hchild.2] at hh
    cases hh
  | _ =>
    rw [hc] at hchild
    exact ⟨by simp, hchild.2⟩

theorem Inv.halted (h : s.Inv) (hc : s.child ≠ .running) : s.halted = true := by
  have hchild := h.child
  cases hc' : s.child with
  | running => exact absurd hc' hc
  | _ =>
    rw [hc'] at hchild
    exact hchild.1

theorem ne_running_of_passed (hp : s.child.passed = true) : s.child ≠ .running := by
  intro hc
  rw [hc] at hp
  cases hp

theorem scan_passed : (ChildPc.scanning s.scan).passed = false := by
  unfold scan
  cases s.ownFirst <;> rfl

/-- An access to what is not freed goes unnoticed. -/
theorem Inv.touch_eq (h : s.Inv) (hl : s.loaded = true) : s.touch = s := by
  have htouch := h.touched
  unfold touch
  cases s
  dsimp only at hl htouch ⊢
  rw [hl, htouch]
  rfl

theorem Inv.parent_step (h : s.Inv) (hok : Event.Ok s .parent) (hs : s.parentStep = some s') :
    s'.Inv := by
  obtain ⟨hchild, hparent, hslot, hheld, htouch, htask, hawake⟩ := id h
  unfold parentStep at hs
  cases hp : s.parent with
  | loaded | named | coded code | resumed code =>
    rw [hp] at hs hparent hslot htask
    cases hs
    refine ⟨hchild, ?_, hslot, hheld, htouch, ?_, fun hf => ⟨?_, fun hb => by cases hb⟩⟩
    · first | exact rfl | exact ⟨rfl, hparent⟩ | exact hparent
    · exact iff_of_false (fun ht => by simpa using htask.mp ht) (fun hq => by cases hq)
    · rintro (hq | hq)
      · cases hq
      · exact (hawake hf).1 (.inr hq)
  | polling =>
    rw [hp] at hs hparent hslot htask
    cases hs
    have hrun : s.task = .running := by simpa using htask
    by_cases hh : s.halted = true
    · rw [if_pos (.inr hh)]
      refine ⟨hchild, hh, hslot, hheld, htouch, by simp [hrun], fun hf => ⟨?_, fun hb => by cases hb⟩⟩
      simp [Deaf, hrun]
    · -- the child still runs, so it has not finished
      have hseen : ¬ (s.slot = false ∨ s.halted = true) := by simp [hslot.1.1, hh]
      rw [if_neg hseen]
      refine ⟨hchild, hparent, hslot, hheld, htouch, by simp [hrun], fun hf => absurd ?_ hh⟩
      exact h.halted (ne_running_of_passed hf)
  | seen =>
    rw [hp] at hs hparent hslot htask
    cases hs
    have hrun : s.task = .running := by simpa using htask
    obtain ⟨-, e, -, -, hcause⟩ := h.ended hparent
    have hcode : s.exitCode = s.a0 &&& 0xFF := by
      unfold exitCode
      rw [if_pos hslot.1.1, hcause, if_neg Bool.false_ne_true]
    refine ⟨hchild, ⟨hparent, hcode⟩, hslot, hheld, htouch, by simp [hrun],
      fun hf => ⟨?_, fun hb => by cases hb⟩⟩
    simp [Deaf, hrun]
  | cleared code =>
    obtain ⟨hfree, hreaders⟩ := hok (by rw [hp]; rfl)
    rw [hp] at hs hparent hslot htask
    cases hs
    have hrun : s.task = .running := by simpa using htask
    refine ⟨hchild, hparent, ⟨⟨hslot.1.1, rfl⟩, congrArg (· + 1) hslot.2⟩, ?_, htouch,
      by simp [hrun, unload], fun hf => ⟨by simp [Deaf, hrun, unload], fun hb => by cases hb⟩⟩
    rintro (hc | hr)
    · exact absurd (hfree.symm.trans hc) Bool.false_ne_true
    · exact absurd hr (by simp [unload, hreaders])
  | freed code =>
    rw [hp] at hs hparent hslot htask
    cases hs
    have hrun : s.task = .running := by simpa using htask
    exact ⟨hchild, hparent, ⟨rfl, hslot.2⟩, hheld, htouch, by simp [hrun],
      fun hf => ⟨by simp [Deaf, hrun], fun hb => by cases hb⟩⟩
  | blocking =>
    rw [hp] at hs hparent hslot htask
    have hrun : s.task = .running := by simpa using htask
    dsimp only at hs
    split at hs
    · cases hs
      refine ⟨hchild, hparent, hslot, hheld, htouch, by simp [hrun],
        fun hf => ⟨?_, fun hb => by cases hb⟩⟩
      simp [Deaf, hrun]
    · rename_i hnone
      cases hs
      refine ⟨hchild, hparent, hslot, hheld, htouch, by simp [hrun], fun hf => ?_⟩
      exact absurd ((hawake hf).2 hp) hnone
  | checked =>
    rw [hp] at hs hparent hslot htask
    cases hs
    refine ⟨hchild, hparent, hslot, hheld, htouch, by simp, fun hf => ?_⟩
    exact absurd (.inl hp) (hawake hf).1
  | parked => rw [hp] at hs; cases hs
  | returned code => rw [hp] at hs; cases hs

/-- A parent that the child's body does not find waiting is not asleep. -/
theorem Inv.awake_of_unmarked (h : s.Inv) (hm : s.blockReason = false ∨ s.blockChildVm = false) :
    ¬ s.Deaf ∧ (s.parent = .blocking → s.pendingWake = true) := by
  have hmarked : ¬ (s.blockReason = true ∧ s.blockChildVm = true) := by
    rcases hm with hm | hm <;> simp [hm]
  have hparent := h.parent
  have hpc : ∀ p, s.parent = p → (p = .checked ∨ p = .parked ∨ p = .blocking) → False := by
    rintro p hp (rfl | rfl | rfl) <;> rw [hp] at hparent <;> exact hmarked hparent
  refine ⟨?_, fun hb => (hpc _ hb (.inr (.inr rfl))).elim⟩
  rintro (hq | hq)
  · exact hpc _ hq (.inl rfl)
  · exact hpc _ (h.task.mp (by simp [hq])) (.inr (.inl rfl))

/-- The child goes on behind its end. -/
theorem Inv.childTo (h : s.Inv) (hc : s.child ≠ .running) {pc : ChildPc} (hpc : pc ≠ .running)
    (hl : pc.holds = true → s.loaded = true)
    (ha : pc.passed = true → ¬ s.Deaf ∧ (s.parent = .blocking → s.pendingWake = true)) :
    Inv { s with child := pc } := by
  have hh := h.halted hc
  refine ⟨?_, h.parent, h.slot, fun hor => hor.elim hl fun hr => h.held (.inr hr), h.touched, h.task,
    ha⟩
  cases pc with
  | running => exact absurd rfl hpc
  | _ => exact ⟨hh, (h.ended hh).2⟩

theorem Inv.child_step (h : s.Inv) (hok : Event.Ok s .child) (hs : s.childStep = some s') :
    s'.Inv := by
  have hheld := h.held
  have hawake := h.awake
  unfold childStep at hs
  cases hc : s.child with
  | running => rw [hc] at hs; cases hs
  | exiting =>
    rw [hc] at hs hheld
    cases hs
    rw [h.touch_eq (hheld (.inl rfl))]
    exact h.childTo (by simp [hc]) (by simp) (fun hf => by cases hf)
      fun hf => absurd (scan_passed.symm.trans hf) Bool.false_ne_true
  | scanning left =>
    rw [hc] at hs hawake
    rcases left with _ | ⟨_ | _, left⟩
    · cases hs
      exact h.childTo (by simp [hc]) (by simp) (fun hf => by cases hf) fun _ => hawake rfl
    · cases hs
      have hpast : decide (.parent ∉ left) = true →
          ¬ s.Deaf ∧ (s.parent = .blocking → s.pendingWake = true) := fun hf =>
        hawake (by simpa [ChildPc.passed] using hf)
      by_cases hslot : s.slot = true
      · rw [if_pos hslot]
        refine h.childTo (by simp [hc]) (by simp) (fun _ => ?_) hpast
        by_contra hfree
        exact hok.1 (by rw [hc]; rfl) ⟨hslot, (Bool.not_eq_true _).mp hfree⟩
      · rw [if_neg hslot]
        exact h.childTo (by simp [hc]) (by simp) (fun hf => by cases hf) hpast
    · cases hs
      by_cases hb : s.blockReason = true
      · rw [if_pos hb]
        exact h.childTo (by simp [hc]) (by simp) (fun hf => by cases hf) fun hf => by cases hf
      · rw [if_neg hb]
        exact h.childTo (by simp [hc]) (by simp) (fun hf => by cases hf)
          fun _ => h.awake_of_unmarked (.inl (Bool.eq_false_iff.mpr hb))
  | own left =>
    rw [hc] at hs hheld hawake
    cases hs
    rw [h.touch_eq (hheld (.inl rfl))]
    exact h.childTo (by simp [hc]) (by simp) (fun hf => by cases hf) hawake
  | reasoned left =>
    rw [hc] at hs
    cases hs
    by_cases hb : s.blockChildVm = true
    · rw [if_pos hb]
      exact h.childTo (by simp [hc]) (by simp) (fun hf => by cases hf) fun hf => by cases hf
    · rw [if_neg hb]
      exact h.childTo (by simp [hc]) (by simp) (fun hf => by cases hf)
        fun _ => h.awake_of_unmarked (.inr (Bool.eq_false_iff.mpr hb))
  | matched =>
    rw [hc] at hs
    dsimp only at hs
    split at hs
    · rename_i ht
      cases hs
      have hparked : s.parent = .parked := h.task.mp (by simp [ht])
      have hh := h.halted (by simp [hc])
      exact ⟨⟨hh, (h.ended hh).2⟩, h.parent, h.slot,
        fun hor => hor.elim (fun hf => by cases hf) fun hr => hheld (.inr hr), h.touched,
        iff_of_true (by simp) hparked, fun _ => ⟨by simp [Deaf, hparked], by simp [hparked]⟩⟩
    · cases hs
      exact h.childTo (by simp [hc]) (by simp) (fun hf => by cases hf) fun hf => by cases hf
  | missed =>
    rw [hc] at hs
    cases hs
    have hh := h.halted (by simp [hc])
    exact ⟨⟨hh, (h.ended hh).2⟩, h.parent, h.slot,
      fun hor => hor.elim (fun hf => by cases hf) fun hr => hheld (.inr hr), h.touched, h.task,
      fun _ => ⟨hok.2 hc, fun _ => rfl⟩⟩
  | finished => rw [hc] at hs; cases hs

/-- The child runs on or ends. -/
theorem Inv.run_step (h : s.Inv) (hc : s.child = .running) {a0 : Word} {halted : Bool}
    {cause : TrapCause} {ending : Option Ending} {pc : ChildPc}
    (hpc : ChildOk { s with a0 := a0, halted := halted, trapCause := cause, ending := ending } pc)
    (hf : pc.passed = false) :
    Inv { s.touch with
      a0 := a0
      halted := halted
      trapCause := cause
      ending := ending
      child := pc } := by
  have hchild := h.child
  have hheld := h.held
  have hparent := h.parent
  rw [hc] at hchild hheld
  have hl := hheld (.inl rfl)
  rw [h.touch_eq hl]
  refine ⟨?_, ?_, h.slot, fun _ => hl, h.touched, h.task,
    fun hp => absurd (hf.symm.trans hp) Bool.false_ne_true⟩
  · cases pc <;> exact hpc
  · show ParentOk _ s.parent
    cases hq : s.parent with
    | loaded => exact trivial
    | named | polling | blocking | checked | parked =>
      rw [hq] at hparent
      exact hparent
    | seen =>
      rw [hq] at hparent
      exact absurd (hchild.2.symm.trans hparent) Bool.false_ne_true
    | coded code | resumed code | cleared code | freed code | returned code =>
      rw [hq] at hparent
      exact absurd (hchild.2.symm.trans hparent.1) Bool.false_ne_true

theorem Inv.step (h : s.Inv) {e : Event} (hok : e.Ok s) (hs : s.step e = some s') : s'.Inv := by
  unfold Sys.step at hs
  cases e with
  | parent => exact h.parent_step hok hs
  | child => exact h.child_step hok hs
  | trap cause => exact hok.elim
  | grant =>
    obtain ⟨hg, ⟨⟩⟩ := enabled hs
    have hparent := h.parent
    have hslot := h.slot
    rw [hg.1] at hparent hslot
    refine ⟨h.child, hparent, hslot, h.held, h.touched, by simp,
      fun _ => ⟨?_, fun hb => by cases hb⟩⟩
    simp [Deaf]
  | run a0 =>
    obtain ⟨hc, ⟨⟩⟩ := enabled hs
    have hchild := h.child
    rw [hc] at hchild
    have hpc : s.touch.child = .running := hc
    refine h.run_step hc ?_ ?_
    · rw [hpc]
      exact hchild
    · rw [hpc]
      rfl
  | exit =>
    obtain ⟨hc, ⟨⟩⟩ := enabled hs
    exact h.run_step hc ⟨rfl, _, rfl, rfl, rfl⟩ rfl
  | halt =>
    obtain ⟨hc, ⟨⟩⟩ := enabled hs
    exact h.run_step hc ⟨rfl, _, rfl, rfl, rfl⟩ scan_passed
  | wake =>
    dsimp only at hs
    split at hs
    · rename_i ht
      cases hs
      have hparked : s.parent = .parked := h.task.mp (by simp [ht])
      exact { h with
          task := iff_of_true (by simp) hparked
          awake := fun _ => ⟨by simp [Deaf, hparked], by simp [hparked]⟩ }
    · cases hs
      exact { h with }
  | stick =>
    obtain ⟨-, ⟨⟩⟩ := enabled hs
    exact { h with awake := fun hf => ⟨(h.awake hf).1, fun _ => rfl⟩ }
  | look =>
    cases hs
    split
    · rename_i hslot
      refine { h with held := fun _ => ?_ }
      by_contra hfree
      exact hok ⟨hslot, (Bool.not_eq_true _).mp hfree⟩
    · exact h
  | peek =>
    obtain ⟨hr, ⟨⟩⟩ := enabled hs
    have hl := h.held (.inr hr)
    rw [h.touch_eq hl]
    exact { h with held := fun _ => hl }

/-! ## The way back -/

theorem Returns.step {e : Event} (h : s'.Returns) (he : e = .parent ∨ e = .grant)
    (hs : s.step e = some s') : s.Returns := by
  obtain ⟨es, hes, s₁, hrun, hret⟩ := h
  refine ⟨e :: es, fun e' he' => ?_, s₁, ?_, hret⟩
  · rcases List.mem_cons.mp he' with rfl | hmem
    · exact he
    · exact hes e' hmem
  · rw [run_cons, hs]
    exact hrun

theorem Returns.parent (h : s'.Returns) (hs : s.parentStep = some s') : s.Returns :=
  h.step (.inl rfl) hs

/-- The parent has left its loop. -/
def Leaving (s : Sys) (code : Word) : Prop :=
  s.parent = .coded code ∨ s.parent = .resumed code ∨ s.parent = .cleared code ∨
    s.parent = .freed code

theorem returns_of_returned {code : Word} (hp : s.parent = .returned code) : s.Returns :=
  ⟨[], fun _ h => absurd h List.not_mem_nil, s, rfl, code, hp⟩

theorem returns_of_leaving {code : Word} (h : s.Leaving code) : s.Returns := by
  have hfreed : ∀ s : Sys, s.parent = .freed code → s.Returns := fun s hp =>
    (returns_of_returned (s := { s with slot := false, parent := .returned code }) rfl).parent
      (by unfold parentStep; rw [hp])
  have hcleared : ∀ s : Sys, s.parent = .cleared code → s.Returns := fun s hp =>
    (hfreed { s.unload with parent := .freed code } rfl).parent
      (by unfold parentStep; rw [hp])
  have hresumed : ∀ s : Sys, s.parent = .resumed code → s.Returns := fun s hp =>
    (hcleared { s with blockChildVm := false, parent := .cleared code } rfl).parent
      (by unfold parentStep; rw [hp])
  rcases h with hp | hp | hp | hp
  · exact (hresumed { s with blockReason := false, parent := .resumed code } rfl).parent
      (by unfold parentStep; rw [hp])
  · exact hresumed s hp
  · exact hcleared s hp
  · exact hfreed s hp

theorem returns_of_seen (hp : s.parent = .seen) : s.Returns :=
  (returns_of_leaving (s := { s with parent := .coded s.exitCode }) (.inl rfl)).parent
    (by unfold parentStep; rw [hp])

theorem returns_of_polling (hp : s.parent = .polling) (hh : s.halted = true) : s.Returns :=
  (returns_of_seen (s := { s with parent := .seen }) rfl).parent (by
    unfold parentStep
    rw [hp]
    simp [hh])

/-- With its child halted a parent returns unless it sleeps or is about to. -/
theorem returns_of_awake (hh : s.halted = true) (hdeaf : ¬ s.Deaf)
    (hblock : s.parent = .blocking → s.pendingWake = true)
    (htask : s.parent = .parked → s.task ≠ .running) : s.Returns := by
  have hnamed : ∀ s : Sys, s.halted = true → s.parent = .named → s.Returns := fun s hh hp =>
    (returns_of_polling (s := { s with blockReason := true, parent := .polling }) rfl hh).parent
      (by unfold parentStep; rw [hp])
  cases hp : s.parent with
  | loaded =>
    exact (hnamed { s with blockChildVm := true, parent := .named } hh rfl).parent
      (by unfold parentStep; rw [hp])
  | named => exact hnamed s hh hp
  | polling => exact returns_of_polling hp hh
  | seen => exact returns_of_seen hp
  | coded code => exact returns_of_leaving (.inl hp)
  | resumed code => exact returns_of_leaving (.inr (.inl hp))
  | cleared code => exact returns_of_leaving (.inr (.inr (.inl hp)))
  | freed code => exact returns_of_leaving (.inr (.inr (.inr hp)))
  | blocking =>
    refine (returns_of_polling (s := { s with pendingWake := false, parent := .polling }) rfl
      hh).parent ?_
    unfold parentStep
    rw [hp]
    simp [hblock hp]
  | checked => exact absurd (.inl hp) hdeaf
  | parked =>
    have hready : s.task = .ready := by
      cases ht : s.task with
      | running => exact absurd ht (htask hp)
      | blocked => exact absurd (.inr ht) hdeaf
      | ready => rfl
    refine (returns_of_polling (s := { s with task := .running, parent := .polling }) rfl
      hh).step (.inr rfl) ?_
    exact if_pos ⟨hp, hready⟩
  | returned code => exact returns_of_returned hp

/-! ## Every run -/

theorem Inv.sound (h : s.Inv) : s.Sound where
  code := by
    intro code hp
    have hparent := h.parent
    have hslot := h.slot
    rw [hp] at hparent hslot
    obtain ⟨-, e, he, hcode, -⟩ := h.ended hparent.1
    exact ⟨⟨e, he, hparent.2.trans hcode.symm⟩, hslot.2⟩
  unloads := by
    have hslot := h.slot
    cases hp : s.parent with
    | freed code | returned code =>
      rw [hp] at hslot
      exact Nat.le_of_eq hslot.2
    | _ =>
      rw [hp] at hslot
      exact Nat.le_trans (Nat.le_of_eq hslot.2) (Nat.zero_le 1)
  touched := h.touched
  returns := by
    intro hf
    obtain ⟨hdeaf, hblock⟩ := h.awake (by rw [hf]; rfl)
    have hhalted := h.halted (by rw [hf]; simp)
    exact returns_of_awake hhalted hdeaf hblock h.task.mpr

end Steps

/-- The child's task is finished, its halted flag is clear and its parent is in the loop. -/
def Unseen (s : Sys) : Prop :=
  s.child = .finished ∧ s.slot = true ∧ s.halted = false ∧
    (s.parent = .polling ∨ s.parent = .blocking ∨ s.parent = .checked ∨ s.parent = .parked)

theorem Unseen.step {s s' : Sys} (h : s.Unseen) {e : Event} (hs : s.step e = some s') :
    s'.Unseen := by
  obtain ⟨hc, hl, hh, hp⟩ := h
  unfold Sys.step at hs
  cases e with
  | parent =>
    unfold parentStep at hs
    rcases hp with hp | hp | hp | hp <;> rw [hp] at hs
    · cases hs
      rw [if_neg (by simp [hl, hh])]
      exact ⟨hc, hl, hh, .inr (.inl rfl)⟩
    · dsimp only at hs
      split at hs <;> cases hs
      · exact ⟨hc, hl, hh, .inl rfl⟩
      · exact ⟨hc, hl, hh, .inr (.inr (.inl rfl))⟩
    · cases hs
      exact ⟨hc, hl, hh, .inr (.inr (.inr rfl))⟩
    · cases hs
  | grant =>
    dsimp only at hs
    split at hs <;> cases hs
    exact ⟨hc, hl, hh, .inl rfl⟩
  | child =>
    unfold childStep at hs
    rw [hc] at hs
    cases hs
  | run a0 | exit | halt | trap cause =>
    dsimp only at hs
    rw [hc] at hs
    cases hs
  | wake | stick | peek =>
    dsimp only at hs
    split at hs <;> cases hs <;> exact ⟨hc, hl, hh, hp⟩
  | look =>
    cases hs
    rw [if_pos hl]
    exact ⟨hc, hl, hh, hp⟩

end Sys

end Microgarbage.SpawnPre
