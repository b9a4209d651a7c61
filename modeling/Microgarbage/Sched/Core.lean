import Microgarbage.Vm.Execute
import Mathlib.Data.Fintype.Card
import Mathlib.Logic.Function.Basic

/-!
# The cooperative scheduler: state and entry points

`VmSched` holds pointers to caller-owned CPUs and two bitmaps over its 64 slots. A `World` is
everything a scheduler entry point or an ecall handler can reach: the CPUs by pointer, host memory,
the scheduler and whatever state the embedding system keeps (`σ`).

Code outside the scheduler acts on it in one way: it writes CPUs, memory and its own state, and it
calls scheduler entry points. An ecall or trap handler is therefore modelled by the list of such
actions (`Act`) that it performs.
-/

namespace Microgarbage.Sched

open Lib Vm BitVec

/-! ## Bitmaps -/

abbrev VmSchedBitmap := BitVec 64

/-- A `vm_id` below `VM_SCHED_MAX_VMS`. -/
abbrev Slot := Fin 64

theorem slot_zero_lt : 0 < 64 := by decide

variable (b : VmSchedBitmap)

def bmSet (id : Slot) : VmSchedBitmap := b ||| 1#64 <<< id.val

def bmClear (id : Slot) : VmSchedBitmap := b &&& ~~~(1#64 <<< id.val)

def bmTest (id : Slot) : Bool := b &&& 1#64 <<< id.val != 0#64

/-- First ready slot from `start` on, wrapping around. -/
def findNextReady (ready : VmSchedBitmap) (start : Slot) : Option Slot :=
  ((List.finRange 64).map (start + ·)).find? (bmTest ready)

theorem bmTest_eq_getLsbD (id : Slot) : bmTest b id = b.getLsbD id := by
  have hbit : ∀ i, (1#64 <<< id.val).getLsbD i = decide (i = id.val) := by
    intro i
    simp only [getLsbD_shiftLeft, getLsbD_one]
    grind
  unfold bmTest
  cases h : b.getLsbD id with
  | true =>
    rw [bne_iff_ne]
    intro h0
    have hbit' := getLsbD_and (x := b) (y := 1#64 <<< id.val) (i := id.val)
    rw [h0, getLsbD_zero, h, hbit, decide_eq_true rfl] at hbit'
    exact absurd hbit' Bool.false_ne_true
  | false =>
    rw [bne_eq_false_iff_eq]
    refine eq_of_getLsbD_eq fun i _ => ?_
    rw [getLsbD_and, hbit, getLsbD_zero]
    by_cases hi : i = id.val
    · rw [hi, h, Bool.false_and]
    · rw [decide_eq_false hi, Bool.and_false]

@[simp] theorem bmTest_zero (id : Slot) : bmTest 0#64 id = false := by simp [bmTest]

@[simp] theorem bmTest_set (i j : Slot) :
    bmTest (bmSet b i) j = (decide (j = i) || bmTest b j) := by
  simp only [bmTest_eq_getLsbD, bmSet, getLsbD_or, getLsbD_shiftLeft,
    getLsbD_one, Fin.ext_iff]
  grind

@[simp] theorem bmTest_clear (i j : Slot) :
    bmTest (bmClear b i) j = (!decide (j = i) && bmTest b j) := by
  simp only [bmTest_eq_getLsbD, bmClear, getLsbD_and, getLsbD_not,
    getLsbD_shiftLeft, getLsbD_one, Fin.ext_iff]
  grind

theorem findNextReady_ready {ready : VmSchedBitmap} {start id : Slot}
    (h : findNextReady ready start = some id) : bmTest ready id = true := by
  unfold findNextReady at h
  exact List.find?_some h

/-! ## State -/

/-- A host pointer to a `VmCpu`. -/
abbrev Ptr := Nat

structure VmSchedConfig where
  baselineQuantum : Word
  maxCriticalOverrun : Word

structure VmSched where
  totalQuantaRun : BitVec 64
  totalInstructions : BitVec 64
  globalTick : Word
  trappedVms : Word
  registeredCount : Nat
  config : VmSchedConfig
  vms : Slot → Option Ptr
  debt : Slot → Word
  criticalSectionConsumed : Slot → Word
  ready : VmSchedBitmap
  blocked : VmSchedBitmap
  cursor : Slot

structure World (σ : Type) where
  cpus : Ptr → VmCpu
  mem : Mem
  sched : VmSched
  host : σ

/-- `memset` to zero, then the defaults of an unset configuration. -/
def vmSchedInit (cfg : VmSchedConfig) : VmSched :=
  let baseline := if cfg.baselineQuantum = 0 then 1000 else cfg.baselineQuantum
  let overrun := if cfg.maxCriticalOverrun = 0 then 10 * baseline else cfg.maxCriticalOverrun
  { totalQuantaRun := 0
    totalInstructions := 0
    globalTick := 0
    trappedVms := 0
    registeredCount := 0
    config := ⟨baseline, overrun⟩
    vms := fun _ => none
    debt := fun _ => 0
    criticalSectionConsumed := fun _ => 0
    ready := 0#64
    blocked := 0#64
    cursor := 0 }

namespace VmSched

variable (s : VmSched)

/-- Blocked to ready. -/
def wake (id : Slot) : VmSched :=
  { s with blocked := bmClear s.blocked id, ready := bmSet s.ready id }

/-- Ready to blocked. -/
def park (id : Slot) : VmSched :=
  { s with ready := bmClear s.ready id, blocked := bmSet s.blocked id }

/-- Out of both sets. -/
def drop (id : Slot) : VmSched :=
  { s with ready := bmClear s.ready id, blocked := bmClear s.blocked id }

def setDebt (id : Slot) (v : Word) : VmSched :=
  { s with debt := Function.update s.debt id v }

def setConsumed (id : Slot) (v : Word) : VmSched :=
  { s with criticalSectionConsumed := Function.update s.criticalSectionConsumed id v }

/-- Put a CPU into a free slot. -/
def occupy (id : Slot) (cpu : Ptr) : VmSched :=
  let s := { s with
    vms := Function.update s.vms id (some cpu)
    ready := bmSet s.ready id
    registeredCount := s.registeredCount + 1 }
  (s.setDebt id 0).setConsumed id 0

end VmSched

namespace World

variable {σ : Type}

def onCpu (w : World σ) (p : Ptr) (f : VmCpu → VmCpu) : World σ :=
  { w with cpus := Function.update w.cpus p (f (w.cpus p)) }

def onSched (w : World σ) (f : VmSched → VmSched) : World σ :=
  { w with sched := f w.sched }

end World

section Updates

variable {σ : Type}
variable (w : World σ)

@[simp] theorem onCpu_sched (p : Ptr) (f : VmCpu → VmCpu) :
    (w.onCpu p f).sched = w.sched := rfl

@[simp] theorem onSched_cpus (f : VmSched → VmSched) :
    (w.onSched f).cpus = w.cpus := rfl

@[simp] theorem onSched_sched (f : VmSched → VmSched) :
    (w.onSched f).sched = f w.sched := rfl

@[simp] theorem onCpu_self (p : Ptr) (f : VmCpu → VmCpu) :
    (w.onCpu p f).cpus p = f (w.cpus p) := Function.update_self ..

theorem onCpu_ne {p q : Ptr} (f : VmCpu → VmCpu) (h : q ≠ p) :
    (w.onCpu p f).cpus q = w.cpus q := Function.update_of_ne h ..

end Updates

/-- `uint32_t` of a negated errno. -/
def errno (e : Nat) : Word := -BitVec.ofNat 32 e

def vmEperm : Nat := 1
def vmEnoent : Nat := 2
def vmEagain : Nat := 11
def vmEfault : Nat := 14
def vmEbusy : Nat := 16
def vmEinval : Nat := 22
def vmEnosys : Nat := 38
def vmEtimedout : Nat := 110

/-! ## Registration -/

section EntryPoints

variable {σ : Type}
variable (w : World σ)

/-- Store the CPU in slot `id` and tell it its id. -/
def register (id : Slot) (cpu : Ptr) : World σ :=
  (w.onSched (·.occupy id cpu)).onCpu cpu ({ · with vmId := BitVec.ofNat 16 id })

def lowestFree (s : VmSched) : Option Slot := (List.finRange 64).find? fun i => (s.vms i).isNone

def vmSchedRegister (cpu : Option Ptr) : Int × World σ :=
  match cpu with
  | none => (-2, w)
  | some cpu =>
    match lowestFree w.sched with
    | some id => (id.val, register w id cpu)
    | none => (-1, w)

def vmSchedRegisterAt (cpu : Option Ptr) (requestedId : Nat) : Int × World σ :=
  if h : requestedId < 64 then
    match cpu with
    | none => (-3, w)
    | some cpu =>
      match w.sched.vms ⟨requestedId, h⟩ with
      | some _ => (-2, w)
      | none => (0, register w ⟨requestedId, h⟩ cpu)
  else
    (-1, w)

def vmSchedUnregister (vmId : Nat) : World σ :=
  if h : vmId < 64 then
    let id : Slot := ⟨vmId, h⟩
    match w.sched.vms id with
    | none => w
    | some _ => w.onSched fun s =>
      let s := { s.drop id with
        vms := Function.update s.vms id none
        registeredCount := s.registeredCount - 1 }
      (s.setDebt id 0).setConsumed id 0
  else
    w

/-! ## Wake and halt hooks -/

/-- The CPU side of a wake-up: no block reason, no deadline, a result in `a0`. -/
def wakeCpu (a0 : Word) (cpu : VmCpu) : VmCpu :=
  { cpu with blockReason := .none, blockDeadline := 0 }.setReg regA0 a0

/-- Blocked to ready for the CPU `p` in slot `id`. -/
def wakeSlot (id : Slot) (p : Ptr) (f : VmCpu → VmCpu) : World σ :=
  (w.onCpu p f).onSched (·.wake id)

/-- Wake a VM that is blocked for `reason`; `false` when it is not. -/
def wakeBlockedOn (reason : VmBlockReason) (f : VmCpu → VmCpu) (w : World σ) (vmId : Nat) :
    Bool × World σ :=
  if h : vmId < 64 then
    let id : Slot := ⟨vmId, h⟩
    match w.sched.vms id with
    | none => (false, w)
    | some p =>
      if (w.cpus p).blockReason = reason ∧ bmTest w.sched.blocked id then
        (true, wakeSlot w id p f)
      else
        (false, w)
  else
    (false, w)

def vmSchedWakeMailbox (vmId : Nat) (a0 : Word) : Bool × World σ :=
  wakeBlockedOn .mailboxRecv (wakeCpu a0) w vmId

def vmSchedWakeChild (vmId : Nat) (a0 : Word) : Bool × World σ :=
  wakeBlockedOn .onChild (fun cpu => { wakeCpu a0 cpu with blockChildVm := 0xFFFF }) w vmId

/-- The visit of one slot of a snapshot of the blocked set; empty slots are skipped. -/
def visitBlocked {α : Type} (blocked : VmSchedBitmap)
    (body : α → World σ → Slot → Ptr → α × World σ) (s : α × World σ) (id : Slot) : α × World σ :=
  if bmTest blocked id then
    match s.2.sched.vms id with
    | none => s
    | some p => body s.1 s.2 id p
  else
    s

/-- Visit the slots of the blocked set, lowest first. -/
def scanBlocked {α : Type} (body : α → World σ → Slot → Ptr → α × World σ) (acc : α)
    (w : World σ) : α × World σ :=
  (List.finRange 64).foldl (visitBlocked w.sched.blocked body) (acc, w)

/-- Induction over a scan; `P` also knows which slots are still to be visited. -/
theorem scanBlocked_visits {α : Type} {body : α → World σ → Slot → Ptr → α × World σ}
    {P : List Slot → World σ → Prop} {w : World σ}
    (hskip : ∀ w' i rest, P (i :: rest) w' → P rest w')
    (hbody : ∀ acc w' i p rest, i ∉ rest → P (i :: rest) w' →
      bmTest w.sched.blocked i = true → w'.sched.vms i = some p → P rest (body acc w' i p).2)
    (hw : P (List.finRange 64) w) (acc : α) : P [] (scanBlocked body acc w).2 := by
  have key : ∀ (l : List Slot) (s : α × World σ), l.Nodup → P l s.2 →
      P [] (l.foldl (visitBlocked w.sched.blocked body) s).2 := by
    intro l
    induction l with
    | nil => exact fun _ _ hs => hs
    | cons id l ih =>
      intro s hl hs
      rw [List.nodup_cons] at hl
      refine ih _ hl.2 ?_
      unfold visitBlocked
      split
      case isFalse => exact hskip _ _ _ hs
      case isTrue hb =>
        cases hp : s.2.sched.vms id with
        | none => exact hskip _ _ _ hs
        | some p => exact hbody s.1 s.2 id p l hl.1 hs hb hp
  exact key _ (acc, w) (List.nodup_finRange 64) hw

theorem scanBlocked_induct {α : Type} {body : α → World σ → Slot → Ptr → α × World σ}
    {P : World σ → Prop} {w : World σ}
    (hbody : ∀ acc w' i p, P w' → bmTest w.sched.blocked i = true → w'.sched.vms i = some p →
      P (body acc w' i p).2) (hw : P w) (acc : α) : P (scanBlocked body acc w).2 :=
  scanBlocked_visits (P := fun _ => P) (fun _ _ _ h => h)
    (fun acc w' i p _ _ h hb hp => hbody acc w' i p h hb hp) hw acc

/-- The result is the number of VMs woken. -/
def vmSchedWakeFrameConsumed (nowConsumed : Word) : Nat × World σ :=
  scanBlocked (fun woken w id p =>
    let cpu := w.cpus p
    if cpu.blockReason = .frameConsumed ∧ cpu.blockDeadline ≤ nowConsumed then
      (woken + 1, wakeSlot w id p (wakeCpu 0))
    else
      (woken, w)) 0 w

def vmSchedHalt (vmId : Nat) : World σ :=
  if h : vmId < 64 then
    let id : Slot := ⟨vmId, h⟩
    match w.sched.vms id with
    | none => w
    | some p => (w.onCpu p ({ · with halted := true })).onSched (·.drop id)
  else
    w

/-! ## Timeouts -/

/-- `(int32_t)(now - deadline) >= 0`. -/
def tickReached (now deadline : Word) : Bool := (0#32).sle (now - deadline)

/-- What the clock says about a blocked VM. -/
inductive Expiry where
  | wake (a0 : Word)
  /-- Ticks until the deadline. -/
  | wait (delta : Word)
  /-- Woken by an event, not by the clock. -/
  | event

def expiry (tick : Word) (cpu : VmCpu) : Expiry :=
  let timed (a0 : Word) : Expiry :=
    if tickReached tick cpu.blockDeadline then .wake a0 else .wait (cpu.blockDeadline - tick)
  match cpu.blockReason with
  | .yielded => .wake 0
  | .sleep => timed 0
  -- a deadline of 0 waits indefinitely
  | .mailboxRecv => if cpu.blockDeadline ≠ 0 then timed (errno vmEtimedout) else .event
  | .onChild => .event
  | .frameConsumed => .event
  | .none => .wake 0

/-- The result is the smallest number of ticks to a pending deadline, `UINT32_MAX` if there is
none. -/
def wakeExpiredTimeouts : Word × World σ :=
  let tick := w.sched.globalTick
  scanBlocked (fun next w id p =>
    match expiry tick (w.cpus p) with
    | .wake a0 => (next, wakeSlot w id p (wakeCpu a0))
    | .wait delta => (if delta < next then delta else next, w)
    | .event => (next, w)) (0xFFFFFFFF : Word) w

/-- A timeout scan wakes a slot with the value its clock gives, or leaves it alone. -/
structure Timed (w w' : World σ) : Prop where
  vms : w'.sched.vms = w.sched.vms
  mem : w'.mem = w.mem
  host : w'.host = w.host
  slot : ∀ i p, w.sched.vms i = some p →
    (w'.cpus p = w.cpus p ∧ bmTest w'.sched.blocked i = bmTest w.sched.blocked i) ∨
    ∃ a0, expiry w.sched.globalTick (w.cpus p) = .wake a0 ∧ w'.cpus p = wakeCpu a0 (w.cpus p)

theorem wakeExpiredTimeouts_timed {w : World σ}
    (hinj : ∀ i j p, w.sched.vms i = some p → w.sched.vms j = some p → i = j) :
    Timed w (wakeExpiredTimeouts w).2 := by
  -- a slot still to be visited is untouched, since no CPU is in two slots
  let P (rest : List Slot) (w' : World σ) : Prop :=
    (w'.sched.vms = w.sched.vms ∧ w'.mem = w.mem ∧ w'.host = w.host) ∧
    ∀ i p, w.sched.vms i = some p →
      (w'.cpus p = w.cpus p ∧ bmTest w'.sched.blocked i = bmTest w.sched.blocked i) ∨
      (i ∉ rest ∧ ∃ a0, expiry w.sched.globalTick (w.cpus p) = .wake a0 ∧
        w'.cpus p = wakeCpu a0 (w.cpus p))
  have hskip : ∀ w' i rest, P (i :: rest) w' → P rest w' := fun w' i rest h =>
    ⟨h.1, fun j p hp => (h.2 j p hp).imp_right fun hj =>
      ⟨fun hm => hj.1 (List.mem_cons_of_mem _ hm), hj.2⟩⟩
  have key : P [] (wakeExpiredTimeouts w).2 := by
    unfold wakeExpiredTimeouts
    refine scanBlocked_visits (P := P) hskip (fun next w' id q rest hnot h hb hq => ?_)
      ⟨⟨rfl, rfl, rfl⟩, fun i p hp => .inl ⟨rfl, rfl⟩⟩ _
    have hrest := hskip w' id rest h
    obtain ⟨⟨hv, hm, hh⟩, hs⟩ := h
    rw [hv] at hq
    have hsame : w'.cpus q = w.cpus q := by
      rcases hs id q hq with h | h
      · exact h.1
      · exact absurd (List.mem_cons_self ..) h.1
    rw [hsame]
    cases he : expiry w.sched.globalTick (w.cpus q) with
    | wait delta => exact hrest
    | event => exact hrest
    | wake a0 =>
      refine ⟨⟨hv, hm, hh⟩, fun j p hp => ?_⟩
      by_cases hj : j = id
      · subst hj
        rw [hq, Option.some.injEq] at hp
        subst hp
        refine .inr ⟨hnot, a0, he, ?_⟩
        show (w'.onCpu q (wakeCpu a0)).cpus q = _
        rw [onCpu_self, hsame]
      · have hpq : p ≠ q := fun e => hj (hinj j id q (e ▸ hp) hq)
        have hcpu : (wakeSlot w' id q (wakeCpu a0)).cpus p = w'.cpus p := onCpu_ne w' _ hpq
        have hbit : bmTest (wakeSlot w' id q (wakeCpu a0)).sched.blocked j =
            bmTest w'.sched.blocked j := by
          simp [wakeSlot, VmSched.wake, hj]
        rw [hcpu, hbit]
        exact hrest.2 j p hp
  obtain ⟨⟨hv, hm, hh⟩, hs⟩ := key
  exact ⟨hv, hm, hh, fun i p hp => (hs i p hp).imp_right (·.2)⟩

end EntryPoints

/-! ## Calls and handlers -/

/-- The scheduler entry points open to the host and to handlers. -/
inductive Call where
  | register (cpu : Option Ptr)
  | registerAt (cpu : Option Ptr) (requestedId : Nat)
  | unregister (vmId : Nat)
  | wakeMailbox (vmId : Nat) (a0 : Word)
  | wakeChild (vmId : Nat) (a0 : Word)
  | wakeFrameConsumed (nowConsumed : Word)
  | halt (vmId : Nat)

def Call.apply {σ : Type} (w : World σ) : Call → World σ
  | .register cpu => (vmSchedRegister w cpu).2
  | .registerAt cpu id => (vmSchedRegisterAt w cpu id).2
  | .unregister id => vmSchedUnregister w id
  | .wakeMailbox id a0 => (vmSchedWakeMailbox w id a0).2
  | .wakeChild id a0 => (vmSchedWakeChild w id a0).2
  | .wakeFrameConsumed now => (vmSchedWakeFrameConsumed w now).2
  | .halt id => vmSchedHalt w id

/-- One effect of code outside the scheduler. -/
inductive Act (σ : Type) where
  | cpu (p : Ptr) (f : VmCpu → VmCpu)
  | mem (f : Mem → Mem)
  | host (f : σ → σ)
  | call (c : Call)

def Act.apply {σ : Type} (w : World σ) : Act σ → World σ
  | .cpu p f => w.onCpu p f
  | .mem f => { w with mem := f w.mem }
  | .host f => { w with host := f w.host }
  | .call c => c.apply w

/-- The effects of one call of a handler, in order. -/
def perform {σ : Type} (w : World σ) (acts : List (Act σ)) : World σ := acts.foldl Act.apply w

end Microgarbage.Sched
