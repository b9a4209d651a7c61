import Microgarbage.Mailbox.Calls
import Microgarbage.Sched.Timers

/-!
# Sleeps and timed receives

The three calls that block with a deadline ask for a time from the clock's reading on. Their waits
end on time; but the reading 0, which the deadline of a receive may reach like any other, means that
the receive has none.
-/

namespace Microgarbage.Mailbox

open Lib Vm Containers Sched

inductive TimedCall where
  | sleepTicks
  | sleepUntil
  | recv
  deriving DecidableEq

namespace TimedCall

variable (c : TimedCall)

def handler : SysHandler :=
  match c with
  | sleepTicks => handleSleepTicks
  | sleepUntil => handleSleepUntil
  | recv => handleRecv

def reason : VmBlockReason :=
  match c with
  | sleepTicks => .sleep
  | sleepUntil => .sleep
  | recv => .mailboxRecv

/-- The time that the caller asks for, counted from now. -/
def delay (now : Word) (cpu : VmCpu) : Word :=
  match c with
  | sleepTicks => cpu.regs regA0
  | sleepUntil => cpu.regs regA0 - now
  | recv => cpu.regs regA1

/-- The handler has run. -/
def served (p : Ptr) (w : World VmSystem) : World VmSystem := perform w (c.handler p w)

/-- The call has blocked its caller, which was running. -/
structure Blocks (t : Turn) (w : World VmSystem) : Prop where
  home : w.sched.vms t.vmId = some t.cpu
  live : (w.cpus t.cpu).halted = false
  running : (w.cpus t.cpu).blockReason = .none
  blocked : ((c.served t.cpu w).cpus t.cpu).blockReason = c.reason

/-- The end of the turn in which the call was made. -/
def turnEnd (t : Turn) (used : Nat) (w : World VmSystem) : World VmSystem :=
  endTurn t (turnDispatched t used (c.served t.cpu w)).1

/-- What the caller waits for. -/
def wait (t : Turn) (w : World VmSystem) : Wait :=
  ⟨t.vmId, t.cpu, c.reason,
    w.sched.globalTick + c.delay w.sched.globalTick (w.cpus t.cpu)⟩

/-- In every run from the end of the turn, as long as the wait goes on, a check of the timers wakes
the caller if its time has come and else leaves it alone. -/
def OnTime (t : Turn) (used : Nat) (w : World VmSystem) : Prop :=
  ∀ es, Meets (Clocked.tock · (c.wait t w)) Clocked.Advances
      (Clocked.since ⟨c.turnEnd t used w, none⟩) es →
    Meets (Clocked.tock · (c.wait t w)) (Clocked.WakesAt (c.wait t w)
      (w.sched.globalTick.toNat + (c.delay w.sched.globalTick (w.cpus t.cpu)).toNat))
      (Clocked.since ⟨c.turnEnd t used w, none⟩) es

/-! ## The handlers -/

/-- What a call that blocks leaves behind. -/
structure Parked (p : Ptr) (now delay : Word) (w w' : World VmSystem) : Prop where
  sched : w'.sched = w.sched
  halted : (w'.cpus p).halted = (w.cpus p).halted
  deadline : (w'.cpus p).blockDeadline = now + delay
  asked : delay ≠ 0

variable {c} {p : Ptr} {w : World VmSystem}

theorem parked_sleepTicks (h : ((sleepTicks.served p w).cpus p).blockReason = .sleep) :
    Parked p w.sched.globalTick ((w.cpus p).regs regA0) w (sleepTicks.served p w) := by
  unfold served handler handleSleepTicks cpuHandler perform at h ⊢
  simp only [List.foldl_cons, List.foldl_nil, Act.apply, onCpu_self] at h
  by_cases h0 : (w.cpus p).regs regA0 = 0
  · rw [if_pos h0] at h
    cases h
  · refine ⟨rfl, ?_, ?_, h0⟩ <;>
      simp only [List.foldl_cons, List.foldl_nil, Act.apply, onCpu_self, if_neg h0]

theorem parked_sleepUntil (h : ((sleepUntil.served p w).cpus p).blockReason = .sleep) :
    Parked p w.sched.globalTick ((w.cpus p).regs regA0 - w.sched.globalTick) w
      (sleepUntil.served p w) := by
  unfold served handler handleSleepUntil cpuHandler perform at h ⊢
  simp only [List.foldl_cons, List.foldl_nil, Act.apply, onCpu_self] at h
  by_cases hr : tickReached w.sched.globalTick ((w.cpus p).regs regA0) = true
  · rw [if_pos hr] at h
    cases h
  · refine ⟨rfl, ?_, ?_, fun h0 => hr ?_⟩
    · simp only [List.foldl_cons, List.foldl_nil, Act.apply, onCpu_self, if_neg hr]
    · simp only [List.foldl_cons, List.foldl_nil, Act.apply, onCpu_self, if_neg hr]
      rw [BitVec.add_comm, BitVec.sub_add_cancel]
    · have hnow : (w.cpus p).regs regA0 = w.sched.globalTick :=
        (BitVec.sub_eq_iff_eq_add.mp h0).trans (BitVec.zero_add _)
      unfold tickReached
      rw [hnow, BitVec.sub_self]
      decide

/-- A receive that does not block leaves the reason of its caller alone. -/
theorem parked_recv (hrun : (w.cpus p).blockReason = .none)
    (hdelay : ((w.cpus p).regs regA1).toNat < 2 ^ 31)
    (h : ((recv.served p w).cpus p).blockReason = .mailboxRecv) :
    Parked p w.sched.globalTick ((w.cpus p).regs regA1) w (recv.served p w) := by
  change ((perform w (handleRecv p w)).cpus p).blockReason = _ at h
  change Parked p _ _ w (perform w (handleRecv p w))
  obtain ⟨id, hends⟩ := handleRecv_cases p w
  generalize handleRecv p w = acts at *
  cases hends with
  | fails hfail =>
    rw [hfail.reason, hrun] at h
    cases h
  | takes _ _ =>
    simp only [perform, List.foldl_cons, List.foldl_nil, Act.apply, onCpu_self] at h
    change (w.cpus p).blockReason = _ at h
    rw [hrun] at h
    cases h
  | waits _ _ htimeout =>
    have hnot : (w.cpus p).regs regA1 ≠ 0xFFFFFFFF := fun he => by
      rw [he] at hdelay
      exact absurd hdelay (by decide)
    have hself : (perform w [.cpu p (awaitMessage ((w.cpus p).regs regA0) ((w.cpus p).regs regA1)
        w.sched.globalTick)]).cpus p = awaitMessage ((w.cpus p).regs regA0)
          ((w.cpus p).regs regA1) w.sched.globalTick (w.cpus p) := onCpu_self ..
    refine ⟨rfl, by rw [hself]; rfl, ?_, htimeout⟩
    rw [hself]
    exact if_neg hnot

theorem Blocks.parked {t : Turn} (h : c.Blocks t w)
    (hdelay : (c.delay w.sched.globalTick (w.cpus t.cpu)).toNat < 2 ^ 31) :
    Parked t.cpu w.sched.globalTick (c.delay w.sched.globalTick (w.cpus t.cpu)) w
      (c.served t.cpu w) := by
  cases c with
  | sleepTicks => exact parked_sleepTicks h.blocked
  | sleepUntil => exact parked_sleepUntil h.blocked
  | recv => exact parked_recv h.running hdelay h.blocked

theorem Blocks.on {t : Turn} (h : c.Blocks t w) (used : Nat)
    (hdelay : (c.delay w.sched.globalTick (w.cpus t.cpu)).toNat < 2 ^ 31) :
    (c.wait t w).On (c.turnEnd t used w) ∧
      (c.turnEnd t used w).sched.globalTick = w.sched.globalTick := by
  have hp := h.parked hdelay
  have hne : c.reason ≠ .none := by cases c <;> decide
  have hhome : (c.served t.cpu w).sched.vms t.vmId = some t.cpu := by rw [hp.sched]; exact h.home
  have hlive : ((c.served t.cpu w).cpus t.cpu).halted = false := hp.halted.trans h.live
  have hreason : ((c.served t.cpu w).cpus t.cpu).blockReason ≠ .none := h.blocked ▸ hne
  have hend : (turnDispatched t used (c.served t.cpu w)).1 =
      (c.served t.cpu w).onSched (·.park t.vmId) := by
    unfold turnDispatched applyBlockTransition
    rw [if_neg (by rw [hlive]; exact Bool.false_ne_true), if_pos hreason]
    dsimp only
    rw [hhome]
    dsimp only
    rw [if_neg hreason]
  unfold turnEnd wait
  rw [hend]
  refine ⟨⟨hhome, ?_, h.blocked, hp.deadline⟩, ?_⟩
  · change bmTest (bmSet (c.served t.cpu w).sched.blocked t.vmId) t.vmId = true
    rw [bmTest_set, decide_eq_true rfl, Bool.true_or]
  · change (c.served t.cpu w).sched.globalTick = _
    rw [hp.sched]

end TimedCall

/-- A VM that sleeps or waits for a message with a timeout is woken by the first scheduler step at
which its time has come, and by the clock no sooner, in every run, exactly when the call is no
receive whose deadline is the reading 0. -/
theorem wakes_on_time_iff (c : TimedCall) {t : Turn} (used : Nat) {w : World VmSystem}
    (hblocks : c.Blocks t w)
    (hdelay : (c.delay w.sched.globalTick (w.cpus t.cpu)).toNat < 2 ^ 31) :
    c.OnTime t used w ↔
      (c = .recv → w.sched.globalTick + c.delay w.sched.globalTick (w.cpus t.cpu) ≠ 0) := by
  obtain ⟨hon, htick⟩ := hblocks.on used hdelay
  have hreason : c.reason = .sleep ∨ c.reason = .mailboxRecv := by cases c <;> decide
  have hrecv : c.reason = .mailboxRecv ↔ c = .recv := by cases c <;> decide
  have h := Clocked.wakes_exactly_iff (s := ⟨c.turnEnd t used w, none⟩) rfl hon
    (hblocks.parked hdelay).asked hdelay (by rw [htick]; rfl) hreason
  rw [htick] at h
  unfold TimedCall.OnTime
  rw [h]
  change (c.reason = _ → _) ↔ _
  rw [hrecv]
  rfl

/-- A VM in slot 0 with an empty mailbox that asks for a message. -/
def receiverWorld (tick timeout : Word) : World VmSystem where
  cpus := fun _ => ({ vmInit 0 with
    regions := fun r => if r = regionData then ⟨64, 16, true⟩ else .absent }.setReg regA0
      0x80000000).setReg regA1 timeout
  mem := fun _ => 0
  sched := { vmSchedInit ⟨0, 0⟩ with globalTick := tick, vms := fun _ => some 0, ready := 1#64 }
  host := ⟨fun _ => some 0, fun _ => ⟨0, 0, 0, 0, 4, 1, 0#64, rbInit (fun _ => 0) 1 6⟩⟩

def receiverTurn : Turn := ⟨⟨0, slot_zero_lt⟩, 0, 1000, 0⟩

theorem receiver_blocks (tick : Word) (h : tick = 5 ∨ tick = 0xFFFFFFF6) :
    TimedCall.recv.Blocks receiverTurn (receiverWorld tick 10) := by
  rcases h with rfl | rfl <;> exact ⟨rfl, rfl, rfl, by decide⟩

/-- Asked at tick 5 for 10 ticks. -/
theorem wakes_on_time_receiver : TimedCall.recv.OnTime receiverTurn 3 (receiverWorld 5 10) :=
  (wakes_on_time_iff .recv 3 (receiver_blocks 5 (.inl rfl)) (by decide)).mpr fun _ => by decide

/-- Asked 10 ticks before the clock wraps for 10 ticks. -/
theorem waits_forever : ¬ TimedCall.recv.OnTime receiverTurn 3 (receiverWorld 0xFFFFFFF6 10) := by
  intro h
  have hblocks := receiver_blocks 0xFFFFFFF6 (.inr rfl)
  obtain ⟨hon, -⟩ := hblocks.on 3 (by decide)
  exact (Clocked.wakes_exactly_iff rfl hon (hblocks.parked (by decide)).asked (by decide) rfl
    (.inr rfl)).mp h rfl rfl

end Microgarbage.Mailbox
