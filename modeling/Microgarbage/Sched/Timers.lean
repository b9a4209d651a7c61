import Microgarbage.Lib.Clock
import Microgarbage.Sched.Step

/-!
# Timers

The machine is run beside a clock that does not wrap. A wait is what a blocking call with a deadline
leaves behind; as long as it lasts, every scheduler step either finds its time not come and leaves
the VM alone, or finds it come and wakes the VM.
-/

namespace Microgarbage.Sched

open Lib Vm

variable {σ : Type}

/-! ## One scan -/

/-- A VM that is ready again. -/
structure Awake (i : Slot) (p : Ptr) (w : World σ) : Prop where
  reason : (w.cpus p).blockReason = .none
  ready : bmTest w.sched.ready i = true
  blocked : bmTest w.sched.blocked i = false

section Scan

variable {w : World σ} {i : Slot} {p : Ptr}

theorem wakeExpired_waits (hp : w.sched.vms i = some p) (hb : bmTest w.sched.blocked i = true)
    (he : ∀ a0, expiry w.sched.globalTick (w.cpus p) ≠ .wake a0) :
    (wakeExpiredTimeouts w).2.sched.vms i = some p ∧
      bmTest (wakeExpiredTimeouts w).2.sched.blocked i = true ∧
      (wakeExpiredTimeouts w).2.cpus p = w.cpus p := by
  unfold wakeExpiredTimeouts
  refine scanBlocked_induct (P := fun w' => w'.sched.vms i = some p ∧
    bmTest w'.sched.blocked i = true ∧ w'.cpus p = w.cpus p) (fun next w' j q h _ hq => ?_)
    ⟨hp, hb, rfl⟩ _
  obtain ⟨hv, hbit, hcpu⟩ := h
  cases hx : expiry w.sched.globalTick (w'.cpus q) with
  | wait delta | event => exact ⟨hv, hbit, hcpu⟩
  | wake a0 =>
    have hpq : p ≠ q := by
      rintro rfl
      rw [hcpu] at hx
      exact he a0 hx
    have hij : i ≠ j := by
      rintro rfl
      rw [hv, Option.some.injEq] at hq
      exact hpq hq
    refine ⟨hv, ?_, (onCpu_ne w' _ hpq).trans hcpu⟩
    change bmTest (bmClear w'.sched.blocked j) i = true
    rw [bmTest_clear, hbit, decide_eq_false hij]
    rfl

/-- The visit of any slot keeps a VM that the clock wakes, and one that is awake. -/
theorem visit_keeps {tick : Word} {w' : World σ} {j : Slot} {q : Ptr} {a0 a1 : Word}
    (he : expiry tick (w'.cpus p) = .wake a0) :
    (∃ a, expiry tick ((wakeSlot w' j q (wakeCpu a1)).cpus p) = .wake a) ∧
      (Awake i p w' → Awake i p (wakeSlot w' j q (wakeCpu a1))) := by
  have hset : Awake i p w' → bmTest (bmSet w'.sched.ready j) i = true ∧
      bmTest (bmClear w'.sched.blocked j) i = false := by
    intro h
    rw [bmTest_set, bmTest_clear, h.ready, h.blocked, Bool.or_true, Bool.and_false]
    exact ⟨rfl, rfl⟩
  by_cases hpq : p = q
  · subst hpq
    have hcpu : (wakeSlot w' j p (wakeCpu a1)).cpus p = wakeCpu a1 (w'.cpus p) := onCpu_self ..
    rw [hcpu]
    exact ⟨⟨0, rfl⟩, fun h => ⟨by rw [hcpu]; rfl, (hset h).1, (hset h).2⟩⟩
  · have hcpu : (wakeSlot w' j q (wakeCpu a1)).cpus p = w'.cpus p := onCpu_ne w' _ hpq
    rw [hcpu]
    exact ⟨⟨a0, he⟩, fun h => ⟨by rw [hcpu]; exact h.reason, (hset h).1, (hset h).2⟩⟩

/-- What the visit of slot `i` brings about and every visit keeps, holds after a scan. -/
theorem scanBlocked_reaches {α : Type} {body : α → World σ → Slot → Ptr → α × World σ}
    {P Q : World σ → Prop} (hb : bmTest w.sched.blocked i = true)
    (hhome : ∀ w', P w' → w'.sched.vms i = some p)
    (hbody : ∀ acc w' j q, P w' → P (body acc w' j q).2 ∧ (Q w' → Q (body acc w' j q).2))
    (hat : ∀ acc w', P w' → Q (body acc w' i p).2) (hw : P w) (acc : α) :
    Q (scanBlocked body acc w).2 := by
  have hvisit : ∀ s j, P s.2 → P (visitBlocked w.sched.blocked body s j).2 ∧
      (Q s.2 → Q (visitBlocked w.sched.blocked body s j).2) := by
    intro s j hs
    unfold visitBlocked
    split
    · split
      · exact ⟨hs, id⟩
      · exact hbody s.1 s.2 j _ hs
    · exact ⟨hs, id⟩
  obtain ⟨l₁, l₂, hl⟩ := List.append_of_mem (List.mem_finRange i)
  unfold scanBlocked
  rw [hl, List.foldl_append, List.foldl_cons]
  have hbefore : P (l₁.foldl (visitBlocked w.sched.blocked body) (acc, w)).2 :=
    List.foldlRecOn (motive := fun s => P s.2) l₁ _ hw fun s hs j _ => (hvisit s j hs).1
  generalize l₁.foldl (visitBlocked w.sched.blocked body) (acc, w) = s at hbefore
  have hself : Q (visitBlocked w.sched.blocked body s i).2 := by
    unfold visitBlocked
    rw [if_pos hb, hhome s.2 hbefore]
    exact hat s.1 s.2 hbefore
  have hafter := List.foldlRecOn (motive := fun s => P s.2 ∧ Q s.2) l₂
    (visitBlocked w.sched.blocked body) ⟨(hvisit s i hbefore).1, hself⟩
    fun s hs j _ => ⟨(hvisit s j hs.1).1, (hvisit s j hs.1).2 hs.2⟩
  exact hafter.2

theorem wakeExpired_wakes (hp : w.sched.vms i = some p) (hb : bmTest w.sched.blocked i = true)
    {a0 : Word} (he : expiry w.sched.globalTick (w.cpus p) = .wake a0) :
    Awake i p (wakeExpiredTimeouts w).2 := by
  unfold wakeExpiredTimeouts
  refine scanBlocked_reaches (P := fun w' => w'.sched.vms i = some p ∧
    ∃ a, expiry w.sched.globalTick (w'.cpus p) = .wake a) hb (fun w' h => h.1)
    (fun next w' j q h => ?_) (fun next w' h => ?_) ⟨hp, a0, he⟩ _
  · obtain ⟨hv, a, ha⟩ := h
    cases expiry w.sched.globalTick (w'.cpus q) with
    | wait delta | event => exact ⟨⟨hv, a, ha⟩, id⟩
    | wake a1 =>
      obtain ⟨hex, haw⟩ : _ ∧ (Awake i p w' → Awake i p (wakeSlot w' j q (wakeCpu a1))) :=
        visit_keeps ha
      exact ⟨⟨hv, hex⟩, haw⟩
  · obtain ⟨hv, a, ha⟩ := h
    rw [ha]
    have hcpu : (wakeSlot w' i p (wakeCpu a)).cpus p = wakeCpu a (w'.cpus p) := onCpu_self ..
    refine ⟨by rw [hcpu]; rfl, ?_, ?_⟩
    · change bmTest (bmSet w'.sched.ready i) i = true
      rw [bmTest_set, decide_eq_true rfl, Bool.true_or]
    · change bmTest (bmClear w'.sched.blocked i) i = false
      rw [bmTest_clear, decide_eq_true rfl, Bool.not_true, Bool.false_and]

end Scan

/-! ## Waits -/

/-- A VM that a call has blocked with a deadline. -/
structure Wait where
  slot : Slot
  cpu : Ptr
  reason : VmBlockReason
  deadline : Word

namespace Wait

variable (r : Wait)

/-- The wait goes on. -/
def On (w : World σ) : Prop :=
  w.sched.vms r.slot = some r.cpu ∧ bmTest w.sched.blocked r.slot = true ∧
    (w.cpus r.cpu).blockReason = r.reason ∧ (w.cpus r.cpu).blockDeadline = r.deadline

instance (w : World σ) : Decidable (r.On w) := inferInstanceAs (Decidable (_ ∧ _))

/-- Sleeps and receives; a receive with the deadline 0 is one without a timeout. -/
def Timed : Prop := r.reason = .sleep ∨ r.reason = .mailboxRecv ∧ r.deadline ≠ 0

theorem expiry_timed {w : World σ} (h : r.On w) (ht : r.Timed) (tick : Word) :
    expiry tick (w.cpus r.cpu) =
      if tickReached tick r.deadline then
        .wake (if r.reason = .sleep then 0 else errno vmEtimedout)
      else .wait (r.deadline - tick) := by
  obtain ⟨-, -, hreason, hdead⟩ := h
  unfold expiry
  rw [hreason, hdead]
  rcases ht with hs | ⟨hs, hne⟩
  · rw [hs]
    rfl
  · rw [hs]
    dsimp only
    rw [if_pos hne]
    rfl

theorem checked {w : World σ} (h : r.On w) (ht : r.Timed) :
    if tickReached w.sched.globalTick r.deadline then Awake r.slot r.cpu (wakeExpiredTimeouts w).2
    else r.On (wakeExpiredTimeouts w).2 := by
  have he := r.expiry_timed h ht w.sched.globalTick
  obtain ⟨hp, hb, hreason, hdead⟩ := h
  split
  · next hr =>
    rw [if_pos hr] at he
    exact wakeExpired_wakes hp hb he
  · next hr =>
    rw [if_neg hr] at he
    obtain ⟨hp', hb', hcpu⟩ := wakeExpired_waits hp hb fun a0 ha => by
      rw [he] at ha
      cases ha
    exact ⟨hp', hb', hcpu ▸ hreason, hcpu ▸ hdead⟩

end Wait

/-! ## Time -/

/-- The world in which an event checks the timers. -/
def checkWorld (s : Sys σ) (e : Event σ) : Option (World σ) :=
  match s.turn, e with
  | none, .enter tick => some (sampleTick tick s.world)
  | none, .idle _ _ => some s.world
  | _, _ => none

theorem checkWorld_enter {s : Sys σ} (h : s.turn = none) (tick : Option Word) :
    checkWorld s (.enter tick) = some (sampleTick tick s.world) := by
  unfold checkWorld
  rw [h]

/-- The machine, the time that its clock shows, the time of the last check of the timers, and
whether a wait has gone on since it began. -/
structure Clocked (σ : Type) where
  sys : Sys σ
  time : Nat
  lastCheck : Nat
  waiting : Bool

namespace Clocked

variable (c : Clocked σ)

/-- The time at which the clock shows `tick` next. -/
def timeAt (tick : Word) : Nat := c.time + Clock.elapsed c.sys.world.sched.globalTick tick

/-- The step of the machine with its clock. -/
def tock (r : Wait) (e : Event σ) : Option (Clocked σ) :=
  (step c.sys e).map fun s' =>
    { sys := s'
      time := c.timeAt s'.world.sched.globalTick
      lastCheck := match checkWorld c.sys e with
        | some w => c.timeAt w.sched.globalTick
        | none => c.lastCheck
      waiting := c.waiting && decide (r.On s'.world) && match checkWorld c.sys e with
        | some w => decide (r.On (wakeExpiredTimeouts w).2)
        | none => true }

/-- Nothing has ended the wait, and the clock advances by less than half its period between checks. -/
def Advances (c : Clocked σ) (e : Event σ) : Prop :=
  c.waiting = true ∧ ∀ w, checkWorld c.sys e = some w →
    c.timeAt w.sched.globalTick < c.lastCheck + 2 ^ 31

/-- A check of the timers wakes the VM if `due` has come and else leaves it in its wait. -/
def WakesAt (r : Wait) (due : Nat) (c : Clocked σ) (e : Event σ) : Prop :=
  ∀ w, checkWorld c.sys e = some w →
    if due ≤ c.timeAt w.sched.globalTick then Awake r.slot r.cpu (wakeExpiredTimeouts w).2
    else r.On (wakeExpiredTimeouts w).2

/-- As long as the wait goes on, its time has not come. -/
structure WaitInv (r : Wait) (due : Nat) (c : Clocked σ) : Prop where
  shows : BitVec.ofNat 32 c.time = c.sys.world.sched.globalTick
  near : due ≤ c.time + 2 ^ 31
  wait : c.waiting = true → r.On c.sys.world ∧ c.lastCheck < due

variable {c} {r : Wait} {due : Nat} {e : Event σ}

theorem WaitInv.wakesAt (inv : WaitInv r due c) (hdue : BitVec.ofNat 32 due = r.deadline)
    (ht : r.Timed) (hok : Advances c e) : WakesAt r due c e := by
  intro w hw
  have hadv := hok.2 w hw
  obtain ⟨hon, hbefore⟩ := inv.wait hok.1
  have hw' : r.On w := by
    unfold checkWorld at hw
    split at hw
    · next tick _ _ =>
      cases hw
      unfold sampleTick
      split <;> exact hon
    · cases hw
      exact hon
    · cases hw
  have hahead : due ≤ c.timeAt w.sched.globalTick + 2 ^ 31 := by
    have := inv.near
    unfold timeAt
    omega
  have hreach := Clock.reached_ofNat (w := 32) (by decide) (by omega) hahead
  rw [show BitVec.ofNat 32 (c.timeAt w.sched.globalTick) = w.sched.globalTick from
    Clock.ofNat_add_elapsed inv.shows _, hdue] at hreach
  have hcheck := r.checked hw' ht
  change (if Clock.reached w.sched.globalTick r.deadline = true then _ else _) at hcheck
  split
  · next h =>
    rw [if_pos (hreach.mpr h)] at hcheck
    exact hcheck
  · next h =>
    rw [if_neg fun h' => h (hreach.mp h')] at hcheck
    exact hcheck

theorem not_on_of_awake {w : World σ} (h : Awake r.slot r.cpu w) : ¬ r.On w := fun hon => by
  have hb := hon.2.1
  rw [h.blocked] at hb
  cases hb

theorem WaitInv.tock {c' : Clocked σ} (inv : WaitInv r due c)
    (hdue : BitVec.ofNat 32 due = r.deadline) (ht : r.Timed) (hok : Advances c e)
    (hs : c.tock r e = some c') : WaitInv r due c' := by
  have hwakes := inv.wakesAt hdue ht hok
  unfold Clocked.tock at hs
  rw [Option.map_eq_some_iff] at hs
  obtain ⟨s', -, rfl⟩ := hs
  refine ⟨Clock.ofNat_add_elapsed inv.shows _, ?_, fun hw => ?_⟩
  · have := inv.near
    dsimp only [timeAt]
    omega
  · simp only [Bool.and_eq_true, decide_eq_true_eq] at hw
    obtain ⟨⟨-, hon⟩, hcheck⟩ := hw
    refine ⟨hon, ?_⟩
    dsimp only
    cases hc : checkWorld c.sys e with
    | none => exact (inv.wait hok.1).2
    | some w =>
      rw [hc] at hcheck
      have hout := hwakes w hc
      by_contra hle
      rw [if_pos (Nat.not_lt.mp hle)] at hout
      exact not_on_of_awake hout (of_decide_eq_true hcheck)

/-- The machine at the moment a wait begins. -/
def since (s : Sys σ) : Clocked σ :=
  ⟨s, s.world.sched.globalTick.toNat, s.world.sched.globalTick.toNat, true⟩

/-- A wait whose deadline is less than half a period of the clock ahead ends in the first check at
which its time has come, in every run, exactly when it is timed. -/
theorem wakes_exactly_iff {s : Sys σ} (hturn : s.turn = none) (hon : r.On s.world) {delay : Word}
    (hpos : delay ≠ 0) (hdelay : delay.toNat < 2 ^ 31)
    (hdead : r.deadline = s.world.sched.globalTick + delay)
    (hreason : r.reason = .sleep ∨ r.reason = .mailboxRecv) :
    (∀ es, Meets (tock · r) Advances (since s) es →
      Meets (tock · r) (WakesAt r (s.world.sched.globalTick.toNat + delay.toNat)) (since s) es) ↔
      (r.reason = .mailboxRecv → r.deadline ≠ 0) := by
  have hpos' : 0 < delay.toNat := Nat.pos_of_ne_zero fun h => hpos (BitVec.eq_of_toNat_eq h)
  have hdue : BitVec.ofNat 32 (s.world.sched.globalTick.toNat + delay.toNat) = r.deadline := by
    rw [hdead, BitVec.ofNat_add, BitVec.ofNat_toNat, BitVec.ofNat_toNat, BitVec.setWidth_eq,
      BitVec.setWidth_eq]
  constructor
  · intro h hr h0
    -- the scheduler steps at the very tick
    let tick := s.world.sched.globalTick + delay
    have hto : (since s).timeAt tick = s.world.sched.globalTick.toNat + delay.toNat := by
      unfold timeAt Clock.elapsed since
      dsimp only [tick]
      rw [BitVec.add_comm, BitVec.add_sub_cancel]
    have hadv : Advances (since s) (.enter (some tick)) := by
      refine ⟨rfl, fun w hw => ?_⟩
      rw [show checkWorld (since s).sys _ = _ from checkWorld_enter hturn _] at hw
      cases hw
      change (since s).timeAt tick < s.world.sched.globalTick.toNat + 2 ^ 31
      omega
    have hend := (h [.enter (some tick)] ⟨hadv, fun _ _ => trivial⟩).1 _
      (checkWorld_enter hturn _)
    have hcome : s.world.sched.globalTick.toNat + delay.toNat ≤
        (since s).timeAt (sampleTick (some tick) s.world).sched.globalTick := Nat.le_of_eq hto.symm
    rw [if_pos hcome] at hend
    have hon' : r.On (sampleTick (some tick) s.world) := hon
    obtain ⟨hp, hb, hrs, hdl⟩ := hon'
    obtain ⟨-, hb', -⟩ := wakeExpired_waits hp hb fun a0 ha => by
      unfold expiry at ha
      rw [hrs, hr, hdl, h0] at ha
      cases ha
    rw [hend.blocked] at hb'
    cases hb'
  · intro hne es hes
    have ht : r.Timed := hreason.imp id fun h => ⟨h, hne h⟩
    have hsince : WaitInv r (s.world.sched.globalTick.toNat + delay.toNat) (since s) := by
      refine ⟨?_, ?_, fun _ => ⟨hon, ?_⟩⟩
      · unfold since
        rw [BitVec.ofNat_toNat, BitVec.setWidth_eq]
      · dsimp only [since]
        omega
      · dsimp only [since]
        omega
    exact hes.of_invariant (fun _ _ _ inv hok hs => inv.tock hdue ht hok hs)
      (fun _ _ inv hok => inv.wakesAt hdue ht hok) hsince

end Clocked

end Microgarbage.Sched
