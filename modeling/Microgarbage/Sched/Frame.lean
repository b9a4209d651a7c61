import Microgarbage.Sched.Step

/-!
# What the scheduler's calls leave alone

Code outside the scheduler reaches its tables through the entry points only. They leave the
configuration and the cursor as they are, and of a slot whose VM stays in it also the VM, its debt
and its counter.
-/

namespace Microgarbage.Sched

open Lib Vm
open Function (update update_of_ne)

variable {σ : Type}

/-- Configuration and cursor are the same, and so are the slots in `P`. -/
structure Keeps (P : Slot → Prop) (s s' : VmSched) : Prop where
  config : s'.config = s.config
  cursor : s'.cursor = s.cursor
  slot : ∀ i, P i → s'.vms i = s.vms i ∧ s'.debt i = s.debt i ∧
    s'.criticalSectionConsumed i = s.criticalSectionConsumed i

/-- The slots with a VM. -/
def VmSched.Occupied (s : VmSched) (i : Slot) : Prop := (s.vms i).isSome

/-- The call takes the VM out of slot `i`. -/
def Call.Evicts (i : Slot) (c : Call) : Prop := c = .unregister i.val

def Act.Evicts (i : Slot) : Act σ → Prop
  | .call c => c.Evicts i
  | _ => False

/-- Counters stay or are reset, and the configuration stays. -/
structure CountersKept (s s' : VmSched) : Prop where
  config : s'.config = s.config
  consumed : ∀ i, s'.criticalSectionConsumed i = s.criticalSectionConsumed i ∨
    s'.criticalSectionConsumed i = 0

/-- Of the slots in `P` all stays, and of the others the counters stay or are reset. -/
structure Kept (P : Slot → Prop) (s s' : VmSched) : Prop extends Keeps P s s', CountersKept s s'

namespace CountersKept

theorem of_eq {s s' : VmSched} (hc : s'.config = s.config)
    (h : s'.criticalSectionConsumed = s.criticalSectionConsumed) : CountersKept s s' :=
  ⟨hc, fun i => .inl (congrFun h i)⟩

theorem trans {s₁ s₂ s₃ : VmSched} (h : CountersKept s₁ s₂) (h' : CountersKept s₂ s₃) :
    CountersKept s₁ s₃ :=
  ⟨h'.config.trans h.config, fun i => (h'.consumed i).elim
    (fun he => he ▸ h.consumed i) .inr⟩

theorem of_reset {s s' : VmSched} {id : Slot} (hc : s'.config = s.config)
    (h : s'.criticalSectionConsumed = update s.criticalSectionConsumed id 0) :
    CountersKept s s' :=
  ⟨hc, fun i => by
    rw [h]
    by_cases hi : i = id
    · exact .inr (hi ▸ Function.update_self ..)
    · exact .inl (update_of_ne hi ..)⟩

end CountersKept

namespace Kept

variable {P Q : Slot → Prop} {s s₁ s₂ : VmSched}

theorem of_same (hconf : s₁.config = s.config) (hcur : s₁.cursor = s.cursor)
    (hv : s₁.vms = s.vms) (hd : s₁.debt = s.debt)
    (hc : s₁.criticalSectionConsumed = s.criticalSectionConsumed) : Kept P s s₁ :=
  ⟨⟨hconf, hcur, fun i _ => ⟨congrFun hv i, congrFun hd i, congrFun hc i⟩⟩,
    (CountersKept.of_eq hconf hc).consumed⟩

theorem refl : Kept P s s := of_same rfl rfl rfl rfl rfl

theorem trans (h : Kept P s s₁) (h' : Kept Q s₁ s₂) (hq : ∀ i, P i → Q i) : Kept P s s₂ :=
  ⟨⟨h'.config.trans h.config, h'.cursor.trans h.cursor, fun i hi =>
    have hs := h.slot i hi
    have hs' := h'.slot i (hq i hi)
    ⟨hs'.1.trans hs.1, hs'.2.1.trans hs.2.1, hs'.2.2.trans hs.2.2⟩⟩,
    (h.toCountersKept.trans h'.toCountersKept).consumed⟩

theorem mono (h : Kept P s s₁) (hq : ∀ i, Q i → P i) : Kept Q s s₁ :=
  ⟨⟨h.config, h.cursor, fun i hi => h.slot i (hq i hi)⟩, h.consumed⟩

theorem occupied {i : Slot} (h : Kept P s s₁) (hp : P i) (ho : s.Occupied i) : s₁.Occupied i := by
  unfold VmSched.Occupied
  rw [(h.slot i hp).1]
  exact ho

theorem of_update {id : Slot} {v : Option Ptr} (hconf : s₁.config = s.config)
    (hcur : s₁.cursor = s.cursor) (hv : s₁.vms = update s.vms id v)
    (hd : s₁.debt = update s.debt id 0)
    (hc : s₁.criticalSectionConsumed = update s.criticalSectionConsumed id 0)
    (hid : ∀ i, P i → i ≠ id) : Kept P s s₁ :=
  ⟨⟨hconf, hcur, fun i hi => by
    rw [hv, hd, hc, update_of_ne (hid i hi), update_of_ne (hid i hi),
      update_of_ne (hid i hi)]
    exact ⟨rfl, rfl, rfl⟩⟩, (CountersKept.of_reset hconf hc).consumed⟩

theorem scanBlocked {α : Type} {body : α → World σ → Slot → Ptr → α × World σ}
    (hbody : ∀ acc w i p, Kept P w.sched (body acc w i p).2.sched) (acc : α) (w : World σ) :
    Kept P w.sched (Sched.scanBlocked body acc w).2.sched :=
  scanBlocked_induct (P := fun w' => Kept P w.sched w'.sched)
    (fun acc w' i p h _ _ => h.trans (hbody acc w' i p) fun _ h => h) refl acc

theorem wakeExpired (w : World σ) : Kept P w.sched (wakeExpiredTimeouts w).2.sched := by
  unfold wakeExpiredTimeouts
  refine scanBlocked (fun next w i p => ?_) _ w
  split <;> exact of_same rfl rfl rfl rfl rfl

theorem wakeBlockedOn (reason : VmBlockReason) (f : VmCpu → VmCpu) (w : World σ) (id : Nat) :
    Kept P w.sched (Sched.wakeBlockedOn reason f w id).2.sched := by
  unfold Sched.wakeBlockedOn
  split
  · dsimp only
    split
    · exact refl
    · split
      · exact of_same rfl rfl rfl rfl rfl
      · exact refl
  · exact refl

theorem register {w : World σ} {id : Slot} (p : Ptr) (hfree : w.sched.vms id = none) :
    Kept w.sched.Occupied w.sched (Sched.register w id p).sched :=
  of_update (v := some p) rfl rfl rfl rfl rfl fun i hi he => by
    unfold VmSched.Occupied at hi
    rw [he, hfree] at hi
    cases hi

theorem call (w : World σ) (c : Call) :
    Kept (fun i => w.sched.Occupied i ∧ ¬ c.Evicts i) w.sched (c.apply w).sched := by
  cases c with
  | register cpu =>
    change Kept _ w.sched (vmSchedRegister w cpu).2.sched
    unfold vmSchedRegister
    split
    · exact refl
    · split
      · next id hid =>
        refine (register _ ?_).mono fun i hi => hi.1
        simpa using List.find?_some hid
      · exact refl
  | registerAt cpu id =>
    change Kept _ w.sched (vmSchedRegisterAt w cpu id).2.sched
    unfold vmSchedRegisterAt
    split
    · split
      · exact refl
      · split
        · exact refl
        · next hfree => exact (register _ hfree).mono fun i hi => hi.1
    · exact refl
  | unregister id =>
    change Kept _ w.sched (vmSchedUnregister w id).sched
    unfold vmSchedUnregister
    split
    · dsimp only
      split
      · exact refl
      · refine of_update (v := none) rfl rfl rfl rfl rfl fun i hi he => hi.2 ?_
        rw [he]
        rfl
    · exact refl
  | wakeMailbox id a0 => exact wakeBlockedOn ..
  | wakeChild id a0 => exact wakeBlockedOn ..
  | wakeFrameConsumed now =>
    change Kept _ w.sched (vmSchedWakeFrameConsumed w now).2.sched
    unfold vmSchedWakeFrameConsumed
    refine scanBlocked (fun woken w i p => ?_) _ w
    dsimp only
    split <;> exact of_same rfl rfl rfl rfl rfl
  | halt id =>
    change Kept _ w.sched (vmSchedHalt w id).sched
    unfold vmSchedHalt
    split
    · dsimp only
      split
      · exact refl
      · exact of_same rfl rfl rfl rfl rfl
    · exact refl

theorem perform (w : World σ) (acts : List (Act σ)) :
    Kept (fun i => w.sched.Occupied i ∧ ∀ a ∈ acts, ¬ a.Evicts i) w.sched
      (perform w acts).sched := by
  induction acts generalizing w with
  | nil => exact refl
  | cons a acts ih =>
    have hact : Kept (fun i => w.sched.Occupied i ∧ ¬ a.Evicts i) w.sched (a.apply w).sched := by
      cases a with
      | cpu p f => exact refl
      | mem f => exact refl
      | host f => exact refl
      | call c => exact call w c
    have hfirst := hact.mono (Q := fun i => w.sched.Occupied i ∧ ∀ b ∈ a :: acts, ¬ b.Evicts i)
      fun i hi => ⟨hi.1, hi.2 a (List.mem_cons_self ..)⟩
    exact hfirst.trans (ih (a.apply w)) fun i hi =>
      ⟨hfirst.occupied hi hi.1, fun b hb => hi.2 b (List.mem_cons_of_mem _ hb)⟩

theorem ranWorld (tick : Option Word) (t : Turn) (w : World σ) :
    Kept P w.sched (ranWorld tick t w).sched := of_same rfl rfl rfl rfl rfl

theorem sampleTick (tick : Option Word) (w : World σ) :
    Kept P w.sched (sampleTick tick w).sched := by
  unfold Sched.sampleTick
  split <;> exact of_same rfl rfl rfl rfl rfl

theorem turnDispatched {t : Turn} {used : Nat} (h : ¬ t.budget ≤ used) (w : World σ) :
    Kept P w.sched (Sched.turnDispatched t used w).1.sched := by
  unfold Sched.turnDispatched applyBlockTransition
  split
  · exact of_same rfl rfl rfl rfl rfl
  split
  · dsimp only
    split
    · exact refl
    · split
      · exact refl
      · exact of_same rfl rfl rfl rfl rfl
  · exact refl

theorem handleTrap (env : Env σ) (w : World σ) (vmId : Slot) :
    Kept (fun i => w.sched.Occupied i ∧ ∀ p, ∀ a ∈ (env.trapHandler p w).1, ¬ a.Evicts i) w.sched
      (handleTrap env w vmId).sched := by
  unfold Sched.handleTrap
  split
  · exact refl
  · next p _ =>
    have hacts := (perform w (env.trapHandler p w).1).mono
      (Q := fun i => w.sched.Occupied i ∧ ∀ p, ∀ a ∈ (env.trapHandler p w).1, ¬ a.Evicts i)
      fun i hi => ⟨hi.1, hi.2 p⟩
    dsimp only
    split <;> exact hacts.trans (of_same rfl rfl rfl rfl rfl) fun _ h => h

end Kept

theorem Keeps.turnExpired (t : Turn) (used : Nat) (w : World σ) :
    Keeps (fun i => i ≠ t.vmId) w.sched (Sched.turnExpired t used w).1.sched := by
  have hset : ∀ (s : VmSched) (d c : Word), s.config = w.sched.config → s.cursor = w.sched.cursor →
      s.vms = w.sched.vms → s.debt = update w.sched.debt t.vmId d →
      s.criticalSectionConsumed = update w.sched.criticalSectionConsumed t.vmId c →
      Keeps (fun i => i ≠ t.vmId) w.sched s := fun s d c hconf hcur hv hd hc =>
    ⟨hconf, hcur, fun i hi => by
      rw [hv, hd, hc, update_of_ne hi, update_of_ne hi]
      exact ⟨rfl, rfl, rfl⟩⟩
  unfold Sched.turnExpired
  split
  · dsimp only
    split <;> exact hset _ _ _ rfl rfl rfl rfl rfl
  · exact hset _ _ _ rfl rfl rfl rfl rfl

theorem turnExpired_vms (t : Turn) (used : Nat) (w : World σ) :
    (turnExpired t used w).1.sched.vms = w.sched.vms := by
  unfold turnExpired
  split
  · dsimp only
    split <;> rfl
  · rfl

theorem turnIteration_vmId {env : Env σ} {t t' : Turn} {w w' : World σ}
    (h : turnIteration env t w = (w', some t')) : t'.vmId = t.vmId := by
  unfold turnIteration turnExpired turnDispatched at h
  dsimp only at h
  split at h
  · split at h
    · split at h <;> cases h
      rfl
    · cases h
  · split at h
    · cases h
    · split at h
      · cases h
      · split at h <;> cases h
        rfl
  · cases h
  · cases h

end Microgarbage.Sched
