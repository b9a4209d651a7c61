import Microgarbage.Mailbox.Ledger

/-!
# Steps that move no message

A timeout, and every iteration of a turn that ends in neither of the two messaging calls, leaves the
mailboxes and the waiting receivers alone.
-/

namespace Microgarbage.Mailbox

open Lib Vm Containers Sched

/-! ## Timeouts -/

theorem expiry_mailboxRecv {tick : Word} {cpu : VmCpu} {a0 : Word}
    (hr : cpu.blockReason = .mailboxRecv) (h : expiry tick cpu = .wake a0) :
    a0 = errno vmEtimedout := by
  unfold expiry at h
  rw [hr] at h
  dsimp only at h
  split at h
  · split at h
    · cases h
      rfl
    · cases h
  · cases h

theorem Quiet.of_timed {w w' : World VmSystem} (h : Timed w w') : Quiet w w' where
  vms := h.vms
  host := by rw [h.host]
  box i := by rw [h.host]; exact ⟨rfl, rfl⟩
  slot i p hp := by
    rcases h.slot i p hp with ⟨hcpu, hb⟩ | ⟨a0, he, hcpu⟩
    · exact ⟨by rw [hcpu], fun _ => ⟨hcpu, hb⟩, fun hr hne => absurd (hcpu ▸ hr) hne⟩
    · refine ⟨by rw [hcpu]; rfl, fun hr => ?_, fun hr _ => ?_⟩
      · rw [hcpu] at hr
        cases hr
      · rw [hcpu, expiry_mailboxRecv hr he]
        exact Nat.le_of_ble_eq_true rfl

/-! ## Iterations that concern the running VM alone -/

/-- Nothing but the running VM, its slot's bits, host memory and counters changed. -/
structure Undisturbed (t : Turn) (w w' : World VmSystem) : Prop where
  vms : w'.sched.vms = w.sched.vms
  host : w'.host.vms = w.host.vms
  box : ∀ i, (w'.host.mailboxes i).fifo = (w.host.mailboxes i).fifo ∧
    (w'.host.mailboxes i).slotSize = (w.host.mailboxes i).slotSize
  cpus : ∀ q, q ≠ t.cpu → w'.cpus q = w.cpus q
  bits : ∀ j, j ≠ t.vmId → bmTest w'.sched.blocked j = bmTest w.sched.blocked j
  vmId : (w'.cpus t.cpu).vmId = (w.cpus t.cpu).vmId
  reason : (w.cpus t.cpu).blockReason ≠ .mailboxRecv → (w'.cpus t.cpu).blockReason ≠ .mailboxRecv

/-- The VM of a turn: in its slot and not waiting for a message. -/
structure Running (t : Turn) (w : World VmSystem) : Prop where
  home : w.sched.vms t.vmId = some t.cpu
  reason : (w.cpus t.cpu).blockReason ≠ .mailboxRecv

namespace Undisturbed

variable {t : Turn} {w w' w'' : World VmSystem}

theorem trans (h : Undisturbed t w w') (h' : Undisturbed t w' w'') : Undisturbed t w w'' where
  vms := h'.vms.trans h.vms
  host := h'.host.trans h.host
  box i := ⟨(h'.box i).1.trans (h.box i).1, (h'.box i).2.trans (h.box i).2⟩
  cpus q hq := (h'.cpus q hq).trans (h.cpus q hq)
  bits j hj := (h'.bits j hj).trans (h.bits j hj)
  vmId := h'.vmId.trans h.vmId
  reason hr := h'.reason (h.reason hr)

theorem running (h : Undisturbed t w w') (hr : Running t w) : Running t w' :=
  ⟨by rw [h.vms]; exact hr.home, h.reason hr.reason⟩

theorem quiet (h : Undisturbed t w w') (hr : Running t w) : Quiet w w' where
  vms := h.vms
  host := h.host
  box := h.box
  slot i p hp := by
    by_cases hpt : p = t.cpu
    · subst hpt
      exact ⟨h.vmId, fun e => absurd e (h.reason hr.reason), fun e => absurd e hr.reason⟩
    · have hi : i ≠ t.vmId := fun e => by
        rw [e, hr.home, Option.some.injEq] at hp
        exact hpt hp.symm
      have hcpu := h.cpus p hpt
      exact ⟨by rw [hcpu], fun _ => ⟨hcpu, h.bits i hi⟩, fun e hne => absurd (hcpu ▸ e) hne⟩

theorem of_frame (hv : w'.sched.vms = w.sched.vms) (hh : w'.host = w.host)
    (hc : w'.cpus = w.cpus) (hb : w'.sched.blocked = w.sched.blocked) : Undisturbed t w w' :=
  ⟨hv, by rw [hh], fun _ => by rw [hh]; exact ⟨rfl, rfl⟩, fun _ _ => by rw [hc],
    fun _ _ => by rw [hb], by rw [hc], fun h => by rw [hc]; exact h⟩

theorem of_sched {f : VmSched → VmSched} (hv : (f w.sched).vms = w.sched.vms)
    (hb : ∀ j, j ≠ t.vmId → bmTest (f w.sched).blocked j = bmTest w.sched.blocked j) :
    Undisturbed t w (w.onSched f) :=
  ⟨hv, rfl, fun _ => ⟨rfl, rfl⟩, fun _ _ => rfl, hb, rfl, fun h => h⟩

theorem of_cpu {f : VmCpu → VmCpu} (hid : (f (w.cpus t.cpu)).vmId = (w.cpus t.cpu).vmId)
    (hr : (w.cpus t.cpu).blockReason ≠ .mailboxRecv →
      (f (w.cpus t.cpu)).blockReason ≠ .mailboxRecv) : Undisturbed t w (w.onCpu t.cpu f) where
  vms := rfl
  host := rfl
  box _ := ⟨rfl, rfl⟩
  cpus _ hq := onCpu_ne _ _ hq
  bits _ _ := rfl
  vmId := by rw [onCpu_self, hid]
  reason h := by rw [onCpu_self]; exact hr h

theorem ran (tick : Option Word) (t : Turn) (w : World VmSystem) :
    Undisturbed t w (ranWorld tick t w) := by
  obtain ⟨hsame, -⟩ := vmStep_spec (m := ⟨w.cpus t.cpu, w.mem⟩) (b := t.budget) rfl
  have hcpu : (ranWorld tick t w).cpus t.cpu = (vmStep ⟨w.cpus t.cpu, w.mem⟩ t.budget).2.2.cpu :=
    Function.update_self ..
  refine ⟨rfl, rfl, fun _ => ⟨rfl, rfl⟩, fun q hq => Function.update_of_ne hq .., fun _ _ => rfl,
    ?_, fun h => ?_⟩
  · rw [hcpu]
    exact hsame.vmId
  · rw [hcpu]
    exact fun e => h (hsame.blockReason.symm.trans e)

theorem drop (t : Turn) (w : World VmSystem) : Undisturbed t w (w.onSched (·.drop t.vmId)) :=
  of_sched rfl fun j hj => by simp [VmSched.drop, hj]

theorem terminate (t : Turn) (w : World VmSystem) :
    Undisturbed t w (terminate w t.cpu t.vmId) :=
  (of_cpu (f := ({ · with halted := true })) rfl fun h => h).trans (drop t _)

theorem expired (t : Turn) (used : Nat) (w : World VmSystem) :
    Undisturbed t w (turnExpired t used w).1 := by
  unfold turnExpired
  split
  · dsimp only
    split
    · exact (of_cpu (f := ({ · with halted := true, trapCause := .halt })) rfl fun h => h).trans
        (of_frame rfl rfl rfl rfl)
    · exact of_frame rfl rfl rfl rfl
  · exact of_frame rfl rfl rfl rfl

end Undisturbed

theorem Undisturbed.bitsOnly {t : Turn} {w w' : World VmSystem} (h : BitsOnly t.vmId w w') :
    Undisturbed t w w' :=
  ⟨h.vms, by rw [h.host], fun _ => by rw [h.host]; exact ⟨rfl, rfl⟩, fun _ _ => by rw [h.cpus],
    h.blocked, by rw [h.cpus], fun hr => by rw [h.cpus]; exact hr⟩

/-! ## Handlers that move no message -/

/-- An action of a handler other than the two messaging calls: it may write memory, whitelists and
counters, and the CPU `own` that called it, but for its identity. -/
def Neutral (own : Option Ptr) : Act VmSystem → Prop
  | .cpu p f => own = some p ∧ ∀ c, (f c).vmId = c.vmId ∧
    (c.halted = true → (f c).halted = true) ∧
    (c.blockReason ≠ .mailboxRecv → (f c).blockReason ≠ .mailboxRecv)
  | .mem _ => True
  | .host f => ∀ sys, (f sys).vms = sys.vms ∧ ∀ i,
    ((f sys).mailboxes i).fifo = (sys.mailboxes i).fifo ∧
    ((f sys).mailboxes i).slotSize = (sys.mailboxes i).slotSize
  | .call _ => False

theorem perform_undisturbed {t : Turn} {acts : List (Act VmSystem)}
    (h : ∀ a ∈ acts, Neutral (some t.cpu) a) (w : World VmSystem) :
    Undisturbed t w (perform w acts) := by
  induction acts generalizing w with
  | nil => exact .of_frame rfl rfl rfl rfl
  | cons a acts ih =>
    have ha := h a (List.mem_cons_self ..)
    refine Undisturbed.trans ?_ (ih (fun b hb => h b (List.mem_cons_of_mem _ hb)) (a.apply w))
    cases a with
    | cpu p f =>
      obtain ⟨hp, hf⟩ := ha
      cases hp
      exact .of_cpu (hf _).1 (hf _).2.2
    | mem f => exact .of_frame rfl rfl rfl rfl
    | host f =>
      exact ⟨rfl, (ha w.host).1, (ha w.host).2, fun _ _ => rfl, fun _ _ => rfl, rfl, fun h => h⟩
    | call c => exact ha.elim

theorem neutral_performOk {t : Turn} {acts : List (Act VmSystem)}
    (h : ∀ a ∈ acts, Neutral (some t.cpu) a) (w : World VmSystem) : PerformOk t.self w acts := by
  induction acts generalizing w with
  | nil => exact trivial
  | cons a acts ih =>
    have ha := h a (List.mem_cons_self ..)
    refine ⟨?_, fun w' _ => ih (fun b hb => h b (List.mem_cons_of_mem _ hb)) w'⟩
    cases a with
    | cpu p f =>
      obtain ⟨hp, hf⟩ := ha
      cases hp
      exact ⟨fun _ _ => (hf _).2.1, fun _ _ hne => absurd rfl (hne t.vmId)⟩
    | mem f => exact trivial
    | host f => exact trivial
    | call c => exact ha.elim

end Microgarbage.Mailbox
