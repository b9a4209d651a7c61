import Microgarbage.Mailbox.Calls

/-!
# Delivery

The sequence of messages a VM receives is the sequence of successful sends to it, less what is
still queued: for one step of the machine, by cases on how an iteration ends, and from it for every
run of a system of any number of VMs.
-/

namespace Microgarbage.Mailbox

open Lib Vm Containers Sched

/-! ## Environments -/

def KeepsHalted : Act VmSystem → Prop
  | .cpu _ f => ∀ c, (f c).halted = c.halted
  | _ => True

/-- The messaging handlers are installed, and every other handler is neutral. -/
structure MailRouter (r : VmEcallRouter VmSystem) : Prop where
  send : r.slotFor sysSend = some handleSend
  recv : r.slotFor sysRecv = some handleRecv
  other : ∀ n handler, n ≠ sysSend → n ≠ sysRecv → r.slotFor n = some handler →
    ∀ p w, ∀ a ∈ handler p w, Neutral (some p) a
  fallback : ∀ handler, r.fallback = some handler → ∀ p w, ∀ a ∈ handler p w, Neutral (some p) a

structure MailEnv (env : Env VmSystem) : Prop where
  router : ∃ r, env.ecallRouter = some r ∧ MailRouter r
  trap : ∀ p w, ∀ a ∈ (env.trapHandler p w).1, Neutral (some p) a
  resume : ∀ p w, (env.trapHandler p w).2 = .resume →
    ∀ a ∈ (env.trapHandler p w).1, KeepsHalted a

theorem cpuHandler_neutral {f : Word → VmCpu → VmCpu}
    (h : ∀ now c, (f now c).vmId = c.vmId ∧ (c.halted = true → (f now c).halted = true) ∧
      (c.blockReason ≠ .mailboxRecv → (f now c).blockReason ≠ .mailboxRecv))
    (p : Ptr) (w : World VmSystem) : ∀ a ∈ cpuHandler f p w, Neutral (some p) a := by
  intro a ha
  rw [List.mem_singleton.mp ha]
  exact ⟨rfl, h _⟩

/-- What serves an ecall: one of the two messaging handlers, or neutral actions. -/
theorem serveEcall_cases {env : Env VmSystem} (h : MailEnv env) (p : Ptr) (w : World VmSystem) :
    ((w.cpus p).regs regA7 = sysSend ∧ serveEcall env p w = handleSend p w) ∨
    ((w.cpus p).regs regA7 = sysRecv ∧ serveEcall env p w = handleRecv p w) ∨
    ((w.cpus p).regs regA7 ≠ sysSend ∧ (w.cpus p).regs regA7 ≠ sysRecv ∧
      ∀ a ∈ serveEcall env p w, Neutral (some p) a) := by
  obtain ⟨r, hr, hsend, hrecv, hother, hfall⟩ := h.router
  unfold serveEcall
  rw [hr]
  dsimp only
  unfold vmEcallDispatch
  by_cases h₁ : (w.cpus p).regs regA7 = sysSend
  · rw [h₁, hsend]
    exact .inl ⟨rfl, rfl⟩
  · by_cases h₂ : (w.cpus p).regs regA7 = sysRecv
    · rw [h₂, hrecv]
      exact .inr (.inl ⟨rfl, rfl⟩)
    · refine .inr (.inr ⟨h₁, h₂, ?_⟩)
      cases hs : r.slotFor ((w.cpus p).regs regA7) with
      | some handler => exact hother _ handler h₁ h₂ hs p w
      | none =>
        dsimp only
        cases hf : r.fallback with
        | some handler => exact hfall handler hf p w
        | none =>
          exact cpuHandler_neutral (f := fun _ => ret (errno vmEnosys))
            (fun _ _ => ⟨rfl, fun h => h, fun h => h⟩) p w

/-! ## The scheduler's condition -/

variable {acts : List (Act VmSystem)}

theorem performOk_of_forall {me : Self} (h : ∀ a ∈ acts, ∀ w, a.Ok me w) (w : World VmSystem) :
    PerformOk me w acts := by
  induction acts generalizing w with
  | nil => exact trivial
  | cons a acts ih =>
    exact ⟨h a (List.mem_cons_self ..) w, fun w' _ =>
      ih (fun b hb => h b (List.mem_cons_of_mem _ hb)) w'⟩

theorem cpu_ok {p : Ptr} {f : VmCpu → VmCpu}
    (hf : ∀ c, (f c).halted = c.halted ∧ (f c).blockReason = c.blockReason) (me : Self)
    (w : World VmSystem) : (Act.cpu p f).Ok me w :=
  ⟨fun _ _ h => (hf _).1.trans h, fun _ _ _ => hf _⟩

section PerformOk

variable {t : Turn} {w : World VmSystem}

theorem Fails.performOk {acts : List (Act VmSystem)} (h : Fails t.cpu w acts) :
    PerformOk t.self w acts := by
  cases h with
  | @check e _ =>
    exact cpuHandler_ok (f := fun _ => ret (errno e)) (fun _ _ h => h) t.vmId t.cpu w
  | fault hf =>
    exact ⟨⟨fun _ _ hh => hf.2.2.trans hh, fun _ _ hne => absurd rfl (hne t.vmId)⟩,
      fun _ _ => trivial⟩

theorem enqueue_performOk (id : Slot) (payload : List Byte) (me : Self) (w' : World VmSystem) :
    PerformOk me w' (enqueue t.cpu w id payload) := by
  refine performOk_of_forall (fun a ha w'' => ?_) w'
  rcases List.mem_cons.mp ha with rfl | ha
  · exact trivial
  · rw [List.mem_singleton.mp ha]
    exact cpu_ok (fun _ => ⟨rfl, rfl⟩) me w''

theorem deliver_performOk (id : Slot) (target : Ptr) (targetHost : Nat) (payload : List Byte)
    (me : Self) (w' : World VmSystem) :
    PerformOk me w' (deliver t.cpu w id target targetHost payload) := by
  refine performOk_of_forall (fun a ha w'' => ?_) w'
  simp only [deliver, List.mem_cons, List.not_mem_nil, or_false] at ha
  rcases ha with rfl | rfl | rfl | rfl | rfl | rfl
  · exact trivial
  · exact cpu_ok (fun _ => ⟨rfl, rfl⟩) me w''
  · exact trivial
  · exact cpu_ok (fun _ => ⟨rfl, rfl⟩) me w''
  · exact cpu_ok (fun _ => ⟨rfl, rfl⟩) me w''
  · exact trivial

theorem handleSend_performOk : PerformOk t.self w (handleSend t.cpu w) := by
  rcases handleSend_cases t.cpu w with ⟨id, target, payload, -, heq⟩ | ⟨-, hfail⟩
  case inr => exact hfail.performOk
  case inl =>
    rw [heq]
    unfold sendTo
    dsimp only
    split
    · split
      · exact deliver_performOk ..
      · next faulted hx =>
        obtain ⟨-, hr, hh⟩ := translateWrite_error hx
        exact ⟨⟨fun _ _ h => hh.trans h, fun _ _ _ => ⟨hh, hr⟩⟩, fun _ _ => enqueue_performOk ..⟩
    · exact enqueue_performOk ..

theorem handleRecv_performOk : PerformOk t.self w (handleRecv t.cpu w) := by
  obtain ⟨id, hends⟩ := handleRecv_cases t.cpu w
  generalize handleRecv t.cpu w = acts at hends ⊢
  cases hends with
  | fails h => exact h.performOk
  | takes _ _ =>
    refine performOk_of_forall (fun a ha w'' => ?_) w
    simp only [List.mem_cons, List.not_mem_nil, or_false] at ha
    rcases ha with rfl | rfl | rfl
    · exact trivial
    · exact trivial
    · exact cpu_ok (fun _ => ⟨rfl, rfl⟩) _ w''
  | waits _ _ _ =>
    exact cpuHandler_ok (f := fun now => awaitMessage _ _ now) (fun _ _ h => h) t.vmId t.cpu w

end PerformOk

theorem perform_keepsHalted {own : Option Ptr} (hn : ∀ a ∈ acts, Neutral own a)
    (h : ∀ a ∈ acts, KeepsHalted a) (w : World VmSystem) (p : Ptr) :
    ((perform w acts).cpus p).halted = (w.cpus p).halted := by
  induction acts generalizing w with
  | nil => rfl
  | cons a acts ih =>
    refine (ih (fun b hb => hn b (List.mem_cons_of_mem _ hb))
      (fun b hb => h b (List.mem_cons_of_mem _ hb)) (a.apply w)).trans ?_
    have ha := h a (List.mem_cons_self ..)
    have hna := hn a (List.mem_cons_self ..)
    cases a with
    | cpu q f =>
      show ((w.onCpu q f).cpus p).halted = _
      by_cases hp : p = q
      · rw [hp, onCpu_self, ha]
      · rw [onCpu_ne _ _ hp]
    | mem f => rfl
    | host f => rfl
    | call c => exact hna.elim

theorem MailEnv.ok {env : Env VmSystem} (h : MailEnv env) (t : Turn) (w : World VmSystem) :
    env.Ok t w := by
  obtain ⟨-, hhalted, -⟩ := vmStep_spec (m := ⟨w.cpus t.cpu, w.mem⟩) (b := t.budget) rfl
  unfold Env.Ok
  cases hr : (vmStep ⟨w.cpus t.cpu, w.mem⟩ t.budget).1 with
  | quantumExpired => trivial
  | halted => trivial
  | ecall =>
    rcases serveEcall_cases h t.cpu (ranWorld env.tick t w) with ⟨-, he⟩ | ⟨-, he⟩ | ⟨-, -, hn⟩
    · dsimp only
      rw [he]
      exact handleSend_performOk
    · dsimp only
      rw [he]
      exact handleRecv_performOk
    · exact neutral_performOk hn _
  | trapped =>
    have hn := h.trap t.cpu (ranWorld env.tick t w)
    refine ⟨neutral_performOk hn _, fun hres _ => ?_⟩
    rw [perform_keepsHalted hn (h.resume _ _ hres), (ranWorld_sameSets env.tick t w).halted]
    cases hh : (w.cpus t.cpu).halted with
    | false => rfl
    | true => exact absurd (hr.symm.trans (hhalted.mpr hh)) nofun

/-! ## One iteration -/

section Iteration

variable {t : Turn} {w w₁ w' : World VmSystem}

theorem handleTrap_undisturbed {env : Env VmSystem} (henv : MailEnv env)
    (home : w.sched.vms t.vmId = some t.cpu) : Undisturbed t w (handleTrap env w t.vmId) := by
  unfold handleTrap
  rw [home]
  dsimp only
  have hp := perform_undisturbed (henv.trap t.cpu w) w
  cases (env.trapHandler t.cpu w).2 with
  | terminate => exact hp.trans (.terminate t _)
  | logAndTerminate => exact (hp.trans (.of_sched rfl fun _ _ => rfl)).trans (.terminate t _)
  | resume => exact hp.trans (.of_cpu rfl fun h => h)

/-- The receipts of a step do not depend on what its turn's VM computed before. -/
theorem Undisturbed.observeWoken (h : Undisturbed t w w₁) (hrun : Running t w)
    (w' : World VmSystem) : observeWoken w w' = Mailbox.observeWoken w₁ w' := by
  have hslot : wokenAt w w' = wokenAt w₁ w' := by
    funext i
    unfold wokenAt
    rw [h.vms]
    cases hp : w.sched.vms i with
    | none => rfl
    | some p =>
      dsimp only
      by_cases he : p = t.cpu
      · subst he
        rw [if_neg hrun.reason, if_neg (h.reason hrun.reason)]
      · rw [h.cpus p he]
  unfold Mailbox.observeWoken
  rw [hslot]

/-- An account that starts after `vm_step` ran the VM holds from before. -/
theorem Balanced.of_ran {l : List MailEvent} (hu : Undisturbed t w w₁) (h : Balanced w₁ w' l) :
    Balanced w w' l where
  inv := h.inv
  vms := h.vms.trans hu.vms
  account i p hp := by
    rw [← VmMailbox.queue_congr (hu.box i).1]
    exact h.account i p (by rw [hu.vms]; exact hp)

theorem Balanced.endTurn {l : List MailEvent} (h : Balanced w w' l) :
    Balanced w (endTurn t w') l where
  inv :=
    { vms := h.inv.vms
      inj := h.inv.inj
      vmId := h.inv.vmId
      valid := h.inv.valid
      waiting := fun i p hp hr =>
        have ⟨hb, he, hw⟩ := h.inv.waiting i p hp hr
        ⟨hb, he, hw⟩ }
  vms := h.vms
  account := h.account

theorem turnIteration_balanced {env : Env VmSystem} (henv : MailEnv env) (hinv : MailInv w)
    (hrun : Running t w) :
    Balanced w (turnIteration env t w).1
      (observeCall (ecallOf env.tick t w) t (ranWorld env.tick t w) (turnIteration env t w).1 ++
        observeWoken w (turnIteration env t w).1) := by
  have hran := Undisturbed.ran env.tick t w
  have hrun₁ := hran.running hrun
  have hinv₁ := (hran.quiet hrun).inv hinv
  obtain ⟨-, hhalted, -⟩ := vmStep_spec (m := ⟨w.cpus t.cpu, w.mem⟩) (b := t.budget) rfl
  -- the iterations that end in neither call
  have hquiet : ∀ w' ecall, Undisturbed t (ranWorld env.tick t w) w' →
      ecall ≠ some sysSend → ecall ≠ some sysRecv →
      Balanced w w' (observeCall ecall t (ranWorld env.tick t w) w' ++ observeWoken w w') := by
    intro w' ecall hu hs hr
    have hq := (hran.trans hu).quiet hrun
    have hcall : observeCall ecall t (ranWorld env.tick t w) w' = [] := by
      unfold observeCall
      rw [if_neg hs, if_neg hr]
    rw [hcall, hq.observeWoken]
    exact hq.balanced hinv
  unfold turnIteration ecallOf
  dsimp only
  cases hr : (vmStep ⟨w.cpus t.cpu, w.mem⟩ t.budget).1 with
  | quantumExpired => exact hquiet _ _ (.expired t _ _) nofun nofun
  | halted => exact hquiet _ _ (.drop t _) nofun nofun
  | trapped => exact hquiet _ _ (handleTrap_undisturbed henv hrun₁.home) nofun nofun
  | ecall =>
    dsimp only
    have hlive : ((ranWorld env.tick t w).cpus t.cpu).halted = false := by
      rw [(ranWorld_sameSets env.tick t w).halted]
      cases hh : (w.cpus t.cpu).halted with
      | false => rfl
      | true => exact absurd (hr.symm.trans (hhalted.mpr hh)) nofun
    rcases serveEcall_cases henv t.cpu (ranWorld env.tick t w) with
      ⟨hnum, he⟩ | ⟨hnum, he⟩ | ⟨hs, hr', hn⟩
    · rw [he, hnum, hran.observeWoken hrun]
      exact .of_ran hran (handleSend_balanced hinv₁ hrun₁ (turnDispatched_frame ..))
    · rw [he, hnum, hran.observeWoken hrun]
      exact .of_ran hran (handleRecv_balanced hinv₁ hrun₁ hlive rfl)
    · refine hquiet _ _ ((perform_undisturbed hn _).trans (.bitsOnly (turnDispatched_frame ..)))
        (fun e => hs (Option.some.inj e)) fun e => hr' (Option.some.inj e)

end Iteration

/-! ## One step of the machine -/

/-- The events of a messaging system: any guest code, timeouts, and an idle handler that leaves
CPUs and scheduler alone. -/
def MailEvents : Event VmSystem → Prop
  | .iterate env => MailEnv env
  | .enter _ => True
  | .idle acts _ => ∀ a ∈ acts, Neutral none a
  | .call _ => False

structure MailState (s : Sys VmSystem) : Prop where
  sound : SysSound s
  inv : MailInv s.world
  home : ∀ t, s.turn = some t → s.world.sched.vms t.vmId = some t.cpu

theorem MailEvents.ok {e : Event VmSystem} (h : MailEvents e) (s : Sys VmSystem) :
    Event.Ok s e := by
  cases e with
  | call c => exact h.elim
  | enter tick => trivial
  | iterate env => exact fun t _ => MailEnv.ok h t s.world
  | idle acts tick =>
    refine performOk_of_forall (fun a ha w => ?_) _
    cases a with
    | cpu p f => cases (h _ ha).1
    | mem f => exact trivial
    | host f => exact trivial
    | call c => exact (h _ ha).elim

theorem MailState.running {w : World VmSystem} {t : Turn} (h : MailState ⟨w, some t⟩) :
    Running t w where
  home := h.home t rfl
  reason hr := by
    have hown := ((InTurn.sound h.sound).slot t.vmId t.cpu (h.home t rfl)).own rfl
    have hb := (h.inv.waiting t.vmId t.cpu (h.home t rfl) hr).blocked
    rw [hown.1] at hb
    cases hb

theorem perform_idle (h : ∀ a ∈ acts, Neutral none a) (w : World VmSystem) :
    (perform w acts).sched = w.sched ∧ (perform w acts).cpus = w.cpus ∧
      (perform w acts).host.vms = w.host.vms ∧
      ∀ i, ((perform w acts).host.mailboxes i).fifo = (w.host.mailboxes i).fifo ∧
        ((perform w acts).host.mailboxes i).slotSize = (w.host.mailboxes i).slotSize := by
  induction acts generalizing w with
  | nil => exact ⟨rfl, rfl, rfl, fun _ => ⟨rfl, rfl⟩⟩
  | cons a acts ih =>
    obtain ⟨hs, hc, hv, hb⟩ := ih (fun b hb => h b (List.mem_cons_of_mem _ hb)) (a.apply w)
    have ha := h a (List.mem_cons_self ..)
    cases a with
    | cpu p f => cases ha.1
    | mem f => exact ⟨hs, hc, hv, hb⟩
    | host f =>
      obtain ⟨hv', hb'⟩ := ha w.host
      exact ⟨hs, hc, hv.trans hv', fun i => ⟨(hb i).1.trans (hb' i).1, (hb i).2.trans (hb' i).2⟩⟩
    | call c => exact ha.elim

theorem runIdle_quiet (h : ∀ a ∈ acts, Neutral none a) (tick : Option Word) {w : World VmSystem}
    (hinv : MailInv w) : Quiet w (runIdle acts tick w) := by
  have hq := Quiet.of_timed (wakeExpiredTimeouts_timed hinv.inj)
  obtain ⟨hs, hc, hv, hb⟩ := perform_idle h (wakeExpiredTimeouts w).2
  have hp : Quiet w (perform (wakeExpiredTimeouts w).2 acts) := by
    refine ⟨by rw [hs, hq.vms], hv.trans hq.host,
      fun i => ⟨(hb i).1.trans (hq.box i).1, (hb i).2.trans (hq.box i).2⟩, fun i p hip => ?_⟩
    obtain ⟨hid, hwait, hfail⟩ := hq.slot i p hip
    exact ⟨by rw [hc, hid], by rw [hc, hs]; exact hwait, by rw [hc]; exact hfail⟩
  cases tick with
  | none | some now => exact ⟨hp.vms, hp.host, hp.box, fun i p hip =>
      have ⟨hid, hwait, hfail⟩ := hp.slot i p hip
      ⟨hid, hwait, hfail⟩⟩

/-- What a decision does before its turn: it samples the clock, wakes, and may skip an empty slot. -/
theorem selectVm_quiet (tick : Option Word) {w : World VmSystem} (hinv : MailInv w) :
    Quiet w (selectVm tick w).1 := by
  have hsample : (sampleTick tick w).sched.vms = w.sched.vms := by
    cases tick <;> rfl
  have hinj : ∀ i j p, (sampleTick tick w).sched.vms i = some p →
      (sampleTick tick w).sched.vms j = some p → i = j := by
    rw [hsample]
    exact hinv.inj
  have hq : Quiet w (wakeExpiredTimeouts (sampleTick tick w)).2 := by
    have ht := Quiet.of_timed (wakeExpiredTimeouts_timed hinj)
    cases tick with
    | none => exact ht
    | some now => exact ⟨ht.vms, ht.host, ht.box, fun i p hip =>
        have ⟨hid, hwait, hfail⟩ := ht.slot i p hip
        ⟨hid, hwait, hfail⟩⟩
  unfold selectVm
  generalize wakeExpiredTimeouts (sampleTick tick w) = r at hq
  obtain ⟨next, w₁⟩ := r
  dsimp only at hq ⊢
  split
  · exact hq
  · split
    · exact hq
    · next vmId _ =>
      cases hv : w₁.sched.vms vmId with
      | some p => exact hq
      | none =>
        refine ⟨hq.vms, hq.host, hq.box, fun i p hip => ?_⟩
        obtain ⟨hid, hwait, hfail⟩ := hq.slot i p hip
        have hi : i ≠ vmId := fun e => by
          rw [hq.vms, ← e, hip] at hv
          cases hv
        refine ⟨hid, fun hr => ?_, hfail⟩
        have hbit : bmTest (bmClear w₁.sched.blocked vmId) i = bmTest w₁.sched.blocked i := by
          simp [hi]
        exact ⟨(hwait hr).1, hbit.trans (hwait hr).2⟩

theorem selectVm_home {tick : Option Word} {w w' : World VmSystem} {t : Turn}
    (h : selectVm tick w = (w', .inr t)) : w'.sched.vms t.vmId = some t.cpu := by
  unfold selectVm at h
  dsimp only at h
  split at h
  · cases h
  split at h
  · cases h
  split at h
  · cases h
  · next hv =>
    cases h
    exact hv

/-- One step: the invariant goes on, and what it sent and delivered balances. -/
theorem step_balanced {s s' : Sys VmSystem} {e : Event VmSystem} (h : MailState s)
    (hok : MailEvents e) (hstep : step s e = some s') :
    MailState s' ∧ Balanced s.world s'.world (observeMail s e) := by
  have hsound := step_sound s e s' h.sound (hok.ok s) hstep
  unfold observeMail
  rw [hstep]
  obtain ⟨w, turn⟩ := s
  cases turn with
  | none =>
    cases e with
    | call c => exact hok.elim
    | iterate env => cases hstep
    | idle acts tick =>
      unfold step at hstep
      dsimp only at hstep
      split at hstep
      case isFalse => cases hstep
      case isTrue =>
        cases hstep
        have hq := runIdle_quiet hok tick h.inv
        dsimp only
        rw [hq.observeWoken]
        exact ⟨⟨hsound, hq.inv h.inv, nofun⟩, hq.balanced h.inv⟩
    | enter tick =>
      have hq := selectVm_quiet tick h.inv
      unfold step at hstep
      dsimp only at hstep
      cases hsel : selectVm tick w with
      | mk w₁ next =>
        rw [hsel] at hstep hq
        dsimp only at hq
        cases next with
        | inl r =>
          cases hstep
          dsimp only
          rw [hq.observeWoken]
          exact ⟨⟨hsound, hq.inv h.inv, nofun⟩, hq.balanced h.inv⟩
        | inr t =>
          cases hstep
          dsimp only
          rw [hq.observeWoken]
          refine ⟨⟨hsound, hq.inv h.inv, fun t' ht' => ?_⟩, hq.balanced h.inv⟩
          cases ht'
          exact selectVm_home hsel
  | some t =>
    cases e with
    | call c => exact hok.elim
    | enter tick => cases hstep
    | idle acts tick => cases hstep
    | iterate env =>
      have hrun := h.running
      have hb := turnIteration_balanced hok h.inv hrun
      have hres := turnIteration_result h.sound (MailEnv.ok hok t w)
      unfold step at hstep
      dsimp only at hstep
      cases hit : turnIteration env t w with
      | mk w₁ next =>
        rw [hit] at hstep hb hres
        dsimp only at hb
        cases next with
        | none =>
          cases hstep
          exact ⟨⟨hsound, hb.endTurn.inv, nofun⟩, hb.endTurn⟩
        | some t₁ =>
          cases hstep
          refine ⟨⟨hsound, hb.inv, fun t' ht' => ?_⟩, hb⟩
          cases ht'
          have hself : t₁.vmId = t.vmId ∧ t₁.cpu = t.cpu := by
            have hme := hres.1
            unfold Turn.self at hme
            rw [Option.some.injEq, Prod.mk.injEq] at hme
            exact hme
          rw [hb.vms, hself.1, hself.2]
          exact hrun.home

end Microgarbage.Mailbox
