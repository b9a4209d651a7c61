import Microgarbage.Mailbox.Quiet

/-!
# The two messaging calls

`SYS_SEND` and `SYS_RECV` keep the account: each of their outcomes, refused, queued, handed over,
received at once or blocked, is one balanced step.
-/

namespace Microgarbage.Mailbox

open Lib Vm Containers Sched BitVec
open Function (update update_of_ne update_self)

/-! ## Address translation -/

variable {c c' : VmCpu}

theorem xlatPick_congr (hr : c'.regions = c.regions) (hl : c'.l2Shared = c.l2Shared) (addr : Word) :
    xlatPick c' addr = xlatPick c addr := by
  unfold xlatPick
  rw [hr, hl]

variable {addr size : Word}

theorem translateRead_of_write {a : Nat} (h : vmTranslateWrite c addr size = .ok a)
    (hr : c'.regions = c.regions) (hl : c'.l2Shared = c.l2Shared) :
    vmTranslateRead c' addr size = .ok a := by
  unfold vmTranslateWrite xlatWrite at h
  unfold vmTranslateRead xlatRead
  rw [xlatPick_congr hr hl]
  split at h
  · cases h
  · rename_i hsize
    rw [if_neg hsize]
    dsimp only at h ⊢
    split at h
    · cases h
    · rename_i hout
      rw [if_neg hout]
      split at h
      · cases h
      · cases h
        rfl

theorem translateWrite_congr {a : Nat} (h : vmTranslateWrite c addr size = .ok a)
    (hr : c'.regions = c.regions) (hl : c'.l2Shared = c.l2Shared) :
    vmTranslateWrite c' addr size = .ok a := by
  unfold vmTranslateWrite xlatWrite at h ⊢
  rw [xlatPick_congr hr hl]
  split at h
  · cases h
  · rename_i hsize
    rw [if_neg hsize]
    dsimp only at h ⊢
    split at h
    · cases h
    · rename_i hout
      rw [if_neg hout]
      split at h
      · cases h
      · rename_i hw
        rw [if_neg hw]
        exact h

theorem translateRead_error (h : vmTranslateRead c addr size = .error c') :
    c'.vmId = c.vmId ∧ c'.blockReason = c.blockReason ∧ c'.halted = c.halted := by
  unfold vmTranslateRead xlatRead at h
  split at h
  · cases h
    exact ⟨rfl, rfl, rfl⟩
  · dsimp only at h
    split at h
    · cases h
      exact ⟨rfl, rfl, rfl⟩
    · cases h

theorem translateWrite_error (h : vmTranslateWrite c addr size = .error c') :
    c'.vmId = c.vmId ∧ c'.blockReason = c.blockReason ∧ c'.halted = c.halted := by
  unfold vmTranslateWrite xlatWrite at h
  split at h
  · cases h
    exact ⟨rfl, rfl, rfl⟩
  · dsimp only at h
    split at h
    · cases h
      exact ⟨rfl, rfl, rfl⟩
    · split at h
      · cases h
        exact ⟨rfl, rfl, rfl⟩
      · cases h

/-! ## How the calls end -/

/-- The calls that fail: they return an errno and do nothing else. -/
inductive Fails (p : Ptr) (w : World VmSystem) : List (Act VmSystem) → Prop
  | check {e : Nat} (he : 65536 ≤ (errno e).toNat) : Fails p w (refuse p e)
  | fault {faulted : VmCpu} (h : faulted.vmId = (w.cpus p).vmId ∧
    faulted.blockReason = (w.cpus p).blockReason ∧ faulted.halted = (w.cpus p).halted) :
    Fails p w (refuseFault p faulted)

/-- The checks of `handle_send` pass: the message of the CPU `p` is for the VM `target` in slot
`id`. -/
structure Addressed (p : Ptr) (w : World VmSystem) (id : Slot) (target : Ptr)
    (payload : List Byte) : Prop where
  slot : ((w.cpus p).regs regA0).toNat = id.val
  vm : w.host.vms id = some target
  size : (w.cpus p).regs regA2 = (w.host.mailboxes id).slotSize.setWidth 32
  source : ∃ a, vmTranslateRead (w.cpus p) ((w.cpus p).regs regA1) ((w.cpus p).regs regA2) = .ok a ∧
    payload = w.mem.bytes a ((w.cpus p).regs regA2).toNat
  listed : vmMailboxWhitelistCheck (w.host.mailboxes id) (w.cpus p).vmId = true

/-- How `SYS_RECV` ends on the mailbox in slot `id`. -/
inductive RecvEnds (p : Ptr) (w : World VmSystem) (id : Slot) : List (Act VmSystem) → Prop
  | fails {acts : List (Act VmSystem)} (h : Fails p w acts) : RecvEnds p w id acts
  | takes {hostDest : Nat} {payload : List Byte} {sender : BitVec 16} {m : VmMailbox}
    (hx : vmTranslateWrite (w.cpus p) ((w.cpus p).regs regA0)
      ((w.host.mailboxes id).slotSize.setWidth 32) = .ok hostDest)
    (hm : vmMailboxRecv (w.host.mailboxes id) = some (payload, sender, m)) :
    RecvEnds p w id [.host (·.setMailbox id m), .mem (·.copy hostDest payload),
      .cpu p (ret (sender.setWidth 32))]
  | waits {hostDest : Nat} (hx : vmTranslateWrite (w.cpus p) ((w.cpus p).regs regA0)
      ((w.host.mailboxes id).slotSize.setWidth 32) = .ok hostDest)
    (hm : vmMailboxRecv (w.host.mailboxes id) = none) (htimeout : (w.cpus p).regs regA1 ≠ 0) :
    RecvEnds p w id [.cpu p
      (awaitMessage ((w.cpus p).regs regA0) ((w.cpus p).regs regA1) w.sched.globalTick)]

section Ends

variable {p : Ptr} {w : World VmSystem} {acts : List (Act VmSystem)}

theorem Fails.errno_le (h : Fails p w acts) :
    65536 ≤ (((perform w acts).cpus p).regs regA0).toNat := by
  cases h with
  | @check e he =>
    have hself : (perform w (refuse p e)).cpus p = ret (errno e) (w.cpus p) := onCpu_self ..
    rw [hself, ret_a0]
    exact he
  | @fault faulted _ =>
    have hself : (perform w (refuseFault p faulted)).cpus p =
      ret (errno vmEfault) { faulted with trapCause := .none } := update_self ..
    rw [hself, ret_a0]
    exact Nat.le_of_ble_eq_true rfl

theorem Fails.host (h : Fails p w acts) : (perform w acts).host = w.host := by
  cases h <;> rfl

theorem Fails.reason (h : Fails p w acts) :
    ((perform w acts).cpus p).blockReason = (w.cpus p).blockReason := by
  cases h with
  | @check e _ =>
    exact (congrArg VmCpu.blockReason (onCpu_self w p (ret (errno e)))).trans rfl
  | @fault faulted hf =>
    have hself : (perform w (refuseFault p faulted)).cpus p =
      ret (errno vmEfault) { faulted with trapCause := .none } := update_self ..
    rw [hself]
    exact hf.2.1

/-- A send passes the checks and goes on to deliver, or fails. -/
theorem handleSend_cases (p : Ptr) (w : World VmSystem) :
    (∃ id target payload, Addressed p w id target payload ∧
      handleSend p w = sendTo p w id target payload) ∨
    ((∀ id target payload, ¬Addressed p w id target payload) ∧ Fails p w (handleSend p w)) := by
  have hrefuse : ∀ e, Nat.ble 65536 (errno e).toNat = true → Fails p w (refuse p e) :=
    fun _ he => .check (Nat.le_of_ble_eq_true he)
  unfold handleSend
  dsimp only
  split
  case isFalse hge =>
    exact .inr ⟨fun id _ _ h => hge (by rw [h.slot]; exact id.isLt), hrefuse _ rfl⟩
  case isTrue hlt =>
    have hslot : ∀ {id target payload}, Addressed p w id target payload →
        id = ⟨((w.cpus p).regs regA0).toNat, hlt⟩ := fun h => Fin.ext h.slot.symm
    cases hvm : w.host.vms ⟨((w.cpus p).regs regA0).toNat, hlt⟩ with
    | none =>
      refine .inr ⟨fun id target _ h => ?_, hrefuse _ rfl⟩
      have hnone := h.vm
      rw [hslot h, hvm] at hnone
      cases hnone
    | some target =>
      dsimp only
      split
      · next hsize =>
        exact .inr ⟨fun id _ _ h => hsize (by rw [h.size, hslot h]), hrefuse _ rfl⟩
      · next hsize =>
        cases hread : vmTranslateRead (w.cpus p) ((w.cpus p).regs regA1)
            ((w.cpus p).regs regA2) with
        | error faulted =>
          refine .inr ⟨fun id _ _ h => ?_, .fault (translateRead_error hread)⟩
          obtain ⟨a, ha, -⟩ := h.source
          rw [hread] at ha
          cases ha
        | ok hostPayload =>
          dsimp only
          cases hcheck : vmMailboxWhitelistCheck
              (w.host.mailboxes ⟨((w.cpus p).regs regA0).toNat, hlt⟩) (w.cpus p).vmId with
          | true =>
            exact .inl ⟨_, target, _, ⟨rfl, hvm, not_not.mp hsize, ⟨hostPayload, hread, rfl⟩,
              hcheck⟩, rfl⟩
          | false =>
            refine .inr ⟨fun id _ _ h => ?_, hrefuse _ rfl⟩
            have hlisted := h.listed
            rw [hslot h, hcheck] at hlisted
            cases hlisted

theorem handleRecv_ends {id : Slot}
    (h : w.host.getMailbox (w.cpus p).vmId.toNat = some (id, w.host.mailboxes id)) :
    RecvEnds p w id (handleRecv p w) := by
  have hrefuse : ∀ e, Nat.ble 65536 (errno e).toNat = true → RecvEnds p w id (refuse p e) :=
    fun _ he => .fails (.check (Nat.le_of_ble_eq_true he))
  unfold handleRecv
  dsimp only
  rw [h]
  dsimp only
  cases hx : vmTranslateWrite (w.cpus p) ((w.cpus p).regs regA0)
      ((w.host.mailboxes id).slotSize.setWidth 32) with
  | error faulted => exact .fails (.fault (translateWrite_error hx))
  | ok hostDest =>
    dsimp only
    cases hm : vmMailboxRecv (w.host.mailboxes id) with
    | some r => exact .takes hx hm
    | none =>
      dsimp only
      split
      · exact hrefuse _ rfl
      · next htimeout =>
        split
        · exact hrefuse _ rfl
        · exact .waits hx hm htimeout

theorem handleRecv_cases (p : Ptr) (w : World VmSystem) : ∃ id, RecvEnds p w id (handleRecv p w) := by
  cases hbox : w.host.getMailbox (w.cpus p).vmId.toNat with
  | none =>
    have hfail : Fails p w (handleRecv p w) := by
      unfold handleRecv
      dsimp only
      rw [hbox]
      exact .check (Nat.le_of_ble_eq_true rfl)
    exact ⟨⟨0, Nat.succ_pos 63⟩, .fails hfail⟩
  | some box =>
    have hsame : box = (box.1, w.host.mailboxes box.1) := by
      unfold VmSystem.getMailbox at hbox
      split at hbox
      · split at hbox <;> cases hbox
        rfl
      · cases hbox
    exact ⟨box.1, handleRecv_ends (hbox.trans (congrArg some hsame))⟩

end Ends

/-! ## Refused calls -/

section Refused

variable {t : Turn} {w w₂ w' : World VmSystem}

/-- The call failed with an errno and did nothing else. -/
structure Refused (t : Turn) (w w₂ : World VmSystem) : Prop where
  undisturbed : Undisturbed t w w₂
  a0 : 65536 ≤ ((w₂.cpus t.cpu).regs regA0).toNat

theorem Fails.refused {acts : List (Act VmSystem)} (h : Fails t.cpu w acts) :
    Refused t w (perform w acts) := by
  refine ⟨?_, h.errno_le⟩
  cases h with
  | check _ => exact .of_cpu rfl fun h => h
  | @fault faulted hf =>
    exact .of_cpu (f := fun _ => ret (errno vmEfault) { faulted with trapCause := .none }) hf.1
      fun h e => h (hf.2.1.symm.trans e)

theorem Refused.observeCall (h : Refused t w w₂) (hb : BitsOnly t.vmId w₂ w')
    (ecall : Option Word) : observeCall ecall t w w' = [] := by
  have ha : 65536 ≤ ((w'.cpus t.cpu).regs regA0).toNat := by
    rw [hb.cpus]
    exact h.a0
  unfold Mailbox.observeCall receipt
  dsimp only
  split
  · refine dif_neg fun hz => ?_
    rw [hz.1] at ha
    exact absurd ha (by decide)
  · split
    · exact if_neg fun hz => absurd hz.2 (Nat.not_lt.mpr ha)
    · rfl

theorem Refused.balanced (h : Refused t w w₂) (hb : BitsOnly t.vmId w₂ w') (hinv : MailInv w)
    (hrun : Running t w) (ecall : Option Word) :
    Balanced w w' (Mailbox.observeCall ecall t w w' ++ observeWoken w w') := by
  have hq := (h.undisturbed.trans (.bitsOnly hb)).quiet hrun
  rw [h.observeCall hb, hq.observeWoken]
  exact hq.balanced hinv

end Refused

/-! ## Sending -/

section Send

variable {t : Turn} {w w' : World VmSystem} {id : Slot} {target : Ptr} {payload : List Byte}

theorem observeSend (h : (w.cpus t.cpu).regs regA0 = BitVec.ofNat 32 id.val)
    (hread : readGuest w t.cpu ((w.cpus t.cpu).regs regA1) ((w.cpus t.cpu).regs regA2) = payload) :
    observeCall (some sysSend) t w w' =
      if (w'.cpus t.cpu).regs regA0 = 0 then [.sent id ⟨(w.cpus t.cpu).vmId, payload⟩] else [] := by
  have hnat : ((w.cpus t.cpu).regs regA0).toNat = id.val := by
    rw [h, toNat_ofNat]
    exact Nat.mod_eq_of_lt (Nat.lt_trans id.isLt (by decide))
  have hlt : ((w.cpus t.cpu).regs regA0).toNat < 64 := hnat ▸ id.isLt
  have hid : (⟨((w.cpus t.cpu).regs regA0).toNat, hlt⟩ : Slot) = id := Fin.ext hnat
  unfold observeCall
  rw [if_pos rfl, hread]
  by_cases hz : (w'.cpus t.cpu).regs regA0 = 0
  · rw [dif_pos ⟨hz, hlt⟩, if_pos hz, hid]
  · rw [dif_neg fun hc => hz hc.1, if_neg hz]

theorem sendStatus_zero (r : VmMailboxResult) : sendStatus r = 0 ↔ r = .ok := by
  cases r <;> decide

theorem enqueue_balanced (hinv : MailInv w) (hrun : Running t w)
    (hv : w.sched.vms id = some target) (htarget : (w.cpus target).blockReason ≠ .mailboxRecv)
    (ha0 : (w.cpus t.cpu).regs regA0 = BitVec.ofNat 32 id.val)
    (hread : readGuest w t.cpu ((w.cpus t.cpu).regs regA1) ((w.cpus t.cpu).regs regA2) = payload)
    (hb : BitsOnly t.vmId (perform w (enqueue t.cpu w id payload)) w') :
    Balanced w w' (observeCall (some sysSend) t w w' ++ observeWoken w w') := by
  obtain ⟨hvalid, hsize, hqueue⟩ :=
    vmMailboxSend_spec (hinv.valid id target hv) (w.cpus t.cpu).vmId payload
  have hperform : perform w (enqueue t.cpu w id payload) =
      World.onCpu
        { w with
          host := w.host.setMailbox id
            (vmMailboxSend (w.host.mailboxes id) (w.cpus t.cpu).vmId payload).2 }
        t.cpu (ret (sendStatus
          (vmMailboxSend (w.host.mailboxes id) (w.cpus t.cpu).vmId payload).1)) := rfl
  generalize vmMailboxSend (w.host.mailboxes id) (w.cpus t.cpu).vmId payload = r at *
  rw [hperform] at hb
  have hcpu : ∀ q, q ≠ t.cpu → w'.cpus q = w.cpus q := fun q hq => by
    rw [hb.cpus]
    exact onCpu_ne _ _ hq
  have hself : w'.cpus t.cpu = ret (sendStatus r.1) (w.cpus t.cpu) := by
    rw [hb.cpus, onCpu_self]
  have hbox : ∀ i, w'.host.mailboxes i = if i = id then r.2 else w.host.mailboxes i := fun i => by
    rw [hb.host]
    exact Function.update_apply ..
  have hvms : w'.sched.vms = w.sched.vms := hb.vms
  -- nobody starts or stops waiting
  have hwait : ∀ i p, w.sched.vms i = some p →
      ((w'.cpus p).blockReason = .mailboxRecv ↔ (w.cpus p).blockReason = .mailboxRecv) := by
    intro i p _
    by_cases hp : p = t.cpu
    · rw [hp, hself]
      exact Iff.rfl
    · rw [hcpu p hp]
  have hwoken : observeWoken w w' = [] :=
    List.flatMap_eq_nil_iff.mpr fun i _ => wokenAt_nil fun p hp hr hne =>
      absurd ((hwait i p hp).mpr hr) hne
  have hcall : observeCall (some sysSend) t w w' =
      if r.1 = .ok then [.sent id ⟨(w.cpus t.cpu).vmId, payload⟩] else [] := by
    have hres : (w'.cpus t.cpu).regs regA0 = sendStatus r.1 := by
      rw [hself, ret_a0]
    rw [observeSend ha0 hread, hres]
    simp only [sendStatus_zero]
  rw [hwoken, hcall, List.append_nil]
  refine ⟨⟨?_, ?_, ?_, ?_, ?_⟩, hvms, fun i p hp => ?_⟩
  · rw [hvms, hb.host]
    exact hinv.vms
  · rw [hvms]
    exact hinv.inj
  · intro i p hp
    rw [hvms] at hp
    rw [← hinv.vmId i p hp]
    by_cases he : p = t.cpu
    · rw [he, hself]
      rfl
    · rw [hcpu p he]
  · intro i p hp
    rw [hvms] at hp
    rw [hbox]
    split
    · exact hvalid
    · exact hinv.valid i p hp
  · intro i p hp hr
    rw [hvms] at hp
    have hr := (hwait i p hp).mp hr
    have hne : p ≠ t.cpu := fun e => hrun.reason (e ▸ hr)
    have hi : i ≠ id := fun e => by
      rw [e, hv, Option.some.injEq] at hp
      exact htarget (hp ▸ hr)
    have hit : i ≠ t.vmId := fun e => by
      rw [e, hrun.home, Option.some.injEq] at hp
      exact hne hp.symm
    obtain ⟨h1, h2, h3⟩ := hinv.waiting i p hp hr
    have hboxi : w'.host.mailboxes i = w.host.mailboxes i := by rw [hbox, if_neg hi]
    exact ⟨(hb.blocked i hit).trans h1, by rw [hboxi, h2], by rw [hboxi, hcpu p hne]; exact h3⟩
  · rw [hbox]
    by_cases hi : i = id
    · subst hi
      rw [if_pos rfl, hqueue]
      split <;> simp
    · rw [if_neg hi]
      split <;> simp [Ne.symm hi]

/-- A waiting receiver is woken when the wake hook is called on its slot. -/
theorem wakeMailbox_waiting {a0 : Word} (hv : w.sched.vms id = some target)
    (hr : (w.cpus target).blockReason = .mailboxRecv)
    (hb : bmTest w.sched.blocked id = true) :
    (vmSchedWakeMailbox w id.val a0).2 = wakeSlot w id target (wakeCpu a0) := by
  unfold vmSchedWakeMailbox wakeBlockedOn
  rw [dif_pos id.isLt]
  dsimp only
  rw [hv]
  dsimp only
  rw [if_pos ⟨hr, hb⟩]

/-- What the direct hand-off leaves behind. -/
structure HandedOver (p : Ptr) (w : World VmSystem) (id : Slot) (target : Ptr) (targetHost : Nat)
    (payload : List Byte) (w₂ : World VmSystem) : Prop where
  vms : w₂.sched.vms = w.sched.vms
  mem : w₂.mem = w.mem.copy targetHost payload
  blocked : ∀ j, j ≠ id → bmTest w₂.sched.blocked j = bmTest w.sched.blocked j
  hostVms : w₂.host.vms = w.host.vms
  box : ∀ i, (w₂.host.mailboxes i).fifo = (w.host.mailboxes i).fifo ∧
    (w₂.host.mailboxes i).slotSize = (w.host.mailboxes i).slotSize
  receiver : w₂.cpus target = clearInternal0 (wakeCpu ((w.cpus p).vmId.setWidth 32)
    { w.cpus target with trapCause := .none })
  sender : w₂.cpus p = ret 0 (w.cpus p)
  cpus : ∀ q, q ≠ p → q ≠ target → w₂.cpus q = w.cpus q

theorem deliver_handedOver {p : Ptr} {targetHost : Nat} (hv : w.sched.vms id = some target)
    (hr : (w.cpus target).blockReason = .mailboxRecv) (hb : bmTest w.sched.blocked id = true)
    (hp : p ≠ target) :
    HandedOver p w id target targetHost payload
      (perform w (deliver p w id target targetHost payload)) := by
  let w₁ : World VmSystem := World.onCpu { w with mem := w.mem.copy targetHost payload } target
    ({ · with trapCause := .none })
  have hwake : (vmSchedWakeMailbox w₁ id.val ((w.cpus p).vmId.setWidth 32)).2 =
      wakeSlot w₁ id target (wakeCpu ((w.cpus p).vmId.setWidth 32)) := by
    refine wakeMailbox_waiting hv ?_ hb
    show ((World.onCpu _ target _).cpus target).blockReason = _
    rw [onCpu_self]
    exact hr
  have hperform : perform w (deliver p w id target targetHost payload) =
      Act.apply (((vmSchedWakeMailbox w₁ id.val ((w.cpus p).vmId.setWidth 32)).2.onCpu target
        clearInternal0).onCpu p (ret 0)) (.host fun sys => sys.setMailbox id
          { sys.mailboxes id with sendsAccepted := (sys.mailboxes id).sendsAccepted + 1 }) := rfl
  rw [hperform, hwake]
  refine ⟨rfl, rfl, fun j hj => ?_, rfl, fun i => ?_, ?_, ?_, fun q hq hqt => ?_⟩
  · show bmTest (bmClear w.sched.blocked id) j = _
    simp [hj]
  · show (update w.host.mailboxes id _ i).fifo = _ ∧
      (update w.host.mailboxes id _ i).slotSize = _
    by_cases hi : i = id
    · rw [hi, update_self]
      exact ⟨rfl, rfl⟩
    · rw [update_of_ne hi]
      exact ⟨rfl, rfl⟩
  · show ((((w₁.onCpu target _).onCpu target clearInternal0).onCpu p (ret 0)).cpus target) = _
    rw [onCpu_ne _ _ (Ne.symm hp), onCpu_self, onCpu_self, onCpu_self]
  · show ((((w₁.onCpu target _).onCpu target clearInternal0).onCpu p (ret 0)).cpus p) = _
    rw [onCpu_self, onCpu_ne _ _ hp, onCpu_ne _ _ hp, onCpu_ne _ _ hp]
  · show ((((w₁.onCpu target _).onCpu target clearInternal0).onCpu p (ret 0)).cpus q) = _
    rw [onCpu_ne _ _ hq, onCpu_ne _ _ hqt, onCpu_ne _ _ hqt, onCpu_ne _ _ hqt]

theorem observeWoken_single (hv : w.sched.vms id = some target)
    (hr : (w.cpus target).blockReason = .mailboxRecv)
    (hother : ∀ i p, i ≠ id → w.sched.vms i = some p → (w.cpus p).blockReason = .mailboxRecv →
      (w'.cpus p).blockReason = .mailboxRecv) :
    observeWoken w w' = receipt w' id target ((w.cpus target).internal 0) := by
  have hnone : ∀ i, i ≠ id → wokenAt w w' i = [] := fun i hi =>
    wokenAt_nil fun p hp hri hne => absurd (hother i p hi hp hri) hne
  obtain ⟨l₁, l₂, hl⟩ := List.append_of_mem (List.mem_finRange id)
  have hnd := List.nodup_finRange 64
  rw [hl, List.nodup_append] at hnd
  have h₁ : l₁.flatMap (wokenAt w w') = [] := List.flatMap_eq_nil_iff.mpr fun i hi =>
    hnone i (hnd.2.2 i hi id (List.mem_cons_self ..))
  have h₂ : l₂.flatMap (wokenAt w w') = [] := List.flatMap_eq_nil_iff.mpr fun i hi =>
    hnone i fun e => (List.nodup_cons.mp hnd.2.1).1 (e ▸ hi)
  unfold observeWoken
  rw [hl, List.flatMap_append, List.flatMap_cons, h₁, h₂, List.nil_append, List.append_nil]
  unfold wokenAt
  rw [hv]
  exact if_pos hr

/-- The direct hand-off: sent and received in one step, past no queued message. -/
theorem handedOver_balanced {w₂ : World VmSystem} {targetHost : Nat} (hinv : MailInv w)
    (hrun : Running t w) (hv : w.sched.vms id = some target)
    (hr : (w.cpus target).blockReason = .mailboxRecv)
    (ha0 : (w.cpus t.cpu).regs regA0 = BitVec.ofNat 32 id.val)
    (hread : readGuest w t.cpu ((w.cpus t.cpu).regs regA1) ((w.cpus t.cpu).regs regA2) = payload)
    (hlen : payload.length = (w.host.mailboxes id).slotSize.toNat)
    (hhost : vmTranslateWrite (w.cpus target) ((w.cpus target).internal 0)
      ((w.host.mailboxes id).slotSize.setWidth 32) = .ok targetHost)
    (h : HandedOver t.cpu w id target targetHost payload w₂) (hb : BitsOnly t.vmId w₂ w') :
    Balanced w w' (observeCall (some sysSend) t w w' ++ observeWoken w w') := by
  have hne : t.cpu ≠ target := fun e => hrun.reason (e ▸ hr)
  have hid : id ≠ t.vmId := fun e => by
    rw [e, hrun.home, Option.some.injEq] at hv
    exact hne hv
  have hcpu : ∀ q, q ≠ t.cpu → q ≠ target → w'.cpus q = w.cpus q := fun q hq hqt => by
    rw [hb.cpus]
    exact h.cpus q hq hqt
  have hsender : w'.cpus t.cpu = ret 0 (w.cpus t.cpu) := by rw [hb.cpus, h.sender]
  have hreceiver := congrFun hb.cpus target
  rw [h.receiver] at hreceiver
  have hbox : ∀ i, (w'.host.mailboxes i).fifo = (w.host.mailboxes i).fifo ∧
      (w'.host.mailboxes i).slotSize = (w.host.mailboxes i).slotSize := by
    rw [hb.host]
    exact h.box
  have hvms : w'.sched.vms = w.sched.vms := hb.vms.trans h.vms
  have htarget : ∀ i p, i ≠ id → w.sched.vms i = some p → p ≠ target := fun i p hi hp e =>
    hi (hinv.inj i id p hp (e ▸ hv))
  -- the two observations are of one message
  have hcall : observeCall (some sysSend) t w w' = [.sent id ⟨(w.cpus t.cpu).vmId, payload⟩] := by
    rw [observeSend ha0 hread, hsender, ret_a0, if_pos rfl]
  have hpayload : readGuest w' target ((w.cpus target).internal 0)
      ((w'.host.mailboxes id).slotSize.setWidth 32) = payload := by
    unfold readGuest
    rw [(hbox id).2, translateRead_of_write hhost (by rw [hreceiver]; rfl) (by rw [hreceiver]; rfl)]
    dsimp only
    rw [hb.mem, h.mem, toNat_setWidth_of_le (by decide), ← hlen]
    exact Mem.bytes_copy ..
  have hwoken : observeWoken w w' = [.received id ⟨(w.cpus t.cpu).vmId, payload⟩] := by
    rw [observeWoken_single hv hr fun i p hi hp hri => by
      rw [hcpu p (fun e => hrun.reason (e ▸ hri)) (htarget i p hi hp)]
      exact hri]
    have hreg : (w'.cpus target).regs regA0 = (w.cpus t.cpu).vmId.setWidth 32 := by
      rw [hreceiver]
      simp [clearInternal0, wakeCpu, VmCpu.setReg]
    have hdone : (w'.cpus target).blockReason ≠ .mailboxRecv := by
      rw [hreceiver]
      intro e
      cases e
    unfold receipt
    dsimp only
    rw [hpayload, hreg, toNat_setWidth_of_le (by decide), setWidth_setWidth_of_le _
      (by decide), setWidth_eq, if_pos ⟨hdone, BitVec.isLt _⟩]
  rw [hcall, hwoken]
  refine ⟨⟨?_, ?_, ?_, ?_, ?_⟩, hvms, fun i p hp => ?_⟩
  · rw [hvms, hb.host, h.hostVms]
    exact hinv.vms
  · rw [hvms]
    exact hinv.inj
  · intro i p hp
    rw [hvms] at hp
    rw [← hinv.vmId i p hp]
    by_cases he : p = t.cpu
    · rw [he, hsender]
      rfl
    · by_cases het : p = target
      · rw [het, hreceiver]
        rfl
      · rw [hcpu p he het]
  · intro i p hp
    rw [hvms] at hp
    obtain ⟨hv₁, hv₂⟩ := hinv.valid i p hp
    exact ⟨(hbox i).1 ▸ hv₁, by rw [(hbox i).1, (hbox i).2, hv₂]⟩
  · intro i p hp hri
    rw [hvms] at hp
    have het : p ≠ target := fun e => by
      rw [e, hreceiver] at hri
      cases hri
    have he : p ≠ t.cpu := fun e => by
      rw [e, hsender] at hri
      exact hrun.reason hri
    have hi : i ≠ id := fun e => by
      rw [e, hv, Option.some.injEq] at hp
      exact het hp.symm
    have hit : i ≠ t.vmId := fun e => by
      rw [e, hrun.home, Option.some.injEq] at hp
      exact he hp.symm
    have hsame := hcpu p he het
    obtain ⟨h1, h2, h3⟩ := hinv.waiting i p hp (hsame ▸ hri)
    exact ⟨((hb.blocked i hit).trans (h.blocked i hi)).trans h1,
      (VmMailbox.queue_congr (hbox i).1).trans h2, by rw [hsame, (hbox i).2]; exact h3⟩
  · rw [VmMailbox.queue_congr (hbox i).1]
    by_cases hi : i = id
    · -- nothing was queued for the receiver
      have hempty := (hinv.waiting id target hv hr).empty
      subst hi
      rw [hempty]
      simp
    · simp [Ne.symm hi]

theorem handleSend_balanced (hinv : MailInv w) (hrun : Running t w)
    (hb : BitsOnly t.vmId (perform w (handleSend t.cpu w)) w') :
    Balanced w w' (observeCall (some sysSend) t w w' ++ observeWoken w w') := by
  rcases handleSend_cases t.cpu w with ⟨id, target, payload, ha, heq⟩ | ⟨-, hfail⟩
  case inr => exact hfail.refused.balanced hb hinv hrun _
  case inl =>
    obtain ⟨hslot, hv, hsize, ⟨hostPayload, hx, hpayload⟩, -⟩ := ha
    rw [heq] at hb
    rw [hinv.vms] at hv
    have ha0 : (w.cpus t.cpu).regs regA0 = BitVec.ofNat 32 id.val := by
      rw [← hslot, ofNat_toNat, setWidth_eq]
    have hread : readGuest w t.cpu ((w.cpus t.cpu).regs regA1) ((w.cpus t.cpu).regs regA2) =
        payload := by
      unfold readGuest
      rw [hx]
      exact hpayload.symm
    have hlen : payload.length = (w.host.mailboxes id).slotSize.toNat := by
      rw [hpayload, Mem.length_bytes, hsize, toNat_setWidth_of_le (by decide)]
    have hword : BitVec.ofNat 32 payload.length = (w.host.mailboxes id).slotSize.setWidth 32 := by
      rw [hlen, ofNat_toNat]
    unfold sendTo at hb
    dsimp only at hb
    split at hb
    case isFalse hr => exact enqueue_balanced hinv hrun hv hr ha0 hread hb
    case isTrue hr =>
      -- a waiting receiver's buffer is writable, so the hand-off never falls through
      obtain ⟨hblocked, -, targetHost, hhost⟩ := hinv.waiting id target hv hr
      rw [hword, hhost] at hb
      have hne : t.cpu ≠ target := fun e => hrun.reason (e ▸ hr)
      exact handedOver_balanced hinv hrun hv hr ha0 hread hlen hhost
        (deliver_handedOver hv hr hblocked hne) hb

end Send

/-! ## Receiving -/

section Receive

variable {t : Turn} {w w' : World VmSystem}

theorem getMailbox_own (hinv : MailInv w) (hrun : Running t w) :
    w.host.getMailbox (w.cpus t.cpu).vmId.toNat = some (t.vmId, w.host.mailboxes t.vmId) := by
  have hid : (w.cpus t.cpu).vmId.toNat = t.vmId.val := by
    rw [hinv.vmId t.vmId t.cpu hrun.home, toNat_ofNat]
    exact Nat.mod_eq_of_lt (Nat.lt_trans t.vmId.isLt (by decide))
  unfold VmSystem.getMailbox
  rw [hid, dif_pos t.vmId.isLt, hinv.vms, hrun.home]

theorem observeWoken_own (hrun : Running t w)
    (hcpu : ∀ q, q ≠ t.cpu → w'.cpus q = w.cpus q) : observeWoken w w' = [] := by
  refine List.flatMap_eq_nil_iff.mpr fun i _ => wokenAt_nil fun p hp hr hne => ?_
  rw [hcpu p fun e => hrun.reason (e ▸ hr)] at hne
  exact absurd hr hne

/-- The invariant after a call that wrote the running VM and its mailbox only. -/
theorem MailInv.own (hinv : MailInv w) (hrun : Running t w)
    (hcpu : ∀ q, q ≠ t.cpu → w'.cpus q = w.cpus q) (hvms : w'.sched.vms = w.sched.vms)
    (hhost : w'.host.vms = w.host.vms)
    (hbox : ∀ i, i ≠ t.vmId → w'.host.mailboxes i = w.host.mailboxes i)
    (hblocked : ∀ j, j ≠ t.vmId → bmTest w'.sched.blocked j = bmTest w.sched.blocked j)
    (hid : (w'.cpus t.cpu).vmId = (w.cpus t.cpu).vmId)
    (hvalid : (w'.host.mailboxes t.vmId).Valid)
    (hwait : (w'.cpus t.cpu).blockReason = .mailboxRecv → Waiting w' t.vmId t.cpu) :
    MailInv w' where
  vms := by rw [hhost, hvms, hinv.vms]
  inj := by rw [hvms]; exact hinv.inj
  vmId i p hp := by
    rw [hvms] at hp
    rw [← hinv.vmId i p hp]
    by_cases he : p = t.cpu
    · rw [he, hid]
    · rw [hcpu p he]
  valid i p hp := by
    rw [hvms] at hp
    by_cases hi : i = t.vmId
    · exact hi ▸ hvalid
    · rw [hbox i hi]
      exact hinv.valid i p hp
  waiting i p hp hr := by
    rw [hvms] at hp
    by_cases he : p = t.cpu
    · have hi : i = t.vmId := hinv.inj i t.vmId p hp (he ▸ hrun.home)
      rw [hi, he]
      exact hwait (he ▸ hr)
    · have hi : i ≠ t.vmId := fun e => by
        rw [e, hrun.home, Option.some.injEq] at hp
        exact he hp.symm
      rw [hcpu p he] at hr
      obtain ⟨h1, h2, h3⟩ := hinv.waiting i p hp hr
      exact ⟨(hblocked i hi).trans h1, by rw [hbox i hi, h2], by rw [hbox i hi, hcpu p he]; exact h3⟩

theorem received_balanced {payload : List Byte} {sender : BitVec 16} {m : VmMailbox}
    {hostDest : Nat} (hinv : MailInv w) (hrun : Running t w)
    (hm : vmMailboxRecv (w.host.mailboxes t.vmId) = some (payload, sender, m))
    (hhost : vmTranslateWrite (w.cpus t.cpu) ((w.cpus t.cpu).regs regA0)
      ((w.host.mailboxes t.vmId).slotSize.setWidth 32) = .ok hostDest)
    (hb : BitsOnly t.vmId (perform w [.host (·.setMailbox t.vmId m), .mem (·.copy hostDest payload),
      .cpu t.cpu (ret (sender.setWidth 32))]) w') :
    Balanced w w' (observeCall (some sysRecv) t w w' ++ observeWoken w w') := by
  have hspec := vmMailboxRecv_spec (hinv.valid t.vmId t.cpu hrun.home)
  rw [hm] at hspec
  obtain ⟨hvalid, hsize, hlen, hqueue⟩ := hspec
  have hcpu : ∀ q, q ≠ t.cpu → w'.cpus q = w.cpus q := fun q hq => by
    rw [hb.cpus]
    exact update_of_ne hq ..
  have hself : w'.cpus t.cpu = ret (sender.setWidth 32) (w.cpus t.cpu) := by
    rw [hb.cpus]
    exact update_self ..
  have hmem : w'.mem = w.mem.copy hostDest payload := hb.mem
  have hown : w'.host.mailboxes t.vmId = m := by
    rw [hb.host]
    exact update_self ..
  have hbox : ∀ i, i ≠ t.vmId → w'.host.mailboxes i = w.host.mailboxes i := fun i hi => by
    rw [hb.host]
    exact update_of_ne hi ..
  have hread : readGuest w' t.cpu ((w.cpus t.cpu).regs regA0) (m.slotSize.setWidth 32) =
      payload := by
    unfold readGuest
    rw [hsize, translateRead_of_write hhost (by rw [hself]; rfl) (by rw [hself]; rfl)]
    dsimp only
    rw [hmem, toNat_setWidth_of_le (by decide), ← hlen]
    exact Mem.bytes_copy ..
  have hcall : observeCall (some sysRecv) t w w' = [.received t.vmId ⟨sender, payload⟩] := by
    unfold observeCall receipt
    rw [if_neg (by decide), if_pos rfl]
    dsimp only
    rw [hown, hread, hself, ret_a0, toNat_setWidth_of_le (by decide),
      setWidth_setWidth_of_le _ (by decide), setWidth_eq,
      if_pos ⟨hrun.reason, BitVec.isLt _⟩]
  rw [hcall, observeWoken_own hrun hcpu, List.append_nil]
  refine ⟨?_, hb.vms, fun i p _ => ?_⟩
  · refine hinv.own hrun hcpu hb.vms (by rw [hb.host]; rfl) hbox hb.blocked (by rw [hself]; rfl)
      (hown ▸ hvalid) fun hr => ?_
    rw [hself] at hr
    exact absurd hr hrun.reason
  · by_cases hi : i = t.vmId
    · rw [hi, hown, hqueue]
      simp
    · rw [hbox i hi]
      simp [Ne.symm hi]

theorem awaiting_balanced {timeout now : Word} {used : Nat} (hinv : MailInv w)
    (hrun : Running t w) (hlive : (w.cpus t.cpu).halted = false)
    (hm : vmMailboxRecv (w.host.mailboxes t.vmId) = none)
    {hostDest : Nat} (hhost : vmTranslateWrite (w.cpus t.cpu) ((w.cpus t.cpu).regs regA0)
      ((w.host.mailboxes t.vmId).slotSize.setWidth 32) = .ok hostDest)
    (hw' : (turnDispatched t used (w.onCpu t.cpu
      (awaitMessage ((w.cpus t.cpu).regs regA0) timeout now))).1 = w') :
    Balanced w w' (observeCall (some sysRecv) t w w' ++ observeWoken w w') := by
  have hempty := vmMailboxRecv_spec (hinv.valid t.vmId t.cpu hrun.home)
  rw [hm] at hempty
  have hpark : w' = (w.onCpu t.cpu (awaitMessage ((w.cpus t.cpu).regs regA0) timeout now)).onSched
      (·.park t.vmId) := by
    rw [← hw']
    unfold turnDispatched applyBlockTransition
    rw [onCpu_self, if_neg (by rw [show (awaitMessage ((w.cpus t.cpu).regs regA0) timeout now
      (w.cpus t.cpu)).halted = (w.cpus t.cpu).halted from rfl, hlive]; exact Bool.false_ne_true),
      if_pos nofun, onCpu_sched, hrun.home]
    dsimp only
    rw [onCpu_self, if_neg nofun]
  have hcpu : ∀ q, q ≠ t.cpu → w'.cpus q = w.cpus q := fun q hq => by
    rw [hpark]
    exact update_of_ne hq ..
  have hself : w'.cpus t.cpu =
      awaitMessage ((w.cpus t.cpu).regs regA0) timeout now (w.cpus t.cpu) := by
    rw [hpark]
    exact update_self ..
  have hhost' : w'.host = w.host := by rw [hpark]; rfl
  have hblocked : ∀ j, bmTest w'.sched.blocked j =
      (decide (j = t.vmId) || bmTest w.sched.blocked j) := fun j => by
    rw [hpark]
    exact bmTest_set ..
  have hcall : observeCall (some sysRecv) t w w' = [] := by
    unfold observeCall receipt
    rw [if_neg (by decide), if_pos rfl]
    dsimp only
    rw [hself]
    exact if_neg fun hc => hc.1 rfl
  have hvms : w'.sched.vms = w.sched.vms := by rw [hpark]; rfl
  rw [hcall, observeWoken_own hrun hcpu, List.append_nil]
  refine ⟨?_, hvms, fun i p _ => by rw [hhost']; exact List.append_nil _⟩
  refine hinv.own hrun hcpu hvms (by rw [hhost']) (fun _ _ => by rw [hhost'])
    (fun j hj => by rw [hblocked, decide_eq_false hj, Bool.false_or]) (by rw [hself]; rfl)
    (by rw [hhost']; exact hinv.valid t.vmId t.cpu hrun.home) fun _ => ?_
  refine ⟨by rw [hblocked, decide_eq_true rfl, Bool.true_or], by rw [hhost']; exact hempty, ?_⟩
  have hdest : (w'.cpus t.cpu).internal 0 = (w.cpus t.cpu).regs regA0 := by
    rw [hself]
    simp [awaitMessage]
  rw [hdest, hhost']
  exact ⟨hostDest, translateWrite_congr hhost (by rw [hself]; rfl) (by rw [hself]; rfl)⟩

theorem handleRecv_balanced {used : Nat} (hinv : MailInv w) (hrun : Running t w)
    (hlive : (w.cpus t.cpu).halted = false)
    (hw' : (turnDispatched t used (perform w (handleRecv t.cpu w))).1 = w') :
    Balanced w w' (observeCall (some sysRecv) t w w' ++ observeWoken w w') := by
  have hb : BitsOnly t.vmId (perform w (handleRecv t.cpu w)) w' := hw' ▸ turnDispatched_frame ..
  have hends := handleRecv_ends (getMailbox_own hinv hrun)
  generalize handleRecv t.cpu w = acts at *
  cases hends with
  | fails h => exact h.refused.balanced hb hinv hrun _
  | takes hx hm => exact received_balanced hinv hrun hm hx hb
  | waits hx hm _ => exact awaiting_balanced hinv hrun hlive hm hx hw'

end Receive

end Microgarbage.Mailbox
