import Microgarbage.Mailbox.Counters

/-!
# Conservation of messages

The system with its host: VMs are loaded and unloaded between scheduling decisions, and mailboxes
reset. Each mailbox's counters account for its messages, `sends_accepted` being `recvs` plus what is
queued plus what resets dropped, as long as no message is handed to a waiting receiver.
-/

namespace Microgarbage.Mailbox

open Lib Vm Containers Sched
open Function (update update_of_ne update_self)

/-! ## The host -/

/-- Drops the messages; stats and whitelist are preserved. -/
def vmMailboxReset (m : VmMailbox) : VmMailbox := { m with fifo := rbReset m.fifo }

def zeroMailbox : VmMailbox := ⟨0, 0, 0, 0, 0, 0, 0#64, rbInit (fun _ => 0) 0 0⟩

/-- `vm_system_unload_vm`, less what it gives back to the slabs. -/
def unloadVm (w : World VmSystem) (i : Slot) : World VmSystem :=
  match w.host.vms i with
  | none => w
  | some p =>
    let w := vmSchedUnregister (w.onCpu p ({ · with halted := true })) i
    { w with host :=
      ⟨update w.host.vms i none, update w.host.mailboxes i zeroMailbox⟩ }

/-- The system, and for each mailbox how many messages its resets have dropped. -/
structure Accounts where
  sys : Sys VmSystem
  dropped : Slot → Nat

/-- A step of the scheduler, or a call of the host's own: VMs come and go between decisions, in CPU
blocks of their own. -/
inductive HostEvent where
  | machine (e : Event VmSystem)
  | load (p : Ptr) (image : VmImage) (storage : Mem) (slotSize depth : BitVec 16)
  | unload (i : Slot)
  | whitelist (i : Slot) (sender : BitVec 16)
  | reset (i : Slot)

namespace Accounts

def onHost (a : Accounts) (f : VmSystem → VmSystem) : Accounts :=
  { a with sys := { a.sys with world := { a.sys.world with host := f a.sys.world.host } } }

def hostStep (a : Accounts) : HostEvent → Option Accounts
  | .machine e => (step a.sys e).map fun s => { a with sys := s }
  | .load p image storage slotSize depth =>
    if a.sys.turn = none ∧ ∀ j, a.sys.world.sched.vms j ≠ some p then
      match lowestFree a.sys.world.sched, loadVm a.sys.world p image storage slotSize depth with
      | some id, some w => some ⟨⟨w, none⟩, update a.dropped id 0⟩
      | _, _ => none
    else
      none
  | .unload i =>
    if a.sys.turn = none then some { a with sys := ⟨unloadVm a.sys.world i, none⟩ } else none
  | .whitelist i sender =>
    some (a.onHost fun sys => sys.setMailbox i (vmMailboxWhitelistSet (sys.mailboxes i) sender).2)
  | .reset i => some
    { a.onHost fun sys => sys.setMailbox i (vmMailboxReset (sys.mailboxes i)) with
      dropped := update a.dropped i
        (a.dropped i + (a.sys.world.host.mailboxes i).queue.length) }

end Accounts

/-! ## The invariant of the messaging system, across the host's calls -/

section Host

variable {w : World VmSystem}

theorem vmMailboxReset_valid {m : VmMailbox} (h : m.Valid) : (vmMailboxReset m).Valid :=
  ⟨⟨h.fifo.capacity_pos, Nat.zero_le _, h.fifo.capacity_pos, (Nat.zero_mod _).symm⟩, h.elementSize⟩

theorem vmMailboxReset_queue (m : VmMailbox) : (vmMailboxReset m).queue = [] := rfl

theorem MailInv.reset (h : MailInv w) (i : Slot) :
    MailInv { w with
      host := w.host.setMailbox i (vmMailboxReset (w.host.mailboxes i)) } := by
  have hbox : ∀ j, (w.host.setMailbox i (vmMailboxReset (w.host.mailboxes i))).mailboxes j =
      w.host.mailboxes j ∨ (w.host.setMailbox i (vmMailboxReset (w.host.mailboxes i))).mailboxes j =
        vmMailboxReset (w.host.mailboxes j) := by
    intro j
    by_cases hj : j = i
    · rw [hj]
      exact .inr (update_self ..)
    · exact .inl (update_of_ne hj ..)
  refine ⟨h.vms, h.inj, h.vmId, fun j q hq => ?_, fun j q hq hr => ?_⟩
  · dsimp only
    rcases hbox j with hsame | hreset
    · rw [hsame]
      exact h.valid j q hq
    · rw [hreset]
      exact vmMailboxReset_valid (h.valid j q hq)
  · obtain ⟨hblocked, hempty, hwritable⟩ := h.waiting j q hq hr
    refine ⟨hblocked, ?_, ?_⟩
    · dsimp only
      rcases hbox j with hsame | hreset
      · rw [hsame]
        exact hempty
      · rw [hreset]
        exact vmMailboxReset_queue _
    · dsimp only
      rcases hbox j with hsame | hreset
      · rw [hsame]
        exact hwritable
      · rw [hreset]
        exact hwritable

theorem unregister_vms (w : World VmSystem) (i : Slot) :
    (vmSchedUnregister w i).sched.vms = update w.sched.vms i none := by
  unfold vmSchedUnregister
  rw [dif_pos i.isLt]
  dsimp only
  cases hv : w.sched.vms i with
  | none => exact (Function.update_eq_self_iff.mpr hv.symm).symm
  | some p => rfl

theorem unregister_blocked (w : World VmSystem) {i j : Slot} (h : j ≠ i) :
    bmTest (vmSchedUnregister w i).sched.blocked j = bmTest w.sched.blocked j := by
  unfold vmSchedUnregister
  rw [dif_pos i.isLt]
  dsimp only
  split
  · rfl
  · simp [VmSched.drop, VmSched.setDebt, VmSched.setConsumed, h]

theorem unregister_cpus (w : World VmSystem) (i : Slot) :
    (vmSchedUnregister w i).cpus = w.cpus ∧ (vmSchedUnregister w i).host = w.host := by
  unfold vmSchedUnregister
  rw [dif_pos i.isLt]
  dsimp only
  split <;> exact ⟨rfl, rfl⟩

theorem unregister_onCpu (w : World VmSystem) (p : Ptr) (f : VmCpu → VmCpu) (i : Slot) :
    vmSchedUnregister (w.onCpu p f) i = (vmSchedUnregister w i).onCpu p f := by
  unfold vmSchedUnregister
  rw [dif_pos i.isLt, dif_pos i.isLt]
  dsimp only
  rw [show (w.onCpu p f).sched = w.sched from rfl]
  cases w.sched.vms ⟨i.val, i.isLt⟩ <;> rfl

theorem unloadVm_mail (hs : Sound none w) (hinv : MailInv w) (i : Slot) :
    Sound none (unloadVm w i) ∧ MailInv (unloadVm w i) := by
  unfold unloadVm
  cases hvm : w.host.vms i with
  | none => exact ⟨hs, hinv⟩
  | some p =>
    dsimp only
    rw [unregister_onCpu]
    have hunreg := hs.unregister i
    have hvms := unregister_vms w i
    have hblocked : ∀ j, j ≠ i → bmTest (vmSchedUnregister w i).sched.blocked j =
        bmTest w.sched.blocked j := fun j => unregister_blocked w
    obtain ⟨hcpus, hhost⟩ := unregister_cpus w i
    generalize vmSchedUnregister w i = r at *
    rw [hinv.vms] at hvm
    -- the slots that stay: neither the slot nor the CPU of the unloaded VM
    have hslots : ∀ j q, r.sched.vms j = some q → j ≠ i ∧ q ≠ p ∧ w.sched.vms j = some q := by
      intro j q hq
      rw [hvms] at hq
      have hj : j ≠ i := fun e => by
        rw [e, update_self] at hq
        cases hq
      rw [update_of_ne hj] at hq
      exact ⟨hj, fun e => hj (hinv.inj j i p (e ▸ hq) hvm), hq⟩
    have hcpu : ∀ q, q ≠ p → (r.onCpu p ({ · with halted := true })).cpus q = w.cpus q :=
      fun q hq => (onCpu_ne _ _ hq).trans (congrFun hcpus q)
    have hbox : ∀ j, j ≠ i → update
        (r.onCpu p ({ · with halted := true })).host.mailboxes i zeroMailbox j =
          w.host.mailboxes j := fun j hj =>
      (update_of_ne hj ..).trans (congrArg (VmSystem.mailboxes · j) hhost)
    have hsound := hunreg.onCpu_free (fun j hj => (hslots j p hj).2.1 rfl) ({ · with halted := true })
    refine ⟨hsound.congr ⟨rfl, rfl, rfl, rfl, fun _ => rfl, fun _ => rfl⟩, ?_, hsound.inj, ?_, ?_,
      ?_⟩
    · refine Eq.trans ?_ hvms.symm
      dsimp only
      rw [← hinv.vms, ← hhost]
      rfl
    · intro j q hq
      obtain ⟨-, hne, hold⟩ := hslots j q hq
      exact (congrArg VmCpu.vmId (hcpu q hne)).trans (hinv.vmId j q hold)
    · intro j q hq
      obtain ⟨hj, -, hold⟩ := hslots j q hq
      dsimp only
      rw [hbox j hj]
      exact hinv.valid j q hold
    · intro j q hq hr
      obtain ⟨hj, hne, hold⟩ := hslots j q hq
      dsimp only at hr
      rw [hcpu q hne] at hr
      obtain ⟨hb, hempty, hwritable⟩ := hinv.waiting j q hold hr
      refine ⟨(hblocked j hj).trans hb, ?_, ?_⟩
      · dsimp only
        rw [hbox j hj]
        exact hempty
      · dsimp only
        rw [hbox j hj, hcpu q hne]
        exact hwritable

end Host

/-! ## The account of one mailbox -/

/-- `sends_accepted` is `recvs` plus what is queued plus what was dropped. -/
def Book.Accounted (b : Book) (dropped : Nat) : Prop :=
  b.accepted.toNat = b.recvs.toNat + b.queued + dropped

section Book

variable {b : Book} {dropped : Nat}

theorem Book.Accounted.hand (h : b.Accounted dropped) : ¬b.hand.Accounted dropped := by
  unfold Accounted Book.hand at *
  dsimp only
  have hone : (1 : Word).toNat = 1 := rfl
  have hlt := b.accepted.isLt
  rw [BitVec.toNat_add, hone]
  omega

theorem Book.Accounted.push_iff (h : b.Accounted dropped) :
    b.push.Accounted dropped ↔ b.accepted.toNat ≠ 0xFFFFFFFF := by
  unfold Accounted Book.push at *
  dsimp only
  have hone : (1 : Word).toNat = 1 := rfl
  have hlt := b.accepted.isLt
  rw [BitVec.toNat_add, hone]
  omega

/-- There are no more receives than accepted sends, so `recvs` does not wrap. -/
theorem Book.Accounted.pop (h : b.Accounted dropped) (hpos : 0 < b.queued) :
    b.pop.Accounted dropped := by
  unfold Accounted Book.pop at *
  dsimp only
  have hone : (1 : Word).toNat = 1 := rfl
  have hlt := b.accepted.isLt
  rw [BitVec.toNat_add, hone]
  omega

end Book

/-- Every loaded VM's mailbox is accounted for. -/
def Accounts.Conserved (a : Accounts) : Prop :=
  ∀ i, (a.sys.world.host.vms i).isSome → (a.sys.world.host.books i).Accounted (a.dropped i)

theorem forall_update_iff {P : Slot → Book → Prop} {b : Slot → Book} {live : Slot → Prop}
    {id : Slot} {x : Book} (hlive : live id) (h : ∀ i, live i → P i (b i)) :
    (∀ i, live i → P i (update b id x i)) ↔ P id x := by
  constructor
  · intro hall
    have hid := hall id hlive
    rwa [update_self] at hid
  · intro hx i hi
    by_cases he : i = id
    · rw [he, update_self]
      exact hx
    · rw [update_of_ne he]
      exact h i hi

/-- A step keeps the accounts unless it hands a message over, or queues one where the counter is at
its largest value. -/
theorem BookStep.accounted_iff {hands queues live : Slot → Prop} {b b' : Slot → Book}
    {dropped : Slot → Nat} (h : BookStep hands queues b b') (hhands : ∀ i, hands i → live i)
    (hqueues : ∀ i, queues i → live i)
    (hb : ∀ i, live i → (b i).Accounted (dropped i)) :
    (∀ i, live i → (b' i).Accounted (dropped i)) ↔
      ∀ i, ¬hands i ∧ ¬(queues i ∧ (b i).accepted.toNat = 0xFFFFFFFF) := by
  cases h with
  | same ho hq h =>
    rw [h]
    exact iff_of_true hb fun i => ⟨ho i, fun hi => hq i hi.1⟩
  | handed id ho hs hq h =>
    have hlive := hhands id ho
    rw [h, forall_update_iff (P := fun i b => b.Accounted (dropped i)) hlive hb]
    exact iff_of_false (hb id hlive).hand fun hall => (hall id).1 ho
  | queued id hq hs ho h =>
    have hlive := hqueues id hq
    rw [h, forall_update_iff (P := fun i b => b.Accounted (dropped i)) hlive hb,
      (hb id hlive).push_iff]
    constructor
    · intro hmax i
      refine ⟨ho i, fun hi => hmax ?_⟩
      rw [← hs i hi.1]
      exact hi.2
    · exact fun hall hmax => (hall id).2 ⟨hq, hmax⟩
  | received id ho hq hpos h =>
    refine iff_of_true (fun i hi => ?_) fun i => ⟨ho i, fun hi => hq i hi.1⟩
    rw [h]
    by_cases he : i = id
    · rw [he, update_self]
      exact (hb id (he ▸ hi)).pop hpos
    · rw [update_of_ne he]
      exact hb i hi

/-! ## Steps -/

/-- The events of a run: only the code of the system itself counts messages. -/
def HostEvent.Ok : HostEvent → Prop
  | .machine e => CountEvents e
  | _ => True

/-- The step takes the synchronous-delivery path, or queues a message for a mailbox whose
`sends_accepted` wraps. -/
def Accounts.Miscounts (a : Accounts) : HostEvent → Prop
  | .machine e => ∃ i, AtSend HandsOver a.sys e i ∨
      AtSend Queues a.sys e i ∧ (a.sys.world.host.books i).accepted.toNat = 0xFFFFFFFF
  | _ => False

theorem AtSend.vm {s : Sys VmSystem} {e : Event VmSystem} {i : Slot}
    {P : Ptr → World VmSystem → Slot → Prop}
    (hP : ∀ p w, P p w i → (w.host.vms i).isSome) (h : AtSend P s e i) :
    (s.world.host.vms i).isSome := by
  unfold AtSend at h
  split at h
  · have hran := hP _ _ h.2
    exact hran
  · exact h.elim

namespace Accounts

variable {a a' : Accounts}

theorem machine_conserved {e : Event VmSystem} {s' : Sys VmSystem} (h : MailState a.sys)
    (hok : CountEvents e) (hc : a.Conserved) (hstep : step a.sys e = some s') :
    ({ a with sys := s' } : Accounts).Conserved ↔ ¬a.Miscounts (.machine e) := by
  obtain ⟨hstate, hbalanced⟩ := step_balanced h hok.1 hstep
  have hvms : s'.world.host.vms = a.sys.world.host.vms := by
    rw [hstate.inv.vms, hbalanced.vms, h.inv.vms]
  have hhands : ∀ i, AtSend HandsOver a.sys e i → (a.sys.world.host.vms i).isSome := fun i =>
    AtSend.vm fun p w ⟨target, _, ha, _⟩ => by rw [ha.vm]; rfl
  have hqueues : ∀ i, AtSend Queues a.sys e i → (a.sys.world.host.vms i).isSome := fun i =>
    AtSend.vm fun p w ⟨target, _, ha, _⟩ => by rw [ha.vm]; rfl
  have hiff := (step_books h hok hstep).accounted_iff hhands hqueues hc
  unfold Conserved Miscounts
  dsimp only
  rw [hvms, hiff]
  simp only [not_exists, not_or]

theorem onHost_state {f : VmSystem → VmSystem} (h : MailState a.sys)
    (hinv : MailInv (a.onHost f).sys.world) : MailState (a.onHost f).sys := by
  refine ⟨?_, hinv, h.home⟩
  have hsame : SameSets a.sys.world (a.onHost f).sys.world :=
    ⟨rfl, rfl, rfl, rfl, fun _ => rfl, fun _ => rfl⟩
  have hsound := h.sound
  obtain ⟨⟨w, turn⟩, dropped⟩ := a
  cases turn with
  | none => exact Sound.congr hsound hsame
  | some t => exact InTurn.congr hsound hsame

theorem whitelist_quiet (w : World VmSystem) (i : Slot) (sender : BitVec 16) :
    Quiet w { w with
      host := w.host.setMailbox i (vmMailboxWhitelistSet (w.host.mailboxes i) sender).2 } :=
  ⟨rfl, rfl, setMailbox_box w.host (whitelistSet_fifo (w.host.mailboxes i) sender),
    fun _ _ _ => ⟨rfl, fun _ => ⟨rfl, rfl⟩, fun hr hne => absurd hr hne⟩⟩

theorem sound_idle (h : MailState a.sys) (hturn : a.sys.turn = none) :
    Sound none a.sys.world := by
  have hsound := h.sound
  unfold SysSound at hsound
  rw [hturn] at hsound
  exact hsound

theorem hostStep_state {e : HostEvent} (h : MailState a.sys) (hok : e.Ok)
    (hstep : a.hostStep e = some a') : MailState a'.sys := by
  unfold hostStep at hstep
  cases e with
  | machine e =>
    obtain ⟨s', hs', rfl⟩ := Option.map_eq_some_iff.mp hstep
    exact (step_balanced h hok.1 hs').1
  | load p image storage slotSize depth =>
    dsimp only at hstep
    split at hstep
    case isFalse => cases hstep
    case isTrue hcond =>
      split at hstep
      case h_2 => cases hstep
      case h_1 id w hid hload =>
        cases hstep
        obtain ⟨hsound, hinv, -⟩ := loadVm_mail (sound_idle h hcond.1) h.inv hcond.2 hload
        exact ⟨hsound, hinv, nofun⟩
  | unload i =>
    dsimp only at hstep
    split at hstep
    case isFalse => cases hstep
    case isTrue hturn =>
      cases hstep
      obtain ⟨hsound, hinv⟩ := unloadVm_mail (sound_idle h hturn) h.inv i
      exact ⟨hsound, hinv, nofun⟩
  | whitelist i sender =>
    cases hstep
    exact onHost_state h ((whitelist_quiet a.sys.world i sender).inv h.inv)
  | reset i =>
    cases hstep
    exact onHost_state (f := fun sys => sys.setMailbox i (vmMailboxReset (sys.mailboxes i))) h
      (h.inv.reset i)

/-! ### The accounts across the host's calls -/

theorem loadVm_books {w w' : World VmSystem} {p : Ptr} {image : VmImage} {storage : Mem}
    {slotSize depth : BitVec 16} {id : Slot} (hid : lowestFree w.sched = some id)
    (hl : loadVm w p image storage slotSize depth = some w') :
    w'.host.vms = update w.host.vms id (some p) ∧
      w'.host.books = update w.host.books id ⟨0, 0, 0⟩ := by
  unfold loadVm at hl
  rw [hid] at hl
  split at hl
  case h_2 => cases hl
  case h_1 id' mbox hid' hbox =>
    cases hid'
    cases hl
    refine ⟨rfl, ?_⟩
    rw [← vmMailboxInit_book hbox]
    exact setMailbox_books w.host id mbox

theorem unloadVm_books (w : World VmSystem) (i : Slot) :
    (unloadVm w i).host.vms = update w.host.vms i none ∧
      ∀ j, j ≠ i → (unloadVm w i).host.books j = w.host.books j := by
  unfold unloadVm
  cases hvm : w.host.vms i with
  | none => exact ⟨(Function.update_eq_self_iff.mpr hvm.symm).symm, fun _ _ => rfl⟩
  | some p =>
    have hhost := (unregister_cpus (w.onCpu p ({ · with halted := true })) i).2
    dsimp only
    rw [hhost]
    refine ⟨rfl, fun j hj => ?_⟩
    exact congrArg VmMailbox.book (update_of_ne hj ..)

theorem hostStep_conserved {e : HostEvent} (h : MailState a.sys) (hok : e.Ok) (hc : a.Conserved)
    (hstep : a.hostStep e = some a') : a'.Conserved ↔ ¬a.Miscounts e := by
  unfold hostStep at hstep
  cases e with
  | machine e =>
    obtain ⟨s', hs', rfl⟩ := Option.map_eq_some_iff.mp hstep
    exact machine_conserved h hok hc hs'
  | load p image storage slotSize depth =>
    refine iff_of_true ?_ id
    dsimp only at hstep
    split at hstep
    case isFalse => cases hstep
    case isTrue hcond =>
      split at hstep
      case h_2 => cases hstep
      case h_1 id w hid hload =>
        cases hstep
        obtain ⟨hvms, hbooks⟩ := loadVm_books hid hload
        intro i hi
        dsimp only at hi ⊢
        rw [hbooks]
        by_cases he : i = id
        · rw [he, update_self, update_self]
          rfl
        · rw [hvms, update_of_ne he] at hi
          rw [update_of_ne he, update_of_ne he]
          exact hc i hi
  | unload i =>
    refine iff_of_true ?_ id
    dsimp only at hstep
    split at hstep
    case isFalse => cases hstep
    case isTrue hturn =>
      cases hstep
      obtain ⟨hvms, hbooks⟩ := unloadVm_books a.sys.world i
      intro j hj
      dsimp only at hj ⊢
      rw [hvms] at hj
      have hne : j ≠ i := fun e => by
        rw [e, update_self] at hj
        cases hj
      rw [update_of_ne hne] at hj
      rw [hbooks j hne]
      exact hc j hj
  | whitelist i sender =>
    cases hstep
    refine iff_of_true (fun j hj => ?_) id
    have hbooks := setMailbox_sameBook a.sys.world.host
      (whitelistSet_book (a.sys.world.host.mailboxes i) sender)
    exact (congrFun hbooks j) ▸ hc j hj
  | reset i =>
    cases hstep
    refine iff_of_true (fun j hj => ?_) id
    have hbooks := setMailbox_books a.sys.world.host i
      (vmMailboxReset (a.sys.world.host.mailboxes i))
    have hold := hc j hj
    show ((a.sys.world.host.setMailbox i _).books j).Accounted (update a.dropped i _ j)
    rw [hbooks]
    by_cases he : j = i
    · subst he
      rw [update_self, update_self]
      unfold Book.Accounted VmSystem.books VmMailbox.book at *
      dsimp only at *
      rw [vmMailboxReset_queue]
      simp only [vmMailboxReset, List.length_nil]
      omega
    · rw [update_of_ne he, update_of_ne he]
      exact hold

/-- The system as `vm_system_init` leaves it. -/
def start (cfg : VmSchedConfig) (cpus : Ptr → VmCpu) (mem : Mem) (mailboxes : Slot → VmMailbox) :
    Accounts :=
  ⟨⟨vmSystemInit cfg cpus mem mailboxes, none⟩, fun _ => 0⟩

end Accounts

open Accounts in
/-- The accounts of all mailboxes are right all along a run exactly when no message of the run is
handed to a waiting receiver and no `sends_accepted` wraps. -/
theorem run_conserved_iff (cfg : VmSchedConfig) (cpus : Ptr → VmCpu) (mem : Mem)
    (mailboxes : Slot → VmMailbox) {es : List HostEvent} (hes : ∀ e ∈ es, e.Ok) :
    (∀ fs a, fs <+: es → run hostStep (start cfg cpus mem mailboxes) fs = some a →
      a.Conserved) ↔
    ∀ fs e a a', fs ++ [e] <+: es → run hostStep (start cfg cpus mem mailboxes) fs = some a →
      a.hostStep e = some a' → ¬a.Miscounts e := by
  obtain ⟨hsound, hinv, -, -⟩ := (Booted.init cfg cpus mem mailboxes).settled
  have hstart : MailState (start cfg cpus mem mailboxes).sys := ⟨hsound, hinv, nofun⟩
  have hempty : (start cfg cpus mem mailboxes).Conserved := fun i hi => nomatch hi
  exact run_always_iff (fun s e s' h hok he => hostStep_state h hok he)
    (fun s e s' h hok hc he => hostStep_conserved h hok hc he) hstart hempty hes

/-! ## A message handed over -/

def bareAccounts : Accounts :=
  .start ⟨0, 0⟩ (fun _ => vmInit 0) (fun _ => 0) fun _ => zeroMailbox

/-- Blocks in `SYS_RECV` for ever, its buffer at the start of its data. -/
def waitProgram : List Byte :=
  [0x93, 0x08, 0x10, 0x43, 0x37, 0x05, 0x00, 0x80, 0x93, 0x05, 0xF0, 0xFF, 0x73, 0, 0, 0]

/-- Sends the first byte of its code to VM 0. -/
def tellProgram : List Byte :=
  [0x93, 0x08, 0x00, 0x43, 0x13, 0x06, 0x10, 0x00, 0x73, 0, 0, 0]

/-- A program in host memory at `base`, with sixteen bytes of data behind it. -/
def programAt (base : Nat) (program : List Byte) : VmImage where
  regions r := if r = regionCode then ⟨base, 32, false⟩ else
    if r = regionData then ⟨base + 64, 16, true⟩ else .absent
  l2Shared := .absent
  entry := 0
  sp := 0x80000010
  fill mem := mem.copy base program

/-- VM 0 waits; VM 1, which it lists, sends it a byte. -/
def handedEvents : List HostEvent :=
  [.load 0 (programAt 0 waitProgram) (fun _ => 0) 1 2,
    .load 1 (programAt 128 tellProgram) (fun _ => 0) 1 2, .whitelist ⟨0, slot_zero_lt⟩ 1,
    .machine (.enter none), .machine (.iterate (systemEnv none)),
    .machine (.enter none), .machine (.iterate (systemEnv none))]

theorem handedEvents_book : ((run Accounts.hostStep bareAccounts handedEvents).map fun a =>
    (a.sys.world.host.books 0, (a.sys.world.host.vms 0).isSome, a.dropped 0)) =
      some (⟨1, 0, 0⟩, true, 0) := by
  decide +kernel

theorem handedEvents_run : ∃ a, run Accounts.hostStep bareAccounts handedEvents = some a ∧
    a.sys.world.host.books 0 = ⟨1, 0, 0⟩ ∧ ¬a.Conserved := by
  obtain ⟨a, ha, hbook⟩ := Option.map_eq_some_iff.mp handedEvents_book
  simp only [Prod.mk.injEq] at hbook
  obtain ⟨hbook, hvm, hdropped⟩ := hbook
  refine ⟨a, ha, hbook, fun h => ?_⟩
  have hzero := h 0 hvm
  rw [hbook, hdropped] at hzero
  cases hzero

theorem handedEvents_ok : ∀ e ∈ handedEvents, e.Ok := by
  intro e he
  simp only [handedEvents, List.mem_cons, List.not_mem_nil, or_false] at he
  have henv : CountEvents (.iterate (systemEnv none)) :=
    ⟨systemEnv_mail none, rfl, fun _ _ => nofun⟩
  rcases he with rfl | rfl | rfl | rfl | rfl | rfl | rfl
  · exact trivial
  · exact trivial
  · exact trivial
  · exact ⟨trivial, trivial⟩
  · exact henv
  · exact ⟨trivial, trivial⟩
  · exact henv

/-- A byte sent and taken, and the mailbox says that nothing was received and nothing is queued. -/
theorem handed_message_uncounted : ∃ a, (∀ e ∈ handedEvents, e.Ok) ∧
    run Accounts.hostStep bareAccounts handedEvents = some a ∧
    a.sys.world.host.books 0 = ⟨1, 0, 0⟩ ∧ ¬a.Conserved := by
  obtain ⟨a, ha, hbook, hnot⟩ := handedEvents_run
  exact ⟨a, handedEvents_ok, ha, hbook, hnot⟩

/-- A step of this run is to blame. -/
theorem run_conserved_handed : ∃ fs e a, fs ++ [e] <+: handedEvents ∧
    run Accounts.hostStep bareAccounts fs = some a ∧ a.Miscounts e := by
  obtain ⟨a, ha, -, hnot⟩ := handedEvents_run
  by_contra hnone
  refine hnot ((run_conserved_iff _ _ _ _ handedEvents_ok).mpr ?_ handedEvents a
    (List.prefix_refl _) ha)
  exact fun fs e b b' hpre hrun _ hbad => hnone ⟨fs, e, b, hpre, hrun, hbad⟩

end Microgarbage.Mailbox
