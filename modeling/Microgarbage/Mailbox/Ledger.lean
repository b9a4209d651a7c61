import Microgarbage.Mailbox.System
import Microgarbage.Sched.Coherent

/-!
# Messages in flight

The messages a mailbox holds, what an observer sees of a run (sends that returned success, receives
that returned a message), and the invariant of the messaging system: a VM is blocked in `SYS_RECV`
only while its own mailbox is empty, and its buffer stays writable.

`Balanced` is the one-step account: what was queued plus what was sent is what was received plus
what is queued.
-/

namespace Microgarbage.Mailbox

open Lib Vm Containers Sched

structure Message where
  sender : BitVec 16
  payload : List Byte
  deriving DecidableEq

def slotMessage (scratch : List Byte) : Message := ⟨slotSender scratch, slotPayload scratch⟩

/-- The messages in a mailbox, oldest first. -/
def VmMailbox.queue (m : VmMailbox) : List Message := m.fifo.contents.map slotMessage

structure VmMailbox.Valid (m : VmMailbox) : Prop where
  fifo : m.fifo.Valid
  elementSize : m.fifo.elementSize = m.slotSize.toNat + vmMailboxSlotOverhead

theorem slotMessage_compose (sender : BitVec 16) (payload : List Byte) :
    slotMessage (composeSlot sender payload) = ⟨sender, payload⟩ := by
  have hsender : (byteOf sender 1 ++ byteOf sender 0 : BitVec 16) = sender := by
    refine BitVec.eq_of_getLsbD_eq fun i hi => ?_
    simp only [byteOf, BitVec.getLsbD_append, BitVec.getLsbD_extractLsb']
    by_cases h : i < 8
    · simp [h]
    · rw [if_neg h, show 8 * 1 + (i - 8) = i by omega, decide_eq_true (show i - 8 < 8 by omega),
        Bool.true_and]
  exact congrArg (Message.mk · payload) hsender

theorem vmMailboxInit_valid {storage : Mem} {slotSize depth : BitVec 16} {m : VmMailbox}
    (h : vmMailboxInit storage slotSize depth = some m) : m.Valid ∧ m.queue = [] := by
  unfold vmMailboxInit at h
  split at h
  case isTrue => cases h
  case isFalse hok =>
    cases h
    have hdepth : depth ≠ 0 := fun e => hok (.inr (.inr e))
    have hpos : 0 < depth.toNat := Nat.pos_of_ne_zero fun e => hdepth (BitVec.eq_of_toNat_eq e)
    exact ⟨⟨rbInit_valid hpos, rfl⟩, rfl⟩

theorem vmMailboxSend_spec {m : VmMailbox} (h : m.Valid) (sender : BitVec 16)
    (payload : List Byte) :
    (vmMailboxSend m sender payload).2.Valid ∧
      (vmMailboxSend m sender payload).2.slotSize = m.slotSize ∧
      (vmMailboxSend m sender payload).2.queue = m.queue ++
        (if (vmMailboxSend m sender payload).1 = .ok then [⟨sender, payload⟩] else []) := by
  unfold vmMailboxSend
  split
  · exact ⟨h, rfl, (List.append_nil _).symm⟩
  split
  · exact ⟨h, rfl, (List.append_nil _).symm⟩
  split
  · exact ⟨⟨h.fifo, h.elementSize⟩, rfl, (List.append_nil _).symm⟩
  · next hlen _ _ =>
    have hsize : (composeSlot sender payload).length = m.fifo.elementSize := by
      rw [h.elementSize, ← Decidable.not_not.mp hlen]
      simp only [composeSlot, List.length_append, List.length_cons, List.length_nil,
        vmMailboxSlotOverhead]
      omega
    have hpush := fifoPush_spec h.fifo hsize
    have hshape := rbPush_shape m.fifo (composeSlot sender payload)
    unfold fifoPush at hpush ⊢
    split
    case h_1 heq =>
      split at heq
      · cases heq
        exact ⟨⟨h.fifo, h.elementSize⟩, rfl, (List.append_nil _).symm⟩
      · cases heq
    case h_2 fifo heq =>
      split at heq
      · cases heq
      · cases heq
        next hfull =>
        rw [if_neg hfull] at hpush
        refine ⟨⟨hpush.1, hshape.2.trans h.elementSize⟩, rfl, ?_⟩
        rw [if_pos rfl]
        unfold VmMailbox.queue
        rw [hpush.2, List.map_append, List.map_singleton, slotMessage_compose]

theorem vmMailboxRecv_spec {m : VmMailbox} (h : m.Valid) :
    match vmMailboxRecv m with
    | none => m.queue = []
    | some (payload, sender, m') => m'.Valid ∧ m'.slotSize = m.slotSize ∧
        payload.length = m.slotSize.toNat ∧ m.queue = ⟨sender, payload⟩ :: m'.queue := by
  have hpop := rbPop_spec h.fifo
  unfold vmMailboxRecv fifoPop
  unfold rbPop at hpop ⊢
  by_cases h0 : m.fifo.count = 0
  · rw [if_pos h0] at hpop ⊢
    exact List.map_eq_nil_iff.mpr hpop
  · rw [if_neg h0] at hpop ⊢
    dsimp only at hpop ⊢
    obtain ⟨hvalid, hcontents⟩ := hpop
    generalize hscratch : m.fifo.storage.bytes (slotAt m.fifo m.fifo.tail) m.fifo.elementSize =
      scratch at hcontents ⊢
    have hlen : (slotPayload scratch).length = m.slotSize.toNat := by
      unfold slotPayload
      rw [← hscratch, List.length_drop, Mem.length_bytes, h.elementSize, Nat.add_sub_cancel]
    have htake : (slotPayload scratch).take m.slotSize.toNat = slotPayload scratch :=
      List.take_of_length_le (Nat.le_of_eq hlen)
    rw [htake]
    refine ⟨⟨hvalid, h.elementSize⟩, rfl, hlen, ?_⟩
    unfold VmMailbox.queue
    rw [hcontents, List.map_cons]
    rfl

/-! ## What an observer sees -/

/-- A send that returned success, a receive that returned a message. -/
inductive MailEvent where
  | sent (target : Slot) (m : Message)
  | received (target : Slot) (m : Message)
  deriving DecidableEq

def MailEvent.sentTo (i : Slot) : MailEvent → Option Message
  | .sent j m => if j = i then some m else none
  | .received _ _ => none

def MailEvent.receivedBy (i : Slot) : MailEvent → Option Message
  | .sent _ _ => none
  | .received j m => if j = i then some m else none

/-- The messages sent to slot `i`, in order. -/
def sentTo (i : Slot) (l : List MailEvent) : List Message := l.filterMap (MailEvent.sentTo i)

/-- The messages received by slot `i`, in order. -/
def receivedBy (i : Slot) (l : List MailEvent) : List Message := l.filterMap (MailEvent.receivedBy i)

section Projections

variable (i j : Slot) (m : Message) (l l' : List MailEvent)

@[simp] theorem sentTo_nil : sentTo i [] = [] := rfl

@[simp] theorem receivedBy_nil : receivedBy i [] = [] := rfl

@[simp] theorem sentTo_sent :
    sentTo i (.sent j m :: l) = (if j = i then [m] else []) ++ sentTo i l := by
  by_cases h : j = i <;> simp [sentTo, MailEvent.sentTo, h]

@[simp] theorem sentTo_received : sentTo i (.received j m :: l) = sentTo i l := rfl

@[simp] theorem receivedBy_sent : receivedBy i (.sent j m :: l) = receivedBy i l := rfl

@[simp] theorem receivedBy_received :
    receivedBy i (.received j m :: l) = (if j = i then [m] else []) ++ receivedBy i l := by
  by_cases h : j = i <;> simp [receivedBy, MailEvent.receivedBy, h]

theorem sentTo_append : sentTo i (l ++ l') = sentTo i l ++ sentTo i l' := List.filterMap_append ..

theorem receivedBy_append : receivedBy i (l ++ l') = receivedBy i l ++ receivedBy i l' :=
  List.filterMap_append ..

end Projections

/-- What a guest reads at an address of its own; nothing where it may not read. -/
def readGuest (w : World VmSystem) (p : Ptr) (addr size : Word) : List Byte :=
  match vmTranslateRead (w.cpus p) addr size with
  | .ok a => w.mem.bytes a size.toNat
  | .error _ => []

/-- The message a finished `SYS_RECV` returned: the sender in `a0`, unless it is a negative errno,
and the payload in the buffer. -/
def receipt (w : World VmSystem) (i : Slot) (p : Ptr) (dest : Word) : List MailEvent :=
  let a0 := (w.cpus p).regs regA0
  if (w.cpus p).blockReason ≠ .mailboxRecv ∧ a0.toNat < 65536 then
    [.received i ⟨a0.setWidth 16, readGuest w p dest ((w.host.mailboxes i).slotSize.setWidth 32)⟩]
  else
    []

/-- The receive that a step from `w` to `w'` finished for the VM in slot `i`, if it was blocked in
one. -/
def wokenAt (w w' : World VmSystem) (i : Slot) : List MailEvent :=
  match w.sched.vms i with
  | none => []
  | some p =>
    if (w.cpus p).blockReason = .mailboxRecv then receipt w' i p (savedDest (w.cpus p)) else []

def observeWoken (w w' : World VmSystem) : List MailEvent :=
  (List.finRange 64).flatMap (wokenAt w w')

/-- A VM that goes on waiting, or waits for something else, has received nothing. -/
theorem wokenAt_nil {w w' : World VmSystem} {i : Slot}
    (h : ∀ p, w.sched.vms i = some p → (w.cpus p).blockReason = .mailboxRecv →
      (w'.cpus p).blockReason ≠ .mailboxRecv → 65536 ≤ ((w'.cpus p).regs regA0).toNat) :
    wokenAt w w' i = [] := by
  unfold wokenAt
  cases hp : w.sched.vms i with
  | none => rfl
  | some p =>
    dsimp only
    split
    case isFalse => rfl
    case isTrue hr => exact if_neg fun hc => Nat.not_lt.mpr (h p hp hr hc.1) hc.2

/-- What the caller of an ecall sees of a turn's iteration, `w` being the world its `vm_step` left
and `w'` the one after the iteration. -/
def observeCall (ecall : Option Word) (t : Turn) (w w' : World VmSystem) : List MailEvent :=
  let cpu := w.cpus t.cpu
  if ecall = some sysSend then
    if h : (w'.cpus t.cpu).regs regA0 = 0 ∧ (cpu.regs regA0).toNat < 64 then
      [.sent ⟨(cpu.regs regA0).toNat, h.2⟩
        ⟨cpu.vmId, readGuest w t.cpu (cpu.regs regA1) (cpu.regs regA2)⟩]
    else []
  else if ecall = some sysRecv then receipt w' t.vmId t.cpu (cpu.regs regA0)
  else []

def observeMail (s : Sys VmSystem) (e : Event VmSystem) : List MailEvent :=
  match step s e with
  | none => []
  | some s' =>
    (match s.turn, e with
      | some t, .iterate env =>
        observeCall (ecallOf env.tick t s.world) t (ranWorld env.tick t s.world) s'.world
      | _, _ => []) ++ observeWoken s.world s'.world

/-! ## The invariant -/

/-- A receiver that waits: parked, its mailbox empty, its buffer writable. -/
structure Waiting (w : World VmSystem) (i : Slot) (p : Ptr) : Prop where
  blocked : bmTest w.sched.blocked i = true
  empty : (w.host.mailboxes i).queue = []
  writable : ∃ a, vmTranslateWrite (w.cpus p) ((w.cpus p).internal 0)
    ((w.host.mailboxes i).slotSize.setWidth 32) = .ok a

structure MailInv (w : World VmSystem) : Prop where
  vms : w.host.vms = w.sched.vms
  inj : ∀ i j p, w.sched.vms i = some p → w.sched.vms j = some p → i = j
  vmId : ∀ i p, w.sched.vms i = some p → (w.cpus p).vmId = BitVec.ofNat 16 i
  valid : ∀ i p, w.sched.vms i = some p → (w.host.mailboxes i).Valid
  waiting : ∀ i p, w.sched.vms i = some p → (w.cpus p).blockReason = .mailboxRecv → Waiting w i p

/-- One step's account: the invariant holds on, and for every VM what was queued and what was sent
is what was received and what is queued. -/
structure Balanced (w w' : World VmSystem) (l : List MailEvent) : Prop where
  inv : MailInv w'
  vms : w'.sched.vms = w.sched.vms
  account : ∀ i p, w.sched.vms i = some p →
    (w.host.mailboxes i).queue ++ sentTo i l = receivedBy i l ++ (w'.host.mailboxes i).queue

/-! ## Steps that move no message -/

/-- A slot that a step does not hand a message to: if it waits afterwards it waited before, in the
same way; if its wait ended, it ended in an errno. -/
structure SlotQuiet (w w' : World VmSystem) (i : Slot) (p : Ptr) : Prop where
  vmId : (w'.cpus p).vmId = (w.cpus p).vmId
  waiting : (w'.cpus p).blockReason = .mailboxRecv →
    w'.cpus p = w.cpus p ∧ bmTest w'.sched.blocked i = bmTest w.sched.blocked i
  failed : (w.cpus p).blockReason = .mailboxRecv → (w'.cpus p).blockReason ≠ .mailboxRecv →
    65536 ≤ ((w'.cpus p).regs regA0).toNat

structure Quiet (w w' : World VmSystem) : Prop where
  vms : w'.sched.vms = w.sched.vms
  host : w'.host.vms = w.host.vms
  box : ∀ i, (w'.host.mailboxes i).fifo = (w.host.mailboxes i).fifo ∧
    (w'.host.mailboxes i).slotSize = (w.host.mailboxes i).slotSize
  slot : ∀ i p, w.sched.vms i = some p → SlotQuiet w w' i p

theorem VmMailbox.queue_congr {m m' : VmMailbox} (h : m'.fifo = m.fifo) : m'.queue = m.queue := by
  unfold VmMailbox.queue
  rw [h]

namespace Quiet

variable {w w' : World VmSystem}

theorem inv (h : Quiet w w') (hw : MailInv w) : MailInv w' where
  vms := by rw [h.host, h.vms, hw.vms]
  inj := by rw [h.vms]; exact hw.inj
  vmId i p hp := by
    rw [h.vms] at hp
    rw [(h.slot i p hp).vmId]
    exact hw.vmId i p hp
  valid i p hp := by
    rw [h.vms] at hp
    obtain ⟨hf, hs⟩ := h.box i
    obtain ⟨hv, he⟩ := hw.valid i p hp
    exact ⟨hf ▸ hv, by rw [hf, hs, he]⟩
  waiting i p hp hr := by
    rw [h.vms] at hp
    obtain ⟨hf, hs⟩ := h.box i
    obtain ⟨hcpu, hb⟩ := (h.slot i p hp).waiting hr
    obtain ⟨h1, h2, h3⟩ := hw.waiting i p hp (hcpu ▸ hr)
    exact ⟨hb.trans h1, (VmMailbox.queue_congr hf).trans h2, by rw [hcpu, hs]; exact h3⟩

theorem observeWoken (h : Quiet w w') : observeWoken w w' = [] :=
  List.flatMap_eq_nil_iff.mpr fun i _ => wokenAt_nil fun p hp => (h.slot i p hp).failed

theorem balanced (h : Quiet w w') (hw : MailInv w) : Balanced w w' [] where
  inv := h.inv hw
  vms := h.vms
  account i _ _ := by
    rw [VmMailbox.queue_congr (h.box i).1]
    exact List.append_nil _

end Quiet

end Microgarbage.Mailbox
