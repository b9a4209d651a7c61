import Microgarbage.Mailbox.Permission

/-!
# The counters of a mailbox

`sends_accepted` counts on both delivery paths, `recvs` only where a message is popped. This file
says what each step of the machine does to the two counters and to the queue: a message that is
queued or received keeps `sends_accepted` at `recvs` plus the queue, one that is handed to a waiting
receiver does not.
-/

namespace Microgarbage.Mailbox

open Lib Vm Containers Sched
open Function (update update_eq_self)

/-! ## Books -/

/-- What the accounting reads of a mailbox: its two counters and how many messages it holds. -/
@[ext] structure Book where
  accepted : Word
  recvs : Word
  queued : Nat
  deriving DecidableEq

def VmMailbox.book (m : VmMailbox) : Book := ⟨m.sendsAccepted, m.recvs, m.queue.length⟩

def VmSystem.books (sys : VmSystem) (i : Slot) : Book := (sys.mailboxes i).book

/-- An accepted send that left the queue alone. -/
def Book.hand (b : Book) : Book := { b with accepted := b.accepted + 1 }

/-- An accepted send that was queued. -/
def Book.push (b : Book) : Book := { b with accepted := b.accepted + 1, queued := b.queued + 1 }

def Book.pop (b : Book) : Book := { b with recvs := b.recvs + 1, queued := b.queued - 1 }

@[simp] theorem setMailbox_books (sys : VmSystem) (id : Slot) (m : VmMailbox) :
    (sys.setMailbox id m).books = update sys.books id m.book := by
  funext i
  unfold VmSystem.setMailbox VmSystem.books
  by_cases h : i = id
  · simp [h]
  · simp [h]

theorem setMailbox_sameBook (sys : VmSystem) {id : Slot} {m : VmMailbox}
    (h : m.book = (sys.mailboxes id).book) : (sys.setMailbox id m).books = sys.books := by
  rw [setMailbox_books, h]
  exact update_eq_self ..

theorem whitelistSet_book (m : VmMailbox) (sender : BitVec 16) :
    (vmMailboxWhitelistSet m sender).2.book = m.book := by
  unfold vmMailboxWhitelistSet
  split <;> rfl

theorem whitelistClear_book (m : VmMailbox) (sender : BitVec 16) :
    (vmMailboxWhitelistClear m sender).2.book = m.book := by
  unfold vmMailboxWhitelistClear
  split <;> rfl

theorem vmMailboxInit_book {storage : Mem} {slotSize depth : BitVec 16} {m : VmMailbox}
    (h : vmMailboxInit storage slotSize depth = some m) : m.book = ⟨0, 0, 0⟩ := by
  have hempty := (vmMailboxInit_valid h).2
  unfold vmMailboxInit at h
  split at h
  · cases h
  · cases h
    unfold VmMailbox.book
    rw [hempty]
    rfl

/-- A send of the right size by a listed sender is refused by a full queue only. -/
theorem vmMailboxSend_book {m : VmMailbox} (h : m.Valid) {sender : BitVec 16} {payload : List Byte}
    (hlen : payload.length = m.slotSize.toNat) (hlisted : vmMailboxWhitelistCheck m sender = true) :
    (vmMailboxSend m sender payload).2.book = if rbFull m.fifo then m.book else m.book.push := by
  obtain ⟨-, -, hqueue⟩ := vmMailboxSend_spec h sender payload
  unfold vmMailboxWhitelistCheck at hlisted
  obtain ⟨hid, hbit⟩ := (Bool.and_eq_true_iff ..).mp hlisted
  unfold vmMailboxSend at hqueue ⊢
  rw [if_neg (not_not.mpr hlen), if_neg (by rw [hid]; nofun), if_neg (by simpa using hbit)] at *
  unfold fifoPush at *
  cases hfull : rbFull m.fifo with
  | true => rfl
  | false =>
    rw [hfull] at hqueue
    refine Book.ext rfl rfl ?_
    have hlength := congrArg List.length hqueue
    rw [List.length_append] at hlength
    exact hlength

theorem vmMailboxRecv_book {m m' : VmMailbox} (h : m.Valid) {payload : List Byte}
    {sender : BitVec 16} (hrecv : vmMailboxRecv m = some (payload, sender, m')) :
    m'.book = m.book.pop ∧ 0 < m.book.queued := by
  have hspec := vmMailboxRecv_spec h
  rw [hrecv] at hspec
  obtain ⟨-, -, -, hqueue⟩ := hspec
  have hlength : m.queue.length = m'.queue.length + 1 := by rw [hqueue]; rfl
  have hcounters : m'.sendsAccepted = m.sendsAccepted ∧ m'.recvs = m.recvs + 1 := by
    unfold vmMailboxRecv at hrecv
    split at hrecv
    · cases hrecv
    · cases hrecv
      exact ⟨rfl, rfl⟩
  unfold VmMailbox.book
  refine ⟨Book.ext hcounters.1 hcounters.2 ?_, ?_⟩
  · show m'.queue.length = m.queue.length - 1
    omega
  · show 0 < m.queue.length
    omega

/-! ## Handlers that keep the books -/

def SameBooks (w w' : World VmSystem) : Prop := w'.host.books = w.host.books

/-- An action that changes no book, whatever state it finds. -/
def KeepsBooks : Act VmSystem → Prop
  | .host f => ∀ sys, (f sys).books = sys.books
  | .call _ => False
  | _ => True

theorem KeepsBooks.apply {a : Act VmSystem} (h : KeepsBooks a) (w : World VmSystem) :
    (a.apply w).host.books = w.host.books := by
  cases a with
  | cpu p f => rfl
  | mem f => rfl
  | host f => exact h w.host
  | call c => exact h.elim

/-! ## Sending -/

/-- The send of `p` finds its receiver blocked in `SYS_RECV`. -/
def HandsOver (p : Ptr) (w : World VmSystem) (id : Slot) : Prop :=
  ∃ target payload, Addressed p w id target payload ∧ (w.cpus target).blockReason = .mailboxRecv

/-- The send of `p` finds its receiver running and room in the queue. -/
def Queues (p : Ptr) (w : World VmSystem) (id : Slot) : Prop :=
  ∃ target payload, Addressed p w id target payload ∧
    (w.cpus target).blockReason ≠ .mailboxRecv ∧ rbFull (w.host.mailboxes id).fifo = false

section Send

variable {p : Ptr} {w : World VmSystem} {id : Slot} {target : Ptr} {payload : List Byte}

theorem Addressed.length (h : Addressed p w id target payload) :
    payload.length = (w.host.mailboxes id).slotSize.toNat := by
  obtain ⟨a, -, rfl⟩ := h.source
  rw [Mem.length_bytes, h.size, BitVec.toNat_setWidth_of_le (by decide)]

theorem Addressed.unique {id' : Slot} {target' : Ptr} {payload' : List Byte}
    (h : Addressed p w id target payload) (h' : Addressed p w id' target' payload') :
    id' = id ∧ target' = target := by
  have hid : id' = id := Fin.ext (h'.slot.symm.trans h.slot)
  refine ⟨hid, ?_⟩
  have hvm := h'.vm
  rw [hid, h.vm, Option.some.injEq] at hvm
  exact hvm.symm

theorem enqueue_books (hvalid : (w.host.mailboxes id).Valid)
    (h : Addressed p w id target payload) :
    (perform w (enqueue p w id payload)).host.books =
      if rbFull (w.host.mailboxes id).fifo then w.host.books
      else update w.host.books id (w.host.books id).push := by
  have hbook := vmMailboxSend_book hvalid h.length h.listed
  have hset : (perform w (enqueue p w id payload)).host.books =
      update w.host.books id
        (vmMailboxSend (w.host.mailboxes id) (w.cpus p).vmId payload).2.book :=
    setMailbox_books ..
  rw [hset, hbook]
  split
  · exact update_eq_self ..
  · rfl

theorem deliver_books {targetHost : Nat} :
    (perform w (deliver p w id target targetHost payload)).host.books =
      update w.host.books id (w.host.books id).hand := by
  have hhost : (perform w (deliver p w id target targetHost payload)).host =
      w.host.setMailbox id { w.host.mailboxes id with
        sendsAccepted := (w.host.mailboxes id).sendsAccepted + 1 } :=
    congrArg (fun sys : VmSystem => sys.setMailbox id { sys.mailboxes id with
      sendsAccepted := (sys.mailboxes id).sendsAccepted + 1 }) (wakeMailbox_host id _ _)
  rw [hhost, setMailbox_books]
  rfl

end Send

/-- What a step does to the books, `hands` and `queues` being the slots that it hands a message to
and queues one for. -/
inductive BookStep (hands queues : Slot → Prop) (b b' : Slot → Book) : Prop
  | same (ho : ∀ i, ¬hands i) (hq : ∀ i, ¬queues i) (h : b' = b)
  | handed (id : Slot) (ho : hands id) (hs : ∀ i, hands i → i = id) (hq : ∀ i, ¬queues i)
    (h : b' = update b id (b id).hand)
  | queued (id : Slot) (hq : queues id) (hs : ∀ i, queues i → i = id) (ho : ∀ i, ¬hands i)
    (h : b' = update b id (b id).push)
  | received (id : Slot) (ho : ∀ i, ¬hands i) (hq : ∀ i, ¬queues i) (hpos : 0 < (b id).queued)
    (h : b' = update b id (b id).pop)

theorem handleSend_books {p : Ptr} {w : World VmSystem} (hinv : MailInv w) :
    BookStep (HandsOver p w) (Queues p w) w.host.books
      (perform w (handleSend p w)).host.books := by
  rcases handleSend_cases p w with ⟨id, target, payload, ha, heq⟩ | ⟨hno, hfail⟩
  case inr =>
    exact .same (fun i ⟨target, payload, h, _⟩ => hno i target payload h)
      (fun i ⟨target, payload, h, _⟩ => hno i target payload h) (congrArg VmSystem.books hfail.host)
  case inl =>
    have hvm : w.sched.vms id = some target := by rw [← hinv.vms]; exact ha.vm
    rw [heq]
    unfold sendTo
    dsimp only
    by_cases hr : (w.cpus target).blockReason = .mailboxRecv
    · -- a waiting receiver's buffer is writable, so the hand-off never falls through
      obtain ⟨-, -, targetHost, hhost⟩ := hinv.waiting id target hvm hr
      have hword : BitVec.ofNat 32 payload.length = (w.host.mailboxes id).slotSize.setWidth 32 := by
        rw [ha.length, BitVec.ofNat_toNat]
      rw [if_pos hr, hword, hhost]
      refine .handed id ⟨target, payload, ha, hr⟩ (fun i ⟨_, _, h, _⟩ => (ha.unique h).1)
        (fun i ⟨target', _, h, hne, _⟩ => hne ?_) deliver_books
      rw [(ha.unique h).2]
      exact hr
    · rw [if_neg hr]
      have hover : ∀ i, ¬HandsOver p w i := fun i ⟨target', _, h, hr'⟩ =>
        hr (by rw [← (ha.unique h).2]; exact hr')
      have hbooks := enqueue_books (hinv.valid id target hvm) ha
      cases hfull : rbFull (w.host.mailboxes id).fifo with
      | true =>
        rw [hfull, if_pos rfl] at hbooks
        refine .same hover (fun i ⟨_, _, h, _, hroom⟩ => ?_) hbooks
        rw [(ha.unique h).1, hfull] at hroom
        cases hroom
      | false =>
        rw [hfull, if_neg nofun] at hbooks
        exact .queued id ⟨target, payload, ha, hr, hfull⟩ (fun i ⟨_, _, h, _⟩ => (ha.unique h).1)
          hover hbooks

/-! ## Receiving -/

theorem handleRecv_books {t : Turn} {w : World VmSystem} (hinv : MailInv w) (hrun : Running t w) :
    BookStep (fun _ => False) (fun _ => False) w.host.books
      (perform w (handleRecv t.cpu w)).host.books := by
  have hends := handleRecv_ends (getMailbox_own hinv hrun)
  generalize handleRecv t.cpu w = acts at *
  cases hends with
  | fails h => exact .same (fun _ => id) (fun _ => id) (congrArg VmSystem.books h.host)
  | takes _ hm =>
    obtain ⟨hbook, hpos⟩ := vmMailboxRecv_book (hinv.valid t.vmId t.cpu hrun.home) hm
    refine .received t.vmId (fun _ => id) (fun _ => id) hpos ?_
    refine (setMailbox_books ..).trans ?_
    rw [hbook]
    rfl
  | waits _ _ _ => exact .same (fun _ => id) (fun _ => id) rfl

/-! ## The other calls -/

theorem handleWhitelist_books {edit : VmMailbox → BitVec 16 → VmMailboxResult × VmMailbox}
    (h : ∀ m sender, (edit m sender).2.book = m.book) (p : Ptr) (w : World VmSystem) :
    SameBooks w (perform w (handleWhitelist edit p w)) := by
  unfold handleWhitelist
  dsimp only
  split
  · rfl
  · exact setMailbox_sameBook w.host (h _ _)

theorem handleMailboxInfo_books (p : Ptr) (w : World VmSystem) :
    SameBooks w (perform w (handleMailboxInfo p w)) := by
  unfold handleMailboxInfo
  dsimp only
  split
  · rfl
  · split <;> rfl

/-- What the table says of a number and what serves it. -/
structure Counts (n : Word) (handler : SysHandler) : Prop where
  send : n = sysSend → handler = handleSend
  recv : n = sysRecv → handler = handleRecv
  other : n ≠ sysSend → n ≠ sysRecv → ∀ p w, SameBooks w (perform w (handler p w))

theorem systemTable_counts : ∀ e ∈ cpuHandlers ++ systemHandlers, Counts e.1 e.2 := by
  intro e he
  obtain ⟨hsend, hrecv, -⟩ := systemTable_serves e he
  refine ⟨hsend, hrecv, fun hs hr p w => ?_⟩
  simp only [cpuHandlers, systemHandlers, List.cons_append, List.nil_append, List.mem_cons,
    List.not_mem_nil, or_false] at he
  rcases he with rfl | rfl | rfl | rfl | rfl | rfl | rfl | rfl | rfl | rfl | rfl | rfl | rfl | rfl |
    rfl
  case inr.inr.inr.inr.inr.inl => exact absurd rfl hs
  case inr.inr.inr.inr.inr.inr.inl => exact absurd rfl hr
  case inr.inr.inr.inr.inr.inr.inr.inl => exact handleMailboxInfo_books p w
  case inr.inr.inr.inr.inr.inr.inr.inr.inl => exact handleWhitelist_books whitelistSet_book p w
  case inr.inr.inr.inr.inr.inr.inr.inr.inr.inl =>
    exact handleWhitelist_books whitelistClear_book p w
  all_goals rfl

/-- The system's router, and a trap handler that changes no book. -/
structure CountEnv (env : Env VmSystem) : Prop where
  router : env.ecallRouter = some systemRouter
  trap : ∀ p w, ∀ a ∈ (env.trapHandler p w).1, KeepsBooks a

/-! ## One step of the machine -/

/-- The event `e` is a `SYS_SEND` that meets `P`. -/
def AtSend (P : Ptr → World VmSystem → Slot → Prop) (s : Sys VmSystem) (e : Event VmSystem)
    (id : Slot) : Prop :=
  match s.turn, e with
  | some t, .iterate env => ecallOf env.tick t s.world = some sysSend ∧
      P t.cpu (ranWorld env.tick t s.world) id
  | _, _ => False

theorem BookStep.congr {hands queues hands' queues' : Slot → Prop} {b b' : Slot → Book}
    (h : BookStep hands queues b b') (ho : ∀ i, hands' i ↔ hands i)
    (hq : ∀ i, queues' i ↔ queues i) : BookStep hands' queues' b b' := by
  have heq : hands' = hands := funext fun i => propext (ho i)
  have heq' : queues' = queues := funext fun i => propext (hq i)
  rw [heq, heq']
  exact h

theorem turnIteration_books {env : Env VmSystem} (hc : CountEnv env) {t : Turn}
    {w : World VmSystem} (hinv : MailInv w) (hrun : Running t w) :
    BookStep (AtSend HandsOver ⟨w, some t⟩ (.iterate env))
      (AtSend Queues ⟨w, some t⟩ (.iterate env)) w.host.books
      (turnIteration env t w).1.host.books := by
  have hran := Undisturbed.ran env.tick t w
  have hrun₁ := hran.running hrun
  have hinv₁ := (hran.quiet hrun).inv hinv
  have hbooks : (ranWorld env.tick t w).host.books = w.host.books := rfl
  unfold turnIteration AtSend ecallOf
  dsimp only
  cases hr : (vmStep ⟨w.cpus t.cpu, w.mem⟩ t.budget).1 with
  | quantumExpired =>
    refine .same (fun _ h => nomatch h.1) (fun _ h => nomatch h.1) ?_
    dsimp only
    rw [turnExpired_host]
    exact hbooks
  | halted => exact .same (fun _ h => nomatch h.1) (fun _ h => nomatch h.1) hbooks
  | trapped =>
    exact .same (fun _ h => nomatch h.1) (fun _ h => nomatch h.1)
      ((handleTrap_view VmSystem.books (fun p w a ha => (hc.trap p w a ha).apply) t _).trans hbooks)
  | ecall =>
    dsimp only
    obtain ⟨handler, ⟨hsend, hrecv, hother⟩, hserve⟩ :=
      serveEcall_system hc.router systemTable_counts
        (fun n hn => ⟨fun e => absurd e (hn sysSend (by decide)),
          fun e => absurd e (hn sysRecv (by decide)), fun _ _ _ _ => rfl⟩)
        t.cpu (ranWorld env.tick t w)
    rw [(turnDispatched_frame ..).host, ← hbooks, hserve]
    generalize ranWorld env.tick t w = w₁ at *
    simp only [Option.some.injEq]
    by_cases hs : (w₁.cpus t.cpu).regs regA7 = sysSend
    · rw [hsend hs]
      exact (handleSend_books hinv₁).congr (fun _ => and_iff_right hs) fun _ => and_iff_right hs
    · have hnone : ∀ P : Ptr → World VmSystem → Slot → Prop, ∀ i,
          (w₁.cpus t.cpu).regs regA7 = sysSend ∧ P t.cpu w₁ i ↔ False := fun _ _ =>
        iff_of_false (fun h => hs h.1) id
      by_cases hr : (w₁.cpus t.cpu).regs regA7 = sysRecv
      · rw [hrecv hr]
        exact (handleRecv_books hinv₁ hrun₁).congr (hnone HandsOver) (hnone Queues)
      · exact .same (fun _ h => hs h.1) (fun _ h => hs h.1) (hother hs hr t.cpu w₁)

/-- The events of a run in which only the machine's own code counts messages. -/
def CountEvents (e : Event VmSystem) : Prop :=
  MailEvents e ∧
    match e with
    | .iterate env => CountEnv env
    | .idle acts _ => ∀ a ∈ acts, KeepsBooks a
    | _ => True

theorem step_books {s s' : Sys VmSystem} {e : Event VmSystem} (h : MailState s)
    (hok : CountEvents e) (hstep : step s e = some s') :
    BookStep (AtSend HandsOver s e) (AtSend Queues s e) s.world.host.books
      s'.world.host.books := by
  obtain ⟨w, turn⟩ := s
  obtain ⟨hmail, hcount⟩ := hok
  cases turn with
  | none =>
    have hsame := step_between VmSystem.books h.inv hmail (fun acts tick he a ha => by
      subst he
      exact (hcount a ha).apply) hstep
    cases e <;> exact .same (fun _ => id) (fun _ => id) hsame
  | some t =>
    cases e with
    | call c => exact hmail.elim
    | enter tick => cases hstep
    | idle acts tick => cases hstep
    | iterate env =>
      have hit := turnIteration_books hcount h.inv h.running
      unfold step at hstep
      dsimp only at hstep
      generalize turnIteration env t w = r at hstep hit
      obtain ⟨w₁, next⟩ := r
      cases next <;> cases hstep <;> exact hit

end Microgarbage.Mailbox
