import Microgarbage.Mailbox.Delivery

/-!
# Systems of loaded VMs

The system as the host sets it up, any number of VMs loaded one after the other with a mailbox
each, and the delivery theorem for every run that starts there.
-/

namespace Microgarbage.Mailbox

open Lib Vm Containers Sched
open Function (update update_apply update_of_ne update_self)

/-! ## Loading -/

/-- What `vm_load` makes of an ELF file: the regions with their contents, the entry point and the
stack pointer. -/
structure VmImage where
  regions : RegionId → VmRegion
  l2Shared : VmRegion
  entry : Word
  sp : Word
  fill : Mem → Mem

def VmImage.load (image : VmImage) (cpu : VmCpu) : VmCpu :=
  { cpu with regions := image.regions, l2Shared := image.l2Shared, pc := image.entry }.setReg regSp
    image.sp

/-- The world of `vm_system_init`: no VM, zeroed mailboxes. -/
def vmSystemInit (cfg : VmSchedConfig) (cpus : Ptr → VmCpu) (mem : Mem)
    (mailboxes : Slot → VmMailbox) : World VmSystem :=
  ⟨cpus, mem, vmSchedInit cfg, ⟨fun _ => none, mailboxes⟩⟩

/-- `vm_system_load_vm_with_mailbox` for a CPU block `p` from the slab; `none` where it fails. -/
def loadVm (w : World VmSystem) (p : Ptr) (image : VmImage) (storage : Mem)
    (slotSize depth : BitVec 16) : Option (World VmSystem) :=
  match lowestFree w.sched, vmMailboxInit storage slotSize depth with
  | some id, some mbox =>
    let w := register (w.onCpu p fun _ => vmInit 0) id p
    some { w.onCpu p image.load with
      mem := image.fill w.mem
      host := ⟨update w.host.vms id (some p), update w.host.mailboxes id mbox⟩ }
  | _, _ => none

/-- The worlds the host can set up: VMs loaded in blocks of their own, senders whitelisted. -/
inductive Booted : World VmSystem → Prop
  | init (cfg : VmSchedConfig) (cpus : Ptr → VmCpu) (mem : Mem) (mailboxes : Slot → VmMailbox) :
    Booted (vmSystemInit cfg cpus mem mailboxes)
  | load {w w' : World VmSystem} {p : Ptr} {image : VmImage} {storage : Mem}
    {slotSize depth : BitVec 16} (h : Booted w) (hp : ∀ j, w.sched.vms j ≠ some p)
    (hl : loadVm w p image storage slotSize depth = some w') : Booted w'
  | whitelist {w : World VmSystem} (h : Booted w) (i : Slot) (sender : BitVec 16) :
    Booted { w with
      host := w.host.setMailbox i (vmMailboxWhitelistSet (w.host.mailboxes i) sender).2 }

/-- A booted world: sound, nobody waiting, every mailbox empty. -/
structure Settled (w : World VmSystem) : Prop where
  sound : Sound none w
  inv : MailInv w
  empty : ∀ i p, w.sched.vms i = some p → (w.host.mailboxes i).queue = []
  idle : ∀ i p, w.sched.vms i = some p → (w.cpus p).blockReason = .none

theorem whitelistSet_fifo (m : VmMailbox) (sender : BitVec 16) :
    (vmMailboxWhitelistSet m sender).2.fifo = m.fifo ∧
      (vmMailboxWhitelistSet m sender).2.slotSize = m.slotSize := by
  unfold vmMailboxWhitelistSet
  split <;> exact ⟨rfl, rfl⟩

theorem whitelistClear_fifo (m : VmMailbox) (sender : BitVec 16) :
    (vmMailboxWhitelistClear m sender).2.fifo = m.fifo ∧
      (vmMailboxWhitelistClear m sender).2.slotSize = m.slotSize := by
  unfold vmMailboxWhitelistClear
  split <;> exact ⟨rfl, rfl⟩

theorem setMailbox_box (sys : VmSystem) {id : Slot} {m : VmMailbox}
    (h : m.fifo = (sys.mailboxes id).fifo ∧ m.slotSize = (sys.mailboxes id).slotSize) (i : Slot) :
    ((sys.setMailbox id m).mailboxes i).fifo = (sys.mailboxes i).fifo ∧
      ((sys.setMailbox id m).mailboxes i).slotSize = (sys.mailboxes i).slotSize := by
  unfold VmSystem.setMailbox
  dsimp only
  by_cases hi : i = id
  · rw [hi, update_self]
    exact h
  · rw [update_of_ne hi]
    exact ⟨rfl, rfl⟩

/-- What a load makes of the VM in slot `i`: it is the new one, idle with an empty mailbox, or it is
as it was. -/
def LoadedAt (w w' : World VmSystem) (i : Slot) (q : Ptr) : Prop :=
  (w'.cpus q).blockReason = .none ∧ (w'.host.mailboxes i).queue = [] ∨
  w.sched.vms i = some q ∧ w'.cpus q = w.cpus q ∧ w'.host.mailboxes i = w.host.mailboxes i

theorem loadVm_mail {w w' : World VmSystem} {p : Ptr} {image : VmImage} {storage : Mem}
    {slotSize depth : BitVec 16} (hs : Sound none w) (hinv : MailInv w)
    (hp : ∀ j, w.sched.vms j ≠ some p) (hl : loadVm w p image storage slotSize depth = some w') :
    Sound none w' ∧ MailInv w' ∧ ∀ i q, w'.sched.vms i = some q → LoadedAt w w' i q := by
  unfold loadVm at hl
  split at hl
  case h_2 => cases hl
  case h_1 id mbox hid hbox =>
    cases hl
    have hnone : w.sched.vms id = none := by simpa using List.find?_some hid
    obtain ⟨hvalid, hempty⟩ := vmMailboxInit_valid hbox
    have hw₁ : Sound none (w.onCpu p fun _ => vmInit 0) := hs.onCpu_free hp _
    have hreg := hw₁.register hnone (by rw [onCpu_self]; rfl) hp nofun
    generalize hr : register (w.onCpu p fun _ => vmInit 0) id p = r at hreg
    have hvms : ∀ j, r.sched.vms j = if j = id then some p else w.sched.vms j := fun j => by
      rw [← hr]
      exact update_apply ..
    have hself : r.cpus p = { vmInit 0 with vmId := BitVec.ofNat 16 id } := by
      rw [← hr]
      refine (update_self ..).trans ?_
      rw [onSched_cpus, onCpu_self]
    have hcpu : ∀ q, q ≠ p → r.cpus q = w.cpus q := fun q hq => by
      rw [← hr]
      refine (update_of_ne hq ..).trans ?_
      rw [onSched_cpus, onCpu_ne _ _ hq]
    have hblocked : r.sched.blocked = w.sched.blocked := by rw [← hr]; rfl
    have hload : (r.onCpu p image.load).cpus p = image.load (r.cpus p) := onCpu_self ..
    have hhost : r.host = w.host := by rw [← hr]; rfl
    have hbox : ∀ i, i ≠ id →
        update r.host.mailboxes id mbox i = w.host.mailboxes i := fun i hi => by
      rw [update_of_ne hi, hhost]
    have hboxid : update r.host.mailboxes id mbox id = mbox := update_self ..
    -- the slots of the new world: the loaded one, and those of before
    have hslots : ∀ i q, r.sched.vms i = some q →
        (i = id ∧ q = p) ∨ (i ≠ id ∧ q ≠ p ∧ w.sched.vms i = some q) := by
      intro i q hq
      rw [hvms] at hq
      by_cases hi : i = id
      · rw [if_pos hi, Option.some.injEq] at hq
        exact .inl ⟨hi, hq.symm⟩
      · rw [if_neg hi] at hq
        exact .inr ⟨hi, fun e => hp i (e ▸ hq), hq⟩
    have hsound : Sound none (r.onCpu p image.load) := hreg.onCpu nofun fun _ _ _ => ⟨rfl, rfl⟩
    refine ⟨hsound.congr ⟨rfl, rfl, rfl, rfl, fun _ => rfl, fun _ => rfl⟩, ⟨?_, hsound.inj, ?_, ?_,
      ?_⟩, ?_⟩
    · funext j
      refine Eq.trans ?_ (hvms j).symm
      rw [hhost, hinv.vms]
      exact update_apply ..
    · intro i q hq
      rcases hslots i q hq with ⟨rfl, rfl⟩ | ⟨-, hne, hq⟩
      · refine Eq.trans (congrArg VmCpu.vmId hload) ?_
        rw [hself]
        rfl
      · refine Eq.trans (congrArg VmCpu.vmId ((onCpu_ne _ _ hne).trans (hcpu q hne))) ?_
        exact hinv.vmId i q hq
    · intro i q hq
      dsimp only
      rcases hslots i q hq with ⟨rfl, rfl⟩ | ⟨hi, -, hq⟩
      · rw [hboxid]
        exact hvalid
      · rw [hbox i hi]
        exact hinv.valid i q hq
    · intro i q hq hre
      rcases hslots i q hq with ⟨-, rfl⟩ | ⟨hi, hne, hq⟩
      · have hidle : ((r.onCpu q image.load).cpus q).blockReason = .none := by
          rw [hload, hself]
          rfl
        cases hidle.symm.trans hre
      · have hsame : (r.onCpu p image.load).cpus q = w.cpus q :=
          (onCpu_ne _ _ hne).trans (hcpu q hne)
        have hwait := hinv.waiting i q hq ((congrArg VmCpu.blockReason hsame).symm.trans hre)
        refine ⟨?_, ?_, ?_⟩
        · exact (congrArg (bmTest · i) hblocked).trans hwait.blocked
        · exact (congrArg VmMailbox.queue (hbox i hi)).trans hwait.empty
        · dsimp only
          rw [hsame, hbox i hi]
          exact hwait.writable
    · intro i q hq
      rcases hslots i q hq with ⟨rfl, rfl⟩ | ⟨hi, hne, hq⟩
      · refine .inl ⟨?_, (congrArg VmMailbox.queue hboxid).trans hempty⟩
        refine (congrArg VmCpu.blockReason hload).trans ?_
        rw [hself]
        rfl
      · exact .inr ⟨hq, (onCpu_ne _ _ hne).trans (hcpu q hne), hbox i hi⟩

theorem Settled.load {w w' : World VmSystem} {p : Ptr} {image : VmImage} {storage : Mem}
    {slotSize depth : BitVec 16} (h : Settled w) (hp : ∀ j, w.sched.vms j ≠ some p)
    (hl : loadVm w p image storage slotSize depth = some w') : Settled w' := by
  obtain ⟨hsound, hinv, hslots⟩ := loadVm_mail h.sound h.inv hp hl
  refine ⟨hsound, hinv, fun i q hq => ?_, fun i q hq => ?_⟩
  · rcases hslots i q hq with ⟨-, hempty⟩ | ⟨hold, -, hbox⟩
    · exact hempty
    · rw [hbox]
      exact h.empty i q hold
  · rcases hslots i q hq with ⟨hidle, -⟩ | ⟨hold, hcpu, -⟩
    · exact hidle
    · rw [hcpu]
      exact h.idle i q hold

theorem Booted.settled {w : World VmSystem} (h : Booted w) : Settled w := by
  induction h with
  | init cfg cpus mem mailboxes =>
    exact ⟨init_sound cfg cpus mem _, ⟨rfl, nofun, nofun, nofun, nofun⟩, nofun, nofun⟩
  | load h hp hl ih => exact ih.load hp hl
  | @whitelist w h i sender ih =>
    obtain ⟨hsound, hinv, hempty, hidle⟩ := ih
    have hbox := setMailbox_box w.host (whitelistSet_fifo (w.host.mailboxes i) sender)
    have hq : Quiet w { w with
        host := w.host.setMailbox i (vmMailboxWhitelistSet (w.host.mailboxes i) sender).2 } :=
      ⟨rfl, rfl, hbox, fun _ _ _ => ⟨rfl, fun _ => ⟨rfl, rfl⟩, fun hr hne => absurd hr hne⟩⟩
    exact ⟨hsound.congr ⟨rfl, rfl, rfl, rfl, fun _ => rfl, fun _ => rfl⟩, hq.inv hinv,
      fun j q hj => (VmMailbox.queue_congr (hbox j).1).trans (hempty j q hj), hidle⟩

/-! ## The router of the system -/

theorem handleMailboxInfo_neutral (p : Ptr) (w : World VmSystem) :
    ∀ a ∈ handleMailboxInfo p w, Neutral (some p) a := by
  have hrefuse : ∀ e, ∀ a ∈ refuse p e, Neutral (some p) a := fun e =>
    cpuHandler_neutral (f := fun _ => ret (errno e)) (fun _ _ => ⟨rfl, fun h => h, fun h => h⟩) p w
  unfold handleMailboxInfo
  dsimp only
  split
  · exact hrefuse _
  · split
    · exact hrefuse _
    · intro a ha
      rw [List.mem_singleton.mp ha]
      exact ⟨rfl, fun _ => ⟨rfl, fun h => h, fun h => h⟩⟩

theorem handleWhitelist_neutral {edit : VmMailbox → BitVec 16 → VmMailboxResult × VmMailbox}
    (h : ∀ m sender, (edit m sender).2.fifo = m.fifo ∧ (edit m sender).2.slotSize = m.slotSize)
    (p : Ptr) (w : World VmSystem) : ∀ a ∈ handleWhitelist edit p w, Neutral (some p) a := by
  unfold handleWhitelist
  dsimp only
  split
  · exact cpuHandler_neutral (f := fun _ => ret (errno vmEinval))
      (fun _ _ => ⟨rfl, fun h => h, fun h => h⟩) p w
  · intro a ha
    simp only [List.mem_cons, List.not_mem_nil, or_false] at ha
    rcases ha with rfl | rfl
    · exact fun sys => ⟨rfl, setMailbox_box sys (h _ _)⟩
    · exact ⟨rfl, fun _ => ⟨rfl, fun h => h, fun h => h⟩⟩

variable {P : Word → SysHandler → Prop}

/-- A table whose entries are all right makes a router whose slots are. -/
theorem slotFor_install {table : List (Word × SysHandler)} (htable : ∀ e ∈ table, P e.1 e.2)
    {r r' : VmEcallRouter VmSystem} (hr : ∀ n handler, r.slotFor n = some handler → P n handler)
    (h : installHandlers r table = some r') :
    (∀ n handler, r'.slotFor n = some handler → P n handler) ∧ r'.fallback = r.fallback := by
  induction table generalizing r with
  | nil =>
    cases h
    exact ⟨hr, rfl⟩
  | cons e table ih =>
    unfold installHandlers at h ih
    rw [List.foldlM_cons, Option.bind_eq_bind, Option.bind_eq_some_iff] at h
    obtain ⟨r₁, h₁, hrest⟩ := h
    have hr₁ : ∀ n handler, r₁.slotFor n = some handler → P n handler := by
      intro n handler hn
      rw [VmEcallRouter.slotFor_register h₁] at hn
      split at hn
      · next he =>
        cases hn
        rw [he]
        exact htable e (List.mem_cons_self ..)
      · exact hr n handler hn
    obtain ⟨hall, hfall⟩ := ih (fun f hf => htable f (List.mem_cons_of_mem _ hf)) hr₁ hrest
    exact ⟨hall, hfall.trans (VmEcallRouter.register_fallback h₁)⟩

/-- What the system's table says of a number and its handler. -/
def Serves (n : Word) (handler : SysHandler) : Prop :=
  (n = sysSend → handler = handleSend) ∧ (n = sysRecv → handler = handleRecv) ∧
  (n ≠ sysSend → n ≠ sysRecv → ∀ p w, ∀ a ∈ handler p w, Neutral (some p) a)

theorem serves_neutral {n : Word} {handler : SysHandler} (hs : n ≠ sysSend) (hr : n ≠ sysRecv)
    (h : ∀ p w, ∀ a ∈ handler p w, Neutral (some p) a) : Serves n handler :=
  ⟨fun e => absurd e hs, fun e => absurd e hr, fun _ _ => h⟩

theorem systemTable_serves : ∀ e ∈ cpuHandlers ++ systemHandlers, Serves e.1 e.2 := by
  intro e he
  simp only [cpuHandlers, systemHandlers, List.cons_append, List.nil_append, List.mem_cons,
    List.not_mem_nil, or_false] at he
  rcases he with rfl | rfl | rfl | rfl | rfl | rfl | rfl | rfl | rfl | rfl | rfl | rfl | rfl | rfl |
    rfl
  case inr.inr.inr.inr.inr.inl => exact ⟨fun _ => rfl, nofun, fun h => absurd rfl h⟩
  case inr.inr.inr.inr.inr.inr.inl => exact ⟨nofun, fun _ => rfl, fun _ h => absurd rfl h⟩
  all_goals refine serves_neutral nofun nofun ?_
  case inr.inr.inr.inr.inr.inr.inr.inl => exact handleMailboxInfo_neutral
  case inr.inr.inr.inr.inr.inr.inr.inr.inl => exact handleWhitelist_neutral whitelistSet_fifo
  case inr.inr.inr.inr.inr.inr.inr.inr.inr.inl =>
    exact handleWhitelist_neutral whitelistClear_fifo
  all_goals
    simp only [vmHandleExit, vmHandleSelf, vmHandleYield, vmHandleCriticalEnter,
      vmHandleCriticalExit, handleTicksNow, handleSleepTicks, handleSleepUntil,
      handleSetReloadPeriod, handleYieldUntilReload]
    refine cpuHandler_neutral fun now c => ?_
    grind [ret, yieldCpu, VmCpu.setReg]

/-- What all entries of the system's table meet, every slot of its router meets. -/
theorem systemRouter_slots (htable : ∀ e ∈ cpuHandlers ++ systemHandlers, P e.1 e.2) :
    (∀ n handler, systemRouter.slotFor n = some handler → P n handler) ∧
      systemRouter.fallback = some defaultFallback := by
  have hinstall : (installHandlers .init (cpuHandlers ++ systemHandlers)).isSome = true := rfl
  obtain ⟨r, hr⟩ := Option.isSome_iff_exists.mp hinstall
  have hinit : ∀ n handler, VmEcallRouter.init.slotFor n = some handler → P n handler := by
    intro n handler hn
    unfold VmEcallRouter.slotFor VmEcallRouter.init at hn
    split at hn
    · cases hn
    · split at hn <;> cases hn
  unfold systemRouter
  rw [hr]
  exact slotFor_install htable hinit hr

/-- An ecall is served by a handler of the table, or by the fallback where the table has none. -/
theorem serveEcall_system {env : Env VmSystem} (h : env.ecallRouter = some systemRouter)
    {P : Word → SysHandler → Prop} (htable : ∀ e ∈ cpuHandlers ++ systemHandlers, P e.1 e.2)
    (hother : ∀ n, (∀ m ∈ (cpuHandlers ++ systemHandlers).map Prod.fst, n ≠ m) →
      P n defaultFallback)
    (p : Ptr) (w : World VmSystem) :
    ∃ handler, P ((w.cpus p).regs regA7) handler ∧ serveEcall env p w = handler p w := by
  obtain ⟨hall, hfall⟩ := systemRouter_slots htable
  have hslots : (cpuHandlers ++ systemHandlers).all
      (fun e => (systemRouter.slotFor e.1).isSome) = true := rfl
  unfold serveEcall
  rw [h]
  dsimp only
  unfold vmEcallDispatch
  cases hslot : systemRouter.slotFor ((w.cpus p).regs regA7) with
  | some handler => exact ⟨handler, hall _ handler hslot, rfl⟩
  | none =>
    rw [hfall]
    refine ⟨defaultFallback, hother _ fun m hm hn => ?_, rfl⟩
    obtain ⟨e, he, rfl⟩ := List.mem_map.mp hm
    have hsome := List.all_eq_true.mp hslots e he
    rw [← hn, hslot] at hsome
    cases hsome

theorem systemRouter_mail : MailRouter systemRouter := by
  have hsend : (systemRouter.slotFor sysSend).isSome = true := rfl
  have hrecv : (systemRouter.slotFor sysRecv).isSome = true := rfl
  obtain ⟨hall, hfall⟩ := systemRouter_slots systemTable_serves
  obtain ⟨f, hf⟩ := Option.isSome_iff_exists.mp hsend
  obtain ⟨g, hg⟩ := Option.isSome_iff_exists.mp hrecv
  refine ⟨hf.trans (congrArg some ((hall _ _ hf).1 rfl)),
    hg.trans (congrArg some ((hall _ _ hg).2.1 rfl)),
    fun n handler hs hr h => (hall n handler h).2.2 hs hr, fun handler h => ?_⟩
  rw [hfall, Option.some.injEq] at h
  rw [← h]
  exact cpuHandler_neutral (f := fun _ => ret (errno vmEnosys))
    fun _ _ => ⟨rfl, fun h => h, fun h => h⟩

/-- The cooperative system: its router, and a trap handler that terminates. -/
def systemEnv (tick : Option Word) : Env VmSystem :=
  ⟨tick, some systemRouter, fun _ _ => ([], .terminate)⟩

theorem systemEnv_mail (tick : Option Word) : MailEnv (systemEnv tick) :=
  ⟨⟨_, rfl, systemRouter_mail⟩, fun _ _ => nofun, fun _ _ => nofun⟩

/-! ## Delivery -/

/-- In every run from a booted system, what a VM received, followed by what is queued for it, is
what was sent to it, in order and whole. -/
theorem run_delivery {w : World VmSystem} (hw : Booted w) {es : List (Event VmSystem)}
    (hes : ∀ e ∈ es, MailEvents e) {s : Sys VmSystem} (hrun : run step ⟨w, none⟩ es = some s)
    (i : Slot) (p : Ptr) (hp : w.sched.vms i = some p) :
    sentTo i (trace step observeMail ⟨w, none⟩ es) =
      receivedBy i (trace step observeMail ⟨w, none⟩ es) ++
        (s.world.host.mailboxes i).queue := by
  obtain ⟨hsound, hinv, hempty, -⟩ := hw.settled
  let Q (s : Sys VmSystem) (l : List MailEvent) : Prop :=
    MailState s ∧ s.world.sched.vms = w.sched.vms ∧
      sentTo i l = receivedBy i l ++ (s.world.host.mailboxes i).queue
  have hstep : ∀ s l e s', Q s l → MailEvents e → step s e = some s' →
      Q s' (l ++ observeMail s e) := by
    intro s l e s' hs hok he
    obtain ⟨hstate, hvms, hsent⟩ := hs
    obtain ⟨hstate', hb⟩ := step_balanced hstate hok he
    refine ⟨hstate', hb.vms.trans hvms, ?_⟩
    have hacc := hb.account i p (by rw [hvms]; exact hp)
    rw [sentTo_append, receivedBy_append, hsent, List.append_assoc, List.append_assoc, hacc]
  have hstart : Q ⟨w, none⟩ [] :=
    ⟨⟨hsound, hinv, nofun⟩, rfl, (hempty i p hp).symm⟩
  have hend := trace_invariant (Q := Q) hstep hstart (Meets.of_mem hes _) hrun
  rw [List.nil_append] at hend
  exact hend.2.2

/-- Whitelists itself, sends itself the first byte of its code, and polls its mailbox. -/
def echoProgram : List Byte :=
  [0x93, 0x08, 0x30, 0x43, 0x73, 0, 0, 0, 0x93, 0x08, 0x00, 0x43, 0x13, 0x06, 0x10, 0x00,
    0x73, 0, 0, 0, 0x93, 0x08, 0x10, 0x43, 0x37, 0x05, 0x00, 0x80, 0x73, 0, 0, 0]

def echoImage : VmImage where
  regions r := if r = regionCode then ⟨0, 32, false⟩ else if r = regionData then ⟨64, 16, true⟩
    else .absent
  l2Shared := .absent
  entry := 0
  sp := 0x80000010
  fill mem := mem.copy 0 echoProgram

def echoWorld : Option (World VmSystem) :=
  loadVm (vmSystemInit ⟨0, 0⟩ (fun _ => vmInit 0) (fun _ => 0) fun _ =>
    ⟨0, 0, 0, 0, 0, 0, 0#64, rbInit (fun _ => 0) 0 0⟩) 0 echoImage (fun _ => 0) 1 2

def echoEvents : List (Event VmSystem) :=
  [.enter none, .iterate (systemEnv none), .iterate (systemEnv none), .iterate (systemEnv none)]

/-- The echo program's message comes back, whole. -/
theorem run_delivery_echo : ∃ (w : World VmSystem) (s : Sys VmSystem),
    echoWorld = some w ∧ run step ⟨w, none⟩ echoEvents = some s ∧
      trace step observeMail ⟨w, none⟩ echoEvents =
        [.sent 0 ⟨0, [0x93]⟩, .received 0 ⟨0, [0x93]⟩] ∧
      sentTo 0 (trace step observeMail ⟨w, none⟩ echoEvents) =
        receivedBy 0 (trace step observeMail ⟨w, none⟩ echoEvents) ++
          (s.world.host.mailboxes 0).queue := by
  have htrace : (echoWorld.map fun w => trace step observeMail ⟨w, none⟩ echoEvents) =
      some [.sent 0 ⟨0, [0x93]⟩, .received 0 ⟨0, [0x93]⟩] := by decide +kernel
  have hslot : (echoWorld.bind fun w => w.sched.vms 0) = some 0 := by decide +kernel
  have hruns : (echoWorld.bind fun w => run step ⟨w, none⟩ echoEvents).isSome = true := by
    decide +kernel
  cases hw : echoWorld with
  | none =>
    rw [hw] at hslot
    cases hslot
  | some w =>
    rw [hw] at htrace hslot hruns
    obtain ⟨s, hs⟩ := Option.isSome_iff_exists.mp hruns
    have hbooted : Booted w := .load (.init ..) nofun hw
    have hmail : ∀ e ∈ echoEvents, MailEvents e := by
      intro e he
      simp only [echoEvents, List.mem_cons, List.not_mem_nil, or_false] at he
      rcases he with rfl | rfl | rfl | rfl
      · exact trivial
      all_goals exact systemEnv_mail none
    exact ⟨w, s, rfl, hs, Option.some.inj htrace, run_delivery hbooted hmail hs 0 0 hslot⟩

end Microgarbage.Mailbox
