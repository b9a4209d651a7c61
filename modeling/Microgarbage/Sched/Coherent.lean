import Microgarbage.Sched.Sound

/-!
# Coherence of every run

What a handler, a turn and a host call may do to a sound world, and from it the scheduler's
invariant over whole runs.
-/

namespace Microgarbage.Sched

open Lib Vm

variable {σ : Type}

/-! ## What handlers may do -/

/-- A CPU fit for registration in slot `id`: not halted, in no slot, and neither the CPU nor the
slot of the running turn. -/
structure Fresh (me : Self) (w : World σ) (p : Ptr) (id : Slot) : Prop where
  halted : (w.cpus p).halted = false
  free : ∀ j, w.sched.vms j ≠ some p
  me_ne : ∀ i q, me = some (i, q) → q ≠ p ∧ i ≠ id

/-- Only fresh CPUs are registered. -/
def Call.Ok (me : Self) (w : World σ) : Call → Prop
  | .register (some p) => ∀ id, lowestFree w.sched = some id → Fresh me w p id
  | .registerAt (some p) vmId => ∀ h : vmId < 64,
    w.sched.vms ⟨vmId, h⟩ = none → Fresh me w p ⟨vmId, h⟩
  | _ => True

/-- The flags of registered CPUs change through the scheduler only, except that a handler may
write its own CPU; it does not bring that one back from the halt. -/
def Act.Ok (me : Self) (w : World σ) : Act σ → Prop
  | .cpu p f =>
    (∀ i, me = some (i, p) → (w.cpus p).halted = true → (f (w.cpus p)).halted = true) ∧
    (∀ i, w.sched.vms i = some p → (∀ j, me ≠ some (j, p)) →
      (f (w.cpus p)).halted = (w.cpus p).halted ∧
      (f (w.cpus p)).blockReason = (w.cpus p).blockReason)
  | .call c => c.Ok me w
  | _ => True

/-- Every action of a handler is allowed where it happens. -/
def PerformOk (me : Self) : World σ → List (Act σ) → Prop :=
  Meets (fun w a => some (Act.apply w a)) (Act.Ok me)

/-- A handler that writes only its own CPU, and never un-halts it, is allowed. -/
theorem cpuHandler_ok {f : Word → VmCpu → VmCpu}
    (hf : ∀ now c, c.halted = true → (f now c).halted = true) (i : Slot) (p : Ptr) (w : World σ) :
    PerformOk (some (i, p)) w (cpuHandler f p w) :=
  ⟨⟨fun _ _ => hf _ _, fun _ _ hne => absurd rfl (hne i)⟩, fun _ _ => trivial⟩

namespace Sound

variable {me : Self} {w : World σ}

theorem call (h : Sound me w) {c : Call} (hok : c.Ok me w) : Sound me (c.apply w) := by
  cases c with
  | register cpu =>
    cases cpu with
    | none => exact h
    | some p =>
      unfold Call.apply vmSchedRegister
      dsimp only
      cases hl : lowestFree w.sched with
      | none => exact h
      | some id =>
        obtain ⟨hh, hp, hme⟩ := hok id hl
        have hid : w.sched.vms id = none := by simpa using List.find?_some hl
        exact h.register hid hh hp hme
  | registerAt cpu vmId =>
    show Sound me (vmSchedRegisterAt w cpu vmId).2
    unfold vmSchedRegisterAt
    split
    case isFalse => exact h
    case isTrue hlt =>
      cases cpu with
      | none => exact h
      | some p =>
        dsimp only
        cases hid : w.sched.vms ⟨vmId, hlt⟩ with
        | some q => exact h
        | none =>
          obtain ⟨hh, hp, hme⟩ := hok hlt hid
          exact h.register hid hh hp hme
  | unregister vmId => exact h.unregister vmId
  | wakeMailbox vmId a0 =>
    exact h.wakeBlockedOn .mailboxRecv (f := wakeCpu a0) (fun _ => rfl) vmId
  | wakeChild vmId a0 =>
    exact h.wakeBlockedOn .onChild (f := fun cpu => { wakeCpu a0 cpu with blockChildVm := 0xFFFF })
      (fun _ => rfl) vmId
  | wakeFrameConsumed now => exact h.wakeFrameConsumed now
  | halt vmId => exact h.halt vmId

theorem act (h : Sound me w) {a : Act σ} (hok : a.Ok me w) : Sound me (a.apply w) := by
  cases a with
  | cpu p f => exact h.onCpu hok.1 hok.2
  | mem f | host f => exact h.congr ⟨rfl, rfl, rfl, rfl, fun _ => rfl, fun _ => rfl⟩
  | call c => exact h.call hok

theorem perform (h : Sound me w) {acts : List (Act σ)} (hok : PerformOk me w acts) :
    Sound me (perform w acts) := by
  have hstep : ∀ (w : World σ) (a : Act σ) (w' : World σ), Sound me w → a.Ok me w →
      some (a.apply w) = some w' → Sound me w' := fun _ _ _ hw ha he =>
    Option.some.inj he ▸ hw.act ha
  exact run_invariant hstep h hok (run_total ..)

/-! ## Entering and leaving a turn -/

theorem coherent (h : Sound none w) : Coherent w where
  disjoint i := by
    rintro ⟨hr, hb⟩
    cases hv : w.sched.vms i with
    | none =>
      rw [(h.empty i hv).1] at hr
      cases hr
    | some p =>
      rw [((h.slot i p hv).other nofun).1, hb] at hr
      simp at hr
  union i := by
    cases hv : w.sched.vms i with
    | none => simp [h.empty i hv]
    | some p =>
      obtain ⟨hr, hb⟩ := (h.slot i p hv).other nofun
      rw [hr]
      cases hbi : bmTest w.sched.blocked i with
      | true => simpa using (hb hbi).1
      | false => simp
  count := h.count
  empty := h.empty
  reason i p hv hb := (((h.slot i p hv).other nofun).2 hb).2

theorem enter (h : Sound none w) {i : Slot} {p : Ptr} (hp : w.sched.vms i = some p)
    (hr : bmTest w.sched.ready i = true) :
    Sound (some (i, p)) w ∧ (w.cpus p).halted = false := by
  obtain ⟨hready, hblocked⟩ := (h.slot i p hp).other nofun
  rw [hr] at hready
  have hb : bmTest w.sched.blocked i = false := by grind
  have hh : (w.cpus p).halted = false := by grind
  refine ⟨⟨fun j q hq => ⟨fun e => ?_, fun _ => (h.slot j q hq).other nofun⟩,
    h.empty, h.count, h.inj, fun j q e => ?_, fun j k q e hk => ?_⟩, hh⟩
  · cases e
    exact ⟨hb, fun _ => hr⟩
  · cases e
    exact .inr hp
  · cases e
    exact h.inj k i p hk hp

theorem leave {i : Slot} {p : Ptr} (h : Sound (some (i, p)) w)
    (hs : w.sched.vms i = some p → (w.cpus p).halted = true → bmTest w.sched.ready i = false) :
    Sound none w := by
  refine ⟨fun j q hq => ⟨nofun, fun _ => ?_⟩, h.empty, h.count, h.inj, nofun, nofun⟩
  by_cases he : some (i, p) = some (j, q)
  · cases he
    obtain ⟨hb, hr⟩ := (h.slot i p hq).own rfl
    rw [hb]
    refine ⟨?_, nofun⟩
    cases hh : (w.cpus p).halted with
    | true => simpa using hs hq hh
    | false => simpa using hr hh
  · exact (h.slot j q hq).other he

theorem retire {i : Slot} {p : Ptr} (h : Sound (some (i, p)) w) (hh : (w.cpus p).halted = true)
    {f : VmSched → VmSched} (hvms : (f w.sched).vms = w.sched.vms)
    (hcount : (f w.sched).registeredCount = w.sched.registeredCount)
    (hready : (f w.sched).ready = bmClear w.sched.ready i)
    (hblocked : (f w.sched).blocked = w.sched.blocked ∨
      (f w.sched).blocked = bmClear w.sched.blocked i) : Sound none (w.onSched f) := by
  have hbi : bmTest w.sched.blocked i = false := by
    rcases h.home i p rfl with hn | hs
    · exact (h.empty i hn).2
    · exact ((h.slot i p hs).own rfl).1
  have hb : ∀ j, bmTest (f w.sched).blocked j = bmTest w.sched.blocked j := by
    intro j
    rcases hblocked with he | he
    · rw [he]
    · rw [he, bmTest_clear]
      by_cases hj : j = i
      · simp [hj, hbi]
      · simp [hj]
  have hr : ∀ j, j ≠ i → bmTest (f w.sched).ready j = bmTest w.sched.ready j := by
    intro j hj
    simp [hready, hj]
  have hri : bmTest (f w.sched).ready i = false := by simp [hready]
  have hme : Sound (some (i, p)) (w.onSched f) := by
    rcases h.home i p rfl with hn | hs
    · refine ⟨fun j q hq => ?_, fun j hj => ?_, ?_, ?_, ?_, ?_⟩
      · replace hq : w.sched.vms j = some q := hvms ▸ hq
        have hj : j ≠ i := fun e => by rw [e, hn] at hq; cases hq
        obtain ⟨hown, hother⟩ := h.slot j q hq
        rw [← hr j hj, ← hb j] at hown hother
        exact ⟨hown, hother⟩
      · replace hj : w.sched.vms j = none := hvms ▸ hj
        rw [onSched_sched, hb]
        by_cases he : j = i
        · rw [he]
          exact ⟨hri, hbi⟩
        · rw [hr j he]
          exact h.empty j hj
      · rw [onSched_sched, hcount, hvms]
        exact h.count
      · rw [onSched_sched, hvms]
        exact h.inj
      · rw [onSched_sched, hvms]
        exact h.home
      · rw [onSched_sched, hvms]
        exact h.alone
    · refine h.confined hs hvms hcount (fun j hj => ⟨hr j hj, hb j⟩) (fun _ _ => rfl) ?_
      refine ⟨fun _ => ⟨(hb i).trans hbi, fun hf => ?_⟩, fun e => absurd rfl e⟩
      rw [onSched_cpus, hh] at hf
      cases hf
  exact hme.leave fun _ _ => hri

end Sound

/-! ## A turn -/

def Turn.self (t : Turn) : Self := some (t.vmId, t.cpu)

/-- What an iteration of the loop finds: a sound world, in which the turn's own slot, if the VM is
still in it, is not halted. -/
structure InTurn (t : Turn) (w : World σ) : Prop where
  sound : Sound t.self w
  live : w.sched.vms t.vmId = some t.cpu → (w.cpus t.cpu).halted = false

theorem InTurn.leave {t : Turn} {w : World σ} (h : InTurn t w) : Sound none w :=
  h.sound.leave fun hv hh => by rw [h.live hv] at hh; cases hh

theorem ranWorld_sameSets (tick : Option Word) (t : Turn) (w : World σ) :
    SameSets w (ranWorld tick t w) := by
  obtain ⟨hsame, -⟩ := vmStep_spec (m := ⟨w.cpus t.cpu, w.mem⟩) (b := t.budget) rfl
  refine ⟨rfl, rfl, rfl, rfl, fun p => ?_, fun p => ?_⟩
  · show (Function.update w.cpus t.cpu _ p).halted = _
    by_cases hp : p = t.cpu
    · rw [hp, Function.update_self]
      exact hsame.halted
    · rw [Function.update_of_ne hp]
  · show (Function.update w.cpus t.cpu _ p).blockReason = _
    by_cases hp : p = t.cpu
    · rw [hp, Function.update_self]
      exact hsame.blockReason
    · rw [Function.update_of_ne hp]

namespace InTurn

variable {t : Turn} {w : World σ}

theorem congr {w' : World σ} (h : InTurn t w) (hs : SameSets w w') : InTurn t w' :=
  ⟨h.sound.congr hs, fun hv => (hs.halted t.cpu).trans (h.live (hs.vms ▸ hv))⟩

end InTurn

/-- The outcome of an iteration: a finished turn leaves a sound world behind, an unfinished one a
world for its next iteration. -/
def TurnResult (me : Self) : World σ × Option Turn → Prop
  | (w, none) => Sound none w
  | (w, some t) => t.self = me ∧ InTurn t w

theorem turnExpired_result {t : Turn} {w : World σ} (h : InTurn t w) (used : Nat) :
    TurnResult t.self (turnExpired t used w) := by
  unfold turnExpired
  split
  case isFalse => exact h.leave.congr (.of_sched rfl rfl rfl rfl)
  case isTrue =>
    dsimp only
    split
    case isFalse =>
      have hsame : SameSets w (w.onSched fun s =>
          (s.setConsumed t.vmId (s.criticalSectionConsumed t.vmId + BitVec.ofNat 32 used)).setDebt
            t.vmId (s.debt t.vmId + BitVec.ofNat 32 used)) := .of_sched rfl rfl rfl rfl
      exact ⟨rfl, h.sound.congr hsame, h.live⟩
    case isTrue =>
      have hhalt : Sound t.self (w.onCpu t.cpu ({ · with halted := true, trapCause := .halt })) :=
        h.sound.onCpu (fun _ _ _ => rfl) fun _ _ hne => absurd rfl (hne t.vmId)
      exact hhalt.retire (by simp) rfl rfl rfl (.inl rfl)

theorem turnDispatched_result {t : Turn} {w : World σ} (h : Sound t.self w) (used : Nat) :
    TurnResult t.self (turnDispatched t used w) := by
  unfold turnDispatched
  split
  case isTrue hh => exact h.retire hh rfl rfl rfl (.inr rfl)
  case isFalse hh =>
    replace hh : (w.cpus t.cpu).halted = false := by simpa using hh
    have hin : InTurn t w := ⟨h, fun _ => hh⟩
    split
    case isTrue hreason =>
      unfold applyBlockTransition
      rcases h.home t.vmId t.cpu rfl with hn | hs
      · rw [hn]
        exact hin.leave
      · rw [hs]
        dsimp only
        rw [if_neg hreason]
        refine hin.leave.confined hs rfl rfl (fun j hj => ?_) (fun _ _ => rfl) ⟨nofun, fun _ => ?_⟩
        · simp [VmSched.park, hj]
        · simpa [VmSched.park, hh] using hreason
    case isFalse =>
      split
      · exact hin.leave.congr (.of_sched rfl rfl rfl rfl)
      · exact ⟨rfl, h, fun _ => hh⟩

/-- No trap handler that answers `RESUME` leaves its VM halted and still ready. -/
def TrapOk (env : Env σ) (t : Turn) (w : World σ) : Prop :=
  PerformOk t.self w (env.trapHandler t.cpu w).1 ∧
  ((env.trapHandler t.cpu w).2 = .resume →
    bmTest (perform w (env.trapHandler t.cpu w).1).sched.ready t.vmId = true →
    ((perform w (env.trapHandler t.cpu w).1).cpus t.cpu).halted = false)

theorem Sound.terminate {t : Turn} {w : World σ} (h : Sound t.self w) :
    Sound none (terminate w t.cpu t.vmId) := by
  have hhalt : Sound t.self (w.onCpu t.cpu ({ · with halted := true })) :=
    h.onCpu (fun _ _ _ => rfl) fun _ _ hne => absurd rfl (hne t.vmId)
  exact hhalt.retire (by simp) rfl rfl rfl (.inr rfl)

theorem handleTrap_sound {env : Env σ} {t : Turn} {w : World σ} (h : InTurn t w)
    (hok : TrapOk env t w) : Sound none (handleTrap env w t.vmId) := by
  unfold handleTrap
  rcases h.sound.home t.vmId t.cpu rfl with hn | hs
  · rw [hn]
    exact h.leave
  · rw [hs]
    have hp := h.sound.perform hok.1
    have hres := hok.2
    dsimp only
    cases ha : (env.trapHandler t.cpu w).2 with
    | terminate => exact hp.terminate
    | logAndTerminate =>
      exact (hp.congr (SameSets.of_sched (f := fun s => { s with trappedVms := s.trappedVms + 1 })
        rfl rfl rfl rfl)).terminate
    | resume =>
      have hleave := hp.leave fun _ hh => by
        by_contra hr
        rw [hres ha (by simpa using hr)] at hh
        cases hh
      exact hleave.onCpu nofun fun _ _ _ => ⟨rfl, rfl⟩

/-- What the environment of one iteration does is allowed, on the branch the VM takes. -/
def Env.Ok (env : Env σ) (t : Turn) (w : World σ) : Prop :=
  match (vmStep ⟨w.cpus t.cpu, w.mem⟩ t.budget).1 with
  | .ecall =>
    PerformOk t.self (ranWorld env.tick t w) (serveEcall env t.cpu (ranWorld env.tick t w))
  | .trapped => TrapOk env t (ranWorld env.tick t w)
  | _ => True

/-- Without a router and with the default trap handler. -/
def Env.default (tick : Option Word) : Env σ := ⟨tick, none, fun _ _ => ([], .terminate)⟩

theorem Env.default_ok (tick : Option Word) (t : Turn) (w : World σ) :
    (Env.default tick).Ok t w := by
  unfold Env.Ok
  split
  · exact cpuHandler_ok (f := fun _ => ret (errno vmEnosys)) (fun _ _ h => h) t.vmId t.cpu _
  · exact ⟨trivial, nofun⟩
  · trivial

theorem turnIteration_result {env : Env σ} {t : Turn} {w : World σ} (h : InTurn t w)
    (hok : env.Ok t w) : TurnResult t.self (turnIteration env t w) := by
  have hran := h.congr (ranWorld_sameSets env.tick t w)
  obtain ⟨-, hhalted, -⟩ := vmStep_spec (m := ⟨w.cpus t.cpu, w.mem⟩) (b := t.budget) rfl
  unfold Env.Ok at hok
  unfold turnIteration
  dsimp only
  cases hr : (vmStep ⟨w.cpus t.cpu, w.mem⟩ t.budget).1 with
  | quantumExpired => exact turnExpired_result hran _
  | ecall =>
    rw [hr] at hok
    exact turnDispatched_result (hran.sound.perform hok) _
  | halted =>
    have hh : ((ranWorld env.tick t w).cpus t.cpu).halted = true := by
      rw [(ranWorld_sameSets env.tick t w).halted]
      exact hhalted.mp hr
    exact hran.sound.retire hh rfl rfl rfl (.inr rfl)
  | trapped =>
    rw [hr] at hok
    exact handleTrap_sound hran hok

/-! ## Selection -/

theorem selectVm_result (tick : Option Word) {w : World σ} (h : Sound none w) :
    match selectVm tick w with
    | (w, .inl _) => Sound none w
    | (w, .inr t) => InTurn t w := by
  have hs : Sound none (sampleTick tick w) := by
    cases tick with
    | none => exact h
    | some now => exact h.congr ⟨rfl, rfl, rfl, rfl, fun _ => rfl, fun _ => rfl⟩
  have hw := hs.wakeExpired
  unfold selectVm
  generalize wakeExpiredTimeouts (sampleTick tick w) = r at hw
  obtain ⟨delta, w₁⟩ := r
  dsimp only at hw ⊢
  by_cases hr : w₁.sched.ready = 0#64
  · rw [if_pos hr]
    exact hw
  · rw [if_neg hr]
    cases hf : findNextReady w₁.sched.ready w₁.sched.cursor with
    | none => exact hw
    | some vmId =>
      have hready := findNextReady_ready hf
      dsimp only
      cases hv : w₁.sched.vms vmId with
      | none =>
        rw [(hw.empty vmId hv).1] at hready
        cases hready
      | some p =>
        obtain ⟨hsound, hlive⟩ := hw.enter hv hready
        exact ⟨hsound, fun _ => hlive⟩

/-! ## Runs -/

/-- The invariant of the machine. -/
def SysSound (s : Sys σ) : Prop :=
  match s.turn with
  | none => Sound none s.world
  | some t => InTurn t s.world

theorem SysSound.coherent {s : Sys σ} (h : SysSound s) : Coherent s.world := by
  obtain ⟨w, turn⟩ := s
  cases turn with
  | none => exact Sound.coherent h
  | some t => exact (InTurn.leave h).coherent

/-- The condition on one step: registrations are of fresh CPUs, and handlers keep to `Env.Ok`. -/
def Event.Ok (s : Sys σ) : Event σ → Prop
  | .call c => c.Ok none s.world
  | .enter _ => True
  | .iterate env => ∀ t, s.turn = some t → env.Ok t s.world
  | .idle acts _ => PerformOk none (wakeExpiredTimeouts s.world).2 acts

theorem step_sound (s : Sys σ) (e : Event σ) (s' : Sys σ) (h : SysSound s) (hok : Event.Ok s e)
    (hstep : step s e = some s') : SysSound s' := by
  obtain ⟨w, turn⟩ := s
  cases turn with
  | none =>
    cases e with
    | call c =>
      cases hstep
      exact Sound.call h hok
    | enter tick =>
      have hsel := selectVm_result tick h
      unfold step at hstep
      dsimp only at hstep
      generalize selectVm tick w = r at hsel hstep
      obtain ⟨w₁, res | t⟩ := r
      · cases hstep
        exact hsel
      · cases hstep
        exact hsel
    | iterate env => cases hstep
    | idle acts tick =>
      unfold step at hstep
      dsimp only at hstep
      split at hstep
      case isFalse => cases hstep
      case isTrue =>
        cases hstep
        have hp := (Sound.wakeExpired h).perform hok
        cases tick with
        | none | some now => exact hp.congr ⟨rfl, rfl, rfl, rfl, fun _ => rfl, fun _ => rfl⟩
  | some t =>
    cases e with
    | iterate env =>
      have hres := turnIteration_result (show InTurn t w from h) (hok t rfl)
      unfold step at hstep
      dsimp only at hstep
      generalize turnIteration env t w = r at hres hstep
      obtain ⟨w₁, next⟩ := r
      cases next with
      | none =>
        cases hstep
        exact Sound.congr hres ⟨rfl, rfl, rfl, rfl, fun _ => rfl, fun _ => rfl⟩
      | some t₁ =>
        cases hstep
        exact hres.2
    | call c => cases hstep
    | enter tick => cases hstep
    | idle acts tick => cases hstep

theorem init_sound (cfg : VmSchedConfig) (cpus : Ptr → VmCpu) (mem : Mem) (host : σ) :
    SysSound (Sys.init cfg cpus mem host) :=
  ⟨nofun, fun i _ => ⟨bmTest_zero i, bmTest_zero i⟩, by simp [Sys.init, vmSchedInit], nofun, nofun,
    nofun⟩

/-- In every run whose steps meet the condition, the two sets are coherent in every state, inside
turns as well. -/
theorem run_coherent {cfg : VmSchedConfig} {cpus : Ptr → VmCpu} {mem : Mem} {host : σ}
    {es : List (Event σ)} {s : Sys σ} (hok : Meets step Event.Ok (Sys.init cfg cpus mem host) es)
    (hrun : run step (Sys.init cfg cpus mem host) es = some s) : Coherent s.world :=
  (run_invariant step_sound (init_sound cfg cpus mem host) hok hrun).coherent

/-- A VM with no memory, registered and terminated by its first fetch fault. -/
theorem run_coherent_fault :
    ∃ s : Sys Unit, run step (Sys.init ⟨0, 0⟩ (fun _ => vmInit 0) (fun _ => 0) ())
      [.call (.register (some 0)), .enter none, .iterate (.default none)] = some s ∧
      Coherent s.world := by
  have hok : Meets step Event.Ok (Sys.init ⟨0, 0⟩ (fun _ => vmInit 0) (fun _ => 0) ())
      [.call (.register (some 0)), .enter none, .iterate (.default none)] :=
    ⟨fun _ _ => ⟨rfl, nofun, nofun⟩, fun _ _ => ⟨trivial, fun _ _ =>
      ⟨fun t _ => Env.default_ok none t _, fun _ _ => trivial⟩⟩⟩
  exact ⟨_, rfl, run_coherent hok rfl⟩

/-- A trap handler that halts its VM and answers `RESUME`. -/
def haltAndResume : Env Unit :=
  ⟨none, none, fun p _ => ([.cpu p ({ · with halted := true })], .resume)⟩

/-- The halted VM keeps its ready bit. -/
theorem run_not_coherent :
    ¬∀ (cfg : VmSchedConfig) (cpus : Ptr → VmCpu) (mem : Mem) (es : List (Event Unit))
      (s : Sys Unit), run step (Sys.init cfg cpus mem ()) es = some s → Coherent s.world := by
  intro h
  obtain ⟨s, hrun, hready, hhalted⟩ : ∃ s : Sys Unit,
      run step (Sys.init ⟨0, 0⟩ (fun _ => vmInit 0) (fun _ => 0) ())
        [.call (.register (some 0)), .enter none, .iterate haltAndResume] = some s ∧
      bmTest s.world.sched.ready 0 = true ∧
      ∀ p, s.world.sched.vms 0 = some p → (s.world.cpus p).halted = true :=
    ⟨_, rfl, rfl, fun p hp => by cases hp; rfl⟩
  obtain ⟨p, hp, hh⟩ := ((h _ _ _ _ s hrun).union 0).mp (.inl hready)
  rw [hhalted p hp] at hh
  cases hh

end Microgarbage.Sched
