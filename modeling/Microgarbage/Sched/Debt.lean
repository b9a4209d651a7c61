import Microgarbage.Sched.Overrun

/-!
# The debt ledger

The machine is run beside an account of one VM: what a turn's quantum was shortened by is paid, what
the VM runs beyond it inside a critical section is owed. The scheduler charges a budget when it
expires inside the section and settles the payment when one expires outside, so it is right in the
turns in which what it charges too much and what it misses are the same.
-/

namespace Microgarbage.Sched

open Lib Vm

variable {σ : Type}

/-- The instructions of the turn under way that matter to the account. -/
structure Tally where
  /-- The turn's own quantum is used up. -/
  refilled : Bool
  /-- Instructions of the quantum itself in budgets that expired inside a section. -/
  own : Nat
  /-- Instructions beyond the quantum and inside a section in budgets that did not expire. -/
  missed : Nat
  /-- All instructions beyond the quantum and inside a section. -/
  past : Nat

def Tally.zero : Tally := ⟨false, 0, 0, 0⟩

/-- The next iteration of the turn. -/
def Tally.add (c : Tally) (t : Turn) (w : World σ) : Tally :=
  let used := usedOf t w
  let inside := (w.cpus t.cpu).inCritical
  let expired := decide (resultOf t w = .quantumExpired)
  { refilled := c.refilled || expired
    own := c.own + if !c.refilled && inside && expired then used else 0
    missed := c.missed + if c.refilled && inside && !expired then used else 0
    past := c.past + if c.refilled && inside then used else 0 }

/-- The machine and the account of one of its slots. -/
structure Ledger (σ : Type) where
  sys : Sys σ
  tally : Tally
  /-- What the VM owes after its last finished turn. -/
  owed : Int

namespace Ledger

variable (i : Slot)

def debt (l : Ledger σ) : Nat := (l.sys.world.sched.debt i).toNat

/-- The turn of slot `i` that is under way. -/
def turn (l : Ledger σ) : Option Turn := l.sys.turn.filter (·.vmId = i)

/-- A turn of slot `i` goes on or is settled. -/
def iterated (l : Ledger σ) (t : Turn) (s' : Sys σ) : Ledger σ :=
  let tally := l.tally.add t l.sys.world
  if s'.turn.isSome then ⟨s', tally, l.owed⟩
  else ⟨s', .zero, l.owed - t.debtPaid.toNat + tally.past⟩

def next (l : Ledger σ) (e : Event σ) (s' : Sys σ) : Ledger σ :=
  match l.turn i, e with
  | some t, .iterate _ => l.iterated t s'
  | _, _ => { l with sys := s' }

def tock (l : Ledger σ) (e : Event σ) : Option (Ledger σ) := (step l.sys e).map (l.next i e)

/-- The account opens with the debt of the slot. -/
def opened (s : Sys σ) : Ledger σ := ⟨s, .zero, (s.world.sched.debt i).toNat⟩

/-- The quantum of the turn expires inside a section that may go on. -/
def Charges (t : Turn) (w : World σ) : Prop :=
  resultOf t w = .quantumExpired ∧ (w.cpus t.cpu).inCritical = true ∧
    ¬ w.sched.config.maxCriticalOverrun < counted t w

/-- Charging does not wrap, and outside its turns the VM has the debt that it owes. -/
def Exact (l : Ledger σ) (e : Event σ) : Prop :=
  ∀ l', l.tock i e = some l' →
    (∀ t, l.turn i = some t → Charges t l.sys.world → l.debt i + t.budget < 2 ^ 32) ∧
      (l'.turn i = none → (l'.debt i : Int) = l'.owed)

/-- Where the turn of slot `i` ends, what it is charged too much is what it is charged too little. -/
def Balanced (l : Ledger σ) : Event σ → Prop
  | .iterate env =>
    match l.turn i with
    | none => True
    | some t =>
      let c := l.tally.add t l.sys.world
      if resultOf t l.sys.world = .quantumExpired then
        if (l.sys.world.cpus t.cpu).inCritical then
          if l.sys.world.sched.config.maxCriticalOverrun < counted t l.sys.world then
            -- a runaway section forfeits the debt
            l.owed + c.past = t.debtPaid.toNat
          else
            l.debt i + t.budget < 2 ^ 32
        else
          c.own = c.missed
      else
        (turnIteration env t l.sys.world).2 = none → c.own + t.debtPaid.toNat = c.missed
  | _ => True

instance (t : Turn) (w : World σ) : Decidable (Charges t w) := inferInstanceAs (Decidable (_ ∧ _))

instance (l : Ledger σ) (e : Event σ) : Decidable (l.Exact i e) :=
  inferInstanceAs (Decidable (∀ l' ∈ l.tock i e,
    (∀ t ∈ l.turn i, Charges t l.sys.world → l.debt i + t.budget < 2 ^ 32) ∧
      (l'.turn i = none → (l'.debt i : Int) = l'.owed)))

theorem balanced_iterate {l : Ledger σ} {t : Turn} {env : Env σ} (h : l.turn i = some t) :
    l.Balanced i (.iterate env) ↔
      if resultOf t l.sys.world = .quantumExpired then
        if (l.sys.world.cpus t.cpu).inCritical then
          if l.sys.world.sched.config.maxCriticalOverrun < counted t l.sys.world then
            l.owed + (l.tally.add t l.sys.world).past = t.debtPaid.toNat
          else
            l.debt i + t.budget < 2 ^ 32
        else
          (l.tally.add t l.sys.world).own = (l.tally.add t l.sys.world).missed
      else
        (turnIteration env t l.sys.world).2 = none →
          (l.tally.add t l.sys.world).own + t.debtPaid.toNat =
            (l.tally.add t l.sys.world).missed := by
  simp only [Balanced, h]

instance (l : Ledger σ) (e : Event σ) : Decidable (l.Balanced i e) :=
  match e with
  | .iterate _ =>
    match h : l.turn i with
    | none => .isTrue (by simp only [Balanced, h])
    | some _ => decidable_of_iff _ (balanced_iterate i h).symm
  | .call _ | .enter _ | .idle .. => .isTrue trivial

end Ledger

/-! ## Frames -/

/-- The event leaves the VM in slot `i`. -/
def Event.Spares (i : Slot) : Event σ → Prop
  | .call c => ¬ c.Evicts i
  | .enter _ => True
  | .iterate env => (∀ p w, ∀ a ∈ serveEcall env p w, ¬ a.Evicts i) ∧
      ∀ p w, ∀ a ∈ (env.trapHandler p w).1, ¬ a.Evicts i
  | .idle acts _ => ∀ a ∈ acts, ¬ a.Evicts i

section Frames

variable {i : Slot} {env : Env σ} {t : Turn} {w w' : World σ} {next : Option Turn}

theorem uncounted_keeps (h : resultOf t w ≠ .quantumExpired) (hocc : w.sched.Occupied i)
    (hspare : (Event.iterate env).Spares i) (hturn : turnIteration env t w = (w', next)) :
    Keeps (fun j => j = i) w.sched w'.sched := by
  refine ((turnIteration_uncounted h hturn).1.mono ?_).toKeeps
  rintro j rfl
  exact ⟨hocc, hspare.1 _ _, fun _ p => hspare.2 p _⟩

theorem turnExpired_debt (used : Nat) (w : World σ) :
    (turnExpired t used w).1.sched.debt t.vmId =
      if (w.cpus t.cpu).inCritical then
        if w.sched.config.maxCriticalOverrun <
            w.sched.criticalSectionConsumed t.vmId + BitVec.ofNat 32 used then 0
        else w.sched.debt t.vmId + BitVec.ofNat 32 used
      else if t.debtPaid ≤ w.sched.debt t.vmId then w.sched.debt t.vmId - t.debtPaid else 0 := by
  unfold turnExpired
  split
  · dsimp only
    split <;> exact Function.update_self ..
  · exact Function.update_self ..

theorem expired_debt (h : resultOf t w = .quantumExpired)
    (hturn : turnIteration env t w = (w', next)) :
    w'.sched.vms = w.sched.vms ∧ w'.sched.debt t.vmId =
      if (w.cpus t.cpu).inCritical then
        if w.sched.config.maxCriticalOverrun < counted t w then 0
        else w.sched.debt t.vmId + BitVec.ofNat 32 t.budget
      else if t.debtPaid ≤ w.sched.debt t.vmId then w.sched.debt t.vmId - t.debtPaid else 0 := by
  rw [turnIteration_expired h] at hturn
  have hd := turnExpired_debt (t := t) t.budget (ranWorld env.tick t w)
  have hv := turnExpired_vms t t.budget (ranWorld env.tick t w)
  rw [ranWorld_inCritical] at hd
  rw [hturn] at hd hv
  exact ⟨hv, hd⟩

theorem expired_keeps (h : resultOf t w = .quantumExpired)
    (hturn : turnIteration env t w = (w', next)) :
    Keeps (fun j => j ≠ t.vmId) w.sched w'.sched := by
  rw [turnIteration_expired h] at hturn
  have hkeep := Keeps.turnExpired t t.budget (ranWorld env.tick t w)
  rw [hturn] at hkeep
  exact ⟨hkeep.config, hkeep.cursor, hkeep.slot⟩

end Frames

/-- The VM in slot `i` and its debt are the same. -/
def SameSlot (i : Slot) (s s' : VmSched) : Prop := s'.vms i = s.vms i ∧ s'.debt i = s.debt i

section Steps

variable {i : Slot} {w w' : World σ}

theorem Keeps.same {P : Slot → Prop} {s s' : VmSched} (h : Keeps P s s') (hi : P i) :
    SameSlot i s s' :=
  ⟨(h.slot i hi).1, (h.slot i hi).2.1⟩

theorem selectVm_same (tick : Option Word) (w : World σ) :
    SameSlot i w.sched (selectVm tick w).1.sched := by
  have hwake := ((Kept.sampleTick (P := fun j => j = i) tick w).trans
    (Kept.wakeExpired (P := fun j => j = i) (sampleTick tick w)) fun _ hj => hj).same rfl
  unfold selectVm
  dsimp only
  split
  · exact hwake
  split
  · exact hwake
  split
  · exact hwake
  · exact hwake

theorem effectiveQuantum_pays (s : VmSched) (id : Slot) : (effectiveQuantum s id).2 ≤ s.debt id := by
  unfold effectiveQuantum
  dsimp only
  split
  · exact BitVec.le_refl _
  · next h => exact BitVec.not_lt.mp h

theorem selectVm_pays {tick : Option Word} {t : Turn} (h : selectVm tick w = (w', .inr t)) :
    t.debtPaid ≤ w'.sched.debt t.vmId := by
  unfold selectVm at h
  dsimp only at h
  split at h
  · cases h
  split at h
  · cases h
  split at h
  · cases h
  · cases h
    exact effectiveQuantum_pays _ _

theorem turnIteration_same {env : Env σ} {t : Turn} {next : Option Turn} (hi : i ≠ t.vmId)
    (hocc : w.sched.Occupied i) (hspare : (Event.iterate env).Spares i)
    (h : turnIteration env t w = (w', next)) : SameSlot i w.sched w'.sched := by
  by_cases hr : resultOf t w = .quantumExpired
  · exact (expired_keeps hr h).same hi
  · exact (uncounted_keeps hr hocc hspare h).same rfl

theorem step_same {s s' : Sys σ} {e : Event σ} (hturn : s.turn.filter (·.vmId = i) = none)
    (hocc : s.world.sched.Occupied i) (hspare : e.Spares i) (h : step s e = some s') :
    SameSlot i s.world.sched s'.world.sched ∧
      ∀ t, s'.turn.filter (·.vmId = i) = some t → t.debtPaid ≤ s'.world.sched.debt i := by
  obtain ⟨w, turn⟩ := s
  cases turn with
  | none =>
    cases e with
    | call c =>
      cases h
      exact ⟨(Kept.call w c).same ⟨hocc, hspare⟩, nofun⟩
    | enter tick =>
      have hsame := selectVm_same (i := i) tick w
      unfold step at h
      dsimp only at h
      split at h
      · next hsel =>
        cases h
        rw [hsel] at hsame
        exact ⟨hsame, nofun⟩
      · next hsel =>
        cases h
        rw [hsel] at hsame
        refine ⟨hsame, fun t ht => ?_⟩
        obtain ⟨ht, hid⟩ := Option.filter_eq_some_iff.mp ht
        cases ht
        rw [← of_decide_eq_true hid]
        exact selectVm_pays hsel
    | iterate env => cases h
    | idle acts tick =>
      unfold step at h
      dsimp only at h
      split at h
      · cases h
        refine ⟨?_, nofun⟩
        have hwake := Kept.wakeExpired (P := fun j => j = i) w
        have hidle := (hwake.trans (Kept.perform (wakeExpiredTimeouts w).2 acts)
          (by rintro j rfl; exact ⟨hwake.occupied rfl hocc, hspare⟩)).same rfl
        unfold runIdle
        dsimp only
        split <;> exact hidle
      · cases h
  | some t =>
    cases e with
    | iterate env =>
      have hi : i ≠ t.vmId := by
        rintro rfl
        simp at hturn
      unfold step at h
      dsimp only at h
      cases hit : turnIteration env t w with
      | mk w₁ next =>
        have hsame := turnIteration_same hi hocc hspare hit
        rw [hit] at h
        cases next with
        | none =>
          cases h
          exact ⟨hsame, nofun⟩
        | some t₁ =>
          cases h
          refine ⟨hsame, fun t' ht' => ?_⟩
          obtain ⟨ht', hid⟩ := Option.filter_eq_some_iff.mp ht'
          cases ht'
          exact absurd ((of_decide_eq_true hid).symm.trans (turnIteration_vmId hit)) hi
    | call c => cases h
    | enter tick => cases h
    | idle acts tick => cases h

end Steps

/-! ## The account -/

section Tallies

variable (c : Tally) {t : Turn} {w : World σ}

theorem Tally.add_outside (h : (w.cpus t.cpu).inCritical = false) :
    (c.add t w).own = c.own ∧ (c.add t w).missed = c.missed ∧ (c.add t w).past = c.past := by
  unfold Tally.add
  dsimp only
  rw [h, Bool.and_false, Bool.and_false]
  exact ⟨rfl, rfl, rfl⟩

/-- What is run beyond the quantum in a budget that does not expire is missed. -/
theorem Tally.add_unexpired (h : resultOf t w ≠ .quantumExpired) :
    (c.add t w).own = c.own ∧ (c.add t w).missed + c.past = (c.add t w).past + c.missed := by
  unfold Tally.add
  dsimp only
  rw [decide_eq_false h, Bool.and_false, Bool.not_false, Bool.and_true]
  exact ⟨rfl, by omega⟩

theorem Tally.add_missed_le (h : c.missed ≤ c.past) :
    (c.add t w).missed ≤ (c.add t w).past := by
  unfold Tally.add
  dsimp only
  refine Nat.add_le_add h ?_
  cases c.refilled && (w.cpus t.cpu).inCritical
  · exact Nat.le_refl _
  · rw [if_pos rfl]
    split
    · exact Nat.le_refl _
    · exact Nat.zero_le _

/-- A budget that expires inside a section is either the quantum's own or beyond it. -/
theorem Tally.add_expired (h : resultOf t w = .quantumExpired)
    (hin : (w.cpus t.cpu).inCritical = true) :
    (c.add t w).missed = c.missed ∧
      (c.add t w).own + (c.add t w).past = c.own + c.past + t.budget := by
  unfold Tally.add
  dsimp only
  rw [decide_eq_true h, hin, usedOf_expired h]
  cases c.refilled
  · exact ⟨rfl, by change c.own + t.budget + (c.past + 0) = _; omega⟩
  · exact ⟨rfl, by change c.own + 0 + (c.past + t.budget) = _; omega⟩

end Tallies

/-- Outside its turns the VM has the debt that it owes; in a turn the scheduler is ahead by what it
charged of the quantum and behind by what it missed. -/
structure LedgerInv (i : Slot) (l : Ledger σ) : Prop where
  home : l.sys.world.sched.Occupied i
  between : l.turn i = none → l.tally = .zero ∧ (l.debt i : Int) = l.owed
  during : ∀ t, l.turn i = some t → (t.debtPaid.toNat : Int) ≤ l.owed ∧
    (l.debt i : Int) + l.tally.missed = l.owed + l.tally.own + l.tally.past ∧
    l.tally.missed ≤ l.tally.past

namespace LedgerInv

variable {i : Slot} {l : Ledger σ} {t : Turn} {env : Env σ} {w' : World σ}

theorem turn_eq (ht : l.turn i = some t) : l.sys.turn = some t ∧ t.vmId = i := by
  obtain ⟨hturn, hid⟩ := Option.filter_eq_some_iff.mp ht
  exact ⟨hturn, of_decide_eq_true hid⟩

theorem settled_iff (inv : LedgerInv i l) (ht : l.turn i = some t)
    (hspare : (Event.iterate env).Spares i)
    (h : turnIteration env t l.sys.world = (w', none)) :
    ((w'.sched.debt i).toNat : Int) =
        l.owed - t.debtPaid.toNat + (l.tally.add t l.sys.world).past ↔
      l.Balanced i (.iterate env) := by
  obtain ⟨hpay, hdebt, hmiss⟩ := inv.during t ht
  obtain ⟨-, rfl⟩ := turn_eq ht
  unfold Ledger.Balanced
  rw [ht]
  dsimp only
  unfold Ledger.debt at hdebt ⊢
  by_cases hr : resultOf t l.sys.world = .quantumExpired
  · rw [if_pos hr]
    obtain ⟨-, hd⟩ := expired_debt hr h
    rw [hd]
    cases hin : (l.sys.world.cpus t.cpu).inCritical with
    | true =>
      rw [if_pos rfl, if_pos rfl]
      by_cases hcap : l.sys.world.sched.config.maxCriticalOverrun < counted t l.sys.world
      · rw [if_pos hcap, if_pos hcap]
        change ((0 : Nat) : Int) = _ ↔ _
        omega
      · cases (expired_on hr hin hcap h).1
    | false =>
      rw [if_neg Bool.false_ne_true, if_neg Bool.false_ne_true]
      obtain ⟨hown, hmissed, hpast⟩ := l.tally.add_outside hin
      have hle : t.debtPaid ≤ l.sys.world.sched.debt t.vmId := BitVec.le_def.mpr (by omega)
      rw [if_pos hle, BitVec.toNat_sub_of_le hle, hown, hmissed, hpast]
      have hle' := BitVec.le_def.mp hle
      omega
  · rw [if_neg hr, (uncounted_keeps hr inv.home hspare h).same rfl |>.2, h]
    obtain ⟨hown, hmissed⟩ := l.tally.add_unexpired hr
    constructor
    · intro heq _
      omega
    · intro heq
      have := heq rfl
      omega

theorem turn_goes_on (ht : l.turn i = some t) {t' : Turn}
    (h : turnIteration env t l.sys.world = (w', some t')) {d : Tally} {x : Int} :
    (Ledger.mk ⟨w', some t'⟩ d x).turn i = some t' := by
  unfold Ledger.turn
  exact Option.filter_some_pos
    (decide_eq_true ((turnIteration_vmId h).trans (turn_eq ht).2))

theorem goes_on (inv : LedgerInv i l) (ht : l.turn i = some t)
    (hspare : (Event.iterate env).Spares i)
    (hfits : Ledger.Charges t l.sys.world → l.debt i + t.budget < 2 ^ 32) {t' : Turn}
    (h : turnIteration env t l.sys.world = (w', some t')) :
    LedgerInv i ⟨⟨w', some t'⟩, l.tally.add t l.sys.world, l.owed⟩ := by
  obtain ⟨hpay, hdebt, hmiss⟩ := inv.during t ht
  obtain ⟨-, rfl⟩ := turn_eq ht
  have hmiss' := l.tally.add_missed_le (t := t) (w := l.sys.world) hmiss
  have hsame := turn_goes_on ht h (d := l.tally.add t l.sys.world) (x := l.owed)
  -- the account after the iteration
  have key : ∀ u : Turn, t' = { t with budget := u.budget } → w'.sched.vms t.vmId =
      l.sys.world.sched.vms t.vmId → ((w'.sched.debt t.vmId).toNat : Int) +
        (l.tally.add t l.sys.world).missed = l.owed + (l.tally.add t l.sys.world).own +
          (l.tally.add t l.sys.world).past →
      LedgerInv t.vmId ⟨⟨w', some t'⟩, l.tally.add t l.sys.world, l.owed⟩ := by
    rintro u rfl hv hd
    refine ⟨?_, fun hnone => ?_, fun t₁ h₁ => ?_⟩
    · unfold VmSched.Occupied
      rw [hv]
      exact inv.home
    · rw [hsame] at hnone
      cases hnone
    · rw [hsame] at h₁
      cases h₁
      exact ⟨hpay, hd, hmiss'⟩
  unfold Ledger.debt at hdebt
  by_cases hr : resultOf t l.sys.world = .quantumExpired
  · cases hin : (l.sys.world.cpus t.cpu).inCritical with
    | false => cases (expired_outside hr hin h).1
    | true =>
      by_cases hcap : l.sys.world.sched.config.maxCriticalOverrun < counted t l.sys.world
      · cases (expired_forced hr hin hcap h).1
      · obtain ⟨hv, hd⟩ := expired_debt hr h
        rw [hin, if_pos rfl, if_neg hcap] at hd
        have hfit := hfits ⟨hr, hin, hcap⟩
        unfold Ledger.debt at hfit
        have hsum : (w'.sched.debt t.vmId).toNat =
            (l.sys.world.sched.debt t.vmId).toNat + t.budget := by
          rw [hd, BitVec.toNat_add, BitVec.toNat_ofNat, Nat.mod_eq_of_lt (a := t.budget) (by omega),
            Nat.mod_eq_of_lt hfit]
        obtain ⟨hmissed, hown⟩ := l.tally.add_expired hr hin
        refine key { t with budget := _ } (Option.some.inj (expired_on hr hin hcap h).1)
          (congrFun hv _) ?_
        omega
  · obtain ⟨hv, hd⟩ := (uncounted_keeps hr inv.home hspare h).same rfl
    obtain ⟨hown, hmissed⟩ := l.tally.add_unexpired hr
    refine key { t with budget := _ } ((turnIteration_uncounted hr h).2 t' rfl).2.1 hv ?_
    rw [hd]
    omega

theorem outside (inv : LedgerInv i l) (ht : l.turn i = none) {e : Event σ} (hspare : e.Spares i)
    {s' : Sys σ} (h : step l.sys e = some s') : LedgerInv i { l with sys := s' } := by
  obtain ⟨htally, howed⟩ := inv.between ht
  obtain ⟨⟨hv, hd⟩, hpay⟩ := step_same ht inv.home hspare h
  have hdebt : ((s'.world.sched.debt i).toNat : Int) = l.owed := by
    rw [hd]
    exact howed
  refine ⟨?_, fun _ => ⟨htally, hdebt⟩, fun t hnew => ?_⟩
  · unfold VmSched.Occupied
    rw [hv]
    exact inv.home
  · have hle := BitVec.le_def.mp (hpay t hnew)
    rw [htally]
    refine ⟨?_, ?_, Nat.le_refl _⟩
    · change (t.debtPaid.toNat : Int) ≤ l.owed
      omega
    change ((s'.world.sched.debt i).toNat : Int) + ((0 : Nat) : Int) = l.owed + (0 : Nat) + (0 : Nat)
    omega

theorem next_outside (ht : l.turn i = none) (e : Event σ) (s' : Sys σ) :
    l.next i e s' = { l with sys := s' } := by
  unfold Ledger.next
  rw [ht]

theorem tock_outside (ht : l.turn i = none) {e : Event σ} {l' : Ledger σ}
    (h : l.tock i e = some l') : ∃ s', step l.sys e = some s' ∧ l' = { l with sys := s' } := by
  unfold Ledger.tock at h
  obtain ⟨s', hs, rfl⟩ := Option.map_eq_some_iff.mp h
  exact ⟨s', hs, next_outside ht e s'⟩

theorem tock_inside (ht : l.turn i = some t) {e : Event σ} {l' : Ledger σ}
    (h : l.tock i e = some l') : ∃ env, e = .iterate env := by
  unfold Ledger.tock step at h
  rw [(turn_eq ht).1] at h
  cases e with
  | iterate env => exact ⟨env, rfl⟩
  | call c => cases h
  | enter tick => cases h
  | idle acts tick => cases h

theorem tock_ends (ht : l.turn i = some t)
    (h : turnIteration env t l.sys.world = (w', none)) :
    l.tock i (.iterate env) = some ⟨⟨endTurn t w', none⟩, .zero,
      l.owed - t.debtPaid.toNat + (l.tally.add t l.sys.world).past⟩ := by
  unfold Ledger.tock step Ledger.next
  rw [(turn_eq ht).1, ht]
  dsimp only
  rw [h]
  rfl

theorem tock_goes_on (ht : l.turn i = some t) {t' : Turn}
    (h : turnIteration env t l.sys.world = (w', some t')) :
    l.tock i (.iterate env) = some ⟨⟨w', some t'⟩, l.tally.add t l.sys.world, l.owed⟩ := by
  unfold Ledger.tock step Ledger.next
  rw [(turn_eq ht).1, ht]
  dsimp only
  rw [h]
  rfl

theorem iteration_home (inv : LedgerInv i l)
    (hspare : (Event.iterate env).Spares i) {next : Option Turn}
    (h : turnIteration env t l.sys.world = (w', next)) : w'.sched.Occupied i := by
  unfold VmSched.Occupied
  by_cases hr : resultOf t l.sys.world = .quantumExpired
  · rw [(expired_debt hr h).1]
    exact inv.home
  · rw [((uncounted_keeps hr inv.home hspare h).same rfl).1]
    exact inv.home

theorem charges_on (hc : Ledger.Charges t l.sys.world)
    (h : turnIteration env t l.sys.world = (w', none)) : False := by
  obtain ⟨hr, hin, hcap⟩ := hc
  cases (expired_on hr hin hcap h).1

/-- The step of a turn that goes on is balanced when charging does not wrap. -/
theorem on_iff (ht : l.turn i = some t) {t' : Turn}
    (h : turnIteration env t l.sys.world = (w', some t')) :
    (Ledger.Charges t l.sys.world → l.debt i + t.budget < 2 ^ 32) ↔
      l.Balanced i (.iterate env) := by
  unfold Ledger.Balanced Ledger.Charges
  rw [ht]
  dsimp only
  by_cases hr : resultOf t l.sys.world = .quantumExpired
  · rw [if_pos hr]
    cases hin : (l.sys.world.cpus t.cpu).inCritical with
    | true =>
      rw [if_pos rfl]
      by_cases hcap : l.sys.world.sched.config.maxCriticalOverrun < counted t l.sys.world
      · cases (expired_forced hr hin hcap h).1
      · rw [if_neg hcap]
        exact ⟨fun hf => hf ⟨hr, rfl, hcap⟩, fun hf _ => hf⟩
    | false => cases (expired_outside hr hin h).1
  · rw [if_neg hr, h]
    exact iff_of_true (fun hc => absurd hc.1 hr) nofun

theorem exact_iff (inv : LedgerInv i l) {e : Event σ} (hspare : e.Spares i) :
    l.Exact i e ↔ l.Balanced i e := by
  cases ht : l.turn i with
  | none =>
    refine iff_of_true (fun l' h => ?_) ?_
    · obtain ⟨s', hs, rfl⟩ := tock_outside ht h
      refine ⟨fun t h => ?_, fun hnone => ((inv.outside ht hspare hs).between hnone).2⟩
      rw [ht] at h
      cases h
    · unfold Ledger.Balanced
      rw [ht]
      split <;> exact trivial
  | some t =>
    cases e with
    | iterate env =>
      cases h : turnIteration env t l.sys.world with
      | mk w' next =>
        unfold Ledger.Exact
        cases next with
        | none =>
          rw [tock_ends ht h, ht, ← inv.settled_iff ht hspare h]
          constructor
          · intro hx
            exact (hx _ rfl).2 rfl
          · rintro hx l' ⟨⟩
            refine ⟨fun t₁ h₁ hc => ?_, fun _ => hx⟩
            cases h₁
            exact (charges_on hc h).elim
        | some t' =>
          rw [tock_goes_on ht h, ht, ← on_iff ht h]
          constructor
          · intro hx
            exact (hx _ rfl).1 t rfl
          · rintro hx l' ⟨⟩
            refine ⟨fun t₁ h₁ => ?_, fun hnone => ?_⟩
            · cases h₁
              exact hx
            · rw [turn_goes_on ht h] at hnone
              cases hnone
    | call c | enter tick | idle acts tick =>
      exact iff_of_true (fun l' h => nomatch tock_inside ht h) trivial

theorem tock {l' : Ledger σ} (inv : LedgerInv i l) {e : Event σ} (hspare : e.Spares i)
    (hok : l.Exact i e) (h : l.tock i e = some l') : LedgerInv i l' := by
  cases ht : l.turn i with
  | none =>
    obtain ⟨s', hs, rfl⟩ := tock_outside ht h
    exact inv.outside ht hspare hs
  | some t =>
    obtain ⟨env, rfl⟩ := tock_inside ht h
    obtain ⟨hfits, hdebt⟩ := hok l' h
    cases hit : turnIteration env t l.sys.world with
    | mk w' next =>
      cases next with
      | none =>
        rw [tock_ends ht hit] at h
        cases h
        have hhome : w'.sched.Occupied i := iteration_home inv hspare hit
        exact ⟨hhome, fun _ => ⟨rfl, hdebt rfl⟩, nofun⟩
      | some t' =>
        rw [tock_goes_on ht hit] at h
        cases h
        exact inv.goes_on ht hspare (hfits t ht) hit

end LedgerInv

theorem LedgerInv.opened {i : Slot} {s : Sys σ} (hturn : s.turn = none)
    (hocc : s.world.sched.Occupied i) : LedgerInv i (Ledger.opened i s) := by
  refine ⟨hocc, fun _ => ⟨rfl, rfl⟩, fun t ht => ?_⟩
  unfold Ledger.turn Ledger.opened at ht
  rw [hturn] at ht
  cases ht

/-- In every run without the VM's removal, charging never wraps and the debt after each turn is what
the VM owes exactly when every turn is balanced. -/
theorem debt_exact_iff {i : Slot} {s : Sys σ} (hturn : s.turn = none)
    (hocc : s.world.sched.Occupied i) {es : List (Event σ)} (hspare : ∀ e ∈ es, e.Spares i) :
    Meets (Ledger.tock i) (Ledger.Exact i) (.opened i s) es ↔
      Meets (Ledger.tock i) (Ledger.Balanced i) (.opened i s) es := by
  have hstays : Meets (Ledger.tock i) (fun _ e => e.Spares i) (.opened i s) es :=
    .of_mem hspare _
  have hopen := LedgerInv.opened hturn hocc
  constructor
  · intro hexact
    exact (hstays.and hexact).of_invariant (fun _ _ _ inv hok hs => inv.tock hok.1 hok.2 hs)
      (fun _ _ inv hok => (inv.exact_iff hok.1).mp hok.2) hopen
  · intro hbal
    exact (hstays.and hbal).of_invariant
      (fun _ _ _ inv hok hs => inv.tock hok.1 ((inv.exact_iff hok.1).mpr hok.2) hs)
      (fun _ _ inv hok => (inv.exact_iff hok.1).mpr hok.2) hopen

/-! ## Guests with the CPU-only handlers -/

/-- All handlers of the router write their own CPU only. -/
def VmEcallRouter.CpuOnly (r : VmEcallRouter σ) : Prop :=
  (∀ n f, r.slotFor n = some f → ∃ g, f = cpuHandler g) ∧
    ∀ f, r.fallback = some f → ∃ g, f = cpuHandler g

theorem VmEcallRouter.CpuOnly.init : (VmEcallRouter.init : VmEcallRouter σ).CpuOnly := by
  refine ⟨fun n f h => ?_, fun f h => ?_⟩
  · unfold slotFor at h
    split at h
    · cases h
    · split at h <;> cases h
  · cases h
    exact ⟨_, rfl⟩

theorem VmEcallRouter.CpuOnly.register {r r' : VmEcallRouter σ} (hr : r.CpuOnly) {num : Word}
    {g : Word → VmCpu → VmCpu} (h : r.register num (cpuHandler g) = some r') : r'.CpuOnly := by
  refine ⟨fun n f hf => ?_, fun f hf => hr.2 f (register_fallback h ▸ hf)⟩
  rw [slotFor_register h] at hf
  split at hf
  · cases hf
    exact ⟨g, rfl⟩
  · exact hr.1 n f hf

theorem VmEcallRouter.CpuOnly.install {r r' : VmEcallRouter σ} (hr : r.CpuOnly)
    (h : vmEcallInstallCpuHandlers r = some r') : r'.CpuOnly := by
  unfold vmEcallInstallCpuHandlers cpuHandlers at h
  simp only [List.foldlM_cons, List.foldlM_nil, Option.bind_eq_bind, Option.bind_eq_some_iff] at h
  obtain ⟨r₁, h₁, r₂, h₂, r₃, h₃, r₄, h₄, r₅, h₅, hend⟩ := h
  cases hend
  exact ((((hr.register h₁).register h₂).register h₃).register h₄).register h₅

theorem cpuHandlersEnv_spares (i : Slot) : (Event.iterate cpuHandlersEnv).Spares i := by
  refine ⟨fun p w a ha => ?_, fun p w a ha => nomatch ha⟩
  have hcpu : ∃ g, serveEcall cpuHandlersEnv p w = cpuHandler g p w := by
    unfold serveEcall
    split
    · next r hr =>
      have hr' := VmEcallRouter.CpuOnly.init.install hr
      unfold vmEcallDispatch
      split
      · next f hf =>
        obtain ⟨g, rfl⟩ := hr'.1 _ f hf
        exact ⟨g, rfl⟩
      · split
        · next f hf =>
          obtain ⟨g, rfl⟩ := hr'.2 f hf
          exact ⟨g, rfl⟩
        · exact ⟨_, rfl⟩
    · exact ⟨_, rfl⟩
  obtain ⟨g, hg⟩ := hcpu
  rw [hg] at ha
  cases List.mem_singleton.mp ha
  exact id

/-- A VM with a quantum of 4 that is about to call `SYS_CRITICAL_ENTER` somewhere in `code`. -/
def debtor (code : List Byte) : Sys Unit :=
  ⟨(Call.register (some 0)).apply (Sys.init ⟨4, 100⟩ (fun _ => callerCpu sysCriticalEnter)
    (flatMachine code).mem ()).world, none⟩

def debtorSlot : Slot := ⟨0, slot_zero_lt⟩

/-- Three instructions of the quantum are left in the section, and three are run beyond it. -/
theorem debt_exact_even :
    Meets (Ledger.tock debtorSlot) (Ledger.Exact debtorSlot)
      (.opened debtorSlot (debtor [0x13, 0x00, 0x00, 0x00, 0x73, 0x00, 0x00, 0x00,
        0x93, 0x88, 0x18, 0x00, 0x13, 0x00, 0x00, 0x00, 0x13, 0x00, 0x00, 0x00,
        0x13, 0x00, 0x00, 0x00, 0x13, 0x00, 0x00, 0x00, 0x13, 0x00, 0x00, 0x00,
        0x73, 0x00, 0x00, 0x00, 0x6F, 0x00, 0x00, 0x00]))
      (.enter none :: List.replicate 4 (.iterate cpuHandlersEnv)) :=
  (debt_exact_iff rfl (by exact rfl) fun e he => by
    rcases List.mem_cons.mp he with rfl | he
    · exact trivial
    · rw [List.eq_of_mem_replicate he]
      exact cpuHandlersEnv_spares _).mpr (by decide)

/-- The section takes the whole quantum and ends with it, and the VM is charged for it. -/
theorem debt_exact_own :
    ¬ Meets (Ledger.tock debtorSlot) (Ledger.Exact debtorSlot)
      (.opened debtorSlot (debtor [0x73, 0x00, 0x00, 0x00,
        0x93, 0x88, 0x18, 0x00, 0x13, 0x00, 0x00, 0x00, 0x13, 0x00, 0x00, 0x00,
        0x13, 0x00, 0x00, 0x00, 0x73, 0x00, 0x00, 0x00, 0x6F, 0x00, 0x00, 0x00]))
      (.enter none :: List.replicate 4 (.iterate cpuHandlersEnv)) := by
  decide

end Microgarbage.Sched
