import Microgarbage.Sched.Step

/-!
# The ready and blocked sets

`Coherent` is what the scheduler's own comment on its two bitmaps says. It is not an invariant of
every run: code outside the scheduler can halt a CPU behind its back. `Sound` is the invariant that
carries it through a turn. While handlers run, the slot whose turn it is may already be halted with
its bit still set; every other slot is as `Coherent` has it.
-/

namespace Microgarbage.Sched

open Lib Vm
open Function (update update_apply update_of_ne)

variable {σ : Type}

/-- The two sets are disjoint, their union is the registered and not halted slots, the count is
right, empty slots are in neither set, and a blocked VM has a reason. -/
structure Coherent (w : World σ) : Prop where
  disjoint : ∀ i, ¬(bmTest w.sched.ready i = true ∧ bmTest w.sched.blocked i = true)
  union : ∀ i, bmTest w.sched.ready i = true ∨ bmTest w.sched.blocked i = true ↔
    ∃ p, w.sched.vms i = some p ∧ (w.cpus p).halted = false
  count : w.sched.registeredCount =
    (Finset.univ.filter fun i => (w.sched.vms i).isSome = true).card
  empty : ∀ i, w.sched.vms i = none →
    bmTest w.sched.ready i = false ∧ bmTest w.sched.blocked i = false
  reason : ∀ i p, w.sched.vms i = some p → bmTest w.sched.blocked i = true →
    (w.cpus p).blockReason ≠ .none

/-- The slot and the CPU whose turn is under way. -/
abbrev Self := Option (Slot × Ptr)

/-- An occupied slot: ready, blocked with a reason, or halted and in neither set. The slot of the
running turn is never blocked, and ready unless halted. -/
structure SlotSound (me : Self) (w : World σ) (i : Slot) (p : Ptr) : Prop where
  own : me = some (i, p) → bmTest w.sched.blocked i = false ∧
    ((w.cpus p).halted = false → bmTest w.sched.ready i = true)
  other : me ≠ some (i, p) →
    bmTest w.sched.ready i = (!(w.cpus p).halted && !bmTest w.sched.blocked i) ∧
    (bmTest w.sched.blocked i = true →
      (w.cpus p).halted = false ∧ (w.cpus p).blockReason ≠ .none)

structure Sound (me : Self) (w : World σ) : Prop where
  slot : ∀ i p, w.sched.vms i = some p → SlotSound me w i p
  empty : ∀ i, w.sched.vms i = none →
    bmTest w.sched.ready i = false ∧ bmTest w.sched.blocked i = false
  count : w.sched.registeredCount =
    (Finset.univ.filter fun i => (w.sched.vms i).isSome = true).card
  inj : ∀ i j p, w.sched.vms i = some p → w.sched.vms j = some p → i = j
  home : ∀ i p, me = some (i, p) → w.sched.vms i = none ∨ w.sched.vms i = some p
  alone : ∀ i j p, me = some (i, p) → w.sched.vms j = some p → j = i

/-! ## Single updates -/

/-- The fields of a world that soundness reads. -/
structure SameSets (w w' : World σ) : Prop where
  vms : w'.sched.vms = w.sched.vms
  ready : w'.sched.ready = w.sched.ready
  blocked : w'.sched.blocked = w.sched.blocked
  count : w'.sched.registeredCount = w.sched.registeredCount
  halted : ∀ p, (w'.cpus p).halted = (w.cpus p).halted
  reason : ∀ p, (w'.cpus p).blockReason = (w.cpus p).blockReason

theorem SameSets.of_sched {w : World σ} {f : VmSched → VmSched}
    (hv : (f w.sched).vms = w.sched.vms) (hr : (f w.sched).ready = w.sched.ready)
    (hb : (f w.sched).blocked = w.sched.blocked)
    (hc : (f w.sched).registeredCount = w.sched.registeredCount) : SameSets w (w.onSched f) :=
  ⟨hv, hr, hb, hc, fun _ => rfl, fun _ => rfl⟩

namespace Sound

variable {me : Self} {w w' : World σ}

theorem congr (h : Sound me w) (hs : SameSets w w') : Sound me w' where
  slot i p hp := by
    rw [hs.vms] at hp
    obtain ⟨hown, hother⟩ := h.slot i p hp
    rw [← hs.halted p, ← hs.ready, ← hs.blocked] at hown
    rw [← hs.halted p, ← hs.ready, ← hs.blocked, ← hs.reason p] at hother
    exact ⟨hown, hother⟩
  empty i hi := by
    rw [hs.vms] at hi
    rw [hs.ready, hs.blocked]
    exact h.empty i hi
  count := by rw [hs.count, hs.vms]; exact h.count
  inj := by rw [hs.vms]; exact h.inj
  home := by rw [hs.vms]; exact h.home
  alone := by rw [hs.vms]; exact h.alone

theorem confined (h : Sound me w) {id : Slot} {p : Ptr} (hp : w.sched.vms id = some p)
    (hvms : w'.sched.vms = w.sched.vms)
    (hcount : w'.sched.registeredCount = w.sched.registeredCount)
    (hbits : ∀ j, j ≠ id → bmTest w'.sched.ready j = bmTest w.sched.ready j ∧
      bmTest w'.sched.blocked j = bmTest w.sched.blocked j)
    (hcpu : ∀ q, q ≠ p → w'.cpus q = w.cpus q) (hid : SlotSound me w' id p) : Sound me w' where
  slot i q hq := by
    rw [hvms] at hq
    by_cases hi : i = id
    · subst hi
      rw [hp, Option.some.injEq] at hq
      exact hq ▸ hid
    · have hqp : q ≠ p := fun e => hi (h.inj i id p (e ▸ hq) hp)
      obtain ⟨hr, hb⟩ := hbits i hi
      obtain ⟨hown, hother⟩ := h.slot i q hq
      rw [← hcpu q hqp, ← hr, ← hb] at hown hother
      exact ⟨hown, hother⟩
  empty i hi := by
    rw [hvms] at hi
    have hne : i ≠ id := fun e => by rw [e, hp] at hi; cases hi
    obtain ⟨hr, hb⟩ := hbits i hne
    rw [hr, hb]
    exact h.empty i hi
  count := by rw [hcount, hvms]; exact h.count
  inj := by rw [hvms]; exact h.inj
  home := by rw [hvms]; exact h.home
  alone := by rw [hvms]; exact h.alone

theorem onCpu_free (h : Sound me w) {p : Ptr} (hp : ∀ j, w.sched.vms j ≠ some p)
    (f : VmCpu → VmCpu) : Sound me (w.onCpu p f) where
  slot i q hq := by
    have hqp : q ≠ p := fun e => hp i (e ▸ hq)
    obtain ⟨hown, hother⟩ := h.slot i q hq
    rw [← onCpu_ne w f hqp] at hown hother
    exact ⟨hown, hother⟩
  empty := h.empty
  count := h.count
  inj := h.inj
  home := h.home
  alone := h.alone

theorem onCpu (h : Sound me w) {p : Ptr} {f : VmCpu → VmCpu}
    (hown : ∀ i, me = some (i, p) → (w.cpus p).halted = true → (f (w.cpus p)).halted = true)
    (hother : ∀ i, w.sched.vms i = some p → (∀ j, me ≠ some (j, p)) →
      (f (w.cpus p)).halted = (w.cpus p).halted ∧
      (f (w.cpus p)).blockReason = (w.cpus p).blockReason) :
    Sound me (w.onCpu p f) := by
  by_cases hfree : ∀ j, w.sched.vms j ≠ some p
  · exact h.onCpu_free hfree f
  · obtain ⟨i, hi⟩ := not_forall_not.mp hfree
    refine h.confined hi rfl rfl (fun _ _ => ⟨rfl, rfl⟩) (fun q hq => onCpu_ne w f hq) ?_
    obtain ⟨hso, hst⟩ := h.slot i p hi
    refine ⟨fun hme => ⟨(hso hme).1, fun hh => (hso hme).2 ?_⟩, fun hme => ?_⟩
    · rw [onCpu_self] at hh
      cases hw : (w.cpus p).halted with
      | false => rfl
      | true => rw [hown i hme hw] at hh; cases hh
    · have hp : ∀ j, me ≠ some (j, p) := fun j e => hme (h.alone j i p e hi ▸ e)
      obtain ⟨h1, h2⟩ := hother i hi hp
      rw [onCpu_self, h1, h2]
      exact hst hme

theorem blocked_other (h : Sound me w) {i : Slot} {p : Ptr} (hp : w.sched.vms i = some p)
    (hb : bmTest w.sched.blocked i = true) :
    me ≠ some (i, p) ∧ (w.cpus p).halted = false ∧ (w.cpus p).blockReason ≠ .none := by
  have hme : me ≠ some (i, p) := fun e => by
    rw [((h.slot i p hp).own e).1] at hb
    cases hb
  exact ⟨hme, ((h.slot i p hp).other hme).2 hb⟩

theorem wakeSlot (h : Sound me w) {i : Slot} {p : Ptr} (hp : w.sched.vms i = some p)
    (hme : me ≠ some (i, p)) (hh : (w.cpus p).halted = false) {f : VmCpu → VmCpu}
    (hf : ∀ c, (f c).halted = c.halted) : Sound me (wakeSlot w i p f) := by
  refine h.confined hp rfl rfl (fun j hj => ?_) (fun q hq => onCpu_ne w f hq) ?_
  · simp [Sched.wakeSlot, VmSched.wake, hj]
  · refine ⟨fun e => absurd e hme, fun _ => ?_⟩
    simp [Sched.wakeSlot, VmSched.wake, hf, hh]

/-! ## Entry points -/

theorem register (h : Sound me w) {id : Slot} {p : Ptr} (hid : w.sched.vms id = none)
    (hh : (w.cpus p).halted = false) (hp : ∀ j, w.sched.vms j ≠ some p)
    (hme : ∀ i q, me = some (i, q) → q ≠ p ∧ i ≠ id) : Sound me (register w id p) := by
  have hvms : ∀ j, (Sched.register w id p).sched.vms j = if j = id then some p else w.sched.vms j :=
    fun j => update_apply ..
  have hready : ∀ j, bmTest (Sched.register w id p).sched.ready j =
      (decide (j = id) || bmTest w.sched.ready j) := fun j => bmTest_set ..
  have hblocked : (Sched.register w id p).sched.blocked = w.sched.blocked := rfl
  have hcpu : ∀ q, q ≠ p → (Sched.register w id p).cpus q = w.cpus q :=
    fun q hq => update_of_ne hq ..
  have hcpup : (Sched.register w id p).cpus p = { w.cpus p with vmId := BitVec.ofNat 16 id } :=
    Function.update_self ..
  refine ⟨?_, ?_, ?_, ?_, ?_, ?_⟩
  · intro i q hq
    rw [hvms] at hq
    by_cases hi : i = id
    · rw [if_pos hi, Option.some.injEq] at hq
      subst hi hq
      refine ⟨fun e => absurd rfl (hme _ _ e).1, fun _ => ?_⟩
      rw [hready, hblocked, (h.empty _ hid).2, hcpup]
      simp [hh]
    · rw [if_neg hi] at hq
      have hqp : q ≠ p := fun e => hp i (e ▸ hq)
      obtain ⟨hown, hother⟩ := h.slot i q hq
      constructor
      · rw [hready, hblocked, hcpu q hqp, decide_eq_false hi, Bool.false_or]
        exact hown
      · rw [hready, hblocked, hcpu q hqp, decide_eq_false hi, Bool.false_or]
        exact hother
  · intro i hi
    rw [hvms] at hi
    have hne : i ≠ id := fun e => by rw [if_pos e] at hi; cases hi
    rw [if_neg hne] at hi
    rw [hready, hblocked, decide_eq_false hne, Bool.false_or]
    exact h.empty i hi
  · have hset : (Finset.univ.filter fun i => ((Sched.register w id p).sched.vms i).isSome = true) =
        insert id (Finset.univ.filter fun i => (w.sched.vms i).isSome = true) := by
      ext j
      by_cases hj : j = id
      · simp [hvms, hj]
      · simp [hvms, hj]
    rw [hset, Finset.card_insert_of_notMem (by simp [hid]), ← h.count]
    rfl
  · intro i j q hi hj
    rw [hvms] at hi hj
    by_cases hi' : i = id <;> by_cases hj' : j = id
    · rw [hi', hj']
    · rw [if_pos hi', Option.some.injEq] at hi
      rw [if_neg hj', ← hi] at hj
      exact absurd hj (hp j)
    · rw [if_pos hj', Option.some.injEq] at hj
      rw [if_neg hi', ← hj] at hi
      exact absurd hi (hp i)
    · rw [if_neg hi'] at hi
      rw [if_neg hj'] at hj
      exact h.inj i j q hi hj
  · intro i q e
    rw [hvms, if_neg (hme i q e).2]
    exact h.home i q e
  · intro i j q e hj
    rw [hvms] at hj
    by_cases hj' : j = id
    · rw [if_pos hj', Option.some.injEq] at hj
      exact absurd hj.symm (hme i q e).1
    · rw [if_neg hj'] at hj
      exact h.alone i j q e hj

theorem unregister (h : Sound me w) (vmId : Nat) : Sound me (vmSchedUnregister w vmId) := by
  unfold vmSchedUnregister
  split
  case isFalse => exact h
  case isTrue hlt =>
    generalize (⟨vmId, hlt⟩ : Slot) = id
    dsimp only
    cases hp : w.sched.vms id with
    | none => exact h
    | some p =>
      have hvms : ∀ j, update w.sched.vms id none j =
          if j = id then none else w.sched.vms j := fun j => update_apply ..
      refine ⟨?_, ?_, ?_, ?_, ?_, ?_⟩
      · intro i q hq
        replace hq : update w.sched.vms id none i = some q := hq
        rw [hvms] at hq
        have hi : i ≠ id := fun e => by rw [if_pos e] at hq; cases hq
        rw [if_neg hi] at hq
        obtain ⟨hown, hother⟩ := h.slot i q hq
        constructor
        · simpa [VmSched.drop, VmSched.setDebt, VmSched.setConsumed, hi] using hown
        · simpa [VmSched.drop, VmSched.setDebt, VmSched.setConsumed, hi] using hother
      · intro i hi
        replace hi : update w.sched.vms id none i = none := hi
        by_cases he : i = id
        · simp [VmSched.drop, VmSched.setDebt, VmSched.setConsumed, he]
        · rw [hvms, if_neg he] at hi
          simpa [VmSched.drop, VmSched.setDebt, VmSched.setConsumed, he] using h.empty i hi
      · have hset : (Finset.univ.filter fun i =>
            (update w.sched.vms id none i).isSome = true) =
            (Finset.univ.filter fun i => (w.sched.vms i).isSome = true).erase id := by
          ext j
          by_cases hj : j = id
          · simp [hj]
          · simp [hj]
        show w.sched.registeredCount - 1 = _
        rw [h.count]
        refine Eq.symm (Eq.trans (congrArg Finset.card hset) ?_)
        exact Finset.card_erase_of_mem (by simp [hp])
      · intro i j q hi hj
        replace hi : update w.sched.vms id none i = some q := hi
        replace hj : update w.sched.vms id none j = some q := hj
        rw [hvms] at hi hj
        have hi' : i ≠ id := fun e => by rw [if_pos e] at hi; cases hi
        have hj' : j ≠ id := fun e => by rw [if_pos e] at hj; cases hj
        rw [if_neg hi'] at hi
        rw [if_neg hj'] at hj
        exact h.inj i j q hi hj
      · intro i q e
        show update w.sched.vms id none i = none ∨ _
        rw [hvms]
        by_cases hi : i = id
        · exact .inl (if_pos hi)
        · rcases h.home i q e with hn | hs
          · exact .inl (by rw [if_neg hi, hn])
          · exact .inr (by
              show update w.sched.vms id none i = _
              rw [hvms, if_neg hi, hs])
      · intro i j q e hj
        replace hj : update w.sched.vms id none j = some q := hj
        rw [hvms] at hj
        have hj' : j ≠ id := fun e => by rw [if_pos e] at hj; cases hj
        rw [if_neg hj'] at hj
        exact h.alone i j q e hj

theorem wakeBlockedOn (h : Sound me w) (reason : VmBlockReason) {f : VmCpu → VmCpu}
    (hf : ∀ c, (f c).halted = c.halted) (vmId : Nat) :
    Sound me (wakeBlockedOn reason f w vmId).2 := by
  unfold Sched.wakeBlockedOn
  split
  case isFalse => exact h
  case isTrue hlt =>
    generalize (⟨vmId, hlt⟩ : Slot) = id
    dsimp only
    cases hp : w.sched.vms id with
    | none => exact h
    | some p =>
      dsimp only
      split
      case isFalse => exact h
      case isTrue hb =>
        obtain ⟨hme, hh, -⟩ := h.blocked_other hp hb.2
        exact h.wakeSlot hp hme hh hf

theorem halt (h : Sound me w) (vmId : Nat) : Sound me (vmSchedHalt w vmId) := by
  unfold vmSchedHalt
  split
  case isFalse => exact h
  case isTrue hlt =>
    generalize (⟨vmId, hlt⟩ : Slot) = id
    dsimp only
    cases hp : w.sched.vms id with
    | none => exact h
    | some p =>
      refine h.confined hp rfl rfl (fun j hj => ?_) (fun q hq => update_of_ne hq ..) ?_
      · simp [VmSched.drop, hj]
      · constructor
        · simp [VmSched.drop]
        · simp [VmSched.drop]

/-- A scan preserves soundness when its body does nothing but wake the VM it visits. -/
theorem scanBlocked (h : Sound me w) {α : Type} {body : α → World σ → Slot → Ptr → α × World σ}
    (hbody : ∀ acc w i p, (body acc w i p).2 = w ∨
      ∃ a0, (body acc w i p).2 = Sched.wakeSlot w i p (wakeCpu a0)) (acc : α) :
    Sound me (scanBlocked body acc w).2 := by
  -- every slot of the snapshot holds a live VM, and stays so while others are woken
  let Live (w' : World σ) : Prop := w'.sched.vms = w.sched.vms ∧
    ∀ i p, bmTest w.sched.blocked i = true → w.sched.vms i = some p →
      me ≠ some (i, p) ∧ (w'.cpus p).halted = false
  have hlive : Live w := ⟨rfl, fun i p hb hp =>
    ⟨(h.blocked_other hp hb).1, (h.blocked_other hp hb).2.1⟩⟩
  refine (scanBlocked_induct (P := fun w' => Sound me w' ∧ Live w') ?_ ⟨h, hlive⟩ acc).1
  rintro acc w' i p ⟨hw, hl⟩ hb hp
  obtain ⟨hme, hh⟩ := hl.2 i p hb (hl.1 ▸ hp)
  rcases hbody acc w' i p with he | ⟨a0, he⟩
  · exact he.symm ▸ ⟨hw, hl⟩
  · rw [he]
    refine ⟨hw.wakeSlot hp hme hh fun _ => rfl, hl.1, fun j q hbj hq => ⟨(hl.2 j q hbj hq).1, ?_⟩⟩
    show ((w'.onCpu p (wakeCpu a0)).cpus q).halted = false
    by_cases hqp : q = p
    · rw [hqp, onCpu_self]
      exact hh
    · rw [onCpu_ne _ _ hqp]
      exact (hl.2 j q hbj hq).2

theorem wakeFrameConsumed (h : Sound me w) (now : Word) :
    Sound me (vmSchedWakeFrameConsumed w now).2 := by
  refine h.scanBlocked (fun woken w i p => ?_) 0
  dsimp only
  split
  · exact .inr ⟨0, rfl⟩
  · exact .inl rfl

theorem wakeExpired (h : Sound me w) : Sound me (wakeExpiredTimeouts w).2 := by
  refine h.scanBlocked (fun next w' i p => ?_) _
  cases expiry w.sched.globalTick (w'.cpus p) with
  | wake a0 => exact .inr ⟨a0, rfl⟩
  | wait delta => exact .inl rfl
  | event => exact .inl rfl

end Sound

end Microgarbage.Sched
