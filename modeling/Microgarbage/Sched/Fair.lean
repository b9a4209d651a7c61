import Microgarbage.Lib.RoundRobin
import Microgarbage.Sched.Critical
import Microgarbage.Sched.Frame

/-!
# Turns go around

The search for the next VM starts behind the slot that had a turn last. Until a ready slot gets its
turn it is nearer to the search than any slot that had one, so nothing overtakes it.
-/

namespace Microgarbage.Sched

open Lib Vm

variable {σ : Type}

/-- The slot that `vm_sched_step` picks in an event. -/
def picks (s : Sys σ) (e : Event σ) : List Slot :=
  match s.turn, e with
  | none, .enter tick =>
    let sched := (wakeExpiredTimeouts (sampleTick tick s.world)).2.sched
    (findNextReady sched.ready sched.cursor).toList
  | _, _ => []

def ReadyAt (i : Slot) (s : Sys σ) (_ : Event σ) : Prop := bmTest s.world.sched.ready i = true

instance (i : Slot) (s : Sys σ) (e : Event σ) : Decidable (ReadyAt i s e) :=
  inferInstanceAs (Decidable (_ = true))

/-- Where the next search starts. -/
def searchStart (s : Sys σ) : Slot :=
  match s.turn with
  | some t => nextSlot t.vmId
  | none => s.world.sched.cursor

/-! ## One step -/

theorem cursor_call (w : World σ) (c : Call) :
    (c.apply w).sched.cursor = w.sched.cursor := (Kept.call w c).cursor

theorem cursor_wakeExpired (w : World σ) :
    (wakeExpiredTimeouts w).2.sched.cursor = w.sched.cursor :=
  (Kept.wakeExpired (P := fun _ => False) w).cursor

theorem cursor_runIdle (acts : List (Act σ)) (tick : Option Word) (w : World σ) :
    (runIdle acts tick w).sched.cursor = w.sched.cursor := by
  have h := (Kept.perform (wakeExpiredTimeouts w).2 acts).cursor.trans (cursor_wakeExpired w)
  unfold runIdle
  split <;> exact h

theorem ready_wakeExpired {w : World σ} {i : Slot} (h : bmTest w.sched.ready i = true) :
    bmTest (wakeExpiredTimeouts w).2.sched.ready i = true := by
  unfold wakeExpiredTimeouts
  refine scanBlocked_induct (P := fun w' => bmTest w'.sched.ready i = true)
    (fun next w' j q h _ _ => ?_) h _
  split
  · change bmTest (bmSet w'.sched.ready j) i = true
    rw [bmTest_set, h, Bool.or_true]
  · exact h
  · exact h

theorem ready_sampleTick (tick : Option Word) (w : World σ) :
    (sampleTick tick w).sched.ready = w.sched.ready := by
  unfold sampleTick
  split <;> rfl

theorem cursor_sampleTick (tick : Option Word) (w : World σ) :
    (sampleTick tick w).sched.cursor = w.sched.cursor :=
  (Kept.sampleTick (P := fun _ => False) tick w).cursor

/-- A step picks no slot and leaves the search where it is, or it picks the first of the ready slots
and the search goes on behind it. -/
inductive Moves (s s' : Sys σ) (e : Event σ) : Prop where
  | stays (pick : picks s e = []) (start : searchStart s' = searchStart s)
  | picked (c : Slot) (pick : picks s e = [c]) (start : searchStart s' = RoundRobin.next c)
    (first : RoundRobin.First (fun i => i = c ∨ ReadyAt i s e) (searchStart s) c)

theorem moves_enter {w : World σ} {tick : Option Word} {s' : Sys σ}
    (h : step ⟨w, none⟩ (.enter tick) = some s') : Moves ⟨w, none⟩ s' (.enter tick) := by
  have hcur : (wakeExpiredTimeouts (sampleTick tick w)).2.sched.cursor = w.sched.cursor :=
    (cursor_wakeExpired _).trans (cursor_sampleTick tick w)
  have hready : ∀ i, bmTest w.sched.ready i = true →
      bmTest (wakeExpiredTimeouts (sampleTick tick w)).2.sched.ready i = true := fun i hi =>
    ready_wakeExpired ((ready_sampleTick tick w).symm ▸ hi)
  have hpick : picks ⟨w, none⟩ (.enter tick) =
      (findNextReady (wakeExpiredTimeouts (sampleTick tick w)).2.sched.ready
        (wakeExpiredTimeouts (sampleTick tick w)).2.sched.cursor).toList := rfl
  unfold step selectVm at h
  dsimp only at h
  generalize (wakeExpiredTimeouts (sampleTick tick w)).2 = w₁ at h hcur hready hpick
  cases hf : findNextReady w₁.sched.ready w₁.sched.cursor with
  | none =>
    rw [hf] at h hpick
    refine .stays hpick ?_
    split at h
    · next hsel =>
      split at hsel <;> (cases hsel; cases h; exact hcur)
    · next hsel => split at hsel <;> cases hsel
  | some c =>
    have hne : w₁.sched.ready ≠ 0#64 := fun h0 => by
      have hbit := findNextReady_ready hf
      rw [h0, bmTest_zero] at hbit
      cases hbit
    rw [if_neg hne, hf] at h
    rw [hf] at hpick
    have hfirst := RoundRobin.first_of_find? hf
    refine .picked c hpick ?_ ⟨.inl rfl, fun i hi => ?_⟩
    · dsimp only at h
      split at h
      · next hsel =>
        split at hsel <;> cases hsel
        cases h
        rfl
      · next hsel =>
        split at hsel <;> cases hsel
        cases h
        rfl
    · have hle := hfirst.least i
      rw [hcur] at hle
      rcases hi with rfl | hi
      · exact Nat.le_refl _
      · exact hle (hready i hi)

theorem moves {s s' : Sys σ} {e : Event σ} (h : step s e = some s') : Moves s s' e := by
  obtain ⟨w, turn⟩ := s
  cases turn with
  | none =>
    cases e with
    | call c =>
      cases h
      exact .stays rfl (cursor_call w c)
    | enter tick => exact moves_enter h
    | iterate env => cases h
    | idle acts tick =>
      unfold step at h
      dsimp only at h
      split at h
      · cases h
        exact .stays rfl (cursor_runIdle acts tick w)
      · cases h
  | some t =>
    cases e with
    | iterate env =>
      refine .stays rfl ?_
      unfold step at h
      dsimp only at h
      cases hi : turnIteration env t w with
      | mk w₁ next =>
        rw [hi] at h
        cases next with
        | none =>
          cases h
          rfl
        | some t₁ =>
          cases h
          exact congrArg nextSlot (turnIteration_vmId hi)
    | call c => cases h
    | enter tick => cases h
    | idle acts tick => cases h

theorem step_of_picks {s : Sys σ} {e : Event σ} {a : Slot} (h : picks s e = [a]) :
    ∃ s', step s e = some s' := by
  obtain ⟨w, turn⟩ := s
  cases turn with
  | none =>
    cases e with
    | enter tick =>
      unfold step
      dsimp only
      split <;> exact ⟨_, rfl⟩
    | call c => cases h
    | iterate env => cases h
    | idle acts tick => cases h
  | some t => cases e <;> cases h

/-! ## Runs -/

section Runs

variable {s s' : Sys σ} {es : List (Event σ)} {a b : Slot}

theorem not_overtaken (hrun : run step s es = some s') (hb : Meets step (ReadyAt b) s es)
    (hnot : b ∉ trace step picks s es)
    (hlt : RoundRobin.dist (searchStart s) b < RoundRobin.dist (searchStart s) a) :
    a ∉ trace step picks s es ∧
      RoundRobin.dist (searchStart s') b < RoundRobin.dist (searchStart s') a := by
  induction es generalizing s with
  | nil =>
    cases hrun
    exact ⟨List.not_mem_nil, hlt⟩
  | cons e es ih =>
    rw [run_cons, Option.bind_eq_some_iff] at hrun
    obtain ⟨s₁, h₁, hrest⟩ := hrun
    rw [trace_cons h₁, List.mem_append, not_or] at hnot ⊢
    have hgo := fun hnear => ih hrest (hb.2 s₁ h₁) hnot.2 hnear
    cases moves h₁ with
    | stays pick start =>
      obtain ⟨hrest', hend⟩ := hgo (by rw [start]; exact hlt)
      exact ⟨⟨by rw [pick]; exact List.not_mem_nil, hrest'⟩, hend⟩
    | picked c pick start first =>
      rw [pick] at hnot ⊢
      have hcb : c ≠ b := fun he => hnot.1 (he ▸ List.mem_singleton_self c)
      obtain ⟨hca, hnear⟩ := first.next_lt (.inr hb.1) hcb hlt
      obtain ⟨hrest', hend⟩ := hgo (by rw [start]; exact hnear)
      exact ⟨⟨fun hm => hca (List.mem_singleton.mp hm).symm, hrest'⟩, hend⟩

theorem count_le_one (hab : a ≠ b) (hrun : run step s es = some s')
    (ha : Meets step (ReadyAt a) s es) (hnot : a ∉ trace step picks s es) :
    (trace step picks s es).count b ≤ 1 := by
  induction es generalizing s with
  | nil => exact Nat.zero_le 1
  | cons e es ih =>
    rw [run_cons, Option.bind_eq_some_iff] at hrun
    obtain ⟨s₁, h₁, hrest⟩ := hrun
    rw [trace_cons h₁, List.mem_append, not_or] at hnot
    rw [trace_cons h₁, List.count_append]
    cases moves h₁ with
    | stays pick start =>
      rw [pick, List.count_nil, Nat.zero_add]
      exact ih hrest (ha.2 s₁ h₁) hnot.2
    | picked c pick start first =>
      rw [pick]
      by_cases hcb : c = b
      · subst hcb
        have hnone := (not_overtaken (a := c) hrest (ha.2 s₁ h₁) hnot.2
          (by rw [start]; exact RoundRobin.dist_next_lt hab)).1
        rw [List.count_singleton_self, List.count_eq_zero_of_not_mem hnone]
      · rw [List.count_singleton, if_neg (by simpa using hcb), Nat.zero_add]
        exact ih hrest (ha.2 s₁ h₁) hnot.2

end Runs

/-- Between two consecutive turns of slot `a`, every other slot that stays ready has a turn, and
exactly one if `a` stays ready too. -/
theorem turn_between {s s₁ s₂ : Sys σ} {e f : Event σ} {es : List (Event σ)} {a b : Slot}
    (hab : b ≠ a) (hs : step s e = some s₁) (he : picks s e = [a])
    (hrun : run step s₁ es = some s₂) (hnot : a ∉ trace step picks s₁ es) (hf : picks s₂ f = [a])
    (hb : Meets step (ReadyAt b) s₁ es) (hbf : ReadyAt b s₂ f) :
    1 ≤ (trace step picks s₁ es).count b ∧
      (Meets step (ReadyAt a) s₁ es → (trace step picks s₁ es).count b = 1) := by
  have hmem : b ∈ trace step picks s₁ es := by
    by_contra hmiss
    have hstart : searchStart s₁ = RoundRobin.next a := by
      cases moves hs with
      | stays pick start =>
        rw [he] at pick
        cases pick
      | picked c pick start first =>
        rw [he] at pick
        cases pick
        exact start
    have hlt := (not_overtaken (a := a) hrun hb hmiss
      (by rw [hstart]; exact RoundRobin.dist_next_lt hab)).2
    -- `b` is nearer when `a` is picked again
    obtain ⟨s₃, h₃⟩ := step_of_picks hf
    cases moves h₃ with
    | stays pick start =>
      rw [hf] at pick
      cases pick
    | picked c pick start first =>
      rw [hf] at pick
      cases pick
      exact Nat.not_lt.mpr (first.least b (.inr hbf)) hlt
  have hone := List.one_le_count_iff.mpr hmem
  exact ⟨hone, fun ha => Nat.le_antisymm (count_le_one hab.symm hrun ha hnot) hone⟩

def sleeperSlot : Slot := ⟨0, slot_zero_lt⟩

def looperSlot : Slot := ⟨1, by decide⟩

/-- Slot 0 makes a call and then loops, slot 1 only loops; a quantum is one instruction. -/
def loopers (num ticks : Word) : Sys Unit :=
  let cpus : Ptr → VmCpu := fun p =>
    if p = 0 then (callerCpu num).setReg regA0 ticks else { callerCpu num with pc := 4 }
  let s : Sys Unit := .init ⟨1, 0⟩ cpus
    (flatMachine [0x73, 0x00, 0x00, 0x00, 0x6F, 0x00, 0x00, 0x00]).mem ()
  ⟨(Call.register (some 1)).apply ((Call.register (some 0)).apply s.world), none⟩

/-- Every call is served by `SYS_SLEEP_TICKS`, at the given tick. -/
def sleepEnv (tick : Word) : Env Unit :=
  ⟨some tick, some { VmEcallRouter.init with fallback := some handleSleepTicks },
    fun _ _ => ([], .terminate)⟩

theorem turn_between_loopers :
    ∃ s₁ s₂, step (loopers 0 2) (.enter (some 0)) = some s₁ ∧
      run step s₁ [.iterate (sleepEnv 0), .enter (some 2), .iterate (sleepEnv 2)] = some s₂ ∧
      1 ≤ (trace step picks s₁
        [.iterate (sleepEnv 0), .enter (some 2), .iterate (sleepEnv 2)]).count looperSlot :=
  ⟨_, _, rfl, rfl, (turn_between (s := loopers 0 2) (e := .enter (some 0)) (f := .enter (some 2))
    (a := sleeperSlot) (by decide) rfl (by decide) rfl (by decide) (by decide) (by decide)
    (by decide)).1⟩

/-- While slot 0 sleeps, slot 1 has two turns. -/
theorem turn_between_sleeper :
    ∃ s₁ s₂, step (loopers 0 2) (.enter (some 0)) = some s₁ ∧
      picks (loopers 0 2) (.enter (some 0)) = [sleeperSlot] ∧
      run step s₁ [.iterate (sleepEnv 0), .enter (some 0), .iterate (sleepEnv 0), .enter (some 1),
        .iterate (sleepEnv 1)] = some s₂ ∧
      trace step picks s₁ [.iterate (sleepEnv 0), .enter (some 0), .iterate (sleepEnv 0),
        .enter (some 1), .iterate (sleepEnv 1)] = [looperSlot, looperSlot] ∧
      picks s₂ (.enter (some 2)) = [sleeperSlot] ∧
      Meets step (ReadyAt looperSlot) s₁ [.iterate (sleepEnv 0), .enter (some 0),
        .iterate (sleepEnv 0), .enter (some 1), .iterate (sleepEnv 1), .enter (some 2)] :=
  ⟨_, _, rfl, by decide, rfl, by decide, by decide, by decide⟩

end Microgarbage.Sched
