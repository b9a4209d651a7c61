import Mathlib.Data.List.Induction

/-!
# Runs of event-driven machines

A machine is a partial step function: `step s e` is the state after event `e`, or `none` when `e`
cannot happen in `s`. This file has the finite runs of such a machine, the induction rule for
invariants of runs whose steps meet a side condition, and the same rule for what a run lets an
observer see.
-/

namespace Microgarbage.Lib

/-- A guarded step that is taken meets its guard. -/
theorem enabled {σ : Type*} {c : Prop} [Decidable c] {o : Option σ} {s : σ}
    (h : (if c then o else none) = some s) : c ∧ o = some s :=
  Option.ite_none_right_eq_some.mp h

section Runs

variable {σ ε : Type*} (step : σ → ε → Option σ)

def run : σ → List ε → Option σ
  | s, [] => some s
  | s, e :: es => (step s e).bind fun s' => run s' es

@[simp] theorem run_nil (s : σ) : run step s [] = some s := rfl

@[simp] theorem run_cons (s : σ) (e : ε) (es : List ε) :
    run step s (e :: es) = (step s e).bind fun s' => run step s' es := rfl

theorem run_append (s : σ) (es fs : List ε) :
    run step s (es ++ fs) = (run step s es).bind fun s' => run step s' fs := by
  induction es generalizing s with
  | nil => rfl
  | cons e es ih =>
    rw [List.cons_append, run_cons, run_cons]
    cases step s e with
    | none => rfl
    | some s' => exact ih s'

/-- Every step of the run of `es` from `s` meets `Ok`. -/
def Meets (Ok : σ → ε → Prop) : σ → List ε → Prop
  | _, [] => True
  | s, e :: es => Ok s e ∧ ∀ s', step s e = some s' → Meets Ok s' es

variable {step}

theorem Meets.of_forall {Ok : σ → ε → Prop} (h : ∀ s e, Ok s e) (s : σ) (es : List ε) :
    Meets step Ok s es := by
  induction es generalizing s with
  | nil => exact trivial
  | cons e es ih => exact ⟨h s e, fun s' _ => ih s'⟩

theorem Meets.cons {Ok : σ → ε → Prop} {s s₁ : σ} {e : ε} {es : List ε} (h : Ok s e)
    (hs : step s e = some s₁) (hes : Meets step Ok s₁ es) : Meets step Ok s (e :: es) := by
  refine ⟨h, fun s' hs' => ?_⟩
  rw [hs, Option.some.injEq] at hs'
  exact hs' ▸ hes

theorem Meets.append {Ok : σ → ε → Prop} {s : σ} {es fs : List ε} (h : Meets step Ok s es)
    (h' : ∀ s', run step s es = some s' → Meets step Ok s' fs) : Meets step Ok s (es ++ fs) := by
  induction es generalizing s with
  | nil => exact h' s rfl
  | cons e es ih =>
    refine ⟨h.1, fun s₁ hs₁ => ih (h.2 s₁ hs₁) fun s' hs' => h' s' ?_⟩
    rw [run_cons, hs₁]
    exact hs'

theorem Meets.and {Ok P : σ → ε → Prop} {s : σ} {es : List ε} (h : Meets step Ok s es)
    (h' : Meets step P s es) : Meets step (fun s e => Ok s e ∧ P s e) s es := by
  induction es generalizing s with
  | nil => exact trivial
  | cons e es ih => exact ⟨⟨h.1, h'.1⟩, fun s₁ h₁ => ih (h.2 s₁ h₁) (h'.2 s₁ h₁)⟩

theorem Meets.of_mem {Ok : ε → Prop} {es : List ε} (h : ∀ e ∈ es, Ok e) (s : σ) :
    Meets step (fun _ => Ok) s es := by
  induction es generalizing s with
  | nil => exact trivial
  | cons e es ih =>
    exact ⟨h e (List.mem_cons_self ..), fun s' _ => ih (fun f hf => h f (List.mem_cons_of_mem _ hf)) s'⟩

/-- A concrete run can be checked step by step. -/
instance Meets.decidable {Ok : σ → ε → Prop} [∀ s e, Decidable (Ok s e)] :
    ∀ s es, Decidable (Meets step Ok s es)
  | _, [] => isTrue trivial
  | s, e :: es =>
    match h : step s e with
    | none => decidable_of_iff (Ok s e) (by simp [Meets, h])
    | some s' =>
      have : Decidable (Meets step Ok s' es) := Meets.decidable s' es
      decidable_of_iff (Ok s e ∧ Meets step Ok s' es) (by simp [Meets, h])

/-- What each step preserves under the side condition, a whole run preserves. -/
theorem run_invariant {Inv : σ → Prop} {Ok : σ → ε → Prop}
    (hstep : ∀ s e s', Inv s → Ok s e → step s e = some s' → Inv s')
    {es : List ε} {s s' : σ} (hs : Inv s) (hok : Meets step Ok s es)
    (hrun : run step s es = some s') : Inv s' := by
  induction es generalizing s with
  | nil =>
    rw [run_nil, Option.some.injEq] at hrun
    exact hrun ▸ hs
  | cons e es ih =>
    rw [run_cons, Option.bind_eq_some_iff] at hrun
    obtain ⟨s₁, h₁, hrest⟩ := hrun
    exact ih (hstep s e s₁ hs hok.1 h₁) (hok.2 s₁ h₁) hrest

/-- A property that each good step keeps and each bad one destroys holds all along a run exactly when
the run has no bad step. -/
theorem run_always_iff {Inv P : σ → Prop} {Ok : ε → Prop} {Bad : σ → ε → Prop}
    (hinv : ∀ s e s', Inv s → Ok e → step s e = some s' → Inv s')
    (hstep : ∀ s e s', Inv s → Ok e → P s → step s e = some s' → (P s' ↔ ¬Bad s e))
    {s : σ} (hs : Inv s) (hp : P s) {es : List ε} (hes : ∀ e ∈ es, Ok e) :
    (∀ fs s', fs <+: es → run step s fs = some s' → P s') ↔
      ∀ fs e s₁ s₂, fs ++ [e] <+: es → run step s fs = some s₁ → step s₁ e = some s₂ →
        ¬Bad s₁ e := by
  have hlast : ∀ {fs e s'}, run step s (fs ++ [e]) = some s' ↔
      ∃ s₁, run step s fs = some s₁ ∧ step s₁ e = some s' := by
    intro fs e s'
    rw [run_append, Option.bind_eq_some_iff]
    simp
  have hall : ∀ fs s', fs <+: es → run step s fs = some s' → Inv s' := by
    intro fs s' hpre hrun
    have hmem : Meets step (fun _ => Ok) s fs := .of_mem (fun e he => hes e (hpre.subset he)) s
    exact run_invariant hinv hs hmem hrun
  have hbefore : ∀ {fs : List ε} {e}, fs ++ [e] <+: es → fs <+: es ∧ Ok e := fun hpre =>
    ⟨(List.prefix_append ..).trans hpre, hes _ (hpre.subset (by simp))⟩
  constructor
  · intro h fs e s₁ s₂ hpre hrun he
    obtain ⟨hfs, hok⟩ := hbefore hpre
    have hafter := h _ s₂ hpre (hlast.mpr ⟨s₁, hrun, he⟩)
    exact (hstep s₁ e s₂ (hall fs s₁ hfs hrun) hok (h fs s₁ hfs hrun) he).mp hafter
  · intro h fs
    induction fs using List.reverseRecOn with
    | nil =>
      intro s' _ hrun
      rw [run_nil, Option.some.injEq] at hrun
      exact hrun ▸ hp
    | append_singleton fs e ih =>
      intro s' hpre hrun
      obtain ⟨s₁, hrun₁, he⟩ := hlast.mp hrun
      obtain ⟨hfs, hok⟩ := hbefore hpre
      exact (hstep s₁ e s' (hall fs s₁ hfs hrun₁) hok (ih s₁ hfs hrun₁) he).mpr
        (h fs e s₁ s' hpre hrun₁ he)

/-- What holds of each step that meets the side condition from an invariant state holds along the
run. -/
theorem Meets.of_invariant {Inv : σ → Prop} {Ok P : σ → ε → Prop}
    (hstep : ∀ s e s', Inv s → Ok s e → step s e = some s' → Inv s')
    (hp : ∀ s e, Inv s → Ok s e → P s e) {es : List ε} {s : σ} (hs : Inv s)
    (hok : Meets step Ok s es) : Meets step P s es := by
  induction es generalizing s with
  | nil => exact trivial
  | cons e es ih =>
    exact ⟨hp s e hs hok.1, fun s₁ h₁ => ih (hstep s e s₁ hs hok.1 h₁) (hok.2 s₁ h₁)⟩

theorem run_total (f : σ → ε → σ) (s : σ) (es : List ε) :
    run (fun s e => some (f s e)) s es = some (es.foldl f s) := by
  induction es generalizing s with
  | nil => rfl
  | cons e es ih => exact ih (f s e)

/-- Induction over a fold; the property also knows what has been folded in. -/
theorem foldl_visits {f : σ → ε → σ} {P : List ε → σ → Prop} {s : σ} (h0 : P [] s)
    (hstep : ∀ done e s, e ∉ done → P done s → P (done ++ [e]) (f s e)) {l : List ε}
    (hl : l.Nodup) : P l (l.foldl f s) := by
  induction l using List.reverseRecOn with
  | nil => exact h0
  | append_singleton l e ih =>
    rw [List.nodup_append] at hl
    rw [List.foldl_append]
    exact hstep l e _ (fun hm => hl.2.2 e hm e (List.mem_singleton_self e) rfl) (ih hl.1)

theorem foldl_range_invariant {f : σ → Nat → σ} {P : Nat → σ → Prop} {s : σ} (h0 : P 0 s) {n : Nat}
    (hstep : ∀ k s, k < n → P k s → P (k + 1) (f s k)) : P n ((List.range n).foldl f s) := by
  induction n with
  | zero => exact h0
  | succ n ih =>
    rw [List.range_succ, List.foldl_append]
    exact hstep n _ (Nat.lt_succ_self n) (ih fun k s hk => hstep k s (Nat.lt_succ_of_lt hk))

end Runs

section Traces

variable {σ ε ω μ : Type*} (step : σ → ε → Option σ) (obs : σ → ε → List ω)

/-- What an observer sees of a run, up to the first event that cannot happen. -/
def trace : σ → List ε → List ω
  | _, [] => []
  | s, e :: es =>
    match step s e with
    | none => []
    | some s' => obs s e ++ trace s' es

variable {step obs}

theorem trace_cons {s s' : σ} {e : ε} (h : step s e = some s') (es : List ε) :
    trace step obs s (e :: es) = obs s e ++ trace step obs s' es := by
  conv_lhs => unfold trace
  rw [h]

theorem trace_append {s s' : σ} {es : List ε} (h : run step s es = some s') (fs : List ε) :
    trace step obs s (es ++ fs) = trace step obs s es ++ trace step obs s' fs := by
  induction es generalizing s with
  | nil =>
    cases h
    rfl
  | cons e es ih =>
    rw [run_cons, Option.bind_eq_some_iff] at h
    obtain ⟨s₁, h₁, hrest⟩ := h
    rw [List.cons_append, trace_cons h₁, trace_cons h₁, ih hrest, List.append_assoc]

theorem exists_step_of_mem_trace {s : σ} {es : List ε} {x : ω} (h : x ∈ trace step obs s es) :
    ∃ fs e s₁ s₂, fs ++ [e] <+: es ∧ run step s fs = some s₁ ∧ step s₁ e = some s₂ ∧
      x ∈ obs s₁ e := by
  induction es generalizing s with
  | nil => cases h
  | cons e es ih =>
    cases he : step s e with
    | none =>
      unfold trace at h
      rw [he] at h
      cases h
    | some s' =>
      rw [trace_cons he, List.mem_append] at h
      rcases h with hx | hx
      · exact ⟨[], e, s, s', ⟨es, rfl⟩, rfl, he, hx⟩
      · obtain ⟨fs, f, s₁, s₂, ⟨gs, hgs⟩, hrun, hstep, hobs⟩ := ih hx
        refine ⟨e :: fs, f, s₁, s₂, ⟨gs, congrArg (e :: ·) hgs⟩, ?_, hstep, hobs⟩
        rw [run_cons, he]
        exact hrun

/-- A monitor that follows each step from a related state follows the trace of every run. -/
theorem trace_accepted {mon : μ → ω → Option μ} {R : σ → μ → Prop} {Ok : σ → ε → Prop}
    (hstep : ∀ s q e s', R s q → Ok s e → step s e = some s' →
      ∃ q', run mon q (obs s e) = some q' ∧ R s' q')
    {es : List ε} {s : σ} {q : μ} (hr : R s q) (hok : Meets step Ok s es) :
    ∃ q', run mon q (trace step obs s es) = some q' := by
  induction es generalizing s q with
  | nil => exact ⟨q, rfl⟩
  | cons e es ih =>
    unfold trace
    cases he : step s e with
    | none => exact ⟨q, rfl⟩
    | some s₁ =>
      obtain ⟨q₁, hq₁, hr₁⟩ := hstep s q e s₁ hr hok.1 he
      obtain ⟨q₂, hq₂⟩ := ih hr₁ (hok.2 s₁ he)
      refine ⟨q₂, ?_⟩
      rw [run_append, hq₁]
      exact hq₂

/-- An account of the observations that each step keeps is right at the end of a run. -/
theorem trace_invariant {Q : σ → List ω → Prop} {Ok : σ → ε → Prop}
    (hstep : ∀ s l e s', Q s l → Ok s e → step s e = some s' → Q s' (l ++ obs s e))
    {es : List ε} {s s' : σ} {l : List ω} (hs : Q s l) (hok : Meets step Ok s es)
    (hrun : run step s es = some s') : Q s' (l ++ trace step obs s es) := by
  induction es generalizing s l with
  | nil =>
    rw [run_nil, Option.some.injEq] at hrun
    unfold trace
    rw [List.append_nil]
    exact hrun ▸ hs
  | cons e es ih =>
    rw [run_cons, Option.bind_eq_some_iff] at hrun
    obtain ⟨s₁, h₁, hrest⟩ := hrun
    rw [trace_cons h₁, ← List.append_assoc]
    exact ih (hstep s l e s₁ hs hok.1 h₁) (hok.2 s₁ h₁) hrest

end Traces

end Microgarbage.Lib
