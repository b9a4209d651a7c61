import Mathlib.Algebra.Order.Ring.Int
import Mathlib.Data.List.Flatten
import Mathlib.Data.List.Nodup
import Mathlib.Logic.Function.Basic
import Mathlib.Tactic.Linarith

/-!
# Butterflies in place

A transform that works in place goes through its places in stages. In a stage every place takes part
in one step, together with a partner. What a step makes of two good values is good for the next
stage, so the values stay good as long as no place is used twice in a stage. The second part bounds
the magnitude of integer pairs under sums, products and shifts.
-/

namespace Microgarbage.Lib

open List

/-! ## Steps -/

/-- Two places and the factor of their step. -/
structure PairStep where
  a : Nat
  b : Nat
  w : Nat

section Steps

variable {α : Type*} (f : Nat → α → α → α × α)

def PairStep.apply (s : Nat → α) (st : PairStep) : Nat → α :=
  let (x, y) := f st.w (s st.a) (s st.b)
  Function.update (Function.update s st.a x) st.b y

def runSteps (s : Nat → α) (steps : List PairStep) : Nat → α := steps.foldl (PairStep.apply f) s

/-- The places of some steps, in order. -/
def touched (steps : List PairStep) : List Nat := steps.flatMap fun st => [st.a, st.b]

variable {f} {s : Nat → α} {steps steps' : List PairStep}

theorem runSteps_append : runSteps f s (steps ++ steps') = runSteps f (runSteps f s steps) steps' :=
  foldl_append

theorem touched_append : touched (steps ++ steps') = touched steps ++ touched steps' :=
  flatMap_append

/-- Steps without a common place make good values of good values and leave the others alone. -/
theorem runSteps_spec {P Q : α → Prop}
    (hf : ∀ st ∈ steps, ∀ u v, P u → P v → Q (f st.w u v).1 ∧ Q (f st.w u v).2)
    (hnodup : (touched steps).Nodup) (hP : ∀ x ∈ touched steps, P (s x)) :
    (∀ x ∈ touched steps, Q (runSteps f s steps x)) ∧
      ∀ x, x ∉ touched steps → runSteps f s steps x = s x := by
  induction steps generalizing s with
  | nil => exact ⟨fun x hx => absurd hx not_mem_nil, fun x _ => rfl⟩
  | cons st steps ih =>
    have htouched : touched (st :: steps) = st.a :: st.b :: touched steps := rfl
    rw [htouched, nodup_cons, nodup_cons, mem_cons] at hnodup
    obtain ⟨ha, hb, hrest⟩ := hnodup
    rw [not_or] at ha
    rw [htouched, forall_mem_cons, forall_mem_cons] at hP
    obtain ⟨hQa, hQb⟩ := hf st mem_cons_self _ _ hP.1 hP.2.1
    have hkeep : ∀ x, x ≠ st.a → x ≠ st.b → PairStep.apply f s st x = s x := by
      intro x hxa hxb
      exact (Function.update_of_ne hxb ..).trans (Function.update_of_ne hxa ..)
    have hstep : ∀ x ∈ touched steps, P (PairStep.apply f s st x) := by
      intro x hx
      rw [hkeep x (fun h => ha.2 (h ▸ hx)) fun h => hb (h ▸ hx)]
      exact hP.2.2 x hx
    obtain ⟨hgood, hsame⟩ := ih (fun st' hst' => hf st' (mem_cons_of_mem _ hst')) hrest hstep
    change (∀ x ∈ touched (st :: steps), Q (runSteps f (PairStep.apply f s st) steps x)) ∧ _
    rw [htouched, forall_mem_cons, forall_mem_cons]
    refine ⟨⟨?_, ?_, hgood⟩, fun x hx => ?_⟩
    · rw [hsame st.a ha.2]
      have hval : PairStep.apply f s st st.a = (f st.w (s st.a) (s st.b)).1 :=
        (Function.update_of_ne ha.1 ..).trans (Function.update_self ..)
      rwa [hval]
    · rw [hsame st.b hb]
      have hval : PairStep.apply f s st st.b = (f st.w (s st.a) (s st.b)).2 :=
        Function.update_self ..
      rwa [hval]
    · rw [mem_cons, mem_cons, not_or, not_or] at hx
      exact (hsame x hx.2.2).trans (hkeep x hx.1 hx.2.1)

end Steps

/-! ## Stages -/

/-- The places of a group from `base` on: each with the one `half` places further. -/
def groupSteps (half stride base : Nat) : List PairStep :=
  (List.range half).map fun k => ⟨base + k, base + k + half, k * stride⟩

/-- A stage: groups of `2 * half` places. -/
def stageSteps (half groups stride : Nat) : List PairStep :=
  (List.range groups).flatMap fun j => groupSteps half stride (j * (2 * half))

section Stages

variable {half groups stride base x : Nat}

theorem mem_touched_group :
    x ∈ touched (groupSteps half stride base) ↔ base ≤ x ∧ x < base + 2 * half := by
  unfold touched groupSteps
  rw [flatMap_map, mem_flatMap]
  simp only [mem_range, mem_cons, not_mem_nil, or_false]
  constructor
  · rintro ⟨k, hk, hx⟩
    omega
  · rintro ⟨hle, hlt⟩
    by_cases hlow : x < base + half
    · exact ⟨x - base, by omega, .inl (by omega)⟩
    · exact ⟨x - base - half, by omega, .inr (by omega)⟩

theorem nodup_touched_group : (touched (groupSteps half stride base)).Nodup := by
  unfold touched groupSteps
  rw [flatMap_map, nodup_flatMap]
  refine ⟨fun k hk => ?_, ?_⟩
  · have := mem_range.mp hk
    simp
    omega
  · refine pairwise_lt_range.imp_of_mem fun {k k'} hk hk' hlt => ?_
    rw [mem_range] at hk hk'
    intro x hx hx'
    simp only [mem_cons, not_mem_nil, or_false] at hx hx'
    omega

theorem touched_stage : touched (stageSteps half groups stride) =
    (List.range groups).flatMap fun j => touched (groupSteps half stride (j * (2 * half))) :=
  flatMap_assoc

theorem mem_touched_stage (hhalf : 0 < half) :
    x ∈ touched (stageSteps half groups stride) ↔ x < groups * (2 * half) := by
  rw [touched_stage, mem_flatMap]
  simp only [mem_range, mem_touched_group]
  constructor
  · rintro ⟨j, hj, -, hlt⟩
    have := Nat.mul_le_mul_right (2 * half) hj
    rw [Nat.succ_mul] at this
    omega
  · intro hx
    refine ⟨x / (2 * half), (Nat.div_lt_iff_lt_mul (by omega)).mpr hx, Nat.div_mul_le_self .., ?_⟩
    have hmod := Nat.mod_lt x (by omega : 0 < 2 * half)
    have hdiv := Nat.div_add_mod x (2 * half)
    rw [Nat.mul_comm] at hdiv
    omega

theorem nodup_touched_stage : (touched (stageSteps half groups stride)).Nodup := by
  rw [touched_stage, nodup_flatMap]
  refine ⟨fun j _ => nodup_touched_group, pairwise_lt_range.imp fun {j j'} hlt => ?_⟩
  intro x hx hx'
  rw [mem_touched_group] at hx hx'
  have := Nat.mul_le_mul_right (2 * half) hlt
  rw [Nat.succ_mul] at this
  omega

end Stages

/-! ## Magnitudes -/

/-- An integer pair of at most a magnitude. -/
structure Within (z : Int × Int) (B : Int) : Prop where
  nonneg : 0 ≤ B
  le : z.1 * z.1 + z.2 * z.2 ≤ B * B

section Magnitude

variable {u v : Int × Int} {A B C : Int}

theorem Within.mono (h : Within u A) (hAB : A ≤ B) : Within u B :=
  ⟨h.nonneg.trans hAB, h.le.trans (mul_self_le_mul_self h.nonneg hAB)⟩

theorem Within.neg (h : Within u A) : Within (-u.1, -u.2) A :=
  ⟨h.nonneg, by simpa using h.le⟩

theorem Within.inner_le (hu : Within u A) (hv : Within v B) : u.1 * v.1 + u.2 * v.2 ≤ A * B := by
  by_contra hlt
  have hpos : 0 ≤ A * B := mul_nonneg hu.nonneg hv.nonneg
  have hsq : (A * B) * (A * B) < (u.1 * v.1 + u.2 * v.2) * (u.1 * v.1 + u.2 * v.2) :=
    mul_self_lt_mul_self hpos (by omega)
  have hprod : (u.1 * u.1 + u.2 * u.2) * (v.1 * v.1 + v.2 * v.2) ≤ (A * A) * (B * B) :=
    mul_le_mul hu.le hv.le (add_nonneg (mul_self_nonneg _) (mul_self_nonneg _))
      (mul_self_nonneg A)
  have hcross : 0 ≤ (u.1 * v.2 - u.2 * v.1) * (u.1 * v.2 - u.2 * v.1) := mul_self_nonneg _
  nlinarith only [hsq, hprod, hcross]

theorem Within.add (hu : Within u A) (hv : Within v B) :
    Within (u.1 + v.1, u.2 + v.2) (A + B) := by
  have hinner := hu.inner_le hv
  have hule := hu.le
  have hvle := hv.le
  refine ⟨add_nonneg hu.nonneg hv.nonneg, ?_⟩
  dsimp only
  nlinarith only [hinner, hule, hvle]

theorem Within.sub (hu : Within u A) (hv : Within v B) :
    Within (u.1 - v.1, u.2 - v.2) (A + B) := hu.add hv.neg

theorem Within.mul (hu : Within u A) (hv : Within v B) :
    Within (u.1 * v.1 - u.2 * v.2, u.1 * v.2 + u.2 * v.1) (A * B) := by
  refine ⟨mul_nonneg hu.nonneg hv.nonneg, ?_⟩
  have hprod : (u.1 * u.1 + u.2 * u.2) * (v.1 * v.1 + v.2 * v.2) ≤ (A * A) * (B * B) :=
    mul_le_mul hu.le hv.le (add_nonneg (mul_self_nonneg _) (mul_self_nonneg _))
      (mul_self_nonneg A)
  dsimp only
  nlinarith only [hprod]

theorem Within.shift (hu : Within u A) (k : Nat) (hC : A + 2 * 2 ^ k ≤ 2 ^ k * C) :
    Within (u.1 >>> k, u.2 >>> k) C := by
  have hpow : (0 : Int) < 2 ^ k := by positivity
  rw [Int.shiftRight_eq_div_pow, Int.shiftRight_eq_div_pow, Nat.cast_pow, Nat.cast_ofNat]
  generalize (2 : Int) ^ k = p at hpow hC ⊢
  have hrest : Within (u.1 % p, u.2 % p) (2 * p) := by
    have h₁ := mul_self_le_mul_self (Int.emod_nonneg u.1 hpow.ne') (Int.emod_lt_of_pos u.1 hpow).le
    have h₂ := mul_self_le_mul_self (Int.emod_nonneg u.2 hpow.ne') (Int.emod_lt_of_pos u.2 hpow).le
    refine ⟨by omega, ?_⟩
    dsimp only
    nlinarith only [h₁, h₂, mul_self_nonneg p]
  have hexact := (hu.sub hrest).mono hC
  have hquot : ∀ x : Int, x - x % p = p * (x / p) := fun x => by
    have := Int.emod_add_mul_ediv x p
    omega
  rw [hquot, hquot] at hexact
  have hC' : 0 ≤ C := by
    by_contra hneg
    have := mul_neg_of_pos_of_neg hpow (by omega : C < 0)
    have := hexact.nonneg
    omega
  refine ⟨hC', le_of_mul_le_mul_left ?_ (mul_pos hpow hpow)⟩
  have hle := hexact.le
  dsimp only at hle ⊢
  linarith only [hle]

theorem Within.part (hu : Within u A) : -A ≤ u.1 ∧ u.1 ≤ A ∧ -A ≤ u.2 ∧ u.2 ≤ A := by
  have h := hu.le
  have hA := hu.nonneg
  refine ⟨?_, ?_, ?_, ?_⟩
  all_goals
    by_contra hlt
    nlinarith only [h, hA, hlt, mul_self_nonneg u.1, mul_self_nonneg u.2]

end Magnitude

end Microgarbage.Lib
