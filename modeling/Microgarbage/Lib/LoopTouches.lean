import Mathlib.Data.List.GetD

/-!
# What a loop touches

A loop is a fold of its body; every turn touches something, depending on the state that it starts
from. Whether everything a loop touches is in order is decided turn by turn, as long as the state
that the turns before leave is known.
-/

namespace Microgarbage.Lib

open List

variable {σ α τ : Type*}

/-- What the turns of a loop touch, one after the other. -/
def loopTouches (body : σ → α → σ) (touch : σ → α → List τ) : σ → List α → List τ
  | _, [] => []
  | s, x :: xs => touch s x ++ loopTouches body touch (body s x) xs

variable {body : σ → α → σ} {touch : σ → α → List τ} {Ok : τ → Prop}

theorem forall_append_cons {P : List α → α → Prop} {x : α} {xs : List α} :
    (∀ l y r, x :: xs = l ++ y :: r → P l y) ↔
      P [] x ∧ ∀ l y r, xs = l ++ y :: r → P (x :: l) y := by
  constructor
  · intro h
    exact ⟨h [] x xs rfl, fun l y r hxs => h (x :: l) y r (by rw [hxs, cons_append])⟩
  · rintro ⟨hx, h⟩ l y r hxs
    cases l with
    | nil =>
      obtain ⟨rfl, -⟩ := List.cons.inj hxs
      exact hx
    | cons z l =>
      obtain ⟨rfl, hrest⟩ := List.cons.inj hxs
      exact h l y r hrest

theorem forall_append_cons_iff {P : Nat → α → Prop} {xs : List α} (d : α) :
    (∀ l y r, xs = l ++ y :: r → P l.length y) ↔ ∀ i < xs.length, P i (xs.getD i d) := by
  constructor
  · intro h i hi
    rw [getD_eq_getElem _ _ hi]
    have hsplit := h (xs.take i) xs[i] (xs.drop (i + 1)) (by
      rw [getElem_cons_drop, take_append_drop])
    rwa [length_take_of_le (Nat.le_of_lt hi)] at hsplit
  · rintro h l y r rfl
    have hy := h l.length (by rw [length_append, length_cons]; omega)
    rwa [getD_append_right _ _ _ _ (Nat.le_refl _), Nat.sub_self, getD_cons_zero] at hy

theorem foldl_agree (Agree : List α → σ → Prop) (Cond : List α → α → Prop) {xs : List α}
    (hbody : ∀ l s, ∀ x ∈ xs, Agree l s → Cond l x → Agree (l ++ [x]) (body s x)) {l : List α}
    {s : σ} (h : Agree l s) (hcond : ∀ k x r, xs = k ++ x :: r → Cond (l ++ k) x) :
    Agree (l ++ xs) (xs.foldl body s) := by
  induction xs generalizing l s with
  | nil => rwa [append_nil]
  | cons x xs ih =>
    obtain ⟨hx, hxs⟩ := forall_append_cons.mp hcond
    rw [append_nil] at hx
    rw [foldl_cons, append_cons]
    refine ih (fun l s y hy => hbody l s y (mem_cons_of_mem _ hy))
      (hbody l s x mem_cons_self h hx) fun k y r hr => ?_
    rw [append_assoc]
    exact hxs k y r hr

/-- A loop is in order when every turn meets its condition, and only then. -/
theorem loopTouches_iff (Agree : List α → σ → Prop) (Cond : List α → α → Prop) {xs : List α}
    (htouch : ∀ l s, ∀ x ∈ xs, Agree l s → ((∀ t ∈ touch s x, Ok t) ↔ Cond l x))
    (hbody : ∀ l s, ∀ x ∈ xs, Agree l s → Cond l x → Agree (l ++ [x]) (body s x)) {l : List α}
    {s : σ} (h : Agree l s) :
    (∀ t ∈ loopTouches body touch s xs, Ok t) ↔ ∀ k x r, xs = k ++ x :: r → Cond (l ++ k) x := by
  induction xs generalizing l s with
  | nil => simp [loopTouches]
  | cons x xs ih =>
    rw [loopTouches, forall_mem_append, forall_append_cons, append_nil,
      htouch l s x mem_cons_self h]
    refine and_congr_right fun hx => ?_
    rw [ih (fun l s y hy => htouch l s y (mem_cons_of_mem _ hy))
      (fun l s y hy => hbody l s y (mem_cons_of_mem _ hy))
      (hbody l s x mem_cons_self h hx)]
    simp only [append_assoc, singleton_append]

end Microgarbage.Lib
