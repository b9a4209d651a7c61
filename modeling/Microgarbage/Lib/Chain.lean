import Mathlib.Data.List.Basic

/-!
# Doubly linked lists

A chain is a list of addresses linked through two pointer fields, given as functions. Address `0`
is the null pointer. The lemmas say which pointer writes push an address in front and which ones
take an address out.
-/

namespace Microgarbage.Lib

open List

/-- `l` is linked in both directions; `p` is before it. -/
def Linked (prev next : Nat → Nat) : Nat → List Nat → Prop
  | _, [] => True
  | p, x :: xs => prev x = p ∧ next x = xs.headD 0 ∧ Linked prev next x xs

section Chain

variable {prev next prev' next' : Nat → Nat} {p x : Nat} {l l₁ l₂ : List Nat}

theorem Linked.congr (h : Linked prev next p l) (hprev : ∀ y ∈ l, prev' y = prev y)
    (hnext : ∀ y ∈ l, next' y = next y) : Linked prev' next' p l := by
  induction l generalizing p with
  | nil => exact trivial
  | cons y ys ih =>
    obtain ⟨hp, hn, hrest⟩ := h
    refine ⟨?_, ?_, ih hrest (fun z hz => hprev z ?_) fun z hz => hnext z ?_⟩
    · rw [hprev y (mem_cons_self ..), hp]
    · rw [hnext y (mem_cons_self ..), hn]
    · exact mem_cons_of_mem _ hz
    · exact mem_cons_of_mem _ hz

theorem Linked.neighbours (h : Linked prev next p (l₁ ++ x :: l₂)) :
    prev x = l₁.getLastD p ∧ next x = l₂.headD 0 := by
  induction l₁ generalizing p with
  | nil => exact ⟨h.1, h.2.1⟩
  | cons y ys ih =>
    rw [getLastD_cons]
    exact ih h.2.2

theorem Linked.push (h : Linked prev next 0 l) (hl : l.Nodup) (hp : prev' x = 0)
    (hn : next' x = l.headD 0) (hprev : ∀ y ∈ l, prev' y = if y = l.headD 0 then x else prev y)
    (hnext : ∀ y ∈ l, next' y = next y) : Linked prev' next' 0 (x :: l) := by
  refine ⟨hp, hn, ?_⟩
  cases l with
  | nil => exact trivial
  | cons y ys =>
    obtain ⟨-, hy, hrest⟩ := h
    obtain ⟨hnotin, -⟩ := nodup_cons.mp hl
    refine ⟨?_, ?_, hrest.congr (fun z hz => ?_) fun z hz => ?_⟩
    · rw [hprev y (mem_cons_self ..), headD_cons, if_pos rfl]
    · rw [hnext y (mem_cons_self ..), hy]
    · have hne : z ≠ y := fun e => hnotin (e ▸ hz)
      rw [hprev z (mem_cons_of_mem _ hz), headD_cons, if_neg hne]
    · exact hnext z (mem_cons_of_mem _ hz)

theorem Linked.remove (h : Linked prev next p (l₁ ++ x :: l₂)) (hl : (p :: (l₁ ++ x :: l₂)).Nodup)
    (h0 : 0 ∉ l₁ ++ l₂)
    (hprev : ∀ y ∈ l₁ ++ l₂, prev' y = if y = next x then prev x else prev y)
    (hnext : ∀ y ∈ l₁ ++ l₂, next' y = if y = prev x then next x else next y) :
    Linked prev' next' p (l₁ ++ l₂) := by
  induction l₁ generalizing p with
  | nil =>
    obtain ⟨hp, hn, hrest⟩ := h
    cases l₂ with
    | nil => exact trivial
    | cons y ys =>
      obtain ⟨-, hy, hrest⟩ := hrest
      simp only [nil_append, nodup_cons, mem_cons, not_or] at hl hprev hnext
      obtain ⟨⟨-, hpy, hpys⟩, -, hyys, -⟩ := hl
      rw [headD_cons] at hn
      refine ⟨?_, ?_, hrest.congr (fun z hz => ?_) fun z hz => ?_⟩
      · rw [hprev y (.inl rfl), hn, if_pos rfl, hp]
      · rw [hnext y (.inl rfl), hp, if_neg (Ne.symm hpy), hy]
      · have hne : z ≠ next x := fun e => hyys (hn ▸ e ▸ hz)
        rw [hprev z (.inr hz), if_neg hne]
      · have hne : z ≠ prev x := fun e => hpys (hp ▸ e ▸ hz)
        rw [hnext z (.inr hz), if_neg hne]
  | cons a as ih =>
    obtain ⟨ha, hna, hrest⟩ := h
    obtain ⟨hpx, hnx⟩ := hrest.neighbours
    have hl' := (nodup_cons.mp hl).2
    obtain ⟨hanot, hrestnd⟩ := nodup_cons.mp hl'
    have hanext : a ≠ next x := by
      intro e
      rw [hnx] at e
      cases l₂ with
      | nil => exact h0 (e ▸ mem_cons_self ..)
      | cons y ys => exact hanot (e ▸ by simp)
    refine ⟨?_, ?_, ih hrest hl' (fun h => h0 (mem_cons_of_mem _ h))
      (fun z hz => hprev z (mem_cons_of_mem _ hz))
      fun z hz => hnext z (mem_cons_of_mem _ hz)⟩
    · rw [hprev a (mem_cons_self ..), if_neg hanext, ha]
    · rw [hnext a (mem_cons_self ..)]
      cases as with
      | nil =>
        have ha : a = prev x := hpx.symm
        rw [if_pos ha, hnx]
        rfl
      | cons b bs =>
        have hne : a ≠ prev x := by
          intro e
          rw [hpx, getLastD_cons] at e
          refine hanot (e ▸ mem_append_left _ ?_)
          rw [getLastD_eq_getLast?]
          cases hlast : bs.getLast? with
          | none => exact mem_cons_self ..
          | some c => exact mem_cons_of_mem _ (mem_of_getLast? hlast)
        rw [if_neg hne, hna]
        rfl

end Chain

end Microgarbage.Lib
