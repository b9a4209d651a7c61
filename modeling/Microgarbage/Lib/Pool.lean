import Mathlib.Algebra.BigOperators.Group.List.Basic
import Mathlib.Data.List.Perm.Basic
import Mathlib.Logic.Function.Basic

/-!
# Pools of items

A fixed stock of items, sorted into classes, each item at any time either on the stack of its class
or live with a client. Taking pops a stack, giving back pushes. `Valid` is what both preserve; from
it follow the counts.
-/

namespace Microgarbage.Lib

open List

variable {ι β : Type*}

/-- The stack of each class, top last, and the items handed out. -/
structure Pool (ι β : Type*) where
  free : ι → List β
  live : List β

/-- The stock: no item twice, none in two classes. -/
structure Stock (items : ι → List β) : Prop where
  nodup : ∀ i, (items i).Nodup
  apart : ∀ {i j b}, b ∈ items i → b ∈ items j → i = j

namespace Pool

/-- Each item of the stock is exactly once on its stack, or live. -/
structure Valid (items : ι → List β) (P : Pool ι β) : Prop where
  free_nodup : ∀ i, (P.free i).Nodup
  live_nodup : P.live.Nodup
  free_item : ∀ {i b}, b ∈ P.free i → b ∈ items i
  live_item : ∀ {b}, b ∈ P.live → ∃ i, b ∈ items i
  split : ∀ {i b}, b ∈ items i → (b ∈ P.free i ↔ b ∉ P.live)

section

variable [DecidableEq ι]

def take (P : Pool ι β) (i : ι) (b : β) : Pool ι β :=
  ⟨Function.update P.free i (P.free i).dropLast, b :: P.live⟩

def give [DecidableEq β] (P : Pool ι β) (i : ι) (b : β) : Pool ι β :=
  ⟨Function.update P.free i (P.free i ++ [b]), P.live.erase b⟩

end

namespace Valid

variable {items : ι → List β} {P : Pool ι β}

theorem full (hs : Stock items) : Valid items ⟨items, []⟩ where
  free_nodup := hs.nodup
  live_nodup := nodup_nil
  free_item h := h
  live_item h := absurd h not_mem_nil
  split h := ⟨fun _ => not_mem_nil, fun _ => h⟩

theorem top (h : Valid items P) {i : ι} {l : List β} {b : β} (hi : P.free i = l ++ [b]) :
    b ∈ items i ∧ b ∉ P.live := by
  have hb : b ∈ P.free i := by
    rw [hi]
    exact mem_append_right _ (mem_singleton_self b)
  exact ⟨h.free_item hb, (h.split (h.free_item hb)).mp hb⟩

section

variable [DecidableEq ι]

theorem take (hs : Stock items) (h : Valid items P) {i : ι} {l : List β} {b : β}
    (hi : P.free i = l ++ [b]) : Valid items (P.take i b) := by
  obtain ⟨hb, hlive⟩ := h.top hi
  have hnodup := h.free_nodup i
  rw [hi, nodup_append] at hnodup
  obtain ⟨hl, -, hne⟩ := hnodup
  have hbl : b ∉ l := fun hm => hne b hm b (mem_singleton_self b) rfl
  have hfree : ∀ j, (P.take i b).free j = if j = i then l else P.free j := by
    intro j
    refine (Function.update_apply ..).trans ?_
    rw [hi, dropLast_concat]
  refine ⟨fun j => ?_, nodup_cons.mpr ⟨hlive, h.live_nodup⟩, ?_, ?_, ?_⟩
  · rw [hfree]
    split
    · exact hl
    · exact h.free_nodup j
  · intro j c hc
    rw [hfree] at hc
    split at hc
    · next hj =>
      rw [hj]
      exact h.free_item (by rw [hi]; exact mem_append_left _ hc)
    · exact h.free_item hc
  · intro c hc
    rcases mem_cons.mp hc with rfl | hc
    · exact ⟨i, hb⟩
    · exact h.live_item hc
  · intro j c hc
    rw [hfree]
    have hold := h.split hc
    have hlive' : c ∉ (P.take i b).live ↔ c ≠ b ∧ c ∉ P.live := by
      unfold Pool.take
      rw [mem_cons, not_or]
    rw [hlive']
    by_cases hj : j = i
    · subst hj
      rw [if_pos rfl, ← hold, hi, mem_append, mem_singleton]
      constructor
      · intro hcl
        exact ⟨fun e => hbl (e ▸ hcl), .inl hcl⟩
      · rintro ⟨hcb, hcl | hcb'⟩
        · exact hcl
        · exact absurd hcb' hcb
    · rw [if_neg hj, hold]
      have hcb : c ≠ b := fun e => hj (hs.apart hc (e ▸ hb))
      exact ⟨fun hcl => ⟨hcb, hcl⟩, fun hcl => hcl.2⟩

theorem give [DecidableEq β] (hs : Stock items) (h : Valid items P) {i : ι} {b : β} (hb : b ∈ P.live)
    (hi : b ∈ items i) : Valid items (P.give i b) := by
  have hfree : ∀ j, (P.give i b).free j = if j = i then P.free i ++ [b] else P.free j := fun j =>
    Function.update_apply ..
  have hbf : b ∉ P.free i := fun hf => (h.split hi).mp hf hb
  have hlive : ∀ c, c ∈ (P.give i b).live ↔ c ≠ b ∧ c ∈ P.live := fun c =>
    h.live_nodup.mem_erase_iff
  refine ⟨fun j => ?_, h.live_nodup.erase b, ?_, ?_, ?_⟩
  · rw [hfree]
    split
    · rw [nodup_append]
      refine ⟨h.free_nodup i, nodup_cons.mpr ⟨not_mem_nil, nodup_nil⟩, fun c hc d hd e => ?_⟩
      rw [mem_singleton.mp hd] at e
      exact hbf (e ▸ hc)
    · exact h.free_nodup j
  · intro j c hc
    rw [hfree] at hc
    split at hc
    · next hj =>
      rw [hj]
      rcases mem_append.mp hc with hc | hc
      · exact h.free_item hc
      · rw [mem_singleton.mp hc]
        exact hi
    · exact h.free_item hc
  · intro c hc
    exact h.live_item ((hlive c).mp hc).2
  · intro j c hc
    have hold := h.split hc
    rw [hfree, hlive]
    by_cases hj : j = i
    · subst hj
      rw [if_pos rfl, mem_append, mem_singleton, hold]
      by_cases hcb : c = b
      · simp [hcb]
      · simp [hcb]
    · rw [if_neg hj, hold]
      have hcb : c ≠ b := fun e => hj (hs.apart hc (e ▸ hi))
      simp [hcb]

end

variable [DecidableEq β]

theorem perm (hs : Stock items) (h : Valid items P) (i : ι) :
    (P.free i ++ P.live.filter (· ∈ items i)).Perm (items i) := by
  refine (perm_ext_iff_of_nodup ?_ (hs.nodup i)).mpr fun b => ?_
  · rw [nodup_append]
    refine ⟨h.free_nodup i, h.live_nodup.filter _, fun c hc d hd e => ?_⟩
    rw [mem_filter, ← e] at hd
    exact (h.split (h.free_item hc)).mp hc hd.1
  · rw [mem_append, mem_filter, decide_eq_true_iff]
    constructor
    · rintro (hb | ⟨-, hb⟩)
      · exact h.free_item hb
      · exact hb
    · intro hb
      by_cases hl : b ∈ P.live
      · exact .inr ⟨hl, hb⟩
      · exact .inl ((h.split hb).mpr hl)

theorem count (hs : Stock items) (h : Valid items P) (i : ι) :
    (P.free i).length + (P.live.filter (· ∈ items i)).length = (items i).length := by
  rw [← length_append]
  exact (h.perm hs i).length_eq

end Valid

end Pool

end Microgarbage.Lib
