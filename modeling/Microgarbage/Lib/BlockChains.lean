import Mathlib.Data.List.Nodup
import Mathlib.Data.List.Perm.Subperm
import Mathlib.Logic.Function.Basic

/-!
# Chains of blocks

Blocks `0 … n - 1` linked through one `next` table up to an end mark, each chain with its head kept
elsewhere, and a map of the blocks in use. A chain grows at its end and shrinks at its head.
-/

namespace Microgarbage.Lib

open List

open Function (update update_of_ne update_self)

/-- The blocks from `b` on, up to the end mark. -/
def Walk (next : Nat → Nat) (mark : Nat) : Nat → List Nat → Prop
  | b, [] => b = mark
  | b, x :: xs => b = x ∧ x ≠ mark ∧ Walk next mark (next x) xs

section Walk

variable {next next' : Nat → Nat} {mark a b : Nat} {l : List Nat}

theorem Walk.congr (h : Walk next mark a l) (hnext : ∀ y ∈ l, next' y = next y) :
    Walk next' mark a l := by
  induction l generalizing a with
  | nil => exact h
  | cons x xs ih =>
    obtain ⟨hax, hx, hrest⟩ := h
    refine ⟨hax, hx, ?_⟩
    rw [hnext x (mem_cons_self ..)]
    exact ih hrest fun y hy => hnext y (mem_cons_of_mem _ hy)

theorem Walk.nil_of_mark (h : Walk next mark mark l) : l = [] := by
  cases l with
  | nil => rfl
  | cons x xs => exact absurd h.1.symm h.2.1

theorem Walk.snoc {last : Nat} (h : Walk next mark a l) (hl : l.Nodup)
    (hlast : l.getLast? = some last) (hb : b ≠ mark) (hlink : next' last = b)
    (hend : next' b = mark) (hnext : ∀ y ∈ l, y ≠ last → next' y = next y) :
    Walk next' mark a (l ++ [b]) := by
  induction l generalizing a with
  | nil => cases hlast
  | cons x xs ih =>
    obtain ⟨hax, hx, hrest⟩ := h
    obtain ⟨hnot, hxs⟩ := nodup_cons.mp hl
    refine ⟨hax, hx, ?_⟩
    cases xs with
    | nil =>
      obtain rfl : x = last := Option.some.inj hlast
      exact ⟨hlink, hb, hend⟩
    | cons y ys =>
      rw [List.getLast?_cons_cons] at hlast
      have hne : x ≠ last := fun e => hnot (e ▸ mem_of_getLast? hlast)
      rw [hnext x (mem_cons_self ..) hne]
      exact ih hrest hxs hlast fun z hz => hnext z (mem_cons_of_mem _ hz)

end Walk

theorem countP_flip {α : Type*} {p q : α → Bool} {a : α} {l : List α} (hl : l.Nodup) (ha : a ∈ l)
    (hp : p a = true) (hq : q a = false) (h : ∀ c ∈ l, c ≠ a → q c = p c) :
    l.countP p = l.countP q + 1 := by
  induction l with
  | nil => cases ha
  | cons b l ih =>
    obtain ⟨hnot, hl⟩ := nodup_cons.mp hl
    by_cases hab : a = b
    · subst hab
      have hrest : l.countP q = l.countP p := countP_congr fun c hc => by
        rw [h c (mem_cons_of_mem _ hc) fun e => hnot (e ▸ hc)]
      rw [countP_cons_of_pos hp, countP_cons_of_neg (by rw [hq]; nofun), hrest]
    · have hmem := (mem_cons.mp ha).resolve_left hab
      have hb := h b (mem_cons_self ..) (Ne.symm hab)
      have ih' := ih hl hmem fun c hc => h c (mem_cons_of_mem _ hc)
      rw [countP_cons, countP_cons, ih', hb]
      omega

/-- The chains of all owners, and the map of used blocks. -/
structure Chains {ι : Type*} (n : Nat) (next : Nat → Nat) (mark : Nat) (used : Nat → Bool)
    (head : ι → Nat) (chain : ι → List Nat) : Prop where
  walk : ∀ i, Walk next mark (head i) (chain i)
  nodup : ∀ i, (chain i).Nodup
  apart : ∀ {i j b}, b ∈ chain i → b ∈ chain j → i = j
  inside : ∀ {i b}, b ∈ chain i → b < n
  used_iff : ∀ {b}, b < n → (used b = true ↔ ∃ i, b ∈ chain i)

namespace Chains

variable {ι : Type*} {n : Nat} {next next' : Nat → Nat} {mark : Nat}
  {used used' : Nat → Bool} {head : ι → Nat} {chain : ι → List Nat} {i j : ι} {b : Nat}

theorem free_notMem (h : Chains n next mark used head chain) (hb : b < n) (hfree : used b = false)
    (j : ι) : b ∉ chain j := by
  intro hj
  rw [(h.used_iff hb).mpr ⟨j, hj⟩] at hfree
  cases hfree

theorem length_le (h : Chains n next mark used head chain) (i : ι) : (chain i).length ≤ n := by
  have hsub : chain i ⊆ List.range n := fun b hb => mem_range.mpr (h.inside hb)
  have hle := (subperm_of_subset (h.nodup i) hsub).length_le
  rwa [length_range] at hle

variable [DecidableEq ι]

/-- A free block is linked behind the last block of a chain, or starts an empty one. -/
theorem grow (h : Chains n next mark used head chain) (hb : b < n) (hmark : b ≠ mark)
    (hfree : used b = false) {first : Nat}
    (hfirst : first = if chain i = [] then b else head i) (hend : next' b = mark)
    (hlink : ∀ last, (chain i).getLast? = some last → next' last = b)
    (hnext : ∀ y, y ≠ b → (chain i).getLast? ≠ some y → next' y = next y)
    (hused : ∀ y, used' y = if y = b then true else used y) :
    Chains n next' mark used' (update head i first)
      (update chain i (chain i ++ [b])) where
  walk j := by
    have hnot := h.free_notMem hb hfree
    by_cases hji : j = i
    · subst hji
      rw [update_self, update_self, hfirst]
      cases hlast : (chain j).getLast? with
      | none =>
        obtain hnil : chain j = [] := List.getLast?_eq_none_iff.mp hlast
        rw [if_pos hnil, hnil]
        exact ⟨rfl, hmark, hend⟩
      | some last =>
        have hne : chain j ≠ [] := by
          rintro he
          rw [he] at hlast
          cases hlast
        rw [if_neg hne]
        refine (h.walk j).snoc (h.nodup j) hlast hmark (hlink last hlast) hend fun y hy hy' => ?_
        refine hnext y (fun e => hnot j (e ▸ hy)) fun e => hy' ?_
        exact Option.some.inj (e.symm.trans hlast)
    · rw [update_of_ne hji, update_of_ne hji]
      refine (h.walk j).congr fun y hy => hnext y (fun e => hnot j (e ▸ hy)) fun e => hji ?_
      exact h.apart hy (mem_of_getLast? e)
  nodup j := by
    by_cases hji : j = i
    · subst hji
      rw [update_self]
      refine nodup_append.mpr ⟨h.nodup j, nodup_singleton b, fun y hy z hz => ?_⟩
      rw [mem_singleton.mp hz]
      exact fun e => h.free_notMem hb hfree j (e ▸ hy)
    · rw [update_of_ne hji]
      exact h.nodup j
  apart {j k c} hj hk := by
    have hmem : ∀ {m}, c ∈ update chain i (chain i ++ [b]) m →
        c ∈ chain m ∨ (m = i ∧ c = b) := by
      intro m hm
      by_cases hmi : m = i
      · subst hmi
        rw [update_self, mem_append, mem_singleton] at hm
        exact hm.imp_right fun e => ⟨rfl, e⟩
      · rw [update_of_ne hmi] at hm
        exact .inl hm
    have hnot := h.free_notMem hb hfree
    rcases hmem hj with hj | ⟨hji, hjb⟩ <;> rcases hmem hk with hk | ⟨hki, hkb⟩
    · exact h.apart hj hk
    · exact absurd (hkb ▸ hj) (hnot j)
    · exact absurd (hjb ▸ hk) (hnot k)
    · exact hji.trans hki.symm
  inside {j c} hj := by
    by_cases hji : j = i
    · subst hji
      rw [update_self, mem_append, mem_singleton] at hj
      exact hj.elim h.inside fun e => e ▸ hb
    · rw [update_of_ne hji] at hj
      exact h.inside hj
  used_iff {c} hc := by
    rw [hused]
    by_cases hcb : c = b
    · subst hcb
      rw [if_pos rfl]
      refine ⟨fun _ => ⟨i, ?_⟩, fun _ => rfl⟩
      rw [update_self]
      exact mem_append_right _ (mem_singleton_self c)
    · rw [if_neg hcb, h.used_iff hc]
      refine exists_congr fun j => ?_
      by_cases hji : j = i
      · subst hji
        rw [update_self, mem_append, mem_singleton, or_iff_left hcb]
      · rw [update_of_ne hji]

theorem shrink (h : Chains n next mark used head chain) {bs : List Nat} (hi : chain i = b :: bs)
    (hnext : ∀ y, y ≠ b → next' y = next y)
    (hused : ∀ y, used' y = if y = b then false else used y) :
    Chains n next' mark used' (update head i (next b)) (update chain i bs) := by
  have hb : b ∈ chain i := hi ▸ mem_cons_self ..
  have hnd := h.nodup i
  rw [hi] at hnd
  obtain ⟨hnot, hbs⟩ := nodup_cons.mp hnd
  have hsub : ∀ {j c}, c ∈ update chain i bs j → c ∈ chain j ∧ c ≠ b := by
    intro j c hc
    by_cases hji : j = i
    · subst hji
      rw [update_self] at hc
      exact ⟨hi ▸ mem_cons_of_mem _ hc, fun e => hnot (e ▸ hc)⟩
    · rw [update_of_ne hji] at hc
      exact ⟨hc, fun e => hji (h.apart hc (e ▸ hb))⟩
  refine ⟨fun j => ?_, fun j => ?_, fun hj hk => h.apart (hsub hj).1 (hsub hk).1,
    fun hj => h.inside (hsub hj).1, fun {c} hc => ?_⟩
  · by_cases hji : j = i
    · subst hji
      have hwalk := h.walk j
      rw [hi] at hwalk
      rw [update_self, update_self]
      exact hwalk.2.2.congr fun y hy => hnext y fun e => hnot (e ▸ hy)
    · rw [update_of_ne hji, update_of_ne hji]
      exact (h.walk j).congr fun y hy => hnext y fun e => hji (h.apart hy (e ▸ hb))
  · by_cases hji : j = i
    · subst hji
      rwa [update_self]
    · rw [update_of_ne hji]
      exact h.nodup j
  · rw [hused]
    constructor
    · intro hu
      by_cases hcb : c = b
      · rw [if_pos hcb] at hu
        cases hu
      · rw [if_neg hcb] at hu
        obtain ⟨j, hj⟩ := (h.used_iff hc).mp hu
        refine ⟨j, ?_⟩
        by_cases hji : j = i
        · subst hji
          rw [hi] at hj
          rw [update_self]
          exact (mem_cons.mp hj).resolve_left hcb
        · rwa [update_of_ne hji]
    · rintro ⟨j, hj⟩
      obtain ⟨hj, hcb⟩ := hsub hj
      rw [if_neg hcb]
      exact (h.used_iff hc).mpr ⟨j, hj⟩

end Chains

end Microgarbage.Lib
