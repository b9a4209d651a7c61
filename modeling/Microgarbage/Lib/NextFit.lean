import Mathlib.Algebra.Ring.Nat
import Mathlib.Tactic.Common

/-!
# Next-fit packing

Weighted items are put into bins in their order. A bin takes at most `k` items, and a second item only
within the weight `b`. No item is lost or moved, and a bin is closed for one of two reasons: it is
full, or it and the item behind it are heavier than `b`. The number of bins is bounded by how often
each of the two can happen.
-/

namespace Microgarbage.Lib.NextFit

section

variable {α : Type} (k b : Nat) (w : α → Nat)

/-- The weight of a bin. -/
def load (bin : List α) : Nat := (bin.map w).sum

/-- The next item needs a bin of its own. -/
def Closes (cur : List α) (x : α) : Prop :=
  k ≤ cur.length ∨ (0 < cur.length ∧ b < load w cur + w x)

instance (cur : List α) (x : α) : Decidable (Closes k b w cur x) :=
  inferInstanceAs (Decidable (_ ∨ _))

/-- The bins from the open one on. -/
def bins : List α → List α → List (List α)
  | [], cur => [cur]
  | x :: xs, cur =>
    if Closes k b w cur x then cur :: bins xs [x] else bins xs (cur ++ [x])

variable {k b w}

@[simp] theorem load_nil : load w [] = 0 := rfl

@[simp] theorem load_cons (x : α) (xs : List α) : load w (x :: xs) = w x + load w xs := by
  simp [load]

@[simp] theorem load_append (xs ys : List α) : load w (xs ++ ys) = load w xs + load w ys := by
  simp [load]

theorem bins_nil (cur : List α) : bins k b w [] cur = [cur] := rfl

theorem bins_closes {cur : List α} {x : α} (h : Closes k b w cur x) (xs : List α) :
    bins k b w (x :: xs) cur = cur :: bins k b w xs [x] := if_pos h

theorem bins_takes {cur : List α} {x : α} (h : ¬ Closes k b w cur x) (xs : List α) :
    bins k b w (x :: xs) cur = bins k b w xs (cur ++ [x]) := if_neg h

theorem bins_flatten (xs cur : List α) : (bins k b w xs cur).flatten = cur ++ xs := by
  induction xs generalizing cur with
  | nil => simp [bins_nil]
  | cons x xs ih =>
    by_cases h : Closes k b w cur x
    · rw [bins_closes h, List.flatten_cons, ih]
      rfl
    · rw [bins_takes h, ih, List.append_assoc]
      rfl

theorem length_bins_pos (xs cur : List α) : 1 ≤ (bins k b w xs cur).length := by
  induction xs generalizing cur with
  | nil => exact Nat.le_refl 1
  | cons x xs ih =>
    by_cases h : Closes k b w cur x
    · rw [bins_closes h, List.length_cons]
      exact Nat.le_add_left 1 _
    · rw [bins_takes h]
      exact ih _

/-- A bin with at least one item, not too many, and not too heavy for more than one. -/
structure Fits (k b : Nat) (w : α → Nat) (bin : List α) : Prop where
  pos : 1 ≤ bin.length
  count : bin.length ≤ k
  weight : load w bin ≤ b ∨ bin.length = 1

theorem Fits.single (hk : 1 ≤ k) (x : α) : Fits k b w [x] := ⟨Nat.le_refl 1, hk, .inr rfl⟩

theorem Fits.append {cur : List α} {x : α} (h : ¬ Closes k b w cur x) :
    Fits k b w (cur ++ [x]) := by
  unfold Closes at h
  refine ⟨by simp, ?_, ?_⟩
  · rw [List.length_append, List.length_singleton]
    omega
  · rw [load_append, load_cons, load_nil, List.length_append, List.length_singleton]
    omega

theorem bins_fit (hk : 1 ≤ k) {xs cur : List α} (hcur : Fits k b w cur) :
    ∀ bin ∈ bins k b w xs cur, Fits k b w bin := by
  induction xs generalizing cur with
  | nil =>
    intro bin hbin
    rw [bins_nil, List.mem_singleton] at hbin
    exact hbin ▸ hcur
  | cons x xs ih =>
    intro bin hbin
    by_cases h : Closes k b w cur x
    · rw [bins_closes h, List.mem_cons] at hbin
      rcases hbin with rfl | hbin
      · exact hcur
      · exact ih (.single hk x) bin hbin
    · rw [bins_takes h] at hbin
      exact ih (.append h) bin hbin

theorem bins_cons_nil (hk : 1 ≤ k) (x : α) (xs : List α) :
    bins k b w (x :: xs) [] = bins k b w xs [x] := by
  refine bins_takes ?_ xs
  unfold Closes
  simp only [List.length_nil]
  omega

/-- `s` bins are closed because they are full and `m` because of the weight. The first kind costs `k`
items; of the second kind any two neighbours are heavier than `b`. -/
theorem exists_closed (xs : List α) {cur : List α} (hcur : 1 ≤ cur.length) :
    ∃ s m, (bins k b w xs cur).length = s + m + 1 ∧ s * k + m + 1 ≤ cur.length + xs.length ∧
      m * (b + 1) ≤ load w cur + 2 * load w xs := by
  induction xs generalizing cur with
  | nil =>
    refine ⟨0, 0, rfl, ?_, ?_⟩
    · rw [List.length_nil]
      omega
    · omega
  | cons x xs ih =>
    rw [load_cons, List.length_cons]
    by_cases h : Closes k b w cur x
    · have hone : 1 ≤ [x].length := Nat.le_refl 1
      obtain ⟨s, m, hlen, hcount, hweight⟩ := ih hone
      rw [bins_closes h, List.length_cons, hlen]
      rw [List.length_singleton] at hcount
      rw [load_cons, load_nil] at hweight
      rcases h with hfull | ⟨-, hheavy⟩
      · refine ⟨s + 1, m, by omega, ?_, by omega⟩
        rw [Nat.succ_mul]
        omega
      · refine ⟨s, m + 1, by omega, by omega, ?_⟩
        rw [Nat.succ_mul]
        omega
    · have hpos : 1 ≤ (cur ++ [x]).length := by simp
      obtain ⟨s, m, hlen, hcount, hweight⟩ := ih hpos
      rw [bins_takes h]
      rw [List.length_append, List.length_singleton] at hcount
      rw [load_append, load_cons, load_nil] at hweight
      exact ⟨s, m, hlen, by omega, by omega⟩

end

end Microgarbage.Lib.NextFit
