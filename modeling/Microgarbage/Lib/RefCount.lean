import Mathlib.Data.List.Count
import Mathlib.Data.List.Range

/-!
# Reference counts

A table of counts `live : κ → Option Int`, none for a key that names nothing, and the number of
references `refs k` that are held on each key. `Counts` says that the table is exact: the named keys
are the referenced ones, with their numbers of references. Creating, acquiring and releasing keep it.
-/

namespace Microgarbage.Lib

variable {κ : Type*}

/-- Every key counts its references, and a key without a reference names nothing. -/
def Counts (live : κ → Option Int) (refs : κ → Nat) : Prop :=
  ∀ k, live k = if refs k = 0 then none else some (refs k : Int)

namespace Counts

variable {live live' : κ → Option Int} {refs refs' : κ → Nat}

theorem congr (h : Counts live refs) (hrefs : ∀ k, refs' k = refs k) : Counts live refs' := by
  intro k
  rw [hrefs k]
  exact h k

theorem congr_live (h : Counts live refs) (hlive : ∀ k, live' k = live k) : Counts live' refs := by
  intro k
  rw [hlive k]
  exact h k

theorem pos (h : Counts live refs) {k : κ} {n : Int} (hk : live k = some n) :
    0 < refs k ∧ n = refs k := by
  have hc := h k
  rw [hk] at hc
  split at hc
  · cases hc
  · rename_i hne
    exact ⟨Nat.pos_of_ne_zero hne, Option.some.inj hc⟩

theorem of_none (h : Counts live refs) {k : κ} (hk : live k = none) : refs k = 0 := by
  have hc := h k
  rw [hk] at hc
  split at hc
  · assumption
  · cases hc

theorem of_pos (h : Counts live refs) {k : κ} (hk : 0 < refs k) : live k = some (refs k : Int) :=
  (h k).trans (if_neg (Nat.pos_iff_ne_zero.mp hk))

variable [DecidableEq κ]

theorem acquire {k : κ} (h : Counts live refs)
    (hlive : ∀ j, live' j = if j = k then some ((live k).getD 0 + 1) else live j) :
    Counts live' fun j => refs j + if j = k then 1 else 0 := by
  intro j
  rw [hlive j]
  by_cases hj : j = k
  · subst hj
    have hget : (live j).getD 0 = refs j := by
      rw [h j]
      split
      · rename_i hzero
        simp [hzero]
      · rfl
    simp [hget]
  · simpa [hj] using h j

theorem release {k : κ} {n : Int} (h : Counts live fun j => refs j + if j = k then 1 else 0)
    (hk : live k = some n)
    (hlive : ∀ j, live' j = if j = k then (if n - 1 ≤ 0 then none else some (n - 1)) else live j) :
    Counts live' refs := by
  intro j
  rw [hlive j]
  by_cases hj : j = k
  · subst hj
    obtain ⟨-, hn⟩ := h.pos hk
    rw [if_pos rfl] at hn ⊢
    by_cases hzero : refs j = 0
    · rw [if_pos hzero, if_pos (by omega)]
    · rw [if_neg hzero, if_neg (by omega)]
      exact congrArg some (by omega)
  · rw [if_neg hj]
    simpa [hj] using h j

end Counts

/-! ## References held in tables -/

/-- The references the first `n` entries of a table hold. -/
def tally (f : Nat → List κ) (n : Nat) : List κ := (List.range n).flatMap f

theorem mem_tally {f : Nat → List κ} {n : Nat} {k : κ} :
    k ∈ tally f n ↔ ∃ i < n, k ∈ f i := by
  simp [tally, List.mem_flatMap]

theorem count_tally_le [DecidableEq κ] {f g : Nat → List κ} {n : Nat} {k : κ}
    (h : ∀ i < n, (f i).count k ≤ (g i).count k) : (tally f n).count k ≤ (tally g n).count k := by
  induction n with
  | zero => exact Nat.le_refl _
  | succ n ih =>
    simp only [tally, List.range_succ, List.flatMap_append, List.flatMap_singleton,
      List.count_append]
    exact Nat.add_le_add (ih fun i hi => h i (by omega)) (h n (Nat.lt_succ_self n))

/-- One entry changes: the tallies differ by what the entry held and holds. -/
theorem count_tally [DecidableEq κ] {f g : Nat → List κ} {n i : Nat} (hi : i < n)
    (h : ∀ j, j ≠ i → f j = g j) (k : κ) :
    (tally f n).count k + (g i).count k = (tally g n).count k + (f i).count k := by
  induction n with
  | zero => exact absurd hi (Nat.not_lt_zero i)
  | succ n ih =>
    simp only [tally, List.range_succ, List.flatMap_append, List.flatMap_singleton,
      List.count_append]
    by_cases hn : i = n
    · subst hn
      have hsame : (List.range i).flatMap f = (List.range i).flatMap g :=
        List.flatMap_congr fun j hj => h j (Nat.ne_of_lt (List.mem_range.mp hj))
      rw [hsame]
      omega
    · have hlt : i < n := by omega
      have hrec := ih hlt
      rw [h n (Ne.symm hn)]
      unfold tally at hrec
      omega

end Microgarbage.Lib
