import Mathlib.Data.List.Induction
import Mathlib.Order.Lattice

/-!
# The first of the greatest

A search that keeps the best so far and replaces it only by something better, as a fold: it ends with
the first of the greatest, or with nothing when nothing is above the floor.
-/

namespace Microgarbage.Lib

variable {α κ : Type*} [LinearOrder κ] (key : α → κ) (floor : κ)

/-- The key of the best so far. -/
def bestKey (w : Option α) : κ := w.elim floor key

def keepGreatest (w : Option α) (t : α) : Option α :=
  if bestKey key floor w < key t then some t else w

def firstGreatest (l : List α) : Option α := l.foldl (keepGreatest key floor) none

variable {key floor}

/-- What is known of the best among `l`. -/
structure Greatest (key : α → κ) (floor : κ) (l : List α) (w : Option α) : Prop where
  mem : ∀ t, w = some t → t ∈ l ∧ floor < key t
  le : ∀ t ∈ l, key t ≤ bestKey key floor w

theorem Greatest.keep {l : List α} {w : Option α} (h : Greatest key floor l w) (t : α) :
    Greatest key floor (l ++ [t]) (keepGreatest key floor w t) := by
  have hfloor : floor ≤ bestKey key floor w := by
    cases w with
    | none => exact le_rfl
    | some u => exact (h.mem u rfl).2.le
  unfold keepGreatest
  split
  · rename_i hlt
    refine ⟨fun u hu => ?_, fun u hu => ?_⟩
    · obtain rfl := Option.some.inj hu
      exact ⟨List.mem_append_right _ (List.mem_singleton_self _), hfloor.trans_lt hlt⟩
    · rcases List.mem_append.mp hu with hu | hu
      · exact (h.le u hu).trans hlt.le
      · rw [List.mem_singleton.mp hu]
        exact le_rfl
  · rename_i hge
    refine ⟨fun u hu => ?_, fun u hu => ?_⟩
    · obtain ⟨hmem, hlt⟩ := h.mem u hu
      exact ⟨List.mem_append_left _ hmem, hlt⟩
    · rcases List.mem_append.mp hu with hu | hu
      · exact h.le u hu
      · rw [List.mem_singleton.mp hu]
        exact not_lt.mp hge

theorem firstGreatest_greatest (l : List α) : Greatest key floor l (firstGreatest key floor l) := by
  induction l using List.reverseRecOn with
  | nil => exact ⟨fun _ h => absurd h nofun, fun t ht => absurd ht List.not_mem_nil⟩
  | append_singleton l t ih =>
    unfold firstGreatest at *
    rw [List.foldl_append]
    exact ih.keep t

end Microgarbage.Lib
