import Mathlib.Data.List.FinRange

/-!
# Going around in turn

`n` places in a circle and a cursor that moves past the place chosen last. The next choice is the
first place from the cursor on that wants a turn.
-/

namespace Microgarbage.Lib.RoundRobin

variable {n : Nat}

/-- How far it is from `s` on to `i`. -/
def dist (s i : Fin n) : Nat := (i.val + (n - s.val)) % n

def next (i : Fin n) : Fin n := ⟨(i.val + 1) % n, Nat.mod_lt _ (Nat.zero_lt_of_lt i.isLt)⟩

theorem dist_lt (s i : Fin n) : dist s i < n := Nat.mod_lt _ (Nat.zero_lt_of_lt i.isLt)

theorem dist_of_le {s i : Fin n} (h : s.val ≤ i.val) : dist s i = i.val - s.val := by
  unfold dist
  rw [show i.val + (n - s.val) = i.val - s.val + n by omega, Nat.add_mod_right,
    Nat.mod_eq_of_lt (by omega)]

theorem dist_of_lt {s i : Fin n} (h : i.val < s.val) : dist s i = i.val + n - s.val := by
  unfold dist
  rw [Nat.mod_eq_of_lt (by omega)]
  omega

theorem dist_eq_iff {s i : Fin n} {k : Nat} (hk : k < n) :
    dist s i = k ↔ i.val = (s.val + k) % n := by
  have hi := i.isLt
  have hs := s.isLt
  rcases Nat.lt_or_ge i.val s.val with hlt | hle
  · rw [dist_of_lt hlt]
    rcases Nat.lt_or_ge (s.val + k) n with h | h
    · rw [Nat.mod_eq_of_lt h]
      omega
    · rw [Nat.mod_eq_sub_mod h, Nat.mod_eq_of_lt (by omega)]
      omega
  · rw [dist_of_le hle]
    rcases Nat.lt_or_ge (s.val + k) n with h | h
    · rw [Nat.mod_eq_of_lt h]
      omega
    · rw [Nat.mod_eq_sub_mod h, Nat.mod_eq_of_lt (by omega)]
      omega

theorem dist_inj {s i j : Fin n} (h : dist s i = dist s j) : i = j := by
  have hi := (dist_eq_iff (dist_lt s j)).mp h
  have hj := (dist_eq_iff (dist_lt s j)).mp (rfl : dist s j = _)
  exact Fin.ext (hi.trans hj.symm)

theorem val_next (i : Fin n) : (next i).val = if i.val + 1 = n then 0 else i.val + 1 := by
  have hi := i.isLt
  unfold next
  dsimp only
  split
  · next h => rw [h, Nat.mod_self]
  · exact Nat.mod_eq_of_lt (by omega)

theorem dist_next_self (i : Fin n) : dist (next i) i + 1 = n := by
  have hi := i.isLt
  have hv := val_next i
  split at hv
  · rw [dist_of_le (by omega)]
    omega
  · rw [dist_of_lt (by omega)]
    omega

theorem dist_next_lt {i j : Fin n} (h : j ≠ i) : dist (next i) j < dist (next i) i := by
  have hself := dist_next_self i
  have hlt := dist_lt (next i) j
  have hne : dist (next i) j ≠ dist (next i) i := fun he => h (dist_inj he)
  omega

theorem dist_next {s i j : Fin n} (h : dist s i < dist s j) :
    dist (next i) j + dist s i + 1 = dist s j := by
  have hs := s.isLt
  have hi := i.isLt
  have hj := j.isLt
  have hv := val_next i
  have hcase : ∀ a b : Fin n, dist a b = if a.val ≤ b.val then b.val - a.val
      else b.val + n - a.val := by
    intro a b
    split
    · next hle => exact dist_of_le hle
    · next hlt => exact dist_of_lt (by omega)
  rw [hcase] at h
  rw [hcase s j] at h
  rw [hcase, hcase, hcase s j]
  split at hv <;> split at h <;> split at h <;> split <;> omega

/-! ## Choosing -/

/-- The first place in `P` from `s` on. -/
structure First (P : Fin n → Prop) (s i : Fin n) : Prop where
  mem : P i
  least : ∀ j, P j → dist s i ≤ dist s j

theorem First.next_lt {P : Fin n → Prop} {s i a b : Fin n} (h : First P s i) (hb : P b)
    (hib : i ≠ b) (hlt : dist s b < dist s a) :
    i ≠ a ∧ dist (next i) b < dist (next i) a := by
  have hle := h.least b hb
  have hne : dist s i ≠ dist s b := fun he => hib (dist_inj he)
  have hnear := dist_next (s := s) (i := i) (j := b) (by omega)
  have hfar := dist_next (s := s) (i := i) (j := a) (by omega)
  refine ⟨?_, by omega⟩
  rintro rfl
  omega

theorem first_of_find? {p : Fin n → Bool} {s i : Fin n}
    (h : ((List.finRange n).map (s + ·)).find? p = some i) : First (fun j => p j = true) s i := by
  obtain ⟨hp, as, bs, hl, has⟩ := List.find?_eq_some_iff_append.mp h
  have hlen : as.length < n := by
    have := congrArg List.length hl
    rw [List.length_map, List.length_finRange, List.length_append, List.length_cons] at this
    omega
  have hget : ∀ k (hk : k < n), ((List.finRange n).map (s + ·))[k]? = some (s + ⟨k, hk⟩) := by
    intro k hk
    simp [hk]
  have hi : i = s + ⟨as.length, hlen⟩ := by
    have hat := hget as.length hlen
    rw [hl, List.getElem?_append_right (Nat.le_refl _), Nat.sub_self] at hat
    exact Option.some.inj hat
  have hdist : dist s i = as.length := (dist_eq_iff hlen).mpr (by rw [hi, Fin.val_add])
  refine ⟨hp, fun j hj => ?_⟩
  rw [hdist]
  by_contra hlt
  have hat := hget (dist s j) (dist_lt s j)
  rw [hl, List.getElem?_append_left (by omega)] at hat
  have hj' : s + ⟨dist s j, dist_lt s j⟩ = j :=
    Fin.ext (by rw [Fin.val_add]; exact ((dist_eq_iff (dist_lt s j)).mp rfl).symm)
  rw [hj'] at hat
  have hno := has j (List.mem_of_getElem? hat)
  rw [hj] at hno
  cases hno

end Microgarbage.Lib.RoundRobin
