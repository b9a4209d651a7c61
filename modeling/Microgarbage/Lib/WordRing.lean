import Mathlib.Data.List.Induction
import Microgarbage.Lib.Bytes

/-!
# A ring of words

A list of 16-bit words is written to the cells of a byte memory in order, from a cell on and around
the end of the ring. Of the words that go to one cell only the last one stays, so the memory is as it
was exactly when the last words, one round of them, are what the cells already hold.
-/

namespace Microgarbage.Lib

variable {N : Nat}

/-- The words of a list up to the first one that is missing. -/
def prefixWords {α : Type} : List (Option α) → List α
  | [] => []
  | none :: _ => []
  | some w :: ws => w :: prefixWords ws

section PrefixWords

variable {α : Type}

theorem prefixWords_length_le (ws : List (Option α)) : (prefixWords ws).length ≤ ws.length := by
  induction ws with
  | nil => exact Nat.le_refl 0
  | cons w ws ih =>
    cases w with
    | none => exact Nat.zero_le _
    | some w => exact Nat.succ_le_succ ih

theorem getElem?_prefixWords {ws : List (Option α)} {i : Nat} (h : i < (prefixWords ws).length) :
    ws[i]? = some ((prefixWords ws)[i]?) := by
  induction ws generalizing i with
  | nil => exact absurd h (Nat.not_lt_zero i)
  | cons w ws ih =>
    cases w with
    | none => exact absurd h (Nat.not_lt_zero i)
    | some w =>
      cases i with
      | zero => rfl
      | succ i => exact ih (Nat.lt_of_succ_lt_succ h)

theorem getElem?_length_prefixWords (ws : List (Option α))
    (h : (prefixWords ws).length < ws.length) : ws[(prefixWords ws).length]? = some none := by
  induction ws with
  | nil => exact absurd h (Nat.not_lt_zero _)
  | cons w ws ih =>
    cases w with
    | none => rfl
    | some w => exact ih (Nat.lt_of_succ_lt_succ h)

theorem all_isSome_iff (ws : List (Option α)) :
    (∀ w ∈ ws, w.isSome = true) ↔ (prefixWords ws).length = ws.length := by
  induction ws with
  | nil => exact iff_of_true (fun _ h => absurd h List.not_mem_nil) rfl
  | cons w ws ih =>
    rw [List.forall_mem_cons, ih]
    cases w with
    | none =>
      refine iff_of_false (fun h => Bool.false_ne_true h.1) ?_
      exact (Nat.succ_ne_zero _).symm
    | some w => exact ⟨fun h => congrArg (· + 1) h.2, fun h => ⟨rfl, Nat.succ.inj h⟩⟩

end PrefixWords

/-- The words go to the cells from `s` on, around the end of `N` cells. -/
def writeRing (N : Nat) (m : Mem) (s : Nat) : List (BitVec 16) → Mem
  | [] => m
  | w :: ws => writeRing N (m.store (s % N * 2) 2 w) (s + 1) ws

theorem writeRing_congr {m : Mem} {s s' : Nat} (h : s % N = s' % N) (ws : List (BitVec 16)) :
    writeRing N m s ws = writeRing N m s' ws := by
  induction ws generalizing m s s' with
  | nil => rfl
  | cons w ws ih =>
    have hnext : (s + 1) % N = (s' + 1) % N := by rw [Nat.add_mod, h, ← Nat.add_mod]
    rw [writeRing, writeRing, h, ih hnext]

theorem writeRing_snoc (m : Mem) (s : Nat) (ws : List (BitVec 16)) (w : BitVec 16) :
    writeRing N m s (ws ++ [w]) = (writeRing N m s ws).store ((s + ws.length) % N * 2) 2 w := by
  induction ws generalizing m s with
  | nil => rfl
  | cons v ws ih =>
    have hsum : s + 1 + ws.length = s + (ws.length + 1) := by omega
    rw [List.cons_append, writeRing, ih, writeRing, List.length_cons, hsum]

theorem load16_writeRing {m : Mem} {s : Nat} {ws : List (BitVec 16)} {i : Nat} (hi : i < ws.length)
    (hlast : ws.length ≤ i + N) : (writeRing N m s ws).load16 ((s + i) % N * 2) = ws[i] := by
  induction ws using List.reverseRecOn with
  | nil => exact absurd hi (Nat.not_lt_zero i)
  | append_singleton ws w ih =>
    rw [List.length_append, List.length_singleton] at hi hlast
    rw [writeRing_snoc]
    rcases Nat.lt_succ_iff_lt_or_eq.mp hi with hlt | rfl
    · have hne : (s + i) % N ≠ (s + ws.length) % N := by
        intro hsame
        have hdvd := Nat.dvd_of_mod_eq_zero (Nat.sub_mod_eq_zero_of_mod_eq hsame.symm)
        have hle := Nat.le_of_dvd (by omega) hdvd
        omega
      rw [Mem.load16_store_out (by omega), List.getElem_append_left hlt]
      exact ih hlt (by omega)
    · rw [List.getElem_append_right (Nat.le_refl _)]
      simp only [Nat.sub_self, List.getElem_singleton]
      exact Mem.load16_store ..

theorem load16_writeRing_of_ne {m : Mem} {s : Nat} {ws : List (BitVec 16)} {j : Nat}
    (h : ∀ i < ws.length, (s + i) % N ≠ j) : (writeRing N m s ws).load16 (j * 2) = m.load16 (j * 2) := by
  induction ws generalizing m s with
  | nil => rfl
  | cons w ws ih =>
    have hfirst := h 0 (Nat.succ_pos _)
    rw [Nat.add_zero] at hfirst
    have hrest : ∀ i < ws.length, (s + 1 + i) % N ≠ j := by
      intro i hi
      rw [Nat.add_assoc, Nat.add_comm 1 i]
      exact h (i + 1) (Nat.succ_lt_succ hi)
    rw [writeRing, ih hrest]
    exact Mem.load16_store_out (by omega)

theorem byte_append_inj {x y x' y' : Byte} (h : x' ++ y' = x ++ y) : x' = x ∧ y' = y := by
  have hsum : ∀ x y : Byte, (x ++ y).toNat = x.toNat * 2 ^ 8 + y.toNat := by
    intro x y
    rw [BitVec.toNat_append, ← Nat.shiftLeft_add_eq_or_of_lt y.isLt, Nat.shiftLeft_eq]
  have hy := y.isLt
  have hy' := y'.isLt
  have hnat := congrArg BitVec.toNat h
  rw [hsum, hsum] at hnat
  exact ⟨BitVec.eq_of_toNat_eq (by omega), BitVec.eq_of_toNat_eq (by omega)⟩

theorem eq_of_load16 {m m' : Mem} (h : ∀ j, m'.load16 (j * 2) = m.load16 (j * 2)) : m' = m := by
  funext a
  obtain ⟨hhigh, hlow⟩ := byte_append_inj (h (a / 2))
  rcases Nat.mod_two_eq_zero_or_one a with hr | hr
  · have haddr : a / 2 * 2 = a := by omega
    exact haddr ▸ hlow
  · have haddr : a / 2 * 2 + 1 = a := by omega
    exact haddr ▸ hhigh

theorem writeRing_eq_self_iff {m : Mem} {s : Nat} {ws : List (BitVec 16)} (hN : 0 < N) :
    writeRing N m s ws = m ↔
      ∀ i, (hi : i < ws.length) → ws.length ≤ i + N → ws[i] = m.load16 ((s + i) % N * 2) := by
  constructor
  · intro hsame i hi hlast
    rw [← load16_writeRing hi hlast, hsame]
  · intro hall
    refine eq_of_load16 fun j => ?_
    by_cases hhit : ∃ i < ws.length, (s + i) % N = j
    · obtain ⟨i, hi, rfl⟩ := hhit
      -- The last word that goes to this cell.
      have hround : i + N * ((ws.length - 1 - i) / N) < ws.length ∧
          ws.length ≤ i + N * ((ws.length - 1 - i) / N) + N := by
        have hdiv := Nat.div_add_mod (ws.length - 1 - i) N
        have hmod := Nat.mod_lt (ws.length - 1 - i) hN
        omega
      have hcell : (s + (i + N * ((ws.length - 1 - i) / N))) % N = (s + i) % N := by
        rw [← Nat.add_assoc, Nat.add_mul_mod_self_left]
      rw [← hcell, load16_writeRing hround.1 hround.2]
      exact hall _ hround.1 hround.2
    · exact load16_writeRing_of_ne fun i hi hj => hhit ⟨i, hi, hj⟩

end Microgarbage.Lib
