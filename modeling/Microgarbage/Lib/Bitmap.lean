import Mathlib.Tactic.Common

/-!
# Bitmaps

A machine word as a set of small numbers: testing, setting and clearing one bit by masks, in terms
of `getLsbD`.
-/

namespace Microgarbage.Lib

open BitVec

variable {w : Nat}

theorem getLsbD_bit {i j : Nat} (hj : j < w) : (1#w <<< i).getLsbD j = decide (j = i) := by
  rw [getLsbD_shiftLeft, getLsbD_one, decide_eq_true hj, Bool.true_and]
  by_cases h : j = i
  · rw [h, decide_eq_true rfl, decide_eq_false (Nat.lt_irrefl i), Nat.sub_self,
      decide_eq_true (show 0 < w by omega)]
    rfl
  · rw [decide_eq_false h]
    by_cases hlt : j < i
    · rw [decide_eq_true hlt]
      rfl
    · rw [decide_eq_false (show j - i ≠ 0 by omega), Bool.and_false, Bool.and_false]

theorem and_bit_ne_zero (b : BitVec w) {i : Nat} (hi : i < w) :
    (b &&& 1#w <<< i != 0#w) = b.getLsbD i := by
  cases h : b.getLsbD i with
  | true =>
    rw [bne_iff_ne]
    intro h0
    have hbit := getLsbD_and (x := b) (y := 1#w <<< i) (i := i)
    rw [h0, getLsbD_zero, h, getLsbD_bit hi, decide_eq_true rfl] at hbit
    exact absurd hbit Bool.false_ne_true
  | false =>
    rw [bne_eq_false_iff_eq]
    refine eq_of_getLsbD_eq fun j hj => ?_
    rw [getLsbD_and, getLsbD_bit hj, getLsbD_zero]
    by_cases hji : j = i
    · rw [hji, h, Bool.false_and]
    · rw [decide_eq_false hji, Bool.and_false]

theorem getLsbD_set_bit (b : BitVec w) (i : Nat) {j : Nat} (hj : j < w) :
    (b ||| 1#w <<< i).getLsbD j = (decide (j = i) || b.getLsbD j) := by
  rw [getLsbD_or, getLsbD_bit hj, Bool.or_comm]

theorem getLsbD_clear_bit (b : BitVec w) (i : Nat) {j : Nat} (hj : j < w) :
    (b &&& ~~~(1#w <<< i)).getLsbD j = (!decide (j = i) && b.getLsbD j) := by
  rw [getLsbD_and, getLsbD_not, getLsbD_bit hj, decide_eq_true hj, Bool.true_and,
    Bool.and_comm]

end Microgarbage.Lib
