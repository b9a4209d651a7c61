import Mathlib.Algebra.Ring.Nat
import Mathlib.Data.Nat.ModEq

/-!
# Powers of two as masks

`x & (c - 1)` is the remainder by a power of two `c`, `x & ~(c - 1)` the multiple below, and
`(x + c - 1) & ~(c - 1)` the multiple above as long as the sum fits.
-/

namespace Microgarbage.Lib

/-- The next multiple. -/
def roundUp (v align : Nat) : Nat := (v + (align - 1)) / align * align

theorem le_roundUp {v align : Nat} (h : 0 < align) : v ≤ roundUp v align := by
  unfold roundUp
  have hdiv := Nat.div_add_mod (v + (align - 1)) align
  have hlt := Nat.mod_lt (v + (align - 1)) h
  rw [Nat.mul_comm] at hdiv
  omega

/-- Where the multiple above fits, the sum that it is computed from does. -/
theorem roundUp_fits {v k w : Nat} (hv : 0 < v) (h : roundUp v (2 ^ k) < 2 ^ w) :
    k < w ∧ v + (2 ^ k - 1) < 2 ^ w := by
  have hpos := Nat.two_pow_pos k
  have hdvd : 2 ^ k ∣ roundUp v (2 ^ k) := Nat.dvd_mul_left ..
  have hle := le_roundUp (v := v) hpos
  have hlow := Nat.le_of_dvd (Nat.lt_of_lt_of_le hv hle) hdvd
  have hk : k < w := (Nat.pow_lt_pow_iff_right Nat.one_lt_two).mp (Nat.lt_of_le_of_lt hlow h)
  have hgap := Nat.le_of_dvd (by omega)
    (Nat.dvd_sub (Nat.pow_dvd_pow 2 (Nat.le_of_lt hk)) hdvd)
  have hdiv := Nat.lt_div_mul_add (a := v + (2 ^ k - 1)) hpos
  unfold roundUp at hgap h
  exact ⟨hk, by omega⟩

theorem roundUp_mod (v align : Nat) : roundUp v align % align = 0 := Nat.mul_mod_left ..

section Mask

variable {w k : Nat} {c : BitVec w}

theorem exists_two_pow (h0 : c ≠ 0) (hc : c &&& (c - 1) = 0) : ∃ k, c.toNat = 2 ^ k := by
  have hpos : c.toNat ≠ 0 := fun h => h0 (BitVec.eq_of_toNat_eq (h.trans rfl))
  have hw : 0 < w := by
    rcases Nat.eq_zero_or_pos w with rfl | hw
    · exact absurd (BitVec.eq_nil c ▸ rfl) h0
    · exact hw
  have hone : (1 : BitVec w).toNat = 1 := Nat.mod_eq_of_lt (Nat.one_lt_two_pow hw.ne')
  have hpred : (c - 1).toNat = c.toNat - 1 := by
    rw [BitVec.toNat_sub_of_le (BitVec.le_def.mpr (by omega)), hone]
  refine (Nat.and_sub_one_eq_zero_iff_isPowerOfTwo hpos).mp ?_
  rw [← hpred, ← BitVec.toNat_and, hc]
  rfl

variable (hc : c.toNat = 2 ^ k)

include hc

theorem toNat_pred : (c - 1).toNat = 2 ^ k - 1 := by
  have hlt := c.isLt
  have hpos := Nat.two_pow_pos k
  rcases Nat.eq_zero_or_pos w with rfl | hw
  · omega
  · have hone : (1 : BitVec w).toNat = 1 := Nat.mod_eq_of_lt (Nat.one_lt_two_pow hw.ne')
    rw [BitVec.toNat_sub_of_le (BitVec.le_def.mpr (by omega)), hone, hc]

theorem toNat_mask (x : BitVec w) : (x &&& (c - 1)).toNat = x.toNat % 2 ^ k := by
  rw [BitVec.toNat_and, toNat_pred hc, Nat.and_two_pow_sub_one_eq_mod]

theorem toNat_mask_not (x : BitVec w) :
    (x &&& ~~~(c - 1)).toNat = x.toNat / 2 ^ k * 2 ^ k := by
  have hzero : (x &&& (c - 1)) &&& (x &&& ~~~(c - 1)) = 0#w := by
    ext i hi
    simp only [BitVec.getElem_and, BitVec.getElem_not, BitVec.getElem_zero]
    cases x[i] <;> cases (c - 1)[i] <;> rfl
  have hor : (x &&& (c - 1)) ||| (x &&& ~~~(c - 1)) = x := by
    ext i hi
    simp only [BitVec.getElem_or, BitVec.getElem_and, BitVec.getElem_not]
    cases x[i] <;> cases (c - 1)[i] <;> rfl
  have hsum := BitVec.toNat_add_of_and_eq_zero hzero
  rw [BitVec.add_eq_or_of_and_eq_zero _ _ hzero, hor, toNat_mask hc] at hsum
  have hdiv := Nat.div_add_mod x.toNat (2 ^ k)
  rw [Nat.mul_comm] at hdiv
  omega

theorem toNat_roundUp {v : BitVec w} (hv : v.toNat + (2 ^ k - 1) < 2 ^ w) :
    ((v + c - 1) &&& ~~~(c - 1)).toNat = roundUp v.toNat (2 ^ k) := by
  have hpred := toNat_pred hc
  have hsum : (v + c - 1).toNat = v.toNat + (2 ^ k - 1) := by
    rw [BitVec.sub_eq_add_neg, BitVec.add_assoc, ← BitVec.sub_eq_add_neg, BitVec.toNat_add, hpred]
    exact Nat.mod_eq_of_lt hv
  rw [toNat_mask_not hc, hsum]
  rfl

end Mask

end Microgarbage.Lib
