import Mathlib.Algebra.Ring.Nat
import Mathlib.Algebra.Order.Ring.Int
import Microgarbage.Lib.DigitRoot

/-!
# Square roots

`fx_isqrt64` of `fixed_point.h` and the roots of the format with 16 fractional bits, which are
derived from it.
-/

namespace Microgarbage.Math

open Lib BitVec

/-- `q16_16_t` -/
abbrev Q16 := BitVec 32

def q16FracBits : Nat := 16

def q16Max : Q16 := 0x7FFFFFFF

/-- `while (bit > x) bit >>= 2;` -/
def topBit (x bit : BitVec 64) : BitVec 64 :=
  if _h : x < bit then topBit x (bit >>> 2) else bit
termination_by bit.toNat
decreasing_by
  have hpos : 0 < bit.toNat := Nat.zero_lt_of_lt (lt_def.mp _h)
  rw [toNat_ushiftRight, Nat.shiftRight_eq_div_pow]
  omega

/-- `while (bit != 0)` -/
def rootLoop (x res bit : BitVec 64) : BitVec 64 :=
  if _h : bit = 0 then res
  else if res + bit ≤ x then rootLoop (x - (res + bit)) ((res >>> 1) + bit) (bit >>> 2)
  else rootLoop x (res >>> 1) (bit >>> 2)
termination_by bit.toNat
decreasing_by
  all_goals
    have hpos : 0 < bit.toNat := Nat.pos_of_ne_zero fun h0 => _h (eq_of_toNat_eq h0)
    rw [toNat_ushiftRight, Nat.shiftRight_eq_div_pow]
    omega

/-- `fx_isqrt64` -/
def fxIsqrt64 (x : BitVec 64) : BitVec 32 :=
  (rootLoop x 0 (topBit x ((1 : BitVec 64) <<< 62))).setWidth 32

/-- `q16_sqrt` -/
def q16Sqrt (x : Q16) : Q16 :=
  if x.sle 0 then 0 else fxIsqrt64 (x.setWidth 64 <<< q16FracBits)

/-- `q16_rsqrt` -/
def q16Rsqrt (x : Q16) : Q16 :=
  if x.sle 0 then q16Max else fxIsqrt64 ((1 : BitVec 64) <<< 48 / x.setWidth 64)

/-! ## The loops -/

/-- The places of the root: `bit` is zero after the last. -/
def Place (k : Nat) (bit : BitVec 64) : Prop := bit.toNat = 4 ^ k / 4

theorem Place.shift {k : Nat} {bit : BitVec 64} (h : Place (k + 1) bit) : Place k (bit >>> 2) := by
  unfold Place at h ⊢
  rw [toNat_ushiftRight, Nat.shiftRight_eq_div_pow, h, Nat.pow_succ,
    Nat.mul_div_cancel _ (by decide)]

theorem Place.succ {k : Nat} {bit : BitVec 64} (h : Place (k + 1) bit) : bit.toNat = 4 ^ k := by
  rw [show bit.toNat = 4 ^ (k + 1) / 4 from h, Nat.pow_succ, Nat.mul_div_cancel _ (by decide)]

theorem Place.zero {bit : BitVec 64} (h : Place 0 bit) : bit = 0 := eq_of_toNat_eq h

theorem topBit_place {x : BitVec 64} : ∀ {k : Nat} {bit : BitVec 64}, k ≤ 32 → x.toNat < 4 ^ k →
    Place k bit → ∃ m ≤ 32, x.toNat < 4 ^ m ∧ Place m (topBit x bit)
  | 0, bit, hk, hx, hbit => by
    refine ⟨0, hk, hx, ?_⟩
    rw [topBit, dif_neg]
    · exact hbit
    · rw [hbit.zero]
      exact Nat.not_lt_zero _
  | k + 1, bit, hk, hx, hbit => by
    rw [topBit]
    by_cases hlt : x < bit
    · rw [dif_pos hlt]
      refine topBit_place (by omega) ?_ hbit.shift
      rw [← hbit.succ]
      exact hlt
    · rw [dif_neg hlt]
      exact ⟨k + 1, hk, hx, hbit⟩

theorem rootLoop_eq {n : Nat} (hn : n < 4 ^ 32) : ∀ {k p : Nat} {x res bit : BitVec 64}, k ≤ 32 →
    PartialRoot n k p x.toNat res.toNat → Place k bit →
      (rootLoop x res bit).toNat = digitRoot k x.toNat res.toNat
  | 0, p, x, res, bit, _, _, hbit => by
    rw [rootLoop, dif_pos hbit.zero, digitRoot]
  | k + 1, p, x, res, bit, hk, h, hbit => by
    have hbound : res.toNat + 4 ^ k < 2 ^ 64 := h.test_lt hn (show k < 32 by omega)
    have hsum : (res + bit).toNat = res.toNat + 4 ^ k := by
      rw [toNat_add, hbit.succ, Nat.mod_eq_of_lt hbound]
    have hhalf : (res >>> 1).toNat = res.toNat / 2 := by
      rw [toNat_ushiftRight, Nat.shiftRight_eq_div_pow]
    have hne : bit ≠ 0 := by
      intro h0
      have := hbit.succ
      rw [h0] at this
      exact absurd this (Nat.pow_pos (by decide)).ne
    rw [rootLoop, dif_neg hne, digitRoot]
    by_cases htest : res.toNat + 4 ^ k ≤ x.toNat
    · have hle : res + bit ≤ x := by
        rw [le_def, hsum]
        exact htest
      have hrem : (x - (res + bit)).toNat = x.toNat - (res.toNat + 4 ^ k) := by
        rw [toNat_sub_of_le hle, hsum]
      have hroot : ((res >>> 1) + bit).toNat = res.toNat / 2 + 4 ^ k := by
        rw [toNat_add, hhalf, hbit.succ, Nat.mod_eq_of_lt]
        exact (Nat.add_le_add_right (Nat.div_le_self ..) _).trans_lt hbound
      rw [if_pos hle, if_pos htest, rootLoop_eq hn (by omega) (hrem ▸ hroot ▸ h.take htest)
        hbit.shift, hrem, hroot]
    · have hnle : ¬res + bit ≤ x := by
        rw [le_def, hsum]
        exact htest
      rw [if_neg hnle, if_neg htest, rootLoop_eq hn (by omega) (hhalf ▸ h.leave htest) hbit.shift,
        hhalf]

theorem fxIsqrt64_eq (x : BitVec 64) : (fxIsqrt64 x).toNat = Nat.sqrt x.toNat := by
  obtain ⟨m, hm, hx, hbit⟩ := topBit_place (Nat.le_refl 32) x.isLt
    (show Place 32 ((1 : BitVec 64) <<< 62) by unfold Place; decide)
  have hstart : PartialRoot x.toNat m 0 x.toNat (0 : BitVec 64).toNat := PartialRoot.start hx
  unfold fxIsqrt64
  rw [toNat_setWidth, rootLoop_eq x.isLt hm hstart hbit, digitRoot_eq hstart]
  exact Nat.mod_eq_of_lt (Nat.sqrt_lt.mpr x.isLt)

/-! ## The roots of a fixed-point number -/

theorem not_sle_zero {x : Q16} (h : 0 < x.toInt) : ¬x.sle 0 := by
  rw [sle_iff_toInt_le]
  exact Int.not_le.mpr h

theorem toInt_of_nonneg {x : Q16} (h : 0 ≤ x.toInt) : x.toInt = x.toNat ∧ x.toNat < 2 ^ 31 := by
  rw [toInt_eq_toNat_cond] at h ⊢
  split at h <;> omega

/-- `r` is the floor of the root of `n`. -/
def FloorRoot (r n : Int) : Prop := 0 ≤ r ∧ r * r ≤ n ∧ n < (r + 1) * (r + 1)

theorem floorRoot_sqrt (n : Nat) : FloorRoot (Nat.sqrt n : Nat) n :=
  ⟨Int.natCast_nonneg _, mod_cast Nat.sqrt_le n, mod_cast Nat.lt_succ_sqrt n⟩

theorem fxIsqrt64_toInt {x : BitVec 64} (h : x.toNat < 2 ^ 62) :
    (fxIsqrt64 x).toInt = (Nat.sqrt x.toNat : Nat) := by
  have hsmall : Nat.sqrt x.toNat < 2 ^ 31 := Nat.sqrt_lt.mpr h
  rw [toInt_eq_toNat_of_lt (by rw [fxIsqrt64_eq]; omega), fxIsqrt64_eq]

theorem q16Sqrt_eq {x : Q16} (h : 0 ≤ x.toInt) :
    (q16Sqrt x).toInt = (Nat.sqrt (x.toNat * 2 ^ 16) : Nat) := by
  unfold q16Sqrt
  obtain ⟨-, hlt⟩ := toInt_of_nonneg h
  rcases Int.le_iff_eq_or_lt.mp h with hzero | hpos
  · obtain rfl : x = 0 := eq_of_toInt_eq hzero.symm
    decide
  · have hwide : (x.setWidth 64 <<< q16FracBits).toNat = x.toNat * 2 ^ 16 := by
      rw [toNat_shiftLeft, toNat_setWidth, Nat.shiftLeft_eq, q16FracBits]
      omega
    rw [if_neg (not_sle_zero hpos), fxIsqrt64_toInt (by omega), hwide]

theorem q16Rsqrt_eq {x : Q16} (h : 0 < x.toInt) :
    (q16Rsqrt x).toInt = (Nat.sqrt (2 ^ 48 / x.toNat) : Nat) := by
  have hquot : ((1 : BitVec 64) <<< 48 / x.setWidth 64).toNat = 2 ^ 48 / x.toNat := by
    rw [toNat_udiv, toNat_setWidth, Nat.mod_eq_of_lt (by omega)]
    rfl
  unfold q16Rsqrt
  rw [if_neg (not_sle_zero h), fxIsqrt64_toInt, hquot]
  rw [hquot]
  exact (Nat.div_le_self ..).trans_lt (by decide)

/-- The roots, as integers with the fractional bits of their formats: the reciprocal root is that of
one quotient, and the rounding of the quotient does not change it. -/
theorem roots_floor :
    (∀ x : BitVec 64, FloorRoot (fxIsqrt64 x).toNat x.toNat) ∧
      (∀ x : Q16, 0 ≤ x.toInt → FloorRoot (q16Sqrt x).toInt (x.toInt * 2 ^ 16)) ∧
        (∀ x : Q16, 0 < x.toInt → FloorRoot (q16Rsqrt x).toInt (2 ^ 48 / x.toInt) ∧
          (q16Rsqrt x).toInt * (q16Rsqrt x).toInt * x.toInt ≤ 2 ^ 48 ∧
            2 ^ 48 < ((q16Rsqrt x).toInt + 1) * ((q16Rsqrt x).toInt + 1) * x.toInt) ∧
          q16Rsqrt 0 = q16Max := by
  refine ⟨fun x => ?_, fun x hx => ?_, fun x hx => ?_, by decide⟩
  · rw [fxIsqrt64_eq]
    exact floorRoot_sqrt x.toNat
  · rw [q16Sqrt_eq hx, (toInt_of_nonneg hx).1]
    exact floorRoot_sqrt (x.toNat * 2 ^ 16)
  · obtain ⟨heq, -⟩ := toInt_of_nonneg hx.le
    have hpos : 0 < x.toNat := by omega
    obtain ⟨hlow, hhigh⟩ := sqrt_div_spec (n := 2 ^ 48) hpos
    rw [q16Rsqrt_eq hx, heq]
    exact ⟨floorRoot_sqrt (2 ^ 48 / x.toNat), mod_cast hlow, mod_cast hhigh⟩

theorem roots_floor_two : FloorRoot (q16Sqrt 0x20000).toInt 0x200000000 ∧
    (q16Rsqrt 0x20000).toInt * (q16Rsqrt 0x20000).toInt * 0x20000 ≤ 2 ^ 48 :=
  ⟨roots_floor.2.1 0x20000 (by decide), (roots_floor.2.2.1 0x20000 (by decide)).2.1⟩

end Microgarbage.Math
