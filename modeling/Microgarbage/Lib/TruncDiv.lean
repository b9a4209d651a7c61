import Mathlib.Algebra.Order.Ring.Int
import Mathlib.Tactic.Ring

/-!
# Truncated quotients

The quotient of a scaled dividend, taken in two parts: the quotient scaled, and the quotient of the
scaled remainder. Dividends that are far apart have different quotients.
-/

namespace Microgarbage.Lib

variable {x y b q u : Int}

/-- A quotient is the one whose remainder has the sign of the dividend. -/
theorem tdiv_eq_of_rem (hb : b ≠ 0) (h : x = b * q + u) (hlt : u.natAbs < b.natAbs)
    (hsign : 0 ≤ x ∧ 0 ≤ u ∨ x ≤ 0 ∧ u ≤ 0) : x.tdiv b = q := by
  rcases hsign with ⟨hx, hu⟩ | ⟨hx, hu⟩
  · exact ((Int.tdiv_tmod_unique hx hb).mpr ⟨by omega, hu, by omega⟩).1
  · exact ((Int.tdiv_tmod_unique' hx hb).mpr ⟨by omega, by omega, hu⟩).1

theorem tmod_nonpos (b : Int) (hx : x ≤ 0) : x.tmod b ≤ 0 := by
  have hneg := Int.tmod_nonneg b (show 0 ≤ -x by omega)
  rw [Int.neg_tmod] at hneg
  omega

theorem tmod_sign (x b : Int) : 0 ≤ x ∧ 0 ≤ x.tmod b ∨ x ≤ 0 ∧ x.tmod b ≤ 0 := by
  rcases Int.le_total 0 x with hx | hx
  · exact .inl ⟨hx, Int.tmod_nonneg b hx⟩
  · exact .inr ⟨hx, tmod_nonpos b hx⟩

theorem natAbs_tmod_lt (x : Int) (hb : b ≠ 0) : (x.tmod b).natAbs < b.natAbs := by
  rw [Int.natAbs_tmod]
  exact Nat.mod_lt _ (Int.natAbs_pos.mpr hb)

theorem tdiv_scaled (hb : b ≠ 0) {s : Int} (hs : 0 < s) :
    (x * s).tdiv b = x.tdiv b * s + (x.tmod b * s).tdiv b := by
  have hx := Int.mul_tdiv_add_tmod x b
  have hr := Int.mul_tdiv_add_tmod (x.tmod b * s) b
  refine tdiv_eq_of_rem hb (u := (x.tmod b * s).tmod b) ?_ (natAbs_tmod_lt _ hb) ?_
  · calc x * s = (b * x.tdiv b + x.tmod b) * s := by rw [hx]
      _ = b * (x.tdiv b * s) + x.tmod b * s := by ring
      _ = b * (x.tdiv b * s) + (b * (x.tmod b * s).tdiv b + (x.tmod b * s).tmod b) := by rw [hr]
      _ = b * (x.tdiv b * s + (x.tmod b * s).tdiv b) + (x.tmod b * s).tmod b := by ring
  · rcases tmod_sign x b with ⟨hx, hu⟩ | ⟨hx, hu⟩
    · exact .inl ⟨Int.mul_nonneg hx hs.le, Int.tmod_nonneg b (Int.mul_nonneg hu hs.le)⟩
    · exact .inr ⟨Int.mul_nonpos_of_nonpos_of_nonneg hx hs.le,
        tmod_nonpos b (Int.mul_nonpos_of_nonpos_of_nonneg hu hs.le)⟩

theorem natAbs_sub_lt_of_tdiv_eq (hb : b ≠ 0) (h : x.tdiv b = y.tdiv b) :
    (x - y).natAbs < 2 * b.natAbs := by
  have hx := Int.mul_tdiv_add_tmod x b
  have hy := Int.mul_tdiv_add_tmod y b
  have hxlt := natAbs_tmod_lt x hb
  have hylt := natAbs_tmod_lt y hb
  rw [h] at hx
  omega

end Microgarbage.Lib
