import Mathlib.Data.Nat.Sqrt
import Mathlib.Tactic.Ring
import Mathlib.Tactic.Linarith

/-!
# Square roots by digits

The restoring square root, one binary digit of the root a step: the remainder, and twice the part of
the root found so far, scaled to the place of the next digit.
-/

namespace Microgarbage.Lib

/-- The digits of the root at the places below `k`. -/
def digitRoot : Nat → Nat → Nat → Nat
  | 0, _, root => root
  | k + 1, rem, root =>
    if root + 4 ^ k ≤ rem then digitRoot k (rem - (root + 4 ^ k)) (root / 2 + 4 ^ k)
    else digitRoot k rem (root / 2)

/-- The state of the loop: `p` is the part of the root of `n` found so far, whose next digit is at
place `k - 1`. -/
structure PartialRoot (n k p rem root : Nat) : Prop where
  low : p * p ≤ n
  high : n < (p + 2 ^ k) * (p + 2 ^ k)
  dvd : 2 ^ k ∣ p
  rem_eq : rem = n - p * p
  root_eq : root = p * 2 ^ k

namespace PartialRoot

variable {n k p rem root : Nat}

theorem start (h : n < 4 ^ k) : PartialRoot n k 0 n 0 where
  low := Nat.zero_le n
  high := by
    rw [Nat.zero_add, ← Nat.mul_pow]
    exact h
  dvd := Nat.dvd_zero _
  rem_eq := rfl
  root_eq := (Nat.zero_mul _).symm

theorem test_iff (h : PartialRoot n (k + 1) p rem root) :
    root + 4 ^ k ≤ rem ↔ (p + 2 ^ k) * (p + 2 ^ k) ≤ n := by
  have hsq : (p + 2 ^ k) * (p + 2 ^ k) = p * p + (root + 4 ^ k) := by
    rw [h.root_eq, show (4 : Nat) = 2 * 2 from rfl, Nat.mul_pow]
    ring
  have hlow := h.low
  rw [h.rem_eq, hsq]
  omega

theorem half (h : PartialRoot n (k + 1) p rem root) : root / 2 = p * 2 ^ k := by
  rw [h.root_eq, Nat.pow_succ, ← Nat.mul_assoc, Nat.mul_div_cancel _ (by decide)]

theorem take (h : PartialRoot n (k + 1) p rem root) (htest : root + 4 ^ k ≤ rem) :
    PartialRoot n k (p + 2 ^ k) (rem - (root + 4 ^ k)) (root / 2 + 4 ^ k) where
  low := h.test_iff.mp htest
  high := by
    have hhigh := h.high
    rw [Nat.pow_succ] at hhigh
    rwa [show p + 2 ^ k + 2 ^ k = p + 2 ^ k * 2 by omega]
  dvd := Nat.dvd_add ((Nat.pow_dvd_pow 2 (Nat.le_succ k)).trans h.dvd) (Nat.dvd_refl _)
  rem_eq := by
    have hsq : (p + 2 ^ k) * (p + 2 ^ k) = p * p + (root + 4 ^ k) := by
      rw [h.root_eq, show (4 : Nat) = 2 * 2 from rfl, Nat.mul_pow]
      ring
    rw [h.rem_eq, hsq]
    omega
  root_eq := by
    rw [h.half, show (4 : Nat) = 2 * 2 from rfl, Nat.mul_pow]
    ring

theorem leave (h : PartialRoot n (k + 1) p rem root) (htest : ¬root + 4 ^ k ≤ rem) :
    PartialRoot n k p rem (root / 2) where
  low := h.low
  high := Nat.lt_of_not_le fun hle => htest (h.test_iff.mpr hle)
  dvd := (Nat.pow_dvd_pow 2 (Nat.le_succ k)).trans h.dvd
  rem_eq := h.rem_eq
  root_eq := h.half

/-- What the loop compares with the remainder is within the range of `n`. -/
theorem test_lt {w : Nat} (h : PartialRoot n (k + 1) p rem root) (hn : n < 4 ^ w) (hk : k < w) :
    root + 4 ^ k < 4 ^ w := by
  have hroot : p < 2 ^ w := by
    refine Nat.mul_self_lt_mul_self_iff.mp (h.low.trans_lt ?_)
    rwa [← Nat.mul_pow]
  have hplace : p + 2 ^ (k + 1) ≤ 2 ^ w := by
    obtain ⟨a, rfl⟩ := h.dvd
    obtain ⟨b, hb⟩ := Nat.pow_dvd_pow 2 (show k + 1 ≤ w from hk)
    rw [hb] at hroot ⊢
    have hab : a < b := Nat.lt_of_mul_lt_mul_left hroot
    calc 2 ^ (k + 1) * a + 2 ^ (k + 1) = 2 ^ (k + 1) * (a + 1) := by ring
      _ ≤ 2 ^ (k + 1) * b := Nat.mul_le_mul_left _ hab
  have hdigit : 2 ^ (k + 1) ≤ 2 ^ w := Nat.pow_le_pow_right (by decide) hk
  have hfour : (4 : Nat) ^ k < 2 ^ (k + 1) * 2 ^ (k + 1) := by
    rw [← Nat.mul_pow]
    exact Nat.pow_lt_pow_right (by decide) (Nat.lt_succ_self k)
  calc root + 4 ^ k < p * 2 ^ (k + 1) + 2 ^ (k + 1) * 2 ^ (k + 1) := by
        rw [h.root_eq]
        exact Nat.add_lt_add_left hfour _
    _ = (p + 2 ^ (k + 1)) * 2 ^ (k + 1) := by ring
    _ ≤ 2 ^ w * 2 ^ w := Nat.mul_le_mul hplace hdigit
    _ = 4 ^ w := by
        rw [← Nat.mul_pow]

end PartialRoot

theorem digitRoot_eq {n : Nat} : ∀ {k p rem root : Nat}, PartialRoot n k p rem root →
    digitRoot k rem root = Nat.sqrt n
  | 0, p, rem, root, h => by
    rw [digitRoot, h.root_eq, Nat.pow_zero, Nat.mul_one]
    exact Nat.eq_sqrt.mpr ⟨h.low, h.high⟩
  | k + 1, p, rem, root, h => by
    rw [digitRoot]
    by_cases htest : root + 4 ^ k ≤ rem
    · rw [if_pos htest]
      exact digitRoot_eq (h.take htest)
    · rw [if_neg htest]
      exact digitRoot_eq (h.leave htest)

/-- The floor of a root of a quotient is that of the floor of the quotient. -/
theorem sqrt_div_spec {n d : Nat} (hd : 0 < d) :
    Nat.sqrt (n / d) * Nat.sqrt (n / d) * d ≤ n ∧
      n < (Nat.sqrt (n / d) + 1) * (Nat.sqrt (n / d) + 1) * d := by
  constructor
  · calc Nat.sqrt (n / d) * Nat.sqrt (n / d) * d ≤ n / d * d :=
          Nat.mul_le_mul_right d (Nat.sqrt_le (n / d))
      _ ≤ n := Nat.div_mul_le_self n d
  · exact (Nat.div_lt_iff_lt_mul hd).mp (Nat.lt_succ_sqrt (n / d))

end Microgarbage.Lib
