import Mathlib.Data.Nat.Prime.Basic
import Mathlib.Tactic.Ring

/-!
# Division by a reciprocal

Dividing by `d` is multiplying by a reciprocal `m` of `d` scaled by `N`, as long as the rounding of
`m` costs less than one part in `N` over the whole range of dividends. The scale is a power of two,
so dividing by it is a shift; a reciprocal that needs one bit more than the word is multiplied
without that bit, which is then an addition.
-/

namespace Microgarbage.Lib

theorem reciprocal_quotient {n d m N : Nat} (hd : 0 < d) (hlo : N ≤ m * d)
    (hhi : n * (m * d) < n * N + N) : n * m / N = n / d := by
  have hq : n / d * d ≤ n := Nat.div_mul_le_self n d
  have hr : n < (n / d + 1) * d := Nat.lt_mul_of_div_lt (Nat.lt_succ_self _) hd
  refine Nat.div_eq_of_lt_le ?_ ?_
  · refine Nat.le_of_mul_le_mul_right (c := d) ?_ hd
    calc n / d * N * d = n / d * d * N := by ring
      _ ≤ n * N := Nat.mul_le_mul_right N hq
      _ ≤ n * (m * d) := Nat.mul_le_mul_left n hlo
      _ = n * m * d := by ring
  · refine Nat.lt_of_mul_lt_mul_right (a := d) ?_
    calc n * m * d = n * (m * d) := by ring
      _ < n * N + N := hhi
      _ = (n + 1) * N := by ring
      _ ≤ (n / d + 1) * d * N := Nat.mul_le_mul_right N hr
      _ = (n / d + 1) * N * d := by ring

theorem not_dvd_two_pow {d k : Nat} (h : ∀ j, d ≠ 2 ^ j) : ¬d ∣ 2 ^ k := by
  intro hdvd
  obtain ⟨j, -, hj⟩ := (Nat.dvd_prime_pow Nat.prime_two).mp hdvd
  exact h j hj

theorem ceil_div {N d : Nat} (hd : 0 < d) (h : ¬d ∣ N) : (N + d - 1) / d = N / d + 1 := by
  have hmod : 0 < N % d := Nat.pos_of_ne_zero fun h0 => h (Nat.dvd_of_mod_eq_zero h0)
  have hdiv := Nat.div_add_mod N d
  have hlt := Nat.mod_lt N hd
  refine Nat.div_eq_of_lt_le ?_ ?_
  · rw [Nat.add_one_mul, Nat.mul_comm]
    omega
  · rw [Nat.add_one_mul, Nat.add_one_mul, Nat.mul_comm]
    omega

theorem floor_succ_mul {N d : Nat} (hd : 0 < d) : N < (N / d + 1) * d ∧ (N / d + 1) * d ≤ N + d := by
  have hdiv := Nat.div_add_mod N d
  have hlt := Nat.mod_lt N hd
  rw [Nat.add_one_mul, Nat.mul_comm]
  omega

section Shifts

variable {w k n d : Nat}

/-- Every dividend of `w` bits is divided by `d ≤ 2 ^ k` through `2 ^ (w + k) / d`. -/
theorem word_quotient (hd : 0 < d) (hk : d ≤ 2 ^ k) (hn : n < 2 ^ w) :
    n * (2 ^ (w + k) / d + 1) / 2 ^ (w + k) = n / d := by
  obtain ⟨hlo, hhi⟩ := floor_succ_mul (N := 2 ^ (w + k)) hd
  refine reciprocal_quotient hd hlo.le ?_
  calc n * ((2 ^ (w + k) / d + 1) * d) ≤ n * (2 ^ (w + k) + d) := Nat.mul_le_mul_left n hhi
    _ = n * 2 ^ (w + k) + n * d := Nat.mul_add ..
    _ ≤ n * 2 ^ (w + k) + n * 2 ^ k := Nat.add_le_add_left (Nat.mul_le_mul_left n hk) _
    _ < n * 2 ^ (w + k) + 2 ^ w * 2 ^ k :=
      Nat.add_lt_add_left (Nat.mul_lt_mul_of_pos_right hn (Nat.two_pow_pos k)) _
    _ = n * 2 ^ (w + k) + 2 ^ (w + k) := by rw [Nat.pow_add 2 w k]

/-- The reciprocal of a `d` between two powers of two has `w + 1` bits. -/
theorem reciprocal_bounds (hlo : 2 ^ k < d) (hhi : d < 2 ^ (k + 1)) (hw : k < w) :
    2 ^ w ≤ 2 ^ (w + (k + 1)) / d ∧ 2 ^ (w + (k + 1)) / d + 1 < 2 ^ (w + 1) := by
  have hd : 0 < d := Nat.lt_of_le_of_lt (Nat.zero_le _) hlo
  have hword : 2 ^ (k + 1) ≤ 2 ^ w := Nat.pow_le_pow_right Nat.two_pos hw
  constructor
  · rw [Nat.le_div_iff_mul_le hd, Nat.pow_add]
    exact Nat.mul_le_mul_left _ hhi.le
  · have hgap : 2 ^ (w + (k + 1)) + 2 ^ (w + 1) ≤ 2 ^ (w + 1) * d := by
      have h : 2 ^ (w + 1) * (2 ^ k + 1) ≤ 2 ^ (w + 1) * d := Nat.mul_le_mul_left _ hlo
      calc 2 ^ (w + (k + 1)) + 2 ^ (w + 1) = 2 ^ (w + 1) * (2 ^ k + 1) := by ring
        _ ≤ 2 ^ (w + 1) * d := h
    have hdouble : 2 ^ (w + 1) = 2 * 2 ^ w := by ring
    have hdw : d < 2 ^ w := Nat.lt_of_lt_of_le hhi hword
    refine Nat.add_lt_of_lt_sub ?_
    rw [Nat.div_lt_iff_lt_mul hd, Nat.sub_mul, Nat.one_mul]
    omega

theorem mul_extra_bit (n m w k : Nat) :
    n * (2 ^ w + m) / 2 ^ (w + k) = (n + n * m / 2 ^ w) / 2 ^ k := by
  rw [Nat.pow_add, ← Nat.div_div_eq_div_mul, Nat.mul_add, Nat.add_comm,
    Nat.add_mul_div_right _ _ (Nat.two_pow_pos w), Nat.add_comm]

/-- Half the difference and the subtrahend add up to half the sum, without leaving the word. -/
theorem half_sum {n t k : Nat} (h : t ≤ n) :
    ((n - t) / 2 + t) / 2 ^ k = (n + t) / 2 ^ (k + 1) := by
  rw [Nat.pow_succ', ← Nat.div_div_eq_div_mul]
  congr 1
  omega

theorem extra_bit_quotient {m : Nat} (hd : 0 < d) (hk : d ≤ 2 ^ (k + 1)) (hn : n < 2 ^ w)
    (hm : 2 ^ w + m = 2 ^ (w + (k + 1)) / d + 1) (ht : n * m / 2 ^ w ≤ n) :
    ((n - n * m / 2 ^ w) / 2 + n * m / 2 ^ w) / 2 ^ k = n / d := by
  rw [half_sum ht, ← mul_extra_bit, hm, word_quotient hd hk hn]

end Shifts

theorem high_half (a b B : Nat) (hB : 0 < B) :
    a * b / (B * B) =
      a / B * (b / B) + a / B * (b % B) / B + a % B * (b / B) / B +
        (a % B * (b % B) / B + a / B * (b % B) % B + a % B * (b / B) % B) / B := by
  have hsplit : a * b = a / B * (b / B) * (B * B) +
      (a / B * (b % B) + a % B * (b / B)) * B + a % B * (b % B) := by
    calc a * b = (B * (a / B) + a % B) * (B * (b / B) + b % B) := by
          rw [Nat.div_add_mod, Nat.div_add_mod]
      _ = _ := by ring
  have hhl := Nat.div_add_mod (a / B * (b % B)) B
  have hlh := Nat.div_add_mod (a % B * (b / B)) B
  rw [← Nat.div_div_eq_div_mul, hsplit, ← Nat.mul_assoc, ← Nat.add_mul, Nat.add_comm,
    Nat.add_mul_div_right _ _ hB]
  have hmid : a % B * (b % B) / B + (a / B * (b / B) * B + (a / B * (b % B) + a % B * (b / B))) =
      a % B * (b % B) / B + a / B * (b % B) % B + a % B * (b / B) % B +
        (a / B * (b / B) + a / B * (b % B) / B + a % B * (b / B) / B) * B := by
    rw [Nat.add_mul, Nat.add_mul, Nat.mul_comm (a / B * (b % B) / B) B,
      Nat.mul_comm (a % B * (b / B) / B) B]
    omega
  rw [hmid, Nat.add_mul_div_right _ _ hB, Nat.add_comm]

end Microgarbage.Lib
