import Mathlib.Analysis.Complex.Norm
import Mathlib.Analysis.Real.Pi.Bounds
import Mathlib.Analysis.SpecialFunctions.Complex.Arctan
import Mathlib.Tactic.Linarith

/-!
# Rotations by shifts and additions

An integer vector is turned by the angle whose tangent is `2 ^ -i` when a shifted copy of each
coordinate is added to the other one. Each such step lengthens the vector by a factor that does not
depend on the direction, and loses less than one unit in each coordinate. A run of steps is a
rotation of the exact vector up to an error that grows with the number of steps. The error is counted
in each coordinate: a vector that is driven to an axis has its angle from the one across.
-/

namespace Microgarbage.Lib

open Complex

/-! ## One step -/

/-- The shift of step `i`, to the left or to the right. -/
def turn (left : Bool) (i : Nat) (p : Int × Int) : Int × Int :=
  if left then (p.1 - p.2 >>> i, p.2 + p.1 >>> i) else (p.1 + p.2 >>> i, p.2 - p.1 >>> i)

noncomputable section

/-- The tangent of step `i`. -/
def tangent (i : Nat) : ℝ := (1 / 2) ^ i

def signed (left : Bool) (t : ℝ) : ℝ := if left then t else -t

/-- The exact factor of step `i`. -/
def rotor (left : Bool) (i : Nat) : ℂ := ⟨1, signed left (tangent i)⟩

def point (p : Int × Int) : ℂ := ⟨p.1, p.2⟩

theorem point_re (x y : Int) : (point (x, y)).re = x := rfl

theorem tangent_pos (i : Nat) : 0 < tangent i := by
  unfold tangent
  positivity

theorem signed_sq (left : Bool) (t : ℝ) : signed left t ^ 2 = t ^ 2 := by
  cases left <;> simp [signed]

theorem tangent_mul (i : Nat) (t : ℝ) : tangent i * (t * 2 ^ i) = t := by
  unfold tangent
  rw [one_div, inv_pow, mul_comm t, ← mul_assoc, inv_mul_cancel₀ (by positivity), one_mul]

theorem tangent_le_one (i : Nat) : tangent i ≤ 1 := pow_le_one₀ (by norm_num) (by norm_num)

theorem shift_bounds (a : Int) (i : Nat) :
    ((a >>> i : Int) : ℝ) ≤ tangent i * a ∧ tangent i * (a + 1) ≤ ((a >>> i : Int) : ℝ) + 1 := by
  have hpow : (0 : Int) < (2 ^ i : Nat) := by positivity
  have hlow : (a >>> i) * 2 ^ i ≤ a := by
    rw [Int.shiftRight_eq_div_pow]
    exact_mod_cast Int.ediv_mul_le a hpow.ne'
  have hhigh : a + 1 ≤ (a >>> i + 1) * 2 ^ i := by
    rw [Int.shiftRight_eq_div_pow]
    exact_mod_cast Int.lt_ediv_add_one_mul_self a hpow
  have hlow' : ((a >>> i : Int) : ℝ) * 2 ^ i ≤ a := by exact_mod_cast hlow
  have hhigh' : (a : ℝ) + 1 ≤ (((a >>> i : Int) : ℝ) + 1) * 2 ^ i := by exact_mod_cast hhigh
  constructor
  · rw [← tangent_mul i ((a >>> i : Int) : ℝ)]
    exact mul_le_mul_of_nonneg_left hlow' (tangent_pos i).le
  · rw [← tangent_mul i (((a >>> i : Int) : ℝ) + 1)]
    exact mul_le_mul_of_nonneg_left hhigh' (tangent_pos i).le

theorem turn_exact (left : Bool) (p : Int × Int) :
    point (turn left 0 p) = point p * rotor left 0 := by
  unfold turn point rotor tangent signed
  cases left
  · apply Complex.ext
    · simp
    · simp
      ring
  · apply Complex.ext
    · simp
    · simp
      ring

/-- No coordinate of the integer vector is off by more than `m`. -/
def Near (p : Int × Int) (q : ℂ) (m : ℝ) : Prop := |(p.1 : ℝ) - q.re| ≤ m ∧ |(p.2 : ℝ) - q.im| ≤ m

/-- A step turns the error along with the vector, and each shift loses less than a unit. -/
theorem Near.turn {p : Int × Int} {q : ℂ} {m : ℝ} (h : Near p q m) (left : Bool) (i : Nat) :
    Near (turn left i p) (q * rotor left i) (m * (1 + tangent i) + (1 - tangent i)) := by
  obtain ⟨hx, hx'⟩ := shift_bounds p.1 i
  obtain ⟨hy, hy'⟩ := shift_bounds p.2 i
  have ht := (tangent_pos i).le
  obtain ⟨hre, hre'⟩ := abs_le.mp h.1
  obtain ⟨him, him'⟩ := abs_le.mp h.2
  have hre2 := mul_le_mul_of_nonneg_left hre ht
  have hre2' := mul_le_mul_of_nonneg_left hre' ht
  have him2 := mul_le_mul_of_nonneg_left him ht
  have him2' := mul_le_mul_of_nonneg_left him' ht
  cases left
  · constructor
    · simp [Lib.turn, rotor, signed, abs_le]
      constructor <;> linarith
    · simp [Lib.turn, rotor, signed, abs_le]
      constructor <;> linarith
  · constructor
    · simp [Lib.turn, rotor, signed, abs_le]
      constructor <;> linarith
    · simp [Lib.turn, rotor, signed, abs_le]
      constructor <;> linarith

/-! ## The gain -/

/-- What `n` steps lengthen a vector by. -/
def gain (n : Nat) : ℝ := ∏ i ∈ Finset.range n, √(1 + tangent i ^ 2)

def rotors (left : Nat → Bool) (n : Nat) : ℂ := ∏ i ∈ Finset.range n, rotor (left i) i

theorem norm_rotor (left : Bool) (i : Nat) : ‖rotor left i‖ = √(1 + tangent i ^ 2) := by
  unfold rotor
  rw [Complex.norm_eq_sqrt_sq_add_sq, signed_sq, one_pow]

theorem norm_rotors (left : Nat → Bool) (n : Nat) : ‖rotors left n‖ = gain n := by
  unfold rotors gain
  rw [norm_prod]
  exact Finset.prod_congr rfl fun i _ => norm_rotor (left i) i

theorem gain_sq (n : Nat) : gain n ^ 2 = ∏ i ∈ Finset.range n, (1 + tangent i ^ 2) := by
  unfold gain
  rw [← Finset.prod_pow]
  exact Finset.prod_congr rfl fun i _ => Real.sq_sqrt (by positivity)

theorem one_le_gain (n : Nat) : 1 ≤ gain n := by
  unfold gain
  refine Finset.one_le_prod fun i _ => ?_
  have hsq := sq_nonneg (tangent i)
  exact Real.one_le_sqrt.mpr (by linarith)

theorem gain_mono : Monotone gain := by
  refine monotone_nat_of_le_succ fun n => ?_
  have hsq := sq_nonneg (tangent n)
  have hone : 1 ≤ √(1 + tangent n ^ 2) := Real.one_le_sqrt.mpr (by linarith)
  unfold gain
  rw [Finset.prod_range_succ]
  exact le_mul_of_one_le_right (Finset.prod_nonneg fun i _ => Real.sqrt_nonneg _) hone

/-! ## Runs -/

/-- What each coordinate is off by after `n + 1` steps; the first step is exact. -/
def slack : Nat → ℝ
  | 0 => 0
  | n + 1 => slack n * (1 + tangent (n + 1)) + (1 - tangent (n + 1))

theorem slack_nonneg (n : Nat) : 0 ≤ slack n := by
  induction n with
  | zero => exact le_rfl
  | succ n ih =>
    have hmul := mul_nonneg ih (tangent_pos (n + 1)).le
    have ht := tangent_le_one (n + 1)
    rw [slack]
    linarith

theorem slack_mono : Monotone slack := by
  refine monotone_nat_of_le_succ fun n => ?_
  have hmul := mul_nonneg (slack_nonneg n) (tangent_pos (n + 1)).le
  have ht := tangent_le_one (n + 1)
  rw [slack]
  linarith

theorem norm_mul_rotors (left : Nat → Bool) (z : ℂ) (n : Nat) :
    ‖z * rotors left n‖ = gain n * ‖z‖ := by
  rw [norm_mul, norm_rotors, mul_comm]

section Run

variable {left : Nat → Bool} {p : Nat → Int × Int} (h : ∀ n, p (n + 1) = turn (left n) n (p n))

include h

theorem point_first : point (p 1) = point (p 0) * rotors left 1 := by
  rw [h 0, turn_exact, rotors, Finset.prod_range_one]

theorem run_error (n : Nat) :
    Near (p (n + 1)) (point (p 0) * rotors left (n + 1)) (slack n) := by
  induction n with
  | zero =>
    rw [← point_first h]
    simp [Near, point, slack]
  | succ n ih =>
    rw [h (n + 1), rotors, Finset.prod_range_succ, ← mul_assoc]
    exact ih.turn (left (n + 1)) (n + 1)

theorem run_norm (n : Nat) :
    |‖point (p (n + 1))‖ - gain (n + 1) * ‖point (p 0)‖| ≤ √2 * slack n := by
  rw [← norm_mul_rotors left]
  refine (abs_norm_sub_norm_le _ _).trans ((Complex.norm_le_sqrt_two_mul_max _).trans ?_)
  exact mul_le_mul_of_nonneg_left (max_le (run_error h n).1 (run_error h n).2) (Real.sqrt_nonneg 2)

end Run

/-! ## Angles -/

/-- The angle that `n` steps turn by, to the left. -/
def angle (left : Nat → Bool) (n : Nat) : ℝ :=
  ∑ i ∈ Finset.range n, signed (left i) (Real.arctan (tangent i))

theorem rotor_polar (left : Bool) (i : Nat) :
    rotor left i = √(1 + tangent i ^ 2) * exp (signed left (Real.arctan (tangent i)) * I) := by
  have hroot : √(1 + tangent i ^ 2) ≠ 0 := by positivity
  have hcos : √(1 + tangent i ^ 2) * Real.cos (Real.arctan (tangent i)) = 1 := by
    rw [Real.cos_arctan, mul_one_div_cancel hroot]
  have hsin : √(1 + tangent i ^ 2) * Real.sin (Real.arctan (tangent i)) = tangent i := by
    rw [Real.sin_arctan, mul_div_cancel₀ _ hroot]
  unfold rotor signed
  apply Complex.ext
  · rw [Complex.re_ofReal_mul, Complex.exp_ofReal_mul_I_re]
    cases left
    · simpa using hcos.symm
    · simpa using hcos.symm
  · rw [Complex.im_ofReal_mul, Complex.exp_ofReal_mul_I_im]
    cases left
    · simpa using hsin.symm
    · simpa using hsin.symm

theorem rotors_polar (left : Nat → Bool) (n : Nat) :
    rotors left n = gain n * exp (angle left n * I) := by
  unfold rotors gain angle
  rw [Complex.ofReal_sum, Finset.sum_mul, Complex.exp_sum, Complex.ofReal_prod,
    ← Finset.prod_mul_distrib]
  exact Finset.prod_congr rfl fun i _ => rotor_polar (left i) i

/-- The angle of a vector of the right half-plane against its coordinates. -/
theorem arg_side {p : ℂ} (hre : 0 ≤ p.re) : (p.im ≤ 0 → p.arg * ‖p‖ ≤ p.im) ∧
    (0 ≤ p.im → p.im ≤ p.arg * ‖p‖) ∧ |p.arg| * ‖p‖ ≤ Real.pi / 2 * ‖p‖ - p.re := by
  have hnorm := norm_nonneg p
  refine ⟨fun him => ?_, fun him => ?_, ?_⟩
  · have harg : p.arg ≤ 0 := by
      rcases him.lt_or_eq with hlt | heq
      · exact (Complex.arg_neg_iff.mpr hlt).le
      · exact (Complex.arg_eq_zero_iff.mpr ⟨hre, heq⟩).le
    have hsin := Real.sin_le (neg_nonneg.mpr harg)
    rw [Real.sin_neg, neg_le_neg_iff] at hsin
    rw [← Complex.norm_mul_sin_arg p, mul_comm]
    exact mul_le_mul_of_nonneg_left hsin hnorm
  · rw [← Complex.norm_mul_sin_arg p, mul_comm p.arg]
    exact mul_le_mul_of_nonneg_left (Real.sin_le (Complex.arg_nonneg_iff.mpr him)) hnorm
  · have hright := sub_nonneg.mpr (Complex.abs_arg_le_pi_div_two_iff.mpr hre)
    have hsin := mul_le_mul_of_nonneg_left (Real.sin_le hright) hnorm
    rw [Real.sin_pi_div_two_sub, Real.cos_abs, Complex.norm_mul_cos_arg] at hsin
    linarith

theorem angle_small {R δ κ : ℝ} (hR : 0 < R) (hδ : |δ| ≤ 3 * Real.pi / 2)
    (hre : 0 < (R * exp (δ * I)).re) (him : |(R * exp (δ * I)).im| ≤ κ * R) :
    |δ| ≤ κ + κ ^ 3 := by
  rw [Complex.re_ofReal_mul, Complex.exp_ofReal_mul_I_re] at hre
  rw [Complex.im_ofReal_mul, Complex.exp_ofReal_mul_I_im, abs_mul, abs_of_pos hR, mul_comm κ] at him
  have hsin : Real.sin |δ| ≤ κ := by
    refine le_trans ?_ (le_of_mul_le_mul_left him hR)
    rcases abs_cases δ with ⟨h, -⟩ | ⟨h, -⟩
    · rw [h]
      exact le_abs_self _
    · rw [h, Real.sin_neg]
      exact neg_le_abs _
  have hcos : 0 < Real.cos |δ| := by
    rw [Real.cos_abs]
    exact (pos_iff_pos_of_mul_pos hre).mp hR
  have hquarter : |δ| < Real.pi / 2 := by
    by_contra hge
    have hnonpos := Real.cos_nonpos_of_pi_div_two_le_of_le (not_lt.mp hge) (by linarith)
    linarith
  have hcoarse : |δ| ≤ 1.6 * κ := by
    have hjordan := (Real.mul_le_sin (abs_nonneg δ) hquarter.le).trans hsin
    have hpi := Real.pi_lt_d2
    have hpi0 := Real.pi_pos
    rw [div_mul_eq_mul_div, div_le_iff₀ hpi0] at hjordan
    have hκ : 0 ≤ κ := by
      have := Real.sin_nonneg_of_nonneg_of_le_pi (abs_nonneg δ) (by linarith)
      linarith
    nlinarith
  rcases (abs_nonneg δ).eq_or_lt with hzero | hpos
  · have hκ : 0 ≤ κ := by linarith
    rw [← hzero]
    positivity
  · have hsine := Real.sin_gt_sub_cube hpos
    have hcube : |δ| ^ 3 ≤ (1.6 * κ) ^ 3 := pow_le_pow_left₀ hpos.le hcoarse 3
    have hκ : 0 ≤ κ ^ 3 := pow_nonneg (by linarith) 3
    rw [mul_pow] at hcube
    linarith

theorem arctan_tangent (i : Nat) :
    0 ≤ Real.arctan (tangent i) ∧ Real.arctan (tangent i) ≤ tangent i := by
  have hnonneg := Real.arctan_nonneg.mpr (tangent_pos i).le
  refine ⟨hnonneg, ?_⟩
  have hle := Real.le_tan hnonneg (Real.arctan_lt_pi_div_two _)
  rwa [Real.tan_arctan] at hle

theorem abs_angle_le (left : Nat → Bool) (n : Nat) : |angle left n| ≤ 2 := by
  have hterm (i : Nat) : |signed (left i) (Real.arctan (tangent i))| ≤ tangent i := by
    obtain ⟨hnonneg, hle⟩ := arctan_tangent i
    cases left i
    · rw [signed, if_neg nofun, abs_neg, abs_of_nonneg hnonneg]
      exact hle
    · rw [signed, if_pos rfl, abs_of_nonneg hnonneg]
      exact hle
  unfold angle
  calc |∑ i ∈ Finset.range n, signed (left i) (Real.arctan (tangent i))|
      ≤ ∑ i ∈ Finset.range n, |signed (left i) (Real.arctan (tangent i))| :=
        Finset.abs_sum_le_sum_abs _ _
    _ ≤ ∑ i ∈ Finset.range n, tangent i := Finset.sum_le_sum fun i _ => hterm i
    _ ≤ 2 := sum_geometric_two_le n

/-! ## Driving the second coordinate to zero -/

theorem turn_grows {i : Nat} {q : Int × Int} {left : Bool} (hleft : left = decide (q.2 ≤ 0)) :
    q.1 ≤ (turn left i q).1 := by
  unfold turn
  by_cases hneg : q.2 ≤ 0
  · have hdown : q.2 >>> i ≤ 0 := by
      rw [Int.shiftRight_eq_div_pow]
      exact Int.ediv_nonpos_of_nonpos_of_neg hneg (by positivity)
    rw [hleft, decide_eq_true hneg, if_pos rfl]
    dsimp only
    omega
  · have hup : 0 ≤ q.2 >>> i := by
      rw [Int.shiftRight_eq_div_pow]
      exact Int.ediv_nonneg (by omega) (by positivity)
    rw [hleft, decide_eq_false hneg, if_neg nofun]
    dsimp only
    omega

/-- The first step takes any vector of the right half-plane to within half a right angle. -/
theorem turn_first {q : Int × Int} {left : Bool} (hleft : left = decide (q.2 ≤ 0))
    (hx : 0 ≤ q.1) :
    q.1 + |q.2| ≤ (turn left 0 q).1 ∧ |(turn left 0 q).2| ≤ (turn left 0 q).1 := by
  by_cases hneg : q.2 ≤ 0
  · obtain rfl : left = true := by rw [hleft, decide_eq_true hneg]
    simp only [turn, if_true, Int.shiftRight_zero, abs_of_nonpos hneg]
    exact ⟨by omega, abs_le.mpr ⟨by omega, by omega⟩⟩
  · obtain rfl : left = false := by rw [hleft, decide_eq_false hneg]
    simp only [turn, Bool.false_eq_true, if_false, Int.shiftRight_zero,
      abs_of_pos (not_le.mp hneg)]
    exact ⟨by omega, abs_le.mpr ⟨by omega, by omega⟩⟩

/-- The exact vector keeps to the axis too: where the integer vector is across it, the exact one is
across by its error at most. -/
theorem Near.towards {p : Int × Int} {q : ℂ} {m : ℝ} {i : Nat} {left : Bool} (h : Near p q m)
    (hleft : left = decide (p.2 ≤ 0)) (him : |q.im| ≤ 2 * tangent i * q.re + m) :
    |(q * rotor left i).im| ≤
      tangent i * (q * rotor left i).re + (m * (1 + tangent i) + (1 - tangent i)) := by
  have ht := (tangent_pos i).le
  have hi := tangent_le_one i
  have hm := (abs_nonneg _).trans h.1
  obtain ⟨hlow, hhigh⟩ := abs_le.mp him
  obtain ⟨hacross, hacross'⟩ := abs_le.mp h.2
  have hsq : tangent i * (tangent i * m) ≤ tangent i * m :=
    mul_le_of_le_one_left (mul_nonneg ht hm) hi
  rw [abs_le]
  by_cases hneg : p.2 ≤ 0
  · obtain rfl : left = true := by rw [hleft, decide_eq_true hneg]
    have hneg' : (p.2 : ℝ) ≤ 0 := by exact_mod_cast hneg
    have hside : tangent i * (tangent i * q.im) ≤ tangent i * (tangent i * m) :=
      mul_le_mul_of_nonneg_left (mul_le_mul_of_nonneg_left (by linarith) ht) ht
    simp [rotor, signed]
    constructor <;> linarith
  · obtain rfl : left = false := by rw [hleft, decide_eq_false hneg]
    have hpos' : (0 : ℝ) ≤ p.2 := by exact_mod_cast (not_le.mp hneg).le
    have hside : tangent i * (tangent i * -q.im) ≤ tangent i * (tangent i * m) :=
      mul_le_mul_of_nonneg_left (mul_le_mul_of_nonneg_left (by linarith) ht) ht
    simp [rotor, signed]
    constructor <;> linarith

section Vectoring

variable {left : Nat → Bool} {p : Nat → Int × Int} (h : ∀ n, p (n + 1) = turn (left n) n (p n))
  (hleft : ∀ n, left n = decide ((p n).2 ≤ 0)) (hx : 0 ≤ (p 0).1)

include h hleft hx

theorem norm_le_first (n : Nat) : ‖point (p 0)‖ ≤ (p (n + 1)).1 := by
  induction n with
  | zero =>
    have hfirst := (turn_first (hleft 0) hx).1
    rw [← h 0] at hfirst
    have hx0 : (0 : ℝ) ≤ (point (p 0)).re := Int.cast_nonneg hx
    refine (Complex.norm_le_abs_re_add_abs_im _).trans ?_
    rw [abs_of_nonneg hx0]
    exact (by exact_mod_cast hfirst : ((p 0).1 : ℝ) + |((p 0).2 : ℝ)| ≤ (p 1).1)
  | succ n ih =>
    refine ih.trans ?_
    rw [h (n + 1)]
    exact_mod_cast turn_grows (hleft (n + 1))

theorem towards_axis (n : Nat) : |(point (p 0) * rotors left (n + 1)).im| ≤
    tangent n * (point (p 0) * rotors left (n + 1)).re + slack n := by
  induction n with
  | zero =>
    have hclose := (turn_first (hleft 0) hx).2
    rw [← h 0] at hclose
    rw [← point_first h]
    simpa [point, tangent, slack] using (by exact_mod_cast hclose : |((p 1).2 : ℝ)| ≤ (p 1).1)
  | succ n ih =>
    have hhalf : 2 * tangent (n + 1) = tangent n := by
      unfold tangent
      rw [pow_succ]
      ring
    rw [rotors, Finset.prod_range_succ, ← mul_assoc]
    exact (run_error h n).towards (hleft (n + 1)) (hhalf ▸ ih)

theorem run_close (n : Nat) :
    |((p (n + 1)).2 : ℝ)| ≤ tangent n * ((p (n + 1)).1 + slack n) + 2 * slack n := by
  obtain ⟨hre, him⟩ := run_error h n
  have haxis := towards_axis h hleft hx n
  have hre' := mul_le_mul_of_nonneg_left (abs_le.mp hre).1 (tangent_pos n).le
  rw [abs_le] at *
  constructor <;> linarith

/-- After `n + 1` steps the vector has been turned onto the axis: what it was turned by is its angle,
up to what the last step may leave over and the errors of the shifts. -/
theorem vectoring_angle {n : Nat} {κ : ℝ} (hlong : slack n < ‖point (p 0)‖)
    (hclose : tangent n * (gain (n + 1) * ‖point (p 0)‖) + slack n ≤
      κ * (gain (n + 1) * ‖point (p 0)‖)) :
    |(point (p 0)).arg + angle left (n + 1)| ≤ κ + κ ^ 3 := by
  have hnear := (abs_le.mp (run_error h n).1).2
  have hpos := norm_le_first h hleft hx n
  have haxis := towards_axis h hleft hx n
  have hnorm := norm_mul_rotors left (point (p 0)) (n + 1)
  have hexact : point (p 0) * rotors left (n + 1) =
      (gain (n + 1) * ‖point (p 0)‖ : ℝ) *
        exp (((point (p 0)).arg + angle left (n + 1) : ℝ) * I) := by
    rw [rotors_polar]
    nth_rewrite 1 [← Complex.norm_mul_exp_arg_mul_I (point (p 0))]
    push_cast
    rw [add_mul, Complex.exp_add]
    ring
  have hR : 0 < gain (n + 1) * ‖point (p 0)‖ :=
    mul_pos (one_pos.trans_le (one_le_gain _)) ((slack_nonneg n).trans_lt hlong)
  have hre := (Complex.re_le_norm (point (p 0) * rotors left (n + 1))).trans hnorm.le
  have hre' := mul_le_mul_of_nonneg_left hre (tangent_pos n).le
  have him : |(point (p 0) * rotors left (n + 1)).im| ≤ κ * (gain (n + 1) * ‖point (p 0)‖) :=
    haxis.trans (by linarith)
  have hreq : 0 < (point (p 0) * rotors left (n + 1)).re := by linarith
  have hδ : |(point (p 0)).arg + angle left (n + 1)| ≤ 3 * Real.pi / 2 := by
    have harg : |(point (p 0)).arg| ≤ Real.pi / 2 := by
      rw [Complex.abs_arg_le_pi_div_two_iff]
      exact Int.cast_nonneg hx
    have hsum := abs_add_le (point (p 0)).arg (angle left (n + 1))
    have hangle := abs_angle_le left (n + 1)
    have hpi := Real.pi_gt_three
    linarith
  rw [hexact] at hreq him
  exact angle_small hR hδ hreq him

end Vectoring

end

end Microgarbage.Lib
