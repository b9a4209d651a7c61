import Mathlib.Analysis.SpecificLimits.Normed
import Mathlib.Tactic.NormNum
import Microgarbage.Lib.Cordic
import Microgarbage.Math.FixedPoint

/-!
# Sine, cosine and arc tangent by shifts

`q16_sincos` and `q16_atan2`: sixteen steps of a rotation by shifts, of the unit vector through the
given angle, or of the given vector onto the axis.
-/

namespace Microgarbage.Math

open Lib

/-! ## The code -/

/-- `Q16_PI` -/
def q16Pi : Int := 205887

/-- `Q16_TWO_PI` -/
def q16TwoPi : Int := 411775

/-- `Q16_HALF_PI` -/
def q16HalfPi : Int := 102944

/-- `NCORDIC` -/
def nCordic : Nat := 16

/-- `ATAN` -/
def atanTable : List Int :=
  [51472, 30386, 16055, 8150, 4091, 2048, 1024, 512, 256, 128, 64, 32, 16, 8, 4, 2]

/-- `CORDIC_INV_GAIN` -/
def cordicInvGain : Int := 39797

/-- The variables of both loops. -/
structure Cordic where
  x : Int
  y : Int
  z : Int
  deriving DecidableEq

namespace Cordic

/-- One step: the two branches of both loops. -/
def step (left : Bool) (i : Nat) (c : Cordic) : Cordic :=
  let dx := c.x >>> i
  let dy := c.y >>> i
  if left then ⟨c.x - dy, c.y + dx, c.z - atanTable.getD i 0⟩
  else ⟨c.x + dy, c.y - dx, c.z + atanTable.getD i 0⟩

/-- The variables before step `n`. -/
def run (left : Cordic → Bool) (c : Cordic) : Nat → Cordic
  | 0 => c
  | n + 1 => (c.run left n).step (left (c.run left n)) n

/-- The direction that drives the angle to zero. -/
def rotating (c : Cordic) : Bool := 0 ≤ c.z

/-- The direction that drives `y` to zero. -/
def vectoring (c : Cordic) : Bool := ¬ 0 < c.y

end Cordic

/-- `while (z > Q16_PI) z -= Q16_TWO_PI` -/
def foldDown (z : Int) : Int :=
  if q16Pi < z then foldDown (z - q16TwoPi) else z
termination_by z.toNat
decreasing_by
  unfold q16Pi at *
  unfold q16TwoPi
  omega

/-- `while (z < -Q16_PI) z += Q16_TWO_PI` -/
def foldUp (z : Int) : Int :=
  if z < -q16Pi then foldUp (z + q16TwoPi) else z
termination_by (-z).toNat
decreasing_by
  unfold q16Pi at *
  unfold q16TwoPi
  omega

/-- The residual angle, and whether the vector is reflected through the origin. -/
def fold (radians : Int) : Int × Bool :=
  let z := foldUp (foldDown radians)
  if q16HalfPi < z then (z - q16Pi, true)
  else if z < -q16HalfPi then (z + q16Pi, true)
  else (z, false)

/-- Where the loop of `q16_sincos` starts. -/
def sincosStart (radians : Int) : Cordic := ⟨cordicInvGain, 0, (fold radians).1⟩

/-- `q16_sincos`: the sine and the cosine. -/
def q16Sincos (radians : Int) : Int × Int :=
  let c := (sincosStart radians).run Cordic.rotating nCordic
  if (fold radians).2 then (-c.y, -c.x) else (c.y, c.x)

/-- Where the loop of `q16_atan2` starts. -/
def atanStart (y x : Int) : Cordic :=
  if x < 0 then ⟨-x, -y, 0⟩ else ⟨x, y, 0⟩

/-- `q16_atan2` -/
def q16Atan2 (y x : Int) : Int :=
  if x = 0 ∧ y = 0 then 0
  else
    let z := ((atanStart y x).run Cordic.vectoring nCordic).z
    if x < 0 then z + (if 0 ≤ y then q16Pi else -q16Pi) else z

/-! ## What has to fit in 32 bits -/

/-- The variables and the shifted copies of step `n`. -/
structure Cordic.Fits (c : Cordic) (n : Nat) : Prop where
  x : Math.Fits c.x
  y : Math.Fits c.y
  z : Math.Fits c.z
  dx : Math.Fits (c.x >>> n)
  dy : Math.Fits (c.y >>> n)

/-- No value that `q16_sincos` computes leaves the type. -/
structure SincosFits (radians : Int) : Prop where
  folded : Fits (foldDown radians) ∧ Fits (foldUp (foldDown radians)) ∧ Fits (fold radians).1
  loop : ∀ n ≤ nCordic, ((sincosStart radians).run Cordic.rotating n).Fits n
  result : Fits (q16Sincos radians).1 ∧ Fits (q16Sincos radians).2

/-- No value that `q16_atan2` computes leaves the type. -/
structure AtanFits (y x : Int) : Prop where
  loop : ∀ n ≤ nCordic, ((atanStart y x).run Cordic.vectoring n).Fits n
  result : Fits (q16Atan2 y x)

/-! ## The folding -/

theorem foldDown_le (z : Int) : foldDown z ≤ q16Pi := by
  fun_induction foldDown z with
  | case1 z _ ih => exact ih
  | case2 z h => exact not_lt.mp h

theorem foldDown_bounds (z : Int) : min z (-q16Pi) ≤ foldDown z ∧ foldDown z ≤ max z (-q16Pi) := by
  fun_induction foldDown z with
  | case1 z h ih =>
    unfold q16Pi q16TwoPi at *
    omega
  | case2 z h => exact ⟨min_le_left .., le_max_left ..⟩

theorem foldUp_bounds {z : Int} (h : z ≤ q16Pi) : -q16Pi ≤ foldUp z ∧ foldUp z ≤ q16Pi := by
  fun_induction foldUp z with
  | case1 z hlt ih =>
    refine ih ?_
    unfold q16Pi q16TwoPi at *
    omega
  | case2 z hge => exact ⟨not_lt.mp hge, h⟩

theorem fold_bounds (radians : Int) :
    -q16HalfPi ≤ (fold radians).1 ∧ (fold radians).1 ≤ q16HalfPi := by
  have hz := foldUp_bounds (foldDown_le radians)
  unfold fold
  generalize foldUp (foldDown radians) = z at hz
  unfold q16Pi q16HalfPi at *
  dsimp only
  split_ifs with h1 h2
  · dsimp only
    omega
  · dsimp only
    omega
  · dsimp only
    omega

/-! ## Both loops -/

theorem fits_shift {a : Int} (h : Fits a) (n : Nat) : Fits (a >>> n) := by
  have hpow : (1 : Int) ≤ (2 ^ n : Nat) := by exact_mod_cast Nat.one_le_two_pow
  unfold Fits at *
  rw [Int.shiftRight_eq_div_pow]
  constructor
  · rw [Int.le_ediv_iff_mul_le (by omega)]
    nlinarith
  · rw [Int.ediv_lt_iff_lt_mul (by omega)]
    nlinarith

namespace Cordic

variable (left : Cordic → Bool) (c : Cordic)

/-- The vector part of the loops is a run of rotations by shifts. -/
def vector (n : Nat) : Int × Int := ((c.run left n).x, (c.run left n).y)

theorem vector_succ (n : Nat) :
    c.vector left (n + 1) = turn (left (c.run left n)) n (c.vector left n) := by
  unfold vector turn
  rw [run, step]
  split
  · rfl
  · rfl

theorem run_z (n : Nat) : (c.run left n).z =
    c.z - ∑ i ∈ Finset.range n,
      (if left (c.run left i) then atanTable.getD i 0 else -atanTable.getD i 0) := by
  induction n with
  | zero => simp [run]
  | succ n ih =>
    rw [Finset.sum_range_succ, run, step]
    split
    · dsimp only
      rw [ih]
      ring
    · dsimp only
      rw [ih]
      ring

theorem table_nonneg : ∀ i < nCordic, 0 ≤ atanTable.getD i 0 := by decide

theorem table_sum {n : Nat} (h : n ≤ nCordic) :
    ∑ i ∈ Finset.range n, atanTable.getD i 0 ≤ 114256 := by
  calc ∑ i ∈ Finset.range n, atanTable.getD i 0
      ≤ ∑ i ∈ Finset.range nCordic, atanTable.getD i 0 :=
        Finset.sum_le_sum_of_subset_of_nonneg (Finset.range_mono h) fun i hi _ =>
          table_nonneg i (Finset.mem_range.mp hi)
    _ ≤ 114256 := by decide

theorem abs_run_z {n : Nat} (h : n ≤ nCordic) : |(c.run left n).z - c.z| ≤ 114256 := by
  have hterm (i : Nat) (hi : i ∈ Finset.range n) :
      |if left (c.run left i) then atanTable.getD i 0 else -atanTable.getD i 0| ≤
        atanTable.getD i 0 := by
    have hnonneg := table_nonneg i ((Finset.mem_range.mp hi).trans_le h)
    split
    · rw [abs_of_nonneg hnonneg]
    · rw [abs_neg, abs_of_nonneg hnonneg]
  rw [run_z, sub_sub_cancel_left, abs_neg]
  exact (Finset.abs_sum_le_sum_abs _ _).trans
    ((Finset.sum_le_sum hterm).trans (table_sum h))

end Cordic

/-! ## The angles of the table -/

/-- The alternating series of the arc tangent, cut after an even and after an odd number of terms. -/
theorem arctan_series {t : ℝ} (hpos : 0 ≤ t) (hlt : t < 1) (k : Nat) :
    ∑ i ∈ Finset.range (2 * k), (-1) ^ i * (t ^ (2 * i + 1) / (2 * i + 1 : Nat)) ≤ Real.arctan t ∧
      Real.arctan t ≤
        ∑ i ∈ Finset.range (2 * k + 1), (-1) ^ i * (t ^ (2 * i + 1) / (2 * i + 1 : Nat)) := by
  have hsum := (Real.hasSum_arctan (show ‖t‖ < 1 by rwa [Real.norm_of_nonneg hpos])).tendsto_sum_nat
  simp only [mul_div_assoc] at hsum
  have hanti : Antitone fun i : Nat => t ^ (2 * i + 1) / ((2 * i + 1 : Nat) : ℝ) := by
    refine antitone_nat_of_succ_le fun i => ?_
    have hpow : t ^ (2 * (i + 1) + 1) ≤ t ^ (2 * i + 1) :=
      pow_le_pow_of_le_one hpos hlt.le (by omega)
    refine div_le_div₀ (by positivity) hpow (by positivity) ?_
    exact_mod_cast (by omega : 2 * i + 1 ≤ 2 * (i + 1) + 1)
  exact ⟨hanti.alternating_series_le_tendsto hsum k, hanti.tendsto_le_alternating_series hsum k⟩

/-- What each entry of the table may be off by, in hundredths of a unit. -/
def atanSlack : List Nat := [17, 54, 8, 28, 33, 67, 9, 2, 1, 1, 1, 1, 1, 1, 1, 1]

theorem atanTable_close : ∀ i < nCordic,
    |(atanTable.getD i 0 : ℝ) - 65536 * Real.arctan (tangent i)| ≤ (atanSlack.getD i 0 : ℝ) / 100 := by
  intro i hi
  unfold nCordic at hi
  rcases Nat.eq_zero_or_pos i with rfl | hpos
  · have hlow := Real.pi_gt_d6
    have hhigh := Real.pi_lt_d6
    rw [tangent, pow_zero, Real.arctan_one, abs_le]
    norm_num [atanTable, atanSlack]
    constructor <;> linarith
  · have htangent : tangent i < 1 := pow_lt_one₀ (by norm_num) (by norm_num) hpos.ne'
    obtain ⟨hlow, hhigh⟩ := arctan_series (tangent_pos i).le htangent 4
    unfold tangent at *
    rw [abs_le]
    interval_cases i <;>
      norm_num [atanTable, atanSlack, Finset.sum_range_succ] at hlow hhigh ⊢ <;>
      constructor <;> linarith

/-! ## The length of the vector -/

theorem gain_bounds : 1.64676025786545 ≤ gain nCordic ∧ gain nCordic ≤ 1.64676025786546 := by
  have hpos := one_le_gain nCordic
  have hsq := gain_sq nCordic
  norm_num [nCordic, Finset.prod_range_succ, tangent] at hsq hpos ⊢
  constructor
  · refine le_of_sq_le_sq ?_ (by linarith)
    rw [hsq]
    norm_num
  · refine le_of_sq_le_sq ?_ (by norm_num)
    rw [hsq]
    norm_num

namespace Cordic

/-- The length of a vector. -/
noncomputable def length (c : Cordic) : ℝ := ‖point (c.x, c.y)‖

theorem length_nonneg (c : Cordic) : 0 ≤ c.length := norm_nonneg _

theorem length_sq (c : Cordic) : c.length ^ 2 = (c.x ^ 2 + c.y ^ 2 : Int) := by
  unfold length point
  rw [Complex.norm_eq_sqrt_sq_add_sq, Real.sq_sqrt (by positivity)]
  push_cast
  rfl

theorem abs_le_length (c : Cordic) : |(c.x : ℝ)| ≤ c.length ∧ |(c.y : ℝ)| ≤ c.length :=
  ⟨Complex.abs_re_le_norm (point (c.x, c.y)), Complex.abs_im_le_norm (point (c.x, c.y))⟩

theorem slack_le : slack 15 ≤ 14.7344 := by
  norm_num [slack, tangent]

theorem sqrt_two_slack {n : Nat} (hn : n ≤ 15) : √2 * slack n ≤ 22.8 := by
  have hroot : √2 ≤ 1.41422 := by
    rw [Real.sqrt_le_left (by norm_num)]
    norm_num
  calc √2 * slack n ≤ 1.41422 * 14.7344 :=
        mul_le_mul hroot ((slack_mono hn).trans slack_le) (slack_nonneg n) (by norm_num)
    _ ≤ 22.8 := by norm_num

theorem run_length (left : Cordic → Bool) (c : Cordic) :
    |(c.run left nCordic).length - gain nCordic * c.length| ≤ 22.8 :=
  (run_norm (c.vector_succ left) 15).trans (sqrt_two_slack le_rfl)

theorem run_length_le (left : Cordic → Bool) (c : Cordic) {n : Nat} (hn : n ≤ nCordic) :
    (c.run left n).length ≤ gain nCordic * c.length + 22.8 := by
  have hlen := c.length_nonneg
  have hgain := mul_le_mul_of_nonneg_right (gain_mono hn) hlen
  cases n with
  | zero =>
    have hone := mul_le_mul_of_nonneg_right (one_le_gain nCordic) hlen
    rw [run]
    linarith
  | succ n =>
    have h := (abs_le.mp (run_norm (c.vector_succ left) n)).2
    have hslack := sqrt_two_slack (Nat.le_of_succ_le_succ hn)
    change (c.run left (n + 1)).length - gain (n + 1) * c.length ≤ _ at h
    linarith

theorem run_fits (left : Cordic → Bool) (c : Cordic)
    (hlen : gain nCordic * c.length + 22.8 ≤ 2 ^ 31 - 1) (hz : |c.z| ≤ q16HalfPi) {n : Nat}
    (hn : n ≤ nCordic) : (c.run left n).Fits n := by
  have hle := (c.run_length_le left hn).trans hlen
  obtain ⟨hx, hy⟩ := (c.run left n).abs_le_length
  have hx' : |(c.run left n).x| ≤ 2 ^ 31 - 1 := by exact_mod_cast hx.trans hle
  have hy' : |(c.run left n).y| ≤ 2 ^ 31 - 1 := by exact_mod_cast hy.trans hle
  have hxfits : Math.Fits (c.run left n).x := by
    rw [abs_le] at hx'
    unfold Math.Fits
    omega
  have hyfits : Math.Fits (c.run left n).y := by
    rw [abs_le] at hy'
    unfold Math.Fits
    omega
  refine ⟨hxfits, hyfits, ?_, fits_shift hxfits n, fits_shift hyfits n⟩
  have hmoved := c.abs_run_z left hn
  rw [abs_le] at hmoved hz
  unfold q16HalfPi at hz
  unfold Math.Fits
  omega

end Cordic

/-! ## Sine and cosine -/

theorem sincosStart_length (radians : Int) : (sincosStart radians).length = 39797 := by
  rw [← pow_left_inj₀ (sincosStart radians).length_nonneg (by norm_num) two_ne_zero, Cordic.length_sq]
  norm_num [sincosStart, cordicInvGain]

theorem sincos_length (radians : Int) :
    65513 ≤ ((sincosStart radians).run Cordic.rotating nCordic).length ∧
      ((sincosStart radians).run Cordic.rotating nCordic).length ≤ 65559 := by
  have hrun := abs_le.mp ((sincosStart radians).run_length Cordic.rotating)
  have hgain := gain_bounds
  rw [sincosStart_length] at hrun
  constructor <;> linarith

/-- The result is the vector that the loop ends with, up to the reflection. -/
theorem q16Sincos_sq (radians : Int) :
    |(q16Sincos radians).1| = |((sincosStart radians).run Cordic.rotating nCordic).y| ∧
      |(q16Sincos radians).2| = |((sincosStart radians).run Cordic.rotating nCordic).x| := by
  unfold q16Sincos
  dsimp only
  split
  · exact ⟨abs_neg _, abs_neg _⟩
  · exact ⟨rfl, rfl⟩

theorem q16Sincos_bounds (radians : Int) :
    |(q16Sincos radians).1| ≤ 65559 ∧ |(q16Sincos radians).2| ≤ 65559 ∧
      |(q16Sincos radians).1 ^ 2 + (q16Sincos radians).2 ^ 2 - 2 ^ 32| ≤ 2 ^ 22 := by
  obtain ⟨hs, hc⟩ := q16Sincos_sq radians
  obtain ⟨hlow, hhigh⟩ := sincos_length radians
  rw [← sq_abs (q16Sincos radians).1, ← sq_abs (q16Sincos radians).2, hs, hc, sq_abs, sq_abs]
  generalize (sincosStart radians).run Cordic.rotating nCordic = c at *
  obtain ⟨hx, hy⟩ := c.abs_le_length
  refine ⟨by exact_mod_cast hy.trans hhigh, by exact_mod_cast hx.trans hhigh, ?_⟩
  have hsq := c.length_sq
  have hlow2 : (65513 : ℝ) ^ 2 ≤ c.length ^ 2 := pow_le_pow_left₀ (by norm_num) hlow 2
  have hhigh2 : c.length ^ 2 ≤ (65559 : ℝ) ^ 2 := pow_le_pow_left₀ c.length_nonneg hhigh 2
  rw [hsq] at hlow2 hhigh2
  have hlow3 : (65513 : Int) ^ 2 ≤ c.x ^ 2 + c.y ^ 2 := by exact_mod_cast hlow2
  have hhigh3 : c.x ^ 2 + c.y ^ 2 ≤ (65559 : Int) ^ 2 := by exact_mod_cast hhigh2
  rw [abs_le]
  constructor <;> linarith

theorem sincosFits {radians : Int} (h : Fits radians) : SincosFits radians := by
  have hdown := foldDown_bounds radians
  have hup := foldUp_bounds (foldDown_le radians)
  have hfold := fold_bounds radians
  obtain ⟨hs, hc, -⟩ := q16Sincos_bounds radians
  rw [abs_le] at hs hc
  refine ⟨?_, fun n hn => ?_, ?_⟩
  · unfold Fits q16Pi q16HalfPi at *
    omega
  · refine Cordic.run_fits _ _ ?_ ?_ hn
    · have hgain := gain_bounds
      rw [sincosStart_length]
      linarith
    · exact abs_le.mpr hfold
  · unfold Fits
    omega

end Microgarbage.Math
