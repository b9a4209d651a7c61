import Microgarbage.Math.Trig

/-!
# The range and the quadrant of the arc tangent

What `q16_atan2` returns is off by the entries of the table, by what the last step leaves over and by
the bits that the shifts drop. The last part grows as the vector gets shorter, and matters most near
the axes, where the angle is close to the bound that the result is held to.
-/

namespace Microgarbage.Math

open Lib

/-! ## The values of the loop -/

section Atan

variable {y x : Int}

theorem atanStart_length (y x : Int) : (atanStart y x).length ^ 2 = (x ^ 2 + y ^ 2 : Int) := by
  rw [Cordic.length_sq]
  unfold atanStart
  split
  · rw [neg_sq, neg_sq]
  · rfl

theorem atanStart_right (y x : Int) : 0 ≤ (atanStart y x).x ∧ (atanStart y x).z = 0 := by
  unfold atanStart
  split
  · exact ⟨by dsimp only; omega, rfl⟩
  · exact ⟨by dsimp only; omega, rfl⟩

theorem atanFits (h : x ^ 2 + y ^ 2 ≤ 1304065733 ^ 2) : AtanFits y x := by
  have hlen : (atanStart y x).length ≤ 1304065733 := by
    refine le_of_sq_le_sq ?_ (by norm_num)
    rw [atanStart_length]
    exact_mod_cast h
  have hgain := mul_le_mul gain_bounds.2 hlen (Cordic.length_nonneg _) (by norm_num)
  have hz : |(atanStart y x).z| ≤ q16HalfPi := by
    rw [(atanStart_right y x).2]
    decide
  refine ⟨fun n hn => Cordic.run_fits _ _ (by linarith) hz hn, ?_⟩
  have hmoved := (atanStart y x).abs_run_z Cordic.vectoring le_rfl
  rw [(atanStart_right y x).2, sub_zero, abs_le] at hmoved
  unfold q16Atan2
  dsimp only
  generalize ((atanStart y x).run Cordic.vectoring nCordic).z = z at hmoved
  unfold Fits q16Pi
  split_ifs <;> omega

theorem vectoring_eq (c : Cordic) (n : Nat) :
    Cordic.vectoring (c.run Cordic.vectoring n) =
      decide ((c.vector Cordic.vectoring n).2 ≤ 0) := by
  unfold Cordic.vectoring Cordic.vector
  exact decide_eq_decide.mpr not_lt

theorem atanFits_length (h : AtanFits y x) : x ^ 2 + y ^ 2 ≤ 1304065764 ^ 2 := by
  obtain ⟨hright, -⟩ := atanStart_right y x
  have hclose := run_close ((atanStart y x).vector_succ Cordic.vectoring)
    (vectoring_eq (atanStart y x)) hright 15
  obtain ⟨hx, hy, -⟩ := h.loop nCordic le_rfl
  have hrun := abs_le.mp ((atanStart y x).run_length Cordic.vectoring)
  have hslack := Cordic.slack_le
  change |((Cordic.run Cordic.vectoring (atanStart y x) nCordic).y : ℝ)| ≤
    tangent 15 * ((Cordic.run Cordic.vectoring (atanStart y x) nCordic).x + slack 15) +
      2 * slack 15 at hclose
  generalize (atanStart y x).run Cordic.vectoring nCordic = c at *
  have hx' : |(c.x : ℝ)| ≤ 2 ^ 31 := by
    have : |c.x| ≤ 2 ^ 31 := abs_le.mpr ⟨hx.1, hx.2.le⟩
    exact_mod_cast this
  have hy' : |(c.y : ℝ)| ≤ 65570 := by
    have hpart := mul_le_mul_of_nonneg_left ((le_abs_self (c.x : ℝ)).trans hx') (tangent_pos 15).le
    norm_num [tangent] at hclose hpart
    linarith
  have hlen : c.length ≤ 2 ^ 31 + 2 := by
    refine le_of_sq_le_sq ?_ (by norm_num)
    have hx2 := pow_le_pow_left₀ (abs_nonneg _) hx' 2
    have hy2 := pow_le_pow_left₀ (abs_nonneg _) hy' 2
    rw [sq_abs] at hx2 hy2
    rw [c.length_sq]
    push_cast
    linarith
  have hshort : (atanStart y x).length ≤ 1304065764 := by
    have hgain := mul_le_mul_of_nonneg_right gain_bounds.1 (atanStart y x).length_nonneg
    linarith
  have hsq := pow_le_pow_left₀ (Cordic.length_nonneg _) hshort 2
  rw [atanStart_length] at hsq
  exact_mod_cast hsq

theorem atan_table (left : Cordic → Bool) (c : Cordic) :
    |((c.run left nCordic).z - c.z : ℝ) + 65536 * angle (fun n => left (c.run left n)) nCordic| ≤
      2.4 := by
  have hterm (i : Nat) (hi : i ∈ Finset.range nCordic) :
      |65536 * signed (left (c.run left i)) (Real.arctan (tangent i)) -
        signed (left (c.run left i)) (atanTable.getD i 0)| ≤ (atanSlack.getD i 0 : ℝ) / 100 := by
    have hclose := atanTable_close i (Finset.mem_range.mp hi)
    unfold signed
    split
    · rwa [abs_sub_comm]
    · rwa [mul_neg, neg_sub_neg]
  have hdiff : ((c.run left nCordic).z - c.z : ℝ) +
      65536 * angle (fun n => left (c.run left n)) nCordic =
        ∑ i ∈ Finset.range nCordic,
          (65536 * signed (left (c.run left i)) (Real.arctan (tangent i)) -
            signed (left (c.run left i)) (atanTable.getD i 0)) := by
    rw [c.run_z left, angle, Finset.sum_sub_distrib, Finset.mul_sum]
    push_cast
    unfold signed
    ring
  rw [hdiff]
  calc _ ≤ ∑ i ∈ Finset.range nCordic, _ := Finset.abs_sum_le_sum_abs _ _
    _ ≤ ∑ i ∈ Finset.range nCordic, (atanSlack.getD i 0 : ℝ) / 100 := Finset.sum_le_sum hterm
    _ ≤ 2.4 := by norm_num [nCordic, Finset.sum_range_succ, atanSlack]

end Atan

/-! ## The error -/

/-- Where the loop ends, against the angle of a vector of the right half-plane. -/
theorem atan_run {c : Cordic} (hx : 0 ≤ c.x) (hz : c.z = 0) (hlong : 16.9 ≤ c.length) :
    ∃ m : ℝ, |((c.run Cordic.vectoring nCordic).z - 65536 * (point (c.x, c.y)).arg : ℝ)| *
      c.length ≤ 4.44 * c.length + m ∧ m ≤ 752000 ∧ (1300 ≤ c.length → m ≤ 586400) := by
  have hpos : 0 < c.length := by linarith
  have hslack := Cordic.slack_le
  have hgain := mul_le_mul_of_nonneg_right gain_bounds.1 hpos.le
  obtain ⟨κ, hκ⟩ : ∃ κ, κ = 1 / 32768 + 8.9476 / c.length := ⟨_, rfl⟩
  have hκL : κ * c.length = c.length / 32768 + 8.9476 := by
    rw [hκ, add_mul, div_mul_cancel₀ _ hpos.ne']
    ring
  have hκ0 : 0 ≤ κ := by
    rw [hκ]
    positivity
  have hκle {b : ℝ} (hb : c.length / 32768 + 8.9476 ≤ b * c.length) : κ ≤ b :=
    le_of_mul_le_mul_right (hκL.trans_le hb) hpos
  have hangle : |(point (c.x, c.y)).arg +
      angle (fun n => Cordic.vectoring (c.run Cordic.vectoring n)) nCordic| ≤ κ + κ ^ 3 := by
    refine vectoring_angle (c.vector_succ Cordic.vectoring) (vectoring_eq c) hx ?_ ?_
    · change _ < c.length
      linarith
    · change _ * (gain nCordic * c.length) + _ ≤ _ * (gain nCordic * c.length)
      rw [mul_left_comm κ, hκL]
      norm_num [tangent]
      linarith [gain_bounds.1]
  have htable := atan_table Cordic.vectoring c
  rw [hz, Int.cast_zero, sub_zero] at htable
  have herror : |((c.run Cordic.vectoring nCordic).z - 65536 * (point (c.x, c.y)).arg : ℝ)| ≤
      65536 * (κ + κ ^ 3) + 2.4 := by
    rw [abs_le] at *
    constructor <;> linarith
  have hmul := mul_le_mul_of_nonneg_right herror hpos.le
  by_cases hfar : 1300 ≤ c.length
  · have hcube := pow_le_pow_left₀ hκ0 (hκle (b := 0.007) (by linarith)) 3
    have hcube' := mul_le_mul_of_nonneg_right hcube hpos.le
    exact ⟨586400, by linarith, by norm_num, fun _ => le_rfl⟩
  · have hsq := pow_le_pow_left₀ hκ0 (hκle (b := 0.5295) (by linarith)) 2
    have hcube : κ ^ 3 * c.length ≤ 0.5295 ^ 2 * 9 := by
      rw [pow_succ, mul_assoc, hκL]
      exact mul_le_mul hsq (by linarith) (by positivity) (by norm_num)
    exact ⟨752000, by linarith, le_rfl, fun h => absurd h hfar⟩

/-- Outside of two strips along the axes: they reach eleven units to each side, and less far the
longer the vector is. -/
def OffAxis (y x : Int) : Prop := 21100 ≤ |x| + 1800 * |y| ∧ 21100 ≤ |y| + 1800 * |x|

theorem OffAxis.neg {y x : Int} (h : OffAxis y x) : OffAxis (-y) (-x) := by
  unfold OffAxis at *
  rwa [abs_neg, abs_neg]

theorem OffAxis.far {c : Cordic} (h : OffAxis c.y c.x) : 16.9 ≤ c.length ∧
    (12 ≤ |(c.x : ℝ)| ∧ 12 ≤ |(c.y : ℝ)| ∨ 1300 ≤ c.length ∧
      586400 ≤ 27.8 * c.length + 65536 * |(c.x : ℝ)| ∧
      586400 ≤ 27.8 * c.length + 65536 * |(c.y : ℝ)|) := by
  obtain ⟨hlenx, hleny⟩ := c.abs_le_length
  obtain ⟨hx, hy⟩ := h
  have hx' : (21100 : ℝ) ≤ |(c.x : ℝ)| + 1800 * |(c.y : ℝ)| := by exact_mod_cast hx
  have hy' : (21100 : ℝ) ≤ |(c.y : ℝ)| + 1800 * |(c.x : ℝ)| := by exact_mod_cast hy
  by_cases hnearx : |c.x| ≤ 11
  · have hnonneg := abs_nonneg (c.x : ℝ)
    have hnear : |(c.x : ℝ)| ≤ 11 := by exact_mod_cast hnearx
    exact ⟨by linarith, Or.inr ⟨by linarith, by linarith, by linarith⟩⟩
  by_cases hneary : |c.y| ≤ 11
  · have hnonneg := abs_nonneg (c.y : ℝ)
    have hnear : |(c.y : ℝ)| ≤ 11 := by exact_mod_cast hneary
    exact ⟨by linarith, Or.inr ⟨by linarith, by linarith, by linarith⟩⟩
  have hfarx : (12 : ℝ) ≤ |(c.x : ℝ)| := by exact_mod_cast not_le.mp hnearx
  have hfary : (12 : ℝ) ≤ |(c.y : ℝ)| := by exact_mod_cast not_le.mp hneary
  refine ⟨le_of_sq_le_sq ?_ c.length_nonneg, Or.inl ⟨hfarx, hfary⟩⟩
  rw [c.length_sq]
  push_cast
  rw [← sq_abs (c.x : ℝ), ← sq_abs (c.y : ℝ)]
  nlinarith

/-- Where the loop ends for a vector of the right half-plane, up to 32 units. -/
theorem atan_window {c : Cordic} (hx : 0 ≤ c.x) (hz : c.z = 0) (h : OffAxis c.y c.x) :
    (c.y ≤ 0 → (c.run Cordic.vectoring nCordic).z ≤ 32) ∧
      (0 ≤ c.y → -32 ≤ (c.run Cordic.vectoring nCordic).z) ∧
      |(c.run Cordic.vectoring nCordic).z| ≤ 102975 ∧
      (c.x = 0 → 102912 ≤ |(c.run Cordic.vectoring nCordic).z|) := by
  obtain ⟨hlong, hfar⟩ := h.far
  have hpos : 0 < c.length := by linarith
  have hx' : (0 : ℝ) ≤ c.x := Int.cast_nonneg hx
  obtain ⟨m, hrun, hm, hm'⟩ := atan_run hx hz hlong
  obtain ⟨hfarx, hfary⟩ : m ≤ 27.8 * c.length + 65536 * |(c.x : ℝ)| ∧
      m ≤ 27.8 * c.length + 65536 * |(c.y : ℝ)| := by
    rcases hfar with ⟨hfarx, hfary⟩ | ⟨hlong', hfarx, hfary⟩
    · exact ⟨by linarith, by linarith⟩
    · exact ⟨(hm' hlong').trans hfarx, (hm' hlong').trans hfary⟩
  obtain ⟨hbelow, habove, hquarter⟩ := arg_side (p := point (c.x, c.y)) hx'
  change _ → _ * c.length ≤ (c.y : ℝ) at hbelow
  change _ → (c.y : ℝ) ≤ _ * c.length at habove
  change _ * c.length ≤ Real.pi / 2 * c.length - (c.x : ℝ) at hquarter
  have hpi := mul_le_mul_of_nonneg_right Real.pi_lt_d6.le hpos.le
  have hpi' := mul_le_mul_of_nonneg_right Real.pi_gt_d6.le hpos.le
  generalize (c.run Cordic.vectoring nCordic).z = z at *
  have hle {a b : Int} (h : (a : ℝ) * c.length < (b + 1) * c.length) : a ≤ b :=
    Int.lt_add_one_iff.mp (by exact_mod_cast lt_of_mul_lt_mul_right h hpos.le)
  have hmul {u v : ℝ} (h : u - v ≤ |(z : ℝ) - 65536 * (point (c.x, c.y)).arg|) :
      u * c.length ≤ v * c.length + 4.44 * c.length + m := by
    have := mul_le_mul_of_nonneg_right h hpos.le
    linarith
  have habs := abs_abs_sub_abs_le (z : ℝ) (65536 * (point (c.x, c.y)).arg)
  rw [abs_mul, abs_of_pos (by norm_num : (0 : ℝ) < 65536)] at habs
  refine ⟨fun hy => hle ?_, fun hy => hle ?_, hle ?_, fun h0 => hle ?_⟩
  · have hy' : (c.y : ℝ) ≤ 0 := by exact_mod_cast hy
    have hupper := hmul (le_abs_self _)
    have hside := hbelow hy'
    rw [abs_of_nonpos hy'] at hfary
    push_cast
    linarith
  · have hy' : (0 : ℝ) ≤ c.y := Int.cast_nonneg hy
    have hlower := hmul ((neg_sub _ _).symm.trans_le (neg_le_abs _))
    have hside := habove hy'
    rw [abs_of_nonneg hy'] at hfary
    push_cast
    linarith
  · have hupper := hmul ((le_abs_self _).trans habs)
    rw [abs_of_nonneg hx'] at hfarx
    push_cast
    linarith
  · have hlower := hmul ((neg_sub _ _).symm.trans_le ((neg_le_abs _).trans habs))
    have hup : Real.pi / 2 ≤ |(point (c.x, c.y)).arg| := by
      rw [← not_lt, Complex.abs_arg_lt_pi_div_two_iff, not_or]
      exact ⟨by simp [point_re, h0], fun hzero => hpos.ne' (norm_eq_zero.mpr hzero)⟩
    have hup' := mul_le_mul_of_nonneg_right hup hpos.le
    rw [h0, Int.cast_zero, abs_zero] at hfarx
    push_cast
    linarith

/-! ## The quadrant -/

/-- The range of the result and the quadrant of `(y, x)`, up to 32 units of rounding. -/
structure Quadrant (y x z : Int) : Prop where
  range : |z| ≤ q16Pi + 32
  above : 0 ≤ y → -32 ≤ z
  below : y < 0 → z ≤ 32
  right : 0 ≤ x → |z| ≤ q16HalfPi + 32
  left : x < 0 ∨ x = 0 ∧ y ≠ 0 → q16HalfPi - 32 ≤ |z|

theorem q16Atan2_quadrant {y x : Int} (h : OffAxis y x) : Quadrant y x (q16Atan2 y x) := by
  have hzero : ¬(x = 0 ∧ y = 0) := by
    rintro ⟨rfl, rfl⟩
    exact absurd h.1 (by decide)
  obtain ⟨hright, hz⟩ := atanStart_right y x
  unfold q16Atan2
  rw [if_neg hzero]
  dsimp only
  by_cases hx : x < 0
  · have hwindow := atan_window hright hz (by
      rw [atanStart, if_pos hx]
      exact h.neg)
    generalize ((atanStart y x).run Cordic.vectoring nCordic).z = z at hwindow
    obtain ⟨hbelow, habove, hwide, -⟩ := hwindow
    rw [atanStart, if_pos hx] at hbelow habove
    dsimp only at hbelow habove
    rw [abs_le] at hwide
    rw [if_pos hx]
    refine ⟨abs_le.mpr ?_, fun hy => ?_, fun hy => ?_, fun hx' => ?_, fun _ => le_abs.mpr ?_⟩ <;>
      split <;> norm_num only [q16Pi, q16HalfPi] <;> omega
  · have hwindow := atan_window hright hz (by rwa [atanStart, if_neg hx])
    generalize ((atanStart y x).run Cordic.vectoring nCordic).z = z at hwindow
    rw [atanStart, if_neg hx] at hwindow
    obtain ⟨hbelow, habove, hwide, hsteep⟩ := hwindow
    rw [if_neg hx]
    exact ⟨hwide.trans (by decide), habove, fun hy => hbelow hy.le, fun _ => hwide.trans (by decide),
      fun h => hsteep (h.resolve_left hx).1⟩

/-! ## Every argument -/

/-- The sine and the cosine stay on the unit circle up to rounding, for every angle. The arc tangent
keeps to its type, to the range and to the quadrant outside of the strips along the axes, up to the
longest vector that the gain leaves room for; `(0, 0)` is answered outside the loop. -/
theorem trig_bounds (radians y x : Q16) :
    (SincosFits radians.toInt ∧ -q16HalfPi ≤ (fold radians.toInt).1 ∧
      (fold radians.toInt).1 ≤ q16HalfPi ∧
      |(q16Sincos radians.toInt).1| ≤ 65536 + 32 ∧ |(q16Sincos radians.toInt).2| ≤ 65536 + 32 ∧
      |(q16Sincos radians.toInt).1 ^ 2 + (q16Sincos radians.toInt).2 ^ 2 - 2 ^ 32| ≤ 2 ^ 22) ∧
    (x.toInt = 0 ∧ y.toInt = 0 ∨ OffAxis y.toInt x.toInt ∧
        x.toInt ^ 2 + y.toInt ^ 2 ≤ 1304065733 ^ 2 →
      AtanFits y.toInt x.toInt ∧ Quadrant y.toInt x.toInt (q16Atan2 y.toInt x.toInt)) ∧
    (AtanFits y.toInt x.toInt → x.toInt ^ 2 + y.toInt ^ 2 ≤ 1304065764 ^ 2) := by
  have hfits : Fits radians.toInt := ⟨BitVec.le_toInt radians, BitVec.toInt_lt⟩
  obtain ⟨hs, hc, hsq⟩ := q16Sincos_bounds radians.toInt
  obtain ⟨hlow, hhigh⟩ := fold_bounds radians.toInt
  refine ⟨⟨sincosFits hfits, hlow, hhigh, hs.trans (by decide), hc.trans (by decide), hsq⟩, ?_,
    atanFits_length⟩
  rintro (⟨hx, hy⟩ | ⟨hlong, hshort⟩)
  · rw [hx, hy]
    exact ⟨atanFits (by norm_num), by decide, by decide, by decide, by decide, by decide⟩
  · exact ⟨atanFits hshort, q16Atan2_quadrant hlong⟩

/-- The cosine and the sine of a half, a vector that is shorter than a unit. -/
theorem trig_bounds_half : q16Sincos 32768 = (31419, 57513) ∧
    (31419 : Int) ^ 2 + 57513 ^ 2 < 2 ^ 32 ∧ Quadrant 31419 57513 (q16Atan2 31419 57513) :=
  ⟨by decide +kernel, by decide,
    ((trig_bounds 0 31419 57513).2.1 (Or.inr ⟨⟨by decide, by decide⟩, by decide⟩)).2⟩

/-- The shortest vector to the left is answered beyond the range, and the longest one overflows. -/
theorem atan2_short : q16Atan2 0 (-1) = 217191 ∧ ¬ Quadrant 0 (-1) (q16Atan2 0 (-1)) ∧
    ¬ AtanFits (2 ^ 31 - 1) (2 ^ 31 - 1) := by
  have h : q16Atan2 0 (-1) = 217191 := by decide
  refine ⟨h, fun hq => ?_, fun hfits => ?_⟩
  · have hrange := hq.range
    rw [h] at hrange
    exact absurd hrange (by decide)
  · exact absurd (hfits.loop 1 (by decide)).x (by decide)

end Microgarbage.Math
