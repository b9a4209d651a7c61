import Microgarbage.Lib.TruncDiv
import Microgarbage.Math.Isqrt

/-!
# The 64-bit fixed-point formats

`fixed_point.h`: products in partial products of halves, quotients in two parts, and the scaling by a
number with 16 fractional bits. Sums and shifts of 64 bits wrap.
-/

namespace Microgarbage.Math

open Lib BitVec

/-- `q32_32_t` -/
abbrev Q32 := BitVec 64

/-- `q48_16_t` -/
abbrev Q48 := BitVec 64

def q32FracBits : Nat := 32

def q48FracBits : Nat := 16

def q32One : Q32 := (1 : BitVec 64) <<< q32FracBits

def q48One : Q48 := (1 : BitVec 64) <<< q48FracBits

/-- `q32_mul` -/
def q32Mul (a b : Q32) : Q32 :=
  let aHi := a.sshiftRight 32
  let aLo := a &&& 0xFFFFFFFF
  let bHi := b.sshiftRight 32
  let bLo := b &&& 0xFFFFFFFF
  let hiHi := aHi * bHi
  let hiLo := aHi * bLo
  let loHi := aLo * bHi
  let loLo := aLo * bLo
  (hiHi <<< 32) + hiLo + loHi + (loLo >>> 32)

/-- `q48_mul` -/
def q48Mul (a b : Q48) : Q48 :=
  let aHi := a.sshiftRight 32
  let aLo := a &&& 0xFFFFFFFF
  let bHi := b.sshiftRight 32
  let bLo := b &&& 0xFFFFFFFF
  let hiHi := aHi * bHi
  let hiLo := aHi * bLo
  let loHi := aLo * bHi
  let loLo := aLo * bLo
  (hiHi <<< (64 - q48FracBits)) + ((hiLo + loHi) <<< (32 - q48FracBits)) + (loLo >>> q48FracBits)

/-- `q32_scale_q16` -/
def q32ScaleQ16 (a : Q32) (scale : Q16) : Q32 :=
  let aHi := a.sshiftRight 32
  let aLo := a &&& 0xFFFFFFFF
  let s : BitVec 64 := scale.signExtend 64
  let hiPart := aHi * s
  let loPart := (aLo * (if scale.slt 0 then -s else s)) >>> q16FracBits
  let loPart := if scale.slt 0 then -loPart else loPart
  (hiPart <<< (32 - q16FracBits)) + loPart

/-- A quotient with `frac` fractional bits: that of the whole parts, and that of the remainder. -/
def fxDiv (frac : Nat) (a b : BitVec 64) : BitVec 64 :=
  let q := a.sdiv b <<< frac
  let r := a.srem b
  q + (r <<< frac).sdiv b

/-- `q32_div` -/
def q32Div (a b : Q32) : Q32 := fxDiv q32FracBits a b

/-- `q48_div` -/
def q48Div (a b : Q48) : Q48 := fxDiv q48FracBits a b

/-- `q32_reciprocal` -/
def q32Reciprocal (x : Q32) : Q32 := q32Div q32One x

/-- `q48_reciprocal` -/
def q48Reciprocal (x : Q48) : Q48 := q48Div q48One x

/-! ## Words as integers modulo `2 ^ 64` -/

/-- The values of a 64-bit format. -/
def Representable (n : Int) : Prop := -2 ^ 63 ≤ n ∧ n < 2 ^ 63

instance (n : Int) : Decidable (Representable n) := inferInstanceAs (Decidable (_ ∧ _))

/-- The values of a 32-bit format, and of an `int`. -/
def Fits (n : Int) : Prop := -2 ^ 31 ≤ n ∧ n < 2 ^ 31

instance (n : Int) : Decidable (Fits n) := inferInstanceAs (Decidable (_ ∧ _))

theorem toInt_ofInt_of_representable {n : Int} (h : Representable n) :
    (BitVec.ofInt 64 n).toInt = n := by
  obtain ⟨hlow, hhigh⟩ := h
  rw [toInt_ofInt]
  exact Int.bmod_eq_of_le (by omega) (by omega)

theorem toInt_representable (a : BitVec 64) : Representable a.toInt :=
  ⟨le_toInt a, toInt_lt⟩

section Halves

variable (a b : BitVec 64)

theorem high_half_int : a.sshiftRight 32 = BitVec.ofInt 64 (a.toInt / 2 ^ 32) := by
  have hrep := toInt_representable a
  unfold Representable at hrep
  refine eq_of_toInt_eq ?_
  rw [toInt_sshiftRight, Int.shiftRight_eq_div_pow,
    toInt_ofInt_of_representable (by unfold Representable; omega)]
  rfl

theorem low_half : (a &&& 0xFFFFFFFF).toNat = a.toNat % 2 ^ 32 := by
  rw [toNat_and]
  exact Nat.and_two_pow_sub_one_eq_mod a.toNat 32

theorem low_half_int : ((a &&& 0xFFFFFFFF).toNat : Int) = a.toInt % 2 ^ 32 := by
  rw [low_half, toInt_eq_toNat_cond]
  split <;> omega

theorem low_half_eq : a &&& 0xFFFFFFFF = BitVec.ofInt 64 (a.toInt % 2 ^ 32) := by
  rw [← low_half_int, ofInt_natCast, ofNat_toNat, setWidth_eq]

theorem shiftLeft_ofInt (n : Int) (k : Nat) :
    BitVec.ofInt 64 n <<< k = BitVec.ofInt 64 (n * 2 ^ k) := by
  rw [shiftLeft_eq_mul_twoPow, ofInt_mul]
  refine congrArg (BitVec.ofInt 64 n * ·) (eq_of_toNat_eq ?_)
  rw [toNat_twoPow, show (2 : Int) ^ k = (2 ^ k : Nat) from (Int.natCast_pow 2 k).symm,
    ofInt_natCast, toNat_ofNat]

end Halves

theorem shifted_product {x y : BitVec 64} (h : x.toNat * y.toNat < 2 ^ 64) (k : Nat) :
    (x * y) >>> k = BitVec.ofInt 64 ((x.toNat : Int) * y.toNat / 2 ^ k) := by
  rw [show (2 : Int) ^ k = (2 ^ k : Nat) from (Int.natCast_pow 2 k).symm, ← Int.natCast_mul,
    ← Int.natCast_ediv, ofInt_natCast]
  refine eq_of_toNat_eq ?_
  rw [toNat_ushiftRight, Nat.shiftRight_eq_div_pow, toNat_mul, Nat.mod_eq_of_lt h,
    toNat_ofNat, Nat.mod_eq_of_lt]
  exact (Nat.div_le_self ..).trans_lt h

theorem low_half_lt (a : BitVec 64) : (a &&& 0xFFFFFFFF).toNat < 2 ^ 32 := by
  rw [low_half]
  exact Nat.mod_lt _ (by decide)

theorem low_product (a b : BitVec 64) (k : Nat) :
    ((a &&& 0xFFFFFFFF) * (b &&& 0xFFFFFFFF)) >>> k =
      BitVec.ofInt 64 (a.toInt % 2 ^ 32 * (b.toInt % 2 ^ 32) / 2 ^ k) := by
  have hprod : (a &&& 0xFFFFFFFF).toNat * (b &&& 0xFFFFFFFF).toNat < 2 ^ 64 :=
    (Nat.mul_lt_mul'' (low_half_lt a) (low_half_lt b)).trans_eq (by decide)
  rw [shifted_product hprod, low_half_int, low_half_int]

/-! ## Products -/

theorem partial_products (x y : Int) : x * y = (x / 2 ^ 32 * (y / 2 ^ 32)) * 2 ^ 64 +
    (x / 2 ^ 32 * (y % 2 ^ 32) + x % 2 ^ 32 * (y / 2 ^ 32)) * 2 ^ 32 +
      x % 2 ^ 32 * (y % 2 ^ 32) := by
  have hx := Int.mul_ediv_add_emod x (2 ^ 32)
  have hy := Int.mul_ediv_add_emod y (2 ^ 32)
  generalize x / 2 ^ 32 = xh, x % 2 ^ 32 = xl, y / 2 ^ 32 = yh, y % 2 ^ 32 = yl at *
  subst hx hy
  ring

theorem q32Mul_eq (a b : Q32) : q32Mul a b = BitVec.ofInt 64 (a.toInt * b.toInt / 2 ^ 32) := by
  have hexact : a.toInt * b.toInt / 2 ^ 32 =
      a.toInt / 2 ^ 32 * (b.toInt / 2 ^ 32) * 2 ^ 32 + a.toInt / 2 ^ 32 * (b.toInt % 2 ^ 32) +
        a.toInt % 2 ^ 32 * (b.toInt / 2 ^ 32) + a.toInt % 2 ^ 32 * (b.toInt % 2 ^ 32) / 2 ^ 32 := by
    rw [partial_products]
    omega
  unfold q32Mul
  dsimp only
  rw [low_product, high_half_int, high_half_int, low_half_eq, low_half_eq, ← ofInt_mul,
    ← ofInt_mul, ← ofInt_mul, shiftLeft_ofInt, ← ofInt_add, ← ofInt_add,
    ← ofInt_add, hexact]

theorem q48Mul_eq (a b : Q48) : q48Mul a b = BitVec.ofInt 64 (a.toInt * b.toInt / 2 ^ 16) := by
  have hexact : a.toInt * b.toInt / 2 ^ 16 =
      a.toInt / 2 ^ 32 * (b.toInt / 2 ^ 32) * 2 ^ 48 + (a.toInt / 2 ^ 32 * (b.toInt % 2 ^ 32) +
        a.toInt % 2 ^ 32 * (b.toInt / 2 ^ 32)) * 2 ^ 16 +
          a.toInt % 2 ^ 32 * (b.toInt % 2 ^ 32) / 2 ^ 16 := by
    rw [partial_products]
    omega
  unfold q48Mul q48FracBits
  dsimp only
  rw [low_product, high_half_int, high_half_int, low_half_eq, low_half_eq, ← ofInt_mul,
    ← ofInt_mul, ← ofInt_mul, ← ofInt_add, shiftLeft_ofInt, shiftLeft_ofInt,
    ← ofInt_add, ← ofInt_add, hexact]

/-! ## Scaling -/

theorem toInt_signExtend (scale : Q16) : (scale.signExtend 64).toInt = scale.toInt :=
  toInt_signExtend_of_le (by decide)

theorem scale_magnitude (scale : Q16) : ((if scale.slt 0 then -scale.signExtend 64
    else scale.signExtend 64).toNat : Int) = |scale.toInt| := by
  have hext := toInt_signExtend scale
  have hlow : -2 ^ 31 ≤ scale.toInt := le_toInt scale
  have hhigh : scale.toInt < 2 ^ 31 := toInt_lt
  by_cases hneg : scale.toInt < 0
  · have hslt : scale.slt 0 := slt_iff_toInt_lt.mpr hneg
    rw [if_pos hslt, toNat_neg, abs_of_neg hneg]
    rw [toInt_eq_toNat_cond] at hext
    have := (scale.signExtend 64).isLt
    split at hext <;> omega
  · have hslt : ¬scale.slt 0 := fun h => hneg (slt_iff_toInt_lt.mp h)
    rw [if_neg hslt, abs_of_nonneg (by omega)]
    rw [toInt_eq_toNat_cond] at hext
    split at hext <;> omega

/-- A negative scale rounds up. -/
def scaled (x s : Int) : Int := if s < 0 then -(x * |s| / 2 ^ 16) else x * s / 2 ^ 16

theorem q32ScaleQ16_eq (a : Q32) (scale : Q16) :
    q32ScaleQ16 a scale = BitVec.ofInt 64 (scaled a.toInt scale.toInt) := by
  have hmag := scale_magnitude scale
  have hlow : -2 ^ 31 ≤ scale.toInt := le_toInt scale
  have hhigh : scale.toInt < 2 ^ 31 := toInt_lt
  have habs : |scale.toInt| ≤ 2 ^ 31 := abs_le.mpr ⟨hlow, hhigh.le⟩
  unfold q32ScaleQ16 q16FracBits
  dsimp only
  generalize (if scale.slt 0 then -scale.signExtend 64 else scale.signExtend 64) = m at hmag ⊢
  have hfit : (a &&& 0xFFFFFFFF).toNat * m.toNat < 2 ^ 64 := by
    refine (Nat.mul_lt_mul'' (low_half_lt a) (show m.toNat < 2 ^ 32 by omega)).trans_eq ?_
    decide
  have hext : scale.signExtend 64 = BitVec.ofInt 64 scale.toInt := by
    rw [← toInt_signExtend, ofInt_toInt]
  rw [shifted_product hfit, low_half_int, hmag, high_half_int, hext, ← ofInt_mul,
    shiftLeft_ofInt, ← ofInt_neg]
  have hx := Int.mul_ediv_add_emod a.toInt (2 ^ 32)
  generalize a.toInt / 2 ^ 32 = xh, a.toInt % 2 ^ 32 = xl at hx ⊢
  by_cases hneg : scale.toInt < 0
  · have hslt : scale.slt 0 := slt_iff_toInt_lt.mpr hneg
    rw [if_pos hslt, ← ofInt_add, scaled, if_pos hneg, ← hx, abs_of_neg hneg,
      show (2 ^ 32 * xh + xl) * -scale.toInt = -(2 ^ 32 * (xh * scale.toInt) + xl * scale.toInt) by
        ring,
      show xl * -scale.toInt = -(xl * scale.toInt) by ring]
    refine congrArg _ ?_
    omega
  · have hslt : ¬scale.slt 0 := fun h => hneg (slt_iff_toInt_lt.mp h)
    rw [if_neg hslt, ← ofInt_add, scaled, if_neg hneg, ← hx, abs_of_nonneg (by omega),
      show (2 ^ 32 * xh + xl) * scale.toInt = 2 ^ 32 * (xh * scale.toInt) + xl * scale.toInt by ring]
    refine congrArg _ ?_
    omega

/-- The scaling rounds down exactly when the scale is not negative or nothing is rounded. -/
theorem q32ScaleQ16_floor_iff {a : Q32} {scale : Q16}
    (hrep : Representable (a.toInt * scale.toInt / 2 ^ 16)) :
    (q32ScaleQ16 a scale).toInt = a.toInt * scale.toInt / 2 ^ 16 ↔
      0 ≤ scale.toInt ∨ 2 ^ 16 ∣ a.toInt * scale.toInt := by
  rw [q32ScaleQ16_eq, scaled]
  by_cases hneg : scale.toInt < 0
  · rw [if_pos hneg, abs_of_neg hneg,
      show a.toInt * -scale.toInt = -(a.toInt * scale.toInt) by ring, toInt_ofInt]
    unfold Representable at hrep
    generalize a.toInt * scale.toInt = x at hrep ⊢
    rw [Int.bmod_def]
    omega
  · rw [if_neg hneg, toInt_ofInt_of_representable hrep]
    exact ⟨fun _ => .inl (Int.not_lt.mp hneg), fun _ => rfl⟩

/-! ## Quotients -/

section Quotient

variable {frac : Nat} {a b : BitVec 64}

/-- The remainder can be shifted without loss. -/
def RemFits (frac : Nat) (x y : Int) : Prop := Representable (x.tmod y * 2 ^ frac)

theorem fxDiv_eq : fxDiv frac a b = BitVec.ofInt 64 (a.toInt.tdiv b.toInt * 2 ^ frac +
    ((a.toInt.tmod b.toInt * 2 ^ frac).bmod (2 ^ 64)).tdiv b.toInt) := by
  have hquot : a.sdiv b = BitVec.ofInt 64 (a.toInt.tdiv b.toInt) := by
    refine eq_of_toInt_eq ?_
    rw [toInt_sdiv, toInt_ofInt]
  have hrem : a.srem b = BitVec.ofInt 64 (a.toInt.tmod b.toInt) := by
    rw [← toInt_srem, ofInt_toInt]
  have hpart : (BitVec.ofInt 64 (a.toInt.tmod b.toInt * 2 ^ frac)).sdiv b =
      BitVec.ofInt 64 (((a.toInt.tmod b.toInt * 2 ^ frac).bmod (2 ^ 64)).tdiv b.toInt) := by
    refine eq_of_toInt_eq ?_
    rw [toInt_sdiv, toInt_ofInt, toInt_ofInt]
  unfold fxDiv
  dsimp only
  rw [hrem, hquot, shiftLeft_ofInt, shiftLeft_ofInt, hpart, ← ofInt_add]

/-- A wrapped remainder that is not the remainder has another quotient, even modulo `2 ^ 64`. -/
theorem remFits_of_dvd (hfrac : frac ≤ 32) {x y : Int} (hy : y ≠ 0) (hyrep : Representable y)
    (h : (2 ^ 64 : Int) ∣ ((x.tmod y * 2 ^ frac).bmod (2 ^ 64)).tdiv y -
      (x.tmod y * 2 ^ frac).tdiv y) : RemFits frac x y := by
  generalize hR : x.tmod y * 2 ^ frac = R at h
  have hlow : -2 ^ 63 ≤ R.bmod (2 ^ 64) := Int.le_bmod (by decide)
  have hhigh : R.bmod (2 ^ 64) < 2 ^ 63 := Int.bmod_lt (by decide)
  have hrem := natAbs_tmod_lt x hy
  have hy2 : y.natAbs ≤ 2 ^ 63 := by
    unfold Representable at hyrep
    omega
  -- both quotients are small, so that they are equal
  have hquot : (R.tdiv y).natAbs < 2 ^ 32 := by
    rw [Int.natAbs_tdiv, ← hR, Int.natAbs_mul, Int.natAbs_pow]
    refine (Nat.div_lt_iff_lt_mul (Int.natAbs_pos.mpr hy)).mpr ?_
    calc (x.tmod y).natAbs * 2 ^ frac < y.natAbs * 2 ^ frac :=
          Nat.mul_lt_mul_of_pos_right hrem (Nat.pow_pos (by decide))
      _ ≤ y.natAbs * 2 ^ 32 := Nat.mul_le_mul_left _ (Nat.pow_le_pow_right (by decide) hfrac)
      _ = 2 ^ 32 * y.natAbs := Nat.mul_comm ..
  have hwrapped : ((R.bmod (2 ^ 64)).tdiv y).natAbs ≤ 2 ^ 63 := by
    rw [Int.natAbs_tdiv]
    exact (Nat.div_le_self ..).trans (by omega)
  have heq : (R.bmod (2 ^ 64)).tdiv y = R.tdiv y := by
    obtain ⟨k, hk⟩ := h
    omega
  -- and the remainder is its wrapped value
  have hfar := natAbs_sub_lt_of_tdiv_eq hy heq
  obtain ⟨k, hk⟩ := Int.dvd_bmod_sub_self (x := R) (m := 2 ^ 64)
  unfold RemFits Representable
  rw [hR]
  omega

/-- A quotient that is representable is exact exactly when the shift of the remainder loses
nothing. -/
theorem fxDiv_exact_iff (hfrac : frac ≤ 32) (hb : b ≠ 0)
    (hrep : Representable ((a.toInt * 2 ^ frac).tdiv b.toInt)) :
    (fxDiv frac a b).toInt = (a.toInt * 2 ^ frac).tdiv b.toInt ↔ RemFits frac a.toInt b.toInt := by
  have hb' : b.toInt ≠ 0 := fun h => hb (eq_of_toInt_eq h)
  rw [fxDiv_eq]
  rw [tdiv_scaled hb' (by positivity)] at hrep ⊢
  constructor
  · intro h
    refine remFits_of_dvd hfrac hb' (toInt_representable b) ?_
    rw [toInt_ofInt] at h
    have hdvd := Int.dvd_self_sub_bmod (x := a.toInt.tdiv b.toInt * 2 ^ frac +
      ((a.toInt.tmod b.toInt * 2 ^ frac).bmod (2 ^ 64)).tdiv b.toInt) (m := 2 ^ 64)
    rw [h, Int.add_sub_add_left] at hdvd
    exact hdvd
  · intro h
    obtain ⟨hlow, hhigh⟩ := h
    rw [Int.bmod_eq_of_le (by omega) (by omega), toInt_ofInt_of_representable hrep]

end Quotient

/-- The reciprocal of a number greater than one shifts a remainder of one out of the word. -/
theorem remFits_one_iff {y : Int} (hy : y ≠ 0) : RemFits 32 (2 ^ 32) y ↔ |y| ≤ 2 ^ 32 := by
  have hrem : ((2 ^ 32 : Int).tmod y).natAbs = 2 ^ 32 % y.natAbs := by
    rw [Int.natAbs_tmod]
    rfl
  have hpos : 0 ≤ (2 ^ 32 : Int).tmod y := Int.tmod_nonneg y (by decide)
  have hmod := Nat.mod_lt (2 ^ 32) (Int.natAbs_pos.mpr hy)
  unfold RemFits Representable
  rw [Int.abs_eq_natAbs]
  constructor
  · intro h
    by_contra hgt
    rw [Nat.mod_eq_of_lt (by omega)] at hrem
    omega
  · intro h
    have hhalf : 2 ^ 32 % y.natAbs < 2 ^ 31 := by
      by_cases hle : y.natAbs ≤ 2 ^ 31
      · omega
      · rw [Nat.mod_eq_sub_mod (by omega)]
        exact (Nat.mod_le ..).trans_lt (by omega)
    omega

theorem remFits_small_one (y : Int) : RemFits 16 (2 ^ 16) y := by
  have hrem : ((2 ^ 16 : Int).tmod y).natAbs = 2 ^ 16 % y.natAbs := by
    rw [Int.natAbs_tmod]
    rfl
  have hpos : 0 ≤ (2 ^ 16 : Int).tmod y := Int.tmod_nonneg y (by decide)
  have hle := Nat.mod_le (2 ^ 16) y.natAbs
  unfold RemFits Representable
  omega

/-- Where the exact result is representable: products are rounded down, and so is a scaling whose
scale is not negative; quotients are truncated where the shifted remainder fits. -/
theorem fixed_point_exact_iff (a b x : BitVec 64) (scale : Q16) :
    (Representable (a.toInt * b.toInt / 2 ^ 32) →
        (q32Mul a b).toInt = a.toInt * b.toInt / 2 ^ 32) ∧
      (Representable (a.toInt * b.toInt / 2 ^ 16) →
        (q48Mul a b).toInt = a.toInt * b.toInt / 2 ^ 16) ∧
      (b ≠ 0 → Representable ((a.toInt * 2 ^ 32).tdiv b.toInt) →
        ((q32Div a b).toInt = (a.toInt * 2 ^ 32).tdiv b.toInt ↔ RemFits 32 a.toInt b.toInt)) ∧
      (b ≠ 0 → Representable ((a.toInt * 2 ^ 16).tdiv b.toInt) →
        ((q48Div a b).toInt = (a.toInt * 2 ^ 16).tdiv b.toInt ↔ RemFits 16 a.toInt b.toInt)) ∧
      (x ≠ 0 → Representable ((2 ^ 32 * 2 ^ 32 : Int).tdiv x.toInt) →
        ((q32Reciprocal x).toInt = (2 ^ 32 * 2 ^ 32 : Int).tdiv x.toInt ↔ |x.toInt| ≤ 2 ^ 32)) ∧
      (x ≠ 0 → Representable ((2 ^ 16 * 2 ^ 16 : Int).tdiv x.toInt) →
        (q48Reciprocal x).toInt = (2 ^ 16 * 2 ^ 16 : Int).tdiv x.toInt) ∧
      (Representable (a.toInt * scale.toInt / 2 ^ 16) →
        ((q32ScaleQ16 a scale).toInt = a.toInt * scale.toInt / 2 ^ 16 ↔
          0 ≤ scale.toInt ∨ 2 ^ 16 ∣ a.toInt * scale.toInt)) := by
  have hne {x : BitVec 64} (hx : x ≠ 0) : x.toInt ≠ 0 := fun h => hx (eq_of_toInt_eq h)
  refine ⟨fun h => ?_, fun h => ?_, fun hb h => fxDiv_exact_iff (by decide) hb h,
    fun hb h => fxDiv_exact_iff (by decide) hb h, fun hx h => ?_, fun hx h => ?_,
    fun h => q32ScaleQ16_floor_iff h⟩
  · rw [q32Mul_eq, toInt_ofInt_of_representable h]
  · rw [q48Mul_eq, toInt_ofInt_of_representable h]
  · exact (fxDiv_exact_iff (a := q32One) (by decide) hx h).trans (remFits_one_iff (hne hx))
  · exact (fxDiv_exact_iff (a := q48One) (by decide) hx h).mpr (remFits_small_one x.toInt)

theorem fixed_point_half : (q32Mul 0x80000000 0x100000000).toInt = 0x80000000 ∧
    ((q32Div 0x40000000 0x80000000).toInt = 0x80000000 ↔ RemFits 32 0x40000000 0x80000000) :=
  ⟨(fixed_point_exact_iff 0x80000000 0x100000000 1 0).1 (by decide),
    (fixed_point_exact_iff 0x40000000 0x80000000 1 0).2.2.1 (by decide) (by decide)⟩

/-- One half divided by one is minus one half. -/
theorem half_by_one_negative : (0x80000000 : Q32).toInt < 2 ^ 32 ∧
    Representable (((0x80000000 : Q32).toInt * 2 ^ 32).tdiv (0x100000000 : Q32).toInt) ∧
      (q32Div 0x80000000 0x100000000).toInt = -0x80000000 ∧
        (q32Div 0x80000000 0x100000000).toInt ≠
          ((0x80000000 : Q32).toInt * 2 ^ 32).tdiv (0x100000000 : Q32).toInt := by decide

end Microgarbage.Math
