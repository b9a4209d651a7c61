import Mathlib.Algebra.Order.Ring.Abs
import Mathlib.Tactic.NormNum
import Microgarbage.Math.FixedPoint

/-!
# Unit vectors

`vec3_q16_normalize`: the squared length in 64 bits, its reciprocal root by `fx_isqrt64`, and the
three components scaled by it.
-/

namespace Microgarbage.Math

open Lib

/-- `vec3_q16` -/
structure Vec3Q16 where
  x : Q16
  y : Q16
  z : Q16
  deriving DecidableEq

/-- `q16_mul` -/
def q16Mul (a b : Q16) : Q16 :=
  ((a.signExtend 64 * b.signExtend 64).sshiftRight q16FracBits).setWidth 32

namespace Vec3Q16

/-- `vec3_q16_scale` -/
def scale (a : Vec3Q16) (s : Q16) : Vec3Q16 := ⟨q16Mul a.x s, q16Mul a.y s, q16Mul a.z s⟩

variable (v : Vec3Q16)

/-- The squared length with 16 fractional bits, as a 64-bit word. -/
def lengthSq : BitVec 64 :=
  (v.x.signExtend 64 * v.x.signExtend 64 + v.y.signExtend 64 * v.y.signExtend 64 +
    v.z.signExtend 64 * v.z.signExtend 64).sshiftRight q16FracBits

/-- `vec3_q16_normalize` -/
def normalize : Vec3Q16 :=
  let s := v.lengthSq
  if s.sle 0 then v
  else v.scale (fxIsqrt64 ((1 : BitVec 64) <<< 48 / s))

/-- The exact squared length, with 32 fractional bits. -/
def sumSq : Int := v.x.toInt ^ 2 + v.y.toInt ^ 2 + v.z.toInt ^ 2

/-- What the squared length is cut to. -/
def cut : Nat := (v.sumSq / 2 ^ 16).toNat

/-- The exact reciprocal root of what the squared length is cut to. -/
def root : Nat := Nat.sqrt (2 ^ 48 / v.cut)

end Vec3Q16

/-! ## Words and integers -/

theorem q16Mul_eq {a b : Q16} (hlow : -2 ^ 31 ≤ a.toInt * b.toInt / 2 ^ 16)
    (hhigh : a.toInt * b.toInt / 2 ^ 16 < 2 ^ 31) :
    (q16Mul a b).toInt = a.toInt * b.toInt / 2 ^ 16 := by
  have hprod : Representable (a.toInt * b.toInt) := by
    unfold Representable
    omega
  have hwide : ((a.signExtend 64 * b.signExtend 64).sshiftRight q16FracBits).toInt =
      a.toInt * b.toInt / 2 ^ 16 := by
    rw [BitVec.toInt_sshiftRight, Int.shiftRight_eq_div_pow,
      show a.signExtend 64 * b.signExtend 64 = BitVec.ofInt 64 (a.toInt * b.toInt) from
        (BitVec.ofInt_mul ..).symm, toInt_ofInt_of_representable hprod]
    rfl
  unfold q16Mul
  rw [BitVec.toInt_setWidth, ← Int.bmod_bmod_of_dvd (show 2 ^ 32 ∣ 2 ^ 64 by decide),
    ← BitVec.toInt_eq_toNat_bmod, hwide]
  exact Int.bmod_eq_of_le (by omega) (by omega)

/-! ## One component -/

theorem floor_sq {t b M : Int} (hb : 0 < b) (hlow : -M ≤ t) (hhigh : t ≤ M) :
    (t / b * b) ^ 2 ≤ t ^ 2 + (2 * M * b + b ^ 2) ∧ t ^ 2 ≤ (t / b * b) ^ 2 + 2 * M * b := by
  have hmod := Int.emod_nonneg t hb.ne'
  have hlt := Int.emod_lt_of_pos t hb
  have hdiv : t / b * b = t - t % b := by
    have := Int.mul_ediv_add_emod t b
    linarith
  rw [hdiv]
  constructor
  · nlinarith
  · nlinarith

theorem sign_floor {c r b : Int} (hr : 0 < r) (hb : 0 < b) :
    (c * r / b).sign = c.sign ↔ (0 < c → b ≤ c * r) := by
  rcases lt_trichotomy c 0 with hc | hc | hc
  · have hneg : c * r / b < 0 := Int.ediv_neg_of_neg_of_pos (mul_neg_of_neg_of_pos hc hr) hb
    rw [Int.sign_eq_neg_one_of_neg hneg, Int.sign_eq_neg_one_of_neg hc]
    exact iff_of_true rfl fun h => absurd h (not_lt.mpr hc.le)
  · rw [hc, zero_mul, Int.zero_ediv]
    exact iff_of_true rfl fun h => absurd h (lt_irrefl 0)
  · rw [Int.sign_eq_one_of_pos hc, Int.sign_eq_one_iff_pos]
    have hdiv : 0 < c * r / b ↔ b ≤ c * r := by
      rw [← Int.add_one_le_iff, zero_add, Int.le_ediv_iff_mul_le hb, one_mul]
    exact hdiv.trans ⟨fun h _ => h, fun h => h hc⟩

/-- The least factor that takes the positive component `c` to one unit of the last place. -/
def leastRoot (c : Nat) : Nat := (65535 + c) / c

theorem leastRoot_le {c r : Nat} (hc : 0 < c) : leastRoot c ≤ r ↔ 2 ^ 16 ≤ c * r := by
  unfold leastRoot
  rw [← Nat.lt_succ_iff, Nat.div_lt_iff_lt_mul hc, Nat.succ_mul, mul_comm r c]
  omega

/-- A component that is not rounded to zero, `s` being the squared length. -/
def Shows (s : Nat) (c : Int) : Prop := 0 < c → leastRoot c.toNat ^ 2 * s ≤ 2 ^ 48

theorem shows_iff {s : Nat} (hs : 0 < s) (c : Int) :
    Shows s c ↔ (0 < c → 2 ^ 16 ≤ c * (Nat.sqrt (2 ^ 48 / s) : Int)) := by
  refine forall_congr' fun hc => ?_
  have hpos : 0 < c.toNat := by omega
  have hcast : c = (c.toNat : Int) := by omega
  rw [← Nat.le_div_iff_mul_le hs, pow_two, ← Nat.le_sqrt, leastRoot_le hpos]
  nth_rewrite 2 [hcast]
  exact_mod_cast Iff.rfl

namespace Vec3Q16

theorem sumSq_nonneg (v : Vec3Q16) : 0 ≤ v.sumSq := by
  unfold sumSq
  positivity

variable {v : Vec3Q16}

theorem lengthSq_eq (h : v.sumSq < 2 ^ 63) : v.lengthSq.toInt = v.sumSq / 2 ^ 16 := by
  have hrep : Representable v.sumSq := ⟨(by decide : (-2 ^ 63 : Int) ≤ 0).trans v.sumSq_nonneg, h⟩
  have hword : v.x.signExtend 64 * v.x.signExtend 64 + v.y.signExtend 64 * v.y.signExtend 64 +
      v.z.signExtend 64 * v.z.signExtend 64 = BitVec.ofInt 64 v.sumSq := by
    unfold sumSq BitVec.signExtend
    rw [← BitVec.ofInt_mul, ← BitVec.ofInt_mul, ← BitVec.ofInt_mul, ← BitVec.ofInt_add,
      ← BitVec.ofInt_add, pow_two, pow_two, pow_two]
  unfold lengthSq
  rw [hword, BitVec.toInt_sshiftRight, Int.shiftRight_eq_div_pow, toInt_ofInt_of_representable hrep]
  rfl

/-! ## The exact values -/

/-- The exact intermediate values are in the ranges of their types. -/
structure Fits (v : Vec3Q16) : Prop where
  pair : Representable (v.x.toInt ^ 2 + v.y.toInt ^ 2)
  total : Representable v.sumSq
  scaled : ∀ c ∈ [v.x, v.y, v.z],
    -2 ^ 31 ≤ c.toInt * v.root / 2 ^ 16 ∧ c.toInt * v.root / 2 ^ 16 < 2 ^ 31

/-- The squared length is within two percent of one, and every component has its sign. -/
structure UnitOf (v u : Vec3Q16) : Prop where
  length : 49 * 2 ^ 32 ≤ 50 * u.sumSq ∧ 50 * u.sumSq ≤ 51 * 2 ^ 32
  x : u.x.toInt.sign = v.x.toInt.sign
  y : u.y.toInt.sign = v.y.toInt.sign
  z : u.z.toInt.sign = v.z.toInt.sign

structure Visible (v : Vec3Q16) : Prop where
  x : Shows v.cut v.x.toInt
  y : Shows v.cut v.y.toInt
  z : Shows v.cut v.z.toInt

theorem cut_eq (v : Vec3Q16) : (v.cut : Int) = v.sumSq / 2 ^ 16 :=
  Int.toNat_of_nonneg (Int.ediv_nonneg v.sumSq_nonneg (by decide))

theorem root_spec (h : 0 < v.cut) :
    (v.root : Int) ^ 2 * v.cut ≤ 2 ^ 48 ∧ (2 : Int) ^ 48 < (v.root + 1) ^ 2 * v.cut := by
  obtain ⟨hlow, hhigh⟩ := sqrt_div_spec (n := 2 ^ 48) h
  rw [pow_two, pow_two]
  exact ⟨mod_cast hlow, mod_cast hhigh⟩

/-- No component times the root is longer than the whole vector times the root. -/
theorem root_sq_le (h : 0 < v.cut) : (v.root : Int) ^ 2 * v.sumSq ≤ 2 ^ 65 := by
  have hroot := (root_spec h).1
  have hcut := v.cut_eq
  have hsq : v.sumSq ≤ 2 ^ 17 * v.cut := by omega
  calc (v.root : Int) ^ 2 * v.sumSq ≤ v.root ^ 2 * (2 ^ 17 * v.cut) :=
        Int.mul_le_mul_of_nonneg_left hsq (by positivity)
    _ = 2 ^ 17 * (v.root ^ 2 * v.cut) := by ring
    _ ≤ 2 ^ 17 * 2 ^ 48 := Int.mul_le_mul_of_nonneg_left hroot (by decide)
    _ = 2 ^ 65 := by norm_num

theorem component_sq_le (v : Vec3Q16) :
    v.x.toInt ^ 2 ≤ v.sumSq ∧ v.y.toInt ^ 2 ≤ v.sumSq ∧ v.z.toInt ^ 2 ≤ v.sumSq := by
  have hx := sq_nonneg v.x.toInt
  have hy := sq_nonneg v.y.toInt
  have hz := sq_nonneg v.z.toInt
  unfold sumSq
  omega

theorem scaled_fits {c : Int} (hc : c ^ 2 ≤ v.sumSq) :
    -2 ^ 31 ≤ c * v.root / 2 ^ 16 ∧ c * v.root / 2 ^ 16 < 2 ^ 31 := by
  rcases Nat.eq_zero_or_pos v.cut with hzero | hpos
  · have hroot : v.root = 0 := by
      unfold root
      rw [hzero]
      rfl
    rw [hroot, Nat.cast_zero, mul_zero, Int.zero_ediv]
    decide
  · have hsq : (c * v.root) ^ 2 ≤ (2 ^ 33) ^ 2 := by
      calc (c * v.root) ^ 2 = v.root ^ 2 * c ^ 2 := by ring
        _ ≤ v.root ^ 2 * v.sumSq := Int.mul_le_mul_of_nonneg_left hc (by positivity)
        _ ≤ (2 ^ 33) ^ 2 := (root_sq_le hpos).trans (by norm_num)
    obtain ⟨hlow, hhigh⟩ := abs_le_of_sq_le_sq' hsq (by norm_num)
    omega

theorem fits_iff (v : Vec3Q16) : v.Fits ↔ v.sumSq < 2 ^ 63 := by
  obtain ⟨hx, hy, hz⟩ := v.component_sq_le
  have hnonneg := v.sumSq_nonneg
  constructor
  · exact fun h => h.total.2
  · intro h
    refine ⟨⟨?_, ?_⟩, ⟨(by decide : (-2 ^ 63 : Int) ≤ 0).trans hnonneg, h⟩, fun c hc => ?_⟩
    · exact (by decide : (-2 ^ 63 : Int) ≤ 0).trans (by positivity)
    · have := sq_nonneg v.z.toInt
      unfold sumSq at h
      omega
    · simp only [List.mem_cons, List.not_mem_nil, or_false] at hc
      rcases hc with rfl | rfl | rfl
      · exact scaled_fits hx
      · exact scaled_fits hy
      · exact scaled_fits hz

theorem normalize_eq (hhigh : v.sumSq < 2 ^ 63) (hlow : 2 ^ 16 ≤ v.sumSq) :
    v.normalize.x.toInt = v.x.toInt * v.root / 2 ^ 16 ∧
      v.normalize.y.toInt = v.y.toInt * v.root / 2 ^ 16 ∧
      v.normalize.z.toInt = v.z.toInt * v.root / 2 ^ 16 := by
  obtain ⟨hx, hy, hz⟩ := v.component_sq_le
  have hlen := lengthSq_eq hhigh
  have hcut := v.cut_eq
  have hnat : v.lengthSq.toNat = v.cut := by
    have hword := BitVec.toInt_eq_toNat_cond v.lengthSq
    have hlt := v.lengthSq.isLt
    split at hword <;> omega
  have hsle : ¬v.lengthSq.sle 0 := by
    rw [BitVec.sle_iff_toInt_le, hlen, show (0 : BitVec 64).toInt = 0 from rfl]
    omega
  have hquot : ((1 : BitVec 64) <<< 48 / v.lengthSq).toNat = 2 ^ 48 / v.cut := by
    rw [BitVec.toNat_udiv, hnat]
    rfl
  have hroot : (fxIsqrt64 ((1 : BitVec 64) <<< 48 / v.lengthSq)).toInt = v.root := by
    rw [fxIsqrt64_toInt, hquot]
    · rfl
    · rw [hquot]
      exact (Nat.div_le_self ..).trans_lt (by decide)
  have hmul {c : Q16} (hc : c.toInt ^ 2 ≤ v.sumSq) :
      (q16Mul c (fxIsqrt64 ((1 : BitVec 64) <<< 48 / v.lengthSq))).toInt =
        c.toInt * v.root / 2 ^ 16 := by
    obtain ⟨h1, h2⟩ := scaled_fits hc
    rw [q16Mul_eq, hroot]
    · rw [hroot]
      exact h1
    · rw [hroot]
      exact h2
  unfold normalize
  dsimp only
  rw [if_neg hsle]
  exact ⟨hmul hx, hmul hy, hmul hz⟩

theorem normalize_short (h : v.sumSq < 2 ^ 16) : v.normalize = v := by
  have hlen := lengthSq_eq (v := v) (by omega)
  have hnonneg := v.sumSq_nonneg
  unfold normalize
  dsimp only
  rw [if_pos]
  rw [BitVec.sle_iff_toInt_le, hlen, show (0 : BitVec 64).toInt = 0 from rfl]
  omega

/-! ## The length -/

theorem scaled_length (hlow : 51 ≤ v.cut) (hhigh : 99 ^ 2 * v.cut ≤ 2 ^ 48) :
    51 * ((v.root : Int) ^ 2 * v.sumSq) ≤ 52 * 2 ^ 64 ∧
      9801 * 2 ^ 64 ≤ 10000 * ((v.root : Int) ^ 2 * v.sumSq) := by
  have hpos : 0 < v.cut := by omega
  obtain ⟨hle, hlt⟩ := root_spec hpos
  have hcut := v.cut_eq
  have hroot : 99 ≤ v.root := by
    unfold root
    rw [Nat.le_sqrt, Nat.le_div_iff_mul_le hpos]
    exact hhigh
  constructor
  · -- the cut loses less than one part in fifty-one
    have hsum : 51 * v.sumSq ≤ 52 * 2 ^ 16 * v.cut := by omega
    calc 51 * ((v.root : Int) ^ 2 * v.sumSq) = (v.root : Int) ^ 2 * (51 * v.sumSq) := by ring
      _ ≤ (v.root : Int) ^ 2 * (52 * 2 ^ 16 * v.cut) :=
        Int.mul_le_mul_of_nonneg_left hsum (by positivity)
      _ = 52 * 2 ^ 16 * ((v.root : Int) ^ 2 * v.cut) := by ring
      _ ≤ 52 * 2 ^ 16 * 2 ^ 48 := Int.mul_le_mul_of_nonneg_left hle (by decide)
      _ = 52 * 2 ^ 64 := by norm_num
  · -- the root loses less than one part in a hundred
    have hsum : 2 ^ 16 * (v.cut : Int) ≤ v.sumSq := by omega
    have hpart : (99 * (v.root + 1) : Int) ^ 2 ≤ (100 * v.root) ^ 2 :=
      pow_le_pow_left₀ (by positivity) (by omega) 2
    have hscaled : 9801 * 2 ^ 48 ≤ 10000 * ((v.root : Int) ^ 2 * v.cut) := by
      calc (9801 * 2 ^ 48 : Int) ≤ 9801 * ((v.root + 1) ^ 2 * v.cut) := by omega
        _ = (99 * (v.root + 1)) ^ 2 * v.cut := by ring
        _ ≤ (100 * v.root) ^ 2 * v.cut := Int.mul_le_mul_of_nonneg_right hpart (by positivity)
        _ = 10000 * (v.root ^ 2 * v.cut) := by ring
    calc (9801 * 2 ^ 64 : Int) = 2 ^ 16 * (9801 * 2 ^ 48) := by norm_num
      _ ≤ 2 ^ 16 * (10000 * (v.root ^ 2 * v.cut)) :=
        Int.mul_le_mul_of_nonneg_left hscaled (by decide)
      _ = 10000 * (v.root ^ 2 * (2 ^ 16 * v.cut)) := by ring
      _ ≤ 10000 * (v.root ^ 2 * v.sumSq) := by
        have := Int.mul_le_mul_of_nonneg_left hsum (sq_nonneg (v.root : Int))
        omega

/-- What the cut of the components does to the length, `M` bounding the scaled vector. -/
theorem cut_length {M : Int} (hhigh : v.sumSq < 2 ^ 63) (hlow : 2 ^ 16 ≤ v.sumSq) (hM : 0 ≤ M)
    (hP : (v.root : Int) ^ 2 * v.sumSq ≤ M ^ 2) :
    2 ^ 32 * v.normalize.sumSq ≤ v.root ^ 2 * v.sumSq + 3 * (2 * M * 2 ^ 16 + (2 ^ 16) ^ 2) ∧
      v.root ^ 2 * v.sumSq ≤ 2 ^ 32 * v.normalize.sumSq + 3 * (2 * M * 2 ^ 16) := by
  obtain ⟨hx, hy, hz⟩ := normalize_eq hhigh hlow
  have hsum : (v.x.toInt * v.root) ^ 2 + (v.y.toInt * v.root) ^ 2 + (v.z.toInt * v.root) ^ 2 =
      v.root ^ 2 * v.sumSq := by
    unfold sumSq
    ring
  generalize (v.root : Int) ^ 2 * v.sumSq = P at *
  have hcomp {t : Int} (ht : t ^ 2 ≤ P) := floor_sq (t := t) (b := 2 ^ 16) (M := M) (by decide)
    (abs_le_of_sq_le_sq' (ht.trans hP) hM).1 (abs_le_of_sq_le_sq' (ht.trans hP) hM).2
  have hx2 := sq_nonneg (v.x.toInt * v.root)
  have hy2 := sq_nonneg (v.y.toInt * v.root)
  have hz2 := sq_nonneg (v.z.toInt * v.root)
  obtain ⟨hxup, hxdown⟩ := hcomp (t := v.x.toInt * v.root) (by omega)
  obtain ⟨hyup, hydown⟩ := hcomp (t := v.y.toInt * v.root) (by omega)
  obtain ⟨hzup, hzdown⟩ := hcomp (t := v.z.toInt * v.root) (by omega)
  rw [← hx, mul_pow v.normalize.x.toInt] at hxup hxdown
  rw [← hy, mul_pow v.normalize.y.toInt] at hyup hydown
  rw [← hz, mul_pow v.normalize.z.toInt] at hzup hzdown
  unfold sumSq
  omega

theorem unit_length (hlow : 51 ≤ v.cut) (hhigh : 99 ^ 2 * v.cut ≤ 2 ^ 48) :
    49 * 2 ^ 32 ≤ 50 * v.normalize.sumSq ∧ 50 * v.normalize.sumSq ≤ 51 * 2 ^ 32 := by
  obtain ⟨hup, hdown⟩ := scaled_length hlow hhigh
  have hcut := v.cut_eq
  have hlength := cut_length (v := v) (M := 2 ^ 32 + 2 ^ 26) (by omega) (by omega) (by decide)
    (by omega)
  omega

/-- A unit vector was one before its components were cut, but for a part in sixty-four hundred. -/
theorem length_of_unit (hhigh : v.sumSq < 2 ^ 63) (hlow : 2 ^ 16 ≤ v.sumSq)
    (h : 49 * 2 ^ 32 ≤ 50 * v.normalize.sumSq ∧ 50 * v.normalize.sumSq ≤ 51 * 2 ^ 32) :
    49 * 2 ^ 64 - 2 ^ 58 ≤ 50 * ((v.root : Int) ^ 2 * v.sumSq) ∧
      50 * ((v.root : Int) ^ 2 * v.sumSq) ≤ 51 * 2 ^ 64 + 2 ^ 58 := by
  have hcut := v.cut_eq
  have hroot := root_sq_le (v := v) (by omega)
  have hlength := cut_length (v := v) (M := 2 ^ 33) hhigh hlow (by decide) (by omega)
  omega

/-! ## The vectors that are normalized -/

/-- Nothing overflows, and the result is a unit vector that points the same way. -/
def Normalizes (v : Vec3Q16) : Prop := v.Fits ∧ v.UnitOf v.normalize

theorem signs_iff (hhigh : v.sumSq < 2 ^ 63) (hlow : 2 ^ 16 ≤ v.sumSq) :
    (v.normalize.x.toInt.sign = v.x.toInt.sign ∧ v.normalize.y.toInt.sign = v.y.toInt.sign ∧
      v.normalize.z.toInt.sign = v.z.toInt.sign) ↔ v.Visible := by
  have hcut := v.cut_eq
  have hpos : 0 < v.cut := by omega
  have hroot : (0 : Int) < v.root := by
    have hdiv : 1 ≤ 2 ^ 48 / v.cut := (Nat.le_div_iff_mul_le hpos).mpr (by omega)
    have hone : 1 ≤ v.root := Nat.le_sqrt.mpr hdiv
    omega
  obtain ⟨hx, hy, hz⟩ := normalize_eq hhigh hlow
  have hcomp (c : Int) : (c * v.root / 2 ^ 16).sign = c.sign ↔ Shows v.cut c := by
    rw [sign_floor hroot (by decide), shows_iff hpos]
    rfl
  rw [hx, hy, hz, hcomp, hcomp, hcomp]
  exact ⟨fun ⟨h1, h2, h3⟩ => ⟨h1, h2, h3⟩, fun ⟨h1, h2, h3⟩ => ⟨h1, h2, h3⟩⟩

end Vec3Q16

open Vec3Q16 in
/-- A vector of 0.028 to 662 units is normalized unless a component of it is too small to show. A
vector that is normalized has a squared length that fits and is not cut to zero, its reciprocal root
is as precise as that needs, and its components show. -/
theorem normalize_unit (v : Vec3Q16) :
    (51 ≤ v.cut → 99 ^ 2 * v.cut ≤ 2 ^ 48 → v.Visible → v.Normalizes) ∧
      (v ≠ ⟨0, 0, 0⟩ → v.Normalizes → 2 ^ 16 ≤ v.sumSq ∧ v.sumSq < 2 ^ 63 ∧ v.Visible ∧
        49 * 2 ^ 64 - 2 ^ 58 ≤ 50 * ((v.root : Int) ^ 2 * v.sumSq) ∧
          50 * ((v.root : Int) ^ 2 * v.sumSq) ≤ 51 * 2 ^ 64 + 2 ^ 58) := by
  constructor
  · intro hlow hhigh hvisible
    have hcut := v.cut_eq
    have hsmall : v.sumSq < 2 ^ 63 := by omega
    obtain ⟨hx, hy, hz⟩ := (signs_iff hsmall (by omega)).mpr hvisible
    exact ⟨v.fits_iff.mpr hsmall, unit_length hlow hhigh, hx, hy, hz⟩
  · intro _ h
    obtain ⟨hfits, hunit⟩ := h
    have hsmall := v.fits_iff.mp hfits
    have hlarge : 2 ^ 16 ≤ v.sumSq := by
      by_contra hshort
      have hsame := normalize_short (not_le.mp hshort)
      have hlength := hunit.length
      rw [hsame] at hlength
      omega
    exact ⟨hlarge, hsmall, (signs_iff hsmall hlarge).mp ⟨hunit.x, hunit.y, hunit.z⟩,
      length_of_unit hsmall hlarge hunit.length⟩

/-- The vector `(1, 2, -2)` of three units. -/
theorem normalize_three_units : (Vec3Q16.mk 0x10000 0x20000 0xFFFE0000).Normalizes :=
  (normalize_unit (Vec3Q16.mk 0x10000 0x20000 0xFFFE0000)).1 (by decide) (by decide)
    ⟨fun _ => by decide, fun _ => by decide, fun _ => by decide⟩

/-- The result for 20000 units along the first axis is shorter than 0.92. -/
theorem normalize_long_short : (Vec3Q16.mk 0x4E200000 0 0).normalize = ⟨0xEA60, 0, 0⟩ ∧
    ¬(Vec3Q16.mk 0x4E200000 0 0).Normalizes := by
  have hvalue : (Vec3Q16.mk 0x4E200000 0 0).normalize = ⟨0xEA60, 0, 0⟩ := by decide +kernel
  refine ⟨hvalue, fun h => ?_⟩
  have hlength := h.2.length.1
  rw [hvalue] at hlength
  revert hlength
  decide

end Microgarbage.Math
