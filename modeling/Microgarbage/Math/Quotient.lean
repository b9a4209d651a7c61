import Microgarbage.Lib.Reciprocal
import Microgarbage.Math.FastDiv

/-!
# Unsigned quotients

What a preparation promises of its divisor, that the promise makes every quotient exact, and that
both preparations keep it.
-/

namespace Microgarbage.Math

open Lib BitVec

/-- A preparation serves the divisions by `d`. -/
def Serves {w : Nat} (r : Divisor w) (d : Nat) : Prop :=
  (r.flags &&& fdivFlagPow2 ≠ 0 ∧ d = 2 ^ r.shift.toNat) ∨
    (r.flags &&& fdivFlagPow2 = 0 ∧ r.flags &&& fdivFlagAdd ≠ 0 ∧
      ∃ k, k < w ∧ r.shift.toNat = k + 1 ∧ 2 ^ k < d ∧ d < 2 ^ (k + 1) ∧
        2 ^ w + r.magic.toNat = 2 ^ (w + (k + 1)) / d + 1)

/-- The high word of the product. -/
def HighHalf {w : Nat} (mulhi : BitVec w → BitVec w → BitVec w) : Prop :=
  ∀ a b, (mulhi a b).toNat = a.toNat * b.toNat / 2 ^ w

section Divide

variable {w : Nat} {mulhi : BitVec w → BitVec w → BitVec w} {n : BitVec w} {r : Divisor w} {d : Nat}

theorem fdivMagnitude_eq (hmul : HighHalf mulhi) (h : Serves r d) :
    (fdivMagnitude mulhi n r).toNat = n.toNat / d := by
  unfold fdivMagnitude
  rcases h with ⟨hflag, hd⟩ | ⟨hpow, hadd, k, hk, hshift, hlo, hhi, hmagic⟩
  · rw [if_pos hflag, toNat_ushiftRight, Nat.shiftRight_eq_div_pow, hd]
  · rw [if_neg (not_not.mpr hpow)]
    dsimp only
    rw [if_pos hadd, hshift]
    have ht : (mulhi n r.magic).toNat ≤ n.toNat := by
      rw [hmul]
      refine Nat.div_le_of_le_mul ?_
      rw [Nat.mul_comm (2 ^ w)]
      exact Nat.mul_le_mul_left _ r.magic.isLt.le
    have hn := n.isLt
    have hdiff : (n - mulhi n r.magic).toNat = n.toNat - (mulhi n r.magic).toNat :=
      toNat_sub_of_le (le_def.mpr ht)
    have hsum : (((n - mulhi n r.magic) >>> 1) + mulhi n r.magic).toNat =
        (n.toNat - (mulhi n r.magic).toNat) / 2 + (mulhi n r.magic).toNat := by
      rw [toNat_add, toNat_ushiftRight, Nat.shiftRight_eq_div_pow, hdiff, Nat.pow_one,
        Nat.mod_eq_of_lt (by omega)]
    rw [toNat_ushiftRight, Nat.shiftRight_eq_div_pow, hsum, hmul, Nat.add_sub_cancel]
    refine extra_bit_quotient (Nat.lt_of_le_of_lt (Nat.zero_le _) hlo) hhi.le hn hmagic ?_
    rw [← hmul]
    exact ht

theorem toNat_sub_quotient {q d n : BitVec w} (hq : q.toNat = n.toNat / d.toNat) :
    (n - q * d).toNat = n.toNat % d.toNat := by
  have hn := n.isLt
  have hle : n.toNat / d.toNat * d.toNat ≤ n.toNat := Nat.div_mul_le_self ..
  have hprod : (q * d).toNat = n.toNat / d.toNat * d.toNat := by
    rw [toNat_mul, hq, Nat.mod_eq_of_lt (Nat.lt_of_le_of_lt hle hn)]
  have hdiv := Nat.div_add_mod n.toNat d.toNat
  rw [toNat_sub_of_le (le_def.mpr (hprod ▸ hle)), hprod, Nat.mul_comm]
  omega

end Divide

/-! ## The high halves -/

theorem mulhiU32_eq : HighHalf mulhiU32 := by
  intro a b
  have hprod : a.toNat * b.toNat < 2 ^ 64 :=
    Nat.lt_of_lt_of_eq (Nat.mul_lt_mul'' a.isLt b.isLt) (by decide)
  have ha := a.isLt
  have hb := b.isLt
  unfold mulhiU32
  rw [toNat_setWidth, toNat_ushiftRight, Nat.shiftRight_eq_div_pow, toNat_mul,
    toNat_setWidth, toNat_setWidth, Nat.mod_eq_of_lt (Nat.lt_trans ha (by decide)),
    Nat.mod_eq_of_lt (Nat.lt_trans hb (by decide)), Nat.mod_eq_of_lt (a := a.toNat * b.toNat) hprod]
  exact Nat.mod_eq_of_lt (Nat.div_lt_of_lt_mul (Nat.lt_of_lt_of_eq hprod (by decide)))

theorem mulhiU64_eq : HighHalf mulhiU64 := by
  intro a b
  have ha := a.isLt
  have hb := b.isLt
  have hlo (x : BitVec 64) : (x &&& 0xFFFFFFFF).toNat = x.toNat % 2 ^ 32 :=
    toNat_mask (c := 0x100000000) rfl x
  have hhi (x : BitVec 64) : (x >>> 32).toNat = x.toNat / 2 ^ 32 := by
    rw [toNat_ushiftRight, Nat.shiftRight_eq_div_pow]
  -- a product of halves fits
  have hfit {x y : Nat} (hx : x < 2 ^ 32) (hy : y < 2 ^ 32) : x * y < 2 ^ 64 :=
    Nat.lt_of_lt_of_eq (Nat.mul_lt_mul'' hx hy) (by decide)
  have haLo : a.toNat % 2 ^ 32 < 2 ^ 32 := Nat.mod_lt _ (by decide)
  have hbLo : b.toNat % 2 ^ 32 < 2 ^ 32 := Nat.mod_lt _ (by decide)
  have haHi : a.toNat / 2 ^ 32 < 2 ^ 32 := Nat.div_lt_of_lt_mul ha
  have hbHi : b.toNat / 2 ^ 32 < 2 ^ 32 := Nat.div_lt_of_lt_mul hb
  have hhigh := high_half a.toNat b.toNat (2 ^ 32) (by decide)
  have hbound : a.toNat * b.toNat / (2 ^ 32 * 2 ^ 32) < 2 ^ 64 :=
    Nat.div_lt_of_lt_mul (Nat.mul_lt_mul'' ha hb)
  unfold mulhiU64
  dsimp only
  rw [show (2 : Nat) ^ 64 = 2 ^ 32 * 2 ^ 32 from rfl, hhigh]
  rw [hhigh] at hbound
  simp only [toNat_add, toNat_mul, hlo, hhi, Nat.mod_eq_of_lt (hfit haLo hbLo),
    Nat.mod_eq_of_lt (hfit haHi hbLo), Nat.mod_eq_of_lt (hfit haLo hbHi),
    Nat.mod_eq_of_lt (hfit haHi hbHi)]
  have hmid1 := Nat.mod_lt (a.toNat / 2 ^ 32 * (b.toNat % 2 ^ 32)) (y := 2 ^ 32) (by decide)
  have hmid2 := Nat.mod_lt (a.toNat % 2 ^ 32 * (b.toNat / 2 ^ 32)) (y := 2 ^ 32) (by decide)
  have hmid3 : a.toNat % 2 ^ 32 * (b.toNat % 2 ^ 32) / 2 ^ 32 < 2 ^ 32 :=
    Nat.div_lt_of_lt_mul (Nat.lt_of_lt_of_eq (hfit haLo hbLo) (by decide))
  omega

/-! ## The preparations -/

section Prepare

variable {w : Nat} {d : BitVec w}

theorem ne_two_pow (hc : d &&& (d - 1) ≠ 0) (j : Nat) : d.toNat ≠ 2 ^ j := by
  intro hj
  refine hc (eq_of_toNat_eq ?_)
  rw [toNat_mask hj, hj, Nat.mod_self]
  exact (toNat_zero ..).symm

theorem pred_ne_zero (hc : d &&& (d - 1) ≠ 0) : d - 1 ≠ 0 := fun h =>
  hc (by rw [h]; exact and_zero)

theorem LeadingZeros.of_two_pow {x c k : Nat} (h : LeadingZeros w x c) (hx : x = 2 ^ k) :
    k = w - 1 - c := by
  obtain ⟨hc, hlo, hhi⟩ := h
  rw [hx] at hlo hhi
  have h1 := (Nat.pow_le_pow_iff_right Nat.one_lt_two).mp hlo
  have h2 := (Nat.pow_lt_pow_iff_right Nat.one_lt_two).mp hhi
  omega

theorem LeadingZeros.of_pred {x c : Nat} (h : LeadingZeros w (x - 1) c) (hx : x ≠ 0)
    (hpow : ∀ j, x ≠ 2 ^ j) :
    2 ^ (w - 1 - c) < x ∧ x < 2 ^ (w - 1 - c + 1) := by
  obtain ⟨hc, hlo, hhi⟩ := h
  have hk : w - 1 - c + 1 = w - c := by omega
  have hne := hpow (w - c)
  rw [hk]
  omega

theorem toNat_pred_word (hw : 0 < w) (hd : d ≠ 0) :
    (d - 1).toNat = d.toNat - 1 := by
  have hone : (1 : BitVec w).toNat = 1 := Nat.mod_eq_of_lt (Nat.one_lt_two_pow hw.ne')
  have hpos : 1 ≤ d.toNat := Nat.one_le_iff_ne_zero.mpr fun h => hd (eq_of_toNat_eq h)
  rw [toNat_sub_of_le (le_def.mpr (hone ▸ hpos)), hone]

theorem LeadingZeros.shift {c t : BitVec 8} {k : Nat} (h : LeadingZeros w d.toNat c.toNat)
    (ht : t.toNat = w - 1) (hk : d.toNat = 2 ^ k) : (t - c).toNat = k := by
  have hle : c.toNat ≤ t.toNat := by
    rw [ht]
    exact Nat.le_pred_of_lt h.1
  rw [h.of_two_pow hk, toNat_sub_of_le (le_def.mpr hle), ht]

/-- The number of bits of the divisor less one, for a divisor that is no power of two. -/
theorem LeadingZeros.bits {c t : BitVec 8} (h : LeadingZeros w (d - 1).toNat c.toNat)
    (hd : d ≠ 0) (hc : d &&& (d - 1) ≠ 0) (ht : t.toNat = w) :
    ∃ k < w, (t - c).toNat = k + 1 ∧ 2 ^ k < d.toNat ∧ d.toNat < 2 ^ (k + 1) := by
  have hlt := h.1
  rw [toNat_pred_word (by omega) hd] at h
  obtain ⟨hlo, hhi⟩ := h.of_pred (fun h => hd (eq_of_toNat_eq h)) (ne_two_pow hc)
  refine ⟨w - 1 - c.toNat, by omega, ?_, hlo, hhi⟩
  rw [toNat_sub_of_le (le_def.mpr (by omega)), ht]
  omega

end Prepare

theorem fdivU32Prepare_d (d : BitVec 32) : (fdivU32Prepare d).d = d := by
  unfold fdivU32Prepare
  dsimp only
  split
  · rfl
  split
  · split <;> rfl
  · rfl

theorem serves_reciprocal {w k : Nat} {r : Divisor w} {d : Nat} (hflags : r.flags = fdivFlagAdd)
    (hk : k < w) (hshift : r.shift.toNat = k + 1) (hlo : 2 ^ k < d) (hhi : d < 2 ^ (k + 1))
    (hmagic : r.magic.toNat = 2 ^ (w + (k + 1)) / d + 1 - 2 ^ w) : Serves r d := by
  obtain ⟨hle, -⟩ := reciprocal_bounds hlo hhi hk
  refine .inr ⟨by rw [hflags]; decide, by rw [hflags]; decide, k, hk, hshift, hlo, hhi, ?_⟩
  omega

theorem fdivU32Prepare_serves {d : BitVec 32} (hd : d ≠ 0) :
    Serves (fdivU32Prepare d) d.toNat := by
  have hpos : d.toNat ≠ 0 := fun h => hd (eq_of_toNat_eq h)
  unfold fdivU32Prepare
  dsimp only
  split
  · next hc =>
    obtain ⟨k, hk⟩ := exists_two_pow hd hc
    have hshift := (toNat_bitsClz32 hd).shift (t := 31) rfl hk
    exact .inl ⟨show fdivFlagPow2 &&& fdivFlagPow2 ≠ 0 by decide, by rw [hshift, hk]⟩
  next hc =>
  have hpow := ne_two_pow hc
  obtain ⟨k, hkw, hLk, hlo, hhi⟩ :=
    (toNat_bitsClz32 (pred_ne_zero hc)).bits (t := 32) hd hc rfl
  obtain ⟨hword, hextra⟩ := reciprocal_bounds hlo hhi hkw
  have hdw : (d.setWidth 64).toNat = d.toNat := by
    rw [toNat_setWidth]
    omega
  have hceil := ceil_div (Nat.pos_of_ne_zero hpos) (not_dvd_two_pow (k := 32 + (k + 1)) hpow)
  generalize 32 - bitsClz32 (d - 1) = L at hLk ⊢
  split
  · next hL32 =>
    have hL32 : k + 1 < 32 := hLk ▸ lt_def.mp hL32
    have hle : 2 ^ (32 + (k + 1)) ≤ 2 ^ 63 :=
      Nat.pow_le_pow_right (by decide) (by omega)
    have hnum : ((1 : BitVec 64) <<< (32 + L.toNat)).toNat = 2 ^ (32 + (k + 1)) := by
      rw [hLk, toNat_shiftLeft, Nat.shiftLeft_eq]
      exact (congrArg (· % 2 ^ 64) (Nat.one_mul _)).trans
        (Nat.mod_eq_of_lt (Nat.lt_of_le_of_lt hle (by decide)))
    have hm : (((1 : BitVec 64) <<< (32 + L.toNat) + d.setWidth 64 - 1) / d.setWidth 64).toNat =
        2 ^ (32 + (k + 1)) / d.toNat + 1 := by
      rw [← hceil, toNat_udiv, hdw, ← hnum]
      congr 1
      rw [← hnum] at hle
      bv_omega
    generalize ((1 : BitVec 64) <<< (32 + L.toNat) + d.setWidth 64 - 1) / d.setWidth 64 = m at hm ⊢
    have hbig : ¬m < (1 : BitVec 64) <<< 32 := by
      rw [lt_def, hm]
      exact Nat.not_lt.mpr (Nat.le_succ_of_le hword)
    rw [if_neg hbig]
    refine serves_reciprocal (k := k) (zero_or ..) hkw hLk hlo hhi ?_
    have hmsub : (m - (1 : BitVec 64) <<< 32).toNat = m.toNat - 2 ^ 32 :=
      toNat_sub_of_le (le_def.mpr (Nat.le_of_not_lt hbig))
    rw [toNat_setWidth, hmsub, hm]
    omega
  · next hL32 =>
    have hk31 : k = 31 := by
      have h : ¬k + 1 < 32 := fun h => hL32 (lt_def.mpr (hLk ▸ h))
      omega
    subst hk31
    -- the quotient of the numerator less one is the same, as the division is not exact
    have hq : ((~~~0 : BitVec 64) / d.setWidth 64 + 1).toNat = 2 ^ (32 + (31 + 1)) / d.toNat + 1 := by
      have hdiv : ((~~~0 : BitVec 64) / d.setWidth 64).toNat = 2 ^ (32 + (31 + 1)) / d.toNat := by
        rw [toNat_udiv, hdw]
        exact (Nat.succ_div_of_not_dvd (a := 2 ^ 64 - 1) (not_dvd_two_pow (k := 64) hpow)).symm
      rw [toNat_add, hdiv]
      exact Nat.mod_eq_of_lt (Nat.lt_trans hextra (by decide))
    rw [ite_self]
    generalize (~~~0 : BitVec 64) / d.setWidth 64 + 1 = m at hq ⊢
    refine serves_reciprocal (zero_or ..) hkw rfl hlo hhi ?_
    have hmsub : (m - (1 : BitVec 64) <<< 32).toNat = m.toNat - 2 ^ 32 :=
      toNat_sub_of_le (le_def.mpr (hq ▸ Nat.le_succ_of_le hword))
    rw [toNat_setWidth, hmsub, hq]
    omega

/-! ## The long division -/

/-- The quotient and the remainder of the first digits of `2 ^ top`, those from `bit` on. -/
structure DividedDown (d : BitVec 64) (top bit : Nat) (s : LongDivision) : Prop where
  quot : s.qHi.toNat * 2 ^ 64 + s.qLo.toNat = 2 ^ top / 2 ^ bit / d.toNat
  rem : s.rem.toNat = 2 ^ top / 2 ^ bit % d.toNat

theorem div_digit {x b d : Nat} (hd : 0 < d) (hb : b < 2) :
    (2 * x + b) / d = 2 * (x / d) + (if d ≤ 2 * (x % d) + b then 1 else 0) ∧
      (2 * x + b) % d =
        if d ≤ 2 * (x % d) + b then 2 * (x % d) + b - d else 2 * (x % d) + b := by
  have hdiv := Nat.div_add_mod x d
  have hlt := Nat.mod_lt x hd
  have hx : 2 * x + b = 2 * (x % d) + b + d * (2 * (x / d)) := by
    rw [Nat.mul_left_comm]
    omega
  rw [hx, Nat.add_mul_div_left _ _ hd, Nat.add_mul_mod_self_left]
  split
  · next hle =>
    have hsub : 2 * (x % d) + b = 2 * (x % d) + b - d + d := by omega
    have hsmall : 2 * (x % d) + b - d < d := by omega
    rw [hsub, Nat.add_div_right _ hd, Nat.add_mod_right, Nat.div_eq_of_lt hsmall,
      Nat.mod_eq_of_lt hsmall, ← hsub]
    exact ⟨by omega, rfl⟩
  · next hle =>
    have hsmall : 2 * (x % d) + b < d := by omega
    rw [Nat.div_eq_of_lt hsmall, Nat.mod_eq_of_lt hsmall]
    exact ⟨by omega, rfl⟩

theorem two_pow_digit (top bit : Nat) :
    2 ^ top / 2 ^ bit = 2 * (2 ^ top / 2 ^ (bit + 1)) + (if bit = top then 1 else 0) := by
  rcases Nat.lt_trichotomy bit top with h | rfl | h
  · rw [if_neg h.ne, Nat.pow_div h.le (by decide), Nat.pow_div h (by decide), ← Nat.pow_succ']
    congr 1
    omega
  · rw [if_pos rfl, Nat.div_self (Nat.two_pow_pos _),
      Nat.div_eq_of_lt (Nat.pow_lt_pow_right (by decide) (Nat.lt_succ_self _))]
  · rw [if_neg h.ne', Nat.div_eq_of_lt (Nat.pow_lt_pow_right (by decide) h),
      Nat.div_eq_of_lt (Nat.pow_lt_pow_right (by decide) (Nat.lt_succ_of_lt h))]

theorem toNat_shift_in {x b : BitVec 64} (hb : b = 0 ∨ b = 1) :
    ((x <<< 1) ||| b).toNat = (2 * x.toNat) % 2 ^ 64 + b.toNat := by
  have hand : (x <<< 1) &&& b = 0 := by
    rcases hb with rfl | rfl
    · exact and_zero
    · ext i hi
      cases i <;> simp
  rw [← add_eq_or_of_and_eq_zero _ _ hand, toNat_add_of_and_eq_zero hand,
    toNat_shiftLeft, Nat.shiftLeft_eq, Nat.pow_one, Nat.mul_comm]

theorem toNat_top_bit (x : BitVec 64) : (x >>> 63).toNat = 2 * x.toNat / 2 ^ 64 := by
  have := x.isLt
  rw [toNat_ushiftRight, Nat.shiftRight_eq_div_pow]
  omega

theorem double_word {hi lo g : Nat} (hlo : lo < 2 ^ 64) (h : 2 * (hi * 2 ^ 64 + lo) + g < 2 ^ 128) :
    (2 * hi % 2 ^ 64 + 2 * lo / 2 ^ 64) * 2 ^ 64 + (2 * lo % 2 ^ 64 + g) =
      2 * (hi * 2 ^ 64 + lo) + g := by
  have hhi : 2 * hi < 2 ^ 64 := by omega
  rw [Nat.mod_eq_of_lt hhi]
  omega

theorem top_bit_cases (x : BitVec 64) : x >>> 63 = 0 ∨ x >>> 63 = 1 := by
  have h := toNat_top_bit x
  have hlt := x.isLt
  rcases (by omega : 2 * x.toNat / 2 ^ 64 = 0 ∨ 2 * x.toNat / 2 ^ 64 = 1) with h' | h'
  · exact .inl (eq_of_toNat_eq (h.trans h'))
  · exact .inr (eq_of_toNat_eq (h.trans h'))

theorem carry_iff (x : BitVec 64) : (x >>> 63) &&& 1 ≠ 0 ↔ 2 ^ 64 ≤ 2 * x.toNat := by
  have h := toNat_top_bit x
  rcases top_bit_cases x with h' | h'
  · rw [h'] at h ⊢
    have h0 : (0 : BitVec 64).toNat = 0 := rfl
    exact ⟨fun hne => absurd (by decide) hne, fun hle => by omega⟩
  · rw [h'] at h ⊢
    have h1 : (1 : BitVec 64).toNat = 1 := rfl
    exact ⟨fun _ => by omega, fun _ => by decide⟩

theorem carry_word {hi n : Nat} (hn : 0 < n) : (hi + 1) * n + 0 = hi * n + (n - 1) + 1 := by
  rw [Nat.add_one_mul]
  omega

theorem toNat_succ {x : BitVec 64} (h : x.toNat + 1 < 2 ^ 64) : (x + 1).toNat = x.toNat + 1 := by
  rw [toNat_add]
  exact Nat.mod_eq_of_lt h

theorem exists_digit (p : Prop) [Decidable p] :
    ∃ b : BitVec 64, (if p then 1 else 0) = b ∧ (b = 0 ∨ b = 1) ∧ b.toNat = if p then 1 else 0 := by
  by_cases hp : p
  · exact ⟨1, if_pos hp, .inr rfl, (if_pos hp).symm⟩
  · exact ⟨0, if_neg hp, .inl rfl, (if_neg hp).symm⟩

section Digit

variable {d : BitVec 64} {top bit : Nat} {s : LongDivision} (hd : d ≠ 0)
  (hfit : 2 ^ top / d.toNat < 2 ^ 128)

include hd hfit in
theorem DividedDown.step (h : DividedDown d top (bit + 1) s) :
    DividedDown d top bit (longDivisionBit d top bit s) := by
  obtain ⟨hquot, hrem⟩ := h
  have hpos : 0 < d.toNat := Nat.pos_of_ne_zero fun h => hd (eq_of_toNat_eq h)
  have hdlt := d.isLt
  -- the digit
  obtain ⟨b, hb, hb01, hbnat⟩ := exists_digit (bit = top)
  have hb2 : b.toNat < 2 := by
    rw [hbnat]
    split <;> omega
  have hdigit := two_pow_digit top bit
  rw [← hbnat] at hdigit
  obtain ⟨hq, hr⟩ := div_digit (x := 2 ^ top / 2 ^ (bit + 1)) hpos hb2
  rw [← hdigit, ← hrem] at hq hr
  rw [← hquot] at hq
  have hRlt : s.rem.toNat < d.toNat := hrem ▸ Nat.mod_lt _ hpos
  have hshift := toNat_shift_in (x := s.rem) hb01
  -- the comparison, made in one bit more than the word
  have hge : ((s.rem >>> 63) &&& 1 ≠ 0 ∨ d ≤ (s.rem <<< 1 ||| b)) ↔
      d.toNat ≤ 2 * s.rem.toNat + b.toNat := by
    rw [carry_iff, le_def, hshift]
    constructor
    · rintro (hc | hc) <;> omega
    · intro hc
      by_cases hbig : 2 ^ 64 ≤ 2 * s.rem.toNat
      · exact .inl hbig
      · exact .inr (by omega)
  have hbound : 2 ^ top / 2 ^ bit / d.toNat < 2 ^ 128 :=
    Nat.lt_of_le_of_lt (Nat.div_le_div_right (Nat.div_le_self ..)) hfit
  unfold longDivisionBit
  dsimp only
  rw [hb]
  simp only [hge]
  refine ⟨?_, ?_⟩
  · obtain ⟨g, hg, hg01, hgnat⟩ := exists_digit (d.toNat ≤ 2 * s.rem.toNat + b.toNat)
    rw [hq, ← hgnat] at hbound ⊢
    rw [hg, toNat_shift_in (top_bit_cases _), toNat_shift_in hg01, toNat_top_bit]
    exact double_word s.qLo.isLt hbound
  · rw [hr]
    dsimp only
    split
    · next hle =>
      rw [toNat_sub, hshift]
      omega
    · next hle =>
      rw [hshift]
      omega

include hd hfit in
theorem longDivision_spec : ∀ bit s, DividedDown d top bit s →
    DividedDown d top 0 (longDivision d top bit s)
  | 0, _, h => h
  | bit + 1, _, h => longDivision_spec bit _ (h.step hd hfit)

end Digit

theorem fdivU64Prepare_d (d : BitVec 64) : (fdivU64Prepare d).d = d := by
  unfold fdivU64Prepare
  dsimp only
  split
  · rfl
  · split <;> split <;> rfl

theorem fdivU64Prepare_serves {d : BitVec 64} (hd : d ≠ 0) :
    Serves (fdivU64Prepare d) d.toNat := by
  have hpos : d.toNat ≠ 0 := fun h => hd (eq_of_toNat_eq h)
  unfold fdivU64Prepare
  dsimp only
  split
  · next hc =>
    obtain ⟨k, hk⟩ := exists_two_pow hd hc
    have hshift := (toNat_bitsClz64 hd).shift (t := 63) rfl hk
    exact .inl ⟨show fdivFlagPow2 &&& fdivFlagPow2 ≠ 0 by decide, by rw [hshift, hk]⟩
  next hc =>
  have hpow := ne_two_pow hc
  obtain ⟨k, hkw, hLk, hlo, hhi⟩ :=
    (toNat_bitsClz64 (pred_ne_zero hc)).bits (t := 64) hd hc rfl
  obtain ⟨hword, hextra⟩ := reciprocal_bounds hlo hhi hkw
  generalize 64 - bitsClz64 (d - 1) = L at hLk ⊢
  rw [hLk]
  have hfit : 2 ^ (64 + (k + 1)) / d.toNat < 2 ^ 128 := by omega
  have hstart : DividedDown d (64 + (k + 1)) (64 + (k + 1) + 1) ⟨0, 0, 0⟩ := by
    have h0 : 2 ^ (64 + (k + 1)) / 2 ^ (64 + (k + 1) + 1) = 0 :=
      Nat.div_eq_of_lt (Nat.pow_lt_pow_right (by decide) (Nat.lt_succ_self _))
    exact ⟨by rw [h0, Nat.zero_div]; rfl, by rw [h0, Nat.zero_mod]; rfl⟩
  obtain ⟨hquot, -⟩ := longDivision_spec hd hfit _ _ hstart
  rw [Nat.pow_zero, Nat.div_one] at hquot
  generalize longDivision d (64 + (k + 1)) (64 + (k + 1) + 1) ⟨0, 0, 0⟩ = q at hquot ⊢
  have hqLo := q.qLo.isLt
  have hsum : ∀ q' : LongDivision, q'.qHi.toNat * 2 ^ 64 + q'.qLo.toNat =
      2 ^ (64 + (k + 1)) / d.toNat + 1 → Serves
        (if q'.qHi = 0 then { d := d, magic := q'.qLo, shift := L, flags := 0 }
          else { d := d, magic := q'.qLo, shift := L, flags := 0 ||| fdivFlagAdd } : Divisor 64)
        d.toNat := by
    intro q' hq'
    have hlt := q'.qLo.isLt
    have hne : q'.qHi.toNat ≠ 0 := fun h => by omega
    have hone : q'.qHi.toNat = 1 := by omega
    rw [if_neg fun h => hne (congrArg BitVec.toNat h)]
    refine serves_reciprocal (zero_or ..) hkw hLk hlo hhi ?_
    dsimp only
    omega
  split
  · next hfull =>
    have hmax : q.qLo.toNat = 2 ^ 64 - 1 := congrArg BitVec.toNat hfull
    refine hsum { q with qLo := 0, qHi := q.qHi + 1 } ?_
    have hfew : q.qHi.toNat < 2 := by omega
    have hhi' : (q.qHi + 1).toNat = q.qHi.toNat + 1 :=
      toNat_succ (Nat.lt_of_lt_of_le (Nat.succ_lt_succ hfew) (by decide))
    have hzero : (0 : BitVec 64).toNat = 0 := rfl
    rw [hmax] at hquot
    rw [← hquot, hhi', hzero]
    exact carry_word (by decide)
  · next hfull =>
    have hmax : q.qLo.toNat ≠ 2 ^ 64 - 1 := fun h => hfull (eq_of_toNat_eq h)
    refine hsum { q with qLo := q.qLo + 1 } ?_
    have hlo' : (q.qLo + 1).toNat = q.qLo.toNat + 1 := toNat_succ (by omega)
    rw [← hquot, hlo', Nat.add_assoc]

/-! ## Every quotient -/

/-- A preparation is right for the dividends of its word, together with the divisions by it. -/
def DividesExactly {w : Nat} (prepare : BitVec w → Divisor w)
    (div : BitVec w → Divisor w → BitVec w) (divQr : BitVec w → Divisor w → QuotRem w) : Prop :=
  ∀ d n : BitVec w, d ≠ 0 →
    (div n (prepare d)).toNat = n.toNat / d.toNat ∧
      (divQr n (prepare d)).quot.toNat = n.toNat / d.toNat ∧
      (divQr n (prepare d)).rem.toNat = n.toNat % d.toNat

/-- Division through a prepared reciprocal is exact, in both widths. -/
theorem fdivU_exact :
    DividesExactly fdivU32Prepare fdivU32 fdivU32Qr ∧
      DividesExactly fdivU64Prepare fdivU64 fdivU64Qr := by
  constructor
  · intro d n hd
    have hq := fdivMagnitude_eq (n := n) mulhiU32_eq (fdivU32Prepare_serves hd)
    refine ⟨hq, hq, ?_⟩
    unfold fdivU32Qr
    rw [fdivU32Prepare_d]
    exact toNat_sub_quotient hq
  · intro d n hd
    have hq := fdivMagnitude_eq (n := n) mulhiU64_eq (fdivU64Prepare_serves hd)
    refine ⟨hq, hq, ?_⟩
    unfold fdivU64Qr
    rw [fdivU64Prepare_d]
    exact toNat_sub_quotient hq

/-- The largest dividend by a divisor with a reciprocal of one bit more, and by one above half the
range. -/
theorem fdivU_exact_seven :
    (fdivU32 0xFFFFFFFF (fdivU32Prepare 7)).toNat = 0xFFFFFFFF / 7 ∧
      (fdivU64Qr 0xFFFFFFFFFFFFFFFF (fdivU64Prepare 0x8000000000000001)).rem.toNat =
        0xFFFFFFFFFFFFFFFF % 0x8000000000000001 :=
  ⟨(fdivU_exact.1 7 0xFFFFFFFF (by decide)).1,
    (fdivU_exact.2 0x8000000000000001 0xFFFFFFFFFFFFFFFF (by decide)).2.2⟩

end Microgarbage.Math
