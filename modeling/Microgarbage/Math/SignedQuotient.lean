import Microgarbage.Math.Quotient

/-!
# Signed quotients

The magnitudes are divided and the sign is put on afterwards, so the quotient truncates. The
magnitude of the most negative dividend is not a signed number: negating it is undefined, and where
it wraps the quotient is still right unless it is that magnitude itself.
-/

namespace Microgarbage.Math

open Lib

/-! ## Magnitudes -/

theorem tdiv_eq_magnitudes (a b : Int) :
    a.tdiv b = if decide (a < 0) ^^ decide (b < 0) then -((a.natAbs / b.natAbs : Nat) : Int)
      else ((a.natAbs / b.natAbs : Nat) : Int) := by
  rw [Int.ofNat_tdiv]
  rcases lt_or_ge a 0 with ha | ha
  · rcases lt_or_ge b 0 with hb | hb
    · rw [Int.ofNat_natAbs_of_nonpos ha.le, Int.ofNat_natAbs_of_nonpos hb.le, Int.neg_tdiv_neg]
      simp [ha, hb]
    · rw [Int.ofNat_natAbs_of_nonpos ha.le, Int.natAbs_of_nonneg hb, Int.neg_tdiv]
      simp [ha, not_lt.mpr hb]
  · rcases lt_or_ge b 0 with hb | hb
    · rw [Int.natAbs_of_nonneg ha, Int.ofNat_natAbs_of_nonpos hb.le, Int.tdiv_neg]
      simp [hb, not_lt.mpr ha]
    · rw [Int.natAbs_of_nonneg ha, Int.natAbs_of_nonneg hb]
      simp [not_lt.mpr ha, not_lt.mpr hb]

theorem tdiv_mul_between (a b : Int) :
    (0 ≤ a → 0 ≤ a.tdiv b * b ∧ a.tdiv b * b ≤ a) ∧ (a ≤ 0 → a ≤ a.tdiv b * b ∧ a.tdiv b * b ≤ 0) := by
  have hpos : ∀ a : Int, 0 ≤ a → 0 ≤ a.tdiv b * b ∧ a.tdiv b * b ≤ a := by
    intro a ha
    have hsum := Int.tdiv_mul_add_tmod a b
    have hrem := Int.tmod_nonneg b ha
    have hle : a.tmod b ≤ a := by
      rw [← Int.natAbs_of_nonneg hrem, ← Int.natAbs_of_nonneg ha, Int.natAbs_tmod]
      exact Int.ofNat_le.mpr (Nat.mod_le ..)
    omega
  refine ⟨hpos a, fun ha => ?_⟩
  have h := hpos (-a) (by omega)
  rw [Int.neg_tdiv, Int.neg_mul] at h
  omega

section Words

variable {w : Nat} {x : BitVec w}

theorem two_pow_half (hw : 0 < w) : (2 : Nat) ^ w = 2 * 2 ^ (w - 1) := by
  rw [← Nat.pow_succ', Nat.succ_eq_add_one, Nat.sub_add_cancel hw]

theorem slt_zero_eq (x : BitVec w) : x.slt 0 = decide (x.toInt < 0) := by
  have h := BitVec.slt_iff_toInt_lt (x := x) (y := 0#w)
  rw [BitVec.toInt_zero] at h
  exact Bool.eq_iff_iff.mpr (h.trans decide_eq_true_iff.symm)

theorem eq_intMin_iff (hw : 0 < w) : x = BitVec.intMin w ↔ x.toNat = 2 ^ (w - 1) := by
  rw [← BitVec.toNat_inj, BitVec.toNat_intMin_of_pos hw]

theorem toInt_of_magnitude (hw : 0 < w) (h : x.toNat < 2 ^ (w - 1)) : x.toInt = x.toNat :=
  BitVec.toInt_eq_toNat_of_lt (by rw [two_pow_half hw]; omega)

theorem toInt_neg_of_magnitude (hw : 0 < w) (h : x.toNat ≤ 2 ^ (w - 1)) :
    (-x).toInt = -(x.toNat : Int) := by
  have hhalf := two_pow_half hw
  have hpos := Nat.two_pow_pos (w - 1)
  rw [BitVec.toInt_eq_toNat_cond, BitVec.toNat_neg]
  rcases Nat.eq_zero_or_pos x.toNat with h0 | h0
  · rw [h0, Nat.sub_zero, Nat.mod_self, if_pos (by omega)]
    rfl
  · rw [Nat.mod_eq_of_lt (by omega), if_neg (by omega)]
    omega

theorem natAbs_toInt_le (hw : 0 < w) : x.toInt.natAbs ≤ 2 ^ (w - 1) := by
  have hhalf := two_pow_half hw
  have hlt := x.isLt
  rw [BitVec.toInt_eq_toNat_cond]
  split <;> omega

theorem natAbs_toInt_eq (hw : 0 < w) : x.toInt.natAbs = 2 ^ (w - 1) ↔ x = BitVec.intMin w := by
  have hhalf := two_pow_half hw
  have hlt := x.isLt
  rw [eq_intMin_iff hw, BitVec.toInt_eq_toNat_cond]
  split <;> omega

end Words

/-! ## Checked operations -/

namespace SignedOverflow

variable {w : Nat} {o : SignedOverflow} {x v : BitVec w} {b : Bool}

theorem result_eq_some (h : b = false ∨ o = .wraps) : o.result b v = some v := by
  unfold result
  rcases h with rfl | rfl
  · exact if_neg fun h => by cases h.2
  · exact if_neg fun h => by cases h.1

theorem negOverflow_eq (hw : 0 < w) : x.negOverflow = decide (x = BitVec.intMin w) := by
  unfold BitVec.negOverflow
  have h := BitVec.toInt_intMin_of_pos hw
  rw [Bool.eq_iff_iff, beq_iff_eq, decide_eq_true_iff, ← h, BitVec.toInt_inj]

theorem abs_eq (hw : 0 < w) (h : x ≠ BitVec.intMin w ∨ o = .wraps) :
    ∃ m, o.abs x = some m ∧ m.toNat = x.toInt.natAbs := by
  have hhalf := two_pow_half hw
  have hlt := x.isLt
  have hcond := BitVec.toInt_eq_toNat_cond x
  unfold abs
  rw [slt_zero_eq]
  split
  · next hneg =>
    have hneg : x.toInt < 0 := of_decide_eq_true hneg
    refine ⟨-x, result_eq_some ?_, ?_⟩
    · rw [negOverflow_eq hw]
      exact h.imp_left decide_eq_false
    · rw [BitVec.toNat_neg]
      split at hcond
      · omega
      · rw [Nat.mod_eq_of_lt (by omega)]
        omega
  · next hneg =>
    have hneg : ¬x.toInt < 0 := fun h => hneg (decide_eq_true h)
    refine ⟨x, rfl, ?_⟩
    split at hcond <;> omega

theorem abs_intMin (hw : 0 < w) : undefined.abs (BitVec.intMin w) = none := by
  have hneg : (BitVec.intMin w).toInt < 0 := by
    rw [BitVec.toInt_intMin_of_pos hw]
    exact Int.neg_neg_of_pos (Int.pow_pos (by decide))
  unfold abs neg result
  rw [slt_zero_eq, if_pos (decide_eq_true hneg), negOverflow_eq hw,
    if_pos ⟨rfl, decide_eq_true rfl⟩]

end SignedOverflow

/-! ## The division -/

section Divide

variable {w : Nat} {o : SignedOverflow} {prepare : BitVec w → Divisor w}
  {mulhi : BitVec w → BitVec w → BitVec w} {r : Divisor w} {n d : BitVec w}

/-- The flags of a signed preparation. -/
def signedFlags (neg pow2 add : Bool) : BitVec 8 :=
  let flags := if neg then fdivFlagNeg else 0
  let flags := if pow2 then flags ||| fdivFlagPow2 else flags
  if add then flags ||| fdivFlagAdd else flags

theorem signedFlags_spec : ∀ neg pow2 add : Bool,
    decide (signedFlags neg pow2 add &&& fdivFlagPow2 ≠ 0) = pow2 ∧
      decide (signedFlags neg pow2 add &&& fdivFlagAdd ≠ 0) = add ∧
      decide (signedFlags neg pow2 add &&& fdivFlagNeg ≠ 0) = neg := by
  decide

theorem fdivSPrepare_some {m : BitVec w} (h : o.abs d = some m) :
    fdivSPrepare o prepare d = some
      { d := d
        magic := (prepare m).magic
        shift := (prepare m).shift
        flags := signedFlags (d.slt 0) (decide ((prepare m).flags &&& fdivFlagPow2 ≠ 0))
          (decide ((prepare m).flags &&& fdivFlagAdd ≠ 0)) } := by
  unfold fdivSPrepare signedFlags
  rw [h]
  simp only [Option.map_some, decide_eq_true_eq]

theorem fdivSPrepare_eq (hw : 0 < w) (hprep : ∀ d, d ≠ 0 → Serves (prepare d) d.toNat)
    (hd : d ≠ 0) (hmin : d ≠ BitVec.intMin w) :
    ∃ r, fdivSPrepare o prepare d = some r ∧ r.d = d ∧ Serves r d.toInt.natAbs ∧
      decide (r.flags &&& fdivFlagNeg ≠ 0) = d.slt 0 := by
  obtain ⟨m, hm, habs⟩ := SignedOverflow.abs_eq (o := o) hw (.inl hmin)
  have hm0 : m ≠ 0 := by
    intro h0
    rw [h0, show ((0 : BitVec w)).toNat = 0 from BitVec.toNat_zero ..] at habs
    exact hd (BitVec.toInt_inj.mp ((Int.natAbs_eq_zero.mp habs.symm).trans BitVec.toInt_zero.symm))
  obtain ⟨hpow, hadd, hneg⟩ := signedFlags_spec (d.slt 0)
    (decide ((prepare m).flags &&& fdivFlagPow2 ≠ 0))
    (decide ((prepare m).flags &&& fdivFlagAdd ≠ 0))
  rw [decide_eq_decide] at hpow hadd
  refine ⟨_, fdivSPrepare_some hm, rfl, ?_, hneg⟩
  rw [← habs]
  rcases hprep m hm0 with ⟨h1, h2⟩ | ⟨h1, h2, h3⟩
  · exact .inl ⟨hpow.mpr h1, h2⟩
  · exact .inr ⟨not_not.mp fun h => hpow.mp h h1, hadd.mpr h2, h3⟩

theorem fdivS_eq (hw : 0 < w) (hmul : HighHalf mulhi) (hserves : Serves r d.toInt.natAbs)
    (hneg : decide (r.flags &&& fdivFlagNeg ≠ 0) = d.slt 0)
    (hn : n ≠ BitVec.intMin w ∨ o = .wraps) :
    ∃ q : BitVec w, q.toNat = n.toInt.natAbs / d.toInt.natAbs ∧
      fdivS o mulhi n r =
        some (if decide (n.toInt < 0) ^^ decide (d.toInt < 0) then -q else q) := by
  obtain ⟨m, hm, habs⟩ := SignedOverflow.abs_eq (o := o) hw hn
  have hq : (fdivMagnitude mulhi m r).toNat = n.toInt.natAbs / d.toInt.natAbs := by
    rw [fdivMagnitude_eq hmul hserves, habs]
  refine ⟨_, hq, ?_⟩
  unfold fdivS
  rw [hm, Option.bind_some, hneg, slt_zero_eq, slt_zero_eq]
  split
  · next hsign =>
    rw [if_pos hsign]
    refine SignedOverflow.result_eq_some (hn.imp_left fun hne => ?_)
    rw [SignedOverflow.negOverflow_eq hw, decide_eq_false_iff_not, eq_intMin_iff hw, hq]
    have hlt := lt_of_le_of_ne (natAbs_toInt_le hw) fun h => hne ((natAbs_toInt_eq hw).mp h)
    exact (Nat.lt_of_le_of_lt (Nat.div_le_self ..) hlt).ne
  · next hsign => rw [if_neg hsign]

/-- The signed quotient, unless it is the one that the type does not hold. -/
theorem toInt_signed_quotient (hw : 0 < w) {q : BitVec w}
    (hq : q.toNat = n.toInt.natAbs / d.toInt.natAbs)
    (hfit : ¬(n = BitVec.intMin w ∧ d.toInt = -1)) :
    (if decide (n.toInt < 0) ^^ decide (d.toInt < 0) then -q else q).toInt =
      n.toInt.tdiv d.toInt := by
  have hle : q.toNat ≤ 2 ^ (w - 1) := hq ▸ Nat.le_trans (Nat.div_le_self ..) (natAbs_toInt_le hw)
  rw [tdiv_eq_magnitudes, ← hq]
  split
  · exact toInt_neg_of_magnitude hw hle
  · next hsign =>
    refine toInt_of_magnitude hw (lt_of_le_of_ne hle fun hmax => hfit ?_)
    -- the magnitude is the most negative dividend's own, so the divisor is -1
    have hn : n.toInt.natAbs = 2 ^ (w - 1) :=
      le_antisymm (natAbs_toInt_le hw) (by rw [← hmax, hq]; exact Nat.div_le_self ..)
    have hmin := (natAbs_toInt_eq hw).mp hn
    have hd : d.toInt.natAbs = 1 := by
      rw [hmax, hn] at hq
      rcases Nat.eq_zero_or_pos d.toInt.natAbs with h0 | h0
      · rw [h0, Nat.div_zero] at hq
        exact absurd hq (Nat.two_pow_pos _).ne'
      · exact (Nat.div_eq_self.mp hq.symm).resolve_left (Nat.two_pow_pos _).ne'
    have hneg : n.toInt < 0 := by
      rw [hmin, BitVec.toInt_intMin_of_pos hw]
      exact Int.neg_neg_of_pos (Int.pow_pos (by decide))
    refine ⟨hmin, ?_⟩
    by_cases hdneg : d.toInt < 0
    · omega
    · exact absurd (by simp [hneg, hdneg]) hsign

theorem fdivSQr_eq (hw : 0 < w) {q : BitVec w} (hrd : r.d = d) (hdiv : fdivS o mulhi n r = some q)
    (hq : q.toInt = n.toInt.tdiv d.toInt) :
    ∃ rem : BitVec w, fdivSQr o mulhi n r = some ⟨q, rem⟩ ∧
      rem.toInt = n.toInt.tmod d.toInt := by
  have hlo := BitVec.le_toInt n
  have hhi := BitVec.toInt_lt (x := n)
  have hsum := Int.tdiv_mul_add_tmod n.toInt d.toInt
  obtain ⟨hpos, hneg⟩ := tdiv_mul_between n.toInt d.toInt
  have hhalf : (2 : Int) ^ w = 2 * 2 ^ (w - 1) := by exact_mod_cast two_pow_half hw
  have hprod : (q * d).toInt = n.toInt.tdiv d.toInt * d.toInt := by
    rw [BitVec.toInt_mul, hq]
    refine Int.bmod_eq_of_le_mul_two ?_ ?_ <;> push_cast <;> omega
  have hmul : q.smulOverflow d = false := by
    unfold BitVec.smulOverflow
    rw [hq]
    simp only [ge_iff_le, Bool.or_eq_false_iff, decide_eq_false_iff_not]
    omega
  have hsub : n.ssubOverflow (q * d) = false := by
    unfold BitVec.ssubOverflow
    rw [hprod]
    simp only [ge_iff_le, Bool.or_eq_false_iff, decide_eq_false_iff_not]
    omega
  refine ⟨n - q * d, ?_, ?_⟩
  · unfold fdivSQr
    rw [hdiv, Option.bind_some, hrd, SignedOverflow.mul, SignedOverflow.result_eq_some (.inl hmul),
      Option.bind_some, SignedOverflow.sub, SignedOverflow.result_eq_some (.inl hsub)]
    rfl
  · have hrem : n.toInt - n.toInt.tdiv d.toInt * d.toInt = n.toInt.tmod d.toInt := by omega
    rw [BitVec.toInt_sub, hprod, hrem]
    refine Int.bmod_eq_of_le_mul_two ?_ ?_ <;> push_cast <;> omega

/-- The division by `d` of the dividend `n` is C's: the quotient truncates, and the remainder has
the sign of the dividend. -/
def TruncatesAt (prepare : BitVec w → Option (Divisor w))
    (div : BitVec w → Divisor w → Option (BitVec w))
    (divQr : BitVec w → Divisor w → Option (QuotRem w)) (n d : BitVec w) : Prop :=
  ∃ r q, prepare d = some r ∧ div n r = some q.quot ∧ divQr n r = some q ∧
    q.quot.toInt = n.toInt.tdiv d.toInt ∧ n.toInt = q.quot.toInt * d.toInt + q.rem.toInt ∧
    (q.rem.toInt = 0 ∨ q.rem.toInt.sign = n.toInt.sign)

theorem fdivS_truncates_iff (hw : 0 < w) (hmul : HighHalf mulhi)
    (hprep : ∀ d, d ≠ 0 → Serves (prepare d) d.toNat) (hd : d ≠ 0) (hmin : d ≠ BitVec.intMin w) :
    TruncatesAt (fdivSPrepare o prepare) (fdivS o mulhi) (fdivSQr o mulhi) n d ↔
      n ≠ BitVec.intMin w ∨ (o = .wraps ∧ d ≠ -1) := by
  obtain ⟨r, hr, hrd, hserves, hneg⟩ := fdivSPrepare_eq (o := o) hw hprep hd hmin
  have hminus : d.toInt = -1 ↔ d = -1 := by
    have hall : (-1 : BitVec w).toInt = -1 := by
      rw [show (-1 : BitVec w) = -1#w from rfl, BitVec.neg_one_eq_allOnes, BitVec.toInt_allOnes,
        if_pos hw]
    rw [← BitVec.toInt_inj, hall]
  constructor
  · rintro ⟨r', q, hr', hdiv, -, hquot, -⟩
    cases hr.symm.trans hr'
    by_contra hcond
    rw [not_or, not_not, not_and_or, not_not] at hcond
    obtain ⟨rfl, hcond⟩ := hcond
    by_cases ho : o = .wraps
    · -- the quotient would be the magnitude of the most negative dividend
      have hd1 := hminus.mpr (hcond.resolve_left (not_not.mpr ho))
      have hlt := BitVec.toInt_lt (x := q.quot)
      rw [hquot, hd1, BitVec.toInt_intMin_of_pos hw, Int.neg_tdiv_neg, Int.tdiv_one] at hlt
      exact lt_irrefl _ hlt
    · have ho : o = .undefined := by cases o <;> trivial
      rw [ho, fdivS, SignedOverflow.abs_intMin hw] at hdiv
      cases hdiv
  · intro hcond
    obtain ⟨q, hq, hdiv⟩ := fdivS_eq hw hmul hserves hneg (hcond.imp_right And.left)
    have hfit : ¬(n = BitVec.intMin w ∧ d.toInt = -1) := by
      rintro ⟨hn, hd1⟩
      rcases hcond with h | ⟨-, h⟩
      · exact h hn
      · exact h (hminus.mp hd1)
    have hquot := toInt_signed_quotient hw hq hfit
    generalize (if decide (n.toInt < 0) ^^ decide (d.toInt < 0) then -q else q) = s at hdiv hquot
    obtain ⟨rem, hqr, hrem⟩ := fdivSQr_eq hw hrd hdiv hquot
    refine ⟨r, ⟨_, rem⟩, hr, hdiv, hqr, hquot, ?_, ?_⟩
    · rw [hquot, hrem, Int.tdiv_mul_add_tmod]
    · rw [hrem, Int.sign_tmod]
      by_cases hdvd : d.toInt ∣ n.toInt
      · exact .inl (Int.tmod_eq_zero_of_dvd hdvd)
      · exact .inr (if_neg hdvd)

end Divide

/-- The prepared signed divisions of both widths are C's for every dividend but the most negative
one, and for that one too where negating it wraps and the quotient fits. -/
theorem fdivS_exact_iff (o : SignedOverflow) :
    (∀ n d : BitVec 32, d ≠ 0 → d ≠ BitVec.intMin 32 →
      (TruncatesAt (fdivS32Prepare o) (fdivS32 o) (fdivS32Qr o) n d ↔
        n ≠ BitVec.intMin 32 ∨ (o = .wraps ∧ d ≠ -1))) ∧
    ∀ n d : BitVec 64, d ≠ 0 → d ≠ BitVec.intMin 64 →
      (TruncatesAt (fdivS64Prepare o) (fdivS64 o) (fdivS64Qr o) n d ↔
        n ≠ BitVec.intMin 64 ∨ (o = .wraps ∧ d ≠ -1)) :=
  ⟨fun _ _ hd hmin =>
      fdivS_truncates_iff (by decide) mulhiU32_eq (fun _ => fdivU32Prepare_serves) hd hmin,
    fun _ _ hd hmin =>
      fdivS_truncates_iff (by decide) mulhiU64_eq (fun _ => fdivU64Prepare_serves) hd hmin⟩

/-- `-7 / 2` of 32 bits and `7 / -2` of 64. -/
theorem fdivS_exact_seven :
    TruncatesAt (fdivS32Prepare .undefined) (fdivS32 .undefined) (fdivS32Qr .undefined) (-7) 2 ∧
      TruncatesAt (fdivS64Prepare .undefined) (fdivS64 .undefined) (fdivS64Qr .undefined) 7 (-2) :=
  ⟨((fdivS_exact_iff .undefined).1 (-7) 2 (by decide) (by decide)).mpr (.inl (by decide)),
    ((fdivS_exact_iff .undefined).2 7 (-2) (by decide) (by decide)).mpr (.inl (by decide))⟩

/-- The most negative dividend, halved: its negation is not defined. -/
theorem most_negative_undefined :
    ¬∀ n d : BitVec 32, d ≠ 0 → d ≠ BitVec.intMin 32 →
      TruncatesAt (fdivS32Prepare .undefined) (fdivS32 .undefined) (fdivS32Qr .undefined) n d := by
  intro h
  obtain ⟨r, q, -, hdiv, -⟩ := h (BitVec.intMin 32) 2 (by decide) (by decide)
  have hnone : fdivS32 .undefined (BitVec.intMin 32) r = none := by
    unfold fdivS32 fdivS
    rw [SignedOverflow.abs_intMin (by decide)]
    rfl
  rw [hnone] at hdiv
  cases hdiv

end Microgarbage.Math
