import Mathlib.Data.Nat.Count
import Mathlib.Tactic.Ring
import Microgarbage.Lib.Align

/-!
# Bit scans

`bits.h`: the counts of leading zeros, of trailing zeros and of set bits over the compiler's builtins;
the count of zeros of the word zero is the width.
-/

namespace Microgarbage.Math

open Lib BitVec

/-- `bits_clz32` over `__builtin_clz`. -/
def bitsClz32 (x : BitVec 32) : BitVec 8 := if x = 0 then 32 else x.clz.setWidth 8

/-- `bits_clz64` over `__builtin_clzll`. -/
def bitsClz64 (x : BitVec 64) : BitVec 8 := if x = 0 then 64 else x.clz.setWidth 8

/-- The number of leading zeros of a word that is not zero. -/
def LeadingZeros (w x c : Nat) : Prop := c < w ∧ 2 ^ (w - 1 - c) ≤ x ∧ x < 2 ^ (w - c)

theorem leadingZeros_clz {w : Nat} {x : BitVec w} (hx : x ≠ 0) :
    LeadingZeros w x.toNat x.clz.toNat := by
  have hw : 0 < w := by
    rcases Nat.eq_zero_or_pos w with rfl | hw
    · exact absurd (eq_nil x ▸ rfl) hx
    · exact hw
  have hle := two_pow_sub_clz_le_toNat_of_ne_zero hw hx
  refine ⟨?_, hle, toNat_lt_two_pow_sub_clz⟩
  have hlt : x.clz < BitVec.ofNat w w := clz_lt_iff_ne_zero.mpr hx
  rw [lt_def, toNat_ofNat] at hlt
  exact Nat.lt_of_lt_of_le hlt (Nat.mod_le ..)

theorem toNat_bitsClz32 {x : BitVec 32} (hx : x ≠ 0) :
    LeadingZeros 32 x.toNat (bitsClz32 x).toNat := by
  have h := leadingZeros_clz hx
  unfold bitsClz32
  rw [if_neg hx, toNat_setWidth, Nat.mod_eq_of_lt (Nat.lt_trans h.1 (by decide))]
  exact h

theorem toNat_bitsClz64 {x : BitVec 64} (hx : x ≠ 0) :
    LeadingZeros 64 x.toNat (bitsClz64 x).toNat := by
  have h := leadingZeros_clz hx
  unfold bitsClz64
  rw [if_neg hx, toNat_setWidth, Nat.mod_eq_of_lt (Nat.lt_trans h.1 (by decide))]
  exact h

/-! ## Trailing zeros and set bits -/

/-- `bits_ctz32` over `__builtin_ctz`. -/
def bitsCtz32 (x : BitVec 32) : BitVec 8 := if x = 0 then 32 else x.ctz.setWidth 8

/-- `bits_popcount32` over `__builtin_popcount`. -/
def bitsPopcount32 (x : BitVec 32) : BitVec 8 := x.cpop.setWidth 8

/-- The lowest set bit of a word that is not zero. -/
structure LowestSet (x : BitVec 32) (c : Nat) : Prop where
  lt : c < 32
  set : x.getLsbD c = true
  below : ∀ k < c, x.getLsbD k = false

theorem toNat_bitsCtz32 {x : BitVec 32} (hx : x ≠ 0) : LowestSet x (bitsCtz32 x).toNat := by
  have hlt : x.ctz.toNat < 32 := by
    have h := ctz_lt_iff_ne_zero.mpr hx
    rwa [lt_def] at h
  have hctz : (bitsCtz32 x).toNat = x.ctz.toNat := by
    unfold bitsCtz32
    rw [if_neg hx, toNat_setWidth, Nat.mod_eq_of_lt (Nat.lt_trans hlt (by decide))]
  rw [hctz]
  exact ⟨hlt, getLsbD_true_ctz_of_ne_zero hx, fun k hk => getLsbD_false_of_lt_ctz hk⟩

theorem cpopNatRec_count (x : BitVec 32) (n acc : Nat) :
    x.cpopNatRec n acc = acc + Nat.count (fun k => x.getLsbD k = true) n := by
  induction n generalizing acc with
  | zero => rfl
  | succ n ih =>
    rw [cpopNatRec_succ, ih, Nat.count_succ]
    cases x.getLsbD n <;> simp [Nat.add_assoc, Nat.add_comm]

theorem toNat_bitsPopcount32 (x : BitVec 32) :
    (bitsPopcount32 x).toNat = Nat.count (fun k => x.getLsbD k = true) 32 := by
  have hle : x.cpop.toNat ≤ 32 := toNat_cpop_le x
  unfold bitsPopcount32
  rw [toNat_setWidth, Nat.mod_eq_of_lt (Nat.lt_of_le_of_lt hle (by decide)),
    toNat_cpop, cpopNatRec_count, Nat.zero_add]

end Microgarbage.Math
