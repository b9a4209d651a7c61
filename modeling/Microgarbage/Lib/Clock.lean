import Mathlib.Algebra.Ring.Nat

/-!
# Clocks that wrap

A clock of `w` bits shows the time modulo `2 ^ w`. Times that are less than half a period apart are
compared by the sign of the difference of what the clock shows.
-/

namespace Microgarbage.Lib.Clock

variable {w : Nat}

/-- Whether a clock that shows `now` has reached `deadline`: the difference is not negative. -/
def reached (now deadline : BitVec w) : Bool := (0#w).sle (now - deadline)

/-- How far a clock has moved between two readings. -/
def elapsed (before after : BitVec w) : Nat := (after - before).toNat

theorem reached_iff (now deadline : BitVec w) :
    reached now deadline = true ↔ 0 ≤ (now - deadline).toInt := by
  unfold reached
  rw [BitVec.sle_eq_decide, BitVec.toInt_zero, decide_eq_true_eq]

theorem toInt_sub_ofNat {now due : Nat} (hw : 0 < w) (hpast : now < due + 2 ^ (w - 1))
    (hahead : due ≤ now + 2 ^ (w - 1)) :
    (BitVec.ofNat w now - BitVec.ofNat w due).toInt = (now : Int) - due := by
  have hpow : 2 ^ w = 2 * 2 ^ (w - 1) := by
    obtain ⟨n, rfl⟩ : ∃ n, w = n + 1 := ⟨w - 1, by omega⟩
    rw [Nat.add_sub_cancel, Nat.pow_succ, Nat.mul_comm]
  have hpos := Nat.two_pow_pos (w - 1)
  rcases Nat.le_total due now with hle | hlt
  · obtain ⟨d, rfl⟩ := Nat.exists_eq_add_of_le hle
    have hd : BitVec.ofNat w (due + d) - BitVec.ofNat w due = BitVec.ofNat w d := by
      rw [BitVec.ofNat_add, BitVec.add_comm, BitVec.add_sub_cancel]
    rw [hd, BitVec.toInt_eq_toNat_cond, BitVec.toNat_ofNat, Nat.mod_eq_of_lt (by omega)]
    split <;> omega
  · obtain ⟨d, rfl⟩ := Nat.exists_eq_add_of_le hlt
    have hd : BitVec.ofNat w now - BitVec.ofNat w (now + d) = -BitVec.ofNat w d := by
      rw [BitVec.ofNat_add, BitVec.sub_eq_iff_eq_add, BitVec.add_comm, BitVec.add_assoc,
        BitVec.add_right_neg, BitVec.add_zero]
    rw [hd, BitVec.toInt_eq_toNat_cond, BitVec.toNat_neg, BitVec.toNat_ofNat,
      Nat.mod_eq_of_lt (show d < 2 ^ w by omega)]
    rcases Nat.eq_zero_or_pos d with rfl | hpos
    · rw [Nat.sub_zero, Nat.mod_self]
      split <;> omega
    · rw [Nat.mod_eq_of_lt (by omega)]
      split <;> omega

theorem reached_ofNat {now due : Nat} (hw : 0 < w) (hpast : now < due + 2 ^ (w - 1))
    (hahead : due ≤ now + 2 ^ (w - 1)) :
    reached (BitVec.ofNat w now) (BitVec.ofNat w due) = true ↔ due ≤ now := by
  rw [reached_iff, toInt_sub_ofNat hw hpast hahead]
  omega

theorem ofNat_add_elapsed {t : Nat} {before : BitVec w} (h : BitVec.ofNat w t = before)
    (after : BitVec w) : BitVec.ofNat w (t + elapsed before after) = after := by
  unfold elapsed
  rw [BitVec.ofNat_add, h, BitVec.ofNat_toNat, BitVec.setWidth_eq, BitVec.add_comm,
    BitVec.sub_add_cancel]

end Microgarbage.Lib.Clock
