import Microgarbage.Lib.Align

/-!
# Ring arithmetic

Positions count up without bound; position `n` lives in slot `n % capacity`. Positions of one turn
have different slots, and different slots share no byte. For a power of two the slot of the next
position is one addition and one mask away.
-/

namespace Microgarbage.Lib

theorem slot_ne {capacity i j : Nat} (hij : i < j) (hj : j < i + capacity) :
    i % capacity ≠ j % capacity := by
  intro h
  have hdvd := (Nat.modEq_iff_dvd' (Nat.le_of_lt hij)).mp h
  have hle := Nat.le_of_dvd (by omega) hdvd
  omega

theorem slots_disjoint {size i j : Nat} (h : i ≠ j) :
    i * size + size ≤ j * size ∨ j * size + size ≤ i * size := by
  rcases Nat.lt_or_gt_of_ne h with hlt | hlt
  · have hmul := Nat.mul_le_mul_right size (Nat.succ_le_of_lt hlt)
    rw [Nat.succ_mul] at hmul
    exact .inl hmul
  · have hmul := Nat.mul_le_mul_right size (Nat.succ_le_of_lt hlt)
    rw [Nat.succ_mul] at hmul
    exact .inr hmul

section PowerOfTwo

variable {c : BitVec 64} (h2 : 2 ≤ c)

include h2

theorem two_le_toNat : 2 ≤ c.toNat := h2

theorem toNat_slot (n : Nat) : (BitVec.ofNat 64 (n % c.toNat)).toNat = n % c.toNat := by
  have hlt := Nat.mod_lt n (Nat.lt_of_lt_of_le Nat.zero_lt_two (two_le_toNat h2))
  rw [BitVec.toNat_ofNat]
  exact Nat.mod_eq_of_lt (Nat.lt_trans hlt c.isLt)

variable (hc : c &&& (c - 1) = 0)

include hc

theorem mask_eq_mod (x : BitVec 64) : (x &&& (c - 1)).toNat = x.toNat % c.toNat := by
  have h2' := two_le_toNat h2
  have h0 : c ≠ 0 := by
    rintro rfl
    exact absurd h2' (by decide)
  obtain ⟨k, hk⟩ := exists_two_pow h0 hc
  rw [toNat_mask hk, hk]

theorem next_slot (n : Nat) : (BitVec.ofNat 64 (n % c.toNat) + 1) &&& (c - 1) =
    BitVec.ofNat 64 ((n + 1) % c.toNat) := by
  have hlt := Nat.mod_lt n (Nat.lt_of_lt_of_le Nat.zero_lt_two (two_le_toNat h2))
  have hone : (1 : BitVec 64).toNat = 1 := rfl
  have hsum : (BitVec.ofNat 64 (n % c.toNat) + 1).toNat = n % c.toNat + 1 := by
    rw [BitVec.toNat_add, toNat_slot h2, hone]
    exact Nat.mod_eq_of_lt (Nat.lt_of_le_of_lt hlt c.isLt)
  refine BitVec.eq_of_toNat_eq ?_
  rw [mask_eq_mod h2 hc, hsum, toNat_slot h2, Nat.mod_add_mod]

end PowerOfTwo

end Microgarbage.Lib
