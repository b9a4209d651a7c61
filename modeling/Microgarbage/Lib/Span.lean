import Microgarbage.Lib.Align

/-!
# Spans of addresses

A span is a run of bytes in a space of addresses that wraps. Spans that begin at their own offsets
from one base are told apart by their offsets.
-/

namespace Microgarbage.Lib

structure Span (w : Nat) where
  base : BitVec w
  bytes : BitVec w
  deriving DecidableEq

namespace Span

variable {w : Nat}

/-- The address is one of the span's bytes. -/
def Covers (s : Span w) (x : BitVec w) : Prop := (x - s.base).toNat < s.bytes.toNat

def Inside (s t : Span w) : Prop := ∀ x, s.Covers x → t.Covers x

def Apart (s t : Span w) : Prop := ∀ x, ¬(s.Covers x ∧ t.Covers x)

theorem Apart.symm {s t : Span w} (h : s.Apart t) : t.Apart s := fun x hx => h x ⟨hx.2, hx.1⟩

/-- The span begins `off` bytes above `base`, and ends at most `limit` bytes above it. -/
structure At (base : BitVec w) (limit off : Nat) (s : Span w) : Prop where
  base_eq : s.base = base + BitVec.ofNat w off
  fits : off + s.bytes.toNat ≤ limit

variable {base x : BitVec w} {limit off off' : Nat} {s t : Span w}

theorem at_offset (h : (s.base - base).toNat + s.bytes.toNat ≤ limit) :
    s.At base limit (s.base - base).toNat where
  base_eq := by rw [BitVec.ofNat_toNat, BitVec.setWidth_eq, BitVec.add_comm, BitVec.sub_add_cancel]
  fits := h

theorem At.covers_iff (h : s.At base limit off) (hlimit : limit < 2 ^ w) :
    s.Covers x ↔ off ≤ (x - base).toNat ∧ (x - base).toNat < off + s.bytes.toNat := by
  have hfits := h.fits
  have hoff : (BitVec.ofNat w off).toNat = off := by
    rw [BitVec.toNat_ofNat, Nat.mod_eq_of_lt (by omega)]
  have hx := (x - base).isLt
  unfold Covers
  rw [h.base_eq, ← BitVec.sub_sub, BitVec.toNat_sub, hoff]
  generalize (x - base).toNat = u at hx ⊢
  by_cases hle : off ≤ u
  · rw [show 2 ^ w - off + u = u - off + 2 ^ w by omega, Nat.add_mod_right,
      Nat.mod_eq_of_lt (by omega)]
    omega
  · rw [Nat.mod_eq_of_lt (by omega)]
    omega

theorem At.apart (hs : s.At base limit off) (ht : t.At base limit off') (hlimit : limit < 2 ^ w)
    (h : off + s.bytes.toNat ≤ off') : s.Apart t := by
  rintro x ⟨hx, hx'⟩
  rw [hs.covers_iff hlimit] at hx
  rw [ht.covers_iff hlimit] at hx'
  omega

theorem At.inside {bytes : BitVec w} (h : s.At base bytes.toNat off) : s.Inside ⟨base, bytes⟩ := by
  intro x hx
  have hfits := h.fits
  rw [h.covers_iff bytes.isLt] at hx
  exact lt_of_lt_of_le hx.2 hfits

/-- A power of two divides the address of an offset that it divides exactly when it divides the
base. -/
theorem At.dvd_iff (h : s.At base limit off) {k : Nat} (hk : k ≤ w) (hoff : 2 ^ k ∣ off) :
    2 ^ k ∣ s.base.toNat ↔ 2 ^ k ∣ base.toNat := by
  have hw : 2 ^ k ∣ 2 ^ w := Nat.pow_dvd_pow 2 hk
  rw [h.base_eq, BitVec.toNat_add, BitVec.toNat_ofNat, Nat.dvd_mod_iff hw,
    ← Nat.dvd_add_iff_left ((Nat.dvd_mod_iff hw).mpr hoff)]

end Span

end Microgarbage.Lib
