import Microgarbage.Vm.Core

/-!
# The guest address space

The memory map as the header draws it: four address ranges, the topmost split in two, each an
offset window onto one region. `Mapped` is "the `n` bytes from this address lie inside the region
it selects", in unbounded arithmetic. `xlatRead_eq` and `xlatWrite_eq` say that the translation
functions, with their masks and 32-bit subtractions, decide exactly that.
-/

namespace Microgarbage.Vm

open Lib BitVec

variable (cpu : VmCpu)

/-- The region an address belongs to. -/
def regionAt (a : Word) : VmRegion :=
  if a.toNat < 0x40000000 then cpu.regions regionCode
  else if a.toNat < 0x80000000 then cpu.regions regionRodata
  else if a.toNat < 0xC0000000 then cpu.regions regionData
  else if a.toNat < 0xE0000000 then cpu.regions regionShared
  else cpu.l2Shared

/-- The distance of an address from the start of its range. -/
def offsetAt (a : Word) : Nat :=
  if a.toNat < 0xC0000000 then a.toNat % 0x40000000 else a.toNat % 0x20000000

/-- The `n` bytes from `a` on are backed by the region of `a`. -/
def Mapped (a : Word) (n : Nat) : Prop :=
  offsetAt a + n ≤ (regionAt cpu a).length.toNat

instance (cpu : VmCpu) (a : Word) (n : Nat) : Decidable (Mapped cpu a n) :=
  inferInstanceAs (Decidable (_ ≤ _))

/-- Where the host keeps the byte at `a`. -/
def hostAddr (a : Word) : Nat := (regionAt cpu a).base + offsetAt a

/-! ## Regions as sets of host bytes -/

def InRegion (r : VmRegion) (p : Nat) : Prop := r.base ≤ p ∧ p < r.base + r.length.toNat

/-- The five regions of a CPU: the table and the optional L2 half. -/
def regionsOf : List VmRegion :=
  [cpu.regions regionCode, cpu.regions regionRodata, cpu.regions regionData,
    cpu.regions regionShared, cpu.l2Shared]

/-- Host bytes the guest can read. -/
def Visible (p : Nat) : Prop := ∃ r ∈ regionsOf cpu, InRegion r p

/-- Host bytes the guest can write. -/
def Writable (p : Nat) : Prop := ∃ r ∈ regionsOf cpu, r.writable = true ∧ InRegion r p

/-- Two memories with the same visible bytes. -/
def Agree (mem mem' : Mem) : Prop := ∀ p, Visible cpu p → mem p = mem' p

theorem regionAt_mem (a : Word) : regionAt cpu a ∈ regionsOf cpu := by
  unfold regionAt regionsOf
  split
  · simp
  split
  · simp
  split
  · simp
  split
  · simp
  · simp

theorem mapped_inRegion {cpu : VmCpu} {a : Word} {n p : Nat} (h : Mapped cpu a n)
    (hp : hostAddr cpu a ≤ p) (hp' : p < hostAddr cpu a + n) : InRegion (regionAt cpu a) p := by
  unfold Mapped at h
  unfold hostAddr at hp hp'
  exact ⟨by omega, by omega⟩

theorem mapped_visible {cpu : VmCpu} {a : Word} {n i : Nat} (h : Mapped cpu a n) (hi : i < n) :
    Visible cpu (hostAddr cpu a + i) :=
  ⟨_, regionAt_mem cpu a, mapped_inRegion h (by omega) (by omega)⟩

/-! ## The masks of the split -/

theorem toNat_top (a : Word) : (a >>> 30).toNat = a.toNat / 0x40000000 := by
  simp [toNat_ushiftRight, Nat.shiftRight_eq_div_pow]

theorem top_eq {a : Word} {k : Nat} (hk : k < 4) (h : a.toNat / 0x40000000 = k) :
    a >>> 30 = BitVec.ofNat 32 k := by
  apply eq_of_toNat_eq
  rw [toNat_top, h, toNat_ofNat]
  omega

theorem bit29_iff (a : Word) : a &&& 0x20000000#32 ≠ 0#32 ↔ a.toNat / 0x20000000 % 2 = 1 := by
  have hbit : a.getLsbD 29 = decide (a.toNat / 0x20000000 % 2 = 1) :=
    Nat.testBit_eq_decide_div_mod_eq
  rw [show 0x20000000#32 = BitVec.twoPow 32 29 from rfl, and_twoPow, hbit]
  by_cases h : a.toNat / 0x20000000 % 2 = 1
  · rw [decide_eq_true h, if_pos rfl]
    exact ⟨fun _ => h, fun _ => by decide⟩
  · rw [decide_eq_false h, if_neg Bool.false_ne_true]
    exact ⟨fun hc => absurd rfl hc, fun hc => absurd hc h⟩

theorem toNat_mask29 (a : Word) : (a &&& 0x1FFFFFFF#32).toNat = a.toNat % 0x20000000 := by
  rw [toNat_and]
  exact Nat.and_two_pow_sub_one_eq_mod a.toNat 29

theorem toNat_mask30 (a : Word) : (a &&& 0x3FFFFFFF#32).toNat = a.toNat % 0x40000000 := by
  rw [toNat_and]
  exact Nat.and_two_pow_sub_one_eq_mod a.toNat 30

/-! ## The translation functions decide `Mapped` -/

theorem xlatPick_shared {cpu : VmCpu} {a : Word} (h : 0xC0000000 ≤ a.toNat) :
    (xlatPick cpu a).1 = regionAt cpu a ∧ (xlatPick cpu a).2.toNat = offsetAt a := by
  have hlt := a.isLt
  have htop : a >>> 30 = 3#32 := top_eq (k := 3) (by omega) (by omega)
  unfold xlatPick regionAt offsetAt
  simp only [htop, ↓reduceIte, bit29_iff]
  by_cases hb : a.toNat / 0x20000000 % 2 = 1
  · rw [if_pos hb, if_neg (by omega), if_neg (by omega), if_neg (by omega), if_neg (by omega),
      if_neg (by omega)]
    exact ⟨rfl, toNat_mask29 a⟩
  · rw [if_neg hb, if_neg (by omega), if_neg (by omega), if_neg (by omega), if_pos (by omega),
      if_neg (by omega)]
    exact ⟨rfl, toNat_mask29 a⟩

theorem xlatPick_private {cpu : VmCpu} {a : Word} (h : a.toNat < 0xC0000000) :
    (xlatPick cpu a).1 = regionAt cpu a ∧ (xlatPick cpu a).2.toNat = offsetAt a := by
  have htop : a >>> 30 ≠ 3#32 := by
    intro e
    have := congrArg BitVec.toNat e
    rw [toNat_top] at this
    simp at this
    omega
  have hoff : (if a.toNat < 0xC0000000 then a.toNat % 0x40000000 else a.toNat % 0x20000000) =
      a.toNat % 0x40000000 := if_pos h
  unfold xlatPick regionAt offsetAt
  simp only [htop, ↓reduceIte, hoff, toNat_mask30, and_true]
  by_cases h1 : a.toNat < 0x40000000
  · rw [if_pos h1, top_eq (k := 0) (by omega) (by omega)]
    rfl
  by_cases h2 : a.toNat < 0x80000000
  · rw [if_neg h1, if_pos h2, top_eq (k := 1) (by omega) (by omega)]
    rfl
  · rw [if_neg h1, if_neg h2, if_pos h, top_eq (k := 2) (by omega) (by omega)]
    rfl

theorem xlatPick_eq (a : Word) :
    (xlatPick cpu a).1 = regionAt cpu a ∧ (xlatPick cpu a).2.toNat = offsetAt a :=
  (Nat.lt_or_ge a.toNat 0xC0000000).elim xlatPick_private xlatPick_shared

/-- The 32-bit test `length == 0 || offset > length || size > length - offset` never wraps. -/
theorem outOfRegion_iff (r : VmRegion) (offset : Word) {size : Word} (hs : 0 < size.toNat) :
    outOfRegion r offset size = true ↔ ¬ offset.toNat + size.toNat ≤ r.length.toNat := by
  unfold outOfRegion
  simp only [BitVec.ult, Bool.or_eq_true, beq_iff_eq, decide_eq_true_eq, ← toNat_inj,
    toNat_ofNat]
  by_cases h : r.length.toNat < offset.toNat
  · simp only [h, or_true, true_or, true_iff]
    omega
  · rw [toNat_sub_of_le (by rw [le_def]; omega)]
    omega

theorem xlatRead_eq (a size : Word) (cause : VmTrapCause) (hs : 0 < size.toNat) :
    xlatRead cpu a size cause =
      if Mapped cpu a size.toNat then .ok (hostAddr cpu a) else .error (cpu.fault cause a) := by
  obtain ⟨hr, ho⟩ := xlatPick_eq cpu a
  have hout := outOfRegion_iff (xlatPick cpu a).1 (xlatPick cpu a).2 hs
  rw [hr, ho] at hout
  simp only [xlatRead, hr, ho, hostAddr]
  by_cases h : Mapped cpu a size.toNat
  · rw [if_neg (fun hc => hout.mp hc h), if_pos h]
  · rw [if_pos (hout.mpr h), if_neg h]

theorem xlatWrite_eq (a size : Word) (hs : 0 < size.toNat) :
    xlatWrite cpu a size =
      if Mapped cpu a size.toNat then
        if (regionAt cpu a).writable then .ok (hostAddr cpu a) else .error (cpu.fault .storeRo a)
      else .error (cpu.fault .storeFault a) := by
  obtain ⟨hr, ho⟩ := xlatPick_eq cpu a
  have hout := outOfRegion_iff (xlatPick cpu a).1 (xlatPick cpu a).2 hs
  rw [hr, ho] at hout
  simp only [xlatWrite, hr, ho, hostAddr]
  by_cases h : Mapped cpu a size.toNat
  · rw [if_neg (fun hc => hout.mp hc h), if_pos h]
    cases (regionAt cpu a).writable <;> rfl
  · rw [if_pos (hout.mpr h), if_neg h]

end Microgarbage.Vm
