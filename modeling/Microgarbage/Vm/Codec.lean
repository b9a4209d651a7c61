import Mathlib.Tactic.IntervalCases
import Microgarbage.Lib.Rv32
import Microgarbage.Vm.Execute

/-!
# Fields, immediates and arithmetic of the interpreter

The interpreter takes instructions apart with shifts and masks and computes with guarded C
expressions. Each is shown equal to the slice, concatenation or integer operation the manual uses.
-/

namespace Microgarbage.Vm

open Lib BitVec

/-! ## Fields -/

theorem mask_field {w : Nat} (x : BitVec w) (s n : Nat) :
    x >>> s &&& BitVec.ofNat w (2 ^ n - 1) = (x.extractLsb' s n).setWidth w := by
  apply eq_of_getLsbD_eq
  intro i hi
  simp only [getLsbD_and, getLsbD_ushiftRight, getLsbD_setWidth,
    getLsbD_extractLsb', getLsbD_ofNat, Nat.testBit_two_pow_sub_one, hi,
    decide_true, Bool.true_and]
  rw [Bool.and_comm]

theorem opcodeOf_eq (w : Word) : opcodeOf w = (Rv32.opcode w).setWidth 32 := by
  have h := mask_field w 0 7
  rw [ushiftRight_zero] at h
  exact h

theorem rdOf_eq (w : Word) : rdOf w = (Rv32.rd w).setWidth 32 := mask_field w 7 5
theorem funct3Of_eq (w : Word) : funct3Of w = (Rv32.funct3 w).setWidth 32 := mask_field w 12 3
theorem rs1Of_eq (w : Word) : rs1Of w = (Rv32.rs1 w).setWidth 32 := mask_field w 15 5
theorem rs2Of_eq (w : Word) : rs2Of w = (Rv32.rs2 w).setWidth 32 := mask_field w 20 5
theorem funct7Of_eq (w : Word) : funct7Of w = (Rv32.funct7 w).setWidth 32 := mask_field w 25 7

theorem imm12_mask (w : Word) : w >>> 20 &&& 0xFFF#32 = (Rv32.imm12 w).setWidth 32 :=
  mask_field w 20 12

theorem regOf_setWidth (r : Reg) : regOf (r.setWidth 32) = r :=
  setWidth_setWidth_of_le r (by omega) |>.trans (setWidth_eq r)

theorem regOf_rd (w : Word) : regOf (rdOf w) = Rv32.rd w := by rw [rdOf_eq, regOf_setWidth]
theorem regOf_rs1 (w : Word) : regOf (rs1Of w) = Rv32.rs1 w := by rw [rs1Of_eq, regOf_setWidth]
theorem regOf_rs2 (w : Word) : regOf (rs2Of w) = Rv32.rs2 w := by rw [rs2Of_eq, regOf_setWidth]

/-- A widened field equals a widened literal only if the field is that literal. -/
theorem setWidth_inj {n w : Nat} (hn : n ≤ w) {x y : BitVec n} :
    x.setWidth w = y.setWidth w ↔ x = y := by
  constructor
  · intro h
    have hn' := congrArg (BitVec.setWidth n) h
    rwa [setWidth_setWidth_of_le x hn, setWidth_setWidth_of_le y hn,
      setWidth_eq, setWidth_eq] at hn'
  · intro h
    rw [h]

theorem long_iff (lo : BitVec 16) : lo &&& 3#16 = 3#16 ↔ lo.extractLsb' 0 2 = 3#2 := by
  have h := mask_field lo 0 2
  rw [ushiftRight_zero] at h
  rw [show 3#16 = BitVec.ofNat 16 (2 ^ 2 - 1) from rfl, h]
  exact setWidth_inj (w := 16) (y := 3#2) (by omega)

theorem join_halves (hi lo : BitVec 16) :
    hi.setWidth 32 <<< 16 ||| lo.setWidth 32 = hi ++ lo := by
  apply eq_of_getLsbD_eq (w := 16 + 16)
  intro i hi'
  simp only [getLsbD_append, getLsbD_or, getLsbD_shiftLeft,
    getLsbD_setWidth]
  by_cases h : i < 16
  · simp [h, hi', -getLsbD_eq_getElem]
  · simp [h, hi', getLsbD_of_ge lo i (by omega), show i - 16 < 32 by omega,
      -getLsbD_eq_getElem]

theorem low_slice {n : Nat} (hn : n ≤ 32) (x : BitVec n) :
    (x.setWidth 32).extractLsb' 0 n = x := by
  rw [← setWidth_eq_extractLsb' hn, setWidth_setWidth_of_le x hn, setWidth_eq]

theorem funct3_cases (x : BitVec 3) :
    x = 0#3 ∨ x = 1#3 ∨ x = 2#3 ∨ x = 3#3 ∨ x = 4#3 ∨ x = 5#3 ∨ x = 6#3 ∨ x = 7#3 := by
  revert x
  decide

/-! ## Immediates -/

/-- Shifting a field to the top and arithmetically back extends its sign. -/
theorem shl_sshiftRight (v : Word) (n : Nat) (hn : 0 < n) (hn' : n ≤ 32) :
    (v <<< (32 - n)).sshiftRight (32 - n) = (v.setWidth n).signExtend 32 := by
  apply eq_of_getLsbD_eq
  intro i hi
  simp only [getLsbD_sshiftRight, getLsbD_signExtend, getLsbD_shiftLeft,
    msb_eq_getLsbD_last, getLsbD_setWidth]
  by_cases h : i < n
  · have e : 32 - n + i - (32 - n) = i := by omega
    simp [h, hi, show 32 - n + i < 32 by omega, e]
  · have e : 32 - 1 - (32 - n) = n - 1 := by omega
    simp [h, hi, show ¬ 32 - n + i < 32 by omega, e, show ¬ 31 < 32 - n by omega, hn]

theorem immI_eq (w : Word) : immI w = Rv32.immI w := by
  apply eq_of_getLsbD_eq
  intro i hi
  unfold immI Rv32.immI Rv32.imm12
  rw [getLsbD_sshiftRight, getLsbD_signExtend, getLsbD_extractLsb',
    msb_eq_getLsbD_last, msb_eq_getLsbD_last, getLsbD_extractLsb']
  by_cases h : 20 + i < 32
  · simp [h, hi, show ¬ 32 ≤ i by omega, show i < 12 by omega, -getLsbD_eq_getElem]
  · simp [h, hi, show ¬ 32 ≤ i by omega, show ¬ i < 12 by omega, -getLsbD_eq_getElem]

theorem immS_eq (w : Word) : immS w = Rv32.immS w := by
  have hv : ((w >>> 25 &&& 0x7F#32) <<< 5 ||| (w >>> 7 &&& 0x1F#32)).setWidth (7 + 5) =
      w.extractLsb' 25 7 ++ w.extractLsb' 7 5 := by
    apply eq_of_getLsbD_eq
    intro i hi
    simp only [getLsbD_append]
    interval_cases i <;> simp [-getLsbD_eq_getElem]
  unfold immS Rv32.immS
  rw [← hv]
  exact shl_sshiftRight _ 12 (by omega) (by omega)

theorem immB_eq (w : Word) : immB w = Rv32.immB w := by
  have hv : ((w >>> 31 &&& 0x1#32) <<< 12 ||| (w >>> 7 &&& 0x1#32) <<< 11 |||
        (w >>> 25 &&& 0x3F#32) <<< 5 ||| (w >>> 8 &&& 0xF#32) <<< 1).setWidth (1 + 1 + 6 + 4 + 1) =
      w.extractLsb' 31 1 ++ w.extractLsb' 7 1 ++ w.extractLsb' 25 6 ++ w.extractLsb' 8 4 ++
        0#1 := by
    apply eq_of_getLsbD_eq
    intro i hi
    simp only [getLsbD_append]
    interval_cases i <;> simp [-getLsbD_eq_getElem]
  unfold immB Rv32.immB
  rw [← hv]
  exact shl_sshiftRight _ 13 (by omega) (by omega)

theorem immJ_eq (w : Word) : immJ w = Rv32.immJ w := by
  have hv : ((w >>> 31 &&& 0x1#32) <<< 20 ||| (w >>> 12 &&& 0xFF#32) <<< 12 |||
        (w >>> 20 &&& 0x1#32) <<< 11 |||
        (w >>> 21 &&& 0x3FF#32) <<< 1).setWidth (1 + 8 + 1 + 10 + 1) =
      w.extractLsb' 31 1 ++ w.extractLsb' 12 8 ++ w.extractLsb' 20 1 ++ w.extractLsb' 21 10 ++
        0#1 := by
    apply eq_of_getLsbD_eq
    intro i hi
    simp only [getLsbD_append]
    interval_cases i <;> simp [-getLsbD_eq_getElem]
  unfold immJ Rv32.immJ
  rw [← hv]
  exact shl_sshiftRight _ 21 (by omega) (by omega)

theorem immU_eq (w : Word) : immU w = Rv32.immU w := by
  unfold immU Rv32.immU
  apply eq_of_getLsbD_eq (w := 20 + 12)
  intro i hi
  simp only [getLsbD_append]
  interval_cases i <;> simp [-getLsbD_eq_getElem]

theorem shamtOf_eq (w : Word) : shamtOf w = Rv32.shamt w := mask_field w 20 5

theorem clear_bit0 (a : Word) : a &&& ~~~1#32 = a.extractLsb' 1 31 ++ 0#1 := by
  apply eq_of_getLsbD_eq (w := 31 + 1)
  intro i hi
  simp only [getLsbD_append, getLsbD_and, getLsbD_not,
    getLsbD_extractLsb', getLsbD_one]
  cases i with
  | zero => simp
  | succ i => simp [hi, show i < 31 by omega, Nat.add_comm 1 i, -getLsbD_eq_getElem]

/-! ## Shifts -/

theorem toNat_shamt (b : Word) : (b &&& 0x1F#32).toNat = b.toNat % 32 := by
  rw [toNat_and]
  exact Nat.and_two_pow_sub_one_eq_mod b.toNat 5

theorem shl_eq (a b : Word) :
    a <<< (b &&& 0x1F#32) = BitVec.ofNat 32 (a.toNat * 2 ^ (b.toNat % 32)) := by
  apply eq_of_toNat_eq
  rw [shiftLeft_eq', toNat_shamt, toNat_shiftLeft, toNat_ofNat,
    Nat.shiftLeft_eq]

theorem shr_eq (a b : Word) :
    a >>> (b &&& 0x1F#32) = BitVec.ofNat 32 (a.toNat / 2 ^ (b.toNat % 32)) := by
  have hlt : a.toNat / 2 ^ (b.toNat % 32) < 2 ^ 32 :=
    Nat.lt_of_le_of_lt (Nat.div_le_self _ _) a.isLt
  apply eq_of_toNat_eq
  rw [ushiftRight_eq', toNat_shamt, toNat_ushiftRight, toNat_ofNat,
    Nat.shiftRight_eq_div_pow, Nat.mod_eq_of_lt hlt]

theorem sshiftRight_eq (a : Word) (n : Nat) :
    a.sshiftRight n = BitVec.ofInt 32 (a.toInt / 2 ^ n) := by
  rw [BitVec.sshiftRight, Int.shiftRight_eq_div_pow]
  push_cast
  rfl

theorem sign_bit (v : Word) : v &&& 0x80000000#32 ≠ 0#32 ↔ v.msb = true := by
  rw [show 0x80000000#32 = BitVec.twoPow 32 31 from rfl, and_twoPow,
    msb_eq_getLsbD_last]
  cases v.getLsbD 31 <;> simp

theorem one_shl_sub_one {k : Nat} (hk : k < 32) :
    1#32 <<< k - 1#32 = BitVec.ofNat 32 (2 ^ k - 1) := by
  have hp : 2 ^ k < 2 ^ 32 := Nat.pow_lt_pow_right (by omega) hk
  have hp0 : 0 < 2 ^ k := Nat.two_pow_pos _
  have h1 : (1#32 <<< k).toNat = 2 ^ k := by
    rw [toNat_shiftLeft, Nat.shiftLeft_eq, show (1#32).toNat = 1 from rfl, Nat.one_mul,
      Nat.mod_eq_of_lt hp]
  apply eq_of_toNat_eq
  rw [toNat_sub_of_le (by rw [le_def, h1]; exact hp0), h1,
    toNat_ofNat (2 ^ k - 1), Nat.mod_eq_of_lt (show 2 ^ k - 1 < 2 ^ 32 by omega)]
  rfl

theorem sra32_eq (v s : Word) : sra32 v s = v.sshiftRight (s.toNat % 32) := by
  have hs := toNat_shamt s
  unfold sra32
  generalize s &&& 0x1F#32 = t at hs
  rw [← hs]
  have ht : t.toNat < 32 := by omega
  by_cases h0 : t = 0#32
  · simp [h0]
  have ht0 : t.toNat ≠ 0 := fun h => h0 (eq_of_toNat_eq h)
  have hsub : (32#32 - t).toNat = 32 - t.toNat := by
    rw [toNat_sub_of_le (by rw [le_def]; simp; omega)]
    rfl
  have hmask : 1#32 <<< (32#32 - t) - 1#32 = BitVec.ofNat 32 (2 ^ (32 - t.toNat) - 1) := by
    rw [shiftLeft_eq', hsub]
    exact one_shl_sub_one (by omega)
  simp only [if_neg h0, hmask]
  apply eq_of_getLsbD_eq
  intro i hi
  by_cases hm : v.msb = true
  · rw [if_pos ((sign_bit v).mpr hm)]
    simp only [getLsbD_or, ushiftRight_eq', getLsbD_ushiftRight,
      getLsbD_not, hi, getLsbD_ofNat, Nat.testBit_two_pow_sub_one,
      getLsbD_sshiftRight, hm]
    by_cases hlt : t.toNat + i < 32
    · simp [hlt, show i < 32 - t.toNat by omega]
      omega
    · simp [hlt, hi, show ¬ i < 32 - t.toNat by omega]
  · rw [if_neg (fun h => hm ((sign_bit v).mp h))]
    simp only [ushiftRight_eq', getLsbD_ushiftRight, getLsbD_sshiftRight, hm]
    by_cases hlt : t.toNat + i < 32
    · simp [hlt, hi]
    · simp [hlt, getLsbD_of_ge v (t.toNat + i) (by omega)]

/-! ## The M extension -/

theorem mul_eq (a b : Word) : a * b = BitVec.ofInt 32 (a.toInt * b.toInt) := by
  rw [ofInt_mul, ofInt_toInt, ofInt_toInt]

theorem high_eq {x : BitVec 64} {z : Int} (h : x = BitVec.ofInt 64 z) :
    (x >>> 32).setWidth 32 = BitVec.ofInt 32 (z / 2 ^ 32) := by
  apply eq_of_toNat_eq
  rw [toNat_setWidth, toNat_ushiftRight, h, toNat_ofInt, toNat_ofInt,
    Nat.shiftRight_eq_div_pow]
  omega

theorem signExtend64 (a : Word) : a.signExtend 64 = BitVec.ofInt 64 a.toInt := rfl

theorem setWidth64 (a : Word) : a.setWidth 64 = BitVec.ofInt 64 a.toNat := by
  apply eq_of_toNat_eq
  rw [toNat_setWidth, toNat_ofInt]
  have := a.isLt
  omega

theorem sdiv_eq (a b : Word) : a.sdiv b = BitVec.ofInt 32 (a.toInt.tdiv b.toInt) := by
  apply eq_of_toInt_eq
  rw [toInt_sdiv, toInt_ofInt]

theorem srem_eq (a b : Word) : a.srem b = BitVec.ofInt 32 (a.toInt.tmod b.toInt) := by
  rw [← toInt_srem, ofInt_toInt]

theorem udiv_eq (a b : Word) : a / b = BitVec.ofNat 32 (a.toNat / b.toNat) := by
  rw [← toNat_udiv, ofNat_toNat, setWidth_eq]

theorem umod_eq (a b : Word) : a % b = BitVec.ofNat 32 (a.toNat % b.toNat) := by
  rw [← toNat_umod, ofNat_toNat, setWidth_eq]

/-- The guard against overflow returns what the truncated quotient wraps to. -/
theorem sdiv_guard (a b : Word) :
    (if a = 0x80000000#32 ∧ b = 0xFFFFFFFF#32 then 0x80000000#32 else a.sdiv b) = a.sdiv b := by
  split
  · rename_i h
    rw [h.1, h.2]
    rfl
  · rfl

theorem srem_guard (a b : Word) :
    (if a = 0x80000000#32 ∧ b = 0xFFFFFFFF#32 then 0#32 else a.srem b) = a.srem b := by
  split
  · rename_i h
    rw [h.1, h.2]
    rfl
  · rfl

theorem mulhu_eq (a b : Word) :
    Rv32.MulOp.eval a b .mulhu = BitVec.ofInt 32 ((a.toNat : Int) * b.toNat / 2 ^ 32) := by
  show BitVec.ofNat 32 (a.toNat * b.toNat / 2 ^ 32) = _
  rw [← ofInt_natCast]
  rfl

theorem mulDivResult_eq (f3 : BitVec 3) (a b : Word) :
    mulDivResult (f3.setWidth 32) a b = some ((Rv32.mulOf f3).eval a b) := by
  obtain rfl | rfl | rfl | rfl | rfl | rfl | rfl | rfl := funct3_cases f3
  · exact congrArg some (mul_eq a b)
  · exact congrArg some (high_eq (by rw [signExtend64, signExtend64, ofInt_mul]))
  · exact congrArg some (high_eq (by rw [signExtend64, setWidth64, ofInt_mul]))
  · have h := high_eq (x := a.setWidth 64 * b.setWidth 64) (z := (a.toNat : Int) * b.toNat)
      (by rw [setWidth64, setWidth64, ofInt_mul])
    exact congrArg some (h.trans (mulhu_eq a b).symm)
  · show (if b = 0#32 then some 0xFFFFFFFF#32
      else if a = 0x80000000#32 ∧ b = 0xFFFFFFFF#32 then some 0x80000000#32
      else some (a.sdiv b)) = some (if b = 0#32 then _ else _)
    rw [← sdiv_eq, ← sdiv_guard]
    by_cases hb : b = 0#32
    · rw [if_pos hb, if_pos hb]
      rfl
    · rw [if_neg hb, if_neg hb]
      split <;> rfl
  · show (if b = 0#32 then some 0xFFFFFFFF#32 else some (a / b)) = some (if b = 0#32 then _ else _)
    rw [← udiv_eq]
    by_cases hb : b = 0#32
    · rw [if_pos hb, if_pos hb]
      rfl
    · rw [if_neg hb, if_neg hb]
  · show (if b = 0#32 then some a
      else if a = 0x80000000#32 ∧ b = 0xFFFFFFFF#32 then some 0#32
      else some (a.srem b)) = some (if b = 0#32 then _ else _)
    rw [← srem_eq, ← srem_guard]
    by_cases hb : b = 0#32
    · rw [if_pos hb, if_pos hb]
    · rw [if_neg hb, if_neg hb]
      split <;> rfl
  · show (if b = 0#32 then some a else some (a % b)) = some (if b = 0#32 then _ else _)
    rw [← umod_eq]
    by_cases hb : b = 0#32
    · rw [if_pos hb, if_pos hb]
    · rw [if_neg hb, if_neg hb]

/-! ## The base instructions -/

theorem ite_slt (a b : Word) :
    (if a.slt b then 1 else 0 : Word) = if a.toInt < b.toInt then 1 else 0 := by
  simp only [BitVec.slt, decide_eq_true_eq]

theorem ite_ult (a b : Word) :
    (if a.ult b then 1 else 0 : Word) = if a.toNat < b.toNat then 1 else 0 := by
  simp only [BitVec.ult, decide_eq_true_eq]

theorem sra_eq (a b : Word) :
    sra32 a (b &&& 0x1F#32) = BitVec.ofInt 32 (a.toInt / 2 ^ (b.toNat % 32)) := by
  rw [sra32_eq, toNat_shamt, Nat.mod_mod, sshiftRight_eq]

theorem shamt_and (s : BitVec 5) : s.setWidth 32 &&& 0x1F#32 = s.setWidth 32 := by
  apply eq_of_toNat_eq
  rw [toNat_shamt, toNat_setWidth]
  have := s.isLt
  omega

theorem opImmResult_eq (f3 : BitVec 3) (f7 : BitVec 7) (a imm : Word) (s : BitVec 5) :
    opImmResult (f3.setWidth 32) (f7.setWidth 32) a imm (s.setWidth 32) =
      (Rv32.aluImmOf f3 f7).map fun op =>
        op.eval a (if op.isShift then s.setWidth 32 else imm) := by
  have ht := shamt_and s
  generalize s.setWidth 32 = t at ht ⊢
  have hshl := shl_eq a t
  have hshr := shr_eq a t
  have hsra := sra_eq a t
  rw [ht] at hshl hshr hsra
  have hz : f7.setWidth 32 = 0x00#32 ↔ f7 = 0x00#7 := setWidth_inj (y := 0x00#7) (by omega)
  have ha : f7.setWidth 32 = 0x20#32 ↔ f7 = 0x20#7 := setWidth_inj (y := 0x20#7) (by omega)
  obtain rfl | rfl | rfl | rfl | rfl | rfl | rfl | rfl := funct3_cases f3
  · rfl
  · show (if f7.setWidth 32 ≠ 0x00#32 then none else some (a <<< t)) =
      (if f7 = 0x00#7 then some Rv32.AluOp.sll else none).map _
    rw [hshl]
    by_cases h : f7 = 0x00#7
    · rw [if_neg (not_not.mpr (hz.mpr h)), if_pos h]
      rfl
    · rw [if_pos (fun hc => h (hz.mp hc)), if_neg h]
      rfl
  · exact congrArg some (ite_slt a imm)
  · exact congrArg some (ite_ult a imm)
  · rfl
  · show (if f7.setWidth 32 = 0x00#32 then some (a >>> t)
      else if f7.setWidth 32 = 0x20#32 then some (sra32 a t) else none) =
      (if f7 = 0x00#7 then some Rv32.AluOp.srl
        else if f7 = 0x20#7 then some Rv32.AluOp.sra else none).map _
    simp only [hz, ha, hshr, hsra]
    by_cases h : f7 = 0x00#7
    · rw [if_pos h, if_pos h]
      rfl
    rw [if_neg h, if_neg h]
    by_cases h' : f7 = 0x20#7
    · rw [if_pos h', if_pos h']
      rfl
    · rw [if_neg h', if_neg h']
      rfl
  · rfl
  · rfl

theorem opResult_eq (f3 : BitVec 3) (f7 : BitVec 7) (a b : Word) :
    opResult (f3.setWidth 32) (f7.setWidth 32) a b = (Rv32.aluOf f3 f7).map (·.eval a b) := by
  have hz : f7.setWidth 32 = 0x00#32 ↔ f7 = 0x00#7 := setWidth_inj (y := 0x00#7) (by omega)
  have ha : f7.setWidth 32 = 0x20#32 ↔ f7 = 0x20#7 := setWidth_inj (y := 0x20#7) (by omega)
  by_cases h : f7 = 0x00#7
  · subst h
    obtain rfl | rfl | rfl | rfl | rfl | rfl | rfl | rfl := funct3_cases f3
    · rfl
    · exact congrArg some (shl_eq a b)
    · exact congrArg some (ite_slt a b)
    · exact congrArg some (ite_ult a b)
    · rfl
    · exact congrArg some (shr_eq a b)
    · rfl
    · rfl
  have hz' : f7.setWidth 32 ≠ 0x00#32 := fun hc => h (hz.mp hc)
  by_cases h' : f7 = 0x20#7
  · subst h'
    obtain rfl | rfl | rfl | rfl | rfl | rfl | rfl | rfl := funct3_cases f3
    case inr.inr.inr.inr.inr.inl => exact congrArg some (sra_eq a b)
    all_goals rfl
  · have ha' : f7.setWidth 32 ≠ 0x20#32 := fun hc => h' (ha.mp hc)
    obtain rfl | rfl | rfl | rfl | rfl | rfl | rfl | rfl := funct3_cases f3 <;>
      simp [opResult, Rv32.aluOf, h, h', hz', ha']

theorem branchTaken_eq (f3 : BitVec 3) (a b : Word) :
    branchTaken (f3.setWidth 32) a b = (Rv32.condOf f3).map (·.holds a b) := by
  obtain rfl | rfl | rfl | rfl | rfl | rfl | rfl | rfl := funct3_cases f3
  · rfl
  · refine congrArg some ?_
    show (!(a == b)) = decide (a ≠ b)
    by_cases h : a = b <;> simp [h]
  · rfl
  · rfl
  · rfl
  · refine congrArg some ?_
    show (!decide (a.toInt < b.toInt)) = decide (b.toInt ≤ a.toInt)
    rw [← decide_not]
    simp only [not_lt]
  · rfl
  · refine congrArg some ?_
    show (!decide (a.toNat < b.toNat)) = decide (b.toNat ≤ a.toNat)
    rw [← decide_not]
    simp only [not_lt]

end Microgarbage.Vm
