import Microgarbage.Lib.Rvc
import Microgarbage.Vm.Isa

/-!
# The compressed expander

`expandCompressed` re-encodes a parcel as a 32-bit word, which the switch then decodes again. The
two codecs are composed format by format: the encoders are concatenations of fields, decoding reads
the fields back, and immediates survive because they fit. `stepOnce_parcel_iff` is the result: the
interpreter executes a parcel as the manual says exactly when it is not one of two HINT families.
-/

namespace Microgarbage.Vm

open Lib BitVec

/-! ## Words from fields -/

def wordOf (f7 : BitVec 7) (rs2 rs1 : Reg) (f3 : BitVec 3) (rd : Reg) (op : BitVec 7) : Word :=
  f7 ++ rs2 ++ rs1 ++ f3 ++ rd ++ op

section Fields

variable (f7 : BitVec 7) (rs2 rs1 : Reg) (f3 : BitVec 3) (rd : Reg) (op : BitVec 7)

theorem toNat_wordOf :
    (wordOf f7 rs2 rs1 f3 rd op).toNat =
      f7.toNat * 2 ^ 25 + rs2.toNat * 2 ^ 20 + rs1.toNat * 2 ^ 15 + f3.toNat * 2 ^ 12 +
        rd.toNat * 2 ^ 7 + op.toNat := by
  unfold wordOf
  rw [toNat_append, toNat_append, toNat_append, toNat_append,
    toNat_append, ← Nat.shiftLeft_add_eq_or_of_lt rs2.isLt,
    ← Nat.shiftLeft_add_eq_or_of_lt rs1.isLt, ← Nat.shiftLeft_add_eq_or_of_lt f3.isLt,
    ← Nat.shiftLeft_add_eq_or_of_lt rd.isLt, ← Nat.shiftLeft_add_eq_or_of_lt op.isLt]
  simp only [Nat.shiftLeft_eq]
  omega

theorem fields_wordOf :
    Rv32.opcode (wordOf f7 rs2 rs1 f3 rd op) = op ∧ Rv32.rd (wordOf f7 rs2 rs1 f3 rd op) = rd ∧
      Rv32.funct3 (wordOf f7 rs2 rs1 f3 rd op) = f3 ∧
      Rv32.rs1 (wordOf f7 rs2 rs1 f3 rd op) = rs1 ∧
      Rv32.rs2 (wordOf f7 rs2 rs1 f3 rd op) = rs2 ∧
      Rv32.funct7 (wordOf f7 rs2 rs1 f3 rd op) = f7 := by
  have h1 := f7.isLt
  have h2 := rs2.isLt
  have h3 := rs1.isLt
  have h4 := f3.isLt
  have h5 := rd.isLt
  have h6 := op.isLt
  simp only [← toNat_inj, Rv32.opcode, Rv32.rd, Rv32.funct3, Rv32.rs1, Rv32.rs2,
    Rv32.funct7, extractLsb'_toNat, toNat_wordOf, Nat.shiftRight_eq_div_pow]
  omega

theorem immI_wordOf : Rv32.immI (wordOf f7 rs2 rs1 f3 rd op) = (f7 ++ rs2).signExtend 32 := by
  have h1 := f7.isLt
  have h2 := rs2.isLt
  have h3 := rs1.isLt
  have h4 := f3.isLt
  have h5 := rd.isLt
  have h6 := op.isLt
  refine congrArg (BitVec.signExtend 32) (eq_of_toNat_eq ?_)
  rw [toNat_append, ← Nat.shiftLeft_add_eq_or_of_lt h2, Nat.shiftLeft_eq]
  simp only [Rv32.imm12, extractLsb'_toNat, toNat_wordOf, Nat.shiftRight_eq_div_pow]
  omega

theorem immS_wordOf : Rv32.immS (wordOf f7 rs2 rs1 f3 rd op) = (f7 ++ rd).signExtend 32 := by
  obtain ⟨-, hrd, -, -, -, h7⟩ := fields_wordOf f7 rs2 rs1 f3 rd op
  unfold Rv32.rd at hrd
  unfold Rv32.funct7 at h7
  rw [Rv32.immS, hrd, h7]

variable (imm : Word)

theorem mkR_eq :
    mkR (f7.setWidth 32) (rs2.setWidth 32) (rs1.setWidth 32) (f3.setWidth 32) (rd.setWidth 32)
      (op.setWidth 32) = wordOf f7 rs2 rs1 f3 rd op := by
  apply eq_of_getLsbD_eq
  intro i hi
  simp only [mkR, wordOf, getLsbD_append]
  interval_cases i <;> simp [-getLsbD_eq_getElem]

theorem mkI_eq :
    mkI imm (rs1.setWidth 32) (f3.setWidth 32) (rd.setWidth 32) (op.setWidth 32) =
      wordOf (imm.extractLsb' 5 7) (imm.extractLsb' 0 5) rs1 f3 rd op := by
  apply eq_of_getLsbD_eq
  intro i hi
  simp only [mkI, wordOf, getLsbD_append]
  interval_cases i <;> simp [-getLsbD_eq_getElem]

theorem mkS_eq :
    mkS imm (rs2.setWidth 32) (rs1.setWidth 32) (f3.setWidth 32) (op.setWidth 32) =
      wordOf (imm.extractLsb' 5 7) rs2 rs1 f3 (imm.extractLsb' 0 5) op := by
  apply eq_of_getLsbD_eq
  intro i hi
  simp only [mkS, wordOf, getLsbD_append]
  interval_cases i <;> simp [-getLsbD_eq_getElem]

theorem mkB_eq :
    mkB imm (rs2.setWidth 32) (rs1.setWidth 32) (f3.setWidth 32) (op.setWidth 32) =
      wordOf (imm.extractLsb' 12 1 ++ imm.extractLsb' 5 6) rs2 rs1 f3
        (imm.extractLsb' 1 4 ++ imm.extractLsb' 11 1) op := by
  apply eq_of_getLsbD_eq
  intro i hi
  simp only [mkB, wordOf, getLsbD_append]
  interval_cases i <;> simp [-getLsbD_eq_getElem]

theorem mkU_eq :
    mkU imm (rd.setWidth 32) (op.setWidth 32) =
      wordOf (imm.extractLsb' 25 7) (imm.extractLsb' 20 5) (imm.extractLsb' 15 5)
        (imm.extractLsb' 12 3) rd op := by
  apply eq_of_getLsbD_eq
  intro i hi
  simp only [mkU, wordOf, getLsbD_append]
  interval_cases i <;> simp [-getLsbD_eq_getElem]

theorem mkJ_eq :
    mkJ imm (rd.setWidth 32) (op.setWidth 32) =
      wordOf (imm.extractLsb' 20 1 ++ imm.extractLsb' 5 6)
        (imm.extractLsb' 1 4 ++ imm.extractLsb' 11 1) (imm.extractLsb' 15 5)
        (imm.extractLsb' 12 3) rd op := by
  apply eq_of_getLsbD_eq
  intro i hi
  simp only [mkJ, wordOf, getLsbD_append]
  interval_cases i <;> simp [-getLsbD_eq_getElem]

end Fields

/-! ## Immediates that fit -/

/-- The word is the sign extension of its low `n` bits. -/
def Fits (n : Nat) (imm : Word) : Prop := (imm.setWidth n).signExtend 32 = imm

theorem fits_signExtend {k n : Nat} (hk : 0 < k) (hkn : k ≤ n) (hn : n ≤ 32) (x : BitVec k) :
    Fits n (x.signExtend 32) := by
  apply eq_of_getLsbD_eq
  intro i hi
  simp only [getLsbD_signExtend, getLsbD_setWidth, msb_eq_getLsbD_last, hi,
    decide_true, Bool.true_and]
  by_cases h : i < n
  · simp [h]
  · by_cases hnk : n = k
    · subst hnk
      simp [h, show n - 1 < n by omega, show n - 1 < 32 by omega]
    · simp [h, show ¬ i < k by omega, show ¬ n - 1 < k by omega, show n - 1 < n by omega,
        show n - 1 < 32 by omega]

theorem fits_setWidth {k n : Nat} (hkn : k < n) (hn : n ≤ 32) (x : BitVec k) :
    Fits n (x.setWidth 32) := by
  apply eq_of_getLsbD_eq
  intro i hi
  simp only [getLsbD_signExtend, getLsbD_setWidth, msb_eq_getLsbD_last, hi,
    decide_true, Bool.true_and]
  by_cases h : i < n
  · simp [h]
  · simp [h, getLsbD_of_ge x (n - 1) (by omega), getLsbD_of_ge x i (by omega)]

theorem slices12 (imm : Word) :
    imm.extractLsb' 5 7 ++ imm.extractLsb' 0 5 = imm.setWidth (7 + 5) := by
  apply eq_of_getLsbD_eq
  intro i hi
  simp only [getLsbD_append]
  interval_cases i <;> simp [-getLsbD_eq_getElem]

/-! ## Decoding what the expander encodes -/

section Decode

variable (rd rs1 rs2 : Reg) {imm : Word}

theorem liberalDecode_wordOf {f7 : BitVec 7} {f3 : BitVec 3} {op : BitVec 7}
    (h : op ≠ 0x73#7) (h' : op ≠ 0x0F#7) :
    liberalDecode (wordOf f7 rs2 rs1 f3 rd op) = Rv32.decode (wordOf f7 rs2 rs1 f3 rd op) := by
  have hop := (fields_wordOf f7 rs2 rs1 f3 rd op).1
  exact liberalDecode_of_opcode (by rwa [hop]) (by rwa [hop])

theorem decode_mkI_alu (f3 : BitVec 3) (op : Rv32.AluOp)
    (hop : ∀ f7, Rv32.aluImmOf f3 f7 = some op) (hs : op.isShift = false) (h : Fits 12 imm) :
    liberalDecode (mkI imm (rs1.setWidth 32) (f3.setWidth 32) (rd.setWidth 32)
      ((0x13#7).setWidth 32)) = some (.opImm op rd rs1 imm) := by
  rw [mkI_eq, liberalDecode_wordOf _ _ _ (by decide) (by decide)]
  obtain ⟨h1, h2, h3, h4, -, h6⟩ := fields_wordOf (imm.extractLsb' 5 7) (imm.extractLsb' 0 5) rs1
    f3 rd 0x13#7
  simp only [Rv32.decode, h1, h2, h3, h4, h6, hop, immI_wordOf, slices12, Option.map_some, hs]
  exact congrArg (fun v => some (Rv32.Instr.opImm op rd rs1 v)) h

theorem decode_mkI_shift (f3 : BitVec 3) (f7 : BitVec 7) (op : Rv32.AluOp) (s : BitVec 5)
    (hop : Rv32.aluImmOf f3 f7 = some op) (hs : op.isShift = true) :
    liberalDecode (mkI (f7.setWidth 32 <<< 5 ||| s.setWidth 32) (rs1.setWidth 32)
      (f3.setWidth 32) (rd.setWidth 32) ((0x13#7).setWidth 32)) =
      some (.opImm op rd rs1 (s.setWidth 32)) := by
  have e1 : (f7.setWidth 32 <<< 5 ||| s.setWidth 32 : Word).extractLsb' 5 7 = f7 := by
    apply eq_of_getLsbD_eq
    intro i hi
    interval_cases i <;> simp [-getLsbD_eq_getElem]
  have e2 : (f7.setWidth 32 <<< 5 ||| s.setWidth 32 : Word).extractLsb' 0 5 = s := by
    apply eq_of_getLsbD_eq
    intro i hi
    interval_cases i <;> simp [-getLsbD_eq_getElem]
  rw [mkI_eq, liberalDecode_wordOf _ _ _ (by decide) (by decide), e1, e2]
  obtain ⟨h1, h2, h3, h4, h5, h6⟩ := fields_wordOf f7 s rs1 f3 rd 0x13#7
  simp only [Rv32.decode, h1, h2, h3, h4, h5, h6, hop, Rv32.shamt, Option.map_some, hs]
  rfl

theorem decode_mkI_lw (h : Fits 12 imm) :
    liberalDecode (mkI imm (rs1.setWidth 32) ((2#3).setWidth 32) (rd.setWidth 32)
      ((0x03#7).setWidth 32)) = some (.load .word true rd rs1 imm) := by
  rw [mkI_eq, liberalDecode_wordOf _ _ _ (by decide) (by decide)]
  obtain ⟨h1, h2, h3, h4, -, -⟩ := fields_wordOf (imm.extractLsb' 5 7) (imm.extractLsb' 0 5) rs1
    2#3 rd 0x03#7
  simp only [Rv32.decode, h1, h2, h3, h4, immI_wordOf, slices12]
  exact congrArg (fun v => some (Rv32.Instr.load .word true rd rs1 v)) h

theorem decode_mkI_jalr (h : Fits 12 imm) :
    liberalDecode (mkI imm (rs1.setWidth 32) ((0#3).setWidth 32) (rd.setWidth 32)
      ((0x67#7).setWidth 32)) = some (.jalr rd rs1 imm) := by
  rw [mkI_eq, liberalDecode_wordOf _ _ _ (by decide) (by decide)]
  obtain ⟨h1, h2, h3, h4, -, -⟩ := fields_wordOf (imm.extractLsb' 5 7) (imm.extractLsb' 0 5) rs1
    0#3 rd 0x67#7
  simp only [Rv32.decode, h1, h2, h3, h4, immI_wordOf, slices12]
  exact congrArg (fun v => some (Rv32.Instr.jalr rd rs1 v)) h

theorem decode_mkS_sw (h : Fits 12 imm) :
    liberalDecode (mkS imm (rs2.setWidth 32) (rs1.setWidth 32) ((2#3).setWidth 32)
      ((0x23#7).setWidth 32)) = some (.store .word rs1 rs2 imm) := by
  rw [mkS_eq, liberalDecode_wordOf _ _ _ (by decide) (by decide)]
  obtain ⟨h1, -, h3, h4, h5, -⟩ := fields_wordOf (imm.extractLsb' 5 7) rs2 rs1 2#3
    (imm.extractLsb' 0 5) 0x23#7
  simp only [Rv32.decode, h1, h3, h4, h5, immS_wordOf, slices12]
  exact congrArg (fun v => some (Rv32.Instr.store .word rs1 rs2 v)) h

theorem decode_mkR (f3 : BitVec 3) (f7 : BitVec 7) (op : Rv32.AluOp)
    (hop : Rv32.aluOf f3 f7 = some op) (hne : f7 ≠ 0x01#7) :
    liberalDecode (mkR (f7.setWidth 32) (rs2.setWidth 32) (rs1.setWidth 32) (f3.setWidth 32)
      (rd.setWidth 32) ((0x33#7).setWidth 32)) = some (.op op rd rs1 rs2) := by
  rw [mkR_eq, liberalDecode_wordOf _ _ _ (by decide) (by decide)]
  obtain ⟨h1, h2, h3, h4, h5, h6⟩ := fields_wordOf f7 rs2 rs1 f3 rd 0x33#7
  simp only [Rv32.decode, h1, h2, h3, h4, h5, h6, hop, hne, ↓reduceIte, Option.map_some]

theorem decode_mkB (f3 : BitVec 3) (cond : Rv32.Cond) (hc : Rv32.condOf f3 = some cond)
    (h : Fits 13 imm) (h0 : imm.getLsbD 0 = false) :
    liberalDecode (mkB imm (rs2.setWidth 32) (rs1.setWidth 32) (f3.setWidth 32)
      ((0x63#7).setWidth 32)) = some (.branch cond rs1 rs2 imm) := by
  have himm : Rv32.immB (wordOf (imm.extractLsb' 12 1 ++ imm.extractLsb' 5 6) rs2 rs1 f3
      (imm.extractLsb' 1 4 ++ imm.extractLsb' 11 1) 0x63#7) = imm := by
    refine Eq.trans (congrArg (BitVec.signExtend 32) ?_) h
    apply eq_of_getLsbD_eq (w := 1 + 1 + 6 + 4 + 1)
    intro i hi
    simp only [wordOf, getLsbD_append, getLsbD_extractLsb']
    interval_cases i <;> simp [h0, -getLsbD_eq_getElem]
  rw [mkB_eq, liberalDecode_wordOf _ _ _ (by decide) (by decide)]
  obtain ⟨h1, -, h3, h4, h5, -⟩ := fields_wordOf (imm.extractLsb' 12 1 ++ imm.extractLsb' 5 6) rs2
    rs1 f3 (imm.extractLsb' 1 4 ++ imm.extractLsb' 11 1) 0x63#7
  simp only [Rv32.decode, h1, h3, h4, h5, hc, himm, Option.map_some]

theorem decode_mkJ (h : Fits 21 imm) (h0 : imm.getLsbD 0 = false) :
    liberalDecode (mkJ imm (rd.setWidth 32) ((0x6F#7).setWidth 32)) = some (.jal rd imm) := by
  have himm : Rv32.immJ (wordOf (imm.extractLsb' 20 1 ++ imm.extractLsb' 5 6)
      (imm.extractLsb' 1 4 ++ imm.extractLsb' 11 1) (imm.extractLsb' 15 5)
      (imm.extractLsb' 12 3) rd 0x6F#7) = imm := by
    refine Eq.trans (congrArg (BitVec.signExtend 32) ?_) h
    apply eq_of_getLsbD_eq (w := 1 + 8 + 1 + 10 + 1)
    intro i hi
    simp only [wordOf, getLsbD_append, getLsbD_extractLsb']
    interval_cases i <;> simp [h0, -getLsbD_eq_getElem]
  rw [mkJ_eq, liberalDecode_wordOf _ _ _ (by decide) (by decide)]
  obtain ⟨h1, h2, -, -, -, -⟩ := fields_wordOf (imm.extractLsb' 20 1 ++ imm.extractLsb' 5 6)
    (imm.extractLsb' 1 4 ++ imm.extractLsb' 11 1) (imm.extractLsb' 15 5) (imm.extractLsb' 12 3) rd
    0x6F#7
  simp only [Rv32.decode, h1, h2, himm]

theorem decode_mkU (h0 : imm.extractLsb' 0 12 = 0#12) :
    liberalDecode (mkU imm (rd.setWidth 32) ((0x37#7).setWidth 32)) = some (.lui rd imm) := by
  have himm : Rv32.immU (wordOf (imm.extractLsb' 25 7) (imm.extractLsb' 20 5)
      (imm.extractLsb' 15 5) (imm.extractLsb' 12 3) rd 0x37#7) = imm := by
    have hb : ∀ i < 12, imm.getLsbD i = false := by
      intro i hi
      have := congrArg (BitVec.getLsbD · i) h0
      simpa [hi, -getLsbD_eq_getElem] using this
    unfold Rv32.immU
    apply eq_of_getLsbD_eq (w := 20 + 12)
    intro i hi
    simp only [wordOf, getLsbD_append, getLsbD_extractLsb']
    by_cases hlt : i < 12
    · simp [hlt, hb i hlt, -getLsbD_eq_getElem]
    · interval_cases i <;> simp [-getLsbD_eq_getElem] at hlt ⊢
  rw [mkU_eq, liberalDecode_wordOf _ _ _ (by decide) (by decide)]
  obtain ⟨h1, h2, -, -, -, -⟩ := fields_wordOf (imm.extractLsb' 25 7) (imm.extractLsb' 20 5)
    (imm.extractLsb' 15 5) (imm.extractLsb' 12 3) rd 0x37#7
  simp only [Rv32.decode, h1, h2, himm]

end Decode

/-! ## Fields and immediates of a parcel -/

section Parcel

variable (c : BitVec 16)

theorem parcel_field {s n : Nat} (h : s + n ≤ 32) :
    c.setWidth 32 >>> s &&& BitVec.ofNat 32 (2 ^ n - 1) = (c.extractLsb' s n).setWidth 32 := by
  rw [mask_field, extractLsb'_setWidth_of_le h]

theorem parcel_rd : c.setWidth 32 >>> 7 &&& 0x1F#32 = (Rvc.rd c).setWidth 32 :=
  parcel_field c (n := 5) (by omega)

theorem parcel_rs2 : c.setWidth 32 >>> 2 &&& 0x1F#32 = (Rvc.rs2 c).setWidth 32 :=
  parcel_field c (n := 5) (by omega)

theorem parcel_funct3 : c.setWidth 32 >>> 13 &&& 0x7#32 = (Rvc.funct3 c).setWidth 32 :=
  parcel_field c (n := 3) (by omega)

theorem parcel_bit12 : c.setWidth 32 >>> 12 &&& 0x1#32 = (c.extractLsb' 12 1).setWidth 32 :=
  parcel_field c (n := 1) (by omega)

theorem creg_eq (x : BitVec 3) : creg (x.setWidth 32) = (1#2 ++ x).setWidth 32 := by
  revert x
  decide

theorem parcel_rdLow : creg (c.setWidth 32 >>> 2 &&& 0x7#32) = (Rvc.rdLow c).setWidth 32 :=
  (congrArg creg (parcel_field c (n := 3) (by omega))).trans (creg_eq _)

theorem parcel_rdHigh : creg (c.setWidth 32 >>> 7 &&& 0x7#32) = (Rvc.rdHigh c).setWidth 32 :=
  (congrArg creg (parcel_field c (n := 3) (by omega))).trans (creg_eq _)

theorem imm4spn_eq :
    (c.setWidth 32 >>> 11 &&& 0x3#32) <<< 4 ||| (c.setWidth 32 >>> 7 &&& 0xF#32) <<< 6 |||
      (c.setWidth 32 >>> 6 &&& 0x1#32) <<< 2 ||| (c.setWidth 32 >>> 5 &&& 0x1#32) <<< 3 =
      (Rvc.imm4spn c).setWidth 32 := by
  apply eq_of_getLsbD_eq
  intro i hi
  simp only [Rvc.imm4spn, getLsbD_append, getLsbD_setWidth]
  interval_cases i <;> simp [-getLsbD_eq_getElem]

theorem clwImm_eq : clwImm (c.setWidth 32) = (Rvc.immLw c).setWidth 32 := by
  apply eq_of_getLsbD_eq
  intro i hi
  simp only [clwImm, Rvc.immLw, getLsbD_append, getLsbD_setWidth]
  interval_cases i <;> simp [-getLsbD_eq_getElem]

theorem ciImm_eq : ciImm (c.setWidth 32) = (Rvc.immCi c).setWidth 32 := by
  apply eq_of_getLsbD_eq
  intro i hi
  simp only [ciImm, Rvc.immCi, getLsbD_append, getLsbD_setWidth]
  interval_cases i <;> simp [-getLsbD_eq_getElem]

theorem cjImm_eq : cjImm (c.setWidth 32) = (Rvc.immJ c).setWidth 32 := by
  apply eq_of_getLsbD_eq
  intro i hi
  simp only [cjImm, Rvc.immJ, getLsbD_append, getLsbD_setWidth]
  interval_cases i <;> simp [-getLsbD_eq_getElem]

theorem imm16sp_eq :
    (c.setWidth 32 >>> 12 &&& 0x1#32) <<< 9 ||| (c.setWidth 32 >>> 6 &&& 0x1#32) <<< 4 |||
      (c.setWidth 32 >>> 5 &&& 0x1#32) <<< 6 ||| (c.setWidth 32 >>> 3 &&& 0x3#32) <<< 7 |||
      (c.setWidth 32 >>> 2 &&& 0x1#32) <<< 5 = (Rvc.imm16sp c).setWidth 32 := by
  apply eq_of_getLsbD_eq
  intro i hi
  simp only [Rvc.imm16sp, getLsbD_append, getLsbD_setWidth]
  interval_cases i <;> simp [-getLsbD_eq_getElem]

theorem immLui_eq :
    (c.setWidth 32 >>> 12 &&& 0x1#32) <<< 17 ||| (c.setWidth 32 >>> 2 &&& 0x1F#32) <<< 12 =
      (Rvc.immLui c).setWidth 32 := by
  apply eq_of_getLsbD_eq
  intro i hi
  simp only [Rvc.immLui, getLsbD_append, getLsbD_setWidth]
  interval_cases i <;> simp [-getLsbD_eq_getElem]

theorem cbImm_eq :
    (c.setWidth 32 >>> 12 &&& 0x1#32) <<< 8 ||| (c.setWidth 32 >>> 10 &&& 0x3#32) <<< 3 |||
      (c.setWidth 32 >>> 5 &&& 0x3#32) <<< 6 ||| (c.setWidth 32 >>> 3 &&& 0x3#32) <<< 1 |||
      (c.setWidth 32 >>> 2 &&& 0x1#32) <<< 5 = (Rvc.immB c).setWidth 32 := by
  apply eq_of_getLsbD_eq
  intro i hi
  simp only [Rvc.immB, getLsbD_append, getLsbD_setWidth]
  interval_cases i <;> simp [-getLsbD_eq_getElem]

theorem clwspImm_eq :
    (c.setWidth 32 >>> 12 &&& 0x1#32) <<< 5 ||| (c.setWidth 32 >>> 4 &&& 0x7#32) <<< 2 |||
      (c.setWidth 32 >>> 2 &&& 0x3#32) <<< 6 = (Rvc.immLwsp c).setWidth 32 := by
  apply eq_of_getLsbD_eq
  intro i hi
  simp only [Rvc.immLwsp, getLsbD_append, getLsbD_setWidth]
  interval_cases i <;> simp [-getLsbD_eq_getElem]

theorem cswspImm_eq :
    (c.setWidth 32 >>> 9 &&& 0xF#32) <<< 2 ||| (c.setWidth 32 >>> 7 &&& 0x3#32) <<< 6 =
      (Rvc.immSwsp c).setWidth 32 := by
  apply eq_of_getLsbD_eq
  intro i hi
  simp only [Rvc.immSwsp, getLsbD_append, getLsbD_setWidth]
  interval_cases i <;> simp [-getLsbD_eq_getElem]

theorem signExtend_field {n : Nat} (hn : 0 < n) (hn' : n ≤ 32) (x : BitVec n) :
    signExtend (x.setWidth 32) n = x.signExtend 32 := by
  rw [signExtend, shl_sshiftRight _ n hn hn', setWidth_setWidth_of_le x hn',
    setWidth_eq]

theorem widen_eq_zero {n : Nat} (hn : n ≤ 32) {x : BitVec n} :
    x.setWidth 32 = 0#32 ↔ x = 0#n := by
  have h := setWidth_inj (w := 32) hn (x := x) (y := 0#n)
  rwa [setWidth_zero] at h

end Parcel

/-! ## The two rejected families -/

/-- C.LUI into `x0`, which the manual makes a HINT and the expander rejects. -/
def LuiHint (c : BitVec 16) : Prop :=
  Rvc.quadrant c = 1#2 ∧ Rvc.funct3 c = 3#3 ∧ Rvc.rd c = 0#5 ∧ Rvc.immLui c ≠ 0#18

/-- C.ADD into `x0`, likewise. -/
def AddHint (c : BitVec 16) : Prop :=
  Rvc.quadrant c = 2#2 ∧ Rvc.funct3 c = 4#3 ∧ c.extractLsb' 12 1 = 1#1 ∧ Rvc.rd c = 0#5 ∧
    Rvc.rs2 c ≠ 0#5

def RejectedHint (c : BitVec 16) : Prop := LuiHint c ∨ AddHint c

/-! ## The expander against the manual -/

/-- The word is an encoding of the instruction, or zero when there is none. -/
def Expands (w : Word) : Option Rv32.Instr → Prop
  | some i => liberalDecode w = some i
  | none => w = 0#32

theorem expands_ite {p : Prop} [Decidable p] {w w' : Word} {i i' : Option Rv32.Instr}
    (h : p → Expands w i) (h' : ¬p → Expands w' i') :
    Expands (if p then w else w') (if p then i else i') := by
  by_cases hp : p
  · simpa [hp] using h hp
  · simpa [hp] using h' hp

theorem pair_cases (x : BitVec 2) : x = 0#2 ∨ x = 1#2 ∨ x = 2#2 ∨ x = 3#2 := by
  revert x
  decide

theorem expandQuadrant0_spec (c : BitVec 16) :
    Expands (expandQuadrant0 (c.setWidth 32)) (Rvc.decode0 c) := by
  unfold expandQuadrant0 Rvc.decode0
  simp only [parcel_funct3, parcel_rdLow, parcel_rdHigh, imm4spn_eq, clwImm_eq,
    widen_eq_zero (show 10 ≤ 32 by omega)]
  obtain h | h | h | h | h | h | h | h := funct3_cases (Rvc.funct3 c) <;> rw [h]
  · exact expands_ite (fun _ => rfl) fun _ => decode_mkI_alu (Rvc.rdLow c) 2 0#3 .add
      (fun _ => rfl) rfl (fits_setWidth (by omega) (by omega) _)
  · rfl
  · exact decode_mkI_lw _ _ (fits_setWidth (by omega) (by omega) _)
  · rfl
  · rfl
  · rfl
  · exact decode_mkS_sw _ _ (fits_setWidth (by omega) (by omega) _)
  · rfl

theorem expandLui_spec {c : BitVec 16} (h : ¬ (Rvc.rd c = 0#5 ∧ Rvc.immLui c ≠ 0#18)) :
    Expands (expandLui (c.setWidth 32)) (Rvc.decodeLui c) := by
  have h0 : (Rvc.rd c).setWidth 32 = 0#32 ↔ Rvc.rd c = 0#5 := setWidth_inj (y := 0#5) (by omega)
  have h2 : (Rvc.rd c).setWidth 32 = 2#32 ↔ Rvc.rd c = 2#5 := setWidth_inj (y := 2#5) (by omega)
  unfold expandLui Rvc.decodeLui
  simp only [parcel_rd, imm16sp_eq, immLui_eq, h0, h2, widen_eq_zero (show 10 ≤ 32 by omega),
    widen_eq_zero (show 18 ≤ 32 by omega), signExtend_field (show 0 < 10 by omega) (by omega),
    signExtend_field (show 0 < 18 by omega) (by omega)]
  by_cases hz : Rvc.rd c = 0#5
  · have hi : Rvc.immLui c = 0#18 := by
      by_contra hne
      exact h ⟨hz, hne⟩
    rw [if_pos hz, if_neg (by rw [hz]; decide), if_pos hi]
    rfl
  rw [if_neg hz]
  refine expands_ite (fun _ => expands_ite (fun _ => rfl) fun _ => ?_) fun _ =>
    expands_ite (fun _ => rfl) fun _ => decode_mkU _ ?_
  · exact decode_mkI_alu 2 2 0#3 .add (fun _ => rfl) rfl
      (fits_signExtend (by omega) (by omega) (by omega) _)
  · apply eq_of_getLsbD_eq
    intro i hi
    simp only [Rvc.immLui, getLsbD_extractLsb', getLsbD_signExtend,
      getLsbD_append]
    interval_cases i <;> simp [-getLsbD_eq_getElem]

theorem expandMiscAlu_spec (c : BitVec 16) :
    Expands (expandMiscAlu (c.setWidth 32)) (Rvc.decodeAlu c) := by
  have hsub : c.setWidth 32 >>> 10 &&& 0x3#32 = (c.extractLsb' 10 2).setWidth 32 :=
    parcel_field c (n := 2) (by omega)
  have hop : c.setWidth 32 >>> 5 &&& 0x3#32 = (c.extractLsb' 5 2).setWidth 32 :=
    parcel_field c (n := 2) (by omega)
  unfold expandMiscAlu Rvc.decodeAlu
  simp only [hsub, hop, parcel_bit12, parcel_rs2, parcel_rdLow, parcel_rdHigh, ciImm_eq,
    signExtend_field (show 0 < 6 by omega) (by omega)]
  obtain h | h | h | h := pair_cases (c.extractLsb' 10 2) <;> rw [h]
  · obtain hb | hb := eq_zero_or_eq_one (c.extractLsb' 12 1) <;> rw [hb]
    · exact decode_mkI_shift (Rvc.rdHigh c) (Rvc.rdHigh c) 5#3 0x00#7 .srl (Rvc.rs2 c) rfl rfl
    · rfl
  · obtain hb | hb := eq_zero_or_eq_one (c.extractLsb' 12 1) <;> rw [hb]
    · exact decode_mkI_shift (Rvc.rdHigh c) (Rvc.rdHigh c) 5#3 0x20#7 .sra (Rvc.rs2 c) rfl rfl
    · rfl
  · exact decode_mkI_alu (Rvc.rdHigh c) (Rvc.rdHigh c) 7#3 .and (fun _ => rfl) rfl
      (fits_signExtend (by omega) (by omega) (by omega) _)
  · obtain hb | hb := eq_zero_or_eq_one (c.extractLsb' 12 1) <;> rw [hb]
    · obtain ho | ho | ho | ho := pair_cases (c.extractLsb' 5 2) <;> rw [ho]
      · exact decode_mkR _ _ _ 0#3 0x20#7 .sub rfl (by decide)
      · exact decode_mkR _ _ _ 4#3 0x00#7 .xor rfl (by decide)
      · exact decode_mkR _ _ _ 6#3 0x00#7 .or rfl (by decide)
      · exact decode_mkR _ _ _ 7#3 0x00#7 .and rfl (by decide)
    · rfl

theorem immJ_even (c : BitVec 16) : ((Rvc.immJ c).signExtend 32).getLsbD 0 = false := by
  simp only [Rvc.immJ, getLsbD_signExtend, getLsbD_append]
  simp

theorem immB_even (c : BitVec 16) : ((Rvc.immB c).signExtend 32).getLsbD 0 = false := by
  simp only [Rvc.immB, getLsbD_signExtend, getLsbD_append]
  simp

theorem expandQuadrant1_spec {c : BitVec 16} (hq : Rvc.quadrant c = 1#2) (hl : ¬ LuiHint c) :
    Expands (expandQuadrant1 (c.setWidth 32)) (Rvc.decode1 c) := by
  unfold expandQuadrant1 Rvc.decode1
  simp only [parcel_funct3, parcel_rd, parcel_rdHigh, ciImm_eq, cjImm_eq, cbImm_eq,
    signExtend_field (show 0 < 6 by omega) (by omega),
    signExtend_field (show 0 < 9 by omega) (by omega),
    signExtend_field (show 0 < 12 by omega) (by omega)]
  obtain h | h | h | h | h | h | h | h := funct3_cases (Rvc.funct3 c) <;> rw [h]
  · exact decode_mkI_alu (Rvc.rd c) (Rvc.rd c) 0#3 .add (fun _ => rfl) rfl
      (fits_signExtend (by omega) (by omega) (by omega) _)
  · exact decode_mkJ 1 (fits_signExtend (by omega) (by omega) (by omega) _) (immJ_even c)
  · exact decode_mkI_alu (Rvc.rd c) 0 0#3 .add (fun _ => rfl) rfl
      (fits_signExtend (by omega) (by omega) (by omega) _)
  · exact expandLui_spec fun hc => hl ⟨hq, h, hc⟩
  · exact expandMiscAlu_spec c
  · exact decode_mkJ 0 (fits_signExtend (by omega) (by omega) (by omega) _) (immJ_even c)
  · exact decode_mkB _ 0 0#3 .eq rfl (fits_signExtend (by omega) (by omega) (by omega) _)
      (immB_even c)
  · exact decode_mkB _ 0 1#3 .ne rfl (fits_signExtend (by omega) (by omega) (by omega) _)
      (immB_even c)

theorem expandJrMvAdd_spec {c : BitVec 16}
    (h : ¬ (c.extractLsb' 12 1 = 1#1 ∧ Rvc.rd c = 0#5 ∧ Rvc.rs2 c ≠ 0#5)) :
    Expands (expandJrMvAdd (c.setWidth 32)) (Rvc.decodeJrMvAdd c) := by
  unfold expandJrMvAdd Rvc.decodeJrMvAdd
  simp only [parcel_rd, parcel_rs2, parcel_bit12, widen_eq_zero (show 5 ≤ 32 by omega),
    widen_eq_zero (show 1 ≤ 32 by omega)]
  have hzero : Fits 12 0 := fits_setWidth (show 1 < 12 by omega) (by omega) 0#1
  have hjalr := fun rd => decode_mkI_jalr rd (Rvc.rd c) hzero
  refine expands_ite (fun _ => expands_ite (fun _ => ?_) fun _ => ?_) fun hb => ?_
  · exact expands_ite (fun _ => rfl) fun _ => hjalr 0
  · exact decode_mkR _ 0 _ 0#3 0x00#7 .add rfl (by decide)
  have hb1 : c.extractLsb' 12 1 = 1#1 := (eq_zero_or_eq_one _).resolve_left hb
  by_cases hs : Rvc.rs2 c = 0#5
  · by_cases hd : Rvc.rd c = 0#5
    · rw [if_pos ⟨hd, hs⟩, if_pos hs, if_pos hd]
      rfl
    · rw [if_neg (fun hc => hd hc.1), if_pos hs, if_pos hs, if_neg hd]
      exact hjalr 1
  · have hd : Rvc.rd c ≠ 0#5 := fun hd => h ⟨hb1, hd, hs⟩
    rw [if_neg (fun hc => hs hc.2), if_neg hs, if_neg hd, if_neg hs]
    exact decode_mkR _ _ _ 0#3 0x00#7 .add rfl (by decide)

theorem expandQuadrant2_spec {c : BitVec 16} (hq : Rvc.quadrant c = 2#2) (ha : ¬ AddHint c) :
    Expands (expandQuadrant2 (c.setWidth 32)) (Rvc.decode2 c) := by
  unfold expandQuadrant2 Rvc.decode2
  simp only [clwspImm_eq, cswspImm_eq]
  simp only [parcel_funct3, parcel_rd, parcel_rs2, parcel_bit12,
    widen_eq_zero (show 5 ≤ 32 by omega)]
  obtain h | h | h | h | h | h | h | h := funct3_cases (Rvc.funct3 c) <;> rw [h]
  · obtain hb | hb := eq_zero_or_eq_one (c.extractLsb' 12 1) <;> rw [hb]
    · have hs := decode_mkI_shift (Rvc.rd c) (Rvc.rd c) 1#3 0x00#7 .sll (Rvc.rs2 c) rfl rfl
      rw [show (0x00#7).setWidth 32 <<< 5 ||| (Rvc.rs2 c).setWidth 32 =
        (Rvc.rs2 c).setWidth 32 from zero_or] at hs
      exact hs
    · rfl
  · rfl
  · exact expands_ite (fun _ => rfl) fun _ => decode_mkI_lw _ 2
      (fits_setWidth (by omega) (by omega) _)
  · rfl
  · exact expandJrMvAdd_spec fun hc => ha ⟨hq, h, hc⟩
  · rfl
  · exact decode_mkS_sw 2 _ (fits_setWidth (by omega) (by omega) _)
  · rfl

theorem parcel_quadrant (c : BitVec 16) :
    c.setWidth 32 &&& 0x3#32 = (Rvc.quadrant c).setWidth 32 := by
  have := parcel_field c (s := 0) (n := 2) (by omega)
  rwa [ushiftRight_zero] at this

theorem expandCompressed_spec {c : BitVec 16} (hs : Rvc.quadrant c ≠ 3#2)
    (h : ¬ RejectedHint c) : Expands (expandCompressed c) (Rvc.decode c) := by
  unfold expandCompressed Rvc.decode
  simp only [parcel_quadrant]
  obtain h0 | h1 | h2 | h3 := pair_cases (Rvc.quadrant c)
  · rw [h0]
    exact expandQuadrant0_spec c
  · have := expandQuadrant1_spec h1 (fun hl => h (.inl hl))
    rw [h1]
    exact this
  · have := expandQuadrant2_spec h2 (fun ha => h (.inr ha))
    rw [h2]
    exact this
  · exact absurd h3 hs

theorem expandCompressed_hint {c : BitVec 16} (h : RejectedHint c) : expandCompressed c = 0#32 := by
  unfold expandCompressed
  simp only [parcel_quadrant]
  rcases h with ⟨h1, h3, hd, -⟩ | ⟨h2, h4, hb, hd, hs⟩
  · rw [h1]
    show expandQuadrant1 (c.setWidth 32) = 0#32
    unfold expandQuadrant1
    simp only [parcel_funct3, h3]
    show expandLui (c.setWidth 32) = 0#32
    unfold expandLui
    rw [parcel_rd, hd]
    rfl
  · rw [h2]
    show expandQuadrant2 (c.setWidth 32) = 0#32
    unfold expandQuadrant2
    simp only [parcel_funct3, h4]
    show expandJrMvAdd (c.setWidth 32) = 0#32
    unfold expandJrMvAdd
    simp only [parcel_rd, parcel_rs2, parcel_bit12, hd, hb]
    have hs' : ¬ (Rvc.rs2 c).setWidth 32 = 0#32 := fun hc => hs ((widen_eq_zero (by omega)).mp hc)
    simp [hs']

theorem hint_decodes {c : BitVec 16} (h : RejectedHint c) :
    Rvc.decode c = some (.lui (Rvc.rd c) ((Rvc.immLui c).signExtend 32)) ∨
      Rvc.decode c = some (.op .add (Rvc.rd c) (Rvc.rd c) (Rvc.rs2 c)) := by
  rcases h with ⟨h1, h3, hd, hi⟩ | ⟨h2, h4, hb, hd, hs⟩
  · refine .inl ?_
    unfold Rvc.decode Rvc.decode1 Rvc.decodeLui
    rw [h1, h3, if_neg (by rw [hd]; decide), if_neg hi]
    rfl
  · refine .inr ?_
    unfold Rvc.decode Rvc.decode2
    rw [h2, h4]
    show Rvc.decodeJrMvAdd c = _
    unfold Rvc.decodeJrMvAdd
    rw [if_neg (by rw [hb]; decide), if_neg hs]

theorem decode_ebreak {c : BitVec 16} (h : Rvc.decode c = some .ebreak) : c = 0x9002#16 := by
  have hlui : Rvc.decodeLui c ≠ some .ebreak := by
    unfold Rvc.decodeLui
    split <;> split <;> simp
  have halu : Rvc.decodeAlu c ≠ some .ebreak := by
    unfold Rvc.decodeAlu
    split
    · split <;> simp
    · split <;> simp
    · simp
    · split
      · split <;> simp
      · simp
  have h0 : Rvc.decode0 c ≠ some .ebreak := by
    unfold Rvc.decode0
    split
    · split <;> simp
    all_goals simp
  have h1 : Rvc.decode1 c ≠ some .ebreak := by
    unfold Rvc.decode1
    split
    · simp
    · simp
    · simp
    · exact hlui
    · exact halu
    all_goals simp
  obtain hq | hq | hq | hq := pair_cases (Rvc.quadrant c) <;> unfold Rvc.decode at h <;> rw [hq] at h
  · exact absurd h h0
  · exact absurd h h1
  · have h : Rvc.decode2 c = some .ebreak := h
    unfold Rvc.decode2 at h
    split at h
    · split at h <;> simp at h
    · split at h <;> simp at h
    · rename_i hf
      unfold Rvc.decodeJrMvAdd at h
      split at h
      · split at h
        · split at h <;> simp at h
        · simp at h
      · rename_i hb
        have hb := (eq_zero_or_eq_one _).resolve_left hb
        split at h
        · rename_i hs
          split at h
          · rename_i hd
            have e1 := congrArg BitVec.toNat hq
            have e2 := congrArg BitVec.toNat hf
            have e3 := congrArg BitVec.toNat hb
            have e4 := congrArg BitVec.toNat hs
            have e5 := congrArg BitVec.toNat hd
            have := c.isLt
            apply eq_of_toNat_eq
            simp only [Rvc.quadrant, Rvc.funct3, Rvc.rs2, Rvc.rd, extractLsb'_toNat,
              Nat.shiftRight_eq_div_pow, toNat_ofNat] at *
            omega
          · simp at h
        · simp at h
    · simp at h
    · simp at h
  · cases h

/-! ## One step at a parcel -/

/-- What the manual says about the parcel at `pc`: its 32-bit instruction with length 2, or an
illegal-instruction trap. The only word an instruction reports is the expansion of C.EBREAK. -/
def rvcStep (m : Machine) (c : BitVec 16) : Bool × Machine :=
  match Rvc.decode c with
  | none => deliver m (c.setWidth 32) 2 .illegal
  | some i => isaStep guestPlatform (some i) m 0x00100073 2

theorem stepOnce_parcel {m : Machine} {c : BitVec 16} (h : ParcelAt m c) :
    stepOnce m =
      commit (if expandCompressed c = 0#32 then .error (m.illegal (c.setWidth 32))
        else executeWord m (expandCompressed c) 2) := by
  have hc : (c.setWidth 32).setWidth 16 = c := by
    rw [setWidth_setWidth_of_le c (by omega), setWidth_eq]
  rw [stepOnce_of_fetch (fetch_parcel h), executeOne]
  simp only [hc]
  rfl

theorem isaStep_word (m : Machine) {i : Rv32.Instr} (hi : i ≠ .ebreak) (w w' len : Word) :
    isaStep guestPlatform (some i) m w len = isaStep guestPlatform (some i) m w' len := by
  cases i with
  | ebreak => exact absurd rfl hi
  | load width signed rd rs1 imm | store width rs1 rs2 imm =>
    simp only [isaStep, Rv32.exec]
    split <;> rfl
  | csr op rd src num =>
    simp only [isaStep, Rv32.exec, Rv32.execCsr, guestPlatform, ite_self]
    rfl
  | _ => rfl

theorem stepOnce_parcel_spec {m : Machine} {c : BitVec 16} (hx : m.cpu.regs 0 = 0)
    (h : ParcelAt m c) (hh : ¬ RejectedHint c) : stepOnce m = rvcStep m c := by
  have he := expandCompressed_spec h.short hh
  rw [stepOnce_parcel h]
  unfold rvcStep
  cases hd : Rvc.decode c with
  | none =>
    rw [hd] at he
    rw [if_pos (show expandCompressed c = 0#32 from he)]
    rfl
  | some i =>
    rw [hd] at he
    have he : liberalDecode (expandCompressed c) = some i := he
    have hne : expandCompressed c ≠ 0#32 := by
      intro h0
      rw [h0] at he
      exact absurd he (by simp [show liberalDecode 0#32 = none from rfl])
    rw [if_neg hne, executeWord_eq _ _ hx, he]
    by_cases hb : i = .ebreak
    · subst hb
      rw [decode_ebreak hd]
      rfl
    · exact isaStep_word m hb _ _ _

/-- On a rejected HINT the interpreter traps, with nothing but trap state changed. -/
theorem stepOnce_hint {m : Machine} {c : BitVec 16} (h : ParcelAt m c) (hh : RejectedHint c) :
    stepOnce m = deliver m (c.setWidth 32) 2 .illegal := by
  rw [stepOnce_parcel h, if_pos (expandCompressed_hint hh)]
  rfl

theorem rvcStep_hint {m : Machine} {c : BitVec 16} (hh : RejectedHint c) :
    (rvcStep m c).1 = true := by
  unfold rvcStep
  rcases hint_decodes hh with h | h
  · rw [h]
    rfl
  · rw [h]
    rfl

/-- The interpreter executes the parcel at `pc` as the manual says, traps included, exactly when
the parcel is not C.LUI or C.ADD into `x0`. -/
theorem stepOnce_parcel_iff {m : Machine} {c : BitVec 16} (hx : m.cpu.regs 0 = 0)
    (h : ParcelAt m c) : stepOnce m = rvcStep m c ↔ ¬ RejectedHint c := by
  constructor
  · intro he hh
    have h1 := congrArg Prod.fst he
    rw [stepOnce_hint h hh, rvcStep_hint hh] at h1
    cases h1
  · exact stepOnce_parcel_spec hx h

/-- `c.addi x10, 1`. -/
theorem stepOnce_parcel_iff_addi :
    stepOnce (flatMachine [0x05, 0x05]) = rvcStep (flatMachine [0x05, 0x05]) 0x0505 :=
  (stepOnce_parcel_iff (m := flatMachine [0x05, 0x05]) rfl
    ⟨by decide, by decide, by decide, by decide⟩).mpr (by unfold RejectedHint LuiHint AddHint; decide)

/-- `c.lui x0, 1`, a HINT, traps. -/
theorem stepOnce_rejects_hint :
    ¬ ∀ m c, m.cpu.regs 0 = 0 → ParcelAt m c → stepOnce m = rvcStep m c := by
  intro h
  have h := h (flatMachine [0x05, 0x60]) 0x6005 rfl ⟨by decide, by decide, by decide, by decide⟩
  exact absurd (congrArg Prod.fst h) (by decide)

end Microgarbage.Vm
