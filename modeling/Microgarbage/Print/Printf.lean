import Mathlib.Algebra.Ring.Nat
import Mathlib.Data.Nat.Digits.Lemmas
import Microgarbage.Print.Format

/-!
# The text of `printf`

What C's `printf` prints for the conversions of the guest, and the text of the host's formatter
beside it. A format is read into its items first; each item has the text that C gives it, where it
gives one.
-/

namespace Microgarbage.Print

open Lib Vm List

/-! ## The items of a format -/

inductive Item where
  | text (bs : List Byte)
  | percent
  | conv (c : Byte) (d : Directive) (width precision : Int) (v : Word)
  | missing (c : Byte)
  | unknown (c : Byte)
  | cut

/-- The item of a conversion specification, and the arguments behind it. -/
def itemOf (d : Directive) (c : Byte) (width precision : Int) (args : List Word) :
    Item × List Word :=
  if c = ch '%' then (.percent, args)
  else if takesArg c then
    match args with
    | [] => (.missing c, args)
    | v :: args => (.conv c d width precision v, args)
  else (.unknown c, args)

/-- The items of a format with its arguments; every round takes a character. -/
def items : Nat → List Byte → List Word → List Item
  | 0, _, _ => []
  | rounds + 1, p, args =>
    match p with
    | [] => []
    | b :: rest =>
      if b ≠ ch '%' then
        .text (p.takeWhile (· != ch '%')) :: items rounds (p.dropWhile (· != ch '%')) args
      else
        let (d, rest) := parseDirective rest
        let (width, precision, args) := d.fields args
        match d.conv with
        | none => [.cut]
        | some c =>
          let (item, args) := itemOf d c width precision args
          item :: items rounds rest args

/-! ## The reference -/

/-- The digits of a number, most significant first: as many as the precision asks for, or at least
one where there is none. -/
def intDigits (base : Nat) (upper : Bool) (precision : Int) (v : Nat) : List Byte :=
  let ds := ((Nat.digits base v).map (digitChar upper)).reverse
  List.replicate ((if precision < 0 then 1 else precision.toNat) - ds.length) (ch '0') ++ ds

/-- `#` with `o`: the first digit is a zero. -/
def octalAlt (ds : List Byte) : List Byte := if ds.head? = some (ch '0') then ds else ch '0' :: ds

/-- A text in its width: to the left with `-` or a negative width, behind zeros or behind spaces. -/
def justify (flags : FmtFlags) (width : Int) (zeros : Bool) (lead body : List Byte) : List Byte :=
  let fill := width.natAbs - (lead.length + body.length)
  if flags.minus ∨ width < 0 then lead ++ body ++ List.replicate fill (ch ' ')
  else if zeros then lead ++ List.replicate fill (ch '0') ++ body
  else List.replicate fill (ch ' ') ++ lead ++ body

def signOf (flags : FmtFlags) (v : Word) : List Byte :=
  if v.toInt < 0 then [ch '-'] else if flags.plus then [ch '+']
  else if flags.space then [ch ' '] else []

/-- `0` pads a number that has no precision. -/
def zeroFill (flags : FmtFlags) (precision : Int) : Bool := flags.zero && precision < 0

def leadOf (c : Byte) (flags : FmtFlags) (v : Word) : List Byte :=
  if c = ch 'd' ∨ c = ch 'i' then signOf flags v
  else if flags.hash ∧ v ≠ 0 then
    if c = ch 'x' then [ch '0', ch 'x'] else if c = ch 'X' then [ch '0', ch 'X'] else []
  else []

def bodyOf (c : Byte) (flags : FmtFlags) (precision : Int) (v : Word) : List Byte :=
  if c = ch 'd' ∨ c = ch 'i' then intDigits 10 false precision v.toInt.natAbs
  else if c = ch 'x' then intDigits 16 false precision v.toNat
  else if c = ch 'X' then intDigits 16 true precision v.toNat
  else if c = ch 'o' then
    if flags.hash then octalAlt (intDigits 8 false precision v.toNat)
    else intDigits 8 false precision v.toNat
  else intDigits 10 false precision v.toNat

/-- `d`, `i`, `u`, `x`, `X` and `o`. -/
def isNumeric (c : Byte) : Bool :=
  c == ch 'd' || c == ch 'i' || c == ch 'u' || c == ch 'x' || c == ch 'X' || c == ch 'o'

/-- The eight digits of `%p`. -/
def pointerText (v : Word) : List Byte := intDigits 16 false 8 v.toNat

/-- The digits of a width or a precision spell an `int`. -/
def Field.Fits : Field → Prop
  | .star => True
  | .number digits => digits.foldl (fun n d => n * 10 + (d.toNat - 48)) 0 < 2 ^ 31

/-- Widths and precisions are an `int`, and no length modifier changes the size of an argument. -/
structure Directive.Plain (d : Directive) : Prop where
  width : d.width.Fits
  precision : ∀ f, d.precision = some f → f.Fits
  lengths : d.lengths = [] ∨ d.lengths = [ch 'l'] ∨ d.lengths = [ch 'z'] ∨ d.lengths = [ch 't']

section

variable (read : Word → Option Byte) (ok : Word → Prop)

/-- A string argument of which `len` characters are printed; `ok` says what may be read. Behind a
string that its precision ends, nothing need be there. -/
structure StrArg (ptr : Word) (precision : Int) (len : Nat) : Prop where
  limit : len ≤ vmFormatMaxStrArg
  chars : ∀ i < len, ∃ b, read (ptr + BitVec.ofNat 32 i) = some b ∧ b ≠ 0
  short : 0 ≤ precision → len ≤ precision
  last : precision = len ∨
    ok (ptr + BitVec.ofNat 32 len) ∧ read (ptr + BitVec.ofNat 32 len) = some 0
  ok : ∀ i < len, ok (ptr + BitVec.ofNat 32 i)

/-- The text that C gives an item. Flags whose effect C leaves undefined are not there. -/
inductive Printf : Item → List Byte → Prop where
  | text (bs : List Byte) : Printf (.text bs) bs
  | percent : Printf .percent [ch '%']
  | number {c : Byte} {d : Directive} {width precision : Int} {v : Word} : isNumeric c = true →
      d.Plain → (d.flags.hash = true → c = ch 'x' ∨ c = ch 'X' ∨ c = ch 'o') →
        Printf (.conv c d width precision v)
          (justify d.flags width (zeroFill d.flags precision) (leadOf c d.flags v)
            (bodyOf c d.flags precision v))
  | char {d : Directive} {width precision : Int} {v : Word} : d.Plain → d.flags.zero = false →
      d.flags.hash = false → precision < 0 → d.lengths = [] →
        Printf (.conv (ch 'c') d width precision v) (justify d.flags width false [] [v.setWidth 8])
  | str {d : Directive} {width precision : Int} {ptr : Word} {len : Nat} : d.Plain →
      d.flags.zero = false → d.flags.hash = false → d.lengths = [] → ptr ≠ 0 →
        StrArg read ok ptr precision len →
          Printf (.conv (ch 's') d width precision ptr)
            (justify d.flags width false []
              ((List.range len).map fun i => (read (ptr + BitVec.ofNat 32 i)).getD 0))
  | pointer {d : Directive} {width precision : Int} {v : Word} : d.Plain → d.lengths = [] →
      Printf (.conv (ch 'p') d width precision v) (pointerText v)

end

/-! ## Padded texts -/

section

variable {c : Byte} {n : Int}

theorem flatten_fmtPad (c : Byte) (n : Int) : (fmtPad c n).flatten = List.replicate n.toNat c := by
  unfold fmtPad
  rw [flatten_append, flatten_replicate_replicate, flatten_singleton,
    replicate_append_replicate]
  congr 1
  omega

/-- What a number's precision adds in front of its digits. -/
def precZeros (precision : Int) (digits : List Byte) : List Byte :=
  List.replicate (precision - digits.length).toNat (ch '0')

variable {flags : FmtFlags} {width precision : Int} {lead digits : List Byte}

theorem flatten_fmtNumber :
    (fmtNumber flags width precision lead digits).flatten =
      let fill := (width - (lead.length + (precZeros precision digits ++ digits).length)).toNat
      if flags.minus then
        lead ++ (precZeros precision digits ++ digits) ++ List.replicate fill (ch ' ')
      else if flags.zero then
        lead ++ (if precision < 0 then List.replicate fill (ch '0') else []) ++
          (precZeros precision digits ++ digits)
      else List.replicate fill (ch ' ') ++ lead ++ (precZeros precision digits ++ digits) := by
  unfold fmtNumber
  by_cases hlong : precision > digits.length
  · have hfill : (width - (lead.length + digits.length) - (precision - digits.length)).toNat =
        (width - (lead.length + (precZeros precision digits ++ digits).length)).toNat := by
      rw [length_append, precZeros, length_replicate]
      omega
    rw [if_pos hlong]
    cases flags.minus <;> cases flags.zero <;>
      simp [flatten_fmtPad, hfill, precZeros, show ¬ precision < 0 by omega]
  · have hnone : precZeros precision digits = [] := by
      rw [precZeros, show (precision - digits.length).toNat = 0 by omega]
      rfl
    rw [if_neg hlong, hnone, nil_append]
    cases flags.minus <;> cases flags.zero <;> by_cases hprec : precision < 0 <;>
      simp [flatten_fmtPad, hprec]

/-- Where the width is not negative beyond the text, and zeros are not asked for in vain, a number
stands in its width as it does in C. -/
theorem fmtNumber_justify
    (hneg : width < 0 → width.natAbs ≤ lead.length + (precZeros precision digits ++ digits).length)
    (hzero : flags.zero = true → flags.minus = false → 0 ≤ precision →
      width ≤ lead.length + (precZeros precision digits ++ digits).length) :
    (fmtNumber flags width precision lead digits).flatten =
      justify flags width (zeroFill flags precision) lead (precZeros precision digits ++ digits) := by
  rw [flatten_fmtNumber]
  unfold justify zeroFill
  generalize precZeros precision digits ++ digits = body at hneg hzero ⊢
  dsimp only
  by_cases hwidth : width < 0
  · have hfill : (width - (lead.length + body.length)).toNat = 0 := by omega
    have hfill' : width.natAbs - (lead.length + body.length) = 0 := by
      have := hneg hwidth
      omega
    rw [hfill, hfill', if_pos (Or.inr hwidth)]
    simp
  · have hfill : width.natAbs - (lead.length + body.length) =
        (width - (lead.length + body.length)).toNat := by omega
    rw [hfill]
    cases hminus : flags.minus with
    | true => simp
    | false =>
      cases hzeros : flags.zero with
      | false => simp [hwidth]
      | true =>
        by_cases hprec : precision < 0
        · simp [hwidth, hprec]
        · have hnone : (width - (lead.length + body.length)).toNat = 0 := by
            have := hzero hzeros hminus (by omega)
            omega
          simp [hwidth, hprec, hnone]

/-! ## Digits -/

theorem fmtUintLoop_eq {base : Nat} (hbase : 2 ≤ base) (upper : Bool) {rounds v : Nat}
    (hv : v < base ^ rounds) (buf : List Byte) :
    fmtUintLoop base upper rounds v buf =
      ((Nat.digits base v).map (digitChar upper)).reverse ++ buf := by
  induction rounds generalizing v buf with
  | zero =>
    obtain rfl : v = 0 := by simpa using hv
    simp [fmtUintLoop]
  | succ rounds ih =>
    rw [fmtUintLoop]
    by_cases hzero : v = 0
    · simp [hzero]
    · have hdiv : v / base < base ^ rounds := by
        rw [Nat.div_lt_iff_lt_mul (by omega), ← Nat.pow_succ]
        exact hv
      rw [if_neg hzero, ih hdiv, Nat.digits_def' (by omega) (Nat.pos_of_ne_zero hzero)]
      simp

theorem fmtUint_eq {base : Nat} (hbase : 2 ≤ base) (upper : Bool) {v : Word} (hv : v ≠ 0) :
    fmtUint v base upper = ((Nat.digits base v.toNat).map (digitChar upper)).reverse := by
  have hlt : v.toNat < base ^ 32 := Nat.lt_of_lt_of_le v.isLt (Nat.pow_le_pow_left hbase 32)
  rw [fmtUint, if_neg hv, fmtUintLoop_eq hbase upper hlt, append_nil]

theorem digits_length_pos (base : Nat) {v : Nat} (hv : v ≠ 0) :
    0 < (Nat.digits base v).length := by
  rw [length_pos_iff, ne_eq, Nat.digits_eq_nil_iff_eq_zero]
  exact hv

/-- A number's digits with its precision, but for a zero that is to have no digit. -/
theorem precZeros_fmtUint {base : Nat} (hbase : 2 ≤ base) (upper : Bool) {v : Word}
    (hv : v = 0 → precision ≠ 0) :
    precZeros precision (fmtUint v base upper) ++ fmtUint v base upper =
      intDigits base upper precision v.toNat := by
  unfold intDigits precZeros
  by_cases hzero : v = 0
  · subst hzero
    have hne := hv rfl
    rw [show (0 : Word).toNat = 0 from rfl]
    simp only [fmtUint, Nat.digits_zero, map_nil, reverse_nil,
      append_nil, if_true, length_nil, Nat.sub_zero, length_singleton]
    rw [← replicate_one, replicate_append_replicate]
    congr 1
    split <;> omega
  · have hpos := digits_length_pos base (fun h => hzero (BitVec.eq_of_toNat_eq h) : v.toNat ≠ 0)
    rw [fmtUint_eq hbase upper hzero]
    simp only [length_reverse, length_map]
    congr 2
    split <;> omega

theorem digitChar_ne_zero : ∀ upper, ∀ d < 16, d ≠ 0 → digitChar upper d ≠ ch '0' := by decide

theorem head_digits {base : Nat} (hbase : 2 ≤ base) (hle : base ≤ 16) (upper : Bool) {v : Nat}
    (hv : v ≠ 0) :
    ((Nat.digits base v).map (digitChar upper)).reverse.head? ≠ some (ch '0') := by
  have hne : Nat.digits base v ≠ [] := fun h => hv (Nat.digits_eq_nil_iff_eq_zero.mp h)
  have hlast := Nat.getLast_digit_ne_zero base hv
  have hlt := Nat.digits_lt_base (by omega) (getLast_mem hne)
  rw [List.head?_reverse, List.getLast?_map, List.getLast?_eq_some_getLast hne, Option.map_some]
  intro h
  exact digitChar_ne_zero upper _ (by omega) hlast (Option.some.inj h)

/-! ## Numbers -/

/-- Where the formatter's number is not C's: a zero that is to have no digit, or `#` with `o` and a
precision beyond the digits. -/
def WrongDigits (c : Byte) (flags : FmtFlags) (precision : Int) (v : Word) : Prop :=
  (v = 0 ∧ precision = 0 ∧ ¬ (c = ch 'o' ∧ flags.hash = true)) ∨
    (c = ch 'o' ∧ flags.hash = true ∧ v ≠ 0 ∧ (Nat.digits 8 v.toNat).length < precision)

/-- Where the formatter's padding is not C's: a negative width beyond the text, or `0` with a
precision in a width beyond the text. -/
def WrongFill (flags : FmtFlags) (width precision : Int) (len : Nat) : Prop :=
  (width < 0 ∧ len < width.natAbs) ∨
    (flags.zero = true ∧ flags.minus = false ∧ 0 ≤ precision ∧ len < width)

variable {v : Word}

theorem fmtNumber_text {body : List Byte} (hbody : precZeros precision digits ++ digits = body)
    (hfill : ¬ WrongFill flags width precision (lead.length + body.length)) :
    (fmtNumber flags width precision lead digits).flatten =
      justify flags width (zeroFill flags precision) lead body := by
  subst hbody
  refine fmtNumber_justify (fun hneg => ?_) fun hzeros hminus hprec => ?_
  · by_contra hlt
    exact hfill (.inl ⟨hneg, by omega⟩)
  · by_contra hlt
    exact hfill (.inr ⟨hzeros, hminus, hprec, by omega⟩)

theorem fmtSigned_text (hc : c = ch 'd' ∨ c = ch 'i') (hdigits : ¬ WrongDigits c flags precision v)
    (hfill : ¬ WrongFill flags width precision
      ((leadOf c flags v).length + (bodyOf c flags precision v).length)) :
    (fmtSigned flags width precision v).flatten =
      justify flags width (zeroFill flags precision) (leadOf c flags v)
        (bodyOf c flags precision v) := by
  have hlead : leadOf c flags v = signOf flags v := by rw [leadOf, if_pos hc]
  have hnot : c ≠ ch 'o' := by
    rcases hc with rfl | rfl <;> decide
  have hmag : (if v.toInt < 0 then -v else v).toNat = v.toInt.natAbs := by
    have hlt := v.isLt
    rw [BitVec.toInt_eq_toNat_cond]
    split
    · rw [if_neg (by omega)]
      omega
    · rw [if_pos (by omega), BitVec.toNat_neg]
      omega
  rw [hlead] at hfill ⊢
  refine fmtNumber_text ?_ hfill
  rw [precZeros_fmtUint (by decide) false, hmag, bodyOf, if_pos hc]
  intro hzero hprec
  refine hdigits (.inl ⟨?_, hprec, fun h => hnot h.1⟩)
  split at hzero
  · exact BitVec.neg_eq_zero_iff.mp hzero
  · exact hzero

theorem justify_zero (flags : FmtFlags) (width : Int) (zeros : Bool) (ds : List Byte) :
    justify flags width zeros [ch '0'] ds = justify flags width zeros [] (ch '0' :: ds) := by
  have hcomm (n : Nat) : ch '0' :: (List.replicate n (ch '0') ++ ds) =
      List.replicate n (ch '0') ++ ch '0' :: ds := by
    rw [← cons_append, ← replicate_succ, replicate_succ', append_assoc]
    rfl
  unfold justify
  rw [length_singleton, length_nil, length_cons, Nat.zero_add, Nat.add_comm 1]
  dsimp only
  split
  · simp
  · split
    · simp [hcomm]
    · simp

theorem octalAlt_zero (precision : Int) :
    precZeros precision [ch '0'] ++ [ch '0'] = octalAlt (intDigits 8 false precision 0) := by
  have hdigits : intDigits 8 false precision 0 =
      List.replicate (if precision < 0 then 1 else precision.toNat) (ch '0') := by
    simp [intDigits]
  rw [hdigits, precZeros, length_singleton, ← replicate_succ']
  generalize hn : (if precision < 0 then 1 else precision.toNat) = n
  cases n with
  | zero =>
    rw [show (precision - (1 : Nat)).toNat = 0 by split at hn <;> omega]
    rfl
  | succ n =>
    rw [show (precision - (1 : Nat)).toNat = n by split at hn <;> omega]
    rfl

theorem octalAlt_digits {v : Nat} (hv : v ≠ 0)
    (hlen : precision ≤ (Nat.digits 8 v).length) :
    octalAlt (intDigits 8 false precision v) =
      ch '0' :: ((Nat.digits 8 v).map (digitChar false)).reverse := by
  have hpos := digits_length_pos 8 hv
  have hnone : (if precision < 0 then 1 else precision.toNat) -
      ((Nat.digits 8 v).map (digitChar false)).reverse.length = 0 := by
    rw [length_reverse, length_map]
    split <;> omega
  have hds : intDigits 8 false precision v =
      ((Nat.digits 8 v).map (digitChar false)).reverse := by
    unfold intDigits
    dsimp only
    rw [hnone, replicate_zero, nil_append]
  rw [octalAlt, hds, if_neg (head_digits (by decide) (by decide) false hv)]

/-- `#` with `o` on a number: the formatter puts the zero in front, C among the digits. -/
theorem octal_text (hhash : flags.hash = true)
    (hdigits : ¬ WrongDigits (ch 'o') flags precision v)
    (hfill : ¬ WrongFill flags width precision (octalAlt (intDigits 8 false precision v.toNat)).length) :
    (fmtNumber flags width precision (if flags.hash && v != 0 then [ch '0'] else [])
        (fmtUint v 8 false)).flatten =
      justify flags width (zeroFill flags precision) []
        (octalAlt (intDigits 8 false precision v.toNat)) := by
  by_cases hzero : v = 0
  · subst hzero
    rw [show (flags.hash && (0 : Word) != 0) = false by simp]
    refine fmtNumber_text (octalAlt_zero precision) ?_
    rwa [if_neg (by decide), length_nil, Nat.zero_add]
  · have hnat : v.toNat ≠ 0 := fun h => hzero (BitVec.eq_of_toNat_eq h)
    have hlen : precision ≤ (Nat.digits 8 v.toNat).length := by
      by_contra hlt
      exact hdigits (.inr ⟨rfl, hhash, hzero, by omega⟩)
    have hnone : precZeros precision (fmtUint v 8 false) = [] := by
      rw [precZeros, fmtUint_eq (by decide) false hzero, length_reverse, length_map,
        show (precision - (Nat.digits 8 v.toNat).length).toNat = 0 by omega]
      rfl
    rw [octalAlt_digits hnat hlen, ← fmtUint_eq (by decide) false hzero] at hfill ⊢
    rw [hhash, show (true && v != 0) = true by simpa using hzero, if_pos rfl, ← justify_zero]
    refine fmtNumber_text (by rw [hnone, nil_append]) ?_
    rwa [length_singleton, Nat.add_comm]

theorem fmtUnsigned_text (hc : c = ch 'u' ∨ c = ch 'x' ∨ c = ch 'X' ∨ c = ch 'o')
    (hdigits : ¬ WrongDigits c flags precision v)
    (hfill : ¬ WrongFill flags width precision
      ((leadOf c flags v).length + (bodyOf c flags precision v).length)) :
    (fmtUnsigned c flags width precision v).flatten =
      justify flags width (zeroFill flags precision) (leadOf c flags v)
        (bodyOf c flags precision v) := by
  have hbody (base : Nat) (hbase : 2 ≤ base) (upper : Bool)
      (hne : ¬ (c = ch 'o' ∧ flags.hash = true)) :
      precZeros precision (fmtUint v base upper) ++ fmtUint v base upper =
        intDigits base upper precision v.toNat :=
    precZeros_fmtUint hbase upper fun hzero hprec => hdigits (.inl ⟨hzero, hprec, hne⟩)
  rcases hc with rfl | rfl | rfl | rfl
  · have hlead : leadOf (ch 'u') flags v = [] := by simp [leadOf, ch]
    rw [hlead] at hfill ⊢
    exact fmtNumber_text (hbody 10 (by decide) false (by simp [ch])) hfill
  · have hlead : leadOf (ch 'x') flags v =
        if flags.hash && v != 0 then [ch '0', ch 'x'] else [] := by simp [leadOf, ch]
    rw [hlead] at hfill ⊢
    exact fmtNumber_text (hbody 16 (by decide) false (by simp [ch])) hfill
  · have hlead : leadOf (ch 'X') flags v =
        if flags.hash && v != 0 then [ch '0', ch 'X'] else [] := by simp [leadOf, ch]
    rw [hlead] at hfill ⊢
    exact fmtNumber_text (hbody 16 (by decide) true (by simp [ch])) hfill
  · have hlead : leadOf (ch 'o') flags v = [] := by simp [leadOf, ch]
    rw [hlead] at hfill ⊢
    cases hhash' : flags.hash with
    | true =>
      have hbody' : bodyOf (ch 'o') flags precision v =
          octalAlt (intDigits 8 false precision v.toNat) := by simp [bodyOf, ch, hhash']
      rw [hbody'] at hfill ⊢
      rw [length_nil, Nat.zero_add] at hfill
      exact octal_text hhash' hdigits hfill
    | false =>
      have hbody' : bodyOf (ch 'o') flags precision v = intDigits 8 false precision v.toNat := by
        simp [bodyOf, ch, hhash']
      have hplain : fmtUnsigned (ch 'o') flags width precision v =
          fmtNumber flags width precision [] (fmtUint v 8 false) := by
        simp [fmtUnsigned, ch, hhash']
      rw [hbody'] at hfill ⊢
      rw [hplain]
      exact fmtNumber_text (hbody 8 (by decide) false (by simp [hhash'])) hfill

/-! ## Characters, strings and pointers -/

theorem spaces_justify {body : List Byte}
    (hfill : ¬ (width < 0 ∧ body.length < width.natAbs)) :
    (if !flags.minus then fmtPad (ch ' ') (width - body.length) else []).flatten ++ body ++
        (if flags.minus then fmtPad (ch ' ') (width - body.length) else []).flatten =
      justify flags width false [] body := by
  unfold justify
  dsimp only
  rw [length_nil, Nat.zero_add]
  by_cases hwidth : width < 0
  · have hnone : (width - body.length).toNat = 0 := by omega
    have hnone' : width.natAbs - body.length = 0 := by omega
    rw [if_pos (Or.inr hwidth), hnone']
    cases flags.minus <;> simp [flatten_fmtPad, hnone]
  · have hsome : width.natAbs - body.length = (width - body.length).toNat := by omega
    rw [hsome]
    cases flags.minus <;> simp [flatten_fmtPad, hwidth]

theorem fmtChar_text (hfill : ¬ (width < 0 ∧ 1 < width.natAbs)) :
    (fmtChar flags width v).flatten = justify flags width false [] [v.setWidth 8] := by
  rw [← spaces_justify hfill]
  unfold fmtChar
  rw [flatten_append, flatten_append, flatten_singleton]
  rfl

theorem fmtPointer_text (v : Word) : (fmtPointer v).flatten = pointerText v := by
  unfold fmtPointer pointerText
  rw [flatten_append, flatten_fmtPad, flatten_singleton]
  exact precZeros_fmtUint (by decide) false fun _ => by decide

section

variable {read read' : Word → Option Byte} {ok : Word → Prop} {ptr : Word} {len : Nat}

theorem StrArg.strLength_eq (h : StrArg read ok ptr precision len)
    (hread : ∀ a, ok a → read' a = read a) {left i : Nat} (hi : i ≤ len)
    (hleft : left + i = vmFormatMaxStrArg) :
    strLength read' ptr precision left i = len := by
  induction left generalizing i with
  | zero =>
    have := h.limit
    rw [strLength]
    omega
  | succ left ih =>
    rw [strLength]
    by_cases hmore : i < len
    · obtain ⟨b, hb, hz⟩ := h.chars i hmore
      have hshort := h.short
      rw [hread _ (h.ok i hmore), hb]
      dsimp only
      rw [if_neg hz, if_neg (by omega), ih (by omega) (by omega)]
    · obtain rfl : i = len := by omega
      rcases h.last with hprec | ⟨hok, hz⟩
      · -- the precision ends the string, whatever is read behind it
        split
        · rfl
        · split
          · rfl
          · rw [if_pos (by omega)]
      · rw [hread _ hok, hz]
        rfl

end

/-! ## Runs of the formatter -/

section

variable {σ : Type}

/-- A relation between the text so far and the sink: every piece goes behind the text, and the
addresses that may be read are read as they were. -/
structure Follows (k : Sink σ) (read : Word → Option Byte) (ok : Word → Prop)
    (R : List Byte → FmtSink σ → Prop) : Prop where
  emit : ∀ {t : List Byte} {s : FmtSink σ} (bs : List Byte), R t s → R (t ++ bs) (fmtEmit k s bs)
  read : ∀ {t : List Byte} {s : FmtSink σ} {a : Word}, R t s → ok a → k.read s.ctx a = read a

variable {k : Sink σ} {read : Word → Option Byte} {ok : Word → Prop}
  {R : List Byte → FmtSink σ → Prop} {t : List Byte} {s : FmtSink σ} {ptr : Word} {len : Nat}

namespace Follows

theorem emits (h : Follows k read ok R) (hR : R t s) (pieces : List (List Byte)) :
    R (t ++ pieces.flatten) (fmtEmits k s pieces) := by
  induction pieces generalizing t s with
  | nil =>
    rw [flatten_nil, append_nil]
    exact hR
  | cons bs pieces ih =>
    rw [flatten_cons, ← append_assoc]
    exact ih (h.emit bs hR)

theorem emits_eq (h : Follows k read ok R) (hR : R t s) {pieces : List (List Byte)} {text : List Byte}
    (htext : pieces.flatten = text) : R (t ++ text) (fmtEmits k s pieces) :=
  htext ▸ h.emits hR pieces

theorem emitStr (h : Follows k read ok R) (hR : R t s) (hstr : StrArg read ok ptr precision len)
    {left i : Nat} (hleft : left + i = len) :
    R (t ++ (List.range' i left).map fun i => (read (ptr + BitVec.ofNat 32 i)).getD 0)
      (emitStr k ptr left i s) := by
  induction left generalizing i t s with
  | zero =>
    rw [range'_zero, map_nil, append_nil]
    exact hR
  | succ left ih =>
    obtain ⟨b, hb, -⟩ := hstr.chars i (by omega)
    rw [Print.emitStr, h.read hR (hstr.ok i (by omega)), hb, range'_succ, map_cons, hb,
      Option.getD_some, ← singleton_append, ← append_assoc]
    exact ih (h.emit [b] hR) (by omega)

theorem fmtStr_text (h : Follows k read ok R) (hR : R t s) (hptr : ptr ≠ 0)
    (hstr : StrArg read ok ptr precision len) (hfill : ¬ (width < 0 ∧ len < width.natAbs)) :
    R (t ++ justify flags width false []
        ((List.range len).map fun i => (read (ptr + BitVec.ofNat 32 i)).getD 0))
      (fmtStr k flags width precision ptr s) := by
  have hlen := hstr.strLength_eq (fun a ha => h.read hR ha) (Nat.zero_le len)
    (Nat.add_zero vmFormatMaxStrArg)
  have hbody : ((List.range len).map fun i => (read (ptr + BitVec.ofNat 32 i)).getD 0).length =
      len := by rw [length_map, length_range]
  generalize htext : ((List.range len).map fun i =>
    (read (ptr + BitVec.ofNat 32 i)).getD 0) = body at hbody ⊢
  unfold fmtStr
  rw [if_neg hptr, hlen, ← spaces_justify (by rwa [hbody]), hbody, ← append_assoc,
    ← append_assoc, ← htext, range_eq_range']
  exact h.emits (h.emitStr (h.emits hR _) hstr (Nat.add_zero len)) _

end Follows

/-- What an item must not be for the formatter to print it as C does. -/
inductive Item.Slips (read : Word → Option Byte) (ok : Word → Prop) : Item → Prop where
  | digits {c : Byte} {d : Directive} {width precision : Int} {v : Word} : isNumeric c = true →
      WrongDigits c d.flags precision v → Slips read ok (.conv c d width precision v)
  | fill {c : Byte} {d : Directive} {width precision : Int} {v : Word} : isNumeric c = true →
      WrongFill d.flags width precision
        ((leadOf c d.flags v).length + (bodyOf c d.flags precision v).length) →
        Slips read ok (.conv c d width precision v)
  | char {d : Directive} {width precision : Int} {v : Word} : width < 0 ∧ 1 < width.natAbs →
      Slips read ok (.conv (ch 'c') d width precision v)
  | str {d : Directive} {width precision : Int} {ptr : Word} {len : Nat} :
      StrArg read ok ptr precision len → width < 0 ∧ len < width.natAbs →
        Slips read ok (.conv (ch 's') d width precision ptr)

/-- What the formatter prints for an item: C's text, but for a slip and where C gives no text. -/
def Item.Prints (read : Word → Option Byte) (ok : Word → Prop) (item : Item) (text : List Byte) :
    Prop :=
  Printf read ok item text ∨ item.Slips read ok ∨ ∀ t, ¬ Printf read ok item t

/-- The text of a format, item by item. -/
def Printed (read : Word → Option Byte) (ok : Word → Prop) (fmt : List Byte) (args : List Word)
    (text : List Byte) : Prop :=
  ∃ texts : List (List Byte), texts.flatten = text ∧
    List.Forall₂ (Item.Prints read ok) (items fmt.length fmt args) texts

theorem isNumeric_cases {c : Byte} (h : isNumeric c = true) :
    (c = ch 'd' ∨ c = ch 'i') ∨ c = ch 'u' ∨ c = ch 'x' ∨ c = ch 'X' ∨ c = ch 'o' := by
  unfold isNumeric at h
  simp only [Bool.or_eq_true, beq_iff_eq] at h
  tauto

theorem convert_number {c : Byte} (hnum : isNumeric c = true) (flags : FmtFlags)
    (width precision : Int) (v : Word) (s : FmtSink σ) :
    convert k c flags width precision v s = fmtEmits k s
      (if c = ch 'd' ∨ c = ch 'i' then fmtSigned flags width precision v
        else fmtUnsigned c flags width precision v) := by
  rcases isNumeric_cases hnum with (rfl | rfl) | rfl | rfl | rfl | rfl <;> simp [convert, ch]

theorem convert_text (h : Follows k read ok R) (hR : R t s) {c : Byte} {d : Directive}
    {width precision : Int} {v : Word} {text : List Byte}
    (hprintf : Printf read ok (.conv c d width precision v) text)
    (hslip : ¬ Item.Slips read ok (.conv c d width precision v)) :
    R (t ++ text) (convert k c d.flags width precision v s) := by
  cases hprintf with
  | number hnum =>
    have hdigits : ¬ WrongDigits c d.flags precision v := fun hw => hslip (.digits hnum hw)
    have hfill := fun hw => hslip (.fill hnum hw)
    rw [convert_number hnum]
    refine h.emits_eq hR ?_
    rcases isNumeric_cases hnum with hc | hc
    · rw [if_pos hc]
      exact fmtSigned_text hc hdigits hfill
    · rw [if_neg (by rcases hc with rfl | rfl | rfl | rfl <;> decide)]
      exact fmtUnsigned_text hc hdigits hfill
  | char => exact h.emits_eq hR (fmtChar_text fun hw => hslip (.char hw))
  | str _ _ _ _ hptr hstr => exact h.fmtStr_text hR hptr hstr fun hw => hslip (.str hstr hw)
  | pointer => exact h.emits_eq hR (fmtPointer_text v)

/-! ## What every piece keeps -/

section

variable {P : FmtSink σ → Prop} (h : ∀ s bs, P s → P (fmtEmit k s bs))
include h

theorem fmtEmits_keeps (hs : P s) (pieces : List (List Byte)) : P (fmtEmits k s pieces) := by
  induction pieces generalizing s with
  | nil => exact hs
  | cons bs pieces ih => exact ih (h s bs hs)

theorem emitStr_keeps (hs : P s) (ptr : Word) (left i : Nat) : P (emitStr k ptr left i s) := by
  induction left generalizing i s with
  | zero => exact hs
  | succ left ih =>
    rw [emitStr]
    split
    · exact hs
    · exact ih (h s _ hs) (i + 1)

theorem convert_keeps (hs : P s) (c : Byte) (flags : FmtFlags) (width precision : Int) (v : Word) :
    P (convert k c flags width precision v s) := by
  have hstr : P (fmtStr k flags width precision v s) := by
    unfold fmtStr
    split
    · exact fmtEmits_keeps h hs _
    · exact fmtEmits_keeps h (emitStr_keeps h (fmtEmits_keeps h hs _) v _ 0) _
  unfold convert
  split
  · exact fmtEmits_keeps h hs _
  · split
    · exact hstr
    · split
      · exact fmtEmits_keeps h hs _
      · split <;> exact fmtEmits_keeps h hs _

theorem formatDirective_keeps (hs : P s) (d : Directive) (c : Byte) (width precision : Int)
    (args : List Word) : P (formatDirective k d c width precision args s).1 := by
  unfold formatDirective
  split
  · exact fmtEmits_keeps h hs _
  · split
    · cases args with
      | nil => exact fmtEmits_keeps h hs _
      | cons v args => exact convert_keeps h hs c d.flags width precision v
    · exact fmtEmits_keeps h hs _

theorem formatLoop_keeps {rounds : Nat} {p : List Byte} {args : List Word} (hs : P s) :
    P (formatLoop k rounds p args s).1 := by
  induction rounds generalizing p args s with
  | zero => exact hs
  | succ rounds ih =>
    match p with
    | [] => exact hs
    | b :: p =>
      rw [formatLoop]
      split
      · exact ih (h s _ hs)
      · dsimp only
        split
        · exact hs
        · exact ih (formatDirective_keeps h hs _ _ _ _ _)

end

/-! ## The text of a format -/

/-- Whatever is emitted goes behind the text. -/
theorem Follows.grows (h : Follows k read ok R) (s : FmtSink σ) (bs : List Byte)
    (hs : ∃ u, R (t ++ u) s) : ∃ u, R (t ++ u) (fmtEmit k s bs) := by
  obtain ⟨u, hu⟩ := hs
  exact ⟨u ++ bs, append_assoc t u bs ▸ h.emit bs hu⟩

theorem formatDirective_prints (h : Follows k read ok R) (hR : R t s) (d : Directive) (c : Byte)
    (width precision : Int) (args : List Word) :
    ∃ text, (itemOf d c width precision args).1.Prints read ok text ∧
      R (t ++ text) (formatDirective k d c width precision args s).1 := by
  by_cases htext : ∃ text, Printf read ok (itemOf d c width precision args).1 text ∧
      ¬ (itemOf d c width precision args).1.Slips read ok
  · obtain ⟨text, hprintf, hslip⟩ := htext
    refine ⟨text, .inl hprintf, ?_⟩
    unfold itemOf at hprintf hslip
    unfold formatDirective
    by_cases hpercent : c = ch '%'
    · rw [if_pos hpercent] at hprintf ⊢
      cases hprintf
      exact h.emits_eq hR rfl
    · rw [if_neg hpercent] at hprintf hslip ⊢
      split at hprintf
      · rename_i htakes
        rw [if_pos htakes] at hslip ⊢
        cases args with
        | nil => cases hprintf
        | cons v args => exact convert_text h hR hprintf hslip
      · cases hprintf
  · obtain ⟨u, hu⟩ := formatDirective_keeps h.grows ⟨[], (append_nil t).symm ▸ hR⟩ d c width
      precision args
    refine ⟨u, .inr ?_, hu⟩
    by_contra hnot
    obtain ⟨hslip, hall⟩ := not_or.mp hnot
    obtain ⟨text, hprintf⟩ := not_forall_not.mp hall
    exact htext ⟨text, hprintf, hslip⟩

theorem formatDirective_itemOf (d : Directive) (c : Byte) (width precision : Int) (args : List Word)
    (s : FmtSink σ) : (formatDirective k d c width precision args s).2 =
      (itemOf d c width precision args).2 := by
  unfold formatDirective itemOf
  split
  · rfl
  · split
    · cases args <;> rfl
    · rfl

theorem formatLoop_prints (h : Follows k read ok R) {rounds : Nat} {p : List Byte}
    {args : List Word} (hR : R t s) :
    ∃ texts, List.Forall₂ (Item.Prints read ok) (items rounds p args) texts ∧
      R (t ++ texts.flatten) (formatLoop k rounds p args s).1 := by
  have hcons {t : List Byte} {s : FmtSink σ} (text : List Byte) (texts : List (List Byte))
      (hrest : R (t ++ text ++ texts.flatten) s) : R (t ++ (text :: texts).flatten) s := by
    rwa [flatten_cons, ← append_assoc]
  induction rounds generalizing p args t s with
  | zero => exact ⟨[], .nil, (append_nil t).symm ▸ hR⟩
  | succ rounds ih =>
    match p with
    | [] => exact ⟨[], .nil, (append_nil t).symm ▸ hR⟩
    | b :: p =>
      rw [items, formatLoop]
      split
      · obtain ⟨texts, htexts, hrest⟩ := ih (h.emit _ hR)
        exact ⟨_ :: texts, .cons (.inl (.text _)) htexts, hcons _ texts hrest⟩
      · dsimp only
        cases (parseDirective p).1.conv with
        | none => exact ⟨[[]], .cons (.inr (.inr nofun)) .nil, (append_nil t).symm ▸ hR⟩
        | some c =>
          obtain ⟨text, htext, hnext⟩ := formatDirective_prints h hR (parseDirective p).1 c
            ((parseDirective p).1.fields args).1 ((parseDirective p).1.fields args).2.1
            ((parseDirective p).1.fields args).2.2
          obtain ⟨texts, htexts, hrest⟩ := ih hnext
          dsimp only
          rw [formatDirective_itemOf]
          exact ⟨text :: texts, .cons htext htexts, hcons text texts hrest⟩

end

end

end Microgarbage.Print
