import Microgarbage.Math.Bits

/-!
# Division by a prepared divisor

`fast_div.c`: a divisor is prepared once, to a shift if it is a power of two and to a reciprocal
otherwise, and every division by it is then a multiplication. The words of 32 and of 64 bits have
the same text but for `mulhi` and the way in which the reciprocal is found.
-/

namespace Microgarbage.Math

/-- `div_u32_t`, `div_s32_t`, `div_u64_t` and `div_s64_t`. -/
structure Divisor (w : Nat) where
  d : BitVec w
  magic : BitVec w
  shift : BitVec 8
  flags : BitVec 8
  deriving DecidableEq

def fdivFlagPow2 : BitVec 8 := 0x01

/-- The reciprocal needs a bit more than the word. -/
def fdivFlagAdd : BitVec 8 := 0x02

def fdivFlagNeg : BitVec 8 := 0x04

structure QuotRem (w : Nat) where
  quot : BitVec w
  rem : BitVec w
  deriving DecidableEq

def mulhiU32 (a b : BitVec 32) : BitVec 32 :=
  ((a.setWidth 64 * b.setWidth 64) >>> 32).setWidth 32

def mulhiU64 (a b : BitVec 64) : BitVec 64 :=
  let aLo := a &&& 0xFFFFFFFF
  let aHi := a >>> 32
  let bLo := b &&& 0xFFFFFFFF
  let bHi := b >>> 32
  let loLo := aLo * bLo
  let hiLo := aHi * bLo
  let loHi := aLo * bHi
  let hiHi := aHi * bHi
  let mid := (loLo >>> 32) + (hiLo &&& 0xFFFFFFFF) + (loHi &&& 0xFFFFFFFF)
  hiHi + (hiLo >>> 32) + (loHi >>> 32) + (mid >>> 32)

/-! ## Unsigned -/

def fdivU32Prepare (d : BitVec 32) : Divisor 32 :=
  let r : Divisor 32 := ⟨d, 0, 0, 0⟩
  if d &&& (d - 1) = 0 then { r with flags := fdivFlagPow2, shift := 31 - bitsClz32 d }
  else
    let L := 32 - bitsClz32 (d - 1)
    if L < 32 then
      let num := (1 : BitVec 64) <<< (32 + L.toNat)
      let m := (num + d.setWidth 64 - 1) / d.setWidth 64
      if m < (1 : BitVec 64) <<< 32 then { r with magic := m.setWidth 32, shift := L }
      else
        { r with
          magic := (m - (1 : BitVec 64) <<< 32).setWidth 32
          shift := L
          flags := r.flags ||| fdivFlagAdd }
    else
      -- the numerator is 2 ^ 64
      let q : BitVec 64 := ~~~0 / d.setWidth 64
      let rem := ~~~0 - q * d.setWidth 64
      let q := if rem + 1 = d.setWidth 64 then q + 1 else q + 1
      { r with
        magic := (q - (1 : BitVec 64) <<< 32).setWidth 32
        shift := 32
        flags := r.flags ||| fdivFlagAdd }

/-- The quotient so far, in two words, and the remainder. -/
structure LongDivision where
  qHi : BitVec 64
  qLo : BitVec 64
  rem : BitVec 64

/-- One turn of the long division of `2 ^ top` by `d`, at position `bit`. -/
def longDivisionBit (d : BitVec 64) (top bit : Nat) (s : LongDivision) : LongDivision :=
  let bitIn : BitVec 64 := if bit = top then 1 else 0
  let carryOut := (s.rem >>> 63) &&& 1 ≠ 0
  let rem := (s.rem <<< 1) ||| bitIn
  let remGeD := carryOut ∨ d ≤ rem
  let rem := if remGeD then rem - d else rem
  { qHi := (s.qHi <<< 1) ||| (s.qLo >>> 63)
    qLo := (s.qLo <<< 1) ||| (if remGeD then 1 else 0)
    rem := rem }

/-- The loop over the positions below `bits`, from the highest. -/
def longDivision (d : BitVec 64) (top : Nat) : Nat → LongDivision → LongDivision
  | 0, s => s
  | bit + 1, s => longDivision d top bit (longDivisionBit d top bit s)

def fdivU64Prepare (d : BitVec 64) : Divisor 64 :=
  let r : Divisor 64 := ⟨d, 0, 0, 0⟩
  if d &&& (d - 1) = 0 then { r with flags := fdivFlagPow2, shift := 63 - bitsClz64 d }
  else
    let L := 64 - bitsClz64 (d - 1)
    let q := longDivision d (64 + L.toNat) (64 + L.toNat + 1) ⟨0, 0, 0⟩
    let q := if q.qLo = ~~~0 then { q with qLo := 0, qHi := q.qHi + 1 } else { q with qLo := q.qLo + 1 }
    if q.qHi = 0 then { r with magic := q.qLo, shift := L }
    else { r with magic := q.qLo, shift := L, flags := r.flags ||| fdivFlagAdd }

/-- `n` divided by the magnitude that was prepared; the unsigned divisions are this. -/
def fdivMagnitude {w : Nat} (mulhi : BitVec w → BitVec w → BitVec w) (n : BitVec w)
    (d : Divisor w) : BitVec w :=
  if d.flags &&& fdivFlagPow2 ≠ 0 then n >>> d.shift.toNat
  else
    let t := mulhi n d.magic
    if d.flags &&& fdivFlagAdd ≠ 0 then (((n - t) >>> 1) + t) >>> (d.shift.toNat - 1)
    else t >>> d.shift.toNat

def fdivU32 (n : BitVec 32) (d : Divisor 32) : BitVec 32 := fdivMagnitude mulhiU32 n d

def fdivU64 (n : BitVec 64) (d : Divisor 64) : BitVec 64 := fdivMagnitude mulhiU64 n d

def fdivU32Qr (n : BitVec 32) (d : Divisor 32) : QuotRem 32 :=
  let quot := fdivU32 n d
  ⟨quot, n - quot * d.d⟩

def fdivU64Qr (n : BitVec 64) (d : Divisor 64) : QuotRem 64 :=
  let quot := fdivU64 n d
  ⟨quot, n - quot * d.d⟩

/-! ## Signed -/

/-- What a signed operation makes of a result that its type does not hold: nothing that the
language defines, or the result modulo the word where the compiler is told so. -/
inductive SignedOverflow where
  | undefined
  | wraps
  deriving DecidableEq

namespace SignedOverflow

variable {w : Nat}
variable (o : SignedOverflow)

/-- The result `v`, or none where it is undefined. -/
def result (overflow : Bool) (v : BitVec w) : Option (BitVec w) :=
  if o = .undefined ∧ overflow then none else some v

def neg (x : BitVec w) : Option (BitVec w) := o.result x.negOverflow (-x)

def mul (x y : BitVec w) : Option (BitVec w) :=
  o.result (x.smulOverflow y) (x * y)

def sub (x y : BitVec w) : Option (BitVec w) :=
  o.result (x.ssubOverflow y) (x - y)

/-- `(x < 0) ? (unsigned)(-x) : (unsigned)x` -/
def abs (x : BitVec w) : Option (BitVec w) :=
  if x.slt 0 then o.neg x else some x

end SignedOverflow

section Signed

variable {w : Nat} (o : SignedOverflow)

/-- The preparation of a signed divisor, over that of its magnitude. -/
def fdivSPrepare (prepare : BitVec w → Divisor w) (d : BitVec w) : Option (Divisor w) :=
  (o.abs d).map fun absD =>
    let u := prepare absD
    let flags := if d.slt 0 then fdivFlagNeg else 0
    let flags := if u.flags &&& fdivFlagPow2 ≠ 0 then flags ||| fdivFlagPow2 else flags
    let flags := if u.flags &&& fdivFlagAdd ≠ 0 then flags ||| fdivFlagAdd else flags
    { d := d, magic := u.magic, shift := u.shift, flags := flags }

/-- The magnitudes divided, then the sign. -/
def fdivS (mulhi : BitVec w → BitVec w → BitVec w) (n : BitVec w) (d : Divisor w) :
    Option (BitVec w) :=
  (o.abs n).bind fun absN =>
    let qAbs := fdivMagnitude mulhi absN d
    let nNeg := n.slt 0
    let dNeg : Bool := d.flags &&& fdivFlagNeg ≠ 0
    if nNeg ^^ dNeg then o.neg qAbs else some qAbs

def fdivSQr (mulhi : BitVec w → BitVec w → BitVec w) (n : BitVec w) (d : Divisor w) :
    Option (QuotRem w) :=
  (fdivS o mulhi n d).bind fun quot =>
    (o.mul quot d.d).bind fun prod => (o.sub n prod).map fun rem => ⟨quot, rem⟩

end Signed

variable (o : SignedOverflow)

def fdivS32Prepare (d : BitVec 32) : Option (Divisor 32) :=
  fdivSPrepare o fdivU32Prepare d

def fdivS64Prepare (d : BitVec 64) : Option (Divisor 64) :=
  fdivSPrepare o fdivU64Prepare d

def fdivS32 (n : BitVec 32) (d : Divisor 32) : Option (BitVec 32) :=
  fdivS o mulhiU32 n d

def fdivS64 (n : BitVec 64) (d : Divisor 64) : Option (BitVec 64) :=
  fdivS o mulhiU64 n d

def fdivS32Qr (n : BitVec 32) (d : Divisor 32) : Option (QuotRem 32) :=
  fdivSQr o mulhiU32 n d

def fdivS64Qr (n : BitVec 64) (d : Divisor 64) : Option (QuotRem 64) :=
  fdivSQr o mulhiU64 n d

end Microgarbage.Math
