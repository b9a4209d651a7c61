import Microgarbage.Vm.Core

/-!
# The formatter of the host

The format engine of `vm_host_platform.c`: a conversion specification is parsed, takes its arguments
in order, and gives its text to a sink in pieces. The sink counts what it has been given; a string
argument is read out of the guest's memory while the pieces go out.
-/

namespace Microgarbage.Print

open Lib Vm

/-- A character of a format. -/
def ch (c : Char) : Byte := BitVec.ofNat 8 c.toNat

/-! ## Conversion specifications -/

structure FmtFlags where
  minus : Bool
  zero : Bool
  plus : Bool
  space : Bool
  hash : Bool
  deriving DecidableEq

def FmtFlags.none : FmtFlags := ⟨false, false, false, false, false⟩

def isFlag (b : Byte) : Bool :=
  b == ch '-' || b == ch '0' || b == ch '+' || b == ch ' ' || b == ch '#'

def FmtFlags.set (f : FmtFlags) (b : Byte) : FmtFlags :=
  if b = ch '-' then { f with minus := true }
  else if b = ch '0' then { f with zero := true }
  else if b = ch '+' then { f with plus := true }
  else if b = ch ' ' then { f with space := true }
  else { f with hash := true }

def isDigit (b : Byte) : Bool := ch '0' ≤ b && b ≤ ch '9'

/-- The length modifiers, which are ignored. -/
def isLength (b : Byte) : Bool :=
  b == ch 'h' || b == ch 'l' || b == ch 'z' || b == ch 't' || b == ch 'j'

/-- A width or a precision: taken from the arguments, or spelled by digits. -/
inductive Field where
  | star
  | number (digits : List Byte)
  deriving DecidableEq

structure Directive where
  flags : FmtFlags
  width : Field
  precision : Option Field
  lengths : List Byte
  /-- Absent at the end of the format. -/
  conv : Option Byte
  deriving DecidableEq

/-- The number that some digits spell, in 32 bits: an `int` that overflows has no meaning in C. -/
def numberOf (ds : List Byte) : Word :=
  ds.foldl (fun n d => n * 10 + (d.setWidth 32 - 48)) 0

def parseField (p : List Byte) : Field × List Byte :=
  if p.head? = some (ch '*') then (.star, p.tail)
  else (.number (p.takeWhile isDigit), p.dropWhile isDigit)

def parsePrecision (p : List Byte) : Option Field × List Byte :=
  if p.head? = some (ch '.') then
    let (f, p) := parseField p.tail
    (some f, p)
  else (none, p)

/-- What stands behind a `%`, and the rest of the format. -/
def parseDirective (p : List Byte) : Directive × List Byte :=
  let flags := (p.takeWhile isFlag).foldl FmtFlags.set .none
  let p := p.dropWhile isFlag
  let (width, p) := parseField p
  let (precision, p) := parsePrecision p
  let lengths := p.takeWhile isLength
  let p := p.dropWhile isLength
  (⟨flags, width, precision, lengths, p.head?⟩, p.tail)

/-! ## The sink -/

/-- Where a formatter's text goes, and the guest memory that its strings are read from. -/
structure Sink (σ : Type) where
  emit : σ → List Byte → Bool × σ
  read : σ → Word → Option Byte

structure FmtSink (σ : Type) where
  ctx : σ
  emitted : Nat
  failed : Bool

section Engine

variable {σ : Type} (k : Sink σ)

def fmtEmit (s : FmtSink σ) (bs : List Byte) : FmtSink σ :=
  if s.failed then s
  else if bs = [] then s
  else
    let (ok, ctx) := k.emit s.ctx bs
    if ok then { s with ctx := ctx, emitted := s.emitted + bs.length }
    else { s with ctx := ctx, failed := true }

/-- Pieces that are emitted one behind the other. -/
def fmtEmits (s : FmtSink σ) (pieces : List (List Byte)) : FmtSink σ := pieces.foldl (fmtEmit k) s

/-- The pieces of `fmt_pad`: sixteen characters each, and what is left. -/
def fmtPad (c : Byte) (n : Int) : List (List Byte) :=
  List.replicate (n.toNat / 16) (List.replicate 16 c) ++ [List.replicate (n.toNat % 16) c]

def upperDigits : List Char :=
  ['0', '1', '2', '3', '4', '5', '6', '7', '8', '9', 'A', 'B', 'C', 'D', 'E', 'F']

def lowerDigits : List Char :=
  ['0', '1', '2', '3', '4', '5', '6', '7', '8', '9', 'a', 'b', 'c', 'd', 'e', 'f']

def digitChar (upper : Bool) (d : Nat) : Byte :=
  ch ((if upper then upperDigits else lowerDigits).getD d '0')

/-- The loop of `fmt_uint`, with a bound on its rounds. -/
def fmtUintLoop (base : Nat) (upper : Bool) : Nat → Nat → List Byte → List Byte
  | 0, _, buf => buf
  | rounds + 1, v, buf =>
    if v = 0 then buf else fmtUintLoop base upper rounds (v / base) (digitChar upper (v % base) :: buf)

def fmtUint (v : Word) (base : Nat) (upper : Bool) : List Byte :=
  if v = 0 then [ch '0'] else fmtUintLoop base upper 32 v.toNat []

variable (flags : FmtFlags)

/-- The pieces of a number: its sign or prefix, its digits, and what is padded. Sums of an `int` that
overflow have no meaning in C; here they are exact. -/
def fmtNumber (width precision : Int) (lead digits : List Byte) : List (List Byte) :=
  let pad := width - (lead.length + digits.length)
  if precision > digits.length then
    let precZeros := precision - digits.length
    let pad := pad - precZeros
    (if !flags.minus && !flags.zero then fmtPad (ch ' ') pad else []) ++ [lead] ++
      fmtPad (ch '0') precZeros ++ [digits] ++ if flags.minus then fmtPad (ch ' ') pad else []
  else
    (if !flags.minus && !flags.zero then fmtPad (ch ' ') pad else []) ++ [lead] ++
      (if !flags.minus && flags.zero && precision < 0 then fmtPad (ch '0') pad else []) ++
      [digits] ++ if flags.minus then fmtPad (ch ' ') pad else []

/-- The pieces of `%d` and `%i`. -/
def fmtSigned (width precision : Int) (v : Word) : List (List Byte) :=
  let sign :=
    if v.toInt < 0 then [ch '-'] else if flags.plus then [ch '+']
    else if flags.space then [ch ' '] else []
  let v := if v.toInt < 0 then -v else v
  fmtNumber flags width precision sign (fmtUint v 10 false)

/-- The pieces of `%u`, `%x`, `%X` and `%o`. -/
def fmtUnsigned (conv : Byte) (flags : FmtFlags) (width precision : Int) (v : Word) :
    List (List Byte) :=
  let alt := flags.hash && v != 0
  if conv = ch 'x' then
    fmtNumber flags width precision (if alt then [ch '0', ch 'x'] else []) (fmtUint v 16 false)
  else if conv = ch 'X' then
    fmtNumber flags width precision (if alt then [ch '0', ch 'X'] else []) (fmtUint v 16 true)
  else if conv = ch 'o' then
    fmtNumber flags width precision (if alt then [ch '0'] else []) (fmtUint v 8 false)
  else fmtNumber flags width precision [] (fmtUint v 10 false)

def fmtChar (width : Int) (v : Word) : List (List Byte) :=
  (if !flags.minus then fmtPad (ch ' ') (width - 1) else []) ++ [[v.setWidth 8]] ++
    if flags.minus then fmtPad (ch ' ') (width - 1) else []

def fmtPointer (v : Word) : List (List Byte) :=
  let digits := fmtUint v 16 false
  fmtPad (ch '0') (8 - digits.length) ++ [digits]

def vmFormatMaxStrArg : Nat := 512

/-- The length of a string argument: up to its end, its precision, the limit or a bad address. -/
def strLength (read : Word → Option Byte) (ptr : Word) (precision : Int) : Nat → Nat → Nat
  | 0, len => len
  | left + 1, len =>
    match read (ptr + BitVec.ofNat 32 len) with
    | none => len
    | some b =>
      if b = 0 then len
      else if 0 ≤ precision ∧ precision ≤ len then len
      else strLength read ptr precision left (len + 1)

/-- The characters of a string, from the `i`-th on. -/
def emitStr (ptr : Word) : Nat → Nat → FmtSink σ → FmtSink σ
  | 0, _, s => s
  | left + 1, i, s =>
    match k.read s.ctx (ptr + BitVec.ofNat 32 i) with
    | none => s
    | some b => emitStr ptr left (i + 1) (fmtEmit k s [b])

def nullText : List Byte := [ch '(', ch 'n', ch 'u', ch 'l', ch 'l', ch ')']

/-- `%s` -/
def fmtStr (width precision : Int) (ptr : Word) (s : FmtSink σ) : FmtSink σ :=
  if ptr = 0 then
    let len := if 0 ≤ precision ∧ precision < 6 then precision else 6
    fmtEmits k s ((if !flags.minus then fmtPad (ch ' ') (width - len) else []) ++
      [nullText.take len.toNat] ++ if flags.minus then fmtPad (ch ' ') (width - len) else [])
  else
    let len := strLength (k.read s.ctx) ptr precision vmFormatMaxStrArg 0
    let s := fmtEmits k s (if !flags.minus then fmtPad (ch ' ') (width - len) else [])
    let s := emitStr k ptr len 0 s
    fmtEmits k s (if flags.minus then fmtPad (ch ' ') (width - len) else [])

/-! ## The engine -/

/-- The value of a width or a precision; a missing argument leaves zero. -/
def Field.value : Field → List Word → Word × List Word
  | .star, args => (args.headD 0, args.tail)
  | .number digits, args => (numberOf digits, args)

/-- The conversions that take an argument. -/
def takesArg (conv : Byte) : Bool :=
  conv == ch 'c' || conv == ch 's' || conv == ch 'd' || conv == ch 'i' || conv == ch 'u' ||
    conv == ch 'x' || conv == ch 'X' || conv == ch 'o' || conv == ch 'p'

/-- A conversion with its argument. -/
def convert (conv : Byte) (flags : FmtFlags) (width precision : Int) (v : Word) (s : FmtSink σ) :
    FmtSink σ :=
  if conv = ch 'c' then fmtEmits k s (fmtChar flags width v)
  else if conv = ch 's' then fmtStr k flags width precision v s
  else if conv = ch 'd' ∨ conv = ch 'i' then fmtEmits k s (fmtSigned flags width precision v)
  else if conv = ch 'p' then fmtEmits k s (fmtPointer v)
  else fmtEmits k s (fmtUnsigned conv flags width precision v)

/-- The text of a conversion whose argument is missing. -/
def missingText (conv : Byte) : List Byte := if conv = ch 's' then nullText else [ch '?']

/-- One conversion specification: what the sink is left with, and the arguments. -/
def formatDirective (d : Directive) (conv : Byte) (width precision : Int) (args : List Word)
    (s : FmtSink σ) : FmtSink σ × List Word :=
  if conv = ch '%' then (fmtEmits k s [[ch '%']], args)
  else if takesArg conv then
    match args with
    | [] => (fmtEmits k s [missingText conv], args)
    | v :: args => (convert k conv d.flags width precision v s, args)
  else (fmtEmits k s [[ch '%'], [conv]], args)

/-- The width and the precision (-1 where there is none) of a specification. -/
def Directive.fields (d : Directive) (args : List Word) : Int × Int × List Word :=
  let (width, args) := d.width.value args
  match d.precision with
  | none => (width.toInt, -1, args)
  | some f =>
    let (precision, args) := f.value args
    (width.toInt, precision.toInt, args)

/-- The loop of `format_va`, with a bound on its rounds. -/
def formatLoop : Nat → List Byte → List Word → FmtSink σ → FmtSink σ × List Word
  | 0, _, args, s => (s, args)
  | rounds + 1, p, args, s =>
    match p with
    | [] => (s, args)
    | b :: rest =>
      if b ≠ ch '%' then
        formatLoop rounds (p.dropWhile (· != ch '%')) args (fmtEmit k s (p.takeWhile (· != ch '%')))
      else
        let (d, rest) := parseDirective rest
        let (width, precision, args) := d.fields args
        match d.conv with
        | none => (s, args)
        | some conv =>
          let (s, args) := formatDirective k d conv width precision args s
          formatLoop rounds rest args s

/-- `format_va`; every round takes a character of the format. -/
def formatVa (fmt : List Byte) (args : List Word) (s : FmtSink σ) : FmtSink σ × List Word :=
  formatLoop k fmt.length fmt args s

end Engine

end Microgarbage.Print
