import Mathlib.Data.List.Induction
import Mathlib.Data.List.Infix

/-!
# Telnet streams

A stream of bytes is text with commands in it, each introduced by IAC: two bytes, an option with its
verb, or a subnegotiation, which ends with IAC SE. IAC itself is doubled, inside a subnegotiation
too; the last command of a stream may still be open.
-/

namespace Microgarbage.Lib.Telnet

abbrev Byte := BitVec 8

def se : Byte := 240

def sb : Byte := 250

def will : Byte := 251

def wont : Byte := 252

def do' : Byte := 253

def dont : Byte := 254

def iac : Byte := 255

def IsVerb (b : Byte) : Prop := b = will ∨ b = wont ∨ b = do' ∨ b = dont

instance (b : Byte) : Decidable (IsVerb b) := inferInstanceAs (Decidable (_ ∨ _))

/-- What a subnegotiation consists of. -/
inductive Item
  | byte (b : Byte)
  | escaped
  | command (b : Byte)
  deriving DecidableEq

inductive Piece
  | text (b : Byte)
  | escaped
  | command (b : Byte)
  | option (verb b : Byte)
  | sub (payload : List Item)
  deriving DecidableEq

/-- What is open at the end of a stream. -/
inductive Open
  | nothing
  | iac
  | option (verb : Byte)
  | sub (payload : List Item)
  | subIac (payload : List Item)
  deriving DecidableEq

/-- What a piece is to the user. -/
def Piece.shown : Piece → List Byte
  | .text b => [b]
  | .escaped => [Telnet.iac]
  | .command _ => []
  | .option _ _ => []
  | .sub _ => []

structure Reading where
  pieces : List Piece
  rest : Open
  deriving DecidableEq

def Reading.shown (r : Reading) : List Byte := r.pieces.flatMap Piece.shown

/-! ## Reading -/

/-- The piece that a byte completes, and what is open after it. -/
def Open.push : Open → Byte → Option Piece × Open
  | .nothing, b => if b = Telnet.iac then (none, .iac) else (some (.text b), .nothing)
  | .iac, b =>
    if b = Telnet.iac then (some .escaped, .nothing)
    else if IsVerb b then (none, .option b)
    else if b = sb then (none, .sub [])
    else (some (.command b), .nothing)
  | .option verb, b => (some (.option verb b), .nothing)
  | .sub payload, b =>
    if b = Telnet.iac then (none, .subIac payload) else (none, .sub (payload ++ [.byte b]))
  | .subIac payload, b =>
    if b = se then (some (.sub payload), .nothing)
    else if b = Telnet.iac then (none, .sub (payload ++ [.escaped]))
    else (none, .sub (payload ++ [.command b]))

def Reading.push (r : Reading) (b : Byte) : Reading :=
  ⟨r.pieces ++ (r.rest.push b).1.toList, (r.rest.push b).2⟩

def Reading.feed (r : Reading) (s : List Byte) : Reading := s.foldl Reading.push r

def read (s : List Byte) : Reading := Reading.feed ⟨[], .nothing⟩ s

@[simp] theorem read_concat (s : List Byte) (b : Byte) : read (s ++ [b]) = (read s).push b :=
  List.foldl_concat ..

end Microgarbage.Lib.Telnet
