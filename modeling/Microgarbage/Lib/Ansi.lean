import Mathlib.Data.List.Basic
import Mathlib.Data.Nat.Notation
import Mathlib.Logic.Function.Basic

/-!
# A character terminal

A screen of cells that is written through a byte stream: printable characters (ASCII and UTF-8
sequences) at the cursor, cursor positioning (`CSI row ; col H`), character styles (`CSI ... m`) and
private modes, which change nothing here. Rows and columns count from 1. After a character in the
last column the cursor waits behind it; the next character goes to the next line.
-/

namespace Microgarbage.Lib.Ansi

abbrev Byte := BitVec 8

inductive Color
  | default
  | indexed (n : Nat)
  deriving DecidableEq

structure Style where
  fg : Color
  bg : Color
  bold : Bool
  dim : Bool
  underline : Bool
  reverse : Bool
  deriving DecidableEq

def Style.plain : Style := ⟨.default, .default, false, false, false, false⟩

/-- A character, as its UTF-8 bytes, and its style. -/
structure Cell where
  glyph : List Byte
  style : Style
  deriving DecidableEq

inductive Parser
  | ground
  | esc
  /-- Inside a control sequence: whether it is private, and the parameters, the last first. -/
  | csi (priv : Bool) (params : List Nat)
  /-- Inside a UTF-8 sequence, with the bytes that are still missing. -/
  | utf8 (bytes : List Byte) (need : Nat)
  deriving DecidableEq

structure Terminal where
  height : Nat
  width : Nat
  screen : Nat → Nat → Cell
  row : Nat
  col : Nat
  style : Style
  parser : Parser

/-! ## Styles -/

def sgrOne (s : Style) (p : Nat) : Style :=
  if p = 0 then .plain
  else if p = 1 then { s with bold := true }
  else if p = 2 then { s with dim := true }
  else if p = 4 then { s with underline := true }
  else if p = 7 then { s with reverse := true }
  else if 30 ≤ p ∧ p < 38 then { s with fg := .indexed (p - 30) }
  else if p = 39 then { s with fg := .default }
  else if 40 ≤ p ∧ p < 48 then { s with bg := .indexed (p - 40) }
  else if p = 49 then { s with bg := .default }
  else if 90 ≤ p ∧ p < 98 then { s with fg := .indexed (p - 90 + 8) }
  else if 100 ≤ p ∧ p < 108 then { s with bg := .indexed (p - 100 + 8) }
  else s

/-- Select graphic rendition; 38 and 48 take two more parameters. -/
def sgr : Style → List Nat → Style
  | s, [] => s
  | s, 38 :: 5 :: n :: ps => sgr { s with fg := .indexed n } ps
  | s, 48 :: 5 :: n :: ps => sgr { s with bg := .indexed n } ps
  | s, p :: ps => sgr (sgrOne s p) ps

/-! ## The terminal -/

section Step

variable (t : Terminal)

def Terminal.setCell (r c : Nat) (cell : Cell) : Terminal :=
  { t with screen := fun r' c' => if r' = r ∧ c' = c then cell else t.screen r' c' }

/-- To the first column of the next line, which scrolls at the bottom. -/
def Terminal.newline : Terminal :=
  if t.row < t.height then { t with row := t.row + 1, col := 1 }
  else { t with
    col := 1
    screen := fun r c => if r < t.height then t.screen (r + 1) c else ⟨[32], .plain⟩ }

def Terminal.put (glyph : List Byte) : Terminal :=
  let t := if t.width < t.col then t.newline else t
  { t.setCell t.row t.col ⟨glyph, t.style⟩ with col := t.col + 1 }

def Terminal.moveTo (r c : Nat) : Terminal :=
  { t with row := min (max r 1) t.height, col := min (max c 1) t.width }

def Terminal.dispatch (priv : Bool) (params : List Nat) (final : Nat) : Terminal :=
  if priv then t
  else if final = 0x48 then t.moveTo (params.getD 0 1) (params.getD 1 1)
  else if final = 0x6d then { t with style := sgr t.style params }
  else t

def Terminal.groundByte (b : Byte) : Terminal :=
  if b.toNat = 0x1b then { t with parser := .esc }
  else if b.toNat = 0x0d then { t with col := 1 }
  else if b.toNat = 0x0a then t.newline
  else if b.toNat < 0x20 ∨ b.toNat = 0x7f then t
  else if b.toNat < 0x80 then t.put [b]
  else if 0xc0 ≤ b.toNat ∧ b.toNat < 0xe0 then { t with parser := .utf8 [b] 1 }
  else if 0xe0 ≤ b.toNat ∧ b.toNat < 0xf0 then { t with parser := .utf8 [b] 2 }
  else if 0xf0 ≤ b.toNat ∧ b.toNat < 0xf8 then { t with parser := .utf8 [b] 3 }
  else t

def Terminal.csiByte (priv : Bool) (params : List Nat) (b : Byte) : Terminal :=
  if 0x30 ≤ b.toNat ∧ b.toNat ≤ 0x39 then
    { t with parser := .csi priv ((params.headD 0 * 10 + (b.toNat - 0x30)) :: params.tail) }
  else if b.toNat = 0x3b then { t with parser := .csi priv (0 :: params) }
  else if b.toNat = 0x3f then { t with parser := .csi true params }
  else if 0x40 ≤ b.toNat ∧ b.toNat ≤ 0x7e then
    { t.dispatch priv params.reverse b.toNat with parser := .ground }
  else { t with parser := .ground }

def Terminal.step (b : Byte) : Terminal :=
  match t.parser with
  | .ground => t.groundByte b
  | .esc => if b.toNat = 0x5b then { t with parser := .csi false [0] } else { t with parser := .ground }
  | .csi priv params => t.csiByte priv params b
  | .utf8 bytes need =>
    if need ≤ 1 then ({ t with parser := .ground } : Terminal).put (bytes ++ [b])
    else { t with parser := .utf8 (bytes ++ [b]) (need - 1) }

def Terminal.feed (bs : List Byte) : Terminal := bs.foldl Terminal.step t

end Step

variable {t : Terminal}

@[simp] theorem feed_nil (t : Terminal) : t.feed [] = t := rfl

@[simp] theorem feed_cons (t : Terminal) (b : Byte) (bs : List Byte) :
    t.feed (b :: bs) = (t.step b).feed bs := rfl

theorem feed_append (t : Terminal) (bs cs : List Byte) :
    t.feed (bs ++ cs) = (t.feed bs).feed cs := List.foldl_append ..

/-! ## Control sequences -/

/-- The number that digits spell, after `n`. -/
def digitsValue (n : Nat) (ds : List Byte) : Nat :=
  ds.foldl (fun n d => n * 10 + (d.toNat - 0x30)) n

def IsDigit (b : Byte) : Prop := 0x30 ≤ b.toNat ∧ b.toNat ≤ 0x39

instance (b : Byte) : Decidable (IsDigit b) := inferInstanceAs (Decidable (_ ∧ _))

theorem feed_digits {ds : List Byte} (h : ∀ d ∈ ds, IsDigit d) (priv : Bool) (n : Nat)
    (ps : List Nat) :
    ({ t with parser := .csi priv (n :: ps) } : Terminal).feed ds =
      { t with parser := .csi priv (digitsValue n ds :: ps) } := by
  induction ds generalizing n with
  | nil => rfl
  | cons d ds ih =>
    have hd := h d (List.mem_cons_self ..)
    rw [feed_cons]
    have hstep : ({ t with parser := .csi priv (n :: ps) } : Terminal).step d =
        { t with parser := .csi priv ((n * 10 + (d.toNat - 0x30)) :: ps) } := if_pos hd
    rw [hstep, ih fun d' hd' => h d' (List.mem_cons_of_mem _ hd')]
    rfl

theorem feed_csi (h : t.parser = .ground) :
    t.feed [0x1b, 0x5b] = { t with parser := .csi false [0] } := by
  simp [Terminal.step, Terminal.groundByte, h]

theorem feed_param {ds : List Byte} (h : ∀ d ∈ ds, IsDigit d) (priv : Bool) (ps : List Nat) :
    ({ t with parser := .csi priv ps } : Terminal).feed (0x3b :: ds) =
      { t with parser := .csi priv (digitsValue 0 ds :: ps) } := by
  have hsep : ({ t with parser := .csi priv ps } : Terminal).step 0x3b =
      { t with parser := .csi priv (0 :: ps) } := rfl
  rw [feed_cons, hsep, feed_digits h]

theorem feed_moveTo (ps : List Nat) :
    ({ t with parser := .csi false ps } : Terminal).feed [0x48] =
      { t.moveTo (ps.reverse.getD 0 1) (ps.reverse.getD 1 1) with parser := .ground } := rfl

theorem feed_sgr (ps : List Nat) :
    ({ t with parser := .csi false ps } : Terminal).feed [0x6d] =
      { t with style := sgr t.style ps.reverse, parser := .ground } := rfl

theorem feed_private (h : t.parser = .ground) {ds : List Byte} (hds : ∀ d ∈ ds, IsDigit d)
    {final : Byte} (hf : 0x40 ≤ final.toNat ∧ final.toNat ≤ 0x7e) :
    t.feed ([0x1b, 0x5b] ++ 0x3f :: (ds ++ [final])) = t := by
  have hpriv : ({ t with parser := .csi false [0] } : Terminal).step 0x3f =
      { t with parser := .csi true [0] } := rfl
  have hfinal : ∀ n, ({ t with parser := .csi true [n] } : Terminal).step final = t := by
    intro n
    have hstep : ({ t with parser := .csi true [n] } : Terminal).step final =
        ({ t with parser := .csi true [n] } : Terminal).csiByte true [n] final := rfl
    rw [hstep]
    unfold Terminal.csiByte
    rw [if_neg (by omega), if_neg (by omega), if_neg (by omega), if_pos hf, ← h]
    rfl
  rw [feed_append, feed_csi h, feed_cons, hpriv, feed_append, feed_digits hds, feed_cons, feed_nil,
    hfinal]

/-! ## Characters -/

/-- A printable character: one byte, or a complete UTF-8 sequence of three. -/
def IsGlyph (g : List Byte) : Prop :=
  (∃ b : Byte, g = [b] ∧ 0x20 ≤ b.toNat ∧ b.toNat < 0x7f) ∨
    ∃ b c d : Byte, g = [b, c, d] ∧ 0xe0 ≤ b.toNat ∧ b.toNat < 0xf0

theorem feed_glyph {g : List Byte} (hg : IsGlyph g) (h : t.parser = .ground) :
    t.feed g = t.put g := by
  rcases hg with ⟨b, rfl, h₁, h₂⟩ | ⟨b, c, d, rfl, h₁, h₂⟩
  · rw [feed_cons, feed_nil, Terminal.step, h]
    unfold Terminal.groundByte
    simp (disch := omega) only [if_neg, if_pos]
  · have hlead : t.step b = { t with parser := .utf8 [b] 2 } := by
      rw [Terminal.step, h]
      unfold Terminal.groundByte
      simp (disch := omega) only [if_neg, if_pos]
    have hlast : ({ t with parser := .ground } : Terminal) = t := by rw [← h]
    have hmid : ({ t with parser := .utf8 [b] 2 } : Terminal).step c =
        { t with parser := .utf8 [b, c] 1 } := rfl
    have hend : ({ t with parser := .utf8 [b, c] 1 } : Terminal).step d =
        ({ t with parser := .ground } : Terminal).put [b, c, d] := rfl
    rw [feed_cons, feed_cons, feed_cons, feed_nil, hlead, hmid, hend, hlast]

theorem put_inside (g : List Byte) (h : t.col ≤ t.width) :
    t.put g = { t.setCell t.row t.col ⟨g, t.style⟩ with col := t.col + 1 } := by
  unfold Terminal.put
  rw [if_neg (by omega)]

theorem moveTo_inside {r c : Nat} (hr : 1 ≤ r) (hr' : r ≤ t.height) (hc : 1 ≤ c)
    (hc' : c ≤ t.width) : t.moveTo r c = { t with row := r, col := c } := by
  unfold Terminal.moveTo
  rw [Nat.max_eq_left hr, Nat.max_eq_left hc, Nat.min_eq_left hr', Nat.min_eq_left hc']

end Microgarbage.Lib.Ansi
