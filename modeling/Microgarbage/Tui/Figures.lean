import Microgarbage.Lib.Transition
import Microgarbage.Tui.Canvas

/-!
# Figures

What a drawing operation shows, apart from how it is drawn: a figure says which cell it puts at a
place, and painting it clips it to the canvas and the clip rectangle. Every drawing loop of the host
paints a figure.
-/

namespace Microgarbage.Tui

open Lib

abbrev Figure := Int → Int → Option HostCell

namespace Figure

def empty : Figure := fun _ _ => none

/-- `g` drawn over `f`. -/
def onTop (g f : Figure) : Figure := fun r c => (g r c).or (f r c)

def dot (row col : Int) (cell : HostCell) : Figure :=
  fun r c => if r = row ∧ c = col then some cell else none

def rect (row col h w : Int) (cell : HostCell) : Figure :=
  fun r c => if (row ≤ r ∧ r < row + h) ∧ col ≤ c ∧ c < col + w then some cell else none

def text (row col : Int) (bytes : List Byte) (cell : Byte → HostCell) : Figure :=
  fun r c => if r = row ∧ col ≤ c then bytes[(c - col).toNat]?.map cell else none

/-- Two horizontal bars, right of the column. -/
def hbars (row row' col : Int) (n : Nat) (cell : HostCell) : Figure :=
  fun r c => if (r = row ∨ r = row') ∧ col < c ∧ c ≤ col + n then some cell else none

/-- Two vertical bars, below the row. -/
def vbars (row col col' : Int) (n : Nat) (cell : HostCell) : Figure :=
  fun r c => if (row < r ∧ r ≤ row + n) ∧ (c = col ∨ c = col') then some cell else none

/-- The corners and edges of a box. -/
def box (row col h w : Int) (cell : Byte → HostCell) : Figure :=
  fun r c =>
    if h < 2 ∨ w < 2 then none
    else if r = row ∨ r = row + h - 1 then
      if c = col ∨ c = col + w - 1 then some (cell 43)
      else if col < c ∧ c < col + w - 1 then some (cell 45)
      else none
    else if (row < r ∧ r < row + h - 1) ∧ (c = col ∨ c = col + w - 1) then some (cell 124)
    else none

@[simp] theorem empty_onTop (f : Figure) : empty.onTop f = f := by
  funext r c
  simp [onTop, empty]

end Figure

/-- The figure on the canvas, as far as it is visible. -/
def paint (s : VmTuiSession) (f : Figure) : VmTuiSession :=
  { s with canvas := fun r c =>
      if drawable s (r + 1) (c + 1) then (f (r + 1) (c + 1)).getD (s.canvas r c) else s.canvas r c }

/-- The two figures look the same. -/
def SameShown (s : VmTuiSession) (f g : Figure) : Prop := ∀ r c, drawable s r c → f r c = g r c

section Paint

variable (s : VmTuiSession)

@[simp] theorem drawable_paint (f : Figure) (r c : Int) :
    drawable (paint s f) r c ↔ drawable s r c := Iff.rfl

@[simp] theorem paint_empty : paint s .empty = s := by
  unfold paint Figure.empty
  simp

theorem paint_canvas (f : Figure) (r c : Nat) : (paint s f).canvas r c =
    if drawable s (r + 1) (c + 1) then (f (r + 1) (c + 1)).getD (s.canvas r c) else s.canvas r c := rfl

theorem paint_eq_of_canvas {f : Figure} {s' : VmTuiSession} (h : { s with canvas := s'.canvas } = s')
    (hcanvas : ∀ r c, (paint s f).canvas r c = s'.canvas r c) : paint s f = s' := by
  have heq : (paint s f).canvas = s'.canvas := funext fun r => funext fun c => hcanvas r c
  calc paint s f = { s with canvas := (paint s f).canvas } := rfl
    _ = { s with canvas := s'.canvas } := by rw [heq]
    _ = s' := h

theorem paint_paint (f g : Figure) : paint (paint s f) g = paint s (g.onTop f) := by
  refine (paint_eq_of_canvas s rfl fun r c => ?_).symm
  rw [paint_canvas, paint_canvas, paint_canvas]
  by_cases h : drawable s (r + 1) (c + 1)
  · rw [if_pos h, if_pos ((drawable_paint s f _ _).mpr h), if_pos h]
    unfold Figure.onTop
    cases g (r + 1) (c + 1) <;> rfl
  · rw [if_neg h, if_neg fun hd => h ((drawable_paint s f _ _).mp hd), if_neg h]

theorem setCell_eq_paint (row col : Int) (cell : HostCell) :
    setCell s row col cell = paint s (.dot row col cell) := by
  unfold setCell
  split
  · rename_i h
    obtain ⟨⟨hr, -, hc, -⟩, -⟩ := id h
    refine (paint_eq_of_canvas s rfl fun r c => ?_).symm
    rw [paint_canvas]
    unfold Figure.dot
    dsimp only
    by_cases hrc : (r : Int) + 1 = row ∧ (c : Int) + 1 = col
    · have hr' : (row - 1).toNat = r := by omega
      have hc' : (col - 1).toNat = c := by omega
      rw [hr', hc', Cells.set_self, if_pos hrc, hrc.1, hrc.2, if_pos h]
      rfl
    · rw [Cells.set_ne _ _ fun he => hrc ⟨by omega, by omega⟩, if_neg hrc]
      split <;> rfl
  · rename_i h
    refine (paint_eq_of_canvas s rfl fun r c => ?_).symm
    rw [paint_canvas]
    unfold Figure.dot
    split
    · rename_i hd
      rw [if_neg fun hrc : (r : Int) + 1 = row ∧ (c : Int) + 1 = col => h (hrc.1 ▸ hrc.2 ▸ hd)]
      rfl
    · rfl

theorem foldl_paint {step : VmTuiSession → Nat → VmTuiSession} (part upTo : Nat → Figure)
    (hstep : ∀ s k, step s k = paint s (part k)) (h0 : upTo 0 = .empty)
    (hnext : ∀ k, (part k).onTop (upTo k) = upTo (k + 1)) (n : Nat) :
    (List.range n).foldl step s = paint s (upTo n) := by
  refine foldl_range_invariant (P := fun k s' => s' = paint s (upTo k)) ?_ fun k s' _ h => ?_
  · rw [h0, paint_empty]
  · rw [hstep, h, paint_paint, hnext]

theorem fillRect_eq_paint (row col : Int) (h w : Nat) (cell : HostCell) :
    fillRect s row col h w cell = paint s (.rect row col h w cell) := by
  have hrow : ∀ s (k : Nat), (List.range w).foldl (fun s (x : Nat) =>
      setCell s (row + k) (col + x) cell) s = paint s (.rect (row + k) col 1 w cell) := by
    intro s k
    refine foldl_paint s (fun x => .dot (row + k) (col + x) cell)
      (fun n => .rect (row + k) col 1 n cell) (fun s x => setCell_eq_paint ..) ?_ (fun x => ?_) w
    · funext r c
      unfold Figure.rect Figure.empty
      rw [if_neg (by omega)]
    · funext r c
      unfold Figure.onTop Figure.dot Figure.rect
      grind
  refine foldl_paint s (fun k => .rect (row + k) col 1 w cell)
    (fun n => .rect row col n w cell) hrow ?_ (fun k => ?_) h
  · funext r c
    unfold Figure.rect Figure.empty
    rw [if_neg (by omega)]
  · funext r c
    unfold Figure.onTop Figure.rect
    grind

theorem text_append (row col : Int) (bytes bytes' : List Byte) (cell : Byte → HostCell) :
    (Figure.text row (col + bytes.length) bytes' cell).onTop (.text row col bytes cell) =
      .text row col (bytes ++ bytes') cell := by
  funext r c
  unfold Figure.onTop Figure.text
  by_cases hr : r = row ∧ col ≤ c
  · rw [if_pos hr, if_pos hr, List.getElem?_append]
    by_cases hc : col + bytes.length ≤ c
    · have hlen : bytes.length ≤ (c - col).toNat := by omega
      have hi : (c - (col + bytes.length)).toNat = (c - col).toNat - bytes.length := by omega
      rw [if_pos ⟨hr.1, hc⟩, if_neg (Nat.not_lt.mpr hlen), List.getElem?_eq_none hlen, hi]
      simp
    · rw [if_neg fun h => hc h.2, if_pos (by omega)]
      rfl
  · rw [if_neg hr, if_neg hr, if_neg fun h => hr ⟨h.1, by omega⟩]
    rfl

theorem text_singleton (row col : Int) (b : Byte) (cell : Byte → HostCell) :
    Figure.text row col [b] cell = .dot row col (cell b) := by
  funext r c
  unfold Figure.text Figure.dot
  by_cases hrc : r = row ∧ c = col
  · rw [if_pos hrc, if_pos ⟨hrc.1, by omega⟩, hrc.2]
    simp
  · rw [if_neg hrc]
    split
    · rw [List.getElem?_eq_none]
      · rfl
      · rw [List.length_singleton]
        omega
    · rfl

theorem putText_eq_paint (row col : Int) (bytes : List Byte) (cell : Byte → HostCell) :
    putText s row col bytes cell = paint s (.text row col bytes cell) := by
  unfold putText
  induction bytes using List.reverseRecOn with
  | nil =>
    have hnil : Figure.text row col [] cell = .empty := by
      funext r c
      simp [Figure.text, Figure.empty]
    rw [hnil, paint_empty]
    rfl
  | append_singleton bytes b ih =>
    rw [List.zipIdx_append, List.foldl_append, ih, ← text_append, text_singleton, ← paint_paint,
      ← setCell_eq_paint]
    simp

theorem hbars_eq_paint (row row' col : Int) (n : Nat) (cell : HostCell) :
    (List.range n).foldl (fun s (i : Nat) =>
      setCell (setCell s row (col + 1 + i) cell) row' (col + 1 + i) cell) s =
      paint s (.hbars row row' col n cell) := by
  refine foldl_paint s (fun i => (Figure.dot row' (col + 1 + i) cell).onTop
    (.dot row (col + 1 + i) cell)) (fun n => .hbars row row' col n cell) (fun s i => ?_) ?_
    (fun i => ?_) n
  · rw [setCell_eq_paint, setCell_eq_paint, paint_paint]
  · funext r c
    unfold Figure.hbars Figure.empty
    rw [if_neg (by omega)]
  · funext r c
    unfold Figure.onTop Figure.dot Figure.hbars
    grind

theorem vbars_eq_paint (row col col' : Int) (n : Nat) (cell : HostCell) :
    (List.range n).foldl (fun s (i : Nat) =>
      setCell (setCell s (row + 1 + i) col cell) (row + 1 + i) col' cell) s =
      paint s (.vbars row col col' n cell) := by
  refine foldl_paint s (fun i => (Figure.dot (row + 1 + i) col' cell).onTop
    (.dot (row + 1 + i) col cell)) (fun n => .vbars row col col' n cell) (fun s i => ?_) ?_
    (fun i => ?_) n
  · rw [setCell_eq_paint, setCell_eq_paint, paint_paint]
  · funext r c
    unfold Figure.vbars Figure.empty
    rw [if_neg (by omega)]
  · funext r c
    unfold Figure.onTop Figure.dot Figure.vbars
    grind

theorem applyBoxAsciiOnly_eq_paint (row col h w : Int) :
    applyBoxAsciiOnly s row col h w = paint s (.box row col h w (penCell s)) := by
  unfold applyBoxAsciiOnly
  split
  · rename_i hsmall
    have hnone : Figure.box row col h w (penCell s) = .empty := by
      funext r c
      unfold Figure.box Figure.empty
      rw [if_pos hsmall]
    rw [hnone, paint_empty]
  · rename_i hbig
    dsimp only
    rw [hbars_eq_paint, vbars_eq_paint, setCell_eq_paint, setCell_eq_paint, setCell_eq_paint,
      setCell_eq_paint]
    simp only [paint_paint]
    congr 1
    funext r c
    unfold Figure.onTop Figure.dot Figure.hbars Figure.vbars Figure.box
    rw [if_neg hbig]
    generalize penCell s 43 = corner
    generalize penCell s 45 = hbar
    generalize penCell s 124 = vbar
    have hw : ((w - 2).toNat : Int) = w - 2 := by omega
    have hh : ((h - 2).toNat : Int) = h - 2 := by omega
    rw [hw, hh]
    grind

end Paint

end Microgarbage.Tui
