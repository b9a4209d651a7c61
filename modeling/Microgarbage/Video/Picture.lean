import Microgarbage.Lib.FirstGreatest
import Microgarbage.Video.RenderSafety

/-!
# The rendered picture

The framebuffer and the z-buffer after `r3d_render_x`. In every pixel the gathered triangles compete
by their depth there, one after the other; what is left is the first of the nearest.
-/

namespace Microgarbage.Video

open Lib Math
open Function (update update_of_ne update_self)

/-! ## Painting -/

/-- `r3d_bayer8` -/
def bayer8 : List Nat :=
  [0, 32, 8, 40, 2, 34, 10, 42, 48, 16, 56, 24, 50, 18, 58, 26,
    12, 44, 4, 36, 14, 46, 6, 38, 60, 28, 52, 20, 62, 30, 54, 22,
    3, 35, 11, 43, 1, 33, 9, 41, 51, 19, 59, 27, 49, 17, 57, 25,
    15, 47, 7, 39, 13, 45, 5, 37, 63, 31, 55, 23, 61, 29, 53, 21]

/-- The colour of a face at a pixel. -/
def R3dScene.out (s : R3dScene) (dither : Bool) (t : Shade) (x y : Int) : BitVec 8 :=
  if dither then
    let sh := (t.pos.toNat + bayer8.getD ((y % 8) * 8 + x % 8).toNat 0 * 4) / 2 ^ 8
    BitVec.ofInt 8 (t.base.toNat + clampi (sh : Nat) 0 (s.ramp - 1))
  else t.color

/-- The framebuffer and the z-buffer. Which triangle wrote a pixel last is not kept by the code. -/
structure Frame where
  fb : Int → BitVec 8
  zbuf : Int → Int
  owner : Int → Option (Corners × Shade)

namespace Corners

variable (t : Corners)

/-- The depth at a pixel, before it is cut to 32 bits. -/
def depth (x y : Int) : Int := t.za.toInt + t.dzdx * (x - t.a.sx) + t.dzdy * (y - t.a.sy)

/-- The interpolated depth at a pixel. -/
def depthAt (x y : Int) : Int := Int.bmod (t.depth x y) (2 ^ 32)

def covers (x y : Int) : Bool := t.area != 0 && t.inside x y

end Corners

section Paint

variable (out : Shade → Int → Int → BitVec 8) (fbw fbh : Int) (useZ : Bool)

/-- One turn of the inner loop. -/
def paintPixel (t : Corners × Shade) (y : Int) (st : Frame × Int) (x : Int) : Frame × Int :=
  let f := st.1
  let depth := st.2
  let idx := y * fbw + x
  let f :=
    if t.1.inside x y then
      if useZ then
        let d := Int.bmod depth (2 ^ 32)
        if f.zbuf idx < d then
          { fb := update f.fb idx (out t.2 x y)
            zbuf := update f.zbuf idx d
            owner := update f.owner idx (some t) }
        else f
      else
        { f with
          fb := update f.fb idx (out t.2 x y)
          owner := update f.owner idx (some t) }
    else f
  (f, depth + t.1.dzdx)

def paintRow (t : Corners × Shade) (f : Frame) (y : Int) : Frame :=
  ((fromTo (t.1.minx fbw) (t.1.maxx fbw)).foldl (paintPixel out fbw useZ t y)
    (f, t.1.rowDepth fbw y)).1

def paintTri (f : Frame) (t : Corners × Shade) : Frame :=
  if t.1.area = 0 then f
  else (fromTo (t.1.miny fbh) (t.1.maxy fbh)).foldl (paintRow out fbw useZ t) f

end Paint

/-- The cleared framebuffer, and the z-buffer if it is used. -/
def Frame.clear (f : Frame) (npix : Int) (useZ : Bool) : Frame where
  fb i := if 0 ≤ i ∧ i < npix then 0 else f.fb i
  zbuf i := if useZ ∧ 0 ≤ i ∧ i < npix then 0 else f.zbuf i
  owner i := if 0 ≤ i ∧ i < npix then none else f.owner i

/-- `r3d_render_x` -/
def R3dScene.render (s : R3dScene) (fbw fbh : Nat) (dither : Bool) (before : Nat → Vertex)
    (f : Frame) : Frame :=
  let st := s.gather fbw fbh before
  st.tris.foldl (fun f t => paintTri (s.out dither) fbw fbh (useZ fbw fbh) f (st.drawn t))
    (f.clear (fbw * fbh : Nat) (useZ fbw fbh))

/-! ## Loops from one number to another -/

theorem fromTo_cons {lo hi : Int} (h : lo ≤ hi) : fromTo lo hi = lo :: fromTo (lo + 1) hi := by
  unfold fromTo
  rw [show (hi + 1 - lo).toNat = (hi + 1 - (lo + 1)).toNat + 1 by omega, List.range_succ_eq_map,
    List.map_cons, List.map_map]
  congr 1
  · simp
  · refine List.map_congr_left fun i _ => ?_
    simp only [Function.comp_apply, Nat.succ_eq_add_one]
    omega

theorem fromTo_nil {lo hi : Int} (h : hi < lo) : fromTo lo hi = [] := by
  unfold fromTo
  rw [show (hi + 1 - lo).toNat = 0 by omega]
  rfl

theorem foldl_fromTo {σ : Type*} {body : σ → Int → σ} (P : Int → σ → Prop) {lo hi : Int}
    (hbody : ∀ x s, lo ≤ x → x ≤ hi → P x s → P (x + 1) (body s x)) (hle : lo ≤ hi + 1) {s : σ}
    (h : P lo s) : P (hi + 1) ((fromTo lo hi).foldl body s) := by
  generalize hn : (hi + 1 - lo).toNat = n
  induction n generalizing lo s with
  | zero =>
    obtain rfl : lo = hi + 1 := by omega
    rw [fromTo_nil (by omega)]
    exact h
  | succ n ih =>
    rw [fromTo_cons (by omega), List.foldl_cons]
    exact ih (fun x s hx => hbody x s (by omega)) (by omega) (hbody lo s le_rfl (by omega) h)
      (by omega)

theorem foldl_fromTo_at {σ : Type*} {body : σ → Int → σ} {P Q : Int → σ → Prop} {lo hi x₀ : Int}
    (hP : ∀ x s, lo ≤ x → x ≤ hi → x ≠ x₀ → P x s → P (x + 1) (body s x))
    (hQ : ∀ x s, lo ≤ x → x ≤ hi → x ≠ x₀ → Q x s → Q (x + 1) (body s x))
    (hhit : ∀ s, P x₀ s → Q (x₀ + 1) (body s x₀)) (hx₀ : lo ≤ x₀ ∧ x₀ ≤ hi) {s : σ}
    (h : P lo s) : Q (hi + 1) ((fromTo lo hi).foldl body s) := by
  have hloop : if x₀ < hi + 1 then Q (hi + 1) ((fromTo lo hi).foldl body s)
      else P (hi + 1) ((fromTo lo hi).foldl body s) := by
    refine foldl_fromTo (fun x s => if x₀ < x then Q x s else P x s) (fun x s hlo hhi hx => ?_)
      (by omega) ?_
    · rcases lt_trichotomy x x₀ with hlt | rfl | hgt
      · rw [if_neg (by omega)] at hx
        rw [if_neg (by omega)]
        exact hP x s hlo hhi hlt.ne hx
      · rw [if_neg (by omega)] at hx
        rw [if_pos (by omega)]
        exact hhit s hx
      · rw [if_pos hgt] at hx
        rw [if_pos (by omega)]
        exact hQ x s hlo hhi hgt.ne' hx
    · rw [if_neg (by omega)]
      exact h
  rwa [if_pos (by omega)] at hloop

/-! ## One pixel -/

section Cell

variable (out : Shade → Int → Int → BitVec 8) (fbw : Nat) (x₀ y₀ : Int)

/-- The depth of a triangle at the pixel. -/
def nearness (t : Corners × Shade) : Int := t.1.depthAt x₀ y₀

/-- The pixel holds the triangle `w`, or the sky. -/
structure Cell (f : Frame) (w : Option (Corners × Shade)) : Prop where
  fb : f.fb (y₀ * fbw + x₀) = w.elim 0 fun t => out t.2 x₀ y₀
  zbuf : f.zbuf (y₀ * fbw + x₀) = bestKey (nearness x₀ y₀) 0 w
  owner : f.owner (y₀ * fbw + x₀) = w

variable {out fbw x₀ y₀} {f : Frame} {w : Option (Corners × Shade)} {t : Corners × Shade}

theorem Cell.paintPixel_ne {st : Frame × Int} {x y : Int} (h : Cell out fbw x₀ y₀ st.1 w)
    (hne : t.1.inside x y = true → y * fbw + x ≠ y₀ * fbw + x₀) :
    Cell out fbw x₀ y₀ (paintPixel out fbw true t y st x).1 w := by
  unfold paintPixel
  dsimp only
  split
  · rename_i hin
    have hidx := (hne hin).symm
    rw [if_pos rfl]
    split
    · refine ⟨?_, ?_, ?_⟩
      · dsimp only
        rw [update_of_ne hidx]
        exact h.fb
      · dsimp only
        rw [update_of_ne hidx]
        exact h.zbuf
      · dsimp only
        rw [update_of_ne hidx]
        exact h.owner
    · exact h
  · exact h

/-- At the pixel itself the triangle competes with the one that is there. -/
theorem Cell.paintPixel_at {st : Frame × Int} (h : Cell out fbw x₀ y₀ st.1 w)
    (hdepth : st.2 = t.1.depth x₀ y₀) :
    Cell out fbw x₀ y₀ (paintPixel out fbw true t y₀ st x₀).1
      (if t.1.inside x₀ y₀ then keepGreatest (nearness x₀ y₀) 0 w t else w) := by
  have hkey : Int.bmod st.2 (2 ^ 32) = nearness x₀ y₀ t := by
    rw [hdepth]
    rfl
  unfold paintPixel keepGreatest
  dsimp only
  split
  · rw [if_pos rfl, h.zbuf, hkey]
    split
    · exact ⟨update_self .., update_self .., update_self ..⟩
    · exact h
  · exact h

variable {fbh : Nat} (hx₀ : 0 ≤ x₀ ∧ x₀ < fbw) (hy₀ : 0 ≤ y₀ ∧ y₀ < fbh)

theorem index_ne {x y : Int} (hx₀ : 0 ≤ x₀ ∧ x₀ < fbw) (hx : 0 ≤ x ∧ x < fbw)
    (hne : y ≠ y₀ ∨ x ≠ x₀) : y * fbw + x ≠ y₀ * fbw + x₀ := by
  intro heq
  have hrow : y = y₀ := by
    by_contra hrow
    rcases lt_or_gt_of_ne hrow with hlt | hgt
    · nlinarith
    · nlinarith
  rw [hrow] at heq
  omega

include hx₀

theorem Cell.paintRow_ne {y : Int} (h : Cell out fbw x₀ y₀ f w) (harea : t.1.area ≠ 0) (hne : y ≠ y₀)
    : Cell out fbw x₀ y₀ (paintRow out fbw true t f y) w := by
  have hbox : t.1.minx fbw ≤ t.1.maxx fbw + 1 := by
    unfold Corners.minx Corners.maxx clampi min3 max3
    split_ifs <;> omega
  unfold paintRow
  refine foldl_fromTo (s := (f, t.1.rowDepth fbw y))
    (fun _ (st : Frame × Int) => Cell out fbw x₀ y₀ st.1 w) (fun x st hlow hhigh hst => ?_) hbox h
  refine hst.paintPixel_ne fun hin => index_ne hx₀ ?_ (Or.inl hne)
  obtain ⟨hcol, -⟩ := Corners.inside_box harea hin
  exact box_pixel hlow hhigh hcol.1 hcol.2

theorem Cell.paintRow_at (h : Cell out fbw x₀ y₀ f w) (harea : t.1.area ≠ 0) :
    Cell out fbw x₀ y₀ (paintRow out fbw true t f y₀)
      (if t.1.inside x₀ y₀ then keepGreatest (nearness x₀ y₀) 0 w t else w) := by
  have hskip (x : Int) (st : Frame × Int) (hlow : t.1.minx fbw ≤ x) (hhigh : x ≤ t.1.maxx fbw)
      (hne : x ≠ x₀) (w : Option (Corners × Shade)) (hst : Cell out fbw x₀ y₀ st.1 w) :
      Cell out fbw x₀ y₀ (paintPixel out fbw true t y₀ st x).1 w := by
    refine hst.paintPixel_ne fun hin => index_ne hx₀ ?_ (Or.inr hne)
    obtain ⟨hcol, -⟩ := Corners.inside_box harea hin
    exact box_pixel hlow hhigh hcol.1 hcol.2
  have hstep (x : Int) (st : Frame × Int) (hst : st.2 = t.1.depth x y₀) :
      (paintPixel out fbw true t y₀ st x).2 = t.1.depth (x + 1) y₀ := by
    unfold paintPixel Corners.depth at *
    dsimp only
    rw [hst]
    ring
  have hbox : t.1.minx fbw ≤ t.1.maxx fbw + 1 := by
    unfold Corners.minx Corners.maxx clampi min3 max3
    split_ifs <;> omega
  unfold paintRow
  by_cases hin : t.1.minx fbw ≤ x₀ ∧ x₀ ≤ t.1.maxx fbw
  · exact foldl_fromTo_at (s := (f, t.1.rowDepth fbw y₀))
      (P := fun x (st : Frame × Int) => Cell out fbw x₀ y₀ st.1 w ∧ st.2 = t.1.depth x y₀)
      (Q := fun _ (st : Frame × Int) => Cell out fbw x₀ y₀ st.1
        (if t.1.inside x₀ y₀ then keepGreatest (nearness x₀ y₀) 0 w t else w))
      (fun x st hlow hhigh hne hst => ⟨hskip x st hlow hhigh hne w hst.1, hstep x st hst.2⟩)
      (fun x st hlow hhigh hne hst => hskip x st hlow hhigh hne _ hst)
      (fun st hst => hst.1.paintPixel_at hst.2) hin ⟨h, rfl⟩
  · have hout : t.1.inside x₀ y₀ = false := by
      rw [← Bool.not_eq_true]
      intro hinside
      obtain ⟨hcol, -⟩ := Corners.inside_box harea hinside
      refine hin ?_
      unfold Corners.minx Corners.maxx clampi
      split_ifs <;> omega
    rw [hout, if_neg nofun]
    exact foldl_fromTo (s := (f, t.1.rowDepth fbw y₀))
      (fun _ (st : Frame × Int) => Cell out fbw x₀ y₀ st.1 w) (fun x st hlow hhigh hst => hskip x st hlow hhigh (by omega) w hst) hbox h

include hy₀

theorem Cell.paintTri (h : Cell out fbw x₀ y₀ f w) (t : Corners × Shade) :
    Cell out fbw x₀ y₀ (paintTri out fbw fbh true f t)
      (if t.1.covers x₀ y₀ then keepGreatest (nearness x₀ y₀) 0 w t else w) := by
  unfold Video.paintTri Corners.covers
  by_cases harea : t.1.area = 0
  · simpa [harea] using h
  · have hbox : t.1.miny fbh ≤ t.1.maxy fbh + 1 := by
      unfold Corners.miny Corners.maxy clampi min3 max3
      split_ifs <;> omega
    rw [if_neg harea, bne_iff_ne.mpr harea, Bool.true_and]
    by_cases hin : t.1.miny fbh ≤ y₀ ∧ y₀ ≤ t.1.maxy fbh
    · exact foldl_fromTo_at (P := fun _ f => Cell out fbw x₀ y₀ f w)
        (Q := fun _ f => Cell out fbw x₀ y₀ f
          (if t.1.inside x₀ y₀ then keepGreatest (nearness x₀ y₀) 0 w t else w))
        (fun y f _ _ hne hf => hf.paintRow_ne hx₀ harea hne)
        (fun y f _ _ hne hf => hf.paintRow_ne hx₀ harea hne)
        (fun f hf => hf.paintRow_at hx₀ harea) hin h
    · have hout : t.1.inside x₀ y₀ = false := by
        rw [← Bool.not_eq_true]
        intro hinside
        obtain ⟨-, hrow⟩ := Corners.inside_box harea hinside
        refine hin ?_
        unfold Corners.miny Corners.maxy clampi
        split_ifs <;> omega
      rw [hout, if_neg nofun]
      exact foldl_fromTo (fun _ f => Cell out fbw x₀ y₀ f w)
        (fun y f hlow hhigh hf => hf.paintRow_ne hx₀ harea (by omega)) hbox h

/-- The pixel after all triangles holds the first of the nearest that cover it. -/
theorem cell_foldl (h : Cell out fbw x₀ y₀ f none) (l : List (Corners × Shade)) :
    Cell out fbw x₀ y₀ (l.foldl (Video.paintTri out fbw fbh true) f)
      (firstGreatest (nearness x₀ y₀) 0 (l.filter fun t => t.1.covers x₀ y₀)) := by
  induction l using List.reverseRecOn with
  | nil => exact h
  | append_singleton l t ih =>
    have hnext := ih.paintTri hx₀ hy₀ t
    unfold firstGreatest at *
    rw [List.foldl_append, List.filter_append, List.foldl_append]
    cases hcovers : t.1.covers x₀ y₀
    · simpa [hcovers] using hnext
    · simpa [hcovers] using hnext

end Cell

end Microgarbage.Video
