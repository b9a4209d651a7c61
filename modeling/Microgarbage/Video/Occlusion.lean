import Mathlib.Data.List.Pairwise
import Mathlib.Tactic.LinearCombination
import Microgarbage.Video.Picture

/-!
# Nearest faces

Where the depth of a face stays between the depths of its corners, although both gradients are cut to
whole numbers; when a pixel shows the nearest face; and that the order of objects and faces does not
matter then.
-/

namespace Microgarbage.Video

open Lib Math

/-! ## The interpolated depth -/

namespace Corners

variable (t : Corners)

def lowest : Int := min3 t.za.toInt t.zb.toInt t.zc.toInt

def highest : Int := max3 t.za.toInt t.zb.toInt t.zc.toInt

/-- The depth at a pixel lies between those of the corners. -/
def InRange (x y : Int) : Prop := t.lowest ≤ t.depthAt x y ∧ t.depthAt x y ≤ t.highest

/-- The differences of the depths of the corners fit in 32 bits. -/
def Spread : Prop := Fits (t.zb.toInt - t.za.toInt) ∧ Fits (t.zc.toInt - t.za.toInt)

/-- What the two divisions leave over, carried from the first corner to a pixel. -/
def carry (x y : Int) : Int :=
  t.riseX.tmod t.area * (x - t.a.sx) + t.riseY.tmod t.area * (y - t.a.sy)

/-- A mean of the corners' values with the edge functions as weights, times the area. -/
def weigh (x y : Int) (value : Int → Int) : Int :=
  |t.w1 x y| * value t.za.toInt + |t.w2 x y| * value t.zb.toInt + |t.w0 x y| * value t.zc.toInt

/-- What is carried to the pixel is no more than the weighted distances of the corners' depths from
the lowest, on one side, and from the highest, on the other. -/
def Carries (x y : Int) : Prop :=
  t.area.sign * t.carry x y ≤ t.weigh x y (fun z => z - t.lowest) ∧
    -(t.area.sign * t.carry x y) ≤ t.weigh x y (fun z => t.highest - z)

instance : Decidable t.Spread := inferInstanceAs (Decidable (_ ∧ _))

instance (x y : Int) : Decidable (t.Carries x y) := inferInstanceAs (Decidable (_ ∧ _))

instance (x y : Int) : Decidable (t.InRange x y) := inferInstanceAs (Decidable (_ ∧ _))

variable {t} {x y : Int}

theorem diff_toInt {p q : Q16} (h : Fits (p.toInt - q.toInt)) : (p - q).toInt = p.toInt - q.toInt := by
  obtain ⟨hlow, hhigh⟩ := h
  rw [BitVec.toInt_sub]
  exact Int.bmod_eq_of_le (by omega) (by omega)

theorem area_mul_depth (h : t.Spread) : t.area * t.depth x y =
    t.w1 x y * t.za.toInt + t.w2 x y * t.zb.toInt + t.w0 x y * t.zc.toInt - t.carry x y := by
  have hx : t.area * t.dzdx = t.riseX - t.riseX.tmod t.area := by
    have := Int.mul_tdiv_add_tmod t.riseX t.area
    unfold dzdx
    omega
  have hy : t.area * t.dzdy = t.riseY - t.riseY.tmod t.area := by
    have := Int.mul_tdiv_add_tmod t.riseY t.area
    unfold dzdy
    omega
  have hrise : t.riseX * (x - t.a.sx) + t.riseY * (y - t.a.sy) =
      t.w2 x y * (t.zb.toInt - t.za.toInt) + t.w0 x y * (t.zc.toInt - t.za.toInt) := by
    unfold riseX riseY w0 w2 edge
    rw [diff_toInt h.1, diff_toInt h.2]
    ring
  have hsum := (t.weights x y).1
  unfold depth carry
  linear_combination (x - t.a.sx) * hx + (y - t.a.sy) * hy + hrise - t.za.toInt * hsum

theorem sign_mul_weights (harea : t.area ≠ 0) (hin : t.inside x y = true) :
    |t.w0 x y| = t.area.sign * t.w0 x y ∧ |t.w1 x y| = t.area.sign * t.w1 x y ∧
      |t.w2 x y| = t.area.sign * t.w2 x y := by
  rcases (inside_iff harea).mp hin with ⟨h, h0, h1, h2⟩ | ⟨h, h0, h1, h2⟩
  · rw [Int.sign_eq_one_of_pos h, one_mul, one_mul, one_mul]
    exact ⟨abs_of_nonneg h0, abs_of_nonneg h1, abs_of_nonneg h2⟩
  · rw [Int.sign_eq_neg_one_of_neg h, neg_one_mul, neg_one_mul, neg_one_mul]
    exact ⟨abs_of_nonpos h0, abs_of_nonpos h1, abs_of_nonpos h2⟩

theorem abs_area_mul (h : t.Spread) (harea : t.area ≠ 0) (hin : t.inside x y = true) (z : Int) :
    |t.area| * (t.depth x y - z) = t.weigh x y (fun w => w - z) - t.area.sign * t.carry x y := by
  obtain ⟨h0, h1, h2⟩ := sign_mul_weights harea hin
  have hsum := (t.weights x y).1
  have hdepth := area_mul_depth (x := x) (y := y) h
  have habs : |t.area| = t.area.sign * t.area := by
    rw [Int.sign_mul_self_eq_abs]
  unfold weigh
  rw [h0, h1, h2, habs, mul_assoc, mul_sub, hdepth, ← hsum]
  ring

/-- The depth before it is cut lies in the range when what is carried allows it. -/
theorem depth_between_iff (h : t.Spread) (harea : t.area ≠ 0) (hin : t.inside x y = true) :
    t.lowest ≤ t.depth x y ∧ t.depth x y ≤ t.highest ↔ t.Carries x y := by
  have hpos : 0 < |t.area| := abs_pos.mpr harea
  have hlow := abs_area_mul h harea hin t.lowest
  have hhigh := abs_area_mul h harea hin t.highest
  have hflip : t.weigh x y (fun z => t.highest - z) = -t.weigh x y (fun z => z - t.highest) := by
    unfold weigh
    ring
  have hlow' : t.lowest ≤ t.depth x y ↔
      t.area.sign * t.carry x y ≤ t.weigh x y fun z => z - t.lowest := by
    rw [← sub_nonneg, ← mul_nonneg_iff_of_pos_left hpos, hlow, sub_nonneg]
  have hhigh' : t.depth x y ≤ t.highest ↔
      -(t.area.sign * t.carry x y) ≤ t.weigh x y fun z => t.highest - z := by
    rw [hflip, neg_le_neg_iff, ← sub_nonpos, ← sub_nonpos (b := t.area.sign * t.carry x y), ← hhigh]
    exact ⟨fun h => mul_nonpos_of_nonneg_of_nonpos hpos.le h,
      fun h => nonpos_of_mul_nonpos_right h hpos⟩
  exact and_congr hlow' hhigh'

theorem reciprocal_eq (z : Q16) :
    (q16Div 0x10000 z).toInt = ((2 ^ 32 : Int).tdiv z.toInt).bmod (2 ^ 32) := by
  have hnum : ((0x10000 : Q16).signExtend 64 <<< q16FracBits).toInt = 2 ^ 32 := by decide
  unfold q16Div
  rw [BitVec.toInt_setWidth, ← Int.bmod_bmod_of_dvd (show 2 ^ 32 ∣ 2 ^ 64 by decide),
    ← BitVec.toInt_eq_toNat_bmod, BitVec.toInt_sdiv, hnum,
    BitVec.toInt_signExtend_of_le (by decide), Int.bmod_bmod_of_dvd (by decide)]

theorem reciprocal_le (z : Q16) : (q16Div 0x10000 z).toInt ≤ 1431655765 := by
  rw [reciprocal_eq]
  by_cases hz : 3 ≤ z.toInt.natAbs
  · have hquot : ((2 ^ 32 : Int).tdiv z.toInt).natAbs ≤ 1431655765 := by
      rw [Int.natAbs_tdiv]
      exact (Nat.div_le_div_left hz (by decide)).trans (by decide)
    rw [Int.bmod_eq_of_le (by omega) (by omega)]
    omega
  · have hsmall : z.toInt = -2 ∨ z.toInt = -1 ∨ z.toInt = 0 ∨ z.toInt = 1 ∨ z.toInt = 2 := by omega
    rcases hsmall with h | h | h | h | h
    all_goals
      rw [h]
      decide

theorem lowest_le : t.lowest ≤ t.za.toInt ∧ t.lowest ≤ t.zb.toInt ∧ t.lowest ≤ t.zc.toInt := by
  unfold lowest min3
  omega

theorem le_highest : t.za.toInt ≤ t.highest ∧ t.zb.toInt ≤ t.highest ∧ t.zc.toInt ≤ t.highest := by
  unfold highest max3
  omega

/-- What is carried is less than the area for each column and each row. -/
theorem abs_carry_le (harea : t.area ≠ 0) (hin : t.inside x y = true) (ha : OnScreen t.a)
    (hb : OnScreen t.b) (hc : OnScreen t.c) : |t.carry x y| ≤ |t.area| * 131072 := by
  have hpos : 0 < |t.area| := abs_pos.mpr harea
  have hrem (n : Int) : |n.tmod t.area| ≤ |t.area| := by
    have hlt := Nat.mod_lt n.natAbs (Int.natAbs_pos.mpr harea)
    rw [← Int.natAbs_tmod] at hlt
    rw [Int.abs_eq_natAbs, Int.abs_eq_natAbs]
    exact_mod_cast hlt.le
  obtain ⟨hx, hy⟩ := inside_box harea hin
  have hax := ha.x
  have hay := ha.y
  have hbx := hb.x
  have hby := hb.y
  have hcx := hc.x
  have hcy := hc.y
  have hcol : |x - t.a.sx| ≤ 65536 := by
    unfold min3 max3 at hx
    rw [abs_le]
    omega
  have hrow : |y - t.a.sy| ≤ 65536 := by
    unfold min3 max3 at hy
    rw [abs_le]
    omega
  have hcolumn := mul_le_mul (hrem t.riseX) hcol (abs_nonneg _) hpos.le
  have hline := mul_le_mul (hrem t.riseY) hrow (abs_nonneg _) hpos.le
  unfold carry
  refine (abs_add_le _ _).trans ?_
  rw [abs_mul, abs_mul]
  linarith

theorem weigh_nonneg {value : Int → Int} (ha : 0 ≤ value t.za.toInt) (hb : 0 ≤ value t.zb.toInt)
    (hc : 0 ≤ value t.zc.toInt) : 0 ≤ t.weigh x y value := by
  unfold weigh
  positivity

theorem inRange_iff (h : t.Spread) (harea : t.area ≠ 0) (hin : t.inside x y = true)
    (ha : OnScreen t.a) (hb : OnScreen t.b) (hc : OnScreen t.c) :
    t.InRange x y ↔ t.Carries x y := by
  rw [← depth_between_iff h harea hin]
  have hpos : 0 < |t.area| := abs_pos.mpr harea
  have hcarry := abs_carry_le harea hin ha hb hc
  have hsign : |t.area.sign * t.carry x y| = |t.carry x y| := by
    rw [abs_mul, Int.abs_sign_of_ne_zero harea, one_mul]
  obtain ⟨hla, hlb, hlc⟩ := t.lowest_le
  obtain ⟨hha, hhb, hhc⟩ := t.le_highest
  have hlow : t.lowest - 131072 ≤ t.depth x y := by
    have hmul := abs_area_mul h harea hin t.lowest
    have hweigh : 0 ≤ t.weigh x y fun w => w - t.lowest :=
      weigh_nonneg (by omega) (by omega) (by omega)
    have hbound := (abs_le.mp (hsign.trans_le hcarry)).2
    have hge : |t.area| * (-131072) ≤ |t.area| * (t.depth x y - t.lowest) := by linarith
    have := le_of_mul_le_mul_left hge hpos
    omega
  have hhigh : t.depth x y ≤ t.highest + 131072 := by
    have hmul := abs_area_mul h harea hin t.highest
    have hweigh : 0 ≤ t.weigh x y fun w => -(w - t.highest) :=
      weigh_nonneg (by omega) (by omega) (by omega)
    have hflip : (t.weigh x y fun w => -(w - t.highest)) = -t.weigh x y fun w => w - t.highest := by
      unfold weigh
      ring
    have hbound := (abs_le.mp (hsign.trans_le hcarry)).1
    have hle : |t.area| * (t.depth x y - t.highest) ≤ |t.area| * 131072 := by linarith
    have := le_of_mul_le_mul_left hle hpos
    omega
  have hmin : -2 ^ 31 ≤ t.lowest := by
    have h1 := BitVec.le_toInt t.za
    have h2 := BitVec.le_toInt t.zb
    have h3 := BitVec.le_toInt t.zc
    unfold lowest min3
    omega
  have hmax : t.highest ≤ 1431655765 := by
    have h1 : t.za.toInt ≤ _ := reciprocal_le _
    have h2 : t.zb.toInt ≤ _ := reciprocal_le _
    have h3 : t.zc.toInt ≤ _ := reciprocal_le _
    unfold highest max3
    omega
  unfold InRange depthAt
  by_cases hfit : -2 ^ 31 ≤ t.depth x y
  · rw [Int.bmod_eq_of_le (by omega) (by omega)]
  · have hwrap : (t.depth x y).bmod (2 ^ 32) = t.depth x y + 2 ^ 32 := by
      rw [← Int.add_bmod_right, Int.bmod_eq_of_le (by omega) (by omega)]
      rfl
    rw [hwrap]
    omega

end Corners

/-! ## The nearest face -/

/-- The faces that are gathered. -/
def R3dScene.drawn (s : R3dScene) (fbw fbh : Int) : List (Corners × Shade) :=
  (s.shownAll fbw fbh s.objs).take r3dMaxTris

/-- Of the faces `all`, the pixel shows the nearest one that covers it, or the sky. -/
structure Pictured (out : Shade → Int → Int → BitVec 8) (fbw : Nat) (x y : Int)
    (all : List (Corners × Shade)) (f : Frame) : Prop where
  sky : (∀ t ∈ all, t.1.covers x y = false) → f.fb (y * fbw + x) = 0
  near : ∀ t ∈ all, t.1.covers x y = true → ∃ w ∈ all, w.1.covers x y = true ∧
    (∀ u ∈ all, u.1.covers x y = true → u.1.depthAt x y ≤ w.1.depthAt x y) ∧
      f.owner (y * fbw + x) = some w ∧ f.fb (y * fbw + x) = out w.2 x y

/-- If a face covers the pixel, one as near as any is gathered, and is nearer than the sky. -/
def Leads (x y : Int) (drawn all : List (Corners × Shade)) : Prop :=
  ∀ t ∈ all, t.1.covers x y = true → ∃ w ∈ drawn, w.1.covers x y = true ∧ 0 < w.1.depthAt x y ∧
    ∀ u ∈ all, u.1.covers x y = true → u.1.depthAt x y ≤ w.1.depthAt x y

instance (x y : Int) (drawn all : List (Corners × Shade)) : Decidable (Leads x y drawn all) :=
  inferInstanceAs (Decidable (∀ t ∈ all, t.1.covers x y = true → ∃ w ∈ drawn, _))

section Nearest

variable {out : Shade → Int → Int → BitVec 8} {fbw : Nat} {x y : Int} {f : Frame}
  {drawn all : List (Corners × Shade)}

theorem pictured_iff (hsub : ∀ t ∈ drawn, t ∈ all)
    (hcell : Cell out fbw x y f
      (firstGreatest (nearness x y) 0 (drawn.filter fun t => t.1.covers x y))) :
    Pictured out fbw x y all f ↔ Leads x y drawn all := by
  have hbest : Greatest (nearness x y) 0 (drawn.filter fun t => t.1.covers x y) _ :=
    firstGreatest_greatest _
  constructor
  · intro h t ht hcovers
    obtain ⟨w, -, hwcovers, hgreatest, howner, -⟩ := h.near t ht hcovers
    rw [hcell.owner] at howner
    obtain ⟨hmem, hpos⟩ := hbest.mem w howner
    exact ⟨w, (List.mem_filter.mp hmem).1, hwcovers, hpos, hgreatest⟩
  · intro h
    refine ⟨fun hnone => ?_, fun t ht hcovers => ?_⟩
    · have hempty : (drawn.filter fun t => t.1.covers x y) = [] :=
        List.filter_eq_nil_iff.mpr fun t ht => by rw [hnone t (hsub t ht)]; exact nofun
      rw [hcell.fb, hempty]
      rfl
    · obtain ⟨w, hw, hwcovers, hwpos, hgreatest⟩ := h t ht hcovers
      have hle := hbest.le w (List.mem_filter.mpr ⟨hw, hwcovers⟩)
      cases hwinner : firstGreatest (nearness x y) 0 (drawn.filter fun t => t.1.covers x y) with
      | none =>
        rw [hwinner] at hle
        exact absurd hwpos (not_lt.mpr hle)
      | some v =>
        rw [hwinner] at hle hcell
        obtain ⟨hmem, -⟩ := hbest.mem v hwinner
        obtain ⟨hv, hvcovers⟩ := List.mem_filter.mp hmem
        exact ⟨v, hsub v hv, hvcovers, fun u hu hucovers => (hgreatest u hu hucovers).trans hle,
          hcell.owner, hcell.fb⟩

end Nearest

section Rendered

variable {s : R3dScene} {fbw fbh : Nat} {x y : Int} (hidx : s.Indexed)
  (hz : fbw * fbh ≤ r3dMaxPixels) (hm : s.Modest fbw fbh) (hx : 0 ≤ x ∧ x < fbw)
  (hy : 0 ≤ y ∧ y < fbh)

theorem clear_cell (out : Shade → Int → Int → BitVec 8) (f : Frame) (hx : 0 ≤ x ∧ x < fbw)
    (hy : 0 ≤ y ∧ y < fbh) : Cell out fbw x y (f.clear (fbw * fbh : Nat) true) none := by
  have hplace : 0 ≤ y * fbw + x ∧ y * fbw + x < (fbw * fbh : Nat) := by
    push_cast
    constructor
    · nlinarith
    · nlinarith
  unfold Frame.clear
  refine ⟨?_, ?_, ?_⟩
  · dsimp only
    rw [if_pos hplace]
    rfl
  · dsimp only
    rw [if_pos ⟨rfl, hplace⟩]
    rfl
  · dsimp only
    rw [if_pos hplace]

include hidx hm in
theorem gathered_scene (before : Nat → Vertex) :
    Gathered s fbw fbh s.objs (s.gather fbw fbh before) :=
  gather_gathered hidx before (modest_iff.mp hm).2.1

include hidx hz hm hx hy

theorem render_cell (dither : Bool) (before : Nat → Vertex) (f : Frame) :
    Cell (s.out dither) fbw x y (s.render fbw fbh dither before f)
      (firstGreatest (nearness x y) 0 ((s.drawn fbw fbh).filter fun t => t.1.covers x y)) := by
  have hg := gathered_scene hidx hm before
  have huse : useZ fbw fbh = true := decide_eq_true hz
  unfold R3dScene.render R3dScene.drawn
  dsimp only
  rw [huse, ← hg.tris, ← List.foldl_map]
  exact cell_foldl hx hy (clear_cell _ f hx hy) _

theorem render_pictured_iff (dither : Bool) (before : Nat → Vertex) (f : Frame) :
    Pictured (s.out dither) fbw x y (s.shownAll fbw fbh s.objs) (s.render fbw fbh dither before f) ↔
      Leads x y (s.drawn fbw fbh) (s.shownAll fbw fbh s.objs) :=
  pictured_iff (fun _ ht => List.mem_of_mem_take ht) (render_cell hidx hz hm hx hy dither before f)

end Rendered

/-! ## The order of objects and faces -/

/-- The faces of a mesh with their palette bases. -/
def R3dScene.faces (s : R3dScene) (m : R3dMesh) : List (Face × Int) :=
  m.tris.zipIdx.map fun t => (t.1, s.faceBase m t.2)

/-- The same object, but for the order of its faces. -/
structure R3dScene.SameObject (s : R3dScene) (obj obj' : R3dObject) : Prop where
  xform : obj'.xform = obj.xform
  verts : obj'.mesh.verts = obj.mesh.verts
  faces : (s.faces obj'.mesh).Perm (s.faces obj.mesh)

/-- The same objects, but for their order and for the order of their faces. -/
def R3dScene.Rearranged (s : R3dScene) (objs : List R3dObject) : Prop :=
  ∃ mid, List.Forall₂ s.SameObject s.objs mid ∧ mid.Perm objs

section Rearrange

variable {s : R3dScene} {fbw fbh : Int}

/-- A face with its palette base, if it shows. -/
def R3dScene.showAt (s : R3dScene) (fbw fbh : Int) (obj : R3dObject) (t : Face × Int) :
    Option (Corners × Shade) :=
  let c := s.placedFace fbw fbh obj t.1
  if c.a.behind || c.b.behind || c.c.behind then none
  else (s.face t.2 c.a c.b c.c).map fun shade => (c, shade)

theorem shown_eq (obj : R3dObject) : s.shown fbw fbh obj obj.mesh.tris.zipIdx =
    (s.faces obj.mesh).filterMap (s.showAt fbw fbh obj) := by
  unfold R3dScene.shown R3dScene.faces
  rw [List.filterMap_map]
  rfl

theorem R3dScene.SameObject.shown {obj obj' : R3dObject} (h : s.SameObject obj obj') :
    (s.shown fbw fbh obj' obj'.mesh.tris.zipIdx).Perm
      (s.shown fbw fbh obj obj.mesh.tris.zipIdx) := by
  have hsame : s.showAt fbw fbh obj' = s.showAt fbw fbh obj := by
    funext t
    unfold R3dScene.showAt R3dScene.placedFace R3dScene.placed
    rw [h.xform, h.verts]
  rw [shown_eq, shown_eq, hsame]
  exact h.faces.filterMap _

theorem shownAll_perm {objs objs' : List R3dObject} (h : List.Forall₂ s.SameObject objs objs') :
    (s.shownAll fbw fbh objs').Perm (s.shownAll fbw fbh objs) := by
  induction h with
  | nil => exact List.Perm.refl _
  | cons hobj _ ih => exact hobj.shown.append ih

theorem R3dScene.Rearranged.shownAll {objs : List R3dObject} (h : s.Rearranged objs) :
    (s.shownAll fbw fbh objs).Perm (s.shownAll fbw fbh s.objs) := by
  obtain ⟨mid, hmid, hperm⟩ := h
  exact (hperm.symm.flatMap_right _).trans (shownAll_perm hmid)

theorem faces_map_fst (m : R3dMesh) : (s.faces m).map Prod.fst = m.tris := by
  unfold R3dScene.faces
  rw [List.map_map]
  exact List.zipIdx_map_fst 0 m.tris

theorem R3dScene.SameObject.tris {obj obj' : R3dObject} (h : s.SameObject obj obj') :
    obj'.mesh.tris.Perm obj.mesh.tris := by
  rw [← faces_map_fst (s := s), ← faces_map_fst (s := s) obj.mesh]
  exact h.faces.map _

theorem exists_same {objs objs' : List R3dObject} (h : List.Forall₂ s.SameObject objs objs')
    {obj' : R3dObject} (hobj' : obj' ∈ objs') : ∃ obj ∈ objs, s.SameObject obj obj' := by
  induction h with
  | nil => exact absurd hobj' List.not_mem_nil
  | cons hobj _ ih =>
    rcases List.mem_cons.mp hobj' with rfl | hobj'
    · exact ⟨_, List.mem_cons_self, hobj⟩
    · obtain ⟨obj, hmem, hsame⟩ := ih hobj'
      exact ⟨obj, List.mem_cons_of_mem _ hmem, hsame⟩

theorem R3dScene.Rearranged.indexed {objs : List R3dObject} (h : s.Rearranged objs)
    (hidx : s.Indexed) : ({ s with objs } : R3dScene).Indexed := by
  obtain ⟨mid, hmid, hperm⟩ := h
  intro obj' hobj' t ht
  obtain ⟨obj, hobj, hsame⟩ := exists_same hmid (hperm.mem_iff.mpr hobj')
  rw [hsame.verts]
  exact hidx obj hobj t (hsame.tris.mem_iff.mp ht)

end Rearrange

/-! ## Every pixel -/

/-- The pixel depends on the faces that cover it, not on their order, where one of them is nearest. -/
theorem pictured_perm {out : Shade → Int → Int → BitVec 8} {fbw : Nat} {x y : Int}
    {all all' : List (Corners × Shade)} {f f' : Frame} (h : Pictured out fbw x y all f)
    (h' : Pictured out fbw x y all' f') (hperm : all'.Perm all)
    (hdiffer : (all.filter fun t => t.1.covers x y).Pairwise
      fun t u => t.1.depthAt x y ≠ u.1.depthAt x y) :
    f'.fb (y * fbw + x) = f.fb (y * fbw + x) := by
  by_cases hcovers : ∃ t ∈ all, t.1.covers x y = true
  · obtain ⟨t, ht, htcovers⟩ := hcovers
    obtain ⟨w, hw, hwcovers, hgreatest, -, hfb⟩ := h.near t ht htcovers
    obtain ⟨w', hw', hwcovers', hgreatest', -, hfb'⟩ :=
      h'.near t (hperm.mem_iff.mpr ht) htcovers
    have hmem' := hperm.mem_iff.mp hw'
    have hequal : w'.1.depthAt x y = w.1.depthAt x y :=
      le_antisymm (hgreatest w' hmem' hwcovers') (hgreatest' w (hperm.mem_iff.mpr hw) hwcovers)
    obtain rfl : w' = w := by
      by_contra hne
      have hsymm : Std.Symm fun t u : Corners × Shade => t.1.depthAt x y ≠ u.1.depthAt x y :=
        ⟨fun _ _ hab => hab.symm⟩
      exact hdiffer.forall (List.mem_filter.mpr ⟨hmem', hwcovers'⟩)
        (List.mem_filter.mpr ⟨hw, hwcovers⟩) hne hequal
    rw [hfb, hfb']
  · have hnone (t : Corners × Shade) (ht : t ∈ all) : t.1.covers x y = false := by
      rw [← Bool.not_eq_true]
      exact fun htcovers => hcovers ⟨t, ht, htcovers⟩
    rw [h.sky hnone, h'.sky fun t ht => hnone t (hperm.mem_iff.mp ht)]

section Pixel

variable {s : R3dScene} {fbw fbh : Nat} {x y : Int}

theorem covers_iff {t : Corners} : t.covers x y = true ↔ t.area ≠ 0 ∧ t.inside x y = true := by
  unfold Corners.covers
  rw [Bool.and_eq_true, bne_iff_ne]

theorem drawn_onScreen (hidx : s.Indexed) (hm : s.Modest fbw fbh) {t : Corners × Shade}
    (ht : t ∈ s.drawn fbw fbh) : OnScreen t.1.a ∧ OnScreen t.1.b ∧ OnScreen t.1.c := by
  have hg := gathered_scene hidx hm blank
  unfold R3dScene.drawn at ht
  rw [← hg.tris] at ht
  obtain ⟨tri, htri, rfl⟩ := List.mem_map.mp ht
  exact (hg.drawn htri).screen

/-- A pixel shows the nearest of the faces that cover it, and their depths there are in the range of
their corners, exactly when a nearest one is gathered and the remainders of the gradients do not
carry too far. Scenes for which that holds show the same in whatever order their objects and faces
are, where the depths differ. -/
theorem render_pixel_iff (hidx : s.Indexed) (hz : fbw * fbh ≤ r3dMaxPixels)
    (hm : s.Modest fbw fbh) (hspread : ∀ t ∈ s.drawn fbw fbh, t.1.Spread) (hx : 0 ≤ x ∧ x < fbw)
    (hy : 0 ≤ y ∧ y < fbh) (dither : Bool) (before : Nat → Vertex) (f : Frame) :
    (Pictured (s.out dither) fbw x y (s.shownAll fbw fbh s.objs)
        (s.render fbw fbh dither before f) ∧
      (∀ t ∈ s.drawn fbw fbh, t.1.covers x y = true → t.1.InRange x y) ↔
        Leads x y (s.drawn fbw fbh) (s.shownAll fbw fbh s.objs) ∧
          ∀ t ∈ s.drawn fbw fbh, t.1.covers x y = true → t.1.Carries x y) ∧
    ∀ objs, s.Rearranged objs → ({ s with objs } : R3dScene).Modest fbw fbh →
      Leads x y (s.drawn fbw fbh) (s.shownAll fbw fbh s.objs) →
      Leads x y (({ s with objs } : R3dScene).drawn fbw fbh) (s.shownAll fbw fbh objs) →
      ((s.shownAll fbw fbh s.objs).filter fun t => t.1.covers x y).Pairwise
        (fun t u => t.1.depthAt x y ≠ u.1.depthAt x y) →
      ∀ before' f', (({ s with objs } : R3dScene).render fbw fbh dither before' f').fb (y * fbw + x) =
        (s.render fbw fbh dither before f).fb (y * fbw + x) := by
  constructor
  · refine and_congr (render_pictured_iff hidx hz hm hx hy dither before f) ?_
    refine forall₂_congr fun t ht => forall_congr' fun hcovers => ?_
    obtain ⟨harea, hin⟩ := covers_iff.mp hcovers
    obtain ⟨ha, hb, hc⟩ := drawn_onScreen hidx hm ht
    exact Corners.inRange_iff (hspread t ht) harea hin ha hb hc
  · intro objs hre hm' hlead hlead' hdiffer before' f'
    have hpictured := (render_pictured_iff hidx hz hm hx hy dither before f).mpr hlead
    have hpictured' :=
      (render_pictured_iff (hre.indexed hidx) hz hm' hx hy dither before' f').mpr hlead'
    exact pictured_perm hpictured hpictured' hre.shownAll hdiffer

/-- A triangle in front of the camera, level with it. -/
def level : R3dScene :=
  .still 0x8000 [⟨0, 0, 0x10000⟩, ⟨0, 0x20000, 0x10000⟩, ⟨0x20000, 0, 0x10000⟩] [⟨0, 1, 2⟩]

theorem level_modest : level.Indexed ∧ level.Modest 3 2 := by
  have hidx : level.Indexed := still_indexed _ (by decide)
  exact ⟨hidx, modest_iff.mpr ⟨by decide,
    (gatherTouches_iff hidx blank 6).mp (by decide +kernel), by decide +kernel⟩⟩

theorem render_pixel_level : (level.shownAll 3 2 level.objs).length = 1 ∧
    Pictured (level.out false) 3 1 0 (level.shownAll 3 2 level.objs)
      (level.render 3 2 false blank ⟨fun _ => 0, fun _ => 0, fun _ => none⟩) :=
  ⟨by decide +kernel,
    ((render_pixel_iff level_modest.1 (by decide) level_modest.2 (by decide +kernel) (by decide)
      (by decide) false blank _).1.mpr ⟨by decide +kernel, by decide +kernel⟩).1⟩

/-- A triangle that tilts away from the camera, at focal length 100. -/
def tilted : R3dScene :=
  { R3dScene.still 0x8000 [⟨0, 0x10000, 0x20000⟩, ⟨0x10000, -0x10000, 0x20000⟩,
      ⟨0, 0x10000, 0x30000⟩] [⟨0, 1, 2⟩] with focal := 0x640000 }

/-- The depth at its second corner is above the depths of all three. -/
theorem tilted_corner : tilted.Indexed ∧ tilted.Modest 240 200 ∧
    ((tilted.drawn 240 200).map fun t => (t.1.covers 170 150, t.1.depthAt 170 150, t.1.highest)) =
      [(true, 32818, 32768)] ∧
    ¬ ∀ t ∈ tilted.drawn 240 200, t.1.covers 170 150 = true → t.1.InRange 170 150 := by
  have hidx : tilted.Indexed := still_indexed 0x8000 (by decide)
  exact ⟨hidx, modest_iff.mpr ⟨by decide,
    (gatherTouches_iff hidx blank 48000).mp (by decide +kernel), by decide +kernel⟩,
    by decide +kernel, by decide +kernel⟩

end Pixel

end Microgarbage.Video
