import Microgarbage.Video.Scene

/-!
# Rasterizing

The second half of `r3d_render_x`: the edge functions of a triangle over its clamped box, the depth
from two gradients, and the picture with its z-buffer.
-/

namespace Microgarbage.Video

open Math

/-- `R3D_MAX_PIXELS` -/
abbrev r3dMaxPixels : Nat := 256 * 224

def min3 (a b c : Int) : Int := min (min a b) c

def max3 (a b c : Int) : Int := max (max a b) c

/-- A loop from `lo` to `hi`. -/
def fromTo (lo hi : Int) : List Int :=
  (List.range (hi + 1 - lo).toNat).map fun i : Nat => lo + i

theorem mem_fromTo {lo hi x : Int} : x ∈ fromTo lo hi ↔ lo ≤ x ∧ x ≤ hi := by
  unfold fromTo
  rw [List.mem_map]
  constructor
  · rintro ⟨i, hi, rfl⟩
    have hi := List.mem_range.mp hi
    omega
  · intro h
    refine ⟨(x - lo).toNat, ?_, by omega⟩
    rw [List.mem_range]
    omega

/-- The three corners of a triangle. -/
structure Corners where
  a : Vertex
  b : Vertex
  c : Vertex

/-- The edge function of `p` and `q`. -/
def edge (p q : Vertex) (x y : Int) : Int :=
  (q.sx - p.sx) * (y - p.sy) - (q.sy - p.sy) * (x - p.sx)

namespace Corners

variable (t : Corners)

def area : Int := edge t.a t.b t.c.sx t.c.sy

def w0 (x y : Int) : Int := edge t.a t.b x y

def w1 (x y : Int) : Int := edge t.b t.c x y

def w2 (x y : Int) : Int := edge t.c t.a x y

def inside (x y : Int) : Bool :=
  if 0 < t.area then 0 ≤ t.w0 x y && 0 ≤ t.w1 x y && 0 ≤ t.w2 x y
  else t.w0 x y ≤ 0 && t.w1 x y ≤ 0 && t.w2 x y ≤ 0

def minx (fbw : Int) : Int := clampi (min3 t.a.sx t.b.sx t.c.sx) 0 (fbw - 1)

def maxx (fbw : Int) : Int := clampi (max3 t.a.sx t.b.sx t.c.sx) 0 (fbw - 1)

def miny (fbh : Int) : Int := clampi (min3 t.a.sy t.b.sy t.c.sy) 0 (fbh - 1)

def maxy (fbh : Int) : Int := clampi (max3 t.a.sy t.b.sy t.c.sy) 0 (fbh - 1)

/-- The reciprocal depths of the corners. -/
def za : Q16 := q16Div 0x10000 t.a.v.z

def zb : Q16 := q16Div 0x10000 t.b.v.z

def zc : Q16 := q16Div 0x10000 t.c.v.z

/-- What the gradients divide by the area. -/
def riseX : Int :=
  (t.zb - t.za).toInt * (t.c.sy - t.a.sy) - (t.zc - t.za).toInt * (t.b.sy - t.a.sy)

def riseY : Int :=
  (t.b.sx - t.a.sx) * (t.zc - t.za).toInt - (t.c.sx - t.a.sx) * (t.zb - t.za).toInt

def dzdx : Int := t.riseX.tdiv t.area

def dzdy : Int := t.riseY.tdiv t.area

/-- The depth at the left end of row `y`. -/
def rowDepth (fbw : Int) (y : Int) : Int :=
  t.za.toInt + t.dzdx * (t.minx fbw - t.a.sx) + t.dzdy * (y - t.a.sy)

end Corners

/-! ## The triangle and its box -/

theorem mean_between {u v w a b c A m lo hi : Int} (hu : 0 ≤ u) (hv : 0 ≤ v) (hw : 0 ≤ w)
    (hA : 0 < A) (hsum : u + v + w = A) (hm : u * a + v * b + w * c = A * m)
    (hlo : lo ≤ a ∧ lo ≤ b ∧ lo ≤ c) (hhi : a ≤ hi ∧ b ≤ hi ∧ c ≤ hi) : lo ≤ m ∧ m ≤ hi := by
  constructor
  · refine le_of_mul_le_mul_left ?_ hA
    have ha := mul_le_mul_of_nonneg_left hlo.1 hu
    have hb := mul_le_mul_of_nonneg_left hlo.2.1 hv
    have hc := mul_le_mul_of_nonneg_left hlo.2.2 hw
    rw [← hm, ← hsum, add_mul, add_mul]
    linarith
  · refine le_of_mul_le_mul_left ?_ hA
    have ha := mul_le_mul_of_nonneg_left hhi.1 hu
    have hb := mul_le_mul_of_nonneg_left hhi.2.1 hv
    have hc := mul_le_mul_of_nonneg_left hhi.2.2 hw
    rw [← hm, ← hsum, add_mul, add_mul]
    linarith

namespace Corners

variable (t : Corners)

theorem weights (x y : Int) : t.w0 x y + t.w1 x y + t.w2 x y = t.area ∧
    t.w1 x y * t.a.sx + t.w2 x y * t.b.sx + t.w0 x y * t.c.sx = t.area * x ∧
    t.w1 x y * t.a.sy + t.w2 x y * t.b.sy + t.w0 x y * t.c.sy = t.area * y := by
  unfold area w0 w1 w2 edge
  exact ⟨by ring, by ring, by ring⟩

variable {t} {x y : Int}

theorem inside_iff (hpos : t.area ≠ 0) : t.inside x y = true ↔
    (0 < t.area ∧ 0 ≤ t.w0 x y ∧ 0 ≤ t.w1 x y ∧ 0 ≤ t.w2 x y) ∨
      (t.area < 0 ∧ t.w0 x y ≤ 0 ∧ t.w1 x y ≤ 0 ∧ t.w2 x y ≤ 0) := by
  unfold inside
  split
  · simp only [Bool.and_eq_true, decide_eq_true_eq]
    omega
  · simp only [Bool.and_eq_true, decide_eq_true_eq]
    omega

/-- What is linear over the triangle is largest and smallest at corners. -/
theorem inside_between (hpos : t.area ≠ 0) (hin : t.inside x y = true) {fa fb fc f lo hi : Int}
    (hf : t.w1 x y * fa + t.w2 x y * fb + t.w0 x y * fc = t.area * f)
    (hlo : lo ≤ fa ∧ lo ≤ fb ∧ lo ≤ fc) (hhi : fa ≤ hi ∧ fb ≤ hi ∧ fc ≤ hi) : lo ≤ f ∧ f ≤ hi := by
  obtain ⟨hsum, -, -⟩ := t.weights x y
  rcases (inside_iff hpos).mp hin with ⟨h, h0, h1, h2⟩ | ⟨h, h0, h1, h2⟩
  · exact mean_between h1 h2 h0 h (by linarith) hf hlo hhi
  · exact mean_between (neg_nonneg.mpr h1) (neg_nonneg.mpr h2) (neg_nonneg.mpr h0)
      (neg_pos.mpr h) (by linarith) (by linarith) hlo hhi

theorem inside_box (hpos : t.area ≠ 0) (hin : t.inside x y = true) :
    (min3 t.a.sx t.b.sx t.c.sx ≤ x ∧ x ≤ max3 t.a.sx t.b.sx t.c.sx) ∧
      min3 t.a.sy t.b.sy t.c.sy ≤ y ∧ y ≤ max3 t.a.sy t.b.sy t.c.sy := by
  obtain ⟨-, hx, hy⟩ := t.weights x y
  unfold min3 max3
  exact ⟨inside_between hpos hin hx (by omega) (by omega),
    inside_between hpos hin hy (by omega) (by omega)⟩

end Corners

end Microgarbage.Video
