import Microgarbage.Video.Raster

/-!
# What the renderer touches

The accesses of `r3d_render_x` to its scratch arrays, to the framebuffer and to the z-buffer, its
divisors and the values that it reckons in 32 bits; and the scenes for which all of them are in
order.
-/

namespace Microgarbage.Video

open Lib Math List

/-- An access, a divisor or a 32-bit value. Reading a scratch entry, an object says what the entry was
filled for. -/
inductive Touch
  | fill (i : Nat)
  | read (i o : Nat) (filled : Option Nat)
  | gather (i : Nat)
  | pixel (i : Int)
  | depth (i : Int)
  | divide (d : Int)
  | word (n : Int)
  deriving DecidableEq

/-- The access is in order for a framebuffer of `npix` pixels. -/
def Touch.Fine (npix : Int) : Touch → Prop
  | .fill i => i < r3dMaxVerts
  | .read i o filled => i < r3dMaxVerts ∧ filled = some o
  | .gather i => i < r3dMaxTris
  | .pixel i => 0 ≤ i ∧ i < npix
  | .depth i => 0 ≤ i ∧ i < r3dMaxPixels
  | .divide d => d ≠ 0
  | .word n => Fits n

instance (npix : Int) : ∀ t : Touch, Decidable (t.Fine npix)
  | .fill _ => inferInstanceAs (Decidable (_ < _))
  | .read _ _ _ => inferInstanceAs (Decidable (_ ∧ _))
  | .gather _ => inferInstanceAs (Decidable (_ < _))
  | .pixel _ => inferInstanceAs (Decidable (_ ∧ _))
  | .depth _ => inferInstanceAs (Decidable (_ ∧ _))
  | .divide _ => inferInstanceAs (Decidable (_ ≠ _))
  | .word n => inferInstanceAs (Decidable (Fits n))

/-! ## Gathering -/

section Gather

variable (s : R3dScene) (fbw fbh : Int)

/-- A vertex in front of the near plane is divided by its depth twice. -/
def fillTouch (mv : Affine3Q16) (st : Scratch) (p : Vec3Q16) : List Touch :=
  if st.nv < r3dMaxVerts then
    .fill st.nv ::
      if (s.vertex fbw fbh mv p).behind then []
      else
        [.divide (s.vertex fbw fbh mv p).v.z.toInt, .divide (s.vertex fbw fbh mv p).v.z.toInt]
  else []

/-- The normal is divided by its length, unless it has none. -/
def normalTouch (n : Vec3Q16) : List Touch :=
  if n.lengthSq.sle 0 then [] else [.divide n.lengthSq.toInt]

def lookTouch (o : Nat) (m : R3dMesh) (baseV : Nat) (st : Scratch) (t : Face × Nat) : List Touch :=
  if st.tris.length < r3dMaxTris then
    let a := baseV + t.1.a.toNat
    let b := baseV + t.1.b.toNat
    let c := baseV + t.1.c.toNat
    .read a o (st.filled a) :: if (st.vert a).behind then [] else
      .read b o (st.filled b) :: if (st.vert b).behind then [] else
        .read c o (st.filled c) :: if (st.vert c).behind then [] else
          normalTouch (R3dScene.faceCross (st.vert a) (st.vert b) (st.vert c)) ++
            (s.face (s.faceBase m t.2) (st.vert a) (st.vert b) (st.vert c)).elim []
              fun _ => [.gather st.tris.length]
  else []

def objectTouch (st : Scratch) (obj : R3dObject × Nat) : List Touch :=
  let mv := s.view.compose obj.1.xform
  let filled := obj.1.mesh.verts.foldl (Scratch.fill s fbw fbh obj.2 mv) st
  loopTouches (Scratch.fill s fbw fbh obj.2 mv) (fillTouch s fbw fbh mv) st obj.1.mesh.verts ++
    loopTouches (Scratch.look s obj.2 obj.1.mesh st.nv) (lookTouch s obj.2 obj.1.mesh st.nv) filled
      obj.1.mesh.tris.zipIdx

end Gather

/-! ## Rasterizing -/

/-- The differences, the products and the value of an edge function. -/
def edgeTouch (p q : Vertex) (x y : Int) : List Touch :=
  [.word (q.sx - p.sx), .word (y - p.sy), .word (q.sy - p.sy), .word (x - p.sx),
    .word ((q.sx - p.sx) * (y - p.sy)), .word ((q.sy - p.sy) * (x - p.sx)), .word (edge p q x y)]

namespace Corners

variable (t : Corners) (fbw fbh : Int) (useZ : Bool)

def pixelTouch (x y : Int) : List Touch :=
  edgeTouch t.a t.b x y ++ edgeTouch t.b t.c x y ++ edgeTouch t.c t.a x y ++
    if t.inside x y then
      [.word (y * fbw + x), .pixel (y * fbw + x)] ++
        if useZ then [.depth (y * fbw + x)] else []
    else []

def touch : List Touch :=
  edgeTouch t.a t.b t.c.sx t.c.sy ++
    if t.area = 0 then []
    else
      [.divide t.a.v.z.toInt, .divide t.b.v.z.toInt, .divide t.c.v.z.toInt, .divide t.area,
        .divide t.area] ++
        (fromTo (t.miny fbh) (t.maxy fbh)).flatMap fun y =>
          (fromTo (t.minx fbw) (t.maxx fbw)).flatMap fun x => t.pixelTouch fbw useZ x y

end Corners

/-- The corners of a gathered triangle. -/
def Scratch.corners (st : Scratch) (t : R3dTri) : Corners :=
  ⟨st.vert t.a, st.vert t.b, st.vert t.c⟩

def Scratch.drawn (st : Scratch) (t : R3dTri) : Corners × Shade := (st.corners t, t.shade)

def rasterTouch (fbw fbh : Int) (useZ : Bool) (st : Scratch) (t : R3dTri) : List Touch :=
  [.read t.a t.object (st.filled t.a), .read t.b t.object (st.filled t.b),
    .read t.c t.object (st.filled t.c)] ++ (st.corners t).touch fbw fbh useZ

/-- `use_z` -/
def useZ (fbw fbh : Nat) : Bool := fbw * fbh ≤ r3dMaxPixels

/-- Clearing the framebuffer, and the z-buffer if there is one. -/
def clearTouches (fbw fbh : Nat) : List Touch :=
  .word (fbw * fbh : Nat) :: ((List.range (fbw * fbh)).map fun i => .pixel (i : Nat)) ++
    if useZ fbw fbh then (List.range (fbw * fbh)).map fun i => .depth (i : Nat) else []

namespace R3dScene

variable (s : R3dScene) (fbw fbh : Nat) (before : Nat → Vertex)

def gatherTouches : List Touch :=
  loopTouches (Scratch.object s fbw fbh) (objectTouch s fbw fbh) ⟨before, fun _ => none, 0, []⟩
    s.objs.zipIdx

/-- What `r3d_render_x` touches. -/
def renderTouches : List Touch :=
  clearTouches fbw fbh ++ s.gatherTouches fbw fbh before ++
    (s.gather fbw fbh before).tris.flatMap
      (rasterTouch fbw fbh (useZ fbw fbh) (s.gather fbw fbh before))

end R3dScene

/-! ## What the scene has to meet -/

/-- Every index is below the number of vertices. -/
def R3dMesh.Indexed (m : R3dMesh) : Prop :=
  ∀ t ∈ m.tris, t.a.toNat < m.verts.length ∧ t.b.toNat < m.verts.length ∧ t.c.toNat < m.verts.length

def R3dScene.Indexed (s : R3dScene) : Prop := ∀ obj ∈ s.objs, obj.mesh.Indexed

/-- The entry that the next object's vertices start at. -/
def firstVertex (objs : List R3dObject) : Nat :=
  min r3dMaxVerts ((objs.map fun obj => obj.mesh.verts.length).sum)

namespace R3dScene

variable (s : R3dScene) (fbw fbh : Int)

/-- A vertex of an object, as it is on the screen. -/
def placed (obj : R3dObject) (i : Nat) : Vertex :=
  s.vertex fbw fbh (s.view.compose obj.xform) (obj.mesh.verts.getD i ⟨0, 0, 0⟩)

def placedFace (obj : R3dObject) (t : Face) : Corners :=
  ⟨s.placed fbw fbh obj t.a.toNat, s.placed fbw fbh obj t.b.toNat, s.placed fbw fbh obj t.c.toNat⟩

/-- A face of an object, if it shows its front before the near plane. -/
def showing (obj : R3dObject) (t : Face × Nat) : Option (Corners × Shade) :=
  let c := s.placedFace fbw fbh obj t.1
  if c.a.behind || c.b.behind || c.c.behind then none
  else (s.face (s.faceBase obj.mesh t.2) c.a c.b c.c).map fun shade => (c, shade)

/-- Those of `faces` that show. -/
def shown (obj : R3dObject) (faces : List (Face × Nat)) : List (Corners × Shade) :=
  faces.filterMap (s.showing fbw fbh obj)

/-- Those of all faces of `objs`. -/
def shownAll (objs : List R3dObject) : List (Corners × Shade) :=
  objs.flatMap fun obj => s.shown fbw fbh obj obj.mesh.tris.zipIdx

/-- The vertices of a face up to the first one behind the near plane are below the cap. -/
def Sighted (obj : R3dObject) (first : Nat) (t : Face) : Prop :=
  first + t.a.toNat < r3dMaxVerts ∧
    ((s.placed fbw fbh obj t.a.toNat).behind = false → first + t.b.toNat < r3dMaxVerts ∧
      ((s.placed fbw fbh obj t.b.toNat).behind = false → first + t.c.toNat < r3dMaxVerts))

end R3dScene

/-- The two products of an edge function and their difference fit. -/
structure EdgeFits (p q : Vertex) (x y : Int) : Prop where
  left : Fits ((q.sx - p.sx) * (y - p.sy))
  right : Fits ((q.sy - p.sy) * (x - p.sx))
  value : Fits (edge p q x y)

instance (p q : Vertex) (x y : Int) : Decidable (EdgeFits p q x y) :=
  decidable_of_iff (Fits ((q.sx - p.sx) * (y - p.sy)) ∧ Fits ((q.sy - p.sy) * (x - p.sx)) ∧
    Fits (edge p q x y)) ⟨fun ⟨h, h', h''⟩ => ⟨h, h', h''⟩, fun ⟨h, h', h''⟩ => ⟨h, h', h''⟩⟩

/-- The area fits, and the edge functions fit at the four corners of the clamped box. -/
structure Corners.Compact (t : Corners) (fbw fbh : Int) : Prop where
  area : EdgeFits t.a t.b t.c.sx t.c.sy
  corners : t.area ≠ 0 → t.minx fbw ≤ t.maxx fbw → t.miny fbh ≤ t.maxy fbh →
    ∀ x ∈ [t.minx fbw, t.maxx fbw], ∀ y ∈ [t.miny fbh, t.maxy fbh],
      EdgeFits t.a t.b x y ∧ EdgeFits t.b t.c x y ∧ EdgeFits t.c t.a x y

instance (t : Corners) (fbw fbh : Int) : Decidable (t.Compact fbw fbh) :=
  decidable_of_iff (EdgeFits t.a t.b t.c.sx t.c.sy ∧ (t.area ≠ 0 → t.minx fbw ≤ t.maxx fbw →
    t.miny fbh ≤ t.maxy fbh → ∀ x ∈ [t.minx fbw, t.maxx fbw], ∀ y ∈ [t.miny fbh, t.maxy fbh],
      EdgeFits t.a t.b x y ∧ EdgeFits t.b t.c x y ∧ EdgeFits t.c t.a x y))
    ⟨fun ⟨h, h'⟩ => ⟨h, h'⟩, fun ⟨h, h'⟩ => ⟨h, h'⟩⟩

/-- No face that is looked at has a vertex beyond the cap, no vertex that is projected has depth zero,
and no triangle that is drawn is too large. -/
structure R3dScene.Modest (s : R3dScene) (fbw fbh : Nat) : Prop where
  size : Fits (fbw * fbh : Nat)
  depth : ∀ l obj r, s.objs = l ++ obj :: r → ∀ i < obj.mesh.verts.length,
    firstVertex l + i < r3dMaxVerts → (s.placed fbw fbh obj i).behind = false →
      (s.placed fbw fbh obj i).v.z ≠ 0
  sight : ∀ l obj r, s.objs = l ++ obj :: r → ∀ k t q, obj.mesh.tris.zipIdx = k ++ t :: q →
    (s.shownAll fbw fbh l).length + (s.shown fbw fbh obj k).length < r3dMaxTris →
      s.Sighted fbw fbh obj (firstVertex l) t.1
  compact : ∀ t ∈ (s.shownAll fbw fbh s.objs).take r3dMaxTris, t.1.Compact fbw fbh

/-! ## The vertex loop -/

section Fill

variable (s : R3dScene) (fbw fbh : Int) (o : Nat) (mv : Affine3Q16)

/-- The scratch arrays after the vertices `l` of object `o`, from `st₀`. -/
structure Filled (st₀ : Scratch) (l : List Vec3Q16) (st : Scratch) : Prop where
  nv : st.nv = min r3dMaxVerts (st₀.nv + l.length)
  tris : st.tris = st₀.tris
  old : ∀ i < st₀.nv, st.vert i = st₀.vert i ∧ st.filled i = st₀.filled i
  new : ∀ i < l.length, st₀.nv + i < r3dMaxVerts →
    st.vert (st₀.nv + i) = s.vertex fbw fbh mv (l.getD i ⟨0, 0, 0⟩) ∧
      st.filled (st₀.nv + i) = some o

/-- A projected vertex has a depth to divide by. -/
def Deep (v : Vertex) : Prop := v.behind = false → v.v.z ≠ 0

variable {s fbw fbh o mv} {st₀ st : Scratch} {l : List Vec3Q16}

theorem Filled.fill (h : Filled s fbw fbh o mv st₀ l st) (p : Vec3Q16) :
    Filled s fbw fbh o mv st₀ (l ++ [p]) (st.fill s fbw fbh o mv p) := by
  have hnv := h.nv
  unfold Scratch.fill
  split
  · rename_i hroom
    refine ⟨?_, h.tris, fun i hi => ?_, fun i hi hcap => ?_⟩
    · dsimp only
      rw [length_append, length_singleton]
      omega
    · dsimp only
      rw [Function.update_of_ne (by omega), Function.update_of_ne (by omega)]
      exact h.old i hi
    · dsimp only
      rw [length_append, length_singleton] at hi
      rcases Nat.lt_succ_iff_lt_or_eq.mp hi with hi | rfl
      · rw [Function.update_of_ne (by omega), Function.update_of_ne (by omega),
          getD_append _ _ _ _ hi]
        exact h.new i hi hcap
      · rw [show st₀.nv + l.length = st.nv by omega, Function.update_self, Function.update_self,
          getD_append_right _ _ _ _ le_rfl, Nat.sub_self, getD_cons_zero]
        exact ⟨rfl, rfl⟩
  · rename_i hfull
    refine ⟨?_, h.tris, h.old, fun i hi hcap => ?_⟩
    · rw [length_append, length_singleton]
      omega
    · rw [length_append, length_singleton] at hi
      have hi' : i < l.length := by omega
      rw [getD_append _ _ _ _ hi']
      exact h.new i hi' hcap

theorem toInt_ne_zero_iff (a : Q16) : a.toInt ≠ 0 ↔ a ≠ 0 := by
  rw [not_iff_not, ← BitVec.toInt_inj]
  rfl

theorem fillTouch_iff (h : Filled s fbw fbh o mv st₀ l st) (p : Vec3Q16) (npix : Int) :
    (∀ t ∈ fillTouch s fbw fbh mv st p, t.Fine npix) ↔
      (st₀.nv + l.length < r3dMaxVerts → Deep (s.vertex fbw fbh mv p)) := by
  have hnv := h.nv
  unfold fillTouch Deep
  by_cases hroom : st.nv < r3dMaxVerts
  · rw [if_pos hroom, forall_mem_cons]
    have hcap : st₀.nv + l.length < r3dMaxVerts := by omega
    cases hbehind : (s.vertex fbw fbh mv p).behind
    · simp [Touch.Fine, hroom, hcap, toInt_ne_zero_iff]
    · simp [Touch.Fine, hroom]
  · have hcap : ¬ st₀.nv + l.length < r3dMaxVerts := by omega
    simp [hroom, hcap]

theorem Filled.nil (st : Scratch) (h : st.nv ≤ r3dMaxVerts) : Filled s fbw fbh o mv st [] st :=
  ⟨by rw [length_nil]; omega, rfl, fun _ _ => ⟨rfl, rfl⟩, fun _ hi => absurd hi (by simp)⟩

theorem fill_filled (h : st.nv ≤ r3dMaxVerts) (verts : List Vec3Q16) :
    Filled s fbw fbh o mv st verts (verts.foldl (Scratch.fill s fbw fbh o mv) st) :=
  foldl_agree (Filled s fbw fbh o mv st) (fun _ _ => True) (fun _ _ p _ hl _ => hl.fill p)
    (Filled.nil st h) fun _ _ _ _ => trivial

theorem fill_fine_iff (h : st.nv ≤ r3dMaxVerts) (verts : List Vec3Q16) (npix : Int) :
    (∀ t ∈ loopTouches (Scratch.fill s fbw fbh o mv) (fillTouch s fbw fbh mv) st verts, t.Fine npix) ↔
      ∀ i < verts.length, st.nv + i < r3dMaxVerts →
        Deep (s.vertex fbw fbh mv (verts.getD i ⟨0, 0, 0⟩)) := by
  rw [loopTouches_iff (Filled s fbw fbh o mv st)
    (fun l p => st.nv + l.length < r3dMaxVerts → Deep (s.vertex fbw fbh mv p))
    (fun l st' p _ hl => fillTouch_iff hl p npix) (fun _ _ p _ hl _ => hl.fill p)
    (Filled.nil st h)]
  exact forall_append_cons_iff (P := fun n p => st.nv + n < r3dMaxVerts →
    Deep (s.vertex fbw fbh mv p)) ⟨0, 0, 0⟩

end Fill

/-! ## The face loop -/

section Look

variable (s : R3dScene) (fbw fbh : Int) (obj : R3dObject) (o first : Nat)

/-- The vertices of the object below the cap are in the scratch arrays. -/
def Placed (st : Scratch) : Prop :=
  ∀ i < obj.mesh.verts.length, first + i < r3dMaxVerts →
    first + i < st.nv ∧ st.vert (first + i) = s.placed fbw fbh obj i ∧
      st.filled (first + i) = some o

/-- The entries of a gathered triangle were filled for its object, before the near plane. -/
def Owned (st : Scratch) (t : R3dTri) : Prop :=
  ∀ i ∈ [t.a, t.b, t.c], i < st.nv ∧ st.filled i = some t.object ∧ (st.vert i).behind = false

/-- The scratch arrays after the faces `k`, from `st₀`; the faces `shown` were gathered before. -/
structure Looked (st₀ : Scratch) (shown : List (Corners × Shade)) (k : List (Face × Nat)) (st : Scratch) :
    Prop where
  nv : st.nv = st₀.nv
  vert : st.vert = st₀.vert
  filled : st.filled = st₀.filled
  tris : st.tris.map st₀.drawn = (shown ++ s.shown fbw fbh obj k).take r3dMaxTris
  own : ∀ t ∈ st.tris, Owned st₀ t

variable {s fbw fbh obj o first} {st₀ st : Scratch} {shown : List (Corners × Shade)} {k : List (Face × Nat)}
  {t : Face × Nat}

theorem Looked.length (h : Looked s fbw fbh obj st₀ shown k st) :
    st.tris.length = min r3dMaxTris (shown.length + (s.shown fbw fbh obj k).length) := by
  rw [← length_append, ← length_take, ← h.tris, length_map]

theorem shown_append (k : List (Face × Nat)) (t : Face × Nat) : s.shown fbw fbh obj (k ++ [t]) =
    s.shown fbw fbh obj k ++ (s.showing fbw fbh obj t).toList := by
  unfold R3dScene.shown
  rw [filterMap_append]
  cases hshows : s.showing fbw fbh obj t with
  | none => simp [hshows]
  | some f => simp [hshows]

/-- A face that does not show changes nothing, and one that does is appended. -/
theorem look_eq (hp : Placed s fbw fbh obj o first st)
    (hidx : t.1.a.toNat < obj.mesh.verts.length ∧ t.1.b.toNat < obj.mesh.verts.length ∧
      t.1.c.toNat < obj.mesh.verts.length)
    (hroom : st.tris.length < r3dMaxTris) (hsight : s.Sighted fbw fbh obj first t.1) :
    s.showing fbw fbh obj t = none ∧ st.look s o obj.mesh first t = st ∨
      ∃ tri : R3dTri, s.showing fbw fbh obj t = some (st.drawn tri) ∧
        st.look s o obj.mesh first t = { st with tris := st.tris ++ [tri] } ∧ Owned st tri := by
  obtain ⟨ha, hb, hc⟩ := hidx
  obtain ⟨hna, hva, hfa⟩ := hp _ ha hsight.1
  unfold Scratch.look R3dScene.showing
  rw [if_pos hroom]
  dsimp only [R3dScene.placedFace]
  rw [hva]
  cases hba : (s.placed fbw fbh obj t.1.a.toNat).behind
  · obtain ⟨hnb, hvb, hfb⟩ := hp _ hb (hsight.2 hba).1
    rw [hvb]
    cases hbb : (s.placed fbw fbh obj t.1.b.toNat).behind
    · obtain ⟨hnc, hvc, hfc⟩ := hp _ hc ((hsight.2 hba).2 hbb)
      rw [hvc]
      cases hbc : (s.placed fbw fbh obj t.1.c.toNat).behind
      · cases hface : s.face (s.faceBase obj.mesh t.2) (s.placed fbw fbh obj t.1.a.toNat)
          (s.placed fbw fbh obj t.1.b.toNat) (s.placed fbw fbh obj t.1.c.toNat) with
        | none => exact Or.inl ⟨by simp, by simp⟩
        | some shade =>
          refine Or.inr ⟨⟨first + t.1.a.toNat, first + t.1.b.toNat, first + t.1.c.toNat, shade, o⟩,
            ?_, by simp, ?_⟩
          · unfold Scratch.drawn Scratch.corners
            dsimp only
            rw [hva, hvb, hvc]
            simp
          · intro i hi
            simp only [mem_cons, not_mem_nil, or_false] at hi
            rcases hi with rfl | rfl | rfl
            · exact ⟨hna, hfa, by rw [hva, hba]⟩
            · exact ⟨hnb, hfb, by rw [hvb, hbb]⟩
            · exact ⟨hnc, hfc, by rw [hvc, hbc]⟩
      · exact Or.inl ⟨by simp, by simp⟩
    · exact Or.inl ⟨by simp, by simp⟩
  · exact Or.inl ⟨by simp, by simp⟩

theorem Placed.of_looked (hp : Placed s fbw fbh obj o first st₀)
    (h : Looked s fbw fbh obj st₀ shown k st) : Placed s fbw fbh obj o first st := by
  unfold Placed at *
  rw [h.nv, h.vert, h.filled]
  exact hp

theorem Looked.look (h : Looked s fbw fbh obj st₀ shown k st)
    (hp : Placed s fbw fbh obj o first st₀)
    (hidx : t.1.a.toNat < obj.mesh.verts.length ∧ t.1.b.toNat < obj.mesh.verts.length ∧
      t.1.c.toNat < obj.mesh.verts.length)
    (hsight : shown.length + (s.shown fbw fbh obj k).length < r3dMaxTris →
      s.Sighted fbw fbh obj first t.1) :
    Looked s fbw fbh obj st₀ shown (k ++ [t]) (st.look s o obj.mesh first t) := by
  have hlen := h.length
  by_cases hroom : st.tris.length < r3dMaxTris
  · have htris : st.tris.map st₀.drawn = shown ++ s.shown fbw fbh obj k := by
      rw [h.tris, take_of_length_le]
      rw [length_append]
      omega
    obtain ⟨hshows, heq⟩ | ⟨tri, hshows, heq, hown⟩ :=
      look_eq (hp.of_looked h) hidx hroom (hsight (by omega))
    · rw [heq]
      refine { h with tris := ?_ }
      rw [shown_append, hshows, Option.toList_none, append_nil]
      exact h.tris
    · have hdrawn : st₀.drawn tri = st.drawn tri := by
        unfold Scratch.drawn Scratch.corners
        rw [h.vert]
      rw [heq]
      refine ⟨h.nv, h.vert, h.filled, ?_, fun u hu => ?_⟩
      · rw [map_append, htris, map_singleton, hdrawn, shown_append, hshows,
          Option.toList_some, ← append_assoc, take_of_length_le]
        simp only [length_append, length_singleton]
        omega
      · rcases mem_append.mp hu with hu | hu
        · exact h.own u hu
        · obtain rfl := mem_singleton.mp hu
          unfold Owned at *
          rw [← h.nv, ← h.vert, ← h.filled]
          exact hown
  · have hsame : st.look s o obj.mesh first t = st := by
      unfold Scratch.look
      rw [if_neg hroom]
    rw [hsame]
    refine { h with tris := ?_ }
    have hfull : r3dMaxTris ≤ (shown ++ s.shown fbw fbh obj k).length := by
      rw [length_append]
      omega
    rw [h.tris, shown_append, ← append_assoc, take_append_of_le_length hfull]

theorem normalTouch_fine (n : Vec3Q16) (npix : Int) : ∀ t ∈ normalTouch n, t.Fine npix := by
  unfold normalTouch
  intro t ht
  split at ht
  · exact absurd ht not_mem_nil
  · rename_i hpos
    rw [mem_singleton.mp ht]
    intro hzero
    refine hpos ?_
    rw [BitVec.sle_eq_decide, hzero]
    decide

theorem lookTouch_iff (h : Looked s fbw fbh obj st₀ shown k st)
    (hp : Placed s fbw fbh obj o first st₀)
    (hidx : t.1.a.toNat < obj.mesh.verts.length ∧ t.1.b.toNat < obj.mesh.verts.length ∧
      t.1.c.toNat < obj.mesh.verts.length) (npix : Int) :
    (∀ u ∈ lookTouch s o obj.mesh first st t, u.Fine npix) ↔
      (shown.length + (s.shown fbw fbh obj k).length < r3dMaxTris →
        s.Sighted fbw fbh obj first t.1) := by
  have hlen := h.length
  have hp' := hp.of_looked h
  obtain ⟨ha, hb, hc⟩ := hidx
  unfold lookTouch R3dScene.Sighted
  by_cases hroom : st.tris.length < r3dMaxTris
  · have hshown : shown.length + (s.shown fbw fbh obj k).length < r3dMaxTris := by omega
    rw [if_pos hroom, forall_mem_cons, forall_prop_of_true hshown]
    by_cases hacap : first + t.1.a.toNat < r3dMaxVerts
    · obtain ⟨-, hva, hfa⟩ := hp' _ ha hacap
      rw [and_iff_right (show Touch.Fine npix (.read _ o _) from ⟨hacap, hfa⟩), and_iff_right hacap,
        hva]
      cases hba : (s.placed fbw fbh obj t.1.a.toNat).behind
      · rw [if_neg nofun, forall_mem_cons, forall_prop_of_true rfl]
        by_cases hbcap : first + t.1.b.toNat < r3dMaxVerts
        · obtain ⟨-, hvb, hfb⟩ := hp' _ hb hbcap
          rw [and_iff_right (show Touch.Fine npix (.read _ o _) from ⟨hbcap, hfb⟩),
            and_iff_right hbcap, hvb]
          cases hbb : (s.placed fbw fbh obj t.1.b.toNat).behind
          · rw [if_neg nofun, forall_mem_cons, forall_prop_of_true rfl]
            by_cases hccap : first + t.1.c.toNat < r3dMaxVerts
            · obtain ⟨-, hvc, hfc⟩ := hp' _ hc hccap
              simp only [hccap, iff_true]
              refine ⟨⟨hccap, hfc⟩, fun u hu => ?_⟩
              split at hu
              · exact absurd hu not_mem_nil
              · rcases mem_append.mp hu with hu | hu
                · exact normalTouch_fine _ npix u hu
                · revert hu
                  cases s.face (s.faceBase obj.mesh t.2) (s.placed fbw fbh obj t.1.a.toNat)
                    (s.placed fbw fbh obj t.1.b.toNat) (st.vert (first + t.1.c.toNat)) with
                  | none => exact fun hu => absurd hu not_mem_nil
                  | some shade =>
                    intro hu
                    rw [mem_singleton.mp hu]
                    exact hroom
            · simp [Touch.Fine, hccap]
          · simp
        · simp [Touch.Fine, hbcap]
      · simp
    · simp [Touch.Fine, hacap]
  · have hshown : ¬ shown.length + (s.shown fbw fbh obj k).length < r3dMaxTris := by omega
    simp [hroom, hshown]

variable (hp : Placed s fbw fbh obj o first st₀) (hidx : obj.mesh.Indexed)

theorem Looked.nil (htris : st₀.tris.map st₀.drawn = shown.take r3dMaxTris)
    (hown : ∀ t ∈ st₀.tris, Owned st₀ t) : Looked s fbw fbh obj st₀ shown [] st₀ :=
  ⟨rfl, rfl, rfl, by rw [htris, R3dScene.shown, filterMap_nil, append_nil], hown⟩

theorem R3dMesh.Indexed.of_mem {m : R3dMesh} (h : m.Indexed) {t : Face × Nat}
    (ht : t ∈ m.tris.zipIdx) : t.1.a.toNat < m.verts.length ∧ t.1.b.toNat < m.verts.length ∧
      t.1.c.toNat < m.verts.length :=
  h t.1 (fst_mem_of_mem_zipIdx ht)

include hp hidx

theorem look_looked (htris : st₀.tris.map st₀.drawn = shown.take r3dMaxTris)
    (hown : ∀ t ∈ st₀.tris, Owned st₀ t)
    (hsight : ∀ k t q, obj.mesh.tris.zipIdx = k ++ t :: q →
      shown.length + (s.shown fbw fbh obj k).length < r3dMaxTris →
        s.Sighted fbw fbh obj first t.1) :
    Looked s fbw fbh obj st₀ shown obj.mesh.tris.zipIdx
      (obj.mesh.tris.zipIdx.foldl (Scratch.look s o obj.mesh first) st₀) :=
  foldl_agree (Looked s fbw fbh obj st₀ shown)
    (fun k t => shown.length + (s.shown fbw fbh obj k).length < r3dMaxTris →
      s.Sighted fbw fbh obj first t.1)
    (fun _ _ _ ht hl hc => hl.look hp (hidx.of_mem ht) hc) (Looked.nil htris hown) hsight

theorem look_fine_iff (htris : st₀.tris.map st₀.drawn = shown.take r3dMaxTris)
    (hown : ∀ t ∈ st₀.tris, Owned st₀ t) (npix : Int) :
    (∀ u ∈ loopTouches (Scratch.look s o obj.mesh first) (lookTouch s o obj.mesh first) st₀
      obj.mesh.tris.zipIdx, u.Fine npix) ↔
      ∀ k t q, obj.mesh.tris.zipIdx = k ++ t :: q →
        shown.length + (s.shown fbw fbh obj k).length < r3dMaxTris →
          s.Sighted fbw fbh obj first t.1 :=
  loopTouches_iff (Looked s fbw fbh obj st₀ shown)
    (fun k t => shown.length + (s.shown fbw fbh obj k).length < r3dMaxTris →
      s.Sighted fbw fbh obj first t.1)
    (fun _ _ _ ht hl => lookTouch_iff hl hp (hidx.of_mem ht) npix)
    (fun _ _ _ ht hl hc => hl.look hp (hidx.of_mem ht) hc) (Looked.nil htris hown)

end Look

/-! ## The object loop -/

section Object

variable (s : R3dScene) (fbw fbh : Int)

/-- Screen coordinates are the upper halves of 32-bit words. -/
structure OnScreen (v : Vertex) : Prop where
  x : -32768 ≤ v.sx ∧ v.sx ≤ 32767
  y : -32768 ≤ v.sy ∧ v.sy ≤ 32767

/-- The scratch arrays after the objects `l`. -/
structure Gathered (l : List R3dObject) (st : Scratch) : Prop where
  nv : st.nv = firstVertex l
  tris : st.tris.map st.drawn = (s.shownAll fbw fbh l).take r3dMaxTris
  own : ∀ t ∈ st.tris, Owned st t
  deep : ∀ i < st.nv, Deep (st.vert i)
  screen : ∀ i < st.nv, OnScreen (st.vert i)

/-- What the vertices and the faces of the next object have to meet. -/
structure Accepts (l : List R3dObject) (obj : R3dObject) : Prop where
  depth : ∀ i < obj.mesh.verts.length, firstVertex l + i < r3dMaxVerts →
    Deep (s.placed fbw fbh obj i)
  sight : ∀ k t q, obj.mesh.tris.zipIdx = k ++ t :: q →
    (s.shownAll fbw fbh l).length + (s.shown fbw fbh obj k).length < r3dMaxTris →
      s.Sighted fbw fbh obj (firstVertex l) t.1

variable {s fbw fbh} {l : List R3dObject} {st : Scratch} {obj : R3dObject}

theorem q16ToInt_bounds (a : Q16) : -32768 ≤ q16ToInt a ∧ q16ToInt a ≤ 32767 := by
  have hlow := BitVec.le_toInt a
  have hhigh := BitVec.toInt_lt (x := a)
  unfold q16ToInt q16FracBits
  rw [BitVec.toInt_sshiftRight, Int.shiftRight_eq_div_pow]
  omega

theorem vertex_onScreen (mv : Affine3Q16) (p : Vec3Q16) : OnScreen (s.vertex fbw fbh mv p) := by
  unfold R3dScene.vertex
  dsimp only
  split
  · constructor
    · dsimp only
      omega
    · dsimp only
      omega
  · constructor
    · dsimp only
      exact q16ToInt_bounds _
    · dsimp only
      exact q16ToInt_bounds _

theorem firstVertex_le (l : List R3dObject) : firstVertex l ≤ r3dMaxVerts := min_le_left ..

theorem firstVertex_append (l : List R3dObject) (obj : R3dObject) :
    firstVertex (l ++ [obj]) = min r3dMaxVerts (firstVertex l + obj.mesh.verts.length) := by
  unfold firstVertex
  rw [map_append, sum_append, map_singleton, sum_singleton]
  omega

theorem shownAll_append (l : List R3dObject) (obj : R3dObject) :
    s.shownAll fbw fbh (l ++ [obj]) =
      s.shownAll fbw fbh l ++ s.shown fbw fbh obj obj.mesh.tris.zipIdx := by
  unfold R3dScene.shownAll
  rw [flatMap_append, flatMap_singleton]

theorem Gathered.filled (h : Gathered s fbw fbh l st) {o : Nat} {st₁ : Scratch}
    (hf : Filled s fbw fbh o (s.view.compose obj.xform) st obj.mesh.verts st₁) :
    st₁.nv = firstVertex (l ++ [obj]) ∧ Placed s fbw fbh obj o (firstVertex l) st₁ ∧
      st₁.tris.map st₁.drawn = (s.shownAll fbw fbh l).take r3dMaxTris ∧
        ∀ t ∈ st₁.tris, Owned st₁ t := by
  have hnv := hf.nv
  have hstart := h.nv
  refine ⟨?_, fun i hi hcap => ?_, ?_, fun t ht => ?_⟩
  · rw [hnv, hstart, firstVertex_append]
  · obtain ⟨hvert, hfilled⟩ := hf.new i hi (by omega)
    rw [hstart] at hvert hfilled
    exact ⟨by omega, hvert, hfilled⟩
  · rw [← h.tris, hf.tris]
    refine map_congr_left fun t ht => ?_
    obtain hown := h.own t ht
    unfold Owned at hown
    unfold Scratch.drawn Scratch.corners
    rw [(hf.old _ (hown t.a (by simp)).1).1, (hf.old _ (hown t.b (by simp)).1).1,
      (hf.old _ (hown t.c (by simp)).1).1]
  · intro i hi
    rw [hf.tris] at ht
    obtain ⟨hlt, hfilled, hbehind⟩ := h.own t ht i hi
    rw [(hf.old i hlt).1, (hf.old i hlt).2]
    have hle := firstVertex_le l
    exact ⟨by omega, hfilled, hbehind⟩

theorem Gathered.object (h : Gathered s fbw fbh l st) (hidx : obj.mesh.Indexed) (o : Nat)
    (ha : Accepts s fbw fbh l obj) :
    Gathered s fbw fbh (l ++ [obj]) (st.object s fbw fbh (obj, o)) := by
  have hle : st.nv ≤ r3dMaxVerts := h.nv ▸ firstVertex_le l
  have hf : Filled s fbw fbh o (s.view.compose obj.xform) st obj.mesh.verts _ :=
    fill_filled hle obj.mesh.verts
  obtain ⟨hnv, hplaced, htris, hown⟩ := h.filled hf
  have hlook := look_looked hplaced hidx htris hown ha.sight
  have hvert : ∀ i < firstVertex (l ++ [obj]), i < st.nv ∨ ∃ j < obj.mesh.verts.length,
      i = firstVertex l + j ∧ firstVertex l + j < r3dMaxVerts := by
    intro i hi
    have hstart := h.nv
    rw [firstVertex_append] at hi
    by_cases hold : i < st.nv
    · exact Or.inl hold
    · exact Or.inr ⟨i - firstVertex l, by omega, by omega, by omega⟩
  unfold Scratch.object
  dsimp only
  rw [h.nv]
  have hall (P : Vertex → Prop) (hst : ∀ i < st.nv, P (st.vert i))
      (hnew : ∀ j < obj.mesh.verts.length, firstVertex l + j < r3dMaxVerts →
        P (s.placed fbw fbh obj j)) : ∀ i < firstVertex (l ++ [obj]),
      P ((obj.mesh.verts.foldl (Scratch.fill s fbw fbh o (s.view.compose obj.xform)) st).vert i) := by
    intro i hi
    rcases hvert i hi with hold | ⟨j, hj, rfl, hcap⟩
    · rw [(hf.old i hold).1]
      exact hst i hold
    · rw [(hplaced j hj hcap).2.1]
      exact hnew j hj hcap
  refine ⟨by rw [hlook.nv, hnv], ?_, fun t ht => ?_, fun i hi => ?_, fun i hi => ?_⟩
  · rw [shownAll_append, ← hlook.tris]
    refine map_congr_left fun t _ => ?_
    unfold Scratch.drawn Scratch.corners
    rw [hlook.vert]
  · have htown := hlook.own t ht
    unfold Owned at *
    rw [hlook.nv, hlook.vert, hlook.filled]
    exact htown
  · rw [hlook.nv, hnv] at hi
    rw [hlook.vert]
    exact hall Deep h.deep ha.depth i hi
  · rw [hlook.nv, hnv] at hi
    rw [hlook.vert]
    exact hall OnScreen h.screen (fun _ _ _ => vertex_onScreen ..) i hi

theorem objectTouch_iff (h : Gathered s fbw fbh l st) (hidx : obj.mesh.Indexed) (o : Nat)
    (npix : Int) : (∀ u ∈ objectTouch s fbw fbh st (obj, o), u.Fine npix) ↔
      Accepts s fbw fbh l obj := by
  have hle : st.nv ≤ r3dMaxVerts := h.nv ▸ firstVertex_le l
  have hf : Filled s fbw fbh o (s.view.compose obj.xform) st obj.mesh.verts _ :=
    fill_filled hle obj.mesh.verts
  obtain ⟨-, hplaced, htris, hown⟩ := h.filled hf
  unfold objectTouch
  dsimp only
  rw [forall_mem_append, fill_fine_iff hle, h.nv, look_fine_iff hplaced hidx htris hown]
  exact ⟨fun ⟨hdepth, hsight⟩ => ⟨hdepth, hsight⟩, fun ha => ⟨ha.depth, ha.sight⟩⟩

end Object

/-! ## The raster loops -/

section Raster

variable {p q : Vertex} {t : Corners} {x y : Int} {fbw fbh : Nat}

theorem edgeTouch_iff (hp : OnScreen p) (hq : OnScreen q) (hx : -32768 ≤ x ∧ x ≤ 32767)
    (hy : -32768 ≤ y ∧ y ≤ 32767) (npix : Int) :
    (∀ u ∈ edgeTouch p q x y, u.Fine npix) ↔ EdgeFits p q x y := by
  have hpx := hp.x
  have hpy := hp.y
  have hqx := hq.x
  have hqy := hq.y
  unfold edgeTouch
  simp only [forall_mem_cons, Touch.Fine]
  constructor
  · rintro ⟨-, -, -, -, hleft, hright, hvalue, -⟩
    exact ⟨hleft, hright, hvalue⟩
  · rintro ⟨hleft, hright, hvalue⟩
    refine ⟨?_, ?_, ?_, ?_, hleft, hright, hvalue, fun u hu => absurd hu not_mem_nil⟩
    · unfold Fits
      omega
    · unfold Fits
      omega
    · unfold Fits
      omega
    · unfold Fits
      omega

theorem fits_line {m k z₀ z₁ z : Int} (h₀ : Fits (m * z₀ + k)) (h₁ : Fits (m * z₁ + k))
    (hz : z₀ ≤ z ∧ z ≤ z₁) : Fits (m * z + k) := by
  unfold Fits at *
  rcases le_total 0 m with hm | hm
  · have hlow := mul_le_mul_of_nonneg_left hz.1 hm
    have hhigh := mul_le_mul_of_nonneg_left hz.2 hm
    omega
  · have hlow := mul_le_mul_of_nonpos_left hz.1 hm
    have hhigh := mul_le_mul_of_nonpos_left hz.2 hm
    omega

theorem EdgeFits.of_corners {x₀ x₁ y₀ y₁ : Int} (hx : x₀ ≤ x ∧ x ≤ x₁) (hy : y₀ ≤ y ∧ y ≤ y₁)
    (h₀₀ : EdgeFits p q x₀ y₀) (h₁₀ : EdgeFits p q x₁ y₀) (h₀₁ : EdgeFits p q x₀ y₁)
    (h₁₁ : EdgeFits p q x₁ y₁) : EdgeFits p q x y := by
  have hrow (u : Int) : edge p q u y =
      (q.sx - p.sx) * y + (-((q.sx - p.sx) * p.sy) - (q.sy - p.sy) * (u - p.sx)) := by
    unfold edge
    ring
  have hside {u : Int} (h₀ : EdgeFits p q u y₀) (h₁ : EdgeFits p q u y₁) : Fits (edge p q u y) := by
    rw [hrow]
    refine fits_line ?_ ?_ hy
    · convert h₀.value using 1
      unfold edge
      ring
    · convert h₁.value using 1
      unfold edge
      ring
  refine ⟨?_, ?_, ?_⟩
  · have hleft := fits_line (m := q.sx - p.sx) (k := -((q.sx - p.sx) * p.sy))
      (by convert h₀₀.left using 1; ring) (by convert h₀₁.left using 1; ring) hy
    convert hleft using 1
    ring
  · have hright := fits_line (m := q.sy - p.sy) (k := -((q.sy - p.sy) * p.sx))
      (by convert h₀₀.right using 1; ring) (by convert h₁₀.right using 1; ring) hx
    convert hright using 1
    ring
  · have hvalue := fits_line (m := -(q.sy - p.sy))
      (k := (q.sx - p.sx) * (y - p.sy) + (q.sy - p.sy) * p.sx)
      (by convert hside h₀₀ h₀₁ using 1; unfold edge; ring)
      (by convert hside h₁₀ h₁₁ using 1; unfold edge; ring) hx
    convert hvalue using 1
    unfold edge
    ring

theorem box_pixel {a b c z : Int} (hlow : clampi (min3 a b c) 0 (fbw - 1) ≤ z)
    (hhigh : z ≤ clampi (max3 a b c) 0 (fbw - 1)) (hmin : min3 a b c ≤ z) (hmax : z ≤ max3 a b c) :
    0 ≤ z ∧ z < fbw := by
  unfold clampi at *
  split_ifs at hlow hhigh <;> omega

theorem box_bounds {a b c z : Int} (ha : -32768 ≤ a ∧ a ≤ 32767) (hb : -32768 ≤ b ∧ b ≤ 32767)
    (hc : -32768 ≤ c ∧ c ≤ 32767) (hlow : clampi (min3 a b c) 0 (fbw - 1) ≤ z)
    (hhigh : z ≤ clampi (max3 a b c) 0 (fbw - 1)) : -32768 ≤ z ∧ z ≤ 32767 := by
  unfold clampi min3 max3 at *
  split_ifs at hlow hhigh <;> omega

/-- The corners of a triangle that is drawn. -/
structure Corners.Drawn (t : Corners) : Prop where
  screen : OnScreen t.a ∧ OnScreen t.b ∧ OnScreen t.c
  deep : t.a.v.z ≠ 0 ∧ t.b.v.z ≠ 0 ∧ t.c.v.z ≠ 0

namespace Corners

variable (ht : t.Drawn) (harea : t.area ≠ 0) (hx : t.minx fbw ≤ x ∧ x ≤ t.maxx fbw)
  (hy : t.miny fbh ≤ y ∧ y ≤ t.maxy fbh)

include harea hx hy in
theorem inside_pixel (hin : t.inside x y = true) :
    0 ≤ y * fbw + x ∧ y * fbw + x < (fbw * fbh : Nat) := by
  obtain ⟨hbx, hby⟩ := inside_box harea hin
  have hcol := box_pixel hx.1 hx.2 hbx.1 hbx.2
  have hrow := box_pixel hy.1 hy.2 hby.1 hby.2
  push_cast
  constructor
  · nlinarith
  · nlinarith

include ht harea hx hy in
theorem pixelTouch_iff (hsize : Fits (fbw * fbh : Nat)) :
    (∀ u ∈ t.pixelTouch fbw (useZ fbw fbh) x y, u.Fine (fbw * fbh : Nat)) ↔
      EdgeFits t.a t.b x y ∧ EdgeFits t.b t.c x y ∧ EdgeFits t.c t.a x y := by
  obtain ⟨ha, hb, hc⟩ := ht.screen
  have hx' := box_bounds ha.x hb.x hc.x hx.1 hx.2
  have hy' := box_bounds ha.y hb.y hc.y hy.1 hy.2
  have hrest : ∀ u ∈ (if t.inside x y then
      [.word (y * fbw + x), .pixel (y * fbw + x)] ++
        if useZ fbw fbh then [.depth (y * fbw + x)] else []
      else []), Touch.Fine (fbw * fbh : Nat) u := by
    intro u hu
    split at hu
    · rename_i hin
      obtain ⟨hlow, hhigh⟩ := inside_pixel harea hx hy hin
      rw [mem_append] at hu
      rcases hu with hu | hu
      · simp only [mem_cons, not_mem_nil, or_false] at hu
        rcases hu with rfl | rfl
        · unfold Touch.Fine Fits at *
          dsimp only
          omega
        · exact ⟨hlow, hhigh⟩
      · split at hu
        · rename_i huse
          obtain rfl := mem_singleton.mp hu
          have hz : fbw * fbh ≤ r3dMaxPixels := of_decide_eq_true huse
          refine ⟨hlow, ?_⟩
          omega
        · exact absurd hu not_mem_nil
    · exact absurd hu not_mem_nil
  unfold pixelTouch
  rw [forall_mem_append, forall_mem_append, forall_mem_append,
    edgeTouch_iff ha hb hx' hy', edgeTouch_iff hb hc hx' hy', edgeTouch_iff hc ha hx' hy']
  exact ⟨fun ⟨⟨⟨h0, h1⟩, h2⟩, _⟩ => ⟨h0, h1, h2⟩, fun ⟨h0, h1, h2⟩ => ⟨⟨⟨h0, h1⟩, h2⟩, hrest⟩⟩

include ht in
theorem touch_iff (hsize : Fits (fbw * fbh : Nat)) :
    (∀ u ∈ t.touch fbw fbh (useZ fbw fbh), u.Fine (fbw * fbh : Nat)) ↔ t.Compact fbw fbh := by
  obtain ⟨ha, hb, hc⟩ := ht.screen
  obtain ⟨hza, hzb, hzc⟩ := ht.deep
  unfold touch
  rw [forall_mem_append, edgeTouch_iff ha hb hc.x hc.y]
  by_cases harea : t.area = 0
  · rw [if_pos harea]
    exact ⟨fun h => ⟨h.1, fun hne => absurd harea hne⟩,
      fun h => ⟨h.area, fun u hu => absurd hu not_mem_nil⟩⟩
  · have hdivide : ∀ u ∈ [Touch.divide t.a.v.z.toInt, .divide t.b.v.z.toInt,
        .divide t.c.v.z.toInt, .divide t.area, .divide t.area], u.Fine (fbw * fbh : Nat) := by
      simp only [forall_mem_cons, Touch.Fine, toInt_ne_zero_iff]
      exact ⟨hza, hzb, hzc, harea, harea, fun u hu => absurd hu not_mem_nil⟩
    rw [if_neg harea, forall_mem_append, and_iff_right hdivide]
    simp only [forall_mem_flatMap, mem_fromTo]
    constructor
    · rintro ⟨hedges, hpixels⟩
      refine ⟨hedges, fun _ hminx hminy x hx y hy => ?_⟩
      have hx : t.minx fbw ≤ x ∧ x ≤ t.maxx fbw := by
        simp only [mem_cons, not_mem_nil, or_false] at hx
        omega
      have hy : t.miny fbh ≤ y ∧ y ≤ t.maxy fbh := by
        simp only [mem_cons, not_mem_nil, or_false] at hy
        omega
      exact (pixelTouch_iff ht harea hx hy hsize).mp (hpixels y hy x hx)
    · rintro ⟨hedges, hcorners⟩
      refine ⟨hedges, fun y hy x hx => ?_⟩
      rw [pixelTouch_iff ht harea hx hy hsize]
      have hcorner := hcorners harea (hx.1.trans hx.2) (hy.1.trans hy.2)
      obtain ⟨h00, g00, f00⟩ := hcorner (t.minx fbw) (by simp) (t.miny fbh) (by simp)
      obtain ⟨h10, g10, f10⟩ := hcorner (t.maxx fbw) (by simp) (t.miny fbh) (by simp)
      obtain ⟨h01, g01, f01⟩ := hcorner (t.minx fbw) (by simp) (t.maxy fbh) (by simp)
      obtain ⟨h11, g11, f11⟩ := hcorner (t.maxx fbw) (by simp) (t.maxy fbh) (by simp)
      exact ⟨h00.of_corners hx hy h10 h01 h11, g00.of_corners hx hy g10 g01 g11,
        f00.of_corners hx hy f10 f01 f11⟩

end Corners

end Raster

/-! ## The whole call -/

section Render

variable {s : R3dScene} {fbw fbh : Nat}

theorem clearTouches_iff (fbw fbh : Nat) :
    (∀ u ∈ clearTouches fbw fbh, u.Fine (fbw * fbh : Nat)) ↔ Fits (fbw * fbh : Nat) := by
  unfold clearTouches
  rw [cons_append, forall_mem_cons]
  refine and_iff_left fun u hu => ?_
  rcases mem_append.mp hu with hu | hu
  · obtain ⟨i, hi, rfl⟩ := mem_map.mp hu
    have hi := mem_range.mp hi
    unfold Touch.Fine
    omega
  · split at hu
    · rename_i huse
      have hz : fbw * fbh ≤ r3dMaxPixels := of_decide_eq_true huse
      obtain ⟨i, hi, rfl⟩ := mem_map.mp hu
      have hi := mem_range.mp hi
      unfold Touch.Fine
      omega
    · exact absurd hu not_mem_nil

theorem zipIdx_split_iff {α : Type*} {P : List α → α → Prop} {xs : List α} :
    (∀ l x r, xs.zipIdx = l ++ x :: r → P (l.map Prod.fst) x.1) ↔
      ∀ l x r, xs = l ++ x :: r → P l x := by
  constructor
  · rintro h l x r rfl
    have hx := h _ _ _ (by rw [zipIdx_append, zipIdx_cons])
    rwa [zipIdx_map_fst] at hx
  · intro h l x r hxs
    refine h _ _ (r.map Prod.fst) ?_
    rw [← map_cons, ← map_append, ← hxs, zipIdx_map_fst]

theorem gathered_nil (before : Nat → Vertex) :
    Gathered s fbw fbh [] ⟨before, fun _ => none, 0, []⟩ :=
  ⟨rfl, rfl, fun _ ht => absurd ht not_mem_nil, fun i hi => absurd hi (Nat.not_lt_zero i),
    fun i hi => absurd hi (Nat.not_lt_zero i)⟩

section

variable (hidx : s.Indexed) (before : Nat → Vertex)

include hidx

theorem R3dScene.Indexed.of_mem {obj : R3dObject × Nat} (hobj : obj ∈ s.objs.zipIdx) :
    obj.1.mesh.Indexed :=
  hidx obj.1 (fst_mem_of_mem_zipIdx hobj)

theorem gatherTouches_iff (npix : Int) :
    (∀ u ∈ s.gatherTouches fbw fbh before, u.Fine npix) ↔
      ∀ l obj r, s.objs = l ++ obj :: r → Accepts s fbw fbh l obj := by
  rw [← zipIdx_split_iff]
  exact loopTouches_iff (l := []) (fun l st => Gathered s fbw fbh (l.map Prod.fst) st)
    (fun l obj => Accepts s fbw fbh (l.map Prod.fst) obj.1)
    (fun l st obj hobj hl => objectTouch_iff hl (hidx.of_mem hobj) obj.2 npix)
    (fun l st obj hobj hl ha => by
      rw [map_append]
      exact hl.object (hidx.of_mem hobj) obj.2 ha)
    (gathered_nil before)

theorem gather_gathered (ha : ∀ l obj r, s.objs = l ++ obj :: r → Accepts s fbw fbh l obj) :
    Gathered s fbw fbh s.objs (s.gather fbw fbh before) := by
  have hall := foldl_agree (l := []) (fun l st => Gathered s fbw fbh (l.map Prod.fst) st)
    (fun l obj => Accepts s fbw fbh (l.map Prod.fst) obj.1)
    (fun l st obj hobj hl ha => by
      rw [map_append]
      exact hl.object (hidx.of_mem hobj) obj.2 ha)
    (gathered_nil before) (zipIdx_split_iff.mpr ha)
  rwa [nil_append, zipIdx_map_fst] at hall

end

theorem Gathered.drawn {l : List R3dObject} {st : Scratch} (h : Gathered s fbw fbh l st)
    {t : R3dTri} (ht : t ∈ st.tris) : (st.corners t).Drawn := by
  have hown := h.own t ht
  have ha := hown t.a (by simp)
  have hb := hown t.b (by simp)
  have hc := hown t.c (by simp)
  exact ⟨⟨h.screen _ ha.1, h.screen _ hb.1, h.screen _ hc.1⟩, h.deep _ ha.1 ha.2.2,
    h.deep _ hb.1 hb.2.2, h.deep _ hc.1 hc.2.2⟩

theorem rasterTouch_iff {l : List R3dObject} {st : Scratch} (h : Gathered s fbw fbh l st)
    (hsize : Fits (fbw * fbh : Nat)) {t : R3dTri} (ht : t ∈ st.tris) :
    (∀ u ∈ rasterTouch fbw fbh (useZ fbw fbh) st t, u.Fine (fbw * fbh : Nat)) ↔
      (st.corners t).Compact fbw fbh := by
  have hle : st.nv ≤ r3dMaxVerts := h.nv ▸ firstVertex_le l
  have hread : ∀ u ∈ [Touch.read t.a t.object (st.filled t.a),
      .read t.b t.object (st.filled t.b), .read t.c t.object (st.filled t.c)],
      u.Fine (fbw * fbh : Nat) := by
    have hown := h.own t ht
    have ha := hown t.a (by simp)
    have hb := hown t.b (by simp)
    have hc := hown t.c (by simp)
    simp only [forall_mem_cons, Touch.Fine]
    exact ⟨⟨ha.1.trans_le hle, ha.2.1⟩, ⟨hb.1.trans_le hle, hb.2.1⟩, ⟨hc.1.trans_le hle, hc.2.1⟩,
      fun u hu => absurd hu not_mem_nil⟩
  unfold rasterTouch
  rw [forall_mem_append, and_iff_right hread, Corners.touch_iff (h.drawn ht) hsize]

theorem modest_iff : s.Modest fbw fbh ↔ Fits (fbw * fbh : Nat) ∧
    (∀ l obj r, s.objs = l ++ obj :: r → Accepts s fbw fbh l obj) ∧
      ∀ t ∈ (s.shownAll fbw fbh s.objs).take r3dMaxTris, t.1.Compact fbw fbh := by
  constructor
  · rintro ⟨hsize, hdepth, hsight, hcompact⟩
    exact ⟨hsize, fun l obj r hobjs => ⟨hdepth l obj r hobjs, hsight l obj r hobjs⟩, hcompact⟩
  · rintro ⟨hsize, ha, hcompact⟩
    exact ⟨hsize, fun l obj r hobjs => (ha l obj r hobjs).depth,
      fun l obj r hobjs => (ha l obj r hobjs).sight, hcompact⟩

/-- Everything that a call touches is in order, for exactly the scenes and framebuffers whose faces
and vertices are: whatever the scratch arrays held before. -/
theorem render_fine_iff (hidx : s.Indexed) (fbw fbh : Nat) (before : Nat → Vertex) :
    (∀ u ∈ s.renderTouches fbw fbh before, u.Fine (fbw * fbh : Nat)) ↔ s.Modest fbw fbh := by
  rw [modest_iff]
  unfold R3dScene.renderTouches
  rw [forall_mem_append, forall_mem_append, clearTouches_iff, gatherTouches_iff hidx,
    and_assoc]
  refine and_congr_right fun hsize => and_congr_right fun ha => ?_
  have hg := gather_gathered hidx before ha
  rw [forall_mem_flatMap, ← hg.tris, forall_mem_map]
  exact forall₂_congr fun t ht => rasterTouch_iff hg hsize ht

/-! ## Scenes of one object -/

/-- An object seen from its own origin, at focal length one. -/
def R3dScene.still (nearZ : Q16) (verts : List Vec3Q16) (tris : List Face) : R3dScene :=
  ⟨.identity, 0x10000, nearZ, ⟨0, 0, 0⟩, 0, 0, 0, 16, [⟨⟨verts, tris, none⟩, .identity⟩]⟩

/-- Arrays that no call has filled. -/
def blank (_ : Nat) : Vertex := ⟨⟨0, 0, 0⟩, 0, 0, false⟩

theorem still_indexed (nearZ : Q16) {verts : List Vec3Q16} {tris : List Face}
    (h : ∀ t ∈ tris, t.a.toNat < verts.length ∧ t.b.toNat < verts.length ∧
      t.c.toNat < verts.length) : (R3dScene.still nearZ verts tris).Indexed := by
  intro obj hobj
  rw [mem_singleton.mp hobj]
  exact h

/-- A triangle in front of the camera. -/
theorem render_fine_triangle :
    (R3dScene.still 0x8000 [⟨0, 0, 0x10000⟩, ⟨0, 0x20000, 0x10000⟩, ⟨0x20000, 0, 0x10000⟩]
      [⟨0, 1, 2⟩]).Modest 3 2 :=
  (render_fine_iff (still_indexed _ (by decide)) 3 2 blank).mp (by decide +kernel)

theorem accepts_of_fine {s : R3dScene} (hidx : s.Indexed) {obj : R3dObject} (hobjs : s.objs = [obj])
    (h : ∀ u ∈ s.renderTouches 240 200 blank, u.Fine 48000) : Accepts s 240 200 [] obj :=
  (gatherTouches_iff hidx blank 48000).mp (fun u hu =>
    h u (mem_append_left _ (mem_append_right _ hu))) [] obj [] hobjs

/-- A face with a vertex beyond the cap, a vertex at depth zero before a near plane at zero, and a
triangle close to the camera whose area does not fit. -/
theorem render_broken :
    ((R3dScene.still 0x8000 (List.replicate 4097 ⟨0, 0, 0x10000⟩) [⟨4096, 0, 1⟩]).Indexed ∧
      ¬ ∀ u ∈ (R3dScene.still 0x8000 (List.replicate 4097 ⟨0, 0, 0x10000⟩)
        [⟨4096, 0, 1⟩]).renderTouches 240 200 blank, u.Fine 48000) ∧
    ((R3dScene.still 0 [⟨0, 0, 0⟩] []).Indexed ∧
      ¬ ∀ u ∈ (R3dScene.still 0 [⟨0, 0, 0⟩] []).renderTouches 240 200 blank, u.Fine 48000) ∧
    ((R3dScene.still 100 [⟨-5898240, -5898240, 196⟩, ⟨-5898240, 5898240, 196⟩,
        ⟨5898240, -5898240, 196⟩] [⟨0, 1, 2⟩]).Indexed ∧
      ¬ ∀ u ∈ (R3dScene.still 100 [⟨-5898240, -5898240, 196⟩, ⟨-5898240, 5898240, 196⟩,
        ⟨5898240, -5898240, 196⟩] [⟨0, 1, 2⟩]).renderTouches 3 2 blank, u.Fine 6) := by
  have hcrowded : (R3dScene.still 0x8000 (List.replicate 4097 ⟨0, 0, 0x10000⟩)
      [⟨4096, 0, 1⟩]).Indexed := by
    refine still_indexed _ fun t ht => ?_
    rw [mem_singleton.mp ht, length_replicate]
    decide
  have hflat : (R3dScene.still 0 [⟨0, 0, 0⟩] []).Indexed :=
    still_indexed _ fun t ht => absurd ht not_mem_nil
  refine ⟨⟨hcrowded, fun h => ?_⟩, ⟨hflat, fun h => ?_⟩, still_indexed _ (by decide),
    by decide +kernel⟩
  · have ha := accepts_of_fine hcrowded rfl h
    exact absurd (ha.sight [] _ [] rfl (by decide)).1 (by decide)
  · have ha := accepts_of_fine hflat rfl h
    exact ha.depth 0 (by decide) (by decide) (by decide) (by decide)

end Render

end Microgarbage.Video
