import Microgarbage.Lib.LoopTouches
import Microgarbage.Math.Vec3

/-!
# Scenes

The first half of the polygon renderer (`r3d_render_x`): every object's vertices are transformed and
projected into the scratch arrays, its faces are gathered. Both arrays are capped, each for itself.
-/

namespace Microgarbage.Math

/-! ## Vectors and transforms -/

namespace Vec3Q16

/-- `vec3_q16_add` -/
def add (a b : Vec3Q16) : Vec3Q16 := ⟨a.x + b.x, a.y + b.y, a.z + b.z⟩

/-- `vec3_q16_sub` -/
def sub (a b : Vec3Q16) : Vec3Q16 := ⟨a.x - b.x, a.y - b.y, a.z - b.z⟩

/-- `vec3_q16_dot` -/
def dot (a b : Vec3Q16) : Q16 :=
  ((a.x.signExtend 64 * b.x.signExtend 64 + a.y.signExtend 64 * b.y.signExtend 64 +
    a.z.signExtend 64 * b.z.signExtend 64).sshiftRight q16FracBits).setWidth 32

/-- `vec3_q16_cross` -/
def cross (a b : Vec3Q16) : Vec3Q16 :=
  ⟨q16Mul a.y b.z - q16Mul a.z b.y, q16Mul a.z b.x - q16Mul a.x b.z, q16Mul a.x b.y - q16Mul a.y b.x⟩

end Vec3Q16

/-- `q16_div` -/
def q16Div (a b : Q16) : Q16 :=
  ((a.signExtend 64 <<< q16FracBits).sdiv (b.signExtend 64)).setWidth 32

/-- `q16_from_int` -/
def q16FromInt (n : Int) : Q16 := BitVec.ofInt 32 n <<< q16FracBits

/-- `q16_to_int` -/
def q16ToInt (a : Q16) : Int := (a.sshiftRight q16FracBits).toInt

/-- `mat3_q16`: the entries `0` to `8`, row by row. -/
structure Mat3Q16 where
  m : Nat → Q16

namespace Mat3Q16

/-- `mat3_q16_mul_vec3` -/
def mulVec3 (M : Mat3Q16) (v : Vec3Q16) : Vec3Q16 :=
  ⟨q16Mul (M.m 0) v.x + q16Mul (M.m 1) v.y + q16Mul (M.m 2) v.z,
    q16Mul (M.m 3) v.x + q16Mul (M.m 4) v.y + q16Mul (M.m 5) v.z,
    q16Mul (M.m 6) v.x + q16Mul (M.m 7) v.y + q16Mul (M.m 8) v.z⟩

/-- `mat3_q16_mul` -/
def mul (A B : Mat3Q16) : Mat3Q16 where
  m i :=
    let row := i / 3
    let col := i % 3
    q16Mul (A.m (row * 3 + 0)) (B.m (0 * 3 + col)) + q16Mul (A.m (row * 3 + 1)) (B.m (1 * 3 + col)) +
      q16Mul (A.m (row * 3 + 2)) (B.m (2 * 3 + col))

/-- `mat3_q16_identity` -/
def identity : Mat3Q16 := ⟨fun i => if i % 4 = 0 then 0x10000 else 0⟩

end Mat3Q16

/-- `affine3_q16` -/
structure Affine3Q16 where
  m : Mat3Q16
  t : Vec3Q16

namespace Affine3Q16

/-- `affine3_q16_apply` -/
def apply (a : Affine3Q16) (v : Vec3Q16) : Vec3Q16 := (a.m.mulVec3 v).add a.t

/-- `affine3_q16_compose` -/
def compose (A B : Affine3Q16) : Affine3Q16 := ⟨A.m.mul B.m, (A.m.mulVec3 B.t).add A.t⟩

/-- `affine3_q16_identity` -/
def identity : Affine3Q16 := ⟨.identity, ⟨0, 0, 0⟩⟩

end Affine3Q16

end Microgarbage.Math

namespace Microgarbage.Video

open Math

/-! ## The scene -/

abbrev r3dMaxVerts : Nat := 4096

abbrev r3dMaxTris : Nat := 4096

/-- The three indices of a face. -/
structure Face where
  a : BitVec 16
  b : BitVec 16
  c : BitVec 16
  deriving DecidableEq

/-- `R3dMesh` -/
structure R3dMesh where
  verts : List Vec3Q16
  tris : List Face
  triBase : Option (List (BitVec 8))

/-- `R3dObject` -/
structure R3dObject where
  mesh : R3dMesh
  xform : Affine3Q16

/-- `R3dScene` -/
structure R3dScene where
  view : Affine3Q16
  focal : Q16
  nearZ : Q16
  light : Vec3Q16
  ambient : Q16
  diffuse : Q16
  base : Int
  ramp : Int
  objs : List R3dObject

/-- The entry of a vertex in `g_vv`, `g_sx`, `g_sy` and `g_behind`. -/
structure Vertex where
  v : Vec3Q16
  sx : Int
  sy : Int
  behind : Bool
  deriving DecidableEq

/-- What `R3dTri` has beside its vertices. -/
structure Shade where
  color : BitVec 8
  base : BitVec 8
  pos : BitVec 16
  deriving DecidableEq

/-- `R3dTri`; the object is not kept by the code. -/
structure R3dTri where
  a : Nat
  b : Nat
  c : Nat
  shade : Shade
  object : Nat
  deriving DecidableEq

/-- `clampi` -/
def clampi (v lo hi : Int) : Int := if v < lo then lo else if hi < v then hi else v

namespace R3dScene

variable (s : R3dScene)

/-- A vertex in the view and on the screen. -/
def vertex (fbw fbh : Int) (mv : Affine3Q16) (p : Vec3Q16) : Vertex :=
  let cx := (q16FromInt fbw).sshiftRight 1
  let cy := (q16FromInt fbh).sshiftRight 1
  let v := mv.apply p
  if v.z.slt s.nearZ then ⟨v, 0, 0, true⟩
  else
    ⟨v, q16ToInt (cx + q16Mul (q16Div v.x v.z) s.focal),
      q16ToInt (cy - q16Mul (q16Div v.y v.z) s.focal), false⟩

/-- The normal of a face, before it is normalised. -/
def faceCross (a b c : Vertex) : Vec3Q16 := (b.v.sub a.v).cross (c.v.sub a.v)

/-- The palette base of face `ti`. -/
def faceBase (m : R3dMesh) (ti : Nat) : Int :=
  m.triBase.elim s.base fun bases => (bases.getD ti 0).toNat

/-- The shade of a face with its palette base, unless it shows its back. -/
def face (base : Int) (a b c : Vertex) : Option Shade :=
  let n := (faceCross a b c).normalize
  let ctr := (a.v.add b.v).add c.v
  if (0 : Q16).sle (n.dot ctr) then none
  else
    let ndl := n.dot s.light
    let ndl := if ndl.slt 0 then 0 else ndl
    let bright := s.ambient + q16Mul s.diffuse ndl
    let shade := clampi (q16ToInt (q16Mul bright (q16FromInt (s.ramp - 1)) + 0x8000)) 0 (s.ramp - 1)
    let maxpos := (s.ramp - 1) * 2 ^ 8
    let pos := clampi (Int.bmod (bright.toInt * (s.ramp - 1) / 2 ^ 8) (2 ^ 32)) 0 maxpos
    some ⟨BitVec.ofInt 8 (base + shade), BitVec.ofInt 8 base, BitVec.ofInt 16 pos⟩

end R3dScene

/-! ## The scratch arrays -/

/-- The scratch arrays while a scene is gathered: `nv` vertices, and the triangles. Which object an
entry was filled for in this call is not kept by the code. -/
structure Scratch where
  vert : Nat → Vertex
  filled : Nat → Option Nat
  nv : Nat
  tris : List R3dTri

namespace Scratch

/-- One turn of the vertex loop of object `o`. -/
def fill (s : R3dScene) (fbw fbh : Int) (o : Nat) (mv : Affine3Q16) (st : Scratch) (p : Vec3Q16) :
    Scratch :=
  if st.nv < r3dMaxVerts then
    { st with
      vert := Function.update st.vert st.nv (s.vertex fbw fbh mv p)
      filled := Function.update st.filled st.nv (some o)
      nv := st.nv + 1 }
  else st

/-- One turn of the face loop of object `o`, whose vertices start at `baseV`. -/
def look (s : R3dScene) (o : Nat) (m : R3dMesh) (baseV : Nat) (st : Scratch) (t : Face × Nat) :
    Scratch :=
  if st.tris.length < r3dMaxTris then
    let a := baseV + t.1.a.toNat
    let b := baseV + t.1.b.toNat
    let c := baseV + t.1.c.toNat
    if (st.vert a).behind || (st.vert b).behind || (st.vert c).behind then st
    else
      match s.face (s.faceBase m t.2) (st.vert a) (st.vert b) (st.vert c) with
      | none => st
      | some shade => { st with tris := st.tris ++ [⟨a, b, c, shade, o⟩] }
  else st

/-- One turn of the object loop. -/
def object (s : R3dScene) (fbw fbh : Int) (st : Scratch) (obj : R3dObject × Nat) : Scratch :=
  let mv := s.view.compose obj.1.xform
  let filled := obj.1.mesh.verts.foldl (fill s fbw fbh obj.2 mv) st
  obj.1.mesh.tris.zipIdx.foldl (look s obj.2 obj.1.mesh st.nv) filled

end Scratch

/-- The scratch arrays when the scene is gathered, from what they held before the call. -/
def R3dScene.gather (s : R3dScene) (fbw fbh : Int) (before : Nat → Vertex) : Scratch :=
  s.objs.zipIdx.foldl (Scratch.object s fbw fbh) ⟨before, fun _ => none, 0, []⟩

end Microgarbage.Video
