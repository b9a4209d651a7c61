import Mathlib.Data.List.Nodup
import Mathlib.Data.Nat.Fib.Basic
import Mathlib.Logic.Function.Basic

/-!
# Binary trees linked through an index pool

A node is an index into a pool, where its children, its parent, a balance factor and a payload are
kept. A tree here carries the indices of its nodes, so that it says what the pool holds at each of
them. A path leads down to a hole, innermost frame first; its entries are what lies before the hole
in order and what lies after it.
-/

namespace Microgarbage.Lib

open List

open Function (update update_apply)

variable {α : Type*}

/-- The index that is no node. -/
def nilIdx : Nat := 0xFFFFFFFF

inductive LinkedTree (α : Type*) where
  | nil : LinkedTree α
  | node (i : Nat) (b : Int) (l : LinkedTree α) (v : α) (r : LinkedTree α) : LinkedTree α

namespace LinkedTree

def root : LinkedTree α → Nat
  | nil => nilIdx
  | node i _ _ _ _ => i

/-- Index and payload of each node, in order. -/
def entries : LinkedTree α → List (Nat × α)
  | nil => []
  | node i _ l v r => l.entries ++ (i, v) :: r.entries

def nodes (t : LinkedTree α) : List Nat :=
  t.entries.map Prod.fst

def elems (t : LinkedTree α) : List α :=
  t.entries.map Prod.snd

def height : LinkedTree α → Nat
  | nil => 0
  | node _ _ l _ r => max l.height r.height + 1

variable {i j : Nat} {b : Int} {l r t : LinkedTree α} {v : α}

@[simp] theorem root_nil : (nil : LinkedTree α).root = nilIdx := rfl

@[simp] theorem root_node : (node i b l v r).root = i := rfl

@[simp] theorem entries_nil : (nil : LinkedTree α).entries = [] := rfl

@[simp] theorem entries_node :
    (node i b l v r).entries = l.entries ++ (i, v) :: r.entries := rfl

@[simp] theorem nodes_nil : (nil : LinkedTree α).nodes = [] := rfl

@[simp] theorem nodes_node : (node i b l v r).nodes = l.nodes ++ i :: r.nodes := by
  simp [nodes]

@[simp] theorem height_nil : (nil : LinkedTree α).height = 0 := rfl

@[simp] theorem height_node :
    (node i b l v r).height = max l.height r.height + 1 := rfl

theorem root_mem (h : t.root ≠ nilIdx) : t.root ∈ t.nodes := by
  cases t with
  | nil => exact absurd rfl h
  | node i b l v r => simp

theorem eq_nil_of_root (h : nilIdx ∉ t.nodes) (ht : t.root = nilIdx) : t = nil := by
  cases t with
  | nil => rfl
  | node i b l v r =>
    rw [root_node] at ht
    simp [ht] at h

theorem length_nodes (t : LinkedTree α) : t.nodes.length = t.elems.length := by
  simp [nodes, elems]

theorem height_le (t : LinkedTree α) : t.height ≤ t.nodes.length := by
  induction t with
  | nil => exact Nat.le_refl 0
  | node i b l v r ihl ihr =>
    simp only [height_node, nodes_node, length_append, length_cons]
    omega

theorem node_of_height (h : 0 < t.height) : ∃ i b l v r, t = node i b l v r := by
  cases t with
  | nil => exact absurd h (Nat.lt_irrefl 0)
  | node i b l v r => exact ⟨i, b, l, v, r, rfl⟩

end LinkedTree

/-! ## Paths -/

/-- One step of a path: the node passed, and the subtree on the other side. -/
inductive Frame (α : Type*) where
  | left (i : Nat) (b : Int) (v : α) (r : LinkedTree α) : Frame α
  | right (i : Nat) (b : Int) (l : LinkedTree α) (v : α) : Frame α

abbrev Path (α : Type*) := List (Frame α)

/-- The index of the first entry. -/
def firstIdx : List (Nat × α) → Nat
  | [] => nilIdx
  | (i, _) :: _ => i

@[simp] theorem firstIdx_nil : firstIdx ([] : List (Nat × α)) = nilIdx := rfl

@[simp] theorem firstIdx_cons (p : Nat × α) (l : List (Nat × α)) : firstIdx (p :: l) = p.1 := rfl

namespace Path

open LinkedTree

/-- The tree with the hole filled. -/
def plug : Path α → LinkedTree α → LinkedTree α
  | [], t => t
  | .left i b v r :: k, t => plug k (.node i b t v r)
  | .right i b l v :: k, t => plug k (.node i b l v t)

/-- The node above the hole. -/
def top : Path α → Nat
  | [] => nilIdx
  | .left i _ _ _ :: _ => i
  | .right i _ _ _ :: _ => i

/-- The hole is a left child. -/
def fromLeft : Path α → Bool
  | .left _ _ _ _ :: _ => true
  | _ => false

def before : Path α → List (Nat × α)
  | [] => []
  | .left _ _ _ _ :: k => before k
  | .right i _ l v :: k => before k ++ l.entries ++ [(i, v)]

def after : Path α → List (Nat × α)
  | [] => []
  | .left i _ v r :: k => (i, v) :: r.entries ++ after k
  | .right _ _ _ _ :: k => after k

/-- The nodes of the path and of what hangs off it. -/
def nodes (k : Path α) : List Nat :=
  (before k).map Prod.fst ++ (after k).map Prod.fst

variable {i j : Nat} {b : Int} {l r t u : LinkedTree α} {v : α} {k : Path α}

@[simp] theorem top_nil : top ([] : Path α) = nilIdx := rfl

@[simp] theorem top_left : top (.left i b v r :: k) = i := rfl

@[simp] theorem top_right : top (.right i b l v :: k) = i := rfl

@[simp] theorem plug_nil (t : LinkedTree α) : plug [] t = t := rfl

@[simp] theorem plug_left (t : LinkedTree α) :
    plug (.left i b v r :: k) t = plug k (.node i b t v r) := rfl

@[simp] theorem plug_right (t : LinkedTree α) :
    plug (.right i b l v :: k) t = plug k (.node i b l v t) := rfl

@[simp] theorem before_nil : before ([] : Path α) = [] := rfl

@[simp] theorem before_left : before (.left i b v r :: k) = before k := rfl

@[simp] theorem before_right :
    before (.right i b l v :: k) = before k ++ l.entries ++ [(i, v)] := rfl

@[simp] theorem after_nil : after ([] : Path α) = [] := rfl

@[simp] theorem after_left : after (.left i b v r :: k) = (i, v) :: r.entries ++ after k := rfl

@[simp] theorem after_right : after (.right i b l v :: k) = after k := rfl

theorem entries_plug (k : Path α) (t : LinkedTree α) :
    (k.plug t).entries = before k ++ t.entries ++ after k := by
  induction k generalizing t with
  | nil => simp
  | cons f k ih =>
    cases f with
    | left i b v r => simp [ih]
    | right i b l v => simp [ih]

theorem nodes_plug (k : Path α) (t : LinkedTree α) :
    (k.plug t).nodes = (before k).map Prod.fst ++ t.nodes ++ (after k).map Prod.fst := by
  simp [LinkedTree.nodes, entries_plug]

theorem perm_nodes_plug (k : Path α) (t : LinkedTree α) :
    (k.plug t).nodes.Perm (t.nodes ++ k.nodes) := by
  rw [nodes_plug, nodes, ← append_assoc]
  exact List.Perm.append_right _ perm_append_comm

theorem perm_nodes_left : (nodes (.left i b v r :: k)).Perm (i :: (r.nodes ++ k.nodes)) := by
  simp only [nodes, before_left, after_left, map_append, map_cons, cons_append]
  refine perm_middle.trans (List.Perm.cons i ?_)
  rw [← append_assoc, ← append_assoc]
  exact List.Perm.append_right _ perm_append_comm

theorem perm_nodes_right : (nodes (.right i b l v :: k)).Perm (i :: (l.nodes ++ k.nodes)) := by
  simp only [nodes, before_right, after_right, map_append, map_cons, map_nil,
    append_assoc, singleton_append]
  rw [← append_assoc]
  refine perm_middle.trans (List.Perm.cons i ?_)
  rw [← append_assoc]
  exact List.Perm.append_right _ perm_append_comm

theorem mem_nodes_left : j ∈ nodes (.left i b v r :: k) ↔ j = i ∨ j ∈ r.nodes ∨ j ∈ k.nodes := by
  rw [perm_nodes_left.mem_iff, mem_cons, mem_append]

theorem mem_nodes_right : j ∈ nodes (.right i b l v :: k) ↔ j = i ∨ j ∈ l.nodes ∨ j ∈ k.nodes := by
  rw [perm_nodes_right.mem_iff, mem_cons, mem_append]

theorem top_ne_nil (hk : k ≠ []) (h : nilIdx ∉ k.nodes) : top k ≠ nilIdx := by
  cases k with
  | nil => exact absurd rfl hk
  | cons f k =>
    cases f with
    | left i b v r => exact fun e => h (mem_nodes_left.mpr (.inl e.symm))
    | right i b l v => exact fun e => h (mem_nodes_right.mpr (.inl e.symm))

theorem length_le (k : Path α) : k.length ≤ k.nodes.length := by
  induction k with
  | nil => exact Nat.zero_le _
  | cons f k ih =>
    cases f with
    | left i b v r =>
      rw [perm_nodes_left.length_eq, length_cons, length_cons, length_append]
      omega
    | right i b l v =>
      rw [perm_nodes_right.length_eq, length_cons, length_cons, length_append]
      omega

theorem height_add_length_le (k : Path α) (t : LinkedTree α) :
    t.height + k.length ≤ (k.plug t).nodes.length := by
  rw [(perm_nodes_plug k t).length_eq, length_append]
  exact Nat.add_le_add t.height_le k.length_le

theorem exists_focus (h : i ∈ t.nodes) : ∃ (k : Path α) (b : Int) (l : LinkedTree α) (v : α)
    (r : LinkedTree α), t = k.plug (.node i b l v r) := by
  suffices hs : ∀ k₀ : Path α, ∃ (k : Path α) (b : Int) (l : LinkedTree α) (v : α)
      (r : LinkedTree α), k₀.plug t = k.plug (.node i b l v r) from hs []
  induction t with
  | nil => simp at h
  | node j b l v r ihl ihr =>
    intro k₀
    rw [nodes_node, mem_append, mem_cons] at h
    rcases h with h | rfl | h
    · exact ihl h (.left j b v r :: k₀)
    · exact ⟨k₀, b, l, v, r, rfl⟩
    · exact ihr h (.right j b l v :: k₀)

end Path

/-! ## Balance -/

/-- Each stored factor is the height of the right side less that of the left, and within one. -/
def LinkedTree.Balanced : LinkedTree α → Prop
  | .nil => True
  | .node _ b l _ r =>
    (b = (r.height : Int) - l.height ∧ -1 ≤ b ∧ b ≤ 1) ∧ l.Balanced ∧ r.Balanced

/-- The same along a path, for a filling of height `h`. -/
def Path.Balanced : Path α → Nat → Prop
  | [], _ => True
  | .left _ b _ r :: k, h =>
    (b = (r.height : Int) - h ∧ -1 ≤ b ∧ b ≤ 1) ∧ r.Balanced ∧ Balanced k (max h r.height + 1)
  | .right _ b l _ :: k, h =>
    (b = (h : Int) - l.height ∧ -1 ≤ b ∧ b ≤ 1) ∧ l.Balanced ∧ Balanced k (max l.height h + 1)

theorem Path.balanced_plug {k : Path α} {t : LinkedTree α} :
    (k.plug t).Balanced ↔ k.Balanced t.height ∧ t.Balanced := by
  induction k generalizing t with
  | nil => simp [plug, Balanced]
  | cons f k ih =>
    cases f with
    | left i b v r | right i b l v =>
      simp only [plug, ih, Balanced, LinkedTree.Balanced, LinkedTree.height_node]
      tauto

namespace LinkedTree

variable {x y z : Nat} {bx cy cz yb : Int} {a b c d : LinkedTree α} {vx vy vz : α}

/-- A balanced tree of some height has no fewer nodes than the sparsest one. -/
theorem Balanced.fib_le {t : LinkedTree α} (h : t.Balanced) :
    Nat.fib (t.height + 2) ≤ t.nodes.length + 1 := by
  have hsucc (n : Nat) : Nat.fib (n + 1 + 2) = Nat.fib (n + 1) + Nat.fib (n + 2) := Nat.fib_add_two
  induction t with
  | nil => exact Nat.le_refl _
  | node i b l v r ihl ihr =>
    obtain ⟨⟨hb, hlo, hhi⟩, hl, hr⟩ := h
    have hl := ihl hl
    have hr := ihr hr
    rw [height_node, nodes_node, length_append, length_cons, hsucc]
    rcases Nat.le_total l.height r.height with hle | hle
    · have hmono : Nat.fib (r.height + 1) ≤ Nat.fib (l.height + 2) := Nat.fib_mono (by omega)
      rw [Nat.max_eq_right hle]
      omega
    · have hmono : Nat.fib (l.height + 1) ≤ Nat.fib (r.height + 2) := Nat.fib_mono (by omega)
      rw [Nat.max_eq_left hle]
      omega

theorem Balanced.left_node (h : (node x bx a vx b).Balanced) (hx : bx < 0) :
    ∃ y yb l v r, a = node y yb l v r := by
  obtain ⟨⟨hbx, -, -⟩, -, -⟩ := h
  cases a with
  | nil =>
    rw [height_nil] at hbx
    omega
  | node y yb l v r => exact ⟨y, yb, l, v, r, rfl⟩

theorem Balanced.right_node (h : (node x bx a vx b).Balanced) (hx : 0 < bx) :
    ∃ y yb l v r, b = node y yb l v r := by
  obtain ⟨⟨hbx, -, -⟩, -, -⟩ := h
  cases b with
  | nil =>
    rw [height_nil] at hbx
    omega
  | node y yb l v r => exact ⟨y, yb, l, v, r, rfl⟩

/-- A single rotation where the right side is two higher, and leans right or is even. -/
theorem Balanced.single_left (x : Nat) (vx : α) (ha : a.Balanced) (h : (node y cy b vy d).Balanced) (hcy : 0 ≤ cy)
    (hh : (node y cy b vy d).height = a.height + 2) :
    (node y (if cy = 0 then -1 else 0) (node x (if cy = 0 then 1 else 0) a vx b) vy d).Balanced ∧
      max (max a.height b.height + 1) d.height + 1 = a.height + if cy = 0 then 3 else 2 := by
  obtain ⟨⟨hbal, hlo, hhi⟩, hb, hd⟩ := h
  rw [height_node] at hh
  simp only [Balanced, height_node]
  by_cases h0 : cy = 0
  · simp only [h0, if_true]
    exact ⟨⟨by omega, ⟨by omega, ha, hb⟩, hd⟩, by omega⟩
  · simp only [if_neg h0]
    exact ⟨⟨by omega, ⟨by omega, ha, hb⟩, hd⟩, by omega⟩

theorem Balanced.single_right (x : Nat) (vx : α) (hd : d.Balanced) (h : (node y cy a vy b).Balanced) (hcy : cy ≤ 0)
    (hh : (node y cy a vy b).height = d.height + 2) :
    (node y (if cy = 0 then 1 else 0) a vy (node x (if cy = 0 then -1 else 0) b vx d)).Balanced ∧
      max a.height (max b.height d.height + 1) + 1 = d.height + if cy = 0 then 3 else 2 := by
  obtain ⟨⟨hbal, hlo, hhi⟩, ha, hb⟩ := h
  rw [height_node] at hh
  simp only [Balanced, height_node]
  by_cases h0 : cy = 0
  · simp only [h0, if_true]
    exact ⟨⟨by omega, ha, ⟨by omega, hb, hd⟩⟩, by omega⟩
  · simp only [if_neg h0]
    exact ⟨⟨by omega, ha, ⟨by omega, hb, hd⟩⟩, by omega⟩

/-- A double rotation where the right side is two higher and leans left. -/
theorem Balanced.double_left (x : Nat) (vx : α) (ha : a.Balanced)
    (h : (node z cz (node y yb b vy c) vz d).Balanced) (hcz : cz < 0)
    (hh : (node z cz (node y yb b vy c) vz d).height = a.height + 2) :
    (node y 0 (node x (if 0 < yb then -1 else 0) a vx b) vy
        (node z (if yb < 0 then 1 else 0) c vz d)).Balanced ∧
      max (max a.height b.height + 1) (max c.height d.height + 1) + 1 = a.height + 2 := by
  obtain ⟨⟨hbal, hlo, hhi⟩, ⟨⟨hyb, hylo, hyhi⟩, hb, hc⟩, hd⟩ := h
  simp only [height_node] at hh hbal
  simp only [Balanced, height_node]
  exact ⟨⟨by omega, ⟨by split <;> omega, ha, hb⟩, ⟨by split <;> omega, hc, hd⟩⟩, by omega⟩

theorem Balanced.double_right (x : Nat) (vx : α) (hd : d.Balanced)
    (h : (node z cz a vz (node y yb b vy c)).Balanced) (hcz : 0 < cz)
    (hh : (node z cz a vz (node y yb b vy c)).height = d.height + 2) :
    (node y 0 (node z (if 0 < yb then -1 else 0) a vz b) vy
        (node x (if yb < 0 then 1 else 0) c vx d)).Balanced ∧
      max (max a.height b.height + 1) (max c.height d.height + 1) + 1 = d.height + 2 := by
  obtain ⟨⟨hbal, hlo, hhi⟩, ha, ⟨⟨hyb, hylo, hyhi⟩, hb, hc⟩⟩ := h
  simp only [height_node] at hh hbal
  simp only [Balanced, height_node]
  exact ⟨⟨by omega, ⟨by split <;> omega, ha, hb⟩, ⟨by split <;> omega, hc, hd⟩⟩, by omega⟩

end LinkedTree

/-! ## Trees in a pool -/

/-- The fields of the nodes of a pool. -/
structure Links (α : Type*) where
  left : Nat → Nat
  right : Nat → Nat
  parent : Nat → Nat
  bal : Nat → Int
  payload : Nat → α

namespace Links

open LinkedTree Lib.Path

@[simps -fullyApplied right parent bal payload] def setLeft (m : Links α) (i j : Nat) : Links α :=
  { m with left := update m.left i j }

@[simps -fullyApplied left parent bal payload] def setRight (m : Links α) (i j : Nat) : Links α :=
  { m with right := update m.right i j }

@[simps -fullyApplied left right bal payload] def setParent (m : Links α) (i j : Nat) : Links α :=
  { m with parent := update m.parent i j }

@[simps -fullyApplied left right parent payload] def setBal (m : Links α) (i : Nat) (b : Int) : Links α :=
  { m with bal := update m.bal i b }

@[simps -fullyApplied left right parent bal] def setPayload (m : Links α) (i : Nat) (v : α) : Links α :=
  { m with payload := update m.payload i v }

section Writes

variable {m : Links α} {i j q : Nat} {c : Int} {w : α}

@[simp] theorem setLeft_left : (m.setLeft i q).left j = if j = i then q else m.left j :=
  update_apply ..

@[simp] theorem setRight_right : (m.setRight i q).right j = if j = i then q else m.right j :=
  update_apply ..

@[simp] theorem setParent_parent : (m.setParent i q).parent j = if j = i then q else m.parent j :=
  update_apply ..

@[simp] theorem setBal_bal : (m.setBal i c).bal j = if j = i then c else m.bal j :=
  update_apply ..

@[simp] theorem setPayload_payload : (m.setPayload i w).payload j = if j = i then w else m.payload j :=
  update_apply ..

end Writes

/-- A node has all its fields as before. -/
structure SameAt (m m' : Links α) (i : Nat) : Prop where
  left : m'.left i = m.left i
  right : m'.right i = m.right i
  parent : m'.parent i = m.parent i
  bal : m'.bal i = m.bal i
  payload : m'.payload i = m.payload i

/-- The pool holds the tree, whose root has the parent `p`. -/
def Holds (m : Links α) : Nat → LinkedTree α → Prop
  | _, .nil => True
  | p, .node i b l v r =>
    (m.left i = l.root ∧ m.right i = r.root ∧ m.parent i = p ∧ m.bal i = b ∧ m.payload i = v) ∧
      m.Holds i l ∧ m.Holds i r

/-- The pool holds the path, from `root` down to a hole where the index `hole` is stored. -/
def OnPath (m : Links α) (root : Nat) : Path α → Nat → Prop
  | [], hole => root = hole
  | .left i b v r :: k, hole =>
    (m.left i = hole ∧ m.right i = r.root ∧ m.parent i = top k ∧ m.bal i = b ∧
      m.payload i = v) ∧ m.Holds i r ∧ m.OnPath root k i
  | .right i b l v :: k, hole =>
    (m.left i = l.root ∧ m.right i = hole ∧ m.parent i = top k ∧ m.bal i = b ∧
      m.payload i = v) ∧ m.Holds i l ∧ m.OnPath root k i

variable {m m' m'' : Links α} {i j p q hole root root' : Nat} {b : Int} {l r t u : LinkedTree α} {v : α}
  {k : Path α}

theorem SameAt.refl (m : Links α) (i : Nat) : m.SameAt m i := ⟨rfl, rfl, rfl, rfl, rfl⟩

theorem SameAt.trans (h : m.SameAt m' i) (h' : m'.SameAt m'' i) : m.SameAt m'' i :=
  ⟨h'.left.trans h.left, h'.right.trans h.right, h'.parent.trans h.parent, h'.bal.trans h.bal,
    h'.payload.trans h.payload⟩

theorem sameAt_setLeft (h : j ≠ i) : m.SameAt (m.setLeft i q) j :=
  ⟨setLeft_left.trans (if_neg h), rfl, rfl, rfl, rfl⟩

theorem sameAt_setRight (h : j ≠ i) : m.SameAt (m.setRight i q) j :=
  ⟨rfl, setRight_right.trans (if_neg h), rfl, rfl, rfl⟩

theorem sameAt_setParent (h : j ≠ i) : m.SameAt (m.setParent i q) j :=
  ⟨rfl, rfl, setParent_parent.trans (if_neg h), rfl, rfl⟩

theorem sameAt_setPayload (h : j ≠ i) : m.SameAt (m.setPayload i v) j :=
  ⟨rfl, rfl, rfl, rfl, setPayload_payload.trans (if_neg h)⟩

theorem sameAt_setBal {c : Int} (h : j ≠ i) : m.SameAt (m.setBal i c) j :=
  ⟨rfl, rfl, rfl, setBal_bal.trans (if_neg h), rfl⟩

theorem Holds.congr (h : m.Holds p t) (hs : ∀ i ∈ t.nodes, m.SameAt m' i) : m'.Holds p t := by
  induction t generalizing p with
  | nil => exact trivial
  | node i b l v r ihl ihr =>
    obtain ⟨⟨hl, hr, hp, hb, hv⟩, hL, hR⟩ := h
    have hi := hs i (by simp)
    refine ⟨⟨hi.left.trans hl, hi.right.trans hr, hi.parent.trans hp, hi.bal.trans hb,
      hi.payload.trans hv⟩, ihl hL fun j hj => hs j ?_, ihr hR fun j hj => hs j ?_⟩
    · simp [hj]
    · simp [hj]

theorem Holds.parent_root (h : m.Holds p t) (ht : t.root ≠ nilIdx) : m.parent t.root = p := by
  cases t with
  | nil => exact absurd rfl ht
  | node i b l v r => exact h.1.2.2.1

/-- A tree moves under another parent when only its root's parent is rewritten. -/
theorem Holds.reparent (h : m.Holds q t) (hn : t.nodes.Nodup)
    (hp : t.root ∈ t.nodes → m'.parent t.root = p)
    (hs : ∀ i ∈ t.nodes, i ≠ t.root → m.SameAt m' i)
    (hroot : t.root ∈ t.nodes → m'.left t.root = m.left t.root ∧
      m'.right t.root = m.right t.root ∧ m'.bal t.root = m.bal t.root ∧
      m'.payload t.root = m.payload t.root) : m'.Holds p t := by
  cases t with
  | nil => exact trivial
  | node i b l v r =>
    obtain ⟨⟨hl, hr, -, hb, hv⟩, hL, hR⟩ := h
    obtain ⟨el, er, eb, ev⟩ := hroot (by simp)
    simp only [root_node, nodes_node, nodup_append, nodup_cons, mem_append,
      mem_cons] at *
    refine ⟨⟨el.trans hl, er.trans hr, hp (by simp), eb.trans hb, ev.trans hv⟩,
      hL.congr fun j hj => hs j (.inl hj) ?_, hR.congr fun j hj => hs j (.inr (.inr hj)) ?_⟩
    · exact hn.2.2 j hj i (.inl rfl)
    · rintro rfl
      exact hn.2.1.1 hj

theorem OnPath.congr (h : m.OnPath root k hole) (hs : ∀ i ∈ k.nodes, m.SameAt m' i) :
    m'.OnPath root k hole := by
  induction k generalizing hole with
  | nil => exact h
  | cons f k ih =>
    cases f with
    | left i b v r =>
      simp only [mem_nodes_left] at hs
      obtain ⟨⟨hl, hr, hp, hb, hv⟩, hR, hk⟩ := h
      have hi := hs i (.inl rfl)
      exact ⟨⟨hi.left.trans hl, hi.right.trans hr, hi.parent.trans hp, hi.bal.trans hb,
        hi.payload.trans hv⟩, hR.congr fun j hj => hs j (.inr (.inl hj)),
        ih hk fun j hj => hs j (.inr (.inr hj))⟩
    | right i b l v =>
      simp only [mem_nodes_right] at hs
      obtain ⟨⟨hl, hr, hp, hb, hv⟩, hL, hk⟩ := h
      have hi := hs i (.inl rfl)
      exact ⟨⟨hi.left.trans hl, hi.right.trans hr, hi.parent.trans hp, hi.bal.trans hb,
        hi.payload.trans hv⟩, hL.congr fun j hj => hs j (.inr (.inl hj)),
        ih hk fun j hj => hs j (.inr (.inr hj))⟩

theorem OnPath.set_left (h : m.OnPath root (.left i b v r :: k) hole)
    (hn : (nodes (.left i b v r :: k)).Nodup) :
    (m.setLeft i q).OnPath root (.left i b v r :: k) q := by
  obtain ⟨⟨-, hr, hp, hb, hv⟩, hR, hk⟩ := h
  obtain ⟨hi, -⟩ := nodup_cons.mp (perm_nodes_left.nodup_iff.mp hn)
  rw [mem_append, not_or] at hi
  exact ⟨⟨by simp, hr, hp, hb, hv⟩, hR.congr fun j hj => sameAt_setLeft fun e => hi.1 (e ▸ hj),
    hk.congr fun j hj => sameAt_setLeft fun e => hi.2 (e ▸ hj)⟩

theorem OnPath.set_right (h : m.OnPath root (.right i b l v :: k) hole)
    (hn : (nodes (.right i b l v :: k)).Nodup) :
    (m.setRight i q).OnPath root (.right i b l v :: k) q := by
  obtain ⟨⟨hl, -, hp, hb, hv⟩, hL, hk⟩ := h
  obtain ⟨hi, -⟩ := nodup_cons.mp (perm_nodes_right.nodup_iff.mp hn)
  rw [mem_append, not_or] at hi
  exact ⟨⟨hl, by simp, hp, hb, hv⟩, hL.congr fun j hj => sameAt_setRight fun e => hi.1 (e ▸ hj),
    hk.congr fun j hj => sameAt_setRight fun e => hi.2 (e ▸ hj)⟩

/-- The pool holds a filled path where it holds the path and the filling. -/
theorem holds_plug : (root = (k.plug t).root ∧ m.Holds nilIdx (k.plug t)) ↔
    m.OnPath root k t.root ∧ m.Holds (top k) t := by
  induction k generalizing t with
  | nil => exact Iff.rfl
  | cons f k ih =>
    cases f with
    | left i b v r | right i b l v =>
      simp only [plug, ih, OnPath, Holds, top, root_node]
      tauto

/-- The tree hangs from `root`, at distinct nodes. -/
structure Rooted (m : Links α) (root : Nat) (t : LinkedTree α) : Prop where
  root_eq : root = t.root
  holds : m.Holds nilIdx t
  nodup : t.nodes.Nodup
  nil_notin : nilIdx ∉ t.nodes

namespace Rooted

theorem empty : m.Rooted nilIdx (.nil : LinkedTree α) :=
  ⟨rfl, trivial, nodup_nil, not_mem_nil⟩

theorem congr (h : m.Rooted root t) (hs : ∀ i ∈ t.nodes, m.SameAt m' i) : m'.Rooted root t :=
  { h with holds := h.holds.congr hs }

theorem onPath (h : m.Rooted root (k.plug t)) : m.OnPath root k t.root :=
  (holds_plug.mp ⟨h.root_eq, h.holds⟩).1

theorem holds_focus (h : m.Rooted root (k.plug t)) : m.Holds (top k) t :=
  (holds_plug.mp ⟨h.root_eq, h.holds⟩).2

theorem nodup_focus (h : m.Rooted root (k.plug t)) : (t.nodes ++ k.nodes).Nodup :=
  (perm_nodes_plug k t).nodup_iff.mp h.nodup

theorem nil_notin_focus (h : m.Rooted root (k.plug t)) : nilIdx ∉ t.nodes ++ k.nodes :=
  fun hm => h.nil_notin ((perm_nodes_plug k t).mem_iff.mpr hm)

theorem root_ne_sibling (h : m.Rooted root (k.plug (.node i b t v u))) (ht : t.root ∈ t.nodes) :
    t.root ≠ u.root := fun e => by
  have hnd := h.nodup_focus
  simp only [nodes_node, append_assoc, nodup_append, cons_append] at hnd
  have hu0 : u.root ≠ nilIdx := fun e0 => h.nil_notin_focus (by simp [← e0, ← e, ht])
  exact hnd.2.2 t.root ht u.root (by simp [root_mem hu0]) e

theorem root_ne_sibling' (h : m.Rooted root (k.plug (.node i b u v t))) (ht : t.root ∈ t.nodes) :
    t.root ≠ u.root := fun e => by
  have hnd := h.nodup_focus
  simp only [nodes_node, append_assoc, nodup_append, cons_append] at hnd
  have hu0 : u.root ≠ nilIdx := fun e0 => h.nil_notin_focus (by simp [← e0, ← e, ht])
  exact hnd.2.2 u.root (root_mem hu0) t.root (by simp [ht]) e.symm

theorem of_focus (hk : m.OnPath root k t.root) (ht : m.Holds (top k) t)
    (hn : (t.nodes ++ k.nodes).Nodup) (h0 : nilIdx ∉ t.nodes ++ k.nodes) :
    m.Rooted root (k.plug t) := by
  obtain ⟨hroot, hholds⟩ := holds_plug.mpr ⟨hk, ht⟩
  exact ⟨hroot, hholds, (perm_nodes_plug k t).nodup_iff.mpr hn,
    fun hm => h0 ((perm_nodes_plug k t).mem_iff.mp hm)⟩

theorem refocus (h : m.Rooted root (k.plug t)) (he : u.nodes.Perm t.nodes)
    (hk : m'.OnPath root' k u.root) (hu : m'.Holds (top k) u) : m'.Rooted root' (k.plug u) :=
  of_focus hk hu ((he.append_right _).nodup_iff.mpr h.nodup_focus)
    fun hm => h.nil_notin_focus ((he.append_right _).mem_iff.mp hm)

theorem child_parent (h : m.Rooted root t) (hi : i ∈ t.nodes) (hj : j = m.left i ∨ j = m.right i)
    (hj0 : j ≠ nilIdx) : j ∈ t.nodes ∧ m.parent j = i := by
  obtain ⟨k, b, l, v, r, rfl⟩ := exists_focus hi
  obtain ⟨⟨hl, hr, -⟩, hL, hR⟩ := h.holds_focus
  have hmem : ∀ u : LinkedTree α, u.nodes ⊆ (node i b l v r).nodes → u.root ≠ nilIdx →
      u.root ∈ (k.plug (node i b l v r)).nodes := fun u hu hu0 =>
    (perm_nodes_plug _ _).mem_iff.mpr (mem_append_left _ (hu (root_mem hu0)))
  rcases hj with rfl | rfl
  · rw [hl] at hj0 ⊢
    refine ⟨hmem l (fun _ hm => by simp [hm]) hj0, hL.parent_root hj0⟩
  · rw [hr] at hj0 ⊢
    refine ⟨hmem r (fun _ hm => by simp [hm]) hj0, hR.parent_root hj0⟩

theorem set_focus {b' : Int} {v' : α} (h : m.Rooted root (k.plug (.node i b l v r)))
    (hs : ∀ j, j ≠ i → m.SameAt m' j) (hl : m'.left i = m.left i) (hr : m'.right i = m.right i)
    (hp : m'.parent i = m.parent i) (hb : m'.bal i = b') (hv : m'.payload i = v') :
    m'.Rooted root (k.plug (.node i b' l v' r)) := by
  have hnd := h.nodup_focus
  simp only [nodes_node, append_assoc, cons_append] at hnd
  obtain ⟨hi, -⟩ := nodup_cons.mp (perm_middle.nodup_iff.mp hnd)
  simp only [mem_append, not_or] at hi
  obtain ⟨⟨hl₀, hr₀, hp₀, -, -⟩, hL, hR⟩ := h.holds_focus
  exact h.refocus (by simp) (h.onPath.congr fun j hj => hs j fun e => hi.2.2 (e ▸ hj))
    ⟨⟨hl.trans hl₀, hr.trans hr₀, hp.trans hp₀, hb, hv⟩,
      hL.congr fun j hj => hs j fun e => hi.1 (e ▸ hj),
      hR.congr fun j hj => hs j fun e => hi.2.1 (e ▸ hj)⟩

end Rooted

end Links

end Microgarbage.Lib
