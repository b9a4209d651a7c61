import Microgarbage.Containers.AvlCore

/-!
# Rotations on the links

What each of the pointer functions does to the tree that the pool holds: `replace_child` moves a
path to another hole, a rotation regroups the subtree in focus. Nothing outside the tree is written.
-/

namespace Microgarbage.Containers

open Lib LinkedTree Path Links

variable {α : Type*} {m m' : Links α} {root root' x y z : Nat} {k : Path α} {t : LinkedTree α}

section LinkParent

variable {i j p : Nat}

@[simp] theorem linkParent_left : (linkParent m i p).left = m.left := by
  unfold linkParent
  split <;> rfl

@[simp] theorem linkParent_right : (linkParent m i p).right = m.right := by
  unfold linkParent
  split <;> rfl

@[simp] theorem linkParent_bal : (linkParent m i p).bal = m.bal := by
  unfold linkParent
  split <;> rfl

@[simp] theorem linkParent_payload : (linkParent m i p).payload = m.payload := by
  unfold linkParent
  split <;> rfl

theorem linkParent_parent : (linkParent m i p).parent j =
    if j = i ∧ i ≠ nilIdx then p else m.parent j := by
  unfold linkParent
  by_cases hi : i = nilIdx
  · simp [hi]
  · simp [hi]

theorem sameAt_linkParent (h : j ≠ i) : m.SameAt (linkParent m i p) j :=
  ⟨by simp, by simp, by simp [linkParent_parent, h], by simp, by simp⟩

end LinkParent

/-! ## Replacing a child -/

/-- What `replace_child` writes: the hole of the path, and the parent of what is put there. -/
structure Replaced (m : Links α) (k : Path α) (neu : Nat) (r : Links α × Nat) : Prop where
  path : r.1.OnPath r.2 k neu
  left : ∀ j ∉ k.nodes, r.1.left j = m.left j
  right : ∀ j ∉ k.nodes, r.1.right j = m.right j
  parent : ∀ j, r.1.parent j = if j = neu ∧ neu ≠ nilIdx then top k else m.parent j
  bal : r.1.bal = m.bal
  payload : r.1.payload = m.payload

theorem replaceChild_onPath {old neu : Nat} (h : m.OnPath root k old) (ho : old ∉ k.nodes)
    (hn : neu ∉ k.nodes) (hnd : k.nodes.Nodup) (ho0 : old ≠ nilIdx) (h0 : nilIdx ∉ k.nodes) :
    Replaced m k neu (replaceChild m root (top k) old neu) := by
  cases k with
  | nil =>
    simp only [replaceChild, top, if_true]
    exact ⟨rfl, fun _ _ => by simp, fun _ _ => by simp, fun _ => linkParent_parent, by simp,
      by simp⟩
  | cons f k =>
    cases f with
    | left i b v r =>
      have hi0 : i ≠ nilIdx := fun e => h0 (mem_nodes_left.mpr (.inl e.symm))
      simp only [replaceChild, top_left, if_neg hi0, h.1.1, if_true]
      refine ⟨(h.set_left hnd).congr fun j hj => sameAt_linkParent fun e => hn (e ▸ hj),
        fun j hj => ?_, fun j hj => by simp, fun j => by simp [linkParent_parent], by simp,
        by simp⟩
      have hji : j ≠ i := fun e => hj (mem_nodes_left.mpr (.inl e))
      simp [hji]
    | right i b l v =>
      have hi0 : i ≠ nilIdx := fun e => h0 (mem_nodes_right.mpr (.inl e.symm))
      -- the other child is another node, or none
      have hlo : l.root ≠ old := fun e => ho (mem_nodes_right.mpr (.inr (.inl
        (e ▸ root_mem (e ▸ ho0)))))
      simp only [replaceChild, top_right, if_neg hi0, h.1.1, if_neg hlo]
      refine ⟨(h.set_right hnd).congr fun j hj => sameAt_linkParent fun e => hn (e ▸ hj),
        fun j hj => by simp, fun j hj => ?_, fun j => by simp [linkParent_parent], by simp,
        by simp⟩
      have hji : j ≠ i := fun e => hj (mem_nodes_right.mpr (.inl e))
      simp [hji]

/-! ## Single rotations -/

/-- The pool holds another tree now, and only nodes of the old one were written. -/
structure Regrouped (m : Links α) (t : LinkedTree α) (m' : Links α) (root' : Nat)
    (t' : LinkedTree α) : Prop where
  rooted : m'.Rooted root' t'
  entries : t'.entries = t.entries
  same : ∀ j ∉ t.nodes, m.SameAt m' j

theorem rotateLeft_regrouped {bx cy : Int} {a b d : LinkedTree α} {vx vy : α}
    (h : m.Rooted root (k.plug (.node x bx a vx (.node y cy b vy d)))) :
    ∃ m' root', rotateLeft m root x = (m', root', y) ∧
      Regrouped m (k.plug (.node x bx a vx (.node y cy b vy d))) m' root'
        (k.plug (.node y (if cy = 0 then -1 else 0)
          (.node x (if cy = 0 then 1 else 0) a vx b) vy d)) := by
  have hk := h.onPath
  obtain ⟨⟨hxl, hxr, hxp, hxb, hxv⟩, hA, ⟨hyl, hyr, hyp, hyb, hyv⟩, hB, hD⟩ := h.holds_focus
  have hnd := h.nodup_focus
  have hnil := h.nil_notin_focus
  have hy0 : y ≠ nilIdx := fun e => hnil (e ▸ by simp)
  have hbroot : b.root ≠ nilIdx → b.root ∈ b.nodes := root_mem
  rw [root_node] at hk hxr
  simp only [nodes_node, List.append_assoc, List.cons_append, List.nodup_append, List.nodup_cons,
    List.mem_append, List.mem_cons] at hnd hnil
  generalize hm1 : ((linkParent (m.setRight x b.root) b.root x).setLeft y x).setParent x y = m1
  have hk1 : m1.OnPath root k x := hk.congr fun j hj => by
    subst hm1
    constructor <;> simp [linkParent_parent] <;> grind
  have hr : Replaced m1 k y (replaceChild m1 root (top k) x y) :=
    replaceChild_onPath hk1 (by grind) (by grind) (by grind) (by grind) (by grind)
  obtain ⟨⟨m2, root'⟩, hm2⟩ : ∃ r, replaceChild m1 root (top k) x y = r := ⟨_, rfl⟩
  rw [hm2] at hr
  obtain ⟨hpath, hleft, hright, hparent, hbal, hpay⟩ := hr
  dsimp only at hpath hleft hright hparent hbal hpay
  have hbaly : m2.bal y = cy := by
    rw [hbal, ← hm1]
    simp [hyb]
  generalize hm3 : (m2.setBal x (if cy = 0 then 1 else 0)).setBal y (if cy = 0 then -1 else 0) = m3
  have hout : ∀ j ∉ k.nodes, m3.left j = (if j = y then x else m.left j) ∧
      m3.right j = (if j = x then b.root else m.right j) ∧
      m3.parent j = (if j = y then top k else if j = x then y
        else if j = b.root ∧ b.root ≠ nilIdx then x else m.parent j) ∧
      m3.bal j = (if j = y then if cy = 0 then -1 else 0
        else if j = x then if cy = 0 then 1 else 0 else m.bal j) ∧
      m3.payload j = m.payload j := fun j hj => by
    subst hm3
    refine ⟨(hleft j hj).trans ?_, (hright j hj).trans ?_, (hparent j).trans ?_, ?_, ?_⟩
    all_goals subst hm1
    · simp
    · simp
    · simp [linkParent_parent, hy0]
    · simp [hbal]
    · simp [hpay]
  have hsame : ∀ j ∉ k.nodes, j ≠ y → j ≠ x → (j = b.root → b.root = nilIdx) →
      m.SameAt m3 j := fun j hj hjy hjx hjb => by
    obtain ⟨h1, h2, h3, h4, h5⟩ := hout j hj
    rw [if_neg hjy] at h1 h3 h4
    rw [if_neg hjx] at h2 h3 h4
    rw [if_neg fun e => e.2 (hjb e.1)] at h3
    exact ⟨h1, h2, h3, h4, h5⟩
  have hx : m3.left x = a.root ∧ m3.right x = b.root ∧ m3.parent x = y ∧
      m3.bal x = (if cy = 0 then 1 else 0) ∧ m3.payload x = vx := by grind
  have hy : m3.left y = x ∧ m3.right y = d.root ∧ m3.parent y = top k ∧
      m3.bal y = (if cy = 0 then -1 else 0) ∧ m3.payload y = vy := by grind
  refine ⟨m3, root', ?_, ?_, by simp [entries_plug], fun j hj => ?_⟩
  · simp only [rotateLeft, hxr, hxp, hyl, hm1, hm2, hbaly, ← hm3]
    split <;> rfl
  · refine h.refocus (by simp) (hpath.congr fun j hj => ?_) ⟨hy, ⟨hx, hA.congr fun j hj => ?_,
      hB.reparent (by grind) (by grind) (fun j hj hne => ?_) (by grind)⟩, hD.congr fun j hj => ?_⟩
    · rw [← hm3]
      exact (sameAt_setBal (by grind)).trans (sameAt_setBal (by grind))
    · exact hsame j (by grind) (by grind) (by grind) (by grind)
    · exact hsame j (by grind) (by grind) (by grind) (by grind)
    · exact hsame j (by grind) (by grind) (by grind) (by grind)
  · rw [(perm_nodes_plug _ _).mem_iff] at hj
    simp only [nodes_node, List.mem_append, List.mem_cons] at hj
    exact hsame j (by grind) (by grind) (by grind) (by grind)

theorem rotateRight_regrouped {bx cy : Int} {a b d : LinkedTree α} {vx vy : α}
    (h : m.Rooted root (k.plug (.node x bx (.node y cy a vy b) vx d))) :
    ∃ m' root', rotateRight m root x = (m', root', y) ∧
      Regrouped m (k.plug (.node x bx (.node y cy a vy b) vx d)) m' root'
        (k.plug (.node y (if cy = 0 then 1 else 0) a vy
          (.node x (if cy = 0 then -1 else 0) b vx d))) := by
  have hk := h.onPath
  obtain ⟨⟨hxl, hxr, hxp, hxb, hxv⟩, ⟨⟨hyl, hyr, hyp, hyb, hyv⟩, hA, hB⟩, hD⟩ := h.holds_focus
  have hnd := h.nodup_focus
  have hnil := h.nil_notin_focus
  rw [root_node] at hk hxl
  simp only [nodes_node, List.append_assoc, List.cons_append, List.nodup_append, List.nodup_cons,
    List.mem_append, List.mem_cons] at hnd hnil
  have hy0 : y ≠ nilIdx := fun e => hnil (e ▸ by simp)
  have hbroot : b.root ≠ nilIdx → b.root ∈ b.nodes := root_mem
  generalize hm1 : ((linkParent (m.setLeft x b.root) b.root x).setRight y x).setParent x y = m1
  have hk1 : m1.OnPath root k x := hk.congr fun j hj => by
    subst hm1
    constructor <;> simp [linkParent_parent] <;> grind
  have hr : Replaced m1 k y (replaceChild m1 root (top k) x y) :=
    replaceChild_onPath hk1 (by grind) (by grind) (by grind) (by grind) (by grind)
  obtain ⟨⟨m2, root'⟩, hm2⟩ : ∃ r, replaceChild m1 root (top k) x y = r := ⟨_, rfl⟩
  rw [hm2] at hr
  obtain ⟨hpath, hleft, hright, hparent, hbal, hpay⟩ := hr
  dsimp only at hpath hleft hright hparent hbal hpay
  have hbaly : m2.bal y = cy := by
    rw [hbal, ← hm1]
    simp [hyb]
  generalize hm3 : (m2.setBal x (if cy = 0 then -1 else 0)).setBal y (if cy = 0 then 1 else 0) = m3
  have hout : ∀ j ∉ k.nodes, m3.left j = (if j = x then b.root else m.left j) ∧
      m3.right j = (if j = y then x else m.right j) ∧
      m3.parent j = (if j = y then top k else if j = x then y
        else if j = b.root ∧ b.root ≠ nilIdx then x else m.parent j) ∧
      m3.bal j = (if j = y then if cy = 0 then 1 else 0
        else if j = x then if cy = 0 then -1 else 0 else m.bal j) ∧
      m3.payload j = m.payload j := fun j hj => by
    subst hm3
    refine ⟨(hleft j hj).trans ?_, (hright j hj).trans ?_, (hparent j).trans ?_, ?_, ?_⟩
    all_goals subst hm1
    · simp
    · simp
    · simp [linkParent_parent, hy0]
    · simp [hbal]
    · simp [hpay]
  have hsame : ∀ j ∉ k.nodes, j ≠ y → j ≠ x → (j = b.root → b.root = nilIdx) →
      m.SameAt m3 j := fun j hj hjy hjx hjb => by
    obtain ⟨h1, h2, h3, h4, h5⟩ := hout j hj
    rw [if_neg hjy] at h2 h3 h4
    rw [if_neg hjx] at h1 h3 h4
    rw [if_neg fun e => e.2 (hjb e.1)] at h3
    exact ⟨h1, h2, h3, h4, h5⟩
  have hx : m3.left x = b.root ∧ m3.right x = d.root ∧ m3.parent x = y ∧
      m3.bal x = (if cy = 0 then -1 else 0) ∧ m3.payload x = vx := by grind
  have hy : m3.left y = a.root ∧ m3.right y = x ∧ m3.parent y = top k ∧
      m3.bal y = (if cy = 0 then 1 else 0) ∧ m3.payload y = vy := by grind
  refine ⟨m3, root', ?_, ?_, by simp [entries_plug], fun j hj => ?_⟩
  · simp only [rotateRight, hxl, hxp, hyr, hm1, hm2, hbaly, ← hm3]
    split <;> rfl
  · refine h.refocus (by simp) (hpath.congr fun j hj => ?_) ⟨hy, hA.congr fun j hj => ?_, hx,
      hB.reparent (by grind) (by grind) (fun j hj hne => ?_) (by grind), hD.congr fun j hj => ?_⟩
    · rw [← hm3]
      exact (sameAt_setBal (by grind)).trans (sameAt_setBal (by grind))
    · exact hsame j (by grind) (by grind) (by grind) (by grind)
    · exact hsame j (by grind) (by grind) (by grind) (by grind)
    · exact hsame j (by grind) (by grind) (by grind) (by grind)
  · rw [(perm_nodes_plug _ _).mem_iff] at hj
    simp only [nodes_node, List.mem_append, List.mem_cons] at hj
    exact hsame j (by grind) (by grind) (by grind) (by grind)

/-! ## Double rotations -/

namespace Regrouped

variable {t' t'' : LinkedTree α} {m'' : Links α} {root'' : Nat}

theorem refl (h : m.Rooted root t) : Regrouped m t m root t :=
  ⟨h, rfl, fun _ _ => SameAt.refl ..⟩

theorem nodes (h : Regrouped m t m' root' t') : t'.nodes = t.nodes := by
  unfold LinkedTree.nodes
  rw [h.entries]

theorem trans (h : Regrouped m t m' root' t') (h' : Regrouped m' t' m'' root'' t'') :
    Regrouped m t m'' root'' t'' :=
  ⟨h'.rooted, h'.entries.trans h.entries,
    fun j hj => (h.same j hj).trans (h'.same j (h.nodes ▸ hj))⟩

theorem setBal {i : Nat} {b c : Int} {l r : LinkedTree α} {v : α}
    (h : m.Rooted root (k.plug (.node i b l v r))) :
    Regrouped m (k.plug (.node i b l v r)) (m.setBal i c) root (k.plug (.node i c l v r)) := by
  refine ⟨h.set_focus (fun j hj => sameAt_setBal hj) rfl rfl rfl (by simp)
    h.holds_focus.1.2.2.2.2, by simp [entries_plug], fun j hj => sameAt_setBal ?_⟩
  rintro rfl
  exact hj ((perm_nodes_plug _ _).mem_iff.mpr (by simp))

end Regrouped

theorem rotateLeftRight_regrouped {bx bz yb : Int} {a b c d : LinkedTree α} {vx vy vz : α}
    (h : m.Rooted root (k.plug (.node x bx (.node z bz a vz (.node y yb b vy c)) vx d))) :
    ∃ m' root', rotateLeftRight m root x = (m', root', y) ∧
      Regrouped m (k.plug (.node x bx (.node z bz a vz (.node y yb b vy c)) vx d)) m' root'
        (k.plug (.node y 0 (.node z (if 0 < yb then -1 else 0) a vz b) vy
          (.node x (if yb < 0 then 1 else 0) c vx d))) := by
  obtain ⟨⟨hxl, -⟩, ⟨⟨-, hzr, -⟩, -, ⟨-, -, -, hyb, -⟩, -⟩, -⟩ := h.holds_focus
  obtain ⟨m1, root1, hrot1, hre1⟩ :=
    rotateLeft_regrouped (k := .left x bx vx d :: k) (show m.Rooted root (plug _ _) from h)
  obtain ⟨m2, root2, hrot2, hre2⟩ := rotateRight_regrouped (k := k) hre1.rooted
  have hz := Regrouped.setBal (k := .left y _ vy (.node x _ c vx d) :: k)
    (c := if 0 < yb then -1 else 0) hre2.rooted
  have hx := Regrouped.setBal (k := .right y _ (.node z _ a vz b) vy :: k)
    (c := if yb < 0 then 1 else 0) hz.rooted
  refine ⟨_, root2, ?_, hre1.trans (hre2.trans (hz.trans (hx.trans
    (Regrouped.setBal (k := k) hx.rooted))))⟩
  rw [root_node] at hxl hzr
  simp only [rotateLeftRight, hxl, hzr, hyb, hrot1, hrot2]
  rcases Int.lt_trichotomy yb 0 with hneg | rfl | hpos
  · have hle : ¬0 < yb := by omega
    have hne : yb ≠ 0 := by omega
    simp [hneg, hle, hne]
  · simp
  · have hle : ¬yb < 0 := by omega
    simp [hpos, hle]

theorem rotateRightLeft_regrouped {bx bz yb : Int} {a b c d : LinkedTree α} {vx vy vz : α}
    (h : m.Rooted root (k.plug (.node x bx a vx (.node z bz (.node y yb b vy c) vz d)))) :
    ∃ m' root', rotateRightLeft m root x = (m', root', y) ∧
      Regrouped m (k.plug (.node x bx a vx (.node z bz (.node y yb b vy c) vz d))) m' root'
        (k.plug (.node y 0 (.node x (if 0 < yb then -1 else 0) a vx b) vy
          (.node z (if yb < 0 then 1 else 0) c vz d))) := by
  obtain ⟨⟨-, hxr, -⟩, -, ⟨hzl, -⟩, ⟨⟨-, -, -, hyb, -⟩, -⟩, -⟩ := h.holds_focus
  obtain ⟨m1, root1, hrot1, hre1⟩ :=
    rotateRight_regrouped (k := .right x bx a vx :: k) (show m.Rooted root (plug _ _) from h)
  obtain ⟨m2, root2, hrot2, hre2⟩ := rotateLeft_regrouped (k := k) hre1.rooted
  have hz := Regrouped.setBal (k := .right y _ (.node x _ a vx b) vy :: k)
    (c := if yb < 0 then 1 else 0) hre2.rooted
  have hx := Regrouped.setBal (k := .left y _ vy (.node z _ c vz d) :: k)
    (c := if 0 < yb then -1 else 0) hz.rooted
  refine ⟨_, root2, ?_, hre1.trans (hre2.trans (hz.trans (hx.trans
    (Regrouped.setBal (k := k) hx.rooted))))⟩
  rw [root_node] at hxr hzl
  simp only [rotateRightLeft, hxr, hzl, hyb, hrot1, hrot2]
  rcases Int.lt_trichotomy yb 0 with hneg | rfl | hpos
  · have hle : ¬0 < yb := by omega
    simp [hneg, hle]
  · simp
  · have hle : ¬yb < 0 := by omega
    have hne : yb ≠ 0 := by omega
    simp [hpos, hle, hne]

end Microgarbage.Containers
