import Mathlib.Data.List.Perm.Subperm
import Microgarbage.Containers.AvlRetrace
import Microgarbage.Containers.AvlSearch

/-!
# Insertion and removal

Each takes the elements of the tree apart at the key and puts them together again with the key or
without it. The node that joins comes from the front of the free list, the one that leaves goes
there; a node of neither is not written.
-/

namespace Microgarbage.Containers

open Lib LinkedTree Path Links

variable {α : Type*} {c : AvlCore α} {m : Links α} {o : AvlOwner α} {key e : α} {root i n : Nat}
  {k : Path α} {t l r : LinkedTree α} {b : Int} {v : α} {fs : List Nat}

/-! ## Free list -/

/-- The free nodes in order, linked through `left`. -/
def FreeList (left : Nat → Nat) : Nat → List Nat → Prop
  | head, [] => head = AVL_CORE_NIL
  | head, i :: fs => head = i ∧ FreeList left (left i) fs

theorem FreeList.congr {left left' : Nat → Nat} {head : Nat} (h : FreeList left head fs)
    (hs : ∀ j ∈ fs, left' j = left j) : FreeList left' head fs := by
  induction fs generalizing head with
  | nil => exact h
  | cons i fs ih =>
    obtain ⟨rfl, h⟩ := h
    refine ⟨rfl, ?_⟩
    rw [hs head (by simp)]
    exact ih h fun j hj => hs j (by simp [hj])

theorem threadNode_left {capacity : Nat} (pool : Links α) (n j : Nat) :
    ((List.range n).foldl (threadNode capacity) pool).left j =
      if j < n then if j + 1 < capacity then j + 1 else AVL_CORE_NIL else pool.left j := by
  induction n with
  | zero => simp
  | succ n ih =>
    rw [List.range_succ, List.foldl_append, List.foldl_cons, List.foldl_nil, threadNode,
      setLeft_left, ih]
    by_cases hj : j = n
    · simp [hj]
    · have hlt : j < n + 1 ↔ j < n := by omega
      simp [hj, hlt]

theorem buildFreelist_free (pool : Links α) (capacity : Nat) :
    FreeList (buildFreelist pool capacity).1.left (buildFreelist pool capacity).2
      (List.range capacity) := by
  suffices hs : ∀ d i, i + d = capacity → FreeList (buildFreelist pool capacity).1.left
      (if i < capacity then i else AVL_CORE_NIL) (List.range' i d) by
    rw [List.range_eq_range']
    exact hs capacity 0 (Nat.zero_add _)
  intro d
  induction d with
  | zero => exact fun i hi => if_neg (by omega)
  | succ d ih =>
    intro i hi
    have hlt : i < capacity := by omega
    rw [if_pos hlt, List.range'_succ]
    refine ⟨rfl, ?_⟩
    have hleft : (buildFreelist pool capacity).1.left i =
        if i + 1 < capacity then i + 1 else AVL_CORE_NIL := by
      rw [buildFreelist, threadNode_left, if_pos hlt]
    rw [hleft]
    exact ih (i + 1) (by omega)

/-- A tree in the pool beside the free list. -/
structure InPool (c : AvlCore α) (o : AvlOwner α) (root : Nat) (t : LinkedTree α)
    (fs : List Nat) : Prop where
  rooted : o.pool.Rooted root t
  increasing : Increasing c.cmp t.elems
  free : FreeList o.pool.left o.freeHead fs
  nodup : (t.nodes ++ fs).Nodup
  bound : ∀ i ∈ t.nodes ++ fs, i < c.capacity
  capacity : c.capacity < nilIdx

namespace InPool

theorem length_le (h : InPool c o root t fs) : t.nodes.length ≤ c.capacity := by
  have hsub : t.nodes ⊆ List.range c.capacity := fun i hi =>
    List.mem_range.mpr (h.bound i (List.mem_append_left _ hi))
  simpa using (List.subperm_of_subset h.rooted.nodup hsub).length_le

theorem nil_notin (h : InPool c o root t fs) : nilIdx ∉ fs := fun hm =>
  Nat.lt_asymm h.capacity (h.bound _ (List.mem_append_right _ hm))

end InPool

theorem InPool.find (hc : Comparator c.cmp) (h : InPool c o root t fs) (key : α) :
    (∃ A i v B, t.entries = A ++ (i, v) :: B ∧ c.cmp key v = 0 ∧
      avlCoreFind c o.pool root key = some i) ∨
    ((∀ w ∈ t.elems, c.cmp key w ≠ 0) ∧ avlCoreFind c o.pool root key = some AVL_CORE_NIL) := by
  have hlen := h.length_le
  have hroot := h.rooted.root_eq
  rcases findLoop_focus (k := []) hc key (c.capacity + 1) h.rooted h.increasing
    ⟨by simp [before], by simp [after]⟩ (by have := t.height_le; omega) with
    ⟨k, z, b, l, v, r, rfl, hv, hloop⟩ | ⟨k, rfl, hbetween, hloop⟩
  · refine .inl ⟨before k ++ l.entries, z, v, r.entries ++ after k, ?_, hv, ?_⟩
    · simp [entries_plug]
    · rw [avlCoreFind, hroot, hloop]
  · refine .inr ⟨fun w hw => ?_, ?_⟩
    · simp only [LinkedTree.elems, entries_plug, entries_nil, List.append_nil,
        List.map_append, List.mem_append, List.mem_map] at hw
      rcases hw with ⟨p, hp, rfl⟩ | ⟨p, hp, rfl⟩
      · exact Int.ne_of_gt (hbetween.before p hp)
      · exact Int.ne_of_lt (hbetween.after p hp)
    · rw [avlCoreFind, hroot, hloop]

/-! ## Insertion -/

theorem linkNode_rooted {x : Int} (hr : o.pool.Rooted root (k.plug .nil)) (hn : n ∉ k.nodes)
    (hn0 : n ≠ nilIdx) (hx : k ≠ [] → (x < 0 ↔ fromLeft k = true)) :
    ∃ o' root', linkNode o root n (top k) x e = (o', root') ∧
      o'.pool.Rooted root' (k.plug (.node n 0 .nil e .nil)) ∧
      o'.freeHead = o.freeHead ∧ o'.count = o.count + 1 ∧
      ∀ j, j ≠ n → j ∉ k.nodes → o.pool.SameAt o'.pool j := by
  generalize hP : ((((o.pool.setPayload n e).setLeft n AVL_CORE_NIL).setRight n
    AVL_CORE_NIL).setParent n (top k)).setBal n 0 = P
  have hsame : ∀ j, j ≠ n → o.pool.SameAt P j := fun j hj => by
    rw [← hP]
    exact (sameAt_setPayload hj).trans ((sameAt_setLeft hj).trans ((sameAt_setRight hj).trans
      ((sameAt_setParent hj).trans (sameAt_setBal hj))))
  have hnode : P.left n = nilIdx ∧ P.right n = nilIdx ∧ P.parent n = top k ∧ P.bal n = 0 ∧
      P.payload n = e := by
    rw [← hP]
    simp
  have hpath : P.OnPath root k nilIdx :=
    hr.onPath.congr fun j hj => hsame j fun he => hn (he ▸ hj)
  have hnd : k.nodes.Nodup := hr.nodup_focus
  have h0 : nilIdx ∉ k.nodes := hr.nil_notin_focus
  have hnd' : ([n] ++ k.nodes).Nodup := List.nodup_cons.mpr ⟨hn, hnd⟩
  have h0' : nilIdx ∉ [n] ++ k.nodes := by simp [h0, Ne.symm hn0]
  simp only [linkNode, hP]
  cases k with
  | nil =>
    exact ⟨_, _, rfl, Rooted.of_focus (k := []) rfl ⟨hnode, trivial, trivial⟩ hnd' h0', rfl, rfl,
      fun j hj _ => hsame j hj⟩
  | cons f k =>
    cases f with
    | left p bp vp s =>
      have hp0 : p ≠ nilIdx := fun h => h0 (mem_nodes_left.mpr (.inl h.symm))
      have hpn : n ≠ p := fun h => hn (mem_nodes_left.mpr (.inl h))
      have hx' : x < 0 := (hx (by simp)).mpr rfl
      rw [top_left, if_neg hp0, if_pos hx']
      refine ⟨_, _, rfl, Rooted.of_focus (hpath.set_left hnd) ⟨?_, trivial, trivial⟩ hnd' h0',
        rfl, rfl, fun j hj hjk => (hsame j hj).trans (sameAt_setLeft ?_)⟩
      · simpa [hpn] using hnode
      · exact fun h => hjk (mem_nodes_left.mpr (.inl h))
    | right p bp s vp =>
      have hp0 : p ≠ nilIdx := fun h => h0 (mem_nodes_right.mpr (.inl h.symm))
      have hpn : n ≠ p := fun h => hn (mem_nodes_right.mpr (.inl h))
      have hx' : ¬x < 0 := fun h => Bool.false_ne_true ((hx (by simp)).mp h)
      rw [top_right, if_neg hp0, if_neg hx']
      refine ⟨_, _, rfl, Rooted.of_focus (hpath.set_right hnd) ⟨?_, trivial, trivial⟩ hnd' h0',
        rfl, rfl, fun j hj hjk => (hsame j hj).trans (sameAt_setRight ?_)⟩
      · simpa [hpn] using hnode
      · exact fun h => hjk (mem_nodes_right.mpr (.inl h))

/-- An insertion that succeeded: the elements are split at the new one, its node `n` is the first
free one. -/
structure Inserted (c : AvlCore α) (o : AvlOwner α) (t : LinkedTree α) (e : α) (n : Nat)
    (fs : List Nat) (o' : AvlOwner α) (root' : Nat) (t' : LinkedTree α) : Prop where
  inPool : InPool c o' root' t' fs
  elems : ∃ l₁ l₂, t.elems = l₁ ++ l₂ ∧ (∀ a ∈ l₁, 0 < c.cmp e a) ∧ (∀ b ∈ l₂, c.cmp e b < 0) ∧
    t'.elems = l₁ ++ e :: l₂
  nodes : t'.nodes.Perm (n :: t.nodes)
  count : o'.count = o.count + 1
  same : ∀ j ∉ n :: t.nodes, o.pool.SameAt o'.pool j

/-- A regrouping of the tree with the new node at its place is an insertion. -/
theorem inserted_of_regrouped {o₁ : AvlOwner α} {root' : Nat} {m' : Links α}
    {t' : LinkedTree α} (h : InPool c o root (k.plug .nil) (n :: fs))
    (hc : Comparator c.cmp) (hbetween : Between c.cmp e k)
    (hhead : o₁.freeHead = o.pool.left n) (hcount : o₁.count = o.count + 1)
    (hsame : ∀ j, j ≠ n → j ∉ k.nodes → o.pool.SameAt o₁.pool j)
    (hre : Regrouped o₁.pool (k.plug (.node n 0 .nil e .nil)) m' root' t') :
    Inserted c o (k.plug .nil) e n fs { o₁ with pool := m' } root' t' := by
  have hplug : t'.nodes.Perm (n :: (k.plug .nil).nodes) := by
    rw [hre.nodes, nodes_plug, nodes_plug]
    simp
  have hperm : (t'.nodes ++ fs).Perm ((k.plug .nil).nodes ++ n :: fs) :=
    (hplug.append_right fs).trans List.perm_middle.symm
  have hold : (k.plug .nil).elems = (before k).map Prod.snd ++ (after k).map Prod.snd := by
    simp [LinkedTree.elems, entries_plug]
  have hnew : t'.elems = (before k).map Prod.snd ++ e :: (after k).map Prod.snd := by
    simp [LinkedTree.elems, hre.entries, entries_plug]
  have hb : ∀ a ∈ (before k).map Prod.snd, 0 < c.cmp e a :=
    List.forall_mem_map.mpr hbetween.before
  have ha : ∀ a ∈ (after k).map Prod.snd, c.cmp e a < 0 :=
    List.forall_mem_map.mpr hbetween.after
  have hsame' : ∀ j ∉ n :: (k.plug .nil).nodes, o.pool.SameAt m' j := fun j hj => by
    rw [List.mem_cons, not_or, (perm_nodes_plug k .nil).mem_iff, nodes_nil, List.nil_append] at hj
    refine (hsame j hj.1 hj.2).trans (hre.same j fun hm => ?_)
    rw [← hre.nodes, hplug.mem_iff, List.mem_cons, (perm_nodes_plug k .nil).mem_iff, nodes_nil,
      List.nil_append] at hm
    exact hm.elim hj.1 hj.2
  refine ⟨⟨hre.rooted, ?_, ?_, hperm.nodup_iff.mpr h.nodup,
    fun i hi => h.bound i (hperm.mem_iff.mp hi), h.capacity⟩,
    ⟨_, _, hold, hb, ha, hnew⟩, hplug, hcount, hsame'⟩
  · rw [hnew]
    have hinc := h.increasing
    rw [hold, increasing_append] at hinc
    refine increasing_append.mpr ⟨hinc.1, increasing_cons.mpr ⟨ha, hinc.2.1⟩, fun a hm b hm' => ?_⟩
    have hae : c.cmp a e < 0 := (hc.swap e a).mp (hb a hm)
    rcases List.mem_cons.mp hm' with rfl | hm'
    · exact hae
    · exact hc.lt_trans hae (ha b hm')
  · refine (hhead ▸ h.free.2 : FreeList o.pool.left o₁.freeHead fs).congr fun j hj => ?_
    refine (hsame' j fun hm => ?_).left
    exact (List.nodup_append.mp (hplug.append_right fs |>.nodup_iff.mp
      (hperm.nodup_iff.mpr h.nodup))).2.2 j hm j hj rfl

theorem avlCoreInsert_eq (e : α) (balance : Bool) (hc : Comparator c.cmp) (h : InPool c o root t fs)
    (hbal : balance → t.Balanced) :
    (((∃ w ∈ t.elems, c.cmp e w = 0) ∨ fs = []) ∧
      avlCoreInsert c o root e balance = some (o, root, false)) ∨
    ∃ n fs' o' root' t', fs = n :: fs' ∧ avlCoreInsert c o root e balance = some (o', root', true) ∧
      Inserted c o t e n fs' o' root' t' ∧ (balance → t'.Balanced) := by
  have hlen := h.length_le
  have hroot := h.rooted.root_eq
  rcases insertLoop_focus (k := []) (x := 0) hc (c.capacity + 1) h.rooted h.increasing
    ⟨by simp [Path.before], by simp [Path.after]⟩ (fun hk => absurd rfl hk)
    (by have := t.height_le; omega) with ⟨hdup, hloop⟩ | ⟨k, x, hk, hbetween, hx, hloop⟩
  · refine .inl ⟨.inl hdup, ?_⟩
    rw [← hroot, top_nil] at hloop
    simp [avlCoreInsert, hloop]
  · rw [← hroot, top_nil] at hloop
    cases fs with
    | nil =>
      refine .inl ⟨.inr rfl, ?_⟩
      have hhead : o.freeHead = AVL_CORE_NIL := h.free
      simp [avlCoreInsert, hloop, allocNode, hhead]
    | cons n fs' =>
      obtain ⟨hhead, -⟩ := h.free
      obtain rfl : t = k.plug .nil := hk
      have hn0 : n ≠ nilIdx := fun he => h.nil_notin (by simp [he])
      have hnk : n ∉ k.nodes := fun hm => by
        have hd := (List.nodup_append.mp h.nodup).2.2
        exact hd n ((perm_nodes_plug k .nil).mem_iff.mpr (by simpa using hm)) n (by simp) rfl
      obtain ⟨o₁, root₁, hlink, hr₁, hhead₁, hcount₁, hsame₁⟩ :=
        linkNode_rooted (o := { o with freeHead := o.pool.left n }) (e := e) h.rooted hnk hn0 hx
      have hins : ∀ {m' root' t'}, Regrouped o₁.pool (k.plug (.node n 0 .nil e .nil)) m' root' t' →
          Inserted c o (k.plug .nil) e n fs' { o₁ with pool := m' } root' t' := fun hre =>
        inserted_of_regrouped h hc hbetween hhead₁ hcount₁ hsame₁ hre
      have halloc : allocNode o = ({ o with freeHead := o.pool.left n }, n) := by
        rw [allocNode, hhead, if_neg hn0]
      refine .inr ⟨n, fs', ?_⟩
      cases balance with
      | false =>
        refine ⟨o₁, root₁, _, rfl, ?_, hins (Regrouped.refl hr₁), fun hb => absurd hb (by simp)⟩
        simp [avlCoreInsert, hloop, halloc, hn0, hlink]
      | true =>
        obtain ⟨hk, -⟩ := balanced_plug.mp (hbal rfl)
        obtain ⟨m', root', t', hretrace, hre, hbal'⟩ := retraceInsertLoop_balanced
          (c.capacity + 1) 0 (by have := height_add_length_le k .nil; omega) hr₁ hk
          ⟨by simp, trivial, trivial⟩ rfl (.inl rfl)
        have hparent : o₁.pool.parent n = top k := hr₁.holds_focus.1.2.2.1
        refine ⟨{ o₁ with pool := m' }, root', t', rfl, ?_, hins hre, fun _ => hbal'⟩
        simp [avlCoreInsert, hloop, halloc, hn0, hlink, avlRetraceInsert, hparent, hretrace]

/-! ## Removal -/

theorem only_child (hr : m.Rooted root (k.plug (.node i b l v r))) (hone : l = .nil ∨ r = .nil) :
    ∃ u : LinkedTree α, (if m.left i ≠ AVL_CORE_NIL then m.left i else m.right i) = u.root ∧
      u.entries = l.entries ++ r.entries ∧ m.Holds i u ∧
      (LinkedTree.node i b l v r).height = u.height + 1 ∧
      ((LinkedTree.node i b l v r).Balanced → u.Balanced) := by
  obtain ⟨⟨hil, hir, -⟩, hL, hR⟩ := hr.holds_focus
  rw [hil, hir]
  rcases hone with rfl | rfl
  · exact ⟨r, by simp, rfl, hR, by simp, fun h => h.2.2⟩
  · refine ⟨l, ?_, (List.append_nil _).symm, hL, by simp, fun h => h.2.1⟩
    by_cases h0 : l.root = nilIdx
    · simp [h0]
    · simp [h0]

/-- The node in focus is out of the tree, which is balanced again where it has to be. -/
theorem unlinkNode_eq {balance : Bool} (hr : m.Rooted root (k.plug (.node i b l v r)))
    (hone : l = .nil ∨ r = .nil) (hbal : balance → (k.plug (.node i b l v r)).Balanced)
    (hcap : (k.plug (.node i b l v r)).nodes.length ≤ c.capacity) :
    ∃ m' root' t', unlinkNode c m root i balance = some (m', root') ∧ m'.Rooted root' t' ∧
      t'.entries = before k ++ (l.entries ++ r.entries) ++ after k ∧ (balance → t'.Balanced) ∧
      ∀ j ∉ (k.plug (.node i b l v r)).nodes, m.SameAt m' j := by
  obtain ⟨u, hchild, hent, hholds, hheight, hbalu⟩ := only_child hr hone
  have hip : m.parent i = top k := hr.holds_focus.1.2.2.1
  have hi0 : i ≠ nilIdx := fun e => hr.nil_notin_focus (by simp [e])
  have hnd := hr.nodup_focus
  have hk0 : nilIdx ∉ k.nodes := fun hm => hr.nil_notin_focus (List.mem_append_right _ hm)
  have hnodes : u.nodes = l.nodes ++ r.nodes := by simp [LinkedTree.nodes, hent]
  have hperm : ((LinkedTree.node i b l v r).nodes ++ k.nodes).Perm (i :: (u.nodes ++ k.nodes)) := by
    rw [hnodes, nodes_node, List.append_assoc, List.append_assoc]
    exact List.perm_middle
  obtain ⟨hi, hnd'⟩ := List.nodup_cons.mp (hperm.nodup_iff.mp hnd)
  rw [List.mem_append, not_or] at hi
  obtain ⟨hndu, hndk, hdisj⟩ := List.nodup_append.mp hnd'
  have huk : u.root ∉ k.nodes := fun hm =>
    hdisj _ (root_mem fun e => hk0 (e ▸ hm)) _ hm rfl
  have hu0 : nilIdx ∉ u.nodes ++ k.nodes := fun hm =>
    hr.nil_notin_focus (hperm.mem_iff.mpr (List.mem_cons_of_mem _ hm))
  have hrep := replaceChild_onPath hr.onPath hi.2 huk hndk hi0 hk0
  obtain ⟨⟨m₁, root₁⟩, hm₁⟩ : ∃ q, replaceChild m root (top k) i u.root = q := ⟨_, rfl⟩
  rw [root_node, hm₁] at hrep
  obtain ⟨hpath, hleft, hright, hparent, hbal₁, hpay⟩ := hrep
  dsimp only at hpath hleft hright hparent hbal₁ hpay
  have hsame : ∀ j ∉ k.nodes, (j = u.root → u.root = nilIdx) → m.SameAt m₁ j := fun j hj hju =>
    ⟨hleft j hj, hright j hj, (hparent j).trans (if_neg fun e => e.2 (hju e.1)),
      congrFun hbal₁ j, congrFun hpay j⟩
  have hr₁ : m₁.Rooted root₁ (k.plug u) := by
    refine Rooted.of_focus hpath (hholds.reparent hndu (fun hm => ?_) (fun j hj hne => ?_)
      fun hm => ?_) hnd' hu0
    · have hne : u.root ≠ nilIdx := fun e => hu0 (List.mem_append_left _ (e ▸ hm))
      exact (hparent _).trans (if_pos ⟨rfl, hne⟩)
    · exact hsame j (fun hm => hdisj j hj j hm rfl) fun e => absurd e hne
    · exact ⟨hleft _ huk, hright _ huk, congrFun hbal₁ _, congrFun hpay _⟩
  have hent₁ : (k.plug u).entries = before k ++ (l.entries ++ r.entries) ++ after k := by
    rw [entries_plug, hent]
  have hsame₁ : ∀ j ∉ (k.plug (.node i b l v r)).nodes, m.SameAt m₁ j := fun j hj => by
    rw [(perm_nodes_plug _ _).mem_iff, hperm.mem_iff, List.mem_cons, List.mem_append, not_or,
      not_or] at hj
    refine hsame j hj.2.2 fun e => Decidable.byContradiction fun hne => hj.2.1 ?_
    exact e ▸ root_mem hne
  by_cases hbk : balance ∧ k ≠ []
  · obtain ⟨hb, hk⟩ := hbk
    have htop : top k ≠ nilIdx := top_ne_nil hk hk0
    have hlost : decide (top k ≠ nilIdx ∧ m.left (top k) = i) = fromLeft k := by
      rw [← decide_left_top hr (by simp) hk]
      exact decide_eq_decide.mpr (and_iff_right htop)
    obtain ⟨hbalk, hbalt⟩ := balanced_plug.mp (hbal hb)
    obtain ⟨m', root', t', hretrace, hre, hbal'⟩ := avlRetraceRemove_balanced
      (c.capacity + 1) (by have := height_add_length_le k (.node i b l v r); omega) hr₁
      (hheight ▸ hbalk) (hbalu hbalt) fun _ => rfl
    refine ⟨m', root', t', ?_, hre.rooted, hre.entries.trans hent₁, fun _ => hbal',
      fun j hj => (hsame₁ j hj).trans (hre.same j fun hm => hj ?_)⟩
    · simp only [unlinkNode, hchild, hip, hm₁, hlost]
      rw [if_pos ⟨hb, htop⟩, hretrace]
    · rw [(perm_nodes_plug _ _).mem_iff] at hm ⊢
      exact hperm.mem_iff.mpr (List.mem_cons_of_mem _ hm)
  · refine ⟨m₁, root₁, _, ?_, hr₁, hent₁, fun hb => ?_, hsame₁⟩
    · simp only [unlinkNode, hchild, hip, hm₁]
      rw [if_neg fun h => hbk ⟨h.1, fun hk => h.2 (hk ▸ rfl)⟩]
    · have hk : k = [] := Decidable.byContradiction fun hk => hbk ⟨hb, hk⟩
      subst hk
      exact hbalu (hbal hb)

/-- The node to unlink has at most one child; with it gone, the payload of `z` is. -/
theorem removeTarget_eq {z : Nat} (hr : m.Rooted root (k.plug (.node z b l v r)))
    (hcap : (k.plug (.node z b l v r)).nodes.length ≤ c.capacity) :
    ∃ (m' : Links α) (i : Nat) (k' : Path α) (b' : Int) (l' : LinkedTree α) (v' : α)
      (r' : LinkedTree α), removeTarget c m z = some (m', i) ∧
        m'.Rooted root (k'.plug (.node i b' l' v' r')) ∧ (l' = .nil ∨ r' = .nil) ∧
        (before k' ++ (l'.entries ++ r'.entries) ++ after k').map Prod.snd =
          (before k ++ l.entries).map Prod.snd ++ (r.entries ++ after k).map Prod.snd ∧
        (k'.plug (.node i b' l' v' r')).nodes = (k.plug (.node z b l v r)).nodes ∧
        ((k.plug (.node z b l v r)).Balanced → (k'.plug (.node i b' l' v' r')).Balanced) ∧
        ∀ j ∉ (k.plug (.node z b l v r)).nodes, m.SameAt m' j := by
  obtain ⟨⟨hzl, hzr, -, -, -⟩, -⟩ := hr.holds_focus
  have hnil : ∀ u : LinkedTree α, u.nodes ⊆ (LinkedTree.node z b l v r).nodes → u.root = nilIdx →
      u = .nil := fun u hu hroot => eq_nil_of_root
    (fun hm => hr.nil_notin_focus (List.mem_append_left _ (hu hm))) hroot
  by_cases htwo : l.root ≠ nilIdx ∧ r.root ≠ nilIdx
  · obtain ⟨hl0, hr0⟩ := htwo
    have hfuel : r.height ≤ c.capacity + 1 := by
      have := height_add_length_le k (.node z b l v r)
      rw [height_node] at this
      omega
    obtain ⟨k₁, s, b₁, v₁, r₁, he₁, hb₁, hloop₁⟩ :=
      endLoop_left (k := .right z b l v :: k) _ hr (root_mem hr0) hfuel
    have hr₁ : m.Rooted root (k₁.plug (.node s b₁ .nil v₁ r₁)) := he₁ ▸ hr
    have hs₁ : m.payload s = v₁ := hr₁.holds_focus.1.2.2.2.2
    -- with the payload of the successor in place, the successor is found again
    have hr' : (m.setPayload z v₁).Rooted root (k.plug (.node z b l v₁ r)) :=
      hr.set_focus (fun j hj => sameAt_setPayload hj) rfl rfl rfl hr.holds_focus.1.2.2.2.1 (by simp)
    obtain ⟨k₂, s₂, b₂, v₂, r₂, he₂, hb₂, hloop₂⟩ :=
      endLoop_left (k := .right z b l v₁ :: k) _ hr' (root_mem hr0) hfuel
    obtain rfl : s = s₂ := Option.some.inj (hloop₁.symm.trans hloop₂)
    have hent₁ := congrArg LinkedTree.entries he₁
    have hent₂ := congrArg LinkedTree.entries he₂
    simp only [entries_plug, hb₁, hb₂, List.append_assoc, List.append_cancel_left_eq, entries_node,
      entries_nil, List.nil_append, after, before] at hent₁ hent₂
    obtain rfl : v₁ = v₂ := congrArg Prod.snd (List.cons.inj (hent₁.symm.trans hent₂)).1
    have he' : k₂.plug (.node s b₂ .nil v₁ r₂) = k.plug (.node z b l v₁ r) := he₂.symm
    refine ⟨m.setPayload z v₁, s, k₂, b₂, .nil, v₁, r₂, ?_, he' ▸ hr', .inl rfl, ?_, ?_, ?_, ?_⟩
    · have hmin : subtreeMin c m r.root = some s := by rw [subtreeMin, if_neg hr0, hloop₁]
      rw [removeTarget, hzl, hzr, if_pos ⟨hl0, hr0⟩, hmin, Option.map_some, hs₁]
    · rw [hb₂, hent₂]
      simp [before]
    · rw [he', nodes_plug, nodes_plug]
      simp
    · rw [he', balanced_plug, balanced_plug]
      exact id
    · refine fun j hj => sameAt_setPayload ?_
      rintro rfl
      exact hj ((perm_nodes_plug _ _).mem_iff.mpr (by simp))
  · refine ⟨m, z, k, b, l, v, r, ?_, hr, ?_, ?_, rfl, id, fun j _ => SameAt.refl ..⟩
    · rw [removeTarget, hzl, hzr, if_neg htwo]
    · by_cases hl0 : l.root = nilIdx
      · exact .inl (hnil l (by simp) hl0)
      · exact .inr (hnil r (fun j hj => by simp [hj]) (Decidable.byContradiction fun hr0 =>
          htwo ⟨hl0, hr0⟩))
    · simp

/-- A removal that succeeded: the element of the key is out, its payload copied, and the node `n`
first on the free list. -/
structure Removed (c : AvlCore α) (o : AvlOwner α) (t : LinkedTree α) (key out : α) (n : Nat)
    (fs : List Nat) (o' : AvlOwner α) (root' : Nat) (t' : LinkedTree α) : Prop where
  inPool : InPool c o' root' t' (n :: fs)
  elems : ∃ l₁ l₂, t.elems = l₁ ++ out :: l₂ ∧ c.cmp key out = 0 ∧ t'.elems = l₁ ++ l₂
  nodes : (n :: t'.nodes).Perm t.nodes
  count : o'.count = o.count - 1
  same : ∀ j ∉ t.nodes, o.pool.SameAt o'.pool j

theorem InPool.freeNode {root' : Nat} {t' : LinkedTree α} (h : InPool c o root t fs)
    (o₁ : AvlOwner α) (count : Nat) (hr : o₁.pool.Rooted root' t') (hinc : Increasing c.cmp t'.elems)
    (hperm : (n :: t'.nodes).Perm t.nodes) (hfree : o₁.freeHead = o.freeHead)
    (hsame : ∀ j ∉ t.nodes, o.pool.SameAt o₁.pool j) :
    InPool c { freeNode o₁ n with count := count } root' t' (n :: fs) := by
  have hall : (t'.nodes ++ n :: fs).Perm (t.nodes ++ fs) :=
    List.perm_middle.trans (hperm.append_right fs)
  have hn : n ∉ t'.nodes := (List.nodup_cons.mp (hperm.nodup_iff.mpr h.rooted.nodup)).1
  have hdisj := (List.nodup_append.mp h.nodup).2.2
  have hnfs : ∀ j ∈ fs, j ≠ n := fun j hj e =>
    hdisj n (hperm.mem_iff.mp (by simp)) j hj e.symm
  refine ⟨hr.congr fun j hj => sameAt_setLeft fun e => hn (e ▸ hj), hinc, ⟨rfl, ?_⟩,
    hall.nodup_iff.mpr h.nodup, fun i hi => h.bound i (hall.mem_iff.mp hi), h.capacity⟩
  have hleft : (Containers.freeNode o₁ n).pool.left n = o.freeHead := by
    simp [Containers.freeNode, hfree]
  rw [hleft]
  refine h.free.congr fun j hj => ?_
  rw [Containers.freeNode, setLeft_left, if_neg (hnfs j hj)]
  exact (hsame j fun hm => hdisj j hm j hj rfl).left

theorem avlCoreRemove_eq (key : α) (balance : Bool) (hc : Comparator c.cmp) (h : InPool c o root t fs)
    (hbal : balance → t.Balanced) :
    ((∀ w ∈ t.elems, c.cmp key w ≠ 0) ∧
      avlCoreRemove c o root key balance = some (o, root, none)) ∨
    ∃ out n o' root' t', avlCoreRemove c o root key balance = some (o', root', some out) ∧
      Removed c o t key out n fs o' root' t' ∧ (balance → t'.Balanced) := by
  have hcap := h.length_le
  rcases h.find hc key with ⟨A, z, v, B, he, hv, hfind⟩ | ⟨hne, hfind⟩
  · obtain ⟨k, b, l, r, rfl, -, -⟩ := focus_entries h.rooted.nodup he
    have hz0 : z ≠ nilIdx := fun e => h.rooted.nil_notin_focus (by simp [e])
    have hzv : o.pool.payload z = v := h.rooted.holds_focus.1.2.2.2.2
    obtain ⟨m₁, i, k₁, b₁, l₁, v₁, r₁, htarget, hr₁, hone, helems, hnodes, hbal₁, hsame₁⟩ :=
      removeTarget_eq (c := c) h.rooted hcap
    obtain ⟨m₂, root₂, t₂, hunlink, hr₂, hent₂, hbal₂, hsame₂⟩ :=
      unlinkNode_eq (c := c) hr₁ hone (fun hb => hbal₁ (hbal hb)) (hnodes ▸ hcap)
    have hperm : (i :: t₂.nodes).Perm (k.plug (.node z b l v r)).nodes := by
      rw [← hnodes, nodes_plug, LinkedTree.nodes, hent₂]
      simp only [List.map_append, nodes_node, List.append_assoc, List.cons_append]
      rw [← List.append_assoc]
      refine List.perm_middle.symm.trans ?_
      simp [LinkedTree.nodes]
    have hsame : ∀ j ∉ (k.plug (.node z b l v r)).nodes, o.pool.SameAt m₂ j := fun j hj =>
      (hsame₁ j hj).trans (hsame₂ j (hnodes ▸ hj))
    have hold : (k.plug (.node z b l v r)).elems =
        (before k ++ l.entries).map Prod.snd ++ v :: (r.entries ++ after k).map Prod.snd := by
      simp [LinkedTree.elems, entries_plug]
    have hnew : t₂.elems =
        (before k ++ l.entries).map Prod.snd ++ (r.entries ++ after k).map Prod.snd := by
      rw [LinkedTree.elems, hent₂, helems]
    have hinc : Increasing c.cmp t₂.elems := by
      rw [hnew]
      exact h.increasing.sublist (hold ▸ List.Sublist.append_left (List.sublist_cons_self ..) _)
    have hin := h.freeNode { o with pool := m₂ } (o.count - 1) hr₂ hinc hperm rfl hsame
    refine .inr ⟨v, i, _, root₂, t₂, ?_, ⟨hin, ⟨_, _, hold, hv, hnew⟩, hperm, rfl, fun j hj => ?_⟩,
      hbal₂⟩
    · rw [avlCoreRemove, hfind]
      simp [hz0, htarget, hunlink, hzv, freeNode]
    · refine (hsame j hj).trans (sameAt_setLeft fun e => hj (e ▸ ?_))
      exact hperm.mem_iff.mp (by simp)
  · refine .inl ⟨hne, ?_⟩
    rw [avlCoreRemove, hfind]
    simp

end Microgarbage.Containers
