import Microgarbage.Containers.AvlRotate

/-!
# Rebalancing

After a subtree grew or shrank by one, the climb along the parents repairs the factors on its path.
Each round moves the repaired subtree up by one frame, so that the climb is an induction on the
path.
-/

namespace Microgarbage.Containers

open Lib LinkedTree Path Links

variable {α : Type*} {m m' : Links α} {root root' i p : Nat} {k : Path α} {b bp : Int}
  {l r s t t' : LinkedTree α} {v vp : α}

/-! ## One rotation -/

/-- The subtree in focus is repaired: `c` levels above `h` now. -/
structure Repaired (m : Links α) (k : Path α) (t : LinkedTree α) (h c : Nat)
    (m' : Links α) (root' : Nat) (t' : LinkedTree α) : Prop where
  regrouped : Regrouped m (k.plug t) m' root' (k.plug t')
  balanced : t'.Balanced
  height : t'.height = h + c

theorem rotate_right_heavy (hr : m.Rooted root (k.plug (.node p bp s vp (.node i b l v r))))
    (hs : s.Balanced) (ht : (LinkedTree.node i b l v r).Balanced)
    (hh : (LinkedTree.node i b l v r).height = s.height + 2) :
    ∃ m' root' t', (if b < 0 then rotateRightLeft m root p else rotateLeft m root p) =
        (m', root', t'.root) ∧
      Repaired m k (.node p bp s vp (.node i b l v r)) s.height (if b = 0 then 3 else 2)
        m' root' t' := by
  by_cases hb : b < 0
  · obtain ⟨y, yb, l', vy, r', rfl⟩ := ht.left_node hb
    obtain ⟨m', root', hrot, hre⟩ := rotateRightLeft_regrouped hr
    obtain ⟨hbal, hheight⟩ := hs.double_left p vp ht hb hh
    refine ⟨m', root', _, by rw [if_pos hb, hrot]; rfl, hre, hbal, ?_⟩
    have hb0 : b ≠ 0 := by omega
    rw [if_neg hb0]
    exact hheight
  · obtain ⟨m', root', hrot, hre⟩ := rotateLeft_regrouped hr
    obtain ⟨hbal, hheight⟩ := hs.single_left p vp ht (by omega) hh
    exact ⟨m', root', _, by rw [if_neg hb, hrot]; rfl, hre, hbal, hheight⟩

theorem rotate_left_heavy (hr : m.Rooted root (k.plug (.node p bp (.node i b l v r) vp s)))
    (hs : s.Balanced) (ht : (LinkedTree.node i b l v r).Balanced)
    (hh : (LinkedTree.node i b l v r).height = s.height + 2) :
    ∃ m' root' t', (if 0 < b then rotateLeftRight m root p else rotateRight m root p) =
        (m', root', t'.root) ∧
      Repaired m k (.node p bp (.node i b l v r) vp s) s.height (if b = 0 then 3 else 2)
        m' root' t' := by
  by_cases hb : 0 < b
  · obtain ⟨y, yb, l', vy, r', rfl⟩ := ht.right_node hb
    obtain ⟨m', root', hrot, hre⟩ := rotateLeftRight_regrouped hr
    obtain ⟨hbal, hheight⟩ := hs.double_right p vp ht hb hh
    refine ⟨m', root', _, by rw [if_pos hb, hrot]; rfl, hre, hbal, ?_⟩
    have hb0 : b ≠ 0 := by omega
    rw [if_neg hb0]
    exact hheight
  · obtain ⟨m', root', hrot, hre⟩ := rotateRight_regrouped hr
    obtain ⟨hbal, hheight⟩ := hs.single_right p vp ht (by omega) hh
    exact ⟨m', root', _, by rw [if_neg hb, hrot]; rfl, hre, hbal, hheight⟩

/-! ## After an insertion -/

theorem retraceInsertLoop_balanced (fuel h : Nat) (hfuel : k.length < fuel)
    (hr : m.Rooted root (k.plug (.node i b l v r))) (hk : k.Balanced h)
    (ht : (LinkedTree.node i b l v r).Balanced) (hh : (LinkedTree.node i b l v r).height = h + 1)
    (hb : h = 0 ∨ b ≠ 0) :
    ∃ m' root' t', retraceInsertLoop fuel m root i (top k) = some (m', root') ∧
      Regrouped m (k.plug (.node i b l v r)) m' root' t' ∧ t'.Balanced := by
  induction k generalizing fuel h m i b l v r with
  | nil =>
    obtain ⟨fuel, rfl⟩ : ∃ n, fuel = n + 1 := ⟨fuel - 1, by simp at hfuel; omega⟩
    exact ⟨m, root, _, by simp [retraceInsertLoop], Regrouped.refl hr, ht⟩
  | cons f k ih =>
    obtain ⟨fuel, rfl⟩ : ∃ n, fuel = n + 1 := ⟨fuel - 1, by simp at hfuel; omega⟩
    have hbi : m.bal i = b := hr.holds_focus.1.2.2.2.1
    cases f with
    | left p bp vp s =>
      obtain ⟨⟨hbp, hlo, hhi⟩, hs, hk⟩ := hk
      obtain ⟨⟨-, hpr, hpp, hpb, -⟩, -, -⟩ := hr.onPath
      have hp0 : p ≠ nilIdx := fun e => hr.nil_notin_focus (by simp [mem_nodes_left, e])
      have hi : i ≠ s.root := Rooted.root_ne_sibling (k := k) hr (by simp)
      simp only [top_left, retraceInsertLoop, if_neg hp0, hpr, if_neg hi, hpb, hbi]
      rcases Int.lt_trichotomy bp 0 with hneg | rfl | hpos
      · -- the higher side grew, and it leans
        obtain ⟨m', root', t', hrot, hre, hbal, hheight⟩ :=
          rotate_left_heavy (k := k) hr hs ht (by omega)
        rw [if_pos hneg, hrot]
        refine ⟨m', root', _, rfl, hre, balanced_plug.mpr ⟨?_, hbal⟩⟩
        rw [hheight, if_neg (hb.resolve_left (by omega))]
        convert hk using 1
        omega
      · have hset := Regrouped.setBal (k := k) (c := -1) hr
        obtain ⟨m', root', t', hloop, hre, hbal⟩ := ih fuel (h + 1)
          (by simpa using hfuel) hset.rooted (by convert hk using 1; omega)
          ⟨by omega, ht, hs⟩ (by rw [height_node, hh]; omega) (.inr (by omega))
        refine ⟨m', root', t', ?_, hset.trans hre, hbal⟩
        simpa [hpp] using hloop
      · -- the lower side grew
        have hset := Regrouped.setBal (k := k) (c := 0) hr
        rw [if_neg (by omega), if_pos hpos]
        refine ⟨_, root, _, rfl, hset, balanced_plug.mpr ⟨?_, by omega, ht, hs⟩⟩
        rw [height_node, hh]
        convert hk using 1
        omega
    | right p bp s vp =>
      obtain ⟨⟨hbp, hlo, hhi⟩, hs, hk⟩ := hk
      obtain ⟨⟨-, hpr, hpp, hpb, -⟩, -, -⟩ := hr.onPath
      have hp0 : p ≠ nilIdx := fun e => hr.nil_notin_focus (by simp [mem_nodes_right, e])
      rw [root_node] at hpr
      simp only [top_right, retraceInsertLoop, if_neg hp0, hpr, if_true, hpb, hbi]
      rcases Int.lt_trichotomy bp 0 with hneg | rfl | hpos
      · -- the lower side grew
        have hset := Regrouped.setBal (k := k) (c := 0) hr
        rw [if_neg (by omega), if_pos hneg]
        refine ⟨_, root, _, rfl, hset, balanced_plug.mpr ⟨?_, by omega, hs, ht⟩⟩
        rw [height_node, hh]
        convert hk using 1
        omega
      · have hset := Regrouped.setBal (k := k) (c := 1) hr
        obtain ⟨m', root', t', hloop, hre, hbal⟩ := ih fuel (h + 1)
          (by simpa using hfuel) hset.rooted (by convert hk using 1; omega)
          ⟨by omega, hs, ht⟩ (by rw [height_node, hh]; omega) (.inr (by omega))
        refine ⟨m', root', t', ?_, hset.trans hre, hbal⟩
        simpa [hpp] using hloop
      · -- the higher side grew, and it leans
        obtain ⟨m', root', t', hrot, hre, hbal, hheight⟩ :=
          rotate_right_heavy (k := k) hr hs ht (by omega)
        rw [if_pos hpos, hrot]
        refine ⟨m', root', _, rfl, hre, balanced_plug.mpr ⟨?_, hbal⟩⟩
        rw [hheight, if_neg (hb.resolve_left (by omega))]
        convert hk using 1
        omega

/-! ## After a removal -/

theorem decide_left_top (hr : m.Rooted root (k.plug t)) (ht : t.root ∈ t.nodes) (hk : k ≠ []) :
    decide (m.left (top k) = t.root) = fromLeft k := by
  cases k with
  | nil => exact absurd rfl hk
  | cons f k =>
    cases f with
    | left p bp vp s =>
      obtain ⟨⟨hpl, -⟩, -⟩ := hr.onPath
      simp [fromLeft, hpl]
    | right p bp s vp =>
      obtain ⟨⟨hpl, -⟩, -⟩ := hr.onPath
      have hne : s.root ≠ t.root := (hr.root_ne_sibling' (k := k) ht).symm
      simp [fromLeft, hpl, hne]

theorem lostLeft_next {p : Nat} {lost : Bool} (hr : m.Rooted root (k.plug (.node p bp s vp t)))
    (hk : k ≠ []) : (if top k ≠ nilIdx then decide (m.left (top k) = p) else lost) = fromLeft k := by
  have htop : top k ≠ nilIdx := top_ne_nil hk fun e => hr.nil_notin_focus (List.mem_append_right _ e)
  rw [if_pos htop]
  exact decide_left_top hr (by simp) hk

theorem avlRetraceRemove_balanced (fuel : Nat) {lost : Bool} (hfuel : k.length < fuel)
    (hr : m.Rooted root (k.plug t)) (hk : k.Balanced (t.height + 1)) (ht : t.Balanced)
    (hlost : k ≠ [] → lost = fromLeft k) :
    ∃ m' root' t', avlRetraceRemove fuel m root (top k) lost = some (m', root') ∧
      Regrouped m (k.plug t) m' root' t' ∧ t'.Balanced := by
  induction k generalizing fuel m root t lost with
  | nil =>
    obtain ⟨fuel, rfl⟩ : ∃ n, fuel = n + 1 := ⟨fuel - 1, by simp at hfuel; omega⟩
    exact ⟨m, root, _, by simp [avlRetraceRemove], Regrouped.refl hr, ht⟩
  | cons f k ih =>
    obtain ⟨fuel, rfl⟩ : ∃ n, fuel = n + 1 := ⟨fuel - 1, by simp at hfuel; omega⟩
    have hfuel' : k.length < fuel := by simpa using hfuel
    rw [hlost (by simp)]
    cases f with
    | left p bp vp s =>
      obtain ⟨⟨hbp, hlo, hhi⟩, hs, hk⟩ := hk
      obtain ⟨⟨-, hpr, hpp, hpb, -⟩, hS, -⟩ := hr.onPath
      have hp0 : p ≠ nilIdx := fun e => hr.nil_notin_focus (by simp [mem_nodes_left, e])
      simp only [top_left, avlRetraceRemove, if_neg hp0, fromLeft, if_true, hpp, hpb, hpr]
      rcases Int.lt_trichotomy bp 0 with hneg | rfl | hpos
      · -- the higher side shrank
        rw [if_neg (by omega), if_neg (by omega)]
        have hset := Regrouped.setBal (k := k) (c := 0) hr
        obtain ⟨m', root', t', hloop, hre, hbal⟩ := ih fuel hfuel' hset.rooted
          (by rw [height_node]; convert hk using 1; omega) ⟨by omega, ht, hs⟩ (lostLeft_next hr)
        exact ⟨m', root', t', hloop, hset.trans hre, hbal⟩
      · have hset := Regrouped.setBal (k := k) (c := 1) hr
        rw [if_neg (by omega), if_pos rfl]
        refine ⟨_, root, _, rfl, hset, balanced_plug.mpr ⟨?_, by omega, ht, hs⟩⟩
        rw [height_node]
        convert hk using 1
        omega
      · -- the lower side shrank
        obtain ⟨i, b, l, v, r, rfl⟩ : ∃ i b l v r, s = .node i b l v r := node_of_height (by omega)
        have hbi : m.bal i = b := hS.1.2.2.2.1
        obtain ⟨m', root', t', hrot, hre, hbal, hheight⟩ :=
          rotate_right_heavy (k := k) hr ht hs (by omega)
        simp only [if_pos hpos, root_node, hbi, hrot]
        by_cases hb : b = 0
        · rw [if_pos hb] at hheight ⊢
          refine ⟨m', root', _, rfl, hre, balanced_plug.mpr ⟨?_, hbal⟩⟩
          rw [hheight]
          convert hk using 1
          omega
        · rw [if_neg hb] at hheight ⊢
          obtain ⟨m'', root'', t'', hloop, hre', hbal'⟩ := ih fuel hfuel' hre.rooted
            (by rw [hheight]; convert hk using 1; omega) hbal (lostLeft_next hr)
          exact ⟨m'', root'', t'', hloop, hre.trans hre', hbal'⟩
    | right p bp s vp =>
      obtain ⟨⟨hbp, hlo, hhi⟩, hs, hk⟩ := hk
      obtain ⟨⟨hpl, -, hpp, hpb, -⟩, hS, -⟩ := hr.onPath
      have hp0 : p ≠ nilIdx := fun e => hr.nil_notin_focus (by simp [mem_nodes_right, e])
      simp only [top_right, avlRetraceRemove, if_neg hp0, fromLeft, hpp, hpb, hpl,
        Bool.false_eq_true, if_false]
      rcases Int.lt_trichotomy bp 0 with hneg | rfl | hpos
      · -- the lower side shrank
        obtain ⟨i, b, l, v, r, rfl⟩ : ∃ i b l v r, s = .node i b l v r := node_of_height (by omega)
        have hbi : m.bal i = b := hS.1.2.2.2.1
        obtain ⟨m', root', t', hrot, hre, hbal, hheight⟩ :=
          rotate_left_heavy (k := k) hr ht hs (by omega)
        simp only [if_pos hneg, root_node, hbi, hrot]
        by_cases hb : b = 0
        · rw [if_pos hb] at hheight ⊢
          refine ⟨m', root', _, rfl, hre, balanced_plug.mpr ⟨?_, hbal⟩⟩
          rw [hheight]
          convert hk using 1
          omega
        · rw [if_neg hb] at hheight ⊢
          obtain ⟨m'', root'', t'', hloop, hre', hbal'⟩ := ih fuel hfuel' hre.rooted
            (by rw [hheight]; convert hk using 1; omega) hbal (lostLeft_next hr)
          exact ⟨m'', root'', t'', hloop, hre.trans hre', hbal'⟩
      · have hset := Regrouped.setBal (k := k) (c := -1) hr
        rw [if_neg (by omega), if_pos rfl]
        refine ⟨_, root, _, rfl, hset, balanced_plug.mpr ⟨?_, by omega, hs, ht⟩⟩
        rw [height_node]
        convert hk using 1
        omega
      · -- the higher side shrank
        rw [if_neg (by omega), if_neg (by omega)]
        have hset := Regrouped.setBal (k := k) (c := 0) hr
        obtain ⟨m', root', t', hloop, hre, hbal⟩ := ih fuel hfuel' hset.rooted
          (by rw [height_node]; convert hk using 1; omega) ⟨by omega, hs, ht⟩ (lostLeft_next hr)
        exact ⟨m', root', t', hloop, hset.trans hre, hbal⟩

end Microgarbage.Containers
