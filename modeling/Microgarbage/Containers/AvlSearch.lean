import Microgarbage.Containers.AvlCore
import Microgarbage.Lib.OrderedSet

/-!
# Search and walk

The loops that only read. A descent splits the entries at the key; a step of the walk goes to the
neighbour in order, whether that is below the node or above it.
-/

namespace Microgarbage.Containers

open Lib LinkedTree Path Links

variable {α : Type*} {m : Links α} {c : AvlCore α} {cmp : α → α → Int} {key : α} {root i : Nat}
  {k : Path α} {t l r : LinkedTree α} {b : Int} {v : α}

/-! ## Descent -/

/-- The key belongs into the hole. -/
structure Between (cmp : α → α → Int) (key : α) (k : Path α) : Prop where
  before : ∀ p ∈ before k, 0 < cmp key p.2
  after : ∀ p ∈ after k, cmp key p.2 < 0

section Descent

variable (hc : Comparator cmp)

include hc

theorem Between.left (h : Between cmp key k)
    (hs : Increasing cmp (k.plug (.node i b l v r)).elems) (hv : cmp key v < 0) :
    Between cmp key (.left i b v r :: k) := by
  refine ⟨h.before, fun p hp => ?_⟩
  rw [LinkedTree.elems, entries_plug] at hs
  simp only [entries_node, List.map_append, List.map_cons, List.append_assoc,
    List.cons_append] at hs
  have hr := (increasing_cons.mp (increasing_append.mp (increasing_append.mp hs).2.1).2.1).1
  simp only [Path.after, List.cons_append, List.mem_cons, List.mem_append] at hp
  rcases hp with rfl | hp | hp
  · exact hv
  · exact hc.lt_trans hv (hr p.2 (by simp [List.mem_map_of_mem hp]))
  · exact h.after p hp

theorem Between.right (h : Between cmp key k)
    (hs : Increasing cmp (k.plug (.node i b l v r)).elems) (hv : 0 < cmp key v) :
    Between cmp key (.right i b l v :: k) := by
  refine ⟨fun p hp => ?_, h.after⟩
  rw [LinkedTree.elems, entries_plug] at hs
  simp only [entries_node, List.map_append, List.map_cons, List.append_assoc,
    List.cons_append] at hs
  have hl := (increasing_append.mp (increasing_append.mp hs).2.1).2.2
  simp only [Path.before, List.mem_append, List.mem_singleton] at hp
  rcases hp with (hp | hp) | rfl
  · exact h.before p hp
  · exact hc.gt_of_gt_of_lt hv (hl p.2 (List.mem_map_of_mem hp) v (by simp))
  · exact hv

/-- The search ends at the node of the key, or at a hole where the key belongs. -/
theorem findLoop_focus (key : α) (fuel : Nat) (hr : m.Rooted root (k.plug t))
    (hs : Increasing cmp (k.plug t).elems) (hk : Between cmp key k) (hfuel : t.height < fuel) :
    (∃ (k' : Path α) (i : Nat) (b : Int) (l : LinkedTree α) (v : α) (r : LinkedTree α),
      k.plug t = k'.plug (.node i b l v r) ∧ cmp key v = 0 ∧
        findLoop cmp m key fuel t.root = some i) ∨
    (∃ k' : Path α, k.plug t = k'.plug .nil ∧ Between cmp key k' ∧
      findLoop cmp m key fuel t.root = some AVL_CORE_NIL) := by
  obtain ⟨fuel, rfl⟩ : ∃ n, fuel = n + 1 := ⟨fuel - 1, by omega⟩
  induction t generalizing k fuel with
  | nil => exact .inr ⟨k, rfl, hk, by simp [findLoop]⟩
  | node i b l v r ihl ihr =>
    obtain ⟨⟨hil, hir, -, -, hiv⟩, -⟩ := hr.holds_focus
    have hi0 : i ≠ nilIdx := fun e => hr.nil_notin_focus (by simp [e])
    simp only [root_node, findLoop, if_neg hi0, hiv, hil, hir]
    rw [height_node] at hfuel
    obtain ⟨fuel, rfl⟩ : ∃ n, fuel = n + 1 := ⟨fuel - 1, by omega⟩
    rcases Int.lt_trichotomy (cmp key v) 0 with hlt | heq | hgt
    · rw [if_neg (Int.ne_of_lt hlt), if_pos hlt]
      exact ihl (k := .left i b v r :: k) hr hs (hk.left hc hs hlt) fuel (by omega)
    · exact .inl ⟨k, i, b, l, v, r, rfl, heq, if_pos heq⟩
    · rw [if_neg (Int.ne_of_gt hgt), if_neg (by omega)]
      exact ihr (k := .right i b l v :: k) hr hs (hk.right hc hs hgt) fuel (by omega)

/-- The descent of an insertion ends likewise, and knows the side of the hole. -/
theorem insertLoop_focus (fuel : Nat) {x : Int} (hr : m.Rooted root (k.plug t))
    (hs : Increasing cmp (k.plug t).elems) (hk : Between cmp key k)
    (hx : k ≠ [] → (x < 0 ↔ fromLeft k = true)) (hfuel : t.height < fuel) :
    ((∃ w ∈ (k.plug t).elems, cmp key w = 0) ∧
      insertLoop cmp m key fuel t.root (top k) x = some none) ∨
    (∃ (k' : Path α) (x' : Int), k.plug t = k'.plug .nil ∧ Between cmp key k' ∧
      (k' ≠ [] → (x' < 0 ↔ fromLeft k' = true)) ∧
      insertLoop cmp m key fuel t.root (top k) x = some (some (top k', x'))) := by
  obtain ⟨fuel, rfl⟩ : ∃ n, fuel = n + 1 := ⟨fuel - 1, by omega⟩
  induction t generalizing k fuel x with
  | nil => exact .inr ⟨k, x, rfl, hk, hx, by simp [insertLoop]⟩
  | node i b l v r ihl ihr =>
    obtain ⟨⟨hil, hir, -, -, hiv⟩, -⟩ := hr.holds_focus
    have hi0 : i ≠ nilIdx := fun e => hr.nil_notin_focus (by simp [e])
    simp only [root_node, insertLoop, if_neg hi0, hiv, hil, hir]
    rw [height_node] at hfuel
    obtain ⟨fuel, rfl⟩ : ∃ n, fuel = n + 1 := ⟨fuel - 1, by omega⟩
    rcases Int.lt_trichotomy (cmp key v) 0 with hlt | heq | hgt
    · rw [if_neg (Int.ne_of_lt hlt), if_pos hlt]
      exact ihl (k := .left i b v r :: k) hr hs (hk.left hc hs hlt)
        (fun _ => iff_of_true hlt rfl) fuel (by omega)
    · refine .inl ⟨⟨v, ?_, heq⟩, if_pos heq⟩
      simp [LinkedTree.elems, entries_plug]
    · rw [if_neg (Int.ne_of_gt hgt), if_neg (by omega)]
      exact ihr (k := .right i b l v :: k) hr hs (hk.right hc hs hgt)
        (fun _ => iff_of_false (by omega) Bool.false_ne_true) fuel (by omega)

end Descent

/-! ## Down one side -/

theorem endLoop_left (fuel : Nat) (hr : m.Rooted root (k.plug t)) (ht : t.root ∈ t.nodes)
    (hfuel : t.height ≤ fuel) : ∃ (k' : Path α) (i : Nat) (b : Int) (v : α) (r : LinkedTree α),
      k.plug t = k'.plug (.node i b .nil v r) ∧ before k' = before k ∧
        endLoop m.left fuel t.root = some i := by
  induction t generalizing k fuel with
  | nil => simp at ht
  | node i b l v r ihl _ =>
    obtain ⟨fuel, rfl⟩ : ∃ n, fuel = n + 1 := ⟨fuel - 1, by rw [height_node] at hfuel; omega⟩
    have hl : m.left i = l.root := hr.holds_focus.1.1
    rw [root_node, endLoop, hl]
    by_cases h0 : l.root = nilIdx
    · have hnil : l = .nil := eq_nil_of_root
        (fun hm => hr.nil_notin_focus (by simp [hm])) h0
      subst hnil
      exact ⟨k, i, b, v, r, rfl, rfl, by simp⟩
    · obtain ⟨k', i', b', v', r', he, hb, hloop⟩ := ihl fuel
        (k := .left i b v r :: k) hr (root_mem h0) (by rw [height_node] at hfuel; omega)
      exact ⟨k', i', b', v', r', he, hb, by rw [if_pos h0, hloop]⟩

theorem endLoop_right (fuel : Nat) (hr : m.Rooted root (k.plug t)) (ht : t.root ∈ t.nodes)
    (hfuel : t.height ≤ fuel) : ∃ (k' : Path α) (i : Nat) (b : Int) (v : α) (l : LinkedTree α),
      k.plug t = k'.plug (.node i b l v .nil) ∧ after k' = after k ∧
        endLoop m.right fuel t.root = some i := by
  induction t generalizing k fuel with
  | nil => simp at ht
  | node i b l v r _ ihr =>
    obtain ⟨fuel, rfl⟩ : ∃ n, fuel = n + 1 := ⟨fuel - 1, by rw [height_node] at hfuel; omega⟩
    have hl : m.right i = r.root := hr.holds_focus.1.2.1
    rw [root_node, endLoop, hl]
    by_cases h0 : r.root = nilIdx
    · have hnil : r = .nil := eq_nil_of_root
        (fun hm => hr.nil_notin_focus (by simp [hm])) h0
      subst hnil
      exact ⟨k, i, b, v, l, rfl, rfl, by simp⟩
    · obtain ⟨k', i', b', v', r', he, hb, hloop⟩ := ihr fuel
        (k := .right i b l v :: k) hr (root_mem h0) (by rw [height_node] at hfuel; omega)
      exact ⟨k', i', b', v', r', he, hb, by rw [if_pos h0, hloop]⟩

theorem subtreeMin_focus (hr : m.Rooted root (k.plug t)) (ht : t.root ∈ t.nodes)
    (hcap : (k.plug t).nodes.length ≤ c.capacity) :
    subtreeMin c m t.root = some (firstIdx (t.entries ++ after k)) := by
  have h0 : t.root ≠ nilIdx := fun e => hr.nil_notin_focus (by simp [← e, ht])
  obtain ⟨k', i, b, v, r, he, hb, hloop⟩ :=
    endLoop_left (c.capacity + 1) hr ht (by have := height_add_length_le k t; omega)
  have hent : (k.plug t).entries = (k'.plug (.node i b .nil v r)).entries := congrArg _ he
  rw [entries_plug, entries_plug, hb, List.append_assoc, List.append_assoc,
    List.append_cancel_left_eq] at hent
  rw [subtreeMin, if_neg h0, hloop, hent]
  rfl

theorem subtreeMax_focus (hr : m.Rooted root (k.plug t)) (ht : t.root ∈ t.nodes)
    (hcap : (k.plug t).nodes.length ≤ c.capacity) :
    subtreeMax c m t.root = some (firstIdx (before k ++ t.entries).reverse) := by
  have h0 : t.root ≠ nilIdx := fun e => hr.nil_notin_focus (by simp [← e, ht])
  obtain ⟨k', i, b, v, l, he, hb, hloop⟩ :=
    endLoop_right (c.capacity + 1) hr ht (by have := height_add_length_le k t; omega)
  have hent : (k.plug t).entries = (k'.plug (.node i b l v .nil)).entries := congrArg _ he
  rw [entries_plug, entries_plug, hb, List.append_cancel_right_eq] at hent
  rw [subtreeMax, if_neg h0, hloop, hent]
  simp

/-! ## Steps of the walk -/

theorem climbLoop_right {fuel : Nat} (hr : m.Rooted root (k.plug t)) (ht : t.root ∈ t.nodes)
    (hfuel : k.length < fuel) :
    climbLoop m m.right fuel t.root (top k) = some (firstIdx (after k)) := by
  induction k generalizing t fuel with
  | nil =>
    obtain ⟨fuel, rfl⟩ : ∃ n, fuel = n + 1 := ⟨fuel - 1, by simp at hfuel; omega⟩
    simp [climbLoop, after]
  | cons f k ih =>
    obtain ⟨fuel, rfl⟩ : ∃ n, fuel = n + 1 := ⟨fuel - 1, by simp at hfuel; omega⟩
    cases f with
    | left p bp vp s =>
      obtain ⟨⟨-, hpr, -⟩, -⟩ := hr.onPath
      have hne : t.root ≠ s.root := Rooted.root_ne_sibling (k := k) hr ht
      rw [climbLoop, top_left, hpr, if_neg fun h => hne h.2]
      rfl
    | right p bp s vp =>
      obtain ⟨⟨-, hpr, hpp, -⟩, -⟩ := hr.onPath
      have hp0 : p ≠ nilIdx := fun e => hr.nil_notin_focus (by simp [mem_nodes_right, e])
      rw [climbLoop, top_right, hpr, if_pos ⟨hp0, rfl⟩, hpp]
      exact ih (t := .node p bp s vp t) hr (by simp) (by simpa using hfuel)

theorem climbLoop_left {fuel : Nat} (hr : m.Rooted root (k.plug t)) (ht : t.root ∈ t.nodes)
    (hfuel : k.length < fuel) :
    climbLoop m m.left fuel t.root (top k) = some (firstIdx (before k).reverse) := by
  induction k generalizing t fuel with
  | nil =>
    obtain ⟨fuel, rfl⟩ : ∃ n, fuel = n + 1 := ⟨fuel - 1, by simp at hfuel; omega⟩
    simp [climbLoop, before]
  | cons f k ih =>
    obtain ⟨fuel, rfl⟩ : ∃ n, fuel = n + 1 := ⟨fuel - 1, by simp at hfuel; omega⟩
    cases f with
    | left p bp vp s =>
      obtain ⟨⟨hpl, -, hpp, -⟩, -⟩ := hr.onPath
      have hp0 : p ≠ nilIdx := fun e => hr.nil_notin_focus (by simp [mem_nodes_left, e])
      rw [climbLoop, top_left, hpl, if_pos ⟨hp0, rfl⟩, hpp]
      exact ih (t := .node p bp t vp s) hr (by simp) (by simpa using hfuel)
    | right p bp s vp =>
      obtain ⟨⟨hpl, -⟩, -⟩ := hr.onPath
      have hne : t.root ≠ s.root := Rooted.root_ne_sibling' (k := k) hr ht
      rw [climbLoop, top_right, hpl, if_neg fun h => hne h.2]
      simp [before]

theorem focus_entries {A B : List (Nat × α)} (hn : t.nodes.Nodup)
    (he : t.entries = A ++ (i, v) :: B) : ∃ (k : Path α) (b : Int) (l r : LinkedTree α),
      t = k.plug (.node i b l v r) ∧ A = before k ++ l.entries ∧ B = r.entries ++ after k := by
  have hi : i ∈ t.nodes := by simp [LinkedTree.nodes, he]
  obtain ⟨k, b, l, w, r, ht⟩ := exists_focus hi
  have he' : t.entries = (before k ++ l.entries) ++ (i, w) :: (r.entries ++ after k) := by
    rw [ht, entries_plug]
    simp
  unfold LinkedTree.nodes at hn
  rw [he, List.map_append, List.map_cons, List.nodup_append, List.nodup_cons] at hn
  have hA : (i, w) ∉ A := fun hm => hn.2.2 i (List.mem_map_of_mem hm) i (by simp) rfl
  have hB : (i, w) ∉ B := fun hm => hn.2.1.1 (List.mem_map.mpr ⟨_, hm, rfl⟩)
  obtain ⟨hA', hv, hB'⟩ := (List.append_cons_inj_of_notMem hA hB).mp (he.symm.trans he')
  obtain rfl : v = w := congrArg Prod.snd hv
  exact ⟨k, b, l, r, ht, hA', hB'⟩

theorem payload_of_mem (hr : m.Rooted root t) (h : (i, v) ∈ t.entries) : m.payload i = v := by
  obtain ⟨A, B, he⟩ := List.append_of_mem h
  obtain ⟨k, b, l, r, rfl, -, -⟩ := focus_entries hr.nodup he
  exact hr.holds_focus.1.2.2.2.2

theorem avlCoreMin_eq (hr : m.Rooted root t) (hcap : t.nodes.length ≤ c.capacity) :
    avlCoreMin c m root = some (firstIdx t.entries) := by
  rw [avlCoreMin, hr.root_eq]
  by_cases h0 : t.root = nilIdx
  · rw [eq_nil_of_root hr.nil_notin h0]
    simp [subtreeMin]
  · simpa [after] using subtreeMin_focus (k := []) hr (root_mem h0) hcap

theorem avlCoreMax_eq (hr : m.Rooted root t) (hcap : t.nodes.length ≤ c.capacity) :
    avlCoreMax c m root = some (firstIdx t.entries.reverse) := by
  rw [avlCoreMax, hr.root_eq]
  by_cases h0 : t.root = nilIdx
  · rw [eq_nil_of_root hr.nil_notin h0]
    simp [subtreeMax]
  · simpa [before] using subtreeMax_focus (k := []) hr (root_mem h0) hcap

theorem avlCoreNext_eq {A B : List (Nat × α)} (hr : m.Rooted root t)
    (hcap : t.nodes.length ≤ c.capacity) (hi : i < c.capacity)
    (he : t.entries = A ++ (i, v) :: B) : avlCoreNext c m i = some (firstIdx B) := by
  obtain ⟨k, b, l, r, rfl, rfl, rfl⟩ := focus_entries hr.nodup he
  have hi0 : i ≠ nilIdx := fun e => hr.nil_notin_focus (by simp [e])
  obtain ⟨⟨-, hir, hip, -⟩, -⟩ := hr.holds_focus
  rw [avlCoreNext, if_neg (not_or.mpr ⟨hi0, by omega⟩), hir, hip]
  by_cases h0 : r.root = nilIdx
  · have hnil : r = .nil := eq_nil_of_root (fun hm => hr.nil_notin_focus (by simp [hm])) h0
    subst hnil
    rw [if_neg (by simp)]
    exact climbLoop_right hr (by simp) (by have := height_add_length_le k (.node i b l v .nil); omega)
  · rw [if_pos h0]
    exact subtreeMin_focus (k := .right i b l v :: k) hr (root_mem h0) hcap

theorem avlCorePrev_eq {A B : List (Nat × α)} (hr : m.Rooted root t)
    (hcap : t.nodes.length ≤ c.capacity) (hi : i < c.capacity)
    (he : t.entries = A ++ (i, v) :: B) : avlCorePrev c m i = some (firstIdx A.reverse) := by
  obtain ⟨k, b, l, r, rfl, rfl, rfl⟩ := focus_entries hr.nodup he
  have hi0 : i ≠ nilIdx := fun e => hr.nil_notin_focus (by simp [e])
  obtain ⟨⟨hil, -, hip, -⟩, -⟩ := hr.holds_focus
  rw [avlCorePrev, if_neg (not_or.mpr ⟨hi0, by omega⟩), hil, hip]
  by_cases h0 : l.root = nilIdx
  · have hnil : l = .nil := eq_nil_of_root (fun hm => hr.nil_notin_focus (by simp [hm])) h0
    subst hnil
    rw [if_neg (by simp)]
    simpa using climbLoop_left hr (by simp)
      (by have := height_add_length_le k (.node i b .nil v r); omega)
  · rw [if_pos h0]
    exact subtreeMax_focus (k := .left i b v r :: k) hr (root_mem h0) hcap

end Microgarbage.Containers
