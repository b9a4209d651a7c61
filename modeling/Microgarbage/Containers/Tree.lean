import Microgarbage.Containers.AvlOps

/-!
# The ordered tree

The facade over the engine with one root. Either discipline keeps the tree an ordered set of at
most as many elements as the pool has nodes: replies, walks and extremes are those of the set, which
knows nothing of links. Under the balanced discipline the tree is height-balanced besides.
-/

namespace Microgarbage.Containers

open Lib LinkedTree Path Links List

variable {α : Type*} {cmp : α → α → Int}

abbrev TREE_NIL : Nat := AVL_CORE_NIL

/-- Three indices and a balance factor with its padding. -/
def TREE_NODE_OVERHEAD : Nat := 16

inductive TreeDiscipline where
  | bst
  | avl
  deriving DecidableEq

/-- The comparator is fixed for the tree's life. -/
structure Tree (cmp : α → α → Int) where
  pool : Links α
  capacity : Nat
  count : Nat
  root : Nat
  freeHead : Nat
  discipline : TreeDiscipline

namespace Tree

variable (t : Tree cmp)

def core : AvlCore α := ⟨t.capacity, cmp⟩

def owner : AvlOwner α := ⟨t.pool, t.freeHead, t.count⟩

def withOwner (o : AvlOwner α) (root : Nat) : Tree cmp :=
  { t with pool := o.pool, freeHead := o.freeHead, count := o.count, root := root }

end Tree

/-! ## The operations -/

def treeClear (t : Tree cmp) : Tree cmp :=
  let (pool, freeHead) := buildFreelist t.pool t.capacity
  { t with count := 0, root := TREE_NIL, pool := pool, freeHead := freeHead }

def treeInit (discipline : TreeDiscipline) (cmp : α → α → Int) (pool : Links α)
    (poolBytes elementSize : Nat) : Option (Tree cmp) :=
  if elementSize = 0 then none
  else
    let stride := TREE_NODE_OVERHEAD + elementSize
    let capacity := poolBytes / stride
    if capacity = 0 ∨ TREE_NIL ≤ capacity then none
    else some (treeClear
      { pool := pool, capacity := capacity, count := 0, root := TREE_NIL, freeHead := TREE_NIL,
        discipline := discipline })

section Operations

variable (t : Tree cmp) (elem key : α) (cursor : Nat)

def treeInsert : Option (Tree cmp × Bool) :=
  (avlCoreInsert t.core t.owner t.root elem (decide (t.discipline = .avl))).map
    fun (o, root, done) => (t.withOwner o root, done)

/-- The removed payload, if there is one. -/
def treeRemove : Option (Tree cmp × Option α) :=
  (avlCoreRemove t.core t.owner t.root key (decide (t.discipline = .avl))).map
    fun (o, root, out) => (t.withOwner o root, out)

def treeFind : Option (Option α) :=
  (avlCoreFind t.core t.pool t.root key).map fun n =>
    if n = TREE_NIL then none else some (t.pool.payload n)

def treeContains : Option Bool :=
  (avlCoreFind t.core t.pool t.root key).map fun n => decide (n ≠ TREE_NIL)

def treeBegin : Option Nat := avlCoreMin t.core t.pool t.root

def treeRbegin : Option Nat := avlCoreMax t.core t.pool t.root

def treeNext : Option Nat :=
  if t.capacity ≤ cursor then some TREE_NIL else avlCoreNext t.core t.pool cursor

def treePrev : Option Nat :=
  if t.capacity ≤ cursor then some TREE_NIL else avlCorePrev t.core t.pool cursor

def treeGet : Option α :=
  if cursor = TREE_NIL ∨ t.capacity ≤ cursor then none else some (t.pool.payload cursor)

/-- The loop of a walk: the payload at each cursor. -/
def walkLoop (step : Nat → Option Nat) : Nat → Nat → Option (List α)
  | 0, _ => none
  | fuel + 1, it =>
    if it = TREE_NIL then some []
    else (step it).bind fun it' =>
      (walkLoop step fuel it').map fun l => (treeGet t it).toList ++ l

def treeForward : Option (List α) :=
  (treeBegin t).bind (walkLoop t (treeNext t) (t.capacity + 1))

def treeBackward : Option (List α) :=
  (treeRbegin t).bind (walkLoop t (treePrev t) (t.capacity + 1))

end Operations

/-- One operation of a client; a step of the walk starts at the cursor of a key. -/
def treeStep (t : Tree cmp) : SetOp α → Option (Tree cmp × SetReply α)
  | .insert e => (treeInsert t e).map fun (t, done) => (t, .done done)
  | .remove key => (treeRemove t key).map fun (t, out) => (t, .elem out)
  | .find key => (treeFind t key).map fun out => (t, .elem out)
  | .contains key => (treeContains t key).map fun b => (t, .done b)
  | .min => (treeBegin t).map fun it => (t, .elem (treeGet t it))
  | .max => (treeRbegin t).map fun it => (t, .elem (treeGet t it))
  | .next key => ((avlCoreFind t.core t.pool t.root key).bind (treeNext t)).map
      fun it => (t, .elem (treeGet t it))
  | .prev key => ((avlCoreFind t.core t.pool t.root key).bind (treePrev t)).map
      fun it => (t, .elem (treeGet t it))

def treeRun (t : Tree cmp) : List (SetOp α) → Option (Tree cmp × List (SetReply α))
  | [] => some (t, [])
  | op :: ops => (treeStep t op).bind fun (t, reply) =>
      (treeRun t ops).map fun (t, replies) => (t, reply :: replies)

/-! ## The invariant -/

/-- The tree `u` in the pool, the free list `fs` beside it: each node of the pool is exactly once
in one of them. -/
structure TreeInv (t : Tree cmp) (u : LinkedTree α) (fs : List Nat) : Prop where
  inPool : InPool t.core t.owner t.root u fs
  partition : (u.nodes ++ fs).Perm (List.range t.capacity)
  count : t.count = u.nodes.length
  balanced : t.discipline = .avl → u.Balanced

variable {t t₀ : Tree cmp} {u : LinkedTree α} {fs : List Nat} {s : OrderedSet cmp} {op : SetOp α}

theorem treeClear_inv (t : Tree cmp) (h : t.capacity < nilIdx) :
    TreeInv (treeClear t) .nil (List.range t.capacity) where
  inPool :=
    { rooted := Rooted.empty
      increasing := List.Pairwise.nil
      free := buildFreelist_free t.pool t.capacity
      nodup := nodup_range
      bound := fun _ hi => mem_range.mp hi
      capacity := h }
  partition := List.Perm.refl _
  count := rfl
  balanced _ := trivial

namespace TreeInv

variable (h : TreeInv t u fs)

include h

theorem nodes_add_free : u.nodes.length + fs.length = t.capacity := by
  simpa using h.partition.length_eq

theorem get_of_mem {i : Nat} {v : α} (hm : (i, v) ∈ u.entries) : treeGet t i = some v := by
  have hi : i ∈ u.nodes := mem_map.mpr ⟨_, hm, rfl⟩
  have hbound : i < t.capacity := h.inPool.bound i (mem_append_left _ hi)
  have h0 : i ≠ nilIdx := fun e => h.inPool.rooted.nil_notin (e ▸ hi)
  rw [treeGet, if_neg (not_or.mpr ⟨h0, Nat.not_le.mpr hbound⟩)]
  exact congrArg some (payload_of_mem h.inPool.rooted hm)

theorem get_firstIdx {l : List (Nat × α)} (hl : l ⊆ u.entries) :
    treeGet t (firstIdx l) = (l.map Prod.snd).head? := by
  cases l with
  | nil => simp [treeGet]
  | cons p l => exact h.get_of_mem (hl (mem_cons_self ..))

theorem begin_eq : treeBegin t = some (firstIdx u.entries) :=
  avlCoreMin_eq h.inPool.rooted h.inPool.length_le

theorem rbegin_eq : treeRbegin t = some (firstIdx u.entries.reverse) :=
  avlCoreMax_eq h.inPool.rooted h.inPool.length_le

theorem next_eq {A B : List (Nat × α)} {i : Nat} {v : α} (he : u.entries = A ++ (i, v) :: B) :
    treeNext t i = some (firstIdx B) := by
  have hi : i < t.capacity := h.inPool.bound i (by simp [LinkedTree.nodes, he])
  rw [treeNext, if_neg (Nat.not_le.mpr hi)]
  exact avlCoreNext_eq h.inPool.rooted h.inPool.length_le hi he

theorem prev_eq {A B : List (Nat × α)} {i : Nat} {v : α} (he : u.entries = A ++ (i, v) :: B) :
    treePrev t i = some (firstIdx A.reverse) := by
  have hi : i < t.capacity := h.inPool.bound i (by simp [LinkedTree.nodes, he])
  rw [treePrev, if_neg (Nat.not_le.mpr hi)]
  exact avlCorePrev_eq h.inPool.rooted h.inPool.length_le hi he

theorem walk_eq {step : Nat → Option Nat} {l : List (Nat × α)} {fuel : Nat}
    (hl : l ⊆ u.entries) (hfuel : l.length < fuel)
    (hstep : ∀ A i v B, l = A ++ (i, v) :: B → step i = some (firstIdx B)) :
    walkLoop t step fuel (firstIdx l) = some (l.map Prod.snd) := by
  induction l generalizing fuel with
  | nil =>
    obtain ⟨fuel, rfl⟩ : ∃ n, fuel = n + 1 := ⟨fuel - 1, by simp at hfuel; omega⟩
    simp [walkLoop]
  | cons p l ih =>
    obtain ⟨fuel, rfl⟩ : ∃ n, fuel = n + 1 := ⟨fuel - 1, by simp at hfuel; omega⟩
    obtain ⟨i, v⟩ := p
    have hmem : (i, v) ∈ u.entries := hl (by simp)
    have h0 : i ≠ nilIdx := fun e => h.inPool.rooted.nil_notin
      (mem_map.mpr ⟨_, hmem, e⟩)
    have hrest : walkLoop t step fuel (firstIdx l) = some (l.map Prod.snd) :=
      ih (fun q hq => hl (by simp [hq])) (by simpa using hfuel)
        fun A j w B he => hstep ((i, v) :: A) j w B (by rw [he, cons_append])
    simp [walkLoop, h0, hstep [] i v l rfl, hrest, h.get_of_mem hmem]

theorem forward_eq : treeForward t = some u.elems := by
  have hlen := h.inPool.length_le
  rw [treeForward, h.begin_eq, Option.bind_some]
  refine h.walk_eq (fun p hp => hp) ?_ fun A i v B he => h.next_eq he
  rw [LinkedTree.nodes, length_map] at hlen
  exact Nat.lt_succ_of_le hlen

theorem backward_eq : treeBackward t = some u.elems.reverse := by
  have hlen := h.inPool.length_le
  rw [treeBackward, h.rbegin_eq, Option.bind_some, LinkedTree.elems, ← map_reverse]
  refine h.walk_eq (fun p hp => mem_reverse.mp hp) ?_ fun A i v B he => ?_
  · rw [LinkedTree.nodes, length_map] at hlen
    rw [length_reverse]
    exact Nat.lt_succ_of_le hlen
  · have he' : u.entries = B.reverse ++ (i, v) :: A.reverse := by
      rw [← reverse_reverse u.entries, he]
      simp
    rw [h.prev_eq he', reverse_reverse]

theorem find_eq (hc : Comparator cmp) (hs : u.elems = s.elems) (key : α) :
    (∃ A i v B, u.entries = A ++ (i, v) :: B ∧ cmp key v = 0 ∧
      avlCoreFind t.core t.pool t.root key = some i ∧ treeGet t i = some v ∧ i ≠ TREE_NIL ∧
      t.pool.payload i = v ∧ s.find? key = some v ∧ s.below key = A.map Prod.snd ∧
      s.above key = B.map Prod.snd) ∨
    (avlCoreFind t.core t.pool t.root key = some TREE_NIL ∧ s.find? key = none) := by
  rcases h.inPool.find hc key with ⟨A, i, v, B, he, hv, hfind⟩ | ⟨hne, hfind⟩
  · have hm : (i, v) ∈ u.entries := by simp [he]
    have h0 : i ≠ nilIdx := fun e => h.inPool.rooted.nil_notin (mem_map.mpr ⟨_, hm, e⟩)
    have hsplit : s.elems = A.map Prod.snd ++ v :: B.map Prod.snd := by
      rw [← hs, LinkedTree.elems, he]
      simp
    exact .inl ⟨A, i, v, B, he, hv, hfind, h.get_of_mem hm, h0,
      payload_of_mem h.inPool.rooted hm, OrderedSet.find?_eq_some hc hsplit hv,
      OrderedSet.below_eq hc hsplit hv, OrderedSet.above_eq hc hsplit hv⟩
  · exact .inr ⟨hfind, OrderedSet.find?_eq_none.mpr (hs ▸ hne)⟩

theorem contains_eq (hc : Comparator cmp) (hs : u.elems = s.elems) (key : α) :
    treeContains t key = some (s.find? key).isSome := by
  rcases h.find_eq hc hs key with ⟨A, i, v, B, -, -, hfind, -, h0, -, hsome, -⟩ | ⟨hfind, hnone⟩
  · simp [treeContains, hfind, h0, hsome]
  · simp [treeContains, hfind, hnone]

theorem begin_get (hs : u.elems = s.elems) : (treeBegin t).map (treeGet t) = some s.min? := by
  rw [h.begin_eq, Option.map_some, h.get_firstIdx (fun p hp => hp)]
  exact congrArg (fun l => some (List.head? l)) hs

theorem rbegin_get (hs : u.elems = s.elems) : (treeRbegin t).map (treeGet t) = some s.max? := by
  rw [h.rbegin_eq, Option.map_some, h.get_firstIdx fun p hp => mem_reverse.mp hp,
    map_reverse, List.head?_reverse]
  exact congrArg (fun l => some (List.getLast? l)) hs

theorem insert_sound (hc : Comparator cmp) (hs : u.elems = s.elems) (e : α) :
    ∃ t' u' fs', treeStep t (.insert e) = some (t', (s.step hc t.capacity (.insert e)).2) ∧
      TreeInv t' u' fs' ∧ u'.elems = (s.step hc t.capacity (.insert e)).1.elems ∧
      t'.capacity = t.capacity ∧ t'.discipline = t.discipline := by
  have hlen := h.nodes_add_free
  rw [length_nodes, hs] at hlen
  rcases avlCoreInsert_eq e _ hc h.inPool fun hb => h.balanced (of_decide_eq_true hb) with
    ⟨hwhy, hins⟩ | ⟨n, fs', o', root', u', rfl, hins, hI, hbal⟩
  · have hfail : (s.find? e).isSome ∨ t.capacity ≤ s.elems.length := by
      rcases hwhy with ⟨w, hw, hw0⟩ | rfl
      · refine .inl (Option.isSome_iff_ne_none.mpr fun hnone => ?_)
        exact OrderedSet.find?_eq_none.mp hnone w (hs ▸ hw) hw0
      · exact .inr (Nat.le_of_eq hlen.symm)
    refine ⟨t, u, fs, ?_, h, ?_, rfl, rfl⟩
    · rw [treeStep, treeInsert, hins, OrderedSet.step, if_pos hfail]
      rfl
    · rw [OrderedSet.step, if_pos hfail, hs]
  · obtain ⟨l₁, l₂, hold, h₁, h₂, hnew⟩ := hI.elems
    obtain ⟨helems, hnone⟩ := OrderedSet.insert_elems hc (hs.symm.trans hold) h₁ h₂
    have hroom : ¬((s.find? e).isSome ∨ t.capacity ≤ s.elems.length) := by
      rw [length_cons] at hlen
      rw [hnone]
      exact not_or.mpr ⟨Bool.false_ne_true, by omega⟩
    rw [OrderedSet.step, if_neg hroom]
    refine ⟨t.withOwner o' root', u', fs', ?_, ⟨hI.inPool, ?_, ?_, fun hd => ?_⟩,
      hnew.trans helems.symm, rfl, rfl⟩
    · rw [treeStep, treeInsert, hins]
      rfl
    · exact (hI.nodes.append_right fs').trans (perm_middle.symm.trans h.partition)
    · rw [hI.nodes.length_eq, length_cons, ← h.count]
      exact hI.count
    · exact hbal (decide_eq_true hd)

theorem remove_sound (hc : Comparator cmp) (hs : u.elems = s.elems) (key : α) :
    ∃ t' u' fs', treeStep t (.remove key) = some (t', (s.step hc t.capacity (.remove key)).2) ∧
      TreeInv t' u' fs' ∧ u'.elems = (s.step hc t.capacity (.remove key)).1.elems ∧
      t'.capacity = t.capacity ∧ t'.discipline = t.discipline := by
  rcases avlCoreRemove_eq key _ hc h.inPool fun hb => h.balanced (of_decide_eq_true hb) with
    ⟨hne, hrem⟩ | ⟨out, n, o', root', u', hrem, hR, hbal⟩
  · have hnone : s.find? key = none := OrderedSet.find?_eq_none.mpr (hs ▸ hne)
    refine ⟨t, u, fs, ?_, h, ?_, rfl, rfl⟩
    · rw [treeStep, treeRemove, hrem, OrderedSet.step, hnone]
      rfl
    · rw [OrderedSet.step, OrderedSet.remove_of_none hnone, hs]
  · obtain ⟨l₁, l₂, hold, hout, hnew⟩ := hR.elems
    have hsplit := hs.symm.trans hold
    refine ⟨t.withOwner o' root', u', n :: fs, ?_, ⟨hR.inPool, ?_, ?_, fun hd => ?_⟩, ?_, rfl, rfl⟩
    · rw [treeStep, treeRemove, hrem, OrderedSet.step, OrderedSet.find?_eq_some hc hsplit hout]
      rfl
    · exact perm_middle.trans ((hR.nodes.append_right fs).trans h.partition)
    · have hlen := hR.nodes.length_eq
      have hcount : o'.count = t.count - 1 := hR.count
      rw [length_cons] at hlen
      change o'.count = _
      rw [hcount, h.count, ← hlen, Nat.add_sub_cancel]
    · exact hbal (decide_eq_true hd)
    · rw [OrderedSet.step, hnew, OrderedSet.remove_elems hc hsplit hout]

theorem read_sound (hc : Comparator cmp) (hs : u.elems = s.elems)
    (hop : (s.step hc t.capacity op).1 = s)
    (hread : treeStep t op = some (t, (s.step hc t.capacity op).2)) :
    ∃ t' u' fs', treeStep t op = some (t', (s.step hc t.capacity op).2) ∧
      TreeInv t' u' fs' ∧ u'.elems = (s.step hc t.capacity op).1.elems ∧
      t'.capacity = t.capacity ∧ t'.discipline = t.discipline :=
  ⟨t, u, fs, hread, h, by rw [hop, hs], rfl, rfl⟩

theorem step_sound (hc : Comparator cmp) (hs : u.elems = s.elems) (op : SetOp α) :
    ∃ t' u' fs', treeStep t op = some (t', (s.step hc t.capacity op).2) ∧
      TreeInv t' u' fs' ∧ u'.elems = (s.step hc t.capacity op).1.elems ∧
      t'.capacity = t.capacity ∧ t'.discipline = t.discipline := by
  have hle : t.capacity ≤ nilIdx := Nat.le_of_lt h.inPool.capacity
  cases op with
  | insert e => exact h.insert_sound hc hs e
  | remove key => exact h.remove_sound hc hs key
  | find key =>
    refine h.read_sound hc hs rfl ?_
    rcases h.find_eq hc hs key with ⟨A, i, v, B, -, -, hfind, -, h0, hpay, hsome, -, -⟩ | ⟨hfind, hnone⟩
    · simp [treeStep, treeFind, hfind, h0, hpay, OrderedSet.step, hsome]
    · simp [treeStep, treeFind, hfind, OrderedSet.step, hnone]
  | contains key =>
    refine h.read_sound hc hs rfl ?_
    rw [treeStep, h.contains_eq hc hs]
    rfl
  | min =>
    refine h.read_sound hc hs rfl ?_
    obtain ⟨it, hit, hget⟩ := Option.map_eq_some_iff.mp (h.begin_get hs)
    rw [treeStep, hit, Option.map_some, hget]
    rfl
  | max =>
    refine h.read_sound hc hs rfl ?_
    obtain ⟨it, hit, hget⟩ := Option.map_eq_some_iff.mp (h.rbegin_get hs)
    rw [treeStep, hit, Option.map_some, hget]
    rfl
  | next key =>
    refine h.read_sound hc hs rfl ?_
    rcases h.find_eq hc hs key with ⟨A, i, v, B, he, -, hfind, -, -, -, hsome, -, habove⟩ | ⟨hfind, hnone⟩
    · have hget := h.get_firstIdx (l := B) fun p hp => by simp [he, hp]
      simp [treeStep, hfind, h.next_eq he, hget, OrderedSet.step, OrderedSet.next?, hsome, habove]
    · simp [treeStep, hfind, treeNext, hle, treeGet, OrderedSet.step, OrderedSet.next?, hnone]
  | prev key =>
    refine h.read_sound hc hs rfl ?_
    rcases h.find_eq hc hs key with ⟨A, i, v, B, he, -, hfind, -, -, -, hsome, hbelow, -⟩ | ⟨hfind, hnone⟩
    · have hget := h.get_firstIdx (l := A.reverse) fun p hp => by simp [he, mem_reverse.mp hp]
      simp [treeStep, hfind, h.prev_eq he, hget, OrderedSet.step, OrderedSet.prev?, hsome, hbelow]
    · simp [treeStep, hfind, treePrev, hle, treeGet, OrderedSet.step, OrderedSet.prev?, hnone]

end TreeInv

/-! ## Runs -/

theorem TreeInv.run_replies (hc : Comparator cmp) (h : TreeInv t u fs) (hs : u.elems = s.elems)
    (ops : List (SetOp α)) : ∃ t' u' fs', treeRun t ops = some (t', (s.run hc t.capacity ops).2) ∧
      TreeInv t' u' fs' ∧ u'.elems = (s.run hc t.capacity ops).1.elems ∧
      t'.capacity = t.capacity ∧ t'.discipline = t.discipline := by
  induction ops generalizing t u fs s with
  | nil => exact ⟨t, u, fs, rfl, h, hs, rfl, rfl⟩
  | cons op ops ih =>
    obtain ⟨t₁, u₁, fs₁, hstep, h₁, hs₁, hcap₁, hd₁⟩ := h.step_sound hc hs op
    obtain ⟨t₂, u₂, fs₂, hrun, h₂, hs₂, hcap₂, hd₂⟩ := ih h₁ hs₁
    rw [hcap₁] at hrun hs₂
    refine ⟨t₂, u₂, fs₂, ?_, h₂, hs₂, hcap₂.trans hcap₁, hd₂.trans hd₁⟩
    simp only [treeRun, hstep, Option.bind_some, hrun]
    rfl

theorem treeInit_inv {d : TreeDiscipline} {pool : Links α} {poolBytes elementSize : Nat}
    (h : treeInit d cmp pool poolBytes elementSize = some t₀) :
    TreeInv t₀ .nil (List.range t₀.capacity) ∧ t₀.discipline = d ∧
      t₀.capacity = poolBytes / (TREE_NODE_OVERHEAD + elementSize) := by
  unfold treeInit at h
  split at h
  · exact absurd h (Option.some_ne_none _).symm
  · dsimp only at h
    split at h
    · exact absurd h (Option.some_ne_none _).symm
    · next hcap =>
      obtain rfl := Option.some.inj h
      exact ⟨treeClear_inv _ (Nat.not_le.mp (not_or.mp hcap).2), rfl, rfl⟩

/-- Under either discipline, after any history: the replies are those of one ordered set, membership
and extremes are its, a walk forward reads it in strictly increasing order, a walk backward in
reverse. -/
theorem tree_refines_set (hc : Comparator cmp) {pool : Links α} {poolBytes elementSize : Nat}
    {tb ta : Tree cmp} (hb : treeInit .bst cmp pool poolBytes elementSize = some tb)
    (ha : treeInit .avl cmp pool poolBytes elementSize = some ta) (ops : List (SetOp α)) :
    let s := OrderedSet.empty.run hc (poolBytes / (TREE_NODE_OVERHEAD + elementSize)) ops
    ∀ t₀ ∈ [tb, ta], ∃ t, treeRun t₀ ops = some (t, s.2) ∧
      (∀ key, treeContains t key = some (s.1.find? key).isSome) ∧
      (treeBegin t).map (treeGet t) = some s.1.min? ∧
      (treeRbegin t).map (treeGet t) = some s.1.max? ∧
      treeForward t = some s.1.elems ∧ Increasing cmp s.1.elems ∧
      treeBackward t = some s.1.elems.reverse := by
  intro s t₀ ht₀
  obtain ⟨d, hinit⟩ : ∃ d, treeInit d cmp pool poolBytes elementSize = some t₀ := by
    rcases mem_cons.mp ht₀ with rfl | ht₀
    · exact ⟨_, hb⟩
    · rw [mem_singleton.mp ht₀]
      exact ⟨_, ha⟩
  obtain ⟨hinv, -, hcap⟩ := treeInit_inv hinit
  obtain ⟨t, u, fs, hrun, h, hs, -⟩ := hinv.run_replies (s := .empty) hc rfl ops
  rw [hcap] at hrun hs
  exact ⟨t, hrun, h.contains_eq hc hs, h.begin_get hs, h.rbegin_get hs,
    by rw [h.forward_eq, hs], s.1.increasing, by rw [h.backward_eq, hs]⟩

def compareInt (a b : Int) : Int := a - b

theorem compareInt_comparator : Comparator compareInt where
  swap a b := by
    unfold compareInt
    omega
  trans a b c h h' := by
    unfold compareInt at *
    omega

/-- A pool whose bytes are all zero. -/
def zeroPool : Links Int := ⟨fun _ => 0, fun _ => 0, fun _ => 0, fun _ => 0, fun _ => 0⟩

theorem tree_refines_set_small :
    ∃ tb ta, treeInit .bst compareInt zeroPool 60 4 = some tb ∧
      treeInit .avl compareInt zeroPool 60 4 = some ta ∧
      let s := OrderedSet.empty.run compareInt_comparator (60 / (TREE_NODE_OVERHEAD + 4))
        [.insert 1, .insert 2, .insert 3, .insert 4, .remove 2, .next 1]
      ∀ t₀ ∈ [tb, ta], ∃ t, treeRun t₀ [.insert 1, .insert 2, .insert 3, .insert 4, .remove 2,
          .next 1] = some (t, s.2) ∧
        (∀ key, treeContains t key = some (s.1.find? key).isSome) ∧
        (treeBegin t).map (treeGet t) = some s.1.min? ∧
        (treeRbegin t).map (treeGet t) = some s.1.max? ∧
        treeForward t = some s.1.elems ∧ Increasing compareInt s.1.elems ∧
        treeBackward t = some s.1.elems.reverse := by
  have hb : treeInit .bst compareInt zeroPool 60 4 = some _ := rfl
  have ha : treeInit .avl compareInt zeroPool 60 4 = some _ := rfl
  exact ⟨_, _, hb, ha, tree_refines_set compareInt_comparator hb ha _⟩

/-! ## The balanced discipline -/

/-- What the pool of a balanced tree looks like. The tree `u` gives each node its subtrees, so that
`balance` is about the factors stored in the pool. -/
structure AvlInvariant (t : Tree cmp) (u : LinkedTree α) (fs : List Nat) : Prop where
  rooted : t.pool.Rooted t.root u
  order : Increasing cmp u.elems
  parents : ∀ i ∈ u.nodes, ∀ j, j = t.pool.left i ∨ j = t.pool.right i → j ≠ TREE_NIL →
    j ∈ u.nodes ∧ t.pool.parent j = i
  balance : u.Balanced
  free : FreeList t.pool.left t.freeHead fs
  partition : (u.nodes ++ fs).Perm (List.range t.capacity)
  count : t.count = u.nodes.length

theorem avl_keeps_invariant (hc : Comparator cmp) {pool : Links α} {poolBytes elementSize : Nat}
    (h₀ : treeInit .avl cmp pool poolBytes elementSize = some t₀) (ops : List (SetOp α)) :
    ∃ t replies u fs, treeRun t₀ ops = some (t, replies) ∧ AvlInvariant t u fs := by
  obtain ⟨hinv, hd₀, -⟩ := treeInit_inv h₀
  obtain ⟨t, u, fs, hrun, h, -, -, hd⟩ := hinv.run_replies (s := .empty) hc rfl ops
  exact ⟨t, _, u, fs, hrun, h.inPool.rooted, h.inPool.increasing,
    fun i hi j hj hj0 => h.inPool.rooted.child_parent hi hj hj0, h.balanced (hd.trans hd₀),
    h.inPool.free, h.partition, h.count⟩

theorem avl_keeps_invariant_small : ∃ t₀, treeInit .avl compareInt zeroPool 60 4 = some t₀ ∧
    ∃ t replies u fs, treeRun t₀ [.insert 1, .insert 2, .insert 3, .remove 2] = some (t, replies) ∧
      AvlInvariant t u fs := by
  have ha : treeInit .avl compareInt zeroPool 60 4 = some _ := rfl
  exact ⟨_, ha, avl_keeps_invariant compareInt_comparator ha _⟩

/-- A look-up or an insertion among less than `fib (d + 3) - 1` elements descends in at most `d + 1`
rounds. -/
def ShortDescents (t : Tree cmp) : Prop := ∀ d key, t.count + 1 < Nat.fib (d + 3) →
  (findLoop cmp t.pool key (d + 1) t.root).isSome ∧
    (insertLoop cmp t.pool key (d + 1) t.root AVL_CORE_NIL 0).isSome

/-- After any history a balanced tree is no deeper than the logarithm of its size. -/
theorem avl_descends (hc : Comparator cmp) {pool : Links α} {poolBytes elementSize : Nat}
    (h₀ : treeInit .avl cmp pool poolBytes elementSize = some t₀) (ops : List (SetOp α)) :
    ∃ t replies, treeRun t₀ ops = some (t, replies) ∧ ShortDescents t := by
  obtain ⟨hinv, hd₀, -⟩ := treeInit_inv h₀
  obtain ⟨t, u, fs, hrun, h, -, -, hd⟩ := hinv.run_replies (s := .empty) hc rfl ops
  refine ⟨t, _, hrun, fun d key hlt => ?_⟩
  have hfib := (h.balanced (hd.trans hd₀)).fib_le
  rw [← h.count] at hfib
  have hheight : u.height < d + 1 := by
    by_contra hge
    have hmono := Nat.fib_mono (show d + 3 ≤ u.height + 2 by omega)
    omega
  have hroot := h.inPool.rooted
  have hempty : Between cmp key [] := ⟨by simp [Path.before], by simp [Path.after]⟩
  rw [hroot.root_eq]
  constructor
  · rcases findLoop_focus (k := []) hc key (d + 1) hroot h.inPool.increasing hempty hheight with
      ⟨_, _, _, _, _, _, _, _, hloop⟩ | ⟨_, _, _, hloop⟩ <;>
    exact Option.isSome_of_eq_some hloop
  · rcases insertLoop_focus (k := []) hc (d + 1) hroot h.inPool.increasing hempty
      (fun hne => absurd rfl hne) hheight with ⟨_, hloop⟩ | ⟨_, _, _, _, _, hloop⟩ <;>
    exact Option.isSome_of_eq_some hloop

theorem avl_descends_small : ∃ t₀, treeInit .avl compareInt zeroPool 60 4 = some t₀ ∧
    ∃ t replies, treeRun t₀ [.insert 1, .insert 2, .insert 3] = some (t, replies) ∧
      ShortDescents t := by
  have ha : treeInit .avl compareInt zeroPool 60 4 = some _ := rfl
  exact ⟨_, ha, avl_descends compareInt_comparator ha _⟩

end Microgarbage.Containers
