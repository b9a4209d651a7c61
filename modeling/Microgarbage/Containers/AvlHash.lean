import Microgarbage.Containers.Tree

/-!
# The hash table of balanced trees

Each bucket is the root of a tree, and all of them share one pool and one free list. An operation
works on the tree of its bucket; that the others keep their nodes is the partition of the pool.
-/

namespace Microgarbage.Containers

open Lib LinkedTree Path Links List

variable {α : Type*} {hash : α → Nat} {cmp : α → α → Int}

abbrev AVLHASH_NIL : Nat := AVL_CORE_NIL

/-- The same node shape as the tree's. -/
def AVLHASH_NODE_OVERHEAD : Nat := 16

structure AvlHash (hash : α → Nat) (cmp : α → α → Int) where
  buckets : Nat → Nat
  nBuckets : Nat
  pool : Links α
  capacity : Nat
  count : Nat
  freeHead : Nat

namespace AvlHash

variable (h : AvlHash hash cmp)

def core : AvlCore α := ⟨h.capacity, cmp⟩

def owner : AvlOwner α := ⟨h.pool, h.freeHead, h.count⟩

def withBucket (b : Nat) (o : AvlOwner α) (root : Nat) : AvlHash hash cmp :=
  { h with
    buckets := Function.update h.buckets b root
    pool := o.pool
    freeHead := o.freeHead
    count := o.count }

variable {b : Nat} {o : AvlOwner α} {root : Nat}

@[simp] theorem withBucket_core : (h.withBucket b o root).core = h.core := rfl

@[simp] theorem withBucket_owner : (h.withBucket b o root).owner = o := rfl

@[simp] theorem withBucket_nBuckets : (h.withBucket b o root).nBuckets = h.nBuckets := rfl

@[simp] theorem withBucket_count : (h.withBucket b o root).count = o.count := rfl

@[simp] theorem withBucket_buckets :
    (h.withBucket b o root).buckets = Function.update h.buckets b root := rfl

theorem withBucket_self : h.withBucket b h.owner (h.buckets b) = h := by
  rw [withBucket, Function.update_eq_self]
  rfl

end AvlHash

/-! ## The operations -/

def bucketOf (h : AvlHash hash cmp) (key : α) : Nat := hash key % h.nBuckets

def clearBuckets (buckets : Nat → Nat) (nBuckets : Nat) : Nat → Nat :=
  (List.range nBuckets).foldl (fun buckets i => Function.update buckets i AVLHASH_NIL) buckets

def avlhashClear (h : AvlHash hash cmp) : AvlHash hash cmp :=
  let (pool, freeHead) := buildFreelist h.pool h.capacity
  { h with
    count := 0
    buckets := clearBuckets h.buckets h.nBuckets
    pool := pool
    freeHead := freeHead }

def avlhashInit (buckets : Nat → Nat) (nBuckets : Nat) (hash : α → Nat) (cmp : α → α → Int)
    (pool : Links α) (poolBytes elementSize : Nat) : Option (AvlHash hash cmp) :=
  if nBuckets = 0 ∨ elementSize = 0 then none
  else
    let stride := AVLHASH_NODE_OVERHEAD + elementSize
    let capacity := poolBytes / stride
    if capacity = 0 ∨ AVLHASH_NIL ≤ capacity then none
    else some (avlhashClear
      { buckets := buckets, nBuckets := nBuckets, pool := pool, capacity := capacity, count := 0,
        freeHead := AVLHASH_NIL })

section Operations

variable (h : AvlHash hash cmp) (elem key : α)

def avlhashInsert : Option (AvlHash hash cmp × Bool) :=
  let b := bucketOf h elem
  (avlCoreInsert h.core h.owner (h.buckets b) elem true).map
    fun (o, root, done) => (h.withBucket b o root, done)

def avlhashRemove : Option (AvlHash hash cmp × Option α) :=
  let b := bucketOf h key
  (avlCoreRemove h.core h.owner (h.buckets b) key true).map
    fun (o, root, out) => (h.withBucket b o root, out)

def avlhashFind : Option (Option α) :=
  (avlCoreFind h.core h.pool (h.buckets (bucketOf h key)) key).map fun n =>
    if n = AVLHASH_NIL then none else some (h.pool.payload n)

def avlhashContains : Option Bool :=
  (avlCoreFind h.core h.pool (h.buckets (bucketOf h key)) key).map fun n =>
    decide (n ≠ AVLHASH_NIL)

/-- The inner loop of `avlhash_foreach`. -/
def visitBucket : Nat → Nat → Option (List α)
  | 0, _ => none
  | fuel + 1, it =>
    if it = AVLHASH_NIL then some []
    else (avlCoreNext h.core h.pool it).bind fun it' =>
      (visitBucket fuel it').map (h.pool.payload it :: ·)

def visitBuckets : List Nat → Option (List α)
  | [] => some []
  | b :: bs => (avlCoreMin h.core h.pool (h.buckets b)).bind fun it =>
      (visitBucket h (h.capacity + 1) it).bind fun l => (visitBuckets bs).map (l ++ ·)

/-- The payloads in the order they are visited. -/
def avlhashForeach : Option (List α) := visitBuckets h (List.range h.nBuckets)

end Operations

inductive HashOp (α : Type*) where
  | insert (elem : α)
  | remove (key : α)
  | find (key : α)
  | contains (key : α)

namespace HashOp

def key : HashOp α → α
  | insert elem => elem
  | remove key => key
  | find key => key
  | contains key => key

/-- The same operation on a set. -/
def toSetOp : HashOp α → SetOp α
  | insert elem => .insert elem
  | remove key => .remove key
  | find key => .find key
  | contains key => .contains key

end HashOp

def avlhashStep (h : AvlHash hash cmp) : HashOp α → Option (AvlHash hash cmp × SetReply α)
  | .insert elem => (avlhashInsert h elem).map fun (h, done) => (h, .done done)
  | .remove key => (avlhashRemove h key).map fun (h, out) => (h, .elem out)
  | .find key => (avlhashFind h key).map fun out => (h, .elem out)
  | .contains key => (avlhashContains h key).map fun b => (h, .done b)

def avlhashRun (h : AvlHash hash cmp) :
    List (HashOp α) → Option (AvlHash hash cmp × List (SetReply α))
  | [] => some (h, [])
  | op :: ops => (avlhashStep h op).bind fun (h, reply) =>
      (avlhashRun h ops).map fun (h, replies) => (h, reply :: replies)

/-! ## The invariant -/

/-- The trees `ts` of the buckets and the free list `fs` divide the pool among them. -/
structure HashInv (h : AvlHash hash cmp) (ts : Nat → LinkedTree α) (fs : List Nat) : Prop where
  inPool : ∀ b < h.nBuckets, InPool h.core h.owner (h.buckets b) (ts b) fs
  balanced : ∀ b < h.nBuckets, (ts b).Balanced
  placed : ∀ b < h.nBuckets, ∀ v ∈ (ts b).elems, hash v % h.nBuckets = b
  partition : ((List.range h.nBuckets).flatMap (fun b => (ts b).nodes) ++ fs).Perm
    (List.range h.capacity)
  count : h.count = ((List.range h.nBuckets).flatMap fun b => (ts b).nodes).length

variable {h h₀ : AvlHash hash cmp} {ts : Nat → LinkedTree α} {fs : List Nat} {s : OrderedSet cmp}
  {b n : Nat}

theorem flatMap_split {β : Type*} (f : Nat → List β) (hb : b < n) :
    ((List.range n).flatMap f).Perm (f b ++ ((List.range n).erase b).flatMap f) :=
  ((perm_cons_erase (mem_range.mpr hb)).flatMap_right f).trans
    (List.Perm.of_eq flatMap_cons)

theorem flatMap_erase_update {β : Type*} (f : LinkedTree α → List β) (t : LinkedTree α) :
    ((List.range n).erase b).flatMap (fun i => f (Function.update ts b t i)) =
      ((List.range n).erase b).flatMap fun i => f (ts i) := by
  refine flatMap_congr fun i hi => ?_
  have hne : i ≠ b := fun e => nodup_range.not_mem_erase (e ▸ hi)
  rw [Function.update_of_ne hne]

theorem flatMap_update {β : Type*} (ts : Nat → LinkedTree α) (f : LinkedTree α → List β) (t : LinkedTree α) (hb : b < n) :
    ((List.range n).flatMap fun i => f (Function.update ts b t i)).Perm
      (f t ++ ((List.range n).erase b).flatMap fun i => f (ts i)) := by
  have hsplit := flatMap_split (fun i => f (Function.update ts b t i)) hb
  rwa [Function.update_self, flatMap_erase_update] at hsplit

/-- The elements, bucket after bucket. -/
def bucketElems (ts : Nat → LinkedTree α) (n : Nat) : List α :=
  (List.range n).flatMap fun b => (ts b).elems

/-- Only the bucket `b` was worked on. -/
def OthersKept (h : AvlHash hash cmp) (ts : Nat → LinkedTree α) (b : Nat) (h' : AvlHash hash cmp)
    (ts' : Nat → LinkedTree α) : Prop :=
  ∀ b' < h.nBuckets, b' ≠ b → h'.buckets b' = h.buckets b' ∧ ts' b' = ts b' ∧
    ∀ i ∈ (ts b').nodes, h.pool.SameAt h'.pool i

/-- One operation on the table, and the same one on the set. -/
structure HashStep (hc : Comparator cmp) (h : AvlHash hash cmp) (ts : Nat → LinkedTree α)
    (s : OrderedSet cmp) (op : HashOp α) (h' : AvlHash hash cmp) (ts' : Nat → LinkedTree α)
    (fs' : List Nat) : Prop where
  inv : HashInv h' ts' fs'
  elems : (bucketElems ts' h'.nBuckets).Perm (s.step hc h.capacity op.toSetOp).1.elems
  capacity : h'.capacity = h.capacity
  nBuckets : h'.nBuckets = h.nBuckets
  others : OthersKept h ts (bucketOf h op.key) h' ts'

namespace HashInv

section Update

variable {o' : AvlOwner α} {root' : Nat} {t' : LinkedTree α} {fs' : List Nat}

/-- The nodes of the other buckets are none of this one's, and not free. -/
theorem apart (hI : HashInv h ts fs) {b' : Nat} (hb : b < h.nBuckets) (hb' : b' < h.nBuckets)
    (hne : b' ≠ b) : ∀ j ∈ (ts b').nodes, j ∉ (ts b).nodes ++ fs := by
  have hnd := hI.partition.nodup_iff.mpr nodup_range
  rw [((flatMap_split (fun b => (ts b).nodes) hb).append_right fs).nodup_iff, append_assoc,
    (List.Perm.append_left _ perm_append_comm).nodup_iff, ← append_assoc] at hnd
  have hmem : b' ∈ (List.range h.nBuckets).erase b :=
    (mem_erase_of_ne hne).mpr (mem_range.mpr hb')
  exact fun j hj hj' => (nodup_append.mp hnd).2.2 j hj' j (mem_flatMap.mpr ⟨b', hmem, hj⟩) rfl

/-- The tree of one bucket is replaced by one of the same nodes and free nodes. -/
theorem update (hI : HashInv h ts fs) (hb : b < h.nBuckets)
    (hin : InPool h.core o' root' t' fs') (hbal : t'.Balanced)
    (hplaced : ∀ v ∈ t'.elems, hash v % h.nBuckets = b)
    (hnodes : (t'.nodes ++ fs').Perm ((ts b).nodes ++ fs))
    (hcount : o'.count + (ts b).nodes.length = h.count + t'.nodes.length)
    (hsame : ∀ j ∉ (ts b).nodes ++ fs, h.pool.SameAt o'.pool j) :
    HashInv (h.withBucket b o' root') (Function.update ts b t') fs' := by
  have hold := flatMap_split (fun b => (ts b).nodes) hb
  have hnew := flatMap_update ts LinkedTree.nodes t' hb
  have hperm : (((List.range h.nBuckets).flatMap fun i => (Function.update ts b t' i).nodes) ++
      fs').Perm (((List.range h.nBuckets).flatMap fun b => (ts b).nodes) ++ fs) := by
    refine (hnew.append_right fs').trans (List.Perm.trans ?_ (hold.append_right fs).symm)
    rw [append_assoc, append_assoc]
    refine (List.Perm.append_left _ perm_append_comm).trans
      (List.Perm.trans ?_ (List.Perm.append_left _ perm_append_comm))
    rw [← append_assoc, ← append_assoc]
    exact hnodes.append_right _
  refine ⟨fun b' hb' => ?_, fun b' hb' => ?_, fun b' hb' => ?_, hperm.trans hI.partition, ?_⟩
  · by_cases hne : b' = b
    · subst hne
      simpa using hin
    · have hp := hI.inPool b' hb'
      have hap := hI.apart hb hb' hne
      have hfs : ∀ j ∈ fs', j ∈ (ts b).nodes ++ fs := fun j hj =>
        hnodes.mem_iff.mp (mem_append_right _ hj)
      rw [AvlHash.withBucket_core, AvlHash.withBucket_owner, AvlHash.withBucket_buckets,
        Function.update_of_ne hne, Function.update_of_ne hne]
      refine ⟨hp.rooted.congr fun j hj => hsame j (hap j hj), hp.increasing, hin.free,
        nodup_append.mpr ⟨hp.rooted.nodup, (nodup_append.mp hin.nodup).2.1,
          fun i hi j hj e => hap i hi (hfs i (e ▸ hj))⟩, fun i hi => ?_, hp.capacity⟩
      rcases mem_append.mp hi with hi | hi
      · exact hp.bound i (mem_append_left _ hi)
      · exact hin.bound i (mem_append_right _ hi)
  · by_cases hne : b' = b
    · subst hne
      rwa [Function.update_self]
    · rw [Function.update_of_ne hne]
      exact hI.balanced b' hb'
  · by_cases hne : b' = b
    · subst hne
      rwa [Function.update_self]
    · rw [Function.update_of_ne hne]
      exact hI.placed b' hb'
  · have hcount₀ := hI.count
    rw [hold.length_eq, length_append] at hcount₀
    rw [AvlHash.withBucket_nBuckets, AvlHash.withBucket_count, hnew.length_eq, length_append]
    omega

end Update

section Step

variable {op : HashOp α} {v key : α} (hI : HashInv h ts fs) (hc : Comparator cmp)
  (hh : ∀ a b, cmp a b = 0 → hash a = hash b) (hn : 0 < h.nBuckets)
  (hs : (bucketElems ts h.nBuckets).Perm s.elems)

include hn in
theorem bucketOf_lt (key : α) : bucketOf h key < h.nBuckets := Nat.mod_lt _ hn

include hc hs in
theorem find?_of_bucket (hb : b < h.nBuckets) (hv : v ∈ (ts b).elems) (h0 : cmp key v = 0) :
    v ∈ s.elems ∧ s.find? key = some v := by
  have hm : v ∈ s.elems :=
    hs.mem_iff.mp (mem_flatMap.mpr ⟨b, mem_range.mpr hb, hv⟩)
  exact ⟨hm, OrderedSet.find?_of_mem hc hm h0⟩

include hI hh hs in
/-- A key that its bucket misses is missing: equal keys have one bucket. -/
theorem find?_of_bucket_none (hne : ∀ w ∈ (ts (bucketOf h key)).elems, cmp key w ≠ 0) :
    s.find? key = none := by
  refine OrderedSet.find?_eq_none.mpr fun w hw h0 => ?_
  obtain ⟨b, hb, hwb⟩ := mem_flatMap.mp (hs.mem_iff.mpr hw)
  have hbucket : b = bucketOf h key := by
    rw [← hI.placed b (mem_range.mp hb) w hwb, bucketOf, hh key w h0]
  exact hne w (hbucket ▸ hwb) h0

include hI hc hh hn hs in
theorem find_eq (key : α) :
    (∃ i v, avlCoreFind h.core h.pool (h.buckets (bucketOf h key)) key = some i ∧
      i ≠ AVLHASH_NIL ∧ h.pool.payload i = v ∧ s.find? key = some v) ∨
    (avlCoreFind h.core h.pool (h.buckets (bucketOf h key)) key = some AVLHASH_NIL ∧
      s.find? key = none) := by
  have hb := bucketOf_lt hn key
  have hp := hI.inPool _ hb
  rcases hp.find hc key with ⟨A, i, v, B, he, hv, hfind⟩ | ⟨hne, hfind⟩
  · have hm : (i, v) ∈ (ts (bucketOf h key)).entries := by simp [he]
    have h0 : i ≠ nilIdx := fun e => hp.rooted.nil_notin (mem_map.mpr ⟨_, hm, e⟩)
    have hvm : v ∈ (ts (bucketOf h key)).elems := mem_map.mpr ⟨_, hm, rfl⟩
    exact .inl ⟨i, v, hfind, h0, payload_of_mem hp.rooted hm, (find?_of_bucket hc hs hb hvm hv).2⟩
  · exact .inr ⟨hfind, find?_of_bucket_none hI hh hs hne⟩

include hI hs in
theorem read_sound (hop : (s.step hc h.capacity op.toSetOp).1 = s)
    (hread : avlhashStep h op = some (h, (s.step hc h.capacity op.toSetOp).2)) :
    ∃ h' ts' fs', avlhashStep h op = some (h', (s.step hc h.capacity op.toSetOp).2) ∧
      HashStep hc h ts s op h' ts' fs' :=
  ⟨h, ts, fs, hread, hI, by rw [hop]; exact hs, rfl, rfl,
    fun _ _ _ => ⟨rfl, rfl, fun _ _ => SameAt.refl ..⟩⟩

theorem length_bucketElems (ts : Nat → LinkedTree α) (n : Nat) :
    (bucketElems ts n).length = ((List.range n).flatMap fun b => (ts b).nodes).length := by
  simp [bucketElems, length_flatMap, length_nodes]

include hI hs in
theorem length_add_free : s.elems.length + fs.length = h.capacity := by
  rw [← hs.length_eq, length_bucketElems, ← length_append, hI.partition.length_eq,
    length_range]

include hI in
theorem others_kept {o' : AvlOwner α} {root' : Nat} {t' : LinkedTree α} (hb : b < h.nBuckets)
    (hsame : ∀ j ∉ (ts b).nodes ++ fs, h.pool.SameAt o'.pool j) :
    OthersKept h ts b (h.withBucket b o' root') (Function.update ts b t') := by
  intro b' hb' hne
  rw [AvlHash.withBucket_buckets, Function.update_of_ne hne, Function.update_of_ne hne]
  exact ⟨rfl, rfl, fun i hi => hsame i (hI.apart hb hb' hne i hi)⟩

include hI hh hn hs in
theorem insert_sound (elem : α) : ∃ h' ts' fs',
    avlhashStep h (.insert elem) = some (h', (s.step hc h.capacity (.insert elem)).2) ∧
      HashStep hc h ts s (.insert elem) h' ts' fs' := by
  have hb := bucketOf_lt hn elem
  have hlen := hI.length_add_free hs
  rcases avlCoreInsert_eq elem true hc (hI.inPool _ hb)
    (fun _ => hI.balanced _ hb) with
    ⟨hwhy, hins⟩ | ⟨n, fs', o', root', t', rfl, hins, hIns, hbal⟩
  · have hfail : (s.find? elem).isSome ∨ h.capacity ≤ s.elems.length := by
      rcases hwhy with ⟨w, hw, hw0⟩ | rfl
      · rw [(find?_of_bucket hc hs hb hw hw0).2]
        exact .inl rfl
      · exact .inr (Nat.le_of_eq hlen.symm)
    refine hI.read_sound hc hs ?_ ?_
    · rw [HashOp.toSetOp, OrderedSet.step, if_pos hfail]
    · rw [HashOp.toSetOp, OrderedSet.step, if_pos hfail, avlhashStep, avlhashInsert, hins]
      exact congrArg (fun h' => some (h', SetReply.done false)) (AvlHash.withBucket_self h)
  · obtain ⟨l₁, l₂, hold, h₁, h₂, hnew⟩ := hIns.elems
    have hne : ∀ w ∈ (ts (bucketOf h elem)).elems, cmp elem w ≠ 0 := fun w hw => by
      rw [hold, mem_append] at hw
      exact hw.elim (fun hw => Int.ne_of_gt (h₁ w hw)) fun hw => Int.ne_of_lt (h₂ w hw)
    have hnone := hI.find?_of_bucket_none hh hs hne
    have hroom : ¬((s.find? elem).isSome ∨ h.capacity ≤ s.elems.length) := by
      rw [length_cons] at hlen
      rw [hnone]
      exact not_or.mpr ⟨Bool.false_ne_true, by omega⟩
    have hsame : ∀ j ∉ (ts (bucketOf h elem)).nodes ++ n :: fs', h.pool.SameAt o'.pool j :=
      fun j hj => hIns.same j fun hm => hj (by
        rcases mem_cons.mp hm with rfl | hm
        · simp
        · simp [hm])
    refine ⟨h.withBucket (bucketOf h elem) o' root', _, fs', ?_, hI.update hb hIns.inPool
      (hbal rfl) (fun v hv => ?_) ((hIns.nodes.append_right fs').trans perm_middle.symm) ?_ hsame,
      ?_, rfl, rfl, hI.others_kept hb hsame⟩
    · rw [OrderedSet.step, if_neg hroom, avlhashStep, avlhashInsert, hins]
      rfl
    · rw [hnew, mem_append, mem_cons] at hv
      rcases hv with hv | rfl | hv
      · exact hI.placed _ hb v (by simp [hold, hv])
      · rfl
      · exact hI.placed _ hb v (by simp [hold, hv])
    · have hcount : o'.count = h.count + 1 := hIns.count
      rw [hIns.nodes.length_eq, length_cons, hcount]
      omega
    · rw [HashOp.toSetOp, OrderedSet.step, if_neg hroom]
      have hcons : t'.elems.Perm (elem :: (ts (bucketOf h elem)).elems) := by
        rw [hnew, hold]
        exact perm_middle
      exact (flatMap_update ts LinkedTree.elems t' hb).trans (((hcons.append_right _).trans
        (List.Perm.cons elem ((flatMap_split (fun b => (ts b).elems) hb).symm.trans hs))).trans
        (OrderedSet.insert_perm hc hnone).symm)

include hI hh hn hs in
theorem remove_sound (key : α) : ∃ h' ts' fs',
    avlhashStep h (.remove key) = some (h', (s.step hc h.capacity (.remove key)).2) ∧
      HashStep hc h ts s (.remove key) h' ts' fs' := by
  have hb := bucketOf_lt hn key
  rcases avlCoreRemove_eq key true hc (hI.inPool _ hb)
    (fun _ => hI.balanced _ hb) with ⟨hne, hrem⟩ | ⟨out, n, o', root', t', hrem, hRem, hbal⟩
  · have hnone := hI.find?_of_bucket_none hh hs hne
    refine hI.read_sound hc hs ?_ ?_
    · rw [HashOp.toSetOp, OrderedSet.step, OrderedSet.remove_of_none hnone]
    · rw [HashOp.toSetOp, OrderedSet.step, hnone, avlhashStep, avlhashRemove, hrem]
      exact congrArg (fun h' => some (h', SetReply.elem none)) (AvlHash.withBucket_self h)
  · obtain ⟨l₁, l₂, hold, hout, hnew⟩ := hRem.elems
    obtain ⟨hmem, hsome⟩ := find?_of_bucket hc hs hb (v := out) (by simp [hold]) hout
    have hsame : ∀ j ∉ (ts (bucketOf h key)).nodes ++ fs, h.pool.SameAt o'.pool j :=
      fun j hj => hRem.same j fun hm => hj (mem_append_left _ hm)
    refine ⟨h.withBucket (bucketOf h key) o' root', _, n :: fs, ?_, hI.update hb hRem.inPool
      (hbal rfl) (fun v hv => hI.placed _ hb v ?_)
      (perm_middle.trans (hRem.nodes.append_right fs)) ?_ hsame, ?_, rfl, rfl,
      hI.others_kept hb hsame⟩
    · rw [OrderedSet.step, hsome, avlhashStep, avlhashRemove, hrem]
      rfl
    · rw [hnew, mem_append] at hv
      rw [hold]
      rcases hv with hv | hv
      · simp [hv]
      · simp [hv]
    · have hlen := hRem.nodes.length_eq
      have hcount : o'.count = h.count - 1 := hRem.count
      have hold := hI.count
      rw [(flatMap_split (fun b => (ts b).nodes) hb).length_eq, length_append] at hold
      rw [length_cons] at hlen
      omega
    · have hcons : (ts (bucketOf h key)).elems.Perm (out :: t'.elems) := by
        rw [hnew, hold]
        exact perm_middle
      refine List.Perm.cons_inv (a := out) (List.Perm.trans ?_ (OrderedSet.remove_perm hc hmem hout))
      refine ((flatMap_update ts LinkedTree.elems t' hb).cons out).trans ?_
      exact ((hcons.symm.append_right _).trans
        (flatMap_split (fun b => (ts b).elems) hb).symm).trans hs

include hI hc hh hn hs in
theorem step_sound (op : HashOp α) : ∃ h' ts' fs',
    avlhashStep h op = some (h', (s.step hc h.capacity op.toSetOp).2) ∧
      HashStep hc h ts s op h' ts' fs' := by
  cases op with
  | insert elem => exact hI.insert_sound hc hh hn hs elem
  | remove key => exact hI.remove_sound hc hh hn hs key
  | find key =>
    refine hI.read_sound hc hs rfl ?_
    rcases hI.find_eq hc hh hn hs key with ⟨i, v, hfind, h0, hpay, hsome⟩ | ⟨hfind, hnone⟩
    · simp [avlhashStep, avlhashFind, hfind, h0, hpay, HashOp.toSetOp, OrderedSet.step, hsome]
    · simp [avlhashStep, avlhashFind, hfind, HashOp.toSetOp, OrderedSet.step, hnone]
  | contains key =>
    refine hI.read_sound hc hs rfl ?_
    rcases hI.find_eq hc hh hn hs key with ⟨i, v, hfind, h0, hpay, hsome⟩ | ⟨hfind, hnone⟩
    · simp [avlhashStep, avlhashContains, hfind, h0, HashOp.toSetOp, OrderedSet.step, hsome]
    · simp [avlhashStep, avlhashContains, hfind, HashOp.toSetOp, OrderedSet.step, hnone]

end Step

/-! ### Traversal -/

variable (hI : HashInv h ts fs)

include hI

theorem visitBucket_eq (hb : b < h.nBuckets) {A l : List (Nat × α)} {fuel : Nat}
    (he : (ts b).entries = A ++ l) (hfuel : l.length < fuel) :
    visitBucket h fuel (firstIdx l) = some (l.map Prod.snd) := by
  have hp := hI.inPool b hb
  induction l generalizing A fuel with
  | nil =>
    obtain ⟨fuel, rfl⟩ : ∃ n, fuel = n + 1 := ⟨fuel - 1, by simp at hfuel; omega⟩
    simp [visitBucket]
  | cons p l ih =>
    obtain ⟨fuel, rfl⟩ : ∃ n, fuel = n + 1 := ⟨fuel - 1, by simp at hfuel; omega⟩
    obtain ⟨i, v⟩ := p
    have hm : (i, v) ∈ (ts b).entries := by simp [he]
    have hi : i ∈ (ts b).nodes := mem_map.mpr ⟨_, hm, rfl⟩
    have h0 : i ≠ nilIdx := fun e => hp.rooted.nil_notin (e ▸ hi)
    have hnext : avlCoreNext h.core h.pool i = some (firstIdx l) := avlCoreNext_eq hp.rooted
      hp.length_le (hp.bound i (mem_append_left _ hi)) he
    have hrest : visitBucket h fuel (firstIdx l) = some (l.map Prod.snd) :=
      ih (A := A ++ [(i, v)]) (by simp [he]) (by simpa using hfuel)
    have hpay : h.pool.payload i = v := payload_of_mem hp.rooted hm
    simp [visitBucket, h0, hnext, hrest, hpay]

theorem foreach_eq : avlhashForeach h = some (bucketElems ts h.nBuckets) := by
  suffices hs : ∀ bs : List Nat, (∀ b ∈ bs, b < h.nBuckets) →
      visitBuckets h bs = some (bs.flatMap fun b => (ts b).elems) from
    hs _ fun b hb => mem_range.mp hb
  intro bs hbs
  induction bs with
  | nil => rfl
  | cons b bs ih =>
    have hp := hI.inPool b (hbs b (by simp))
    have hlen := hp.length_le
    rw [LinkedTree.nodes, length_map] at hlen
    have hmin : avlCoreMin h.core h.pool (h.buckets b) = some (firstIdx (ts b).entries) :=
      avlCoreMin_eq hp.rooted hp.length_le
    have hvisit : visitBucket h (h.capacity + 1) (firstIdx (ts b).entries) = some (ts b).elems :=
      hI.visitBucket_eq (hbs b (by simp)) (A := []) rfl (Nat.lt_succ_of_le hlen)
    have hrest := ih fun b hb => hbs b (by simp [hb])
    simp only [visitBuckets, hmin, Option.bind_some]
    rw [hvisit, Option.bind_some, hrest]
    rfl

end HashInv

/-! ## Runs -/

theorem clearBuckets_apply (buckets : Nat → Nat) {n i : Nat} (hi : i < n) :
    clearBuckets buckets n i = AVLHASH_NIL := by
  unfold clearBuckets
  induction n with
  | zero => exact absurd hi (Nat.not_lt_zero i)
  | succ n ih =>
    rw [range_succ, foldl_append, foldl_cons, foldl_nil,
      Function.update_apply]
    split
    · rfl
    · exact ih (by omega)

theorem avlhashInit_inv {buckets : Nat → Nat} {nBuckets : Nat} {pool : Links α}
    {poolBytes elementSize : Nat}
    (h : avlhashInit buckets nBuckets hash cmp pool poolBytes elementSize = some h₀) :
    HashInv h₀ (fun _ => .nil) (List.range h₀.capacity) ∧ 0 < h₀.nBuckets ∧
      h₀.capacity = poolBytes / (AVLHASH_NODE_OVERHEAD + elementSize) := by
  unfold avlhashInit at h
  split at h
  · exact absurd h (Option.some_ne_none _).symm
  · next hargs =>
    dsimp only at h
    split at h
    · exact absurd h (Option.some_ne_none _).symm
    · next hcap =>
      obtain rfl := Option.some.inj h
      have hroot : ∀ b < nBuckets, clearBuckets buckets nBuckets b = AVLHASH_NIL :=
        fun b hb => clearBuckets_apply buckets hb
      have hnil : (List.range nBuckets).flatMap (fun _ => (.nil : LinkedTree α).nodes) = [] :=
        flatMap_eq_nil_iff.mpr fun _ _ => rfl
      refine ⟨⟨fun b hb => ?_, fun _ _ => trivial, fun _ _ _ hv => absurd hv not_mem_nil, ?_, ?_⟩,
        Nat.pos_of_ne_zero (not_or.mp hargs).1, rfl⟩
      · exact
          { rooted := ⟨hroot b hb, trivial, nodup_nil, not_mem_nil⟩
            increasing := List.Pairwise.nil
            free := buildFreelist_free pool _
            nodup := nodup_range
            bound := fun _ hi => mem_range.mp hi
            capacity := Nat.not_le.mp (not_or.mp hcap).2 }
      · exact List.Perm.of_eq (congrArg (· ++ List.range _) hnil)
      · exact (congrArg List.length hnil).symm

theorem HashInv.run_replies (hc : Comparator cmp) (hh : ∀ a b, cmp a b = 0 → hash a = hash b)
    (hI : HashInv h ts fs) (hn : 0 < h.nBuckets) (hs : (bucketElems ts h.nBuckets).Perm s.elems)
    (ops : List (HashOp α)) : ∃ h' ts' fs',
      avlhashRun h ops = some (h', (s.run hc h.capacity (ops.map HashOp.toSetOp)).2) ∧
      HashInv h' ts' fs' ∧ 0 < h'.nBuckets ∧ h'.capacity = h.capacity ∧
      (bucketElems ts' h'.nBuckets).Perm
        (s.run hc h.capacity (ops.map HashOp.toSetOp)).1.elems := by
  induction ops generalizing h ts fs s with
  | nil => exact ⟨h, ts, fs, rfl, hI, hn, rfl, hs⟩
  | cons op ops ih =>
    obtain ⟨h₁, ts₁, fs₁, hstep, hS⟩ := hI.step_sound hc hh hn hs op
    obtain ⟨h₂, ts₂, fs₂, hrun, hI₂, hn₂, hcap₂, hs₂⟩ :=
      ih hS.inv (hS.nBuckets ▸ hn) hS.elems
    rw [hS.capacity] at hrun hs₂
    refine ⟨h₂, ts₂, fs₂, ?_, hI₂, hn₂, hcap₂.trans hS.capacity, hs₂⟩
    simp only [avlhashRun, hstep, Option.bind_some, hrun]
    rfl

/-- After any history the trees of the buckets and the free list divide the pool, the replies are
those of one set, a traversal visits each of its elements once, and the next operation leaves the
trees of the other buckets as they are. -/
theorem avlhash_refines_set (hc : Comparator cmp) (hh : ∀ a b, cmp a b = 0 → hash a = hash b)
    {buckets : Nat → Nat} {nBuckets : Nat} {pool : Links α} {poolBytes elementSize : Nat}
    (h₀init : avlhashInit buckets nBuckets hash cmp pool poolBytes elementSize = some h₀)
    (ops : List (HashOp α)) :
    let s := OrderedSet.empty.run hc (poolBytes / (AVLHASH_NODE_OVERHEAD + elementSize))
      (ops.map HashOp.toSetOp)
    ∃ h ts fs, avlhashRun h₀ ops = some (h, s.2) ∧ HashInv h ts fs ∧
      (∃ l, avlhashForeach h = some l ∧ l.Perm s.1.elems ∧ l.Nodup) ∧
      ∀ op, ∃ h' ts' fs' reply, avlhashStep h op = some (h', reply) ∧ HashInv h' ts' fs' ∧
        OthersKept h ts (bucketOf h op.key) h' ts' := by
  intro s
  obtain ⟨hI₀, hn₀, hcap₀⟩ := avlhashInit_inv h₀init
  have hs₀ : (bucketElems (fun _ => (.nil : LinkedTree α)) h₀.nBuckets).Perm
      (OrderedSet.empty : OrderedSet cmp).elems := by
    simp [bucketElems, LinkedTree.elems, OrderedSet.empty]
  obtain ⟨h, ts, fs, hrun, hI, hn, -, hs⟩ := hI₀.run_replies hc hh hn₀ hs₀ ops
  rw [hcap₀] at hrun hs
  refine ⟨h, ts, fs, hrun, hI, ⟨_, hI.foreach_eq, hs, ?_⟩, fun op => ?_⟩
  · exact hs.nodup_iff.mpr (s.1.increasing.nodup hc)
  · obtain ⟨h', ts', fs', hstep, hS⟩ := hI.step_sound hc hh hn hs op
    exact ⟨h', ts', fs', _, hstep, hS.inv, hS.others⟩

/-- The last byte of the magnitude. -/
def hashInt (a : Int) : Nat := a.natAbs % 256

theorem avlhash_refines_set_small :
    ∃ h₀, avlhashInit (fun _ => 0) 4 hashInt compareInt zeroPool 60 4 = some h₀ ∧
      let ops := [.insert 1, .insert 5, .insert 2, .remove 1, .contains 5]
      let s := OrderedSet.empty.run compareInt_comparator (60 / (AVLHASH_NODE_OVERHEAD + 4))
        (ops.map HashOp.toSetOp)
      ∃ h ts fs, avlhashRun h₀ ops = some (h, s.2) ∧ HashInv h ts fs ∧
        (∃ l, avlhashForeach h = some l ∧ l.Perm s.1.elems ∧ l.Nodup) ∧
        ∀ op, ∃ h' ts' fs' reply, avlhashStep h op = some (h', reply) ∧ HashInv h' ts' fs' ∧
          OthersKept h ts (bucketOf h op.key) h' ts' := by
  have hinit : avlhashInit (fun _ => 0) 4 hashInt compareInt zeroPool 60 4 = some _ := rfl
  have hh : ∀ a b, compareInt a b = 0 → hashInt a = hashInt b := fun a b hab => by
    rw [Int.sub_eq_zero.mp hab]
  exact ⟨_, hinit, avlhash_refines_set compareInt_comparator hh hinit _⟩

end Microgarbage.Containers
