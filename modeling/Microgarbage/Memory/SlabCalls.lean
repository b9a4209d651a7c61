import Microgarbage.Memory.SlabState

/-!
# What the calls do to the pool

`slab_alloc` takes the top block of a bin, `slab_free` gives a live block back and rejects any
other pointer, `slab_realloc` is made of the two. Each keeps the invariant and says which bytes it
writes.
-/

namespace Microgarbage.Memory

open Lib List

/-! ## The bitmap -/

theorem hasFree_eq (a : SlabAllocator) (i : Bin) : a.hasFree i = a.bitmap.getLsbD i.val :=
  and_bit_ne_zero a.bitmap (by omega)

theorem hasFree_set (a : SlabAllocator) (i j : Bin) :
    (a.bitmap ||| 1#32 <<< i.val).getLsbD j.val = (decide (j = i) || a.hasFree j) := by
  rw [getLsbD_set_bit _ _ (by omega), hasFree_eq]
  simp only [Fin.ext_iff]

theorem hasFree_clear (a : SlabAllocator) (i j : Bin) :
    (a.bitmap &&& ~~~(1#32 <<< i.val)).getLsbD j.val = (!decide (j = i) && a.hasFree j) := by
  rw [getLsbD_clear_bit _ _ (by omega), hasFree_eq]
  simp only [Fin.ext_iff]

/-! ## Writes apart -/

section Writes

variable {a : SlabAllocator} {mem mem' : Mem}

theorem stackOf_congr {a' : SlabAllocator} {i : Bin} (hstack : (a'.bins i).stack = (a.bins i).stack)
    (htop : (a'.bins i).top = (a.bins i).top)
    (hm : SameBytes mem mem' (a.bins i).stack (8 * (a.bins i).top.toNat)) :
    stackOf a' mem' i = stackOf a mem i := by
  unfold stackOf
  rw [hstack, htop]
  refine map_congr_left fun k hk => congrArg BitVec.toNat (hm.load64 ?_ ?_)
  · omega
  · have hlt := mem_range.mp hk
    omega

theorem Placed.header_stack (h : Placed a) {i j : Bin} {k n : Nat} (hk : k < count a i)
    {v : BitVec 32} (hn : n ≤ count a j) :
    SameBytes mem (mem.store (blockStart a i k) 4 v) (a.bins j).stack (8 * n) := by
  intro x hx hx'
  refine Mem.store_out (.inl ?_)
  by_cases hj : count a j = 0
  · omega
  · have hs := h.block_stack hk hj
    unfold stackEnd at hs
    omega

theorem Placed.header_header (h : Placed a) {i j : Bin} {k l : Nat} (hk : k < count a i)
    (hl : l < count a j) (v : BitVec 32) :
    (mem.store (blockStart a i k) 4 v).load32 (blockStart a j l) =
        (if i = j ∧ k = l then v else mem.load32 (blockStart a j l)) ∧
      (mem.store (blockStart a i k) 4 v).load32 (blockStart a j l + 4) =
        mem.load32 (blockStart a j l + 4) := by
  by_cases he : i = j ∧ k = l
  · obtain ⟨rfl, rfl⟩ := he
    rw [if_pos ⟨rfl, rfl⟩]
    exact ⟨Mem.load32_store .., Mem.load32_store_out (.inr (Nat.le_refl _))⟩
  · rw [if_neg he]
    have hd := h.blocks_disjoint hk hl he
    unfold blockTotal slabHeaderSize at hd
    exact ⟨Mem.load32_store_out (by omega), Mem.load32_store_out (by omega)⟩

end Writes

/-! ## Headers and live blocks -/

/-- The headers are those of an allocator whose clients hold `live`. -/
def HeadersAgree (a : SlabAllocator) (mem : Mem) (live : List Nat) : Prop :=
  ∀ i k, k < count a i → mem.load32 (blockStart a i k + 4) = BitVec.ofNat 32 i.val ∧
    mem.load32 (blockStart a i k) = magicOf (decide (payload a i k ∈ live))

section Headers

variable {a a' : SlabAllocator} {mem mem' : Mem} {live live' : List Nat}

theorem HeadersAgree.blockSize (h : HeadersAgree a mem live) (hp : Placed a) {i : Bin} {k : Nat}
    (hk : k < count a i) (hlive : payload a i k ∈ live) :
    slabBlockSize a mem (payload a i k) = (a.bins i).blockSize := by
  obtain ⟨hbin, hmagic⟩ := h i k hk
  rw [decide_eq_true hlive] at hmagic
  exact hp.blockSize_block hk hmagic hbin

/-- One magic word is written anew, for the block that comes or goes. -/
theorem SlabInv.stamp (h : SlabInv a mem live) (hs : SameShape a a') {i : Bin} {k : Nat}
    (hk : k < count a i) (hheads : ∀ j l, l < count a j → SameBytes mem mem' (blockStart a j l) 8)
    (hlive : ∀ p, p ≠ payload a i k → (p ∈ live' ↔ p ∈ live)) {v : BitVec 32}
    (hv : v = magicOf (decide (payload a i k ∈ live'))) :
    HeadersAgree a' (mem'.store (blockStart a i k) 4 v) live' := by
  intro j l hl
  rw [hs.count] at hl
  have hkept := hheads j l hl
  rw [hs.start, hs.payload, (h.placed.header_header hk hl _).1, (h.placed.header_header hk hl _).2,
    hkept.load32 (by omega) (by omega)]
  refine ⟨h.bin j l hl, ?_⟩
  split
  · next he =>
    obtain ⟨rfl, rfl⟩ := he
    exact hv
  · next he =>
    have hne : payload a j l ≠ payload a i k := fun e => he (h.placed.payload_inj hk hl e.symm)
    rw [hkept.load32 (by omega) (by omega), h.magic j l hl, decide_eq_decide.mpr (hlive _ hne)]

theorem SlabInv.sizes (h : SlabInv a mem live) (hs : SameShape a a')
    (hheads : HeadersAgree a' mem' live') {ps : List Nat} (hps : ∀ p ∈ ps, p ∈ live ∧ p ∈ live') :
    ps.map (slabBlockSize a' mem') = ps.map (slabBlockSize a mem) := by
  refine map_congr_left fun p hp => ?_
  obtain ⟨hl, hl'⟩ := hps p hp
  obtain ⟨j, l, hlt, rfl, -⟩ := h.live_block hl
  rw [h.blockSize_live hlt hl, ← hs.payload, ← hs.blockSize]
  refine hheads.blockSize (hs.placed h.placed) (hs.count j ▸ hlt) ?_
  rw [hs.payload]
  exact hl'

end Headers

/-! ## Taking a block -/

section Pop

variable {a : SlabAllocator} {mem : Mem} {live : List Nat}

/-- Which bytes an allocation writes: the magic word of the block it returns. -/
structure Popped (a : SlabAllocator) (mem : Mem) (live : List Nat) (i : Bin) (k : Nat)
    (r : Nat × SlabAllocator × Mem) : Prop where
  block : k < count a i
  result : r.1 = payload a i k
  fresh : r.1 ∉ live
  shape : SameShape a r.2.1
  inv : SlabInv r.2.1 r.2.2 (r.1 :: live)
  writes : ∀ x, x < blockStart a i k ∨ blockStart a i k + 4 ≤ x → r.2.2 x = mem x

theorem clearEmpty_bins (a : SlabAllocator) (i : Bin) (top : BitVec 16) :
    (a.clearEmpty i top).bins = a.bins ∧ (a.clearEmpty i top).region = a.region ∧
      (a.clearEmpty i top).regionBytes = a.regionBytes ∧
      (a.clearEmpty i top).totalBytesInUse = a.totalBytesInUse := by
  unfold SlabAllocator.clearEmpty
  split <;> exact ⟨rfl, rfl, rfl, rfl⟩

theorem clearEmpty_hasFree (a : SlabAllocator) (i j : Bin) (top : BitVec 16) :
    (a.clearEmpty i top).bitmap.getLsbD j.val =
      (a.hasFree j && !(decide (j = i) && decide (top = 0))) := by
  unfold SlabAllocator.clearEmpty
  by_cases ht : top = 0
  · rw [if_pos ht, hasFree_clear, decide_eq_true ht, Bool.and_true, Bool.and_comm]
  · rw [if_neg ht, ← hasFree_eq, decide_eq_false ht, Bool.and_false, Bool.not_false, Bool.and_true]

theorem slabPop_bins (a : SlabAllocator) (mem : Mem) (i j : Bin) :
    (slabPop a mem i).2.1.bins j =
      if j = i then
        { a.bins i with
          top := (a.bins i).top - 1
          blocksInUse := (a.bins i).blocksInUse + 1
          peakInUse := if (a.bins i).peakInUse < (a.bins i).blocksInUse + 1
            then (a.bins i).blocksInUse + 1 else (a.bins i).peakInUse }
      else a.bins j := by
  unfold slabPop SlabAllocator.accountAlloc SlabAllocator.setBin
  dsimp only
  rw [(clearEmpty_bins a i _).1]
  exact Function.update_apply ..

theorem slabPop_shape (a : SlabAllocator) (mem : Mem) (i : Bin) :
    SameShape a (slabPop a mem i).2.1 := by
  have hbins := slabPop_bins a mem i
  obtain ⟨-, hr, hb, -⟩ := clearEmpty_bins a i ((a.bins i).top - 1)
  refine ⟨hr, hb, fun j => ?_, fun j => ?_, fun j => ?_, fun j => ?_⟩
  all_goals
    rw [hbins]
    split
    · next hj => rw [hj]
    · rfl

/-- What lies below the top of a stack. -/
def belowTop (a : SlabAllocator) (mem : Mem) (i : Bin) : List Nat :=
  (List.range ((a.bins i).top - 1).toNat).map fun k =>
    (mem.load64 ((a.bins i).stack + 8 * k)).toNat

theorem SlabInv.top_pred (h : SlabInv a mem live) {i : Bin} (hf : a.hasFree i = true) :
    (a.bins i).top.toNat = ((a.bins i).top - 1).toNat + 1 := by
  have htop : (a.bins i).top ≠ 0 := by simpa [h.bitmap i] using hf
  have hpos : 0 < (a.bins i).top.toNat := Nat.pos_of_ne_zero fun e => htop (BitVec.eq_of_toNat_eq e)
  have h1 : (1 : BitVec 16).toNat = 1 := rfl
  have hlt := (a.bins i).top.isLt
  rw [BitVec.toNat_sub, h1]
  omega

/-- An allocation returns the block on top of the stack. -/
theorem SlabInv.pop_block (h : SlabInv a mem live) {i : Bin} (hf : a.hasFree i = true) :
    ∃ k, k < count a i ∧ (slabPop a mem i).1 = payload a i k ∧ payload a i k ∉ live ∧
      stackOf a mem i = belowTop a mem i ++ [payload a i k] := by
  have hstack : stackOf a mem i = belowTop a mem i ++ [(slabPop a mem i).1] := by
    unfold stackOf
    rw [h.top_pred hf, range_succ, map_append]
    rfl
  obtain ⟨hblock, hfresh⟩ := h.pool.top (i := i) hstack
  obtain ⟨k, hk, hkb⟩ := mem_blocksOf.mp hblock
  rw [← hkb] at hstack hfresh
  exact ⟨k, hk, hkb.symm, hfresh, hstack⟩

/-- The stacks after the top of one is taken and a header is written. -/
theorem SlabInv.pop_stacks (h : SlabInv a mem live) {a' : SlabAllocator} (hs : SameShape a a')
    {i : Bin} {k : Nat} (hk : k < count a i) (hpos : (a.bins i).top.toNat =
      ((a.bins i).top - 1).toNat + 1) {b : Nat} (hstack : stackOf a mem i = belowTop a mem i ++ [b])
    (htop : ∀ j, (a'.bins j).top = if j = i then (a.bins i).top - 1 else (a.bins j).top)
    (v : BitVec 32) : stackOf a' (mem.store (blockStart a i k) 4 v) =
      (Pool.take ⟨stackOf a mem, live⟩ i b).free := by
  funext j
  refine Eq.trans ?_ (Function.update_apply ..).symm
  have hc := h.counts j
  split
  · next hj =>
    subst hj
    have hlast := htop j
    rw [if_pos rfl] at hlast
    dsimp only
    rw [hstack, dropLast_concat]
    unfold stackOf belowTop
    rw [hs.stack, hlast]
    refine map_congr_left fun n hn => congrArg BitVec.toNat ?_
    have hlt := mem_range.mp hn
    exact (h.placed.header_stack (j := j) (n := n + 1) hk (by unfold count; omega)).load64
      (by omega) (by omega)
  · next hj =>
    exact stackOf_congr (hs.stack j) ((htop j).trans (if_neg hj))
      (h.placed.header_stack hk (by unfold count; omega))

theorem slabPop_spec (h : SlabInv a mem live) {i : Bin} (hf : a.hasFree i = true) :
    ∃ k, Popped a mem live i k (slabPop a mem i) := by
  obtain ⟨k, hk, hb, hfresh, hstack⟩ := h.pop_block hf
  have hblock : payload a i k ∈ blocksOf a i := mem_blocksOf.mpr ⟨k, hk, rfl⟩
  have hmem : (slabPop a mem i).2.2 = mem.store (blockStart a i k) 4 slabMagicAllocated := by
    rw [← h.placed.headerOf_payload hk, ← hb]
    unfold slabPop
    dsimp only
  have hshape := slabPop_shape a mem i
  have hbins := slabPop_bins a mem i
  have hbitmap : ∀ j, (slabPop a mem i).2.1.bitmap.getLsbD j.val =
      (a.hasFree j && !(decide (j = i) && decide ((a.bins i).top - 1 = 0))) :=
    fun j => clearEmpty_hasFree a i j _
  have htotal : (slabPop a mem i).2.1.totalBytesInUse =
      a.totalBytesInUse + (a.bins i).blockSize := by
    unfold slabPop SlabAllocator.accountAlloc
    dsimp only
    rw [(clearEmpty_bins a i _).2.2.2]
  generalize slabPop a mem i = r at hb hmem hshape hbins hbitmap htotal
  have hheads : HeadersAgree r.2.1 r.2.2 (payload a i k :: live) := by
    rw [hmem]
    refine h.stamp hshape hk (fun _ _ _ _ _ _ => rfl) (fun p hp => by simp [hp]) ?_
    rw [decide_eq_true (mem_cons_self ..)]
    rfl
  refine ⟨k, hk, hb, hb ▸ hfresh, hshape, ?_, fun x hx => ?_⟩
  swap
  · rw [hmem]
    exact Mem.store_out hx
  rw [hb]
  refine ⟨hshape.placed h.placed, ?_, fun j => ?_, fun j l hl => (hheads j l hl).1,
    fun j l hl => (hheads j l hl).2, fun j => ?_, ?_⟩
  · rw [hshape.blocksOf, hmem, h.pop_stacks hshape hk (h.top_pred hf) hstack (fun j => ?_)]
    · exact h.pool.take h.placed.stock hstack
    · rw [hbins]
      split <;> rfl
  · rw [hasFree_eq, hbitmap, hbins]
    by_cases hj : j = i
    · subst hj
      rw [hf, if_pos rfl]
      simp
    · rw [if_neg hj, h.bitmap j, decide_eq_false hj]
      simp
  · rw [hshape.blocksOf, hbins]
    by_cases hj : j = i
    · subst hj
      have hc := h.counts j
      have hu := h.inUse j
      have hpos := h.top_pred hf
      have hlt := (a.bins j).bucketCount.isLt
      have h1 : (1 : BitVec 16).toNat = 1 := rfl
      rw [if_pos rfl, filter_cons_of_pos (by simpa using hblock), length_cons, ← hu]
      dsimp only
      rw [BitVec.toNat_add, h1]
      omega
    · rw [if_neg hj, filter_cons_of_neg, h.inUse j]
      intro hm
      exact hj (h.placed.stock.apart (by simpa using hm) hblock)
  · have hsize := hheads.blockSize (hshape.placed h.placed) (i := i) (k := k)
      (hshape.count i ▸ hk) (by rw [hshape.payload]; exact mem_cons_self ..)
    rw [hshape.payload, hshape.blockSize] at hsize
    rw [htotal, h.total, map_cons, sum_cons, hsize, Nat.add_comm,
      h.sizes hshape hheads fun p hp => ⟨hp, mem_cons_of_mem _ hp⟩]

end Pop

/-! ## Giving a block back -/

section Push

variable {a : SlabAllocator} {mem : Mem} {live : List Nat}

/-- Which bytes a release writes: the next stack entry of the bin, and the magic word. -/
structure Pushed (a : SlabAllocator) (mem : Mem) (live : List Nat) (i : Bin) (k : Nat)
    (r : SlabAllocator × Mem) : Prop where
  shape : SameShape a r.1
  inv : SlabInv r.1 r.2 (live.erase (payload a i k))
  writes : ∀ x, ¬Bookkeeping a x → r.2 x = mem x

theorem slabPush_bins (a : SlabAllocator) (mem : Mem) (i j : Bin) (p : Nat) :
    (slabPush a mem i p).1.bins j =
      if j = i then
        { a.bins i with
          top := (a.bins i).top + 1
          blocksInUse := if 0 < (a.bins i).blocksInUse then (a.bins i).blocksInUse - 1
            else (a.bins i).blocksInUse }
      else a.bins j :=
  Function.update_apply ..

theorem slabPush_shape (a : SlabAllocator) (mem : Mem) (i : Bin) (p : Nat) :
    SameShape a (slabPush a mem i p).1 := by
  have hbins := slabPush_bins a mem i
  refine ⟨rfl, rfl, fun j => ?_, fun j => ?_, fun j => ?_, fun j => ?_⟩
  all_goals
    rw [hbins]
    split
    · next hj => rw [hj]
    · rfl

theorem SlabInv.inUse_pos (h : SlabInv a mem live) {i : Bin} {k : Nat} (hk : k < count a i)
    (hp : payload a i k ∈ live) : 0 < (a.bins i).blocksInUse.toNat := by
  have hmem : payload a i k ∈ live.filter (· ∈ blocksOf a i) := by
    rw [mem_filter, decide_eq_true_iff]
    exact ⟨hp, mem_blocksOf.mpr ⟨k, hk, rfl⟩⟩
  rw [h.inUse i]
  exact length_pos_of_mem hmem

/-- The entry behind the top of a stack. -/
def slotOf (a : SlabAllocator) (i : Bin) : Nat := (a.bins i).stack + 8 * (a.bins i).top.toNat

/-- The two writes of a release. -/
def pushMem (a : SlabAllocator) (mem : Mem) (i : Bin) (k : Nat) : Mem :=
  (mem.store (slotOf a i) 8 (BitVec.ofNat 64 (payload a i k))).store (blockStart a i k) 4
    slabMagicFreed

theorem Placed.push_stack (h : Placed a) {a' : SlabAllocator} {i : Bin} {k : Nat}
    (hk : k < count a i) (hroom : (a.bins i).top.toNat < count a i)
    (hstack : (a'.bins i).stack = (a.bins i).stack)
    (htop : (a'.bins i).top.toNat = (a.bins i).top.toNat + 1) :
    stackOf a' (pushMem a mem i k) i = stackOf a mem i ++ [payload a i k] := by
  have hfirst : SameBytes (mem.store (slotOf a i) 8 (BitVec.ofNat 64 (payload a i k)))
      (pushMem a mem i k) (a.bins i).stack (8 * ((a.bins i).top.toNat + 1)) :=
    h.header_stack hk (by omega)
  unfold stackOf
  rw [hstack, htop, range_succ, map_append, map_singleton]
  have hlast : ((pushMem a mem i k).load64 (slotOf a i)).toNat = payload a i k := by
    have hload := hfirst.load64 (q := slotOf a i) (Nat.le_add_right ..) (by unfold slotOf; omega)
    rw [hload, Mem.load64_store, BitVec.toNat_ofNat]
    exact Nat.mod_eq_of_lt (h.payload_lt hk)
  refine congrArg₂ (· ++ ·) (map_congr_left fun n hn => congrArg BitVec.toNat ?_)
    (congrArg (fun p => [p]) hlast)
  have hn := mem_range.mp hn
  rw [hfirst.load64 (by omega) (by omega)]
  exact Mem.load64_store_out (.inl (by unfold slotOf; omega))

theorem Placed.push_other (h : Placed a) {a' : SlabAllocator} {i j : Bin} {k : Nat}
    (hk : k < count a i) (hroom : (a.bins i).top.toNat < count a i) (hj : j ≠ i)
    (hle : (a.bins j).top.toNat ≤ count a j) (hbins : a'.bins j = a.bins j) :
    stackOf a' (pushMem a mem i k) j = stackOf a mem j := by
  refine stackOf_congr (by rw [hbins]) (by rw [hbins]) fun x hx hx' => ?_
  have hside : _ = (mem.store (slotOf a i) 8 (BitVec.ofNat 64 (payload a i k))) x :=
    h.header_stack (v := slabMagicFreed) hk hle x hx hx'
  refine hside.trans (Mem.store_out ?_)
  rcases h.stack_apart j i hj (by omega) (by omega) with hap | hap
  · left
    unfold stackEnd at hap
    unfold slotOf
    omega
  · right
    unfold stackEnd at hap
    unfold slotOf
    omega

theorem SlabInv.push_stacks (h : SlabInv a mem live) {a' : SlabAllocator} (hs : SameShape a a')
    {i : Bin} {k : Nat} (hk : k < count a i) (hroom : (a.bins i).top.toNat < count a i)
    (htop : (a'.bins i).top.toNat = (a.bins i).top.toNat + 1)
    (hother : ∀ j, j ≠ i → a'.bins j = a.bins j) : stackOf a' (pushMem a mem i k) =
      (Pool.give ⟨stackOf a mem, live⟩ i (payload a i k)).free := by
  funext j
  refine Eq.trans ?_ (Function.update_apply ..).symm
  split
  · next hj =>
    subst hj
    exact h.placed.push_stack hk hroom (hs.stack j) htop
  · next hj =>
    have hc := h.counts j
    exact h.placed.push_other hk hroom hj (by unfold count; omega) (hother j hj)

theorem slabPush_spec (h : SlabInv a mem live) {i : Bin} {k : Nat} (hk : k < count a i)
    (hp : payload a i k ∈ live) : Pushed a mem live i k (slabPush a mem i (payload a i k)) := by
  have hused := h.inUse_pos hk hp
  have hc := h.counts i
  have hroom : (a.bins i).top.toNat < count a i := by
    unfold count
    omega
  have h1 : (1 : BitVec 16).toNat = 1 := rfl
  have htop : ((a.bins i).top + 1).toNat = (a.bins i).top.toNat + 1 := by
    have hlt := (a.bins i).bucketCount.isLt
    rw [BitVec.toNat_add, h1]
    omega
  have hblock : payload a i k ∈ blocksOf a i := mem_blocksOf.mpr ⟨k, hk, rfl⟩
  -- the stack entry is written below every header
  have hslot : slotOf a i + 8 ≤ stackEnd a i := by
    unfold slotOf stackEnd
    omega
  have hmem : (slabPush a mem i (payload a i k)).2 = pushMem a mem i k := by
    unfold slabPush
    dsimp only
    rw [h.placed.headerOf_payload hk]
    rfl
  have hshape := slabPush_shape a mem i (payload a i k)
  have hbins := fun j => slabPush_bins a mem i j (payload a i k)
  have hbitmap : ∀ j, (slabPush a mem i (payload a i k)).1.bitmap.getLsbD j.val =
      (decide (j = i) || a.hasFree j) := hasFree_set a i
  have htotal : (slabPush a mem i (payload a i k)).1.totalBytesInUse =
      if (a.bins i).blockSize ≤ a.totalBytesInUse then a.totalBytesInUse - (a.bins i).blockSize
        else 0 := rfl
  generalize slabPush a mem i (payload a i k) = r at hmem hshape hbins hbitmap htotal
  have hlive : ∀ q, q ∈ live.erase (payload a i k) ↔ q ≠ payload a i k ∧ q ∈ live := fun q =>
    h.pool.live_nodup.mem_erase_iff
  have hheads : HeadersAgree r.1 r.2 (live.erase (payload a i k)) := by
    rw [hmem]
    refine h.stamp hshape hk (fun j l hl x hx _ => Mem.store_out (.inr ?_))
      (fun q hq => (hlive q).trans (and_iff_right hq)) ?_
    · have hs := h.placed.block_stack hl (j := i) (by omega)
      omega
    · rw [decide_eq_false fun hm => ((hlive _).mp hm).1 rfl]
      rfl
  refine ⟨hshape, ⟨hshape.placed h.placed, ?_, fun j => ?_, fun j l hl => (hheads j l hl).1,
    fun j l hl => (hheads j l hl).2, fun j => ?_, ?_⟩, fun x hx => ?_⟩
  · rw [hshape.blocksOf, hmem, h.push_stacks hshape hk hroom (by rw [hbins, if_pos rfl]; exact htop)
      fun j hj => by rw [hbins, if_neg hj]]
    exact h.pool.give h.placed.stock hp hblock
  · rw [hasFree_eq, hbitmap, hbins]
    by_cases hj : j = i
    · subst hj
      have hne : (a.bins j).top + 1 ≠ 0 := fun e => by
        have ht := congrArg BitVec.toNat e
        rw [htop] at ht
        cases ht
      rw [if_pos rfl, decide_eq_true rfl, decide_eq_true hne]
      rfl
    · rw [if_neg hj, decide_eq_false hj, h.bitmap j]
      rfl
  · have hlen := ((perm_cons_erase hp).filter (· ∈ blocksOf a j)).length_eq
    rw [hshape.blocksOf, hbins]
    by_cases hj : j = i
    · subst hj
      rw [filter_cons_of_pos (by simpa using hblock), length_cons, ← h.inUse j] at hlen
      have hpos : 0 < (a.bins j).blocksInUse := BitVec.lt_def.mpr hused
      rw [if_pos rfl]
      dsimp only
      rw [if_pos hpos, BitVec.toNat_sub, h1]
      omega
    · rw [filter_cons_of_neg, ← h.inUse j] at hlen
      · rw [if_neg hj, hlen]
      · intro hm
        exact hj (h.placed.stock.apart (by simpa using hm) hblock)
  · have hsum := sum_map_erase (slabBlockSize a mem) hp
    rw [h.blockSize_live hk hp, ← h.total] at hsum
    rw [htotal, if_pos (by omega), ← hsum, Nat.add_sub_cancel_left,
      h.sizes hshape hheads fun q hq => ⟨((hlive q).mp hq).2, hq⟩]
  · rw [hmem, pushMem, Mem.store_out, Mem.store_out]
    · by_contra hc
      refine hx (.stack i ?_ (by omega))
      unfold slotOf at hc
      omega
    · by_contra hc
      exact hx (.header i k hk (by omega) (by unfold slabHeaderSize; omega))

end Push

end Microgarbage.Memory
