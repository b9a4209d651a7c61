import Microgarbage.Memory.SlabSpec

/-!
# What a client may rely on

A byte is *held* when the allocator neither keeps books in it nor could give it to somebody else.
A new block consists of bytes that were not held and now are, and nothing that was held changes.
The result of a call depends on the allocator's own bytes alone, so two memories that agree there
lead to the same pointers.
-/

namespace Microgarbage.Memory

open Lib

variable {a a' : SlabAllocator} {mem mem' : Mem} {live live' : List Nat}

theorem SameShape.symm (h : SameShape a a') : SameShape a' a :=
  ⟨h.region.symm, h.regionBytes.symm, fun i => (h.blockSize i).symm, fun i => (h.bucketCount i).symm,
    fun i => (h.stack i).symm, fun i => (h.blocks i).symm⟩

/-- Neither the allocator's own nor part of a free block. -/
def Held (a : SlabAllocator) (live : List Nat) (x : Nat) : Prop :=
  ¬Bookkeeping a x ∧ ∀ i k, k < count a i → payload a i k ≤ x →
    x < payload a i k + (a.bins i).blockSize → payload a i k ∈ live

/-- The payload of a block that nobody holds. -/
def FreeByte (a : SlabAllocator) (live : List Nat) (x : Nat) : Prop :=
  ∃ i k, k < count a i ∧ payload a i k ∉ live ∧ payload a i k ≤ x ∧
    x < payload a i k + (a.bins i).blockSize

theorem freeByte_iff (h : Placed a) {x : Nat} :
    FreeByte a live x ↔ ¬Bookkeeping a x ∧ ¬Held a live x := by
  constructor
  · rintro ⟨i, k, hk, hp, hlo, hhi⟩
    exact ⟨h.payload_client hk hlo hhi, fun hx => hp (hx.2 i k hk hlo hhi)⟩
  · rintro ⟨hb, hx⟩
    by_contra hc
    refine hx ⟨hb, fun i k hk hlo hhi => ?_⟩
    by_contra hp
    exact hc ⟨i, k, hk, hp, hlo, hhi⟩

theorem Held.mono {x : Nat} (h : Held a live x) (hs : SameShape a a') (hl : live ⊆ live') :
    Held a' live' x := by
  refine ⟨fun hb => h.1 (hs.bookkeeping.mp hb), fun i k hk hlo hhi => ?_⟩
  rw [hs.count] at hk
  rw [hs.payload] at hlo hhi ⊢
  rw [hs.blockSize] at hhi
  exact hl (h.2 i k hk hlo hhi)

theorem held_of_live (h : Placed a) {i : Bin} {k x : Nat} (hk : k < count a i)
    (hp : payload a i k ∈ live) (hlo : payload a i k ≤ x)
    (hhi : x < payload a i k + (a.bins i).blockSize) : Held a live x := by
  refine ⟨h.payload_client hk hlo hhi, fun j l hl hlo' hhi' => ?_⟩
  by_cases he : i = j ∧ k = l
  · obtain ⟨rfl, rfl⟩ := he
    exact hp
  · have hd := h.blocks_disjoint hk hl he
    unfold payload slabHeaderSize at hlo hhi hlo' hhi'
    unfold blockTotal slabHeaderSize at hd
    omega

theorem held_outside (h : Placed a) {x : Nat} (hx : x < a.region ∨ a.region + a.regionBytes ≤ x) :
    Held a live x := by
  constructor
  · intro hb
    have hin := h.bookkeeping_region hb
    omega
  · intro i k hk hlo hhi
    obtain ⟨hlo', hhi'⟩ := h.block_region hk
    unfold blockTotal at hhi'
    unfold payload at hlo hhi
    omega

/-! ## A new block -/

/-- What a successful `slab_alloc(n)` gave. -/
structure Granted (a : SlabAllocator) (mem : Mem) (live : List Nat) (n : Nat)
    (r : Nat × SlabAllocator × Mem) : Prop where
  fresh : r.1 ∉ live
  shape : SameShape a r.2.1
  inv : SlabInv r.2.1 r.2.2 (r.1 :: live)
  /-- Nobody had the block's bytes, -/
  free : ∀ x, r.1 ≤ x → x < r.1 + n → FreeByte a live x
  /-- and now the caller has. -/
  held : ∀ x, r.1 ≤ x → x < r.1 + n → Held r.2.1 (r.1 :: live) x
  keeps : ∀ x, ¬Bookkeeping a x → r.2.2 x = mem x

theorem slabAlloc_granted (h : SlabInv a mem live) {n : BitVec 64} (hfit : n.toNat + 8 ≤ 2 ^ 32)
    (hne : (slabAlloc a mem n).1 ≠ 0) : Granted a mem live n.toNat (slabAlloc a mem n) := by
  rcases slabAlloc_cases h n with ⟨h0, -⟩ | ⟨i, k, -, hbin, -, hpop⟩
  · exact absurd h0 hne
  have hroom : n.toNat ≤ (a.bins i).blockSize := by
    rcases sizeToBin_fits hfit with hf | hf
    · rw [h.placed.blockSize, ← hbin]
      omega
    · omega
  have hresult := hpop.result
  have hk : k < count (slabAlloc a mem n).2.1 i := by
    rw [hpop.shape.count]
    exact hpop.block
  refine ⟨hpop.fresh, hpop.shape, hpop.inv, fun x hlo hhi => ?_, fun x hlo hhi => ?_,
    (slabAlloc_confined h n).2⟩
  · rw [hresult] at hlo hhi
    exact ⟨i, k, hpop.block, hresult ▸ hpop.fresh, hlo, by omega⟩
  · refine held_of_live hpop.inv.placed hk ?_ ?_ ?_
    · rw [hpop.shape.payload, ← hresult]
      exact List.mem_cons_self ..
    · rw [hpop.shape.payload, ← hresult]
      exact hlo
    · rw [hpop.shape.payload, ← hresult, hpop.shape.blockSize]
      omega

theorem slabAlloc_refused (h : SlabInv a mem live) {n : BitVec 64}
    (h0 : (slabAlloc a mem n).1 = 0) :
    SameShape a (slabAlloc a mem n).2.1 ∧
      SlabInv (slabAlloc a mem n).2.1 (slabAlloc a mem n).2.2 live ∧
      (slabAlloc a mem n).2.2 = mem := by
  rcases slabAlloc_cases h n with ⟨-, hs⟩ | ⟨i, k, -, -, -, hpop⟩
  · exact hs
  · exact absurd h0 (hpop.inv.live_pos (List.mem_cons_self ..))

/-! ## Two runs -/

/-- Memories that agree on the allocator's own bytes lead to the same block, and to memories that
agree wherever they did. -/
theorem slabAlloc_congr (h : SlabInv a mem live) (hm : ∀ x, Bookkeeping a x → mem' x = mem x)
    (n : BitVec 64) :
    (slabAlloc a mem' n).1 = (slabAlloc a mem n).1 ∧
      (slabAlloc a mem' n).2.1 = (slabAlloc a mem n).2.1 ∧
      ∀ x, mem' x = mem x → (slabAlloc a mem' n).2.2 x = (slabAlloc a mem n).2.2 x := by
  unfold slabAlloc
  by_cases hn : n = 0
  · rw [if_pos hn, if_pos hn]
    exact ⟨rfl, rfl, fun _ hx => hx⟩
  rw [if_neg hn, if_neg hn]
  by_cases hbin : sizeToBin n < 16
  · rw [dif_pos hbin, dif_pos hbin]
    dsimp only
    by_cases hf : a.hasFree ⟨sizeToBin n, hbin⟩ = true
    · rw [if_pos hf, if_pos hf]
      generalize (⟨sizeToBin n, hbin⟩ : Bin) = i at hf
      have hc := h.counts i
      have htop : (a.bins i).top ≠ 0 := by simpa [h.bitmap i] using hf
      have hpos : 0 < (a.bins i).top.toNat :=
        Nat.pos_of_ne_zero fun e => htop (BitVec.eq_of_toNat_eq e)
      have hdec : ((a.bins i).top - 1).toNat = (a.bins i).top.toNat - 1 := by
        have h1 : (1 : BitVec 16).toNat = 1 := rfl
        rw [BitVec.toNat_sub_of_le (by rw [BitVec.le_def, h1]; omega), h1]
      -- the entry that is popped is the allocator's own
      have hentry : mem'.load64 ((a.bins i).stack + 8 * ((a.bins i).top - 1).toNat) =
          mem.load64 ((a.bins i).stack + 8 * ((a.bins i).top - 1).toNat) := by
        refine Mem.load64_congr fun j hj => hm _ (.stack i (by omega) ?_)
        unfold stackEnd count
        omega
      unfold slabPop
      dsimp only
      rw [hentry]
      exact ⟨rfl, rfl, fun _ hx => Mem.overlay_agree hx⟩
    · rw [if_neg hf, if_neg hf]
      exact ⟨rfl, rfl, fun _ hx => hx⟩
  · rw [dif_neg hbin, dif_neg hbin]
    exact ⟨rfl, rfl, fun _ hx => hx⟩

/-! ## Back to where it was -/

/-- The same free blocks and the same totals. -/
structure Restored (a : SlabAllocator) (mem : Mem) (a' : SlabAllocator) (mem' : Mem) : Prop where
  free : ∀ i p, p ∈ stackOf a' mem' i ↔ p ∈ stackOf a mem i
  top : ∀ i, (a'.bins i).top = (a.bins i).top
  blocksInUse : ∀ i, (a'.bins i).blocksInUse = (a.bins i).blocksInUse
  totalBytesInUse : a'.totalBytesInUse = a.totalBytesInUse

/-- The allocator is back exactly when the clients hold what they held. -/
theorem restored_iff (h : SlabInv a mem live) (h' : SlabInv a' mem' live') (hs : SameShape a a') :
    Restored a mem a' mem' ↔ ∀ p, p ∈ live' ↔ p ∈ live := by
  have hblocks := hs.blocksOf
  constructor
  · intro hr p
    constructor
    · intro hp
      obtain ⟨i, hi⟩ := h'.pool.live_item hp
      by_contra hc
      refine (h'.pool.split hi).mp ((hr.free i p).mpr ?_) hp
      rw [hblocks] at hi
      exact (h.pool.split hi).mpr hc
    · intro hp
      obtain ⟨i, hi⟩ := h.pool.live_item hp
      by_contra hc
      refine (h.pool.split hi).mp ((hr.free i p).mp ?_) hp
      rw [← hblocks] at hi
      exact (h'.pool.split hi).mpr hc
  · intro hlive
    have hperm : live'.Perm live :=
      (List.perm_ext_iff_of_nodup h'.pool.live_nodup h.pool.live_nodup).mpr hlive
    have hused : ∀ i, (a'.bins i).blocksInUse = (a.bins i).blocksInUse := fun i => by
      refine BitVec.eq_of_toNat_eq ?_
      rw [h'.inUse, h.inUse, hblocks]
      exact (hperm.filter _).length_eq
    refine ⟨fun i p => ?_, fun i => ?_, hused, ?_⟩
    · constructor
      · intro hp
        have hi := h'.pool.free_item hp
        have hnot := (h'.pool.split hi).mp hp
        rw [hblocks] at hi
        exact (h.pool.split hi).mpr fun hc => hnot ((hlive p).mpr hc)
      · intro hp
        have hi := h.pool.free_item hp
        have hnot := (h.pool.split hi).mp hp
        rw [← hblocks] at hi
        exact (h'.pool.split hi).mpr fun hc => hnot ((hlive p).mp hc)
    · have hc := h.counts i
      have hc' := h'.counts i
      rw [hused, hs.bucketCount] at hc'
      refine BitVec.eq_of_toNat_eq ?_
      omega
    · rw [h'.total, h.total, (hperm.map _).sum_eq]
      refine congrArg List.sum (List.map_congr_left fun p hp => ?_)
      obtain ⟨i, k, hk, rfl, -⟩ := h.live_block hp
      have hk' : k < count a' i := by
        rw [hs.count]
        exact hk
      have hsize := h'.blockSize_live hk' (by rw [hs.payload]; exact (hlive _).mpr hp)
      rw [hs.payload] at hsize
      rw [hsize, h.blockSize_live hk hp, hs.blockSize]

end Microgarbage.Memory
