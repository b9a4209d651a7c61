import Microgarbage.Memory.SlabCalls

/-!
# The entry points over the pool

Specifications of `slab_alloc`, `slab_free` and `slab_realloc` in any state of the invariant, for
every argument. The bin selection is right below 2³² and wraps above.
-/

namespace Microgarbage.Memory

open Lib

/-! ## Bin selection -/

theorem sizeToBin_fits {n : BitVec 64} (h : n.toNat + 8 ≤ 2 ^ 32) :
    n.toNat + 8 ≤ slabMinBlock * 2 ^ sizeToBin n ∨ sizeToBin n = 16 := by
  have h8 : (8 : BitVec 64).toNat = 8 := rfl
  have h32 : (32 : BitVec 64).toNat = 32 := rfl
  have h1 : (1 : BitVec 64).toNat = 1 := rfl
  have htotal : (n + 8).toNat = n.toNat + 8 := by
    rw [BitVec.toNat_add, h8]
    omega
  unfold sizeToBin slabMinBlock
  dsimp only
  by_cases hsmall : n + 8 ≤ 32
  · rw [if_pos hsmall]
    rw [BitVec.le_def, htotal, h32] at hsmall
    left
    omega
  · rw [if_neg hsmall]
    rw [BitVec.le_def, htotal, h32] at hsmall
    -- the position of the highest bit of `total - 1`
    have hv : ((n + 8 - 1).setWidth 32).toNat = n.toNat + 7 := by
      rw [BitVec.toNat_setWidth, BitVec.toNat_sub, htotal, h1]
      omega
    unfold clz32
    rw [hv]
    have hne : n.toNat + 7 ≠ 0 := by omega
    have hup : n.toNat + 7 < 2 ^ (Nat.log2 (n.toNat + 7) + 1) := Nat.lt_log2_self
    have hlt : Nat.log2 (n.toNat + 7) < 32 := (Nat.log2_lt hne).mpr (by omega)
    have hlo : 5 ≤ Nat.log2 (n.toNat + 7) := (Nat.le_log2 hne).mpr (by omega)
    generalize Nat.log2 (n.toNat + 7) = l at hup hlt hlo
    rw [show 32 - (31 - l) - 5 = l - 4 by omega]
    split
    · exact .inr rfl
    · left
      have hpow : 32 * 2 ^ (l - 4) = 2 ^ (l + 1) := by
        rw [show (32 : Nat) = 2 ^ 5 from rfl, ← Nat.pow_add]
        congr 1
        omega
      omega

theorem size_le {i : Nat} (hi : i < 16) : slabMinBlock * 2 ^ i ≤ 2 ^ 20 := by
  have hpow : 2 ^ i ≤ 2 ^ 15 := Nat.pow_le_pow_right (by omega) (by omega)
  unfold slabMinBlock
  omega

/-! ## Allocation -/

section Alloc

variable {a : SlabAllocator} {mem : Mem} {live : List Nat}

theorem failed_shape (a : SlabAllocator) : SameShape a a.failed :=
  ⟨rfl, rfl, fun _ => rfl, fun _ => rfl, fun _ => rfl, fun _ => rfl⟩

theorem failed_inv (h : SlabInv a mem live) : SlabInv a.failed mem live :=
  { h with placed := (failed_shape a).placed h.placed }

/-- What `slab_alloc` returns: nothing, or the top block of the selected bin. -/
theorem slabAlloc_cases (h : SlabInv a mem live) (n : BitVec 64) :
    ((slabAlloc a mem n).1 = 0 ∧ SameShape a (slabAlloc a mem n).2.1 ∧
      SlabInv (slabAlloc a mem n).2.1 (slabAlloc a mem n).2.2 live ∧
      (slabAlloc a mem n).2.2 = mem) ∨
    ∃ i k, n ≠ 0 ∧ sizeToBin n = i.val ∧ a.hasFree i = true ∧
      Popped a mem live i k (slabAlloc a mem n) := by
  unfold slabAlloc
  by_cases hn : n = 0
  · rw [if_pos hn]
    exact .inl ⟨rfl, ⟨rfl, rfl, fun _ => rfl, fun _ => rfl, fun _ => rfl, fun _ => rfl⟩, h, rfl⟩
  · rw [if_neg hn]
    by_cases hbin : sizeToBin n < 16
    · rw [dif_pos hbin]
      dsimp only
      by_cases hf : a.hasFree ⟨sizeToBin n, hbin⟩ = true
      · rw [if_pos hf]
        obtain ⟨k, hk⟩ := slabPop_spec h hf
        exact .inr ⟨_, k, hn, rfl, hf, hk⟩
      · rw [if_neg hf]
        exact .inl ⟨rfl, failed_shape a, failed_inv h, rfl⟩
    · rw [dif_neg hbin]
      exact .inl ⟨rfl, failed_shape a, failed_inv h, rfl⟩

theorem slabAlloc_null (h : SlabInv a mem live) (n : BitVec 64) :
    (slabAlloc a mem n).1 = 0 ↔
      n = 0 ∨ ∀ i : Bin, sizeToBin n = i.val → a.hasFree i = false := by
  rcases slabAlloc_cases h n with ⟨h0, -⟩ | ⟨i, k, hn, hbin, hf, hpop⟩
  · refine ⟨fun _ => ?_, fun _ => h0⟩
    by_cases hn : n = 0
    · exact .inl hn
    · right
      intro i hi
      unfold slabAlloc at h0
      rw [if_neg hn, dif_pos (by omega)] at h0
      dsimp only at h0
      have he : (⟨sizeToBin n, by omega⟩ : Bin) = i := Fin.ext hi
      rw [he] at h0
      by_contra hf
      rw [if_pos (by simpa using hf)] at h0
      obtain ⟨k, hpop⟩ := slabPop_spec h (i := i) (by simpa using hf)
      exact hpop.inv.live_pos (List.mem_cons_self ..) h0
  · have hpos := hpop.inv.live_pos (List.mem_cons_self ..)
    refine ⟨fun h0 => absurd h0 hpos, fun hc => ?_⟩
    rcases hc with hc | hc
    · exact absurd hc hn
    · rw [hc i hbin] at hf
      cases hf

end Alloc

/-! ## Release -/

section Free

variable {a : SlabAllocator} {mem : Mem} {live : List Nat}

theorem slabFree_accepts {p : Nat} {i : Bin} (h0 : p ≠ 0) (hlo : a.region ≤ headerOf p)
    (hhi : headerOf p < a.region + a.regionBytes)
    (hm : mem.load32 (headerOf p) = slabMagicAllocated)
    (hb : mem.load32 (headerOf p + 4) = BitVec.ofNat 32 i.val)
    (hroom : ¬(a.bins i).bucketCount ≤ (a.bins i).top) :
    slabFree a mem p = (.ok, slabPush a mem i p) := by
  have hlt : (mem.load32 (headerOf p + 4)).toNat < 16 := by
    rw [hb, toNat_bin]
    exact i.isLt
  have hi : (⟨(mem.load32 (headerOf p + 4)).toNat, hlt⟩ : Bin) = i := by
    refine Fin.ext ?_
    rw [← toNat_bin i, ← hb]
  unfold slabFree
  dsimp only
  rw [if_neg h0, if_neg (not_or.mpr ⟨Nat.not_lt.mpr hlo, Nat.not_le.mpr hhi⟩),
    if_neg fun e => magic_ne (e.symm.trans hm), if_neg (not_not_intro hm), dif_pos hlt, hi,
    if_neg hroom]

theorem slabFree_live (h : SlabInv a mem live) {p : Nat} (hp : p ∈ live) :
    ∃ i k, payload a i k = p ∧ k < count a i ∧
      slabFree a mem p = (.ok, slabPush a mem i p) ∧
      Pushed a mem live i k (slabPush a mem i p) := by
  obtain ⟨i, k, hk, rfl, hhead, hm, hb⟩ := h.live_block hp
  refine ⟨i, k, rfl, hk, ?_, slabPush_spec h hk hp⟩
  obtain ⟨hlo, hhi⟩ := h.placed.block_region hk
  have hused := h.inUse_pos hk hp
  have hc := h.counts i
  unfold blockTotal slabHeaderSize at hhi
  refine slabFree_accepts (h.live_pos hp) ?_ ?_ ?_ ?_ ?_
  · rw [hhead]
    exact hlo
  · rw [hhead]
    omega
  · rw [hhead, hm]
  · rw [hhead, hb]
  · rw [BitVec.le_def]
    omega

/-- Any other pointer is rejected with the state unchanged, unless its header is forged. -/
theorem slabFree_rejects {p : Nat} (h0 : p ≠ 0) (hp : p ∉ live) (hf : ¬Forged a mem live p) :
    ∃ e, e ≠ .ok ∧ slabFree a mem p = (e, a, mem) := by
  by_cases hout : headerOf p < a.region ∨ a.region + a.regionBytes ≤ headerOf p
  · refine ⟨.errForeignPointer, nofun, ?_⟩
    unfold slabFree
    dsimp only
    rw [if_neg h0, if_pos hout]
  · by_cases hfreed : mem.load32 (headerOf p) = slabMagicFreed
    · refine ⟨.errDoubleFree, nofun, ?_⟩
      unfold slabFree
      dsimp only
      rw [if_neg h0, if_neg hout, if_pos hfreed]
    · refine ⟨.errCorrupted, nofun, ?_⟩
      unfold slabFree
      dsimp only
      rw [if_neg h0, if_neg hout, if_neg hfreed]
      split
      · rfl
      · next hmagic =>
        exact dif_neg fun hb => hf ⟨hp, by omega, by omega, not_not.mp hmagic, hb⟩

/-- A block on its stack carries the freed magic: a second free sees it. -/
theorem SlabInv.free_not_forged (h : SlabInv a mem live) {i : Bin} {k : Nat} (hk : k < count a i)
    (hp : payload a i k ∉ live) : ¬Forged a mem live (payload a i k) := by
  rintro ⟨-, -, -, hm, -⟩
  rw [h.placed.headerOf_payload hk, h.magic i k hk, decide_eq_false hp] at hm
  exact magic_ne hm

theorem slabBlockSize_rejects {p : Nat} (hp : p ∉ live) (hf : ¬Forged a mem live p) :
    slabBlockSize a mem p = 0 := by
  unfold slabBlockSize
  split
  · rfl
  · dsimp only
    by_cases hout : headerOf p < a.region ∨ a.region + a.regionBytes ≤ headerOf p
    · rw [if_pos hout]
    · rw [if_neg hout]
      split
      · rfl
      · next hmagic =>
        exact dif_neg fun hb => hf ⟨hp, by omega, by omega, not_not.mp hmagic, hb⟩

theorem SameShape.bookkeeping {a' : SlabAllocator} (h : SameShape a a') {x : Nat} :
    Bookkeeping a' x ↔ Bookkeeping a x := by
  have hend : ∀ i, stackEnd a' i = stackEnd a i := fun i => by
    unfold stackEnd
    rw [h.stack, h.count]
  constructor
  · rintro (⟨i, hlo, hhi⟩ | ⟨i, k, hk, hlo, hhi⟩)
    · rw [h.stack] at hlo
      rw [hend] at hhi
      exact .stack i hlo hhi
    · rw [h.count] at hk
      rw [h.start] at hlo hhi
      exact .header i k hk hlo hhi
  · rintro (⟨i, hlo, hhi⟩ | ⟨i, k, hk, hlo, hhi⟩)
    · rw [← h.stack] at hlo
      rw [← hend] at hhi
      exact .stack i hlo hhi
    · rw [← h.count] at hk
      rw [← h.start] at hlo hhi
      exact .header i k hk hlo hhi

theorem slabAlloc_confined (h : SlabInv a mem live) (n : BitVec 64) :
    SameShape a (slabAlloc a mem n).2.1 ∧
      ∀ x, ¬Bookkeeping a x → (slabAlloc a mem n).2.2 x = mem x := by
  rcases slabAlloc_cases h n with ⟨-, hshape, -, hmem⟩ | ⟨i, k, -, -, -, hpop⟩
  · exact ⟨hshape, fun x _ => by rw [hmem]⟩
  · refine ⟨hpop.shape, fun x hx => hpop.writes x ?_⟩
    by_contra hc
    refine hx (.header i k hpop.block (by omega) ?_)
    unfold slabHeaderSize
    omega

end Free

/-! ## Resizing -/

section Realloc

variable {a : SlabAllocator} {mem : Mem} {live : List Nat}

theorem Placed.payload_client (h : Placed a) {i : Bin} {k x : Nat} (hk : k < count a i)
    (hx : payload a i k ≤ x) (hx' : x < payload a i k + (a.bins i).blockSize) :
    ¬Bookkeeping a x := by
  unfold payload slabHeaderSize at hx hx'
  rintro (⟨j, hlo, hhi⟩ | ⟨j, l, hl, hlo, hhi⟩)
  · have hj : count a j ≠ 0 := by
      unfold stackEnd at hhi
      omega
    have hs := h.block_stack hk hj
    omega
  · by_cases he : i = j ∧ k = l
    · obtain ⟨rfl, rfl⟩ := he
      unfold slabHeaderSize at hhi
      omega
    · have hd := h.blocks_disjoint hk hl he
      unfold slabHeaderSize at hhi
      unfold blockTotal slabHeaderSize at hd
      have hpos := h.size_pos j
      omega

theorem Placed.bookkeeping_region (h : Placed a) {x : Nat} (hx : Bookkeeping a x) :
    a.region ≤ x ∧ x < a.region + a.regionBytes := by
  rcases hx with ⟨i, hlo, hhi⟩ | ⟨i, k, hk, hlo, hhi⟩
  · have hi : count a i ≠ 0 := by
      unfold stackEnd at hhi
      omega
    have hr := h.stack_lo i hi
    have hs := h.stack_blocks i i hi hi
    have hb := h.blocks_hi i hi
    have hbe : (a.bins i).blocks ≤ blocksEnd a i := Nat.le_add_right ..
    omega
  · have hb := h.block_region hk
    unfold blockTotal at hb
    omega

theorem slabRealloc_null (n : BitVec 64) : slabRealloc a mem 0 n = slabAlloc a mem n := rfl

theorem slabRealloc_rejects {p : Nat} {n : BitVec 64} (h0 : p ≠ 0) (hp : p ∉ live)
    (hf : ¬Forged a mem live p) : slabRealloc a mem p n = (0, a, mem) := by
  obtain ⟨e, -, he⟩ := slabFree_rejects h0 hp hf
  unfold slabRealloc
  dsimp only
  rw [if_neg h0, he, slabBlockSize_rejects hp hf]
  split
  · rfl
  · rfl

theorem slabRealloc_zero (h : SlabInv a mem live) {p : Nat} (hp : p ∈ live) :
    slabRealloc a mem p 0 = (0, (slabFree a mem p).2) := by
  unfold slabRealloc
  dsimp only
  rw [if_neg (h.live_pos hp), if_pos rfl]

/-- What resizing a live block to a positive size does: it stays, or nothing happens, or it moves
to a new block. -/
theorem slabRealloc_cases (h : SlabInv a mem live) {p : Nat} (hp : p ∈ live) {n : BitVec 64}
    (hn : n ≠ 0) :
    (n.toNat ≤ slabBlockSize a mem p ∧ slabRealloc a mem p n = (p, a, mem)) ∨
    (slabBlockSize a mem p < n.toNat ∧ (slabAlloc a mem n).1 = 0 ∧
      slabRealloc a mem p n = slabAlloc a mem n) ∨
    (slabBlockSize a mem p < n.toNat ∧ (slabAlloc a mem n).1 ≠ 0 ∧
      slabRealloc a mem p n = ((slabAlloc a mem n).1,
        (slabFree (slabAlloc a mem n).2.1
          ((slabAlloc a mem n).2.2.copy (slabAlloc a mem n).1
            ((slabAlloc a mem n).2.2.bytes p (slabBlockSize a mem p))) p).2)) := by
  obtain ⟨i, k, hk, rfl, -⟩ := h.live_block hp
  have hcap : slabBlockSize a mem (payload a i k) ≠ 0 := by
    rw [h.blockSize_live hk hp]
    exact Nat.ne_of_gt (h.placed.size_pos i)
  have hpos := h.live_pos hp
  generalize payload a i k = p at *
  unfold slabRealloc
  generalize slabAlloc a mem n = r
  obtain ⟨q, a', mem'⟩ := r
  dsimp only
  rw [if_neg hpos, if_neg hn, if_neg hcap]
  by_cases hle : n.toNat ≤ slabBlockSize a mem p
  · exact .inl ⟨hle, if_pos hle⟩
  · rw [if_neg hle]
    by_cases hnull : q = 0
    · rw [if_pos hnull, hnull]
      exact .inr (.inl ⟨Nat.not_le.mp hle, rfl, rfl⟩)
    · rw [if_neg hnull]
      exact .inr (.inr ⟨Nat.not_le.mp hle, hnull, rfl⟩)

/-- A live block that moved: the new block is big enough, carries the old contents, and the old one
is back on its stack. -/
theorem slabRealloc_moved (h : SlabInv a mem live) {p : Nat} (hp : p ∈ live) {n : BitVec 64}
    (hfit : n.toNat + 8 ≤ 2 ^ 32) (hgrow : slabBlockSize a mem p < n.toNat)
    (hnull : (slabAlloc a mem n).1 ≠ 0) :
    (slabRealloc a mem p n).1 = (slabAlloc a mem n).1 ∧ (slabRealloc a mem p n).1 ∉ live ∧
      (∃ j l, l < count a j ∧ payload a j l = (slabRealloc a mem p n).1 ∧
        n.toNat ≤ (a.bins j).blockSize) ∧
      SameShape a (slabRealloc a mem p n).2.1 ∧
      SlabInv (slabRealloc a mem p n).2.1 (slabRealloc a mem p n).2.2
        ((slabRealloc a mem p n).1 :: live.erase p) ∧
      (slabRealloc a mem p n).2.2.bytes (slabRealloc a mem p n).1 (slabBlockSize a mem p) =
        mem.bytes p (slabBlockSize a mem p) := by
  have hn : n ≠ 0 := fun e => by
    rw [e] at hgrow
    exact absurd hgrow (Nat.not_lt_zero _)
  rcases slabRealloc_cases h hp hn with ⟨hle, -⟩ | ⟨-, h0, -⟩ | ⟨-, -, heq⟩
  · exact absurd hgrow (Nat.not_lt.mpr hle)
  · exact absurd h0 hnull
  rcases slabAlloc_cases h n with ⟨h0, -⟩ | ⟨j, l, -, hbin, -, hpop⟩
  · exact absurd h0 hnull
  obtain ⟨hl, hresult, hfresh, hshape, hinv, hwrites⟩ := hpop
  have hsize : n.toNat ≤ (a.bins j).blockSize := by
    rcases sizeToBin_fits hfit with hf | hf
    · rw [h.placed.blockSize, ← hbin]
      omega
    · omega
  obtain ⟨i, k, hk, hpk, -⟩ := h.live_block hp
  rw [heq]
  generalize slabAlloc a mem n = r at *
  obtain ⟨q, a', mem'⟩ := r
  dsimp only at *
  -- the copy stays inside the new block
  have hlen : (mem'.bytes p (slabBlockSize a mem p)).length = slabBlockSize a mem p :=
    Mem.length_bytes ..
  have hl' : l < count a' j := by
    rw [hshape.count]
    exact hl
  have hcopy : SlabInv a' (mem'.copy q (mem'.bytes p (slabBlockSize a mem p))) (q :: live) := by
    refine hinv.frame fun x hx => Mem.overlay_out ?_
    rw [hlen]
    by_contra hc
    refine hinv.placed.payload_client hl' (x := x) ?_ ?_ hx
    · rw [hshape.payload, ← hresult]
      omega
    · rw [hshape.payload, ← hresult, hshape.blockSize]
      omega
  have hpq : p ≠ q := fun e => hfresh (e ▸ hp)
  obtain ⟨i', k', hpk', hk', hfree, hpush⟩ := slabFree_live hcopy (List.mem_cons_of_mem q hp)
  rw [hfree]
  have herase : (q :: live).erase (payload a' i' k') = q :: live.erase p := by
    rw [hpk', List.erase_cons_tail (by simpa using hpq.symm)]
  refine ⟨rfl, hfresh, ⟨j, l, hl, hresult.symm, hsize⟩, ?_, herase ▸ hpush.inv, ?_⟩
  · obtain ⟨g1, g2, g3, g4, g5, g6⟩ := hpush.shape
    obtain ⟨s1, s2, s3, s4, s5, s6⟩ := hshape
    exact ⟨g1.trans s1, g2.trans s2, fun x => (g3 x).trans (s3 x), fun x => (g4 x).trans (s4 x),
      fun x => (g5 x).trans (s5 x), fun x => (g6 x).trans (s6 x)⟩
  · have hblocks : (slabPush a' (mem'.copy q (mem'.bytes p (slabBlockSize a mem p))) i' p).2.bytes q
        (slabBlockSize a mem p) =
        (mem'.copy q (mem'.bytes p (slabBlockSize a mem p))).bytes q (slabBlockSize a mem p) := by
      refine Mem.bytes_congr fun x hx => hpush.writes _ ?_
      refine hinv.placed.payload_client hl' (x := q + x) ?_ ?_
      · rw [hshape.payload, ← hresult]
        omega
      · rw [hshape.payload, ← hresult, hshape.blockSize]
        omega
    have hread := Mem.bytes_copy mem' q (mem'.bytes p (slabBlockSize a mem p))
    rw [hlen] at hread
    rw [hblocks, hread]
    refine Mem.bytes_congr fun x hx => hwrites _ ?_
    -- the old block is not the one that was taken
    have hne : ¬(i = j ∧ k = l) := by
      rintro ⟨rfl, rfl⟩
      exact hpq (hpk.symm.trans hresult.symm)
    have hd := h.placed.blocks_disjoint hk hl hne
    have hsz : slabBlockSize a mem p = (a.bins i).blockSize := by
      rw [← hpk]
      exact h.blockSize_live hk (hpk ▸ hp)
    unfold payload slabHeaderSize at hpk
    unfold blockTotal slabHeaderSize at hd
    omega

end Realloc

end Microgarbage.Memory
