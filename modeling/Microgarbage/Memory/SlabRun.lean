import Microgarbage.Memory.SlabClient
import Microgarbage.Memory.SlabInit

/-!
# Runs of a slab allocator

Any sequence of calls, with the clients writing their memory in between. `live` is the clients'
side of the story: the pointers returned and not yet given back, from the results of the calls
alone.
-/

namespace Microgarbage.Memory

open Lib

structure SlabSys where
  a : SlabAllocator
  mem : Mem
  live : List Nat

inductive SlabEvent where
  | alloc (n : BitVec 64)
  | free (p : Nat)
  | realloc (p : Nat) (newSize : BitVec 64)
  /-- Memory after some client wrote it. -/
  | client (mem : Mem)

namespace SlabSys

/-- What a client holds after `slab_realloc(p, n)` returned `q`. -/
def reallocLedger (live : List Nat) (p q : Nat) (n : BitVec 64) : List Nat :=
  if n = 0 then live.erase p
  else if q = 0 ∨ q = p then live
  else q :: live.erase p

/-- The state a call leaves, given its result and the client's new ledger. -/
def after {α : Type} (r : α × SlabAllocator × Mem) (live : List Nat) : SlabSys :=
  ⟨r.2.1, r.2.2, live⟩

def step (s : SlabSys) : SlabEvent → Option SlabSys
  | .alloc n =>
    let r := slabAlloc s.a s.mem n
    some (after r (if r.1 = 0 then s.live else r.1 :: s.live))
  | .free p =>
    let r := slabFree s.a s.mem p
    some (after r (if r.1 = .ok then s.live.erase p else s.live))
  | .realloc p n =>
    let r := slabRealloc s.a s.mem p n
    some (after r (reallocLedger s.live p r.1 n))
  | .client mem => some ⟨s.a, mem, s.live⟩

def Inv (s : SlabSys) : Prop := SlabInv s.a s.mem s.live

end SlabSys

/-- The condition on one step: no forged pointer is freed or resized, a block is resized to a size
whose total fits 32 bits, and no client writes the allocator's own bytes. -/
def SlabEvent.Ok (s : SlabSys) : SlabEvent → Prop
  | .alloc _ => True
  | .free p => p ≠ 0 → ¬Forged s.a s.mem s.live p
  | .realloc p n => n.toNat + 8 ≤ 2 ^ 32 ∧ (p ≠ 0 → ¬Forged s.a s.mem s.live p)
  | .client mem => ∀ x, Bookkeeping s.a x → mem x = s.mem x

section Steps

variable {s s' : SlabSys}

theorem step_alloc (h : s.Inv) {n : BitVec 64} (he : SlabSys.step s (.alloc n) = some s') :
    s'.Inv := by
  rw [← Option.some.inj he]
  unfold SlabSys.Inv SlabSys.after
  dsimp only
  rcases slabAlloc_cases h n with ⟨h0, -, hinv, -⟩ | ⟨i, k, -, -, -, hpop⟩
  · rw [if_pos h0]
    exact hinv
  · rw [if_neg (hpop.inv.live_pos (List.mem_cons_self ..))]
    exact hpop.inv

theorem free_inv {a : SlabAllocator} {mem : Mem} {live : List Nat} (h : SlabInv a mem live)
    {p : Nat} (hf : p ≠ 0 → ¬Forged a mem live p) :
    SlabInv (slabFree a mem p).2.1 (slabFree a mem p).2.2 (live.erase p) := by
  by_cases h0 : p = 0
  · have hnot : p ∉ live := fun hp => h.live_pos hp h0
    rw [List.erase_of_not_mem hnot]
    unfold slabFree
    rw [if_pos h0]
    exact h
  · by_cases hp : p ∈ live
    · obtain ⟨i, k, rfl, -, hfree, hpush⟩ := slabFree_live h hp
      rw [hfree]
      exact hpush.inv
    · obtain ⟨e, -, he⟩ := slabFree_rejects h0 hp (hf h0)
      rw [he, List.erase_of_not_mem hp]
      exact h

theorem step_free (h : s.Inv) {p : Nat} (hf : p ≠ 0 → ¬Forged s.a s.mem s.live p)
    (he : SlabSys.step s (.free p) = some s') : s'.Inv := by
  have hinv := free_inv h hf
  rw [← Option.some.inj he]
  unfold SlabSys.Inv SlabSys.after
  dsimp only
  by_cases hp : p ∈ s.live
  · obtain ⟨i, k, -, -, hfree, -⟩ := slabFree_live h hp
    rw [if_pos (by rw [hfree])]
    exact hinv
  · rw [List.erase_of_not_mem hp] at hinv ⊢
    rw [ite_self]
    exact hinv

theorem step_realloc (h : s.Inv) {p : Nat} {n : BitVec 64} (hfit : n.toNat + 8 ≤ 2 ^ 32)
    (hf : p ≠ 0 → ¬Forged s.a s.mem s.live p)
    (he : SlabSys.step s (.realloc p n) = some s') : s'.Inv := by
  by_cases h0 : p = 0
  · -- an allocation
    have hledger : ∀ q, SlabSys.reallocLedger s.live p q n =
        if n = 0 then s.live else if q = 0 then s.live else q :: s.live := by
      intro q
      have hnot : p ∉ s.live := fun hp => SlabInv.live_pos h hp h0
      unfold SlabSys.reallocLedger
      rw [List.erase_of_not_mem hnot, h0]
      simp only [or_self]
    have hstep : SlabSys.step s (.alloc n) = some s' := by
      rw [← he]
      unfold SlabSys.step
      dsimp only
      rw [hledger, h0, slabRealloc_null]
      by_cases hn : n = 0
      · rw [if_pos hn, if_pos ((slabAlloc_null h n).mpr (.inl hn))]
      · rw [if_neg hn]
    exact step_alloc h hstep
  · rw [← Option.some.inj he]
    unfold SlabSys.Inv SlabSys.after SlabSys.reallocLedger
    dsimp only
    by_cases hp : p ∈ s.live
    · by_cases hn : n = 0
      · rw [if_pos hn, hn, slabRealloc_zero h hp]
        exact free_inv h hf
      · rw [if_neg hn]
        rcases slabRealloc_cases h hp hn with ⟨-, heq⟩ | ⟨-, hnull, heq⟩ | ⟨hgrow, hnull, -⟩
        · rw [heq, if_pos (.inr rfl)]
          exact h
        · rw [heq, if_pos (.inl hnull)]
          rcases slabAlloc_cases h n with ⟨-, -, hinv, -⟩ | ⟨i, k, -, -, -, hpop⟩
          · exact hinv
          · exact absurd hnull (hpop.inv.live_pos (List.mem_cons_self ..))
        · obtain ⟨hq, hfresh, -, -, hinv, -⟩ := slabRealloc_moved h hp hfit hgrow hnull
          rw [if_neg]
          · exact hinv
          · rintro (hz | hz)
            · exact hnull (hq.symm.trans hz)
            · rw [hz] at hfresh
              exact hfresh hp
    · rw [slabRealloc_rejects h0 hp (hf h0), List.erase_of_not_mem hp]
      dsimp only
      split
      · exact h
      · exact h

theorem step_slab (s : SlabSys) (e : SlabEvent) (s' : SlabSys) (h : s.Inv) (hok : SlabEvent.Ok s e)
    (he : SlabSys.step s e = some s') : s'.Inv := by
  cases e with
  | alloc n => exact step_alloc h he
  | free p => exact step_free h hok he
  | realloc p n => exact step_realloc h hok.1 hok.2 he
  | client mem =>
    cases he
    exact SlabInv.frame h hok

end Steps

/-! ## Safety -/

/-- What a client relies on. -/
structure SlabSafe (s : SlabSys) : Prop where
  /-- Blocks lie inside the region, -/
  inside : ∀ i k, k < count s.a i → s.a.region ≤ blockStart s.a i k ∧
    blockStart s.a i k + blockTotal (s.a.bins i) ≤ s.a.region + s.a.regionBytes
  /-- apart from each other, -/
  disjoint : ∀ i j k l, k < count s.a i → l < count s.a j → ¬(i = j ∧ k = l) →
    blockStart s.a i k + blockTotal (s.a.bins i) ≤ blockStart s.a j l ∨
      blockStart s.a j l + blockTotal (s.a.bins j) ≤ blockStart s.a i k
  /-- and above the stack arrays. -/
  below : ∀ i j k, k < count s.a i → count s.a j ≠ 0 → stackEnd s.a j ≤ blockStart s.a i k
  counts : ∀ i, (s.a.bins i).top.toNat + (s.a.bins i).blocksInUse.toNat =
    (s.a.bins i).bucketCount.toNat
  stack_nodup : ∀ i, (stackOf s.a s.mem i).Nodup
  stack_free : ∀ i p, p ∈ stackOf s.a s.mem i ↔ p ∈ blocksOf s.a i ∧ p ∉ s.live
  bitmap : ∀ i, s.a.hasFree i = true ↔ stackOf s.a s.mem i ≠ []
  live_nodup : s.live.Nodup
  live_block : ∀ p ∈ s.live, ∃ i, p ∈ blocksOf s.a i
  inUse : ∀ i, (s.a.bins i).blocksInUse.toNat = (s.live.filter (· ∈ blocksOf s.a i)).length
  total : s.a.totalBytesInUse = (s.live.map (slabBlockSize s.a s.mem)).sum
  /-- No block is handed out twice. -/
  fresh : ∀ n, (slabAlloc s.a s.mem n).1 ≠ 0 → (slabAlloc s.a s.mem n).1 ∉ s.live ∧
    ∃ i, (slabAlloc s.a s.mem n).1 ∈ blocksOf s.a i
  /-- A second free is rejected, -/
  refree : ∀ i p, p ∈ blocksOf s.a i → p ∉ s.live →
    ∃ e, e ≠ .ok ∧ slabFree s.a s.mem p = (e, s.a, s.mem)
  /-- and so is any other pointer that is not live and whose header is not forged. -/
  rejects : ∀ p, p ≠ 0 → p ∉ s.live → ¬Forged s.a s.mem s.live p →
    ∃ e, e ≠ .ok ∧ slabFree s.a s.mem p = (e, s.a, s.mem)

theorem SlabSys.Inv.safe {s : SlabSys} (h : s.Inv) : SlabSafe s where
  inside _ _ hk := h.placed.block_region hk
  disjoint _ _ _ _ hk hl hne := h.placed.blocks_disjoint hk hl hne
  below _ _ _ hk hj := h.placed.block_stack hk hj
  counts := SlabInv.counts h
  stack_nodup := h.pool.free_nodup
  stack_free i p := by
    constructor
    · intro hp
      exact ⟨h.pool.free_item hp, (h.pool.split (h.pool.free_item hp)).mp hp⟩
    · rintro ⟨hb, hp⟩
      exact (h.pool.split hb).mpr hp
  bitmap i := by
    rw [SlabInv.bitmap h i, decide_eq_true_iff, ne_eq, ne_eq, not_iff_not]
    have hlen := length_stackOf s.a s.mem i
    constructor
    · intro ht
      rw [ht] at hlen
      exact List.eq_nil_of_length_eq_zero hlen
    · intro hs
      rw [hs] at hlen
      exact BitVec.eq_of_toNat_eq hlen.symm
  live_nodup := h.pool.live_nodup
  live_block _ hp := h.pool.live_item hp
  inUse := SlabInv.inUse h
  total := SlabInv.total h
  fresh n hn := by
    rcases slabAlloc_cases h n with ⟨h0, -⟩ | ⟨i, k, -, -, -, hpop⟩
    · exact absurd h0 hn
    · exact ⟨hpop.fresh, i, mem_blocksOf.mpr ⟨k, hpop.block, hpop.result.symm⟩⟩
  refree i p hb hp := by
    obtain ⟨k, hk, rfl⟩ := mem_blocksOf.mp hb
    refine slabFree_rejects ?_ hp (SlabInv.free_not_forged h hk hp)
    unfold payload slabHeaderSize
    omega
  rejects _ h0 hp hf := slabFree_rejects h0 hp hf

/-- In every run from an accepted configuration, wherever the region lies, the allocator is safe in
every state. -/
theorem run_slab {region bytes : Nat} {cfg : SlabConfig} {mem mem' : Mem} {a : SlabAllocator}
    (hlt : region + bytes < 2 ^ 64) (hinit : slabInit region bytes cfg mem = (.ok, a, mem'))
    {es : List SlabEvent} {s : SlabSys} (hok : Meets SlabSys.step SlabEvent.Ok ⟨a, mem', []⟩ es)
    (hrun : run SlabSys.step ⟨a, mem', []⟩ es = some s) : SlabSafe s := by
  have hstart : SlabSys.Inv ⟨a, mem', []⟩ := slabInit_ok hlt hinit
  exact (run_invariant step_slab hstart hok hrun).safe

/-- Two blocks of the smallest bin, in zeroed memory. -/
def twoBlocks (mem : Mem) : SlabResult × SlabAllocator × Mem :=
  slabInit 8 104 ⟨fun i => if i = 0 then 2 else 0⟩ mem

theorem twoBlocks_ok {mem : Mem} (h : (twoBlocks mem).1 = .ok) :
    twoBlocks mem = (.ok, (twoBlocks mem).2) := by
  generalize twoBlocks mem = r at h ⊢
  rw [← h]

def twoBlocksSys (mem : Mem) : SlabSys := .after (twoBlocks mem) []

/-- One block taken and given back twice. -/
theorem run_slab_refree : ∃ s, run SlabSys.step (twoBlocksSys fun _ => 0)
    [.alloc 1, .free 72, .free 72] = some s ∧ SlabSafe s := by
  have hinit : twoBlocks (fun _ => 0) = (.ok, (twoBlocks fun _ => 0).2) :=
    twoBlocks_ok (by decide +kernel)
  have hok : Meets SlabSys.step SlabEvent.Ok (twoBlocksSys fun _ => 0)
      [.alloc 1, .free 72, .free 72] := by
    refine .cons trivial rfl (.cons (fun _ => ?_) rfl (.cons (fun _ => ?_) rfl trivial))
    · decide +kernel
    · decide +kernel
  exact ⟨_, rfl, run_slab (by decide) hinit hok rfl⟩

/-- Memory with the magic of a live block inside the payload of the second block. -/
def staleMem : Mem := fun x => if 80 ≤ x ∧ x < 84 then 0x4D else 0

/-- A pointer into the middle of a live block is accepted when the bytes before it look like a
header. -/
theorem slabFree_accepts_forged :
    ¬∀ (region bytes : Nat) (cfg : SlabConfig) (mem mem' : Mem) (a : SlabAllocator)
      (es : List SlabEvent) (s : SlabSys), region + bytes < 2 ^ 64 →
      slabInit region bytes cfg mem = (.ok, a, mem') → (∀ e ∈ es, ∀ m, e ≠ .client m) →
      run SlabSys.step ⟨a, mem', []⟩ es = some s → ∀ p, p ≠ 0 → p ∉ s.live →
      ∃ e, e ≠ .ok ∧ slabFree s.a s.mem p = (e, s.a, s.mem) := by
  intro h
  have hinit : twoBlocks staleMem = (.ok, (twoBlocks staleMem).2) :=
    twoBlocks_ok (by decide +kernel)
  obtain ⟨e, he, hfree⟩ := h 8 104 _ staleMem _ _ [.alloc 1] _ (by decide) hinit
    (by simp) rfl 88 (by decide) (by decide +kernel)
  refine he ((congrArg Prod.fst hfree).symm.trans ?_)
  decide +kernel

/-! ## Sizes -/

/-- The pointer is a block with room for `n` bytes. -/
def Usable (a : SlabAllocator) (q n : Nat) : Prop :=
  ∃ i, q ∈ blocksOf a i ∧ n ≤ (a.bins i).blockSize

/-- What `slab_alloc` returns has room for the request. -/
def AllocMeets (a : SlabAllocator) (mem : Mem) (n : BitVec 64) : Prop :=
  (slabAlloc a mem n).1 ≠ 0 → Usable a (slabAlloc a mem n).1 n.toNat

/-- A resized block has room and the old contents; a failed resizing leaves the state of before. -/
def ReallocMeets (a : SlabAllocator) (mem : Mem) (live : List Nat) (p : Nat) (n : BitVec 64) :
    Prop :=
  let r := slabRealloc a mem p n
  let kept := min (slabBlockSize a mem p) n.toNat
  (r.1 ≠ 0 → Usable a r.1 n.toNat ∧ r.2.2.bytes r.1 kept = mem.bytes p kept) ∧
  (r.1 = 0 → n ≠ 0 → SlabInv r.2.1 r.2.2 live ∧
    r.2.2.bytes p (slabBlockSize a mem p) = mem.bytes p (slabBlockSize a mem p))

/-- The size and its header fit 32 bits. -/
def Fits (n : BitVec 64) : Prop := n.toNat + 8 ≤ 2 ^ 32

/-- The bin that `size_to_bin` selects does not exist or has no free block. -/
def Exhausted (a : SlabAllocator) (n : BitVec 64) : Prop :=
  ∀ i : Bin, sizeToBin n = i.val → a.hasFree i = false

section Sizes

variable {a : SlabAllocator} {mem : Mem} {live : List Nat}

theorem not_usable (h : Placed a) {q : Nat} {n : BitVec 64} (hn : ¬Fits n) :
    ¬Usable a q n.toNat := by
  rintro ⟨i, -, hle⟩
  have hsize := size_le i.isLt
  rw [h.blockSize] at hle
  unfold Fits at hn
  omega

theorem alloc_usable (h : SlabInv a mem live) {n : BitVec 64} (hn : Fits n) :
    AllocMeets a mem n := by
  intro hnull
  rcases slabAlloc_cases h n with ⟨h0, -⟩ | ⟨i, k, -, hbin, -, hpop⟩
  · exact absurd h0 hnull
  · refine ⟨i, mem_blocksOf.mpr ⟨k, hpop.block, hpop.result.symm⟩, ?_⟩
    rcases sizeToBin_fits hn with hf | hf
    · rw [h.placed.blockSize, ← hbin]
      omega
    · omega

/-- A request that wraps is refused only when its wrong bin has nothing. -/
theorem alloc_null_iff (h : SlabInv a mem live) {n : BitVec 64} (hn : ¬Fits n) :
    (slabAlloc a mem n).1 = 0 ↔ Exhausted a n := by
  rw [slabAlloc_null h n]
  refine ⟨fun hc => hc.resolve_left fun e => hn ?_, .inr⟩
  rw [e]
  exact (by decide : (0 : BitVec 64).toNat + 8 ≤ 2 ^ 32)

theorem allocMeets_iff (h : SlabInv a mem live) (n : BitVec 64) :
    AllocMeets a mem n ↔ Fits n ∨ Exhausted a n := by
  by_cases hn : Fits n
  · exact ⟨fun _ => .inl hn, fun _ => alloc_usable h hn⟩
  · rw [← alloc_null_iff h hn]
    constructor
    · intro hmeets
      by_contra hc
      exact not_usable h.placed hn (hmeets fun e => hc (.inr e))
    · rintro (hfit | hnull) hne
      · exact absurd hfit hn
      · exact absurd hnull hne

theorem alloc_failed (h : SlabInv a mem live) {n : BitVec 64} (hnull : (slabAlloc a mem n).1 = 0) :
    SlabInv (slabAlloc a mem n).2.1 (slabAlloc a mem n).2.2 live ∧
      (slabAlloc a mem n).2.2 = mem := by
  rcases slabAlloc_cases h n with ⟨-, -, hinv, hmem⟩ | ⟨i, k, -, -, -, hpop⟩
  · exact ⟨hinv, hmem⟩
  · exact absurd hnull (hpop.inv.live_pos (List.mem_cons_self ..))

theorem reallocMeets_null (h : SlabInv a mem live) (n : BitVec 64) :
    ReallocMeets a mem live 0 n ↔ AllocMeets a mem n := by
  have hzero : slabBlockSize a mem 0 = 0 := rfl
  unfold ReallocMeets
  dsimp only
  rw [slabRealloc_null, hzero, Nat.zero_min]
  constructor
  · intro hmeets hne
    exact (hmeets.1 hne).1
  · intro hmeets
    exact ⟨fun hne => ⟨hmeets hne, rfl⟩, fun hnull _ => ⟨(alloc_failed h hnull).1, rfl⟩⟩

theorem reallocMeets_live (h : SlabInv a mem live) {p : Nat} (hp : p ∈ live) (n : BitVec 64) :
    ReallocMeets a mem live p n ↔
      n.toNat ≤ slabBlockSize a mem p ∨ AllocMeets a mem n := by
  by_cases hn : n = 0
  · -- `realloc(p, 0)` frees: the claim says nothing of it
    refine iff_of_true ⟨fun hne => ?_, fun _ hc => absurd hn hc⟩ (.inl ?_)
    · rw [hn, slabRealloc_zero h hp] at hne
      exact absurd rfl hne
    · rw [hn]
      exact Nat.zero_le _
  · rcases slabRealloc_cases h hp hn with ⟨hle, heq⟩ | ⟨hgrow, hnull, heq⟩ | ⟨hgrow, hnull, heq⟩
    · refine iff_of_true ?_ (.inl hle)
      obtain ⟨i, k, hk, rfl, -⟩ := h.live_block hp
      unfold ReallocMeets
      dsimp only
      rw [heq]
      refine ⟨fun _ => ⟨⟨i, mem_blocksOf.mpr ⟨k, hk, rfl⟩, ?_⟩, rfl⟩, fun h0 => ?_⟩
      · rw [← h.blockSize_live hk hp]
        exact hle
      · exact absurd h0 (h.live_pos hp)
    · refine iff_of_true ?_ (.inr fun hne => absurd hnull hne)
      obtain ⟨hinv, hmem⟩ := alloc_failed h hnull
      unfold ReallocMeets
      dsimp only
      rw [heq]
      exact ⟨fun hne => absurd hnull hne, fun _ _ => ⟨hinv, by rw [hmem]⟩⟩
    · have hresult : (slabRealloc a mem p n).1 = (slabAlloc a mem n).1 := by rw [heq]
      constructor
      · intro hmeets
        refine .inr fun _ => ?_
        rw [← hresult] at hnull ⊢
        exact (hmeets.1 hnull).1
      · rintro (hle | hmeets)
        · exact absurd hgrow (Nat.not_lt.mpr hle)
        · have hfit : Fits n := by
            by_contra hc
            exact not_usable h.placed hc (hmeets hnull)
          obtain ⟨-, -, -, -, -, hbytes⟩ := slabRealloc_moved h hp hfit hgrow hnull
          refine ⟨fun _ => ⟨hresult ▸ hmeets hnull, ?_⟩, fun h0 => ?_⟩
          · rw [Nat.min_eq_left (Nat.le_of_lt hgrow)]
            exact hbytes
          · exact absurd (hresult ▸ h0) hnull

/-- In every state and for every size: allocation and resizing do what they say exactly when the
size and its header fit 32 bits, or the bin of the wrapped size has nothing to give, or the block
to resize is big enough as it is. -/
theorem slab_size_iff (h : SlabInv a mem live) (n : BitVec 64) :
    (AllocMeets a mem n ↔ Fits n ∨ Exhausted a n) ∧
      ∀ p, p = 0 ∨ p ∈ live →
        (ReallocMeets a mem live p n ↔
          n.toNat ≤ slabBlockSize a mem p ∨ Fits n ∨ Exhausted a n) := by
  have halloc := allocMeets_iff h n
  refine ⟨halloc, fun p hp => ?_⟩
  rw [← halloc]
  rcases hp with rfl | hp
  · rw [reallocMeets_null h n]
    refine ⟨.inr, ?_⟩
    rintro (hle | hmeets)
    · have hzero : n.toNat = 0 := Nat.le_zero.mp hle
      refine halloc.mpr (.inl ?_)
      unfold Fits
      omega
    · exact hmeets
  · exact reallocMeets_live h hp n

end Sizes

/-- A small request of a fresh allocator fits, and so does resizing nothing. -/
theorem slab_size_iff_small : AllocMeets (twoBlocksSys fun _ => 0).a (twoBlocksSys fun _ => 0).mem 5 ∧
    ReallocMeets (twoBlocksSys fun _ => 0).a (twoBlocksSys fun _ => 0).mem [] 0 5 := by
  have hinit : twoBlocks (fun _ => 0) = (.ok, (twoBlocks fun _ => 0).2) :=
    twoBlocks_ok (by decide +kernel)
  have hfit : Fits 5 := (by decide : (5 : BitVec 64).toNat + 8 ≤ 2 ^ 32)
  obtain ⟨halloc, hrealloc⟩ := slab_size_iff (slabInit_ok (by decide) hinit) 5
  exact ⟨halloc.mpr (.inl hfit), (hrealloc 0 (.inl rfl)).mpr (.inr (.inl hfit))⟩

/-- A guest that asks for 2³² − 1 bytes is given 32. -/
theorem slabAlloc_too_small :
    ¬∀ (a : SlabAllocator) (mem : Mem) (live : List Nat), SlabInv a mem live →
      ∀ n : BitVec 64, n.toNat < 2 ^ 32 → AllocMeets a mem n := by
  intro h
  have hinit : twoBlocks (fun _ => 0) = (.ok, (twoBlocks fun _ => 0).2) :=
    twoBlocks_ok (by decide +kernel)
  have hinv := slabInit_ok (by decide) hinit
  have hmeets := h _ _ _ hinv 0xFFFFFFFF (by decide)
  have hne : (slabAlloc (twoBlocks fun _ => 0).2.1 (twoBlocks fun _ => 0).2.2 0xFFFFFFFF).1 ≠ 0 := by
    decide +kernel
  refine not_usable hinv.placed ?_ (hmeets hne)
  exact (by decide : ¬(0xFFFFFFFF : BitVec 64).toNat + 8 ≤ 2 ^ 32)

/-! ## Back to where it was -/

section Restored

variable {s s' : SlabSys}

theorem slabAlloc_shape (a : SlabAllocator) (mem : Mem) (n : BitVec 64) :
    SameShape a (slabAlloc a mem n).2.1 := by
  unfold slabAlloc
  dsimp only
  split_ifs
  · exact .refl a
  · exact slabPop_shape a mem _
  · exact failed_shape a
  · exact failed_shape a

theorem slabFree_shape (a : SlabAllocator) (mem : Mem) (p : Nat) :
    SameShape a (slabFree a mem p).2.1 := by
  unfold slabFree
  dsimp only
  split_ifs <;> first | exact .refl a | exact slabPush_shape a mem _ p

theorem step_shape {e : SlabEvent} (hs : SlabSys.step s e = some s') : SameShape s.a s'.a := by
  cases e with
  | alloc n =>
    cases hs
    exact slabAlloc_shape ..
  | free p =>
    cases hs
    exact slabFree_shape ..
  | realloc p n =>
    cases hs
    unfold SlabSys.after slabRealloc
    dsimp only
    have halloc := slabAlloc_shape s.a s.mem n
    split_ifs <;> first
      | exact .refl s.a
      | exact halloc
      | exact slabFree_shape ..
      | exact halloc.trans (slabFree_shape ..)
  | client mem =>
    cases hs
    exact .refl s.a

/-- Between any two points of a run: the allocator is back exactly when the clients hold what they
held. -/
theorem run_restored (h : s.Inv) {es : List SlabEvent} (hok : Meets SlabSys.step SlabEvent.Ok s es)
    (hrun : run SlabSys.step s es = some s') :
    Restored s.a s.mem s'.a s'.mem ↔ ∀ p, p ∈ s'.live ↔ p ∈ s.live := by
  have hstep : ∀ t e t', (t.Inv ∧ SameShape s.a t.a) → SlabEvent.Ok t e →
      SlabSys.step t e = some t' → t'.Inv ∧ SameShape s.a t'.a := fun t e t' ht hok hs =>
    ⟨step_slab t e t' ht.1 hok hs, ht.2.trans (step_shape hs)⟩
  obtain ⟨h', hshape⟩ := run_invariant hstep ⟨h, .refl s.a⟩ hok hrun
  exact restored_iff h h' hshape

end Restored

theorem run_restored_one : ∃ s, run SlabSys.step (twoBlocksSys fun _ => 0) [.alloc 1, .free 72] =
    some s ∧ Restored (twoBlocksSys fun _ => 0).a (twoBlocksSys fun _ => 0).mem s.a s.mem := by
  have hinit : twoBlocks (fun _ => 0) = (.ok, (twoBlocks fun _ => 0).2) :=
    twoBlocks_ok (by decide +kernel)
  have hinv : (twoBlocksSys fun _ => 0).Inv := slabInit_ok (by decide) hinit
  have hok : Meets SlabSys.step SlabEvent.Ok (twoBlocksSys fun _ => 0) [.alloc 1, .free 72] := by
    refine .cons trivial rfl (.cons (fun _ => ?_) rfl trivial)
    decide +kernel
  obtain ⟨s, hs, hlive⟩ : ∃ s, run SlabSys.step (twoBlocksSys fun _ => 0) [.alloc 1, .free 72] =
    some s ∧ s.live = [] := ⟨_, rfl, by decide +kernel⟩
  refine ⟨s, hs, (run_restored hinv hok hs).mpr fun p => ?_⟩
  rw [hlive]
  rfl

end Microgarbage.Memory
