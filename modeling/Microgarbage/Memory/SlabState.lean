import Microgarbage.Lib.Pool
import Microgarbage.Memory.Slab
import Mathlib.Data.List.Nodup

/-!
# The state of a slab allocator

Where the stacks and the blocks lie (`Placed`), which bytes of the region are the allocator's own
(`Bookkeeping`), and the invariant `SlabInv`: the stacks in memory and the pointers a client holds
are a valid pool over the blocks, and the headers, the bitmap and the statistics agree with it.
-/

namespace Microgarbage.Memory

open Lib

/-! ## Geometry -/

section Geometry

variable (a : SlabAllocator) (i : Bin)

def count : Nat := (a.bins i).bucketCount.toNat

def blockStart (k : Nat) : Nat := (a.bins i).blocks + k * blockTotal (a.bins i)

def payload (k : Nat) : Nat := blockStart a i k + slabHeaderSize

def blocksEnd : Nat := (a.bins i).blocks + count a i * blockTotal (a.bins i)

def stackEnd : Nat := (a.bins i).stack + 8 * count a i

/-- The user pointers of a bin. -/
def blocksOf : List Nat := (List.range (count a i)).map (payload a i)

end Geometry

/-- The parts of the region are in it and apart; empty bins have none. -/
structure Placed (a : SlabAllocator) : Prop where
  blockSize : ∀ i, (a.bins i).blockSize = slabMinBlock * 2 ^ i.val
  region_pos : 0 < a.region
  region_lt : a.region + a.regionBytes < 2 ^ 64
  stack_lo : ∀ i, count a i ≠ 0 → a.region ≤ (a.bins i).stack
  stack_apart : ∀ i j, i ≠ j → count a i ≠ 0 → count a j ≠ 0 →
    stackEnd a i ≤ (a.bins j).stack ∨ stackEnd a j ≤ (a.bins i).stack
  stack_blocks : ∀ i j, count a i ≠ 0 → count a j ≠ 0 → stackEnd a i ≤ (a.bins j).blocks
  blocks_apart : ∀ i j, i ≠ j → count a i ≠ 0 → count a j ≠ 0 →
    blocksEnd a i ≤ (a.bins j).blocks ∨ blocksEnd a j ≤ (a.bins i).blocks
  blocks_hi : ∀ i, count a i ≠ 0 → blocksEnd a i ≤ a.region + a.regionBytes

/-- Two handles over the same parts. -/
structure SameShape (a a' : SlabAllocator) : Prop where
  region : a'.region = a.region
  regionBytes : a'.regionBytes = a.regionBytes
  blockSize : ∀ i, (a'.bins i).blockSize = (a.bins i).blockSize
  bucketCount : ∀ i, (a'.bins i).bucketCount = (a.bins i).bucketCount
  stack : ∀ i, (a'.bins i).stack = (a.bins i).stack
  blocks : ∀ i, (a'.bins i).blocks = (a.bins i).blocks

namespace SameShape

theorem refl (a : SlabAllocator) : SameShape a a :=
  ⟨rfl, rfl, fun _ => rfl, fun _ => rfl, fun _ => rfl, fun _ => rfl⟩

theorem trans {a b c : SlabAllocator} (h : SameShape a b) (h' : SameShape b c) : SameShape a c where
  region := h'.region.trans h.region
  regionBytes := h'.regionBytes.trans h.regionBytes
  blockSize i := (h'.blockSize i).trans (h.blockSize i)
  bucketCount i := (h'.bucketCount i).trans (h.bucketCount i)
  stack i := (h'.stack i).trans (h.stack i)
  blocks i := (h'.blocks i).trans (h.blocks i)

variable {a a' : SlabAllocator} (h : SameShape a a')

include h

theorem count (i : Bin) : count a' i = Memory.count a i := congrArg BitVec.toNat (h.bucketCount i)

theorem total (i : Bin) : blockTotal (a'.bins i) = blockTotal (a.bins i) := by
  unfold blockTotal
  rw [h.blockSize]

theorem start (i : Bin) (k : Nat) : blockStart a' i k = blockStart a i k := by
  unfold blockStart
  rw [h.blocks, h.total]

theorem payload (i : Bin) (k : Nat) : payload a' i k = Memory.payload a i k := by
  unfold Memory.payload
  rw [h.start]

theorem blocksOf : blocksOf a' = Memory.blocksOf a := by
  funext i
  unfold Memory.blocksOf
  rw [h.count]
  exact List.map_congr_left fun k _ => h.payload i k

theorem placed (hp : Placed a) : Placed a' := by
  have hs : ∀ i, stackEnd a' i = stackEnd a i := fun i => by
    unfold stackEnd
    rw [h.stack, h.count]
  have hb : ∀ i, blocksEnd a' i = blocksEnd a i := fun i => by
    unfold blocksEnd
    rw [h.blocks, h.count, h.total]
  obtain ⟨h1, h2, h3, h4, h5, h6, h7, h8⟩ := hp
  constructor
  · exact fun i => (h.blockSize i).trans (h1 i)
  · rw [h.region]
    exact h2
  · rw [h.region, h.regionBytes]
    exact h3
  · intro i
    rw [h.count, h.region, h.stack]
    exact h4 i
  · intro i j
    rw [h.count, h.count, hs, hs, h.stack, h.stack]
    exact h5 i j
  · intro i j
    rw [h.count, h.count, hs, h.blocks]
    exact h6 i j
  · intro i j
    rw [h.count, h.count, hb, hb, h.blocks, h.blocks]
    exact h7 i j
  · intro i
    rw [h.count, hb, h.region, h.regionBytes]
    exact h8 i

end SameShape

theorem mem_blocksOf {a : SlabAllocator} {i : Bin} {p : Nat} :
    p ∈ blocksOf a i ↔ ∃ k < count a i, payload a i k = p := by
  simp [blocksOf]

namespace Placed

variable {a : SlabAllocator} (h : Placed a)

include h

theorem size_pos (i : Bin) : 0 < (a.bins i).blockSize := by
  rw [h.blockSize]
  exact Nat.mul_pos (Nat.zero_lt_succ 31) (Nat.two_pow_pos _)

omit h in
theorem start_step {i : Bin} {k l : Nat} (hkl : k < l) :
    blockStart a i k + blockTotal (a.bins i) ≤ blockStart a i l := by
  unfold blockStart
  have hmul := Nat.mul_le_mul_right (blockTotal (a.bins i)) (Nat.succ_le_of_lt hkl)
  rw [Nat.succ_mul] at hmul
  omega

omit h in
theorem start_in {i : Bin} {k : Nat} (hk : k < count a i) :
    (a.bins i).blocks ≤ blockStart a i k ∧
      blockStart a i k + blockTotal (a.bins i) ≤ blocksEnd a i :=
  ⟨Nat.le_add_right .., start_step hk⟩

theorem blocks_disjoint {i j : Bin} {k l : Nat} (hk : k < count a i) (hl : l < count a j)
    (hne : ¬(i = j ∧ k = l)) :
    blockStart a i k + blockTotal (a.bins i) ≤ blockStart a j l ∨
      blockStart a j l + blockTotal (a.bins j) ≤ blockStart a i k := by
  by_cases hij : i = j
  · subst hij
    rcases Nat.lt_or_gt_of_ne fun e => hne ⟨rfl, e⟩ with hlt | hlt
    · exact .inl (start_step hlt)
    · exact .inr (start_step hlt)
  · obtain ⟨hi₁, hi₂⟩ := start_in hk
    obtain ⟨hj₁, hj₂⟩ := start_in hl
    rcases h.blocks_apart i j hij (by omega) (by omega) with hle | hle
    · left
      omega
    · right
      omega

theorem payload_inj {i j : Bin} {k l : Nat} (hk : k < count a i) (hl : l < count a j)
    (he : payload a i k = payload a j l) : i = j ∧ k = l := by
  by_contra hne
  have hi := h.size_pos i
  have hj := h.size_pos j
  unfold payload at he
  rcases h.blocks_disjoint hk hl hne with hd | hd
  · unfold blockTotal at hd
    omega
  · unfold blockTotal at hd
    omega

theorem stock : Stock (blocksOf a) where
  nodup i := by
    refine List.Nodup.map_on (fun k hk l hl he => ?_) List.nodup_range
    exact (h.payload_inj (List.mem_range.mp hk) (List.mem_range.mp hl) he).2
  apart {i j p} hi hj := by
    obtain ⟨k, hk, hkp⟩ := mem_blocksOf.mp hi
    obtain ⟨l, hl, hlp⟩ := mem_blocksOf.mp hj
    exact (h.payload_inj hk hl (hkp.trans hlp.symm)).1

theorem block_region {i : Bin} {k : Nat} (hk : k < count a i) :
    a.region ≤ blockStart a i k ∧
      blockStart a i k + blockTotal (a.bins i) ≤ a.region + a.regionBytes := by
  obtain ⟨hlo, hhi⟩ := start_in hk
  have hn : count a i ≠ 0 := by omega
  have hs := h.stack_blocks i i hn hn
  have hl := h.stack_lo i hn
  have hh := h.blocks_hi i hn
  unfold stackEnd at hs
  omega

theorem block_stack {i j : Bin} {k : Nat} (hk : k < count a i) (hj : count a j ≠ 0) :
    stackEnd a j ≤ blockStart a i k := by
  have hs := h.stack_blocks j i hj (by omega)
  have hlo := (start_in hk).1
  omega

theorem headerOf_payload {i : Bin} {k : Nat} (hk : k < count a i) :
    headerOf (payload a i k) = blockStart a i k := by
  obtain ⟨hlo, hhi⟩ := h.block_region hk
  have hlt := h.region_lt
  unfold headerOf payload slabHeaderSize
  rw [show blockStart a i k + 8 + (2 ^ 64 - 8) = blockStart a i k + 2 ^ 64 by omega,
    Nat.add_mod_right]
  exact Nat.mod_eq_of_lt (by omega)

theorem payload_lt {i : Bin} {k : Nat} (hk : k < count a i) : payload a i k < 2 ^ 64 := by
  obtain ⟨-, hhi⟩ := h.block_region hk
  have hlt := h.region_lt
  unfold blockTotal at hhi
  unfold payload
  omega

end Placed

/-! ## The allocator's own bytes -/

/-- The bytes of the stacks and of the headers. -/
inductive Bookkeeping (a : SlabAllocator) (x : Nat) : Prop
  | stack (i : Bin) (h : (a.bins i).stack ≤ x) (h' : x < stackEnd a i)
  | header (i : Bin) (k : Nat) (hk : k < count a i) (h : blockStart a i k ≤ x)
    (h' : x < blockStart a i k + slabHeaderSize)

/-- The free stack of a bin as the memory has it, top last. -/
def stackOf (a : SlabAllocator) (mem : Mem) (i : Bin) : List Nat :=
  (List.range (a.bins i).top.toNat).map fun k => (mem.load64 ((a.bins i).stack + 8 * k)).toNat

@[simp] theorem length_stackOf (a : SlabAllocator) (mem : Mem) (i : Bin) :
    (stackOf a mem i).length = (a.bins i).top.toNat := by
  simp [stackOf]

/-- Bytes `[p, p + n)` are the same in two memories. -/
def SameBytes (mem mem' : Mem) (p n : Nat) : Prop := ∀ x, p ≤ x → x < p + n → mem' x = mem x

theorem SameBytes.load32 {mem mem' : Mem} {p n q : Nat} (h : SameBytes mem mem' p n) (hq : p ≤ q)
    (hn : q + 4 ≤ p + n) : mem'.load32 q = mem.load32 q :=
  Mem.load32_congr fun i hi => h (q + i) (by omega) (by omega)

theorem SameBytes.load64 {mem mem' : Mem} {p n q : Nat} (h : SameBytes mem mem' p n) (hq : p ≤ q)
    (hn : q + 8 ≤ p + n) : mem'.load64 q = mem.load64 q :=
  Mem.load64_congr fun i hi => h (q + i) (by omega) (by omega)

/-! ## The invariant -/

def magicOf (live : Bool) : BitVec 32 := if live then slabMagicAllocated else slabMagicFreed

theorem toNat_bin (i : Bin) : (BitVec.ofNat 32 i.val).toNat = i.val := by
  rw [BitVec.toNat_ofNat]
  exact Nat.mod_eq_of_lt (by omega)

/-- The introspection call on a block whose header is that of a live one. -/
theorem Placed.blockSize_block {a : SlabAllocator} {mem : Mem} (h : Placed a) {i : Bin} {k : Nat}
    (hk : k < count a i) (hm : mem.load32 (blockStart a i k) = slabMagicAllocated)
    (hbin : mem.load32 (blockStart a i k + 4) = BitVec.ofNat 32 i.val) :
    slabBlockSize a mem (payload a i k) = (a.bins i).blockSize := by
  obtain ⟨hlo, hhi⟩ := h.block_region hk
  have hpos : payload a i k ≠ 0 := by
    unfold payload slabHeaderSize
    omega
  unfold slabBlockSize
  unfold blockTotal slabHeaderSize at hhi
  dsimp only
  rw [if_neg hpos, h.headerOf_payload hk, if_neg (by omega), if_neg (not_not_intro hm), hbin,
    dif_pos (by rw [toNat_bin]; exact i.isLt)]
  congr 1
  exact congrArg a.bins (Fin.ext (toNat_bin i))

theorem magic_ne : slabMagicFreed ≠ slabMagicAllocated := by decide

/-- The handle and the memory of an allocator whose clients hold the pointers `live`. -/
structure SlabInv (a : SlabAllocator) (mem : Mem) (live : List Nat) : Prop where
  placed : Placed a
  pool : Pool.Valid (blocksOf a) ⟨stackOf a mem, live⟩
  bitmap : ∀ i, a.hasFree i = decide ((a.bins i).top ≠ 0)
  bin : ∀ i k, k < count a i → mem.load32 (blockStart a i k + 4) = BitVec.ofNat 32 i.val
  magic : ∀ i k, k < count a i →
    mem.load32 (blockStart a i k) = magicOf (decide (payload a i k ∈ live))
  inUse : ∀ i, (a.bins i).blocksInUse.toNat = (live.filter (· ∈ blocksOf a i)).length
  total : a.totalBytesInUse = (live.map (slabBlockSize a mem)).sum

/-- `free` would accept this pointer although nobody was given it: its eight bytes before carry the
magic of a live block and a bin. -/
def Forged (a : SlabAllocator) (mem : Mem) (live : List Nat) (p : Nat) : Prop :=
  p ∉ live ∧ a.region ≤ headerOf p ∧ headerOf p < a.region + a.regionBytes ∧
    mem.load32 (headerOf p) = slabMagicAllocated ∧
      (mem.load32 (headerOf p + 4)).toNat < 16

instance (a : SlabAllocator) (mem : Mem) (live : List Nat) (p : Nat) :
    Decidable (Forged a mem live p) :=
  inferInstanceAs (Decidable (_ ∧ _))

namespace SlabInv

variable {a : SlabAllocator} {mem : Mem} {live : List Nat} (h : SlabInv a mem live)

include h

theorem counts (i : Bin) :
    (a.bins i).top.toNat + (a.bins i).blocksInUse.toNat = (a.bins i).bucketCount.toNat := by
  have hc := h.pool.count h.placed.stock i
  have hlen : (blocksOf a i).length = count a i := by simp [blocksOf]
  rw [h.inUse i, ← length_stackOf a mem i, hc, hlen]
  rfl

theorem live_block {p : Nat} (hp : p ∈ live) :
    ∃ i k, k < count a i ∧ payload a i k = p ∧ headerOf p = blockStart a i k ∧
      mem.load32 (blockStart a i k) = slabMagicAllocated ∧
      mem.load32 (blockStart a i k + 4) = BitVec.ofNat 32 i.val := by
  obtain ⟨i, hi⟩ := h.pool.live_item hp
  obtain ⟨k, hk, rfl⟩ := mem_blocksOf.mp hi
  refine ⟨i, k, hk, rfl, h.placed.headerOf_payload hk, ?_, h.bin i k hk⟩
  rw [h.magic i k hk, decide_eq_true hp]
  rfl

theorem live_pos {p : Nat} (hp : p ∈ live) : p ≠ 0 := by
  obtain ⟨i, k, -, rfl, -⟩ := h.live_block hp
  unfold payload slabHeaderSize
  omega

theorem blockSize_live {i : Bin} {k : Nat} (hk : k < count a i) (hp : payload a i k ∈ live) :
    slabBlockSize a mem (payload a i k) = (a.bins i).blockSize := by
  refine h.placed.blockSize_block hk ?_ (h.bin i k hk)
  rw [h.magic i k hk, decide_eq_true hp]
  rfl

theorem frame {mem' : Mem} (hm : ∀ x, Bookkeeping a x → mem' x = mem x) : SlabInv a mem' live := by
  have hstack : ∀ i, stackOf a mem' i = stackOf a mem i := fun i => by
    unfold stackOf
    refine List.map_congr_left fun k hk => ?_
    have hlt := List.mem_range.mp hk
    have hc := h.counts i
    refine congrArg BitVec.toNat (Mem.load64_congr fun j hj => ?_)
    refine hm _ (.stack i (by omega) ?_)
    unfold stackEnd count
    omega
  have hhead : ∀ i k, k < count a i → SameBytes mem mem' (blockStart a i k) 8 :=
    fun i k hk x hx hx' => hm x (.header i k hk hx hx')
  have hbin : ∀ i k, k < count a i →
      mem'.load32 (blockStart a i k + 4) = BitVec.ofNat 32 i.val := fun i k hk => by
    rw [(hhead i k hk).load32 (by omega) (by omega)]
    exact h.bin i k hk
  have hmagic : ∀ i k, k < count a i →
      mem'.load32 (blockStart a i k) = magicOf (decide (payload a i k ∈ live)) := fun i k hk => by
    rw [(hhead i k hk).load32 (by omega) (by omega)]
    exact h.magic i k hk
  refine ⟨h.placed, ?_, h.bitmap, hbin, hmagic, h.inUse, ?_⟩
  · rw [funext hstack]
    exact h.pool
  · rw [h.total]
    refine congrArg List.sum (List.map_congr_left fun p hp => ?_)
    obtain ⟨i, k, hk, rfl, hh, -⟩ := h.live_block hp
    unfold slabBlockSize
    dsimp only
    rw [hh, (hhead i k hk).load32 (by omega) (by omega), (hhead i k hk).load32 (by omega) (by omega)]

end SlabInv

end Microgarbage.Memory
