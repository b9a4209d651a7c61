import Microgarbage.Lib.Bitmap
import Microgarbage.Lib.BlockChains
import Microgarbage.Storage.Blocks
import Microgarbage.Storage.Geometry

/-!
# The bitmap and the allocation of blocks

What setting and clearing one bit does to the others, and from it what `alloc_block_v` and
`free_block_v` do: which bit, which bytes, which count.
-/

namespace Microgarbage.Storage

open Lib

/-! ## One bit -/

/-- The bytes of a block. -/
def InBlock (b x : Nat) : Prop := b * 128 ≤ x ∧ x < b * 128 + 128

theorem zeroBlock_in (m : Mem) {b x : Nat} (h : InBlock b x) :
    memset0 m (blockPtr b) trashfsBlockSize x = 0 :=
  Mem.overlay_in (f := fun _ => 0) h.1 h.2

theorem zeroBlock_out (m : Mem) {b x : Nat} (h : ¬InBlock b x) :
    memset0 m (blockPtr b) trashfsBlockSize x = m x := by
  refine Mem.overlay_out ?_
  unfold InBlock at h
  unfold trashfsBlockSize
  rw [blockPtr_eq]
  omega

section Bit

variable (m : Mem) (start b c : Nat)

theorem bitmapBit_set : bitmapBit (bitmapSet m start b) start c =
    (decide (c = b) || bitmapBit m start c) := by
  unfold bitmapBit bitmapSet
  by_cases hbyte : blockPtr start + c / 8 = blockPtr start + b / 8
  · have hset := getLsbD_set_bit (m (blockPtr start + c / 8)) (b % 8) (Nat.mod_lt c (by omega))
    rw [if_pos hbyte, hset]
    have hiff : c % 8 = b % 8 ↔ c = b := by omega
    rw [decide_eq_decide.mpr hiff]
  · have hne : c ≠ b := fun e => hbyte (by rw [e])
    rw [if_neg hbyte, decide_eq_false hne, Bool.false_or]

theorem bitmapBit_clear : bitmapBit (bitmapClear m start b) start c =
    (!decide (c = b) && bitmapBit m start c) := by
  unfold bitmapBit bitmapClear
  by_cases hbyte : blockPtr start + c / 8 = blockPtr start + b / 8
  · have hclear := getLsbD_clear_bit (m (blockPtr start + c / 8)) (b % 8) (Nat.mod_lt c (by omega))
    rw [if_pos hbyte, hclear]
    have hiff : c % 8 = b % 8 ↔ c = b := by omega
    rw [decide_eq_decide.mpr hiff]
  · have hne : c ≠ b := fun e => hbyte (by rw [e])
    rw [if_neg hbyte, decide_eq_false hne, Bool.not_false, Bool.true_and]

variable {m start b}

theorem bitmapSet_out {x : Nat} (h : x ≠ blockPtr start + b / 8) : bitmapSet m start b x = m x :=
  if_neg h

theorem bitmapClear_out {x : Nat} (h : x ≠ blockPtr start + b / 8) :
    bitmapClear m start b x = m x :=
  if_neg h

theorem bitmapBit_congr {m' : Mem}
    (h : m' (blockPtr start + b / 8) = m (blockPtr start + b / 8)) :
    bitmapBit m' start b = bitmapBit m start b := by
  unfold bitmapBit
  rw [h]

end Bit

theorem TrashfsLayout.Ordered.bit_area {g : TrashfsLayout} (h : g.Ordered) {b : Nat}
    (hb : b < g.totalBlocks) : g.bitmapArea.Holds (blockPtr g.bitmapStart + b / 8) := by
  have hs := h.bitmapStart
  have hbits := h.bits
  unfold Area.Holds TrashfsLayout.bitmapArea
  rw [blockPtr_eq]
  dsimp only
  omega

theorem TrashfsLayout.Ordered.bitmap_apart {g : TrashfsLayout} (h : g.Ordered) {b x : Nat}
    (hb : g.dataStart ≤ b) (hx : g.bitmapArea.Holds x) : ¬InBlock b x := by
  have hs := h.bitmapStart
  have hi := h.inodeStart
  have hd := h.dataStart
  unfold Area.Holds TrashfsLayout.bitmapArea at hx
  unfold InBlock
  dsimp only at hx
  omega

/-! ## Allocation -/

/-- Block `b` was free and is now allocated and zero; nothing else changed. -/
structure Allocated (v v' : TrashfsVolume) (b : Nat) : Prop where
  layout : v'.toTrashfsLayout = v.toTrashfsLayout
  freeInodes : v'.freeInodes = v.freeInodes
  freeBlocks : v'.freeBlocks = v.freeBlocks - 1
  data : v.dataStart ≤ b ∧ b < v.totalBlocks
  free : v.bitmapTest b = false
  bits : ∀ c < v.totalBlocks, v'.bitmapTest c = (decide (c = b) || v.bitmapTest c)
  zero : ∀ x, InBlock b x → v'.region x = 0
  frame : ∀ x, ¬v.bitmapArea.Holds x → ¬InBlock b x → v'.region x = v.region x

/-- No data block is free. -/
def Full (v : TrashfsVolume) : Prop :=
  ∀ b, v.dataStart ≤ b → b < v.totalBlocks → v.bitmapTest b = true

theorem mem_dataBlocks {g : TrashfsLayout} {b : Nat} (h : g.Ordered) :
    b ∈ g.dataBlocks ↔ g.dataStart ≤ b ∧ b < g.totalBlocks := by
  have hd := h.data
  unfold TrashfsLayout.dataBlocks
  rw [List.mem_range'_1]
  omega

variable {v : TrashfsVolume}

theorem allocBlock_spec (h : v.Ordered) :
    (v.allocBlock = (trashfsBlockNone, v) ∧ Full v) ∨
      ∃ b v', v.allocBlock = (b, v') ∧ b ≠ trashfsBlockNone ∧ Allocated v v' b := by
  unfold TrashfsVolume.allocBlock
  cases hfind : v.dataBlocks.find? fun b => !v.bitmapTest b with
  | none =>
    refine .inl ⟨rfl, fun b hb hb' => ?_⟩
    have hall := List.find?_eq_none.mp hfind b ((mem_dataBlocks h).mpr ⟨hb, hb'⟩)
    simpa using hall
  | some b =>
    have hmem := (mem_dataBlocks h).mp (List.mem_of_find?_eq_some hfind)
    have hfree : v.bitmapTest b = false := by simpa using List.find?_some hfind
    have hpos : 0 < v.dataStart := by
      rw [h.dataStart, h.inodeStart]
      omega
    refine .inr ⟨b, _, rfl, ?_, rfl, rfl, rfl, hmem, hfree, fun c hc => ?_, fun x hx => ?_,
      fun x hbit hx => ?_⟩
    · unfold trashfsBlockNone
      omega
    · have hap := h.bitmap_apart hmem.1 (h.bit_area hc)
      exact (bitmapBit_congr (zeroBlock_out _ hap)).trans (bitmapBit_set ..)
    · exact zeroBlock_in _ hx
    · have hne : x ≠ blockPtr v.bitmapStart + b / 8 := fun e => hbit (e ▸ h.bit_area hmem.2)
      exact (zeroBlock_out _ hx).trans (bitmapSet_out hne)

/-- Block `b` was allocated and is now free; nothing else changed. -/
structure Freed (v v' : TrashfsVolume) (b : Nat) : Prop where
  layout : v'.toTrashfsLayout = v.toTrashfsLayout
  freeInodes : v'.freeInodes = v.freeInodes
  freeBlocks : v'.freeBlocks = v.freeBlocks + 1
  bits : ∀ c < v.totalBlocks, v'.bitmapTest c = (!decide (c = b) && v.bitmapTest c)
  frame : ∀ x, ¬v.bitmapArea.Holds x → v'.region x = v.region x

theorem freeBlock_spec (h : v.Ordered) {b : Nat} (hb : v.dataStart ≤ b ∧ b < v.totalBlocks)
    (hset : v.bitmapTest b = true) : Freed v (v.freeBlock b) b := by
  have hpos : 0 < v.dataStart := by
    rw [h.dataStart, h.inodeStart]
    omega
  unfold TrashfsVolume.freeBlock trashfsBlockNone
  rw [if_neg (by omega), if_neg (by omega), if_pos hset]
  refine ⟨rfl, rfl, rfl, fun c _ => bitmapBit_clear .., fun x hx => ?_⟩
  have hne : x ≠ blockPtr v.bitmapStart + b / 8 := fun e => hx (e ▸ h.bit_area hb.2)
  exact bitmapClear_out hne

/-! ## Counts -/

/-- The number of free data blocks by the bitmap. -/
def clearBlocks (v : TrashfsVolume) : Nat := v.dataBlocks.countP fun b => !v.bitmapTest b

theorem nodup_dataBlocks (g : TrashfsLayout) : g.dataBlocks.Nodup := List.nodup_range'

theorem full_iff (h : v.Ordered) : Full v ↔ clearBlocks v = 0 := by
  unfold clearBlocks Full
  rw [List.countP_eq_zero]
  constructor
  · intro hf b hb
    obtain ⟨hlo, hhi⟩ := (mem_dataBlocks h).mp hb
    simp [hf b hlo hhi]
  · intro hz b hlo hhi
    simpa using hz b ((mem_dataBlocks h).mpr ⟨hlo, hhi⟩)

theorem Allocated.clear {v v' : TrashfsVolume} {b : Nat} (h : v.Ordered) (ha : Allocated v v' b) :
    clearBlocks v = clearBlocks v' + 1 := by
  unfold clearBlocks
  rw [ha.layout]
  refine countP_flip (nodup_dataBlocks _) ((mem_dataBlocks h).mpr ha.data) ?_ ?_ fun c hc hne => ?_
  · rw [ha.free]
    rfl
  · rw [ha.bits b ha.data.2, decide_eq_true rfl]
    rfl
  · rw [ha.bits c ((mem_dataBlocks h).mp hc).2, decide_eq_false hne, Bool.false_or]

theorem Freed.clear {v v' : TrashfsVolume} {b : Nat} (h : v.Ordered)
    (hb : v.dataStart ≤ b ∧ b < v.totalBlocks) (hset : v.bitmapTest b = true)
    (hf : Freed v v' b) : clearBlocks v' = clearBlocks v + 1 := by
  unfold clearBlocks
  rw [hf.layout]
  refine countP_flip (nodup_dataBlocks _) ((mem_dataBlocks h).mpr hb) ?_ ?_ fun c hc hne => ?_
  · rw [hf.bits b hb.2, decide_eq_true rfl]
    rfl
  · rw [hset]
    rfl
  · rw [hf.bits c ((mem_dataBlocks h).mp hc).2, decide_eq_false hne, Bool.not_false, Bool.true_and]

/-! ## Exhaustion -/

/-- Exactly `n` allocations succeed in a row. -/
def Exhausts {σ : Type*} (alloc : σ → Option σ) : Nat → σ → Prop
  | 0, s => alloc s = none
  | n + 1, s => ∃ s', alloc s = some s' ∧ Exhausts alloc n s'

def takeBlock (v : TrashfsVolume) : Option TrashfsVolume :=
  if v.allocBlock.1 = trashfsBlockNone then none else some v.allocBlock.2

theorem exhausts_blocks (h : v.Ordered) : Exhausts takeBlock (clearBlocks v) v := by
  generalize hn : clearBlocks v = n
  induction n generalizing v with
  | zero =>
    have hfull := (full_iff h).mpr hn
    rcases allocBlock_spec h with ⟨hnone, -⟩ | ⟨b, v', -, -, ha⟩
    · unfold Exhausts takeBlock
      rw [hnone, if_pos rfl]
    · have hset := hfull b ha.data.1 ha.data.2
      rw [ha.free] at hset
      cases hset
  | succ n ih =>
    rcases allocBlock_spec h with ⟨-, hfull⟩ | ⟨b, v', hb, hne, ha⟩
    · rw [(full_iff h).mp hfull] at hn
      cases hn
    · refine ⟨v', ?_, ih (ha.layout ▸ h) ?_⟩
      · unfold takeBlock
        rw [hb, if_neg hne]
      · have hclear := ha.clear h
        omega

end Microgarbage.Storage
