import Microgarbage.Storage.Volume

/-!
# The areas of a mounted volume

`trashfs_mount` relates the fields of the superblock by sums of words and bounds only the first data
block. This file says what it accepts, and when the areas that an accepted superblock describes lie
inside the region, apart, with a bit for every data block.
-/

namespace Microgarbage.Storage

open Lib

/-! ## Areas -/

/-- A range of blocks: the first and how many. -/
structure Area where
  start : Nat
  blocks : Nat

def Area.Holds (a : Area) (x : Nat) : Prop :=
  a.start * 128 ≤ x ∧ x < (a.start + a.blocks) * 128

namespace TrashfsLayout

def superArea : Area := ⟨0, 1⟩

variable (v : TrashfsLayout)

def bitmapArea : Area := ⟨v.bitmapStart, v.bitmapBlocks⟩

def inodeArea : Area := ⟨v.inodeStart, v.inodeBlocks⟩

def dataArea : Area := ⟨v.dataStart, v.totalBlocks - v.dataStart⟩

def areas : List Area := [superArea, v.bitmapArea, v.inodeArea, v.dataArea]

/-- What a volume's superblock describes lies inside the region and apart, with a bit for each data
block; so does everything that is addressed by a number below the declared counts. -/
structure LaidOut : Prop where
  inside : ∀ a ∈ v.areas, ∀ x, a.Holds x → x < v.regionBytes
  apart : v.areas.Pairwise fun a b => ∀ x, a.Holds x → ¬b.Holds x
  bit : ∀ b, v.dataStart ≤ b → b < v.totalBlocks → v.bitmapArea.Holds (blockPtr v.bitmapStart + b / 8)
  block : ∀ b, v.dataStart ≤ b → b < v.totalBlocks → ∀ k < 128, v.dataArea.Holds (blockPtr b + k)
  inode : ∀ i < v.inodeCount, ∀ k < 64, v.inodeArea.Holds (v.inodePtr i + k)

/-- The areas follow each other, and the bitmap has a bit for every block. -/
structure Ordered : Prop where
  bitmapStart : v.bitmapStart = 1
  inodeStart : v.inodeStart = 1 + v.bitmapBlocks
  dataStart : v.dataStart = v.inodeStart + v.inodeBlocks
  data : v.dataStart < v.totalBlocks
  bits : v.totalBlocks ≤ v.bitmapBlocks * 1024
  inodes : v.inodeCount = v.inodeBlocks * 2
  total : v.totalBlocks < 2 ^ 25

end TrashfsLayout

section Ordered

variable {v : TrashfsLayout}

theorem TrashfsLayout.Ordered.inodePtr_eq (h : v.Ordered) {i : Nat} (hi : i < v.inodeCount) :
    v.inodePtr i = v.inodeStart * 128 + i * 64 := by
  obtain ⟨-, hi', hd, hlt, -, hc, ht⟩ := h
  have hmod : (v.inodeStart + i / 2) % 2 ^ 32 = v.inodeStart + i / 2 := Nat.mod_eq_of_lt (by omega)
  have hptr : v.inodePtr i = (v.inodeStart + i / 2) % 2 ^ 32 * 128 + i % 2 * 64 := rfl
  rw [hptr, hmod]
  omega

theorem TrashfsLayout.Ordered.inode_area (h : v.Ordered) {i k : Nat} (hi : i < v.inodeCount)
    (hk : k < 64) : v.inodeArea.Holds (v.inodePtr i + k) := by
  have hc := h.inodes
  rw [h.inodePtr_eq hi]
  unfold Area.Holds inodeArea
  dsimp only
  omega

theorem TrashfsLayout.Ordered.laidOut (h : v.Ordered) (hn : v.totalBlocks * 128 ≤ v.regionBytes) :
    v.LaidOut := by
  have hinodes := fun i hi k hk => h.inode_area (i := i) (k := k) hi hk
  obtain ⟨hb, hi, hd, hlt, hbits, hc, ht⟩ := h
  refine ⟨?_, ?_, ?_, ?_, hinodes⟩
  · intro a ha x hx
    unfold Area.Holds at hx
    simp only [areas, superArea, bitmapArea, inodeArea, dataArea, List.mem_cons, List.not_mem_nil,
      or_false] at ha
    rcases ha with rfl | rfl | rfl | rfl <;> dsimp only at hx <;> omega
  · simp only [areas, superArea, bitmapArea, inodeArea, dataArea, List.pairwise_cons,
      List.mem_cons, List.not_mem_nil, or_false, forall_eq_or_imp, forall_eq, Area.Holds]
    refine ⟨⟨?_, ?_, ?_⟩, ⟨?_, ?_⟩, ?_, fun a h => h.elim, .nil⟩ <;> intro x hx hx' <;> omega
  · intro b hb hb'
    unfold Area.Holds bitmapArea
    rw [blockPtr_eq]
    dsimp only
    omega
  · intro b hb hb' k hk
    unfold Area.Holds dataArea
    rw [blockPtr_eq]
    dsimp only
    omega

end Ordered

/-! ## What is accepted -/

/-- All that `trashfs_mount` checks, in numbers. -/
structure Accepted (m : Mem) (n : BitVec 32) (v : TrashfsVolume) : Prop where
  region : v.region = m
  regionBytes : v.regionBytes = n.toNat
  minBytes : trashfsMinBytes ≤ n.toNat
  total : (rd32 m 12).toNat = n.toNat / 128
  totalBlocks : v.totalBlocks = n.toNat / 128
  bitmapStart : v.bitmapStart = 1
  bitmapBlocks : v.bitmapBlocks = (rd32 m 20).toNat
  inodeStart : v.inodeStart = (1 + (rd32 m 20).toNat) % 2 ^ 32
  inodeBlocks : v.inodeBlocks = (rd32 m 28).toNat
  dataStart : v.dataStart = (v.inodeStart + (rd32 m 28).toNat) % 2 ^ 32
  data : v.dataStart < v.totalBlocks
  inodeCount : v.inodeCount = (rd32 m 28).toNat * 2 % 2 ^ 32
  freeBlocks : v.freeBlocks = v.dataBlocks.countP fun b => !v.bitmapTest b
  freeInodes : v.freeInodes = (List.range v.inodeCount).countP fun i => !v.inodeUsed i

theorem mount_accepted {m : Mem} {n : BitVec 32} {v : TrashfsVolume}
    (h : trashfsMount m n = .ok v) : Accepted m n v := by
  unfold trashfsMount at h
  dsimp only at h
  have hpass : ∀ {c : Prop} [Decidable c] {e : TrashfsResult} {r : Except TrashfsResult TrashfsVolume},
      (if c then .error e else r) = .ok v → ¬c ∧ r = .ok v := by
    intro c _ e r hr
    split at hr
    · cases hr
    · next hc => exact ⟨hc, hr⟩
  obtain ⟨hmin, h⟩ := hpass h
  obtain ⟨-, h⟩ := hpass h
  obtain ⟨-, h⟩ := hpass h
  obtain ⟨-, h⟩ := hpass h
  obtain ⟨htotal, h⟩ := hpass h
  obtain ⟨hbitmap, h⟩ := hpass h
  obtain ⟨hinode, h⟩ := hpass h
  obtain ⟨hdata, h⟩ := hpass h
  obtain ⟨hlt, h⟩ := hpass h
  obtain ⟨hcount, h⟩ := hpass h
  obtain ⟨-, h⟩ := hpass h
  rw [Decidable.not_not] at htotal hbitmap hinode hdata hcount
  rw [BitVec.le_def, Nat.not_le] at hlt
  have h128 : (BitVec.ofNat 32 trashfsBlockSize).toNat = 128 := rfl
  have htot : (rd32 m 12).toNat = n.toNat / 128 := by rw [htotal, BitVec.toNat_udiv, h128]
  have hone : (1 : BitVec 32).toNat = 1 := rfl
  have htwo : (BitVec.ofNat 32 trashfsInodesPerBlock).toNat = 2 := rfl
  cases h
  refine ⟨rfl, rfl, Nat.not_lt.mp hmin, htot, htot, ?_, rfl, ?_, rfl, ?_, hlt, ?_, rfl, rfl⟩
  · exact congrArg BitVec.toNat hbitmap
  · refine (congrArg BitVec.toNat hinode).trans ?_
    rw [hbitmap, BitVec.toNat_add, hone]
  · refine (congrArg BitVec.toNat hdata).trans ?_
    rw [BitVec.toNat_add]
    rfl
  · refine (congrArg BitVec.toNat hcount).trans ?_
    rw [BitVec.toNat_mul, htwo]

/-- What mount leaves open: the number of blocks of the bitmap and of the inode table. -/
structure Fitting (m : Mem) : Prop where
  bitmap : (rd32 m 20).toNat < (rd32 m 12).toNat
  inodes : (rd32 m 28).toNat < (rd32 m 12).toNat
  bits : (rd32 m 12).toNat ≤ (rd32 m 20).toNat * 1024

theorem Accepted.ordered {m : Mem} {n : BitVec 32} {v : TrashfsVolume} (h : Accepted m n v)
    (hf : Fitting m) : v.Ordered := by
  have hn := n.isLt
  obtain ⟨hb, hi, hbits⟩ := hf
  have ht := h.total
  have htot := h.totalBlocks
  have hs := h.inodeStart
  have hd := h.dataStart
  have hc := h.inodeCount
  refine ⟨h.bitmapStart, ?_, ?_, h.data, ?_, ?_, ?_⟩
  · rw [h.bitmapBlocks]
    omega
  · rw [h.inodeBlocks]
    omega
  · rw [h.bitmapBlocks]
    omega
  · rw [h.inodeBlocks]
    omega
  · omega

/-- An accepted volume is laid out in its region exactly when its bitmap and its inode table have
fewer blocks than the volume and the bitmap has a bit for each of these. -/
theorem mount_laidOut_iff {m : Mem} {n : BitVec 32} {v : TrashfsVolume}
    (h : trashfsMount m n = .ok v) : v.LaidOut ↔ Fitting m := by
  have ha := mount_accepted h
  have hn := n.isLt
  have ht := ha.total
  have htot := ha.totalBlocks
  constructor
  · intro hl
    have hdata := ha.data
    have hstart := ha.inodeStart
    have hbit := hl.bit (v.totalBlocks - 1) (by omega) (by omega)
    -- a last byte of a non-empty area is in the region
    have hlast : ∀ a ∈ v.areas, 0 < a.blocks → a.start + a.blocks ≤ v.totalBlocks := by
      intro a hmem hpos
      have hx := hl.inside a hmem ((a.start + a.blocks) * 128 - 1) ⟨by omega, by omega⟩
      rw [ha.regionBytes] at hx
      omega
    have hbm := hlast v.bitmapArea (by simp [TrashfsLayout.areas])
    have hin := hlast v.inodeArea (by simp [TrashfsLayout.areas])
    unfold Area.Holds TrashfsLayout.bitmapArea at hbit
    unfold TrashfsLayout.bitmapArea at hbm
    unfold TrashfsLayout.inodeArea at hin
    rw [blockPtr_eq, ha.bitmapStart] at hbit
    rw [ha.bitmapStart, ha.bitmapBlocks] at hbm
    rw [ha.inodeBlocks] at hin
    dsimp only at hbit hbm hin
    rw [ha.bitmapBlocks] at hbit
    exact ⟨by omega, by omega, by omega⟩
  · intro hf
    refine (ha.ordered hf).laidOut ?_
    rw [htot, ha.regionBytes]
    omega

/-! ## Two superblocks -/

/-- A region with nothing but a superblock. -/
def superblockOnly (bitmapBlocks : BitVec 32) : Mem :=
  writeSuperblock (fun _ => 0)
    { totalBlocks := 128
      bitmapStart := 1
      bitmapBlocks := bitmapBlocks
      inodeStart := 1 + bitmapBlocks
      inodeBlocks := 8
      inodeCount := 16
      dataStart := 1 + bitmapBlocks + 8 } 0 0 0

theorem mount_laidOut_one : ∃ v, trashfsMount (superblockOnly 1) 16384 = .ok v ∧ v.LaidOut := by
  have hok : (trashfsMount (superblockOnly 1) 16384).isOk = true := by decide +kernel
  cases h : trashfsMount (superblockOnly 1) 16384 with
  | error e =>
    rw [h] at hok
    cases hok
  | ok v => exact ⟨v, rfl, (mount_laidOut_iff h).mpr (by constructor <;> decide +kernel)⟩

/-- A superblock without a bitmap is accepted: the bits of the data blocks are bytes of the inode
table. -/
theorem mount_accepts_no_bitmap :
    ∃ v, trashfsMount (superblockOnly 0) 16384 = .ok v ∧ ¬v.LaidOut := by
  have hfields : (trashfsMount (superblockOnly 0) 16384).toOption.map (fun v =>
      (v.bitmapStart, v.bitmapBlocks, v.dataStart, v.totalBlocks)) = some (1, 0, 9, 128) := by
    decide +kernel
  cases h : trashfsMount (superblockOnly 0) 16384 with
  | error e =>
    rw [h] at hfields
    cases hfields
  | ok v =>
    rw [h] at hfields
    have hv : (v.bitmapStart, v.bitmapBlocks, v.dataStart, v.totalBlocks) = (1, 0, 9, 128) :=
      Option.some.inj hfields
    simp only [Prod.mk.injEq] at hv
    obtain ⟨hs, hb, hd, ht⟩ := hv
    refine ⟨v, rfl, fun hl => ?_⟩
    have hbit := hl.bit 127 (by omega) (by omega)
    unfold Area.Holds TrashfsLayout.bitmapArea at hbit
    dsimp only at hbit
    omega

end Microgarbage.Storage
