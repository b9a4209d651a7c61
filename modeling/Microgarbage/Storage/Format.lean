import Microgarbage.Storage.Alloc
import Microgarbage.Storage.Dirs

/-!
# Freshly formatted volumes

`trashfs_format` followed by `trashfs_mount`: the geometry fits, the root directory is empty, and
the counts are the allocations that succeed, except for one inode hint, where the number of inodes
wraps to zero.
-/

namespace Microgarbage.Storage

open Lib List

/-! ## The geometry -/

theorem ceilDiv_toNat {a b : BitVec 32} (hb : 0 < b.toNat)
    (h : a.toNat + b.toNat ≤ 2 ^ 32) : (ceilDiv a b).toNat = (a.toNat + b.toNat - 1) / b.toNat := by
  have hone : (1 : BitVec 32).toNat = 1 := rfl
  unfold ceilDiv
  rw [BitVec.toNat_udiv, BitVec.toNat_sub, BitVec.toNat_add, hone]
  congr 1
  omega

/-- A geometry in numbers: areas in order, room for every bit, at least one block of inodes. -/
structure Fits (g : TrashfsGeom) : Prop where
  total : g.totalBlocks.toNat < 2 ^ 25
  bitmapStart : g.bitmapStart = 1
  bits : g.totalBlocks.toNat ≤ g.bitmapBlocks.toNat * 1024
  inodeStart : g.inodeStart.toNat = 1 + g.bitmapBlocks.toNat
  dataStart : g.dataStart.toNat = g.inodeStart.toNat + g.inodeBlocks.toNat
  data : g.dataStart.toNat < g.totalBlocks.toNat
  inodes : 0 < g.inodeBlocks.toNat
  inodeCount : g.inodeCount.toNat = g.inodeBlocks.toNat * 2
  inodeStart_sum : g.inodeStart = g.bitmapStart + g.bitmapBlocks
  dataStart_sum : g.dataStart = g.inodeStart + g.inodeBlocks
  inodeCount_mul : g.inodeCount = g.inodeBlocks * BitVec.ofNat 32 trashfsInodesPerBlock

theorem inodesWanted_pos (total hint : BitVec 32) : 0 < (inodesWanted total hint).toNat := by
  have hfloor : trashfsInodesFloor.toNat = 16 := rfl
  unfold inodesWanted
  dsimp only
  split
  · split
    · omega
    · next h =>
      rw [BitVec.lt_def, hfloor] at h
      omega
  · next h =>
    refine Nat.pos_of_ne_zero fun e => h (BitVec.eq_of_toNat_eq e)

theorem inodesWanted_lt {total hint : BitVec 32} (ht : total.toNat < 2 ^ 25)
    (hh : hint ≠ 0xFFFFFFFF) : (inodesWanted total hint).toNat < 2 ^ 32 - 1 := by
  have hfloor : trashfsInodesFloor.toNat = 16 := rfl
  have h16 : (BitVec.ofNat 32 trashfsBlocksPerInode).toNat = 16 := rfl
  have hmax : (0xFFFFFFFF : BitVec 32).toNat = 2 ^ 32 - 1 := rfl
  unfold inodesWanted
  dsimp only
  split
  · split
    · omega
    · rw [BitVec.toNat_udiv, h16]
      omega
  · have hlt := hint.isLt
    have hne : hint.toNat ≠ 2 ^ 32 - 1 := fun e => hh (BitVec.eq_of_toNat_eq (e.trans hmax.symm))
    omega

theorem computeGeometry_fits {total hint : BitVec 32} {g : TrashfsGeom}
    (ht : total.toNat < 2 ^ 25) (hh : hint ≠ 0xFFFFFFFF)
    (h : computeGeometry total hint = some g) : g.totalBlocks = total ∧ Fits g := by
  have h8 : (8 : BitVec 32).toNat = 8 := rfl
  have h128 : (BitVec.ofNat 32 trashfsBlockSize).toNat = 128 := rfl
  have h2 : (BitVec.ofNat 32 trashfsInodesPerBlock).toNat = 2 := rfl
  have hone : (1 : BitVec 32).toNat = 1 := rfl
  have hbytes := ceilDiv_toNat (a := total) (b := 8) (by decide) (by omega)
  rw [h8] at hbytes
  have hblocks := ceilDiv_toNat (a := ceilDiv total 8) (b := BitVec.ofNat 32 trashfsBlockSize)
    (by decide) (by omega)
  rw [h128, hbytes] at hblocks
  have hpos := inodesWanted_pos total hint
  have hlt := inodesWanted_lt ht hh
  have hinodes := ceilDiv_toNat (a := inodesWanted total hint)
    (b := BitVec.ofNat 32 trashfsInodesPerBlock) (by decide) (by omega)
  rw [h2] at hinodes
  unfold computeGeometry at h
  dsimp only at h
  generalize hbb : (if ceilDiv (ceilDiv total 8) (BitVec.ofNat 32 trashfsBlockSize) = 0 then 1
    else ceilDiv (ceilDiv total 8) (BitVec.ofNat 32 trashfsBlockSize)) = bb at h
  have hbits : total.toNat ≤ bb.toNat * 1024 ∧ bb.toNat < 2 ^ 25 := by
    rw [← hbb]
    split
    · next h0 =>
      rw [h0] at hblocks
      have hz : (0 : BitVec 32).toNat = 0 := rfl
      omega
    · omega
  generalize ceilDiv (inodesWanted total hint) (BitVec.ofNat 32 trashfsInodesPerBlock) = ib at *
  split at h
  · cases h
  · next hfit =>
    rw [BitVec.le_def, BitVec.toNat_add, BitVec.toNat_add, hone] at hfit
    cases h
    refine ⟨rfl, ht, rfl, hbits.1, ?_, ?_, ?_, ?_, ?_, rfl, rfl, rfl⟩
    · dsimp only
      rw [BitVec.toNat_add, hone]
      omega
    · dsimp only
      rw [BitVec.toNat_add, BitVec.toNat_add, hone]
      omega
    · dsimp only
      rw [BitVec.toNat_add, BitVec.toNat_add, hone]
      omega
    · dsimp only
      omega
    · dsimp only
      rw [BitVec.toNat_mul, h2]
      omega

theorem computeGeometry_inodes {total hint : BitVec 32} {g : TrashfsGeom}
    (h : computeGeometry total hint = some g) : g.inodeBlocks =
      ceilDiv (inodesWanted total hint) (BitVec.ofNat 32 trashfsInodesPerBlock) := by
  unfold computeGeometry at h
  dsimp only at h
  generalize (if ceilDiv (ceilDiv total 8) (BitVec.ofNat 32 trashfsBlockSize) = 0 then 1
    else ceilDiv (ceilDiv total 8) (BitVec.ofNat 32 trashfsBlockSize)) = bb at h
  split at h
  · cases h
  · cases h
    rfl

/-! ## The written region -/

theorem markBlocks_bit (m : Mem) (start n c : Nat) :
    bitmapBit (markBlocks m start n) start c = (decide (c < n) || bitmapBit m start c) := by
  induction n with
  | zero => simp [markBlocks]
  | succ n ih =>
    have hsucc : markBlocks m start (n + 1) = bitmapSet (markBlocks m start n) start n := by
      unfold markBlocks
      rw [range_succ, foldl_append]
      rfl
    rw [hsucc, bitmapBit_set, ih, ← Bool.or_assoc, ← Bool.decide_or]
    have hiff : c = n ∨ c < n ↔ c < n + 1 := by omega
    rw [decide_eq_decide.mpr hiff]

theorem markBlocks_out {m : Mem} {start n x : Nat} (h : ∀ b < n, x ≠ blockPtr start + b / 8) :
    markBlocks m start n x = m x := by
  induction n with
  | zero => rfl
  | succ n ih =>
    have hsucc : markBlocks m start (n + 1) = bitmapSet (markBlocks m start n) start n := by
      unfold markBlocks
      rw [range_succ, foldl_append]
      rfl
    rw [hsucc, bitmapSet_out (h n (Nat.lt_succ_self n))]
    exact ih fun b hb => h b (Nat.lt_succ_of_lt hb)

/-- The superblock that is written can be read back, and nothing else is written. -/
structure SuperblockOf (m : Mem) (g : TrashfsGeom) (freeBlocks freeInodes : BitVec 32) : Prop where
  magic : rd32 m 0 = trashfsMagic
  versionMajor : rd16 m 4 = trashfsVersionMajor
  blockSize : rd32 m 8 = BitVec.ofNat 32 trashfsBlockSize
  totalBlocks : rd32 m 12 = g.totalBlocks
  bitmapStart : rd32 m 16 = g.bitmapStart
  bitmapBlocks : rd32 m 20 = g.bitmapBlocks
  inodeStart : rd32 m 24 = g.inodeStart
  inodeBlocks : rd32 m 28 = g.inodeBlocks
  inodeCount : rd32 m 32 = g.inodeCount
  dataStart : rd32 m 36 = g.dataStart
  rootInode : rd32 m 40 = BitVec.ofNat 32 trashfsRootInode
  freeBlocks : rd32 m 44 = freeBlocks
  freeInodes : rd32 m 48 = freeInodes

theorem writeSuperblock_of (m : Mem) (g : TrashfsGeom) (freeBlocks freeInodes now : BitVec 32) :
    SuperblockOf (writeSuperblock m g freeBlocks freeInodes now) g freeBlocks freeInodes := by
  unfold writeSuperblock
  constructor <;>
    simp (disch := omega) only [rd32_wr32_out, rd32_wr16_out, rd16_wr32_out, rd16_wr16_out,
      rd32_wr32, rd16_wr16]

theorem writeSuperblock_out {m : Mem} {g : TrashfsGeom} {freeBlocks freeInodes now : BitVec 32}
    {x : Nat} (h : 60 ≤ x) : writeSuperblock m g freeBlocks freeInodes now x = m x := by
  unfold writeSuperblock
  simp (disch := omega) only [wr32_out, wr16_out]

theorem writeRoot_out {m : Mem} {inode0 x : Nat} {rootBlock now : BitVec 32}
    (h : x < inode0 ∨ inode0 + 20 ≤ x) : writeRoot m inode0 rootBlock now x = m x := by
  unfold writeRoot
  simp (disch := omega) only [wr32_out, wr16_out]

theorem writeRoot_fields (m : Mem) (inode0 : Nat) (rootBlock now : BitVec 32) :
    rd16 (writeRoot m inode0 rootBlock now) inode0 = trashfsModeUsed ||| trashfsModeDir ∧
      rd32 (writeRoot m inode0 rootBlock now) (inode0 + 4) = 0 ∧
      rd32 (writeRoot m inode0 rootBlock now) (inode0 + 16) = rootBlock := by
  unfold writeRoot
  simp (disch := omega) only [Nat.add_zero, rd32_wr32_out, rd16_wr32_out, rd16_wr16_out, rd32_wr32,
    rd16_wr16, and_self]

/-- What a formatted region holds. -/
structure Blank (m : Mem) (n : BitVec 32) (g : TrashfsGeom) : Prop where
  super : SuperblockOf m g (g.totalBlocks - (g.dataStart + 1)) (g.inodeCount - 1)
  bits : ∀ c < g.totalBlocks.toNat, bitmapBit m 1 c = decide (c ≤ g.dataStart.toNat)
  rootMode : rd16 m (blockPtr g.inodeStart.toNat) = trashfsModeUsed ||| trashfsModeDir
  rootSize : rd32 m (blockPtr g.inodeStart.toNat + 4) = 0
  rootBlock : rd32 m (blockPtr g.inodeStart.toNat + 16) = g.dataStart
  zero : ∀ x, blockPtr g.inodeStart.toNat + 20 ≤ x → x < n.toNat → m x = 0

theorem writeVolume_blank {m : Mem} {n : BitVec 32} {g : TrashfsGeom} (hg : Fits g)
    (hn : g.totalBlocks.toNat * 128 ≤ n.toNat) (now : BitVec 32) : Blank (writeVolume m n g now) n g := by
  have hs := hg.inodeStart
  have hd := hg.dataStart
  have hlt := hg.data
  have hbits := hg.bits
  have hone : g.bitmapStart.toNat = 1 := by rw [hg.bitmapStart]; rfl
  unfold writeVolume
  dsimp only
  rw [hone]
  generalize hm₁ : memset0 m 0 n.toNat = m₁
  have hzero : ∀ x < n.toNat, m₁ x = 0 := fun x hx => by
    rw [← hm₁]
    exact memset0_in (Nat.zero_le x) (by omega)
  generalize hm₃ : bitmapSet (markBlocks m₁ 1 g.dataStart.toNat) 1 g.dataStart.toNat = m₃
  have hbit₃ : ∀ c < g.totalBlocks.toNat, bitmapBit m₃ 1 c = decide (c ≤ g.dataStart.toNat) := by
    intro c hc
    have hclear : bitmapBit m₁ 1 c = false := by
      unfold bitmapBit
      rw [hzero _ (by rw [blockPtr_eq]; omega)]
      exact BitVec.getLsbD_zero
    rw [← hm₃, bitmapBit_set, markBlocks_bit, hclear, Bool.or_false, ← Bool.decide_or]
    have hiff : c = g.dataStart.toNat ∨ c < g.dataStart.toNat ↔ c ≤ g.dataStart.toNat := by omega
    rw [decide_eq_decide.mpr hiff]
  have hout₃ : ∀ x, blockPtr g.inodeStart.toNat ≤ x → m₃ x = m₁ x := by
    intro x hx
    rw [blockPtr_eq] at hx
    rw [← hm₃, bitmapSet_out (by rw [blockPtr_eq]; omega),
      markBlocks_out fun b hb => by rw [blockPtr_eq]; omega]
  obtain ⟨hmode, hsize, hblock⟩ :=
    writeRoot_fields m₃ (blockPtr g.inodeStart.toNat) g.dataStart now
  have hout₄ : ∀ x, x < blockPtr g.inodeStart.toNat ∨ blockPtr g.inodeStart.toNat + 20 ≤ x →
      writeRoot m₃ (blockPtr g.inodeStart.toNat) g.dataStart now x = m₃ x := fun x h =>
    writeRoot_out h
  generalize writeRoot m₃ (blockPtr g.inodeStart.toNat) g.dataStart now = m₄ at *
  have hsuper : ∀ x, 60 ≤ x → writeSuperblock m₄ g (g.totalBlocks - (g.dataStart + 1))
      (g.inodeCount - 1) now x = m₄ x := fun x h => writeSuperblock_out h
  refine ⟨writeSuperblock_of .., fun c hc => ?_, ?_, ?_, ?_, fun x hx hxn => ?_⟩
  · rw [← hbit₃ c hc]
    refine bitmapBit_congr ?_
    rw [hsuper _ (by rw [blockPtr_eq]; omega)]
    exact hout₄ _ (.inl (by rw [blockPtr_eq, blockPtr_eq]; omega))
  · rw [← hmode]
    exact rd16_congr fun i hi => hsuper _ (by rw [blockPtr_eq]; omega)
  · rw [← hsize]
    exact rd32_congr fun i hi => hsuper _ (by rw [blockPtr_eq]; omega)
  · exact (rd32_congr fun i hi => hsuper _ (by rw [blockPtr_eq]; omega)).trans hblock
  · rw [hsuper x (by rw [blockPtr_eq] at hx; omega), hout₄ x (.inr hx), hout₃ x (by omega)]
    exact hzero x hxn

/-! ## Inodes -/

/-- Inode `ino` is in use with mode `mode`, without size and blocks; nothing else changed. -/
structure Initialized (v v' : TrashfsVolume) (ino : Nat) (mode : BitVec 16) : Prop where
  layout : v'.toTrashfsLayout = v.toTrashfsLayout
  freeBlocks : v'.freeBlocks = v.freeBlocks
  freeInodes : v'.freeInodes = v.freeInodes
  mode : rd16 v'.region (v.inodePtr ino) = mode
  size : rd32 v'.region (v.inodePtr ino + 4) = 0
  zero : ∀ k, 16 ≤ k → k < 64 → v'.region (v.inodePtr ino + k) = 0
  frame : ∀ x, x < v.inodePtr ino ∨ v.inodePtr ino + 64 ≤ x → v'.region x = v.region x

theorem initInode_spec (v : TrashfsVolume) (ino : Nat) (mode : BitVec 16) (now : BitVec 32) :
    Initialized v (v.initInode ino mode now) ino mode := by
  unfold TrashfsVolume.initInode trashfsInodeSize
  refine ⟨rfl, rfl, rfl, ?_, ?_, fun k hk hk' => ?_, fun x hx => ?_⟩
  · simp (disch := omega) only [Nat.add_zero, rd16_wr32_out, rd16_wr16_out, rd16_wr16]
  · simp (disch := omega) only [rd32_wr32_out, rd32_wr16_out]
    exact rd32_zero fun i hi => memset0_in (by omega) (by omega)
  · simp (disch := omega) only [wr32_out, wr16_out]
    exact memset0_in (by omega) (by omega)
  · simp (disch := omega) only [wr32_out, wr16_out]
    exact memset0_out hx

theorem Initialized.used {v v' : TrashfsVolume} {ino : Nat} {mode : BitVec 16}
    (hv : Initialized v v' ino mode) (h : v.Ordered) (hi : ino < v.inodeCount)
    (hmode : mode &&& trashfsModeUsed ≠ 0) {j : Nat} (hj : j < v.inodeCount) :
    v'.inodeUsed j = (decide (j = ino) || v.inodeUsed j) := by
  have hpi := h.inodePtr_eq hi
  have hpj := h.inodePtr_eq hj
  unfold TrashfsVolume.inodeUsed
  rw [hv.layout]
  by_cases he : j = ino
  · subst he
    rw [hv.mode, decide_eq_true rfl, Bool.true_or]
    simpa using hmode
  · rw [decide_eq_false he, Bool.false_or]
    have hsame : rd16 v'.region (v.inodePtr j) = rd16 v.region (v.inodePtr j) :=
      rd16_congr fun i hi' => hv.frame _ (by omega)
    rw [hsame]

/-- The number of unused inodes. -/
def unusedInodes (v : TrashfsVolume) : Nat :=
  (List.range v.inodeCount).countP fun i => !v.inodeUsed i

theorem unusedInodes_flip {v v' : TrashfsVolume} {n : Nat} (hcount : v'.inodeCount = v.inodeCount)
    (hn : n < v.inodeCount) (hfree : v.inodeUsed n = false) (htaken : v'.inodeUsed n = true)
    (h : ∀ i < v.inodeCount, i ≠ n → v'.inodeUsed i = v.inodeUsed i) :
    unusedInodes v = unusedInodes v' + 1 := by
  unfold unusedInodes
  rw [hcount]
  refine countP_flip nodup_range (mem_range.mpr hn) (by rw [hfree]; rfl) (by rw [htaken]; rfl)
    fun i hi hne => ?_
  rw [h i (mem_range.mp hi) hne]

/-- Allocate an inode and put it to use. -/
def takeInode (v : TrashfsVolume) : Option TrashfsVolume :=
  v.allocInode.map fun (i, v) => v.initInode i trashfsModeUsed 0

theorem allocInode_spec (v : TrashfsVolume) :
    (v.allocInode = none ∧ unusedInodes v = 0) ∨
      ∃ i, v.allocInode = some (i, { v with freeInodes := v.freeInodes - 1 }) ∧
        i < v.inodeCount ∧ v.inodeUsed i = false := by
  unfold TrashfsVolume.allocInode
  cases hfind : (List.range v.inodeCount).find? fun i => !v.inodeUsed i with
  | none =>
    refine .inl ⟨rfl, ?_⟩
    unfold unusedInodes
    rw [countP_eq_zero]
    exact List.find?_eq_none.mp hfind
  | some i =>
    have hused := List.find?_some hfind
    exact .inr ⟨i, rfl, mem_range.mp (mem_of_find?_eq_some hfind), by simpa using hused⟩

theorem exhausts_inodes {v : TrashfsVolume} (h : v.Ordered) :
    Exhausts takeInode (unusedInodes v) v := by
  generalize hn : unusedInodes v = n
  induction n generalizing v with
  | zero =>
    rcases allocInode_spec v with ⟨hnone, -⟩ | ⟨i, -, hi, hfree⟩
    · unfold Exhausts takeInode
      rw [hnone]
      rfl
    · unfold unusedInodes at hn
      have hall := countP_eq_zero.mp hn i (mem_range.mpr hi)
      rw [hfree] at hall
      exact absurd rfl hall
  | succ n ih =>
    rcases allocInode_spec v with ⟨-, hzero⟩ | ⟨i, hsome, hi, hfree⟩
    · rw [hzero] at hn
      cases hn
    · let v₁ : TrashfsVolume := { v with freeInodes := v.freeInodes - 1 }
      have hinit := initInode_spec v₁ i trashfsModeUsed 0
      have hused : ∀ j < v.inodeCount, (v₁.initInode i trashfsModeUsed 0).inodeUsed j =
          (decide (j = i) || v.inodeUsed j) := fun j hj => hinit.used h hi (by decide) hj
      have hflip : unusedInodes v = unusedInodes (v₁.initInode i trashfsModeUsed 0) + 1 :=
        unusedInodes_flip rfl hi hfree (by rw [hused i hi, decide_eq_true rfl, Bool.true_or])
          fun j hj hne => by rw [hused j hj, decide_eq_false hne, Bool.false_or]
      have hv₁ : (v₁.initInode i trashfsModeUsed 0).Ordered := h
      refine ⟨v₁.initInode i trashfsModeUsed 0, ?_, ih hv₁ (by omega)⟩
      unfold takeInode
      rw [hsome]
      rfl

/-! ## Mounting -/

theorem mount_blank {m : Mem} {n : BitVec 32} {g : TrashfsGeom} (hg : Fits g) (hb : Blank m n g)
    (hmin : trashfsMinBytes ≤ n.toNat) (hn : g.totalBlocks = n / BitVec.ofNat 32 trashfsBlockSize) :
    ∃ v, trashfsMount m n = .ok v := by
  obtain ⟨hmagic, hver, hsize, htotal, hbs, hbb, his, hib, hic, hds, hroot, -, -⟩ := hb.super
  have hlt : ¬g.totalBlocks ≤ g.dataStart := by
    rw [BitVec.le_def]
    exact Nat.not_le.mpr hg.data
  unfold trashfsMount
  dsimp only
  rw [if_neg (Nat.not_lt.mpr hmin), if_neg (not_not_intro hmagic), if_neg (not_not_intro hver),
    if_neg (not_not_intro hsize), htotal, if_neg (not_not_intro hn), hbs,
    if_neg (not_not_intro hg.bitmapStart), his, hbb, if_neg (not_not_intro hg.inodeStart_sum), hds,
    hib, if_neg (not_not_intro hg.dataStart_sum), if_neg hlt, hic,
    if_neg (not_not_intro hg.inodeCount_mul), if_neg (not_not_intro hroot)]
  exact ⟨_, rfl⟩

/-- A volume just mounted from a formatted region. -/
structure Fresh (m : Mem) (n : BitVec 32) (g : TrashfsGeom) (v : TrashfsVolume) : Prop where
  ordered : v.Ordered
  region : v.region = m
  regionBytes : v.regionBytes = n.toNat
  totalBlocks : v.totalBlocks = g.totalBlocks.toNat
  inodeStart : v.inodeStart = g.inodeStart.toNat
  inodeCount : v.inodeCount = g.inodeCount.toNat
  dataStart : v.dataStart = g.dataStart.toNat
  bytes : v.totalBlocks * 128 ≤ v.regionBytes
  freeBlocks : v.freeBlocks = clearBlocks v
  freeInodes : v.freeInodes = unusedInodes v

theorem mount_fresh {m : Mem} {n : BitVec 32} {g : TrashfsGeom} {v : TrashfsVolume} (hg : Fits g)
    (hb : Blank m n g) (hn : g.totalBlocks = n / BitVec.ofNat 32 trashfsBlockSize)
    (h : trashfsMount m n = .ok v) : Fresh m n g v := by
  have ha := mount_accepted h
  have hlt := n.isLt
  have h128 : (BitVec.ofNat 32 trashfsBlockSize).toNat = 128 := rfl
  have htotal : g.totalBlocks.toNat = n.toNat / 128 := by rw [hn, BitVec.toNat_udiv, h128]
  have hs := hb.super
  have hbb : (rd32 m 20).toNat = g.bitmapBlocks.toNat := by rw [hs.bitmapBlocks]
  have hib : (rd32 m 28).toNat = g.inodeBlocks.toNat := by rw [hs.inodeBlocks]
  have htot : (rd32 m 12).toNat = g.totalBlocks.toNat := by rw [hs.totalBlocks]
  have hst := hg.inodeStart
  have hd := hg.dataStart
  have hdata := hg.data
  have hbits := hg.bits
  have hcount := hg.inodeCount
  have hfit : Fitting m := ⟨by omega, by omega, by omega⟩
  have hord := ha.ordered hfit
  have hstart := hord.inodeStart
  have hdstart := hord.dataStart
  have hnum := hord.inodes
  rw [ha.bitmapBlocks, hbb] at hstart
  rw [ha.inodeBlocks, hib] at hdstart hnum
  refine ⟨hord, ha.region, ha.regionBytes, ha.totalBlocks.trans htotal.symm, by omega, by omega,
    by omega, ?_, ha.freeBlocks, ha.freeInodes⟩
  rw [ha.totalBlocks, ha.regionBytes]
  omega

section Fresh

variable {m : Mem} {n : BitVec 32} {g : TrashfsGeom} {v : TrashfsVolume}

theorem Fresh.clearBlocks (h : Fresh m n g v) (hb : Blank m n g) :
    clearBlocks v = v.totalBlocks - (v.dataStart + 1) := by
  have hdata := h.ordered.data
  have hbit : ∀ c < v.totalBlocks, v.bitmapTest c = decide (c ≤ v.dataStart) := by
    intro c hc
    unfold TrashfsVolume.bitmapTest
    rw [h.region, h.ordered.bitmapStart, h.dataStart]
    exact hb.bits c (h.totalBlocks ▸ hc)
  unfold Storage.clearBlocks TrashfsLayout.dataBlocks
  rw [show v.totalBlocks - v.dataStart = (v.totalBlocks - (v.dataStart + 1)) + 1 by omega,
    range'_succ, countP_cons_of_neg (by simp [hbit _ hdata])]
  refine (countP_eq_length.mpr fun c hc => ?_).trans length_range'
  rw [mem_range'_1] at hc
  rw [hbit c (by omega), decide_eq_false (by omega)]
  rfl

theorem Fresh.unusedInodes (h : Fresh m n g v) (hg : Fits g) (hb : Blank m n g)
    (hn : g.totalBlocks.toNat * 128 ≤ n.toNat) : unusedInodes v = v.inodeCount - 1 := by
  have hpos := hg.inodes
  have hcount := hg.inodeCount
  have hic := h.inodeCount
  have hd := hg.dataStart
  have hlt := hg.data
  have hroot : v.inodeUsed 0 = true := by
    have hptr := h.ordered.inodePtr_eq (i := 0) (by omega)
    unfold TrashfsVolume.inodeUsed
    rw [hptr, h.region, h.inodeStart, Nat.zero_mul, Nat.add_zero]
    exact (congrArg (fun w => w &&& trashfsModeUsed != 0) hb.rootMode).trans rfl
  have hrest : ∀ i, 0 < i → i < v.inodeCount → v.inodeUsed i = false := by
    intro i hi hlt'
    have hptr := h.ordered.inodePtr_eq hlt'
    unfold TrashfsVolume.inodeUsed
    rw [hptr, h.region, h.inodeStart]
    have hz : rd16 m (g.inodeStart.toNat * 128 + i * 64) = 0 :=
      rd16_zero fun k hk => hb.zero _ (by rw [blockPtr_eq]; omega) (by omega)
    rw [hz]
    rfl
  unfold Storage.unusedInodes
  rw [range_eq_range', show v.inodeCount = (v.inodeCount - 1) + 1 by omega, range'_succ,
    countP_cons_of_neg (by rw [hroot]; nofun)]
  refine (countP_eq_length.mpr fun i hi => ?_).trans length_range'
  rw [mem_range'_1] at hi
  rw [hrest i (by omega) (by omega)]
  rfl

end Fresh

/-- The volume works: laid out with the root among its inodes, the root directory empty, and as
many blocks and inodes to allocate as it counts and its superblock says. -/
structure Usable (m : Mem) (v : TrashfsVolume) : Prop where
  laidOut : v.LaidOut
  room : v.inodeCount * trashfsInodeSize ≤ v.inodeBlocks * trashfsBlockSize ∧
    trashfsRootInode < v.inodeCount
  root : ∃ d, trashfsOpendir v [slash] = .ok d ∧ (trashfsReaddir v d).2.1 = none
  freeBlocks : Exhausts takeBlock v.freeBlocks v ∧ (rd32 m 44).toNat = v.freeBlocks
  freeInodes : Exhausts takeInode v.freeInodes v ∧ (rd32 m 48).toNat = v.freeInodes

theorem opendir_root (v : TrashfsVolume) : trashfsOpendir v [slash] =
    .ok { inode := 0, size := v.dirSize 0, pos := 0, isOpen := true } := rfl

theorem readdir_empty {v : TrashfsVolume} {d : TrashfsDir} (ho : d.isOpen = true)
    (hs : d.size = 0) : (trashfsReaddir v d).2.1 = none := by
  unfold trashfsReaddir
  rw [if_pos ho, hs]
  unfold readdirLoop trashfsDirentSize
  rw [hs, if_neg (by omega)]

/-- A successful format gives a volume that mounts and works, unless the inode hint is the one whose
rounding wraps. -/
theorem format_usable_iff {m : Mem} {n hint now : BitVec 32}
    (h : (trashfsFormat m n hint now).1 = .ok) :
    (∃ v, trashfsMount (trashfsFormat m n hint now).2 n = .ok v ∧
      Usable (trashfsFormat m n hint now).2 v) ↔ hint ≠ 0xFFFFFFFF := by
  have h128 : (BitVec.ofNat 32 trashfsBlockSize).toNat = 128 := rfl
  have hlt := n.isLt
  have htotal : (n / BitVec.ofNat 32 trashfsBlockSize).toNat = n.toNat / 128 := by
    rw [BitVec.toNat_udiv, h128]
  unfold trashfsFormat at h ⊢
  split at h
  · cases h
  split at h
  · cases h
  next hmod hmin =>
  rw [if_neg hmod, if_neg hmin]
  cases hgeom : computeGeometry (n / BitVec.ofNat 32 trashfsBlockSize) hint with
  | none =>
    rw [hgeom] at h
    cases h
  | some g =>
    dsimp only
    constructor
    · rintro ⟨v, hv, hu⟩ rfl
      -- the hint plus one is zero blocks of inodes
      have hwanted : inodesWanted (n / BitVec.ofNat 32 trashfsBlockSize) 0xFFFFFFFF =
        0xFFFFFFFF := if_neg (by decide)
      have hzero : g.inodeBlocks = 0 := by
        rw [computeGeometry_inodes hgeom, hwanted]
        decide
      have ha := mount_accepted hv
      have hfield : rd32 (writeVolume m n g now) 28 = g.inodeBlocks :=
        (writeSuperblock_of ..).inodeBlocks
      have hroot := hu.room.2
      rw [ha.inodeCount, hfield, hzero] at hroot
      exact absurd hroot (Nat.lt_irrefl 0)
    · intro hhint
      obtain ⟨hgt, hg⟩ := computeGeometry_fits (by omega) hhint hgeom
      have hn : g.totalBlocks.toNat * 128 ≤ n.toNat := by
        rw [hgt, htotal]
        omega
      have hb := writeVolume_blank (m := m) (n := n) hg hn now
      obtain ⟨v, hv⟩ := mount_blank hg hb (Nat.not_lt.mp hmin) hgt
      have hf := mount_fresh hg hb hgt hv
      have hone : (1 : BitVec 32).toNat = 1 := rfl
      have hcount := hg.inodeCount
      have hpos := hg.inodes
      have hdata := hg.data
      have hinodes := hf.ordered.inodes
      have hclear := hf.clearBlocks hb
      have hunused := hf.unusedInodes hg hb hn
      refine ⟨v, hv, hf.ordered.laidOut hf.bytes, ⟨?_, ?_⟩, ⟨_, opendir_root v, ?_⟩, ⟨?_, ?_⟩,
        ⟨?_, ?_⟩⟩
      · unfold trashfsInodeSize trashfsBlockSize
        omega
      · rw [hf.inodeCount]
        exact Nat.lt_of_lt_of_le Nat.zero_lt_two (by omega)
      · refine readdir_empty rfl ?_
        have hptr := hf.ordered.inodePtr_eq (i := 0) (by rw [hf.inodeCount]; omega)
        have hsize := hb.rootSize
        unfold TrashfsVolume.dirSize
        rw [hptr, hf.region, hf.inodeStart, Nat.zero_mul, Nat.add_zero]
        exact congrArg BitVec.toNat hsize
      · rw [hf.freeBlocks]
        exact exhausts_blocks hf.ordered
      · rw [hb.super.freeBlocks, hf.freeBlocks, hclear, BitVec.toNat_sub, BitVec.toNat_add, hone,
          hf.totalBlocks, hf.dataStart]
        omega
      · rw [hf.freeInodes]
        exact exhausts_inodes hf.ordered
      · rw [hb.super.freeInodes, hf.freeInodes, hunused, BitVec.toNat_sub, hone, hf.inodeCount]
        omega

/-- The smallest volume with the default number of inodes. -/
theorem format_usable_small : (trashfsFormat (fun _ => 0) 16384 0 0).1 = .ok ∧
    ∃ v, trashfsMount (trashfsFormat (fun _ => 0) 16384 0 0).2 16384 = .ok v ∧
      Usable (trashfsFormat (fun _ => 0) 16384 0 0).2 v := by
  have hok : (trashfsFormat (fun _ => 0) 16384 0 0).1 = .ok := by decide +kernel
  exact ⟨hok, (format_usable_iff hok).mpr (by decide)⟩

/-- With the largest hint, format succeeds with no inode at all and 4294967295 free ones. -/
theorem format_wraps : (trashfsFormat (fun _ => 0) 16384 0xFFFFFFFF 0).1 = .ok ∧
    ¬∃ v, trashfsMount (trashfsFormat (fun _ => 0) 16384 0xFFFFFFFF 0).2 16384 = .ok v ∧
      Usable (trashfsFormat (fun _ => 0) 16384 0xFFFFFFFF 0).2 v := by
  have hok : (trashfsFormat (fun _ => 0) 16384 0xFFFFFFFF 0).1 = .ok := by decide +kernel
  have hcount : (rd32 (trashfsFormat (fun _ => 0) 16384 0xFFFFFFFF 0).2 48).toNat =
      4294967295 := by decide +kernel
  have hnone : (trashfsMount (trashfsFormat (fun _ => 0) 16384 0xFFFFFFFF 0).2 16384).toOption.map
      (fun v => v.allocInode.isSome) = some false := by decide +kernel
  refine ⟨hok, ?_⟩
  rintro ⟨v, hv, hu⟩
  rw [hv] at hnone
  obtain ⟨hexhausts, hfree⟩ := hu.freeInodes
  rw [← hfree, hcount] at hexhausts
  obtain ⟨v', htake, -⟩ := hexhausts
  have halloc : v.allocInode = none := by
    rw [← Option.not_isSome_iff_eq_none, show v.allocInode.isSome = false from Option.some.inj hnone]
    nofun
  unfold takeInode at htake
  rw [halloc] at htake
  cases htake

end Microgarbage.Storage
