import Mathlib.Algebra.Ring.Nat
import Mathlib.Data.List.Range
import Mathlib.Logic.Function.Basic
import Microgarbage.Lib.Bytes

/-!
# trashfs volumes

The layout of a volume in its region: superblock, bitmap, inode table, data; `trashfs_format`, which
writes it, and `trashfs_mount`, which reads it back. The region starts at address 0. Fields of the
superblock are words, and the sums over them wrap; a mounted volume has them as numbers.
-/

namespace Microgarbage.Storage

open Lib

inductive TrashfsResult where
  | ok
  | errInvalidArg
  | errTooSmall
  | errBadMagic
  | errBadVersion
  | errBadGeometry
  | errNoSpace
  | errNotFound
  | errExists
  | errNotEmpty
  | errNotDir
  deriving DecidableEq

/-! ## Format constants -/

def trashfsMagic : BitVec 32 := 0x54524653
def trashfsVersionMajor : BitVec 16 := 1
def trashfsVersionMinor : BitVec 16 := 0

def trashfsBlockSize : Nat := 128
def trashfsInodeSize : Nat := 64
def trashfsDirentSize : Nat := 48

def trashfsInodesPerBlock : Nat := trashfsBlockSize / trashfsInodeSize
def trashfsPtrsPerBlock : Nat := trashfsBlockSize / 4
def trashfsDirectPtrs : Nat := 8
def trashfsNameMax : Nat := 32
def trashfsMinBytes : Nat := 16 * 1024

def trashfsInodesFloor : BitVec 32 := 16
def trashfsBytesPerInode : Nat := 2048
def trashfsBlocksPerInode : Nat := trashfsBytesPerInode / trashfsBlockSize

def trashfsBlockNone : Nat := 0

def trashfsModeUsed : BitVec 16 := 1
def trashfsModeDir : BitVec 16 := 2

def trashfsRootInode : Nat := 0

/-! ## Little-endian fields -/

def rd32 (m : Mem) (p : Nat) : BitVec 32 := m.load32 p

def rd16 (m : Mem) (p : Nat) : BitVec 16 := m.load16 p

def wr32 (m : Mem) (p : Nat) (v : BitVec 32) : Mem := m.store p 4 v

def wr16 (m : Mem) (p : Nat) (v : BitVec 16) : Mem := m.store p 2 v

def memset0 (m : Mem) (p n : Nat) : Mem := m.overlay p n fun _ => 0

section Fields

variable {m : Mem} {p q : Nat}

@[simp] theorem rd32_wr32 (v : BitVec 32) : rd32 (wr32 m p v) p = v := Mem.load32_store ..

@[simp] theorem rd16_wr16 (v : BitVec 16) : rd16 (wr16 m p v) p = v := Mem.load16_store ..

theorem rd32_wr32_out {v : BitVec 32} (h : q + 4 ≤ p ∨ p + 4 ≤ q) :
    rd32 (wr32 m p v) q = rd32 m q :=
  Mem.load32_store_out h

theorem rd32_wr16_out {v : BitVec 16} (h : q + 4 ≤ p ∨ p + 2 ≤ q) :
    rd32 (wr16 m p v) q = rd32 m q :=
  Mem.load32_store_out h

theorem rd16_wr32_out {v : BitVec 32} (h : q + 2 ≤ p ∨ p + 4 ≤ q) :
    rd16 (wr32 m p v) q = rd16 m q :=
  Mem.load16_store_out h

theorem rd16_wr16_out {v : BitVec 16} (h : q + 2 ≤ p ∨ p + 2 ≤ q) :
    rd16 (wr16 m p v) q = rd16 m q :=
  Mem.load16_store_out h

theorem rd32_congr {m' : Mem} (h : ∀ i < 4, m' (p + i) = m (p + i)) : rd32 m' p = rd32 m p :=
  Mem.load32_congr h

theorem rd16_congr {m' : Mem} (h : ∀ i < 2, m' (p + i) = m (p + i)) : rd16 m' p = rd16 m p :=
  Mem.load16_congr h

theorem wr32_out {v : BitVec 32} {x : Nat} (h : x < p ∨ p + 4 ≤ x) : wr32 m p v x = m x :=
  Mem.store_out h

theorem wr16_out {v : BitVec 16} {x : Nat} (h : x < p ∨ p + 2 ≤ x) : wr16 m p v x = m x :=
  Mem.store_out h

theorem memset0_in {n x : Nat} (h : p ≤ x) (h' : x < p + n) : memset0 m p n x = 0 :=
  Mem.overlay_in (f := fun _ => 0) h h'

theorem memset0_out {n x : Nat} (h : x < p ∨ p + n ≤ x) : memset0 m p n x = m x :=
  Mem.overlay_out h

theorem rd32_zero (h : ∀ i < 4, m (p + i) = 0) : rd32 m p = 0 :=
  (rd32_congr (m := fun _ => 0) h).trans (by simp [rd32, Mem.load32])

theorem rd16_zero (h : ∀ i < 2, m (p + i) = 0) : rd16 m p = 0 :=
  (rd16_congr (m := fun _ => 0) h).trans (by simp [rd16, Mem.load16])

end Fields

/-- The address of a block in the region. -/
def blockPtr (block : Nat) : Nat := block * trashfsBlockSize

@[simp] theorem blockPtr_eq (block : Nat) : blockPtr block = block * 128 := rfl

/-- Bit `b & 7` of byte `b >> 3` of the bitmap at block `start`. -/
def bitmapBit (m : Mem) (start b : Nat) : Bool := (m (blockPtr start + b / 8)).getLsbD (b % 8)

def bitmapSet (m : Mem) (start b : Nat) : Mem := fun x =>
  if x = blockPtr start + b / 8 then m x ||| 1#8 <<< (b % 8) else m x

def bitmapClear (m : Mem) (start b : Nat) : Mem := fun x =>
  if x = blockPtr start + b / 8 then m x &&& ~~~(1#8 <<< (b % 8)) else m x

/-! ## Geometry -/

structure TrashfsGeom where
  totalBlocks : BitVec 32
  bitmapStart : BitVec 32
  bitmapBlocks : BitVec 32
  inodeStart : BitVec 32
  inodeBlocks : BitVec 32
  inodeCount : BitVec 32
  dataStart : BitVec 32

def ceilDiv (a b : BitVec 32) : BitVec 32 := (a + b - 1) / b

/-- The hint if there is one, else one inode for every sixteen blocks, with a floor. -/
def inodesWanted (totalBlocks inodeHint : BitVec 32) : BitVec 32 :=
  if inodeHint = 0 then
    let icount := totalBlocks / BitVec.ofNat 32 trashfsBlocksPerInode
    if icount < trashfsInodesFloor then trashfsInodesFloor else icount
  else inodeHint

/-- `none` when the volume has no room for its metadata and one data block. -/
def computeGeometry (totalBlocks inodeHint : BitVec 32) : Option TrashfsGeom :=
  let bitmapBytes := ceilDiv totalBlocks 8
  let bitmapBlocks := ceilDiv bitmapBytes (BitVec.ofNat 32 trashfsBlockSize)
  let bitmapBlocks := if bitmapBlocks = 0 then 1 else bitmapBlocks
  let inodeBlocks :=
    ceilDiv (inodesWanted totalBlocks inodeHint) (BitVec.ofNat 32 trashfsInodesPerBlock)
  let g : TrashfsGeom :=
    { totalBlocks := totalBlocks
      bitmapStart := 1
      bitmapBlocks := bitmapBlocks
      inodeStart := 1 + bitmapBlocks
      inodeBlocks := inodeBlocks
      inodeCount := inodeBlocks * BitVec.ofNat 32 trashfsInodesPerBlock
      dataStart := 1 + bitmapBlocks + inodeBlocks }
  if totalBlocks ≤ g.dataStart then none else some g

/-! ## Format -/

/-- Mark the first `n` blocks allocated. -/
def markBlocks (m : Mem) (start n : Nat) : Mem :=
  (List.range n).foldl (fun m b => bitmapSet m start b) m

/-- The inode of an empty root directory with one data block. -/
def writeRoot (m : Mem) (inode0 : Nat) (rootBlock now : BitVec 32) : Mem :=
  let m := wr16 m (inode0 + 0) (trashfsModeUsed ||| trashfsModeDir)
  let m := wr16 m (inode0 + 2) 1
  let m := wr32 m (inode0 + 4) 0
  let m := wr32 m (inode0 + 8) now
  let m := wr32 m (inode0 + 12) now
  wr32 m (inode0 + 16) rootBlock

def writeSuperblock (m : Mem) (g : TrashfsGeom) (freeBlocks freeInodes now : BitVec 32) : Mem :=
  let m := wr32 m 0 trashfsMagic
  let m := wr16 m 4 trashfsVersionMajor
  let m := wr16 m 6 trashfsVersionMinor
  let m := wr32 m 8 (BitVec.ofNat 32 trashfsBlockSize)
  let m := wr32 m 12 g.totalBlocks
  let m := wr32 m 16 g.bitmapStart
  let m := wr32 m 20 g.bitmapBlocks
  let m := wr32 m 24 g.inodeStart
  let m := wr32 m 28 g.inodeBlocks
  let m := wr32 m 32 g.inodeCount
  let m := wr32 m 36 g.dataStart
  let m := wr32 m 40 (BitVec.ofNat 32 trashfsRootInode)
  let m := wr32 m 44 freeBlocks
  let m := wr32 m 48 freeInodes
  let m := wr32 m 52 0
  wr32 m 56 now

/-- What `trashfs_format` writes for a geometry. -/
def writeVolume (m : Mem) (regionBytes : BitVec 32) (g : TrashfsGeom) (now : BitVec 32) : Mem :=
  let m := memset0 m 0 regionBytes.toNat
  let m := markBlocks m g.bitmapStart.toNat g.dataStart.toNat
  let rootBlock := g.dataStart
  let m := bitmapSet m g.bitmapStart.toNat rootBlock.toNat
  let m := writeRoot m (blockPtr g.inodeStart.toNat) rootBlock now
  let usedBlocks := g.dataStart + 1
  writeSuperblock m g (g.totalBlocks - usedBlocks) (g.inodeCount - 1) now

def trashfsFormat (m : Mem) (regionBytes inodeHint now : BitVec 32) : TrashfsResult × Mem :=
  if regionBytes.toNat % trashfsBlockSize ≠ 0 then (.errInvalidArg, m)
  else if regionBytes.toNat < trashfsMinBytes then (.errTooSmall, m)
  else
    match computeGeometry (regionBytes / BitVec.ofNat 32 trashfsBlockSize) inodeHint with
    | none => (.errBadGeometry, m)
    | some g => (.ok, writeVolume m regionBytes g now)

/-! ## Mount -/

/-- The part of a mounted volume that no operation changes. -/
structure TrashfsLayout where
  regionBytes : Nat
  totalBlocks : Nat
  bitmapStart : Nat
  bitmapBlocks : Nat
  inodeStart : Nat
  inodeBlocks : Nat
  inodeCount : Nat
  dataStart : Nat

namespace TrashfsLayout

/-- The address of an inode; the block number is a sum of words. -/
def inodePtr (g : TrashfsLayout) (i : Nat) : Nat :=
  blockPtr ((g.inodeStart + i / trashfsInodesPerBlock) % 2 ^ 32) +
    i % trashfsInodesPerBlock * trashfsInodeSize

/-- The data blocks, lowest first. -/
def dataBlocks (g : TrashfsLayout) : List Nat :=
  List.range' g.dataStart (g.totalBlocks - g.dataStart)

end TrashfsLayout

structure TrashfsVolume extends TrashfsLayout where
  region : Mem
  freeBlocks : Nat
  freeInodes : Nat

namespace TrashfsVolume

def bitmapTest (v : TrashfsVolume) (b : Nat) : Bool := bitmapBit v.region v.bitmapStart b

def inodeUsed (v : TrashfsVolume) (i : Nat) : Bool :=
  rd16 v.region (v.inodePtr i) &&& trashfsModeUsed != 0

/-- Count the clear bits and the unused inodes. -/
def rebuildCaches (v : TrashfsVolume) : TrashfsVolume :=
  { v with
    freeBlocks := v.dataBlocks.countP fun b => !v.bitmapTest b
    freeInodes := (List.range v.inodeCount).countP fun i => !v.inodeUsed i }

end TrashfsVolume

def trashfsMount (m : Mem) (regionBytes : BitVec 32) : Except TrashfsResult TrashfsVolume :=
  if regionBytes.toNat < trashfsMinBytes then .error .errTooSmall
  else if rd32 m 0 ≠ trashfsMagic then .error .errBadMagic
  else if rd16 m 4 ≠ trashfsVersionMajor then .error .errBadVersion
  else
    let blockSize := rd32 m 8
    let totalBlocks := rd32 m 12
    let bitmapStart := rd32 m 16
    let bitmapBlocks := rd32 m 20
    let inodeStart := rd32 m 24
    let inodeBlocks := rd32 m 28
    let inodeCount := rd32 m 32
    let dataStart := rd32 m 36
    let rootInode := rd32 m 40
    if blockSize ≠ BitVec.ofNat 32 trashfsBlockSize then .error .errBadGeometry
    else if totalBlocks ≠ regionBytes / BitVec.ofNat 32 trashfsBlockSize then .error .errBadGeometry
    else if bitmapStart ≠ 1 then .error .errBadGeometry
    else if inodeStart ≠ bitmapStart + bitmapBlocks then .error .errBadGeometry
    else if dataStart ≠ inodeStart + inodeBlocks then .error .errBadGeometry
    else if totalBlocks ≤ dataStart then .error .errBadGeometry
    else if inodeCount ≠ inodeBlocks * BitVec.ofNat 32 trashfsInodesPerBlock then
      .error .errBadGeometry
    else if rootInode ≠ BitVec.ofNat 32 trashfsRootInode then .error .errBadGeometry
    else
      .ok (TrashfsVolume.rebuildCaches
        { region := m
          regionBytes := regionBytes.toNat
          totalBlocks := totalBlocks.toNat
          bitmapStart := bitmapStart.toNat
          bitmapBlocks := bitmapBlocks.toNat
          inodeStart := inodeStart.toNat
          inodeBlocks := inodeBlocks.toNat
          inodeCount := inodeCount.toNat
          dataStart := dataStart.toNat
          freeBlocks := 0
          freeInodes := 0 })

end Microgarbage.Storage
