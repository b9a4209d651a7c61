import Microgarbage.Storage.Volume

/-!
# Blocks of a volume

Allocation and release of data blocks and inodes, and the map from a file's logical blocks to blocks
of the volume: eight direct pointers in the inode, then one, two and three levels of pointer blocks.
-/

namespace Microgarbage.Storage

open Lib

namespace TrashfsVolume

/-! ## Allocation -/

/-- `alloc_block_v`: the lowest free data block, zeroed, or `trashfsBlockNone`. -/
def allocBlock (v : TrashfsVolume) : Nat × TrashfsVolume :=
  match v.dataBlocks.find? fun b => !v.bitmapTest b with
  | some b =>
    (b, { v with
      region := memset0 (bitmapSet v.region v.bitmapStart b) (blockPtr b) trashfsBlockSize
      freeBlocks := v.freeBlocks - 1 })
  | none => (trashfsBlockNone, v)

/-- `free_block_v` -/
def freeBlock (v : TrashfsVolume) (block : Nat) : TrashfsVolume :=
  if block = trashfsBlockNone then v
  else if block < v.dataStart ∨ v.totalBlocks ≤ block then v
  else if v.bitmapTest block then
    { v with
      region := bitmapClear v.region v.bitmapStart block
      freeBlocks := v.freeBlocks + 1 }
  else v

/-- `alloc_inode_v`: the number of the first unused inode; it stays unused until it is written. -/
def allocInode (v : TrashfsVolume) : Option (Nat × TrashfsVolume) :=
  ((List.range v.inodeCount).find? fun i => !v.inodeUsed i).map fun i =>
    (i, { v with freeInodes := v.freeInodes - 1 })

/-! ## The block map -/

end TrashfsVolume

/-- The slot of the inode that a logical block hangs from, and the entries of the pointer blocks on
the way to it; `none` beyond the largest file. -/
def lbnPath (lbn : Nat) : Option (Nat × List Nat) :=
  let p := trashfsPtrsPerBlock
  if lbn < trashfsDirectPtrs then some (16 + lbn * 4, [])
  else
    let lbn := lbn - trashfsDirectPtrs
    if lbn < p then some (48, [lbn])
    else
      let lbn := lbn - p
      if lbn < p * p then some (52, [lbn / p, lbn % p])
      else
        let lbn := lbn - p * p
        if lbn < p * p * p then some (56, [lbn / (p * p), lbn / p % p, lbn % p])
        else none

namespace TrashfsVolume

/-- The pointer in a slot. -/
def slotPtr (v : TrashfsVolume) (slot : Nat) : Nat := (rd32 v.region slot).toNat

def ptrInBlock (v : TrashfsVolume) (block idx : Nat) : Nat :=
  if block = trashfsBlockNone then trashfsBlockNone else v.slotPtr (blockPtr block + idx * 4)

/-- Through pointer blocks, `trashfsBlockNone` where one is missing. -/
def followPath (v : TrashfsVolume) : Nat → List Nat → Nat
  | block, [] => block
  | block, idx :: path => followPath v (v.ptrInBlock block idx) path

def mapLbn (v : TrashfsVolume) (inode lbn : Nat) : Nat :=
  match lbnPath lbn with
  | some (slot, path) => v.followPath (v.slotPtr (inode + slot)) path
  | none => trashfsBlockNone

/-- The block that a slot names, allocated and stored there if it names none. -/
def ensureSlot (v : TrashfsVolume) (slot : Nat) : Nat × TrashfsVolume :=
  let b := v.slotPtr slot
  if b = trashfsBlockNone then
    let (b, v) := v.allocBlock
    if b = trashfsBlockNone then (trashfsBlockNone, v)
    else (b, { v with region := wr32 v.region slot (BitVec.ofNat 32 b) })
  else (b, v)

/-- The levels of `bmap_alloc`. What a level allocated stays when a later one fails. -/
def ensurePath (v : TrashfsVolume) (slot : Nat) : List Nat → Nat × TrashfsVolume
  | [] => v.ensureSlot slot
  | idx :: path =>
    let (b, v) := v.ensureSlot slot
    if b = trashfsBlockNone then (trashfsBlockNone, v)
    else ensurePath v (blockPtr b + idx * 4) path

def bmapAlloc (v : TrashfsVolume) (inode lbn : Nat) : Nat × TrashfsVolume :=
  match lbnPath lbn with
  | some (slot, path) => v.ensurePath (inode + slot) path
  | none => (trashfsBlockNone, v)

/-! ## Release -/

/-- Free the block `b` and, `depth` levels of pointer blocks down, what it points to. -/
def freeTree : Nat → TrashfsVolume → Nat → TrashfsVolume
  | 0, v, b => v.freeBlock b
  | depth + 1, v, b =>
    if b = trashfsBlockNone then v
    else
      let v := (List.range trashfsPtrsPerBlock).foldl
        (fun v idx => freeTree depth v (v.slotPtr (blockPtr b + idx * 4))) v
      v.freeBlock b

/-- The pointer slots of an inode with the levels below them. -/
def inodeSlots : List (Nat × Nat) :=
  (List.range trashfsDirectPtrs).map (fun i => (16 + i * 4, 0)) ++ [(48, 1), (52, 2), (56, 3)]

def freeSlot (v : TrashfsVolume) (inode : Nat) (s : Nat × Nat) : TrashfsVolume :=
  let v := freeTree s.2 v (v.slotPtr (inode + s.1))
  { v with region := wr32 v.region (inode + s.1) 0 }

def freeAllBlocks (v : TrashfsVolume) (inode : Nat) : TrashfsVolume :=
  inodeSlots.foldl (fun v s => v.freeSlot inode s) v

end TrashfsVolume

end Microgarbage.Storage
