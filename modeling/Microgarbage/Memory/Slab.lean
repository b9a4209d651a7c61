import Mathlib.Algebra.Ring.Nat
import Mathlib.Data.Fintype.Card
import Microgarbage.Lib.Bitmap
import Microgarbage.Lib.Bytes

/-!
# The slab allocator

Sixteen bins of fixed-size blocks in one caller-owned region: first the pointer stack of every bin,
then the blocks, each with an eight-byte header. The handle lives outside the region; the stacks
and the headers are bytes of host memory.

Pointers and sizes of the host are natural numbers, 0 being `NULL`. The build is the one with
magic values and without a locker.
-/

namespace Microgarbage.Memory

open Lib

abbrev Bin := Fin 16

def slabMagicAllocated : BitVec 32 := 0x4D4D4D4D
def slabMagicFreed : BitVec 32 := 0xDEADBEEF

def slabMinBlock : Nat := 32
def slabHeaderSize : Nat := 8

inductive SlabResult where
  | ok
  | errInvalidArg
  | errNoSpace
  | errCorrupted
  | errDoubleFree
  | errForeignPointer
  deriving DecidableEq

structure SlabConfig where
  bucketCounts : Bin → BitVec 16

structure SlabBinInfo where
  blockSize : Nat
  bucketCount : BitVec 16
  blocksInUse : BitVec 16
  peakInUse : BitVec 16
  top : BitVec 16
  /-- The stack array. -/
  stack : Nat
  /-- The block storage. -/
  blocks : Nat

structure SlabAllocator where
  totalBytesManaged : Nat
  totalBytesInUse : Nat
  peakBytesInUse : Nat
  allocCount : BitVec 32
  freeCount : BitVec 32
  failedAllocCount : BitVec 32
  bins : Bin → SlabBinInfo
  bitmap : BitVec 32
  region : Nat
  regionBytes : Nat

namespace SlabAllocator

def setBin (a : SlabAllocator) (i : Bin) (info : SlabBinInfo) : SlabAllocator :=
  { a with bins := Function.update a.bins i info }

/-- Bit `i` of the bitmap. -/
def hasFree (a : SlabAllocator) (i : Bin) : Bool := a.bitmap &&& 1#32 <<< i.val != 0#32

end SlabAllocator

/-- `header_of`, on a 64-bit host. -/
def headerOf (p : Nat) : Nat := (p + (2 ^ 64 - slabHeaderSize)) % 2 ^ 64

/-! ## Size to bin -/

/-- Leading zeros of a 32-bit word, as the software fallback counts them. -/
def clz32 (x : BitVec 32) : Nat := 31 - Nat.log2 x.toNat

/-- The bin of a payload size; 16 when there is none. -/
def sizeToBin (payloadSize : BitVec 64) : Nat :=
  let total := payloadSize + 8
  if total ≤ 32 then 0
  else
    let v : BitVec 32 := (total - 1).setWidth 32
    let bin := 32 - clz32 v - 5
    if 16 ≤ bin then 16 else bin

/-! ## Initialisation -/

def blockTotal (info : SlabBinInfo) : Nat := info.blockSize + slabHeaderSize

def slabRequiredBytes (cfg : SlabConfig) : Nat :=
  ((List.finRange 16).map fun i =>
    let n := (cfg.bucketCounts i).toNat
    n * 8 + n * (slabMinBlock * 2 ^ i.val + slabHeaderSize)).sum + 8

def align8 (p : Nat) : Nat := (p + 7) / 8 * 8

/-- The handle after `memset` and the first loop. -/
def slabBlank (region bytes : Nat) (cfg : SlabConfig) : SlabAllocator where
  totalBytesManaged := 0
  totalBytesInUse := 0
  peakBytesInUse := 0
  allocCount := 0
  freeCount := 0
  failedAllocCount := 0
  bins i := ⟨slabMinBlock * 2 ^ i.val, cfg.bucketCounts i, 0, 0, 0, 0, 0⟩
  bitmap := 0
  region := region
  regionBytes := bytes

/-- Carve out one stack array at the cursor. -/
def carveStack (s : SlabAllocator × Nat) (i : Bin) : SlabAllocator × Nat :=
  let (a, cursor) := s
  let info := a.bins i
  if info.bucketCount = 0 then s
  else (a.setBin i { info with stack := cursor }, cursor + info.bucketCount.toNat * 8)

/-- The header of block `b` of bin `i`, and its entry on the stack. -/
def initBlock (i : Bin) (cursor total stack : Nat) (mem : Mem) (b : Nat) : Mem :=
  let start := cursor + b * total
  let mem := mem.store (start + 4) 4 (BitVec.ofNat 32 i.val)
  let mem := mem.store start 4 slabMagicFreed
  mem.store (stack + 8 * b) 8 (BitVec.ofNat 64 (start + slabHeaderSize))

/-- A bin whose blocks start at `cursor` and are all pushed. -/
def SlabAllocator.fill (a : SlabAllocator) (i : Bin) (cursor : Nat) : SlabAllocator :=
  let info := a.bins i
  { a.setBin i { info with blocks := cursor, top := info.bucketCount } with
    bitmap := a.bitmap ||| 1#32 <<< i.val
    totalBytesManaged := a.totalBytesManaged + info.bucketCount.toNat * info.blockSize }

/-- Carve out the blocks of one bin and push them all. -/
def carveBlocks (s : SlabAllocator × Mem × Nat) (i : Bin) : SlabAllocator × Mem × Nat :=
  let (a, mem, cursor) := s
  let info := a.bins i
  let n := info.bucketCount
  if n = 0 then s
  else
    let cursor := align8 cursor
    let total := blockTotal info
    (a.fill i cursor, (List.range n.toNat).foldl (initBlock i cursor total info.stack) mem,
      cursor + n.toNat * total)

/-- A null region is refused, and so is one that is too small. -/
def slabInit (region bytes : Nat) (cfg : SlabConfig) (mem : Mem) :
    SlabResult × SlabAllocator × Mem :=
  let blank := slabBlank region bytes cfg
  if region = 0 then (.errInvalidArg, blank, mem)
  else if bytes < slabRequiredBytes cfg then (.errNoSpace, blank, mem)
  else
    let (a, cursor) := (List.finRange 16).foldl carveStack (blank, region)
    let (a, mem, cursor) := (List.finRange 16).foldl carveBlocks (a, mem, cursor)
    (if bytes < cursor - region then .errNoSpace else .ok, a, mem)

/-! ## Allocation -/

def SlabAllocator.failed (a : SlabAllocator) : SlabAllocator :=
  { a with failedAllocCount := a.failedAllocCount + 1 }

/-- Counters after a block of a bin was handed out; `info` has its new top. -/
def SlabAllocator.accountAlloc (a : SlabAllocator) (i : Bin) (info : SlabBinInfo) : SlabAllocator :=
  let used := info.blocksInUse + 1
  let info := { info with
    blocksInUse := used
    peakInUse := if info.peakInUse < used then used else info.peakInUse }
  let inUse := a.totalBytesInUse + info.blockSize
  { a.setBin i info with
    totalBytesInUse := inUse
    peakBytesInUse := if a.peakBytesInUse < inUse then inUse else a.peakBytesInUse
    allocCount := a.allocCount + 1 }

/-- Clear the bitmap bit of a bin whose stack is empty. -/
def SlabAllocator.clearEmpty (a : SlabAllocator) (i : Bin) (top : BitVec 16) : SlabAllocator :=
  if top = 0 then { a with bitmap := a.bitmap &&& ~~~(1#32 <<< i.val) } else a

/-- Pop a block of bin `i`, which has one. -/
def slabPop (a : SlabAllocator) (mem : Mem) (i : Bin) : Nat × SlabAllocator × Mem :=
  let info := { a.bins i with top := (a.bins i).top - 1 }
  let userPtr := (mem.load64 (info.stack + 8 * info.top.toNat)).toNat
  (userPtr, (a.clearEmpty i info.top).accountAlloc i info,
    mem.store (headerOf userPtr) 4 slabMagicAllocated)

def slabAlloc (a : SlabAllocator) (mem : Mem) (n : BitVec 64) : Nat × SlabAllocator × Mem :=
  if n = 0 then (0, a, mem)
  else
    if h : sizeToBin n < 16 then
      let i : Bin := ⟨sizeToBin n, h⟩
      if a.hasFree i then slabPop a mem i else (0, a.failed, mem)
    else
      (0, a.failed, mem)

/-! ## Release -/

/-- Counters after a block was pushed; `info` has its new top. -/
def SlabAllocator.accountFree (a : SlabAllocator) (i : Bin) (info : SlabBinInfo) : SlabAllocator :=
  let info := { info with
    blocksInUse := if 0 < info.blocksInUse then info.blocksInUse - 1 else info.blocksInUse }
  { a.setBin i info with
    totalBytesInUse :=
      if info.blockSize ≤ a.totalBytesInUse then a.totalBytesInUse - info.blockSize else 0
    freeCount := a.freeCount + 1 }

/-- Push the block `p` of bin `i`. -/
def slabPush (a : SlabAllocator) (mem : Mem) (i : Bin) (p : Nat) : SlabAllocator × Mem :=
  let info := a.bins i
  let mem := mem.store (info.stack + 8 * info.top.toNat) 8 (BitVec.ofNat 64 p)
  let a := { a with bitmap := a.bitmap ||| 1#32 <<< i.val }
  (a.accountFree i { info with top := info.top + 1 }, mem.store (headerOf p) 4 slabMagicFreed)

def slabFree (a : SlabAllocator) (mem : Mem) (p : Nat) : SlabResult × SlabAllocator × Mem :=
  if p = 0 then (.ok, a, mem)
  else
    let h := headerOf p
    if h < a.region ∨ a.region + a.regionBytes ≤ h then (.errForeignPointer, a, mem)
    else if mem.load32 h = slabMagicFreed then (.errDoubleFree, a, mem)
    else if mem.load32 h ≠ slabMagicAllocated then (.errCorrupted, a, mem)
    else
      if hb : (mem.load32 (h + 4)).toNat < 16 then
        let i : Bin := ⟨(mem.load32 (h + 4)).toNat, hb⟩
        if (a.bins i).bucketCount ≤ (a.bins i).top then (.errDoubleFree, a, mem)
        else (.ok, slabPush a mem i p)
      else
        (.errCorrupted, a, mem)

/-! ## Introspection and resizing -/

def slabBlockSize (a : SlabAllocator) (mem : Mem) (p : Nat) : Nat :=
  if p = 0 then 0
  else
    let h := headerOf p
    if h < a.region ∨ a.region + a.regionBytes ≤ h then 0
    else if mem.load32 h ≠ slabMagicAllocated then 0
    else
      if hb : (mem.load32 (h + 4)).toNat < 16 then
        (a.bins ⟨(mem.load32 (h + 4)).toNat, hb⟩).blockSize
      else 0

def slabRealloc (a : SlabAllocator) (mem : Mem) (p : Nat) (newSize : BitVec 64) :
    Nat × SlabAllocator × Mem :=
  if p = 0 then slabAlloc a mem newSize
  else if newSize = 0 then (0, (slabFree a mem p).2)
  else
    let oldCap := slabBlockSize a mem p
    if oldCap = 0 then (0, a, mem)
    else if newSize.toNat ≤ oldCap then (p, a, mem)
    else
      let (np, a, mem) := slabAlloc a mem newSize
      if np = 0 then (0, a, mem)
      else (np, (slabFree a (mem.copy np (mem.bytes p oldCap)) p).2)

end Microgarbage.Memory
