import Mathlib.Algebra.Ring.Nat
import Mathlib.Data.Fintype.Card
import Microgarbage.Lib.Bytes

/-!
# The L2 heap

First fit over boundary tags: every block has a sixteen-byte header with its size and the size of
the block before it, and a free block keeps its two free-list links behind the header. The heap
lies in host memory, the handle at the front of the region is a record here. Pointers of the host are
natural numbers, 0 being `NULL`.
-/

namespace Microgarbage.Mgapi

open Lib

def l2HeaderBytes : Nat := 16
def l2MinBlockBytes : Nat := 32
def l2DefaultAlign : Nat := 16

def l2FlagInUse : BitVec 32 := 1

/-- `sizeof(L2Alloc)`, on a 64-bit host. -/
def sizeofL2Alloc : Nat := 32

structure L2Alloc where
  regionBase : Nat
  regionEnd : Nat
  /-- LIFO. -/
  freeHead : Nat
  allocCount : BitVec 32
  freeBlockCount : BitVec 32
  deriving DecidableEq

/-! ## Headers and links -/

/-- The fields of an `L2Block`. -/
inductive Field where
  | size
  | prevSize
  | flags
  | pad
  deriving DecidableEq

def Field.offset : Field → Nat
  | .size => 0
  | .prevSize => 4
  | .flags => 8
  | .pad => 12

/-- The fields of a `FreeLink`, from the header on. -/
inductive Link where
  | prev
  | next
  deriving DecidableEq

def Link.offset : Link → Nat
  | .prev => 16
  | .next => 24

def field (mem : Mem) (b : Nat) (f : Field) : BitVec 32 := mem.load32 (b + f.offset)

def setField (mem : Mem) (b : Nat) (f : Field) (v : BitVec 32) : Mem := mem.store (b + f.offset) 4 v

def link (mem : Mem) (b : Nat) (l : Link) : Nat := (mem.load64 (b + l.offset)).toNat

def setLink (mem : Mem) (b : Nat) (l : Link) (p : Nat) : Mem :=
  mem.store (b + l.offset) 8 (BitVec.ofNat 64 p)

def blockPayload (b : Nat) : Nat := b + l2HeaderBytes
def payloadBlock (p : Nat) : Nat := p - l2HeaderBytes

def nextBlock (a : L2Alloc) (mem : Mem) (b : Nat) : Option Nat :=
  let n := b + (field mem b .size).toNat
  if a.regionEnd ≤ n then none else some n

/-- `after->prev_size = v`, where there is a block after `b`. -/
def setAfter (a : L2Alloc) (mem : Mem) (b : Nat) (v : BitVec 32) : Mem :=
  match nextBlock a mem b with
  | some after => setField mem after .prevSize v
  | none => mem

def prevBlock (mem : Mem) (b : Nat) : Option Nat :=
  if field mem b .prevSize = 0 then none else some (b - (field mem b .prevSize).toNat)

def flPush (a : L2Alloc) (mem : Mem) (b : Nat) : L2Alloc × Mem :=
  let mem := setLink mem b .prev 0
  let mem := setLink mem b .next a.freeHead
  let mem := if a.freeHead ≠ 0 then setLink mem a.freeHead .prev b else mem
  ({ a with freeHead := b, freeBlockCount := a.freeBlockCount + 1 }, mem)

def flRemove (a : L2Alloc) (mem : Mem) (b : Nat) : L2Alloc × Mem :=
  let prev := link mem b .prev
  let freeHead := if prev ≠ 0 then a.freeHead else link mem b .next
  let mem := if prev ≠ 0 then setLink mem prev .next (link mem b .next) else mem
  let next := link mem b .next
  let mem := if next ≠ 0 then setLink mem next .prev (link mem b .prev) else mem
  ({ a with freeHead := freeHead, freeBlockCount := a.freeBlockCount - 1 }, mem)

/-! ## Creation -/

/-- The usable heap begins behind the handle, rounded up. -/
def l2HeapBase (region : Nat) : Nat :=
  (region + sizeofL2Alloc + (l2DefaultAlign - 1)) / l2DefaultAlign * l2DefaultAlign

def l2Create (region regionSize : Nat) (mem : Mem) : Option (L2Alloc × Mem) :=
  if region = 0 ∨ regionSize < sizeofL2Alloc + l2MinBlockBytes then none
  else
    let base := l2HeapBase region
    let regionEnd := region + regionSize
    if regionEnd < base + l2MinBlockBytes then none
    else
      let mem := setField mem base .size (BitVec.ofNat 32 (regionEnd - base))
      let mem := setField mem base .prevSize 0
      let mem := setField mem base .flags 0
      let mem := setField mem base .pad 0
      some (flPush ⟨base, regionEnd, 0, 0, 0⟩ mem base)

/-! ## Allocation -/

def roundUpU32 (v align : BitVec 32) : BitVec 32 := (v + align - 1) &&& ~~~(align - 1)

def isPow2 (v : BitVec 64) : Bool := v != 0 && v &&& (v - 1) == 0

/-- The alignment that is used; `none` when it is refused. -/
def l2Align (align : BitVec 64) : Option (BitVec 64) :=
  let align := if align = 0 then 16 else align
  if isPow2 align then some (if align < 16 then 16 else align) else none

/-- `want_total`. -/
def wantTotal (size align : BitVec 64) : BitVec 32 :=
  let wantPayload : BitVec 32 := if size < 16 then 16 else size.setWidth 32
  let wantPayload := roundUpU32 wantPayload (align.setWidth 32)
  roundUpU32 (wantPayload + 16) 16

/-- The search of the free list, at most `fuel` blocks long; `none` when it goes on. -/
def firstFit (mem : Mem) (want : BitVec 32) : Nat → Nat → Option Nat
  | 0, _ => none
  | fuel + 1, b =>
    if b = 0 then some 0
    else if field mem b .size < want then firstFit mem want fuel (link mem b .next)
    else some b

/-- More than a list of different blocks can have. -/
def L2Alloc.fuel (a : L2Alloc) : Nat := (a.regionEnd - a.regionBase) / l2MinBlockBytes + 1

/-- Split off the tail if there is enough left for another block. -/
def splitTail (a : L2Alloc) (mem : Mem) (b : Nat) (want : BitVec 32) : L2Alloc × Mem :=
  let remaining := field mem b .size - want
  if 32 ≤ remaining then
    let tail := b + want.toNat
    let mem := setField mem tail .size remaining
    let mem := setField mem tail .prevSize want
    let mem := setField mem tail .flags 0
    let mem := setField mem tail .pad 0
    let mem := setAfter a mem tail remaining
    let mem := setField mem b .size want
    flPush a mem tail
  else (a, mem)

/-- The pointer, 0 when there is none; `none` when the search does not end. -/
def l2Alloc (a : L2Alloc) (mem : Mem) (size align : BitVec 64) : Option (Nat × L2Alloc × Mem) :=
  if size = 0 then some (0, a, mem)
  else
    match l2Align align with
    | none => some (0, a, mem)
    | some align =>
      let want := wantTotal size align
      (firstFit mem want a.fuel a.freeHead).map fun b =>
        if b = 0 then (0, a, mem)
        else
          let (a, mem) := flRemove a mem b
          let (a, mem) := splitTail a mem b want
          let mem := setField mem b .flags (field mem b .flags ||| l2FlagInUse)
          (blockPayload b, { a with allocCount := a.allocCount + 1 }, mem)

/-! ## Freeing -/

def isFree (mem : Mem) (b : Nat) : Bool := field mem b .flags &&& l2FlagInUse == 0

/-- Merge with the block before, if it is free. -/
def coalescePrev (a : L2Alloc) (mem : Mem) (b : Nat) : L2Alloc × Mem × Nat :=
  match prevBlock mem b with
  | none => (a, mem, b)
  | some prev =>
    if isFree mem prev then
      let (a, mem) := flRemove a mem prev
      let mem := setField mem prev .size (field mem prev .size + field mem b .size)
      (a, setAfter a mem prev (field mem prev .size), prev)
    else (a, mem, b)

/-- Merge with the block after, if it is free. -/
def coalesceNext (a : L2Alloc) (mem : Mem) (b : Nat) : L2Alloc × Mem :=
  match nextBlock a mem b with
  | none => (a, mem)
  | some next =>
    if isFree mem next then
      let (a, mem) := flRemove a mem next
      let mem := setField mem b .size (field mem b .size + field mem next .size)
      (a, setAfter a mem b (field mem b .size))
    else (a, mem)

def l2Free (a : L2Alloc) (mem : Mem) (p : Nat) : L2Alloc × Mem :=
  if p = 0 then (a, mem)
  else
    let b := payloadBlock p
    if isFree mem b then (a, mem)
    else
      let mem := setField mem b .flags (field mem b .flags &&& ~~~l2FlagInUse)
      let a := { a with allocCount := a.allocCount - 1 }
      let (a, mem, b) := coalescePrev a mem b
      let (a, mem) := coalesceNext a mem b
      flPush a mem b

/-! ## Statistics -/

structure L2Stats where
  usedBytes : Nat
  freeBytes : Nat
  allocCount : BitVec 32
  freeBlockCount : BitVec 32

/-- The bytes of the free list from `b` on; `none` when it goes on after `fuel` blocks. -/
def freeBytes (mem : Mem) : Nat → Nat → Option Nat
  | 0, _ => none
  | fuel + 1, b =>
    if b = 0 then some 0
    else (freeBytes mem fuel (link mem b .next)).map ((field mem b .size).toNat + ·)

def l2Stats (a : L2Alloc) (mem : Mem) : Option L2Stats :=
  (freeBytes mem a.fuel a.freeHead).map fun free =>
    { usedBytes := a.regionEnd - a.regionBase - free
      freeBytes := free
      allocCount := a.allocCount
      freeBlockCount := a.freeBlockCount }

end Microgarbage.Mgapi
