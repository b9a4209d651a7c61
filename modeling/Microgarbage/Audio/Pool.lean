import Mathlib.Algebra.Ring.Nat
import Microgarbage.Containers.BitsetWords
import Microgarbage.Lib.Bytes

/-!
# The audio pool

`audio_pool.c`: a region of blocks, a table of reference-counted objects, each a chain of blocks,
and handles that pair a table slot with the generation it had when the object was allocated.

A handle is a 32-bit value, so its upper half is a 16-bit generation. The three out-of-band arrays
are functions of the block number.
-/

namespace Microgarbage.Audio

open Lib Containers

def audioPoolBlockSize : Nat := 8192

def audioPoolMaxObjects : Nat := 256

def audioPoolNoBlock : Nat := 0xFFFFFFFF

def audioPoolHandleNone : Nat := 0

abbrev AudioObjHandle := Nat

inductive AudioPoolResult
  | ok
  | errNoSpace
  | errNoObjects
  | errBadHandle
  | errInvalidArg
  deriving DecidableEq

structure AudioObject where
  headBlock : Nat
  size : Nat
  nblocks : Nat
  refcount : Int
  generation : Nat
  ownerVm : Nat
  inUse : Bool
  sampleRate : Nat

structure AudioPool where
  region : Mem
  blockCount : Nat
  freeBlocks : Nat
  owner : Nat → Nat
  next : Nat → Nat
  usedMap : WordBitset .bits64
  objects : Nat → AudioObject
  /-- The generation the next object of a slot gets, or the current one has. -/
  generations : Nat → Nat

/-! ## Handles -/

def packHandle (slot gen : Nat) : Nat := gen * 65536 + (slot + 1)

def unpackHandle (h : Nat) : Option (Nat × Nat) :=
  if h = audioPoolHandleNone then none
  else
    let s := h % 65536
    if s = 0 then none else some (s - 1, h / 65536)

/-- The slot of the live object a handle names. -/
def resolve (p : AudioPool) (h : AudioObjHandle) : Option Nat :=
  match unpackHandle h with
  | none => none
  | some (slot, gen) =>
    if slot < audioPoolMaxObjects ∧ (p.objects slot).inUse ∧ (p.objects slot).generation = gen then
      some slot
    else none

theorem unpackHandle_eq_some {h slot gen : Nat} :
    unpackHandle h = some (slot, gen) ↔ h = packHandle slot gen ∧ slot + 1 < 65536 := by
  unfold unpackHandle packHandle audioPoolHandleNone
  dsimp only
  constructor
  · intro hu
    split at hu
    · cases hu
    · split at hu
      · cases hu
      · simp only [Option.some.injEq, Prod.mk.injEq] at hu
        omega
  · rintro ⟨rfl, hlt⟩
    rw [if_neg (by omega), if_neg (by omega)]
    simp only [Option.some.injEq, Prod.mk.injEq]
    omega

section Handles

variable {p : AudioPool} {h : AudioObjHandle} {s : Nat}

theorem resolve_eq_some : resolve p h = some s ↔
    s < audioPoolMaxObjects ∧ (p.objects s).inUse = true ∧
      h = packHandle s (p.objects s).generation := by
  have hpack (hs : s < audioPoolMaxObjects) (hh : h = packHandle s (p.objects s).generation) :
      unpackHandle h = some (s, (p.objects s).generation) :=
    unpackHandle_eq_some.mpr ⟨hh, by unfold audioPoolMaxObjects at hs; omega⟩
  unfold resolve
  cases hu : unpackHandle h with
  | none =>
    refine ⟨fun hn => (by cases hn), ?_⟩
    rintro ⟨hlt, -, hh⟩
    rw [hpack hlt hh] at hu
    cases hu
  | some sg =>
    obtain ⟨slot, gen⟩ := sg
    obtain ⟨hh, -⟩ := unpackHandle_eq_some.mp hu
    simp only [Option.ite_none_right_eq_some, Option.some.injEq]
    constructor
    · rintro ⟨⟨hlt, huse, hgen⟩, rfl⟩
      exact ⟨hlt, huse, hgen ▸ hh⟩
    · rintro ⟨hlt, huse, hh'⟩
      rw [hpack hlt hh', Option.some.injEq, Prod.mk.injEq] at hu
      obtain ⟨rfl, rfl⟩ := hu
      exact ⟨⟨hlt, huse, rfl⟩, rfl⟩

theorem resolve_pack (hs : s < audioPoolMaxObjects) (huse : (p.objects s).inUse = true) :
    resolve p (packHandle s (p.objects s).generation) = some s :=
  resolve_eq_some.mpr ⟨hs, huse, rfl⟩

theorem resolve_inj {j : AudioObjHandle} (hh : resolve p h = some s) (hj : resolve p j = some s) :
    j = h :=
  (resolve_eq_some.mp hj).2.2.trans (resolve_eq_some.mp hh).2.2.symm

end Handles

/-! ## Blocks -/

def allocOneBlock (p : AudioPool) : Option (Nat × AudioPool) :=
  if p.freeBlocks = 0 then none
  else
    match p.usedMap.bitsetFindFirstClear with
    | (_, none) => none
    | (map, some b) =>
      some (b, { p with usedMap := map.bitsetSet b, freeBlocks := p.freeBlocks - 1 })

def setBlock (f : Nat → Nat) (b v : Nat) : Nat → Nat := fun i => if i = b then v else f i

def freeOneBlock (p : AudioPool) (b : Nat) : AudioPool :=
  if p.blockCount ≤ b then p
  else
    let p :=
      if p.usedMap.bitsetTest b then
        { p with usedMap := p.usedMap.bitsetClear b, freeBlocks := p.freeBlocks + 1 }
      else p
    { p with
      owner := setBlock p.owner b audioPoolNoBlock
      next := setBlock p.next b audioPoolNoBlock }

/-- Frees a chain block by block; a chain has no more blocks than the pool. -/
def freeChainLoop : Nat → AudioPool → Nat → AudioPool
  | 0, p, _ => p
  | fuel + 1, p, b =>
    if b = audioPoolNoBlock then p else freeChainLoop fuel (freeOneBlock p b) (p.next b)

def freeChain (p : AudioPool) (head : Nat) : AudioPool := freeChainLoop p.blockCount p head

/-! ## Lifecycle -/

def freeSlot : AudioObject := ⟨audioPoolNoBlock, 0, 0, 0, 0, 0, false, 0⟩

/-- `audio_pool_init` over a region of `regionSize` bytes; the metadata arrays are got. -/
def audioPoolInit (region : Mem) (regionSize : Nat) : AudioPoolResult × AudioPool :=
  let blockCount := regionSize / audioPoolBlockSize % 2 ^ 32
  let pool : AudioPool :=
    { region := region
      blockCount := blockCount
      freeBlocks := blockCount
      owner := fun _ => audioPoolNoBlock
      next := fun _ => audioPoolNoBlock
      usedMap := (WordBitset.bitsetInit (fun _ => 0) blockCount).bitsetClearAll
      objects := fun _ => { freeSlot with headBlock := 0 }
      generations := fun _ => 1 }
  if blockCount = 0 then (.errInvalidArg, pool) else (.ok, pool)

/-! ## Objects -/

def findFreeSlot (p : AudioPool) : Option Nat :=
  (List.range audioPoolMaxObjects).find? fun s => !(p.objects s).inUse

def setObject (p : AudioPool) (slot : Nat) (o : AudioObject) : AudioPool :=
  { p with objects := fun s => if s = slot then o else p.objects s }

/-- Links `need` more blocks to the chain from `head`, whose last block is `prev`; on failure the
chain is freed again. -/
def buildChain (slot : Nat) : Nat → AudioPool → Nat → Nat → Option Nat × AudioPool
  | 0, p, head, _ => (some head, p)
  | need + 1, p, head, prev =>
    match allocOneBlock p with
    | none => (none, freeChain p head)
    | some (b, p) =>
      let p := { p with
        owner := setBlock p.owner b slot
        next := setBlock p.next b audioPoolNoBlock }
      if prev = audioPoolNoBlock then buildChain slot need p b b
      else buildChain slot need { p with next := setBlock p.next prev b } head b

/-- The block count is computed in 32 bits. -/
def blocksNeeded (size : Nat) : Nat :=
  let need := (size + audioPoolBlockSize - 1) % 2 ^ 32 / audioPoolBlockSize
  if need = 0 then 1 else need

def audioPoolAlloc (p : AudioPool) (size ownerVm : Nat) :
    AudioPoolResult × AudioObjHandle × AudioPool :=
  let need := blocksNeeded size
  if p.freeBlocks < need then (.errNoSpace, audioPoolHandleNone, p)
  else
    match findFreeSlot p with
    | none => (.errNoObjects, audioPoolHandleNone, p)
    | some slot =>
      match buildChain slot need p audioPoolNoBlock audioPoolNoBlock with
      | (none, p) => (.errNoSpace, audioPoolHandleNone, p)
      | (some head, p) =>
        let gen := p.generations slot
        (.ok, packHandle slot gen, setObject p slot
          { headBlock := head
            size := size
            nblocks := need
            refcount := 1
            generation := gen
            ownerVm := ownerVm
            inUse := true
            sampleRate := 0 })

def audioPoolAllocWithRate (p : AudioPool) (size ownerVm sampleRate : Nat) :
    AudioPoolResult × AudioObjHandle × AudioPool :=
  match audioPoolAlloc p size ownerVm with
  | (.ok, h, p) =>
    match unpackHandle h with
    | some (slot, _) =>
      if slot < audioPoolMaxObjects ∧ (p.objects slot).inUse then
        (.ok, h, setObject p slot { p.objects slot with sampleRate := sampleRate })
      else (.ok, h, p)
    | none => (.ok, h, p)
  | failed => failed

/-- The 16-bit generation after `gen`, never 0. -/
def nextGeneration (gen : Nat) : Nat :=
  let gen := (gen + 1) % 65536
  if gen = 0 then 1 else gen

def freeObject (p : AudioPool) (slot : Nat) : AudioPool :=
  let p := freeChain p (p.objects slot).headBlock
  setObject { p with
    generations := setBlock p.generations slot (nextGeneration (p.generations slot)) } slot freeSlot

def audioPoolRef (p : AudioPool) (h : AudioObjHandle) : AudioPoolResult × AudioPool :=
  match resolve p h with
  | none => (.errBadHandle, p)
  | some slot =>
    (.ok, setObject p slot { p.objects slot with refcount := (p.objects slot).refcount + 1 })

/-- One reference to the object in `slot` less; at zero it is freed. Also whether it was. -/
def dropRef (p : AudioPool) (slot : Nat) : Bool × AudioPool :=
  let p := setObject p slot { p.objects slot with refcount := (p.objects slot).refcount - 1 }
  if (p.objects slot).refcount ≤ 0 then (true, freeObject p slot) else (false, p)

def audioPoolUnref (p : AudioPool) (h : AudioObjHandle) : AudioPoolResult × Bool × AudioPool :=
  match resolve p h with
  | none => (.errBadHandle, false, p)
  | some slot => (.ok, dropRef p slot)

/-- One turn of the sweep's loop. -/
def sweepSlot (ownerVm : Nat) (p : AudioPool) (slot : Nat) : AudioPool :=
  if (p.objects slot).inUse ∧ (p.objects slot).ownerVm = ownerVm then (dropRef p slot).2 else p

def audioPoolSweepVm (p : AudioPool) (ownerVm : Nat) : AudioPool :=
  (List.range audioPoolMaxObjects).foldl (sweepSlot ownerVm) p

/-! ## Data -/

/-- The block `skip` links down a chain. -/
def seekBlock (p : AudioPool) : Nat → Nat → Nat
  | 0, b => b
  | skip + 1, b => if b = audioPoolNoBlock then b else seekBlock p skip (p.next b)

/-- Copies the `n` bytes of `src` from `done` on into a chain, `inOff` bytes into block `b`; each
turn copies a byte at least. -/
def writeChain (src : List Byte) (n : Nat) : Nat → AudioPool → Nat → Nat → Nat → Nat × AudioPool
  | 0, p, written, _, _ => (written, p)
  | fuel + 1, p, written, b, inOff =>
    if written < n ∧ b ≠ audioPoolNoBlock then
      let chunk := min (audioPoolBlockSize - inOff) (n - written)
      let dst := b * audioPoolBlockSize + inOff
      let p := { p with region := p.region.copy dst ((src.drop written).take chunk) }
      writeChain src n fuel p (written + chunk) (p.next b) 0
    else (written, p)

/-- `audio_pool_write` of the bytes of `src`; also the number of bytes written. -/
def audioPoolWrite (p : AudioPool) (h : AudioObjHandle) (offset : Nat) (src : List Byte) :
    AudioPoolResult × Nat × AudioPool :=
  match resolve p h with
  | none => (.errBadHandle, 0, p)
  | some slot =>
    let o := p.objects slot
    if o.size ≤ offset then (.ok, 0, p)
    else
      let n := min src.length (o.size - offset)
      let b := seekBlock p (offset / audioPoolBlockSize) o.headBlock
      (.ok, writeChain src n n p 0 b (offset % audioPoolBlockSize))

def audioPoolHandleValid (p : AudioPool) (h : AudioObjHandle) : Bool := (resolve p h).isSome

def audioPoolObjectSize (p : AudioPool) (h : AudioObjHandle) : Nat :=
  match resolve p h with
  | none => 0
  | some slot => (p.objects slot).size

end Microgarbage.Audio
