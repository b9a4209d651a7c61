import Mathlib.Algebra.Ring.Nat
import Microgarbage.Lib.Buckets
import Microgarbage.Lib.Bytes

/-!
# The hash table

`hashtable.c`: chains of entries under string keys, a bucket array that doubles, and an allocator
that may refuse any request. A chain is the list of its entries. The bucket array is as long as the
block that was got for it, and an access behind its end has no result.

The allocator's answers are arguments of the calls. It never grants more than the address space
holds beside the blocks that the table has.
-/

namespace Microgarbage.Containers

open Lib

/-- The targets: size and pointer of 32 or of 64 bits. -/
inductive Abi
  | bits32
  | bits64
  deriving DecidableEq

namespace Abi

def width : Abi → Nat
  | bits32 => 32
  | bits64 => 64

def ptrBytes : Abi → Nat
  | bits32 => 4
  | bits64 => 8

/-- `sizeof(struct HashTable)` -/
def tableBytes (abi : Abi) : Nat := 5 * abi.ptrBytes

/-- `sizeof(Entry)`: three pointers, and the hash with what pads it. -/
def entryBytes (abi : Abi) : Nat := 4 * abi.ptrBytes

end Abi

abbrev SizeT (abi : Abi) := BitVec abi.width

structure HtEntry (abi : Abi) where
  key : List Byte
  value : SizeT abi
  hash : BitVec 32
  deriving DecidableEq

structure HashTable (abi : Abi) where
  buckets : List (List (HtEntry abi))
  bucketCount : SizeT abi
  itemCount : SizeT abi
  deriving DecidableEq

/-- Whether the allocator grants the blocks that a call asks for. -/
structure Grants where
  table : Bool
  buckets : Bool
  entry : Bool
  key : Bool
  deriving DecidableEq

variable {abi : Abi}

def htDefaultBuckets : SizeT abi := 16

/-! ## Helpers -/

/-- FNV-1a. -/
def htHash (s : List Byte) : BitVec 32 :=
  s.foldl (fun h c => (h ^^^ c.setWidth 32) * 0x01000193) 0x811C9DC5

/-- `while (p < n) p <<= 1`. Once every bit is out, `p` stays 0. -/
def nextPow2Loop (n : SizeT abi) : Nat → SizeT abi → Option (SizeT abi)
  | 0, _ => none
  | fuel + 1, p => if p < n then nextPow2Loop n fuel (p <<< 1) else some p

/-- None where the loop does not end. -/
def nextPow2 (n : SizeT abi) : Option (SizeT abi) :=
  if n < 2 then some 1 else nextPow2Loop n (abi.width + 1) 1

/-- An allocation of `n` bytes beside `held` bytes. -/
def alloc (abi : Abi) (held n : Nat) (granted : Bool) : Bool :=
  granted && decide (held + n < 2 ^ abi.width)

/-- The number of bytes is computed in `size_t`. -/
def allocBuckets (held : Nat) (count : SizeT abi) (granted : Bool) :
    Option (List (List (HtEntry abi))) :=
  let bytes := count * BitVec.ofNat abi.width abi.ptrBytes
  if alloc abi held bytes.toNat granted then
    some (List.replicate (bytes.toNat / abi.ptrBytes) [])
  else none

def HtEntry.bytes (e : HtEntry abi) : Nat := abi.entryBytes + (e.key.length + 1)

/-- `hash & (bucket_count - 1)` -/
def bucketIndex (count : SizeT abi) (hash : BitVec 32) : Nat :=
  (hash.setWidth abi.width &&& (count - 1)).toNat

namespace HashTable

def entries (ht : HashTable abi) : List (HtEntry abi) := ht.buckets.flatten

/-- The bytes of the table's blocks. -/
def held (ht : HashTable abi) : Nat :=
  abi.tableBytes + ht.buckets.length * abi.ptrBytes + (ht.entries.map HtEntry.bytes).sum

end HashTable

/-- Whether the table was resized. -/
def htResize (ht : HashTable abi) (newBucketCount : SizeT abi) (granted : Bool) :
    Option (Bool × HashTable abi) :=
  match allocBuckets ht.held newBucketCount granted with
  | none => some (false, ht)
  | some newBuckets =>
    let relink := pushFront fun e : HtEntry abi => bucketIndex newBucketCount e.hash
    let buckets := (List.range ht.bucketCount.toNat).foldlM
      (fun new i => (ht.buckets[i]?).bind fun chain => chain.foldlM relink new) newBuckets
    buckets.map fun buckets => (true, { ht with buckets := buckets, bucketCount := newBucketCount })

def htNeedsGrow (ht : HashTable abi) : Bool :=
  ht.bucketCount * 3 < (ht.itemCount + 1) * 4

def HtEntry.is (h : BitVec 32) (key : List Byte) (e : HtEntry abi) : Bool := e.hash = h ∧ e.key = key

/-- The chain that a key belongs to. -/
def HashTable.chain (ht : HashTable abi) (h : BitVec 32) : Option (List (HtEntry abi)) :=
  ht.buckets[bucketIndex ht.bucketCount h]?

/-! ## The calls -/

/-- A table or NULL; none where the call does not return. -/
def htCreate (initialBuckets : SizeT abi) (g : Grants) : Option (Option (HashTable abi)) :=
  if alloc abi 0 abi.tableBytes g.table then
    (nextPow2 (if initialBuckets = 0 then htDefaultBuckets else initialBuckets)).map fun n =>
      (allocBuckets abi.tableBytes n g.buckets).map fun buckets => ⟨buckets, n, 0⟩
  else some none

/-- NULL if the key is absent. -/
def htGet (ht : HashTable abi) (key : List Byte) : Option (SizeT abi) :=
  (ht.chain (htHash key)).map fun chain =>
    match chain.find? (HtEntry.is (htHash key) key) with
    | some e => e.value
    | none => 0

/-- The first entry of the key gets the value. -/
def setValue (h : BitVec 32) (key : List Byte) (value : SizeT abi) : List (HtEntry abi) →
    List (HtEntry abi)
  | [] => []
  | e :: rest =>
    if e.is h key then { e with value := value } :: rest else e :: setValue h key value rest

/-- The last part of `ht_set`: a new entry at the head of its chain. -/
def htInsert (ht : HashTable abi) (key : List Byte) (value : SizeT abi) (g : Grants) :
    Option (Bool × HashTable abi) :=
  if alloc abi ht.held abi.entryBytes g.entry then
    if alloc abi (ht.held + abi.entryBytes) (key.length + 1) g.key then
      let e : HtEntry abi := ⟨key, value, htHash key⟩
      (pushFront (fun e => bucketIndex ht.bucketCount e.hash) ht.buckets e).map fun buckets =>
        (true, { ht with buckets := buckets, itemCount := ht.itemCount + 1 })
    else some (false, ht)
  else some (false, ht)

/-- Whether the value was set. -/
def htSet (ht : HashTable abi) (key : List Byte) (value : SizeT abi) (g : Grants) :
    Option (Bool × HashTable abi) :=
  let h := htHash key
  (ht.chain h).bind fun chain =>
    if chain.any (HtEntry.is h key) then
      let b := bucketIndex ht.bucketCount h
      some (true, { ht with buckets := ht.buckets.set b (setValue h key value chain) })
    else if htNeedsGrow ht then
      match htResize ht (ht.bucketCount * 2) g.buckets with
      | none => none
      | some (false, ht) => some (false, ht)
      | some (true, ht) => htInsert ht key value g
    else htInsert ht key value g

/-- Whether the key was present. -/
def htDelete (ht : HashTable abi) (key : List Byte) : Option (Bool × HashTable abi) :=
  let h := htHash key
  (ht.chain h).map fun chain =>
    if chain.any (HtEntry.is h key) then
      let b := bucketIndex ht.bucketCount h
      (true, { ht with
        buckets := ht.buckets.set b (chain.eraseP (HtEntry.is h key))
        itemCount := ht.itemCount - 1 })
    else (false, ht)

def htCount (ht : HashTable abi) : Nat := ht.itemCount.toNat

/-- The values that `ht_destroy` hands to `value_free`. -/
def htDestroy (ht : HashTable abi) : Option (List (SizeT abi)) :=
  (List.range ht.bucketCount.toNat).foldlM
    (fun freed i => (ht.buckets[i]?).bind fun chain => some (freed ++ chain.map HtEntry.value)) []

/-! ## Runs -/

inductive HtCall (abi : Abi) where
  | set (key : List Byte) (value : SizeT abi) (g : Grants)
  | get (key : List Byte)
  | delete (key : List Byte)
  | count

inductive HtAnswer (abi : Abi) where
  | set (ok : Bool)
  | value (v : SizeT abi)
  | removed (was : Bool)
  | count (n : Nat)
  deriving DecidableEq

def htStep (ht : HashTable abi) : HtCall abi → Option (HtAnswer abi × HashTable abi)
  | .set key value g => (htSet ht key value g).map fun r => (.set r.1, r.2)
  | .get key => (htGet ht key).map fun v => (.value v, ht)
  | .delete key => (htDelete ht key).map fun r => (.removed r.1, r.2)
  | .count => some (.count (htCount ht), ht)

def htRun (ht : HashTable abi) : List (HtCall abi) → Option (List (HtAnswer abi) × HashTable abi)
  | [] => some ([], ht)
  | c :: cs =>
    (htStep ht c).bind fun r => (htRun r.2 cs).map fun rest => (r.1 :: rest.1, rest.2)

end Microgarbage.Containers
