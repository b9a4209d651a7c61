import Microgarbage.Storage.Blocks

/-!
# Open files

Reading, writing and seeking through a handle, which caches the inode number and the size. The loops
move at least one byte in each pass, so as many passes as bytes are enough.
-/

namespace Microgarbage.Storage

open Lib

structure TrashfsFile where
  inode : Nat
  size : Nat
  pos : Nat
  isDir : Bool
  isOpen : Bool
  deriving DecidableEq

/-- The bytes of a logical block from `boff` on; a hole reads as zeroes. -/
def blockChunk (v : TrashfsVolume) (blk boff chunk : Nat) : List Byte :=
  if blk = trashfsBlockNone then List.replicate chunk 0
  else v.region.bytes (blockPtr blk + boff) chunk

/-- The loop of `trashfs_read`, `want` bytes before its end. -/
def readLoop (v : TrashfsVolume) (inode : Nat) : Nat → TrashfsFile → Nat → List Byte × TrashfsFile
  | 0, f, _ => ([], f)
  | fuel + 1, f, want =>
    if 0 < want ∧ f.pos < f.size then
      let lbn := f.pos / trashfsBlockSize
      let boff := f.pos % trashfsBlockSize
      let avail := trashfsBlockSize - boff
      let chunk := min (min avail want) (f.size - f.pos)
      let (bytes, f') := readLoop v inode fuel { f with pos := f.pos + chunk } (want - chunk)
      (blockChunk v (v.mapLbn inode lbn) boff chunk ++ bytes, f')
    else ([], f)

def trashfsRead (v : TrashfsVolume) (f : TrashfsFile) (n : Nat) :
    TrashfsResult × List Byte × TrashfsFile :=
  if f.isOpen then
    let (bytes, f) := readLoop v (v.inodePtr f.inode) n f n
    (.ok, bytes, f)
  else (.errInvalidArg, [], f)

inductive Whence where
  | set
  | cur
  | end
  deriving DecidableEq

/-- `trashfs_lseek` -/
def trashfsLseek (f : TrashfsFile) (off : Int) (whence : Whence) : TrashfsResult × TrashfsFile :=
  if f.isOpen then
    let base : Int := match whence with
      | .set => 0
      | .cur => f.pos
      | .end => f.size
    let np := base + off
    if np < 0 then (.errInvalidArg, f)
    else if 0xFFFFFFFF < np then (.errInvalidArg, f)
    else (.ok, { f with pos := np.toNat })
  else (.errInvalidArg, f)

def trashfsClose (f : TrashfsFile) : TrashfsFile := { f with isOpen := false }

/-- The loop of `trashfs_write` on the bytes still to be written; it ends early when no block is
left. The count is of the bytes written. -/
def writeLoop (inode : Nat) : Nat → TrashfsVolume → TrashfsFile → List Byte →
    Nat × TrashfsVolume × TrashfsFile
  | 0, v, f, _ => (0, v, f)
  | fuel + 1, v, f, src =>
    if src = [] then (0, v, f)
    else
      let lbn := f.pos / trashfsBlockSize
      let boff := f.pos % trashfsBlockSize
      let room := trashfsBlockSize - boff
      let chunk := min src.length room
      let (blk, v) := v.bmapAlloc inode lbn
      if blk = trashfsBlockNone then (0, v, f)
      else
        let v := { v with region := v.region.copy (blockPtr blk + boff) (src.take chunk) }
        let pos := f.pos + chunk
        let f := { f with pos := pos, size := max f.size pos }
        let (done, v, f) := writeLoop inode fuel v f (src.drop chunk)
        (chunk + done, v, f)

/-- The result, the bytes written, the handle and the volume. -/
def trashfsWrite (v : TrashfsVolume) (f : TrashfsFile) (src : List Byte) (now : BitVec 32) :
    TrashfsResult × Nat × TrashfsFile × TrashfsVolume :=
  if ¬f.isOpen then (.errInvalidArg, 0, f, v)
  else if f.isDir then (.errInvalidArg, 0, f, v)
  else
    let inode := v.inodePtr f.inode
    let (done, v, f) := writeLoop inode src.length v f src
    let v := { v with
      region := wr32 (wr32 v.region (inode + 4) (BitVec.ofNat 32 f.size)) (inode + 12) now }
    (if done = 0 ∧ src ≠ [] then .errNoSpace else .ok, done, f, v)

end Microgarbage.Storage
