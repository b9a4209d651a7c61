import Microgarbage.Storage.Files

/-!
# Directories

A directory is a file of 48-byte entries, none across the end of a block. Here are the scans over
its slots, the resolution of paths, and the calls that make and remove names.
-/

namespace Microgarbage.Storage

open Lib

def trashfsTypeFile : Byte := 0
def trashfsTypeDir : Byte := 1

/-! ## Slots -/

/-- The next offset at which an entry does not straddle the end of a block. -/
def direntAlign (off : Nat) : Nat :=
  let pos := off % trashfsBlockSize
  if trashfsBlockSize < pos + trashfsDirentSize then off + (trashfsBlockSize - pos) else off

/-- The offsets that every scan of a directory of `dsize` bytes visits from `off` on. -/
def direntOffsets (dsize : Nat) : Nat → Nat → List Nat
  | 0, _ => []
  | fuel + 1, off =>
    if off + trashfsDirentSize ≤ dsize then
      let off := direntAlign off
      if dsize < off + trashfsDirentSize then []
      else off :: direntOffsets dsize fuel (off + trashfsDirentSize)
    else []

namespace TrashfsVolume

def dirSize (v : TrashfsVolume) (ino : Nat) : Nat := (rd32 v.region (v.inodePtr ino + 4)).toNat

/-- The address of the slot at `off`, unless its block is missing. -/
def direntPtr (v : TrashfsVolume) (ino off : Nat) : Option Nat :=
  let blk := v.mapLbn (v.inodePtr ino) (off / trashfsBlockSize)
  if blk = trashfsBlockNone then none else some (blockPtr blk + off % trashfsBlockSize)

/-- The addresses of the slots of a directory, in the order of a scan. -/
def direntPtrs (v : TrashfsVolume) (ino : Nat) : List Nat :=
  (direntOffsets (v.dirSize ino) (v.dirSize ino) 0).filterMap (v.direntPtr ino)

def direntInode (m : Mem) (e : Nat) : Nat := (rd32 m e).toNat

def direntNamed (m : Mem) (e : Nat) (name : List Byte) : Bool :=
  direntInode m e != 0 && (m (e + 5)).toNat == name.length && m.bytes (e + 6) name.length == name

/-- `dir_find_in`: the inode and the type of the entry. -/
def dirFindIn (v : TrashfsVolume) (dirIno : Nat) (name : List Byte) : Option (Nat × Byte) :=
  ((v.direntPtrs dirIno).find? fun e => direntNamed v.region e name).map fun e =>
    (direntInode v.region e, v.region (e + 4))

def dirIsEmpty (v : TrashfsVolume) (dirIno : Nat) : Bool :=
  (v.direntPtrs dirIno).all fun e => direntInode v.region e == 0

/-- `dir_clear_entry_in`: `none` when there is no such entry. -/
def dirClearEntryIn (v : TrashfsVolume) (dirIno : Nat) (name : List Byte) : Option TrashfsVolume :=
  ((v.direntPtrs dirIno).find? fun e => direntNamed v.region e name).map fun e =>
    { v with region := memset0 v.region e trashfsDirentSize }

/-- `dir_alloc_dirent_in`: a freed slot, or a new one at the end; `none` when no block is left. -/
def dirAllocDirentIn (v : TrashfsVolume) (dirIno : Nat) : Option Nat × TrashfsVolume :=
  match (v.direntPtrs dirIno).find? fun e => direntInode v.region e == 0 with
  | some e => (some e, v)
  | none =>
    let inode := v.inodePtr dirIno
    let off := direntAlign (v.dirSize dirIno)
    let (blk, v) := v.bmapAlloc inode (off / trashfsBlockSize)
    if blk = trashfsBlockNone then (none, v)
    else
      (some (blockPtr blk + off % trashfsBlockSize), { v with
        region := wr32 v.region (inode + 4) (BitVec.ofNat 32 (off + trashfsDirentSize)) })

end TrashfsVolume

/-! ## Paths -/

def trashfsMaxPathComps : Nat := 40
def trashfsPathDepth : Nat := 40

def slash : Byte := 47
def dot : Byte := 46

/-- The components of a path. -/
def components (path : List Byte) : List (List Byte) :=
  (path.splitOnP (· == slash)).filter (· ≠ [])

/-- `path_tokenize` reads components until one is too long or one too many. -/
def pathTokenize (path : List Byte) : Except TrashfsResult (List (List Byte)) :=
  if (components path).any (fun c => trashfsNameMax < c.length) ∨
      trashfsMaxPathComps < (components path).length then
    .error .errInvalidArg
  else .ok (components path)

namespace TrashfsVolume

/-- The loop of `path_step`: the directories above the current node, innermost first, and the
current node. -/
def stepPath (v : TrashfsVolume) (allowLastNondir : Bool) :
    List Nat → Nat → Byte → List (List Byte) → Except TrashfsResult (Nat × Byte)
  | _, cur, type, [] => .ok (cur, type)
  | stack, cur, type, name :: rest =>
    if name = [dot] then stepPath v allowLastNondir stack cur type rest
    else if name = [dot, dot] then
      -- clamped at the root
      let stack := if stack.tail = [] then stack else stack.tail
      stepPath v allowLastNondir stack (stack.headD trashfsRootInode) trashfsTypeDir rest
    else
      match v.dirFindIn cur name with
      | none => .error .errNotFound
      | some (ino, type) =>
        if rest ≠ [] ∨ !allowLastNondir then
          if type ≠ trashfsTypeDir then .error .errNotDir
          else if trashfsPathDepth ≤ stack.length then .error .errInvalidArg
          else stepPath v allowLastNondir (ino :: stack) ino type rest
        else stepPath v allowLastNondir stack ino type rest

def pathStep (v : TrashfsVolume) (allowLastNondir : Bool) (names : List (List Byte)) :
    Except TrashfsResult (Nat × Byte) :=
  v.stepPath allowLastNondir [trashfsRootInode] trashfsRootInode trashfsTypeDir names

/-- `resolve_full` -/
def resolveFull (v : TrashfsVolume) (path : List Byte) : Except TrashfsResult (Nat × Byte) :=
  match pathTokenize path with
  | .error e => .error e
  | .ok names => v.pathStep true names

/-- `resolve_parent`: the directory of the last component, and that component. -/
def resolveParent (v : TrashfsVolume) (path : List Byte) :
    Except TrashfsResult (Nat × List Byte) :=
  match pathTokenize path with
  | .error e => .error e
  | .ok names =>
    match names.getLast? with
    | none => .error .errInvalidArg
    | some leaf =>
      if leaf = [dot] ∨ leaf = [dot, dot] then .error .errInvalidArg
      else
        match v.pathStep false names.dropLast with
        | .error e => .error e
        | .ok (parent, _) => .ok (parent, leaf)

/-! ## Names -/

/-- Fill the inode of a new file or directory. -/
def initInode (v : TrashfsVolume) (ino : Nat) (mode : BitVec 16) (now : BitVec 32) :
    TrashfsVolume :=
  let inode := v.inodePtr ino
  let m := memset0 v.region inode trashfsInodeSize
  let m := wr16 m (inode + 0) mode
  let m := wr16 m (inode + 2) 1
  let m := wr32 m (inode + 8) now
  { v with region := wr32 m (inode + 12) now }

/-- Fill a directory slot, padding included. -/
def fillDirent (v : TrashfsVolume) (slot ino : Nat) (type : Byte) (name : List Byte) :
    TrashfsVolume :=
  let m := wr32 v.region (slot + 0) (BitVec.ofNat 32 ino)
  let m := Mem.copy m (slot + 4) [type]
  let m := Mem.copy m (slot + 5) [BitVec.ofNat 8 name.length]
  let m := Mem.copy m (slot + 6) name
  { v with
    region := memset0 m (slot + 6 + name.length) (trashfsDirentSize - 6 - name.length) }

/-- What `trashfs_open` and `trashfs_mkdir` do for a new name; on a missing slot only the count of
inodes is taken back. -/
def createIn (v : TrashfsVolume) (parent : Nat) (name : List Byte) (mode : BitVec 16) (type : Byte)
    (now : BitVec 32) : TrashfsResult × Nat × TrashfsVolume :=
  match v.allocInode with
  | none => (.errNoSpace, 0, v)
  | some (newino, v) =>
    match v.dirAllocDirentIn parent with
    | (none, v) => (.errNoSpace, 0, { v with freeInodes := v.freeInodes + 1 })
    | (some slot, v) =>
      let v := v.initInode newino mode now
      (.ok, newino, v.fillDirent slot newino type name)

end TrashfsVolume

structure OpenFlags where
  creat : Bool
  trunc : Bool
  append : Bool
  deriving DecidableEq

/-- The end of `trashfs_open`: the handle, after the truncation. -/
def openInode (v : TrashfsVolume) (ino : Nat) (type : Byte) (flags : OpenFlags) :
    TrashfsFile × TrashfsVolume :=
  let isDir : Bool := type = trashfsTypeDir
  if flags.trunc ∧ ¬isDir then
    let v := v.freeAllBlocks (v.inodePtr ino)
    ({ inode := ino, size := 0, pos := 0, isDir := isDir, isOpen := true },
      { v with region := wr32 v.region (v.inodePtr ino + 4) 0 })
  else
    let size := v.dirSize ino
    ({ inode := ino, size := size, pos := if flags.append then size else 0, isDir := isDir,
        isOpen := true }, v)

def trashfsOpen (v : TrashfsVolume) (path : List Byte) (flags : OpenFlags) :
    Except TrashfsResult TrashfsFile × TrashfsVolume :=
  match v.resolveParent path with
  | .error e => (.error e, v)
  | .ok (parent, name) =>
    match v.dirFindIn parent name with
    | some (ino, type) =>
      let (f, v) := openInode v ino type flags
      (.ok f, v)
    | none =>
      if !flags.creat then (.error .errNotFound, v)
      else
        match v.createIn parent name trashfsModeUsed trashfsTypeFile 0 with
        | (.ok, ino, v) =>
          let (f, v) := openInode v ino trashfsTypeFile flags
          (.ok f, v)
        | (e, _, v) => (.error e, v)

/-- Free an inode with its blocks. -/
def releaseInode (v : TrashfsVolume) (ino : Nat) : TrashfsVolume :=
  let v := v.freeAllBlocks (v.inodePtr ino)
  { v with
    region := memset0 v.region (v.inodePtr ino) trashfsInodeSize
    freeInodes := v.freeInodes + 1 }

def trashfsUnlink (v : TrashfsVolume) (path : List Byte) : TrashfsResult × TrashfsVolume :=
  match v.resolveParent path with
  | .error e => (e, v)
  | .ok (parent, name) =>
    match v.dirFindIn parent name with
    | none => (.errNotFound, v)
    | some (ino, type) =>
      if type = trashfsTypeDir then (.errNotDir, v)
      else (.ok, releaseInode ((v.dirClearEntryIn parent name).getD v) ino)

def trashfsMkdir (v : TrashfsVolume) (path : List Byte) (now : BitVec 32) :
    TrashfsResult × TrashfsVolume :=
  match v.resolveParent path with
  | .error e => (e, v)
  | .ok (parent, name) =>
    match v.dirFindIn parent name with
    | some _ => (.errExists, v)
    | none =>
      let (r, _, v) :=
        v.createIn parent name (trashfsModeUsed ||| trashfsModeDir) trashfsTypeDir now
      (r, v)

def trashfsRmdir (v : TrashfsVolume) (path : List Byte) : TrashfsResult × TrashfsVolume :=
  match v.resolveFull path with
  | .error e => (e, v)
  | .ok (ino, type) =>
    if type ≠ trashfsTypeDir then (.errNotDir, v)
    else if ino = trashfsRootInode then (.errInvalidArg, v)
    else if !v.dirIsEmpty ino then (.errNotEmpty, v)
    else
      match v.resolveParent path with
      | .error e => (e, v)
      | .ok (parent, name) =>
        match v.dirClearEntryIn parent name with
        | none => (.errNotFound, v)
        | some v => (.ok, releaseInode v ino)

/-! ## Reading a directory -/

structure TrashfsDir where
  inode : Nat
  size : Nat
  pos : Nat
  isOpen : Bool
  deriving DecidableEq

structure TrashfsDirentOut where
  name : List Byte
  type : Byte
  inode : Nat
  size : Nat
  deriving DecidableEq

def trashfsOpendir (v : TrashfsVolume) (path : List Byte) : Except TrashfsResult TrashfsDir :=
  match v.resolveFull path with
  | .error e => .error e
  | .ok (ino, type) =>
    if type ≠ trashfsTypeDir then .error .errNotDir
    else .ok { inode := ino, size := v.dirSize ino, pos := 0, isOpen := true }

/-- The entry in a slot. -/
def readDirent (v : TrashfsVolume) (e : Nat) : TrashfsDirentOut :=
  let elen := min (v.region (e + 5)).toNat trashfsNameMax
  { name := v.region.bytes (e + 6) elen
    type := v.region (e + 4)
    inode := TrashfsVolume.direntInode v.region e
    size := v.dirSize (TrashfsVolume.direntInode v.region e) }

/-- The loop of `trashfs_readdir`; each pass is over one slot. -/
def readdirLoop (v : TrashfsVolume) : Nat → TrashfsDir → Option TrashfsDirentOut × TrashfsDir
  | 0, d => (none, d)
  | fuel + 1, d =>
    if d.pos + trashfsDirentSize ≤ d.size then
      let off := direntAlign d.pos
      if d.size < off + trashfsDirentSize then (none, { d with pos := off })
      else
        let d := { d with pos := off + trashfsDirentSize }
        match v.direntPtr d.inode off with
        | none => readdirLoop v fuel d
        | some e =>
          if TrashfsVolume.direntInode v.region e = 0 then readdirLoop v fuel d
          else (some (readDirent v e), d)
    else (none, d)

/-- The next entry, `none` at the end. -/
def trashfsReaddir (v : TrashfsVolume) (d : TrashfsDir) :
    TrashfsResult × Option TrashfsDirentOut × TrashfsDir :=
  if d.isOpen then
    let (ent, d) := readdirLoop v (d.size + 1) d
    (.ok, ent, d)
  else (.errInvalidArg, none, d)

end Microgarbage.Storage
