import Microgarbage.Memory.SlabClient
import Microgarbage.Vm.AddressSpace

/-!
# The ELF loader

`vm_load` reads a program image that lies in host memory, checks its headers in a first pass, and
in a second one points the regions of a CPU at the segments: at the image itself, or at a block of
the arena with a copy. Fields are read byte by byte, little-endian.

A failed load returns the state it got to: the caller unwinds it.
-/

namespace Microgarbage.Host

open Lib Vm Memory

inductive VmBacking where
  | xip
  | copyRam
  deriving DecidableEq

inductive VmLoadResult where
  | ok
  | errTruncated
  | errBadMagic
  | errNotRv32
  | errNotLittleEndian
  | errBadVersion
  | errNotRiscv
  | errNotExecutable
  | errBadEntry
  | errDynamicForbidden
  | errInterpForbidden
  | errSegOutOfRange
  | errSegRegionMismatch
  | errSegBssInRo
  | errSegTooLarge
  | errUnresolvedRelocs
  | errOutOfRam
  | errDataSizeTooSmall
  | errInvalidArg
  deriving DecidableEq

/-- The arena is part of the state. -/
structure VmLoaderConfig where
  codeBacking : VmBacking
  rodataBacking : VmBacking
  regionDataSize : Word
  sharedBase : Nat
  sharedSize : Word
  l2SharedBase : Nat
  l2SharedSize : Word

/-- The CPU being populated, the arena and host memory. -/
structure LoadState where
  cpu : VmCpu
  slab : SlabAllocator
  mem : Mem

namespace LoadState

def setRegion (s : LoadState) (region : RegionId) (r : VmRegion) : LoadState :=
  { s with cpu := { s.cpu with regions := Function.update s.cpu.regions region r } }

/-- The state with the slab's part of a call's result. -/
def withSlab (s : LoadState) (r : SlabAllocator × Mem) : LoadState :=
  { s with slab := r.1, mem := r.2 }

end LoadState

/-! ## The image -/

section Image

variable (mem : Mem) (elf : Nat)

def eEntry : Word := mem.load32 (elf + 24)
def ePhoff : Word := mem.load32 (elf + 28)
def ePhnum : BitVec 16 := mem.load16 (elf + 44)

end Image

structure Phdr where
  type : Word
  offset : Word
  vaddr : Word
  filesz : Word
  memsz : Word
  flags : Word
  deriving DecidableEq

def ptLoad : Word := 1
def ptDynamic : Word := 2
def ptInterp : Word := 3

def elf32EhdrSize : Nat := 52
def elf32PhdrSize : Nat := 32

/-- Program header `i`. -/
def readPhdr (mem : Mem) (elf : Nat) (phoff : Word) (i : Nat) : Phdr :=
  let ph := elf + phoff.toNat + i * elf32PhdrSize
  { type := mem.load32 ph
    offset := mem.load32 (ph + 4)
    vaddr := mem.load32 (ph + 8)
    filesz := mem.load32 (ph + 16)
    memsz := mem.load32 (ph + 20)
    flags := mem.load32 (ph + 24) }

/-- A header that contributes loadable content. -/
def Phdr.loadable (ph : Phdr) : Bool := ph.type = ptLoad ∧ ¬(ph.filesz = 0 ∧ ph.memsz = 0)

def vaddrToRegion (vaddr : Word) : RegionId := (vaddr >>> 30).setWidth 2

def Phdr.region (ph : Phdr) : RegionId := vaddrToRegion ph.vaddr

/-! ## Validation -/

def checkEhdr (mem : Mem) (elf elfSize : Nat) : VmLoadResult :=
  if elfSize < elf32EhdrSize then .errTruncated
  else if mem elf ≠ 0x7F ∨ mem (elf + 1) ≠ 0x45 ∨ mem (elf + 2) ≠ 0x4C ∨ mem (elf + 3) ≠ 0x46 then
    .errBadMagic
  else if mem (elf + 4) ≠ 1 then .errNotRv32
  else if mem (elf + 5) ≠ 1 then .errNotLittleEndian
  else if mem (elf + 6) ≠ 1 then .errBadVersion
  else if mem.load16 (elf + 18) ≠ 0xF3 then .errNotRiscv
  else if mem.load16 (elf + 16) ≠ 2 then .errNotExecutable
  else if mem.load32 (elf + 20) ≠ 1 then .errBadVersion
  else if (mem.load16 (elf + 42)).toNat ≠ elf32PhdrSize then .errInvalidArg
  else if vaddrToRegion (eEntry mem elf) ≠ regionCode then .errBadEntry
  else if eEntry mem elf &&& 1 ≠ 0 then .errBadEntry
  else if ePhnum mem elf = 0 then .errInvalidArg
  else if elfSize < (ePhoff mem elf).toNat + (ePhnum mem elf).toNat * elf32PhdrSize then
    .errTruncated
  else .ok

def validatePtLoad (vaddr filesz memsz flags : Word) : VmLoadResult :=
  let region := vaddrToRegion vaddr
  let offset := vaddr &&& 0x3FFFFFFF#32
  let isWritable := flags &&& 2 ≠ 0
  if region = regionShared then .errSegOutOfRange
  else if 0x40000000 < memsz ∨ 0x40000000 - memsz < offset then .errSegTooLarge
  else if memsz < filesz then .errSegOutOfRange
  else if region = regionCode ∨ region = regionRodata then
    if isWritable then .errSegRegionMismatch
    else if filesz < memsz then .errSegBssInRo
    else .ok
  else .ok

/-- Pass 1 on one header. -/
def checkPhdr (elfSize : Nat) (ph : Phdr) : VmLoadResult :=
  if ph.type = ptDynamic then .errDynamicForbidden
  else if ph.type = ptInterp then .errInterpForbidden
  else if ph.type ≠ ptLoad then .ok
  else if ph.filesz = 0 ∧ ph.memsz = 0 then .ok
  else if 0 < ph.filesz.toNat ∧ elfSize < ph.offset.toNat + ph.filesz.toNat then .errTruncated
  else validatePtLoad ph.vaddr ph.filesz ph.memsz ph.flags

def checkPhdrs (elfSize : Nat) : List Phdr → VmLoadResult
  | [] => .ok
  | ph :: phs => if checkPhdr elfSize ph = .ok then checkPhdrs elfSize phs else checkPhdr elfSize ph

/-- The program headers, before the loader has written anything. -/
def phdrs (mem : Mem) (elf : Nat) : List Phdr :=
  (List.range (ePhnum mem elf).toNat).map (readPhdr mem elf (ePhoff mem elf))

/-! ## Applying a segment -/

/-- Allocate `n` bytes, fill the block and make it the region. -/
def backRegion (s : LoadState) (region : RegionId) (n : Word) (writable : Bool)
    (fill : Mem → Nat → Mem) : VmLoadResult × LoadState :=
  let r := slabAlloc s.slab s.mem (n.setWidth 64)
  let s := s.withSlab r.2
  if r.1 = 0 then (.errOutOfRam, s)
  else (.ok, { s with mem := fill s.mem r.1 }.setRegion region ⟨r.1, n, writable⟩)

/-- The file's bytes, then zeroes up to `memsz`. -/
def fillSegment (src filesz memsz : Nat) (mem : Mem) (dst : Nat) : Mem :=
  (mem.copy dst (mem.bytes src filesz)).overlay (dst + filesz) (memsz - filesz) fun _ => 0

def VmLoaderConfig.backing (cfg : VmLoaderConfig) (region : RegionId) : VmBacking :=
  if region = regionCode then cfg.codeBacking else cfg.rodataBacking

def applyPtLoad (cfg : VmLoaderConfig) (elf : Nat) (ph : Phdr) (s : LoadState) :
    VmLoadResult × LoadState :=
  let region := ph.region
  let src := elf + ph.offset.toNat
  if region = regionCode ∨ region = regionRodata then
    match cfg.backing region with
    | .xip =>
      if region = regionCode ∧ src % 2 ≠ 0 then (.errInvalidArg, s)
      else (.ok, s.setRegion region ⟨src, ph.filesz, false⟩)
    | .copyRam =>
      backRegion s region ph.filesz false (fillSegment src ph.filesz.toNat ph.filesz.toNat)
  else if cfg.regionDataSize < ph.memsz then (.errDataSizeTooSmall, s)
  else
    backRegion s region cfg.regionDataSize true (fillSegment src ph.filesz.toNat ph.memsz.toNat)

/-- Pass 2: the headers are read again, from the memory as it now is. -/
def applyPhdrs (cfg : VmLoaderConfig) (elf : Nat) (phoff : Word) :
    List Nat → LoadState → VmLoadResult × LoadState
  | [], s => (.ok, s)
  | i :: is, s =>
    let ph := readPhdr s.mem elf phoff i
    if ph.loadable then
      let r := applyPtLoad cfg elf ph s
      if r.1 = .ok then applyPhdrs cfg elf phoff is r.2 else r
    else applyPhdrs cfg elf phoff is s

/-! ## The entry point -/

/-- The data region of an image that has no segment for it. -/
def ensureData (cfg : VmLoaderConfig) (s : LoadState) : VmLoadResult × LoadState :=
  if (s.cpu.regions regionData).length = 0 then
    backRegion s regionData cfg.regionDataSize true fun mem dst =>
      mem.overlay dst cfg.regionDataSize.toNat fun _ => 0
  else (.ok, s)

/-- The shared regions, `pc` and `sp`. -/
def finishLoad (cfg : VmLoaderConfig) (entry : Word) (cpu : VmCpu) : VmCpu :=
  let shared : VmRegion := ⟨cfg.sharedBase, cfg.sharedSize, cfg.sharedBase ≠ 0⟩
  let spTop := 0x80000000 + cfg.regionDataSize
  { cpu with
    regions := Function.update cpu.regions regionShared shared
    l2Shared := ⟨cfg.l2SharedBase, cfg.l2SharedSize, cfg.l2SharedBase ≠ 0⟩
    pc := entry
    regs := Function.update cpu.regs regSp (spTop &&& ~~~7) }

def vmLoad (cfg : VmLoaderConfig) (elf elfSize : Nat) (s : LoadState) : VmLoadResult × LoadState :=
  if elf = 0 ∨ cfg.regionDataSize = 0 then (.errInvalidArg, s)
  else if checkEhdr s.mem elf elfSize ≠ .ok then (checkEhdr s.mem elf elfSize, s)
  else if checkPhdrs elfSize (phdrs s.mem elf) ≠ .ok then
    (checkPhdrs elfSize (phdrs s.mem elf), s)
  else
    let entry := eEntry s.mem elf
    let r := applyPhdrs cfg elf (ePhoff s.mem elf) (List.range (ePhnum s.mem elf).toNat) s
    if r.1 ≠ .ok then r
    else
      let r := ensureData cfg r.2
      if r.1 ≠ .ok then r
      else (.ok, { r.2 with cpu := finishLoad cfg entry r.2.cpu })

end Microgarbage.Host
