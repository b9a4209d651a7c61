import Microgarbage.Mgapi.L2Run
import Microgarbage.Vm.Core

/-!
# The L2 free ecall

`SYS_L2_FREE` turns a guest address into a host pointer and gives it to `l2_free`, whose only test
is one bit of the header in front of it. Headers, payloads and the handle of the heap itself are in
the memory that the address may name, so here `l2_free` reads and writes its handle there too.
-/

namespace Microgarbage.Mgapi

open Lib Vm

/-! ## Where the handle is kept -/

/-- How the handle of a heap is read and written. -/
structure Handle (σ : Type) where
  mem : σ → Mem
  setMem : σ → Mem → σ
  regionEnd : σ → Nat
  freeHead : σ → Nat
  setFreeHead : σ → Nat → σ
  allocCount : σ → BitVec 32
  setAllocCount : σ → BitVec 32 → σ
  freeBlockCount : σ → BitVec 32
  setFreeBlockCount : σ → BitVec 32 → σ

namespace Handle

section Free

variable {σ : Type} (k : Handle σ) (s : σ) (b : Nat)

def setField (f : Field) (v : BitVec 32) : σ := k.setMem s (Mgapi.setField (k.mem s) b f v)

def setLink (l : Link) (p : Nat) : σ := k.setMem s (Mgapi.setLink (k.mem s) b l p)

def flPush : σ :=
  let s := k.setLink s b .prev 0
  let s := k.setLink s b .next (k.freeHead s)
  let s := if k.freeHead s ≠ 0 then k.setLink s (k.freeHead s) .prev b else s
  let s := k.setFreeHead s b
  k.setFreeBlockCount s (k.freeBlockCount s + 1)

def flRemove : σ :=
  let prev := link (k.mem s) b .prev
  let s := if prev ≠ 0 then k.setLink s prev .next (link (k.mem s) b .next)
    else k.setFreeHead s (link (k.mem s) b .next)
  let next := link (k.mem s) b .next
  let s := if next ≠ 0 then k.setLink s next .prev (link (k.mem s) b .prev) else s
  k.setFreeBlockCount s (k.freeBlockCount s - 1)

def nextBlock : Option Nat :=
  let n := b + (field (k.mem s) b .size).toNat
  if k.regionEnd s ≤ n then none else some n

/-- `b` takes in the block `c` that follows it. -/
def absorb (c : Nat) : σ :=
  let s := k.setField s b .size (field (k.mem s) b .size + field (k.mem s) c .size)
  match k.nextBlock s b with
  | some after => k.setField s after .prevSize (field (k.mem s) b .size)
  | none => s

def coalescePrev : σ × Nat :=
  match prevBlock (k.mem s) b with
  | none => (s, b)
  | some prev =>
    if isFree (k.mem s) prev then (k.absorb (k.flRemove s prev) prev b, prev) else (s, b)

def coalesceNext : σ :=
  match k.nextBlock s b with
  | none => s
  | some next => if isFree (k.mem s) next then k.absorb (k.flRemove s next) b next else s

/-- The block is no longer in use. -/
def clear : σ :=
  let s := k.setField s b .flags (field (k.mem s) b .flags &&& ~~~l2FlagInUse)
  k.setAllocCount s (k.allocCount s - 1)

def l2Free (p : Nat) : σ :=
  if p = 0 then s
  else
    let b := payloadBlock p
    if isFree (k.mem s) b then s
    else
      let (s, b) := k.coalescePrev (k.clear s b) b
      k.flPush (k.coalesceNext s b) b

end Free

/-- The handle is a record beside the memory. -/
def record : Handle (L2Alloc × Mem) where
  mem s := s.2
  setMem s mem := (s.1, mem)
  regionEnd s := s.1.regionEnd
  freeHead s := s.1.freeHead
  setFreeHead s p := ({ s.1 with freeHead := p }, s.2)
  allocCount s := s.1.allocCount
  setAllocCount s n := ({ s.1 with allocCount := n }, s.2)
  freeBlockCount s := s.1.freeBlockCount
  setFreeBlockCount s n := ({ s.1 with freeBlockCount := n }, s.2)

section Record

variable (a : L2Alloc) (mem : Mem) (b : Nat)

theorem record_flPush : record.flPush (a, mem) b = Mgapi.flPush a mem b := by
  unfold flPush Mgapi.flPush
  dsimp only [record, setLink]
  by_cases hhead : a.freeHead = 0
  · simp [hhead]
  · simp [hhead]

theorem record_flRemove : record.flRemove (a, mem) b = Mgapi.flRemove a mem b := by
  unfold flRemove Mgapi.flRemove
  dsimp only [record, setLink]
  by_cases hprev : link mem b .prev = 0
  · simp only [hprev, ne_eq, not_true_eq_false, if_false]
    split <;> rfl
  · simp only [hprev, ne_eq, not_false_eq_true, if_true]
    split <;> rfl

@[simp] theorem record_mem : record.mem (a, mem) = mem := rfl

@[simp] theorem record_nextBlock : record.nextBlock (a, mem) b = Mgapi.nextBlock a mem b := rfl

theorem record_absorb (c : Nat) : record.absorb (a, mem) b c =
    (a, setAfter a (Mgapi.setField mem b .size (field mem b .size + field mem c .size)) b
      (field (Mgapi.setField mem b .size (field mem b .size + field mem c .size)) b .size)) := by
  have hset (mem : Mem) (b : Nat) (f : Field) (v : BitVec 32) :
      record.setField (a, mem) b f v = (a, Mgapi.setField mem b f v) := rfl
  unfold absorb setAfter
  dsimp only [record_mem]
  rw [hset, record_nextBlock]
  generalize Mgapi.setField mem b .size _ = mem
  cases Mgapi.nextBlock a mem b <;> rfl

/-- The code is the same where the record is kept apart. -/
theorem record_l2Free (p : Nat) : record.l2Free (a, mem) p = Mgapi.l2Free a mem p := by
  have hprev (a : L2Alloc) (mem : Mem) (b : Nat) : record.coalescePrev (a, mem) b =
      (((Mgapi.coalescePrev a mem b).1, (Mgapi.coalescePrev a mem b).2.1),
        (Mgapi.coalescePrev a mem b).2.2) := by
    unfold coalescePrev Mgapi.coalescePrev
    rw [record_mem]
    cases prevBlock mem b with
    | none => rfl
    | some prev =>
      by_cases hfree : isFree mem prev = true
      · simp only [hfree, if_true, record_flRemove]
        exact congrArg (·, prev) (record_absorb ..)
      · simp only [hfree]
        rfl
  have hnext (a : L2Alloc) (mem : Mem) (b : Nat) : record.coalesceNext (a, mem) b =
      Mgapi.coalesceNext a mem b := by
    unfold coalesceNext Mgapi.coalesceNext
    rw [record_nextBlock]
    cases Mgapi.nextBlock a mem b with
    | none => rfl
    | some next =>
      by_cases hfree : isFree mem next = true
      · simp only [record_mem, hfree, if_true, record_flRemove]
        exact record_absorb ..
      · simp only [record_mem, hfree]
        rfl
  have hclear : record.clear (a, mem) (payloadBlock p) =
      ({ a with allocCount := a.allocCount - 1 }, Mgapi.setField mem (payloadBlock p) .flags
        (field mem (payloadBlock p) .flags &&& ~~~l2FlagInUse)) := rfl
  unfold l2Free Mgapi.l2Free
  by_cases hp : p = 0
  · rw [if_pos hp, if_pos hp]
  · rw [if_neg hp, if_neg hp]
    by_cases hfree : isFree mem (payloadBlock p) = true
    · simp only [record_mem, hfree, if_true]
    · simp only [record_mem, hfree, hclear, hprev, hnext]
      exact record_flPush ..

end Record

/-- The handle is at the address `h` of the memory. -/
def inMemory (h : Nat) : Handle Mem where
  mem mem := mem
  setMem _ mem := mem
  regionEnd mem := (mem.load64 (h + 8)).toNat
  freeHead mem := (mem.load64 (h + 16)).toNat
  setFreeHead mem p := mem.store (h + 16) 8 (BitVec.ofNat 64 p)
  allocCount mem := mem.load32 (h + 24)
  setAllocCount mem n := mem.store (h + 24) 4 n
  freeBlockCount mem := mem.load32 (h + 28)
  setFreeBlockCount mem n := mem.store (h + 28) 4 n

/-- The handle that is at the address `h`. -/
def loaded (mem : Mem) (h : Nat) : L2Alloc :=
  ⟨(mem.load64 h).toNat, (inMemory h).regionEnd mem, (inMemory h).freeHead mem,
    (inMemory h).allocCount mem, (inMemory h).freeBlockCount mem⟩

variable {h b : Nat}

/-- Whatever overlaps whatever, the block that is pushed is the head of the free list. -/
theorem freeHead_flPush (hb : b < 2 ^ 64) (mem : Mem) :
    (inMemory h).freeHead ((inMemory h).flPush mem b) = b := by
  unfold flPush
  dsimp only [inMemory]
  rw [Mem.load64_store_out (.inl (by omega)), Mem.load64_store, BitVec.toNat_ofNat,
    Nat.mod_eq_of_lt hb]

theorem coalescePrev_snd {σ : Type} (k : Handle σ) (s : σ) (b : Nat) :
    (k.coalescePrev s b).2 = b ∨ prevBlock (k.mem s) b = some (k.coalescePrev s b).2 := by
  unfold coalescePrev
  split
  · exact .inl rfl
  · rename_i prev hprev
    split
    · exact .inr hprev
    · exact .inl rfl

theorem l2Free_clear {σ : Type} {k : Handle σ} {s : σ} {p : Nat}
    (hclear : isFree (k.mem s) (payloadBlock p) = true) : k.l2Free s p = s := by
  unfold l2Free
  dsimp only
  rw [if_pos hclear, ite_self]

/-- A block that is not free by its bit is freed, alone or with the one that its header names. -/
theorem freeHead_l2Free {p : Nat} (hp : p ≠ 0) (hlt : payloadBlock p < 2 ^ 64) {mem : Mem}
    (hbusy : isFree mem (payloadBlock p) = false) :
    (inMemory h).freeHead ((inMemory h).l2Free mem p) = payloadBlock p ∨
      prevBlock ((inMemory h).clear mem (payloadBlock p)) (payloadBlock p) =
        some ((inMemory h).freeHead ((inMemory h).l2Free mem p)) := by
  have hcases := coalescePrev_snd (inMemory h) ((inMemory h).clear mem (payloadBlock p))
    (payloadBlock p)
  have hfree : (inMemory h).mem mem = mem := rfl
  have hlt' : ((inMemory h).coalescePrev ((inMemory h).clear mem (payloadBlock p))
      (payloadBlock p)).2 < 2 ^ 64 := by
    rcases hcases with he | he
    · rwa [he]
    · unfold prevBlock at he
      split at he
      · cases he
      · rw [← Option.some.inj he]
        omega
  unfold l2Free
  simp only [hp, if_false, hfree, hbusy, Bool.false_eq_true, freeHead_flPush hlt']
  exact hcases

end Handle

/-! ## The ecall -/

def l2VaBase : Word := 0xE0000000

/-- The region that guests see, with the handle at its front, and the calling guest. -/
structure L2Host where
  mem : Mem
  l2Base : Nat
  l2Size : Nat
  cpu : VmCpu
  /-- An address of the host has 64 bits. -/
  fits : l2Base + l2Size ≤ 2 ^ 64

def L2Host.heap (s : L2Host) : L2Alloc := Handle.loaded s.mem s.l2Base

def vaToHost (s : L2Host) (va : Word) : Option Nat :=
  if s.l2Base = 0 then none
  else if va &&& 0xE0000000#32 ≠ l2VaBase then none
  else
    let off := (va &&& 0x1FFFFFFF#32).toNat
    if s.l2Size ≤ off then none else some (s.l2Base + off)

def hL2Free (s : L2Host) : L2Host :=
  let va := s.cpu.regs regA0
  let mem :=
    if va = 0 then s.mem
    else
      match vaToHost s va with
      | none => s.mem
      | some p => (Handle.inMemory s.l2Base).l2Free s.mem p
  { s with mem := mem, cpu := s.cpu.setReg regA0 0 }

/-- The bit that makes `l2_free` take the sixteen bytes below an address for the header of a block
in use. -/
def LooksLive (s : L2Host) (va : Word) : Prop :=
  ∃ p, vaToHost s va = some p ∧ isFree s.mem (payloadBlock p) = false

section Ecall

variable {s : L2Host}

theorem vaToHost_bounds {va : Word} {p : Nat} (h : vaToHost s va = some p) :
    0 < p ∧ p < 2 ^ 64 ∧ va ≠ 0 := by
  have hfits := s.fits
  unfold vaToHost at h
  split at h
  · cases h
  next hbase =>
  split at h
  · cases h
  next hrange =>
  dsimp only at h
  split at h
  · cases h
  · cases h
    refine ⟨by omega, by omega, ?_⟩
    rintro rfl
    exact hrange (by decide)

theorem hL2Free_mem (s : L2Host) : (hL2Free s).mem =
    match vaToHost s (s.cpu.regs regA0) with
    | none => s.mem
    | some p => (Handle.inMemory s.l2Base).l2Free s.mem p := by
  unfold hL2Free
  dsimp only
  cases hva : vaToHost s (s.cpu.regs regA0) with
  | none => simp
  | some p => rw [if_neg (vaToHost_bounds hva).2.2]

/-- The ecall returns 0 whatever the guest passes. Nothing changes where the value is no address of
the region or the bit below it is clear; where the bit is set, that block is freed, alone or with
the one before it. In a heap in order the bit is clear at every free block and set at every
allocation. -/
theorem hL2Free_guarded (s : L2Host) :
    (hL2Free s).cpu.regs regA0 = 0 ∧
    (¬LooksLive s (s.cpu.regs regA0) → (hL2Free s).mem = s.mem) ∧
    (∀ p, vaToHost s (s.cpu.regs regA0) = some p → LooksLive s (s.cpu.regs regA0) →
      (hL2Free s).heap.freeHead = payloadBlock p ∨
        prevBlock ((Handle.inMemory s.l2Base).clear s.mem (payloadBlock p)) (payloadBlock p) =
          some (hL2Free s).heap.freeHead) ∧
    ∀ cs free live, InOrder s.heap s.mem cs free live → ∀ p,
      vaToHost s (s.cpu.regs regA0) = some p →
        ((∃ b ∈ free, p = blockPayload b) → ¬LooksLive s (s.cpu.regs regA0)) ∧
        ((∃ n, (p, n) ∈ live) → LooksLive s (s.cpu.regs regA0)) := by
  refine ⟨?_, fun hnot => ?_, ?_, fun cs free live horder p hp => ⟨?_, ?_⟩⟩
  · unfold hL2Free VmCpu.setReg
    dsimp only
    rw [if_pos rfl]
  · rw [hL2Free_mem]
    cases hva : vaToHost s (s.cpu.regs regA0) with
    | none => rfl
    | some p =>
      have hfree : isFree s.mem (payloadBlock p) = true := by
        by_contra hbusy
        exact hnot ⟨p, hva, Bool.eq_false_iff.mpr hbusy⟩
      exact Handle.l2Free_clear hfree
  · rintro p hp ⟨q, hq, hbusy⟩
    obtain rfl := Option.some.inj (hp.symm.trans hq)
    obtain ⟨hpos, hlt, -⟩ := vaToHost_bounds hp
    have hmem := hL2Free_mem s
    rw [hp] at hmem
    have hhead : (hL2Free s).heap.freeHead = (Handle.inMemory s.l2Base).freeHead
        ((Handle.inMemory s.l2Base).l2Free s.mem p) :=
      congrArg (Handle.inMemory s.l2Base).freeHead hmem
    rw [hhead]
    exact Handle.freeHead_l2Free (Nat.ne_of_gt hpos) (Nat.lt_of_le_of_lt (Nat.sub_le ..) hlt) hbusy
  · rintro ⟨b, hb, rfl⟩ ⟨q, hq, hbusy⟩
    rw [hp] at hq
    cases hq
    obtain ⟨c, hc, hnone⟩ := mem_freeOf.mp (horder.exact.mem_iff.mp hb)
    have hblock : payloadBlock (blockPayload b) = b := Nat.add_sub_cancel ..
    rw [hblock, (isFree_iff horder.rep.tiles hc).mpr hnone] at hbusy
    cases hbusy
  · rintro ⟨n, hn⟩
    obtain ⟨b, c, hc, hheld, rfl⟩ := mem_liveOf.mp (horder.holds.mem_iff.mp hn)
    refine ⟨_, hp, Bool.eq_false_iff.mpr fun hfree => ?_⟩
    have hblock : payloadBlock (blockPayload b) = b := Nat.add_sub_cancel ..
    rw [hblock, isFree_iff horder.rep.tiles hc, hheld] at hfree
    cases hfree

end Ecall

/-- The heap of 128 bytes behind the region's address 32, in any memory. -/
def heapIn (mem : Mem) : L2Sys :=
  match l2Create 32 160 mem with
  | some (heap, mem) => ⟨heap, mem, []⟩
  | none => ⟨⟨0, 0, 0, 0, 0⟩, mem, []⟩

theorem heapIn_ordered (mem : Mem) :
    InOrder (heapIn mem).heap (heapIn mem).mem [⟨128, none⟩] [64] [] :=
  have hc : l2Create 32 160 mem = some ((heapIn mem).heap, (heapIn mem).mem) := rfl
  (l2Create_ordered (by decide) (by decide) hc).1

/-- The handle of that heap, with one free block. -/
def handleBytes (freeHead : BitVec 64) (allocCount : BitVec 32) : Mem :=
  let mem : Mem := fun _ => 0
  let mem := mem.store 32 8 (64 : BitVec 64)
  let mem := mem.store 40 8 (192 : BitVec 64)
  let mem := mem.store 48 8 freeHead
  let mem := mem.store 56 4 allocCount
  mem.store 60 4 (1 : BitVec 32)

/-- A guest that frees the address `va` of the region. -/
def freeing (mem : Mem) (va : Word) : L2Host :=
  ⟨mem, 32, 160, (vmInit 0).setReg regA0 va, by decide⟩

/-- The address of a block that nobody holds. -/
theorem hL2Free_guarded_small :
    (hL2Free (freeing (heapIn (handleBytes 64 0)).mem 0xE0000030)).mem =
      (heapIn (handleBytes 64 0)).mem := by
  have hheap : (freeing (heapIn (handleBytes 64 0)).mem 0xE0000030).heap =
      (heapIn (handleBytes 64 0)).heap := by decide +kernel
  obtain ⟨-, hsame, -, horder⟩ := hL2Free_guarded (freeing (heapIn (handleBytes 64 0)).mem 0xE0000030)
  refine hsame ((horder _ _ _ (hheap ▸ heapIn_ordered _) 80 rfl).1 ⟨64, by decide, rfl⟩)

/-- One byte in the middle of an allocation makes the address after it look like another one. -/
theorem hL2Free_accepts_forged : ¬∀ (s : L2Host) (cs : List Chunk) (free : List Nat)
    (live : List (Nat × Nat)), InOrder s.heap s.mem cs free live →
    (∀ p n, vaToHost s (s.cpu.regs regA0) = some p → (p, n) ∉ live) →
    (hL2Free s).mem = s.mem := by
  intro h
  have hend : (run L2Sys.step (heapIn (handleBytes 144 1)) [.alloc 64 0, .store 104 1]).map
      (fun s => (decide ((freeing s.mem 0xE0000050).heap = s.heap), s.heap.allocCount,
        (hL2Free (freeing s.mem 0xE0000050)).heap.allocCount, s.live)) =
      some (true, 1, 0, [(80, 64)]) := by decide +kernel
  obtain ⟨s, hs, hend⟩ := Option.map_eq_some_iff.mp hend
  simp only [Prod.mk.injEq, decide_eq_true_eq] at hend
  obtain ⟨hheap, hbefore, hafter, hlive⟩ := hend
  have hfirst : (run L2Sys.step (heapIn (handleBytes 144 1)) [.alloc 64 0]).map L2Sys.live =
      some [(80, 64)] := by decide +kernel
  have hmeets : Meets L2Sys.step (fun s e => L2Event.Ok s e) (heapIn (handleBytes 144 1))
      [.alloc 64 0, .store 104 1] := by
    refine ⟨fun used hused => ?_, fun s' hs' => ⟨⟨80, 64, ?_, by decide, by decide⟩,
      fun _ _ => trivial⟩⟩
    · cases hused
      decide
    · rw [run_cons, hs'] at hfirst
      rw [show s'.live = [(80, 64)] from Option.some.inj hfirst]
      exact List.mem_singleton_self _
  obtain ⟨cs, free, horder⟩ := run_invariant (fun s e s' h hok hs => step_ordered h hok hs)
    ⟨_, _, heapIn_ordered _⟩ hmeets hs
  have hsame := h (freeing s.mem 0xE0000050) cs free s.live (hheap ▸ horder) fun p n hp => by
    have hpointer : vaToHost (freeing s.mem 0xE0000050)
        ((freeing s.mem 0xE0000050).cpu.regs regA0) = some 112 := by
      unfold vaToHost freeing VmCpu.setReg
      simp [l2VaBase]
    rw [hlive, ← Option.some.inj (hpointer.symm.trans hp)]
    simp
  have hcount : (hL2Free (freeing s.mem 0xE0000050)).heap.allocCount =
      (freeing s.mem 0xE0000050).heap.allocCount :=
    congrArg (fun m => (Handle.loaded m 32).allocCount) hsame
  rw [hafter, hheap, hbefore] at hcount
  exact absurd hcount (by decide)

end Microgarbage.Mgapi
