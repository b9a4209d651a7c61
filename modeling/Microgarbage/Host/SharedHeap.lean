import Microgarbage.Memory.SlabRun
import Microgarbage.Sched.Core

/-!
# The shared heap

`SYS_ALLOC` and `SYS_FREE` serve the guests from one slab allocator. Its region is the memory that
every guest has mapped at `0xC0000000`, stacks and headers included; the handle and the list of
blocks that each VM holds are the host's own.
-/

namespace Microgarbage.Host

open Lib Vm Memory
open Sched (Slot errno vmEinval)
open Function (update)

def vmEnomem : Nat := 12

def sharedGuestBase : Word := 0xC0000000

/-- The loader's shared region: all of the storage, writable. -/
def mapShared (storage storageSize : Nat) (cpu : VmCpu) : VmCpu :=
  let shared : VmRegion := ⟨storage, BitVec.ofNat 32 storageSize, storage ≠ 0⟩
  { cpu with regions := update cpu.regions regionShared shared }

def vmPerVmAllocCap : Nat := 32

/-- The blocks a VM holds; 0 is a free entry. -/
structure VmAllocTracking where
  blocks : Fin 32 → Nat
  count : BitVec 8

/-- The loaded VMs, host memory, the shared slab and `config.shared_storage`. -/
structure SharedHeap where
  cpus : Slot → VmCpu
  mem : Mem
  slab : SlabAllocator
  tracking : Slot → VmAllocTracking
  storage : Nat
  storageSize : Nat

def VmAllocTracking.empty : VmAllocTracking := ⟨fun _ => 0, 0⟩

/-- The first entry with this content. -/
def VmAllocTracking.find (t : VmAllocTracking) (p : Nat) : Option (Fin 32) :=
  (List.finRange 32).find? fun i => t.blocks i = p

def trackAlloc (t : VmAllocTracking) (hostP : Nat) : Option VmAllocTracking :=
  if vmPerVmAllocCap ≤ t.count.toNat then none
  else (t.find 0).map fun i => ⟨update t.blocks i hostP, t.count + 1⟩

def untrackAlloc (t : VmAllocTracking) (hostP : Nat) : Option VmAllocTracking :=
  (t.find hostP).map fun i => ⟨update t.blocks i 0, t.count - 1⟩

namespace SharedHeap

variable (s : SharedHeap)

def setCpu (vm : Slot) (cpu : VmCpu) : SharedHeap :=
  { s with cpus := update s.cpus vm cpu }

/-- `regs[A0] = v` of one VM. -/
def ret (vm : Slot) (v : Word) : SharedHeap :=
  s.setCpu vm ((s.cpus vm).setReg regA0 v)

def setTracking (vm : Slot) (t : VmAllocTracking) : SharedHeap :=
  { s with tracking := update s.tracking vm t }

/-- The state with the slab's part of a call's result. -/
def withSlab (r : SlabAllocator × Mem) : SharedHeap :=
  { s with slab := r.1, mem := r.2 }

/-- `slab_free` with the result thrown away. -/
def release (p : Nat) : SharedHeap := s.withSlab (slabFree s.slab s.mem p).2

/-- `SYS_ALLOC` once the slab has returned a block. -/
def handOut (vm : Slot) (hostP : Nat) : SharedHeap :=
  match trackAlloc (s.tracking vm) hostP with
  | none => (s.release hostP).ret vm (errno vmEnomem)
  | some t =>
    if hostP < s.storage ∨ s.storageSize ≤ hostP - s.storage then
      ((s.setTracking vm ((untrackAlloc t hostP).getD t)).release hostP).ret vm (errno vmEnomem)
    else
      (s.setTracking vm t).ret vm (sharedGuestBase + BitVec.ofNat 32 (hostP - s.storage))

def handleAlloc (vm : Slot) : SharedHeap :=
  let size := (s.cpus vm).regs regA0
  if size = 0 then s.ret vm (errno vmEinval)
  else if vmPerVmAllocCap ≤ (s.tracking vm).count.toNat then s.ret vm (errno vmEnomem)
  else
    let r := slabAlloc s.slab s.mem (size.setWidth 64)
    let s := s.withSlab r.2
    if r.1 = 0 then s.ret vm (errno vmEnomem) else s.handOut vm r.1

/-- The host pointer that `SYS_FREE` makes of a guest address. -/
def freeTarget (guestAddr : Word) : Option Nat :=
  if guestAddr &&& sharedGuestBase ≠ sharedGuestBase then none
  else
    let offset := (guestAddr - sharedGuestBase).toNat
    if s.storageSize ≤ offset then none else some (s.storage + offset)

def handleFree (vm : Slot) : SharedHeap :=
  match s.freeTarget ((s.cpus vm).regs regA0) with
  | none => s.ret vm (errno vmEinval)
  | some hostP =>
    match untrackAlloc (s.tracking vm) hostP with
    | none => s.ret vm (errno vmEinval)
    | some t =>
      let r := slabFree s.slab s.mem hostP
      ((s.setTracking vm t).withSlab r.2).ret vm (if r.1 = .ok then 0 else errno vmEinval)

/-- One entry of the walk over the tracked blocks at unload. -/
def reclaimEntry (vm : Slot) (s : SharedHeap) (i : Fin 32) : SharedHeap :=
  let t := s.tracking vm
  if t.blocks i = 0 then s
  else (s.release (t.blocks i)).setTracking vm { t with blocks := update t.blocks i 0 }

/-- What `vm_system_unload_vm` gives back to the shared slab. -/
def reclaim (vm : Slot) : SharedHeap :=
  if (s.tracking vm).count = 0 then s
  else
    let s := (List.finRange 32).foldl (reclaimEntry vm) s
    s.setTracking vm { s.tracking vm with count := 0 }

/-- A guest's store instruction, or its fault. -/
def guestStore (vm : Slot) (addr size value : Word) : SharedHeap :=
  match storeAt ⟨s.cpus vm, s.mem⟩ addr size value with
  | .ok m => { s with mem := m.mem }
  | .error m => s.setCpu vm m.cpu

/-- A handler that fills `n` bytes of a guest buffer, or refuses it. -/
def guestFill (vm : Slot) (addr n : Word) (data : Nat → Byte) : SharedHeap :=
  match vmTranslateWrite (s.cpus vm) addr n with
  | .ok p => { s with mem := s.mem.overlay p n.toNat data }
  | .error cpu => s.setCpu vm cpu

end SharedHeap

inductive HeapEvent where
  | store (vm : Slot) (addr size value : Word)
  | fill (vm : Slot) (addr n : Word) (data : Nat → Byte)
  /-- Whatever else a guest does to its own CPU, or the loader when the slot changes hands. -/
  | cpu (vm : Slot) (cpu : VmCpu)
  | alloc (vm : Slot)
  | free (vm : Slot)
  | unload (vm : Slot)

namespace SharedHeap

def step (s : SharedHeap) : HeapEvent → Option SharedHeap
  | .store vm addr size value => some (s.guestStore vm addr size value)
  | .fill vm addr n data => some (s.guestFill vm addr n data)
  | .cpu vm cpu => some (s.setCpu vm cpu)
  | .alloc vm => some (s.handleAlloc vm)
  | .free vm => some (s.handleFree vm)
  | .unload vm => some (s.reclaim vm)

/-- After `vm_system_init`: no VM holds a block. -/
def init (cpus : Slot → VmCpu) (storage storageSize : Nat) (slab : SlabAllocator) (mem : Mem) :
    SharedHeap :=
  ⟨cpus, mem, slab, fun _ => .empty, storage, storageSize⟩

end SharedHeap

/-! ## The invariant -/

/-- The slab is sound for the clients that hold `live`; what the VMs are on record for is among it,
each block once. -/
structure HeapInv (s : SharedHeap) (live : List Nat) : Prop where
  slab : SlabInv s.slab s.mem live
  held : ∀ vm i, (s.tracking vm).blocks i ≠ 0 → (s.tracking vm).blocks i ∈ live
  apart : ∀ vm i vm' j, (s.tracking vm).blocks i ≠ 0 →
    (s.tracking vm).blocks i = (s.tracking vm').blocks j → vm = vm' ∧ i = j
  region : s.slab.region = s.storage
  regionBytes : s.slab.regionBytes = s.storageSize

/-- A step that writes no byte but the allocator's own. -/
structure Confined (s s' : SharedHeap) : Prop where
  shape : SameShape s.slab s'.slab
  writes : ∀ x, ¬Bookkeeping s.slab x → s'.mem x = s.mem x

namespace Confined

variable {s s' s'' : SharedHeap}

theorem of_same (hs : s'.slab = s.slab) (hm : s'.mem = s.mem) : Confined s s' :=
  ⟨hs ▸ .refl _, fun _ _ => by rw [hm]⟩

theorem trans (h : Confined s s') (h' : Confined s' s'') : Confined s s'' := by
  refine ⟨h.shape.trans h'.shape, fun x hx => ?_⟩
  rw [h'.writes x fun hb => hx (h.shape.bookkeeping.mp hb), h.writes x hx]

theorem ret (h : Confined s s') (vm : Slot) (v : Word) : Confined s (s'.ret vm v) :=
  ⟨h.shape, h.writes⟩

end Confined

theorem setTracking_blocks (s : SharedHeap) (vm : Slot) (i : Fin 32) (q : Nat) (c : BitVec 8)
    (vm' : Slot) (j : Fin 32) :
    ((s.setTracking vm ⟨update (s.tracking vm).blocks i q, c⟩).tracking vm').blocks j =
      if vm' = vm ∧ j = i then q else (s.tracking vm').blocks j := by
  by_cases hv : vm' = vm
  · subst hv
    by_cases hj : j = i <;> simp [SharedHeap.setTracking, hj]
  · simp [SharedHeap.setTracking, hv]

theorem setCount_blocks (s : SharedHeap) (vm : Slot) (c : BitVec 8) (vm' : Slot) :
    ((s.setTracking vm { s.tracking vm with count := c }).tracking vm').blocks =
      (s.tracking vm').blocks := by
  by_cases hv : vm' = vm
  · subst hv
    simp [SharedHeap.setTracking]
  · simp [SharedHeap.setTracking, hv]

/-- What a call of `vm` does to the records and the live blocks: nothing, or it puts a new block on
its record, or takes one off. -/
inductive Recorded (records records' : Slot → VmAllocTracking) (vm : Slot) (live : List Nat) :
    List Nat → Prop
  | same (h : records' = records) : Recorded records records' vm live live
  | taken {p : Nat} {t : VmAllocTracking} (hp : p ≠ 0) (ht : trackAlloc (records vm) p = some t)
    (h : records' = update records vm t) : Recorded records records' vm live (p :: live)
  | given {p : Nat} {t : VmAllocTracking} (hp : p ≠ 0) (ht : untrackAlloc (records vm) p = some t)
    (h : records' = update records vm t) :
    Recorded records records' vm live (live.erase p)

namespace HeapInv

variable {s : SharedHeap} {live : List Nat}

/-- One entry of one list: cleared, or given a block of `live` that nobody has on record. -/
theorem entry (h : HeapInv s live) (vm : Slot) (i : Fin 32) (q : Nat) (c : BitVec 8)
    (hq : q ≠ 0 → q ∈ live ∧ ∀ vm j, (s.tracking vm).blocks j ≠ q) :
    HeapInv (s.setTracking vm ⟨update (s.tracking vm).blocks i q, c⟩) live := by
  refine ⟨h.slab, fun vm' j hne => ?_, fun vm' j vm'' k hne heq => ?_, h.region, h.regionBytes⟩
  · rw [setTracking_blocks] at hne ⊢
    split
    · next hc =>
      rw [if_pos hc] at hne
      exact (hq hne).1
    · next hc =>
      rw [if_neg hc] at hne
      exact h.held vm' j hne
  · rw [setTracking_blocks, setTracking_blocks] at heq
    rw [setTracking_blocks] at hne
    by_cases hc : vm' = vm ∧ j = i
    · rw [if_pos hc] at hne heq
      by_cases hd : vm'' = vm ∧ k = i
      · exact ⟨hc.1.trans hd.1.symm, hc.2.trans hd.2.symm⟩
      · rw [if_neg hd] at heq
        exact absurd heq.symm ((hq hne).2 vm'' k)
    · rw [if_neg hc] at hne heq
      by_cases hd : vm'' = vm ∧ k = i
      · rw [if_pos hd] at heq
        rw [heq] at hne
        exact absurd heq ((hq hne).2 vm' j)
      · rw [if_neg hd] at heq
        exact h.apart vm' j vm'' k hne heq

theorem withSlab (h : HeapInv s live) {r : SlabAllocator × Mem} {live' : List Nat}
    (hinv : SlabInv r.1 r.2 live') (hshape : SameShape s.slab r.1)
    (hheld : ∀ vm i, (s.tracking vm).blocks i ≠ 0 → (s.tracking vm).blocks i ∈ live') :
    HeapInv (s.withSlab r) live' :=
  ⟨hinv, hheld, h.apart, hshape.region.trans h.region, hshape.regionBytes.trans h.regionBytes⟩

theorem ret (h : HeapInv s live) (vm : Slot) (v : Word) : HeapInv (s.ret vm v) live :=
  ⟨h.slab, h.held, h.apart, h.region, h.regionBytes⟩

theorem pushed (h : HeapInv s live) {r : SlabAllocator × Mem} {i : Bin} {k : Nat}
    (hpush : Pushed s.slab s.mem live i k r)
    (hrec : ∀ vm j, (s.tracking vm).blocks j ≠ payload s.slab i k) :
    HeapInv (s.withSlab r) (live.erase (payload s.slab i k)) ∧ Confined s (s.withSlab r) := by
  refine ⟨h.withSlab hpush.inv hpush.shape fun vm j hne => ?_, ⟨hpush.shape, hpush.writes⟩⟩
  exact (List.mem_erase_of_ne (hrec vm j)).mpr (h.held vm j hne)

end HeapInv

theorem release_eq {s : SharedHeap} {p : Nat} {e : SlabResult} {r : SlabAllocator × Mem}
    (h : slabFree s.slab s.mem p = (e, r)) : s.release p = s.withSlab r := by
  unfold SharedHeap.release
  rw [h]

namespace HeapInv

variable {s : SharedHeap} {live : List Nat}

theorem release (h : HeapInv s live) {p : Nat} (hp : p ∈ live)
    (hrec : ∀ vm i, (s.tracking vm).blocks i ≠ p) :
    HeapInv (s.release p) (live.erase p) ∧ Confined s (s.release p) := by
  obtain ⟨i, k, rfl, -, hfree, hpush⟩ := slabFree_live h.slab hp
  rw [release_eq hfree]
  exact h.pushed hpush hrec

theorem in_storage (h : HeapInv s live) {p : Nat} (hp : p ∈ live) :
    ¬(p < s.storage ∨ s.storageSize ≤ p - s.storage) := by
  obtain ⟨i, k, hk, rfl, -⟩ := h.slab.live_block hp
  obtain ⟨hlo, hhi⟩ := h.slab.placed.block_region hk
  have hpos := h.slab.placed.size_pos i
  rw [h.region] at hlo hhi
  rw [h.regionBytes] at hhi
  unfold blockTotal at hhi
  unfold payload
  omega

/-! ## The calls -/

theorem handOut {p : Nat} (h : HeapInv s (p :: live))
    (hrec : ∀ vm i, (s.tracking vm).blocks i ≠ p) (vm : Slot) :
    ∃ live', HeapInv (s.handOut vm p) live' ∧ Confined s (s.handOut vm p) ∧
      Recorded s.tracking (s.handOut vm p).tracking vm live live' := by
  have hp : p ∈ p :: live := List.mem_cons_self ..
  unfold SharedHeap.handOut
  cases ht : trackAlloc (s.tracking vm) p with
  | none =>
    obtain ⟨hinv, hconf⟩ := h.release hp hrec
    rw [List.erase_cons_head] at hinv
    exact ⟨live, hinv.ret vm _, hconf.ret vm _, .same rfl⟩
  | some t =>
    dsimp only
    rw [if_neg (h.in_storage hp)]
    have hrecord : Recorded s.tracking (s.setTracking vm t).tracking vm live (p :: live) :=
      .taken (h.slab.live_pos hp) ht rfl
    unfold trackAlloc at ht
    split at ht
    · cases ht
    · obtain ⟨i, -, rfl⟩ := Option.map_eq_some_iff.mp ht
      exact ⟨p :: live, (h.entry vm i p _ fun _ => ⟨hp, hrec⟩).ret vm _, .of_same rfl rfl, hrecord⟩

theorem handleAlloc (h : HeapInv s live) (vm : Slot) :
    ∃ live', HeapInv (s.handleAlloc vm) live' ∧ Confined s (s.handleAlloc vm) ∧
      Recorded s.tracking (s.handleAlloc vm).tracking vm live live' := by
  unfold SharedHeap.handleAlloc
  dsimp only
  split
  · exact ⟨live, h.ret vm _, .of_same rfl rfl, .same rfl⟩
  split
  · exact ⟨live, h.ret vm _, .of_same rfl rfl, .same rfl⟩
  obtain ⟨hshape, hwrites⟩ := slabAlloc_confined h.slab (((s.cpus vm).regs regA0).setWidth 64)
  have hcases := slabAlloc_cases h.slab (((s.cpus vm).regs regA0).setWidth 64)
  generalize slabAlloc s.slab s.mem (((s.cpus vm).regs regA0).setWidth 64) = r at *
  have hconf : Confined s (s.withSlab r.2) := ⟨hshape, hwrites⟩
  rcases hcases with ⟨h0, -, hinv, -⟩ | ⟨i, k, -, -, -, hpop⟩
  · rw [if_pos h0]
    exact ⟨live, (h.withSlab hinv hshape h.held).ret vm _, hconf.ret vm _, .same rfl⟩
  · have hpos : r.1 ≠ 0 := hpop.inv.live_pos (List.mem_cons_self ..)
    have hheap : HeapInv (s.withSlab r.2) (r.1 :: live) :=
      h.withSlab hpop.inv hshape fun vm i hne => List.mem_cons_of_mem _ (h.held vm i hne)
    obtain ⟨live', hinv, hrest, hrecord⟩ := hheap.handOut
      (fun vm i he => hpop.fresh (he ▸ h.held vm i (he ▸ hpos))) vm
    rw [if_neg hpos]
    exact ⟨live', hinv, hconf.trans hrest, hrecord⟩

/-- The entry of a tracked block is cleared; after that nobody has it on record. -/
theorem forget (h : HeapInv s live) {vm : Slot} {i : Fin 32} (c : BitVec 8)
    (hne : (s.tracking vm).blocks i ≠ 0) :
    HeapInv (s.setTracking vm ⟨update (s.tracking vm).blocks i 0, c⟩) live ∧
      ∀ vm' j, ((s.setTracking vm ⟨update (s.tracking vm).blocks i 0, c⟩).tracking
        vm').blocks j ≠ (s.tracking vm).blocks i := by
  refine ⟨h.entry vm i 0 c fun h0 => absurd rfl h0, fun vm' j he => ?_⟩
  rw [setTracking_blocks] at he
  split at he
  · exact hne he.symm
  · next hc =>
    obtain ⟨hv, hj⟩ := h.apart vm i vm' j hne he.symm
    exact hc ⟨hv.symm, hj.symm⟩

theorem freeTarget_pos (h : HeapInv s live) {addr : Word} {p : Nat}
    (htarget : s.freeTarget addr = some p) : p ≠ 0 := by
  have hregion := h.slab.placed.region_pos
  rw [h.region] at hregion
  unfold SharedHeap.freeTarget at htarget
  split at htarget
  · cases htarget
  · dsimp only at htarget
    split at htarget
    · cases htarget
    · rw [Option.some.injEq] at htarget
      omega

theorem handleFree (h : HeapInv s live) (vm : Slot) :
    ∃ live', HeapInv (s.handleFree vm) live' ∧ Confined s (s.handleFree vm) ∧
      Recorded s.tracking (s.handleFree vm).tracking vm live live' := by
  unfold SharedHeap.handleFree
  cases htarget : s.freeTarget ((s.cpus vm).regs regA0) with
  | none => exact ⟨live, h.ret vm _, .of_same rfl rfl, .same rfl⟩
  | some hostP =>
    dsimp only
    cases ht : untrackAlloc (s.tracking vm) hostP with
    | none => exact ⟨live, h.ret vm _, .of_same rfl rfl, .same rfl⟩
    | some t =>
      have hrecord : Recorded s.tracking (s.setTracking vm t).tracking vm live (live.erase hostP) :=
        .given (h.freeTarget_pos htarget) ht rfl
      obtain ⟨i, hi, rfl⟩ := Option.map_eq_some_iff.mp ht
      have hblock : (s.tracking vm).blocks i = hostP := by
        simpa using List.find?_some hi
      have hpos := h.freeTarget_pos htarget
      rw [← hblock] at hpos
      obtain ⟨hinv, hrec⟩ := h.forget ((s.tracking vm).count - 1) hpos
      have hp := h.held vm i hpos
      rw [hblock] at hp hrec
      obtain ⟨j, k, rfl, -, hfree, hpush⟩ := slabFree_live h.slab hp
      generalize slabPush s.slab s.mem j (payload s.slab j k) = r at hfree hpush
      obtain ⟨hafter, hconf⟩ := hinv.pushed hpush hrec
      dsimp only
      rw [hfree]
      exact ⟨_, hafter.ret vm _, ⟨hconf.shape, hconf.writes⟩, hrecord⟩

theorem reclaimEntry (h : HeapInv s live) (vm : Slot) (i : Fin 32) :
    ∃ live', HeapInv (s.reclaimEntry vm i) live' ∧ Confined s (s.reclaimEntry vm i) := by
  unfold SharedHeap.reclaimEntry
  dsimp only
  split
  · exact ⟨live, h, .of_same rfl rfl⟩
  · next hne =>
    obtain ⟨hinv, hrec⟩ := h.forget (s.tracking vm).count hne
    obtain ⟨hafter, hconf⟩ := hinv.release (h.held vm i hne) hrec
    exact ⟨_, hafter, hconf.shape, hconf.writes⟩

theorem reclaimEntries (vm : Slot) (l : List (Fin 32)) {s : SharedHeap} {live : List Nat}
    (h : HeapInv s live) : ∃ live', HeapInv (l.foldl (SharedHeap.reclaimEntry vm) s) live' ∧
      Confined s (l.foldl (SharedHeap.reclaimEntry vm) s) := by
  induction l generalizing s live with
  | nil => exact ⟨live, h, .of_same rfl rfl⟩
  | cons i l ih =>
    obtain ⟨live₁, h₁, hconf₁⟩ := h.reclaimEntry vm i
    obtain ⟨live₂, h₂, hconf₂⟩ := ih h₁
    exact ⟨live₂, h₂, hconf₁.trans hconf₂⟩

theorem reclaim (h : HeapInv s live) (vm : Slot) :
    ∃ live', HeapInv (s.reclaim vm) live' ∧ Confined s (s.reclaim vm) := by
  unfold SharedHeap.reclaim
  split
  · exact ⟨live, h, .of_same rfl rfl⟩
  · obtain ⟨live', hinv, hconf⟩ := reclaimEntries vm (List.finRange 32) h
    generalize (List.finRange 32).foldl (SharedHeap.reclaimEntry vm) s = s' at hinv hconf ⊢
    refine ⟨live', ⟨hinv.slab, fun vm' j hne => ?_, fun vm' j vm'' k hne he => ?_, hinv.region,
      hinv.regionBytes⟩, hconf.shape, hconf.writes⟩
    · rw [setCount_blocks] at hne ⊢
      exact hinv.held vm' j hne
    · rw [setCount_blocks] at hne he
      rw [setCount_blocks] at he
      exact hinv.apart vm' j vm'' k hne he

end HeapInv

/-! ## Runs -/

/-- None of the bytes that this access of a guest would write is the allocator's own. -/
def Clear (s : SharedHeap) (vm : Slot) (addr n : Word) : Prop :=
  ∀ p, xlatWrite (s.cpus vm) addr n = .ok p →
    ∀ x, p ≤ x → x < p + n.toNat → ¬Bookkeeping s.slab x

def HeapEvent.Ok (s : SharedHeap) : HeapEvent → Prop
  | .store vm addr size _ => Clear s vm addr size
  | .fill vm addr n _ => Clear s vm addr n
  | _ => True

/-- The three calls that may change the slab. -/
def HeapEvent.isCall : HeapEvent → Bool
  | .alloc _ => true
  | .free _ => true
  | .unload _ => true
  | _ => false

/-- What the system relies on. -/
structure SharedSafe (s : SharedHeap) : Prop where
  /-- Only the calls change the handle and the bytes of the allocator. -/
  kept : ∀ e s', e.isCall = false → e.Ok s → s.step e = some s' →
    s'.slab = s.slab ∧ ∀ x, Bookkeeping s.slab x → s'.mem x = s.mem x
  /-- `slab_alloc` returns blocks of the shared region, -/
  blocks : ∀ n, (slabAlloc s.slab s.mem n).1 = 0 ∨ ∃ i k, k < count s.slab i ∧
    (slabAlloc s.slab s.mem n).1 = payload s.slab i k ∧ s.storage ≤ blockStart s.slab i k ∧
    blockStart s.slab i k + blockTotal (s.slab.bins i) ≤ s.storage + s.storageSize
  /-- and no call makes the host write elsewhere. -/
  confined : ∀ e s', e.isCall = true → s.step e = some s' →
    ∀ x, s'.mem x ≠ s.mem x → Bookkeeping s.slab x ∧ s.storage ≤ x ∧ x < s.storage + s.storageSize

section Runs

variable {s s' : SharedHeap} {live : List Nat}

theorem guestStore_kept {vm : Slot} {addr size value : Word} (h : Clear s vm addr size) :
    (s.guestStore vm addr size value).slab = s.slab ∧
      ∀ x, Bookkeeping s.slab x → (s.guestStore vm addr size value).mem x = s.mem x := by
  unfold SharedHeap.guestStore storeAt
  dsimp only
  by_cases hal : addr &&& (size - 1) ≠ 0#32
  · rw [if_pos hal]
    exact ⟨rfl, fun _ _ => rfl⟩
  · rw [if_neg hal]
    cases hx : xlatWrite (s.cpus vm) addr size with
    | error cpu => exact ⟨rfl, fun _ _ => rfl⟩
    | ok p =>
      refine ⟨rfl, fun x hb => Mem.store_out ?_⟩
      by_contra hc
      exact h p hx x (by omega) (by omega) hb

theorem guestFill_kept {vm : Slot} {addr n : Word} {data : Nat → Byte} (h : Clear s vm addr n) :
    (s.guestFill vm addr n data).slab = s.slab ∧
      ∀ x, Bookkeeping s.slab x → (s.guestFill vm addr n data).mem x = s.mem x := by
  unfold SharedHeap.guestFill vmTranslateWrite
  by_cases hn : n = 0#32
  · rw [if_pos hn]
    exact ⟨rfl, fun _ _ => rfl⟩
  · rw [if_neg hn]
    cases hx : xlatWrite (s.cpus vm) addr n with
    | error cpu => exact ⟨rfl, fun _ _ => rfl⟩
    | ok p =>
      refine ⟨rfl, fun x hb => Mem.overlay_out ?_⟩
      by_contra hc
      exact h p hx x (by omega) (by omega) hb

theorem step_kept {e : HeapEvent} (hcall : e.isCall = false) (hok : e.Ok s)
    (hstep : s.step e = some s') :
    s'.slab = s.slab ∧ ∀ x, Bookkeeping s.slab x → s'.mem x = s.mem x := by
  cases e with
  | store vm addr size value =>
    rw [← Option.some.inj hstep]
    exact guestStore_kept hok
  | fill vm addr n data =>
    rw [← Option.some.inj hstep]
    exact guestFill_kept hok
  | cpu vm cpu =>
    rw [← Option.some.inj hstep]
    exact ⟨rfl, fun _ _ => rfl⟩
  | alloc vm => cases hcall
  | free vm => cases hcall
  | unload vm => cases hcall

theorem step_records {e : HeapEvent} (hcall : e.isCall = false) (hstep : s.step e = some s') :
    s'.tracking = s.tracking ∧ s'.storage = s.storage ∧ s'.storageSize = s.storageSize := by
  cases e with
  | store vm addr size value =>
    rw [← Option.some.inj hstep]
    unfold SharedHeap.guestStore
    split
    · exact ⟨rfl, rfl, rfl⟩
    · exact ⟨rfl, rfl, rfl⟩
  | fill vm addr n data =>
    rw [← Option.some.inj hstep]
    unfold SharedHeap.guestFill
    split
    · exact ⟨rfl, rfl, rfl⟩
    · exact ⟨rfl, rfl, rfl⟩
  | cpu vm cpu =>
    rw [← Option.some.inj hstep]
    exact ⟨rfl, rfl, rfl⟩
  | alloc vm => cases hcall
  | free vm => cases hcall
  | unload vm => cases hcall

theorem HeapInv.call (h : HeapInv s live) {e : HeapEvent} (hcall : e.isCall = true)
    (hstep : s.step e = some s') : ∃ live', HeapInv s' live' ∧ Confined s s' := by
  cases e with
  | alloc vm =>
    rw [← Option.some.inj hstep]
    obtain ⟨live', hinv, hconf, -⟩ := h.handleAlloc vm
    exact ⟨live', hinv, hconf⟩
  | free vm =>
    rw [← Option.some.inj hstep]
    obtain ⟨live', hinv, hconf, -⟩ := h.handleFree vm
    exact ⟨live', hinv, hconf⟩
  | unload vm =>
    rw [← Option.some.inj hstep]
    exact h.reclaim vm
  | store vm addr size value => cases hcall
  | fill vm addr n data => cases hcall
  | cpu vm cpu => cases hcall

theorem step_heap (s : SharedHeap) (e : HeapEvent) (s' : SharedHeap) (h : ∃ live, HeapInv s live)
    (hok : e.Ok s) (hstep : s.step e = some s') : ∃ live, HeapInv s' live := by
  obtain ⟨live, h⟩ := h
  cases hcall : e.isCall with
  | true =>
    obtain ⟨live', h', -⟩ := h.call hcall hstep
    exact ⟨live', h'⟩
  | false =>
    obtain ⟨hslab, hmem⟩ := step_kept hcall hok hstep
    obtain ⟨htrack, hsto, hsize⟩ := step_records hcall hstep
    refine ⟨live, ?_, ?_, ?_, ?_, ?_⟩
    · rw [hslab]
      exact h.slab.frame hmem
    · rw [htrack]
      exact h.held
    · rw [htrack]
      exact h.apart
    · rw [hslab, hsto]
      exact h.region
    · rw [hslab, hsize]
      exact h.regionBytes

theorem HeapInv.safe (h : HeapInv s live) : SharedSafe s where
  kept _ _ hcall hok hstep := step_kept hcall hok hstep
  blocks n := by
    rcases slabAlloc_cases h.slab n with ⟨h0, -⟩ | ⟨i, k, -, -, -, hpop⟩
    · exact .inl h0
    · obtain ⟨hlo, hhi⟩ := h.slab.placed.block_region hpop.block
      rw [h.region] at hlo hhi
      rw [h.regionBytes] at hhi
      exact .inr ⟨i, k, hpop.block, hpop.result, hlo, hhi⟩
  confined e s' hcall hstep x hx := by
    obtain ⟨-, -, hconf⟩ := h.call hcall hstep
    have hb : Bookkeeping s.slab x := by
      by_contra hc
      exact hx (hconf.writes x hc)
    obtain ⟨hlo, hhi⟩ := h.slab.placed.bookkeeping_region hb
    rw [h.region] at hlo hhi
    rw [h.regionBytes] at hhi
    exact ⟨hb, hlo, hhi⟩

theorem init_heap {storage storageSize : Nat} {cfg : SlabConfig} {mem mem' : Mem}
    {slab : SlabAllocator} (cpus : Slot → VmCpu) (hlt : storage + storageSize < 2 ^ 64)
    (hinit : slabInit storage storageSize cfg mem = (.ok, slab, mem')) :
    HeapInv (.init cpus storage storageSize slab mem') [] := by
  obtain ⟨hregion, hbytes⟩ := slabInit_region hinit
  exact ⟨slabInit_ok hlt hinit, fun _ _ hne => absurd rfl hne, fun _ _ _ _ hne => absurd rfl hne,
    hregion, hbytes⟩

/-- In every run of any guests from a fresh system: if their own writes miss the free stacks and
the headers, the shared heap is safe in every state. -/
theorem run_sharedHeap {storage storageSize : Nat} {cfg : SlabConfig} {mem mem' : Mem}
    {slab : SlabAllocator} (cpus : Slot → VmCpu) (hlt : storage + storageSize < 2 ^ 64)
    (hinit : slabInit storage storageSize cfg mem = (.ok, slab, mem')) {es : List HeapEvent}
    {s : SharedHeap}
    (hok : Meets SharedHeap.step (fun s e => e.Ok s) (.init cpus storage storageSize slab mem') es)
    (hrun : run SharedHeap.step (.init cpus storage storageSize slab mem') es = some s) :
    SharedSafe s := by
  obtain ⟨live, h⟩ := run_invariant step_heap ⟨[], init_heap cpus hlt hinit⟩ hok hrun
  exact h.safe

end Runs

/-- Two free blocks of 32 bytes in a region of 104 that every VM has mapped. -/
def twoBlocksHeap (mem : Mem) : SharedHeap :=
  .init (fun _ => mapShared 8 104 (vmInit 0)) 8 104 (twoBlocks mem).2.1 (twoBlocks mem).2.2

/-- A VM asks for one byte. -/
def askOne : List HeapEvent :=
  let v : Slot := ⟨0, by decide⟩
  [.cpu v ((mapShared 8 104 (vmInit 0)).setReg regA0 1), .alloc v]

theorem askOne_run : ∃ s, run SharedHeap.step (twoBlocksHeap fun _ => 0) askOne = some s ∧
    xlatWrite (s.cpus 1) 0xC0000040 4 = .ok 72 ∧ 1 < count s.slab 0 ∧ payload s.slab 0 1 = 72 ∧
      (s.slab.bins 0).blockSize = 32 :=
  ⟨_, rfl, rfl, by decide +kernel, by decide +kernel, by decide +kernel⟩

/-- A VM is given a block, and another one writes it. -/
theorem run_sharedHeap_payload : ∃ s, run SharedHeap.step (twoBlocksHeap fun _ => 0)
    (askOne ++ [.store 1 0xC0000040 4 0xFFFFFFFF]) = some s ∧ SharedSafe s := by
  have hinit : twoBlocks (fun _ => 0) = (.ok, (twoBlocks fun _ => 0).2) :=
    twoBlocks_ok (by decide +kernel)
  obtain ⟨s, hrun, hx, hk, hpay, hsize⟩ := askOne_run
  have hask : Meets SharedHeap.step (fun s e => e.Ok s) (twoBlocksHeap fun _ => 0) askOne :=
    .cons trivial rfl (.cons trivial rfl trivial)
  obtain ⟨live, h⟩ := run_invariant step_heap ⟨[], init_heap _ (by decide) hinit⟩ hask hrun
  have hclear : Clear s 1 0xC0000040 4 := by
    intro p hp x hlo hhi
    cases hx.symm.trans hp
    refine h.slab.placed.payload_client hk (by rw [hpay]; exact hlo) ?_
    rw [hpay, hsize]
    exact Nat.lt_of_lt_of_le hhi (by decide)
  have hall : run SharedHeap.step (twoBlocksHeap fun _ => 0)
      (askOne ++ [.store 1 0xC0000040 4 0xFFFFFFFF]) =
        some (s.guestStore 1 0xC0000040 4 0xFFFFFFFF) := by
    rw [run_append, hrun]
    rfl
  refine ⟨_, hall, run_sharedHeap _ (by decide) hinit (hask.append fun s' hs' => ?_) hall⟩
  rw [Option.some.inj (hrun.symm.trans hs')] at hclear
  exact ⟨hclear, fun _ _ => trivial⟩

/-- A guest writes the top of the free stack; the next block is where it said. -/
theorem slabAlloc_wild : ¬∀ (storage storageSize : Nat) (cfg : SlabConfig) (mem mem' : Mem)
    (slab : SlabAllocator) (cpus : Slot → VmCpu) (es : List HeapEvent) (s : SharedHeap),
    storage + storageSize < 2 ^ 64 →
    slabInit storage storageSize cfg mem = (.ok, slab, mem') →
    run SharedHeap.step (.init cpus storage storageSize slab mem') es = some s →
    ∀ n, (slabAlloc s.slab s.mem n).1 < s.storage + s.storageSize := by
  intro h
  have hinit : twoBlocks (fun _ => 0) = (.ok, (twoBlocks fun _ => 0).2) :=
    twoBlocks_ok (by decide +kernel)
  have hlt := h 8 104 _ _ _ _ (fun _ => mapShared 8 104 (vmInit 0))
    [.store 0 0xC0000008 4 0x1000] _ (by decide) hinit rfl 1
  refine absurd hlt ?_
  decide +kernel

end Microgarbage.Host
