import Microgarbage.Host.SharedHeap
import Microgarbage.Lib.BlockChains

/-!
# Who holds the blocks of the shared heap

While no guest writes the allocator's own bytes, the live blocks of the shared slab are exactly the
blocks that the VMs are on record for, each on one record: the counts, the slab's total and what an
unload gives back all follow.
-/

namespace Microgarbage.Host

open Lib Vm Memory List
open Sched (Slot)
open Function (update update_of_ne update_self)

/-! ## One list -/

namespace VmAllocTracking

variable {t t' : VmAllocTracking} {p : Nat} {i : Fin 32}

/-- The non-null entries. -/
def entries (t : VmAllocTracking) : List Nat :=
  ((List.finRange 32).map t.blocks).filter (· ≠ 0)

theorem mem_entries : p ∈ t.entries ↔ p ≠ 0 ∧ ∃ i, t.blocks i = p := by
  simp [entries, and_comm]

theorem length_entries (t : VmAllocTracking) :
    t.entries.length = (List.finRange 32).countP fun i => t.blocks i ≠ 0 := by
  rw [entries, ← countP_eq_length_filter, countP_map]
  rfl

theorem length_entries_le (t : VmAllocTracking) : t.entries.length ≤ 32 := by
  have h := length_filter_le (fun p => decide (p ≠ 0)) ((List.finRange 32).map t.blocks)
  rwa [length_map, length_finRange] at h

theorem entries_nodup (h : ∀ i j, t.blocks i ≠ 0 → t.blocks i = t.blocks j → i = j) :
    t.entries.Nodup := by
  unfold entries
  rw [filter_map]
  refine ((nodup_finRange 32).filter _).map_on fun i hi j _ he => h i j ?_ he
  simpa using (mem_filter.mp hi).2

theorem entries_fill (h0 : t.blocks i = 0) (hp : p ≠ 0) (c : BitVec 8) :
    (⟨update t.blocks i p, c⟩ : VmAllocTracking).entries.length =
      t.entries.length + 1 := by
  rw [length_entries, length_entries]
  refine countP_flip (nodup_finRange 32) (mem_finRange i) ?_ ?_ fun j _ hj => ?_
  · simpa using hp
  · simpa using h0
  · simp [update_of_ne hj]

theorem entries_clear (hp : t.blocks i ≠ 0) (c : BitVec 8) :
    (⟨update t.blocks i 0, c⟩ : VmAllocTracking).entries.length + 1 =
      t.entries.length := by
  rw [length_entries, length_entries]
  refine (countP_flip (nodup_finRange 32) (mem_finRange i) ?_ ?_ fun j _ hj => ?_).symm
  · simpa using hp
  · simp
  · simp [update_of_ne hj]

/-- The count is the number of the non-null entries. -/
def Counted (t : VmAllocTracking) : Prop := t.count.toNat = t.entries.length

theorem counted_empty : empty.Counted := by
  unfold Counted
  decide

theorem trackAlloc_counted (h : t.Counted) (hp : p ≠ 0) (ht : trackAlloc t p = some t') :
    t'.Counted := by
  unfold trackAlloc at ht
  split at ht
  · cases ht
  · next hroom =>
    obtain ⟨i, hi, rfl⟩ := Option.map_eq_some_iff.mp ht
    have h0 : t.blocks i = 0 := by simpa using List.find?_some hi
    unfold vmPerVmAllocCap at hroom
    unfold Counted at h ⊢
    rw [entries_fill h0 hp, ← h, BitVec.toNat_add, Nat.mod_eq_of_lt]
    · rfl
    · exact Nat.lt_of_le_of_lt (Nat.succ_le_of_lt (Nat.lt_of_not_le hroom)) (by decide)

theorem untrackAlloc_counted (h : t.Counted) (hp : p ≠ 0) (ht : untrackAlloc t p = some t') :
    t'.Counted := by
  unfold untrackAlloc at ht
  obtain ⟨i, hi, rfl⟩ := Option.map_eq_some_iff.mp ht
  have hi : t.blocks i = p := by simpa using List.find?_some hi
  have hclear := entries_clear (t := t) (i := i) (by rw [hi]; exact hp) (t.count - 1)
  have hle := t.length_entries_le
  unfold Counted at h ⊢
  have hone : (1 : BitVec 8).toNat = 1 := rfl
  rw [BitVec.toNat_sub, hone]
  omega

end VmAllocTracking

/-! ## All lists -/

namespace SharedHeap

/-- What the VMs are on record for, VM after VM. -/
def tracked (s : SharedHeap) : List Nat :=
  (List.finRange 64).flatMap fun vm => (s.tracking vm).entries

theorem mem_tracked {s : SharedHeap} {p : Nat} :
    p ∈ s.tracked ↔ p ≠ 0 ∧ ∃ vm i, (s.tracking vm).blocks i = p := by
  unfold tracked
  simp only [mem_flatMap, mem_finRange, true_and, VmAllocTracking.mem_entries]
  constructor
  · rintro ⟨vm, hp, i, hi⟩
    exact ⟨hp, vm, i, hi⟩
  · rintro ⟨hp, vm, i, hi⟩
    exact ⟨vm, hp, i, hi⟩

end SharedHeap

/-- The live blocks are the blocks on record. -/
structure Ledger (s : SharedHeap) (live : List Nat) : Prop where
  heap : HeapInv s live
  covered : ∀ p ∈ live, ∃ vm i, (s.tracking vm).blocks i = p

namespace Ledger

variable {s : SharedHeap} {live : List Nat} {p : Nat}

theorem nodup (h : Ledger s live) : s.tracked.Nodup := by
  unfold SharedHeap.tracked
  refine nodup_flatMap.mpr ⟨fun vm _ => ?_, ?_⟩
  · exact VmAllocTracking.entries_nodup fun i j hne he => (h.heap.apart vm i vm j hne he).2
  · refine (nodup_finRange 64).imp fun {vm vm'} hne => ?_
    intro p hp hp'
    obtain ⟨h0, i, hi⟩ := VmAllocTracking.mem_entries.mp hp
    obtain ⟨-, j, hj⟩ := VmAllocTracking.mem_entries.mp hp'
    exact hne (h.heap.apart vm i vm' j (hi ▸ h0) (hi.trans hj.symm)).1

theorem perm (h : Ledger s live) : s.tracked.Perm live := by
  refine (perm_ext_iff_of_nodup h.nodup h.heap.slab.pool.live_nodup).mpr fun p => ?_
  rw [SharedHeap.mem_tracked]
  constructor
  · rintro ⟨h0, vm, i, rfl⟩
    exact h.heap.held vm i h0
  · exact fun hp => ⟨h.heap.slab.live_pos hp, h.covered p hp⟩

end Ledger

theorem slabInv_perm {a : SlabAllocator} {mem : Mem} {live live' : List Nat}
    (h : SlabInv a mem live) (hp : live.Perm live') : SlabInv a mem live' where
  placed := h.placed
  pool :=
    { free_nodup := h.pool.free_nodup
      live_nodup := hp.nodup_iff.mp h.pool.live_nodup
      free_item := h.pool.free_item
      live_item := fun hb => h.pool.live_item (hp.mem_iff.mpr hb)
      split := fun hb => (h.pool.split hb).trans (not_congr hp.mem_iff) }
  bitmap := h.bitmap
  bin := h.bin
  magic i k hk := by
    rw [h.magic i k hk]
    exact congrArg magicOf (decide_eq_decide.mpr hp.mem_iff)
  inUse i := (h.inUse i).trans (hp.filter _).length_eq
  total := h.total.trans (hp.map _).sum_eq

/-- The records and the slab agree. -/
structure Tracked (s : SharedHeap) : Prop where
  /-- Each VM's count is the number of its non-null entries. -/
  count : ∀ vm, (s.tracking vm).count.toNat = (s.tracking vm).entries.length
  /-- No block is on two records, or twice on one. -/
  nodup : s.tracked.Nodup
  /-- The blocks on record are the live blocks of the slab. -/
  live : SlabInv s.slab s.mem s.tracked
  /-- The slab's total is the sum over them. -/
  inUse : s.slab.totalBytesInUse = (s.tracked.map (slabBlockSize s.slab s.mem)).sum

theorem Ledger.tracked {s : SharedHeap} {live : List Nat} (h : Ledger s live)
    (hc : ∀ vm, (s.tracking vm).Counted) : Tracked s :=
  have hlive := slabInv_perm h.heap.slab h.perm.symm
  ⟨hc, h.nodup, hlive, hlive.total⟩

/-! ## The calls -/

section Calls

variable {s s' : SharedHeap} {live : List Nat} {vm : Slot}

theorem Recorded.other {records records' : Slot → VmAllocTracking} {live' : List Nat}
    (h : Recorded records records' vm live live') {vm' : Slot} (hv : vm' ≠ vm) :
    records' vm' = records vm' := by
  cases h with
  | same h => rw [h]
  | taken _ _ h => rw [h, update_of_ne hv]
  | given _ _ h => rw [h, update_of_ne hv]

theorem Recorded.counted {records records' : Slot → VmAllocTracking} {live' : List Nat}
    (h : Recorded records records' vm live live') (hc : ∀ vm, (records vm).Counted) (vm' : Slot) :
    (records' vm').Counted := by
  by_cases hv : vm' = vm
  · subst hv
    cases h with
    | same h => exact h ▸ hc vm'
    | taken hp ht h =>
      rw [h, update_self]
      exact VmAllocTracking.trackAlloc_counted (hc vm') hp ht
    | given hp ht h =>
      rw [h, update_self]
      exact VmAllocTracking.untrackAlloc_counted (hc vm') hp ht
  · rw [h.other hv]
    exact hc vm'

theorem covered_clear (hcov : ∀ p ∈ live, ∃ vm i, (s.tracking vm).blocks i = p)
    (hnd : live.Nodup) (vm : Slot) (i : Fin 32) (c : BitVec 8) :
    ∀ p ∈ live.erase ((s.tracking vm).blocks i), ∃ vm' j,
      ((s.setTracking vm ⟨update (s.tracking vm).blocks i 0, c⟩).tracking vm').blocks j =
        p := by
  intro p hp
  obtain ⟨hne, hp⟩ := hnd.mem_erase_iff.mp hp
  obtain ⟨vm', j, hj⟩ := hcov p hp
  refine ⟨vm', j, ?_⟩
  rw [setTracking_blocks, if_neg, hj]
  rintro ⟨rfl, rfl⟩
  exact hne hj.symm

theorem Ledger.recorded {live' : List Nat} (h : Ledger s live) (hheap : HeapInv s' live')
    (hr : Recorded s.tracking s'.tracking vm live live') : Ledger s' live' := by
  have hpos : ∀ p ∈ live, p ≠ 0 := fun p hp => h.heap.slab.live_pos hp
  refine ⟨hheap, ?_⟩
  cases hr with
  | same hs => exact hs ▸ h.covered
  | @taken p t hp ht hs =>
    unfold trackAlloc at ht
    split at ht
    · cases ht
    obtain ⟨i, hi, rfl⟩ := Option.map_eq_some_iff.mp ht
    have h0 : (s.tracking vm).blocks i = 0 := by simpa using List.find?_some hi
    rw [hs]
    intro q hq
    rcases mem_cons.mp hq with rfl | hq
    · exact ⟨vm, i, (setTracking_blocks s vm i q _ vm i).trans (if_pos ⟨rfl, rfl⟩)⟩
    · obtain ⟨vm', j, hj⟩ := h.covered q hq
      refine ⟨vm', j, (setTracking_blocks s vm i p _ vm' j).trans ((if_neg ?_).trans hj)⟩
      rintro ⟨rfl, rfl⟩
      exact hpos q hq (hj.symm.trans h0)
  | @given p t hp ht hs =>
    obtain ⟨i, hi, rfl⟩ := Option.map_eq_some_iff.mp ht
    have hblock : (s.tracking vm).blocks i = p := by simpa using List.find?_some hi
    rw [hs, ← hblock]
    exact covered_clear h.covered h.heap.slab.pool.live_nodup vm i ((s.tracking vm).count - 1)

/-- What the walk at unload leaves: the entries it has passed are null. -/
structure Reclaimed (s s' : SharedHeap) (vm : Slot) (done : List (Fin 32)) : Prop where
  ledger : ∃ live, Ledger s' live
  others : ∀ vm', vm' ≠ vm → s'.tracking vm' = s.tracking vm'
  null : ∀ i ∈ done, (s'.tracking vm).blocks i = 0

theorem Reclaimed.entry {done : List (Fin 32)} (h : Reclaimed s s' vm done) (i : Fin 32) :
    Reclaimed s (s'.reclaimEntry vm i) vm (done ++ [i]) := by
  obtain ⟨live, hl⟩ := h.ledger
  unfold SharedHeap.reclaimEntry
  dsimp only
  by_cases h0 : (s'.tracking vm).blocks i = 0
  · rw [if_pos h0]
    refine ⟨⟨live, hl⟩, h.others, fun j hj => ?_⟩
    rcases mem_append.mp hj with hj | hj
    · exact h.null j hj
    · rw [mem_singleton.mp hj, h0]
  · rw [if_neg h0]
    obtain ⟨hinv, hrec⟩ := hl.heap.forget (s'.tracking vm).count h0
    obtain ⟨hafter, -⟩ := hinv.release (hl.heap.held vm i h0) hrec
    refine ⟨⟨_, hafter, covered_clear hl.covered hl.heap.slab.pool.live_nodup vm i _⟩,
      fun vm' hv => ?_, fun j hj => ?_⟩
    · exact (update_of_ne hv ..).trans (h.others vm' hv)
    · refine (setTracking_blocks s' vm i 0 (s'.tracking vm).count vm j).trans ?_
      rcases mem_append.mp hj with hj | hj
      · rw [h.null j hj, ite_self]
      · rw [if_pos ⟨rfl, mem_singleton.mp hj⟩]

theorem Reclaimed.entries {done : List (Fin 32)} (h : Reclaimed s s' vm done)
    (l : List (Fin 32)) :
    Reclaimed s (l.foldl (SharedHeap.reclaimEntry vm) s') vm (done ++ l) := by
  induction l generalizing s' done with
  | nil => rwa [append_nil]
  | cons i l ih =>
    have hstep := ih (h.entry i)
    rwa [append_assoc] at hstep

theorem Ledger.reclaim (h : Ledger s live) (hc : ∀ vm, (s.tracking vm).Counted) (vm : Slot) :
    (∃ live', Ledger (s.reclaim vm) live') ∧ (∀ vm', ((s.reclaim vm).tracking vm').Counted) ∧
      ((s.reclaim vm).tracking vm).entries = [] ∧
      ∀ vm', vm' ≠ vm → (s.reclaim vm).tracking vm' = s.tracking vm' := by
  unfold SharedHeap.reclaim
  split
  · next h0 =>
    refine ⟨⟨live, h⟩, hc, ?_, fun _ _ => rfl⟩
    have hlen := hc vm
    unfold VmAllocTracking.Counted at hlen
    rw [h0] at hlen
    exact length_eq_zero_iff.mp hlen.symm
  · have hstart : Reclaimed s s vm [] := ⟨⟨live, h⟩, fun _ _ => rfl, nofun⟩
    have hwalk := hstart.entries (List.finRange 32)
    generalize (List.finRange 32).foldl (SharedHeap.reclaimEntry vm) s = s' at hwalk ⊢
    obtain ⟨⟨live', hl⟩, hothers, hnull⟩ := hwalk
    have hentries : ((s'.setTracking vm { s'.tracking vm with count := 0 }).tracking
        vm).entries = [] := by
      refine eq_nil_iff_forall_not_mem.mpr fun p hp => ?_
      obtain ⟨hp, i, hi⟩ := VmAllocTracking.mem_entries.mp hp
      rw [setCount_blocks, hnull i (mem_append_right _ (mem_finRange i))] at hi
      exact hp hi.symm
    have hsame : ∀ vm', vm' ≠ vm → (s'.setTracking vm { s'.tracking vm with count := 0 }).tracking
        vm' = s.tracking vm' :=
      fun vm' hv => (update_of_ne hv ..).trans (hothers vm' hv)
    refine ⟨⟨live', ⟨hl.heap.slab, fun vm' j hne => ?_, fun vm' j vm'' k hne he => ?_,
      hl.heap.region, hl.heap.regionBytes⟩, fun p hp => ?_⟩, fun vm' => ?_, hentries, hsame⟩
    · rw [setCount_blocks] at hne ⊢
      exact hl.heap.held vm' j hne
    · rw [setCount_blocks] at hne he
      rw [setCount_blocks] at he
      exact hl.heap.apart vm' j vm'' k hne he
    · obtain ⟨vm', j, hj⟩ := hl.covered p hp
      exact ⟨vm', j, by rw [setCount_blocks, hj]⟩
    · by_cases hv : vm' = vm
      · subst hv
        unfold VmAllocTracking.Counted
        rw [hentries]
        simp [SharedHeap.setTracking]
      · rw [hsame vm' hv]
        exact hc vm'

end Calls

/-! ## Runs -/

/-- The shared heap, and which slots have a VM. -/
structure HeapSys where
  heap : SharedHeap
  loaded : Slot → Bool

/-- Memory as a loader leaves it: it works in the local slab, outside the shared storage. -/
def SharedHeap.withLoader (s : SharedHeap) (mem : Mem) : SharedHeap :=
  { s with mem := fun x => if s.storage ≤ x ∧ x < s.storage + s.storageSize then s.mem x else mem x }

inductive HeapSysEvent where
  | load (vm : Slot) (cpu : VmCpu) (mem : Mem)
  | loadFailed (mem : Mem)
  /-- The guest computes in its registers. -/
  | compute (vm : Slot) (cpu : VmCpu)
  | alloc (vm : Slot)
  | free (vm : Slot)
  | exit (vm : Slot)
  | unload (vm : Slot)

namespace HeapSys

def init (heap : SharedHeap) : HeapSys := ⟨heap, fun _ => false⟩

def step (s : HeapSys) : HeapSysEvent → HeapSys
  | .load vm cpu mem =>
    if s.loaded vm then s
    else ⟨(s.heap.withLoader mem).setCpu vm cpu, update s.loaded vm true⟩
  | .loadFailed mem => { s with heap := s.heap.withLoader mem }
  | .compute vm cpu => if s.loaded vm then { s with heap := s.heap.setCpu vm cpu } else s
  | .alloc vm => if s.loaded vm then { s with heap := s.heap.handleAlloc vm } else s
  | .free vm => if s.loaded vm then { s with heap := s.heap.handleFree vm } else s
  | .exit vm =>
    if s.loaded vm then
      { s with heap := s.heap.setCpu vm { s.heap.cpus vm with halted := true } }
    else s
  | .unload vm =>
    if s.loaded vm then ⟨s.heap.reclaim vm, update s.loaded vm false⟩ else s

def run (s : HeapSys) (es : List HeapSysEvent) : HeapSys := es.foldl step s

/-- Between two events. A slot without a VM has no blocks. -/
structure Wf (s : HeapSys) : Prop where
  ledger : ∃ live, Ledger s.heap live
  counted : ∀ vm, (s.heap.tracking vm).Counted
  idle : ∀ vm, s.loaded vm = false → (s.heap.tracking vm).entries = []

variable {s : HeapSys} {vm : Slot}

theorem Wf.tracked (wf : s.Wf) : Tracked s.heap := by
  obtain ⟨live, h⟩ := wf.ledger
  exact h.tracked wf.counted

theorem Wf.setCpu (wf : s.Wf) (vm : Slot) (cpu : VmCpu) :
    Wf { s with heap := s.heap.setCpu vm cpu } := by
  obtain ⟨live, h⟩ := wf.ledger
  exact ⟨⟨live, ⟨h.heap.slab, h.heap.held, h.heap.apart, h.heap.region, h.heap.regionBytes⟩,
    h.covered⟩, wf.counted, wf.idle⟩

theorem Wf.withLoader (wf : s.Wf) (mem : Mem) :
    Wf { s with heap := s.heap.withLoader mem } := by
  obtain ⟨live, h⟩ := wf.ledger
  refine ⟨⟨live, ⟨h.heap.slab.frame fun x hx => ?_, h.heap.held, h.heap.apart, h.heap.region,
    h.heap.regionBytes⟩, h.covered⟩, wf.counted, wf.idle⟩
  have hin := h.heap.slab.placed.bookkeeping_region hx
  rw [h.heap.region, h.heap.regionBytes] at hin
  exact if_pos hin

theorem Wf.occupy (wf : s.Wf) (vm : Slot) :
    Wf { s with loaded := update s.loaded vm true } := by
  refine ⟨wf.ledger, wf.counted, fun vm' hv => wf.idle vm' ?_⟩
  dsimp only at hv
  by_cases he : vm' = vm
  · subst he
    rw [update_self] at hv
    cases hv
  · rwa [update_of_ne he] at hv

theorem Wf.call (wf : s.Wf) {heap : SharedHeap} (hvm : s.loaded vm = true)
    (h : ∀ live, HeapInv s.heap live → ∃ live', HeapInv heap live' ∧ Confined s.heap heap ∧
      Recorded s.heap.tracking heap.tracking vm live live') : Wf { s with heap := heap } := by
  obtain ⟨live, hl⟩ := wf.ledger
  obtain ⟨live', hheap, -, hr⟩ := h live hl.heap
  refine ⟨⟨live', hl.recorded hheap hr⟩, hr.counted wf.counted, fun vm' hv => ?_⟩
  have hne : vm' ≠ vm := by
    rintro rfl
    cases hvm.symm.trans hv
  dsimp only
  rw [hr.other hne]
  exact wf.idle vm' hv

theorem Wf.step (wf : s.Wf) (e : HeapSysEvent) : (s.step e).Wf := by
  obtain ⟨live, hl⟩ := wf.ledger
  cases e with
  | load vm cpu mem =>
    rw [HeapSys.step]
    split
    · exact wf
    · exact ((wf.withLoader mem).setCpu vm cpu).occupy vm
  | loadFailed mem => exact wf.withLoader mem
  | compute vm cpu =>
    rw [HeapSys.step]
    split
    · exact wf.setCpu vm cpu
    · exact wf
  | alloc vm =>
    rw [HeapSys.step]
    split
    · next hvm => exact wf.call hvm fun _ h => h.handleAlloc vm
    · exact wf
  | free vm =>
    rw [HeapSys.step]
    split
    · next hvm => exact wf.call hvm fun _ h => h.handleFree vm
    · exact wf
  | exit vm =>
    rw [HeapSys.step]
    split
    · exact wf.setCpu vm _
    · exact wf
  | unload vm =>
    rw [HeapSys.step]
    split
    · obtain ⟨hl', hc, hnil, hother⟩ := hl.reclaim wf.counted vm
      refine ⟨hl', hc, fun vm' hv => ?_⟩
      by_cases he : vm' = vm
      · rw [he]
        exact hnil
      · dsimp only at hv ⊢
        rw [update_of_ne he] at hv
        rw [hother vm' he]
        exact wf.idle vm' hv
    · exact wf

theorem Wf.run (es : List HeapSysEvent) (wf : s.Wf) : (s.run es).Wf := by
  induction es generalizing s with
  | nil => exact wf
  | cons e es ih => exact ih (wf.step e)

end HeapSys

/-- After every sequence of loads, calls, exits and unloads the records and the slab agree, and an
unload takes its own VM's blocks off the records, and no other. -/
theorem run_tracked {storage storageSize : Nat} {cfg : SlabConfig} {mem mem' : Mem}
    {slab : SlabAllocator} (cpus : Slot → VmCpu) (hlt : storage + storageSize < 2 ^ 64)
    (hinit : slabInit storage storageSize cfg mem = (.ok, slab, mem')) (es : List HeapSysEvent) :
    let s := (HeapSys.init (.init cpus storage storageSize slab mem')).run es
    Tracked s.heap ∧ (∀ vm, s.loaded vm = false → (s.heap.tracking vm).entries = []) ∧
      ∀ vm, s.loaded vm = true → Tracked (s.step (.unload vm)).heap ∧
        ((s.step (.unload vm)).heap.tracking vm).entries = [] ∧
        ∀ vm', vm' ≠ vm → (s.step (.unload vm)).heap.tracking vm' = s.heap.tracking vm' := by
  intro s
  have hstart : (HeapSys.init (.init cpus storage storageSize slab mem')).Wf :=
    ⟨⟨[], init_heap cpus hlt hinit, nofun⟩, fun _ => VmAllocTracking.counted_empty,
      fun _ _ => (by decide : VmAllocTracking.empty.entries = [])⟩
  have wf : s.Wf := hstart.run es
  refine ⟨wf.tracked, wf.idle, fun vm hvm => ⟨(wf.step (.unload vm)).tracked, ?_⟩⟩
  obtain ⟨live, hl⟩ := wf.ledger
  obtain ⟨-, -, hnil, hother⟩ := hl.reclaim wf.counted vm
  rw [HeapSys.step, if_pos hvm]
  exact ⟨hnil, hother⟩

/-- Two VMs over two blocks: each holds one when the first goes. -/
def twoHolders (a b : Slot) : List HeapSysEvent :=
  let askOne := (mapShared 8 104 (vmInit 0)).setReg regA0 1
  [.load a askOne fun _ => 0, .load b askOne fun _ => 0, .alloc a, .alloc b, .exit a, .unload a]

theorem run_tracked_two :
    Tracked ((HeapSys.init (twoBlocksHeap fun _ => 0)).run (twoHolders 0 1)).heap ∧
      ((HeapSys.init (twoBlocksHeap fun _ => 0)).run (twoHolders 0 1)).heap.tracked = [32] := by
  have hinit : twoBlocks (fun _ => 0) = (.ok, (twoBlocks fun _ => 0).2) :=
    twoBlocks_ok (by decide +kernel)
  have htracked := (run_tracked (fun _ => mapShared 8 104 (vmInit 0)) (by decide) hinit
    (twoHolders 0 1)).1
  exact ⟨htracked, by decide +kernel⟩

end Microgarbage.Host
