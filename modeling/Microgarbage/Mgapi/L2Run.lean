import Microgarbage.Lib.Transition
import Microgarbage.Mgapi.L2Spec

/-!
# Every run of the L2 heap

A client allocates, frees what it holds and writes what it holds, in any order. `run_l2Heap` is
the well-formedness of the heap in every state; `l2Alloc_serves_iff` says for which requests a
pointer is what `l2_alloc.h` promises.
-/

namespace Microgarbage.Mgapi

open Lib

structure L2Sys where
  heap : L2Alloc
  mem : Mem
  /-- The pointers that are held, with the bytes that were asked for. -/
  live : List (Nat × Nat)

inductive L2Event where
  | alloc (size align : BitVec 64)
  | free (p : Nat)
  /-- A client writes a byte. -/
  | store (p : Nat) (b : Byte)

def L2Sys.step (s : L2Sys) : L2Event → Option L2Sys
  | .alloc size align =>
    (l2Alloc s.heap s.mem size align).map fun (p, heap, mem) =>
      ⟨heap, mem, if p = 0 then s.live else (p, size.toNat) :: s.live⟩
  | .free p =>
    let (heap, mem) := l2Free s.heap s.mem p
    some ⟨heap, mem, s.live.eraseP fun x => x.1 == p⟩
  | .store p b => some { s with mem := Function.update s.mem p b }

/-- Requests whose block fits in a header, pointers that are held, bytes that are held. -/
def L2Event.Ok (s : L2Sys) : L2Event → Prop
  | .alloc size align => ∀ used, l2Align align = some used → blockBytes size used < 2 ^ 32
  | .free p => ∃ n, (p, n) ∈ s.live
  | .store p _ => ∃ q n, (q, n) ∈ s.live ∧ q ≤ p ∧ p < q + n

def usedBytes (cs : List Chunk) : Nat := total (cs.filter fun c => c.held.isSome)

/-- The heap is the chunks `cs`, and its free list is `free`. -/
structure WellFormed (s : L2Sys) (cs : List Chunk) (free : List Nat) : Prop where
  /-- The headers tile the heap, with the right previous sizes. -/
  tiles : Tiles s.mem s.heap.regionBase 0 cs s.heap.regionEnd
  spaced : Spaced cs
  /-- The free list is exactly the free blocks. -/
  listed : Listed s.heap s.mem free
  exact : free.Perm (freeOf s.heap.regionBase cs)
  nodup : free.Nodup
  /-- The blocks in use are exactly those that are held. -/
  live : s.live.Perm (liveOf s.heap.regionBase cs)
  stats : ∃ stats, l2Stats s.heap s.mem = some stats ∧ stats.usedBytes = usedBytes cs ∧
    stats.allocCount.toNat = s.live.length ∧ stats.freeBlockCount.toNat = free.length

section Run

variable {s s' : L2Sys} {cs : List Chunk} {free : List Nat}

def L2Sys.Ordered (s : L2Sys) : Prop := ∃ cs free, InOrder s.heap s.mem cs free s.live

theorem usedBytes_add (cs : List Chunk) :
    usedBytes cs + total (cs.filter fun c => c.held.isNone) = total cs := by
  unfold usedBytes
  induction cs with
  | nil => rfl
  | cons c cs ih =>
    cases hc : c.held with
    | none => simp [hc]; omega
    | some n => simp [hc]; omega

theorem freeBytes_eq {mem : Mem} {p : Nat} (h : Linked (link mem · .prev) (link mem · .next) p free)
    (h0 : 0 ∉ free) {fuel : Nat} (hfuel : free.length < fuel) :
    freeBytes mem fuel (free.headD 0) =
      some (free.map fun b => (field mem b .size).toNat).sum := by
  induction free generalizing p fuel with
  | nil =>
    obtain ⟨n, rfl⟩ := Nat.exists_eq_add_of_lt hfuel
    rfl
  | cons x xs ih =>
    obtain ⟨-, hnext, hrest⟩ := h
    cases fuel with
    | zero => exact absurd hfuel (Nat.not_lt_zero _)
    | succ fuel =>
      have hx : x ≠ 0 := fun e => h0 (e ▸ List.mem_cons_self ..)
      have hnext : link mem x .next = xs.headD 0 := hnext
      unfold freeBytes
      rw [List.headD_cons, if_neg hx, hnext, ih hrest (fun h => h0 (List.mem_cons_of_mem _ h))
        (Nat.lt_of_succ_lt_succ hfuel)]
      rfl

theorem sizes_freeOf {mem : Mem} {p prev e : Nat} (h : Tiles mem p prev cs e) :
    ((freeOf p cs).map fun b => (field mem b .size).toNat).sum =
      total (cs.filter fun c => c.held.isNone) := by
  induction cs generalizing p prev with
  | nil => rfl
  | cons c cs ih =>
    obtain ⟨hs, -, -, -, -, hrest⟩ := h
    rw [freeOf_cons]
    cases hc : c.held with
    | none => simp [hc, hs, ih hrest]
    | some n => simp [hc, ih hrest]

theorem length_liveOf (p : Nat) (cs : List Chunk) : (liveOf p cs).length ≤ cs.length := by
  induction cs generalizing p with
  | nil => exact Nat.le_refl _
  | cons c cs ih =>
    have hrest := ih (p + c.size)
    obtain ⟨size, held⟩ := c
    cases held with
    | none =>
      rw [liveOf_cons_free, List.length_cons]
      exact Nat.le_succ_of_le hrest
    | some n =>
      rw [liveOf_cons_held, List.length_cons, List.length_cons]
      exact Nat.succ_le_succ hrest

theorem wellFormed_of_inOrder (h : InOrder s.heap s.mem cs free s.live) :
    WellFormed s cs free := by
  have hsum := freeBytes_eq h.rep.listed.linked h.rep.nodes.zero_notMem h.fuel
  rw [← h.rep.listed.head] at hsum
  have hfree : (free.map fun b => (field s.mem b .size).toNat).sum =
      total (cs.filter fun c => c.held.isNone) := by
    rw [← sizes_freeOf h.rep.tiles]
    exact (h.exact.map _).sum_nat
  have hused := usedBytes_add cs
  have hend := h.rep.end_eq
  have hlt := h.rep.size_lt
  have htotal := length_le_total h.rep.ok
  have hlive : s.live.length ≤ cs.length := h.holds.length_eq ▸ length_liveOf _ _
  have hlen : free.length ≤ cs.length := h.exact.length_eq ▸ length_freeOf _ _
  have hstats : l2Stats s.heap s.mem = some
      { usedBytes := s.heap.regionEnd - s.heap.regionBase - total (cs.filter fun c => c.held.isNone)
        freeBytes := total (cs.filter fun c => c.held.isNone)
        allocCount := s.heap.allocCount
        freeBlockCount := s.heap.freeBlockCount } := by
    unfold l2Stats
    rw [hsum, hfree]
    rfl
  refine ⟨h.rep.tiles, h.spaced, h.rep.listed, h.exact, h.rep.nodup, h.holds, _, hstats, ?_, ?_,
    ?_⟩
  · dsimp only
    omega
  · dsimp only
    rw [h.allocs, BitVec.toNat_ofNat]
    exact Nat.mod_eq_of_lt (by omega)
  · dsimp only
    rw [h.rep.listed.count, BitVec.toNat_ofNat]
    exact Nat.mod_eq_of_lt (by omega)

/-! ## One step -/

theorem InOrder.store {a : L2Alloc} {mem : Mem} {live : List (Nat × Nat)}
    (h : InOrder a mem cs free live) {p q n : Nat} (hq : (q, n) ∈ live) (hlo : q ≤ p)
    (hhi : p < q + n) (b : Byte) : InOrder a (Function.update mem p b) cs free live := by
  obtain ⟨y, c, hy, hheld, rfl⟩ := mem_liveOf.mp (h.holds.mem_iff.mp hq)
  have hfits := (h.rep.ok c (placed_mem hy)).fits n hheld
  have hpay : blockPayload y = y + 16 := rfl
  rw [hpay] at hlo hhi
  -- every header and every free block's links lie elsewhere
  have hfields : ∀ z d, (z, d) ∈ placed a.regionBase cs → ∀ f,
      field (Function.update mem p b) z f = field mem z f := by
    intro z d hz f
    have hd := (h.rep.ok d (placed_mem hz)).min
    refine Mem.load32_congr fun i hi => Function.update_of_ne ?_ _ _
    have hoff : f.offset + 4 ≤ 16 := by cases f <;> decide
    rcases placed_apart hy hz with ⟨rfl, -⟩ | he | he <;> omega
  have hlinks : ∀ z ∈ free, ∀ k, link (Function.update mem p b) z k = link mem z k := by
    intro z hz k
    obtain ⟨d, hd, hnone⟩ := mem_freeOf.mp (h.rep.free z hz)
    have hmin := (h.rep.ok d (placed_mem hd)).min
    unfold link
    rw [Mem.load64_congr fun i hi => Function.update_of_ne ?_ _ _]
    have hoff : k.offset + 8 ≤ 32 := by cases k <;> decide
    rcases placed_apart hy hd with ⟨-, rfl⟩ | he | he
    · rw [hheld] at hnone
      cases hnone
    · omega
    · omega
  exact { h with rep := h.rep.headers (h.rep.tiles.congr hfields) hlinks h.rep.free }

theorem step_ordered {e : L2Event} (h : s.Ordered) (hok : e.Ok s) (hs : s.step e = some s') :
    s'.Ordered := by
  obtain ⟨cs, free, h⟩ := h
  cases e with
  | alloc size align =>
    obtain ⟨⟨p, heap, mem⟩, hr, hor⟩ := h.alloc hok
    unfold L2Sys.step at hs
    dsimp only at hs
    rw [hr] at hs
    cases hs
    rcases hor with he | ⟨cs', free', h', -⟩
    · cases he
      exact ⟨cs, free, h⟩
    · -- a pointer into the heap is not null
      have hp : p ≠ 0 := by
        obtain ⟨y, c, -, -, rfl⟩ := mem_liveOf.mp (h'.holds.mem_iff.mp (List.mem_cons_self ..))
        exact Nat.succ_ne_zero _
      refine ⟨cs', free', ?_⟩
      dsimp only
      rw [if_neg hp]
      exact h'
  | free p =>
    obtain ⟨n, hn⟩ := hok
    have hs : some (L2Sys.mk (l2Free s.heap s.mem p).1 (l2Free s.heap s.mem p).2
      (s.live.eraseP fun x => x.1 == p)) = some s' := hs
    obtain ⟨⟨q, m⟩, k₁, k₂, -, hq, hlive, herase⟩ := List.exists_of_eraseP
      (p := fun x => x.1 == p) hn (beq_self_eq_true p)
    rw [beq_iff_eq] at hq
    subst hq
    rw [herase] at hs
    cases hs
    obtain ⟨cs', free', h', -⟩ := h.release hlive
    exact ⟨cs', free', h'⟩
  | store p b =>
    obtain ⟨q, n, hq, hlo, hhi⟩ := hok
    cases hs
    exact ⟨cs, free, h.store hq hlo hhi b⟩

/-- `l2_create` gives one free block, in a region of less than four gigabytes. -/
theorem l2Create_ordered {region regionSize : Nat} {mem mem' : Mem} {a : L2Alloc}
    (hend : region + regionSize < 2 ^ 64) (hsize : region + regionSize < l2HeapBase region + 2 ^ 32)
    (hc : l2Create region regionSize mem = some (a, mem')) :
    InOrder a mem' [⟨region + regionSize - l2HeapBase region, none⟩] [l2HeapBase region] [] ∧
      a.regionBase = l2HeapBase region ∧ a.regionEnd = region + regionSize := by
  unfold l2Create at hc
  split at hc
  · cases hc
  · next hargs =>
    dsimp only at hc
    split at hc
    · cases hc
    · next hroom =>
      cases hc
      have hmin : l2MinBlockBytes = 32 := rfl
      have hbase : l2HeapBase region = roundUp (region + 32) 16 := rfl
      have hge : region + 32 ≤ l2HeapBase region := le_roundUp (by decide)
      have hal : l2HeapBase region % 16 = 0 := roundUp_mod _ _
      rw [hmin] at hroom
      generalize l2HeapBase region = base at hsize hroom hge hal ⊢
      obtain ⟨hs, hp, hf⟩ := tailHeader_self mem base
        (BitVec.ofNat 32 (region + regionSize - base)) 0
      have hnat : (BitVec.ofNat 32 (region + regionSize - base)).toNat =
          region + regionSize - base := by
        rw [BitVec.toNat_ofNat]
        exact Nat.mod_eq_of_lt (by omega)
      have htiles : Tiles (tailHeader mem base (BitVec.ofNat 32 (region + regionSize - base)) 0)
          base 0 [⟨region + regionSize - base, none⟩] (region + regionSize) := by
        refine ⟨?_, ?_, hf, hal, ⟨?_, fun n hn => by cases hn⟩, ?_⟩
        · rw [hs, hnat]
        · rw [hp]
          rfl
        · dsimp only
          omega
        · show base + (region + regionSize - base) = region + regionSize
          omega
      have hrep : Rep ⟨base, region + regionSize, 0, 0, 0⟩ _
          [⟨region + regionSize - base, none⟩] [] :=
        ⟨htiles, ⟨trivial, rfl, rfl⟩, List.nodup_nil, by simp, by dsimp only; omega, hend, hsize⟩
      have hfree : freeOf base [⟨region + regionSize - base, none⟩] = [base] := rfl
      have hpushed := hrep.push (b := base) (by rw [hfree]; exact List.mem_singleton_self _)
        (by simp)
      exact ⟨⟨hpushed, List.Perm.refl _, .singleton _, List.Perm.refl _, rfl⟩, rfl, rfl⟩

/-- In every run of clients that free and write what they hold, with sizes that fit, the heap stays
well formed. -/
theorem run_l2Heap {es : List L2Event} {cs : List Chunk} {free : List Nat}
    (h : InOrder s.heap s.mem cs free s.live) (hok : Meets L2Sys.step (fun s e => e.Ok s) s es)
    (hrun : run L2Sys.step s es = some s') : ∃ cs free, WellFormed s' cs free := by
  have hstep : ∀ s e s', L2Sys.Ordered s → L2Event.Ok s e → L2Sys.step s e = some s' →
      L2Sys.Ordered s' := fun s e s' h hok hs => step_ordered h hok hs
  obtain ⟨cs', free', h'⟩ := run_invariant hstep ⟨cs, free, h⟩ hok hrun
  exact ⟨cs', free', wellFormed_of_inOrder h'⟩

end Run

/-- A heap of 128 bytes behind its handle, with nothing allocated. -/
def smallHeap : L2Sys :=
  match l2Create 32 160 fun _ => 0 with
  | some (heap, mem) => ⟨heap, mem, []⟩
  | none => ⟨⟨0, 0, 0, 0, 0⟩, fun _ => 0, []⟩

theorem smallHeap_ordered : InOrder smallHeap.heap smallHeap.mem [⟨128, none⟩] [64] [] :=
  have hc : l2Create 32 160 (fun _ => 0) = some (smallHeap.heap, smallHeap.mem) := rfl
  (l2Create_ordered (by decide) (by decide) hc).1

/-- Two blocks, the first one freed. -/
theorem run_l2Heap_small : ∃ s, run L2Sys.step smallHeap
    ([.alloc 10 0, .alloc 20 32] ++ [.free 80]) = some s ∧ s.live = [(112, 20)] ∧
      ∃ cs free, WellFormed s cs free := by
  have hallocs : ∀ size align : BitVec 64, (∀ used, l2Align align = some used →
      blockBytes size used < 2 ^ 32) → ∀ s, L2Event.Ok s (.alloc size align) :=
    fun _ _ h _ => h
  have hmeets : Meets L2Sys.step (fun s e => e.Ok s) smallHeap [.alloc 10 0, .alloc 20 32] := by
    refine ⟨hallocs _ _ ?_ _, fun s _ => ⟨hallocs _ _ ?_ _, fun _ _ => trivial⟩⟩
    · intro used hused
      cases hused
      decide
    · intro used hused
      cases hused
      decide
  have htwo : (run L2Sys.step smallHeap [.alloc 10 0, .alloc 20 32]).map L2Sys.live =
      some [(112, 20), (80, 10)] := by decide +kernel
  have hthree : (run L2Sys.step smallHeap ([.alloc 10 0, .alloc 20 32] ++ [.free 80])).map
      L2Sys.live = some [(112, 20)] := by decide +kernel
  obtain ⟨s, hs, hlive⟩ := Option.map_eq_some_iff.mp hthree
  refine ⟨s, hs, hlive, run_l2Heap smallHeap_ordered (hmeets.append fun s' hs' => ?_) hs⟩
  rw [hs'] at htwo
  have hheld : s'.live = [(112, 20), (80, 10)] := Option.some.inj htwo
  refine ⟨⟨10, ?_⟩, fun _ _ => trivial⟩
  rw [hheld]
  decide

/-! ## Everything given back -/

section Released

variable {s s' : L2Sys} {cs : List Chunk} {free : List Nat}

/-- The heap is one free block. -/
structure OneBlock (a : L2Alloc) (mem : Mem) : Prop where
  head : a.freeHead = a.regionBase
  allocs : a.allocCount = 0
  blocks : a.freeBlockCount = 1
  size : (field mem a.regionBase .size).toNat = a.regionEnd - a.regionBase

theorem held_none {p : Nat} (h : liveOf p cs = []) : ∀ c ∈ cs, c.held = none := by
  induction cs generalizing p with
  | nil => simp
  | cons c cs ih =>
    obtain ⟨n, held⟩ := c
    cases held with
    | none =>
      rw [liveOf_cons_free] at h
      simpa using ih h
    | some k =>
      rw [liveOf_cons_held] at h
      cases h

/-- Without a block in use, two blocks would be neighbours that are both free. -/
theorem InOrder.oneBlock {a : L2Alloc} {mem : Mem} (h : InOrder a mem cs free [])
    (hroom : a.regionBase < a.regionEnd) : OneBlock a mem := by
  have hnone := held_none (List.nil_perm.mp h.holds)
  match cs, h with
  | [], h => exact absurd h.rep.tiles (Nat.ne_of_lt hroom)
  | [⟨n, none⟩], h =>
    obtain ⟨hs, -, -, -, -, he⟩ := h.rep.tiles
    obtain rfl := List.perm_singleton.mp h.exact
    refine ⟨h.rep.listed.head, h.allocs, h.rep.listed.count, hs.trans ?_⟩
    exact Nat.eq_sub_of_add_eq' he
  | [⟨n, some k⟩], _ => cases hnone _ (List.mem_singleton_self _)
  | c :: d :: _, h =>
    rcases (List.isChain_cons_cons.mp h.spaced).1 with hc | hd
    · exact absurd (hnone c (by simp)) hc
    · exact absurd (hnone d (by simp)) hd

/-- Clients that give everything back, in whatever order, leave one free block. -/
theorem run_released (h : s.Ordered) {es : List L2Event}
    (hok : Meets L2Sys.step (fun s e => e.Ok s) s es) (hrun : run L2Sys.step s es = some s')
    (hlive : s'.live = []) (hroom : s'.heap.regionBase < s'.heap.regionEnd) :
    OneBlock s'.heap s'.mem := by
  have hstep : ∀ s e s', L2Sys.Ordered s → L2Event.Ok s e → L2Sys.step s e = some s' →
      L2Sys.Ordered s' := fun s e s' h hok hs => step_ordered h hok hs
  obtain ⟨cs, free, h'⟩ := run_invariant hstep h hok hrun
  exact InOrder.oneBlock (hlive ▸ h') hroom

end Released

theorem run_released_small : ∃ s, run L2Sys.step smallHeap [.alloc 10 0, .free 80] = some s ∧
    OneBlock s.heap s.mem := by
  have hone : (run L2Sys.step smallHeap [.alloc 10 0]).map L2Sys.live = some [(80, 10)] := by
    decide +kernel
  have hboth : (run L2Sys.step smallHeap [.alloc 10 0, .free 80]).map (fun s =>
      (s.live, decide (s.heap.regionBase < s.heap.regionEnd))) = some ([], true) := by
    decide +kernel
  obtain ⟨s, hs, hend⟩ := Option.map_eq_some_iff.mp hboth
  rw [Prod.mk.injEq, decide_eq_true_eq] at hend
  have hok : Meets L2Sys.step (fun s e => e.Ok s) smallHeap [.alloc 10 0, .free 80] := by
    refine ⟨fun used hused => ?_, fun s' hs' => ⟨⟨10, ?_⟩, fun _ _ => trivial⟩⟩
    · cases hused
      decide
    · rw [run_cons, hs'] at hone
      rw [Option.some.inj hone]
      decide
  exact ⟨s, hs, run_released ⟨_, _, smallHeap_ordered⟩ hok hs hend.1 hend.2⟩

/-! ## What a pointer is good for -/

/-- The alignment that a request asks for. -/
def requestedAlign (align : BitVec 64) : BitVec 64 := if align = 0 then 16 else align

/-- `p` addresses `size` bytes of the heap, apart from every header and every other block, and is
aligned. -/
structure Serves (s : L2Sys) (heap : L2Alloc) (mem : Mem) (p : Nat) (size align : BitVec 64) :
    Prop where
  inside : s.heap.regionBase ≤ p ∧ p + size.toNat ≤ s.heap.regionEnd
  aligned : p % (requestedAlign align).toNat = 0
  headers : ∃ cs free, InOrder heap mem cs free ((p, size.toNat) :: s.live) ∧
    ∀ y c, (y, c) ∈ placed s.heap.regionBase cs → p + size.toNat ≤ y ∨ y + 16 ≤ p
  others : ∀ q n, (q, n) ∈ s.live → p + size.toNat ≤ q ∨ q + n ≤ p

section Serves

variable {s : L2Sys} {cs : List Chunk} {free : List Nat} {size align : BitVec 64}

theorem requestedAlign_spec {used : BitVec 64} (h : l2Align align = some used) :
    (∃ k, (requestedAlign align).toNat = 2 ^ k) ∧
      used = if requestedAlign align < 16 then 16 else requestedAlign align := by
  unfold l2Align at h
  dsimp only at h
  rw [← requestedAlign] at h
  split at h
  · next hpow =>
    unfold isPow2 at hpow
    rw [Bool.and_eq_true, bne_iff_ne, beq_iff_eq] at hpow
    exact ⟨exists_two_pow hpow.1 hpow.2, (Option.some.inj h).symm⟩
  · cases h

theorem requestedAlign_le (h : align ≤ 16) : requestedAlign align ≤ 16 := by
  unfold requestedAlign
  split
  · exact BitVec.le_refl _
  · exact h

theorem small_align {used : BitVec 64} (h : l2Align align = some used) (hle : align ≤ 16) :
    used = 16 ∧ (requestedAlign align).toNat ∣ 16 := by
  obtain ⟨⟨k, hk⟩, hused⟩ := requestedAlign_spec h
  have hle' : (requestedAlign align).toNat ≤ 16 := requestedAlign_le hle
  constructor
  · rw [hused]
    split
    · rfl
    · next hge => exact BitVec.eq_of_toNat_eq (Nat.le_antisymm hle' (Nat.le_of_not_lt hge))
  · rw [hk] at hle' ⊢
    have hk4 : k ≤ 4 := (Nat.pow_le_pow_iff_right Nat.one_lt_two).mp (hle' : 2 ^ k ≤ 2 ^ 4)
    exact Nat.pow_dvd_pow 2 hk4

theorem blockBytes_lt (h : size.toNat ≤ 2 ^ 32 - 32) : blockBytes size 16 < 2 ^ 32 := by
  have hlit : (16 : BitVec 64).toNat = 16 := rfl
  have hpay : (if size < 16 then 16 else size.toNat) ≤ 2 ^ 32 - 32 := by
    split <;> omega
  unfold blockBytes roundUp
  rw [hlit]
  generalize (if size < 16 then 16 else size.toNat) = v at hpay ⊢
  omega

theorem liveOf_nodup {p : Nat} (hok : ∀ c ∈ cs, c.Ok) : (liveOf p cs).Nodup := by
  induction cs generalizing p with
  | nil => exact List.nodup_nil
  | cons c cs ih =>
    have hmin := (hok c (List.mem_cons_self ..)).min
    have hrest := ih (p := p + c.size) fun d hd => hok d (List.mem_cons_of_mem _ hd)
    obtain ⟨size, held⟩ := c
    cases held with
    | none => exact hrest
    | some n =>
      rw [liveOf_cons_held]
      refine List.nodup_cons.mpr ⟨fun hmem => ?_, hrest⟩
      obtain ⟨y, d, hd, -, hy⟩ := mem_liveOf.mp hmem
      have hlo := (placed_bounds hd).1
      unfold blockPayload at hy
      dsimp only at hmin hlo
      omega

theorem serves_of_inOrder {p : Nat} {heap : L2Alloc} {mem : Mem} {cs' : List Chunk}
    {free' : List Nat}
    (h' : InOrder heap mem cs' free' ((p, size.toNat) :: s.live))
    (hbase : heap.regionBase = s.heap.regionBase) (hend : heap.regionEnd = s.heap.regionEnd)
    (halign : (requestedAlign align).toNat ∣ 16) : Serves s heap mem p size align := by
  have hperm := h'.holds
  have hnd := (hperm.nodup_iff).mpr (liveOf_nodup h'.rep.ok)
  obtain ⟨y, c, hy, hheld, rfl⟩ := mem_liveOf.mp (hperm.mem_iff.mp (List.mem_cons_self ..))
  obtain ⟨hok, hal, -, -⟩ := h'.rep.tiles.ok hy
  have hfits := hok.fits _ hheld
  have hlo := (placed_bounds hy).1
  have hhi := (placed_bounds hy).2
  rw [← h'.rep.end_eq, hend] at hhi
  rw [hbase] at hlo
  have hpay : blockPayload y = y + 16 := rfl
  rw [hpay] at h' hperm hnd ⊢
  refine ⟨⟨by omega, by omega⟩, ?_, ⟨cs', free', h', fun z d hz => ?_⟩, fun q n hq => ?_⟩
  · have hdvd : 16 ∣ y + 16 := Nat.dvd_add (Nat.dvd_of_mod_eq_zero hal) (Nat.dvd_refl 16)
    exact Nat.mod_eq_zero_of_dvd (halign.trans hdvd)
  · rw [← hbase] at hz
    have hmin := (h'.rep.ok d (placed_mem hz)).min
    rcases placed_apart hy hz with ⟨rfl, -⟩ | he | he <;> omega
  · obtain ⟨z, d, hz, hdheld, rfl⟩ := mem_liveOf.mp (hperm.mem_iff.mp (List.mem_cons_of_mem _ hq))
    have hdfits := (h'.rep.ok d (placed_mem hz)).fits _ hdheld
    have hzpay : blockPayload z = z + 16 := rfl
    rw [hzpay] at hq ⊢
    rcases placed_apart hy hz with ⟨rfl, rfl⟩ | he | he
    · rw [hheld] at hdheld
      cases hdheld
      exact absurd hq (List.nodup_cons.mp hnd).1
    · omega
    · omega

/-! ## The requests that go wrong -/

theorem fresh_alloc {n : Nat} (hn : 32 ≤ n) (hlt : n < 2 ^ 32) (hsize : size ≠ 0)
    (halign : l2Align align ≠ none) (hfit : ∀ used, l2Align align = some used →
      (wantTotal size used).toNat ≤ n) :
    ∃ s : L2Sys, s.live = [] ∧ (∃ cs free, InOrder s.heap s.mem cs free s.live) ∧
      s.heap.regionBase = 2 ^ 63 ∧ s.heap.regionEnd = 2 ^ 63 + n ∧
      ∃ heap mem, l2Alloc s.heap s.mem size align = some (2 ^ 63 + 16, heap, mem) := by
  have hbase : l2HeapBase (2 ^ 63 - 32) = 2 ^ 63 := by decide
  have hsizeof : sizeofL2Alloc = 32 := rfl
  have hmin : l2MinBlockBytes = 32 := rfl
  have hend : 2 ^ 63 - 32 + (32 + n) = 2 ^ 63 + n := by omega
  obtain ⟨⟨a, mem⟩, hc⟩ : ∃ r, l2Create (2 ^ 63 - 32) (32 + n) (fun _ => 0) = some r := by
    unfold l2Create
    rw [if_neg (by omega)]
    dsimp only
    rw [hbase, if_neg (by omega)]
    exact ⟨_, rfl⟩
  obtain ⟨horder, hab, hae⟩ := l2Create_ordered (by omega) (by omega) hc
  rw [hbase, hend] at horder
  rw [hbase] at hab
  rw [hend] at hae
  refine ⟨⟨a, mem, []⟩, rfl, ⟨_, _, horder⟩, hab, hae, ?_⟩
  obtain ⟨used, hused⟩ := Option.ne_none_iff_exists'.mp halign
  -- the one block is large enough
  have hblock : (field mem (2 ^ 63) .size).toNat = n := by
    have hs := horder.rep.tiles.1
    rw [hab] at hs
    rw [hs]
    exact Nat.add_sub_cancel_left ..
  obtain ⟨b, hb, hor⟩ := firstFit_spec (wantTotal size used) horder.rep.listed.linked
    horder.rep.nodes.zero_notMem horder.fuel
  rw [← horder.rep.listed.head] at hb
  have hfound : b = 2 ^ 63 := by
    rcases hor with ⟨-, hall⟩ | ⟨l₁, l₂, hlist, -⟩
    · have hlt := hall (2 ^ 63) (List.mem_singleton_self _)
      have hlt : (field mem (2 ^ 63) .size).toNat < (wantTotal size used).toNat := hlt
      have hle := hfit used hused
      omega
    · cases l₁ with
      | nil => exact (List.cons.inj hlist).1.symm
      | cons x xs => simp at hlist
  subst hfound
  unfold l2Alloc
  rw [if_neg hsize, hused]
  dsimp only
  rw [hb]
  exact ⟨_, _, rfl⟩

theorem toNat_roundUpU32 (v : BitVec 32) :
    (roundUpU32 v 16).toNat = (v.toNat + 15) % 2 ^ 32 / 16 * 16 := by
  have h16 : (16 : BitVec 32).toNat = 2 ^ 4 := rfl
  have hpred : (v + 16 - 1).toNat = (v.toNat + 15) % 2 ^ 32 := by
    rw [BitVec.sub_eq_add_neg, BitVec.add_assoc, BitVec.toNat_add]
    rfl
  unfold roundUpU32
  rw [toNat_mask_not h16, hpred]
  rfl

theorem wantTotal_wraps (hbig : 2 ^ 32 - 32 < size.toNat) (hlt : size.toNat < 2 ^ 32) :
    (wantTotal size 16).toNat ≤ 16 := by
  have hnot : ¬size < 16 := by
    rw [BitVec.lt_def]
    show ¬size.toNat < 16
    omega
  have hone : (BitVec.setWidth 32 (16 : BitVec 64)) = 16 := rfl
  have hlit : (16 : BitVec 32).toNat = 16 := rfl
  have hsize : (size.setWidth 32).toNat = size.toNat := by
    rw [BitVec.toNat_setWidth]
    exact Nat.mod_eq_of_lt hlt
  unfold wantTotal
  dsimp only
  rw [if_neg hnot, hone, toNat_roundUpU32, BitVec.toNat_add, toNat_roundUpU32, hsize, hlit]
  omega

/-- A pointer is what was promised, in every heap, exactly for the requests with a small alignment
and a size that fits. -/
theorem l2Alloc_serves_iff (hsize : size ≠ 0) (halign : l2Align align ≠ none) :
    (∀ s : L2Sys, (∃ cs free, InOrder s.heap s.mem cs free s.live) → ∀ p heap mem,
      l2Alloc s.heap s.mem size align = some (p, heap, mem) → p ≠ 0 →
        Serves s heap mem p size align) ↔
      align ≤ 16 ∧ size.toNat ≤ 2 ^ 32 - 32 := by
  constructor
  · intro hall
    by_contra hbad
    obtain ⟨used, hused⟩ := Option.ne_none_iff_exists'.mp halign
    have hmax := Nat.le_max_left (wantTotal size used).toNat 64
    have hmin := Nat.le_max_right (wantTotal size used).toNat 64
    have hlt : max (wantTotal size used).toNat 64 < 2 ^ 32 :=
      Nat.max_lt.mpr ⟨BitVec.isLt _, by decide⟩
    generalize hn : max (wantTotal size used).toNat 64 = n at hmax hmin hlt
    obtain ⟨s, -, horder, -, hend, heap, mem, hr⟩ := fresh_alloc (by omega) hlt hsize halign
      fun used' hused' => by
        rw [hused, Option.some.injEq] at hused'
        exact hused' ▸ hmax
    obtain ⟨⟨-, hinside⟩, haligned, -, -⟩ := hall s horder _ _ _ hr (by decide)
    obtain ⟨⟨k, hk⟩, -⟩ := requestedAlign_spec hused
    by_cases hsmall : align ≤ 16
    · -- the block is shorter than the request
      rw [hend] at hinside
      rcases Nat.lt_or_ge size.toNat (2 ^ 32) with h32 | h32
      · have hbig : 2 ^ 32 - 32 < size.toNat := by
          by_contra hle
          exact hbad ⟨hsmall, Nat.le_of_not_lt hle⟩
        have hwraps := wantTotal_wraps hbig h32
        rw [(small_align hused hsmall).1] at hn
        omega
      · omega
    · -- the block is aligned to its header only
      have hgt : 16 < (requestedAlign align).toNat := by
        unfold requestedAlign
        split
        · next h0 => exact absurd (h0 ▸ by decide) hsmall
        · exact Nat.lt_of_not_le hsmall
      have hlt64 : (requestedAlign align).toNat < 2 ^ 64 := BitVec.isLt _
      rw [hk] at haligned hgt hlt64
      have hk63 : k ≤ 63 := Nat.le_of_lt_succ ((Nat.pow_lt_pow_iff_right Nat.one_lt_two).mp hlt64)
      have hdvd := (Nat.dvd_add_right (Nat.pow_dvd_pow 2 hk63)).mp (Nat.dvd_of_mod_eq_zero haligned)
      have hle := Nat.le_of_dvd (by decide) hdvd
      omega
  · rintro ⟨hsmall, hle⟩ s ⟨cs, free, h⟩ p heap mem hr hp
    obtain ⟨used, hused⟩ := Option.ne_none_iff_exists'.mp halign
    obtain ⟨hused16, hdvd⟩ := small_align hused hsmall
    have hfit : ∀ used, l2Align align = some used → blockBytes size used < 2 ^ 32 := by
      intro used' hused'
      rw [(small_align hused' hsmall).1]
      exact blockBytes_lt hle
    obtain ⟨r, hr', hor⟩ := h.alloc hfit
    rw [hr] at hr'
    cases hr'
    rcases hor with he | ⟨cs', free', h', hbase, hend⟩
    · cases he
      exact absurd rfl hp
    · exact serves_of_inOrder h' hbase hend hdvd

end Serves

/-- One byte with the default alignment. -/
theorem l2Alloc_serves_byte : ∃ p heap mem,
    l2Alloc smallHeap.heap smallHeap.mem 1 0 = some (p, heap, mem) ∧ p = 80 ∧
      Serves smallHeap heap mem p 1 0 := by
  have hp : (l2Alloc smallHeap.heap smallHeap.mem 1 0).map Prod.fst = some 80 := by
    decide +kernel
  obtain ⟨⟨p, heap, mem⟩, hr, rfl⟩ := Option.map_eq_some_iff.mp hp
  have hall := (l2Alloc_serves_iff (by decide : (1 : BitVec 64) ≠ 0)
    (by decide : l2Align 0 ≠ none)).mpr ⟨by decide, by decide⟩
  exact ⟨_, heap, mem, hr, rfl, hall smallHeap ⟨_, _, smallHeap_ordered⟩ _ heap mem hr (by decide)⟩

/-- A request for a cache line gets a block that is aligned to 16 only. -/
theorem l2Alloc_misaligned : ¬∀ (size align : BitVec 64) (s : L2Sys),
    size ≠ 0 → l2Align align ≠ none → (∃ cs free, InOrder s.heap s.mem cs free s.live) →
    ∀ p heap mem, l2Alloc s.heap s.mem size align = some (p, heap, mem) → p ≠ 0 →
      Serves s heap mem p size align := by
  intro h
  have hp : (l2Alloc smallHeap.heap smallHeap.mem 1 64).map Prod.fst = some 80 := by
    decide +kernel
  obtain ⟨⟨p, heap, mem⟩, hr, rfl⟩ := Option.map_eq_some_iff.mp hp
  have hserves := h 1 64 smallHeap (by decide) (by decide) ⟨_, _, smallHeap_ordered⟩ _ heap mem hr
    (by decide)
  exact absurd hserves.aligned (by decide)

end Microgarbage.Mgapi
