import Microgarbage.Audio.PoolBlocks

/-!
# Runs of the pool

What every sequence of calls keeps: the chains of the live objects, the used map and the count, and
the generation of each slot. From the generations follows when a handle whose object was freed names
a later object.
-/

namespace Microgarbage.Audio

open Lib Containers
open Function (update update_of_ne update_self)

/-- Where the chain of a slot starts. -/
def slotHead (p : AudioPool) (s : Nat) : Nat :=
  if (p.objects s).inUse then (p.objects s).headBlock else audioPoolNoBlock

/-- Between two calls. -/
structure PoolWf (p : AudioPool) (chain : Nat → List Nat) : Prop where
  blocks : Blocks p (slotHead p) chain
  length : ∀ s, (p.objects s).inUse = true → (chain s).length = (p.objects s).nblocks
  current : ∀ s, (p.objects s).inUse = true → (p.objects s).generation = p.generations s
  generations : ∀ s, 1 ≤ p.generations s ∧ p.generations s ≤ 65535

variable {p p' p'' : AudioPool} {chain : Nat → List Nat} {s : Nat} {h : AudioObjHandle}

theorem PoolWf.chain_eq_nil (wf : PoolWf p chain) (hs : (p.objects s).inUse = false) :
    chain s = [] := by
  have hwalk := wf.blocks.chains.walk s
  have hhead : slotHead p s = audioPoolNoBlock := by
    unfold slotHead
    rw [hs]
    rfl
  rw [hhead] at hwalk
  exact hwalk.nil_of_mark

theorem audioPoolInit_wf {region : Mem} {regionSize : Nat}
    (hinit : audioPoolInit region regionSize = (.ok, p)) :
    PoolWf p (fun _ => []) ∧ ∀ s, (p.objects s).inUse = false := by
  unfold audioPoolInit at hinit
  dsimp only at hinit
  split at hinit
  · cases hinit
  · cases hinit
    have hsmall : regionSize / audioPoolBlockSize % 2 ^ 32 ≤ audioPoolNoBlock :=
      Nat.le_of_lt_succ (Nat.mod_lt _ (Nat.two_pow_pos 32))
    obtain ⟨hmap, hclear⟩ := blockMap_init hsmall
    refine ⟨⟨⟨⟨fun _ => rfl, fun _ => List.nodup_nil, nofun, nofun, fun _ => ?_⟩, hmap, ?_⟩,
      nofun, nofun, fun _ => ⟨Nat.le_refl 1, (by decide : 1 ≤ 65535)⟩⟩, fun _ => rfl⟩
    · rw [hclear]
      exact ⟨nofun, fun ⟨_, hb⟩ => nomatch hb⟩
    · rw [List.countP_eq_length.mpr fun b _ => by rw [hclear]; rfl, List.length_range]

/-! ## Changes of one descriptor -/

theorem PoolWf.redescribe (wf : PoolWf p chain) {o : AudioObject}
    (huse : o.inUse = (p.objects s).inUse) (hhead : o.headBlock = (p.objects s).headBlock)
    (hblocks : o.nblocks = (p.objects s).nblocks)
    (hgen : o.generation = (p.objects s).generation) : PoolWf (setObject p s o) chain := by
  have hsame : ∀ t, ((setObject p s o).objects t).inUse = (p.objects t).inUse ∧
      ((setObject p s o).objects t).headBlock = (p.objects t).headBlock ∧
      ((setObject p s o).objects t).nblocks = (p.objects t).nblocks ∧
      ((setObject p s o).objects t).generation = (p.objects t).generation := by
    intro t
    by_cases ht : t = s
    · subst ht
      rw [setObject_same]
      exact ⟨huse, hhead, hblocks, hgen⟩
    · rw [setObject_ne o ht]
      exact ⟨rfl, rfl, rfl, rfl⟩
  have hslot : slotHead (setObject p s o) = slotHead p := by
    funext t
    unfold slotHead
    rw [(hsame t).1, (hsame t).2.1]
  refine ⟨?_, fun t ht => ?_, fun t ht => ?_, wf.generations⟩
  · rw [hslot]
    exact ⟨wf.blocks.chains, wf.blocks.map, wf.blocks.count⟩
  · rw [(hsame t).2.2.1]
    exact wf.length t ((hsame t).1 ▸ ht)
  · rw [(hsame t).2.2.2]
    exact wf.current t ((hsame t).1 ▸ ht)

theorem PoolWf.recount (wf : PoolWf p chain) (s : Nat) (n : Int) :
    PoolWf (setObject p s { p.objects s with refcount := n }) chain :=
  wf.redescribe (by rfl) (by rfl) (by rfl) (by rfl)

/-! ## Which slots are freed -/

/-- A slot is left alone, or its object goes and its generation moves on. -/
def Released (p p' : AudioPool) : Prop :=
  ∀ s, ((p'.objects s).inUse = (p.objects s).inUse ∧ p'.generations s = p.generations s) ∨
    ((p.objects s).inUse = true ∧ (p'.objects s).inUse = false ∧
      p'.generations s = nextGeneration (p.generations s))

theorem Released.refl (p : AudioPool) : Released p p := fun _ => .inl ⟨rfl, rfl⟩

theorem Released.trans (h : Released p p') (h' : Released p' p'') : Released p p'' := by
  intro s
  rcases h s with ⟨huse, hgen⟩ | ⟨huse, hfree, hgen⟩
  · rw [← huse, ← hgen]
    exact h' s
  · rcases h' s with ⟨huse', hgen'⟩ | ⟨huse', -⟩
    · exact .inr ⟨huse, huse'.trans hfree, hgen'.trans hgen⟩
    · rw [hfree] at huse'
      cases huse'

/-- Objects may come, none goes. -/
def Occupied (p p' : AudioPool) : Prop :=
  p'.generations = p.generations ∧ ∀ s, (p.objects s).inUse = true → (p'.objects s).inUse = true

theorem SameObjects.occupied (h : SameObjects p p') : Occupied p p' :=
  ⟨h.generations, fun s hs => by rwa [h.objects]⟩

theorem setObject_released {o : AudioObject} (huse : o.inUse = (p.objects s).inUse) :
    Released p (setObject p s o) := by
  refine fun t => .inl ⟨?_, rfl⟩
  by_cases ht : t = s
  · subst ht
    rw [setObject_same, huse]
  · rw [setObject_ne o ht]

theorem freeObject_generations (p : AudioPool) (s : Nat) :
    (freeObject p s).generations =
      setBlock p.generations s (nextGeneration (p.generations s)) := by
  unfold freeObject freeChain setObject
  dsimp only
  rw [(freeChainLoop_same ..).generations]

theorem freeObject_released (huse : (p.objects s).inUse = true) : Released p (freeObject p s) := by
  intro t
  rw [freeObject_objects, freeObject_generations]
  by_cases ht : t = s
  · subst ht
    rw [setObject_same]
    exact .inr ⟨huse, rfl, if_pos rfl⟩
  · rw [setObject_ne _ ht]
    exact .inl ⟨rfl, if_neg ht⟩

theorem nextGeneration_range (gen : Nat) : 1 ≤ nextGeneration gen ∧ nextGeneration gen ≤ 65535 := by
  unfold nextGeneration
  dsimp only
  split <;> omega

theorem PoolWf.freeObject (wf : PoolWf p chain) (huse : (p.objects s).inUse = true) :
    PoolWf (freeObject p s) (update chain s []) := by
  have hhead : slotHead p s = (p.objects s).headBlock := by
    unfold slotHead
    rw [huse]
    rfl
  have hblocks := wf.blocks.freeChain s
  rw [hhead] at hblocks
  have hslot : slotHead (Audio.freeObject p s) =
      update (slotHead p) s audioPoolNoBlock := by
    funext t
    unfold slotHead
    rw [freeObject_objects]
    by_cases ht : t = s
    · subst ht
      rw [setObject_same, update_self]
      rfl
    · rw [setObject_ne _ ht, update_of_ne ht]
  have hlive : ∀ t, ((Audio.freeObject p s).objects t).inUse = true →
      t ≠ s ∧ (Audio.freeObject p s).objects t = p.objects t := by
    intro t ht
    rw [freeObject_objects] at ht ⊢
    by_cases hts : t = s
    · subst hts
      rw [setObject_same] at ht
      cases ht
    · rw [setObject_ne _ hts]
      exact ⟨hts, rfl⟩
  refine ⟨?_, fun t ht => ?_, fun t ht => ?_, fun t => ?_⟩
  · rw [hslot]
    exact { hblocks with }
  · obtain ⟨hts, hsame⟩ := hlive t ht
    rw [hsame] at ht ⊢
    rw [update_of_ne hts]
    exact wf.length t ht
  · obtain ⟨hts, hsame⟩ := hlive t ht
    rw [hsame] at ht ⊢
    rw [freeObject_generations]
    exact (wf.current t ht).trans (if_neg hts).symm
  · rw [freeObject_generations]
    unfold setBlock
    split
    · exact nextGeneration_range _
    · exact wf.generations t

theorem PoolWf.dropRef (wf : PoolWf p chain) (huse : (p.objects s).inUse = true) :
    (∃ chain', PoolWf (dropRef p s).2 chain') ∧ Released p (dropRef p s).2 := by
  have hwf := wf.recount s ((p.objects s).refcount - 1)
  have hrel : Released p (setObject p s
      { p.objects s with refcount := (p.objects s).refcount - 1 }) :=
    setObject_released (by rfl)
  unfold Audio.dropRef
  dsimp only
  split
  · have huse' : ((setObject p s
        { p.objects s with refcount := (p.objects s).refcount - 1 }).objects s).inUse = true := by
      rw [setObject_same]
      exact huse
    exact ⟨⟨_, hwf.freeObject huse'⟩, hrel.trans (freeObject_released huse')⟩
  · exact ⟨⟨_, hwf⟩, hrel⟩

theorem PoolWf.sweep (wf : PoolWf p chain) (vm : Nat) (l : List Nat) :
    (∃ chain', PoolWf (l.foldl (sweepSlot vm) p) chain') ∧
      Released p (l.foldl (sweepSlot vm) p) := by
  induction l generalizing p chain with
  | nil => exact ⟨⟨chain, wf⟩, .refl p⟩
  | cons s l ih =>
    have hstep : (∃ chain', PoolWf (sweepSlot vm p s) chain') ∧ Released p (sweepSlot vm p s) := by
      unfold sweepSlot
      split
      · next hs => exact wf.dropRef hs.1
      · exact ⟨⟨chain, wf⟩, .refl p⟩
    obtain ⟨⟨chain', wf'⟩, hrel⟩ := hstep
    obtain ⟨hwf, hrest⟩ := ih wf'
    exact ⟨hwf, hrel.trans hrest⟩

/-! ## Allocation -/

theorem PoolWf.alloc (wf : PoolWf p chain) (size ownerVm : Nat) :
    (∃ chain', PoolWf (audioPoolAlloc p size ownerVm).2.2 chain') ∧
      Occupied p (audioPoolAlloc p size ownerVm).2.2 := by
  have hnothing : (∃ chain', PoolWf p chain') ∧ Occupied p p :=
    ⟨⟨chain, wf⟩, (SameObjects.refl p).occupied⟩
  unfold audioPoolAlloc
  dsimp only
  split
  · exact hnothing
  · next hroom =>
    cases hslot : findFreeSlot p with
    | none => exact hnothing
    | some slot =>
      have hfree : (p.objects slot).inUse = false := by
        simpa using List.find?_some hslot
      have hnil := wf.chain_eq_nil hfree
      have hhead : slotHead p slot = audioPoolNoBlock := by
        unfold slotHead
        rw [hfree]
        rfl
      obtain ⟨first, l, p₁, hbuild, hblocks, hlen⟩ :=
        wf.blocks.buildChain (s := slot) (blocksNeeded size) hhead
          (show audioPoolNoBlock = _ by rw [hnil]; rfl) (Nat.le_of_not_lt hroom)
      have hsame := buildChain_same slot (blocksNeeded size) p audioPoolNoBlock audioPoolNoBlock
      rw [hbuild] at hsame
      dsimp only
      rw [hbuild]
      dsimp only
      rw [hnil, List.length_nil, Nat.zero_add] at hlen
      obtain ⟨o, ho⟩ : ∃ o : AudioObject, o = ⟨first, size, blocksNeeded size, 1,
        p₁.generations slot, ownerVm, true, 0⟩ := ⟨_, rfl⟩
      rw [← ho]
      have hobjects : ∀ t, t ≠ slot → (setObject p₁ slot o).objects t = p.objects t :=
        fun t ht => by rw [setObject_ne _ ht, hsame.objects]
      have hslots : slotHead (setObject p₁ slot o) =
          update (slotHead p) slot first := by
        funext t
        unfold slotHead
        by_cases ht : t = slot
        · subst ht
          rw [setObject_same, update_self, ho]
          rfl
        · rw [hobjects t ht, update_of_ne ht]
      refine ⟨⟨update chain slot l, ?_, fun t ht => ?_, fun t ht => ?_, fun t => ?_⟩,
        hsame.generations, fun t ht => ?_⟩
      · rw [hslots]
        exact { hblocks with }
      · by_cases hts : t = slot
        · subst hts
          rw [setObject_same, update_self, hlen, ho]
        · rw [hobjects t hts] at ht ⊢
          rw [update_of_ne hts]
          exact wf.length t ht
      · by_cases hts : t = slot
        · subst hts
          rw [setObject_same, ho]
          rfl
        · rw [hobjects t hts] at ht ⊢
          exact (wf.current t ht).trans (by rw [← hsame.generations]; rfl)
      · exact (congrFun hsame.generations t) ▸ wf.generations t
      · by_cases hts : t = slot
        · subst hts
          rw [hfree] at ht
          cases ht
        · rwa [hobjects t hts]

theorem PoolWf.allocWithRate (wf : PoolWf p chain) (size ownerVm sampleRate : Nat) :
    (∃ chain', PoolWf (audioPoolAllocWithRate p size ownerVm sampleRate).2.2 chain') ∧
      Occupied p (audioPoolAllocWithRate p size ownerVm sampleRate).2.2 := by
  obtain ⟨⟨chain', wf'⟩, hocc⟩ := wf.alloc size ownerVm
  unfold audioPoolAllocWithRate
  obtain ⟨⟨r, h, p₁⟩, hp₁⟩ : ∃ a, a = audioPoolAlloc p size ownerVm := ⟨_, rfl⟩
  rw [← hp₁] at wf' hocc ⊢
  dsimp only at wf' hocc
  have hrate : ∀ s, (∃ chain'', PoolWf (setObject p₁ s
      { p₁.objects s with sampleRate := sampleRate }) chain'') ∧
        Occupied p (setObject p₁ s { p₁.objects s with sampleRate := sampleRate }) := by
    refine fun s => ⟨⟨chain', wf'.redescribe (by rfl) (by rfl) (by rfl) (by rfl)⟩, hocc.1, ?_⟩
    intro t ht
    by_cases hts : t = s
    · subst hts
      rw [setObject_same]
      exact hocc.2 t ht
    · rw [setObject_ne _ hts]
      exact hocc.2 t ht
  cases r with
  | ok =>
    dsimp only
    split
    · split
      · exact hrate _
      · exact ⟨⟨chain', wf'⟩, hocc⟩
    · exact ⟨⟨chain', wf'⟩, hocc⟩
  | _ => exact ⟨⟨chain', wf'⟩, hocc⟩

/-! ## Calls -/

inductive PoolCall
  | alloc (size ownerVm : Nat)
  | allocWithRate (size ownerVm sampleRate : Nat)
  | ref (h : AudioObjHandle)
  | unref (h : AudioObjHandle)
  | sweepVm (ownerVm : Nat)
  | write (h : AudioObjHandle) (offset : Nat) (src : List Byte)

def poolStep (p : AudioPool) : PoolCall → AudioPool
  | .alloc size ownerVm => (audioPoolAlloc p size ownerVm).2.2
  | .allocWithRate size ownerVm sampleRate =>
    (audioPoolAllocWithRate p size ownerVm sampleRate).2.2
  | .ref h => (audioPoolRef p h).2
  | .unref h => (audioPoolUnref p h).2.2
  | .sweepVm ownerVm => audioPoolSweepVm p ownerVm
  | .write h offset src => (audioPoolWrite p h offset src).2.2

def poolRun (p : AudioPool) (calls : List PoolCall) : AudioPool := calls.foldl poolStep p

/-- How often the calls free an object of slot `s`. -/
def slotFrees (s : Nat) : AudioPool → List PoolCall → Nat
  | _, [] => 0
  | p, c :: cs =>
    (if (p.objects s).inUse && !((poolStep p c).objects s).inUse then 1 else 0) +
      slotFrees s (poolStep p c) cs

theorem writeChain_blocks (src : List Byte) (n fuel : Nat) (p : AudioPool)
    (written b inOff : Nat) :
    ∃ region, (writeChain src n fuel p written b inOff).2 = { p with region := region } := by
  induction fuel generalizing p written b inOff with
  | zero => exact ⟨p.region, rfl⟩
  | succ fuel ih =>
    unfold writeChain
    split
    · exact ih ..
    · exact ⟨p.region, rfl⟩

theorem audioPoolWrite_blocks (p : AudioPool) (h : AudioObjHandle) (offset : Nat)
    (src : List Byte) :
    ∃ region, (audioPoolWrite p h offset src).2.2 = { p with region := region } := by
  unfold audioPoolWrite
  cases resolve p h with
  | none => exact ⟨p.region, rfl⟩
  | some slot =>
    dsimp only
    split
    · exact ⟨p.region, rfl⟩
    · exact writeChain_blocks ..

theorem poolStep_wf (wf : PoolWf p chain) (c : PoolCall) :
    (∃ chain', PoolWf (poolStep p c) chain') ∧
      (Released p (poolStep p c) ∨ Occupied p (poolStep p c)) := by
  cases c with
  | alloc size ownerVm => exact (wf.alloc size ownerVm).imp_right .inr
  | allocWithRate size ownerVm sampleRate =>
    exact (wf.allocWithRate size ownerVm sampleRate).imp_right .inr
  | ref h =>
    rw [poolStep, audioPoolRef]
    cases resolve p h with
    | none => exact ⟨⟨chain, wf⟩, .inl (.refl p)⟩
    | some s => exact ⟨⟨chain, wf.recount s _⟩, .inl (setObject_released (by rfl))⟩
  | unref h =>
    rw [poolStep, audioPoolUnref]
    cases hs : resolve p h with
    | none => exact ⟨⟨chain, wf⟩, .inl (.refl p)⟩
    | some s => exact (wf.dropRef (resolve_eq_some.mp hs).2.1).imp_right .inl
  | sweepVm ownerVm => exact (wf.sweep ownerVm _).imp_right .inl
  | write h offset src =>
    obtain ⟨region, he⟩ := audioPoolWrite_blocks p h offset src
    rw [poolStep, he]
    exact ⟨⟨chain, ⟨wf.blocks.chains, wf.blocks.map, wf.blocks.count⟩,
      wf.length, wf.current, wf.generations⟩, .inl fun s => .inl ⟨rfl, rfl⟩⟩

/-- A generation after `n` frees of its slot. -/
def laterGeneration (gen n : Nat) : Nat := (gen - 1 + n) % 65535 + 1

theorem nextGeneration_later {gen : Nat} (n : Nat) (hgen : 1 ≤ gen ∧ gen ≤ 65535) :
    laterGeneration (nextGeneration gen) n = laterGeneration gen (1 + n) := by
  unfold laterGeneration nextGeneration
  dsimp only
  split <;> omega

theorem laterGeneration_zero {gen : Nat} (hgen : 1 ≤ gen ∧ gen ≤ 65535) :
    laterGeneration gen 0 = gen := by
  unfold laterGeneration
  omega

theorem laterGeneration_eq_self {gen n : Nat} (hgen : 1 ≤ gen ∧ gen ≤ 65535) :
    laterGeneration gen n = gen ↔ 65535 ∣ n := by
  unfold laterGeneration
  omega

theorem poolStep_generation (wf : PoolWf p chain) (c : PoolCall) (s : Nat) :
    (poolStep p c).generations s =
      if (p.objects s).inUse && !((poolStep p c).objects s).inUse then
        nextGeneration (p.generations s)
      else p.generations s := by
  rcases (poolStep_wf wf c).2 with hrel | hocc
  · rcases hrel s with ⟨huse, hgen⟩ | ⟨huse, hfree, hgen⟩
    · rw [huse, Bool.and_not_self, hgen]
      rfl
    · rw [huse, hfree, hgen]
      rfl
  · rw [hocc.1]
    cases huse : (p.objects s).inUse with
    | false => rfl
    | true =>
      rw [hocc.2 s huse]
      rfl

/-- The blocks stay in order, and the generation of a slot counts the frees of the slot. -/
theorem poolRun_wf (wf : PoolWf p chain) (calls : List PoolCall) :
    (∃ chain', PoolWf (poolRun p calls) chain') ∧
      ∀ s, (poolRun p calls).generations s =
        laterGeneration (p.generations s) (slotFrees s p calls) := by
  induction calls generalizing p chain with
  | nil => exact ⟨⟨chain, wf⟩, fun s => (laterGeneration_zero (wf.generations s)).symm⟩
  | cons c cs ih =>
    obtain ⟨⟨chain', wf'⟩, -⟩ := poolStep_wf wf c
    obtain ⟨hwf, hgen⟩ := ih wf'
    refine ⟨hwf, fun s => (hgen s).trans ?_⟩
    rw [poolStep_generation wf, slotFrees]
    split
    · exact nextGeneration_later _ (wf.generations s)
    · rw [Nat.zero_add]

theorem packHandle_generation {gen gen' : Nat} (h : packHandle s gen = packHandle s gen') :
    gen = gen' := by
  unfold packHandle at h
  omega

theorem poolRun_resolve (wf : PoolWf p chain) (hs : resolve p h = some s) (calls : List PoolCall)
    (t : Nat) : resolve (poolRun p calls) h = some t ↔
      t = s ∧ ((poolRun p calls).objects s).inUse = true ∧ 65535 ∣ slotFrees s p calls := by
  obtain ⟨⟨chain', wf'⟩, hgen⟩ := poolRun_wf wf calls
  obtain ⟨hlt, huse, hh⟩ := resolve_eq_some.mp hs
  rw [resolve_eq_some]
  have hback : ((poolRun p calls).objects s).inUse = true →
      (((poolRun p calls).objects s).generation = (p.objects s).generation ↔
        65535 ∣ slotFrees s p calls) := fun huse' => by
    rw [wf'.current s huse', wf.current s huse, hgen s]
    exact laterGeneration_eq_self (wf.generations s)
  constructor
  · rintro ⟨htlt, htuse, htpack⟩
    obtain rfl := packHandle_slot hlt htlt (hh.symm.trans htpack)
    refine ⟨rfl, htuse, (hback htuse).mp ?_⟩
    exact (packHandle_generation (hh.symm.trans htpack)).symm
  · rintro ⟨rfl, htuse, hdvd⟩
    exact ⟨hlt, htuse, by rw [(hback htuse).mpr hdvd, hh]⟩

/-- After every sequence of calls the pool is well formed, and a handle that named the object of a
slot names one again exactly while the slot is in use and has been freed a multiple of 65535 times
since. -/
theorem pool_runs {region : Mem} {regionSize : Nat}
    (hinit : audioPoolInit region regionSize = (.ok, p)) (calls : List PoolCall) :
    (∃ chain, PoolWf (poolRun p calls) chain) ∧
      ∀ h s, resolve (poolRun p calls) h = some s → ∀ later t,
        resolve (poolRun (poolRun p calls) later) h = some t ↔
          t = s ∧ ((poolRun (poolRun p calls) later).objects s).inUse = true ∧
            65535 ∣ slotFrees s (poolRun p calls) later := by
  obtain ⟨⟨chain, wf⟩, -⟩ := poolRun_wf (audioPoolInit_wf hinit).1 calls
  exact ⟨⟨chain, wf⟩, fun h s hs later t => poolRun_resolve wf hs later t⟩

/-- Two objects of a block each; the first is released, and a third one takes its slot. -/
theorem pool_runs_two_objects :
    let p := poolRun (audioPoolInit (fun _ => 0) 16384).2 [.alloc 1 0, .alloc 1 1]
    let later := poolRun p [.unref 0x10001, .alloc 1 2]
    (later.objects 0).inUse = true ∧ resolve later 0x10002 = some 1 ∧
      ∀ t, resolve later 0x10001 ≠ some t := by
  have hruns := (pool_runs (show audioPoolInit (fun _ => 0) 16384 = (.ok, _) from rfl)
    [.alloc 1 0, .alloc 1 1]).2
  refine ⟨by decide +kernel, ?_, fun t ht => ?_⟩
  · exact (hruns 0x10002 1 (by decide +kernel) _ 1).mpr
      ⟨rfl, by decide +kernel, by decide +kernel⟩
  · exact absurd ((hruns 0x10001 0 (by decide +kernel) _ t).mp ht).2.2 (by decide +kernel)

/-- A history that leaves no object, whatever failed in it, leaves every block free. -/
theorem pool_released {region : Mem} {regionSize : Nat}
    (hinit : audioPoolInit region regionSize = (.ok, p)) (calls : List PoolCall)
    (hidle : ∀ s, ((poolRun p calls).objects s).inUse = false) :
    (poolRun p calls).freeBlocks = (poolRun p calls).blockCount := by
  obtain ⟨⟨chain, wf⟩, -⟩ := poolRun_wf (audioPoolInit_wf hinit).1 calls
  have hclear : ∀ b ∈ List.range (poolRun p calls).blockCount,
      !(poolRun p calls).usedMap.bitsetTest b := by
    intro b hb
    rw [Bool.not_eq_true', ← Bool.not_eq_true,
      wf.blocks.chains.used_iff (List.mem_range.mp hb)]
    rintro ⟨s, hs⟩
    rw [wf.chain_eq_nil (hidle s)] at hs
    cases hs
  rw [wf.blocks.count, List.countP_eq_length.mpr hclear, List.length_range]

/-- A request for more than there is. -/
theorem pool_released_refused :
    (poolRun (audioPoolInit (fun _ => 0) 8192).2 [.alloc 10000 0]).freeBlocks = 1 :=
  pool_released (show audioPoolInit (fun _ => 0) 8192 = (.ok, _) from rfl) _ fun _ => rfl

/-! ## One slot, over and over -/

/-- One object, in the first slot, held once. -/
structure Busy (p : AudioPool) : Prop where
  wf : ∃ chain, PoolWf p chain
  room : 0 < p.blockCount
  use : (p.objects 0).inUse = true
  held : (p.objects 0).refcount = 1
  idle : ∀ s, s ≠ 0 → (p.objects s).inUse = false

theorem freeChainLoop_blockCount (fuel : Nat) (p : AudioPool) (b : Nat) :
    (freeChainLoop fuel p b).blockCount = p.blockCount := by
  induction fuel generalizing p b with
  | zero => rfl
  | succ fuel ih =>
    unfold freeChainLoop
    split
    · rfl
    · refine (ih ..).trans ?_
      unfold freeOneBlock
      dsimp only
      split
      · rfl
      · split <;> rfl

theorem allocOneBlock_blockCount {b : Nat} (h : allocOneBlock p = some (b, p')) :
    p'.blockCount = p.blockCount := by
  unfold allocOneBlock at h
  split at h
  · cases h
  · split at h
    · cases h
    · cases h
      rfl

theorem buildChain_blockCount (slot need : Nat) (p : AudioPool) (head prev : Nat) :
    (buildChain slot need p head prev).2.blockCount = p.blockCount := by
  induction need generalizing p head prev with
  | zero => rfl
  | succ need ih =>
    unfold buildChain
    cases ha : allocOneBlock p with
    | none => exact freeChainLoop_blockCount ..
    | some bp =>
      have hcount := allocOneBlock_blockCount ha
      dsimp only
      split <;> exact (ih ..).trans hcount

theorem busy_of_idle (wf : PoolWf p chain) (hroom : 0 < p.blockCount)
    (hidle : ∀ s, (p.objects s).inUse = false) :
    Busy (poolStep p (.alloc 1 0)) ∧ (poolStep p (.alloc 1 0)).generations = p.generations := by
  obtain ⟨hwf, hocc⟩ := wf.alloc 1 0
  have hfree : blocksNeeded 1 ≤ p.freeBlocks := by
    rw [wf.blocks.count, List.countP_eq_length.mpr fun b hb => ?_, List.length_range]
    · exact hroom
    · rw [Bool.not_eq_true', Bool.eq_false_iff]
      intro hused
      obtain ⟨s, hs⟩ := (wf.blocks.chains.used_iff (List.mem_range.mp hb)).mp hused
      rw [wf.chain_eq_nil (hidle s)] at hs
      cases hs
  have hslot : findFreeSlot p = some 0 := by
    unfold findFreeSlot
    rw [show audioPoolMaxObjects = 255 + 1 from rfl, List.range_succ_eq_map,
      List.find?_cons_of_pos (by rw [hidle]; rfl)]
  have hhead : slotHead p 0 = audioPoolNoBlock := by
    unfold slotHead
    rw [hidle]
    rfl
  obtain ⟨first, l, p₁, hbuild, hblocks, -⟩ :=
    wf.blocks.buildChain (s := 0) (blocksNeeded 1) hhead
      (show audioPoolNoBlock = _ by rw [wf.chain_eq_nil (hidle 0)]; rfl) hfree
  have hsame := buildChain_same 0 (blocksNeeded 1) p audioPoolNoBlock audioPoolNoBlock
  have hcount := buildChain_blockCount 0 (blocksNeeded 1) p audioPoolNoBlock audioPoolNoBlock
  rw [hbuild] at hsame hcount
  rw [poolStep]
  unfold audioPoolAlloc at hwf ⊢
  dsimp only at hwf ⊢
  rw [if_neg (Nat.not_lt.mpr hfree), hslot] at hwf ⊢
  dsimp only at hwf ⊢
  rw [hbuild] at hwf ⊢
  refine ⟨⟨hwf, hcount ▸ hroom, ?_, ?_, fun s hs => ?_⟩, hsame.generations⟩
  · rw [setObject_same]
  · rw [setObject_same]
  · rw [setObject_ne _ hs, hsame.objects, hidle]

theorem Busy.turn (busy : Busy p) :
    ((poolStep p (.unref (packHandle 0 (p.generations 0)))).objects 0).inUse = false ∧
      Busy (poolStep (poolStep p (.unref (packHandle 0 (p.generations 0)))) (.alloc 1 0)) ∧
      (poolStep (poolStep p (.unref (packHandle 0 (p.generations 0)))) (.alloc 1 0)).generations 0 =
        nextGeneration (p.generations 0) := by
  obtain ⟨chain, wf⟩ := busy.wf
  have hresolve : resolve p (packHandle 0 (p.generations 0)) = some 0 := by
    rw [← wf.current 0 busy.use]
    exact resolve_pack (by decide) busy.use
  obtain ⟨p₁, hp₁⟩ : ∃ p₁, p₁ =
      setObject p 0 { p.objects 0 with refcount := (p.objects 0).refcount - 1 } := ⟨_, rfl⟩
  have hstep : poolStep p (.unref (packHandle 0 (p.generations 0))) = freeObject p₁ 0 := by
    rw [poolStep, audioPoolUnref_spec hresolve]
    unfold dropRef
    dsimp only
    rw [← hp₁, if_pos]
    rw [hp₁, setObject_same, busy.held]
    exact Int.le_refl 0
  obtain ⟨⟨chain', wf'⟩, -⟩ := poolStep_wf wf (.unref (packHandle 0 (p.generations 0)))
  rw [hstep] at wf' ⊢
  have hidle : ∀ s, ((freeObject p₁ 0).objects s).inUse = false := by
    intro s
    rw [freeObject_objects]
    by_cases hs : s = 0
    · rw [hs, setObject_same]
      rfl
    · rw [setObject_ne _ hs, hp₁, setObject_ne _ hs, busy.idle s hs]
  have hroom : 0 < (freeObject p₁ 0).blockCount := by
    have hkeep : (freeObject p₁ 0).blockCount = p₁.blockCount := freeChainLoop_blockCount ..
    rw [hkeep, hp₁]
    exact busy.room
  obtain ⟨hbusy, hgen⟩ := busy_of_idle wf' hroom hidle
  refine ⟨hidle 0, hbusy, ?_⟩
  rw [hgen, freeObject_generations, hp₁]
  exact if_pos rfl

/-- `n` turns, the first with the handle of generation `gen`. -/
def turns : Nat → Nat → List PoolCall
  | _, 0 => []
  | gen, n + 1 => .unref (packHandle 0 gen) :: .alloc 1 0 :: turns (nextGeneration gen) n

theorem Busy.turns (n : Nat) (busy : Busy p) :
    Busy (poolRun p (turns (p.generations 0) n)) ∧
      slotFrees 0 p (turns (p.generations 0) n) = n := by
  induction n generalizing p with
  | zero => exact ⟨busy, rfl⟩
  | succ n ih =>
    obtain ⟨hfree, hbusy, hgen⟩ := busy.turn
    obtain ⟨hrun, hfrees⟩ := ih hbusy
    rw [hgen] at hrun hfrees
    refine ⟨hrun, ?_⟩
    rw [Audio.turns, slotFrees, slotFrees, hfrees, busy.use, hfree]
    simp
    omega

/-- After 65535 frees the first handle of the slot names the object then in it. -/
theorem handle_reused : ¬∀ (region : Mem) (regionSize : Nat) (p : AudioPool),
    audioPoolInit region regionSize = (.ok, p) → ∀ calls h s,
      resolve (poolRun p calls) h = some s → ∀ later,
        0 < slotFrees s (poolRun p calls) later → slotFrees s (poolRun p calls) later < 65536 →
          resolve (poolRun (poolRun p calls) later) h = none := by
  intro hclaim
  obtain ⟨p, hinit⟩ : ∃ p, audioPoolInit (fun _ => 0) 8192 = (.ok, p) := ⟨_, rfl⟩
  obtain ⟨wf, hidle⟩ := audioPoolInit_wf hinit
  have hroom : 0 < p.blockCount := by
    cases hinit
    decide
  obtain ⟨busy, -⟩ := busy_of_idle wf hroom hidle
  obtain ⟨chain, wf₁⟩ := busy.wf
  have hresolve := resolve_pack (p := poolStep p (.alloc 1 0)) (by decide) busy.use
  obtain ⟨busy', hfrees⟩ := busy.turns 65535
  have hstale := hclaim _ _ p hinit [.alloc 1 0] _ 0 hresolve
    (turns ((poolStep p (.alloc 1 0)).generations 0) 65535)
  have hnone := hstale (by rw [poolRun, List.foldl_cons, List.foldl_nil, hfrees]; decide)
    (by rw [poolRun, List.foldl_cons, List.foldl_nil, hfrees]; decide)
  have hsome := (poolRun_resolve wf₁ hresolve
    (turns ((poolStep p (.alloc 1 0)).generations 0) 65535) 0).mpr
      ⟨rfl, busy'.use, by rw [hfrees]⟩
  cases hnone.symm.trans hsome

end Microgarbage.Audio
