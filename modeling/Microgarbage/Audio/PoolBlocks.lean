import Microgarbage.Audio.PoolRefs
import Microgarbage.Lib.BlockChains

/-!
# Blocks and generations of the pool

The block chains of the live objects share the used map out among them, and the count of free blocks
is the map's. A slot's generation counts the frees of the slot, modulo 65535: it never is 0.
-/

namespace Microgarbage.Audio

open Lib Containers
open Function (update update_eq_self update_idem update_self)

/-! ## The free map -/

/-- A bit set for `n` blocks. -/
structure BlockMap (map : WordBitset .bits64) (n : Nat) : Prop where
  nbits : map.nbits.toNat = n
  small : n ≤ audioPoolNoBlock
  bits : ∃ used, map.Represents used

namespace BlockMap

variable {map : WordBitset .bits64} {n b : Nat}

theorem words (h : BlockMap map n) : map.nwords.toNat = (map.nbits.toNat + 31) / 32 := by
  obtain ⟨used, hused⟩ := h.bits
  have hsmall : map.nbits.toNat ≤ 0xFFFFFFFF := h.nbits ▸ h.small
  have hfits : map.nbits.toNat + 31 < 2 ^ Abi.bits64.width :=
    Nat.lt_of_le_of_lt (Nat.add_le_add_right hsmall 31) (by decide)
  rw [hused.sized, toNat_bitsetWords, Nat.mod_eq_of_lt hfits]

/-- What a call leaves, over the set of the blocks in use. -/
theorem call (h : BlockMap map n) (c : BitsetCall) : ∃ used, map.Represents used ∧
    (∀ y, map.bitsetTest y = decide (y ∈ used)) ∧ BlockMap (map.call c).1 n ∧
      (∀ y, (map.call c).1.bitsetTest y = decide (y ∈ (indexSetCall n used c).1)) ∧
        (map.call c).2 = (indexSetCall n used c).2 := by
  obtain ⟨used, hused⟩ := h.bits
  obtain ⟨hnbits, hcall, hreply⟩ := WordBitset.call_spec hused h.words c
  rw [h.nbits] at hcall hreply
  have hafter : BlockMap (map.call c).1 n := ⟨hnbits ▸ h.nbits, h.small, _, hcall⟩
  exact ⟨used, hused, WordBitset.test_eq hused h.words, hafter,
    WordBitset.test_eq hcall hafter.words, hreply⟩

theorem set (h : BlockMap map n) (hb : b < n) : BlockMap (map.bitsetSet b) n ∧
    ∀ y, (map.bitsetSet b).bitsetTest y = if y = b then true else map.bitsetTest y := by
  obtain ⟨used, -, htest, hafter, hset, -⟩ := h.call (.set b)
  refine ⟨hafter, fun y => (hset y).trans ?_⟩
  simp only [indexSetCall, if_pos hb, Finset.mem_insert, htest]
  split <;> simp_all

theorem clear (h : BlockMap map n) (b : Nat) : BlockMap (map.bitsetClear b) n ∧
    ∀ y, (map.bitsetClear b).bitsetTest y = if y = b then false else map.bitsetTest y := by
  obtain ⟨used, -, htest, hafter, hclear, -⟩ := h.call (.clear b)
  refine ⟨hafter, fun y => (hclear y).trans ?_⟩
  simp only [indexSetCall, Finset.mem_erase, htest]
  split <;> simp_all

/-- A clear block is found while there is one. -/
theorem findFirstClear (h : BlockMap map n) (hb : b < n) (hclear : map.bitsetTest b = false) :
    ∃ map' b', map.bitsetFindFirstClear = (map', some b') ∧ b' < n ∧
      map.bitsetTest b' = false ∧ BlockMap map' n ∧ ∀ y, map'.bitsetTest y = map.bitsetTest y := by
  obtain ⟨used, -, htest, hafter, hsame, hreply⟩ := h.call .findFirstClear
  have hne : (Finset.range n \ used).Nonempty := by
    rw [htest, decide_eq_false_iff_not] at hclear
    exact ⟨b, Finset.mem_sdiff.mpr ⟨Finset.mem_range.mpr hb, hclear⟩⟩
  have hmem := Finset.mem_sdiff.mp ((Finset.range n \ used).min'_mem hne)
  have hfound : map.bitsetFindFirstClear.2 = some ((Finset.range n \ used).min' hne) :=
    (BitsetReply.index.inj hreply).trans (dif_pos hne)
  refine ⟨_, _, Prod.ext rfl hfound, Finset.mem_range.mp hmem.1, ?_, hafter, fun y => ?_⟩
  · rw [htest]
    exact decide_eq_false hmem.2
  · rw [htest]
    exact hsame y

end BlockMap

/-- The map of a new pool has every block clear. -/
theorem blockMap_init {n : Nat} (hsmall : n ≤ audioPoolNoBlock) :
    let map : WordBitset .bits64 := (WordBitset.bitsetInit (fun _ => 0) n).bitsetClearAll
    BlockMap map n ∧ ∀ b, map.bitsetTest b = false := by
  have hnbits : (n : SizeT .bits64).toNat = n :=
    Nat.mod_eq_of_lt (Nat.lt_of_le_of_lt hsmall (by decide))
  have hinit : BlockMap (WordBitset.bitsetInit (fun _ => 0) n) n :=
    ⟨hnbits, hsmall, ∅, rfl, fun i _ => by simp [WordBitset.bit, WordBitset.bitsetInit], nofun,
      Nat.zero_le _, fun _ _ hw => absurd hw (Nat.not_lt_zero _)⟩
  obtain ⟨_, -, -, hafter, hclear, -⟩ := hinit.call .clearAll
  exact ⟨hafter, hclear⟩

/-! ## Blocks -/

/-- What the blocks of the pool owe to the chains of its slots. -/
structure Blocks (p : AudioPool) (head : Nat → Nat) (chain : Nat → List Nat) : Prop where
  chains : Chains p.blockCount p.next audioPoolNoBlock p.usedMap.bitsetTest head chain
  map : BlockMap p.usedMap p.blockCount
  count : p.freeBlocks = (List.range p.blockCount).countP fun b => !p.usedMap.bitsetTest b

section Blocks

variable {p : AudioPool} {head : Nat → Nat} {chain : Nat → List Nat} {s : Nat}

/-- While the count says so there is a free block, and taking it is one less. -/
theorem Blocks.allocOneBlock (h : Blocks p head chain) (hfree : 0 < p.freeBlocks) :
    ∃ b map, allocOneBlock p =
        some (b, { p with usedMap := map, freeBlocks := p.freeBlocks - 1 }) ∧
      b < p.blockCount ∧ p.usedMap.bitsetTest b = false ∧ BlockMap map p.blockCount ∧
      ∀ y, map.bitsetTest y = if y = b then true else p.usedMap.bitsetTest y := by
  rw [h.count] at hfree
  obtain ⟨free, hin, hfree'⟩ := List.countP_pos_iff.mp hfree
  obtain ⟨map, b, hfind, hb, hclear, hmap, hsame⟩ :=
    h.map.findFirstClear (List.mem_range.mp hin) (Bool.not_eq_true' _ ▸ hfree')
  obtain ⟨hset, htest⟩ := hmap.set hb
  refine ⟨b, map.bitsetSet b, ?_, hb, hclear, hset, fun y => by rw [htest, hsame]⟩
  unfold Audio.allocOneBlock
  rw [if_neg (by rw [h.count]; exact Nat.ne_of_gt hfree), hfind]

theorem Blocks.grow (h : Blocks p head chain) {b : Nat} {map : WordBitset .bits64} (first : Nat)
    (owner' next' : Nat → Nat) (hb : b < p.blockCount) (hclear : p.usedMap.bitsetTest b = false)
    (hmap : BlockMap map p.blockCount)
    (hset : ∀ y, map.bitsetTest y = if y = b then true else p.usedMap.bitsetTest y)
    (hfirst : first = if chain s = [] then b else head s) (hend : next' b = audioPoolNoBlock)
    (hlink : ∀ last, (chain s).getLast? = some last → next' last = b)
    (hnext : ∀ y, y ≠ b → (chain s).getLast? ≠ some y → next' y = p.next y) :
    Blocks { p with usedMap := map, freeBlocks := p.freeBlocks - 1, owner := owner', next := next' }
      (update head s first) (update chain s (chain s ++ [b])) where
  chains := h.chains.grow hb (Nat.ne_of_lt (Nat.lt_of_lt_of_le hb h.map.small)) hclear hfirst hend hlink
    hnext hset
  map := hmap
  count := by
    have hflip := countP_flip (p := fun b => !p.usedMap.bitsetTest b)
      (q := fun b => !map.bitsetTest b) List.nodup_range (List.mem_range.mpr hb)
      (by rw [hclear]; rfl) (by rw [hset, if_pos rfl]; rfl)
      fun c _ hne => by rw [hset, if_neg hne]
    rw [← h.count] at hflip
    exact (congrArg (· - 1) hflip).trans (Nat.add_sub_cancel ..)

theorem Blocks.length_free (h : Blocks p head chain) {b : Nat} {bs : List Nat}
    (hs : chain s = b :: bs) : b < p.blockCount ∧ p.usedMap.bitsetTest b = true := by
  have hb : b ∈ chain s := hs ▸ List.mem_cons_self ..
  exact ⟨h.chains.inside hb, (h.chains.used_iff (h.chains.inside hb)).mpr ⟨s, hb⟩⟩

theorem Blocks.freeOneBlock (h : Blocks p head chain) {b : Nat} {bs : List Nat}
    (hs : chain s = b :: bs) :
    Blocks (freeOneBlock p b) (update head s (p.next b)) (update chain s bs) := by
  obtain ⟨hb, hused⟩ := h.length_free hs
  obtain ⟨hmap, hclear⟩ := h.map.clear b
  unfold Audio.freeOneBlock
  rw [if_neg (Nat.not_le.mpr hb), if_pos hused]
  refine ⟨h.chains.shrink hs (fun y hy => if_neg hy) hclear, hmap, ?_⟩
  have hflip := countP_flip (p := fun c => !(p.usedMap.bitsetClear b).bitsetTest c)
    (q := fun c => !p.usedMap.bitsetTest c) List.nodup_range (List.mem_range.mpr hb)
    (by rw [hclear, if_pos rfl]; rfl) (by rw [hused]; rfl)
    fun c _ hne => by rw [hclear, if_neg hne]
  dsimp only
  rw [h.count]
  exact hflip.symm

theorem Blocks.freeChainLoop (fuel : Nat) {l : List Nat} (h : Blocks p head chain)
    (hs : chain s = l) (hfuel : l.length ≤ fuel) :
    Blocks (freeChainLoop fuel p (head s)) (update head s audioPoolNoBlock)
      (update chain s []) := by
  have hwalk := h.chains.walk s
  rw [hs] at hwalk
  induction l generalizing p head chain fuel with
  | nil =>
    have hdone : Blocks p (update head s audioPoolNoBlock)
        (update chain s []) := by
      rw [← hs, update_eq_self, ← (show head s = audioPoolNoBlock from hwalk),
        update_eq_self]
      exact h
    cases fuel with
    | zero => exact hdone
    | succ fuel =>
      rw [Audio.freeChainLoop, if_pos (show head s = audioPoolNoBlock from hwalk)]
      exact hdone
  | cons b bs ih =>
    obtain ⟨hhead, hmark, hrest⟩ := hwalk
    cases fuel with
    | zero => cases hfuel
    | succ fuel =>
      have hstep := h.freeOneBlock hs
      have hrec := ih fuel hstep (update_self ..) (Nat.le_of_succ_le_succ hfuel)
      rw [update_idem, update_idem, update_self] at hrec
      rw [Audio.freeChainLoop, hhead, if_neg hmark]
      refine hrec ?_
      have hwalk' := hstep.chains.walk s
      rwa [update_self, update_self] at hwalk'

theorem Blocks.freeChain (h : Blocks p head chain) (s : Nat) :
    Blocks (freeChain p (head s)) (update head s audioPoolNoBlock)
      (update chain s []) :=
  h.freeChainLoop _ rfl (h.chains.length_le s)

theorem Blocks.buildChain (need : Nat) {head prev : Nat} {heads : Nat → Nat}
    (h : Blocks p heads chain) (hhead : heads s = head)
    (hprev : prev = (chain s).getLast?.getD audioPoolNoBlock) (hneed : need ≤ p.freeBlocks) :
    ∃ first l p', buildChain s need p head prev = (some first, p') ∧
      Blocks p' (update heads s first) (update chain s l) ∧
      l.length = (chain s).length + need := by
  induction need generalizing p heads chain head prev with
  | zero =>
    refine ⟨head, chain s, p, rfl, ?_, rfl⟩
    rw [← hhead, update_eq_self, update_eq_self]
    exact h
  | succ need ih =>
    obtain ⟨b, map, halloc, hb, hclear, hmap, hset⟩ := h.allocOneBlock (by omega)
    have hbmark : b ≠ audioPoolNoBlock := Nat.ne_of_lt (Nat.lt_of_lt_of_le hb h.map.small)
    rw [Audio.buildChain, halloc]
    dsimp only
    have hrest {first : Nat} {q : AudioPool} (hfree : q.freeBlocks = p.freeBlocks - 1)
        (hgrow : Blocks q (update heads s first)
          (update chain s (chain s ++ [b]))) :
        ∃ first' l p', Audio.buildChain s need q first b = (some first', p') ∧
          Blocks p' (update heads s first') (update chain s l) ∧
          l.length = (chain s).length + (need + 1) := by
      have hend : b = ((update chain s (chain s ++ [b])) s).getLast?.getD
          audioPoolNoBlock := by
        rw [update_self, List.getLast?_concat]
        rfl
      obtain ⟨first', l, p', hbuild, hblocks, hlen⟩ := ih hgrow (update_self ..) hend
        (by omega)
      rw [update_idem, update_idem] at hblocks
      rw [update_self, List.length_append, List.length_singleton] at hlen
      exact ⟨first', l, p', hbuild, hblocks, by omega⟩
    cases hlast : (chain s).getLast? with
    | none =>
      have hnil : chain s = [] := List.getLast?_eq_none_iff.mp hlast
      rw [hlast, Option.getD_none] at hprev
      rw [if_pos hprev]
      exact hrest rfl (h.grow b _ _ hb hclear hmap hset (by rw [if_pos hnil]) (if_pos rfl)
        (by rw [hlast]; exact nofun) fun y hy _ => if_neg hy)
    | some last =>
      have hmem := List.mem_of_getLast? hlast
      have hlastb : last ≠ b := fun e => h.chains.free_notMem hb hclear s (e ▸ hmem)
      have hlastmark : last ≠ audioPoolNoBlock :=
        Nat.ne_of_lt (Nat.lt_of_lt_of_le (h.chains.inside hmem) h.map.small)
      rw [hlast, Option.getD_some] at hprev
      rw [hprev, if_neg hlastmark]
      refine hrest rfl (h.grow head _ _ hb hclear hmap hset
        (by rw [if_neg (List.ne_nil_of_mem hmem), hhead])
        ((if_neg (Ne.symm hlastb)).trans (if_pos rfl)) (fun last' hl => ?_) fun y hy hyl =>
          (if_neg fun e => hyl (hlast.trans (congrArg some e.symm))).trans (if_neg hy))
      rw [hlast] at hl
      rw [← Option.some.inj hl]
      exact if_pos rfl

end Blocks

end Microgarbage.Audio
