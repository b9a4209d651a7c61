import Microgarbage.Lib.Transition
import Microgarbage.Memory.SlabSpec

/-!
# Initialisation

`slab_init` carves the region in two passes, each a fold over the bins: the stack arrays, then the
blocks. For every configuration it accepts, the parts fit and are apart, and the allocator starts
with every block on its stack.
-/

namespace Microgarbage.Memory

open Lib List

/-! ## The stack arrays -/

section Stacks

variable (a₀ : SlabAllocator)

/-- The stack arrays carved so far, from `a₀.region` up to the cursor. -/
structure StacksCarved (done : List Bin) (s : SlabAllocator × Nat) : Prop where
  handle : s.1 = { a₀ with bins := s.1.bins }
  bins : ∀ i, s.1.bins i = { a₀.bins i with stack := (s.1.bins i).stack }
  cursor : s.2 = a₀.region + (done.map fun i => 8 * count a₀ i).sum
  inside : ∀ i ∈ done, count a₀ i ≠ 0 → a₀.region ≤ (s.1.bins i).stack ∧
    (s.1.bins i).stack + 8 * count a₀ i ≤ s.2
  apart : ∀ i ∈ done, ∀ j ∈ done, i ≠ j → count a₀ i ≠ 0 → count a₀ j ≠ 0 →
    (s.1.bins i).stack + 8 * count a₀ i ≤ (s.1.bins j).stack ∨
      (s.1.bins j).stack + 8 * count a₀ j ≤ (s.1.bins i).stack

theorem sum_done (f : Bin → Nat) (done : List Bin) (i : Bin) :
    ((done ++ [i]).map f).sum = (done.map f).sum + f i := by
  rw [map_append, sum_append, map_singleton, sum_singleton]

theorem carveStack_carved {done : List Bin} {i : Bin} {s : SlabAllocator × Nat} (hi : i ∉ done)
    (h : StacksCarved a₀ done s) : StacksCarved a₀ (done ++ [i]) (carveStack s i) := by
  obtain ⟨a, cursor⟩ := s
  obtain ⟨hhandle, hbins, hcursor, hinside, hapart⟩ := h
  dsimp only at hhandle hbins hcursor hinside hapart
  have hcount : (a.bins i).bucketCount.toNat = count a₀ i := by
    rw [hbins]
    rfl
  have hsum := sum_done (fun i => 8 * count a₀ i) done i
  unfold carveStack
  dsimp only
  by_cases hz : (a.bins i).bucketCount = 0
  · have hzero : count a₀ i = 0 := by
      rw [← hcount, hz]
      rfl
    rw [if_pos hz]
    refine ⟨hhandle, hbins, ?_, fun j hj hne => ?_, fun j hj k hk hjk hj0 hk0 => ?_⟩
    · rw [hsum, hzero]
      exact hcursor
    · rcases mem_append.mp hj with hj | hj
      · exact hinside j hj hne
      · rw [mem_singleton.mp hj] at hne
        exact absurd hzero hne
    · rcases mem_append.mp hj with hj | hj
      · rcases mem_append.mp hk with hk | hk
        · exact hapart j hj k hk hjk hj0 hk0
        · rw [mem_singleton.mp hk] at hk0
          exact absurd hzero hk0
      · rw [mem_singleton.mp hj] at hj0
        exact absurd hzero hj0
  · rw [if_neg hz]
    have hupd : ∀ j, (a.setBin i { a.bins i with stack := cursor }).bins j =
        if j = i then { a.bins i with stack := cursor } else a.bins j := fun j =>
      Function.update_apply ..
    generalize hb : a.setBin i { a.bins i with stack := cursor } = b at hupd
    have hself : (b.bins i).stack = cursor := by rw [hupd, if_pos rfl]
    have hother : ∀ j ∈ done, b.bins j = a.bins j := fun j hj =>
      (hupd j).trans (if_neg fun e : j = i => hi (e ▸ hj))
    refine ⟨?_, fun j => ?_, ?_, fun j hj hne => ?_, fun j hj k hk hjk hj0 hk0 => ?_⟩
    · rw [← hb]
      unfold SlabAllocator.setBin
      dsimp only
      rw [hhandle]
    · dsimp only
      rw [hupd]
      split
      · next hj =>
        rw [hj, hbins i]
      · exact hbins j
    · dsimp only
      rw [hsum, hcursor, hcount, Nat.mul_comm 8 (count a₀ i), Nat.add_assoc]
    · dsimp only
      rw [hcount]
      rcases mem_append.mp hj with hj | hj
      · have hold := hinside j hj hne
        rw [hother j hj]
        omega
      · rw [mem_singleton.mp hj, hself]
        omega
    · dsimp only
      rcases mem_append.mp hj with hj | hj
      · rcases mem_append.mp hk with hk | hk
        · rw [hother j hj, hother k hk]
          exact hapart j hj k hk hjk hj0 hk0
        · rw [mem_singleton.mp hk, hself, hother j hj]
          exact .inl (hinside j hj hj0).2
      · rcases mem_append.mp hk with hk | hk
        · rw [mem_singleton.mp hj, hself, hother k hk]
          exact .inr (hinside k hk hk0).2
        · exact absurd ((mem_singleton.mp hj).trans (mem_singleton.mp hk).symm) hjk

end Stacks

/-! ## The blocks of one bin -/

/-- The headers of `n` blocks from `cursor` on and their stack entries, and nothing else. -/
structure BlocksWritten (i : Bin) (cursor total stack n : Nat) (mem mem' : Mem) : Prop where
  bin : ∀ k < n, mem'.load32 (cursor + k * total + 4) = BitVec.ofNat 32 i.val
  magic : ∀ k < n, mem'.load32 (cursor + k * total) = slabMagicFreed
  entry : ∀ k < n, mem'.load64 (stack + 8 * k) =
    BitVec.ofNat 64 (cursor + k * total + slabHeaderSize)
  frame : ∀ x, x < stack ∨ stack + 8 * n ≤ x → x < cursor ∨ cursor + n * total ≤ x →
    mem' x = mem x

theorem initBlock_written (i : Bin) {cursor total stack : Nat} (htotal : slabHeaderSize ≤ total)
    (mem : Mem) (n : Nat) (hstack : stack + 8 * n ≤ cursor) :
    BlocksWritten i cursor total stack n mem
      ((List.range n).foldl (initBlock i cursor total stack) mem) := by
  unfold slabHeaderSize at htotal
  induction n with
  | zero => exact ⟨nofun, nofun, nofun, fun _ _ _ => rfl⟩
  | succ n ih =>
    obtain ⟨hbin, hmagic, hentry, hframe⟩ := ih (by omega)
    rw [range_succ, foldl_append, foldl_cons, foldl_nil]
    generalize (List.range n).foldl (initBlock i cursor total stack) mem = m at *
    -- the earlier blocks end where this one starts
    have hbelow : ∀ k < n, cursor + k * total + 8 ≤ cursor + n * total := by
      intro k hk
      have hmul := Nat.mul_le_mul_right total (Nat.succ_le_of_lt hk)
      rw [Nat.succ_mul] at hmul
      omega
    have hlast : (n + 1) * total = n * total + total := Nat.succ_mul n total
    unfold initBlock slabHeaderSize
    dsimp only
    refine ⟨fun k hk => ?_, fun k hk => ?_, fun k hk => ?_, fun x hx hx' => ?_⟩
    · rw [Mem.load32_store_out (.inr (by omega))]
      rcases Nat.lt_succ_iff_lt_or_eq.mp hk with hlt | rfl
      · have hb := hbelow k hlt
        rw [Mem.load32_store_out (.inl (by omega)), Mem.load32_store_out (.inl (by omega))]
        exact hbin k hlt
      · rw [Mem.load32_store_out (.inr (by omega))]
        exact Mem.load32_store ..
    · rw [Mem.load32_store_out (.inr (by omega))]
      rcases Nat.lt_succ_iff_lt_or_eq.mp hk with hlt | rfl
      · have hb := hbelow k hlt
        rw [Mem.load32_store_out (.inl (by omega)), Mem.load32_store_out (.inl (by omega))]
        exact hmagic k hlt
      · exact Mem.load32_store ..
    · rcases Nat.lt_succ_iff_lt_or_eq.mp hk with hlt | rfl
      · rw [Mem.load64_store_out (.inl (by omega)), Mem.load64_store_out (.inl (by omega)),
          Mem.load64_store_out (.inl (by omega))]
        exact hentry k hlt
      · exact Mem.load64_store ..
    · rw [Mem.store_out (by omega), Mem.store_out (by omega), Mem.store_out (by omega)]
      exact hframe x (by omega) (by omega)

theorem BlocksWritten.congr {i : Bin} {cursor total stack n : Nat} {mem mem' mem'' : Mem}
    (htotal : slabHeaderSize ≤ total) (h : BlocksWritten i cursor total stack n mem mem')
    (hs : SameBytes mem' mem'' stack (8 * n)) (hb : SameBytes mem' mem'' cursor (n * total)) :
    BlocksWritten i cursor total stack n mem'' mem'' := by
  have hin : ∀ k < n, cursor + k * total + 8 ≤ cursor + n * total := by
    intro k hk
    have hmul := Nat.mul_le_mul_right total (Nat.succ_le_of_lt hk)
    rw [Nat.succ_mul] at hmul
    unfold slabHeaderSize at htotal
    omega
  refine ⟨fun k hk => ?_, fun k hk => ?_, fun k hk => ?_, fun _ _ _ => rfl⟩
  · have hk' := hin k hk
    rw [hb.load32 (by omega) (by omega)]
    exact h.bin k hk
  · have hk' := hin k hk
    rw [hb.load32 (by omega) (by omega)]
    exact h.magic k hk
  · rw [hs.load64 (by omega) (by omega)]
    exact h.entry k hk

/-! ## The blocks -/

theorem align8_le (p : Nat) : p ≤ align8 p ∧ align8 p ≤ p + 7 ∧ align8 p % 8 = 0 := by
  unfold align8
  omega

theorem align8_of_aligned {p : Nat} (h : p % 8 = 0) : align8 p = p := by
  unfold align8
  omega

section Blocks

variable (a₁ : SlabAllocator) (c₁ : Nat)

/-- The bins whose blocks are carved so far, from `c₁` up to the cursor. -/
structure BlocksCarved (done : List Bin) (s : SlabAllocator × Mem × Nat) : Prop where
  shape : s.1.region = a₁.region ∧ s.1.regionBytes = a₁.regionBytes ∧
    s.1.totalBytesInUse = a₁.totalBytesInUse
  bins : ∀ i, s.1.bins i = { a₁.bins i with
    blocks := (s.1.bins i).blocks
    top := if i ∈ done then (a₁.bins i).bucketCount else (a₁.bins i).top }
  bitmap : ∀ i, s.1.hasFree i = (a₁.hasFree i || decide (i ∈ done ∧ count a₁ i ≠ 0))
  cursor : c₁ ≤ s.2.2 ∧ align8 s.2.2 ≤
    align8 c₁ + (done.map fun i => count a₁ i * blockTotal (a₁.bins i)).sum
  inside : ∀ i ∈ done, count a₁ i ≠ 0 → c₁ ≤ (s.1.bins i).blocks ∧ blocksEnd s.1 i ≤ s.2.2
  apart : ∀ i ∈ done, ∀ j ∈ done, i ≠ j → count a₁ i ≠ 0 → count a₁ j ≠ 0 →
    blocksEnd s.1 i ≤ (s.1.bins j).blocks ∨ blocksEnd s.1 j ≤ (s.1.bins i).blocks
  written : ∀ i ∈ done, count a₁ i ≠ 0 → BlocksWritten i (s.1.bins i).blocks
    (blockTotal (a₁.bins i)) (a₁.bins i).stack (count a₁ i) s.2.1 s.2.1

/-- What the first pass left behind: stacks below `c₁`, apart, nothing pushed. -/
structure StacksReady : Prop where
  total : ∀ i, slabHeaderSize ≤ blockTotal (a₁.bins i) ∧ blockTotal (a₁.bins i) % 8 = 0
  below : ∀ i, count a₁ i ≠ 0 → stackEnd a₁ i ≤ c₁
  apart : ∀ i j, i ≠ j → count a₁ i ≠ 0 → count a₁ j ≠ 0 →
    stackEnd a₁ i ≤ (a₁.bins j).stack ∨ stackEnd a₁ j ≤ (a₁.bins i).stack

variable {a₁ c₁}

variable {done : List Bin} {i j : Bin} {s : SlabAllocator × Mem × Nat}

theorem mem_done : j ∈ done ++ [i] ↔ j ∈ done ∨ j = i := by
  rw [mem_append, mem_singleton]

theorem mem_done_of_ne (h : j ≠ i) : j ∈ done ++ [i] ↔ j ∈ done :=
  mem_done.trans (or_iff_left h)

theorem BlocksCarved.same (h : BlocksCarved a₁ c₁ done s) (j : Bin) :
    count s.1 j = count a₁ j ∧ blockTotal (s.1.bins j) = blockTotal (a₁.bins j) := by
  unfold count
  rw [h.bins]
  exact ⟨rfl, rfl⟩

/-- An empty bin is passed over. -/
theorem BlocksCarved.pass (h : BlocksCarved a₁ c₁ done s) (hi : i ∉ done)
    (htop : (a₁.bins i).top = 0) (hz : count a₁ i = 0) : BlocksCarved a₁ c₁ (done ++ [i]) s := by
  have hdone : ∀ j, j ∈ done ++ [i] → count a₁ j ≠ 0 → j ∈ done := fun j hj hne => by
    rcases mem_done.mp hj with hj | rfl
    · exact hj
    · exact absurd hz hne
  refine ⟨h.shape, fun j => ?_, fun j => ?_, ⟨h.cursor.1, ?_⟩,
    fun j hj hne => h.inside j (hdone j hj hne) hne,
    fun j hj k hk hjk hj0 hk0 => h.apart j (hdone j hj hj0) k (hdone k hk hk0) hjk hj0 hk0,
    fun j hj hne => h.written j (hdone j hj hne) hne⟩
  · have hb := h.bins j
    by_cases hj : j = i
    · subst hj
      have hbc : (a₁.bins j).bucketCount = 0 := BitVec.eq_of_toNat_eq hz
      rw [if_neg hi, htop, ← hbc] at hb
      rw [if_pos (mem_done.mpr (.inr rfl))]
      exact hb
    · simp only [mem_done_of_ne hj]
      exact hb
  · rw [h.bitmap j]
    congr 1
    exact decide_eq_decide.mpr ⟨fun hj => ⟨mem_done.mpr (.inl hj.1), hj.2⟩,
      fun hj => ⟨hdone j hj.1 hj.2, hj.2⟩⟩
  · rw [sum_done, hz, Nat.zero_mul]
    exact h.cursor.2

/-- The blocks and stacks of the bins before are not written again. -/
theorem BlocksCarved.kept (hr : StacksReady a₁ c₁) (h : BlocksCarved a₁ c₁ done s) (hi : i ∉ done)
    (hne : count a₁ i ≠ 0) {p : Nat} (hp : s.2.2 ≤ p) {mem' : Mem}
    (hw : BlocksWritten i p (blockTotal (a₁.bins i)) (a₁.bins i).stack (count a₁ i) s.2.1 mem')
    (hj : j ∈ done) (hj0 : count a₁ j ≠ 0) : BlocksWritten j (s.1.bins j).blocks
      (blockTotal (a₁.bins j)) (a₁.bins j).stack (count a₁ j) mem' mem' := by
  have hbelow := hr.below i hne
  have hbelow' := hr.below j hj0
  have hcursor := h.cursor.1
  have hold := h.inside j hj hj0
  have hap := hr.apart j i (fun e => hi (e ▸ hj)) hj0 hne
  unfold stackEnd at hbelow hbelow' hap
  unfold blocksEnd at hold
  rw [(h.same j).1, (h.same j).2] at hold
  refine (h.written j hj hj0).congr (hr.total j).1 (fun x hx hx' => ?_) fun x hx hx' => ?_
  · exact hw.frame x (by omega) (.inl (by omega))
  · exact hw.frame x (.inr (by omega)) (.inl (by omega))

theorem fill_bins (a : SlabAllocator) (i j : Bin) (p : Nat) : (a.fill i p).bins j =
    if j = i then { a.bins i with blocks := p, top := (a.bins i).bucketCount } else a.bins j :=
  Function.update_apply ..

theorem fill_blocksEnd (a : SlabAllocator) (i j : Bin) (p : Nat) : blocksEnd (a.fill i p) j =
    if j = i then p + count a i * blockTotal (a.bins i) else blocksEnd a j := by
  unfold blocksEnd count
  rw [fill_bins]
  split <;> rfl

theorem BlocksCarved.filled (hr : StacksReady a₁ c₁) (h : BlocksCarved a₁ c₁ done s) (hi : i ∉ done)
    (hne : count a₁ i ≠ 0) {mem' : Mem} (hw : BlocksWritten i (align8 s.2.2)
      (blockTotal (a₁.bins i)) (a₁.bins i).stack (count a₁ i) s.2.1 mem') :
    BlocksCarved a₁ c₁ (done ++ [i]) (s.1.fill i (align8 s.2.2), mem',
      align8 s.2.2 + count a₁ i * blockTotal (a₁.bins i)) := by
  obtain ⟨halign, -, hmod⟩ := align8_le s.2.2
  obtain ⟨htot, htot8⟩ := hr.total i
  obtain ⟨hcount, htotal⟩ := h.same i
  have hcursor := h.cursor
  have hbins := fill_bins s.1 i (p := align8 s.2.2)
  have hends := fill_blocksEnd s.1 i (p := align8 s.2.2)
  have hfree : ∀ j, (s.1.fill i (align8 s.2.2)).hasFree j = (decide (j = i) || s.1.hasFree j) :=
    fun j => (hasFree_eq _ j).trans (hasFree_set s.1 i j)
  rw [hcount, htotal] at hends
  have hother : ∀ j ∈ done, j ≠ i := fun j hj e => hi (e ▸ hj)
  refine ⟨h.shape, fun j => ?_, fun j => ?_, ⟨by dsimp only; omega, ?_⟩, fun j hj hj0 => ?_,
    fun j hj k hk hjk hj0 hk0 => ?_, fun j hj hj0 => ?_⟩
  · dsimp only
    rw [hbins]
    by_cases hj : j = i
    · subst hj
      rw [if_pos rfl, if_pos (mem_done.mpr (.inr rfl)), h.bins j]
    · simp only [if_neg hj, mem_done_of_ne hj]
      exact h.bins j
  · dsimp only
    rw [hfree, h.bitmap j]
    by_cases hj : j = i
    · subst hj
      have hin : j ∈ done ++ [j] ∧ count a₁ j ≠ 0 := ⟨mem_done.mpr (.inr rfl), hne⟩
      rw [decide_eq_true rfl, decide_eq_true hin, Bool.true_or, Bool.or_true]
    · simp only [mem_done_of_ne hj, decide_eq_false hj, Bool.false_or]
  · have hmul : count a₁ i * blockTotal (a₁.bins i) % 8 = 0 := by
      rw [Nat.mul_mod, htot8, Nat.mul_zero, Nat.zero_mod]
    dsimp only
    rw [sum_done, align8_of_aligned (by omega)]
    omega
  · dsimp only
    rw [hbins, hends]
    rcases mem_done.mp hj with hj | rfl
    · have hold := h.inside j hj hj0
      rw [if_neg (hother j hj), if_neg (hother j hj)]
      omega
    · rw [if_pos rfl, if_pos rfl]
      dsimp only
      omega
  · dsimp only
    rw [hbins, hbins, hends, hends]
    rcases mem_done.mp hj with hjd | rfl
    · rw [if_neg (hother j hjd), if_neg (hother j hjd)]
      rcases mem_done.mp hk with hkd | rfl
      · rw [if_neg (hother k hkd), if_neg (hother k hkd)]
        exact h.apart j hjd k hkd hjk hj0 hk0
      · have hold := h.inside j hjd hj0
        rw [if_pos rfl, if_pos rfl]
        exact .inl (Nat.le_trans hold.2 halign)
    · have hkd := (mem_done_of_ne (Ne.symm hjk)).mp hk
      have hold := h.inside k hkd hk0
      rw [if_pos rfl, if_pos rfl, if_neg (hother k hkd), if_neg (hother k hkd)]
      exact .inr (Nat.le_trans hold.2 halign)
  · dsimp only
    rw [hbins]
    rcases mem_done.mp hj with hj | rfl
    · rw [if_neg (hother j hj)]
      exact h.kept hr hi hne halign hw hj hj0
    · rw [if_pos rfl]
      exact hw.congr htot (fun _ _ _ => rfl) fun _ _ _ => rfl

theorem carveBlocks_carved (hr : StacksReady a₁ c₁) (hi : i ∉ done) (h : BlocksCarved a₁ c₁ done s)
    (htop : (a₁.bins i).top = 0) : BlocksCarved a₁ c₁ (done ++ [i]) (carveBlocks s i) := by
  obtain ⟨hcount, htotal⟩ := h.same i
  unfold count at hcount
  unfold carveBlocks
  dsimp only
  by_cases hz : (s.1.bins i).bucketCount = 0
  · rw [if_pos hz]
    refine h.pass hi htop (hcount.symm.trans ?_)
    rw [hz]
    rfl
  · have hne : count a₁ i ≠ 0 := fun e => hz (BitVec.eq_of_toNat_eq (hcount.trans e))
    have hstack : (s.1.bins i).stack = (a₁.bins i).stack := by rw [h.bins]
    have hbelow := hr.below i hne
    have halign := (align8_le s.2.2).1
    have hcursor := h.cursor.1
    unfold stackEnd at hbelow
    rw [if_neg hz, htotal, hcount, hstack]
    exact h.filled hr hi hne (initBlock_written i (hr.total i).1 s.2.1 _ (by omega))

end Blocks

/-! ## The whole region -/

theorem required_eq (cfg : SlabConfig) (region bytes : Nat) :
    slabRequiredBytes cfg =
      ((List.finRange 16).map fun i => 8 * count (slabBlank region bytes cfg) i).sum +
        ((List.finRange 16).map fun i => count (slabBlank region bytes cfg) i *
          blockTotal ((slabBlank region bytes cfg).bins i)).sum + 8 := by
  unfold slabRequiredBytes
  rw [← sum_map_add]
  refine congrArg (List.sum · + 8) (map_congr_left fun i _ => ?_)
  rw [Nat.mul_comm 8]
  rfl

variable {region bytes : Nat} {cfg : SlabConfig}

/-- The allocator after both passes: parts in the region and apart, every block on its stack. -/
theorem carved_inv (hpos : 0 < region) (hlt : region + bytes < 2 ^ 64)
    (hfit : slabRequiredBytes cfg ≤ bytes) {s₁ : SlabAllocator × Nat}
    (h₁ : StacksCarved (slabBlank region bytes cfg) (List.finRange 16) s₁)
    {s : SlabAllocator × Mem × Nat} (h₂ : BlocksCarved s₁.1 s₁.2 (List.finRange 16) s) :
    s.2.2 - region ≤ bytes ∧ SlabInv s.1 s.2.1 [] := by
  obtain ⟨a₁, c₁⟩ := s₁
  obtain ⟨a, mem', cursor⟩ := s
  obtain ⟨hhandle, hbins₁, hcursor₁, hinside₁, hapart₁⟩ := h₁
  obtain ⟨hshape, hbins, hbitmap, hcursor, hinside, hapart, hwritten⟩ := h₂
  dsimp only at *
  have hregion₁ : a₁.region = region := by rw [hhandle]; rfl
  have hbytes₁ : a₁.regionBytes = bytes := by rw [hhandle]; rfl
  have hin : ∀ i : Bin, i ∈ List.finRange 16 := mem_finRange
  have hcount₁ : ∀ i, count (slabBlank region bytes cfg) i = count a₁ i := fun i => by
    unfold count
    rw [hbins₁]
  have hcount : ∀ i, count a i = count a₁ i := fun i => by
    unfold count
    rw [hbins]
  have htotal₁ : ∀ i, blockTotal ((slabBlank region bytes cfg).bins i) = blockTotal (a₁.bins i) :=
    fun i => by
      unfold blockTotal
      rw [hbins₁ i]
  have hstack : ∀ i, (a.bins i).stack = (a₁.bins i).stack := fun i => by rw [hbins]
  have hstackEnd : ∀ i, stackEnd a i = stackEnd a₁ i := fun i => by
    unfold stackEnd
    rw [hstack, hcount]
  have hstackEnd₁ : ∀ i, stackEnd a₁ i = (a₁.bins i).stack + 8 * count a₁ i := fun _ => rfl
  have htotal : ∀ i, blockTotal (a.bins i) = blockTotal (a₁.bins i) := fun i => by
    rw [hbins]
    rfl
  have hblank : ∀ i, (a₁.bins i).top = 0 ∧ (a₁.bins i).blocksInUse = 0 ∧
      (a₁.bins i).blockSize = slabMinBlock * 2 ^ i.val := fun i => by
    rw [hbins₁]
    exact ⟨rfl, rfl, rfl⟩
  have hreq := required_eq cfg region bytes
  simp only [hcount₁, htotal₁] at hreq hcursor₁ hinside₁ hapart₁
  obtain ⟨halign, -, -⟩ := align8_le cursor
  obtain ⟨-, halign₁, -⟩ := align8_le c₁
  have hregion : (slabBlank region bytes cfg).region = region := rfl
  rw [hregion] at hcursor₁ hinside₁
  have hhi : cursor ≤ region + bytes := by omega
  have hblocks : ∀ i, count a₁ i ≠ 0 → c₁ ≤ (a.bins i).blocks ∧ blocksEnd a i ≤ cursor :=
    fun i => hinside i (hin i)
  have hplaced : Placed a := by
    refine ⟨fun i => ?_, ?_, ?_, fun i hi => ?_, fun i j hij hi hj => ?_, fun i j hi hj => ?_,
      fun i j hij hi hj => ?_, fun i hi => ?_⟩
    · rw [hbins]
      exact (hblank i).2.2
    · rw [hshape.1, hregion₁]
      exact hpos
    · rw [hshape.1, hshape.2.1, hregion₁, hbytes₁]
      exact hlt
    · rw [hcount] at hi
      rw [hshape.1, hregion₁, hstack]
      exact (hinside₁ i (hin i) hi).1
    · rw [hcount] at hi hj
      rw [hstackEnd, hstackEnd, hstack, hstack, hstackEnd₁, hstackEnd₁]
      exact hapart₁ i (hin i) j (hin j) hij hi hj
    · rw [hcount] at hi hj
      have hs := (hinside₁ i (hin i) hi).2
      have hb := (hblocks j hj).1
      rw [hstackEnd, hstackEnd₁]
      omega
    · rw [hcount] at hi hj
      exact hapart i (hin i) j (hin j) hij hi hj
    · rw [hcount] at hi
      rw [hshape.1, hshape.2.1, hregion₁, hbytes₁]
      exact Nat.le_trans (hblocks i hi).2 hhi
  have htop : ∀ i, (a.bins i).top = (a.bins i).bucketCount := fun i => by
    rw [hbins i]
    dsimp only
    rw [if_pos (hin i)]
  have hwr : ∀ i k, k < count a i →
      mem'.load32 (blockStart a i k + 4) = BitVec.ofNat 32 i.val ∧
      mem'.load32 (blockStart a i k) = slabMagicFreed ∧
      mem'.load64 ((a.bins i).stack + 8 * k) = BitVec.ofNat 64 (payload a i k) := by
    intro i k hk
    have hw := hwritten i (hin i) (by rw [← hcount]; omega)
    rw [← hcount, ← htotal, ← hstack] at hw
    exact ⟨hw.bin k hk, hw.magic k hk, hw.entry k hk⟩
  refine ⟨by omega, hplaced, ?_, fun i => ?_, fun i k hk => (hwr i k hk).1, fun i k hk => ?_,
    fun i => ?_, ?_⟩
  · have hfree : stackOf a mem' = blocksOf a := by
      funext i
      unfold stackOf blocksOf
      rw [htop]
      refine map_congr_left fun k hk => ?_
      have hk := mem_range.mp hk
      rw [(hwr i k hk).2.2, BitVec.toNat_ofNat]
      exact Nat.mod_eq_of_lt (hplaced.payload_lt hk)
    rw [hfree]
    exact Pool.Valid.full hplaced.stock
  · have hbit₁ : a₁.hasFree i = false := by
      rw [hasFree_eq, hhandle]
      exact BitVec.getLsbD_zero
    rw [hbitmap, hbit₁, htop, Bool.false_or]
    refine decide_eq_decide.mpr ⟨fun h e => h.2 ?_, fun h => ⟨hin i, fun e => h ?_⟩⟩
    · rw [← hcount]
      exact congrArg BitVec.toNat e
    · rw [← hcount] at e
      exact BitVec.eq_of_toNat_eq e
  · rw [(hwr i k hk).2.1, decide_eq_false not_mem_nil]
    rfl
  · rw [hbins i]
    dsimp only
    rw [(hblank i).2.1]
    rfl
  · rw [hshape.2.2, hhandle]
    rfl

/-- Every accepted configuration gives an allocator with all blocks free; the overrun check never
fires. -/
theorem slabInit_inv {mem : Mem} (hlt : region + bytes < 2 ^ 64) (hpos : region ≠ 0)
    (hfit : slabRequiredBytes cfg ≤ bytes) :
    ∃ a mem', slabInit region bytes cfg mem = (.ok, a, mem') ∧ SlabInv a mem' [] := by
  let a₀ := slabBlank region bytes cfg
  have h₁ : StacksCarved a₀ (List.finRange 16)
      ((List.finRange 16).foldl carveStack (a₀, region)) :=
    foldl_visits (P := StacksCarved a₀) ⟨rfl, fun _ => rfl, rfl, nofun, nofun⟩
      (fun _ _ _ hi h => carveStack_carved a₀ hi h) (nodup_finRange 16)
  generalize hs₁ : (List.finRange 16).foldl carveStack (a₀, region) = s₁ at h₁
  have hready : StacksReady s₁.1 s₁.2 := by
    have hcount : ∀ i, count a₀ i = count s₁.1 i := fun i => by
      unfold count
      rw [h₁.bins]
    refine ⟨fun i => ?_, fun i hi => ?_, fun i j hij hi hj => ?_⟩
    · have hsize : blockTotal (s₁.1.bins i) = 32 * 2 ^ i.val + 8 := by
        rw [h₁.bins]
        rfl
      unfold slabHeaderSize
      omega
    · unfold stackEnd
      rw [← hcount] at hi ⊢
      exact (h₁.inside i (mem_finRange i) hi).2
    · unfold stackEnd
      rw [← hcount] at hi hj ⊢
      rw [← hcount j]
      exact h₁.apart i (mem_finRange i) j (mem_finRange j) hij hi hj
  have hstart : BlocksCarved s₁.1 s₁.2 [] (s₁.1, mem, s₁.2) := by
    refine ⟨⟨rfl, rfl, rfl⟩, fun _ => rfl, fun _ => ?_, ⟨Nat.le_refl _, Nat.le_refl _⟩, nofun, nofun,
      nofun⟩
    simp
  have h₂ : BlocksCarved s₁.1 s₁.2 (List.finRange 16)
      ((List.finRange 16).foldl carveBlocks (s₁.1, mem, s₁.2)) := by
    refine foldl_visits (P := BlocksCarved s₁.1 s₁.2) hstart (fun _ i _ hi h => ?_)
      (nodup_finRange 16)
    refine carveBlocks_carved hready hi h ?_
    rw [h₁.bins]
    rfl
  obtain ⟨hfits, hinv⟩ := carved_inv (Nat.pos_of_ne_zero hpos) hlt hfit h₁ h₂
  refine ⟨_, _, ?_, hinv⟩
  unfold slabInit
  dsimp only
  rw [if_neg hpos, if_neg (Nat.not_lt.mpr hfit), hs₁, if_neg (Nat.not_lt.mpr hfits)]

theorem carveStacks_region (l : List Bin) (s : SlabAllocator × Nat) :
    (l.foldl carveStack s).1.region = s.1.region ∧
      (l.foldl carveStack s).1.regionBytes = s.1.regionBytes := by
  refine List.foldlRecOn l carveStack (motive := fun r => r.1.region = s.1.region ∧
    r.1.regionBytes = s.1.regionBytes) ⟨rfl, rfl⟩ fun r h i _ => ?_
  unfold carveStack
  dsimp only
  split <;> exact h

theorem carveBlocks_region (l : List Bin) (s : SlabAllocator × Mem × Nat) :
    (l.foldl carveBlocks s).1.region = s.1.region ∧
      (l.foldl carveBlocks s).1.regionBytes = s.1.regionBytes := by
  refine List.foldlRecOn l carveBlocks (motive := fun r => r.1.region = s.1.region ∧
    r.1.regionBytes = s.1.regionBytes) ⟨rfl, rfl⟩ fun r h i _ => ?_
  unfold carveBlocks
  dsimp only
  split <;> exact h

theorem slabInit_region {mem mem' : Mem} {r : SlabResult} {a : SlabAllocator}
    (h : slabInit region bytes cfg mem = (r, a, mem')) :
    a.region = region ∧ a.regionBytes = bytes := by
  unfold slabInit at h
  dsimp only at h
  split at h
  · cases h
    exact ⟨rfl, rfl⟩
  split at h
  · cases h
    exact ⟨rfl, rfl⟩
  · obtain ⟨h₁, h₂⟩ := carveStacks_region (List.finRange 16) (slabBlank region bytes cfg, region)
    generalize (List.finRange 16).foldl carveStack (slabBlank region bytes cfg, region) = s₁ at *
    obtain ⟨a₁, c₁⟩ := s₁
    obtain ⟨h₃, h₄⟩ := carveBlocks_region (List.finRange 16) (a₁, mem, c₁)
    dsimp only at h
    generalize (List.finRange 16).foldl carveBlocks (a₁, mem, c₁) = s₂ at *
    obtain ⟨a₂, mem₂, c₂⟩ := s₂
    cases h
    exact ⟨h₃.trans h₁, h₄.trans h₂⟩

theorem slabInit_ok {mem mem' : Mem} {a : SlabAllocator} (hlt : region + bytes < 2 ^ 64)
    (h : slabInit region bytes cfg mem = (.ok, a, mem')) : SlabInv a mem' [] := by
  by_cases hpos : region = 0
  · unfold slabInit at h
    rw [if_pos hpos] at h
    cases h
  · by_cases hfit : slabRequiredBytes cfg ≤ bytes
    · obtain ⟨a₂, mem₂, hok, hinv⟩ : ∃ a mem', slabInit region bytes cfg mem = (.ok, a, mem') ∧
          SlabInv a mem' [] := slabInit_inv hlt hpos hfit
      rw [hok] at h
      cases h
      exact hinv
    · unfold slabInit at h
      rw [if_neg hpos, if_pos (Nat.not_le.mp hfit)] at h
      cases h

end Microgarbage.Memory
