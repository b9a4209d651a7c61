import Mathlib.Data.List.Chain
import Microgarbage.Lib.Align
import Microgarbage.Mgapi.L2Calls

/-!
# The two calls

What `l2_alloc` and `l2_free` do to a heap that is in order, for requests whose block size fits in
the header's 32 bits.
-/

namespace Microgarbage.Mgapi

open Lib List

/-! ## The block of a request -/

/-- What a request takes of the heap, header included. -/
def blockBytes (size align : BitVec 64) : Nat :=
  roundUp (roundUp (if size < 16 then 16 else size.toNat) align.toNat + 16) 16

theorem l2Align_spec {align align' : BitVec 64} (h : l2Align align = some align') :
    (∃ k, align'.toNat = 2 ^ k) ∧ 16 ≤ align'.toNat := by
  unfold l2Align at h
  dsimp only at h
  generalize (if align = 0 then (16 : BitVec 64) else align) = v at h
  split at h
  · next hpow =>
    unfold isPow2 at hpow
    rw [Bool.and_eq_true, bne_iff_ne, beq_iff_eq] at hpow
    rw [Option.some.injEq] at h
    split at h
    · subst h
      exact ⟨⟨4, rfl⟩, Nat.le_refl _⟩
    · next hge =>
      subst h
      exact ⟨exists_two_pow hpow.1 hpow.2, Nat.le_of_not_lt hge⟩
  · cases h

section Block

variable {size align : BitVec 64} {k : Nat} (halign : align.toNat = 2 ^ k)

theorem payload_bounds (size : BitVec 64) : size.toNat ≤ (if size < 16 then 16 else size.toNat) ∧
    16 ≤ (if size < 16 then 16 else size.toNat) := by
  split
  · next h => exact ⟨Nat.le_of_lt h, Nat.le_refl _⟩
  · next h => exact ⟨Nat.le_refl _, Nat.le_of_not_lt h⟩

include halign

theorem size_le_blockBytes (size : BitVec 64) : size.toNat + 16 ≤ blockBytes size align ∧ 32 ≤ blockBytes size align ∧
    blockBytes size align % 16 = 0 := by
  have hpos : 0 < align.toNat := halign ▸ Nat.two_pow_pos k
  obtain ⟨hsize, h16⟩ := payload_bounds size
  have hin := le_roundUp (v := if size < 16 then 16 else size.toNat) hpos
  have hout : _ ≤ blockBytes size align := le_roundUp (by decide)
  exact ⟨by omega, by omega, roundUp_mod _ _⟩

theorem wantTotal_eq (hfit : blockBytes size align < 2 ^ 32) :
    (wantTotal size align).toNat = blockBytes size align := by
  obtain ⟨-, h16⟩ := payload_bounds size
  have hpos : 0 < align.toNat := halign ▸ Nat.two_pow_pos k
  have hin := le_roundUp (v := if size < 16 then 16 else size.toNat) hpos
  have hout : _ ≤ blockBytes size align := le_roundUp (by decide)
  have hpayload : (if size < 16 then 16 else size.setWidth 32 : BitVec 32).toNat =
      if size < 16 then 16 else size.toNat := by
    split
    · rfl
    · next h =>
      rw [if_neg h] at hin hout
      rw [BitVec.toNat_setWidth]
      exact Nat.mod_eq_of_lt (by omega)
  rw [halign] at hin hout
  have hinner_lt : roundUp (if size < 16 then 16 else size.toNat) (2 ^ k) < 2 ^ 32 := by omega
  obtain ⟨hk, hsum⟩ := roundUp_fits (by omega) hinner_lt
  have halign' : (align.setWidth 32).toNat = 2 ^ k := by
    rw [BitVec.toNat_setWidth, halign]
    exact Nat.mod_eq_of_lt (Nat.pow_lt_pow_right (by decide) hk)
  have hinner : (roundUpU32 (if size < 16 then 16 else size.setWidth 32) (align.setWidth 32)).toNat =
      roundUp (if size < 16 then 16 else size.toNat) (2 ^ k) := by
    unfold roundUpU32
    rw [toNat_roundUp halign' (by rw [hpayload]; exact hsum), hpayload]
  have hadd : (roundUpU32 (if size < 16 then 16 else size.setWidth 32) (align.setWidth 32) +
      16).toNat = roundUp (if size < 16 then 16 else size.toNat) (2 ^ k) + 16 := by
    have hlit : (16 : BitVec 32).toNat = 16 := rfl
    rw [BitVec.toNat_add, hinner, hlit]
    exact Nat.mod_eq_of_lt (by omega)
  unfold blockBytes at hfit ⊢
  rw [halign] at hfit ⊢
  obtain ⟨-, hsum'⟩ := roundUp_fits (k := 4) (by omega) hfit
  have h16' : (16 : BitVec 32).toNat = 2 ^ 4 := rfl
  unfold wantTotal
  dsimp only
  rw [roundUpU32, toNat_roundUp h16' (by rw [hadd]; exact hsum'), hadd]
  rfl

end Block

/-! ## The heap in order -/

/-- No two neighbours are both free. -/
def Spaced (cs : List Chunk) : Prop := cs.IsChain fun c d => c.held ≠ none ∨ d.held ≠ none

/-- The bytes, the free list, the statistics and what clients hold agree. -/
structure InOrder (a : L2Alloc) (mem : Mem) (cs : List Chunk) (free : List Nat)
    (live : List (Nat × Nat)) : Prop where
  rep : Rep a mem cs free
  exact : free.Perm (freeOf a.regionBase cs)
  spaced : Spaced cs
  holds : live.Perm (liveOf a.regionBase cs)
  allocs : a.allocCount = BitVec.ofNat 32 live.length

section Search

variable {mem : Mem}

/-- The search finds the first block that is large enough, if there is one. -/
theorem firstFit_spec (want : BitVec 32) {free : List Nat} {p : Nat}
    (h : Linked (link mem · .prev) (link mem · .next) p free) (h0 : 0 ∉ free) {fuel : Nat}
    (hfuel : free.length < fuel) :
    ∃ b, firstFit mem want fuel (free.headD 0) = some b ∧
      ((b = 0 ∧ ∀ x ∈ free, field mem x .size < want) ∨
        ∃ l₁ l₂, free = l₁ ++ b :: l₂ ∧ want ≤ field mem b .size) := by
  induction free generalizing p fuel with
  | nil =>
    obtain ⟨n, rfl⟩ := Nat.exists_eq_add_of_lt hfuel
    exact ⟨0, rfl, .inl ⟨rfl, fun x hx => by cases hx⟩⟩
  | cons x xs ih =>
    obtain ⟨-, hnext, hrest⟩ := h
    cases fuel with
    | zero => exact absurd hfuel (Nat.not_lt_zero _)
    | succ fuel =>
      have hx : x ≠ 0 := fun e => h0 (e ▸ mem_cons_self ..)
      have hnext : link mem x .next = xs.headD 0 := hnext
      unfold firstFit
      rw [headD_cons, if_neg hx]
      by_cases hlt : field mem x .size < want
      · rw [if_pos hlt, hnext]
        obtain ⟨b, hb, hor⟩ := ih hrest (fun h => h0 (mem_cons_of_mem _ h))
          (Nat.lt_of_succ_lt_succ hfuel)
        refine ⟨b, hb, ?_⟩
        rcases hor with ⟨rfl, hall⟩ | ⟨l₁, l₂, rfl, hle⟩
        · refine .inl ⟨rfl, fun y hy => ?_⟩
          rcases mem_cons.mp hy with rfl | hy
          · exact hlt
          · exact hall y hy
        · exact .inr ⟨x :: l₁, l₂, rfl, hle⟩
      · rw [if_neg hlt]
        exact ⟨x, rfl, .inr ⟨[], xs, rfl, BitVec.not_lt.mp hlt⟩⟩

end Search

section Orders

variable {a : L2Alloc} {mem : Mem} {cs pre post : List Chunk} {free : List Nat}
  {live : List (Nat × Nat)}

theorem length_le_total (hok : ∀ c ∈ cs, c.Ok) : 32 * cs.length ≤ total cs := by
  induction cs with
  | nil => exact Nat.le_refl _
  | cons c cs ih =>
    have hmin := (hok c (mem_cons_self ..)).min
    have hrest := ih fun d hd => hok d (mem_cons_of_mem _ hd)
    rw [length_cons, total_cons]
    omega

theorem length_freeOf (p : Nat) (cs : List Chunk) : (freeOf p cs).length ≤ cs.length := by
  induction cs generalizing p with
  | nil => exact Nat.le_refl _
  | cons c cs ih =>
    have hrest := ih (p + c.size)
    rw [freeOf_cons, length_cons]
    split
    · rw [length_cons]
      omega
    · omega

theorem InOrder.fuel (h : InOrder a mem cs free live) : free.length < a.fuel := by
  have hlen := h.exact.length_eq
  have hfree := length_freeOf a.regionBase cs
  have htotal := length_le_total h.rep.ok
  have hend := h.rep.end_eq
  have hmin : l2MinBlockBytes = 32 := rfl
  unfold L2Alloc.fuel
  rw [hmin]
  omega

theorem freeOf_mid_free (p s : Nat) : freeOf p (pre ++ ⟨s, none⟩ :: post) =
    freeOf p pre ++ (p + total pre) :: freeOf (p + total pre + s) post := by
  rw [freeOf_append, freeOf_cons, if_pos rfl]

theorem freeOf_mid_held (p s n : Nat) : freeOf p (pre ++ ⟨s, some n⟩ :: post) =
    freeOf p pre ++ freeOf (p + total pre + s) post := by
  rw [freeOf_append, freeOf_cons, if_neg (by simp)]

theorem liveOf_mid_free (p s : Nat) : liveOf p (pre ++ ⟨s, none⟩ :: post) =
    liveOf p pre ++ liveOf (p + total pre + s) post := by
  rw [liveOf_append, liveOf_cons_free]

theorem liveOf_mid_held (p s n : Nat) : liveOf p (pre ++ ⟨s, some n⟩ :: post) =
    liveOf p pre ++ (blockPayload (p + total pre), n) :: liveOf (p + total pre + s) post := by
  rw [liveOf_append, liveOf_cons_held]

theorem perm_middle_inv {α : Type*} {l₁ l₂ l₃ l₄ : List α} {x : α}
    (h : (l₁ ++ x :: l₂).Perm (l₃ ++ x :: l₄)) : (l₁ ++ l₂).Perm (l₃ ++ l₄) :=
  List.Perm.cons_inv (perm_middle.symm.trans (h.trans perm_middle))

theorem spaced_cons {c : Chunk} : Spaced (c :: post) ↔
    (∀ d ∈ post.head?, c.held ≠ none ∨ d.held ≠ none) ∧ Spaced post := isChain_cons

theorem spaced_mid {c : Chunk} : Spaced (pre ++ c :: post) ↔ Spaced pre ∧
    (∀ d ∈ pre.getLast?, d.held ≠ none ∨ c.held ≠ none) ∧
    (∀ d ∈ post.head?, c.held ≠ none ∨ d.held ≠ none) ∧ Spaced post := by
  unfold Spaced
  rw [isChain_append, isChain_cons]
  constructor
  · rintro ⟨hpre, ⟨hnext, hpost⟩, hlast⟩
    exact ⟨hpre, fun d hd => hlast d hd c rfl, hnext, hpost⟩
  · rintro ⟨hpre, hlast, hnext, hpost⟩
    refine ⟨hpre, ⟨hnext, hpost⟩, fun d hd e he => ?_⟩
    cases he
    exact hlast d hd

theorem Spaced.hold {c d : Chunk} (h : Spaced (pre ++ c :: post)) (hd : d.held ≠ none) :
    Spaced (pre ++ d :: post) := by
  obtain ⟨hpre, -, -, hpost⟩ := spaced_mid.mp h
  exact spaced_mid.mpr ⟨hpre, fun _ _ => .inr hd, fun _ _ => .inl hd, hpost⟩

theorem Spaced.cut {c d e : Chunk} (h : Spaced (pre ++ c :: post)) (hc : c.held = none)
    (hd : d.held ≠ none) : Spaced (pre ++ d :: e :: post) := by
  obtain ⟨hpre, -, hnext, hpost⟩ := spaced_mid.mp h
  refine spaced_mid.mpr ⟨hpre, fun _ _ => .inr hd, fun _ _ => .inl hd, spaced_cons.mpr ⟨?_, hpost⟩⟩
  intro f hf
  exact .inr ((hnext f hf).resolve_left (absurd hc))

theorem InOrder.take (h : InOrder a mem cs free live) {b n : Nat} {l₁ l₂ : List Nat}
    (hfree : free = l₁ ++ b :: l₂) {want : BitVec 32} (hsize : want ≤ field mem b .size)
    (hw : 32 ≤ want.toNat) (hal : want.toNat % 16 = 0) (hn : n + 16 ≤ want.toNat) :
    let r := flRemove a mem b
    let r := splitTail r.1 r.2 b want
    ∃ cs' free', InOrder { r.1 with allocCount := r.1.allocCount + 1 }
      (setField r.2 b .flags (field r.2 b .flags ||| l2FlagInUse)) cs' free'
      ((blockPayload b, n) :: live) ∧
      r.1.regionBase = a.regionBase ∧ r.1.regionEnd = a.regionEnd := by
  subst hfree
  have hbfree := h.rep.free b (mem_append_right _ (mem_cons_self ..))
  obtain ⟨⟨s, held⟩, hplaced, hheld⟩ := mem_freeOf.mp hbfree
  cases hheld
  have hbsize : (field mem b .size).toNat = s := (h.rep.tiles.ok hplaced).2.2.1
  have hsame := field_flRemove h.rep.listed h.rep.nodes (h.rep.spread hplaced)
  obtain ⟨pre, post, rfl, rfl⟩ := placed_split hplaced
  obtain ⟨hrep, hnot⟩ := h.rep.remove
  have hexact := h.exact
  have hholds := h.holds
  rw [freeOf_mid_free] at hexact
  rw [liveOf_mid_free] at hholds
  replace hexact := perm_middle_inv hexact
  have hle : want.toNat ≤ s := by
    rw [← hbsize]
    exact BitVec.le_def.mp hsize
  have hflags : ∀ m, field m (a.regionBase + total pre) .flags = 0 →
      field m (a.regionBase + total pre) .flags ||| l2FlagInUse =
        Chunk.flags ⟨want.toNat, some n⟩ := by
    intro m hm
    rw [hm]
    rfl
  dsimp only
  unfold splitTail
  dsimp only
  rw [hsame]
  have hrem : (field mem (a.regionBase + total pre) .size - want).toNat = s - want.toNat := by
    rw [BitVec.toNat_sub_of_le hsize, hbsize]
  have hallocs : a.allocCount + 1 = BitVec.ofNat 32 ((blockPayload (a.regionBase + total pre), n) ::
      live).length := by
    rw [h.allocs, length_cons, BitVec.ofNat_add]
    rfl
  split
  · next hbig =>
    -- the tail goes on the free list, the rest is handed out
    have hr : 32 ≤ (field mem (a.regionBase + total pre) .size - want).toNat :=
      BitVec.le_def.mp hbig
    have hsum : want.toNat + (field mem (a.regionBase + total pre) .size - want).toNat = s := by
      omega
    obtain ⟨hcut, htail⟩ := hrep.cut rfl hnot rfl hw hal hr hsum
    have hpushed := hcut.push (by
      refine freeOf_of_around (.inr ?_)
      rw [freeOf_cons, if_pos rfl]
      exact mem_cons_self ..) htail
    have hnot' : a.regionBase + total pre ∉
        (a.regionBase + total pre + want.toNat) :: (l₁ ++ l₂) := by
      rw [mem_cons, not_or]
      exact ⟨by omega, hnot⟩
    have hmarked := hpushed.mark hnot' (some n) (fun m hm => by cases hm; exact hn)
      (hflags _ (hpushed.tiles.ok placed_mid).2.2.2)
    have hend : a.regionBase + total pre + want.toNat +
        (field mem (a.regionBase + total pre) .size - want).toNat =
          a.regionBase + total pre + s := by omega
    refine ⟨_, _, ⟨hmarked.setAllocCount _, ?_, h.spaced.cut rfl (by simp), ?_, hallocs⟩, rfl, rfl⟩
    · show List.Perm _ (freeOf a.regionBase _)
      rw [freeOf_mid_held, freeOf_cons, if_pos rfl, hend]
      exact (hexact.cons _).trans perm_middle.symm
    · show List.Perm _ (liveOf a.regionBase _)
      rw [liveOf_mid_held, liveOf_cons_free, hend]
      exact (hholds.cons _).trans perm_middle.symm
  · next hsmall =>
    have hmarked := hrep.mark hnot (some n)
      (fun m hm => by cases hm; exact Nat.le_trans hn hle)
      (hflags _ (hrep.tiles.ok placed_mid).2.2.2)
    refine ⟨_, _, ⟨hmarked.setAllocCount _, ?_, h.spaced.hold (by simp), ?_, hallocs⟩, rfl, rfl⟩
    · show List.Perm _ (freeOf a.regionBase _)
      rw [freeOf_mid_held]
      exact hexact
    · show List.Perm _ (liveOf a.regionBase _)
      rw [liveOf_mid_held]
      exact (hholds.cons _).trans perm_middle.symm

/-- A request whose block fits in a header is refused, or gets a block. -/
theorem InOrder.alloc (h : InOrder a mem cs free live) {size align : BitVec 64}
    (hfit : ∀ used, l2Align align = some used → blockBytes size used < 2 ^ 32) :
    ∃ r, l2Alloc a mem size align = some r ∧ (r = (0, a, mem) ∨
      ∃ cs' free', InOrder r.2.1 r.2.2 cs' free' ((r.1, size.toNat) :: live) ∧
        r.2.1.regionBase = a.regionBase ∧ r.2.1.regionEnd = a.regionEnd) := by
  unfold l2Alloc
  split
  · exact ⟨_, rfl, .inl rfl⟩
  · split
    · exact ⟨_, rfl, .inl rfl⟩
    · next used hused =>
      obtain ⟨⟨k, hk⟩, -⟩ := l2Align_spec hused
      obtain ⟨hsize, hmin, hal⟩ := size_le_blockBytes hk size
      have hwant := wantTotal_eq hk (hfit used hused)
      have h0 := h.rep.nodes.zero_notMem
      obtain ⟨b, hb, hor⟩ := firstFit_spec (wantTotal size used) h.rep.listed.linked h0
        h.fuel
      rw [← h.rep.listed.head] at hb
      dsimp only
      rw [hb]
      refine ⟨_, rfl, ?_⟩
      rcases hor with ⟨rfl, -⟩ | ⟨l₁, l₂, hfree, hle⟩
      · exact .inl rfl
      · have hb0 : b ≠ 0 := by
          rintro rfl
          rw [hfree] at h0
          exact h0 (mem_append_right _ (mem_cons_self ..))
        dsimp only
        rw [if_neg hb0]
        right
        exact h.take hfree hle (by omega) (by omega) (by omega)

/-! ## Freeing -/

/-- A block is neither used nor listed: the middle of `l2_free`. -/
structure Freeing (a : L2Alloc) (mem : Mem) (pre : List Chunk) (s : Nat) (post : List Chunk)
    (free : List Nat) : Prop where
  rep : Rep a mem (pre ++ ⟨s, none⟩ :: post) free
  exact : free.Perm (freeOf a.regionBase pre ++ freeOf (a.regionBase + total pre + s) post)
  before : Spaced pre
  after : Spaced post

/-- The two coalescings move the handle's free list only. -/
structure SameHeap (a a' : L2Alloc) : Prop where
  base : a'.regionBase = a.regionBase
  stop : a'.regionEnd = a.regionEnd
  allocs : a'.allocCount = a.allocCount

theorem Freeing.notMem {s : Nat} (h : Freeing a mem pre s post free) :
    a.regionBase + total pre ∉ free := by
  intro hm
  have hmin := (h.rep.ok ⟨s, none⟩ (mem_append_right _ (mem_cons_self ..))).min
  dsimp only at hmin
  rcases mem_append.mp (h.exact.mem_iff.mp hm) with hf | hf
  · obtain ⟨d, hd, -⟩ := mem_freeOf.mp hf
    have hok := h.rep.ok d (mem_append_left _ (placed_mem hd))
    have hhi := (placed_bounds hd).2
    have hdmin := hok.min
    omega
  · obtain ⟨d, hd, -⟩ := mem_freeOf.mp hf
    have hlo := (placed_bounds hd).1
    omega

theorem isFree_iff {p prev e b : Nat} {c : Chunk} (h : Tiles mem p prev cs e)
    (hb : (b, c) ∈ placed p cs) : isFree mem b = true ↔ c.held = none := by
  have hflags := (h.ok hb).2.2.2
  unfold isFree
  rw [hflags]
  unfold Chunk.flags
  cases c.held with
  | none => simp [l2FlagInUse]
  | some n => simp [l2FlagInUse]

theorem Rep.join {x y r : Nat} {l₁ l₂ : List Nat}
    (h : Rep a mem (pre ++ ⟨x, none⟩ :: ⟨y, none⟩ :: post) (l₁ ++ r :: l₂))
    (h₁ : a.regionBase + total pre ∉ l₁ ++ l₂) (h₂ : a.regionBase + total pre + x ∉ l₁ ++ l₂) :
    let u := flRemove a mem r
    let b := a.regionBase + total pre
    let m := setField u.2 b .size (field u.2 b .size + field u.2 (b + x) .size)
    Rep u.1 (setAfter u.1 m b (field m b .size)) (pre ++ ⟨x + y, none⟩ :: post) (l₁ ++ l₂) := by
  have hx : (a.regionBase + total pre, ⟨x, none⟩) ∈ placed a.regionBase
      (pre ++ ⟨x, none⟩ :: ⟨y, none⟩ :: post) := placed_mid
  have hy : (a.regionBase + total pre + x, ⟨y, none⟩) ∈ placed a.regionBase
      (pre ++ ⟨x, none⟩ :: ⟨y, none⟩ :: post) := by
    rw [placed_append]
    exact mem_append_right _ (mem_cons_of_mem _ (mem_cons_self ..))
  have hsx : (field mem (a.regionBase + total pre) .size).toNat = x := (h.tiles.ok hx).2.2.1
  have hsy : (field mem (a.regionBase + total pre + x) .size).toNat = y := (h.tiles.ok hy).2.2.1
  have hfx := field_flRemove h.listed h.nodes (h.spread hx)
  have hfy := field_flRemove h.listed h.nodes (h.spread hy)
  have hend := h.end_eq
  have hlt := h.size_lt
  rw [total_append, total_cons, total_cons] at hend
  dsimp only at hend ⊢
  rw [hfx, hfy, field_setField_self]
  refine h.remove.1.merge rfl h₁ h₂ ?_ rfl
  rw [BitVec.toNat_add, hsx, hsy]
  exact Nat.mod_eq_of_lt (by omega)

theorem Freeing.coalescePrev {s : Nat} (h : Freeing a mem pre s post free) {a' : L2Alloc}
    {mem' : Mem} {b : Nat} (hr : coalescePrev a mem (a.regionBase + total pre) = (a', mem', b)) :
    ∃ pre' s' free', Freeing a' mem' pre' s' post free' ∧ b = a.regionBase + total pre' ∧
      (∀ d ∈ pre'.getLast?, d.held ≠ none) ∧ total pre' + s' = total pre + s ∧
      liveOf a.regionBase pre' = liveOf a.regionBase pre ∧ SameHeap a a' := by
  have hnot := h.notMem
  obtain ⟨hpre, hs, hp, -⟩ := tiles_append.mp h.rep.tiles
  unfold Mgapi.coalescePrev prevBlock at hr
  rcases eq_nil_or_concat pre with rfl | ⟨pre', q, rfl⟩
  · have h0 : field mem (a.regionBase + total []) .prevSize = 0 :=
      BitVec.eq_of_toNat_eq (hp.trans rfl)
    rw [if_pos h0] at hr
    cases hr
    exact ⟨[], s, free, h, rfl, by simp, rfl, rfl, rfl, rfl, rfl⟩
  · rw [concat_eq_append] at *
    rw [lastSize_concat] at hp
    have hq : (a.regionBase + total pre', q) ∈ placed a.regionBase
        ((pre' ++ [q]) ++ ⟨s, none⟩ :: post) := by
      rw [append_assoc]
      exact placed_mid
    have hqmin := (h.rep.ok q (placed_mem hq)).min
    have hb : a.regionBase + total (pre' ++ [q]) = a.regionBase + total pre' + q.size := by
      rw [total_append, total_cons, total_nil, Nat.add_zero, Nat.add_assoc]
    have hne : field mem (a.regionBase + total (pre' ++ [q])) .prevSize ≠ 0 := by
      intro h0
      rw [h0] at hp
      have hzero : q.size = 0 := hp.symm.trans rfl
      omega
    have hprev : a.regionBase + total (pre' ++ [q]) -
        (field mem (a.regionBase + total (pre' ++ [q])) .prevSize).toNat =
          a.regionBase + total pre' := by
      rw [hp, hb, Nat.add_sub_cancel]
    rw [if_neg hne, hprev] at hr
    dsimp only at hr
    by_cases hheld : q.held = none
    · rw [if_pos ((isFree_iff h.rep.tiles hq).mpr hheld)] at hr
      obtain ⟨qs, _⟩ := q
      cases hheld
      have hexact := h.exact
      rw [freeOf_append, freeOf_cons, if_pos rfl] at hexact
      have hmem : a.regionBase + total pre' ∈ free := by
        rw [hexact.mem_iff, append_assoc]
        exact mem_append_right _ (mem_cons_self ..)
      obtain ⟨l₁, l₂, rfl⟩ := append_of_mem hmem
      have hnot₁ := h.rep.remove.2
      have hnot₂ : a.regionBase + total pre' + qs ∉ l₁ ++ l₂ := by
        rw [hb] at hnot
        exact fun hm => hnot (mem_of_append hm)
      have hrep := h.rep
      rw [append_assoc] at hrep
      have hjoin := hrep.join hnot₁ hnot₂
      have hbefore : Spaced (pre' ++ [⟨qs, none⟩]) := h.before
      obtain ⟨hpre', hlast, -, -⟩ := spaced_mid.mp hbefore
      dsimp only at hjoin
      rw [hb] at hr
      cases hr
      refine ⟨pre', qs + s, l₁ ++ l₂, ⟨hjoin, ?_, hpre', h.after⟩, rfl, ?_, ?_, ?_, rfl, rfl, rfl⟩
      · have hstart : freeOf (a.regionBase + total pre' + (qs + s)) post =
            freeOf (a.regionBase + total (pre' ++ [⟨qs, none⟩]) + s) post := by
          rw [hb, Nat.add_assoc _ qs]
        rw [append_assoc] at hexact
        show List.Perm _ (freeOf a.regionBase pre' ++ freeOf (a.regionBase + total pre' + (qs + s))
          post)
        rw [hstart]
        exact perm_middle_inv hexact
      · exact fun d hd => (hlast d hd).resolve_right (absurd rfl)
      · rw [total_append, total_cons, total_nil]
        dsimp only
        omega
      · rw [liveOf_append]
        exact (append_nil _).symm
    · rw [if_neg (by rw [isFree_iff h.rep.tiles hq]; exact hheld)] at hr
      cases hr
      refine ⟨_, s, free, h, rfl, fun d hd => ?_, rfl, rfl, rfl, rfl, rfl⟩
      rw [List.getLast?_concat] at hd
      cases hd
      exact hheld

theorem Freeing.coalesceNext {s : Nat} (h : Freeing a mem pre s post free) {a' : L2Alloc}
    {mem' : Mem} (hr : coalesceNext a mem (a.regionBase + total pre) = (a', mem')) :
    ∃ s' post' free', Freeing a' mem' pre s' post' free' ∧ (∀ d ∈ post'.head?, d.held ≠ none) ∧
      liveOf (a.regionBase + total pre + s') post' = liveOf (a.regionBase + total pre + s) post ∧
      SameHeap a a' := by
  have hnot := h.notMem
  obtain ⟨-, hs, -, -, -, hok, hpost⟩ := tiles_append.mp h.rep.tiles
  have hs : (field mem (a.regionBase + total pre) .size).toNat = s := hs
  unfold Mgapi.coalesceNext nextBlock at hr
  rw [hs] at hr
  cases post with
  | nil =>
    have hend : a.regionBase + total pre + s = a.regionEnd := hpost
    rw [if_pos (Nat.le_of_eq hend.symm)] at hr
    cases hr
    exact ⟨s, [], free, h, by simp, rfl, rfl, rfl, rfl⟩
  | cons d post =>
    have hd : (a.regionBase + total pre + s, d) ∈ placed a.regionBase
        (pre ++ ⟨s, none⟩ :: d :: post) := by
      rw [placed_append]
      exact mem_append_right _ (mem_cons_of_mem _ (mem_cons_self ..))
    have hmin := (h.rep.ok d (placed_mem hd)).min
    have hend := hpost.end_eq
    rw [total_cons] at hend
    dsimp only at hend hok
    rw [if_neg (by omega)] at hr
    dsimp only at hr
    by_cases hheld : d.held = none
    · rw [if_pos ((isFree_iff h.rep.tiles hd).mpr hheld)] at hr
      obtain ⟨ds, _⟩ := d
      cases hheld
      have hexact := h.exact
      rw [freeOf_cons, if_pos rfl] at hexact
      have hmem : a.regionBase + total pre + s ∈ free := by
        rw [hexact.mem_iff]
        exact mem_append_right _ (mem_cons_self ..)
      obtain ⟨l₁, l₂, rfl⟩ := append_of_mem hmem
      have hnot₂ := h.rep.remove.2
      have hnot₁ : a.regionBase + total pre ∉ l₁ ++ l₂ := fun hm => hnot (mem_of_append hm)
      have hjoin := h.rep.join hnot₁ hnot₂
      obtain ⟨hnext, hafter⟩ := spaced_cons.mp h.after
      dsimp only at hjoin
      cases hr
      refine ⟨s + ds, post, l₁ ++ l₂, ⟨hjoin, ?_, h.before, hafter⟩, ?_, ?_, rfl, rfl, rfl⟩
      · show List.Perm _ (freeOf a.regionBase pre ++ freeOf (a.regionBase + total pre + (s + ds))
          post)
        rw [← Nat.add_assoc]
        exact perm_middle_inv hexact
      · exact fun e he => (hnext e he).resolve_left (absurd rfl)
      · rw [liveOf_cons_free, Nat.add_assoc _ s]
    · rw [if_neg (by rw [isFree_iff h.rep.tiles hd]; exact hheld)] at hr
      cases hr
      refine ⟨s, _, free, h, fun e he => ?_, rfl, rfl, rfl, rfl⟩
      cases he
      exact hheld

theorem Freeing.push {s : Nat} (h : Freeing a mem pre s post free)
    (hbefore : ∀ d ∈ pre.getLast?, d.held ≠ none) (hafter : ∀ d ∈ post.head?, d.held ≠ none)
    (hlive : live.Perm (liveOf a.regionBase pre ++ liveOf (a.regionBase + total pre + s) post))
    (hallocs : a.allocCount = BitVec.ofNat 32 live.length) :
    let r := flPush a mem (a.regionBase + total pre)
    InOrder r.1 r.2 (pre ++ ⟨s, none⟩ :: post) ((a.regionBase + total pre) :: free) live := by
  have hb : a.regionBase + total pre ∈ freeOf a.regionBase (pre ++ ⟨s, none⟩ :: post) := by
    rw [freeOf_mid_free]
    exact mem_append_right _ (mem_cons_self ..)
  refine ⟨h.rep.push hb h.notMem, ?_, ?_, ?_, hallocs⟩
  · show List.Perm _ (freeOf a.regionBase _)
    rw [freeOf_mid_free]
    exact (h.exact.cons _).trans perm_middle.symm
  · exact spaced_mid.mpr ⟨h.before, fun d hd => .inl (hbefore d hd),
      fun d hd => .inr (hafter d hd), h.after⟩
  · show List.Perm _ (liveOf a.regionBase _)
    rw [liveOf_mid_free]
    exact hlive

theorem InOrder.release (h : InOrder a mem cs free live) {p n : Nat} {k₁ k₂ : List (Nat × Nat)}
    (hlive : live = k₁ ++ (p, n) :: k₂) :
    let r := l2Free a mem p
    ∃ cs' free', InOrder r.1 r.2 cs' free' (k₁ ++ k₂) ∧
      r.1.regionBase = a.regionBase ∧ r.1.regionEnd = a.regionEnd := by
  subst hlive
  have hmem := h.holds.mem_iff.mp (mem_append_right k₁ (mem_cons_self ..))
  obtain ⟨y, ⟨s, held⟩, hplaced, hheld, rfl⟩ := mem_liveOf.mp hmem
  cases hheld
  have hbusy : ¬isFree mem y = true := by
    rw [isFree_iff h.rep.tiles hplaced]
    simp
  have hflags : field mem y .flags &&& ~~~l2FlagInUse = Chunk.flags ⟨s, none⟩ := by
    rw [(h.rep.tiles.ok hplaced).2.2.2]
    show (1 : BitVec 32) &&& ~~~1 = 0
    decide
  obtain ⟨pre, post, rfl, rfl⟩ := placed_split hplaced
  have hnot : a.regionBase + total pre ∉ free := by
    intro hm
    obtain ⟨d, hd, hnone⟩ := mem_freeOf.mp (h.rep.free _ hm)
    have hdmin := (h.rep.ok d (placed_mem hd)).min
    rcases placed_apart hd hplaced with ⟨-, rfl⟩ | he | he
    · cases hnone
    · omega
    · have hmin := (h.rep.ok _ (placed_mem hplaced)).min
      dsimp only at he hmin
      omega
  have hexact := h.exact
  have hholds := h.holds
  rw [freeOf_mid_held] at hexact
  rw [liveOf_mid_held] at hholds
  replace hholds := perm_middle_inv hholds
  have hallocs : a.allocCount - 1 = BitVec.ofNat 32 (k₁ ++ k₂).length := by
    rw [h.allocs, length_append, length_append, length_cons, ← Nat.add_assoc,
      BitVec.ofNat_add]
    exact BitVec.add_sub_cancel ..
  obtain ⟨hpre, -, -, hpost⟩ := spaced_mid.mp h.spaced
  have hmark := (h.rep.mark hnot none (fun m hm => by cases hm) hflags).setAllocCount
    (a.allocCount - 1)
  have hfreeing : Freeing _ _ pre s post free := ⟨hmark, hexact, hpre, hpost⟩
  have hne : blockPayload (a.regionBase + total pre) ≠ 0 := Nat.succ_ne_zero _
  have hblock : payloadBlock (blockPayload (a.regionBase + total pre)) = a.regionBase + total pre :=
    Nat.add_sub_cancel ..
  unfold l2Free
  rw [if_neg hne]
  dsimp only
  rw [hblock, if_neg hbusy]
  generalize hprev : coalescePrev _ _ _ = r
  obtain ⟨a₁, mem₁, b⟩ := r
  obtain ⟨pre', s', free', hf', rfl, hlast, htotal, hlivepre, hsame⟩ := hfreeing.coalescePrev hprev
  have hbase : a₁.regionBase = a.regionBase := hsame.base
  dsimp only at hlivepre ⊢
  rw [← hbase] at hlivepre hholds ⊢
  generalize hnext : coalesceNext a₁ mem₁ _ = r
  obtain ⟨a₂, mem₂⟩ := r
  obtain ⟨s'', post', free'', hf'', hhead, hlivepost, hsame'⟩ := hf'.coalesceNext hnext
  have hbase' : a₂.regionBase = a₁.regionBase := hsame'.base
  have hstart : a₁.regionBase + total pre' + s' = a₁.regionBase + total pre + s := by omega
  have hlive' : (k₁ ++ k₂).Perm (liveOf a₂.regionBase pre' ++
      liveOf (a₂.regionBase + total pre' + s'') post') := by
    rw [hbase', hlivepost, hlivepre, hstart]
    exact hholds
  have hpushed := hf''.push hlast hhead hlive' (hsame'.allocs.trans (hsame.allocs.trans hallocs))
  rw [← hbase']
  exact ⟨_, _, hpushed, rfl, hsame'.stop.trans hsame.stop⟩

end Orders

end Microgarbage.Mgapi
