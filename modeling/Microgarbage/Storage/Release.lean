import Microgarbage.Storage.BlockMap

/-!
# Release of blocks

`free_all_blocks` walks the tree of an inode and clears the bit of every block it names. The pointer
blocks keep their contents until they are allocated again, so the tree can be read off them all the
way; in the end the inode names nothing and a mapped volume stays mapped.
-/

namespace Microgarbage.Storage

open Lib

variable {v v' w : TrashfsVolume} {p q : BlockPos} {S S' : Nat → Prop}

/-! ## Sets of blocks -/

/-- The blocks of `S` became free; nothing else changed. -/
structure Cleared (v v' : TrashfsVolume) (S : Nat → Prop) : Prop where
  layout : v'.toTrashfsLayout = v.toTrashfsLayout
  freeInodes : v'.freeInodes = v.freeInodes
  region : ∀ x, v.inodeStart * 128 ≤ x → v'.region x = v.region x
  bits : ∀ c < v.totalBlocks, v'.bitmapTest c = true ↔ v.bitmapTest c = true ∧ ¬S c
  free : v.freeBlocks = clearBlocks v → v'.freeBlocks = clearBlocks v'

theorem Cleared.refl (v : TrashfsVolume) : Cleared v v fun _ => False :=
  ⟨rfl, rfl, fun _ _ => rfl, fun _ _ => (and_iff_left id).symm, id⟩

theorem Cleared.trans (h : Cleared v v' S) (h' : Cleared v' w S') :
    Cleared v w fun c => S c ∨ S' c := by
  obtain ⟨hl, hi, hr, hb, hf⟩ := h
  obtain ⟨hl', hi', hr', hb', hf'⟩ := h'
  rw [hl] at hr' hb'
  refine ⟨hl'.trans hl, hi'.trans hi, fun x hx => (hr' x hx).trans (hr x hx), fun c hc => ?_,
    fun hfree => hf' (hf hfree)⟩
  rw [hb' c hc, hb c hc, not_or, and_assoc]

theorem Cleared.congr (h : Cleared v v' S) (hS : ∀ c < v.totalBlocks, S' c ↔ S c) :
    Cleared v v' S' := by
  refine { h with bits := fun c hc => ?_ }
  rw [h.bits c hc, hS c hc]

theorem freeBlock_cleared (h : v.Ordered) (b : Nat) :
    Cleared v (v.freeBlock b) fun c => c = b ∧ v.dataStart ≤ b := by
  have hpos := h.inode_le_data
  by_cases hb : v.dataStart ≤ b ∧ b < v.totalBlocks
  · cases hset : v.bitmapTest b with
    | true =>
      have hf := freeBlock_spec h hb hset
      refine ⟨hf.layout, hf.freeInodes, fun x hx => hf.frame x (h.not_bitmap hx), fun c hc => ?_,
        fun hfree => ?_⟩
      · rw [hf.bits c hc, Bool.and_eq_true, Bool.not_eq_true', decide_eq_false_iff_not]
        refine ⟨fun hand => ⟨hand.2, fun hS => hand.1 hS.1⟩, fun hand => ⟨fun hcb => ?_, hand.1⟩⟩
        exact hand.2 ⟨hcb, hb.1⟩
      · rw [hf.freeBlocks, hf.clear h hb hset, hfree]
    | false =>
      have hsame : v.freeBlock b = v := by
        unfold TrashfsVolume.freeBlock
        rw [if_neg (by unfold trashfsBlockNone; omega), if_neg (by omega), hset]
        rfl
      rw [hsame]
      refine ⟨rfl, rfl, fun _ _ => rfl, fun c _ => ⟨fun hbit => ⟨hbit, ?_⟩, fun hand => hand.1⟩, id⟩
      rintro ⟨rfl, -⟩
      rw [hset] at hbit
      cases hbit
  · have hsame : v.freeBlock b = v := by
      unfold TrashfsVolume.freeBlock
      split
      · rfl
      · rw [if_pos (by omega)]
    rw [hsame]
    refine (Cleared.refl v).congr fun c hc => ?_
    rw [iff_false]
    rintro ⟨rfl, hle⟩
    exact hb ⟨hle, hc⟩

/-! ## The tree under a position -/

/-- `q` is `p` or below it. -/
def Under (p q : BlockPos) : Prop := q.ino = p.ino ∧ q.slot = p.slot ∧ p.up <:+ q.up

/-- The blocks named at `p` and below. -/
def Named (v : TrashfsVolume) (p : BlockPos) (c : Nat) : Prop :=
  c ≠ 0 ∧ ∃ q, q.Valid v.toTrashfsLayout ∧ Under p q ∧ v.blockAt q = c

theorem Under.refl (p : BlockPos) : Under p p := ⟨rfl, rfl, List.suffix_rfl⟩

theorem Under.of_child {i : Nat} (h : Under (p.child i) q) : Under p q :=
  ⟨h.1, h.2.1, (List.suffix_cons i p.up).trans h.2.2⟩

theorem under_cases (h : Under p q) : q = p ∨ ∃ i, i ∈ q.up ∧ Under (p.child i) q := by
  obtain ⟨hino, hslot, l, hl⟩ := h
  cases l using List.reverseRecOn with
  | nil =>
    left
    obtain ⟨ino, slot, up⟩ := p
    obtain ⟨ino', slot', up'⟩ := q
    dsimp only at hino hslot hl
    rw [hino, hslot, ← hl, List.nil_append]
  | append_singleton l i =>
    right
    rw [List.append_assoc] at hl
    refine ⟨i, ?_, hino, hslot, l, hl⟩
    rw [← hl]
    simp

theorem blockAt_under_none (h : v.blockAt p = 0) (hq : Under p q) : v.blockAt q = 0 := by
  induction q using BlockPos.rec_child with
  | root ino slot =>
    obtain ⟨hino, hslot, hsuf⟩ := hq
    obtain ⟨ino', slot', up⟩ := p
    dsimp only at hino hslot hsuf
    rw [List.suffix_nil.mp hsuf, ← hino, ← hslot] at h
    exact h
  | child q i ih =>
    rcases List.suffix_cons_iff.mp hq.2.2 with hup | hsuf
    · obtain ⟨ino, slot, up⟩ := p
      obtain ⟨hino, hslot, -⟩ := hq
      dsimp only at hino hslot hup
      rw [hup, ← hino, ← hslot] at h
      exact h
    · exact blockAt_child_none (ih ⟨hq.1, hq.2.1, hsuf⟩)

theorem named_none (h : v.blockAt p = 0) (c : Nat) : ¬Named v p c := by
  rintro ⟨hc, q, -, hq, hqc⟩
  exact hc (hqc ▸ blockAt_under_none h hq)

theorem named_leaf (hp : p.Valid v.toTrashfsLayout) (hleaf : p.Leaf) {c : Nat} :
    Named v p c ↔ c ≠ 0 ∧ c = v.blockAt p := by
  refine and_congr_right fun _ => ⟨?_, fun hc => ⟨p, hp, .refl p, hc.symm⟩⟩
  rintro ⟨q, hq, hu, rfl⟩
  rcases under_cases hu with rfl | ⟨i, -, hchild⟩
  · rfl
  · have hlen := hchild.2.2.length_le
    have hdepth := hq.depth
    rw [hu.2.1] at hdepth
    have hpl : p.up.length = slotDepth p.slot := hleaf
    have hcl : (p.child i).up.length = p.up.length + 1 := rfl
    omega

theorem named_children (hp : p.Valid v.toTrashfsLayout) {c : Nat} :
    Named v p c ↔ (c ≠ 0 ∧ c = v.blockAt p) ∨ ∃ i < 32, Named v (p.child i) c := by
  constructor
  · rintro ⟨hc, q, hq, hu, rfl⟩
    rcases under_cases hu with rfl | ⟨i, hi, hchild⟩
    · exact .inl ⟨hc, rfl⟩
    · exact .inr ⟨i, hq.index i hi, hc, q, hq, hchild, rfl⟩
  · rintro (⟨hc, rfl⟩ | ⟨i, -, hc, q, hq, hu, rfl⟩)
    · exact ⟨hc, p, hp, .refl p, rfl⟩
    · exact ⟨hc, q, hq, hu.of_child, rfl⟩

theorem Cleared.slotPtr (h : Cleared v w S) (hm : Mapped v) (hp : p.Valid v.toTrashfsLayout)
    (hr : Reached v p) : w.slotPtr (v.pointerAt p) = v.blockAt p := by
  rw [← slotPtr_pointerAt hr]
  have hge := hm.tree.pointerAt_ge hp hr
  exact slotPtr_congr fun i _ => h.region _ (by omega)

theorem foldl_cleared {f : TrashfsVolume → Nat → TrashfsVolume} {T : Nat → Nat → Prop} {n : Nat}
    (hf : ∀ i < n, ∀ w S, Cleared v w S → Cleared w (f w i) (T i)) (hw : Cleared v w S) :
    Cleared w ((List.range n).foldl f w) fun c => ∃ i < n, T i c := by
  induction n with
  | zero => exact (Cleared.refl w).congr fun c _ => by simp
  | succ n ih =>
    have hprev := ih fun i hi => hf i (by omega)
    rw [List.range_succ, List.foldl_append]
    refine (hprev.trans (hf n (Nat.lt_succ_self n) _ _ (hw.trans hprev))).congr fun c _ => ?_
    constructor
    · rintro ⟨i, hi, hT⟩
      rcases Nat.lt_succ_iff_lt_or_eq.mp hi with hlt | rfl
      · exact .inl ⟨i, hlt, hT⟩
      · exact .inr hT
    · rintro (⟨i, hi, hT⟩ | hT)
      · exact ⟨i, by omega, hT⟩
      · exact ⟨n, Nat.lt_succ_self n, hT⟩

theorem freeBlock_named (hm : Mapped v) (hp : p.Valid v.toTrashfsLayout) (hw : Cleared v w S) :
    Cleared w (w.freeBlock (v.blockAt p)) fun c => c ≠ 0 ∧ c = v.blockAt p := by
  have hord : w.Ordered := hw.layout ▸ hm.ordered
  refine (freeBlock_cleared hord _).congr fun c _ => ?_
  rw [hw.layout]
  have hle := hm.ordered.inode_le_data
  constructor
  · rintro ⟨hc, rfl⟩
    exact ⟨rfl, (hm.data p hp hc).1⟩
  · rintro ⟨rfl, hge⟩
    exact ⟨by omega, rfl⟩

theorem freeTree_cleared {depth : Nat} (hm : Mapped v) (hp : p.Valid v.toTrashfsLayout)
    (hdepth : p.up.length + depth = slotDepth p.slot) (hw : Cleared v w S) :
    Cleared w (TrashfsVolume.freeTree depth w (v.blockAt p)) (Named v p) := by
  induction depth generalizing p w S with
  | zero => exact (freeBlock_named hm hp hw).congr fun c _ => named_leaf hp hdepth
  | succ depth ih =>
    unfold TrashfsVolume.freeTree
    by_cases hnone : v.blockAt p = trashfsBlockNone
    · rw [if_pos hnone]
      refine (Cleared.refl w).congr fun c _ => ?_
      rw [iff_false]
      exact named_none hnone c
    · rw [if_neg hnone]
      have hchild : ∀ i < trashfsPtrsPerBlock, ∀ w' S', Cleared v w' S' →
          Cleared w' (TrashfsVolume.freeTree depth w'
            (w'.slotPtr (blockPtr (v.blockAt p) + i * 4))) (Named v (p.child i)) := by
        intro i hi w' S' hw'
        have hvalid := hp.child hi (by omega)
        have hslot := hw'.slotPtr hm hvalid (reached_child hnone)
        rw [← pointerAt_child, hslot]
        have hdepth' : (p.child i).up.length + depth = slotDepth (p.child i).slot := by
          have hlen : (p.child i).up.length = p.up.length + 1 := rfl
          have hsl : (p.child i).slot = p.slot := rfl
          rw [hlen, hsl]
          omega
        exact ih hvalid hdepth' hw'
      have hloop := foldl_cleared hchild hw
      refine (hloop.trans (freeBlock_named hm hp (hw.trans hloop))).congr fun c _ => ?_
      rw [named_children hp]
      exact or_comm

/-! ## Slots of an inode -/

/-- The slots of `K` of an inode name nothing; the blocks under them are free. -/
structure Emptied (v v' : TrashfsVolume) (ino : Nat) (K : Nat → Prop) : Prop where
  layout : v'.toTrashfsLayout = v.toTrashfsLayout
  freeInodes : v'.freeInodes = v.freeInodes
  mapped : Mapped v'
  gone : ∀ q, q.Valid v.toTrashfsLayout → q.ino = ino → K q.slot → v'.blockAt q = 0
  kept : ∀ q, q.Valid v.toTrashfsLayout → ¬(q.ino = ino ∧ K q.slot) → v'.blockAt q = v.blockAt q
  frame : ∀ x, v.inodeStart * 128 ≤ x →
    (∀ s, K s → x < v.inodePtr ino + s ∨ v.inodePtr ino + s + 4 ≤ x) → v'.region x = v.region x

theorem Emptied.refl (hm : Mapped v) (ino : Nat) : Emptied v v ino fun _ => False :=
  ⟨rfl, rfl, hm, fun _ _ _ h => h.elim, fun _ _ _ => rfl, fun _ _ _ => rfl⟩

theorem Emptied.trans {ino : Nat} {K K' : Nat → Prop} (h : Emptied v v' ino K)
    (h' : Emptied v' w ino K') : Emptied v w ino fun s => K s ∨ K' s := by
  obtain ⟨hl, hi, hm, hg, hk, hf⟩ := h
  obtain ⟨hl', hi', hm', hg', hk', hf'⟩ := h'
  rw [hl] at hg' hk' hf'
  refine ⟨hl'.trans hl, hi'.trans hi, hm', fun q hq hino hK => ?_, fun q hq hK => ?_,
    fun x hx hout => ?_⟩
  · by_cases hlast : K' q.slot
    · exact hg' q hq hino hlast
    · rw [hk' q hq fun hand => hlast hand.2]
      exact hg q hq hino (hK.resolve_right hlast)
  · rw [hk' q hq fun hand => hK ⟨hand.1, .inr hand.2⟩]
    exact hk q hq fun hand => hK ⟨hand.1, .inl hand.2⟩
  · rw [hf' x hx fun s hs => hout s (.inr hs)]
    exact hf x hx fun s hs => hout s (.inl hs)

theorem Emptied.congr {ino : Nat} {K K' : Nat → Prop} (h : Emptied v v' ino K)
    (hK : ∀ t, K' t ↔ K t) : Emptied v v' ino K' := by
  refine ⟨h.layout, h.freeInodes, h.mapped, fun q hq heq hmem => h.gone q hq heq ((hK _).mp hmem),
    fun q hq hnot => h.kept q hq fun hand => hnot ⟨hand.1, (hK _).mpr hand.2⟩,
    fun x hx hout => h.frame x hx fun t ht => hout t ((hK t).mpr ht)⟩

theorem blockAt_cut {ino slot : Nat} (hm : Mapped v) (hi : ino < v.inodeCount)
    (hs : 16 ≤ slot ∧ slot < 60 ∧ slot % 4 = 0) (hl : v'.toTrashfsLayout = v.toTrashfsLayout)
    (hzero : v'.slotPtr (v.inodePtr ino + slot) = 0)
    (hframe : ∀ x, v.inodeStart * 128 ≤ x →
      (x < v.inodePtr ino + slot ∨ v.inodePtr ino + slot + 4 ≤ x) → v'.region x = v.region x)
    (hq : q.Valid v.toTrashfsLayout) :
    (q.ino = ino ∧ q.slot = slot → v'.blockAt q = 0) ∧
      (¬(q.ino = ino ∧ q.slot = slot) → v'.blockAt q = v.blockAt q) := by
  have hp : (⟨ino, slot, []⟩ : BlockPos).Valid v.toTrashfsLayout := ⟨hi, hs, Nat.zero_le _, nofun⟩
  have hcut : v.pointerAt ⟨ino, slot, []⟩ = v.inodePtr ino + slot := rfl
  have hother : ∀ q, q.Valid v.toTrashfsLayout → Reached v q → q ≠ ⟨ino, slot, []⟩ →
      v'.slotPtr (v.pointerAt q) = v.blockAt q := by
    intro q hq hr hne
    rw [← slotPtr_pointerAt hr]
    have hapart := hm.tree.pointerAt_apart hq hr hp (reached_root v ino slot) hne
    have hge := hm.tree.pointerAt_ge hq hr
    rw [hcut] at hapart
    exact slotPtr_congr fun k hk => hframe _ (by omega) (by omega)
  induction q using BlockPos.rec_child with
  | root ino' slot' =>
    have hroot : v'.blockAt ⟨ino', slot', []⟩ = v'.slotPtr (v.pointerAt ⟨ino', slot', []⟩) := by
      rw [blockAt_root, hl]
      rfl
    rw [hroot]
    refine ⟨?_, fun hne => ?_⟩
    · rintro ⟨rfl, rfl⟩
      exact hzero
    · refine hother _ hq (reached_root v ino' slot') fun heq => hne ?_
      simp only [BlockPos.mk.injEq, and_true] at heq
      exact heq
  | child q i ih =>
    obtain ⟨hparent, -, -⟩ := hq.parent
    obtain ⟨hgone, hkept⟩ := ih hparent
    refine ⟨fun hcond => blockAt_child_none (hgone hcond), fun hne => ?_⟩
    have hsame := hkept hne
    by_cases hz : v.blockAt q = 0
    · rw [blockAt_child_none hz, blockAt_child_none (hsame.trans hz)]
    · have hz' : v'.blockAt q ≠ 0 := fun h => hz (hsame.symm.trans h)
      rw [blockAt_child_some hz', hsame, ← pointerAt_child]
      refine hother (q.child i) hq (reached_child hz) fun heq => ?_
      have hup := congrArg BlockPos.up heq
      cases hup

theorem freeSlot_emptied {ino slot : Nat} (hm : Mapped v) (hi : ino < v.inodeCount)
    (hs : 16 ≤ slot ∧ slot < 60 ∧ slot % 4 = 0) :
    Emptied v (v.freeSlot (v.inodePtr ino) (slot, slotDepth slot)) ino (· = slot) := by
  have hp : (⟨ino, slot, []⟩ : BlockPos).Valid v.toTrashfsLayout := ⟨hi, hs, Nat.zero_le _, nofun⟩
  have htree : Cleared v
      (TrashfsVolume.freeTree (slotDepth slot) v (v.slotPtr (v.inodePtr ino + slot)))
      (Named v ⟨ino, slot, []⟩) := freeTree_cleared hm hp (Nat.zero_add _) (.refl v)
  unfold TrashfsVolume.freeSlot
  dsimp only
  generalize TrashfsVolume.freeTree (slotDepth slot) v (v.slotPtr (v.inodePtr ino + slot)) = w
    at htree ⊢
  obtain ⟨a, ha⟩ : ∃ a, v.inodePtr ino + slot = a := ⟨_, rfl⟩
  obtain ⟨v', hv'⟩ : ∃ v' : TrashfsVolume, { w with region := wr32 w.region a 0 } = v' := ⟨_, rfl⟩
  have hrange := hm.ordered.inode_range (k := slot) hi (by omega)
  rw [ha] at hrange ⊢
  rw [hv']
  have hregion : v'.region = wr32 w.region a 0 := by rw [← hv']
  have hlayout : v'.toTrashfsLayout = v.toTrashfsLayout := by
    rw [← hv']
    exact htree.layout
  have hzero : v'.slotPtr a = 0 := by
    unfold TrashfsVolume.slotPtr
    rw [hregion, rd32_wr32]
    rfl
  have hframe : ∀ x, v.inodeStart * 128 ≤ x → (x < a ∨ a + 4 ≤ x) → v'.region x = v.region x := by
    intro x hx hout
    rw [hregion, wr32_out hout]
    exact htree.region x hx
  have hblocks := fun q hq => blockAt_cut (q := q) hm hi hs hlayout (ha ▸ hzero) (ha ▸ hframe) hq
  have hordw : w.Ordered := htree.layout ▸ hm.ordered
  have hbits : ∀ c < w.totalBlocks, v'.bitmapTest c = w.bitmapTest c := fun c hc =>
    bitmapTest_congr hordw (hlayout.trans htree.layout.symm) (fun x hx => by
      rw [htree.layout] at hx
      rw [hregion, wr32_out (.inl (by omega))]) hc
  refine ⟨hlayout, ?_, ?_, fun q hq hino hK => (hblocks q hq).1 ⟨hino, hK⟩,
    fun q hq hK => (hblocks q hq).2 hK, fun x hx hout => hframe x hx (ha ▸ hout slot rfl)⟩
  · rw [← hv']
    exact htree.freeInodes
  · refine hm.restrict hlayout (fun q hq => (hblocks q hq).1) (fun q hq => (hblocks q hq).2)
      (fun c hc hc' => ?_) ?_
    · have hle := hm.ordered.inode_le_data
      rw [hbits c (htree.layout ▸ hc'), htree.bits c hc']
      refine and_congr_right fun _ => not_congr ⟨?_, ?_⟩
      · rintro ⟨-, q, hq, hu, hqc⟩
        exact ⟨q, hq, ⟨hu.1, hu.2.1⟩, hqc⟩
      · rintro ⟨q, hq, hcut, hqc⟩
        exact ⟨by omega, q, hq, ⟨hcut.1, hcut.2, List.nil_suffix⟩, hqc⟩
    · rw [clearBlocks_congr hordw (hlayout.trans htree.layout.symm) hbits, ← htree.free hm.free,
        ← hv']

theorem mem_inodeSlots : ∀ s ∈ TrashfsVolume.inodeSlots,
    (16 ≤ s.1 ∧ s.1 < 60 ∧ s.1 % 4 = 0) ∧ s.2 = slotDepth s.1 := by
  decide

theorem slot_mem {slot : Nat} (hs : 16 ≤ slot ∧ slot < 60 ∧ slot % 4 = 0) :
    ∃ d, (slot, d) ∈ TrashfsVolume.inodeSlots := by
  have hall : ∀ i < 11, ∃ s ∈ TrashfsVolume.inodeSlots, s.1 = 16 + i * 4 := by decide
  obtain ⟨s, hmem, heq⟩ := hall ((slot - 16) / 4) (by omega)
  have hslot : s.1 = slot := by omega
  exact ⟨s.2, hslot ▸ hmem⟩

theorem foldl_emptied {ino a : Nat} {l : List (Nat × Nat)} (hm : Mapped v)
    (hi : ino < v.inodeCount) (ha : v.inodePtr ino = a)
    (hl : ∀ s ∈ l, (16 ≤ s.1 ∧ s.1 < 60 ∧ s.1 % 4 = 0) ∧ s.2 = slotDepth s.1) :
    Emptied v (l.foldl (fun w s => w.freeSlot a s) v) ino fun slot => ∃ d, (slot, d) ∈ l := by
  induction l generalizing v with
  | nil =>
    refine (Emptied.refl hm ino).congr fun t => ?_
    simp
  | cons s l ih =>
    obtain ⟨slot, d⟩ := s
    obtain ⟨hslot, hd⟩ := hl (slot, d) (List.mem_cons_self ..)
    dsimp only at hslot hd
    subst hd
    have hhead := freeSlot_emptied hm hi hslot
    rw [ha] at hhead
    rw [List.foldl_cons]
    generalize v.freeSlot a (slot, slotDepth slot) = v₁ at hhead ⊢
    have hi₁ : ino < v₁.inodeCount := hhead.layout ▸ hi
    have hrest := ih hhead.mapped hi₁ (hhead.layout ▸ ha) fun s hs =>
      hl s (List.mem_cons_of_mem _ hs)
    refine (hhead.trans hrest).congr fun t => ?_
    simp only [List.mem_cons, Prod.mk.injEq, exists_or]
    refine or_congr ⟨?_, fun h => ⟨slotDepth slot, h, rfl⟩⟩ Iff.rfl
    rintro ⟨d, h, -⟩
    exact h

/-- Only the slots of the inode are written, and they all name nothing in the end. -/
theorem freeAllBlocks_spec {ino : Nat} (hm : Mapped v) (hi : ino < v.inodeCount) :
    Emptied v (v.freeAllBlocks (v.inodePtr ino)) ino
      (fun slot => 16 ≤ slot ∧ slot < 60 ∧ slot % 4 = 0) := by
  refine (foldl_emptied hm hi rfl mem_inodeSlots).congr fun t => ⟨slot_mem, ?_⟩
  rintro ⟨d, hd⟩
  exact (mem_inodeSlots (t, d) hd).1

end Microgarbage.Storage
