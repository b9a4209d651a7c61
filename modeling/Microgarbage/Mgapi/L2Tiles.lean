import Microgarbage.Lib.Chain
import Microgarbage.Mgapi.L2Heap

/-!
# What the heap's bytes say

The abstract heap is the list of its chunks in address order, each with its size and, in use, the
bytes that were asked for; and the list of the free ones in list order. `Tiles` reads the chunks
off the headers, `Listed` the free list off the links. Fields of blocks that lie apart do not
disturb each other, so every write of the allocator is an update at one field of one block.
-/

namespace Microgarbage.Mgapi

open Lib List

/-- Two blocks of at least the minimum size. -/
def Apart (x y : Nat) : Prop := x + 32 ≤ y ∨ y + 32 ≤ x

section Views

variable {mem : Mem} {b y : Nat} (f g : Field) (l k : Link)

theorem field_setField (v : BitVec 32) (h : y = b ∨ Apart y b) :
    field (setField mem b f v) y g = if y = b ∧ g = f then v else field mem y g := by
  unfold field setField
  by_cases he : y = b ∧ g = f
  · rw [if_pos he, he.1, he.2]
    exact Mem.load32_store ..
  · rw [if_neg he]
    refine Mem.load32_store_out ?_
    unfold Apart at h
    cases f <;> cases g <;> simp [Field.offset] at he ⊢ <;> omega

theorem Apart.ne {x y : Nat} (h : Apart x y) : x ≠ y := by
  unfold Apart at h
  omega

theorem field_setField_apart (v : BitVec 32) (h : Apart y b) :
    field (setField mem b f v) y g = field mem y g := by
  rw [field_setField _ _ _ (.inr h), if_neg fun hc => h.ne hc.1]

theorem field_setField_self (v : BitVec 32) : field (setField mem b f v) b f = v := by
  rw [field_setField _ _ _ (.inl rfl), if_pos ⟨rfl, rfl⟩]

theorem field_setField_ne {f g : Field} (v : BitVec 32) (h : g ≠ f) :
    field (setField mem b f v) b g = field mem b g := by
  rw [field_setField _ _ _ (.inl rfl), if_neg fun hc => h hc.2]

theorem field_setLink (p : Nat) (h : y = b ∨ Apart y b) :
    field (setLink mem b l p) y g = field mem y g := by
  unfold field setLink
  refine Mem.load32_store_out ?_
  unfold Apart at h
  cases l <;> cases g <;> simp only [Field.offset, Link.offset] <;> omega

theorem link_setField (v : BitVec 32) (h : y = b ∨ Apart y b) :
    link (setField mem b f v) y k = link mem y k := by
  unfold link setField
  rw [Mem.load64_store_out]
  unfold Apart at h
  cases f <;> cases k <;> simp only [Field.offset, Link.offset] <;> omega

theorem link_setLink {p : Nat} (hp : p < 2 ^ 64) (h : y = b ∨ Apart y b) :
    link (setLink mem b l p) y k = if y = b ∧ k = l then p else link mem y k := by
  unfold link setLink
  by_cases he : y = b ∧ k = l
  · rw [if_pos he, he.1, he.2, Mem.load64_store, BitVec.toNat_ofNat]
    exact Nat.mod_eq_of_lt hp
  · rw [if_neg he, Mem.load64_store_out]
    unfold Apart at h
    cases l <;> cases k <;> simp [Link.offset] at he ⊢ <;> omega

theorem link_lt : link mem b l < 2 ^ 64 := BitVec.isLt _

end Views

/-! ## Chunks -/

structure Chunk where
  size : Nat
  /-- The bytes that were asked for; `none` when it is free. -/
  held : Option Nat

def Chunk.flags (c : Chunk) : BitVec 32 := if c.held.isSome then 1 else 0

structure Chunk.Ok (c : Chunk) : Prop where
  min : 32 ≤ c.size
  fits : ∀ n ∈ c.held, n + 16 ≤ c.size

def total (cs : List Chunk) : Nat := (cs.map Chunk.size).sum

/-- The chunks with their addresses. -/
def placed : Nat → List Chunk → List (Nat × Chunk)
  | _, [] => []
  | p, c :: cs => (p, c) :: placed (p + c.size) cs

def freeOf (p : Nat) (cs : List Chunk) : List Nat :=
  (placed p cs).filterMap fun x => if x.2.held = none then some x.1 else none

/-- The pointers that clients hold, with the bytes they asked for. -/
def liveOf (p : Nat) (cs : List Chunk) : List (Nat × Nat) :=
  (placed p cs).filterMap fun x => x.2.held.map fun n => (blockPayload x.1, n)

/-- The headers from `p` to `e` are those of `cs`; `prev` is the size before. -/
def Tiles (mem : Mem) : Nat → Nat → List Chunk → Nat → Prop
  | p, _, [], e => p = e
  | p, prev, c :: cs, e => (field mem p .size).toNat = c.size ∧
      (field mem p .prevSize).toNat = prev ∧ field mem p .flags = c.flags ∧ p % 16 = 0 ∧ c.Ok ∧
      Tiles mem (p + c.size) c.size cs e

/-- The size of the chunk before what follows `cs`. -/
def lastSize : Nat → List Chunk → Nat
  | prev, [] => prev
  | _, c :: cs => lastSize c.size cs

section Lists

variable (p prev : Nat) (c : Chunk) (cs cs' : List Chunk)

@[simp] theorem total_nil : total [] = 0 := rfl

@[simp] theorem total_cons : total (c :: cs) = c.size + total cs := sum_cons

@[simp] theorem total_append : total (cs ++ cs') = total cs + total cs' := by
  unfold total
  rw [map_append, sum_append]

theorem placed_append : placed p (cs ++ cs') = placed p cs ++ placed (p + total cs) cs' := by
  induction cs generalizing p with
  | nil => rfl
  | cons c cs ih =>
    rw [cons_append, placed, placed, ih, total_cons, Nat.add_assoc, cons_append]

@[simp] theorem freeOf_append : freeOf p (cs ++ cs') = freeOf p cs ++ freeOf (p + total cs) cs' := by
  unfold freeOf
  rw [placed_append, filterMap_append]

@[simp] theorem liveOf_append : liveOf p (cs ++ cs') = liveOf p cs ++ liveOf (p + total cs) cs' := by
  unfold liveOf
  rw [placed_append, filterMap_append]

theorem freeOf_cons : freeOf p (c :: cs) =
    if c.held = none then p :: freeOf (p + c.size) cs else freeOf (p + c.size) cs := by
  cases hc : c.held <;> simp [freeOf, placed, hc]

theorem liveOf_cons_free (s : Nat) : liveOf p (⟨s, none⟩ :: cs) = liveOf (p + s) cs := rfl

theorem liveOf_cons_held (s n : Nat) :
    liveOf p (⟨s, some n⟩ :: cs) = (blockPayload p, n) :: liveOf (p + s) cs := rfl

@[simp] theorem lastSize_nil : lastSize prev [] = prev := rfl

@[simp] theorem lastSize_cons : lastSize prev (c :: cs) = lastSize c.size cs := rfl

@[simp] theorem lastSize_concat : lastSize prev (cs ++ [c]) = c.size := by
  induction cs generalizing prev with
  | nil => rfl
  | cons d ds ih => exact ih d.size

theorem placed_split {p y : Nat} {c : Chunk} {cs : List Chunk} (h : (y, c) ∈ placed p cs) :
    ∃ pre post, cs = pre ++ c :: post ∧ y = p + total pre := by
  induction cs generalizing p with
  | nil => cases h
  | cons d ds ih =>
    rcases mem_cons.mp h with he | hm
    · cases he
      exact ⟨[], ds, rfl, rfl⟩
    · obtain ⟨pre, post, rfl, rfl⟩ := ih hm
      exact ⟨d :: pre, post, rfl, by rw [total_cons, Nat.add_assoc]⟩

end Lists

section Tiling

variable {mem mem' : Mem} {p prev e : Nat} {c : Chunk} {cs cs' : List Chunk}

theorem tiles_append : Tiles mem p prev (cs ++ cs') e ↔
    Tiles mem p prev cs (p + total cs) ∧ Tiles mem (p + total cs) (lastSize prev cs) cs' e := by
  induction cs generalizing p prev with
  | nil => simp [Tiles]
  | cons c cs ih =>
    rw [cons_append, total_cons, lastSize_cons, ← Nat.add_assoc]
    simp only [Tiles, ih, and_assoc]

theorem Tiles.congr (h : Tiles mem p prev cs e)
    (hf : ∀ y d, (y, d) ∈ placed p cs → ∀ f, field mem' y f = field mem y f) :
    Tiles mem' p prev cs e := by
  induction cs generalizing p prev with
  | nil => exact h
  | cons c cs ih =>
    obtain ⟨hs, hp, hfl, hrest⟩ := h
    have hc := hf p c (mem_cons_self ..)
    refine ⟨?_, ?_, ?_, hrest.1, hrest.2.1, ih hrest.2.2 fun y d hy => ?_⟩
    · rw [hc, hs]
    · rw [hc, hp]
    · rw [hc, hfl]
    · exact hf y d (mem_cons_of_mem _ hy)

theorem Tiles.end_eq (h : Tiles mem p prev cs e) : e = p + total cs := by
  induction cs generalizing p prev with
  | nil => exact h.symm
  | cons c cs ih =>
    rw [ih h.2.2.2.2.2, total_cons, Nat.add_assoc]

theorem Tiles.ok (h : Tiles mem p prev cs e) {y : Nat} (hy : (y, c) ∈ placed p cs) :
    c.Ok ∧ y % 16 = 0 ∧ (field mem y .size).toNat = c.size ∧ field mem y .flags = c.flags := by
  induction cs generalizing p prev with
  | nil => cases hy
  | cons d ds ih =>
    obtain ⟨hs, -, hfl, hal, hok, hrest⟩ := h
    rcases mem_cons.mp hy with he | hm
    · cases he
      exact ⟨hok, hal, hs, hfl⟩
    · exact ih hrest hm

theorem Tiles.chunk_ok (h : Tiles mem p prev cs e) {d : Chunk} (hd : d ∈ cs) : d.Ok := by
  induction cs generalizing p prev with
  | nil => cases hd
  | cons b bs ih =>
    obtain ⟨-, -, -, -, hok, hrest⟩ := h
    rcases mem_cons.mp hd with rfl | hm
    · exact hok
    · exact ih hrest hm

end Tiling

section Places

variable {p x y : Nat} {c d : Chunk} {cs : List Chunk}

theorem placed_bounds (h : (y, c) ∈ placed p cs) : p ≤ y ∧ y + c.size ≤ p + total cs := by
  obtain ⟨pre, post, rfl, rfl⟩ := placed_split h
  rw [total_append, total_cons]
  omega

theorem placed_apart (hx : (x, c) ∈ placed p cs) (hy : (y, d) ∈ placed p cs) :
    (x = y ∧ c = d) ∨ x + c.size ≤ y ∨ y + d.size ≤ x := by
  induction cs generalizing p with
  | nil => cases hx
  | cons b bs ih =>
    rcases mem_cons.mp hx with he | hmx
    · rcases mem_cons.mp hy with he' | hmy
      · cases he
        cases he'
        exact .inl ⟨rfl, rfl⟩
      · cases he
        exact .inr (.inl (placed_bounds hmy).1)
    · rcases mem_cons.mp hy with he' | hmy
      · cases he'
        exact .inr (.inr (placed_bounds hmx).1)
      · exact ih hmx hmy

theorem placed_start (hok : ∀ c ∈ cs, c.Ok) (h : (y, c) ∈ placed p cs) : y = p ∨ Apart y p := by
  cases cs with
  | nil => cases h
  | cons b bs =>
    have hmin := (hok b (mem_cons_self ..)).min
    rcases mem_cons.mp h with he | hm
    · cases he
      exact .inl rfl
    · have hlo := (placed_bounds hm).1
      exact .inr (.inr (by omega))

theorem placed_mem (h : (y, c) ∈ placed p cs) : c ∈ cs := by
  obtain ⟨pre, post, rfl, -⟩ := placed_split h
  exact mem_append_right _ (mem_cons_self ..)

theorem placed_spread (hok : ∀ c ∈ cs, c.Ok) (hx : (x, c) ∈ placed p cs)
    (hy : (y, d) ∈ placed p cs) : x = y ∨ Apart x y := by
  have hc := (hok c (placed_mem hx)).min
  have hd := (hok d (placed_mem hy)).min
  unfold Apart
  rcases placed_apart hx hy with ⟨he, -⟩ | he | he
  · exact .inl he
  · omega
  · omega

theorem mem_freeOf : x ∈ freeOf p cs ↔ ∃ c, (x, c) ∈ placed p cs ∧ c.held = none := by
  unfold freeOf
  rw [mem_filterMap]
  constructor
  · rintro ⟨⟨y, c⟩, hy, he⟩
    simp only [Option.ite_none_right_eq_some, Option.some.injEq] at he
    obtain ⟨hc, rfl⟩ := he
    exact ⟨c, hy, hc⟩
  · rintro ⟨c, hx, hc⟩
    exact ⟨(x, c), hx, by simp [hc]⟩

/-- A free block other than the one in the middle is before or after it. -/
theorem freeOf_around {pre post : List Chunk} (h : x ∈ freeOf p (pre ++ c :: post))
    (hx : x ≠ p + total pre) : x ∈ freeOf p pre ∨ x ∈ freeOf (p + total pre + c.size) post := by
  rw [freeOf_append, mem_append, freeOf_cons] at h
  refine h.imp_right fun h => ?_
  split at h
  · exact (mem_cons.mp h).resolve_left hx
  · exact h

theorem freeOf_of_around {pre post : List Chunk}
    (h : x ∈ freeOf p pre ∨ x ∈ freeOf (p + total pre + c.size) post) :
    x ∈ freeOf p (pre ++ c :: post) := by
  rw [freeOf_append, mem_append, freeOf_cons]
  refine h.imp_right fun h => ?_
  split
  · exact mem_cons_of_mem _ h
  · exact h

theorem mem_liveOf {n : Nat} : (x, n) ∈ liveOf p cs ↔
    ∃ y c, (y, c) ∈ placed p cs ∧ c.held = some n ∧ x = blockPayload y := by
  unfold liveOf
  rw [mem_filterMap]
  constructor
  · rintro ⟨⟨y, c⟩, hy, he⟩
    simp only [Option.map_eq_some_iff, Prod.mk.injEq] at he
    obtain ⟨m, hc, rfl, rfl⟩ := he
    exact ⟨y, c, hy, hc, rfl⟩
  · rintro ⟨y, c, hy, hc, rfl⟩
    exact ⟨(y, c), hy, by simp [hc]⟩

end Places

/-! ## The free list -/

/-- The free list is `free`. -/
structure Listed (a : L2Alloc) (mem : Mem) (free : List Nat) : Prop where
  linked : Linked (link mem · .prev) (link mem · .next) 0 free
  head : a.freeHead = free.headD 0
  count : a.freeBlockCount = BitVec.ofNat 32 free.length

/-- Addresses that blocks can have together. -/
structure Nodes (l : List Nat) : Prop where
  nodup : l.Nodup
  pos : ∀ x ∈ l, 0 < x
  lt : ∀ x ∈ l, x < 2 ^ 64
  spread : ∀ x ∈ l, ∀ y ∈ l, x = y ∨ Apart x y

section Listing

variable {a a' : L2Alloc} {mem mem' : Mem} {b : Nat} {free l₁ l₂ : List Nat}

theorem Listed.congr (h : Listed a mem free) (hl : ∀ y ∈ free, ∀ k, link mem' y k = link mem y k)
    (hhead : a'.freeHead = a.freeHead) (hcount : a'.freeBlockCount = a.freeBlockCount) :
    Listed a' mem' free :=
  ⟨h.linked.congr (fun y hy => hl y hy _) fun y hy => hl y hy _, hhead.trans h.head,
    hcount.trans h.count⟩

theorem Nodes.zero_notMem (h : Nodes free) : 0 ∉ free := fun h0 => Nat.lt_irrefl 0 (h.pos 0 h0)

theorem headD_mem (l : List Nat) (h : l.headD 0 ≠ 0) : l.headD 0 ∈ l := by
  cases l with
  | nil => exact absurd rfl h
  | cons x xs => exact mem_cons_self ..

theorem getLastD_mem (l : List Nat) (p : Nat) : l.getLastD p ∈ p :: l := by
  induction l generalizing p with
  | nil => exact mem_cons_self ..
  | cons x xs ih =>
    rw [getLastD_cons]
    exact mem_cons_of_mem _ (ih x)

theorem flPush_listed (h : Listed a mem free) (hn : Nodes (b :: free)) :
    Listed (flPush a mem b).1 (flPush a mem b).2 (b :: free) := by
  have hb : b < 2 ^ 64 := hn.lt b (mem_cons_self ..)
  obtain ⟨hnotin, hnd⟩ := nodup_cons.mp hn.nodup
  obtain ⟨hlinked, hhead, hcount⟩ := h
  have hmem : a.freeHead ≠ 0 → a.freeHead ∈ b :: free := by
    intro h0
    rw [hhead] at h0 ⊢
    exact mem_cons_of_mem _ (headD_mem free h0)
  have hlt : a.freeHead < 2 ^ 64 := by
    by_cases h0 : a.freeHead = 0
    · rw [h0]
      decide
    · exact hn.lt _ (hmem h0)
  have hne : a.freeHead ≠ 0 → b ≠ a.freeHead := by
    intro h0 he
    rw [he, hhead] at hnotin
    rw [hhead] at h0
    exact hnotin (headD_mem free h0)
  -- the links of every node after the three stores
  have hlink : ∀ y ∈ b :: free, ∀ k, link (flPush a mem b).2 y k =
      if a.freeHead ≠ 0 ∧ y = a.freeHead ∧ k = .prev then b
      else if y = b ∧ k = .next then a.freeHead
      else if y = b ∧ k = .prev then 0 else link mem y k := by
    intro y hy k
    have hyb := hn.spread y hy b (mem_cons_self ..)
    unfold flPush
    dsimp only
    by_cases h0 : a.freeHead = 0
    · have hno : ¬(a.freeHead ≠ 0 ∧ y = a.freeHead ∧ k = .prev) := fun hc => hc.1 h0
      rw [if_neg (not_not.mpr h0), link_setLink _ _ hlt hyb, link_setLink _ _ (by decide) hyb,
        if_neg hno]
    · rw [if_pos h0, link_setLink _ _ hb (hn.spread y hy _ (hmem h0)), link_setLink _ _ hlt hyb,
        link_setLink _ _ (by decide) hyb]
      simp [h0]
  refine ⟨hlinked.push hnd ?_ ?_ (fun y hy => ?_) fun y hy => ?_, rfl, ?_⟩
  · rw [hlink b (mem_cons_self ..)]
    by_cases h0 : a.freeHead = 0
    · simp [h0]
    · simp [hne h0]
  · rw [hlink b (mem_cons_self ..), hhead]
    simp
  · have hyb : y ≠ b := fun e => hnotin (e ▸ hy)
    have hy0 : y ≠ 0 := Nat.pos_iff_ne_zero.mp (hn.pos y (mem_cons_of_mem _ hy))
    rw [hlink y (mem_cons_of_mem _ hy), ← hhead]
    by_cases he : y = a.freeHead
    · rw [if_pos ⟨he ▸ hy0, he, rfl⟩, if_pos he]
    · simp [he, hyb]
  · have hyb : y ≠ b := fun e => hnotin (e ▸ hy)
    rw [hlink y (mem_cons_of_mem _ hy)]
    simp [hyb]
  · show a.freeBlockCount + 1 = _
    rw [hcount, length_cons, BitVec.ofNat_add]
    rfl

theorem mem_of_append {x b : Nat} (h : x ∈ l₁ ++ l₂) : x ∈ l₁ ++ b :: l₂ := by
  rcases mem_append.mp h with h | h
  · exact mem_append_left _ h
  · exact mem_append_right _ (mem_cons_of_mem _ h)

theorem Listed.neighbours (h : Listed a mem (l₁ ++ b :: l₂)) :
    (link mem b .prev ≠ 0 → link mem b .prev ∈ l₁ ++ l₂) ∧
      (link mem b .next ≠ 0 → link mem b .next ∈ l₁ ++ l₂) := by
  obtain ⟨hprev, hnext⟩ := h.linked.neighbours
  constructor
  · intro hne
    rw [hprev] at hne ⊢
    exact mem_append_left _ ((mem_cons.mp (getLastD_mem l₁ 0)).resolve_left hne)
  · intro hne
    rw [hnext] at hne ⊢
    exact mem_append_right _ (headD_mem l₂ hne)

/-- The memory after `fl(bl->prev)->next = bl->next`. -/
def unlinkBack (mem : Mem) (b : Nat) : Mem :=
  if link mem b .prev ≠ 0 then setLink mem (link mem b .prev) .next (link mem b .next) else mem

theorem link_unlinkBack (h : Listed a mem (l₁ ++ b :: l₂)) (hn : Nodes (l₁ ++ b :: l₂)) {y : Nat}
    (hy : y ∈ l₁ ++ b :: l₂) (k : Link) : link (unlinkBack mem b) y k =
      if y = link mem b .prev ∧ k = .next then link mem b .next else link mem y k := by
  unfold unlinkBack
  by_cases hz : link mem b .prev = 0
  · have hyz : ¬(y = link mem b .prev ∧ k = .next) := fun hc => hn.zero_notMem (hz ▸ hc.1 ▸ hy)
    rw [if_neg (not_not.mpr hz), if_neg hyz]
  · have hp := mem_of_append (b := b) (h.neighbours.1 hz)
    rw [if_pos hz, link_setLink _ _ (link_lt _) (hn.spread y hy _ hp)]

theorem flRemove_eq (h : Listed a mem (l₁ ++ b :: l₂)) (hn : Nodes (l₁ ++ b :: l₂)) :
    (flRemove a mem b).2 =
      if link mem b .next ≠ 0 then setLink (unlinkBack mem b) (link mem b .next) .prev
        (link mem b .prev)
      else unlinkBack mem b := by
  have hbmem : b ∈ l₁ ++ b :: l₂ := mem_append_right _ (mem_cons_self ..)
  have hb : ∀ k, link (unlinkBack mem b) b k = link mem b k := by
    intro k
    rw [link_unlinkBack h hn hbmem, if_neg]
    rintro ⟨he, -⟩
    have hbnot : b ∉ l₁ ++ l₂ := (nodup_middle.mp hn.nodup).notMem
    have hz : link mem b .prev ≠ 0 := by
      intro hz
      rw [hz] at he
      exact hn.zero_notMem (he ▸ hbmem)
    have hp := h.neighbours.1 hz
    rw [← he] at hp
    exact hbnot hp
  unfold flRemove
  dsimp only
  rw [← unlinkBack, hb, hb]

theorem flRemove_listed (h : Listed a mem (l₁ ++ b :: l₂)) (hn : Nodes (l₁ ++ b :: l₂)) :
    Listed (flRemove a mem b).1 (flRemove a mem b).2 (l₁ ++ l₂) := by
  have h0 : 0 ∉ l₁ ++ b :: l₂ := hn.zero_notMem
  -- the links of every node after the two stores
  have hlink : ∀ y ∈ l₁ ++ l₂, ∀ k, link (flRemove a mem b).2 y k =
      if y = link mem b .next ∧ k = .prev then link mem b .prev
      else if y = link mem b .prev ∧ k = .next then link mem b .next else link mem y k := by
    intro y hy k
    have hy' := mem_of_append (b := b) hy
    rw [flRemove_eq h hn]
    by_cases hz : link mem b .next = 0
    · have hyz : ¬(y = link mem b .next ∧ k = .prev) := fun hc => h0 (hz ▸ hc.1 ▸ hy')
      rw [if_neg (not_not.mpr hz), link_unlinkBack h hn hy', if_neg hyz]
    · have hx := mem_of_append (b := b) (h.neighbours.2 hz)
      rw [if_pos hz, link_setLink _ _ (link_lt _) (hn.spread y hy' _ hx),
        link_unlinkBack h hn hy']
  obtain ⟨hlinked, hhead, hcount⟩ := h
  obtain ⟨hprev, hnext⟩ := hlinked.neighbours
  refine ⟨hlinked.remove (nodup_cons.mpr ⟨h0, hn.nodup⟩) (fun hm => h0 (mem_of_append hm))
    (fun y hy => ?_) (fun y hy => ?_), ?_, ?_⟩
  · rw [hlink y hy]
    simp
  · rw [hlink y hy]
    simp
  · show (if link mem b .prev ≠ 0 then a.freeHead else link mem b .next) = _
    cases l₁ with
    | nil =>
      have hz : link mem b .prev = 0 := hprev
      rw [if_neg (not_not.mpr hz), hnext]
      rfl
    | cons x xs =>
      have hlast : link mem b .prev ∈ x :: xs := by
        rw [hprev, getLastD_cons]
        exact getLastD_mem xs x
      have hz : link mem b .prev ≠ 0 := fun hz => h0 (mem_append_left _ (hz ▸ hlast))
      rw [if_pos hz, hhead]
      rfl
  · show a.freeBlockCount - 1 = _
    rw [hcount, length_append, length_append, length_cons, ← Nat.add_assoc,
      BitVec.ofNat_add]
    exact BitVec.add_sub_cancel ..

theorem field_flPush (hhead : a.freeHead = free.headD 0) {y : Nat}
    (hy : ∀ x ∈ b :: free, y = x ∨ Apart y x) (f : Field) :
    field (flPush a mem b).2 y f = field mem y f := by
  have hb := hy b (mem_cons_self ..)
  unfold flPush
  dsimp only
  by_cases h0 : a.freeHead = 0
  · rw [if_neg (not_not.mpr h0), field_setLink _ _ _ hb, field_setLink _ _ _ hb]
  · have hh : y = a.freeHead ∨ Apart y a.freeHead := by
      refine hy _ (mem_cons_of_mem _ ?_)
      rw [hhead] at h0 ⊢
      exact headD_mem free h0
    rw [if_pos h0, field_setLink _ _ _ hh, field_setLink _ _ _ hb, field_setLink _ _ _ hb]

theorem field_flRemove (h : Listed a mem (l₁ ++ b :: l₂)) (hn : Nodes (l₁ ++ b :: l₂)) {y : Nat}
    (hy : ∀ x ∈ l₁ ++ b :: l₂, y = x ∨ Apart y x) (f : Field) :
    field (flRemove a mem b).2 y f = field mem y f := by
  obtain ⟨hp, hx⟩ := h.neighbours
  have hback : field (unlinkBack mem b) y f = field mem y f := by
    unfold unlinkBack
    by_cases hz : link mem b .prev = 0
    · rw [if_neg (not_not.mpr hz)]
    · rw [if_pos hz, field_setLink _ _ _ (hy _ (mem_of_append (hp hz)))]
  rw [flRemove_eq h hn]
  by_cases hz : link mem b .next = 0
  · rw [if_neg (not_not.mpr hz), hback]
  · rw [if_pos hz, field_setLink _ _ _ (hy _ (mem_of_append (hx hz))), hback]

end Listing

end Microgarbage.Mgapi
