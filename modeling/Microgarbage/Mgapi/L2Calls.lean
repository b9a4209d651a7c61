import Microgarbage.Mgapi.L2Tiles

/-!
# The calls on the heap

`Rep` ties the bytes to the chunks and the free list. Each group of writes of `l2_alloc` and
`l2_free` has one lemma: unlinking, pushing, marking a block, cutting it in two, merging two.
-/

namespace Microgarbage.Mgapi

open Lib

/-- The bytes are those of `cs`, and `free` lists free ones of them. -/
structure Rep (a : L2Alloc) (mem : Mem) (cs : List Chunk) (free : List Nat) : Prop where
  tiles : Tiles mem a.regionBase 0 cs a.regionEnd
  listed : Listed a mem free
  nodup : free.Nodup
  free : ∀ x ∈ free, x ∈ freeOf a.regionBase cs
  base_pos : 0 < a.regionBase
  end_lt : a.regionEnd < 2 ^ 64
  size_lt : a.regionEnd < a.regionBase + 2 ^ 32

section Rep

variable {a : L2Alloc} {mem : Mem} {cs pre post : List Chunk} {c d : Chunk} {free l₁ l₂ : List Nat}
  {b : Nat}

theorem Rep.ok (h : Rep a mem cs free) : ∀ c ∈ cs, c.Ok := fun _ hc => h.tiles.chunk_ok hc

theorem Rep.end_eq (h : Rep a mem cs free) : a.regionEnd = a.regionBase + total cs :=
  h.tiles.end_eq

theorem Rep.spread (h : Rep a mem cs free) {y : Nat} (hy : (y, c) ∈ placed a.regionBase cs) :
    ∀ x ∈ free, y = x ∨ Apart y x := by
  intro x hx
  obtain ⟨d, hd, -⟩ := mem_freeOf.mp (h.free x hx)
  exact placed_spread h.ok hy hd

theorem nodes_of_placed {p : Nat} {l : List Nat} (hp : 0 < p) (hok : ∀ c ∈ cs, c.Ok)
    (hend : p + total cs < 2 ^ 64) (hnd : l.Nodup)
    (hl : ∀ x ∈ l, ∃ c, (x, c) ∈ placed p cs) : Nodes l := by
  refine ⟨hnd, fun x hx => ?_, fun x hx => ?_, fun x hx y hy => ?_⟩
  · obtain ⟨c, hc⟩ := hl x hx
    have hlo := (placed_bounds hc).1
    omega
  · obtain ⟨c, hc⟩ := hl x hx
    have hhi := (placed_bounds hc).2
    omega
  · obtain ⟨c, hc⟩ := hl x hx
    obtain ⟨d, hd⟩ := hl y hy
    exact placed_spread hok hc hd

theorem Rep.nodes (h : Rep a mem cs free) : Nodes free := by
  refine nodes_of_placed h.base_pos h.ok (h.end_eq ▸ h.end_lt) h.nodup fun x hx => ?_
  obtain ⟨c, hc, -⟩ := mem_freeOf.mp (h.free x hx)
  exact ⟨c, hc⟩

theorem placed_mid {p : Nat} : (p + total pre, c) ∈ placed p (pre ++ c :: post) := by
  rw [placed_append]
  exact List.mem_append_right _ (List.mem_cons_self ..)

theorem Rep.remove (h : Rep a mem cs (l₁ ++ b :: l₂)) :
    Rep (flRemove a mem b).1 (flRemove a mem b).2 cs (l₁ ++ l₂) ∧ b ∉ l₁ ++ l₂ := by
  have hn := h.nodes
  have hnd := List.nodup_middle.mp h.nodup
  refine ⟨⟨?_, flRemove_listed h.listed hn, hnd.of_cons, fun x hx => h.free x (mem_of_append hx),
    h.base_pos, h.end_lt, h.size_lt⟩, hnd.notMem⟩
  exact h.tiles.congr fun y d hy => field_flRemove h.listed hn (h.spread hy)

theorem Rep.push (h : Rep a mem cs free) (hb : b ∈ freeOf a.regionBase cs) (hnot : b ∉ free) :
    Rep (flPush a mem b).1 (flPush a mem b).2 cs (b :: free) := by
  have hall : ∀ x ∈ b :: free, x ∈ freeOf a.regionBase cs := by
    intro x hx
    rcases List.mem_cons.mp hx with rfl | hx
    · exact hb
    · exact h.free x hx
  have hnd : (b :: free).Nodup := List.nodup_cons.mpr ⟨hnot, h.nodup⟩
  have hplaced : ∀ x ∈ b :: free, ∃ c, (x, c) ∈ placed a.regionBase cs := by
    intro x hx
    obtain ⟨c, hc, -⟩ := mem_freeOf.mp (hall x hx)
    exact ⟨c, hc⟩
  have hn := nodes_of_placed h.base_pos h.ok (h.end_eq ▸ h.end_lt) hnd hplaced
  refine ⟨?_, flPush_listed h.listed hn, hnd, hall, h.base_pos, h.end_lt, h.size_lt⟩
  refine h.tiles.congr fun y d hy => field_flPush h.listed.head fun x hx => ?_
  obtain ⟨c, hc⟩ := hplaced x hx
  exact placed_spread h.ok hy hc

theorem Rep.headers (h : Rep a mem cs free) {mem' : Mem} {cs' : List Chunk}
    (htiles : Tiles mem' a.regionBase 0 cs' a.regionEnd)
    (hlinks : ∀ x ∈ free, ∀ k, link mem' x k = link mem x k)
    (hfree : ∀ x ∈ free, x ∈ freeOf a.regionBase cs') : Rep a mem' cs' free :=
  ⟨htiles, h.listed.congr hlinks rfl rfl, h.nodup, hfree, h.base_pos, h.end_lt, h.size_lt⟩

theorem Rep.setAllocCount (h : Rep a mem cs free) (n : BitVec 32) :
    Rep { a with allocCount := n } mem cs free :=
  { h with listed := h.listed.congr (fun _ _ _ => rfl) rfl rfl }

theorem apart_before {p y : Nat} (hok : ∀ c ∈ pre, c.Ok) (hy : (y, d) ∈ placed p pre) {x : Nat}
    (hx : p + total pre ≤ x) : Apart y x := by
  have hmin := (hok d (placed_mem hy)).min
  have hhi := (placed_bounds hy).2
  unfold Apart
  omega

theorem apart_after {p y x : Nat} (hy : (y, d) ∈ placed p post) (hx : x + 32 ≤ p) : Apart y x := by
  have hlo := (placed_bounds hy).1
  unfold Apart
  omega

theorem Rep.mark (h : Rep a mem (pre ++ c :: post) free) (hnot : a.regionBase + total pre ∉ free)
    (held : Option Nat) (hfits : ∀ n ∈ held, n + 16 ≤ c.size) {v : BitVec 32}
    (hv : v = Chunk.flags ⟨c.size, held⟩) :
    Rep a (setField mem (a.regionBase + total pre) .flags v) (pre ++ ⟨c.size, held⟩ :: post)
      free := by
  have hok := h.ok
  have hokpre : ∀ c ∈ pre, c.Ok := fun c hc => hok c (List.mem_append_left _ hc)
  have hmid : (a.regionBase + total pre, c) ∈ placed a.regionBase (pre ++ c :: post) := placed_mid
  obtain ⟨hpre, hs, hp, hfl, hal, hcok, hpost⟩ := tiles_append.mp h.tiles
  refine h.headers (tiles_append.mpr ⟨?_, ?_, ?_, ?_, hal, ⟨hcok.min, hfits⟩, ?_⟩)
    (fun x hx k => ?_) fun x hx => ?_
  · refine hpre.congr fun y d hy f => ?_
    exact field_setField_apart _ _ _ (apart_before hokpre hy (Nat.le_refl _))
  · rw [field_setField_ne _ (by decide)]
    exact hs
  · rw [field_setField_ne _ (by decide)]
    exact hp
  · rw [field_setField_self]
    exact hv
  · refine hpost.congr fun y d hy f => ?_
    exact field_setField_apart _ _ _ (apart_after hy (Nat.add_le_add_left hcok.min _))
  · have hne : a.regionBase + total pre ≠ x := fun e => hnot (e ▸ hx)
    rcases h.spread hmid x hx with he | he
    · exact absurd he hne
    · exact link_setField _ _ _ (.inr (Or.symm he))
  · have hfree := h.free x hx
    have hne : a.regionBase + total pre ≠ x := fun e => hnot (e ▸ hx)
    have hf := freeOf_around hfree hne.symm
    exact freeOf_of_around hf

theorem setAfter_spec {y s : Nat} {v : BitVec 32} (hn : b + (field mem b .size).toNat = y)
    (hpost : Tiles mem y s post a.regionEnd) :
    Tiles (setAfter a mem b v) y v.toNat post a.regionEnd ∧
      (∀ z, Apart z y → ∀ f, field (setAfter a mem b v) z f = field mem z f) ∧
      ∀ z, z = y ∨ Apart z y → ∀ k, link (setAfter a mem b v) z k = link mem z k := by
  unfold setAfter nextBlock
  rw [hn]
  cases post with
  | nil =>
    have he : y = a.regionEnd := hpost
    rw [if_pos (Nat.le_of_eq he.symm)]
    exact ⟨he, fun _ _ _ => rfl, fun _ _ _ => rfl⟩
  | cons d ds =>
    obtain ⟨hs, hp, hfl, hal, hok, hrest⟩ := hpost
    have hmin := hok.min
    have hend := hrest.end_eq
    rw [if_neg (by omega)]
    refine ⟨⟨?_, ?_, ?_, hal, hok, ?_⟩, fun z hz f => ?_, fun z hz k => ?_⟩
    · rw [field_setField_ne _ (by decide)]
      exact hs
    · rw [field_setField_self]
    · rw [field_setField_ne _ (by decide)]
      exact hfl
    · refine hrest.congr fun z e hz f => ?_
      exact field_setField_apart _ _ _ (apart_after hz (Nat.add_le_add_left hmin _))
    · exact field_setField_apart _ _ _ hz
    · exact link_setField _ _ _ hz

theorem Rep.merge (h : Rep a mem (pre ++ c :: d :: post) free)
    (hb : b = a.regionBase + total pre) (hnot : b ∉ free) (hnot' : b + c.size ∉ free)
    {sum : BitVec 32} (hsum : sum.toNat = c.size + d.size) (hc : c.held = none) :
    Rep a (setAfter a (setField mem b .size sum) b sum) (pre ++ ⟨c.size + d.size, none⟩ :: post)
      free := by
  subst hb
  have hok := h.ok
  have hokpre : ∀ c ∈ pre, c.Ok := fun c hc => hok c (List.mem_append_left _ hc)
  obtain ⟨hpre, hs, hp, hfl, hal, hcok, -, -, -, -, hdok, hpost⟩ := tiles_append.mp h.tiles
  have hcmin := hcok.min
  have hdmin := hdok.min
  have hmid : (a.regionBase + total pre, c) ∈ placed a.regionBase (pre ++ c :: d :: post) :=
    placed_mid
  have hpost' : Tiles (setField mem (a.regionBase + total pre) .size sum)
      (a.regionBase + total pre + c.size + d.size) d.size post a.regionEnd :=
    hpost.congr fun y e hy f => field_setField_apart _ _ _ (apart_after hy (by omega))
  have hnext : a.regionBase + total pre +
      (field (setField mem (a.regionBase + total pre) .size sum) (a.regionBase + total pre)
        .size).toNat = a.regionBase + total pre + c.size + d.size := by
    rw [field_setField_self, hsum]
    omega
  obtain ⟨hafter, hfields, hlinks⟩ := setAfter_spec (v := sum) hnext hpost'
  have hokpost : ∀ c ∈ post, c.Ok := fun c hc => hpost.chunk_ok hc
  -- a listed block is neither of the two
  have haround : ∀ x ∈ free, x ∈ freeOf a.regionBase pre ∨
      x ∈ freeOf (a.regionBase + total pre + c.size + d.size) post := by
    intro x hx
    rcases freeOf_around (h.free x hx) fun e => hnot (e ▸ hx) with hf | hf
    · exact .inl hf
    · rw [freeOf_cons] at hf
      split at hf
      · exact .inr ((List.mem_cons.mp hf).resolve_left fun e => hnot' (e ▸ hx))
      · exact .inr hf
  have hself : Apart (a.regionBase + total pre)
      (a.regionBase + total pre + c.size + d.size) := .inl (by omega)
  refine h.headers (tiles_append.mpr ⟨?_, ?_, ?_, ?_, hal, ⟨?_, ?_⟩, ?_⟩)
    (fun x hx k => ?_) fun x hx => ?_
  · refine hpre.congr fun y e hy f => ?_
    rw [hfields y (apart_before hokpre hy (by omega)),
      field_setField_apart _ _ _ (apart_before hokpre hy (Nat.le_refl _))]
  · rw [hfields _ hself, field_setField_self]
    exact hsum
  · rw [hfields _ hself, field_setField_ne _ (by decide)]
    exact hp
  · rw [hfields _ hself, field_setField_ne _ (by decide), hfl]
    unfold Chunk.flags
    rw [hc]
  · exact Nat.le_trans hcmin (Nat.le_add_right _ _)
  · intro n hn
    cases hn
  · rw [hsum, Nat.add_assoc] at hafter
    exact hafter
  · have hx' := haround x hx
    have hne : x ≠ a.regionBase + total pre := fun e => hnot (e ▸ hx)
    have hxb : x = a.regionBase + total pre ∨ Apart x (a.regionBase + total pre) :=
      (h.spread hmid x hx).imp Eq.symm Or.symm
    have hxe : x = a.regionBase + total pre + c.size + d.size ∨
        Apart x (a.regionBase + total pre + c.size + d.size) := by
      rcases hx' with hx' | hx'
      · obtain ⟨e, he, -⟩ := mem_freeOf.mp hx'
        exact .inr (apart_before hokpre he (by omega))
      · obtain ⟨e, he, -⟩ := mem_freeOf.mp hx'
        exact placed_start hokpost he
    rw [hlinks x hxe, link_setField _ _ _ hxb]
  · have hx' := haround x hx
    rw [Nat.add_assoc] at hx'
    exact freeOf_of_around hx'

/-- The header of the tail of a block that is cut. -/
def tailHeader (mem : Mem) (tail : Nat) (remaining want : BitVec 32) : Mem :=
  let mem := setField mem tail .size remaining
  let mem := setField mem tail .prevSize want
  let mem := setField mem tail .flags 0
  setField mem tail .pad 0

theorem field_tailHeader {tail y : Nat} {remaining want : BitVec 32} (h : Apart y tail)
    (f : Field) : field (tailHeader mem tail remaining want) y f = field mem y f := by
  unfold tailHeader
  simp only [field_setField_apart _ _ _ h]

theorem link_tailHeader {tail y : Nat} {remaining want : BitVec 32} (h : Apart y tail)
    (k : Link) : link (tailHeader mem tail remaining want) y k = link mem y k := by
  unfold tailHeader
  simp only [link_setField _ _ _ (Or.inr h)]

theorem tailHeader_self (mem : Mem) (tail : Nat) (remaining want : BitVec 32) :
    field (tailHeader mem tail remaining want) tail .size = remaining ∧
      field (tailHeader mem tail remaining want) tail .prevSize = want ∧
      field (tailHeader mem tail remaining want) tail .flags = 0 := by
  unfold tailHeader
  dsimp only
  refine ⟨?_, ?_, ?_⟩
  · rw [field_setField_ne _ (by decide), field_setField_ne _ (by decide),
      field_setField_ne _ (by decide), field_setField_self]
  · rw [field_setField_ne _ (by decide), field_setField_ne _ (by decide), field_setField_self]
  · rw [field_setField_ne _ (by decide), field_setField_self]

theorem Rep.cut (h : Rep a mem (pre ++ c :: post) free) (hb : b = a.regionBase + total pre)
    (hnot : b ∉ free) (hc : c.held = none) {want remaining : BitVec 32} (hw : 32 ≤ want.toNat)
    (hal : want.toNat % 16 = 0) (hr : 32 ≤ remaining.toNat)
    (hsum : want.toNat + remaining.toNat = c.size) :
    Rep a (setField (setAfter a (tailHeader mem (b + want.toNat) remaining want) (b + want.toNat)
      remaining) b .size want)
      (pre ++ ⟨want.toNat, none⟩ :: ⟨remaining.toNat, none⟩ :: post) free ∧
      b + want.toNat ∉ free := by
  subst hb
  have hok := h.ok
  have hokpre : ∀ c ∈ pre, c.Ok := fun c hc => hok c (List.mem_append_left _ hc)
  obtain ⟨hpre, hs, hp, hfl, hbal, hcok, hpost⟩ := tiles_append.mp h.tiles
  have hokpost : ∀ c ∈ post, c.Ok := fun c hc => hpost.chunk_ok hc
  have haround : ∀ x ∈ free, x ∈ freeOf a.regionBase pre ∨
      x ∈ freeOf (a.regionBase + total pre + c.size) post :=
    fun x hx => freeOf_around (h.free x hx) fun e => hnot (e ▸ hx)
  -- a listed block lies apart from both halves, and is the next one or apart from it
  have hlisted : ∀ x ∈ free, Apart x (a.regionBase + total pre) ∧
      Apart x (a.regionBase + total pre + want.toNat) ∧
      (x = a.regionBase + total pre + c.size ∨ Apart x (a.regionBase + total pre + c.size)) := by
    intro x hx
    rcases haround x hx with hx' | hx'
    · obtain ⟨e, he, -⟩ := mem_freeOf.mp hx'
      exact ⟨apart_before hokpre he (Nat.le_refl _), apart_before hokpre he (by omega),
        .inr (apart_before hokpre he (by omega))⟩
    · obtain ⟨e, he, -⟩ := mem_freeOf.mp hx'
      exact ⟨apart_after he (by omega), apart_after he (by omega), placed_start hokpost he⟩
  obtain ⟨hts, htp, htf⟩ := tailHeader_self mem (a.regionBase + total pre + want.toNat) remaining
    want
  have hpost' : Tiles (tailHeader mem (a.regionBase + total pre + want.toNat) remaining want)
      (a.regionBase + total pre + c.size) c.size post a.regionEnd :=
    hpost.congr fun y e hy f => field_tailHeader (apart_after hy (by omega)) f
  have hnext : a.regionBase + total pre + want.toNat +
      (field (tailHeader mem (a.regionBase + total pre + want.toNat) remaining want)
        (a.regionBase + total pre + want.toNat) .size).toNat =
      a.regionBase + total pre + c.size := by
    rw [hts]
    omega
  obtain ⟨hafter, hfields, hlinks⟩ := setAfter_spec (v := remaining) hnext hpost'
  have hbt : Apart (a.regionBase + total pre) (a.regionBase + total pre + want.toNat) :=
    .inl (by omega)
  have hbe : Apart (a.regionBase + total pre) (a.regionBase + total pre + c.size) :=
    .inl (by omega)
  have htb : Apart (a.regionBase + total pre + want.toNat) (a.regionBase + total pre) := hbt.symm
  have hte : Apart (a.regionBase + total pre + want.toNat) (a.regionBase + total pre + c.size) :=
    .inl (by omega)
  refine ⟨h.headers (tiles_append.mpr ⟨?_, ?_, ?_, ?_, hbal, ⟨hw, ?_⟩, ?_, ?_, ?_, ?_, ⟨hr, ?_⟩, ?_⟩)
    (fun x hx k => ?_) (fun x hx => ?_), fun hx => (hlisted _ hx).2.1.ne rfl⟩
  · refine hpre.congr fun y e hy f => ?_
    rw [field_setField_apart _ _ _ (apart_before hokpre hy (Nat.le_refl _)),
      hfields y (apart_before hokpre hy (by omega)),
      field_tailHeader (apart_before hokpre hy (by omega))]
  · rw [field_setField_self]
  · rw [field_setField_ne _ (by decide), hfields _ hbe, field_tailHeader hbt]
    exact hp
  · rw [field_setField_ne _ (by decide), hfields _ hbe, field_tailHeader hbt, hfl]
    unfold Chunk.flags
    rw [hc]
  · intro n hn
    cases hn
  · dsimp only
    rw [field_setField_apart _ _ _ htb, hfields _ hte, hts]
  · dsimp only
    rw [field_setField_apart _ _ _ htb, hfields _ hte, htp]
  · dsimp only
    rw [field_setField_apart _ _ _ htb, hfields _ hte, htf]
    rfl
  · dsimp only
    omega
  · intro n hn
    cases hn
  · dsimp only
    rw [Nat.add_assoc _ want.toNat, hsum]
    refine hafter.congr fun y e hy f => ?_
    exact field_setField_apart _ _ _ (apart_after hy (by omega))
  · obtain ⟨hxb, hxt, hxe⟩ := hlisted x hx
    rw [link_setField _ _ _ (.inr hxb), hlinks x hxe, link_tailHeader hxt]
  · have hx' := haround x hx
    refine freeOf_of_around (hx'.imp_right fun hx' => ?_)
    rw [freeOf_cons, if_pos rfl]
    dsimp only
    rw [Nat.add_assoc _ want.toNat, hsum]
    exact List.mem_cons_of_mem _ hx'

end Rep

end Microgarbage.Mgapi
