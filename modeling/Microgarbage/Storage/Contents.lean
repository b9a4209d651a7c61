import Microgarbage.Storage.Format
import Microgarbage.Storage.Release

/-!
# Files as arrays of bytes

What an inode says, without blocks: its mode, its size and a byte for every offset. Each write of
trashfs, seen this way: growth and bookkeeping change no file, a write into a data block changes one
file in one place, a release empties one file.
-/

namespace Microgarbage.Storage

open Lib

variable {v v' v'' : TrashfsVolume} {p q : BlockPos} {ino : Nat}

def inodeMode (v : TrashfsVolume) (ino : Nat) : BitVec 16 := rd16 v.region (v.inodePtr ino)

/-- The same mode, size and bytes. -/
structure SameFile (v v' : TrashfsVolume) (ino : Nat) : Prop where
  mode : inodeMode v' ino = inodeMode v ino
  size : v'.dirSize ino = v.dirSize ino
  bytes : ∀ off, fileByte v' ino off = fileByte v ino off

theorem SameFile.refl (v : TrashfsVolume) (ino : Nat) : SameFile v v ino :=
  ⟨rfl, rfl, fun _ => rfl⟩

theorem SameFile.trans (h : SameFile v v' ino) (h' : SameFile v' v'' ino) : SameFile v v'' ino :=
  ⟨h'.mode.trans h.mode, h'.size.trans h.size, fun off => (h'.bytes off).trans (h.bytes off)⟩

theorem mode_size_congr (hl : v'.toTrashfsLayout = v.toTrashfsLayout)
    (h : ∀ k < 8, v'.region (v.inodePtr ino + k) = v.region (v.inodePtr ino + k)) :
    inodeMode v' ino = inodeMode v ino ∧ v'.dirSize ino = v.dirSize ino := by
  unfold inodeMode TrashfsVolume.dirSize
  rw [hl]
  refine ⟨rd16_congr fun i hi => h i (by omega), congrArg BitVec.toNat (rd32_congr fun i hi => ?_)⟩
  rw [Nat.add_assoc]
  exact h (4 + i) (by omega)

theorem fileByte_congr (hi : ino < v.inodeCount)
    (h : ∀ p, p.Valid v.toTrashfsLayout → p.Leaf → p.ino = ino → ∀ k < 128,
      leafByte v' p k = leafByte v p k) (off : Nat) : fileByte v' ino off = fileByte v ino off := by
  unfold fileByte
  cases hp : leafPos ino (off / 128) with
  | none => rfl
  | some p =>
    obtain ⟨hino, hvalid, hleaf⟩ := leafPos_valid hi hp
    exact h p hvalid hleaf hino (off % 128) (Nat.mod_lt off (by omega))

theorem Grows.file (h : Grows v v') (hi : ino < v.inodeCount) : SameFile v v' ino := by
  obtain ⟨hmode, hsize⟩ := mode_size_congr h.layout fun k hk => h.fields ino hi k (by omega)
    (.inl (by omega))
  exact ⟨hmode, hsize, fileByte_congr hi fun p hp hleaf _ => h.leaves p hp hleaf⟩

/-! ## Writes into a data block -/

/-- Only the `n` bytes from `a` on were written. -/
structure Poked (v v' : TrashfsVolume) (a n : Nat) : Prop where
  layout : v'.toTrashfsLayout = v.toTrashfsLayout
  freeBlocks : v'.freeBlocks = v.freeBlocks
  freeInodes : v'.freeInodes = v.freeInodes
  frame : ∀ x, (x < a ∨ a + n ≤ x) → v'.region x = v.region x

theorem leafByte_some {k : Nat} (h : v.blockAt p ≠ 0) :
    leafByte v p k = v.region (blockPtr (v.blockAt p) + k) := if_neg h

section Poke

variable {boff n : Nat}

theorem Poked.blocks (hm : Mapped v) (hp : p.Valid v.toTrashfsLayout) (hleaf : p.Leaf)
    (hb : v.blockAt p ≠ 0) (hn : boff + n ≤ 128)
    (h : Poked v v' (blockPtr (v.blockAt p) + boff) n) (hq : q.Valid v.toTrashfsLayout) :
    v'.blockAt q = v.blockAt q := by
  have hdata := hm.data p hp hb
  rw [blockPtr_eq] at h
  refine blockAt_frame h.layout (fun i hi slot hs hs' => ?_) (fun q' hq' hlen hb' k hk => ?_) hq
  · have hrange := hm.ordered.inode_range (k := slot) hi (by omega)
    exact h.frame _ (by omega)
  · have hne : v.blockAt q' ≠ v.blockAt p := by
      intro heq
      have hsame := hm.inj q' p hq' hp hb' heq
      subst hsame
      exact absurd hleaf (Nat.ne_of_lt hlen)
    rw [blockPtr_eq]
    exact h.frame _ (by omega)

theorem Poked.mapped (hm : Mapped v) (hp : p.Valid v.toTrashfsLayout) (hleaf : p.Leaf)
    (hb : v.blockAt p ≠ 0) (hn : boff + n ≤ 128)
    (h : Poked v v' (blockPtr (v.blockAt p) + boff) n) : Mapped v' := by
  have hdata := hm.data p hp hb
  have hle := hm.ordered.inode_le_data
  refine hm.frame h.layout h.freeBlocks (fun x hx => ?_) fun q hq => h.blocks hm hp hleaf hb hn hq
  rw [blockPtr_eq] at h
  exact h.frame x (by omega)

theorem Poked.leaf (hm : Mapped v) (hp : p.Valid v.toTrashfsLayout) (hleaf : p.Leaf)
    (hb : v.blockAt p ≠ 0) (hn : boff + n ≤ 128)
    (h : Poked v v' (blockPtr (v.blockAt p) + boff) n) (hq : q.Valid v.toTrashfsLayout) {k : Nat}
    (hk : k < 128) (hout : q = p → k < boff ∨ boff + n ≤ k) : leafByte v' q k = leafByte v q k := by
  have hblock := h.blocks hm hp hleaf hb hn hq
  unfold leafByte
  rw [hblock]
  by_cases hz : v.blockAt q = 0
  · rw [if_pos hz, if_pos hz]
  · rw [if_neg hz, if_neg hz]
    rw [blockPtr_eq] at h ⊢
    by_cases hqp : q = p
    · have hrange := hout hqp
      rw [hqp]
      exact h.frame _ (by omega)
    · have hne : v.blockAt q ≠ v.blockAt p := fun heq => hqp (hm.inj q p hq hp hz heq)
      exact h.frame _ (by omega)

theorem Poked.fields (hm : Mapped v) (hp : p.Valid v.toTrashfsLayout) (hb : v.blockAt p ≠ 0)
    (h : Poked v v' (blockPtr (v.blockAt p) + boff) n) {i k : Nat} (hi : i < v.inodeCount)
    (hk : k < 64) : v'.region (v.inodePtr i + k) = v.region (v.inodePtr i + k) := by
  have hdata := hm.data p hp hb
  have hrange := hm.ordered.inode_range hi hk
  rw [blockPtr_eq] at h
  exact h.frame _ (by omega)

end Poke

/-- The `n` bytes of file `ino` from offset `lo` on are those of `f`; no other file changed. -/
structure Wrote (v v' : TrashfsVolume) (ino lo n : Nat) (f : Nat → Byte) : Prop where
  layout : v'.toTrashfsLayout = v.toTrashfsLayout
  freeBlocks : v'.freeBlocks = v.freeBlocks
  freeInodes : v'.freeInodes = v.freeInodes
  mapped : Mapped v'
  blocks : ∀ q, q.Valid v.toTrashfsLayout → v'.blockAt q = v.blockAt q
  fields : ∀ i < v.inodeCount, ∀ k < 64,
    v'.region (v.inodePtr i + k) = v.region (v.inodePtr i + k)
  bytes : ∀ i < v.inodeCount, ∀ off, fileByte v' i off =
    if i = ino ∧ lo ≤ off ∧ off < lo + n then f (off - lo) else fileByte v i off

theorem Poked.wrote {lbn boff n : Nat} {f : Nat → Byte} (hm : Mapped v) (hi : ino < v.inodeCount)
    (hp : leafPos ino lbn = some p) (hb : v.blockAt p ≠ 0) (hn : boff + n ≤ 128)
    (h : Poked v v' (blockPtr (v.blockAt p) + boff) n)
    (hf : ∀ k < n, v'.region (blockPtr (v.blockAt p) + boff + k) = f k) :
    Wrote v v' ino (lbn * 128 + boff) n f := by
  obtain ⟨hino, hvalid, hleaf⟩ := leafPos_valid hi hp
  refine ⟨h.layout, h.freeBlocks, h.freeInodes, h.mapped hm hvalid hleaf hb hn,
    fun q hq => h.blocks hm hvalid hleaf hb hn hq, fun i hi k hk => h.fields hm hvalid hb hi hk,
    fun i hi off => ?_⟩
  have hblock := h.blocks hm hvalid hleaf hb hn hvalid
  unfold fileByte
  by_cases hin : i = ino ∧ lbn * 128 + boff ≤ off ∧ off < lbn * 128 + boff + n
  · obtain ⟨rfl, hlo, hhi⟩ := hin
    have hlbn : off / 128 = lbn := by omega
    rw [if_pos ⟨rfl, hlo, hhi⟩, hlbn, hp]
    have hoff : blockPtr (v.blockAt p) + off % 128 =
        blockPtr (v.blockAt p) + boff + (off - (lbn * 128 + boff)) := by omega
    dsimp only
    rw [leafByte_some (hblock ▸ hb), hblock, hoff]
    exact hf _ (by omega)
  · rw [if_neg hin]
    cases hq : leafPos i (off / 128) with
    | none => rfl
    | some q =>
      obtain ⟨hqino, hqvalid, -⟩ := leafPos_valid hi hq
      refine h.leaf hm hvalid hleaf hb hn hqvalid (Nat.mod_lt off (by omega)) fun hqp => ?_
      have hii : i = ino := by rw [← hqino, hqp, hino]
      subst hii
      have hlbn := leafPos_inj hp (hqp ▸ hq)
      omega

theorem Wrote.file {lo n i : Nat} {f : Nat → Byte} (h : Wrote v v' ino lo n f)
    (hi : i < v.inodeCount) (hne : i ≠ ino) : SameFile v v' i := by
  obtain ⟨hmode, hsize⟩ := mode_size_congr h.layout fun k hk => h.fields i hi k (by omega)
  refine ⟨hmode, hsize, fun off => ?_⟩
  rw [h.bytes i hi off, if_neg fun hand => hne hand.1]

theorem Wrote.mode_size {lo n i : Nat} {f : Nat → Byte} (h : Wrote v v' ino lo n f)
    (hi : i < v.inodeCount) : inodeMode v' i = inodeMode v i ∧ v'.dirSize i = v.dirSize i :=
  mode_size_congr h.layout fun k hk => h.fields i hi k (by omega)

/-! ## Writes into the fields of an inode -/

theorem fields_mapped {a n : Nat} (hm : Mapped v) (hi : ino < v.inodeCount)
    (h : Poked v v' (v.inodePtr ino + a) n) (hn : a + n ≤ 16) :
    Mapped v' ∧ ∀ q, q.Valid v.toTrashfsLayout → v'.blockAt q = v.blockAt q := by
  have hle := hm.ordered.inode_le_data
  have hself := hm.ordered.inode_range (k := 0) hi (by omega)
  have hend := hm.ordered.inode_range (k := 63) hi (by omega)
  have hblocks : ∀ q, q.Valid v.toTrashfsLayout → v'.blockAt q = v.blockAt q := by
    intro q hq
    refine blockAt_frame h.layout (fun i hi' slot hs hs' => ?_) (fun q' hq' _ hb k hk => ?_) hq
    · by_cases hii : i = ino
      · rw [hii]
        exact h.frame _ (by omega)
      · have hapart := hm.ordered.inodePtr_apart hi' hi hii
        exact h.frame _ (by omega)
    · have hdata := hm.data q' hq' hb
      rw [blockPtr_eq]
      exact h.frame _ (by omega)
  exact ⟨hm.frame h.layout h.freeBlocks (fun x hx => h.frame x (by omega)) hblocks, hblocks⟩

theorem fields_leafByte {a n : Nat} (hm : Mapped v) (hi : ino < v.inodeCount)
    (h : Poked v v' (v.inodePtr ino + a) n) (hn : a + n ≤ 16) (hq : q.Valid v.toTrashfsLayout)
    {k : Nat} : leafByte v' q k = leafByte v q k := by
  have hend := hm.ordered.inode_range (k := 63) hi (by omega)
  unfold leafByte
  rw [(fields_mapped hm hi h hn).2 q hq]
  by_cases hz : v.blockAt q = 0
  · rw [if_pos hz, if_pos hz]
  · rw [if_neg hz, if_neg hz]
    have hdata := hm.data q hq hz
    rw [blockPtr_eq]
    exact h.frame _ (by omega)

theorem fields_bytes {a n i : Nat} (hm : Mapped v) (hi : ino < v.inodeCount)
    (h : Poked v v' (v.inodePtr ino + a) n) (hn : a + n ≤ 16) (hi' : i < v.inodeCount)
    (off : Nat) : fileByte v' i off = fileByte v i off :=
  fileByte_congr hi' (fun _ hp _ _ _ _ => fields_leafByte hm hi h hn hp) off

theorem fields_file {a n i : Nat} (hm : Mapped v) (hi : ino < v.inodeCount)
    (h : Poked v v' (v.inodePtr ino + a) n) (hn : a + n ≤ 16) (hi' : i < v.inodeCount)
    (hne : i ≠ ino) : SameFile v v' i := by
  have hapart := hm.ordered.inodePtr_apart hi' hi hne
  obtain ⟨hmode, hsize⟩ := mode_size_congr h.layout fun k hk => h.frame (v.inodePtr i + k) (by omega)
  exact ⟨hmode, hsize, fields_bytes hm hi h hn hi'⟩

/-! ## Empty files -/

/-- The inode names no block. -/
def NoBlocks (v : TrashfsVolume) (ino : Nat) : Prop :=
  ∀ q, q.Valid v.toTrashfsLayout → q.ino = ino → v.blockAt q = 0

theorem NoBlocks.bytes (h : NoBlocks v ino) (hi : ino < v.inodeCount) (off : Nat) :
    fileByte v ino off = 0 := by
  unfold fileByte
  cases hp : leafPos ino (off / 128) with
  | none => rfl
  | some p =>
    obtain ⟨hino, hvalid, -⟩ := leafPos_valid hi hp
    exact if_pos (h p hvalid hino)

theorem word_bytes {m : Mem} {a : Nat} (h : rd32 m a = 0) {k : Nat} (hk : k < 4) : m (a + k) = 0 := by
  rw [← Mem.byteOf_load32 m a hk]
  unfold rd32 at h
  rw [h]
  unfold byteOf
  simp

theorem NoBlocks.pointers (h : NoBlocks v ino) (hi : ino < v.inodeCount) {k : Nat} (hk : 16 ≤ k)
    (hk' : k < 60) : v.region (v.inodePtr ino + k) = 0 := by
  have hvalid : (⟨ino, k / 4 * 4, []⟩ : BlockPos).Valid v.toTrashfsLayout :=
    ⟨hi, by dsimp only; omega, Nat.zero_le _, nofun⟩
  have hzero := h _ hvalid rfl
  rw [blockAt_root] at hzero
  have hword : rd32 v.region (v.inodePtr ino + k / 4 * 4) = 0 := BitVec.eq_of_toNat_eq hzero
  have hbyte := word_bytes hword (k := k % 4) (by omega)
  have haddr : v.inodePtr ino + k / 4 * 4 + k % 4 = v.inodePtr ino + k := by omega
  rw [haddr] at hbyte
  exact hbyte

/-- An inode without blocks rewritten, again without blocks. -/
structure Reset (v v' : TrashfsVolume) (ino : Nat) : Prop where
  layout : v'.toTrashfsLayout = v.toTrashfsLayout
  freeBlocks : v'.freeBlocks = v.freeBlocks
  mapped : Mapped v'
  blocks : ∀ q, q.Valid v.toTrashfsLayout → v'.blockAt q = v.blockAt q
  other : ∀ i < v.inodeCount, i ≠ ino → SameFile v v' i

theorem Poked.reset (hm : Mapped v) (hi : ino < v.inodeCount) (hnone : NoBlocks v ino)
    (h : Poked v v' (v.inodePtr ino) 64)
    (hzero : ∀ k, 16 ≤ k → k < 60 → v'.region (v.inodePtr ino + k) = 0) : Reset v v' ino := by
  have hle := hm.ordered.inode_le_data
  have hself := hm.ordered.inode_range (k := 0) hi (by omega)
  have hend := hm.ordered.inode_range (k := 63) hi (by omega)
  have hblocks : ∀ q, q.Valid v.toTrashfsLayout → v'.blockAt q = v.blockAt q := by
    intro q hq
    refine blockAt_frame h.layout (fun i hi' slot hs hs' => ?_) (fun q' hq' _ hb k hk => ?_) hq
    · by_cases hii : i = ino
      · rw [hii, hzero slot hs hs', hnone.pointers hi hs hs']
      · have hapart := hm.ordered.inodePtr_apart hi' hi hii
        exact h.frame _ (by omega)
    · have hdata := hm.data q' hq' hb
      rw [blockPtr_eq]
      exact h.frame _ (by omega)
  refine ⟨h.layout, h.freeBlocks,
    hm.frame h.layout h.freeBlocks (fun x hx => h.frame x (by omega)) hblocks, hblocks,
    fun i hi' hne => ?_⟩
  have hapart := hm.ordered.inodePtr_apart hi' hi hne
  obtain ⟨hmode, hsize⟩ := mode_size_congr h.layout fun k hk => h.frame (v.inodePtr i + k) (by omega)
  refine ⟨hmode, hsize, fileByte_congr hi' fun q hq _ _ k hk => ?_⟩
  unfold leafByte
  rw [hblocks q hq]
  by_cases hz : v.blockAt q = 0
  · rw [if_pos hz, if_pos hz]
  · rw [if_neg hz, if_neg hz]
    have hdata := hm.data q hq hz
    rw [blockPtr_eq]
    exact h.frame _ (by omega)

/-! ## `free_all_blocks` -/

/-- The file `ino` has no blocks any more; no other file, and no field, changed. -/
structure Truncated (v v' : TrashfsVolume) (ino : Nat) : Prop where
  layout : v'.toTrashfsLayout = v.toTrashfsLayout
  freeInodes : v'.freeInodes = v.freeInodes
  mapped : Mapped v'
  empty : NoBlocks v' ino
  fields : ∀ i < v.inodeCount, inodeMode v' i = inodeMode v i ∧ v'.dirSize i = v.dirSize i
  other : ∀ i < v.inodeCount, i ≠ ino → SameFile v v' i
  kept : ∀ q, q.Valid v.toTrashfsLayout → q.ino ≠ ino → v'.blockAt q = v.blockAt q

theorem freeAllBlocks_truncated (hm : Mapped v) (hi : ino < v.inodeCount) :
    Truncated v (v.freeAllBlocks (v.inodePtr ino)) ino := by
  have he := freeAllBlocks_spec hm hi
  generalize v.freeAllBlocks (v.inodePtr ino) = v' at he ⊢
  have hhead : ∀ i < v.inodeCount, ∀ k < 16, v'.region (v.inodePtr i + k) = v.region (v.inodePtr i + k) := by
    intro i hi' k hk
    have hrange := hm.ordered.inode_range (k := k) hi' (by omega)
    refine he.frame _ hrange.1 fun s hs => ?_
    by_cases hii : i = ino
    · rw [hii]
      omega
    · have hapart := hm.ordered.inodePtr_apart hi' hi hii
      omega
  have hfields : ∀ i < v.inodeCount, inodeMode v' i = inodeMode v i ∧ v'.dirSize i = v.dirSize i :=
    fun i hi' => mode_size_congr he.layout fun k hk => hhead i hi' k (by omega)
  have hkept : ∀ q, q.Valid v.toTrashfsLayout → q.ino ≠ ino → v'.blockAt q = v.blockAt q :=
    fun q hq hne => he.kept q hq fun hand => hne hand.1
  refine ⟨he.layout, he.freeInodes, he.mapped, fun q hq hqi => ?_, hfields, fun i hi' hne => ?_,
    hkept⟩
  · rw [he.layout] at hq
    exact he.gone q hq hqi hq.slot
  · refine ⟨(hfields i hi').1, (hfields i hi').2, fileByte_congr hi' fun q hq _ hqi k hk => ?_⟩
    unfold leafByte
    rw [hkept q hq (hqi ▸ hne)]
    by_cases hz : v.blockAt q = 0
    · rw [if_pos hz, if_pos hz]
    · rw [if_neg hz, if_neg hz]
      have hdata := hm.data q hq hz
      have hle := hm.ordered.inode_le_data
      have hend := hm.ordered.inode_range (k := 63) hi (by omega)
      rw [blockPtr_eq]
      exact he.frame _ (by omega) fun s hs => by omega

end Microgarbage.Storage
