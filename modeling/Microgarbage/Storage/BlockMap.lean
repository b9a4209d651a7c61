import Microgarbage.Storage.Alloc
import Microgarbage.Storage.Files

/-!
# The tree of blocks under an inode

A position names a pointer: the inode, its slot, and the entries of the pointer blocks on the way
down. A volume is *mapped* when its pointers name data blocks, no two name the same one, and the
bitmap has exactly the named blocks. `bmap_alloc` keeps a volume mapped and changes no byte of any
file: what it allocates reads as the hole it fills.
-/

namespace Microgarbage.Storage

open Lib

/-! ## Positions -/

structure BlockPos where
  ino : Nat
  /-- The offset of the pointer slot in the inode. -/
  slot : Nat
  /-- The entries of the pointer blocks, the innermost first. -/
  up : List Nat
  deriving DecidableEq

/-- The levels of pointer blocks below a slot of an inode. -/
def slotDepth (slot : Nat) : Nat := (slot - 44) / 4

namespace BlockPos

def child (p : BlockPos) (i : Nat) : BlockPos := ⟨p.ino, p.slot, i :: p.up⟩

structure Valid (g : TrashfsLayout) (p : BlockPos) : Prop where
  ino : p.ino < g.inodeCount
  slot : 16 ≤ p.slot ∧ p.slot < 60 ∧ p.slot % 4 = 0
  depth : p.up.length ≤ slotDepth p.slot
  index : ∀ i ∈ p.up, i < 32

/-- The position of a data block. -/
def Leaf (p : BlockPos) : Prop := p.up.length = slotDepth p.slot

theorem Valid.parent {g : TrashfsLayout} {p : BlockPos} {i : Nat} (h : (p.child i).Valid g) :
    p.Valid g ∧ i < 32 ∧ p.up.length < slotDepth p.slot := by
  obtain ⟨hino, hslot, hdepth, hindex⟩ := h
  have hlen : p.up.length + 1 ≤ slotDepth p.slot := hdepth
  exact ⟨⟨hino, hslot, by omega, fun j hj => hindex j (List.mem_cons_of_mem _ hj)⟩,
    hindex i (List.mem_cons_self ..), hlen⟩

theorem Valid.child {g : TrashfsLayout} {p : BlockPos} {i : Nat} (h : p.Valid g) (hi : i < 32)
    (hlen : p.up.length < slotDepth p.slot) : (p.child i).Valid g := by
  refine ⟨h.ino, h.slot, hlen, fun j hj => ?_⟩
  rcases List.mem_cons.mp hj with rfl | hj
  · exact hi
  · exact h.index j hj

theorem child_inj {p q : BlockPos} {i j : Nat} (h : p.child i = q.child j) : p = q ∧ i = j := by
  obtain ⟨ino, slot, up⟩ := p
  obtain ⟨ino', slot', up'⟩ := q
  simp only [child, mk.injEq, List.cons.injEq] at h
  obtain ⟨rfl, rfl, rfl, rfl⟩ := h
  exact ⟨rfl, rfl⟩

theorem child_ne (p : BlockPos) (i : Nat) : p.child i ≠ p := by
  intro h
  have hlen := congrArg (fun p => p.up.length) h
  simp [child] at hlen

theorem rec_child {motive : BlockPos → Prop} (root : ∀ ino slot, motive ⟨ino, slot, []⟩)
    (child : ∀ p i, motive p → motive (p.child i)) (p : BlockPos) : motive p := by
  obtain ⟨ino, slot, up⟩ := p
  induction up with
  | nil => exact root ino slot
  | cons i up ih => exact child ⟨ino, slot, up⟩ i ih

end BlockPos

namespace TrashfsVolume

def blockUnder (v : TrashfsVolume) (ino slot : Nat) : List Nat → Nat
  | [] => v.slotPtr (v.inodePtr ino + slot)
  | i :: up => v.ptrInBlock (blockUnder v ino slot up) i

/-- The block that the pointer at a position names, `trashfsBlockNone` where there is no pointer. -/
def blockAt (v : TrashfsVolume) (p : BlockPos) : Nat := v.blockUnder p.ino p.slot p.up

/-- The address of the pointer at a position. -/
def pointerAt (v : TrashfsVolume) (p : BlockPos) : Nat :=
  match p.up with
  | [] => v.inodePtr p.ino + p.slot
  | i :: up => blockPtr (v.blockUnder p.ino p.slot up) + i * 4

end TrashfsVolume

variable {v v' : TrashfsVolume} {p q : BlockPos}

theorem blockAt_root (v : TrashfsVolume) (ino slot : Nat) :
    v.blockAt ⟨ino, slot, []⟩ = v.slotPtr (v.inodePtr ino + slot) := rfl

theorem blockAt_child (v : TrashfsVolume) (p : BlockPos) (i : Nat) :
    v.blockAt (p.child i) = v.ptrInBlock (v.blockAt p) i := rfl

theorem blockAt_child_none {i : Nat} (h : v.blockAt p = 0) : v.blockAt (p.child i) = 0 :=
  (blockAt_child v p i).trans (if_pos h)

theorem blockAt_child_some {i : Nat} (h : v.blockAt p ≠ 0) :
    v.blockAt (p.child i) = v.slotPtr (blockPtr (v.blockAt p) + i * 4) :=
  (blockAt_child v p i).trans (if_neg h)

theorem pointerAt_child (v : TrashfsVolume) (p : BlockPos) (i : Nat) :
    v.pointerAt (p.child i) = blockPtr (v.blockAt p) + i * 4 := rfl

theorem followPath_eq (v : TrashfsVolume) (p : BlockPos) (path : List Nat) :
    v.followPath (v.blockAt p) path = v.blockAt ⟨p.ino, p.slot, path.reverse ++ p.up⟩ := by
  induction path generalizing p with
  | nil => rfl
  | cons i path ih =>
    rw [List.reverse_cons, List.append_assoc]
    exact ih (p.child i)

/-! ## Logical blocks -/

/-- The position of a logical block. -/
def leafPos (ino lbn : Nat) : Option BlockPos :=
  (lbnPath lbn).map fun sp => ⟨ino, sp.1, sp.2.reverse⟩

theorem mapLbn_eq (v : TrashfsVolume) (ino lbn : Nat) :
    v.mapLbn (v.inodePtr ino) lbn =
      match leafPos ino lbn with
      | some p => v.blockAt p
      | none => 0 := by
  unfold TrashfsVolume.mapLbn leafPos
  cases lbnPath lbn with
  | none => rfl
  | some sp =>
    obtain ⟨slot, path⟩ := sp
    have hfollow := followPath_eq v ⟨ino, slot, []⟩ path
    rw [List.append_nil] at hfollow
    exact hfollow

theorem lbnPath_cases (lbn : Nat) :
    (lbn < 8 ∧ lbnPath lbn = some (16 + lbn * 4, [])) ∨
    (∃ a < 32, lbn = 8 + a ∧ lbnPath lbn = some (48, [a])) ∨
    (∃ a < 32, ∃ b < 32, lbn = 40 + a * 32 + b ∧ lbnPath lbn = some (52, [a, b])) ∨
    (∃ a < 32, ∃ b < 32, ∃ c < 32, lbn = 1064 + a * 1024 + b * 32 + c ∧
      lbnPath lbn = some (56, [a, b, c])) ∨
    (33832 ≤ lbn ∧ lbnPath lbn = none) := by
  unfold lbnPath trashfsPtrsPerBlock trashfsDirectPtrs trashfsBlockSize
  dsimp only
  by_cases h0 : lbn < 8
  · rw [if_pos h0]
    exact .inl ⟨h0, rfl⟩
  rw [if_neg h0]
  by_cases h1 : lbn - 8 < 32
  · rw [if_pos h1]
    exact .inr (.inl ⟨lbn - 8, h1, by omega, rfl⟩)
  rw [if_neg h1]
  by_cases h2 : lbn - 8 - 32 < 32 * 32
  · rw [if_pos h2]
    exact .inr (.inr (.inl ⟨(lbn - 8 - 32) / 32, by omega, (lbn - 8 - 32) % 32, by omega, by omega,
      rfl⟩))
  rw [if_neg h2]
  by_cases h3 : lbn - 8 - 32 - 32 * 32 < 32 * 32 * 32
  · rw [if_pos h3]
    exact .inr (.inr (.inr (.inl ⟨(lbn - 8 - 32 - 32 * 32) / (32 * 32), by omega,
      (lbn - 8 - 32 - 32 * 32) / 32 % 32, by omega, (lbn - 8 - 32 - 32 * 32) % 32, by omega,
      by omega, rfl⟩)))
  · rw [if_neg h3]
    exact .inr (.inr (.inr (.inr ⟨by omega, rfl⟩)))

theorem leafPos_some {ino lbn slot : Nat} {path : List Nat} (h : lbnPath lbn = some (slot, path)) :
    leafPos ino lbn = some ⟨ino, slot, path.reverse⟩ := by
  unfold leafPos
  rw [h, Option.map_some]

theorem leafPos_none {ino lbn : Nat} : leafPos ino lbn = none ↔ lbnPath lbn = none :=
  Option.map_eq_none_iff

variable {g : TrashfsLayout}

theorem BlockPos.valid_leaf {ino slot : Nat} {up : List Nat} (hi : ino < g.inodeCount)
    (hslot : 16 ≤ slot ∧ slot < 60 ∧ slot % 4 = 0) (hlen : up.length = slotDepth slot)
    (hindex : ∀ i ∈ up, i < 32) :
    (⟨ino, slot, up⟩ : BlockPos).Valid g ∧ (⟨ino, slot, up⟩ : BlockPos).Leaf :=
  ⟨⟨hi, hslot, Nat.le_of_eq hlen, hindex⟩, hlen⟩

theorem leafPos_valid {ino lbn : Nat} (hi : ino < g.inodeCount) (h : leafPos ino lbn = some p) :
    p.ino = ino ∧ p.Valid g ∧ p.Leaf := by
  rcases lbnPath_cases lbn with ⟨hlbn, hp⟩ | ⟨a, ha, -, hp⟩ | ⟨a, ha, b, hb, -, hp⟩ |
    ⟨a, ha, b, hb, c, hc, -, hp⟩ | ⟨-, hp⟩
  · rw [leafPos_some hp, Option.some.injEq] at h
    subst h
    refine ⟨rfl, BlockPos.valid_leaf hi (by omega) ?_ nofun⟩
    unfold slotDepth
    rw [List.reverse_nil, List.length_nil]
    omega
  · rw [leafPos_some hp, Option.some.injEq] at h
    subst h
    exact ⟨rfl, BlockPos.valid_leaf hi (by decide) rfl (by simpa using ha)⟩
  · rw [leafPos_some hp, Option.some.injEq] at h
    subst h
    exact ⟨rfl, BlockPos.valid_leaf hi (by decide) rfl (by simp [ha, hb])⟩
  · rw [leafPos_some hp, Option.some.injEq] at h
    subst h
    exact ⟨rfl, BlockPos.valid_leaf hi (by decide) rfl (by simp [ha, hb, hc])⟩
  · rw [leafPos_none.mpr hp] at h
    cases h

/-- The logical block at the position of a data block. -/
def BlockPos.lbn (p : BlockPos) : Nat :=
  match p.up with
  | [] => (p.slot - 16) / 4
  | [a] => 8 + a
  | [b, a] => 40 + a * 32 + b
  | c :: b :: a :: _ => 1064 + a * 1024 + b * 32 + c

theorem leafPos_lbn {ino lbn : Nat} (h : leafPos ino lbn = some p) : p.lbn = lbn := by
  rcases lbnPath_cases lbn with ⟨-, hp⟩ | ⟨a, -, rfl, hp⟩ | ⟨a, -, b, -, rfl, hp⟩ |
    ⟨a, -, b, -, c, -, rfl, hp⟩ | ⟨-, hp⟩
  · rw [leafPos_some hp, Option.some.injEq] at h
    subst h
    have hlbn : (16 + lbn * 4 - 16) / 4 = lbn := by omega
    exact hlbn
  · rw [leafPos_some hp, Option.some.injEq] at h
    exact h ▸ rfl
  · rw [leafPos_some hp, Option.some.injEq] at h
    exact h ▸ rfl
  · rw [leafPos_some hp, Option.some.injEq] at h
    exact h ▸ rfl
  · rw [leafPos_none.mpr hp] at h
    cases h

theorem leafPos_inj {ino lbn lbn' : Nat} (h : leafPos ino lbn = some p)
    (h' : leafPos ino lbn' = some p) : lbn = lbn' :=
  (leafPos_lbn h).symm.trans (leafPos_lbn h')

/-! ## Mapped volumes -/

structure Mapped (v : TrashfsVolume) : Prop where
  ordered : v.Ordered
  data : ∀ p, p.Valid v.toTrashfsLayout → v.blockAt p ≠ 0 →
    v.dataStart ≤ v.blockAt p ∧ v.blockAt p < v.totalBlocks
  inj : ∀ p q, p.Valid v.toTrashfsLayout → q.Valid v.toTrashfsLayout → v.blockAt p ≠ 0 →
    v.blockAt p = v.blockAt q → p = q
  bits : ∀ b, v.dataStart ≤ b → b < v.totalBlocks →
    (v.bitmapTest b = true ↔ ∃ p, p.Valid v.toTrashfsLayout ∧ v.blockAt p = b)
  free : v.freeBlocks = clearBlocks v

/-- The pointers name distinct data blocks, all of them allocated. A block may be allocated that no
pointer names. -/
structure PointerTree (v : TrashfsVolume) : Prop where
  ordered : v.Ordered
  data : ∀ p, p.Valid v.toTrashfsLayout → v.blockAt p ≠ 0 →
    v.dataStart ≤ v.blockAt p ∧ v.blockAt p < v.totalBlocks
  inj : ∀ p q, p.Valid v.toTrashfsLayout → q.Valid v.toTrashfsLayout → v.blockAt p ≠ 0 →
    v.blockAt p = v.blockAt q → p = q
  allocated : ∀ p, p.Valid v.toTrashfsLayout → v.blockAt p ≠ 0 → v.bitmapTest (v.blockAt p) = true

theorem Mapped.tree (hm : Mapped v) : PointerTree v := by
  refine ⟨hm.ordered, hm.data, hm.inj, fun p hp hne => ?_⟩
  obtain ⟨hlo, hhi⟩ := hm.data p hp hne
  exact (hm.bits _ hlo hhi).mpr ⟨p, hp, rfl⟩

/-- A byte of a data block of a file, 0 in a hole. -/
def leafByte (v : TrashfsVolume) (p : BlockPos) (k : Nat) : Byte :=
  if v.blockAt p = 0 then 0 else v.region (blockPtr (v.blockAt p) + k)

/-- Byte `off` of a file, 0 in a hole. -/
def fileByte (v : TrashfsVolume) (ino off : Nat) : Byte :=
  match leafPos ino (off / 128) with
  | some p => leafByte v p (off % 128)
  | none => 0

/-! ## Addresses -/

theorem TrashfsLayout.Ordered.inode_range (h : g.Ordered) {i k : Nat} (hi : i < g.inodeCount)
    (hk : k < 64) :
    g.inodeStart * 128 ≤ g.inodePtr i + k ∧ g.inodePtr i + k < g.dataStart * 128 := by
  have hd := h.dataStart
  have hc := h.inodes
  rw [h.inodePtr_eq hi]
  omega

theorem TrashfsLayout.Ordered.not_bitmap (h : g.Ordered) {x : Nat} (hx : g.inodeStart * 128 ≤ x) :
    ¬g.bitmapArea.Holds x := by
  have hs := h.bitmapStart
  have hi := h.inodeStart
  unfold Area.Holds TrashfsLayout.bitmapArea
  dsimp only
  omega

theorem TrashfsLayout.Ordered.inode_le_data (h : g.Ordered) :
    0 < g.inodeStart ∧ g.inodeStart ≤ g.dataStart := by
  have hi := h.inodeStart
  have hd := h.dataStart
  omega

theorem TrashfsLayout.Ordered.inodePtr_apart (h : g.Ordered) {i j : Nat} (hi : i < g.inodeCount)
    (hj : j < g.inodeCount) (hne : i ≠ j) :
    g.inodePtr i + 64 ≤ g.inodePtr j ∨ g.inodePtr j + 64 ≤ g.inodePtr i := by
  rw [h.inodePtr_eq hi, h.inodePtr_eq hj]
  omega

theorem bitmapTest_congr (h : v.Ordered) (hl : v'.toTrashfsLayout = v.toTrashfsLayout)
    (hbits : ∀ x < v.inodeStart * 128, v'.region x = v.region x) {c : Nat} (hc : c < v.totalBlocks) :
    v'.bitmapTest c = v.bitmapTest c := by
  unfold TrashfsVolume.bitmapTest
  rw [hl]
  refine bitmapBit_congr (hbits _ ?_)
  have harea := h.bit_area hc
  have hs := h.inodeStart
  have hb := h.bitmapStart
  unfold Area.Holds TrashfsLayout.bitmapArea at harea
  dsimp only at harea
  omega

theorem clearBlocks_congr (h : v.Ordered) (hl : v'.toTrashfsLayout = v.toTrashfsLayout)
    (hbits : ∀ c < v.totalBlocks, v'.bitmapTest c = v.bitmapTest c) :
    clearBlocks v' = clearBlocks v := by
  unfold clearBlocks
  rw [hl]
  refine List.countP_congr fun c hc => ?_
  rw [hbits c ((mem_dataBlocks h).mp hc).2]

theorem slotPtr_congr {a : Nat} (h : ∀ i < 4, v'.region (a + i) = v.region (a + i)) :
    v'.slotPtr a = v.slotPtr a :=
  congrArg BitVec.toNat (rd32_congr h)

/-- What does not touch a pointer slot or a pointer block leaves the tree alone. -/
theorem blockAt_frame (hl : v'.toTrashfsLayout = v.toTrashfsLayout)
    (hroot : ∀ ino < v.inodeCount, ∀ slot, 16 ≤ slot → slot < 60 →
      v'.region (v.inodePtr ino + slot) = v.region (v.inodePtr ino + slot))
    (hblock : ∀ q, q.Valid v.toTrashfsLayout → q.up.length < slotDepth q.slot → v.blockAt q ≠ 0 →
      ∀ k < 128, v'.region (blockPtr (v.blockAt q) + k) = v.region (blockPtr (v.blockAt q) + k))
    (hp : p.Valid v.toTrashfsLayout) : v'.blockAt p = v.blockAt p := by
  induction p using BlockPos.rec_child with
  | root ino slot =>
    have hslot : 16 ≤ slot ∧ slot < 60 ∧ slot % 4 = 0 := hp.slot
    rw [blockAt_root, blockAt_root, hl]
    refine slotPtr_congr fun i hi => ?_
    rw [Nat.add_assoc]
    exact hroot ino hp.ino (slot + i) (by omega) (by omega)
  | child p i ih =>
    obtain ⟨hparent, hi, hlen⟩ := hp.parent
    have ih' := ih hparent
    by_cases hzero : v.blockAt p = 0
    · rw [blockAt_child_none hzero, blockAt_child_none (ih'.trans hzero)]
    · rw [blockAt_child_some hzero, blockAt_child_some (ih'.symm ▸ hzero), ih']
      refine slotPtr_congr fun j hj => ?_
      rw [Nat.add_assoc]
      exact hblock p hparent hlen hzero (i * 4 + j) (by omega)

theorem PointerTree.block_range (hm : PointerTree v) (hp : p.Valid v.toTrashfsLayout) (hne : v.blockAt p ≠ 0)
    {k : Nat} (hk : k < 128) : v.dataStart * 128 ≤ blockPtr (v.blockAt p) + k := by
  have hdata := hm.data p hp hne
  rw [blockPtr_eq]
  omega

/-- The pointer has a place: the pointer block above it is there. -/
def Reached (v : TrashfsVolume) (p : BlockPos) : Prop := ∀ q i, p = q.child i → v.blockAt q ≠ 0

theorem reached_root (v : TrashfsVolume) (ino slot : Nat) : Reached v ⟨ino, slot, []⟩ := by
  intro q i h
  simp [BlockPos.child] at h

theorem reached_child {i : Nat} (h : v.blockAt p ≠ 0) : Reached v (p.child i) := by
  intro q j hq
  exact (BlockPos.child_inj hq).1 ▸ h

theorem slotPtr_pointerAt (h : Reached v p) : v.slotPtr (v.pointerAt p) = v.blockAt p := by
  obtain ⟨ino, slot, up⟩ := p
  cases up with
  | nil => rfl
  | cons i up => exact (blockAt_child_some (p := ⟨ino, slot, up⟩) (h _ i rfl)).symm

theorem pointerAt_cases (hp : p.Valid v.toTrashfsLayout) (hr : Reached v p) :
    (v.pointerAt p = v.inodePtr p.ino + p.slot ∧ p.up = []) ∨
      ∃ q i, p = q.child i ∧ q.Valid v.toTrashfsLayout ∧ i < 32 ∧
        q.up.length < slotDepth q.slot ∧ v.blockAt q ≠ 0 ∧
        v.pointerAt p = v.blockAt q * 128 + i * 4 := by
  induction p using BlockPos.rec_child with
  | root ino slot => exact .inl ⟨rfl, rfl⟩
  | child q i =>
    obtain ⟨hq, hi, hlen⟩ := hp.parent
    exact .inr ⟨q, i, rfl, hq, hi, hlen, hr q i rfl, rfl⟩

theorem PointerTree.pointerAt_ge (hm : PointerTree v) (hp : p.Valid v.toTrashfsLayout) (hr : Reached v p) :
    v.inodeStart * 128 ≤ v.pointerAt p := by
  have hle := hm.ordered.inode_le_data
  rcases pointerAt_cases hp hr with ⟨heq, -⟩ | ⟨q, i, -, hq, -, -, hne, heq⟩
  · have hslot := hp.slot
    have hrange := hm.ordered.inode_range (k := p.slot) hp.ino (by omega)
    omega
  · have hdata := hm.data q hq hne
    omega

theorem PointerTree.pointerAt_block (hm : PointerTree v) (hp : p.Valid v.toTrashfsLayout) (hr : Reached v p)
    {c : Nat} (hc : v.dataStart ≤ c) (hother : ∀ q i, p = q.child i → v.blockAt q ≠ c) :
    v.pointerAt p + 4 ≤ c * 128 ∨ c * 128 + 128 ≤ v.pointerAt p := by
  rcases pointerAt_cases hp hr with ⟨heq, -⟩ | ⟨q, i, hchild, -, hi, -, -, heq⟩
  · have hslot := hp.slot
    have hrange := hm.ordered.inode_range (k := p.slot + 3) hp.ino (by omega)
    omega
  · have hne := hother q i hchild
    omega

theorem PointerTree.pointerAt_apart (hm : PointerTree v) (hp : p.Valid v.toTrashfsLayout) (hr : Reached v p)
    (hq : q.Valid v.toTrashfsLayout) (hr' : Reached v q) (hne : p ≠ q) :
    v.pointerAt p + 4 ≤ v.pointerAt q ∨ v.pointerAt q + 4 ≤ v.pointerAt p := by
  rcases pointerAt_cases hp hr with ⟨heq, hup⟩ | ⟨p', i, rfl, hp', hi, -, hpne, heq⟩
  · rcases pointerAt_cases hq hr' with ⟨heq', hup'⟩ | ⟨q', j, rfl, hq', hj, -, hqne, heq'⟩
    · have hslot := hp.slot
      have hslot' := hq.slot
      by_cases hino : p.ino = q.ino
      · have hdiff : p.slot ≠ q.slot := by
          intro hs
          obtain ⟨ino, slot, up⟩ := p
          obtain ⟨ino', slot', up'⟩ := q
          dsimp only at hino hs hup hup'
          exact hne (by rw [hino, hs, hup, hup'])
        rw [heq, heq', hino]
        omega
      · have hapart := hm.ordered.inodePtr_apart hp.ino hq.ino hino
        omega
    · have hslot := hp.slot
      have hrange := hm.ordered.inode_range (k := p.slot + 3) hp.ino (by omega)
      have hdata := hm.data q' hq' hqne
      omega
  · rcases pointerAt_cases hq hr' with ⟨heq', -⟩ | ⟨q', j, rfl, hq', hj, -, hqne, heq'⟩
    · have hslot := hq.slot
      have hrange := hm.ordered.inode_range (k := q.slot + 3) hq.ino (by omega)
      have hdata := hm.data p' hp' hpne
      omega
    · by_cases hblock : v.blockAt p' = v.blockAt q'
      · have hsame := hm.inj p' q' hp' hq' hpne hblock
        have hdiff : i ≠ j := fun hij => hne (by rw [hsame, hij])
        rw [heq, heq', hblock]
        omega
      · omega

theorem Mapped.restrict {K : BlockPos → Prop} (hm : Mapped v)
    (hl : v'.toTrashfsLayout = v.toTrashfsLayout)
    (hgone : ∀ q, q.Valid v.toTrashfsLayout → K q → v'.blockAt q = 0)
    (hkept : ∀ q, q.Valid v.toTrashfsLayout → ¬K q → v'.blockAt q = v.blockAt q)
    (hbits : ∀ c, v.dataStart ≤ c → c < v.totalBlocks → (v'.bitmapTest c = true ↔
      v.bitmapTest c = true ∧ ¬∃ q, q.Valid v.toTrashfsLayout ∧ K q ∧ v.blockAt q = c))
    (hfree : v'.freeBlocks = clearBlocks v') : Mapped v' := by
  have hnot : ∀ q, q.Valid v.toTrashfsLayout → v'.blockAt q ≠ 0 → ¬K q := fun q hq hne hK =>
    hne (hgone q hq hK)
  refine ⟨hl ▸ hm.ordered, fun q hq hne => ?_, fun q q' hq hq' hne heq => ?_, fun c hc hc' => ?_,
    hfree⟩
  · rw [hl] at hq ⊢
    have hsame := hkept q hq (hnot q hq hne)
    rw [hsame] at hne ⊢
    exact hm.data q hq hne
  · rw [hl] at hq hq'
    have hsame := hkept q hq (hnot q hq hne)
    have hsame' := hkept q' hq' (hnot q' hq' (heq ▸ hne))
    rw [hsame] at hne heq
    exact hm.inj q q' hq hq' hne (heq.trans hsame')
  · rw [hl] at hc hc' ⊢
    have hle := hm.ordered.inode_le_data
    rw [hbits c hc hc', hm.bits c hc hc']
    constructor
    · rintro ⟨⟨q, hq, hqc⟩, hfresh⟩
      exact ⟨q, hq, (hkept q hq fun hK => hfresh ⟨q, hq, hK, hqc⟩).trans hqc⟩
    · rintro ⟨q, hq, hqc⟩
      have hne : v'.blockAt q ≠ 0 := by omega
      have hK := hnot q hq hne
      have hsame := hkept q hq hK
      refine ⟨⟨q, hq, hsame.symm.trans hqc⟩, ?_⟩
      rintro ⟨q', hq', hK', hqc'⟩
      refine hK (hm.inj q' q hq' hq ?_ ?_ ▸ hK')
      · omega
      · rw [hqc', ← hqc, hsame]

theorem Mapped.frame (hm : Mapped v) (hl : v'.toTrashfsLayout = v.toTrashfsLayout)
    (hfree : v'.freeBlocks = v.freeBlocks)
    (hlow : ∀ x < v.inodeStart * 128, v'.region x = v.region x)
    (hblocks : ∀ q, q.Valid v.toTrashfsLayout → v'.blockAt q = v.blockAt q) : Mapped v' := by
  have hbits := fun c hc => bitmapTest_congr (c := c) hm.ordered hl hlow hc
  refine hm.restrict (K := fun _ => False) hl (fun _ _ h => h.elim) (fun q hq _ => hblocks q hq)
    (fun c _ hc => ?_) ?_
  · rw [hbits c hc]
    simp
  · rw [hfree, clearBlocks_congr hm.ordered hl hbits, hm.free]

/-! ## Growth -/

/-- Blocks were linked in, and no byte of a file or of an inode's other fields changed. -/
structure Grows (v v' : TrashfsVolume) : Prop where
  layout : v'.toTrashfsLayout = v.toTrashfsLayout
  freeInodes : v'.freeInodes = v.freeInodes
  kept : ∀ p, p.Valid v.toTrashfsLayout → v.blockAt p ≠ 0 → v'.blockAt p = v.blockAt p
  leaves : ∀ p, p.Valid v.toTrashfsLayout → p.Leaf → ∀ k < 128, leafByte v' p k = leafByte v p k
  fields : ∀ i < v.inodeCount, ∀ k < 64, k < 16 ∨ 60 ≤ k →
    v'.region (v.inodePtr i + k) = v.region (v.inodePtr i + k)

theorem Grows.refl (v : TrashfsVolume) : Grows v v :=
  ⟨rfl, rfl, fun _ _ _ => rfl, fun _ _ _ _ _ => rfl, fun _ _ _ _ _ => rfl⟩

theorem Grows.trans {v'' : TrashfsVolume} (h : Grows v v') (h' : Grows v' v'') : Grows v v'' := by
  obtain ⟨hl, hi, hk, hb, hf⟩ := h
  obtain ⟨hl', hi', hk', hb', hf'⟩ := h'
  rw [hl] at hk' hb' hf'
  refine ⟨hl'.trans hl, hi'.trans hi, fun p hp hne => ?_, fun p hp hleaf k hlt => ?_,
    fun i hlt k hk64 hout => ?_⟩
  · have hsame := hk p hp hne
    exact (hk' p hp (hsame ▸ hne)).trans hsame
  · exact (hb' p hp hleaf k hlt).trans (hb p hp hleaf k hlt)
  · exact (hf' i hlt k hk64 hout).trans (hf i hlt k hk64 hout)

/-- The pointer at `p`, which named nothing, names the new block `b`. -/
structure Linked (v v' : TrashfsVolume) (p : BlockPos) (b : Nat) : Prop where
  layout : v'.toTrashfsLayout = v.toTrashfsLayout
  freeInodes : v'.freeInodes = v.freeInodes
  freeBlocks : v'.freeBlocks = v.freeBlocks - 1
  data : v.dataStart ≤ b ∧ b < v.totalBlocks
  none : v.blockAt p = 0
  fresh : ∀ q, q.Valid v.toTrashfsLayout → v.blockAt q ≠ b
  bits : ∀ c < v.totalBlocks, v'.bitmapTest c = (decide (c = b) || v.bitmapTest c)
  clear : clearBlocks v = clearBlocks v' + 1
  blocks : ∀ q, q.Valid v.toTrashfsLayout → v'.blockAt q = if q = p then b else v.blockAt q
  zero : ∀ k < 128, v'.region (blockPtr b + k) = 0
  frame : ∀ x, v.inodeStart * 128 ≤ x → ¬InBlock b x → (x < v.pointerAt p ∨ v.pointerAt p + 4 ≤ x) →
    v'.region x = v.region x

theorem blockAt_link (hm : PointerTree v) (hp : p.Valid v.toTrashfsLayout) (hr : Reached v p)
    (hnone : v.blockAt p = 0) {b : Nat} (hb : v.dataStart ≤ b)
    (hfresh : ∀ q, q.Valid v.toTrashfsLayout → v.blockAt q ≠ b)
    (hl : v'.toTrashfsLayout = v.toTrashfsLayout) (hpointer : v'.slotPtr (v.pointerAt p) = b)
    (hzero : ∀ k < 128, v'.region (blockPtr b + k) = 0)
    (hframe : ∀ x, v.inodeStart * 128 ≤ x → ¬InBlock b x →
      (x < v.pointerAt p ∨ v.pointerAt p + 4 ≤ x) → v'.region x = v.region x)
    (hq : q.Valid v.toTrashfsLayout) : v'.blockAt q = if q = p then b else v.blockAt q := by
  have hle := hm.ordered.inode_le_data
  have hother : ∀ q, q.Valid v.toTrashfsLayout → Reached v q → q ≠ p →
      v'.slotPtr (v.pointerAt q) = v.blockAt q := by
    intro q hq hrq hne
    rw [← slotPtr_pointerAt hrq]
    have hapart := hm.pointerAt_apart hq hrq hp hr hne
    have hge := hm.pointerAt_ge hq hrq
    have hblock := hm.pointerAt_block hq hrq hb fun q' i hc => hfresh q' (hc ▸ hq).parent.1
    refine slotPtr_congr fun k hk => hframe _ (by omega) ?_ (by omega)
    unfold InBlock
    omega
  induction q using BlockPos.rec_child with
  | root ino slot =>
    have hroot : v'.blockAt ⟨ino, slot, []⟩ = v'.slotPtr (v.pointerAt ⟨ino, slot, []⟩) := by
      rw [blockAt_root, hl]
      rfl
    rw [hroot]
    by_cases hqp : (⟨ino, slot, []⟩ : BlockPos) = p
    · rw [if_pos hqp, hqp]
      exact hpointer
    · rw [if_neg hqp]
      exact hother ⟨ino, slot, []⟩ hq (reached_root v ino slot) hqp
  | child q i ih =>
    obtain ⟨hparent, hi, -⟩ := hq.parent
    have ih' := ih hparent
    by_cases hqp : q = p
    · -- the new block is a pointer block without pointers
      have hbz : v'.blockAt q = b := ih'.trans (if_pos hqp)
      have hself : q.child i ≠ p := fun hc => BlockPos.child_ne q i (hc.trans hqp.symm)
      have hbpos : v'.blockAt q ≠ 0 := by omega
      have hzq : v.blockAt q = 0 := hqp ▸ hnone
      rw [if_neg hself, blockAt_child_none hzq, blockAt_child_some hbpos, hbz]
      refine congrArg BitVec.toNat (rd32_zero fun k hk => ?_)
      rw [Nat.add_assoc]
      exact hzero _ (by omega)
    · rw [if_neg hqp] at ih'
      by_cases hz : v.blockAt q = 0
      · rw [blockAt_child_none hz, blockAt_child_none (ih'.trans hz),
          if_neg fun hc => hr q i hc.symm hz]
      · have hz' : v'.blockAt q ≠ 0 := fun h => hz (ih'.symm.trans h)
        rw [blockAt_child_some hz', ih', ← pointerAt_child]
        by_cases hcp : q.child i = p
        · rw [if_pos hcp, hcp]
          exact hpointer
        · rw [if_neg hcp]
          exact hother (q.child i) hq (reached_child hz) hcp

theorem linked_of_allocated (hm : PointerTree v) (hp : p.Valid v.toTrashfsLayout) (hr : Reached v p)
    (hnone : v.blockAt p = 0) {v₁ : TrashfsVolume} {b : Nat} (ha : Allocated v v₁ b) :
    Linked v { v₁ with region := wr32 v₁.region (v.pointerAt p) (BitVec.ofNat 32 b) } p b := by
  have hfresh : ∀ q, q.Valid v.toTrashfsLayout → v.blockAt q ≠ b := by
    intro q hq hqb
    have hpos := hm.ordered.inode_le_data
    have hlo := ha.data.1
    have hset := hm.allocated q hq (by omega)
    rw [hqb, ha.free] at hset
    cases hset
  have hge := hm.pointerAt_ge hp hr
  have hout := hm.pointerAt_block hp hr ha.data.1 fun q i hc => hfresh q (hc ▸ hp).parent.1
  have htotal := hm.ordered.total
  have hle := hm.ordered.inode_le_data
  obtain ⟨a, haddr⟩ : ∃ a, v.pointerAt p = a := ⟨_, rfl⟩
  obtain ⟨v', hv'⟩ : ∃ v' : TrashfsVolume,
    { v₁ with region := wr32 v₁.region a (BitVec.ofNat 32 b) } = v' := ⟨_, rfl⟩
  rw [haddr] at hge hout ⊢
  rw [hv']
  have hregion : v'.region = wr32 v₁.region a (BitVec.ofNat 32 b) := by rw [← hv']
  have hlayout : v'.toTrashfsLayout = v.toTrashfsLayout := by
    rw [← hv']
    exact ha.layout
  have hframe : ∀ x, v.inodeStart * 128 ≤ x → ¬InBlock b x → (x < a ∨ a + 4 ≤ x) →
      v'.region x = v.region x := by
    intro x hx hb hxa
    rw [hregion, wr32_out hxa]
    exact ha.frame x (hm.ordered.not_bitmap hx) hb
  have hzero : ∀ k < 128, v'.region (blockPtr b + k) = 0 := by
    intro k hk
    rw [hregion, wr32_out (by rw [blockPtr_eq]; omega)]
    exact ha.zero _ (by unfold InBlock; rw [blockPtr_eq]; omega)
  have hord₁ : v₁.Ordered := ha.layout ▸ hm.ordered
  have hsame : ∀ c < v₁.totalBlocks, v'.bitmapTest c = v₁.bitmapTest c := fun c hc =>
    bitmapTest_congr hord₁ (hlayout.trans ha.layout.symm) (fun x hx => by
      rw [ha.layout] at hx
      rw [hregion, wr32_out (.inl (by omega))]) hc
  have hbits : ∀ c < v.totalBlocks, v'.bitmapTest c = (decide (c = b) || v.bitmapTest c) :=
    fun c hc => (hsame c (ha.layout ▸ hc)).trans (ha.bits c hc)
  have hclear : clearBlocks v = clearBlocks v' + 1 := by
    rw [ha.clear hm.ordered, clearBlocks_congr hord₁ (hlayout.trans ha.layout.symm) hsame]
  have hdata := ha.data
  refine ⟨hlayout, ?_, ?_, hdata, ?_, hfresh, hbits, hclear, ?_, hzero, ?_⟩
  · rw [← hv']
    exact ha.freeInodes
  · rw [← hv']
    exact ha.freeBlocks
  · exact hnone
  · have hpointer : v'.slotPtr (v.pointerAt p) = b := by
      unfold TrashfsVolume.slotPtr
      rw [haddr, hregion, rd32_wr32, BitVec.toNat_ofNat]
      exact Nat.mod_eq_of_lt (by omega)
    exact fun q hq => blockAt_link hm hp hr hnone ha.data.1 hfresh hlayout hpointer hzero
      (haddr ▸ hframe) hq
  · exact haddr ▸ hframe

theorem Linked.tree {b : Nat} (hm : PointerTree v) (hl : Linked v v' p b) : PointerTree v' := by
  have hlayout := hl.layout
  refine ⟨hlayout ▸ hm.ordered, fun q hq hne => ?_, fun q q' hq hq' hne heq => ?_,
    fun q hq hne => ?_⟩
  · rw [hlayout] at hq ⊢
    rw [hl.blocks q hq] at hne ⊢
    split at hne
    · rename_i hqp
      rw [if_pos hqp]
      exact hl.data
    · rename_i hqp
      rw [if_neg hqp]
      exact hm.data q hq hne
  · rw [hlayout] at hq hq'
    rw [hl.blocks q hq, hl.blocks q' hq'] at heq
    rw [hl.blocks q hq] at hne
    by_cases hqp : q = p
    · by_cases hqp' : q' = p
      · exact hqp.trans hqp'.symm
      · rw [if_pos hqp, if_neg hqp'] at heq
        exact absurd heq.symm (hl.fresh q' hq')
    · rw [if_neg hqp] at heq hne
      by_cases hqp' : q' = p
      · rw [if_pos hqp'] at heq
        exact absurd heq (hl.fresh q hq)
      · rw [if_neg hqp'] at heq
        exact hm.inj q q' hq hq' hne heq
  · rw [hlayout] at hq
    rw [hl.blocks q hq] at hne ⊢
    by_cases hqp : q = p
    · rw [if_pos hqp, hl.bits b hl.data.2]
      simp
    · rw [if_neg hqp] at hne ⊢
      rw [hl.bits _ (hm.data q hq hne).2, hm.allocated q hq hne]
      simp

theorem Linked.mapped {b : Nat} (hm : Mapped v) (hp : p.Valid v.toTrashfsLayout)
    (hl : Linked v v' p b) : Mapped v' := by
  have hlayout := hl.layout
  have ht := hl.tree hm.tree
  refine ⟨ht.ordered, ht.data, ht.inj, fun c hc hc' => ?_, ?_⟩
  · rw [hlayout] at hc hc' ⊢
    rw [hl.bits c hc', Bool.or_eq_true, decide_eq_true_iff, hm.bits c hc hc']
    constructor
    · rintro (rfl | ⟨q, hq, hqc⟩)
      · exact ⟨p, hp, (hl.blocks p hp).trans (if_pos rfl)⟩
      · by_cases hqp : q = p
        · rw [hqp, hl.none] at hqc
          have hle := hm.ordered.inode_le_data
          omega
        · exact ⟨q, hq, (hl.blocks q hq).trans ((if_neg hqp).trans hqc)⟩
    · rintro ⟨q, hq, hqc⟩
      rw [hl.blocks q hq] at hqc
      split at hqc
      · exact .inl hqc.symm
      · exact .inr ⟨q, hq, hqc⟩
  · have hclear := hl.clear
    have hfree := hm.free
    rw [hl.freeBlocks]
    omega

theorem Linked.grows {b : Nat} (hm : PointerTree v) (hp : p.Valid v.toTrashfsLayout) (hr : Reached v p)
    (hl : Linked v v' p b) : Grows v v' := by
  have hle := hm.ordered.inode_le_data
  have hdata := hl.data
  refine ⟨hl.layout, hl.freeInodes, fun q hq hne => ?_, fun q hq hleaf k hk => ?_,
    fun i hi k hk hout => ?_⟩
  · have hqp : q ≠ p := by
      rintro rfl
      exact hne hl.none
    rw [hl.blocks q hq, if_neg hqp]
  · unfold leafByte
    rw [hl.blocks q hq]
    by_cases hqp : q = p
    · rw [if_pos hqp, if_neg (by omega), hqp, if_pos hl.none]
      exact hl.zero k hk
    · rw [if_neg hqp]
      by_cases hz : v.blockAt q = 0
      · rw [if_pos hz, if_pos hz]
      · rw [if_neg hz, if_neg hz]
        have hrange := hm.block_range hq hz hk
        have hqdata := hm.data q hq hz
        have hfresh := hl.fresh q hq
        -- a leaf's block holds no pointer
        have hblock := hm.pointerAt_block hp hr hqdata.1 fun q' i hc heq => by
          obtain ⟨hq', -, hlen⟩ := (hc ▸ hp).parent
          have hsame := hm.inj q q' hq hq' hz heq.symm
          rw [← hsame] at hlen
          exact absurd hleaf (Nat.ne_of_lt hlen)
        rw [blockPtr_eq] at hrange ⊢
        refine hl.frame _ (by omega) ?_ (by omega)
        unfold InBlock
        omega
  · have hrange := hm.ordered.inode_range hi hk
    refine hl.frame _ hrange.1 ?_ ?_
    · unfold InBlock
      omega
    · rcases pointerAt_cases hp hr with ⟨heq, -⟩ | ⟨q, j, -, hq, -, -, hne, heq⟩
      · have hslot := hp.slot
        by_cases hino : i = p.ino
        · rw [heq, hino]
          omega
        · have hapart := hm.ordered.inodePtr_apart hi hp.ino hino
          omega
      · have hqdata := hm.data q hq hne
        omega

/-! ## `bmap_alloc` -/

/-- What the allocation of the block of a position gives: the block, or a full volume. -/
structure Ensured (v v' : TrashfsVolume) (p : BlockPos) (b : Nat) : Prop where
  mapped : Mapped v'
  grows : Grows v v'
  block : b ≠ 0 → v'.blockAt p = b
  full : b = 0 → Full v'
  same : Full v → v' = v
  other : ∀ q, q.Valid v.toTrashfsLayout → q.ino ≠ p.ino → v'.blockAt q = v.blockAt q

theorem ensureSlot_cases (hm : PointerTree v) (hp : p.Valid v.toTrashfsLayout) (hr : Reached v p) :
    (v.ensureSlot (v.pointerAt p) = (v.blockAt p, v) ∧ (v.blockAt p = 0 → Full v)) ∨
      ∃ b v', v.ensureSlot (v.pointerAt p) = (b, v') ∧ b ≠ 0 ∧ ¬Full v ∧ Linked v v' p b := by
  unfold TrashfsVolume.ensureSlot
  dsimp only
  rw [slotPtr_pointerAt hr]
  by_cases hnone : v.blockAt p = trashfsBlockNone
  · rw [if_pos hnone]
    rcases allocBlock_spec hm.ordered with ⟨halloc, hfull⟩ | ⟨b, v₁, halloc, hb, ha⟩
    · rw [halloc, hnone]
      exact .inl ⟨rfl, fun _ => hfull⟩
    · rw [halloc]
      dsimp only
      rw [if_neg hb]
      refine .inr ⟨b, _, rfl, hb, fun hfull => ?_, linked_of_allocated hm hp hr hnone ha⟩
      have hset := hfull b ha.data.1 ha.data.2
      rw [ha.free] at hset
      cases hset
  · rw [if_neg hnone]
    exact .inl ⟨rfl, fun h => absurd h hnone⟩

theorem ensureSlot_spec (hm : Mapped v) (hp : p.Valid v.toTrashfsLayout) (hr : Reached v p) :
    Ensured v (v.ensureSlot (v.pointerAt p)).2 p (v.ensureSlot (v.pointerAt p)).1 := by
  rcases ensureSlot_cases hm.tree hp hr with ⟨heq, hfull⟩ | ⟨b, v', heq, hb, hfull, hl⟩
  · rw [heq]
    exact ⟨hm, .refl v, fun _ => rfl, hfull, fun _ => rfl, fun _ _ _ => rfl⟩
  · rw [heq]
    refine ⟨hl.mapped hm hp, hl.grows hm.tree hp hr, fun _ => ?_, fun h => absurd h hb,
      fun h => absurd h hfull, fun q hq hne => ?_⟩
    · exact (hl.blocks p hp).trans (if_pos rfl)
    · exact (hl.blocks q hq).trans (if_neg fun hqp => hne (congrArg BlockPos.ino hqp))

theorem Ensured.trans {v'' : TrashfsVolume} {b b' : Nat} (h : Ensured v v' p b)
    (h' : Ensured v' v'' q b') (hino : q.ino = p.ino) : Ensured v v'' q b' := by
  refine ⟨h'.mapped, h.grows.trans h'.grows, h'.block, h'.full, fun hfull => ?_,
    fun r hr hne => ?_⟩
  · have hsame := h.same hfull
    rw [h'.same (hsame ▸ hfull), hsame]
  · rw [h'.other r (h.grows.layout ▸ hr) hne, h.other r hr (hino ▸ hne)]

theorem BlockPos.Valid.of_append {ino slot : Nat} {path up : List Nat}
    (h : (⟨ino, slot, path ++ up⟩ : BlockPos).Valid g) : (⟨ino, slot, up⟩ : BlockPos).Valid g := by
  refine ⟨h.ino, h.slot, ?_, fun i hi => h.index i (List.mem_append_right _ hi)⟩
  have hdepth : (path ++ up).length ≤ slotDepth slot := h.depth
  rw [List.length_append] at hdepth
  exact Nat.le_trans (Nat.le_add_left ..) hdepth

theorem ensurePath_spec {path : List Nat} (hm : Mapped v)
    (hp : (⟨p.ino, p.slot, path.reverse ++ p.up⟩ : BlockPos).Valid v.toTrashfsLayout)
    (hr : Reached v p) :
    Ensured v (v.ensurePath (v.pointerAt p) path).2 ⟨p.ino, p.slot, path.reverse ++ p.up⟩
      (v.ensurePath (v.pointerAt p) path).1 := by
  induction path generalizing v p with
  | nil => exact ensureSlot_spec hm hp hr
  | cons i path ih =>
    have hslot := ensureSlot_spec hm hp.of_append hr
    unfold TrashfsVolume.ensurePath
    generalize v.ensureSlot (v.pointerAt p) = res at hslot ⊢
    obtain ⟨b, v₁⟩ := res
    dsimp only at hslot ⊢
    by_cases hb : b = trashfsBlockNone
    · rw [if_pos hb]
      exact { hslot with block := fun h => absurd rfl h, full := fun _ => hslot.full hb }
    · rw [if_neg hb]
      have hblock := hslot.block hb
      have haddr : blockPtr b + i * 4 = v₁.pointerAt (p.child i) := by
        rw [pointerAt_child, hblock]
      have hpos : (⟨p.ino, p.slot, (i :: path).reverse ++ p.up⟩ : BlockPos) =
          ⟨(p.child i).ino, (p.child i).slot, path.reverse ++ (p.child i).up⟩ := by
        rw [List.reverse_cons, List.append_assoc]
        rfl
      rw [hpos] at hp ⊢
      rw [haddr]
      rw [← hslot.grows.layout] at hp
      exact hslot.trans (ih hslot.mapped hp (reached_child (hblock.symm ▸ hb))) rfl

theorem bmapAlloc_eq {ino lbn : Nat} (hp : leafPos ino lbn = some p) : ∃ slot path,
    p = ⟨ino, slot, path.reverse ++ []⟩ ∧
      v.bmapAlloc (v.inodePtr ino) lbn = v.ensurePath (v.pointerAt ⟨ino, slot, []⟩) path := by
  obtain ⟨⟨slot, path⟩, hpath, rfl⟩ := Option.map_eq_some_iff.mp hp
  refine ⟨slot, path, by rw [List.append_nil], ?_⟩
  unfold TrashfsVolume.bmapAlloc
  rw [hpath]
  rfl

theorem bmapAlloc_spec {ino lbn : Nat} (hm : Mapped v) (hi : ino < v.inodeCount)
    (hp : leafPos ino lbn = some p) :
    Ensured v (v.bmapAlloc (v.inodePtr ino) lbn).2 p (v.bmapAlloc (v.inodePtr ino) lbn).1 := by
  obtain ⟨-, hvalid, -⟩ := leafPos_valid hi hp
  obtain ⟨slot, path, rfl, heq⟩ := bmapAlloc_eq (v := v) hp
  rw [heq]
  exact ensurePath_spec (p := ⟨ino, slot, []⟩) hm hvalid (reached_root v ino slot)

/-! ## No other pointer moves -/

/-- The block of the leaf `p` is `b`, and every other leaf has the block that it had. -/
structure Placed (v v' : TrashfsVolume) (p : BlockPos) (b : Nat) : Prop where
  tree : PointerTree v'
  layout : v'.toTrashfsLayout = v.toTrashfsLayout
  block : b ≠ 0 → v'.blockAt p = b
  others : ∀ q, q.Valid v.toTrashfsLayout → q.Leaf → q ≠ p → v'.blockAt q = v.blockAt q

theorem ensureSlot_placed (hm : PointerTree v) (hp : p.Valid v.toTrashfsLayout)
    (hr : Reached v p) :
    Placed v (v.ensureSlot (v.pointerAt p)).2 p (v.ensureSlot (v.pointerAt p)).1 := by
  rcases ensureSlot_cases hm hp hr with ⟨heq, -⟩ | ⟨b, v', heq, -, -, hl⟩
  · rw [heq]
    exact ⟨hm, rfl, fun _ => rfl, fun _ _ _ _ => rfl⟩
  · rw [heq]
    exact ⟨hl.tree hm, hl.layout, fun _ => (hl.blocks p hp).trans (if_pos rfl),
      fun q hq _ hne => (hl.blocks q hq).trans (if_neg hne)⟩

theorem ensurePath_placed {path : List Nat} (hm : PointerTree v)
    (hp : (⟨p.ino, p.slot, path.reverse ++ p.up⟩ : BlockPos).Valid v.toTrashfsLayout)
    (hr : Reached v p) :
    Placed v (v.ensurePath (v.pointerAt p) path).2 ⟨p.ino, p.slot, path.reverse ++ p.up⟩
      (v.ensurePath (v.pointerAt p) path).1 := by
  induction path generalizing v p with
  | nil => exact ensureSlot_placed hm hp hr
  | cons i path ih =>
    have hslot := ensureSlot_placed hm hp.of_append hr
    unfold TrashfsVolume.ensurePath
    generalize v.ensureSlot (v.pointerAt p) = res at hslot ⊢
    obtain ⟨b, v₁⟩ := res
    have hpos : (⟨p.ino, p.slot, (i :: path).reverse ++ p.up⟩ : BlockPos) =
        ⟨(p.child i).ino, (p.child i).slot, path.reverse ++ (p.child i).up⟩ := by
      rw [List.reverse_cons, List.append_assoc]
      rfl
    rw [hpos] at hp ⊢
    -- the pointer block is above a leaf, so it is none
    have hbelow : ∀ q, q.Valid v.toTrashfsLayout → q.Leaf → q ≠ p := by
      rintro q - hleaf rfl
      have hchild : (q.child i).Valid v.toTrashfsLayout := hp.of_append
      exact absurd hleaf (Nat.ne_of_lt hchild.parent.2.2)
    dsimp only at hslot ⊢
    by_cases hb : b = trashfsBlockNone
    · rw [if_pos hb]
      exact ⟨hslot.tree, hslot.layout, fun h => absurd rfl h,
        fun q hq hleaf _ => hslot.others q hq hleaf (hbelow q hq hleaf)⟩
    · rw [if_neg hb]
      have hblock := hslot.block hb
      have haddr : blockPtr b + i * 4 = v₁.pointerAt (p.child i) := by
        rw [pointerAt_child, hblock]
      rw [haddr]
      rw [← hslot.layout] at hp
      obtain ⟨htree, hlayout, hnew, hothers⟩ :=
        ih hslot.tree hp (reached_child (hblock.symm ▸ hb))
      refine ⟨htree, hlayout.trans hslot.layout, hnew, fun q hq hleaf hne => ?_⟩
      exact (hothers q (hslot.layout ▸ hq) hleaf hne).trans
        (hslot.others q hq hleaf (hbelow q hq hleaf))

theorem bmapAlloc_placed {ino lbn : Nat} (hm : PointerTree v) (hi : ino < v.inodeCount)
    (hp : leafPos ino lbn = some p) :
    Placed v (v.bmapAlloc (v.inodePtr ino) lbn).2 p (v.bmapAlloc (v.inodePtr ino) lbn).1 := by
  obtain ⟨-, hvalid, -⟩ := leafPos_valid hi hp
  obtain ⟨slot, path, rfl, heq⟩ := bmapAlloc_eq (v := v) hp
  rw [heq]
  exact ensurePath_placed (p := ⟨ino, slot, []⟩) hm hvalid (reached_root v ino slot)

theorem bmapAlloc_none {ino lbn : Nat} (hp : leafPos ino lbn = none) :
    v.bmapAlloc (v.inodePtr ino) lbn = (0, v) := by
  unfold TrashfsVolume.bmapAlloc
  rw [leafPos_none.mp hp]
  rfl

end Microgarbage.Storage
