import Mathlib.Data.List.Find
import Microgarbage.Storage.Sparse

/-!
# The entries of a directory

A directory is a file: its slots are at fixed offsets, and an entry is read off the bytes of the
file. Here the scans of `trashfs.c` over addresses become scans over these bytes.
-/

namespace Microgarbage.Storage

open Lib

variable {v v' v'' : TrashfsVolume} {d off : Nat}

/-! ## Slots -/

/-- The offsets where an entry may stand. -/
def SlotAt (off : Nat) : Prop := off % 128 = 0 ∨ off % 128 = 48

/-- What directories grow to. -/
def DirSized (n : Nat) : Prop := n % 128 = 0 ∨ n % 128 = 48 ∨ n % 128 = 96

theorem direntAlign_eq (off : Nat) :
    direntAlign off = if 80 < off % 128 then off + (128 - off % 128) else off := by
  unfold direntAlign trashfsBlockSize trashfsDirentSize
  dsimp only
  by_cases h : 80 < off % 128
  · rw [if_pos h, if_pos (by omega)]
  · rw [if_neg h, if_neg (by omega)]

theorem direntAlign_slot {n : Nat} (h : DirSized n) :
    SlotAt (direntAlign n) ∧ n ≤ direntAlign n ∧ ∀ off, SlotAt off → n ≤ off →
      direntAlign n ≤ off := by
  rw [direntAlign_eq]
  unfold SlotAt DirSized at *
  split
  · refine ⟨by omega, by omega, fun off hoff hle => by omega⟩
  · refine ⟨by omega, by omega, fun off hoff hle => by omega⟩

theorem mem_direntOffsets {n fuel o : Nat} (ho : DirSized o) (hfuel : n ≤ o + fuel) :
    off ∈ direntOffsets n fuel o ↔ SlotAt off ∧ o ≤ off ∧ off + 48 ≤ n := by
  have hsize : trashfsDirentSize = 48 := rfl
  induction fuel generalizing o with
  | zero =>
    unfold direntOffsets
    simp only [List.not_mem_nil, false_iff]
    omega
  | succ fuel ih =>
    obtain ⟨hslot, hle, hleast⟩ := direntAlign_slot ho
    unfold direntOffsets
    rw [hsize]
    by_cases hend : o + 48 ≤ n
    · rw [if_pos hend]
      dsimp only
      by_cases hlast : n < direntAlign o + 48
      · rw [if_pos hlast]
        simp only [List.not_mem_nil, false_iff]
        rintro ⟨hs, hge, hlt⟩
        have := hleast off hs hge
        omega
      · have hnext : DirSized (direntAlign o + 48) := by
          unfold SlotAt at hslot
          unfold DirSized
          omega
        have hrest := ih hnext (by omega)
        rw [if_neg hlast, List.mem_cons]
        refine (or_congr_right hrest).trans ?_
        constructor
        · rintro (rfl | ⟨hs, hge, hlt⟩)
          · exact ⟨hslot, hle, by omega⟩
          · exact ⟨hs, by omega, hlt⟩
        · rintro ⟨hs, hge, hlt⟩
          have hmin := hleast off hs hge
          unfold SlotAt at hs hslot
          by_cases heq : off = direntAlign o
          · exact .inl heq
          · exact .inr ⟨hs, by omega, hlt⟩
    · rw [if_neg hend]
      simp only [List.not_mem_nil, false_iff]
      omega

/-- The slots of a directory. -/
def dirSlots (v : TrashfsVolume) (d : Nat) : List Nat := direntOffsets (v.dirSize d) (v.dirSize d) 0

theorem mem_dirSlots : off ∈ dirSlots v d ↔ SlotAt off ∧ off + 48 ≤ v.dirSize d := by
  have h0 : DirSized 0 := .inl rfl
  have hmem : off ∈ direntOffsets (v.dirSize d) (v.dirSize d) 0 ↔
      SlotAt off ∧ 0 ≤ off ∧ off + 48 ≤ v.dirSize d := mem_direntOffsets h0 (by omega)
  unfold dirSlots
  rw [hmem]
  simp

/-! ## Entries -/

theorem direntPtr_cases (v : TrashfsVolume) (d : Nat) (hs : SlotAt off) :
    (∃ p, leafPos d (off / 128) = some p ∧ v.blockAt p ≠ 0 ∧
      v.direntPtr d off = some (blockPtr (v.blockAt p) + off % 128) ∧
        ∀ k < 48, v.region (blockPtr (v.blockAt p) + off % 128 + k) = fileByte v d (off + k)) ∨
      v.direntPtr d off = none ∧ ∀ k < 48, fileByte v d (off + k) = 0 := by
  have hblock (k : Nat) (hk : k < 48) : (off + k) / 128 = off / 128 ∧
      (off + k) % 128 = off % 128 + k := by
    unfold SlotAt at hs
    omega
  have hnone : trashfsBlockNone = 0 := rfl
  have hsize : trashfsBlockSize = 128 := rfl
  unfold TrashfsVolume.direntPtr
  rw [hsize, hnone, mapLbn_eq]
  dsimp only
  cases hp : leafPos d (off / 128) with
  | none =>
    refine .inr ⟨rfl, fun k hk => ?_⟩
    unfold fileByte
    rw [(hblock k hk).1, hp]
  | some p =>
    dsimp only
    by_cases hz : v.blockAt p = 0
    · refine .inr ⟨if_pos hz, fun k hk => ?_⟩
      unfold fileByte
      rw [(hblock k hk).1, hp]
      exact if_pos hz
    · refine .inl ⟨p, rfl, hz, if_neg hz, fun k hk => ?_⟩
      unfold fileByte
      rw [(hblock k hk).1, hp, (hblock k hk).2]
      dsimp only
      rw [leafByte_some hz, Nat.add_assoc]

open TrashfsVolume (direntInode direntNamed)

theorem direntInode_word {m m' : Mem} {a b : Nat} (h : ∀ k < 4, m' (b + k) = m (a + k)) :
    direntInode m' b = direntInode m a := by
  unfold direntInode rd32 Mem.load32
  rw [h 3 (by omega), h 2 (by omega), h 1 (by omega), show m' b = m a from h 0 (by omega)]

theorem direntInode_congr {m m' : Mem} {a b : Nat} (h : ∀ k < 48, m' (b + k) = m (a + k)) :
    direntInode m' b = direntInode m a :=
  direntInode_word fun k hk => h k (by omega)

theorem direntInode_zero {m : Mem} {a : Nat} (h : ∀ k < 48, m (a + k) = 0) : direntInode m a = 0 :=
  congrArg BitVec.toNat (rd32_zero fun i hi => h i (by omega))

variable {name : List Byte}

theorem direntNamed_congr {m m' : Mem} {a b : Nat} (hname : name.length ≤ 32)
    (h : ∀ k < 48, m' (b + k) = m (a + k)) : direntNamed m' b name = direntNamed m a name := by
  have hbytes : m'.bytes (b + 6) name.length = m.bytes (a + 6) name.length := by
    unfold Mem.bytes
    refine List.map_congr_left fun i hi => ?_
    rw [List.mem_range] at hi
    rw [Nat.add_assoc, Nat.add_assoc]
    exact h (6 + i) (by omega)
  unfold direntNamed
  rw [direntInode_congr h, h 5 (by omega), hbytes]

/-- An entry at an address, or none in a hole, is the entry at the offset. -/
theorem direntPtr_named (hs : SlotAt off) (hname : name.length ≤ 32) :
    ((v.direntPtr d off).any fun e => direntNamed v.region e name) =
      direntNamed (fileByte v d) off name := by
  rcases direntPtr_cases v d hs with ⟨p, -, -, hptr, hbytes⟩ | ⟨hptr, hzero⟩
  · rw [hptr, Option.any_some]
    exact direntNamed_congr hname hbytes
  · rw [hptr, Option.any_none]
    unfold direntNamed
    rw [direntInode_zero hzero]
    rfl

/-- The scan for a name, over the slots of the directory. -/
def slotNamed (v : TrashfsVolume) (d : Nat) (name : List Byte) : Option Nat :=
  (dirSlots v d).find? fun off => direntNamed (fileByte v d) off name

theorem slotNamed_some (h : slotNamed v d name = some off) :
    SlotAt off ∧ off + 48 ≤ v.dirSize d ∧ direntNamed (fileByte v d) off name = true := by
  obtain ⟨hs, hle⟩ := mem_dirSlots.mp (List.mem_of_find?_eq_some h)
  have hfound := List.find?_some (p := fun off => direntNamed (fileByte v d) off name) h
  exact ⟨hs, hle, hfound⟩

theorem slotNamed_none (h : slotNamed v d name = none) (hs : SlotAt off)
    (hle : off + 48 ≤ v.dirSize d) : direntNamed (fileByte v d) off name = false := by
  have hnot := List.find?_eq_none.mp h off (mem_dirSlots.mpr ⟨hs, hle⟩)
  simpa using hnot

theorem find_direntPtrs (hname : name.length ≤ 32) :
    ((v.direntPtrs d).find? fun e => direntNamed v.region e name) =
      (slotNamed v d name).bind (v.direntPtr d) := by
  unfold TrashfsVolume.direntPtrs
  rw [List.find?_filterMap]
  have hsame : (dirSlots v d).find? (fun off => (v.direntPtr d off).any fun e =>
      direntNamed v.region e name) = slotNamed v d name := by
    exact List.find?_congr fun off hoff => direntPtr_named (mem_dirSlots.mp hoff).1 hname
  exact congrArg (fun o => Option.bind o (v.direntPtr d)) hsame

theorem dirFindIn_eq (hname : name.length ≤ 32) :
    v.dirFindIn d name = (slotNamed v d name).map fun off =>
      (direntInode (fileByte v d) off, fileByte v d (off + 4)) := by
  unfold TrashfsVolume.dirFindIn
  rw [find_direntPtrs hname]
  cases h : slotNamed v d name with
  | none => rfl
  | some off =>
    obtain ⟨hs, -, hnamed⟩ := slotNamed_some h
    rcases direntPtr_cases v d hs with ⟨p, -, -, hptr, hbytes⟩ | ⟨-, hzero⟩
    · rw [Option.bind_some, hptr, Option.map_some, Option.map_some, direntInode_congr hbytes,
        hbytes 4 (by omega)]
    · unfold direntNamed at hnamed
      rw [direntInode_zero hzero] at hnamed
      cases hnamed

theorem dirIsEmpty_iff : v.dirIsEmpty d = true ↔
    ∀ off, SlotAt off → off + 48 ≤ v.dirSize d → direntInode (fileByte v d) off = 0 := by
  unfold TrashfsVolume.dirIsEmpty TrashfsVolume.direntPtrs
  rw [List.all_eq_true]
  constructor
  · intro h off hs hle
    rcases direntPtr_cases v d hs with ⟨p, -, -, hptr, hbytes⟩ | ⟨-, hzero⟩
    · have hmem : blockPtr (v.blockAt p) + off % 128 ∈
          (dirSlots v d).filterMap (v.direntPtr d) :=
        List.mem_filterMap.mpr ⟨off, mem_dirSlots.mpr ⟨hs, hle⟩, hptr⟩
      rw [← direntInode_congr hbytes]
      exact beq_iff_eq.mp (h _ hmem)
    · exact direntInode_zero hzero
  · intro h e hmem
    obtain ⟨off, hoff, hptr⟩ := List.mem_filterMap.mp hmem
    obtain ⟨hs, hle⟩ := mem_dirSlots.mp hoff
    rcases direntPtr_cases v d hs with ⟨p, -, -, hptr', hbytes⟩ | ⟨hnone, -⟩
    · rw [hptr', Option.some.injEq] at hptr
      subst hptr
      rw [beq_iff_eq, direntInode_congr hbytes]
      exact h off hs hle
    · rw [hnone] at hptr
      cases hptr

theorem slot_wrote {f : Nat → Byte} {p : BlockPos} (hm : Mapped v) (hi : d < v.inodeCount)
    (hs : SlotAt off) (hp : leafPos d (off / 128) = some p) (hb : v.blockAt p ≠ 0)
    (h : Poked v v' (blockPtr (v.blockAt p) + off % 128) 48)
    (hf : ∀ k < 48, v'.region (blockPtr (v.blockAt p) + off % 128 + k) = f k) :
    Wrote v v' d off 48 f := by
  have hn : off % 128 + 48 ≤ 128 := by
    unfold SlotAt at hs
    omega
  have hwrote := h.wrote hm hi hp hb hn hf
  have hoff : off / 128 * 128 + off % 128 = off := by omega
  rw [hoff] at hwrote
  exact hwrote

theorem dirClearEntryIn_spec (hm : Mapped v) (hi : d < v.inodeCount) (hname : name.length ≤ 32) :
    (slotNamed v d name = none ∧ v.dirClearEntryIn d name = none) ∨
      ∃ off v', slotNamed v d name = some off ∧ v.dirClearEntryIn d name = some v' ∧
        Wrote v v' d off 48 fun _ => 0 := by
  unfold TrashfsVolume.dirClearEntryIn
  rw [find_direntPtrs hname]
  cases h : slotNamed v d name with
  | none => exact .inl ⟨rfl, rfl⟩
  | some off =>
    obtain ⟨hs, -, hnamed⟩ := slotNamed_some h
    rcases direntPtr_cases v d hs with ⟨p, hp, hb, hptr, -⟩ | ⟨-, hzero⟩
    · rw [Option.bind_some, hptr]
      refine .inr ⟨off, _, rfl, rfl, slot_wrote hm hi hs hp hb ?_ fun k hk => ?_⟩
      · exact ⟨rfl, rfl, rfl, fun x hx => memset0_out hx⟩
      · exact memset0_in (Nat.le_add_right ..) (Nat.add_lt_add_left hk _)
    · unfold direntNamed at hnamed
      rw [direntInode_zero hzero] at hnamed
      cases hnamed

/-! ## New entries -/

/-- A slot for a new entry: a free one, or one more at the end of the directory. -/
structure SlotFor (v v' : TrashfsVolume) (d off e : Nat) : Prop where
  layout : v'.toTrashfsLayout = v.toTrashfsLayout
  freeInodes : v'.freeInodes = v.freeInodes
  mapped : Mapped v'
  slot : SlotAt off
  place : ∃ p, leafPos d (off / 128) = some p ∧ v'.blockAt p ≠ 0 ∧
    e = blockPtr (v'.blockAt p) + off % 128
  mode : inodeMode v' d = inodeMode v d
  bytes : ∀ x, fileByte v' d x = fileByte v d x
  files : ∀ i < v.inodeCount, i ≠ d → SameFile v v' i
  other : ∀ q, q.Valid v.toTrashfsLayout → q.ino ≠ d → v'.blockAt q = v.blockAt q
  grown : (off + 48 ≤ v.dirSize d ∧ v'.dirSize d = v.dirSize d ∧
      direntInode (fileByte v d) off = 0) ∨
    (off = direntAlign (v.dirSize d) ∧ v'.dirSize d = off + 48)

/-- `dir_alloc_dirent_in` finds a slot, or no block is left and no file changes. -/
theorem dirAllocDirentIn_spec (hm : Mapped v) (hi : d < v.inodeCount)
    (hsize : DirSized (v.dirSize d)) :
    (∃ v', v.dirAllocDirentIn d = (none, v') ∧ Grows v v' ∧ Mapped v' ∧ (Full v → v' = v) ∧
      (∀ q, q.Valid v.toTrashfsLayout → q.ino ≠ d → v'.blockAt q = v.blockAt q) ∧
      (∀ off, SlotAt off → off + 48 ≤ v.dirSize d → v.direntPtr d off ≠ none →
        direntInode (fileByte v d) off ≠ 0) ∧
      (leafPos d (direntAlign (v.dirSize d) / 128) ≠ none ∧ Full v' ∨
        leafPos d (direntAlign (v.dirSize d) / 128) = none ∧ v' = v)) ∨
    ∃ off e v', v.dirAllocDirentIn d = (some e, v') ∧ SlotFor v v' d off e := by
  unfold TrashfsVolume.dirAllocDirentIn TrashfsVolume.direntPtrs
  rw [List.find?_filterMap]
  cases hfind : (direntOffsets (v.dirSize d) (v.dirSize d) 0).find? fun off =>
      (v.direntPtr d off).any fun e => direntInode v.region e == 0 with
  | some off =>
    obtain ⟨hs, hle⟩ := mem_dirSlots.mp (List.mem_of_find?_eq_some hfind)
    have hfree := List.find?_some (p := fun off => (v.direntPtr d off).any fun e =>
      direntInode v.region e == 0) hfind
    rcases direntPtr_cases v d hs with ⟨p, hp, hb, hptr, hbytes⟩ | ⟨hnone, -⟩
    · rw [Option.bind_some, hptr]
      rw [hptr, Option.any_some, beq_iff_eq, direntInode_congr hbytes] at hfree
      exact .inr ⟨off, _, v, rfl, rfl, rfl, hm, hs, ⟨p, hp, hb, rfl⟩, rfl, fun _ => rfl,
        fun i _ _ => .refl v i, fun _ _ _ => rfl, .inl ⟨hle, rfl, hfree⟩⟩
    · rw [hnone] at hfree
      cases hfree
  | none =>
    have hfull : ∀ off, SlotAt off → off + 48 ≤ v.dirSize d → v.direntPtr d off ≠ none →
        direntInode (fileByte v d) off ≠ 0 := by
      intro off hs hle hptr hzero
      have hnot := List.find?_eq_none.mp hfind off (mem_dirSlots.mpr ⟨hs, hle⟩)
      rcases direntPtr_cases v d hs with ⟨p, hp, hb, hptr', hbytes⟩ | ⟨hnone, -⟩
      · rw [hptr', Option.any_some, direntInode_congr hbytes, hzero] at hnot
        exact hnot rfl
      · exact hptr hnone
    obtain ⟨hslot, -, -⟩ := direntAlign_slot hsize
    obtain ⟨off, hoff⟩ : ∃ off, direntAlign (v.dirSize d) = off := ⟨_, rfl⟩
    rw [Option.bind_none, hoff]
    rw [hoff] at hslot
    have hblock : trashfsBlockSize = 128 := rfl
    have hdirent : trashfsDirentSize = 48 := rfl
    dsimp only
    rw [hblock, hdirent]
    cases hp : leafPos d (off / 128) with
    | none =>
      rw [bmapAlloc_none hp]
      exact .inl ⟨v, rfl, .refl v, hm, fun _ => rfl, fun _ _ _ => rfl, hfull, .inr ⟨rfl, rfl⟩⟩
    | some p =>
      have he := bmapAlloc_spec hm hi hp
      obtain ⟨hino, hvalid, -⟩ := leafPos_valid hi hp
      generalize v.bmapAlloc (v.inodePtr d) (off / 128) = res at he ⊢
      obtain ⟨b, v₁⟩ := res
      have hother := he.other
      rw [hino] at hother
      dsimp only at he hother ⊢
      by_cases hb : b = trashfsBlockNone
      · rw [if_pos hb]
        exact .inl ⟨v₁, rfl, he.grows, he.mapped, he.same, hother, hfull,
          .inl ⟨nofun, he.full hb⟩⟩
      · rw [if_neg hb]
        have hl₁ := he.grows.layout
        have hi₁ : d < v₁.inodeCount := hl₁ ▸ hi
        obtain ⟨m, hmem⟩ : ∃ m, wr32 v₁.region (v.inodePtr d + 4) (BitVec.ofNat 32 (off + 48)) =
          m := ⟨_, rfl⟩
        rw [hmem]
        obtain ⟨v', hv'⟩ : ∃ v' : TrashfsVolume, { v₁ with region := m } = v' := ⟨_, rfl⟩
        rw [hv']
        have hregion : v'.region = wr32 v₁.region (v.inodePtr d + 4) (BitVec.ofNat 32 (off + 48)) := by
          rw [hmem, ← hv']
        have hpoked : Poked v₁ v' (v₁.inodePtr d + 4) 4 := by
          refine ⟨by rw [← hv'], by rw [← hv'], by rw [← hv'], fun x hx => ?_⟩
          rw [hl₁] at hx
          rw [hregion, wr32_out hx]
        have hl : v'.toTrashfsLayout = v.toTrashfsLayout := hpoked.layout.trans hl₁
        obtain ⟨hmapped, hblocks⟩ := fields_mapped he.mapped hi₁ hpoked (by omega)
        have hpl : p.Valid v₁.toTrashfsLayout := hl₁ ▸ hvalid
        have hat : v'.blockAt p = b := (hblocks p hpl).trans (he.block hb)
        refine .inr ⟨off, _, v', rfl, hl, hpoked.freeInodes.trans he.grows.freeInodes, hmapped, hslot,
          ⟨p, hp, hat.symm ▸ hb, by rw [hat]⟩, ?_, fun x => ?_, fun i hi' hne => ?_,
          fun q hq hne => ?_, .inr ⟨hoff.symm, ?_⟩⟩
        · rw [← (he.grows.file hi).mode]
          unfold inodeMode
          rw [hl, hl₁]
          refine rd16_congr fun k hk => hpoked.frame _ ?_
          rw [hl₁]
          omega
        · rw [fields_bytes he.mapped hi₁ hpoked (by omega) hi₁, (he.grows.file hi).bytes]
        · exact (he.grows.file hi').trans
            (fields_file he.mapped hi₁ hpoked (by omega) (hl₁ ▸ hi') hne)
        · rw [hblocks q (hl₁ ▸ hq), hother q hq hne]
        · have hlbn := leafPos_some_iff.mp ⟨p, hp⟩
          unfold TrashfsVolume.dirSize
          rw [hl, hregion, rd32_wr32, BitVec.toNat_ofNat]
          exact Nat.mod_eq_of_lt (by omega)

theorem copy_singleton (m : Mem) (a : Nat) (b : Byte) : Mem.copy m a [b] a = b := by
  unfold Mem.copy
  rw [Mem.overlay_in (Nat.le_refl a) (Nat.lt_succ_self a), Nat.sub_self]
  rfl

theorem fillDirent_spec (type : Byte) {e ino : Nat} {p : BlockPos} (hm : Mapped v)
    (hi : d < v.inodeCount) (hs : SlotAt off) (hp : leafPos d (off / 128) = some p)
    (hb : v.blockAt p ≠ 0) (he : e = blockPtr (v.blockAt p) + off % 128) (hname : name.length ≤ 32)
    (hino : ino < 2 ^ 32) :
    ∃ f, Wrote v (v.fillDirent e ino type name) d off 48 f ∧ direntInode f 0 = ino ∧ f 4 = type ∧
      (f 5).toNat = name.length ∧ Mem.bytes f 6 name.length = name := by
  obtain ⟨v', hv'⟩ : ∃ v', v.fillDirent e ino type name = v' := ⟨_, rfl⟩
  rw [hv']
  obtain ⟨m₁, hm₁⟩ : ∃ m, wr32 v.region e (BitVec.ofNat 32 ino) = m := ⟨_, rfl⟩
  obtain ⟨m₂, hm₂⟩ : ∃ m, Mem.copy m₁ (e + 4) [type] = m := ⟨_, rfl⟩
  obtain ⟨m₃, hm₃⟩ : ∃ m, Mem.copy m₂ (e + 5) [BitVec.ofNat 8 name.length] = m := ⟨_, rfl⟩
  obtain ⟨m₄, hm₄⟩ : ∃ m, Mem.copy m₃ (e + 6) name = m := ⟨_, rfl⟩
  have hregion : v'.region = memset0 m₄ (e + 6 + name.length) (48 - 6 - name.length) := by
    rw [← hv', ← hm₄, ← hm₃, ← hm₂, ← hm₁]
    rfl
  have hlast : ∀ x, (x < e + 6 + name.length ∨ e + 48 ≤ x) → v'.region x = m₄ x := by
    intro x hx
    rw [hregion, memset0_out (by omega)]
  have hfourth : ∀ x, (x < e + 6 ∨ e + 6 + name.length ≤ x) → m₄ x = m₃ x := by
    intro x hx
    rw [← hm₄, Mem.copy_out hx]
  have hpoked : Poked v v' (blockPtr (v.blockAt p) + off % 128) 48 := by
    refine ⟨by rw [← hv']; rfl, by rw [← hv']; rfl, by rw [← hv']; rfl, fun x hx => ?_⟩
    rw [← he] at hx
    have hx₂ : x < e + 4 ∨ e + 4 + [type].length ≤ x := by
      rw [List.length_singleton]
      omega
    have hx₃ : x < e + 5 ∨ e + 5 + [BitVec.ofNat 8 name.length].length ≤ x := by
      rw [List.length_singleton]
      omega
    rw [hlast x (by omega), hfourth x (by omega), ← hm₃, Mem.copy_out hx₃, ← hm₂,
      Mem.copy_out hx₂, ← hm₁, wr32_out (by omega)]
  refine ⟨fun k => v'.region (e + k), slot_wrote hm hi hs hp hb hpoked fun k _ => by rw [he], ?_, ?_,
    ?_, ?_⟩
  · have hword : direntInode (fun k => v'.region (e + k)) 0 = direntInode m₁ e := by
      refine direntInode_word fun k hk => ?_
      have hx₂ : e + k < e + 4 := by omega
      rw [Nat.zero_add, hlast _ (by omega), hfourth _ (by omega), ← hm₃, Mem.copy_out (by omega),
        ← hm₂, Mem.copy_out (.inl hx₂)]
    rw [hword, ← hm₁]
    unfold direntInode
    rw [rd32_wr32, BitVec.toNat_ofNat]
    exact Nat.mod_eq_of_lt hino
  · dsimp only
    rw [hlast _ (by omega), hfourth _ (by omega), ← hm₃,
      Mem.copy_out (.inl (Nat.lt_succ_self (e + 4))), ← hm₂, copy_singleton]
  · dsimp only
    rw [hlast _ (by omega), hfourth _ (by omega), ← hm₃, copy_singleton, BitVec.toNat_ofNat]
    exact Nat.mod_eq_of_lt (by omega)
  · have hsame : Mem.bytes (fun k => v'.region (e + k)) 6 name.length =
        m₄.bytes (e + 6) name.length := by
      unfold Mem.bytes
      refine List.map_congr_left fun k hk => ?_
      rw [List.mem_range] at hk
      dsimp only
      rw [← Nat.add_assoc]
      exact hlast _ (.inl (by omega))
    rw [hsame, ← hm₄]
    exact Mem.bytes_copy m₃ (e + 6) name

end Microgarbage.Storage
