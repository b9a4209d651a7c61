import Microgarbage.Storage.Cases

/-!
# A formatted volume is sound

After `trashfs_format` and `trashfs_mount` the root directory is the only inode in use and names the
only allocated block. With the one inode hint whose rounding wraps there is no inode at all, and no
call ever changes such a volume.
-/

namespace Microgarbage.Storage

open Lib
open TrashfsVolume (direntInode direntNamed)

section Formatted

variable {m : Mem} {n : BitVec 32} {g : TrashfsGeom} {v : TrashfsVolume}

/-- The pointers of the inodes are zero, but for the first of the root. -/
theorem Fresh.blockAt (h : Fresh m n g v) (hg : Fits g) (hb : Blank m n g)
    (hn : g.totalBlocks.toNat * 128 ≤ n.toNat) {p : BlockPos} (hp : p.Valid v.toTrashfsLayout) :
    v.blockAt p = if p = ⟨0, 16, []⟩ then v.dataStart else 0 := by
  have hd := hg.dataStart
  have hlt := hg.data
  have hcount := hg.inodeCount
  have hic := h.inodeCount
  induction p using BlockPos.rec_child with
  | root ino slot =>
    have hino := hp.ino
    have hslot := hp.slot
    dsimp only at hino hslot
    have hptr := h.ordered.inodePtr_eq hino
    rw [blockAt_root]
    unfold TrashfsVolume.slotPtr
    rw [hptr, h.region, h.inodeStart]
    by_cases hfirst : (⟨ino, slot, []⟩ : BlockPos) = ⟨0, 16, []⟩
    · obtain ⟨rfl, rfl⟩ : ino = 0 ∧ slot = 16 := by simpa using hfirst
      have hroot := hb.rootBlock
      rw [blockPtr_eq] at hroot
      rw [if_pos rfl, Nat.zero_mul, Nat.add_zero, hroot, h.dataStart]
    · have hout : ¬(ino = 0 ∧ slot = 16) := fun hand => hfirst (by rw [hand.1, hand.2])
      have hzero : rd32 m (g.inodeStart.toNat * 128 + ino * 64 + slot) = 0 := by
        refine rd32_zero fun k hk => hb.zero _ ?_ (by omega)
        rw [blockPtr_eq]
        omega
      rw [if_neg hfirst, hzero]
      rfl
  | child p i ih =>
    obtain ⟨hparent, hi, hlen⟩ := hp.parent
    have hne : p.child i ≠ ⟨0, 16, []⟩ := by
      intro heq
      have hup := congrArg BlockPos.up heq
      cases hup
    have hat := ih hparent
    rw [if_neg hne]
    by_cases hfirst : p = ⟨0, 16, []⟩
    · -- the first slot of an inode has no level below
      rw [hfirst] at hlen
      exact absurd hlen (by decide)
    · rw [if_neg hfirst] at hat
      exact blockAt_child_none hat

theorem Fresh.mapped (h : Fresh m n g v) (hg : Fits g) (hb : Blank m n g)
    (hn : g.totalBlocks.toNat * 128 ≤ n.toNat) : Mapped v := by
  have hat := fun {p} hp => h.blockAt hg hb hn (p := p) hp
  have hpos : 0 < v.dataStart := by
    rw [h.ordered.dataStart, h.ordered.inodeStart]
    omega
  have hdata := h.ordered.data
  have hfirst : (⟨0, 16, []⟩ : BlockPos).Valid v.toTrashfsLayout := by
    refine ⟨?_, by decide, Nat.zero_le _, nofun⟩
    have hinodes := hg.inodes
    have hcount := hg.inodeCount
    rw [h.inodeCount]
    dsimp only
    omega
  refine ⟨h.ordered, fun p hp hne => ?_, fun p q hp hq hne heq => ?_, fun b hlo hhi => ?_,
    h.freeBlocks⟩
  · rw [hat hp] at hne ⊢
    split at hne
    · next hpf =>
      rw [if_pos hpf]
      exact ⟨Nat.le_refl _, hdata⟩
    · exact absurd rfl hne
  · rw [hat hp] at hne heq
    rw [hat hq] at heq
    split at hne
    · next hpf =>
      rw [if_pos hpf] at heq
      split at heq
      · next hqf => rw [hpf, hqf]
      · omega
    · exact absurd rfl hne
  · have hbit : v.bitmapTest b = decide (b ≤ v.dataStart) := by
      unfold TrashfsVolume.bitmapTest
      rw [h.region, h.ordered.bitmapStart, h.dataStart]
      exact hb.bits b (h.totalBlocks ▸ hhi)
    rw [hbit, decide_eq_true_iff]
    constructor
    · intro hle
      refine ⟨_, hfirst, ?_⟩
      rw [hat hfirst, if_pos rfl]
      omega
    · rintro ⟨p, hp, heq⟩
      rw [hat hp] at heq
      split at heq <;> omega

theorem Fresh.used_root (h : Fresh m n g v) (hg : Fits g) (hb : Blank m n g)
    (hn : g.totalBlocks.toNat * 128 ≤ n.toNat) {i : Nat} (hi : i < v.inodeCount)
    (hu : v.inodeUsed i = true) : i = 0 := by
  have hd := hg.dataStart
  have hlt := hg.data
  have hcount := hg.inodeCount
  have hic := h.inodeCount
  by_contra hne
  have hzero : rd16 v.region (v.inodePtr i) = 0 := by
    rw [h.ordered.inodePtr_eq hi, h.region, h.inodeStart]
    exact rd16_zero fun k hk => hb.zero _ (by rw [blockPtr_eq]; omega) (by omega)
  unfold TrashfsVolume.inodeUsed at hu
  rw [hzero] at hu
  cases hu

theorem Fresh.sound (h : Fresh m n g v) (hg : Fits g) (hb : Blank m n g)
    (hn : g.totalBlocks.toNat * 128 ≤ n.toNat) : Sound v := by
  have hcount := hg.inodeCount
  have hinodes := hg.inodes
  have hic := h.inodeCount
  have hpos : 0 < v.inodeCount := by omega
  have hused := fun i hi hu => h.used_root hg hb hn (i := i) hi hu
  have hroot : inodeMode v 0 = trashfsModeUsed ||| trashfsModeDir := by
    unfold inodeMode
    rw [h.ordered.inodePtr_eq hpos, h.region, h.inodeStart, Nat.zero_mul, Nat.add_zero]
    exact hb.rootMode
  have hsize : v.dirSize 0 = 0 := by
    unfold TrashfsVolume.dirSize
    rw [h.ordered.inodePtr_eq hpos, h.region, h.inodeStart, Nat.zero_mul, Nat.add_zero]
    exact congrArg BitVec.toNat hb.rootSize
  have hnone : ∀ d off, ¬Live v d off := by
    intro d off hl
    have hend := hl.size
    rw [hused d hl.lt hl.used, hsize] at hend
    omega
  refine ⟨h.mapped hg hb hn, h.freeInodes, fun i hi hu q hq hqi => ?_, ⟨hpos, ?_, ?_⟩,
    fun d hd' hu _ => ?_, fun d off hl => absurd hl (hnone d off),
    fun d off _ _ hl => absurd hl (hnone d off), fun i hi hu hne => absurd (hused i hi hu) hne,
    fun d off _ hl => absurd hl (hnone d off)⟩
  · rw [h.blockAt hg hb hn hq, if_neg]
    rintro rfl
    have hmode : v.inodeUsed 0 = (inodeMode v 0 &&& trashfsModeUsed != 0) := rfl
    rw [← hqi, hmode, hroot] at hu
    cases hu
  · exact (congrArg (fun w => w &&& trashfsModeUsed != 0) hroot).trans (by decide)
  · exact (congrArg (fun w => w &&& trashfsModeDir != 0) hroot).trans (by decide)
  · rw [hused d hd' hu, hsize]
    exact .inl rfl

end Formatted

/-- The volume `v` was formatted with an inode hint, then mounted. -/
structure FormattedFrom (m : Mem) (n hint now : BitVec 32) (v : TrashfsVolume) : Prop where
  format : (trashfsFormat m n hint now).1 = .ok
  mount : trashfsMount (trashfsFormat m n hint now).2 n = .ok v

section FormattedFrom

variable {m : Mem} {n hint now : BitVec 32} {v : TrashfsVolume}

theorem FormattedFrom.written (h : FormattedFrom m n hint now v) :
    trashfsMinBytes ≤ n.toNat ∧
      ∃ g, computeGeometry (n / BitVec.ofNat 32 trashfsBlockSize) hint = some g ∧
        trashfsMount (writeVolume m n g now) n = .ok v := by
  obtain ⟨hf, hm⟩ := h
  unfold trashfsFormat at hf hm
  split at hf
  · cases hf
  split at hf
  · cases hf
  next hmod hmin =>
  rw [if_neg hmod, if_neg hmin] at hm
  cases hgeom : computeGeometry (n / BitVec.ofNat 32 trashfsBlockSize) hint with
  | none =>
    rw [hgeom] at hf
    cases hf
  | some g =>
    rw [hgeom] at hm
    exact ⟨Nat.not_lt.mp hmin, g, rfl, hm⟩

theorem totalBlocks_toNat (n : BitVec 32) :
    (n / BitVec.ofNat 32 trashfsBlockSize).toNat = n.toNat / 128 := by
  have h128 : (BitVec.ofNat 32 trashfsBlockSize).toNat = 128 := rfl
  rw [BitVec.toNat_udiv, h128]

theorem FormattedFrom.fresh (h : FormattedFrom m n hint now v) (hhint : hint ≠ 0xFFFFFFFF) :
    ∃ m' g, Fits g ∧ Blank m' n g ∧ Fresh m' n g v ∧ g.totalBlocks.toNat * 128 ≤ n.toNat := by
  obtain ⟨-, g, hgeom, hv⟩ := h.written
  have hlt := n.isLt
  have htotal := totalBlocks_toNat n
  obtain ⟨hgt, hg⟩ := computeGeometry_fits (by omega) hhint hgeom
  have hn : g.totalBlocks.toNat * 128 ≤ n.toNat := by
    rw [hgt, htotal]
    omega
  have hb := writeVolume_blank (m := m) (n := n) hg hn now
  exact ⟨_, g, hg, hb, mount_fresh hg hb hgt hv, hn⟩

theorem FormattedFrom.sound (h : FormattedFrom m n hint now v) (hhint : hint ≠ 0xFFFFFFFF) :
    Sound v := by
  obtain ⟨m', g, hg, hb, hf, hn⟩ := h.fresh hhint
  exact hf.sound hg hb hn

/-! ## The hint that wraps -/

/-- No inode, and an empty root directory. -/
structure NoInodes (v : TrashfsVolume) : Prop where
  inodeCount : v.inodeCount = 0
  freeInodes : v.freeInodes = 0
  empty : v.dirSize trashfsRootInode = 0

theorem writeVolume_rootSize {g : TrashfsGeom} (h : 1 ≤ g.inodeStart.toNat) :
    rd32 (writeVolume m n g now) (blockPtr g.inodeStart.toNat + 4) = 0 := by
  unfold writeVolume
  dsimp only
  refine (rd32_congr fun k hk => writeSuperblock_out ?_).trans (writeRoot_fields ..).2.1
  rw [blockPtr_eq]
  omega

theorem computeGeometry_inodeStart {total : BitVec 32} {g : TrashfsGeom}
    (ht : total.toNat < 2 ^ 25) (h : computeGeometry total hint = some g) :
    g.inodeStart = 1 + g.bitmapBlocks ∧ g.bitmapBlocks.toNat < 2 ^ 25 := by
  have h8 : (8 : BitVec 32).toNat = 8 := rfl
  have h128 : (BitVec.ofNat 32 trashfsBlockSize).toNat = 128 := rfl
  have hone : (1 : BitVec 32).toNat = 1 := rfl
  have hbytes := ceilDiv_toNat (a := total) (b := 8) (by decide) (by omega)
  rw [h8] at hbytes
  have hblocks := ceilDiv_toNat (a := ceilDiv total 8) (b := BitVec.ofNat 32 trashfsBlockSize)
    (by decide) (by omega)
  rw [h128, hbytes] at hblocks
  unfold computeGeometry at h
  dsimp only at h
  generalize hbb : (if ceilDiv (ceilDiv total 8) (BitVec.ofNat 32 trashfsBlockSize) = 0 then 1
    else ceilDiv (ceilDiv total 8) (BitVec.ofNat 32 trashfsBlockSize)) = bb at h
  have hlt : bb.toNat < 2 ^ 25 := by
    rw [← hbb]
    split <;> omega
  split at h
  · cases h
  · cases h
    exact ⟨rfl, hlt⟩

theorem FormattedFrom.noInodes (h : FormattedFrom m n 0xFFFFFFFF now v) : NoInodes v := by
  obtain ⟨-, g, hgeom, hv⟩ := h.written
  have hlt := n.isLt
  have htotal := totalBlocks_toNat n
  have hone : (1 : BitVec 32).toNat = 1 := rfl
  obtain ⟨hstart, hbb⟩ := computeGeometry_inodeStart (by omega) hgeom
  have hstart' : g.inodeStart.toNat = 1 + g.bitmapBlocks.toNat := by
    rw [hstart, BitVec.toNat_add, hone]
    omega
  have ha := mount_accepted hv
  have hsuper : SuperblockOf (writeVolume m n g now) g _ _ := writeSuperblock_of ..
  have hwanted : inodesWanted (n / BitVec.ofNat 32 trashfsBlockSize) 0xFFFFFFFF = 0xFFFFFFFF :=
    if_neg (by decide)
  have hzero : g.inodeBlocks = 0 := by
    rw [computeGeometry_inodes hgeom, hwanted]
    decide
  have hcount : v.inodeCount = 0 := by
    rw [ha.inodeCount, hsuper.inodeBlocks, hzero]
    rfl
  refine ⟨hcount, ?_, ?_⟩
  · rw [ha.freeInodes, hcount]
    rfl
  · have hvs : v.inodeStart = g.inodeStart.toNat := by
      rw [ha.inodeStart, hsuper.bitmapBlocks]
      omega
    have hptr : v.inodePtr trashfsRootInode = blockPtr g.inodeStart.toNat := by
      have hmod : v.inodeStart % 2 ^ 32 = g.inodeStart.toNat := by omega
      unfold TrashfsLayout.inodePtr trashfsRootInode
      rw [Nat.zero_div, Nat.zero_mod, Nat.zero_mul, Nat.add_zero, Nat.add_zero, hmod]
    unfold TrashfsVolume.dirSize
    rw [hptr, ha.region, writeVolume_rootSize (by omega)]
    rfl

theorem NoInodes.dirFindIn (h : NoInodes v) (name : List Byte) :
    v.dirFindIn trashfsRootInode name = none := by
  unfold TrashfsVolume.dirFindIn TrashfsVolume.direntPtrs
  rw [h.empty]
  rfl

theorem NoInodes.stepPath (h : NoInodes v) {allow : Bool} {stack : List Nat}
    {names : List (List Byte)} (hstack : stack = [trashfsRootInode]) {ino : Nat} {t : Byte}
    (hok : v.stepPath allow stack trashfsRootInode trashfsTypeDir names = .ok (ino, t)) :
    ino = trashfsRootInode := by
  subst hstack
  induction names with
  | nil =>
    unfold TrashfsVolume.stepPath at hok
    rw [Except.ok.injEq, Prod.mk.injEq] at hok
    exact hok.1.symm
  | cons c rest ih =>
    unfold TrashfsVolume.stepPath at hok
    by_cases hdot : c = [dot]
    · rw [if_pos hdot] at hok
      exact ih hok
    · rw [if_neg hdot] at hok
      by_cases hup : c = [dot, dot]
      · rw [if_pos hup] at hok
        exact ih hok
      · rw [if_neg hup, h.dirFindIn] at hok
        cases hok

theorem NoInodes.resolveParent (h : NoInodes v) {path : List Byte} {parent : Nat}
    {name : List Byte} (hok : v.resolveParent path = .ok (parent, name)) :
    parent = trashfsRootInode := by
  obtain ⟨_, t, -, -, -, hstep⟩ := resolveParent_ok hok
  exact h.stepPath rfl hstep

theorem NoInodes.createIn (h : NoInodes v) (parent : Nat) (name : List Byte) (mode : BitVec 16)
    (type : Byte) : v.createIn parent name mode type now = (.errNoSpace, 0, v) := by
  unfold TrashfsVolume.createIn TrashfsVolume.allocInode
  rw [h.inodeCount]
  rfl

theorem NoInodes.open (h : NoInodes v) (path : List Byte) (flags : OpenFlags) :
    ∃ e, trashfsOpen v path flags = (.error e, v) := by
  unfold trashfsOpen
  cases hres : v.resolveParent path with
  | error e => exact ⟨e, rfl⟩
  | ok pn =>
    obtain ⟨parent, name⟩ := pn
    have hroot := h.resolveParent hres
    subst hroot
    dsimp only
    rw [h.dirFindIn]
    cases flags.creat with
    | false => exact ⟨_, rfl⟩
    | true =>
      dsimp only
      rw [h.createIn]
      exact ⟨_, rfl⟩

theorem NoInodes.mkdir (h : NoInodes v) (path : List Byte) : (trashfsMkdir v path now).2 = v := by
  unfold trashfsMkdir
  cases hres : v.resolveParent path with
  | error e => rfl
  | ok pn =>
    obtain ⟨parent, name⟩ := pn
    have hroot := h.resolveParent hres
    subst hroot
    dsimp only
    rw [h.dirFindIn]
    dsimp only
    rw [h.createIn]

theorem NoInodes.unlink (h : NoInodes v) (path : List Byte) : (trashfsUnlink v path).2 = v := by
  unfold trashfsUnlink
  cases hres : v.resolveParent path with
  | error e => rfl
  | ok pn =>
    obtain ⟨parent, name⟩ := pn
    have hroot := h.resolveParent hres
    subst hroot
    dsimp only
    rw [h.dirFindIn]

theorem NoInodes.rmdir (h : NoInodes v) (path : List Byte) : (trashfsRmdir v path).2 = v := by
  unfold trashfsRmdir
  cases hfull : v.resolveFull path with
  | error e => rfl
  | ok it =>
    obtain ⟨ino, type⟩ := it
    dsimp only
    unfold TrashfsVolume.resolveFull at hfull
    cases htok : pathTokenize path with
    | error e =>
      rw [htok] at hfull
      cases hfull
    | ok names =>
      rw [htok] at hfull
      have hroot := h.stepPath rfl hfull
      rw [if_pos hroot]
      split <;> rfl

end FormattedFrom

end Microgarbage.Storage
