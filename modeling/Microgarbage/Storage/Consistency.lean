import Microgarbage.Storage.FsRun

/-!
# What a file system check would find

The blocks against the pointers, the counts against the bitmap and the inode table, the names against
the inodes: all agree in every state that a formatted volume reaches.
-/

namespace Microgarbage.Storage

open Lib
open TrashfsVolume (direntInode)

/-- Pointer `p` of an inode in use, at any level, names block `b`. -/
def References (v : TrashfsVolume) (p : BlockPos) (b : Nat) : Prop :=
  p.Valid v.toTrashfsLayout ∧ v.inodeUsed p.ino = true ∧ v.blockAt p = b

/-- The entry in slot `off` of directory `d` names inode `i`. -/
def Names (v : TrashfsVolume) (i d off : Nat) : Prop :=
  Live v d off ∧ direntInode (fileByte v d) off = i

structure Consistent (v : TrashfsVolume) : Prop where
  allocated : ∀ b, v.dataStart ≤ b → b < v.totalBlocks → v.bitmapTest b = true →
    ∃! p, References v p b
  referenced : ∀ p b, b ≠ trashfsBlockNone → References v p b →
    v.dataStart ≤ b ∧ b < v.totalBlocks ∧ v.bitmapTest b = true
  freeBlocks : v.freeBlocks = clearBlocks v
  freeInodes : v.freeInodes = unusedInodes v
  named : ∀ i < v.inodeCount, v.inodeUsed i = true → i ≠ trashfsRootInode →
    ∃! slot : Nat × Nat, Names v i slot.1 slot.2
  names : ∀ d off off', Live v d off → Live v d off' →
    entryName (fileByte v d) off = entryName (fileByte v d) off' → off = off'

theorem Sound.consistent {v : TrashfsVolume} (hs : Sound v) : Consistent v := by
  have hm := hs.mapped
  have hpos : 0 < v.dataStart := by
    rw [hm.ordered.dataStart, hm.ordered.inodeStart]
    omega
  refine ⟨fun b hlo hhi hbit => ?_, fun p b hne href => ?_, hm.free, hs.freeInodes,
    fun i hi hu hne => ?_, hs.names⟩
  · obtain ⟨p, hp, hat⟩ := (hm.bits b hlo hhi).mp hbit
    have hne : v.blockAt p ≠ 0 := by omega
    have hused : v.inodeUsed p.ino = true := by
      rw [← Bool.not_eq_false]
      exact fun hu => hne (hs.idle p.ino hp.ino hu p hp rfl)
    refine ⟨p, ⟨hp, hused, hat⟩, ?_⟩
    rintro q ⟨hq, -, hqat⟩
    exact (hm.inj p q hp hq hne (hat.trans hqat.symm)).symm
  · obtain ⟨hp, -, rfl⟩ := href
    obtain ⟨hlo, hhi⟩ := hm.data p hp hne
    exact ⟨hlo, hhi, (hm.bits _ hlo hhi).mpr ⟨p, hp, rfl⟩⟩
  · obtain ⟨d, off, hlive, hino⟩ := hs.named i hi hu hne
    refine ⟨(d, off), ⟨hlive, hino⟩, ?_⟩
    rintro ⟨d', off'⟩ ⟨hlive', hino'⟩
    obtain ⟨hd, hoff⟩ := hs.once d' off' d off hlive' hlive (hino'.trans hino.symm)
    exact Prod.ext hd hoff

/-- A block that `bmap_alloc` gives is where `map_lbn` finds it, and is nobody else's; every other
logical block of any inode stays where it was. -/
theorem bmapAlloc_maps {v v' : TrashfsVolume} {ino lbn b : Nat} (hm : PointerTree v) (hi : ino < v.inodeCount)
    (h : v.bmapAlloc (v.inodePtr ino) lbn = (b, v')) (hb : b ≠ trashfsBlockNone) :
    v'.mapLbn (v'.inodePtr ino) lbn = b ∧
      (∀ j < v.inodeCount, ∀ l, j ≠ ino ∨ l ≠ lbn →
        v'.mapLbn (v'.inodePtr j) l = v.mapLbn (v.inodePtr j) l ∧
          v'.mapLbn (v'.inodePtr j) l ≠ b) ∧ PointerTree v' := by
  cases hp : leafPos ino lbn with
  | none =>
    rw [bmapAlloc_none hp, Prod.mk.injEq] at h
    exact absurd h.1.symm hb
  | some p =>
    obtain ⟨rfl, hvalid, -⟩ := leafPos_valid hi hp
    have hplaced := bmapAlloc_placed hm hi hp
    rw [h] at hplaced
    obtain ⟨htree, hlayout, hblock, hothers⟩ := hplaced
    have hat := hblock hb
    refine ⟨?_, fun j hj l hne => ?_, htree⟩
    · rw [mapLbn_eq, hp]
      exact hat
    · rw [mapLbn_eq, mapLbn_eq]
      cases hq : leafPos j l with
      | none => exact ⟨rfl, Ne.symm hb⟩
      | some q =>
        obtain ⟨rfl, hqvalid, hqleaf⟩ := leafPos_valid hj hq
        have hqp : q ≠ p := by
          rintro rfl
          exact hne.elim (fun hj => hj rfl) fun hl => hl (leafPos_inj hq hp)
        refine ⟨hothers q hqvalid hqleaf hqp, fun hqb => hqp ?_⟩
        have hq0 : v'.blockAt q ≠ 0 := fun h0 => hb (hqb.symm.trans h0)
        exact htree.inj q p (hlayout ▸ hqvalid) (hlayout ▸ hvalid) hq0 (hqb.trans hat.symm)

/-- The block goes behind the double indirect pointer. -/
theorem bmapAlloc_maps_small : ∃ v, FormattedFrom (fun _ => 0) 16384 0 0 v ∧ ∃ b v',
    v.bmapAlloc (v.inodePtr 0) 200 = (b, v') ∧ b ≠ trashfsBlockNone ∧
      v'.mapLbn (v'.inodePtr 0) 200 = b := by
  have hok : (trashfsFormat (fun _ => 0) 16384 0 0).1 = .ok := by decide +kernel
  obtain ⟨v, hv, -⟩ := (format_usable_iff hok).mpr (by decide)
  have hf : FormattedFrom (fun _ => 0) 16384 0 0 v := ⟨hok, hv⟩
  have halloc : (trashfsMount (trashfsFormat (fun _ => 0) 16384 0 0).2 16384).toOption.map
      (fun v => decide (0 < v.inodeCount) &&
        (v.bmapAlloc (v.inodePtr 0) 200).1 != trashfsBlockNone) = some true := by
    decide +kernel
  rw [hv] at halloc
  obtain ⟨hi, hb⟩ := Bool.and_eq_true_iff.mp (Option.some.inj halloc)
  cases hbv : v.bmapAlloc (v.inodePtr 0) 200 with
  | mk b v' =>
    rw [hbv] at hb
    have hmaps := bmapAlloc_maps (hf.sound (by decide)).mapped.tree (of_decide_eq_true hi) hbv
      (bne_iff_ne.mp hb)
    exact ⟨v, hf, b, v', hbv, bne_iff_ne.mp hb, hmaps.1⟩

/-- Every run over a formatted volume stays consistent, if the inode hint did not wrap. -/
theorem run_consistent {m : Mem} {n hint now : BitVec 32} {v : TrashfsVolume}
    (hf : FormattedFrom m n hint now v) (hhint : hint ≠ 0xFFFFFFFF) {es : List FsCall} {s : FsState}
    (hok : Meets FsState.step LiveWrites (FsState.start v) es)
    (hrun : run FsState.step (FsState.start v) es = some s) : Consistent s.vol :=
  ((FsInv.start (hf.sound hhint)).run hok hrun).sound.consistent

/-- Create the file `f`, write to it, remove it. -/
def createWriteUnlink : List FsCall :=
  [.open 0 [102] ⟨true, false, false⟩, .write 0 [1, 2, 3] 0, .unlink [102]]

theorem run_consistent_small : ∃ v s, FormattedFrom (fun _ => 0) 16384 0 0 v ∧
    run FsState.step (FsState.start v) createWriteUnlink = some s ∧ Consistent s.vol := by
  have hok : (trashfsFormat (fun _ => 0) 16384 0 0).1 = .ok := by decide +kernel
  obtain ⟨v, hv, -⟩ := (format_usable_iff hok).mpr (by decide)
  have hf : FormattedFrom (fun _ => 0) 16384 0 0 v := ⟨hok, hv⟩
  obtain ⟨s, hs⟩ : ∃ s, run FsState.step (FsState.start v) createWriteUnlink = some s := ⟨_, rfl⟩
  refine ⟨v, s, hf, hs, run_consistent hf (by decide) ?_ hs⟩
  refine ⟨trivial, fun s₁ hs₁ => ⟨fun h hh => ?_, fun _ _ => ⟨trivial, fun _ _ => trivial⟩⟩⟩
  rw [FsState.step, Option.some.injEq] at hs₁
  subst hs₁
  unfold FsState.call at hh
  dsimp only at hh
  split at hh
  · cases hh
  · dsimp only at hh
    rcases update_some hh with ⟨-, rfl⟩ | ⟨-, hold⟩
    · rfl
    · cases hold

/-- With the hint that wraps, the root directory's block is allocated and no inode names it. -/
theorem wrapped_block_lost : ¬∀ (m : Mem) (n hint now : BitVec 32) (v : TrashfsVolume)
    (es : List FsCall) (s : FsState), FormattedFrom m n hint now v →
    Meets FsState.step LiveWrites (FsState.start v) es →
    run FsState.step (FsState.start v) es = some s → Consistent s.vol := by
  intro hall
  have hok : (trashfsFormat (fun _ => 0) 16384 0xFFFFFFFF 0).1 = .ok := by decide +kernel
  have hbit : (trashfsMount (trashfsFormat (fun _ => 0) 16384 0xFFFFFFFF 0).2 16384).toOption.map
      (fun v => decide (v.dataStart < v.totalBlocks) && v.bitmapTest v.dataStart) = some true := by
    decide +kernel
  cases hv : trashfsMount (trashfsFormat (fun _ => 0) 16384 0xFFFFFFFF 0).2 16384 with
  | error e =>
    rw [hv] at hbit
    cases hbit
  | ok v =>
    rw [hv] at hbit
    have hset := Option.some.inj hbit
    rw [Bool.and_eq_true, decide_eq_true_iff] at hset
    have hf : FormattedFrom (fun _ => 0) 16384 0xFFFFFFFF 0 v := ⟨hok, hv⟩
    have hc := hall _ _ _ _ v [] (FsState.start v) hf trivial rfl
    obtain ⟨p, ⟨hp, -⟩, -⟩ := hc.allocated v.dataStart (Nat.le_refl _) hset.1 hset.2
    have hino := hp.ino
    rw [show (FsState.start v).vol.inodeCount = 0 from hf.noInodes.inodeCount] at hino
    exact absurd hino (Nat.not_lt_zero _)

end Microgarbage.Storage
