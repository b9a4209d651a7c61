import Microgarbage.Storage.Calls

/-!
# Making and removing names

The calls that change the tree: a new inode with its entry, an inode opened and perhaps truncated, an
entry removed with its inode. Each is described by what it leaves of every file, and keeps a sound
volume sound.
-/

namespace Microgarbage.Storage

open Lib
open TrashfsVolume (direntInode direntNamed)

variable {v v' : TrashfsVolume} {d off n ino parent : Nat} {name : List Byte} {type : Byte}

/-! ## The count of inodes

Only `createIn` and `releaseInode` change it, and nothing else is read off it. -/

theorem blockAt_freeInodes (v : TrashfsVolume) (k : Nat) (p : BlockPos) :
    TrashfsVolume.blockAt { v with freeInodes := k } p = v.blockAt p := by
  induction p using BlockPos.rec_child with
  | root ino slot => rfl
  | child p i ih =>
    rw [blockAt_child, blockAt_child, ih]
    rfl

theorem fileByte_freeInodes (v : TrashfsVolume) (k ino off : Nat) :
    fileByte { v with freeInodes := k } ino off = fileByte v ino off := by
  unfold fileByte leafByte
  cases leafPos ino (off / 128) with
  | none => rfl
  | some p =>
    dsimp only
    rw [blockAt_freeInodes]

theorem SameFile.freeInodes (v : TrashfsVolume) (k i : Nat) :
    SameFile v { v with freeInodes := k } i :=
  ⟨rfl, rfl, fileByte_freeInodes v k i⟩

theorem Mapped.withFreeInodes (hm : Mapped v) (k : Nat) : Mapped { v with freeInodes := k } :=
  hm.frame rfl rfl (fun _ _ => rfl) fun q _ => blockAt_freeInodes v k q

theorem Mapped.inode_lt (hm : Mapped v) (hn : n < v.inodeCount) : n < 2 ^ 32 := by
  have hinodes := hm.ordered.inodes
  have hstart := hm.ordered.dataStart
  have hdata := hm.ordered.data
  have htotal := hm.ordered.total
  omega

theorem Sound.freeInodes_pos (hs : Sound v) (hn : n < v.inodeCount) (hu : v.inodeUsed n = false) :
    0 < v.freeInodes := by
  rw [hs.freeInodes]
  unfold unusedInodes
  refine List.countP_pos_iff.mpr ⟨n, List.mem_range.mpr hn, ?_⟩
  rw [hu]
  rfl

/-! ## New names -/

/-- Out of space: every file is as it was, but blocks may have been allocated to the directory. -/
structure CreateFailed (v v' : TrashfsVolume) (parent : Nat) : Prop where
  layout : v'.toTrashfsLayout = v.toTrashfsLayout
  freeInodes : v'.freeInodes = v.freeInodes
  mapped : Mapped v'
  files : ∀ i < v.inodeCount, SameFile v v' i
  other : ∀ q, q.Valid v.toTrashfsLayout → q.ino ≠ parent → v'.blockAt q = v.blockAt q
  same : Full v → v' = v
  cause : unusedInodes v = 0 ∧ v' = v ∨ 0 < unusedInodes v ∧
    (leafPos parent (direntAlign (v.dirSize parent) / 128) ≠ none ∧ Full v' ∨
      leafPos parent (direntAlign (v.dirSize parent) / 128) = none ∧ v' = v)

theorem CreateFailed.refl (hm : Mapped v) (hnone : unusedInodes v = 0) : CreateFailed v v parent :=
  ⟨rfl, rfl, hm, fun i _ => .refl v i, fun _ _ _ => rfl, fun _ => rfl, .inl ⟨hnone, rfl⟩⟩

theorem CreateFailed.sound (hs : Sound v) (hu : v.inodeUsed parent = true)
    (h : CreateFailed v v' parent) : Sound v' := by
  refine hs.of_same h.layout h.freeInodes h.mapped (fun i hi => (h.files i hi).mode)
    (fun d hd _ _ => h.files d hd) fun i hi hui q hq hqi => ?_
  rw [h.layout] at hq
  rw [h.other q hq fun hqp => ?_]
  · exact hs.idle i hi hui q hq hqi
  · rw [← hqi, hqp, hu] at hui
    cases hui

/-- The mode is that of a file in use of this type. -/
structure ModeOf (mode : BitVec 16) (type : Byte) : Prop where
  used : mode &&& trashfsModeUsed ≠ 0
  dir : type = trashfsTypeDir ↔ mode &&& trashfsModeDir ≠ 0

theorem modeOf_file : ModeOf trashfsModeUsed trashfsTypeFile := ⟨by decide, by decide⟩

theorem modeOf_dir : ModeOf (trashfsModeUsed ||| trashfsModeDir) trashfsTypeDir :=
  ⟨by decide, by decide⟩

theorem created_of_filled {v₂ v₃ : TrashfsVolume} {e : Nat} {mode : BitVec 16} {f : Nat → Byte}
    (hd : d < v.inodeCount) (hdn : d ≠ n) (hfree : v₂.freeInodes + 1 = v.freeInodes)
    (hslot : SlotFor { v with freeInodes := v.freeInodes - 1 } v₂ d off e)
    (hinit : Initialized v₂ v₃ n mode) (hreset : Reset v₂ v₃ n) (hw : Wrote v₃ v' d off 48 f)
    (hn : n < v.inodeCount) (hmode : ModeOf mode type) (hino : direntInode f 0 = n)
    (htype : f 4 = type) (hlen : (f 5).toNat = name.length)
    (hbytes : Mem.bytes f 6 name.length = name) (hname : name.length ≤ 32) :
    Created v v' d off n name := by
  have hl₂ : v₂.toTrashfsLayout = v.toTrashfsLayout := hslot.layout
  have hl₃ : v₃.toTrashfsLayout = v.toTrashfsLayout := hinit.layout.trans hl₂
  have hl : v'.toTrashfsLayout = v.toTrashfsLayout := hw.layout.trans hl₃
  have hcount₂ : v₂.inodeCount = v.inodeCount := by rw [hl₂]
  have hcount₃ : v₃.inodeCount = v.inodeCount := by rw [hl₃]
  have hmode' : inodeMode v' n = mode := by
    rw [(hw.mode_size (hcount₃ ▸ hn)).1]
    unfold inodeMode
    rw [hinit.layout]
    exact hinit.mode
  have hfiles : ∀ i < v.inodeCount, i ≠ n → i ≠ d → SameFile v v₂ i := fun i hi _ hne =>
    (SameFile.freeInodes v _ i).trans (hslot.files i hi hne)
  have hslotbytes : ∀ k < 48, fileByte v' d (off + k) = f k := by
    intro k hk
    rw [hw.bytes d (hcount₃ ▸ hd), if_pos ⟨rfl, by omega, by omega⟩, Nat.add_sub_cancel_left]
  have hsize : v'.dirSize d = v₂.dirSize d := by
    rw [(hw.mode_size (hcount₃ ▸ hd)).2, (hreset.other d (hcount₂ ▸ hd) hdn).size]
  refine ⟨hl, ?_, hw.mapped, fun i hi hne => ?_, ?_, ?_, fun i hi hne hid => ?_, hslot.slot, ?_,
    fun x hx => ?_, ?_, ?_, ?_, ?_, fun q hq hqd => ?_⟩
  · rw [hw.freeInodes, hinit.freeInodes, hfree]
  · rw [(hw.mode_size (hcount₃ ▸ hi)).1, (hreset.other i (hcount₂ ▸ hi) hne).mode]
    by_cases hid : i = d
    · rw [hid]
      exact hslot.mode
    · exact (hfiles i hi hne hid).mode
  · have hused : v'.inodeUsed n = (inodeMode v' n &&& trashfsModeUsed != 0) := rfl
    rw [hused, hmode', bne_iff_ne]
    exact hmode.used
  · rw [(hw.mode_size (hcount₃ ▸ hn)).2]
    unfold TrashfsVolume.dirSize
    rw [hinit.layout, hinit.size]
    rfl
  · exact ((hfiles i hi hne hid).trans (hreset.other i (hcount₂ ▸ hi) hne)).trans
      (hw.file (hcount₃ ▸ hi) hid)
  · rw [hsize, ← (SameFile.freeInodes v (v.freeInodes - 1) d).fileByte]
    exact hslot.grown
  · rw [hw.bytes d (hcount₃ ▸ hd), if_neg (by omega), (hreset.other d (hcount₂ ▸ hd) hdn).bytes]
    exact (hslot.bytes x).trans (fileByte_freeInodes v _ d x)
  · rw [← hino]
    exact direntInode_word fun k hk => by rw [hslotbytes k (by omega), Nat.zero_add]
  · rw [hslotbytes 4 (by omega), htype, hmode.dir]
    unfold isDirectory
    rw [hmode', bne_iff_ne]
  · rw [hslotbytes 5 (by omega), hlen]
    exact hname
  · unfold entryName
    rw [hslotbytes 5 (by omega), hlen, ← hbytes, Mem.length_bytes]
    unfold Mem.bytes
    refine List.map_congr_left fun k hk => ?_
    rw [List.mem_range] at hk
    rw [Nat.add_assoc]
    exact hslotbytes (6 + k) (by omega)
  · rw [hw.blocks q (hl₃ ▸ hq), hreset.blocks q (hl₂ ▸ hq)]
    exact (hslot.other q hq hqd).trans (blockAt_freeInodes v _ q)

theorem initInode_reset (mode : BitVec 16) (now : BitVec 32) (hm : Mapped v) (hn : n < v.inodeCount)
    (hnone : NoBlocks v n) : Reset v (v.initInode n mode now) n := by
  have hinit := initInode_spec v n mode now
  exact Poked.reset hm hn hnone { hinit with }
    fun k hk hk' => hinit.zero k hk (by omega)

theorem createFailed_of_grows (hpos : 0 < v.freeInodes) (hunused : 0 < unusedInodes v)
    (hg : Grows { v with freeInodes := v.freeInodes - 1 } v') (hm : Mapped v')
    (hsame : Full v → v' = { v with freeInodes := v.freeInodes - 1 })
    (hother : ∀ q, q.Valid v.toTrashfsLayout → q.ino ≠ parent → v'.blockAt q = v.blockAt q)
    (hcause : leafPos parent (direntAlign (v.dirSize parent) / 128) ≠ none ∧ Full v' ∨
      leafPos parent (direntAlign (v.dirSize parent) / 128) = none ∧
        v' = { v with freeInodes := v.freeInodes - 1 }) :
    CreateFailed v { v' with freeInodes := v'.freeInodes + 1 } parent := by
  have hl : v'.toTrashfsLayout = v.toTrashfsLayout := hg.layout
  have hback : v'.freeInodes + 1 = v.freeInodes := by
    rw [hg.freeInodes]
    exact Nat.sub_add_cancel hpos
  refine ⟨hl, hback, hm.withFreeInodes _, fun i hi => ?_, fun q hq hne => ?_, fun hfull => ?_,
    .inr ⟨hunused, hcause.imp_right fun hmax => ⟨hmax.1, ?_⟩⟩⟩
  · exact ((SameFile.freeInodes v _ i).trans (hg.file hi)).trans (.freeInodes v' _ i)
  · exact (blockAt_freeInodes v' _ q).trans (hother q hq hne)
  · rw [hback, hsame hfull]
  · rw [hback, hmax.2]

/-- `createIn` makes an inode and its entry, or fails for lack of space. -/
theorem createIn_spec {mode : BitVec 16} (now : BitVec 32) (hs : Sound v)
    (hp : NodeOk v parent trashfsTypeDir) (hname : name.length ≤ 32) (hmode : ModeOf mode type) :
    (∃ v', v.createIn parent name mode type now = (.errNoSpace, 0, v') ∧
      CreateFailed v v' parent) ∨
    ∃ n off v', v.createIn parent name mode type now = (.ok, n, v') ∧ n < v.inodeCount ∧
      v.inodeUsed n = false ∧ inodeMode v' n = mode ∧ NoBlocks v' n ∧
      Created v v' parent off n name := by
  unfold TrashfsVolume.createIn
  rcases allocInode_spec v with ⟨hnone, hzero⟩ | ⟨n, halloc, hn, hu⟩
  · rw [hnone]
    exact .inl ⟨v, rfl, .refl hs.mapped hzero⟩
  · have hpos := hs.freeInodes_pos hn hu
    have hm₁ := hs.mapped.withFreeInodes (v.freeInodes - 1)
    rw [halloc]
    dsimp only
    have hspec := dirAllocDirentIn_spec (d := parent) hm₁ hp.lt
      (hs.sized parent hp.lt hp.used (hp.type.mp rfl))
    have hpn : parent ≠ n := by
      rintro rfl
      rw [hp.used] at hu
      cases hu
    rcases hspec with ⟨v₂, hslot, hg, hm₂, hsame, hother, -, hcause⟩ | ⟨off, e, v₂, hslot, hfor⟩
    · rw [hslot]
      refine .inl ⟨_, rfl, createFailed_of_grows hpos (hs.freeInodes ▸ hpos) hg hm₂ hsame (fun q hq hne => ?_) hcause⟩
      exact (hother q hq hne).trans (blockAt_freeInodes v _ q)
    · rw [hslot]
      dsimp only
      have hl₂ : v₂.toTrashfsLayout = v.toTrashfsLayout := hfor.layout
      have hn₂ : n < v₂.inodeCount := hl₂ ▸ hn
      have hfree : v₂.freeInodes + 1 = v.freeInodes := by
        rw [hfor.freeInodes]
        exact Nat.sub_add_cancel hpos
      have hnone : NoBlocks v₂ n := by
        intro q hq hqn
        rw [hl₂] at hq
        rw [(hfor.other q hq fun hqp => hpn (hqp.symm.trans hqn)).trans (blockAt_freeInodes v _ q)]
        exact hs.idle n hn hu q hq hqn
      have hinit := initInode_spec v₂ n mode now
      have hreset := initInode_reset mode now hfor.mapped hn₂ hnone
      obtain ⟨p, hplace, hb, he⟩ := hfor.place
      obtain ⟨-, hvalid, -⟩ := leafPos_valid (g := v.toTrashfsLayout) hp.lt hplace
      have hblock := hreset.blocks p (hl₂ ▸ hvalid)
      have hp₃ : parent < (v₂.initInode n mode now).inodeCount := by
        rw [hreset.layout, hl₂]
        exact hp.lt
      obtain ⟨f, hw, hino, htype, hlen, hbytes⟩ := fillDirent_spec type (d := parent) (e := e)
        hreset.mapped hp₃ hfor.slot hplace (hblock.symm ▸ hb) (by rw [hblock, he]) hname
        (hs.mapped.inode_lt hn)
      have hc := created_of_filled hp.lt hpn hfree hfor hinit hreset hw hn hmode hino htype hlen
        hbytes hname
      have hmode' : inodeMode (v₂.initInode n mode now) n = mode := by
        unfold inodeMode
        rw [hinit.layout]
        exact hinit.mode
      refine .inr ⟨n, off, _, rfl, hn, hu, ?_, fun q hq hqn => ?_, hc⟩
      · rw [(hw.mode_size (hreset.layout ▸ hn₂)).1, hmode']
      · rw [hc.layout] at hq
        rw [hw.blocks q (by rw [hreset.layout, hl₂]; exact hq), hreset.blocks q (hl₂ ▸ hq)]
        exact hnone q (hl₂ ▸ hq) hqn

/-! ## Opening -/

/-- The file `ino` is empty now; no other file changed. -/
structure Shortened (v v' : TrashfsVolume) (ino : Nat) : Prop where
  layout : v'.toTrashfsLayout = v.toTrashfsLayout
  freeInodes : v'.freeInodes = v.freeInodes
  mapped : Mapped v'
  empty : NoBlocks v' ino
  mode : inodeMode v' ino = inodeMode v ino
  size : v'.dirSize ino = 0
  other : ∀ i < v.inodeCount, i ≠ ino → SameFile v v' i
  kept : ∀ q, q.Valid v.toTrashfsLayout → q.ino ≠ ino → v'.blockAt q = v.blockAt q

theorem shortened_of_truncated {v₁ : TrashfsVolume} (hi : ino < v.inodeCount)
    (ht : Truncated v v₁ ino) :
    Shortened v { v₁ with region := wr32 v₁.region (v₁.inodePtr ino + 4) 0 } ino := by
  obtain ⟨v', hv'⟩ : ∃ v' : TrashfsVolume,
    { v₁ with region := wr32 v₁.region (v₁.inodePtr ino + 4) 0 } = v' := ⟨_, rfl⟩
  rw [hv']
  have hregion : v'.region = wr32 v₁.region (v₁.inodePtr ino + 4) 0 := by rw [← hv']
  have hpoked : Poked v₁ v' (v₁.inodePtr ino + 4) 4 := by
    refine ⟨by rw [← hv'], by rw [← hv'], by rw [← hv'], fun x hx => ?_⟩
    rw [hregion, wr32_out hx]
  have hi₁ : ino < v₁.inodeCount := ht.layout ▸ hi
  obtain ⟨hmapped, hblocks⟩ := fields_mapped ht.mapped hi₁ hpoked (by omega)
  have hl : v'.toTrashfsLayout = v.toTrashfsLayout := hpoked.layout.trans ht.layout
  refine ⟨hl, hpoked.freeInodes.trans ht.freeInodes, hmapped, fun q hq hqi => ?_, ?_, ?_,
    fun i hi' hne => ?_, fun q hq hne => ?_⟩
  · rw [hpoked.layout] at hq
    rw [hblocks q hq]
    exact ht.empty q hq hqi
  · rw [← (ht.fields ino hi).1]
    unfold inodeMode
    rw [hpoked.layout]
    exact rd16_congr fun k hk => hpoked.frame _ (by omega)
  · unfold TrashfsVolume.dirSize
    rw [hpoked.layout, hregion, rd32_wr32]
    rfl
  · exact (ht.other i hi' hne).trans
      (fields_file ht.mapped hi₁ hpoked (by omega) (ht.layout ▸ hi') hne)
  · rw [hblocks q (ht.layout ▸ hq), ht.kept q hq hne]

theorem Shortened.sound (hs : Sound v) (hdir : isDirectory v ino = false)
    (h : Shortened v v' ino) : Sound v' := by
  refine hs.of_same h.layout h.freeInodes h.mapped (fun i hi => ?_) (fun d hd _ hdd => ?_)
    fun i hi' hui q hq hqi => ?_
  · by_cases hii : i = ino
    · rw [hii]
      exact h.mode
    · exact (h.other i hi hii).mode
  · refine h.other d hd fun hd' => ?_
    rw [hd', hdir] at hdd
    cases hdd
  · by_cases hii : i = ino
    · exact h.empty q hq (hqi.trans hii)
    · rw [h.layout] at hq
      rw [h.kept q hq (hqi ▸ hii)]
      exact hs.idle i hi' hui q hq hqi

/-- What `trashfs_open` gives and leaves for an inode: the file shortened, or as it was. -/
structure Opened (v v' : TrashfsVolume) (f : TrashfsFile) (ino : Nat) (type : Byte)
    (flags : OpenFlags) : Prop where
  inode : f.inode = ino
  isOpen : f.isOpen = true
  isDir : f.isDir = decide (type = trashfsTypeDir)
  size : f.size = v'.dirSize ino
  pos : f.pos = if flags.append = true then f.size else 0
  left : (flags.trunc = true ∧ type ≠ trashfsTypeDir ∧ Shortened v v' ino) ∨
    (¬(flags.trunc = true ∧ type ≠ trashfsTypeDir) ∧ v' = v)

theorem openInode_spec {flags : OpenFlags} (hm : Mapped v) (hi : ino < v.inodeCount) :
    Opened v (openInode v ino type flags).2 (openInode v ino type flags).1 ino type flags := by
  unfold openInode
  dsimp only
  by_cases ht : flags.trunc = true ∧ ¬decide (type = trashfsTypeDir) = true
  · rw [if_pos ht]
    have htype : type ≠ trashfsTypeDir := by simpa using ht.2
    have htrunc := freeAllBlocks_truncated hm hi
    have hl : (v.freeAllBlocks (v.inodePtr ino)).inodePtr ino = v.inodePtr ino := by
      rw [htrunc.layout]
    have hshort := shortened_of_truncated hi htrunc
    rw [hl] at hshort ⊢
    refine ⟨rfl, rfl, rfl, hshort.size.symm, ?_, .inl ⟨ht.1, htype, hshort⟩⟩
    dsimp only
    split <;> rfl
  · rw [if_neg ht]
    refine ⟨rfl, rfl, rfl, rfl, rfl, .inr ⟨fun hand => ht ⟨hand.1, ?_⟩, rfl⟩⟩
    simpa using hand.2

/-! ## Removing -/

/-- The inode is free, without blocks; no other file changed. -/
structure Released (v v' : TrashfsVolume) (n : Nat) : Prop where
  layout : v'.toTrashfsLayout = v.toTrashfsLayout
  freeInodes : v'.freeInodes = v.freeInodes + 1
  mapped : Mapped v'
  mode : inodeMode v' n = 0
  empty : NoBlocks v' n
  other : ∀ i < v.inodeCount, i ≠ n → SameFile v v' i
  kept : ∀ q, q.Valid v.toTrashfsLayout → q.ino ≠ n → v'.blockAt q = v.blockAt q

theorem released_of_reset {v₁ v₂ : TrashfsVolume} (ht : Truncated v v₁ n)
    (hr : Reset v₁ v₂ n) (hfree : v₂.freeInodes = v₁.freeInodes) (hmode : inodeMode v₂ n = 0) :
    Released v { v₂ with freeInodes := v₂.freeInodes + 1 } n := by
  have hl : v₂.toTrashfsLayout = v.toTrashfsLayout := hr.layout.trans ht.layout
  refine ⟨hl, by rw [hfree, ht.freeInodes], hr.mapped.withFreeInodes _, hmode, fun q hq hqn => ?_,
    fun i hi hne => ?_, fun q hq hne => ?_⟩
  · rw [blockAt_freeInodes, hr.blocks q (hr.layout ▸ hq)]
    exact ht.empty q (hr.layout ▸ hq) hqn
  · exact ((ht.other i hi hne).trans (hr.other i (ht.layout ▸ hi) hne)).trans (.freeInodes v₂ _ i)
  · rw [blockAt_freeInodes, hr.blocks q (ht.layout ▸ hq), ht.kept q hq hne]

theorem releaseInode_spec (hm : Mapped v) (hn : n < v.inodeCount) :
    Released v (releaseInode v n) n := by
  have ht := freeAllBlocks_truncated hm hn
  unfold releaseInode trashfsInodeSize
  dsimp only
  generalize v.freeAllBlocks (v.inodePtr n) = v₁ at ht ⊢
  have hn₁ : n < v₁.inodeCount := ht.layout ▸ hn
  have hreset : Reset v₁ { v₁ with region := memset0 v₁.region (v₁.inodePtr n) 64 } n :=
    Poked.reset ht.mapped hn₁ ht.empty ⟨rfl, rfl, rfl, fun x hx => memset0_out hx⟩
      fun k _ hk' => memset0_in (Nat.le_add_right ..) (Nat.add_lt_add_left (by omega) _)
  have hzero : inodeMode { v₁ with region := memset0 v₁.region (v₁.inodePtr n) 64 } n = 0 :=
    rd16_zero fun i hi => memset0_in (Nat.le_add_right ..) (Nat.add_lt_add_left (by omega) _)
  exact released_of_reset ht hreset rfl hzero

theorem removed_of_released {v₁ : TrashfsVolume} (hd : d < v.inodeCount) (hnd : n ≠ d)
    (hw : Wrote v v₁ d off 48 fun _ => 0) (hr : Released v₁ v' n) :
    Removed v v' d off n := by
  have hl₁ := hw.layout
  have hd₁ : d < v₁.inodeCount := hl₁ ▸ hd
  have hdir := hr.other d hd₁ hnd.symm
  refine ⟨hr.layout.trans hl₁, ?_, hr.mapped, fun i hi hne => ?_, ?_, fun i hi hne hid => ?_, ?_,
    fun k hk => ?_, fun x hx => ?_, hr.empty, fun q hq hne => ?_⟩
  · rw [hr.freeInodes, hw.freeInodes]
  · rw [(hr.other i (hl₁ ▸ hi) hne).mode, (hw.mode_size hi).1]
  · have hused : v'.inodeUsed n = (inodeMode v' n &&& trashfsModeUsed != 0) := rfl
    rw [hused, hr.mode]
    rfl
  · exact (hw.file hi hid).trans (hr.other i (hl₁ ▸ hi) hne)
  · rw [hdir.size, (hw.mode_size hd).2]
  · rw [hdir.bytes, hw.bytes d hd, if_pos ⟨rfl, by omega, by omega⟩]
  · rw [hdir.bytes, hw.bytes d hd, if_neg (by omega)]
  · rw [hr.kept q (hl₁ ▸ hq) hne, hw.blocks q hq]

/-! ## The last component -/

/-- What a whole path leads to is what its last component names in the directory before. -/
theorem stepPath_append {leaf : List Byte} (hleaf : leaf ≠ [dot] ∧ leaf ≠ [dot, dot])
    (stack : List Nat) (cur : Nat) (type : Byte) (names : List (List Byte)) :
    v.stepPath true stack cur type (names ++ [leaf]) =
      match v.stepPath false stack cur type names with
      | .error e => .error e
      | .ok (p, _) =>
        match v.dirFindIn p leaf with
        | none => .error .errNotFound
        | some it => .ok it := by
  induction names generalizing stack cur type with
  | nil =>
    unfold TrashfsVolume.stepPath
    dsimp only [List.nil_append]
    rw [if_neg hleaf.1, if_neg hleaf.2]
    cases v.dirFindIn cur leaf with
    | none => rfl
    | some it =>
      obtain ⟨ino, t⟩ := it
      rfl
  | cons c rest ih =>
    rw [List.cons_append]
    unfold TrashfsVolume.stepPath
    by_cases hdot : c = [dot]
    · rw [if_pos hdot, if_pos hdot]
      exact ih ..
    · rw [if_neg hdot, if_neg hdot]
      by_cases hup : c = [dot, dot]
      · rw [if_pos hup, if_pos hup]
        exact ih ..
      · rw [if_neg hup, if_neg hup]
        cases v.dirFindIn cur c with
        | none => rfl
        | some it =>
          obtain ⟨ino, t⟩ := it
          dsimp only
          have hmore : rest ++ [leaf] ≠ [] ∨ (!true) = true := .inl (by simp)
          have hdirs : rest ≠ [] ∨ (!false) = true := .inr rfl
          rw [if_pos hmore, if_pos hdirs]
          by_cases ht : t = trashfsTypeDir
          · rw [if_neg (not_not_intro ht), if_neg (not_not_intro ht)]
            by_cases hdeep : trashfsPathDepth ≤ stack.length
            · rw [if_pos hdeep, if_pos hdeep]
            · rw [if_neg hdeep, if_neg hdeep]
              exact ih ..
          · rw [if_pos ht, if_pos ht]

theorem resolveFull_of_parent {path : List Byte} (h : v.resolveParent path = .ok (parent, name)) :
    v.resolveFull path =
      match v.dirFindIn parent name with
      | none => .error .errNotFound
      | some it => .ok it := by
  obtain ⟨names, t, htok, hlast, hdots, hstep⟩ := resolveParent_ok h
  have hsplit : names = names.dropLast ++ [name] :=
    (List.dropLast_append_getLast? name hlast).symm
  have happend := stepPath_append (v := v) (not_or.mp hdots) [trashfsRootInode]
    trashfsRootInode trashfsTypeDir names.dropLast
  unfold TrashfsVolume.resolveFull
  rw [htok]
  unfold TrashfsVolume.pathStep at hstep ⊢
  rw [hstep, ← hsplit] at happend
  exact happend

end Microgarbage.Storage
