import Microgarbage.Storage.Names

/-!
# What each call does

One lemma for each call that changes the tree: its outcomes on a sound volume, with what each leaves.
That the volume stays sound is read off them.
-/

namespace Microgarbage.Storage

open Lib
open TrashfsVolume (direntInode direntNamed)

variable {v v' : TrashfsVolume} {path : List Byte}

/-- A new inode and its entry. -/
structure Made (v v' : TrashfsVolume) (parent off n : Nat) (name : List Byte) (mode : BitVec 16) :
    Prop where
  lt : n < v.inodeCount
  unused : v.inodeUsed n = false
  mode : inodeMode v' n = mode
  empty : NoBlocks v' n
  created : Created v v' parent off n name

/-- Where a new name can go. -/
structure Place (v : TrashfsVolume) (path : List Byte) (parent : Nat) (name : List Byte) : Prop where
  resolved : v.resolveParent path = .ok (parent, name)
  parent : NodeOk v parent trashfsTypeDir
  length : name.length ≤ 32

theorem Sound.place (hs : Sound v) {parent : Nat} {name : List Byte}
    (h : v.resolveParent path = .ok (parent, name)) : Place v path parent name := by
  obtain ⟨hdir, hlen⟩ := resolveParent_spec hs h
  exact ⟨h, hdir, hlen⟩

theorem Made.sound {parent off n : Nat} {name : List Byte} {mode : BitVec 16} (hs : Sound v)
    (hp : Place v path parent name) (hnone : v.dirFindIn parent name = none)
    (h : Made v v' parent off n name mode) : Sound v' := by
  rw [dirFindIn_eq hp.length, Option.map_eq_none_iff] at hnone
  exact hs.created hp.parent.lt hp.parent.used (hp.parent.type.mp rfl) h.lt h.unused hnone h.created

theorem Made.node {parent off n : Nat} {name : List Byte} {mode : BitVec 16} {type : Byte}
    (hmode : ModeOf mode type) (h : Made v v' parent off n name mode) : NodeOk v' n type := by
  refine ⟨h.created.layout.symm ▸ h.lt, h.created.used, hmode.dir.trans ?_⟩
  unfold isDirectory
  rw [h.mode, bne_iff_ne]

/-- An entry and its inode, which holds no entries. -/
structure Entry (v : TrashfsVolume) (parent off n : Nat) (name : List Byte) : Prop where
  live : Live v parent off
  inode : direntInode (fileByte v parent) off = n
  name : entryName (fileByte v parent) off = name
  leaf : ∀ off', ¬Live v n off'

theorem Entry.ne {parent off n : Nat} {name : List Byte} (h : Entry v parent off n name) :
    n ≠ parent := by
  rintro rfl
  exact h.leaf off h.live

theorem Entry.sound {parent off n : Nat} {name : List Byte} (hs : Sound v)
    (h : Entry v parent off n name) (hr : Removed v v' parent off n) : Sound v' :=
  hs.removed h.live h.inode h.leaf hr

theorem removed_spec {parent ino : Nat} {name : List Byte} {type : Byte} (hs : Sound v)
    (hp : Place v path parent name) (hfind : v.dirFindIn parent name = some (ino, type))
    (hleaf : ∀ off, ¬Live v ino off) :
    ∃ off v₁, v.dirClearEntryIn parent name = some v₁ ∧ Entry v parent off ino name ∧
      Removed v (releaseInode v₁ ino) parent off ino := by
  obtain ⟨hnode, off, hoff, hlive, hino⟩ := hs.find hp.parent hp.length hfind
  have hname := (find_live hp.parent.lt hp.parent.used (hp.parent.type.mp rfl) hoff).2
  have hentry : Entry v parent off ino name := ⟨hlive, hino, hname, hleaf⟩
  rcases dirClearEntryIn_spec (d := parent) hs.mapped hp.parent.lt hp.length with
    ⟨hnone, -⟩ | ⟨off', v₁, hoff', hclear, hw⟩
  · rw [hoff] at hnone
    cases hnone
  · rw [hoff, Option.some.injEq] at hoff'
    subst hoff'
    refine ⟨off, v₁, hclear, hentry, removed_of_released hp.parent.lt hentry.ne hw ?_⟩
    exact releaseInode_spec hw.mapped (hw.layout ▸ hnode.lt)

/-! ## `trashfs_mkdir` -/

theorem mkdir_cases (hs : Sound v) (path : List Byte) (now : BitVec 32) :
    (∃ e, v.resolveParent path = .error e ∧ trashfsMkdir v path now = (e, v)) ∨
    ∃ parent name, Place v path parent name ∧
      ((∃ it, v.dirFindIn parent name = some it ∧ trashfsMkdir v path now = (.errExists, v)) ∨
        v.dirFindIn parent name = none ∧
          ((∃ v', trashfsMkdir v path now = (.errNoSpace, v') ∧ CreateFailed v v' parent) ∨
            ∃ off n v', trashfsMkdir v path now = (.ok, v') ∧
              Made v v' parent off n name (trashfsModeUsed ||| trashfsModeDir))) := by
  unfold trashfsMkdir
  cases hres : v.resolveParent path with
  | error e => exact .inl ⟨e, rfl, rfl⟩
  | ok pn =>
    obtain ⟨parent, name⟩ := pn
    have hplace := hs.place hres
    refine .inr ⟨parent, name, hplace, ?_⟩
    dsimp only
    cases hfind : v.dirFindIn parent name with
    | some it => exact .inl ⟨it, rfl, rfl⟩
    | none =>
      refine .inr ⟨rfl, ?_⟩
      rcases createIn_spec now hs hplace.parent hplace.length modeOf_dir with
        ⟨v', hcreate, hfailed⟩ | ⟨n, off, v', hcreate, hn, hu, hmode, hempty, hc⟩
      · rw [hcreate]
        exact .inl ⟨v', rfl, hfailed⟩
      · rw [hcreate]
        exact .inr ⟨off, n, v', rfl, hn, hu, hmode, hempty, hc⟩

/-! ## `trashfs_open` -/

theorem open_cases (hs : Sound v) (path : List Byte) (flags : OpenFlags) :
    (∃ e, v.resolveParent path = .error e ∧ trashfsOpen v path flags = (.error e, v)) ∨
    ∃ parent name, Place v path parent name ∧
      ((∃ ino type f v', v.dirFindIn parent name = some (ino, type) ∧ NodeOk v ino type ∧
          trashfsOpen v path flags = (.ok f, v') ∧ Opened v v' f ino type flags) ∨
        v.dirFindIn parent name = none ∧
          ((flags.creat = false ∧ trashfsOpen v path flags = (.error .errNotFound, v)) ∨
            flags.creat = true ∧
              ((∃ v', trashfsOpen v path flags = (.error .errNoSpace, v') ∧
                  CreateFailed v v' parent) ∨
                ∃ off n v₁ f v', Made v v₁ parent off n name trashfsModeUsed ∧
                  trashfsOpen v path flags = (.ok f, v') ∧
                  Opened v₁ v' f n trashfsTypeFile flags))) := by
  unfold trashfsOpen
  cases hres : v.resolveParent path with
  | error e => exact .inl ⟨e, rfl, rfl⟩
  | ok pn =>
    obtain ⟨parent, name⟩ := pn
    have hplace := hs.place hres
    refine .inr ⟨parent, name, hplace, ?_⟩
    dsimp only
    cases hfind : v.dirFindIn parent name with
    | some it =>
      obtain ⟨ino, type⟩ := it
      have hnode := (hs.find hplace.parent hplace.length hfind).1
      exact .inl ⟨ino, type, _, _, rfl, hnode, rfl, openInode_spec hs.mapped hnode.lt⟩
    | none =>
      refine .inr ⟨rfl, ?_⟩
      cases hcreat : flags.creat with
      | false => exact .inl ⟨rfl, rfl⟩
      | true =>
        refine .inr ⟨rfl, ?_⟩
        rcases createIn_spec 0 hs hplace.parent hplace.length modeOf_file with
          ⟨v', hcreate, hfailed⟩ | ⟨n, off, v₁, hcreate, hn, hu, hmode, hempty, hc⟩
        · rw [hcreate]
          exact .inl ⟨v', rfl, hfailed⟩
        · rw [hcreate]
          have hmade : Made v v₁ parent off n name trashfsModeUsed := ⟨hn, hu, hmode, hempty, hc⟩
          exact .inr ⟨off, n, v₁, _, _, hmade, rfl,
            openInode_spec hc.mapped (hmade.node modeOf_file).lt⟩

/-! ## `trashfs_unlink` and `trashfs_rmdir` -/

theorem not_live_of_file {ino : Nat} {type : Byte} (hn : NodeOk v ino type)
    (ht : type ≠ trashfsTypeDir) (off : Nat) : ¬Live v ino off := fun hl =>
  ht (hn.type.mpr hl.dir)

theorem unlink_cases (hs : Sound v) (path : List Byte) :
    (∃ e, v.resolveParent path = .error e ∧ trashfsUnlink v path = (e, v)) ∨
    ∃ parent name, Place v path parent name ∧
      ((v.dirFindIn parent name = none ∧ trashfsUnlink v path = (.errNotFound, v)) ∨
        (∃ ino, v.dirFindIn parent name = some (ino, trashfsTypeDir) ∧
          trashfsUnlink v path = (.errNotDir, v)) ∨
        ∃ ino type off v', v.dirFindIn parent name = some (ino, type) ∧ NodeOk v ino type ∧
          type ≠ trashfsTypeDir ∧ trashfsUnlink v path = (.ok, v') ∧
          Entry v parent off ino name ∧ Removed v v' parent off ino) := by
  unfold trashfsUnlink
  cases hres : v.resolveParent path with
  | error e => exact .inl ⟨e, rfl, rfl⟩
  | ok pn =>
    obtain ⟨parent, name⟩ := pn
    have hplace := hs.place hres
    refine .inr ⟨parent, name, hplace, ?_⟩
    dsimp only
    cases hfind : v.dirFindIn parent name with
    | none => exact .inl ⟨rfl, rfl⟩
    | some it =>
      obtain ⟨ino, type⟩ := it
      dsimp only
      by_cases ht : type = trashfsTypeDir
      · rw [if_pos ht, ht]
        exact .inr (.inl ⟨ino, rfl, rfl⟩)
      · rw [if_neg ht]
        have hnode := (hs.find hplace.parent hplace.length hfind).1
        obtain ⟨off, v₁, hclear, hentry, hremoved⟩ :=
          removed_spec hs hplace hfind (not_live_of_file hnode ht)
        rw [hclear, Option.getD_some]
        exact .inr (.inr ⟨ino, type, off, _, rfl, hnode, ht, rfl, hentry, hremoved⟩)

theorem not_live_of_empty {ino : Nat} (h : v.dirIsEmpty ino = true) (off : Nat) : ¬Live v ino off :=
  fun hl => hl.inode (dirIsEmpty_iff.mp h off hl.slot hl.size)

theorem rmdir_cases (hs : Sound v) (path : List Byte) :
    (∃ e, v.resolveFull path = .error e ∧ trashfsRmdir v path = (e, v)) ∨
    ∃ ino type, v.resolveFull path = .ok (ino, type) ∧ NodeOk v ino type ∧
      ((type ≠ trashfsTypeDir ∧ trashfsRmdir v path = (.errNotDir, v)) ∨
        type = trashfsTypeDir ∧
          ((ino = trashfsRootInode ∧ trashfsRmdir v path = (.errInvalidArg, v)) ∨
            ino ≠ trashfsRootInode ∧
              ((v.dirIsEmpty ino = false ∧ trashfsRmdir v path = (.errNotEmpty, v)) ∨
                v.dirIsEmpty ino = true ∧
                  ((∃ e, v.resolveParent path = .error e ∧ trashfsRmdir v path = (e, v)) ∨
                    ∃ parent name off v', Place v path parent name ∧
                      v.dirFindIn parent name = some (ino, type) ∧
                      trashfsRmdir v path = (.ok, v') ∧ Entry v parent off ino name ∧
                      Removed v v' parent off ino)))) := by
  unfold trashfsRmdir
  cases hfull : v.resolveFull path with
  | error e => exact .inl ⟨e, rfl, rfl⟩
  | ok it =>
    obtain ⟨ino, type⟩ := it
    refine .inr ⟨ino, type, rfl, resolveFull_spec hs hfull, ?_⟩
    dsimp only
    by_cases ht : type = trashfsTypeDir
    · refine .inr ⟨ht, ?_⟩
      rw [if_neg (not_not_intro ht)]
      by_cases hroot : ino = trashfsRootInode
      · rw [if_pos hroot]
        exact .inl ⟨hroot, rfl⟩
      · refine .inr ⟨hroot, ?_⟩
        rw [if_neg hroot]
        cases hempty : v.dirIsEmpty ino with
        | false => exact .inl ⟨rfl, rfl⟩
        | true =>
          refine .inr ⟨rfl, ?_⟩
          cases hres : v.resolveParent path with
          | error e => exact .inl ⟨e, rfl, rfl⟩
          | ok pn =>
            obtain ⟨parent, name⟩ := pn
            have hplace := hs.place hres
            have hfind : v.dirFindIn parent name = some (ino, type) := by
              have hsame := resolveFull_of_parent hres
              rw [hfull] at hsame
              cases hf : v.dirFindIn parent name with
              | none =>
                rw [hf] at hsame
                cases hsame
              | some it =>
                rw [hf, Except.ok.injEq] at hsame
                rw [hsame]
            obtain ⟨off, v₁, hclear, hentry, hremoved⟩ :=
              removed_spec hs hplace hfind (not_live_of_empty hempty)
            refine .inr ⟨parent, name, off, _, hplace, hfind, ?_, hentry, hremoved⟩
            dsimp only
            rw [hclear]
            rfl
    · rw [if_pos ht]
      exact .inl ⟨ht, rfl⟩

end Microgarbage.Storage
