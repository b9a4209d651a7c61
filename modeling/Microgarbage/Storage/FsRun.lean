import Microgarbage.Lib.Transition
import Microgarbage.Storage.Formatted

/-!
# Runs over a volume

A state has the volume and the handles that callers hold, with two notes that the code does not
keep: whether the file of a handle was unlinked, and for each inode the bytes written to its file
since it was created or truncated. Each call has an effect on the files of the volume; from the
effects follow the invariants of all runs.
-/

namespace Microgarbage.Storage

open Lib
open TrashfsVolume (direntInode direntNamed)
open Function (update)

/-! ## Files as what was written -/

/-- An array of bytes, zero where nothing was written. -/
structure SparseFile where
  size : Nat
  byte : Nat → Byte

namespace SparseFile

def empty : SparseFile := ⟨0, fun _ => 0⟩

def write (a : SparseFile) (pos : Nat) (bs : List Byte) : SparseFile :=
  if bs = [] then a
  else
    { size := max a.size (pos + bs.length)
      byte := fun off =>
        if pos ≤ off ∧ off < pos + bs.length then bs.getD (off - pos) 0 else a.byte off }

def read (a : SparseFile) (pos n : Nat) : List Byte :=
  (List.range (min n (a.size - pos))).map fun i => a.byte (pos + i)

end SparseFile

/-- The file of an inode is the array. -/
structure Holds (v : TrashfsVolume) (ino : Nat) (a : SparseFile) : Prop where
  size : v.dirSize ino = a.size
  bytes : ∀ off, fileByte v ino off = a.byte off

/-! ## The machine -/

structure FsHandle where
  file : TrashfsFile
  /-- The file was unlinked after it was opened. -/
  unlinked : Bool

structure FsState where
  vol : TrashfsVolume
  handles : Nat → Option FsHandle
  /-- What was written to the file of each inode. -/
  files : Nat → SparseFile

inductive FsCall where
  | mkdir (path : List Byte) (now : BitVec 32)
  | open (fd : Nat) (path : List Byte) (flags : OpenFlags)
  | read (fd n : Nat)
  | write (fd : Nat) (src : List Byte) (now : BitVec 32)
  | lseek (fd : Nat) (off : Int) (whence : Whence)
  | close (fd : Nat)
  | unlink (path : List Byte)
  | rmdir (path : List Byte)

/-- The file that an open leads to starts out empty: it is new, or truncated. -/
def startsEmpty (v : TrashfsVolume) (path : List Byte) (flags : OpenFlags) (f : TrashfsFile) : Bool :=
  match v.resolveFull path with
  | .ok _ => flags.trunc && !f.isDir
  | .error _ => true

namespace FsState

/-- The handles on what a path names are on an unlinked file from now on. -/
def markUnlinked (s : FsState) (path : List Byte) : Nat → Option FsHandle := fun fd =>
  (s.handles fd).map fun h =>
    match s.vol.resolveFull path with
    | .ok (ino, _) => if h.file.inode = ino then { h with unlinked := true } else h
    | .error _ => h

def call (s : FsState) : FsCall → TrashfsResult × FsState
  | .mkdir path now =>
    let (r, v) := trashfsMkdir s.vol path now
    (r, { s with vol := v })
  | .open fd path flags =>
    match trashfsOpen s.vol path flags with
    | (.error e, v) => (e, { s with vol := v })
    | (.ok f, v) =>
      (.ok, { vol := v
              handles := update s.handles fd (some ⟨f, false⟩)
              files :=
                if startsEmpty s.vol path flags f then
                  update s.files f.inode SparseFile.empty
                else s.files })
  | .read fd n =>
    match s.handles fd with
    | none => (.errInvalidArg, s)
    | some h =>
      let (r, _, f) := trashfsRead s.vol h.file n
      (r, { s with handles := update s.handles fd (some { h with file := f }) })
  | .write fd src now =>
    match s.handles fd with
    | none => (.errInvalidArg, s)
    | some h =>
      let (r, done, f, v) := trashfsWrite s.vol h.file src now
      (r, { vol := v
            handles := update s.handles fd (some { h with file := f })
            files := update s.files h.file.inode
              ((s.files h.file.inode).write h.file.pos (src.take done)) })
  | .lseek fd off whence =>
    match s.handles fd with
    | none => (.errInvalidArg, s)
    | some h =>
      let (r, f) := trashfsLseek h.file off whence
      (r, { s with handles := update s.handles fd (some { h with file := f }) })
  | .close fd =>
    match s.handles fd with
    | none => (.errInvalidArg, s)
    | some h =>
      (.ok, { s with handles := update s.handles fd (some { h with file := trashfsClose h.file }) })
  | .unlink path =>
    let (r, v) := trashfsUnlink s.vol path
    (r, { s with vol := v, handles := if r = .ok then s.markUnlinked path else s.handles })
  | .rmdir path =>
    let (r, v) := trashfsRmdir s.vol path
    (r, { s with vol := v, handles := if r = .ok then s.markUnlinked path else s.handles })

def step (s : FsState) (e : FsCall) : Option FsState := some (s.call e).2

/-- A volume just mounted, with no handle open. -/
def start (v : TrashfsVolume) : FsState :=
  { vol := v, handles := fun _ => none, files := fun _ => SparseFile.empty }

end FsState

/-! ## Effects -/

/-- A sound volume after a call: the inodes in use, but for those gone, keep their modes, and the
regular files among them keep their contents, but for those changed. -/
structure Effect (v v' : TrashfsVolume) (gone changed : Nat → Prop) : Prop where
  layout : v'.toTrashfsLayout = v.toTrashfsLayout
  sound : Sound v'
  mode : ∀ i < v.inodeCount, v.inodeUsed i = true → ¬gone i → inodeMode v' i = inodeMode v i
  files : ∀ i < v.inodeCount, v.inodeUsed i = true → isDirectory v i = false → ¬gone i →
    ¬changed i → SameFile v v' i
  fresh : ∀ i < v.inodeCount, v.inodeUsed i = false → v'.inodeUsed i = true →
    isDirectory v' i = false → changed i
  unused : ∀ i, gone i → v'.inodeUsed i = false

section Effects

variable {v v' v'' : TrashfsVolume} {path : List Byte} {gone changed : Nat → Prop}

theorem Effect.refl (hs : Sound v) (changed : Nat → Prop) (hg : ∀ i, ¬gone i) :
    Effect v v gone changed := by
  refine ⟨rfl, hs, fun _ _ _ _ => rfl, fun i _ _ _ _ _ => .refl v i, fun i _ hu hu' => ?_,
    fun i hgo => absurd hgo (hg i)⟩
  rw [hu] at hu'
  cases hu'

theorem CreateFailed.effect {parent : Nat} (hs : Sound v) (hp : v.inodeUsed parent = true)
    (h : CreateFailed v v' parent) : Effect v v' (fun _ => False) fun _ => False := by
  refine ⟨h.layout, h.sound hs hp, fun i hi _ _ => (h.files i hi).mode,
    fun i hi _ _ _ _ => h.files i hi, fun i hi hu hu' => ?_, fun _ => False.elim⟩
  rw [used_congr (h.files i hi).mode, hu] at hu'
  cases hu'

theorem Made.effect {parent off n : Nat} {name : List Byte} {mode : BitVec 16} (hs : Sound v)
    (hp : Place v path parent name) (hnone : v.dirFindIn parent name = none)
    (h : Made v v' parent off n name mode) : Effect v v' (fun _ => False) fun i =>
      i = n ∧ isDirectory v' n = false := by
  have hc := h.created
  have hne : ∀ {i}, v.inodeUsed i = true → i ≠ n := by
    rintro i hu rfl
    rw [h.unused] at hu
    cases hu
  refine ⟨hc.layout, h.sound hs hp hnone, fun i hi hu _ => hc.mode i hi (hne hu),
    fun i hi hu hd _ _ => ?_, fun i hi hu hu' hd => ?_, fun _ => False.elim⟩
  · refine hc.other i hi (hne hu) fun hip => ?_
    rw [hip, hp.parent.type.mp rfl] at hd
    cases hd
  · by_cases hin : i = n
    · exact ⟨hin, hin ▸ hd⟩
    · rw [used_congr (hc.mode i hi hin), hu] at hu'
      cases hu'

theorem Shortened.effect {ino : Nat} {type : Byte} (hs : Sound v) (hn : NodeOk v ino type)
    (ht : type ≠ trashfsTypeDir) (h : Shortened v v' ino) :
    Effect v v' (fun _ => False) (· = ino) := by
  have hdir : isDirectory v ino = false := by
    rw [← Bool.not_eq_true]
    exact fun hd => ht (hn.type.mpr hd)
  have hmode : ∀ i < v.inodeCount, inodeMode v' i = inodeMode v i := by
    intro i hi
    by_cases hii : i = ino
    · rw [hii]
      exact h.mode
    · exact (h.other i hi hii).mode
  refine ⟨h.layout, h.sound hs hdir, fun i hi _ _ => hmode i hi,
    fun i hi _ _ _ hne => h.other i hi hne, fun i hi hu hu' => ?_, fun _ => False.elim⟩
  rw [used_congr (hmode i hi), hu] at hu'
  cases hu'

theorem Entry.effect {parent off n : Nat} {name : List Byte} (hs : Sound v)
    (h : Entry v parent off n name) (hr : Removed v v' parent off n) :
    Effect v v' (· = n) fun _ => False := by
  refine ⟨hr.layout, h.sound hs hr, fun i hi _ hne => hr.mode i hi hne,
    fun i hi _ hd hne _ => hr.other i hi hne fun hip => ?_, fun i hi hu hu' => ?_,
    fun i hi => hi ▸ hr.unused⟩
  · rw [hip, h.live.dir] at hd
    cases hd
  · by_cases hin : i = n
    · rw [hin, hr.unused] at hu'
      cases hu'
    · rw [used_congr (hr.mode i hi hin), hu] at hu'
      cases hu'

theorem Effect.trans {changed' : Nat → Prop} (h : Effect v v' (fun _ => False) changed)
    (h' : Effect v' v'' (fun _ => False) changed') :
    Effect v v'' (fun _ => False) fun i => changed i ∨ changed' i := by
  have hl := h.layout
  have hkeep : ∀ i < v.inodeCount, v.inodeUsed i = true → v'.inodeUsed i = true ∧
      isDirectory v' i = isDirectory v i := fun i hi hu =>
    have hmode := h.mode i hi hu id
    ⟨(used_congr hmode).trans hu, isDirectory_congr hmode⟩
  refine ⟨h'.layout.trans hl, h'.sound, fun i hi hu _ => ?_, fun i hi hu hd _ hne => ?_,
    fun i hi hu hu'' hd => ?_, fun _ => False.elim⟩
  · exact (h'.mode i (hl ▸ hi) (hkeep i hi hu).1 id).trans (h.mode i hi hu id)
  · rw [not_or] at hne
    have hd' := (hkeep i hi hu).2.trans hd
    exact (h.files i hi hu hd id hne.1).trans
      (h'.files i (hl ▸ hi) (hkeep i hi hu).1 hd' id hne.2)
  · cases hu' : v'.inodeUsed i with
    | false => exact .inr (h'.fresh i (hl ▸ hi) hu' hu'' hd)
    | true =>
      refine .inl (h.fresh i hi hu hu' ?_)
      rw [← isDirectory_congr (h'.mode i (hl ▸ hi) hu' id)]
      exact hd

theorem Effect.mono {gone' changed' : Nat → Prop} (h : Effect v v' gone changed)
    (hg : ∀ i, gone i ↔ gone' i) (hc : ∀ i, changed i → changed' i) :
    Effect v v' gone' changed' :=
  ⟨h.layout, h.sound, fun i hi hu hne => h.mode i hi hu fun hgo => hne ((hg i).mp hgo),
    fun i hi hu hd hne hnc =>
      h.files i hi hu hd (fun hgo => hne ((hg i).mp hgo)) fun hch => hnc (hc i hch),
    fun i hi hu hu' hd => hc i (h.fresh i hi hu hu' hd), fun i hgo => h.unused i ((hg i).mpr hgo)⟩

theorem mkdir_effect (hs : Sound v) (path : List Byte) (now : BitVec 32) :
    Effect v (trashfsMkdir v path now).2 (fun _ => False) fun _ => False := by
  rcases mkdir_cases hs path now with ⟨e, -, heq⟩ | ⟨parent, name, hplace, hcase⟩
  · rw [heq]
    exact .refl hs _ fun _ => id
  · rcases hcase with ⟨it, -, heq⟩ | ⟨hnone, ⟨v', heq, hfailed⟩ | ⟨off, n, v', heq, hmade⟩⟩
    · rw [heq]
      exact .refl hs _ fun _ => id
    · rw [heq]
      exact hfailed.effect hs hplace.parent.used
    · rw [heq]
      refine (hmade.effect hs hplace hnone).mono (fun _ => .rfl) fun i hi => ?_
      rw [(hmade.node modeOf_dir).type.mp rfl] at hi
      cases hi.2

/-- What a successful open gives: the handle on a file that is as it was, or empty. -/
structure OpenOk (v v' : TrashfsVolume) (path : List Byte) (flags : OpenFlags) (f : TrashfsFile) :
    Prop where
  isOpen : f.isOpen = true
  lt : f.inode < v'.inodeCount
  size : f.size = v'.dirSize f.inode
  file : f.isDir = false → v'.inodeUsed f.inode = true ∧ isDirectory v' f.inode = false
  effect : Effect v v' (fun _ => False) fun i =>
    i = f.inode ∧ startsEmpty v path flags f = true
  empty : startsEmpty v path flags f = true →
    f.isDir = false ∧ v'.dirSize f.inode = 0 ∧ NoBlocks v' f.inode

theorem NodeOk.file {ino : Nat} {type : Byte} (h : NodeOk v ino type) (ht : type ≠ trashfsTypeDir) :
    v.inodeUsed ino = true ∧ isDirectory v ino = false := by
  refine ⟨h.used, ?_⟩
  rw [← Bool.not_eq_true]
  exact fun hd => ht (h.type.mpr hd)

theorem Opened.node {ino : Nat} {type : Byte} {flags : OpenFlags} {f : TrashfsFile}
    (hn : NodeOk v ino type) (h : Opened v v' f ino type flags) : NodeOk v' ino type := by
  rcases h.left with ⟨-, -, hshort⟩ | ⟨-, rfl⟩
  · exact ⟨hshort.layout.symm ▸ hn.lt, (used_congr hshort.mode).trans hn.used,
      hn.type.trans (by rw [isDirectory_congr hshort.mode])⟩
  · exact hn

theorem Opened.openOk {ino : Nat} {type : Byte} {flags : OpenFlags} {f : TrashfsFile}
    (hs : Sound v) (hn : NodeOk v ino type) (hfull : v.resolveFull path = .ok (ino, type))
    (h : Opened v v' f ino type flags) : OpenOk v v' path flags f := by
  have hino := h.inode
  subst hino
  have hnode := h.node hn
  have hstarts : startsEmpty v path flags f = (flags.trunc && !f.isDir) := by
    unfold startsEmpty
    rw [hfull]
  have hdir := h.isDir
  refine ⟨h.isOpen, hnode.lt, h.size, fun hd => hnode.file ?_, ?_, fun hse => ?_⟩
  · rw [hdir, decide_eq_false_iff_not] at hd
    exact hd
  · rcases h.left with ⟨htrunc, ht, hshort⟩ | ⟨-, rfl⟩
    · refine (hshort.effect hs hn ht).mono (fun _ => .rfl) fun i hi => ⟨hi, ?_⟩
      rw [hstarts, htrunc, hdir, decide_eq_false ht]
      rfl
    · exact .refl hs _ fun _ => id
  · rw [hstarts, Bool.and_eq_true, Bool.not_eq_true', hdir, decide_eq_false_iff_not] at hse
    rcases h.left with ⟨-, ht, hshort⟩ | ⟨hnot, -⟩
    · exact ⟨by rw [hdir, decide_eq_false ht], hshort.size, hshort.empty⟩
    · exact absurd hse hnot

theorem open_effect (hs : Sound v) (path : List Byte) (flags : OpenFlags) :
    (∃ e v', trashfsOpen v path flags = (.error e, v') ∧
      Effect v v' (fun _ => False) fun _ => False) ∨
    ∃ f v', trashfsOpen v path flags = (.ok f, v') ∧ OpenOk v v' path flags f := by
  rcases open_cases hs path flags with ⟨e, -, heq⟩ | ⟨parent, name, hplace, hcase⟩
  · exact .inl ⟨e, v, heq, .refl hs _ fun _ => id⟩
  · have hparent := resolveFull_of_parent hplace.resolved
    rcases hcase with ⟨ino, type, f, v', hfind, hnode, heq, hopened⟩ | ⟨hnone, hcase⟩
    · rw [hfind] at hparent
      exact .inr ⟨f, v', heq, hopened.openOk hs hnode hparent⟩
    · rw [hnone] at hparent
      rcases hcase with ⟨-, heq⟩ | ⟨-, ⟨v', heq, hfailed⟩ | ⟨off, n, v₁, f, v', hmade, heq, hopened⟩⟩
      · exact .inl ⟨_, v, heq, .refl hs _ fun _ => id⟩
      · exact .inl ⟨_, v', heq, hfailed.effect hs hplace.parent.used⟩
      · refine .inr ⟨f, v', heq, ?_⟩
        have hino := hopened.inode
        subst hino
        have hstarts : startsEmpty v path flags f = true := by
          unfold startsEmpty
          rw [hparent]
        have hnode₁ := hmade.node modeOf_file
        have hnode := hopened.node hnode₁
        have hdir : f.isDir = false := hopened.isDir
        have hne : trashfsTypeFile ≠ trashfsTypeDir := by decide
        have hmadeeff := hmade.effect hs hplace hnone
        refine ⟨hopened.isOpen, hnode.lt, hopened.size, fun _ => hnode.file hne, ?_,
          fun _ => ⟨hdir, ?_⟩⟩
        · rcases hopened.left with ⟨-, ht, hshort⟩ | ⟨-, rfl⟩
          · refine (hmadeeff.trans (hshort.effect hmadeeff.sound hnode₁ ht)).mono (fun _ => .rfl)
              fun i hi => ⟨?_, hstarts⟩
            exact hi.elim And.left id
          · exact hmadeeff.mono (fun _ => .rfl) fun i hi => ⟨hi.1, hstarts⟩
        · rcases hopened.left with ⟨-, ht, hshort⟩ | ⟨-, rfl⟩
          · exact ⟨hshort.size, hshort.empty⟩
          · exact ⟨hmade.created.empty, hmade.empty⟩

theorem WriteSpec.effect {f f' : TrashfsFile} {src : List Byte} {r : TrashfsResult} {done : Nat}
    (hs : Sound v) (hu : v.inodeUsed f.inode = true) (hd : isDirectory v f.inode = false)
    (h : WriteSpec v v' f f' src r done) :
    Effect v v' (fun _ => False) (· = f.inode) := by
  have hmode : ∀ i < v.inodeCount, inodeMode v' i = inodeMode v i := by
    intro i hi
    by_cases hii : i = f.inode
    · rw [hii]
      exact h.mode
    · exact (h.files i hi hii).mode
  refine ⟨h.layout, ?_, fun i hi _ _ => hmode i hi, fun i hi _ _ _ hne => h.files i hi hne,
    fun i hi hu hu' => ?_, fun _ => False.elim⟩
  · refine hs.of_same h.layout h.freeInodes h.mapped hmode (fun d hd' _ hdd => ?_)
      fun i hi' hui q hq hqi => ?_
    · refine h.files d hd' fun hdi => ?_
      rw [hdi, hd] at hdd
      cases hdd
    · rw [h.layout] at hq
      rw [h.other q hq fun hqf => ?_]
      · exact hs.idle i hi' hui q hq hqi
      · rw [← hqi, hqf, hu] at hui
        cases hui
  · rw [used_congr (hmode i hi), hu] at hu'
    cases hu'

theorem Entry.removal {parent off n : Nat} {name : List Byte} {type : Byte} (hs : Sound v)
    (h : Entry v parent off n name) (hr : Removed v v' parent off n)
    (hfull : v.resolveFull path = .ok (n, type)) :
    Effect v v' (fun i => TrashfsResult.ok = .ok ∧ ∃ t, v.resolveFull path = .ok (i, t))
      fun _ => False := by
  refine (h.effect hs hr).mono (fun i => ⟨fun hi => ⟨rfl, type, hi ▸ hfull⟩, ?_⟩) fun _ => id
  rintro ⟨-, t, ht⟩
  rw [hfull, Except.ok.injEq, Prod.mk.injEq] at ht
  exact ht.1.symm

theorem Effect.failed (hs : Sound v) {r : TrashfsResult} (hr : r ≠ .ok) :
    Effect v v (fun i => r = .ok ∧ ∃ t, v.resolveFull path = .ok (i, t)) fun _ => False :=
  .refl hs _ fun _ hg => hr hg.1

theorem unlink_effect (hs : Sound v) (path : List Byte) :
    Effect v (trashfsUnlink v path).2
      (fun i => (trashfsUnlink v path).1 = .ok ∧ ∃ t, v.resolveFull path = .ok (i, t))
      fun _ => False := by
  rcases unlink_cases hs path with ⟨e, he, heq⟩ | ⟨parent, name, hplace, hcase⟩
  · rw [heq]
    exact .failed hs (resolveParent_ne_ok he)
  · rcases hcase with ⟨-, heq⟩ | ⟨ino, -, heq⟩ | ⟨ino, type, off, v', hfind, -, -, heq, hentry, hr⟩
    · rw [heq]
      exact .failed hs nofun
    · rw [heq]
      exact .failed hs nofun
    · rw [heq]
      have hparent := resolveFull_of_parent hplace.resolved
      rw [hfind] at hparent
      exact hentry.removal hs hr hparent

theorem rmdir_effect (hs : Sound v) (path : List Byte) :
    Effect v (trashfsRmdir v path).2
      (fun i => (trashfsRmdir v path).1 = .ok ∧ ∃ t, v.resolveFull path = .ok (i, t))
      fun _ => False := by
  rcases rmdir_cases hs path with ⟨e, he, heq⟩ | ⟨ino, type, hfull, -, hcase⟩
  · rw [heq]
    refine .refl hs _ fun i hi => ?_
    obtain ⟨-, t, ht⟩ := hi
    rw [he] at ht
    cases ht
  · rcases hcase with ⟨-, heq⟩ | ⟨-, ⟨-, heq⟩ | ⟨-, ⟨-, heq⟩ | ⟨-, hcase⟩⟩⟩
    · rw [heq]
      exact .failed hs nofun
    · rw [heq]
      exact .failed hs nofun
    · rw [heq]
      exact .failed hs nofun
    · rcases hcase with ⟨e, he, heq⟩ | ⟨parent, name, off, v', -, -, heq, hentry, hr⟩
      · rw [heq]
        exact .failed hs (resolveParent_ne_ok he)
      · rw [heq]
        exact hentry.removal hs hr hfull

end Effects

/-! ## Handles -/

structure HandleOk (v : TrashfsVolume) (h : FsHandle) : Prop where
  lt : h.file.inode < v.inodeCount
  size : h.file.size < 2 ^ 32
  file : h.file.isDir = false → h.unlinked = false →
    v.inodeUsed h.file.inode = true ∧ isDirectory v h.file.inode = false

section Handles

variable {v v' : TrashfsVolume} {h h' : FsHandle} {gone changed : Nat → Prop}

theorem HandleOk.effect (hh : HandleOk v h) (he : Effect v v' gone changed)
    (hfile : h'.file = h.file)
    (hlive : h'.unlinked = false → h.unlinked = false ∧ ¬gone h.file.inode) : HandleOk v' h' := by
  obtain ⟨hlt, hsize, hused⟩ := hh
  refine ⟨?_, hfile.symm ▸ hsize, fun hd hu => ?_⟩
  · rw [hfile, he.layout]
    exact hlt
  · obtain ⟨hu', hgone⟩ := hlive hu
    rw [hfile] at hd ⊢
    obtain ⟨hiu, hid⟩ := hused hd hu'
    have hmode := he.mode _ hlt hiu hgone
    exact ⟨(used_congr hmode).trans hiu, (isDirectory_congr hmode).trans hid⟩

/-- The same file of the same size, and open only if it was. -/
structure MovedTo (f f' : TrashfsFile) : Prop where
  inode : f'.inode = f.inode
  size : f'.size = f.size
  isDir : f'.isDir = f.isDir
  isOpen : f'.isOpen = true → f.isOpen = true

theorem MovedTo.refl (f : TrashfsFile) : MovedTo f f := ⟨rfl, rfl, rfl, id⟩

theorem HandleOk.moved (hh : HandleOk v h) {f : TrashfsFile} (hm : MovedTo h.file f) :
    HandleOk v { h with file := f } := by
  obtain ⟨hlt, hsize, hused⟩ := hh
  refine ⟨?_, ?_, ?_⟩
  · dsimp only
    rw [hm.inode]
    exact hlt
  · dsimp only
    rw [hm.size]
    exact hsize
  · dsimp only
    rw [hm.inode, hm.isDir]
    exact hused

theorem trashfsRead_moved (v : TrashfsVolume) (f : TrashfsFile) (n : Nat) :
    MovedTo f (trashfsRead v f n).2.2 := by
  by_cases ho : f.isOpen = true
  · rw [trashfsRead_spec ho n]
    exact ⟨rfl, rfl, rfl, id⟩
  · unfold trashfsRead
    rw [if_neg ho]
    exact .refl f

theorem seek_moved (f : TrashfsFile) (np : Int) :
    MovedTo f (if np < 0 then (TrashfsResult.errInvalidArg, f)
      else if 0xFFFFFFFF < np then (.errInvalidArg, f)
      else (.ok, { f with pos := np.toNat })).2 := by
  split
  · exact .refl f
  · split <;> exact ⟨rfl, rfl, rfl, id⟩

theorem trashfsLseek_moved (f : TrashfsFile) (off : Int) (whence : Whence) :
    MovedTo f (trashfsLseek f off whence).2 := by
  unfold trashfsLseek
  by_cases ho : f.isOpen = true
  · rw [if_pos ho]
    exact seek_moved f _
  · rw [if_neg ho]
    exact .refl f

/-- A write through a handle is refused, or does what `WriteSpec` says to a regular file. -/
theorem write_cases (hs : Sound v) (hh : HandleOk v h) (hu : h.unlinked = false) (src : List Byte)
    (now : BitVec 32) :
    (¬(h.file.isOpen = true ∧ h.file.isDir = false) ∧
      trashfsWrite v h.file src now = (.errInvalidArg, 0, h.file, v)) ∨
    ∃ r done f' v', trashfsWrite v h.file src now = (r, done, f', v') ∧ h.file.isOpen = true ∧
      h.file.isDir = false ∧ WriteSpec v v' h.file f' src r done ∧
      Effect v v' (fun _ => False) (· = h.file.inode) := by
  by_cases ho : h.file.isOpen = true
  · cases hd : h.file.isDir with
    | false =>
      obtain ⟨hiu, hid⟩ := hh.file hd hu
      have hspec := trashfsWrite_spec src now hs.mapped hh.lt ho hd hh.size
      exact .inr ⟨_, _, _, _, rfl, ho, rfl, hspec, hspec.effect hs hiu hid⟩
    | true =>
      refine .inl ⟨fun hand => (by cases hand.2), ?_⟩
      unfold trashfsWrite
      rw [if_neg (not_not_intro ho), if_pos hd]
  · exact .inl ⟨fun hand => ho hand.1, if_pos ho⟩

theorem WriteSpec.handle_size {f f' : TrashfsFile} {src : List Byte} {r : TrashfsResult} {done : Nat}
    (h : WriteSpec v v' f f' src r done) (hs : f.size < 2 ^ 32) :
    f'.inode = f.inode ∧ f'.isDir = f.isDir ∧ f'.size < 2 ^ 32 := by
  have hlimit := h.limit
  rw [h.handle]
  refine ⟨rfl, rfl, ?_⟩
  unfold TrashfsFile.advance
  unfold trashfsMaxFile at hlimit
  dsimp only
  split <;> omega

end Handles

/-! ## Invariants of runs -/

/-- No write goes through a handle on an unlinked file. -/
def LiveWrites (s : FsState) : FsCall → Prop
  | .write fd _ _ => ∀ h, s.handles fd = some h → h.unlinked = false
  | _ => True

structure FsInv (s : FsState) : Prop where
  sound : Sound s.vol
  handles : ∀ fd h, s.handles fd = some h → HandleOk s.vol h

section Invariant

variable {s s' : FsState} {e : FsCall}

theorem update_some {handles : Nat → Option FsHandle} {fd fd' : Nat} {h h' : FsHandle}
    (heq : update handles fd (some h) fd' = some h') :
    (fd' = fd ∧ h' = h) ∨ (fd' ≠ fd ∧ handles fd' = some h') := by
  by_cases hfd : fd' = fd
  · subst hfd
    rw [Function.update_self, Option.some.injEq] at heq
    exact .inl ⟨rfl, heq.symm⟩
  · rw [Function.update_of_ne hfd] at heq
    exact .inr ⟨hfd, heq⟩

theorem markUnlinked_some {path : List Byte} {fd : Nat} {h' : FsHandle}
    (heq : s.markUnlinked path fd = some h') :
    ∃ h, s.handles fd = some h ∧ h'.file = h.file ∧ (h'.unlinked = false →
      h.unlinked = false ∧ ∀ t, s.vol.resolveFull path ≠ .ok (h.file.inode, t)) := by
  unfold FsState.markUnlinked at heq
  obtain ⟨h, hh, rfl⟩ := Option.map_eq_some_iff.mp heq
  refine ⟨h, hh, ?_⟩
  cases hres : s.vol.resolveFull path with
  | error e => exact ⟨rfl, fun hu => ⟨hu, nofun⟩⟩
  | ok it =>
    obtain ⟨ino, t⟩ := it
    dsimp only
    by_cases hi : h.file.inode = ino
    · rw [if_pos hi]
      refine ⟨rfl, fun hu => ?_⟩
      cases hu
    · rw [if_neg hi]
      refine ⟨rfl, fun hu => ⟨hu, fun t' heq => hi ?_⟩⟩
      rw [Except.ok.injEq, Prod.mk.injEq] at heq
      exact heq.1.symm

theorem FsInv.removed (h : FsInv s) {r : TrashfsResult} {v' : TrashfsVolume} {path : List Byte}
    {changed : Nat → Prop}
    (he : Effect s.vol v' (fun i => r = .ok ∧ ∃ t, s.vol.resolveFull path = .ok (i, t)) changed) :
    FsInv { s with vol := v', handles := if r = .ok then s.markUnlinked path else s.handles } := by
  refine ⟨he.sound, fun fd h' heq => ?_⟩
  dsimp only at heq
  split at heq
  · obtain ⟨h₀, hh₀, hfile, hlive⟩ := markUnlinked_some heq
    refine (h.handles fd h₀ hh₀).effect he hfile fun hu => ?_
    obtain ⟨hu₀, hnot⟩ := hlive hu
    refine ⟨hu₀, ?_⟩
    rintro ⟨-, t, ht⟩
    exact hnot t ht
  · next hr => exact (h.handles fd h' heq).effect he rfl fun hu => ⟨hu, fun hg => hr hg.1⟩

theorem FsInv.kept (h : FsInv s) {v' : TrashfsVolume} {changed : Nat → Prop}
    (he : Effect s.vol v' (fun _ => False) changed) : FsInv { s with vol := v' } :=
  ⟨he.sound, fun fd h' hh => (h.handles fd h' hh).effect he rfl fun hu => ⟨hu, id⟩⟩

theorem FsInv.replaced (h : FsInv s) {v' : TrashfsVolume} {fd : Nat} {h' : FsHandle}
    {files : Nat → SparseFile} {changed : Nat → Prop}
    (he : Effect s.vol v' (fun _ => False) changed) (hh : HandleOk v' h') :
    FsInv { vol := v', handles := update s.handles fd (some h'), files := files } := by
  refine ⟨he.sound, fun fd' h₁ heq => ?_⟩
  rcases update_some heq with ⟨-, rfl⟩ | ⟨-, hold⟩
  · exact hh
  · exact (h.handles fd' h₁ hold).effect he rfl fun hu => ⟨hu, id⟩

theorem OpenOk.handleOk {v v' : TrashfsVolume} {path : List Byte} {flags : OpenFlags}
    {f : TrashfsFile} (h : OpenOk v v' path flags f) : HandleOk v' ⟨f, false⟩ := by
  refine ⟨h.lt, ?_, fun hd _ => h.file hd⟩
  dsimp only
  rw [h.size]
  exact BitVec.isLt _

/-! ### The calls through a handle -/

section Through

variable {fd n : Nat} {h : FsHandle} {src : List Byte} {now : BitVec 32} {off : Int}
  {whence : Whence}

theorem call_write (hh : s.handles fd = some h) {r : TrashfsResult} {done : Nat} {f : TrashfsFile}
    {v : TrashfsVolume} (heq : trashfsWrite s.vol h.file src now = (r, done, f, v)) :
    s.call (.write fd src now) = (r,
      { vol := v
        handles := update s.handles fd (some { h with file := f })
        files := update s.files h.file.inode
          ((s.files h.file.inode).write h.file.pos (src.take done)) }) := by
  unfold FsState.call
  dsimp only
  rw [hh]
  dsimp only
  rw [heq]

theorem call_lseek (hh : s.handles fd = some h) : (s.call (.lseek fd off whence)).2 = { s with
    handles := update s.handles fd
      (some { h with file := (trashfsLseek h.file off whence).2 }) } := by
  unfold FsState.call
  dsimp only
  rw [hh]

/-- A call through the handle `fd`. -/
def Through (fd : Nat) : FsCall → Prop
  | .read fd' _ | .write fd' _ _ | .lseek fd' _ _ | .close fd' => fd' = fd
  | _ => False

theorem call_none (hh : s.handles fd = none) (he : Through fd e) : (s.call e).2 = s := by
  unfold FsState.call
  cases e with
  | mkdir | «open» | unlink | rmdir => exact he.elim
  | read | write | lseek | close =>
    obtain rfl : _ = fd := he
    dsimp only
    rw [hh]

end Through

/-- The calls that change nothing but a handle. -/
def FsCall.Moves : FsCall → Prop
  | .read .. | .lseek .. | .close _ => True
  | _ => False

theorem call_moves (he : e.Moves) : (s.call e).2 = s ∨ ∃ fd h f, s.handles fd = some h ∧
    MovedTo h.file f ∧
      (s.call e).2 = { s with handles := update s.handles fd (some { h with file := f }) } := by
  cases e with
  | read fd n | lseek fd off whence | close fd =>
    unfold FsState.call
    dsimp only
    cases hh : s.handles fd with
    | none => exact .inl rfl
    | some h =>
      refine .inr ⟨fd, h, _, hh, ?_, rfl⟩
      first
        | exact trashfsRead_moved ..
        | exact trashfsLseek_moved ..
        | exact ⟨rfl, rfl, rfl, nofun⟩
  | mkdir | «open» | write | unlink | rmdir => exact he.elim

theorem FsInv.call (h : FsInv s) (hok : LiveWrites s e) : FsInv (s.call e).2 := by
  have hs := h.sound
  by_cases hmoves : e.Moves
  · rcases call_moves (s := s) hmoves with heq | ⟨fd, h₀, f, hh, hm, heq⟩
    · rw [heq]
      exact h
    · rw [heq]
      exact h.replaced (.refl hs (fun _ => False) fun _ => id) ((h.handles fd h₀ hh).moved hm)
  cases e with
  | mkdir path now => exact h.kept (mkdir_effect hs path now)
  | «open» fd path flags =>
    unfold FsState.call
    dsimp only
    rcases open_effect hs path flags with ⟨err, v', heq, he⟩ | ⟨f, v', heq, hopen⟩
    · rw [heq]
      exact h.kept he
    · rw [heq]
      exact h.replaced hopen.effect hopen.handleOk
  | write fd src now =>
    cases hh : s.handles fd with
    | none =>
      rw [call_none (e := .write fd src now) hh rfl]
      exact h
    | some h₀ =>
      have hok₀ := h.handles fd h₀ hh
      rcases write_cases hs hok₀ (hok h₀ hh) src now with
        ⟨-, heq⟩ | ⟨r, done, f', v', heq, -, -, hspec, he⟩
      · rw [call_write hh heq]
        exact h.replaced (.refl hs (fun _ => False) fun _ => id) (hok₀.moved (.refl _))
      · rw [call_write hh heq]
        obtain ⟨hi, hd, hsize⟩ := hspec.handle_size hok₀.size
        have hmoved := hok₀.effect he rfl fun hu => ⟨hu, id⟩
        refine h.replaced he ⟨?_, hsize, ?_⟩
        · dsimp only
          rw [hi]
          exact hmoved.lt
        · dsimp only
          rw [hi, hd]
          exact hmoved.file
  | read | lseek | close => exact absurd trivial hmoves
  | unlink path => exact h.removed (unlink_effect hs path)
  | rmdir path => exact h.removed (rmdir_effect hs path)

theorem FsInv.start {v : TrashfsVolume} (hs : Sound v) : FsInv (FsState.start v) := ⟨hs, nofun⟩

theorem FsInv.run {es : List FsCall} (h : FsInv s) (hok : Meets FsState.step LiveWrites s es)
    (hrun : run FsState.step s es = some s') : FsInv s' :=
  run_invariant (fun s e s' hs hok heq => by
    rw [FsState.step, Option.some.injEq] at heq
    exact heq ▸ hs.call hok) h hok hrun

end Invariant

end Microgarbage.Storage
