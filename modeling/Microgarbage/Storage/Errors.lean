import Microgarbage.Storage.Sharing

/-!
# Calls that fail

A call that returns an error leaves names, files and counts as they were, unless it needs a block and
some are free: what `bmap_alloc` took on the way to the block that is missing stays allocated. A write
that fails stores the size that its handle knows all the same.
-/

namespace Microgarbage.Storage

open Lib
open TrashfsVolume (direntInode)

variable {s s' : FsState} {e : FsCall} {v v' v₁ : TrashfsVolume} {path : List Byte}

/-- Every path leads where it led, every file has its size and bytes, the counts are the same. -/
structure Unchanged (v v' : TrashfsVolume) : Prop where
  tree : ∀ path, v'.resolveFull path = v.resolveFull path
  used : ∀ i < v.inodeCount, v'.inodeUsed i = v.inodeUsed i
  sizes : ∀ i < v.inodeCount, v.inodeUsed i = true → v'.dirSize i = v.dirSize i
  bytes : ∀ i < v.inodeCount, v.inodeUsed i = true → ∀ off < v.dirSize i,
    fileByte v' i off = fileByte v i off
  freeBlocks : v'.freeBlocks = v.freeBlocks
  freeInodes : v'.freeInodes = v.freeInodes

theorem Unchanged.refl (v : TrashfsVolume) : Unchanged v v :=
  ⟨fun _ => rfl, fun _ _ => rfl, fun _ _ _ => rfl, fun _ _ _ _ _ => rfl, rfl, rfl⟩

/-! ## Paths over directories that did not change -/

theorem dirFindIn_congr {d : Nat} {name : List Byte} (hname : name.length ≤ 32)
    (h : SameFile v v' d) : v'.dirFindIn d name = v.dirFindIn d name := by
  have hslots : slotNamed v' d name = slotNamed v d name := by
    unfold slotNamed dirSlots
    rw [h.size, h.fileByte]
  rw [dirFindIn_eq hname, dirFindIn_eq hname, hslots, h.fileByte]

theorem stepPath_congr (hs : Sound v)
    (hdirs : ∀ d < v.inodeCount, v.inodeUsed d = true → isDirectory v d = true → SameFile v v' d)
    {allow : Bool} {stack : List Nat} {cur : Nat} {type : Byte} {names : List (List Byte)}
    (hnames : ∀ c ∈ names, c.length ≤ 32) (hstack : ∀ d ∈ stack, NodeOk v d trashfsTypeDir)
    (hcur : names ≠ [] → NodeOk v cur trashfsTypeDir) :
    v'.stepPath allow stack cur type names = v.stepPath allow stack cur type names := by
  induction names generalizing stack cur type with
  | nil => rfl
  | cons c rest ih =>
    have hrest : ∀ c ∈ rest, c.length ≤ 32 := fun c hc => hnames c (List.mem_cons_of_mem _ hc)
    have hc := hcur (List.cons_ne_nil _ _)
    unfold TrashfsVolume.stepPath
    by_cases hdot : c = [dot]
    · rw [if_pos hdot, if_pos hdot]
      exact ih hrest hstack fun _ => hc
    · rw [if_neg hdot, if_neg hdot]
      by_cases hup : c = [dot, dot]
      · rw [if_pos hup, if_pos hup]
        dsimp only
        have hstack' : ∀ d ∈ (if stack.tail = [] then stack else stack.tail),
            NodeOk v d trashfsTypeDir := by
          split
          · exact hstack
          · exact fun d hd => hstack d (List.mem_of_mem_tail hd)
        refine ih hrest hstack' fun _ => ?_
        generalize (if stack.tail = [] then stack else stack.tail) = stack' at hstack' ⊢
        cases stack' with
        | nil => exact hs.rootOk
        | cons d stack' => exact hstack' d (List.mem_cons_self ..)
      · rw [if_neg hup, if_neg hup]
        have hsame := hdirs cur hc.lt hc.used (hc.type.mp rfl)
        have hlen := hnames c (List.mem_cons_self ..)
        rw [dirFindIn_congr hlen hsame]
        cases hfind : v.dirFindIn cur c with
        | none => rfl
        | some it =>
          obtain ⟨ino, t⟩ := it
          have hnode := (hs.find hc hlen hfind).1
          dsimp only
          by_cases hmore : rest ≠ [] ∨ (!allow) = true
          · rw [if_pos hmore, if_pos hmore]
            by_cases ht : t = trashfsTypeDir
            · rw [if_neg (not_not_intro ht), if_neg (not_not_intro ht)]
              by_cases hdeep : trashfsPathDepth ≤ stack.length
              · rw [if_pos hdeep, if_pos hdeep]
              · rw [if_neg hdeep, if_neg hdeep]
                refine ih hrest (fun d hd => ?_) fun _ => ht ▸ hnode
                rcases List.mem_cons.mp hd with rfl | hmem
                · exact ht ▸ hnode
                · exact hstack d hmem
            · rw [if_pos ht, if_pos ht]
          · rw [if_neg hmore, if_neg hmore]
            rw [not_or, not_not] at hmore
            exact ih hrest hstack fun hne => absurd hmore.1 hne

theorem resolveFull_congr (hs : Sound v)
    (hdirs : ∀ d < v.inodeCount, v.inodeUsed d = true → isDirectory v d = true → SameFile v v' d)
    (path : List Byte) : v'.resolveFull path = v.resolveFull path := by
  unfold TrashfsVolume.resolveFull
  cases htok : pathTokenize path with
  | error e => rfl
  | ok names =>
    exact stepPath_congr hs hdirs (pathTokenize_ok htok).2.1
      (fun d hd => List.mem_singleton.mp hd ▸ hs.rootOk) fun _ => hs.rootOk

theorem Unchanged.of_same (hs : Sound v)
    (hmode : ∀ i < v.inodeCount, inodeMode v' i = inodeMode v i)
    (hfiles : ∀ i < v.inodeCount, v.inodeUsed i = true → SameFile v v' i)
    (hb : v'.freeBlocks = v.freeBlocks) (hi : v'.freeInodes = v.freeInodes) : Unchanged v v' :=
  ⟨resolveFull_congr hs fun d hd hu _ => hfiles d hd hu, fun i hi => used_congr (hmode i hi),
    fun i hi hu => (hfiles i hi hu).size, fun i hi hu off _ => (hfiles i hi hu).bytes off, hb, hi⟩

/-! ## New names -/

theorem leafPos_ne_none {ino pos : Nat} : leafPos ino (pos / 128) ≠ none ↔ pos < trashfsMaxFile := by
  rw [← Option.isSome_iff_ne_none, Option.isSome_iff_exists, leafPos_some_iff]
  unfold trashfsMaxFile
  omega

/-- A name that cannot be made for lack of space, and the count of free blocks. -/
theorem CreateFailed.unchanged_iff {parent : Nat} (hs : Sound v) (h : CreateFailed v v' parent) :
    Unchanged v v' ↔ v.freeInodes = 0 ∨ v.freeBlocks = 0 ∨
      trashfsMaxFile ≤ direntAlign (v.dirSize parent) := by
  have hm := hs.mapped
  have hfull : Full v ↔ v.freeBlocks = 0 := by rw [full_iff hm.ordered, hm.free]
  have hfull' : Full v' ↔ v'.freeBlocks = 0 := by rw [full_iff h.mapped.ordered, h.mapped.free]
  constructor
  · intro hsame
    rcases h.cause with ⟨hzero, -⟩ | ⟨-, ⟨-, hf⟩ | ⟨hmax, -⟩⟩
    · rw [hs.freeInodes]
      exact .inl hzero
    · rw [← hsame.freeBlocks]
      exact .inr (.inl (hfull'.mp hf))
    · refine .inr (.inr (Nat.not_lt.mp fun hlt => leafPos_ne_none.mpr hlt hmax))
  · intro hcond
    have heq : v' = v := by
      rcases h.cause with ⟨-, heq⟩ | ⟨hunused, ⟨hmax, -⟩ | ⟨-, heq⟩⟩
      · exact heq
      · rcases hcond with hzero | hzero | hbig
        · rw [hs.freeInodes] at hzero
          omega
        · exact h.same (hfull.mpr hzero)
        · exact absurd (leafPos_ne_none.mp hmax) (Nat.not_lt.mpr hbig)
      · exact heq
    rw [heq]
    exact .refl v

/-! ## Writes -/

/-- A write that fails writes no byte, and allocates blocks to no avail. -/
structure WriteFailed (v v' : TrashfsVolume) (f : TrashfsFile) : Prop where
  freeInodes : v'.freeInodes = v.freeInodes
  mode : ∀ i < v.inodeCount, inodeMode v' i = inodeMode v i
  size : v'.dirSize f.inode = f.size
  bytes : ∀ off, fileByte v' f.inode off = fileByte v f.inode off
  files : ∀ i < v.inodeCount, i ≠ f.inode → SameFile v v' i
  freeBlocks : v'.freeBlocks = v.freeBlocks ↔ v.freeBlocks = 0 ∨ trashfsMaxFile ≤ f.pos

theorem trashfsWrite_failed {f f' : TrashfsFile} {src : List Byte} {now : BitVec 32} {done : Nat}
    (hm : Mapped v) (hi : f.inode < v.inodeCount) (ho : f.isOpen = true) (hd : f.isDir = false)
    (hsize : f.size < 2 ^ 32) (hw : trashfsWrite v f src now = (.errNoSpace, done, f', v')) :
    WriteFailed v v' f := by
  have hspec := trashfsWrite_spec src now hm hi ho hd hsize
  rw [hw] at hspec
  dsimp only at hspec
  have hzero : done = 0 ∧ src ≠ [] := by
    have hres := hspec.result
    by_contra hne
    rw [if_neg hne] at hres
    cases hres
  have hf' : f' = f := by
    rw [hspec.handle, hzero.1]
    unfold TrashfsFile.advance
    rw [if_pos rfl]
    rfl
  refine ⟨hspec.freeInodes, fun i hi' => ?_, hspec.size.trans (by rw [hf']), fun off => ?_,
    hspec.files, ?_⟩
  · by_cases hii : i = f.inode
    · rw [hii]
      exact hspec.mode
    · exact (hspec.files i hi' hii).mode
  · rw [hspec.bytes off, hzero.1, if_neg (by omega)]
  · obtain ⟨w, hloop, hfree⟩ : ∃ w, writeLoop (v.inodePtr f.inode) src.length v f src =
        (done, w, f') ∧ v'.freeBlocks = w.freeBlocks := by
      unfold trashfsWrite at hw
      rw [if_neg (not_not_intro ho), if_neg (by rw [hd]; nofun)] at hw
      dsimp only at hw
      rw [Prod.mk.injEq, Prod.mk.injEq, Prod.mk.injEq] at hw
      obtain ⟨-, hdone, hfile, hvol⟩ := hw
      exact ⟨_, Prod.ext hdone (Prod.ext rfl hfile), by rw [← hvol]⟩
    rw [hfree]
    obtain ⟨c, rest, rfl⟩ := List.exists_cons_of_ne_nil hzero.2
    cases hp : leafPos f.inode (f.pos / 128) with
    | none =>
      rw [List.length_cons, writeLoop_short hzero.2 (bmapAlloc_none hp), Prod.mk.injEq,
        Prod.mk.injEq] at hloop
      rw [← hloop.2.1]
      have hmax := Nat.not_lt.mp fun hlt => leafPos_ne_none.mpr hlt hp
      exact iff_of_true rfl (.inr hmax)
    | some p =>
      have hlt : f.pos < trashfsMaxFile := leafPos_ne_none.mp (by rw [hp]; nofun)
      have he := bmapAlloc_spec hm hi hp
      rcases hb : v.bmapAlloc (v.inodePtr f.inode) (f.pos / 128) with ⟨b, v₁⟩
      rw [hb] at he
      dsimp only at he
      by_cases hne : b = 0
      · subst hne
        rw [List.length_cons, writeLoop_short hzero.2 hb, Prod.mk.injEq, Prod.mk.injEq] at hloop
        rw [← hloop.2.1, he.mapped.free, (full_iff he.mapped.ordered).mp (he.full rfl)]
        omega
      · have hlen : min (c :: rest).length (128 - f.pos % 128) ≠ 0 := by
          rw [List.length_cons]
          omega
        rw [List.length_cons, writeLoop_chunk hzero.2 hb hne rfl, Prod.mk.injEq, hzero.1] at hloop
        omega

/-! ## All calls -/

/-- If the path leads to a new name, there is no inode for it, no free block at all, or no room in
the largest directory. -/
def NoRoom (v : TrashfsVolume) (path : List Byte) : Prop :=
  ∀ parent name, v.resolveParent path = .ok (parent, name) → v.dirFindIn parent name = none →
    v.freeInodes = 0 ∨ v.freeBlocks = 0 ∨ trashfsMaxFile ≤ direntAlign (v.dirSize parent)

/-- The call needs no block, or none is free, and a handle that is written through knows the size. -/
def CleanFailure (s : FsState) : FsCall → Prop
  | .mkdir path _ => NoRoom s.vol path
  | .open _ path flags => flags.creat = true → NoRoom s.vol path
  | .write fd _ _ => ∀ h, s.handles fd = some h → h.file.isOpen = true → h.file.isDir = false →
      (s.vol.freeBlocks = 0 ∨ trashfsMaxFile ≤ h.file.pos) ∧
        (s.vol.inodeUsed h.file.inode = true → s.vol.dirSize h.file.inode = h.file.size)
  | _ => True

theorem noRoom_of_error {err : TrashfsResult} (h : v.resolveParent path = .error err) :
    NoRoom v path := by
  intro parent name hok
  rw [h] at hok
  cases hok

theorem noRoom_of_found {parent : Nat} {name : List Byte} {it : Nat × Byte}
    (hp : Place v path parent name) (h : v.dirFindIn parent name = some it) : NoRoom v path := by
  intro p nm hok hnone
  rw [hp.resolved, Except.ok.injEq, Prod.mk.injEq] at hok
  rw [← hok.1, ← hok.2, h] at hnone
  cases hnone

theorem noRoom_iff {parent : Nat} {name : List Byte} (hp : Place v path parent name)
    (h : v.dirFindIn parent name = none) : NoRoom v path ↔
      v.freeInodes = 0 ∨ v.freeBlocks = 0 ∨ trashfsMaxFile ≤ direntAlign (v.dirSize parent) := by
  refine ⟨fun hroom => hroom parent name hp.resolved h, fun hcond p nm hok _ => ?_⟩
  rw [hp.resolved, Except.ok.injEq, Prod.mk.injEq] at hok
  rw [← hok.1]
  exact hcond

theorem WriteFailed.unchanged_iff {f : TrashfsFile} (hs : Sound v) (hi : f.inode < v.inodeCount)
    (h : WriteFailed v v' f) : Unchanged v v' ↔
      (v.freeBlocks = 0 ∨ trashfsMaxFile ≤ f.pos) ∧
        (v.inodeUsed f.inode = true → v.dirSize f.inode = f.size) := by
  constructor
  · intro hsame
    refine ⟨h.freeBlocks.mp hsame.freeBlocks, fun hu => ?_⟩
    rw [← hsame.sizes f.inode hi hu, h.size]
  · rintro ⟨hroom, hsize⟩
    refine .of_same hs h.mode (fun i hi' hu => ?_) (h.freeBlocks.mpr hroom) h.freeInodes
    by_cases hii : i = f.inode
    · subst hii
      exact ⟨h.mode _ hi, h.size.trans (hsize hu).symm, h.bytes⟩
    · exact h.files i hi' hii

theorem mkdir_failed (hs : Sound v) {now : BitVec 32} (he : (trashfsMkdir v path now).1 ≠ .ok) :
    Unchanged v (trashfsMkdir v path now).2 ↔ NoRoom v path := by
  rcases mkdir_cases hs path now with ⟨err, hres, heq⟩ | ⟨parent, name, hplace, hcase⟩
  · rw [heq]
    exact iff_of_true (.refl v) (noRoom_of_error hres)
  · rcases hcase with ⟨it, hfind, heq⟩ | ⟨hnone, ⟨v', heq, hfailed⟩ | ⟨off, n, v', heq, -⟩⟩
    · rw [heq]
      exact iff_of_true (.refl v) (noRoom_of_found hplace hfind)
    · rw [heq, noRoom_iff hplace hnone]
      exact hfailed.unchanged_iff hs
    · rw [heq] at he
      exact absurd rfl he

theorem open_failed (hs : Sound v) {flags : OpenFlags} {err : TrashfsResult}
    (he : trashfsOpen v path flags = (.error err, v')) :
    Unchanged v v' ↔ (flags.creat = true → NoRoom v path) := by
  rcases open_cases hs path flags with ⟨err', hres, heq⟩ | ⟨parent, name, hplace, hcase⟩
  · rw [he, Prod.mk.injEq] at heq
    rw [heq.2]
    exact iff_of_true (.refl v) fun _ => noRoom_of_error hres
  · rcases hcase with ⟨ino, type, f, w, -, -, heq, -⟩ | ⟨hnone, hcase⟩
    · rw [he] at heq
      cases heq
    · rcases hcase with ⟨hcreat, heq⟩ | ⟨hcreat, ⟨w, heq, hfailed⟩ | ⟨off, n, w, f, w', -, heq, -⟩⟩
      · rw [he, Prod.mk.injEq] at heq
        rw [heq.2, hcreat]
        exact iff_of_true (.refl v) nofun
      · rw [he, Prod.mk.injEq] at heq
        rw [heq.2, hfailed.unchanged_iff hs, noRoom_iff hplace hnone]
        exact ⟨fun hc _ => hc, fun hc => hc hcreat⟩
      · rw [he] at heq
        cases heq

theorem unlink_failed (hs : Sound v) (he : (trashfsUnlink v path).1 ≠ .ok) :
    (trashfsUnlink v path).2 = v := by
  rcases unlink_cases hs path with ⟨err, -, heq⟩ | ⟨parent, name, -, hcase⟩
  · rw [heq]
  · rcases hcase with ⟨-, heq⟩ | ⟨ino, -, heq⟩ | ⟨ino, type, off, v', -, -, -, heq, -⟩
    · rw [heq]
    · rw [heq]
    · rw [heq] at he
      exact absurd rfl he

theorem rmdir_failed (hs : Sound v) (he : (trashfsRmdir v path).1 ≠ .ok) :
    (trashfsRmdir v path).2 = v := by
  rcases rmdir_cases hs path with ⟨err, -, heq⟩ | ⟨ino, type, -, -, hcase⟩
  · rw [heq]
  · rcases hcase with ⟨-, heq⟩ | ⟨-, ⟨-, heq⟩ | ⟨-, ⟨-, heq⟩ | ⟨-, hcase⟩⟩⟩
    · rw [heq]
    · rw [heq]
    · rw [heq]
    · rcases hcase with ⟨err, -, heq⟩ | ⟨parent, name, off, v', -, -, heq, -⟩
      · rw [heq]
      · rw [heq] at he
        exact absurd rfl he

theorem call_moves_vol (he : e.Moves) : (s.call e).2.vol = s.vol := by
  rcases call_moves he with heq | ⟨fd, h, f, -, -, heq⟩ <;> rw [heq]

/-- A failed call on a sound volume leaves it as it was exactly if it needed no free block. -/
theorem FsInv.failed_iff (h : FsInv s) (he : (s.call e).1 ≠ .ok) :
    Unchanged s.vol (s.call e).2.vol ↔ CleanFailure s e := by
  have hs := h.sound
  cases e with
  | mkdir path now => exact mkdir_failed hs he
  | «open» fd path flags =>
    unfold FsState.call at he ⊢
    dsimp only at he ⊢
    rcases ho : trashfsOpen s.vol path flags with ⟨r, v'⟩
    rw [ho] at he
    cases r with
    | error err => exact open_failed hs ho
    | ok f => exact absurd rfl he
  | write fd src now =>
    cases hh : s.handles fd with
    | none =>
      rw [call_none (e := .write fd src now) hh rfl]
      refine iff_of_true (.refl s.vol) fun h₀ hh₀ => ?_
      rw [hh] at hh₀
      cases hh₀
    | some h₀ =>
      have hok := h.handles fd h₀ hh
      have hcond : CleanFailure s (.write fd src now) ↔ (h₀.file.isOpen = true →
          h₀.file.isDir = false → (s.vol.freeBlocks = 0 ∨ trashfsMaxFile ≤ h₀.file.pos) ∧
            (s.vol.inodeUsed h₀.file.inode = true →
              s.vol.dirSize h₀.file.inode = h₀.file.size)) := by
        refine ⟨fun hc => hc h₀ hh, fun hc h₁ hh₁ => ?_⟩
        rw [hh, Option.some.injEq] at hh₁
        exact hh₁ ▸ hc
      rw [hcond]
      by_cases hactive : h₀.file.isOpen = true ∧ h₀.file.isDir = false
      · rcases hw : trashfsWrite s.vol h₀.file src now with ⟨r, done, f', v'⟩
        have hr : r = .errNoSpace := by
          have hspec := trashfsWrite_spec src now hs.mapped hok.lt hactive.1
            hactive.2 hok.size
          rw [call_write hh hw] at he
          rw [hw] at hspec
          have hres := hspec.result
          dsimp only at hres he
          split at hres
          · exact hres
          · exact absurd hres he
        subst hr
        rw [call_write hh hw,
          (trashfsWrite_failed hs.mapped hok.lt hactive.1 hactive.2 hok.size hw).unchanged_iff hs hok.lt]
        exact ⟨fun hc _ _ => hc, fun hc => hc hactive.1 hactive.2⟩
      · rw [call_write hh (trashfsWrite_refused hactive)]
        exact iff_of_true (.refl s.vol) fun ho hd => absurd ⟨ho, hd⟩ hactive
  | read | lseek | close =>
    rw [call_moves_vol]
    · exact iff_of_true (.refl s.vol) trivial
    · exact trivial
  | unlink path =>
    have hsame : (s.call (.unlink path)).2.vol = s.vol := unlink_failed hs he
    rw [hsame]
    exact iff_of_true (.refl s.vol) trivial
  | rmdir path =>
    have hsame : (s.call (.rmdir path)).2.vol = s.vol := rmdir_failed hs he
    rw [hsame]
    exact iff_of_true (.refl s.vol) trivial

theorem Vacant.failed_iff (h : Vacant s) (he : (s.call e).1 ≠ .ok) :
    Unchanged s.vol (s.call e).2.vol ↔ CleanFailure s e := by
  obtain ⟨hv, hh⟩ := h
  have hroom : ∀ path, NoRoom s.vol path := fun path _ _ _ _ => .inl hv.freeInodes
  cases e with
  | mkdir path now =>
    have hsame : (s.call (.mkdir path now)).2.vol = s.vol := hv.mkdir path
    rw [hsame]
    exact iff_of_true (.refl s.vol) (hroom path)
  | «open» fd path flags =>
    obtain ⟨err, heq⟩ := hv.open path flags
    unfold FsState.call
    dsimp only
    rw [heq]
    exact iff_of_true (.refl s.vol) fun _ => hroom path
  | write fd src now =>
    rw [call_none (e := .write fd src now) (hh fd) rfl]
    refine iff_of_true (.refl s.vol) fun h₀ hh₀ => ?_
    rw [hh fd] at hh₀
    cases hh₀
  | read fd | lseek fd | close fd =>
    rw [call_none (hh fd)]
    · exact iff_of_true (.refl s.vol) trivial
    · exact rfl
  | unlink path =>
    have hsame : (s.call (.unlink path)).2.vol = s.vol := hv.unlink path
    rw [hsame]
    exact iff_of_true (.refl s.vol) trivial
  | rmdir path =>
    have hsame : (s.call (.rmdir path)).2.vol = s.vol := hv.rmdir path
    rw [hsame]
    exact iff_of_true (.refl s.vol) trivial

/-- In every state that a formatted volume reaches without writes to unlinked files, a call that fails
leaves the volume as it was exactly if the failure was clean. -/
theorem run_failed_iff {m : Mem} {n hint now : BitVec 32} (hf : FormattedFrom m n hint now v)
    {es : List FsCall} (hok : Meets FsState.step LiveWrites (FsState.start v) es)
    (hrun : run FsState.step (FsState.start v) es = some s) (he : (s.call e).1 ≠ .ok) :
    Unchanged s.vol (s.call e).2.vol ↔ CleanFailure s e := by
  by_cases hhint : hint = 0xFFFFFFFF
  · subst hhint
    have hvacant : Vacant (FsState.start v) := ⟨hf.noInodes, fun _ => rfl⟩
    exact (hvacant.run hrun).failed_iff he
  · exact ((FsInv.start (hf.sound hhint)).run hok hrun).failed_iff he

/-- A name that does not exist cannot be removed. -/
theorem run_failed_iff_small : ∃ v, FormattedFrom (fun _ => 0) 16384 0 0 v ∧
    (Unchanged v ((FsState.start v).call (.unlink [102])).2.vol ↔
      CleanFailure (FsState.start v) (.unlink [102])) := by
  have hok : (trashfsFormat (fun _ => 0) 16384 0 0).1 = .ok := by decide +kernel
  have hfail : (trashfsMount (trashfsFormat (fun _ => 0) 16384 0 0).2 16384).toOption.map
      (fun v => ((FsState.start v).call (.unlink [102])).1) = some .errNotFound := by
    decide +kernel
  obtain ⟨v, hv, -⟩ := (format_usable_iff hok).mpr (by decide)
  rw [hv] at hfail
  have hf : FormattedFrom (fun _ => 0) 16384 0 0 v := ⟨hok, hv⟩
  have hmeets : Meets FsState.step LiveWrites (FsState.start v) [] := trivial
  have hrun : run FsState.step (FsState.start v) [] = some (FsState.start v) := rfl
  have herr : ((FsState.start v).call (.unlink [102])).1 = .errNotFound := Option.some.inj hfail
  refine ⟨v, hf, run_failed_iff hf hmeets hrun ?_⟩
  rw [herr]
  nofun

/-- Create `f` on a volume with one free block, and seek to the first block that needs a pointer
block. -/
def seekIndirect : List FsCall :=
  [.open 0 [102] ⟨true, false, false⟩, .lseek 0 1024 .set]

/-- The pointer block takes the last free block, and the write fails. -/
theorem failed_write_takes_block : ∃ v s, FormattedFrom (fun _ => 0) 16384 248 0 v ∧
    run FsState.step (FsState.start v) seekIndirect = some s ∧
    (s.call (.write 0 [1] 0)).1 = .errNoSpace ∧
    s.vol.freeBlocks = 1 ∧ (s.call (.write 0 [1] 0)).2.vol.freeBlocks = 0 ∧
    ¬Unchanged s.vol (s.call (.write 0 [1] 0)).2.vol := by
  have hok : (trashfsFormat (fun _ => 0) 16384 248 0).1 = .ok := by decide +kernel
  have hcounts : (trashfsMount (trashfsFormat (fun _ => 0) 16384 248 0).2 16384).toOption.map
      (fun v => (run FsState.step (FsState.start v) seekIndirect).map fun s =>
        ((s.call (.write 0 [1] 0)).1, s.vol.freeBlocks,
          (s.call (.write 0 [1] 0)).2.vol.freeBlocks)) = some (some (.errNoSpace, 1, 0)) := by
    decide +kernel
  obtain ⟨v, hv, -⟩ := (format_usable_iff hok).mpr (by decide)
  rw [hv] at hcounts
  obtain ⟨s, hs, heq⟩ := Option.map_eq_some_iff.mp (Option.some.inj hcounts)
  rw [Prod.mk.injEq, Prod.mk.injEq] at heq
  obtain ⟨herr, hbefore, hafter⟩ := heq
  refine ⟨v, s, ⟨hok, hv⟩, hs, herr, hbefore, hafter, fun hsame => ?_⟩
  have hfree := hsame.freeBlocks
  rw [hbefore, hafter] at hfree
  cases hfree

end Microgarbage.Storage
