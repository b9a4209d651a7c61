import Microgarbage.Storage.Consistency

/-!
# Files as sparse arrays

While a regular file has at most one open handle, it is what was written to it since it was created
or truncated, and the handle knows its size. So a read returns what was written, and zeroes
elsewhere. Other files may have any number of handles.
-/

namespace Microgarbage.Storage

open Lib
open Function (update update_of_ne update_self)

variable {s s' : FsState} {e : FsCall} {v v' : TrashfsVolume} {ino : Nat}

/-- The handle can write to its file. -/
structure FsHandle.Active (h : FsHandle) : Prop where
  isOpen : h.file.isOpen = true
  isDir : h.file.isDir = false
  unlinked : h.unlinked = false

/-- At most one open handle on the file `ino`. -/
def OneHandle (ino : Nat) (s : FsState) : Prop :=
  ∀ fd fd' h h', s.handles fd = some h → s.handles fd' = some h' → h.Active → h'.Active →
    h.file.inode = ino → h'.file.inode = ino → fd = fd'

/-- The file `ino` has at most one open handle after the call, and no file is written to after it was
unlinked. -/
def SingleHandle (ino : Nat) (s : FsState) (e : FsCall) : Prop :=
  OneHandle ino (s.call e).2 ∧ LiveWrites s e

/-! ## Writes to the array -/

theorem SparseFile.write_nil (a : SparseFile) (pos : Nat) : a.write pos [] = a := if_pos rfl

theorem Holds.same {a : SparseFile} (h : Holds v ino a) (hs : SameFile v v' ino) :
    Holds v' ino a :=
  ⟨hs.size.trans h.size, fun off => (hs.bytes off).trans (h.bytes off)⟩

theorem WriteSpec.holds {f f' : TrashfsFile} {src : List Byte} {r : TrashfsResult} {done : Nat}
    {a : SparseFile} (h : WriteSpec v v' f f' src r done) (ha : Holds v f.inode a)
    (hsize : f.size = v.dirSize f.inode) : Holds v' f.inode (a.write f.pos (src.take done)) := by
  have hlen : (src.take done).length = done := List.length_take_of_le h.done_le
  have hnil : src.take done = [] ↔ done = 0 := by rw [← List.length_eq_zero_iff, hlen]
  have hnew := h.size
  rw [h.handle] at hnew
  unfold TrashfsFile.advance at hnew
  dsimp only at hnew
  unfold SparseFile.write
  by_cases hz : done = 0
  · rw [if_pos (hnil.mpr hz)]
    rw [if_pos hz] at hnew
    refine ⟨hnew.trans (hsize.trans ha.size), fun off => ?_⟩
    rw [h.bytes off, if_neg (by omega)]
    exact ha.bytes off
  · rw [if_neg fun hn => hz (hnil.mp hn), hlen]
    rw [if_neg hz] at hnew
    refine ⟨?_, fun off => ?_⟩
    · dsimp only
      rw [hnew, hsize, ha.size]
    · dsimp only
      rw [h.bytes off, ha.bytes off]
      by_cases hin : f.pos ≤ off ∧ off < f.pos + done
      · rw [if_pos hin, if_pos hin, List.getD_eq_getElem?_getD, List.getD_eq_getElem?_getD,
          List.getElem?_take_of_lt (by omega)]
      · rw [if_neg hin, if_neg hin]

theorem NoBlocks.holds (h : NoBlocks v ino) (hi : ino < v.inodeCount)
    (hsize : v.dirSize ino = 0) : Holds v ino SparseFile.empty :=
  ⟨hsize, h.bytes hi⟩

/-! ## The invariant -/

structure Tracked (ino : Nat) (s : FsState) : Prop where
  inv : FsInv s
  one : OneHandle ino s
  size : ∀ fd h, s.handles fd = some h → h.Active → h.file.inode = ino →
    h.file.size = s.vol.dirSize ino
  file : ino < s.vol.inodeCount → s.vol.inodeUsed ino = true → isDirectory s.vol ino = false →
    Holds s.vol ino (s.files ino)

/-- A file that does not exist has no handle. -/
theorem Tracked.unused (h : FsInv s) (hu : s.vol.inodeUsed ino = false) : Tracked ino s := by
  have hnone : ∀ fd h', s.handles fd = some h' → h'.Active → h'.file.inode ≠ ino := by
    rintro fd h' hh ha rfl
    rw [((h.handles fd h' hh).file ha.isDir ha.unlinked).1] at hu
    cases hu
  refine ⟨h, fun fd _ h' _ hh _ ha _ hi _ => absurd hi (hnone fd h' hh ha),
    fun fd h' hh ha hi => absurd hi (hnone fd h' hh ha), fun _ hused => ?_⟩
  rw [hu] at hused
  cases hused

theorem Tracked.file_kept (h : Tracked ino s) {gone changed : Nat → Prop}
    (he : Effect s.vol v' gone changed) (hi : ino < s.vol.inodeCount)
    (hu' : v'.inodeUsed ino = true) (hd' : isDirectory v' ino = false) (hg : ¬gone ino)
    (hc : ¬changed ino) : Holds v' ino (s.files ino) := by
  cases hu : s.vol.inodeUsed ino with
  | false => exact absurd (he.fresh ino hi hu hu' hd') hc
  | true =>
    have hd : isDirectory s.vol ino = false := by
      rw [← isDirectory_congr (he.mode ino hi hu hg)]
      exact hd'
    exact (h.file hi hu hd).same (he.files ino hi hu hd hg hc)

/-- The size that the open handle has of its file when a call does not change it. -/
theorem Tracked.size_kept (h : Tracked ino s) {gone changed : Nat → Prop}
    (he : Effect s.vol v' gone changed) {fd : Nat} {h₀ : FsHandle} (hh : s.handles fd = some h₀)
    (ha : h₀.Active) (hi : h₀.file.inode = ino) (hg : ¬gone ino) (hc : ¬changed ino) :
    h₀.file.size = v'.dirSize ino := by
  have hok := h.inv.handles fd h₀ hh
  obtain ⟨hu, hd⟩ := hok.file ha.isDir ha.unlinked
  have hlt := hok.lt
  rw [hi] at hu hd hlt
  rw [(he.files ino hlt hu hd hg hc).size]
  exact h.size fd h₀ hh ha hi

theorem Tracked.kept (h : Tracked ino s) (hinv : FsInv { s with vol := v' })
    (he : Effect s.vol v' (fun _ => False) fun _ => False) : Tracked ino { s with vol := v' } :=
  ⟨hinv, h.one, fun _ _ hh ha hi => h.size_kept he hh ha hi id id,
    fun hi hu hd => h.file_kept he (he.layout ▸ hi) hu hd id id⟩

theorem Tracked.moved (h : Tracked ino s) {fd : Nat} {h₀ : FsHandle} {f : TrashfsFile}
    (hh : s.handles fd = some h₀)
    (hinv : FsInv { s with handles := update s.handles fd (some { h₀ with file := f }) })
    (hone : OneHandle ino { s with
      handles := update s.handles fd (some { h₀ with file := f }) })
    (hm : MovedTo h₀.file f) :
    Tracked ino { s with handles := update s.handles fd (some { h₀ with file := f }) } := by
  refine ⟨hinv, hone, fun fd' h' heq ha hi => ?_, h.file⟩
  rcases update_some heq with ⟨-, rfl⟩ | ⟨-, hold⟩
  · obtain ⟨hopen, hdir, hlive⟩ := ha
    dsimp only at hopen hdir hlive hi ⊢
    rw [hm.size]
    exact h.size fd h₀ hh ⟨hm.isOpen hopen, hm.isDir.symm.trans hdir, hlive⟩ (hm.inode.symm.trans hi)
  · exact h.size fd' h' hold ha hi

theorem Tracked.removed (h : Tracked ino s) {r : TrashfsResult} {path : List Byte}
    (he : Effect s.vol v' (fun i => r = .ok ∧ ∃ t, s.vol.resolveFull path = .ok (i, t))
      fun _ => False)
    (hone : OneHandle ino { s with
      vol := v', handles := if r = .ok then s.markUnlinked path else s.handles }) :
    Tracked ino { s with
      vol := v', handles := if r = .ok then s.markUnlinked path else s.handles } := by
  refine ⟨h.inv.removed he, hone, fun fd h' heq ha hi => ?_, fun hi hu hd => ?_⟩
  · dsimp only at heq
    split at heq
    · obtain ⟨h₀, hh₀, hfile, hlive⟩ := markUnlinked_some heq
      obtain ⟨hopen, hdir, hunlinked⟩ := ha
      obtain ⟨hu₀, hnot⟩ := hlive hunlinked
      rw [hfile] at hopen hdir hi ⊢
      refine h.size_kept he hh₀ ⟨hopen, hdir, hu₀⟩ hi ?_ id
      rintro ⟨-, t, ht⟩
      exact hnot t (hi ▸ ht)
    · next hr => exact h.size_kept he heq ha hi (fun hg => hr hg.1) id
  · refine h.file_kept he (he.layout ▸ hi) hu hd (fun hg => ?_) id
    rw [he.unused ino hg] at hu
    cases hu

theorem Tracked.opened (h : Tracked ino s) {fd : Nat} {path : List Byte} {flags : OpenFlags}
    {f : TrashfsFile} (ho : OpenOk s.vol v' path flags f) {files : Nat → SparseFile}
    (hfiles : files = if startsEmpty s.vol path flags f then
      update s.files f.inode SparseFile.empty else s.files)
    (hone : OneHandle ino
      { vol := v'
        handles := update s.handles fd (some ⟨f, false⟩)
        files := files }) :
    Tracked ino
      { vol := v'
        handles := update s.handles fd (some ⟨f, false⟩)
        files := files } := by
  have he := ho.effect
  refine ⟨h.inv.replaced he ho.handleOk, hone, fun fd' h' heq ha hi => ?_, fun hi hu hd => ?_⟩
  · rcases update_some heq with ⟨-, rfl⟩ | ⟨hne, hold⟩
    · exact hi ▸ ho.size
    · refine h.size_kept he hold ha hi id fun hc => hne ?_
      -- the file was truncated under an open handle
      have hactive : (⟨f, false⟩ : FsHandle).Active := ⟨ho.isOpen, (ho.empty hc.2).1, rfl⟩
      exact hone fd' fd h' _ heq (update_self ..) ha hactive hi hc.1.symm
  · dsimp only at hi hu hd ⊢
    rw [hfiles]
    by_cases hc : ino = f.inode ∧ startsEmpty s.vol path flags f = true
    · obtain ⟨rfl, hse⟩ := hc
      obtain ⟨-, hsize, hnone⟩ := ho.empty hse
      rw [if_pos hse, update_self]
      exact hnone.holds hi hsize
    · have hkept := h.file_kept he (he.layout ▸ hi) hu hd id hc
      by_cases hse : startsEmpty s.vol path flags f = true
      · rw [if_pos hse, update_of_ne fun hif => hc ⟨hif, hse⟩]
        exact hkept
      · rw [if_neg hse]
        exact hkept

theorem Tracked.written (h : Tracked ino s) {fd : Nat} {h₀ : FsHandle} (hh : s.handles fd = some h₀)
    (ha : h₀.Active) {f' : TrashfsFile} {src : List Byte} {r : TrashfsResult} {done : Nat}
    (hw : WriteSpec s.vol v' h₀.file f' src r done)
    (he : Effect s.vol v' (fun _ => False) (· = h₀.file.inode)) {files : Nat → SparseFile}
    (hfiles : files = update s.files h₀.file.inode
      ((s.files h₀.file.inode).write h₀.file.pos (src.take done)))
    (hone : OneHandle ino
      { vol := v'
        handles := update s.handles fd (some { h₀ with file := f' })
        files := files })
    (hinv : FsInv
      { vol := v'
        handles := update s.handles fd (some { h₀ with file := f' })
        files := files }) :
    Tracked ino
      { vol := v'
        handles := update s.handles fd (some { h₀ with file := f' })
        files := files } := by
  have hok := h.inv.handles fd h₀ hh
  obtain ⟨hiu, hid⟩ := hok.file ha.isDir ha.unlinked
  have hf' : f'.inode = h₀.file.inode := (hw.handle_size hok.size).1
  refine ⟨hinv, hone, fun fd' h' heq ha' hi => ?_, fun hi hu hd => ?_⟩
  · rcases update_some heq with ⟨-, rfl⟩ | ⟨hne, hold⟩
    · dsimp only at hi ⊢
      rw [← hi, hf', hw.size]
    · refine h.size_kept he hold ha' hi id fun hc => hne ?_
      exact h.one fd' fd h' h₀ hold hh ha' ha hi hc.symm
  · dsimp only at hi hu hd ⊢
    rw [hfiles]
    by_cases hii : ino = h₀.file.inode
    · subst hii
      rw [update_self]
      exact hw.holds (h.file hok.lt hiu hid) (h.size fd h₀ hh ha rfl)
    · rw [update_of_ne hii]
      exact h.file_kept he (he.layout ▸ hi) hu hd id hii

theorem Tracked.call (h : Tracked ino s) (hok : SingleHandle ino s e) :
    Tracked ino (s.call e).2 := by
  have hs := h.inv.sound
  have hinv := h.inv.call hok.2
  have hone := hok.1
  by_cases hmoves : e.Moves
  · rcases call_moves (s := s) hmoves with heq | ⟨fd, h₀, f, hh, hm, heq⟩
    · rw [heq]
      exact h
    · rw [heq] at hinv hone ⊢
      exact h.moved hh hinv hone hm
  cases e with
  | mkdir path now => exact h.kept hinv (mkdir_effect hs path now)
  | «open» fd path flags =>
    unfold FsState.call at hinv hone ⊢
    dsimp only at hinv hone ⊢
    rcases open_effect hs path flags with ⟨err, v', heq, he⟩ | ⟨f, v', heq, hopen⟩
    · rw [heq] at hinv ⊢
      exact h.kept hinv he
    · rw [heq] at hone ⊢
      exact h.opened hopen rfl hone
  | write fd src now =>
    cases hh : s.handles fd with
    | none =>
      rw [call_none (e := .write fd src now) hh rfl]
      exact h
    | some h₀ =>
      have hok₀ := h.inv.handles fd h₀ hh
      have hlive := hok.2 h₀ hh
      rcases write_cases hs hok₀ hlive src now with
        ⟨-, heq⟩ | ⟨r, done, f', v', heq, ho, hd, hspec, he⟩
      · rw [call_write hh heq, List.take_zero, SparseFile.write_nil,
          Function.update_eq_self] at hinv hone ⊢
        exact h.moved hh hinv hone (.refl _)
      · rw [call_write hh heq] at hinv hone ⊢
        exact h.written hh ⟨ho, hd, hlive⟩ hspec he rfl hone hinv
  | read | lseek | close => exact absurd trivial hmoves
  | unlink path => exact h.removed (unlink_effect hs path) hone
  | rmdir path => exact h.removed (rmdir_effect hs path) hone

theorem Tracked.run {es : List FsCall} (h : Tracked ino s)
    (hok : Meets FsState.step (SingleHandle ino) s es) (hrun : run FsState.step s es = some s') :
    Tracked ino s' :=
  run_invariant (fun s e s' hs hok heq => by
    rw [FsState.step, Option.some.injEq] at heq
    exact heq ▸ hs.call hok) h hok hrun

/-! ## Volumes without inodes -/

/-- Nothing is open, and nothing can be. -/
structure Vacant (s : FsState) : Prop where
  vol : NoInodes s.vol
  handles : ∀ fd, s.handles fd = none

theorem Vacant.call (h : Vacant s) : Vacant (s.call e).2 := by
  obtain ⟨hv, hh⟩ := h
  cases e with
  | mkdir path now =>
    refine ⟨?_, hh⟩
    unfold FsState.call
    dsimp only
    rw [hv.mkdir]
    exact hv
  | «open» fd path flags =>
    obtain ⟨err, heq⟩ := hv.open path flags
    unfold FsState.call
    dsimp only
    rw [heq]
    exact ⟨hv, hh⟩
  | read fd | write fd | lseek fd | close fd =>
    rw [call_none (hh fd)]
    · exact ⟨hv, hh⟩
    · exact rfl
  | unlink path =>
    unfold FsState.call
    dsimp only
    rw [hv.unlink]
    refine ⟨hv, fun fd => ?_⟩
    dsimp only
    split
    · unfold FsState.markUnlinked
      rw [hh fd]
      rfl
    · exact hh fd
  | rmdir path =>
    unfold FsState.call
    dsimp only
    rw [hv.rmdir]
    refine ⟨hv, fun fd => ?_⟩
    dsimp only
    split
    · unfold FsState.markUnlinked
      rw [hh fd]
      rfl
    · exact hh fd

theorem Vacant.run {es : List FsCall} (h : Vacant s) (hrun : run FsState.step s es = some s') :
    Vacant s' := by
  have hstep : ∀ s e s', Vacant s → True → FsState.step s e = some s' → Vacant s' := by
    intro s e s' hs _ heq
    rw [FsState.step, Option.some.injEq] at heq
    exact heq ▸ hs.call
  exact run_invariant hstep h (Meets.of_forall (fun _ _ => trivial) s es) hrun

/-! ## Calls through the handle -/

/-- Where a seek from `pos` leads. -/
def SparseFile.seek (a : SparseFile) (pos : Nat) (off : Int) : Whence → Int
  | .set => off
  | .cur => pos + off
  | .end => a.size + off

/-- The calls through an open handle `h` are those on the array of bytes that was written, at the
handle's position. -/
structure SparseCalls (s : FsState) (h : FsHandle) (a : SparseFile) : Prop where
  size : h.file.size = a.size
  read : ∀ n, trashfsRead s.vol h.file n = (.ok, a.read h.file.pos n,
    { h.file with pos := h.file.pos + (a.read h.file.pos n).length })
  past : ∀ n, a.size ≤ h.file.pos → (trashfsRead s.vol h.file n).2.1 = []
  /-- The prefix that is reported stands in the file, and the size is at least its end. -/
  write : ∀ src now, ∃ r done f' v', trashfsWrite s.vol h.file src now = (r, done, f', v') ∧
    done ≤ src.length ∧ Holds v' h.file.inode (a.write h.file.pos (src.take done)) ∧
    f' = { h.file with
      pos := h.file.pos + done
      size := (a.write h.file.pos (src.take done)).size } ∧
    (done < src.length → h.file.pos + src.length ≤ trashfsMaxFile → Full v')
  /-- The position is the one sought, or that of before when there is none in 32 bits. -/
  seek : ∀ off whence,
    let pos := a.seek h.file.pos off whence
    trashfsLseek h.file off whence =
      if 0 ≤ pos ∧ pos ≤ 0xFFFFFFFF then (.ok, { h.file with pos := pos.toNat })
      else (.errInvalidArg, h.file)

theorem SparseFile.length_read (a : SparseFile) (pos n : Nat) :
    (a.read pos n).length = min n (a.size - pos) := by
  unfold SparseFile.read
  rw [List.length_map, List.length_range]

theorem SparseFile.size_write (a : SparseFile) (pos : Nat) (bs : List Byte) :
    (a.write pos bs).size = if bs.length = 0 then a.size else max a.size (pos + bs.length) := by
  unfold SparseFile.write
  by_cases hn : bs = []
  · rw [if_pos hn, if_pos (List.length_eq_zero_iff.mpr hn)]
  · rw [if_neg hn, if_neg fun hl => hn (List.length_eq_zero_iff.mp hl)]

theorem trashfsLseek_spec {f : TrashfsFile} (ho : f.isOpen = true) {a : SparseFile}
    (hsize : f.size = a.size) (off : Int) (whence : Whence) :
    trashfsLseek f off whence =
      if 0 ≤ a.seek f.pos off whence ∧ a.seek f.pos off whence ≤ 0xFFFFFFFF then
        (.ok, { f with pos := (a.seek f.pos off whence).toNat })
      else (.errInvalidArg, f) := by
  unfold trashfsLseek SparseFile.seek
  rw [if_pos ho, hsize]
  cases whence <;> dsimp only <;> (try rw [Int.zero_add]) <;> split_ifs <;> first | rfl | omega

theorem Tracked.sparseCalls {fd : Nat} {h₀ : FsHandle} (h : Tracked h₀.file.inode s)
    (hh : s.handles fd = some h₀) (ha : h₀.Active) :
    SparseCalls s h₀ (s.files h₀.file.inode) := by
  have hok := h.inv.handles fd h₀ hh
  obtain ⟨hu, hd⟩ := hok.file ha.isDir ha.unlinked
  have hold := h.file hok.lt hu hd
  have hsize : h₀.file.size = (s.files h₀.file.inode).size :=
    (h.size fd h₀ hh ha rfl).trans hold.size
  have hread : ∀ n, trashfsRead s.vol h₀.file n = (.ok, (s.files h₀.file.inode).read h₀.file.pos n,
      { h₀.file with
        pos := h₀.file.pos + ((s.files h₀.file.inode).read h₀.file.pos n).length }) := by
    intro n
    have hbytes : fileBytes s.vol h₀.file.inode h₀.file.pos (min n (h₀.file.size - h₀.file.pos)) =
        (s.files h₀.file.inode).read h₀.file.pos n := by
      unfold fileBytes SparseFile.read
      rw [hsize]
      exact List.map_congr_left fun i _ => hold.bytes _
    have hmin : min n (h₀.file.size - h₀.file.pos) =
        ((s.files h₀.file.inode).read h₀.file.pos n).length := by
      rw [SparseFile.length_read, hsize]
    rw [trashfsRead_spec ha.isOpen, hbytes, hmin]
  refine ⟨hsize, hread, fun n hpast => ?_, fun src now => ?_, trashfsLseek_spec ha.isOpen hsize⟩
  · rw [hread n]
    refine List.eq_nil_of_length_eq_zero ?_
    rw [SparseFile.length_read]
    omega
  · rcases write_cases h.inv.sound hok ha.unlinked src now with
      ⟨hno, -⟩ | ⟨r, done, f', v', heq, -, -, hspec, -⟩
    · exact absurd ⟨ha.isOpen, ha.isDir⟩ hno
    · have hlen : (src.take done).length = done := List.length_take_of_le hspec.done_le
      refine ⟨r, done, f', v', heq, hspec.done_le, hspec.holds hold (h.size fd h₀ hh ha rfl), ?_,
        fun hlt hmax => ?_⟩
      · rw [hspec.handle, SparseFile.size_write, hlen]
        unfold TrashfsFile.advance
        rw [hsize]
      · refine (hspec.short hlt).resolve_right fun hnone => ?_
        unfold trashfsMaxFile at hmax
        obtain ⟨p, hp⟩ : ∃ p, leafPos h₀.file.inode ((h₀.file.pos + done) / 128) = some p :=
          leafPos_some_iff.mpr (by omega)
        rw [hp] at hnone
        cases hnone

/-- In every state that a formatted volume reaches, a file that has had at most one open handle since
it was created is what was written to it. The calls before, and those on other files, are free. -/
theorem run_sparse {m : Mem} {n hint now : BitVec 32} (hf : FormattedFrom m n hint now v)
    {es₀ es : List FsCall} {s₀ : FsState} (hlive : Meets FsState.step LiveWrites (FsState.start v) es₀)
    (hbefore : run FsState.step (FsState.start v) es₀ = some s₀)
    (hnew : s₀.vol.inodeUsed ino = false) (hok : Meets FsState.step (SingleHandle ino) s₀ es)
    (hrun : run FsState.step s₀ es = some s) {fd : Nat} {h : FsHandle}
    (hh : s.handles fd = some h) (ha : h.Active) (hi : h.file.inode = ino) :
    SparseCalls s h (s.files ino) := by
  subst hi
  by_cases hhint : hint = 0xFFFFFFFF
  · subst hhint
    have hvacant : Vacant (FsState.start v) := ⟨hf.noInodes, fun _ => rfl⟩
    rw [((hvacant.run hbefore).run hrun).handles fd] at hh
    cases hh
  · have hinv := (FsInv.start (hf.sound hhint)).run hlive hbefore
    exact ((Tracked.unused hinv hnew).run hok hrun).sparseCalls hh ha

/-! ### One caller with one handle -/

/-- Only handle 0 is in use, on a file that was not unlinked. -/
structure OnlyZero (s : FsState) : Prop where
  none : ∀ fd, fd ≠ 0 → s.handles fd = none
  live : ∀ h, s.handles 0 = some h → h.unlinked = false

theorem OnlyZero.start (v : TrashfsVolume) : OnlyZero (FsState.start v) :=
  ⟨fun _ _ => rfl, nofun⟩

theorem OnlyZero.oneHandle (h : OnlyZero s) : OneHandle ino s := by
  intro fd fd' h₁ h₂ hh₁ hh₂ _ _ _ _
  have hzero : ∀ {fd h}, s.handles fd = some h → fd = 0 := by
    intro fd h₀ hh
    by_contra hne
    rw [h.none fd hne] at hh
    cases hh
  rw [hzero hh₁, hzero hh₂]

theorem OnlyZero.update (h : OnlyZero s) {h₀ : FsHandle} (hu : h₀.unlinked = false)
    {files : Nat → SparseFile} : OnlyZero
      { vol := v
        handles := update s.handles 0 (some h₀)
        files := files } := by
  refine ⟨fun fd hne => ?_, fun h' hh => ?_⟩
  · dsimp only
    rw [update_of_ne hne]
    exact h.none fd hne
  · dsimp only at hh
    rw [update_self, Option.some.injEq] at hh
    exact hh ▸ hu

theorem OnlyZero.open (h : OnlyZero s) (path : List Byte) (flags : OpenFlags) :
    OnlyZero (s.call (.open 0 path flags)).2 := by
  unfold FsState.call
  dsimp only
  split
  · exact ⟨h.none, h.live⟩
  · exact h.update rfl

theorem OnlyZero.write (h : OnlyZero s) (src : List Byte) (now : BitVec 32) :
    OnlyZero (s.call (.write 0 src now)).2 := by
  cases hh : s.handles 0 with
  | none =>
    rw [call_none (e := .write 0 src now) hh rfl]
    exact h
  | some h₀ =>
    rcases hw : trashfsWrite s.vol h₀.file src now with ⟨r, done, f, v⟩
    rw [call_write hh hw]
    refine h.update ?_
    exact h.live h₀ hh

theorem OnlyZero.lseek (h : OnlyZero s) (off : Int) (whence : Whence) :
    OnlyZero (s.call (.lseek 0 off whence)).2 := by
  cases hh : s.handles 0 with
  | none =>
    rw [call_none (e := .lseek 0 off whence) hh rfl]
    exact h
  | some h₀ =>
    rw [call_lseek hh]
    refine h.update ?_
    exact h.live h₀ hh

/-- Create the file `f` and write to it beyond its end. -/
def createWrite : List FsCall :=
  [.open 0 [102] ⟨true, false, false⟩, .lseek 0 1000 .set, .write 0 [1, 2, 3] 0]

theorem createWrite_meets (v : TrashfsVolume) :
    Meets FsState.step (SingleHandle ino) (FsState.start v) createWrite := by
  have h₀ := OnlyZero.start v
  have h₁ := h₀.open [102] ⟨true, false, false⟩
  have h₂ := h₁.lseek 1000 .set
  have h₃ := h₂.write [1, 2, 3] 0
  exact .cons ⟨h₁.oneHandle, trivial⟩ rfl
    (.cons ⟨h₂.oneHandle, trivial⟩ rfl (.cons ⟨h₃.oneHandle, h₂.live⟩ rfl trivial))

theorem run_sparse_small : ∃ v s h, FormattedFrom (fun _ => 0) 16384 0 0 v ∧
    run FsState.step (FsState.start v) createWrite = some s ∧ s.handles 0 = some h ∧ h.Active ∧
    SparseCalls s h (s.files 1) := by
  have hok : (trashfsFormat (fun _ => 0) 16384 0 0).1 = .ok := by decide +kernel
  have hlast : (trashfsMount (trashfsFormat (fun _ => 0) 16384 0 0).2 16384).toOption.map
      (fun v => (v.inodeUsed 1,
        ((run FsState.step (FsState.start v) createWrite).bind fun s => s.handles 0).map
          fun h => (h.file.isOpen, h.file.isDir, h.unlinked, h.file.inode))) =
      some (false, some (true, false, false, 1)) := by
    decide +kernel
  obtain ⟨v, hv, -⟩ := (format_usable_iff hok).mpr (by decide)
  have hf : FormattedFrom (fun _ => 0) 16384 0 0 v := ⟨hok, hv⟩
  obtain ⟨s, hs⟩ : ∃ s, run FsState.step (FsState.start v) createWrite = some s := ⟨_, rfl⟩
  rw [hv] at hlast
  obtain ⟨hnew, hhandle⟩ := Prod.mk.inj (Option.some.inj hlast)
  rw [hs, Option.bind_some] at hhandle
  obtain ⟨h, hh, hactive⟩ := Option.map_eq_some_iff.mp hhandle
  simp only [Prod.mk.injEq] at hactive
  obtain ⟨hopen, hdir, hlive, hi⟩ := hactive
  have ha : h.Active := ⟨hopen, hdir, hlive⟩
  have hlive : Meets FsState.step LiveWrites (FsState.start v) [] := trivial
  exact ⟨v, s, h, hf, hs, hh, ha,
    run_sparse hf hlive rfl hnew (createWrite_meets v) hs hh ha hi⟩

end Microgarbage.Storage
