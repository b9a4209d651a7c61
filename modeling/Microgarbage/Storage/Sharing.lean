import Microgarbage.Storage.SparseRun

/-!
# Handles that share a file

Any number of handles may be open on a file, and a file may be unlinked under them. A write stores
the size that its handle knows and goes to the inode that its handle names, so it is safe as long as
the handle knows the size and the inode is still its file's.
-/

namespace Microgarbage.Storage

open Lib

variable {s s' : FsState} {e : FsCall} {v v' : TrashfsVolume}

/-- What a write through `h` may not do: shrink its file, hide or change a byte that it does not
write, or touch any other file. After an unlink every file in use is another file. -/
structure WriteSafe (v v' : TrashfsVolume) (h : FsHandle) (n : Nat) : Prop where
  grows : h.unlinked = false → v.dirSize h.file.inode ≤ v'.dirSize h.file.inode
  kept : h.unlinked = false → ∀ off < v.dirSize h.file.inode,
    (off < h.file.pos ∨ h.file.pos + n ≤ off) →
      off < v'.dirSize h.file.inode ∧ fileByte v' h.file.inode off = fileByte v h.file.inode off
  others : ∀ i < v.inodeCount, v.inodeUsed i = true → (i ≠ h.file.inode ∨ h.unlinked = true) →
    SameFile v v' i

/-- A write in a run is safe. -/
def SafeStep (s : FsState) : FsCall → Prop
  | .write fd src now => ∀ h, s.handles fd = some h →
      WriteSafe s.vol (s.call (.write fd src now)).2.vol h src.length
  | _ => True

/-- A write that is not refused goes through a handle on a file that was not unlinked, and whose size
the handle knows. -/
def UpToDate (s : FsState) : FsCall → Prop
  | .write fd _ _ => ∀ h, s.handles fd = some h → h.file.isOpen = true → h.file.isDir = false →
      h.unlinked = false ∧ s.vol.dirSize h.file.inode ≤ h.file.size
  | _ => True

theorem WriteSafe.refl (v : TrashfsVolume) (h : FsHandle) (n : Nat) : WriteSafe v v h n :=
  ⟨fun _ => Nat.le_refl _, fun _ _ hlt _ => ⟨hlt, rfl⟩, fun i _ _ _ => .refl v i⟩

theorem WriteSpec.safe {h : FsHandle} {f' : TrashfsFile} {src : List Byte} {r : TrashfsResult}
    {done : Nat} (hw : WriteSpec v v' h.file f' src r done) (hu : h.unlinked = false)
    (hsize : v.dirSize h.file.inode ≤ h.file.size) : WriteSafe v v' h src.length := by
  have hgrow : h.file.size ≤ v'.dirSize h.file.inode := by
    rw [hw.size, hw.handle]
    unfold TrashfsFile.advance
    dsimp only
    split <;> omega
  have hdone := hw.done_le
  refine ⟨fun _ => by omega, fun _ off hlt hout => ⟨by omega, ?_⟩, fun i hi _ hor => ?_⟩
  · rw [hw.bytes off, if_neg (by omega)]
  · refine hw.files i hi (hor.resolve_right fun hu' => ?_)
    rw [hu] at hu'
    cases hu'

theorem trashfsWrite_refused {f : TrashfsFile} {src : List Byte} {now : BitVec 32}
    (h : ¬(f.isOpen = true ∧ f.isDir = false)) :
    trashfsWrite v f src now = (.errInvalidArg, 0, f, v) := by
  unfold trashfsWrite
  by_cases ho : f.isOpen = true
  · rw [if_neg (not_not_intro ho), if_pos]
    rw [← Bool.not_eq_false]
    exact fun hd => h ⟨ho, hd⟩
  · rw [if_pos ho]

theorem FsInv.write_safe (h : FsInv s) (hok : UpToDate s e) : SafeStep s e := by
  cases e with
  | write fd src now =>
    intro h₀ hh
    by_cases hactive : h₀.file.isOpen = true ∧ h₀.file.isDir = false
    · obtain ⟨hu, hsize⟩ := hok h₀ hh hactive.1 hactive.2
      rcases write_cases h.sound (h.handles fd h₀ hh) hu src now with
        ⟨hno, -⟩ | ⟨r, done, f', v', heq, -, -, hspec, -⟩
      · exact absurd hactive hno
      · rw [call_write hh heq]
        exact hspec.safe hu hsize
    · rw [call_write hh (trashfsWrite_refused hactive)]
      exact .refl s.vol h₀ src.length
  | _ => exact trivial

/-- A call that is not a write through a stale handle keeps the invariant. -/
theorem FsInv.upToDate (h : FsInv s) (hok : UpToDate s e) : FsInv (s.call e).2 := by
  cases e with
  | write fd src now =>
    cases hh : s.handles fd with
    | none =>
      rw [call_none (e := .write fd src now) hh rfl]
      exact h
    | some h₀ =>
      by_cases hactive : h₀.file.isOpen = true ∧ h₀.file.isDir = false
      · refine h.call fun h₁ hh₁ => ?_
        rw [hh, Option.some.injEq] at hh₁
        subst hh₁
        exact (hok h₀ hh hactive.1 hactive.2).1
      · rw [call_write hh (trashfsWrite_refused hactive)]
        exact h.replaced (.refl h.sound (fun _ => False) fun _ => id)
          ((h.handles fd h₀ hh).moved (.refl _))
  | _ => exact h.call trivial

/-- In every run whose writes go through up-to-date handles, all writes are safe. -/
theorem run_writes_safe {m : Mem} {n hint now : BitVec 32} (hf : FormattedFrom m n hint now v)
    {es : List FsCall} (hok : Meets FsState.step UpToDate (FsState.start v) es) :
    Meets FsState.step SafeStep (FsState.start v) es := by
  by_cases hhint : hint = 0xFFFFFFFF
  · subst hhint
    have hvacant : Vacant (FsState.start v) := ⟨hf.noInodes, fun _ => rfl⟩
    have hstep : ∀ s e s', Vacant s → UpToDate s e → FsState.step s e = some s' → Vacant s' := by
      intro s e s' hs _ heq
      rw [FsState.step, Option.some.injEq] at heq
      exact heq ▸ hs.call
    refine Meets.of_invariant hstep (fun s e hs _ => ?_) hvacant hok
    cases e with
    | write fd src now =>
      intro h hh
      rw [hs.handles fd] at hh
      cases hh
    | _ => exact trivial
  · have hstep : ∀ s e s', FsInv s → UpToDate s e → FsState.step s e = some s' → FsInv s' := by
      intro s e s' hs hok heq
      rw [FsState.step, Option.some.injEq] at heq
      exact heq ▸ hs.upToDate hok
    exact Meets.of_invariant hstep (fun s e hs hok => hs.write_safe hok) (.start (hf.sound hhint))
      hok

/-- Two handles are opened on `f`; the second does not know what the first wrote. -/
def staleSize : List FsCall :=
  [.open 0 [102] ⟨true, false, false⟩, .open 1 [102] ⟨false, false, false⟩, .write 0 [1, 2] 0]

/-- `f` is unlinked under its handle, and `g` gets its inode. -/
def staleInode : List FsCall :=
  [.open 0 [102] ⟨true, false, false⟩, .unlink [102], .open 1 [103] ⟨true, false, false⟩]

/-- What one byte written through `fd` does to the size of the inode that the handle names. -/
def sizesAround (es : List FsCall) (fd : Nat) (v : TrashfsVolume) : Option (Bool × Bool × Nat × Nat) :=
  (run FsState.step (FsState.start v) es).bind fun s => (s.handles fd).map fun h =>
    (h.unlinked, decide (h.file.inode < s.vol.inodeCount) && s.vol.inodeUsed h.file.inode,
      s.vol.dirSize h.file.inode, (s.call (.write fd [9] 0)).2.vol.dirSize h.file.inode)

/-- A write that cuts a file, or changes the size of an inode that is not its file's any more, is not
safe. -/
theorem unsafe_of_sizes {es : List FsCall} {fd a b : Nat} {unlinked : Bool}
    (h : sizesAround es fd v = some (unlinked, true, a, b))
    (hab : if unlinked then a ≠ b else b < a) :
    ∃ s h, run FsState.step (FsState.start v) es = some s ∧ s.handles fd = some h ∧
      h.unlinked = unlinked ∧ ¬WriteSafe s.vol (s.call (.write fd [9] 0)).2.vol h 1 := by
  unfold sizesAround at h
  obtain ⟨s, hs, hrest⟩ := Option.bind_eq_some_iff.mp h
  obtain ⟨h₀, hh, heq⟩ := Option.map_eq_some_iff.mp hrest
  rw [Prod.mk.injEq, Prod.mk.injEq, Prod.mk.injEq, Bool.and_eq_true, decide_eq_true_iff] at heq
  obtain ⟨hu, ⟨hlt, hused⟩, hbefore, hafter⟩ := heq
  refine ⟨s, h₀, hs, hh, hu, fun hsafe => ?_⟩
  cases unlinked with
  | false =>
    have hgrows := hsafe.grows hu
    rw [hbefore, hafter] at hgrows
    exact absurd hab (Nat.not_lt.mpr hgrows)
  | true =>
    have hsame := (hsafe.others _ hlt hused (.inr hu)).size
    rw [hbefore, hafter] at hsame
    exact hab hsame.symm

/-- One handle cuts a file of two bytes to one; another, on a file that was unlinked, writes into the
file that got its inode. -/
theorem stale_handles_unsafe : ∃ v s₁ h₁ s₂ h₂, FormattedFrom (fun _ => 0) 16384 0 0 v ∧
    (run FsState.step (FsState.start v) staleSize = some s₁ ∧ s₁.handles 1 = some h₁ ∧
      h₁.unlinked = false ∧ ¬WriteSafe s₁.vol (s₁.call (.write 1 [9] 0)).2.vol h₁ 1) ∧
    run FsState.step (FsState.start v) staleInode = some s₂ ∧ s₂.handles 0 = some h₂ ∧
      h₂.unlinked = true ∧ ¬WriteSafe s₂.vol (s₂.call (.write 0 [9] 0)).2.vol h₂ 1 := by
  have hok : (trashfsFormat (fun _ => 0) 16384 0 0).1 = .ok := by decide +kernel
  have hfirst : (trashfsMount (trashfsFormat (fun _ => 0) 16384 0 0).2 16384).toOption.map
      (sizesAround staleSize 1) = some (some (false, true, 2, 1)) := by
    decide +kernel
  have hsecond : (trashfsMount (trashfsFormat (fun _ => 0) 16384 0 0).2 16384).toOption.map
      (sizesAround staleInode 0) = some (some (true, true, 0, 1)) := by
    decide +kernel
  obtain ⟨v, hv, -⟩ := (format_usable_iff hok).mpr (by decide)
  rw [hv] at hfirst hsecond
  obtain ⟨s₁, h₁, hcut⟩ := unsafe_of_sizes (Option.some.inj hfirst) (by decide)
  obtain ⟨s₂, h₂, hreused⟩ := unsafe_of_sizes (Option.some.inj hsecond) (by decide)
  exact ⟨v, s₁, h₁, s₂, h₂, ⟨hok, hv⟩, hcut, hreused⟩

instance (s : FsState) : ∀ e, Decidable (UpToDate s e)
  | .write fd _ _ => inferInstanceAs (Decidable (∀ h ∈ s.handles fd, _ → _ → _))
  | .mkdir .. | .open .. | .read .. | .lseek .. | .close .. | .unlink .. | .rmdir .. => isTrue trivial

/-- Two handles write to `f`, which is unlinked under them, and a third one to `g`. -/
def sharedFile : List FsCall :=
  [.open 0 [102] ⟨true, false, false⟩, .write 0 [1, 2] 0, .open 1 [102] ⟨false, false, false⟩,
    .write 1 [9] 0, .open 2 [103] ⟨true, false, false⟩, .unlink [102], .write 2 [7] 0]

theorem run_writes_safe_small : ∃ v, FormattedFrom (fun _ => 0) 16384 0 0 v ∧
    Meets FsState.step SafeStep (FsState.start v) sharedFile := by
  have hok : (trashfsFormat (fun _ => 0) 16384 0 0).1 = .ok := by decide +kernel
  have hmeets : (trashfsMount (trashfsFormat (fun _ => 0) 16384 0 0).2 16384).toOption.map
      (fun v => decide (Meets FsState.step UpToDate (FsState.start v) sharedFile)) = some true := by
    decide +kernel
  obtain ⟨v, hv, -⟩ := (format_usable_iff hok).mpr (by decide)
  rw [hv] at hmeets
  exact ⟨v, ⟨hok, hv⟩, run_writes_safe ⟨hok, hv⟩ (decide_eq_true_iff.mp (Option.some.inj hmeets))⟩

end Microgarbage.Storage
