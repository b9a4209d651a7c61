import Mathlib.Tactic.Ring
import Microgarbage.Audio.Pool
import Microgarbage.Lib.RefCount

/-!
# Reference counts of the pool

A handle names at most one slot and a slot in use has one handle, so the pool's descriptors are a
table of reference counts by handle. Here is what each operation of the pool does to that table.
-/

namespace Microgarbage.Audio

open Lib Containers

/-! ## Handles and slots -/

variable {p : AudioPool} {h : AudioObjHandle} {s : Nat}
variable {p' : AudioPool}

theorem resolve_congr {p' : AudioPool} (h : AudioObjHandle)
    (hsame : ∀ s, (p'.objects s).inUse = (p.objects s).inUse ∧
      ((p.objects s).inUse = true → (p'.objects s).generation = (p.objects s).generation)) :
    resolve p' h = resolve p h := by
  refine Option.ext fun s => ?_
  rw [resolve_eq_some, resolve_eq_some, (hsame s).1]
  refine and_congr_right fun _ => and_congr_right fun huse => ?_
  rw [(hsame s).2 huse]

/-! ## The table -/

def liveCount (p : AudioPool) (h : AudioObjHandle) : Option Int :=
  (resolve p h).map fun s => (p.objects s).refcount

/-- The VM that created the object a handle names. -/
def creator (p : AudioPool) (h : AudioObjHandle) : Option Nat :=
  (resolve p h).map fun s => (p.objects s).ownerVm

theorem liveCount_of_resolve (hs : resolve p h = some s) :
    liveCount p h = some (p.objects s).refcount := by
  simp [liveCount, hs]

theorem liveCount_eq_none : liveCount p h = none ↔ resolve p h = none := by
  simp [liveCount]

@[simp] theorem setObject_same (p : AudioPool) (s : Nat) (o : AudioObject) :
    (setObject p s o).objects s = o := if_pos rfl

theorem setObject_ne {t : Nat} (o : AudioObject) (hne : t ≠ s) :
    (setObject p s o).objects t = p.objects t := if_neg hne

/-- An update of the descriptor of a slot in use that keeps its handle. -/
theorem resolve_setObject {o : AudioObject} (huse : o.inUse = (p.objects s).inUse)
    (hgen : o.generation = (p.objects s).generation) (j : AudioObjHandle) :
    resolve (setObject p s o) j = resolve p j := by
  refine resolve_congr j fun t => ?_
  by_cases ht : t = s
  · subst ht
    rw [setObject_same]
    exact ⟨huse, fun _ => hgen⟩
  · rw [setObject_ne o ht]
    exact ⟨rfl, fun _ => rfl⟩

theorem liveCount_setObject {o : AudioObject} (hs : resolve p h = some s) (huse : o.inUse = true)
    (hgen : o.generation = (p.objects s).generation) (j : AudioObjHandle) :
    liveCount (setObject p s o) j = if j = h then some o.refcount else liveCount p j := by
  have huse' := (resolve_eq_some.mp hs).2.1
  unfold liveCount
  rw [resolve_setObject (huse.trans huse'.symm) hgen]
  by_cases hj : j = h
  · subst hj
    rw [if_pos rfl, hs]
    simp
  · rw [if_neg hj]
    cases ht : resolve p j with
    | none => rfl
    | some t =>
      have hne : t ≠ s := fun he => hj (resolve_inj hs (he ▸ ht))
      simp [setObject_ne o hne]

theorem liveCount_recount (hs : resolve p h = some s) (n : Int) (j : AudioObjHandle) :
    liveCount (setObject p s { p.objects s with refcount := n }) j =
      if j = h then some n else liveCount p j :=
  liveCount_setObject (o := { p.objects s with refcount := n }) hs (resolve_eq_some.mp hs).2.1 rfl j

/-! ## What the operations keep -/

/-- The blocks may change, the descriptors do not. -/
structure SameObjects (p p' : AudioPool) : Prop where
  objects : p'.objects = p.objects
  generations : p'.generations = p.generations

theorem SameObjects.refl (p : AudioPool) : SameObjects p p := ⟨rfl, rfl⟩

theorem SameObjects.trans {p p' p'' : AudioPool} (h : SameObjects p p') (h' : SameObjects p' p'') :
    SameObjects p p'' :=
  ⟨h'.objects.trans h.objects, h'.generations.trans h.generations⟩

theorem SameObjects.resolve (h : SameObjects p p') (j : AudioObjHandle) :
    resolve p' j = resolve p j :=
  resolve_congr j fun s => by rw [h.objects]; exact ⟨rfl, fun _ => rfl⟩

theorem SameObjects.liveCount (h : SameObjects p p') (j : AudioObjHandle) :
    liveCount p' j = liveCount p j := by
  unfold Audio.liveCount
  rw [h.resolve, h.objects]

theorem freeOneBlock_same (p : AudioPool) (b : Nat) : SameObjects p (freeOneBlock p b) := by
  unfold freeOneBlock
  dsimp only
  split
  · exact .refl p
  · split <;> exact ⟨rfl, rfl⟩

theorem freeChainLoop_same (fuel : Nat) (p : AudioPool) (b : Nat) :
    SameObjects p (freeChainLoop fuel p b) := by
  induction fuel generalizing p b with
  | zero => exact .refl p
  | succ fuel ih =>
    unfold freeChainLoop
    split
    · exact .refl p
    · exact (freeOneBlock_same p b).trans (ih ..)

theorem allocOneBlock_same {b : Nat} (h : allocOneBlock p = some (b, p')) : SameObjects p p' := by
  unfold allocOneBlock at h
  split at h
  · cases h
  · split at h
    · cases h
    · cases h
      exact ⟨rfl, rfl⟩

theorem buildChain_same (slot need : Nat) (p : AudioPool) (head prev : Nat) :
    SameObjects p (buildChain slot need p head prev).2 := by
  induction need generalizing p head prev with
  | zero => exact .refl p
  | succ need ih =>
    unfold buildChain
    cases ha : allocOneBlock p with
    | none => exact freeChainLoop_same ..
    | some bp =>
      have hsame := allocOneBlock_same ha
      dsimp only
      split
      · exact hsame.trans ⟨(ih _ _ _).objects, (ih _ _ _).generations⟩
      · exact hsame.trans ⟨(ih _ _ _).objects, (ih _ _ _).generations⟩

/-- Objects may go, none comes, and those that stay keep handle and creator. -/
def Shrinks (p p' : AudioPool) : Prop :=
  ∀ s, (p'.objects s).inUse = true → (p.objects s).inUse = true ∧
    (p'.objects s).generation = (p.objects s).generation ∧
    (p'.objects s).ownerVm = (p.objects s).ownerVm

theorem Shrinks.refl (p : AudioPool) : Shrinks p p := fun _ h => ⟨h, rfl, rfl⟩

theorem Shrinks.trans {p p' p'' : AudioPool} (h : Shrinks p p') (h' : Shrinks p' p'') :
    Shrinks p p'' := by
  intro s hs
  obtain ⟨hs', hgen', howner'⟩ := h' s hs
  obtain ⟨hs'', hgen, howner⟩ := h s hs'
  exact ⟨hs'', hgen'.trans hgen, howner'.trans howner⟩

theorem Shrinks.creator (h : Shrinks p p') {vm : Nat} {j : AudioObjHandle}
    (hj : creator p' j = some vm) : creator p j = some vm := by
  unfold Audio.creator at hj ⊢
  obtain ⟨s, hs, rfl⟩ := Option.map_eq_some_iff.mp hj
  obtain ⟨hlt, huse, rfl⟩ := resolve_eq_some.mp hs
  obtain ⟨huse', hgen, howner⟩ := h s huse
  rw [hgen, resolve_pack hlt huse', howner]
  rfl

theorem recount_shrinks (p : AudioPool) (s : Nat) (n : Int) :
    Shrinks p (setObject p s { p.objects s with refcount := n }) := by
  intro t ht
  by_cases hts : t = s
  · subst hts
    rw [setObject_same] at ht ⊢
    exact ⟨ht, rfl, rfl⟩
  · rw [setObject_ne _ hts] at ht ⊢
    exact ⟨ht, rfl, rfl⟩

/-! ## References -/

theorem audioPoolRef_spec (hs : resolve p h = some s) :
    (audioPoolRef p h).1 = .ok ∧ Shrinks p (audioPoolRef p h).2 ∧
      ∀ j, liveCount (audioPoolRef p h).2 j =
        if j = h then some ((liveCount p h).getD 0 + 1) else liveCount p j := by
  unfold audioPoolRef
  rw [hs, liveCount_of_resolve hs]
  exact ⟨rfl, recount_shrinks p s _, liveCount_recount hs _⟩

theorem freeObject_objects (p : AudioPool) (s : Nat) :
    (freeObject p s).objects = (setObject p s freeSlot).objects := by
  unfold freeObject freeChain
  funext t
  unfold setObject
  dsimp only
  rw [(freeChainLoop_same ..).objects]

theorem freeObject_live (hs : resolve p h = some s) (j : AudioObjHandle) :
    liveCount (freeObject p s) j = if j = h then none else liveCount p j := by
  have hother {t : Nat} (hne : t ≠ s) : (freeObject p s).objects t = p.objects t := by
    rw [freeObject_objects, setObject_ne _ hne]
  have hresolve : ∀ t, resolve (freeObject p s) j = some t ↔ t ≠ s ∧ resolve p j = some t := by
    intro t
    rw [resolve_eq_some, resolve_eq_some]
    by_cases hne : t = s
    · subst hne
      rw [freeObject_objects, setObject_same]
      simp [freeSlot]
    · rw [hother hne]
      simp [hne]
  by_cases hj : j = h
  · subst hj
    rw [if_pos rfl, liveCount_eq_none, Option.eq_none_iff_forall_ne_some]
    intro t ht
    obtain ⟨hne, ht'⟩ := (hresolve t).mp ht
    rw [hs, Option.some.injEq] at ht'
    exact hne ht'.symm
  · rw [if_neg hj]
    cases ht : resolve p j with
    | none =>
      rw [liveCount_eq_none.mpr ht, liveCount_eq_none, Option.eq_none_iff_forall_ne_some]
      intro t ht'
      rw [((hresolve t).mp ht').2] at ht
      cases ht
    | some t =>
      have hne : t ≠ s := fun he => hj (resolve_inj hs (he ▸ ht))
      rw [liveCount_of_resolve ht, liveCount_of_resolve ((hresolve t).mpr ⟨hne, ht⟩), hother hne]

theorem freeObject_shrinks (p : AudioPool) (s : Nat) : Shrinks p (freeObject p s) := by
  intro t ht
  rw [freeObject_objects] at ht ⊢
  by_cases hts : t = s
  · subst hts
    rw [setObject_same] at ht
    cases ht
  · rw [setObject_ne _ hts] at ht ⊢
    exact ⟨ht, rfl, rfl⟩

theorem dropRef_spec (hs : resolve p h = some s) :
    Shrinks p (dropRef p s).2 ∧ (∀ t, t ≠ s → (dropRef p s).2.objects t = p.objects t) ∧
      ∀ j, liveCount (dropRef p s).2 j = if j = h then
        (if (p.objects s).refcount - 1 ≤ 0 then none else some ((p.objects s).refcount - 1))
        else liveCount p j := by
  obtain ⟨p₁, hp₁⟩ : ∃ p₁, setObject p s
    { p.objects s with refcount := (p.objects s).refcount - 1 } = p₁ := ⟨_, rfl⟩
  have hshrink := recount_shrinks p s ((p.objects s).refcount - 1)
  have hcount := liveCount_recount hs ((p.objects s).refcount - 1)
  have hother {t : Nat} (ht : t ≠ s) : p₁.objects t = p.objects t := by
    rw [← hp₁, setObject_ne _ ht]
  have hs₁ : resolve p₁ h = some s := by
    rw [← hp₁, resolve_setObject (by rfl) (by rfl), hs]
  have hzero : (p₁.objects s).refcount = (p.objects s).refcount - 1 := by
    rw [← hp₁, setObject_same]
  unfold dropRef
  rw [hp₁] at hshrink hcount ⊢
  dsimp only
  rw [hzero]
  by_cases hle : (p.objects s).refcount - 1 ≤ 0
  · rw [if_pos hle]
    refine ⟨hshrink.trans (freeObject_shrinks p₁ s), fun t ht => ?_, fun j => ?_⟩
    · rw [freeObject_objects, setObject_ne _ ht, hother ht]
    · rw [if_pos hle, freeObject_live hs₁, hcount j]
      by_cases hj : j = h <;> simp [hj]
  · rw [if_neg hle]
    refine ⟨hshrink, fun t ht => hother ht, fun j => ?_⟩
    rw [if_neg hle]
    exact hcount j

theorem audioPoolUnref_spec (hs : resolve p h = some s) :
    audioPoolUnref p h = (.ok, dropRef p s) := by
  unfold audioPoolUnref
  rw [hs]

/-! ## Allocation -/

theorem audioPoolAlloc_failed {size ownerVm : Nat}
    (hr : (audioPoolAlloc p size ownerVm).1 ≠ .ok) :
    SameObjects p (audioPoolAlloc p size ownerVm).2.2 := by
  unfold audioPoolAlloc at hr ⊢
  dsimp only at hr ⊢
  split at hr
  · rename_i hfull
    rw [if_pos hfull]
    exact .refl p
  · rename_i hroom
    rw [if_neg hroom]
    cases hslot : findFreeSlot p with
    | none => exact .refl p
    | some slot =>
      have hchain := buildChain_same slot (blocksNeeded size) p audioPoolNoBlock audioPoolNoBlock
      rw [hslot] at hr
      dsimp only at hr ⊢
      rcases hbuild : buildChain slot (blocksNeeded size) p audioPoolNoBlock audioPoolNoBlock with
        ⟨head, p₁⟩
      rw [hbuild] at hr hchain
      cases head with
      | none => exact hchain
      | some head => exact absurd rfl hr

theorem liveCount_occupy {o : AudioObject} (hs : s < audioPoolMaxObjects)
    (hfree : (p.objects s).inUse = false) (huse : o.inUse = true) (j : AudioObjHandle) :
    liveCount (setObject p s o) j =
      if j = packHandle s o.generation then some o.refcount else liveCount p j := by
  have hnew : resolve (setObject p s o) (packHandle s o.generation) = some s := by
    refine resolve_eq_some.mpr ⟨hs, ?_, ?_⟩ <;> rw [setObject_same]
    exact huse
  by_cases hj : j = packHandle s o.generation
  · rw [if_pos hj, hj, liveCount_of_resolve hnew, setObject_same]
  · rw [if_neg hj]
    have hresolve : resolve (setObject p s o) j = resolve p j := by
      refine Option.ext fun t => ?_
      rw [resolve_eq_some, resolve_eq_some]
      by_cases ht : t = s
      · subst ht
        rw [setObject_same, hfree]
        simp [hj]
      · rw [setObject_ne _ ht]
    unfold liveCount
    rw [hresolve]
    cases ht : resolve p j with
    | none => rfl
    | some t =>
      have hne : t ≠ s := by
        rintro rfl
        rw [(resolve_eq_some.mp ht).2.1] at hfree
        cases hfree
      simp [setObject_ne o hne]

theorem packHandle_slot {slot slot' gen gen' : Nat} (hs : slot < audioPoolMaxObjects)
    (hs' : slot' < audioPoolMaxObjects) (h : packHandle slot gen = packHandle slot' gen') :
    slot = slot' := by
  unfold packHandle at h
  unfold audioPoolMaxObjects at hs hs'
  omega

theorem audioPoolAlloc_ok {size ownerVm : Nat} {p' : AudioPool}
    (hok : audioPoolAlloc p size ownerVm = (.ok, h, p')) :
    resolve p h = none ∧ (∀ j, liveCount p' j = if j = h then some 1 else liveCount p j) := by
  unfold audioPoolAlloc at hok
  dsimp only at hok
  split at hok
  · cases hok
  · cases hslot : findFreeSlot p with
    | none =>
      rw [hslot] at hok
      cases hok
    | some slot =>
      have hlt : slot < audioPoolMaxObjects :=
        List.mem_range.mp (List.mem_of_find?_eq_some hslot)
      have hfree : (p.objects slot).inUse = false := by
        simpa using List.find?_some hslot
      have hchain := buildChain_same slot (blocksNeeded size) p audioPoolNoBlock audioPoolNoBlock
      rw [hslot] at hok
      dsimp only at hok
      rcases hbuild : buildChain slot (blocksNeeded size) p audioPoolNoBlock audioPoolNoBlock with
        ⟨head, p₁⟩
      rw [hbuild] at hok hchain
      cases head with
      | none => cases hok
      | some head =>
        cases hok
        refine ⟨?_, fun j => ?_⟩
        · rw [Option.eq_none_iff_forall_ne_some]
          intro t ht
          obtain ⟨htlt, huse, hpack⟩ := resolve_eq_some.mp ht
          rw [packHandle_slot hlt htlt hpack, huse] at hfree
          cases hfree
        · rw [← hchain.liveCount j]
          exact liveCount_occupy hlt (hchain.objects ▸ hfree) rfl j

theorem audioPoolAllocWithRate_live {size ownerVm sampleRate : Nat} :
    (audioPoolAllocWithRate p size ownerVm sampleRate).1 = (audioPoolAlloc p size ownerVm).1 ∧
    (audioPoolAllocWithRate p size ownerVm sampleRate).2.1 = (audioPoolAlloc p size ownerVm).2.1 ∧
    ∀ j, liveCount (audioPoolAllocWithRate p size ownerVm sampleRate).2.2 j =
      liveCount (audioPoolAlloc p size ownerVm).2.2 j := by
  unfold audioPoolAllocWithRate
  obtain ⟨r, h, p'⟩ := audioPoolAlloc p size ownerVm
  cases r with
  | ok =>
    dsimp only
    cases hu : unpackHandle h with
    | none => exact ⟨rfl, rfl, fun _ => rfl⟩
    | some sg =>
      obtain ⟨slot, gen⟩ := sg
      dsimp only
      split
      · rename_i huse
        refine ⟨rfl, rfl, fun j => ?_⟩
        rw [liveCount_setObject (resolve_pack huse.1 huse.2) (by exact huse.2) (by rfl)]
        split
        · rename_i hj
          rw [hj, liveCount_of_resolve (resolve_pack huse.1 huse.2)]
        · rfl
      · exact ⟨rfl, rfl, fun _ => rfl⟩
  | _ => exact ⟨rfl, rfl, fun _ => rfl⟩

theorem writeChain_same (src : List Byte) (n fuel : Nat) (p : AudioPool) (written b inOff : Nat) :
    SameObjects p (writeChain src n fuel p written b inOff).2 := by
  induction fuel generalizing p written b inOff with
  | zero => exact .refl p
  | succ fuel ih =>
    unfold writeChain
    split
    · exact ⟨(ih _ _ _ _).objects, (ih _ _ _ _).generations⟩
    · exact .refl p

theorem audioPoolWrite_same (p : AudioPool) (h : AudioObjHandle) (offset : Nat) (src : List Byte) :
    SameObjects p (audioPoolWrite p h offset src).2.2 := by
  unfold audioPoolWrite
  cases resolve p h with
  | none => exact .refl p
  | some slot =>
    dsimp only
    split
    · exact .refl p
    · exact writeChain_same ..

end Microgarbage.Audio
