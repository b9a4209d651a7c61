import Microgarbage.Storage.Fsck

/-!
# The calls of trashfs on a sound volume

Path resolution stays among the inodes in use, and every call leaves a sound volume sound, whether
it succeeds or fails.
-/

namespace Microgarbage.Storage

open Lib
open TrashfsVolume (direntInode direntNamed)

variable {v v' : TrashfsVolume} {d off n : Nat} {name : List Byte}

/-! ## Lookup -/

/-- An inode in use, of the type that its entry says. -/
structure NodeOk (v : TrashfsVolume) (ino : Nat) (type : Byte) : Prop where
  lt : ino < v.inodeCount
  used : v.inodeUsed ino = true
  type : type = trashfsTypeDir ↔ isDirectory v ino = true

theorem Sound.rootOk (hs : Sound v) : NodeOk v trashfsRootInode trashfsTypeDir :=
  ⟨hs.root.1, hs.root.2.1, iff_of_true rfl hs.root.2.2⟩

theorem find_live (hd : d < v.inodeCount) (hu : v.inodeUsed d = true) (hdir : isDirectory v d = true)
    (h : slotNamed v d name = some off) :
    Live v d off ∧ entryName (fileByte v d) off = name := by
  obtain ⟨hs, hle, hnamed⟩ := slotNamed_some h
  obtain ⟨hne, hname⟩ := direntNamed_iff.mp hnamed
  exact ⟨⟨hd, hu, hdir, hs, hle, hne⟩, hname⟩

theorem Sound.find (hs : Sound v) (hd : NodeOk v d trashfsTypeDir) (hname : name.length ≤ 32)
    {ino : Nat} {type : Byte} (h : v.dirFindIn d name = some (ino, type)) :
    NodeOk v ino type ∧ ∃ off, slotNamed v d name = some off ∧ Live v d off ∧
      direntInode (fileByte v d) off = ino := by
  rw [dirFindIn_eq hname] at h
  obtain ⟨off, hoff, heq⟩ := Option.map_eq_some_iff.mp h
  rw [Prod.mk.injEq] at heq
  obtain ⟨rfl, rfl⟩ := heq
  obtain ⟨hlive, -⟩ := find_live hd.lt hd.used (hd.type.mp rfl) hoff
  obtain ⟨hlt, hused, htype, -⟩ := hs.entry d off hlive
  exact ⟨⟨hlt, hused, htype⟩, off, hoff, hlive, rfl⟩

/-! ## Paths -/

theorem stepPath_spec (hs : Sound v) {allow : Bool} {stack : List Nat} {cur : Nat} {type : Byte}
    {names : List (List Byte)} (hnames : ∀ c ∈ names, c.length ≤ 32)
    (hstack : ∀ s ∈ stack, NodeOk v s trashfsTypeDir) (hcur : NodeOk v cur type)
    (htype : (names = [] ∧ allow = true) ∨ type = trashfsTypeDir) {ino : Nat} {t : Byte}
    (h : v.stepPath allow stack cur type names = .ok (ino, t)) :
    NodeOk v ino t ∧ (allow = false → t = trashfsTypeDir) := by
  induction names generalizing stack cur type with
  | nil =>
    unfold TrashfsVolume.stepPath at h
    rw [Except.ok.injEq, Prod.mk.injEq] at h
    obtain ⟨rfl, rfl⟩ := h
    exact ⟨hcur, fun ha => htype.resolve_left fun hand => by rw [hand.2] at ha; cases ha⟩
  | cons c rest ih =>
    have hrest : ∀ c ∈ rest, c.length ≤ 32 := fun c hc => hnames c (List.mem_cons_of_mem _ hc)
    have hdir : type = trashfsTypeDir := htype.resolve_left fun hand => by cases hand.1
    unfold TrashfsVolume.stepPath at h
    by_cases hdot : c = [dot]
    · rw [if_pos hdot] at h
      exact ih hrest hstack hcur (.inr hdir) h
    · rw [if_neg hdot] at h
      by_cases hup : c = [dot, dot]
      · rw [if_pos hup] at h
        dsimp only at h
        have hstack' : ∀ s ∈ (if stack.tail = [] then stack else stack.tail),
            NodeOk v s trashfsTypeDir := by
          split
          · exact hstack
          · exact fun s hs => hstack s (List.mem_of_mem_tail hs)
        refine ih hrest hstack' ?_ (.inr rfl) h
        generalize (if stack.tail = [] then stack else stack.tail) = stack' at hstack' ⊢
        cases stack' with
        | nil => exact hs.rootOk
        | cons s stack' => exact hstack' s (List.mem_cons_self ..)
      · rw [if_neg hup] at h
        cases hfind : v.dirFindIn cur c with
        | none =>
          rw [hfind] at h
          cases h
        | some it =>
          obtain ⟨ino', type'⟩ := it
          rw [hfind] at h
          dsimp only at h
          obtain ⟨hnode, -⟩ := hs.find (hdir ▸ hcur) (hnames c (List.mem_cons_self ..)) hfind
          by_cases hlast : rest ≠ [] ∨ (!allow) = true
          · rw [if_pos hlast] at h
            by_cases ht : type' = trashfsTypeDir
            · rw [if_neg (not_not_intro ht)] at h
              by_cases hdeep : trashfsPathDepth ≤ stack.length
              · rw [if_pos hdeep] at h
                cases h
              · rw [if_neg hdeep] at h
                refine ih hrest (fun s hs' => ?_) hnode (.inr ht) h
                rcases List.mem_cons.mp hs' with rfl | hmem
                · exact ht ▸ hnode
                · exact hstack s hmem
            · rw [if_pos ht] at h
              cases h
          · rw [if_neg hlast] at h
            rw [not_or, not_not] at hlast
            exact ih hrest hstack hnode (.inl ⟨hlast.1, by simpa using hlast.2⟩) h

variable {path : List Byte}

theorem pathTokenize_ok {names : List (List Byte)} (h : pathTokenize path = .ok names) :
    names = components path ∧ (∀ c ∈ names, c.length ≤ 32) ∧ names.length ≤ 40 := by
  unfold pathTokenize at h
  split at h
  · cases h
  · rename_i hok
    rw [Except.ok.injEq] at h
    subst h
    rw [not_or, Nat.not_lt] at hok
    refine ⟨rfl, fun c hc => ?_, hok.2⟩
    have hall := hok.1
    rw [List.any_eq_true, not_exists] at hall
    have hnot := hall c
    simp only [hc, true_and, decide_eq_true_eq, Nat.not_lt] at hnot
    exact hnot

theorem resolveFull_spec (hs : Sound v) {ino : Nat} {type : Byte}
    (h : v.resolveFull path = .ok (ino, type)) : NodeOk v ino type := by
  unfold TrashfsVolume.resolveFull at h
  cases htok : pathTokenize path with
  | error e =>
    rw [htok] at h
    cases h
  | ok names =>
    rw [htok] at h
    have hroot : ∀ s ∈ [trashfsRootInode], NodeOk v s trashfsTypeDir := fun s hs' =>
      List.mem_singleton.mp hs' ▸ hs.rootOk
    exact (stepPath_spec hs (pathTokenize_ok htok).2.1 hroot hs.rootOk (.inr rfl) h).1

theorem resolveParent_ok {parent : Nat} (h : v.resolveParent path = .ok (parent, name)) :
    ∃ names t, pathTokenize path = .ok names ∧ names.getLast? = some name ∧
      ¬(name = [dot] ∨ name = [dot, dot]) ∧ v.pathStep false names.dropLast = .ok (parent, t) := by
  unfold TrashfsVolume.resolveParent at h
  split at h
  · cases h
  · next names htok =>
    split at h
    · cases h
    · next leaf hlast =>
      split at h
      · cases h
      · next hdots =>
        split at h
        · cases h
        · next parent' t hstep =>
          rw [Except.ok.injEq, Prod.mk.injEq] at h
          obtain ⟨rfl, rfl⟩ := h
          exact ⟨names, t, htok, hlast, hdots, hstep⟩

/-- What `resolve_parent` gives: a directory, and a name that can be an entry's. -/
structure ParentOk (v : TrashfsVolume) (parent : Nat) (name : List Byte) : Prop where
  dir : NodeOk v parent trashfsTypeDir
  length : name.length ≤ 32

theorem resolveParent_spec (hs : Sound v) {parent : Nat}
    (h : v.resolveParent path = .ok (parent, name)) : ParentOk v parent name := by
  obtain ⟨names, t, htok, hlast, -, hstep⟩ := resolveParent_ok h
  obtain ⟨-, hlen, -⟩ := pathTokenize_ok htok
  have hroot : ∀ s ∈ [trashfsRootInode], NodeOk v s trashfsTypeDir := fun s hs' =>
    List.mem_singleton.mp hs' ▸ hs.rootOk
  have hnames : ∀ c ∈ names.dropLast, c.length ≤ 32 := fun c hc =>
    hlen c (List.dropLast_subset names hc)
  obtain ⟨hnode, hdir⟩ := stepPath_spec hs hnames hroot hs.rootOk (.inr rfl) hstep
  exact ⟨hdir rfl ▸ hnode, hlen name (List.mem_of_getLast? hlast)⟩

/-! ### Errors -/

theorem stepPath_ne_ok {allow : Bool} {stack : List Nat} {cur : Nat} {type : Byte}
    {names : List (List Byte)} {e : TrashfsResult}
    (h : v.stepPath allow stack cur type names = .error e) : e ≠ .ok := by
  induction names generalizing stack cur type with
  | nil =>
    unfold TrashfsVolume.stepPath at h
    cases h
  | cons c rest ih =>
    unfold TrashfsVolume.stepPath at h
    split at h
    · exact ih h
    · split at h
      · exact ih h
      · split at h
        · cases h
          nofun
        · split at h
          · split at h
            · cases h
              nofun
            · split at h
              · cases h
                nofun
              · exact ih h
          · exact ih h

theorem pathTokenize_ne_ok {e : TrashfsResult} (h : pathTokenize path = .error e) : e ≠ .ok := by
  unfold pathTokenize at h
  split at h
  · cases h
    nofun
  · cases h

theorem resolveParent_ne_ok {e : TrashfsResult} (h : v.resolveParent path = .error e) :
    e ≠ .ok := by
  unfold TrashfsVolume.resolveParent at h
  split at h
  · next htok =>
    rw [Except.error.injEq] at h
    exact h ▸ pathTokenize_ne_ok htok
  · split at h
    · cases h
      nofun
    · split at h
      · cases h
        nofun
      · split at h
        · next hstep =>
          rw [Except.error.injEq] at h
          exact h ▸ stepPath_ne_ok hstep
        · cases h

end Microgarbage.Storage
