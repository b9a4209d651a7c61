import Mathlib.Data.List.Basic
import Mathlib.Data.List.Nodup

/-!
# Ordered sets under a three-way comparison

A comparison is an integer, negative below and positive above; keys that compare as zero are one
key. An ordered set is its list of elements in strictly increasing order, so that its least element
is the head and its successor function a search from the left.
-/

namespace Microgarbage.Lib

open List

variable {α : Type*} {cmp : α → α → Int}

/-- A total order up to keys that compare as equal. -/
structure Comparator (cmp : α → α → Int) : Prop where
  swap : ∀ a b, 0 < cmp a b ↔ cmp b a < 0
  trans : ∀ a b c, cmp a b ≤ 0 → cmp b c ≤ 0 → cmp a c ≤ 0

namespace Comparator

variable (hc : Comparator cmp) {a b c : α}

include hc

theorem refl (a : α) : cmp a a = 0 := by
  have h := hc.swap a a
  omega

theorem zero_symm (h : cmp a b = 0) : cmp b a = 0 := by
  have h₁ := hc.swap a b
  have h₂ := hc.swap b a
  omega

theorem lt_of_lt_of_le (h : cmp a b < 0) (h' : cmp b c ≤ 0) : cmp a c < 0 := by
  refine Int.not_le.mp fun hac => ?_
  have hca : cmp c a ≤ 0 := Int.not_lt.mp fun hpos => Int.not_le.mpr ((hc.swap c a).mp hpos) hac
  have hba := hc.trans b c a h' hca
  have hpos := (hc.swap b a).mpr h
  omega

theorem lt_of_le_of_lt (h : cmp a b ≤ 0) (h' : cmp b c < 0) : cmp a c < 0 := by
  refine Int.not_le.mp fun hac => ?_
  have hca : cmp c a ≤ 0 := Int.not_lt.mp fun hpos => Int.not_le.mpr ((hc.swap c a).mp hpos) hac
  have hcb := hc.trans c a b hca h
  have hpos := (hc.swap c b).mpr h'
  omega

theorem lt_trans (h : cmp a b < 0) (h' : cmp b c < 0) : cmp a c < 0 :=
  hc.lt_of_lt_of_le h (Int.le_of_lt h')

theorem gt_of_gt_of_lt (h : 0 < cmp a b) (h' : cmp c b < 0) : 0 < cmp a c :=
  (hc.swap a c).mpr (hc.lt_trans h' ((hc.swap a b).mp h))

end Comparator

/-- Strictly increasing. -/
def Increasing (cmp : α → α → Int) (l : List α) : Prop :=
  l.Pairwise fun a b => cmp a b < 0

theorem increasing_append {l₁ l₂ : List α} : Increasing cmp (l₁ ++ l₂) ↔
    Increasing cmp l₁ ∧ Increasing cmp l₂ ∧ ∀ a ∈ l₁, ∀ b ∈ l₂, cmp a b < 0 :=
  pairwise_append

theorem increasing_cons {a : α} {l : List α} :
    Increasing cmp (a :: l) ↔ (∀ b ∈ l, cmp a b < 0) ∧ Increasing cmp l :=
  pairwise_cons

theorem Increasing.nodup (hc : Comparator cmp) {l : List α} (h : Increasing cmp l) : l.Nodup :=
  List.Pairwise.imp (fun {a b} hab => by
    rintro rfl
    rw [hc.refl] at hab
    exact Int.lt_irrefl 0 hab) h

@[ext]
structure OrderedSet (cmp : α → α → Int) where
  elems : List α
  increasing : Increasing cmp elems

namespace OrderedSet

def empty : OrderedSet cmp := ⟨[], List.Pairwise.nil⟩

variable (s : OrderedSet cmp) (e key : α)

/-- The element of the key, if there is one. -/
def find? : Option α := s.elems.find? fun v => cmp key v = 0

def below : List α := s.elems.filter fun v => 0 < cmp key v

def above : List α := s.elems.filter fun v => cmp key v < 0

def min? : Option α := s.elems.head?

def max? : Option α := s.elems.getLast?

/-- The next element after that of the key. -/
def next? : Option α := (s.find? key).bind fun _ => (s.above key).head?

def prev? : Option α := (s.find? key).bind fun _ => (s.below key).getLast?

variable {s e key}

theorem mem_below {v : α} : v ∈ s.below key ↔ v ∈ s.elems ∧ 0 < cmp key v := by
  simp [below]

theorem mem_above {v : α} : v ∈ s.above key ↔ v ∈ s.elems ∧ cmp key v < 0 := by
  simp [above]

def insert (hc : Comparator cmp) (s : OrderedSet cmp) (e : α) : OrderedSet cmp where
  elems := s.below e ++ e :: s.above e
  increasing := by
    refine increasing_append.mpr ⟨s.increasing.filter _, increasing_cons.mpr
      ⟨fun b hb => (mem_above.mp hb).2, s.increasing.filter _⟩, fun a ha b hb => ?_⟩
    have hae : cmp a e < 0 := (hc.swap e a).mp (mem_below.mp ha).2
    rcases mem_cons.mp hb with rfl | hb
    · exact hae
    · exact hc.lt_trans hae (mem_above.mp hb).2

def remove (s : OrderedSet cmp) (key : α) : OrderedSet cmp where
  elems := s.elems.filter fun v => cmp key v ≠ 0
  increasing := s.increasing.filter _

theorem find?_eq_none : s.find? key = none ↔ ∀ v ∈ s.elems, cmp key v ≠ 0 := by
  simp [find?]

theorem mem_insert (hc : Comparator cmp) (h : s.find? e = none) {v : α} :
    v ∈ (s.insert hc e).elems ↔ v = e ∨ v ∈ s.elems := by
  simp only [insert, mem_append, mem_cons, mem_below, mem_above]
  have hne := find?_eq_none.mp h v
  constructor
  · rintro (⟨hv, -⟩ | rfl | ⟨hv, -⟩)
    · exact .inr hv
    · exact .inl rfl
    · exact .inr hv
  · rintro (rfl | hv)
    · exact .inr (.inl rfl)
    · rcases Int.lt_trichotomy (cmp e v) 0 with hlt | heq | hgt
      · exact .inr (.inr ⟨hv, hlt⟩)
      · exact absurd heq (hne hv)
      · exact .inl ⟨hv, hgt⟩

theorem remove_of_none (h : s.find? key = none) : s.remove key = s := by
  have hall := find?_eq_none.mp h
  exact OrderedSet.ext (filter_eq_self.mpr (by simpa using hall))

end OrderedSet

/-! ## Splitting at a key -/

section Split

variable {l₁ l₂ : List α} {e key v : α} {s : OrderedSet cmp}

theorem filter_of_split {p : α → Bool} (h₁ : ∀ a ∈ l₁, p a) (h₂ : ∀ b ∈ l₂, ¬p b) :
    (l₁ ++ l₂).filter p = l₁ := by
  rw [filter_append, filter_eq_self.mpr h₁, filter_eq_nil_iff.mpr h₂,
    append_nil]

theorem filter_of_split' {p : α → Bool} (h₁ : ∀ a ∈ l₁, ¬p a) (h₂ : ∀ b ∈ l₂, p b) :
    (l₁ ++ l₂).filter p = l₂ := by
  rw [filter_append, filter_eq_nil_iff.mpr h₁, filter_eq_self.mpr h₂,
    nil_append]

namespace OrderedSet

theorem insert_elems (hc : Comparator cmp) (hs : s.elems = l₁ ++ l₂)
    (h₁ : ∀ a ∈ l₁, 0 < cmp e a) (h₂ : ∀ b ∈ l₂, cmp e b < 0) :
    (s.insert hc e).elems = l₁ ++ e :: l₂ ∧ s.find? e = none := by
  have hb : s.below e = l₁ := by
    rw [below, hs]
    exact filter_of_split (by simpa using h₁) fun b hb => by
      have := h₂ b hb
      simp only [decide_eq_true_eq]
      omega
  have ha : s.above e = l₂ := by
    rw [above, hs]
    refine filter_of_split' (fun a ha => ?_) (by simpa using h₂)
    have := h₁ a ha
    simp only [decide_eq_true_eq]
    omega
  have hsplit : (s.insert hc e).elems = s.below e ++ e :: s.above e := rfl
  refine ⟨by rw [hsplit, hb, ha], find?_eq_none.mpr fun v hv => ?_⟩
  rw [hs, mem_append] at hv
  rcases hv with hv | hv
  · have := h₁ v hv
    omega
  · have := h₂ v hv
    omega

variable (hc : Comparator cmp) (hs : s.elems = l₁ ++ v :: l₂) (hv : cmp key v = 0)

include hc hs hv

theorem split_before : ∀ a ∈ l₁, 0 < cmp key a := by
  intro a ha
  have hlt := (increasing_append.mp (hs ▸ s.increasing)).2.2 a ha v (by simp)
  exact (hc.swap key a).mpr (hc.lt_of_lt_of_le hlt (Int.le_of_eq (hc.zero_symm hv)))

theorem split_after : ∀ b ∈ l₂, cmp key b < 0 := by
  intro b hb
  have hlt := (increasing_cons.mp (increasing_append.mp (hs ▸ s.increasing)).2.1).1 b hb
  exact hc.lt_of_le_of_lt (Int.le_of_eq hv) hlt

theorem below_eq : s.below key = l₁ := by
  rw [below, hs]
  refine filter_of_split (by simpa using split_before hc hs hv) fun b hb => ?_
  have hle : cmp key b ≤ 0 := by
    rcases mem_cons.mp hb with rfl | hb
    · exact Int.le_of_eq hv
    · exact Int.le_of_lt (split_after hc hs hv b hb)
  simpa using hle

theorem above_eq : s.above key = l₂ := by
  have hs' : s.elems = (l₁ ++ [v]) ++ l₂ := by rw [hs, append_assoc, singleton_append]
  rw [above, hs']
  refine filter_of_split' (fun a ha => ?_) (by simpa using split_after hc hs hv)
  have hle : 0 ≤ cmp key a := by
    rcases mem_append.mp ha with ha | ha
    · exact Int.le_of_lt (split_before hc hs hv a ha)
    · exact Int.le_of_eq (by rw [mem_singleton.mp ha, hv])
  simpa using hle

theorem find?_eq_some : s.find? key = some v := by
  have h₁ := split_before hc hs hv
  rw [find?, hs, List.find?_append, List.find?_eq_none.mpr, Option.none_or, List.find?_cons]
  · simp [hv]
  · intro a ha
    have := h₁ a ha
    simp only [decide_eq_true_eq]
    omega

theorem remove_elems : (s.remove key).elems = l₁ ++ l₂ := by
  have h₁ : ∀ a ∈ l₁, cmp key a ≠ 0 := fun a ha => Int.ne_of_gt (split_before hc hs hv a ha)
  have h₂ : ∀ b ∈ l₂, cmp key b ≠ 0 := fun b hb => Int.ne_of_lt (split_after hc hs hv b hb)
  change s.elems.filter _ = _
  rw [hs, filter_append, filter_cons_of_neg (by simp [hv]),
    filter_eq_self.mpr (by simpa using h₁), filter_eq_self.mpr (by simpa using h₂)]

omit hs hv in
theorem find?_of_mem (hv : v ∈ s.elems) (h0 : cmp key v = 0) : s.find? key = some v := by
  obtain ⟨l₁, l₂, hs⟩ := append_of_mem hv
  exact find?_eq_some hc hs h0

omit hs hv in
theorem insert_perm (h : s.find? e = none) : (s.insert hc e).elems.Perm (e :: s.elems) := by
  have he : e ∉ s.elems := fun hm => find?_eq_none.mp h e hm (hc.refl e)
  refine (perm_ext_iff_of_nodup ((s.insert hc e).increasing.nodup hc)
    (nodup_cons.mpr ⟨he, s.increasing.nodup hc⟩)).mpr fun v => ?_
  rw [mem_insert hc h, mem_cons]

omit hs hv in
theorem remove_perm (hv : v ∈ s.elems) (h0 : cmp key v = 0) :
    s.elems.Perm (v :: (s.remove key).elems) := by
  obtain ⟨l₁, l₂, hs⟩ := append_of_mem hv
  rw [remove_elems hc hs h0, hs]
  exact perm_middle

end OrderedSet

end Split

/-! ## Runs -/

inductive SetOp (α : Type*) where
  | insert (e : α)
  | remove (key : α)
  | find (key : α)
  | contains (key : α)
  | min
  | max
  | next (key : α)
  | prev (key : α)

inductive SetReply (α : Type*) where
  | done (b : Bool)
  | elem (x : Option α)

namespace OrderedSet

/-- One operation on a set of at most `capacity` elements. -/
def step (hc : Comparator cmp) (capacity : Nat) (s : OrderedSet cmp) :
    SetOp α → OrderedSet cmp × SetReply α
  | .insert e =>
    if (s.find? e).isSome ∨ capacity ≤ s.elems.length then (s, .done false)
    else (s.insert hc e, .done true)
  | .remove key => (s.remove key, .elem (s.find? key))
  | .find key => (s, .elem (s.find? key))
  | .contains key => (s, .done (s.find? key).isSome)
  | .min => (s, .elem s.min?)
  | .max => (s, .elem s.max?)
  | .next key => (s, .elem (s.next? key))
  | .prev key => (s, .elem (s.prev? key))

def run (hc : Comparator cmp) (capacity : Nat) (s : OrderedSet cmp) :
    List (SetOp α) → OrderedSet cmp × List (SetReply α)
  | [] => (s, [])
  | op :: ops =>
    let (s, reply) := s.step hc capacity op
    let (s, replies) := run hc capacity s ops
    (s, reply :: replies)

end OrderedSet

end Microgarbage.Lib
