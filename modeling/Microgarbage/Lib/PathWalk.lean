import Mathlib.Data.List.Infix

/-!
# Walks along paths

A path is a list of steps, into a child or up to the parent. At the top, which is the first
`floor` names of a directory, a step up stays. This file says when a walk never leaves the directory
where it starts.
-/

namespace Microgarbage.Lib

inductive PathStep (α : Type*) where
  | up
  | down (name : α)
  deriving DecidableEq

section Walks

variable {α : Type*} (floor : Nat)

def PathStep.apply (dir : List α) : PathStep α → List α
  | .up => if floor < dir.length then dir.dropLast else dir
  | .down a => dir ++ [a]

def walkPath (dir : List α) (l : List (PathStep α)) : List α := l.foldl (PathStep.apply floor) dir

/-- The steps climb above where they began, which is `depth` names up. -/
def climbs : Nat → List (PathStep α) → Bool
  | _, [] => false
  | 0, .up :: _ => true
  | depth + 1, .up :: l => climbs depth l
  | depth, .down _ :: l => climbs (depth + 1) l

variable {floor}

@[simp] theorem walkPath_nil (dir : List α) : walkPath floor dir [] = dir := rfl

@[simp] theorem walkPath_cons (dir : List α) (x : PathStep α) (l : List (PathStep α)) :
    walkPath floor dir (x :: l) = walkPath floor (x.apply floor dir) l := rfl

theorem walkPath_append (dir : List α) (l l' : List (PathStep α)) :
    walkPath floor dir (l ++ l') = walkPath floor (walkPath floor dir l) l' :=
  List.foldl_append

theorem forall_prefix_cons {β : Type*} {P : List β → Prop} {x : β} {l : List β} :
    (∀ l', l' <+: x :: l → P l') ↔ P [] ∧ ∀ l', l' <+: l → P (x :: l') := by
  constructor
  · exact fun h => ⟨h [] List.nil_prefix, fun l' hl' => h _ (List.cons_prefix_cons.mpr ⟨rfl, hl'⟩)⟩
  · rintro ⟨hnil, hcons⟩ l' hl'
    rcases List.prefix_cons_iff.mp hl' with rfl | ⟨t, rfl, ht⟩
    · exact hnil
    · exact hcons t ht

/-- A walk stays inside the directory where it starts if that is at the top, or if it never climbs
above it. `below` are the names of the walk's place under that directory. -/
theorem walk_below_iff {dir below : List α} {l : List (PathStep α)} :
    (∀ l', l' <+: l → dir <+: walkPath floor (dir ++ below) l') ↔
      dir.length ≤ floor ∨ climbs below.length l = false := by
  induction l generalizing below with
  | nil =>
    refine ⟨fun _ => .inr (by cases below <;> rfl), fun _ l' hl' => ?_⟩
    rw [List.prefix_nil.mp hl']
    exact List.prefix_append ..
  | cons x l ih =>
    rw [forall_prefix_cons]
    simp only [walkPath_nil, walkPath_cons, List.prefix_append, true_and]
    cases x with
    | down a =>
      have hdown : PathStep.apply floor (dir ++ below) (.down a) = dir ++ (below ++ [a]) :=
        List.append_assoc ..
      rw [hdown, ih, List.length_append, List.length_singleton]
      cases below <;> rfl
    | up =>
      rcases List.eq_nil_or_concat below with rfl | ⟨b, a, rfl⟩
      · rw [List.append_nil]
        unfold PathStep.apply
        dsimp only
        split
        · next hlt =>
          -- one step up is out of the directory
          constructor
          · intro h
            have hle := (h [] List.nil_prefix).length_le
            rw [walkPath_nil, List.length_dropLast] at hle
            omega
          · rintro (h | h)
            · exact absurd h (Nat.not_le.mpr hlt)
            · cases h
        · next hlt =>
          have hstay : (∀ l', l' <+: l → dir <+: walkPath floor (dir ++ []) l') ↔
              dir.length ≤ floor ∨ climbs 0 l = false := ih
          rw [List.append_nil] at hstay
          rw [hstay]
          exact ⟨fun _ => .inl (Nat.le_of_not_lt hlt), fun _ => .inl (Nat.le_of_not_lt hlt)⟩
      · have hclimb : climbs (b.concat a).length (.up :: l) = climbs b.length l := by
          rw [List.length_concat]
          rfl
        rw [hclimb]
        unfold PathStep.apply
        dsimp only
        split
        · rw [List.concat_eq_append, ← List.append_assoc, List.dropLast_concat, ih]
        · next hlt =>
          have htop : dir.length ≤ floor := by
            rw [List.length_append] at hlt
            omega
          rw [ih]
          exact ⟨fun _ => .inl htop, fun _ => .inl htop⟩

end Walks

end Microgarbage.Lib
