import Mathlib.Data.List.Induction
import Mathlib.Tactic.Common

/-!
# Walks over the chunks of a file

A chunk starts with a header of `hdr` bytes and is followed by the next one `adv` bytes further on.
A walk goes from chunk to chunk as long as a whole header is left. Where a chunk does not advance
there is no walk; where every chunk does, there is just one, and it goes forward.
-/

namespace Microgarbage.Lib

section

variable (adv : Nat → Nat) (hdr len : Nat)

/-- The chunks that are met from a position on. -/
inductive ChunkWalk : Nat → List Nat → Prop where
  | stop {pos : Nat} : len < pos + hdr → ChunkWalk pos []
  | chunk {pos : Nat} {ps : List Nat} : pos + hdr ≤ len → ChunkWalk (pos + adv pos) ps →
      ChunkWalk pos (pos :: ps)

/-- The chunks that a walk from `start` comes to, whether it ends or not. -/
inductive ChunkReached (start : Nat) : Nat → Prop where
  | first : start + hdr ≤ len → ChunkReached start start
  | next {pos : Nat} : ChunkReached start pos → pos + adv pos + hdr ≤ len →
      ChunkReached start (pos + adv pos)

end

variable {adv adv' : Nat → Nat} {hdr len len' pos : Nat} {ps ps' : List Nat}

namespace ChunkWalk

theorem unique (h : ChunkWalk adv hdr len pos ps) (h' : ChunkWalk adv hdr len pos ps') :
    ps' = ps := by
  induction h generalizing ps' with
  | stop hlt =>
    cases h' with
    | stop => rfl
    | chunk hle => omega
  | chunk hle _ ih =>
    cases h' with
    | stop hlt => omega
    | chunk _ h' => rw [ih h']

theorem ge (h : ChunkWalk adv hdr len pos ps) : ∀ p ∈ ps, pos ≤ p := by
  induction h with
  | stop => simp
  | chunk _ _ ih =>
    exact List.forall_mem_cons.mpr
      ⟨Nat.le_refl _, fun p hp => Nat.le_trans (Nat.le_add_right ..) (ih p hp)⟩

theorem fits (h : ChunkWalk adv hdr len pos ps) : ∀ p ∈ ps, p + hdr ≤ len := by
  induction h with
  | stop => simp
  | chunk hle _ ih => exact List.forall_mem_cons.mpr ⟨hle, ih⟩

/-- In a shorter file the walk is the same as far as the headers are whole. -/
theorem truncate (h : ChunkWalk adv hdr len pos ps) (hle : len' ≤ len)
    (hadv : ∀ p, p + hdr ≤ len' → adv' p = adv p) :
    ChunkWalk adv' hdr len' pos (ps.filter (· + hdr ≤ len')) := by
  induction h with
  | stop hlt => exact .stop (by omega)
  | @chunk pos ps hfit hrest ih =>
    by_cases hin : pos + hdr ≤ len'
    · rw [List.filter_cons_of_pos (by simpa using hin)]
      refine .chunk hin ?_
      rwa [hadv pos hin]
    · have hnone : (pos :: ps).filter (· + hdr ≤ len') = [] := by
        refine List.filter_eq_nil_iff.mpr fun p hp => ?_
        have := (ChunkWalk.chunk hfit hrest).ge p hp
        simpa using by omega
      rw [hnone]
      exact .stop (by omega)

end ChunkWalk

theorem ChunkReached.of_next (hfit : pos + hdr ≤ len) {p : Nat}
    (h : ChunkReached adv hdr len (pos + adv pos) p) : ChunkReached adv hdr len pos p := by
  induction h with
  | first hle => exact .next (.first hfit) hle
  | next _ hle ih => exact .next ih hle

theorem exists_chunkWalk (pos : Nat) (h : ∀ p, ChunkReached adv hdr len pos p → 0 < adv p) :
    ∃ ps, ChunkWalk adv hdr len pos ps := by
  by_cases hfit : pos + hdr ≤ len
  · have hadv := h pos (.first hfit)
    obtain ⟨ps, hps⟩ := exists_chunkWalk (pos + adv pos) fun p hp => h p (hp.of_next hfit)
    exact ⟨pos :: ps, .chunk hfit hps⟩
  · exact ⟨[], .stop (by omega)⟩
termination_by len + 1 - pos

/-! ## The last chunk of a kind -/

/-- The last of the positions that are of a kind. -/
def lastOf (kind : Nat → Bool) (ps : List Nat) : Option Nat := (ps.filter kind).getLast?

variable {kind kind' : Nat → Bool} {p : Nat}

theorem lastOf_concat (ps : List Nat) (p : Nat) :
    lastOf kind (ps ++ [p]) = if kind p = true then some p else lastOf kind ps := by
  unfold lastOf
  rw [List.filter_append]
  cases h : kind p <;> simp [h]

theorem mem_of_lastOf (h : lastOf kind ps = some p) : p ∈ ps ∧ kind p = true :=
  List.mem_filter.mp (List.mem_of_getLast? h)

theorem lastOf_of_imp (h : lastOf kind ps = some p) (hp : kind' p = true)
    (himp : ∀ q ∈ ps, kind' q = true → kind q = true) : lastOf kind' ps = some p := by
  induction ps using List.reverseRecOn with
  | nil => cases h
  | append_singleton ps q ih =>
    rw [lastOf_concat] at h ⊢
    have himp' : ∀ q ∈ ps, kind' q = true → kind q = true := fun r hr =>
      himp r (List.mem_append_left _ hr)
    cases hq : kind q with
    | true =>
      rw [hq, if_pos rfl, Option.some.injEq] at h
      subst h
      rw [hp, if_pos rfl]
    | false =>
      have hq' : ¬ kind' q = true := fun hk => by
        rw [himp q (by simp) hk] at hq
        cases hq
      rw [hq, if_neg (by simp)] at h
      rw [if_neg hq']
      exact ih h himp'

theorem lastOf_filter (keep : Nat → Bool) :
    lastOf kind (ps.filter keep) = lastOf (fun q => kind q && keep q) ps := by
  unfold lastOf
  rw [List.filter_filter]

end Microgarbage.Lib
