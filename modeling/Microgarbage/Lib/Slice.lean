import Mathlib.Data.List.Basic

/-!
# Slices of a buffer

A buffer is a function from positions to cells. `slice` reads a run of cells, `splice` overwrites
one.
-/

namespace Microgarbage.Lib

variable {α : Type*}

/-- The `n` cells from `start` on. -/
def slice (buf : Nat → α) (start n : Nat) : List α := (List.range n).map fun k => buf (start + k)

/-- The cells of `l` written from `start` on. -/
def splice (buf : Nat → α) (start : Nat) (l : List α) : Nat → α := fun i =>
  if start ≤ i then (l[i - start]?).getD (buf i) else buf i

@[simp] theorem length_slice (buf : Nat → α) (start n : Nat) : (slice buf start n).length = n := by
  simp [slice]

@[simp] theorem slice_zero (buf : Nat → α) (start : Nat) : slice buf start 0 = [] := rfl

theorem slice_congr {buf buf' : Nat → α} {start start' n : Nat}
    (h : ∀ k < n, buf (start + k) = buf' (start' + k)) : slice buf start n = slice buf' start' n :=
  List.map_congr_left fun k hk => h k (List.mem_range.mp hk)

theorem slice_add (buf : Nat → α) (start m n : Nat) :
    slice buf start (m + n) = slice buf start m ++ slice buf (start + m) n := by
  unfold slice
  rw [List.range_add, List.map_append, List.map_map]
  congr 1
  refine List.map_congr_left fun k _ => ?_
  simp only [Function.comp_apply, Nat.add_assoc]

theorem take_slice (buf : Nat → α) (start : Nat) {m n : Nat} (h : m ≤ n) :
    (slice buf start n).take m = slice buf start m := by
  obtain ⟨k, rfl⟩ := Nat.exists_eq_add_of_le h
  rw [slice_add, List.take_append_of_le_length (by simp), List.take_of_length_le (by simp)]

theorem slice_splice (buf : Nat → α) (start : Nat) (l : List α) :
    slice (splice buf start l) start l.length = l := by
  refine List.ext_getElem (length_slice ..) fun i _ hi => ?_
  simp [slice, splice, List.getElem?_eq_getElem hi]

variable {buf : Nat → α}

theorem slice_splice_below {start from' n : Nat} {l : List α} (h : from' + n ≤ start) :
    slice (splice buf start l) from' n = slice buf from' n :=
  slice_congr fun k hk => if_neg (by omega)

theorem slice_splice_above {start from' n : Nat} {l : List α} (h : start + l.length ≤ from') :
    slice (splice buf start l) from' n = slice buf from' n := by
  refine slice_congr fun k hk => ?_
  unfold splice
  rw [List.getElem?_eq_none (by omega)]
  split <;> rfl

theorem splice_slice_self (buf : Nat → α) (start n : Nat) :
    splice buf start (slice buf start n) = buf := by
  funext i
  unfold splice
  split
  · rename_i hi
    by_cases hn : i - start < n
    · simp [slice, hn, Nat.add_sub_cancel' hi]
    · rw [List.getElem?_eq_none (by simp; omega)]
      rfl
  · rfl

theorem slice_map_range (buf : Nat → α) (start n : Nat) (f : Nat → α → α) :
    slice (fun j => if start ≤ j ∧ j < start + n then f (j - start) (buf j) else buf j) start n =
      (slice buf start n).mapIdx f := by
  refine List.ext_getElem (by simp) fun i hi _ => ?_
  rw [length_slice] at hi
  simp [slice, hi]

theorem slice_shift (buf : Nat → α) (start n : Nat) :
    slice (splice buf 0 (slice buf start n)) 0 n = slice buf start n := by
  have h := slice_splice buf 0 (slice buf start n)
  rwa [length_slice] at h

theorem prefix_append {a b l : List α} (ha : a <+: l) (hb : b <+: l.drop a.length) :
    a ++ b <+: l := by
  obtain ⟨rest, rfl⟩ := ha
  rw [List.drop_left] at hb
  exact (List.prefix_append_right_inj a).mpr hb

theorem slice_front {start m n : Nat} {l : List α} (h : slice buf start n <+: l) (hm : m ≤ n) :
    slice buf start m <+: l := by
  rw [← take_slice buf start hm]
  exact (List.take_prefix ..).trans h

theorem slice_back {start m n : Nat} {l : List α} (h : slice buf start n <+: l) (hm : m ≤ n) :
    slice buf (start + m) (n - m) <+: l.drop m := by
  obtain ⟨rest, rfl⟩ := h
  have hsplit := slice_add buf start m (n - m)
  rw [Nat.add_sub_cancel' hm] at hsplit
  rw [hsplit, List.append_assoc, List.drop_left' (length_slice ..)]
  exact List.prefix_append ..

/-- A prefix, taken off the front of what follows `start`, moves the start on. -/
theorem take_append_prefix {a l : List α} {start : Nat} (h : a <+: l.drop start) :
    l.take start ++ a = l.take (start + a.length) := by
  rw [List.take_add, ← List.prefix_iff_eq_take.mp h]

end Microgarbage.Lib
