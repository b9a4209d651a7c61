import Mathlib.Tactic.Common

/-!
# Byte memories

A memory is a total function from addresses to bytes. Every write of the C code (`memcpy`,
`memset`, a little-endian store) is an *overlay*: a range of addresses replaced by the bytes of
another function. Reads are little-endian concatenations. The lemmas say what an overlay leaves
alone and what it installs; nothing here knows a particular program.
-/

namespace Microgarbage.Lib

abbrev Byte := BitVec 8

/-- A byte-addressed memory. -/
abbrev Mem := Nat → Byte

/-- Byte `i` of a word, least significant first. -/
def byteOf {w : Nat} (v : BitVec w) (i : Nat) : Byte := v.extractLsb' (8 * i) 8

namespace Mem

/-- `m` with the `n` bytes from `p` on replaced by `f 0, …, f (n - 1)`. -/
def overlay (m : Mem) (p n : Nat) (f : Nat → Byte) : Mem :=
  fun a => if p ≤ a ∧ a < p + n then f (a - p) else m a

variable {w : Nat}

/-- Little-endian store of the low `n` bytes of `v`. -/
def store (m : Mem) (p n : Nat) (v : BitVec w) : Mem :=
  m.overlay p n (byteOf v)

def load16 (m : Mem) (p : Nat) : BitVec 16 := m (p + 1) ++ m p

def load32 (m : Mem) (p : Nat) : BitVec 32 := m (p + 3) ++ m (p + 2) ++ m (p + 1) ++ m p

variable {f : Nat → Byte}

theorem overlay_in {m : Mem} {p n : Nat} {a : Nat} (h : p ≤ a) (h' : a < p + n) :
    m.overlay p n f a = f (a - p) := by
  simp only [overlay, h, h', and_self, ↓reduceIte]

theorem overlay_out {m : Mem} {p n : Nat} {a : Nat} (h : a < p ∨ p + n ≤ a) :
    m.overlay p n f a = m a := by
  simp only [overlay]
  rw [if_neg (by omega)]

@[simp] theorem overlay_zero (m : Mem) (p : Nat) (f : Nat → Byte) : m.overlay p 0 f = m := by
  funext a
  exact overlay_out (by omega)

theorem overlay_ne {m : Mem} {p n : Nat} {a : Nat} (h : m.overlay p n f a ≠ m a) :
    p ≤ a ∧ a < p + n := by
  by_contra hc
  exact h (overlay_out (by omega))

theorem overlay_agree {m m' : Mem} {p n x : Nat} (h : m' x = m x) :
    m'.overlay p n f x = m.overlay p n f x := by
  unfold overlay
  split
  · rfl
  · exact h

theorem store_out {m : Mem} {p n : Nat} {v : BitVec w} {a : Nat} (h : a < p ∨ p + n ≤ a) :
    m.store p n v a = m a :=
  overlay_out h

theorem store_ne {m : Mem} {p n : Nat} {v : BitVec w} {a : Nat} (h : m.store p n v a ≠ m a) :
    p ≤ a ∧ a < p + n :=
  overlay_ne h

theorem load16_congr {m m' : Mem} {p : Nat} (h : ∀ i < 2, m (p + i) = m' (p + i)) :
    m.load16 p = m'.load16 p := by
  unfold load16
  rw [h 1 (by omega), show m p = m' p from h 0 (by omega)]

theorem load32_congr {m m' : Mem} {p : Nat} (h : ∀ i < 4, m (p + i) = m' (p + i)) :
    m.load32 p = m'.load32 p := by
  unfold load32
  rw [h 1 (by omega), h 2 (by omega), h 3 (by omega), show m p = m' p from h 0 (by omega)]

theorem byteOf_load32 (m : Mem) (p : Nat) {i : Nat} (hi : i < 4) :
    byteOf (m.load32 p) i = m (p + i) := by
  unfold byteOf load32
  refine BitVec.eq_of_getLsbD_eq fun j hj => ?_
  rw [BitVec.getLsbD_extractLsb']
  simp only [BitVec.getLsbD_append, hj, decide_true, Bool.true_and]
  obtain rfl | rfl | rfl | rfl : i = 0 ∨ i = 1 ∨ i = 2 ∨ i = 3 := by omega
  · rw [if_pos (by omega)]
    simp
  · have hj' : 8 * 1 + j - 8 = j := by omega
    rw [if_neg (by omega), if_pos (by omega), hj']
  · have hj' : 8 * 2 + j - 8 - 8 = j := by omega
    rw [if_neg (by omega), if_neg (by omega), if_pos (by omega), hj']
  · have hj' : 8 * 3 + j - 8 - 8 - 8 = j := by omega
    rw [if_neg (by omega), if_neg (by omega), if_neg (by omega), hj']

def load64 (m : Mem) (p : Nat) : BitVec 64 := m.load32 (p + 4) ++ m.load32 p

theorem load64_congr {m m' : Mem} {p : Nat} (h : ∀ i < 8, m (p + i) = m' (p + i)) :
    m.load64 p = m'.load64 p := by
  unfold load64
  rw [load32_congr fun i hi => h i (by omega), load32_congr (p := p + 4) fun i hi => ?_]
  rw [Nat.add_assoc]
  exact h (4 + i) (by omega)

theorem load32_store_out {m : Mem} {p q n : Nat} {v : BitVec w} (h : q + 4 ≤ p ∨ p + n ≤ q) :
    (m.store p n v).load32 q = m.load32 q :=
  load32_congr fun i hi => store_out (by omega)

theorem load64_store_out {m : Mem} {p q n : Nat} {v : BitVec w} (h : q + 8 ≤ p ∨ p + n ≤ q) :
    (m.store p n v).load64 q = m.load64 q :=
  load64_congr fun i hi => store_out (by omega)

theorem store_byte (m : Mem) (p : Nat) {n i : Nat} (v : BitVec w) (hi : i < n) :
    m.store p n v (p + i) = byteOf v i := by
  unfold store
  rw [overlay_in (by omega) (by omega), Nat.add_sub_cancel_left]

theorem load32_store_part (m : Mem) (p : Nat) {n k : Nat} (v : BitVec w) (hk : k + 4 ≤ n) :
    (m.store p n v).load32 (p + k) = v.extractLsb' (8 * k) 32 := by
  have hbyte : ∀ j < 4, m.store p n v (p + k + j) = v.extractLsb' (8 * k + 8 * j) 8 := by
    intro j hj
    rw [Nat.add_assoc, store_byte m p v (by omega), byteOf, Nat.mul_add]
  unfold load32
  rw [hbyte 3 (by omega), hbyte 2 (by omega), hbyte 1 (by omega),
    show m.store p n v (p + k) = _ from hbyte 0 (by omega),
    BitVec.extractLsb'_append_extractLsb'_eq_extractLsb' (by omega),
    BitVec.extractLsb'_append_extractLsb'_eq_extractLsb' (by omega),
    BitVec.extractLsb'_append_extractLsb'_eq_extractLsb' (by omega)]
  rfl

theorem load32_store (m : Mem) (p : Nat) (v : BitVec 32) : (m.store p 4 v).load32 p = v :=
  (load32_store_part m p v (k := 0) (Nat.le_refl 4)).trans BitVec.extractLsb'_eq_self

theorem load16_store (m : Mem) (p : Nat) (v : BitVec 16) : (m.store p 2 v).load16 p = v := by
  have h0 : m.store p 2 v p = v.extractLsb' 0 8 := store_byte m p v (i := 0) (by omega)
  have h1 : m.store p 2 v (p + 1) = v.extractLsb' 8 8 := store_byte m p v (i := 1) (by omega)
  unfold load16
  rw [h0, h1, BitVec.extractLsb'_append_extractLsb'_eq_extractLsb' (by omega)]
  exact BitVec.extractLsb'_eq_self

theorem load16_store_out {m : Mem} {p q n : Nat} {v : BitVec w} (h : q + 2 ≤ p ∨ p + n ≤ q) :
    (m.store p n v).load16 q = m.load16 q :=
  load16_congr fun i hi => store_out (by omega)

theorem load64_store (m : Mem) (p : Nat) (v : BitVec 64) : (m.store p 8 v).load64 p = v := by
  unfold load64
  rw [load32_store_part m p v (k := 4) (Nat.le_refl 8),
    show (m.store p 8 v).load32 p = _ from load32_store_part m p v (k := 0) (by omega),
    BitVec.extractLsb'_append_extractLsb'_eq_extractLsb' (by omega)]
  exact BitVec.extractLsb'_eq_self

/-! ## Blocks of bytes -/

/-- The `n` bytes from `p` on. -/
def bytes (m : Mem) (p n : Nat) : List Byte := (List.range n).map fun i => m (p + i)

/-- `memcpy` of a block to `p`. -/
def copy (m : Mem) (p : Nat) (bs : List Byte) : Mem := m.overlay p bs.length fun i => bs.getD i 0

@[simp] theorem length_bytes (m : Mem) (p n : Nat) : (m.bytes p n).length = n := by simp [bytes]

theorem bytes_congr {m m' : Mem} {p n : Nat} (h : ∀ i < n, m (p + i) = m' (p + i)) :
    m.bytes p n = m'.bytes p n :=
  List.map_congr_left fun i hi => h i (List.mem_range.mp hi)

theorem copy_out {m : Mem} {p a : Nat} {bs : List Byte} (h : a < p ∨ p + bs.length ≤ a) :
    m.copy p bs a = m a := overlay_out h

theorem bytes_copy (m : Mem) (p : Nat) (bs : List Byte) : (m.copy p bs).bytes p bs.length = bs := by
  refine List.ext_getElem (length_bytes ..) fun i _ hi => ?_
  have hin := overlay_in (m := m) (f := fun i => bs.getD i 0) (Nat.le_add_right p i)
    (Nat.add_lt_add_left hi p)
  simp only [bytes, List.getElem_map, List.getElem_range, copy]
  rw [hin, Nat.add_sub_cancel_left, List.getD_eq_getElem?_getD, List.getElem?_eq_getElem hi,
    Option.getD_some]

theorem bytes_copy_out {m : Mem} {p q n : Nat} {bs : List Byte}
    (h : q + n ≤ p ∨ p + bs.length ≤ q) : (m.copy p bs).bytes q n = m.bytes q n :=
  bytes_congr fun _ hi => overlay_out (by omega)

theorem bytes_succ (m : Mem) (p n : Nat) : m.bytes p (n + 1) = m.bytes p n ++ [m (p + n)] := by
  unfold bytes
  rw [List.range_succ, List.map_append, List.map_singleton]

theorem bytes_take (m : Mem) (p : Nat) {k n : Nat} (h : k ≤ n) :
    (m.bytes p n).take k = m.bytes p k := by
  unfold bytes
  rw [← List.map_take, List.take_range, Nat.min_eq_left h]

theorem bytes_update_out {m : Mem} {p q n : Nat} {b : Byte} (h : q < p ∨ p + n ≤ q) :
    bytes (Function.update m q b) p n = m.bytes p n :=
  bytes_congr fun i hi => by rw [Function.update_of_ne (by omega)]

/-! ## Memories that agree from an address on -/

/-- The memories agree from an address on. -/
def SameFrom (n : Nat) (m m' : Mem) : Prop := ∀ a, n ≤ a → m' a = m a

namespace SameFrom

variable {n : Nat} {m m' m'' : Mem}

theorem refl : SameFrom n m m := fun _ _ => rfl

theorem trans (h : SameFrom n m m') (h' : SameFrom n m' m'') : SameFrom n m m'' :=
  fun a ha => (h' a ha).trans (h a ha)

theorem overlay {p k : Nat} (f : Nat → Byte) (h : p + k ≤ n) : SameFrom n m (m.overlay p k f) :=
  fun _ ha => overlay_out (.inr (Nat.le_trans h ha))

theorem copy {p : Nat} {bs : List Byte} (h : p + bs.length ≤ n) : SameFrom n m (m.copy p bs) :=
  overlay _ h

theorem store {w p k : Nat} (v : BitVec w) (h : p + k ≤ n) : SameFrom n m (m.store p k v) :=
  overlay _ h

theorem update {p : Nat} (b : Byte) (h : p < n) : SameFrom n m (Function.update m p b) :=
  fun _ ha => Function.update_of_ne (Nat.ne_of_gt (Nat.lt_of_lt_of_le h ha)) ..

end SameFrom

end Mem

end Microgarbage.Lib
