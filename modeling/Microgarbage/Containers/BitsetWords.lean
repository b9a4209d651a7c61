import Mathlib.Data.Finset.Max
import Microgarbage.Containers.HashTable
import Microgarbage.Lib.Bitmap
import Microgarbage.Math.Bits

/-!
# The bit set in words

`bitset.c` as it works on the 32-bit words of its caller, and the finite set of indices that the
words stand for. The words are a function of their index, and the pointers to them and to the bit set
are never `NULL`; `none` is `BITSET_NPOS`.
-/

namespace Microgarbage.Containers

open Lib Math BitVec

variable {abi : Abi}

/-- `BITSET_WORDS`, reckoned in `size_t`. -/
def bitsetWords (nbits : SizeT abi) : SizeT abi := (nbits + 31) / 32

structure WordBitset (abi : Abi) where
  words : Nat → BitVec 32
  nbits : SizeT abi
  nwords : SizeT abi
  /-- The word `bitset_find_first_clear` starts from. -/
  hint : Nat

namespace WordBitset

variable (bs : WordBitset abi)

/-- Bit `i` of the caller's words. -/
def bit (i : Nat) : Bool := (bs.words (i / 32)).getLsbD (i % 32)

/-- The valid bits of the last word. -/
def tailMask : BitVec 32 :=
  let rem := bs.nbits.toNat % 32
  if rem ≠ 0 then 1#32 <<< rem - 1#32 else 0xFFFFFFFF

def setWord (w : Nat) (v : BitVec 32) : WordBitset abi :=
  { bs with words := Function.update bs.words w v }

def bitsetInit (words : Nat → BitVec 32) (nbits : SizeT abi) : WordBitset abi :=
  ⟨words, nbits, bitsetWords nbits, 0⟩

/-- The first `nwords` words, all with the value `v`. -/
def fill (v : BitVec 32) : WordBitset abi :=
  (List.range bs.nwords.toNat).foldl (fun bs w => bs.setWord w v) bs

def bitsetClearAll : WordBitset abi := { bs.fill 0 with hint := 0 }

def bitsetSetAll : WordBitset abi :=
  if bs.nwords = 0 then bs
  else
    let filled := bs.fill 0xFFFFFFFF
    let last := bs.nwords.toNat - 1
    { filled.setWord last (filled.words last &&& filled.tailMask) with hint := 0 }

def bitsetSet (i : Nat) : WordBitset abi :=
  if bs.nbits.toNat ≤ i then bs
  else bs.setWord (i / 32) (bs.words (i / 32) ||| 1#32 <<< (i % 32))

/-- A cleared bit before the hint rewinds it. -/
def bitsetClear (i : Nat) : WordBitset abi :=
  if bs.nbits.toNat ≤ i then bs
  else
    let cleared := bs.setWord (i / 32) (bs.words (i / 32) &&& ~~~(1#32 <<< (i % 32)))
    let w := i / 32
    if w < cleared.hint then { cleared with hint := w } else cleared

def bitsetTest (i : Nat) : Bool :=
  if bs.nbits.toNat ≤ i then false else (bs.words (i / 32) >>> (i % 32)).getLsbD 0

def bitsetPopcount : Nat :=
  (List.range bs.nwords.toNat).foldl (fun n w => n + (bitsPopcount32 (bs.words w)).toNat) 0

def bitsetFindFirstSet : Option Nat :=
  ((List.range bs.nwords.toNat).find? fun w => bs.words w != 0).bind fun w =>
    let i := w * 32 + (bitsCtz32 (bs.words w)).toNat
    if i < bs.nbits.toNat then some i else none

/-- The clear bits of word `w`, without the tail of the last word. -/
def clearBits (w : Nat) : BitVec 32 :=
  let inv := ~~~bs.words w
  if w = bs.nwords.toNat - 1 then inv &&& bs.tailMask else inv

/-- One turn of the search: the index found in word `w`, with the word. -/
def clearIn (w : Nat) : Option (Nat × Nat) :=
  let inv := bs.clearBits w
  if inv ≠ 0 then
    let i := w * 32 + (bitsCtz32 inv).toNat
    if i < bs.nbits.toNat then some (w, i) else none
  else none

def scanClear (start stop : Nat) : Option (Nat × Nat) :=
  (List.range' start (stop - start)).findSome? bs.clearIn

/-- From the hint on, then before it. -/
def bitsetFindFirstClear : WordBitset abi × Option Nat :=
  if bs.nwords = 0 then (bs, none)
  else
    match (bs.scanClear bs.hint bs.nwords.toNat).or (bs.scanClear 0 bs.hint) with
    | some (w, i) => ({ bs with hint := w }, some i)
    | none => (bs, none)

end WordBitset

/-! ## Calls -/

inductive BitsetCall
  | set (i : Nat)
  | clear (i : Nat)
  | setAll
  | clearAll
  | test (i : Nat)
  | popcount
  | findFirstSet
  | findFirstClear
  deriving DecidableEq

inductive BitsetReply
  | done
  | bit (b : Bool)
  | count (n : Nat)
  | index (i : Option Nat)
  deriving DecidableEq

def WordBitset.call (bs : WordBitset abi) : BitsetCall → WordBitset abi × BitsetReply
  | .set i => (bs.bitsetSet i, .done)
  | .clear i => (bs.bitsetClear i, .done)
  | .setAll => (bs.bitsetSetAll, .done)
  | .clearAll => (bs.bitsetClearAll, .done)
  | .test i => (bs, .bit (bs.bitsetTest i))
  | .popcount => (bs, .count bs.bitsetPopcount)
  | .findFirstSet => (bs, .index bs.bitsetFindFirstSet)
  | .findFirstClear => (bs.bitsetFindFirstClear.1, .index bs.bitsetFindFirstClear.2)

/-- The least index of a set. -/
def least (s : Finset Nat) : Option Nat := if h : s.Nonempty then some (s.min' h) else none

/-- The same calls on a finite set of indices below `n`. -/
def indexSetCall (n : Nat) (s : Finset Nat) : BitsetCall → Finset Nat × BitsetReply
  | .set i => (if i < n then insert i s else s, .done)
  | .clear i => (s.erase i, .done)
  | .setAll => (Finset.range n, .done)
  | .clearAll => (∅, .done)
  | .test i => (s, .bit (decide (i ∈ s)))
  | .popcount => (s, .count s.card)
  | .findFirstSet => (s, .index (least s))
  | .findFirstClear => (s, .index (least (Finset.range n \ s)))

/-- A sequence of calls, with their replies. -/
def callAll {σ : Type*} (call : σ → BitsetCall → σ × BitsetReply) : σ → List BitsetCall →
    σ × List BitsetReply
  | s, [] => (s, [])
  | s, c :: cs =>
    let r := callAll call (call s c).1 cs
    (r.1, (call s c).2 :: r.2)

/-- What the words of a bit set owe to the set of indices that they stand for. -/
structure WordBitset.Represents (bs : WordBitset abi) (s : Finset Nat) : Prop where
  sized : bs.nwords = bitsetWords bs.nbits
  mem_iff : ∀ i < 32 * bs.nwords.toNat, bs.bit i = true ↔ i ∈ s
  below : ∀ i ∈ s, i < bs.nbits.toNat
  hint_le : bs.hint ≤ bs.nwords.toNat
  /-- No word below the hint has a clear valid bit. -/
  full : ∀ i < bs.nbits.toNat, i / 32 < bs.hint → i ∈ s

/-- The set that the caller's words stand for at first. -/
def initialSet (words : Nat → BitVec 32) (nbits : SizeT abi) : Finset Nat :=
  (Finset.range nbits.toNat).filter fun i => (WordBitset.bitsetInit words nbits).bit i = true

/-- For all words with a clear tail, the bit set is a finite set of indices in every sequence of
calls. -/
def IsIndexSet (nbits : SizeT abi) : Prop :=
  ∀ words : Nat → BitVec 32, (∀ i < 32 * (bitsetWords nbits).toNat, nbits.toNat ≤ i →
    (WordBitset.bitsetInit words nbits).bit i = false) → ∀ calls : List BitsetCall,
    let bs := callAll WordBitset.call (WordBitset.bitsetInit words nbits) calls
    let s := callAll (indexSetCall nbits.toNat) (initialSet words nbits) calls
    bs.1.nbits = nbits ∧ bs.1.Represents s.1 ∧ bs.2 = s.2

theorem least_eq_some {s : Finset Nat} {i : Nat} (hi : i ∈ s) (hmin : ∀ j ∈ s, i ≤ j) :
    least s = some i := by
  have hne : s.Nonempty := ⟨i, hi⟩
  unfold least
  rw [dif_pos hne]
  exact congrArg some (Nat.le_antisymm (s.min'_le i hi) (hmin _ (s.min'_mem hne)))

theorem least_eq_none {s : Finset Nat} (h : ∀ i, i ∉ s) : least s = none :=
  dif_neg fun ⟨i, hi⟩ => h i hi

/-! ## The words -/

section Words

theorem abi_literals (abi : Abi) : (31 : SizeT abi).toNat = 31 ∧ (32 : SizeT abi).toNat = 32 ∧
    31 < 2 ^ abi.width := by
  cases abi <;> decide

theorem toNat_bitsetWords (nbits : SizeT abi) :
    (bitsetWords nbits).toNat = (nbits.toNat + 31) % 2 ^ abi.width / 32 := by
  obtain ⟨h31, h32, -⟩ := abi_literals abi
  unfold bitsetWords
  rw [toNat_udiv, toNat_add, h31, h32]

namespace WordBitset

variable {bs : WordBitset abi} {s : Finset Nat} {i : Nat}

theorem bit_setWord (w : Nat) (v : BitVec 32) (i : Nat) :
    (bs.setWord w v).bit i = if i / 32 = w then v.getLsbD (i % 32) else bs.bit i := by
  simp only [bit, setWord, Function.update_apply]
  split <;> rfl

theorem bit_word (w : Nat) {k : Nat} (hk : k < 32) :
    bs.bit (w * 32 + k) = (bs.words w).getLsbD k := by
  unfold bit
  rw [show (w * 32 + k) / 32 = w by omega, show (w * 32 + k) % 32 = k by omega]

theorem getLsbD_tailMask {k : Nat} (hk : k < 32) :
    bs.tailMask.getLsbD k = decide (bs.nbits.toNat % 32 = 0 ∨ k < bs.nbits.toNat % 32) := by
  unfold tailMask
  dsimp only
  split
  · have hrem : bs.nbits.toNat % 32 < 32 := Nat.mod_lt _ (by decide)
    have hmask : (1#32 <<< (bs.nbits.toNat % 32) - 1#32).toNat = 2 ^ (bs.nbits.toNat % 32) - 1 := by
      have hlt : 2 ^ (bs.nbits.toNat % 32) < 2 ^ 32 := Nat.pow_lt_pow_right (by decide) hrem
      have hpos := Nat.two_pow_pos (bs.nbits.toNat % 32)
      rw [toNat_sub_of_le] <;>
        simp [le_def, Nat.shiftLeft_eq] <;> omega
    rw [← testBit_toNat, hmask, Nat.testBit_two_pow_sub_one]
    simp_all
  · rename_i hrem
    refine (getLsbD_allOnes (v := 32)).trans ?_
    simp_all

/-- In the words that there are, the search sees the clear valid bits. -/
theorem getLsbD_clearBits (hn : bs.nwords.toNat = (bs.nbits.toNat + 31) / 32) {w k : Nat}
    (hw : w < bs.nwords.toNat) (hk : k < 32) : (bs.clearBits w).getLsbD k =
      (!bs.bit (w * 32 + k) && decide (w * 32 + k < bs.nbits.toNat)) := by
  unfold clearBits
  dsimp only
  rw [bit_word w hk]
  split
  · rw [getLsbD_and, getLsbD_tailMask hk, getLsbD_not, decide_eq_true hk,
      Bool.true_and]
    congr 2
    exact propext (by omega)
  · rw [getLsbD_not, decide_eq_true hk, decide_eq_true (by omega)]
    simp

theorem bit_fill (v : BitVec 32) (i : Nat) : (bs.fill v).bit i =
    if i / 32 < bs.nwords.toNat then v.getLsbD (i % 32) else bs.bit i := by
  unfold fill
  induction bs.nwords.toNat with
  | zero => rfl
  | succ n ih =>
    rw [List.range_succ, List.foldl_append, List.foldl_cons, List.foldl_nil, bit_setWord, ih]
    grind

theorem fill_rest (v : BitVec 32) :
    (bs.fill v).nbits = bs.nbits ∧ (bs.fill v).nwords = bs.nwords := by
  unfold fill
  induction bs.nwords.toNat with
  | zero => exact ⟨rfl, rfl⟩
  | succ n ih => rwa [List.range_succ, List.foldl_append]

theorem popcount_count : bs.bitsetPopcount =
    Nat.count (fun i => bs.bit i = true) (bs.nwords.toNat * 32) := by
  unfold bitsetPopcount
  induction bs.nwords.toNat with
  | zero => rfl
  | succ n ih =>
    rw [List.range_succ, List.foldl_append, List.foldl_cons, List.foldl_nil, ih, Nat.succ_mul,
      Nat.count_add, toNat_bitsPopcount32]
    congr 1
    rw [Nat.count_eq_card_filter_range, Nat.count_eq_card_filter_range]
    refine congrArg _ (Finset.filter_congr fun k hk => ?_)
    rw [bit_word n (Finset.mem_range.mp hk)]

/-! ## Searches and updates -/

section Represents

variable (h : bs.Represents s) (hn : bs.nwords.toNat = (bs.nbits.toNat + 31) / 32)

include h hn

theorem mem_of_lt {i : Nat} (hi : i < bs.nbits.toNat) : i ∈ s ↔ bs.bit i = true :=
  (h.mem_iff i (by omega)).symm

theorem popcount_eq : bs.bitsetPopcount = s.card := by
  rw [popcount_count, Nat.count_eq_card_filter_range]
  refine congrArg _ (Finset.ext fun i => ?_)
  rw [Finset.mem_filter, Finset.mem_range]
  have hbelow := h.below i
  constructor
  · exact fun hi => (h.mem_iff i (by omega)).mp hi.2
  · exact fun hi => ⟨by have := hbelow hi; omega, (h.mem_iff i (by have := hbelow hi; omega)).mpr hi⟩

theorem findFirstSet_eq : bs.bitsetFindFirstSet = least s := by
  have hzero {i : Nat} (hi : i ∈ s) : bs.words (i / 32) ≠ 0 := fun h0 => by
    have hbit := (mem_of_lt h hn (h.below i hi)).mp hi
    rw [bit, h0] at hbit
    simp at hbit
  unfold bitsetFindFirstSet
  cases hfind : (List.range bs.nwords.toNat).find? fun w => bs.words w != 0 with
  | none =>
    rw [List.find?_range_eq_none] at hfind
    refine (least_eq_none fun i hi => hzero hi ?_).symm
    have := h.below i hi
    simpa using hfind (i / 32) (by omega)
  | some w =>
    rw [List.find?_range_eq_some] at hfind
    obtain ⟨hw, hlt, hbefore⟩ := hfind
    have hlow := toNat_bitsCtz32 (bne_iff_ne.mp hw)
    have hin : w * 32 + (bitsCtz32 (bs.words w)).toNat ∈ s := by
      refine (h.mem_iff _ ?_).mp ?_
      · have := List.mem_range.mp hlt
        have := hlow.lt
        omega
      · rw [bit_word w hlow.lt, hlow.set]
    rw [Option.bind_some, if_pos (h.below _ hin)]
    refine (least_eq_some hin fun j hj => Nat.not_lt.mp fun hlt => ?_).symm
    rcases Nat.lt_or_ge (j / 32) w with hjw | hjw
    · exact hzero hj (by simpa using hbefore _ hjw)
    · -- a lower bit of the same word
      have hbit := (mem_of_lt h hn (h.below j hj)).mp hj
      have hlow' := hlow.lt
      rw [bit, show j / 32 = w by omega, hlow.below _ (by omega)] at hbit
      cases hbit

theorem clearIn_some {w v i : Nat} (hw : w < bs.nwords.toNat) (hc : bs.clearIn w = some (v, i)) :
    v = w ∧ i / 32 = w ∧ i ∈ Finset.range bs.nbits.toNat \ s ∧
      ∀ j < bs.nbits.toNat, j / 32 = w → j < i → j ∈ s := by
  unfold clearIn at hc
  dsimp only at hc
  split at hc
  · rename_i hne
    have hlow := toNat_bitsCtz32 hne
    have hlt := hlow.lt
    have hset := hlow.set
    rw [getLsbD_clearBits hn hw hlt, Bool.and_eq_true, decide_eq_true_iff] at hset
    rw [if_pos hset.2] at hc
    cases hc
    refine ⟨rfl, by omega, ?_, fun j hj hjw hji => ?_⟩
    · rw [Finset.mem_sdiff, Finset.mem_range, mem_of_lt h hn hset.2]
      simpa using hset.symm
    · have hbelow := hlow.below (j % 32) (by omega)
      rw [getLsbD_clearBits hn hw (by omega), show w * 32 + j % 32 = j by omega] at hbelow
      rw [mem_of_lt h hn hj]
      simpa [hj] using hbelow
  · cases hc

theorem clearIn_none {w : Nat} (hw : w < bs.nwords.toNat) (hc : bs.clearIn w = none) :
    ∀ j < bs.nbits.toNat, j / 32 = w → j ∈ s := by
  intro j hj hjw
  by_contra hnot
  rw [mem_of_lt h hn hj, Bool.not_eq_true] at hnot
  have hbit := getLsbD_clearBits hn hw (k := j % 32) (by omega)
  rw [show w * 32 + j % 32 = j by omega, hnot, decide_eq_true hj] at hbit
  have hne : bs.clearBits w ≠ 0 := fun h0 => by
    rw [h0] at hbit
    simp at hbit
  have hset := (toNat_bitsCtz32 hne).set
  rw [getLsbD_clearBits hn hw (toNat_bitsCtz32 hne).lt, Bool.and_eq_true, decide_eq_true_iff] at hset
  unfold clearIn at hc
  dsimp only at hc
  rw [if_pos hne, if_pos hset.2] at hc
  cases hc

/-- The first pass finds the least clear index; the hint has no clear index before it. -/
theorem findFirstClear_spec : (∃ w ≤ bs.nwords.toNat, bs.bitsetFindFirstClear.1 = { bs with hint := w } ∧
      ∀ i < bs.nbits.toNat, i / 32 < w → i ∈ s) ∧
    bs.bitsetFindFirstClear.2 = least (Finset.range bs.nbits.toNat \ s) := by
  have hle := h.hint_le
  unfold bitsetFindFirstClear
  split
  · rename_i h0
    rw [h0] at hn
    refine ⟨⟨bs.hint, hle, rfl, h.full⟩, (least_eq_none fun i hi => ?_).symm⟩
    have := Finset.mem_range.mp (Finset.mem_sdiff.mp hi).1
    simp at hn
    omega
  cases hscan : bs.scanClear bs.hint bs.nwords.toNat with
  | some r =>
    obtain ⟨w', i⟩ := r
    obtain ⟨l₁, w, l₂, hl, hc, hnone⟩ := List.findSome?_eq_some_iff.mp hscan
    obtain ⟨k, hk, rfl, hcons⟩ := List.range'_eq_append_iff.mp hl
    obtain ⟨rfl, hpos, -⟩ := List.range'_eq_cons_iff.mp hcons.symm
    obtain ⟨rfl, hiw, hmem, hword⟩ := clearIn_some h hn (by omega) hc
    have hbefore : ∀ j < bs.nbits.toNat, j / 32 < bs.hint + k * 1 → j ∈ s := by
      intro j hj hjw
      rcases Nat.lt_or_ge (j / 32) bs.hint with hjh | hjh
      · exact h.full j hj hjh
      · refine clearIn_none h hn (by omega) (hnone _ ?_) j hj rfl
        rw [List.mem_range'_1]
        omega
    refine ⟨⟨_, by omega, rfl, hbefore⟩, (least_eq_some hmem fun j hj => ?_).symm⟩
    rw [Finset.mem_sdiff, Finset.mem_range] at hj
    refine Nat.not_lt.mp fun hji => hj.2 ?_
    rcases Nat.lt_or_ge (j / 32) (bs.hint + k * 1) with hjw | hjw
    · exact hbefore j hj.1 hjw
    · exact hword j hj.1 (by omega) hji
  | none =>
    have hnone := List.findSome?_eq_none_iff.mp hscan
    have hall : ∀ j < bs.nbits.toNat, j ∈ s := by
      intro j hj
      rcases Nat.lt_or_ge (j / 32) bs.hint with hjh | hjh
      · exact h.full j hj hjh
      · refine clearIn_none h hn (by omega) (hnone _ ?_) j hj rfl
        rw [List.mem_range'_1]
        omega
    have hfull : ∀ i, i ∉ Finset.range bs.nbits.toNat \ s := fun i hi => by
      rw [Finset.mem_sdiff, Finset.mem_range] at hi
      exact hi.2 (hall i hi.1)
    have hzero : bs.scanClear 0 bs.hint = none := by
      refine List.findSome?_eq_none_iff.mpr fun w hw => ?_
      have hlt := List.mem_range'_1.mp hw
      cases hc : bs.clearIn w with
      | none => rfl
      | some r => exact absurd (clearIn_some h hn (by omega) hc).2.2.1 (hfull _)
    rw [hzero]
    exact ⟨⟨bs.hint, hle, rfl, h.full⟩, (least_eq_none hfull).symm⟩

omit hn in
theorem set_represents (i : Nat) :
    (bs.bitsetSet i).Represents (if i < bs.nbits.toNat then insert i s else s) := by
  unfold bitsetSet
  split
  · rw [if_neg (by omega)]
    exact h
  · rw [if_pos (by omega)]
    refine ⟨h.sized, fun j hj => ?_, fun j hj => ?_, h.hint_le, fun j hj hw =>
      Finset.mem_insert_of_mem (h.full j hj hw)⟩
    · rw [bit_setWord, Finset.mem_insert, ← h.mem_iff j hj]
      split
      · rw [getLsbD_set_bit _ _ (Nat.mod_lt _ (by decide)), Bool.or_eq_true, decide_eq_true_iff, bit]
        grind
      · grind
    · rcases Finset.mem_insert.mp hj with rfl | hj
      · exact Nat.not_le.mp ‹_›
      · exact h.below j hj

theorem clear_represents (i : Nat) :
    (bs.bitsetClear i).nbits = bs.nbits ∧ (bs.bitsetClear i).Represents (s.erase i) := by
  unfold bitsetClear
  split
  · rename_i hi
    rw [Finset.erase_eq_of_notMem fun hmem => by have := h.below i hmem; omega]
    exact ⟨rfl, h⟩
  · rename_i hi
    have hbits : ∀ j < 32 * bs.nwords.toNat,
        (bs.setWord (i / 32) (bs.words (i / 32) &&& ~~~(1#32 <<< (i % 32)))).bit j = true ↔
          j ∈ s.erase i := by
      intro j hj
      rw [bit_setWord, Finset.mem_erase, ← h.mem_iff j hj]
      split
      · rw [getLsbD_clear_bit _ _ (Nat.mod_lt _ (by decide)), bit]
        grind
      · grind
    have hbelow : ∀ j ∈ s.erase i, j < bs.nbits.toNat := fun j hj =>
      h.below j (Finset.mem_of_mem_erase hj)
    have hle := h.hint_le
    dsimp only
    split
    · refine ⟨rfl, h.sized, hbits, hbelow, (by omega : i / 32 ≤ bs.nwords.toNat), fun j hj hw => ?_⟩
      exact Finset.mem_erase.mpr ⟨fun e => Nat.lt_irrefl _ (e ▸ hw), h.full j hj (Nat.lt_trans hw ‹_›)⟩
    · refine ⟨rfl, h.sized, hbits, hbelow, hle, fun j hj hw => ?_⟩
      have hw' : j / 32 < bs.hint := hw
      exact Finset.mem_erase.mpr ⟨fun e => absurd (e ▸ hw') ‹_›, h.full j hj hw'⟩

theorem setAll_represents : (bs.bitsetSetAll).nbits = bs.nbits ∧
    bs.bitsetSetAll.Represents (Finset.range bs.nbits.toNat) := by
  unfold bitsetSetAll
  split
  · rename_i h0
    have hnb : bs.nbits.toNat = 0 := by
      rw [h0] at hn
      simp at hn
      omega
    have hs : s = Finset.range bs.nbits.toNat := by
      rw [hnb]
      exact Finset.eq_empty_of_forall_notMem fun i hi => by have := h.below i hi; omega
    exact ⟨rfl, hs ▸ h⟩
  · obtain ⟨hnbits, hnwords⟩ := bs.fill_rest 0xFFFFFFFF
    refine ⟨hnbits, hnwords.trans (h.sized.trans (congrArg bitsetWords hnbits.symm)),
      fun i hi => ?_, fun i hi => ?_, Nat.zero_le _, fun i _ hw => absurd hw (Nat.not_lt_zero _)⟩
    · have hi' : i < 32 * bs.nwords.toNat := hnwords ▸ hi
      have hones : (0xFFFFFFFF#32).getLsbD (i % 32) = true :=
        (getLsbD_allOnes (v := 32)).trans (decide_eq_true (Nat.mod_lt _ (by decide)))
      refine (Eq.congr_left (bit_setWord ..)).trans ?_
      have hlast : (bs.fill 0xFFFFFFFF).bit i = true := by
        rw [bit_fill, if_pos (by omega)]
        exact hones
      rw [Finset.mem_range]
      split
      · rename_i hw
        rw [getLsbD_and, getLsbD_tailMask (Nat.mod_lt _ (by decide)), ← hw, hnbits]
        rw [bit] at hlast
        rw [hlast, Bool.true_and, decide_eq_true_iff]
        omega
      · exact iff_of_true hlast (by omega)
    · show i < (bs.fill 0xFFFFFFFF).nbits.toNat
      rw [hnbits]
      exact Finset.mem_range.mp hi

theorem clearAll_represents :
    (bs.bitsetClearAll).nbits = bs.nbits ∧ bs.bitsetClearAll.Represents ∅ := by
  obtain ⟨hnbits, hnwords⟩ := bs.fill_rest 0
  refine ⟨hnbits, hnwords.trans (h.sized.trans (congrArg bitsetWords hnbits.symm)), fun i hi => ?_,
    nofun, Nat.zero_le _, fun i _ hw => absurd hw (Nat.not_lt_zero _)⟩
  have hi' : i < 32 * bs.nwords.toNat := hnwords ▸ hi
  refine (Eq.congr_left (bit_fill ..)).trans ?_
  rw [if_pos (by omega)]
  simp

theorem test_eq (i : Nat) : bs.bitsetTest i = decide (i ∈ s) := by
  unfold bitsetTest
  split
  · rename_i hi
    exact (decide_eq_false fun hmem => by have := h.below i hmem; omega).symm
  · rename_i hi
    rw [getLsbD_ushiftRight, Nat.add_zero]
    exact Bool.eq_iff_iff.mpr (by rw [decide_eq_true_iff, mem_of_lt h hn (by omega), bit])

/-- Each call does to the words what it does to the set, and answers alike. -/
theorem call_spec (c : BitsetCall) : (bs.call c).1.nbits = bs.nbits ∧
    (bs.call c).1.Represents (indexSetCall bs.nbits.toNat s c).1 ∧
      (bs.call c).2 = (indexSetCall bs.nbits.toNat s c).2 := by
  cases c with
  | set i =>
    refine ⟨?_, set_represents h i, rfl⟩
    simp only [call, bitsetSet]
    split <;> rfl
  | clear i => exact ⟨(clear_represents h hn i).1, (clear_represents h hn i).2, rfl⟩
  | setAll => exact ⟨(setAll_represents h hn).1, (setAll_represents h hn).2, rfl⟩
  | clearAll => exact ⟨(clearAll_represents h hn).1, (clearAll_represents h hn).2, rfl⟩
  | test i => exact ⟨rfl, h, congrArg BitsetReply.bit (test_eq h hn i)⟩
  | popcount => exact ⟨rfl, h, congrArg BitsetReply.count (popcount_eq h hn)⟩
  | findFirstSet => exact ⟨rfl, h, congrArg BitsetReply.index (findFirstSet_eq h hn)⟩
  | findFirstClear =>
    obtain ⟨⟨w, hw, hbs, hfull⟩, hfound⟩ := findFirstClear_spec h hn
    have hcall : (bs.call .findFirstClear).1 = { bs with hint := w } := hbs
    rw [hcall]
    exact ⟨rfl, ⟨h.sized, h.mem_iff, h.below, hw, hfull⟩, congrArg BitsetReply.index hfound⟩

end Represents

theorem callAll_spec {bs : WordBitset abi} {s : Finset Nat} (h : bs.Represents s)
    (hfits : bs.nbits.toNat + 31 < 2 ^ abi.width) (calls : List BitsetCall) :
    let r := callAll WordBitset.call bs calls
    let a := callAll (indexSetCall bs.nbits.toNat) s calls
    r.1.nbits = bs.nbits ∧ r.1.Represents a.1 ∧ r.2 = a.2 := by
  induction calls generalizing bs s with
  | nil => exact ⟨rfl, h, rfl⟩
  | cons c cs ih =>
    have hn : bs.nwords.toNat = (bs.nbits.toNat + 31) / 32 := by
      rw [h.sized, toNat_bitsetWords, Nat.mod_eq_of_lt hfits]
    obtain ⟨hnbits, hrep, hreply⟩ := call_spec h hn c
    obtain ⟨hnbits', hrep', hreplies⟩ := ih hrep (hnbits ▸ hfits)
    rw [hnbits] at hnbits' hrep' hreplies
    exact ⟨hnbits', hrep', congr (congrArg List.cons hreply) hreplies⟩

end WordBitset

end Words

/-! ## Whole runs -/

theorem wrapped_count {nbits : SizeT abi} (hwrap : 2 ^ abi.width ≤ nbits.toNat + 31) :
    ¬IsIndexSet nbits := by
  intro h
  have hlt := nbits.isLt
  obtain ⟨-, -, h31⟩ := abi_literals abi
  have hwords : (bitsetWords nbits).toNat = 0 := by
    rw [toNat_bitsetWords, Nat.mod_eq_sub_mod hwrap, Nat.mod_eq_of_lt (by omega)]
    omega
  obtain ⟨-, -, hreply⟩ := h (fun _ => 0) (fun i hi => by omega) [.findFirstClear]
  have hnone : (WordBitset.bitsetInit (fun _ => 0) nbits).bitsetFindFirstClear.2 = none := by
    unfold WordBitset.bitsetFindFirstClear
    rw [if_pos (eq_of_toNat_eq hwords)]
  have hleast : least (Finset.range nbits.toNat \ initialSet (fun _ => 0) nbits) = some 0 := by
    refine least_eq_some ?_ fun j _ => Nat.zero_le j
    simp [initialSet, WordBitset.bit, WordBitset.bitsetInit]
    omega
  have hindex := BitsetReply.index.inj (List.cons.inj hreply).1
  rw [hnone, hleast] at hindex
  cases hindex

/-- The words are a set of indices in every run, exactly for the counts that `BITSET_WORDS` rounds up
without a wrap. -/
theorem isIndexSet_iff (nbits : SizeT abi) :
    IsIndexSet nbits ↔ nbits.toNat + 31 < 2 ^ abi.width := by
  refine ⟨fun h => Nat.not_le.mp fun hwrap => wrapped_count hwrap h, ?_⟩
  intro hfits words htail calls
  refine WordBitset.callAll_spec ⟨rfl, fun i hi => ?_, fun i hi => ?_, Nat.zero_le _,
    fun i _ hw => absurd hw (Nat.not_lt_zero _)⟩ hfits calls
  · rw [initialSet, Finset.mem_filter, Finset.mem_range]
    refine ⟨fun hb => ⟨Nat.not_le.mp fun hle => ?_, hb⟩, And.right⟩
    rw [htail i hi hle] at hb
    cases hb
  · exact Finset.mem_range.mp (Finset.mem_filter.mp hi).1

/-- A count of `2 ^ 64 - 1` bits: no word at all, and the first search finds every bit set. -/
theorem bit_count_wraps : ¬IsIndexSet (0xFFFFFFFFFFFFFFFF : SizeT .bits64) :=
  wrapped_count (by decide)

end Microgarbage.Containers
