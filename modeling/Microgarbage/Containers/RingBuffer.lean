import Microgarbage.Lib.Bytes
import Microgarbage.Lib.Ring

/-!
# The ring buffer and the FIFO over it

A ring buffer keeps `count` elements of `elementSize` bytes in a caller-owned buffer, from slot
`tail` on and wrapping at `capacity`. `contents` reads the elements out, oldest first; pushing and
popping act on it as on a list.
-/

namespace Microgarbage.Containers

open Lib

structure RingBuffer where
  /-- The caller's buffer, by byte offset. -/
  storage : Mem
  capacity : Nat
  elementSize : Nat
  head : Nat
  tail : Nat
  count : Nat

variable (rb : RingBuffer)

def slotAt (slot : Nat) : Nat := slot * rb.elementSize

def rbInit (storage : Mem) (capacity elementSize : Nat) : RingBuffer :=
  ⟨storage, capacity, elementSize, 0, 0, 0⟩

def rbReset : RingBuffer := { rb with head := 0, tail := 0, count := 0 }

def rbFull : Bool := rb.count == rb.capacity

/-- On a full buffer the oldest element is overwritten. -/
def rbPush (element : List Byte) : RingBuffer :=
  let pushed := { rb with
    storage := rb.storage.copy (slotAt rb rb.head) element
    head := (rb.head + 1) % rb.capacity }
  if rb.count = rb.capacity then
    { pushed with tail := (rb.tail + 1) % rb.capacity }
  else
    { pushed with count := rb.count + 1 }

def rbPop : Option (List Byte × RingBuffer) :=
  if rb.count = 0 then none
  else some (rb.storage.bytes (slotAt rb rb.tail) rb.elementSize,
    { rb with tail := (rb.tail + 1) % rb.capacity, count := rb.count - 1 })

/-- `fifo_push`: refuses on a full queue. -/
def fifoPush (element : List Byte) : Bool × RingBuffer :=
  if rbFull rb then (false, rb) else (true, rbPush rb element)

def fifoPop : Option (List Byte × RingBuffer) := rbPop rb

/-! ## What the buffer holds -/

structure RingBuffer.Valid (rb : RingBuffer) : Prop where
  capacity_pos : 0 < rb.capacity
  count_le : rb.count ≤ rb.capacity
  tail_lt : rb.tail < rb.capacity
  head_eq : rb.head = (rb.tail + rb.count) % rb.capacity

/-- The `k`-th oldest element. -/
def RingBuffer.element (k : Nat) : List Byte :=
  rb.storage.bytes (slotAt rb ((rb.tail + k) % rb.capacity)) rb.elementSize

/-- The elements, oldest first. -/
def RingBuffer.contents : List (List Byte) := (List.range rb.count).map rb.element

theorem rbInit_valid {storage : Mem} {capacity elementSize : Nat} (h : 0 < capacity) :
    (rbInit storage capacity elementSize).Valid :=
  ⟨h, Nat.zero_le _, h, (Nat.zero_mod capacity).symm⟩

theorem slots_apart {rb : RingBuffer} {i j : Nat} (h : i ≠ j) :
    slotAt rb i + rb.elementSize ≤ slotAt rb j ∨ slotAt rb j + rb.elementSize ≤ slotAt rb i := by
  unfold slotAt
  exact slots_disjoint h

theorem rbPush_spec {rb : RingBuffer} {element : List Byte} (h : rb.Valid)
    (hroom : rb.count < rb.capacity) (hlen : element.length = rb.elementSize) :
    (rbPush rb element).Valid ∧ (rbPush rb element).contents = rb.contents ++ [element] := by
  obtain ⟨hpos, -, htail, hhead⟩ := h
  have hpush : rbPush rb element = { rb with
      storage := rb.storage.copy (slotAt rb rb.head) element
      head := (rb.head + 1) % rb.capacity
      count := rb.count + 1 } := if_neg (Nat.ne_of_lt hroom)
  rw [hpush]
  refine ⟨⟨hpos, hroom, htail, ?_⟩, ?_⟩
  · show (rb.head + 1) % rb.capacity = (rb.tail + (rb.count + 1)) % rb.capacity
    rw [hhead, Nat.mod_add_mod, Nat.add_assoc]
  · unfold RingBuffer.contents
    rw [List.range_succ, List.map_append, List.map_singleton]
    congr 1
    · -- the older elements lie in other slots than the new one
      refine List.map_congr_left fun k hk => ?_
      have hlt := List.mem_range.mp hk
      have hcap : rb.count < k + rb.capacity := Nat.lt_of_lt_of_le hroom (Nat.le_add_left ..)
      have hne : (rb.tail + k) % rb.capacity ≠ (rb.tail + rb.count) % rb.capacity :=
        slot_ne (Nat.add_lt_add_left hlt _) (by omega)
      refine Mem.bytes_copy_out ?_
      rw [hlen, hhead]
      exact slots_apart hne
    · have hread := Mem.bytes_copy rb.storage (slotAt rb rb.head) element
      rw [hlen, hhead] at hread
      rw [hhead]
      exact congrArg (· :: []) hread

theorem rbPop_spec {rb : RingBuffer} (h : rb.Valid) :
    match rbPop rb with
    | none => rb.contents = []
    | some (element, rb') => rb'.Valid ∧ rb.contents = element :: rb'.contents := by
  obtain ⟨hpos, hle, htail, hhead⟩ := h
  unfold rbPop
  by_cases h0 : rb.count = 0
  · rw [if_pos h0]
    exact List.map_eq_nil_iff.mpr (List.range_eq_nil.mpr h0)
  · rw [if_neg h0]
    obtain ⟨n, hn⟩ := Nat.exists_eq_succ_of_ne_zero h0
    refine ⟨⟨hpos, ?_, Nat.mod_lt _ hpos, ?_⟩, ?_⟩
    · show rb.count - 1 ≤ rb.capacity
      omega
    · show rb.head = ((rb.tail + 1) % rb.capacity + (rb.count - 1)) % rb.capacity
      rw [hhead, Nat.mod_add_mod, show rb.tail + 1 + (rb.count - 1) = rb.tail + rb.count by omega]
    · unfold RingBuffer.contents
      rw [hn, List.range_succ_eq_map, List.map_cons, List.map_map]
      congr 1
      · unfold RingBuffer.element
        rw [Nat.add_zero, Nat.mod_eq_of_lt htail]
      · refine List.map_congr_left fun k _ => ?_
        show rb.element (k + 1) = rb.storage.bytes
          (slotAt rb (((rb.tail + 1) % rb.capacity + k) % rb.capacity)) rb.elementSize
        rw [Nat.mod_add_mod, Nat.add_assoc, Nat.add_comm 1 k]
        rfl

/-- `fifo_push` on a queue with room appends; on a full one it changes nothing. -/
theorem fifoPush_spec {rb : RingBuffer} {element : List Byte} (h : rb.Valid)
    (hlen : element.length = rb.elementSize) :
    match fifoPush rb element with
    | (true, rb') => rb'.Valid ∧ rb'.contents = rb.contents ++ [element]
    | (false, rb') => rb' = rb := by
  unfold fifoPush rbFull
  by_cases hfull : rb.count = rb.capacity
  · rw [if_pos (by rw [hfull]; exact beq_self_eq_true _)]
  · rw [if_neg (by rw [beq_iff_eq]; exact hfull)]
    exact rbPush_spec h (Nat.lt_of_le_of_ne h.count_le hfull) hlen

theorem rbPush_shape (element : List Byte) :
    (rbPush rb element).capacity = rb.capacity ∧
      (rbPush rb element).elementSize = rb.elementSize := by
  unfold rbPush
  dsimp only
  split <;> exact ⟨rfl, rfl⟩

end Microgarbage.Containers
