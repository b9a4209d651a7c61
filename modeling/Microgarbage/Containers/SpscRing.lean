import Microgarbage.Lib.Bytes
import Microgarbage.Lib.Ring
import Microgarbage.Lib.Transition

/-!
# The single-producer single-consumer ring

`spsc_ring_push` and `spsc_ring_pop` cut at their accesses to shared memory: each load of an index,
each byte of an element and each index store is one step, and the steps of the two sides interleave
in any order. A side keeps what it has loaded, so its view of the other side's index may be old.
-/

namespace Microgarbage.Containers

open Lib List

structure SpscRing where
  /-- The caller's buffer, by byte offset. -/
  storage : Mem
  capacity : BitVec 64
  mask : BitVec 64
  elementSize : Nat
  /-- Next push index, written by the producer only. -/
  head : BitVec 64
  /-- Next pop index, written by the consumer only. -/
  tail : BitVec 64

def isPow2 (x : BitVec 64) : Bool := decide (2 ≤ x) && x &&& (x - 1) == 0

/-- `none` for bad arguments. -/
def spscRingInit (storage : Mem) (capacity : BitVec 64) (elementSize : Nat) : Option SpscRing :=
  if elementSize = 0 then none
  else if isPow2 capacity then some ⟨storage, capacity, capacity - 1, elementSize, 0, 0⟩
  else none

/-- One slot is reserved. -/
def spscRingCapacity (r : SpscRing) : Nat := (r.capacity - 1).toNat

def SpscRing.next (r : SpscRing) (index : BitVec 64) : BitVec 64 := (index + 1) &&& r.mask

def SpscRing.slot (r : SpscRing) (index : BitVec 64) : Nat := index.toNat * r.elementSize

/-! ## The two sides -/

/-- Where the producer is in `spsc_ring_push`. -/
inductive Producer where
  | idle
  /-- `head` is loaded. -/
  | loaded (element : List Byte) (head : BitVec 64)
  /-- `tail` is loaded and there is room; `k` bytes are copied. -/
  | copying (element : List Byte) (head : BitVec 64) (k : Nat)

/-- Where the consumer is in `spsc_ring_pop`. -/
inductive Consumer where
  | idle
  /-- `tail` is loaded. -/
  | loaded (tail : BitVec 64)
  /-- `head` is loaded and there is an element; `out` is what is copied of it. -/
  | copying (tail : BitVec 64) (out : List Byte)

structure SpscSys where
  ring : SpscRing
  producer : Producer
  consumer : Consumer

inductive SpscEvent where
  /-- Enter `spsc_ring_push` and load `head`. -/
  | push (element : List Byte)
  | produce
  /-- Enter `spsc_ring_pop` and load `tail`. -/
  | pop
  | consume

/-- A call that returned. -/
inductive SpscObs where
  | pushed (element : List Byte)
  | pushFull
  | popped (element : List Byte)
  | popEmpty

namespace SpscSys

variable (s : SpscSys)

/-- One step of the producer, and what it returns. -/
def produce : Option (SpscSys × List SpscObs) :=
  match s.producer with
  | .idle => none
  | .loaded element head =>
    if s.ring.next head = s.ring.tail then some ({ s with producer := .idle }, [.pushFull])
    else some ({ s with producer := .copying element head 0 }, [])
  | .copying element head k =>
    if k < s.ring.elementSize then
      let storage := Function.update s.ring.storage (s.ring.slot head + k) (element.getD k 0)
      some ({ s with
        ring := { s.ring with storage := storage }
        producer := .copying element head (k + 1) }, [])
    else
      some ({ s with
        ring := { s.ring with head := s.ring.next head }
        producer := .idle }, [.pushed element])

/-- One step of the consumer, and what it returns. -/
def consume : Option (SpscSys × List SpscObs) :=
  match s.consumer with
  | .idle => none
  | .loaded tail =>
    if tail = s.ring.head then some ({ s with consumer := .idle }, [.popEmpty])
    else some ({ s with consumer := .copying tail [] }, [])
  | .copying tail out =>
    if out.length < s.ring.elementSize then
      let byte := s.ring.storage (s.ring.slot tail + out.length)
      some ({ s with consumer := .copying tail (out ++ [byte]) }, [])
    else
      some ({ s with
        ring := { s.ring with tail := s.ring.next tail }
        consumer := .idle }, [.popped out])

def act : SpscEvent → Option (SpscSys × List SpscObs)
  | .push element =>
    match s.producer with
    | .idle =>
      if element.length = s.ring.elementSize then
        some ({ s with producer := .loaded element s.ring.head }, [])
      else none
    | _ => none
  | .produce => s.produce
  | .pop =>
    match s.consumer with
    | .idle => some ({ s with consumer := .loaded s.ring.tail }, [])
    | _ => none
  | .consume => s.consume

def step (e : SpscEvent) : Option SpscSys := (s.act e).map Prod.fst

def obs (e : SpscEvent) : List SpscObs := ((s.act e).map Prod.snd).getD []

end SpscSys

/-! ## The account -/

/-- The elements of the pushes that succeeded, in order. -/
def pushedOf (log : List SpscObs) : List (List Byte) :=
  log.filterMap fun
    | .pushed element => some element
    | _ => none

/-- The elements that pops returned, in order. -/
def poppedOf (log : List SpscObs) : List (List Byte) :=
  log.filterMap fun
    | .popped element => some element
    | _ => none

/-- Position `n`'s slot, as an index. -/
def SpscRing.indexOf (r : SpscRing) (n : Nat) : BitVec 64 := BitVec.ofNat 64 (n % r.capacity.toNat)

/-- The ring holds `pushed`, of which the first `taken` elements are popped. -/
structure RingInv (r : SpscRing) (pushed : List (List Byte)) (taken : Nat) : Prop where
  two_le : 2 ≤ r.capacity
  pow2 : r.capacity &&& (r.capacity - 1) = 0
  mask : r.mask = r.capacity - 1
  head : r.head = r.indexOf pushed.length
  tail : r.tail = r.indexOf taken
  taken_le : taken ≤ pushed.length
  room : pushed.length < taken + r.capacity.toNat
  stored : ∀ n element, taken ≤ n → pushed[n]? = some element →
    r.storage.bytes (r.slot (r.indexOf n)) r.elementSize = element

/-- What the producer knows. -/
def ProducerInv (r : SpscRing) (pushed : List (List Byte)) (taken : Nat) : Producer → Prop
  | .idle => True
  | .loaded element head => head = r.head ∧ element.length = r.elementSize
  | .copying element head k => head = r.head ∧ element.length = r.elementSize ∧
      pushed.length + 1 < taken + r.capacity.toNat ∧ k ≤ r.elementSize ∧
      r.storage.bytes (r.slot head) k = element.take k

/-- What the consumer knows. -/
def ConsumerInv (r : SpscRing) (pushed : List (List Byte)) (taken : Nat) : Consumer → Prop
  | .idle => True
  | .loaded tail => tail = r.tail
  | .copying tail out => tail = r.tail ∧ ∃ element, pushed[taken]? = some element ∧
      out.length ≤ r.elementSize ∧ out = element.take out.length

structure SpscInv (s : SpscSys) (log : List SpscObs) : Prop where
  ring : RingInv s.ring (pushedOf log) (poppedOf log).length
  popped : poppedOf log = (pushedOf log).take (poppedOf log).length
  producer : ProducerInv s.ring (pushedOf log) (poppedOf log).length s.producer
  consumer : ConsumerInv s.ring (pushedOf log) (poppedOf log).length s.consumer

@[simp] theorem pushedOf_append (log log' : List SpscObs) :
    pushedOf (log ++ log') = pushedOf log ++ pushedOf log' := filterMap_append

@[simp] theorem poppedOf_append (log log' : List SpscObs) :
    poppedOf (log ++ log') = poppedOf log ++ poppedOf log' := filterMap_append

section Ring

variable {r : SpscRing} {pushed : List (List Byte)} {taken : Nat}

theorem RingInv.toNat_indexOf (h : RingInv r pushed taken) (n : Nat) :
    (r.indexOf n).toNat = n % r.capacity.toNat := toNat_slot h.two_le n

theorem RingInv.next_indexOf (h : RingInv r pushed taken) (n : Nat) :
    r.next (r.indexOf n) = r.indexOf (n + 1) := by
  unfold SpscRing.next
  rw [h.mask]
  exact next_slot h.two_le h.pow2 n

theorem RingInv.indexOf_ne (h : RingInv r pushed taken) {i j : Nat} (hij : i < j)
    (hj : j < i + r.capacity.toNat) : r.indexOf i ≠ r.indexOf j := by
  intro he
  have hmod := congrArg BitVec.toNat he
  rw [h.toNat_indexOf, h.toNat_indexOf] at hmod
  exact slot_ne hij hj hmod

theorem RingInv.full_iff (h : RingInv r pushed taken) :
    r.next r.head = r.tail ↔ pushed.length + 1 = taken + r.capacity.toNat := by
  have hle := h.taken_le
  have hroom := h.room
  rw [h.head, h.tail, h.next_indexOf]
  constructor
  · intro he
    by_contra hne
    exact h.indexOf_ne (by omega) (by omega) he.symm
  · intro he
    refine BitVec.eq_of_toNat_eq ?_
    rw [h.toNat_indexOf, h.toNat_indexOf, he, Nat.add_mod_right]

theorem RingInv.empty_iff (h : RingInv r pushed taken) :
    r.tail = r.head ↔ taken = pushed.length := by
  have hle := h.taken_le
  rw [h.head, h.tail]
  constructor
  · intro he
    by_contra hne
    exact h.indexOf_ne (by omega) h.room he
  · intro he
    rw [he]

theorem RingInv.copyByte (h : RingInv r pushed taken) {k : Nat} (b : Byte)
    (hk : k < r.elementSize) :
    RingInv { r with storage := Function.update r.storage (r.slot r.head + k) b } pushed taken := by
  obtain ⟨h2, hpow, hmask, hhead, htail, hle, hroom, hstored⟩ := h
  have hring : RingInv r pushed taken := ⟨h2, hpow, hmask, hhead, htail, hle, hroom, hstored⟩
  refine ⟨h2, hpow, hmask, hhead, htail, hle, hroom, fun n element hn he => ?_⟩
  have hlt : n < pushed.length := (List.getElem?_eq_some_iff.mp he).1
  have hne : (r.indexOf n).toNat ≠ r.head.toNat := by
    rw [hhead]
    exact fun e => hring.indexOf_ne hlt (by omega) (BitVec.eq_of_toNat_eq e)
  refine Eq.trans (Mem.bytes_update_out ?_) (hstored n element hn he)
  have hd : r.slot (r.indexOf n) + r.elementSize ≤ r.slot r.head ∨
      r.slot r.head + r.elementSize ≤ r.slot (r.indexOf n) := slots_disjoint hne
  rcases hd with hd | hd
  · right
    exact Nat.le_trans hd (Nat.le_add_right ..)
  · left
    exact Nat.lt_of_lt_of_le (Nat.add_lt_add_left hk _) hd

theorem RingInv.publish (h : RingInv r pushed taken) {element : List Byte}
    (hroom : pushed.length + 1 < taken + r.capacity.toNat)
    (hbytes : r.storage.bytes (r.slot r.head) r.elementSize = element) :
    RingInv { r with head := r.next r.head } (pushed ++ [element]) taken := by
  have hlen : (pushed ++ [element]).length = pushed.length + 1 := length_append
  refine ⟨h.two_le, h.pow2, h.mask, ?_, h.tail, ?_, ?_, fun n e hn he => ?_⟩
  · rw [hlen]
    exact (congrArg r.next h.head).trans (h.next_indexOf _)
  · rw [hlen]
    exact Nat.le_succ_of_le h.taken_le
  · rw [hlen]
    exact hroom
  · rw [List.getElem?_append] at he
    split at he
    · exact h.stored n e hn he
    · next hge =>
      obtain ⟨hlt, rfl⟩ := List.getElem?_eq_some_iff.mp he
      have hn : n = pushed.length := by
        rw [length_singleton] at hlt
        omega
      subst hn
      rw [getElem_singleton, ← hbytes, h.head]
      rfl

theorem RingInv.release (h : RingInv r pushed taken) (hlt : taken < pushed.length) :
    RingInv { r with tail := r.next r.tail } pushed (taken + 1) := by
  have hroom := h.room
  refine ⟨h.two_le, h.pow2, h.mask, h.head, ?_, hlt, ?_, fun n e hn => ?_⟩
  · exact (congrArg r.next h.tail).trans (h.next_indexOf _)
  · exact Nat.lt_of_lt_of_le hroom (Nat.add_le_add_right (Nat.le_succ _) _)
  · exact h.stored n e (Nat.le_of_succ_le hn)

end Ring

theorem ConsumerInv.mono {r r' : SpscRing} {pushed : List (List Byte)} {taken : Nat} {c : Consumer}
    (more : List (List Byte)) (htail : r'.tail = r.tail) (hsize : r'.elementSize = r.elementSize)
    (h : ConsumerInv r pushed taken c) : ConsumerInv r' (pushed ++ more) taken c := by
  cases c with
  | idle => exact trivial
  | loaded tail => exact h.trans htail.symm
  | copying tail out =>
    obtain ⟨ht, element, he, hlen, hout⟩ := h
    refine ⟨ht.trans htail.symm, element, ?_, hsize ▸ hlen, hout⟩
    rw [List.getElem?_append_left (List.getElem?_eq_some_iff.mp he).1]
    exact he

theorem ProducerInv.release {r : SpscRing} {pushed : List (List Byte)} {taken : Nat} {p : Producer}
    (tail : BitVec 64) (h : ProducerInv r pushed taken p) :
    ProducerInv { r with tail := tail } pushed (taken + 1) p := by
  cases p with
  | idle => exact trivial
  | loaded element head => exact h
  | copying element head k =>
    obtain ⟨hhead, hlen, hspace, hrest⟩ := h
    exact ⟨hhead, hlen, Nat.lt_of_lt_of_le hspace (Nat.add_le_add_right (Nat.le_succ _) _), hrest⟩

/-! ## One step -/

section Steps

variable {s s' : SpscSys} {log o : List SpscObs}

theorem produce_inv (h : SpscInv s log) (hs : s.produce = some (s', o)) :
    SpscInv s' (log ++ o) := by
  obtain ⟨hring, hpopped, hprod, hcons⟩ := h
  unfold SpscSys.produce at hs
  cases hp : s.producer with
  | idle =>
    rw [hp] at hs
    cases hs
  | loaded element head =>
    rw [hp] at hs hprod
    obtain ⟨rfl, hlen⟩ := hprod
    dsimp only at hs
    split at hs
    · cases hs
      rw [← append_nil (pushedOf log)] at hring hpopped hcons
      rw [← append_nil (poppedOf log)] at hring hpopped hcons
      refine ⟨?_, ?_, trivial, ?_⟩ <;> rw [poppedOf_append, pushedOf_append] <;> assumption
    · next hfull =>
      cases hs
      rw [append_nil]
      have hspace : (pushedOf log).length + 1 <
          (poppedOf log).length + s.ring.capacity.toNat := by
        have hroom := hring.room
        have hne := mt hring.full_iff.mpr hfull
        omega
      exact ⟨hring, hpopped, ⟨rfl, hlen, hspace, Nat.zero_le _, rfl⟩, hcons⟩
  | copying element head k =>
    rw [hp] at hs hprod
    obtain ⟨rfl, hlen, hspace, hk, hbytes⟩ := hprod
    dsimp only at hs
    split at hs
    · next hlt =>
      cases hs
      rw [append_nil]
      have hc := hcons.mono [] (r := s.ring) rfl rfl
      rw [append_nil] at hc
      refine ⟨hring.copyByte _ hlt, hpopped, ⟨rfl, hlen, hspace, hlt, ?_⟩, hc⟩
      -- byte `k` is now copied too
      show Mem.bytes (Function.update s.ring.storage (s.ring.slot s.ring.head + k)
        (element.getD k 0)) (s.ring.slot s.ring.head) (k + 1) = element.take (k + 1)
      rw [Mem.bytes_succ, Mem.bytes_update_out (Or.inr (Nat.le_refl _)), hbytes,
        Function.update_self, take_add_one, List.getElem?_eq_getElem (by omega),
        getD_eq_getElem?_getD, List.getElem?_eq_getElem (by omega)]
      rfl
    · next hge =>
      cases hs
      have hall : k = element.length := by omega
      rw [hall, take_length] at hbytes
      rw [hlen] at hbytes
      have hnone : poppedOf [SpscObs.pushed element] = [] := rfl
      have hpush : pushedOf (log ++ [.pushed element]) = pushedOf log ++ [element] :=
        pushedOf_append ..
      have hpop : poppedOf (log ++ [.pushed element]) = poppedOf log := by
        rw [poppedOf_append, hnone, append_nil]
      refine ⟨?_, ?_, trivial, ?_⟩ <;> rw [hpush, hpop]
      · exact hring.publish hspace hbytes
      · rw [take_append_of_le_length hring.taken_le]
        exact hpopped
      · exact hcons.mono [element] rfl rfl

theorem consume_inv (h : SpscInv s log) (hs : s.consume = some (s', o)) :
    SpscInv s' (log ++ o) := by
  obtain ⟨hring, hpopped, hprod, hcons⟩ := h
  unfold SpscSys.consume at hs
  cases hc : s.consumer with
  | idle =>
    rw [hc] at hs
    cases hs
  | loaded tail =>
    rw [hc] at hs hcons
    obtain rfl := hcons
    dsimp only at hs
    split at hs
    · cases hs
      rw [← append_nil (pushedOf log)] at hring hpopped hprod
      rw [← append_nil (poppedOf log)] at hring hpopped hprod
      refine ⟨?_, ?_, ?_, trivial⟩ <;> rw [poppedOf_append, pushedOf_append] <;> assumption
    · next hempty =>
      cases hs
      rw [append_nil]
      have hle := hring.taken_le
      have hne := mt hring.empty_iff.mpr hempty
      have hlt : (poppedOf log).length < (pushedOf log).length := by omega
      exact ⟨hring, hpopped, hprod, rfl, (pushedOf log)[(poppedOf log).length],
        List.getElem?_eq_getElem hlt, Nat.zero_le _, rfl⟩
  | copying tail out =>
    rw [hc] at hs hcons
    obtain ⟨rfl, element, he, hlen, hout⟩ := hcons
    have hstored := hring.stored _ _ (Nat.le_refl _) he
    rw [← hring.tail] at hstored
    have hsize : element.length = s.ring.elementSize := by
      rw [← hstored]
      exact Mem.length_bytes ..
    dsimp only at hs
    split at hs
    · next hlt =>
      cases hs
      rw [append_nil]
      refine ⟨hring, hpopped, hprod, rfl, element, he, ?_, ?_⟩
      · rw [length_append]
        exact hlt
      · -- the bytes read so far are those of the slot
        rw [length_append, length_singleton, ← hstored, Mem.bytes_take _ _ hlt,
          Mem.bytes_succ]
        congr 1
        rw [← Mem.bytes_take _ _ hlen, hstored]
        exact hout
    · next hge =>
      cases hs
      have hall : out = element := by
        rw [hout, take_of_length_le (by omega)]
      subst hall
      have hnone : pushedOf [SpscObs.popped out] = [] := rfl
      have hpush : pushedOf (log ++ [.popped out]) = pushedOf log := by
        rw [pushedOf_append, hnone, append_nil]
      have hpop : poppedOf (log ++ [.popped out]) = poppedOf log ++ [out] := poppedOf_append ..
      have hcount : (poppedOf log ++ [out]).length = (poppedOf log).length + 1 :=
        length_append
      refine ⟨?_, ?_, ?_, trivial⟩ <;> rw [hpush, hpop, hcount]
      · exact hring.release (List.getElem?_eq_some_iff.mp he).1
      · rw [take_add_one, he, ← hpopped]
        rfl
      · exact hprod.release _

theorem step_inv {e : SpscEvent} (h : SpscInv s log) (hs : s.step e = some s') :
    SpscInv s' (log ++ s.obs e) := by
  unfold SpscSys.step at hs
  unfold SpscSys.obs
  cases ha : s.act e with
  | none =>
    rw [ha] at hs
    cases hs
  | some r =>
    obtain ⟨s₁, o⟩ := r
    rw [ha] at hs
    cases hs
    have happ : SpscInv s₁ (log ++ o) := by
      cases e with
      | push element =>
        unfold SpscSys.act at ha
        dsimp only at ha
        split at ha
        · split at ha
          · next hlen =>
            cases ha
            rw [append_nil]
            exact { h with producer := ⟨rfl, hlen⟩ }
          · cases ha
        · cases ha
      | produce => exact produce_inv h ha
      | pop =>
        unfold SpscSys.act at ha
        dsimp only at ha
        split at ha
        · cases ha
          rw [append_nil]
          exact { h with consumer := rfl }
        · cases ha
      | consume => exact consume_inv h ha
    exact happ

end Steps

/-! ## Every run -/

/-- What the two sides may rely on. -/
structure SpscSafe (s : SpscSys) (log : List SpscObs) : Prop where
  order : poppedOf log <+: pushedOf log
  /-- The outstanding elements are in their slots. -/
  stored : ∀ n element, (poppedOf log).length ≤ n → (pushedOf log)[n]? = some element →
    s.ring.storage.bytes (s.ring.slot (s.ring.indexOf n)) s.ring.elementSize = element
  /-- A pop reads the oldest outstanding element. -/
  reading : ∀ tail out, s.consumer = .copying tail out → ∃ element,
    (pushedOf log)[(poppedOf log).length]? = some element ∧ out <+: element
  /-- A push writes no slot of an outstanding element. -/
  writing : ∀ element head k, s.producer = .copying element head k →
    ∀ n, (poppedOf log).length ≤ n → n < (pushedOf log).length → s.ring.indexOf n ≠ head
  full : .pushFull ∈ s.obs .produce →
    (pushedOf log).length = (poppedOf log).length + spscRingCapacity s.ring
  empty : .popEmpty ∈ s.obs .consume → (pushedOf log).length = (poppedOf log).length

section Runs

variable {s s' : SpscSys} {log : List SpscObs}

theorem SpscInv.full (h : SpscInv s log) (ho : .pushFull ∈ s.obs .produce) :
    (pushedOf log).length = (poppedOf log).length + spscRingCapacity s.ring := by
  obtain ⟨hring, -, hprod, -⟩ := h
  have h2 := two_le_toNat hring.two_le
  have hcap : spscRingCapacity s.ring = s.ring.capacity.toNat - 1 :=
    BitVec.toNat_sub_of_le (BitVec.le_def.mpr (Nat.le_trans (by decide) h2))
  unfold SpscSys.obs SpscSys.act SpscSys.produce at ho
  cases hp : s.producer with
  | idle => simp [hp] at ho
  | loaded element head =>
    rw [hp] at hprod
    obtain ⟨rfl, -⟩ := hprod
    by_cases hfull : s.ring.next s.ring.head = s.ring.tail
    · have heq := hring.full_iff.mp hfull
      omega
    · simp [hp, hfull] at ho
  | copying element head k =>
    by_cases hk : k < s.ring.elementSize
    · simp [hp, hk] at ho
    · simp [hp, hk] at ho

theorem SpscInv.empty (h : SpscInv s log) (ho : .popEmpty ∈ s.obs .consume) :
    (pushedOf log).length = (poppedOf log).length := by
  obtain ⟨hring, -, -, hcons⟩ := h
  unfold SpscSys.obs SpscSys.act SpscSys.consume at ho
  cases hc : s.consumer with
  | idle => simp [hc] at ho
  | loaded tail =>
    rw [hc] at hcons
    obtain rfl := hcons
    by_cases hempty : s.ring.tail = s.ring.head
    · exact (hring.empty_iff.mp hempty).symm
    · simp [hc, hempty] at ho
  | copying tail out =>
    by_cases hk : out.length < s.ring.elementSize
    · simp [hc, hk] at ho
    · simp [hc, hk] at ho

theorem step_shape {e : SpscEvent} (hs : s.step e = some s') :
    s'.ring.capacity = s.ring.capacity ∧ s'.ring.elementSize = s.ring.elementSize := by
  unfold SpscSys.step at hs
  cases e <;> simp only [SpscSys.act, SpscSys.produce, SpscSys.consume] at hs <;> split at hs <;>
    (try split at hs) <;> cases hs <;> exact ⟨rfl, rfl⟩

/-- The elements that are pushed and not popped. -/
def outstanding (log : List SpscObs) : List (List Byte) :=
  (pushedOf log).drop (poppedOf log).length

theorem SpscInv.safe (h : SpscInv s log) : SpscSafe s log where
  order := by
    rw [h.popped]
    exact take_prefix ..
  stored := h.ring.stored
  reading := by
    intro tail out hc
    have hcons := h.consumer
    rw [hc] at hcons
    obtain ⟨-, element, he, -, hout⟩ := hcons
    refine ⟨element, he, ?_⟩
    rw [hout]
    exact take_prefix ..
  writing := by
    intro element head k hp n hn hlt
    have hprod := h.producer
    rw [hp] at hprod
    obtain ⟨rfl, -⟩ := hprod
    rw [h.ring.head]
    exact h.ring.indexOf_ne hlt (Nat.lt_of_lt_of_le h.ring.room (Nat.add_le_add_right hn _))
  full := h.full
  empty := h.empty

theorem init_inv {storage : Mem} {capacity : BitVec 64} {elementSize : Nat} {r : SpscRing}
    (hinit : spscRingInit storage capacity elementSize = some r) :
    SpscInv ⟨r, .idle, .idle⟩ [] ∧ r.capacity = capacity ∧ r.elementSize = elementSize := by
  unfold spscRingInit at hinit
  split at hinit
  · cases hinit
  · split at hinit
    · next hpow =>
      cases hinit
      unfold isPow2 at hpow
      rw [Bool.and_eq_true, decide_eq_true_eq, beq_iff_eq] at hpow
      obtain ⟨h2, hmask⟩ := hpow
      have hpos := two_le_toNat h2
      have hzero : SpscRing.indexOf ⟨storage, capacity, capacity - 1, elementSize, 0, 0⟩ 0 = 0 := by
        unfold SpscRing.indexOf
        rw [Nat.zero_mod]
        rfl
      refine ⟨⟨⟨h2, hmask, rfl, hzero.symm, hzero.symm, Nat.le_refl _, ?_, ?_⟩, rfl, trivial,
        trivial⟩, rfl, rfl⟩
      · show 0 < 0 + capacity.toNat
        omega
      · intro n element _ he
        cases he
    · cases hinit

/-- In every interleaving of pushes and pops the ring is a queue of `capacity - 1` places. -/
theorem run_spscRing {storage : Mem} {capacity : BitVec 64} {elementSize : Nat} {r : SpscRing}
    (hinit : spscRingInit storage capacity elementSize = some r) {es : List SpscEvent}
    (hrun : run SpscSys.step ⟨r, .idle, .idle⟩ es = some s) :
    s.ring.capacity = capacity ∧ s.ring.elementSize = elementSize ∧
      SpscSafe s (trace SpscSys.step SpscSys.obs ⟨r, .idle, .idle⟩ es) := by
  obtain ⟨hinv, hcap, hsize⟩ := init_inv hinit
  have hall : ∀ (s : SpscSys) (e : SpscEvent), True := fun _ _ => trivial
  have hshape : ∀ s e s', s.ring.capacity = capacity ∧ s.ring.elementSize = elementSize → True →
      SpscSys.step s e = some s' →
      s'.ring.capacity = capacity ∧ s'.ring.elementSize = elementSize := by
    intro s e s' hs _ hstep
    obtain ⟨hc, hz⟩ := step_shape hstep
    exact ⟨hc.trans hs.1, hz.trans hs.2⟩
  have hstep : ∀ s l e s', SpscInv s l → True → SpscSys.step s e = some s' →
      SpscInv s' (l ++ SpscSys.obs s e) := fun s l e s' h _ hs => step_inv h hs
  obtain ⟨hcap', hsize'⟩ := run_invariant hshape ⟨hcap, hsize⟩ (.of_forall hall _ _) hrun
  exact ⟨hcap', hsize', (trace_invariant hstep hinv (.of_forall hall _ _) hrun).safe⟩

end Runs

/-- A ring of two slots of one byte. -/
def twoSlots : SpscRing := ⟨fun _ => 0, 2, 1, 1, 0, 0⟩

/-- A whole push of one byte. -/
def pushOne (b : Byte) : List SpscEvent := [.push [b], .produce, .produce, .produce]

/-- A pop that a push overlaps, and a push that wraps `head`. -/
def wrapping : List SpscEvent :=
  pushOne 7 ++ [.pop, .consume, .push [8], .consume, .produce, .consume] ++ pushOne 9

theorem run_spscRing_wrap : ∃ s, run SpscSys.step ⟨twoSlots, .idle, .idle⟩ wrapping = some s ∧
    s.ring.head = 0 ∧ s.ring.capacity = 2 ∧ s.ring.elementSize = 1 ∧
      SpscSafe s (trace SpscSys.step SpscSys.obs ⟨twoSlots, .idle, .idle⟩ wrapping) := by
  obtain ⟨s, hs, hhead⟩ : ∃ s, run SpscSys.step ⟨twoSlots, .idle, .idle⟩ wrapping = some s ∧
    s.ring.head = 0 := ⟨_, rfl, by decide⟩
  have hinit : spscRingInit (fun _ => 0) 2 1 = some twoSlots := rfl
  exact ⟨s, hs, hhead, run_spscRing hinit hs⟩

/-- A push on a ring with one of its two slots in use fails. -/
theorem push_fails_below_capacity : ¬∀ (storage : Mem) (capacity : BitVec 64) (elementSize : Nat)
    (r : SpscRing) (es : List SpscEvent) (s : SpscSys),
    spscRingInit storage capacity elementSize = some r →
    run SpscSys.step ⟨r, .idle, .idle⟩ es = some s → .pushFull ∈ s.obs .produce →
    (pushedOf (trace SpscSys.step SpscSys.obs ⟨r, .idle, .idle⟩ es)).length =
      (poppedOf (trace SpscSys.step SpscSys.obs ⟨r, .idle, .idle⟩ es)).length +
        capacity.toNat := by
  intro h
  have hlen := h (fun _ => 0) 2 1 twoSlots (pushOne 7 ++ [.push [8]]) _ rfl rfl
    (mem_singleton_self _)
  exact absurd hlen (by decide)

end Microgarbage.Containers
