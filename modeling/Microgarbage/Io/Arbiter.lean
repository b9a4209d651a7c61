import Microgarbage.Containers.SpscRing
import Microgarbage.Io.Streams

/-!
# The stream arbiter's threads

`stream_arbiter_tick` cut at its accesses to shared memory and its callbacks, against the consumers
of the registered streams, each somewhere in `stream_arbiter_consume` or `stream_arbiter_is_eof`.
Rings are the rings of `Containers.SpscRing`, with all their steps.
-/

namespace Microgarbage.Io

open Lib Containers List
open Function (update update_of_ne update_self)

/-- Where a consumer is in `stream_arbiter_is_eof`. -/
inductive EofCheck where
  | idle
  /-- `eof` was set. -/
  | latched
  deriving DecidableEq

/-- A registered stream. -/
structure ArbiterStream where
  sys : SpscSys
  eof : Bool
  check : EofCheck
  log : List SpscObs
  /-- The elements its producer has filled. -/
  filled : List (List Byte)
  /-- What `stream_arbiter_is_eof` has answered. -/
  reports : List Bool

/-- Where the tick is; `i` slots of it are done. -/
inductive TickPlace where
  | idle
  /-- About to load `in_use` and `eof`. -/
  | visit (start : BitVec 32) (i : Nat)
  /-- About to test whether the ring is full. -/
  | full (start : BitVec 32) (i : Nat)
  | fill (start : BitVec 32) (i : Nat)
  | atEof (start : BitVec 32) (i : Nat)
  /-- About to store `eof`. -/
  | latch (start : BitVec 32) (i : Nat)
  /-- In `spsc_ring_push`. -/
  | push (start : BitVec 32) (i : Nat)
  deriving DecidableEq

structure Arbiter where
  slots : Fin 4 → Option ArbiterStream
  rotation : BitVec 32
  place : TickPlace
  /-- The streams that were neither full nor ended when the tick began, -/
  waiting : Fin 4 → Bool
  /-- and those that it has offered a fill. -/
  offered : Fin 4 → Bool

inductive ArbiterEvent where
  | register (slotBytes depth : BitVec 32) (storage : Mem) (mem : Bool)
  | unregister (h : Fin 4)
  | tick
  /-- The tick's next access. -/
  | look
  /-- `fill` returns, with an element or without. -/
  | filled (element : Option (List Byte))
  /-- `at_eof` returns. -/
  | asked (ended : Bool)
  | consume (h : Fin 4)
  /-- Enter `stream_arbiter_is_eof` and load `eof`. -/
  | isEof (h : Fin 4)
  /-- The consumer's next access. -/
  | consumer (h : Fin 4)

namespace ArbiterStream

/-- `spsc_ring_full`: only the caller writes `head`. -/
def full (st : ArbiterStream) : Bool := st.sys.ring.next st.sys.ring.head = st.sys.ring.tail

/-- The stream after one step of its ring. -/
def after (st : ArbiterStream) (r : SpscSys × List SpscObs) : ArbiterStream :=
  { st with sys := r.1, log := st.log ++ r.2 }

def quiet (st : ArbiterStream) : Bool :=
  match st.sys.consumer, st.check with
  | .idle, .idle => true
  | _, _ => false

/-- One step of the ring on the consumer's or the producer's side. -/
def act (st : ArbiterStream) (e : SpscEvent) : Option ArbiterStream := (st.sys.act e).map st.after

def isEof (st : ArbiterStream) : ArbiterStream :=
  if st.eof then { st with check := .latched } else { st with reports := st.reports ++ [false] }

/-- The next step of `stream_arbiter_consume` or `stream_arbiter_is_eof`; only the caller writes
`tail`. -/
def consumer (st : ArbiterStream) : Option ArbiterStream :=
  match st.check with
  | .latched =>
    some { st with
      check := .idle
      reports := st.reports ++ [decide (st.sys.ring.head = st.sys.ring.tail)] }
  | .idle => st.act .consume

def producing (st : ArbiterStream) : Bool :=
  match st.sys.producer with
  | .idle => false
  | _ => true

end ArbiterStream

namespace Arbiter

def init : Arbiter := ⟨fun _ => none, 0, .idle, fun _ => false, fun _ => false⟩

/-- The slot a tick that began at `start` looks at in its turn `i`. -/
def slotAt (start : BitVec 32) (i : Nat) : Fin 4 :=
  ⟨(start + BitVec.ofNat 32 i).toNat % streamArbiterMax, Nat.mod_lt _ (by decide)⟩

def setSlot (s : Arbiter) (h : Fin 4) (st : ArbiterStream) : Arbiter :=
  { s with slots := update s.slots h (some st) }

def goto (s : Arbiter) (place : TickPlace) : Arbiter := { s with place := place }

def freeSlot (s : Arbiter) : Option (Fin 4) := (List.finRange 4).find? fun h => (s.slots h).isNone

/-- `stream_arbiter_register_producer`; `mem` tells whether the allocations succeed. -/
def register (s : Arbiter) (slotBytes depth : BitVec 32) (storage : Mem) (mem : Bool) : Arbiter :=
  if StreamSys.accepts slotBytes depth mem then
    match s.freeSlot, spscRingInit storage (depth.setWidth 64) slotBytes.toNat with
    | some h, some ring => s.setSlot h ⟨⟨ring, .idle, .idle⟩, false, .idle, [], [], []⟩
    | _, _ => s
  else s

/-- A stream that would be offered a fill. -/
def wants (s : Arbiter) (h : Fin 4) : Bool :=
  match s.slots h with
  | some st => !st.eof && !st.full
  | none => false

/-- The tick's next access to shared memory. -/
def look (s : Arbiter) : Option Arbiter :=
  match s.place with
  | .visit start i =>
    if streamArbiterMax ≤ i then some (s.goto .idle)
    else
      match s.slots (slotAt start i) with
      | none => some (s.goto (.visit start (i + 1)))
      | some st => some (s.goto (if st.eof then .visit start (i + 1) else .full start i))
  | .full start i =>
    (s.slots (slotAt start i)).map fun st =>
      s.goto (if st.full then .visit start (i + 1) else .fill start i)
  | .latch start i =>
    (s.slots (slotAt start i)).map fun st =>
      (s.setSlot (slotAt start i) { st with eof := true }).goto (.visit start (i + 1))
  | .push start i =>
    (s.slots (slotAt start i)).bind fun st =>
      (st.act .produce).map fun st' =>
        (s.setSlot (slotAt start i) st').goto
          (if st'.producing then .push start i else .visit start (i + 1))
  | _ => none

/-- What the tick makes of `fill`'s result; the push then begins. -/
def fillDone (s : Arbiter) (element : Option (List Byte)) : Option Arbiter :=
  match s.place with
  | .fill start i =>
    let s := { s with offered := update s.offered (slotAt start i) true }
    match element with
    | none => some (s.goto (.atEof start i))
    | some e =>
      (s.slots (slotAt start i)).bind fun st =>
        (st.act (.push e)).map fun st' =>
          (s.setSlot (slotAt start i) { st' with filled := st'.filled ++ [e] }).goto (.push start i)
  | _ => none

def step (s : Arbiter) : ArbiterEvent → Option Arbiter
  | .register slotBytes depth storage mem =>
    if s.place = .idle then some (s.register slotBytes depth storage mem) else none
  | .unregister h =>
    if s.place = .idle ∧ (s.slots h).all ArbiterStream.quiet then
      some { s with slots := update s.slots h none }
    else none
  | .tick =>
    if s.place = .idle then
      some { s with
        rotation := s.rotation + 1
        place := .visit s.rotation 0
        waiting := s.wants
        offered := fun _ => false }
    else none
  | .look => s.look
  | .filled element => s.fillDone element
  | .asked ended =>
    match s.place with
    | .atEof start i => some (s.goto (if ended then .latch start i else .visit start (i + 1)))
    | _ => none
  | .consume h =>
    (s.slots h).bind fun st => if st.quiet then (st.act .pop).map (s.setSlot h) else none
  | .isEof h =>
    (s.slots h).bind fun st => if st.quiet then some (s.setSlot h st.isEof) else none
  | .consumer h => (s.slots h).bind fun st => st.consumer.map (s.setSlot h)

end Arbiter

/-! ## One stream -/

/-- The element of a push under way. -/
def pendingOf : Containers.Producer → List (List Byte)
  | .idle => []
  | .loaded element _ => [element]
  | .copying element _ _ => [element]

structure StreamInv (st : ArbiterStream) : Prop where
  spsc : SpscInv st.sys st.log
  filled : st.filled = pushedOf st.log ++ pendingOf st.sys.producer
  latched : st.check = .latched → st.eof = true
  ended : st.eof = true → st.sys.producer = .idle
  reported : true ∈ st.reports → st.eof = true ∧ outstanding st.log = []
  stays : st.reports.Pairwise fun a b => a = true → b = true

/-- One more element fits. -/
def Room (st : ArbiterStream) : Prop :=
  (pushedOf st.log).length + 1 < (poppedOf st.log).length + st.sys.ring.capacity.toNat

section Stream

variable {st st' : ArbiterStream}

theorem outstanding_eq_nil {log : List SpscObs} :
    outstanding log = [] ↔ (pushedOf log).length ≤ (poppedOf log).length :=
  drop_eq_nil_iff

theorem StreamInv.full_iff (h : StreamInv st) : st.full = false ↔ Room st := by
  unfold ArbiterStream.full Room
  rw [decide_eq_false_iff_not, h.spsc.ring.full_iff]
  have hroom := h.spsc.ring.room
  omega

theorem StreamInv.empty_iff (h : StreamInv st) :
    st.sys.ring.head = st.sys.ring.tail ↔ outstanding st.log = [] := by
  rw [eq_comm, h.spsc.ring.empty_iff, outstanding_eq_nil]
  have hle := h.spsc.ring.taken_le
  omega

theorem init_stream {storage : Mem} {capacity : BitVec 64} {elementSize : Nat} {ring : SpscRing}
    (hinit : spscRingInit storage capacity elementSize = some ring) :
    StreamInv ⟨⟨ring, .idle, .idle⟩, false, .idle, [], [], []⟩ :=
  ⟨(init_inv hinit).1, rfl, nofun, nofun, nofun, .nil⟩

/-- The consumer's steps push nothing and leave the producer where it is. -/
theorem act_consume {s : SpscSys} {e : SpscEvent} (he : e = .pop ∨ e = .consume)
    {r : SpscSys × List SpscObs} (hs : s.act e = some r) :
    pushedOf r.2 = [] ∧ r.1.producer = s.producer ∧ r.1.ring.capacity = s.ring.capacity := by
  rcases he with rfl | rfl <;> simp only [SpscSys.act, SpscSys.consume] at hs <;> split at hs <;>
    (try split at hs) <;> cases hs <;> exact ⟨rfl, rfl, rfl⟩

theorem act_inv {e : SpscEvent} (h : StreamInv st) {r : SpscSys × List SpscObs}
    (hs : st.sys.act e = some r) : SpscInv r.1 (st.log ++ r.2) := by
  have hstep : st.sys.step e = some r.1 := by
    unfold SpscSys.step
    rw [hs]
    rfl
  have hinv := step_inv h.spsc hstep
  unfold SpscSys.obs at hinv
  rwa [hs] at hinv

/-- What a step of the consumer keeps. -/
structure Consumed (st st' : ArbiterStream) : Prop where
  inv : StreamInv st'
  producer : st'.sys.producer = st.sys.producer
  eof : st'.eof = st.eof
  room : Room st → Room st'

theorem StreamInv.act_consumer (h : StreamInv st) {e : SpscEvent} (he : e = .pop ∨ e = .consume)
    (hs : st.act e = some st') : Consumed st st' := by
  unfold ArbiterStream.act at hs
  obtain ⟨r, hr, rfl⟩ := Option.map_eq_some_iff.mp hs
  obtain ⟨hpush, hprod, hcap⟩ := act_consume he hr
  have hinv := act_inv h hr
  have hpushed : pushedOf (st.log ++ r.2) = pushedOf st.log := by
    rw [pushedOf_append, hpush, append_nil]
  have hpopped : (poppedOf st.log).length ≤ (poppedOf (st.log ++ r.2)).length := by
    rw [poppedOf_append, length_append]
    exact Nat.le_add_right ..
  refine ⟨⟨hinv, ?_, h.latched, fun heof => hprod.trans (h.ended heof), fun hrep => ?_, h.stays⟩,
    hprod, rfl, fun hroom => ?_⟩
  · unfold ArbiterStream.after
    dsimp only
    rw [hpushed, hprod]
    exact h.filled
  · obtain ⟨heof, hout⟩ := h.reported hrep
    refine ⟨heof, outstanding_eq_nil.mpr ?_⟩
    have hle := outstanding_eq_nil.mp hout
    unfold ArbiterStream.after
    dsimp only
    rw [hpushed]
    omega
  · unfold Room ArbiterStream.after at *
    dsimp only at *
    rw [hpushed, hcap]
    omega

theorem StreamInv.isEof (h : StreamInv st) : Consumed st st.isEof := by
  unfold ArbiterStream.isEof
  split
  · next heof =>
    exact ⟨{ h with latched := fun _ => heof }, rfl, rfl, id⟩
  · next heof =>
    have hnone : true ∉ st.reports := fun hr => heof (h.reported hr).1
    refine ⟨{ h with reported := fun hrep => ?_, stays := ?_ }, rfl, rfl, id⟩
    · rcases mem_append.mp hrep with hrep | hrep
      · exact absurd hrep hnone
      · cases mem_singleton.mp hrep
    · refine pairwise_append.mpr ⟨h.stays, pairwise_singleton .., fun a ha b _ he => ?_⟩
      exact absurd (he ▸ ha) hnone

theorem StreamInv.consumer (h : StreamInv st) (hs : st.consumer = some st') :
    Consumed st st' := by
  unfold ArbiterStream.consumer at hs
  cases hc : st.check with
  | idle =>
    rw [hc] at hs
    exact h.act_consumer (.inr rfl) hs
  | latched =>
    rw [hc] at hs
    cases hs
    have heof := h.latched hc
    refine ⟨⟨h.spsc, h.filled, nofun, h.ended, fun hrep => ?_, ?_⟩, rfl, rfl, id⟩
    · rcases mem_append.mp hrep with hrep | hrep
      · exact h.reported hrep
      · have hempty := of_decide_eq_true (mem_singleton.mp hrep).symm
        exact ⟨heof, h.empty_iff.mp hempty⟩
    · refine pairwise_append.mpr ⟨h.stays, pairwise_singleton .., fun a ha b hb he => ?_⟩
      rw [mem_singleton.mp hb]
      exact decide_eq_true (h.empty_iff.mpr (h.reported (he ▸ ha)).2)

theorem StreamInv.begin_push (h : StreamInv st) {e : List Byte} (heof : st.eof = false)
    (hroom : Room st) (hs : st.act (.push e) = some st') :
    StreamInv { st' with filled := st'.filled ++ [e] } ∧ st'.producing = true ∧ st'.eof = false ∧
      Room st' := by
  unfold ArbiterStream.act at hs
  obtain ⟨r, hr, rfl⟩ := Option.map_eq_some_iff.mp hs
  have hinv := act_inv h hr
  have hnone : true ∉ st.reports := fun hrep => by
    rw [(h.reported hrep).1] at heof
    cases heof
  unfold SpscSys.act at hr
  dsimp only at hr
  split at hr
  · next hidle =>
    split at hr
    · cases hr
      have hfilled := h.filled
      rw [hidle] at hfilled
      rw [append_nil] at hinv
      refine ⟨⟨?_, ?_, h.latched, fun he => ?_, fun hrep => absurd hrep hnone, h.stays⟩, rfl, heof,
        ?_⟩
      · unfold ArbiterStream.after
        dsimp only
        rw [append_nil]
        exact hinv
      · unfold ArbiterStream.after
        dsimp only
        rw [hfilled, append_nil]
        exact congrArg (· ++ [e]) (append_nil _)
      · cases heof.symm.trans he
      · unfold Room ArbiterStream.after at *
        dsimp only at *
        rwa [append_nil]
    · cases hr
  · cases hr

theorem StreamInv.act_produce (h : StreamInv st) (heof : st.eof = false) (hroom : Room st)
    (hs : st.act .produce = some st') :
    StreamInv st' ∧ st'.eof = false ∧ (st'.producing = true → Room st') := by
  unfold ArbiterStream.act at hs
  obtain ⟨r, hr, rfl⟩ := Option.map_eq_some_iff.mp hs
  have hinv := act_inv h hr
  have hfilled := h.filled
  have hnone : true ∉ st.reports := fun hrep => by
    rw [(h.reported hrep).1] at heof
    cases heof
  -- the fields of the stream that the ring's step leaves
  have hrest : st.filled = pushedOf (st.log ++ r.2) ++ pendingOf r.1.producer →
      StreamInv (st.after r) := fun hf =>
    ⟨hinv, hf, h.latched, fun he => (by cases heof.symm.trans he), fun hrep => absurd hrep hnone,
      h.stays⟩
  have hkeep : r.2 = [] → r.1.ring.capacity = st.sys.ring.capacity → Room (st.after r) := by
    intro hobs hcap
    unfold Room ArbiterStream.after at *
    dsimp only
    rw [hobs, hcap, append_nil]
    exact hroom
  unfold SpscSys.act SpscSys.produce at hr
  cases hp : st.sys.producer with
  | idle =>
    rw [hp] at hr
    cases hr
  | loaded element head =>
    have hprod := h.spsc.producer
    rw [hp] at hr hprod hfilled
    obtain ⟨rfl, -⟩ := hprod
    have hnotfull : ¬st.sys.ring.next st.sys.ring.head = st.sys.ring.tail :=
      of_decide_eq_false (h.full_iff.mpr hroom)
    dsimp only at hr
    rw [if_neg hnotfull] at hr
    cases hr
    refine ⟨hrest ?_, heof, fun _ => hkeep rfl rfl⟩
    rw [append_nil]
    exact hfilled
  | copying element head k =>
    rw [hp] at hr hfilled
    dsimp only at hr
    split at hr
    · cases hr
      refine ⟨hrest ?_, heof, fun _ => hkeep rfl rfl⟩
      rw [append_nil]
      exact hfilled
    · cases hr
      refine ⟨hrest ?_, heof, nofun⟩
      rw [pushedOf_append, hfilled]
      exact (append_nil _).symm

end Stream

/-! ## The tick -/

/-- Nobody pushes. -/
def Still (slots : Fin 4 → Option ArbiterStream) : Prop :=
  ∀ h st, slots h = some st → st.sys.producer = .idle

/-- The stream of a slot is neither ended nor full. -/
def Open (s : Arbiter) (h : Fin 4) : Prop := ∃ st, s.slots h = some st ∧ st.eof = false ∧ Room st

/-- What the tick has found out. -/
def PlaceInv (s : Arbiter) : TickPlace → Prop
  | .idle => Still s.slots
  | .visit _ _ => Still s.slots
  | .full start i => i < 4 ∧ Still s.slots ∧
      ∃ st, s.slots (Arbiter.slotAt start i) = some st ∧ st.eof = false
  | .fill start i => i < 4 ∧ Still s.slots ∧ Open s (Arbiter.slotAt start i)
  | .atEof _ i => i < 4 ∧ Still s.slots
  | .latch _ i => i < 4 ∧ Still s.slots
  | .push start i => i < 4 ∧ Open s (Arbiter.slotAt start i) ∧
      ∀ h st, h ≠ Arbiter.slotAt start i → s.slots h = some st → st.sys.producer = .idle

/-- A stream that waited has had its offer, or it is its turn yet. -/
def Serves (s : Arbiter) (start : BitVec 32) (i : Nat) : Prop :=
  ∀ h, s.waiting h = true → s.offered h = true ∨
    ∃ k, i ≤ k ∧ k < 4 ∧ Arbiter.slotAt start k = h ∧ Open s h

def ServeInv (s : Arbiter) : TickPlace → Prop
  | .idle => ∀ h, s.waiting h = true → s.offered h = true
  | .visit start i => Serves s start i
  | .full start i => Serves s start i
  | .fill start i => Serves s start i
  | .atEof start i => Serves s start (i + 1)
  | .latch start i => Serves s start (i + 1)
  | .push start i => Serves s start (i + 1)

structure ArbiterInv (s : Arbiter) : Prop where
  streams : ∀ h st, s.slots h = some st → StreamInv st
  place : PlaceInv s s.place
  serve : ServeInv s s.place

section Tick

variable {s s' : Arbiter} {start : BitVec 32} {i : Nat}

/-- The counter's wrap does not disturb the rotation: 4 divides `2 ^ 32`. -/
theorem slotAt_val (start : BitVec 32) (i : Nat) :
    (Arbiter.slotAt start i).val = (start.toNat + i) % 4 := by
  unfold Arbiter.slotAt streamArbiterMax
  dsimp only
  rw [BitVec.toNat_add, BitVec.toNat_ofNat]
  omega

theorem slotAt_inj {k : Nat} (hi : i < 4) (hk : k < 4)
    (h : Arbiter.slotAt start i = Arbiter.slotAt start k) : i = k := by
  have hv := congrArg Fin.val h
  rw [slotAt_val, slotAt_val] at hv
  omega

theorem slotAt_surj (start : BitVec 32) (h : Fin 4) : ∃ k, k < 4 ∧ Arbiter.slotAt start k = h := by
  refine ⟨(h.val + 4 - start.toNat % 4) % 4, Nat.mod_lt _ (by decide), Fin.ext ?_⟩
  rw [slotAt_val]
  have := h.isLt
  omega

theorem setSlot_self (s : Arbiter) (h : Fin 4) (st : ArbiterStream) :
    (s.setSlot h st).slots h = some st := update_self ..

theorem setSlot_ne (s : Arbiter) {h h' : Fin 4} (st : ArbiterStream) (hne : h' ≠ h) :
    (s.setSlot h st).slots h' = s.slots h' := update_of_ne hne ..

theorem forall_setSlot {P : Fin 4 → ArbiterStream → Prop} {h : Fin 4} {st : ArbiterStream}
    (hall : ∀ h' st', h' ≠ h → s.slots h' = some st' → P h' st') (hnew : P h st) :
    ∀ h' st', (s.setSlot h st).slots h' = some st' → P h' st' := by
  intro h' st' hs
  by_cases he : h' = h
  · subst he
    rw [setSlot_self] at hs
    exact Option.some.inj hs ▸ hnew
  · rw [setSlot_ne s st he] at hs
    exact hall h' st' he hs

theorem wants_iff (hall : ∀ h st, s.slots h = some st → StreamInv st) (h : Fin 4) :
    s.wants h = true ↔ Open s h := by
  unfold Arbiter.wants Open
  cases hs : s.slots h with
  | none => simp
  | some st =>
    have hfull := (hall h st hs).full_iff
    simp [← hfull]

theorem Open.setSlot_ne {h h' : Fin 4} {st : ArbiterStream} (ho : Open s h') (hne : h' ≠ h) :
    Open (s.setSlot h st) h' := by
  obtain ⟨st', hs, hrest⟩ := ho
  exact ⟨st', (Io.setSlot_ne s st hne).trans hs, hrest⟩

theorem Serves.next (h : Serves s start i)
    (hdone : Open s (Arbiter.slotAt start i) → s.offered (Arbiter.slotAt start i) = true) :
    Serves s start (i + 1) := by
  intro h' hw
  rcases h h' hw with ho | ⟨k, hik, hk, rfl, ho⟩
  · exact .inl ho
  · rcases Nat.eq_or_lt_of_le hik with rfl | hlt
    · exact .inl (hdone ho)
    · exact .inr ⟨k, hlt, hk, rfl, ho⟩

theorem Serves.setSlot (h : Serves s start (i + 1)) (hi : i < 4) (st : ArbiterStream) :
    Serves (s.setSlot (Arbiter.slotAt start i) st) start (i + 1) := by
  intro h' hw
  rcases h h' hw with ho | ⟨k, hik, hk, rfl, ho⟩
  · exact .inl ho
  · refine .inr ⟨k, hik, hk, rfl, ho.setSlot_ne fun e => ?_⟩
    have := slotAt_inj hk hi e
    omega

theorem Serves.mono (h : Serves s start i) (hw : s'.waiting = s.waiting)
    (ho : s'.offered = s.offered) (hopen : ∀ h, Open s h → Open s' h) : Serves s' start i := by
  intro h' hw'
  rw [hw] at hw'
  rw [ho]
  exact (h h' hw').imp_right fun ⟨k, hik, hk, he, ho⟩ => ⟨k, hik, hk, he, hopen h' ho⟩

theorem ArbiterInv.look (inv : ArbiterInv s) (hs : s.look = some s') : ArbiterInv s' := by
  obtain ⟨hall, hplace, hserve⟩ := inv
  unfold Arbiter.look at hs
  cases hp : s.place with
  | idle | fill start i | atEof start i =>
    rw [hp] at hs
    cases hs
  | visit start i =>
    rw [hp] at hs hplace hserve
    dsimp only at hs
    split at hs
    · next hge =>
      cases hs
      refine ⟨hall, hplace, fun h hw => ?_⟩
      rcases hserve h hw with ho | ⟨k, hik, hk, -⟩
      · exact ho
      · unfold streamArbiterMax at hge
        omega
    · next hlt =>
      have hi : i < 4 := Nat.lt_of_not_le hlt
      cases hst : s.slots (Arbiter.slotAt start i) with
      | none =>
        rw [hst] at hs
        cases hs
        refine ⟨hall, hplace, hserve.next fun ⟨st, hopen, _⟩ => ?_⟩
        rw [hst] at hopen
        cases hopen
      | some st =>
        rw [hst] at hs
        cases hs
        cases heof : st.eof with
        | true =>
          refine ⟨hall, hplace, hserve.next fun ⟨st', hopen, hno, _⟩ => ?_⟩
          rw [hst, Option.some.injEq] at hopen
          rw [← hopen, heof] at hno
          cases hno
        | false => exact ⟨hall, ⟨hi, hplace, st, hst, heof⟩, hserve⟩
  | full start i =>
    rw [hp] at hs hplace hserve
    obtain ⟨hi, hstill, st, hst, heof⟩ := hplace
    simp only [hst, Option.map_some, Option.some.injEq] at hs
    subst hs
    have hfull := (hall _ st hst).full_iff
    cases hf : st.full with
    | true =>
      refine ⟨hall, hstill, hserve.next fun ⟨st', hopen, _, hroom⟩ => ?_⟩
      rw [hst, Option.some.injEq] at hopen
      rw [← hopen, ← hfull, hf] at hroom
      cases hroom
    | false => exact ⟨hall, ⟨hi, hstill, st, hst, heof, hfull.mp hf⟩, hserve⟩
  | latch start i =>
    rw [hp] at hs hplace hserve
    obtain ⟨hi, hstill⟩ := hplace
    obtain ⟨st, hst, rfl⟩ := Option.map_eq_some_iff.mp hs
    have hinv := hall _ st hst
    have hidle := hstill _ st hst
    refine ⟨forall_setSlot (fun h' st' _ => hall h' st') ?_,
      forall_setSlot (fun h' st' _ => hstill h' st') hidle, hserve.setSlot hi _⟩
    exact ⟨hinv.spsc, hinv.filled, fun _ => rfl, fun _ => hidle,
      fun hrep => ⟨rfl, (hinv.reported hrep).2⟩, hinv.stays⟩
  | push start i =>
    rw [hp] at hs hplace hserve
    obtain ⟨hi, ⟨st, hst, heof, hroom⟩, hstill⟩ := hplace
    dsimp only at hs
    rw [hst, Option.bind_some] at hs
    obtain ⟨st', hact, rfl⟩ := Option.map_eq_some_iff.mp hs
    obtain ⟨hinv, heof', hroom'⟩ := (hall _ st hst).act_produce heof hroom hact
    have hall' : ∀ h st'', (s.setSlot (Arbiter.slotAt start i) st').slots h = some st'' →
        StreamInv st'' := forall_setSlot (fun h' st'' _ => hall h' st'') hinv
    have hserve' : Serves (s.setSlot (Arbiter.slotAt start i) st') start (i + 1) :=
      Serves.setSlot hserve hi st'
    cases hpr : st'.producing with
    | true =>
      refine ⟨hall', ⟨hi, ⟨st', setSlot_self .., heof', hroom' hpr⟩, fun h' st'' hne hs' => ?_⟩,
        hserve'⟩
      rw [if_pos rfl] at hs'
      exact hstill h' st'' hne ((Io.setSlot_ne s st' hne).symm.trans hs')
    | false =>
      refine ⟨hall', forall_setSlot hstill ?_, hserve'⟩
      unfold ArbiterStream.producing at hpr
      split at hpr
      · assumption
      · cases hpr

theorem ArbiterInv.fillDone (inv : ArbiterInv s) {element : Option (List Byte)}
    (hs : s.fillDone element = some s') : ArbiterInv s' := by
  obtain ⟨hall, hplace, hserve⟩ := inv
  unfold Arbiter.fillDone at hs
  cases hp : s.place with
  | fill start i =>
    rw [hp] at hs hplace hserve
    obtain ⟨hi, hstill, st, hst, heof, hroom⟩ := hplace
    -- the offer is made, whatever comes of it
    have hserve' : Serves { s with
        offered := update s.offered (Arbiter.slotAt start i) true } start (i + 1) := by
      intro h' hw
      by_cases he : h' = Arbiter.slotAt start i
      · subst he
        exact .inl (update_self ..)
      · rcases hserve h' hw with ho | ⟨k, hik, hk, rfl, ho⟩
        · exact .inl ((update_of_ne he ..).trans ho)
        · rcases Nat.eq_or_lt_of_le hik with rfl | hlt
          · exact absurd rfl he
          · exact .inr ⟨k, hlt, hk, rfl, ho⟩
    cases element with
    | none =>
      cases hs
      exact ⟨hall, ⟨hi, hstill⟩, hserve'⟩
    | some e =>
      dsimp only at hs
      rw [hst, Option.bind_some] at hs
      obtain ⟨st', hact, rfl⟩ := Option.map_eq_some_iff.mp hs
      obtain ⟨hinv, hpr, heof', hroom'⟩ := (hall _ st hst).begin_push heof hroom hact
      refine ⟨forall_setSlot (fun h' st'' _ => hall h' st'') hinv,
        ⟨hi, ⟨_, setSlot_self .., heof', hroom'⟩, fun h' st'' hne hs' => ?_⟩,
        Serves.setSlot hserve' hi _⟩
      exact hstill h' st'' ((Io.setSlot_ne _ _ hne).symm.trans hs')
  | _ =>
    rw [hp] at hs
    cases hs

theorem ArbiterInv.consumed (inv : ArbiterInv s) {h : Fin 4} {st st' : ArbiterStream}
    (hst : s.slots h = some st) (hc : Consumed st st') : ArbiterInv (s.setSlot h st') := by
  obtain ⟨hall, hplace, hserve⟩ := inv
  have hopen : ∀ h', Open s h' → Open (s.setSlot h st') h' := by
    intro h' ho
    by_cases he : h' = h
    · subst he
      obtain ⟨st'', hs, heof, hroom⟩ := ho
      rw [hst, Option.some.injEq] at hs
      subst hs
      exact ⟨st', setSlot_self .., hc.eof.trans heof, hc.room hroom⟩
    · exact ho.setSlot_ne he
  have hidle : ∀ (Q : Fin 4 → Prop), (∀ h' st'', Q h' → s.slots h' = some st'' →
      st''.sys.producer = .idle) → ∀ h' st'', Q h' → (s.setSlot h st').slots h' = some st'' →
        st''.sys.producer = .idle := by
    intro Q hQ h' st'' hq hs
    by_cases he : h' = h
    · subst he
      rw [setSlot_self, Option.some.injEq] at hs
      rw [← hs, hc.producer]
      exact hQ h' st hq hst
    · exact hQ h' st'' hq ((Io.setSlot_ne s st' he).symm.trans hs)
  have hstill : Still s.slots → Still (s.setSlot h st').slots := fun hs h' st'' =>
    hidle (fun _ => True) (fun h' st'' _ => hs h' st'') h' st'' trivial
  refine ⟨forall_setSlot (fun h' st'' _ => hall h' st'') hc.inv, ?_, ?_⟩
  · have hsame : (s.setSlot h st').place = s.place := rfl
    rw [hsame]
    cases hp : s.place with
    | idle | visit start i =>
      rw [hp] at hplace
      exact hstill hplace
    | full start i =>
      rw [hp] at hplace
      obtain ⟨hi, hs, st'', hst'', heof⟩ := hplace
      refine ⟨hi, hstill hs, ?_⟩
      by_cases he : Arbiter.slotAt start i = h
      · rw [he, hst, Option.some.injEq] at hst''
        rw [he]
        exact ⟨st', setSlot_self .., hc.eof.trans (hst'' ▸ heof)⟩
      · exact ⟨st'', (Io.setSlot_ne s st' he).trans hst'', heof⟩
    | fill start i =>
      rw [hp] at hplace
      exact ⟨hplace.1, hstill hplace.2.1, hopen _ hplace.2.2⟩
    | atEof start i | latch start i =>
      rw [hp] at hplace
      exact ⟨hplace.1, hstill hplace.2⟩
    | push start i =>
      rw [hp] at hplace
      exact ⟨hplace.1, hopen _ hplace.2.1, fun h' st'' hne hs =>
        hidle (· ≠ Arbiter.slotAt start i) hplace.2.2 h' st'' hne hs⟩
  · have hsame : (s.setSlot h st').place = s.place := rfl
    rw [hsame]
    cases hp : s.place with
    | idle =>
      rw [hp] at hserve
      exact hserve
    | _ =>
      rw [hp] at hserve
      exact Serves.mono hserve rfl rfl hopen

theorem init_arbiter : ArbiterInv .init := ⟨nofun, nofun, nofun⟩

theorem ArbiterInv.step (inv : ArbiterInv s) {e : ArbiterEvent} (hs : s.step e = some s') :
    ArbiterInv s' := by
  cases e with
  | register slotBytes depth storage mem =>
    rw [Arbiter.step] at hs
    obtain ⟨hidle, ⟨⟩⟩ := enabled hs
    have hplace := inv.place
    have hserve := inv.serve
    rw [hidle] at hplace hserve
    unfold Arbiter.register
    split
    · split
      · next h ring hslot hring =>
        refine ⟨forall_setSlot (fun h' st _ => inv.streams h' st) (init_stream hring), ?_, ?_⟩
        · have hsame : ∀ st, (s.setSlot h st).place = .idle := fun _ => hidle
          rw [hsame]
          exact forall_setSlot (fun h' st _ => hplace h' st) rfl
        · have hsame : ∀ st, (s.setSlot h st).place = .idle := fun _ => hidle
          rw [hsame]
          exact hserve
      · exact inv
    · exact inv
  | unregister h =>
    rw [Arbiter.step] at hs
    obtain ⟨hidle, ⟨⟩⟩ := enabled hs
    have hplace := inv.place
    have hserve := inv.serve
    rw [hidle.1] at hplace hserve
    have hsub : ∀ h' st, update s.slots h none h' = some st → s.slots h' = some st := by
      intro h' st hst
      by_cases he : h' = h
      · subst he
        rw [update_self] at hst
        cases hst
      · rwa [update_of_ne he] at hst
    refine ⟨fun h' st hst => inv.streams h' st (hsub h' st hst), ?_, ?_⟩
    · dsimp only
      rw [hidle.1]
      exact fun h' st hst => hplace h' st (hsub h' st hst)
    · dsimp only
      rw [hidle.1]
      exact hserve
  | tick =>
    rw [Arbiter.step] at hs
    obtain ⟨hidle, ⟨⟩⟩ := enabled hs
    have hplace := inv.place
    rw [hidle] at hplace
    refine ⟨inv.streams, hplace, fun h hw => .inr ?_⟩
    obtain ⟨k, hk, hslot⟩ := slotAt_surj s.rotation h
    exact ⟨k, Nat.zero_le k, hk, hslot, (wants_iff inv.streams h).mp hw⟩
  | look => exact inv.look hs
  | filled element => exact inv.fillDone hs
  | asked ended =>
    rw [Arbiter.step] at hs
    cases hp : s.place with
    | atEof start i =>
      have hplace := inv.place
      have hserve := inv.serve
      rw [hp] at hs hplace hserve
      cases hs
      cases ended with
      | true => exact ⟨inv.streams, hplace, hserve⟩
      | false => exact ⟨inv.streams, hplace.2, hserve⟩
    | _ =>
      rw [hp] at hs
      cases hs
  | consume h =>
    rw [Arbiter.step] at hs
    obtain ⟨st, hst, hs⟩ := Option.bind_eq_some_iff.mp hs
    obtain ⟨-, hs⟩ := enabled hs
    obtain ⟨st', hact, rfl⟩ := Option.map_eq_some_iff.mp hs
    exact inv.consumed hst ((inv.streams h st hst).act_consumer (.inl rfl) hact)
  | isEof h =>
    rw [Arbiter.step] at hs
    obtain ⟨st, hst, hs⟩ := Option.bind_eq_some_iff.mp hs
    obtain ⟨-, ⟨⟩⟩ := enabled hs
    exact inv.consumed hst (inv.streams h st hst).isEof
  | consumer h =>
    rw [Arbiter.step] at hs
    obtain ⟨st, hst, hs⟩ := Option.bind_eq_some_iff.mp hs
    obtain ⟨st', hcons, rfl⟩ := Option.map_eq_some_iff.mp hs
    exact inv.consumed hst ((inv.streams h st hst).consumer hcons)

end Tick

/-! ## Runs -/

/-- What the consumers and the producers rely on. -/
structure ArbiterSafe (s : Arbiter) : Prop where
  /-- A consumer has got the elements its producer filled, in order; the others are in the ring or
  on their way there. -/
  order : ∀ h st, s.slots h = some st →
    st.filled = poppedOf st.log ++ outstanding st.log ++ pendingOf st.sys.producer
  /-- No outstanding element is written over, and a pop reads the oldest. -/
  ring : ∀ h st, s.slots h = some st → SpscSafe st.sys st.log
  /-- The end is reported when everything filled is consumed, -/
  ended : ∀ h st, s.slots h = some st → true ∈ st.reports → st.filled = poppedOf st.log
  /-- and from then on. -/
  stays : ∀ h st, s.slots h = some st → st.reports.Pairwise fun a b => a = true → b = true
  /-- When a tick is over, every stream that was neither full nor ended has been offered a fill. -/
  served : s.place = .idle → ∀ h, s.waiting h = true → s.offered h = true

theorem ArbiterInv.safe {s : Arbiter} (inv : ArbiterInv s) : ArbiterSafe s := by
  have horder : ∀ h st, s.slots h = some st →
      st.filled = poppedOf st.log ++ outstanding st.log ++ pendingOf st.sys.producer := by
    intro h st hst
    have hinv := inv.streams h st hst
    unfold outstanding
    rw [hinv.filled]
    refine congrArg (· ++ _) ?_
    have hpop := hinv.spsc.popped
    calc pushedOf st.log
        = (pushedOf st.log).take (poppedOf st.log).length ++
            (pushedOf st.log).drop (poppedOf st.log).length := (take_append_drop ..).symm
      _ = poppedOf st.log ++ (pushedOf st.log).drop (poppedOf st.log).length := by rw [← hpop]
  refine ⟨horder, fun h st hst => (inv.streams h st hst).spsc.safe, fun h st hst hrep => ?_,
    fun h st hst => (inv.streams h st hst).stays, fun hidle => ?_⟩
  · obtain ⟨heof, hout⟩ := (inv.streams h st hst).reported hrep
    rw [horder h st hst, hout, (inv.streams h st hst).ended heof, append_nil]
    exact append_nil _
  · have hserve := inv.serve
    rwa [hidle] at hserve

/-- In every interleaving of ticks and consumers, whatever the producers fill. -/
theorem run_arbiter {es : List ArbiterEvent} {s : Arbiter}
    (hrun : run Arbiter.step .init es = some s) : ArbiterSafe s :=
  (run_invariant (fun _ _ _ h _ hs => ArbiterInv.step h hs) init_arbiter
    (.of_forall (fun _ _ => trivial) _ _) hrun).safe

/-- One element of one byte, then the end. -/
def oneElement : List ArbiterEvent :=
  [.register 1 2 (fun _ => 0) true, .tick, .look, .look, .filled (some [7]), .look, .look,
    .isEof 0, .look, .look, .look, .look, .look,
    .tick, .look, .look, .look, .look, .look, .look,
    .consume 0, .consumer 0, .consumer 0, .consumer 0,
    .tick, .look, .look, .look, .look, .filled none, .asked true, .look, .look, .look,
    .isEof 0, .consumer 0]

theorem run_arbiter_one : ∃ s, run Arbiter.step .init oneElement = some s ∧
    (s.slots 0).map (fun st => (poppedOf st.log, st.reports)) = some ([[7]], [false, true]) ∧
      ArbiterSafe s := by
  have hend : (run Arbiter.step .init oneElement).map (fun s =>
      (s.slots 0).map fun st => (poppedOf st.log, st.reports)) =
        some (some ([[7]], [false, true])) := by
    decide
  obtain ⟨s, hrun, hgot⟩ := Option.map_eq_some_iff.mp hend
  exact ⟨s, hrun, hgot, run_arbiter hrun⟩

end Microgarbage.Io
