import Microgarbage.Lib.Ring
import Microgarbage.Lib.Transition

/-!
# The ring-backed audio stream

`audio_ring_stream_push`, `audio_ring_stream_set_eof` and `audio_ring_stream_read` cut at their
accesses to shared memory: each load or store of an index, each load or store of the end mark and
each frame copied is one step, and the steps of the producer and the reader interleave in any order.
-/

namespace Microgarbage.Audio

open Lib

variable {φ : Type*}

abbrev audioRingStreamFrames : Nat := 32768

structure AudioRingStream (φ : Type*) where
  buf : Nat → φ
  /-- Frames written and read; both wrap at 32 bits. -/
  w : BitVec 32
  r : BitVec 32
  eof : Bool
  underruns : BitVec 32

/-- `audio_ring_stream_reset`. -/
def AudioRingStream.reset (s : AudioRingStream φ) : AudioRingStream φ :=
  { s with w := 0, r := 0, underruns := 0, eof := false }

/-- Where the frame `i` behind a cursor lies. -/
def AudioRingStream.slot (cursor : BitVec 32) (i : Nat) : Nat :=
  ((cursor + BitVec.ofNat 32 i) &&& (BitVec.ofNat 32 audioRingStreamFrames - 1)).toNat

/-! ## The two sides -/

/-- Where the producer is in `audio_ring_stream_push`. -/
inductive RingPush (φ : Type*)
  | idle
  /-- `w` is loaded. -/
  | loaded (frames : List φ) (w : BitVec 32)
  /-- `r` is loaded and the frames are cut to the room; `k` of them are copied. -/
  | copying (frames : List φ) (w : BitVec 32) (k : Nat)

/-- Where the reader is in `audio_ring_stream_read`. -/
inductive RingRead (φ : Type*)
  | idle
  /-- `r` is loaded. -/
  | loaded (requested : Nat) (r : BitVec 32)
  /-- `w` is loaded; `out` is what is copied of the `take` frames. -/
  | copying (requested take : Nat) (r : BitVec 32) (out : List φ)
  /-- `r` is stored after fewer frames than requested. -/
  | short (requested take : Nat)

/-- What a read returns: all frames, some frames and silence, or the end of the stream. -/
inductive ReadReply
  | full (frames : Nat)
  | padded (frames silence : Nat)
  | ended (frames : Nat)
  deriving DecidableEq

structure StreamSys (φ : Type*) where
  stream : AudioRingStream φ
  producer : RingPush φ
  reader : RingRead φ
  /-- The frames that pushes have accepted, in order. -/
  pushed : List φ
  /-- The frames that reads have delivered, in order. -/
  delivered : List φ
  /-- Frames were pushed since the reader loaded `w`. -/
  overtaken : Bool

inductive StreamEvent (φ : Type*)
  /-- Enter `audio_ring_stream_push` and load `w`. -/
  | push (frames : List φ)
  | produce
  | setEof
  /-- Enter `audio_ring_stream_read` and load `r`. -/
  | read (requested : Nat)
  | consume

namespace StreamSys

/-- A stream that was reset, over any buffer. -/
def init (s : AudioRingStream φ) : StreamSys φ := ⟨s.reset, .idle, .idle, [], [], false⟩

variable (s : StreamSys φ)

def produce : Option (StreamSys φ) :=
  match s.producer with
  | .idle => none
  | .loaded frames w =>
    let room := BitVec.ofNat 32 audioRingStreamFrames - (w - s.stream.r)
    some { s with producer := .copying (frames.take room.toNat) w 0 }
  | .copying frames w k =>
    if h : k < frames.length then
      let buf := Function.update s.stream.buf (AudioRingStream.slot w k) frames[k]
      some { s with
        stream := { s.stream with buf := buf }
        producer := .copying frames w (k + 1) }
    else
      some { s with
        stream := { s.stream with w := w + BitVec.ofNat 32 frames.length }
        producer := .idle
        pushed := s.pushed ++ frames
        overtaken := s.overtaken || !frames.isEmpty }

def consume : Option (StreamSys φ × Option ReadReply) :=
  match s.reader with
  | .idle => none
  | .loaded requested r =>
    let avail := (s.stream.w - r).toNat
    let take := if avail < requested then avail else requested
    some ({ s with reader := .copying requested take r [], overtaken := false }, none)
  | .copying requested take r out =>
    if out.length < take then
      let frame := s.stream.buf (AudioRingStream.slot r out.length)
      some ({ s with reader := .copying requested take r (out ++ [frame]) }, none)
    else
      let s := { s with
        stream := { s.stream with r := r + BitVec.ofNat 32 take }
        delivered := s.delivered ++ out }
      if take < requested then some ({ s with reader := .short requested take }, none)
      else some ({ s with reader := .idle }, some (.full take))
  | .short requested take =>
    if s.stream.eof then some ({ s with reader := .idle }, some (.ended take))
    else
      let stream := { s.stream with underruns := s.stream.underruns + 1 }
      some ({ s with stream := stream, reader := .idle }, some (.padded take (requested - take)))

/-- One step, and what a read returns in it. Without frames neither call does anything. -/
def act : StreamEvent φ → Option (StreamSys φ × Option ReadReply)
  | .push frames =>
    match s.producer with
    | .idle =>
      if frames.isEmpty then some (s, none)
      else some ({ s with producer := .loaded frames s.stream.w }, none)
    | _ => none
  | .produce => s.produce.map fun s => (s, none)
  | .setEof =>
    match s.producer with
    | .idle => some ({ s with stream := { s.stream with eof := true } }, none)
    | _ => none
  | .read requested =>
    match s.reader with
    | .idle =>
      if requested = 0 then some (s, some (.full 0))
      else some ({ s with reader := .loaded requested s.stream.r }, none)
    | _ => none
  | .consume => s.consume

def step (e : StreamEvent φ) : Option (StreamSys φ) := (s.act e).map Prod.fst

def reply (e : StreamEvent φ) : Option ReadReply := (s.act e).bind Prod.snd

/-! ## What the reader may rely on -/

/-- The frames come in order, each once; silence is for an empty ring; the end is reported behind the
mark and the last frame. -/
structure Faithful (s : StreamSys φ) (e : StreamEvent φ) : Prop where
  order : s.delivered <+: s.pushed
  padded : ∀ frames silence, s.reply e = some (.padded frames silence) →
    s.stream.r = s.stream.w ∧ s.delivered = s.pushed
  ended : ∀ frames, s.reply e = some (.ended frames) →
    s.stream.eof = true ∧ s.delivered = s.pushed

/-- No push completes between the loads of `w` and of the end mark in a read that finds too few
frames. -/
def EndOk : StreamEvent φ → Prop
  | .consume => (∃ requested take, s.reader = .short requested take) → s.overtaken = false
  | _ => True

end StreamSys

/-! ## The invariant -/

/-- The ring holds `pushed`, of which the first `taken` frames are delivered. -/
structure StreamRing (s : AudioRingStream φ) (pushed : List φ) (taken : Nat) : Prop where
  w : s.w = BitVec.ofNat 32 pushed.length
  r : s.r = BitVec.ofNat 32 taken
  taken_le : taken ≤ pushed.length
  room : pushed.length ≤ taken + audioRingStreamFrames
  stored : ∀ n frame, taken ≤ n → pushed[n]? = some frame →
    s.buf (n % audioRingStreamFrames) = frame

/-- What the producer knows. -/
def PushInv (s : AudioRingStream φ) (pushed : List φ) (taken : Nat) : RingPush φ → Prop
  | .idle => True
  | .loaded _ w => w = s.w
  | .copying frames w k => w = s.w ∧ k ≤ frames.length ∧
      pushed.length + frames.length ≤ taken + audioRingStreamFrames ∧
      ∀ i < k, ∀ frame, frames[i]? = some frame →
        s.buf ((pushed.length + i) % audioRingStreamFrames) = frame

/-- What the reader knows; `overtaken` tells whether the ring holds more than it saw. -/
def ReadInv (s : AudioRingStream φ) (pushed : List φ) (taken : Nat) (overtaken : Bool) :
    RingRead φ → Prop
  | .idle => True
  | .loaded _ r => r = s.r
  | .copying requested take r out => r = s.r ∧ out.length ≤ take ∧ take ≤ requested ∧
      taken + take ≤ pushed.length ∧ out = (pushed.drop taken).take out.length ∧
      (take < requested → (overtaken = false ↔ pushed.length = taken + take))
  | .short requested take => take < requested ∧ (overtaken = false ↔ pushed.length = taken)

structure StreamInv (s : StreamSys φ) : Prop where
  ring : StreamRing s.stream s.pushed s.delivered.length
  delivered : s.delivered = s.pushed.take s.delivered.length
  producer : PushInv s.stream s.pushed s.delivered.length s.producer
  reader : ReadInv s.stream s.pushed s.delivered.length s.overtaken s.reader

/-! ## The cursors -/

theorem slot_ofNat (n i : Nat) :
    AudioRingStream.slot (BitVec.ofNat 32 n) i = (n + i) % audioRingStreamFrames := by
  have hmask : BitVec.ofNat 32 audioRingStreamFrames - 1 = BitVec.ofNat 32 (2 ^ 15 - 1) := rfl
  have hmod : (2 ^ 15 - 1) % 2 ^ 32 = 2 ^ 15 - 1 := rfl
  unfold AudioRingStream.slot
  rw [← BitVec.ofNat_add, hmask, BitVec.toNat_and, BitVec.toNat_ofNat, BitVec.toNat_ofNat, hmod,
    Nat.and_two_pow_sub_one_eq_mod]
  exact Nat.mod_mod_of_dvd _ (by decide)

/-- The difference of two cursors is that of the counts, also across a wrap. -/
theorem toNat_cursor_sub {n m : Nat} (hle : m ≤ n) (hroom : n ≤ m + audioRingStreamFrames) :
    (BitVec.ofNat 32 n - BitVec.ofNat 32 m).toNat = n - m := by
  have hsize : audioRingStreamFrames = 32768 := rfl
  rw [BitVec.toNat_sub, BitVec.toNat_ofNat, BitVec.toNat_ofNat]
  omega

section Ring

variable {s : AudioRingStream φ} {pushed : List φ} {taken : Nat}

theorem StreamRing.avail (h : StreamRing s pushed taken) :
    (s.w - s.r).toNat = pushed.length - taken := by
  rw [h.w, h.r]
  exact toNat_cursor_sub h.taken_le h.room

theorem StreamRing.empty_iff (h : StreamRing s pushed taken) : s.r = s.w ↔ taken = pushed.length := by
  have hle := h.taken_le
  have havail := h.avail
  constructor
  · intro he
    rw [he, BitVec.sub_self, BitVec.toNat_zero] at havail
    omega
  · intro he
    rw [h.w, h.r, he]

theorem StreamRing.free (h : StreamRing s pushed taken) :
    (BitVec.ofNat 32 audioRingStreamFrames - (s.w - s.r)).toNat =
      taken + audioRingStreamFrames - pushed.length := by
  have hle := h.taken_le
  have hroom := h.room
  have hsize : audioRingStreamFrames = 32768 := rfl
  rw [BitVec.toNat_sub, h.avail, BitVec.toNat_ofNat]
  omega

/-- A frame copied behind the last one is in no slot that is still to be read. -/
theorem StreamRing.copyFrame (h : StreamRing s pushed taken) {k : Nat} (frame : φ)
    (hk : pushed.length + k < taken + audioRingStreamFrames) :
    StreamRing { s with buf := Function.update s.buf (AudioRingStream.slot s.w k) frame } pushed
      taken := by
  refine { h with stored := fun n old hn he => ?_ }
  have hlt : n < pushed.length := (List.getElem?_eq_some_iff.mp he).1
  rw [h.w, slot_ofNat]
  refine (Function.update_of_ne ?_ _ _).trans (h.stored n old hn he)
  exact slot_ne (by omega) (by omega)

theorem StreamRing.publish (h : StreamRing s pushed taken) {frames : List φ}
    (hroom : pushed.length + frames.length ≤ taken + audioRingStreamFrames)
    (hcopied : ∀ i frame, frames[i]? = some frame →
      s.buf ((pushed.length + i) % audioRingStreamFrames) = frame) :
    StreamRing { s with w := s.w + BitVec.ofNat 32 frames.length } (pushed ++ frames) taken := by
  have hle := h.taken_le
  have hlen : (pushed ++ frames).length = pushed.length + frames.length := List.length_append
  refine ⟨?_, h.r, ?_, ?_, fun n frame hn he => ?_⟩
  · rw [hlen, BitVec.ofNat_add, ← h.w]
  · rw [hlen]
    omega
  · rw [hlen]
    exact hroom
  · rw [List.getElem?_append] at he
    split at he
    · exact h.stored n frame hn he
    · have hsum : pushed.length + (n - pushed.length) = n := by omega
      have hbuf := hcopied _ frame he
      rw [hsum] at hbuf
      exact hbuf

theorem StreamRing.release (h : StreamRing s pushed taken) {take : Nat}
    (htake : taken + take ≤ pushed.length) :
    StreamRing { s with r := s.r + BitVec.ofNat 32 take } pushed (taken + take) := by
  have hroom := h.room
  refine ⟨h.w, ?_, htake, ?_, fun n frame hn he => ?_⟩
  · rw [BitVec.ofNat_add, ← h.r]
  · omega
  · exact h.stored n frame (by omega) he

end Ring

theorem PushInv.release {s : AudioRingStream φ} {pushed : List φ} {taken : Nat} {p : RingPush φ}
    (r : BitVec 32) (take : Nat) (h : PushInv s pushed taken p) :
    PushInv { s with r := r } pushed (taken + take) p := by
  cases p with
  | idle => exact trivial
  | loaded frames w => exact h
  | copying frames w k =>
    obtain ⟨hw, hk, hroom, hcopied⟩ := h
    exact ⟨hw, hk, by omega, hcopied⟩

/-- The reader's knowledge survives a push, which overtakes it if it has frames. -/
theorem ReadInv.publish {s : AudioRingStream φ} {pushed : List φ} {taken : Nat} {overtaken : Bool}
    {p : RingRead φ} (w : BitVec 32) (frames : List φ) (hle : taken ≤ pushed.length)
    (h : ReadInv s pushed taken overtaken p) :
    ReadInv { s with w := w } (pushed ++ frames) taken (overtaken || !frames.isEmpty) p := by
  have hlen : (pushed ++ frames).length = pushed.length + frames.length := List.length_append
  have hmore : ∀ m, m ≤ pushed.length → (overtaken = false ↔ pushed.length = m) →
      ((overtaken || !frames.isEmpty) = false ↔ (pushed ++ frames).length = m) := by
    intro m hm hiff
    rw [hlen, Bool.or_eq_false_iff, hiff, Bool.not_eq_false', List.isEmpty_iff_length_eq_zero]
    omega
  cases p with
  | idle => exact trivial
  | loaded requested r => exact h
  | copying requested take r out =>
    obtain ⟨hr, hout, htake, hin, heq, hover⟩ := h
    refine ⟨hr, hout, htake, ?_, ?_, fun hlt => hmore _ hin (hover hlt)⟩
    · rw [hlen]
      omega
    · rw [List.drop_append_of_le_length hle, List.take_append_of_le_length]
      · exact heq
      · rw [List.length_drop]
        omega
  | short requested take =>
    obtain ⟨hlt, hover⟩ := h
    exact ⟨hlt, hmore _ hle hover⟩

/-! ## One step -/

namespace StreamInv

variable {s s' : StreamSys φ}

theorem produce (h : StreamInv s) (hs : s.produce = some s') : StreamInv s' := by
  obtain ⟨hring, hdel, hprod, hread⟩ := h
  unfold StreamSys.produce at hs
  cases hp : s.producer with
  | idle =>
    rw [hp] at hs
    cases hs
  | loaded frames w =>
    rw [hp] at hs hprod
    obtain rfl := hprod
    cases hs
    refine ⟨hring, hdel, ⟨rfl, Nat.zero_le _, ?_, fun i hi => absurd hi (Nat.not_lt_zero i)⟩, hread⟩
    have hfree := hring.free
    have hroom := hring.room
    dsimp only
    rw [List.length_take, hfree]
    omega
  | copying frames w k =>
    rw [hp] at hs hprod
    obtain ⟨rfl, hk, hroom, hcopied⟩ := hprod
    dsimp only at hs
    split at hs
    · next hlt =>
      cases hs
      refine ⟨hring.copyFrame _ (by omega), hdel, ⟨rfl, hlt, hroom, fun i hi frame he => ?_⟩, ?_⟩
      · dsimp only
        rw [hring.w, slot_ofNat]
        by_cases hik : i = k
        · subst hik
          rw [List.getElem?_eq_getElem hlt, Option.some.injEq] at he
          rw [Function.update_self]
          exact he
        · have hne : (s.pushed.length + i) % audioRingStreamFrames ≠
              (s.pushed.length + k) % audioRingStreamFrames :=
            slot_ne (by omega) (by have := hring.taken_le; omega)
          rw [Function.update_of_ne hne]
          exact hcopied i (by omega) frame he
      · -- the reader's copy is of slots that are outstanding
        cases hr : s.reader <;> rw [hr] at hread <;> exact hread
    · next hge =>
      cases hs
      have hall : k = frames.length := by omega
      refine ⟨hring.publish hroom fun i frame he => ?_, ?_, trivial, hread.publish _ _ hring.taken_le⟩
      · exact hcopied i (hall ▸ (List.getElem?_eq_some_iff.mp he).1) frame he
      · dsimp only
        rw [List.take_append_of_le_length hring.taken_le]
        exact hdel

theorem consume (h : StreamInv s) {o : Option ReadReply} (hs : s.consume = some (s', o)) :
    StreamInv s' := by
  obtain ⟨hring, hdel, hprod, hread⟩ := h
  unfold StreamSys.consume at hs
  cases hr : s.reader with
  | idle =>
    rw [hr] at hs
    cases hs
  | loaded requested r =>
    rw [hr] at hs hread
    obtain rfl := hread
    cases hs
    have havail := hring.avail
    have hle := hring.taken_le
    refine ⟨hring, hdel, hprod, rfl, Nat.zero_le _, ?_, ?_, rfl, fun hlt => ?_⟩
    · split <;> omega
    · dsimp only
      split <;> omega
    · refine iff_of_true rfl ?_
      dsimp only
      split at hlt
      · rw [if_pos (by assumption)]
        omega
      · omega
  | copying requested take r out =>
    rw [hr] at hs hread
    obtain ⟨rfl, hout, htake, hin, heq, hover⟩ := hread
    dsimp only at hs
    split at hs
    · next hlt =>
      cases hs
      refine ⟨hring, hdel, hprod, rfl, ?_, htake, hin, ?_, hover⟩
      · rw [List.length_append]
        exact hlt
      · have hnext : s.pushed[s.delivered.length + out.length]? =
            some (s.stream.buf (AudioRingStream.slot s.stream.r out.length)) := by
          have hbound : s.delivered.length + out.length < s.pushed.length := by omega
          have hbuf := hring.stored _ _ (Nat.le_add_right ..) (List.getElem?_eq_getElem hbound)
          rw [hring.r, slot_ofNat, hbuf]
          exact List.getElem?_eq_getElem hbound
        rw [List.length_append, List.length_singleton, List.take_add_one, ← heq, List.getElem?_drop,
          hnext]
        rfl
    · next hge =>
      have hall : out.length = take := by omega
      have hlen : (s.delivered ++ out).length = s.delivered.length + take := by
        rw [List.length_append, hall]
      have hdel' : s.delivered ++ out = s.pushed.take (s.delivered ++ out).length := by
        rw [hlen, List.take_add, ← hdel, ← hall, ← heq]
      have hring' : StreamRing { s.stream with r := s.stream.r + BitVec.ofNat 32 take } s.pushed
          (s.delivered ++ out).length := by
        rw [hlen]
        exact hring.release hin
      have hprod' : PushInv { s.stream with r := s.stream.r + BitVec.ofNat 32 take } s.pushed
          (s.delivered ++ out).length s.producer := by
        rw [hlen]
        exact hprod.release _ _
      split at hs
      · next hlt =>
        cases hs
        refine ⟨hring', hdel', hprod', hlt, ?_⟩
        rw [hover hlt]
        dsimp only
        rw [hlen]
      · cases hs
        exact ⟨hring', hdel', hprod', trivial⟩
  | short requested take =>
    rw [hr] at hs
    dsimp only at hs
    split at hs
    · cases hs
      exact ⟨hring, hdel, hprod, trivial⟩
    · cases hs
      refine ⟨{ hring with }, hdel, ?_, trivial⟩
      cases hp : s.producer <;> rw [hp] at hprod <;> exact hprod

theorem step (h : StreamInv s) {e : StreamEvent φ} (hs : s.step e = some s') : StreamInv s' := by
  unfold StreamSys.step at hs
  obtain ⟨⟨s₁, o⟩, ha, rfl⟩ := Option.map_eq_some_iff.mp hs
  cases e with
  | push frames =>
    unfold StreamSys.act at ha
    dsimp only at ha
    split at ha
    · split at ha
      · cases ha
        exact h
      · cases ha
        exact { h with producer := rfl }
    · cases ha
  | produce =>
    obtain ⟨s₂, hs₂, heq⟩ := Option.map_eq_some_iff.mp ha
    cases heq
    exact h.produce hs₂
  | setEof =>
    unfold StreamSys.act at ha
    dsimp only at ha
    split at ha
    · next hidle =>
      cases ha
      refine ⟨⟨h.ring.w, h.ring.r, h.ring.taken_le, h.ring.room, h.ring.stored⟩, h.delivered, ?_, ?_⟩
      · dsimp only
        rw [hidle]
        exact trivial
      · have hread := h.reader
        dsimp only
        cases hr : s.reader <;> rw [hr] at hread <;> exact hread
    · cases ha
  | read requested =>
    unfold StreamSys.act at ha
    dsimp only at ha
    split at ha
    · split at ha
      · cases ha
        exact h
      · cases ha
        exact { h with reader := rfl }
    · cases ha
  | consume => exact h.consume ha

theorem init (s : AudioRingStream φ) : StreamInv (StreamSys.init s) :=
  ⟨⟨rfl, rfl, Nat.le_refl _, Nat.zero_le _, fun n frame _ he => by cases he⟩, rfl, trivial, trivial⟩

theorem order (h : StreamInv s) : s.delivered <+: s.pushed := by
  rw [h.delivered]
  exact List.take_prefix ..

/-- What has been delivered is all exactly if nothing overtook the short read. -/
theorem overtaken_iff (h : StreamInv s) {requested take : Nat}
    (hr : s.reader = .short requested take) : s.overtaken = false ↔ s.delivered = s.pushed := by
  have hread := h.reader
  rw [hr] at hread
  rw [hread.2]
  refine ⟨fun hlen => h.order.eq_of_length hlen.symm, fun heq => ?_⟩
  rw [heq]

end StreamInv

/-! ## Every run -/

namespace StreamSys

variable {s : StreamSys φ}

/-- Only the last step of a short read replies with silence or the end. -/
theorem reply_short {e : StreamEvent φ} {o : ReadReply} (ho : s.reply e = some o)
    (hfull : ∀ frames, o ≠ .full frames) :
    e = .consume ∧ ∃ requested take, s.reader = .short requested take ∧
      o = if s.stream.eof then .ended take else .padded take (requested - take) := by
  unfold reply act at ho
  cases e with
  | push frames =>
    dsimp only at ho
    split at ho
    · split at ho <;> cases ho
    · cases ho
  | produce =>
    dsimp only at ho
    cases hp : s.produce <;> rw [hp] at ho <;> cases ho
  | setEof =>
    dsimp only at ho
    split at ho <;> cases ho
  | read requested =>
    dsimp only at ho
    split at ho
    · split at ho
      · cases ho
        exact absurd rfl (hfull 0)
      · cases ho
    · cases ho
  | consume =>
    refine ⟨rfl, ?_⟩
    unfold consume at ho
    cases hr : s.reader with
    | idle | loaded requested r =>
      rw [hr] at ho
      cases ho
    | copying requested take r out =>
      rw [hr] at ho
      dsimp only at ho
      split at ho
      · cases ho
      · split at ho
        · cases ho
        · cases ho
          exact absurd rfl (hfull take)
    | short requested take =>
      rw [hr] at ho
      dsimp only at ho
      refine ⟨requested, take, rfl, ?_⟩
      split at ho
      · cases ho
        rename_i heof
        rw [if_pos heof]
      · cases ho
        rename_i heof
        rw [if_neg heof]

theorem faithful_iff (h : StreamInv s) (e : StreamEvent φ) : s.Faithful e ↔ s.EndOk e := by
  constructor
  · intro hf
    cases e with
    | consume =>
      rintro ⟨requested, take, hr⟩
      rw [h.overtaken_iff hr]
      have hreply : s.reply .consume =
          some (if s.stream.eof then .ended take else .padded take (requested - take)) := by
        unfold reply act consume
        rw [hr]
        dsimp only
        split <;> rfl
      cases heof : s.stream.eof with
      | true =>
        rw [heof, if_pos rfl] at hreply
        exact (hf.ended take hreply).2
      | false =>
        rw [heof, if_neg Bool.false_ne_true] at hreply
        exact (hf.padded take _ hreply).2
    | _ => exact trivial
  · intro hok
    refine ⟨h.order, fun frames silence ho => ?_, fun frames ho => ?_⟩
    · obtain ⟨rfl, requested, take, hr, -⟩ := reply_short ho (fun frames hf => by cases hf)
      have hall := (h.overtaken_iff hr).mp (hok ⟨requested, take, hr⟩)
      refine ⟨h.ring.empty_iff.mpr ?_, hall⟩
      rw [hall]
    · obtain ⟨rfl, requested, take, hr, ho'⟩ := reply_short ho (fun frames hf => by cases hf)
      refine ⟨?_, (h.overtaken_iff hr).mp (hok ⟨requested, take, hr⟩)⟩
      by_contra heof
      rw [if_neg heof] at ho'
      cases ho'

/-- The reader gets what was pushed, silence and the end as promised, exactly along the runs where
no push completes between the two loads of a short read. -/
theorem run_faithful_iff (s : AudioRingStream φ) (es : List (StreamEvent φ)) :
    Meets step Faithful (init s) es ↔ Meets step EndOk (init s) es := by
  constructor
  · exact Meets.of_invariant (fun s e s' hs _ he => StreamInv.step hs he)
      (fun s e hs hf => (faithful_iff hs e).mp hf) (.init s)
  · exact Meets.of_invariant (fun s e s' hs _ he => StreamInv.step hs he)
      (fun s e hs hok => (faithful_iff hs e).mpr hok) (.init s)

/-! ## A lost tail -/

/-- A read finds the ring empty; before it looks at the end mark, the last frame is pushed and the
mark is set. -/
def tailRun : List (StreamEvent Nat) :=
  [.read 2, .consume, .consume, .push [7], .produce, .produce, .produce, .setEof]

/-- The read reports the end, and the last frame stays in the ring. -/
theorem tail_lost : ∃ s, run step (init ⟨fun _ => 0, 0, 0, false, 0⟩) tailRun = some s ∧
    s.reply .consume = some (.ended 0) ∧ s.pushed = [7] ∧ s.delivered = [] ∧
      ¬ s.Faithful .consume := by
  have hend : (run step (init ⟨fun _ => 0, 0, 0, false, 0⟩) tailRun).map
      (fun s => (s.reply .consume, s.pushed, s.delivered)) = some (some (.ended 0), [7], []) := by
    decide +kernel
  obtain ⟨s, hrun, hs⟩ := Option.map_eq_some_iff.mp hend
  simp only [Prod.mk.injEq] at hs
  obtain ⟨hreply, hpushed, hdelivered⟩ := hs
  refine ⟨s, hrun, hreply, hpushed, hdelivered, fun hf => ?_⟩
  have hall := (hf.ended 0 hreply).2
  rw [hpushed, hdelivered] at hall
  cases hall

end StreamSys

end Microgarbage.Audio
