import Microgarbage.Audio.MusicPlayer
import Microgarbage.Lib.Transition

/-!
# The song and what the player pushes

The song is the intro followed by the loop, over and over. The player keeps its place in a segment
in three variables: the frames left of the head, the frames of the stream it has pushed, and the
frames that wait in the streaming buffer. `InSegment` says that they agree; an update keeps it
unless it refills the buffer when part of the head has been pushed already.
-/

namespace Microgarbage.Audio

open Lib List

variable {φ : Type*}

/-! ## The song -/

section Song

variable (src : Int → List φ) (cfg : MusicPlayerConfig φ)

/-- The frames of a segment, `src` being the frames of each stream. -/
def segmentFrames (seg : CurrentSegment) : List φ :=
  if currentSegmentStreamId cfg seg = musicStreamNone then []
  else src (currentSegmentStreamId cfg seg)

/-- The intro and so many rounds of the loop. -/
def song (rounds : Nat) : List φ :=
  segmentFrames src cfg .intro ++ (List.replicate rounds (segmentFrames src cfg .loop)).flatten

/-- What was played when a segment was entered. -/
inductive PlayedBefore : CurrentSegment → List φ → Prop
  | intro (h : cfg.introStreamId ≠ musicStreamNone) : PlayedBefore .intro []
  | loop (h : cfg.loopStreamId ≠ musicStreamNone) (rounds : Nat) :
    PlayedBefore .loop (song src cfg rounds)

/-- The callback provides the frames of the streams, in pieces of any length; it provides none only
at the end of a stream. -/
def Serves (fn : MusicStreamFn φ) : Prop :=
  ∀ id requested offset, fn id requested offset <+: ((src id).drop offset).take requested ∧
    (fn id requested offset = [] → requested = 0 ∨ (src id).length ≤ offset)

/-- The heads of the configured segments hold the first frames of their streams. -/
def Primed : Prop :=
  ∀ seg buf, currentPinnedBuffer cfg seg = some buf →
    currentSegmentStreamId cfg seg ≠ musicStreamNone →
      slice buf 0 (currentPinnedSize cfg seg) <+: segmentFrames src cfg seg

variable {src cfg}

theorem song_succ (rounds : Nat) :
    song src cfg (rounds + 1) = song src cfg rounds ++ segmentFrames src cfg .loop := by
  unfold song
  rw [replicate_succ', flatten_append, flatten_singleton, append_assoc]

theorem song_zero : song src cfg 0 = segmentFrames src cfg .intro := by
  simp [song]

theorem PlayedBefore.streamId {seg : CurrentSegment} {before : List φ}
    (h : PlayedBefore src cfg seg before) : currentSegmentStreamId cfg seg ≠ musicStreamNone := by
  cases h <;> assumption

theorem PlayedBefore.with_segment {seg : CurrentSegment} {before : List φ}
    (h : PlayedBefore src cfg seg before) :
    ∃ rounds, before ++ segmentFrames src cfg seg = song src cfg rounds := by
  cases h with
  | intro h => exact ⟨0, song_zero.symm⟩
  | loop h rounds => exact ⟨rounds + 1, (song_succ rounds).symm⟩

end Song

/-! ## The place in a segment -/

variable (c : MixerChannel φ)

@[simp] theorem mixerWriteChannel_pushed (samples : List φ) :
    (mixerWriteChannel c samples).pushed = c.pushed ++ samples := by
  unfold mixerWriteChannel
  induction samples generalizing c with
  | nil => simp
  | cons frame samples ih => simp [ih, rbPush]

/-- The frames of the segment fetched so far, the head aside. -/
def MusicPlayer.fetched (mp : MusicPlayer φ) : Nat := mp.segmentOffset + mp.streamingCount

/-- The head of the current segment. -/
abbrev MusicPlayer.head (mp : MusicPlayer φ) : Nat := headFrames mp.cfg mp.segment

structure InSegment (src : Int → List φ) (mp : MusicPlayer φ) : Prop where
  pinned_le : mp.pinnedRemaining ≤ mp.head
  offset_eq : 0 < mp.pinnedRemaining → mp.segmentOffset = 0
  room : mp.streamingReadPos + mp.streamingCount ≤ mp.cfg.streamingBufferSamples
  /-- The frames that wait are the ones after the pushed ones. -/
  buffered : mp.streaming <+:
    (segmentFrames src mp.cfg mp.segment).drop (mp.head + mp.segmentOffset)
  /-- The pushed ones are the segments before and the start of this one. -/
  pushed : ∃ before, PlayedBefore src mp.cfg mp.segment before ∧ mp.channel.pushed = before ++
    (segmentFrames src mp.cfg mp.segment).take (mp.head - mp.pinnedRemaining + mp.segmentOffset)

/-- The player is still in the same segment. -/
structure SameSegment (mp mp' : MusicPlayer φ) : Prop where
  cfg : mp'.cfg = mp.cfg
  segment : mp'.segment = mp.segment
  state : mp'.state = mp.state

theorem SameSegment.trans {mp mp' mp'' : MusicPlayer φ} (h : SameSegment mp mp')
    (h' : SameSegment mp' mp'') : SameSegment mp mp'' :=
  ⟨h'.cfg.trans h.cfg, h'.segment.trans h.segment, h'.state.trans h.state⟩

theorem SameSegment.head {mp mp' : MusicPlayer φ} (h : SameSegment mp mp') : mp'.head = mp.head := by
  unfold MusicPlayer.head
  rw [h.cfg, h.segment]

@[simp] theorem length_streaming (mp : MusicPlayer φ) : mp.streaming.length = mp.streamingCount :=
  length_slice ..

variable {src : Int → List φ} {mp : MusicPlayer φ}

theorem InSegment.streamId (h : InSegment src mp) :
    currentSegmentStreamId mp.cfg mp.segment ≠ musicStreamNone := by
  obtain ⟨before, hbefore, -⟩ := h.pushed
  exact hbefore.streamId

theorem InSegment.frames (h : InSegment src mp) :
    segmentFrames src mp.cfg mp.segment = src (currentSegmentStreamId mp.cfg mp.segment) :=
  if_neg h.streamId

/-! ### Refill -/

theorem compact_streaming (mp : MusicPlayer φ) :
    (compactStreamingBuffer mp).streaming = mp.streaming := by
  unfold MusicPlayer.streaming compactStreamingBuffer
  dsimp only
  split
  · exact slice_shift ..
  · rename_i h
    rcases Nat.eq_zero_or_pos mp.streamingReadPos with hr | hr
    · rw [hr]
    · have hc : mp.streamingCount = 0 := by
        by_contra hc
        exact h ⟨hr, Nat.pos_of_ne_zero hc⟩
      rw [hc, slice_zero, slice_zero]

theorem refill_streaming {fn : MusicStreamFn φ} {got : List φ}
    (hroom : mp.cfg.streamingBufferSamples - mp.streamingCount ≠ 0)
    (hid : currentSegmentStreamId mp.cfg mp.segment ≠ musicStreamNone)
    (hgot : fn (currentSegmentStreamId mp.cfg mp.segment)
      (mp.cfg.streamingBufferSamples - mp.streamingCount)
      (mp.segmentOffset + mp.pinnedRemaining + mp.streamingCount) = got) :
    (refillStreamingBuffer mp fn).streaming = mp.streaming ++ got ∧
      (refillStreamingBuffer mp fn).streamingCount = mp.streamingCount + got.length := by
  have hcond : ¬ ((compactStreamingBuffer mp).cfg.streamingBufferSamples -
      (compactStreamingBuffer mp).streamingCount = 0 ∨
      currentSegmentStreamId (compactStreamingBuffer mp).cfg (compactStreamingBuffer mp).segment =
        musicStreamNone) := fun h => h.elim hroom hid
  unfold refillStreamingBuffer
  dsimp only
  rw [if_neg hcond]
  refine ⟨?_, congrArg (mp.streamingCount + List.length ·) hgot⟩
  rw [← compact_streaming mp]
  unfold MusicPlayer.streaming
  dsimp only
  rw [slice_add]
  congr 1
  · exact slice_splice_below (Nat.le_of_eq (Nat.zero_add _))
  · rw [show (compactStreamingBuffer mp).streamingReadPos + (compactStreamingBuffer mp).streamingCount
      = (compactStreamingBuffer mp).streamingCount from Nat.zero_add _, slice_splice]
    exact hgot

theorem refill_same (mp : MusicPlayer φ) (fn : MusicStreamFn φ) :
    SameSegment mp (refillStreamingBuffer mp fn) ∧
      (refillStreamingBuffer mp fn).segmentOffset = mp.segmentOffset ∧
      (refillStreamingBuffer mp fn).pinnedRemaining = mp.pinnedRemaining ∧
      (refillStreamingBuffer mp fn).streamingReadPos = 0 ∧
      (refillStreamingBuffer mp fn).channel = mp.channel := by
  unfold refillStreamingBuffer
  dsimp only
  split <;> exact ⟨⟨rfl, rfl, rfl⟩, rfl, rfl, rfl, rfl⟩

theorem refill_grows (mp : MusicPlayer φ) (fn : MusicStreamFn φ) :
    mp.streamingCount ≤ (refillStreamingBuffer mp fn).streamingCount := by
  unfold refillStreamingBuffer
  dsimp only
  split
  · exact Nat.le_refl _
  · exact Nat.le_add_right ..

/-- A refill before any frame of the head is pushed goes on where the last one ended. -/
theorem refill_spec {fn : MusicStreamFn φ} (h : InSegment src mp) (hfn : Serves src fn)
    (hhead : mp.pinnedRemaining = mp.head)
    (hroom : mp.streamingCount < mp.cfg.streamingBufferSamples) :
    InSegment src (refillStreamingBuffer mp fn) ∧
      ((refillStreamingBuffer mp fn).streamingCount = mp.streamingCount →
        (segmentFrames src mp.cfg mp.segment).length ≤ mp.head + mp.fetched) := by
  obtain ⟨hsame, hoff, hpin, hpos, hchan⟩ := refill_same mp fn
  obtain ⟨got, hgot⟩ : ∃ got, fn (currentSegmentStreamId mp.cfg mp.segment)
      (mp.cfg.streamingBufferSamples - mp.streamingCount)
      (mp.segmentOffset + mp.pinnedRemaining + mp.streamingCount) = got := ⟨_, rfl⟩
  obtain ⟨hstream, hcount⟩ := refill_streaming (by omega) h.streamId hgot
  obtain ⟨hpre, hend⟩ := hfn (currentSegmentStreamId mp.cfg mp.segment)
      (mp.cfg.streamingBufferSamples - mp.streamingCount)
      (mp.segmentOffset + mp.pinnedRemaining + mp.streamingCount)
  rw [hgot] at hpre hend
  have hlen : got.length ≤ mp.cfg.streamingBufferSamples - mp.streamingCount :=
    Nat.le_trans hpre.length_le (length_take_le ..)
  -- the callback's offset is the right one
  have hat : mp.segmentOffset + mp.pinnedRemaining + mp.streamingCount =
      mp.head + mp.segmentOffset + mp.streamingCount := by omega
  refine ⟨⟨?_, ?_, ?_, ?_, ?_⟩, fun hzero => ?_⟩
  · rw [hpin, hsame.head]
    exact h.pinned_le
  · rw [hpin, hoff]
    exact h.offset_eq
  · rw [hpos, hcount, hsame.cfg]
    omega
  · rw [hstream, hsame.head, hsame.cfg, hsame.segment, hoff]
    refine prefix_append h.buffered ?_
    rw [length_streaming, drop_drop, ← hat, h.frames]
    exact hpre.trans ( take_prefix ..)
  · obtain ⟨before, hbefore, hpushed⟩ := h.pushed
    refine ⟨before, hsame.cfg ▸ hsame.segment ▸ hbefore, ?_⟩
    rw [hchan, hpushed, hsame.head, hsame.cfg, hsame.segment, hpin, hoff]
  · have hnil : got = [] := eq_nil_of_length_eq_zero (by omega)
    rcases hend hnil with h0 | hle
    · omega
    · rw [h.frames]
      unfold MusicPlayer.fetched
      omega

/-! ### Pump -/

/-- A pump moves frames to the mixer; what was fetched stays fetched. -/
structure Pumped (mp mp' : MusicPlayer φ) : Prop extends SameSegment mp mp' where
  fetched : mp'.fetched = mp.fetched

theorem Pumped.trans {mp mp' mp'' : MusicPlayer φ} (h : Pumped mp mp') (h' : Pumped mp' mp'') :
    Pumped mp mp'' :=
  ⟨h.toSameSegment.trans h'.toSameSegment, h'.fetched.trans h.fetched⟩

theorem pushPinned_spec {head : Nat → φ} {take : Nat} (htake : take ≤ mp.pinnedRemaining)
    (h : InSegment src mp) (hprimed : Primed src mp.cfg)
    (hhead : currentPinnedBuffer mp.cfg mp.segment = some head)
    (hpos : 0 < mp.pinnedRemaining) :
    InSegment src (pushPinned mp head take) ∧ Pumped mp (pushPinned mp head take) := by
  have hsize : mp.head = currentPinnedSize mp.cfg mp.segment := by
    unfold MusicPlayer.head headFrames
    rw [hhead]
    rfl
  have hle := h.pinned_le
  have hoff := h.offset_eq hpos
  refine ⟨⟨?_, fun _ => hoff, h.room, h.buffered, ?_⟩, ⟨⟨rfl, rfl, rfl⟩, rfl⟩⟩
  · exact Nat.le_trans (Nat.sub_le ..) hle
  · obtain ⟨before, hbefore, hpushed⟩ := h.pushed
    refine ⟨before, hbefore, (mixerWriteChannel_pushed ..).trans ?_⟩
    have hnext := slice_front (m := take) (slice_back (m := mp.head - mp.pinnedRemaining)
      (hprimed mp.segment head hhead h.streamId) (by omega)) (by omega)
    rw [Nat.zero_add] at hnext
    rw [hpushed, hoff, ← hsize, append_assoc, Nat.add_zero, take_append_prefix hnext,
      length_slice]
    have hmoved : mp.head - mp.pinnedRemaining + take = mp.head - (mp.pinnedRemaining - take) := by
      omega
    rw [hmoved]
    exact congrArg (before ++ List.take · _) (congrArg (_ + ·) hoff.symm)

/-- After the head is pumped, either all of it is pushed or no more frames may be. -/
theorem pumpPinned_spec (h : InSegment src mp) (hprimed : Primed src mp.cfg)
    (maxToTransfer : Nat) :
    InSegment src (pumpPinned mp maxToTransfer).1 ∧ Pumped mp (pumpPinned mp maxToTransfer).1 ∧
      ((pumpPinned mp maxToTransfer).1.pinnedRemaining = 0 ∨
        maxToTransfer ≤ (pumpPinned mp maxToTransfer).2) := by
  unfold pumpPinned
  by_cases hpos : 0 < mp.pinnedRemaining
  · rw [if_pos hpos]
    cases hbuf : currentPinnedBuffer mp.cfg mp.segment with
    | none =>
      have hle := h.pinned_le
      unfold MusicPlayer.head headFrames at hle
      rw [hbuf] at hle
      exact absurd hle (Nat.not_le_of_gt hpos)
    | some head =>
      obtain ⟨hin, hpumped⟩ := pushPinned_spec (Nat.min_le_left mp.pinnedRemaining maxToTransfer) h
        hprimed hbuf hpos
      refine ⟨hin, hpumped, ?_⟩
      show mp.pinnedRemaining - min mp.pinnedRemaining maxToTransfer = 0 ∨
        maxToTransfer ≤ min mp.pinnedRemaining maxToTransfer
      omega
  · rw [if_neg hpos]
    exact ⟨h, ⟨⟨rfl, rfl, rfl⟩, rfl⟩, Or.inl (Nat.eq_zero_of_not_pos hpos)⟩

theorem pushStreaming_spec {take : Nat} (htake : take ≤ mp.streamingCount) (h : InSegment src mp)
    (hpin : mp.pinnedRemaining = 0) :
    InSegment src (pushStreaming mp take) ∧ Pumped mp (pushStreaming mp take) := by
  refine ⟨⟨h.pinned_le, ?_, ?_, ?_, ?_⟩, ⟨⟨rfl, rfl, rfl⟩, ?_⟩⟩
  · intro hpos
    exact absurd hpin (Nat.pos_iff_ne_zero.mp hpos)
  · have hroom := h.room
    show mp.streamingReadPos + take + (mp.streamingCount - take) ≤ mp.cfg.streamingBufferSamples
    omega
  · have hrest := slice_back (m := take) h.buffered htake
    rw [drop_drop, Nat.add_assoc] at hrest
    exact hrest
  · obtain ⟨before, hbefore, hpushed⟩ := h.pushed
    refine ⟨before, hbefore, (mixerWriteChannel_pushed ..).trans ?_⟩
    have hfront := slice_front (m := take) h.buffered htake
    rw [hpushed, hpin, Nat.sub_zero, append_assoc, take_append_prefix hfront, length_slice,
      Nat.add_assoc]
    exact congrArg (before ++ List.take · _) (congrArg (· + _) (congrArg (mp.head - ·) hpin.symm))
  · show mp.segmentOffset + take + (mp.streamingCount - take) = mp.segmentOffset + mp.streamingCount
    omega

theorem pumpStreaming_spec {maxToTransfer transferred : Nat} (passes : Nat) (h : InSegment src mp)
    (hpin : mp.pinnedRemaining = 0 ∨ maxToTransfer ≤ transferred) :
    InSegment src (pumpStreaming maxToTransfer passes mp transferred) ∧
      Pumped mp (pumpStreaming maxToTransfer passes mp transferred) := by
  induction passes generalizing mp transferred with
  | zero => exact ⟨h, ⟨⟨rfl, rfl, rfl⟩, rfl⟩⟩
  | succ passes ih =>
    unfold pumpStreaming
    split
    · rename_i hcond
      have hpin0 : mp.pinnedRemaining = 0 := by omega
      obtain ⟨hin, hpumped⟩ := pushStreaming_spec
        (Nat.min_le_left mp.streamingCount (maxToTransfer - transferred)) h hpin0
      obtain ⟨hin', hpumped'⟩ := ih hin (Or.inl hpin0)
      exact ⟨hin', hpumped.trans hpumped'⟩
    · exact ⟨h, ⟨⟨rfl, rfl, rfl⟩, rfl⟩⟩

theorem pumpToMixer_spec (h : InSegment src mp) (hprimed : Primed src mp.cfg)
    (maxToTransfer : Nat) :
    InSegment src (pumpToMixer mp maxToTransfer) ∧ Pumped mp (pumpToMixer mp maxToTransfer) := by
  obtain ⟨hin, hpumped, hpin⟩ := pumpPinned_spec h hprimed maxToTransfer
  obtain ⟨hin', hpumped'⟩ := pumpStreaming_spec _ hin hpin
  exact ⟨hin', hpumped.trans hpumped'⟩

/-! ### Transitions -/

/-- The player stands in a segment, or it has stopped and what it pushed was the start of the
song. -/
def Follows (src : Int → List φ) (mp : MusicPlayer φ) : Prop :=
  InSegment src mp ∨ (mp.state = .stopped ∧ mp.segment = .none ∧
    ∃ rounds, mp.channel.pushed <+: song src mp.cfg rounds)

theorem Follows.pushed (h : Follows src mp) :
    ∃ rounds, mp.channel.pushed <+: song src mp.cfg rounds := by
  rcases h with hin | ⟨-, -, hsong⟩
  · obtain ⟨before, hbefore, hpushed⟩ := hin.pushed
    obtain ⟨rounds, hrounds⟩ := hbefore.with_segment
    refine ⟨rounds, ?_⟩
    rw [hpushed, ← hrounds, prefix_append_right_inj]
    exact take_prefix ..
  · exact hsong

/-- At the start of a segment nothing of it has been pushed and nothing waits. -/
theorem enterSegment_spec {seg : CurrentSegment}
    (h : PlayedBefore src mp.cfg seg mp.channel.pushed) : InSegment src (enterSegment mp seg) := by
  refine ⟨Nat.le_refl _, fun _ => rfl, Nat.zero_le _, nil_prefix, mp.channel.pushed, h, ?_⟩
  have hzero : (enterSegment mp seg).head - (enterSegment mp seg).pinnedRemaining +
      (enterSegment mp seg).segmentOffset = 0 := Nat.sub_self _
  rw [hzero, take_zero, append_nil]
  rfl

theorem transitionPass_spec (lastRefillZero : Bool) (h : InSegment src mp)
    (hend : lastRefillZero = true →
      (segmentFrames src mp.cfg mp.segment).length ≤ mp.head + mp.fetched) :
    Follows src (transitionPass mp lastRefillZero).1 ∧
      (transitionPass mp lastRefillZero).1.cfg = mp.cfg ∧
      ((transitionPass mp lastRefillZero).2 = true →
        InSegment src (transitionPass mp lastRefillZero).1 ∧
        (transitionPass mp lastRefillZero).1.pinnedRemaining =
          (transitionPass mp lastRefillZero).1.head ∧
        (transitionPass mp lastRefillZero).1.streamingCount = 0) := by
  unfold transitionPass
  by_cases hex : segmentExhausted mp lastRefillZero
  · rw [if_pos hex]
    simp only [segmentExhausted, Bool.and_eq_true, beq_iff_eq] at hex
    obtain ⟨⟨hlast, hcount⟩, hpin⟩ := hex
    -- the whole segment has been pushed
    obtain ⟨before, hbefore, hpushed⟩ := h.pushed
    have hall := hend hlast
    unfold MusicPlayer.fetched at hall
    rw [take_of_length_le (by omega)] at hpushed
    obtain ⟨rounds, hrounds⟩ := hbefore.with_segment
    rw [hrounds] at hpushed
    have henter (hloop : mp.cfg.loopStreamId ≠ musicStreamNone) :
        InSegment src (enterSegment mp .loop) :=
      enterSegment_spec (hpushed ▸ .loop hloop rounds)
    by_cases hintro : mp.segment = .intro ∧ mp.cfg.loopStreamId ≠ musicStreamNone
    · rw [if_pos hintro]
      have hin := henter hintro.2
      exact ⟨Or.inl ⟨hin.1, hin.2, hin.3, hin.4, hin.5⟩, rfl,
        fun _ => ⟨⟨hin.1, hin.2, hin.3, hin.4, hin.5⟩, rfl, rfl⟩⟩
    · rw [if_neg hintro]
      by_cases hloop : mp.segment = .loop
      · rw [if_pos hloop]
        have hid := h.streamId
        rw [hloop] at hid
        exact ⟨Or.inl (henter hid), rfl, fun _ => ⟨henter hid, rfl, rfl⟩⟩
      · rw [if_neg hloop]
        exact ⟨Or.inr ⟨rfl, rfl, rounds, hpushed ▸ prefix_rfl⟩, rfl,
          fun hfalse => absurd hfalse Bool.false_ne_true⟩
  · rw [if_neg hex]
    exact ⟨Or.inl h, rfl, fun hfalse => absurd hfalse Bool.false_ne_true⟩

/-! ### Updates -/

/-- A refill, if the player makes one now, comes before any frame of the segment's head has been
pushed. -/
def RefillsInOrder (mp : MusicPlayer φ) : Prop :=
  mp.streamingCount < mp.cfg.streamingBufferSamples / 2 → mp.pinnedRemaining = mp.head

theorem refillPass_spec {fn : MusicStreamFn φ} (h : InSegment src mp) (hfn : Serves src fn)
    (hok : RefillsInOrder mp) :
    InSegment src (refillPass mp fn).1 ∧ SameSegment mp (refillPass mp fn).1 ∧
      ((refillPass mp fn).2 = true → (segmentFrames src mp.cfg mp.segment).length ≤
        mp.head + (refillPass mp fn).1.fetched) := by
  unfold refillPass
  by_cases hlow : mp.streamingCount < mp.cfg.streamingBufferSamples / 2
  · rw [if_pos hlow]
    have hroom : mp.streamingCount < mp.cfg.streamingBufferSamples := by omega
    obtain ⟨hin, hend⟩ := refill_spec h hfn (hok hlow) hroom
    obtain ⟨hsame, hoff, -⟩ := refill_same mp fn
    refine ⟨hin, hsame, fun hzero => ?_⟩
    simp only [Bool.and_eq_true, beq_iff_eq] at hzero
    have hgrown := refill_grows mp fn
    have hcount : (refillStreamingBuffer mp fn).streamingCount = mp.streamingCount := by omega
    have hall := hend hcount
    unfold MusicPlayer.fetched at hall ⊢
    rw [hoff, hcount]
    exact hall
  · rw [if_neg hlow]
    exact ⟨h, ⟨rfl, rfl, rfl⟩, fun hfalse => absurd hfalse Bool.false_ne_true⟩

theorem updatePass_spec {fn : MusicStreamFn φ} (h : InSegment src mp) (hfn : Serves src fn)
    (hprimed : Primed src mp.cfg) (hok : RefillsInOrder mp) (target : Nat) :
    Follows src (updatePass mp fn target).1 ∧ (updatePass mp fn target).1.cfg = mp.cfg ∧
      ((updatePass mp fn target).2 = true →
        InSegment src (updatePass mp fn target).1 ∧ RefillsInOrder (updatePass mp fn target).1) := by
  obtain ⟨hin, hsame, hend⟩ := refillPass_spec h hfn hok
  obtain ⟨hin', hpumped⟩ := pumpToMixer_spec hin (hsame.cfg ▸ hprimed) target
  obtain ⟨hfollows, hcfg, hagain⟩ := transitionPass_spec (refillPass mp fn).2
    hin' fun hlast => by
      rw [hpumped.cfg, hpumped.segment, hpumped.head, hpumped.fetched, hsame.cfg, hsame.segment,
        hsame.head]
      exact hend hlast
  refine ⟨hfollows, hcfg.trans (hpumped.cfg.trans hsame.cfg), fun hgo => ?_⟩
  obtain ⟨hstart, hpin, -⟩ := hagain hgo
  exact ⟨hstart, fun _ => hpin⟩

/-- The update does something: the player plays and its channel has room. -/
def Working (mp : MusicPlayer φ) : Prop :=
  (mp.state = .playingIntro ∨ mp.state = .playingLoop) ∧ transferTarget mp ≠ 0

theorem musicUpdate_spec {fn : MusicStreamFn φ} (h : Follows src mp) (hfn : Serves src fn)
    (hprimed : Primed src mp.cfg) (hok : Working mp → RefillsInOrder mp) :
    Follows src (musicUpdate mp fn) ∧ (musicUpdate mp fn).cfg = mp.cfg := by
  unfold musicUpdate
  by_cases hplay : mp.state = .playingIntro ∨ mp.state = .playingLoop
  · rw [if_pos hplay]
    dsimp only
    by_cases htarget : transferTarget mp = 0
    · rw [if_pos htarget]
      exact ⟨h, rfl⟩
    · rw [if_neg htarget]
      have hin : InSegment src mp := by
        rcases h with hin | ⟨hstop, -⟩
        · exact hin
        · rw [hstop] at hplay
          rcases hplay with hp | hp <;> cases hp
      obtain ⟨hfollows, hcfg, hagain⟩ :=
        updatePass_spec hin hfn hprimed (hok ⟨hplay, htarget⟩) (transferTarget mp)
      split
      · rename_i hgo
        obtain ⟨hin', hok'⟩ := hagain hgo
        obtain ⟨hfollows', hcfg', -⟩ :=
          updatePass_spec hin' hfn (hcfg ▸ hprimed) hok' (transferTarget mp)
        exact ⟨hfollows', hcfg'.trans hcfg⟩
      · exact ⟨hfollows, hcfg⟩
  · rw [if_neg hplay]
    exact ⟨h, rfl⟩

/-! ## Runs -/

inductive PlayerEvent (φ : Type*)
  | update (fn : MusicStreamFn φ)
  /-- The mixer plays up to `n` frames of the channel. -/
  | render (n : Nat)
  | pause
  | resume

def playerStep (mp : MusicPlayer φ) : PlayerEvent φ → MusicPlayer φ
  | .update fn => musicUpdate mp fn
  | .render n => { mp with channel := mixerRender mp.channel n }
  | .pause => musicPause mp
  | .resume => musicResume mp

/-- A player as the application sets it up: created on a fresh channel, both heads primed in full,
and playing. -/
def startPlaying (cfg : MusicPlayerConfig φ) (capacity : Nat) (streamingBuffer : Nat → φ)
    (fnIntro fnLoop : MusicStreamFn φ) : Option (MusicPlayer φ) :=
  match musicCreate cfg ⟨capacity, [], false, []⟩ streamingBuffer with
  | none => none
  | some mp =>
    let (mp, introPrimed) := musicPrimeIntro mp fnIntro
    let (mp, loopPrimed) := musicPrimeLoop mp fnLoop
    if introPrimed && loopPrimed then some (musicPlay mp) else none

/-- What the application and the player's own state owe an event. -/
def EventOk (src : Int → List φ) (mp : MusicPlayer φ) : PlayerEvent φ → Prop
  | .update fn => Serves src fn ∧ (Working mp → RefillsInOrder mp)
  | _ => True

theorem mixerRender_pushed (n : Nat) : (mixerRender c n).pushed = c.pushed := by
  unfold mixerRender
  split <;> rfl

theorem Follows.of_quiet {mp' : MusicPlayer φ} (h : Follows src mp)
    (hpushed : mp'.channel.pushed = mp.channel.pushed)
    (hsame : mp' = { mp with channel := mp'.channel, state := mp'.state })
    (hstate : mp.state = .stopped → mp'.state = .stopped) : Follows src mp' := by
  rw [hsame]
  rcases h with hin | ⟨hstop, hseg, hsong⟩
  · refine Or.inl ⟨hin.1, hin.2, hin.3, hin.4, ?_⟩
    obtain ⟨before, hbefore, hstart⟩ := hin.pushed
    exact ⟨before, hbefore, hpushed.trans hstart⟩
  · exact Or.inr ⟨hstate hstop, hseg, hpushed ▸ hsong⟩

theorem playerStep_spec {e : PlayerEvent φ} (h : Follows src mp) (hprimed : Primed src mp.cfg)
    (hok : EventOk src mp e) :
    Follows src (playerStep mp e) ∧ (playerStep mp e).cfg = mp.cfg := by
  cases e with
  | update fn => exact musicUpdate_spec h hok.1 hprimed hok.2
  | render n => exact ⟨h.of_quiet (mixerRender_pushed ..) rfl id, rfl⟩
  | pause =>
    show Follows src (musicPause mp) ∧ (musicPause mp).cfg = mp.cfg
    unfold musicPause
    split
    · rename_i hplay
      refine ⟨h.of_quiet rfl rfl fun hstop => ?_, rfl⟩
      rw [hstop] at hplay
      rcases hplay with hp | hp <;> cases hp
    · exact ⟨h, rfl⟩
  | resume =>
    show Follows src (musicResume mp) ∧ (musicResume mp).cfg = mp.cfg
    unfold musicResume
    by_cases hpaused : mp.state = .paused
    · rw [if_pos hpaused]
      have hstop : mp.state = .stopped → False := fun hstop => by
        rw [hpaused] at hstop
        cases hstop
      split
      · exact ⟨h.of_quiet rfl rfl (False.elim ∘ hstop), rfl⟩
      · exact ⟨h.of_quiet rfl rfl (False.elim ∘ hstop), rfl⟩
      · exact ⟨h.of_quiet rfl rfl fun _ => rfl, rfl⟩
    · rw [if_neg hpaused]
      exact ⟨h, rfl⟩

theorem primeHead_spec {fn : MusicStreamFn φ} (hfn : Serves src fn) {id : Int}
    {head : Option (Nat → φ)} {n : Nat} {buf : Nat → φ} (hid : id ≠ musicStreamNone)
    (hfull : (primeHead fn id head n).2 = true) (hbuf : (primeHead fn id head n).1 = some buf) :
    slice buf 0 n <+: src id := by
  cases head with
  | none => cases hbuf
  | some start =>
    unfold primeHead at hfull hbuf
    dsimp only at hfull hbuf
    by_cases hskip : n = 0 ∨ id = musicStreamNone
    · obtain rfl := hskip.resolve_right hid
      exact nil_prefix
    · rw [if_neg hskip] at hfull hbuf
      have hlen := of_decide_eq_true hfull
      cases hbuf
      have hread := slice_splice start 0 (fn id n 0)
      rw [hlen] at hread
      rw [hread]
      exact (hfn id n 0).1.trans ( take_prefix ..)

theorem musicPlay_spec (h : mp.state = .stopped) (hpushed : mp.channel.pushed = [])
    (hvalid : mp.cfg.introStreamId ≠ musicStreamNone ∨ mp.cfg.loopStreamId ≠ musicStreamNone) :
    InSegment src (musicPlay mp) ∧ (musicPlay mp).cfg = mp.cfg := by
  have henter {seg : CurrentSegment} (state : MusicState)
      (hseg : PlayedBefore src mp.cfg seg []) :
      InSegment src { enterSegment { mp with
        channel := mixerChannelStart (mixerChannelReset mp.channel) } seg with state := state } := by
    have hin : InSegment src (enterSegment { mp with
        channel := mixerChannelStart (mixerChannelReset mp.channel) } seg) :=
      enterSegment_spec (hpushed.symm ▸ hseg)
    exact ⟨hin.1, hin.2, hin.3, hin.4, hin.5⟩
  unfold musicPlay
  rw [h]
  dsimp only
  by_cases hintro : mp.cfg.introStreamId ≠ musicStreamNone
  · rw [if_pos hintro]
    exact ⟨henter _ (.intro hintro), rfl⟩
  · have hloop := hvalid.resolve_left hintro
    rw [if_neg hintro, if_pos hloop]
    -- without an intro the song starts with the loop
    have hsong : song src mp.cfg 0 = [] := by
      rw [song_zero]
      exact if_pos (not_not.mp hintro)
    exact ⟨henter _ (hsong ▸ .loop hloop 0), rfl⟩

theorem startPlaying_spec {cfg : MusicPlayerConfig φ} {capacity : Nat} {streamingBuffer : Nat → φ}
    {fnIntro fnLoop : MusicStreamFn φ} (hintro : Serves src fnIntro) (hloop : Serves src fnLoop)
    (h : startPlaying cfg capacity streamingBuffer fnIntro fnLoop = some mp) :
    InSegment src mp ∧ Primed src mp.cfg ∧ song src mp.cfg = song src cfg := by
  unfold startPlaying musicCreate at h
  by_cases hvalid : validateConfig cfg = true
  · rw [if_pos hvalid] at h
    simp only [Option.ite_none_right_eq_some, Option.some.injEq, Bool.and_eq_true] at h
    obtain ⟨⟨hfullIntro, hfullLoop⟩, rfl⟩ := h
    have hids : cfg.introStreamId ≠ musicStreamNone ∨ cfg.loopStreamId ≠ musicStreamNone := by
      simp only [validateConfig, Bool.and_eq_true, Bool.not_eq_true', Bool.and_eq_false_iff,
        decide_eq_false_iff_not] at hvalid
      exact hvalid.1.1.1.1.2
    obtain ⟨primed, hprimed⟩ : ∃ primed, (musicPrimeLoop (musicPrimeIntro
      ⟨cfg, ⟨capacity, [], false, []⟩, streamingBuffer, .stopped, .none, 0, 0, 0, 0⟩ fnIntro).1
        fnLoop).1 = primed := ⟨_, rfl⟩
    rw [hprimed]
    obtain ⟨hin, hcfg⟩ : InSegment src (musicPlay primed) ∧ (musicPlay primed).cfg = primed.cfg := by
      cases hprimed
      exact musicPlay_spec rfl rfl hids
    rw [hcfg]
    cases hprimed
    refine ⟨hin, ?_, rfl⟩
    intro seg buf hbuf hid
    rw [segmentFrames, if_neg hid]
    cases seg with
    | intro => exact primeHead_spec hintro hid hfullIntro hbuf
    | loop => exact primeHead_spec hloop hid hfullLoop hbuf
    | none => cases hbuf
  · rw [if_neg hvalid] at h
    cases h

/-- Whatever the segments, the heads, the answers of the callback and the state of the channel at
each update, the frames pushed so far are the start of the song, in a run that never refills the
streaming buffer after a part of a head. -/
theorem run_plays_song {cfg : MusicPlayerConfig φ} {capacity : Nat} {streamingBuffer : Nat → φ}
    {fnIntro fnLoop : MusicStreamFn φ} {mp₀ mp : MusicPlayer φ} {es : List (PlayerEvent φ)}
    (hintro : Serves src fnIntro) (hloop : Serves src fnLoop)
    (hstart : startPlaying cfg capacity streamingBuffer fnIntro fnLoop = some mp₀)
    (hok : Meets (fun mp e => some (playerStep mp e)) (EventOk src) mp₀ es)
    (hrun : run (fun mp e => some (playerStep mp e)) mp₀ es = some mp) :
    ∃ rounds, mp.channel.pushed <+: song src cfg rounds := by
  obtain ⟨hin, hprimed, hsong⟩ := startPlaying_spec hintro hloop hstart
  have hstep : ∀ mp e mp', (Follows src mp ∧ mp.cfg = mp₀.cfg) → EventOk src mp e →
      some (playerStep mp e) = some mp' → Follows src mp' ∧ mp'.cfg = mp₀.cfg := by
    rintro mp e mp' ⟨hfollows, hcfg⟩ he hnext
    cases hnext
    obtain ⟨hfollows', hsame⟩ := playerStep_spec hfollows (hcfg ▸ hprimed) he
    exact ⟨hfollows', hsame.trans hcfg⟩
  obtain ⟨hfollows, hcfg⟩ := run_invariant hstep ⟨Or.inl hin, rfl⟩ hok hrun
  obtain ⟨rounds, hpre⟩ := hfollows.pushed
  rw [hcfg, hsong] at hpre
  exact ⟨rounds, hpre⟩

/-! ### A song of six and three frames -/

/-- Stream 0 is the intro, stream 1 the loop. -/
def demoSource : Int → List Nat
  | 0 => [0, 1, 2, 3, 4, 5]
  | 1 => [10, 11, 12]
  | _ => []

/-- A callback that provides all it is asked for. -/
def serveAll (src : Int → List φ) : MusicStreamFn φ := fun id requested offset =>
  ((src id).drop offset).take requested

theorem serveAll_serves (src : Int → List φ) : Serves src (serveAll src) := by
  refine fun id requested offset => ⟨prefix_rfl, fun h => ?_⟩
  rcases take_eq_nil_iff.mp h with h | h
  · exact Or.inl h
  · exact Or.inr (drop_eq_nil_iff.mp h)

/-- A streaming buffer of four frames and heads of `n` frames. -/
def demoConfig (n : Nat) : MusicPlayerConfig Nat where
  introStreamId := 0
  loopStreamId := 1
  streamingBufferSamples := 4
  maxChannelFillSamples := 0
  introHeadBuffer := if n = 0 then none else some fun _ => 0
  introHeadSamples := n
  loopHeadBuffer := if n = 0 then none else some fun _ => 0
  loopHeadSamples := n

/-- Updates with a mixer that plays all it has in between. -/
def demoEvents (n : Nat) : List (PlayerEvent Nat) :=
  (List.replicate n [.update (serveAll demoSource), .render 8]).flatten

/-- An intro without a head, and a loop with one. -/
def loopHeadConfig : MusicPlayerConfig Nat :=
  { demoConfig 2 with introHeadBuffer := none, introHeadSamples := 0 }

theorem run_plays_song_through : ∃ mp₀ mp : MusicPlayer Nat,
    startPlaying loopHeadConfig 8 (fun _ => 0) (serveAll demoSource) (serveAll demoSource) =
      some mp₀ ∧
    run (fun mp e => some (playerStep mp e)) mp₀ (demoEvents 3) = some mp ∧
    mp.channel.pushed = [0, 1, 2, 3, 4, 5, 10, 11, 12] ∧
    ∃ rounds, mp.channel.pushed <+: song demoSource loopHeadConfig rounds := by
  have hserve := serveAll_serves demoSource
  obtain ⟨mp₀, hstart⟩ : ∃ mp₀, startPlaying loopHeadConfig 8 (fun _ => 0) (serveAll demoSource)
    (serveAll demoSource) = some mp₀ := ⟨_, rfl⟩
  refine ⟨mp₀, _, hstart, run_total .., ?_,
    run_plays_song hserve hserve hstart ?_ (run_total playerStep mp₀ (demoEvents 3))⟩
  · cases hstart
    decide +kernel
  · refine .cons ⟨hserve, ?_⟩ rfl (.cons trivial rfl (.cons ⟨hserve, ?_⟩ rfl (.cons trivial rfl
      (.cons ⟨hserve, ?_⟩ rfl (.cons trivial rfl trivial)))))
    all_goals
      cases hstart
      unfold Working RefillsInOrder
      decide +kernel

/-- With heads of two frames the fifth and sixth frames of the intro are pushed twice. -/
theorem run_repeats_frames : ∃ mp₀ mp : MusicPlayer Nat,
    startPlaying (demoConfig 2) 8 (fun _ => 0) (serveAll demoSource) (serveAll demoSource) =
      some mp₀ ∧ Serves demoSource (serveAll demoSource) ∧
    run (fun mp e => some (playerStep mp e)) mp₀ (demoEvents 4) = some mp ∧
    mp.channel.pushed = [0, 1, 2, 3, 4, 5, 4, 5, 10, 11, 12] ∧
    ¬ ∃ rounds, mp.channel.pushed <+: song demoSource (demoConfig 2) rounds := by
  have hpushed : (startPlaying (demoConfig 2) 8 (fun _ => 0) (serveAll demoSource)
      (serveAll demoSource)).map (fun mp => ((demoEvents 4).foldl playerStep mp).channel.pushed) =
        some [0, 1, 2, 3, 4, 5, 4, 5, 10, 11, 12] := by decide +kernel
  obtain ⟨mp₀, hstart, hframes⟩ := Option.map_eq_some_iff.mp hpushed
  refine ⟨mp₀, _, hstart, serveAll_serves demoSource, run_total .., hframes, ?_⟩
  rintro ⟨rounds, hpre⟩
  rw [hframes] at hpre
  cases rounds with
  | zero => exact absurd hpre (by decide +kernel)
  | succ rounds =>
    have hsong : song demoSource (demoConfig 2) (rounds + 1) =
        [0, 1, 2, 3, 4, 5] ++ ([10, 11, 12] ++ (List.replicate rounds [10, 11, 12]).flatten) := rfl
    rw [hsong] at hpre
    simp [cons_prefix_cons] at hpre

/-! ## Room in the ring -/

/-- The channel after `new` was pushed onto a ring with room for it. -/
def MixerChannel.push (new : List φ) : MixerChannel φ :=
  { c with ring := c.ring ++ new, pushed := c.pushed ++ new }

theorem MixerChannel.push_push (new new' : List φ) :
    (c.push new).push new' = c.push (new ++ new') := by
  simp [MixerChannel.push]

theorem mixerWriteChannel_fits (c : MixerChannel φ) (samples : List φ)
    (h : c.ring.length + samples.length ≤ c.capacity) : mixerWriteChannel c samples = c.push samples := by
  unfold mixerWriteChannel MixerChannel.push
  induction samples generalizing c with
  | nil => simp
  | cons frame samples ih =>
    rw [length_cons] at h
    have hpush : rbPush c frame =
        { c with ring := c.ring ++ [frame], pushed := c.pushed ++ [frame] } := by
      unfold rbPush
      rw [if_neg (by omega)]
    rw [foldl_cons, hpush, ih _ (by simp; omega)]
    simp

/-- The channel takes `new` frames of the head and the buffer and loses none. -/
structure Feeds (new : List φ) (mp mp' : MusicPlayer φ) : Prop extends SameSegment mp mp' where
  count : mp'.pinnedRemaining + mp'.streamingCount + new.length =
    mp.pinnedRemaining + mp.streamingCount
  channel : mp'.channel = mp.channel.push new

theorem Feeds.refl : Feeds [] mp mp := by
  refine ⟨⟨rfl, rfl, rfl⟩, rfl, ?_⟩
  simp [MixerChannel.push]

theorem Feeds.trans {new new' : List φ} {mp' mp'' : MusicPlayer φ} (h : Feeds new mp mp')
    (h' : Feeds new' mp' mp'') : Feeds (new ++ new') mp mp'' := by
  have hcount := h.count
  have hcount' := h'.count
  refine ⟨h.toSameSegment.trans h'.toSameSegment, ?_, ?_⟩
  · rw [length_append]
    omega
  · rw [h'.channel, h.channel, MixerChannel.push_push]

theorem pumpStreaming_feeds (maxToTransfer transferred passes : Nat) (mp : MusicPlayer φ)
    (h : mp.channel.ring.length + min (maxToTransfer - transferred) mp.streamingCount ≤
      mp.channel.capacity) : ∃ new : List φ, new.length ≤ maxToTransfer - transferred ∧
        Feeds new mp (pumpStreaming maxToTransfer passes mp transferred) := by
  induction passes generalizing transferred mp with
  | zero => exact ⟨[], Nat.zero_le _, .refl⟩
  | succ passes ih =>
    unfold pumpStreaming
    split
    · dsimp only
      generalize htake : min mp.streamingCount (maxToTransfer - transferred) = take
      have hlen := length_slice mp.streamingBuffer mp.streamingReadPos take
      have hwrite := mixerWriteChannel_fits mp.channel
        (slice mp.streamingBuffer mp.streamingReadPos take) (by omega)
      have hpush : Feeds (slice mp.streamingBuffer mp.streamingReadPos take) mp
          (pushStreaming mp take) := by
        refine ⟨⟨rfl, rfl, rfl⟩, ?_, hwrite⟩
        unfold pushStreaming
        dsimp only
        omega
      obtain ⟨new, hnew, hrest⟩ := ih (transferred + take) (pushStreaming mp take) (by
        rw [hpush.channel]
        unfold MixerChannel.push pushStreaming
        dsimp only
        rw [length_append]
        omega)
      refine ⟨_, ?_, hpush.trans hrest⟩
      rw [length_append]
      omega
    · exact ⟨[], Nat.zero_le _, .refl⟩

theorem pumpToMixer_feeds (mp : MusicPlayer φ) (target : Nat)
    (h : mp.channel.ring.length + min target (mp.pinnedRemaining + mp.streamingCount) ≤
      mp.channel.capacity) : ∃ new : List φ, new.length ≤ target ∧
        Feeds new mp (pumpToMixer mp target) := by
  obtain ⟨new, hnew, hpinned, hstays⟩ : ∃ new : List φ, new.length = (pumpPinned mp target).2 ∧
      Feeds new mp (pumpPinned mp target).1 ∧ new.length ≤ target := by
    unfold pumpPinned
    split
    · split
      · exact ⟨[], rfl, .refl, Nat.zero_le _⟩
      · rename_i head _
        dsimp only
        generalize htake : min mp.pinnedRemaining target = take
        have hlen := length_slice head
          (currentPinnedSize mp.cfg mp.segment - mp.pinnedRemaining) take
        refine ⟨_, hlen, ⟨⟨rfl, rfl, rfl⟩, ?_, mixerWriteChannel_fits _ _ (by omega)⟩, by omega⟩
        unfold pushPinned
        dsimp only
        omega
    · exact ⟨[], rfl, .refl, Nat.zero_le _⟩
  have hcount := hpinned.count
  obtain ⟨new', hnew', hrest⟩ := pumpStreaming_feeds target (pumpPinned mp target).2
    (pumpPinned mp target).1.streamingCount (pumpPinned mp target).1 (by
      rw [hpinned.channel]
      unfold MixerChannel.push
      dsimp only
      rw [length_append]
      omega)
  refine ⟨_, ?_, hpinned.trans hrest⟩
  rw [length_append]
  omega

/-- The stream of the segment has no more frames for a refill, and one is due. -/
def StreamEnds (mp : MusicPlayer φ) (fn : MusicStreamFn φ) : Prop :=
  mp.streamingCount < mp.cfg.streamingBufferSamples / 2 ∧
    (currentSegmentStreamId mp.cfg mp.segment = musicStreamNone ∨
      fn (currentSegmentStreamId mp.cfg mp.segment)
        (mp.cfg.streamingBufferSamples - mp.streamingCount)
        (mp.segmentOffset + mp.pinnedRemaining + mp.streamingCount) = [])

/-- The loop follows when the segment ends. -/
def LoopFollows (mp : MusicPlayer φ) : Prop :=
  mp.segment = .intro ∧ mp.cfg.loopStreamId ≠ musicStreamNone ∨ mp.segment = .loop

/-- The frames that the callback gives for the start of the loop. -/
def loopRefill (mp : MusicPlayer φ) (fn : MusicStreamFn φ) : List φ :=
  fn mp.cfg.loopStreamId mp.cfg.streamingBufferSamples (headFrames mp.cfg .loop)

/-- Where an update ends a segment and goes on with the loop, the ring has room for the rest of the
segment and for what the second pass pushes. -/
def Roomy (mp : MusicPlayer φ) : PlayerEvent φ → Prop
  | .update fn => Working mp → StreamEnds mp fn → LoopFollows mp →
      mp.pinnedRemaining + mp.streamingCount ≤ transferTarget mp →
        mp.pinnedRemaining + mp.streamingCount + min (transferTarget mp)
          (headFrames mp.cfg .loop + (loopRefill mp fn).length) ≤
            mp.channel.capacity - mp.channel.ring.length
  | _ => True

/-- From `c` on only frames that were free in the ring have been written, behind those that wait;
when the player stops the ring is emptied. -/
def Unharmed (mp : MusicPlayer φ) : Prop :=
  ∃ new : List φ, new.length ≤ c.capacity - c.ring.length ∧ mp.channel.pushed = c.pushed ++ new ∧
    (mp.channel.ring = c.ring ++ new ∨ mp.state = .stopped ∧ mp.channel.ring = [])

def KeepsUnplayed (mp : MusicPlayer φ) : PlayerEvent φ → Prop
  | .update fn => Unharmed mp.channel (musicUpdate mp fn)
  | _ => True

theorem transferTarget_le (mp : MusicPlayer φ) :
    transferTarget mp ≤ mp.channel.capacity - mp.channel.ring.length := by
  unfold transferTarget mixerChannelBuffered
  dsimp only
  split <;> split <;> split <;> omega

theorem refillPass_feeds (mp : MusicPlayer φ) (fn : MusicStreamFn φ) :
    SameSegment mp (refillPass mp fn).1 ∧ (refillPass mp fn).1.channel = mp.channel ∧
      (refillPass mp fn).1.pinnedRemaining = mp.pinnedRemaining ∧
        ((refillPass mp fn).2 = true → StreamEnds mp fn ∧
          (refillPass mp fn).1.streamingCount = mp.streamingCount) := by
  unfold refillPass StreamEnds
  split
  · rename_i hlow
    obtain ⟨hsame, -, hpin, -, hchannel⟩ := refill_same mp fn
    refine ⟨hsame, hchannel, hpin, fun hzero => ?_⟩
    simp only [Bool.and_eq_true, beq_iff_eq] at hzero
    have hgrown := refill_grows mp fn
    have hcount : (refillStreamingBuffer mp fn).streamingCount = mp.streamingCount := by omega
    refine ⟨⟨hlow, or_iff_not_imp_left.mpr fun hid => ?_⟩, hcount⟩
    have hgot := (@refill_streaming _ mp fn _ (by omega) hid rfl).2
    exact eq_nil_of_length_eq_zero (by omega)
  · exact ⟨⟨rfl, rfl, rfl⟩, rfl, rfl, fun hfalse => absurd hfalse Bool.false_ne_true⟩

theorem transitionPass_unharmed {c : MixerChannel φ} (new : List φ) (last : Bool)
    (hlen : new.length ≤ c.capacity - c.ring.length) (h : mp.channel = c.push new) :
    Unharmed c (transitionPass mp last).1 := by
  have hpushed := congrArg MixerChannel.pushed h
  have hring := congrArg MixerChannel.ring h
  unfold transitionPass
  split
  · split
    · exact ⟨new, hlen, hpushed, .inl hring⟩
    · split
      · exact ⟨new, hlen, hpushed, .inl hring⟩
      · exact ⟨new, hlen, hpushed, .inr ⟨rfl, rfl⟩⟩
  · exact ⟨new, hlen, hpushed, .inl hring⟩

/-- The second pass starts with the loop: at most its head and its first refill can be pushed. -/
theorem transitionPass_again (mp : MusicPlayer φ) (last : Bool) (h : (transitionPass mp last).2 = true) :
    (last = true ∧ mp.streamingCount = 0 ∧ mp.pinnedRemaining = 0 ∧ LoopFollows mp) ∧
      (transitionPass mp last).1.channel = mp.channel ∧
        ∀ fn, (refillPass (transitionPass mp last).1 fn).1.pinnedRemaining +
          (refillPass (transitionPass mp last).1 fn).1.streamingCount ≤
            headFrames mp.cfg .loop + (loopRefill mp fn).length := by
  have hloop : ∀ (state : MusicState) fn,
      (refillPass { enterSegment mp .loop with state := state } fn).1.pinnedRemaining +
        (refillPass { enterSegment mp .loop with state := state } fn).1.streamingCount ≤
          headFrames mp.cfg .loop + (loopRefill mp fn).length := by
    intro state fn
    have hzero : 0 + headFrames mp.cfg .loop + 0 = headFrames mp.cfg .loop := Nat.zero_add _
    unfold refillPass refillStreamingBuffer compactStreamingBuffer enterSegment loopRefill
    dsimp only [currentSegmentStreamId]
    rw [hzero, Nat.sub_zero]
    split
    · split
      · exact Nat.le_add_right ..
      · simp only [Nat.zero_add, Nat.le_refl]
    · exact Nat.le_add_right ..
  unfold transitionPass at h ⊢
  split at h
  · rename_i hex
    rw [if_pos hex]
    simp only [segmentExhausted, Bool.and_eq_true, beq_iff_eq] at hex
    obtain ⟨⟨hlast, hcount⟩, hpin⟩ := hex
    split at h
    · rename_i hintro
      rw [if_pos hintro]
      exact ⟨⟨hlast, hcount, hpin, .inl hintro⟩, rfl, hloop _⟩
    · rename_i hintro
      rw [if_neg hintro]
      split at h
      · rename_i hseg
        rw [if_pos hseg]
        exact ⟨⟨hlast, hcount, hpin, .inr hseg⟩, rfl, hloop mp.state⟩
      · cases h
  · cases h

theorem musicUpdate_unharmed {fn : MusicStreamFn φ} (h : Roomy mp (.update fn)) :
    Unharmed mp.channel (musicUpdate mp fn) := by
  have hfree := transferTarget_le mp
  have hnone : Unharmed mp.channel mp :=
    ⟨[], Nat.zero_le _, (append_nil _).symm, .inl (append_nil _).symm⟩
  unfold musicUpdate
  split
  · rename_i hplay
    dsimp only
    split
    · exact hnone
    · rename_i htarget
      obtain ⟨hsame, hchannel, hpin, hends⟩ := refillPass_feeds mp fn
      obtain ⟨new, hnew, hfeeds⟩ := pumpToMixer_feeds (refillPass mp fn).1 (transferTarget mp)
        (by rw [hchannel]; omega)
      have hfed := hfeeds.channel
      have hcount := hfeeds.count
      have hsame' := hsame.trans hfeeds.toSameSegment
      rw [hchannel] at hfed
      by_cases hagain : (updatePass mp fn (transferTarget mp)).2 = true
      · rw [if_pos hagain]
        obtain ⟨⟨hlast, hcount₁, hpin₁, hnext⟩, hchannel₁, hbound⟩ := transitionPass_again
          (pumpToMixer (refillPass mp fn).1 (transferTarget mp)) (refillPass mp fn).2 hagain
        obtain ⟨hend, hrefilled⟩ := hends hlast
        have hbound := hbound fn
        unfold LoopFollows at hnext
        unfold loopRefill at hbound
        rw [hsame'.cfg, hsame'.segment] at hnext
        rw [hsame'.cfg] at hbound
        have hroom := h ⟨hplay, htarget⟩ hend hnext (by omega)
        unfold loopRefill at hroom
        change (refillPass (updatePass mp fn (transferTarget mp)).1 fn).1.pinnedRemaining +
          (refillPass (updatePass mp fn (transferTarget mp)).1 fn).1.streamingCount ≤ _ at hbound
        change (updatePass mp fn (transferTarget mp)).1.channel = _ at hchannel₁
        generalize (updatePass mp fn (transferTarget mp)).1 = mp₂ at hchannel₁ hbound ⊢
        obtain ⟨-, hchannel₂, -⟩ := refillPass_feeds mp₂ fn
        have hring : (refillPass mp₂ fn).1.channel = mp.channel.push new :=
          hchannel₂.trans (hchannel₁.trans hfed)
        have hsize : (mp.channel.push new).ring.length = mp.channel.ring.length + new.length ∧
          (mp.channel.push new).capacity = mp.channel.capacity := ⟨length_append .., rfl⟩
        obtain ⟨new', hnew', hfeeds'⟩ := pumpToMixer_feeds (refillPass mp₂ fn).1 (transferTarget mp)
          (by rw [hring]; omega)
        have hcount' := hfeeds'.count
        have hfed' := hfeeds'.channel
        rw [hring] at hfed'
        refine transitionPass_unharmed (new ++ new') _ ?_ ?_
        · rw [length_append]
          omega
        · exact hfed'.trans (MixerChannel.push_push ..)
      · rw [if_neg hagain]
        exact transitionPass_unharmed new _ (by omega) hfed
  · exact hnone

/-- Whatever the ring, the streams and the order of updates and rendering: where each update meets
the condition, no frame is lost before it is played. -/
theorem run_keeps_unplayed {mp₀ : MusicPlayer φ} {es : List (PlayerEvent φ)}
    (hok : Meets (fun mp e => some (playerStep mp e)) Roomy mp₀ es) :
    Meets (fun mp e => some (playerStep mp e)) KeepsUnplayed mp₀ es := by
  have hstep : ∀ (mp : MusicPlayer φ) e, True → Roomy mp e → KeepsUnplayed mp e := by
    intro mp e _ he
    cases e with
    | update fn => exact musicUpdate_unharmed he
    | _ => exact trivial
  exact .of_invariant (fun _ _ _ h _ _ => h) hstep trivial hok

theorem run_keeps_unplayed_through : ∃ mp₀ : MusicPlayer Nat,
    startPlaying loopHeadConfig 8 (fun _ => 0) (serveAll demoSource) (serveAll demoSource) =
      some mp₀ ∧
    Meets (fun mp e => some (playerStep mp e)) KeepsUnplayed mp₀ (demoEvents 3) := by
  obtain ⟨mp₀, hstart⟩ : ∃ mp₀, startPlaying loopHeadConfig 8 (fun _ => 0) (serveAll demoSource)
    (serveAll demoSource) = some mp₀ := ⟨_, rfl⟩
  refine ⟨mp₀, hstart, run_keeps_unplayed (.cons ?_ rfl (.cons trivial rfl (.cons ?_ rfl
    (.cons trivial rfl (.cons ?_ rfl (.cons trivial rfl trivial))))))⟩
  all_goals
    cases hstart
    unfold Roomy Working StreamEnds LoopFollows loopRefill
    decide +kernel
/-- A loop of three frames and a ring of two: the first frame of the second round is written over the
last one of the first, which has not been played. -/
theorem update_overwrites : ¬ ∀ (cfg : MusicPlayerConfig Nat) (capacity : Nat) (mp₀ : MusicPlayer Nat)
    (es : List (PlayerEvent Nat)),
    startPlaying cfg capacity (fun _ => 0) (serveAll demoSource) (serveAll demoSource) = some mp₀ →
      Meets (fun mp e => some (playerStep mp e)) KeepsUnplayed mp₀ es := by
  intro hall
  have hmeets := hall ⟨-1, 1, 4, 0, none, 0, none, 0⟩ 2 _
    [.update (serveAll demoSource), .render 2, .update (serveAll demoSource)] rfl
  obtain ⟨new, hnew, hpushed, -⟩ := ((hmeets.2 _ rfl).2 _ rfl).1
  have hlen := congrArg List.length hpushed
  rw [length_append] at hlen
  have hthree : new.length = 3 := by
    exact (Nat.add_left_cancel (n := 2) (by exact hlen)).symm
  have hfree : new.length ≤ 2 := hnew
  omega

end Microgarbage.Audio
