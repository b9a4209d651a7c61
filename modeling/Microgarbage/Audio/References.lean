import Microgarbage.Audio.PoolRefs
import Microgarbage.Audio.Service
import Microgarbage.Lib.Transition

/-!
# Who holds what of the pool

Music objects, tracks and music slots hold references on pool objects, and so does the creator of an
object until the object is released for it. The service keeps the reference counts equal to these
references as long as nobody releases the creator's hold twice: by freeing an object that has been
freed for its creator, or by sweeping a VM when an object it has freed is still in use elsewhere.
-/

namespace Microgarbage.Audio

open Lib List

/-! ## The references of a service -/

/-- The reference on a handle that may be `NONE`. -/
def anyRef (h : AudioObjHandle) : List AudioObjHandle :=
  if h = audioPoolHandleNone then [] else [h]

def MusicObject.refs (mo : MusicObject) : List AudioObjHandle :=
  if mo.inUse then mo.intro :: anyRef mo.loop else []

def AudioTrack.refs (t : AudioTrack) : List AudioObjHandle := if t.active then anyRef t.object else []

/-- A music voice holds its loop in its slot; the intro is its track's object. -/
def MusicSlot.refs (ms : MusicSlot) : List AudioObjHandle :=
  if ms.inUse ∧ ¬ ms.isFmv ∧ ¬ ms.isFile then anyRef ms.loop else []

/-- Every use of a pool object by a music object or by a voice. -/
def AudioService.refs (svc : AudioService) : List AudioObjHandle :=
  tally (fun i => (svc.musicObjs i).refs) musicMaxObjects ++
    tally (fun t => (svc.arbiter.tracks t).refs) svc.arbiter.trackCount ++
    tally (fun i => (svc.musicSlots i).refs) audioServiceMaxMusic

/-- A music voice is active on the track. -/
def MusicOn (svc : AudioService) (t : Nat) : Prop :=
  t < svc.arbiter.trackCount ∧ (svc.arbiter.tracks t).active = true ∧
    (svc.arbiter.tracks t).kind = .music

/-- Slots in use feed live tracks, each its own; the others are not marked as the clip's. -/
structure Wired (svc : AudioService) (live : Nat → Prop) : Prop where
  track_live : ∀ i < audioServiceMaxMusic, (svc.musicSlots i).inUse = true →
    live (svc.musicSlots i).track
  track_inj : ∀ i < audioServiceMaxMusic, ∀ j < audioServiceMaxMusic,
    (svc.musicSlots i).inUse = true → (svc.musicSlots j).inUse = true →
      (svc.musicSlots i).track = (svc.musicSlots j).track → i = j
  idle : ∀ i < audioServiceMaxMusic, (svc.musicSlots i).inUse = false →
    (svc.musicSlots i).isFmv = false

/-- The counts of the pool are the creators' holds `held`, the references `inHand` of a request
that is being served, and the references of the service. -/
def Accounted (svc : AudioService) (held : AudioObjHandle → Bool) (inHand : List AudioObjHandle) :
    Prop :=
  Counts (liveCount svc.pool) fun h => (held h).toNat + inHand.count h + svc.refs.count h

/-- The state between two requests. -/
structure Refcounted (svc : AudioService) (held : AudioObjHandle → Bool) : Prop where
  accounted : Accounted svc held []
  wired : Wired svc (MusicOn svc)

variable {svc : AudioService} {held : AudioObjHandle → Bool} {inHand : List AudioObjHandle}
  {h : AudioObjHandle}

theorem count_setMusic (svc : AudioService) {i : Nat} (hi : i < musicMaxObjects) (mo : MusicObject)
    (h : AudioObjHandle) : (svc.setMusic i mo).refs.count h + (svc.musicObjs i).refs.count h =
      svc.refs.count h + mo.refs.count h := by
  have hcount := count_tally (f := fun j => ((svc.setMusic i mo).musicObjs j).refs)
    (g := fun j => (svc.musicObjs j).refs) hi
    (fun j hj => congrArg MusicObject.refs (if_neg hj)) h
  simp only [AudioService.setMusic, AudioService.refs, count_append, if_true] at hcount ⊢
  omega

theorem count_setTrack (svc : AudioService) {t : Nat} (ht : t < svc.arbiter.trackCount) (track : AudioTrack)
    (h : AudioObjHandle) : (svc.setTrack t track).refs.count h +
      (svc.arbiter.tracks t).refs.count h = svc.refs.count h + track.refs.count h := by
  have hcount := count_tally (f := fun j => ((svc.setTrack t track).arbiter.tracks j).refs)
    (g := fun j => (svc.arbiter.tracks j).refs) ht
    (fun j hj => congrArg AudioTrack.refs (if_neg hj)) h
  simp only [AudioService.setTrack, AudioService.refs, count_append, if_true] at hcount ⊢
  omega

theorem count_setSlot (svc : AudioService) {i : Nat} (hi : i < audioServiceMaxMusic) (ms : MusicSlot)
    (h : AudioObjHandle) : (svc.setSlot i ms).refs.count h + (svc.musicSlots i).refs.count h =
      svc.refs.count h + ms.refs.count h := by
  have hcount := count_tally (f := fun j => ((svc.setSlot i ms).musicSlots j).refs)
    (g := fun j => (svc.musicSlots j).refs) hi
    (fun j hj => congrArg MusicSlot.refs (if_neg hj)) h
  simp only [AudioService.setSlot, AudioService.refs, count_append, if_true] at hcount ⊢
  omega

@[simp] theorem setSlot_same (svc : AudioService) (i : Nat) (ms : MusicSlot) :
    (svc.setSlot i ms).musicSlots i = ms := if_pos rfl

theorem setSlot_ne {i j : Nat} (ms : MusicSlot) (h : j ≠ i) :
    (svc.setSlot i ms).musicSlots j = svc.musicSlots j := if_neg h

/-! ## Taking and dropping references -/

theorem count_cons_if (h j : AudioObjHandle) (l : List AudioObjHandle) :
    (h :: l).count j = l.count j + if j = h then 1 else 0 := by
  rw [count_cons]
  congr 1
  by_cases hj : j = h
  · simp [hj]
  · simp [hj, Ne.symm hj]

theorem Accounted.ref {s : Nat} (ha : Accounted svc held inHand)
    (hs : resolve svc.pool h = some s) :
    Accounted { svc with pool := (audioPoolRef svc.pool h).2 } held (h :: inHand) := by
  obtain ⟨-, -, hlive⟩ := audioPoolRef_spec hs
  refine (ha.acquire hlive).congr fun j => ?_
  rw [count_cons_if, ← Nat.add_assoc]
  exact Nat.add_right_comm ..

theorem Accounted.unref (ha : Accounted svc held (h :: inHand)) :
    Accounted { svc with pool := (audioPoolUnref svc.pool h).2.2 } held inHand ∧
      Shrinks svc.pool (audioPoolUnref svc.pool h).2.2 := by
  have hc : Counts (liveCount svc.pool) fun j =>
      (held j).toNat + inHand.count j + svc.refs.count j + if j = h then 1 else 0 := by
    refine ha.congr fun j => ?_
    rw [count_cons_if, ← Nat.add_assoc]
    exact Nat.add_right_comm ..
  have hlive := hc.of_pos (k := h) (by simp)
  obtain ⟨s, hs, hn⟩ := Option.map_eq_some_iff.mp hlive
  obtain ⟨hshrink, -, hdrop⟩ := dropRef_spec hs
  rw [audioPoolUnref_spec hs]
  rw [hn] at hdrop
  exact ⟨hc.release hlive hdrop, hshrink⟩

theorem Accounted.refAny (ha : Accounted svc held inHand)
    (hs : h = audioPoolHandleNone ∨ ∃ s, resolve svc.pool h = some s) :
    (refIfAny svc.pool h).1 = .ok ∧
      Accounted { svc with pool := (refIfAny svc.pool h).2 } held (anyRef h ++ inHand) := by
  unfold refIfAny anyRef
  by_cases hnone : h = audioPoolHandleNone
  · rw [if_pos hnone, if_pos hnone]
    exact ⟨rfl, ha⟩
  · rw [if_neg hnone, if_neg hnone]
    obtain ⟨s, hs⟩ := hs.resolve_left hnone
    exact ⟨(audioPoolRef_spec hs).1, ha.ref hs⟩

theorem Accounted.unrefAny (ha : Accounted svc held (anyRef h ++ inHand)) :
    Accounted { svc with pool := unrefIfAny svc.pool h } held inHand ∧
      Shrinks svc.pool (unrefIfAny svc.pool h) := by
  unfold unrefIfAny
  unfold anyRef at ha
  by_cases hnone : h = audioPoolHandleNone
  · rw [if_pos hnone] at ha ⊢
    exact ⟨ha, .refl _⟩
  · rw [if_neg hnone] at ha ⊢
    exact Accounted.unref ha

theorem Accounted.move {svc' : AudioService} {inHand' : List AudioObjHandle}
    (ha : Accounted svc held inHand) (hpool : svc'.pool = svc.pool)
    (hrefs : ∀ j, inHand'.count j + svc'.refs.count j = inHand.count j + svc.refs.count j) :
    Accounted svc' held inHand' := by
  unfold Accounted
  rw [hpool]
  refine ha.congr fun j => ?_
  have hj := hrefs j
  omega

/-! ## The sink -/

/-- Voices and objects may go, none comes. -/
structure Quieter (svc svc' : AudioService) : Prop where
  pool : Shrinks svc.pool svc'.pool
  music : svc'.musicObjs = svc.musicObjs
  trackCount : svc'.arbiter.trackCount = svc.arbiter.trackCount
  tracks : ∀ t, svc'.arbiter.tracks t = svc.arbiter.tracks t ∨
    (svc'.arbiter.tracks t).active = false
  slots : ∀ i, (svc'.musicSlots i).inUse = true → svc'.musicSlots i = svc.musicSlots i

theorem Quieter.refl (svc : AudioService) : Quieter svc svc :=
  ⟨.refl _, rfl, rfl, fun _ => Or.inl rfl, fun _ _ => rfl⟩

theorem Quieter.trans {svc' svc'' : AudioService} (h : Quieter svc svc') (h' : Quieter svc' svc'') :
    Quieter svc svc'' := by
  refine ⟨h.pool.trans h'.pool, h'.music.trans h.music, h'.trackCount.trans h.trackCount,
    fun t => ?_, fun i hi => ?_⟩
  · rcases h'.tracks t with ht | ht
    · rcases h.tracks t with ht' | ht'
      · exact Or.inl (ht.trans ht')
      · exact Or.inr (ht ▸ ht')
    · exact Or.inr ht
  · have hsame := h'.slots i hi
    rw [hsame]
    exact h.slots i (hsame ▸ hi)

theorem musicSlotForTrack_some {i t : Nat} (h : musicSlotForTrack svc t = some i) :
    i < audioServiceMaxMusic ∧ (svc.musicSlots i).inUse = true ∧ (svc.musicSlots i).track = t := by
  have hfound := List.find?_some h
  simp only [Bool.and_eq_true, decide_eq_true_eq] at hfound
  exact ⟨mem_range.mp (mem_of_find?_eq_some h), hfound⟩

theorem musicSlotForTrack_none {i t : Nat} (h : musicSlotForTrack svc t = none)
    (hi : i < audioServiceMaxMusic) (huse : (svc.musicSlots i).inUse = true) :
    (svc.musicSlots i).track ≠ t := by
  have hnone := List.find?_eq_none.mp h i (mem_range.mpr hi)
  simpa [huse] using hnone

/-- A slot given other contents: what it held goes to the hand, what it holds comes from there. -/
theorem Accounted.setSlot {i : Nat} (ms : MusicSlot) (ha : Accounted svc held (ms.refs ++ inHand))
    (hi : i < audioServiceMaxMusic) :
    Accounted (svc.setSlot i ms) held ((svc.musicSlots i).refs ++ inHand) := by
  refine ha.move rfl fun j => ?_
  have hcount := count_setSlot svc hi ms j
  rw [count_append, count_append]
  omega

theorem Wired.setSlot {live live' : Nat → Prop} {i : Nat} {ms : MusicSlot} (hw : Wired svc live)
    (hother : ∀ j < audioServiceMaxMusic, j ≠ i → (svc.musicSlots j).inUse = true →
      live' (svc.musicSlots j).track)
    (huse : ms.inUse = true → live' ms.track ∧ ¬ live ms.track)
    (hidle : ms.inUse = false → ms.isFmv = false) : Wired (svc.setSlot i ms) live' := by
  refine ⟨fun j hj hjuse => ?_, fun j hj k hk hjuse hkuse heq => ?_, fun j hj hjidle => ?_⟩
  · by_cases hji : j = i
    · rw [hji, setSlot_same] at hjuse ⊢
      exact (huse hjuse).1
    · rw [setSlot_ne ms hji] at hjuse ⊢
      exact hother j hj hji hjuse
  · by_cases hji : j = i <;> by_cases hki : k = i
    · exact hji.trans hki.symm
    · rw [hji, setSlot_same] at hjuse heq
      rw [setSlot_ne ms hki] at hkuse heq
      exact absurd (hw.track_live k hk hkuse) (heq ▸ (huse hjuse).2)
    · rw [setSlot_ne ms hji] at hjuse heq
      rw [hki, setSlot_same] at hkuse heq
      exact absurd (hw.track_live j hj hjuse) (heq ▸ (huse hkuse).2)
    · rw [setSlot_ne ms hji] at hjuse heq
      rw [setSlot_ne ms hki] at hkuse heq
      exact hw.track_inj j hj k hk hjuse hkuse heq
  · by_cases hji : j = i
    · rw [hji, setSlot_same] at hjidle ⊢
      exact hidle hjidle
    · rw [setSlot_ne ms hji] at hjidle ⊢
      exact hw.idle j hj hjidle

variable {live : Nat → Prop}

theorem svcSinkStop_spec {t : Nat} (ha : Accounted svc held inHand) (hw : Wired svc live) :
    Accounted (svcSinkStop svc t) held inHand ∧
      Wired (svcSinkStop svc t) (fun u => live u ∧ u ≠ t) ∧ Quieter svc (svcSinkStop svc t) ∧
      (svcSinkStop svc t).arbiter = svc.arbiter := by
  unfold svcSinkStop
  cases hslot : musicSlotForTrack svc t with
  | none =>
    exact ⟨ha, ⟨fun i hi huse => ⟨hw.track_live i hi huse, musicSlotForTrack_none hslot hi huse⟩,
      hw.track_inj, hw.idle⟩, .refl svc, rfl⟩
  | some i =>
    obtain ⟨hi, huse, htrack⟩ := musicSlotForTrack_some hslot
    have hquiet (ms : MusicSlot) (hms : ms.inUse = false) : Quieter svc (svc.setSlot i ms) := by
      refine ⟨.refl _, rfl, rfl, fun _ => Or.inl rfl, fun j hj => ?_⟩
      by_cases hji : j = i
      · subst hji
        rw [setSlot_same, hms] at hj
        cases hj
      · exact setSlot_ne ms hji
    have hwired (ms : MusicSlot) (hms : ms.inUse = false) (hfmv : ms.isFmv = false) :
        Wired (svc.setSlot i ms) (fun u => live u ∧ u ≠ t) := by
      refine hw.setSlot (fun j hj hji hjuse => ⟨hw.track_live j hj hjuse, fun he => ?_⟩)
        (fun hin => ?_) fun _ => hfmv
      · exact hji (hw.track_inj j hj i hi hjuse huse (he.trans htrack.symm))
      · rw [hms] at hin
        cases hin
    have hhand (ms : MusicSlot) (hms : ms.inUse = false) :
        Accounted (svc.setSlot i ms) held ((svc.musicSlots i).refs ++ inHand) :=
      Accounted.setSlot ms (by simpa [MusicSlot.refs, hms] using ha) hi
    dsimp only
    split
    · rename_i hfmv
      refine ⟨?_, hwired _ rfl rfl, hquiet _ rfl, rfl⟩
      have hrefs : (svc.musicSlots i).refs = [] := by simp [MusicSlot.refs, hfmv]
      simpa [hrefs] using hhand { svc.musicSlots i with isFmv := false, inUse := false } rfl
    · rename_i hfmv
      have hfmv' : (svc.musicSlots i).isFmv = false := by simpa using hfmv
      split
      · rename_i hfile
        refine ⟨?_, hwired _ rfl hfmv', hquiet _ rfl, rfl⟩
        have hrefs : (svc.musicSlots i).refs = [] := by simp [MusicSlot.refs, hfile]
        simpa [hrefs] using hhand { svc.musicSlots i with isFile := false, inUse := false } rfl
      · rename_i hfile
        have hrefs : (svc.musicSlots i).refs = anyRef (svc.musicSlots i).loop := by
          simp [MusicSlot.refs, huse, hfmv, hfile]
        have hheld := hhand { svc.musicSlots i with inUse := false } rfl
        rw [hrefs] at hheld
        obtain ⟨hdropped, hshrink⟩ := hheld.unrefAny
        have hq := hquiet { svc.musicSlots i with inUse := false } rfl
        have hw' := hwired { svc.musicSlots i with inUse := false } rfl hfmv'
        exact ⟨hdropped, ⟨hw'.1, hw'.2, hw'.3⟩,
          { hq with pool := hshrink }, rfl⟩

theorem findFreeMusicSlot_some {i : Nat} (h : findFreeMusicSlot svc = some i) :
    i < audioServiceMaxMusic ∧ (svc.musicSlots i).inUse = false := by
  have hfree := List.find?_some h
  exact ⟨mem_range.mp (mem_of_find?_eq_some h), by simpa using hfree⟩

theorem touch_slot {i : Nat} (ms : MusicSlot) (ha : Accounted svc held inHand) (hw : Wired svc live)
    (hi : i < audioServiceMaxMusic) (hidle : (svc.musicSlots i).inUse = false)
    (hms : ms.inUse = false) (hfmv : ms.isFmv = false) :
    Accounted (svc.setSlot i ms) held inHand ∧ Wired (svc.setSlot i ms) live := by
  refine ⟨?_, hw.setSlot (fun j hj _ hjuse => hw.track_live j hj hjuse) (fun hin => ?_) fun _ => hfmv⟩
  · have hset := Accounted.setSlot ms (by simpa [MusicSlot.refs, hms] using ha) hi
    simpa [MusicSlot.refs, hidle] using hset
  · rw [hms] at hin
    cases hin

/-- An idle slot takes up a track that no slot feeds, with the references it was given. -/
theorem occupy_slot {i t : Nat} {ms : MusicSlot} (ha : Accounted svc held (ms.refs ++ inHand))
    (hw : Wired svc live) (hi : i < audioServiceMaxMusic) (hidle : (svc.musicSlots i).inUse = false)
    (ht : ¬ live t) (hms : ms.inUse = true) (htrack : ms.track = t) :
    Accounted (svc.setSlot i ms) held inHand ∧ Wired (svc.setSlot i ms) (fun u => live u ∨ u = t) := by
  refine ⟨by simpa [MusicSlot.refs, hidle] using ha.setSlot ms hi, hw.setSlot
    (fun j hj _ hjuse => .inl (hw.track_live j hj hjuse)) (fun _ => ⟨.inr htrack, htrack ▸ ht⟩)
    fun hout => ?_⟩
  rw [hms] at hout
  cases hout

/-- What `svc_sink_start` leaves: when it starts a music voice, a slot may feed its track. -/
structure Started (svc : AudioService) (held : AudioObjHandle → Bool)
    (inHand : List AudioObjHandle) (live : Nat → Prop) (kind : AudioVoiceKind) (t : Nat)
    (res : Bool × AudioService) : Prop where
  accounted : Accounted res.2 held inHand
  wired : Wired res.2 fun u => live u ∨ (kind = .music ∧ res.1 = true ∧ u = t)
  arbiter : res.2.arbiter = svc.arbiter

theorem Wired.mono {live live' : Nat → Prop} (hw : Wired svc live) (h : ∀ t, live t → live' t) :
    Wired svc live' :=
  ⟨fun i hi huse => h _ (hw.track_live i hi huse), hw.track_inj, hw.idle⟩

theorem startPoolMusic_spec {i t : Nat} {loop : AudioObjHandle} {env : SinkEnv}
    (ha : Accounted svc held inHand) (hw : Wired svc live) (hi : i < audioServiceMaxMusic)
    (hidle : (svc.musicSlots i).inUse = false) (ht : ¬ live t) :
    Started svc held inHand live .music t (startPoolMusic svc i t loop env) := by
  have hfmv := hw.idle i hi hidle
  obtain ⟨ha₁, hw₁⟩ := touch_slot { svc.musicSlots i with isFile := false } ha hw hi hidle hidle hfmv
  have hinit : (svc.setSlot i { svc.musicSlots i with isFile := false }).musicSlots i =
      { svc.musicSlots i with isFile := false } := setSlot_same ..
  have harb : (svc.setSlot i { svc.musicSlots i with isFile := false }).arbiter = svc.arbiter := rfl
  unfold startPoolMusic
  generalize svc.setSlot i { svc.musicSlots i with isFile := false } = svc₁ at ha₁ hw₁ hinit harb ⊢
  dsimp only
  by_cases hloop : loop = audioPoolHandleNone ∨ ∃ s, resolve svc₁.pool loop = some s
  · obtain ⟨hok, ha₂⟩ := ha₁.refAny hloop
    rcases href : refIfAny svc₁.pool loop with ⟨r, pool⟩
    rw [href] at hok ha₂
    obtain rfl : r = .ok := hok
    dsimp only
    -- the slot remembers the loop, still idle
    have hw₂ : Wired { svc₁ with pool := pool } live := ⟨hw₁.1, hw₁.2, hw₁.3⟩
    have hidle₁ : (svc₁.musicSlots i).inUse = false := by rw [hinit]; exact hidle
    have hfmv₁ : (svc₁.musicSlots i).isFmv = false := by rw [hinit]; exact hfmv
    obtain ⟨ha₃, hw₃⟩ := touch_slot { svc₁.musicSlots i with loop := loop } ha₂ hw₂ hi hidle₁
      hidle₁ hfmv₁
    have hslot : ({ svc₁ with pool := pool }.setSlot i
        { svc₁.musicSlots i with loop := loop }).musicSlots i =
          { svc₁.musicSlots i with loop := loop } := setSlot_same ..
    have harb₃ : ({ svc₁ with pool := pool }.setSlot i
        { svc₁.musicSlots i with loop := loop }).arbiter = svc.arbiter := harb
    generalize { svc₁ with pool := pool }.setSlot i { svc₁.musicSlots i with loop := loop } = svc₃
      at ha₃ hw₃ hslot harb₃ ⊢
    cases henv : env.playerCreated with
    | true =>
      have hrefs : ({ svc₃.musicSlots i with track := t, inUse := true } : MusicSlot).refs =
          anyRef loop := by
        simp [MusicSlot.refs, hslot, hinit, hfmv]
      have hidle₃ : (svc₃.musicSlots i).inUse = false := by rw [hslot]; exact hidle₁
      rw [← hrefs] at ha₃
      obtain ⟨ha₄, hw₄⟩ := occupy_slot ha₃ hw₃ hi hidle₃ ht rfl rfl
      exact ⟨ha₄, hw₄.mono fun u hu => hu.imp id fun he => ⟨rfl, rfl, he⟩, harb₃⟩
    | false =>
      obtain ⟨ha₄, -⟩ := ha₃.unrefAny
      exact ⟨ha₄, ⟨fun j hj huse => Or.inl (hw₃.track_live j hj huse), hw₃.2, hw₃.3⟩, harb₃⟩
  · obtain ⟨hnone, hdead⟩ := not_or.mp hloop
    have hres : resolve svc₁.pool loop = none := by
      rw [Option.eq_none_iff_forall_ne_some]
      exact fun s hs => hdead ⟨s, hs⟩
    have href : refIfAny svc₁.pool loop = (.errBadHandle, svc₁.pool) := by
      unfold refIfAny audioPoolRef
      rw [if_neg hnone, hres]
    rw [href]
    exact ⟨ha₁, hw₁.mono fun u hu => Or.inl hu, harb⟩

/-- A stream of another kind takes up an idle slot, without a reference. -/
theorem startStream_spec {i t : Nat} {ms : MusicSlot} (ha : Accounted svc held inHand)
    (hw : Wired svc live) (hi : i < audioServiceMaxMusic) (hidle : (svc.musicSlots i).inUse = false)
    (ht : ¬ live t) (hms : ms.inUse = true) (htrack : ms.track = t)
    (hkind : ms.isFile = true ∨ ms.isFmv = true) :
    Started svc held inHand live .music t (true, svc.setSlot i ms) := by
  have hrefs : ms.refs = [] := by
    rcases hkind with hk | hk <;> simp [MusicSlot.refs, hk]
  have hnone : Accounted svc held (ms.refs ++ inHand) := by
    rw [hrefs]
    exact ha
  obtain ⟨ha', hw'⟩ := occupy_slot hnone hw hi hidle ht hms htrack
  exact ⟨ha', hw'.mono fun u hu => hu.imp id fun he => ⟨rfl, rfl, he⟩, rfl⟩

theorem setSlot_setSlot (svc : AudioService) (i : Nat) (ms ms' : MusicSlot) :
    (svc.setSlot i ms).setSlot i ms' = svc.setSlot i ms' := by
  unfold AudioService.setSlot
  congr 1
  funext j
  by_cases hj : j = i <;> simp [hj]

theorem svcSinkStart_spec {t : Nat} (kind : AudioVoiceKind) (object : AudioObjHandle)
    (pend : Pending) (env : SinkEnv) (ha : Accounted svc held inHand) (hw : Wired svc live)
    (ht : ¬ live t) :
    Started svc held inHand live kind t (svcSinkStart svc t kind object pend env) := by
  have hsame {b : Bool} : Started svc held inHand live kind t (b, svc) :=
    ⟨ha, hw.mono fun u hu => Or.inl hu, rfl⟩
  cases kind with
  | sfx => exact hsame
  | music =>
    cases hslot : findFreeMusicSlot svc with
    | none => cases pend <;> simp only [svcSinkStart, hslot] <;> exact hsame
    | some i =>
      obtain ⟨hi, hidle⟩ := findFreeMusicSlot_some hslot
      have hfmv := hw.idle i hi hidle
      have htouch (ms : MusicSlot) (hms : ms.inUse = false) (hplain : ms.isFmv = false) :
          Started svc held inHand live .music t (false, svc.setSlot i ms) := by
        obtain ⟨ha', hw'⟩ := touch_slot ms ha hw hi hidle hms hplain
        exact ⟨ha', hw'.mono fun u hu => Or.inl hu, rfl⟩
      cases pend with
      | pcmStream => exact hsame
      | pool loop =>
        simp only [svcSinkStart, hslot]
        exact startPoolMusic_spec ha hw hi hidle ht
      | stream =>
        simp only [svcSinkStart, hslot, setSlot_same, setSlot_setSlot]
        split
        · split
          · exact startStream_spec ha hw hi hidle ht rfl rfl (Or.inl rfl)
          · exact htouch _ hidle hfmv
        · exact hsame
      | fmv =>
        simp only [svcSinkStart, hslot, setSlot_same, setSlot_setSlot]
        split
        · exact startStream_spec ha hw hi hidle ht rfl rfl (Or.inr rfl)
        · exact htouch _ hidle rfl

/-! ## The arbiter -/

theorem setTrack_tracks (svc : AudioService) (t u : Nat) (track : AudioTrack) :
    (svc.setTrack t track).arbiter.tracks u = if u = t then track else svc.arbiter.tracks u := rfl

/-- A track given other contents: what it held goes to the hand, what it holds comes from there. -/
theorem Accounted.setTrack {t : Nat} (track : AudioTrack)
    (ha : Accounted svc held (track.refs ++ inHand)) (ht : t < svc.arbiter.trackCount) :
    Accounted (svc.setTrack t track) held ((svc.arbiter.tracks t).refs ++ inHand) := by
  refine ha.move rfl fun j => ?_
  have hcount := count_setTrack svc ht track j
  rw [count_append, count_append]
  omega

theorem musicOn_setTrack {t u : Nat} (track : AudioTrack) (ht : t < svc.arbiter.trackCount) :
    MusicOn (svc.setTrack t track) u ↔
      (u = t ∧ track.active = true ∧ track.kind = .music) ∨ (u ≠ t ∧ MusicOn svc u) := by
  unfold MusicOn
  rw [setTrack_tracks]
  by_cases hu : u = t
  · subst hu
    simp [AudioService.setTrack, ht]
  · simp [AudioService.setTrack, hu]

theorem stopTrack_spec {t : Nat} (hr : Refcounted svc held) (ht : t < svc.arbiter.trackCount) :
    Refcounted (stopTrack svc t) held ∧ Quieter svc (stopTrack svc t) ∧
      ((stopTrack svc t).arbiter.tracks t).active = false := by
  unfold stopTrack
  dsimp only
  by_cases hactive : (svc.arbiter.tracks t).active = true
  · rw [if_pos hactive]
    obtain ⟨ha, hw, hq, harb⟩ := svcSinkStop_spec (t := t) hr.accounted hr.wired
    have hmusic (u : Nat) : MusicOn svc u ↔ MusicOn (svcSinkStop svc t) u := by
      unfold MusicOn
      rw [harb]
    have htrack : (svcSinkStop svc t).arbiter.tracks t = svc.arbiter.tracks t := by rw [harb]
    have ht' : t < (svcSinkStop svc t).arbiter.trackCount := harb ▸ ht
    have htracks (u : Nat) : (svcSinkStop svc t).arbiter.tracks u = svc.arbiter.tracks u := by
      rw [harb]
    generalize svcSinkStop svc t = svc₁ at ha hw hq hmusic htrack ht' htracks ⊢
    -- the track's reference goes to the hand and is dropped
    have hidle : Accounted (svc₁.setTrack t idleTrack) held
        (anyRef (svc.arbiter.tracks t).object ++ []) := by
      have hset := Accounted.setTrack idleTrack ha ht'
      rw [htrack] at hset
      simpa [AudioTrack.refs, hactive] using hset
    obtain ⟨hdropped, hshrink⟩ := hidle.unrefAny
    refine ⟨⟨hdropped, fun i hi huse => ?_, hw.2, hw.3⟩, ?_, ?_⟩
    · obtain ⟨hon, hne⟩ := hw.track_live i hi huse
      exact (musicOn_setTrack idleTrack ht').mpr (Or.inr ⟨hne, (hmusic _).mp hon⟩)
    · refine { hq with pool := hq.pool.trans hshrink, tracks := fun u => ?_ }
      by_cases hu : u = t
      · exact Or.inr (congrArg AudioTrack.active (if_pos hu))
      · exact Or.inl ((if_neg hu).trans (htracks u))
    · exact congrArg AudioTrack.active (if_pos rfl)
  · rw [if_neg hactive]
    exact ⟨hr, .refl svc, by simpa using hactive⟩

theorem findFreeTrack_some {t : Nat} (h : findFreeTrack svc.arbiter = some t) :
    t < svc.arbiter.trackCount ∧ (svc.arbiter.tracks t).active = false := by
  have hfree := List.find?_some h
  exact ⟨mem_range.mp (mem_of_find?_eq_some h), by simpa using hfree⟩

theorem claimTrack_spec {t ownerVm : Nat} {object : AudioObjHandle} {kind : AudioVoiceKind}
    (ha : Accounted svc held (anyRef object))
    (hw : Wired svc fun u => MusicOn svc u ∨ (kind = .music ∧ true = true ∧ u = t))
    (ht : t < svc.arbiter.trackCount) (hidle : (svc.arbiter.tracks t).active = false) :
    Refcounted (claimTrack svc t object kind ownerVm) held := by
  obtain ⟨track, htrack⟩ : ∃ track, (⟨true, object, kind, ownerVm, svc.arbiter.generations t⟩ :
    AudioTrack) = track := ⟨_, rfl⟩
  have hobject : Accounted svc held (track.refs ++ []) := by
    rw [← htrack]
    simpa [AudioTrack.refs] using ha
  have hset := hobject.setTrack track ht
  rw [show (svc.arbiter.tracks t).refs = [] by simp [AudioTrack.refs, hidle]] at hset
  unfold claimTrack
  dsimp only
  rw [htrack]
  refine ⟨hset, fun i hi huse => ?_, hw.2, hw.3⟩
  refine (musicOn_setTrack track ht).mpr ?_
  rcases hw.track_live i hi huse with hon | ⟨hkind, -, heq⟩
  · refine Or.inr ⟨fun heq => ?_, hon⟩
    have hact := hon.2.1
    rw [show (svc.musicSlots i).track = t from heq, hidle] at hact
    cases hact
  · exact Or.inl ⟨heq, htrack ▸ rfl, htrack ▸ hkind⟩

theorem not_musicOn {t : Nat} (hidle : (svc.arbiter.tracks t).active = false) : ¬ MusicOn svc t :=
  fun hon => Bool.false_ne_true (hidle.symm.trans hon.2.1)

/-- The track is claimed when the sink has started the voice, and stays idle when it has not. -/
theorem started_spec {t : Nat} (ownerVm : Nat) {object : AudioObjHandle} {kind : AudioVoiceKind}
    {res : Bool × AudioService} (hs : Started svc held (anyRef object) (MusicOn svc) kind t res)
    (ht : t < svc.arbiter.trackCount) (hidle : (svc.arbiter.tracks t).active = false) :
    (res.1 = true → Refcounted (claimTrack res.2 t object kind ownerVm) held) ∧
      (res.1 = false → Wired res.2 (MusicOn res.2)) := by
  obtain ⟨started, svc₁⟩ := res
  obtain ⟨ha, hw, harb⟩ := hs
  have hon : MusicOn svc = MusicOn svc₁ := by
    unfold MusicOn
    rw [show svc₁.arbiter = svc.arbiter from harb]
  rw [hon] at hw
  rw [← show svc₁.arbiter = svc.arbiter from harb] at ht hidle
  refine ⟨?_, ?_⟩
  · rintro rfl
    exact claimTrack_spec ha hw ht hidle
  · rintro rfl
    refine hw.mono fun u hu => hu.resolve_right fun hno => ?_
    cases hno.2.1

theorem audioArbiterPlay_spec {object : AudioObjHandle} {kind : AudioVoiceKind} {ownerVm : Nat}
    {pend : Pending} {env : SinkEnv} (hr : Refcounted svc held) :
    Refcounted (audioArbiterPlay svc object kind ownerVm pend env).2.2 held := by
  unfold audioArbiterPlay audioPoolHandleValid
  cases hs : resolve svc.pool object with
  | none => exact hr
  | some s =>
    simp only [Option.isSome_some, Bool.not_true, Bool.false_eq_true, ↓reduceIte]
    cases htrack : findFreeTrack svc.arbiter with
    | none => exact hr
    | some t =>
      obtain ⟨ht, hidle⟩ := findFreeTrack_some htrack
      have hnone : object ≠ audioPoolHandleNone := by
        rintro rfl
        cases hs
      obtain ⟨hok, -, -⟩ := audioPoolRef_spec hs
      have ha := hr.accounted.ref hs
      rcases href : audioPoolRef svc.pool object with ⟨r, pool⟩
      rw [href] at hok ha
      obtain rfl : r = .ok := hok
      dsimp only at ha ⊢
      have hw : Wired { svc with pool := pool } (MusicOn { svc with pool := pool }) :=
        ⟨hr.wired.1, hr.wired.2, hr.wired.3⟩
      rw [show [object] = anyRef object from (if_neg hnone).symm] at ha
      have hstart := svcSinkStart_spec kind object pend env ha hw (not_musicOn hidle)
      obtain ⟨hclaim, hwired⟩ := started_spec ownerVm hstart ht hidle
      have ha₁ := hstart.accounted
      rw [anyRef, if_neg hnone] at ha₁
      generalize svcSinkStart { svc with pool := pool } t kind object pend env = res at *
      obtain ⟨started, svc₁⟩ := res
      cases started with
      | false =>
        have hw₁ := hwired rfl
        exact ⟨(Accounted.unref ha₁).1, hw₁.1, hw₁.2, hw₁.3⟩
      | true => exact hclaim rfl

theorem audioArbiterPlayExternal_spec {ownerVm : Nat} {pend : Pending} {env : SinkEnv}
    (hr : Refcounted svc held) :
    Refcounted (audioArbiterPlayExternal svc ownerVm pend env).2.2 held := by
  unfold audioArbiterPlayExternal
  cases htrack : findFreeTrack svc.arbiter with
  | none => exact hr
  | some t =>
    obtain ⟨ht, hidle⟩ := findFreeTrack_some htrack
    have hstart : Started svc held (anyRef audioPoolHandleNone) (MusicOn svc) .music t _ :=
      svcSinkStart_spec .music audioPoolHandleNone pend env hr.accounted hr.wired (not_musicOn hidle)
    obtain ⟨hclaim, hwired⟩ := started_spec ownerVm hstart ht hidle
    have ha₁ := hstart.accounted
    dsimp only
    generalize svcSinkStart svc t .music audioPoolHandleNone pend env = res at *
    obtain ⟨started, svc₁⟩ := res
    cases started with
    | false => exact ⟨ha₁, hwired rfl⟩
    | true => exact hclaim rfl

theorem audioArbiterStop_spec {voice : AudioVoiceHandle} (hr : Refcounted svc held) :
    Refcounted (audioArbiterStop svc voice).2 held := by
  unfold audioArbiterStop
  cases hv : resolveVoice svc.arbiter voice with
  | none => exact hr
  | some t =>
    unfold resolveVoice at hv
    cases hu : unpackVoice voice with
    | none =>
      rw [hu] at hv
      cases hv
    | some tg =>
      rw [hu] at hv
      simp only [Option.ite_none_right_eq_some, Option.some.injEq] at hv
      obtain ⟨⟨ht, -, -⟩, rfl⟩ := hv
      exact (stopTrack_spec hr ht).1

theorem foldl_tracks {f : AudioService → Nat → AudioService} {P : Nat → AudioService → Prop}
    (hf : ∀ q t, f q t = stopTrack q t ∧ P t (stopTrack q t) ∨ f q t = q ∧ P t q)
    (hP : ∀ q q' t, Quieter q q' → P t q → P t q') (hr : Refcounted svc held) {n : Nat}
    (hn : n ≤ svc.arbiter.trackCount) :
    Refcounted ((List.range n).foldl f svc) held ∧ Quieter svc ((List.range n).foldl f svc) ∧
      ∀ t < n, P t ((List.range n).foldl f svc) := by
  induction n with
  | zero => exact ⟨hr, .refl svc, fun t ht => absurd ht (Nat.not_lt_zero t)⟩
  | succ n ih =>
    obtain ⟨hr', hq, hall⟩ := ih (by omega)
    rw [range_succ, foldl_append]
    have hlt : n < ((List.range n).foldl f svc).arbiter.trackCount := hq.trackCount ▸ hn
    obtain ⟨hr'', hq', -⟩ := stopTrack_spec hr' hlt
    rcases hf ((List.range n).foldl f svc) n with ⟨heq, hp⟩ | ⟨heq, hp⟩
    · rw [foldl_cons, foldl_nil, heq]
      refine ⟨hr'', hq.trans hq', fun t ht => ?_⟩
      rcases Nat.lt_succ_iff_lt_or_eq.mp ht with ht | rfl
      · exact hP _ _ t hq' (hall t ht)
      · exact hp
    · rw [foldl_cons, foldl_nil, heq]
      refine ⟨hr', hq, fun t ht => ?_⟩
      rcases Nat.lt_succ_iff_lt_or_eq.mp ht with ht | rfl
      · exact hall t ht
      · exact hp

theorem audioArbiterReap_spec {isDone : Nat → Bool} (hr : Refcounted svc held) :
    Refcounted (audioArbiterReap svc isDone) held := by
  refine (foldl_tracks (P := fun _ _ => True) (fun q t => ?_) (fun _ _ _ _ h => h) hr
    (Nat.le_refl _)).1
  unfold reapTrack
  split
  · exact Or.inl ⟨rfl, trivial⟩
  · exact Or.inr ⟨rfl, trivial⟩

theorem stopTrack_idle (svc : AudioService) (t : Nat) :
    ((stopTrack svc t).arbiter.tracks t).active = false := by
  unfold stopTrack
  dsimp only
  split
  · exact congrArg AudioTrack.active (if_pos rfl)
  · rename_i hactive
    simpa using hactive

/-! ## Sweeps -/

/-- The uses of pool objects by music objects and by voices of other VMs than `vm`. -/
def usesOutside (svc : AudioService) (vm : Nat) : List AudioObjHandle :=
  tally (fun i => (svc.musicObjs i).refs) musicMaxObjects ++
    tally (fun t => if (svc.arbiter.tracks t).ownerVm = vm then [] else (svc.arbiter.tracks t).refs)
      svc.arbiter.trackCount ++
    tally (fun i => if (svc.arbiter.tracks (svc.musicSlots i).track).ownerVm = vm then []
      else (svc.musicSlots i).refs) audioServiceMaxMusic

theorem audioArbiterSweepVm_spec (vm : Nat) (hr : Refcounted svc held) :
    Refcounted (audioArbiterSweepVm svc vm) held ∧ Quieter svc (audioArbiterSweepVm svc vm) ∧
      ∀ t < svc.arbiter.trackCount,
        ((audioArbiterSweepVm svc vm).arbiter.tracks t).active = true →
          ((audioArbiterSweepVm svc vm).arbiter.tracks t).ownerVm ≠ vm := by
  refine foldl_tracks (P := fun t q => (q.arbiter.tracks t).active = true →
    (q.arbiter.tracks t).ownerVm ≠ vm) (fun q t => ?_) (fun q q' t hq hp hactive => ?_) hr
      (Nat.le_refl _)
  · unfold sweepTrack
    split
    · refine Or.inl ⟨rfl, fun hactive => ?_⟩
      rw [stopTrack_idle] at hactive
      cases hactive
    · rename_i hother
      exact Or.inr ⟨rfl, fun hactive howner => hother ⟨hactive, howner⟩⟩
  · rcases hq.tracks t with hsame | hidle
    · rw [hsame] at hactive ⊢
      exact hp hactive
    · rw [hidle] at hactive
      cases hactive

theorem count_refs_swept (vm : Nat) (hr : Refcounted svc held) (h : AudioObjHandle) :
    (audioArbiterSweepVm svc vm).refs.count h ≤ (usesOutside svc vm).count h := by
  obtain ⟨hr', hq, howner⟩ := audioArbiterSweepVm_spec vm hr
  have htrack {t : Nat} (ht : t < svc.arbiter.trackCount)
      (hactive : ((audioArbiterSweepVm svc vm).arbiter.tracks t).active = true) :
      (audioArbiterSweepVm svc vm).arbiter.tracks t = svc.arbiter.tracks t ∧
        (svc.arbiter.tracks t).ownerVm ≠ vm := by
    rcases hq.tracks t with hsame | hidle
    · exact ⟨hsame, hsame ▸ howner t ht hactive⟩
    · rw [hidle] at hactive
      cases hactive
  simp only [AudioService.refs, usesOutside, count_append, hq.music, hq.trackCount]
  refine Nat.add_le_add (Nat.add_le_add (Nat.le_refl _) (count_tally_le fun t ht => ?_))
    (count_tally_le fun i hi => ?_)
  · cases hactive : ((audioArbiterSweepVm svc vm).arbiter.tracks t).active with
    | false => simp [AudioTrack.refs, hactive]
    | true =>
      obtain ⟨hsame, hne⟩ := htrack ht hactive
      rw [if_neg hne, hsame]
  · cases huse : ((audioArbiterSweepVm svc vm).musicSlots i).inUse with
    | false => simp [MusicSlot.refs, huse]
    | true =>
      have hsame := hq.slots i huse
      obtain ⟨hlt, hactive, -⟩ := hr'.wired.track_live i hi huse
      rw [hsame] at hlt hactive
      rw [if_neg (htrack (hq.trackCount ▸ hlt) hactive).2, hsame]

/-- The creators' holds after a sweep of the objects of `vm`. -/
def sweptHolds (p : AudioPool) (held : AudioObjHandle → Bool) (vm : Nat) (h : AudioObjHandle) :
    Bool :=
  held h && !(creator p h == some vm)

/-- The same when only the slots of `done` have been swept. -/
def sweptSome (p : AudioPool) (held : AudioObjHandle → Bool) (vm : Nat) (done : List Nat)
    (h : AudioObjHandle) : Bool :=
  held h && !((resolve p h).any fun s => decide (s ∈ done) && (p.objects s).ownerVm == vm)

theorem sweptSome_append {p : AudioPool} {vm s : Nat} {done : List Nat} (hs : s ∉ done)
    (hlt : s < audioPoolMaxObjects) (huse : (p.objects s).inUse = true)
    (howner : (p.objects s).ownerVm = vm)
    (hheld : held (packHandle s (p.objects s).generation) = true) (j : AudioObjHandle) :
    (sweptSome p held vm done j).toNat = (sweptSome p held vm (done ++ [s]) j).toNat +
      if j = packHandle s (p.objects s).generation then 1 else 0 := by
  have hres := resolve_pack hlt huse
  by_cases hj : j = packHandle s (p.objects s).generation
  · subst hj
    simp [sweptSome, hres, hs, howner, hheld]
  · have hsame : sweptSome p held vm (done ++ [s]) j = sweptSome p held vm done j := by
      unfold sweptSome
      cases hr : resolve p j with
      | none => rfl
      | some t =>
        have hne : t ≠ s := fun he => hj (resolve_inj hres (he ▸ hr))
        simp [hne]
    rw [hsame, if_neg hj, Nat.add_zero]

theorem sweptSome_skip {p : AudioPool} {vm s : Nat} {done : List Nat}
    (hskip : ¬ ((p.objects s).inUse = true ∧ (p.objects s).ownerVm = vm)) (j : AudioObjHandle) :
    sweptSome p held vm (done ++ [s]) j = sweptSome p held vm done j := by
  unfold sweptSome
  cases hr : resolve p j with
  | none => rfl
  | some t =>
    by_cases ht : t = s
    · subst ht
      have hne : ((p.objects t).ownerVm == vm) = false :=
        beq_false_of_ne fun he => hskip ⟨(resolve_eq_some.mp hr).2.1, he⟩
      simp only [Option.any_some, hne, Bool.and_false]
    · simp [ht]

/-- The sweep's loop up to a slot; the slots from there on are as they were. -/
theorem sweepSlots_spec {p : AudioPool} {refs : AudioObjHandle → Nat} {vm : Nat}
    (hc : Counts (liveCount p) fun h => (held h).toNat + refs h)
    (hheld : ∀ h, creator p h = some vm → held h = true) {n : Nat} (hn : n ≤ audioPoolMaxObjects) :
    Counts (liveCount ((List.range n).foldl (sweepSlot vm) p))
        (fun h => (sweptSome p held vm (List.range n) h).toNat + refs h) ∧
      ∀ s, n ≤ s → ((List.range n).foldl (sweepSlot vm) p).objects s = p.objects s := by
  induction n with
  | zero =>
    refine ⟨hc.congr fun h => ?_, fun s _ => rfl⟩
    simp [sweptSome]
  | succ n ih =>
    obtain ⟨ihc, hrest⟩ := ih (by omega)
    rw [range_succ, foldl_append, foldl_cons, foldl_nil]
    generalize (List.range n).foldl (sweepSlot vm) p = q at ihc hrest ⊢
    have hobj : q.objects n = p.objects n := hrest n (Nat.le_refl n)
    unfold sweepSlot
    by_cases hsweep : (q.objects n).inUse = true ∧ (q.objects n).ownerVm = vm
    · rw [if_pos hsweep]
      have hres := resolve_pack (p := q) hn hsweep.1
      obtain ⟨-, hother, hdrop⟩ := dropRef_spec hres
      rw [hobj] at hsweep
      have hcreator : creator p (packHandle n (p.objects n).generation) = some vm := by
        unfold creator
        rw [resolve_pack hn hsweep.1, Option.map_some, hsweep.2]
      refine ⟨?_, fun s hs => ?_⟩
      · refine Counts.release (ihc.congr fun j => ?_) (liveCount_of_resolve hres) hdrop
        have hnew : n ∉ List.range n := by simp
        have happend := sweptSome_append hnew hn hsweep.1 hsweep.2 (hheld _ hcreator) j
        rw [hobj, happend]
        exact Nat.add_right_comm ..
      · rw [hother s (by omega)]
        exact hrest s (by omega)
    · rw [if_neg hsweep]
      rw [hobj] at hsweep
      refine ⟨ihc.congr fun j => ?_, fun s hs => hrest s (by omega)⟩
      rw [sweptSome_skip hsweep]

/-- A sweep of the pool drops one reference of each object of the VM: its hold, if all are held. -/
theorem audioPoolSweepVm_spec {p : AudioPool} {refs : AudioObjHandle → Nat} {vm : Nat}
    (hc : Counts (liveCount p) fun h => (held h).toNat + refs h)
    (hheld : ∀ h, creator p h = some vm → held h = true) :
    Counts (liveCount (audioPoolSweepVm p vm)) fun h => (sweptHolds p held vm h).toNat + refs h := by
  refine (sweepSlots_spec hc hheld (Nat.le_refl _)).1.congr fun h => ?_
  congr 2
  unfold sweptHolds sweptSome creator
  cases hr : resolve p h with
  | none => rfl
  | some s =>
    have hs : decide (s ∈ List.range audioPoolMaxObjects) = true :=
      decide_eq_true (mem_range.mpr (resolve_eq_some.mp hr).1)
    simp only [Option.any_some, Option.map_some, hs, Bool.true_and]
    rfl

end Microgarbage.Audio
