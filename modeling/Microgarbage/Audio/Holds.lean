import Microgarbage.Audio.References

/-!
# The holds of the creators

An object's creator holds it from its allocation until the object is freed by handle or its VM is
swept. Over any sequence of requests and reaps the reference counts are the holds and the uses, as
long as no hold is released twice and no live object is freed by a handle with the tag of music
handles, which pool handles have from generation `0x8000` on.
-/

namespace Microgarbage.Audio

open Lib

variable {svc : AudioService} {held : AudioObjHandle → Bool} {h : AudioObjHandle}

/-! ## The sweep of a VM -/

theorem Refcounted.of_pool {pool : AudioPool} {held' : AudioObjHandle → Bool}
    (hr : Refcounted svc held)
    (hc : Counts (liveCount pool) fun h => (held' h).toNat + svc.refs.count h) :
    Refcounted { svc with pool := pool } held' := by
  refine ⟨hc.congr fun h => ?_, hr.wired.1, hr.wired.2, hr.wired.3⟩
  rw [List.count_nil, Nat.add_zero]
  rfl

theorem Refcounted.counts (hr : Refcounted svc held) :
    Counts (liveCount svc.pool) fun h => (held h).toNat + svc.refs.count h :=
  hr.accounted.congr fun h => by rw [List.count_nil, Nat.add_zero]

/-- Every object of the VM is held, or used by nobody but the VM itself. -/
def SweepOk (svc : AudioService) (held : AudioObjHandle → Bool) (vm : Nat) : Prop :=
  ∀ h, creator svc.pool h = some vm → held h = true ∨ (usesOutside svc vm).count h = 0

theorem audioServiceSweepVm_spec {vm : Nat} (hr : Refcounted svc held) (hok : SweepOk svc held vm) :
    Refcounted (audioServiceSweepVm svc vm) (sweptHolds svc.pool held vm) := by
  obtain ⟨hr₁, hq, -⟩ := audioArbiterSweepVm_spec vm hr
  have huses := count_refs_swept vm hr
  unfold audioServiceSweepVm
  generalize audioArbiterSweepVm svc vm = svc₁ at hr₁ hq huses ⊢
  dsimp only
  -- what is left of the VM's objects is held: nobody else uses it
  have hheld : ∀ h, creator svc₁.pool h = some vm → held h = true := by
    intro h hcreator
    obtain ⟨s, hs, -⟩ := Option.map_eq_some_iff.mp hcreator
    obtain ⟨hpos, -⟩ := hr₁.accounted.pos (liveCount_of_resolve hs)
    rcases hok h (hq.pool.creator hcreator) with hh | hnone
    · exact hh
    · have hle := huses h
      cases hh : held h with
      | true => rfl
      | false =>
        simp only [hh, Bool.toNat_false, List.count_nil] at hpos
        omega
  have hsame (h : AudioObjHandle) : sweptHolds svc.pool held vm h = sweptHolds svc₁.pool held vm h := by
    unfold sweptHolds
    cases hh : held h with
    | false => rfl
    | true =>
      have hpos : 0 < (held h).toNat + List.count h [] + svc₁.refs.count h := by
        simp [hh]
      obtain ⟨s, hs, -⟩ := Option.map_eq_some_iff.mp (hr₁.accounted.of_pos hpos)
      have hcreator : creator svc₁.pool h = some (svc₁.pool.objects s).ownerVm := by
        simp [creator, hs]
      rw [hq.pool.creator hcreator, hcreator]
  have hswept : Refcounted { svc₁ with pool := audioPoolSweepVm svc₁.pool vm }
      (sweptHolds svc.pool held vm) := by
    refine hr₁.of_pool ?_
    refine Counts.congr (audioPoolSweepVm_spec hr₁.counts hheld) fun h => ?_
    rw [hsame h]
  generalize audioPoolSweepVm svc₁.pool vm = pool at hswept ⊢
  split
  · exact ⟨hswept.accounted, hswept.wired.1, hswept.wired.2, hswept.wired.3⟩
  · exact hswept

/-! ## Allocation and release by handle -/

/-- The holds with one set or cleared. -/
def setHold (held : AudioObjHandle → Bool) (h : AudioObjHandle) (b : Bool) (j : AudioObjHandle) :
    Bool :=
  if j = h then b else held j

theorem Refcounted.alloc {pool : AudioPool} (hr : Refcounted svc held)
    (hnew : resolve svc.pool h = none)
    (hlive : ∀ j, liveCount pool j = if j = h then some 1 else liveCount svc.pool j) :
    Refcounted { svc with pool := pool } (setHold held h true) := by
  have hnone := liveCount_eq_none.mpr hnew
  have hzero := hr.counts.of_none hnone
  have hlive' : ∀ j, liveCount pool j =
      if j = h then some ((liveCount svc.pool h).getD 0 + 1) else liveCount svc.pool j := by
    intro j
    rw [hlive j, hnone]
    rfl
  have hacquire := hr.counts.acquire hlive'
  refine hr.of_pool (hacquire.congr fun j => ?_)
  unfold setHold
  by_cases hj : j = h
  · subst hj
    simp only [if_pos, Bool.toNat_true]
    omega
  · rw [if_neg hj, if_neg hj, Nat.add_zero]

/-- What is held is there. -/
theorem Refcounted.valid (hr : Refcounted svc held) (hh : held h = true) :
    audioPoolHandleValid svc.pool h = true := by
  have hpos : 0 < (held h).toNat + svc.refs.count h := by
    rw [hh, Bool.toNat_true]
    omega
  obtain ⟨s, hs, -⟩ := Option.map_eq_some_iff.mp (hr.counts.of_pos hpos)
  unfold audioPoolHandleValid
  rw [hs]
  rfl

theorem Refcounted.unhold (hr : Refcounted svc held) (hh : held h = true) :
    Refcounted { svc with pool := (audioPoolUnref svc.pool h).2.2 } (setHold held h false) := by
  obtain ⟨s, hs⟩ := Option.isSome_iff_exists.mp (hr.valid hh)
  obtain ⟨-, -, hdrop⟩ := dropRef_spec hs
  rw [audioPoolUnref_spec hs]
  refine hr.of_pool (Counts.release (hr.counts.congr fun j => ?_) (liveCount_of_resolve hs) hdrop)
  unfold setHold
  by_cases hj : j = h
  · subst hj
    simp only [if_pos, hh, Bool.toNat_true, Bool.toNat_false]
    omega
  · rw [if_neg hj, if_neg hj, Nat.add_zero]

theorem allocated_spec {size ownerVm : Nat} {res : AudioPoolResult × AudioObjHandle × AudioPool}
    (hr : Refcounted svc held) (hsame : res.1 = (audioPoolAlloc svc.pool size ownerVm).1)
    (hhandle : res.2.1 = (audioPoolAlloc svc.pool size ownerVm).2.1)
    (hlive : ∀ j, liveCount res.2.2 j =
      liveCount (audioPoolAlloc svc.pool size ownerVm).2.2 j) :
    Refcounted { svc with pool := res.2.2 }
      (if res.1 = .ok then setHold held res.2.1 true else held) := by
  obtain ⟨r, h, pool⟩ := res
  rcases halloc : audioPoolAlloc svc.pool size ownerVm with ⟨r', h', pool'⟩
  rw [halloc] at hsame hhandle hlive
  dsimp only at hsame hhandle hlive ⊢
  subst hsame hhandle
  by_cases hok : r = .ok
  · subst hok
    obtain ⟨hnew, hcount⟩ := audioPoolAlloc_ok halloc
    rw [if_pos rfl]
    exact hr.alloc hnew fun j => (hlive j).trans (hcount j)
  · rw [if_neg hok]
    have hfailed : SameObjects svc.pool pool' := by
      have hsame : (audioPoolAlloc svc.pool size ownerVm).1 ≠ .ok → SameObjects svc.pool
        (audioPoolAlloc svc.pool size ownerVm).2.2 := audioPoolAlloc_failed
      rw [halloc] at hsame
      exact hsame hok
    exact hr.of_pool (hr.counts.congr_live fun j => (hlive j).trans (hfailed.liveCount j))

/-! ## Music objects -/

theorem freeMusic_spec {i : Nat} (hr : Refcounted svc held) (hi : i < musicMaxObjects)
    (huse : (svc.musicObjs i).inUse = true) : Refcounted (freeMusic svc i) held := by
  obtain ⟨mo, hmo⟩ : ∃ mo, svc.musicObjs i = mo := ⟨_, rfl⟩
  have hmove : Accounted (svc.setMusic i { mo with inUse := false }) held
      (mo.intro :: (anyRef mo.loop ++ [])) := by
    refine hr.accounted.move rfl fun j => ?_
    have hcount := count_setMusic svc hi { mo with inUse := false } j
    have hold : (svc.musicObjs i).refs = mo.intro :: anyRef mo.loop := by
      rw [hmo] at huse ⊢
      exact if_pos huse
    have hnew : ({ mo with inUse := false } : MusicObject).refs = [] := rfl
    rw [hold, hnew] at hcount
    rw [List.append_nil]
    simp only [List.count_nil] at hcount ⊢
    omega
  obtain ⟨hintro, -⟩ := hmove.unref
  obtain ⟨hloop, -⟩ := hintro.unrefAny
  unfold freeMusic
  rw [hmo]
  exact ⟨hloop, hr.wired.1, hr.wired.2, hr.wired.3⟩

theorem resolve_of_liveCount {p p' : AudioPool} {n : Int} {j : AudioObjHandle}
    (hs : ∃ s, resolve p j = some s)
    (hlive : liveCount p' j = if j = h then some n else liveCount p j) :
    ∃ s, resolve p' j = some s := by
  refine Option.isSome_iff_exists.mp (Option.isSome_iff_ne_none.mpr fun hnone => ?_)
  obtain ⟨s, hs⟩ := hs
  rw [liveCount_eq_none.mpr hnone, liveCount_of_resolve hs] at hlive
  split at hlive <;> cases hlive

theorem loadMusic_spec (intro loop ownerVm : Nat) (hr : Refcounted svc held) :
    Refcounted (loadMusic svc intro loop ownerVm).2.2 held := by
  unfold loadMusic audioPoolHandleValid
  cases hintro : resolve svc.pool intro with
  | none => exact hr
  | some s =>
    simp only [Option.isSome_some, Bool.not_true, Bool.false_eq_true, ↓reduceIte]
    split
    · exact hr
    · rename_i hloop
      cases hfind : (List.range musicMaxObjects).find? fun i => !(svc.musicObjs i).inUse with
      | none => exact hr
      | some i =>
        have hi : i < musicMaxObjects := List.mem_range.mp (List.mem_of_find?_eq_some hfind)
        have hfree : (svc.musicObjs i).inUse = false := by simpa using List.find?_some hfind
        obtain ⟨-, -, hlive⟩ := audioPoolRef_spec hintro
        have hvalid : loop = audioPoolHandleNone ∨
            ∃ s, resolve (audioPoolRef svc.pool intro).2 loop = some s := by
          by_cases hnone : loop = audioPoolHandleNone
          · exact Or.inl hnone
          · have hsome : resolve svc.pool loop ≠ none := by simpa [hnone] using hloop
            exact Or.inr (resolve_of_liveCount (Option.ne_none_iff_exists'.mp hsome) (hlive loop))
        obtain ⟨-, ha⟩ := Accounted.refAny (hr.accounted.ref hintro) hvalid
        refine ⟨ha.move rfl fun j => ?_, hr.wired.1, hr.wired.2, hr.wired.3⟩
        have hcount := count_setMusic { svc with pool := (refIfAny (audioPoolRef svc.pool intro).2
          loop).2 } hi ⟨true, intro, loop, ownerVm⟩ j
        have hold : (svc.musicObjs i).refs = [] := if_neg (hfree ▸ Bool.false_ne_true)
        have hnew : (⟨true, intro, loop, ownerVm⟩ : MusicObject).refs = intro :: anyRef loop := rfl
        rw [hnew] at hcount
        simp only [hold, List.count_nil, List.count_append, count_cons_if] at hcount ⊢
        omega

/-! ## Requests -/

/-- The holds after a request that was answered with `resp`. -/
def holdsAfter (svc : AudioService) (held : AudioObjHandle → Bool) (resp : AudioResponse) :
    AudioRequest → AudioObjHandle → Bool
  | .poolAlloc .. | .loadSample .. | .loadStaged .. =>
    if resp.status = .pool .ok then setHold held resp.handle true else held
  | .poolFree h => setHold held h false
  | .sweepVm vm => sweptHolds svc.pool held (vm % 65536)
  | _ => held

/-- No hold is released twice, nor by a handle that is taken for a music object's. -/
def RequestOk (svc : AudioService) (held : AudioObjHandle → Bool) : AudioRequest → Prop
  | .poolFree h => audioPoolHandleValid svc.pool h = true → isMusicHandle h = false ∧ held h = true
  | .sweepVm vm => SweepOk svc held (vm % 65536)
  | _ => True

theorem setHold_released (hh : held h = false) : setHold held h false = held := by
  funext j
  unfold setHold
  split
  · next hj => rw [hj, hh]
  · rfl

theorem poolFree_spec (hr : Refcounted svc held) (hok : RequestOk svc held (.poolFree h)) :
    Refcounted (poolFree svc h).2 (setHold held h false) := by
  unfold poolFree
  cases hmusic : isMusicHandle h with
  | true =>
    have hheld : held h = false := by
      by_contra hne
      rw [(hok (hr.valid ((Bool.not_eq_false _).mp hne))).1] at hmusic
      cases hmusic
    rw [if_pos rfl, setHold_released hheld]
    cases hres : resolveMusic svc h with
    | none => exact hr
    | some i =>
      unfold resolveMusic at hres
      cases hunpack : unpackMusic h with
      | none =>
        rw [hunpack] at hres
        cases hres
      | some sg =>
        rw [hunpack] at hres
        simp only [Option.ite_none_right_eq_some, Option.some.injEq] at hres
        obtain ⟨⟨hi, huse, -⟩, rfl⟩ := hres
        exact freeMusic_spec hr hi huse
  | false =>
    rw [if_neg Bool.false_ne_true]
    cases hheld : held h with
    | true => exact hr.unhold hheld
    | false =>
      -- the handle names nothing, or its creator would still hold it
      have hdead : resolve svc.pool h = none := by
        by_contra hlive
        have hvalid := (hok (Option.isSome_iff_ne_none.mpr hlive)).2
        rw [hheld] at hvalid
        cases hvalid
      rw [setHold_released hheld]
      unfold audioPoolUnref
      rw [hdead]
      exact hr

theorem loadStaged_spec (size ownerVm sampleRate : Nat) (pcm : List Byte)
    (hr : Refcounted svc held) :
    Refcounted (loadStaged svc size ownerVm sampleRate pcm).2
      (if (loadStaged svc size ownerVm sampleRate pcm).1.status = .pool .ok then
        setHold held (loadStaged svc size ownerVm sampleRate pcm).1.handle true else held) := by
  have hspec : Refcounted
      { svc with pool := (audioPoolAllocWithRate svc.pool size ownerVm sampleRate).2.2 }
      (if (audioPoolAllocWithRate svc.pool size ownerVm sampleRate).1 = .ok then
        setHold held (audioPoolAllocWithRate svc.pool size ownerVm sampleRate).2.1 true
      else held) := by
    obtain ⟨hstatus, hhandle, hlive⟩ := audioPoolAllocWithRate_live
    exact allocated_spec hr hstatus hhandle hlive
  unfold loadStaged
  split
  · exact hr
  · generalize audioPoolAllocWithRate svc.pool size ownerVm sampleRate = res at hspec ⊢
    obtain ⟨r, h, pool⟩ := res
    cases r with
    | ok =>
      have hsame := audioPoolWrite_same pool h 0 (pcm.take size)
      exact hspec.of_pool (hspec.counts.congr_live hsame.liveCount)
    | _ => exact hspec

theorem allocated_holds (svc : AudioService) (held : AudioObjHandle → Bool)
    (res : AudioPoolResult × AudioObjHandle × AudioPool) :
    (if (allocated svc res).1.status = .pool .ok then setHold held (allocated svc res).1.handle true
      else held) = if res.1 = .ok then setHold held res.2.1 true else held := by
  obtain ⟨r, h, pool⟩ := res
  cases r <;> rfl

theorem poolAlloc_spec (size ownerVm : Nat) (hr : Refcounted svc held) :
    Refcounted (allocated svc (audioPoolAlloc svc.pool size ownerVm)).2
      (if (allocated svc (audioPoolAlloc svc.pool size ownerVm)).1.status = .pool .ok then
        setHold held (allocated svc (audioPoolAlloc svc.pool size ownerVm)).1.handle true
      else held) := by
  rw [allocated_holds]
  exact allocated_spec hr rfl rfl fun _ => rfl

theorem handleOne_spec (env : SinkEnv) (req : AudioRequest) (hr : Refcounted svc held)
    (hok : RequestOk svc held req) :
    Refcounted (handleOne svc env req).2 (holdsAfter svc held (handleOne svc env req).1 req) := by
  cases req with
  | poolAlloc size ownerVm | loadSample size ownerVm => exact poolAlloc_spec size _ hr
  | poolFree h => exact poolFree_spec hr hok
  | triggerSfx object ownerVm => exact audioArbiterPlay_spec hr
  | loadMusic intro loop ownerVm => exact loadMusic_spec intro loop _ hr
  | playMusic h ownerVm =>
    have hstate : Refcounted (handleOne svc env (.playMusic h ownerVm)).2 held := by
      unfold handleOne
      dsimp only
      cases resolveMusic svc h with
      | none => exact hr
      | some slot => exact audioArbiterPlay_spec hr
    exact hstate
  | streamWav len ownerVm =>
    have hstate : Refcounted (handleOne svc env (.streamWav len ownerVm)).2 held := by
      unfold handleOne
      dsimp only
      split
      · exact hr
      · exact audioArbiterPlayExternal_spec hr
    exact hstate
  | loadStaged size ownerVm sampleRate pcm => exact loadStaged_spec size _ sampleRate pcm hr
  | fftEnable vm want =>
    have hstate : Refcounted (fftEnable svc vm want) held := by
      unfold fftEnable
      dsimp only
      split
      · split
        · exact ⟨hr.accounted, hr.wired.1, hr.wired.2, hr.wired.3⟩
        · exact hr
      · exact ⟨hr.accounted, hr.wired.1, hr.wired.2, hr.wired.3⟩
    exact hstate
  | voiceStop voice => exact audioArbiterStop_spec hr
  | sweepVm vmId => exact audioServiceSweepVm_spec hr hok
  | pcmStreamOpen rate channels ownerVm =>
    have hstate : Refcounted (handleOne svc env (.pcmStreamOpen rate channels ownerVm)).2 held := by
      unfold handleOne
      dsimp only
      split
      · exact hr
      · exact audioArbiterPlayExternal_spec hr
    exact hstate
  | fmvOpen ownerVm => exact audioArbiterPlayExternal_spec hr
  | quiet => exact hr

/-! ## Runs -/

/-- What happens to the service: a request, the reaping of drained effects, a hold of the meter. -/
inductive AudioEvent
  | request (env : SinkEnv) (req : AudioRequest)
  | reap (isDone : Nat → Bool)
  | fftHold (on : Bool)

/-- The service and, for the record, the creators' holds. -/
structure Audited where
  svc : AudioService
  held : AudioObjHandle → Bool

def audioStep (a : Audited) : AudioEvent → Audited
  | .request env req =>
    let (resp, svc) := handleOne a.svc env req
    ⟨svc, holdsAfter a.svc a.held resp req⟩
  | .reap isDone => { a with svc := audioArbiterReap a.svc isDone }
  | .fftHold on => { a with svc := audioServiceFftHold a.svc on }

def AudioEventOk (a : Audited) : AudioEvent → Prop
  | .request _ req => RequestOk a.svc a.held req
  | _ => True

/-- A service over a pool of `regionSize` bytes; nothing is held. -/
def auditedInit (region : Mem) (regionSize trackCount : Nat) (staging : Option Nat)
    (fileReader : Bool) : Audited :=
  ⟨audioServiceCreate (audioPoolInit region regionSize).2 trackCount staging fileReader,
    fun _ => false⟩

/-- The invariant of a run. -/
def Audited.Counted (a : Audited) : Prop := Refcounted a.svc a.held

theorem auditedInit_counted (region : Mem) (regionSize trackCount : Nat) (staging : Option Nat)
    (fileReader : Bool) :
    (auditedInit region regionSize trackCount staging fileReader).Counted := by
  obtain ⟨a, ha⟩ : ∃ a, auditedInit region regionSize trackCount staging fileReader = a := ⟨_, rfl⟩
  have hslots : ∀ i, (a.svc.musicSlots i).inUse = false ∧ (a.svc.musicSlots i).isFmv = false := by
    intro i
    rw [← ha]
    exact ⟨rfl, rfl⟩
  have hmusic : ∀ i, (a.svc.musicObjs i).refs = [] := by
    intro i
    rw [← ha]
    rfl
  have htracks : ∀ t, (a.svc.arbiter.tracks t).refs = [] := by
    intro t
    rw [← ha]
    rfl
  have hobjects : ∀ s, (a.svc.pool.objects s).inUse = false := by
    intro s
    rw [← ha]
    unfold auditedInit audioServiceCreate audioPoolInit
    dsimp only
    split <;> rfl
  have hheld : a.held = fun _ => false := by
    rw [← ha]
    rfl
  rw [ha]
  refine ⟨fun h => ?_, fun i _ huse => ?_, fun i _ j _ huse => ?_, fun i _ _ => (hslots i).2⟩
  · have hdead : resolve a.svc.pool h = none := by
      rw [Option.eq_none_iff_forall_ne_some]
      intro s hs
      have huse := (resolve_eq_some.mp hs).2.1
      rw [hobjects s] at huse
      cases huse
    have hrefs : a.svc.refs = [] := by
      rw [List.eq_nil_iff_forall_not_mem]
      intro j hj
      simp only [AudioService.refs, List.mem_append, mem_tally, hmusic, htracks,
        List.not_mem_nil, and_false, exists_false, false_or] at hj
      obtain ⟨i, -, hmem⟩ := hj
      simp [MusicSlot.refs, (hslots i).1] at hmem
    rw [liveCount_eq_none.mpr hdead, hheld, hrefs]
    rfl
  · rw [(hslots i).1] at huse
    cases huse
  · rw [(hslots i).1] at huse
    cases huse

theorem audioStep_counted {a : Audited} {e : AudioEvent} (hr : a.Counted)
    (hok : AudioEventOk a e) : (audioStep a e).Counted := by
  cases e with
  | request env req => exact handleOne_spec env req hr hok
  | reap isDone => exact audioArbiterReap_spec hr
  | fftHold on => exact ⟨hr.accounted, hr.wired.1, hr.wired.2, hr.wired.3⟩

/-- As long as no hold is released twice, an object's count is its creator's hold and its uses: it
is there as long as it is held or used, and no longer. -/
theorem run_counts_references (region : Mem) (regionSize trackCount : Nat) (staging : Option Nat)
    (fileReader : Bool) {es : List AudioEvent} {a : Audited}
    (hok : Meets (fun a e => some (audioStep a e)) AudioEventOk
      (auditedInit region regionSize trackCount staging fileReader) es)
    (hrun : run (fun a e => some (audioStep a e))
      (auditedInit region regionSize trackCount staging fileReader) es = some a)
    (h : AudioObjHandle) :
    liveCount a.svc.pool h = if (a.held h).toNat + a.svc.refs.count h = 0 then none
      else some (((a.held h).toNat + a.svc.refs.count h : Nat) : Int) := by
  have hstep : ∀ a e a', a.Counted → AudioEventOk a e → some (audioStep a e) = some a' →
      a'.Counted := by
    intro a e a' hr he hnext
    cases hnext
    exact audioStep_counted hr he
  have hinit := auditedInit_counted region regionSize trackCount staging fileReader
  have hr : a.Counted := run_invariant hstep hinit hok hrun
  exact Refcounted.counts hr h

/-! ### A sample that is freed while it plays -/

/-- A pool of two blocks. -/
def demoService : Audited := auditedInit (fun _ => 0) (2 * audioPoolBlockSize) 4 none false

def demoSink : SinkEnv := ⟨true, true⟩

/-- The handle of the first object. -/
def demoSample : AudioObjHandle := packHandle 0 1

def playSample : List AudioEvent :=
  [.request demoSink (.loadSample 100 1), .request demoSink (.triggerSfx demoSample 1),
    .request demoSink (.poolFree demoSample)]

theorem playSample_meets :
    Meets (fun a e => some (audioStep a e)) AudioEventOk demoService playSample := by
  refine ⟨trivial, fun a₁ h₁ => ⟨trivial, fun a₂ h₂ => ⟨fun _ => ?_, fun _ _ => trivial⟩⟩⟩
  obtain rfl := Option.some.inj h₁
  obtain rfl := Option.some.inj h₂
  decide +kernel

/-- Freed for its creator, the sample plays on with one reference. -/
theorem run_counts_references_playing : ∃ a,
    run (fun a e => some (audioStep a e)) demoService playSample = some a ∧
    liveCount a.svc.pool demoSample =
      if (a.held demoSample).toNat + a.svc.refs.count demoSample = 0 then none
      else some (((a.held demoSample).toNat + a.svc.refs.count demoSample : Nat) : Int) :=
  ⟨_, run_total audioStep demoService playSample,
    run_counts_references _ _ _ _ _ playSample_meets (run_total audioStep demoService playSample)
      demoSample⟩

/-- A second free takes the track's reference: the object is gone and the track still plays it. -/
theorem double_free_drops_track : ∃ a,
    run (fun a e => some (audioStep a e)) demoService
      (playSample ++ [.request demoSink (.poolFree demoSample)]) = some a ∧
    (a.svc.arbiter.tracks 0).active = true ∧ (a.svc.arbiter.tracks 0).object = demoSample ∧
    a.svc.refs.count demoSample = 1 ∧ liveCount a.svc.pool demoSample = none :=
  ⟨_, run_total audioStep demoService _, by decide +kernel⟩

end Microgarbage.Audio
