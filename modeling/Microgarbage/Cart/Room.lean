import Microgarbage.Cart.Bounds

/-!
# Room in the arrays

A call stays inside the arrays when no byte behind the size of one changes and every counter that is
an index, and every dirty range, ends inside its array. A reset sets whole shadows by their size.
-/

namespace Microgarbage.Cart

open Lib Mem

namespace Copro

/-! ## Counters and lists -/

/-- The sub-frames fit the arrays of a frame. -/
def FramesFit (frames : List SubFrame) : Prop :=
  frames.length ≤ mgMaxSubframes ∧ ∀ sf ∈ frames, sf.length ≤ 8

theorem FramesFit.snoc {done : List SubFrame} {cur : SubFrame} (hlen : done.length < mgMaxSubframes)
    (hdone : ∀ sf ∈ done, sf.length ≤ 8) (hcur : cur.length ≤ 8) : FramesFit (done ++ [cur]) := by
  refine ⟨?_, fun sf hsf => ?_⟩
  · rw [List.length_append, List.length_singleton]
    exact hlen
  · rcases List.mem_append.mp hsf with hd | hs
    · exact hdone sf hd
    · exact List.mem_singleton.mp hs ▸ hcur

theorem FramesFit.packFrom (staged : List StagedSlot) {done : List SubFrame} {cur : SubFrame}
    (n : Nat) (hlen : done.length < mgMaxSubframes) (hdone : ∀ sf ∈ done, sf.length ≤ 8)
    (hcur : cur.length ≤ 8) : FramesFit (packFrom staged done cur n) := by
  induction staged generalizing done cur n with
  | nil => exact .snoc hlen hdone hcur
  | cons s rest ih =>
    have hdone' := FramesFit.snoc hlen hdone hcur
    unfold Cart.packFrom
    dsimp only
    split
    · split
      · exact hdone'
      · rename_i hroom
        refine ih _ ?_ hdone'.2 (by rw [List.length_singleton]; decide)
        rw [List.length_append, List.length_singleton]
        omega
    · rename_i hopen
      refine ih _ hlen hdone ?_
      rw [List.length_append, List.length_singleton]
      omega

/-- The part of the staging state that no earlier invariant is about. -/
structure Pools where
  pending : List PendingTransientDma
  tables : Nat
  queuedUsed : Nat
  queuedSubframes : List SubFrame
  subframes : List SubFrame

def pools (c : Copro) : Pools :=
  { c with tables := c.hdmaTablesUsed }

structure Pools.Ok (p : Pools) : Prop where
  pendingBytes : (p.pending.map (·.bytes.length)).sum ≤ mgPendingTransientBufBytes
  tables : p.tables ≤ hdmaTablesBytes
  queued : p.queuedUsed ≤ payloadBytes
  queuedFrames : FramesFit p.queuedSubframes
  frames : FramesFit p.subframes

/-- What is used as an index or a length stays inside its array. -/
structure Room (c : Copro) : Prop where
  payload : c.payloadUsed ≤ payloadBytes
  staged : c.staged.length ≤ mgMaxStagedSlots
  pending : c.pending.length ≤ mgPendingTransientMax
  pools : c.pools.Ok
  ranges : c.state.RangesOk

namespace Room

variable {c c' : Copro}

theorem noFrames : FramesFit [] := ⟨Nat.zero_le _, fun _ h => absurd h List.not_mem_nil⟩

theorem init (noCommitAhead : Bool) : (Copro.init noCommitAhead).pools.Ok :=
  ⟨Nat.zero_le _, Nat.zero_le _, Nat.zero_le _, noFrames, noFrames⟩

theorem mgStateReset (h : c.pools.Ok) : c.mgStateReset.pools.Ok :=
  ⟨h.pendingBytes, h.tables, Nat.zero_le _, noFrames, noFrames⟩

theorem stageDma_pools (src : List Byte) (bbus dmap : Byte) (prep : BitVec 16) :
    (c.stageDma src bbus dmap prep).2.pools = c.pools := by
  rcases stageDma_cases c src bbus dmap prep with ⟨heq, -⟩ | ⟨heq, -⟩
  · rw [heq]
  · rw [heq]
    rfl

theorem queueDma_pools (src : List Byte) (bbus dmap : Byte) (prep : BitVec 16) :
    (c.queueDma src bbus dmap prep).2.pools = c.pools := by
  rcases queueDma_cases c src bbus dmap prep with heq | heq
  · rw [heq]
  · rw [heq]
    exact stageDma_pools ..

theorem prepareFrame_pools : c.prepareFrame.pools = { c.pools with tables := 0 } := by
  have hrewind : c.prepareFrame.pools =
      { c.dropCleanSlate.reuploadCgram.reuploadBg.pools with tables := 0 } := rfl
  have hkept : c.dropCleanSlate.reuploadCgram.reuploadBg.pools = c.pools := by
    unfold Copro.reuploadBg Copro.reuploadCgram Copro.dropCleanSlate
    split <;> split <;> split <;> rfl
  rw [hrewind, hkept]

theorem stageFrame_pools : c.stageFrame.pools = { c.pools with pending := [], tables := 0 } := by
  have hcgram : ∀ c : Copro, c.stageCgram.pools = c.pools := by
    intro c
    have hstage := stageDma_pools (c := c) (c.state.cgramShadow.bytes c.state.cgramDirty.lo
      (c.state.cgramDirty.hi - c.state.cgramDirty.lo)) bbusCgdata dmap1b1r
      (BitVec.ofNat 16 (c.state.cgramDirty.lo / 2 % 256))
    unfold Copro.stageCgram
    dsimp only
    split
    · exact hstage
    · rfl
  have hoam : ∀ c : Copro, c.stageOam.pools = c.pools := by
    intro c
    have hstage := stageDma_pools (c := c) (c.state.oamShadow.bytes 0 mgOamBytes) bbusOamdata dmap1b1r 0
    unfold Copro.stageOam
    split
    · exact hstage
    · rfl
  have hlayer : ∀ (c : Copro) (i : Fin 4), (c.stageLayer i).pools = c.pools := by
    intro c i
    have hstage := stageDma_pools (c := c) ((c.state.bg i).shadow.bytes (c.state.bg i).dirty.lo
      ((c.state.bg i).dirty.hi - (c.state.bg i).dirty.lo)) bbusVmdatal dmap2b2r
      ((c.state.bg i).tilemapWord + BitVec.ofNat 16 ((c.state.bg i).dirty.lo / 2))
    unfold Copro.stageLayer
    dsimp only
    split
    · exact hstage
    · rfl
  have hlayers : ∀ c : Copro, c.stageLayers.pools = c.pools := fun c =>
    List.foldlRecOn (motive := fun d : Copro => d.pools = c.pools) _ _ rfl
      fun d hd i _ => (hlayer d i).trans hd
  have hflush : ∀ c : Copro, c.flushPendingTransients.pools = { c.pools with pending := [] } := by
    intro c
    have hstaged : (c.pending.foldl (fun c p => (c.stageDma p.bytes p.bbus p.dmap p.prep).2) c).pools =
        c.pools :=
      List.foldlRecOn (motive := fun d : Copro => d.pools = c.pools) _ _ rfl
        fun d hd p _ => (stageDma_pools ..).trans hd
    exact congrArg (fun p : Pools => { p with pending := [] }) hstaged
  unfold Copro.stageFrame
  rw [hflush, hlayers, hoam, hcgram, prepareFrame_pools]

theorem activateQueued (h : c.pools.Ok) : c.activateQueued.pools.Ok :=
  { h with frames := h.queuedFrames }

theorem flushSubframes (h : c.pools.Ok) (hused : c.payloadUsed ≤ payloadBytes) :
    c.flushSubframes.pools.Ok := by
  unfold Copro.flushSubframes
  split
  · split
    · exact h
    · exact { h with }
  · have hpacked : c.packQueued.snapshotPayload.pools.Ok :=
      ⟨h.pendingBytes, h.tables, hused,
        .packFrom c.staged 0 (by decide) (fun _ hm => absurd hm List.not_mem_nil) (Nat.zero_le _),
        h.frames⟩
    generalize c.packQueued.snapshotPayload = d at hpacked
    unfold publishFrame
    split
    · exact { hpacked with }
    · exact activateQueued hpacked

theorem frameCommit (h : c.pools.Ok) (hused : c.stageFrame.payloadUsed ≤ payloadBytes) (byte : Byte) :
    (c.frameCommit byte).2.pools.Ok := by
  unfold Copro.frameCommit
  split
  · exact ⟨Nat.zero_le _, Nat.zero_le _, h.queued, h.queuedFrames, h.frames⟩
  · have hstage : c.stageFrame.pools.Ok := by
      rw [stageFrame_pools]
      exact ⟨Nat.zero_le _, Nat.zero_le _, h.queued, h.queuedFrames, h.frames⟩
    have hflush := flushSubframes hstage hused
    unfold buildFrame
    generalize c.stageFrame.flushSubframes = d at hflush
    exact { hflush with }

theorem frameDone (h : c.pools.Ok) : c.frameDone.pools.Ok := by
  unfold Copro.frameDone advanceSubframe
  dsimp only
  split
  · exact h
  · split
    · exact { h with }
    · split
      · exact { h with frames := h.queuedFrames }
      · exact { h with frames := noFrames }

theorem ppuCleanSlate (h : c.pools.Ok) : c.ppuCleanSlate.pools.Ok :=
  ⟨h.pendingBytes, h.tables, Nat.zero_le _, noFrames, noFrames⟩

theorem call (h : c.pools.Ok) (hused : c.stageFrame.payloadUsed ≤ payloadBytes) {mg : MgCall}
    {r : Word × Copro} (hr : mg.apply c = some r) : r.2.pools.Ok := by
  have hsame : ∀ {c' : Copro}, c'.pools = c.pools → c'.pools.Ok := fun hp => hp ▸ h
  cases mg with
  | shadow call =>
    obtain ⟨x, -, rfl⟩ := Option.map_eq_some_iff.mp hr
    exact hsame rfl
  | chrUpload vramWord bytes src =>
    cases hr
    rcases chrUploadVia_cases c _ bytes src with heq | ⟨bs, heq⟩
    · exact hsame (congrArg Copro.pools heq)
    · exact hsame ((congrArg Copro.pools heq).trans (queueDma_pools ..))
  | chrUploadTransient vramWord bytes src =>
    cases hr
    rcases chrUploadTransient_cases c vramWord bytes src with heq | ⟨p, -, hroom, heq⟩
    · exact hsame (congrArg Copro.pools heq)
    · rw [heq]
      refine { h with pendingBytes := ?_ }
      have hgrow : ((c.pending ++ [p]).map (·.bytes.length)).sum =
          c.pendingBufUsed + p.bytes.length := by
        rw [List.map_append, List.sum_append]
        rfl
      exact hgrow ▸ hroom
  | ppuCleanSlate => cases hr; exact ppuCleanSlate h
  | frameCommit byte => cases hr; exact frameCommit h hused byte
  | _ =>
    have hl := MgCall.apply_loads hr trivial
    obtain ⟨hdma, heq⟩ := hl.rest
    have htables := hl.tables h.tables
    generalize r.2 = d at heq htables
    rw [heq]
    exact { h with tables := htables }

end Room

/-! ## Reachable states -/

theorem Kept.stageFrame_used {c : Copro} {j : List DmaRequest} (h : Kept c j) :
    c.stageFrame.payloadUsed ≤ payloadBytes := by
  have hok := (h.book.rewind.stageAll c.prepareFrame.frameRequests).1
  rw [← (stageFrame_book (c := c)).1] at hok
  generalize c.stageFrame = d at hok
  exact hok.used

/-- What every reachable state has. -/
structure Reached (c : Copro) : Prop where
  staging : c.StagingOk
  kept : ∃ j, Kept c j
  pools : c.pools.Ok

namespace Reached

variable {c c' : Copro}

theorem init (noCommitAhead : Bool) : Reached (Copro.init noCommitAhead) :=
  ⟨.init noCommitAhead, ⟨[], .init noCommitAhead⟩, Room.init noCommitAhead⟩

theorem room (h : Reached c) : c.Room := by
  obtain ⟨j, hj⟩ := h.kept
  have hstaged : c.staged.length ≤ mgMaxStagedSlots := Nat.le_trans hj.staged_le (by decide)
  exact ⟨hj.book.used, hstaged, hj.pending, h.pools, h.staging.ranges⟩

theorem step (h : Reached c) {e : CartEvent} (hs : c.step e = some c') : Reached c' := by
  obtain ⟨j, hj⟩ := h.kept
  refine ⟨h.staging.step hs, ⟨_, hj.step hs⟩, ?_⟩
  unfold Copro.step at hs
  obtain ⟨r, hr, rfl⟩ := Option.map_eq_some_iff.mp hs
  cases e with
  | call mg => exact Room.call h.pools hj.stageFrame_used hr
  | read snesAddr =>
    cases hr
    dsimp only
    unfold cartWindowRead
    dsimp only
    split
    · exact Room.frameDone h.pools
    · have hp := h.pools
      exact { hp with }
  | unload =>
    cases hr
    have hp := Room.mgStateReset h.pools
    exact { hp with }

theorem graphicsStep (h : Reached c) {e : GraphicsEvent} (hs : c.graphicsStep e = some c') :
    Reached c' := by
  cases e with
  | ecall p g e =>
    obtain ⟨r, hr, rfl⟩ := Option.map_eq_some_iff.mp hs
    rcases Guest.handle_cases hr with heq | ⟨mg, hmg⟩
    · exact heq ▸ h
    · exact h.step hmg
  | read snesAddr => exact h.step hs
  | unload => exact h.step hs

theorem run {noCommitAhead : Bool} {es : List GraphicsEvent}
    (h : Lib.run Copro.graphicsStep (.init noCommitAhead) es = some c) : Reached c :=
  run_invariant (fun _ _ _ hc _ hs => hc.graphicsStep hs) (init noCommitAhead)
    (Meets.of_forall (fun _ _ => trivial) _ _) h

end Reached

/-! ## Calls -/

/-- The shadows are set anew by their sizes. -/
def FreshShadows (st : MgState) : Prop :=
  st.oamShadow = MgState.reset.oamShadow ∧ st.cgramShadow = MgState.reset.cgramShadow ∧
    ∀ i, (st.bg i).shadow = (MgState.reset.bg i).shadow

/-- A call that goes from one state to the other stays inside the arrays. -/
structure InBounds (c c' : Copro) : Prop where
  shadows : c.state.Within c'.state ∨ FreshShadows c'.state
  payload : SameFrom payloadBytes c.hostPayload c'.hostPayload
  held : SameFrom payloadBytes c.queuedHold c'.queuedHold
  window : SameFrom cartWindowBytes c.cart.window c'.cart.window
  room : c'.Room

theorem Within.inBounds {c c' : Copro} (h : Within c c') (hr : c'.Room) : InBounds c c' :=
  ⟨.inl h.shadows, h.payload, h.held, h.window, hr⟩

theorem ppuCleanSlate_inBounds {c : Copro} (hr : c.ppuCleanSlate.Room) :
    InBounds c c.ppuCleanSlate := by
  have hclear : SameFrom cartWindowBytes c.cart.window c.cart.clearDmaSlots.window :=
    CartWindow.foldl_sameFrom _ _ fun _ _ => CartWindow.setDmaSlot_sameFrom _ _
  have hpayload : c.ppuCleanSlate.hostPayload = c.hostPayload.copy 0 [0, 0] := rfl
  refine ⟨.inr ⟨rfl, rfl, fun _ => rfl⟩, ?_, .refl, ?_, hr⟩
  · rw [hpayload]
    exact .copy (by decide)
  · exact hclear.trans (CartWindow.setDmaSlot_sameFrom _ _)

theorem call_inBounds {c : Copro} (h : Reached c) {mg : MgCall} {r : Word × Copro}
    (hr : mg.apply c = some r) : InBounds c r.2 := by
  have hstep : c.step (.call mg) = some r.2 := by
    have happly : (CartEvent.call mg).apply c = some r := hr
    unfold Copro.step
    rw [happly]
    rfl
  have hroom := (h.step hstep).room
  obtain ⟨j, hj⟩ := h.kept
  cases mg with
  | shadow call =>
    obtain ⟨x, hx, rfl⟩ := Option.map_eq_some_iff.mp hr
    exact Within.inBounds ⟨(ShadowCall.keeps hx).toWithin, .refl, .refl, .refl⟩ hroom
  | chrUpload vramWord bytes src =>
    cases hr
    refine Within.inBounds ?_ hroom
    rcases chrUploadVia_cases c _ bytes src with heq | ⟨bs, heq⟩
    · exact .of_eq heq
    · exact (Within.queueDma ..).trans (.of_eq heq)
  | chrUploadTransient vramWord bytes src =>
    cases hr
    refine Within.inBounds ?_ hroom
    rcases chrUploadTransient_cases c vramWord bytes src with heq | ⟨p, -, -, heq⟩
    · exact .of_eq heq
    · rw [heq]
      exact ⟨.refl, .refl, .refl, .refl⟩
  | ppuCleanSlate =>
    cases hr
    exact ppuCleanSlate_inBounds hroom
  | frameCommit byte =>
    cases hr
    exact Within.inBounds (.frameCommit hj.stageFrame_used byte) hroom
  | _ =>
    have hl := MgCall.apply_loads hr trivial
    obtain ⟨hdma, heq⟩ := hl.rest
    have hwindow := hl.window
    refine Within.inBounds ?_ hroom
    generalize r.2 = d at heq hwindow
    rw [heq]
    exact ⟨⟨.refl, .refl, fun _ => .refl⟩, .refl, .refl, hwindow⟩

end Copro

end Microgarbage.Cart
