import Microgarbage.Cart.FrameRun
import Microgarbage.Cart.Packing
import Microgarbage.Cart.Ppu

/-!
# A clean slate on the console

The VRAM clear of a clean slate is put into a slot of the window, and the sub-frame that a commit
activates is written over it. What a frame sends after a clean slate does not depend on the history
before it, and the VRAM that it does not address does: it keeps what the history left there.
-/

namespace Microgarbage.Cart

open Lib CartWindow

namespace Book

/-- The book without the payload buffer. -/
def withoutBytes (b : Book) : Book := { b with hostPayload := fun _ => 0 }

variable {b b' : Book}

theorem stage_withoutBytes (b : Book) (r : DmaRequest) :
    (b.stage r).withoutBytes = (b.withoutBytes.stage r).withoutBytes := by
  have hsame : b.withoutBytes.Accepts r ↔ b.Accepts r := Iff.rfl
  by_cases h : b.Accepts r
  · rw [stage_of_accepts h, stage_of_accepts (hsame.mpr h)]
    rfl
  · rw [stage_of_not h, stage_of_not fun hc => h (hsame.mp hc)]
    rfl

/-- Which slots a transfer gets does not depend on the bytes in the buffer. -/
theorem stage_congr (h : b'.withoutBytes = b.withoutBytes) (r : DmaRequest) :
    (b'.stage r).withoutBytes = (b.stage r).withoutBytes := by
  rw [stage_withoutBytes b', stage_withoutBytes b, h]

theorem foldl_stage_congr (h : b'.withoutBytes = b.withoutBytes) (rs : List DmaRequest) :
    (rs.foldl Book.stage b').withoutBytes = (rs.foldl Book.stage b).withoutBytes := by
  induction rs generalizing b b' with
  | nil => exact h
  | cons r rs ih => exact ih (stage_congr h r)

end Book

/-- The calls between a clean slate and a commit: shadows, palette and uploads. -/
def MgCall.Draws : MgCall → Prop
  | .shadow _ | .chrUpload .. | .chrUploadTransient .. => True
  | _ => False

namespace Copro

variable {c c' : Copro}

/-! ## What a clean slate makes equal -/

/-- Two states that build the same frames, apart from bytes that are not staged. -/
structure Alike (c c' : Copro) : Prop where
  state : c'.state = c.state
  pending : c'.pending = c.pending
  cgram : c'.cgramReuploadFrames = c.cgramReuploadFrames
  bg : c'.bgReuploadFrames = c.bgReuploadFrames
  book : c'.book.withoutBytes = c.book.withoutBytes

theorem queueDma_again (src : List Byte) (bbus dmap : Byte) (prep : BitVec 16) :
    (c.queueDma src bbus dmap prep).2.cgramReuploadFrames = c.cgramReuploadFrames ∧
      (c.queueDma src bbus dmap prep).2.bgReuploadFrames = c.bgReuploadFrames := by
  rcases queueDma_cases c src bbus dmap prep with heq | heq
  · rw [heq]
    exact ⟨rfl, rfl⟩
  · rw [heq]
    rcases stageDma_cases c src bbus dmap prep with ⟨heq, -⟩ | ⟨heq, -⟩
    · rw [heq]
      exact ⟨rfl, rfl⟩
    · rw [heq]
      exact ⟨rfl, rfl⟩

theorem Alike.ppuCleanSlate (h : c'.pending = c.pending) :
    Alike c.ppuCleanSlate c'.ppuCleanSlate := by
  have hstate : ∀ c : Copro, c.ppuCleanSlate.state =
      { MgState.reset with cgramDirty := ⟨0, mgCgramBytes⟩ } := fun _ => rfl
  have hpending : ∀ c : Copro, c.ppuCleanSlate.pending = c.pending := fun _ => rfl
  have hcgram : ∀ c : Copro, c.ppuCleanSlate.cgramReuploadFrames = 3 := fun _ => rfl
  have hbg : ∀ c : Copro, c.ppuCleanSlate.bgReuploadFrames = 60 := fun _ => rfl
  have hbook : ∀ c : Copro, c.ppuCleanSlate.book = .cleared (c.hostPayload.copy 0 [0, 0]) 2 1 :=
    fun _ => rfl
  refine ⟨?_, ?_, ?_, ?_, ?_⟩
  · rw [hstate, hstate]
  · rw [hpending, hpending, h]
  · rw [hcgram, hcgram]
  · rw [hbg, hbg]
  · rw [hbook, hbook]
    rfl

namespace Alike

theorem queueDma (h : Alike c c') (r : DmaRequest) :
    Alike (c.queueDma r.bytes r.bbus r.dmap r.prep).2 (c'.queueDma r.bytes r.bbus r.dmap r.prep).2 := by
  obtain ⟨hcgram, hbg⟩ := queueDma_again (c := c) r.bytes r.bbus r.dmap r.prep
  obtain ⟨hcgram', hbg'⟩ := queueDma_again (c := c') r.bytes r.bbus r.dmap r.prep
  obtain ⟨hstate, hpending⟩ := queueDma_rest (c := c) r.bytes r.bbus r.dmap r.prep
  obtain ⟨hstate', hpending'⟩ := queueDma_rest (c := c') r.bytes r.bbus r.dmap r.prep
  refine ⟨?_, ?_, ?_, ?_, ?_⟩
  · rw [hstate', hstate, h.state]
  · rw [hpending', hpending, h.pending]
  · rw [hcgram', hcgram, h.cgram]
  · rw [hbg', hbg, h.bg]
  · have hslots : c'.slotUsed = c.slotUsed := congrArg Book.slotUsed h.book
    have hused : c'.payloadUsed = c.payloadUsed := congrArg Book.payloadUsed h.book
    have hstaged : c'.staged = c.staged := congrArg Book.staged h.book
    have hstage := Book.stage_congr h.book r
    rw [queueDma_book, queueDma_book, hslots, hused, hstaged]
    split
    · exact congrArg Book.checkpoint hstage
    · exact h.book

theorem chrUpload (h : Alike c c') (vramWord bytes : BitVec 16) (src : GuestBytes) :
    Alike (c.chrUpload vramWord bytes src).2 (c'.chrUpload vramWord bytes src).2 := by
  unfold Copro.chrUpload chrUploadVia
  split
  · exact h
  · split
    · exact h
    · rename_i src
      exact h.queueDma ⟨readBytes src bytes.toNat, vramWord, bbusVmdatal, dmap2b2r⟩

theorem chrUploadTransient (h : Alike c c') (vramWord bytes : BitVec 16) (src : GuestBytes) :
    Alike (c.chrUploadTransient vramWord bytes src).2 (c'.chrUploadTransient vramWord bytes src).2 := by
  have hused : c'.pendingBufUsed = c.pendingBufUsed := by
    unfold pendingBufUsed
    rw [h.pending]
  unfold Copro.chrUploadTransient chrUploadVia
  split
  · exact h
  · split
    · exact h
    · unfold queueDmaTransient
      dsimp only
      rw [h.pending, hused]
      split
      · exact h
      · split
        · exact h
        · exact { h with pending := rfl }

theorem call (h : Alike c c') {mg : MgCall} (hd : mg.Draws) {r : Word × Copro}
    (hr : mg.apply c = some r) : ∃ r', mg.apply c' = some r' ∧ Alike r.2 r'.2 := by
  cases mg with
  | shadow call =>
    obtain ⟨x, hx, rfl⟩ := Option.map_eq_some_iff.mp hr
    refine ⟨(x.1, { c' with state := x.2 }), ?_, rfl, h.pending, h.cgram, h.bg, h.book⟩
    simp only [MgCall.apply, h.state, hx, Option.map_some]
  | chrUpload vramWord bytes src =>
    cases hr
    exact ⟨_, rfl, h.chrUpload vramWord bytes src⟩
  | chrUploadTransient vramWord bytes src =>
    cases hr
    exact ⟨_, rfl, h.chrUploadTransient vramWord bytes src⟩
  | _ => exact hd.elim

theorem stageFrame_staged (h : Alike c c') : c'.stageFrame.staged = c.stageFrame.staged := by
  have hstate : c'.prepareFrame.state = c.prepareFrame.state := by
    rw [prepareFrame_state, prepareFrame_state, h.state, h.cgram, h.bg]
  have hrequests : c'.prepareFrame.frameRequests = c.prepareFrame.frameRequests := by
    unfold frameRequests
    rw [hstate, prepareFrame_book.2.2, prepareFrame_book.2.2, h.pending]
  have hrewind : c'.book.rewind.withoutBytes = c.book.rewind.withoutBytes :=
    congrArg Book.rewind h.book
  have hbook := Book.foldl_stage_congr hrewind c.prepareFrame.frameRequests
  have hstage := (stageFrame_book (c := c)).1
  have hstage' := (stageFrame_book (c := c')).1
  rw [hrequests] at hstage'
  have hstaged : ∀ d d' : Copro, d'.book.withoutBytes = d.book.withoutBytes → d'.staged = d.staged :=
    fun _ _ hd => congrArg Book.staged hd
  rw [← hstage, ← hstage'] at hbook
  exact hstaged _ _ hbook

end Alike

/-! ## A commit onto an idle console -/

/-- No frame is in flight. -/
structure Idle (c : Copro) : Prop where
  active : c.activeValid = false
  queued : c.queuedValid = false
  inFlight : c.inFlight = 0

theorem Idle.of_pipe (h : Idle c) (hp : c'.pipe = c.pipe) : Idle c' := by
  refine ⟨(congrArg Pipe.activeValid hp).trans h.active, (congrArg Pipe.queuedValid hp).trans h.queued,
    ?_⟩
  have hflight : c'.inFlight = c.inFlight :=
    congrArg (fun p : Pipe => p.frameStaged - p.frameConsumed) hp
  exact hflight.trans h.inFlight

theorem Idle.ppuCleanSlate (h : Idle c) : Idle c.ppuCleanSlate := by
  have hpipe := ppuCleanSlate_pipe (c := c)
  rw [mgStateReset_pipe] at hpipe
  generalize c.ppuCleanSlate = d at hpipe ⊢
  refine ⟨congrArg Pipe.activeValid hpipe, congrArg Pipe.queuedValid hpipe, ?_⟩
  have hflight : d.inFlight = c.inFlight :=
    congrArg (fun p : Pipe => p.frameStaged - p.frameConsumed) hpipe
  exact hflight.trans h.inFlight

theorem Idle.not_dropped (h : Idle c) (byte : Byte) : ¬ c.CommitDropped byte := by
  rintro ⟨-, hfull⟩
  rw [h.inFlight] at hfull
  unfold pipelineMaxInflight at hfull
  split at hfull <;> exact absurd hfull (by decide)

theorem step_of_apply {mg : MgCall} {r : Word × Copro} (hr : mg.apply c = some r) :
    c.step (.call mg) = some r.2 := by
  have happly : (CartEvent.call mg).apply c = some r := hr
  unfold Copro.step
  rw [happly]
  rfl

/-- After a clean slate on an idle console: the palette is sent, whatever is drawn. -/
structure Cleaned (c : Copro) : Prop where
  idle : c.Idle
  staging : c.StagingOk
  kept : ∃ j, Kept c j
  palette : 0 < c.cgramReuploadFrames

namespace Cleaned

theorem ppuCleanSlate (h : Idle c) (hk : ∃ j, Kept c j) : Cleaned c.ppuCleanSlate := by
  obtain ⟨j, hj⟩ := hk
  have hthree : c.ppuCleanSlate.cgramReuploadFrames = 3 := rfl
  refine ⟨h.ppuCleanSlate, .ppuCleanSlate, ⟨_, hj.ppuCleanSlate⟩, ?_⟩
  rw [hthree]
  decide

theorem call (h : Cleaned c) {mg : MgCall} (hd : mg.Draws) {r : Word × Copro}
    (hr : mg.apply c = some r) : Cleaned r.2 := by
  have hstep := step_of_apply hr
  obtain ⟨j, hj⟩ := h.kept
  have hpipe : r.2.pipe = c.pipe :=
    call_pipe hr (fun byte hb => by subst hb; exact hd) (fun hb => by subst hb; exact hd)
  refine ⟨h.idle.of_pipe hpipe, h.staging.step hstep, ⟨_, hj.step hstep⟩, ?_⟩
  have hagain : r.2.cgramReuploadFrames = c.cgramReuploadFrames := by
    cases mg with
    | shadow call =>
      obtain ⟨x, hx, rfl⟩ := Option.map_eq_some_iff.mp hr
      rfl
    | chrUpload vramWord bytes src =>
      cases hr
      rcases chrUploadVia_cases c _ bytes src with heq | ⟨bs, heq⟩
      · exact congrArg cgramReuploadFrames heq
      · exact (congrArg cgramReuploadFrames heq).trans (queueDma_again ..).1
    | chrUploadTransient vramWord bytes src =>
      cases hr
      rcases chrUploadTransient_cases c vramWord bytes src with heq | ⟨p, -, -, heq⟩
      · exact congrArg cgramReuploadFrames heq
      · rw [heq]
    | _ => exact hd.elim
  rw [hagain]
  exact h.palette

theorem stageFrame (h : Cleaned c) : c.stageFrame.staged ≠ [] ∧
    c.stageFrame.payloadUsed ≤ payloadBytes ∧
      Packed c.stageFrame.staged (pack c.stageFrame.staged) ∧
        (c.stageFrame.staged.map StagedSlot.transferBytes).sum < vramBytes := by
  have hne : c.stageFrame.staged ≠ [] := fun hnil =>
    ((stageFrame_nil h.staging).mp hnil).cgram (.inr h.palette)
  obtain ⟨j, hj⟩ := h.kept
  have hbook : (c.frameCommit 1).2.book = c.stageFrame.book := by
    have hready : ∀ c : Copro, (c.setFrameReady 1).book = c.book := fun _ => rfl
    unfold Copro.frameCommit
    rw [if_neg (h.idle.not_dropped 1), hready]
    exact buildFrame_rest.1
  have hafter := hj.frameCommit 1
  generalize (c.frameCommit 1).2 = e at hbook hafter
  generalize c.stageFrame = d at hne hbook ⊢
  have hstaged : e.staged = d.staged := congrArg Book.staged hbook
  have hcount := hafter.staged_le
  have hok := hafter.book
  rw [hstaged] at hcount
  rw [hbook] at hok
  have hused : d.payloadUsed ≤ payloadBytes := hok.used
  have hsum := hok.laid.sum_le (Nat.lt_of_le_of_lt hused (by decide))
  rw [Nat.zero_add] at hsum
  have hbytes : (d.staged.map StagedSlot.transferBytes).sum ≤ payloadBytes :=
    Nat.le_trans hsum hused
  exact ⟨hne, hused, packed_pack hne hcount hbytes, Nat.lt_of_le_of_lt hbytes (by decide)⟩

end Cleaned

/-- The pipeline after a commit onto an idle console. -/
def committedPipe (c : Copro) (byte : Byte) : Pipe :=
  { c.pipe with
    frameReady := byte
    frameStaged := if byte ≠ 0 then c.pipe.frameStaged + 1 else c.pipe.frameStaged
    activeValid := true
    subframes := pack c.stageFrame.staged
    subframeIndex := 0 }

theorem Idle.frameCommit (h : Idle c) (hfit : c.stageFrame.payloadUsed ≤ payloadBytes)
    (hne : c.stageFrame.staged ≠ []) (byte : Byte) :
    (c.frameCommit byte).2.pipe = c.committedPipe byte ∧
      ∃ f : FrameData, (c.frameCommit byte).2.cart.Holds f 0 ∧
        f.payload = c.stageFrame.hostPayload.bytes 0 c.stageFrame.payloadUsed ∧
          f.subframes = pack c.stageFrame.staged := by
  have hcommit : (c.frameCommit byte).2 = c.buildFrame.setFrameReady byte := by
    unfold Copro.frameCommit
    rw [if_neg (h.not_dropped byte)]
  have hidle : Idle c.stageFrame := h.of_pipe stageFrame_pipe
  rw [hcommit]
  constructor
  · have hactive : ¬ c.pipe.activeValid = true := fun ha => Bool.false_ne_true (h.active.symm.trans ha)
    rw [setFrameReady_pipe, buildFrame_pipe, if_neg hne, if_neg hactive]
    unfold committedPipe
    generalize c.pipe = p
    generalize pack c.stageFrame.staged = frames
    rfl
  unfold buildFrame
  generalize c.stageFrame = d at *
  have hflush : d.flushSubframes = d.packQueued.snapshotPayload.activateQueued := by
    unfold flushSubframes publishFrame
    rw [if_neg hne, if_neg]
    exact fun hactive => Bool.false_ne_true (hidle.active.symm.trans hactive)
  have hholds := activateQueued_holds (c := d.packQueued.snapshotPayload) hfit (pack_ne_nil _)
  have hpayload : d.packQueued.snapshotPayload.queuedFrame.payload =
      d.hostPayload.bytes 0 d.payloadUsed := by
    refine Mem.bytes_congr fun i hi => ?_
    have hin := Mem.overlay_in (m := d.queuedHold) (f := d.hostPayload) (Nat.zero_le (0 + i))
      (Nat.add_lt_add_left hi 0)
    exact hin
  have hlen : (d.packQueued.snapshotPayload.queuedFrame).payload.length ≤ payloadBytes := by
    rw [hpayload, Mem.length_bytes]
    exact hfit
  rw [hflush]
  refine ⟨d.packQueued.snapshotPayload.queuedFrame, Holds.agree hholds hlen ?_, hpayload, rfl⟩
  unfold Copro.setFrameReady CartWindow.setFrameReady
  dsimp only [rememberSlots]
  split
  · have hl := layout
    have hsiphon : offSiphonConfig = 31163 := rfl
    refine loadBlob_agree fun a ha => .inl ?_
    omega
  · exact .refl

theorem frameRequests_of_clean (hcgram : ¬ c.SendsCgram) (hoam : ¬ c.state.oamDirty.Dirty)
    (hbg : ∀ i, ¬ c.SendsBg i) : c.prepareFrame.frameRequests = c.pending := by
  obtain ⟨hcgram', hoam', hbg'⟩ := prepareFrame_sends (c := c)
  have hlayer : ∀ i, c.prepareFrame.state.layerRequest i = [] :=
    fun i => if_neg fun hl => hbg i ((hbg' i).mp hl)
  have hlayers : (List.finRange 4).flatMap c.prepareFrame.state.layerRequest = [] :=
    List.flatMap_eq_nil_iff.mpr fun i _ => hlayer i
  have hpalette : c.prepareFrame.state.cgramRequest = [] := if_neg (hcgram'.mpr hcgram)
  have hsprites : c.prepareFrame.state.oamRequest = [] := if_neg (hoam'.symm ▸ hoam)
  unfold frameRequests
  rw [hpalette, hsprites, hlayers, prepareFrame_book.2.2]
  rfl

end Copro

namespace Snes

variable {s s' : Snes}

/-! ## A history that leaves one word behind -/

/-- A word of ones is uploaded to a place in VRAM, and its frame is consumed. -/
def leaveWord (w : BitVec 16) : List Event :=
  [.call (.frameCommit 1), .burst, .call (.chrUploadTransient w 2 (some fun _ => 0xFF)),
    .call (.frameCommit 1), .burst]

/-- After the first commit is consumed, nothing is dirty and nothing is staged. -/
structure Settled (c : Copro) : Prop where
  idle : c.Idle
  cgram : ¬ c.SendsCgram
  oam : ¬ c.state.oamDirty.Dirty
  bg : ∀ i, ¬ c.SendsBg i
  book : c.payloadCheckpoint = 0 ∧ c.stagedCheckpoint = 0 ∧ c.slotCheckpoint = 0
  pending : c.pending = []

theorem exists_settled (noCommitAhead : Bool) : ∃ s, Lib.run step (init noCommitAhead)
    [.call (.frameCommit 1), .burst] = some s ∧ Settled s.copro := by
  have hend : (Lib.run step (init noCommitAhead) [.call (.frameCommit 1), .burst]).map
      (fun s => decide ((s.copro.activeValid = false ∧ s.copro.queuedValid = false ∧
          s.copro.inFlight = 0) ∧
        (s.copro.state.cgramDirty = .clean ∧ s.copro.cgramReuploadFrames = 0 ∧
          s.copro.state.oamDirty = .clean) ∧
        (∀ i ∈ List.finRange 4, (s.copro.state.bg i).enabled = false) ∧
        (s.copro.payloadCheckpoint = 0 ∧ s.copro.stagedCheckpoint = 0 ∧
          s.copro.slotCheckpoint = 0) ∧ s.copro.pending.length = 0)) = some true := by
    cases noCommitAhead <;> decide +kernel
  obtain ⟨s, hrun, hs⟩ := Option.map_eq_some_iff.mp hend
  obtain ⟨⟨hactive, hqueued, hflight⟩, ⟨hcgram, hagain, hoam⟩, hbg, hbook, hpending⟩ :=
    of_decide_eq_true hs
  have hclean : ¬ DirtyRange.clean.Dirty := by decide
  refine ⟨s, hrun, ⟨hactive, hqueued, hflight⟩, ?_, hoam ▸ hclean, fun i hi => ?_, hbook,
    List.eq_nil_of_length_eq_zero hpending⟩
  · rintro (hd | hd)
    · exact hclean (hcgram ▸ hd)
    · omega
  · exact Bool.false_ne_true ((hbg i (List.mem_finRange i)).symm.trans hi.1)

/-- The state with other transients. -/
def withPending (c : Copro) (rs : List DmaRequest) : Copro := { c with pending := rs }

theorem Settled.stageFrame_book {c : Copro} (h : Settled c) {r : DmaRequest}
    (hpos : r.bytes.length ≠ 0) (hfit : r.bytes.length ≤ payloadBytes) :
    (withPending c [r]).stageFrame.book = c.book.rewind.append r := by
  have hrequests := Copro.frameRequests_of_clean (c := withPending c [r]) h.cgram h.oam h.bg
  have hbook := (Copro.stageFrame_book (c := withPending c [r])).1
  rw [hrequests] at hbook
  obtain ⟨hpayload, hstaged, -⟩ := h.book
  have haccepts : c.book.rewind.Accepts r := by
    refine ⟨?_, hpos, ?_⟩
    · have hnil : c.book.rewind.staged = [] := by
        have htake : c.book.rewind.staged = c.staged.take c.stagedCheckpoint := rfl
        rw [htake, hstaged, List.take_zero]
      rw [hnil]
      decide
    · have hused : c.book.rewind.payloadUsed = c.payloadCheckpoint := rfl
      rw [hused, hpayload, Nat.zero_add]
      exact hfit
  rw [hbook]
  exact Book.stage_of_accepts haccepts

/-- The upload that leaves the word. -/
def wordUpload (w : BitVec 16) : DmaRequest := ⟨[0xFF, 0xFF], w, bbusVmdatal, dmap2b2r⟩

theorem wordUpload_cells (w : BitVec 16) : ((wordUpload w).slotAt 0).toDmaSlot.vramCells =
    [(w.toNat % 32768 * 2, 0), (w.toNat % 32768 * 2 + 1, 1)] := by
  have hport : ((wordUpload w).slotAt 0).toDmaSlot.bbus = bbusVmdatal := rfl
  have hlen : ((wordUpload w).slotAt 0).toDmaSlot.transferBytes = 2 := rfl
  have hprep : ((wordUpload w).slotAt 0).toDmaSlot.prep = w := rfl
  have hlow : ((wordUpload w).slotAt 0).toDmaSlot.unitOffset 0 = 0 := rfl
  have hhigh : ((wordUpload w).slotAt 0).toDmaSlot.unitOffset (0 + 1) = 1 := rfl
  have hsource : ∀ i < 65536, ((wordUpload w).slotAt 0).toDmaSlot.sourceAt i = i := by
    intro i hi
    have hmode : ((wordUpload w).slotAt 0).toDmaSlot.dmap = dmap2b2r := rfl
    have hfixed : dmap2b2r.getLsbD 3 = false := by decide
    have hdown : dmap2b2r.getLsbD 4 = false := by decide
    have hsrc : ((wordUpload w).slotAt 0).toDmaSlot.src.toNat = 0 := rfl
    unfold CartDmaSlot.sourceAt
    rw [hmode, hfixed, hdown, hsrc, if_neg Bool.false_ne_true, if_neg Bool.false_ne_true, Nat.zero_add,
      Nat.mod_eq_of_lt hi]
  have hfirst := hsource 0 (by decide)
  have hsecond := hsource (0 + 1) (by decide)
  unfold CartDmaSlot.vramCells
  rw [if_pos hport, hlen, hprep]
  simp only [CartDmaSlot.cellsFrom, hlow, hhigh, hfirst, hsecond, if_true, Nat.one_ne_zero, if_false]

/-- The frame with that upload alone is one sub-frame at the start of the window. -/
theorem Settled.commit_word {c : Copro} (h : Settled c) (w : BitVec 16) :
    ((withPending c [wordUpload w]).frameCommit 1).2.pipe =
        { c.pipe with
          frameReady := 1
          frameStaged := c.pipe.frameStaged + 1
          activeValid := true
          subframes := [[(wordUpload w).slotAt 0]]
          subframeIndex := 0 } ∧
      ((withPending c [wordUpload w]).frameCommit 1).2.cart.dmaList =
          [((wordUpload w).slotAt 0).toDmaSlot] ∧
        ((withPending c [wordUpload w]).frameCommit 1).2.cart.window.bytes 0 2 =
          [0xFF, 0xFF] := by
  have hlen : (wordUpload w).bytes.length = 2 := rfl
  have hbook := h.stageFrame_book (r := wordUpload w) (by rw [hlen]; decide) (by rw [hlen]; decide)
  have hpipe : (withPending c [wordUpload w]).pipe = c.pipe := rfl
  have hidle : Copro.Idle (withPending c [wordUpload w]) := h.idle.of_pipe hpipe
  have hcommit := hidle.frameCommit
  unfold Copro.committedPipe at hcommit
  rw [hpipe] at hcommit
  obtain ⟨hcheck, hkept, -⟩ := h.book
  generalize (withPending c [wordUpload w]).stageFrame = d at hbook hcommit
  have hused : d.payloadUsed = c.payloadCheckpoint + 2 := congrArg Book.payloadUsed hbook
  have hstaged : d.staged = c.staged.take c.stagedCheckpoint ++ [(wordUpload w).slotAt
      c.payloadCheckpoint] := congrArg Book.staged hbook
  have hbytes : d.hostPayload = c.hostPayload.copy c.payloadCheckpoint [0xFF, 0xFF] :=
    congrArg Book.hostPayload hbook
  rw [hcheck] at hused hstaged hbytes
  rw [hkept, List.take_zero, List.nil_append] at hstaged
  have hpack : pack d.staged = [[(wordUpload w).slotAt 0]] := by
    rw [hstaged]
    rfl
  obtain ⟨hafter, f, hholds, hpayload, hframes⟩ := hcommit (by rw [hused]; decide)
    (by rw [hstaged]; exact List.cons_ne_nil _ _) 1
  rw [hpack] at hafter hframes
  rw [hused, hbytes] at hpayload
  have hread : f.payload = [0xFF, 0xFF] := hpayload.trans (Mem.bytes_copy c.hostPayload 0 [0xFF, 0xFF])
  refine ⟨hafter, ?_, ?_⟩
  · have hslot : ∀ i < 8, ((withPending c [wordUpload w]).frameCommit 1).2.cart.dmaSlot i =
        (([(wordUpload w).slotAt 0][i]?).map StagedSlot.toDmaSlot).getD .empty := by
      intro i hi
      unfold dmaSlot
      rw [hholds.slots i hi, hframes]
      exact CartDmaSlot.decode_bytes _
    have hfirst := hslot 0 (by decide)
    have hsecond := hslot 1 (by decide)
    have hrange : List.range 8 = [0, 1, 2, 3, 4, 5, 6, 7] := rfl
    have hport : ((wordUpload w).slotAt 0).toDmaSlot.bbus = bbusVmdatal := rfl
    unfold dmaList
    rw [hrange, List.map_cons, List.map_cons, hfirst, hsecond]
    simp [hport, CartDmaSlot.empty, bbusVmdatal]
  · have hwindow := hholds.payload
    rw [hread] at hwindow
    exact hwindow

theorem Settled.upload {c : Copro} (h : Settled c) (w : BitVec 16) :
    (c.chrUploadTransient w 2 (some fun _ => 0xFF)).2 = (withPending c [wordUpload w]) := by
  have hone : ¬ mgPendingTransientMax ≤ c.pending.length := by
    rw [h.pending]
    decide
  have hroom : ¬ mgPendingTransientBufBytes < c.pendingBufUsed + [(0xFF : Byte), 0xFF].length := by
    unfold Copro.pendingBufUsed
    rw [h.pending]
    decide
  have hqueue : (c.queueDmaTransient [0xFF, 0xFF] bbusVmdatal dmap2b2r w).2 =
      { c with pending := c.pending ++ [wordUpload w] } := by
    unfold Copro.queueDmaTransient
    rw [if_neg hone, if_neg hroom]
    rfl
  rw [h.pending] at hqueue
  exact hqueue

theorem leaveWord_vram (noCommitAhead : Bool) (w : BitVec 16) :
    ∃ s, Lib.run step (init noCommitAhead) (leaveWord w) = some s ∧ s.copro.Idle ∧
      s.copro.pending = [] ∧ ∀ b < 2, s.vram (w.toNat % 32768 * 2 + b) = 0xFF := by
  obtain ⟨s, hrun, hs⟩ := exists_settled noCommitAhead
  have hupload : step s (.call (.chrUploadTransient w 2 (some fun _ => 0xFF))) =
      some ⟨withPending s.copro [wordUpload w], s.vram⟩ := by
    have happly := congrArg (fun c : Copro => some (Snes.mk c s.vram)) (hs.upload w)
    exact happly
  obtain ⟨hpipe, hlist, hwindow⟩ := hs.commit_word w
  have hlast : ((withPending s.copro [wordUpload w]).frameCommit 1).2.pending = [] := by
    have hdropped : ¬ (withPending s.copro [wordUpload w]).CommitDropped 1 :=
      Copro.Idle.not_dropped ⟨hs.idle.active, hs.idle.queued, hs.idle.inFlight⟩ 1
    have hready : ∀ c : Copro, (c.setFrameReady 1).pending = c.pending := fun _ => rfl
    unfold Copro.frameCommit
    rw [if_neg hdropped, hready]
    exact Copro.buildFrame_rest.2.2
  have hend : Lib.run step (init noCommitAhead) (leaveWord w) =
      some (Snes.burst ⟨((withPending s.copro [wordUpload w]).frameCommit 1).2, s.vram⟩) := by
    have happ := run_append step (init noCommitAhead) [.call (.frameCommit 1), .burst]
      [.call (.chrUploadTransient w 2 (some fun _ => 0xFF)), .call (.frameCommit 1), .burst]
    have hcommit : ∀ (c : Copro) (v : Mem), Lib.run step ⟨c, v⟩ [.call (.frameCommit 1), .burst] =
        some (Snes.burst ⟨(c.frameCommit 1).2, v⟩) := fun _ _ => rfl
    rw [hrun, Option.bind_some, run_cons, hupload, Option.bind_some, hcommit] at happ
    exact happ
  refine ⟨_, hend, ?_⟩
  generalize ((withPending s.copro [wordUpload w]).frameCommit 1).2 = c at hpipe hlist hwindow hlast
  have hready : ¬ c.cart.frameReady = 0 := by
    have hone : c.cart.frameReady = 1 := congrArg Pipe.frameReady hpipe
    rw [hone]
    decide
  unfold Snes.burst
  rw [if_neg hready]
  refine ⟨?_, Copro.frameDone_rest.2.1.trans hlast, fun b hb => ?_⟩
  · have hdone : c.frameDone.pipe = _ := Copro.frameDone_pipe
    have hqueued : ¬ s.copro.pipe.queuedValid = true := fun hq =>
      Bool.false_ne_true (hs.idle.queued.symm.trans hq)
    have hflight : s.copro.pipe.frameStaged - s.copro.pipe.frameConsumed = 0 := hs.idle.inFlight
    rw [hpipe] at hdone
    unfold Pipe.frameDone at hdone
    dsimp only at hdone
    rw [if_neg (by decide), if_neg (fun hmore => absurd hmore.2 (Nat.lt_irrefl 1)), if_neg hqueued] at hdone
    refine ⟨congrArg Pipe.activeValid hdone, ?_, ?_⟩
    · have hsame : c.frameDone.queuedValid = s.copro.pipe.queuedValid := congrArg Pipe.queuedValid hdone
      exact hsame.trans hs.idle.queued
    · have hcount : c.frameDone.inFlight =
          s.copro.pipe.frameStaged + 1 - (s.copro.pipe.frameConsumed + 1) :=
        congrArg (fun p : Pipe => p.frameStaged - p.frameConsumed) hdone
      rw [hcount]
      bv_omega
  · have hbytes : ∀ i < 2, c.cart.window i = 0xFF := by
      intro i hi
      have hget := congrArg (fun l : List Byte => l.getD i 0xFF) hwindow
      obtain rfl | rfl : i = 0 ∨ i = 1 := by omega
      · exact hget
      · exact hget
    have hfirst := hbytes 0 (by decide)
    have hsecond := hbytes 1 (by decide)
    unfold CartWindow.walk
    rw [hlist, List.foldl_cons, List.foldl_nil]
    unfold CartWindow.execSlot
    rw [wordUpload_cells, List.foldl_cons, List.foldl_cons, List.foldl_nil, hfirst, hsecond]
    dsimp only
    rcases Nat.lt_succ_iff_lt_or_eq.mp hb with h0 | rfl
    · have hne : w.toNat % 32768 * 2 + b ≠ w.toNat % 32768 * 2 + 1 := by omega
      rw [Function.update_of_ne hne, Nat.lt_one_iff.mp h0]
      exact Function.update_self ..
    · rw [Function.update_self]

/-! ## Two histories -/

theorem burst_copro : s.burst.copro = s.copro.frameDone := by
  unfold Snes.burst Copro.frameDone
  split <;> rfl

theorem run_kept {noCommitAhead : Bool} {es : List Event}
    (h : Lib.run step (init noCommitAhead) es = some s) :
    s.copro.StagingOk ∧ ∃ j, s.copro.Kept j := by
  have hstep : ∀ s e s', (s.copro.StagingOk ∧ ∃ j, s.copro.Kept j) → True → step s e = some s' →
      s'.copro.StagingOk ∧ ∃ j, s'.copro.Kept j := by
    rintro s e s' ⟨hok, j, hj⟩ - hs
    cases e with
    | call mg =>
      obtain ⟨r, hr, rfl⟩ := Option.map_eq_some_iff.mp hs
      have hcopro := Copro.step_of_apply hr
      exact ⟨hok.step hcopro, _, hj.step hcopro⟩
    | burst =>
      cases hs
      rw [burst_copro]
      exact ⟨hok.frameDone, j, hj.frameDone⟩
  exact run_invariant hstep ⟨.init noCommitAhead, [], .init noCommitAhead⟩
    (Meets.of_forall (fun _ _ => trivial) _ _) h

/-- A clean slate, what is drawn behind it, and a commit. -/
def cleanFrame (mgs : List MgCall) (byte : Byte) : List Event :=
  .call .ppuCleanSlate :: mgs.map .call ++ [.call (.frameCommit byte)]

theorem run_draws {mgs : List MgCall} (hd : ∀ mg ∈ mgs, mg.Draws) (h : s.copro.Cleaned)
    (h' : s'.copro.Cleaned) (ha : Copro.Alike s.copro s'.copro) {t : Snes}
    (hrun : Lib.run step s (mgs.map .call) = some t) :
    ∃ t', Lib.run step s' (mgs.map .call) = some t' ∧ t.copro.Cleaned ∧ t'.copro.Cleaned ∧
      Copro.Alike t.copro t'.copro ∧ t.vram = s.vram ∧ t'.vram = s'.vram := by
  induction mgs generalizing s s' with
  | nil =>
    cases hrun
    exact ⟨s', rfl, h, h', ha, rfl, rfl⟩
  | cons mg mgs ih =>
    rw [List.forall_mem_cons] at hd
    rw [List.map_cons, run_cons] at hrun
    obtain ⟨u, hu, hrun⟩ := Option.bind_eq_some_iff.mp hrun
    obtain ⟨r, hr, rfl⟩ := Option.map_eq_some_iff.mp hu
    obtain ⟨r', hr', halike⟩ := ha.call hd.1 hr
    have hstep : step s' (.call mg) = some ⟨r'.2, s'.vram⟩ :=
      congrArg (Option.map fun r : Word × Copro => Snes.mk r.2 s'.vram) hr'
    have hcleaned' : (Snes.mk r'.2 s'.vram).copro.Cleaned := h'.call hd.1 hr'
    obtain ⟨t', hrun', hrest⟩ := ih hd.2 (h.call hd.1 hr) hcleaned' halike hrun
    refine ⟨t', ?_, hrest⟩
    rw [List.map_cons, run_cons, hstep]
    exact hrun'

theorem walking_commit (h : s.copro.Cleaned) (byte : Byte) :
    Walking ⟨(s.copro.frameCommit byte).2, s.vram⟩ (pack s.copro.stageFrame.staged) := by
  obtain ⟨hne, hfit, -, -⟩ := h.stageFrame
  obtain ⟨hpipe, f, hholds, hpayload, hframes⟩ := h.idle.frameCommit hfit hne byte
  have hqueued : s.copro.pipe.queuedValid = false := h.idle.queued
  unfold Copro.committedPipe at hpipe
  generalize s.copro.stageFrame = d at *
  generalize (s.copro.frameCommit byte).2 = c at *
  refine .inr ⟨f, 0, hholds, ?_, hframes, congrArg Pipe.subframes hpipe,
    congrArg Pipe.subframeIndex hpipe, congrArg Pipe.activeValid hpipe,
    (congrArg Pipe.queuedValid hpipe).trans hqueued⟩
  rw [hpayload, Mem.length_bytes]
  exact hfit

/-- For every frame behind a clean slate, there are two histories that end with different VRAM. -/
theorem clean_slate_leaves (noCommitAhead : Bool) (mgs : List MgCall) (hd : ∀ mg ∈ mgs, mg.Draws)
    (byte : Byte) (hdef : Lib.run step (init noCommitAhead) (cleanFrame mgs byte) ≠ none) :
    ∃ es es' s s', Lib.run step (init noCommitAhead) (es ++ cleanFrame mgs byte) = some s ∧
      Lib.run step (init noCommitAhead) (es' ++ cleanFrame mgs byte) = some s' ∧
        ∀ n, (burst^[n] s).vram ≠ (burst^[n] s').vram := by
  have hidle : (init noCommitAhead).copro.Idle := ⟨rfl, rfl, BitVec.sub_self _⟩
  have hkept : ∃ j, (init noCommitAhead).copro.Kept j := ⟨[], .init noCommitAhead⟩
  have hclean : (Snes.mk (init noCommitAhead).copro.ppuCleanSlate
      (init noCommitAhead).vram).copro.Cleaned := .ppuCleanSlate hidle hkept
  have hsplit : ∀ s : Snes, Lib.run step s (cleanFrame mgs byte) =
      (Lib.run step ⟨s.copro.ppuCleanSlate, s.vram⟩ (mgs.map .call)).bind fun t =>
        some ⟨(t.copro.frameCommit byte).2, t.vram⟩ := fun s =>
    run_append step ⟨s.copro.ppuCleanSlate, s.vram⟩ (mgs.map .call) [.call (.frameCommit byte)]
  obtain ⟨s, hplain⟩ := Option.ne_none_iff_exists'.mp hdef
  have hs := hplain
  rw [hsplit] at hs
  obtain ⟨t, hdraws, hcommit⟩ := Option.bind_eq_some_iff.mp hs
  cases hcommit
  obtain ⟨-, -, hcleaned, -, -, hvram, -⟩ :=
    run_draws hd hclean hclean (.ppuCleanSlate rfl) hdraws
  -- A byte of VRAM that the frame does not address, and a history that leaves ones there.
  obtain ⟨-, -, hpacked, hbytes⟩ := hcleaned.stageFrame
  obtain ⟨a, ha, hfree⟩ := exists_untouched hbytes
  obtain ⟨s₁, hleave, hidle₁, hpending₁, hword⟩ := leaveWord_vram noCommitAhead (BitVec.ofNat 16 (a / 2))
  have hsize : vramBytes = 65536 := rfl
  have haddr : (BitVec.ofNat 16 (a / 2)).toNat % 32768 * 2 + a % 2 = a := by
    rw [BitVec.toNat_ofNat]
    omega
  have hones : s₁.vram a = 0xFF := haddr ▸ hword (a % 2) (Nat.mod_lt a (by decide))
  have hclean₁ : (Snes.mk s₁.copro.ppuCleanSlate s₁.vram).copro.Cleaned :=
    .ppuCleanSlate hidle₁ (run_kept hleave).2
  have hempty : s₁.copro.pending = (init noCommitAhead).copro.pending := hpending₁
  obtain ⟨t₁, hdraws₁, -, hcleaned₁, halike, -, hvram₁⟩ :=
    run_draws hd hclean hclean₁ (.ppuCleanSlate hempty) hdraws
  have hpacked₁ := hcleaned₁.stageFrame.2.2.1
  have hrun₁ : Lib.run step (init noCommitAhead)
      (leaveWord (BitVec.ofNat 16 (a / 2)) ++ cleanFrame mgs byte) =
        some ⟨(t₁.copro.frameCommit byte).2, t₁.vram⟩ := by
    rw [run_append, hleave, Option.bind_some, hsplit, hdraws₁, Option.bind_some]
  refine ⟨[], _, _, _, hplain, hrun₁, fun n heq => ?_⟩
  have hkeeps := (walking_commit hcleaned byte).bursts n (a := a) (hpacked.all.symm ▸ hfree)
  have hkeeps₁ := (walking_commit hcleaned₁ byte).bursts n (a := a)
    (hpacked₁.all.symm ▸ halike.stageFrame_staged.symm ▸ hfree)
  have hzero : t.vram a = 0 := congrFun hvram a
  have hsame := congrFun heq a
  rw [hkeeps, hkeeps₁, hzero, hvram₁, hones] at hsame
  exact absurd hsame (by decide)

/-- An upload behind the clean slate does not help. -/
theorem clean_slate_leaves_upload : ∃ es es' s s',
    Lib.run step (init false) (es ++ cleanFrame [.chrUpload 0 2 (some fun _ => 7)] 1) = some s ∧
      Lib.run step (init false) (es' ++ cleanFrame [.chrUpload 0 2 (some fun _ => 7)] 1) = some s' ∧
        ∀ n, (burst^[n] s).vram ≠ (burst^[n] s').vram :=
  clean_slate_leaves false [.chrUpload 0 2 (some fun _ => 7)] (fun _ hm => List.mem_singleton.mp hm ▸ trivial)
    1 (Option.some_ne_none _)

/-- An empty frame behind the clean slate is consumed, and the word at `$7000` is still there. -/
theorem clean_slate_keeps_word : ∃ es s es' s',
    Lib.run step (init false) (es ++ cleanFrame [] 1 ++ [.burst, .burst]) = some s ∧
      Lib.run step (init false) (es' ++ cleanFrame [] 1 ++ [.burst, .burst]) = some s' ∧
        s.copro.activeValid = false ∧ s'.copro.activeValid = false ∧
          s.vram 0xE000 = 0 ∧ s'.vram 0xE000 = 0xFF := by
  have hplain : (Lib.run step (init false) ([] ++ cleanFrame [] 1 ++ [.burst, .burst])).map
      (fun s => s.copro.activeValid) = some false := by decide +kernel
  have hleft : (Lib.run step (init false) (leaveWord 0x7000 ++ cleanFrame [] 1 ++
      [.burst, .burst])).map (fun s => s.copro.activeValid) = some false := by decide +kernel
  have hzero : (Lib.run step (init false) ([] ++ cleanFrame [] 1 ++ [.burst, .burst])).map
      (fun s => s.vram 0xE000) = some 0 := by decide +kernel
  have hword : (Lib.run step (init false) (leaveWord 0x7000 ++ cleanFrame [] 1 ++
      [.burst, .burst])).map (fun s => s.vram 0xE000) = some 0xFF := by decide +kernel
  obtain ⟨s, hs, hidle⟩ := Option.map_eq_some_iff.mp hplain
  obtain ⟨s', hs', hidle'⟩ := Option.map_eq_some_iff.mp hleft
  rw [hs, Option.map_some, Option.some.injEq] at hzero
  rw [hs', Option.map_some, Option.some.injEq] at hword
  exact ⟨[], s, leaveWord 0x7000, s', hs, hs', hidle, hidle', hzero, hword⟩

end Snes

end Microgarbage.Cart
