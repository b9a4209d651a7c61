import Microgarbage.Cart.Book
import Microgarbage.Cart.Handlers

/-!
# Inside the arrays

Each array of the model is a memory without an end, and its size in the C code is a number. The
handlers and the building of a frame change no byte behind the size of an array.
-/

namespace Microgarbage.Cart

open Lib Mem

/-! ## The window -/

namespace CartWindow

variable {w : CartWindow}

theorem setFrameReady_sameFrom (byte : Byte) :
    SameFrom cartWindowBytes w.window (w.setFrameReady byte).window := by
  unfold setFrameReady
  dsimp only
  split
  · exact loadBlob_sameFrom (w := { w with frameReady := byte, frameStaged := w.frameStaged + 1 }) _ _
  · exact .refl

theorem foldl_sameFrom {α : Type} (f : CartWindow → α → CartWindow) (l : List α)
    (hf : ∀ w a, SameFrom cartWindowBytes w.window (f w a).window) :
    SameFrom cartWindowBytes w.window (l.foldl f w).window :=
  List.foldlRecOn (motive := fun w' : CartWindow => SameFrom cartWindowBytes w.window w'.window) l f
    .refl fun _ hw a _ => hw.trans (hf _ a)

end CartWindow

/-! ## The staging state -/

namespace Copro

/-- Nothing behind the arrays changes. -/
structure Within (c c' : Copro) : Prop where
  shadows : c.state.Within c'.state
  payload : SameFrom payloadBytes c.hostPayload c'.hostPayload
  held : SameFrom payloadBytes c.queuedHold c'.queuedHold
  window : SameFrom cartWindowBytes c.cart.window c'.cart.window

namespace Within

variable {c c' c'' : Copro}

theorem refl : Within c c := ⟨.refl, .refl, .refl, .refl⟩

theorem of_eq (h : c' = c) : Within c c' := h ▸ refl

theorem trans (h : Within c c') (h' : Within c' c'') : Within c c'' :=
  ⟨h.shadows.trans h'.shadows, h.payload.trans h'.payload, h.held.trans h'.held,
    h.window.trans h'.window⟩

theorem stageDma (src : List Byte) (bbus dmap : Byte) (prep : BitVec 16) :
    Within c (c.stageDma src bbus dmap prep).2 := by
  rcases stageDma_cases c src bbus dmap prep with ⟨heq, -⟩ | ⟨heq, -, -, hfit⟩
  · rw [heq]
    exact .refl
  · rw [heq]
    exact ⟨.refl, .copy hfit, .refl, .refl⟩

theorem queueDma (src : List Byte) (bbus dmap : Byte) (prep : BitVec 16) :
    Within c (c.queueDma src bbus dmap prep).2 := by
  rcases queueDma_cases c src bbus dmap prep with heq | heq
  · exact .of_eq heq
  · have hstage := stageDma (c := c) src bbus dmap prep
    rw [heq]
    exact { hstage with }

theorem stageCgram : Within c c.stageCgram := by
  unfold Copro.stageCgram
  dsimp only
  split
  · have hstage := stageDma (c := c) (c.state.cgramShadow.bytes c.state.cgramDirty.lo
      (c.state.cgramDirty.hi - c.state.cgramDirty.lo)) bbusCgdata dmap1b1r
      (BitVec.ofNat 16 (c.state.cgramDirty.lo / 2 % 256))
    exact { hstage with shadows := ⟨hstage.shadows.oam, hstage.shadows.cgram, hstage.shadows.bg⟩ }
  · exact .refl

theorem stageOam : Within c c.stageOam := by
  unfold Copro.stageOam
  split
  · have hstage := stageDma (c := c) (c.state.oamShadow.bytes 0 mgOamBytes) bbusOamdata dmap1b1r 0
    exact { hstage with shadows := ⟨hstage.shadows.oam, hstage.shadows.cgram, hstage.shadows.bg⟩ }
  · exact .refl

theorem stageLayer (i : Fin 4) : Within c (c.stageLayer i) := by
  unfold Copro.stageLayer
  dsimp only
  split
  · have hstage := stageDma (c := c) ((c.state.bg i).shadow.bytes (c.state.bg i).dirty.lo
      ((c.state.bg i).dirty.hi - (c.state.bg i).dirty.lo)) bbusVmdatal dmap2b2r
      ((c.state.bg i).tilemapWord + BitVec.ofNat 16 ((c.state.bg i).dirty.lo / 2))
    generalize (c.stageDma _ _ _ _).2 = c' at hstage ⊢
    have hclean : c'.state.Within (c'.state.setBg i fun bg => { bg with dirty := .clean }) := by
      refine (MgState.Keeps.setBg i .refl ?_).toWithin
      exact fun _ => Nat.zero_le _
    exact { hstage with shadows := hstage.shadows.trans hclean }
  · exact .refl

theorem ofCart {w : CartWindow} (h : SameFrom cartWindowBytes c.cart.window w.window) :
    Within c { c with cart := w } := ⟨.refl, .refl, .refl, h⟩

theorem dropCleanSlate : Within c c.dropCleanSlate := by
  unfold Copro.dropCleanSlate
  split
  · exact ⟨.refl, .refl, .refl, CartWindow.setDmaSlot_sameFrom _ _⟩
  · exact .refl

theorem clearMgSlots : Within c c.clearMgSlots := by
  refine ofCart (CartWindow.foldl_sameFrom _ _ fun w i => ?_)
  split
  · exact CartWindow.setDmaSlot_sameFrom _ _
  · exact .refl

theorem emitMode7Batch : Within c c.emitMode7Batch := by
  refine ofCart ?_
  unfold CartWindow.setMode7Batch
  refine .copy ?_
  have hlen : c.state.mode7Batch.length = 16 := rfl
  have hl : cartWindowBytes = 65536 ∧ offMode7Batch = 31136 := ⟨rfl, rfl⟩
  omega

theorem reuploadCgram : Within c c.reuploadCgram := by
  unfold Copro.reuploadCgram
  split
  · exact ⟨⟨.refl, .refl, fun _ => .refl⟩, .refl, .refl, .refl⟩
  · exact .refl

theorem reuploadBg : Within c c.reuploadBg := by
  have hlayer : ∀ bg, SameFrom mgBgTilemapBytes bg.shadow (reuploadLayer bg).shadow := by
    intro bg
    unfold reuploadLayer
    split <;> exact .refl
  unfold Copro.reuploadBg
  split
  · exact ⟨⟨.refl, .refl, fun i => hlayer (c.state.bg i)⟩, .refl, .refl, .refl⟩
  · exact .refl

theorem prepareFrame : Within c c.prepareFrame := by
  have hfirst : Within c c.dropCleanSlate.reuploadCgram.reuploadBg :=
    dropCleanSlate.trans (reuploadCgram.trans reuploadBg)
  unfold Copro.prepareFrame
  generalize c.dropCleanSlate.reuploadCgram.reuploadBg = d at hfirst
  have hrewind : Within d d.rewind.clearMgSlots.emitPpuBatch := by
    have hclear := clearMgSlots (c := d.rewind)
    exact { hclear with }
  generalize d.rewind.clearMgSlots.emitPpuBatch = e at hrewind
  have hdark : Within e e.emitInidispTable :=
    ⟨.refl, .refl, .refl, CartWindow.loadBlob_sameFrom _ _⟩
  have hhdma : Within e.emitInidispTable.emitMode7Batch e.emitInidispTable.emitMode7Batch.emitHdmaConfig :=
    ofCart (CartWindow.loadBlob_sameFrom _ _)
  exact hfirst.trans (hrewind.trans (hdark.trans (emitMode7Batch.trans hhdma)))

theorem stageFrame : Within c c.stageFrame := by
  unfold Copro.stageFrame
  have hlayers : Within c c.prepareFrame.stageCgram.stageOam.stageLayers :=
    List.foldlRecOn (motive := Within c) _ _ (prepareFrame.trans (stageCgram.trans stageOam))
      fun _ h i _ => h.trans (stageLayer i)
  generalize c.prepareFrame.stageCgram.stageOam.stageLayers = d at hlayers
  have hflush : Within c
      (d.pending.foldl (fun c p => (c.stageDma p.bytes p.bbus p.dmap p.prep).2) d) :=
    List.foldlRecOn (motive := Within c) _ _ hlayers fun _ h p _ => h.trans (stageDma ..)
  exact { hflush with }

theorem activateQueued : Within c c.activateQueued := by
  unfold Copro.activateQueued
  dsimp only
  have hblob : SameFrom cartWindowBytes c.cart.window
      (if 0 < c.queuedUsed then c.cart.loadBlob 0 (c.queuedHold.bytes 0 c.queuedUsed)
        else c.cart).window := by
    split
    · exact CartWindow.loadBlob_sameFrom _ _
    · exact .refl
  generalize (if 0 < c.queuedUsed then _ else c.cart) = w at hblob
  have hbatch : SameFrom cartWindowBytes w.window (w.setPpuBatch c.queuedPpuBatch).window := by
    have hl : cartWindowBytes = 65536 ∧ offPpuBatch = 30792 := ⟨rfl, rfl⟩
    unfold CartWindow.setPpuBatch
    refine .copy ?_
    rw [PpuBatch.length_bytes]
    omega
  exact ⟨.refl, .refl, .refl, hblob.trans (hbatch.trans
    (CartWindow.foldl_sameFrom _ _ fun _ _ => CartWindow.setDmaSlot_sameFrom _ _))⟩

theorem flushSubframes (h : c.payloadUsed ≤ payloadBytes) : Within c c.flushSubframes := by
  unfold Copro.flushSubframes
  split
  · split
    · exact .refl
    · exact ofCart (CartWindow.foldl_sameFrom _ _ fun _ _ => CartWindow.setDmaSlot_sameFrom _ _)
  · have hsnapshot : Within c c.packQueued.snapshotPayload := by
      refine ⟨.refl, .refl, .overlay _ ?_, .refl⟩
      rw [Nat.zero_add]
      exact h
    generalize c.packQueued.snapshotPayload = d at hsnapshot
    unfold publishFrame
    split
    · exact { hsnapshot with }
    · exact hsnapshot.trans activateQueued

theorem frameCommit (h : c.stageFrame.payloadUsed ≤ payloadBytes) (byte : Byte) :
    Within c (c.frameCommit byte).2 := by
  unfold Copro.frameCommit
  split
  · exact ⟨.refl, .refl, .refl, .refl⟩
  · have hbuild := (stageFrame (c := c)).trans (flushSubframes h)
    unfold buildFrame
    generalize c.stageFrame.flushSubframes = d at hbuild
    exact { hbuild with window := hbuild.window.trans (CartWindow.setFrameReady_sameFrom byte) }

end Within

end Copro

end Microgarbage.Cart
