import Microgarbage.Cart.Ecalls

/-!
# What is in flight

The part of the state that decides whether the pipeline moves: the counters and the ready byte of
the window, and the active and the queued frame. Only committing a frame, the frame-done strobe and
a reset touch it.
-/

namespace Microgarbage.Cart

open Lib CartWindow

structure Pipe where
  frameReady : Byte
  frameStaged : Word
  frameConsumed : Word
  noCommitAhead : Bool
  activeValid : Bool
  queuedValid : Bool
  subframes : List SubFrame
  subframeIndex : Nat

/-- The strobe as the pipeline sees it. -/
def Pipe.frameDone (p : Pipe) (queued : List SubFrame) : Pipe :=
  if p.frameReady = 0 then p
  else if p.activeValid ∧ p.subframeIndex + 1 < p.subframes.length then
    { p with subframeIndex := p.subframeIndex + 1 }
  else if p.queuedValid then
    { p with
      frameConsumed := p.frameConsumed + 1
      queuedValid := false
      activeValid := true
      subframes := queued
      subframeIndex := 0 }
  else
    { p with
      frameReady := 0
      frameConsumed := p.frameConsumed + 1
      activeValid := false
      subframes := []
      subframeIndex := 0 }

namespace Copro

variable {c : Copro}

def pipe (c : Copro) : Pipe :=
  ⟨c.cart.frameReady, c.cart.frameStaged, c.cart.frameConsumed, c.noCommitAhead, c.activeValid,
    c.queuedValid, c.subframes, c.subframeIndex⟩

theorem pipe_of_regs {w : CartWindow} (h : SameRegs c.cart w) : { c with cart := w }.pipe = c.pipe := by
  unfold pipe
  rw [h.frameReady, h.frameStaged, h.frameConsumed]

/-! ## Staging does not touch it -/

theorem allocPayload_pipe {n off : Nat} {c' : Copro} (h : c.allocPayload n = some (off, c')) :
    c'.pipe = c.pipe := by
  unfold allocPayload at h
  split at h
  · cases h
  · cases h
    rfl

@[simp] theorem stageDma_pipe (src : List Byte) (bbus dmap : Byte) (prep : BitVec 16) :
    (c.stageDma src bbus dmap prep).2.pipe = c.pipe := by
  rcases stageDma_cases c src bbus dmap prep with ⟨heq, -⟩ | ⟨heq, -⟩
  · rw [heq]
  · rw [heq]
    rfl

@[simp] theorem queueDma_pipe (src : List Byte) (bbus dmap : Byte) (prep : BitVec 16) :
    (c.queueDma src bbus dmap prep).2.pipe = c.pipe := by
  rcases queueDma_cases c src bbus dmap prep with heq | heq
  · rw [heq]
  · rw [heq]
    exact stageDma_pipe ..

@[simp] theorem queueDmaTransient_pipe (src : List Byte) (bbus dmap : Byte) (prep : BitVec 16) :
    (c.queueDmaTransient src bbus dmap prep).2.pipe = c.pipe := by
  unfold queueDmaTransient
  split
  · rfl
  · split <;> rfl

@[simp] theorem flushPendingTransients_pipe : c.flushPendingTransients.pipe = c.pipe := by
  unfold flushPendingTransients
  exact List.foldlRecOn (motive := fun c' : Copro => c'.pipe = c.pipe) _ _ rfl
    fun _ h _ _ => (stageDma_pipe ..).trans h

/-! ## Neither does the building of a frame, up to its commit -/

@[simp] theorem dropCleanSlate_pipe : c.dropCleanSlate.pipe = c.pipe := by
  unfold dropCleanSlate
  split
  · exact pipe_of_regs (setDmaSlot_regs ..)
  · rfl

@[simp] theorem reuploadCgram_pipe : c.reuploadCgram.pipe = c.pipe := by
  unfold reuploadCgram
  split <;> rfl

@[simp] theorem reuploadBg_pipe : c.reuploadBg.pipe = c.pipe := by
  unfold reuploadBg
  split <;> rfl

@[simp] theorem rewind_pipe : c.rewind.pipe = c.pipe := rfl

@[simp] theorem clearMgSlots_pipe : c.clearMgSlots.pipe = c.pipe := by
  refine pipe_of_regs (foldl_regs _ _ _ fun w i => ?_)
  split
  · exact setDmaSlot_regs ..
  · exact .refl

@[simp] theorem emitPpuBatch_pipe : c.emitPpuBatch.pipe = c.pipe := rfl

@[simp] theorem emitInidispTable_pipe : c.emitInidispTable.pipe = c.pipe :=
  pipe_of_regs (loadBlob_regs ..)

@[simp] theorem emitMode7Batch_pipe : c.emitMode7Batch.pipe = c.pipe := rfl

@[simp] theorem emitHdmaConfig_pipe : c.emitHdmaConfig.pipe = c.pipe :=
  pipe_of_regs (loadBlob_regs ..)

@[simp] theorem stageCgram_pipe : c.stageCgram.pipe = c.pipe := by
  unfold stageCgram
  dsimp only
  split
  · exact stageDma_pipe ..
  · rfl

@[simp] theorem stageOam_pipe : c.stageOam.pipe = c.pipe := by
  unfold stageOam
  dsimp only
  split
  · exact stageDma_pipe ..
  · rfl

@[simp] theorem stageLayer_pipe (i : Fin 4) : (c.stageLayer i).pipe = c.pipe := by
  unfold stageLayer
  dsimp only
  split
  · exact stageDma_pipe ..
  · rfl

@[simp] theorem stageLayers_pipe : c.stageLayers.pipe = c.pipe :=
  List.foldlRecOn (motive := fun c' : Copro => c'.pipe = c.pipe) _ _ rfl
    fun _ h i _ => (stageLayer_pipe i).trans h

@[simp] theorem prepareFrame_pipe : c.prepareFrame.pipe = c.pipe := by
  simp [prepareFrame]

@[simp] theorem stageFrame_pipe : c.stageFrame.pipe = c.pipe := by
  simp [stageFrame]

/-! ## Commit, strobe and reset -/

theorem activateQueued_pipe : c.activateQueued.pipe =
    { c.pipe with activeValid := true, subframes := c.queuedSubframes, subframeIndex := 0 } := by
  have hblob : SameRegs c.cart
      (if 0 < c.queuedUsed then c.cart.loadBlob 0 (c.queuedHold.bytes 0 c.queuedUsed)
        else c.cart) := by
    split
    · exact loadBlob_regs ..
    · exact .refl
  unfold activateQueued
  generalize (if 0 < c.queuedUsed then c.cart.loadBlob 0 (c.queuedHold.bytes 0 c.queuedUsed)
    else c.cart) = w at hblob ⊢
  dsimp only
  have hregs := hblob.trans ((setPpuBatch_regs c.queuedPpuBatch).trans
    (writeSubframe_regs (c.queuedSubframes.headD [])))
  generalize (w.setPpuBatch c.queuedPpuBatch).writeSubframe (c.queuedSubframes.headD []) = w'
    at hregs ⊢
  unfold pipe
  dsimp only
  rw [hregs.frameReady, hregs.frameStaged, hregs.frameConsumed]

/-- A frame without descriptors changes nothing; another one is activated or queued. -/
theorem flushSubframes_pipe : c.flushSubframes.pipe =
    if c.staged = [] then c.pipe
    else if c.pipe.activeValid then { c.pipe with queuedValid := true }
    else { c.pipe with
      activeValid := true
      subframes := pack c.staged
      subframeIndex := 0 } := by
  have hactive : c.pipe.activeValid = c.activeValid := rfl
  unfold flushSubframes
  rw [hactive]
  split
  · split
    · rfl
    · exact pipe_of_regs clearDmaSlots_regs
  · unfold publishFrame
    have hsame : c.packQueued.snapshotPayload.activeValid = c.activeValid := rfl
    rw [hsame]
    split
    · rfl
    · rw [activateQueued_pipe]
      rfl

theorem rememberSlots_pipe : c.rememberSlots.pipe = c.pipe := rfl

theorem buildFrame_pipe : c.buildFrame.pipe =
    if c.stageFrame.staged = [] then c.pipe
    else if c.pipe.activeValid then { c.pipe with queuedValid := true }
    else { c.pipe with
      activeValid := true
      subframes := pack c.stageFrame.staged
      subframeIndex := 0 } := by
  unfold buildFrame
  rw [rememberSlots_pipe, flushSubframes_pipe, stageFrame_pipe]

theorem setFrameReady_pipe (byte : Byte) : (c.setFrameReady byte).pipe =
    { c.pipe with
      frameReady := byte
      frameStaged := if byte ≠ 0 then c.pipe.frameStaged + 1 else c.pipe.frameStaged } := by
  unfold Copro.setFrameReady pipe
  dsimp only
  rw [setFrameReady_ready, setFrameReady_staged, setFrameReady_consumed]

theorem frameDone_pipe : c.frameDone.pipe = Pipe.frameDone c.pipe c.queuedSubframes := by
  have hready : c.pipe.frameReady = c.cart.frameReady := rfl
  have hactive : c.pipe.activeValid = c.activeValid := rfl
  have hsub : c.pipe.subframes = c.subframes := rfl
  have hindex : c.pipe.subframeIndex = c.subframeIndex := rfl
  have hqueued : c.pipe.queuedValid = c.queuedValid := rfl
  unfold frameDone Pipe.frameDone advanceSubframe
  rw [hready, hactive, hsub, hindex, hqueued]
  dsimp only
  split
  · rfl
  · split
    · exact pipe_of_regs (c := { c with subframeIndex := c.subframeIndex + 1 })
        (writeSubframe_regs _)
    · split
      · have hact := activateQueued_pipe (c := { c with subframeIndex := c.subframeIndex + 1 })
        generalize activateQueued { c with subframeIndex := c.subframeIndex + 1 } = c' at hact ⊢
        have hf := congrArg (fun p : Pipe =>
          { p with frameConsumed := p.frameConsumed + 1, queuedValid := false }) hact
        exact hf
      · rfl

theorem mgStateReset_pipe : c.mgStateReset.pipe =
    { c.pipe with
      activeValid := false
      queuedValid := false
      subframes := []
      subframeIndex := 0 } := by
  have hregs : SameRegs c.cart c.mgStateReset.cart := clearDmaSlots_regs
  unfold pipe
  rw [hregs.frameReady, hregs.frameStaged, hregs.frameConsumed]
  rfl

theorem armCleanSlateVramClear_pipe : c.armCleanSlateVramClear.2.pipe = c.pipe := by
  have hstage : c.stageVramClear.2.pipe = c.pipe := by
    unfold stageVramClear
    split
    · rfl
    · split
      · rfl
      · rename_i off c' ha
        rw [← allocPayload_pipe ha]
        exact pipe_of_regs (c := { c' with
          hostPayload := c'.hostPayload.copy off [0, 0]
          slotUsed := c'.slotUsed + 1 }) (setDmaSlot_regs ..)
  unfold armCleanSlateVramClear
  split
  · rfl
  · dsimp only
    split
    · exact hstage
    · exact hstage

theorem ppuCleanSlate_pipe : c.ppuCleanSlate.pipe = c.mgStateReset.pipe :=
  armCleanSlateVramClear_pipe

theorem unload_pipe : c.unload.pipe = c.mgStateReset.pipe := by
  unfold unload
  dsimp only
  refine pipe_of_regs (.trans (.trans ?_ (loadBlob_regs ..)) (loadBlob_regs ..))
  exact ⟨rfl, rfl, rfl, rfl⟩

end Copro

end Microgarbage.Cart
