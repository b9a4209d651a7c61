import Microgarbage.Cart.Staging

/-!
# The frame queue

The staged descriptors of a frame are packed into sub-frames; the frame becomes active at once when
no frame is being walked and is queued otherwise. The console strobes an address when it has walked
a sub-frame: the next sub-frame is loaded, or the queued frame takes over, or the console goes idle.
-/

namespace Microgarbage.Cart

open Lib

/-! ## Packing -/

/-- The loop of `flush_subframes`: at most 8 slots and the byte budget in one sub-frame. When the
sub-frames run out, the remaining descriptors are dropped. -/
def packFrom : List StagedSlot → List SubFrame → SubFrame → Nat → List SubFrame
  | [], done, cur, _ => done ++ [cur]
  | s :: rest, done, cur, curBytes =>
    let slotBytes := s.transferBytes
    if 8 ≤ cur.length ∨ (0 < cur.length ∧ mgSubframeByteBudget < curBytes + slotBytes) then
      if mgMaxSubframes ≤ done.length + 1 then done ++ [cur]
      else packFrom rest (done ++ [cur]) [s] slotBytes
    else
      packFrom rest done (cur ++ [s]) (curBytes + slotBytes)

def pack (staged : List StagedSlot) : List SubFrame := packFrom staged [] [] 0

theorem packFrom_ne_nil (staged : List StagedSlot) (done : List SubFrame) (cur : SubFrame)
    (n : Nat) : packFrom staged done cur n ≠ [] := by
  induction staged generalizing done cur n with
  | nil => simp [packFrom]
  | cons s rest ih =>
    unfold packFrom
    dsimp only
    split
    · split
      · simp
      · exact ih _ _ _
    · exact ih _ _ _

theorem pack_ne_nil (staged : List StagedSlot) : pack staged ≠ [] :=
  packFrom_ne_nil _ _ _ _

/-! ## Sub-frames in the window -/

/-- `write_subframe_to_cart_window`: the slots behind the last one are emptied. -/
def CartWindow.writeSubframe (w : CartWindow) (sf : SubFrame) : CartWindow :=
  (List.range 8).foldl (fun w i => w.setDmaSlot i ((sf[i]?.map StagedSlot.toDmaSlot).getD .empty)) w

/-- `MG_ADVANCE_*`. -/
inductive Advance where
  | more
  | promoted
  | empty
  deriving DecidableEq

def mgByteBudgetBase : Nat := 6479
def mgBytesPerFblank : Nat := 117

namespace Copro

variable (c : Copro)

/-- `activate_queued_locked`. -/
def activateQueued : Copro :=
  let cart :=
    if 0 < c.queuedUsed then c.cart.loadBlob 0 (c.queuedHold.bytes 0 c.queuedUsed) else c.cart
  { c with
    cart := (cart.setPpuBatch c.queuedPpuBatch).writeSubframe (c.queuedSubframes.headD [])
    subframes := c.queuedSubframes
    subframeIndex := 0
    activeValid := true }

/-! ## Committing

The steps of `flush_subframes` for a frame with staged descriptors. -/

def packQueued : Copro :=
  { c with queuedSubframes := pack c.staged, queuedUsed := c.payloadUsed }

/-- The bytes of the frame are kept apart from the buffer that the next frame is built in. -/
def snapshotPayload : Copro :=
  { c with queuedHold := c.queuedHold.overlay 0 c.queuedUsed c.hostPayload }

/-- The step under the queue lock: activate, or queue behind the active frame. -/
def publishFrame : Copro :=
  if c.activeValid then { c with queuedValid := true } else c.activateQueued

def flushSubframes : Copro :=
  if c.staged = [] then
    if c.activeValid then c else { c with cart := c.cart.clearDmaSlots }
  else
    c.packQueued.snapshotPayload.publishFrame

/-! ## What is left of the budget -/

/-- `mg_state_slots_remaining`: the difference is cut to 8 bits. -/
def slotsRemaining : Byte := ((8 : Word) - BitVec.ofNat 32 c.slotUsed).setWidth 8

/-- The bytes that the console can copy in one vertical blank. -/
def blankBudget : Nat :=
  mgByteBudgetBase + c.state.forceBlankTop * mgBytesPerFblank +
    c.state.forceBlankBottom * mgBytesPerFblank

/-- `mg_state_bytes_remaining`. -/
def bytesRemaining : BitVec 16 :=
  if c.blankBudget ≤ c.payloadUsed then 0 else BitVec.ofNat 16 (c.blankBudget - c.payloadUsed)

/-! ## The frame-done strobe -/

/-- `mg_state_advance_subframe`. -/
def advanceSubframe : Advance × Copro :=
  let c := { c with subframeIndex := c.subframeIndex + 1 }
  if c.activeValid ∧ c.subframeIndex < c.subframes.length then
    (.more, { c with cart := c.cart.writeSubframe (c.subframes.getD c.subframeIndex []) })
  else if c.queuedValid then
    (.promoted, { c.activateQueued with queuedValid := false })
  else
    (.empty, { c with activeValid := false, subframes := [], subframeIndex := 0 })

/-- The counters after a sub-frame has been walked. -/
def frameDoneCounters (adv : Advance) (w : CartWindow) : CartWindow :=
  match adv with
  | .more => w
  | .promoted => { w with frameConsumed := w.frameConsumed + 1 }
  | .empty => { w with frameConsumed := w.frameConsumed + 1, frameReady := 0 }

/-- `cart_window_read` at the frame-done strobe, with no video player active. -/
def frameDone : Copro :=
  if c.cart.frameReady = 0 then c
  else
    let r := c.advanceSubframe
    { r.2 with cart := frameDoneCounters r.1 r.2.cart }

/-- `cart_window_read`: only the low 16 bits of the address count. -/
def cartWindowRead (snesAddr : BitVec 24) : Byte × Copro :=
  let off := (snesAddr.setWidth 16).toNat
  if off = offFrameDone then (0, c.frameDone)
  else
    let r := c.cart.readByte off
    (r.1, { c with cart := r.2 })

end Copro

/-! ## Registers -/

namespace CartWindow

theorem foldl_regs {α : Type} (f : CartWindow → α → CartWindow) (l : List α) (w : CartWindow)
    (hf : ∀ w a, SameRegs w (f w a)) : SameRegs w (l.foldl f w) :=
  List.foldlRecOn (motive := SameRegs w) l f .refl fun _ hw a _ => hw.trans (hf _ a)

theorem clearDmaSlots_regs {w : CartWindow} : SameRegs w w.clearDmaSlots :=
  foldl_regs _ _ w fun _ _ => setDmaSlot_regs ..

theorem writeSubframe_regs {w : CartWindow} (sf : SubFrame) : SameRegs w (w.writeSubframe sf) :=
  foldl_regs _ _ w fun _ _ => setDmaSlot_regs ..

end CartWindow

end Microgarbage.Cart
