import Microgarbage.Cart.Ecalls

/-!
# What the window holds

The window below the brightness table: the payload area, the eight DMA slots and the register batch.
Each producer replaces the bytes of one region and leaves the others alone.
-/

namespace Microgarbage.Cart

open Lib

theorem layout : payloadBytes = 28672 ∧ offDmaList = 30728 ∧ offPpuBatch = 30792 ∧
    offInidispHdma = 30824 ∧ offHdmaConfig = 31080 ∧ offMode7Batch = 31136 ∧
      cartWindowBytes = 65536 := ⟨rfl, rfl, rfl, rfl, rfl, rfl, rfl⟩

namespace CartWindow

variable {w w₁ w₂ w₃ : CartWindow} {P : Nat → Prop}

/-- Two windows hold the same bytes at the addresses in `P`. -/
def AgreeOn (P : Nat → Prop) (w w' : CartWindow) : Prop := ∀ a, P a → w'.window a = w.window a

theorem AgreeOn.refl : AgreeOn P w w := fun _ _ => rfl

theorem AgreeOn.trans (h : AgreeOn P w₁ w₂) (h' : AgreeOn P w₂ w₃) : AgreeOn P w₁ w₃ :=
  fun a ha => (h' a ha).trans (h a ha)

theorem AgreeOn.bytes (h : AgreeOn P w₁ w₂) {p n : Nat} (hr : ∀ i < n, P (p + i)) :
    w₂.window.bytes p n = w₁.window.bytes p n :=
  Mem.bytes_congr fun i hi => h _ (hr i hi)

/-! ## Blocks -/

theorem loadBlob_agree {off : Nat} {src : List Byte}
    (h : ∀ a, P a → a < off ∨ off + src.length ≤ a) : AgreeOn P w (w.loadBlob off src) := by
  intro a ha
  unfold loadBlob
  split
  · rfl
  · refine Mem.copy_out ((h a ha).imp id fun hle => ?_)
    rw [List.length_take]
    omega

theorem loadBlob_bytes {off : Nat} {src : List Byte} (h : off + src.length ≤ cartWindowBytes) :
    (w.loadBlob off src).window.bytes off src.length = src := by
  unfold loadBlob
  split
  · obtain rfl : src = [] := List.eq_nil_of_length_eq_zero (by omega)
    rfl
  · rw [List.take_of_length_le (by omega)]
    exact Mem.bytes_copy ..

theorem setDmaSlot_agree {i : Nat} {slot : CartDmaSlot}
    (h : ∀ a, P a → a < offDmaList + i * 8 ∨ offDmaList + i * 8 + 8 ≤ a) :
    AgreeOn P w (w.setDmaSlot i slot) := by
  intro a ha
  unfold setDmaSlot
  split
  · rfl
  · refine Mem.copy_out ?_
    rw [CartDmaSlot.length_bytes]
    exact h a ha

theorem setPpuBatch_agree {b : PpuBatch}
    (h : ∀ a, P a → a < offPpuBatch ∨ offPpuBatch + 32 ≤ a) : AgreeOn P w (w.setPpuBatch b) := by
  intro a ha
  refine Mem.copy_out ?_
  rw [PpuBatch.length_bytes]
  exact h a ha

/-! ## Slots -/

/-- The 8 bytes of a DMA slot. -/
def slotAt (w : CartWindow) (i : Nat) : List Byte := w.window.bytes (offDmaList + i * 8) 8

theorem slotAt_setDmaSlot {i j : Nat} (hi : i < 8) (slot : CartDmaSlot) :
    (w.setDmaSlot i slot).slotAt j = if j = i then slot.bytes else w.slotAt j := by
  unfold slotAt setDmaSlot
  rw [if_neg (by omega)]
  split
  · rename_i hji
    rw [hji]
    exact Mem.bytes_copy ..
  · have hlen : slot.bytes.length = 8 := CartDmaSlot.length_bytes _
    exact Mem.bytes_copy_out (by omega)

theorem slotAt_foldl (p : Nat → Bool) (f : Nat → CartDmaSlot) (w : CartWindow) {n j : Nat}
    (hn : n ≤ 8) :
    ((List.range n).foldl (fun w i => if p i then w.setDmaSlot i (f i) else w) w).slotAt j =
      if j < n ∧ p j = true then (f j).bytes else w.slotAt j := by
  induction n with
  | zero => simp
  | succ n ih =>
    rw [List.range_succ, List.foldl_append, List.foldl_cons, List.foldl_nil]
    by_cases hp : p n = true
    · rw [if_pos hp, slotAt_setDmaSlot (by omega), ih (by omega)]
      by_cases hj : j = n
      · rw [if_pos hj, hj, if_pos ⟨Nat.lt_succ_self n, hp⟩]
      · rw [if_neg hj]
        have hlt : j < n ↔ j < n + 1 := by omega
        simp only [hlt]
    · rw [if_neg hp, ih (by omega)]
      have hlt : j < n ∧ p j = true ↔ j < n + 1 ∧ p j = true := by
        refine and_congr_left fun hj => ?_
        have hne : j ≠ n := by
          rintro rfl
          exact hp hj
        omega
      simp only [hlt]

/-- The slot that a sub-frame puts at `i`. -/
def slotBytes (sf : SubFrame) (i : Nat) : List Byte :=
  ((sf[i]?.map StagedSlot.toDmaSlot).getD .empty).bytes

theorem writeSubframe_slotAt (sf : SubFrame) {i : Nat} (hi : i < 8) :
    (w.writeSubframe sf).slotAt i = slotBytes sf i := by
  have h := slotAt_foldl (fun _ => true) (fun i => (sf[i]?.map StagedSlot.toDmaSlot).getD .empty) w
    (j := i) (Nat.le_refl 8)
  rw [if_pos ⟨hi, rfl⟩] at h
  exact h

theorem writeSubframe_agree (sf : SubFrame)
    (h : ∀ a, P a → a < offDmaList ∨ offDmaList + 64 ≤ a) : AgreeOn P w (w.writeSubframe sf) := by
  have key : ∀ (l : List Nat), (∀ i ∈ l, i < 8) → ∀ w : CartWindow, AgreeOn P w (l.foldl
      (fun w i => w.setDmaSlot i ((sf[i]?.map StagedSlot.toDmaSlot).getD .empty)) w) := by
    intro l hl w
    refine List.foldlRecOn (motive := AgreeOn P w) l _ .refl fun _ hw i hi => hw.trans ?_
    have hi8 := hl i hi
    refine setDmaSlot_agree fun a ha => (h a ha).imp (fun hlt => ?_) fun hle => ?_
    · omega
    · omega
  exact key _ (fun i hi => List.mem_range.mp hi) w

end CartWindow

namespace Copro

open CartWindow

variable {c : Copro}

/-! ## Frames -/

/-- What is built for a frame: its payload, its registers and its sub-frames. -/
structure FrameData where
  payload : List Byte
  batch : List Byte
  subframes : List SubFrame
  deriving DecidableEq

end Copro

/-- The window holds the payload and the registers of a frame, and its sub-frame `k` is in the DMA
list. -/
structure CartWindow.Holds (w : CartWindow) (f : Copro.FrameData) (k : Nat) : Prop where
  payload : w.window.bytes 0 f.payload.length = f.payload
  batch : w.window.bytes offPpuBatch 32 = f.batch
  slots : ∀ i < 8, w.slotAt i = slotBytes (f.subframes.getD k []) i
  bound : k < f.subframes.length

namespace Copro

open CartWindow

variable {c : Copro}

theorem Holds.agree {w w' : CartWindow} {f : FrameData} {k : Nat} (h : w.Holds f k)
    (hfit : f.payload.length ≤ payloadBytes)
    (hw : AgreeOn (fun a => a < payloadBytes ∨ (offDmaList ≤ a ∧ a < offInidispHdma)) w w') :
    w'.Holds f k := by
  have hl := layout
  refine ⟨?_, ?_, fun i hi => ?_, h.bound⟩
  · rw [hw.bytes fun i hi => .inl (by omega)]
    exact h.payload
  · rw [hw.bytes fun i hi => .inr (by omega)]
    exact h.batch
  · unfold slotAt
    rw [hw.bytes fun j hj => .inr (by omega)]
    exact h.slots i hi

/-- The frame that the queue stands for. -/
def queuedFrame (c : Copro) : FrameData :=
  ⟨c.queuedHold.bytes 0 c.queuedUsed, c.queuedPpuBatch.bytes, c.queuedSubframes⟩

theorem activateQueued_holds (hfit : c.queuedUsed ≤ payloadBytes) (hne : c.queuedSubframes ≠ []) :
    c.activateQueued.cart.Holds c.queuedFrame 0 := by
  have hl := layout
  have hlen : (c.queuedHold.bytes 0 c.queuedUsed).length = c.queuedUsed := Mem.length_bytes ..
  have hblob : (if 0 < c.queuedUsed then c.cart.loadBlob 0 (c.queuedHold.bytes 0 c.queuedUsed)
      else c.cart).window.bytes 0 c.queuedUsed = c.queuedHold.bytes 0 c.queuedUsed := by
    split
    · have hread : (c.cart.loadBlob 0 (c.queuedHold.bytes 0 c.queuedUsed)).window.bytes 0
          (c.queuedHold.bytes 0 c.queuedUsed).length = _ := loadBlob_bytes (by omega)
      rw [hlen] at hread
      exact hread
    · obtain h0 : c.queuedUsed = 0 := by omega
      rw [h0]
      rfl
  unfold activateQueued
  generalize (if 0 < c.queuedUsed then c.cart.loadBlob 0 (c.queuedHold.bytes 0 c.queuedUsed)
    else c.cart) = w at hblob ⊢
  dsimp only
  have hslots : AgreeOn (fun a => a < offDmaList ∨ offDmaList + 64 ≤ a) (w.setPpuBatch c.queuedPpuBatch)
      ((w.setPpuBatch c.queuedPpuBatch).writeSubframe (c.queuedSubframes.headD [])) :=
    writeSubframe_agree _ fun _ ha => ha
  have hbatch : AgreeOn (· < offPpuBatch) w (w.setPpuBatch c.queuedPpuBatch) :=
    setPpuBatch_agree fun a ha => .inl ha
  refine ⟨?_, ?_, fun i hi => ?_, List.length_pos_iff.mpr hne⟩
  · unfold queuedFrame
    dsimp only
    rw [hlen, hslots.bytes fun i hi => .inl (by omega), hbatch.bytes fun i hi => by omega]
    exact hblob
  · rw [hslots.bytes fun i hi => .inr (by omega)]
    exact Mem.bytes_copy w.window offPpuBatch c.queuedPpuBatch.bytes
  · rw [writeSubframe_slotAt _ hi]
    unfold queuedFrame
    rw [List.headD_eq_head?_getD, List.getD_eq_getElem?_getD, List.head?_eq_getElem?]

theorem writeSubframe_holds {w : CartWindow} {f : FrameData} {k : Nat} (h : w.Holds f k)
    (hfit : f.payload.length ≤ payloadBytes) (hk : k + 1 < f.subframes.length) :
    (w.writeSubframe (f.subframes.getD (k + 1) [])).Holds f (k + 1) := by
  have hl := layout
  have hslots : AgreeOn (fun a => a < offDmaList ∨ offDmaList + 64 ≤ a) w
      (w.writeSubframe (f.subframes.getD (k + 1) [])) := writeSubframe_agree _ fun _ ha => ha
  refine ⟨?_, ?_, fun i hi => writeSubframe_slotAt _ hi, hk⟩
  · rw [hslots.bytes fun i hi => .inl (by omega)]
    exact h.payload
  · rw [hslots.bytes fun i hi => .inr (by omega)]
    exact h.batch

end Copro

end Microgarbage.Cart
