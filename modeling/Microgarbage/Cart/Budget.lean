import Microgarbage.Cart.Book

/-!
# The reported budget

What `SYS_MG_FRAME_STATE` tells a guest about the slots and bytes that are left, against what the next
direct upload is admitted by. The slots wrap at 8 bits once a frame has used more than eight, and the
bytes are counted from the length of the vertical blank, which can be longer than the payload area.
-/

namespace Microgarbage.Cart

open Lib

namespace Copro

variable (c : Copro)

/-- The reports do not exceed what is left for direct uploads, and an upload that they allow
succeeds. -/
structure BudgetSound : Prop where
  slots : c.slotsRemaining.toNat ≤ 8 - c.slotUsed
  bytes : c.bytesRemaining.toNat ≤ payloadBytes - c.payloadUsed
  upload : ∀ (src : List Byte) (bbus dmap : Byte) (prep : BitVec 16), 0 < src.length →
    1 ≤ c.slotsRemaining.toNat → src.length ≤ c.bytesRemaining.toNat →
      (c.queueDma src bbus dmap prep).1 = 0

variable {c} {j : List DmaRequest}

/-! ## The reports as numbers -/

theorem slotsRemaining_toNat : c.slotsRemaining.toNat =
    (2 ^ 32 - c.slotUsed % 2 ^ 32 + 8) % 2 ^ 32 % 2 ^ 8 := by
  unfold slotsRemaining
  rw [BitVec.toNat_setWidth, BitVec.toNat_sub, BitVec.toNat_ofNat]
  rfl

theorem slotsRemaining_of_le (h : c.slotUsed ≤ 8) : c.slotsRemaining.toNat = 8 - c.slotUsed := by
  rw [slotsRemaining_toNat]
  omega

theorem slotsRemaining_of_lt (h : 8 < c.slotUsed) (hle : c.slotUsed ≤ 23) :
    c.slotsRemaining.toNat = 264 - c.slotUsed := by
  rw [slotsRemaining_toNat]
  omega

theorem bytesRemaining_toNat (h : c.state.blankLines ≤ 208) :
    c.bytesRemaining.toNat = 6479 + 117 * c.state.blankLines - c.payloadUsed := by
  have hbudget : c.blankBudget = 6479 + 117 * c.state.blankLines := by
    unfold blankBudget MgState.blankLines mgByteBudgetBase mgBytesPerFblank
    omega
  unfold bytesRemaining
  rw [hbudget]
  split
  · rename_i hle
    rw [Nat.sub_eq_zero_of_le hle]
    rfl
  · exact Nat.mod_eq_of_lt (by omega)

/-! ## When they can be relied on -/

theorem queueDma_succeeds {src : List Byte} {bbus dmap : Byte} {prep : BitVec 16}
    (hslots : c.slotUsed < 8) (hcap : c.staged.length < mgMaxStagedSlots)
    (hbytes : c.payloadUsed + src.length ≤ payloadBytes) :
    (c.queueDma src bbus dmap prep).1 = 0 := by
  unfold queueDma
  rw [if_neg (Nat.not_le.mpr hslots), if_neg (Nat.not_lt.mpr hbytes)]
  dsimp only
  rw [if_pos (stageDma_fits hcap hbytes)]

theorem Kept.slotUsed_le (h : Kept c j) : c.slotUsed ≤ 23 := by
  have hstaged := h.staged_le
  have hslots : c.slotUsed ≤ c.staged.length + 1 := h.book.slots.2
  omega

theorem Kept.budgetSound_iff (h : Kept c j) : c.BudgetSound ↔
    c.slotUsed ≤ 8 ∧ c.state.forceBlankTop + c.state.forceBlankBottom ≤ 189 := by
  have hstaged := h.staged_le
  have hused : c.payloadUsed ≤ 28672 := h.book.used
  have hslots : c.staged.length ≤ c.slotUsed := h.book.slots.1
  have hbytes := bytesRemaining_toNat h.blank
  have hlines : c.state.blankLines = c.state.forceBlankTop + c.state.forceBlankBottom := rfl
  have hpayload : payloadBytes = 28672 := rfl
  constructor
  · intro hsound
    have hle : c.slotUsed ≤ 8 := by
      by_contra hgt
      have hreport := hsound.slots
      rw [slotsRemaining_of_lt (by omega) h.slotUsed_le] at hreport
      have hbound := h.slotUsed_le
      omega
    have hreport := hsound.bytes
    rw [hbytes] at hreport
    exact ⟨hle, by omega⟩
  · rintro ⟨hle, hblank⟩
    have hreport := slotsRemaining_of_le hle
    refine ⟨Nat.le_of_eq hreport, by omega, fun src bbus dmap prep hpos hone hfit => ?_⟩
    have hcap : mgMaxStagedSlots = 48 := rfl
    exact queueDma_succeeds (by omega) (by omega) (by omega)

/-- In every reachable state the reports are sound exactly while at most eight slots are in use and at
most 189 lines are dark. -/
theorem budget_sound_iff (noCommitAhead : Bool) (es : List CartEvent) (c : Copro)
    (h : Lib.run Copro.step (.init noCommitAhead) es = some c) : c.BudgetSound ↔
      c.slotUsed ≤ 8 ∧ c.state.forceBlankTop + c.state.forceBlankBottom ≤ 189 := by
  obtain ⟨j, hj⟩ := exists_journal (j := []) h
  exact (Kept.run hj).budgetSound_iff

/-! ## A frame with ten slots -/

/-- Eight transients of one byte, and the frame with the palette and the sprites of the reset. -/
def tenSlots : List CartEvent :=
  List.replicate 8 (.call (.chrUploadTransient 0 1 (some fun _ => 0))) ++ [.call (.frameCommit 1)]

/-- 254 free slots are reported, and a direct upload of one byte is refused. -/
theorem budget_wraps : ∃ c, Lib.run Copro.step (.init false) tenSlots = some c ∧
    c.slotsRemaining = 254 ∧ (c.chrUpload 0 1 (some fun _ => 0)).1 = mgRErrDmaSlots ∧
      ¬ c.BudgetSound := by
  have hend : (Lib.run Copro.step (.init false) tenSlots).map
      (fun c => (c.slotUsed, c.slotsRemaining, c.bytesRemaining,
        (c.chrUpload 0 1 (some fun _ => 0)).1)) = some (10, 254, 5415, mgRErrDmaSlots) := by
    decide +kernel
  obtain ⟨c, hrun, hc⟩ := Option.map_eq_some_iff.mp hend
  simp only [Prod.mk.injEq] at hc
  obtain ⟨hused, hslots, -, hupload⟩ := hc
  refine ⟨c, hrun, hslots, hupload, fun hsound => ?_⟩
  have hreport := hsound.slots
  rw [hslots, hused] at hreport
  exact absurd hreport (by decide)

/-- One upload of two bytes and a commit leave the reports sound. -/
theorem budget_sound_upload : ∃ c, Lib.run Copro.step (.init false)
    [.call (.chrUpload 0 2 (some fun _ => 7)), .call (.frameCommit 1)] = some c ∧ c.BudgetSound := by
  have hend : (Lib.run Copro.step (.init false)
      [.call (.chrUpload 0 2 (some fun _ => 7)), .call (.frameCommit 1)]).map
        (fun c => (c.slotUsed, c.state.forceBlankTop, c.state.forceBlankBottom)) =
          some (3, 0, 0) := by decide +kernel
  obtain ⟨c, hrun, hc⟩ := Option.map_eq_some_iff.mp hend
  simp only [Prod.mk.injEq] at hc
  obtain ⟨hused, htop, hbottom⟩ := hc
  refine ⟨c, hrun, (budget_sound_iff false _ c hrun).mpr ⟨?_, ?_⟩⟩
  · rw [hused]
    decide
  · rw [htop, hbottom]
    decide

end Copro

end Microgarbage.Cart
