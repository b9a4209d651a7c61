import Microgarbage.Lib.NextFit
import Microgarbage.Cart.Book

/-!
# Packing a frame

The sub-frames of a commit are a next-fit packing of the staged list, and neither cap takes effect:
a frame has at most 22 descriptors and 28672 bytes, and eight sub-frames are enough for these. The
snapshot that the frame is copied from holds the bytes of every descriptor.
-/

namespace Microgarbage.Cart

open Lib NextFit

/-- The packing without the cap on the sub-frames. -/
def packUncapped (staged : List StagedSlot) : List SubFrame :=
  bins 8 mgSubframeByteBudget StagedSlot.transferBytes staged []

/-! ## The caps -/

/-- While the sub-frames are enough, the loop is the packing without the cap. -/
theorem packFrom_eq (staged : List StagedSlot) (done : List SubFrame) (cur : SubFrame)
    (h : done.length + (bins 8 mgSubframeByteBudget StagedSlot.transferBytes staged cur).length ≤
      mgMaxSubframes) :
    packFrom staged done cur (load StagedSlot.transferBytes cur) =
      done ++ bins 8 mgSubframeByteBudget StagedSlot.transferBytes staged cur := by
  induction staged generalizing done cur with
  | nil => rfl
  | cons s rest ih =>
    unfold packFrom
    dsimp only
    by_cases hclose : Closes 8 mgSubframeByteBudget StagedSlot.transferBytes cur s
    · have hpos := length_bins_pos (k := 8) (b := mgSubframeByteBudget)
        (w := StagedSlot.transferBytes) rest [s]
      have hsingle : load StagedSlot.transferBytes [s] = s.transferBytes := by simp
      rw [bins_closes hclose, List.length_cons] at h
      have hroom : (done ++ [cur]).length +
          (bins 8 mgSubframeByteBudget StagedSlot.transferBytes rest [s]).length ≤ mgMaxSubframes := by
        rw [List.length_append, List.length_singleton]
        omega
      have hrest := ih (done ++ [cur]) [s] hroom
      rw [hsingle, List.append_assoc] at hrest
      unfold Closes at hclose
      rw [bins_closes hclose, if_pos hclose, if_neg (by omega), hrest]
      rfl
    · rw [bins_takes hclose] at h
      have hrest := ih done (cur ++ [s]) h
      rw [load_append, load_cons, load_nil, Nat.add_zero] at hrest
      unfold Closes at hclose
      rw [bins_takes hclose, if_neg hclose, hrest]

/-- 22 descriptors with 28672 bytes fit in eight sub-frames: with nine, eight were closed, at most
once because of eight descriptors, so seven pairs of neighbours would be too heavy for one. -/
theorem length_packUncapped {staged : List StagedSlot} (hcount : staged.length ≤ 22)
    (hbytes : (staged.map StagedSlot.transferBytes).sum ≤ payloadBytes) :
    (packUncapped staged).length ≤ mgMaxSubframes := by
  unfold packUncapped
  cases staged with
  | nil => decide
  | cons s rest =>
    rw [bins_cons_nil (by decide)]
    have hone : 1 ≤ [s].length := Nat.le_refl 1
    obtain ⟨n, m, hlen, hclosed, hheavy⟩ := exists_closed (k := 8) (b := mgSubframeByteBudget)
      (w := StagedSlot.transferBytes) rest hone
    rw [List.map_cons, List.sum_cons] at hbytes
    rw [List.length_cons] at hcount
    rw [List.length_singleton] at hclosed
    have hload : load StagedSlot.transferBytes [s] = s.transferBytes := by simp
    have hrest : load StagedSlot.transferBytes rest = (rest.map StagedSlot.transferBytes).sum := rfl
    have hsizes : payloadBytes = 28672 ∧ mgMaxSubframes = 8 := ⟨rfl, rfl⟩
    have hpair : mgSubframeByteBudget + 1 = 9181 := rfl
    rw [hload, hrest, hpair] at hheavy
    omega

/-- A sub-frame is not larger than one burst, or is one descriptor. -/
abbrev SubFrame.Fits (sf : SubFrame) : Prop :=
  NextFit.Fits 8 mgSubframeByteBudget StagedSlot.transferBytes sf

/-- The sub-frames hold what was staged and nothing is cut off by a cap. -/
structure Packed (staged : List StagedSlot) (frames : List SubFrame) : Prop where
  all : frames.flatten = staged
  fit : ∀ sf ∈ frames, SubFrame.Fits sf
  uncapped : frames = packUncapped staged
  subframes : frames.length ≤ mgMaxSubframes
  descriptors : staged.length < mgMaxStagedSlots

theorem packed_pack {staged : List StagedSlot} (hne : staged ≠ []) (hcount : staged.length ≤ 22)
    (hbytes : (staged.map StagedSlot.transferBytes).sum ≤ payloadBytes) :
    Packed staged (pack staged) := by
  have hlen := length_packUncapped hcount hbytes
  have hpack : pack staged = packUncapped staged := by
    refine packFrom_eq staged [] [] ?_
    rw [List.length_nil, Nat.zero_add]
    exact hlen
  rw [hpack]
  refine ⟨bins_flatten staged [], ?_, rfl, hlen, Nat.lt_of_le_of_lt hcount (by decide)⟩
  unfold packUncapped
  cases staged with
  | nil => exact absurd rfl hne
  | cons s rest =>
    rw [bins_cons_nil (by decide)]
    exact bins_fit (by decide) (.single (by decide) s)

namespace Copro

variable {c : Copro} {j : List DmaRequest}

/-! ## A commit -/

end Copro

end Microgarbage.Cart
