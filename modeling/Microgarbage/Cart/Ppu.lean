import Mathlib.Data.Finset.Card
import Microgarbage.Cart.Contents

/-!
# The console's side

A model of the picture memory and of the kernel's walk of the DMA list: in a burst the slots are
executed in order up to the first empty one, and the frame-done address is strobed. A transfer to the
VRAM port starts at the word that the slot names; slots for other registers leave VRAM alone.
-/

namespace Microgarbage.Cart

open Lib List

def vramBytes : Nat := 65536

namespace CartDmaSlot

variable (s : CartDmaSlot)

/-- A slot from its 8 bytes in the window. -/
def decode : List Byte → CartDmaSlot
  | [bbus, dmap, srcLo, srcHi, sizeLo, sizeHi, prepLo, prepHi] =>
    ⟨bbus, dmap, srcHi ++ srcLo, sizeHi ++ sizeLo, prepHi ++ prepLo⟩
  | _ => empty

/-- A size of 0 transfers 65536 bytes. -/
def transferBytes : Nat := if s.size = 0 then 65536 else s.size.toNat

/-- Byte `i` of a transfer goes to the register at this distance from `bbus`. -/
def unitOffset (i : Nat) : Nat :=
  match (s.dmap.setWidth 3).toNat with
  | 1 | 5 => i % 2
  | 3 | 7 => i / 2 % 2
  | 4 => i % 4
  | _ => 0

/-- The source address of byte `i`: fixed, descending or ascending within the bank. -/
def sourceAt (i : Nat) : Nat :=
  if s.dmap.getLsbD 3 then s.src.toNat
  else if s.dmap.getLsbD 4 then (s.src.toNat + (65536 - i)) % 65536
  else (s.src.toNat + i) % 65536

/-- The VRAM bytes that are written, each with its source, for `n` bytes from byte `i` on at the word
address `vmadd`, which advances behind each high byte. -/
def cellsFrom : Nat → Nat → Nat → List (Nat × Nat)
  | 0, _, _ => []
  | n + 1, i, vmadd =>
    if s.unitOffset i = 0 then
      (vmadd % 32768 * 2, s.sourceAt i) :: cellsFrom n (i + 1) vmadd
    else if s.unitOffset i = 1 then
      (vmadd % 32768 * 2 + 1, s.sourceAt i) :: cellsFrom n (i + 1) (vmadd + 1)
    else
      cellsFrom n (i + 1) vmadd

def vramCells : List (Nat × Nat) :=
  if s.bbus = bbusVmdatal then s.cellsFrom s.transferBytes 0 s.prep.toNat else []

end CartDmaSlot

namespace CartWindow

variable (w : CartWindow)

def dmaSlot (i : Nat) : CartDmaSlot := .decode (w.slotAt i)

/-- An empty slot ends the list. -/
def dmaList : List CartDmaSlot := ((List.range 8).map w.dmaSlot).takeWhile (·.bbus ≠ 0)

/-- One transfer. -/
def execSlot (vram : Mem) (s : CartDmaSlot) : Mem :=
  s.vramCells.foldl (fun v c => Function.update v c.1 (w.window c.2)) vram

def walk (vram : Mem) : Mem := w.dmaList.foldl w.execSlot vram

end CartWindow

/-! ## The machine of both sides -/

structure Snes where
  copro : Copro
  vram : Mem

namespace Snes

/-- Nothing is walked before a frame is ready. -/
def burst (s : Snes) : Snes :=
  if s.copro.cart.frameReady = 0 then s else ⟨s.copro.frameDone, s.copro.cart.walk s.vram⟩

inductive Event where
  | call (mg : MgCall)
  | burst

def step (s : Snes) : Event → Option Snes
  | .call mg => (mg.apply s.copro).map fun r => { s with copro := r.2 }
  | .burst => some s.burst

def init (noCommitAhead : Bool) : Snes := ⟨.init noCommitAhead, fun _ => 0⟩

end Snes

/-! ## What a walk writes -/

namespace CartDmaSlot

theorem decode_bytes (s : CartDmaSlot) : decode s.bytes = s := by
  obtain ⟨bbus, dmap, src, size, prep⟩ := s
  have hpair : ∀ v : BitVec 16, byteOf v 1 ++ byteOf v 0 = v := by
    intro v
    unfold byteOf
    ext i hi
    simp only [BitVec.getElem_append, BitVec.getElem_extractLsb']
    split
    · simp only [Nat.mul_zero, Nat.zero_add, BitVec.getLsbD_eq_getElem hi]
    · have hsum : 8 * 1 + (i - 8) = i := by omega
      simp only [hsum, BitVec.getLsbD_eq_getElem hi]
  have hsrc := hpair src
  have hsize := hpair size
  have hprep := hpair prep
  simp only [bytes, le16, cons_append, nil_append, decode, hsrc, hsize, hprep]

variable (s : CartDmaSlot)

theorem length_cellsFrom (n i vmadd : Nat) : (s.cellsFrom n i vmadd).length ≤ n := by
  induction n generalizing i vmadd with
  | zero => exact Nat.le_refl 0
  | succ n ih =>
    have hsame := ih (i + 1) vmadd
    have hnext := ih (i + 1) (vmadd + 1)
    unfold cellsFrom
    split
    · rw [length_cons]
      omega
    · split
      · rw [length_cons]
        omega
      · omega

theorem length_vramCells : s.vramCells.length ≤ s.transferBytes := by
  unfold vramCells
  split
  · exact s.length_cellsFrom _ _ _
  · exact Nat.zero_le _

end CartDmaSlot

namespace CartWindow

variable {w : CartWindow}

theorem foldl_update_of_notMem {l : List (Nat × Nat)} {vram : Mem} {a : Nat}
    (h : ∀ c ∈ l, c.1 ≠ a) :
    (l.foldl (fun v c => Function.update v c.1 (w.window c.2)) vram) a = vram a := by
  induction l generalizing vram with
  | nil => rfl
  | cons c l ih =>
    rw [forall_mem_cons] at h
    rw [foldl_cons, ih h.2, Function.update_of_ne (Ne.symm h.1)]

theorem walk_of_notMem {vram : Mem} {a : Nat}
    (h : ∀ s ∈ w.dmaList, ∀ c ∈ s.vramCells, c.1 ≠ a) : w.walk vram a = vram a := by
  unfold walk
  refine List.foldlRecOn (motive := fun v : Mem => v a = vram a) _ _ rfl fun v hv s hs => ?_
  exact (foldl_update_of_notMem (h s hs)).trans hv

/-- The list is that of the sub-frame in the window, as far as it goes. -/
theorem mem_dmaList {f : Copro.FrameData} {k : Nat} (h : w.Holds f k) {s : CartDmaSlot}
    (hs : s ∈ w.dmaList) : ∃ x ∈ f.subframes.getD k [], s = x.toDmaSlot := by
  have hmem := ( takeWhile_prefix _).subset hs
  have hne : s.bbus ≠ 0 := by
    have hall := all_eq_true.mp all_takeWhile s hs
    simpa using hall
  obtain ⟨i, hi, rfl⟩ := mem_map.mp hmem
  have hslot : w.dmaSlot i = ((f.subframes.getD k [])[i]?.map StagedSlot.toDmaSlot).getD .empty := by
    unfold dmaSlot
    rw [h.slots i (mem_range.mp hi)]
    exact CartDmaSlot.decode_bytes _
  rw [hslot] at hne ⊢
  cases hget : (f.subframes.getD k [])[i]? with
  | none =>
    rw [hget] at hne
    exact absurd rfl hne
  | some x => exact ⟨x, mem_of_getElem? hget, rfl⟩

end CartWindow

/-! ## The VRAM of a frame -/

/-- The VRAM bytes that a staged list addresses. -/
def touched (staged : List StagedSlot) : List Nat :=
  staged.flatMap fun s => s.toDmaSlot.vramCells.map (·.1)

theorem length_touched (staged : List StagedSlot) :
    (touched staged).length ≤ (staged.map StagedSlot.transferBytes).sum := by
  induction staged with
  | nil => exact Nat.le_refl 0
  | cons s rest ih =>
    have hcells : s.toDmaSlot.vramCells.length ≤ s.transferBytes := s.toDmaSlot.length_vramCells
    have hrest : (touched (s :: rest)).length = s.toDmaSlot.vramCells.length + (touched rest).length := by
      unfold touched
      rw [flatMap_cons, length_append, length_map]
    rw [hrest, map_cons, sum_cons]
    omega

theorem exists_untouched {staged : List StagedSlot}
    (h : (staged.map StagedSlot.transferBytes).sum < vramBytes) :
    ∃ a < vramBytes, a ∉ touched staged := by
  have hcard : (touched staged).toFinset.card < (Finset.range vramBytes).card := by
    rw [Finset.card_range]
    exact Nat.lt_of_le_of_lt ((toFinset_card_le _).trans (length_touched staged)) h
  obtain ⟨a, ha, hnot⟩ := Finset.exists_mem_notMem_of_card_lt_card hcard
  exact ⟨a, Finset.mem_range.mp ha, fun hm => hnot (mem_toFinset.mpr hm)⟩

namespace Snes

variable {s : Snes}

/-- The console walks the sub-frames of one frame and nothing behind it, or is idle. -/
def Walking (s : Snes) (frames : List SubFrame) : Prop :=
  s.copro.cart.frameReady = 0 ∨ ∃ f k, s.copro.cart.Holds f k ∧ f.payload.length ≤ payloadBytes ∧
    f.subframes = frames ∧ s.copro.subframes = frames ∧ s.copro.subframeIndex = k ∧
      s.copro.activeValid = true ∧ s.copro.queuedValid = false

/-- A burst goes on with the frame and writes only what the frame addresses. -/
theorem Walking.burst {frames : List SubFrame} (h : s.Walking frames) :
    s.burst.Walking frames ∧ ∀ a, a ∉ touched frames.flatten → s.burst.vram a = s.vram a := by
  unfold Snes.burst
  by_cases hready : s.copro.cart.frameReady = 0
  · rw [if_pos hready]
    exact ⟨h, fun _ _ => rfl⟩
  · rw [if_neg hready]
    obtain ⟨f, k, hholds, hfit, hframes, hsub, hindex, hactive, hqueued⟩ := h.resolve_left hready
    have hk : k < frames.length := hframes ▸ hholds.bound
    refine ⟨?_, fun a ha => CartWindow.walk_of_notMem fun x hx c hc hca => ?_⟩
    · unfold Copro.frameDone Copro.advanceSubframe
      rw [if_neg hready]
      dsimp only
      by_cases hmore : s.copro.activeValid = true ∧ s.copro.subframeIndex + 1 < s.copro.subframes.length
      · rw [if_pos hmore]
        rw [hindex, hsub] at hmore
        refine .inr ⟨f, k + 1, ?_, hfit, hframes, hsub, congrArg (· + 1) hindex, hactive, hqueued⟩
        dsimp only [Copro.frameDoneCounters]
        rw [hindex, hsub, ← hframes]
        exact Copro.writeSubframe_holds hholds hfit (hframes ▸ hmore.2)
      · rw [if_neg hmore, if_neg (by rw [hqueued]; exact Bool.false_ne_true)]
        exact .inl rfl
    · obtain ⟨y, hy, rfl⟩ := CartWindow.mem_dmaList hholds hx
      refine ha (mem_flatMap.mpr ⟨y, ?_, mem_map.mpr ⟨c, hc, hca⟩⟩)
      rw [hframes, getD_eq_getElem?_getD, List.getElem?_eq_getElem hk, Option.getD_some] at hy
      exact mem_flatten.mpr ⟨_, getElem_mem hk, hy⟩

theorem Walking.bursts {frames : List SubFrame} (h : s.Walking frames) (n : Nat) {a : Nat}
    (ha : a ∉ touched frames.flatten) : (Snes.burst^[n] s).vram a = s.vram a := by
  have key : (Snes.burst^[n] s).Walking frames ∧ (Snes.burst^[n] s).vram a = s.vram a := by
    induction n with
    | zero => exact ⟨h, rfl⟩
    | succ n ih =>
      rw [Function.iterate_succ_apply']
      have hnext := ih.1.burst
      exact ⟨hnext.1, (hnext.2 a ha).trans ih.2⟩
  exact key.2

end Snes

end Microgarbage.Cart
