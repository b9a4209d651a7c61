import Microgarbage.Tui.Tiles
import Microgarbage.Lib.Transition
import Mathlib.Algebra.Order.BigOperators.Group.List
import Mathlib.Algebra.Order.Ring.Nat

/-!
# Tiles as a map from handles

What guests know of the tiles is a map: each VM's handles, with the dimensions and the cells behind
each. `TileSpec` says what every call does to the map. The calls keep to it as long as no compaction
moves a range over one that it has yet to move.
-/

namespace Microgarbage.Tui

open Lib

/-! ## Handles -/

theorem handle_parts (gen : BitVec 16) (vm slot : BitVec 8) :
    (gen ++ vm ++ slot).setWidth 8 = slot ∧ ((gen ++ vm ++ slot) >>> 8).setWidth 8 = vm ∧
      ((gen ++ vm ++ slot) >>> 16).setWidth 16 = gen := by
  refine ⟨?_, ?_, ?_⟩ <;> ext i hi <;> simp <;> grind

theorem handle_eq (h : BitVec 32) :
    h = (h >>> 16).setWidth 16 ++ (h >>> 8).setWidth 8 ++ h.setWidth 8 := by
  ext i hi
  simp
  grind

theorem toNat_vm (vm : VmId) : (BitVec.ofNat 8 vm).toNat = vm := by
  simp [BitVec.toNat_ofNat]
  omega

theorem toNat_slot (i : Fin 16) : (BitVec.ofNat 8 i).toNat = i := by
  simp [BitVec.toNat_ofNat]
  omega

variable {t t' : Tiles} {vm : VmId} {h : BitVec 32} {k j : TileId}

theorem resolveHandle_eq_some : resolveHandle t vm h = some k ↔
    k.1 = vm ∧ (t.slots k).inUse = true ∧ h = packHandle vm k.2 (t.slots k).generation := by
  unfold resolveHandle
  dsimp only
  constructor
  · intro hr
    split at hr
    · exact absurd hr (by simp)
    · rename_i hvm
      split at hr
      · rename_i hslot
        split at hr
        · exact absurd hr (by simp)
        · rename_i huse
          split at hr
          · exact absurd hr (by simp)
          · rename_i hgen
            rw [Option.some.injEq] at hr
            subst hr
            refine ⟨rfl, by simpa using huse, ?_⟩
            rw [not_not] at hvm hgen
            unfold packHandle
            conv_lhs => rw [handle_eq h]
            rw [hgen, ← hvm, BitVec.ofNat_toNat, BitVec.ofNat_toNat, BitVec.setWidth_eq,
              BitVec.setWidth_eq]
      · exact absurd hr (by simp)
  · rintro ⟨rfl, huse, rfl⟩
    obtain ⟨hslot, hvm, hgen⟩ := handle_parts (t.slots k).generation (BitVec.ofNat 8 k.1)
      (BitVec.ofNat 8 k.2)
    unfold packHandle
    rw [hslot, hvm, hgen, toNat_vm, toNat_slot, if_neg (not_not_intro rfl),
      dif_pos (show k.2.val < vmTuiTilesPerVm from k.2.isLt)]
    simp [huse]

theorem packHandle_inj {vm vm' : VmId} {i i' : Fin 16} {gen gen' : BitVec 16}
    (h : packHandle vm i gen = packHandle vm' i' gen') : vm = vm' ∧ i = i' ∧ gen = gen' := by
  obtain ⟨hslot, hvm, hgen⟩ := handle_parts gen (BitVec.ofNat 8 vm) (BitVec.ofNat 8 i)
  obtain ⟨hslot', hvm', hgen'⟩ := handle_parts gen' (BitVec.ofNat 8 vm') (BitVec.ofNat 8 i')
  unfold packHandle at h
  rw [h] at hslot hvm hgen
  have hi := congrArg BitVec.toNat (hslot.symm.trans hslot')
  have hv := congrArg BitVec.toNat (hvm.symm.trans hvm')
  rw [toNat_slot, toNat_slot] at hi
  rw [toNat_vm, toNat_vm] at hv
  exact ⟨Fin.ext hv, Fin.ext hi, hgen.symm.trans hgen'⟩

theorem packHandle_ne_zero {i : Fin 16} {gen : BitVec 16} (h : gen ≠ 0) :
    packHandle vm i gen ≠ 0 := by
  intro hz
  obtain ⟨-, -, hgen⟩ := handle_parts gen (BitVec.ofNat 8 vm) (BitVec.ofNat 8 i)
  unfold packHandle at hz
  rw [hz] at hgen
  exact h (hgen.symm.trans (by decide))

theorem nextGeneration_ne_zero (gen : BitVec 16) : nextGeneration gen ≠ 0 := by
  unfold nextGeneration
  split
  · decide
  · assumption

/-! ## The map -/

structure Tile where
  rows : Nat
  cols : Nat
  cells : List HostCell
  deriving DecidableEq

abbrev TileMap := VmId → BitVec 32 → Option Tile

def TileMap.set (m : TileMap) (vm : VmId) (h : BitVec 32) (tile : Option Tile) : TileMap :=
  fun v g => if v = vm ∧ g = h then tile else m v g

def Tiles.tile (t : Tiles) (k : TileId) : Tile :=
  ⟨(t.slots k).rows, (t.slots k).cols, slice t.arena (t.slots k).base (t.slots k).cellCount⟩

def Tiles.view (t : Tiles) : TileMap := fun vm h => (resolveHandle t vm h).map t.tile

/-- A call by a guest, with the session of the caller, or the unload of a VM. -/
inductive TileEvent
  | call (vm : VmId) (sess : VmTuiSession) (call : TileCall)
  | release (vm : VmId)

/-- What the event returns and the tiles after it. -/
def Tiles.event (t : Tiles) : TileEvent → BitVec 32 × Tiles
  | .call vm sess call => ((tileCall t vm sess call).1, (tileCall t vm sess call).2.1)
  | .release vm => (0, tileReleaseForVm t vm)

def Tiles.step (t : Tiles) (e : TileEvent) : Option Tiles := some (t.event e).2

/-- What an event that returns `r` does to the map. -/
def TileSpec (m : TileMap) (e : TileEvent) (r : BitVec 32) (m' : TileMap) : Prop :=
  match e with
  | .release vm => m' = fun v h => if v = vm then none else m v h
  | .call vm sess call =>
    if sess.ownerVm ≠ some vm then r = -vmEbusy ∧ m' = m
    else
      match call with
      | .create rows cols =>
        (r = -vmEnomem ∧ m' = m) ∨
          ∃ height width : Nat, rows.toInt = height ∧ cols.toInt = width ∧ r ≠ 0 ∧
            (∀ v, m v r = none) ∧
            m' = m.set vm r (some ⟨height, width, List.replicate (height * width) transparentCell⟩)
      | .destroy h =>
        match m vm h with
        | none => r = -vmEbadf ∧ m' = m
        | some _ => r = 0 ∧ m' = m.set vm h none
      | .use h op =>
        match m vm h with
        | none => r = -vmEbadf ∧ m' = m
        | some tile =>
          r = (op.run sess).ret tile.rows tile.cols ∧
            m' = m.set vm h (some { tile with
              cells := tile.cells.mapIdx ((op.run sess).edit tile.rows tile.cols) })

/-! ## Ranges -/

/-- The ranges of two tiles, in bytes. -/
def TileSlot.Apart (s s' : TileSlot) : Prop :=
  s.arenaOff + s.arenaLen ≤ s'.arenaOff ∨ s'.arenaOff + s'.arenaLen ≤ s.arenaOff

theorem TileSlot.Apart.symm {s s' : TileSlot} (h : s.Apart s') : s'.Apart s := Or.symm h

def TileSlot.size (s : TileSlot) : Nat := if s.inUse then s.arenaLen else 0

/-- A live slot's range is made of whole cells, as many as its dimensions say. -/
structure TileSlot.Whole (s : TileSlot) : Prop where
  off : s.arenaOff = cellBytes * s.base
  len : s.arenaLen = cellBytes * s.cellCount
  rows : 0 < s.rows
  cols : 0 < s.cols

structure TilesInv (t : Tiles) : Prop where
  whole : ∀ k, (t.slots k).inUse = true → (t.slots k).Whole
  below : ∀ k, (t.slots k).inUse = true → (t.slots k).arenaOff + (t.slots k).arenaLen ≤ t.used
  apart : ∀ k j, k ≠ j → (t.slots k).inUse = true → (t.slots j).inUse = true →
    (t.slots k).Apart (t.slots j)
  used : t.used = cellBytes * (t.used / cellBytes)
  bound : t.used ≤ tileArenaBytes
  total : (tileIds.map fun k => (t.slots k).size).sum ≤ t.used

theorem tileIds_nodup : tileIds.Nodup := by
  unfold tileIds
  refine List.nodup_flatMap.mpr ⟨fun v _ => ?_, ?_⟩
  · exact (List.nodup_finRange _).map fun i i' h => (Prod.mk.inj h).2
  · refine (List.nodup_finRange 64).imp fun {v v'} hne => ?_
    intro k hk hk'
    obtain ⟨i, -, rfl⟩ := List.mem_map.mp hk
    obtain ⟨i', -, h'⟩ := List.mem_map.mp hk'
    exact hne (Prod.mk.inj h').1.symm

theorem mem_tileIds (k : TileId) : k ∈ tileIds := by
  unfold tileIds
  exact List.mem_flatMap.mpr ⟨k.1, List.mem_finRange _,
    List.mem_map.mpr ⟨k.2, List.mem_finRange _, rfl⟩⟩

theorem tilesInv_init : TilesInv Tiles.init where
  whole k h := by cases h
  below k h := by cases h
  apart k j _ h := by cases h
  used := rfl
  bound := Nat.zero_le _
  total := by simp [Tiles.init, TileSlot.size, TileSlot.empty]

end Microgarbage.Tui
