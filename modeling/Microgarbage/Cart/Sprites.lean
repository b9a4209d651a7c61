import Mathlib.Data.List.Basic
import Microgarbage.Cart.Handlers

/-!
# The sprite table

The shadow of the sprite memory as a table of 128 records. Four bytes of a record stand in the main
table, and two bits, the ninth bit of the column and the size, in a byte that four slots share.
-/

namespace Microgarbage.Cart

open Lib BitVec
open Function (update update_of_ne update_self)

/-! ## Records -/

/-- A sprite with a column in [-256, 255] and a tile number of nine bits. -/
@[ext] structure SpriteRecord where
  x : BitVec 9
  y : Byte
  tile : BitVec 9
  palette : BitVec 3
  priority : BitVec 2
  hflip : Bool
  vflip : Bool
  sizeLarge : Bool
  deriving DecidableEq

namespace SpriteRecord

variable (r : SpriteRecord)

/-- The structure that a guest passes for a record, and expects back for it. -/
def host : MgSpriteHost where
  x := r.x.signExtend 16
  y := r.y
  tile := r.tile.setWidth 16
  palette := r.palette
  priority := r.priority
  hflip := r.hflip
  vflip := r.vflip
  sizeLarge := r.sizeLarge

/-- What `h_sprite_get` makes of a record: the low byte of the column is extended before the ninth
bit is looked at. -/
def seen : MgSpriteHost :=
  let x := (r.x.setWidth 8).signExtend 16
  { r.host with x := if r.x.getLsbD 8 then x - 256 else x }

/-- A record from its four bytes and its two bits. -/
def ofParts (b₀ b₁ b₂ b₃ : Byte) (high large : Bool) : SpriteRecord where
  x := BitVec.ofBool high ++ b₀
  y := b₁
  tile := BitVec.ofBool (b₃.getLsbD 0) ++ b₂
  palette := b₃.extractLsb' 1 3
  priority := b₃.extractLsb' 4 2
  hflip := b₃.getLsbD 6
  vflip := b₃.getLsbD 7
  sizeLarge := large

theorem byteOf_zero_x (x : BitVec 9) : byteOf (x.signExtend 16) 0 = x.setWidth 8 := by
  ext i hi
  have hi9 : i < 9 := by omega
  simp [byteOf, getLsbD_signExtend, hi9]
  omega

theorem byteOf_zero_tile (tile : BitVec 9) : byteOf (tile.setWidth 16) 0 = tile.setWidth 8 := by
  ext i hi
  have hi9 : i < 9 := by omega
  have hi16 : i < 16 := by omega
  simp [byteOf, hi9, hi16]

theorem xHigh_signExtend (x : BitVec 9) : xHigh (x.signExtend 16) = bit (x.getLsbD 8) := by
  have hint : (x.signExtend 16).toInt = x.toInt := toInt_signExtend_of_le (by omega)
  have hle : x.toInt ≤ 255 := by
    have := toInt_lt (x := x)
    omega
  unfold xHigh bit
  rw [hint, show x.getLsbD 8 = x.msb from rfl, msb_eq_toInt]
  simp [Int.not_lt.mpr hle]

theorem getLsbD_ninth (b : Byte) (high : Bool) (i : Nat) :
    (BitVec.ofBool high ++ b).getLsbD i = if i < 8 then b.getLsbD i else (i == 8) && high := by
  rw [getLsbD_append]
  split
  · rfl
  · rw [getLsbD_ofBool]
    congr 1
    grind

theorem append_setWidth (x : BitVec 9) : BitVec.ofBool (x.getLsbD 8) ++ x.setWidth 8 = x := by
  refine eq_of_getLsbD_eq fun i hi => ?_
  rw [getLsbD_ninth, getLsbD_setWidth]
  grind

theorem column_eq_iff (x : BitVec 9) :
    (if x.getLsbD 8 then (x.setWidth 8).signExtend 16 - 256 else (x.setWidth 8).signExtend 16) =
      x.signExtend 16 ↔ x.getLsbD 7 = false := by
  decide +revert +kernel

theorem seen_eq_host {r : SpriteRecord} : r.seen = r.host ↔ r.x.getLsbD 7 = false := by
  rw [← column_eq_iff]
  simp [seen, host]

theorem attrs_eq :
    r.host.attrs = bit (r.tile.getLsbD 8) ||| r.palette.setWidth 8 <<< 1 |||
      r.priority.setWidth 8 <<< 4 ||| bit r.hflip <<< 6 ||| bit r.vflip <<< 7 := by
  have htile : byteOf (r.tile.setWidth 16) 1 &&& 1 = bit (r.tile.getLsbD 8) := by
    refine eq_of_getLsbD_eq fun i hi => ?_
    unfold byteOf bit
    cases h : r.tile.getLsbD 8 <;> simp <;> grind
  exact congrArg (· ||| r.palette.setWidth 8 <<< 1 ||| r.priority.setWidth 8 <<< 4 |||
    bit r.hflip <<< 6 ||| bit r.vflip <<< 7) htile

theorem attrs_fields (t h v : Bool) (p : BitVec 3) (q : BitVec 2) {b : Byte}
    (hb : b = bit t ||| p.setWidth 8 <<< 1 ||| q.setWidth 8 <<< 4 ||| bit h <<< 6 ||| bit v <<< 7) :
    b.getLsbD 0 = t ∧ b.extractLsb' 1 3 = p ∧ b.extractLsb' 4 2 = q ∧ b.getLsbD 6 = h ∧
      b.getLsbD 7 = v := by
  subst hb
  decide +revert +kernel

theorem ofParts_encode :
    ofParts (byteOf r.host.x 0) r.y (byteOf r.host.tile 0) r.host.attrs (r.x.getLsbD 8)
      r.sizeLarge = r := by
  obtain ⟨htile, hpalette, hpriority, hh, hv⟩ := attrs_fields _ _ _ _ _ r.attrs_eq
  unfold ofParts
  rw [htile, hpalette, hpriority, hh, hv, show byteOf r.host.x 0 = _ from byteOf_zero_x r.x,
    show byteOf r.host.tile 0 = _ from byteOf_zero_tile r.tile, append_setWidth, append_setWidth]

end SpriteRecord

/-! ## The cells of the high table -/

theorem getLsbD_cell {b mask bits : Byte} (hmask : bits &&& mask = bits) {s n : Nat} (hn : n < 8) :
    ((b &&& ~~~(mask <<< s)) ||| bits <<< s).getLsbD n =
      if s ≤ n ∧ mask.getLsbD (n - s) = true then bits.getLsbD (n - s) else b.getLsbD n := by
  have hbits : bits.getLsbD (n - s) = (bits.getLsbD (n - s) && mask.getLsbD (n - s)) := by
    rw [← getLsbD_and, hmask]
  rw [getLsbD_or, getLsbD_and, getLsbD_not, getLsbD_shiftLeft,
    getLsbD_shiftLeft]
  by_cases hs : s ≤ n
  · cases hm : mask.getLsbD (n - s) <;> rw [hm] at hbits <;> simp_all [Nat.not_lt.mpr hs]
  · simp [hn, hs, Nat.not_le.mp hs]

section Cells

variable {oam : Mem} {i j k : Nat} {mask bits : Byte}

/-- The shadow with the cell of slot `i` changed under a mask. -/
def withCell (oam : Mem) (i : Nat) (mask bits : Byte) : Mem :=
  update oam (hiByteOff i)
    ((oam (hiByteOff i) &&& ~~~(mask <<< hiShift i)) ||| bits <<< hiShift i)

theorem getLsbD_three : ∀ m < 8, 2 ≤ m → (3 : Byte).getLsbD m = false := by decide

theorem hiShift_add_lt (hk : k < 2) : hiShift j + k < 8 := by
  unfold hiShift
  omega

theorem withCell_same (hmask : bits &&& mask = bits) (hk : k < 2) :
    (withCell oam i mask bits (hiByteOff i)).getLsbD (hiShift i + k) =
      if mask.getLsbD k = true then bits.getLsbD k
      else (oam (hiByteOff i)).getLsbD (hiShift i + k) := by
  unfold withCell
  rw [update_self, getLsbD_cell hmask (hiShift_add_lt hk), Nat.add_sub_cancel_left]
  simp only [Nat.le_add_right, true_and]

theorem withCell_other (hne : j ≠ i) (hmask : bits &&& mask = bits) (hcell : mask &&& 3 = mask)
    (hk : k < 2) :
    (withCell oam i mask bits (hiByteOff j)).getLsbD (hiShift j + k) =
      (oam (hiByteOff j)).getLsbD (hiShift j + k) := by
  unfold withCell
  by_cases hbyte : hiByteOff j = hiByteOff i
  · rw [hbyte, update_self, getLsbD_cell hmask (hiShift_add_lt hk), if_neg]
    rintro ⟨hle, hbit⟩
    have hfar : 2 ≤ hiShift j + k - hiShift i := by
      unfold hiByteOff at hbyte
      unfold hiShift at hle ⊢
      omega
    rw [← hcell, getLsbD_and,
      getLsbD_three _ (Nat.lt_of_le_of_lt (Nat.sub_le ..) (hiShift_add_lt hk)) hfar,
      Bool.and_false] at hbit
    cases hbit
  · rw [update_of_ne hbyte]

theorem withCell_main {a : Nat} (ha : a < 512) : withCell oam i mask bits a = oam a :=
  update_of_ne (by unfold hiByteOff; omega) ..

end Cells

/-! ## The table in the shadow -/

namespace MgState

variable (st : MgState)

/-- The record of a slot, with the column that the picture unit puts together. -/
def record (slot : Nat) : SpriteRecord :=
  let oam := st.oamShadow
  .ofParts (oam (slot * 4)) (oam (slot * 4 + 1)) (oam (slot * 4 + 2)) (oam (slot * 4 + 3))
    ((oam (hiByteOff slot)).getLsbD (hiShift slot)) ((oam (hiByteOff slot)).getLsbD (hiShift slot + 1))

def table (slot : Fin 128) : SpriteRecord := st.record slot

theorem tile_eq (b₂ b₃ : Byte) :
    (b₃ &&& 1) ++ b₂ = (BitVec.ofBool (b₃.getLsbD 0) ++ b₂).setWidth 16 := by
  refine eq_of_getLsbD_eq fun i hi => ?_
  rw [getLsbD_setWidth, SpriteRecord.getLsbD_ninth, getLsbD_append,
    getLsbD_and]
  simp
  grind

theorem spriteAt_eq (slot : Nat) : st.spriteAt slot = (st.record slot).seen := by
  have hbit (k : Nat) : (st.oamShadow (hiByteOff slot) >>> hiShift slot).getLsbD k =
      (st.oamShadow (hiByteOff slot)).getLsbD (hiShift slot + k) := getLsbD_ushiftRight ..
  have hlow (b : Byte) (high : Bool) : (BitVec.ofBool high ++ b).setWidth 8 = b := by
    refine eq_of_getLsbD_eq fun i hi => ?_
    rw [getLsbD_setWidth, SpriteRecord.getLsbD_ninth]
    simp [hi]
  have htop (b : Byte) (high : Bool) : (BitVec.ofBool high ++ b).getLsbD 8 = high := by
    rw [SpriteRecord.getLsbD_ninth]
    rfl
  unfold spriteAt SpriteRecord.seen SpriteRecord.host record SpriteRecord.ofParts
  dsimp only
  rw [hbit, hbit, tile_eq, hlow, htop, Nat.add_zero]

theorem record_congr {st st' : MgState} {slot : Nat}
    (hmain : ∀ k < 4, st'.oamShadow (slot * 4 + k) = st.oamShadow (slot * 4 + k))
    (hcell : ∀ k < 2, (st'.oamShadow (hiByteOff slot)).getLsbD (hiShift slot + k) =
      (st.oamShadow (hiByteOff slot)).getLsbD (hiShift slot + k)) :
    st'.record slot = st.record slot := by
  have h₀ := hmain 0 (by omega)
  have h₁ := hmain 1 (by omega)
  have h₂ := hmain 2 (by omega)
  have h₃ := hmain 3 (by omega)
  have hx := hcell 0 (by omega)
  have hsize := hcell 1 (by omega)
  simp only [Nat.add_zero] at h₀ hx
  unfold record
  dsimp only
  rw [h₀, h₁, h₂, h₃, hx, hsize]

end MgState

/-! ## Calls -/

/-- The calls that change sprites, with arguments in their ranges. -/
inductive SpriteCall where
  | set (slot : Fin 128) (r : SpriteRecord)
  | move (slot : Fin 128) (x : BitVec 9) (y : Byte)
  | hide (slot : Fin 128)
  | clearAll

namespace SpriteCall

def shadow : SpriteCall → ShadowCall
  | .set slot r => .spriteSet (BitVec.ofNat 8 slot) (some r.host)
  | .move slot x y => .spriteMove (BitVec.ofNat 8 slot) (x.signExtend 16) y
  | .hide slot => .spriteHide (BitVec.ofNat 8 slot)
  | .clearAll => .spritesClearAll

/-- The slot of a call on one slot. -/
def slot : SpriteCall → Option (Fin 128)
  | .set slot _ | .move slot .. | .hide slot => some slot
  | .clearAll => none

/-- What a call does to the table of records. -/
def onTable (t : Fin 128 → SpriteRecord) : SpriteCall → Fin 128 → SpriteRecord
  | .set slot r => update t slot r
  | .move slot x y => update t slot { t slot with x := x, y := y }
  | .hide slot => update t slot { t slot with y := 240 }
  | .clearAll => fun slot => { t slot with y := 240 }

end SpriteCall

theorem oamSlot_ofNat (slot : Fin 128) {n : Nat} (hn : 128 ≤ n) :
    oamSlot (BitVec.ofNat 8 slot) n = some slot.val := by
  have hslot : (BitVec.ofNat 8 slot.val).toNat = slot.val := by
    rw [toNat_ofNat]
    omega
  unfold oamSlot
  rw [hslot, if_pos (by omega)]

namespace MgState

variable (st : MgState)

/-- The shadow with the first bytes of a slot and its cell changed, and both marked dirty. -/
def putSprite (slot : Nat) (bs : List Byte) (mask bits : Byte) : MgState :=
  { st with oamShadow := withCell (st.oamShadow.copy (slot * 4) bs) slot mask bits }
    |>.dirtyOam (slot * 4) (slot * 4 + bs.length)
    |>.dirtyOam (hiByteOff slot) (hiByteOff slot + 1)

theorem apply_set (slot : Fin 128) (r : SpriteRecord) :
    (SpriteCall.set slot r).shadow.apply st = some (mgROk,
      st.putSprite slot [byteOf r.host.x 0, r.y, byteOf r.host.tile 0, r.host.attrs] 3
        (bit (r.x.getLsbD 8) ||| bit r.sizeLarge <<< 1)) := by
  unfold SpriteCall.shadow ShadowCall.apply spriteSet
  dsimp only
  rw [oamSlot_ofNat slot (Nat.le_refl 128), ← SpriteRecord.xHigh_signExtend]
  rfl

theorem apply_move (slot : Fin 128) (x : BitVec 9) (y : Byte) :
    (SpriteCall.move slot x y).shadow.apply st = some (mgROk,
      st.putSprite slot [byteOf (x.signExtend 16) 0, y] 1 (bit (x.getLsbD 8))) := by
  unfold SpriteCall.shadow ShadowCall.apply spriteMove
  dsimp only
  rw [oamSlot_ofNat slot (Nat.le_refl 128), ← SpriteRecord.xHigh_signExtend]
  rfl

theorem apply_hide (slot : Fin 128) :
    (SpriteCall.hide slot).shadow.apply st = some (mgROk,
      { st with oamShadow := update st.oamShadow (slot * 4 + 1) 240 }
        |>.dirtyOam (slot * 4 + 1) (slot * 4 + 2)) := by
  unfold SpriteCall.shadow ShadowCall.apply spriteHide
  dsimp only
  rw [oamSlot_ofNat slot (by omega)]
  rfl

/-! ### Records -/

variable {st} {i j : Fin 128} {bs : List Byte} {mask bits : Byte}

theorem putSprite_other (hne : j ≠ i) (hbs : bs.length ≤ 4) (hmask : bits &&& mask = bits)
    (hcell : mask &&& 3 = mask) : (st.putSprite i bs mask bits).record j = st.record j := by
  have hij : j.val ≠ i.val := fun h => hne (Fin.ext h)
  refine record_congr (fun k hk => ?_) fun k hk => ?_
  · exact (withCell_main (by omega)).trans (Mem.copy_out (by omega))
  · refine (withCell_other hij hmask hcell hk).trans ?_
    rw [Mem.copy_out (by unfold hiByteOff; omega)]

theorem putSprite_main {k : Nat} (hk : k < 4) :
    (st.putSprite i bs mask bits).oamShadow (i * 4 + k) =
      if k < bs.length then bs.getD k 0 else st.oamShadow (i * 4 + k) := by
  refine (withCell_main (by omega)).trans ?_
  split
  · rw [Mem.copy, Mem.overlay_in (by omega) (by omega), Nat.add_sub_cancel_left]
  · exact Mem.copy_out (by omega)

theorem putSprite_cell (hbs : bs.length ≤ 4) (hmask : bits &&& mask = bits) {k : Nat} (hk : k < 2) :
    ((st.putSprite i bs mask bits).oamShadow (hiByteOff i)).getLsbD (hiShift i + k) =
      if mask.getLsbD k = true then bits.getLsbD k
      else (st.oamShadow (hiByteOff i)).getLsbD (hiShift i + k) := by
  refine (withCell_same hmask hk).trans ?_
  rw [Mem.copy_out (by unfold hiByteOff; omega)]

theorem cell_bits (high large : Bool) :
    (bit high ||| bit large <<< 1) &&& (3 : Byte) = bit high ||| bit large <<< 1 ∧
      (bit high ||| bit large <<< 1).getLsbD 0 = high ∧
      (bit high ||| bit large <<< 1).getLsbD 1 = large := by
  decide +revert

theorem high_bit (high : Bool) : bit high &&& (1 : Byte) = bit high ∧ (bit high).getLsbD 0 = high := by
  decide +revert

theorem record_putSprite (hbs : bs.length ≤ 4) (hmask : bits &&& mask = bits) :
    (st.putSprite i bs mask bits).record i =
      let main (k : Nat) := if k < bs.length then bs.getD k 0 else st.oamShadow (i * 4 + k)
      let cell (k : Nat) := if mask.getLsbD k = true then bits.getLsbD k
        else (st.oamShadow (hiByteOff i)).getLsbD (hiShift i + k)
      .ofParts (main 0) (main 1) (main 2) (main 3) (cell 0) (cell 1) := by
  have hcell₀ : ((st.putSprite i bs mask bits).oamShadow (hiByteOff i)).getLsbD (hiShift i) = _ :=
    putSprite_cell hbs hmask (k := 0) (by omega)
  have hmain₀ : (st.putSprite i bs mask bits).oamShadow (i * 4) = _ :=
    putSprite_main (k := 0) (by omega)
  unfold record
  dsimp only
  rw [hcell₀, hmain₀, putSprite_cell hbs hmask (by omega), putSprite_main (by omega),
    putSprite_main (by omega), putSprite_main (by omega)]

theorem record_set (r : SpriteRecord) :
    (st.putSprite i [byteOf r.host.x 0, r.y, byteOf r.host.tile 0, r.host.attrs] 3
      (bit (r.x.getLsbD 8) ||| bit r.sizeLarge <<< 1)).record i = r := by
  obtain ⟨hmask, hhigh, hlarge⟩ := cell_bits (r.x.getLsbD 8) r.sizeLarge
  have hbs : [byteOf r.host.x 0, r.y, byteOf r.host.tile 0, r.host.attrs].length ≤ 4 := Nat.le_refl 4
  rw [record_putSprite hbs hmask]
  dsimp only
  rw [if_pos (by decide : (3 : Byte).getLsbD 0 = true),
    if_pos (by decide : (3 : Byte).getLsbD 1 = true), hhigh, hlarge]
  exact r.ofParts_encode

theorem record_move (x : BitVec 9) (y : Byte) :
    (st.putSprite i [byteOf (x.signExtend 16) 0, y] 1 (bit (x.getLsbD 8))).record i =
      { st.record i with x := x, y := y } := by
  obtain ⟨hmask, hhigh⟩ := high_bit (x.getLsbD 8)
  have hbs : [byteOf (x.signExtend 16) 0, y].length ≤ 4 := by simp
  rw [record_putSprite hbs hmask]
  dsimp only
  rw [if_pos (by decide : (1 : Byte).getLsbD 0 = true),
    if_neg (by decide : ¬ (1 : Byte).getLsbD 1 = true), hhigh]
  refine SpriteRecord.ext ?_ rfl rfl rfl rfl rfl rfl rfl
  exact (congrArg (_ ++ ·) (SpriteRecord.byteOf_zero_x x)).trans (SpriteRecord.append_setWidth x)

theorem record_hidden {st' : MgState} {slot : Nat}
    (hmain : ∀ k < 4, st'.oamShadow (slot * 4 + k) =
      if k = 1 then 240 else st.oamShadow (slot * 4 + k))
    (hcell : st'.oamShadow (hiByteOff slot) = st.oamShadow (hiByteOff slot)) :
    st'.record slot = { st.record slot with y := 240 } := by
  have h₀ := hmain 0 (by omega)
  have h₁ := hmain 1 (by omega)
  have h₂ := hmain 2 (by omega)
  have h₃ := hmain 3 (by omega)
  simp only [Nat.add_zero] at h₀
  unfold record
  dsimp only
  rw [h₀, h₁, h₂, h₃, hcell]
  rfl

/-! ### Dirty bytes -/

theorem mem_mark {r : DirtyRange} {lo hi a : Nat} (hhi : hi ≤ 544) (ha : lo ≤ a ∧ a < hi) :
    (r.mark mgOamBytes lo hi).Mem a := by
  unfold DirtyRange.mark mgOamBytes
  rw [if_neg (by omega)]
  unfold DirtyRange.widen DirtyRange.Mem
  split
  · exact ha
  · dsimp only
    constructor <;> split <;> omega

theorem mem_mark_of_mem {r : DirtyRange} {size lo hi a : Nat} (ha : r.Mem a) :
    (r.mark size lo hi).Mem a := by
  unfold DirtyRange.mark
  split
  · exact ha
  · unfold DirtyRange.Mem at ha
    unfold DirtyRange.widen DirtyRange.Mem
    rw [if_neg (by omega)]
    dsimp only
    constructor <;> split <;> omega

/-- What a call changes is dirty, and what was dirty stays dirty. -/
structure Marks (st st' : MgState) : Prop where
  changed : ∀ a, st'.oamShadow a ≠ st.oamShadow a → st'.oamDirty.Mem a
  kept : ∀ a, st.oamDirty.Mem a → st'.oamDirty.Mem a

theorem putSprite_marks (hbs : bs.length ≤ 4) : Marks st (st.putSprite i bs mask bits) where
  changed a ha := by
    by_cases hcell : a = hiByteOff i
    · refine mem_mark (by unfold hiByteOff; omega) ⟨by omega, by omega⟩
    · refine mem_mark_of_mem (mem_mark (by omega) ?_)
      by_contra hout
      refine ha ((update_of_ne hcell ..).trans (Mem.copy_out ?_))
      omega
  kept a ha := mem_mark_of_mem (mem_mark_of_mem ha)

/-! ## Every call -/

/-- What a call does, to the table, to its neighbours and to the dirty range. -/
structure SpriteStep (st : MgState) (c : SpriteCall) (st' : MgState) : Prop where
  table : st'.table = c.onTable st.table
  others : ∀ i, c.slot = some i → ∀ j : Fin 128, j ≠ i → st'.spriteAt j = st.spriteAt j
  marks : Marks st st'

/-- A call on one slot that writes one record and leaves the other ones alone. -/
theorem spriteStep_of_slot {c : SpriteCall} {st' : MgState} {r : SpriteRecord}
    (hslot : c.slot = some i) (honTable : c.onTable st.table = update st.table i r)
    (hself : st'.record i = r) (hother : ∀ j : Fin 128, j ≠ i → st'.record j = st.record j)
    (hmarks : Marks st st') : SpriteStep st c st' where
  table := by
    rw [honTable]
    funext j
    by_cases hj : j = i
    · subst hj
      rw [update_self]
      exact hself
    · rw [update_of_ne hj]
      exact hother j hj
  others := by
    intro i' hi' j hj
    cases hslot.symm.trans hi'
    rw [spriteAt_eq, spriteAt_eq, hother j hj]
  marks := hmarks

theorem apply_spec (st : MgState) (c : SpriteCall) :
    ∃ st', c.shadow.apply st = some (mgROk, st') ∧ SpriteStep st c st' := by
  cases c with
  | set i r =>
    refine ⟨_, st.apply_set i r, spriteStep_of_slot rfl rfl (record_set r) (fun j hj => ?_)
      (putSprite_marks (Nat.le_refl 4))⟩
    exact putSprite_other hj (Nat.le_refl 4) (cell_bits _ _).1 (by decide)
  | move i x y =>
    refine ⟨_, st.apply_move i x y, spriteStep_of_slot rfl rfl (record_move x y) (fun j hj => ?_)
      (putSprite_marks (by simp))⟩
    exact putSprite_other hj (by simp) (high_bit _).1 (by decide)
  | hide i =>
    refine ⟨_, st.apply_hide i, spriteStep_of_slot (i := i) rfl rfl
      (record_hidden (fun k hk => ?_) ?_) (fun j hj => ?_) ?_⟩
    · by_cases hk1 : k = 1
      · subst hk1
        exact update_self ..
      · rw [if_neg hk1]
        exact update_of_ne (by omega) ..
    · exact update_of_ne (by unfold hiByteOff; omega) ..
    · have hne : j.val ≠ i.val := fun h => hj (Fin.ext h)
      refine record_congr (fun k hk => update_of_ne (by omega) ..) fun k _ => ?_
      exact congrArg (BitVec.getLsbD · _) (update_of_ne (by unfold hiByteOff; omega) ..)
    · refine ⟨fun a ha => mem_mark (by omega) ?_, fun a => mem_mark_of_mem⟩
      by_contra hout
      exact ha (update_of_ne (by omega) ..)
  | clearAll =>
    refine ⟨_, rfl, ?_, fun i hi => (by cases hi), ⟨fun a ha => mem_mark (Nat.le_refl _) ?_,
      fun a => mem_mark_of_mem⟩⟩
    · funext i
      refine record_hidden (fun k hk => ?_) ?_
      · have hmod : (i.val * 4 + k) % 4 = k := by omega
        change (if (i.val * 4 + k) % 4 = 1 ∧ i.val * 4 + k < 512 then 240 else _) = _
        rw [hmod]
        by_cases hk1 : k = 1
        · rw [if_pos ⟨hk1, by omega⟩, if_pos hk1]
        · rw [if_neg (fun h => hk1 h.1), if_neg hk1]
      · exact if_neg (by unfold hiByteOff; omega)
    · by_contra hout
      exact ha (if_neg (by unfold mgOamBytes at hout; omega))

/-! ## Sequences of calls -/

def spriteRun (st : MgState) : List SpriteCall → Option MgState
  | [] => some st
  | c :: cs => (c.shadow.apply st).bind fun r => r.2.spriteRun cs

theorem spriteRun_cons {c : SpriteCall} {cs : List SpriteCall} {st st' : MgState}
    (h : c.shadow.apply st = some (mgROk, st')) : st.spriteRun (c :: cs) = st'.spriteRun cs := by
  rw [spriteRun, h]
  rfl

theorem spriteRun_step {c : SpriteCall} {st st' : MgState} (h : st.spriteRun [c] = some st') :
    SpriteStep st c st' := by
  obtain ⟨st₁, happly, hstep⟩ := apply_spec st c
  rw [spriteRun_cons happly] at h
  cases h
  exact hstep

/-- The calls do to the shadow what they do to the table, and no byte becomes clean. -/
theorem spriteRun_spec (st : MgState) (cs : List SpriteCall) :
    ∃ st', st.spriteRun cs = some st' ∧ st'.table = cs.foldl SpriteCall.onTable st.table ∧
      ∀ a, st.oamDirty.Mem a → st'.oamDirty.Mem a := by
  induction cs generalizing st with
  | nil => exact ⟨st, rfl, rfl, fun _ ha => ha⟩
  | cons c cs ih =>
    obtain ⟨st₁, happly, hstep⟩ := apply_spec st c
    obtain ⟨st', hrun, htable, hkept⟩ := ih st₁
    refine ⟨st', (spriteRun_cons happly).trans hrun, ?_, fun a ha => hkept a (hstep.marks.kept a ha)⟩
    rw [htable, hstep.table]
    rfl

/-- The shadow stands for a table of records: a slot is read back as the calls have left it, a call
on one slot is not seen in another one, and what a call changed stays in the dirty range. -/
structure SpriteTable (st : MgState) (cs : List SpriteCall) : Prop where
  returns : ∃ st', st.spriteRun cs = some st' ∧
    ∀ i : Fin 128, st'.spriteAt i = (cs.foldl SpriteCall.onTable st.table i).host
  others : ∀ pre c post st₁ st₂, cs = pre ++ c :: post → st.spriteRun pre = some st₁ →
    st₁.spriteRun [c] = some st₂ → ∀ i, c.slot = some i → ∀ j : Fin 128, j ≠ i →
      st₂.spriteAt j = st₁.spriteAt j
  dirty : ∀ pre c post st₁ st₂ st', cs = pre ++ c :: post → st.spriteRun pre = some st₁ →
    st₁.spriteRun [c] = some st₂ → st₂.spriteRun post = some st' →
      ∀ a, st₂.oamShadow a ≠ st₁.oamShadow a → st'.oamDirty.Mem a

/-- Just the columns with a clear bit 7, in [-256, -129] and in [0, 127], are read back. -/
theorem spriteTable_iff (st : MgState) (cs : List SpriteCall) :
    SpriteTable st cs ↔
      ∀ i, (cs.foldl SpriteCall.onTable st.table i).x.getLsbD 7 = false := by
  obtain ⟨st', hrun, htable, -⟩ := spriteRun_spec st cs
  have hread : (∀ i : Fin 128, st'.spriteAt i = (cs.foldl SpriteCall.onTable st.table i).host) ↔
      ∀ i, (cs.foldl SpriteCall.onTable st.table i).x.getLsbD 7 = false := by
    refine forall_congr' fun i => ?_
    rw [spriteAt_eq, ← htable]
    exact SpriteRecord.seen_eq_host
  constructor
  · rintro ⟨⟨st'', hrun', hreturns⟩, -, -⟩
    cases hrun.symm.trans hrun'
    exact hread.mp hreturns
  · intro hclear
    refine ⟨⟨st', hrun, hread.mpr hclear⟩, ?_, ?_⟩
    · intro pre c post st₁ st₂ _ _ hc
      exact (spriteRun_step hc).others
    · intro pre c post st₁ st₂ st'' _ _ hc hpost a ha
      obtain ⟨st₃, hrun₃, -, hkept⟩ := spriteRun_spec st₂ post
      cases hrun₃.symm.trans hpost
      exact hkept a ((spriteRun_step hc).marks.changed a ha)

/-- Column 200 is read back as -56. -/
theorem sprite_column_lost : ¬ SpriteTable .reset [.move 0 200 0] := by
  rintro ⟨⟨st', hrun, hreturns⟩, -, -⟩
  rw [spriteRun_cons (apply_move .reset 0 200 0)] at hrun
  cases hrun
  have hx := congrArg MgSpriteHost.x (hreturns 0)
  revert hx
  decide

end MgState

end Microgarbage.Cart
