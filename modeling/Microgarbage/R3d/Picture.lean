import Microgarbage.R3d.Service

/-!
# The displayed picture

What a console shows of the two layers: a tilemap entry per cell, the tile's rows in bit planes
behind the layer's base. A console that holds the two tilemaps and the three thirds of a framebuffer
in a parity's places, and displays this parity, shows the framebuffer.
-/

namespace Microgarbage.R3d

open Lib Cart

/-! ## Bit planes -/

theorem getLsbD_planeByte (pixel : Nat → Byte) (plane : Nat) {xx : Nat} (hxx : xx < 8) :
    (planeByte pixel plane).getLsbD (7 - xx) = (pixel xx).getLsbD plane := by
  obtain rfl | rfl | rfl | rfl | rfl | rfl | rfl | rfl :
    xx = 0 ∨ xx = 1 ∨ xx = 2 ∨ xx = 3 ∨ xx = 4 ∨ xx = 5 ∨ xx = 6 ∨ xx = 7 := by omega
  all_goals simp [planeByte, List.range_succ]

/-- A number in bit planes. -/
def ofPlanes (plane : Nat → Bool) (n : Nat) : Nat :=
  ((List.range n).map fun k => (plane k).toNat * 2 ^ k).sum

theorem ofPlanes_hcBaseOf (v : Byte) :
    ofPlanes (hcBaseOf v).getLsbD 4 = (hcBaseOf v).toNat := by
  revert v
  decide +kernel

theorem ofPlanes_hcSubOf (v : Byte) : ofPlanes (hcSubOf v).getLsbD 2 = (hcSubOf v).toNat := by
  revert v
  decide +kernel

/-! ## The console's layers -/

structure Console where
  vram : Mem
  bg12nba : Byte
  bg34nba : Byte
  bg1sc : Byte
  bg3sc : Byte
  /-- The version of the routine that it has copied, and whether it runs one. -/
  version : Byte
  booted : Bool

namespace Console

variable (c : Console)

/-- The tile that a layer's tilemap has at a cell. -/
def tileAt (sc : Byte) (cell : Nat) : Nat :=
  (c.vram.load16 ((sc.toNat / 4 * 0x800 + 2 * cell) % 0x10000)).toNat % 1024

/-- The colour of a pixel of a tile row: pairs of planes, 16 bytes apart. -/
def colorAt (row xx planes : Nat) : Nat :=
  ofPlanes (fun k => (c.vram ((row + k / 2 * 16 + k % 2) % 0x10000)).getLsbD (7 - xx)) planes

/-- BG1 with 4 planes: 32 bytes for each tile behind the base of BG12NBA. -/
def hueAt (x y : Nat) : Nat :=
  c.colorAt (c.bg12nba.toNat % 16 * 0x2000 + c.tileAt c.bg1sc (y / 8 * 32 + x / 8) * 32 + y % 8 * 2)
    (x % 8) 4

/-- BG3 with 2 planes: 16 bytes for each tile behind the base of BG34NBA. -/
def brightnessAt (x y : Nat) : Nat :=
  c.colorAt (c.bg34nba.toNat % 16 * 0x2000 + c.tileAt c.bg3sc (y / 8 * 32 + x / 8) * 16 + y % 8 * 2)
    (x % 8) 2

end Console

/-- What the two layers show. -/
abbrev Picture := Nat → Nat → Nat × Nat

def Console.picture (c : Console) : Picture := fun x y => (c.hueAt x y, c.brightnessAt x y)

/-- The picture has the hue and the brightness of each pixel of the framebuffer. -/
def Picture.Is (pic : Picture) (fb : Framebuffer) : Prop :=
  ∀ x y, x < vw → y < vh →
    pic x y = ((hcBaseOf (fb (y * vw + x))).toNat, (hcSubOf (fb (y * vw + x))).toNat)

/-! ## What VRAM holds -/

/-- The bytes of a parity's tilemap. -/
def mapBase : Parity → Nat
  | .a => 0xF000
  | .b => 0xF800

def HoldsMaps (vram : Mem) : Prop := ∀ p, vram.bytes (mapBase p) 2048 = tilemap p

structure HoldsThird (vram : Mem) (fb : Framebuffer) (third : Third) (p : Parity) : Prop where
  bg1 : ∀ i < thirdBg1Bytes,
    vram (2 * (slotFor third p).1.toNat + i) = encodeChr fb (32 * third.t0 + i)
  bg3 : ∀ i < thirdBg3Bytes,
    vram (2 * (slotFor third p).2.toNat + i) = encodeChr2 fb (16 * third.t0 + i)

/-- The registers that display a parity. -/
structure Console.Displays (c : Console) (p : Parity) : Prop where
  bg12nba : c.bg12nba = nba1 p
  bg34nba : c.bg34nba = nba3 p
  bg1sc : c.bg1sc = scVal p
  bg3sc : c.bg3sc = scVal p

/-- The third that a tile is in. -/
def thirdOf (t : Nat) : Third := if t < thirdTiles then .top else if t < 2 * thirdTiles then .mid else .bot

theorem t0_le {t : Nat} (ht : t < nTiles) : (thirdOf t).t0 ≤ t ∧ t < (thirdOf t).t0 + thirdTiles := by
  have hn : nTiles = 750 := rfl
  have hthird : thirdTiles = 250 := rfl
  unfold thirdOf
  split
  · simp only [Third.t0]
    omega
  · split <;> simp only [Third.t0] <;> omega

/-- The first VRAM bytes of a third, for BG1 and BG3. -/
def place : Third → Parity → Nat × Nat
  | .top, _ => (0x4000, 0xC000)
  | .mid, .a => (0x0000, 0xA000)
  | .mid, .b => (0x6000, 0xD000)
  | .bot, .a => (0x2000, 0xB000)
  | .bot, .b => (0x8000, 0xE000)

theorem slotFor_place (third : Third) (p : Parity) :
    2 * (slotFor third p).1.toNat = (place third p).1 ∧
      2 * (slotFor third p).2.toNat = (place third p).2 := by
  cases third <;> cases p <;> exact ⟨rfl, rfl⟩

/-- The first bytes of the layers' tiles. -/
def chrBase : Parity → Nat × Nat
  | .a => (0x0000, 0xA000)
  | .b => (0x4000, 0xC000)

theorem nba_chrBase (p : Parity) :
    (nba1 p).toNat % 16 * 0x2000 = (chrBase p).1 ∧ (nba3 p).toNat % 16 * 0x2000 = (chrBase p).2 := by
  cases p <;> exact ⟨rfl, rfl⟩

theorem tmapIdx_lt (p : Parity) {t : Nat} (ht : t < nTiles) : (tmapIdx p t).toNat < 1024 := by
  have hn : nTiles = 750 := rfl
  have hthird : thirdTiles = 250 := rfl
  cases p <;> simp only [tmapIdx, tmapIdxA, tmapIdxB] <;> split_ifs <;>
    simp only [BitVec.toNat_ofNat] <;> omega

/-- The tile of a parity's tilemap lies where its third is delivered, from both layers' bases. -/
theorem tile_place (p : Parity) {t : Nat} (ht : t < nTiles) :
    (chrBase p).1 + (tmapIdx p t).toNat * 32 =
        (place (thirdOf t) p).1 + 32 * (t - (thirdOf t).t0) ∧
      (chrBase p).2 + (tmapIdx p t).toNat * 16 =
        (place (thirdOf t) p).2 + 16 * (t - (thirdOf t).t0) := by
  have hn : nTiles = 750 := rfl
  have hthird : thirdTiles = 250 := rfl
  unfold thirdOf
  cases p <;> simp only [tmapIdx, tmapIdxA, tmapIdxB] <;> split_ifs <;>
    simp only [chrBase, place, Third.t0, BitVec.toNat_ofNat] <;> omega

theorem place_le (third : Third) (p : Parity) :
    (place third p).1 + thirdBg1Bytes ≤ 0xA000 ∧ (place third p).2 + thirdBg3Bytes ≤ 0xF000 := by
  cases third <;> cases p <;> exact ⟨by decide, by decide⟩

/-! ## Cells -/

theorem tileAt_eq {c : Console} {p : Parity} (hmaps : HoldsMaps c.vram) {row col : Nat}
    (hrow : row < 25) (hcol : col < tw) :
    c.tileAt (scVal p) (row * 32 + col) = (tmapIdx p (row * tw + col)).toNat := by
  have htw : tw = 30 := rfl
  have hcell : tilemapCell p (row * 32 + col) = tmapIdx p (row * tw + col) ||| tmapPal1 := by
    unfold tilemapCell
    have hmod : (row * 32 + col) % 32 = col := by omega
    have hdiv : (row * 32 + col) / 32 = row := by omega
    rw [hmod, hdiv, if_pos ⟨hcol, hrow⟩]
  have hbyte : ∀ i < 2, c.vram (mapBase p + (2 * (row * 32 + col) + i)) =
      byteOf (tilemapCell p (row * 32 + col)) i := by
    intro i hi
    have hlt : 2 * (row * 32 + col) + i < 2048 := by omega
    have hget := congrArg (·[2 * (row * 32 + col) + i]?) (hmaps p)
    simp only [Mem.bytes, tilemap, List.getElem?_map, List.getElem?_range hlt, Option.map_some,
      Option.some.injEq] at hget
    rw [hget]
    congr 1
    · congr 1
      omega
    · omega
  have hload : c.vram.load16 (mapBase p + 2 * (row * 32 + col)) = tilemapCell p (row * 32 + col) := by
    unfold Mem.load16
    have h0 := hbyte 0 (by omega)
    have h1 := hbyte 1 (by omega)
    rw [Nat.add_zero] at h0
    rw [Nat.add_assoc, h0, h1]
    unfold byteOf
    rw [BitVec.extractLsb'_append_extractLsb'_eq_extractLsb' (by omega)]
    exact BitVec.extractLsb'_eq_self
  have hbase : (scVal p).toNat / 4 * 0x800 = mapBase p := by
    cases p <;> rfl
  have hmap : mapBase p + 2 * (row * 32 + col) < 0x10000 := by
    cases p <;> simp only [mapBase] <;> omega
  unfold Console.tileAt
  rw [hbase, Nat.mod_eq_of_lt hmap, hload, hcell]
  have ht : row * tw + col < nTiles := by
    rw [htw, show nTiles = 750 from rfl]
    omega
  have hlt := tmapIdx_lt p ht
  have hpal : ∀ v : BitVec 16, (v ||| tmapPal1).toNat % 1024 = v.toNat % 1024 := by
    intro v
    have hor := Nat.or_mod_two_pow (a := v.toNat) (b := 1024) (n := 10)
    rw [Nat.mod_self, Nat.or_zero] at hor
    rw [BitVec.toNat_or]
    exact hor
  rw [hpal, Nat.mod_eq_of_lt hlt]

/-- A pixel's colour in a layer whose rows hold the planes of some byte of it. -/
theorem colorAt_eq {c : Console} {row xx planes : Nat} {v : Byte} (hrow : row + 18 ≤ 0x10000)
    (hplanes : planes ≤ 4)
    (hbits : ∀ k < planes, (c.vram (row + (k / 2 * 16 + k % 2))).getLsbD (7 - xx) = v.getLsbD k) :
    c.colorAt row xx planes = ofPlanes v.getLsbD planes := by
  unfold Console.colorAt ofPlanes
  congr 1
  refine List.map_congr_left fun k hk => ?_
  have hk' := List.mem_range.mp hk
  have hlt : row + (k / 2 * 16 + k % 2) < 0x10000 := by omega
  simp only [Nat.add_assoc]
  rw [Nat.mod_eq_of_lt hlt, hbits k hk']

/-- A console that holds a framebuffer in a parity's places and displays this parity shows it. -/
theorem picture_is {c : Console} {p : Parity} {fb : Framebuffer} (hmaps : HoldsMaps c.vram)
    (hthird : ∀ third, HoldsThird c.vram fb third p) (hd : c.Displays p) : c.picture.Is fb := by
  intro x y hx hy
  have hx' : x / 8 < tw := Nat.div_lt_of_lt_mul hx
  have hy' : y / 8 < 25 := Nat.div_lt_of_lt_mul hy
  have ht : y / 8 * tw + x / 8 < nTiles := by
    rw [show tw = 30 from rfl] at hx' ⊢
    rw [show nTiles = 750 from rfl]
    omega
  have hxx : x % 8 < 8 := Nat.mod_lt _ (by omega)
  have hyy : y % 8 < 8 := Nat.mod_lt _ (by omega)
  have htile := tileAt_eq (p := p) hmaps hy' hx'
  generalize hT : y / 8 * tw + x / 8 = t at ht htile
  have hpix : tileRow fb t (y % 8) (x % 8) = fb (y * vw + x) := by
    refine congrArg fb ?_
    subst hT
    have htw : tw = 30 := rfl
    have hvw : vw = 240 := rfl
    rw [htw] at hx' ⊢
    rw [hvw]
    omega
  obtain ⟨hle, hlt⟩ := t0_le ht
  obtain ⟨hplace1, hplace3⟩ := tile_place p ht
  obtain ⟨hend1, hend3⟩ := place_le (thirdOf t) p
  obtain ⟨hslot1, hslot3⟩ := slotFor_place (thirdOf t) p
  obtain ⟨hbase1, hbase3⟩ := nba_chrBase p
  have hheld := hthird (thirdOf t)
  have hb1 : thirdBg1Bytes = 8000 := rfl
  have hb3 : thirdBg3Bytes = 4000 := rfl
  have h250 : thirdTiles = 250 := rfl
  refine Prod.ext ?_ ?_
  · show c.hueAt x y = _
    unfold Console.hueAt
    rw [hd.bg12nba, hd.bg1sc, htile, hbase1, hplace1, ← ofPlanes_hcBaseOf]
    refine colorAt_eq (by omega) (Nat.le_refl 4) fun k hk => ?_
    have hbyte := hheld.bg1 (32 * (t - (thirdOf t).t0) + (y % 8 * 2 + (k / 2 * 16 + k % 2))) (by omega)
    rw [hslot1] at hbyte
    rw [show (place (thirdOf t) p).1 + 32 * (t - (thirdOf t).t0) + y % 8 * 2 + (k / 2 * 16 + k % 2) =
      (place (thirdOf t) p).1 + (32 * (t - (thirdOf t).t0) + (y % 8 * 2 + (k / 2 * 16 + k % 2))) by
      omega, hbyte]
    unfold encodeChr
    have hdiv : (32 * (thirdOf t).t0 + (32 * (t - (thirdOf t).t0) +
        (y % 8 * 2 + (k / 2 * 16 + k % 2)))) / 32 = t := by omega
    have hmod : (32 * (thirdOf t).t0 + (32 * (t - (thirdOf t).t0) +
        (y % 8 * 2 + (k / 2 * 16 + k % 2)))) % 32 = y % 8 * 2 + (k / 2 * 16 + k % 2) := by omega
    simp only [hdiv, hmod]
    have hrow : (y % 8 * 2 + (k / 2 * 16 + k % 2)) % 16 / 2 = y % 8 := by omega
    have hplane : (y % 8 * 2 + (k / 2 * 16 + k % 2)) / 16 * 2 +
        (y % 8 * 2 + (k / 2 * 16 + k % 2)) % 2 = k := by omega
    rw [hrow, hplane, getLsbD_planeByte _ _ hxx, hpix]
  · show c.brightnessAt x y = _
    unfold Console.brightnessAt
    rw [hd.bg34nba, hd.bg3sc, htile, hbase3, hplace3, ← ofPlanes_hcSubOf]
    refine colorAt_eq (by omega) (by omega) fun k hk => ?_
    have hk0 : k / 2 = 0 := by omega
    have hbyte := hheld.bg3 (16 * (t - (thirdOf t).t0) + (y % 8 * 2 + k % 2)) (by omega)
    rw [hslot3] at hbyte
    rw [hk0, show (place (thirdOf t) p).2 + 16 * (t - (thirdOf t).t0) + y % 8 * 2 + (0 * 16 + k % 2) =
      (place (thirdOf t) p).2 + (16 * (t - (thirdOf t).t0) + (y % 8 * 2 + k % 2)) by omega, hbyte]
    unfold encodeChr2
    have hdiv : (16 * (thirdOf t).t0 + (16 * (t - (thirdOf t).t0) + (y % 8 * 2 + k % 2))) / 16 = t := by
      omega
    have hmod : (16 * (thirdOf t).t0 + (16 * (t - (thirdOf t).t0) + (y % 8 * 2 + k % 2))) % 16 =
        y % 8 * 2 + k % 2 := by omega
    simp only [hdiv, hmod]
    have hrow : (y % 8 * 2 + k % 2) / 2 = y % 8 := by omega
    have hplane : (y % 8 * 2 + k % 2) % 2 = k := by omega
    rw [hrow, hplane, getLsbD_planeByte _ _ hxx, hpix]

end Microgarbage.R3d
