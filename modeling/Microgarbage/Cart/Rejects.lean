import Microgarbage.Lib.WordRing
import Microgarbage.Cart.Room

/-!
# Refused calls

What a graphics call with an argument out of range or a pointer that faults does. Most handlers
refuse it and change nothing. The sprite handlers do not check the slot, a register is cut to 8 bits
before it is checked, and a list is copied cell by cell, so that a fault leaves the cells before it
behind.
-/

namespace Microgarbage.Cart

open Lib

/-! ## Lists that are copied cell by cell -/

namespace MgState

/-- The cell of the tilemap that a blit starts with. -/
def blitStart (x y : Byte) : Nat :=
  if 1024 ≤ y.toNat * 32 + x.toNat then 0 else y.toNat * 32 + x.toNat

theorem blitCells_eq (map : Mem) (pos : Nat) (hpos : pos % 2 = 0)
    (cells : List (Option (BitVec 16))) :
    blitCells map pos cells = (writeRing 1024 map (if mgBgTilemapBytes ≤ pos then 0 else pos / 2)
      (prefixWords cells), cells.all Option.isSome) := by
  have hsize : mgBgTilemapBytes = 2048 := rfl
  induction cells generalizing map pos with
  | nil => rfl
  | cons cell cells ih =>
    cases cell with
    | none => rfl
    | some word =>
      unfold blitCells
      dsimp only
      have hcell : (if mgBgTilemapBytes ≤ pos then 0 else pos) =
          (if mgBgTilemapBytes ≤ pos then 0 else pos / 2) % 1024 * 2 := by
        split <;> omega
      generalize hp : (if mgBgTilemapBytes ≤ pos then 0 else pos) = p at hcell ⊢
      generalize (if mgBgTilemapBytes ≤ pos then 0 else pos / 2) = s at hcell
      rw [ih _ _ (by omega), prefixWords, writeRing, ← hcell, List.all_cons]
      refine Prod.ext (writeRing_congr ?_ _) rfl
      split <;> omega

theorem writeColors_eq (cgram : Mem) (i : Nat) (colors : List (Option (BitVec 16)))
    (h : i + colors.length ≤ 256) : writeColors cgram i colors =
      (writeRing 256 cgram i (prefixWords colors), colors.all Option.isSome) := by
  induction colors generalizing cgram i with
  | nil => rfl
  | cons color colors ih =>
    cases color with
    | none => rfl
    | some w =>
      rw [List.length_cons] at h
      unfold writeColors
      rw [ih _ _ (by omega), prefixWords, writeRing, List.all_cons, Nat.mod_eq_of_lt (by omega)]
      rfl

end MgState

/-- The first cell of `n` that cannot be read is behind cells that the memory already holds, as far
as they are not written over again. -/
def InPlace (N n : Nat) (cell : Nat → Option (BitVec 16)) (old : Nat → BitVec 16) : Prop :=
  ∃ k < n, cell k = none ∧ ∀ i < k, ∃ w, cell i = some w ∧ (k ≤ i + N → w = old i)

/-- A list with a fault leaves the memory alone exactly when its first cells are in place. -/
theorem writeRing_inPlace_iff {N n : Nat} {m : Mem} {s : Nat} {cell : Nat → Option (BitVec 16)}
    (hN : 0 < N) (hfault : ∃ i < n, cell i = none) :
    writeRing N m s (prefixWords ((List.range n).map cell)) = m ↔
      InPlace N n cell fun i => m.load16 ((s + i) % N * 2) := by
  have hget : ∀ i, i < n → ((List.range n).map cell)[i]? = some (cell i) := by
    intro i hi
    rw [List.getElem?_map, List.getElem?_range hi]
    rfl
  have hlen : ((List.range n).map cell).length = n := by rw [List.length_map, List.length_range]
  have hbefore : ∀ i, i < (prefixWords ((List.range n).map cell)).length → _ = _ :=
    fun i => getElem?_prefixWords
  have hbehind := getElem?_length_prefixWords ((List.range n).map cell)
  have hle := prefixWords_length_le ((List.range n).map cell)
  have hall := all_isSome_iff ((List.range n).map cell)
  rw [hlen] at hbehind hle hall
  generalize prefixWords ((List.range n).map cell) = ws at *
  have hshort : ws.length < n := by
    refine Nat.lt_of_le_of_ne hle fun heq => ?_
    obtain ⟨i, hi, hnone⟩ := hfault
    have hsome := hall.mpr heq (cell i) (List.mem_map.mpr ⟨i, List.mem_range.mpr hi, rfl⟩)
    rw [hnone] at hsome
    exact Bool.false_ne_true hsome
  have hnone : cell ws.length = none := by
    have h := hbehind hshort
    rw [hget _ hshort] at h
    exact Option.some.inj h
  have hsome : ∀ i, (hi : i < ws.length) → cell i = some ws[i] := by
    intro i hi
    have h := hbefore i hi
    rw [hget _ (by omega), List.getElem?_eq_getElem hi] at h
    exact Option.some.inj h
  rw [writeRing_eq_self_iff hN]
  constructor
  · intro h
    exact ⟨ws.length, hshort, hnone, fun i hi => ⟨ws[i], hsome i hi, h i hi⟩⟩
  · rintro ⟨k, hk, hfirst, hplace⟩ i hi hlast
    have heq : k = ws.length := by
      rcases Nat.lt_trichotomy k ws.length with hlt | heq | hgt
      · exact absurd ((hsome k hlt).symm.trans hfirst) (Option.some_ne_none _)
      · exact heq
      · obtain ⟨w, hw, -⟩ := hplace _ hgt
        exact absurd (hw.symm.trans hnone) (Option.some_ne_none _)
    subst heq
    obtain ⟨w, hw, hold⟩ := hplace i hi
    rw [hsome i hi] at hw
    exact (Option.some.inj hw) ▸ hold hlast

/-! ## Arguments out of range, pointers that fault -/

/-- Results are negative for errors. -/
def IsError (w : Word) : Prop := w.toInt < 0

theorem invalid_isError : IsError mgRErrInvalid := by
  unfold IsError
  decide

theorem bytes_isError : IsError mgRErrDmaBytes := by
  unfold IsError
  decide

theorem ok_not_isError : ¬ IsError mgROk := by
  unfold IsError
  decide

namespace Guest

variable (g : Guest)

/-- The low byte of a register, which is all that a handler sees of an 8-bit argument. -/
def low (w : Word) : Nat := (w.setWidth 8 : Byte).toNat

/-- `vm_translate_write` refuses the range. -/
def WriteFaults (va : Word) (n : Nat) : Prop :=
  ∀ host, Vm.vmTranslateWrite g.cpu va (BitVec.ofNat 32 n) ≠ .ok host

/-- The number of cells of a blit. -/
def blitCount : Nat := (g.a3.setWidth 16 : BitVec 16).toNat

/-- The number of colours after the handler has cut it at the end of the palette. -/
def colorCount : Nat :=
  let count := (g.a1.setWidth 16 : BitVec 16).toNat
  if 256 < low g.a0 + count then 256 - low g.a0 else count

/-- Column and row of a blit. -/
def blitX : Byte := byteOf g.a1 0
def blitY : Byte := byteOf g.a1 1

/-- A slot, layer, channel or coordinate is out of range. -/
def OutOfRange : GraphicsEcall → Prop
  | .spriteSet | .spriteMove | .spriteHide | .spriteGet | .spriteFree => 128 ≤ g.a0.toNat
  | .bgSetup | .bgEnable | .bgScroll | .bgMainPriority => 4 ≤ g.a0.toNat
  | .bgSetTile | .bgGetTile => 4 ≤ g.a0.toNat ∨ 32 ≤ g.a1.toNat ∨ 32 ≤ g.a2.toNat
  | .bgBlit | .bgUpload => 4 ≤ g.a0.toNat ∨ 32 ≤ g.blitX.toNat ∨ 32 ≤ g.blitY.toNat
  | .hdmaSetup => ∃ b, g.read g.a0 4 = some b ∧ (b 0 = 0 ∨ 7 ≤ (b 0).toNat)
  | .hdmaUpload | .hdmaEnable => g.a0 = 0 ∨ 7 ≤ g.a0.toNat
  | .stageDmaSlot => 8 ≤ g.a0.toNat
  | _ => False

/-- A pointer of the call faults, at any element for a list. -/
def Faults (p : MgPanic) : GraphicsEcall → Prop
  | .stagePayload => g.read g.a1 g.a2 = none
  | .spriteSet => g.read g.a1 8 = none
  | .spriteGet => g.WriteFaults g.a1 8
  | .bgGetTile => g.WriteFaults g.a3 2
  | .bgBlit | .bgUpload => ∃ i < g.blitCount, g.cell g.a2 i = none
  | .mode7Set => g.read g.a0 16 = none
  | .hdmaSetup => g.read g.a0 4 = none
  | .hdmaUpload | .chrUpload | .chrUploadTransient =>
    g.size16 ≠ 0 ∧ g.read g.a1 (g.size16.setWidth 32) = none
  | .paletteWrite => ∃ i < g.colorCount, g.color i = none
  | .frameState =>
    g.a0 = 5 ∧ p.active = true ∧ p.readable g.a2 ≠ 0 ∧ g.WriteFaults g.a1 (p.readable g.a2) ∨
      g.a0 = 6 ∧ p.active = true ∧ g.WriteFaults g.a1 44
  | .nmiInstall | .hirqInstall => g.read g.a0 g.a1 = none
  | _ => False

/-- The call stays inside the arrays, and with an argument out of range or a pointer that faults it
returns an error and changes nothing. -/
def Refuses (c : Copro) (p : MgPanic) (e : GraphicsEcall) : Prop :=
  ∃ r, g.handle c p e = some r ∧ Copro.InBounds c r.copro ∧
    (g.OutOfRange e ∨ g.Faults p e → IsError r.a0 ∧ r.copro = c)

/-- The cells before the first fault stand in the tilemap of the layer. -/
def BlitInPlace (c : Copro) : Prop :=
  ∃ h : low g.a0 < 4, InPlace 1024 g.blitCount (g.cell g.a2) fun i =>
    (c.state.bg ⟨low g.a0, h⟩).shadow.load16
      ((MgState.blitStart g.blitX g.blitY + i) % 1024 * 2)

/-- The colours before the first fault stand in the palette. -/
def ColorsInPlace (c : Copro) : Prop :=
  InPlace 256 g.colorCount g.color fun i => c.state.cgramShadow.load16 ((low g.a0 + i) % 256 * 2)

/-- When a call does what it should. -/
def RefusesWhen (c : Copro) (p : MgPanic) : GraphicsEcall → Prop
  | .spriteSet => g.a0.toNat < 128 ∨ g.read g.a1 8 = none
  | .spriteMove | .spriteHide => g.a0.toNat < 128
  | .spriteGet => g.a0.toNat < 128 ∨ low g.a0 < 128 ∧ g.WriteFaults g.a1 8
  | .spriteFree => g.a0.toNat < 128 ∨ IsError g.a0
  | .bgSetup | .bgEnable | .bgScroll => g.a0.toNat < 4 ∨ 4 ≤ low g.a0
  | .bgMainPriority => g.a0.toNat < 4
  | .bgSetTile => g.a0.toNat < 4 ∧ g.a1.toNat < 32 ∧ g.a2.toNat < 32 ∨
      4 ≤ low g.a0 ∨ 32 ≤ low g.a1 ∨ 32 ≤ low g.a2
  | .bgGetTile => g.a0.toNat < 4 ∧ g.a1.toNat < 32 ∧ g.a2.toNat < 32 ∨
      4 ≤ low g.a0 ∨ 32 ≤ low g.a1 ∨ 32 ≤ low g.a2 ∨ g.WriteFaults g.a3 2
  | .bgBlit | .bgUpload => 4 ≤ low g.a0 ∨ g.BlitInPlace c ∨
      g.a0.toNat < 4 ∧ g.blitX.toNat < 32 ∧ g.blitY.toNat < 32 ∧ ¬ g.Faults p .bgBlit
  | .hdmaUpload => g.a0 ≠ 0 ∧ g.a0.toNat < 7 ∨ low g.a0 = 0 ∨ 7 ≤ low g.a0 ∨
      g.size16 ≠ 0 ∧ (g.read g.a1 (g.size16.setWidth 32) = none ∨
        hdmaTablesBytes < c.hdmaTablesUsed + g.size16.toNat)
  | .hdmaEnable => g.a0 ≠ 0 ∧ g.a0.toNat < 7 ∨ low g.a0 = 0 ∨ 7 ≤ low g.a0
  | .paletteWrite => ¬ g.Faults p .paletteWrite ∨ g.ColorsInPlace c
  | _ => True

variable {g : Guest} {c : Copro} {p : MgPanic} {e : GraphicsEcall}

theorem low_lt (w : Word) : low w < 256 := (w.setWidth 8 : Byte).isLt

theorem low_eq (w : Word) : low w = w.toNat % 256 := BitVec.toNat_setWidth ..

/-! ## Decoded calls -/

variable {mg : MgCall}

theorem handle_call {r : Word × Copro} (hd : g.decode e = some mg) (hr : mg.apply c = some r) :
    g.handle c p e = some (g.reply r.2 r.1) := by
  unfold handle call
  rw [hd]
  dsimp only
  rw [hr]
  rfl

/-- A call is judged by its result alone, since a decoded call stays inside the arrays. -/
theorem refuses_call (hc : c.Reached) {r : Word × Copro} (hd : g.decode e = some mg)
    (hr : mg.apply c = some r) :
    g.Refuses c p e ↔ (g.OutOfRange e ∨ g.Faults p e → IsError r.1 ∧ r.2 = c) := by
  unfold Refuses
  rw [handle_call hd hr]
  constructor
  · rintro ⟨x, hx, -, hbad⟩
    cases hx
    exact hbad
  · intro hbad
    exact ⟨_, rfl, Copro.call_inBounds hc hr, hbad⟩

theorem refuses_call_iff (hc : c.Reached) {r : Word × Copro} (hd : g.decode e = some mg)
    (hr : mg.apply c = some r) {R : Prop} (hyes : R → IsError r.1 ∧ r.2 = c)
    (hno : ¬ R → ¬ (IsError r.1 ∧ r.2 = c)) :
    g.Refuses c p e ↔ (g.OutOfRange e ∨ g.Faults p e → R) := by
  rw [refuses_call hc hd hr]
  exact ⟨fun h hbad => by_contra fun hn => hno hn (h hbad), fun h hbad => hyes (h hbad)⟩

theorem not_refuses_call (hd : g.decode e = some mg) (hr : mg.apply c = none) :
    ¬ g.Refuses c p e := by
  rintro ⟨r, hx, -⟩
  unfold handle call at hx
  rw [hd] at hx
  dsimp only at hx
  rw [hr] at hx
  cases hx

theorem refuses_answer (hc : c.Reached) {r : Reply} (hd : g.decode e = none)
    (hr : g.answer c p e = some r) :
    g.Refuses c p e ↔ (g.OutOfRange e ∨ g.Faults p e → IsError r.a0) := by
  have hcopro := answer_copro hr
  unfold Refuses handle
  rw [hd]
  dsimp only
  rw [hr]
  constructor
  · rintro ⟨x, hx, -, hbad⟩
    cases hx
    exact fun h => (hbad h).1
  · intro hbad
    refine ⟨r, rfl, ?_, fun h => ⟨hbad h, hcopro⟩⟩
    rw [hcopro]
    exact Copro.Within.refl.inBounds hc.room

theorem refuses_plain (hc : c.Reached) {r : Word × Copro} (hd : g.decode e = some mg)
    (hr : mg.apply c = some r) (hgood : ¬ (g.OutOfRange e ∨ g.Faults p e)) : g.Refuses c p e :=
  (refuses_call hc hd hr).mpr fun hbad => absurd hbad hgood

/-! ## Calls on the shadows -/

variable {call : ShadowCall}

theorem refuses_shadow_iff (hc : c.Reached) {x : Word × MgState}
    (hd : g.decode e = some (.shadow call)) (hx : call.apply c.state = some x) {R : Prop}
    (hyes : R → IsError x.1 ∧ x.2 = c.state) (hno : ¬ R → ¬ (IsError x.1 ∧ x.2 = c.state)) :
    g.Refuses c p e ↔ (g.OutOfRange e ∨ g.Faults p e → R) := by
  have hr : (MgCall.shadow call).apply c = some (x.1, { c with state := x.2 }) := by
    unfold MgCall.apply
    dsimp only
    rw [hx]
    rfl
  refine refuses_call_iff hc hd hr (fun h => ⟨(hyes h).1, ?_⟩) fun h hsame => hno h ⟨hsame.1, ?_⟩
  · rw [(hyes h).2]
  · exact congrArg Copro.state hsame.2

theorem refuses_shadow_plain (hc : c.Reached) {x : Word × MgState}
    (hd : g.decode e = some (.shadow call)) (hx : call.apply c.state = some x)
    (hgood : ¬ (g.OutOfRange e ∨ g.Faults p e)) : g.Refuses c p e :=
  (refuses_shadow_iff hc hd hx (R := IsError x.1 ∧ x.2 = c.state) id id).mpr
    fun hbad => absurd hbad hgood

/-- A call that has nothing to do but to refuse. -/
theorem refuses_invalid (hc : c.Reached) (hd : g.decode e = some (.shadow call))
    (hx : call.apply c.state = some (mgRErrInvalid, c.state)) : g.Refuses c p e :=
  (refuses_shadow_iff hc hd hx (R := True) (fun _ => ⟨invalid_isError, rfl⟩)
    fun h => absurd trivial h).mpr fun _ => trivial

theorem refuses_slot_iff (hc : c.Reached) {n : Nat} {f : Nat → Word × MgState}
    (hd : g.decode e = some (.shadow call))
    (hx : call.apply c.state = (oamSlot (g.a0.setWidth 8) n).map f) (hok : ∀ s, (f s).1 = mgROk) :
    g.Refuses c p e ↔ low g.a0 < n ∧ ¬ (g.OutOfRange e ∨ g.Faults p e) := by
  have hslot : oamSlot (g.a0.setWidth 8) n = if low g.a0 < n then some (low g.a0) else none := rfl
  by_cases hlt : low g.a0 < n
  · rw [hslot, if_pos hlt] at hx
    rw [refuses_shadow_iff hc hd hx (R := False) False.elim
      fun _ h => ok_not_isError ((hok _) ▸ h.1)]
    exact ⟨fun h => ⟨hlt, h⟩, fun h => h.2⟩
  · rw [hslot, if_neg hlt] at hx
    have hr : (MgCall.shadow call).apply c = none := by
      unfold MgCall.apply
      dsimp only
      rw [hx]
      rfl
    exact iff_of_false (not_refuses_call hd hr) fun h => hlt h.1

theorem refuses_spriteSet (hc : c.Reached) :
    g.Refuses c p .spriteSet ↔ g.RefusesWhen c p .spriteSet := by
  have hlow := low_eq g.a0
  unfold RefusesWhen
  cases hread : g.read g.a1 8 with
  | none =>
    have hd : g.decode .spriteSet = some (.shadow (.spriteSet (g.a0.setWidth 8) none)) := by
      unfold decode
      rw [hread]
      rfl
    exact iff_of_true (refuses_invalid hc hd rfl) (.inr rfl)
  | some b =>
    have hd : g.decode .spriteSet =
        some (.shadow (.spriteSet (g.a0.setWidth 8) (some (.ofBytes b)))) := by
      unfold decode
      rw [hread]
      rfl
    have hsome : ¬ some b = none := Option.some_ne_none b
    rw [refuses_slot_iff hc hd rfl fun _ => rfl]
    unfold OutOfRange Faults
    dsimp only
    rw [hread]
    simp only [hsome, or_false]
    omega

theorem refuses_spriteMove (hc : c.Reached) :
    g.Refuses c p .spriteMove ↔ g.RefusesWhen c p .spriteMove := by
  have hlow := low_eq g.a0
  rw [refuses_slot_iff hc rfl rfl fun _ => rfl]
  unfold OutOfRange Faults RefusesWhen
  simp only [or_false]
  omega

theorem refuses_spriteHide (hc : c.Reached) :
    g.Refuses c p .spriteHide ↔ g.RefusesWhen c p .spriteHide := by
  have hlow := low_eq g.a0
  rw [refuses_slot_iff hc rfl rfl fun _ => rfl]
  unfold OutOfRange Faults RefusesWhen
  simp only [or_false]
  omega

theorem refuses_layer_iff (hc : c.Reached) {f : Fin 4 → Word × MgState}
    (hd : g.decode e = some (.shadow call))
    (hx : call.apply c.state = some (c.state.onLayer (g.a0.setWidth 8) f)) {R : Fin 4 → Prop}
    (hyes : ∀ l, R l → IsError (f l).1 ∧ (f l).2 = c.state)
    (hno : ∀ l, ¬ R l → ¬ (IsError (f l).1 ∧ (f l).2 = c.state)) :
    g.Refuses c p e ↔ (g.OutOfRange e ∨ g.Faults p e → ∀ h : low g.a0 < 4, R ⟨low g.a0, h⟩) := by
  unfold MgState.onLayer at hx
  by_cases h : low g.a0 < 4
  · have hlayer : (g.a0.setWidth 8 : Byte).toNat < 4 := h
    rw [dif_pos hlayer] at hx
    rw [refuses_shadow_iff hc hd hx (hyes _) (hno _)]
    exact ⟨fun hr hbad _ => hr hbad, fun hr hbad => hr hbad h⟩
  · have hlayer : ¬ (g.a0.setWidth 8 : Byte).toNat < 4 := h
    rw [dif_neg hlayer] at hx
    exact iff_of_true (refuses_invalid hc hd hx) fun _ hl => absurd hl h

theorem refuses_layer_only_iff (hc : c.Reached) {f : Fin 4 → Word × MgState}
    (hd : g.decode e = some (.shadow call))
    (hx : call.apply c.state = some (c.state.onLayer (g.a0.setWidth 8) f))
    (hok : ∀ l, (f l).1 = mgROk) (hrange : g.OutOfRange e ↔ 4 ≤ g.a0.toNat)
    (hfault : ¬ g.Faults p e) : g.Refuses c p e ↔ g.a0.toNat < 4 ∨ 4 ≤ low g.a0 := by
  have hlow := low_eq g.a0
  rw [refuses_layer_iff hc hd hx (R := fun _ => False) (fun _ => False.elim)
    fun l _ h => ok_not_isError (hok l ▸ h.1), hrange]
  simp only [hfault, or_false]
  constructor
  · intro h
    by_contra hn
    exact h (by omega) (by omega)
  · intro h hle hl
    omega

theorem refuses_bgSetup (hc : c.Reached) :
    g.Refuses c p .bgSetup ↔ g.RefusesWhen c p .bgSetup :=
  refuses_layer_only_iff hc rfl rfl (fun _ => rfl) Iff.rfl id

theorem refuses_bgEnable (hc : c.Reached) :
    g.Refuses c p .bgEnable ↔ g.RefusesWhen c p .bgEnable :=
  refuses_layer_only_iff hc rfl rfl (fun _ => rfl) Iff.rfl id

theorem refuses_bgScroll (hc : c.Reached) :
    g.Refuses c p .bgScroll ↔ g.RefusesWhen c p .bgScroll :=
  refuses_layer_only_iff hc rfl rfl (fun _ => rfl) Iff.rfl id

theorem refuses_bgSetTile (hc : c.Reached) :
    g.Refuses c p .bgSetTile ↔ g.RefusesWhen c p .bgSetTile := by
  have hlow := low_eq g.a0
  have hx := low_eq g.a1
  have hy := low_eq g.a2
  rw [refuses_layer_iff hc rfl rfl (R := fun _ => 32 ≤ low g.a1 ∨ 32 ≤ low g.a2)]
  · unfold OutOfRange Faults RefusesWhen
    dsimp only
    rw [or_false]
    constructor
    · intro h
      by_contra hn
      have hin := h (by omega) (by omega)
      omega
    · intro h hbad hl
      omega
  · intro l h
    have hout : 32 ≤ (g.a1.setWidth 8 : Byte).toNat ∨ 32 ≤ (g.a2.setWidth 8 : Byte).toNat := h
    rw [if_pos hout]
    exact ⟨invalid_isError, rfl⟩
  · intro l h
    have hin : ¬ (32 ≤ (g.a1.setWidth 8 : Byte).toNat ∨ 32 ≤ (g.a2.setWidth 8 : Byte).toNat) := h
    rw [if_neg hin]
    exact fun hs => ok_not_isError hs.1

theorem setBg_shadow_eq_iff {st : MgState} {l : Fin 4} {m : Mem} :
    (st.setBg l fun bg => { bg with shadow := m }) = st ↔ m = (st.bg l).shadow := by
  unfold MgState.setBg
  constructor
  · intro h
    have hl := congrArg (fun st : MgState => (st.bg l).shadow) h
    dsimp only at hl
    rw [Function.update_self] at hl
    exact hl
  · rintro rfl
    rw [Function.update_eq_self]

theorem all_isSome_range {n : Nat} {cell : Nat → Option (BitVec 16)} :
    ((List.range n).map cell).all Option.isSome = true ↔ ¬ ∃ i < n, cell i = none := by
  rw [List.all_eq_true]
  constructor
  · rintro h ⟨i, hi, hnone⟩
    have hsome := h (cell i) (List.mem_map.mpr ⟨i, List.mem_range.mpr hi, rfl⟩)
    rw [hnone] at hsome
    exact Bool.false_ne_true hsome
  · intro h x hx
    obtain ⟨i, hi, rfl⟩ := List.mem_map.mp hx
    exact Option.isSome_iff_ne_none.mpr fun hnone => h ⟨i, List.mem_range.mp hi, hnone⟩

theorem InPlace.fault {N n : Nat} {cell : Nat → Option (BitVec 16)} {old : Nat → BitVec 16}
    (h : InPlace N n cell old) : ∃ i < n, cell i = none := by
  obtain ⟨k, hk, hnone, -⟩ := h
  exact ⟨k, hk, hnone⟩

theorem refuses_bgBlit_iff (hc : c.Reached) (hd : g.decode e = some (.shadow g.bgBlit)) :
    g.Refuses c p e ↔
      (g.OutOfRange e ∨ g.Faults p e → ∀ h : low g.a0 < 4,
        InPlace 1024 g.blitCount (g.cell g.a2) fun i =>
          (c.state.bg ⟨low g.a0, h⟩).shadow.load16
            ((MgState.blitStart g.blitX g.blitY + i) % 1024 * 2)) := by
  have hstart : (if mgBgTilemapBytes ≤ (g.blitY.toNat * 32 + g.blitX.toNat) * 2 then 0
      else (g.blitY.toNat * 32 + g.blitX.toNat) * 2 / 2) = MgState.blitStart g.blitX g.blitY := by
    have hsize : mgBgTilemapBytes = 2048 := rfl
    unfold MgState.blitStart
    split <;> split <;> omega
  have hcells : ∀ l : Fin 4, MgState.blitCells (c.state.bg l).shadow
      ((g.blitY.toNat * 32 + g.blitX.toNat) * 2) g.cells =
        (writeRing 1024 (c.state.bg l).shadow (MgState.blitStart g.blitX g.blitY)
          (prefixWords g.cells), g.cells.all Option.isSome) := by
    intro l
    rw [MgState.blitCells_eq _ _ (by omega), hstart]
  have hall : g.cells.all Option.isSome = true ↔ ¬ ∃ i < g.blitCount, g.cell g.a2 i = none :=
    all_isSome_range
  have hplace := fun (l : Fin 4) (h : ∃ i < g.blitCount, g.cell g.a2 i = none) =>
    writeRing_inPlace_iff (N := 1024) (m := (c.state.bg l).shadow)
      (s := MgState.blitStart g.blitX g.blitY) (by decide) h
  have hunfold : (g.blitY.toNat * 32 + g.blitX.toNat) * 2 =
    ((byteOf g.a1 1).toNat * 32 + (byteOf g.a1 0).toNat) * 2 := rfl
  refine refuses_layer_iff hc hd rfl (R := fun l => InPlace 1024 g.blitCount (g.cell g.a2) fun i =>
    (c.state.bg l).shadow.load16 ((MgState.blitStart g.blitX g.blitY + i) % 1024 * 2)) ?_ ?_
  · intro l h
    have hfault := InPlace.fault h
    have hsome : ¬ g.cells.all Option.isSome = true := fun hs => hall.mp hs hfault
    have hsame := (hplace l hfault).mpr h
    dsimp only
    rw [← hunfold, hcells l]
    dsimp only
    rw [if_neg hsome]
    exact ⟨invalid_isError, setBg_shadow_eq_iff.mpr hsame⟩
  · intro l h
    dsimp only
    rw [← hunfold, hcells l]
    dsimp only
    by_cases hsome : g.cells.all Option.isSome = true
    · rw [if_pos hsome]
      exact fun hs => ok_not_isError hs.1
    · rw [if_neg hsome]
      have hfault : ∃ i < g.blitCount, g.cell g.a2 i = none := by
        by_contra hn
        exact hsome (hall.mpr hn)
      exact fun hs => h ((hplace l hfault).mp (setBg_shadow_eq_iff.mp hs.2))

/-- A blit wraps where another call refuses, and keeps the cells before a fault. -/
theorem refuses_blit (hc : c.Reached) (hd : g.decode e = some (.shadow g.bgBlit))
    (hrange : g.OutOfRange e ↔ g.OutOfRange .bgBlit) (hfault : g.Faults p e ↔ g.Faults p .bgBlit) :
    g.Refuses c p e ↔ g.RefusesWhen c p .bgBlit := by
  have hlow := low_eq g.a0
  rw [refuses_bgBlit_iff hc hd, hrange, hfault]
  unfold RefusesWhen BlitInPlace
  dsimp only
  constructor
  · intro h
    by_cases hl : low g.a0 < 4
    · by_cases hbad : g.OutOfRange .bgBlit ∨ g.Faults p .bgBlit
      · exact .inr (.inl ⟨hl, h hbad hl⟩)
      · obtain ⟨hgood, hreadable⟩ := not_or.mp hbad
        unfold OutOfRange at hgood
        dsimp only at hgood
        exact .inr (.inr ⟨by omega, by omega, by omega, hreadable⟩)
    · exact .inl (Nat.le_of_not_lt hl)
  · rintro (hout | ⟨hl', hplace⟩ | ⟨h0, hx, hy, hreadable⟩) hbad hl
    · omega
    · exact hplace
    · unfold OutOfRange at hbad
      dsimp only at hbad
      rcases hbad with hr | hf
      · omega
      · exact absurd hf hreadable

theorem refuses_mode7Set (hc : c.Reached) : g.Refuses c p .mode7Set := by
  cases hread : g.read g.a0 16 with
  | none =>
    have hd : g.decode .mode7Set = some (.shadow (.mode7Set none)) := by
      unfold decode
      rw [hread]
      rfl
    exact refuses_invalid hc hd rfl
  | some b =>
    have hgood : ¬ (g.OutOfRange .mode7Set ∨ g.Faults p .mode7Set) := by
      unfold OutOfRange Faults
      dsimp only
      rw [hread]
      exact fun h => h.elim id (Option.some_ne_none b)
    exact refuses_shadow_plain hc rfl rfl hgood

/-! ## HDMA -/

theorem refuses_hdmaSetup (hc : c.Reached) : g.Refuses c p .hdmaSetup := by
  cases hread : g.read g.a0 4 with
  | none =>
    have hd : g.decode .hdmaSetup = some (.shadow (.hdmaSetup none)) := by
      unfold decode
      rw [hread]
      rfl
    exact refuses_invalid hc hd rfl
  | some b =>
    have hd : g.decode .hdmaSetup = some (.shadow (.hdmaSetup (some (.ofBytes b)))) := by
      unfold decode
      rw [hread]
      rfl
    have hbad : g.OutOfRange .hdmaSetup ∨ g.Faults p .hdmaSetup ↔ b 0 = 0 ∨ 7 ≤ (b 0).toNat := by
      unfold OutOfRange Faults
      dsimp only
      rw [hread]
      constructor
      · rintro (⟨b', hb, h⟩ | hnone)
        · exact Option.some.inj hb ▸ h
        · exact absurd hnone (Option.some_ne_none b)
      · exact fun h => .inl ⟨b, rfl, h⟩
    refine (refuses_shadow_iff hc hd rfl (R := b 0 = 0 ∨ 7 ≤ (b 0).toNat) ?_ ?_).mpr hbad.mp
    · intro h
      unfold MgState.hdmaSetup MgState.onChannel
      dsimp only [MgState.MgHdmaCfgHost.ofBytes]
      split
      · rw [if_pos (h.resolve_right (by omega))]
        exact ⟨invalid_isError, rfl⟩
      · exact ⟨invalid_isError, rfl⟩
    · intro h
      obtain ⟨hne, hlt⟩ := not_or.mp h
      unfold MgState.hdmaSetup MgState.onChannel
      dsimp only [MgState.MgHdmaCfgHost.ofBytes]
      rw [dif_pos (Nat.lt_of_not_le hlt), if_neg hne]
      exact fun hs => ok_not_isError hs.1

theorem low_eq_zero_iff (w : Word) : (w.setWidth 8 : Byte) = 0 ↔ low w = 0 :=
  ⟨fun h => congrArg BitVec.toNat h, fun h => BitVec.eq_of_toNat_eq h⟩

theorem eq_zero_iff_toNat (w : Word) : w = 0 ↔ w.toNat = 0 :=
  ⟨fun h => congrArg BitVec.toNat h, fun h => BitVec.eq_of_toNat_eq h⟩

theorem refuses_hdmaEnable (hc : c.Reached) :
    g.Refuses c p .hdmaEnable ↔ g.RefusesWhen c p .hdmaEnable := by
  have hlow := low_eq g.a0
  have hzero := eq_zero_iff_toNat g.a0
  rw [refuses_shadow_iff hc rfl rfl (R := low g.a0 = 0 ∨ 7 ≤ low g.a0)]
  · unfold OutOfRange Faults RefusesWhen
    dsimp only
    rw [or_false, hzero]
    have hne : g.a0 ≠ 0 ↔ g.a0.toNat ≠ 0 := not_congr hzero
    rw [hne]
    omega
  · intro h
    unfold MgState.hdmaEnable MgState.onChannel
    have hchannel : (g.a0.setWidth 8 : Byte).toNat = low g.a0 := rfl
    split
    · rw [if_pos ((low_eq_zero_iff _).mpr (h.resolve_right (by omega)))]
      exact ⟨invalid_isError, rfl⟩
    · exact ⟨invalid_isError, rfl⟩
  · intro h
    obtain ⟨hne, hlt⟩ := not_or.mp h
    unfold MgState.hdmaEnable MgState.onChannel
    have hin : (g.a0.setWidth 8 : Byte).toNat < 7 := Nat.lt_of_not_le hlt
    rw [dif_pos hin, if_neg fun h0 => hne ((low_eq_zero_iff _).mp h0)]
    exact fun hs => ok_not_isError hs.1

theorem refuses_hdmaUpload (hc : c.Reached) :
    g.Refuses c p .hdmaUpload ↔ g.RefusesWhen c p .hdmaUpload := by
  have hlow := low_eq g.a0
  have hzero := eq_zero_iff_toNat g.a0
  have hchannel : (g.a0.setWidth 8 : Byte).toNat = low g.a0 := rfl
  generalize hsrc : g.read g.a1 (g.size16.setWidth 32) = src
  have hd : g.decode .hdmaUpload = some (.hdmaUpload (g.a0.setWidth 8) g.size16 src) := by
    rw [← hsrc]
    rfl
  rw [refuses_call_iff hc hd rfl (R := low g.a0 = 0 ∨ 7 ≤ low g.a0 ∨
    g.size16 ≠ 0 ∧ (src = none ∨ hdmaTablesBytes < c.hdmaTablesUsed + g.size16.toNat))]
  · unfold OutOfRange Faults RefusesWhen
    dsimp only
    have hne : g.a0 ≠ 0 ↔ g.a0.toNat ≠ 0 := not_congr hzero
    rw [hsrc, hne, hzero]
    constructor
    · intro h
      by_cases hin : g.a0.toNat ≠ 0 ∧ g.a0.toNat < 7
      · exact .inl hin
      · exact .inr (h (.inl (by omega)))
    · rintro (hin | hout) (hbad | hfault)
      · omega
      · exact .inr (.inr ⟨hfault.1, .inl hfault.2⟩)
      · exact hout
      · exact hout
  · intro h
    unfold Copro.hdmaUpload
    by_cases hlt : (g.a0.setWidth 8 : Byte).toNat < 7
    · rw [dif_pos hlt]
      by_cases h0 : (g.a0.setWidth 8 : Byte) = 0
      · rw [if_pos h0]
        exact ⟨invalid_isError, rfl⟩
      · have hne : low g.a0 ≠ 0 := fun hz => h0 ((low_eq_zero_iff _).mpr hz)
        obtain ⟨hsize, hor⟩ := (h.resolve_left hne).resolve_left (by omega)
        rw [if_neg h0, if_neg hsize]
        cases src with
        | none => exact ⟨invalid_isError, rfl⟩
        | some src =>
          have hfull := hor.resolve_left (Option.some_ne_none src)
          have hlen : (readBytes src g.size16.toNat).length = g.size16.toNat := Mem.length_bytes ..
          have hpos : ¬ g.size16.toNat = 0 := fun hz => hsize (BitVec.eq_of_toNat_eq hz)
          have hnone : c.stageHdmaTable (readBytes src g.size16.toNat) = none := by
            unfold Copro.stageHdmaTable
            rw [hlen, if_neg hpos, if_pos hfull]
          dsimp only
          rw [hnone]
          exact ⟨bytes_isError, rfl⟩
    · rw [dif_neg hlt]
      exact ⟨invalid_isError, rfl⟩
  · intro h hs
    obtain ⟨hne, hrest⟩ := not_or.mp h
    obtain ⟨hlt, hok⟩ := not_or.mp hrest
    have hin : (g.a0.setWidth 8 : Byte).toNat < 7 := Nat.lt_of_not_le hlt
    unfold Copro.hdmaUpload at hs
    rw [dif_pos hin, if_neg fun h0 => hne ((low_eq_zero_iff _).mp h0)] at hs
    by_cases hsize : g.size16 = 0
    · rw [if_pos hsize] at hs
      exact ok_not_isError hs.1
    · obtain ⟨hreadable, hroom⟩ := not_or.mp fun hor => hok ⟨hsize, hor⟩
      rw [if_neg hsize] at hs
      cases src with
      | none => exact hreadable rfl
      | some src =>
        have hlen : (readBytes src g.size16.toNat).length = g.size16.toNat := Mem.length_bytes ..
        have hpos : ¬ g.size16.toNat = 0 := fun hz => hsize (BitVec.eq_of_toNat_eq hz)
        unfold Copro.stageHdmaTable at hs
        dsimp only at hs
        rw [hlen, if_neg hpos, if_neg hroom] at hs
        exact ok_not_isError hs.1

/-! ## Uploads and the palette -/

theorem refuses_upload (hc : c.Reached) {queue : Copro → List Byte → Int × Copro}
    (hd : g.decode e = some mg)
    (hr : mg.apply c = some (c.chrUploadVia queue g.size16 (g.read g.a1 (g.size16.setWidth 32))))
    (hrange : ¬ g.OutOfRange e)
    (hfault : g.Faults p e ↔ g.size16 ≠ 0 ∧ g.read g.a1 (g.size16.setWidth 32) = none) :
    g.Refuses c p e := by
  rw [refuses_call hc hd hr, hfault]
  rintro (hout | ⟨hsize, hnone⟩)
  · exact absurd hout hrange
  · unfold Copro.chrUploadVia
    rw [if_neg hsize, hnone]
    exact ⟨invalid_isError, rfl⟩

theorem refuses_paletteWrite (hc : c.Reached) :
    g.Refuses c p .paletteWrite ↔ g.RefusesWhen c p .paletteWrite := by
  have hlow := low_lt g.a0
  have hcount : g.colorCount = if 256 < low g.a0 + (g.a1.setWidth 16 : BitVec 16).toNat
      then 256 - low g.a0 else (g.a1.setWidth 16 : BitVec 16).toNat := rfl
  have hfit : low g.a0 + g.colorCount ≤ 256 := by
    rw [hcount]
    split <;> omega
  have hcolors : MgState.writeColors c.state.cgramShadow (low g.a0)
      ((List.range g.colorCount).map g.color) =
        (writeRing 256 c.state.cgramShadow (low g.a0)
          (prefixWords ((List.range g.colorCount).map g.color)),
          ((List.range g.colorCount).map g.color).all Option.isSome) :=
    MgState.writeColors_eq _ _ _ (by rw [List.length_map, List.length_range]; exact hfit)
  have hall : ((List.range g.colorCount).map g.color).all Option.isSome = true ↔ _ :=
    all_isSome_range
  have hplace := fun h : ∃ i < g.colorCount, g.color i = none =>
    writeRing_inPlace_iff (N := 256) (m := c.state.cgramShadow) (s := low g.a0) (by decide) h
  generalize writeRing 256 c.state.cgramShadow (low g.a0)
    (prefixWords ((List.range g.colorCount).map g.color)) = m at hcolors hplace
  have hsome : (¬ ∃ i < g.colorCount, g.color i = none) →
      (c.state.paletteWrite (g.a0.setWidth 8) (g.a1.setWidth 16 : BitVec 16).toNat g.color).1 =
        mgROk := by
    intro h
    unfold MgState.paletteWrite
    split
    · rfl
    · have hstart : (g.a0.setWidth 8 : Byte).toNat = low g.a0 := rfl
      dsimp only
      rw [hstart, ← hcount, hcolors]
      dsimp only
      rw [if_pos (hall.mpr h)]
  have hnone : (∃ i < g.colorCount, g.color i = none) →
      c.state.paletteWrite (g.a0.setWidth 8) (g.a1.setWidth 16 : BitVec 16).toNat g.color =
        (mgRErrInvalid, { c.state with cgramShadow := m }) := by
    intro h
    have hpos : ¬ (g.a1.setWidth 16 : BitVec 16).toNat = 0 := by
      obtain ⟨i, hi, -⟩ := h
      rw [hcount] at hi
      split at hi <;> omega
    have hstart : (g.a0.setWidth 8 : Byte).toNat = low g.a0 := rfl
    unfold MgState.paletteWrite
    dsimp only
    rw [if_neg hpos, hstart, ← hcount, hcolors]
    dsimp only
    rw [if_neg fun hs => hall.mp hs h]
  have hsame : { c.state with cgramShadow := m } = c.state ↔ m = c.state.cgramShadow := by
    constructor
    · exact fun h => congrArg MgState.cgramShadow h
    · rintro rfl
      rfl
  rw [refuses_shadow_iff hc rfl rfl (R := g.ColorsInPlace c)]
  · unfold OutOfRange Faults RefusesWhen
    dsimp only
    rw [false_or]
    unfold Faults
    exact Decidable.imp_iff_not_or
  · intro h
    have hfault := InPlace.fault h
    rw [hnone hfault]
    exact ⟨invalid_isError, hsame.mpr ((hplace hfault).mpr h)⟩
  · intro h hs
    by_cases hfault : ∃ i < g.colorCount, g.color i = none
    · rw [hnone hfault] at hs
      exact h ((hplace hfault).mp (hsame.mp hs.2))
    · rw [hsome hfault] at hs
      exact ok_not_isError hs.1

/-! ## The window -/

theorem einval_isError : IsError (-einval) ∧ IsError (-efault) := by
  unfold IsError
  decide

theorem refuses_stagePayload (hc : c.Reached) : g.Refuses c p .stagePayload := by
  refine (refuses_call hc rfl rfl).mpr ?_
  rintro (hout | hnone)
  · exact hout.elim
  · have hread : g.read g.a1 g.a2 = none := hnone
    unfold Copro.stagePayload
    split
    · exact ⟨einval_isError.1, rfl⟩
    · split
      · exact ⟨einval_isError.1, rfl⟩
      · rw [hread]
        exact ⟨einval_isError.2, rfl⟩

theorem refuses_stageDmaSlot (hc : c.Reached) : g.Refuses c p .stageDmaSlot := by
  refine (refuses_call hc rfl rfl).mpr ?_
  rintro (hout | hnone)
  · have hslot : 8 ≤ g.a0.toNat := hout
    unfold Copro.stageDmaSlot
    rw [if_pos hslot]
    exact ⟨einval_isError.1, rfl⟩
  · exact hnone.elim

theorem refuses_install (hc : c.Reached) {off : Nat} {bump : CartWindow → CartWindow}
    (hd : g.decode e = some mg)
    (hr : mg.apply c = some (c.installCode off g.a1 (g.read g.a0 g.a1) bump))
    (hrange : ¬ g.OutOfRange e) (hfault : g.Faults p e ↔ g.read g.a0 g.a1 = none) :
    g.Refuses c p e := by
  rw [refuses_call hc hd hr, hfault]
  rintro (hout | hnone)
  · exact absurd hout hrange
  · unfold Copro.installCode
    split
    · exact ⟨einval_isError.1, rfl⟩
    · rw [hnone]
      exact ⟨einval_isError.2, rfl⟩

/-! ## Calls that only read -/

theorem replyAt_fault {va : Word} {bs : List Byte} (h : g.WriteFaults va bs.length) (a0 : Word) :
    g.replyAt c va bs a0 = g.reply c mgRErrInvalid := by
  have hnone : g.write va bs = none := by
    unfold write
    cases hx : Vm.vmTranslateWrite g.cpu va (BitVec.ofNat 32 bs.length) with
    | ok host => exact absurd hx (h host)
    | error _ => rfl
  unfold replyAt
  rw [hnone]

theorem replyAt_ok {va : Word} {bs : List Byte} (h : ¬ g.WriteFaults va bs.length) (a0 : Word) :
    (g.replyAt c va bs a0).a0 = a0 := by
  unfold WriteFaults at h
  have hsome : ∃ host, Vm.vmTranslateWrite g.cpu va (BitVec.ofNat 32 bs.length) = .ok host := by
    by_contra hn
    exact h fun host hx => hn ⟨host, hx⟩
  obtain ⟨host, hx⟩ := hsome
  unfold replyAt write
  rw [hx]

/-- A sprite is read from inside the table, and not at all from a higher slot. -/
theorem refuses_spriteGet (hc : c.Reached) :
    g.Refuses c p .spriteGet ↔ g.RefusesWhen c p .spriteGet := by
  have hlow := low_eq g.a0
  have hslot : oamSlot (g.a0.setWidth 8) 128 = if low g.a0 < 128 then some (low g.a0) else none := rfl
  have hbytes : (c.state.spriteAt (low g.a0)).bytes.length = 8 := rfl
  by_cases hlt : low g.a0 < 128
  · have hr : g.answer c p .spriteGet =
        some (g.replyAt c g.a1 (c.state.spriteAt (low g.a0)).bytes mgROk) := by
      unfold answer spriteGet
      rw [hslot, if_pos hlt]
      rfl
    rw [refuses_answer hc rfl hr]
    unfold OutOfRange Faults RefusesWhen
    dsimp only
    by_cases hw : g.WriteFaults g.a1 8
    · rw [replyAt_fault (hbytes ▸ hw)]
      exact iff_of_true (fun _ => invalid_isError) (.inr ⟨hlt, hw⟩)
    · have ha0 := replyAt_ok (c := c) (hbytes.symm ▸ hw : ¬ g.WriteFaults g.a1
        (c.state.spriteAt (low g.a0)).bytes.length) mgROk
      rw [ha0]
      constructor
      · intro h
        exact .inl (Nat.lt_of_not_le fun hle => ok_not_isError (h (.inl hle)))
      · rintro (hin | ⟨-, hw'⟩) (hle | hw'')
        · omega
        · exact absurd hw'' hw
        · exact absurd hw' hw
        · exact absurd hw' hw
  · refine iff_of_false ?_ ?_
    · rintro ⟨r, hr, -⟩
      have hnone : g.handle c p .spriteGet = none := by
        unfold handle decode answer spriteGet
        dsimp only
        rw [hslot, if_neg hlt]
        rfl
      rw [hnone] at hr
      cases hr
    · rintro (hin | ⟨hin, -⟩)
      · omega
      · exact hlt hin

theorem refuses_bgGetTile (hc : c.Reached) :
    g.Refuses c p .bgGetTile ↔ g.RefusesWhen c p .bgGetTile := by
  have hl := low_eq g.a0
  have hx := low_eq g.a1
  have hy := low_eq g.a2
  rw [refuses_answer hc (r := g.bgGetTile c) rfl rfl]
  have hresult : IsError (g.bgGetTile c).a0 ↔
      4 ≤ low g.a0 ∨ 32 ≤ low g.a1 ∨ 32 ≤ low g.a2 ∨ g.WriteFaults g.a3 2 := by
    unfold bgGetTile
    dsimp only
    by_cases hlayer : (g.a0.setWidth 8 : Byte).toNat < 4
    · have hlayer' : low g.a0 < 4 := hlayer
      rw [dif_pos hlayer]
      by_cases hout : 32 ≤ (g.a1.setWidth 8 : Byte).toNat ∨ 32 ≤ (g.a2.setWidth 8 : Byte).toNat
      · have hout' : 32 ≤ low g.a1 ∨ 32 ≤ low g.a2 := hout
        rw [if_pos hout]
        refine iff_of_true invalid_isError ?_
        rcases hout' with h | h
        · exact .inr (.inl h)
        · exact .inr (.inr (.inl h))
      · have hout' : ¬ (32 ≤ low g.a1 ∨ 32 ≤ low g.a2) := hout
        rw [if_neg hout]
        have hbytes : ∀ w : BitVec 16, (CartDmaSlot.le16 w).length = 2 := fun _ => rfl
        by_cases hw : g.WriteFaults g.a3 2
        · rw [replyAt_fault (hbytes _ ▸ hw)]
          exact iff_of_true invalid_isError (.inr (.inr (.inr hw)))
        · rw [replyAt_ok (by rw [hbytes]; exact hw)]
          refine iff_of_false ok_not_isError ?_
          rintro (h | h | h | h)
          · omega
          · exact hout' (.inl h)
          · exact hout' (.inr h)
          · exact hw h
    · have hlayer' : ¬ low g.a0 < 4 := hlayer
      rw [dif_neg hlayer]
      exact iff_of_true invalid_isError (.inl (Nat.le_of_not_lt hlayer'))
  rw [hresult]
  unfold OutOfRange Faults RefusesWhen
  dsimp only
  by_cases hw : g.WriteFaults g.a3 2
  · exact iff_of_true (fun _ => .inr (.inr (.inr hw))) (.inr (.inr (.inr (.inr hw))))
  · simp only [hw, or_false]
    omega

theorem refuses_spriteFree (hc : c.Reached) :
    g.Refuses c p .spriteFree ↔ g.RefusesWhen c p .spriteFree := by
  rw [refuses_answer hc rfl rfl]
  unfold OutOfRange Faults RefusesWhen
  dsimp only [reply]
  rw [or_false]
  constructor
  · intro h
    by_cases hlt : g.a0.toNat < 128
    · exact .inl hlt
    · exact .inr (h (Nat.le_of_not_lt hlt))
  · rintro (hlt | herr) hle
    · omega
    · exact herr

theorem refuses_bgMainPriority (hc : c.Reached) :
    g.Refuses c p .bgMainPriority ↔ g.RefusesWhen c p .bgMainPriority := by
  rw [refuses_answer hc rfl rfl]
  unfold OutOfRange Faults RefusesWhen
  dsimp only [reply]
  rw [or_false]
  exact ⟨fun h => Nat.lt_of_not_le fun hle => ok_not_isError (h hle), fun hlt hle => by omega⟩

theorem refuses_frameState (hc : c.Reached) : g.Refuses c p .frameState := by
  by_cases h4 : g.a0 = 4
  · have hd : g.decode .frameState =
        some (.shadow (.setBlank (g.a1.setWidth 8) (g.a2.setWidth 8))) := if_pos h4
    refine refuses_shadow_plain hc hd rfl ?_
    unfold OutOfRange Faults
    dsimp only
    rw [h4]
    rintro (hout | ⟨h5, -⟩ | ⟨h6, -⟩)
    · exact hout
    · exact absurd h5 (by decide)
    · exact absurd h6 (by decide)
  · have hd : g.decode .frameState = none := if_neg h4
    refine (refuses_answer hc (r := g.frameState c p) hd rfl).mpr ?_
    rintro (hout | ⟨h5, hactive, hpos, hw⟩ | ⟨h6, hactive, hw⟩)
    · exact hout.elim
    · have hlen : (p.msg.bytes 0 (p.readable g.a2)).length = p.readable g.a2 := Mem.length_bytes ..
      have hop : g.a0.toNat = 5 := congrArg BitVec.toNat h5
      unfold frameState
      simp only [hop]
      rw [if_pos ⟨hactive, hpos⟩, replyAt_fault (by rw [hlen]; exact hw)]
      exact invalid_isError
    · have hlen : p.ctx.length = 44 := rfl
      have hop : g.a0.toNat = 6 := congrArg BitVec.toNat h6
      unfold frameState
      simp only [hop]
      rw [if_pos hactive, replyAt_fault (by rw [hlen]; exact hw)]
      exact invalid_isError

/-! ## Every call -/

/-- After any run, a graphics call stays inside the arrays and refuses wrong arguments exactly under
its condition. -/
theorem graphics_refuses_iff (noCommitAhead : Bool) (es : List GraphicsEvent) (c : Copro)
    (h : Lib.run Copro.graphicsStep (.init noCommitAhead) es = some c) (g : Guest) (p : MgPanic)
    (e : GraphicsEcall) : g.Refuses c p e ↔ g.RefusesWhen c p e := by
  have hc := Copro.Reached.run h
  have hnone : ∀ {e}, g.OutOfRange e = False → g.Faults p e = False →
      ¬ (g.OutOfRange e ∨ g.Faults p e) := by
    intro e hr hf
    rw [hr, hf]
    exact fun hor => hor.elim id id
  cases e with
  | stagePayload => exact iff_of_true (refuses_stagePayload hc) trivial
  | stageDmaSlot => exact iff_of_true (refuses_stageDmaSlot hc) trivial
  | spriteSet => exact refuses_spriteSet hc
  | spriteMove => exact refuses_spriteMove hc
  | spriteHide => exact refuses_spriteHide hc
  | spriteGet => exact refuses_spriteGet hc
  | spriteFree => exact refuses_spriteFree hc
  | bgSetup => exact refuses_bgSetup hc
  | bgEnable => exact refuses_bgEnable hc
  | bgScroll => exact refuses_bgScroll hc
  | bgSetTile => exact refuses_bgSetTile hc
  | bgGetTile => exact refuses_bgGetTile hc
  | bgBlit | bgUpload => exact refuses_blit hc rfl Iff.rfl Iff.rfl
  | bgMainPriority => exact refuses_bgMainPriority hc
  | mode7Set => exact iff_of_true (refuses_mode7Set hc) trivial
  | hdmaSetup => exact iff_of_true (refuses_hdmaSetup hc) trivial
  | hdmaUpload => exact refuses_hdmaUpload hc
  | hdmaEnable => exact refuses_hdmaEnable hc
  | chrUpload | chrUploadTransient =>
    exact iff_of_true (refuses_upload hc rfl rfl id Iff.rfl) trivial
  | paletteWrite => exact refuses_paletteWrite hc
  | frameState => exact iff_of_true (refuses_frameState hc) trivial
  | nmiInstall | hirqInstall => exact iff_of_true (refuses_install hc rfl rfl id Iff.rfl) trivial
  | frameCommit | spritesClearAll | spriteSizes | spriteChrBase | bgMode | mode7Wrap | ppuCleanSlate
    | kernelLayout | siphonConfigure =>
    exact iff_of_true (refuses_plain hc rfl rfl (hnone rfl rfl)) trivial
  | spriteAlloc | oamSnapRestore | bgMosaic | paletteSnapRestore | packChr =>
    exact iff_of_true ((refuses_answer hc rfl rfl).mpr fun hbad => absurd hbad (hnone rfl rfl)) trivial

/-- A guest with these values in `a0` to `a3` and no memory. -/
def withArgs (a0 a1 a2 a3 : Word) : Guest where
  cpu := { Vm.vmInit 0 with
    regs := fun r => if r = Vm.regA0 then a0 else if r = Vm.regA1 then a1 else
      if r = Vm.regA2 then a2 else if r = regA3 then a3 else 0 }
  mem := fun _ => 0

def noPanic : MgPanic := ⟨false, 0, 0, fun _ => 0, fun _ => 0, 0, Nat.zero_le _⟩

/-- A tile in column 32 is refused, after the sprites were hidden. -/
theorem graphics_refuses_column : ∃ c,
    Lib.run Copro.graphicsStep (.init false) [.ecall noPanic (withArgs 0 0 0 0) .spritesClearAll] =
        some c ∧ (withArgs 0 32 0 7).Refuses c noPanic .bgSetTile := by
  have hrun : ∃ c, Lib.run Copro.graphicsStep (.init false)
      [.ecall noPanic (withArgs 0 0 0 0) .spritesClearAll] = some c := ⟨_, rfl⟩
  obtain ⟨c, hc⟩ := hrun
  have hcolumn : 32 ≤ low (withArgs 0 32 0 7).a1 := by decide
  exact ⟨c, hc, (graphics_refuses_iff false _ c hc (withArgs 0 32 0 7) noPanic .bgSetTile).mpr
    (.inr (.inr (.inl hcolumn)))⟩

/-- A sprite that is moved in slot 128 is written behind the table. -/
theorem spriteMove_behind_table : ∃ c, Lib.run Copro.graphicsStep (.init false) [] = some c ∧
    (withArgs 128 5 9 0).OutOfRange .spriteMove ∧
      (withArgs 128 5 9 0).handle c noPanic .spriteMove = none ∧
        ¬ (withArgs 128 5 9 0).Refuses c noPanic .spriteMove := by
  have hrange : 128 ≤ (withArgs 128 5 9 0).a0.toNat := by decide
  refine ⟨_, rfl, hrange, rfl, ?_⟩
  rintro ⟨r, hr, -⟩
  have hnone : (withArgs 128 5 9 0).handle (.init false) noPanic .spriteMove = none := rfl
  rw [hnone] at hr
  cases hr

end Guest

end Microgarbage.Cart
