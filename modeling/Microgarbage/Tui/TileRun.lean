import Microgarbage.Tui.TileMap

/-!
# Runs of tile calls

The spec lemmas of creation, destruction, editing and compaction, and the run theorem over all
histories of tile calls.
-/

namespace Microgarbage.Tui

open Lib List

variable {t t' : Tiles} {vm : VmId} {k j : TileId}

/-! ## Compaction -/

/-- No range is moved over one that is still to be moved, when the slots `ks` are left and
`new_used` is `d`. -/
def Fits (t : Tiles) : Nat → List TileId → Prop
  | _, [] => True
  | d, k :: ks =>
    ((t.slots k).inUse = true → ∀ j ∈ ks, (t.slots j).inUse = true →
      d + (t.slots k).arenaLen ≤ (t.slots j).arenaOff ∨
        (t.slots j).arenaOff + (t.slots j).arenaLen ≤ d) ∧
    Fits t (d + (t.slots k).size) ks

instance decidableFits (t : Tiles) : ∀ d ks, Decidable (Fits t d ks)
  | _, [] => .isTrue trivial
  | d, k :: ks =>
    have := decidableFits t (d + (t.slots k).size) ks
    inferInstanceAs (Decidable (_ ∧ _))

variable {ks : List TileId}

theorem Fits.congr {d : Nat} (hf : Fits t d ks) (h : ∀ k ∈ ks, t'.slots k = t.slots k) :
    Fits t' d ks := by
  induction ks generalizing d with
  | nil => trivial
  | cons k ks ih =>
    have hk := h k (mem_cons_self ..)
    have hks : ∀ j ∈ ks, t'.slots j = t.slots j := fun j hj => h j (mem_cons_of_mem _ hj)
    unfold Fits at hf ⊢
    rw [hk]
    refine ⟨fun huse j hj hlive => ?_, ih hf.2 hks⟩
    rw [hks j hj] at hlive ⊢
    exact hf.1 huse j hj hlive

theorem Fits.of_filter {d : Nat} (h : Fits t d (ks.filter fun k => (t.slots k).inUse)) :
    Fits t d ks := by
  induction ks generalizing d with
  | nil => trivial
  | cons k ks ih =>
    cases hu : (t.slots k).inUse with
    | false =>
      have hsize : (t.slots k).size = 0 := by simp [TileSlot.size, hu]
      rw [filter_cons_of_neg (by simp [hu])] at h
      refine ⟨fun hk => ?_, ?_⟩
      · rw [hu] at hk
        cases hk
      · rw [hsize]
        exact ih h
    | true =>
      rw [filter_cons_of_pos (by simp [hu])] at h
      exact ⟨fun hk j hj hju => h.1 hk j (mem_filter.mpr ⟨hj, hju⟩) hju, ih h.2⟩

theorem compactSlot_idle (d : Nat) (h : (t.slots k).inUse = false) :
    compactSlot (t, d) k = (t, d) := by
  simp [compactSlot, h]

/-- The range of slot `k` has been moved to the offset `d`. -/
structure MovedTo (t : Tiles) (d : Nat) (k : TileId) (t' : Tiles) : Prop where
  slots : ∀ j, j ≠ k → t'.slots j = t.slots j
  self : t'.slots k = { t.slots k with arenaOff := d }
  arena : t'.arena = splice t.arena (d / cellBytes)
    (slice t.arena (t.slots k).base (t.slots k).cellCount)

theorem compactSlot_live (d : Nat) (h : (t.slots k).inUse = true) (hw : (t.slots k).Whole) :
    ∃ t', compactSlot (t, d) k = (t', d + (t.slots k).arenaLen) ∧ MovedTo t d k t' := by
  have hcount : (t.slots k).arenaLen / cellBytes = (t.slots k).cellCount := by
    have := hw.len
    simp only [cellBytes] at *
    omega
  have hlive : ¬(t.slots k).inUse = false := by simp [h]
  unfold compactSlot
  dsimp only
  rw [if_neg hlive, hcount]
  by_cases hd : (t.slots k).arenaOff = d
  · rw [if_neg (not_not_intro hd)]
    subst hd
    exact ⟨t, rfl, fun _ _ => rfl, rfl, (splice_slice_self ..).symm⟩
  · rw [if_pos hd]
    exact ⟨_, rfl, fun j hj => Function.update_of_ne hj .., Function.update_self .., rfl⟩

/-- A move leaves the cells of a slot it does not reach. -/
theorem MovedTo.kept {d : Nat} (h : MovedTo t d k t') (hd : d = cellBytes * (d / cellBytes))
    (hwk : (t.slots k).Whole) (hwj : (t.slots j).Whole)
    (hclear : d + (t.slots k).arenaLen ≤ (t.slots j).arenaOff ∨
      (t.slots j).arenaOff + (t.slots j).arenaLen ≤ d) :
    slice t'.arena (t.slots j).base (t.slots j).cellCount =
      slice t.arena (t.slots j).base (t.slots j).cellCount := by
  have hlen := hwk.len
  have hoff := hwj.off
  have hjlen := hwj.len
  rw [h.arena]
  rcases hclear with hbehind | hbefore
  · refine slice_splice_above ?_
    rw [length_slice]
    simp only [cellBytes] at *
    omega
  · refine slice_splice_below ?_
    simp only [cellBytes] at *
    omega

/-- What the compaction of the slots `ks`, from `new_used = d`, leaves behind. -/
structure Compacted (t : Tiles) (d : Nat) (ks : List TileId) (r : Tiles × Nat) : Prop where
  same : ∀ k, k ∉ ks ∨ (t.slots k).inUse = false → r.1.slots k = t.slots k
  moved : ∀ k ∈ ks, (t.slots k).inUse = true → ∃ off,
    r.1.slots k = { t.slots k with arenaOff := cellBytes * off } ∧ d ≤ cellBytes * off ∧
      cellBytes * off + (t.slots k).arenaLen ≤ r.2 ∧
      slice r.1.arena off (t.slots k).cellCount =
        slice t.arena (t.slots k).base (t.slots k).cellCount
  apart : ∀ k ∈ ks, ∀ j ∈ ks, k ≠ j → (t.slots k).inUse = true → (t.slots j).inUse = true →
    (r.1.slots k).Apart (r.1.slots j)
  front : ∀ i, cellBytes * i < d → r.1.arena i = t.arena i
  total : r.2 = d + (ks.map fun k => (t.slots k).size).sum

section Step

variable {d : Nat} {r : Tiles × Nat}

theorem Compacted.skip (h : Compacted t d ks r) (hk : (t.slots k).inUse = false) :
    Compacted t d (k :: ks) r := by
  have hsize : (t.slots k).size = 0 := by simp [TileSlot.size, hk]
  have hlive : ∀ j ∈ k :: ks, (t.slots j).inUse = true → j ∈ ks := by
    intro j hj hu
    rcases mem_cons.mp hj with rfl | hj
    · rw [hk] at hu
      cases hu
    · exact hj
  refine ⟨fun j hj => h.same j ?_, fun j hj hu => h.moved j (hlive j hj hu) hu,
    fun j hj j' hj' hne hu hu' => h.apart j (hlive j hj hu) j' (hlive j' hj' hu') hne hu hu',
    h.front, ?_⟩
  · exact hj.imp_left fun hj hmem => hj (mem_cons_of_mem _ hmem)
  · rw [h.total, map_cons, sum_cons, hsize, Nat.zero_add]

/-- The first slot is moved, the others are compacted behind it. -/
theorem MovedTo.compacted (hm : MovedTo t d k t') (hk : k ∉ ks) (huse : (t.slots k).inUse = true)
    (hwk : (t.slots k).Whole) (hd : d = cellBytes * (d / cellBytes))
    (hkept : ∀ j ∈ ks, (t.slots j).inUse = true →
      slice t'.arena (t.slots j).base (t.slots j).cellCount =
        slice t.arena (t.slots j).base (t.slots j).cellCount)
    (h : Compacted t' (d + (t.slots k).arenaLen) ks r) : Compacted t d (k :: ks) r := by
  have hlen := hwk.len
  have hslots : ∀ j ∈ ks, t'.slots j = t.slots j := fun j hj => hm.slots j fun e => hk (e ▸ hj)
  have hfirst : r.1.slots k = { t.slots k with arenaOff := d } := (h.same k (.inl hk)).trans hm.self
  have hmoved : ∀ j ∈ ks, (t.slots j).inUse = true → ∃ off,
      r.1.slots j = { t.slots j with arenaOff := cellBytes * off } ∧
      d + (t.slots k).arenaLen ≤ cellBytes * off ∧ cellBytes * off + (t.slots j).arenaLen ≤ r.2 ∧
      slice r.1.arena off (t.slots j).cellCount =
        slice t.arena (t.slots j).base (t.slots j).cellCount := by
    intro j hj hu
    have hslot := hslots j hj
    obtain ⟨off, h₁, h₂, h₃, h₄⟩ := h.moved j hj (by rw [hslot]; exact hu)
    rw [hslot] at h₁ h₃ h₄
    exact ⟨off, h₁, h₂, h₃, h₄.trans (hkept j hj hu)⟩
  have hapart : ∀ j ∈ ks, (t.slots j).inUse = true → (r.1.slots k).Apart (r.1.slots j) := by
    intro j hj hu
    obtain ⟨off, h₁, h₂, -⟩ := hmoved j hj hu
    rw [hfirst, h₁]
    exact .inl h₂
  refine ⟨fun j hj => ?_, fun j hj hu => ?_, fun j hj j' hj' hjj hu hu' => ?_, fun i hi => ?_, ?_⟩
  · have hjk : j ≠ k := by
      rintro rfl
      rcases hj with hj | hj
      · exact hj (mem_cons_self ..)
      · rw [huse] at hj
        cases hj
    rw [h.same j ?_, hm.slots j hjk]
    rw [hm.slots j hjk]
    exact hj.imp_left fun hj hmem => hj (mem_cons_of_mem _ hmem)
  · rcases mem_cons.mp hj with rfl | hj
    · refine ⟨d / cellBytes, ?_, Nat.le_of_eq hd, ?_, ?_⟩
      · rw [hfirst, ← hd]
      · rw [← hd, h.total]
        exact Nat.le_add_right ..
      · have hnew := slice_splice t.arena (d / cellBytes)
          (slice t.arena (t.slots j).base (t.slots j).cellCount)
        rw [length_slice, ← hm.arena] at hnew
        refine Eq.trans (slice_congr fun i hi => h.front _ ?_) hnew
        simp only [cellBytes] at *
        omega
    · obtain ⟨off, h₁, h₂, h₃, h₄⟩ := hmoved j hj hu
      exact ⟨off, h₁, by omega, h₃, h₄⟩
  · rcases mem_cons.mp hj with hjk | hjks <;> rcases mem_cons.mp hj' with hjk' | hjks'
    · exact absurd (hjk.trans hjk'.symm) hjj
    · rw [hjk]
      exact hapart j' hjks' hu'
    · rw [hjk']
      exact (hapart j hjks hu).symm
    · exact h.apart j hjks j' hjks' hjj (by rw [hslots j hjks]; exact hu)
        (by rw [hslots j' hjks']; exact hu')
  · rw [h.front i (by omega), hm.arena]
    unfold splice
    rw [if_neg (by simp only [cellBytes] at *; omega)]
  · have hsize : (t.slots k).size = (t.slots k).arenaLen := by simp [TileSlot.size, huse]
    have hsizes : (ks.map fun j => (t'.slots j).size) = ks.map fun j => (t.slots j).size :=
      map_congr_left fun j hj => by rw [hslots j hj]
    rw [h.total, map_cons, sum_cons, hsizes, hsize, Nat.add_assoc]

end Step

theorem compact_spec (hnd : ks.Nodup) (hw : ∀ k ∈ ks, (t.slots k).inUse = true → (t.slots k).Whole)
    {d : Nat} (hd : d = cellBytes * (d / cellBytes)) (hf : Fits t d ks) :
    Compacted t d ks (ks.foldl compactSlot (t, d)) := by
  induction ks generalizing t d with
  | nil =>
    exact ⟨fun _ _ => rfl, fun k hk => absurd hk not_mem_nil,
      fun k hk => absurd hk not_mem_nil, fun _ _ => rfl, rfl⟩
  | cons k ks ih =>
    rw [nodup_cons] at hnd
    have hw' : ∀ j ∈ ks, (t.slots j).inUse = true → (t.slots j).Whole := fun j hj =>
      hw j (mem_cons_of_mem _ hj)
    have hfits := hf.2
    rw [foldl_cons]
    cases huse : (t.slots k).inUse with
    | false =>
      rw [compactSlot_idle d huse]
      simp only [TileSlot.size, huse] at hfits
      exact (ih hnd.2 hw' hd hfits).skip huse
    | true =>
      have hwk := hw k (mem_cons_self ..) huse
      have hlen := hwk.len
      obtain ⟨t₁, hstep, hm⟩ := compactSlot_live d huse hwk
      have hslots : ∀ j ∈ ks, t₁.slots j = t.slots j := fun j hj =>
        hm.slots j fun e => hnd.1 (e ▸ hj)
      simp only [TileSlot.size, huse] at hfits
      rw [hstep]
      refine hm.compacted hnd.1 huse hwk hd
        (fun j hj hu => hm.kept hd hwk (hw' j hj hu) (hf.1 huse j hj hu)) (ih hnd.2 ?_ ?_ ?_)
      · intro j hj hu
        rw [hslots j hj] at hu ⊢
        exact hw' j hj hu
      · simp only [cellBytes] at *
        omega
      · exact Fits.congr hfits hslots

/-! ## What the map sees of a change -/

theorem resolveHandle_congr {v : VmId} (h : ∀ i, (t'.slots (v, i)).inUse = (t.slots (v, i)).inUse ∧
    (t'.slots (v, i)).generation = (t.slots (v, i)).generation) (g : BitVec 32) :
    resolveHandle t' v g = resolveHandle t v g := by
  simp only [resolveHandle, (h _).1, (h _).2]

theorem resolveHandle_inj {v w : VmId} {g g' : BitVec 32} (h : resolveHandle t v g = some k)
    (h' : resolveHandle t w g' = some k) : v = w ∧ g = g' := by
  obtain ⟨hv, -, hg⟩ := resolveHandle_eq_some.mp h
  obtain ⟨hw, -, hg'⟩ := resolveHandle_eq_some.mp h'
  obtain rfl := hv.symm.trans hw
  exact ⟨rfl, hg.trans hg'.symm⟩

theorem view_set {h : BitVec 32} {x : Option Tile} (hr : resolveHandle t vm h = some k)
    (hother : ∀ v g j, resolveHandle t v g = some j → j ≠ k →
      resolveHandle t' v g = some j ∧ t'.tile j = t.tile j)
    (hnone : ∀ v g, resolveHandle t v g = none → resolveHandle t' v g = none)
    (hx : t'.view vm h = x) : t'.view = t.view.set vm h x := by
  funext v g
  unfold TileMap.set
  split
  · rename_i hvg
    rw [hvg.1, hvg.2, hx]
  · rename_i hvg
    unfold Tiles.view
    cases hres : resolveHandle t v g with
    | none => rw [hnone v g hres]; rfl
    | some j =>
      have hjk : j ≠ k := fun hjk => hvg (resolveHandle_inj hres (hjk ▸ hr))
      obtain ⟨hres', htile⟩ := hother v g j hres hjk
      rw [hres', Option.map_some, Option.map_some, htile]

theorem TilesInv.of_slots (hi : TilesInv t) (hs : t'.slots = t.slots) (hu : t'.used = t.used) :
    TilesInv t' := by
  obtain ⟨hwhole, hbelow, hapart, hused, hbound, htotal⟩ := hi
  rw [← hs] at hwhole hbelow hapart htotal
  rw [← hu] at hbelow hused hbound htotal
  exact ⟨hwhole, hbelow, hapart, hused, hbound, htotal⟩

theorem TileSlot.Apart.cells {s s' : TileSlot} (h : s.Apart s') (hw : s.Whole) (hw' : s'.Whole) :
    s.base + s.cellCount ≤ s'.base ∨ s'.base + s'.cellCount ≤ s.base := by
  have := hw.off
  have := hw.len
  have := hw'.off
  have := hw'.len
  unfold TileSlot.Apart at h
  simp only [cellBytes] at *
  omega

theorem slice_edit_apart {s : TileSlot} {f : Nat → HostCell → HostCell} {start n : Nat}
    (h : s.base + s.cellCount ≤ start ∨ start + n ≤ s.base) :
    slice (t.edit s f).arena start n = slice t.arena start n := by
  refine slice_congr fun i hi => ?_
  unfold Tiles.edit
  exact if_neg (by omega)

/-! ## The calls -/

theorem edit_spec (hi : TilesInv t) {h : BitVec 32} (hr : resolveHandle t vm h = some k)
    (f : Nat → HostCell → HostCell) :
    TilesInv (t.edit (t.slots k) f) ∧
      (t.edit (t.slots k) f).view =
        t.view.set vm h (some { t.tile k with cells := (t.tile k).cells.mapIdx f }) := by
  have hk := (resolveHandle_eq_some.mp hr).2.1
  have hres : ∀ v g, resolveHandle (t.edit (t.slots k) f) v g = resolveHandle t v g :=
    fun v g => resolveHandle_congr (fun _ => ⟨rfl, rfl⟩) g
  refine ⟨hi.of_slots rfl rfl, view_set hr (fun v g j hj hne => ⟨(hres v g).trans hj, ?_⟩)
    (fun v g hn => (hres v g).trans hn) ?_⟩
  · have hlive := (resolveHandle_eq_some.mp hj).2.1
    have hcells := (hi.apart k j (Ne.symm hne) hk hlive).cells (hi.whole k hk) (hi.whole j hlive)
    exact congrArg (Tile.mk (t.slots j).rows (t.slots j).cols) (slice_edit_apart hcells)
  · have hslice := slice_map_range t.arena (t.slots k).base (t.slots k).cellCount f
    unfold Tiles.view
    rw [hres, hr, Option.map_some]
    unfold Tiles.tile
    rw [← hslice]
    rfl

theorem sum_size_update {s : TileSlot} (hnd : ks.Nodup) (hk : k ∈ ks) :
    (ks.map fun j => ((t.setSlot k s).slots j).size).sum + (t.slots k).size =
      (ks.map fun j => (t.slots j).size).sum + s.size := by
  induction ks with
  | nil => exact absurd hk not_mem_nil
  | cons j ks ih =>
    rw [nodup_cons] at hnd
    rw [map_cons, map_cons, sum_cons, sum_cons]
    by_cases hjk : j = k
    · subst hjk
      have hrest : (ks.map fun i => ((t.setSlot j s).slots i).size) =
          ks.map fun i => (t.slots i).size := by
        refine map_congr_left fun i hi => ?_
        have hij : i ≠ j := fun hij => hnd.1 (hij ▸ hi)
        simp [Tiles.setSlot, Function.update_of_ne hij]
      have hself : (t.setSlot j s).slots j = s := Function.update_self ..
      rw [hrest, hself]
      omega
    · have hmem : k ∈ ks := by
        rcases mem_cons.mp hk with h | h
        · exact absurd h.symm hjk
        · exact h
      have hother : (t.setSlot k s).slots j = t.slots j := Function.update_of_ne hjk ..
      have := ih hnd.2 hmem
      rw [hother]
      omega

theorem destroy_spec (hi : TilesInv t) {h : BitVec 32} (hr : resolveHandle t vm h = some k) :
    TilesInv (t.setSlot k { t.slots k with inUse := false }) ∧
      (t.setSlot k { t.slots k with inUse := false }).view = t.view.set vm h none := by
  generalize ht' : t.setSlot k { t.slots k with inUse := false } = t'
  have hself : t'.slots k = { t.slots k with inUse := false } := by
    rw [← ht']
    exact Function.update_self ..
  have hother : ∀ j, j ≠ k → t'.slots j = t.slots j := by
    intro j hj
    rw [← ht']
    exact Function.update_of_ne hj ..
  have hused : t'.used = t.used := by rw [← ht']; rfl
  have harena : t'.arena = t.arena := by rw [← ht']; rfl
  have hlive : ∀ j, (t'.slots j).inUse = true → j ≠ k ∧ t'.slots j = t.slots j := by
    intro j hj
    have hjk : j ≠ k := by
      rintro rfl
      rw [hself] at hj
      cases hj
    exact ⟨hjk, hother j hjk⟩
  refine ⟨⟨fun j hj => ?_, fun j hj => ?_, fun j j' hne hj hj' => ?_, ?_, ?_, ?_⟩,
    view_set hr (fun v g j hj hne => ?_) (fun v g hn => ?_) ?_⟩
  · obtain ⟨-, hs⟩ := hlive j hj
    rw [hs] at hj ⊢
    exact hi.whole j hj
  · obtain ⟨-, hs⟩ := hlive j hj
    rw [hs] at hj ⊢
    rw [hused]
    exact hi.below j hj
  · obtain ⟨-, hs⟩ := hlive j hj
    obtain ⟨-, hs'⟩ := hlive j' hj'
    rw [hs] at hj ⊢
    rw [hs'] at hj' ⊢
    exact hi.apart j j' hne hj hj'
  · rw [hused]
    exact hi.used
  · rw [hused]
    exact hi.bound
  · have hsum := sum_size_update (t := t) (s := { t.slots k with inUse := false }) tileIds_nodup
      (mem_tileIds k)
    have hzero : TileSlot.size { t.slots k with inUse := false } = 0 := rfl
    have htotal := hi.total
    rw [ht', hzero] at hsum
    rw [hused]
    omega
  · obtain ⟨hv, hu, hg⟩ := resolveHandle_eq_some.mp hj
    have hs := hother j hne
    refine ⟨resolveHandle_eq_some.mpr ⟨hv, by rw [hs]; exact hu, by rw [hs]; exact hg⟩, ?_⟩
    unfold Tiles.tile
    rw [hs, harena]
  · rw [Option.eq_none_iff_forall_ne_some] at hn ⊢
    intro j hj
    obtain ⟨hv, hu, hg⟩ := resolveHandle_eq_some.mp hj
    obtain ⟨-, hs⟩ := hlive j hu
    rw [hs] at hu hg
    exact hn j (resolveHandle_eq_some.mpr ⟨hv, hu, hg⟩)
  · have hnone : resolveHandle t' vm h = none := by
      rw [Option.eq_none_iff_forall_ne_some]
      intro j hj
      obtain ⟨hv, hu, hg⟩ := resolveHandle_eq_some.mp hj
      obtain ⟨hjk, hs⟩ := hlive j hu
      rw [hs] at hu hg
      have hsome := hr.symm.trans (resolveHandle_eq_some.mpr ⟨hv, hu, hg⟩)
      exact hjk (Option.some.inj hsome).symm
    unfold Tiles.view
    rw [hnone]
    rfl

/-- A slot that takes its range behind the used part of the arena. -/
theorem TilesInv.push (hi : TilesInv t) (hfree : (t.slots k).inUse = false) {s : TileSlot}
    (hw : s.Whole) (hoff : s.arenaOff = t.used) (hroom : t.used + s.arenaLen ≤ tileArenaBytes) :
    TilesInv { t.setSlot k s with used := t.used + s.arenaLen } := by
  have hself : (t.setSlot k s).slots k = s := Function.update_self ..
  have hother : ∀ j, j ≠ k → (t.setSlot k s).slots j = t.slots j :=
    fun j hj => Function.update_of_ne hj ..
  have hbelow : ∀ j, (t.slots j).inUse = true →
      (t.slots j).arenaOff + (t.slots j).arenaLen ≤ s.arenaOff :=
    fun j hj => hoff ▸ hi.below j hj
  refine ⟨fun j hj => ?_, fun j hj => ?_, fun j j' hjj hj hj' => ?_, ?_, hroom, ?_⟩
  · by_cases hjk : j = k
    · rw [hjk, hself]
      exact hw
    · rw [hother j hjk] at hj ⊢
      exact hi.whole j hj
  · by_cases hjk : j = k
    · rw [hjk, hself, hoff]
    · rw [hother j hjk] at hj ⊢
      exact (hi.below j hj).trans (Nat.le_add_right ..)
  · by_cases hjk : j = k
    · have hjk' : j' ≠ k := fun h => hjj (hjk.trans h.symm)
      rw [hother j' hjk'] at hj' ⊢
      rw [hjk, hself]
      exact .inr (hbelow j' hj')
    · rw [hother j hjk] at hj ⊢
      by_cases hjk' : j' = k
      · rw [hjk', hself]
        exact .inl (hbelow j hj)
      · rw [hother j' hjk'] at hj' ⊢
        exact hi.apart j j' hjj hj hj'
  · have hused := hi.used
    have hlen := hw.len
    simp only [cellBytes] at *
    omega
  · have hsum := sum_size_update (t := t) (s := s) tileIds_nodup (mem_tileIds k)
    have hold : (t.slots k).size = 0 := by simp [TileSlot.size, hfree]
    have hsize : s.size ≤ s.arenaLen := by
      unfold TileSlot.size
      split <;> omega
    have htotal := hi.total
    dsimp only
    omega

theorem create_spec (hi : TilesInv t) {i : Fin 16} (hfree : (t.slots (vm, i)).inUse = false)
    {rows cols : Nat} (hr : 0 < rows) (hc : 0 < cols)
    (hroom : t.used + rows * cols * cellBytes ≤ tileArenaBytes) {gen : BitVec 16} {s : TileSlot}
    (hs : s = ⟨true, gen, rows, cols, t.used, rows * cols * cellBytes⟩) :
    let t' := ({ t.setSlot (vm, i) s with
      used := t.used + rows * cols * cellBytes } : Tiles).edit s fun _ _ => transparentCell
    TilesInv t' ∧ (∀ v, t.view v (packHandle vm i gen) = none) ∧
      t'.view = t.view.set vm (packHandle vm i gen)
        (some ⟨rows, cols, List.replicate (rows * cols) transparentCell⟩) := by
  intro t'
  have hbase : s.base = t.used / cellBytes := by rw [hs]; rfl
  have hcount : s.cellCount = rows * cols := by rw [hs]; rfl
  have hoff : s.arenaOff = t.used := by rw [hs]
  have hlen : s.arenaLen = rows * cols * cellBytes := by rw [hs]
  have hwhole : s.Whole := by
    refine ⟨?_, ?_, by rw [hs]; exact hr, by rw [hs]; exact hc⟩
    · rw [hbase, ← hi.used, hoff]
    · rw [hcount, hlen, Nat.mul_comm]
  have hself : t'.slots (vm, i) = s := Function.update_self ..
  have hother : ∀ j, j ≠ (vm, i) → t'.slots j = t.slots j :=
    fun j hj => Function.update_of_ne hj ..
  have hne : ∀ j, (t.slots j).inUse = true → j ≠ (vm, i) := by
    rintro j hj rfl
    rw [hfree] at hj
    cases hj
  have hnew : ∀ v g, resolveHandle t' v g = some (vm, i) ↔ v = vm ∧ g = packHandle vm i gen := by
    intro v g
    rw [resolveHandle_eq_some, hself, hs]
    constructor
    · rintro ⟨hv, -, hg⟩
      obtain rfl : vm = v := hv
      exact ⟨rfl, hg⟩
    · rintro ⟨rfl, hg⟩
      exact ⟨rfl, rfl, hg⟩
  have hunknown : ∀ v, resolveHandle t v (packHandle vm i gen) = none := by
    intro v
    rw [Option.eq_none_iff_forall_ne_some]
    intro j hj
    obtain ⟨hv, hu, hg⟩ := resolveHandle_eq_some.mp hj
    obtain ⟨hvm, hslot, -⟩ := packHandle_inj hg
    exact hne j hu (Prod.ext (hv.trans hvm.symm) hslot.symm)
  have hinv := hi.push hfree hwhole hoff (hlen ▸ hroom)
  refine ⟨hinv.of_slots rfl (congrArg (t.used + ·) hlen.symm), fun v => ?_, ?_⟩
  · unfold Tiles.view
    rw [hunknown v]
    rfl
  · funext v g
    unfold TileMap.set
    split
    · rename_i hvg
      unfold Tiles.view
      rw [(hnew v g).mpr hvg, Option.map_some]
      unfold Tiles.tile
      rw [hself, hcount]
      have hcells : slice t'.arena s.base (rows * cols) =
          List.replicate (rows * cols) transparentCell := by
        rw [← hcount, eq_replicate_iff]
        refine ⟨length_slice .., fun c hc => ?_⟩
        obtain ⟨n, hn, rfl⟩ := mem_map.mp hc
        exact if_pos ⟨Nat.le_add_right .., Nat.add_lt_add_left (mem_range.mp hn) _⟩
      rw [hcells, hs]
    · rename_i hvg
      have hres : resolveHandle t' v g = resolveHandle t v g := by
        refine Option.ext fun j => ?_
        by_cases hjk : j = (vm, i)
        · refine iff_of_false (fun hj => hvg ((hnew v g).mp (hjk ▸ hj))) fun hj => ?_
          exact hne j (resolveHandle_eq_some.mp hj).2.1 hjk
        · rw [resolveHandle_eq_some, resolveHandle_eq_some, hother j hjk]
      unfold Tiles.view
      rw [hres]
      refine Option.map_congr fun j hj => ?_
      have hu := (resolveHandle_eq_some.mp hj).2.1
      have hcells : s.base + s.cellCount ≤ (t.slots j).base ∨
          (t.slots j).base + (t.slots j).cellCount ≤ s.base :=
        TileSlot.Apart.cells (.inr (hoff ▸ hi.below j hu)) hwhole (hi.whole j hu)
      unfold Tiles.tile
      rw [hother j (hne j hu)]
      exact congrArg (Tile.mk (t.slots j).rows (t.slots j).cols) (slice_edit_apart hcells)

theorem dvd_sum_size (hw : ∀ k ∈ ks, (t.slots k).inUse = true → (t.slots k).Whole) :
    cellBytes ∣ (ks.map fun k => (t.slots k).size).sum := by
  induction ks with
  | nil => simp
  | cons k ks ih =>
    rw [map_cons, sum_cons]
    refine Nat.dvd_add ?_ (ih fun j hj => hw j (mem_cons_of_mem _ hj))
    unfold TileSlot.size
    split
    · rename_i hk
      exact ⟨_, (hw k (mem_cons_self ..) hk).len⟩
    · exact Nat.dvd_zero _

/-- The compaction of all slots keeps every tile. -/
theorem Compacted.keeps {r : Tiles × Nat} (hc : Compacted t 0 tileIds r) (hi : TilesInv t) :
    TilesInv { r.1 with used := r.2 } ∧ ({ r.1 with used := r.2 } : Tiles).view = t.view := by
  have htotal : r.2 = (tileIds.map fun k => (t.slots k).size).sum := by
    rw [hc.total, Nat.zero_add]
  have hshape : ∀ k, (r.1.slots k).inUse = (t.slots k).inUse ∧
      (r.1.slots k).generation = (t.slots k).generation ∧
      (r.1.slots k).size = (t.slots k).size := by
    intro k
    cases hk : (t.slots k).inUse with
    | false =>
      rw [hc.same k (.inr hk), hk]
      exact ⟨rfl, rfl, rfl⟩
    | true =>
      obtain ⟨off, hs, -⟩ := hc.moved k (mem_tileIds k) hk
      rw [hs]
      exact ⟨hk, rfl, rfl⟩
  have hmoved : ∀ k, (t.slots k).inUse = true → ∃ off,
      r.1.slots k = { t.slots k with arenaOff := cellBytes * off } ∧ (r.1.slots k).base = off ∧
      cellBytes * off + (t.slots k).arenaLen ≤ r.2 ∧
      slice r.1.arena off (t.slots k).cellCount =
        slice t.arena (t.slots k).base (t.slots k).cellCount := by
    intro k hk
    obtain ⟨off, hs, -, hend, hcells⟩ := hc.moved k (mem_tileIds k) hk
    refine ⟨off, hs, ?_, hend, hcells⟩
    rw [hs]
    exact Nat.mul_div_cancel_left off (by decide)
  refine ⟨⟨fun k hk => ?_, fun k hk => ?_, fun k j hkj hk hj => ?_, ?_, ?_, ?_⟩, ?_⟩
  · rw [(hshape k).1] at hk
    obtain ⟨off, hs, hbase, -, -⟩ := hmoved k hk
    have hw := hi.whole k hk
    refine ⟨?_, ?_, ?_, ?_⟩
    · rw [hbase, hs]
    · rw [hs]
      exact hw.len
    · rw [hs]
      exact hw.rows
    · rw [hs]
      exact hw.cols
  · rw [(hshape k).1] at hk
    obtain ⟨off, hs, -, hend, -⟩ := hmoved k hk
    rw [hs]
    exact hend
  · rw [(hshape k).1] at hk
    rw [(hshape j).1] at hj
    exact hc.apart k (mem_tileIds k) j (mem_tileIds j) hkj hk hj
  · have hwholes : cellBytes ∣ r.2 := by
      rw [htotal]
      exact dvd_sum_size fun k _ => hi.whole k
    exact (Nat.mul_div_cancel' hwholes).symm
  · exact (htotal.trans_le hi.total).trans hi.bound
  · have hsum : (tileIds.map fun k => (r.1.slots k).size) = tileIds.map fun k => (t.slots k).size :=
      map_congr_left fun k _ => (hshape k).2.2
    rw [hsum, ← htotal]
  · funext v h
    have hres : resolveHandle { r.1 with used := r.2 } v h = resolveHandle t v h :=
      resolveHandle_congr (fun i => ⟨(hshape (v, i)).1, (hshape (v, i)).2.1⟩) h
    unfold Tiles.view
    rw [hres]
    refine Option.map_congr fun k hk => ?_
    obtain ⟨off, hs, hbase, -, hcells⟩ := hmoved k (resolveHandle_eq_some.mp hk).2.1
    unfold Tiles.tile
    rw [hbase, hs]
    exact congrArg (Tile.mk (t.slots k).rows (t.slots k).cols) hcells

theorem TilesInv.drop (hi : TilesInv t) (vm : VmId) : TilesInv (t.drop vm) ∧
    (t.drop vm).view = fun v h => if v = vm then none else t.view v h := by
  have hlive : ∀ k, ((t.drop vm).slots k).inUse = true →
      k.1 ≠ vm ∧ (t.drop vm).slots k = t.slots k := by
    intro k hk
    unfold Tiles.drop at hk ⊢
    dsimp only at hk ⊢
    split at hk
    · cases hk
    · rename_i hv
      exact ⟨hv, if_neg hv⟩
  refine ⟨⟨fun k hk => ?_, fun k hk => ?_, fun k j hkj hk hj => ?_, hi.used, hi.bound, ?_⟩, ?_⟩
  · have hs := (hlive k hk).2
    rw [hs] at hk ⊢
    exact hi.whole k hk
  · have hs := (hlive k hk).2
    rw [hs] at hk ⊢
    exact hi.below k hk
  · have hs := (hlive k hk).2
    have hs' := (hlive j hj).2
    rw [hs] at hk ⊢
    rw [hs'] at hj ⊢
    exact hi.apart k j hkj hk hj
  · refine (sum_le_sum fun k _ => ?_).trans hi.total
    unfold TileSlot.size Tiles.drop
    dsimp only
    split <;> split <;> simp_all
  · funext v h
    unfold Tiles.view
    split
    · rename_i hv
      have hnone : resolveHandle (t.drop vm) v h = none := by
        rw [Option.eq_none_iff_forall_ne_some]
        intro k hk
        obtain ⟨hkv, hu, -⟩ := resolveHandle_eq_some.mp hk
        exact (hlive k hu).1 (hkv.trans hv)
      rw [hnone]
      rfl
    · rename_i hv
      have hkept : ∀ i, (t.drop vm).slots (v, i) = t.slots (v, i) := fun i => if_neg hv
      have hres : resolveHandle (t.drop vm) v h = resolveHandle t v h :=
        resolveHandle_congr (fun i => by rw [hkept i]; exact ⟨rfl, rfl⟩) h
      rw [hres]
      refine Option.map_congr fun k hk => ?_
      obtain ⟨rfl, -, -⟩ := resolveHandle_eq_some.mp hk
      have hslot : (t.drop vm).slots k = t.slots k := hkept k.2
      unfold Tiles.tile
      rw [hslot]
      rfl

theorem release_spec (hi : TilesInv t) (hf : Fits (t.drop vm) 0 tileIds) :
    TilesInv (tileReleaseForVm t vm) ∧
      (tileReleaseForVm t vm).view = fun v h => if v = vm then none else t.view v h := by
  obtain ⟨hdrop, hview⟩ := hi.drop vm
  have hc := compact_spec tileIds_nodup (fun k _ => hdrop.whole k) rfl hf
  obtain ⟨hinv, hsame⟩ := hc.keeps hdrop
  exact ⟨hinv, hsame.trans hview⟩

theorem find_free {i : Fin 16}
    (h : (List.finRange vmTuiTilesPerVm).find? (fun i => !(t.slots (vm, i)).inUse) = some i) :
    (t.slots (vm, i)).inUse = false := by
  have := List.find?_some h
  simpa using this

theorem tileCreate_spec (vm : VmId) (hi : TilesInv t) (rows cols : Int) :
    tileCreate t vm rows cols = (0, t) ∨
      ∃ height width : Nat, rows = height ∧ cols = width ∧ (tileCreate t vm rows cols).1 ≠ 0 ∧
        TilesInv (tileCreate t vm rows cols).2 ∧
        (∀ v, t.view v (tileCreate t vm rows cols).1 = none) ∧
        (tileCreate t vm rows cols).2.view = t.view.set vm (tileCreate t vm rows cols).1
          (some ⟨height, width, List.replicate (height * width) transparentCell⟩) := by
  unfold tileCreate
  by_cases hpos : rows ≤ 0 ∨ cols ≤ 0
  · exact .inl (if_pos hpos)
  rw [if_neg hpos]
  by_cases hmax : rows > vmTuiMaxRows ∨ cols > vmTuiMaxCols
  · exact .inl (if_pos hmax)
  rw [if_neg hmax]
  dsimp only
  by_cases hroom : t.used + rows.toNat * cols.toNat * cellBytes > tileArenaBytes
  · exact .inl (if_pos hroom)
  rw [if_neg hroom]
  cases hfind : (List.finRange vmTuiTilesPerVm).find? (fun i => !(t.slots (vm, i)).inUse) with
  | none => exact .inl rfl
  | some i =>
    obtain ⟨hr, hc⟩ : 0 < rows.toNat ∧ 0 < cols.toNat := by omega
    have hgen := nextGeneration_ne_zero (t.slots (vm, i)).generation
    exact .inr ⟨rows.toNat, cols.toNat, by omega, by omega, packHandle_ne_zero hgen,
      create_spec hi (find_free hfind) hr hc (by omega) rfl⟩

/-! ## Runs -/

/-- The ranges that an unload leaves can be moved down one after the other. -/
def Compactable (t : Tiles) : TileEvent → Prop
  | .call .. => True
  | .release vm => Fits (t.drop vm) 0 tileIds

theorem TilesInv.event (hi : TilesInv t) {e : TileEvent} (ho : Compactable t e) :
    TilesInv (t.event e).2 ∧ TileSpec t.view e (t.event e).1 (t.event e).2.view := by
  cases e with
  | release vm =>
    unfold Compactable at ho
    unfold Tiles.event TileSpec
    exact release_spec hi ho
  | call vm sess call =>
    unfold Tiles.event TileSpec tileCall
    dsimp only
    by_cases hown : sess.ownerVm ≠ some vm
    · rw [if_pos hown, if_pos hown]
      exact ⟨hi, rfl, rfl⟩
    · rw [if_neg hown, if_neg hown]
      cases call with
      | create rows cols =>
        dsimp only
        rcases tileCreate_spec vm hi rows.toInt cols.toInt with
          h | ⟨height, width, hr, hc, hne, hinv, hnone, hview⟩
        · rw [h]
          exact ⟨hi, .inl ⟨if_pos rfl, rfl⟩⟩
        · rw [if_neg hne]
          exact ⟨hinv, .inr ⟨height, width, hr, hc, hne, hnone, hview⟩⟩
      | destroy h =>
        dsimp only
        unfold tileDestroy
        cases hr : resolveHandle t vm h with
        | none =>
          have hnone : t.view vm h = none := by unfold Tiles.view; rw [hr]; rfl
          rw [hnone]
          exact ⟨hi, rfl, rfl⟩
        | some k =>
          have hsome : t.view vm h = some (t.tile k) := by unfold Tiles.view; rw [hr]; rfl
          obtain ⟨hinv, hview⟩ := destroy_spec hi hr
          rw [hsome]
          exact ⟨hinv, rfl, hview⟩
      | use h op =>
        dsimp only
        cases hr : resolveHandle t vm h with
        | none =>
          have hnone : t.view vm h = none := by unfold Tiles.view; rw [hr]; rfl
          rw [hnone]
          exact ⟨hi, rfl, rfl⟩
        | some k =>
          have hsome : t.view vm h = some (t.tile k) := by unfold Tiles.view; rw [hr]; rfl
          obtain ⟨hinv, hview⟩ := edit_spec hi hr
            ((op.run sess).edit (t.slots k).rows (t.slots k).cols)
          rw [hsome]
          exact ⟨hinv, rfl, hview⟩

/-- The ranges of live tiles lie in the arena and apart, and no two handles name one tile. -/
structure TilesSound (t : Tiles) : Prop where
  inside : ∀ k, (t.slots k).inUse = true →
    (t.slots k).arenaOff + (t.slots k).arenaLen ≤ tileArenaBytes
  apart : ∀ k j, k ≠ j → (t.slots k).inUse = true → (t.slots j).inUse = true →
    (t.slots k).Apart (t.slots j)
  once : ∀ v w h g k, resolveHandle t v h = some k → resolveHandle t w g = some k → v = w ∧ h = g

theorem TilesInv.sound (hi : TilesInv t) : TilesSound t where
  inside k hk := (hi.below k hk).trans hi.bound
  apart := hi.apart
  once _ _ _ _ _ h h' := resolveHandle_inj h h'

/-- In every history of tile calls and unloads whose compactions fit, every call does to the map of
handles what its specification says, and the ranges stay apart. -/
theorem run_tiles {es : List TileEvent} (hok : Meets Tiles.step Compactable .init es) :
    Meets Tiles.step (fun t e => TileSpec t.view e (t.event e).1 (t.event e).2.view) .init es ∧
      ∀ t, run Tiles.step .init es = some t → TilesSound t := by
  have hstep : ∀ t e t', TilesInv t → Compactable t e → Tiles.step t e = some t' → TilesInv t' := by
    intro t e t' hi ho hs
    rw [Tiles.step, Option.some.injEq] at hs
    rw [← hs]
    exact (hi.event ho).1
  refine ⟨.of_invariant hstep (fun t e hi ho => (hi.event ho).2) tilesInv_init hok, fun t ht => ?_⟩
  exact (run_invariant hstep tilesInv_init hok ht).sound

/-- A session of VM `vm`. -/
def sessionOf (vm : VmId) : VmTuiSession := { VmTuiSession.reset with ownerVm := some vm }

/-- VM 0 and VM 1 make a tile each, and VM 1 fills its own; VM 0 is unloaded. -/
def releaseBelow : List TileEvent :=
  [.call 0 (sessionOf 0) (.create 1 1), .call 1 (sessionOf 1) (.create 1 1),
    .call 1 (sessionOf 1) (.use 0x10100 (.fill 0x6100 0 0)), .release 0]

/-- The tile of VM 1 moves to the start of the arena. -/
theorem run_tiles_below : ∃ t, run Tiles.step .init releaseBelow = some t ∧
    (t.slots (1, 0)).arenaOff = 0 ∧ t.view 1 0x10100 = some ⟨1, 1, [⟨0x61, 0, 0, 0, 0⟩]⟩ ∧
    TilesSound t ∧
    Meets Tiles.step (fun t e => TileSpec t.view e (t.event e).1 (t.event e).2.view) .init
      releaseBelow := by
  have hok : Meets Tiles.step Compactable .init releaseBelow := by
    refine ⟨trivial, fun t₁ h₁ => ⟨trivial, fun t₂ h₂ => ⟨trivial, fun t₃ h₃ => ⟨?_,
      fun _ _ => trivial⟩⟩⟩⟩
    rw [Tiles.step, Option.some.injEq] at h₁ h₂ h₃
    subst h₁ h₂ h₃
    refine Fits.of_filter ?_
    decide +kernel
  obtain ⟨hspec, hsound⟩ := run_tiles hok
  obtain ⟨t, ht⟩ : ∃ t, run Tiles.step .init releaseBelow = some t := ⟨_, rfl⟩
  have hmoved : (run Tiles.step .init releaseBelow).map
      (fun t => ((t.slots (1, 0)).arenaOff, t.view 1 0x10100)) =
        some (0, some ⟨1, 1, [⟨0x61, 0, 0, 0, 0⟩]⟩) := by decide +kernel
  rw [ht, Option.map_some, Option.some.injEq, Prod.mk.injEq] at hmoved
  exact ⟨t, ht, hmoved.1, hmoved.2, hsound t ht, hspec⟩

/-- VM 1 makes a tile before VM 0 does, and each fills its own. -/
def releaseOutOfOrder : List TileEvent :=
  [.call 1 (sessionOf 1) (.create 1 1), .call 0 (sessionOf 0) (.create 1 1),
    .call 1 (sessionOf 1) (.use 0x10100 (.fill 0x6100 0 0)),
    .call 0 (sessionOf 0) (.use 0x10000 (.fill 0x6200 0 0))]

/-- The unload of a third VM puts the cell of VM 0 into VM 1's tile. -/
theorem release_overwrites : ∃ t, run Tiles.step .init releaseOutOfOrder = some t ∧
    t.view 1 0x10100 = some ⟨1, 1, [⟨0x61, 0, 0, 0, 0⟩]⟩ ∧
    (t.event (.release 2)).2.view 1 0x10100 = some ⟨1, 1, [⟨0x62, 0, 0, 0, 0⟩]⟩ ∧
    ¬TileSpec t.view (.release 2) (t.event (.release 2)).1 (t.event (.release 2)).2.view := by
  obtain ⟨t, ht⟩ : ∃ t, run Tiles.step .init releaseOutOfOrder = some t := ⟨_, rfl⟩
  have hbefore : (run Tiles.step .init releaseOutOfOrder).map (·.view 1 0x10100) =
      some (some ⟨1, 1, [⟨0x61, 0, 0, 0, 0⟩]⟩) := by decide +kernel
  have hafter : (run Tiles.step .init releaseOutOfOrder).map
      (fun t => (t.event (.release 2)).2.view 1 0x10100) =
      some (some ⟨1, 1, [⟨0x62, 0, 0, 0, 0⟩]⟩) := by decide +kernel
  rw [ht, Option.map_some, Option.some.injEq] at hbefore hafter
  refine ⟨t, ht, hbefore, hafter, fun hspec => ?_⟩
  have hview := congrFun (congrFun hspec 1) 0x10100
  rw [hafter, if_neg (by decide), hbefore] at hview
  exact absurd hview (by decide)

end Microgarbage.Tui
