import Mathlib.Data.List.Basic
import Microgarbage.Cart.Ecalls

/-!
# What a frame stages

Which states stage nothing when a frame is built: those with no direct upload, no dirty range that is
sent, and no transient that fits.
-/

namespace Microgarbage.Cart

open Lib

/-! ## The staged list -/

/-- Each shadow fits the payload area even behind the two bytes of a VRAM clear. -/
theorem shadow_sizes : payloadBytes = 28672 ∧ mgCgramBytes = 512 ∧ mgOamBytes = 544 ∧
    mgBgTilemapBytes = 2048 := ⟨rfl, rfl, rfl, rfl⟩

/-- The part of the state that the staged list grows in. -/
structure Load where
  payloadUsed : Nat
  payloadCheckpoint : Nat
  staged : List StagedSlot
  stagedCheckpoint : Nat
  pending : List PendingTransientDma

namespace Copro

variable {c : Copro}

def load (c : Copro) : Load :=
  { c with }

theorem stageDma_nil {src : List Byte} {bbus dmap : Byte} {prep : BitVec 16}
    (h : (c.stageDma src bbus dmap prep).2.staged = []) :
    (c.stageDma src bbus dmap prep).2 = c ∧ c.staged = [] ∧
      (src.length = 0 ∨ payloadBytes < c.payloadUsed + src.length) := by
  rcases stageDma_cases c src bbus dmap prep with ⟨heq, hwhy⟩ | ⟨heq, -⟩
  · rw [heq] at h
    refine ⟨heq, h, hwhy.resolve_left ?_⟩
    rw [h]
    decide
  · rw [heq] at h
    exact absurd h (List.append_ne_nil_of_right_ne_nil _ (List.cons_ne_nil _ _))

theorem stageCgram_nil (hr : c.state.RangesOk) (hu : c.payloadUsed ≤ 2) :
    c.stageCgram.staged = [] ↔ c.staged = [] ∧ ¬ c.state.cgramDirty.Dirty := by
  have hhi := hr.cgram
  unfold stageCgram
  dsimp only
  split
  · rename_i hd
    refine iff_of_false (fun hnil => ?_) fun hn => hn.2 hd
    have hlen := (stageDma_nil hnil).2.2
    unfold DirtyRange.Dirty at hd
    rw [Mem.length_bytes] at hlen
    have hsizes := shadow_sizes
    omega
  · exact ⟨fun hnil => ⟨hnil, ‹_›⟩, fun hn => hn.1⟩

theorem stageOam_nil (hu : c.payloadUsed ≤ 2) :
    c.stageOam.staged = [] ↔ c.staged = [] ∧ ¬ c.state.oamDirty.Dirty := by
  unfold stageOam
  split
  · rename_i hd
    refine iff_of_false (fun hnil => ?_) fun hn => hn.2 hd
    have hlen := (stageDma_nil hnil).2.2
    rw [Mem.length_bytes] at hlen
    have hsizes := shadow_sizes
    omega
  · exact ⟨fun hnil => ⟨hnil, ‹_›⟩, fun hn => hn.1⟩

theorem stageCgram_grows (h : c.stageCgram.staged = []) : c.staged = [] := by
  unfold stageCgram at h
  dsimp only at h
  split at h
  · exact (stageDma_nil h).2.1
  · exact h

theorem stageOam_grows (h : c.stageOam.staged = []) : c.staged = [] := by
  unfold stageOam at h
  split at h
  · exact (stageDma_nil h).2.1
  · exact h

theorem stageCgram_of_clean (h : ¬ c.state.cgramDirty.Dirty) : c.stageCgram = c := if_neg h

theorem stageOam_of_clean (h : ¬ c.state.oamDirty.Dirty) : c.stageOam = c := if_neg h

/-- The layer is sent with the next frame. -/
def SendsLayer (c : Copro) (i : Fin 4) : Prop :=
  (c.state.bg i).dirty.Dirty ∧ (c.state.bg i).enabled = true

theorem stageLayer_nil (hr : c.state.RangesOk) (hu : c.payloadUsed ≤ 2) (i : Fin 4) :
    (c.stageLayer i).staged = [] ↔ c.staged = [] ∧ ¬ c.SendsLayer i := by
  have hhi := hr.bg i
  unfold stageLayer SendsLayer
  dsimp only
  split
  · rename_i hd
    refine iff_of_false (fun hnil => ?_) fun hn => hn.2 hd
    have hlen := (stageDma_nil hnil).2.2
    have hlo := hd.1
    unfold DirtyRange.Dirty at hlo
    rw [Mem.length_bytes] at hlen
    have hsizes := shadow_sizes
    omega
  · exact ⟨fun hnil => ⟨hnil, ‹_›⟩, fun hn => hn.1⟩

theorem stageLayer_of_not {i : Fin 4} (h : ¬ c.SendsLayer i) : c.stageLayer i = c := if_neg h

theorem foldl_stageLayer_grows {l : List (Fin 4)} (h : (l.foldl stageLayer c).staged = []) :
    c.staged = [] := by
  induction l generalizing c with
  | nil => exact h
  | cons i l ih =>
    have hnil := ih h
    unfold stageLayer at hnil
    dsimp only at hnil
    split at hnil
    · exact (stageDma_nil hnil).2.1
    · exact hnil

theorem stageLayers_nil (hr : c.state.RangesOk) (hu : c.payloadUsed ≤ 2) :
    c.stageLayers.staged = [] ↔ c.staged = [] ∧ ∀ i, ¬ c.SendsLayer i := by
  have key : ∀ l : List (Fin 4), (l.foldl stageLayer c).staged = [] ↔
      c.staged = [] ∧ ∀ i ∈ l, ¬ c.SendsLayer i := by
    intro l
    induction l with
    | nil => simp
    | cons i l ih =>
      rw [List.foldl_cons, List.forall_mem_cons]
      constructor
      · intro hnil
        obtain ⟨hstaged, hi⟩ := (stageLayer_nil hr hu i).mp (foldl_stageLayer_grows hnil)
        rw [stageLayer_of_not hi] at hnil
        exact ⟨hstaged, hi, (ih.mp hnil).2⟩
      · rintro ⟨hstaged, hi, hrest⟩
        rw [stageLayer_of_not hi]
        exact ih.mpr ⟨hstaged, hrest⟩
  unfold stageLayers
  rw [key]
  simp

theorem stageLayers_of_not (h : ∀ i, ¬ c.SendsLayer i) : c.stageLayers = c :=
  List.foldl_fixed' (fun i => stageLayer_of_not (h i)) _

/-- The transient does not fit behind the direct uploads. -/
def Fits (c : Copro) (p : PendingTransientDma) : Prop :=
  p.bytes.length ≠ 0 ∧ c.payloadUsed + p.bytes.length ≤ payloadBytes

theorem flushPendingTransients_nil : c.flushPendingTransients.staged = [] ↔
    c.staged = [] ∧ ∀ p ∈ c.pending, ¬ c.Fits p := by
  have key : ∀ l : List PendingTransientDma,
      (l.foldl (fun c p => (c.stageDma p.bytes p.bbus p.dmap p.prep).2) c).staged = [] ↔
        c.staged = [] ∧ ∀ p ∈ l, ¬ c.Fits p := by
    intro l
    induction l generalizing c with
    | nil => simp
    | cons p l ih =>
      rw [List.foldl_cons, ih, List.forall_mem_cons]
      constructor
      · rintro ⟨hnil, hrest⟩
        obtain ⟨heq, hstaged, hlen⟩ := stageDma_nil hnil
        rw [heq] at hrest
        refine ⟨hstaged, fun hfit => ?_, hrest⟩
        rcases hlen with h0 | hfull
        · exact hfit.1 h0
        · exact absurd hfit.2 (by omega)
      · rintro ⟨hstaged, hp, hrest⟩
        rcases stageDma_cases c p.bytes p.bbus p.dmap p.prep with ⟨heq, -⟩ | ⟨-, -, hne, hle⟩
        · rw [heq]
          exact ⟨hstaged, hrest⟩
        · exact absurd ⟨hne, hle⟩ hp
  exact key c.pending

/-! ## What the frame sends -/

theorem prepareFrame_load : c.prepareFrame.load =
    { c with payloadUsed := c.payloadCheckpoint, staged := c.staged.take c.stagedCheckpoint } := by
  have hrewind : c.prepareFrame.load = c.dropCleanSlate.reuploadCgram.reuploadBg.rewind.load := rfl
  have hbg : c.dropCleanSlate.reuploadCgram.reuploadBg.load = c.load := by
    unfold reuploadBg reuploadCgram dropCleanSlate
    split <;> split <;> split <;> rfl
  have hload : ∀ c' : Copro, c'.rewind.load =
      ⟨c'.load.payloadCheckpoint, c'.load.payloadCheckpoint,
        c'.load.staged.take c'.load.stagedCheckpoint, c'.load.stagedCheckpoint, c'.load.pending⟩ :=
    fun _ => rfl
  rw [hrewind, hload, hbg]
  rfl

/-- The palette is sent: it was changed, or is sent again after a clean slate. -/
def SendsCgram (c : Copro) : Prop := c.state.cgramDirty.Dirty ∨ 0 < c.cgramReuploadFrames

/-- The layer is sent: it was changed, or is sent again after a clean slate. -/
def SendsBg (c : Copro) (i : Fin 4) : Prop :=
  (c.state.bg i).enabled = true ∧
    ((c.state.bg i).dirty.Dirty ∨ (0 < c.bgReuploadFrames ∧ (c.state.bg i).shadowEverWritten = true))

/-- The next frame has no descriptor: there is no direct upload, no shadow to send, and no transient
that fits. -/
structure SendsNothing (c : Copro) : Prop where
  direct : c.stagedCheckpoint = 0
  cgram : ¬ c.SendsCgram
  oam : ¬ c.state.oamDirty.Dirty
  bg : ∀ i, ¬ c.SendsBg i
  transients : ∀ p ∈ c.pending,
    p.bytes.length = 0 ∨ payloadBytes < c.payloadCheckpoint + p.bytes.length

theorem prepareFrame_state : c.prepareFrame.state =
    { c.state with
      cgramDirty := if 0 < c.cgramReuploadFrames then ⟨0, mgCgramBytes⟩ else c.state.cgramDirty
      bg := fun i => if 0 < c.bgReuploadFrames then reuploadLayer (c.state.bg i)
        else c.state.bg i } := by
  have hprep : c.prepareFrame.state = c.dropCleanSlate.reuploadCgram.reuploadBg.state := rfl
  rw [hprep]
  unfold reuploadBg reuploadCgram dropCleanSlate
  split <;> split <;> split <;> simp_all

theorem reuploadLayer_sends (bg : MgBgLayerState) :
    (reuploadLayer bg).dirty.Dirty ∧ (reuploadLayer bg).enabled = true ↔
      bg.enabled = true ∧ (bg.dirty.Dirty ∨ bg.shadowEverWritten = true) := by
  unfold reuploadLayer
  split
  · rename_i h
    have hsent : (⟨0, mgBgTilemapBytes⟩ : DirtyRange).Dirty := by decide
    exact iff_of_true ⟨hsent, h.1⟩ ⟨h.1, .inr h.2.1⟩
  · tauto

theorem prepareFrame_sends :
    (¬ c.prepareFrame.state.cgramDirty.Dirty ↔ ¬ c.SendsCgram) ∧
      (c.prepareFrame.state.oamDirty = c.state.oamDirty) ∧
      ∀ i, c.prepareFrame.SendsLayer i ↔ c.SendsBg i := by
  have hfull : (⟨0, mgCgramBytes⟩ : DirtyRange).Dirty := by decide
  unfold SendsLayer SendsBg SendsCgram
  rw [prepareFrame_state]
  refine ⟨?_, rfl, fun i => ?_⟩
  · dsimp only
    split
    · exact iff_of_false (not_not.mpr hfull) (not_not.mpr (.inr ‹_›))
    · simp_all
  · dsimp only
    split
    · rename_i hre
      rw [reuploadLayer_sends]
      simp [hre]
    · rename_i hre
      simp [hre, and_comm]

/-- What keeps the bookkeeping of the direct uploads in order. -/
structure StagingOk (c : Copro) : Prop where
  ranges : c.state.RangesOk
  count : c.stagedCheckpoint ≤ c.staged.length
  /-- Without a direct upload there are at most the two bytes of a VRAM clear. -/
  vramClear : c.stagedCheckpoint = 0 → c.payloadCheckpoint ≤ 2

theorem prepareFrame_ranges (h : c.state.RangesOk) : c.prepareFrame.state.RangesOk := by
  rw [prepareFrame_state]
  refine ⟨?_, fun i => ?_⟩
  · dsimp only
    split
    · exact Nat.le_refl _
    · exact h.cgram
  · dsimp only
    split
    · unfold reuploadLayer
      split
      · exact Nat.le_refl _
      · exact h.bg i
    · exact h.bg i

theorem stageFrame_nil (h : StagingOk c) : c.stageFrame.staged = [] ↔ c.SendsNothing := by
  obtain ⟨hcgram, hoam, hbg⟩ := prepareFrame_sends (c := c)
  have hload := prepareFrame_load (c := c)
  have hranges := prepareFrame_ranges h.ranges
  have hdirect : c.prepareFrame.staged = [] ↔ c.stagedCheckpoint = 0 := by
    rw [show c.prepareFrame.staged = c.staged.take c.stagedCheckpoint from congrArg Load.staged hload,
      List.take_eq_nil_iff]
    refine ⟨fun hor => hor.elim id fun hnil => ?_, .inl⟩
    have hcount := h.count
    rw [hnil] at hcount
    exact Nat.le_zero.mp hcount
  have hused : c.prepareFrame.payloadUsed = c.payloadCheckpoint := congrArg Load.payloadUsed hload
  have hpending : c.prepareFrame.pending = c.pending := congrArg Load.pending hload
  unfold stageFrame
  generalize c.prepareFrame = p at *
  have hfits : ∀ q : PendingTransientDma, ¬ p.Fits q ↔
      q.bytes.length = 0 ∨ payloadBytes < c.payloadCheckpoint + q.bytes.length := by
    intro q
    unfold Fits
    rw [hused]
    omega
  constructor
  · intro hnil
    obtain ⟨hlayers, htrans⟩ := flushPendingTransients_nil.mp hnil
    have hoamNil := foldl_stageLayer_grows hlayers
    have hcgramNil := stageOam_grows hoamNil
    have hcp := hdirect.mp (stageCgram_grows hcgramNil)
    have hu : p.payloadUsed ≤ 2 := hused ▸ h.vramClear hcp
    obtain ⟨-, hcleanCgram⟩ := (stageCgram_nil hranges hu).mp hcgramNil
    rw [stageCgram_of_clean hcleanCgram] at hoamNil hlayers htrans
    obtain ⟨-, hcleanOam⟩ := (stageOam_nil hu).mp hoamNil
    rw [stageOam_of_clean hcleanOam] at hlayers htrans
    obtain ⟨-, hcleanBg⟩ := (stageLayers_nil hranges hu).mp hlayers
    rw [stageLayers_of_not hcleanBg] at htrans
    exact ⟨hcp, hcgram.mp hcleanCgram, hoam ▸ hcleanOam, fun i hi => hcleanBg i ((hbg i).mpr hi),
      fun q hq => (hfits q).mp (htrans q (hpending ▸ hq))⟩
  · intro hs
    rw [stageCgram_of_clean (hcgram.mpr hs.cgram), stageOam_of_clean (hoam ▸ hs.oam),
      stageLayers_of_not fun i hi => hs.bg i ((hbg i).mp hi)]
    exact flushPendingTransients_nil.mpr ⟨hdirect.mpr hs.direct,
      fun q hq => (hfits q).mpr (hs.transients q (hpending ▸ hq))⟩

/-! ## The bookkeeping holds along a run -/

namespace StagingOk

theorem grow (h : StagingOk c) {c' : Copro} (hs : c'.state.RangesOk) (hp : c.staged <+: c'.staged)
    (hc : c'.stagedCheckpoint = c.stagedCheckpoint)
    (hu : c'.payloadCheckpoint = c.payloadCheckpoint) : StagingOk c' := by
  refine ⟨hs, ?_, ?_⟩
  · rw [hc]
    exact Nat.le_trans h.count hp.length_le
  · rw [hc, hu]
    exact h.vramClear

theorem same (h : StagingOk c) {c' : Copro} (hs : c'.state.RangesOk) (hl : c'.load = c.load) :
    StagingOk c' := by
  have hstaged : c.staged = c'.staged := (congrArg Load.staged hl).symm
  have hgrow : c.staged <+: c'.staged := hstaged ▸ List.prefix_refl c.staged
  exact h.grow hs hgrow (congrArg Load.stagedCheckpoint hl) (congrArg Load.payloadCheckpoint hl)

theorem stageDma (h : StagingOk c) (src : List Byte) (bbus dmap : Byte) (prep : BitVec 16) :
    StagingOk (c.stageDma src bbus dmap prep).2 := by
  rcases stageDma_cases c src bbus dmap prep with ⟨heq, -⟩ | ⟨heq, -⟩
  · rw [heq]
    exact h
  · rw [heq]
    exact h.grow h.ranges (List.prefix_append ..) rfl rfl

theorem mgStateReset : StagingOk c.mgStateReset :=
  ⟨.reset, Nat.le_refl _, fun _ => Nat.zero_le _⟩

theorem ppuCleanSlate : StagingOk c.ppuCleanSlate := by
  have hranges : ({ MgState.reset with cgramDirty := ⟨0, mgCgramBytes⟩ } : MgState).RangesOk :=
    ⟨Nat.le_refl _, fun _ => Nat.zero_le _⟩
  exact ⟨hranges, Nat.le_refl _, fun _ => Nat.le_refl _⟩

theorem chrUpload (h : StagingOk c) (vramWord bytes : BitVec 16) (src : GuestBytes) :
    StagingOk (c.chrUpload vramWord bytes src).2 := by
  unfold Copro.chrUpload chrUploadVia
  split
  · exact h
  · rename_i hne
    split
    · exact h
    · rename_i src
      unfold queueDma
      dsimp only
      split
      · exact h
      · split
        · exact h
        · rcases stageDma_cases c (readBytes src bytes.toNat) bbusVmdatal dmap2b2r vramWord with
            ⟨heq, hwhy⟩ | ⟨heq, -⟩
          · have hlen : (readBytes src bytes.toNat).length = bytes.toNat := Mem.length_bytes ..
            have hnz : bytes.toNat ≠ 0 := fun h0 => hne (BitVec.eq_of_toNat_eq h0)
            have hfalse : (c.stageDma (readBytes src bytes.toNat) bbusVmdatal dmap2b2r vramWord).1 =
                false := by
              have hcap := hwhy.resolve_right (by omega)
              unfold Copro.stageDma
              rw [if_pos hcap]
            rw [hfalse, if_neg Bool.false_ne_true, heq]
            exact h
          · rw [heq, if_pos rfl]
            refine ⟨h.ranges, Nat.le_refl _, fun h0 => ?_⟩
            dsimp only [checkpoint] at h0
            rw [List.length_append, List.length_singleton] at h0
            omega

theorem stageCgram (h : StagingOk c) : StagingOk c.stageCgram := by
  unfold Copro.stageCgram
  dsimp only
  split
  · have hst := h.stageDma (c.state.cgramShadow.bytes c.state.cgramDirty.lo
      (c.state.cgramDirty.hi - c.state.cgramDirty.lo)) bbusCgdata dmap1b1r
      (BitVec.ofNat 16 (c.state.cgramDirty.lo / 2 % 256))
    exact hst.same ⟨Nat.zero_le _, hst.ranges.bg⟩ rfl
  · exact h

theorem stageOam (h : StagingOk c) : StagingOk c.stageOam := by
  unfold Copro.stageOam
  split
  · have hst := h.stageDma (c.state.oamShadow.bytes 0 mgOamBytes) bbusOamdata dmap1b1r 0
    exact hst.same ⟨hst.ranges.cgram, hst.ranges.bg⟩ rfl
  · exact h

theorem stageLayer (h : StagingOk c) (i : Fin 4) : StagingOk (c.stageLayer i) := by
  unfold Copro.stageLayer
  dsimp only
  split
  · have hst := h.stageDma ((c.state.bg i).shadow.bytes (c.state.bg i).dirty.lo
      ((c.state.bg i).dirty.hi - (c.state.bg i).dirty.lo)) bbusVmdatal dmap2b2r
      ((c.state.bg i).tilemapWord + BitVec.ofNat 16 ((c.state.bg i).dirty.lo / 2))
    generalize (c.stageDma _ _ _ _).2 = c' at hst ⊢
    have hclean : (c'.state.setBg i fun bg => { bg with dirty := .clean }).RangesOk := by
      refine (MgState.Keeps.setBg i .refl ?_).ranges hst.ranges
      exact fun _ => Nat.zero_le _
    exact hst.same hclean rfl
  · exact h

theorem stageFrame (h : StagingOk c) : StagingOk c.stageFrame := by
  have hprep : StagingOk c.prepareFrame := by
    have hload := prepareFrame_load (c := c)
    refine ⟨prepareFrame_ranges h.ranges, ?_, ?_⟩
    · have hstaged : c.prepareFrame.staged = c.staged.take c.stagedCheckpoint :=
        congrArg Load.staged hload
      have hcount : c.prepareFrame.stagedCheckpoint = c.stagedCheckpoint :=
        congrArg Load.stagedCheckpoint hload
      have hlen : c.prepareFrame.staged.length = c.stagedCheckpoint := by
        rw [hstaged, List.length_take, Nat.min_eq_left h.count]
      exact Nat.le_of_eq (hcount.trans hlen.symm)
    · have hcount : c.prepareFrame.stagedCheckpoint = c.stagedCheckpoint :=
        congrArg Load.stagedCheckpoint hload
      have hused : c.prepareFrame.payloadCheckpoint = c.payloadCheckpoint :=
        congrArg Load.payloadCheckpoint hload
      rw [hcount, hused]
      exact h.vramClear
  unfold Copro.stageFrame
  have hlayers : StagingOk c.prepareFrame.stageCgram.stageOam.stageLayers :=
    List.foldlRecOn (motive := StagingOk) _ _ hprep.stageCgram.stageOam
      fun _ h i _ => h.stageLayer i
  generalize c.prepareFrame.stageCgram.stageOam.stageLayers = c' at hlayers
  have hflush : StagingOk
      (c'.pending.foldl (fun c p => (c.stageDma p.bytes p.bbus p.dmap p.prep).2) c') :=
    List.foldlRecOn (motive := StagingOk) _ _ hlayers fun _ h p _ => h.stageDma ..
  exact ⟨hflush.ranges, hflush.count, hflush.vramClear⟩

theorem flushSubframes (h : StagingOk c) : StagingOk c.flushSubframes := by
  have hsame : c.flushSubframes.load = c.load ∧ c.flushSubframes.state = c.state := by
    unfold Copro.flushSubframes publishFrame
    split
    · split <;> exact ⟨rfl, rfl⟩
    · split <;> exact ⟨rfl, rfl⟩
  exact h.same (hsame.2 ▸ h.ranges) hsame.1

theorem frameCommit (h : StagingOk c) (byte : Byte) : StagingOk (c.frameCommit byte).2 := by
  unfold Copro.frameCommit
  split
  · exact ⟨h.ranges, h.count, h.vramClear⟩
  · have hbuild := h.stageFrame.flushSubframes
    unfold buildFrame
    generalize c.stageFrame.flushSubframes = c' at hbuild
    exact ⟨hbuild.ranges, hbuild.count, hbuild.vramClear⟩

theorem frameDone (h : StagingOk c) : StagingOk c.frameDone := by
  have hsame : c.frameDone.load = c.load ∧ c.frameDone.state = c.state := by
    unfold Copro.frameDone advanceSubframe
    dsimp only
    split
    · exact ⟨rfl, rfl⟩
    · split
      · exact ⟨rfl, rfl⟩
      · split <;> exact ⟨rfl, rfl⟩
  exact h.same (hsame.2 ▸ h.ranges) hsame.1

theorem step (h : StagingOk c) {e : CartEvent} {c' : Copro} (hs : c.step e = some c') :
    StagingOk c' := by
  unfold Copro.step at hs
  obtain ⟨r, hr, rfl⟩ := Option.map_eq_some_iff.mp hs
  have hcart : ∀ w, StagingOk { c with cart := w } := fun _ => ⟨h.ranges, h.count, h.vramClear⟩
  cases e with
  | read snesAddr =>
    cases hr
    dsimp only
    unfold cartWindowRead
    dsimp only
    split
    · exact h.frameDone
    · exact hcart _
  | unload =>
    cases hr
    have hreset : StagingOk c.mgStateReset := mgStateReset
    exact ⟨hreset.ranges, hreset.count, hreset.vramClear⟩
  | call mg =>
    change mg.apply c = some r at hr
    cases mg with
    | shadow call =>
      obtain ⟨x, hx, rfl⟩ := Option.map_eq_some_iff.mp hr
      exact ⟨(ShadowCall.keeps hx).ranges h.ranges, h.count, h.vramClear⟩
    | chrUpload vramWord bytes src =>
      cases hr
      exact h.chrUpload vramWord bytes src
    | chrUploadTransient vramWord bytes src =>
      cases hr
      rcases chrUploadTransient_cases c vramWord bytes src with heq | ⟨p, -, -, heq⟩
      · rw [heq]
        exact h
      · rw [heq]
        exact ⟨h.ranges, h.count, h.vramClear⟩
    | ppuCleanSlate =>
      cases hr
      exact ppuCleanSlate
    | frameCommit byte =>
      cases hr
      exact h.frameCommit byte
    | _ =>
      obtain ⟨hdma, heq⟩ := (MgCall.apply_loads hr trivial).rest
      rw [heq]
      exact ⟨⟨h.ranges.cgram, h.ranges.bg⟩, h.count, h.vramClear⟩

theorem init (noCommitAhead : Bool) : StagingOk (Copro.init noCommitAhead) :=
  ⟨.reset, Nat.le_refl _, fun _ => Nat.zero_le _⟩

end StagingOk

end Copro

end Microgarbage.Cart
