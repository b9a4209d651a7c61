import Mathlib.Logic.Function.Iterate
import Microgarbage.Cart.Pipeline
import Microgarbage.Cart.Staged

/-!
# Frames in flight along a run

The counters agree with the frames in the queue as long as a commit stages something exactly when its
byte is not zero, and frames are neither cancelled nor reset while one is being walked.
-/

namespace Microgarbage.Cart

open Lib

/-- One for a frame that is there. -/
def frames (valid : Bool) : Word := if valid then 1 else 0

namespace Pipe

def inFlight (p : Pipe) : Word := p.frameStaged - p.frameConsumed

def depth (p : Pipe) : Word := if p.noCommitAhead then 1 else 2

/-- The counters, the ready byte and the queue tell the same story. -/
structure InSync (p : Pipe) : Prop where
  count : p.inFlight = frames p.activeValid + frames p.queuedValid
  bounded : p.inFlight ≤ p.depth
  ready : p.frameReady ≠ 0 ↔ p.activeValid = true
  behind : p.queuedValid = true → p.activeValid = true

variable {p : Pipe}

theorem one_le_depth (p : Pipe) : 1 ≤ p.depth := by
  unfold depth
  split <;> decide

theorem depth_le_two (p : Pipe) : p.depth ≤ 2 := by
  unfold depth
  split <;> decide

theorem InSync.idle (h : InSync p) (ha : p.activeValid = false) :
    p.queuedValid = false ∧ p.frameReady = 0 ∧ p.inFlight = 0 := by
  have hq : p.queuedValid = false := by
    cases hq : p.queuedValid with
    | false => rfl
    | true => exact absurd (h.behind hq) (by simp [ha])
  refine ⟨hq, ?_, ?_⟩
  · by_contra hr
    exact absurd (h.ready.mp hr) (by simp [ha])
  · rw [h.count, ha, hq]
    rfl

theorem inFlight_staged {s : Word} (h : p.inFlight = s) (q : Pipe)
    (hs : q.frameStaged = p.frameStaged + 1) (hc : q.frameConsumed = p.frameConsumed) :
    q.inFlight = s + 1 := by
  unfold inFlight at h ⊢
  rw [hs, hc, ← h]
  bv_omega

theorem inFlight_consumed {s : Word} (h : p.inFlight = s + 1) (q : Pipe)
    (hs : q.frameStaged = p.frameStaged) (hc : q.frameConsumed = p.frameConsumed + 1) :
    q.inFlight = s := by
  unfold inFlight at h ⊢
  rw [hs, hc]
  bv_omega

theorem InSync.frameDone (h : InSync p) (queued : List SubFrame) : InSync (p.frameDone queued) := by
  unfold Pipe.frameDone
  split
  · exact h
  · rename_i hready
    have ha := h.ready.mp hready
    split
    · exact { h with }
    · split
      · rename_i hq
        have hcount : p.inFlight = 1 + 1 := by rw [h.count, ha, hq]; rfl
        have hnow := inFlight_consumed hcount { p with
          frameConsumed := p.frameConsumed + 1
          queuedValid := false
          activeValid := true
          subframes := queued
          subframeIndex := 0 } rfl rfl
        refine ⟨hnow, ?_, iff_of_true hready rfl, fun _ => rfl⟩
        rw [hnow]
        exact one_le_depth p
      · rename_i hq
        have hqueued : p.queuedValid = false := Bool.eq_false_iff.mpr hq
        have hcount : p.inFlight = 0 + 1 := by rw [h.count, ha, hqueued]; rfl
        have hnow := inFlight_consumed hcount { p with
          frameReady := 0
          frameConsumed := p.frameConsumed + 1
          activeValid := false
          subframes := []
          subframeIndex := 0 } rfl rfl
        refine ⟨?_, ?_, iff_of_false (not_not.mpr rfl) Bool.false_ne_true, fun hq' => absurd hq' hq⟩
        · rw [hnow]
          dsimp only
          rw [hqueued]
          rfl
        · rw [hnow]
          exact Nat.zero_le _

/-! ## Commits -/

/-- A frame that stages something is active or queued, and the byte is not zero. -/
theorem InSync.commit (h : InSync p) (hroom : p.inFlight < p.depth) {q : Pipe}
    (hready : q.frameReady ≠ 0) (hs : q.frameStaged = p.frameStaged + 1)
    (hc : q.frameConsumed = p.frameConsumed) (hd : q.noCommitAhead = p.noCommitAhead)
    (ha : q.activeValid = true) (hq : q.queuedValid = p.activeValid) : InSync q := by
  have hpq : p.queuedValid = false := by
    by_contra hpq
    have hcount := h.count
    rw [Bool.not_eq_false] at hpq
    rw [h.behind hpq, hpq] at hcount
    have hdepth := depth_le_two p
    have htwo : frames true + frames true = 2 := rfl
    rw [hcount, htwo] at hroom
    bv_omega
  have hnow := inFlight_staged rfl q hs hc
  refine ⟨?_, ?_, iff_of_true hready ha, fun _ => ha⟩
  · rw [hnow, h.count, ha, hq, hpq]
    cases p.activeValid <;> rfl
  · have hdepth : q.depth = p.depth := by unfold depth; rw [hd]
    rw [hnow, hdepth]
    bv_omega

end Pipe

namespace Copro

variable {c : Copro}

/-! ## One step -/

/-- After some strobes a commit is accepted and a wait returns. -/
def Drains (c : Copro) : Prop := ∃ n, (frameDone^[n] c).inFlight < c.pipelineMaxInflight

/-- The frames in flight are accounted for, and none of them stays for ever. -/
structure Accounted (c : Copro) : Prop where
  sync : c.pipe.InSync
  drains : c.Drains

/-- A commit stages something exactly when its byte is not zero, unless it is dropped, and cancels
nothing. -/
def CommitOk (c : Copro) (byte : Byte) : Prop :=
  c.CommitDropped byte ∨ (byte ≠ 0 ∧ ¬ c.SendsNothing) ∨
    (byte = 0 ∧ c.SendsNothing ∧ c.activeValid = false)

/-- Nothing is reset while a frame is being walked. -/
def PipelineOk (c : Copro) : CartEvent → Prop
  | .call (.frameCommit byte) => c.CommitOk byte
  | .call .ppuCleanSlate | .unload => c.activeValid = false
  | _ => True

theorem mgStateReset_sync_iff (h : c.pipe.InSync) :
    c.mgStateReset.pipe.InSync ↔ c.activeValid = false := by
  rw [mgStateReset_pipe]
  constructor
  · intro hreset
    by_contra ha
    rw [Bool.not_eq_false] at ha
    exact absurd (hreset.ready.mp (h.ready.mpr ha)) Bool.false_ne_true
  · intro ha
    obtain ⟨hq, hready, hflight⟩ := h.idle ha
    refine ⟨hflight, h.bounded, ?_, fun hq' => absurd hq' Bool.false_ne_true⟩
    exact iff_of_false (not_not.mpr hready) Bool.false_ne_true

theorem frameCommit_sync_iff (h : c.pipe.InSync) (hs : c.StagingOk) (byte : Byte) :
    (c.frameCommit byte).2.pipe.InSync ↔ c.CommitOk byte := by
  unfold Copro.frameCommit CommitOk
  by_cases hdrop : c.CommitDropped byte
  · rw [if_pos hdrop]
    exact iff_of_true h (.inl hdrop)
  · rw [if_neg hdrop, or_iff_right hdrop]
    dsimp only
    rw [setFrameReady_pipe, buildFrame_pipe]
    have hactive : c.pipe.activeValid = c.activeValid := rfl
    by_cases hbyte : byte = 0
    · rw [if_neg (not_not.mpr hbyte)]
      by_cases hnone : c.SendsNothing
      · rw [if_pos ((stageFrame_nil hs).mpr hnone)]
        constructor
        · intro hsync
          refine .inr ⟨hbyte, hnone, ?_⟩
          by_contra ha
          exact hsync.ready.mpr (hactive.trans (Bool.not_eq_false _ ▸ ha)) hbyte
        · rintro (⟨hne, -⟩ | ⟨-, -, ha⟩)
          · exact absurd hbyte hne
          · refine { h with ready := iff_of_false (not_not.mpr hbyte) ?_ }
            dsimp only
            rw [hactive, ha]
            exact Bool.false_ne_true
      · rw [if_neg fun hnil => hnone ((stageFrame_nil hs).mp hnil)]
        refine iff_of_false (fun hsync => ?_) (by tauto)
        split at hsync
        · rename_i ha
          exact hsync.ready.mpr ha hbyte
        · exact hsync.ready.mpr rfl hbyte
    · rw [if_pos hbyte]
      have hroom : c.pipe.inFlight < c.pipe.depth :=
        BitVec.not_le.mp fun hfull => hdrop ⟨hbyte, hfull⟩
      by_cases hnone : c.SendsNothing
      · rw [if_pos ((stageFrame_nil hs).mpr hnone)]
        refine iff_of_false (fun hsync => ?_) (by tauto)
        have hnow := Pipe.inFlight_staged rfl { c.pipe with
          frameReady := byte
          frameStaged := c.pipe.frameStaged + 1 } rfl rfl
        have hcount := hsync.count
        rw [hnow, h.count] at hcount
        dsimp only at hcount
        bv_omega
      · rw [if_neg fun hnil => hnone ((stageFrame_nil hs).mp hnil)]
        refine iff_of_true ?_ (.inl ⟨hbyte, hnone⟩)
        split
        · rename_i ha
          exact h.commit hroom hbyte rfl rfl rfl ha ha.symm
        · rename_i ha
          have ha' : c.pipe.activeValid = false := Bool.eq_false_iff.mpr ha
          refine h.commit hroom hbyte rfl rfl rfl rfl ?_
          exact (h.idle ha').1.trans ha'.symm

theorem call_pipe {mg : MgCall} {r : Word × Copro} (hr : mg.apply c = some r)
    (hcommit : ∀ byte, mg ≠ .frameCommit byte) (hclean : mg ≠ .ppuCleanSlate) :
    r.2.pipe = c.pipe := by
  cases mg with
  | shadow call =>
    obtain ⟨x, -, rfl⟩ := Option.map_eq_some_iff.mp hr
    rfl
  | chrUpload vramWord bytes src =>
    cases hr
    rcases chrUploadVia_cases c _ bytes src with heq | ⟨bs, heq⟩
    · exact congrArg pipe heq
    · exact (congrArg pipe heq).trans (queueDma_pipe ..)
  | chrUploadTransient vramWord bytes src =>
    cases hr
    rcases chrUploadTransient_cases c vramWord bytes src with heq | ⟨p, -, -, heq⟩
    · exact congrArg pipe heq
    · rw [heq]
      rfl
  | ppuCleanSlate => exact absurd rfl hclean
  | frameCommit byte => exact absurd rfl (hcommit byte)
  | _ =>
    have hl := MgCall.apply_loads hr trivial
    obtain ⟨hdma, heq⟩ := hl.rest
    exact (congrArg pipe heq).trans (pipe_of_regs hl.regs)

theorem cartWindowRead_pipe (snesAddr : BitVec 24) : (c.cartWindowRead snesAddr).2.pipe = c.pipe ∨
    (c.cartWindowRead snesAddr).2.pipe = c.pipe.frameDone c.queuedSubframes := by
  unfold cartWindowRead
  dsimp only
  split
  · exact .inr frameDone_pipe
  · obtain ⟨status, port, hw⟩ := c.cart.readByte_regs (snesAddr.setWidth 16).toNat
    rw [hw]
    exact .inl rfl

theorem step_sync_iff (h : c.pipe.InSync) (hs : c.StagingOk) {e : CartEvent} {c' : Copro}
    (he : c.step e = some c') : c'.pipe.InSync ↔ c.PipelineOk e := by
  unfold Copro.step at he
  obtain ⟨r, hr, rfl⟩ := Option.map_eq_some_iff.mp he
  cases e with
  | read snesAddr =>
    cases hr
    refine iff_of_true ?_ trivial
    dsimp only
    rcases cartWindowRead_pipe (c := c) snesAddr with hp | hp
    · rw [hp]
      exact h
    · rw [hp]
      exact h.frameDone _
  | unload =>
    cases hr
    dsimp only
    rw [unload_pipe]
    exact mgStateReset_sync_iff h
  | call mg =>
    have hother : (∀ byte, mg ≠ .frameCommit byte) → mg ≠ .ppuCleanSlate →
        (r.2.pipe.InSync ↔ True) := by
      intro hcommit hclean
      rw [call_pipe hr hcommit hclean]
      exact iff_of_true h trivial
    cases mg with
    | frameCommit byte =>
      cases hr
      exact frameCommit_sync_iff h hs byte
    | ppuCleanSlate =>
      cases hr
      dsimp only
      rw [ppuCleanSlate_pipe]
      exact mgStateReset_sync_iff h
    | _ => exact hother (fun byte hb => by cases hb) (fun hb => by cases hb)

/-! ## Draining -/

theorem frameDone_depth : c.frameDone.pipelineMaxInflight = c.pipelineMaxInflight := by
  have hp : c.frameDone.pipe.noCommitAhead = c.pipe.noCommitAhead := by
    rw [frameDone_pipe]
    unfold Pipe.frameDone
    split
    · rfl
    · split
      · rfl
      · split <;> rfl
  unfold pipelineMaxInflight
  rw [show c.frameDone.noCommitAhead = c.noCommitAhead from hp]

/-- A full pipeline moves: a strobe advances the active frame or completes it. -/
theorem frameDone_progress (h : c.pipe.InSync) (hfull : ¬ c.inFlight < c.pipelineMaxInflight) :
    c.frameDone.inFlight < c.pipelineMaxInflight ∨
      (c.frameDone.subframes = c.subframes ∧ c.frameDone.subframeIndex = c.subframeIndex + 1 ∧
        c.subframeIndex + 1 < c.subframes.length) := by
  have hflight : c.inFlight = c.pipe.inFlight := rfl
  have hdepth : c.pipelineMaxInflight = c.pipe.depth := rfl
  have hone := c.pipe.one_le_depth
  have hbounded := h.bounded
  have hactive : c.pipe.activeValid = true := by
    by_contra ha
    obtain ⟨-, -, hzero⟩ := h.idle (Bool.eq_false_iff.mpr ha)
    rw [hflight, hdepth, hzero] at hfull
    bv_omega
  have hready : c.pipe.frameReady ≠ 0 := h.ready.mpr hactive
  have hdone : c.frameDone.inFlight = c.frameDone.pipe.inFlight := rfl
  have hsub : c.frameDone.subframes = c.frameDone.pipe.subframes := rfl
  have hindex : c.frameDone.subframeIndex = c.frameDone.pipe.subframeIndex := rfl
  rw [hdone, hsub, hindex, frameDone_pipe]
  unfold Pipe.frameDone
  rw [if_neg hready]
  by_cases hmore : c.pipe.activeValid = true ∧ c.pipe.subframeIndex + 1 < c.pipe.subframes.length
  · rw [if_pos hmore]
    exact .inr ⟨rfl, rfl, hmore.2⟩
  · rw [if_neg hmore]
    refine .inl ?_
    rw [hdepth]
    rw [hflight, hdepth] at hfull
    have hless : ∀ q : Pipe, q.frameStaged = c.pipe.frameStaged →
        q.frameConsumed = c.pipe.frameConsumed + 1 → q.inFlight < c.pipe.depth := by
      intro q hstaged hconsumed
      have hnow : q.inFlight = c.pipe.inFlight - 1 := by
        unfold Pipe.inFlight
        rw [hstaged, hconsumed]
        bv_omega
      rw [hnow]
      bv_omega
    split
    · exact hless _ rfl rfl
    · exact hless _ rfl rfl

theorem drains_of_sync (h : c.pipe.InSync) : c.Drains := by
  generalize hn : c.subframes.length - c.subframeIndex = n
  induction n generalizing c with
  | zero =>
    by_cases hroom : c.inFlight < c.pipelineMaxInflight
    · exact ⟨0, hroom⟩
    · rcases frameDone_progress h hroom with hdone | ⟨-, -, hlt⟩
      · exact ⟨1, hdone⟩
      · omega
  | succ n ih =>
    by_cases hroom : c.inFlight < c.pipelineMaxInflight
    · exact ⟨0, hroom⟩
    · rcases frameDone_progress h hroom with hdone | ⟨hsub, hindex, hlt⟩
      · exact ⟨1, hdone⟩
      · have hsync : c.frameDone.pipe.InSync := by
          rw [frameDone_pipe]
          exact h.frameDone _
        obtain ⟨k, hk⟩ := ih hsync (by rw [hsub, hindex]; omega)
        rw [frameDone_depth] at hk
        exact ⟨k + 1, hk⟩

/-! ## Runs -/

theorem init_sync (noCommitAhead : Bool) : (Copro.init noCommitAhead).pipe.InSync := by
  have hregs : CartWindow.SameRegs CartWindow.init (Copro.init noCommitAhead).cart :=
    CartWindow.clearDmaSlots_regs
  have hpipe : (Copro.init noCommitAhead).pipe = ⟨0, 0, 0, noCommitAhead, false, false, [], 0⟩ := by
    unfold pipe
    rw [hregs.frameReady, hregs.frameStaged, hregs.frameConsumed]
    rfl
  rw [hpipe]
  refine ⟨?_, ?_, ?_, fun hq => absurd hq Bool.false_ne_true⟩
  · simp [Pipe.inFlight, frames]
  · simp only [Pipe.inFlight, BitVec.sub_self]
    exact Nat.zero_le _
  · exact iff_of_false (not_not.mpr rfl) Bool.false_ne_true

theorem pipelineOk_of_none {e : CartEvent} (he : c.step e = none) : c.PipelineOk e := by
  unfold Copro.step at he
  rw [Option.map_eq_none_iff] at he
  cases e with
  | read snesAddr => exact trivial
  | unload => cases he
  | call mg =>
    cases mg with
    | ppuCleanSlate => cases he
    | frameCommit byte => cases he
    | _ => exact trivial

/-- Along a run every state accounts for its frames exactly if each step meets its condition. -/
theorem run_accounted_iff (noCommitAhead : Bool) (es : List CartEvent) :
    Meets Copro.step (fun c e => ∀ c', c.step e = some c' → c'.Accounted) (.init noCommitAhead) es ↔
      Meets Copro.step PipelineOk (.init noCommitAhead) es := by
  have hinit := init_sync noCommitAhead
  have hstaging := StagingOk.init noCommitAhead
  constructor
  · refine Meets.of_invariant (fun c e c' (hc : c.pipe.InSync ∧ c.StagingOk) hacc he => ?_)
      (fun c e hc hacc => ?_) ⟨hinit, hstaging⟩
    · exact ⟨(hacc c' he).sync, hc.2.step he⟩
    · cases he : c.step e with
      | none => exact pipelineOk_of_none he
      | some c' => exact (step_sync_iff hc.1 hc.2 he).mp (hacc c' he).sync
  · refine Meets.of_invariant (fun c e c' (hc : c.pipe.InSync ∧ c.StagingOk) hok he => ?_)
      (fun c e hc hok c' he => ?_) ⟨hinit, hstaging⟩
    · exact ⟨(step_sync_iff hc.1 hc.2 he).mpr hok, hc.2.step he⟩
    · have hsync := (step_sync_iff hc.1 hc.2 he).mpr hok
      exact ⟨hsync, drains_of_sync hsync⟩

/-! ## A cancelled frame -/

/-- Two frames are committed, and a commit of 0 cancels while the first one is being walked. -/
def cancelWhileActive : List CartEvent :=
  [.call (.frameCommit 1), .call (.shadow .spritesClearAll), .call (.frameCommit 1),
    .call (.frameCommit 0)]

/-- The strobe does nothing any more, and every commit is dropped: the pipeline is stuck. -/
theorem cancel_sticks : ∃ c, run Copro.step (.init false) cancelWhileActive = some c ∧
    c.activeValid = true ∧ c.cart.frameReady = 0 ∧ c.frameDone = c ∧ ¬ c.Drains ∧
      ∀ byte, byte ≠ 0 → c.CommitDropped byte := by
  have hend : (run Copro.step (.init false) cancelWhileActive).map
      (fun c => (c.activeValid, c.cart.frameReady, c.inFlight, c.noCommitAhead)) =
        some (true, 0, 2, false) := by decide +kernel
  obtain ⟨c, hrun, hc⟩ := Option.map_eq_some_iff.mp hend
  simp only [Prod.mk.injEq] at hc
  obtain ⟨hactive, hready, hflight, hdepth⟩ := hc
  have hstuck : c.frameDone = c := if_pos hready
  have hfull : c.pipelineMaxInflight ≤ c.inFlight := by
    unfold pipelineMaxInflight
    rw [hflight, hdepth]
    decide
  refine ⟨c, hrun, hactive, hready, hstuck, ?_, fun byte hb => ⟨hb, hfull⟩⟩
  rintro ⟨n, hn⟩
  rw [Function.iterate_fixed hstuck] at hn
  exact absurd hfull (BitVec.not_le.mpr hn)

end Copro

end Microgarbage.Cart
