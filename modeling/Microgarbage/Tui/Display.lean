import Microgarbage.Tui.Terminal

/-!
# A session on its terminal

A VM draws on its session and presents it, in full or the cells that differ from the front buffer.
While no run of cells is taken for one whose colours are in force, the terminal shows the canvas
after every present.
-/

namespace Microgarbage.Tui

open Lib Ansi

/-! ## What drawing leaves alone -/

/-- Drawing changes the canvas, the pen, the cursor and the clip rectangle. -/
structure Drawn (s s' : VmTuiSession) : Prop where
  ownerVm : s'.ownerVm = s.ownerVm
  initialized : s'.initialized = s.initialized
  flags : s'.flags = s.flags
  rows : s'.rows = s.rows
  cols : s'.cols = s.cols
  front : s'.front = s.front
  frontValid : s'.frontValid = s.frontValid
  rawModeWeSet : s'.rawModeWeSet = s.rawModeWeSet
  input : s'.input = s.input

section Drawing

variable {s s' s'' : VmTuiSession}

theorem Drawn.refl (s : VmTuiSession) : Drawn s s := ⟨rfl, rfl, rfl, rfl, rfl, rfl, rfl, rfl, rfl⟩

theorem Drawn.trans (h : Drawn s s') (h' : Drawn s' s'') : Drawn s s'' where
  ownerVm := h'.ownerVm.trans h.ownerVm
  initialized := h'.initialized.trans h.initialized
  flags := h'.flags.trans h.flags
  rows := h'.rows.trans h.rows
  cols := h'.cols.trans h.cols
  front := h'.front.trans h.front
  frontValid := h'.frontValid.trans h.frontValid
  rawModeWeSet := h'.rawModeWeSet.trans h.rawModeWeSet
  input := h'.input.trans h.input

theorem Drawn.foldl {α : Type*} {f : VmTuiSession → α → VmTuiSession}
    (h : ∀ s x, Drawn s (f s x)) (xs : List α) (s : VmTuiSession) : Drawn s (xs.foldl f s) := by
  induction xs generalizing s with
  | nil => exact .refl s
  | cons x xs ih => exact (h s x).trans (ih (f s x))

theorem drawn_fields (s : VmTuiSession) (canvas : Cells) (fg bg : BitVec 16) (attrs : Byte)
    (row col clipR clipC clipH clipW : Int) :
    Drawn s { s with
      canvas := canvas
      penFg := fg
      penBg := bg
      penAttrs := attrs
      curRow := row
      curCol := col
      clipR := clipR
      clipC := clipC
      clipH := clipH
      clipW := clipW } := ⟨rfl, rfl, rfl, rfl, rfl, rfl, rfl, rfl, rfl⟩

theorem setCell_drawn (s : VmTuiSession) (row col : Int) (cell : HostCell) :
    Drawn s (setCell s row col cell) := by
  unfold setCell
  split
  · exact drawn_fields ..
  · exact .refl s

theorem fillRect_drawn (s : VmTuiSession) (row col : Int) (h w : Nat) (cell : HostCell) :
    Drawn s (fillRect s row col h w cell) :=
  .foldl (fun s _ => .foldl (fun s _ => setCell_drawn s ..) _ s) _ s

theorem putText_drawn (s : VmTuiSession) (row col : Int) (text : List Byte)
    (cell : Byte → HostCell) : Drawn s (putText s row col text cell) :=
  .foldl (fun s _ => setCell_drawn s ..) _ s

theorem setCells_drawn (s : VmTuiSession) (row col row' col' : Int) (cell : HostCell) :
    Drawn s (setCell (setCell s row col cell) row' col' cell) :=
  (setCell_drawn s ..).trans (setCell_drawn _ ..)

theorem applyBoxAsciiOnly_drawn (s : VmTuiSession) (row col h w : Int) :
    Drawn s (applyBoxAsciiOnly s row col h w) := by
  unfold applyBoxAsciiOnly
  split
  · exact .refl s
  · dsimp only
    refine .trans ?_ (.foldl (fun s _ => setCells_drawn s ..) _ _)
    refine .trans ?_ (.foldl (fun s _ => setCells_drawn s ..) _ _)
    exact (setCells_drawn s ..).trans (setCells_drawn _ ..)

/-- What a command that succeeds leaves. -/
def Draws (s : VmTuiSession) (r : Option (VmTuiSession × List Byte)) : Prop :=
  ∀ x, r = some x → Drawn s x.1

theorem Draws.bind {α : Type} {x : Option α} {f : α → Option (VmTuiSession × List Byte)}
    (h : ∀ a, Draws s (f a)) : Draws s (x >>= f) := by
  intro y hy
  obtain ⟨a, _, ha⟩ := Option.bind_eq_some_iff.mp hy
  exact h a y ha

theorem Draws.done {x : VmTuiSession × List Byte} (h : Drawn s x.1) : Draws s (some x) := by
  intro y hy
  cases hy
  exact h

theorem Draws.fail : Draws s none := by
  intro x hx
  cases hx

theorem drawCommand_drawn (s : VmTuiSession) (op : Byte) (p : List Byte) :
    Draws s (drawCommand s op p) := by
  unfold drawCommand
  split <;> repeat' refine Draws.bind fun ⟨_, _⟩ => ?_
  · exact .done (setCell_drawn s ..)
  · exact .done (fillRect_drawn s ..)
  · dsimp only
    split
    · exact .fail
    · refine .done ?_
      dsimp only
      exact putText_drawn s ..
  · exact .done (applyBoxAsciiOnly_drawn s ..)
  iterate 7 exact .done (drawn_fields s ..)
  · exact .done ((setCell_drawn s ..).trans (drawn_fields _ ..))
  · dsimp only
    split
    · exact .fail
    · exact .done ((putText_drawn s ..).trans (drawn_fields _ ..))
  · exact .fail

theorem drawLoop_drawn (n : Nat) (s : VmTuiSession) (p : List Byte) : Drawn s (drawLoop n s p).2 := by
  induction n generalizing s p with
  | zero => exact .refl s
  | succ n ih =>
    cases p with
    | nil => exact .refl s
    | cons op p =>
      unfold drawLoop
      split
      · exact .refl s
      · cases hc : drawCommand s op p with
        | none => exact .refl s
        | some x => exact (drawCommand_drawn s op p x hc).trans (ih x.1 x.2)

theorem flushDraw_drawn (s : VmTuiSession) (buf : List Byte) : Drawn s (flushDraw s buf).2 := by
  unfold flushDraw
  split
  · exact .refl s
  · split
    · exact .refl s
    · exact drawLoop_drawn ..

theorem tileBlit_drawn (cells : Nat → HostCell) (rows cols : Nat) (destRow destCol : Int)
    (s : VmTuiSession) : Drawn s (tileBlit cells rows cols destRow destCol s) := by
  refine .foldl (fun s r => .foldl (fun s c => ?_) _ s) _ s
  unfold tileBlitCell
  dsimp only
  split
  · exact .refl s
  · exact setCell_drawn s ..

theorem tileCall_drawn (t : Tiles) (vm : VmId) (s : VmTuiSession) (call : TileCall) :
    Drawn s (tileCall t vm s call).2.2 := by
  unfold tileCall
  split
  · exact .refl s
  · cases call with
    | create rows cols => exact .refl s
    | destroy h => exact .refl s
    | use h op =>
      dsimp only
      cases resolveHandle t vm h with
      | none => exact .refl s
      | some k =>
        cases op with
        | blit destRow destCol => exact tileBlit_drawn ..
        | _ => exact .refl s

theorem initSession_dims (s : VmTuiSession) (vm : VmId) (rows cols : Int) (flags : BitVec 32) :
    (initSession s vm rows cols flags).rows.toNat ≤ vmTuiMaxRows ∧
      (initSession s vm rows cols flags).cols.toNat ≤ vmTuiMaxCols := by
  have hclamp : ∀ n max : Int, (clampDim n max).toNat ≤ max.toNat := by
    intro n max
    unfold clampDim
    split <;> omega
  exact ⟨hclamp rows vmTuiMaxRows, hclamp cols vmTuiMaxCols⟩

end Drawing

/-! ## Runs of one session -/

/-- A session of VM `vm`, the tiles of all VMs and the terminal of `vm`. -/
structure Display where
  sess : VmTuiSession
  tiles : Tiles
  term : Terminal

inductive DisplayCall
  | init (rows cols flags : BitVec 32)
  | flushDraw (buf : List Byte)
  | tile (call : TileCall)
  /-- The tiles after calls of other VMs. -/
  | others (tiles : Tiles)
  | present
  | presentDiff

def DisplayCall.isPresent : DisplayCall → Bool
  | .present | .presentDiff => true
  | _ => false

def Display.present (d : Display) (p : List Byte × VmTuiSession) : Display :=
  { d with sess := p.2, term := d.term.feed p.1 }

/-- Calls of a VM that owns its session. -/
def Display.call (vm : VmId) (d : Display) : DisplayCall → Display
  | .init rows cols flags => { d with
      sess := initSession d.sess vm rows.toInt cols.toInt flags
      term := d.term.feed (setupWrites flags).flatten }
  | .flushDraw buf => { d with sess := (Tui.flushDraw d.sess buf).2 }
  | .tile call => { d with
      sess := (tileCall d.tiles vm d.sess call).2.2
      tiles := (tileCall d.tiles vm d.sess call).2.1 }
  | .others tiles => { d with tiles := tiles }
  | .present => d.present (doPresent d.sess)
  | .presentDiff => d.present (doPresentDiff d.sess)

def Display.step (vm : VmId) (d : Display) (c : DisplayCall) : Option Display := some (d.call vm c)

/-- Which cells a present writes. -/
def DisplayCall.writes (s : VmTuiSession) : DisplayCall → Nat → Nat → Bool
  | .presentDiff => fun r c => if s.frontValid then differs s r c else true
  | _ => fun _ _ => true

/-- The canvas is printable and no run of cells that a present writes starts with a cell whose
colours are taken to be in force and are not. -/
def PresentKnown (d : Display) (c : DisplayCall) : Prop :=
  c.isPresent → CanvasPrintable d.sess ∧
    FrameKnown (c.writes d.sess) d.sess.canvas d.sess.cols.toNat d.sess.rows.toNat d.term.style

/-- The front buffer, while it is valid, is on the screen. -/
structure Displays (d : Display) : Prop where
  ground : d.term.parser = .ground
  height : vmTuiMaxRows ≤ d.term.height
  width : vmTuiMaxCols ≤ d.term.width
  rowsMax : d.sess.rows.toNat ≤ vmTuiMaxRows
  colsMax : d.sess.cols.toNat ≤ vmTuiMaxCols
  front : d.sess.frontValid = true → Shows d.term d.sess d.sess.front

section Display

variable {vm : VmId} {d : Display}

theorem Displays.hosts (h : Displays d) : Hosts d.term d.sess where
  ground := h.ground
  height := h.rowsMax.trans h.height
  width := h.colsMax.trans h.width
  rowsMax := h.rowsMax
  colsMax := h.colsMax

theorem Displays.drawn (h : Displays d) {s : VmTuiSession} (hs : Drawn d.sess s) (tiles : Tiles) :
    Displays { d with sess := s, tiles := tiles } := by
  refine ⟨h.ground, h.height, h.width, ?_, ?_, fun hv => ?_⟩
  · exact hs.rows ▸ h.rowsMax
  · exact hs.cols ▸ h.colsMax
  · have := h.front (hs.frontValid ▸ hv)
    unfold Shows at this ⊢
    dsimp only
    rwa [hs.rows, hs.cols, hs.front]

theorem decMode_feed {t : Terminal} (hg : t.parser = .ground) {digits : List Byte}
    (hd : ∀ b ∈ digits, IsDigit b) {final : Byte} (hf : 0x40 ≤ final.toNat ∧ final.toNat ≤ 0x7e) :
    t.feed (decMode digits final) = t := feed_private hg hd hf

theorem setup_feed {t : Terminal} (hg : t.parser = .ground) (flags : BitVec 32) :
    t.feed (setupWrites flags).flatten = t := by
  have high : ∀ {digits : List Byte}, (∀ b ∈ digits, IsDigit b) →
      t.feed (decMode digits modeHigh) = t := fun hd => decMode_feed hg hd (by decide)
  have halt : t.feed (if useAltScreen flags then [decMode altScreen modeHigh] else []).flatten = t := by
    split
    · rw [List.flatten_singleton, high (by decide)]
    · rfl
  have hcursor : t.feed (if hideCursor flags then [decMode showCursor modeLow] else []).flatten =
      t := by
    split
    · rw [List.flatten_singleton, decMode_feed hg (by decide) (by decide)]
    · rfl
  unfold setupWrites
  rw [List.flatten_append, List.flatten_append, feed_append, feed_append, halt, hcursor]
  split
  · rw [List.flatten_singleton, feed_append]
    split
    · rw [high (by decide), high (by decide)]
    · rw [high (by decide), high (by decide)]
  · rfl

theorem Displays.presented (h : Displays d) {c : DisplayCall} (hc : c.isPresent)
    (hk : PresentKnown d c) : Presented d.term d.sess (d.call vm c).term ∧
      (d.call vm c).sess = copyBackToFront d.sess := by
  obtain ⟨hp, hf⟩ := hk hc
  cases c with
  | present => exact ⟨doPresent_spec h.hosts hp hf, rfl⟩
  | presentDiff =>
    by_cases hv : d.sess.frontValid = true
    · have hwrites : DisplayCall.presentDiff.writes d.sess = differs d.sess := by
        unfold DisplayCall.writes
        rw [hv]
        rfl
      have hsess : (doPresentDiff d.sess).2 = copyBackToFront d.sess := by
        unfold doPresentDiff
        split <;> rfl
      rw [hwrites] at hf
      exact ⟨doPresentDiff_spec h.hosts hp hv (h.front hv) hf, hsess⟩
    · have hwrites : DisplayCall.presentDiff.writes d.sess = fun _ _ => true := by
        unfold DisplayCall.writes
        simp [hv]
      have hfull : doPresentDiff d.sess = doPresent d.sess := if_pos (by simpa using hv)
      rw [hwrites] at hf
      unfold Display.call Display.present
      rw [hfull]
      exact ⟨doPresent_spec h.hosts hp hf, rfl⟩
  | _ => cases hc

theorem Displays.call (h : Displays d) (c : DisplayCall) (hk : PresentKnown d c) :
    Displays (d.call vm c) := by
  have hpresent : c.isPresent → Displays (d.call vm c) := by
    intro hc
    obtain ⟨hp, hs⟩ := @Displays.presented vm d h c hc hk
    refine ⟨hp.ground, hp.height.symm ▸ h.height, hp.width.symm ▸ h.width, ?_, ?_, ?_⟩
    · rw [hs]
      exact h.rowsMax
    · rw [hs]
      exact h.colsMax
    · rw [hs]
      exact fun _ => hp.shows
  cases c with
  | init rows cols flags =>
    obtain ⟨hrows, hcols⟩ := initSession_dims d.sess vm rows.toInt cols.toInt flags
    have hterm : (d.call vm (.init rows cols flags)).term = d.term := setup_feed h.ground flags
    refine ⟨?_, ?_, ?_, hrows, hcols, fun hv => ?_⟩
    · rw [hterm]
      exact h.ground
    · rw [hterm]
      exact h.height
    · rw [hterm]
      exact h.width
    · cases hv
  | flushDraw buf => exact h.drawn (flushDraw_drawn d.sess buf) d.tiles
  | tile call => exact h.drawn (tileCall_drawn d.tiles vm d.sess call) _
  | others tiles => exact h.drawn (.refl d.sess) tiles
  | present => exact hpresent rfl
  | presentDiff => exact hpresent rfl

/-- A session that `vm` has just opened on the terminal `t`. -/
def Display.start (vm : VmId) (rows cols flags : BitVec 32) (tiles : Tiles) (t : Terminal) :
    Display :=
  (⟨.reset, tiles, t⟩ : Display).call vm (.init rows cols flags)

theorem displays_start {t : Terminal} (hg : t.parser = .ground) (hh : vmTuiMaxRows ≤ t.height)
    (hw : vmTuiMaxCols ≤ t.width) (rows cols flags : BitVec 32) (tiles : Tiles) :
    Displays (.start vm rows cols flags tiles t) := by
  have hreset : Displays ⟨.reset, tiles, t⟩ := by
    refine ⟨hg, hh, hw, le_rfl, le_rfl, fun hv => ?_⟩
    cases hv
  exact hreset.call _ fun hp => Bool.noConfusion hp

/-- Along a run whose presents start every run of cells with known colours, the terminal shows the
canvas after every present. -/
theorem run_presents {t : Terminal} (hg : t.parser = .ground) (hh : vmTuiMaxRows ≤ t.height)
    (hw : vmTuiMaxCols ≤ t.width) (rows cols flags : BitVec 32) (tiles : Tiles)
    {cs : List DisplayCall}
    (hok : Meets (Display.step vm) PresentKnown (.start vm rows cols flags tiles t) cs) :
    Meets (Display.step vm) (fun d c => c.isPresent → Shows (d.call vm c).term d.sess d.sess.canvas)
      (.start vm rows cols flags tiles t) cs := by
  refine Meets.of_invariant (fun d c d' hd hc hs => ?_) (fun d c hd hc hp => ?_)
    (displays_start hg hh hw rows cols flags tiles) hok
  · cases hs
    exact hd.call c hc
  · exact (hd.presented hp hc).1.shows

end Display

def blankTerminal : Terminal :=
  ⟨vmTuiMaxRows, vmTuiMaxCols, fun _ _ => ⟨[32], .plain⟩, 1, 1, .plain, .ground⟩

/-- `DRAW_CELL` in row 1, without attributes and in the default background. -/
def drawCell (col c : Byte) (fg : BitVec 16) : List Byte :=
  [1, 1, 0, col, 0, c, fg.setWidth 8, (fg >>> 8).setWidth 8, 0, 1, 0]

/-- Two cells that do not touch are drawn between two presents, the first in red. -/
def redThen (fg : BitVec 16) : List DisplayCall :=
  [.flushDraw (drawCell 1 65 1), .present, .flushDraw (drawCell 1 66 1 ++ drawCell 3 67 fg)]

instance (cell : HostCell) : Decidable (Printable cell) := inferInstanceAs (Decidable (_ ∧ _))

instance (s : VmTuiSession) : Decidable (CanvasPrintable s) := inferInstanceAs (Decidable (∀ _ < _, _))

instance (style : Style) : ∀ prev x, Decidable (RunKnown style prev x)
  | some _, _ => inferInstanceAs (Decidable (_ → _))
  | none, _ => inferInstanceAs (Decidable (_ → _))

instance (changed : Nat → Nat → Bool) (cells : Cells) (cols rows : Nat) (style : Style) :
    Decidable (FrameKnown changed cells cols rows style) :=
  inferInstanceAs (Decidable (∀ _ < _, ∀ _ < _, _))

theorem presentKnown_of_draw (d : Display) {c : DisplayCall} (h : c.isPresent = false) :
    PresentKnown d c := by
  intro hc
  rw [h] at hc
  cases hc

theorem run_presents_blue : Meets (Display.step 0)
    (fun d c => c.isPresent → Shows (d.call 0 c).term d.sess d.sess.canvas)
    (.start 0 1 3 0 .init blankTerminal) (redThen 4 ++ [.presentDiff]) := by
  refine run_presents rfl le_rfl le_rfl 1 3 0 .init ?_
  refine .cons (presentKnown_of_draw _ rfl) rfl (.cons (fun _ => ?_) rfl
    (.cons (presentKnown_of_draw _ rfl) rfl (.cons (fun _ => ?_) rfl trivial)))
  · decide +kernel
  · decide +kernel

/-- The second cell, in a colour that stands for the default, is shown in red. -/
theorem presentDiff_stale : ∃ d : Display,
    run (Display.step 0) (.start 0 1 3 0 .init blankTerminal) (redThen 0xFFFF) = some d ∧
      CanvasPrintable d.sess ∧ (d.call 0 .presentDiff).term.screen 1 3 ≠ shown (d.sess.canvas 0 2) ∧
      (d.call 0 .present).term.screen 1 3 = shown (d.sess.canvas 0 2) := by
  refine ⟨_, rfl, ?_, ?_, ?_⟩
  · decide +kernel
  · decide +kernel
  · decide +kernel

end Microgarbage.Tui
