import Microgarbage.Tui.Present
import Microgarbage.Tui.Tiles
import Microgarbage.Lib.Ansi
import Microgarbage.Lib.Transition
import Mathlib.Algebra.Order.Ring.Nat

/-!
# What the terminal shows

A present is right when a terminal that executes its bytes shows the canvas. The bytes are followed
cell by cell: the terminal's style is that of the cell written last, and the colours that a row has
"in force" are that cell's too.
-/

namespace Microgarbage.Tui

open Lib Ansi List

/-! ## Bytes -/

/-- All bytes so far. -/
def OutBuf.total (o : OutBuf) : List Byte := o.sent ++ o.buf

@[simp] theorem outBytes_total (o : OutBuf) (p : List Byte) :
    (outBytes o p).total = o.total ++ p := by
  unfold outBytes
  split
  · simp [OutBuf.total]
  · dsimp only
    split <;> simp [OutBuf.total, outFlush]

theorem outFlush_sent (o : OutBuf) : (outFlush o).sent = o.total := rfl

theorem decLoop_spec {n v : Nat} (hv : v < 10 ^ n) {acc : List Byte} (h : ∀ d ∈ acc, IsDigit d) :
    (∀ d ∈ decLoop n v acc, IsDigit d) ∧
      digitsValue 0 (decLoop n v acc) = digitsValue v acc := by
  induction n generalizing v acc with
  | zero =>
    obtain rfl : v = 0 := by omega
    exact ⟨h, rfl⟩
  | succ n ih =>
    unfold decLoop
    split
    · rename_i hz
      subst hz
      exact ⟨h, rfl⟩
    · have hdigit : (BitVec.ofNat 8 (48 + v % 10)).toNat = 48 + v % 10 := by
        rw [BitVec.toNat_ofNat]
        omega
      have hacc : ∀ d ∈ BitVec.ofNat 8 (48 + v % 10) :: acc, IsDigit d := by
        intro d hd
        rcases mem_cons.mp hd with rfl | hd
        · unfold IsDigit
          omega
        · exact h d hd
      obtain ⟨h₁, h₂⟩ := ih (v := v / 10) (by omega) hacc
      refine ⟨h₁, h₂.trans ?_⟩
      unfold digitsValue
      rw [foldl_cons, hdigit]
      congr 1
      omega

theorem decimal_spec {v : Nat} (hv : v < 10 ^ 10) :
    (∀ d ∈ decimal v, IsDigit d) ∧ digitsValue 0 (decimal v) = v := by
  unfold decimal
  split
  · rename_i hz
    subst hz
    refine ⟨fun d hd => ?_, rfl⟩
    rw [mem_singleton.mp hd]
    unfold IsDigit
    decide
  · exact decLoop_spec hv fun d hd => absurd hd not_mem_nil

/-! ## Cells on a terminal -/

/-- The numbers from 256 on are shown in the default colour, as `emit_sgr` has it. -/
def colorOf (color : BitVec 16) : Color :=
  if color.toNat < 256 then .indexed color.toNat else .default

def styleOf (cell : HostCell) : Style :=
  ⟨colorOf cell.fg, colorOf cell.bg, vmTuiAttrBold cell.attrs, vmTuiAttrDim cell.attrs,
    vmTuiAttrUnderline cell.attrs, vmTuiAttrReverse cell.attrs⟩

/-- How a terminal shows a cell. -/
def shown (cell : HostCell) : Ansi.Cell := ⟨cellChar cell.c, styleOf cell⟩

def Printable (cell : HostCell) : Prop := 0x20 ≤ cell.c.toNat ∧ cell.c.toNat ≠ 0x7f

theorem glyphs_isGlyph : ∀ g ∈ glyphs, IsGlyph g := by
  intro g hg
  have hlead : ∀ g ∈ glyphs, g.length = 3 ∧ 0xe0 ≤ (g.headD 0).toNat ∧ (g.headD 0).toNat < 0xf0 := by
    decide
  obtain ⟨hlen, hlo, hhi⟩ := hlead g hg
  obtain ⟨b, c, d, rfl⟩ := length_eq_three.mp hlen
  exact .inr ⟨b, c, d, rfl, hlo, hhi⟩

theorem cellChar_isGlyph {cell : HostCell} (h : Printable cell) : IsGlyph (cellChar cell.c) := by
  obtain ⟨hlo, hdel⟩ := h
  unfold cellChar
  split
  · exact .inl ⟨cell.c, rfl, hlo, by omega⟩
  · cases hg : glyphs[cell.c.toNat - 0x80]? with
    | none => exact .inl ⟨63, rfl, by decide, by decide⟩
    | some g => exact glyphs_isGlyph g (mem_of_getElem? hg)

/-! ## Control sequences -/

section Sequences

variable {t : Terminal} {o : OutBuf}

theorem emitMove_feed (h : (t.feed o.total).parser = .ground) {row col : Nat} (hr : row < 10 ^ 10)
    (hc : col < 10 ^ 10) : t.feed (emitMove o row col).total = (t.feed o.total).moveTo row col := by
  obtain ⟨hdr, hvr⟩ := decimal_spec hr
  obtain ⟨hdc, hvc⟩ := decimal_spec hc
  unfold emitMove outDec
  simp only [outBytes_total, feed_append]
  generalize t.feed o.total = u at h
  have hrow : (u.feed csi).feed (decimal row) = { u with parser := .csi false [row] } := by
    unfold csi
    rw [feed_csi h, feed_digits hdr, hvr]
  have hcol : ({ u with parser := .csi false [row] } : Terminal).feed (0x3b :: decimal col) =
      { u with parser := .csi false [col, row] } := by
    rw [feed_param hdc, hvc]
  rw [hrow, ← feed_append _ [0x3b], singleton_append, hcol, feed_moveTo]
  have hground : (u.moveTo row col).parser = .ground := h
  simp [← hground]

theorem sgr_one (s : Style) {p : Nat} (ps : List Nat) (h : p ≠ 38) (h' : p ≠ 48) :
    sgr s (p :: ps) = sgr (sgrOne s p) ps := by
  rw [sgr]
  · rintro n rest rfl - 
    exact absurd rfl h
  · rintro n rest rfl -
    exact absurd rfl h'

/-- The parameters of a colour. -/
def colorParams (color : BitVec 16) (std bright wide : Nat) : List Nat :=
  if color = vmTuiDefaultColor then []
  else if color.toNat < 8 then [std * 10 + color.toNat]
  else if color.toNat < 16 then [bright * 10 + (color.toNat - 8)]
  else if color.toNat < 256 then [wide, 5, color.toNat]
  else []

theorem decimal_digit {v : Nat} (h : v < 10) : decimal v = [BitVec.ofNat 8 (48 + v)] := by
  unfold decimal
  split
  · rename_i hz
    subst hz
    rfl
  · rename_i hz
    have hnext : v / 10 = 0 := by omega
    have hmod : v % 10 = v := by omega
    simp [decLoop, hz, hnext, hmod]

theorem feed_prefixed {u : Terminal} {ps : List Nat} {ds : List Byte} {v : Nat} (hv : v < 10)
    (hds : ∀ d ∈ ds, IsDigit d) :
    (({ u with parser := .csi false ps } : Terminal).feed (0x3b :: ds)).feed (decimal v) =
      { u with parser := .csi false ((digitsValue 0 ds * 10 + v) :: ps) } := by
  have hdigit : (BitVec.ofNat 8 (48 + v)).toNat = 48 + v := by
    rw [BitVec.toNat_ofNat]
    omega
  have hone : ∀ d ∈ decimal v, IsDigit d := by
    intro d hd
    rw [decimal_digit hv, mem_singleton] at hd
    subst hd
    unfold IsDigit
    omega
  rw [feed_param hds, feed_digits hone, decimal_digit hv]
  unfold digitsValue
  rw [foldl_cons, foldl_nil, hdigit]
  congr 3
  omega

theorem emitColor_feed (color : BitVec 16) {ps : List Nat} (std bright wide : List Byte)
    {s b w : Nat} (hstd : ∀ d ∈ std, IsDigit d) (hs : digitsValue 0 std = s)
    (hbright : ∀ d ∈ bright, IsDigit d) (hb : digitsValue 0 bright = b)
    (hwide : ∀ d ∈ wide, IsDigit d) (hw : digitsValue 0 wide = w) {u : Terminal}
    (h : t.feed o.total = { u with parser := .csi false ps }) :
    t.feed (emitColor o color (0x3b :: std) (0x3b :: bright)
        (0x3b :: wide ++ [0x3b, 0x35, 0x3b])).total =
      { u with parser := .csi false ((colorParams color s b w).reverse ++ ps) } := by
  unfold emitColor colorParams outDec
  split
  · exact h
  · split
    · rw [outBytes_total, outBytes_total, feed_append, feed_append, h, feed_prefixed (by omega) hstd,
        hs]
      rfl
    · split
      · rw [outBytes_total, outBytes_total, feed_append, feed_append, h,
          feed_prefixed (by omega) hbright, hb]
        rfl
      · split
        · obtain ⟨hd, hv⟩ := decimal_spec (v := color.toNat) (by omega)
          have hfive : ∀ d ∈ ([0x35] : List Byte), IsDigit d := by
            intro d hd
            rw [mem_singleton.mp hd]
            unfold IsDigit
            decide
          have hsplit : (0x3b :: wide ++ [0x3b, 0x35, 0x3b]) ++ decimal color.toNat =
              (0x3b :: wide) ++ ((0x3b :: [0x35]) ++ (0x3b :: decimal color.toNat)) := by simp
          rw [outBytes_total, outBytes_total, append_assoc, hsplit, feed_append, h, feed_append,
            feed_append, feed_param hwide, feed_param hfive, feed_param hd, hv, hw]
          rfl
        · exact h

theorem attr_feed {u : Terminal} {ps : List Nat} {c : Byte} {p : Nat} (hc : c.toNat = 0x30 + p)
    (hp : p < 10) (on : Bool) (h : t.feed o.total = { u with parser := .csi false ps }) :
    t.feed (if on then outBytes o [0x3b, c] else o).total =
      { u with parser := .csi false ((if on then [p] else []) ++ ps) } := by
  cases on with
  | false => exact h
  | true =>
    have hdigit : ∀ d ∈ [c], IsDigit d := by
      intro d hd
      rw [mem_singleton.mp hd]
      unfold IsDigit
      omega
    have hvalue : digitsValue 0 [c] = p := by
      simp only [digitsValue, foldl_cons, foldl_nil]
      omega
    rw [if_pos rfl, outBytes_total, feed_append, h, feed_param hdigit, hvalue]
    rfl

theorem sgr_color_fg (s : Style) (color : BitVec 16) (ps : List Nat) (hs : s.fg = .default) :
    sgr s (colorParams color 3 9 38 ++ ps) = sgr { s with fg := colorOf color } ps := by
  have hkeep : { s with fg := Color.default } = s := by rw [← hs]
  unfold colorParams colorOf
  split
  · rename_i hd
    subst hd
    rw [if_neg (by decide), hkeep]
    rfl
  · split
    · rw [if_pos (by omega), singleton_append, sgr_one _ _ (by omega) (by omega)]
      unfold sgrOne
      simp (disch := omega) only [if_neg, if_pos]
      congr 3
      omega
    · split
      · rw [if_pos (by omega), singleton_append, sgr_one _ _ (by omega) (by omega)]
        unfold sgrOne
        simp (disch := omega) only [if_neg, if_pos]
        congr 3
        omega
      · split
        · rfl
        · rw [hkeep]
          rfl

theorem sgr_color_bg (s : Style) (color : BitVec 16) (hs : s.bg = .default) :
    sgr s (colorParams color 4 10 48) = { s with bg := colorOf color } := by
  have hkeep : { s with bg := Color.default } = s := by rw [← hs]
  unfold colorParams colorOf
  split
  · rename_i hd
    subst hd
    rw [if_neg (by decide), hkeep]
    rfl
  · split
    · rw [if_pos (by omega), sgr_one _ _ (by omega) (by omega)]
      unfold sgrOne
      simp (disch := omega) only [if_neg, if_pos]
      unfold sgr
      congr 2
      omega
    · split
      · rw [if_pos (by omega), sgr_one _ _ (by omega) (by omega)]
        unfold sgrOne
        simp (disch := omega) only [if_neg, if_pos]
        unfold sgr
        congr 2
        omega
      · split
        · rfl
        · rw [hkeep]
          rfl

theorem sgr_attr {s : Style} {p : Nat} (ps : List Nat) (on : Bool) (h : p ≠ 38) (h' : p ≠ 48) :
    sgr s ((if on then [p] else []) ++ ps) = sgr (if on then sgrOne s p else s) ps := by
  cases on with
  | false => rfl
  | true => exact sgr_one s ps h h'

theorem sgr_cell (cell : HostCell) (s : Style) :
    sgr s ([0] ++ ((if vmTuiAttrBold cell.attrs then [1] else []) ++
      ((if vmTuiAttrDim cell.attrs then [2] else []) ++
        ((if vmTuiAttrUnderline cell.attrs then [4] else []) ++
          ((if vmTuiAttrReverse cell.attrs then [7] else []) ++
            (colorParams cell.fg 3 9 38 ++ colorParams cell.bg 4 10 48)))))) = styleOf cell := by
  have hreset : sgrOne s 0 = .plain := rfl
  rw [singleton_append, sgr_one _ _ (by decide) (by decide), hreset,
    sgr_attr _ _ (by decide) (by decide), sgr_attr _ _ (by decide) (by decide),
    sgr_attr _ _ (by decide) (by decide), sgr_attr _ _ (by decide) (by decide)]
  unfold styleOf
  cases vmTuiAttrBold cell.attrs <;> cases vmTuiAttrDim cell.attrs <;>
    cases vmTuiAttrUnderline cell.attrs <;> cases vmTuiAttrReverse cell.attrs <;>
    rw [sgr_color_fg _ _ _ rfl, sgr_color_bg _ _ rfl] <;> rfl

theorem emitSgr_feed (h : (t.feed o.total).parser = .ground) (cell : HostCell) :
    t.feed (emitSgr o cell.fg cell.bg cell.attrs).total =
      { t.feed o.total with style := styleOf cell } := by
  have digits : ∀ {ds : List Byte}, (ds.all fun d => decide (IsDigit d)) = true →
      ∀ d ∈ ds, IsDigit d := by
    intro ds hds d hd
    simpa using all_eq_true.mp hds d hd
  have hstart : t.feed (outBytes o (csi ++ [0x30])).total =
      { t.feed o.total with parser := .csi false [0] } := by
    rw [outBytes_total, feed_append, feed_append]
    unfold csi
    rw [feed_csi h]
    rfl
  have hbold := attr_feed (c := 0x31) (p := 1) rfl (by decide) (vmTuiAttrBold cell.attrs) hstart
  have hdim := attr_feed (c := 0x32) (p := 2) rfl (by decide) (vmTuiAttrDim cell.attrs) hbold
  have hunder := attr_feed (c := 0x34) (p := 4) rfl (by decide) (vmTuiAttrUnderline cell.attrs) hdim
  have hrev := attr_feed (c := 0x37) (p := 7) rfl (by decide) (vmTuiAttrReverse cell.attrs) hunder
  have hfg := emitColor_feed cell.fg [0x33] [0x39] [0x33, 0x38] (s := 3) (b := 9) (w := 38)
    (digits (by decide)) rfl (digits (by decide)) rfl (digits (by decide)) rfl hrev
  have hbg := emitColor_feed cell.bg [0x34] [0x31, 0x30] [0x34, 0x38] (s := 4) (b := 10) (w := 48)
    (digits (by decide)) rfl (digits (by decide)) rfl (digits (by decide)) rfl hfg
  unfold emitSgr
  dsimp only
  rw [outBytes_total, feed_append]
  refine (congrArg (Terminal.feed · [0x6d]) hbg).trans ?_
  rw [feed_sgr]
  have hsgr := sgr_cell cell (t.feed o.total).style
  have hrev : ∀ on : Bool, ∀ p : Nat, (if on then [p] else []).reverse = if on then [p] else [] := by
    intro on p
    cases on <;> rfl
  simp only [reverse_append, reverse_reverse, hrev, reverse_singleton,
    append_assoc] at hsgr ⊢
  rw [hsgr]
  simp [← h]

end Sequences

/-! ## One row -/

/-- The last column before `c` that was written. -/
def lastChanged (changed : Nat → Bool) : Nat → Option Nat
  | 0 => none
  | c + 1 => if changed c then some c else lastChanged changed c

/-- The colours of `x` are in force or are written when a run of cells starts with `x`: the mark for
an unknown foreground is not taken for the colour of `x`, unless the style is right anyway. `prev`
is the cell written before in the row, `style` the style at the start of the row. -/
def RunKnown (style : Style) (prev : Option HostCell) (x : HostCell) : Prop :=
  x.fg = 0xFFFF →
    match prev with
    | some p => x.bg = p.bg → x.attrs = p.attrs → styleOf p = styleOf x
    | none => x.bg = 0xFFFF → x.attrs = 0xFF → style = styleOf x

section Row

variable (changed : Nat → Bool) (cells : Nat → HostCell)

/-- Every run of the row starts with known colours. -/
def RowKnown (cols : Nat) (style : Style) : Prop :=
  ∀ c < cols, changed c → lastChanged changed c ≠ some (c - 1) →
    RunKnown style ((lastChanged changed c).map cells) (cells c)

/-- The style after the columns before `c`. -/
def styleAt (style : Style) (c : Nat) : Style :=
  match lastChanged changed c with
  | some k => styleOf (cells k)
  | none => style

/-- The terminal after the columns before `c` of row `r`, which began with terminal `u₀`. -/
structure RowShown (u₀ : Terminal) (r c : Nat) (u : Terminal) : Prop where
  ground : u.parser = .ground
  height : u.height = u₀.height
  width : u.width = u₀.width
  style : u.style = styleAt changed cells u₀.style c
  screen : ∀ r' c', u.screen r' (c' + 1) =
    if r' = r ∧ c' < c ∧ changed c' then shown (cells c') else u₀.screen r' (c' + 1)

/-- The colours that the row has in force are those of the cell written last. -/
def InForce (c : Nat) (st : RowState) : Prop :=
  match (lastChanged changed c).map cells with
  | some p => st.curFg = p.fg ∧ st.curBg = p.bg ∧ st.curAttrs = p.attrs
  | none => st.curFg = 0xFFFF ∧ st.curBg = 0xFFFF ∧ st.curAttrs = 0xFF

variable {changed cells}

theorem lastChanged_lt {c k : Nat} (h : lastChanged changed c = some k) : k < c := by
  induction c with
  | zero => cases h
  | succ c ih =>
    unfold lastChanged at h
    split at h
    · cases h
      exact Nat.lt_succ_self k
    · exact Nat.lt_succ_of_lt (ih h)

theorem RowShown.start {u₀ : Terminal} (h : u₀.parser = .ground) (r : Nat) :
    RowShown changed cells u₀ r 0 u₀ where
  ground := h
  height := rfl
  width := rfl
  style := rfl
  screen r' c' := by simp

theorem RowShown.skip {u₀ u : Terminal} {r c : Nat} (h : RowShown changed cells u₀ r c u)
    (hc : changed c = false) : RowShown changed cells u₀ r (c + 1) u := by
  refine ⟨h.ground, h.height, h.width, ?_, fun r' c' => ?_⟩
  · rw [h.style]
    unfold styleAt
    rw [lastChanged, hc, if_neg Bool.false_ne_true]
  · rw [h.screen r' c']
    by_cases hcc : c' = c
    · subst hcc
      simp [hc]
    · have : c' < c + 1 ↔ c' < c := by omega
      simp only [this]

theorem RowShown.moved {u₀ u : Terminal} {r c : Nat} (h : RowShown changed cells u₀ r c u)
    (row col : Nat) : RowShown changed cells u₀ r c { u with row := row, col := col } :=
  ⟨h.ground, h.height, h.width, h.style, h.screen⟩

variable {t : Terminal} {st : RowState}

theorem RowShown.emit {u₀ : Terminal} {r c : Nat}
    (h : RowShown changed cells u₀ r c (t.feed st.out.total)) (hc : changed c = true)
    (hrow : (t.feed st.out.total).row = r) (hcol : (t.feed st.out.total).col = c + 1)
    (hw : c < u₀.width) (hp : Printable (cells c))
    (hknown : st.curFg = (cells c).fg → st.curBg = (cells c).bg →
      st.curAttrs = (cells c).attrs → (t.feed st.out.total).style = styleOf (cells c)) :
    RowShown changed cells u₀ r (c + 1) (t.feed (emitCell st (cells c)).out.total) ∧
      InForce changed cells (c + 1) (emitCell st (cells c)) ∧
      (t.feed (emitCell st (cells c)).out.total).row = r ∧
      (t.feed (emitCell st (cells c)).out.total).col = c + 2 := by
  have hlast : lastChanged changed (c + 1) = some c := if_pos hc
  have hforce : (emitCell st (cells c)).curFg = (cells c).fg ∧
      (emitCell st (cells c)).curBg = (cells c).bg ∧
      (emitCell st (cells c)).curAttrs = (cells c).attrs := by
    unfold emitCell
    dsimp only
    split
    · exact ⟨rfl, rfl, rfl⟩
    · rename_i heq
      simp only [not_or, not_not] at heq
      exact ⟨heq.1.symm, heq.2.1.symm, heq.2.2.symm⟩
  generalize hu : t.feed st.out.total = u at h hrow hcol hknown
  have hstyled : t.feed (emitCell st (cells c)).out.total =
      ({ u with style := styleOf (cells c) } : Terminal).put (cellChar (cells c).c) := by
    unfold emitCell
    dsimp only
    split
    · rw [outBytes_total, feed_append, emitSgr_feed (by rw [hu]; exact h.ground), hu]
      exact feed_glyph (cellChar_isGlyph hp) h.ground
    · rename_i heq
      simp only [not_or, not_not] at heq
      have hstyle := hknown heq.1.symm heq.2.1.symm heq.2.2.symm
      have hsame : ({ u with style := styleOf (cells c) } : Terminal) = u := by rw [← hstyle]
      rw [outBytes_total, feed_append, hu, hsame]
      exact feed_glyph (cellChar_isGlyph hp) h.ground
  have hput : ({ u with style := styleOf (cells c) } : Terminal).put (cellChar (cells c).c) =
      { ({ u with style := styleOf (cells c) } : Terminal).setCell r (c + 1) (shown (cells c)) with
        col := c + 2 } := by
    have hwidth := h.width
    rw [put_inside _ (by dsimp only; omega)]
    dsimp only
    rw [hrow, hcol]
    rfl
  rw [hstyled, hput]
  refine ⟨⟨h.ground, h.height, h.width, ?_, fun r' c' => ?_⟩, ?_, hrow, rfl⟩
  · unfold styleAt
    rw [hlast]
    rfl
  · have hcell : (({ u with style := styleOf (cells c) } : Terminal).setCell r (c + 1)
        (shown (cells c))).screen r' (c' + 1) =
        if r' = r ∧ c' + 1 = c + 1 then shown (cells c) else u.screen r' (c' + 1) := rfl
    refine hcell.trans ?_
    by_cases hcc : c' = c
    · subst hcc
      by_cases hr : r' = r
      · simp [hr, hc]
      · simp [hr, h.screen r' c']
    · have hlt : c' < c + 1 ↔ c' < c := by omega
      rw [if_neg (by omega), h.screen r' c']
      simp only [hlt]
  · unfold InForce
    rw [hlast]
    exact hforce

theorem styleOf_congr {x y : HostCell} (hfg : x.fg = y.fg) (hbg : x.bg = y.bg)
    (hattrs : x.attrs = y.attrs) : styleOf x = styleOf y := by
  unfold styleOf
  rw [hfg, hbg, hattrs]

theorem RowShown.known_inside {u₀ u : Terminal} {r c k : Nat}
    (h : RowShown changed cells u₀ r c u) (hf : InForce changed cells c st)
    (hk : lastChanged changed c = some k) (h₁ : st.curFg = (cells c).fg)
    (h₂ : st.curBg = (cells c).bg) (h₃ : st.curAttrs = (cells c).attrs) :
    u.style = styleOf (cells c) := by
  unfold InForce at hf
  rw [hk] at hf
  obtain ⟨hfg, hbg, hattrs⟩ := hf
  rw [h.style]
  unfold styleAt
  rw [hk]
  exact styleOf_congr (hfg.symm.trans h₁) (hbg.symm.trans h₂) (hattrs.symm.trans h₃)

/-- At the start of a run the row's knowledge is what `RowKnown` asks for. -/
theorem RowShown.known_start {u₀ u : Terminal} {r c : Nat}
    (h : RowShown changed cells u₀ r c u) (hf : InForce changed cells c st)
    (hk : RunKnown u₀.style ((lastChanged changed c).map cells) (cells c))
    (h₁ : (0xFFFF : BitVec 16) = (cells c).fg) (h₂ : st.curBg = (cells c).bg)
    (h₃ : st.curAttrs = (cells c).attrs) : u.style = styleOf (cells c) := by
  have hrun := hk h₁.symm
  rw [h.style]
  unfold styleAt
  unfold InForce at hf
  cases hlast : lastChanged changed c with
  | none | some k =>
    rw [hlast] at hf hrun
    exact hrun (h₂.symm.trans hf.2.1) (h₃.symm.trans hf.2.2)

end Row

/-- The columns before `c` of a row are done. -/
structure RowDone (t : Terminal) (changed : Nat → Bool) (cells : Nat → HostCell) (u₀ : Terminal)
    (r c : Nat) (st : RowState) : Prop where
  shown : RowShown changed cells u₀ r c (t.feed st.out.total)
  force : InForce changed cells c st
  cursor : ∀ k, lastChanged changed c = some k →
    (t.feed st.out.total).row = r ∧ (t.feed st.out.total).col = k + 2

section Done

variable {changed : Nat → Bool} {cells : Nat → HostCell} {t u₀ : Terminal} {r : Nat}

theorem RowDone.withLastCol {st : RowState} {c : Nat} (h : RowDone t changed cells u₀ r c st)
    (lastCol : Option Nat) : RowDone t changed cells u₀ r c { st with lastCol := lastCol } :=
  ⟨h.shown, h.force, h.cursor⟩

theorem RowDone.next {st : RowState} {k : Nat} (h : RowDone t changed cells u₀ r (k + 1) st)
    (hk : changed k = true) (hc : changed (k + 1) = true) (hw : k + 1 < u₀.width)
    (hp : Printable (cells (k + 1))) :
    RowDone t changed cells u₀ r (k + 2) (emitCell st (cells (k + 1))) := by
  have hlast : lastChanged changed (k + 1) = some k := if_pos hk
  have hnext : lastChanged changed (k + 2) = some (k + 1) := if_pos hc
  obtain ⟨hrow, hcol⟩ := h.cursor k hlast
  obtain ⟨h₁, h₂, h₃, h₄⟩ := h.shown.emit hc hrow hcol hw hp fun hfg hbg hattrs =>
    h.shown.known_inside h.force hlast hfg hbg hattrs
  refine ⟨h₁, h₂, fun j hj => ?_⟩
  rw [hnext, Option.some.injEq] at hj
  subst hj
  exact ⟨h₃, h₄⟩

theorem RowDone.placed {c : Nat} (st : RowState) (h : RowShown changed cells u₀ r c (t.feed st.out.total))
    (hf : InForce changed cells c st) (hrow : (t.feed st.out.total).row = r)
    (hcol : (t.feed st.out.total).col = c + 1) (hc : changed c = true) (hw : c < u₀.width)
    (hp : Printable (cells c))
    (hk : RunKnown u₀.style ((lastChanged changed c).map cells) (cells c)) {o : OutBuf}
    {lastCol : Option Nat} (ho : st.out = o) :
    RowDone t changed cells u₀ r (c + 1)
      (emitCell ⟨o, 0xFFFF, st.curBg, st.curAttrs, lastCol⟩ (cells c)) := by
  subst ho
  have hnext : lastChanged changed (c + 1) = some c := if_pos hc
  have hshown : RowShown changed cells u₀ r c
      (t.feed (⟨st.out, 0xFFFF, st.curBg, st.curAttrs, lastCol⟩ : RowState).out.total) := h
  obtain ⟨h₁, h₂, h₃, h₄⟩ := hshown.emit hc hrow hcol hw hp fun hfg hbg hattrs =>
    h.known_start hf hk hfg hbg hattrs
  refine ⟨h₁, h₂, fun j hj => ?_⟩
  rw [hnext, Option.some.injEq] at hj
  subst hj
  exact ⟨h₃, h₄⟩

end Done

section Rows

variable {s : VmTuiSession} {t : Terminal} {o : OutBuf} {r : Nat}

theorem emitMove_inside (hg : (t.feed o.total).parser = .ground) {row col : Nat} (hr : 1 ≤ row)
    (hr' : row ≤ (t.feed o.total).height) (hc : 1 ≤ col) (hc' : col ≤ (t.feed o.total).width)
    (hrmax : row < 10 ^ 10) (hcmax : col < 10 ^ 10) :
    t.feed (emitMove o row col).total = { t.feed o.total with row := row, col := col } := by
  rw [emitMove_feed hg hrmax hcmax]
  exact moveTo_inside hr hr' hc hc'

theorem emitFullRow_spec (hg : (t.feed o.total).parser = .ground)
    (hr : r < (t.feed o.total).height) (hmax : r + 1 < 10 ^ 10)
    (hw : s.cols.toNat ≤ (t.feed o.total).width)
    (hp : ∀ c < s.cols.toNat, Printable (s.canvas r c))
    (hk : RowKnown (fun _ => true) (s.canvas r) s.cols.toNat (t.feed o.total).style) :
    RowShown (fun _ => true) (s.canvas r) (t.feed o.total) (r + 1) s.cols.toNat
      (t.feed (emitFullRow s o (r + 1)).total) := by
  have hmove : t.feed (emitMove o (r + 1) 1).total = (t.feed o.total).moveTo (r + 1) 1 :=
    emitMove_feed hg hmax (by decide)
  unfold emitFullRow
  generalize emitMove o (r + 1) 1 = om at hmove ⊢
  have loop := @foldl_range_invariant _ (fun st c => emitCell st (s.canvas (r + 1 - 1) c))
    (fun n st => (n = 0 → st = ⟨om, 0xFFFF, 0xFFFF, 0xFF, none⟩) ∧
      RowDone t (fun _ => true) (s.canvas r) (t.feed o.total) (r + 1) n st)
    ⟨om, 0xFFFF, 0xFFFF, 0xFF, none⟩ ?_ s.cols.toNat ?_
  · exact loop.2.shown
  · refine ⟨fun _ => rfl, ?_, ⟨rfl, rfl, rfl⟩, fun k hk' => ?_⟩
    · rw [hmove]
      exact (RowShown.start hg (r + 1)).moved _ _
    · cases hk'
  · intro n st hn h
    refine ⟨fun h0 => ?_, ?_⟩
    · cases h0
    rw [Nat.add_sub_cancel]
    cases n with
    | zero =>
      -- The cursor is placed at the start of the row, and the colours are unknown.
      obtain ⟨hstart, hdone⟩ := h
      rw [moveTo_inside (Nat.le_add_left 1 r) hr le_rfl (by omega)] at hmove
      rw [hstart rfl] at hdone ⊢
      have hknown : RunKnown (t.feed o.total).style
          ((lastChanged (fun _ => true) 0).map (s.canvas r)) (s.canvas r 0) := by
        refine hk 0 hn rfl fun h' => ?_
        cases h'
      exact RowDone.placed ⟨om, 0xFFFF, 0xFFFF, 0xFF, none⟩ hdone.shown hdone.force
        (congrArg Terminal.row hmove) (congrArg Terminal.col hmove) rfl (by omega) (hp 0 hn) hknown rfl
    | succ n => exact h.2.next rfl rfl (by omega) (hp (n + 1) hn)

/-- Which cells of a row `do_present_diff` writes. -/
def differs (s : VmTuiSession) (r c : Nat) : Bool := !cellsEqual (s.canvas r c) (s.front r c)

theorem emitDiffRow_spec (hg : (t.feed o.total).parser = .ground)
    (hr : r < (t.feed o.total).height) (hmax : r + 1 < 10 ^ 10) (hcmax : s.cols.toNat < 10 ^ 10)
    (hw : s.cols.toNat ≤ (t.feed o.total).width)
    (hp : ∀ c < s.cols.toNat, Printable (s.canvas r c))
    (hk : RowKnown (differs s r) (s.canvas r) s.cols.toNat (t.feed o.total).style) :
    RowShown (differs s r) (s.canvas r) (t.feed o.total) (r + 1) s.cols.toNat
      (t.feed (emitDiffRow s o (r + 1)).total) := by
  have loop := @foldl_range_invariant _ (emitDiffCell s (r + 1))
    (fun n st => st.lastCol = lastChanged (differs s r) n ∧
      RowDone t (differs s r) (s.canvas r) (t.feed o.total) (r + 1) n st)
    ⟨o, 0xFFFF, 0xFFFF, 0xFF, none⟩ ?_ s.cols.toNat ?_
  · exact loop.2.shown
  · refine ⟨rfl, .start hg (r + 1), ⟨rfl, rfl, rfl⟩, fun k hk' => ?_⟩
    cases hk'
  · rintro n st hn ⟨hlast, hdone⟩
    unfold emitDiffCell
    simp only [Nat.add_sub_cancel]
    cases hdiff : cellsEqual (s.canvas r n) (s.front r n) with
    | true =>
      have hsame : differs s r n = false := by simp [differs, hdiff]
      have hstep : lastChanged (differs s r) (n + 1) = lastChanged (differs s r) n := by
        rw [lastChanged, hsame, if_neg Bool.false_ne_true]
      have hforce := hdone.force
      unfold InForce at hforce
      rw [if_pos rfl, hstep]
      refine ⟨hlast, hdone.shown.skip hsame, ?_, ?_⟩
      · unfold InForce
        rwa [hstep]
      · rw [hstep]
        exact hdone.cursor
    | false =>
      have hch : differs s r n = true := by simp [differs, hdiff]
      have hstep : lastChanged (differs s r) (n + 1) = some n := if_pos hch
      rw [if_neg Bool.false_ne_true, hstep]
      refine ⟨rfl, ?_⟩
      by_cases hjump : (st.lastCol.all fun last => decide (n ≠ last + 1)) = true
      · rw [if_pos hjump]
        have hheight := hdone.shown.height
        have hwidth := hdone.shown.width
        have hmove := emitMove_inside hdone.shown.ground (Nat.le_add_left 1 r) (by omega)
          (Nat.le_add_left 1 n) (by omega) hmax (by omega)
        have hstart : lastChanged (differs s r) n ≠ some (n - 1) := by
          intro hk'
          have hlt := lastChanged_lt hk'
          rw [hlast, hk'] at hjump
          simp only [Option.all_some, decide_eq_true_eq] at hjump
          omega
        have hshown := hdone.shown.moved (r + 1) (n + 1)
        rw [← hmove] at hshown
        exact (RowDone.placed { st with out := emitMove st.out (r + 1) (n + 1) } hshown
          hdone.force (congrArg Terminal.row hmove) (congrArg Terminal.col hmove) hch (by omega)
          (hp n hn) (hk n hn hch hstart) rfl).withLastCol _
      · rw [if_neg hjump]
        obtain ⟨k, hk', rfl⟩ : ∃ k, st.lastCol = some k ∧ n = k + 1 := by
          cases hlc : st.lastCol with
          | none =>
            rw [hlc] at hjump
            exact absurd rfl hjump
          | some k =>
            rw [hlc] at hjump
            simp only [Option.all_some, decide_eq_true_eq, not_not] at hjump
            exact ⟨k, rfl, hjump⟩
        have hchk : differs s r k = true := by
          rw [hk'] at hlast
          unfold lastChanged at hlast
          split at hlast
          · assumption
          · have := lastChanged_lt hlast.symm
            omega
        exact (hdone.next hchk hch (by omega) (hp (k + 1) hn)).withLastCol _

end Rows

/-! ## One frame -/

section Frame

variable (changed : Nat → Nat → Bool) (cells : Cells) (cols : Nat)

/-- The style before row `r`, when the frame starts with `style`. -/
def styleBefore (style : Style) : Nat → Style
  | 0 => style
  | r + 1 => styleAt (changed r) (cells r) (styleBefore style r) cols

/-- Every run of cells of the frame starts with known colours. -/
def FrameKnown (rows : Nat) (style : Style) : Prop :=
  ∀ r < rows, RowKnown (changed r) (cells r) cols (styleBefore changed cells cols style r)

/-- The terminal after the rows before `n` of a frame that began with terminal `u₀`. -/
structure FrameShown (u₀ : Terminal) (n : Nat) (u : Terminal) : Prop where
  ground : u.parser = .ground
  height : u.height = u₀.height
  width : u.width = u₀.width
  style : u.style = styleBefore changed cells cols u₀.style n
  screen : ∀ r c, u.screen (r + 1) (c + 1) =
    if r < n ∧ c < cols ∧ changed r c then shown (cells r c) else u₀.screen (r + 1) (c + 1)

variable {changed cells cols} {u₀ : Terminal}

theorem FrameShown.start (h : u₀.parser = .ground) : FrameShown changed cells cols u₀ 0 u₀ where
  ground := h
  height := rfl
  width := rfl
  style := rfl
  screen r c := by simp

theorem FrameShown.row {n : Nat} {u u' : Terminal} (h : FrameShown changed cells cols u₀ n u)
    (hr : RowShown (changed n) (cells n) u (n + 1) cols u') :
    FrameShown changed cells cols u₀ (n + 1) u' := by
  refine ⟨hr.ground, hr.height.trans h.height, hr.width.trans h.width, ?_, fun r c => ?_⟩
  · rw [hr.style, h.style]
    rfl
  · rw [hr.screen, h.screen]
    by_cases hrn : r = n
    · subst hrn
      simp
    · have hsucc : r + 1 ≠ n + 1 := by omega
      have hlt : r < n + 1 ↔ r < n := by omega
      simp only [hsucc, false_and, if_false, hlt]

theorem rows_shown {emitRow : OutBuf → Nat → OutBuf} {t : Terminal} {o : OutBuf} (rows : Nat)
    (h : FrameShown changed cells cols u₀ 0 (t.feed o.total))
    (hrow : ∀ r < rows, ∀ o, FrameShown changed cells cols u₀ r (t.feed o.total) →
      RowShown (changed r) (cells r) (t.feed o.total) (r + 1) cols
        (t.feed (emitRow o (r + 1)).total)) :
    FrameShown changed cells cols u₀ rows
      (t.feed ((List.range rows).foldl (fun o r => emitRow o (r + 1)) o).total) :=
  @foldl_range_invariant _ (fun o r => emitRow o (r + 1))
    (fun n o => FrameShown changed cells cols u₀ n (t.feed o.total)) _ h _
    fun r o hr ho => ho.row (hrow r hr o ho)

end Frame

section Present

variable {s : VmTuiSession} {t : Terminal}

theorem syncMode_feed {o : OutBuf} (hg : (t.feed o.total).parser = .ground) {final : Byte}
    (hf : 0x40 ≤ final.toNat ∧ final.toNat ≤ 0x7e) :
    t.feed (syncMode s o final).total = t.feed o.total := by
  have hdigits : ∀ d ∈ ([0x32, 0x30, 0x32, 0x36] : List Byte), IsDigit d := by decide
  unfold syncMode
  split
  · rw [outBytes_total, feed_append]
    exact feed_private hg hdigits hf
  · rfl

theorem endFrame_feed {o : OutBuf} (hg : (t.feed o.total).parser = .ground) :
    t.feed (endFrame s o) = { t.feed o.total with style := .plain } := by
  have hreset : t.feed (outBytes o (csi ++ [0x30, 0x6d])).total =
      { t.feed o.total with style := .plain } := by
    have hzero : ∀ d ∈ ([0x30] : List Byte), IsDigit d := by decide
    have hsplit : csi ++ [0x30, 0x6d] = csi ++ ([0x30] ++ [0x6d]) := rfl
    rw [outBytes_total, hsplit, feed_append, feed_append, feed_append]
    unfold csi
    rw [feed_csi hg, feed_digits hzero, feed_sgr, ← hg]
    rfl
  unfold endFrame
  rw [outFlush_sent, syncMode_feed, hreset]
  · rw [hreset]
    exact hg
  · decide

/-- The part of the canvas that is presented. -/
def Shows (t : Terminal) (s : VmTuiSession) (cells : Cells) : Prop :=
  ∀ r < s.rows.toNat, ∀ c < s.cols.toNat, t.screen (r + 1) (c + 1) = shown (cells r c)

/-- A terminal that the session fits on, between two frames. -/
structure Hosts (t : Terminal) (s : VmTuiSession) : Prop where
  ground : t.parser = .ground
  height : s.rows.toNat ≤ t.height
  width : s.cols.toNat ≤ t.width
  rowsMax : s.rows.toNat ≤ vmTuiMaxRows
  colsMax : s.cols.toNat ≤ vmTuiMaxCols

/-- What a present leaves. -/
structure Presented (t : Terminal) (s : VmTuiSession) (t' : Terminal) : Prop where
  ground : t'.parser = .ground
  height : t'.height = t.height
  width : t'.width = t.width
  plain : t'.style = .plain
  shows : Shows t' s s.canvas

def CanvasPrintable (s : VmTuiSession) : Prop :=
  ∀ r < s.rows.toNat, ∀ c < s.cols.toNat, Printable (s.canvas r c)

theorem doPresent_spec (h : Hosts t s) (hp : CanvasPrintable s)
    (hk : FrameKnown (fun _ _ => true) s.canvas s.cols.toNat s.rows.toNat t.style) :
    Presented t s (t.feed (doPresent s).1) := by
  have hmax := h.rowsMax
  unfold vmTuiMaxRows at hmax
  have hsync : t.feed (syncMode s ⟨[], []⟩ 0x68).total = t :=
    syncMode_feed (o := ⟨[], []⟩) h.ground (by decide)
  have hhome : t.feed (emitMove (syncMode s ⟨[], []⟩ 0x68) 1 1).total = t.moveTo 1 1 := by
    rw [emitMove_feed (by rw [hsync]; exact h.ground) (by decide) (by decide), hsync]
  have hstart : FrameShown (fun _ _ => true) s.canvas s.cols.toNat (t.moveTo 1 1) 0
      (t.feed (emitMove (syncMode s ⟨[], []⟩ 0x68) 1 1).total) := by
    rw [hhome]
    exact .start h.ground
  have hrows := rows_shown s.rows.toNat hstart fun r hr o ho => by
    have hheight : (t.feed o.total).height = t.height := ho.height
    have hwidth : (t.feed o.total).width = t.width := ho.width
    have hfit := h.height
    refine emitFullRow_spec ho.ground (by omega) (by omega) ?_ (hp r hr) ?_
    · rw [hwidth]
      exact h.width
    · rw [ho.style]
      exact hk r hr
  unfold doPresent
  dsimp only
  rw [endFrame_feed hrows.ground]
  refine ⟨hrows.ground, hrows.height, hrows.width, rfl, fun r hr c hc => ?_⟩
  refine (hrows.screen r c).trans ?_
  rw [if_pos ⟨hr, hc, rfl⟩]

theorem cellsEqual_shown {a b : HostCell} (h : cellsEqual a b = true) : shown a = shown b := by
  simp only [cellsEqual, decide_eq_true_eq] at h
  obtain ⟨hc, hfg, hbg, hattrs⟩ := h
  unfold shown
  rw [hc, styleOf_congr hfg hbg hattrs]

/-- A differential present of a session whose front buffer is on the screen. -/
theorem doPresentDiff_spec (h : Hosts t s) (hp : CanvasPrintable s) (hv : s.frontValid = true)
    (hfront : Shows t s s.front)
    (hk : FrameKnown (differs s) s.canvas s.cols.toNat s.rows.toNat t.style) :
    Presented t s (t.feed (doPresentDiff s).1) := by
  have hmax := h.rowsMax
  have hcmax := h.colsMax
  unfold vmTuiMaxRows at hmax
  unfold vmTuiMaxCols at hcmax
  have hsync : t.feed (syncMode s ⟨[], []⟩ 0x68).total = t :=
    syncMode_feed (o := ⟨[], []⟩) h.ground (by decide)
  have hstart : FrameShown (differs s) s.canvas s.cols.toNat t 0
      (t.feed (syncMode s ⟨[], []⟩ 0x68).total) := by
    rw [hsync]
    exact .start h.ground
  have hrows := rows_shown s.rows.toNat hstart fun r hr o ho => by
    have hheight := ho.height
    have hwidth := ho.width
    have hfit := h.height
    refine emitDiffRow_spec ho.ground (by omega) (by omega) (by omega) ?_ (hp r hr) ?_
    · rw [hwidth]
      exact h.width
    · rw [ho.style]
      exact hk r hr
  unfold doPresentDiff
  rw [if_neg (by simp [hv])]
  dsimp only
  rw [endFrame_feed hrows.ground]
  refine ⟨hrows.ground, hrows.height, hrows.width, rfl, fun r hr c hc => ?_⟩
  refine (hrows.screen r c).trans ?_
  cases hd : differs s r c with
  | true => rw [if_pos ⟨hr, hc, rfl⟩]
  | false =>
    have hsame : cellsEqual (s.canvas r c) (s.front r c) = true := by simpa [differs] using hd
    rw [if_neg fun h' => Bool.false_ne_true h'.2.2, hfront r hr c hc, cellsEqual_shown hsame]

end Present

end Microgarbage.Tui
