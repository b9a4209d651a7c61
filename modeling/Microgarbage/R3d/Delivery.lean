import Mathlib.Data.List.Chain
import Microgarbage.Cart.Contents
import Microgarbage.R3d.Picture

/-!
# Delivery to a console

Scene calls, render calls and a console that copies the staged third to VRAM, reveals it when the
descriptor says so, and strobes. Over every run: what a reveal shows, in which order, and what the
picture is in between. The renderer does not wait for the console, and a render call that comes too
early mixes frames.
-/

namespace Microgarbage.R3d

open Lib Cart

/-! ## The console -/

/-- A transfer to VRAM: the bytes go to consecutive words from `dst` on. -/
def transfer (vram : Mem) (dst : BitVec 16) (n : Nat) (src : Nat → Byte) : Mem := fun a =>
  let i := (a + (0x10000 - 2 * dst.toNat % 0x10000)) % 0x10000
  if i < n then src i else vram a

namespace Console

variable (c : Console) (w : CartWindow)

/-- Before the first routine. -/
def off : Console := ⟨fun _ => 0, 0, 0, 0, 0, 0, false⟩

/-- A new routine has been copied and its first part run: both tilemaps, and parity A is shown. -/
def boot : Console where
  vram := (c.vram.overlay 0xF000 2048 fun i => w.window (offTmapA + i)).overlay 0xF800 2048 fun i =>
    w.window (offTmapB + i)
  bg12nba := nba1 .a
  bg34nba := nba3 .a
  bg1sc := scVal .a
  bg3sc := scVal .a
  version := w.window offNmiVersion
  booted := true

/-- The two transfers to the places in the mailbox, and the reveal. -/
def finish : Console :=
  let vram := transfer c.vram (w.window.load16 mbBg1dst) thirdBg1Bytes fun i => w.window (stageBg1 + i)
  let vram := transfer vram (w.window.load16 mbBg3dst) thirdBg3Bytes fun i => w.window (stageBg3 + i)
  if w.window mbReveal = 0 then { c with vram := vram }
  else
    { c with
      vram := vram
      bg12nba := w.window mbNba1
      bg34nba := w.window mbNba3
      bg1sc := w.window mbSc
      bg3sc := w.window mbSc }

end Console

/-! ## The system -/

/-- The third that waits for the console, and whether the service was reset behind it. -/
structure Staged where
  frame : Nat
  sub : Nat
  parity : Parity
  stale : Bool

/-- What a reveal showed, and whether no reset came since the one before. -/
structure Reveal where
  frame : Nat
  picture : Picture
  fresh : Bool

structure Sys where
  renderer : Renderer
  cart : CartWindow
  console : Console
  /-- Every framebuffer drawn so far. -/
  frames : List Framebuffer
  pending : Option Staged
  /-- The frame revealed last, while neither a reset nor a new routine has come. -/
  shown : Option Nat
  reveals : List Reveal
  /-- No reveal yet, or a reset since the last one. -/
  afterReset : Bool
  /-- How many render calls were accepted over a third that waits. -/
  overwritten : Nat

inductive Event where
  | reset
  | camera (cam : Cam)
  | add (meshId : Byte)
  | move (h x y z : Word)
  | rotate (h x y z : Word)
  | showObject (h : Word) (visible : Bool)
  | render
  /-- The console takes over a new routine. -/
  | boot
  /-- It executes the descriptor and strobes. -/
  | strobe

namespace Sys

variable (raster : Raster) (isr : Isr) (s : Sys)

def init : Sys := ⟨.init, .init, .off, [], none, none, [], true, 0⟩

def onScene (f : Scene → Scene) : Sys :=
  { s with renderer := { s.renderer with scene := f s.renderer.scene } }

/-- `copro_r3d_reset`. -/
def reset : Sys :=
  { s with
    renderer := s.renderer.reset
    pending := s.pending.map fun st => { st with stale := true }
    shown := none
    afterReset := true }

/-- `copro_r3d_render`, which draws up to two framebuffers. -/
def render : Sys :=
  let r := s.renderer.ahead raster
  let frames := if s.renderer.haveFrame then s.frames else s.frames ++ [s.renderer.draws raster]
  let sub := if r.initDone then r.deliver else 0
  let result := s.renderer.render raster isr s.cart
  { s with
    renderer := result.1
    cart := result.2
    frames := if sub + 1 < nBands then frames else frames ++ [r.draws raster]
    pending := some
      ⟨frames.length - 1, sub, if r.initDone then r.buildParity else .b, false⟩
    overwritten := s.overwritten + if s.cart.frameReady = 0 then 0 else 1 }

/-- The routine waits while no third is ready. -/
def strobe : Sys :=
  if s.cart.frameReady = 0 then s
  else
    let st := s.pending.getD ⟨0, 0, .a, false⟩
    let console := s.console.finish s.cart
    let s' := { s with
      console := console
      cart := Copro.frameDoneCounters .empty s.cart
      pending := none }
    if s.cart.window mbReveal = 0 then s'
    else
      { s' with
        shown := if st.stale then none else some st.frame
        reveals := s.reveals ++ [⟨st.frame, console.picture, !s.afterReset⟩]
        afterReset := st.stale }

def step : Event → Option Sys
  | .reset => some s.reset
  | .camera cam => some (s.onScene (·.setCamera cam))
  | .add meshId => some (s.onScene fun sc => (sc.add meshId).2)
  | .move h x y z => some (s.onScene (·.objectMove h x y z))
  | .rotate h x y z => some (s.onScene (·.objectRotate h x y z))
  | .showObject h visible => some (s.onScene (·.objectShow h visible))
  | .render => some (s.render raster isr)
  | .boot =>
    if s.cart.window offNmiVersion ≠ 0 ∧ s.cart.window offNmiVersion ≠ s.console.version then
      some { s with console := s.console.boot s.cart, shown := none }
    else none
  | .strobe => if s.console.booted then some s.strobe else none

/-- Each reveal shows a complete framebuffer, successive reveals show successive ones, what was
revealed stays on the screen, and no third is overwritten before the console has consumed it. -/
structure Sound : Prop where
  pictures : ∀ r ∈ s.reveals, ∃ fb, s.frames[r.frame]? = some fb ∧ r.picture.Is fb
  successive : s.reveals.IsChain fun r r' =>
    r.frame < r'.frame ∧ (r'.fresh = true → r'.frame = r.frame + 1)
  steady : ∀ n ∈ s.shown, ∃ fb, s.frames[n]? = some fb ∧ s.console.picture.Is fb
  refused : s.overwritten = 0

/-- A render call comes only when the console has consumed the third before. -/
def Consumed : Event → Prop
  | .render => s.cart.frameReady = 0
  | _ => True

end Sys

/-! ## Staging -/

section Staging

open CartWindow (AgreeOn loadBlob_agree loadBlob_bytes)

variable {w : CartWindow} {P : Nat → Prop}

/-- Where the parts of the staging area, and the registers touched, lie. -/
theorem stage_layout : stageBg1 = 0 ∧ stageBg3 = 8192 ∧ offTmapA = 12288 ∧ offTmapB = 14336 ∧
    offPal = 16384 ∧ mbBg1dst = 16640 ∧ mbBg3dst = 16642 ∧ mbReveal = 16644 ∧ offIsrMode = 31172 ∧
    offNmiCode = 27648 ∧ nmiCodeBytes = 1024 ∧ offNmiVersion = 31154 ∧ offSiphonConfig = 31163 ∧
    cartWindowBytes = 65536 ∧ thirdBg1Bytes = 8000 ∧ thirdBg3Bytes = 4000 := by
  decide

theorem storeU16Le_agree {off : Nat} {v : BitVec 16} (h : ∀ a, P a → a < off ∨ off + 2 ≤ a) :
    AgreeOn P w (w.storeU16Le off v) := by
  intro a ha
  unfold CartWindow.storeU16Le
  split
  · rfl
  · exact Mem.store_out (h a ha)

theorem storeU16Le_load {off : Nat} (v : BitVec 16) (h : off + 2 ≤ cartWindowBytes) :
    (w.storeU16Le off v).window.load16 off = v := by
  unfold CartWindow.storeU16Le
  rw [if_neg (by omega)]
  exact Mem.load16_store ..

theorem setFrameReady_agree {byte : Byte}
    (h : ∀ a, P a → a < offSiphonConfig ∨ offSiphonConfig + 6 ≤ a) :
    AgreeOn P w (w.setFrameReady byte) := by
  unfold CartWindow.setFrameReady
  dsimp only
  split
  · exact loadBlob_agree (w := { w with frameReady := byte, frameStaged := w.frameStaged + 1 }) h
  · exact .refl

/-- The descriptor of a third in the window: the bytes to transfer, the places, the reveal. -/
structure Descr (w : CartWindow) (fb : Framebuffer) (third : Third) (p : Parity) : Prop where
  bg1 : w.window.bytes stageBg1 thirdBg1Bytes = (encodeChr fb).bytes (32 * third.t0) thirdBg1Bytes
  bg3 : w.window.bytes stageBg3 thirdBg3Bytes = (encodeChr2 fb).bytes (16 * third.t0) thirdBg3Bytes
  dst1 : w.window.load16 mbBg1dst = (slotFor third p).1
  dst3 : w.window.load16 mbBg3dst = (slotFor third p).2
  reveal : w.window.bytes mbReveal 4 = revealBytes third p

theorem load16_agree {w w' : CartWindow} {off : Nat} (h : AgreeOn (fun a => off ≤ a ∧ a < off + 2) w w') :
    w'.window.load16 off = w.window.load16 off :=
  Mem.load16_congr fun i hi => h (off + i) ⟨by omega, by omega⟩

theorem stageThird_descr (w : CartWindow) (fb : Framebuffer) (third : Third) (p : Parity) :
    Descr (stageThird (encodeChr fb) (encodeChr2 fb) third p w) fb third p := by
  have hl := stage_layout
  have hlen : (revealBytes third p).length = 4 := by
    unfold revealBytes
    split <;> rfl
  unfold stageThird
  dsimp only
  generalize hw1 : w.loadBlob stageBg1 ((encodeChr fb).bytes (32 * third.t0) thirdBg1Bytes) = w₁
  generalize hw2 : w₁.loadBlob stageBg3 ((encodeChr2 fb).bytes (16 * third.t0) thirdBg3Bytes) = w₂
  generalize hw3 : w₂.storeU16Le mbBg1dst (slotFor third p).1 = w₃
  generalize hw4 : w₃.storeU16Le mbBg3dst (slotFor third p).2 = w₄
  generalize hw5 : w₄.loadBlob mbReveal (revealBytes third p) = w₅
  have hb1 : w₁.window.bytes stageBg1 thirdBg1Bytes =
      (encodeChr fb).bytes (32 * third.t0) thirdBg1Bytes := by
    have hload := @loadBlob_bytes w stageBg1 ((encodeChr fb).bytes (32 * third.t0) thirdBg1Bytes)
      (by rw [Mem.length_bytes]; omega)
    rwa [Mem.length_bytes, hw1] at hload
  have hb3 : w₂.window.bytes stageBg3 thirdBg3Bytes =
      (encodeChr2 fb).bytes (16 * third.t0) thirdBg3Bytes := by
    have hload := @loadBlob_bytes w₁ stageBg3 ((encodeChr2 fb).bytes (16 * third.t0) thirdBg3Bytes)
      (by rw [Mem.length_bytes]; omega)
    rwa [Mem.length_bytes, hw2] at hload
  have hd1 : w₃.window.load16 mbBg1dst = (slotFor third p).1 := hw3 ▸ storeU16Le_load _ (by decide)
  have hd3 : w₄.window.load16 mbBg3dst = (slotFor third p).2 := hw4 ▸ storeU16Le_load _ (by decide)
  have hr : w₅.window.bytes mbReveal 4 = revealBytes third p := by
    have hload := @loadBlob_bytes w₄ mbReveal (revealBytes third p) (by rw [hlen]; omega)
    rwa [hlen, hw5] at hload
  have hstaged : AgreeOn (· < mbBg1dst) w₂ (w₅.setFrameReady 1) := by
    refine .trans (hw3 ▸ storeU16Le_agree fun a ha => .inl ha) ?_
    refine .trans (hw4 ▸ storeU16Le_agree fun a ha => .inl (by omega)) ?_
    refine .trans (hw5 ▸ loadBlob_agree fun a ha => .inl (by omega)) ?_
    exact setFrameReady_agree fun a ha => .inl (by omega)
  refine ⟨?_, ?_, ?_, ?_, ?_⟩
  · rw [hstaged.bytes fun i hi => by omega, ← hb1]
    have hag : AgreeOn (· < stageBg3) w₁ w₂ := hw2 ▸ loadBlob_agree fun a ha => .inl (by omega)
    exact hag.bytes fun i hi => by omega
  · rw [hstaged.bytes fun i hi => by omega, ← hb3]
  · rw [← hd1]
    refine load16_agree (.trans (hw4 ▸ storeU16Le_agree fun a ha => .inl (by omega)) ?_)
    refine .trans (hw5 ▸ loadBlob_agree fun a ha => .inl (by omega)) ?_
    exact setFrameReady_agree fun a ha => .inl (by omega)
  · rw [← hd3]
    refine load16_agree (.trans (hw5 ▸ loadBlob_agree fun a ha => .inl (by omega)) ?_)
    exact setFrameReady_agree fun a ha => .inl (by omega)
  · rw [← hr]
    have hag : AgreeOn (fun a => mbReveal ≤ a ∧ a < mbReveal + 4) w₅ (w₅.setFrameReady 1) :=
      setFrameReady_agree fun a ha => .inl (by omega)
    exact hag.bytes fun i hi => by omega

theorem stageThird_agree (chr chr2 : Mem) (third : Third) (p : Parity) (w : CartWindow) :
    AgreeOn (fun a => offTmapA ≤ a ∧ a < mbBg1dst ∨ a = offNmiVersion) w
      (stageThird chr chr2 third p w) := by
  have hl := stage_layout
  have hlen : (revealBytes third p).length = 4 := by
    unfold revealBytes
    split <;> rfl
  unfold stageThird
  dsimp only
  refine .trans ?_ (setFrameReady_agree fun a ha => by omega)
  refine .trans ?_ (loadBlob_agree fun a ha => by rw [hlen]; omega)
  refine .trans ?_ (storeU16Le_agree fun a ha => by omega)
  refine .trans ?_ (storeU16Le_agree fun a ha => by omega)
  refine .trans ?_ (loadBlob_agree fun a ha => by rw [Mem.length_bytes]; omega)
  exact loadBlob_agree fun a ha => by rw [Mem.length_bytes]; omega

theorem stageThird_ready (chr chr2 : Mem) (third : Third) (p : Parity) (w : CartWindow) :
    (stageThird chr chr2 third p w).frameReady = 1 :=
  CartWindow.setFrameReady_ready 1

/-- The window's copy of both tilemaps. -/
def Mapped (w : CartWindow) : Prop :=
  w.window.bytes offTmapA 2048 = tilemap .a ∧ w.window.bytes offTmapB 2048 = tilemap .b

theorem Mapped.agree {w w' : CartWindow} (h : Mapped w)
    (ha : AgreeOn (fun a => offTmapA ≤ a ∧ a < offPal) w w') : Mapped w' := by
  have hl := stage_layout
  exact ⟨(ha.bytes fun i hi => by omega).trans h.1, (ha.bytes fun i hi => by omega).trans h.2⟩

theorem stageInit_mapped (isr : Isr) (w : CartWindow) : Mapped (stageInit isr w) := by
  have hl := stage_layout
  have hlen : ∀ p, (tilemap p).length = 2048 := fun p => by simp [tilemap]
  unfold stageInit
  dsimp only
  generalize ((w.storeU16Le offKernelLayout (12 ||| 12 <<< 8)).loadBlob offHdmaConfig
    (List.replicate 56 0)).loadBlob offPal palette = w₀
  have hrest : ∀ w : CartWindow, AgreeOn (fun a => offTmapA ≤ a ∧ a < offPal) w
      ((w.loadBlob offIsrMode [1]).loadBlob offNmiCode isr.1).bumpNmiVersion := by
    intro w
    refine .trans ?_ fun a ha => Function.update_of_ne (by omega) ..
    refine .trans ?_ (loadBlob_agree fun a ha => .inl (by omega))
    exact loadBlob_agree fun a ha => .inl (by omega)
  refine Mapped.agree ⟨?_, ?_⟩ (hrest _)
  · have hload := @loadBlob_bytes w₀ offTmapA (tilemap .a) (by rw [hlen]; omega)
    rw [hlen] at hload
    have hag : AgreeOn (fun a => a < offTmapB) (w₀.loadBlob offTmapA (tilemap .a))
      ((w₀.loadBlob offTmapA (tilemap .a)).loadBlob offTmapB (tilemap .b)) :=
      loadBlob_agree fun a ha => .inl ha
    exact (hag.bytes fun i hi => by omega).trans hload
  · have hload := @loadBlob_bytes (w₀.loadBlob offTmapA (tilemap .a)) offTmapB (tilemap .b)
      (by rw [hlen]; omega)
    rwa [hlen] at hload

end Staging

/-! ## Consuming -/

section Consuming

variable {c : Console} {w : CartWindow} {fb fb' : Framebuffer} {third third' : Third} {p p' : Parity}

theorem transfer_apply {vram : Mem} {dst : BitVec 16} {base n a : Nat} {src : Nat → Byte}
    (hdst : 2 * dst.toNat = base) (hn : base + n ≤ 0x10000) (ha : a < 0x10000) :
    transfer vram dst n src a = if base ≤ a ∧ a < base + n then src (a - base) else vram a := by
  unfold transfer
  dsimp only
  rw [hdst]
  by_cases hle : base ≤ a
  · by_cases hz : base = 0x10000
    · omega
    · have hi : (a + (0x10000 - base % 0x10000)) % 0x10000 = a - base := by omega
      rw [hi]
      by_cases hlt : a - base < n
      · rw [if_pos hlt, if_pos ⟨hle, by omega⟩]
      · rw [if_neg hlt, if_neg (by omega)]
  · have hi : n ≤ (a + (0x10000 - base % 0x10000)) % 0x10000 := by omega
    rw [if_neg (by omega), if_neg (by omega)]

theorem place_apart (h : third ≠ third' ∨ third ≠ .top ∧ p ≠ p') :
    ((place third p).1 + thirdBg1Bytes ≤ (place third' p').1 ∨
        (place third' p').1 + thirdBg1Bytes ≤ (place third p).1) ∧
      ((place third p).2 + thirdBg3Bytes ≤ (place third' p').2 ∨
        (place third' p').2 + thirdBg3Bytes ≤ (place third p).2) := by
  revert h
  cases third <;> cases third' <;> cases p <;> cases p' <;> decide

theorem place_split (third : Third) (p : Parity) : 0xA000 ≤ (place third p).2 := by
  cases third <;> cases p <;> decide

theorem finish_vram (hd : Descr w fb third p) {a : Nat} (ha : a < 0x10000) :
    (c.finish w).vram a =
      if (place third p).2 ≤ a ∧ a < (place third p).2 + thirdBg3Bytes then
        w.window (stageBg3 + (a - (place third p).2))
      else if (place third p).1 ≤ a ∧ a < (place third p).1 + thirdBg1Bytes then
        w.window (stageBg1 + (a - (place third p).1))
      else c.vram a := by
  obtain ⟨hslot1, hslot3⟩ := slotFor_place third p
  obtain ⟨hend1, hend3⟩ := place_le third p
  have hvram : (c.finish w).vram = transfer (transfer c.vram (slotFor third p).1 thirdBg1Bytes
      fun i => w.window (stageBg1 + i)) (slotFor third p).2 thirdBg3Bytes
      fun i => w.window (stageBg3 + i) := by
    unfold Console.finish
    rw [hd.dst1, hd.dst3]
    split <;> rfl
  rw [hvram, transfer_apply hslot3 (by omega) ha, transfer_apply hslot1 (by omega) ha]

theorem byte_of_bytes {m m' : Mem} {a b n : Nat} (h : m.bytes a n = m'.bytes b n) {i : Nat}
    (hi : i < n) : m (a + i) = m' (b + i) := by
  have hget := congrArg (·[i]?) h
  simpa [Mem.bytes, List.getElem?_range hi] using hget

theorem bytes_of_byte {m m' : Mem} {a b n : Nat} (h : ∀ i < n, m (a + i) = m' (b + i)) :
    m.bytes a n = m'.bytes b n :=
  List.map_congr_left fun i hi => h i (List.mem_range.mp hi)

theorem finish_holds (hd : Descr w fb third p) : HoldsThird (c.finish w).vram fb third p := by
  obtain ⟨hslot1, hslot3⟩ := slotFor_place third p
  obtain ⟨hend1, hend3⟩ := place_le third p
  have hsplit := place_split third p
  refine ⟨fun i hi => ?_, fun i hi => ?_⟩
  · rw [hslot1, finish_vram hd (by omega), if_neg (by omega), if_pos ⟨by omega, by omega⟩,
      Nat.add_sub_cancel_left]
    exact byte_of_bytes hd.bg1 hi
  · rw [hslot3, finish_vram hd (by omega), if_pos ⟨by omega, by omega⟩, Nat.add_sub_cancel_left]
    exact byte_of_bytes hd.bg3 hi

theorem finish_keeps (hd : Descr w fb third p) (hne : third ≠ third' ∨ third ≠ .top ∧ p ≠ p')
    (h : HoldsThird c.vram fb' third' p') : HoldsThird (c.finish w).vram fb' third' p' := by
  obtain ⟨hslot1, hslot3⟩ := slotFor_place third' p'
  obtain ⟨hend1, hend3⟩ := place_le third p
  obtain ⟨hend1', hend3'⟩ := place_le third' p'
  have hsplit := place_split third p
  have hsplit' := place_split third' p'
  obtain ⟨happart1, happart3⟩ := place_apart hne
  refine ⟨fun i hi => ?_, fun i hi => ?_⟩
  · rw [hslot1, finish_vram hd (by omega), if_neg (by omega), if_neg (by omega), ← hslot1]
    exact h.bg1 i hi
  · rw [hslot3, finish_vram hd (by omega), if_neg (by omega), if_neg (by omega), ← hslot3]
    exact h.bg3 i hi

theorem finish_maps (hd : Descr w fb third p) (h : HoldsMaps c.vram) :
    HoldsMaps (c.finish w).vram := by
  obtain ⟨hend1, hend3⟩ := place_le third p
  intro q
  have hq : 0xF000 ≤ mapBase q ∧ mapBase q + 2048 ≤ 0x10000 := by
    cases q <;> decide
  rw [← h q]
  refine Mem.bytes_congr fun i hi => ?_
  rw [finish_vram hd (by omega), if_neg (by omega), if_neg (by omega)]

theorem window_reveal (hd : Descr w fb third p) :
    (third = .top → w.window mbReveal = 1 ∧ w.window mbNba1 = nba1 p ∧ w.window mbNba3 = nba3 p ∧
      w.window mbSc = scVal p) ∧ (third ≠ .top → w.window mbReveal = 0) := by
  have hbyte : ∀ i (hi : i < 4), w.window (mbReveal + i) = (revealBytes third p).getD i 0 := by
    intro i hi
    have hget := congrArg (·[i]?) hd.reveal
    simp only [Mem.bytes, List.getElem?_map, List.getElem?_range hi, Option.map_some] at hget
    rw [List.getD_eq_getElem?_getD, ← hget, Option.getD_some]
  refine ⟨fun ht => ?_, fun ht => ?_⟩
  · unfold revealBytes at hbyte
    rw [if_pos ht] at hbyte
    exact ⟨hbyte 0 (by omega), hbyte 1 (by omega), hbyte 2 (by omega), hbyte 3 (by omega)⟩
  · unfold revealBytes at hbyte
    rw [if_neg ht] at hbyte
    exact hbyte 0 (by omega)

theorem finish_displays (hd : Descr w fb .top p) : (c.finish w).Displays p := by
  obtain ⟨hr, h1, h3, hsc⟩ := (window_reveal hd).1 rfl
  unfold Console.finish
  rw [if_neg (by rw [hr]; decide)]
  exact ⟨h1, h3, hsc, hsc⟩

theorem finish_regs (hd : Descr w fb third p) (ht : third ≠ .top) {q : Parity}
    (h : c.Displays q) : (c.finish w).Displays q := by
  unfold Console.finish
  rw [if_pos ((window_reveal hd).2 ht)]
  exact { h with }

theorem finish_booted : (c.finish w).booted = c.booted := by
  unfold Console.finish
  split <;> rfl

theorem boot_maps (h : Mapped w) : HoldsMaps (c.boot w).vram := by
  intro q
  unfold Console.boot
  dsimp only
  cases q with
  | a =>
    refine (bytes_of_byte fun i hi => ?_).trans h.1
    rw [Mem.overlay_out (by simp only [mapBase]; omega), Mem.overlay_in (by simp only [mapBase]; omega)
      (by simp only [mapBase]; omega)]
    simp only [mapBase, Nat.add_sub_cancel_left]
  | b =>
    refine (bytes_of_byte fun i hi => ?_).trans h.2
    rw [Mem.overlay_in (by simp only [mapBase]; omega) (by simp only [mapBase]; omega)]
    simp only [mapBase, Nat.add_sub_cancel_left]

theorem boot_keeps (h : HoldsThird c.vram fb third p) : HoldsThird (c.boot w).vram fb third p := by
  obtain ⟨hslot1, hslot3⟩ := slotFor_place third p
  obtain ⟨hend1, hend3⟩ := place_le third p
  have hout : ∀ a < 0xF000, (c.boot w).vram a = c.vram a := by
    intro a ha
    unfold Console.boot
    dsimp only
    rw [Mem.overlay_out (.inl (by omega)), Mem.overlay_out (.inl (by omega))]
  refine ⟨fun i hi => ?_, fun i hi => ?_⟩
  · rw [hout _ (by omega)]
    exact h.bg1 i hi
  · rw [hout _ (by omega)]
    exact h.bg3 i hi

end Consuming

/-! ## The invariant -/

namespace Sys

/-- What is known of a third that waits: the descriptor of a frame whose earlier thirds are in
VRAM, and where the service goes on. -/
structure Waits (s : Sys) (st : Staged) : Prop where
  sub : st.sub < nBands
  descr : ∃ fb, s.frames[st.frame]? = some fb ∧
    Descr s.cart fb (deliverOrder st.sub) st.parity ∧
      ∀ k < st.sub, HoldsThird s.console.vram fb (deliverOrder k) st.parity
  next : if st.stale = true then s.renderer.deliver = 0 ∧ s.renderer.haveFrame = false
    else s.renderer.haveFrame = true ∧ s.renderer.initDone = true ∧
      if st.sub + 1 < nBands then
        s.renderer.deliver = st.sub + 1 ∧ st.frame + 1 = s.frames.length ∧
          s.renderer.buildParity = st.parity
      else
        s.renderer.deliver = 0 ∧ st.frame + 2 = s.frames.length ∧
          s.renderer.buildParity = st.parity.flip

/-- The parity that the next transfers go to. -/
def filling (s : Sys) : Parity :=
  match s.pending with
  | some st => st.parity
  | none => s.renderer.buildParity

/-- Frame `n` is displayed in parity `q`, and the other parity is being filled. -/
structure Shows (s : Sys) (n : Nat) (q : Parity) : Prop where
  held : ∃ fb, s.frames[n]? = some fb ∧ ∀ third, HoldsThird s.console.vram fb third q
  displays : s.console.Displays q
  booted : s.console.booted = true
  initDone : s.renderer.initDone = true
  other : s.filling = q.flip
  fresh : ∀ st ∈ s.pending, st.stale = false

/-- The frame that the next reveal can show. -/
def nextFrame (s : Sys) : Nat :=
  match s.pending with
  | some st => st.frame
  | none => if s.renderer.haveFrame = true then s.frames.length - 1 else s.frames.length

structure Inv (s : Sys) : Prop where
  deliver : s.renderer.deliver < nBands
  started : s.renderer.deliver ≠ 0 → s.renderer.haveFrame = true ∧ s.renderer.initDone = true
  chr : s.renderer.haveFrame = true → ∃ fb, s.frames.getLast? = some fb ∧
    s.renderer.chr = encodeChr fb ∧ s.renderer.chr2 = encodeChr2 fb
  mapped : s.cart.window offNmiVersion ≠ 0 → Mapped s.cart
  booted : s.console.booted = true → HoldsMaps s.console.vram
  ready : s.cart.frameReady = 0 ↔ s.pending = none
  pending : ∀ st ∈ s.pending, s.Waits st
  building : s.pending = none → ∀ fb, s.frames.getLast? = some fb →
    ∀ k < s.renderer.deliver, HoldsThird s.console.vram fb (deliverOrder k) s.renderer.buildParity
  shows : ∀ n ∈ s.shown, ∃ q, s.Shows n q
  order : ∀ m ∈ s.reveals.getLast?,
    m.frame < s.nextFrame ∧ (s.afterReset = false → s.nextFrame = m.frame + 1)
  idle : s.renderer.haveFrame = false → s.afterReset = true
  pictures : ∀ r ∈ s.reveals, ∃ fb, s.frames[r.frame]? = some fb ∧ r.picture.Is fb
  successive : s.reveals.IsChain fun r r' =>
    r.frame < r'.frame ∧ (r'.fresh = true → r'.frame = r.frame + 1)
  refused : s.overwritten = 0

variable {raster : Raster} {isr : Isr} {s s' : Sys} {st : Staged}

theorem init_inv : Inv init where
  deliver := by decide
  started h := absurd rfl h
  chr h := by cases h
  mapped h := absurd rfl h
  booted h := by cases h
  ready := ⟨fun _ => rfl, fun _ => rfl⟩
  pending st h := by cases h
  building _ fb h := by cases h
  shows n h := by cases h
  order m h := by cases h
  idle _ := rfl
  pictures r h := by cases h
  successive := .nil
  refused := rfl

theorem Inv.sound (h : s.Inv) : s.Sound where
  pictures := h.pictures
  successive := h.successive
  steady n hn := by
    obtain ⟨q, hq⟩ := h.shows n hn
    obtain ⟨fb, hfb, hheld⟩ := hq.held
    exact ⟨fb, hfb, picture_is (h.booted hq.booted) hheld hq.displays⟩
  refused := h.refused

/-! ### Steps -/

theorem Inv.onScene (h : s.Inv) (f : Scene → Scene) : (s.onScene f).Inv :=
  { h with
    pending := fun st hst => { h.pending st hst with }
    shows := fun n hn => (h.shows n hn).imp fun _ hq => { hq with } }

theorem Inv.reset (h : s.Inv) : s.reset.Inv where
  deliver := Nat.zero_lt_succ 2
  started hd := absurd rfl hd
  chr hf := by cases hf
  mapped := h.mapped
  booted := h.booted
  ready := h.ready.trans (by simp [Sys.reset])
  pending st hst := by
    simp only [Sys.reset, Option.mem_def, Option.map_eq_some_iff] at hst
    obtain ⟨st', hst', rfl⟩ := hst
    have hw := h.pending st' hst'
    exact ⟨hw.sub, hw.descr, by simp [Sys.reset, Renderer.reset]⟩
  building _ fb _ k hk := absurd hk (Nat.not_lt_zero k)
  shows n hn := by cases hn
  order m hm := by
    obtain ⟨hlt, -⟩ := h.order m hm
    refine ⟨?_, fun ha => by cases ha⟩
    unfold nextFrame at hlt ⊢
    cases hp : s.pending with
    | some st => simpa [Sys.reset, hp] using hlt
    | none =>
      simp only [hp] at hlt
      simp only [Sys.reset, hp, Renderer.reset, Option.map_none]
      split at hlt
      · exact Nat.lt_of_lt_of_le hlt (Nat.sub_le ..)
      · exact hlt
  idle _ := rfl
  pictures := h.pictures
  successive := h.successive
  refused := h.refused

theorem Inv.boot (h : s.Inv) (hv : s.cart.window offNmiVersion ≠ 0) :
    ({ s with console := s.console.boot s.cart, shown := none } : Sys).Inv :=
  { h with
    booted := fun _ => boot_maps (h.mapped hv)
    pending := fun st hst => by
      have hw := h.pending st hst
      obtain ⟨fb, hfb, hd, hheld⟩ := hw.descr
      exact ⟨hw.sub, ⟨fb, hfb, hd, fun k hk => boot_keeps (hheld k hk)⟩, hw.next⟩
    building := fun hp fb hfb k hk => boot_keeps (h.building hp fb hfb k hk)
    shows := fun n hn => by cases hn }

/-- The framebuffers once there is one to deliver from. -/
def aheadFrames (raster : Raster) (s : Sys) : List Framebuffer :=
  if s.renderer.haveFrame = true then s.frames else s.frames ++ [s.renderer.draws raster]

theorem Inv.ahead (h : s.Inv) (raster : Raster) :
    ∃ fb, (s.aheadFrames raster).getLast? = some fb ∧
      (s.renderer.ahead raster).chr = encodeChr fb ∧
        (s.renderer.ahead raster).chr2 = encodeChr2 fb := by
  unfold aheadFrames Renderer.ahead
  by_cases hf : s.renderer.haveFrame = true
  · rw [if_pos hf, if_pos hf]
    exact h.chr hf
  · rw [if_neg hf, if_neg hf]
    exact ⟨s.renderer.draws raster, by simp, rfl, rfl⟩

theorem ahead_fields (r : Renderer) :
    (r.ahead raster).deliver = r.deliver ∧ (r.ahead raster).initDone = r.initDone ∧
      (r.ahead raster).buildParity = r.buildParity ∧ (r.ahead raster).haveFrame = true := by
  unfold Renderer.ahead
  split
  · rename_i hf
    exact ⟨rfl, rfl, rfl, hf⟩
  · exact ⟨rfl, rfl, rfl, rfl⟩

/-- The third that a render call stages, and the parity. -/
def stagedSub (s : Sys) : Nat := if s.renderer.initDone = true then s.renderer.deliver else 0

def stagedParity (s : Sys) : Parity :=
  if s.renderer.initDone = true then s.renderer.buildParity else .b

theorem Inv.stagedSub_eq (h : s.Inv) : s.stagedSub = s.renderer.deliver := by
  unfold stagedSub
  split
  · rfl
  · rename_i hi
    by_contra hne
    exact hi (h.started (Ne.symm hne)).2

theorem render_renderer :
    (s.render raster isr).renderer.haveFrame = true ∧
      (s.render raster isr).renderer.initDone = true ∧
      (if s.stagedSub + 1 < nBands then
        (s.render raster isr).renderer.deliver = s.stagedSub + 1 ∧
          (s.render raster isr).renderer.buildParity = s.stagedParity ∧
          (s.render raster isr).renderer.chr = (s.renderer.ahead raster).chr ∧
          (s.render raster isr).renderer.chr2 = (s.renderer.ahead raster).chr2 ∧
          (s.render raster isr).frames = s.aheadFrames raster
      else
        (s.render raster isr).renderer.deliver = 0 ∧
          (s.render raster isr).renderer.buildParity = s.stagedParity.flip ∧
          ∃ fb, (s.render raster isr).renderer.chr = encodeChr fb ∧
            (s.render raster isr).renderer.chr2 = encodeChr2 fb ∧
            (s.render raster isr).frames = s.aheadFrames raster ++ [fb]) := by
  obtain ⟨hd, hi, hp, hf⟩ := @ahead_fields raster s.renderer
  unfold Sys.render Renderer.render stagedSub stagedParity
  dsimp only
  rw [hi, hd]
  by_cases hinit : s.renderer.initDone = true
  · simp only [if_pos hinit]
    unfold Renderer.advance
    rw [hd]
    by_cases hlt : s.renderer.deliver + 1 < nBands
    · simp only [if_pos hlt]
      exact ⟨hf, hi.trans hinit, trivial, hp, trivial, trivial, rfl⟩
    · simp only [if_neg hlt]
      exact ⟨rfl, hi.trans hinit, rfl, congrArg Parity.flip hp, _, rfl, rfl, rfl⟩
  · simp only [if_neg hinit]
    have hlt : 0 + 1 < nBands := by decide
    unfold Renderer.advance
    simp only [if_pos hlt]
    exact ⟨hf, trivial, trivial, trivial, trivial, trivial, rfl⟩

/-- The window that a render call stages into. -/
def stagedOver (isr : Isr) (s : Sys) : CartWindow :=
  if s.renderer.initDone = true then s.cart else stageInit isr s.cart

theorem render_cart :
    (s.render raster isr).cart = stageThird (s.renderer.ahead raster).chr (s.renderer.ahead raster).chr2
      (deliverOrder s.stagedSub) s.stagedParity (s.stagedOver isr) := by
  obtain ⟨hd, hi, hp, -⟩ := @ahead_fields raster s.renderer
  unfold Sys.render Renderer.render stagedSub stagedParity stagedOver
  dsimp only
  rw [hi]
  by_cases hinit : s.renderer.initDone = true
  · simp only [if_pos hinit, hd, hp]
  · simp only [if_neg hinit]

theorem render_pending : (s.render raster isr).pending =
    some ⟨(s.aheadFrames raster).length - 1, s.stagedSub, s.stagedParity, false⟩ := by
  obtain ⟨hd, hi, hp, -⟩ := @ahead_fields raster s.renderer
  unfold Sys.render stagedSub stagedParity aheadFrames
  dsimp only
  rw [hi, hd, hp]

theorem render_frames {n : Nat} {fb : Framebuffer} (hfb : s.frames[n]? = some fb) :
    (s.render raster isr).frames[n]? = some fb := by
  have hlt : n < s.frames.length := (List.getElem?_eq_some_iff.mp hfb).1
  have hahead : (s.aheadFrames raster)[n]? = some fb := by
    unfold aheadFrames
    split
    · exact hfb
    · rwa [List.getElem?_append_left hlt]
  have hr := @render_renderer raster isr s
  split at hr
  · obtain ⟨-, -, -, -, -, -, hframes⟩ := hr
    rwa [hframes]
  · obtain ⟨-, -, -, -, fb', -, -, hframes⟩ := hr
    rwa [hframes, List.getElem?_append_left (List.getElem?_eq_some_iff.mp hahead).1]

theorem Inv.render (h : s.Inv) (hok : s.cart.frameReady = 0) : (s.render raster isr).Inv := by
  have hnone := h.ready.mp hok
  obtain ⟨hframe, hinit, hr⟩ := @render_renderer raster isr s
  obtain ⟨fb, hlast, hchr, hchr2⟩ := h.ahead raster
  have hpend := @render_pending raster isr s
  have hcart := @render_cart raster isr s
  have hsub := h.stagedSub_eq
  have hvram : (s.render raster isr).console = s.console := rfl
  have hne : (s.aheadFrames raster).length ≠ 0 := by
    intro h0
    rw [List.eq_nil_of_length_eq_zero h0] at hlast
    cases hlast
  have hget : (s.aheadFrames raster)[(s.aheadFrames raster).length - 1]? = some fb := by
    rw [← List.getLast?_eq_getElem?]
    exact hlast
  have hframes : (s.render raster isr).frames[(s.aheadFrames raster).length - 1]? = some fb := by
    split at hr
    · obtain ⟨-, -, -, -, hfr⟩ := hr
      rwa [hfr]
    · obtain ⟨-, -, fb', -, -, hfr⟩ := hr
      rw [hfr, List.getElem?_append_left (by omega)]
      exact hget
  have hmapped : s.renderer.initDone = true ∨ Mapped (s.stagedOver isr) := by
    by_cases hi : s.renderer.initDone = true
    · exact .inl hi
    · refine .inr ?_
      unfold stagedOver
      rw [if_neg hi]
      exact stageInit_mapped isr s.cart
  have hlay := stage_layout
  refine
    { deliver := ?_
      started := fun _ => ⟨hframe, hinit⟩
      chr := fun _ => ?_
      mapped := fun hv => ?_
      booted := h.booted
      ready := ?_
      pending := fun st hst => ?_
      building := fun hp => ?_
      shows := fun n hn => ?_
      order := fun m hm => ?_
      idle := fun hf => ?_
      pictures := fun r hr => ?_
      successive := h.successive
      refused := ?_ }
  · split at hr
    · rename_i hlt
      rw [hr.1]
      exact hlt
    · rw [hr.1]
      exact Nat.zero_lt_succ 2
  · split at hr
    · obtain ⟨-, -, h1, h2, hfr⟩ := hr
      exact ⟨fb, hfr ▸ hlast, h1.trans hchr, h2.trans hchr2⟩
    · obtain ⟨-, -, fb', h1, h2, hfr⟩ := hr
      exact ⟨fb', by rw [hfr]; simp, h1, h2⟩
  · have hag := stageThird_agree (s.renderer.ahead raster).chr (s.renderer.ahead raster).chr2
      (deliverOrder s.stagedSub) s.stagedParity (s.stagedOver isr)
    rw [hcart] at hv ⊢
    refine Mapped.agree ?_ fun a ha => hag a (.inl ⟨ha.1, by omega⟩)
    rcases hmapped with hi | hm
    · rw [hag _ (.inr rfl)] at hv
      unfold stagedOver at hv ⊢
      rw [if_pos hi] at hv ⊢
      exact h.mapped hv
    · exact hm
  · rw [hpend, hcart, stageThird_ready]
    simp
  · rw [hpend] at hst
    cases hst
    refine ⟨hsub ▸ h.deliver, ⟨fb, hframes, ?_, fun k hk => ?_⟩, ?_⟩
    · rw [hcart, hchr, hchr2]
      exact stageThird_descr ..
    · have hd : s.renderer.deliver ≠ 0 := by
        intro h0
        rw [hsub, h0] at hk
        exact Nat.not_lt_zero k hk
      obtain ⟨hhave, hi⟩ := h.started hd
      have hfr : s.aheadFrames raster = s.frames := if_pos hhave
      have hpar : s.stagedParity = s.renderer.buildParity := if_pos hi
      rw [hfr] at hlast
      rw [hvram]
      simp only [hpar]
      exact h.building hnone fb hlast k (hsub ▸ hk)
    · refine (if_neg (by simp)).mpr ⟨hframe, hinit, ?_⟩
      split at hr
      · rename_i hlt
        rw [if_pos hlt]
        refine ⟨hr.1, ?_, hr.2.1⟩
        rw [hr.2.2.2.2]
        exact Nat.sub_add_cancel (Nat.pos_of_ne_zero hne)
      · rename_i hlt
        rw [if_neg hlt]
        obtain ⟨hd, hp, fb', -, -, hfr⟩ := hr
        refine ⟨hd, ?_, hp⟩
        have hlen : (s.aheadFrames raster).length - 1 + 2 = (s.aheadFrames raster).length + 1 := by omega
        rw [hfr, List.length_append, List.length_singleton]
        exact hlen
  · rw [hpend] at hp
    cases hp
  · obtain ⟨q, hq⟩ := h.shows n hn
    obtain ⟨fb', hfb', hheld⟩ := hq.held
    refine ⟨q, ⟨fb', render_frames hfb', hheld⟩, hq.displays, hq.booted, hinit, ?_, ?_⟩
    · have hother := hq.other
      unfold filling at hother ⊢
      rw [hnone] at hother
      rw [hpend]
      exact (if_pos hq.initDone).trans hother
    · intro st hst
      rw [hpend] at hst
      cases hst
      rfl
  · obtain ⟨hlt, hnext⟩ := h.order m hm
    have heq : (s.render raster isr).nextFrame = s.nextFrame := by
      unfold nextFrame
      rw [hpend, hnone]
      simp only
      unfold aheadFrames
      split
      · rfl
      · rw [List.length_append, List.length_singleton, Nat.add_sub_cancel]
    rw [heq]
    exact ⟨hlt, hnext⟩
  · rw [hframe] at hf
    cases hf
  · obtain ⟨fb', hfb', hpic⟩ := h.pictures r hr
    exact ⟨fb', render_frames hfb', hpic⟩
  · show s.overwritten + (if s.cart.frameReady = 0 then 0 else 1) = 0
    rw [if_pos hok, h.refused]

theorem deliverOrder_top {k : Nat} (hk : k < nBands) : deliverOrder k = .top ↔ ¬k + 1 < nBands := by
  have hn : nBands = 3 := rfl
  obtain rfl | rfl | rfl : k = 0 ∨ k = 1 ∨ k = 2 := by omega
  all_goals decide

theorem deliverOrder_ne {j k : Nat} (hj : j < k) (hk : k < nBands) :
    deliverOrder k ≠ deliverOrder j := by
  have hn : nBands = 3 := rfl
  obtain ⟨rfl, rfl⟩ | ⟨rfl, rfl⟩ | ⟨rfl, rfl⟩ : (j = 0 ∧ k = 1) ∨ (j = 0 ∧ k = 2) ∨ (j = 1 ∧ k = 2) := by
    omega
  all_goals decide

theorem exists_deliverOrder (third : Third) : ∃ k < nBands, deliverOrder k = third := by
  cases third with
  | bot => exact ⟨0, by decide, rfl⟩
  | mid => exact ⟨1, by decide, rfl⟩
  | top => exact ⟨2, by decide, rfl⟩

theorem Waits.held (hw : s.Waits st) : ∃ fb, s.frames[st.frame]? = some fb ∧
    Descr s.cart fb (deliverOrder st.sub) st.parity ∧
      ∀ k < st.sub + 1, HoldsThird (s.console.finish s.cart).vram fb (deliverOrder k) st.parity := by
  obtain ⟨fb, hfb, hd, hheld⟩ := hw.descr
  refine ⟨fb, hfb, hd, fun k hk => ?_⟩
  rcases Nat.lt_succ_iff_lt_or_eq.mp hk with hlt | rfl
  · exact finish_keeps hd (.inl (deliverOrder_ne hlt hw.sub)) (hheld k hlt)
  · exact finish_holds hd

theorem Parity.ne_flip (p : Parity) : p.flip ≠ p := by
  cases p <;> decide

theorem Inv.strobe_joins (h : s.Inv) (hp : s.pending = some st) (hlt : st.sub + 1 < nBands) :
    s.strobe.Inv := by
  have hw := h.pending st hp
  obtain ⟨fb, hfb, hd, hheld⟩ := hw.held
  have htop : deliverOrder st.sub ≠ .top := fun ht => (deliverOrder_top hw.sub).mp ht hlt
  have hready : ¬s.cart.frameReady = 0 := fun h0 => by
    rw [h.ready.mp h0] at hp
    cases hp
  have hs : s.strobe = { s with
      console := s.console.finish s.cart
      cart := Copro.frameDoneCounters .empty s.cart
      pending := none } := by
    unfold strobe
    rw [if_neg hready]
    dsimp only
    rw [if_pos ((window_reveal hd).2 htop)]
  have hnext := hw.next
  rw [hs]
  refine
    { h with
      booted := fun hb => ?_
      ready := ⟨fun _ => rfl, fun _ => rfl⟩
      pending := fun st' hst' => by cases hst'
      building := fun _ fb' hfb' k hk => ?_
      shows := fun n hn => ?_
      order := fun m hm => ?_ }
  · exact finish_maps hd (h.booted (finish_booted.symm.trans hb))
  · split at hnext
    · rw [hnext.1] at hk
      exact absurd hk (Nat.not_lt_zero k)
    · obtain ⟨-, -, hn⟩ := hnext
      obtain ⟨hdel, hlen, hpar⟩ := hn
      have heq : fb' = fb := by
        rw [List.getLast?_eq_getElem?, ← hlen, Nat.add_sub_cancel, hfb, Option.some.injEq] at hfb'
        exact hfb'.symm
      subst heq
      rw [hpar]
      exact hheld k (hdel ▸ hk)
  · obtain ⟨q, hq⟩ := h.shows n hn
    obtain ⟨fb', hfb', hall⟩ := hq.held
    have hother := hq.other
    have hfresh := hq.fresh st hp
    unfold filling at hother
    rw [hp] at hother
    simp only at hother
    rw [hfresh, if_neg (by decide), if_pos hlt] at hnext
    refine ⟨q, ⟨fb', hfb', fun third => ?_⟩, finish_regs hd htop hq.displays,
      finish_booted.trans hq.booted, hq.initDone, ?_, fun st' hst' => by cases hst'⟩
    · refine finish_keeps hd ?_ (hall third)
      refine .inr ⟨htop, ?_⟩
      rw [hother]
      exact Parity.ne_flip q
    · exact hnext.2.2.2.2.trans hother
  · obtain ⟨hm1, hm2⟩ := h.order m hm
    unfold nextFrame at hm1 hm2 ⊢
    rw [hp] at hm1 hm2
    simp only at hm1 hm2 ⊢
    have hlen := (List.getElem?_eq_some_iff.mp hfb).1
    split at hnext
    · obtain ⟨-, hhave⟩ := hnext
      rw [hhave, if_neg (by decide)]
      exact ⟨Nat.lt_trans hm1 hlen, fun ha => by rw [h.idle hhave] at ha; cases ha⟩
    · obtain ⟨hhave, -, hn⟩ := hnext
      have hl := hn.2.1
      rw [hhave, if_pos rfl, ← hl, Nat.add_sub_cancel]
      exact ⟨hm1, hm2⟩

theorem Inv.strobe_reveals (h : s.Inv) (hboot : s.console.booted = true) (hp : s.pending = some st)
    (hlt : ¬st.sub + 1 < nBands) : s.strobe.Inv := by
  have hw := h.pending st hp
  obtain ⟨fb, hfb, hd, hheld⟩ := hw.held
  have htop : deliverOrder st.sub = .top := (deliverOrder_top hw.sub).mpr hlt
  have hready : ¬s.cart.frameReady = 0 := fun h0 => by
    rw [h.ready.mp h0] at hp
    cases hp
  have hreveal := ((window_reveal hd).1 htop).1
  have hs : s.strobe = { s with
      console := s.console.finish s.cart
      cart := Copro.frameDoneCounters .empty s.cart
      pending := none
      shown := if st.stale then none else some st.frame
      reveals := s.reveals ++ [⟨st.frame, (s.console.finish s.cart).picture, !s.afterReset⟩]
      afterReset := st.stale } := by
    unfold strobe
    rw [if_neg hready]
    dsimp only
    rw [if_neg (by rw [hreveal]; decide), hp]
    rfl
  have hall : ∀ third, HoldsThird (s.console.finish s.cart).vram fb third st.parity := by
    intro third
    obtain ⟨k, hk, rfl⟩ := exists_deliverOrder third
    exact hheld k (by omega)
  have hdisp : (s.console.finish s.cart).Displays st.parity := finish_displays (htop ▸ hd)
  have hmaps : HoldsMaps (s.console.finish s.cart).vram := finish_maps hd (h.booted hboot)
  have hlen := (List.getElem?_eq_some_iff.mp hfb).1
  have hnext := hw.next
  rw [hs]
  refine
    { h with
      booted := fun _ => hmaps
      ready := ⟨fun _ => rfl, fun _ => rfl⟩
      pending := fun st' hst' => by cases hst'
      building := fun _ fb' hfb' k hk => ?_
      shows := fun n hn => ?_
      order := fun m hm => ?_
      idle := fun hf => ?_
      pictures := fun r hr => ?_
      successive := ?_ }
  · have hzero : s.renderer.deliver = 0 := by
      split at hnext
      · exact hnext.1
      · exact hnext.2.2.1
    rw [hzero] at hk
    exact absurd hk (Nat.not_lt_zero k)
  · simp only at hn
    split at hn
    · cases hn
    · rename_i hstale
      cases hn
      rw [if_neg hstale, if_neg hlt] at hnext
      exact ⟨st.parity, ⟨fb, hfb, hall⟩, hdisp, finish_booted.trans hboot, hnext.2.1,
        hnext.2.2.2.2, fun st' hst' => by cases hst'⟩
  · simp only [List.getLast?_append, List.getLast?_singleton, Option.some_or, Option.mem_some_iff] at hm
    subst hm
    unfold nextFrame
    simp only
    split at hnext
    · rename_i hstale
      obtain ⟨-, hhave⟩ := hnext
      rw [hhave, if_neg (by decide)]
      exact ⟨hlen, fun ha => by rw [hstale] at ha; cases ha⟩
    · obtain ⟨hhave, -, hn⟩ := hnext
      have hl := hn.2.1
      rw [hhave, if_pos rfl]
      omega
  · split at hnext
    · assumption
    · rw [hnext.1] at hf
      cases hf
  · rcases List.mem_append.mp hr with hr | hr
    · exact h.pictures r hr
    · obtain rfl := List.mem_singleton.mp hr
      exact ⟨fb, hfb, picture_is hmaps hall hdisp⟩
  · refine h.successive.append (.singleton _) fun m hm r hr => ?_
    obtain rfl := Option.some.inj hr
    obtain ⟨hm1, hm2⟩ := h.order m hm
    unfold nextFrame at hm1 hm2
    rw [hp] at hm1 hm2
    exact ⟨hm1, fun hfresh => hm2 (by simpa using hfresh)⟩

theorem Inv.strobe (h : s.Inv) (hboot : s.console.booted = true) : s.strobe.Inv := by
  cases hp : s.pending with
  | none =>
    unfold Sys.strobe
    rw [if_pos (h.ready.mpr hp)]
    exact h
  | some st =>
    by_cases hlt : st.sub + 1 < nBands
    · exact h.strobe_joins hp hlt
    · exact h.strobe_reveals hboot hp hlt

theorem step_inv (h : s.Inv) {e : Event} (hok : s.Consumed e)
    (hs : s.step raster isr e = some s') : s'.Inv := by
  cases e with
  | reset =>
    cases hs
    exact h.reset
  | camera cam | add meshId | move o x y z | rotate o x y z | showObject o visible =>
    cases hs
    exact h.onScene _
  | render =>
    cases hs
    exact h.render hok
  | boot =>
    simp only [step, Option.ite_none_right_eq_some, Option.some.injEq] at hs
    obtain ⟨⟨hv, -⟩, rfl⟩ := hs
    exact h.boot hv
  | strobe =>
    simp only [step, Option.ite_none_right_eq_some, Option.some.injEq] at hs
    obtain ⟨hboot, rfl⟩ := hs
    exact h.strobe hboot

/-- In every run whose render calls wait for the console, each reveal shows a complete frame. -/
theorem run_reveals {es : List Event} (hok : Meets (step raster isr) Consumed init es)
    (hrun : run (step raster isr) init es = some s) : s.Sound := by
  have hstep : ∀ s e s', Inv s → Consumed s e → step raster isr s e = some s' → Inv s' :=
    fun _ _ _ h hok hs => step_inv h hok hs
  have h : s.Inv := run_invariant hstep init_inv hok hrun
  exact h.sound

instance decidableConsumed (s : Sys) : (e : Event) → Decidable (s.Consumed e)
  | .render => inferInstanceAs (Decidable (s.cart.frameReady = 0))
  | .reset | .camera _ | .add _ | .move .. | .rotate .. | .showObject .. | .boot | .strobe =>
    isTrue trivial

/-- A first frame of one colour, all later ones of another. -/
def flat : Raster := fun _ morph _ _ => if morph = 0 then 4 else 8

def noIsr : Isr := ⟨[], Nat.zero_le _⟩

theorem run_reveals_first : ∃ s, run (step flat noIsr) init
    [.render, .boot, .strobe, .render, .strobe, .render, .strobe] = some s ∧
      s.reveals.map (·.frame) = [0] ∧ s.Sound := by
  have hmap : (run (step flat noIsr) init [.render, .boot, .strobe, .render, .strobe, .render,
      .strobe]).map (fun s => s.reveals.map (·.frame)) = some [0] := by
    decide +kernel
  obtain ⟨s, hs, hr⟩ := Option.map_eq_some_iff.mp hmap
  exact ⟨s, hs, hr, run_reveals (by decide +kernel) hs⟩

/-- A second render call before the console has consumed the bottom third: the first reveal shows
the frame without it. -/
theorem frames_mixed : ¬∀ (raster : Raster) (isr : Isr) (es : List Event) (s : Sys),
    run (step raster isr) init es = some s → s.Sound := by
  intro h
  have hmap : (run (step flat noIsr) init [.render, .boot, .render, .strobe, .render, .strobe]).map
      (fun s => (s.reveals.map fun r => (r.frame, r.picture 0 199), s.frames[0]?.map (· 47760))) =
        some ([(0, 0, 0)], some 4) := by
    decide +kernel
  obtain ⟨s, hs, hr⟩ := Option.map_eq_some_iff.mp hmap
  obtain ⟨hreveals, hframe⟩ := Prod.ext_iff.mp hr
  obtain ⟨r, hr, hpic⟩ := List.map_eq_singleton_iff.mp hreveals
  obtain ⟨hn, hzero⟩ := Prod.ext_iff.mp hpic
  obtain ⟨fb, hfb, his⟩ := (h flat noIsr _ s hs).pictures r (by rw [hr]; exact List.mem_singleton_self r)
  simp only at hn hframe
  rw [hn] at hfb
  rw [hfb, Option.map_some, Option.some.injEq] at hframe
  have hpixel := congrArg Prod.fst ((his 0 199 (by decide) (by decide)).symm.trans hzero)
  have hindex : fb (199 * vw + 0) = 4 := hframe
  rw [hindex] at hpixel
  exact absurd hpixel (by decide)

end Sys

end Microgarbage.R3d
