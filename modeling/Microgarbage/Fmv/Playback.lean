import Microgarbage.Cart.Contents
import Microgarbage.Fmv.Player

/-!
# What the player shows

Over every interleaving of the worker and the console thread: the units of the clip come to the screen
in file order, the end is reported behind the last one, a frame that is being burst leaves alone what
is displayed, and nothing is freed under the console thread. The teardown waits for one tick and not
for the console thread, so the last of these, and with it the others, needs that no step of the
console thread is in the stream when it comes.
-/

namespace Microgarbage.Fmv

open Lib Cart CartWindow List
open Function (update update_of_ne update_self)

/-! ## The property -/

/-- The units in file order, each once, and the current one again only when the ring was found empty
before the end of the stream. -/
inductive InOrder (clip : Clip) : List Promotion → Prop where
  | nil : InOrder clip []
  | popped {log : List Promotion} : InOrder clip log → popped log < clip.count →
    InOrder clip (.popped (clip.frame (popped log)) :: log)
  | repeated {log : List Promotion} {n : Nat} : InOrder clip log → popped log = n + 1 →
    InOrder clip (.repeated (clip.frame n) true false :: log)

namespace Sys

variable (s : Sys)

/-- The sub-frame of unit `n` that is loaded. -/
def subframe (n : Nat) : SubFrame := (s.clip.frame n).subframes.getD s.player.sfIdx []

/-- The window while unit `n` is being burst. -/
structure Bursting (n : Nat) : Prop where
  slots : ∀ i < 8, s.copro.cart.slotAt i = slotBytes (s.subframe n) i
  batch : s.copro.cart.window.bytes offPpuBatch 32 = (s.clip.frame n).ppuBatch.bytes
  /-- Nothing that is displayed is written. -/
  apart : ∀ slot ∈ s.subframe n, ∀ a, vramWords slot a →
    ¬displayedWords (s.clip.frame n).ppuBatch (fmvNtiles + 1) a
  /-- What is displayed are the buffers that the unit before was burst to. -/
  shows : ∀ m, n = m + 1 → ∀ a, displayedWords (s.clip.frame n).ppuBatch fmvNtiles a →
    ∃ sf ∈ (s.clip.frame m).subframes, ∃ slot ∈ sf, vramWords slot a
  /-- Its palette is what the background's colors are loaded from. -/
  palette : s.copro.cart.window.bytes offCgram fmvCgramBytes =
    (s.clip.palette n).bytes 0 fmvCgramBytes
  colors : ∀ slot ∈ s.subframe n, ∀ k < fmvCgramBytes / 2, cgramColors slot k →
    slot.prep = 0 ∧ slot.src.toNat = offCgram ∧ slot.transferBytes = fmvCgramBytes

/-- Every sub-frame of the first `n` units has been burst. -/
def BurstUpTo (n : Nat) : Prop := ∀ m < n, ∀ k < 4, (m, k) ∈ s.bursts

structure Sound : Prop where
  order : InOrder s.clip s.log
  complete : s.BurstUpTo (popped s.log - 1)
  ended : s.player.state = .eof → popped s.log = s.clip.count ∧ s.BurstUpTo s.clip.count
  bursting : s.player.active = true → s.player.kicked = true →
    ∃ n, popped s.log = n + 1 ∧ s.Bursting n
  safe : s.fault = false

/-- What an event must leave to the console thread. A teardown comes when the console thread is in
no call into the player, and so does the opening of a clip; the clip has a descriptor of its own and
a size that fits into 32 bits, and its reads fail at its end only. -/
def Ok : Event → Prop
  | .start fd limit _ =>
    (s.player.active = true → s.console = .idle) ∧
      (¬(s.player.active = true ∧ s.player.fd = some fd) →
        (∀ h, (s.slots h).inUse = true → (s.slots h).ctx.fd ≠ fd) ∧
          ∀ header ∈ s.header fd limit,
            s.console = .idle ∧ header.2 + fmvVideoBlockBytes < 0x100000000)
  | .tick => s.player.stopPending = true → s.console = .idle
  | .shutdown => s.console = .idle
  | .produce h limit =>
    let c := (s.slots h).ctx
    let f := s.fileAt c.fd
    c.frameN < c.nframes → c.unitBytes ≤ f.size - f.pos →
      (f.readFull c.unitBytes limit).1 = c.unitBytes
  | _ => True

end Sys

/-! ## The window -/

/-- Where the window says what is burst and displayed. -/
def shownAt (a : Nat) : Prop := a < fmvCgramBytes ∨ (offDmaList ≤ a ∧ a < offPpuBatch + 32)

/-- Sub-frame `k` of unit `n` is loaded. -/
structure Loaded (clip : Clip) (n k : Nat) (w : CartWindow) : Prop where
  slots : ∀ i < 8, w.slotAt i = slotBytes ((clip.frame n).subframes.getD k []) i
  batch : w.window.bytes offPpuBatch 32 = (clip.frame n).ppuBatch.bytes
  palette : w.window.bytes offCgram fmvCgramBytes = (clip.palette n).bytes 0 fmvCgramBytes

section Window

variable {clip : Clip} {n k : Nat} {w w' : CartWindow} {p : Player}

theorem window_layout : offDmaList = 0x7808 ∧ offPpuBatch = 0x7848 ∧ offSiphonConfig = 0x79BB ∧
    offSiphonHtime = 0x79C2 ∧ offSprOam = 0x7B40 ∧ fmvCgramBytes = 256 ∧ offCgram = 0 ∧
      cartWindowBytes = 0x10000 ∧ tmBytes = 2048 ∧ chrUsed = 24960 :=
  ⟨rfl, rfl, rfl, rfl, rfl, rfl, rfl, rfl, rfl, rfl⟩

theorem Loaded.agree (h : Loaded clip n k w) (ha : AgreeOn shownAt w w') : Loaded clip n k w' where
  slots i hi := by
    have hl := window_layout
    refine Eq.trans ?_ (h.slots i hi)
    exact ha.bytes fun j hj => .inr ⟨by omega, by omega⟩
  batch := by
    have hl := window_layout
    exact (ha.bytes fun j hj => .inr ⟨by omega, by omega⟩).trans h.batch
  palette := by
    have hl := window_layout
    exact (ha.bytes fun j hj => .inl (by omega)).trans h.palette

theorem loadBlob_shown {off : Nat} {src : List Byte} (h : offPpuBatch + 32 ≤ off) :
    AgreeOn shownAt w (w.loadBlob off src) := by
  have hl := window_layout
  refine loadBlob_agree fun a ha => .inl ?_
  unfold shownAt at ha
  omega

theorem publishSiphonConfig_shown (i : Nat) : AgreeOn shownAt w (p.publishSiphonConfig i w) :=
  (loadBlob_shown (by decide)).trans (loadBlob_shown (by decide))

theorem overlayWriteOam_shown (oam : List Byte) : AgreeOn shownAt w (overlayWriteOam oam w) :=
  loadBlob_shown (by decide)

theorem writeSubframe_loaded (hb : w.window.bytes offPpuBatch 32 = (clip.frame n).ppuBatch.bytes)
    (hp : w.window.bytes offCgram fmvCgramBytes = (clip.palette n).bytes 0 fmvCgramBytes) (j : Nat) :
    Loaded clip n j (w.writeSubframe ((clip.frame n).subframes.getD j [])) := by
  have hl := window_layout
  refine ⟨fun i hi => writeSubframe_slotAt _ hi, ?_, ?_⟩
  · refine Eq.trans (AgreeOn.bytes (P := fun a => offPpuBatch ≤ a) ?_ fun i _ => by omega) hb
    exact writeSubframe_agree _ fun a ha => by omega
  · refine Eq.trans (AgreeOn.bytes (P := fun a => a < fmvCgramBytes) ?_ fun i _ => by omega) hp
    exact writeSubframe_agree _ fun a ha => by omega

theorem length_payload : (clip.frame n).payload.length = 27264 := by
  have hl := window_layout
  unfold Clip.frame completeFrame tilemap
  simp only [length_append, Mem.length_bytes, length_map, length_range]
  omega

theorem payload_palette :
    (clip.frame n).payload.take fmvCgramBytes = (clip.palette n).bytes 0 fmvCgramBytes := by
  unfold Clip.frame completeFrame
  dsimp only
  rw [append_assoc, take_append_of_le_length (by simp), take_of_length_le (by simp)]

theorem promoteCurrent_loaded (h : p.cur = clip.frame n) : Loaded clip n 0 (p.promoteCurrent w) := by
  have hl := window_layout
  unfold Player.promoteCurrent
  rw [h]
  have hlen : (clip.frame n).payload.length = 27264 := length_payload
  have hload := @loadBlob_bytes w 0 (clip.frame n).payload (by omega)
  generalize hw : w.loadBlob 0 (clip.frame n).payload = w₀ at hload ⊢
  have hpal : w₀.window.bytes 0 fmvCgramBytes = (clip.palette n).bytes 0 fmvCgramBytes := by
    rw [← payload_palette, ← hload, hlen, Mem.bytes_take _ _ (by omega)]
  refine writeSubframe_loaded ?_ ?_ 0
  · refine ((publishSiphonConfig_shown 0).bytes fun i hi => .inr ⟨by omega, by omega⟩).trans ?_
    exact Mem.bytes_copy ..
  · refine ((publishSiphonConfig_shown 0).bytes fun i hi => .inl (by omega)).trans ?_
    refine Eq.trans (AgreeOn.bytes (P := fun a => a < fmvCgramBytes) ?_ fun i _ => by omega) hpal
    exact setPpuBatch_agree fun a ha => .inl (by omega)

end Window

/-! ## The invariant -/

/-- The slots in use have engines, files and read buffers of their own. -/
structure Stored (slots : StreamHandle → StreamSlot) (files : Nat → Option OpenFile)
    (engines : List Nat) (nextEngine : Nat) : Prop where
  engine : ∀ h, (slots h).inUse = true → (slots h).ctx.dma ∈ engines
  within : ∀ h, (slots h).inUse = true → (slots h).ctx.Within
  fresh : ∀ e ∈ engines, e < nextEngine
  opened : ∀ h, (slots h).inUse = true → (files (slots h).ctx.fd).isSome = true
  distinct : ∀ h h', (slots h).inUse = true → (slots h').inUse = true → h ≠ h' →
    (slots h).ctx.fd ≠ (slots h').ctx.fd ∧ (slots h).ctx.dma ≠ (slots h').ctx.dma

/-- The stream of the clip: `n` frames have been taken out of its ring, the ring holds the next ones,
and the producer stands behind them in the file. -/
structure Session (slot : StreamSlot) (files : Nat → Option OpenFile) (fd dma : Option Nat)
    (clip : Clip) (n : Nat) : Prop where
  inUse : slot.inUse = true
  fd_eq : fd = some slot.ctx.fd
  dma_eq : dma = some slot.ctx.dma
  file : slot.eof = false → ∃ f, files slot.ctx.fd = some f ∧ clip.At slot.ctx f
  ring : slot.ring = (List.range' n slot.ring.length).map clip.frame
  frameN : slot.ctx.frameN = n + slot.ring.length
  le : slot.ctx.frameN ≤ clip.count
  eof : slot.eof = true → slot.ctx.frameN = clip.count

theorem Session.head {slot : StreamSlot} {files : Nat → Option OpenFile} {fd dma : Option Nat}
    {clip : Clip} {n : Nat} (h : Session slot files fd dma clip n) {f : MgCompleteFrame}
    {rest : List MgCompleteFrame}
    (hr : slot.ring = f :: rest) :
    f = clip.frame n ∧ rest = (List.range' (n + 1) rest.length).map clip.frame ∧ n < clip.count := by
  have hring := h.ring
  have hn := h.frameN
  have hle := h.le
  rw [hr, length_cons] at hring hn
  rw [range'_succ, map_cons, List.cons.injEq] at hring
  exact ⟨hring.1, hring.2, by omega⟩

theorem Stored.setSlot {slots : StreamHandle → StreamSlot} {files : Nat → Option OpenFile}
    {engines : List Nat} {next : Nat} (h : Stored slots files engines next) {hd : StreamHandle}
    {slot : StreamSlot} (hs : (slot.inUse = true → (slots hd).inUse = true) ∧
      slot.ctx.fd = (slots hd).ctx.fd ∧ slot.ctx.dma = (slots hd).ctx.dma ∧
        ((slots hd).ctx.Within → slot.ctx.Within)) :
    Stored (update slots hd slot) files engines next := by
  have key : ∀ h', ((update slots hd slot h').inUse = true → (slots h').inUse = true) ∧
      (update slots hd slot h').ctx.fd = (slots h').ctx.fd ∧
      (update slots hd slot h').ctx.dma = (slots h').ctx.dma ∧
        ((slots h').ctx.Within → (update slots hd slot h').ctx.Within) := by
    intro h'
    by_cases he : h' = hd
    · subst he
      rw [update_self]
      exact hs
    · rw [update_of_ne he]
      exact ⟨id, rfl, rfl, id⟩
  refine ⟨fun h' hin => ?_, fun h' hin => ?_, h.fresh, fun h' hin => ?_, fun h₁ h₂ hi₁ hi₂ hne => ?_⟩
  · rw [(key h').2.2.1]
    exact h.engine h' ((key h').1 hin)
  · exact (key h').2.2.2 (h.within h' ((key h').1 hin))
  · rw [(key h').2.1]
    exact h.opened h' ((key h').1 hin)
  · rw [(key h₁).2.1, (key h₁).2.2.1, (key h₂).2.1, (key h₂).2.2.1]
    exact h.distinct h₁ h₂ ((key h₁).1 hi₁) ((key h₂).1 hi₂) hne

theorem Stored.release {slots : StreamHandle → StreamSlot} {files : Nat → Option OpenFile}
    {engines : List Nat} {next : Nat} (h : Stored slots files engines next) {hd : StreamHandle}
    (hin : (slots hd).inUse = true) :
    Stored (update slots hd { slots hd with inUse := false })
      (update files (slots hd).ctx.fd none) (engines.erase (slots hd).ctx.dma) next := by
  have hset : Stored (update slots hd { slots hd with inUse := false }) files engines next :=
    h.setSlot ⟨fun hf => (by cases hf), rfl, rfl, id⟩
  have hother : ∀ h', (update slots hd { slots hd with inUse := false } h').inUse = true →
      update slots hd { slots hd with inUse := false } h' = slots h' ∧
        (slots h').ctx.fd ≠ (slots hd).ctx.fd ∧ (slots h').ctx.dma ≠ (slots hd).ctx.dma := by
    intro h' hin'
    by_cases he : h' = hd
    · subst he
      rw [update_self] at hin'
      cases hin'
    · rw [update_of_ne he] at hin'
      exact ⟨update_of_ne he .., h.distinct h' hd hin' hin he⟩
  refine ⟨fun h' hin' => ?_, hset.within, fun e he => h.fresh e (mem_of_mem_erase he),
    fun h' hin' => ?_, hset.distinct⟩
  · obtain ⟨heq, -, hne⟩ := hother h' hin'
    refine (mem_erase_of_ne ?_).mpr (hset.engine h' hin')
    rw [heq]
    exact hne
  · obtain ⟨heq, hne, -⟩ := hother h' hin'
    have hopen := hset.opened h' hin'
    rw [heq] at hopen ⊢
    rw [update_of_ne hne]
    exact hopen

theorem Stored.register {slots : StreamHandle → StreamSlot} {files : Nat → Option OpenFile}
    {engines : List Nat} {next : Nat} (h : Stored slots files engines next) (hd : StreamHandle)
    {slot : StreamSlot} (hdma : slot.ctx.dma = next) (hw : slot.ctx.Within)
    (hopen : (files slot.ctx.fd).isSome = true)
    (hfd : ∀ h, (slots h).inUse = true → (slots h).ctx.fd ≠ slot.ctx.fd) :
    Stored (update slots hd slot) files (next :: engines) (next + 1) := by
  have hne : ∀ h', (slots h').inUse = true → (slots h').ctx.dma ≠ slot.ctx.dma := by
    intro h' hin
    have hlt := h.fresh _ (h.engine h' hin)
    omega
  refine ⟨fun h' hin => ?_, fun h' hin => ?_, fun e he => ?_, fun h' hin => ?_,
    fun h₁ h₂ hi₁ hi₂ hd12 => ?_⟩
  · by_cases he : h' = hd
    · rw [he, update_self, hdma]
      exact mem_cons_self ..
    · rw [update_of_ne he] at hin ⊢
      exact mem_cons_of_mem _ (h.engine h' hin)
  · by_cases he : h' = hd
    · rw [he, update_self]
      exact hw
    · rw [update_of_ne he] at hin ⊢
      exact h.within h' hin
  · rcases mem_cons.mp he with rfl | he
    · exact Nat.lt_succ_self _
    · exact Nat.lt_succ_of_lt (h.fresh e he)
  · by_cases he : h' = hd
    · rw [he, update_self]
      exact hopen
    · rw [update_of_ne he] at hin ⊢
      exact h.opened h' hin
  · by_cases he₁ : h₁ = hd
    · by_cases he₂ : h₂ = hd
      · exact absurd (he₁.trans he₂.symm) hd12
      · rw [update_of_ne he₂] at hi₂ ⊢
        rw [he₁, update_self]
        exact ⟨(hfd h₂ hi₂).symm, (hne h₂ hi₂).symm⟩
    · rw [update_of_ne he₁] at hi₁ ⊢
      by_cases he₂ : h₂ = hd
      · rw [he₂, update_self]
        exact ⟨hfd h₁ hi₁, hne h₁ hi₁⟩
      · rw [update_of_ne he₂] at hi₂ ⊢
        exact h.distinct h₁ h₂ hi₁ hi₂ hd12

theorem Session.congr_slot {slot slot' : StreamSlot} {files : Nat → Option OpenFile}
    {fd dma : Option Nat} {clip : Clip} {n : Nat} (he : slot = slot')
    (h : Session slot files fd dma clip n) : Session slot' files fd dma clip n := he ▸ h

namespace ConsolePc

/-- A call of the start-up. -/
def starting : ConsolePc → Bool
  | .asking q | .holding q _ => !q.next
  | .drained q _ => !(Query.eof q).next
  | _ => false

/-- The ring was found empty behind the current frame. -/
def starved : ConsolePc → Bool
  | .asking (.eof .next) | .holding (.eof .next) _ | .drained .next _ => true
  | _ => false

/-- The slot that a frame is about to be taken from. -/
def source : ConsolePc → Option StreamHandle
  | .holding (.pop _) h | .holding (.eof .next) h | .drained .next h => some h
  | _ => none

theorem starved_holding (q : Query) (h : StreamHandle) :
    (ConsolePc.holding q h).starved = (ConsolePc.asking q).starved := by
  cases q with
  | count | pop => rfl
  | eof q => cases q <;> rfl

theorem eq_of_source_holding {q : Query} {h h' : StreamHandle}
    (hs : (ConsolePc.holding q h).source = some h') : h = h' := by
  cases q with
  | count => cases hs
  | pop => exact Option.some.inj hs
  | eof q => cases q <;> first | exact Option.some.inj hs | cases hs

end ConsolePc

namespace Sys

variable (s : Sys)

/-- What the console thread may rely on at `pc`. -/
structure PcOk (pc : ConsolePc) : Prop where
  starting : pc.starting = true → s.player.kicked = false
  finishing : pc.finishing = true → s.player.kicked = true ∧ s.BurstUpTo (popped s.log)
  starved : pc.starved = true → s.sawEmpty = true
  source : ∀ h, pc.source = some h → s.player.videoH = some h
  flagged : ∀ h, pc = .drained .next h → (s.slots h).eof = true

/-- The current frame. -/
structure Current (n : Nat) : Prop where
  popped : popped s.log = n + 1
  cur : s.player.cur = s.clip.frame n
  sfIdx : s.player.sfIdx < 4
  bursts : ∀ k < s.player.sfIdx, (n, k) ∈ s.bursts
  loaded : s.player.active = true → Loaded s.clip n s.player.sfIdx s.copro.cart

structure Inv : Prop where
  stored : Stored s.slots s.files s.engines s.nextEngine
  session : ∀ h, s.player.videoH = some h →
    Session (s.slots h) s.files s.player.fd s.player.dma s.clip (popped s.log)
  closed : s.player.videoH = none →
    s.player.active = false ∧ s.player.kicked = false ∧ s.player.dma = none ∧ s.player.fd = none
  pending : s.player.stopPending = true → s.player.active = false
  unkicked : s.player.videoH ≠ none → s.player.kicked = false → s.log = []
  current : s.player.kicked = true → ∃ n, s.Current n
  order : InOrder s.clip s.log
  complete : s.BurstUpTo (popped s.log - 1)
  ended : s.player.state = .eof → popped s.log = s.clip.count ∧ s.BurstUpTo s.clip.count
  pc : s.PcOk s.console
  safe : s.fault = false

variable {s}

theorem Inv.sound (h : s.Inv) : s.Sound where
  order := h.order
  complete := h.complete
  ended := h.ended
  bursting ha hk := by
    obtain ⟨n, hn⟩ := h.current hk
    have hld := hn.loaded ha
    have hmem : s.subframe n ∈ (s.clip.frame n).subframes := by
      have hlen : (s.clip.frame n).subframes.length = 4 := rfl
      unfold subframe
      have hlt := hn.sfIdx
      rw [getD_eq_getElem?_getD, List.getElem?_eq_getElem (by omega)]
      exact getElem_mem _
    refine ⟨n, hn.popped, hld.slots, hld.batch, fun slot hs a ha' => completeFrame_apart hmem hs ha',
      ?_, hld.palette, fun slot hs k hk hc => completeFrame_colors hmem hs hc hk⟩
    rintro m rfl a ha'
    exact completeFrame_shows ha'
  safe := h.safe

variable {pc : ConsolePc}

theorem PcOk.outside (h₁ : pc.starting = false) (h₂ : pc.finishing = false)
    (h₃ : pc.starved = false) (h₄ : pc.source = none) : s.PcOk pc where
  starting h := absurd (h₁.symm.trans h) Bool.false_ne_true
  finishing h := absurd (h₂.symm.trans h) Bool.false_ne_true
  starved h := absurd (h₃.symm.trans h) Bool.false_ne_true
  source h hs := by
    rw [h₄] at hs
    cases hs
  flagged h hp := by
    subst hp
    cases h₂

theorem PcOk.idle (h : pc = .idle) : s.PcOk pc := h ▸ .outside rfl rfl rfl rfl

theorem init_inv (copro : Copro) : (init copro).Inv where
  stored := ⟨fun _ h => (by cases h), fun _ h => (by cases h), fun _ h => (by cases h),
    fun _ h => (by cases h), fun _ _ h => (by cases h)⟩
  session _ h := by cases h
  closed _ := ⟨rfl, rfl, rfl, rfl⟩
  pending h := by cases h
  unkicked h := absurd rfl h
  current h := by cases h
  order := .nil
  complete m hm := by cases hm
  ended h := by cases h
  pc := .outside rfl rfl rfl rfl
  safe := rfl

theorem PcOk.congr {s s' : Sys} (h : s.PcOk pc) (hk : s'.player.kicked = s.player.kicked)
    (hv : s'.player.videoH = s.player.videoH) (hl : s'.log = s.log) (hb : s'.bursts = s.bursts)
    (hsaw : s'.sawEmpty = s.sawEmpty) (hs : ∀ h, (s.slots h).eof = true → (s'.slots h).eof = true) :
    s'.PcOk pc where
  starting hp := hk.trans (h.starting hp)
  finishing hp := by
    unfold BurstUpTo
    rw [hk, hl, hb]
    exact h.finishing hp
  starved hp := hsaw.trans (h.starved hp)
  source h' hp := hv.trans (h.source h' hp)
  flagged h' hp := hs h' (h.flagged h' hp)

/-! ## The console thread -/

theorem Inv.goto (h : s.Inv) (hpc : s.PcOk pc) : (s.goto pc).Inv :=
  { h with current := fun hk => (h.current hk).imp fun _ hn => { hn with }, pc := { hpc with } }

theorem Inv.onCart (h : s.Inv) {f : CartWindow → CartWindow}
    (hf : AgreeOn shownAt s.copro.cart (f s.copro.cart)) : (s.onCart f).Inv :=
  { h with
      current := fun hk => (h.current hk).imp fun _ hn =>
        { hn with loaded := fun ha => (hn.loaded ha).agree hf }
      pc := h.pc.congr rfl rfl rfl rfl rfl fun _ => id }

theorem Inv.toIdle (h : s.Inv) : (s.goto .idle).Inv := h.goto (.outside rfl rfl rfl rfl)

theorem Inv.polledByte (h : (s.goto .idle).Inv) (byte : Byte) : (s.polledByte byte).Inv :=
  h.onCart (f := fun w => { w with frameReady := byte }) .refl

theorem frameDoneCounters_shown (adv : Advance) (w : CartWindow) :
    AgreeOn shownAt w (Copro.frameDoneCounters adv w) := by
  cases adv <;> exact .refl

theorem Inv.advanced (h : (s.goto .idle).Inv) (adv : Advance) : (s.advanced adv).Inv :=
  h.onCart (frameDoneCounters_shown adv _)

theorem Inv.audio (h : s.Inv) (voice started : Bool) (preroll : Nat) :
    Inv { s with player := { s.player with
      audioVoice := voice
      audioStarted := started
      preroll := preroll } } :=
  { h with
      current := fun hk => (h.current hk).imp fun _ hn => { hn with }
      pc := h.pc.congr rfl rfl rfl rfl rfl fun _ => id }

theorem Inv.openVoice (h : s.Inv) (voice : Bool) : (s.openVoice voice).Inv :=
  .polledByte (h.audio _ _ _).toIdle 0

theorem PcOk.startup (hk : s.player.kicked = false) (h₂ : pc.finishing = false)
    (h₃ : pc.starved = false) (h₄ : pc.source = none) : s.PcOk pc where
  starting _ := hk
  finishing h := absurd (h₂.symm.trans h) Bool.false_ne_true
  starved h := absurd (h₃.symm.trans h) Bool.false_ne_true
  source h hs := by
    rw [h₄] at hs
    cases hs
  flagged h hp := by
    subst hp
    cases h₂

theorem Inv.slotFor (h : s.Inv) : s.slotFor s.player.videoH = s.player.videoH := by
  unfold Sys.slotFor
  cases hv : s.player.videoH with
  | none => rfl
  | some hd =>
    have hin := (h.session hd hv).inUse
    simp [hin]

theorem kick_self (h : s.player.kicked = true) : s.kick = s := by
  unfold kick
  rw [← h]

theorem Inv.take (h : s.Inv) {hd : StreamHandle} {f : MgCompleteFrame} {rest : List MgCompleteFrame}
    (hh : s.player.videoH = some hd) (hr : (s.slots hd).ring = f :: rest)
    (hb : s.BurstUpTo (popped s.log)) :
    (((s.setSlot hd { s.slots hd with ring := rest }).promote f).kick.goto .idle).Inv := by
  have st := h.session hd hh
  obtain ⟨hf, hrest, hlt⟩ := st.head hr
  have hn := st.frameN
  rw [hr, length_cons] at hn
  refine ⟨?_, ?_, ?_, h.pending, ?_, ?_, ?_, hb, ?_, .outside rfl rfl rfl rfl, h.safe⟩
  · exact h.stored.setSlot ⟨id, rfl, rfl, id⟩
  · intro h' hh'
    obtain rfl : hd = h' := Option.some.inj (hh.symm.trans hh')
    have hslot : update s.slots hd { s.slots hd with ring := rest } hd =
      { s.slots hd with ring := rest } := update_self ..
    have hnext : (s.slots hd).ctx.frameN = popped s.log + 1 + rest.length := by omega
    exact .congr_slot hslot.symm
      { st with ring := hrest, frameN := hnext }
  · intro hnone
    exact absurd (hnone.symm.trans hh) (by simp)
  · intro _ hk
    cases hk
  · intro _
    exact ⟨popped s.log, rfl, hf, Nat.succ_pos 3, fun k hk => absurd hk (Nat.not_lt_zero k),
      fun _ => promoteCurrent_loaded hf⟩
  · exact hf ▸ .popped h.order hlt
  · intro he
    have hcount := (h.ended he).1
    omega

theorem Inv.repromote (h : s.Inv) (hk : s.player.kicked = true) (hsaw : s.sawEmpty = true)
    (hend : s.atEnd = false) : (s.repromote.goto .idle).Inv := by
  obtain ⟨n, hn⟩ := h.current hk
  refine { h with
      unkicked := fun _ hk' => absurd (hk.symm.trans hk') (by simp)
      current := fun _ => ?_
      order := ?_
      pc := .outside rfl rfl rfl rfl }
  · exact ⟨n, hn.popped, hn.cur, Nat.succ_pos 3, fun k hk => absurd hk (Nat.not_lt_zero k),
      fun _ => promoteCurrent_loaded hn.cur⟩
  · unfold Sys.repromote
    dsimp only [Sys.goto]
    rw [hsaw, hend, hn.cur]
    exact .repeated h.order hn.popped

theorem Inv.finish (h : s.Inv) (hcount : popped s.log = s.clip.count)
    (hb : s.BurstUpTo (popped s.log)) :
    (Sys.goto { s with player := { s.player with state := .eof } } .idle).Inv :=
  { h with
      current := fun hk => (h.current hk).imp fun _ hn => { hn with }
      ended := fun _ => ⟨hcount, hcount ▸ hb⟩
      pc := .outside rfl rfl rfl rfl }

theorem Inv.onCount (h : s.Inv) (hk : s.player.kicked = false) (voice : Bool) (avail : Nat)
    (q : CountQuery) : (s.onCount voice avail q).Inv := by
  cases q with
  | primed =>
    dsimp only [Sys.onCount]
    split
    · exact h.goto (.startup hk rfl rfl rfl)
    · exact h.openVoice voice
  | lookahead =>
    dsimp only [Sys.onCount]
    split
    · exact h.goto (.startup hk rfl rfl rfl)
    · exact h.goto (.startup hk rfl rfl rfl)

/-- The end flag with an empty ring means that every unit has been taken. -/
theorem Inv.drained (h : s.Inv) {hd : StreamHandle} (hh : s.player.videoH = some hd)
    (heof : (s.slots hd).eof = true) (hempty : (s.slots hd).ring = []) :
    popped s.log = s.clip.count := by
  have st := h.session hd hh
  have hn := st.frameN
  rw [hempty, st.eof heof] at hn
  exact hn.symm

theorem Inv.atEnd (h : s.Inv) {hd : StreamHandle} (hh : s.player.videoH = some hd) :
    s.atEnd = ((s.slots hd).eof && (s.slots hd).ring.isEmpty) := by
  unfold Sys.atEnd
  rw [h.slotFor, hh]
  rfl

theorem Inv.onEof (h : s.Inv) (voice eof : Bool) (q : EofQuery)
    (hstart : (Query.eof q).next = false → s.player.kicked = false)
    (hnext : (Query.eof q).next = true → s.player.kicked = true ∧ s.BurstUpTo (popped s.log) ∧
      s.sawEmpty = true ∧ s.atEnd = eof ∧ (eof = true → popped s.log = s.clip.count)) :
    (s.onEof voice eof q).Inv := by
  cases q with
  | primed =>
    cases eof with
    | false => exact .polledByte h.toIdle 0
    | true => exact h.openVoice voice
  | lookahead avail =>
    cases eof with
    | false => exact .polledByte h.toIdle 0
    | true =>
      unfold Sys.onEof
      by_cases h0 : avail = 0
      · simp only [Bool.not_true, h0, if_true]
        exact .polledByte h.toIdle 0
      · simp only [Bool.not_true, h0, if_false]
        exact h.goto (.startup (hstart rfl) rfl rfl rfl)
  | next =>
    obtain ⟨hk, hb, hsaw, hend, hcount⟩ := hnext rfl
    cases eof with
    | false => exact .advanced (h.repromote hk hsaw hend) .promoted
    | true => exact .advanced (h.finish (hcount rfl) hb) .empty

theorem Inv.emptyPop (h : s.Inv) {saw : Bool} (hpc : PcOk { s with sawEmpty := saw } pc) :
    (Sys.goto { s with sawEmpty := saw } pc).Inv :=
  { h with current := fun hk => (h.current hk).imp fun _ hn => { hn with }, pc := { hpc with } }

theorem Inv.registered (h : s.Inv) (hk : s.player.kicked = true) :
    ∃ hd, s.player.videoH = some hd := by
  cases hv : s.player.videoH with
  | none => exact absurd (hk.symm.trans (h.closed hv).2.1) (by simp)
  | some hd => exact ⟨hd, rfl⟩

theorem Inv.onUnregistered (h : s.Inv) (voice : Bool) {q : Query} (hpc : s.PcOk (.asking q))
    (hnone : s.slotFor s.player.videoH = none) : (s.onUnregistered voice q).Inv := by
  have hstart : q.next = false := by
    by_contra hne
    obtain ⟨hd, hv⟩ := h.registered (hpc.finishing ((Bool.not_eq_false _).mp hne)).1
    rw [h.slotFor, hv] at hnone
    cases hnone
  have hk : s.player.kicked = false := hpc.starting (congrArg Bool.not hstart)
  cases q with
  | count q => exact h.onCount hk voice 0 q
  | eof q =>
    exact h.onEof voice true q (fun _ => hk) fun hn => absurd (hn.symm.trans hstart) (by simp)
  | pop q =>
    cases q with
    | kick => exact .polledByte (h.emptyPop (.outside rfl rfl rfl rfl)) 0
    | next => cases hstart

theorem Inv.usePop (h : s.Inv) {hd : StreamHandle} {q : PopQuery} (voice : Bool)
    (hpc : s.PcOk (.holding (.pop q) hd)) : (s.useRing voice hd (.pop q)).Inv := by
  have hh := hpc.source hd rfl
  have hin := (h.session hd hh).inUse
  dsimp only [Sys.useRing]
  cases hr : (s.slots hd).ring with
  | nil =>
    rw [hin]
    cases q with
    | kick => exact .polledByte (h.emptyPop (.outside rfl rfl rfl rfl)) 0
    | next =>
      have hf := hpc.finishing rfl
      exact h.emptyPop ⟨fun hs => (by cases hs), fun _ => hf, fun _ => rfl, fun _ hs => (by cases hs),
        fun _ hs => (by cases hs)⟩
  | cons f rest =>
    have hsafe : ({ s with fault := s.fault || !(s.slots hd).inUse } : Sys) = s := by
      rw [hin, Bool.not_true, Bool.or_false]
    dsimp only
    rw [hsafe]
    cases q with
    | kick =>
      have hlog : s.log = [] := h.unkicked (by rw [hh]; simp) (hpc.starting rfl)
      refine .polledByte (h.take hh hr fun m hm => ?_) 1
      rw [hlog] at hm
      cases hm
    | next =>
      obtain ⟨hk, hb⟩ := hpc.finishing rfl
      have htake := h.take hh hr hb
      rw [kick_self (s := (s.setSlot hd { s.slots hd with ring := rest }).promote f) hk] at htake
      exact .advanced htake .promoted

theorem Inv.useRing (h : s.Inv) {hd : StreamHandle} {q : Query} (voice : Bool)
    (hpc : s.PcOk (.holding q hd)) : (s.useRing voice hd q).Inv := by
  cases q with
  | count q => exact h.onCount (hpc.starting rfl) voice _ q
  | pop q => exact h.usePop voice hpc
  | eof q =>
    dsimp only [Sys.useRing]
    have hstart : (Query.eof q).next = false → s.player.kicked = false := fun hn =>
      hpc.starting (congrArg Bool.not hn)
    cases heof : (s.slots hd).eof with
    | true =>
      refine h.goto ?_
      cases q with
      | primed | lookahead => exact .startup (hstart rfl) rfl rfl rfl
      | next =>
        refine { hpc with flagged := fun h' hp => ?_ }
        cases hp
        exact heof
    | false =>
      refine h.onEof voice false q hstart fun hn => ?_
      obtain ⟨hk, hb⟩ := hpc.finishing hn
      cases q with
      | primed | lookahead => cases hn
      | next =>
        refine ⟨hk, hb, hpc.starved rfl, ?_, fun he => by cases he⟩
        rw [h.atEnd (hpc.source hd rfl), heof, Bool.false_and]

theorem Inv.useDrained (h : s.Inv) {hd : StreamHandle} {q : EofQuery} (voice : Bool)
    (hpc : s.PcOk (.drained q hd)) :
    (s.onEof voice (s.slots hd).ring.isEmpty q).Inv := by
  refine h.onEof voice _ q (fun hn => hpc.starting (congrArg Bool.not hn)) fun hn => ?_
  obtain ⟨hk, hb⟩ := hpc.finishing hn
  cases q with
  | primed | lookahead => cases hn
  | next =>
    have hh := hpc.source hd rfl
    have heof := hpc.flagged hd rfl
    refine ⟨hk, hb, hpc.starved rfl, ?_, fun he => h.drained hh heof (isEmpty_iff.mp he)⟩
    rw [h.atEnd hh, heof, Bool.true_and]

theorem Inv.frameReadyByte (h : s.Inv) : s.frameReadyByte.Inv := by
  unfold Sys.frameReadyByte
  by_cases he : s.player.state = .eof
  · rw [if_pos he]
    exact .polledByte h.toIdle 0
  rw [if_neg he]
  by_cases hk : s.player.kicked = true
  · rw [if_pos hk]
    exact .polledByte h.toIdle 1
  rw [if_neg hk]
  have hk' : s.player.kicked = false := (Bool.not_eq_true _).mp hk
  by_cases hs : (!s.player.audioStarted) = true
  · rw [if_pos hs]
    exact h.goto (.startup hk' rfl rfl rfl)
  rw [if_neg hs]
  by_cases hp : 0 < s.player.preroll
  · rw [if_pos hp]
    exact .polledByte (h.audio s.player.audioVoice s.player.audioStarted _).toIdle 0
  · rw [if_neg hp]
    exact h.goto (.startup hk' rfl rfl rfl)

theorem BurstUpTo.mono {s s' : Sys} {n m : Nat} (h : s.BurstUpTo n) (hle : m ≤ n)
    (hs : ∀ b ∈ s.bursts, b ∈ s'.bursts) : s'.BurstUpTo m :=
  fun i hi k hk => hs _ (h i (by omega) k hk)

theorem Inv.onFrameDone (h : s.Inv) (oam : List Byte) : (s.onFrameDone oam).Inv := by
  unfold Sys.onFrameDone
  by_cases hk : s.player.kicked = true
  · rw [if_neg (by rw [hk]; decide)]
    obtain ⟨n, hn⟩ := h.current hk
    have hnum : popped s.log - 1 = n := by rw [hn.popped]; rfl
    have hmono : ∀ b ∈ s.bursts, b ∈ (popped s.log - 1, s.player.sfIdx) :: s.bursts :=
      fun b hb => mem_cons_of_mem _ hb
    have hlen : s.player.cur.subframes.length = 4 := by
      rw [hn.cur]
      rfl
    have hbursts : ∀ k < s.player.sfIdx + 1,
        (n, k) ∈ (popped s.log - 1, s.player.sfIdx) :: s.bursts := by
      intro k hk'
      by_cases he : k = s.player.sfIdx
      · rw [he, hnum]
        exact mem_cons_self ..
      · exact hmono _ (hn.bursts k (by omega))
    dsimp only
    by_cases hlt : s.player.sfIdx + 1 < 4
    · rw [if_pos (hlen.symm ▸ hlt)]
      apply Inv.advanced
      refine { h with
          current := fun _ => ?_
          complete := h.complete.mono (Nat.le_refl _) hmono
          ended := fun he => ⟨(h.ended he).1, (h.ended he).2.mono (Nat.le_refl _) hmono⟩
          pc := .outside rfl rfl rfl rfl }
      refine ⟨n, hn.popped, hn.cur, hlt, hbursts, fun ha => ?_⟩
      have hload := ((hn.loaded ha).agree (overlayWriteOam_shown oam)).agree
        (publishSiphonConfig_shown (p := { s.player with sfIdx := s.player.sfIdx + 1 }) 0)
      have hnext := writeSubframe_loaded hload.batch hload.palette (s.player.sfIdx + 1)
      rw [← hn.cur] at hnext
      exact hnext
    · rw [if_neg (hlen.symm ▸ hlt)]
      have hlast := hn.sfIdx
      refine ⟨h.stored, h.session, h.closed, h.pending, h.unkicked, fun _ => ?_, h.order,
        h.complete.mono (Nat.le_refl _) hmono,
        fun he => ⟨(h.ended he).1, (h.ended he).2.mono (Nat.le_refl _) hmono⟩, ?_, h.safe⟩
      · exact ⟨n, hn.popped, hn.cur, hn.sfIdx, fun k hk' => hmono _ (hn.bursts k hk'),
          fun ha => (hn.loaded ha).agree (overlayWriteOam_shown oam)⟩
      · refine ⟨fun hs => (by cases hs), fun _ => ⟨hk, fun m hm k hk' => ?_⟩,
          fun hs => (by cases hs), fun _ hs => (by cases hs), fun _ hs => (by cases hs)⟩
        by_cases he : m = n
        · subst he
          exact hbursts k (by omega)
        · refine hmono _ (h.complete m ?_ k hk')
          have hm' : m < popped s.log := hm
          omega
  · rw [if_pos (by simpa using hk)]
    exact .advanced h.toIdle .empty

theorem Inv.advance (h : s.Inv) {voice : Bool} {oam : List Byte} {s' : Sys}
    (hs : s.advance voice oam = some s') : s'.Inv := by
  unfold Sys.advance at hs
  have hpc := h.pc
  cases hc : s.console with
  | idle =>
    rw [hc] at hs
    cases hs
  | polled =>
    rw [hc] at hs
    cases hs
    exact h.frameReadyByte
  | strobed =>
    rw [hc] at hs
    cases hs
    exact h.onFrameDone oam
  | asking q =>
    rw [hc] at hs hpc
    cases hl : s.slotFor s.player.videoH with
    | none =>
      rw [hl] at hs
      cases hs
      exact h.onUnregistered voice hpc hl
    | some hd =>
      rw [hl] at hs
      cases hs
      rw [h.slotFor] at hl
      refine h.goto ⟨hpc.starting, hpc.finishing, fun hst => hpc.starved ?_, fun h' hsrc => ?_,
        fun _ hp => (by cases hp)⟩
      · exact ConsolePc.starved_holding q hd ▸ hst
      · exact ConsolePc.eq_of_source_holding hsrc ▸ hl
  | holding q hd =>
    rw [hc] at hs hpc
    cases hs
    exact h.useRing voice hpc
  | drained q hd =>
    rw [hc] at hs hpc
    cases hs
    exact h.useDrained voice hpc

theorem Inv.poll (h : s.Inv) {s' : Sys} (hs : s.poll = some s') : s'.Inv := by
  unfold Sys.poll at hs
  cases hc : s.console <;> rw [hc] at hs <;> cases hs
  by_cases ha : s.player.active = true
  · rw [if_pos ha]
    exact h.goto (.outside rfl rfl rfl rfl)
  · rw [if_neg ha]
    exact h

theorem Inv.strobe (h : s.Inv) {s' : Sys} (hs : s.strobe = some s') : s'.Inv := by
  unfold Sys.strobe at hs
  cases hc : s.console <;> rw [hc] at hs <;> cases hs
  by_cases hr : s.copro.cart.frameReady = 0
  · rw [if_pos hr]
    exact h
  rw [if_neg hr]
  by_cases ha : s.player.active = true
  · rw [if_pos ha]
    exact h.goto (.outside rfl rfl rfl rfl)
  · rw [if_neg ha]
    -- the window belongs to the staging side again
    exact { h with
        current := fun hk => (h.current hk).imp fun _ hn =>
          { hn with loaded := fun ha' => absurd ha' ha }
        pc := .outside rfl rfl rfl rfl }

/-! ## The worker -/

theorem Inv.store (h : s.Inv) {slots : StreamHandle → StreamSlot} {files : Nat → Option OpenFile}
    (hst : Stored slots files s.engines s.nextEngine)
    (hses : ∀ h, s.player.videoH = some h →
      Session (slots h) files s.player.fd s.player.dma s.clip (popped s.log))
    (heof : ∀ h, (s.slots h).eof = true → (slots h).eof = true) :
    Inv { s with slots := slots, files := files } :=
  { h with
      stored := hst
      session := hses
      current := fun hk => (h.current hk).imp fun _ hn => { hn with }
      pc := h.pc.congr rfl rfl rfl rfl rfl heof }

theorem Inv.setFile (h : s.Inv) {fd : Nat} {f : OpenFile}
    (hfd : ∀ h, (s.slots h).inUse = true → (s.slots h).ctx.fd ≠ fd) :
    Inv { s with files := update s.files fd (some f) } := by
  refine h.store ⟨h.stored.engine, h.stored.within, h.stored.fresh, fun h' hin => ?_,
    h.stored.distinct⟩ (fun hd hv => ?_) fun _ => id
  · rw [update_of_ne (hfd h' hin)]
    exact h.stored.opened h' hin
  · have st := h.session hd hv
    refine { st with file := ?_ }
    rw [update_of_ne (hfd hd st.inUse)]
    exact st.file

theorem Inv.setHtime (h : s.Inv) (htime : Byte) : (s.setHtime htime).Inv :=
  let h' := h.onCart (f := fun w => w.loadBlob offSiphonHtime [if htime = 0 then 1 else htime])
    (loadBlob_shown (by decide))
  { h' with
      current := fun hk => (h'.current hk).imp fun _ hn => { hn with }
      pc := h'.pc.congr rfl rfl rfl rfl rfl fun _ => id }

theorem Inv.deactivate (h : s.Inv) (pending : Bool) :
    Inv { s with player := { s.player with active := false, stopPending := pending } } :=
  { h with
      closed := fun hv => ⟨rfl, (h.closed hv).2⟩
      pending := fun _ => rfl
      current := fun hk => (h.current hk).imp fun _ hn =>
        { hn with loaded := fun ha => by cases ha }
      pc := h.pc.congr rfl rfl rfl rfl rfl fun _ => id }

theorem Inv.stop (h : s.Inv) : s.stop.Inv := by
  unfold Sys.stop
  by_cases ha : s.player.active = true
  · rw [if_pos ha]
    exact (h.onCart (f := fun w => { w with frameReady := 0 }) .refl).deactivate true
  · rw [if_neg ha]
    exact h

theorem Inv.finalize (h : s.Inv) (ha : s.player.active = false) (hi : s.console = .idle) :
    s.finalize.Inv := by
  have hslot : ∀ f, (s.onCart f).slotFor (s.onCart f).player.videoH = s.player.videoH :=
    fun _ => h.slotFor
  unfold Sys.finalize
  dsimp only
  rw [hslot]
  cases hv : s.player.videoH with
  | none =>
    obtain ⟨-, -, hdma, hfd⟩ := h.closed hv
    have hdma' : ∀ f, (s.onCart f).player.dma = none := fun _ => hdma
    have hfd' : ∀ f, (s.onCart f).player.fd = none := fun _ => hfd
    dsimp only [Option.elim]
    rw [hdma', hfd']
    refine ⟨h.stored, fun _ hv => ?_, fun _ => ⟨ha, rfl, rfl, rfl⟩, fun _ => ha,
      fun hne => absurd rfl hne, fun hk => ?_, h.order, h.complete, fun he => ?_,
      .idle hi, h.safe⟩
    · cases hv
    · cases hk
    · cases he
  | some hd =>
    have st := h.session hd hv
    have hdma' : ∀ f, ((s.onCart f).unregister hd).player.dma = some (s.slots hd).ctx.dma :=
      fun _ => st.dma_eq
    have hfd' : ∀ f, ((s.onCart f).unregister hd).player.fd = some (s.slots hd).ctx.fd :=
      fun _ => st.fd_eq
    dsimp only [Option.elim]
    rw [hdma', hfd']
    refine ⟨h.stored.release st.inUse, fun _ hv => ?_, fun _ => ⟨ha, rfl, rfl, rfl⟩, fun _ => ha,
      fun hne => absurd rfl hne, fun hk => ?_, h.order, h.complete, fun he => ?_,
      .idle hi, ?_⟩
    · cases hv
    · cases hk
    · cases he
    · exact Bool.or_eq_false_iff.mpr ⟨h.safe, congrArg ConsolePc.holdsRing hi⟩

theorem Inv.setPending (h : s.Inv) :
    Inv { s with player := { s.player with stopPending := false } } :=
  { h with
      pending := fun hp => (by cases hp)
      current := fun hk => (h.current hk).imp fun _ hn => { hn with }
      pc := h.pc.congr rfl rfl rfl rfl rfl fun _ => id }

theorem Inv.tick (h : s.Inv) (hok : s.Ok .tick) : s.tick.Inv := by
  unfold Sys.tick
  by_cases hp : s.player.stopPending = true
  · rw [if_pos hp]
    exact (h.finalize (h.pending hp) (hok hp)).setPending
  · rw [if_neg hp]
    exact h

theorem Inv.shutdown (h : s.Inv) (hok : s.Ok .shutdown) : s.shutdown.Inv :=
  (h.deactivate false).finalize rfl hok

theorem Inv.heal (h : s.Inv) (hok : s.player.active = true → s.console = .idle) : s.heal.Inv := by
  unfold Sys.heal
  by_cases ha : s.player.active = true
  · rw [if_pos ha]
    exact (h.deactivate s.player.stopPending).finalize rfl (hok ha)
  · rw [if_neg ha]
    exact h

theorem Inv.finalize_fields (h : s.Inv) {hd : StreamHandle} (hv : s.player.videoH = some hd) :
    s.finalize.slots = update s.slots hd { s.slots hd with inUse := false } ∧
      s.finalize.files = update s.files (s.slots hd).ctx.fd none ∧
        s.finalize.console = s.console := by
  have hslot : ∀ f, (s.onCart f).slotFor (s.onCart f).player.videoH = s.player.videoH :=
    fun _ => h.slotFor
  have hfd : ∀ f, ((s.onCart f).unregister hd).player.fd = some (s.slots hd).ctx.fd :=
    fun _ => (h.session hd hv).fd_eq
  unfold Sys.finalize
  dsimp only
  rw [hslot, hv]
  dsimp only [Option.elim]
  rw [hfd]
  exact ⟨rfl, rfl, rfl⟩

theorem Inv.heal_file (h : s.Inv) {fd : Nat} {f : OpenFile} (hf : s.heal.files fd = some f) :
    s.files fd = some f ∧ ¬(s.player.active = true ∧ s.player.fd = some fd) ∧
      s.heal.console = s.console ∧
        ∀ hd, (s.heal.slots hd).inUse = true →
          (s.slots hd).inUse = true ∧ (s.heal.slots hd).ctx = (s.slots hd).ctx := by
  unfold Sys.heal at hf ⊢
  by_cases ha : s.player.active = true
  · rw [if_pos ha] at hf ⊢
    have hd : ∃ hd, s.player.videoH = some hd := by
      cases hv : s.player.videoH with
      | none => exact absurd (ha.symm.trans (h.closed hv).1) (by decide)
      | some hd => exact ⟨hd, rfl⟩
    obtain ⟨hd, hv⟩ := hd
    obtain ⟨hslots, hfiles, hcons⟩ := (h.deactivate s.player.stopPending).finalize_fields hv
    have hfd := (h.session hd hv).fd_eq
    rw [hfiles] at hf
    have hne : fd ≠ (s.slots hd).ctx.fd := by
      rintro rfl
      rw [update_self] at hf
      cases hf
    rw [update_of_ne hne] at hf
    refine ⟨hf, fun hc => hne ?_, hcons, fun h' hin => ?_⟩
    · exact (Option.some.inj (hfd.symm.trans hc.2)).symm
    · rw [hslots] at hin ⊢
      by_cases he : h' = hd
      · subst he
        rw [update_self] at hin
        cases hin
      · rw [update_of_ne he] at hin ⊢
        exact ⟨hin, rfl⟩
  · rw [if_neg ha] at hf ⊢
    exact ⟨hf, fun hc => ha hc.1, rfl, fun _ hin => ⟨hin, rfl⟩⟩

theorem Inv.openClip (h : s.Inv) {fd nframes abytes : Nat} {f : OpenFile} (env : StartEnv)
    (hf : s.files fd = some f) (hfd : ∀ h, (s.slots h).inUse = true → (s.slots h).ctx.fd ≠ fd)
    (hi : s.console = .idle) (hsize : abytes + fmvVideoBlockBytes < 0x100000000) :
    (s.openClip fd f nframes abytes env).Inv := by
  have hfresh : ∀ e ∈ s.engines, e < s.nextEngine + 1 :=
    fun e he => Nat.lt_succ_of_lt (h.stored.fresh e he)
  have hslot : ∀ next player, freeSlot { s with nextEngine := next, player := player } = s.freeSlot :=
    fun _ _ => rfl
  unfold Sys.openClip
  dsimp only
  rw [hslot]
  cases s.freeSlot with
  | none =>
    exact { h with
        stored := ⟨h.stored.engine, h.stored.within, hfresh, h.stored.opened, h.stored.distinct⟩
        current := fun hk => (h.current hk).imp fun _ hn => { hn with }
        pc := h.pc.congr rfl rfl rfl rfl rfl fun _ => id }
  | some hd =>
    dsimp only
    have hwithin : FmvVideoCtx.Within ⟨fd, 0, nframes, abytes, fun _ => 0, s.nextEngine, false⟩ := by
      unfold FmvVideoCtx.Within FmvVideoCtx.unitBytes
      dsimp only
      omega
    have hopen : (s.files fd).isSome = true := by
      rw [hf]
      rfl
    refine ⟨h.stored.register hd rfl hwithin hopen hfd, fun h' hv => ?_, fun hv => ?_,
      fun hp => ?_, fun _ _ => rfl, fun hk => ?_, .nil, fun m hm => ?_, fun he => ?_,
      .idle hi, h.safe⟩
    · obtain rfl : hd = h' := Option.some.inj hv
      have hat : Clip.At ⟨f.ahead, f.size - f.pos, nframes, abytes⟩
          ⟨fd, 0, nframes, abytes, fun _ => 0, s.nextEngine, false⟩ f :=
        ⟨rfl, rfl, rfl, fun i => by rw [Nat.zero_mul, Nat.zero_add],
          by rw [Nat.zero_mul, Nat.sub_zero], hwithin⟩
      have st : Session ⟨true, ⟨fd, 0, nframes, abytes, fun _ => 0, s.nextEngine, false⟩, [], false⟩
          s.files (some fd) (some s.nextEngine) ⟨f.ahead, f.size - f.pos, nframes, abytes⟩ 0 :=
        ⟨rfl, rfl, rfl, fun _ => ⟨f, hf, hat⟩, rfl, rfl, Nat.zero_le _, fun he => by cases he⟩
      have hnew : update s.slots hd
          ⟨true, ⟨fd, 0, nframes, abytes, fun _ => 0, s.nextEngine, false⟩, [], false⟩ hd =
          ⟨true, ⟨fd, 0, nframes, abytes, fun _ => 0, s.nextEngine, false⟩, [], false⟩ :=
        update_self ..
      exact .congr_slot hnew.symm st
    · cases hv
    · cases hp
    · cases hk
    · cases hm
    · cases he

theorem Inv.start (h : s.Inv) {fd : Nat} {limit : Option Nat} {env : StartEnv}
    (hok : s.Ok (.start fd limit env)) : (s.start fd limit env).Inv := by
  have hheal := h.heal hok.1
  unfold Sys.start
  dsimp only
  cases hf : s.heal.files fd with
  | none => exact hheal
  | some f =>
    obtain ⟨hf', hna, hcons, hslots⟩ := h.heal_file hf
    obtain ⟨hfd, hheader⟩ := hok.2 hna
    have hfree : ∀ hd, (s.heal.slots hd).inUse = true → (s.heal.slots hd).ctx.fd ≠ fd := by
      intro hd hin
      rw [(hslots hd hin).2]
      exact hfd hd (hslots hd hin).1
    have hset := hheal.setFile (f := (f.readFull 32 limit).2) hfree
    cases hh : s.heal.header fd limit with
    | none => exact hset
    | some header =>
      have hsame : s.header fd limit = some header := by
        unfold Sys.header at hh ⊢
        rw [hf'] 
        rwa [hf] at hh
      obtain ⟨hi, hsize⟩ := hheader header hsame
      exact hset.openClip env (update_self ..) hfree (hcons.trans hi) hsize

theorem fill_keeps (c : FmvVideoCtx) (f : OpenFile) (limit : Option Nat) :
    (c.fill f limit).2.1.fd = c.fd ∧ (c.fill f limit).2.1.dma = c.dma ∧
      (c.fill f limit).2.1.abytes = c.abytes := by
  unfold FmvVideoCtx.fill
  split
  · exact ⟨rfl, rfl, rfl⟩
  · dsimp only
    split <;> exact ⟨rfl, rfl, rfl⟩

theorem Inv.produced (h : s.Inv) {hd : StreamHandle} {slot : StreamSlot} {f : OpenFile}
    (hin : (s.slots hd).inUse = true) (hfd : slot.ctx.fd = (s.slots hd).ctx.fd)
    (hdma : slot.ctx.dma = (s.slots hd).ctx.dma)
    (habytes : slot.ctx.abytes = (s.slots hd).ctx.abytes)
    (heof : (s.slots hd).eof = true → slot.eof = true)
    (hses : s.player.videoH = some hd →
      Session slot (update s.files (s.slots hd).ctx.fd (some f)) s.player.fd s.player.dma
        s.clip (popped s.log)) :
    Inv { s with
      slots := update s.slots hd slot
      files := update s.files (s.slots hd).ctx.fd (some f) } := by
  have hwithin : (s.slots hd).ctx.Within → slot.ctx.Within := by
    unfold FmvVideoCtx.Within FmvVideoCtx.unitBytes
    rw [habytes]
    exact id
  have hset : Stored (update s.slots hd slot) s.files s.engines s.nextEngine :=
    h.stored.setSlot ⟨fun _ => hin, hfd, hdma, hwithin⟩
  refine h.store { hset with opened := fun h' hin' => ?_ }
    (fun h' hv => ?_) fun h' he => ?_
  · have hopen := hset.opened h' hin'
    by_cases he : (update s.slots hd slot h').ctx.fd = (s.slots hd).ctx.fd
    · rw [he, update_self]
      rfl
    · rw [update_of_ne he]
      exact hopen
  · by_cases he : h' = hd
    · subst he
      rw [update_self]
      exact hses hv
    · have st := h.session h' hv
      rw [update_of_ne he]
      refine { st with file := ?_ }
      rw [update_of_ne (h.stored.distinct h' hd st.inUse hin he).1]
      exact st.file
  · by_cases heq : h' = hd
    · rw [heq, update_self]
      exact heof (heq ▸ he)
    · rw [update_of_ne heq]
      exact he

theorem Inv.produce (h : s.Inv) {hd : StreamHandle} {limit : Option Nat}
    (hok : s.Ok (.produce hd limit)) : (s.produce hd limit).Inv := by
  unfold Sys.produce
  dsimp only
  by_cases hrest : (!(s.slots hd).inUse || (s.slots hd).eof || (s.slots hd).full) = true
  · rw [if_pos hrest]
    exact h
  rw [if_neg hrest]
  have hin : (s.slots hd).inUse = true := by
    by_contra hne
    exact hrest (by simp [(Bool.not_eq_true _).mp hne])
  have hne : (s.slots hd).eof = false := by
    by_contra he
    exact hrest (by simp [(Bool.not_eq_false _).mp he])
  obtain ⟨f, hf⟩ := Option.isSome_iff_exists.mp (h.stored.opened hd hin)
  have hat : s.fileAt (s.slots hd).ctx.fd = f := by
    unfold Sys.fileAt
    rw [hf]
    rfl
  have hread := hok
  unfold Ok at hread
  dsimp only at hread
  rw [hat] at hread ⊢
  rw [hf]
  have hkeeps := fill_keeps (s.slots hd).ctx f limit
  have hsafe : (s.fault || !decide ((s.slots hd).ctx.dma ∈ s.engines) ||
      !decide (s.slots hd).ctx.Within) = s.fault := by
    simp [h.stored.engine hd hin, h.stored.within hd hin]
  cases hfill : (s.slots hd).ctx.fill f limit with
  | mk frame r =>
    obtain ⟨c, f'⟩ := r
    rw [hfill] at hkeeps
    cases frame with
    | none =>
      have hslot : (s.slots hd).eof = true → ((s.slots hd).eof || c.eof) = true := fun he => by
        rw [he]
        rfl
      refine h.produced hin hkeeps.1 hkeeps.2.1 hkeeps.2.2 hslot fun hv => ?_
      have st := h.session hd hv
      obtain ⟨f₀, hf₀, hclip⟩ := st.file hne
      obtain rfl : f = f₀ := Option.some.inj (hf.symm.trans hf₀)
      by_cases hlt : (s.slots hd).ctx.frameN < s.clip.count
      · obtain ⟨hn, hle⟩ := hclip.lt_count_iff.mp hlt
        obtain ⟨c', f'', hfr, -⟩ := hclip.fill_frame hlt (hread hn hle)
        rw [hfill] at hfr
        cases hfr
      · obtain ⟨f'', hend⟩ := hclip.fill_end limit (Nat.not_lt.mp hlt)
        rw [hfill] at hend
        cases hend
        have hcount : (s.slots hd).ctx.frameN = s.clip.count :=
          Nat.le_antisymm st.le (Nat.not_lt.mp hlt)
        refine { st with file := fun he => ?_, eof := fun _ => hcount }
        rw [Bool.or_true] at he
        cases he
    | some fr =>
      dsimp only [setSlot]
      rw [hsafe]
      refine h.produced hin hkeeps.1 hkeeps.2.1 hkeeps.2.2 id fun hv => ?_
      have st := h.session hd hv
      obtain ⟨f₀, hf₀, hclip⟩ := st.file hne
      obtain rfl : f = f₀ := Option.some.inj (hf.symm.trans hf₀)
      by_cases hlt : (s.slots hd).ctx.frameN < s.clip.count
      · obtain ⟨hn, hle⟩ := hclip.lt_count_iff.mp hlt
        obtain ⟨c', f'', hfr, hc, -, hclip'⟩ := hclip.fill_frame hlt (hread hn hle)
        rw [hfill] at hfr
        cases hfr
        have hsucc : c.frameN = (s.slots hd).ctx.frameN + 1 := congrArg FmvVideoCtx.frameN hc
        have hn' := st.frameN
        refine ⟨st.inUse, hkeeps.1 ▸ st.fd_eq, hkeeps.2.1 ▸ st.dma_eq,
          fun _ => ⟨f', ?_, hclip'⟩, ?_, ?_, ?_, fun he => ?_⟩
        · rw [hkeeps.1]
          exact update_self ..
        · dsimp only
          rw [length_append, length_singleton, range'_concat, map_append,
            ← st.ring, Nat.one_mul, ← hn']
          rfl
        · dsimp only
          rw [length_append, length_singleton]
          omega
        · dsimp only
          omega
        · exact absurd (hne.symm.trans he) (by decide)
      · obtain ⟨f'', hend⟩ := hclip.fill_end limit (Nat.not_lt.mp hlt)
        rw [hfill] at hend
        cases hend

/-! ## Runs -/

theorem step_inv {e : Event} {s' : Sys} (h : s.Inv) (hok : s.Ok e) (hs : s.step e = some s') :
    s'.Inv := by
  cases e with
  | fopen fd f =>
    dsimp only [step] at hs
    by_cases hnone : (s.files fd).isNone = true
    · rw [if_pos hnone] at hs
      cases hs
      refine h.setFile fun hd hin heq => ?_
      rw [← heq, Option.isNone_iff_eq_none] at hnone
      have hopen := h.stored.opened hd hin
      rw [hnone] at hopen
      cases hopen
    · rw [if_neg hnone] at hs
      cases hs
  | start fd limit env => cases hs; exact h.start hok
  | stop => cases hs; exact h.stop
  | tick => cases hs; exact h.tick hok
  | shutdown => cases hs; exact h.shutdown hok
  | setHtime htime => cases hs; exact h.setHtime htime
  | produce hd limit => cases hs; exact h.produce hok
  | poll => exact h.poll hs
  | strobe => exact h.strobe hs
  | advance voice oam => exact h.advance hs

/-- In every interleaving whose teardowns come between the steps of the console thread, the player
shows the clip as it is, and nothing is freed that is used. -/
theorem run_plays {copro : Copro} {es : List Event} {s : Sys}
    (hok : Meets step Ok (init copro) es) (hrun : run step (init copro) es = some s) : s.Sound :=
  (run_invariant (fun _ _ _ h => step_inv h) (init_inv copro) hok hrun).sound

/-! A clip of two units, opened, shown and stopped. -/

instance (s : Sys) : ∀ e, Decidable (s.Ok e)
  | .start _ _ _ => inferInstanceAs (Decidable (_ ∧ _))
  | .tick => inferInstanceAs (Decidable (_ → _))
  | .shutdown => inferInstanceAs (Decidable (_ = _))
  | .produce _ _ => inferInstanceAs (Decidable (_ → _))
  | .fopen _ _ | .stop | .setHtime _ | .poll | .strobe | .advance _ _ =>
    inferInstanceAs (Decidable True)

def smallFile : OpenFile where
  byte := fun i =>
    if i = 0 then 0x46 else if i = 1 then 0x4D else if i = 2 then 0x56 else if i = 3 then 0x32
    else if i = 12 then 2 else if i = 24 then 4 else 0
  size := 32 + 2 * (4 + fmvVideoBlockBytes)
  pos := 0

def quietEnv : StartEnv := ⟨false, none, none, ⟨[], [], [], []⟩⟩

/-- The first unit is on the screen, and its last sub-frame is being burst. -/
def firstUnit : List Event :=
  [Event.fopen 3 smallFile, .start 3 none quietEnv] ++ List.replicate 3 (Event.produce 0 none) ++
    (Event.poll :: List.replicate 3 (Event.advance false [])) ++
    (Event.poll :: List.replicate 5 (Event.advance false [])) ++
    (List.replicate 3 [Event.strobe, .advance false []]).flatten ++ [Event.strobe, .advance false []]

theorem run_plays_two : ∃ s, run step (init (.init false)) (firstUnit ++
    [.advance false [], .advance false [], .stop, .tick]) = some s ∧ popped s.log = 2 ∧ s.Sound := by
  have hrun : (run step (init (.init false)) (firstUnit ++
      [.advance false [], .advance false [], .stop, .tick])).map (fun s => popped s.log) = some 2 := by
    decide +kernel
  obtain ⟨s, hs, hp⟩ := Option.map_eq_some_iff.mp hrun
  exact ⟨s, hs, hp, run_plays (by decide +kernel) hs⟩

/-- The teardown finds the console thread on its way to the next unit, and the end is reported with
one unit of two shown. -/
theorem stopped_between_units : ∃ s, run step (init (.init false)) (firstUnit ++
    [.stop, .tick, .advance false [], .advance false []]) = some s ∧
    s.player.state = .eof ∧ popped s.log = 1 ∧ s.clip.count = 2 ∧ ¬s.Sound := by
  have hrun : (run step (init (.init false)) (firstUnit ++
      [.stop, .tick, .advance false [], .advance false []])).map
        (fun s => (s.player.state, popped s.log, s.clip.count)) = some (.eof, 1, 2) := by
    decide +kernel
  obtain ⟨s, hs, hp⟩ := Option.map_eq_some_iff.mp hrun
  rw [Prod.mk.injEq, Prod.mk.injEq] at hp
  obtain ⟨hstate, hlog, hcount⟩ := hp
  refine ⟨s, hs, hstate, hlog, hcount, fun h => ?_⟩
  have hend := (h.ended hstate).1
  omega

end Sys

end Microgarbage.Fmv
