import Microgarbage.Cart.FrameQueue

/-!
# The frames of a clip

`fmv_video_stream.c`: the producer reads the units of a clip from its file and builds each into a
frame that the console can take as it is. The frame of unit `n` fills one of two buffers in VRAM and
displays the other, which the frame before it filled, with the palette of the unit before.
-/

namespace Microgarbage.Fmv

open Lib Cart

/-! ## Layout -/

abbrev fmvTw : Nat := 30
abbrev fmvTh : Nat := 26
abbrev fmvNtiles : Nat := fmvTw * fmvTh
abbrev fmvCgramBytes : Nat := 256
abbrev fmvTmSrcBytes : Nat := fmvNtiles * 2
/-- Palette, raw tilemap and characters. -/
abbrev fmvVideoBlockBytes : Nat := 26776

def chrAWord : BitVec 16 := 0x0000
def chrBWord : BitVec 16 := 0x4000
def tmAWord : BitVec 16 := 0x7C00
def tmBWord : BitVec 16 := 0x7800

abbrev chrC1 : Nat := 4800
abbrev chrC2 : Nat := 6272
abbrev chrC3 : Nat := 7040
abbrev chrC4 : Nat := 6848
abbrev chrUsed : Nat := chrC1 + chrC2 + chrC3 + chrC4
abbrev tmBytes : Nat := 2048

abbrev offCgram : Nat := 0
abbrev offTm : Nat := offCgram + fmvCgramBytes
abbrev offC1 : Nat := offTm + tmBytes
abbrev offC2 : Nat := offC1 + chrC1
abbrev offC3 : Nat := offC2 + chrC2
abbrev offC4 : Nat := offC3 + chrC3
abbrev payloadUsed : Nat := offC4 + chrC4

def bbusVmdatal : Byte := 0x18
def bbusCgdata : Byte := 0x22
def bbusOamdata : Byte := 0x04
def dmap1b1r : Byte := 0x00
def dmap2b2r : Byte := 0x01

theorem layout : fmvNtiles = 780 ∧ chrC1 = 4800 ∧ chrC2 = 6272 ∧ chrC3 = 7040 ∧ chrC4 = 6848 :=
  ⟨rfl, rfl, rfl, rfl, rfl⟩

/-! The sprite overlay has its own regions of the window, above the payload. -/

abbrev offSprCgram : Nat := 0x7AC0
abbrev offSprOam : Nat := 0x7B40
abbrev offSprFftChr : Nat := 0x7D60
abbrev offSprFftCgram : Nat := 0x7EE0
abbrev sprCgramBytes : Nat := 128
abbrev sprOamBytes : Nat := 544
abbrev sprOamActiveBytes : Nat := 256
abbrev sprFftChrBytes : Nat := 384
abbrev sprFftCgramBytes : Nat := 128
def sprVramWord : BitVec 16 := 28880
def sprFftCgadd : BitVec 16 := 192
def sprObsel : Byte := 0x03

/-! ## Complete frames -/

structure MgCompleteFrame where
  /-- The first `payload_used` bytes. -/
  payload : List Byte
  subframes : List SubFrame
  ppuBatch : PpuBatch
  siphonBytes : Byte
  siphonLines : Byte
  siphonSrc : BitVec 16
  siphonVram : BitVec 16

/-- The frame in memory that nothing has been written to. -/
def MgCompleteFrame.zero : MgCompleteFrame := ⟨[], [], .zero, 0, 0, 0, 0⟩

def mgBgSc (tilemapWord : BitVec 16) (sizeCode : Byte) : Byte :=
  ((tilemapWord >>> 10) <<< 2).setWidth 8 ||| (sizeCode &&& 3)

def mgChrPage (chrWord : BitVec 16) : Byte := (chrWord >>> 12).setWidth 8 &&& 0x0F

/-- 32 × 32 cells of the blank tile with the 30 × 26 cells of the unit in their middle. -/
def tilemap (tms : Mem) : List Byte :=
  (List.range tmBytes).map fun i =>
    let row := i / 64
    let col := i % 64 / 2
    if 1 ≤ row ∧ row ≤ fmvTh ∧ 1 ≤ col ∧ col ≤ fmvTw then
      tms ((row - 1) * (fmvTw * 2) + (col - 1) * 2 + i % 2)
    else
      byteOf (BitVec.ofNat 16 fmvNtiles) (i % 2)

/-- Four sub-frames, each of which the console bursts in one vertical blank. -/
def subframes (backTm backChr : BitVec 16) : List SubFrame :=
  let vmdata (prep : BitVec 16) (src size : Nat) : StagedSlot :=
    ⟨bbusVmdatal, dmap2b2r, prep, BitVec.ofNat 16 src, BitVec.ofNat 16 size⟩
  let cgdata (prep : BitVec 16) (src size : Nat) : StagedSlot :=
    ⟨bbusCgdata, dmap1b1r, prep, BitVec.ofNat 16 src, BitVec.ofNat 16 size⟩
  let oamdata (size : Nat) : StagedSlot :=
    ⟨bbusOamdata, dmap1b1r, 0, BitVec.ofNat 16 offSprOam, BitVec.ofNat 16 size⟩
  [[cgdata 0 offCgram fmvCgramBytes,
    vmdata backTm offTm tmBytes,
    vmdata backChr offC1 chrC1,
    oamdata sprOamActiveBytes],
   [vmdata (backChr + BitVec.ofNat 16 (chrC1 / 2)) offC2 chrC2,
    vmdata sprVramWord offSprFftChr sprFftChrBytes,
    cgdata 128 offSprCgram sprCgramBytes,
    oamdata sprOamActiveBytes,
    cgdata sprFftCgadd offSprFftCgram sprFftCgramBytes],
   [vmdata (backChr + BitVec.ofNat 16 ((chrC1 + chrC2) / 2)) offC3 chrC3,
    oamdata sprOamActiveBytes],
   [vmdata (backChr + BitVec.ofNat 16 ((chrC1 + chrC2 + chrC3) / 2)) offC4 chrC4,
    oamdata sprOamBytes]]

/-- The front buffer is displayed. -/
def ppuBatch (frontTm frontChr : BitVec 16) : PpuBatch :=
  { PpuBatch.zero with
    bgmode := 0x01
    obsel := sprObsel
    bg1sc := mgBgSc frontTm 0
    bg12nba := mgChrPage frontChr
    tm := 0x01 ||| 0x10
    bg1vofs := 0xFFFF }

def backIsA (frameN : Nat) : Bool := frameN % 2 == 0

/-- The slot that `fmv_video_fill` builds from a unit's tilemap and characters and the palette of
the unit before. -/
def completeFrame (frameN : Nat) (prevPal tms chr : Mem) : MgCompleteFrame :=
  let back := backIsA frameN
  { payload := prevPal.bytes 0 fmvCgramBytes ++ tilemap tms ++ chr.bytes 0 chrUsed
    subframes := subframes (if back then tmAWord else tmBWord) (if back then chrAWord else chrBWord)
    ppuBatch := ppuBatch (if back then tmBWord else tmAWord) (if back then chrBWord else chrAWord)
    siphonBytes := 0
    siphonLines := 0
    siphonSrc := 0
    siphonVram := 0 }

/-! ## Files -/

structure OpenFile where
  byte : Mem
  size : Nat
  pos : Nat

namespace OpenFile

variable (f : OpenFile)

/-- `read_full`: the bytes that were read; a read can fail after `limit` bytes. -/
def readFull (n : Nat) (limit : Option Nat) : Nat × OpenFile :=
  let got := min (limit.elim n (min n)) (f.size - f.pos)
  (got, { f with pos := f.pos + got })

/-- What stands in the file from its position on. -/
def ahead : Mem := fun i => f.byte (f.pos + i)

end OpenFile

/-! ## The producer -/

structure FmvVideoCtx where
  fd : Nat
  frameN : Nat
  nframes : Nat
  /-- The audio in front of each unit. -/
  abytes : Nat
  prevPal : Mem
  dma : Nat
  eof : Bool

namespace FmvVideoCtx

variable (c : FmvVideoCtx)

/-- The size of the read buffer; the sum is 32 bits wide. -/
def unitBytes : Nat := (c.abytes + fmvVideoBlockBytes) % 0x100000000

/-- The unit is split inside the read buffer. -/
def Within : Prop := c.abytes + fmvVideoBlockBytes ≤ c.unitBytes

instance : Decidable c.Within := inferInstanceAs (Decidable (_ ≤ _))

/-- `fmv_video_fill`. -/
def fill (f : OpenFile) (limit : Option Nat) : Option MgCompleteFrame × FmvVideoCtx × OpenFile :=
  if c.nframes ≤ c.frameN then (none, { c with eof := true }, f)
  else
    let r := f.readFull c.unitBytes limit
    if r.1 ≠ c.unitBytes then (none, { c with eof := true }, r.2)
    else
      let cg : Mem := fun i => f.ahead (c.abytes + i)
      let tms : Mem := fun i => f.ahead (c.abytes + fmvCgramBytes + i)
      let chr : Mem := fun i => f.ahead (c.abytes + fmvCgramBytes + fmvTmSrcBytes + i)
      (some (completeFrame c.frameN c.prevPal tms chr),
        { c with prevPal := cg, frameN := c.frameN + 1 }, r.2)

end FmvVideoCtx

/-! ## What a frame writes and what it displays -/

/-- The words of VRAM that the slot transfers to. -/
def vramWords (s : StagedSlot) (a : Nat) : Prop :=
  s.bbus = bbusVmdatal ∧ s.prep.toNat ≤ a ∧ a < s.prep.toNat + s.transferBytes / 2

/-- The colors of CGRAM that it transfers to. -/
def cgramColors (s : StagedSlot) (k : Nat) : Prop :=
  s.bbus = bbusCgdata ∧ s.prep.toNat ≤ k ∧ k < s.prep.toNat + s.transferBytes / 2

def bg1Tilemap (b : PpuBatch) : Nat := b.bg1sc.toNat / 4 * 1024

def bg1Chr (b : PpuBatch) : Nat := b.bg12nba.toNat % 16 * 4096

/-- The words of VRAM that BG1 is displayed from: the tilemap, and the characters of `tiles` tiles. -/
def displayedWords (b : PpuBatch) (tiles a : Nat) : Prop :=
  (bg1Tilemap b ≤ a ∧ a < bg1Tilemap b + 1024) ∨ (bg1Chr b ≤ a ∧ a < bg1Chr b + tiles * 16)

section Buffers

variable {n : Nat} {prevPal tms chr : Mem}

/-- Both buffers with their fronts: what depends on the parity of a frame. -/
theorem forall_parity {P : BitVec 16 → BitVec 16 → BitVec 16 → BitVec 16 → Prop}
    (ha : P tmAWord chrAWord tmBWord chrBWord) (hb : P tmBWord chrBWord tmAWord chrAWord) (n : Nat) :
    P (if backIsA n then tmAWord else tmBWord) (if backIsA n then chrAWord else chrBWord)
      (if backIsA n then tmBWord else tmAWord) (if backIsA n then chrBWord else chrAWord) := by
  cases backIsA n
  · exact hb
  · exact ha

def SlotApart (b : PpuBatch) (s : StagedSlot) : Prop :=
  s.bbus = bbusVmdatal →
    (s.prep.toNat + s.transferBytes / 2 ≤ bg1Tilemap b ∨ bg1Tilemap b + 1024 ≤ s.prep.toNat) ∧
      (s.prep.toNat + s.transferBytes / 2 ≤ bg1Chr b ∨
        bg1Chr b + (fmvNtiles + 1) * 16 ≤ s.prep.toNat)

instance (b : PpuBatch) (s : StagedSlot) : Decidable (SlotApart b s) :=
  inferInstanceAs (Decidable (_ → _))

/-- No slot of a frame writes what the frame displays, the blank tile included. -/
theorem completeFrame_apart {sf : SubFrame} {s : StagedSlot} {a : Nat}
    (hsf : sf ∈ (completeFrame n prevPal tms chr).subframes) (hs : s ∈ sf) (ha : vramWords s a) :
    ¬displayedWords (completeFrame n prevPal tms chr).ppuBatch (fmvNtiles + 1) a := by
  have hall : ∀ sf ∈ (completeFrame n prevPal tms chr).subframes, ∀ s ∈ sf,
      SlotApart (completeFrame n prevPal tms chr).ppuBatch s :=
    forall_parity (P := fun tm ch tm' ch' => ∀ sf ∈ subframes tm ch, ∀ s ∈ sf,
      SlotApart (ppuBatch tm' ch') s) (by decide) (by decide) n
  have hslot := hall sf hsf s hs ha.1
  obtain ⟨-, hlo, hhi⟩ := ha
  unfold displayedWords
  omega

theorem vramWords_vmdata {prep src : BitVec 16} {size a : Nat} (hsize : size < 0x10000)
    (hpos : 0 < size) (hlo : prep.toNat ≤ a) (hhi : a < prep.toNat + size / 2) :
    vramWords ⟨bbusVmdatal, dmap2b2r, prep, src, BitVec.ofNat 16 size⟩ a := by
  have hnat : (BitVec.ofNat 16 size).toNat = size := by
    rw [BitVec.toNat_ofNat]
    omega
  refine ⟨rfl, hlo, ?_⟩
  unfold StagedSlot.transferBytes
  have hne : BitVec.ofNat 16 size ≠ 0 := by
    intro h0
    rw [h0, BitVec.ofNat_eq_ofNat, BitVec.toNat_zero] at hnat
    omega
  rw [if_neg hne, hnat]
  exact hhi

theorem subframes_fill {tm ch : BitVec 16} {a : Nat} (hch : ch.toNat + fmvNtiles * 16 < 0x10000)
    (ha : (tm.toNat ≤ a ∧ a < tm.toNat + 1024) ∨ (ch.toNat ≤ a ∧ a < ch.toNat + fmvNtiles * 16)) :
    ∃ sf ∈ subframes tm ch, ∃ s ∈ sf, vramWords s a := by
  have hl := layout
  have hprep : ∀ n < 12480, (ch + BitVec.ofNat 16 n).toNat = ch.toNat + n := by
    intro n hn
    rw [BitVec.toNat_add, BitVec.toNat_ofNat]
    omega
  have h1 := hprep (chrC1 / 2) (by decide)
  have h2 := hprep ((chrC1 + chrC2) / 2) (by decide)
  have h3 := hprep ((chrC1 + chrC2 + chrC3) / 2) (by decide)
  unfold subframes
  dsimp only
  rcases ha with ⟨hlo, hhi⟩ | ⟨hlo, hhi⟩
  · exact ⟨_, .head _, _, .tail _ (.head _), vramWords_vmdata (by decide) (by decide) hlo hhi⟩
  by_cases hc1 : a < ch.toNat + chrC1 / 2
  · exact ⟨_, .head _, _, .tail _ (.tail _ (.head _)),
      vramWords_vmdata (by decide) (by decide) hlo hc1⟩
  by_cases hc2 : a < ch.toNat + (chrC1 + chrC2) / 2
  · exact ⟨_, .tail _ (.head _), _, .head _,
      vramWords_vmdata (by decide) (by decide) (by omega) (by omega)⟩
  by_cases hc3 : a < ch.toNat + (chrC1 + chrC2 + chrC3) / 2
  · exact ⟨_, .tail _ (.tail _ (.head _)), _, .head _,
      vramWords_vmdata (by decide) (by decide) (by omega) (by omega)⟩
  · exact ⟨_, .tail _ (.tail _ (.tail _ (.head _))), _, .head _,
      vramWords_vmdata (by decide) (by decide) (by omega) (by omega)⟩

theorem backIsA_succ (n : Nat) : backIsA (n + 1) = !backIsA n := by
  unfold backIsA
  rcases Nat.mod_two_eq_zero_or_one n with h | h
  · rw [Nat.add_mod, h]
    rfl
  · rw [Nat.add_mod, h]
    rfl

/-- What a frame displays, the slots of the frame before it have filled. -/
theorem completeFrame_shows {pal tms' chr' : Mem} {a : Nat}
    (ha : displayedWords (completeFrame (n + 1) pal tms' chr').ppuBatch fmvNtiles a) :
    ∃ sf ∈ (completeFrame n prevPal tms chr).subframes, ∃ s ∈ sf, vramWords s a := by
  unfold completeFrame at ha ⊢
  dsimp only at ha ⊢
  rw [backIsA_succ] at ha
  cases hp : backIsA n
  · rw [hp] at ha
    exact subframes_fill (by decide) ha
  · rw [hp] at ha
    exact subframes_fill (by decide) ha

/-- The colors of the background come from the front of the payload, which holds the palette. -/
theorem completeFrame_colors {sf : SubFrame} {s : StagedSlot} {k : Nat}
    (hsf : sf ∈ (completeFrame n prevPal tms chr).subframes) (hs : s ∈ sf) (hk : cgramColors s k)
    (hlt : k < fmvCgramBytes / 2) :
    s.prep = 0 ∧ s.src.toNat = offCgram ∧ s.transferBytes = fmvCgramBytes := by
  have hall : ∀ sf ∈ (completeFrame n prevPal tms chr).subframes, ∀ s ∈ sf, s.bbus = bbusCgdata →
      s.prep.toNat < fmvCgramBytes / 2 →
      s.prep = 0 ∧ s.src.toNat = offCgram ∧ s.transferBytes = fmvCgramBytes :=
    forall_parity (P := fun tm ch _ _ => ∀ sf ∈ subframes tm ch, ∀ s ∈ sf, s.bbus = bbusCgdata →
      s.prep.toNat < fmvCgramBytes / 2 →
      s.prep = 0 ∧ s.src.toNat = offCgram ∧ s.transferBytes = fmvCgramBytes)
      (by decide) (by decide) n
  exact hall sf hsf s hs hk.1 (Nat.lt_of_le_of_lt hk.2.1 hlt)

end Buffers

/-! ## Clips -/

/-- What a file holds behind its header. -/
structure Clip where
  byte : Mem
  size : Nat
  nframes : Nat
  abytes : Nat

namespace Clip

variable (clip : Clip)

def unitBytes : Nat := (clip.abytes + fmvVideoBlockBytes) % 0x100000000

/-- The units that the header promises and the file has. -/
def count : Nat := min clip.nframes (clip.size / clip.unitBytes)

/-- Unit `n` from `off` bytes behind its audio on. -/
def part (n off : Nat) : Mem := fun i => clip.byte (n * clip.unitBytes + (clip.abytes + off + i))

/-- The palette that is loaded with unit `n`: that of the unit before, and black for the first. -/
def palette : Nat → Mem
  | 0 => fun _ => 0
  | n + 1 => clip.part n 0

def frame (n : Nat) : MgCompleteFrame :=
  completeFrame n (clip.palette n) (clip.part n fmvCgramBytes)
    (clip.part n (fmvCgramBytes + fmvTmSrcBytes))

/-- The producer's position in the clip. -/
structure At (c : FmvVideoCtx) (f : OpenFile) : Prop where
  nframes : c.nframes = clip.nframes
  abytes : c.abytes = clip.abytes
  prevPal : c.prevPal = clip.palette c.frameN
  ahead : ∀ i, f.ahead i = clip.byte (c.frameN * clip.unitBytes + i)
  left : f.size - f.pos = clip.size - c.frameN * clip.unitBytes
  within : c.Within

variable {clip} {c : FmvVideoCtx} {f : OpenFile}

theorem At.unitBytes (h : clip.At c f) : c.unitBytes = clip.unitBytes := by
  unfold FmvVideoCtx.unitBytes Clip.unitBytes
  rw [h.abytes]

theorem At.unitBytes_pos (h : clip.At c f) : 0 < clip.unitBytes := by
  have hw := h.within
  have hblock : fmvVideoBlockBytes = 26776 := rfl
  unfold FmvVideoCtx.Within at hw
  rw [h.unitBytes] at hw
  omega

theorem At.lt_count_iff (h : clip.At c f) :
    c.frameN < clip.count ↔ c.frameN < c.nframes ∧ c.unitBytes ≤ f.size - f.pos := by
  unfold count
  rw [Nat.lt_min, h.left, h.nframes, h.unitBytes, Nat.lt_iff_add_one_le (n := clip.size / _),
    Nat.le_div_iff_mul_le h.unitBytes_pos, Nat.succ_mul]
  have := h.unitBytes_pos
  omega

theorem At.fill_frame (h : clip.At c f) {limit : Option Nat} (hlt : c.frameN < clip.count)
    (hread : (f.readFull c.unitBytes limit).1 = c.unitBytes) :
    ∃ c' f', c.fill f limit = (some (clip.frame c.frameN), c', f') ∧
      c' = { c with frameN := c.frameN + 1, prevPal := clip.palette (c.frameN + 1) } ∧
      f' = { f with pos := f.pos + c.unitBytes } ∧ clip.At c' f' := by
  obtain ⟨hn, hle⟩ := h.lt_count_iff.mp hlt
  have hpart : ∀ off : Nat, (fun i => f.ahead (c.abytes + off + i)) = clip.part c.frameN off := by
    intro off
    funext i
    rw [h.ahead, h.abytes]
    rfl
  have hpos : (f.readFull c.unitBytes limit).2 = { f with pos := f.pos + c.unitBytes } :=
    congrArg (fun n => { f with pos := f.pos + n }) hread
  refine ⟨_, _, ?_, rfl, rfl, h.nframes, h.abytes, rfl, fun i => ?_, ?_, h.within⟩
  · unfold FmvVideoCtx.fill
    dsimp only
    rw [if_neg (Nat.not_le.mpr hn), if_neg (not_not_intro hread), hpos]
    have hcg := hpart 0
    have htms := hpart fmvCgramBytes
    have hchr := hpart (fmvCgramBytes + fmvTmSrcBytes)
    rw [Nat.add_zero] at hcg
    rw [← Nat.add_assoc] at hchr
    rw [hcg, htms, hchr, h.prevPal]
    rfl
  · have ha := h.ahead (c.unitBytes + i)
    unfold OpenFile.ahead at ha ⊢
    rw [← Nat.add_assoc] at ha
    rw [ha, h.unitBytes]
    dsimp only
    rw [Nat.succ_mul, Nat.add_assoc]
  · have hleft := h.left
    dsimp only
    rw [Nat.succ_mul, ← h.unitBytes]
    rw [← h.unitBytes] at hleft
    omega

theorem At.fill_end (h : clip.At c f) (limit : Option Nat) (hge : clip.count ≤ c.frameN) :
    ∃ f', c.fill f limit = (none, { c with eof := true }, f') := by
  unfold FmvVideoCtx.fill
  by_cases hn : c.nframes ≤ c.frameN
  · rw [if_pos hn]
    exact ⟨_, rfl⟩
  · rw [if_neg hn]
    have hshort : (f.readFull c.unitBytes limit).1 ≠ c.unitBytes := by
      have hlt : f.size - f.pos < c.unitBytes := by
        by_contra hle
        exact Nat.not_lt.mpr hge (h.lt_count_iff.mpr ⟨by omega, by omega⟩)
      unfold OpenFile.readFull
      dsimp only
      omega
    dsimp only
    rw [if_pos hshort]
    exact ⟨_, rfl⟩

end Clip

end Microgarbage.Fmv
