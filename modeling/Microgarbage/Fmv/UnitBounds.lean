import Microgarbage.Fmv.Player

/-!
# What the producer touches

The accesses of `fmv_video_fill` to its read buffer, to the payload of the slot it fills and to the
slot's descriptor arrays. Offsets into the read buffer are pointers of their own, but for the one that
goes through the DMA engine, which is reckoned in 32 bits and cut to its region.
-/

namespace Microgarbage.Fmv

open Lib Cart List

abbrev mgFramePayloadBytes : Nat := offHdmaTables

abbrev mgMaxSubframes : Nat := 8

/-- The slots of a `SubFrame`. -/
abbrev subframeSlots : Nat := 8

/-- `clamp_len`, for a transfer that does not repeat its source. -/
def clampLen (srcSize srcOff dstSize dstOff len : Nat) : Nat :=
  let dAvail := if dstOff < dstSize then dstSize - dstOff else 0
  let sAvail := if srcOff < srcSize then srcSize - srcOff else 0
  let len := if sAvail < len then sAvail else len
  if dAvail < len then dAvail else len

/-- A read of the unit, a write into the payload, or a write of a descriptor. -/
inductive Touch
  | unit (off len : Nat)
  | payload (off len : Nat)
  | slot (i j : Nat)
  deriving DecidableEq

/-- The access stays inside a unit of `size` bytes, the payload or the arrays. -/
def Touch.Inside (size : Nat) : Touch → Prop
  | .unit off len => len = 0 ∨ off + len ≤ size
  | .payload off len => off + len ≤ mgFramePayloadBytes
  | .slot i j => i < mgMaxSubframes ∧ j < subframeSlots

/-- The frames that `audio_ring_stream_push` takes, when there is a ring with `room` free. -/
def audioTouches (abytes : Nat) : Option Nat → List Touch
  | none => []
  | some room => [.unit 0 (4 * min (abytes / 4) room)]

def paletteTouches : List Touch :=
  [.payload offCgram (clampLen fmvCgramBytes 0 mgFramePayloadBytes offCgram fmvCgramBytes)]

/-- The blank cells, and a row of the unit's cells after the other. -/
def tilemapTouches (abytes : Nat) : List Touch :=
  ((List.range (32 * 32)).map fun i => .payload (offTm + 2 * i) 2) ++
    (List.range fmvTh).flatMap fun r =>
      [.unit (abytes + fmvCgramBytes + r * (fmvTw * 2)) (fmvTw * 2),
        .payload (offTm + 2 * ((r + 1) * 32 + 1)) (fmvTw * 2)]

def chrTouches (abytes unitBytes : Nat) : List Touch :=
  let chrOff := (abytes + fmvCgramBytes + fmvTmSrcBytes) % 0x100000000
  let len := clampLen unitBytes chrOff mgFramePayloadBytes offC1 chrUsed
  [.unit chrOff len, .payload offC1 len]

def slotTouches (sfs : List SubFrame) : List Touch :=
  sfs.zipIdx.flatMap fun sf => (List.range sf.1.length).map fun j => .slot sf.2 j

/-- The palette is kept for the next frame. -/
def keepTouches (abytes : Nat) : List Touch := [.unit abytes fmvCgramBytes]

namespace FmvVideoCtx

variable (c : FmvVideoCtx)

/-- What a fill touches that has read its unit. -/
def touches (room : Option Nat) (frame : MgCompleteFrame) : List Touch :=
  audioTouches c.abytes room ++ paletteTouches ++ tilemapTouches c.abytes ++
    chrTouches c.abytes c.unitBytes ++ slotTouches frame.subframes ++ keepTouches c.abytes

/-- What a fill touches; without a whole unit it touches nothing. -/
def fillTouches (f : OpenFile) (limit room : Option Nat) : List Touch :=
  (c.fill f limit).1.elim [] (c.touches room)

end FmvVideoCtx

/-- The calls of a producer: where its reads end early, and the room in the audio ring. -/
def runTouches : FmvVideoCtx → OpenFile → List (Option Nat × Option Nat) → List Touch
  | _, _, [] => []
  | c, f, (limit, room) :: calls =>
    c.fillTouches f limit room ++
      runTouches (c.fill f limit).2.1 (c.fill f limit).2.2 calls

/-- `fmv_video_stream_open` -/
def fmvVideoStreamOpen (fd nframes abytes dma : Nat) : FmvVideoCtx :=
  ⟨fd, 0, nframes, abytes, fun _ => 0, dma, false⟩

/-- No read of the run gets a whole unit. -/
def NeverWhole (unitBytes : Nat) : OpenFile → List (Option Nat × Option Nat) → Prop
  | _, [] => True
  | f, call :: calls =>
    (f.readFull unitBytes call.1).1 ≠ unitBytes ∧
      NeverWhole unitBytes (f.readFull unitBytes call.1).2 calls

/-! ## Single fills -/

theorem unitLayout : offTm = 256 ∧ offC1 = 2304 ∧ fmvCgramBytes = 256 ∧ fmvTmSrcBytes = 1560 ∧
    fmvTw = 30 ∧ fmvTh = 26 ∧ chrUsed = 24960 ∧ fmvVideoBlockBytes = 26776 ∧
      mgFramePayloadBytes = 28672 := ⟨rfl, rfl, rfl, rfl, rfl, rfl, rfl, rfl, rfl⟩

theorem clampLen_le (srcSize srcOff dstSize dstOff len : Nat) :
    (clampLen srcSize srcOff dstSize dstOff len = 0 ∨
      srcOff + clampLen srcSize srcOff dstSize dstOff len ≤ srcSize) ∧
      (dstOff ≤ dstSize → dstOff + clampLen srcSize srcOff dstSize dstOff len ≤ dstSize) := by
  unfold clampLen
  grind

section

variable {size abytes : Nat} {t : Touch}

theorem audioTouches_inside (h : abytes ≤ size) {room : Option Nat}
    (ht : t ∈ audioTouches abytes room) : t.Inside size := by
  cases room with
  | none => exact absurd ht not_mem_nil
  | some room =>
    rw [mem_singleton.mp ht]
    refine .inr ?_
    omega

theorem paletteTouches_inside (ht : t ∈ paletteTouches) : t.Inside size := by
  rw [mem_singleton.mp ht]
  exact (clampLen_le ..).2 (by decide)

theorem tilemapTouches_inside (h : abytes + fmvVideoBlockBytes ≤ size)
    (ht : t ∈ tilemapTouches abytes) : t.Inside size := by
  have hl := unitLayout
  rcases mem_append.mp ht with ht | ht
  · obtain ⟨i, hi, rfl⟩ := mem_map.mp ht
    have hi := mem_range.mp hi
    show offTm + 2 * i + 2 ≤ mgFramePayloadBytes
    omega
  · obtain ⟨r, hr, ht⟩ := mem_flatMap.mp ht
    have hr := mem_range.mp hr
    rcases mem_cons.mp ht with rfl | ht
    · refine .inr ?_
      show abytes + fmvCgramBytes + r * 60 + 60 ≤ size
      omega
    · rw [mem_singleton.mp ht]
      show offTm + 2 * ((r + 1) * 32 + 1) + fmvTw * 2 ≤ mgFramePayloadBytes
      omega

theorem chrTouches_inside (ht : t ∈ chrTouches abytes size) : t.Inside size := by
  rcases mem_cons.mp ht with rfl | ht
  · exact (clampLen_le ..).1
  · rw [mem_singleton.mp ht]
    exact (clampLen_le ..).2 (by decide)

theorem slotTouches_inside {n : Nat} {prevPal tms chr : Mem}
    (ht : t ∈ slotTouches (completeFrame n prevPal tms chr).subframes) : t.Inside size := by
  obtain ⟨⟨sf, i⟩, hsf, ht⟩ := mem_flatMap.mp ht
  obtain ⟨j, hj, rfl⟩ := mem_map.mp ht
  have hshape : ∀ x ∈ (completeFrame n prevPal tms chr).subframes.zipIdx,
      x.2 < mgMaxSubframes ∧ x.1.length ≤ subframeSlots :=
    forall_parity (P := fun tm ch _ _ => ∀ x ∈ (subframes tm ch).zipIdx,
      x.2 < mgMaxSubframes ∧ x.1.length ≤ subframeSlots) (by decide) (by decide) n
  obtain ⟨hi, hlen⟩ := hshape (sf, i) hsf
  exact ⟨hi, Nat.lt_of_lt_of_le (mem_range.mp hj) hlen⟩

theorem keepTouches_inside_iff (ht : t ∈ keepTouches abytes) :
    t.Inside size ↔ abytes + fmvCgramBytes ≤ size := by
  rw [mem_singleton.mp ht]
  exact or_iff_right (by decide)

end

namespace FmvVideoCtx

variable {c : FmvVideoCtx} {f : OpenFile} {limit room : Option Nat}

/-- A fill that touches anything has read a whole unit of a frame that is due. -/
theorem fill_cases (c : FmvVideoCtx) (f : OpenFile) (limit : Option Nat) :
    (c.nframes ≤ c.frameN ∧ c.fill f limit = (none, { c with eof := true }, f)) ∨
      ((f.readFull c.unitBytes limit).1 ≠ c.unitBytes ∧
        c.fill f limit = (none, { c with eof := true }, (f.readFull c.unitBytes limit).2)) ∨
      (c.frameN < c.nframes ∧ (f.readFull c.unitBytes limit).1 = c.unitBytes ∧
        ∃ prevPal tms chr c', c.fill f limit = (some (completeFrame c.frameN prevPal tms chr), c',
          (f.readFull c.unitBytes limit).2) ∧ c'.abytes = c.abytes) := by
  unfold fill
  dsimp only
  split
  case isTrue hdone => exact .inl ⟨hdone, rfl⟩
  split
  case isTrue hshort => exact .inr (.inl ⟨hshort, rfl⟩)
  case isFalse hdue hwhole =>
    exact .inr (.inr ⟨by omega, not_not.mp hwhole, _, _, _, _, rfl, rfl⟩)

theorem fillTouches_inside (h : c.abytes + fmvVideoBlockBytes < 0x100000000) :
    ∀ t ∈ c.fillTouches f limit room, t.Inside c.unitBytes := by
  have hsize : c.unitBytes = c.abytes + fmvVideoBlockBytes := Nat.mod_eq_of_lt h
  have hl := unitLayout
  intro t ht
  unfold fillTouches at ht
  rcases c.fill_cases f limit with ⟨-, heq⟩ | ⟨-, heq⟩ | ⟨-, -, prevPal, tms, chr, c', heq, -⟩
  · rw [heq] at ht
    exact absurd ht not_mem_nil
  · rw [heq] at ht
    exact absurd ht not_mem_nil
  · rw [heq] at ht
    unfold touches at ht
    simp only [Option.elim_some, mem_append] at ht
    rcases ht with ((((ht | ht) | ht) | ht) | ht) | ht
    · exact audioTouches_inside (by omega) ht
    · exact paletteTouches_inside ht
    · exact tilemapTouches_inside (Nat.le_of_eq hsize.symm) ht
    · exact chrTouches_inside ht
    · exact slotTouches_inside ht
    · exact (keepTouches_inside_iff ht).mpr (by omega)

end FmvVideoCtx

/-! ## Runs -/

section

variable {c : FmvVideoCtx} {f : OpenFile}

theorem FmvVideoCtx.fill_abytes (c : FmvVideoCtx) (f : OpenFile) (limit : Option Nat) :
    (c.fill f limit).2.1.abytes = c.abytes := by
  rcases c.fill_cases f limit with ⟨-, heq⟩ | ⟨-, heq⟩ | ⟨-, -, prevPal, tms, chr, c', heq, habytes⟩
  · rw [heq]
  · rw [heq]
  · rw [heq]
    exact habytes

theorem runTouches_inside (h : c.abytes + fmvVideoBlockBytes < 0x100000000)
    (calls : List (Option Nat × Option Nat)) :
    ∀ t ∈ runTouches c f calls, t.Inside c.unitBytes := by
  induction calls generalizing c f with
  | nil => exact fun t ht => absurd ht not_mem_nil
  | cons call calls ih =>
    intro t ht
    rcases mem_append.mp ht with ht | ht
    · exact FmvVideoCtx.fillTouches_inside h t ht
    · have habytes := c.fill_abytes f call.1
      have hrest := ih (by rw [habytes]; exact h) t ht
      unfold FmvVideoCtx.unitBytes at hrest ⊢
      rwa [habytes] at hrest

/-- A fill without a whole unit touches nothing, and its frame stays due. -/
theorem fillTouches_short {limit : Option Nat} (room : Option Nat) (hdue : c.frameN < c.nframes)
    (h : (f.readFull c.unitBytes limit).1 ≠ c.unitBytes) :
    c.fillTouches f limit room = [] ∧
      (c.fill f limit).2 = ({ c with eof := true }, (f.readFull c.unitBytes limit).2) := by
  unfold FmvVideoCtx.fillTouches
  rcases c.fill_cases f limit with ⟨hdone, -⟩ | ⟨-, heq⟩ | ⟨-, hwhole, -⟩
  · omega
  · rw [heq]
    exact ⟨rfl, rfl⟩
  · exact absurd hwhole h

theorem runTouches_short (hdue : c.frameN < c.nframes) (calls : List (Option Nat × Option Nat))
    (h : NeverWhole c.unitBytes f calls) : runTouches c f calls = [] := by
  induction calls generalizing c f with
  | nil => rfl
  | cons call calls ih =>
    obtain ⟨hnone, hnext⟩ := fillTouches_short call.2 hdue h.1
    rw [runTouches, hnone, hnext]
    exact ih (c := { c with eof := true }) hdue h.2

theorem neverWhole_of_inside (hlt : c.abytes < 0x100000000)
    (hwrap : 0x100000000 ≤ c.abytes + fmvVideoBlockBytes) (hdue : c.frameN < c.nframes)
    (calls : List (Option Nat × Option Nat))
    (h : ∀ t ∈ runTouches c f calls, t.Inside c.unitBytes) : NeverWhole c.unitBytes f calls := by
  induction calls generalizing c f with
  | nil => exact trivial
  | cons call calls ih =>
    have hshort : (f.readFull c.unitBytes call.1).1 ≠ c.unitBytes := by
      intro hwhole
      rcases c.fill_cases f call.1 with ⟨hdone, -⟩ | ⟨hno, -⟩ | ⟨-, -, prevPal, tms, chr, c', heq, -⟩
      · omega
      · exact hno hwhole
      have hkeep : Touch.unit c.abytes fmvCgramBytes ∈ runTouches c f (call :: calls) := by
        refine mem_append_left _ ?_
        unfold FmvVideoCtx.fillTouches FmvVideoCtx.touches
        rw [heq]
        exact mem_append_right _ mem_cons_self
      have hpal := (keepTouches_inside_iff mem_cons_self).mp (h _ hkeep)
      have hl := unitLayout
      unfold FmvVideoCtx.unitBytes at hpal
      omega
    obtain ⟨-, hnext⟩ := fillTouches_short call.2 hdue hshort
    refine ⟨hshort, ih (c := { c with eof := true }) hlt hwrap hdue fun t ht => h t ?_⟩
    refine mem_append_right _ ?_
    rw [hnext]
    exact ht

end

/-- For every clip that the player accepts, every file and every run of its producer: all accesses
are inside exactly when the size of a unit does not wrap, or no unit of the wrapped size is ever
read. -/
theorem producer_inside_iff {f : OpenFile} {nframes abytes : Nat}
    (h : Sys.headerOf f.ahead = some (nframes, abytes)) (limit : Option Nat) (fd dma : Nat)
    (calls : List (Option Nat × Option Nat)) :
    (∀ t ∈ runTouches (fmvVideoStreamOpen fd nframes abytes dma) (f.readFull 32 limit).2 calls,
        t.Inside ((abytes + fmvVideoBlockBytes) % 0x100000000)) ↔
      abytes + fmvVideoBlockBytes < 0x100000000 ∨
        NeverWhole ((abytes + fmvVideoBlockBytes) % 0x100000000) (f.readFull 32 limit).2 calls := by
  obtain ⟨hdue, hlt⟩ : 0 < nframes ∧ abytes < 0x100000000 := by
    unfold Sys.headerOf at h
    dsimp only at h
    split at h
    case isFalse => cases h
    case isTrue hok =>
      cases h
      exact ⟨Nat.pos_of_ne_zero hok.2.1, BitVec.isLt _⟩
  have hdue' : (fmvVideoStreamOpen fd nframes abytes dma).frameN <
      (fmvVideoStreamOpen fd nframes abytes dma).nframes := hdue
  constructor
  · intro hinside
    by_cases hwrap : abytes + fmvVideoBlockBytes < 0x100000000
    · exact .inl hwrap
    · exact .inr (neverWhole_of_inside hlt (Nat.not_lt.mp hwrap) hdue' calls hinside)
  · rintro (hfit | hshort)
    · exact runTouches_inside (c := fmvVideoStreamOpen fd nframes abytes dma) hfit calls
    · intro t ht
      rw [runTouches_short hdue' calls hshort] at ht
      exact absurd ht not_mem_nil

/-- A file of `size` bytes, all zero behind the header. -/
def headerFile (nframes : Byte) (abytes : BitVec 32) (size : Nat) : OpenFile where
  byte i := [0x46, 0x4D, 0x56, 0x32, 0, 0, 0, 0, 0, 0, 0, 0, nframes, 0, 0, 0, 0, 0, 0, 0, 0, 0, 0, 0,
    byteOf abytes 0, byteOf abytes 1, byteOf abytes 2, byteOf abytes 3, 0, 0, 0, 0].getD i 0
  size := size
  pos := 0

/-- The file has a whole unit and the first hundred bytes of another one. -/
theorem producer_inside_cut :
    let f := headerFile 2 8 26916
    let first := (f.readFull 32 none).2.readFull 26784 none
    Sys.headerOf f.ahead = some (2, 8) ∧ first.1 = 26784 ∧ (first.2.readFull 26784 none).1 = 100 ∧
      ∀ t ∈ runTouches (fmvVideoStreamOpen 3 2 8 0) (f.readFull 32 none).2
        [(none, some 4), (none, none)], t.Inside 26784 :=
  ⟨by decide, by decide, by decide, (producer_inside_iff (f := headerFile 2 8 26916) (by decide)
    none 3 0 [(none, some 4), (none, none)]).mpr (.inl (by decide))⟩

/-- A unit of no bytes at all is read whole from a file that has ended. -/
theorem empty_unit_outside :
    Sys.headerOf (headerFile 1 0xFFFF9768 32).ahead = some (1, 0xFFFF9768) ∧
    ¬∀ t ∈ runTouches (fmvVideoStreamOpen 3 1 0xFFFF9768 0)
      ((headerFile 1 0xFFFF9768 32).readFull 32 none).2 [(none, none)], t.Inside 0 := by
  refine ⟨by decide, fun h => ?_⟩
  exact (neverWhole_of_inside (c := fmvVideoStreamOpen 3 1 0xFFFF9768 0) (by decide) (by decide)
    (by decide) [(none, none)] h).1 (by decide)

end Microgarbage.Fmv
