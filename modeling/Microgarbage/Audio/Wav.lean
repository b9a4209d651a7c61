import Microgarbage.Lib.Bytes
import Microgarbage.Lib.ChunkWalk

/-!
# The WAV header parser

`wav_parse` of `audio_wav_read.c` walks the chunks of a RIFF file and remembers the format of every
`fmt ` chunk and the range of every `data` chunk, the later one over the earlier one. The size of a
chunk is a 32-bit word and the way to the next chunk is reckoned in 32 bits; positions are as wide
as the file.
-/

namespace Microgarbage.Audio

open Lib BitVec

/-- Why a parse has no result: it reads outside the file, or its rounds have run out. -/
inductive WavStop where
  | outside
  | rounds
  deriving DecidableEq

inductive WavResult where
  | ok
  | errTooSmall
  | errBadMagic
  | errNotPcm
  | errNoData
  | errUnsupported
  deriving DecidableEq

/-- `WavInfo`; the pointer to the data is an offset in the file. -/
structure WavInfo where
  format : BitVec 16
  channels : BitVec 16
  sampleRate : BitVec 32
  bits : BitVec 16
  data : Option Nat
  dataBytes : BitVec 32
  deriving DecidableEq

def WavInfo.zero : WavInfo := ⟨0, 0, 0, 0, none, 0⟩

structure WavWalk where
  info : WavInfo
  haveFmt : Bool
  haveData : Bool
  deriving DecidableEq

def tagRiff : List Byte := [0x52, 0x49, 0x46, 0x46]

def tagWave : List Byte := [0x57, 0x41, 0x56, 0x45]

def tagFmt : List Byte := [0x66, 0x6d, 0x74, 0x20]

def tagData : List Byte := [0x64, 0x61, 0x74, 0x61]

section Parser

variable (buf : List Byte)

def rdByte (p : Nat) : Except WavStop Byte :=
  match buf[p]? with
  | some b => .ok b
  | none => .error .outside

def rdU16le (p : Nat) : Except WavStop (BitVec 16) := do
  let b₀ ← rdByte buf p
  let b₁ ← rdByte buf (p + 1)
  return b₁ ++ b₀

def rdU32le (p : Nat) : Except WavStop (BitVec 32) := do
  let b₀ ← rdByte buf p
  let b₁ ← rdByte buf (p + 1)
  let b₂ ← rdByte buf (p + 2)
  let b₃ ← rdByte buf (p + 3)
  return b₃ ++ b₂ ++ b₁ ++ b₀

/-- `memcmp` of four bytes. -/
def isTag (p : Nat) (tag : List Byte) : Except WavStop Bool := do
  let b₀ ← rdByte buf p
  let b₁ ← rdByte buf (p + 1)
  let b₂ ← rdByte buf (p + 2)
  let b₃ ← rdByte buf (p + 3)
  return [b₀, b₁, b₂, b₃] == tag

/-- One chunk, whose size has been read. -/
def wavChunk (pos : Nat) (size : BitVec 32) (w : WavWalk) : Except WavStop WavWalk := do
  let avail := buf.length - (pos + 8)
  let use := if size.toNat ≤ avail then size else BitVec.ofNat 32 avail
  let fmt ← isTag buf pos tagFmt
  if fmt ∧ 16 ≤ use.toNat then
    let format ← rdU16le buf (pos + 8)
    let channels ← rdU16le buf (pos + 8 + 2)
    let sampleRate ← rdU32le buf (pos + 8 + 4)
    let bits ← rdU16le buf (pos + 8 + 14)
    return { w with info := { w.info with format, channels, sampleRate, bits }, haveFmt := true }
  else
    let data ← isTag buf pos tagData
    if data then
      return { w with info := { w.info with data := some (pos + 8), dataBytes := use }, haveData := true }
    else
      return w

def wavLoop : Nat → Nat → WavWalk → Except WavStop WavWalk
  | 0, _, _ => .error .rounds
  | rounds + 1, pos, w =>
    if pos + 8 ≤ buf.length then do
      let size ← rdU32le buf (pos + 4)
      let w ← wavChunk buf pos size w
      wavLoop rounds (pos + (8 + size + (size &&& 1)).toNat) w
    else
      .ok w

def WavWalk.result (w : WavWalk) : WavResult :=
  if ¬ w.haveFmt then .errNoData
  else if w.info.format ≠ 1 then .errNotPcm
  else if ¬ w.haveData then .errNoData
  else if w.info.channels < 1 ∨ 2 < w.info.channels then .errUnsupported
  else if w.info.bits ≠ 8 ∧ w.info.bits ≠ 16 then .errUnsupported
  else .ok

/-- `wav_parse`, with a bound on the rounds of its loop. -/
def wavParse (rounds : Nat) (out : WavInfo) : Except WavStop (WavResult × WavInfo) :=
  if buf.length < 12 then .ok (.errTooSmall, out)
  else do
    let riff ← isTag buf 0 tagRiff
    if ¬ riff then return (.errBadMagic, .zero)
    let wave ← isTag buf 8 tagWave
    if ¬ wave then return (.errBadMagic, .zero)
    let w ← wavLoop buf rounds 12 ⟨.zero, false, false⟩
    return (w.result, w.info)

end Parser

/-! ## The chunks of a file -/

section Chunks

variable (buf : List Byte)

def u16At (p : Nat) : BitVec 16 := buf.getD (p + 1) 0 ++ buf.getD p 0

def u32At (p : Nat) : BitVec 32 :=
  buf.getD (p + 3) 0 ++ buf.getD (p + 2) 0 ++ buf.getD (p + 1) 0 ++ buf.getD p 0

def hasTag (p : Nat) (tag : List Byte) : Bool :=
  [buf.getD p 0, buf.getD (p + 1) 0, buf.getD (p + 2) 0, buf.getD (p + 3) 0] == tag

def chunkSize (p : Nat) : BitVec 32 := u32At buf (p + 4)

/-- The way to the next chunk. -/
def chunkAdvance (p : Nat) : Nat := (8 + chunkSize buf p + (chunkSize buf p &&& 1)).toNat

/-- As much of the body of a chunk as the file has. -/
def chunkUse (p : Nat) : Nat := min (chunkSize buf p).toNat (buf.length - (p + 8))

/-- A format chunk that is long enough. -/
def isFmt (p : Nat) : Bool := hasTag buf p tagFmt && decide (16 ≤ chunkUse buf p)

def isData (p : Nat) : Bool := hasTag buf p tagData

def visit (w : WavWalk) (p : Nat) : WavWalk :=
  if isFmt buf p then
    { w with
      info := { w.info with
        format := u16At buf (p + 8)
        channels := u16At buf (p + 8 + 2)
        sampleRate := u32At buf (p + 8 + 4)
        bits := u16At buf (p + 8 + 14) }
      haveFmt := true }
  else if isData buf p then
    { w with
      info := { w.info with data := some (p + 8), dataBytes := BitVec.ofNat 32 (chunkUse buf p) }
      haveData := true }
  else w

variable {buf} {p : Nat}

theorem rdByte_ok (h : p < buf.length) : rdByte buf p = .ok (buf.getD p 0) := by
  unfold rdByte
  rw [List.getElem?_eq_getElem h, List.getD_eq_getElem?_getD, List.getElem?_eq_getElem h]
  rfl

theorem rdU16le_ok (h : p + 2 ≤ buf.length) : rdU16le buf p = .ok (u16At buf p) := by
  unfold rdU16le
  rw [rdByte_ok (by omega), rdByte_ok (by omega)]
  rfl

theorem rdU32le_ok (h : p + 4 ≤ buf.length) : rdU32le buf p = .ok (u32At buf p) := by
  unfold rdU32le
  rw [rdByte_ok (by omega), rdByte_ok (by omega), rdByte_ok (by omega), rdByte_ok (by omega)]
  rfl

theorem isTag_ok (tag : List Byte) (h : p + 4 ≤ buf.length) :
    isTag buf p tag = .ok (hasTag buf p tag) := by
  unfold isTag
  rw [rdByte_ok (by omega), rdByte_ok (by omega), rdByte_ok (by omega), rdByte_ok (by omega)]
  rfl

theorem chunkUse_fits (h : p + 8 ≤ buf.length) : p + 8 + chunkUse buf p ≤ buf.length := by
  unfold chunkUse
  omega

theorem wavChunk_ok (h : p + 8 ≤ buf.length) (w : WavWalk) :
    wavChunk buf p (chunkSize buf p) w = .ok (visit buf w p) := by
  have huse : (if (chunkSize buf p).toNat ≤ buf.length - (p + 8) then chunkSize buf p
      else BitVec.ofNat 32 (buf.length - (p + 8))) = BitVec.ofNat 32 (chunkUse buf p) := by
    unfold chunkUse
    split
    · rw [Nat.min_eq_left ‹_›, ofNat_toNat, setWidth_eq]
    · rw [Nat.min_eq_right (by omega)]
  have hlt : chunkUse buf p < 2 ^ 32 :=
    Nat.lt_of_le_of_lt (Nat.min_le_left ..) (chunkSize buf p).isLt
  have hnat : (BitVec.ofNat 32 (chunkUse buf p)).toNat = chunkUse buf p := by
    rw [toNat_ofNat, Nat.mod_eq_of_lt hlt]
  have hfits := chunkUse_fits h
  unfold wavChunk visit
  dsimp only
  rw [huse, hnat, isTag_ok tagFmt (by omega)]
  by_cases hfmt : isFmt buf p = true
  · have hboth := hfmt
    unfold isFmt at hboth
    simp only [Bool.and_eq_true, decide_eq_true_eq] at hboth
    rw [if_pos hfmt, rdU16le_ok (by omega), rdU16le_ok (by omega), rdU32le_ok (by omega),
      rdU16le_ok (by omega)]
    change (if hasTag buf p tagFmt = true ∧ 16 ≤ chunkUse buf p then _ else _) = _
    rw [if_pos hboth]
    rfl
  · have hnot : ¬ (hasTag buf p tagFmt = true ∧ 16 ≤ chunkUse buf p) := by
      unfold isFmt at hfmt
      simpa only [Bool.and_eq_true, decide_eq_true_eq] using hfmt
    rw [if_neg hfmt, isTag_ok tagData (by omega)]
    change (if hasTag buf p tagFmt = true ∧ 16 ≤ chunkUse buf p then _ else _) = _
    rw [if_neg hnot]
    change (if hasTag buf p tagData = true then _ else _) = _
    unfold isData
    split <;> rfl

/-! ## The walk -/

theorem wavLoop_chunk (h : p + 8 ≤ buf.length) (rounds : Nat) (w : WavWalk) :
    wavLoop buf (rounds + 1) p w = wavLoop buf rounds (p + chunkAdvance buf p) (visit buf w p) := by
  rw [wavLoop, if_pos h, rdU32le_ok (by omega)]
  change (wavChunk buf p (chunkSize buf p) w).bind _ = _
  rw [wavChunk_ok h]
  rfl

theorem wavLoop_end (h : buf.length < p + 8) (rounds : Nat) (w : WavWalk) :
    wavLoop buf (rounds + 1) p w = .ok w := by
  rw [wavLoop, if_neg (by omega)]

theorem wavLoop_inside (buf : List Byte) (rounds p : Nat) (w : WavWalk) :
    wavLoop buf rounds p w ≠ .error .outside := by
  induction rounds generalizing p w with
  | zero =>
    intro h
    cases h
  | succ rounds ih =>
    by_cases h : p + 8 ≤ buf.length
    · rw [wavLoop_chunk h]
      exact ih (p + chunkAdvance buf p) (visit buf w p)
    · rw [wavLoop_end (by omega)]
      intro h
      cases h

variable {ps : List Nat}

theorem wavLoop_walk (h : ChunkWalk (chunkAdvance buf) 8 buf.length p ps) (w : WavWalk) :
    wavLoop buf (ps.length + 1) p w = .ok (ps.foldl (visit buf) w) := by
  induction h generalizing w with
  | stop hlt => exact wavLoop_end hlt ..
  | chunk hle _ ih =>
    rw [List.length_cons, wavLoop_chunk hle, ih]
    rfl

theorem wavLoop_ok {rounds : Nat} {w w' : WavWalk} (h : wavLoop buf rounds p w = .ok w') :
    ∃ ps, ChunkWalk (chunkAdvance buf) 8 buf.length p ps ∧ w' = ps.foldl (visit buf) w := by
  induction rounds generalizing p w with
  | zero => cases h
  | succ rounds ih =>
    by_cases hle : p + 8 ≤ buf.length
    · rw [wavLoop_chunk hle] at h
      obtain ⟨ps, hwalk, hw⟩ := ih h
      exact ⟨p :: ps, .chunk hle hwalk, hw⟩
    · rw [wavLoop_end (by omega)] at h
      cases h
      exact ⟨[], .stop (by omega), rfl⟩

/-- The fields of a format chunk. -/
structure FmtFields (buf : List Byte) (f : Nat) (info : WavInfo) : Prop where
  format : info.format = u16At buf (f + 8)
  channels : info.channels = u16At buf (f + 8 + 2)
  sampleRate : info.sampleRate = u32At buf (f + 8 + 4)
  bits : info.bits = u16At buf (f + 8 + 14)

/-- The range of a data chunk. -/
structure DataRange (buf : List Byte) (d : Nat) (info : WavInfo) : Prop where
  data : info.data = some (d + 8)
  dataBytes : info.dataBytes.toNat = chunkUse buf d

/-- What a walk over some chunks has found: the last format and the last range. -/
structure Found (buf : List Byte) (ps : List Nat) (w : WavWalk) : Prop where
  haveFmt : w.haveFmt = (lastOf (isFmt buf) ps).isSome
  haveData : w.haveData = (lastOf (isData buf) ps).isSome
  fmt : ∀ f, lastOf (isFmt buf) ps = some f → FmtFields buf f w.info
  data : ∀ d, lastOf (isData buf) ps = some d → DataRange buf d w.info

theorem isData_of_isFmt (h : isFmt buf p = true) : isData buf p = false := by
  unfold isFmt hasTag at h
  simp only [Bool.and_eq_true, beq_iff_eq] at h
  unfold isData hasTag
  rw [h.1]
  decide

theorem found_foldl (buf : List Byte) (ps : List Nat) :
    Found buf ps (ps.foldl (visit buf) ⟨.zero, false, false⟩) := by
  induction ps using List.reverseRecOn with
  | nil => exact ⟨rfl, rfl, fun _ h => (by cases h), fun _ h => (by cases h)⟩
  | append_singleton ps p ih =>
    rw [List.foldl_append, List.foldl_cons, List.foldl_nil]
    generalize ps.foldl (visit buf) ⟨.zero, false, false⟩ = w at ih ⊢
    have huse : (BitVec.ofNat 32 (chunkUse buf p)).toNat = chunkUse buf p := by
      rw [toNat_ofNat, Nat.mod_eq_of_lt]
      exact Nat.lt_of_le_of_lt (Nat.min_le_left ..) (chunkSize buf p).isLt
    unfold visit
    cases hfmt : isFmt buf p with
    | true =>
      refine ⟨?_, ?_, ?_, ?_⟩
      all_goals rw [lastOf_concat]
      · simp [hfmt]
      · simp [isData_of_isFmt hfmt, ih.haveData]
      · intro f hf
        rw [hfmt, if_pos rfl, Option.some.injEq] at hf
        subst hf
        exact ⟨rfl, rfl, rfl, rfl⟩
      · intro d hd
        rw [isData_of_isFmt hfmt, if_neg (by simp)] at hd
        exact ⟨(ih.data d hd).data, (ih.data d hd).dataBytes⟩
    | false =>
      cases hdata : isData buf p with
      | true =>
        refine ⟨?_, ?_, ?_, ?_⟩
        all_goals rw [lastOf_concat]
        · simp [hfmt, ih.haveFmt]
        · simp [hdata]
        · intro f hf
          rw [hfmt, if_neg (by simp)] at hf
          have h := ih.fmt f hf
          exact { h with }
        · intro d hd
          rw [hdata, if_pos rfl, Option.some.injEq] at hd
          subst hd
          exact ⟨rfl, huse⟩
      | false =>
        refine ⟨?_, ?_, ?_, ?_⟩
        all_goals rw [lastOf_concat]
        · simpa [hfmt] using ih.haveFmt
        · simpa [hdata] using ih.haveData
        · simpa [hfmt] using ih.fmt
        · simpa [hdata] using ih.data

/-! ## The parser -/

theorem wavParse_eq (h : 12 ≤ buf.length) (rounds : Nat) (out : WavInfo) :
    wavParse buf rounds out =
      if hasTag buf 0 tagRiff = true ∧ hasTag buf 8 tagWave = true then
        (wavLoop buf rounds 12 ⟨.zero, false, false⟩).map fun w => (w.result, w.info)
      else .ok (.errBadMagic, .zero) := by
  unfold wavParse
  rw [if_neg (by omega), isTag_ok tagRiff (by omega), isTag_ok tagWave (by omega)]
  cases hasTag buf 0 tagRiff
  · rfl
  · cases hasTag buf 8 tagWave
    · rfl
    · cases wavLoop buf rounds 12 ⟨.zero, false, false⟩ <;> rfl

theorem wavParse_inside (rounds : Nat) (out : WavInfo) :
    wavParse buf rounds out ≠ .error .outside := by
  by_cases h : buf.length < 12
  · unfold wavParse
    rw [if_pos h]
    intro hstop
    cases hstop
  · rw [wavParse_eq (by omega)]
    split
    · have hinside := wavLoop_inside buf rounds 12 ⟨.zero, false, false⟩
      cases hloop : wavLoop buf rounds 12 ⟨.zero, false, false⟩ with
      | ok w =>
        intro hstop
        cases hstop
      | error e =>
        rw [hloop] at hinside
        intro hstop
        cases hstop
        exact hinside rfl
    · intro hstop
      cases hstop

theorem wavParse_ends (h : ChunkWalk (chunkAdvance buf) 8 buf.length 12 ps) (out : WavInfo) :
    ∃ r, wavParse buf (ps.length + 1) out = .ok r := by
  by_cases hlen : buf.length < 12
  · unfold wavParse
    rw [if_pos hlen]
    exact ⟨_, rfl⟩
  · rw [wavParse_eq (by omega), wavLoop_walk h]
    split <;> exact ⟨_, rfl⟩

/-- What an accepted file says: the last data chunk of its walk and the last format chunk. -/
structure Describes (buf : List Byte) (ps : List Nat) (d f : Nat) (info : WavInfo) : Prop where
  walk : ChunkWalk (chunkAdvance buf) 8 buf.length 12 ps
  lastData : lastOf (isData buf) ps = some d
  lastFmt : lastOf (isFmt buf) ps = some f
  range : DataRange buf d info
  inside : d + 8 + info.dataBytes.toNat ≤ buf.length
  fields : FmtFields buf f info

theorem result_eq_ok {w : WavWalk} (h : w.result = .ok) :
    w.haveFmt = true ∧ w.info.format = 1 ∧ w.haveData = true ∧
      (w.info.channels = 1 ∨ w.info.channels = 2) ∧ (w.info.bits = 8 ∨ w.info.bits = 16) := by
  unfold WavWalk.result at h
  repeat' split at h
  all_goals try cases h
  rename_i hfmt hformat hdata hch hbits
  refine ⟨by simpa using hfmt, by simpa using hformat, by simpa using hdata, ?_, ?_⟩
  · generalize w.info.channels = c at hch
    rcases (by bv_omega : c = 1 ∨ c = 2) with rfl | rfl <;> simp
  · by_contra hne
    exact hbits (not_or.mp hne)

theorem wavParse_accepts {rounds : Nat} {out info : WavInfo}
    (h : wavParse buf rounds out = .ok (.ok, info)) :
    (∃ ps d f, Describes buf ps d f info) ∧ info.format = 1 ∧
      (info.channels = 1 ∨ info.channels = 2) ∧ (info.bits = 8 ∨ info.bits = 16) := by
  by_cases hlen : buf.length < 12
  · unfold wavParse at h
    rw [if_pos hlen] at h
    cases h
  · rw [wavParse_eq (by omega)] at h
    split at h
    · cases hloop : wavLoop buf rounds 12 ⟨.zero, false, false⟩ with
      | error e =>
        rw [hloop] at h
        cases h
      | ok w =>
        rw [hloop] at h
        obtain ⟨hres, rfl⟩ := Prod.mk.inj (Except.ok.inj h)
        obtain ⟨hfmt, hpcm, hdata, hch, hbits⟩ := result_eq_ok hres
        obtain ⟨ps, hwalk, rfl⟩ := wavLoop_ok hloop
        have hfound := found_foldl buf ps
        rw [hfound.haveFmt, Option.isSome_iff_exists] at hfmt
        rw [hfound.haveData, Option.isSome_iff_exists] at hdata
        obtain ⟨f, hf⟩ := hfmt
        obtain ⟨d, hd⟩ := hdata
        have hrange := hfound.data d hd
        have hfit := hwalk.fits d (mem_of_lastOf hd).1
        refine ⟨⟨ps, d, f, hwalk, hd, hf, hrange, ?_, hfound.fmt f hf⟩, hpcm, hch, hbits⟩
        rw [hrange.dataBytes]
        exact chunkUse_fits hfit
    · cases h

theorem chunkAdvance_eq_zero :
    chunkAdvance buf p = 0 ↔ chunkSize buf p = 0xFFFFFFF7 ∨ chunkSize buf p = 0xFFFFFFF8 := by
  unfold chunkAdvance
  generalize chunkSize buf p = size
  have hlow : (size &&& 1).toNat = size.toNat % 2 := by
    rw [toNat_and]
    exact Nat.and_one_is_mod _
  have hlt := size.isLt
  rw [toNat_eq, toNat_eq, toNat_add, toNat_add, hlow]
  change (((8 + size.toNat) % 2 ^ 32 + size.toNat % 2) % 2 ^ 32 = 0) ↔
    size.toNat = 4294967287 ∨ size.toNat = 4294967288
  omega

/-- No byte outside the file is read; where every chunk advances the parser ends; an accepted file
has the range of the last data chunk and the format of the last format chunk. -/
theorem wavParse_reads (buf : List Byte) (out : WavInfo) :
    (∀ rounds, wavParse buf rounds out ≠ .error .outside) ∧
      ((∀ p, ChunkReached (chunkAdvance buf) 8 buf.length 12 p →
        chunkSize buf p ≠ 0xFFFFFFF7 ∧ chunkSize buf p ≠ 0xFFFFFFF8) →
          ∃ rounds r, wavParse buf rounds out = .ok r) ∧
      ∀ rounds info, wavParse buf rounds out = .ok (.ok, info) →
        ∃ ps d f, Describes buf ps d f info := by
  refine ⟨fun rounds => wavParse_inside rounds out, fun h => ?_,
    fun rounds info h => (wavParse_accepts h).1⟩
  obtain ⟨ps, hps⟩ : ∃ ps, ChunkWalk (chunkAdvance buf) 8 buf.length 12 ps :=
    exists_chunkWalk 12 fun p hp => Nat.pos_of_ne_zero fun hzero =>
      (chunkAdvance_eq_zero.mp hzero).elim (h p hp).1 (h p hp).2
  exact ⟨_, wavParse_ends hps out⟩

/-- The parser ends, and an accepted file has its format in front of its data. -/
structure ParsesInOrder (buf : List Byte) : Prop where
  ends : ∃ rounds r, wavParse buf rounds .zero = .ok r
  inside : ∀ rounds, wavParse buf rounds .zero ≠ .error .outside
  describes : ∀ rounds info, wavParse buf rounds .zero = .ok (.ok, info) →
    ∃ ps d f, ChunkWalk (chunkAdvance buf) 8 buf.length 12 ps ∧ d ∈ ps ∧ isData buf d = true ∧
      DataRange buf d info ∧ d + 8 + info.dataBytes.toNat ≤ buf.length ∧ f ∈ ps ∧
      isFmt buf f = true ∧ f < d ∧ FmtFields buf f info

/-- A format of 44100 Hz, two bytes of data, and a format of 22050 Hz behind them. -/
def lateFmt : List Byte :=
  tagRiff ++ [62, 0, 0, 0] ++ tagWave ++
    tagFmt ++ [16, 0, 0, 0, 1, 0, 1, 0, 0x44, 0xac, 0, 0, 0x88, 0x58, 1, 0, 2, 0, 16, 0] ++
    tagData ++ [2, 0, 0, 0, 0, 0] ++
    tagFmt ++ [16, 0, 0, 0, 1, 0, 1, 0, 0x22, 0x56, 0, 0, 0x44, 0xac, 0, 0, 2, 0, 16, 0]

theorem lateFmt_walk : ChunkWalk (chunkAdvance lateFmt) 8 lateFmt.length 12 [12, 36, 46] :=
  .chunk (by decide) (.chunk (by decide) (.chunk (by decide) (.stop (by decide))))

theorem format_behind_data : ¬ ParsesInOrder lateFmt := by
  intro h
  obtain ⟨ps, d, f, hwalk, hd, hdata, -, -, hf, hfmt, hlt, hfields⟩ := h.describes 4 _ rfl
  cases lateFmt_walk.unique hwalk
  have hrate := hfields.sampleRate
  simp only [List.mem_cons, List.not_mem_nil, or_false] at hd hf
  obtain rfl : d = 36 := by
    rcases hd with rfl | rfl | rfl
    · exact absurd hdata (by decide)
    · rfl
    · exact absurd hdata (by decide)
  obtain rfl : f = 12 := by
    rcases hf with rfl | rfl | rfl
    · rfl
    · exact absurd hfmt (by decide)
    · omega
  revert hrate
  decide

end Chunks

end Microgarbage.Audio
