import Mathlib.Algebra.Ring.Nat
import Microgarbage.Audio.Wav

/-!
# WAV files

The writer of `audio_sink_wav.c`, the conversion of a whole file and the streaming reader of
`audio_file_stream.c`. The writer patches the sizes when it closes the file; the streaming reader
parses the first 4096 bytes of a file and takes the size of the data from its chunk.
-/

namespace Microgarbage.Audio

open Lib List

/-- A left and a right sample. -/
abbrev Frame := BitVec 16 × BitVec 16

/-! ## The conversion of a file -/

/-- One sample of a frame: 16 bits, or 8 bits with an offset. -/
def sampleAt (buf : List Byte) (bits : BitVec 16) (p : Nat) : BitVec 16 :=
  if bits = 16 then u16At buf p else ((buf.getD p 0).setWidth 16 - 128) * 256

/-- The frame at a position; one channel is given to both sides. -/
def frameAt (buf : List Byte) (channels bits : BitVec 16) (p : Nat) : Frame :=
  let l := sampleAt buf bits p
  (l, if channels = 2 then sampleAt buf bits (p + bits.toNat / 8) else l)

/-- `wav_to_stereo_pcm16` -/
def wavToStereoPcm16 (buf : List Byte) (info : WavInfo) (maxFrames : Nat) : List Frame :=
  match info.data with
  | none => []
  | some data =>
    let fb := info.channels.toNat * (info.bits.toNat / 8)
    if fb = 0 then []
    else
      (List.range (min (info.dataBytes.toNat / fb) maxFrames)).map fun i =>
        frameAt buf info.channels info.bits (data + i * fb)

/-! ## The writer -/

def putU16le (v : BitVec 16) : List Byte := [byteOf v 0, byteOf v 1]

def putU32le (v : BitVec 32) : List Byte := [byteOf v 0, byteOf v 1, byteOf v 2, byteOf v 3]

/-- `write_header` -/
def wavHeader (sampleRate dataBytes : BitVec 32) : List Byte :=
  let channels : BitVec 16 := 2
  let bits : BitVec 16 := 16
  let blockAlign : BitVec 16 := channels * (bits / 8)
  let byteRate : BitVec 32 := sampleRate * blockAlign.setWidth 32
  tagRiff ++ putU32le (36 + dataBytes) ++ tagWave ++ tagFmt ++ putU32le 16 ++ putU16le 1 ++
    putU16le channels ++ putU32le sampleRate ++ putU32le byteRate ++ putU16le blockAlign ++
    putU16le bits ++ tagData ++ putU32le dataBytes

structure WavCtx where
  /-- The file, written so far from its start on. -/
  file : List Byte
  framesWritten : BitVec 32

def wavOpen (sampleRate : BitVec 32) : WavCtx := ⟨wavHeader sampleRate 0, 0⟩

def frameBytes (fr : Frame) : List Byte := putU16le fr.1 ++ putU16le fr.2

/-- `wav_write`, when the file takes the first `taken` samples. -/
def wavWrite (c : WavCtx) (frames : List Frame) (taken : Nat) : Nat × WavCtx :=
  let samples := (frames.flatMap fun fr => [fr.1, fr.2]).take taken
  let got := samples.length / 2
  (got, ⟨c.file ++ samples.flatMap putU16le, c.framesWritten + BitVec.ofNat 32 got⟩)

/-- Bytes written over a place of the file. -/
def patch (file : List Byte) (p : Nat) (bs : List Byte) : List Byte :=
  file.take p ++ bs ++ file.drop (p + bs.length)

/-- `wav_close`: the file that is left. -/
def wavClose (c : WavCtx) : List Byte :=
  let dataBytes := c.framesWritten * 2 * (16 / 8)
  patch (patch c.file 4 (putU32le (36 + dataBytes))) 40 (putU32le dataBytes)

/-- A sequence of writes, each with the samples that the file takes; `none` where one falls short. -/
def wavWrites (c : WavCtx) : List (List Frame × Nat) → Option WavCtx
  | [] => some c
  | (frames, taken) :: ws =>
    if (wavWrite c frames taken).1 = frames.length then wavWrites (wavWrite c frames taken).2 ws
    else none

/-! ## The streaming reader -/

def headerProbe : Nat := 4096

def audioFileStreamScratch : Nat := 4096

structure AudioFileStreamCtx where
  dataOffset : Nat
  dataBytes : BitVec 32
  channels : BitVec 16
  bits : BitVec 16
  sampleRate : BitVec 32
  srcFrameBytes : Nat
  deriving DecidableEq

/-- `audio_file_stream_open` of a file that the reader can open. -/
def audioFileStreamOpen (file : List Byte) (rounds : Nat) :
    Except WavStop (Option AudioFileStreamCtx) :=
  let hdr := file.take headerProbe
  if hdr.length < 12 then .ok none
  else do
    let (result, info) ← wavParse hdr rounds .zero
    match result, info.data with
    | .ok, some dataOff =>
      if dataOff < 8 ∨ hdr.length < dataOff then return none
      else
        let srcFrameBytes := info.channels.toNat * (info.bits.toNat / 8)
        if srcFrameBytes = 0 then return none
        else
          return some ⟨dataOff, u32At hdr (dataOff - 4), info.channels, info.bits, info.sampleRate,
            srcFrameBytes⟩
    | _, _ => return none

/-- The bytes that a reader brings from a position; fewer only at the end of the file. -/
def readAt (file : List Byte) (pos n : Nat) : List Byte := (file.drop pos).take n

section Read

variable (ctx : AudioFileStreamCtx) (file : List Byte) (requested : Nat)

def totalFrames : Nat := ctx.dataBytes.toNat / ctx.srcFrameBytes

/-- The loop of `audio_file_stream_read`; every round brings a frame or is the last one. The frames
stand behind each other in the destination as long as `produced * 2` fits in 32 bits. -/
def streamLoop : Nat → Nat → Nat → Nat → List Frame
  | 0, _, _, _ => []
  | rounds + 1, pos, curFrame, produced =>
    if produced < requested ∧ curFrame < totalFrames ctx then
      let fb := ctx.srcFrameBytes
      let want := (BitVec.ofNat 32 requested - BitVec.ofNat 32 produced).toNat
      let want := min want (audioFileStreamScratch / fb)
      let want := min want (totalFrames ctx - curFrame)
      let scratch := readAt file pos (want * fb)
      let gotFrames := scratch.length / fb
      if gotFrames = 0 then []
      else
        let chunk : WavInfo := ⟨1, ctx.channels, ctx.sampleRate, ctx.bits, some 0,
          BitVec.ofNat 32 (gotFrames * fb)⟩
        wavToStereoPcm16 scratch chunk gotFrames ++
          if gotFrames < want then []
          else streamLoop rounds (pos + scratch.length) (curFrame + gotFrames) (produced + gotFrames)
    else []

/-- `audio_file_stream_read`: the place of the first frame is reckoned in 32 bits. -/
def audioFileStreamRead (offset : Nat) : List Frame :=
  if ctx.srcFrameBytes = 0 ∨ totalFrames ctx ≤ offset then []
  else
    streamLoop ctx file requested requested ((ctx.dataOffset + offset * ctx.srcFrameBytes) % 2 ^ 32)
      offset 0

end Read

/-- Reads one behind the other, each from where the one before it has ended. -/
def streamReads (ctx : AudioFileStreamCtx) (file : List Byte) (offset : Nat) : List Nat → List Frame
  | [] => []
  | requested :: rs =>
    let frames := audioFileStreamRead ctx file requested offset
    frames ++ streamReads ctx file (offset + frames.length) rs

/-! ## Written files -/

section Written

variable (rate db : BitVec 32) (body : List Byte)

theorem putU16le_join (v : BitVec 16) : byteOf v 1 ++ byteOf v 0 = v := by
  unfold byteOf
  rw [BitVec.extractLsb'_append_extractLsb'_eq_extractLsb' (by omega)]
  exact BitVec.extractLsb'_eq_self

theorem putU32le_join (v : BitVec 32) : byteOf v 3 ++ byteOf v 2 ++ byteOf v 1 ++ byteOf v 0 = v := by
  unfold byteOf
  rw [BitVec.extractLsb'_append_extractLsb'_eq_extractLsb' (by omega),
    BitVec.extractLsb'_append_extractLsb'_eq_extractLsb' (by omega),
    BitVec.extractLsb'_append_extractLsb'_eq_extractLsb' (by omega)]
  exact BitVec.extractLsb'_eq_self

theorem u16At_eq {buf : List Byte} {p : Nat} {v : BitVec 16} (h₀ : buf.getD p 0 = byteOf v 0)
    (h₁ : buf.getD (p + 1) 0 = byteOf v 1) : u16At buf p = v := by
  unfold u16At
  rw [h₀, h₁, putU16le_join]

theorem u32At_eq {buf : List Byte} {p : Nat} {v : BitVec 32} (h₀ : buf.getD p 0 = byteOf v 0)
    (h₁ : buf.getD (p + 1) 0 = byteOf v 1) (h₂ : buf.getD (p + 2) 0 = byteOf v 2)
    (h₃ : buf.getD (p + 3) 0 = byteOf v 3) : u32At buf p = v := by
  unfold u32At
  rw [h₀, h₁, h₂, h₃, putU32le_join]

theorem header_eq : wavHeader rate db ++ body =
    0x52 :: 0x49 :: 0x46 :: 0x46 :: byteOf (36 + db) 0 :: byteOf (36 + db) 1 ::
    byteOf (36 + db) 2 :: byteOf (36 + db) 3 :: 0x57 :: 0x41 :: 0x56 :: 0x45 ::
    0x66 :: 0x6d :: 0x74 :: 0x20 :: byteOf (16 : BitVec 32) 0 :: byteOf (16 : BitVec 32) 1 ::
    byteOf (16 : BitVec 32) 2 :: byteOf (16 : BitVec 32) 3 :: byteOf (1 : BitVec 16) 0 ::
    byteOf (1 : BitVec 16) 1 :: byteOf (2 : BitVec 16) 0 :: byteOf (2 : BitVec 16) 1 ::
    byteOf rate 0 :: byteOf rate 1 :: byteOf rate 2 :: byteOf rate 3 ::
    byteOf (rate * 4) 0 :: byteOf (rate * 4) 1 :: byteOf (rate * 4) 2 :: byteOf (rate * 4) 3 ::
    byteOf (4 : BitVec 16) 0 :: byteOf (4 : BitVec 16) 1 ::
    byteOf (16 : BitVec 16) 0 :: byteOf (16 : BitVec 16) 1 :: 0x64 :: 0x61 :: 0x74 :: 0x61 ::
    byteOf db 0 :: byteOf db 1 :: byteOf db 2 :: byteOf db 3 :: body := by
  simp only [wavHeader, tagRiff, tagWave, tagFmt, tagData, putU32le, putU16le, cons_append,
    nil_append]
  rfl

theorem patch_header :
    patch (patch (wavHeader rate 0 ++ body) 4 (putU32le (36 + db))) 40 (putU32le db) =
      wavHeader rate db ++ body := by
  rw [header_eq rate 0, header_eq]
  rfl

theorem header_tags :
    hasTag (wavHeader rate db ++ body) 0 tagRiff = true ∧
      hasTag (wavHeader rate db ++ body) 8 tagWave = true ∧
      hasTag (wavHeader rate db ++ body) 12 tagFmt = true ∧
      hasTag (wavHeader rate db ++ body) 36 tagData = true := by
  rw [header_eq]
  exact ⟨rfl, rfl, rfl, rfl⟩

theorem header_length : (wavHeader rate db ++ body).length = 44 + body.length := by
  rw [header_eq]
  simp only [length_cons]
  omega

theorem header_sizes :
    chunkSize (wavHeader rate db ++ body) 12 = 16 ∧
      chunkSize (wavHeader rate db ++ body) 36 = db := by
  rw [header_eq]
  exact ⟨u32At_eq rfl rfl rfl rfl, u32At_eq rfl rfl rfl rfl⟩

theorem header_fields : u16At (wavHeader rate db ++ body) (12 + 8) = 1 ∧
    u16At (wavHeader rate db ++ body) (12 + 8 + 2) = 2 ∧
    u32At (wavHeader rate db ++ body) (12 + 8 + 4) = rate ∧
    u16At (wavHeader rate db ++ body) (12 + 8 + 14) = 16 := by
  rw [header_eq]
  exact ⟨u16At_eq rfl rfl, u16At_eq rfl rfl, u32At_eq rfl rfl rfl rfl, u16At_eq rfl rfl⟩

variable {db body}

theorem header_walk (hdb : db.toNat = body.length) (heven : body.length % 2 = 0)
    (hlt : body.length < 2 ^ 32 - 36) :
    ChunkWalk (chunkAdvance (wavHeader rate db ++ body)) 8 (wavHeader rate db ++ body).length 12
      [12, 36] := by
  obtain ⟨hfmt, hdata⟩ := header_sizes rate db body
  have hadv : chunkAdvance (wavHeader rate db ++ body) 36 = 8 + body.length := by
    have hlow : (db &&& 1).toNat = db.toNat % 2 := by
      rw [BitVec.toNat_and]
      exact Nat.and_one_is_mod _
    unfold chunkAdvance
    rw [hdata, BitVec.toNat_add, BitVec.toNat_add, hlow, hdb]
    change ((8 + body.length) % 2 ^ 32 + body.length % 2) % 2 ^ 32 = _
    omega
  have hadv' : chunkAdvance (wavHeader rate db ++ body) 12 = 24 := by
    unfold chunkAdvance
    rw [hfmt]
    rfl
  have hrest : ChunkWalk (chunkAdvance (wavHeader rate db ++ body)) 8
      (wavHeader rate db ++ body).length 36 [36] := by
    refine .chunk ?_ (.stop ?_)
    · rw [header_length]
      omega
    · rw [hadv, header_length]
      omega
  refine .chunk ?_ ?_
  · rw [header_length]
    omega
  · rw [hadv']
    exact hrest

/-- A written file is accepted with its rate, two channels of 16 bits and all its data. -/
theorem wavParse_header (hdb : db.toNat = body.length) (heven : body.length % 2 = 0)
    (hlt : body.length < 2 ^ 32 - 36) (out : WavInfo) :
    ∃ info, wavParse (wavHeader rate db ++ body) 3 out = .ok (.ok, info) ∧
      info.sampleRate = rate ∧ info.channels = 2 ∧ info.bits = 16 ∧ info.data = some 44 ∧
      info.dataBytes = db := by
  have hwalk := header_walk rate hdb heven hlt
  obtain ⟨hriff, hwave, htag, htag'⟩ := header_tags rate db body
  obtain ⟨hsize, hsize'⟩ := header_sizes rate db body
  obtain ⟨hformat, hchannels, hrate, hbits⟩ :=
    header_fields rate db body
  have hlen := header_length rate db body
  have hnot : isFmt (wavHeader rate db ++ body) 36 = false := by
    cases hfmt : isFmt (wavHeader rate db ++ body) 36 with
    | false => rfl
    | true => exact absurd htag' (by rw [show hasTag _ 36 tagData = _ from isData_of_isFmt hfmt]; simp)
  generalize wavHeader rate db ++ body = file at *
  have hfound := found_foldl file [12, 36]
  generalize hw : [12, 36].foldl (visit file) ⟨.zero, false, false⟩ = w
    at hfound
  have huse : chunkUse file 12 = 16 := by
    unfold chunkUse
    rw [hsize, hlen]
    change min 16 _ = _
    omega
  have huse' : chunkUse file 36 = db.toNat := by
    unfold chunkUse
    rw [hsize', hlen]
    omega
  have hfmt : isFmt file 12 = true := by
    unfold isFmt
    rw [htag, huse]
    rfl
  have hlastFmt : lastOf (isFmt file) [12, 36] = some 12 := by
    simp [lastOf, hfmt, hnot]
  have hlastData : lastOf (isData file) [12, 36] = some 36 := by
    simp [lastOf, htag', isData]
  have hf := hfound.fmt 12 hlastFmt
  have hd := hfound.data 36 hlastData
  refine ⟨w.info, ?_, hf.sampleRate.trans hrate, hf.channels.trans hchannels,
    hf.bits.trans hbits, hd.data, BitVec.eq_of_toNat_eq (hd.dataBytes.trans huse')⟩
  have hloop := wavLoop_walk hwalk ⟨.zero, false, false⟩
  rw [hw] at hloop
  rw [wavParse_eq (by omega), if_pos ⟨hriff, hwave⟩, show 3 = [12, 36].length + 1 from rfl, hloop]
  have hres : w.result = .ok := by
    unfold WavWalk.result
    rw [hfound.haveFmt, hfound.haveData, hlastFmt, hlastData, hf.format, hf.channels, hf.bits,
      hformat, hchannels, hbits]
    rfl
  rw [← hres]
  rfl

/-! ### The frames of a written file -/

theorem flatMap_frames_length (frames : List Frame) :
    (frames.flatMap fun fr => [fr.1, fr.2]).length = 2 * frames.length := by
  induction frames with
  | nil => rfl
  | cons fr frames ih =>
    rw [flatMap_cons, length_append, ih, length_cons]
    simp only [length_cons, length_nil]
    omega

theorem flatMap_frames_bytes (frames : List Frame) :
    (frames.flatMap fun fr => [fr.1, fr.2]).flatMap putU16le = frames.flatMap frameBytes := by
  induction frames with
  | nil => rfl
  | cons fr frames ih =>
    rw [flatMap_cons, flatMap_append, ih, flatMap_cons]
    rfl

theorem frameBytes_length (frames : List Frame) :
    (frames.flatMap frameBytes).length = 4 * frames.length := by
  induction frames with
  | nil => rfl
  | cons fr frames ih =>
    rw [flatMap_cons, length_append, ih, length_cons]
    change 4 + _ = _
    omega

theorem wavWrite_all {c : WavCtx} {frames : List Frame} {taken : Nat}
    (h : (wavWrite c frames taken).1 = frames.length) :
    (wavWrite c frames taken).2 = ⟨c.file ++ frames.flatMap frameBytes,
      c.framesWritten + BitVec.ofNat 32 frames.length⟩ := by
  have hlen := flatMap_frames_length frames
  have hall : (frames.flatMap fun fr => [fr.1, fr.2]).take taken =
      frames.flatMap fun fr => [fr.1, fr.2] := by
    refine take_of_length_le ?_
    simp only [wavWrite, length_take] at h
    omega
  unfold wavWrite at h ⊢
  dsimp only at h ⊢
  rw [hall] at h ⊢
  rw [h, flatMap_frames_bytes]

theorem wavWrites_all {c c' : WavCtx} {ws : List (List Frame × Nat)}
    (h : wavWrites c ws = some c') :
    c'.file = c.file ++ (ws.flatMap Prod.fst).flatMap frameBytes ∧
      c'.framesWritten = c.framesWritten + BitVec.ofNat 32 (ws.flatMap Prod.fst).length := by
  induction ws generalizing c with
  | nil =>
    obtain rfl : c = c' := Option.some.inj h
    simp
  | cons w ws ih =>
    obtain ⟨frames, taken⟩ := w
    rw [wavWrites] at h
    split at h
    · obtain ⟨hfile, hcount⟩ := ih h
      rw [wavWrite_all ‹_›] at hfile hcount
      rw [flatMap_cons, flatMap_append, hfile, hcount, length_append]
      exact ⟨append_assoc .., by rw [BitVec.ofNat_add, BitVec.add_assoc]⟩
    · cases h

theorem wavClose_eq {rate : BitVec 32} {ws : List (List Frame × Nat)} {c : WavCtx}
    (h : wavWrites (wavOpen rate) ws = some c) :
    wavClose c = wavHeader rate (BitVec.ofNat 32 (4 * (ws.flatMap Prod.fst).length)) ++
      (ws.flatMap Prod.fst).flatMap frameBytes := by
  obtain ⟨hfile, hcount⟩ := wavWrites_all h
  have hdb : c.framesWritten * 2 * (16 / 8) =
      BitVec.ofNat 32 (4 * (ws.flatMap Prod.fst).length) := by
    rw [hcount]
    generalize (ws.flatMap Prod.fst).length = n
    change (0 + BitVec.ofNat 32 n) * 2 * 2 = _
    refine BitVec.eq_of_toNat_eq ?_
    simp only [BitVec.toNat_mul, BitVec.toNat_add, BitVec.toNat_ofNat]
    change (0 + n % 2 ^ 32) % 2 ^ 32 * 2 % 2 ^ 32 * 2 % 2 ^ 32 = _
    omega
  unfold wavClose
  rw [hdb, hfile]
  exact patch_header rate _ _

theorem u16At_append (pre post : List Byte) (v : BitVec 16) :
    u16At (pre ++ (putU16le v ++ post)) pre.length = v := by
  have hat : ∀ k, (pre ++ (putU16le v ++ post)).getD (pre.length + k) 0 =
      (putU16le v ++ post).getD k 0 := by
    intro k
    rw [getD_eq_getElem?_getD, List.getElem?_append_right (Nat.le_add_right ..),
      Nat.add_sub_cancel_left, getD_eq_getElem?_getD]
  exact u16At_eq (hat 0) (hat 1)

theorem frameAt_written (header : List Byte) (frames : List Frame) {i : Nat}
    (hi : i < frames.length) :
    frameAt (header ++ frames.flatMap frameBytes) 2 16 (header.length + i * 4) = frames[i] := by
  have hsplit : frames.flatMap frameBytes = (frames.take i).flatMap frameBytes ++
      (putU16le frames[i].1 ++ (putU16le frames[i].2 ++ (frames.drop (i + 1)).flatMap frameBytes)) := by
    conv_lhs => rw [← take_append_drop i frames, drop_eq_getElem_cons hi]
    rw [flatMap_append, flatMap_cons, frameBytes, append_assoc]
  have hpre : (header ++ (frames.take i).flatMap frameBytes).length = header.length + i * 4 := by
    rw [length_append, frameBytes_length, length_take]
    omega
  have hpre' : (header ++ (frames.take i).flatMap frameBytes ++ putU16le frames[i].1).length =
      header.length + i * 4 + 2 := by
    rw [length_append, hpre]
    rfl
  rw [hsplit, ← append_assoc]
  have hl := u16At_append (header ++ (frames.take i).flatMap frameBytes)
    (putU16le frames[i].2 ++ (frames.drop (i + 1)).flatMap frameBytes) frames[i].1
  have hr := u16At_append (header ++ (frames.take i).flatMap frameBytes ++ putU16le frames[i].1)
    ((frames.drop (i + 1)).flatMap frameBytes) frames[i].2
  rw [hpre] at hl
  rw [hpre', append_assoc] at hr
  refine Prod.ext ?_ ?_
  · exact hl
  · exact hr

theorem wavToStereo_written {rate db : BitVec 32} {frames : List Frame} {info : WavInfo}
    (hdb : db.toNat = 4 * frames.length) (hch : info.channels = 2) (hbits : info.bits = 16)
    (hdata : info.data = some 44) (hbytes : info.dataBytes = db) (maxFrames : Nat) :
    wavToStereoPcm16 (wavHeader rate db ++ frames.flatMap frameBytes) info maxFrames =
      frames.take maxFrames := by
  have hlen : (wavHeader rate db).length = 44 := by
    have h := header_length rate db []
    rwa [append_nil] at h
  unfold wavToStereoPcm16
  rw [hdata, hch, hbits, hbytes, hdb]
  change (List.range (min (4 * frames.length / 4) maxFrames)).map _ = _
  rw [Nat.mul_div_cancel_left _ (by omega)]
  refine ext_getElem (by simp [Nat.min_comm]) fun i hi hi' => ?_
  rw [getElem_map, getElem_range, getElem_take, ← hlen]
  exact frameAt_written _ frames (by simp at hi; omega)

end Written

/-! ## The first bytes of a file -/

section Probe

variable {file : List Byte} {n p : Nat}

theorem getD_take (h : p < (file.take n).length) : (file.take n).getD p 0 = file.getD p 0 := by
  rw [length_take] at h
  rw [getD_eq_getElem?_getD, List.getElem?_take_of_lt (by omega), getD_eq_getElem?_getD]

theorem u16At_take (h : p + 2 ≤ (file.take n).length) : u16At (file.take n) p = u16At file p := by
  unfold u16At
  rw [getD_take (by omega), getD_take (by omega)]

theorem u32At_take (h : p + 4 ≤ (file.take n).length) : u32At (file.take n) p = u32At file p := by
  unfold u32At
  rw [getD_take (by omega), getD_take (by omega), getD_take (by omega), getD_take (by omega)]

theorem chunkSize_take (h : p + 8 ≤ (file.take n).length) :
    chunkSize (file.take n) p = chunkSize file p := u32At_take (by omega)

theorem hasTag_take (tag : List Byte) (h : p + 8 ≤ (file.take n).length) :
    hasTag (file.take n) p tag = hasTag file p tag := by
  unfold hasTag
  rw [getD_take (by omega), getD_take (by omega), getD_take (by omega), getD_take (by omega)]

theorem chunkUse_take (h : p + 8 ≤ (file.take n).length) :
    chunkUse (file.take n) p = min (chunkUse file p) ((file.take n).length - (p + 8)) := by
  have hle : (file.take n).length ≤ file.length := length_take_le' ..
  unfold chunkUse
  rw [chunkSize_take h]
  omega

/-- The data and the format that a walk ends with lie in the part that is probed. -/
structure InProbe (file : List Byte) (ps : List Nat) : Prop where
  data : ∀ d, lastOf (isData file) ps = some d → d + 8 ≤ headerProbe
  fmt : ∀ f, lastOf (isFmt file) ps = some f → f + 24 ≤ headerProbe

variable {ps ps' : List Nat} {d d' f f' : Nat} {info info' : WavInfo}

theorem Describes.probe (h : Describes file ps d f info) (hin : InProbe file ps)
    (h' : Describes (file.take headerProbe) ps' d' f' info') :
    d' = d ∧ info'.channels = info.channels ∧ info'.bits = info.bits ∧
      info'.sampleRate = info.sampleRate ∧ d + 8 ≤ (file.take headerProbe).length := by
  have hlen : (file.take headerProbe).length = min headerProbe file.length := length_take
  have htrunc : ChunkWalk (chunkAdvance (file.take headerProbe)) 8 (file.take headerProbe).length 12
      (ps.filter (· + 8 ≤ (file.take headerProbe).length)) :=
    h.walk.truncate (by omega) fun p hp => by unfold chunkAdvance; rw [chunkSize_take hp]
  obtain rfl := htrunc.unique h'.walk
  have hdfit := h.walk.fits d (mem_of_lastOf h.lastData).1
  have hdprobe := hin.data d h.lastData
  have hdin : d + 8 ≤ (file.take headerProbe).length := by omega
  have hfuse : 16 ≤ chunkUse file f := by
    have hfmt := (mem_of_lastOf h.lastFmt).2
    unfold isFmt at hfmt
    simp only [Bool.and_eq_true, decide_eq_true_eq] at hfmt
    exact hfmt.2
  have hffit := h.walk.fits f (mem_of_lastOf h.lastFmt).1
  have hffile := chunkUse_fits hffit
  have hfprobe := hin.fmt f h.lastFmt
  have hfin : f + 24 ≤ (file.take headerProbe).length := by omega
  have hd : lastOf (isData (file.take headerProbe))
      (ps.filter (· + 8 ≤ (file.take headerProbe).length)) = some d := by
    rw [lastOf_filter]
    refine lastOf_of_imp h.lastData ?_ fun q _ hq => ?_
    · have hdata := (mem_of_lastOf h.lastData).2
      unfold isData at hdata ⊢
      rw [hasTag_take tagData hdin, hdata]
      simpa using hdin
    · simp only [Bool.and_eq_true, decide_eq_true_eq] at hq
      unfold isData at hq ⊢
      rw [← hasTag_take tagData hq.2]
      exact hq.1
  have hf : lastOf (isFmt (file.take headerProbe))
      (ps.filter (· + 8 ≤ (file.take headerProbe).length)) = some f := by
    rw [lastOf_filter]
    refine lastOf_of_imp h.lastFmt ?_ fun q _ hq => ?_
    · have hfmt := (mem_of_lastOf h.lastFmt).2
      unfold isFmt at hfmt ⊢
      simp only [Bool.and_eq_true, decide_eq_true_eq] at hfmt ⊢
      rw [hasTag_take tagFmt (by omega), chunkUse_take (by omega)]
      exact ⟨⟨hfmt.1, by omega⟩, by omega⟩
    · simp only [Bool.and_eq_true, decide_eq_true_eq] at hq
      obtain ⟨hfmt, hfit⟩ := hq
      unfold isFmt at hfmt ⊢
      simp only [Bool.and_eq_true, decide_eq_true_eq] at hfmt ⊢
      rw [hasTag_take tagFmt hfit, chunkUse_take hfit] at hfmt
      exact ⟨hfmt.1, by omega⟩
  rw [h'.lastData, Option.some.injEq] at hd
  rw [h'.lastFmt, Option.some.injEq] at hf
  subst hd hf
  refine ⟨rfl, ?_, ?_, ?_, hdin⟩
  · rw [h'.fields.channels, h.fields.channels, u16At_take (by omega)]
  · rw [h'.fields.bits, h.fields.bits, u16At_take (by omega)]
  · rw [h'.fields.sampleRate, h.fields.sampleRate, u32At_take (by omega)]

end Probe

/-! ## Streamed frames -/

/-- What a stream has of the file it was opened on. -/
structure StreamOf (file : List Byte) (info : WavInfo) (ctx : AudioFileStreamCtx) : Prop where
  data : info.data = some ctx.dataOffset
  inside : ctx.dataOffset ≤ file.length
  dataBytes : info.dataBytes.toNat = min ctx.dataBytes.toNat (file.length - ctx.dataOffset)
  channels : ctx.channels = info.channels
  bits : ctx.bits = info.bits
  sampleRate : ctx.sampleRate = info.sampleRate
  frameBytes : ctx.srcFrameBytes = info.channels.toNat * (info.bits.toNat / 8)
  stereo : info.channels = 1 ∨ info.channels = 2
  pcm : info.bits = 8 ∨ info.bits = 16

theorem audioFileStreamOpen_spec {file : List Byte} {rounds rounds' : Nat} {out info : WavInfo}
    {ctx : AudioFileStreamCtx} {ps : List Nat} (hparse : wavParse file rounds out = .ok (.ok, info))
    (hopen : audioFileStreamOpen file rounds' = .ok (some ctx))
    (hwalk : ChunkWalk (chunkAdvance file) 8 file.length 12 ps) (hin : InProbe file ps) :
    StreamOf file info ctx := by
  obtain ⟨⟨ps₁, d, f, hdesc⟩, -, hch, hbits⟩ := wavParse_accepts hparse
  obtain rfl := hwalk.unique hdesc.walk
  unfold audioFileStreamOpen at hopen
  dsimp only at hopen
  split at hopen
  · cases hopen
  · cases hprobe : wavParse (file.take headerProbe) rounds' .zero with
    | error e =>
      rw [hprobe] at hopen
      cases hopen
    | ok r =>
      obtain ⟨result, info'⟩ := r
      rw [hprobe] at hopen
      simp only [bind, Except.bind, pure, Except.pure] at hopen
      split at hopen
      · rename_i dataOff hoff
        obtain ⟨⟨ps', d', f', hdesc'⟩, -⟩ := wavParse_accepts hprobe
        obtain ⟨rfl, hch', hbits', hrate', hfit⟩ := hdesc.probe hin hdesc'
        obtain rfl : d' + 8 = dataOff := Option.some.inj (hdesc'.range.data.symm.trans hoff)
        split at hopen
        · cases hopen
        · split at hopen
          · cases hopen
          · cases hopen
            have hsize : u32At (file.take headerProbe) (d' + 8 - 4) = chunkSize file d' := by
              rw [show d' + 8 - 4 = d' + 4 by omega, u32At_take (by omega)]
              rfl
            have hlen : (file.take headerProbe).length ≤ file.length := length_take_le' ..
            refine ⟨hdesc.range.data, Nat.le_trans hfit hlen, ?_, hch', hbits', hrate', ?_, hch,
              hbits⟩
            · rw [hdesc.range.dataBytes, hsize]
              rfl
            · rw [hch', hbits']
      · cases hopen

section Stream

variable {file : List Byte} {info : WavInfo} {ctx : AudioFileStreamCtx}

/-- The frames of the whole file. -/
def fileFrames (file : List Byte) (info : WavInfo) : List Frame :=
  wavToStereoPcm16 file info info.dataBytes.toNat

namespace StreamOf

theorem frameBytes_cases (h : StreamOf file info ctx) :
    ctx.srcFrameBytes = 1 ∨ ctx.srcFrameBytes = 2 ∨ ctx.srcFrameBytes = 4 := by
  rw [h.frameBytes]
  rcases h.stereo with hch | hch <;> rcases h.pcm with hbits | hbits <;> rw [hch, hbits] <;> simp

theorem fileFrames_eq (h : StreamOf file info ctx) :
    fileFrames file info =
      (List.range (info.dataBytes.toNat / ctx.srcFrameBytes)).map fun i =>
        frameAt file info.channels info.bits (ctx.dataOffset + i * ctx.srcFrameBytes) := by
  have hpos : ctx.srcFrameBytes ≠ 0 := by have := h.frameBytes_cases; omega
  unfold fileFrames wavToStereoPcm16
  rw [h.data]
  dsimp only
  rw [← h.frameBytes, if_neg hpos, Nat.min_eq_left (Nat.div_le_self ..)]

theorem length_fileFrames (h : StreamOf file info ctx) :
    (fileFrames file info).length = info.dataBytes.toNat / ctx.srcFrameBytes := by
  rw [h.fileFrames_eq, length_map, length_range]

theorem frameAt_part (h : StreamOf file info ctx) {part : List Byte} {p q : Nat}
    (hpart : ∀ k < ctx.srcFrameBytes, part.getD (q + k) 0 = file.getD (p + k) 0) :
    frameAt part info.channels info.bits q = frameAt file info.channels info.bits p := by
  rw [h.frameBytes] at hpart
  have h₀ := hpart 0
  have h₁ := hpart 1
  have h₂ := hpart 2
  have h₃ := hpart 3
  unfold frameAt sampleAt u16At
  rcases h.stereo with hch | hch <;> rcases h.pcm with hbits | hbits <;>
    rw [hch, hbits] at h₀ h₁ h₂ h₃ ⊢ <;> simp_all [Nat.add_assoc]

end StreamOf

/-- The place of a frame is reckoned in 32 bits. -/
def PlaceFits (ctx : AudioFileStreamCtx) (offset : Nat) : Prop :=
  offset < totalFrames ctx → ctx.dataOffset + offset * ctx.srcFrameBytes < 2 ^ 32

namespace StreamOf

/-- As many whole frames are read as are asked for and left in the file. -/
theorem gotFrames_eq (h : StreamOf file info ctx) {want curFrame : Nat}
    (hwant : want ≤ totalFrames ctx - curFrame) :
    (readAt file (ctx.dataOffset + curFrame * ctx.srcFrameBytes)
        (want * ctx.srcFrameBytes)).length / ctx.srcFrameBytes =
      min want ((fileFrames file info).length - curFrame) := by
  rw [h.length_fileFrames, h.dataBytes]
  unfold readAt
  unfold totalFrames at hwant
  rw [length_take, length_drop]
  have hinside := h.inside
  rcases h.frameBytes_cases with hfb | hfb | hfb <;> rw [hfb] at hwant ⊢ <;> omega

theorem chunk_frames (h : StreamOf file info ctx) {curFrame n want : Nat}
    (hfit : n * ctx.srcFrameBytes ≤ (readAt file (ctx.dataOffset + curFrame * ctx.srcFrameBytes)
      (want * ctx.srcFrameBytes)).length)
    (hn : n * ctx.srcFrameBytes < 2 ^ 32)
    (hleft : n ≤ (fileFrames file info).length - curFrame) :
    wavToStereoPcm16
        (readAt file (ctx.dataOffset + curFrame * ctx.srcFrameBytes) (want * ctx.srcFrameBytes))
        ⟨1, ctx.channels, ctx.sampleRate, ctx.bits, some 0,
          BitVec.ofNat 32 (n * ctx.srcFrameBytes)⟩ n =
      ((fileFrames file info).drop curFrame).take n := by
  have hpos : 0 < ctx.srcFrameBytes := by have := h.frameBytes_cases; omega
  have hlen := h.length_fileFrames
  unfold wavToStereoPcm16
  dsimp only
  rw [h.channels, h.bits, ← h.frameBytes, if_neg (by omega), BitVec.toNat_ofNat,
    Nat.mod_eq_of_lt hn, Nat.mul_div_cancel _ hpos, Nat.min_self]
  refine ext_getElem ?_ fun i hi hi' => ?_
  · rw [length_map, length_range, length_take, length_drop]
    omega
  · rw [length_map, length_range] at hi
    simp only [getElem_map, getElem_range, getElem_take, getElem_drop,
      h.fileFrames_eq]
    refine h.frameAt_part fun k hk => ?_
    have hbelow : 0 + i * ctx.srcFrameBytes + k < n * ctx.srcFrameBytes := by
      calc 0 + i * ctx.srcFrameBytes + k < (i + 1) * ctx.srcFrameBytes := by
            rw [Nat.add_mul]; omega
        _ ≤ n * ctx.srcFrameBytes := Nat.mul_le_mul_right _ hi
    unfold readAt at hfit ⊢
    rw [getD_take (by omega), getD_eq_getElem?_getD, List.getElem?_drop,
      ← getD_eq_getElem?_getD, Nat.add_mul]
    congr 1
    omega

theorem streamLoop_eq (h : StreamOf file info ctx) {requested : Nat} (hreq : requested < 2 ^ 32)
    {rounds curFrame produced : Nat} (hrounds : requested - produced ≤ rounds) :
    streamLoop ctx file requested rounds (ctx.dataOffset + curFrame * ctx.srcFrameBytes) curFrame
        produced =
      ((fileFrames file info).drop curFrame).take (requested - produced) := by
  have hpos : 0 < ctx.srcFrameBytes := by have := h.frameBytes_cases; omega
  have htotal : (fileFrames file info).length ≤ totalFrames ctx := by
    rw [h.length_fileFrames, h.dataBytes]
    exact Nat.div_le_div_right (Nat.min_le_left ..)
  induction rounds generalizing curFrame produced with
  | zero =>
    rw [streamLoop, show requested - produced = 0 by omega, take_zero]
  | succ rounds ih =>
    rw [streamLoop]
    by_cases hmore : produced < requested ∧ curFrame < totalFrames ctx
    · rw [if_pos hmore]
      have hleft : (BitVec.ofNat 32 requested - BitVec.ofNat 32 produced).toNat =
          requested - produced := by
        rw [BitVec.toNat_sub_of_le]
        · rw [BitVec.toNat_ofNat, BitVec.toNat_ofNat, Nat.mod_eq_of_lt hreq,
            Nat.mod_eq_of_lt (by omega)]
        · rw [BitVec.le_def, BitVec.toNat_ofNat, BitVec.toNat_ofNat, Nat.mod_eq_of_lt hreq,
            Nat.mod_eq_of_lt (by omega)]
          omega
      dsimp only
      rw [hleft]
      generalize hwant : min (min (requested - produced)
        (audioFileStreamScratch / ctx.srcFrameBytes)) (totalFrames ctx - curFrame) = want
      have hscratch : 1 ≤ audioFileStreamScratch / ctx.srcFrameBytes ∧
          want * ctx.srcFrameBytes ≤ 4096 := by
        unfold audioFileStreamScratch at hwant ⊢
        rcases h.frameBytes_cases with hfb | hfb | hfb <;> rw [hfb] at hwant ⊢ <;> omega
      have hgot := h.gotFrames_eq (by omega : want ≤ totalFrames ctx - curFrame)
      generalize hn : (readAt file (ctx.dataOffset + curFrame * ctx.srcFrameBytes)
        (want * ctx.srcFrameBytes)).length / ctx.srcFrameBytes = n at hgot ⊢
      have hfit : n * ctx.srcFrameBytes ≤ (readAt file
          (ctx.dataOffset + curFrame * ctx.srcFrameBytes) (want * ctx.srcFrameBytes)).length := by
        rw [← hn]
        exact Nat.div_mul_le_self ..
      have hread : (readAt file (ctx.dataOffset + curFrame * ctx.srcFrameBytes)
          (want * ctx.srcFrameBytes)).length ≤ want * ctx.srcFrameBytes := length_take_le ..
      by_cases hzero : n = 0
      · rw [if_pos hzero, drop_eq_nil_of_le (by omega), take_nil]
      · rw [if_neg hzero, h.chunk_frames hfit (by omega) (by omega)]
        by_cases hshort : n < want
        · -- the file ends here
          rw [if_pos hshort, append_nil, take_of_length_le (i := n),
            take_of_length_le]
          · rw [length_drop]
            omega
          · rw [length_drop]
            omega
        · obtain rfl : n = want := by omega
          have hnext : ctx.dataOffset + curFrame * ctx.srcFrameBytes + (readAt file
              (ctx.dataOffset + curFrame * ctx.srcFrameBytes) (n * ctx.srcFrameBytes)).length =
              ctx.dataOffset + (curFrame + n) * ctx.srcFrameBytes := by
            rw [Nat.add_mul]
            omega
          rw [if_neg hshort, hnext, ih (by omega), ← drop_drop,
            show requested - produced = n + (requested - (produced + n)) by omega, take_add]
    · rw [if_neg hmore]
      by_cases hdone : requested ≤ produced
      · rw [Nat.sub_eq_zero_of_le hdone, take_zero]
      · rw [drop_eq_nil_of_le (by omega), take_nil]

theorem read_eq (h : StreamOf file info ctx) {requested offset : Nat} (hreq : requested < 2 ^ 32)
    (hplace : PlaceFits ctx offset) :
    audioFileStreamRead ctx file requested offset =
      ((fileFrames file info).drop offset).take requested := by
  have hpos : 0 < ctx.srcFrameBytes := by have := h.frameBytes_cases; omega
  unfold audioFileStreamRead
  split
  · have htotal : (fileFrames file info).length ≤ totalFrames ctx := by
      rw [h.length_fileFrames, h.dataBytes]
      exact Nat.div_le_div_right (Nat.min_le_left ..)
    rw [drop_eq_nil_of_le (by omega), take_nil]
  · rw [Nat.mod_eq_of_lt (hplace (by omega)), h.streamLoop_eq hreq (by omega), Nat.sub_zero]

/-- Reads one behind the other return the frames of the file, however they are cut. -/
theorem reads_eq (h : StreamOf file info ctx) {requests : List Nat} {offset : Nat}
    (hreq : ∀ r ∈ requests, r < 2 ^ 32) (hplace : PlaceFits ctx offset)
    (hplaces : ∀ o ≤ (fileFrames file info).length, PlaceFits ctx o) :
    streamReads ctx file offset requests =
      ((fileFrames file info).drop offset).take requests.sum := by
  induction requests generalizing offset with
  | nil => rw [streamReads, sum_nil, take_zero]
  | cons requested requests ih =>
    rw [forall_mem_cons] at hreq
    have hlen : (((fileFrames file info).drop offset).take requested).length =
        min requested ((fileFrames file info).length - offset) := by
      rw [length_take, length_drop]
    have hnext : PlaceFits ctx
        (offset + min requested ((fileFrames file info).length - offset)) := by
      by_cases hmore : offset ≤ (fileFrames file info).length
      · exact hplaces _ (by omega)
      · rwa [Nat.sub_eq_zero_of_le (by omega), Nat.min_zero, Nat.add_zero]
    rw [streamReads, h.read_eq hreq.1 hplace, hlen]
    change _ ++ streamReads ctx file _ requests = _
    rw [ih hreq.2 hnext, sum_cons]
    by_cases hfull : requested ≤ (fileFrames file info).length - offset
    · rw [Nat.min_eq_left hfull, ← drop_drop, take_add]
    · have hend : (fileFrames file info).drop
          (offset + min requested ((fileFrames file info).length - offset)) = [] :=
        drop_eq_nil_of_le (by omega)
      rw [hend, take_nil, append_nil, take_of_length_le (i := requested),
        take_of_length_le]
      · rw [length_drop]
        omega
      · rw [length_drop]
        omega

end StreamOf

end Stream

/-! ## Writer, converter and stream -/

/-- The frames of a file, read at any place and in any pieces. -/
structure StreamsAs (ctx : AudioFileStreamCtx) (file : List Byte) (frames : List Frame) : Prop where
  read : ∀ offset requested, PlaceFits ctx offset → requested ≤ 2 ^ 31 →
    audioFileStreamRead ctx file requested offset = (frames.drop offset).take requested
  reads : ∀ offset requests, PlaceFits ctx offset →
    (∀ o ≤ frames.length, PlaceFits ctx o) → (∀ r ∈ requests, r ≤ 2 ^ 31) →
      streamReads ctx file offset requests = (frames.drop offset).take requests.sum

/-- A closed file is accepted with its rate and its frames; a file whose last format and data are
found in the probe streams as it is converted. -/
theorem wav_files :
    (∀ rate ws c, wavWrites (wavOpen rate) ws = some c →
      4 * (ws.flatMap Prod.fst).length < 2 ^ 32 - 36 →
        ∀ out, ∃ info, wavParse (wavClose c) 3 out = .ok (.ok, info) ∧
          info.sampleRate = rate ∧ info.channels = 2 ∧ info.bits = 16 ∧
          ∀ maxFrames, wavToStereoPcm16 (wavClose c) info maxFrames =
            (ws.flatMap Prod.fst).take maxFrames) ∧
      ∀ file rounds out info rounds' ctx ps, wavParse file rounds out = .ok (.ok, info) →
        audioFileStreamOpen file rounds' = .ok (some ctx) →
          ChunkWalk (chunkAdvance file) 8 file.length 12 ps → InProbe file ps →
            StreamsAs ctx file (fileFrames file info) := by
  refine ⟨fun rate ws c hws hlt out => ?_, fun file rounds out info rounds' ctx ps hparse hopen
    hwalk hin => ?_⟩
  · rw [wavClose_eq hws]
    generalize ws.flatMap Prod.fst = frames at hlt ⊢
    have hlen := frameBytes_length frames
    have hdb : (BitVec.ofNat 32 (4 * frames.length)).toNat = 4 * frames.length := by
      rw [BitVec.toNat_ofNat, Nat.mod_eq_of_lt (by omega)]
    obtain ⟨info, hparse, hrate, hch, hbits, hdata, hbytes⟩ := wavParse_header rate
      (hdb.trans hlen.symm) (by omega) (by omega) out
    exact ⟨info, hparse, hrate, hch, hbits, wavToStereo_written hdb hch hbits hdata hbytes⟩
  · have h := audioFileStreamOpen_spec hparse hopen hwalk hin
    exact
      { read := fun _ _ hplace hreq => h.read_eq (by omega) hplace
        reads := fun _ _ hplace hplaces hreq =>
          h.reads_eq (fun r hr => by have := hreq r hr; omega) hplace hplaces }

/-- Two frames in two writes; and a file with a second format behind its data. -/
theorem wav_files_small :
    (∃ info, wavParse (wavClose ⟨wavHeader 44100 0 ++ [1, 0, 2, 0, 3, 0, 4, 0], 2⟩) 3 .zero =
        .ok (.ok, info) ∧ info.sampleRate = 44100 ∧ info.channels = 2 ∧ info.bits = 16 ∧
      ∀ maxFrames, wavToStereoPcm16
        (wavClose ⟨wavHeader 44100 0 ++ [1, 0, 2, 0, 3, 0, 4, 0], 2⟩) info maxFrames =
          [((1 : BitVec 16), (2 : BitVec 16)), (3, 4)].take maxFrames) ∧
      StreamsAs ⟨44, 2, 1, 16, 22050, 2⟩ lateFmt (fileFrames lateFmt ⟨1, 1, 22050, 16, some 44, 2⟩) := by
  refine ⟨wav_files.1 44100 [([(1, 2)], 2), ([(3, 4)], 2)] _ rfl (by decide) .zero,
    wav_files.2 lateFmt 4 .zero _ 4 _ [12, 36, 46] rfl rfl lateFmt_walk ⟨fun d hd => ?_, fun f hf => ?_⟩⟩
  · obtain rfl : 36 = d := Option.some.inj hd
    decide
  · obtain rfl : 46 = f := Option.some.inj hf
    decide

/-- Two data chunks, the second one behind the probe. -/
def farData : List Byte :=
  tagRiff ++ [0, 0, 0, 0] ++ tagWave ++
    tagFmt ++ [16, 0, 0, 0, 1, 0, 2, 0, 0x44, 0xac, 0, 0, 0x10, 0xb1, 2, 0, 4, 0, 16, 0] ++
    tagData ++ [4, 0, 0, 0, 1, 0, 2, 0] ++
    [0x4a, 0x55, 0x4e, 0x4b, 0, 16, 0, 0] ++ List.replicate 4096 0 ++
    tagData ++ [4, 0, 0, 0, 3, 0, 4, 0]

/-- The converter takes the second data chunk, the stream the first. -/
theorem far_data_differs :
    ¬ ∀ file rounds out info rounds' ctx, wavParse file rounds out = .ok (.ok, info) →
      audioFileStreamOpen file rounds' = .ok (some ctx) → ∀ offset requested,
        audioFileStreamRead ctx file requested offset =
          ((fileFrames file info).drop offset).take requested := by
  intro h
  have hread := h farData 5 .zero ⟨1, 2, 44100, 16, some 4160, 4⟩ 4 ⟨44, 4, 2, 16, 44100, 4⟩
    (by decide +kernel) (by decide +kernel) 0 1
  revert hread
  decide +kernel

end Microgarbage.Audio
