import Mathlib.Algebra.Order.BigOperators.Group.List
import Mathlib.Algebra.Order.Ring.Nat
import Microgarbage.Lib.Butterfly

/-!
# Band meters

The fixed-point transform of `audio_fft_kernel.c` and the bands of `audio_fft.c`. Sums and products
of 64 bits are exact; what is narrowed to 32 bits, or reckoned in 32 bits, is narrowed here too. The
work buffers keep what an earlier window has left in them until they are loaded.
-/

namespace Microgarbage.Audio

open Lib List

def audioFftSize : Nat := 256

def audioFftBands : Nat := 16

/-! ## Tables -/

/-- `qsin` -/
def qsin (turn : Nat) : Int :=
  let turn := turn &&& 0x7FFF
  let q := (turn >>> 13) &&& 3
  let x := turn &&& 0x1FFF
  let xx := if q = 1 ∨ q = 3 then 8192 - x else x
  let xx := if 8191 < xx then 8191 else xx
  let t1 : Int := (xx <<< 2 : Nat)
  let t2 := (t1 * t1) >>> (15 : Nat)
  let t3 := (t2 * t1) >>> (15 : Nat)
  let t5 := (t3 * t2) >>> (15 : Nat)
  let s := (51472 * t1 - 21073 * t3 + 2382 * t5) >>> (15 : Nat)
  let s := if 32767 < s then 32767 else s
  let s := if s < -32767 then -32767 else s
  if 2 ≤ q then -s else s

def qcos (turn : Nat) : Int := qsin (turn + 8192)

/-- The window of `build_tables`. -/
def window (i : Nat) : Int :=
  let turn := i * 32768 / (audioFftSize - 1)
  let c := qcos turn
  let w := 16384 - (c >>> (1 : Nat))
  let w := if w < 0 then 0 else w
  if 32767 < w then 32767 else w

/-- The twiddle factors of `build_tables`. -/
def twiddle (k : Nat) : Int × Int :=
  let turn := k * 32768 / audioFftSize
  (qcos turn, -qsin turn)

/-- The loop of `bitrev`. -/
def bitrev : Nat → Nat → Nat → Nat
  | 0, _, r => r
  | bits + 1, x, r => bitrev bits (x >>> 1) ((r <<< 1) ||| (x &&& 1))

/-! ## The kernel -/

/-- An integer that is stored in 32 bits. -/
def narrow (x : Int) : Int := x.bmod (2 ^ 32)

abbrev Work := Nat → Int × Int

/-- The windowed, bit-reversed load. -/
def fftLoad (samples : Nat → BitVec 16) (work : Work) : Work :=
  (List.range audioFftSize).foldl
    (fun work i => Function.update work (bitrev 8 i 0)
      (((samples i).toInt * window i) >>> (15 : Nat), 0)) work

/-- The product of a twiddle factor and a work value, before it is narrowed. -/
def product (w z : Int × Int) : Int × Int :=
  ((z.1 * w.1 - z.2 * w.2) >>> (15 : Nat), (z.1 * w.2 + z.2 * w.1) >>> (15 : Nat))

/-- One butterfly. -/
def butterfly (w u z : Int × Int) : (Int × Int) × (Int × Int) :=
  let v := (narrow (product w z).1, narrow (product w z).2)
  ((narrow (u.1 + v.1) >>> (1 : Nat), narrow (u.2 + v.2) >>> (1 : Nat)),
    (narrow (u.1 - v.1) >>> (1 : Nat), narrow (u.2 - v.2) >>> (1 : Nat)))

/-- The butterflies of the stages with `2 * 2 ^ m` places in a group, in the order of the loops. -/
def schedule (stages : Nat) : List PairStep :=
  (List.range stages).flatMap fun m => stageSteps (2 ^ m) (2 ^ (7 - m)) (2 ^ (7 - m))

def fftSteps (work : Work) (steps : List PairStep) : Work :=
  runSteps (fun tw => butterfly (twiddle tw)) work steps

/-- The squared magnitude of a bin, before the clamp. -/
def mag2 (work : Work) (i : Nat) : Int := (work i).1 * (work i).1 + (work i).2 * (work i).2

def clampMag (mag : Int) : BitVec 32 := BitVec.ofInt 32 (if 0xFFFFFFFF < mag then 0xFFFFFFFF else mag)

/-- `audio_fft_kernel_mag`: the magnitudes and the work buffers it leaves. -/
def audioFftKernelMag (samples : Nat → BitVec 16) (work : Work) : (Nat → BitVec 32) × Work :=
  let work := fftSteps (fftLoad samples work) (schedule 8)
  (fun i => clampMag (mag2 work i), work)

/-! ## Bands -/

/-- `ilog2_u32`; 32 rounds are enough for a word. -/
def ilog2 : Nat → Nat → Nat
  | 0, _ => 0
  | rounds + 1, x => if 1 < x then ilog2 rounds (x >>> 1) + 1 else 0

def ilog2U32 (x : BitVec 32) : Nat := ilog2 32 x.toNat

structure AudioFft where
  enabled : Bool
  sampleRate : BitVec 32
  window : Nat → BitVec 16
  writePos : Nat
  sinceUpdate : BitVec 32
  bands : Nat → BitVec 8
  bandLo : Nat → BitVec 16
  bandHi : Nat → BitVec 16

def pow2Frac : List Nat := [65536, 71468, 77936, 84990, 92682, 101070, 110218, 120194, 131072]

/-- The edges of the bands; no value goes beyond 32 bits. -/
def bandEdge (b : Nat) : Nat :=
  let first := 1
  let last := audioFftSize / 2 - 1
  let ip := ilog2U32 (BitVec.ofNat 32 (last / first))
  let base := first <<< ip
  let fracQ16 := if 0 < base then ((last - base) <<< 16) / base else 0
  let totalOctQ16 := (ip <<< 16) + fracQ16
  let eQ16 := totalOctQ16 * b / audioFftBands
  let ipart := eQ16 >>> 16
  let fpart := eQ16 &&& 0xFFFF
  let seg := (fpart * 8) >>> 16
  let segpos := (fpart * 8) &&& 0xFFFF
  let lo2 := pow2Frac.getD seg 0
  let hi2 := pow2Frac.getD (seg + 1) 0
  let p2 := lo2 + (((hi2 - lo2) * segpos) >>> 16)
  let edge := (first * (1 <<< ipart) * p2) >>> 16
  let edge := if edge < first then first else edge
  if last < edge then last else edge

/-- `audio_fft_init` -/
def audioFftInit (sampleRate : BitVec 32) : AudioFft :=
  let lo (b : Nat) := BitVec.ofNat 16 (bandEdge b)
  let hi (b : Nat) := BitVec.ofNat 16 (bandEdge (b + 1))
  { enabled := false
    sampleRate := if sampleRate ≠ 0 then sampleRate else 44100
    window := fun _ => 0
    writePos := 0
    sinceUpdate := 0
    bands := fun _ => 0
    bandLo := lo
    bandHi := fun b => if hi b < lo b then lo b else hi b }

/-- `linearize`; the write position is below the size. -/
def linearize (f : AudioFft) (i : Nat) : BitVec 16 := f.window ((f.writePos + i) % audioFftSize)

/-- The average of a band. -/
def bandAvg (mag : Nat → BitVec 32) (lo hi : BitVec 16) : BitVec 32 :=
  let bins := (List.range' lo.toNat (hi.toNat + 1 - lo.toNat)).map fun k => (mag k).toNat
  let width := if lo ≤ hi then hi.toNat - lo.toNat + 1 else 1
  BitVec.ofNat 32 (bins.sum / width)

/-- The level of an average, before it is limited. -/
def bandLevel (avg : BitVec 32) : Nat := ilog2U32 (avg + 1) * 8

/-- `audio_fft_update`: whether it has run, the meter and the work buffers. -/
def audioFftUpdate (f : AudioFft) (work : Work) : Bool × AudioFft × Work :=
  if !f.enabled then (false, f, work)
  else if f.sinceUpdate.toNat < audioFftSize then (false, f, work)
  else
    let (mag, work) := audioFftKernelMag (linearize f) work
    let level (b : Nat) := bandLevel (bandAvg mag (f.bandLo b) (f.bandHi b))
    let limited (b : Nat) := if 255 < level b then 255 else level b
    (true,
      { f with
        sinceUpdate := 0
        bands := fun b => if b < audioFftBands then BitVec.ofNat 8 (limited b) else f.bands b },
      work)

/-! ## Tables in their bounds -/

theorem twiddle_within : ∀ k < 128, Within (twiddle k) 33792 := by
  have hbound : ∀ k < 128, (twiddle k).1 * (twiddle k).1 + (twiddle k).2 * (twiddle k).2 ≤
      33792 * 33792 := by decide +kernel
  exact fun k hk => ⟨by decide, hbound k hk⟩

theorem window_bounds (i : Nat) : 0 ≤ window i ∧ window i ≤ 32767 := by
  unfold window
  dsimp only
  generalize 16384 - (qcos _ >>> (1 : Nat)) = w
  split <;> split <;> omega

theorem bitrev_bitrev : ∀ j < audioFftSize, bitrev 8 j 0 < audioFftSize ∧
    bitrev 8 (bitrev 8 j 0) 0 = j := by decide +kernel

/-! ## The load -/

section

variable {α : Type*} {P : α → Prop} {idx : Nat → Nat} {val : Nat → α} {x : Nat}

theorem foldl_update_good (hval : ∀ i, P (val i)) (l : List Nat) {s : Nat → α}
    (h : P (s x) ∨ ∃ i ∈ l, idx i = x) :
    P (l.foldl (fun s i => Function.update s (idx i) (val i)) s x) := by
  induction l generalizing s with
  | nil =>
    rcases h with h | ⟨i, hi, -⟩
    · exact h
    · exact absurd hi not_mem_nil
  | cons i l ih =>
    refine ih (s := Function.update s (idx i) (val i)) ?_
    by_cases hx : idx i = x
    · left
      rw [hx, Function.update_self]
      exact hval i
    · rw [Function.update_of_ne (Ne.symm hx)]
      refine h.imp_right ?_
      rintro ⟨j, hj, hjx⟩
      rcases mem_cons.mp hj with rfl | hj
      · exact absurd hjx hx
      · exact ⟨j, hj, hjx⟩

end

theorem sample_within (sample : BitVec 16) (i : Nat) :
    Within ((sample.toInt * window i) >>> (15 : Nat), 0) 32768 := by
  obtain ⟨hw₀, hw₁⟩ := window_bounds i
  have hs₀ : (-32768 : Int) ≤ sample.toInt := BitVec.le_toInt sample
  have hs₁ : sample.toInt < 32768 := BitVec.toInt_lt
  have hlow : -32768 * 32767 ≤ sample.toInt * window i := by nlinarith
  have hhigh : sample.toInt * window i ≤ 32767 * 32767 := by nlinarith
  generalize sample.toInt * window i = p at hlow hhigh
  have hshift : (-32768 : Int) ≤ p >>> (15 : Nat) ∧ p >>> (15 : Nat) ≤ 32768 := by
    rw [Int.shiftRight_eq_div_pow]
    omega
  refine ⟨by decide, ?_⟩
  dsimp only
  nlinarith only [hshift.1, hshift.2]

theorem fftLoad_within (samples : Nat → BitVec 16) (work : Work) :
    ∀ x < audioFftSize, Within (fftLoad samples work x) 32768 := by
  intro x hx
  obtain ⟨hlt, hinv⟩ := bitrev_bitrev x hx
  exact foldl_update_good (P := (Within · 32768)) (fun i => sample_within (samples i) i)
    (List.range audioFftSize) (.inr ⟨bitrev 8 x 0, mem_range.mpr hlt, hinv⟩)

/-! ## The butterfly -/

theorem narrow_eq {x : Int} (h : -2 ^ 31 ≤ x) (h' : x < 2 ^ 31) : narrow x = x := by
  unfold narrow
  exact Int.bmod_eq_of_le (by omega) (by omega)

/-- Nothing of a butterfly is lost when it is stored in 32 bits. -/
structure Lossless (w u z : Int × Int) : Prop where
  re : narrow (product w z).1 = (product w z).1
  im : narrow (product w z).2 = (product w z).2
  addRe : narrow (u.1 + (product w z).1) = u.1 + (product w z).1
  addIm : narrow (u.2 + (product w z).2) = u.2 + (product w z).2
  subRe : narrow (u.1 - (product w z).1) = u.1 - (product w z).1
  subIm : narrow (u.2 - (product w z).2) = u.2 - (product w z).2

section

variable {w u z : Int × Int} {B : Int}

theorem product_within (hw : Within w 33792) (hz : Within z B) :
    Within (product w z) (B + B / 32 + 3) :=
  (hz.mul hw).shift 15 (by omega)

theorem lossless_of_within (hw : Within w 33792) (hu : Within u B) (hz : Within z B)
    (hB : B ≤ 65536) : Lossless w u z := by
  obtain ⟨hp₁, hp₂, hp₃, hp₄⟩ := (product_within hw hz).part
  obtain ⟨hu₁, hu₂, hu₃, hu₄⟩ := hu.part
  constructor
  all_goals
    apply narrow_eq <;> omega

theorem butterfly_within (hw : Within w 33792) (hu : Within u B) (hz : Within z B)
    (hB : B ≤ 65536) : Within (butterfly w u z).1 (B + B / 64 + 4) ∧
      Within (butterfly w u z).2 (B + B / 64 + 4) := by
  have hloss := lossless_of_within hw hu hz hB
  have hprod := product_within hw hz
  unfold butterfly
  dsimp only
  rw [hloss.re, hloss.im, hloss.addRe, hloss.addIm, hloss.subRe, hloss.subIm]
  exact ⟨(hu.add hprod).shift 1 (by omega), (hu.sub hprod).shift 1 (by omega)⟩

end

/-! ## The stages -/

/-- The bound on the magnitudes after some stages. -/
def limit : Nat → Int
  | 0 => 32768
  | m + 1 => limit m + limit m / 64 + 4

theorem limit_nonneg (m : Nat) : 0 ≤ limit m := by
  induction m with
  | zero => decide
  | succ m ih =>
    rw [limit]
    omega

theorem limit_mono {m n : Nat} (h : m ≤ n) : limit m ≤ limit n := by
  induction h with
  | refl => exact Int.le_refl _
  | @step n _ ih =>
    have := limit_nonneg n
    rw [limit]
    omega

theorem limit_eight : limit 8 = 37127 := by decide

theorem mem_stage {m : Nat} (hm : m < 8) {st : PairStep}
    (h : st ∈ stageSteps (2 ^ m) (2 ^ (7 - m)) (2 ^ (7 - m))) :
    st.a < audioFftSize ∧ st.b < audioFftSize ∧ st.w < 128 := by
  have hsize : 2 ^ (7 - m) * (2 * 2 ^ m) = audioFftSize := by
    rw [Nat.mul_left_comm, ← Nat.pow_add, Nat.sub_add_cancel (by omega)]
    rfl
  have htouched : ∀ x ∈ [st.a, st.b], x < audioFftSize := fun x hx => by
    rw [← hsize]
    exact (mem_touched_stage (by positivity)).mp (mem_flatMap.mpr ⟨st, h, hx⟩)
  refine ⟨htouched st.a (by simp), htouched st.b (by simp), ?_⟩
  unfold stageSteps groupSteps at h
  simp only [mem_flatMap, mem_map, mem_range] at h
  obtain ⟨j, -, k, hk, rfl⟩ := h
  calc k * 2 ^ (7 - m) < 2 ^ m * 2 ^ (7 - m) := Nat.mul_lt_mul_of_pos_right hk (by positivity)
    _ = 128 := by
      rw [← Nat.pow_add, Nat.add_sub_cancel' (by omega)]

theorem schedule_succ (m : Nat) :
    schedule (m + 1) = schedule m ++ stageSteps (2 ^ m) (2 ^ (7 - m)) (2 ^ (7 - m)) := by
  unfold schedule
  rw [range_succ, flatMap_append, flatMap_singleton]

/-- Some steps of a stage: the magnitudes do not exceed the bound of its end, and at its end they
have all been through it. -/
theorem stage_within {m : Nat} (hm : m < 8) {work : Work}
    (h : ∀ x < audioFftSize, Within (work x) (limit m)) {pre post : List PairStep}
    (hsplit : stageSteps (2 ^ m) (2 ^ (7 - m)) (2 ^ (7 - m)) = pre ++ post) :
    ∀ x < audioFftSize, Within (fftSteps work pre x) (limit (m + 1)) := by
  have hsmall : limit m ≤ 65536 := by
    have := limit_mono (by omega : m ≤ 8)
    rw [limit_eight] at this
    omega
  have hmem : ∀ st ∈ pre, st ∈ stageSteps (2 ^ m) (2 ^ (7 - m)) (2 ^ (7 - m)) := fun st hst => by
    rw [hsplit]
    exact mem_append_left post hst
  have hnodup : (touched pre).Nodup := by
    have hall : (touched (stageSteps (2 ^ m) (2 ^ (7 - m)) (2 ^ (7 - m)))).Nodup :=
      nodup_touched_stage
    rw [hsplit, touched_append] at hall
    exact hall.of_append_left
  have hin : ∀ x ∈ touched pre, x < audioFftSize := fun x hx => by
    obtain ⟨st, hst, hx⟩ := mem_flatMap.mp hx
    obtain ⟨ha, hb, -⟩ := mem_stage hm (hmem st hst)
    rcases mem_pair.mp hx with rfl | rfl
    · exact ha
    · exact hb
  have hgrow : ∀ st ∈ pre, ∀ u v, Within u (limit m) → Within v (limit m) →
      Within (butterfly (twiddle st.w) u v).1 (limit (m + 1)) ∧
        Within (butterfly (twiddle st.w) u v).2 (limit (m + 1)) := fun st hst u v hu hv =>
    butterfly_within (twiddle_within st.w (mem_stage hm (hmem st hst)).2.2) hu hv hsmall
  obtain ⟨hdone, hrest⟩ := runSteps_spec (f := fun tw => butterfly (twiddle tw))
    (P := (Within · (limit m))) (Q := (Within · (limit (m + 1)))) hgrow hnodup
    fun x hx => h x (hin x hx)
  intro x hx
  by_cases htouched : x ∈ touched pre
  · exact hdone x htouched
  · rw [show fftSteps work pre x = work x from hrest x htouched]
    exact (h x hx).mono (limit_mono (Nat.le_succ m))

/-- After any number of butterflies, the magnitudes are within the bound of the stage. -/
theorem schedule_within {work : Work} (h : ∀ x < audioFftSize, Within (work x) (limit 0)) {m : Nat}
    (hm : m ≤ 8) {pre post : List PairStep} (hsplit : schedule m = pre ++ post) :
    ∀ x < audioFftSize, Within (fftSteps work pre x) (limit m) := by
  induction m generalizing pre post with
  | zero =>
    obtain ⟨rfl, -⟩ := append_eq_nil_iff.mp hsplit.symm
    exact h
  | succ m ih =>
    rw [schedule_succ] at hsplit
    rcases append_eq_append_iff.mp hsplit with ⟨rest, rfl, hstage⟩ | ⟨rest, hpre, -⟩
    · have hfirst := ih (by omega) (append_nil (schedule m)).symm
      intro x hx
      rw [fftSteps, runSteps_append]
      exact stage_within (by omega) hfirst hstage x hx
    · intro x hx
      exact (ih (by omega) hpre x hx).mono (limit_mono (Nat.le_succ m))

theorem mem_schedule {m : Nat} (hm : m ≤ 8) {st : PairStep} (h : st ∈ schedule m) :
    st.a < audioFftSize ∧ st.b < audioFftSize ∧ st.w < 128 := by
  unfold schedule at h
  obtain ⟨j, hj, hst⟩ := mem_flatMap.mp h
  rw [mem_range] at hj
  exact mem_stage (by omega) hst

/-! ## Bands and levels -/

theorem mag2_le {work : Work} {i : Nat} (h : Within (work i) (limit 8)) :
    mag2 work i ≤ 37127 * 37127 := by
  have hle := h.le
  rwa [limit_eight] at hle

theorem clampMag_le {mag : Int} (h : 0 ≤ mag) (h' : mag ≤ 37127 * 37127) :
    (clampMag mag).toNat ≤ 37127 * 37127 := by
  unfold clampMag
  rw [if_neg (by omega), BitVec.toNat_ofInt]
  omega

theorem band_bins (rate : BitVec 32) : ∀ b < audioFftBands,
    1 ≤ ((audioFftInit rate).bandLo b).toNat ∧
      (audioFftInit rate).bandLo b ≤ (audioFftInit rate).bandHi b ∧
        ((audioFftInit rate).bandHi b).toNat ≤ 127 := by
  have hbins : ∀ b < audioFftBands, 1 ≤ ((audioFftInit 0).bandLo b).toNat ∧
      (audioFftInit 0).bandLo b ≤ (audioFftInit 0).bandHi b ∧
        ((audioFftInit 0).bandHi b).toNat ≤ 127 := by decide +kernel
  exact hbins

theorem bandAvg_le {mag : Nat → BitVec 32} {lo hi : BitVec 16} (hle : lo ≤ hi)
    {M : Nat} (hmag : ∀ k, lo.toNat ≤ k → k ≤ hi.toNat → (mag k).toNat ≤ M) :
    (bandAvg mag lo hi).toNat ≤ M := by
  have hle' : lo.toNat ≤ hi.toNat := hle
  have hsum : ((List.range' lo.toNat (hi.toNat + 1 - lo.toNat)).map fun k => (mag k).toNat).sum ≤
      (hi.toNat - lo.toNat + 1) * M := by
    have hbound := sum_le_card_nsmul
      ((List.range' lo.toNat (hi.toNat + 1 - lo.toNat)).map fun k => (mag k).toNat) M (by
        intro x hx
        obtain ⟨k, hk, rfl⟩ := mem_map.mp hx
        have := mem_range'_1.mp hk
        exact hmag k (by omega) (by omega))
    rw [length_map, length_range', nsmul_eq_mul] at hbound
    rwa [show hi.toNat - lo.toNat + 1 = hi.toNat + 1 - lo.toNat by omega]
  unfold bandAvg
  dsimp only
  rw [if_pos hle]
  have hquot := Nat.div_le_of_le_mul hsum
  rw [BitVec.toNat_ofNat]
  exact (Nat.mod_le ..).trans hquot

theorem ilog2_le {rounds x : Nat} (h : x < 2 ^ (rounds + 1)) : ilog2 (rounds + 1) x ≤ rounds := by
  induction rounds generalizing x with
  | zero =>
    rw [ilog2, if_neg (by omega)]
  | succ rounds ih =>
    rw [ilog2]
    split
    · have hhalf : x >>> 1 < 2 ^ (rounds + 1) := by
        rw [Nat.shiftRight_eq_div_pow]
        omega
      exact Nat.succ_le_succ (ih hhalf)
    · exact Nat.zero_le _

theorem bandLevel_le (avg : BitVec 32) : bandLevel avg ≤ 248 := by
  have hlog : ilog2 32 (avg + 1).toNat ≤ 31 := ilog2_le (avg + 1).isLt
  unfold bandLevel ilog2U32
  omega

/-- The bounds of a transform and of the meters over it. -/
structure FftSafe (samples : Nat → BitVec 16) (work : Work) (rate : BitVec 32) : Prop where
  magnitude : ∀ pre post, schedule 8 = pre ++ post → ∀ x < audioFftSize,
    mag2 (fftSteps (fftLoad samples work) pre) x < 2 ^ 32
  lossless : ∀ pre st post, schedule 8 = pre ++ st :: post →
    Lossless (twiddle st.w) (fftSteps (fftLoad samples work) pre st.a)
      (fftSteps (fftLoad samples work) pre st.b)
  unclamped : ∀ i < audioFftSize / 2,
    mag2 (fftSteps (fftLoad samples work) (schedule 8)) i < 0xFFFFFFFF
  bins : ∀ b < audioFftBands, 1 ≤ ((audioFftInit rate).bandLo b).toNat ∧
    (audioFftInit rate).bandLo b ≤ (audioFftInit rate).bandHi b ∧
      ((audioFftInit rate).bandHi b).toNat ≤ 127
  average : ∀ b < audioFftBands, (bandAvg (audioFftKernelMag samples work).1
    ((audioFftInit rate).bandLo b) ((audioFftInit rate).bandHi b)).toNat + 1 < 2 ^ 32
  level : ∀ b < audioFftBands, bandLevel (bandAvg (audioFftKernelMag samples work).1
    ((audioFftInit rate).bandLo b) ((audioFftInit rate).bandHi b)) ≤ 255

theorem fft_safe (samples : Nat → BitVec 16) (work : Work) (rate : BitVec 32) :
    FftSafe samples work rate := by
  have hload : ∀ x < audioFftSize, Within (fftLoad samples work x) (limit 0) :=
    fftLoad_within samples work
  have hall {pre post : List PairStep} (hsplit : schedule 8 = pre ++ post) :
      ∀ x < audioFftSize, Within (fftSteps (fftLoad samples work) pre x) (limit 8) :=
    schedule_within hload (Nat.le_refl 8) hsplit
  have hend := hall (append_nil (schedule 8)).symm
  have havg : ∀ b < audioFftBands, (bandAvg (audioFftKernelMag samples work).1
      ((audioFftInit rate).bandLo b) ((audioFftInit rate).bandHi b)).toNat ≤ 37127 * 37127 := by
    intro b hb
    obtain ⟨-, hle, hhi⟩ := band_bins rate b hb
    refine bandAvg_le hle fun k _ hk => ?_
    have hk' : k < audioFftSize := by
      unfold audioFftSize
      omega
    exact clampMag_le (add_nonneg (mul_self_nonneg _) (mul_self_nonneg _)) (mag2_le (hend k hk'))
  constructor
  · intro pre post hsplit x hx
    have := mag2_le (hall hsplit x hx)
    omega
  · intro pre st post hsplit
    have hst : st ∈ schedule 8 := by
      rw [hsplit]
      exact mem_append_right pre mem_cons_self
    obtain ⟨ha, hb, hw⟩ := mem_schedule (Nat.le_refl 8) hst
    exact lossless_of_within (twiddle_within st.w hw) (hall hsplit st.a ha) (hall hsplit st.b hb)
      (by decide)
  · intro i hi
    have := mag2_le (hend i (by unfold audioFftSize at hi ⊢; omega))
    omega
  · exact band_bins rate
  · intro b hb
    have := havg b hb
    omega
  · intro b hb
    exact (bandLevel_le _).trans (by decide)

end Microgarbage.Audio
