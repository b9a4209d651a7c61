import Microgarbage.Lib.Span

/-!
# The bump allocator

`bump.c`, for any width of `size_t`. A client keeps the blocks that lie below the cursor: a rewind
takes back the blocks above the mark, a reset all of them.
-/

namespace Microgarbage.Memory

open Lib

variable {w : Nat}

structure BumpAllocator (w : Nat) where
  region : BitVec w
  regionBytes : BitVec w
  offset : BitVec w
  peakOffset : BitVec w
  deriving DecidableEq

/-- `is_power_of_two` -/
def isPowerOfTwo (x : BitVec w) : Bool := x != 0 && x &&& (x - 1) == 0

/-- `bump_init` -/
def bumpInit (region bytes : BitVec w) : Option (BumpAllocator w) :=
  if region = 0 ∨ bytes = 0 then none else some ⟨region, bytes, 0, 0⟩

/-- `bump_reset` -/
def bumpReset (b : BumpAllocator w) : BumpAllocator w := { b with offset := 0, peakOffset := 0 }

abbrev BumpMark (w : Nat) := BitVec w

/-- `bump_mark` -/
def bumpMark (b : BumpAllocator w) : BumpMark w := b.offset

/-- `bump_rewind_to` -/
def bumpRewindTo (b : BumpAllocator w) (mark : BumpMark w) : BumpAllocator w :=
  if b.offset < mark then b else { b with offset := mark }

/-- `bump_alloc_aligned`: the block's address, if there is one, and the allocator. -/
def bumpAllocAligned (b : BumpAllocator w) (n alignment : BitVec w) :
    Option (BitVec w) × BumpAllocator w :=
  if b.region = 0 ∨ n = 0 then (none, b)
  else if !isPowerOfTwo alignment then (none, b)
  else
    let mask := alignment - 1
    let alignedOff := (b.offset + mask) &&& ~~~mask
    if alignedOff < b.offset then (none, b)
    else if b.regionBytes < alignedOff then (none, b)
    else if b.regionBytes - alignedOff < n then (none, b)
    else
      let offset := alignedOff + n
      (some (b.region + alignedOff),
        { b with
          offset := offset
          peakOffset := if b.peakOffset < offset then offset else b.peakOffset })

def bumpDefaultAlignment : BitVec w := 8

/-- `bump_alloc` -/
def bumpAlloc (b : BumpAllocator w) (n : BitVec w) : Option (BitVec w) × BumpAllocator w :=
  bumpAllocAligned b n bumpDefaultAlignment

/-- `bump_used` -/
def bumpUsed (b : BumpAllocator w) : BitVec w := b.offset

/-- `bump_capacity` -/
def bumpCapacity (b : BumpAllocator w) : BitVec w := b.regionBytes

/-- `bump_peak` -/
def bumpPeak (b : BumpAllocator w) : BitVec w := b.peakOffset

/-! ## Clients -/

/-- A block, with the alignment that was asked for. -/
structure Block (w : Nat) extends Span w where
  alignment : BitVec w
  deriving DecidableEq

/-- The allocator, the blocks of its client, and the greatest use since the last reset. -/
structure BumpClient (w : Nat) where
  bump : BumpAllocator w
  live : List (Block w)
  most : Nat
  deriving DecidableEq

inductive BumpCall (w : Nat) where
  | allocAligned (n alignment : BitVec w)
  | alloc (n : BitVec w)
  | mark
  | rewindTo (mark : BumpMark w)
  | reset
  deriving DecidableEq

/-- Where the block begins in the region. -/
def Block.start (region : BitVec w) (b : Block w) : Nat := (b.base - region).toNat

/-- The block ends at or below a mark. -/
def Block.Below (region mark : BitVec w) (b : Block w) : Prop :=
  b.start region + b.bytes.toNat ≤ mark.toNat

instance (region mark : BitVec w) (b : Block w) : Decidable (b.Below region mark) :=
  inferInstanceAs (Decidable (_ ≤ _))

/-- A client notes the use. -/
def BumpClient.note (s : BumpClient w) : BumpClient w :=
  { s with most := max s.most (bumpUsed s.bump).toNat }

def BumpClient.grant (s : BumpClient w) (n alignment : BitVec w)
    (r : Option (BitVec w) × BumpAllocator w) : BumpClient w :=
  { s with
    bump := r.2
    live := (r.1.map fun p => ⟨⟨p, n⟩, alignment⟩).toList ++ s.live }

/-- A client keeps what is below the cursor. -/
def BumpClient.rewound (s : BumpClient w) (bump : BumpAllocator w) : BumpClient w :=
  { s with bump, live := s.live.filter fun b => b.Below bump.region bump.offset }

def bumpCall (s : BumpClient w) : BumpCall w → BumpClient w
  | .allocAligned n alignment => (s.grant n alignment (bumpAllocAligned s.bump n alignment)).note
  | .alloc n => (s.grant n bumpDefaultAlignment (bumpAlloc s.bump n)).note
  | .mark => s.note
  | .rewindTo mark => (s.rewound (bumpRewindTo s.bump mark)).note
  | .reset => ⟨bumpReset s.bump, [], 0⟩

def bumpRun (s : BumpClient w) (calls : List (BumpCall w)) : BumpClient w := calls.foldl bumpCall s

/-! ## Allocations -/

/-- What an allocation of `n` bytes does when it succeeds. -/
structure Bumped (b : BumpAllocator w) (n alignment p : BitVec w) (b' : BumpAllocator w) : Prop where
  place : ∃ k, alignment.toNat = 2 ^ k ∧ 2 ^ k ∣ (p - b.region).toNat
  above : b.offset.toNat ≤ (p - b.region).toNat
  cursor : (p - b.region).toNat + n.toNat = b'.offset.toNat
  room : b'.offset ≤ b.regionBytes
  region : b'.region = b.region
  regionBytes : b'.regionBytes = b.regionBytes
  peak : b'.peakOffset.toNat = max b.peakOffset.toNat b'.offset.toNat

theorem isPowerOfTwo_spec {x : BitVec w} (h : isPowerOfTwo x) : ∃ k, x.toNat = 2 ^ k := by
  unfold isPowerOfTwo at h
  rw [Bool.and_eq_true, bne_iff_ne, beq_iff_eq] at h
  exact exists_two_pow h.1 h.2

/-- An allocation fails and changes nothing, or it moves the cursor past the block. -/
theorem bumpAllocAligned_cases (b : BumpAllocator w) (n alignment : BitVec w) :
    bumpAllocAligned b n alignment = (none, b) ∨
      ∃ p b', bumpAllocAligned b n alignment = (some p, b') ∧ Bumped b n alignment p b' := by
  unfold bumpAllocAligned
  split
  case isTrue => exact .inl rfl
  split
  case isTrue => exact .inl rfl
  case isFalse hpow =>
  obtain ⟨k, hk⟩ := isPowerOfTwo_spec (by simpa using hpow)
  dsimp only
  have hdvd : 2 ^ k ∣ ((b.offset + (alignment - 1)) &&& ~~~(alignment - 1)).toNat := by
    rw [toNat_mask_not hk]
    exact Nat.dvd_mul_left ..
  generalize (b.offset + (alignment - 1)) &&& ~~~(alignment - 1) = off at hdvd ⊢
  split
  case isTrue => exact .inl rfl
  case isFalse hwrap =>
  split
  case isTrue => exact .inl rfl
  case isFalse hstart =>
  split
  case isTrue => exact .inl rfl
  case isFalse hroom =>
  rw [BitVec.lt_def] at hwrap hstart hroom
  rw [BitVec.toNat_sub_of_le (BitVec.le_def.mpr (by omega))] at hroom
  have hbytes := b.regionBytes.isLt
  have hsum : (off + n).toNat = off.toNat + n.toNat := by
    rw [BitVec.toNat_add, Nat.mod_eq_of_lt (by omega)]
  have hplace : (b.region + off - b.region).toNat = off.toNat := by
    rw [BitVec.add_comm, BitVec.add_sub_cancel]
  refine .inr ⟨_, _, rfl, ⟨k, hk, hplace ▸ hdvd⟩, ?_, ?_, ?_, rfl, rfl, ?_⟩
  · rw [hplace]
    exact Nat.not_lt.mp hwrap
  · rw [hplace]
    exact hsum.symm
  · rw [BitVec.le_def, hsum]
    omega
  · dsimp only
    split
    case isTrue hpeak => exact (max_eq_right (BitVec.lt_def.mp hpeak).le).symm
    case isFalse hpeak =>
      exact (max_eq_left (Nat.not_lt.mp fun h => hpeak (BitVec.lt_def.mpr h))).symm

/-! ## Runs -/

/-- A block where it was put. -/
structure Block.Placed (b : BumpAllocator w) (blk : Block w) : Prop where
  below : blk.Below b.region b.offset
  aligned : ∃ k, blk.alignment.toNat = 2 ^ k ∧ 2 ^ k ∣ blk.start b.region

/-- The cursor is inside the region, and the client's blocks lie below it, the newest on top. -/
structure Sound (s : BumpClient w) : Prop where
  used : s.bump.offset ≤ s.bump.regionBytes
  reached : s.bump.offset.toNat ≤ s.most
  peak : s.bump.peakOffset.toNat = s.most
  placed : ∀ b ∈ s.live, b.Placed s.bump
  stacked : s.live.Pairwise fun b c =>
    c.start s.bump.region + c.bytes.toNat ≤ b.start s.bump.region

namespace Sound

variable {s : BumpClient w}

theorem note_eq (h : Sound s) : s.note = s := by
  unfold BumpClient.note bumpUsed
  rw [max_eq_left h.reached]

theorem grant (h : Sound s) (n alignment : BitVec w) :
    Sound (s.grant n alignment (bumpAllocAligned s.bump n alignment)).note := by
  rcases bumpAllocAligned_cases s.bump n alignment with heq | ⟨p, b', heq, hb⟩
  · rw [heq, show s.grant n alignment (none, s.bump) = s from rfl, h.note_eq]
    exact h
  rw [heq]
  have hcursor := hb.cursor
  constructor
  case used =>
    show b'.offset ≤ b'.regionBytes
    rw [hb.regionBytes]
    exact hb.room
  case reached => exact le_max_right ..
  case peak =>
    show b'.peakOffset.toNat = max s.most b'.offset.toNat
    rw [hb.peak, h.peak]
  case placed =>
    intro blk hblk
    rcases List.mem_cons.mp hblk with rfl | hblk
    · constructor
      · show (p - b'.region).toNat + n.toNat ≤ b'.offset.toNat
        rw [hb.region]
        exact hcursor.le
      · show ∃ k, alignment.toNat = 2 ^ k ∧ 2 ^ k ∣ (p - b'.region).toNat
        rw [hb.region]
        exact hb.place
    · obtain ⟨hbelow, haligned⟩ := h.placed blk hblk
      have habove := hb.above
      constructor
      · show blk.start b'.region + blk.bytes.toNat ≤ b'.offset.toNat
        rw [hb.region]
        exact Nat.le_trans hbelow (by omega)
      · show ∃ k, blk.alignment.toNat = 2 ^ k ∧ 2 ^ k ∣ blk.start b'.region
        rw [hb.region]
        exact haligned
  case stacked =>
    show List.Pairwise (fun b c : Block w => c.start b'.region + c.bytes.toNat ≤ b.start b'.region)
      (⟨⟨p, n⟩, alignment⟩ :: s.live)
    rw [hb.region]
    refine List.pairwise_cons.mpr ⟨fun c hc => ?_, h.stacked⟩
    exact Nat.le_trans (h.placed c hc).below hb.above

theorem rewind (h : Sound s) (mark : BumpMark w) :
    Sound (s.rewound (bumpRewindTo s.bump mark)).note := by
  have hdown : (bumpRewindTo s.bump mark).offset.toNat ≤ s.bump.offset.toNat ∧
      (bumpRewindTo s.bump mark).region = s.bump.region ∧
        (bumpRewindTo s.bump mark).regionBytes = s.bump.regionBytes ∧
          (bumpRewindTo s.bump mark).peakOffset = s.bump.peakOffset := by
    unfold bumpRewindTo
    split
    case isTrue => exact ⟨Nat.le_refl _, rfl, rfl, rfl⟩
    case isFalse hmark =>
      exact ⟨Nat.not_lt.mp fun hlt => hmark (BitVec.lt_def.mpr hlt), rfl, rfl, rfl⟩
  generalize bumpRewindTo s.bump mark = b' at hdown ⊢
  obtain ⟨hoffset, hregion, hbytes, hpeak⟩ := hdown
  have hused : s.bump.offset.toNat ≤ s.bump.regionBytes.toNat := h.used
  have hreached := h.reached
  constructor
  case used =>
    show b'.offset.toNat ≤ b'.regionBytes.toNat
    rw [hbytes]
    exact hoffset.trans hused
  case reached => exact le_max_right ..
  case peak =>
    show b'.peakOffset.toNat = max s.most b'.offset.toNat
    rw [hpeak, h.peak, max_eq_left (hoffset.trans hreached)]
  case placed =>
    intro blk hblk
    obtain ⟨hmem, hbelow⟩ := List.mem_filter.mp hblk
    have haligned := (h.placed blk hmem).aligned
    rw [← hregion] at haligned
    exact ⟨of_decide_eq_true hbelow, haligned⟩
  case stacked =>
    show (s.live.filter _).Pairwise fun b c =>
      c.start b'.region + c.bytes.toNat ≤ b.start b'.region
    rw [hregion]
    exact h.stacked.filter _

theorem call (h : Sound s) (c : BumpCall w) : Sound (bumpCall s c) := by
  cases c with
  | allocAligned n alignment => exact h.grant n alignment
  | alloc n => exact h.grant n bumpDefaultAlignment
  | mark =>
    rw [show bumpCall s .mark = s.note from rfl, h.note_eq]
    exact h
  | rewindTo mark => exact h.rewind mark
  | reset =>
    exact ⟨Nat.zero_le _, Nat.zero_le _, rfl, fun b hb => absurd hb List.not_mem_nil, .nil⟩

theorem run (h : Sound s) (calls : List (BumpCall w)) : Sound (bumpRun s calls) := by
  induction calls generalizing s with
  | nil => exact h
  | cons c calls ih => exact ih (h.call c)

theorem start {region bytes : BitVec w} {b : BumpAllocator w} (h : bumpInit region bytes = some b) :
    Sound ⟨b, [], 0⟩ := by
  unfold bumpInit at h
  split at h
  case isTrue => cases h
  case isFalse =>
    cases h
    exact ⟨Nat.zero_le _, Nat.zero_le _, rfl, fun b hb => absurd hb List.not_mem_nil, .nil⟩

end Sound

theorem bumpCall_home (s : BumpClient w) (c : BumpCall w) :
    (bumpCall s c).bump.region = s.bump.region ∧
      (bumpCall s c).bump.regionBytes = s.bump.regionBytes := by
  have hgrant (n alignment : BitVec w) :
      (bumpAllocAligned s.bump n alignment).2.region = s.bump.region ∧
        (bumpAllocAligned s.bump n alignment).2.regionBytes = s.bump.regionBytes := by
    rcases bumpAllocAligned_cases s.bump n alignment with heq | ⟨p, b', heq, hb⟩
    · rw [heq]
      exact ⟨rfl, rfl⟩
    · rw [heq]
      exact ⟨hb.region, hb.regionBytes⟩
  cases c with
  | allocAligned n alignment => exact hgrant n alignment
  | alloc n => exact hgrant n bumpDefaultAlignment
  | mark => exact ⟨rfl, rfl⟩
  | rewindTo mark =>
    show (bumpRewindTo s.bump mark).region = _ ∧ (bumpRewindTo s.bump mark).regionBytes = _
    unfold bumpRewindTo
    split <;> exact ⟨rfl, rfl⟩
  | reset => exact ⟨rfl, rfl⟩

theorem bumpRun_home (s : BumpClient w) (calls : List (BumpCall w)) :
    (bumpRun s calls).bump.region = s.bump.region ∧
      (bumpRun s calls).bump.regionBytes = s.bump.regionBytes := by
  induction calls generalizing s with
  | nil => exact ⟨rfl, rfl⟩
  | cons c calls ih =>
    obtain ⟨hregion, hbytes⟩ := ih (bumpCall s c)
    obtain ⟨hregion', hbytes'⟩ := bumpCall_home s c
    exact ⟨hregion.trans hregion', hbytes.trans hbytes'⟩

/-! ## What a client may rely on -/

/-- The promises of `bump.h` about a region, but for the alignment of the blocks. -/
structure Promised (region bytes : BitVec w) (s : BumpClient w) : Prop where
  apart : s.live.Pairwise fun b c => b.Apart c.toSpan
  inside : ∀ b ∈ s.live, b.Inside ⟨region, bytes⟩
  failed : ∀ n alignment, (bumpAllocAligned s.bump n alignment).1 = none →
    (bumpAllocAligned s.bump n alignment).2 = s.bump
  used : bumpUsed s.bump ≤ bumpCapacity s.bump
  capacity : bumpCapacity s.bump = bytes
  peak : (bumpPeak s.bump).toNat = s.most
  /-- A rewind to a mark keeps every block that there was when it was taken. -/
  marked : ∀ b ∈ s.live, b.Below region (bumpMark s.bump)

/-- In every run the promises hold, and a block has the alignment that was asked for exactly when
the region has it. -/
theorem bump_run {region bytes : BitVec w} {b : BumpAllocator w}
    (h : bumpInit region bytes = some b) (calls : List (BumpCall w)) :
    Promised region bytes (bumpRun ⟨b, [], 0⟩ calls) ∧
      ∀ blk ∈ (bumpRun ⟨b, [], 0⟩ calls).live,
        (blk.alignment.toNat ∣ blk.base.toNat ↔ blk.alignment.toNat ∣ region.toNat) := by
  have hsound := (Sound.start h).run calls
  obtain ⟨hregion, hbytes⟩ := bumpRun_home ⟨b, [], 0⟩ calls
  have hinit : b.region = region ∧ b.regionBytes = bytes := by
    unfold bumpInit at h
    split at h <;> cases h
    exact ⟨rfl, rfl⟩
  generalize bumpRun ⟨b, [], 0⟩ calls = s at hsound hregion hbytes ⊢
  rw [hinit.1] at hregion
  rw [hinit.2] at hbytes
  subst hregion hbytes
  have hat (blk : Block w) (hblk : blk ∈ s.live) : blk.At s.bump.region s.bump.offset.toNat
      (blk.start s.bump.region) := Span.at_offset (hsound.placed blk hblk).below
  have hlimit := s.bump.offset.isLt
  refine ⟨⟨?_, fun blk hblk => ?_, fun n alignment hnone => ?_, hsound.used, rfl, hsound.peak,
    fun blk hblk => (hsound.placed blk hblk).below⟩, fun blk hblk => ?_⟩
  · refine hsound.stacked.imp_of_mem fun {b c} hb hc hle => ?_
    exact ((hat c hc).apart (hat b hb) hlimit hle).symm
  · have hregion : blk.At s.bump.region s.bump.regionBytes.toNat (blk.start s.bump.region) :=
      ⟨(hat blk hblk).base_eq, (hat blk hblk).fits.trans hsound.used⟩
    exact hregion.inside
  · rcases bumpAllocAligned_cases s.bump n alignment with heq | ⟨p, b', heq, -⟩
    · rw [heq]
    · rw [heq] at hnone
      cases hnone
  · obtain ⟨k, hk, hdvd⟩ := (hsound.placed blk hblk).aligned
    have hkw : k < w := (Nat.pow_lt_pow_iff_right Nat.one_lt_two).mp (hk ▸ blk.alignment.isLt)
    rw [hk]
    exact (hat blk hblk).dvd_iff hkw.le hdvd

theorem bump_run_aligned : (⟨⟨0x1008, 4⟩, 8⟩ : Block 64) ∈
      (bumpRun ⟨⟨0x1000, 64, 0, 0⟩, [], 0⟩ [.alloc 5, .alloc 4]).live ∧
    Promised (0x1000 : BitVec 64) 64
      (bumpRun ⟨⟨0x1000, 64, 0, 0⟩, [], 0⟩ [.alloc 5, .alloc 4]) :=
  ⟨by decide, (bump_run rfl [.alloc 5, .alloc 4]).1⟩

/-- A region at an odd address gives blocks at odd addresses. -/
theorem odd_region_unaligned : bumpInit (0x1001 : BitVec 64) 64 = some ⟨0x1001, 64, 0, 0⟩ ∧
    (⟨⟨0x1001, 4⟩, 8⟩ : Block 64) ∈ (bumpRun ⟨⟨0x1001, 64, 0, 0⟩, [], 0⟩ [.alloc 4]).live ∧
      ¬8 ∣ (0x1001 : BitVec 64).toNat := by decide

end Microgarbage.Memory
