import Microgarbage.Host.Loader

/-!
# What the loader does to the arena and the regions

One invariant for both passes over the segments: the ledger of the blocks it took, the region
table, and which bytes of memory it may have changed.
-/

namespace Microgarbage.Host

open Lib Vm Memory List

/-! ## Filling a block -/

/-- A fill writes `size` bytes from the block's start on, and what it writes there is given by
`content`. -/
structure Fills (fill : Mem → Nat → Mem) (size : Nat) (content : Mem → Nat → Byte) : Prop where
  inside : ∀ mem dst i, i < size → fill mem dst (dst + i) = content mem i
  outside : ∀ mem dst x, x < dst ∨ dst + size ≤ x → fill mem dst x = mem x

theorem fills_segment {src filesz memsz : Nat} (h : filesz ≤ memsz) :
    Fills (fillSegment src filesz memsz) memsz
      fun mem i => if i < filesz then mem (src + i) else 0 := by
  constructor
  · intro mem dst i hi
    unfold fillSegment
    by_cases hf : i < filesz
    · rw [if_pos hf, Mem.overlay_out (by omega), Mem.copy, Mem.length_bytes,
        Mem.overlay_in (by omega) (by omega), Nat.add_sub_cancel_left]
      simp [Mem.bytes, hf]
    · rw [if_neg hf, Mem.overlay_in (by omega) (by omega)]
  · intro mem dst x hx
    unfold fillSegment
    rw [Mem.overlay_out (by omega), Mem.copy, Mem.length_bytes, Mem.overlay_out (by omega)]

theorem fills_zero (n : Nat) :
    Fills (fun mem dst => mem.overlay dst n fun _ => 0) n fun _ _ => 0 := by
  constructor
  · intro mem dst i hi
    exact Mem.overlay_in (by omega) (by omega)
  · intro mem dst x hx
    exact Mem.overlay_out hx

/-- A region backed by a new block `q`. -/
structure Backed (s : LoadState) (live : List Nat) (region : RegionId) (n : Word) (w : Bool)
    (size : Nat) (content : Mem → Nat → Byte) (q : Nat) (s' : LoadState) : Prop where
  cpu : s'.cpu = (s.setRegion region ⟨q, n, w⟩).cpu
  fresh : q ∉ live
  shape : SameShape s.slab s'.slab
  inv : SlabInv s'.slab s'.mem (q :: live)
  free : ∀ x, q ≤ x → x < q + n.toNat → FreeByte s.slab live x
  held : ∀ x, q ≤ x → x < q + n.toNat → Held s'.slab (q :: live) x
  inside : ∀ i < size, ∃ mem, (∀ x, ¬Bookkeeping s.slab x → mem x = s.mem x) ∧
    s'.mem (q + i) = content mem i
  outside : ∀ x, ¬Bookkeeping s.slab x → x < q ∨ q + size ≤ x → s'.mem x = s.mem x

theorem toNat_size (n : Word) : (n.setWidth 64).toNat = n.toNat := by
  have := n.isLt
  rw [BitVec.toNat_setWidth]
  omega

theorem backRegion_spec {s : LoadState} {live : List Nat} (h : SlabInv s.slab s.mem live)
    (region : RegionId) {n : Word} (w : Bool) {fill : Mem → Nat → Mem} {size : Nat}
    {content : Mem → Nat → Byte} (hfill : Fills fill size content) (hsize : size ≤ n.toNat)
    (hfit : n.toNat + 8 ≤ 2 ^ 32) :
    ((backRegion s region n w fill).1 = .errOutOfRam ∧
      (backRegion s region n w fill).2.cpu = s.cpu ∧
      SameShape s.slab (backRegion s region n w fill).2.slab ∧
      SlabInv (backRegion s region n w fill).2.slab (backRegion s region n w fill).2.mem live ∧
      (backRegion s region n w fill).2.mem = s.mem) ∨
    ((backRegion s region n w fill).1 = .ok ∧
      ∃ q, Backed s live region n w size content q (backRegion s region n w fill).2) := by
  unfold backRegion
  dsimp only
  by_cases h0 : (slabAlloc s.slab s.mem (n.setWidth 64)).1 = 0
  · rw [if_pos h0]
    obtain ⟨hshape, hinv, hmem⟩ := slabAlloc_refused h h0
    exact .inl ⟨rfl, rfl, hshape, hinv, hmem⟩
  · rw [if_neg h0]
    have hg := slabAlloc_granted h (by rw [toNat_size]; exact hfit) h0
    rw [toNat_size] at hg
    generalize slabAlloc s.slab s.mem (n.setWidth 64) = r at *
    obtain ⟨q, a, mem⟩ := r
    refine .inr ⟨rfl, q, rfl, hg.fresh, hg.shape, ?_, hg.free, hg.held, fun i hi => ?_,
      fun x hx hout => ?_⟩
    · refine hg.inv.frame fun x hx => hfill.outside _ _ _ ?_
      by_contra hc
      exact (hg.held x (by omega) (by omega)).1 hx
    · exact ⟨mem, hg.keeps, hfill.inside _ _ _ hi⟩
    · exact (hfill.outside _ _ _ hout).trans (hg.keeps x hx)

/-! ## The checks -/

namespace Phdr

/-- In one of the two regions that guests cannot write. -/
def readOnly (ph : Phdr) : Bool := ph.region = regionCode ∨ ph.region = regionRodata

/-- A loadable header that passed the checks. -/
structure Valid (elfSize : Nat) (ph : Phdr) : Prop where
  file : 0 < ph.filesz.toNat → ph.offset.toNat + ph.filesz.toNat ≤ elfSize
  filesz_le : ph.filesz.toNat ≤ ph.memsz.toNat
  memsz_le : ph.vaddr.toNat % 0x40000000 + ph.memsz.toNat ≤ 0x40000000
  not_shared : ph.region ≠ regionShared
  readOnly : ph.readOnly = true → ph.memsz = ph.filesz ∧ 0 < ph.filesz.toNat

end Phdr

theorem passed {c : Prop} [Decidable c] {e r : VmLoadResult} (h : (if c then e else r) = .ok)
    (he : e ≠ .ok) : ¬c ∧ r = .ok := by
  split at h
  · exact absurd h he
  · next hc => exact ⟨hc, h⟩

theorem checkPhdr_valid {elfSize : Nat} {ph : Phdr} (h : checkPhdr elfSize ph = .ok)
    (hl : ph.loadable = true) : ph.Valid elfSize := by
  unfold Phdr.loadable at hl
  obtain ⟨htype, hne⟩ := of_decide_eq_true hl
  unfold checkPhdr at h
  rw [htype, if_neg (by decide), if_neg (by decide), if_neg (by decide), if_neg hne] at h
  obtain ⟨hfile, h⟩ := passed h nofun
  unfold validatePtLoad at h
  dsimp only at h
  obtain ⟨hshared, h⟩ := passed h nofun
  obtain ⟨hlarge, h⟩ := passed h nofun
  obtain ⟨hsz, h⟩ := passed h nofun
  rw [BitVec.lt_def] at hsz
  rw [not_or, BitVec.lt_def, BitVec.lt_def, toNat_mask30] at hlarge
  obtain ⟨hmem, hoff⟩ := hlarge
  have h30 : (0x40000000 : Word).toNat = 0x40000000 := rfl
  rw [BitVec.toNat_sub_of_le (by rw [BitVec.le_def]; omega), h30] at hoff
  rw [h30] at hmem
  refine ⟨fun hpos => ?_, by omega, by omega, hshared, fun hro => ?_⟩
  · by_contra hc
    exact hfile ⟨hpos, by omega⟩
  · have hro' := of_decide_eq_true hro
    unfold Phdr.region at hro'
    rw [if_pos hro'] at h
    obtain ⟨-, h⟩ := passed h nofun
    obtain ⟨hbss, -⟩ := passed h nofun
    rw [BitVec.lt_def] at hbss
    have heq : ph.memsz = ph.filesz := BitVec.eq_of_toNat_eq (by omega)
    refine ⟨heq, Nat.pos_of_ne_zero fun h0 => hne ?_⟩
    have hz : ph.filesz = 0 := BitVec.eq_of_toNat_eq h0
    exact ⟨hz, heq.trans hz⟩

theorem checkPhdrs_ok {elfSize : Nat} {l : List Phdr} (h : checkPhdrs elfSize l = .ok) :
    ∀ ph ∈ l, checkPhdr elfSize ph = .ok := by
  induction l with
  | nil => simp
  | cons ph l ih =>
    unfold checkPhdrs at h
    by_cases hph : checkPhdr elfSize ph = .ok
    · rw [if_pos hph] at h
      intro ph' hmem
      rcases mem_cons.mp hmem with rfl | hmem
      · exact hph
      · exact ih h ph' hmem
    · rw [if_neg hph] at h
      exact absurd h hph

/-! ## The invariant -/

def InImage (elf elfSize x : Nat) : Prop := elf ≤ x ∧ x < elf + elfSize

section Invariant

variable (cfg : VmLoaderConfig) (elf elfSize : Nat)

/-- Segments that get a block of the arena. -/
def ramBacked (ph : Phdr) : Bool := !ph.readOnly || cfg.backing ph.region = .copyRam

/-- How much of its region a segment makes accessible. -/
def regionLength (ph : Phdr) : Word := if ph.readOnly then ph.filesz else cfg.regionDataSize

theorem not_readOnly {ph : Phdr} (h : ph.region = regionData) : ph.readOnly = false := by
  unfold Phdr.readOnly
  rw [h]
  decide

theorem ramBacked_data {ph : Phdr} (h : ph.region = regionData) : ramBacked cfg ph = true := by
  unfold ramBacked
  rw [not_readOnly h]
  rfl

theorem regionLength_data {ph : Phdr} (h : ph.region = regionData) :
    regionLength cfg ph = cfg.regionDataSize := by
  unfold regionLength
  rw [not_readOnly h]
  rfl

/-- The region of a segment has its bytes, its zeroes, and above them what was there before. -/
structure Serves (mem₀ : Mem) (live : List Nat) (s : LoadState) (ph : Phdr) : Prop where
  length : (s.cpu.regions ph.region).length = regionLength cfg ph
  fits : ph.filesz.toNat ≤ ph.memsz.toNat ∧ ph.memsz.toNat ≤ (regionLength cfg ph).toNat
  held : ∀ x, InRegion (s.cpu.regions ph.region) x → Held s.slab live x
  file : ∀ i < ph.filesz.toNat,
    s.mem ((s.cpu.regions ph.region).base + i) = mem₀ (elf + ph.offset.toNat + i)
  zero : ∀ i, ph.filesz.toNat ≤ i → i < ph.memsz.toNat →
    s.mem ((s.cpu.regions ph.region).base + i) = 0
  tail : ∀ i, ph.memsz.toNat ≤ i → i < (regionLength cfg ph).toNat →
    s.mem ((s.cpu.regions ph.region).base + i) = mem₀ ((s.cpu.regions ph.region).base + i)

/-- The latest segment of a region. -/
def latest (done : List Phdr) (region : RegionId) : Option Phdr :=
  done.find? fun ph => ph.region = region

/-- The segments `done`, newest first, were applied to `s₀` with the clients' blocks `live`; the
ledger has the block that each got. -/
structure LoadInv (s₀ : LoadState) (live : List Nat) (done : List Phdr) (L : List (RegionId × Nat))
    (s : LoadState) : Prop where
  slab : SlabInv s.slab s.mem (L.map Prod.snd ++ live)
  shape : SameShape s₀.slab s.slab
  frozen : ∀ x, Held s₀.slab live x → s.mem x = s₀.mem x
  untouched : ∀ x, FreeByte s.slab (L.map Prod.snd ++ live) x → s.mem x = s₀.mem x
  ledger : L.map Prod.fst = (done.filter (ramBacked cfg)).map Phdr.region
  base : ∀ region, L.lookup region = some (s.cpu.regions region).base ∨
    L.lookup region = none ∧ ((s.cpu.regions region).base = 0 ∨
      ∃ k ≤ elfSize, (s.cpu.regions region).base = elf + k)
  served : ∀ region ph, latest done region = some ph →
    Serves cfg elf s₀.mem (L.map Prod.snd ++ live) s ph
  unserved : ∀ region, latest done region = none → s.cpu.regions region = s₀.cpu.regions region
  copied : ∀ region ph, latest done region = some ph → ramBacked cfg ph = true →
    ∀ x, InRegion (s.cpu.regions region) x → FreeByte s₀.slab live x
  apart : ∀ region region' ph ph', region ≠ region' → latest done region = some ph →
    latest done region' = some ph' → ramBacked cfg ph = true →
    ∀ x, InRegion (s.cpu.regions region) x → ¬InRegion (s.cpu.regions region') x
  inPlace : ∀ region ph, latest done region = some ph → ramBacked cfg ph = false →
    ∀ x, InRegion (s.cpu.regions region) x → InImage elf elfSize x
  rest : s.cpu = { s₀.cpu with regions := s.cpu.regions }

end Invariant

section Step

variable {cfg : VmLoaderConfig} {elf elfSize : Nat} {s₀ s s' : LoadState} {live : List Nat}
  {done : List Phdr} {L : List (RegionId × Nat)} {ph : Phdr}

theorem latest_cons (region : RegionId) :
    latest (ph :: done) region = if ph.region = region then some ph else latest done region := by
  unfold latest
  rw [List.find?_cons]
  by_cases h : ph.region = region
  · simp [h]
  · simp [h]

variable {region : RegionId}

theorem latest_region (h : latest done region = some ph) : ph.region = region := by
  simpa using List.find?_some h

theorem latest_mem (h : latest done region = some ph) : ph ∈ done :=
  mem_of_find?_eq_some h

theorem Backed.keeps {n : Word} {w : Bool} {size q : Nat} {content : Mem → Nat → Byte}
    (h : Backed s live region n w size content q s') (hsize : size ≤ n.toNat) {x : Nat}
    (hx : Held s.slab live x) : s'.mem x = s.mem x := by
  refine h.outside x hx.1 ?_
  by_contra hc
  obtain ⟨i, k, hk, hp, hlo, hhi⟩ := h.free x (by omega) (by omega)
  exact hp (hx.2 i k hk hlo hhi)

/-- What is free after a block was taken was free before, and is as it was. -/
theorem Backed.free_after {n : Word} {w : Bool} {size q : Nat} {content : Mem → Nat → Byte}
    (h : Backed s live region n w size content q s') (hs : Placed s.slab) (hsize : size ≤ n.toNat)
    {x : Nat} (hx : FreeByte s'.slab (q :: live) x) :
    FreeByte s.slab live x ∧ s'.mem x = s.mem x := by
  obtain ⟨hb, hheld⟩ := (freeByte_iff h.inv.placed).mp hx
  have hb' : ¬Bookkeeping s.slab x := fun hc => hb (h.shape.bookkeeping.mpr hc)
  refine ⟨(freeByte_iff hs).mpr ⟨hb', fun hc => hheld (hc.mono h.shape (subset_cons_self ..))⟩,
    h.outside x hb' ?_⟩
  by_contra hc
  exact hheld (h.held x (by omega) (by omega))

theorem Serves.frame {mem₀ : Mem} {live' : List Nat} (h : Serves cfg elf mem₀ live s ph)
    (hregion : s'.cpu.regions ph.region = s.cpu.regions ph.region) (hs : SameShape s.slab s'.slab)
    (hl : live ⊆ live') (hkeep : ∀ x, Held s.slab live x → s'.mem x = s.mem x) :
    Serves cfg elf mem₀ live' s' ph := by
  have hin : ∀ i < (regionLength cfg ph).toNat,
      s'.mem ((s.cpu.regions ph.region).base + i) = s.mem ((s.cpu.regions ph.region).base + i) := by
    intro i hi
    refine hkeep _ (h.held _ ⟨Nat.le_add_right .., ?_⟩)
    rw [h.length]
    omega
  have hfits := h.fits
  refine ⟨hregion ▸ h.length, h.fits, ?_, ?_, ?_, ?_⟩
  · rw [hregion]
    exact fun x hx => (h.held x hx).mono hs hl
  · intro i hi
    rw [hregion, hin i (by omega)]
    exact h.file i hi
  · intro i hlo hhi
    rw [hregion, hin i (by omega)]
    exact h.zero i hlo hhi
  · intro i hlo hhi
    rw [hregion, hin i hhi]
    exact h.tail i hlo hhi

theorem LoadInv.was_free (h : LoadInv cfg elf elfSize s₀ live done L s) {x : Nat}
    (hx : FreeByte s.slab (L.map Prod.snd ++ live) x) : FreeByte s₀.slab live x := by
  obtain ⟨i, k, hk, hp, hlo, hhi⟩ := hx
  rw [h.shape.count] at hk
  rw [h.shape.payload] at hp hlo hhi
  rw [h.shape.blockSize] at hhi
  exact ⟨i, k, hk, fun hc => hp (mem_append_right _ hc), hlo, hhi⟩

theorem LoadInv.placed (h : LoadInv cfg elf elfSize s₀ live done L s) : Placed s₀.slab :=
  h.shape.symm.placed h.slab.placed

theorem ramBacked_congr {ph' : Phdr} (h : ph'.region = ph.region) :
    ramBacked cfg ph' = ramBacked cfg ph := by
  unfold ramBacked Phdr.readOnly
  rw [h]

theorem LoadInv.rest_set (h : LoadInv cfg elf elfSize s₀ live done L s) (region : RegionId)
    (r : VmRegion) : (s.setRegion region r).cpu =
      { s₀.cpu with regions := (s.setRegion region r).cpu.regions } := by
  have hcongr := congrArg
    (fun c : VmCpu => { c with regions := Function.update s.cpu.regions region r }) h.rest
  exact hcongr

theorem LoadInv.lookup_none (h : LoadInv cfg elf elfSize s₀ live done L s)
    (hram : ramBacked cfg ph = false) : L.lookup ph.region = none := by
  rw [lookup_eq_none_iff]
  rintro ⟨region, q⟩ hmem
  have hfst : region ∈ L.map Prod.fst := mem_map_of_mem hmem
  rw [h.ledger] at hfst
  obtain ⟨ph', hph', hr⟩ := mem_map.mp hfst
  have htrue := (mem_filter.mp hph').2
  rw [bne_iff_ne]
  intro heq
  rw [ramBacked_congr (hr.trans heq.symm), hram] at htrue
  cases htrue

theorem LoadInv.setInPlace (h : LoadInv cfg elf elfSize s₀ live done L s)
    (himage : ∀ x, InImage elf elfSize x → Held s₀.slab live x) (hv : ph.Valid elfSize)
    (hro : ph.readOnly = true) (hram : ramBacked cfg ph = false) :
    LoadInv cfg elf elfSize s₀ live (ph :: done) L
      (s.setRegion ph.region ⟨elf + ph.offset.toNat, ph.filesz, false⟩) := by
  obtain ⟨hmemsz, hpos⟩ := hv.readOnly hro
  have hfile := hv.file hpos
  have hlen : regionLength cfg ph = ph.filesz := by
    unfold regionLength
    rw [if_pos hro]
  have hheld : ∀ x, InImage elf elfSize x → Held s.slab (L.map Prod.snd ++ live) x := fun x hx =>
    (himage x hx).mono h.shape (subset_append_right ..)
  have hold : ∀ region, region ≠ ph.region →
      (s.setRegion ph.region ⟨elf + ph.offset.toNat, ph.filesz, false⟩).cpu.regions region =
        s.cpu.regions region := fun region hne => Function.update_of_ne hne ..
  have hnew : (s.setRegion ph.region ⟨elf + ph.offset.toNat, ph.filesz, false⟩).cpu.regions
      ph.region = ⟨elf + ph.offset.toNat, ph.filesz, false⟩ := Function.update_self ..
  have hplaced := h.placed
  have hinside : ∀ x, InRegion ⟨elf + ph.offset.toNat, ph.filesz, false⟩ x →
      InImage elf elfSize x := by
    rintro x ⟨hlo, hhi⟩
    dsimp only at hlo hhi
    exact ⟨by omega, by omega⟩
  refine ⟨h.slab, h.shape, h.frozen, h.untouched, ?_, fun region => ?_, fun region ph' hl => ?_,
    fun region hl => ?_, fun region ph' hl hram' => ?_,
    fun region region' ph₁ ph₂ hne hl hl' hram' => ?_, fun region ph' hl hram' => ?_, ?_⟩
  · rw [h.ledger, filter_cons_of_neg (by simp [hram])]
  · by_cases hr : region = ph.region
    · rw [hr, hnew]
      exact .inr ⟨h.lookup_none hram, .inr ⟨_, by omega, rfl⟩⟩
    · rw [hold region hr]
      exact h.base region
  · rw [latest_cons] at hl
    split at hl
    · next hr =>
      obtain rfl := Option.some.inj hl
      refine ⟨?_, ?_, ?_, ?_, ?_, ?_⟩
      · rw [hnew, hlen]
      · rw [hlen, hmemsz]
        exact ⟨Nat.le_refl _, Nat.le_refl _⟩
      · rw [hnew]
        exact fun x hx => hheld x (hinside x hx)
      · intro i hi
        rw [hnew]
        exact h.frozen (elf + ph.offset.toNat + i) (himage _ ⟨by omega, by omega⟩)
      · intro i hlo hhi
        rw [hmemsz] at hhi
        omega
      · intro i hlo hhi
        rw [hlen] at hhi
        rw [hmemsz] at hlo
        omega
    · next hr =>
      have hreg := latest_region hl
      exact (h.served region ph' hl).frame (hold _ fun e => hr (e.symm.trans hreg)) (.refl _)
        (List.Subset.refl _) fun _ _ => rfl
  · rw [latest_cons] at hl
    split at hl
    · cases hl
    · next hr =>
      rw [hold region fun e => hr e.symm]
      exact h.unserved region hl
  · rw [latest_cons] at hl
    split at hl
    · rw [← Option.some.inj hl, hram] at hram'
      cases hram'
    · next hr =>
      rw [hold region fun e => hr e.symm]
      exact h.copied region ph' hl hram'
  · rw [latest_cons] at hl hl'
    split at hl
    · rw [← Option.some.inj hl, hram] at hram'
      cases hram'
    · next hr =>
      rw [hold region fun e => hr e.symm]
      split at hl'
      · next hr' =>
        rw [← hr', hnew]
        exact fun x hx hx' => ((freeByte_iff hplaced).mp (h.copied region ph₁ hl hram' x hx)).2
          (himage x (hinside x hx'))
      · next hr' =>
        rw [hold region' fun e => hr' e.symm]
        exact h.apart region region' ph₁ ph₂ hne hl hl' hram'
  · rw [latest_cons] at hl
    split at hl
    · next hr =>
      rw [← hr, hnew]
      exact hinside
    · next hr =>
      rw [hold region fun e => hr e.symm]
      exact h.inPlace region ph' hl hram'
  · exact h.rest_set _ _

/-- What a segment's block is filled with. -/
def segmentContent (elf : Nat) (ph : Phdr) (mem : Mem) (i : Nat) : Byte :=
  if i < ph.filesz.toNat then mem (elf + ph.offset.toNat + i) else 0

theorem LoadInv.setBlock (h : LoadInv cfg elf elfSize s₀ live done L s)
    (himage : ∀ x, InImage elf elfSize x → Held s₀.slab live x)
    (hfile : ∀ i < ph.filesz.toNat, InImage elf elfSize (elf + ph.offset.toNat + i))
    (hle : ph.filesz.toNat ≤ ph.memsz.toNat) (hram : ramBacked cfg ph = true) {w : Bool} {q : Nat}
    (hfits : ph.memsz.toNat ≤ (regionLength cfg ph).toNat)
    (hb : Backed s (L.map Prod.snd ++ live) ph.region (regionLength cfg ph) w ph.memsz.toNat
      (segmentContent elf ph) q s') :
    LoadInv cfg elf elfSize s₀ live (ph :: done) ((ph.region, q) :: L) s' := by
  have hnew : s'.cpu.regions ph.region = ⟨q, regionLength cfg ph, w⟩ := by
    rw [hb.cpu]
    exact Function.update_self ..
  have hold : ∀ region, region ≠ ph.region →
      s'.cpu.regions region = s.cpu.regions region := fun region hne => by
    rw [hb.cpu]
    exact Function.update_of_ne hne ..
  have hsub : live ⊆ L.map Prod.snd ++ live := subset_append_right ..
  have hnotheld : ∀ x, InRegion ⟨q, regionLength cfg ph, w⟩ x →
      ¬Held s.slab (L.map Prod.snd ++ live) x := by
    rintro x ⟨hlo, hhi⟩
    exact ((freeByte_iff h.slab.placed).mp (hb.free x hlo hhi)).2
  refine ⟨hb.inv, h.shape.trans hb.shape, fun x hx => ?_, fun x hx => ?_, ?_, fun region => ?_,
    fun region ph' hl => ?_, fun region hl => ?_, fun region ph' hl hram' => ?_,
    fun region region' ph₁ ph₂ hne hl hl' hram' => ?_, fun region ph' hl hram' => ?_, ?_⟩
  · rw [hb.keeps hfits (hx.mono h.shape hsub), h.frozen x hx]
  · obtain ⟨hfree, hsame⟩ := hb.free_after h.slab.placed hfits hx
    rw [hsame, h.untouched x hfree]
  · rw [map_cons, h.ledger, filter_cons_of_pos hram, map_cons]
  · by_cases hr : region = ph.region
    · left
      rw [hr, hnew, lookup_cons_self]
    · rw [hold region hr, lookup_cons, beq_eq_false_iff_ne.mpr hr]
      exact h.base region
  · rw [latest_cons] at hl
    split at hl
    · obtain rfl := Option.some.inj hl
      refine ⟨by rw [hnew], ⟨hle, hfits⟩, ?_, fun i hi => ?_, fun i hlo hhi => ?_,
        fun i hlo hhi => ?_⟩
      · rw [hnew]
        rintro x ⟨hlo, hhi⟩
        exact hb.held x hlo hhi
      · rw [hnew]
        obtain ⟨mem, hmem, hval⟩ := hb.inside i (by omega)
        have hx := himage _ (hfile i hi)
        rw [hval, segmentContent, if_pos hi, hmem _ (hx.mono h.shape hsub).1, h.frozen _ hx]
      · rw [hnew]
        obtain ⟨mem, -, hval⟩ := hb.inside i hhi
        rw [hval, segmentContent, if_neg (by omega)]
      · rw [hnew]
        have hfree := hb.free (q + i) (by omega) (by omega)
        rw [hb.outside _ ((freeByte_iff h.slab.placed).mp hfree).1 (by omega),
          h.untouched _ hfree]
    · next hr =>
      have hreg := latest_region hl
      exact (h.served region ph' hl).frame (hold _ fun e => hr (e.symm.trans hreg)) hb.shape
        (subset_cons_self ..) fun x hx => hb.keeps hfits hx
  · rw [latest_cons] at hl
    split at hl
    · cases hl
    · next hr =>
      rw [hold region fun e => hr e.symm]
      exact h.unserved region hl
  · rw [latest_cons] at hl
    split at hl
    · next hr =>
      rw [← hr, hnew]
      exact fun x hx => h.was_free (hb.free x hx.1 hx.2)
    · next hr =>
      rw [hold region fun e => hr e.symm]
      exact h.copied region ph' hl hram'
  · rw [latest_cons] at hl hl'
    split at hl
    · next hr =>
      have hr' : region' ≠ ph.region := fun e => hne (hr.symm.trans e.symm)
      rw [if_neg hr'.symm] at hl'
      have hserved := h.served region' ph₂ hl'
      rw [← hr, hnew, hold region' hr']
      exact fun x hx hx' => hnotheld x hx (hserved.held x (by rw [latest_region hl']; exact hx'))
    · next hr =>
      rw [hold region fun e => hr e.symm]
      split at hl'
      · next hr' =>
        have hserved := h.served region ph₁ hl
        rw [← hr', hnew]
        exact fun x hx hx' =>
          hnotheld x hx' (hserved.held x (by rw [latest_region hl]; exact hx))
      · next hr' =>
        rw [hold region' fun e => hr' e.symm]
        exact h.apart region region' ph₁ ph₂ hne hl hl' hram'
  · rw [latest_cons] at hl
    split at hl
    · rw [← Option.some.inj hl, hram] at hram'
      cases hram'
    · next hr =>
      rw [hold region fun e => hr e.symm]
      exact h.inPlace region ph' hl hram'
  · rw [hb.cpu]
    exact h.rest_set _ _

theorem LoadInv.refused (h : LoadInv cfg elf elfSize s₀ live done L s) (hcpu : s'.cpu = s.cpu)
    (hs : SameShape s.slab s'.slab) (hinv : SlabInv s'.slab s'.mem (L.map Prod.snd ++ live))
    (hmem : s'.mem = s.mem) : LoadInv cfg elf elfSize s₀ live done L s' := by
  refine ⟨hinv, h.shape.trans hs, hmem ▸ h.frozen, fun x hx => ?_, h.ledger, hcpu ▸ h.base,
    fun region ph' hl => ?_, hcpu ▸ h.unserved, hcpu ▸ h.copied, hcpu ▸ h.apart,
    hcpu ▸ h.inPlace, hcpu ▸ h.rest⟩
  · rw [hmem]
    refine h.untouched x ((freeByte_iff h.slab.placed).mpr ?_)
    obtain ⟨hb, hx'⟩ := (freeByte_iff hinv.placed).mp hx
    exact ⟨fun hc => hb (hs.bookkeeping.mpr hc), fun hc => hx' (hc.mono hs (List.Subset.refl _))⟩
  · exact (h.served region ph' hl).frame (by rw [hcpu]) hs (List.Subset.refl _) fun _ _ => by
      rw [hmem]

theorem fills_ptLoad (elf : Nat) (ph : Phdr) {memsz : Nat} (h : ph.filesz.toNat ≤ memsz) :
    Fills (fillSegment (elf + ph.offset.toNat) ph.filesz.toNat memsz) memsz
      (segmentContent elf ph) :=
  fills_segment h

theorem LoadInv.backRegion (ph : Phdr) (h : LoadInv cfg elf elfSize s₀ live done L s)
    (himage : ∀ x, InImage elf elfSize x → Held s₀.slab live x)
    (hfile : ∀ i < ph.filesz.toNat, InImage elf elfSize (elf + ph.offset.toNat + i))
    (hle : ph.filesz.toNat ≤ ph.memsz.toNat) (hram : ramBacked cfg ph = true) (w : Bool)
    {fill : Mem → Nat → Mem} (hfill : Fills fill ph.memsz.toNat (segmentContent elf ph))
    (hfits : ph.memsz.toNat ≤ (regionLength cfg ph).toNat)
    (hsize : (regionLength cfg ph).toNat + 8 ≤ 2 ^ 32) :
    ((backRegion s ph.region (regionLength cfg ph) w fill).1 = .ok ∧
      ∃ q, LoadInv cfg elf elfSize s₀ live (ph :: done) ((ph.region, q) :: L)
        (backRegion s ph.region (regionLength cfg ph) w fill).2) ∨
    ((backRegion s ph.region (regionLength cfg ph) w fill).1 ≠ .ok ∧
      LoadInv cfg elf elfSize s₀ live done L
        (backRegion s ph.region (regionLength cfg ph) w fill).2) := by
  rcases backRegion_spec h.slab ph.region w hfill hfits hsize with
    ⟨herr, hcpu, hshape, hinv, hmem⟩ | ⟨hok, q, hb⟩
  · refine .inr ⟨?_, h.refused hcpu hshape hinv hmem⟩
    rw [herr]
    exact nofun
  · exact .inl ⟨hok, q, h.setBlock himage hfile hle hram hfits hb⟩

theorem applyPtLoad_spec (h : LoadInv cfg elf elfSize s₀ live done L s)
    (himage : ∀ x, InImage elf elfSize x → Held s₀.slab live x) (hv : ph.Valid elfSize)
    (hsize : cfg.regionDataSize.toNat + 8 ≤ 2 ^ 32) :
    ((applyPtLoad cfg elf ph s).1 = .ok ∧
      ∃ L', LoadInv cfg elf elfSize s₀ live (ph :: done) L' (applyPtLoad cfg elf ph s).2) ∨
    ((applyPtLoad cfg elf ph s).1 ≠ .ok ∧
      LoadInv cfg elf elfSize s₀ live done L (applyPtLoad cfg elf ph s).2) := by
  have hfile : ∀ i < ph.filesz.toNat, InImage elf elfSize (elf + ph.offset.toNat + i) := by
    intro i hi
    have hend := hv.file (by omega)
    exact ⟨by omega, by omega⟩
  have hmemsz := hv.memsz_le
  unfold applyPtLoad
  dsimp only
  by_cases hro : ph.readOnly = true
  · have hlen : regionLength cfg ph = ph.filesz := by
      unfold regionLength
      rw [if_pos hro]
    have heq := (hv.readOnly hro).1
    rw [if_pos (of_decide_eq_true hro)]
    cases hmode : cfg.backing ph.region with
    | xip =>
      dsimp only
      have hram : ramBacked cfg ph = false := by
        unfold ramBacked
        rw [hro, hmode]
        rfl
      split
      · exact .inr ⟨nofun, h⟩
      · exact .inl ⟨rfl, L, h.setInPlace himage hv hro hram⟩
    | copyRam =>
      dsimp only
      have hram : ramBacked cfg ph = true := by
        unfold ramBacked
        rw [hmode]
        simp
      rw [← heq] at hlen
      have hfill := fills_ptLoad elf ph hv.filesz_le
      have hback := h.backRegion ph himage hfile hv.filesz_le hram false hfill (by rw [hlen])
        (by rw [hlen]; omega)
      rw [hlen, heq] at hback
      rcases hback with ⟨hok, q, hinv⟩ | hfail
      · exact .inl ⟨hok, _, hinv⟩
      · exact .inr hfail
  · have hlen : regionLength cfg ph = cfg.regionDataSize := by
      unfold regionLength
      rw [if_neg hro]
    rw [if_neg fun hc => hro (decide_eq_true hc)]
    split
    · exact .inr ⟨nofun, h⟩
    next hsmall =>
      rw [BitVec.lt_def] at hsmall
      have hram : ramBacked cfg ph = true := by
        unfold ramBacked
        rw [Bool.eq_false_iff.mpr hro]
        rfl
      have hback := h.backRegion ph himage hfile hv.filesz_le hram true
        (fills_ptLoad elf ph hv.filesz_le) (by rw [hlen]; omega) (by rw [hlen]; exact hsize)
      rw [hlen] at hback
      rcases hback with ⟨hok, q, hinv⟩ | hfail
      · exact .inl ⟨hok, _, hinv⟩
      · exact .inr hfail

/-! ## The second pass -/

theorem readPhdr_congr {mem mem' : Mem} (h : ∀ x, InImage elf elfSize x → mem' x = mem x)
    {phoff : Word} {i : Nat} (hi : phoff.toNat + i * elf32PhdrSize + elf32PhdrSize ≤ elfSize) :
    readPhdr mem' elf phoff i = readPhdr mem elf phoff i := by
  unfold elf32PhdrSize at hi
  have hword : ∀ k, k + 4 ≤ 32 → mem'.load32 (elf + phoff.toNat + i * 32 + k) =
      mem.load32 (elf + phoff.toNat + i * 32 + k) := fun k hk =>
    Mem.load32_congr fun j hj => h _ ⟨by omega, by omega⟩
  unfold readPhdr elf32PhdrSize
  dsimp only
  rw [show mem'.load32 (elf + phoff.toNat + i * 32) = _ from hword 0 (by omega),
    hword 4 (by omega), hword 8 (by omega), hword 16 (by omega), hword 20 (by omega),
    hword 24 (by omega)]
  rfl

theorem LoadInv.readPhdr (h : LoadInv cfg elf elfSize s₀ live done L s)
    (himage : ∀ x, InImage elf elfSize x → Held s₀.slab live x) {phoff : Word} {i : Nat}
    (hi : phoff.toNat + i * elf32PhdrSize + elf32PhdrSize ≤ elfSize) :
    readPhdr s.mem elf phoff i = readPhdr s₀.mem elf phoff i :=
  readPhdr_congr (fun x hx => h.frozen x (himage x hx)) hi

theorem applyPhdrs_spec (phoff : Word) (is : List Nat)
    (himage : ∀ x, InImage elf elfSize x → Held s₀.slab live x)
    (hsize : cfg.regionDataSize.toNat + 8 ≤ 2 ^ 32)
    (hin : ∀ i ∈ is, phoff.toNat + i * elf32PhdrSize + elf32PhdrSize ≤ elfSize)
    (hv : ∀ i ∈ is, (readPhdr s₀.mem elf phoff i).loadable = true →
      (readPhdr s₀.mem elf phoff i).Valid elfSize)
    (h : LoadInv cfg elf elfSize s₀ live done L s) :
    ((applyPhdrs cfg elf phoff is s).1 = .ok ∧
      ∃ L', LoadInv cfg elf elfSize s₀ live
        (((is.map (readPhdr s₀.mem elf phoff)).filter Phdr.loadable).reverse ++ done) L'
        (applyPhdrs cfg elf phoff is s).2) ∨
    ((applyPhdrs cfg elf phoff is s).1 ≠ .ok ∧
      ∃ done' L', LoadInv cfg elf elfSize s₀ live done' L' (applyPhdrs cfg elf phoff is s).2) := by
  induction is generalizing done L s with
  | nil => exact .inl ⟨rfl, L, h⟩
  | cons i is ih =>
    have hhead := h.readPhdr himage (hin i (mem_cons_self ..))
    have hin' := fun j hj => hin j (mem_cons_of_mem i hj)
    have hv' := fun j hj => hv j (mem_cons_of_mem i hj)
    unfold applyPhdrs
    dsimp only
    rw [hhead, map_cons]
    by_cases hl : (Host.readPhdr s₀.mem elf phoff i).loadable = true
    · rw [if_pos hl, filter_cons_of_pos hl, reverse_cons, append_assoc]
      rcases applyPtLoad_spec h himage (hv i (mem_cons_self ..) hl) hsize with
        ⟨hok, L', hinv⟩ | ⟨herr, hinv⟩
      · rw [if_pos hok]
        exact ih hin' hv' hinv
      · rw [if_neg herr]
        exact .inr ⟨herr, _, _, hinv⟩
    · rw [if_neg hl, filter_cons_of_neg hl]
      exact ih hin' hv' h

end Step

/-! ## The whole load -/

/-- The segments of an image, in file order. -/
def segments (mem : Mem) (elf : Nat) : List Phdr := (phdrs mem elf).filter Phdr.loadable

/-- What an image without a data segment gets: zeroes all over. -/
def stackSegment (cfg : VmLoaderConfig) : Phdr := ⟨ptLoad, 0, 0x80000000, 0, cfg.regionDataSize, 0⟩

theorem stackSegment_region (cfg : VmLoaderConfig) : (stackSegment cfg).region = regionData :=
  (by decide : vaddrToRegion 0x80000000 = regionData)

/-- The segments of an image and the region for the stack, latest first. -/
def applied (cfg : VmLoaderConfig) (mem : Mem) (elf : Nat) : List Phdr :=
  if latest (segments mem elf).reverse regionData = none then
    stackSegment cfg :: (segments mem elf).reverse
  else (segments mem elf).reverse

section Load

variable {cfg : VmLoaderConfig} {elf elfSize : Nat} {s : LoadState} {live : List Nat}

/-- A CPU as `vm_init` leaves it has no regions. -/
def FreshCpu (cpu : VmCpu) : Prop := ∀ region, cpu.regions region = .absent

theorem LoadInv.start (cfg : VmLoaderConfig) (elf elfSize : Nat)
    (h : SlabInv s.slab s.mem live) (hcpu : FreshCpu s.cpu) :
    LoadInv cfg elf elfSize s live [] [] s where
  slab := h
  shape := .refl _
  frozen _ _ := rfl
  untouched _ _ := rfl
  ledger := rfl
  base region := .inr ⟨rfl, .inl (by rw [hcpu]; rfl)⟩
  served _ _ hl := by cases hl
  unserved _ _ := rfl
  copied _ _ hl := by cases hl
  apart _ _ _ _ _ hl := by cases hl
  inPlace _ _ hl := by cases hl
  rest := rfl

theorem checkEhdr_ok {mem : Mem} (h : checkEhdr mem elf elfSize = .ok) :
    (ePhoff mem elf).toNat + (ePhnum mem elf).toNat * elf32PhdrSize ≤ elfSize := by
  unfold checkEhdr at h
  iterate 12 replace h := (passed h nofun).2
  exact Nat.not_lt.mp (passed h nofun).1

theorem segments_valid {mem : Mem} (h : checkPhdrs elfSize (phdrs mem elf) = .ok) :
    ∀ ph ∈ segments mem elf, ph.Valid elfSize := by
  intro ph hph
  obtain ⟨hmem, hl⟩ := mem_filter.mp hph
  exact checkPhdr_valid (checkPhdrs_ok h ph hmem) hl

theorem applyPhdrs_start (cfg : VmLoaderConfig) (h : SlabInv s.slab s.mem live) (hcpu : FreshCpu s.cpu)
    (himage : ∀ x, InImage elf elfSize x → Held s.slab live x)
    (hsize : cfg.regionDataSize.toNat + 8 ≤ 2 ^ 32) (hehdr : checkEhdr s.mem elf elfSize = .ok)
    (hphdrs : checkPhdrs elfSize (phdrs s.mem elf) = .ok) {r : VmLoadResult × LoadState}
    (hr : r = applyPhdrs cfg elf (ePhoff s.mem elf) (List.range (ePhnum s.mem elf).toNat) s) :
    (r.1 = .ok ∧ ∃ L, LoadInv cfg elf elfSize s live (segments s.mem elf).reverse L r.2) ∨
    (r.1 ≠ .ok ∧ ∃ done L, LoadInv cfg elf elfSize s live done L r.2) := by
  have hend := checkEhdr_ok hehdr
  rw [hr]
  have hspec := applyPhdrs_spec (ePhoff s.mem elf)
    (List.range (ePhnum s.mem elf).toNat) himage hsize (fun i hi => ?_) (fun i hi hl => ?_)
    (LoadInv.start cfg elf elfSize h hcpu)
  · rw [append_nil] at hspec
    exact hspec
  · have hlt := mem_range.mp hi
    unfold elf32PhdrSize at hend ⊢
    omega
  · refine segments_valid hphdrs _ (mem_filter.mpr ⟨?_, hl⟩)
    exact mem_map_of_mem hi

theorem ensureData_spec {s' : LoadState} {L : List (RegionId × Nat)} (hcpu : FreshCpu s.cpu)
    (himage : ∀ x, InImage elf elfSize x → Held s.slab live x)
    (hne : cfg.regionDataSize ≠ 0) (hsize : cfg.regionDataSize.toNat + 8 ≤ 2 ^ 32)
    (h : LoadInv cfg elf elfSize s live (segments s.mem elf).reverse L s') :
    ((ensureData cfg s').1 = .ok ∧
      ∃ L', LoadInv cfg elf elfSize s live (applied cfg s.mem elf) L' (ensureData cfg s').2) ∨
    ((ensureData cfg s').1 ≠ .ok ∧
      ∃ done L', LoadInv cfg elf elfSize s live done L' (ensureData cfg s').2) := by
  have hregion := stackSegment_region cfg
  have hlen := regionLength_data cfg hregion
  have hram := ramBacked_data cfg hregion
  have hcontent : segmentContent elf (stackSegment cfg) = fun _ _ => 0 := rfl
  unfold ensureData applied
  cases hlast : latest (segments s.mem elf).reverse regionData with
  | none =>
    have hzero : (s'.cpu.regions regionData).length = 0 := by
      rw [h.unserved _ hlast, hcpu]
      rfl
    rw [if_pos hzero, if_pos rfl]
    have hfill := fills_zero cfg.regionDataSize.toNat
    rw [← hcontent] at hfill
    have hback := h.backRegion (stackSegment cfg) himage
      (fun i hi => absurd hi (Nat.not_lt_zero i)) (Nat.zero_le _) hram true hfill
      (by rw [hlen]; exact Nat.le_refl _) (by rw [hlen]; exact hsize)
    rw [hlen, hregion] at hback
    rcases hback with ⟨hok, q, hinv⟩ | ⟨herr, hinv⟩
    · exact .inl ⟨hok, _, hinv⟩
    · exact .inr ⟨herr, _, _, hinv⟩
  | some ph =>
    have hserved := h.served _ ph hlast
    have hlength := hserved.length
    rw [regionLength_data cfg (latest_region hlast), latest_region hlast] at hlength
    rw [if_neg (by rw [hlength]; exact hne), if_neg (by simp)]
    exact .inl ⟨rfl, L, h⟩

theorem vmLoad_spec (cfg : VmLoaderConfig) (h : SlabInv s.slab s.mem live) (hcpu : FreshCpu s.cpu)
    (himage : ∀ x, InImage elf elfSize x → Held s.slab live x)
    (hsize : cfg.regionDataSize.toNat + 8 ≤ 2 ^ 32) :
    ((vmLoad cfg elf elfSize s).1 = .ok ∧ checkEhdr s.mem elf elfSize = .ok ∧
      checkPhdrs elfSize (phdrs s.mem elf) = .ok ∧
      ∃ L s', LoadInv cfg elf elfSize s live (applied cfg s.mem elf) L s' ∧
        (vmLoad cfg elf elfSize s).2 =
          { s' with cpu := finishLoad cfg (eEntry s.mem elf) s'.cpu }) ∨
    ((vmLoad cfg elf elfSize s).1 ≠ .ok ∧
      ∃ done L, LoadInv cfg elf elfSize s live done L (vmLoad cfg elf elfSize s).2) := by
  have hstart := LoadInv.start cfg elf elfSize h hcpu
  unfold vmLoad
  by_cases harg : elf = 0 ∨ cfg.regionDataSize = 0
  · rw [if_pos harg]
    exact .inr ⟨nofun, _, _, hstart⟩
  rw [if_neg harg]
  by_cases hehdr : checkEhdr s.mem elf elfSize = .ok
  · rw [if_neg (not_not_intro hehdr)]
    by_cases hphdrs : checkPhdrs elfSize (phdrs s.mem elf) = .ok
    · rw [if_neg (not_not_intro hphdrs)]
      have happly := applyPhdrs_start cfg h hcpu himage hsize hehdr hphdrs rfl
      dsimp only
      generalize applyPhdrs cfg elf (ePhoff s.mem elf) (List.range (ePhnum s.mem elf).toNat) s = r
        at happly ⊢
      rcases happly with ⟨hok, L, hinv⟩ | ⟨herr, done, L, hinv⟩
      · rw [if_neg (not_not_intro hok)]
        rcases ensureData_spec hcpu himage (fun e => harg (.inr e)) hsize hinv with
          ⟨hok', L', hinv'⟩ | ⟨herr, done, L', hinv'⟩
        · rw [if_neg (not_not_intro hok')]
          exact .inl ⟨rfl, hehdr, hphdrs, L', _, hinv', rfl⟩
        · rw [if_pos herr]
          exact .inr ⟨herr, done, L', hinv'⟩
      · rw [if_pos herr]
        exact .inr ⟨herr, done, L, hinv⟩
    · rw [if_pos hphdrs]
      exact .inr ⟨hphdrs, _, _, hstart⟩
  · rw [if_pos hehdr]
    exact .inr ⟨hehdr, _, _, hstart⟩

end Load

end Microgarbage.Host
