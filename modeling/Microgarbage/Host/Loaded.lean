import Microgarbage.Host.LoaderSpec
import Microgarbage.Memory.SlabRun
import Microgarbage.Lib.Align

/-!
# The loaded guest

What the loader's invariant says at the guest's addresses, through the interpreter's own
translation.
-/

namespace Microgarbage.Host

open Lib Vm Memory

/-- A byte load at this address gives this byte. -/
def GuestReads (cpu : VmCpu) (mem : Mem) (addr : Word) (b : Byte) : Prop :=
  ∃ p, xlatRead cpu addr 1 .loadFault = .ok p ∧ mem p = b

/-! ## Private addresses -/

theorem toNat_region (a : Word) : (vaddrToRegion a).toNat = a.toNat / 0x40000000 := by
  have hlt := a.isLt
  unfold vaddrToRegion
  rw [BitVec.toNat_setWidth, toNat_top]
  omega

theorem private_iff (a : Word) : vaddrToRegion a ≠ regionShared ↔ a.toNat < 0xC0000000 := by
  have hlt := a.isLt
  have hr := toNat_region a
  have h3 : regionShared.toNat = 3 := rfl
  rw [ne_eq, ← BitVec.toNat_inj, hr, h3]
  omega

theorem regionAt_private {cpu : VmCpu} {a : Word} (h : a.toNat < 0xC0000000) :
    regionAt cpu a = cpu.regions (vaddrToRegion a) := by
  have hpick : (xlatPick cpu a).1 = regionAt cpu a := (xlatPick_private h).1
  rw [← hpick]
  have htop : a >>> 30 ≠ 3#32 := by
    intro e
    have := congrArg BitVec.toNat e
    rw [toNat_top] at this
    simp at this
    omega
  unfold xlatPick
  simp only [htop, ↓reduceIte]
  rfl

/-- A guest reads a private address through the region of its top bits. -/
theorem guestReads_private {cpu : VmCpu} {mem : Mem} {a : Word} (h : a.toNat < 0xC0000000)
    (b : Byte) :
    GuestReads cpu mem a b ↔
      a.toNat % 0x40000000 < (cpu.regions (vaddrToRegion a)).length.toNat ∧
        mem ((cpu.regions (vaddrToRegion a)).base + a.toNat % 0x40000000) = b := by
  have h1 : (1 : Word).toNat = 1 := rfl
  have hoff : offsetAt a = a.toNat % 0x40000000 := if_pos h
  have hmapped : Mapped cpu a 1 ↔
      a.toNat % 0x40000000 < (cpu.regions (vaddrToRegion a)).length.toNat := by
    unfold Mapped
    rw [regionAt_private h, hoff]
    exact Iff.rfl
  have hhost : hostAddr cpu a =
      (cpu.regions (vaddrToRegion a)).base + a.toNat % 0x40000000 := by
    unfold hostAddr
    rw [regionAt_private h, hoff]
  unfold GuestReads
  rw [xlatRead_eq cpu a 1 .loadFault (by decide), h1, ← hmapped, ← hhost]
  by_cases hm : Mapped cpu a 1
  · rw [if_pos hm]
    constructor
    · rintro ⟨p, hp, hb⟩
      cases hp
      exact ⟨hm, hb⟩
    · rintro ⟨-, hb⟩
      exact ⟨_, rfl, hb⟩
  · rw [if_neg hm]
    constructor
    · rintro ⟨p, hp, -⟩
      cases hp
    · rintro ⟨hm', -⟩
      exact absurd hm' hm

theorem guestReads_segment (cpu : VmCpu) (mem : Mem) {ph : Phdr} {i : Nat}
    (hbase : ph.vaddr.toNat % 0x40000000 = 0) (hshared : ph.region ≠ regionShared)
    (hi : i < 0x40000000) (hlen : i < (cpu.regions ph.region).length.toNat) :
    GuestReads cpu mem (ph.vaddr + BitVec.ofNat 32 i)
      (mem ((cpu.regions ph.region).base + i)) := by
  have hprivate := (private_iff ph.vaddr).mp hshared
  have hsum : (ph.vaddr + BitVec.ofNat 32 i).toNat = ph.vaddr.toNat + i := by
    rw [BitVec.toNat_add, BitVec.toNat_ofNat]
    omega
  have hregion : vaddrToRegion (ph.vaddr + BitVec.ofNat 32 i) = ph.region := by
    refine BitVec.eq_of_toNat_eq ?_
    unfold Phdr.region
    rw [toNat_region, toNat_region, hsum]
    omega
  have hmod : (ph.vaddr.toNat + i) % 0x40000000 = i := by omega
  rw [guestReads_private (by omega), hregion, hsum, hmod]
  exact ⟨hlen, rfl⟩

/-! ## The contents -/

/-- Segments start at the base of their regions, and no two share one. -/
structure WellPlaced (mem : Mem) (elf : Nat) : Prop where
  base : ∀ ph ∈ segments mem elf, ph.vaddr.toNat % 0x40000000 = 0
  nodup : ((segments mem elf).map Phdr.region).Nodup

/-- The guest finds the image that was in `mem₀`. -/
structure LoadedImage (cfg : VmLoaderConfig) (mem₀ : Mem) (elf : Nat) (s : LoadState) : Prop where
  file : ∀ ph ∈ segments mem₀ elf, ∀ i < ph.filesz.toNat,
    GuestReads s.cpu s.mem (ph.vaddr + BitVec.ofNat 32 i) (mem₀ (elf + ph.offset.toNat + i))
  zero : ∀ ph ∈ segments mem₀ elf, ∀ i, ph.filesz.toNat ≤ i → i < ph.memsz.toNat →
    GuestReads s.cpu s.mem (ph.vaddr + BitVec.ofNat 32 i) 0
  /-- What was copied is not in the way of any other segment. -/
  apart : ∀ ph ∈ segments mem₀ elf, ∀ ph' ∈ segments mem₀ elf, ph ≠ ph' →
    ramBacked cfg ph = true → ∀ x, InRegion (s.cpu.regions ph.region) x →
    ¬InRegion (s.cpu.regions ph'.region) x
  pc : s.cpu.pc = eEntry mem₀ elf
  /-- The stack pointer is the last multiple of 8 up to the end of the data region. -/
  sp : (s.cpu.regs regSp).toNat % 8 = 0 ∧
    (s.cpu.regs regSp).toNat ≤ 0x80000000 + (s.cpu.regions regionData).length.toNat ∧
    0x80000000 + (s.cpu.regions regionData).length.toNat < (s.cpu.regs regSp).toNat + 8

variable (cfg : VmLoaderConfig)

theorem finishLoad_private (entry : Word) (cpu : VmCpu) {region : RegionId}
    (h : region ≠ regionShared) : (finishLoad cfg entry cpu).regions region = cpu.regions region :=
  Function.update_of_ne h ..

theorem finishLoad_sp (entry : Word) (cpu : VmCpu) :
    (finishLoad cfg entry cpu).regs regSp = (0x80000000 + cfg.regionDataSize) &&& ~~~7 := by
  unfold finishLoad
  dsimp only
  rw [Function.update_self]

theorem latest_eq {l : List Phdr} (h : (l.map Phdr.region).Nodup) {ph : Phdr} (hph : ph ∈ l) :
    latest l.reverse ph.region = some ph := by
  cases hl : latest l.reverse ph.region with
  | none =>
    have hnone := List.find?_eq_none.mp hl ph (List.mem_reverse.mpr hph)
    simp at hnone
  | some ph' =>
    have hmem := List.mem_reverse.mp (latest_mem hl)
    rw [List.inj_on_of_nodup_map h hmem hph (latest_region hl)]

theorem latest_applied {mem : Mem} {elf : Nat} {region : RegionId} {ph : Phdr}
    (h : latest (segments mem elf).reverse region = some ph) :
    latest (applied cfg mem elf) region = some ph := by
  unfold applied
  split
  · next hnone =>
    have hregion := stackSegment_region cfg
    rw [latest_cons, if_neg]
    · exact h
    · intro he
      rw [← he, hregion, hnone] at h
      cases h
  · exact h

theorem latest_data (mem : Mem) (elf : Nat) :
    ∃ ph, latest (applied cfg mem elf) regionData = some ph ∧ regionLength cfg ph =
      cfg.regionDataSize := by
  cases hl : latest (segments mem elf).reverse regionData with
  | some ph => exact ⟨ph, latest_applied cfg hl, regionLength_data cfg (latest_region hl)⟩
  | none =>
    have hregion := stackSegment_region cfg
    refine ⟨stackSegment cfg, ?_, regionLength_data cfg hregion⟩
    unfold applied
    rw [if_pos hl, latest_cons, if_pos hregion]

theorem toNat_sp {n : Word} (h : n.toNat ≤ 0x40000000) :
    ((0x80000000 + n) &&& ~~~7 : Word).toNat = (0x80000000 + n.toNat) / 8 * 8 := by
  have hsum : (0x80000000 + n : Word).toNat = 0x80000000 + n.toNat := by
    rw [BitVec.toNat_add]
    have h31 : (0x80000000 : Word).toNat = 0x80000000 := rfl
    omega
  have h8 : (8 : Word).toNat = 2 ^ 3 := rfl
  rw [show (7 : Word) = 8 - 1 from rfl, toNat_mask_not h8, hsum]
  omega

/-- Where every segment starts at the base of a region of its own, a loaded guest finds the
image. -/
theorem vmLoad_loaded {cfg : VmLoaderConfig} {elf elfSize : Nat} {s : LoadState} {live : List Nat}
    (h : SlabInv s.slab s.mem live) (hcpu : FreshCpu s.cpu)
    (himage : ∀ x, InImage elf elfSize x → Held s.slab live x)
    (hsize : cfg.regionDataSize.toNat ≤ 0x40000000) (hplaced : WellPlaced s.mem elf)
    (hok : (vmLoad cfg elf elfSize s).1 = .ok) :
    LoadedImage cfg s.mem elf (vmLoad cfg elf elfSize s).2 := by
  rcases vmLoad_spec cfg h hcpu himage (by omega) with
    ⟨-, -, hphdrs, L, s', hinv, hs'⟩ | ⟨herr, -⟩
  · have hvalid := segments_valid hphdrs
    have hserves : ∀ ph ∈ segments s.mem elf,
        Serves cfg elf s.mem (L.map Prod.snd ++ live) s' ph := fun ph hph =>
      hinv.served _ _ (latest_applied cfg (latest_eq hplaced.nodup hph))
    have hreads : ∀ ph ∈ segments s.mem elf, ∀ i < ph.memsz.toNat,
        GuestReads (finishLoad cfg (eEntry s.mem elf) s'.cpu) s'.mem (ph.vaddr + BitVec.ofNat 32 i)
          (s'.mem ((s'.cpu.regions ph.region).base + i)) := by
      intro ph hph i hi
      have hv := hvalid ph hph
      have hs := hserves ph hph
      have hmemsz := hv.memsz_le
      have hfits := hs.fits
      have hread := guestReads_segment (finishLoad cfg (eEntry s.mem elf) s'.cpu) s'.mem (i := i)
        (hplaced.base ph hph) hv.not_shared (by omega)
        (by rw [finishLoad_private _ _ _ hv.not_shared, hs.length]; omega)
      rw [finishLoad_private _ _ _ hv.not_shared] at hread
      exact hread
    rw [hs']
    refine ⟨fun ph hph i hi => ?_, fun ph hph i hlo hhi => ?_, fun ph hph ph' hph' hne hram => ?_,
      rfl, ?_⟩
    · have hle := (hvalid ph hph).filesz_le
      rw [← (hserves ph hph).file i hi]
      exact hreads ph hph i (by omega)
    · rw [← (hserves ph hph).zero i hlo hhi]
      exact hreads ph hph i hhi
    · have hregion : ph.region ≠ ph'.region := fun e =>
        hne (List.inj_on_of_nodup_map hplaced.nodup hph hph' e)
      rw [finishLoad_private _ _ _ (hvalid ph hph).not_shared,
        finishLoad_private _ _ _ (hvalid ph' hph').not_shared]
      exact hinv.apart _ _ ph ph' hregion (latest_applied cfg (latest_eq hplaced.nodup hph))
        (latest_applied cfg (latest_eq hplaced.nodup hph')) hram
    · obtain ⟨ph, hl, hlen⟩ := latest_data cfg s.mem elf
      have hlength := (hinv.served _ _ hl).length
      rw [latest_region hl, hlen] at hlength
      rw [finishLoad_sp, finishLoad_private _ _ _ (by decide), hlength, toNat_sp hsize]
      omega
  · exact absurd hok herr

/-! ## Images -/

def le32 (v : Word) : List Byte := (List.range 4).map (byteOf v)

def Phdr.encode (ph : Phdr) : List Byte :=
  le32 ph.type ++ le32 ph.offset ++ le32 ph.vaddr ++ le32 0 ++ le32 ph.filesz ++ le32 ph.memsz ++
    le32 ph.flags ++ le32 0

/-- An executable that starts at 0, with its program headers right after the ELF header. -/
def elfImage (phs : List Phdr) (body : List Byte) : List Byte :=
  [0x7F, 0x45, 0x4C, 0x46, 1, 1, 1, 0, 0, 0, 0, 0, 0, 0, 0, 0, 2, 0, 0xF3, 0] ++ le32 1 ++ le32 0 ++
    le32 52 ++ le32 0 ++ le32 0 ++ [52, 0, 32, 0, BitVec.ofNat 8 phs.length, 0, 0, 0, 0, 0, 0, 0] ++
    phs.flatMap Phdr.encode ++ body

/-- Memory with an image at address 128. -/
def imageMem (image : List Byte) : Mem := fun x => if 128 ≤ x then image.getD (x - 128) 0 else 0

/-- An arena of two small blocks below the image. -/
def imageState (image : List Byte) : LoadState :=
  ⟨vmInit 0, (twoBlocks (imageMem image)).2.1, (twoBlocks (imageMem image)).2.2⟩

def smallConfig : VmLoaderConfig := ⟨.xip, .xip, 16, 0, 0, 0, 0⟩

theorem twoBlocks_fst (mem : Mem) : (twoBlocks mem).1 = .ok := by
  unfold twoBlocks slabInit
  rfl

theorem slabInit_fst {region bytes : Nat} {cfg : SlabConfig} {mem : Mem}
    (hlt : region + bytes < 2 ^ 64) (h : (slabInit region bytes cfg mem).1 = .ok) :
    SlabInv (slabInit region bytes cfg mem).2.1 (slabInit region bytes cfg mem).2.2 [] ∧
      (slabInit region bytes cfg mem).2.1.region = region ∧
      (slabInit region bytes cfg mem).2.1.regionBytes = bytes := by
  generalize hr : slabInit region bytes cfg mem = r at h ⊢
  obtain ⟨e, a, mem'⟩ := r
  obtain rfl : e = .ok := h
  exact ⟨slabInit_ok hlt hr, slabInit_region hr⟩

theorem twoBlocks_inv (mem : Mem) : SlabInv (twoBlocks mem).2.1 (twoBlocks mem).2.2 [] ∧
    (twoBlocks mem).2.1.region = 8 ∧ (twoBlocks mem).2.1.regionBytes = 104 := by
  have hok := twoBlocks_fst mem
  unfold twoBlocks at hok ⊢
  exact slabInit_fst (by decide) hok

theorem imageState_inv (image : List Byte) :
    SlabInv (imageState image).slab (imageState image).mem [] := by
  have hinv := (twoBlocks_inv (imageMem image)).1
  unfold imageState
  dsimp only
  exact hinv

theorem imageState_image (image : List Byte) :
    ∀ x, InImage 128 image.length x → Held (imageState image).slab [] x := by
  rintro x ⟨hlo, -⟩
  obtain ⟨-, hregion, hbytes⟩ := twoBlocks_inv (imageMem image)
  refine held_outside (imageState_inv image).placed (.inr ?_)
  unfold imageState
  dsimp only
  omega

/-- Four bytes of code at the base of its region. -/
def codeImage : List Byte := elfImage [⟨ptLoad, 84, 0, 4, 4, 5⟩] [1, 2, 3, 4]

theorem codeImage_placed : WellPlaced (imageState codeImage).mem 128 := by
  constructor
  · decide +kernel
  · decide +kernel

theorem vmLoad_loaded_code :
    LoadedImage smallConfig (imageState codeImage).mem 128
      (vmLoad smallConfig 128 codeImage.length (imageState codeImage)).2 :=
  vmLoad_loaded (imageState_inv _) (fun _ => rfl) (imageState_image _) (by decide) codeImage_placed
    (by decide +kernel)

/-- The code one page up: its region still begins with it. -/
def shiftedImage : List Byte := elfImage [⟨ptLoad, 84, 4, 4, 4, 5⟩] [1, 2, 3, 4]

/-- Two code segments. -/
def doubleImage : List Byte :=
  elfImage [⟨ptLoad, 116, 0, 4, 4, 5⟩, ⟨ptLoad, 120, 0, 4, 4, 5⟩] [1, 2, 3, 4, 5, 6, 7, 8]

/-- One load into the small arena. -/
def load (image : List Byte) : VmLoadResult × LoadState :=
  vmLoad smallConfig 128 image.length (imageState image)

theorem vmLoad_misplaces :
    ((load codeImage).1 = .ok ∧
      ¬Mapped (load codeImage).2.cpu ((load codeImage).2.cpu.regs regSp) 1) ∧
    ((load shiftedImage).1 = .ok ∧
      ¬GuestReads (load shiftedImage).2.cpu (load shiftedImage).2.mem 4 1) ∧
    ((load doubleImage).1 = .ok ∧
      ¬GuestReads (load doubleImage).2.cpu (load doubleImage).2.mem 0 1) := by
  refine ⟨⟨by decide +kernel, by decide +kernel⟩, ⟨by decide +kernel, ?_⟩, by decide +kernel, ?_⟩
  · rw [guestReads_private (by decide)]
    decide +kernel
  · rw [guestReads_private (by decide)]
    decide +kernel

end Microgarbage.Host
