import Microgarbage.Host.Loaded

/-!
# What a guest can see of its predecessors

Two loads of one image, from memories that differ in the free blocks of the arena only: they take
the same blocks, and what the guests see of them differs exactly in the part of the data region
above the segment's memory size.
-/

namespace Microgarbage.Host

open Lib Vm Memory

/-! ## Two loads side by side -/

/-- The same CPU and handle, and memories that agree on the allocator's own bytes. -/
structure Twin (s s' : LoadState) : Prop where
  cpu : s'.cpu = s.cpu
  slab : s'.slab = s.slab
  books : ∀ x, Bookkeeping s.slab x → s'.mem x = s.mem x

/-- The same result from both. -/
def TwinResult (r r' : VmLoadResult × LoadState) : Prop := r'.1 = r.1 ∧ Twin r.2 r'.2

/-- The memories differ only where both are as they were. -/
def Spread (mem₀ mem₀' mem mem' : Mem) : Prop :=
  ∀ x, mem' x = mem x ∨ mem x = mem₀ x ∧ mem' x = mem₀' x

section Twins

variable {cfg : VmLoaderConfig} {elf elfSize : Nat} {s s' : LoadState} {live : List Nat}
  {mem₀ mem₀' : Mem}

theorem Twin.setRegion (h : Twin s s') (region : RegionId) (r : VmRegion) :
    Twin (s.setRegion region r) (s'.setRegion region r) := by
  refine ⟨?_, h.slab, h.books⟩
  unfold LoadState.setRegion
  rw [h.cpu]

theorem backRegion_twin (h : SlabInv s.slab s.mem live) (ht : Twin s s')
    (hs : Spread mem₀ mem₀' s.mem s'.mem) (himage : ∀ x, InImage elf elfSize x → Held s.slab live x)
    (hsame : ∀ x, InImage elf elfSize x → s'.mem x = s.mem x) (region : RegionId) {n : Word}
    (w : Bool) {fill : Mem → Nat → Mem} {size : Nat} {content : Mem → Nat → Byte}
    (hfill : Fills fill size content) (hcontent : ∀ mem mem' : Mem,
      (∀ x, InImage elf elfSize x → mem' x = mem x) → ∀ i, content mem' i = content mem i)
    (hsize : size ≤ n.toNat) (hfit : n.toNat + 8 ≤ 2 ^ 32) :
    TwinResult (backRegion s region n w fill) (backRegion s' region n w fill) ∧
      Spread mem₀ mem₀' (backRegion s region n w fill).2.mem
        (backRegion s' region n w fill).2.mem := by
  have hbooks := ht.books
  obtain ⟨hptr, hslab, hagree⟩ := slabAlloc_congr h hbooks (n.setWidth 64)
  obtain ⟨hshape, hkeeps⟩ := slabAlloc_confined h (n.setWidth 64)
  have hkeeps' := (slabAlloc_confined (h.frame hbooks) (n.setWidth 64)).2
  unfold backRegion
  rw [ht.slab]
  dsimp only
  rw [hptr]
  have htwin : Twin (s.withSlab (slabAlloc s.slab s.mem (n.setWidth 64)).2)
      (s'.withSlab (slabAlloc s.slab s'.mem (n.setWidth 64)).2) :=
    ⟨ht.cpu, hslab, fun x hx => hagree x (hbooks x (hshape.bookkeeping.mp hx))⟩
  have hspread : Spread mem₀ mem₀' (slabAlloc s.slab s.mem (n.setWidth 64)).2.2
      (slabAlloc s.slab s'.mem (n.setWidth 64)).2.2 := by
    intro x
    by_cases hb : Bookkeeping s.slab x
    · exact .inl (hagree x (hbooks x hb))
    · rw [hkeeps x hb, hkeeps' x hb]
      exact hs x
  by_cases h0 : (slabAlloc s.slab s.mem (n.setWidth 64)).1 = 0
  · rw [if_pos h0, if_pos h0]
    exact ⟨⟨rfl, htwin⟩, hspread⟩
  · rw [if_neg h0, if_neg h0]
    have hg := slabAlloc_granted h (by rw [toNat_size]; exact hfit) h0
    rw [toNat_size] at hg
    generalize slabAlloc s.slab s.mem (n.setWidth 64) = r at *
    generalize slabAlloc s.slab s'.mem (n.setWidth 64) = r' at *
    -- the fill stays off the allocator's bytes
    have hout : ∀ x, Bookkeeping r.2.1 x → x < r.1 ∨ r.1 + size ≤ x := by
      intro x hx
      by_contra hc
      exact (hg.held x (by omega) (by omega)).1 hx
    have hfilled : Twin { s.withSlab r.2 with mem := fill (s.withSlab r.2).mem r.1 }
        { s'.withSlab r'.2 with mem := fill (s'.withSlab r'.2).mem r.1 } := by
      refine ⟨htwin.cpu, htwin.slab, fun x hx => ?_⟩
      exact (hfill.outside _ _ _ (hout x hx)).trans
        ((htwin.books x hx).trans (hfill.outside _ _ _ (hout x hx)).symm)
    refine ⟨⟨rfl, hfilled.setRegion ..⟩, fun x => ?_⟩
    -- and what it puts there comes from the image
    have hread := hcontent r.2.2 r'.2.2 fun x hx => by
      rw [hkeeps x (himage x hx).1, hkeeps' x (himage x hx).1, hsame x hx]
    change fill r'.2.2 r.1 x = fill r.2.2 r.1 x ∨
      fill r.2.2 r.1 x = mem₀ x ∧ fill r'.2.2 r.1 x = mem₀' x
    by_cases hx : r.1 ≤ x ∧ x < r.1 + size
    · obtain ⟨i, rfl⟩ := Nat.exists_eq_add_of_le hx.1
      left
      rw [hfill.inside _ _ _ (by omega), hfill.inside _ _ _ (by omega), hread]
    · rw [hfill.outside _ _ _ (by omega), hfill.outside _ _ _ (by omega)]
      exact hspread x

theorem applyPtLoad_twin (cfg : VmLoaderConfig) (h : SlabInv s.slab s.mem live) (ht : Twin s s')
    (hs : Spread mem₀ mem₀' s.mem s'.mem) (himage : ∀ x, InImage elf elfSize x → Held s.slab live x)
    (hsame : ∀ x, InImage elf elfSize x → s'.mem x = s.mem x) {ph : Phdr}
    (hv : ph.Valid elfSize) (hsize : cfg.regionDataSize.toNat + 8 ≤ 2 ^ 32) :
    TwinResult (applyPtLoad cfg elf ph s) (applyPtLoad cfg elf ph s') ∧
      Spread mem₀ mem₀' (applyPtLoad cfg elf ph s).2.mem (applyPtLoad cfg elf ph s').2.mem := by
  have hmemsz := hv.memsz_le
  have hfilesz := hv.filesz_le
  have hcontent : ∀ mem mem' : Mem, (∀ x, InImage elf elfSize x → mem' x = mem x) → ∀ i,
      segmentContent elf ph mem' i = segmentContent elf ph mem i := by
    intro mem mem' hread i
    unfold segmentContent
    split
    · have hend := hv.file (by omega)
      exact hread _ ⟨by omega, by omega⟩
    · rfl
  unfold applyPtLoad
  dsimp only
  split
  · cases cfg.backing ph.region with
    | xip =>
      dsimp only
      split
      · exact ⟨⟨rfl, ht⟩, hs⟩
      · exact ⟨⟨rfl, ht.setRegion ..⟩, hs⟩
    | copyRam =>
      exact backRegion_twin h ht hs himage hsame _ _ (fills_ptLoad elf ph (Nat.le_refl _)) hcontent
        (Nat.le_refl _) (by omega)
  · split
    · exact ⟨⟨rfl, ht⟩, hs⟩
    · next hsmall =>
      rw [BitVec.lt_def] at hsmall
      exact backRegion_twin h ht hs himage hsame _ _ (fills_ptLoad elf ph hfilesz) hcontent
        (by omega) hsize

theorem applyPhdrs_twin {s₀ s₀' : LoadState} {done done' : List Phdr}
    {L L' : List (RegionId × Nat)} (phoff : Word) (is : List Nat)
    (himage : ∀ x, InImage elf elfSize x → Held s₀.slab live x)
    (himage' : ∀ x, InImage elf elfSize x → Held s₀'.slab live x)
    (hsize : cfg.regionDataSize.toNat + 8 ≤ 2 ^ 32)
    (hin : ∀ i ∈ is, phoff.toNat + i * elf32PhdrSize + elf32PhdrSize ≤ elfSize)
    (hv : ∀ i ∈ is, (readPhdr s₀.mem elf phoff i).loadable = true →
      (readPhdr s₀.mem elf phoff i).Valid elfSize)
    (hsame : ∀ x, InImage elf elfSize x → s₀'.mem x = s₀.mem x)
    (h : LoadInv cfg elf elfSize s₀ live done L s)
    (h' : LoadInv cfg elf elfSize s₀' live done' L' s') (ht : Twin s s')
    (hs : Spread mem₀ mem₀' s.mem s'.mem) :
    TwinResult (applyPhdrs cfg elf phoff is s) (applyPhdrs cfg elf phoff is s') ∧
      Spread mem₀ mem₀' (applyPhdrs cfg elf phoff is s).2.mem
        (applyPhdrs cfg elf phoff is s').2.mem := by
  induction is generalizing done done' L L' s s' with
  | nil => exact ⟨⟨rfl, ht⟩, hs⟩
  | cons i is ih =>
    have hmem : i ∈ i :: is := List.mem_cons_self ..
    have hread := h.readPhdr himage (hin i hmem)
    have hread' := (h'.readPhdr himage' (hin i hmem)).trans (readPhdr_congr hsame (hin i hmem))
    have hin' := fun j hj => hin j (List.mem_cons_of_mem i hj)
    have hv' := fun j hj => hv j (List.mem_cons_of_mem i hj)
    have hheld : ∀ x, InImage elf elfSize x → Held s.slab (L.map Prod.snd ++ live) x :=
      fun x hx => (himage x hx).mono h.shape (List.subset_append_right ..)
    have hagree : ∀ x, InImage elf elfSize x → s'.mem x = s.mem x := fun x hx => by
      rw [h.frozen x (himage x hx), h'.frozen x (himage' x hx), hsame x hx]
    unfold applyPhdrs
    dsimp only
    rw [hread, hread']
    by_cases hl : (readPhdr s₀.mem elf phoff i).loadable = true
    · rw [if_pos hl, if_pos hl]
      have hvalid := hv i hmem hl
      obtain ⟨⟨hres, htwin⟩, hspread⟩ :=
        applyPtLoad_twin cfg h.slab ht hs hheld hagree hvalid hsize
      rcases applyPtLoad_spec h himage hvalid hsize with ⟨hok, L₁, hinv⟩ | ⟨herr, -⟩
      · rcases applyPtLoad_spec h' himage' hvalid hsize with ⟨hok', L₂, hinv'⟩ | ⟨herr', -⟩
        · rw [if_pos hok, if_pos hok']
          exact ih hin' hv' hinv hinv' htwin hspread
        · exact absurd (hres.trans hok) herr'
      · rw [if_neg herr, if_neg (by rw [hres]; exact herr)]
        exact ⟨⟨hres, htwin⟩, hspread⟩
    · rw [if_neg hl, if_neg hl]
      exact ih hin' hv' h h' ht hs

theorem checkEhdr_congr {mem mem' : Mem} (h : ∀ x, InImage elf elfSize x → mem' x = mem x) :
    checkEhdr mem' elf elfSize = checkEhdr mem elf elfSize ∧
      (checkEhdr mem elf elfSize = .ok → eEntry mem' elf = eEntry mem elf ∧
        ePhoff mem' elf = ePhoff mem elf ∧ ePhnum mem' elf = ePhnum mem elf) := by
  by_cases hlen : elfSize < elf32EhdrSize
  · unfold checkEhdr
    rw [if_pos hlen, if_pos hlen]
    exact ⟨rfl, fun hc => by cases hc⟩
  · unfold elf32EhdrSize at hlen
    have hbyte : ∀ k < 52, mem' (elf + k) = mem (elf + k) := fun k hk =>
      h _ ⟨by omega, by omega⟩
    have hhalf : ∀ k, k + 2 ≤ 52 → mem'.load16 (elf + k) = mem.load16 (elf + k) := fun k hk =>
      Mem.load16_congr fun j hj => by rw [Nat.add_assoc]; exact hbyte _ (by omega)
    have hword : ∀ k, k + 4 ≤ 52 → mem'.load32 (elf + k) = mem.load32 (elf + k) := fun k hk =>
      Mem.load32_congr fun j hj => by rw [Nat.add_assoc]; exact hbyte _ (by omega)
    have hentry : eEntry mem' elf = eEntry mem elf := hword 24 (by omega)
    have hphoff : ePhoff mem' elf = ePhoff mem elf := hword 28 (by omega)
    have hphnum : ePhnum mem' elf = ePhnum mem elf := hhalf 44 (by omega)
    refine ⟨?_, fun _ => ⟨hentry, hphoff, hphnum⟩⟩
    unfold checkEhdr
    rw [hentry, hphoff, hphnum, show mem' elf = mem elf from hbyte 0 (by omega), hbyte 1 (by omega),
      hbyte 2 (by omega), hbyte 3 (by omega), hbyte 4 (by omega), hbyte 5 (by omega),
      hbyte 6 (by omega), hhalf 18 (by omega), hhalf 16 (by omega), hhalf 42 (by omega),
      hword 20 (by omega)]

theorem phdrs_in {mem : Mem} (h : checkEhdr mem elf elfSize = .ok) :
    ∀ i ∈ List.range (ePhnum mem elf).toNat,
      (ePhoff mem elf).toNat + i * elf32PhdrSize + elf32PhdrSize ≤ elfSize := by
  intro i hi
  have hlt := List.mem_range.mp hi
  have hend := checkEhdr_ok h
  unfold elf32PhdrSize at hend ⊢
  omega

theorem phdrs_congr {mem mem' : Mem} (h : ∀ x, InImage elf elfSize x → mem' x = mem x)
    (hok : checkEhdr mem elf elfSize = .ok) : phdrs mem' elf = phdrs mem elf := by
  obtain ⟨-, hphoff, hphnum⟩ := (checkEhdr_congr h).2 hok
  unfold phdrs
  rw [hphoff, hphnum]
  exact List.map_congr_left fun i hi => readPhdr_congr h (phdrs_in hok i hi)

theorem vmLoad_twin (h : SlabInv s.slab s.mem live) (hcpu : FreshCpu s.cpu)
    (himage : ∀ x, InImage elf elfSize x → Held s.slab live x)
    (hsize : cfg.regionDataSize.toNat + 8 ≤ 2 ^ 32) (ht : Twin s s')
    (hsame : ∀ x, InImage elf elfSize x → s'.mem x = s.mem x) :
    (vmLoad cfg elf elfSize s').1 = (vmLoad cfg elf elfSize s).1 ∧
      (vmLoad cfg elf elfSize s').2.cpu = (vmLoad cfg elf elfSize s).2.cpu ∧
      Spread s.mem s'.mem (vmLoad cfg elf elfSize s).2.mem (vmLoad cfg elf elfSize s').2.mem := by
  have h' : SlabInv s'.slab s'.mem live := ht.slab ▸ h.frame ht.books
  have himage' : ∀ x, InImage elf elfSize x → Held s'.slab live x := ht.slab ▸ himage
  have hcpu' : FreshCpu s'.cpu := ht.cpu ▸ hcpu
  have hstart : Spread s.mem s'.mem s.mem s'.mem := fun _ => .inr ⟨rfl, rfl⟩
  obtain ⟨hehdr, hfields⟩ := checkEhdr_congr hsame
  unfold vmLoad
  by_cases harg : elf = 0 ∨ cfg.regionDataSize = 0
  · rw [if_pos harg, if_pos harg]
    exact ⟨rfl, ht.cpu, hstart⟩
  rw [if_neg harg, if_neg harg, hehdr]
  by_cases hok : checkEhdr s.mem elf elfSize = .ok
  · obtain ⟨hentry, hphoff, hphnum⟩ := hfields hok
    rw [if_neg (not_not_intro hok), if_neg (not_not_intro hok), phdrs_congr hsame hok]
    by_cases hphdrs : checkPhdrs elfSize (phdrs s.mem elf) = .ok
    · rw [if_neg (not_not_intro hphdrs), if_neg (not_not_intro hphdrs), hentry, hphoff, hphnum]
      obtain ⟨⟨hres, htwin⟩, hspread⟩ := applyPhdrs_twin (ePhoff s.mem elf)
        (List.range (ePhnum s.mem elf).toNat) himage himage'
        hsize (phdrs_in hok)
        (fun i hi hl => segments_valid hphdrs _
          (List.mem_filter.mpr ⟨List.mem_map_of_mem hi, hl⟩))
        hsame (LoadInv.start cfg elf elfSize h hcpu)
        (LoadInv.start cfg elf elfSize h' hcpu') ht hstart
      have happly := applyPhdrs_start cfg h hcpu himage hsize hok hphdrs rfl
      dsimp only
      generalize applyPhdrs cfg elf (ePhoff s.mem elf) (List.range (ePhnum s.mem elf).toNat) s = r
        at *
      generalize applyPhdrs cfg elf (ePhoff s.mem elf) (List.range (ePhnum s.mem elf).toNat) s' = r'
        at *
      rw [hres]
      rcases happly with ⟨hok₁, L, hinv⟩ | ⟨herr, -⟩
      · rw [if_neg (not_not_intro hok₁), if_neg (not_not_intro hok₁)]
        have hdata : TwinResult (ensureData cfg r.2) (ensureData cfg r'.2) ∧
            Spread s.mem s'.mem (ensureData cfg r.2).2.mem (ensureData cfg r'.2).2.mem := by
          have hnone : ∀ x, InImage 0 0 x → False := fun _ hx => Nat.not_lt.mpr hx.1 hx.2
          unfold ensureData
          rw [htwin.cpu]
          split
          · exact backRegion_twin hinv.slab htwin hspread (fun x hx => (hnone x hx).elim)
              (fun x hx => (hnone x hx).elim) _ _ (fills_zero _) (fun _ _ _ _ => rfl)
              (Nat.le_refl _) hsize
          · exact ⟨⟨rfl, htwin⟩, hspread⟩
        obtain ⟨⟨hres', htwin'⟩, hspread'⟩ := hdata
        rw [hres']
        by_cases hok₂ : (ensureData cfg r.2).1 = .ok
        · rw [if_neg (not_not_intro hok₂), if_neg (not_not_intro hok₂)]
          exact ⟨rfl, by rw [htwin'.cpu], hspread'⟩
        · rw [if_pos hok₂, if_pos hok₂]
          exact ⟨hres', htwin'.cpu, hspread'⟩
      · rw [if_pos herr, if_pos herr]
        exact ⟨hres, htwin.cpu, hspread⟩
    · rw [if_pos hphdrs, if_pos hphdrs]
      exact ⟨rfl, ht.cpu, hstart⟩
  · rw [if_pos hok, if_pos hok]
    exact ⟨rfl, ht.cpu, hstart⟩

end Twins

/-! ## What the guests see -/

/-- Both loads fail, or the guests read the same everywhere below the shared regions. -/
structure SamePrivate (r r' : VmLoadResult × LoadState) : Prop where
  result : r'.1 = r.1
  view : ∀ addr : Word, addr.toNat < 0xC0000000 → ∀ b,
    GuestReads r'.2.cpu r'.2.mem addr b ↔ GuestReads r.2.cpu r.2.mem addr b

/-- The last data segment, if there is one, fills its region. -/
def DataFilled (cfg : VmLoaderConfig) (mem : Mem) (elf : Nat) : Prop :=
  ∀ ph, latest (segments mem elf).reverse regionData = some ph → ph.memsz = cfg.regionDataSize

section Views

variable {cfg : VmLoaderConfig} {elf elfSize : Nat} {s : LoadState} {live : List Nat}

theorem region_data {region : RegionId} (h₀ : region ≠ regionCode) (h₁ : region ≠ regionRodata)
    (h₃ : region ≠ regionShared) : region = regionData := by
  revert region
  decide

theorem applied_valid {mem : Mem} (hphdrs : checkPhdrs elfSize (phdrs mem elf) = .ok) {ph : Phdr}
    (hmem : ph ∈ applied cfg mem elf) : ph = stackSegment cfg ∨ ph.Valid elfSize := by
  unfold applied at hmem
  split at hmem
  · exact (List.mem_cons.mp hmem).imp_right fun h =>
      segments_valid hphdrs ph (List.mem_reverse.mp h)
  · exact .inr (segments_valid hphdrs ph (List.mem_reverse.mp hmem))

theorem applied_filled {mem : Mem} (hfilled : DataFilled cfg mem elf)
    (hphdrs : checkPhdrs elfSize (phdrs mem elf) = .ok) {region : RegionId} {ph : Phdr}
    (hl : latest (applied cfg mem elf) region = some ph) : ph.memsz = regionLength cfg ph := by
  have hmem := latest_mem hl
  have hregion := latest_region hl
  rcases applied_valid hphdrs hmem with rfl | hv
  · rw [regionLength_data cfg (stackSegment_region cfg)]
    rfl
  · unfold regionLength
    by_cases hro : ph.readOnly = true
    · rw [if_pos hro]
      exact (hv.readOnly hro).1
    · rw [if_neg hro]
      unfold Phdr.readOnly at hro
      have hne := of_decide_eq_false (Bool.eq_false_iff.mpr hro)
      rw [not_or] at hne
      have hdata := region_data hne.1 hne.2 hv.not_shared
      rw [← hregion, hdata] at hl
      unfold applied at hl
      split at hl
      · rw [latest_cons, if_pos (stackSegment_region cfg)] at hl
        rw [← Option.some.inj hl]
        rfl
      · exact hfilled ph hl

theorem view_byte {s' : LoadState} {L : List (RegionId × Nat)} {region : RegionId} {ph : Phdr}
    (hs : Serves cfg elf s.mem (L.map Prod.snd ++ live) s' ph) (hr : ph.region = region)
    {i : Nat} (hi : i < (s'.cpu.regions region).length.toNat) :
    s'.mem ((s'.cpu.regions region).base + i) =
      if i < ph.filesz.toNat then s.mem (elf + ph.offset.toNat + i)
      else if i < ph.memsz.toNat then 0
      else s.mem ((s'.cpu.regions region).base + i) := by
  subst hr
  rw [hs.length] at hi
  split
  · next h => exact hs.file i h
  · next h =>
    split
    · next h' => exact hs.zero i (by omega) h'
    · next h' => exact hs.tail i (by omega) hi

theorem twin_of_free (h : SlabInv s.slab s.mem live) {mem' : Mem}
    (hmem : ∀ x, ¬FreeByte s.slab live x → mem' x = s.mem x) : Twin s { s with mem := mem' } := by
  refine ⟨rfl, rfl, fun x hx => hmem x fun hf => ?_⟩
  exact ((freeByte_iff h.placed).mp hf).1 hx

theorem image_of_free (h : SlabInv s.slab s.mem live)
    (himage : ∀ x, InImage elf elfSize x → Held s.slab live x) {mem' : Mem}
    (hmem : ∀ x, ¬FreeByte s.slab live x → mem' x = s.mem x) :
    ∀ x, InImage elf elfSize x → mem' x = s.mem x := fun x hx =>
  hmem x fun hf => ((freeByte_iff h.placed).mp hf).2 (himage x hx)

/-- A private read after a successful load, through the load's invariant. -/
theorem reads_loaded {s' : LoadState} (hs' : (vmLoad cfg elf elfSize s).2 =
      { s' with cpu := finishLoad cfg (eEntry s.mem elf) s'.cpu }) {addr : Word}
    (haddr : addr.toNat < 0xC0000000) (b : Byte) :
    GuestReads (vmLoad cfg elf elfSize s).2.cpu (vmLoad cfg elf elfSize s).2.mem addr b ↔
      addr.toNat % 0x40000000 < (s'.cpu.regions (vaddrToRegion addr)).length.toNat ∧
        s'.mem ((s'.cpu.regions (vaddrToRegion addr)).base + addr.toNat % 0x40000000) = b := by
  rw [guestReads_private haddr, hs',
    finishLoad_private cfg (eEntry s.mem elf) s'.cpu ((private_iff addr).mpr haddr)]

section Pair

variable {L : List (RegionId × Nat)} {s₁ : LoadState} (h : SlabInv s.slab s.mem live)
  (hcpu : FreshCpu s.cpu) (himage : ∀ x, InImage elf elfSize x → Held s.slab live x)
  (hsize : cfg.regionDataSize.toNat ≤ 0x40000000) (hok : (vmLoad cfg elf elfSize s).1 = .ok)
  (hehdr : checkEhdr s.mem elf elfSize = .ok)
  (hphdrs : checkPhdrs elfSize (phdrs s.mem elf) = .ok)
  (hinv : LoadInv cfg elf elfSize s live (applied cfg s.mem elf) L s₁)
  (hs₁ : (vmLoad cfg elf elfSize s).2 =
    { s₁ with cpu := finishLoad cfg (eEntry s.mem elf) s₁.cpu })

include h hcpu himage hsize hok hehdr hs₁

theorem vmLoad_other {mem' : Mem} (hmem : ∀ x, ¬FreeByte s.slab live x → mem' x = s.mem x) :
    (vmLoad cfg elf elfSize { s with mem := mem' }).1 = .ok ∧ ∃ L₂ s₂,
      LoadInv cfg elf elfSize { s with mem := mem' } live (applied cfg s.mem elf) L₂ s₂ ∧
      (vmLoad cfg elf elfSize { s with mem := mem' }).2 =
        { s₂ with cpu := finishLoad cfg (eEntry mem' elf) s₂.cpu } ∧
      ∀ region, region ≠ regionShared → s₂.cpu.regions region = s₁.cpu.regions region := by
  have hsize' : cfg.regionDataSize.toNat + 8 ≤ 2 ^ 32 := by omega
  have htwin := twin_of_free h hmem
  have hsame := image_of_free h himage hmem
  obtain ⟨hres, hcpus, -⟩ := vmLoad_twin h hcpu himage hsize' htwin hsame
  have hok' := hres.trans hok
  have hslab : SlabInv s.slab mem' live := h.frame htwin.books
  rcases vmLoad_spec cfg (s := { s with mem := mem' }) hslab hcpu himage hsize' with
    ⟨-, -, -, L₂, s₂, hinv₂, hs₂⟩ | ⟨herr, -⟩
  · refine ⟨hok', L₂, s₂, ?_, hs₂, fun region hr => ?_⟩
    · unfold applied segments at hinv₂ ⊢
      rw [phdrs_congr hsame hehdr] at hinv₂
      exact hinv₂
    · rw [hs₁, hs₂] at hcpus
      rw [← finishLoad_private cfg (eEntry mem' elf) s₂.cpu hr,
        ← finishLoad_private cfg (eEntry s.mem elf) s₁.cpu hr]
      exact congrFun (congrArg VmCpu.regions hcpus) region
  · exact absurd hok' herr

include hinv

/-- The first byte above a data segment is one that the guest sees and a predecessor wrote. -/
theorem dataFilled_of_same
    (hview : ∀ mem', (∀ x, ¬FreeByte s.slab live x → mem' x = s.mem x) →
      SamePrivate (vmLoad cfg elf elfSize s) (vmLoad cfg elf elfSize { s with mem := mem' })) :
    DataFilled cfg s.mem elf := by
  intro ph hl
  have hla := latest_applied cfg hl
  have hserves := hinv.served _ _ hla
  have hlen := regionLength_data cfg (latest_region hl)
  have hfits := hserves.fits
  have hlength := hserves.length
  rw [latest_region hl] at hlength
  rw [hlen] at hfits hlength
  by_contra hne
  have hlt : ph.memsz.toNat < cfg.regionDataSize.toNat := by
    have hne' : ph.memsz.toNat ≠ cfg.regionDataSize.toNat := fun e =>
      hne (BitVec.eq_of_toNat_eq e)
    omega
  -- the first byte above the segment
  have hram := ramBacked_data cfg (latest_region hl)
  have hfree := hinv.copied _ _ hla hram ((s₁.cpu.regions regionData).base + ph.memsz.toNat)
    ⟨Nat.le_add_right .., by rw [hlength]; omega⟩
  generalize hy : (s₁.cpu.regions regionData).base + ph.memsz.toNat = y at hfree
  have hmem : ∀ x, ¬FreeByte s.slab live x →
      Function.update s.mem y (s.mem y + 1) x = s.mem x := by
    intro x hx
    refine Function.update_of_ne ?_ ..
    rintro rfl
    exact hx hfree
  obtain ⟨-, L₂, s₂, hinv₂, hs₂, hregions⟩ :=
    vmLoad_other h hcpu himage hsize hok hehdr hs₁ hmem
  have haddr : (0x80000000 + ph.memsz).toNat = 0x80000000 + ph.memsz.toNat := by
    have h31 : (0x80000000 : Word).toNat = 0x80000000 := rfl
    rw [BitVec.toNat_add, h31]
    omega
  have hregion : vaddrToRegion (0x80000000 + ph.memsz) = regionData := by
    refine BitVec.eq_of_toNat_eq ?_
    have h2 : regionData.toNat = 2 := rfl
    rw [toNat_region, haddr, h2]
    omega
  have hlow : (0x80000000 + ph.memsz).toNat < 0xC0000000 := by omega
  have hmod : (0x80000000 + ph.memsz.toNat) % 0x40000000 = ph.memsz.toNat := by omega
  have hsees := (hview _ hmem).view _ hlow (s.mem y)
  rw [reads_loaded hs₁ hlow, reads_loaded hs₂ hlow, hregion, haddr, hmod,
    hregions _ (by decide), hy] at hsees
  have htail : s₁.mem y = s.mem y := by
    rw [← hy]
    have := hserves.tail _ (Nat.le_refl _) (by rw [hlen]; exact hlt)
    rw [latest_region hl] at this
    exact this
  have htail₂ : s₂.mem y = s.mem y + 1 := by
    have := (hinv₂.served _ _ hla).tail _ (Nat.le_refl _) (by rw [hlen]; exact hlt)
    rw [latest_region hl, hregions _ (by decide), hy] at this
    rw [this]
    exact Function.update_self ..
  have hcontra := (hsees.mpr ⟨by rw [hlength]; exact hlt, htail⟩).2
  rw [htail₂] at hcontra
  have hone := BitVec.add_right_eq_self.mp hcontra
  exact absurd hone (by decide)

include hphdrs

theorem same_of_dataFilled (hfilled : DataFilled cfg s.mem elf) {mem' : Mem}
    (hmem : ∀ x, ¬FreeByte s.slab live x → mem' x = s.mem x) :
    SamePrivate (vmLoad cfg elf elfSize s) (vmLoad cfg elf elfSize { s with mem := mem' }) := by
  obtain ⟨hok', L₂, s₂, hinv₂, hs₂, hregions⟩ :=
    vmLoad_other h hcpu himage hsize hok hehdr hs₁ hmem
  have hsame := image_of_free h himage hmem
  refine ⟨hok'.trans hok.symm, fun addr haddr b => ?_⟩
  have hr := (private_iff addr).mpr haddr
  rw [reads_loaded hs₁ haddr, reads_loaded hs₂ haddr, hregions _ hr]
  generalize addr.toNat % 0x40000000 = i
  cases hl : latest (applied cfg s.mem elf) (vaddrToRegion addr) with
  | none =>
    -- a region that no segment names is absent
    rw [hinv.unserved _ hl, hcpu]
    exact ⟨fun hc => absurd hc.1 (Nat.not_lt_zero i), fun hc => absurd hc.1 (Nat.not_lt_zero i)⟩
  | some ph =>
    have hserves := hinv.served _ _ hl
    have hregion := latest_region hl
    have hlength := hserves.length
    have hmemsz := applied_filled hfilled hphdrs hl
    rw [hregion, ← hmemsz] at hlength
    refine and_congr_right fun hi => ?_
    have hfile : ∀ i < ph.filesz.toNat, InImage elf elfSize (elf + ph.offset.toNat + i) := by
      intro i hi
      rcases applied_valid hphdrs (latest_mem hl) with rfl | hv
      · exact absurd hi (Nat.not_lt_zero i)
      · have hend := hv.file (by omega)
        exact ⟨by omega, by omega⟩
    have hbyte : s₂.mem ((s₁.cpu.regions (vaddrToRegion addr)).base + i) =
        s₁.mem ((s₁.cpu.regions (vaddrToRegion addr)).base + i) := by
      have hview₁ := view_byte hserves hregion hi
      have hview₂ := view_byte (hinv₂.served _ _ hl) hregion (by rw [hregions _ hr]; exact hi)
      rw [hregions _ hr] at hview₂
      rw [hlength] at hi
      rw [hview₁, hview₂, if_pos hi, if_pos hi]
      split
      · next hf => exact hsame _ (hfile i hf)
      · rfl
    rw [hbyte]

end Pair

/-- Whatever the free blocks of the arena held before, a loaded guest sees the same in its private
regions, exactly when no data segment leaves room above itself. -/
theorem vmLoad_private_iff (h : SlabInv s.slab s.mem live) (hcpu : FreshCpu s.cpu)
    (himage : ∀ x, InImage elf elfSize x → Held s.slab live x)
    (hsize : cfg.regionDataSize.toNat ≤ 0x40000000)
    (hok : (vmLoad cfg elf elfSize s).1 = .ok) :
    (∀ mem', (∀ x, ¬FreeByte s.slab live x → mem' x = s.mem x) →
      SamePrivate (vmLoad cfg elf elfSize s) (vmLoad cfg elf elfSize { s with mem := mem' })) ↔
    DataFilled cfg s.mem elf := by
  rcases vmLoad_spec cfg h hcpu himage (by omega) with
    ⟨-, hehdr, hphdrs, L, s₁, hinv, hs₁⟩ | ⟨herr, -⟩
  · constructor
    · exact dataFilled_of_same h hcpu himage hsize hok hehdr hinv hs₁
    · exact fun hfilled mem' hmem =>
        same_of_dataFilled h hcpu himage hsize hok hehdr hphdrs hinv hs₁ hfilled hmem
  · exact absurd hok herr

end Views

/-- An image without data: its data region is all zero. -/
theorem vmLoad_private_code : (load codeImage).1 = .ok ∧
    ∀ mem', (∀ x, ¬FreeByte (imageState codeImage).slab [] x →
      mem' x = (imageState codeImage).mem x) →
    SamePrivate (load codeImage) (vmLoad smallConfig 128 codeImage.length
      { imageState codeImage with mem := mem' }) := by
  have hok : (load codeImage).1 = .ok := by decide +kernel
  have hnone : latest (segments (imageState codeImage).mem 128).reverse regionData = none := by
    decide +kernel
  refine ⟨hok, (vmLoad_private_iff (imageState_inv _) (fun _ => rfl) (imageState_image _)
    (by decide) hok).mpr fun ph hl => ?_⟩
  rw [hnone] at hl
  cases hl

/-- Code, and one byte of data. -/
def dataImage : List Byte :=
  elfImage [⟨ptLoad, 116, 0, 4, 4, 5⟩, ⟨ptLoad, 120, 0x80000000, 1, 1, 6⟩] [1, 2, 3, 4, 5]

/-- The second byte of the data region is whatever the arena had there. -/
theorem vmLoad_leaks : ¬∀ (cfg : VmLoaderConfig) (elf elfSize : Nat) (s : LoadState)
    (live : List Nat), SlabInv s.slab s.mem live → FreshCpu s.cpu →
    (∀ x, InImage elf elfSize x → Held s.slab live x) → cfg.regionDataSize.toNat ≤ 0x40000000 →
    (vmLoad cfg elf elfSize s).1 = .ok → ∀ mem', (∀ x, ¬FreeByte s.slab live x → mem' x = s.mem x) →
    SamePrivate (vmLoad cfg elf elfSize s) (vmLoad cfg elf elfSize { s with mem := mem' }) := by
  intro h
  have hfree : FreeByte (imageState dataImage).slab [] 73 :=
    ⟨0, 1, by decide +kernel, List.not_mem_nil, by decide +kernel, by decide +kernel⟩
  have hsame := h smallConfig 128 dataImage.length (imageState dataImage) [] (imageState_inv _)
    (fun _ => rfl) (imageState_image _) (by decide) (by decide +kernel)
    (Function.update (imageState dataImage).mem 73 7) fun x hx => by
      refine Function.update_of_ne ?_ ..
      rintro rfl
      exact hx hfree
  have hview := hsame.view 0x80000001 (by decide) 7
  rw [guestReads_private (by decide), guestReads_private (by decide)] at hview
  exact absurd hview (by decide +kernel)

/-! ## Any image -/

/-- The headers of an image or the contents of a segment lie outside it, or a segment overflows its
region. -/
def PointsOutside (mem : Mem) (elf elfSize : Nat) : Prop :=
  elfSize < elf32EhdrSize ∨
  elfSize < (ePhoff mem elf).toNat + (ePhnum mem elf).toNat * elf32PhdrSize ∨
  ∃ ph ∈ segments mem elf, 0 < ph.filesz.toNat ∧ elfSize < ph.offset.toNat + ph.filesz.toNat ∨
    0x40000000 < ph.vaddr.toNat % 0x40000000 + ph.memsz.toNat

/-- What a load keeps to whatever bytes the image has. -/
structure ImageSafe (cfg : VmLoaderConfig) (elf elfSize : Nat) (s : LoadState) : Prop where
  /-- Besides the allocator's own bytes, only those of the image are read. -/
  reads : ∀ s', Twin s s' → (∀ x, InImage elf elfSize x → s'.mem x = s.mem x) →
    (vmLoad cfg elf elfSize s').1 = (vmLoad cfg elf elfSize s).1 ∧
    (vmLoad cfg elf elfSize s').2.cpu = (vmLoad cfg elf elfSize s).2.cpu ∧
    Spread s.mem s'.mem (vmLoad cfg elf elfSize s).2.mem (vmLoad cfg elf elfSize s').2.mem
  /-- A region that has a byte of the image lies inside it. -/
  inPlace : ∀ region, region ≠ regionShared → ∀ x y,
    InRegion ((vmLoad cfg elf elfSize s).2.cpu.regions region) x → InImage elf elfSize x →
    InRegion ((vmLoad cfg elf elfSize s).2.cpu.regions region) y → InImage elf elfSize y
  rejects : PointsOutside s.mem elf elfSize →
    checkEhdr s.mem elf elfSize ≠ .ok ∨ checkPhdrs elfSize (phdrs s.mem elf) ≠ .ok
  untouched : checkEhdr s.mem elf elfSize ≠ .ok ∨ checkPhdrs elfSize (phdrs s.mem elf) ≠ .ok →
    (vmLoad cfg elf elfSize s).1 ≠ .ok ∧ (vmLoad cfg elf elfSize s).2 = s

section Any

variable {cfg : VmLoaderConfig} {elf elfSize : Nat} {s s₀ : LoadState} {live : List Nat}

theorem LoadInv.inside {done : List Phdr} {L : List (RegionId × Nat)}
    (h : LoadInv cfg elf elfSize s₀ live done L s) (hcpu : FreshCpu s₀.cpu)
    (himage : ∀ x, InImage elf elfSize x → Held s₀.slab live x) {region : RegionId} {x y : Nat}
    (hx : InRegion (s.cpu.regions region) x) (hin : InImage elf elfSize x)
    (hy : InRegion (s.cpu.regions region) y) : InImage elf elfSize y := by
  cases hl : latest done region with
  | none =>
    rw [h.unserved region hl, hcpu] at hx
    exact absurd hx.2 (Nat.not_lt.mpr hx.1)
  | some ph =>
    cases hram : ramBacked cfg ph with
    | true =>
      have hfree := h.copied region ph hl hram x hx
      exact absurd (himage x hin) ((freeByte_iff h.placed).mp hfree).2
    | false => exact h.inPlace region ph hl hram y hy

theorem checks_reject {mem : Mem} (h : PointsOutside mem elf elfSize)
    (hehdr : checkEhdr mem elf elfSize = .ok) : checkPhdrs elfSize (phdrs mem elf) ≠ .ok := by
  intro hphdrs
  rcases h with hsize | hend | ⟨ph, hph, hfile⟩
  · unfold checkEhdr at hehdr
    exact (passed hehdr nofun).1 hsize
  · exact Nat.not_lt.mpr (checkEhdr_ok hehdr) hend
  · have hv := segments_valid hphdrs ph hph
    have hmemsz := hv.memsz_le
    rcases hfile with ⟨hpos, hout⟩ | hlarge
    · exact Nat.not_lt.mpr (hv.file hpos) hout
    · omega

theorem vmLoad_rejected (cfg : VmLoaderConfig)
    (h : checkEhdr s.mem elf elfSize ≠ .ok ∨ checkPhdrs elfSize (phdrs s.mem elf) ≠ .ok) :
    (vmLoad cfg elf elfSize s).1 ≠ .ok ∧ (vmLoad cfg elf elfSize s).2 = s := by
  unfold vmLoad
  split
  · exact ⟨nofun, rfl⟩
  · split
    · next hehdr => exact ⟨hehdr, rfl⟩
    · next hehdr =>
      have hphdrs := h.resolve_left hehdr
      rw [if_pos hphdrs]
      exact ⟨hphdrs, rfl⟩

/-- Whatever bytes it is given, the loader reads only the image, maps in place only parts of it, and
refuses an image that points outside before it has changed anything. -/
theorem vmLoad_imageSafe (h : SlabInv s.slab s.mem live) (hcpu : FreshCpu s.cpu)
    (himage : ∀ x, InImage elf elfSize x → Held s.slab live x)
    (hsize : cfg.regionDataSize.toNat + 8 ≤ 2 ^ 32) : ImageSafe cfg elf elfSize s where
  reads _ ht hsame := vmLoad_twin h hcpu himage hsize ht hsame
  inPlace region hr x y hx hin hy := by
    rcases vmLoad_spec cfg h hcpu himage hsize with
      ⟨-, -, -, L, s', hinv, hs'⟩ | ⟨-, done, L, hinv⟩
    · rw [hs'] at hx hy
      dsimp only at hx hy
      rw [finishLoad_private cfg _ _ hr] at hx hy
      exact hinv.inside hcpu himage hx hin hy
    · exact hinv.inside hcpu himage hx hin hy
  rejects hout := by
    by_cases hehdr : checkEhdr s.mem elf elfSize = .ok
    · exact .inr (checks_reject hout hehdr)
    · exact .inl hehdr
  untouched := vmLoad_rejected cfg

end Any

theorem vmLoad_imageSafe_code : ImageSafe smallConfig 128 codeImage.length (imageState codeImage) :=
  vmLoad_imageSafe (imageState_inv _) (fun _ => rfl) (imageState_image _) (by decide)

/-- Code, and a note of 16 bytes that the file does not have. -/
def noteImage : List Byte :=
  elfImage [⟨ptLoad, 116, 0, 4, 4, 5⟩, ⟨4, 0x1000, 0, 16, 16, 4⟩] [1, 2, 3, 4]

theorem vmLoad_accepts_note : (load noteImage).1 = .ok ∧
    ∃ ph ∈ phdrs (imageState noteImage).mem 128,
      noteImage.length < ph.offset.toNat + ph.filesz.toNat :=
  ⟨by decide +kernel, by decide +kernel⟩

end Microgarbage.Host
