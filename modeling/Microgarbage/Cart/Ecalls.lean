import Microgarbage.Cart.BuildFrame
import Microgarbage.Lib.Transition

/-!
# The calls of the guests

The handlers of `copro_ecalls.c` and `copro_mg_handlers.c` over the staging state, and the machine
of a guest's calls, the console's reads and the unloading of a VM. What a handler reads from the
guest's memory is an argument, `none` when the range is not readable.
-/

namespace Microgarbage.Cart

open Lib

def einval : Word := 22
def efault : Word := 14

/-- `vm_translate_read`: the guest's bytes from the pointer on. -/
abbrev GuestBytes := Option (Nat → Byte)

/-- `n` bytes of the guest. -/
def readBytes (src : Nat → Byte) (n : Nat) : List Byte := Mem.bytes src 0 n

/-- The result of a direct or transient upload. -/
def uploadResult (rc : Int) : Word :=
  if rc = -1 then mgRErrDmaSlots else if rc = -2 then mgRErrDmaBytes else mgROk

namespace Copro

variable (c : Copro)

/-! ## Window -/

/-- `h_stage_payload`; the sum wraps at 32 bits. -/
def stagePayload (off size : Word) (src : GuestBytes) : Word × Copro :=
  if size = 0 ∨ cartWindowBytes ≤ off.toNat ∨ cartWindowBytes < (off + size).toNat then (-einval, c)
  else if off.toNat < 0x8000 ∧ 0x7000 < (off + size).toNat then (-einval, c)
  else
    match src with
    | none => (-efault, c)
    | some src => (0, { c with cart := c.cart.loadBlob off.toNat (readBytes src size.toNat) })

/-- `h_stage_dma_slot`. -/
def stageDmaSlot (slot packedLo packedHi : Word) : Word × Copro :=
  if 8 ≤ slot.toNat then (-einval, c)
  else
    let s : CartDmaSlot := ⟨byteOf packedLo 0, byteOf packedLo 1, packedLo.extractLsb' 16 16,
      packedHi.extractLsb' 0 16, packedHi.extractLsb' 16 16⟩
    (0, { c with cart := c.cart.setDmaSlot slot.toNat s })

/-- Code of up to 1 KB for a region; the rest of the region is zeroed. -/
def installCode (off : Nat) (size : Word) (src : GuestBytes) (bump : CartWindow → CartWindow) :
    Word × Copro :=
  if size = 0 ∨ nmiCodeBytes < size.toNat then (-einval, c)
  else
    match src with
    | none => (-efault, c)
    | some src =>
      (0, { c with cart := bump ((c.cart.loadBlob off (readBytes src size.toNat)).loadBlob
        (off + size.toNat) (List.replicate (nmiCodeBytes - size.toNat) 0)) })

/-- `h_nmi_install`. -/
def nmiInstall (size : Word) (src : GuestBytes) : Word × Copro :=
  c.installCode offNmiCode size src CartWindow.bumpNmiVersion

/-- `h_hirq_install`. -/
def hirqInstall (size : Word) (src : GuestBytes) : Word × Copro :=
  c.installCode offHirqCode size src CartWindow.bumpHirqVersion

/-- `h_kernel_layout`: both halves are clamped to 112 lines. -/
def kernelLayout (top bottom : Byte) : Word × Copro :=
  let clamp (v : Byte) : Byte := if 112 < v.toNat then 112 else v
  (0, { c with cart := c.cart.storeU16Le offKernelLayout (clamp bottom ++ clamp top) })

/-- `h_siphon_configure`: at most 32 bytes a line. -/
def siphonConfigure (bytes : Byte) (src : BitVec 16) (wram : Word) : Word × Copro :=
  let bytes := if 32 < bytes.toNat then 32 else bytes
  let buf := [bytes, byteOf src 0, byteOf src 1, byteOf wram 0, byteOf wram 1, byteOf wram 2 &&& 1]
  (0, { c with cart := c.cart.loadBlob offSiphonConfig buf })

/-! ## Uploads -/

/-- `h_hdma_upload`. -/
def hdmaUpload (channel : Byte) (len : BitVec 16) (src : GuestBytes) : Word × Copro :=
  if h : channel.toNat < 7 then
    if channel = 0 then (mgRErrInvalid, c)
    else if len = 0 then (mgROk, c)
    else
      match src with
      | none => (mgRErrInvalid, c)
      | some src =>
        match c.stageHdmaTable (readBytes src len.toNat) with
        | none => (mgRErrDmaBytes, c)
        | some (off, c) =>
          (mgROk, { c with
            state := c.state.setHdma ⟨channel.toNat, h⟩ fun ch => { ch with tableOff := off } })
  else
    (mgRErrInvalid, c)

/-- `h_chr_upload` and `h_chr_upload_transient` differ in the queue. -/
def chrUploadVia (queue : Copro → List Byte → Int × Copro) (bytes : BitVec 16) (src : GuestBytes) :
    Word × Copro :=
  if bytes = 0 then (mgROk, c)
  else
    match src with
    | none => (mgRErrInvalid, c)
    | some src =>
      let r := queue c (readBytes src bytes.toNat)
      (uploadResult r.1, r.2)

def chrUpload (vramWord bytes : BitVec 16) (src : GuestBytes) : Word × Copro :=
  c.chrUploadVia (fun c bs => c.queueDma bs bbusVmdatal dmap2b2r vramWord) bytes src

def chrUploadTransient (vramWord bytes : BitVec 16) (src : GuestBytes) : Word × Copro :=
  c.chrUploadVia (fun c bs => c.queueDmaTransient bs bbusVmdatal dmap2b2r vramWord) bytes src

/-! ## Frames -/

/-- Staged but not consumed, as the 32-bit difference. -/
def inFlight : Word := c.cart.frameStaged - c.cart.frameConsumed

/-- A commit is dropped when the pipeline is full, unless it cancels. -/
def CommitDropped (byte : Byte) : Prop := byte ≠ 0 ∧ c.pipelineMaxInflight ≤ c.inFlight

instance (byte : Byte) : Decidable (c.CommitDropped byte) := inferInstanceAs (Decidable (_ ∧ _))

def setFrameReady (byte : Byte) : Copro := { c with cart := c.cart.setFrameReady byte }

/-- `h_frame_commit`. -/
def frameCommit (byte : Byte) : Word × Copro :=
  if c.CommitDropped byte then (0, c.dropHdmaTables.dropPendingTransients)
  else (0, c.buildFrame.setFrameReady byte)

/-- `mg_state_reset_on_unload`. -/
def unload : Copro :=
  let c := c.mgStateReset
  { c with cart := ((c.cart.clearNmiVersion.clearHirqVersion).loadBlob offHirqSched
    (List.replicate 5 0)).loadBlob offKernelLayout (List.replicate 8 0) }

end Copro

/-! ## The machine -/

/-- A call that touches the shadows only. -/
inductive ShadowCall where
  | spriteSet (slot : Byte) (s : Option MgSpriteHost)
  | spriteMove (slot : Byte) (x : BitVec 16) (y : Byte)
  | spriteHide (slot : Byte)
  | spritesClearAll
  | spriteSizes (code : Byte)
  | spriteChrBase (base0 base1 : BitVec 16)
  | bgMode (mode : Byte)
  | bgSetup (layer : Byte) (tilemapWord : BitVec 16) (sizeCode : Byte) (chrWord : BitVec 16)
  | bgEnable (layer mask : Byte)
  | bgSetTile (layer x y : Byte) (word : BitVec 16)
  | bgBlit (layer x y : Byte) (cells : List (Option (BitVec 16)))
  | bgScroll (layer : Byte) (hx vy : BitVec 16)
  | mode7Set (p : Option MgState.MgMode7ParamsHost)
  | mode7Wrap (guest : Byte)
  | hdmaSetup (cfg : Option MgState.MgHdmaCfgHost)
  | hdmaEnable (channel : Byte) (on : Word)
  | paletteWrite (start : Byte) (count : BitVec 16) (colors : Nat → Option (BitVec 16))
  | setBlank (top bot : Byte)

def ShadowCall.apply (st : MgState) : ShadowCall → Option (Word × MgState)
  | .spriteSet slot s => st.spriteSet slot s
  | .spriteMove slot x y => st.spriteMove slot x y
  | .spriteHide slot => st.spriteHide slot
  | .spritesClearAll => some st.spritesClearAll
  | .spriteSizes code => some (st.spriteSizes code)
  | .spriteChrBase base0 base1 => some (st.spriteChrBase base0 base1)
  | .bgMode mode => some (st.bgMode mode)
  | .bgSetup layer tilemapWord sizeCode chrWord =>
    some (st.bgSetup layer tilemapWord sizeCode chrWord)
  | .bgEnable layer mask => some (st.bgEnable layer mask)
  | .bgSetTile layer x y word => some (st.bgSetTile layer x y word)
  | .bgBlit layer x y cells => some (st.bgBlit layer x y cells)
  | .bgScroll layer hx vy => some (st.bgScroll layer hx vy)
  | .mode7Set p => some (st.mode7Set p)
  | .mode7Wrap guest => some (st.mode7Wrap guest)
  | .hdmaSetup cfg => some (st.hdmaSetup cfg)
  | .hdmaEnable channel on => some (st.hdmaEnable channel on)
  | .paletteWrite start count colors => some (st.paletteWrite start count.toNat colors)
  | .setBlank top bot => some (st.setBlank top bot)

theorem ShadowCall.keeps {st : MgState} {call : ShadowCall} {r : Word × MgState}
    (hr : call.apply st = some r) : st.Keeps r.2 := by
  have hsizes : mgOamBytes = 544 ∧ mgCgramBytes = 512 ∧ mgBgTilemapBytes = 2048 := ⟨rfl, rfl, rfl⟩
  have hslot : ∀ {slot : Byte} {n k : Nat}, oamSlot slot n = some k → k < n := by
    intro slot n k hk
    unfold oamSlot at hk
    split at hk
    · cases hk
      assumption
    · cases hk
  cases call with
  | spriteSet slot s =>
    obtain _ | s := s
    · cases hr
      exact .refl
    · obtain ⟨k, hk, rfl⟩ := Option.map_eq_some_iff.mp hr
      have hlt := hslot hk
      refine .setOam _ ((Mem.SameFrom.copy ?_).trans (.update _ ?_))
      · have hlen : [byteOf s.x 0, s.y, byteOf s.tile 0, s.attrs].length = 4 := rfl
        omega
      · unfold hiByteOff
        omega
  | spriteMove slot x y =>
    obtain ⟨k, hk, rfl⟩ := Option.map_eq_some_iff.mp hr
    have hlt := hslot hk
    refine .setOam _ ((Mem.SameFrom.copy ?_).trans (.update _ ?_))
    · have hlen : [byteOf x 0, y].length = 2 := rfl
      omega
    · unfold hiByteOff
      omega
  | spriteHide slot =>
    obtain ⟨k, hk, rfl⟩ := Option.map_eq_some_iff.mp hr
    have hlt := hslot hk
    exact .setOam _ (.update _ (by omega))
  | spritesClearAll =>
    cases hr
    refine .setOam _ fun a ha => ?_
    dsimp only
    rw [if_neg fun hc => absurd hc.2 (by omega)]
  | spriteSizes code | spriteChrBase base0 base1 | bgMode mode | mode7Wrap guest =>
    cases hr
    exact ⟨⟨.refl, .refl, fun _ => .refl⟩, fun h => ⟨h.cgram, h.bg⟩, id⟩
  | bgSetup layer tilemapWord sizeCode chrWord | bgEnable layer mask | bgScroll layer hx vy =>
    cases hr
    refine .onLayer fun l => ?_
    dsimp only
    refine .setBg l .refl ?_
    exact id
  | bgSetTile layer x y word =>
    cases hr
    refine .onLayer fun l => ?_
    split
    · exact .refl
    · dsimp only
      refine MgState.Keeps.trans (.setBg l (.store word ?_) ?_) (.dirtyBg ..)
      · omega
      · exact id
  | bgBlit layer x y cells =>
    cases hr
    refine .onLayer fun l => ?_
    have hmap := MgState.blitCells_sameFrom (st.bg l).shadow ((y.toNat * 32 + x.toNat) * 2) (by omega)
      cells
    have hset : st.Keeps (st.setBg l fun bg => { bg with
      shadow := (MgState.blitCells (st.bg l).shadow ((y.toNat * 32 + x.toNat) * 2) cells).1 }) :=
      .setBg l hmap id
    dsimp only
    split
    · dsimp only
      exact hset.trans (.dirtyBg ..)
    · exact hset
  | mode7Set p =>
    cases hr
    obtain _ | p := p
    · exact .refl
    · unfold MgState.mode7Set
      dsimp only
      refine MgState.Keeps.trans ?_ (.setBg 0 .refl ?_)
      · exact ⟨⟨.refl, .refl, fun _ => .refl⟩, fun h => ⟨h.cgram, h.bg⟩, id⟩
      · exact id
  | hdmaSetup cfg =>
    cases hr
    obtain _ | cfg := cfg
    · exact .refl
    · exact .onChannel
  | hdmaEnable channel on =>
    cases hr
    exact .onChannel
  | paletteWrite start count colors =>
    cases hr
    unfold MgState.paletteWrite
    split
    · exact .refl
    · dsimp only
      generalize hn : (if 256 < start.toNat + count.toNat then _ else _) = n
      have hfit : start.toNat + n ≤ 256 := by
        have hstart := start.isLt
        split at hn <;> omega
      have hcgram := MgState.writeColors_sameFrom st.cgramShadow start.toNat
        ((List.range n).map colors) (by rw [List.length_map, List.length_range]; exact hfit)
      generalize MgState.writeColors _ _ _ = r at hcgram ⊢
      split
      · exact ⟨⟨.refl, hcgram, fun _ => .refl⟩,
          fun h => ⟨DirtyRange.mark_hi_le _ _ h.cgram, h.bg⟩, id⟩
      · exact ⟨⟨.refl, hcgram, fun _ => .refl⟩, fun h => ⟨h.cgram, h.bg⟩, id⟩
  | setBlank top bot =>
    cases hr
    unfold MgState.setBlank
    split
    · exact .refl
    · exact ⟨⟨.refl, .refl, fun _ => .refl⟩, fun h => ⟨h.cgram, h.bg⟩, fun _ => Nat.not_lt.mp ‹_›⟩

inductive MgCall where
  | shadow (call : ShadowCall)
  | stagePayload (off size : Word) (src : GuestBytes)
  | stageDmaSlot (slot packedLo packedHi : Word)
  | nmiInstall (size : Word) (src : GuestBytes)
  | hirqInstall (size : Word) (src : GuestBytes)
  | kernelLayout (top bottom : Byte)
  | siphonConfigure (bytes : Byte) (src : BitVec 16) (wram : Word)
  | hdmaUpload (channel : Byte) (len : BitVec 16) (src : GuestBytes)
  | chrUpload (vramWord bytes : BitVec 16) (src : GuestBytes)
  | chrUploadTransient (vramWord bytes : BitVec 16) (src : GuestBytes)
  | ppuCleanSlate
  | frameCommit (byte : Byte)

def MgCall.apply (c : Copro) : MgCall → Option (Word × Copro)
  | .shadow call => (call.apply c.state).map fun r => (r.1, { c with state := r.2 })
  | .stagePayload off size src => some (c.stagePayload off size src)
  | .stageDmaSlot slot packedLo packedHi => some (c.stageDmaSlot slot packedLo packedHi)
  | .nmiInstall size src => some (c.nmiInstall size src)
  | .hirqInstall size src => some (c.hirqInstall size src)
  | .kernelLayout top bottom => some (c.kernelLayout top bottom)
  | .siphonConfigure bytes src wram => some (c.siphonConfigure bytes src wram)
  | .hdmaUpload channel len src => some (c.hdmaUpload channel len src)
  | .chrUpload vramWord bytes src => some (c.chrUpload vramWord bytes src)
  | .chrUploadTransient vramWord bytes src => some (c.chrUploadTransient vramWord bytes src)
  | .ppuCleanSlate => some (mgROk, c.ppuCleanSlate)
  | .frameCommit byte => some (c.frameCommit byte)

/-! ## What a call changes -/

namespace MgCall

variable {c : Copro}

/-- The calls that write to the window. -/
def Loads : MgCall → Prop
  | .stagePayload .. | .stageDmaSlot .. | .nmiInstall .. | .hirqInstall .. | .kernelLayout ..
  | .siphonConfigure .. | .hdmaUpload .. => True
  | _ => False

/-- The window gets new bytes, and the table pool and the channels may follow. -/
structure Loaded (c c' : Copro) : Prop where
  regs : CartWindow.SameRegs c.cart c'.cart
  window : Mem.SameFrom cartWindowBytes c.cart.window c'.cart.window
  tables : c.hdmaTablesUsed ≤ hdmaTablesBytes → c'.hdmaTablesUsed ≤ hdmaTablesBytes
  rest : ∃ hdma, c' = { c with
    cart := c'.cart, hdmaTablesUsed := c'.hdmaTablesUsed, state := { c.state with hdma := hdma } }

theorem Loaded.refl : Loaded c c := ⟨.refl, .refl, id, _, rfl⟩

theorem Loaded.ofCart {w : CartWindow} (h : CartWindow.SameRegs c.cart w)
    (h' : Mem.SameFrom cartWindowBytes c.cart.window w.window) : Loaded c { c with cart := w } :=
  ⟨h, h', id, _, rfl⟩

theorem Loaded.blob (off : Nat) (src : List Byte) :
    Loaded c { c with cart := c.cart.loadBlob off src } :=
  .ofCart (CartWindow.loadBlob_regs ..) (CartWindow.loadBlob_sameFrom _ _)

theorem Loaded.installCode (off : Nat) (size : Word) (src : GuestBytes) {version : Nat}
    (hv : version < cartWindowBytes) :
    Loaded c (c.installCode off size src fun w => w.bumpVersion version).2 := by
  unfold Copro.installCode
  split
  · exact .refl
  · split
    · exact .refl
    · exact .ofCart (((CartWindow.loadBlob_regs ..).trans (CartWindow.loadBlob_regs ..)).trans
        (CartWindow.bumpVersion_regs _)) (((CartWindow.loadBlob_sameFrom _ _).trans
        (CartWindow.loadBlob_sameFrom _ _)).trans (.update _ hv))

theorem Loaded.hdmaUpload (channel : Byte) (len : BitVec 16) (src : GuestBytes) :
    Loaded c (c.hdmaUpload channel len src).2 := by
  unfold Copro.hdmaUpload
  split
  · split
    · exact .refl
    · split
      · exact .refl
      · split
        · exact .refl
        · unfold Copro.stageHdmaTable
          split
          · exact .refl
          · rename_i hsome
            split at hsome
            · cases hsome
              exact ⟨.refl, .refl, id, _, rfl⟩
            · split at hsome
              · cases hsome
              · cases hsome
                exact ⟨CartWindow.loadBlob_regs .., CartWindow.loadBlob_sameFrom _ _,
                  fun _ => Nat.le_of_not_lt ‹_›, _, rfl⟩
  · exact .refl

theorem apply_loads {mg : MgCall} {r : Word × Copro} (hr : mg.apply c = some r) (hl : mg.Loads) :
    Loaded c r.2 := by
  cases mg with
  | stagePayload off size src =>
    cases hr
    unfold Copro.stagePayload
    split
    · exact .refl
    · split
      · exact .refl
      · split
        · exact .refl
        · exact .blob ..
  | stageDmaSlot slot packedLo packedHi =>
    cases hr
    unfold Copro.stageDmaSlot
    split
    · exact .refl
    · exact .ofCart (CartWindow.setDmaSlot_regs ..) (CartWindow.setDmaSlot_sameFrom _ _)
  | nmiInstall size src | hirqInstall size src =>
    cases hr
    exact .installCode _ _ _ (by decide)
  | kernelLayout top bottom =>
    cases hr
    exact .ofCart (CartWindow.storeU16Le_regs ..) (CartWindow.storeU16Le_sameFrom _ _)
  | siphonConfigure bytes src wram =>
    cases hr
    exact .blob ..
  | hdmaUpload channel len src =>
    cases hr
    exact .hdmaUpload ..
  | _ => exact hl.elim

end MgCall

namespace Copro

variable {c : Copro}

theorem chrUploadVia_cases (c : Copro) (queue : Copro → List Byte → Int × Copro) (bytes : BitVec 16)
    (src : GuestBytes) : (c.chrUploadVia queue bytes src).2 = c ∨
      ∃ bs, (c.chrUploadVia queue bytes src).2 = (queue c bs).2 := by
  unfold chrUploadVia
  split
  · exact .inl rfl
  · split
    · exact .inl rfl
    · exact .inr ⟨_, rfl⟩

theorem chrUploadTransient_cases (c : Copro) (vramWord bytes : BitVec 16) (src : GuestBytes) :
    (c.chrUploadTransient vramWord bytes src).2 = c ∨ ∃ p : PendingTransientDma,
      c.pending.length < mgPendingTransientMax ∧
        c.pendingBufUsed + p.bytes.length ≤ mgPendingTransientBufBytes ∧
          (c.chrUploadTransient vramWord bytes src).2 = { c with pending := c.pending ++ [p] } := by
  rcases chrUploadVia_cases c (fun c bs => c.queueDmaTransient bs bbusVmdatal dmap2b2r vramWord) bytes
    src with heq | ⟨bs, heq⟩
  · exact .inl heq
  · unfold chrUploadTransient
    rw [heq]
    unfold queueDmaTransient
    split
    · exact .inl rfl
    · split
      · exact .inl rfl
      · exact .inr ⟨⟨bs, vramWord, bbusVmdatal, dmap2b2r⟩, Nat.not_le.mp ‹_›, Nat.not_lt.mp ‹_›, rfl⟩

end Copro

inductive CartEvent where
  | call (mg : MgCall)
  /-- The console reads the cartridge. -/
  | read (snesAddr : BitVec 24)
  | unload

/-- What the caller gets, and the state after it. -/
def CartEvent.apply (c : Copro) : CartEvent → Option (Word × Copro)
  | .call mg => mg.apply c
  | .read snesAddr =>
    let r := c.cartWindowRead snesAddr
    some (r.1.setWidth 32, r.2)
  | .unload => some (0, c.unload)

def Copro.step (c : Copro) (e : CartEvent) : Option Copro := (e.apply c).map (·.2)

end Microgarbage.Cart
