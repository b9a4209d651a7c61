import Microgarbage.Cart.Staged

/-!
# The book of the staged bytes

What a commit sends is decided by a small part of the state: the payload buffer, the staged list, and
how far both go back when the next frame is built. Every call changes this part in one of five ways.
Beside it a run keeps the journal of the transfers that were accepted, and the book is a layout of the
journal: the slots lie one behind the other, and each holds the bytes of its transfer.
-/

namespace Microgarbage.Cart

open Lib List

/-- The arguments of `stage_dma`. -/
abbrev DmaRequest := PendingTransientDma

def DmaRequest.slotAt (r : DmaRequest) (off : Nat) : StagedSlot :=
  ⟨r.bbus, r.dmap, r.prep, BitVec.ofNat 16 off, BitVec.ofNat 16 r.bytes.length⟩

structure Book where
  hostPayload : Mem
  payloadUsed : Nat
  slotUsed : Nat
  payloadCheckpoint : Nat
  slotCheckpoint : Nat
  staged : List StagedSlot
  stagedCheckpoint : Nat

def Copro.book (c : Copro) : Book :=
  { c with }

namespace Book

variable (b : Book)

/-- The transfer gets a slot. -/
def Accepts (r : DmaRequest) : Prop :=
  b.staged.length < mgMaxStagedSlots ∧ r.bytes.length ≠ 0 ∧
    b.payloadUsed + r.bytes.length ≤ payloadBytes

instance (r : DmaRequest) : Decidable (b.Accepts r) := inferInstanceAs (Decidable (_ ∧ _ ∧ _))

def append (r : DmaRequest) : Book :=
  { b with
    hostPayload := b.hostPayload.copy b.payloadUsed r.bytes
    payloadUsed := b.payloadUsed + r.bytes.length
    slotUsed := b.slotUsed + 1
    staged := b.staged ++ [r.slotAt b.payloadUsed] }

def stage (r : DmaRequest) : Book := if b.Accepts r then b.append r else b

/-- The transfers that get a slot when all of them are tried in order. -/
def accepted : Book → List DmaRequest → List DmaRequest
  | _, [] => []
  | b, r :: rs => if b.Accepts r then r :: accepted (b.append r) rs else accepted b rs

def checkpoint : Book :=
  { b with
    payloadCheckpoint := b.payloadUsed
    slotCheckpoint := b.slotUsed
    stagedCheckpoint := b.staged.length }

def rewind : Book :=
  { b with
    payloadUsed := b.payloadCheckpoint
    slotUsed := b.slotCheckpoint
    staged := b.staged.take b.stagedCheckpoint }

/-- After a reset nothing is staged; a clean slate leaves the slot of its VRAM clear. -/
def cleared (m : Mem) (bytes slots : Nat) : Book := ⟨m, bytes, slots, bytes, slots, [], 0⟩

end Book

namespace Book

variable {b : Book} {r : DmaRequest}

theorem stage_of_accepts (h : b.Accepts r) : b.stage r = b.append r := if_pos h

theorem stage_of_not (h : ¬ b.Accepts r) : b.stage r = b := if_neg h

theorem accepted_of_accepts (h : b.Accepts r) (rs : List DmaRequest) :
    b.accepted (r :: rs) = r :: (b.append r).accepted rs := if_pos h

theorem accepted_of_not (h : ¬ b.Accepts r) (rs : List DmaRequest) :
    b.accepted (r :: rs) = b.accepted rs := if_neg h

end Book

/-! ## The transfers of a frame -/

namespace MgState

variable (st : MgState)

def cgramRequest : List DmaRequest :=
  let r := st.cgramDirty
  if r.Dirty then
    [⟨st.cgramShadow.bytes r.lo (r.hi - r.lo), BitVec.ofNat 16 (r.lo / 2 % 256), bbusCgdata, dmap1b1r⟩]
  else []

def oamRequest : List DmaRequest :=
  if st.oamDirty.Dirty then [⟨st.oamShadow.bytes 0 mgOamBytes, 0, bbusOamdata, dmap1b1r⟩] else []

def layerRequest (i : Fin 4) : List DmaRequest :=
  let bg := st.bg i
  if bg.dirty.Dirty ∧ bg.enabled then
    [⟨bg.shadow.bytes bg.dirty.lo (bg.dirty.hi - bg.dirty.lo),
      bg.tilemapWord + BitVec.ofNat 16 (bg.dirty.lo / 2), bbusVmdatal, dmap2b2r⟩]
  else []

end MgState

namespace Copro

variable {c : Copro}

/-- Palette, sprites, layers, and the transients behind them. -/
def frameRequests (c : Copro) : List DmaRequest :=
  c.state.cgramRequest ++ c.state.oamRequest ++ (List.finRange 4).flatMap c.state.layerRequest ++
    c.pending

theorem stageDma_book (c : Copro) (r : DmaRequest) :
    (c.stageDma r.bytes r.bbus r.dmap r.prep).2.book = c.book.stage r := by
  have hdef : c.book.Accepts r ↔ c.staged.length < mgMaxStagedSlots ∧ r.bytes.length ≠ 0 ∧
      c.payloadUsed + r.bytes.length ≤ payloadBytes := Iff.rfl
  rcases stageDma_cases c r.bytes r.bbus r.dmap r.prep with ⟨heq, hwhy⟩ | ⟨heq, hok⟩
  · rw [heq, Book.stage_of_not (by rw [hdef]; omega)]
  · rw [heq, Book.stage_of_accepts (hdef.mpr hok)]
    rfl

theorem stageCgram_book : c.stageCgram.book = c.state.cgramRequest.foldl Book.stage c.book := by
  unfold stageCgram MgState.cgramRequest
  dsimp only
  split
  · exact stageDma_book c ⟨_, _, _, _⟩
  · rfl

theorem stageOam_book : c.stageOam.book = c.state.oamRequest.foldl Book.stage c.book := by
  unfold stageOam MgState.oamRequest
  split
  · have hbook := stageDma_book c ⟨c.state.oamShadow.bytes 0 mgOamBytes, 0, bbusOamdata, dmap1b1r⟩
    dsimp only at hbook ⊢
    generalize (c.stageDma _ _ _ _).2 = c' at hbook ⊢
    exact hbook
  · rfl

theorem stageLayer_book (i : Fin 4) :
    (c.stageLayer i).book = (c.state.layerRequest i).foldl Book.stage c.book := by
  unfold stageLayer MgState.layerRequest
  dsimp only
  split
  · exact stageDma_book c ⟨_, _, _, _⟩
  · rfl

theorem stageDma_rest (src : List Byte) (bbus dmap : Byte) (prep : BitVec 16) :
    (c.stageDma src bbus dmap prep).2.state = c.state ∧
      (c.stageDma src bbus dmap prep).2.pending = c.pending := by
  rcases stageDma_cases c src bbus dmap prep with ⟨heq, -⟩ | ⟨heq, -⟩
  · rw [heq]
    exact ⟨rfl, rfl⟩
  · rw [heq]
    exact ⟨rfl, rfl⟩

/-- What is sent for one shadow does not change what is sent for the others. -/
theorem stageCgram_rest : c.stageCgram.state.oamRequest = c.state.oamRequest ∧
    c.stageCgram.state.layerRequest = c.state.layerRequest ∧
      c.stageCgram.state.blankLines = c.state.blankLines ∧ c.stageCgram.pending = c.pending := by
  unfold stageCgram
  dsimp only
  split
  · obtain ⟨hstate, hpending⟩ := stageDma_rest (c := c)
      (c.state.cgramShadow.bytes c.state.cgramDirty.lo (c.state.cgramDirty.hi - c.state.cgramDirty.lo))
      bbusCgdata dmap1b1r (BitVec.ofNat 16 (c.state.cgramDirty.lo / 2 % 256))
    rw [hstate]
    exact ⟨rfl, rfl, rfl, hpending⟩
  · exact ⟨rfl, rfl, rfl, rfl⟩

theorem stageOam_rest : c.stageOam.state.layerRequest = c.state.layerRequest ∧
    c.stageOam.state.blankLines = c.state.blankLines ∧ c.stageOam.pending = c.pending := by
  unfold stageOam
  dsimp only
  split
  · obtain ⟨hstate, hpending⟩ := stageDma_rest (c := c) (c.state.oamShadow.bytes 0 mgOamBytes)
      bbusOamdata dmap1b1r 0
    rw [hstate]
    exact ⟨rfl, rfl, hpending⟩
  · exact ⟨rfl, rfl, rfl⟩

theorem stageLayer_rest (i : Fin 4) :
    (∀ l, l ≠ i → (c.stageLayer i).state.layerRequest l = c.state.layerRequest l) ∧
      (c.stageLayer i).state.blankLines = c.state.blankLines ∧
        (c.stageLayer i).pending = c.pending := by
  unfold stageLayer
  dsimp only
  split
  · obtain ⟨hstate, hpending⟩ := stageDma_rest (c := c)
      ((c.state.bg i).shadow.bytes (c.state.bg i).dirty.lo
        ((c.state.bg i).dirty.hi - (c.state.bg i).dirty.lo)) bbusVmdatal dmap2b2r
      ((c.state.bg i).tilemapWord + BitVec.ofNat 16 ((c.state.bg i).dirty.lo / 2))
    rw [hstate]
    refine ⟨fun l hl => ?_, rfl, hpending⟩
    unfold MgState.layerRequest MgState.setBg
    dsimp only
    rw [Function.update_of_ne hl]
  · exact ⟨fun _ _ => rfl, rfl, rfl⟩

theorem stageLayers_book : c.stageLayers.book =
    ((List.finRange 4).flatMap c.state.layerRequest).foldl Book.stage c.book ∧
      c.stageLayers.state.blankLines = c.state.blankLines ∧ c.stageLayers.pending = c.pending := by
  have key : ∀ (l : List (Fin 4)) (c : Copro), l.Nodup →
      (l.foldl stageLayer c).book = (l.flatMap c.state.layerRequest).foldl Book.stage c.book ∧
        (l.foldl stageLayer c).state.blankLines = c.state.blankLines ∧
          (l.foldl stageLayer c).pending = c.pending := by
    intro l
    induction l with
    | nil => exact fun _ _ => ⟨rfl, rfl, rfl⟩
    | cons i l ih =>
      intro c hl
      rw [nodup_cons] at hl
      obtain ⟨hother, hblank, hpending⟩ := stageLayer_rest (c := c) i
      obtain ⟨hbook, hlines, hrest⟩ := ih (c.stageLayer i) hl.2
      have hsame : l.flatMap (c.stageLayer i).state.layerRequest = l.flatMap c.state.layerRequest :=
        flatMap_congr fun k hk => hother k fun h => hl.1 (h ▸ hk)
      rw [foldl_cons, flatMap_cons, foldl_append, hbook, hsame, stageLayer_book]
      exact ⟨rfl, hlines.trans hblank, hrest.trans hpending⟩
  exact key _ c (nodup_finRange 4)

theorem flushPendingTransients_book : c.flushPendingTransients.book =
    c.pending.foldl Book.stage c.book ∧
      c.flushPendingTransients.state.blankLines = c.state.blankLines := by
  have key : ∀ (l : List PendingTransientDma) (c : Copro),
      (l.foldl (fun c p => (c.stageDma p.bytes p.bbus p.dmap p.prep).2) c).book =
        l.foldl Book.stage c.book ∧
      (l.foldl (fun c p => (c.stageDma p.bytes p.bbus p.dmap p.prep).2) c).state = c.state := by
    intro l
    induction l with
    | nil => exact fun _ => ⟨rfl, rfl⟩
    | cons r l ih =>
      intro c
      obtain ⟨hbook, hstate⟩ := ih (c.stageDma r.bytes r.bbus r.dmap r.prep).2
      rw [foldl_cons, foldl_cons, hbook, stageDma_book]
      exact ⟨rfl, hstate.trans (stageDma_rest ..).1⟩
  obtain ⟨hbook, hstate⟩ := key c.pending c
  exact ⟨hbook, congrArg MgState.blankLines hstate⟩

theorem prepareFrame_book : c.prepareFrame.book = c.book.rewind ∧
    c.prepareFrame.state.blankLines = c.state.blankLines ∧ c.prepareFrame.pending = c.pending := by
  have hbook : c.prepareFrame.book = c.dropCleanSlate.reuploadCgram.reuploadBg.rewind.book := rfl
  have hkept : c.dropCleanSlate.reuploadCgram.reuploadBg.book = c.book := by
    unfold reuploadBg reuploadCgram dropCleanSlate
    split <;> split <;> split <;> rfl
  have hrewind : ∀ c' : Copro, c'.rewind.book = c'.book.rewind := fun _ => rfl
  refine ⟨?_, ?_, congrArg Load.pending prepareFrame_load⟩
  · rw [hbook, hrewind, hkept]
  · rw [prepareFrame_state]
    rfl

/-- Building a frame goes back to the direct uploads and tries the transfers of the frame in order. -/
theorem stageFrame_book :
    c.stageFrame.book = c.prepareFrame.frameRequests.foldl Book.stage c.book.rewind ∧
      c.stageFrame.state.blankLines = c.state.blankLines := by
  obtain ⟨hbook₁, hblank₁, -⟩ := prepareFrame_book (c := c)
  obtain ⟨hoam, hlayer₂, hblank₂, hpend₂⟩ := stageCgram_rest (c := c.prepareFrame)
  obtain ⟨hlayer₃, hblank₃, hpend₃⟩ := stageOam_rest (c := c.prepareFrame.stageCgram)
  obtain ⟨hbook₄, hblank₄, hpend₄⟩ := stageLayers_book (c := c.prepareFrame.stageCgram.stageOam)
  obtain ⟨hbook₅, hblank₅⟩ := flushPendingTransients_book
    (c := c.prepareFrame.stageCgram.stageOam.stageLayers)
  unfold stageFrame
  rw [hbook₅, hpend₄, hpend₃, hpend₂, hbook₄, hlayer₃, hlayer₂, stageOam_book, hoam, stageCgram_book,
    hbook₁, hblank₅, hblank₄, hblank₃, hblank₂, hblank₁]
  refine ⟨?_, rfl⟩
  unfold frameRequests
  rw [foldl_append, foldl_append, foldl_append]

/-- Packing the frame leaves the book alone, and all transients are gone. -/
theorem buildFrame_rest : c.buildFrame.book = c.stageFrame.book ∧
    c.buildFrame.state.blankLines = c.stageFrame.state.blankLines ∧ c.buildFrame.pending = [] := by
  have hflush : ∀ c' : Copro, c'.flushSubframes.book = c'.book ∧
      c'.flushSubframes.state = c'.state ∧ c'.flushSubframes.pending = c'.pending := by
    intro c'
    unfold flushSubframes publishFrame
    split
    · split <;> exact ⟨rfl, rfl, rfl⟩
    · split <;> exact ⟨rfl, rfl, rfl⟩
  have hremember : ∀ c' : Copro, c'.rememberSlots.book = c'.book ∧
      c'.rememberSlots.state = c'.state ∧ c'.rememberSlots.pending = c'.pending :=
    fun _ => ⟨rfl, rfl, rfl⟩
  have hempty : ∀ c' : Copro, c'.flushPendingTransients.pending = [] := fun _ => rfl
  obtain ⟨hbook, hstate, hpending⟩ := hflush c.stageFrame
  obtain ⟨hbook', hstate', hpending'⟩ := hremember c.stageFrame.flushSubframes
  refine ⟨hbook'.trans hbook, ?_, hpending'.trans (hpending.trans (hempty _))⟩
  exact congrArg MgState.blankLines (hstate'.trans hstate)

theorem frameDone_rest : c.frameDone.book = c.book ∧ c.frameDone.pending = c.pending ∧
    c.frameDone.state = c.state := by
  unfold frameDone advanceSubframe
  dsimp only
  split
  · exact ⟨rfl, rfl, rfl⟩
  · split
    · exact ⟨rfl, rfl, rfl⟩
    · split <;> exact ⟨rfl, rfl, rfl⟩

/-- With a descriptor and the bytes to spare a transfer is not refused. -/
theorem stageDma_fits {src : List Byte} {bbus dmap : Byte} {prep : BitVec 16}
    (hcap : c.staged.length < mgMaxStagedSlots) (hbytes : c.payloadUsed + src.length ≤ payloadBytes) :
    (c.stageDma src bbus dmap prep).1 = true := by
  unfold stageDma
  rw [if_neg (Nat.not_le.mpr hcap)]
  split
  · rfl
  · unfold allocPayload
    rw [if_neg (Nat.not_lt.mpr hbytes)]

theorem queueDma_rest (src : List Byte) (bbus dmap : Byte) (prep : BitVec 16) :
    (c.queueDma src bbus dmap prep).2.state = c.state ∧
      (c.queueDma src bbus dmap prep).2.pending = c.pending := by
  rcases queueDma_cases c src bbus dmap prep with heq | heq
  · rw [heq]
    exact ⟨rfl, rfl⟩
  · rw [heq]
    exact stageDma_rest ..

theorem queueDma_book (r : DmaRequest) : (c.queueDma r.bytes r.bbus r.dmap r.prep).2.book =
    if c.slotUsed < 8 ∧ c.payloadUsed + r.bytes.length ≤ payloadBytes ∧
        c.staged.length < mgMaxStagedSlots then
      (c.book.stage r).checkpoint
    else c.book := by
  have hbook := stageDma_book c r
  unfold queueDma
  by_cases hslot : 8 ≤ c.slotUsed
  · rw [if_pos hslot, if_neg (by omega)]
  rw [if_neg hslot]
  by_cases hfull : payloadBytes < c.payloadUsed + r.bytes.length
  · rw [if_pos hfull, if_neg (by omega)]
  rw [if_neg hfull]
  dsimp only
  by_cases hcap : mgMaxStagedSlots ≤ c.staged.length
  · have hfalse : c.stageDma r.bytes r.bbus r.dmap r.prep = (false, c) := if_pos hcap
    rw [hfalse, if_neg Bool.false_ne_true, if_neg (by omega)]
  · have htrue : (c.stageDma r.bytes r.bbus r.dmap r.prep).1 = true :=
      stageDma_fits (Nat.not_le.mp hcap) (Nat.not_lt.mp hfull)
    rw [if_pos htrue, if_pos (by omega), ← hbook]
    rfl

end Copro

/-! ## The layout -/

/-- The slots lie in order from `lo` to `hi`, and each has the bytes of its transfer. -/
inductive Laid (m : Mem) (hi : Nat) : Nat → List StagedSlot → List DmaRequest → Prop
  | nil {lo : Nat} (h : lo ≤ hi) : Laid m hi lo [] []
  | cons {lo off : Nat} {r : DmaRequest} {ss : List StagedSlot} {rs : List DmaRequest} (h : lo ≤ off)
      (hpos : 1 ≤ r.bytes.length) (hbytes : m.bytes off r.bytes.length = r.bytes)
      (hrest : Laid m hi (off + r.bytes.length) ss rs) : Laid m hi lo (r.slotAt off :: ss) (r :: rs)

namespace Laid

variable {m m' : Mem} {lo hi : Nat} {ss : List StagedSlot} {rs : List DmaRequest}

theorem le (h : Laid m hi lo ss rs) : lo ≤ hi := by
  induction h with
  | nil h => exact h
  | cons h _ _ _ ih => omega

theorem length_eq (h : Laid m hi lo ss rs) : ss.length = rs.length := by
  induction h with
  | nil => rfl
  | cons _ _ _ _ ih => rw [length_cons, length_cons, ih]

theorem congr (h : Laid m hi lo ss rs) (hm : ∀ a, a < hi → m' a = m a) : Laid m' hi lo ss rs := by
  induction h with
  | nil h => exact .nil h
  | cons h hpos hbytes hrest ih =>
    have hle := hrest.le
    refine .cons h hpos ?_ ih
    exact (Mem.bytes_congr fun i hi => hm _ (by omega)).trans hbytes

theorem append (h : Laid m hi lo ss rs) {r : DmaRequest} (hr : 1 ≤ r.bytes.length) :
    Laid (m.copy hi r.bytes) (hi + r.bytes.length) lo (ss ++ [r.slotAt hi]) (rs ++ [r]) := by
  induction h with
  | nil h => exact .cons h hr (Mem.bytes_copy ..) (.nil (Nat.le_refl _))
  | cons h hpos hbytes hrest ih =>
    have hle := hrest.le
    refine .cons h hpos ?_ ih
    rw [Mem.bytes_copy_out (.inl hle)]
    exact hbytes

theorem copy_out (h : Laid m hi lo ss rs) {p : Nat} (hp : hi ≤ p) (bs : List Byte) :
    Laid (m.copy p bs) hi lo ss rs :=
  h.congr fun _ ha => Mem.copy_out (.inl (by omega))

theorem slotAt_size {r : DmaRequest} (off : Nat) (h : r.bytes.length < 2 ^ 16) :
    (r.slotAt off).size.toNat = r.bytes.length := Nat.mod_eq_of_lt h

theorem sum_le (h : Laid m hi lo ss rs) (hhi : hi < 2 ^ 16) :
    lo + (ss.map StagedSlot.transferBytes).sum ≤ hi := by
  induction h with
  | nil h => exact h
  | cons h hpos hbytes hrest ih =>
    rename_i lo off r ss rs
    have hle := hrest.le
    have hsize := slotAt_size (r := r) off (by omega)
    have htransfer : (r.slotAt off).transferBytes = r.bytes.length := by
      unfold StagedSlot.transferBytes
      rw [if_neg ?_, hsize]
      intro hzero
      have hnone : (0 : BitVec 16).toNat = 0 := rfl
      rw [hzero, hnone] at hsize
      omega
    rw [map_cons, sum_cons, htransfer]
    omega

end Laid

/-! ## What each call keeps -/

/-- The transfers that one frame tries beside the direct uploads. -/
def frameSlots : Nat := 1 + 1 + 4 + mgPendingTransientMax

namespace Book

/-- The book is a layout of the journal, and its checkpoint is one of the journal's start. -/
structure Ok (b : Book) (j : List DmaRequest) : Prop where
  used : b.payloadUsed ≤ payloadBytes
  rewound : b.payloadCheckpoint ≤ b.payloadUsed
  /-- A VRAM clear is counted as a slot and is not in the staged list. -/
  slots : b.staged.length ≤ b.slotUsed ∧ b.slotUsed ≤ b.staged.length + 1
  slotsKept : b.stagedCheckpoint ≤ b.slotCheckpoint ∧ b.slotCheckpoint ≤ b.stagedCheckpoint + 1
  direct : b.slotCheckpoint ≤ 8
  kept : b.stagedCheckpoint ≤ b.staged.length
  laid : Laid b.hostPayload b.payloadUsed 0 b.staged j
  laidKept : Laid b.hostPayload b.payloadCheckpoint 0 (b.staged.take b.stagedCheckpoint)
    (j.take b.stagedCheckpoint)

namespace Ok

variable {b : Book} {j : List DmaRequest} {r : DmaRequest}

theorem cleared (m : Mem) {bytes slots : Nat} (hb : bytes ≤ 2) (hs : slots ≤ 1) :
    Ok (Book.cleared m bytes slots) [] where
  used := Nat.le_trans hb (by decide)
  rewound := Nat.le_refl _
  slots := ⟨Nat.zero_le _, hs⟩
  slotsKept := ⟨Nat.zero_le _, hs⟩
  direct := Nat.le_trans hs (by decide)
  kept := Nat.le_refl _
  laid := .nil (Nat.zero_le _)
  laidKept := .nil (Nat.zero_le _)

theorem append (h : Ok b j) (hr : b.Accepts r) : Ok (b.append r) (j ++ [r]) := by
  obtain ⟨-, hpos, hroom⟩ := hr
  have hlen := h.laid.length_eq
  have hkept := h.kept
  have hslots := h.slots
  refine ⟨hroom, Nat.le_trans h.rewound (Nat.le_add_right _ _), ?_, h.slotsKept, h.direct, ?_,
    h.laid.append (by omega), ?_⟩
  · simp only [Book.append, length_append, length_singleton]
    omega
  · simp only [Book.append, length_append, length_singleton]
    omega
  · have hss : (b.staged ++ [r.slotAt b.payloadUsed]).take b.stagedCheckpoint =
        b.staged.take b.stagedCheckpoint := take_append_of_le_length hkept
    have hj : (j ++ [r]).take b.stagedCheckpoint = j.take b.stagedCheckpoint :=
      take_append_of_le_length (hlen ▸ hkept)
    have hlaid := h.laidKept.copy_out h.rewound r.bytes
    simp only [Book.append]
    rw [hss, hj]
    exact hlaid

theorem stageAll (h : Ok b j) (rs : List DmaRequest) :
    Ok (rs.foldl Book.stage b) (j ++ b.accepted rs) ∧
      (rs.foldl Book.stage b).staged.length ≤ b.staged.length + rs.length ∧
      (rs.foldl Book.stage b).stagedCheckpoint = b.stagedCheckpoint := by
  induction rs generalizing b j with
  | nil => exact ⟨(append_nil j).symm ▸ h, Nat.le_refl _, rfl⟩
  | cons r rs ih =>
    rw [foldl_cons, length_cons]
    by_cases hr : b.Accepts r
    · obtain ⟨hok, hlen, hkept⟩ := ih (h.append hr)
      have happ : (b.append r).staged.length = b.staged.length + 1 := length_append
      rw [stage_of_accepts hr, accepted_of_accepts hr]
      rw [append_assoc] at hok
      exact ⟨hok, by omega, hkept⟩
    · obtain ⟨hok, hlen, hkept⟩ := ih h
      rw [stage_of_not hr, accepted_of_not hr]
      exact ⟨hok, by omega, hkept⟩

theorem checkpoint (h : Ok b j) (hd : b.slotUsed ≤ 8) : Ok b.checkpoint j := by
  have hlen := h.laid.length_eq
  refine ⟨h.used, Nat.le_refl _, h.slots, h.slots, hd, Nat.le_refl _, h.laid, ?_⟩
  simp only [Book.checkpoint]
  rw [take_length, hlen, take_length]
  exact h.laid

theorem rewind (h : Ok b j) : Ok b.rewind (j.take b.stagedCheckpoint) := by
  have hlen : (b.staged.take b.stagedCheckpoint).length = b.stagedCheckpoint := by
    rw [length_take, Nat.min_eq_left h.kept]
  refine ⟨Nat.le_trans h.rewound h.used, Nat.le_refl _, ?_, h.slotsKept, h.direct, ?_, h.laidKept, ?_⟩
  · simp only [Book.rewind]
    rw [hlen]
    exact h.slotsKept
  · exact Nat.le_of_eq hlen.symm
  · simp only [Book.rewind]
    rw [take_take, take_take, Nat.min_self]
    exact h.laidKept

end Ok

end Book

/-! ## Along a run -/

namespace Copro

variable {c : Copro} {j : List DmaRequest}

/-- The journal after an event: the transfers behind the slots of the staged list. -/
def journalStep (c : Copro) (j : List DmaRequest) : CartEvent → List DmaRequest
  | .call (.chrUpload vramWord bytes (some src)) =>
    if 8 ≤ c.slotUsed then j
    else j ++ c.book.accepted [⟨readBytes src bytes.toNat, vramWord, bbusVmdatal, dmap2b2r⟩]
  | .call (.frameCommit byte) =>
    if c.CommitDropped byte then j
    else j.take c.stagedCheckpoint ++ c.book.rewind.accepted c.prepareFrame.frameRequests
  | .call .ppuCleanSlate | .unload => []
  | _ => j

/-- The machine with its journal. -/
def journaledStep (cj : Copro × List DmaRequest) (e : CartEvent) :
    Option (Copro × List DmaRequest) :=
  (cj.1.step e).map fun c' => (c', cj.1.journalStep cj.2 e)

/-- What every reachable state has. -/
structure Kept (c : Copro) (j : List DmaRequest) : Prop where
  book : c.book.Ok j
  room : c.staged.length ≤ c.stagedCheckpoint + frameSlots
  pending : c.pending.length ≤ mgPendingTransientMax
  blank : c.state.blankLines ≤ 208

namespace Kept

theorem init (noCommitAhead : Bool) : Kept (Copro.init noCommitAhead) [] :=
  ⟨.cleared _ (Nat.zero_le _) (Nat.zero_le _), Nat.zero_le _, Nat.zero_le _, Nat.zero_le _⟩

/-- There are at most 22 slots: 8 for direct uploads, and those of a frame. -/
theorem staged_le (h : Kept c j) : c.staged.length ≤ 22 := by
  have hroom := h.room
  have hdirect : c.slotCheckpoint ≤ 8 := h.book.direct
  have hkept : c.stagedCheckpoint ≤ c.slotCheckpoint := h.book.slotsKept.1
  have hframe : frameSlots = 14 := rfl
  omega

theorem same (h : Kept c j) {c' : Copro} (hb : c'.book = c.book) (hp : c'.pending = c.pending)
    (hs : c'.state.blankLines = c.state.blankLines) : Kept c' j := by
  refine ⟨hb ▸ h.book, ?_, hp ▸ h.pending, hs ▸ h.blank⟩
  rw [show c'.staged = c.staged from congrArg Book.staged hb,
    show c'.stagedCheckpoint = c.stagedCheckpoint from congrArg Book.stagedCheckpoint hb]
  exact h.room

theorem reset (h : Kept c j) {c' : Copro} {m : Mem} {bytes slots : Nat}
    (hb : c'.book = .cleared m bytes slots) (hbytes : bytes ≤ 2) (hslots : slots ≤ 1)
    (hp : c'.pending = c.pending) (hs : c'.state.blankLines = 0) : Kept c' [] := by
  refine ⟨hb ▸ .cleared m hbytes hslots, ?_, hp ▸ h.pending, hs ▸ Nat.zero_le _⟩
  rw [show c'.staged = [] from congrArg Book.staged hb]
  exact Nat.zero_le _

theorem mgStateReset (h : Kept c j) : Kept c.mgStateReset [] :=
  h.reset rfl (Nat.zero_le _) (Nat.zero_le _) rfl rfl

theorem unload (h : Kept c j) : Kept c.unload [] := h.mgStateReset.same rfl rfl rfl

theorem ppuCleanSlate (h : Kept c j) : Kept c.ppuCleanSlate [] := by
  have hbook : c.ppuCleanSlate.book = .cleared (c.hostPayload.copy 0 [0, 0]) 2 1 := rfl
  exact h.reset hbook (Nat.le_refl _) (Nat.le_refl _) rfl rfl

theorem queueDma (h : Kept c j) (r : DmaRequest) :
    Kept (c.queueDma r.bytes r.bbus r.dmap r.prep).2
      (if 8 ≤ c.slotUsed then j else j ++ c.book.accepted [r]) := by
  obtain ⟨hstate, hpending⟩ := queueDma_rest (c := c) r.bytes r.bbus r.dmap r.prep
  have hblank := congrArg MgState.blankLines hstate
  have hbook := queueDma_book (c := c) r
  by_cases hroom : c.slotUsed < 8 ∧ c.payloadUsed + r.bytes.length ≤ payloadBytes ∧
      c.staged.length < mgMaxStagedSlots
  · rw [if_pos hroom] at hbook
    rw [if_neg (by omega)]
    have hslots : (c.book.stage r).slotUsed ≤ 8 := by
      unfold Book.stage
      split
      · exact hroom.1
      · exact Nat.le_of_lt hroom.1
    refine ⟨hbook ▸ (h.book.stageAll [r]).1.checkpoint hslots, ?_, hpending ▸ h.pending,
      hblank ▸ h.blank⟩
    have hstaged := congrArg (fun b : Book => b.staged.length) hbook
    have hkept := congrArg Book.stagedCheckpoint hbook
    generalize (Copro.queueDma c r.bytes r.bbus r.dmap r.prep).2 = c' at hstaged hkept
    have hle : c'.book.staged.length ≤ c'.book.stagedCheckpoint + frameSlots := by
      rw [hstaged, hkept]
      exact Nat.le_add_right _ _
    exact hle
  · rw [if_neg hroom] at hbook
    have hjournal : (if 8 ≤ c.slotUsed then j else j ++ c.book.accepted [r]) = j := by
      split
      · rfl
      · have hnot : ¬ c.book.Accepts r := fun hr => hroom ⟨by omega, hr.2.2, hr.1⟩
        rw [Book.accepted_of_not hnot, Book.accepted, append_nil]
    rw [hjournal]
    exact h.same hbook hpending hblank

theorem chrUpload (h : Kept c j) (vramWord bytes : BitVec 16) (src : GuestBytes) :
    Kept (c.chrUpload vramWord bytes src).2
      (c.journalStep j (.call (.chrUpload vramWord bytes src))) := by
  obtain _ | src := src
  · have hsame : (c.chrUpload vramWord bytes none).2 = c := by
      unfold Copro.chrUpload chrUploadVia
      split <;> rfl
    rw [hsame]
    exact h
  · by_cases hzero : bytes = 0
    · have hnot : ¬ c.book.Accepts ⟨readBytes src bytes.toNat, vramWord, bbusVmdatal, dmap2b2r⟩ := by
        rintro ⟨-, hpos, -⟩
        rw [hzero] at hpos
        exact hpos rfl
      have hsame : (c.chrUpload vramWord bytes (some src)).2 = c := by
        unfold Copro.chrUpload chrUploadVia
        rw [if_pos hzero]
      unfold journalStep
      dsimp only
      rw [hsame, Book.accepted_of_not hnot, Book.accepted, append_nil, ite_self]
      exact h
    · have hdma := h.queueDma ⟨readBytes src bytes.toNat, vramWord, bbusVmdatal, dmap2b2r⟩
      unfold Copro.chrUpload chrUploadVia
      rw [if_neg hzero]
      exact hdma

theorem length_frameRequests (c : Copro) : c.frameRequests.length ≤ 1 + 1 + 4 + c.pending.length := by
  have hcgram : c.state.cgramRequest.length ≤ 1 := by
    unfold MgState.cgramRequest
    dsimp only
    split
    · exact Nat.le_refl 1
    · exact Nat.zero_le 1
  have hoam : c.state.oamRequest.length ≤ 1 := by
    unfold MgState.oamRequest
    split
    · exact Nat.le_refl 1
    · exact Nat.zero_le 1
  have hlayer : ∀ i, (c.state.layerRequest i).length ≤ 1 := by
    intro i
    unfold MgState.layerRequest
    dsimp only
    split
    · exact Nat.le_refl 1
    · exact Nat.zero_le 1
  have hlayers : ∀ l : List (Fin 4), (l.flatMap c.state.layerRequest).length ≤ l.length := by
    intro l
    induction l with
    | nil => exact Nat.le_refl 0
    | cons i l ih =>
      have hi := hlayer i
      rw [flatMap_cons, length_append, length_cons]
      omega
  have hfour := hlayers (List.finRange 4)
  rw [length_finRange] at hfour
  unfold frameRequests
  rw [length_append, length_append, length_append]
  omega

theorem frameCommit (h : Kept c j) (byte : Byte) :
    Kept (c.frameCommit byte).2 (c.journalStep j (.call (.frameCommit byte))) := by
  unfold Copro.frameCommit journalStep
  dsimp only
  split
  · exact ⟨h.book, h.room, Nat.zero_le _, h.blank⟩
  · obtain ⟨hbook, hblank, hpending⟩ := buildFrame_rest (c := c)
    obtain ⟨hstage, hlines⟩ := stageFrame_book (c := c)
    obtain ⟨hok, hlen, hkept⟩ := h.book.rewind.stageAll c.prepareFrame.frameRequests
    have hrequests := length_frameRequests c.prepareFrame
    have hprep := prepareFrame_book (c := c)
    have hpend := h.pending
    have hbook' := hbook.trans hstage
    have hrewound : c.book.rewind.staged.length ≤ c.book.rewind.stagedCheckpoint :=
      length_take_le ..
    have hframe : frameSlots = 1 + 1 + 4 + mgPendingTransientMax := rfl
    have hdark := hblank.trans hlines
    rw [hprep.2.2] at hrequests
    rw [← hbook'] at hok hlen hkept
    generalize c.prepareFrame.frameRequests = rs at *
    generalize c.buildFrame = f at *
    have hroom : f.book.staged.length ≤ f.book.stagedCheckpoint + frameSlots := by omega
    have hready : Kept f (j.take c.stagedCheckpoint ++ c.book.rewind.accepted rs) :=
      ⟨hok, hroom, hpending ▸ Nat.zero_le _, hdark ▸ h.blank⟩
    exact hready.same rfl rfl rfl

theorem frameDone (h : Kept c j) : Kept c.frameDone j := by
  obtain ⟨hbook, hpending, hstate⟩ := frameDone_rest (c := c)
  exact h.same hbook hpending (congrArg MgState.blankLines hstate)

theorem step (h : Kept c j) {e : CartEvent} {c' : Copro} (hs : c.step e = some c') :
    Kept c' (c.journalStep j e) := by
  unfold Copro.step at hs
  obtain ⟨r, hr, rfl⟩ := Option.map_eq_some_iff.mp hs
  have hcart : ∀ w, Kept { c with cart := w } j := fun _ => h.same rfl rfl rfl
  cases e with
  | read snesAddr =>
    cases hr
    dsimp only
    unfold cartWindowRead
    dsimp only
    split
    · exact h.frameDone
    · exact hcart _
  | unload =>
    cases hr
    exact h.unload
  | call mg =>
    change mg.apply c = some r at hr
    cases mg with
    | shadow call =>
      obtain ⟨x, hx, rfl⟩ := Option.map_eq_some_iff.mp hr
      exact { h with blank := (ShadowCall.keeps hx).blank h.blank }
    | chrUpload vramWord bytes src =>
      cases hr
      exact h.chrUpload vramWord bytes src
    | chrUploadTransient vramWord bytes src =>
      cases hr
      rcases chrUploadTransient_cases c vramWord bytes src with heq | ⟨p, hroom, -, heq⟩
      · rw [heq]
        exact h
      · rw [heq]
        refine ⟨h.book, h.room, ?_, h.blank⟩
        dsimp only
        rw [length_append, length_singleton]
        exact hroom
    | ppuCleanSlate =>
      cases hr
      exact h.ppuCleanSlate
    | frameCommit byte =>
      cases hr
      exact h.frameCommit byte
    | _ =>
      obtain ⟨hdma, heq⟩ := (MgCall.apply_loads hr trivial).rest
      rw [heq]
      exact h.same rfl rfl rfl

theorem run {noCommitAhead : Bool} {es : List CartEvent}
    (h : Lib.run journaledStep (.init noCommitAhead, []) es = some (c, j)) : Kept c j := by
  have hstep : ∀ (cj : Copro × List DmaRequest) e cj', Kept cj.1 cj.2 → True →
      journaledStep cj e = some cj' → Kept cj'.1 cj'.2 := by
    intro cj e cj' hk _ hs
    obtain ⟨c', hc', rfl⟩ := Option.map_eq_some_iff.mp hs
    exact hk.step hc'
  exact run_invariant hstep (init noCommitAhead) (Meets.of_forall (fun _ _ => trivial) _ _) h

end Kept

theorem exists_journal {es : List CartEvent} {c' : Copro} (h : Lib.run Copro.step c es = some c') :
    ∃ j', Lib.run journaledStep (c, j) es = some (c', j') := by
  induction es generalizing c j with
  | nil =>
    cases h
    exact ⟨j, rfl⟩
  | cons e es ih =>
    rw [run_cons, Option.bind_eq_some_iff] at h
    obtain ⟨c₁, hc₁, hrest⟩ := h
    obtain ⟨j', hj'⟩ := ih (j := c.journalStep j e) hrest
    refine ⟨j', ?_⟩
    rw [run_cons, journaledStep, hc₁]
    exact hj'

end Copro

end Microgarbage.Cart
