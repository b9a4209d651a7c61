import Microgarbage.Storage.Contents

/-!
# Reading and writing through a handle

`trashfs_read` returns the bytes of the file and `trashfs_write` replaces them, block by block. A
write is cut short only when no block is free or the file cannot grow further.
-/

namespace Microgarbage.Storage

open Lib List

variable {v v' v'' : TrashfsVolume} {ino : Nat}

/-! ## Reads -/

/-- The bytes of a file from `pos` on. -/
def fileBytes (v : TrashfsVolume) (ino pos n : Nat) : List Byte :=
  (List.range n).map fun i => fileByte v ino (pos + i)

theorem fileBytes_add (v : TrashfsVolume) (ino pos m n : Nat) :
    fileBytes v ino pos (m + n) = fileBytes v ino pos m ++ fileBytes v ino (pos + m) n := by
  unfold fileBytes
  rw [range_add, map_append, map_map]
  congr 1
  refine map_congr_left fun i _ => ?_
  dsimp only [Function.comp]
  rw [Nat.add_assoc]

theorem blockChunk_eq {pos n : Nat} (h : pos % 128 + n ≤ 128) :
    blockChunk v (v.mapLbn (v.inodePtr ino) (pos / 128)) (pos % 128) n = fileBytes v ino pos n := by
  have hblock (i : Nat) (hi : i < n) : (pos + i) / 128 = pos / 128 ∧
      (pos + i) % 128 = pos % 128 + i := by omega
  unfold blockChunk fileBytes trashfsBlockNone
  rw [mapLbn_eq]
  cases hp : leafPos ino (pos / 128) with
  | none =>
    dsimp only
    rw [if_pos rfl]
    refine ext_getElem (by simp) fun i hi hi' => ?_
    rw [length_replicate] at hi
    rw [getElem_replicate, getElem_map, getElem_range]
    unfold fileByte
    rw [(hblock i hi).1, hp]
  | some p =>
    dsimp only
    by_cases hb : v.blockAt p = 0
    · rw [if_pos hb]
      refine ext_getElem (by simp) fun i hi hi' => ?_
      rw [length_replicate] at hi
      rw [getElem_replicate, getElem_map, getElem_range]
      unfold fileByte
      rw [(hblock i hi).1, hp]
      exact (if_pos hb).symm
    · rw [if_neg hb]
      unfold Mem.bytes
      refine map_congr_left fun i hi => ?_
      rw [mem_range] at hi
      unfold fileByte
      rw [(hblock i hi).1, hp, (hblock i hi).2]
      dsimp only
      rw [leafByte_some hb, Nat.add_assoc]

variable {f : TrashfsFile}

theorem readLoop_spec {fuel want n : Nat} (hn : min want (f.size - f.pos) = n) (hfuel : n ≤ fuel) :
    readLoop v (v.inodePtr ino) fuel f want =
      (fileBytes v ino f.pos n, { f with pos := f.pos + n }) := by
  have hsize : trashfsBlockSize = 128 := rfl
  induction fuel generalizing f want n with
  | zero =>
    obtain rfl := Nat.le_zero.mp hfuel
    rfl
  | succ fuel ih =>
    unfold readLoop
    by_cases hmore : 0 < want ∧ f.pos < f.size
    · rw [if_pos hmore, hsize]
      dsimp only
      obtain ⟨chunk, hchunk⟩ : ∃ chunk, min (min (128 - f.pos % 128) want) (f.size - f.pos) =
        chunk := ⟨_, rfl⟩
      rw [hchunk]
      have hrest : readLoop v (v.inodePtr ino) fuel { f with pos := f.pos + chunk } (want - chunk) =
          (fileBytes v ino (f.pos + chunk) (n - chunk),
            { f with pos := f.pos + chunk + (n - chunk) }) :=
        ih (by dsimp only; omega) (by omega)
      rw [hrest]
      dsimp only
      rw [blockChunk_eq (by omega), ← fileBytes_add, Nat.add_assoc]
      have hsum : chunk + (n - chunk) = n := by omega
      rw [hsum]
    · rw [if_neg hmore]
      have hzero : n = 0 := by omega
      rw [hzero]
      rfl

theorem trashfsRead_spec (ho : f.isOpen = true) (n : Nat) :
    trashfsRead v f n = (.ok, fileBytes v f.inode f.pos (min n (f.size - f.pos)),
      { f with pos := f.pos + min n (f.size - f.pos) }) := by
  unfold trashfsRead
  rw [if_pos ho, readLoop_spec rfl (Nat.min_le_left ..)]

/-! ## Writes -/

/-- The bytes that the pointers of an inode can name. -/
def trashfsMaxFile : Nat := 33832 * 128

theorem leafPos_some_iff {lbn : Nat} : (∃ p, leafPos ino lbn = some p) ↔ lbn < 33832 := by
  rcases lbnPath_cases lbn with ⟨hlbn, hp⟩ | ⟨a, ha, hlbn, hp⟩ | ⟨a, ha, b, hb, hlbn, hp⟩ |
    ⟨a, ha, b, hb, c, hc, hlbn, hp⟩ | ⟨hlbn, hp⟩
  · exact ⟨fun _ => by omega, fun _ => ⟨_, leafPos_some hp⟩⟩
  · exact ⟨fun _ => by omega, fun _ => ⟨_, leafPos_some hp⟩⟩
  · exact ⟨fun _ => by omega, fun _ => ⟨_, leafPos_some hp⟩⟩
  · exact ⟨fun _ => by omega, fun _ => ⟨_, leafPos_some hp⟩⟩
  · refine ⟨?_, fun hlt => by omega⟩
    rintro ⟨p, hsome⟩
    rw [leafPos_none.mpr hp] at hsome
    cases hsome

/-- The first `done` bytes of `src` stand in file `ino` from `pos` on; nothing else changed. -/
structure Written (v v' : TrashfsVolume) (ino pos : Nat) (src : List Byte) (done : Nat) :
    Prop where
  layout : v'.toTrashfsLayout = v.toTrashfsLayout
  freeInodes : v'.freeInodes = v.freeInodes
  mapped : Mapped v'
  done_le : done ≤ src.length
  fields : ∀ i < v.inodeCount, inodeMode v' i = inodeMode v i ∧ v'.dirSize i = v.dirSize i
  bytes : ∀ i < v.inodeCount, ∀ off, fileByte v' i off =
    if i = ino ∧ pos ≤ off ∧ off < pos + done then src.getD (off - pos) 0 else fileByte v i off
  other : ∀ q, q.Valid v.toTrashfsLayout → q.ino ≠ ino → v'.blockAt q = v.blockAt q
  short : done < src.length → Full v' ∨ leafPos ino ((pos + done) / 128) = none
  limit : 0 < done → pos + done ≤ trashfsMaxFile

variable {src : List Byte}

theorem Grows.written {pos : Nat} (hg : Grows v v') (hm : Mapped v')
    (hother : ∀ q, q.Valid v.toTrashfsLayout → q.ino ≠ ino → v'.blockAt q = v.blockAt q)
    (hshort : src ≠ [] → Full v' ∨ leafPos ino (pos / 128) = none) :
    Written v v' ino pos src 0 := by
  refine ⟨hg.layout, hg.freeInodes, hm, Nat.zero_le _,
    fun i hi => ⟨(hg.file hi).mode, (hg.file hi).size⟩, fun i hi off => ?_, hother, fun hlt => ?_,
    fun hpos => absurd hpos (Nat.lt_irrefl 0)⟩
  · rw [if_neg (by omega)]
    exact (hg.file hi).bytes off
  · exact hshort (ne_nil_of_length_pos hlt)

theorem Written.cons {w : TrashfsVolume} {pos chunk done : Nat} (hg : Grows v v')
    (hother : ∀ q, q.Valid v.toTrashfsLayout → q.ino ≠ ino → v'.blockAt q = v.blockAt q)
    (hw : Wrote v' v'' ino pos chunk fun k => src.getD k 0) (hc : chunk ≤ src.length)
    (hlimit : pos + chunk ≤ trashfsMaxFile)
    (h : Written v'' w ino (pos + chunk) (src.drop chunk) done) :
    Written v w ino pos src (chunk + done) := by
  have hl' : v'.toTrashfsLayout = v.toTrashfsLayout := hg.layout
  have hl'' : v''.toTrashfsLayout = v.toTrashfsLayout := hw.layout.trans hl'
  have hdone := h.done_le
  rw [length_drop] at hdone
  refine ⟨h.layout.trans hl'', (h.freeInodes.trans hw.freeInodes).trans hg.freeInodes, h.mapped,
    by omega, fun i hi => ?_, fun i hi off => ?_, fun q hq hne => ?_, fun hlt => ?_, fun _ => ?_⟩
  · have hfile := hg.file hi
    obtain ⟨hmode, hsize⟩ := hw.mode_size (hl' ▸ hi)
    obtain ⟨hmode', hsize'⟩ := h.fields i (hl'' ▸ hi)
    exact ⟨(hmode'.trans hmode).trans hfile.mode, (hsize'.trans hsize).trans hfile.size⟩
  · rw [h.bytes i (hl'' ▸ hi), hw.bytes i (hl' ▸ hi), (hg.file hi).bytes]
    by_cases hlate : i = ino ∧ pos + chunk ≤ off ∧ off < pos + chunk + done
    · have hoff : chunk + (off - (pos + chunk)) = off - pos := by omega
      rw [if_pos hlate, if_pos (by omega), getD_eq_getElem?_getD, List.getElem?_drop, hoff,
        getD_eq_getElem?_getD]
    · rw [if_neg hlate]
      by_cases hearly : i = ino ∧ pos ≤ off ∧ off < pos + chunk
      · rw [if_pos hearly, if_pos (by omega)]
      · rw [if_neg hearly, if_neg (by omega)]
  · rw [h.other q (hl'' ▸ hq) hne, hw.blocks q (hl' ▸ hq), hother q hq hne]
  · have hshort := h.short (by rw [length_drop]; omega)
    rw [Nat.add_assoc] at hshort
    exact hshort
  · by_cases hzero : done = 0
    · rw [hzero]
      exact hlimit
    · have hrest := h.limit (Nat.pos_of_ne_zero hzero)
      omega

theorem copy_wrote {b pos chunk : Nat} {p : BlockPos} (hm : Mapped v) (hi : ino < v.inodeCount)
    (hp : leafPos ino (pos / 128) = some p) (hb : v.blockAt p = b) (hne : b ≠ 0)
    (hroom : pos % 128 + chunk ≤ 128) (hc : chunk ≤ src.length) :
    Wrote v { v with region := v.region.copy (blockPtr b + pos % 128) (src.take chunk) } ino pos
      chunk fun k => src.getD k 0 := by
  have hlen : (src.take chunk).length = chunk := by
    rw [length_take]
    omega
  obtain ⟨v', hv'⟩ : ∃ v' : TrashfsVolume, { v with
    region := v.region.copy (blockPtr b + pos % 128) (src.take chunk) } = v' := ⟨_, rfl⟩
  rw [hv']
  have hregion : v'.region = v.region.copy (blockPtr b + pos % 128) (src.take chunk) := by
    rw [← hv']
  have hpoked : Poked v v' (blockPtr (v.blockAt p) + pos % 128) chunk := by
    refine ⟨by rw [← hv'], by rw [← hv'], by rw [← hv'], fun x hx => ?_⟩
    rw [hregion]
    refine Mem.overlay_out ?_
    rw [hlen, ← hb]
    exact hx
  have hbytes : ∀ k < chunk, v'.region (blockPtr (v.blockAt p) + pos % 128 + k) = src.getD k 0 := by
    intro k hk
    rw [hregion, hb]
    unfold Mem.copy
    rw [Mem.overlay_in (Nat.le_add_right ..) (by omega), Nat.add_sub_cancel_left,
      getD_eq_getElem?_getD, List.getElem?_take_of_lt hk, getD_eq_getElem?_getD]
  have hwrote := hpoked.wrote hm hi hp (hb ▸ hne) hroom hbytes
  have hpos : pos / 128 * 128 + pos % 128 = pos := by omega
  rw [hpos] at hwrote
  exact hwrote

theorem writeLoop_short {a fuel : Nat} (hnil : src ≠ [])
    (hb : v.bmapAlloc a (f.pos / 128) = (0, v')) : writeLoop a (fuel + 1) v f src = (0, v', f) := by
  have hblock : trashfsBlockSize = 128 := rfl
  have hnone : trashfsBlockNone = 0 := rfl
  unfold writeLoop
  simp only [hblock, hnone, hb, if_neg hnil, ↓reduceIte]

theorem writeLoop_chunk {a fuel b chunk : Nat} (hnil : src ≠ [])
    (hb : v.bmapAlloc a (f.pos / 128) = (b, v')) (hne : b ≠ 0)
    (hc : min src.length (128 - f.pos % 128) = chunk) :
    writeLoop a (fuel + 1) v f src =
      let res := writeLoop a fuel
        { v' with region := v'.region.copy (blockPtr b + f.pos % 128) (src.take chunk) }
        { f with pos := f.pos + chunk, size := max f.size (f.pos + chunk) } (src.drop chunk)
      (chunk + res.1, res.2.1, res.2.2) := by
  have hblock : trashfsBlockSize = 128 := rfl
  have hnone : trashfsBlockNone = 0 := rfl
  rw [writeLoop]
  simp only [hblock, hnone, hb, hc, if_neg hnil, if_neg hne]

/-- The handle after `done` bytes were written. -/
def TrashfsFile.advance (f : TrashfsFile) (done : Nat) : TrashfsFile :=
  { f with
    pos := f.pos + done
    size := if done = 0 then f.size else max f.size (f.pos + done) }

theorem advance_chunk (f : TrashfsFile) {chunk : Nat} (hc : 0 < chunk) (done : Nat) :
    TrashfsFile.advance { f with pos := f.pos + chunk, size := max f.size (f.pos + chunk) } done =
      f.advance (chunk + done) := by
  unfold TrashfsFile.advance
  dsimp only
  have hsize : (if done = 0 then max f.size (f.pos + chunk)
      else max (max f.size (f.pos + chunk)) (f.pos + chunk + done)) =
      if chunk + done = 0 then f.size else max f.size (f.pos + (chunk + done)) := by
    rw [if_neg (show chunk + done ≠ 0 by omega)]
    split <;> omega
  rw [hsize, Nat.add_assoc]

theorem writeLoop_spec {fuel : Nat} (src : List Byte) (hm : Mapped v) (hi : ino < v.inodeCount)
    (hfuel : src.length ≤ fuel) {a : Nat} (ha : v.inodePtr ino = a) :
    Written v (writeLoop a fuel v f src).2.1 ino f.pos src (writeLoop a fuel v f src).1 ∧
      (writeLoop a fuel v f src).2.2 = f.advance (writeLoop a fuel v f src).1 := by
  induction fuel generalizing v f src with
  | zero =>
    have hnil : src = [] := eq_nil_of_length_eq_zero (Nat.le_zero.mp hfuel)
    exact ⟨Grows.written (.refl v) hm (fun _ _ _ => rfl) fun h => absurd hnil h, rfl⟩
  | succ fuel ih =>
    by_cases hnil : src = []
    · have hstop : writeLoop a (fuel + 1) v f src = (0, v, f) := if_pos hnil
      rw [hstop]
      exact ⟨Grows.written (.refl v) hm (fun _ _ _ => rfl) fun h => absurd hnil h, rfl⟩
    · cases hp : leafPos ino (f.pos / 128) with
      | none =>
        have hb := bmapAlloc_none (v := v) hp
        rw [ha] at hb
        rw [writeLoop_short hnil hb]
        exact ⟨Grows.written (.refl v) hm (fun _ _ _ => rfl) fun _ => .inr hp, rfl⟩
      | some p =>
        have he := bmapAlloc_spec hm hi hp
        rw [ha] at he
        rcases hb : v.bmapAlloc a (f.pos / 128) with ⟨b, v₁⟩
        obtain ⟨hino, -, -⟩ := leafPos_valid hi hp
        have hother := he.other
        rw [hino] at hother
        rw [hb] at he hother
        dsimp only at he hother
        by_cases hne : b = 0
        · rw [hne] at hb
          rw [writeLoop_short hnil hb]
          exact ⟨Grows.written he.grows he.mapped hother fun _ => .inl (he.full hne), rfl⟩
        · have hlen : 0 < src.length := length_pos_iff.mpr hnil
          obtain ⟨chunk, hchunk⟩ : ∃ chunk, min src.length (128 - f.pos % 128) = chunk := ⟨_, rfl⟩
          have hle : chunk ≤ src.length := by omega
          have hi₁ : ino < v₁.inodeCount := he.grows.layout ▸ hi
          have hw := copy_wrote he.mapped hi₁ hp (he.block hne) hne (by omega) hle
          rw [writeLoop_chunk hnil hb hne hchunk]
          generalize { v₁ with
            region := v₁.region.copy (blockPtr b + f.pos % 128) (src.take chunk) } = v₂ at hw ⊢
          have hl₂ : v₂.toTrashfsLayout = v.toTrashfsLayout := hw.layout.trans he.grows.layout
          have hrest : (src.drop chunk).length ≤ fuel := by
            rw [length_drop]
            omega
          obtain ⟨f₂, hf₂⟩ : ∃ f₂ : TrashfsFile, { f with
            pos := f.pos + chunk
            size := max f.size (f.pos + chunk) } = f₂ := ⟨_, rfl⟩
          have hpos : f₂.pos = f.pos + chunk := by rw [← hf₂]
          have hpositive : 0 < chunk := by omega
          have hadvance := advance_chunk f hpositive
          rw [hf₂] at hadvance ⊢
          obtain ⟨hspec, hfile⟩ := ih (f := f₂) (src.drop chunk) hw.mapped (hl₂ ▸ hi) hrest (hl₂ ▸ ha)
          rw [hpos] at hspec
          have hlimit : f.pos + chunk ≤ trashfsMaxFile := by
            have hlbn := leafPos_some_iff.mp ⟨p, hp⟩
            unfold trashfsMaxFile
            omega
          exact ⟨Written.cons he.grows hother hw hle hlimit hspec, hfile.trans (hadvance _)⟩

/-- What `trashfs_write` does through a handle on a file. -/
structure WriteSpec (v v' : TrashfsVolume) (f f' : TrashfsFile) (src : List Byte) (r : TrashfsResult)
    (done : Nat) : Prop where
  layout : v'.toTrashfsLayout = v.toTrashfsLayout
  freeInodes : v'.freeInodes = v.freeInodes
  mapped : Mapped v'
  done_le : done ≤ src.length
  handle : f' = f.advance done
  result : r = if done = 0 ∧ src ≠ [] then .errNoSpace else .ok
  mode : inodeMode v' f.inode = inodeMode v f.inode
  size : v'.dirSize f.inode = f'.size
  bytes : ∀ off, fileByte v' f.inode off =
    if f.pos ≤ off ∧ off < f.pos + done then src.getD (off - f.pos) 0 else fileByte v f.inode off
  files : ∀ i < v.inodeCount, i ≠ f.inode → SameFile v v' i
  other : ∀ q, q.Valid v.toTrashfsLayout → q.ino ≠ f.inode → v'.blockAt q = v.blockAt q
  short : done < src.length → Full v' ∨ leafPos f.inode ((f.pos + done) / 128) = none
  limit : 0 < done → f.pos + done ≤ trashfsMaxFile

theorem trashfsWrite_spec (src : List Byte) (now : BitVec 32) (hm : Mapped v)
    (hi : f.inode < v.inodeCount) (ho : f.isOpen = true) (hd : f.isDir = false)
    (hsize : f.size < 2 ^ 32) :
    WriteSpec v (trashfsWrite v f src now).2.2.2 f (trashfsWrite v f src now).2.2.1 src
      (trashfsWrite v f src now).1 (trashfsWrite v f src now).2.1 := by
  obtain ⟨hw, hf'⟩ := writeLoop_spec (f := f) src hm hi (Nat.le_refl _) rfl
  unfold trashfsWrite
  rw [if_neg (by simp [ho]), if_neg (by simp [hd])]
  dsimp only
  rcases hloop : writeLoop (v.inodePtr f.inode) src.length v f src with ⟨done, v₁, f'⟩
  rw [hloop] at hw hf'
  dsimp only at hw hf' ⊢
  obtain ⟨m, hmem⟩ : ∃ m, wr32 (wr32 v₁.region (v.inodePtr f.inode + 4) (BitVec.ofNat 32 f'.size))
    (v.inodePtr f.inode + 12) now = m := ⟨_, rfl⟩
  rw [hmem]
  obtain ⟨v', hv'⟩ : ∃ v' : TrashfsVolume, { v₁ with region := m } = v' := ⟨_, rfl⟩
  rw [hv']
  have hregion : v'.region = wr32 (wr32 v₁.region (v.inodePtr f.inode + 4)
      (BitVec.ofNat 32 f'.size)) (v.inodePtr f.inode + 12) now := by
    rw [hmem, ← hv']
  have hpoked : Poked v₁ v' (v₁.inodePtr f.inode + 4) 12 := by
    refine ⟨by rw [← hv'], by rw [← hv'], by rw [← hv'], fun x hx => ?_⟩
    rw [hw.layout] at hx
    rw [hregion, wr32_out (by omega), wr32_out (by omega)]
  have hl : v'.toTrashfsLayout = v.toTrashfsLayout := hpoked.layout.trans hw.layout
  have hi₁ : f.inode < v₁.inodeCount := hw.layout ▸ hi
  obtain ⟨hmapped, hblocks⟩ := fields_mapped hw.mapped hi₁ hpoked (by omega)
  have hsize' : f'.size < 2 ^ 32 := by
    rw [hf']
    unfold TrashfsFile.advance
    dsimp only
    have hlimit := hw.limit
    unfold trashfsMaxFile at hlimit
    split <;> omega
  refine ⟨hl, hpoked.freeInodes.trans hw.freeInodes, hmapped, hw.done_le, hf', rfl, ?_, ?_,
    fun off => ?_, fun i hi' hne => ?_, fun q hq hne => ?_, fun hlt => ?_, hw.limit⟩
  · rw [← (hw.fields f.inode hi).1]
    unfold inodeMode
    rw [hl, hw.layout]
    refine rd16_congr fun k hk => hpoked.frame _ ?_
    rw [hw.layout]
    omega
  · unfold TrashfsVolume.dirSize
    rw [hl, hregion, rd32_wr32_out (by omega), rd32_wr32, BitVec.toNat_ofNat]
    exact Nat.mod_eq_of_lt hsize'
  · rw [fields_bytes hw.mapped hi₁ hpoked (by omega) hi₁, hw.bytes f.inode hi]
    simp only [true_and]
  · have hother := fields_file hw.mapped hi₁ hpoked (by omega) (hw.layout ▸ hi') hne
    refine SameFile.trans ⟨(hw.fields i hi').1, (hw.fields i hi').2, fun off => ?_⟩ hother
    rw [hw.bytes i hi', if_neg fun hand => hne hand.1]
  · rw [hblocks q (hw.layout ▸ hq), hw.other q hq hne]
  · refine (hw.short hlt).imp_left fun hfull b hb hb' => ?_
    rw [hl] at hb hb'
    have hsame := bitmapTest_congr hw.mapped.ordered hpoked.layout (fun x hx => hpoked.frame x ?_)
      (hw.layout ▸ hb')
    · rw [hsame]
      exact hfull b (hw.layout ▸ hb) (hw.layout ▸ hb')
    · have hrange := hw.mapped.ordered.inode_range (k := 4) hi₁ (by omega)
      omega

end Microgarbage.Storage
