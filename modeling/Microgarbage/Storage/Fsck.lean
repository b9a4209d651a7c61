import Microgarbage.Storage.Entries

/-!
# Sound volumes

What `fsck` would check: the bitmap against the pointers, the counts against bitmap and inode table,
the directory entries against the inodes in use. Each change that the calls of trashfs make keeps a
volume sound: a change to the contents of a file, a new entry with its inode, an entry removed with
its inode.
-/

namespace Microgarbage.Storage

open Lib
open TrashfsVolume (direntInode direntNamed)

variable {v v' : TrashfsVolume} {d off i : Nat}

def isDirectory (v : TrashfsVolume) (i : Nat) : Bool := inodeMode v i &&& trashfsModeDir != 0

/-- The name in a slot. -/
def entryName (m : Mem) (off : Nat) : List Byte := m.bytes (off + 6) (m (off + 5)).toNat

theorem direntNamed_iff {m : Mem} {name : List Byte} :
    direntNamed m off name = true ↔ direntInode m off ≠ 0 ∧ entryName m off = name := by
  unfold direntNamed entryName
  rw [Bool.and_eq_true, Bool.and_eq_true, bne_iff_ne, beq_iff_eq, beq_iff_eq, and_assoc]
  refine and_congr_right fun _ => ⟨?_, fun h => ?_⟩
  · rintro ⟨hlen, hbytes⟩
    rw [hlen]
    exact hbytes
  · have hlen : (m (off + 5)).toNat = name.length := by rw [← h, Mem.length_bytes]
    rw [← hlen]
    exact ⟨rfl, h⟩

/-- A live entry stands in slot `off` of directory `d`. -/
structure Live (v : TrashfsVolume) (d off : Nat) : Prop where
  lt : d < v.inodeCount
  used : v.inodeUsed d = true
  dir : isDirectory v d = true
  slot : SlotAt off
  size : off + 48 ≤ v.dirSize d
  inode : direntInode (fileByte v d) off ≠ 0

/-- What a live entry says. -/
structure EntryOk (v : TrashfsVolume) (d off : Nat) : Prop where
  lt : direntInode (fileByte v d) off < v.inodeCount
  used : v.inodeUsed (direntInode (fileByte v d) off) = true
  type : fileByte v d (off + 4) = trashfsTypeDir ↔
    isDirectory v (direntInode (fileByte v d) off) = true
  name : (fileByte v d (off + 5)).toNat ≤ 32

structure Sound (v : TrashfsVolume) : Prop where
  mapped : Mapped v
  freeInodes : v.freeInodes = unusedInodes v
  idle : ∀ i < v.inodeCount, v.inodeUsed i = false → NoBlocks v i
  root : 0 < v.inodeCount ∧ v.inodeUsed 0 = true ∧ isDirectory v 0 = true
  sized : ∀ d < v.inodeCount, v.inodeUsed d = true → isDirectory v d = true → DirSized (v.dirSize d)
  entry : ∀ d off, Live v d off → EntryOk v d off
  once : ∀ d off d' off', Live v d off → Live v d' off' →
    direntInode (fileByte v d) off = direntInode (fileByte v d') off' → d = d' ∧ off = off'
  named : ∀ i < v.inodeCount, v.inodeUsed i = true → i ≠ 0 →
    ∃ d off, Live v d off ∧ direntInode (fileByte v d) off = i
  names : ∀ d off off', Live v d off → Live v d off' →
    entryName (fileByte v d) off = entryName (fileByte v d) off' → off = off'

/-! ## Files that did not change -/

theorem used_congr (h : inodeMode v' i = inodeMode v i) : v'.inodeUsed i = v.inodeUsed i :=
  congrArg (fun m => m &&& trashfsModeUsed != 0) h

theorem isDirectory_congr (h : inodeMode v' i = inodeMode v i) : isDirectory v' i = isDirectory v i :=
  congrArg (fun m => m &&& trashfsModeDir != 0) h

theorem unusedInodes_congr (hl : v'.toTrashfsLayout = v.toTrashfsLayout)
    (hmode : ∀ i < v.inodeCount, inodeMode v' i = inodeMode v i) :
    unusedInodes v' = unusedInodes v := by
  unfold unusedInodes
  rw [hl]
  refine List.countP_congr fun i hi => ?_
  rw [used_congr (hmode i (List.mem_range.mp hi))]

theorem SameFile.fileByte (h : SameFile v v' d) : fileByte v' d = fileByte v d := funext h.bytes

theorem SameFile.live (hl : v'.toTrashfsLayout = v.toTrashfsLayout) (h : SameFile v v' d) :
    Live v' d off ↔ Live v d off := by
  have hused := used_congr h.mode
  have hdir := isDirectory_congr h.mode
  constructor
  · rintro ⟨hlt, hu, hd, hs, hsz, hi⟩
    exact ⟨hl ▸ hlt, hused ▸ hu, hdir ▸ hd, hs, h.size ▸ hsz, h.fileByte ▸ hi⟩
  · rintro ⟨hlt, hu, hd, hs, hsz, hi⟩
    exact ⟨hl.symm ▸ hlt, hused.symm ▸ hu, hdir.symm ▸ hd, hs, h.size.symm ▸ hsz,
      h.fileByte.symm ▸ hi⟩

theorem Sound.of_same (hs : Sound v) (hl : v'.toTrashfsLayout = v.toTrashfsLayout)
    (hfree : v'.freeInodes = v.freeInodes) (hm : Mapped v')
    (hmode : ∀ i < v.inodeCount, inodeMode v' i = inodeMode v i)
    (hdirs : ∀ d < v.inodeCount, v.inodeUsed d = true → isDirectory v d = true → SameFile v v' d)
    (hidle : ∀ i < v.inodeCount, v.inodeUsed i = false → NoBlocks v' i) : Sound v' := by
  have hback : ∀ {d off}, Live v' d off → Live v d off ∧ SameFile v v' d := by
    intro d off hlive
    have hlt : d < v.inodeCount := hl ▸ hlive.lt
    have hsame := hdirs d hlt (used_congr (hmode d hlt) ▸ hlive.used)
      (isDirectory_congr (hmode d hlt) ▸ hlive.dir)
    exact ⟨(hsame.live hl).mp hlive, hsame⟩
  refine ⟨hm, ?_, fun i hi hu => ?_, ?_, fun d hd hu hdir => ?_, fun d off hlive => ?_,
    fun d off d' off' hlive hlive' heq => ?_, fun i hi hu hne => ?_,
    fun d off off' hlive hlive' heq => ?_⟩
  · rw [hfree, unusedInodes_congr hl hmode, hs.freeInodes]
  · rw [hl] at hi
    exact hidle i hi (used_congr (hmode i hi) ▸ hu)
  · obtain ⟨hpos, hu, hdir⟩ := hs.root
    exact ⟨hl.symm ▸ hpos, used_congr (hmode 0 hpos) ▸ hu, isDirectory_congr (hmode 0 hpos) ▸ hdir⟩
  · rw [hl] at hd
    have hu' := used_congr (hmode d hd) ▸ hu
    have hdir' := isDirectory_congr (hmode d hd) ▸ hdir
    rw [(hdirs d hd hu' hdir').size]
    exact hs.sized d hd hu' hdir'
  · obtain ⟨hlive', hsame⟩ := hback hlive
    obtain ⟨hlt, hu, htype, hname⟩ := hs.entry d off hlive'
    have hm := hmode _ hlt
    refine ⟨?_, ?_, ?_, ?_⟩
    · rw [hsame.fileByte, hl]
      exact hlt
    · rw [hsame.fileByte, used_congr hm]
      exact hu
    · rw [hsame.fileByte, isDirectory_congr hm]
      exact htype
    · rw [hsame.fileByte]
      exact hname
  · obtain ⟨hold, hsame⟩ := hback hlive
    obtain ⟨hold', hsame'⟩ := hback hlive'
    rw [hsame.fileByte, hsame'.fileByte] at heq
    exact hs.once d off d' off' hold hold' heq
  · rw [hl] at hi
    obtain ⟨d, off, hlive, heq⟩ := hs.named i hi (used_congr (hmode i hi) ▸ hu) hne
    have hsame := hdirs d hlive.lt hlive.used hlive.dir
    exact ⟨d, off, (hsame.live hl).mpr hlive, hsame.fileByte ▸ heq⟩
  · obtain ⟨hold, hsame⟩ := hback hlive
    obtain ⟨hold', -⟩ := hback hlive'
    rw [hsame.fileByte] at heq
    exact hs.names d off off' hold hold' heq

/-! ## A new entry -/

theorem entryName_congr {m m' : Mem} {a b : Nat} (hlen : (m (a + 5)).toNat ≤ 32)
    (h : ∀ k < 48, m' (b + k) = m (a + k)) : entryName m' b = entryName m a := by
  unfold entryName Mem.bytes
  rw [h 5 (by omega)]
  refine List.map_congr_left fun i hi => ?_
  rw [List.mem_range] at hi
  rw [Nat.add_assoc, Nat.add_assoc]
  exact h (6 + i) (by omega)

theorem SlotAt.apart {a b : Nat} (ha : SlotAt a) (hb : SlotAt b) (hne : a ≠ b) :
    a + 48 ≤ b ∨ b + 48 ≤ a := by
  unfold SlotAt at *
  omega

/-- The inode `n` came into use, named `name` in slot `off` of directory `d`. -/
structure Created (v v' : TrashfsVolume) (d off n : Nat) (name : List Byte) : Prop where
  layout : v'.toTrashfsLayout = v.toTrashfsLayout
  freeInodes : v'.freeInodes + 1 = v.freeInodes
  mapped : Mapped v'
  mode : ∀ i < v.inodeCount, i ≠ n → inodeMode v' i = inodeMode v i
  used : v'.inodeUsed n = true
  empty : v'.dirSize n = 0
  other : ∀ i < v.inodeCount, i ≠ n → i ≠ d → SameFile v v' i
  slot : SlotAt off
  grown : (off + 48 ≤ v.dirSize d ∧ v'.dirSize d = v.dirSize d ∧
      direntInode (fileByte v d) off = 0) ∨
    (off = direntAlign (v.dirSize d) ∧ v'.dirSize d = off + 48)
  kept : ∀ x, (x < off ∨ off + 48 ≤ x) → fileByte v' d x = fileByte v d x
  inode : direntInode (fileByte v' d) off = n
  type : fileByte v' d (off + 4) = trashfsTypeDir ↔ isDirectory v' n = true
  nameLength : (fileByte v' d (off + 5)).toNat ≤ 32
  name : entryName (fileByte v' d) off = name
  blocks : ∀ q, q.Valid v.toTrashfsLayout → q.ino ≠ d → v'.blockAt q = v.blockAt q

section Created

variable {n : Nat} {name : List Byte}

/-- The new slot was not live, and the old ones lie before the old end. -/
theorem Created.sizes (hs : Sound v) (hd : d < v.inodeCount) (hu : v.inodeUsed d = true)
    (hdir : isDirectory v d = true) (hc : Created v v' d off n name) :
    ¬Live v d off ∧ v.dirSize d ≤ v'.dirSize d ∧ off + 48 ≤ v'.dirSize d ∧
      DirSized (v'.dirSize d) ∧
      ∀ off', SlotAt off' → off' ≠ off → off' + 48 ≤ v'.dirSize d → off' + 48 ≤ v.dirSize d := by
  have hsized := hs.sized d hd hu hdir
  obtain ⟨hslot, hle, hleast⟩ := direntAlign_slot hsized
  have hoff := hc.slot
  rcases hc.grown with ⟨hin, hsize, hfree⟩ | ⟨rfl, hsize⟩
  · refine ⟨fun hlive => hlive.inode hfree, by omega, by omega, hsize.symm ▸ hsized,
      fun off' _ _ hlt => by omega⟩
  · refine ⟨fun hlive => ?_, by omega, by omega, ?_, fun off' hs' hne hlt => ?_⟩
    · have hlt := hlive.size
      omega
    · rw [hsize]
      unfold SlotAt at hoff
      unfold DirSized
      omega
    · have hge := hleast off' hs'
      unfold SlotAt at hs' hoff
      unfold DirSized at hsized
      omega

theorem Created.live (hs : Sound v) (hd : d < v.inodeCount) (hu : v.inodeUsed d = true)
    (hdir : isDirectory v d = true) (hn : v.inodeUsed n = false)
    (hc : Created v v' d off n name) (d' off' : Nat) :
    (Live v' d' off' ↔ (d' = d ∧ off' = off) ∨ Live v d' off') ∧
      (Live v d' off' → ∀ k < 48, fileByte v' d' (off' + k) = fileByte v d' (off' + k)) := by
  obtain ⟨hnot, hgrow, hend, -, hold⟩ := hc.sizes hs hd hu hdir
  have hdn : d ≠ n := by
    rintro rfl
    rw [hu] at hn
    cases hn
  have hn0 : n ≠ 0 := by
    rintro rfl
    rw [hs.root.2.1] at hn
    cases hn
  have hdmode := hc.mode d hd hdn
  by_cases hdd : d' = d
  · subst hdd
    have hbytes : SlotAt off' → off' ≠ off → ∀ k < 48,
        fileByte v' d' (off' + k) = fileByte v d' (off' + k) := by
      intro hs' hne k hk
      have hapart := hs'.apart hc.slot hne
      exact hc.kept _ (by omega)
    refine ⟨⟨fun hlive => ?_, ?_⟩, fun hlive => hbytes hlive.slot fun he => hnot (he ▸ hlive)⟩
    · by_cases hoff : off' = off
      · exact .inl ⟨rfl, hoff⟩
      · refine .inr ⟨hd, hu, hdir, hlive.slot, hold off' hlive.slot hoff hlive.size, ?_⟩
        rw [← direntInode_congr (hbytes hlive.slot hoff)]
        exact hlive.inode
    · rintro (⟨-, rfl⟩ | hlive)
      · exact ⟨hc.layout.symm ▸ hd, used_congr hdmode ▸ hu, isDirectory_congr hdmode ▸ hdir, hc.slot,
          hend, hc.inode.symm ▸ hn0⟩
      · have hne : off' ≠ off := fun he => hnot (he ▸ hlive)
        refine ⟨hc.layout.symm ▸ hd, used_congr hdmode ▸ hu, isDirectory_congr hdmode ▸ hdir,
          hlive.slot, Nat.le_trans hlive.size hgrow, ?_⟩
        rw [direntInode_congr (hbytes hlive.slot hne)]
        exact hlive.inode
  · have hother : (d' = d ∧ off' = off) ↔ False := iff_false_intro fun h => hdd h.1
    rw [hother, false_or]
    by_cases hnn : d' = n
    · subst hnn
      refine ⟨⟨fun hlive => ?_, fun hlive => ?_⟩, fun hlive => ?_⟩
      · have hsize := hlive.size
        rw [hc.empty] at hsize
        omega
      · have hused := hlive.used
        rw [hn] at hused
        cases hused
      · have hused := hlive.used
        rw [hn] at hused
        cases hused
    · by_cases hlt : d' < v.inodeCount
      · have hsame := hc.other d' hlt hnn hdd
        exact ⟨hsame.live hc.layout, fun _ k _ => hsame.bytes _⟩
      · exact ⟨⟨fun hlive => absurd (hc.layout ▸ hlive.lt) hlt, fun hlive => absurd hlive.lt hlt⟩,
          fun hlive => absurd hlive.lt hlt⟩

theorem Sound.created (hs : Sound v) (hd : d < v.inodeCount) (hu : v.inodeUsed d = true)
    (hdir : isDirectory v d = true) (hlt : n < v.inodeCount) (hn : v.inodeUsed n = false)
    (hnew : slotNamed v d name = none) (hc : Created v v' d off n name) : Sound v' := by
  obtain ⟨hnot, hgrow, hend, hsized, hold⟩ := hc.sizes hs hd hu hdir
  have hlive := fun {d' off'} => hc.live hs hd hu hdir hn d' off'
  have hdn : d ≠ n := by
    rintro rfl
    rw [hu] at hn
    cases hn
  have hn0 : n ≠ 0 := by
    rintro rfl
    rw [hs.root.2.1] at hn
    cases hn
  have hused : ∀ i < v.inodeCount, i ≠ n → v'.inodeUsed i = v.inodeUsed i :=
    fun i hi hne => used_congr (hc.mode i hi hne)
  have hentry : ∀ {d' off'}, Live v d' off' →
      direntInode (fileByte v' d') off' = direntInode (fileByte v d') off' ∧
        entryName (fileByte v' d') off' = entryName (fileByte v d') off' := by
    intro d' off' hl
    have hbytes := hlive.2 hl
    exact ⟨direntInode_congr hbytes, entryName_congr (hs.entry d' off' hl).name hbytes⟩
  have hold_ne : ∀ {d' off'}, Live v d' off' → direntInode (fileByte v d') off' ≠ n := by
    intro d' off' hl heq
    have hent := (hs.entry d' off' hl).used
    rw [heq, hn] at hent
    cases hent
  have hold_name : ∀ {off'}, Live v d off' → entryName (fileByte v d) off' ≠ name := by
    intro off' hl heq
    have hno := slotNamed_none hnew hl.slot hl.size
    rw [direntNamed_iff.mpr ⟨hl.inode, heq⟩] at hno
    cases hno
  refine ⟨hc.mapped, ?_, fun i hi hui => ?_, ?_, fun d' hd' hu' hdir' => ?_, fun d' off' hl => ?_,
    fun d₁ off₁ d₂ off₂ hl₁ hl₂ heq => ?_, fun i hi hui hne => ?_, fun d' off₁ off₂ hl₁ hl₂ heq => ?_⟩
  · have hflip : unusedInodes v = unusedInodes v' + 1 :=
      unusedInodes_flip (congrArg _ hc.layout) hlt hn hc.used hused
    have hfree := hs.freeInodes
    have hfree' := hc.freeInodes
    omega
  · rw [hc.layout] at hi
    have hin : i ≠ n := by
      rintro rfl
      rw [hc.used] at hui
      cases hui
    rw [hused i hi hin] at hui
    intro q hq hqi
    rw [hc.layout] at hq
    have hid : q.ino ≠ d := by
      rintro hqd
      rw [← hqi, hqd, hu] at hui
      cases hui
    rw [hc.blocks q hq hid]
    exact hs.idle i hi hui q hq hqi
  · obtain ⟨hpos, hu0, hdir0⟩ := hs.root
    have hmode := hc.mode 0 hpos hn0.symm
    exact ⟨hc.layout.symm ▸ hpos, used_congr hmode ▸ hu0, isDirectory_congr hmode ▸ hdir0⟩
  · rw [hc.layout] at hd'
    by_cases hdn' : d' = n
    · rw [hdn', hc.empty]
      exact .inl rfl
    · by_cases hdd : d' = d
      · rw [hdd]
        exact hsized
      · have hmode := hc.mode d' hd' hdn'
        rw [(hc.other d' hd' hdn' hdd).size]
        exact hs.sized d' hd' (used_congr hmode ▸ hu') (isDirectory_congr hmode ▸ hdir')
  · rcases hlive.1.mp hl with ⟨rfl, rfl⟩ | hold'
    · refine ⟨?_, ?_, ?_, hc.nameLength⟩
      · rw [hc.inode, hc.layout]
        exact hlt
      · rw [hc.inode]
        exact hc.used
      · rw [hc.inode]
        exact hc.type
    · obtain ⟨hilt, hiu, htype, hname⟩ := hs.entry d' off' hold'
      have hmode := hc.mode _ hilt (hold_ne hold')
      have hbytes := hlive.2 hold'
      refine ⟨?_, ?_, ?_, ?_⟩
      · rw [(hentry hold').1, hc.layout]
        exact hilt
      · rw [(hentry hold').1, used_congr hmode]
        exact hiu
      · rw [(hentry hold').1, isDirectory_congr hmode, hbytes 4 (by omega)]
        exact htype
      · rw [hbytes 5 (by omega)]
        exact hname
  · rcases hlive.1.mp hl₁ with ⟨rfl, rfl⟩ | hold₁
    · rcases hlive.1.mp hl₂ with ⟨rfl, rfl⟩ | hold₂
      · exact ⟨rfl, rfl⟩
      · rw [hc.inode, (hentry hold₂).1] at heq
        exact absurd heq.symm (hold_ne hold₂)
    · rcases hlive.1.mp hl₂ with ⟨rfl, rfl⟩ | hold₂
      · rw [hc.inode, (hentry hold₁).1] at heq
        exact absurd heq (hold_ne hold₁)
      · rw [(hentry hold₁).1, (hentry hold₂).1] at heq
        exact hs.once d₁ off₁ d₂ off₂ hold₁ hold₂ heq
  · rw [hc.layout] at hi
    by_cases hin : i = n
    · exact ⟨d, off, hlive.1.mpr (.inl ⟨rfl, rfl⟩), hin ▸ hc.inode⟩
    · rw [hused i hi hin] at hui
      obtain ⟨d', off', hl, heq⟩ := hs.named i hi hui hne
      exact ⟨d', off', hlive.1.mpr (.inr hl), (hentry hl).1.trans heq⟩
  · rcases hlive.1.mp hl₁ with ⟨rfl, rfl⟩ | hold₁
    · rcases hlive.1.mp hl₂ with ⟨-, rfl⟩ | hold₂
      · rfl
      · rw [hc.name, (hentry hold₂).2] at heq
        exact absurd heq.symm (hold_name hold₂)
    · rcases hlive.1.mp hl₂ with ⟨rfl, rfl⟩ | hold₂
      · rw [hc.name, (hentry hold₁).2] at heq
        exact absurd heq (hold_name hold₁)
      · rw [(hentry hold₁).2, (hentry hold₂).2] at heq
        exact hs.names d' off₁ off₂ hold₁ hold₂ heq

end Created

/-! ## An entry less -/

/-- The entry in slot `off` of directory `d` is gone, and its inode `n` is free. -/
structure Removed (v v' : TrashfsVolume) (d off n : Nat) : Prop where
  layout : v'.toTrashfsLayout = v.toTrashfsLayout
  freeInodes : v'.freeInodes = v.freeInodes + 1
  mapped : Mapped v'
  mode : ∀ i < v.inodeCount, i ≠ n → inodeMode v' i = inodeMode v i
  unused : v'.inodeUsed n = false
  other : ∀ i < v.inodeCount, i ≠ n → i ≠ d → SameFile v v' i
  size : v'.dirSize d = v.dirSize d
  zeroed : ∀ k < 48, fileByte v' d (off + k) = 0
  kept : ∀ x, (x < off ∨ off + 48 ≤ x) → fileByte v' d x = fileByte v d x
  empty : NoBlocks v' n
  blocks : ∀ q, q.Valid v.toTrashfsLayout → q.ino ≠ n → v'.blockAt q = v.blockAt q

section Removed

variable {n : Nat}

theorem Removed.live (hl : Live v d off) (hnd : n ≠ d) (hleaf : ∀ off', ¬Live v n off')
    (hr : Removed v v' d off n) (d' off' : Nat) :
    (Live v' d' off' ↔ Live v d' off' ∧ ¬(d' = d ∧ off' = off)) ∧
      (Live v' d' off' → ∀ k < 48, fileByte v' d' (off' + k) = fileByte v d' (off' + k)) := by
  have hdmode := hr.mode d hl.lt hnd.symm
  by_cases hdd : d' = d
  · subst hdd
    by_cases hoff : off' = off
    · subst hoff
      have hdead : ¬Live v' d' off' := fun hlive => hlive.inode (direntInode_zero hr.zeroed)
      exact ⟨⟨fun hlive => absurd hlive hdead, fun hand => absurd ⟨rfl, rfl⟩ hand.2⟩,
        fun hlive => absurd hlive hdead⟩
    · have hbytes : SlotAt off' → ∀ k < 48,
          fileByte v' d' (off' + k) = fileByte v d' (off' + k) := by
        intro hs' k hk
        have hapart := hs'.apart hl.slot hoff
        exact hr.kept _ (by omega)
      refine ⟨⟨fun hlive => ⟨⟨hl.lt, hl.used, hl.dir, hlive.slot, hr.size ▸ hlive.size, ?_⟩,
        fun hand => hoff hand.2⟩, fun hand => ?_⟩, fun hlive => hbytes hlive.slot⟩
      · rw [← direntInode_congr (hbytes hlive.slot)]
        exact hlive.inode
      · refine ⟨hr.layout.symm ▸ hl.lt, used_congr hdmode ▸ hl.used,
          isDirectory_congr hdmode ▸ hl.dir, hand.1.slot, hr.size.symm ▸ hand.1.size, ?_⟩
        rw [direntInode_congr (hbytes hand.1.slot)]
        exact hand.1.inode
  · have hother : ¬(d' = d ∧ off' = off) := fun h => hdd h.1
    by_cases hnn : d' = n
    · subst hnn
      have hdead : ¬Live v' d' off' := by
        intro hlive
        have hused := hlive.used
        rw [hr.unused] at hused
        cases hused
      exact ⟨⟨fun hlive => absurd hlive hdead, fun hand => absurd hand.1 (hleaf off')⟩,
        fun hlive => absurd hlive hdead⟩
    · by_cases hlt : d' < v.inodeCount
      · have hsame := hr.other d' hlt hnn hdd
        exact ⟨(hsame.live hr.layout).trans (and_iff_left hother).symm, fun _ k _ => hsame.bytes _⟩
      · exact ⟨⟨fun hlive => absurd (hr.layout ▸ hlive.lt) hlt,
          fun hand => absurd hand.1.lt hlt⟩, fun hlive => absurd (hr.layout ▸ hlive.lt) hlt⟩

theorem Sound.removed (hs : Sound v) (hl : Live v d off)
    (hn : direntInode (fileByte v d) off = n) (hleaf : ∀ off', ¬Live v n off')
    (hr : Removed v v' d off n) : Sound v' := by
  have hnd : n ≠ d := by
    rintro rfl
    exact hleaf off hl
  have hlive := fun {d' off'} => hr.live hl hnd hleaf d' off'
  have hnlt : n < v.inodeCount := hn ▸ (hs.entry d off hl).lt
  have hnu : v.inodeUsed n = true := hn ▸ (hs.entry d off hl).used
  have hn0 : n ≠ 0 := hn ▸ hl.inode
  have hused : ∀ i < v.inodeCount, i ≠ n → v'.inodeUsed i = v.inodeUsed i :=
    fun i hi hne => used_congr (hr.mode i hi hne)
  have hentry : ∀ {d' off'}, Live v' d' off' →
      direntInode (fileByte v' d') off' = direntInode (fileByte v d') off' ∧
        entryName (fileByte v' d') off' = entryName (fileByte v d') off' ∧
        direntInode (fileByte v d') off' ≠ n := by
    intro d' off' hl'
    have hbytes := hlive.2 hl'
    obtain ⟨hold, hne⟩ := hlive.1.mp hl'
    refine ⟨direntInode_congr hbytes, entryName_congr (hs.entry d' off' hold).name hbytes,
      fun heq => hne ?_⟩
    exact hs.once d' off' d off hold hl (heq.trans hn.symm)
  refine ⟨hr.mapped, ?_, fun i hi hui => ?_, ?_, fun d' hd' hu' hdir' => ?_, fun d' off' hl' => ?_,
    fun d₁ off₁ d₂ off₂ hl₁ hl₂ heq => ?_, fun i hi hui hne => ?_, fun d' off₁ off₂ hl₁ hl₂ heq => ?_⟩
  · have hcount : v'.inodeCount = v.inodeCount := congrArg _ hr.layout
    have hflip : unusedInodes v' = unusedInodes v + 1 :=
      unusedInodes_flip hcount.symm (hcount ▸ hnlt) hr.unused hnu fun i hi hne =>
        (hused i (hcount ▸ hi) hne).symm
    rw [hr.freeInodes, hs.freeInodes, hflip]
  · rw [hr.layout] at hi
    by_cases hin : i = n
    · rw [hin]
      exact hr.empty
    · rw [hused i hi hin] at hui
      intro q hq hqi
      rw [hr.layout] at hq
      rw [hr.blocks q hq (hqi ▸ hin)]
      exact hs.idle i hi hui q hq hqi
  · obtain ⟨hpos, hu0, hdir0⟩ := hs.root
    have hmode := hr.mode 0 hpos hn0.symm
    exact ⟨hr.layout.symm ▸ hpos, used_congr hmode ▸ hu0, isDirectory_congr hmode ▸ hdir0⟩
  · rw [hr.layout] at hd'
    by_cases hdn' : d' = n
    · rw [hdn', hr.unused] at hu'
      cases hu'
    · have hmode := hr.mode d' hd' hdn'
      have hold := hs.sized d' hd' (used_congr hmode ▸ hu') (isDirectory_congr hmode ▸ hdir')
      by_cases hdd : d' = d
      · rw [hdd, hr.size]
        exact hdd ▸ hold
      · rw [(hr.other d' hd' hdn' hdd).size]
        exact hold
  · obtain ⟨hino, -, hne⟩ := hentry hl'
    obtain ⟨hilt, hiu, htype, hname⟩ := hs.entry d' off' (hlive.1.mp hl').1
    have hmode := hr.mode _ hilt hne
    have hbytes := hlive.2 hl'
    refine ⟨?_, ?_, ?_, ?_⟩
    · rw [hino, hr.layout]
      exact hilt
    · rw [hino, used_congr hmode]
      exact hiu
    · rw [hino, isDirectory_congr hmode, hbytes 4 (by omega)]
      exact htype
    · rw [hbytes 5 (by omega)]
      exact hname
  · rw [(hentry hl₁).1, (hentry hl₂).1] at heq
    exact hs.once d₁ off₁ d₂ off₂ (hlive.1.mp hl₁).1 (hlive.1.mp hl₂).1 heq
  · rw [hr.layout] at hi
    have hin : i ≠ n := by
      rintro rfl
      rw [hr.unused] at hui
      cases hui
    rw [hused i hi hin] at hui
    obtain ⟨d', off', hold, heq⟩ := hs.named i hi hui hne
    have hl' : Live v' d' off' := by
      refine hlive.1.mpr ⟨hold, ?_⟩
      rintro ⟨rfl, rfl⟩
      exact hin (heq.symm.trans hn)
    exact ⟨d', off', hl', (hentry hl').1.trans heq⟩
  · rw [(hentry hl₁).2.1, (hentry hl₂).2.1] at heq
    exact hs.names d' off₁ off₂ (hlive.1.mp hl₁).1 (hlive.1.mp hl₂).1 heq

end Removed

end Microgarbage.Storage
