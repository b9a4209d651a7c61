import Mathlib.Data.List.Nodup
import Microgarbage.Io.Descriptors
import Microgarbage.Lib.Bytes

/-!
# Streams of chunks

`stream_arbiter.c`, its calls in `stream_ecalls.c` and the guest library `mg_stream.c`, over the
descriptor table. Every slot of the arbiter has a ring of chunks between the arbiter's tick, which
reads the file, and the guest. The ring is the queue that `Containers.SpscRing` shows it to be.
-/

namespace Microgarbage.Io

open Lib FdSys BitVec
open Function (update update_of_ne update_self)

/-! ## The arbiter -/

def streamArbiterMax : Nat := 4
def streamArbiterMaxChunkBytes : Nat := 64 * 1024

/-- A file that is open, and where the next read starts. -/
structure FileAt where
  content : List Byte
  pos : Nat
  deriving DecidableEq

/-- What is left of the file. -/
def FileAt.rest (f : FileAt) : List Byte := f.content.drop f.pos

/-- `StreamProducer`. -/
inductive Producer
  /-- `FileChunkCtx`. -/
  | fileChunk (fd : Int) (eof : Bool)
  /-- A producer of the host, as the video player's. -/
  | host
  deriving DecidableEq

structure StreamSlot where
  producer : Producer
  chunkBytes : Nat
  depth : Nat
  ring : List (List Byte)
  eof : Bool
  deriving DecidableEq

/-- What `spsc_ring_push` leaves of a slot. -/
def StreamSlot.push (slot : StreamSlot) (chunk : List Byte) : StreamSlot :=
  { slot with ring := slot.ring ++ [chunk] }

/-- The slot's producer reads from the descriptor. -/
def StreamSlot.reads (slot : StreamSlot) (fd : Int) : Bool :=
  match slot.producer with
  | .fileChunk fd' _ => decide (fd' = fd) && !slot.eof
  | .host => false

/-- An open stream of a VM. -/
structure Held where
  /-- The VM, by the number of its load. -/
  vm : Nat
  handle : BitVec 32
  slot : Nat
  chunkBytes : Nat
  /-- The file from the position at opening on. -/
  source : List Byte
  /-- The chunks the handle has returned. -/
  got : List (List Byte)
  deriving DecidableEq

structure StreamSys where
  fs : FdSys FileAt
  slots : Nat → Option StreamSlot
  rotation : BitVec 32
  held : List Held

/-- A read that the backend fails. -/
structure Fault where
  errno : Nat
  /-- Where it leaves the file. -/
  pos : Nat

/-- What a producer of the host does in a tick. -/
inductive HostFill
  | filled (chunk : List Byte)
  | nothing (atEof : Bool)

/-- The file behind a descriptor. -/
def FdSys.fileAt (fs : FdSys FileAt) (fd : Int) : Option FileAt :=
  if fd < fdBase ∨ fdLimit ≤ fd then none
  else
    match fs.fds (index fd) with
    | .hostFile file _ => some file
    | .trashFile file => some file
    | _ => none

namespace StreamSys

variable (s : StreamSys)

def isPow2 (v : BitVec 32) : Bool := decide (2 ≤ v) && v &&& (v - 1) == 0

/-- The arguments that `stream_arbiter_register_producer` accepts; `mem` tells whether the
allocations succeed. -/
def accepts (slotBytes depth : BitVec 32) (mem : Bool) : Bool :=
  slotBytes != 0 && decide (slotBytes.toNat ≤ streamArbiterMaxChunkBytes) && isPow2 depth && mem

def freeSlot : Option Nat := (List.range streamArbiterMax).find? fun i => (s.slots i).isNone

/-- `stream_arbiter_register_producer`. -/
def registerProducer (producer : Producer) (slotBytes depth : BitVec 32) (mem : Bool) :
    Option (StreamSys × Nat) :=
  if accepts slotBytes depth mem then
    s.freeSlot.map fun i =>
      ({ s with
          slots := update s.slots i
            (some ⟨producer, slotBytes.toNat, depth.toNat, [], false⟩) }, i)
  else none

/-- `stream_arbiter_register`, and `h_stream_register`. -/
def register (fd : BitVec 32) (chunkBytes depth : BitVec 32) (mem : Bool) :
    Option (StreamSys × Nat) :=
  if fd.toInt < 0 then none
  else s.registerProducer (.fileChunk fd.toInt false) chunkBytes depth mem

/-- `slot_for`; the handles of the library are not negative. -/
def slotFor (h : Nat) : Option StreamSlot := if streamArbiterMax ≤ h then none else s.slots h

/-- `stream_arbiter_unregister`. -/
def unregister (h : Nat) : StreamSys :=
  if (s.slotFor h).isSome then { s with slots := update s.slots h none } else s

/-- `file_chunk_fill`. -/
def fileChunkFill (fs : FdSys FileAt) (fd : Int) (n : Nat) (fault : Option Fault) :
    FdSys FileAt × Option (List Byte) :=
  match fs.fileAt fd with
  | none => (fs, none)
  | some f =>
    match fault with
    | some e => ((fs.fsReadFd fd (-e.errno) { f with pos := e.pos }).sys, none)
    | none =>
      let chunk := f.rest.take n
      ((fs.fsReadFd fd chunk.length { f with pos := f.pos + chunk.length }).sys,
        if chunk.length < n then none else some chunk)

/-- One slot in a tick. -/
def tickSlot (fault : Option Fault) (host : HostFill) (i : Nat) : StreamSys :=
  match s.slots i with
  | none => s
  | some slot =>
    if slot.eof then s
    else if slot.depth ≤ slot.ring.length + 1 then s
    else
      match slot.producer with
      | .fileChunk fd _ =>
        match fileChunkFill s.fs fd slot.chunkBytes fault with
        | (fs', none) =>
          { s with
            fs := fs'
            slots := update s.slots i
              (some { slot with producer := .fileChunk fd true, eof := true }) }
        | (fs', some chunk) =>
          { s with
            fs := fs'
            slots := update s.slots i (some (slot.push chunk)) }
      | .host =>
        match host with
        | .nothing atEof =>
          { s with slots := update s.slots i (some { slot with eof := atEof }) }
        | .filled chunk =>
          { s with
            slots := update s.slots i (some (slot.push chunk)) }

/-- `stream_arbiter_tick`. -/
def tick (faults : Nat → Option Fault) (host : Nat → HostFill) : StreamSys :=
  (List.range streamArbiterMax).foldl
    (fun s' k =>
      let i := (s.rotation.toNat + k) % streamArbiterMax
      s'.tickSlot (faults i) (host i) i)
    { s with rotation := s.rotation + 1 }

/-- `stream_arbiter_consume`, on a slot in use. -/
def pop (i : Nat) (slot : StreamSlot) : Option (StreamSys × List Byte) :=
  match slot.ring with
  | [] => none
  | chunk :: ring =>
    some ({ s with slots := update s.slots i (some { slot with ring := ring }) }, chunk)

/-- `h_stream_consume`: the chunk it copies, and the result. -/
def streamConsume (h : Nat) (cap : BitVec 32) (mapped : Bool) : StreamSys × Option (List Byte) × Int :=
  match s.slotFor h with
  | none => (s, none, -vmEbadf)
  | some slot =>
    if cap.toNat < slot.chunkBytes then (s, none, -vmEinval)
    else if !mapped then (s, none, -vmEfault)
    else
      match s.pop h slot with
      | some (s', chunk) => (s', some chunk, slot.chunkBytes)
      | none => (s, none, if slot.eof then -1 else 0)

/-! ## The guest library -/

def mgOwnsFdBit : BitVec 32 := 1 <<< 30

def packHandle (fd arb : BitVec 32) (ownsFd : Bool) : BitVec 32 :=
  let h := (fd <<< 16) ||| (arb &&& 0xFFFF)
  if ownsFd then h ||| mgOwnsFdBit else h

def unpackFd (h : BitVec 32) : BitVec 32 := h.sshiftRight 16 &&& 0x7FFF

def unpackArb (h : BitVec 32) : BitVec 32 := h &&& 0xFFFF

def unpackOwns (h : BitVec 32) : Bool := h &&& mgOwnsFdBit != 0

/-- The chunk that a consume of the handle takes is noted with the handle. -/
def note (vm : Nat) (h : BitVec 32) (chunk : List Byte) : StreamSys :=
  { s with
    held := s.held.map fun r =>
      if r.vm = vm ∧ r.handle = h then { r with got := r.got ++ [chunk] } else r }

/-- `mg_stream_open_fd`. -/
def mgStreamOpenFd (vm : Nat) (fd chunkBytes depth : BitVec 32) (mem : Bool) : StreamSys :=
  if fd.toInt < 0 then s
  else
    match s.register fd chunkBytes depth mem with
    | none => s
    | some (s', arb) =>
      { s' with
        held := ⟨vm, packHandle fd arb false, arb, chunkBytes.toNat,
          ((s.fs.fileAt fd.toInt).map FileAt.rest).getD [], []⟩ :: s.held }

/-- `mg_stream_open`. -/
def mgStreamOpen (vm : Nat) (target : OpenTarget FileAt) (chunkBytes depth : BitVec 32)
    (mem closed : Bool) : StreamSys :=
  let o := s.fs.handleOpenat vm target
  if o.a0 < 0 then { s with fs := o.sys }
  else
    let fd := BitVec.ofInt 32 o.a0
    match register { s with fs := o.sys } fd chunkBytes depth mem with
    | none => { s with fs := (o.sys.handleClose fd closed).sys }
    | some (s', arb) =>
      { s' with
        held := ⟨vm, packHandle fd arb true, arb, chunkBytes.toNat,
          ((o.sys.fileAt fd.toInt).map FileAt.rest).getD [], []⟩ :: s.held }

/-- A round of the loop of `mg_stream_consume`: the loop ends when the result is not 0. -/
def mgStreamConsume (vm : Nat) (h cap : BitVec 32) (mapped : Bool) : StreamSys :=
  if h.toInt < 0 then s
  else
    match s.streamConsume (unpackArb h).toNat cap mapped with
    | (s', some chunk, _) => s'.note vm h chunk
    | (s', none, _) => s'

/-- `mg_stream_close`. -/
def mgStreamClose (vm : Nat) (h : BitVec 32) (closed : Bool) : StreamSys :=
  if h.toInt < 0 then s
  else
    let s' := s.unregister (unpackArb h).toNat
    { s' with
      fs := if unpackOwns h then (s'.fs.handleClose (unpackFd h) closed).sys else s'.fs
      held := s.held.filter fun r => ¬ (r.vm = vm ∧ r.handle = h) }

end StreamSys

/-! ## The machine -/

inductive StreamEvent
  | load (vm : Nat)
  | stop (vm : Nat)
  /-- `vm_system_unload_vm`: the arbiter has no hook. -/
  | unload (vm : Nat)
  | openFd (vm : Nat) (fd chunkBytes depth : BitVec 32) (mem : Bool)
  | openPath (vm : Nat) (target : OpenTarget FileAt) (chunkBytes depth : BitVec 32)
      (mem closed : Bool)
  | consume (vm : Nat) (h cap : BitVec 32) (mapped : Bool)
  | close (vm : Nat) (h : BitVec 32) (closed : Bool)
  | tick (faults : Nat → Option Fault) (host : Nat → HostFill)
  /-- The host takes a chunk from a stream of its own. -/
  | hostConsume (i : Nat)

namespace StreamSys

variable (s : StreamSys)

/-- The number of a VM that can make a call. -/
def caller (vm : Nat) : Option Nat :=
  match s.fs.vms vm with
  | some v => if v.halted then none else some v.serial
  | none => none

/-- The C library's errors are positive. -/
def errnosPositive : OpenTarget FileAt → Bool
  | .rejected e => decide (0 < e)
  | .hostDir (.error e) _ | .hostFile _ _ (.error e) | .trashDir (.error e)
  | .trashFile (.error e) => decide (0 < e)
  | _ => true

def step : StreamEvent → Option StreamSys
  | .load vm => (s.fs.step (.load vm)).map fun fs => { s with fs := fs }
  | .stop vm => (s.fs.step (.stop vm)).map fun fs => { s with fs := fs }
  | .unload vm =>
    match s.fs.vms vm with
    | none => none
    | some v => (s.fs.step (.unload vm)).map fun fs =>
        { s with fs := fs, held := s.held.filter fun r => r.vm ≠ v.serial }
  | .openFd vm fd chunkBytes depth mem =>
    (s.caller vm).map fun me => s.mgStreamOpenFd me fd chunkBytes depth mem
  | .openPath vm target chunkBytes depth mem closed =>
    if errnosPositive target then
      (s.caller vm).map fun me => s.mgStreamOpen me target chunkBytes depth mem closed
    else none
  | .consume vm h cap mapped => (s.caller vm).map fun me => s.mgStreamConsume me h cap mapped
  | .close vm h closed => (s.caller vm).map fun me => s.mgStreamClose me h closed
  | .tick faults host => some (s.tick faults host)
  | .hostConsume i =>
    match s.slotFor i with
    | none => none
    | some slot => if slot.producer = .host then (s.pop i slot).map Prod.fst else none

/-! ## What streams promise -/

def chunkAt (source : List Byte) (n k : Nat) : List Byte := (source.drop (k * n)).take n

/-- The consecutive whole chunks of a file. -/
def wholeChunks (source : List Byte) (n : Nat) : List (List Byte) :=
  (List.range (source.length / n)).map (chunkAt source n)

/-- The VM has opened the handle and not closed it. -/
def Holds (vm : Nat) (h : BitVec 32) : Prop := ∃ r ∈ s.held, r.vm = vm ∧ r.handle = h

/-- With every stream closed, or its VM unloaded, descriptors and slots are as they were. -/
def Restored (s₀ s : StreamSys) : Prop :=
  s.held = [] → (∀ i, (s.fs.fds i).isFree = (s₀.fs.fds i).isFree) ∧
    ∀ i, (s.slots i).isSome = (s₀.slots i).isSome

/-- Each handle has returned the chunks of its file from the first on. -/
def InOrder : Prop := ∀ r ∈ s.held, r.got <+: wholeChunks r.source r.chunkBytes

/-- A call with a handle that the VM does not hold leaves every stream alone. -/
def Confined : StreamEvent → Prop
  | .consume vm h cap mapped => ∀ me, s.caller vm = some me → ¬ s.Holds me h →
      (s.mgStreamConsume me h cap mapped).slots = s.slots
  | .close vm h closed => ∀ me, s.caller vm = some me → ¬ s.Holds me h →
      (s.mgStreamClose me h closed).slots = s.slots
  | _ => True

/-- A consume finds a chunk that it can deliver. -/
def Ready (h : Nat) (cap : BitVec 32) (mapped : Bool) : Prop :=
  ∃ slot ∈ s.slotFor h, slot.chunkBytes ≤ cap.toNat ∧ mapped = true ∧ slot.ring ≠ []

/-- A stream is opened by its path, or on an open descriptor that no other stream reads. A VM uses the
handles it holds, closes none that it opened by a path, and has no stream when it is unloaded. -/
def StreamOk : StreamEvent → Prop
  | .openFd _ fd chunkBytes depth mem => accepts chunkBytes depth mem = true →
      s.freeSlot.isSome → (fdBase ≤ fd.toInt ∧ fd.toInt < fdLimit ∧
        (s.fs.fds (index fd.toInt)).isFree = false) ∧
      ∀ i < streamArbiterMax, ∀ slot ∈ s.slots i, slot.reads fd.toInt = false
  | .consume vm h cap mapped => ∀ me ∈ s.caller vm, 0 ≤ h.toInt →
      s.Ready (unpackArb h).toNat cap mapped → s.Holds me h
  | .close vm h _ => ∀ me ∈ s.caller vm, 0 ≤ h.toInt →
      (s.slotFor (unpackArb h).toNat).isSome → s.Holds me h ∧ unpackOwns h = false
  | .unload vm => ∀ v ∈ s.fs.vms vm, ∀ r ∈ s.held, r.vm ≠ v.serial
  | _ => True

instance (vm : Nat) (h : BitVec 32) : Decidable (s.Holds vm h) :=
  inferInstanceAs (Decidable (∃ r ∈ s.held, r.vm = vm ∧ r.handle = h))

instance (h : Nat) (cap : BitVec 32) (mapped : Bool) : Decidable (s.Ready h cap mapped) :=
  inferInstanceAs (Decidable (∃ slot ∈ s.slotFor h, _))

instance StreamOk.decidable : ∀ e, Decidable (s.StreamOk e)
  | .load _ | .stop _ | .openPath .. | .tick .. | .hostConsume _ => isTrue trivial
  | .unload vm => inferInstanceAs (Decidable (∀ v ∈ s.fs.vms vm, ∀ r ∈ s.held, r.vm ≠ v.serial))
  | .openFd _ fd chunkBytes depth mem =>
    inferInstanceAs (Decidable (accepts chunkBytes depth mem = true → s.freeSlot.isSome →
      (fdBase ≤ fd.toInt ∧ fd.toInt < fdLimit ∧ (s.fs.fds (index fd.toInt)).isFree = false) ∧
      ∀ i < streamArbiterMax, ∀ slot ∈ s.slots i, slot.reads fd.toInt = false))
  | .consume vm h cap mapped =>
    inferInstanceAs (Decidable (∀ me ∈ s.caller vm, 0 ≤ h.toInt →
      s.Ready (unpackArb h).toNat cap mapped → s.Holds me h))
  | .close vm h _ =>
    inferInstanceAs (Decidable (∀ me ∈ s.caller vm, 0 ≤ h.toInt →
      (s.slotFor (unpackArb h).toNat).isSome → s.Holds me h ∧ unpackOwns h = false))

/-! ## Chunks -/

theorem wholeChunks_snoc {source : List Byte} {n : Nat} {l : List (List Byte)} (hn : 0 < n)
    (h : l <+: wholeChunks source n) (hlen : (chunkAt source n l.length).length = n) :
    l ++ [chunkAt source n l.length] <+: wholeChunks source n := by
  have hroom : l.length * n + n ≤ source.length := by
    unfold chunkAt at hlen
    rw [List.length_take, List.length_drop] at hlen
    omega
  have hlt : l.length < source.length / n := by
    rw [Nat.lt_iff_add_one_le, Nat.le_div_iff_mul_le hn, Nat.succ_mul]
    exact hroom
  have hlen' : l.length < (wholeChunks source n).length := by
    unfold wholeChunks
    rwa [List.length_map, List.length_range]
  have hget : (wholeChunks source n)[l.length] = chunkAt source n l.length := by
    simp only [wholeChunks, List.getElem_map, List.getElem_range]
  have heq : l = (wholeChunks source n).take l.length := List.prefix_iff_eq_take.mp h
  have hsnoc : l ++ [chunkAt source n l.length] = (wholeChunks source n).take (l.length + 1) := by
    rw [← List.take_append_getElem hlen', hget, ← heq]
  rw [hsnoc]
  exact List.take_prefix ..

/-! ## Reading a file -/

section Files

variable {fs : FdSys FileAt} {fd : Int} {f : FileAt}

theorem fileAt_eq_some (h : fs.fileAt fd = some f) : fdBase ≤ fd ∧ fd < fdLimit ∧
    ((∃ writable, fs.fds (index fd) = .hostFile f writable) ∨ fs.fds (index fd) = .trashFile f) := by
  unfold FdSys.fileAt at h
  split at h
  · cases h
  · rename_i hrange
    refine ⟨by omega, by omega, ?_⟩
    split at h
    · rename_i file writable hslot
      cases h
      exact .inl ⟨writable, hslot⟩
    · rename_i file hslot
      cases h
      exact .inr hslot
    · cases h

theorem fileAt_congr {fs' : FdSys FileAt} (h : fs'.fds = fs.fds) (fd : Int) :
    fs'.fileAt fd = fs.fileAt fd := by
  unfold FdSys.fileAt
  rw [h]

theorem index_inj {fd fd' : Int} (h : fdBase ≤ fd) (h' : fdBase ≤ fd') (he : index fd = index fd') :
    fd = fd' := by
  have hbase : fdBase = 3 := rfl
  unfold index at he
  omega

theorem fileAt_update {slot : FdSlot FileAt} (h : fs.fileAt fd = some f) (fd' : Int) :
    (fs.setSlot (index fd) slot).fileAt fd' =
      if fd' = fd then
        (match slot with
          | .hostFile file _ => some file
          | .trashFile file => some file
          | _ => none)
      else fs.fileAt fd' := by
  obtain ⟨hlo, hhi, -⟩ := fileAt_eq_some h
  by_cases he : fd' = fd
  · subst he
    rw [if_pos rfl]
    unfold FdSys.fileAt FdSys.setSlot
    rw [if_neg (by omega)]
    dsimp only
    rw [update_self]
  · rw [if_neg he]
    unfold FdSys.fileAt FdSys.setSlot
    by_cases hrange : fd' < fdBase ∨ fdLimit ≤ fd'
    · rw [if_pos hrange, if_pos hrange]
    · rw [if_neg hrange, if_neg hrange]
      dsimp only
      rw [update_of_ne fun hi => he (index_inj (by omega) hlo hi)]

/-- What a read does to the table. -/
structure ReadTo (fs : FdSys FileAt) (fd : Int) (f' : FileAt) (fs' : FdSys FileAt) : Prop where
  vms : fs'.vms = fs.vms
  free : ∀ i, (fs'.fds i).isFree = (fs.fds i).isFree
  at_fd : fs'.fileAt fd = some f'
  other : ∀ fd', fd' ≠ fd → fs'.fileAt fd' = fs.fileAt fd'

theorem fsReadFd_readTo (h : fs.fileAt fd = some f) (r : Int) (f' : FileAt) :
    ReadTo fs fd f' (fs.fsReadFd fd r f').sys := by
  obtain ⟨hlo, hhi, hslot⟩ := fileAt_eq_some h
  have hfree : ∀ slot : FdSlot FileAt, slot.isFree = (fs.fds (index fd)).isFree → ∀ i,
      ((fs.setSlot (index fd) slot).fds i).isFree = (fs.fds i).isFree := by
    intro slot hs i
    unfold FdSys.setSlot
    dsimp only
    by_cases hi : i = index fd
    · rw [hi, update_self, hs]
    · rw [update_of_ne hi]
  unfold FdSys.fsReadFd
  rw [if_neg (by omega), if_neg (by omega)]
  rcases hslot with ⟨writable, hs⟩ | hs
  · rw [hs]
    refine ⟨rfl, hfree _ (by rw [hs]; rfl), ?_, fun fd' hne => ?_⟩
    · rw [fileAt_update h, if_pos rfl]
    · rw [fileAt_update h, if_neg hne]
  · rw [hs]
    refine ⟨rfl, hfree _ (by rw [hs]; rfl), ?_, fun fd' hne => ?_⟩
    · rw [fileAt_update h, if_pos rfl]
    · rw [fileAt_update h, if_neg hne]

/-- What a fill of a ring leaves: the other files stay, and a chunk is the next one of the file. -/
structure FillTo (fs : FdSys FileAt) (fd : Int) (n : Nat) (out : FdSys FileAt × Option (List Byte)) :
    Prop where
  vms : out.1.vms = fs.vms
  free : ∀ i, (out.1.fds i).isFree = (fs.fds i).isFree
  other : ∀ fd', fd' ≠ fd → out.1.fileAt fd' = fs.fileAt fd'
  chunk : ∀ c ∈ out.2, ∃ f f', fs.fileAt fd = some f ∧ out.1.fileAt fd = some f' ∧
    c = f.rest.take n ∧ c.length = n ∧ f'.rest = f.rest.drop n

theorem fileChunkFill_fillTo (fs : FdSys FileAt) (fd : Int) (n : Nat) (fault : Option Fault) :
    FillTo fs fd n (fileChunkFill fs fd n fault) := by
  unfold fileChunkFill
  split
  · exact ⟨rfl, fun _ => rfl, fun _ _ => rfl, fun c hc => by cases hc⟩
  · rename_i f hf
    split
    · have h := fsReadFd_readTo hf (-↑(‹Fault›.errno)) { f with pos := ‹Fault›.pos }
      exact ⟨h.vms, h.free, h.other, fun c hc => by cases hc⟩
    · dsimp only
      have h := fsReadFd_readTo hf (f.rest.take n).length
        { f with pos := f.pos + (f.rest.take n).length }
      refine ⟨h.vms, h.free, h.other, fun c hc => ?_⟩
      dsimp only at hc
      split at hc
      · cases hc
      · rename_i hlen
        cases hc
        have hn : (f.rest.take n).length = n := by
          have := List.length_take_le n f.rest
          omega
        refine ⟨f, _, hf, h.at_fd, rfl, hn, ?_⟩
        unfold FileAt.rest at hn ⊢
        dsimp only
        rw [hn, List.drop_drop]

end Files

/-! ## The invariant -/

variable {s}

/-- A VM's stream has its slot, reads an open descriptor, and its handle names the slot. -/
structure HeldInv (s : StreamSys) (r : Held) (slot : StreamSlot) (fd : Int) : Prop where
  slot_eq : s.slots r.slot = some slot
  slot_lt : r.slot < streamArbiterMax
  producer : ∃ eof, slot.producer = .fileChunk fd eof
  chunkBytes : slot.chunkBytes = r.chunkBytes
  pos : 0 < r.chunkBytes
  nonneg : 0 ≤ r.handle.toInt
  arb : (unpackArb r.handle).toNat = r.slot
  chunks : r.got ++ slot.ring <+: wholeChunks r.source r.chunkBytes
  rest : slot.eof = false → ∀ f ∈ s.fs.fileAt fd,
    f.rest = r.source.drop ((r.got ++ slot.ring).length * r.chunkBytes)
  opened : slot.eof = false → (s.fs.fds (index fd)).isFree = false

/-- What holds between the calls. -/
structure StreamInv (s₀ s : StreamSys) : Prop where
  /-- A descriptor of the library's own is never given back. -/
  free : (∀ i, (s.fs.fds i).isFree = (s₀.fs.fds i).isFree) ∨
    ∃ r ∈ s.held, unpackOwns r.handle = true
  host : ∀ i, (s₀.slots i).isSome → ∃ slot, s.slots i = some slot ∧ slot.producer = .host
  used : ∀ i, (s.slots i).isSome → (s₀.slots i).isSome ∨ ∃ r ∈ s.held, r.slot = i
  held : ∀ r ∈ s.held, ∃ slot fd, HeldInv s r slot fd
  distinct : (s.held.map Held.slot).Nodup
  apart : ∀ r ∈ s.held, ∀ r' ∈ s.held, ∀ slot slot' fd, s.slots r.slot = some slot →
    s.slots r'.slot = some slot' → slot.reads fd = true → slot'.reads fd = true → r.slot = r'.slot

section Steps

variable {s₀ : StreamSys}

theorem HeldInv.used {r : Held} {slot : StreamSlot} {fd : Int} (h : HeldInv s r slot fd) :
    (s.slots r.slot).isSome := by
  rw [h.slot_eq]
  rfl

variable {s' : StreamSys}

theorem HeldInv.congr {r : Held} {slot : StreamSlot} {fd : Int} (h : HeldInv s r slot fd)
    (hslot : s'.slots r.slot = s.slots r.slot)
    (hfile : slot.eof = false → s'.fs.fileAt fd = s.fs.fileAt fd)
    (hopen : ∀ i, (s.fs.fds i).isFree = false → (s'.fs.fds i).isFree = false) :
    HeldInv s' r slot fd :=
  { h with
    slot_eq := hslot.trans h.slot_eq
    rest := fun he f hf => h.rest he f (hfile he ▸ hf)
    opened := fun he => hopen _ (h.opened he) }

theorem StreamInv.congr (h : StreamInv s₀ s) (hfds : s'.fs.fds = s.fs.fds)
    (hslots : s'.slots = s.slots) (hheld : s'.held = s.held) : StreamInv s₀ s' where
  free := by
    rw [hfds, hheld]
    exact h.free
  host i := by
    rw [hslots]
    exact h.host i
  used i := by
    rw [hslots, hheld]
    exact h.used i
  held r hr := by
    rw [hheld] at hr
    obtain ⟨slot, fd, hinv⟩ := h.held r hr
    exact ⟨slot, fd, hinv.congr (congrFun hslots _) (fun _ => fileAt_congr hfds fd) fun i => hfds ▸ id⟩
  distinct := by
    rw [hheld]
    exact h.distinct
  apart := by
    rw [hheld, hslots]
    exact h.apart

theorem StreamInv.not_host (h : StreamInv s₀ s) {r : Held} (hr : r ∈ s.held) :
    (s₀.slots r.slot).isSome = false := by
  obtain ⟨slot, fd, hinv⟩ := h.held r hr
  cases hs : (s₀.slots r.slot).isSome with
  | false => rfl
  | true =>
    obtain ⟨slot', hslot', hhost⟩ := h.host _ hs
    obtain ⟨eof, hfile⟩ := hinv.producer
    rw [hinv.slot_eq, Option.some.injEq] at hslot'
    rw [← hslot', hfile] at hhost
    cases hhost

theorem StreamInv.slot_inj (h : StreamInv s₀ s) {r r' : Held} (hr : r ∈ s.held) (hr' : r' ∈ s.held)
    (he : r.slot = r'.slot) : r = r' :=
  List.inj_on_of_nodup_map h.distinct hr hr' he

theorem StreamInv.slotFor_eq (h : StreamInv s₀ s) {r : Held} (hr : r ∈ s.held) :
    (unpackArb r.handle).toNat = r.slot ∧ r.slot < streamArbiterMax ∧ (s.slots r.slot).isSome := by
  obtain ⟨slot, fd, hinv⟩ := h.held r hr
  exact ⟨hinv.arb, hinv.slot_lt, hinv.used⟩

theorem slotFor_eq_some {i : Nat} {slot : StreamSlot} (h : s.slotFor i = some slot) :
    i < streamArbiterMax ∧ s.slots i = some slot := by
  unfold slotFor at h
  split at h
  · cases h
  · rename_i hlt
    exact ⟨Nat.not_le.mp hlt, h⟩

/-! ### Ticks -/

theorem StreamInv.setHost (h : StreamInv s₀ s) {i : Nat} {slot slot' : StreamSlot}
    (hs : s.slots i = some slot) (hhost : slot.producer = .host) (hhost' : slot'.producer = .host) :
    StreamInv s₀ { s with slots := update s.slots i (some slot') } := by
  have hne : ∀ r ∈ s.held, r.slot ≠ i := by
    intro r hr he
    obtain ⟨slot'', fd, hinv⟩ := h.held r hr
    obtain ⟨eof, hfile⟩ := hinv.producer
    have heq := hinv.slot_eq
    rw [he, hs, Option.some.injEq] at heq
    rw [← heq, hhost] at hfile
    cases hfile
  refine ⟨h.free, fun j hj => ?_, fun j hj => ?_, fun r hr => ?_, h.distinct, ?_⟩
  · dsimp only
    by_cases hji : j = i
    · rw [hji, update_self]
      exact ⟨slot', rfl, hhost'⟩
    · rw [update_of_ne hji]
      exact h.host j hj
  · dsimp only at hj
    by_cases hji : j = i
    · rw [hji]
      exact h.used i (by rw [hs]; rfl)
    · rw [update_of_ne hji] at hj
      exact h.used j hj
  · obtain ⟨slot'', fd, hinv⟩ := h.held r hr
    exact ⟨slot'', fd, hinv.congr (update_of_ne (hne r hr) ..) (fun _ => rfl) fun _ => id⟩
  · intro r hr r' hr' slot₁ slot₂ fd h₁ h₂
    dsimp only at h₁ h₂
    rw [update_of_ne (hne r hr)] at h₁
    rw [update_of_ne (hne r' hr')] at h₂
    exact h.apart r hr r' hr' slot₁ slot₂ fd h₁ h₂

theorem reads_eq_true {slot : StreamSlot} {fd : Int} (h : slot.reads fd = true) :
    (∃ eof, slot.producer = .fileChunk fd eof) ∧ slot.eof = false := by
  unfold StreamSlot.reads at h
  split at h
  · rename_i fd' eof hp
    simp only [Bool.and_eq_true, decide_eq_true_eq, Bool.not_eq_true'] at h
    exact ⟨⟨eof, h.1 ▸ hp⟩, h.2⟩
  · cases h

theorem reads_of_producer {slot : StreamSlot} {fd : Int} {eof : Bool}
    (h : slot.producer = .fileChunk fd eof) (he : slot.eof = false) : slot.reads fd = true := by
  unfold StreamSlot.reads
  rw [h]
  simp [he]

theorem StreamInv.setHeld (h : StreamInv s₀ s) {r : Held} (hr : r ∈ s.held)
    {slot slot' : StreamSlot} {fd : Int} {fs' : FdSys FileAt} (hs : s.slots r.slot = some slot)
    (hfree : ∀ i, (fs'.fds i).isFree = (s.fs.fds i).isFree)
    (hother : ∀ fd', fd' ≠ fd → fs'.fileAt fd' = s.fs.fileAt fd')
    (hreads : slot.reads fd = true) (hreads' : ∀ fd', slot'.reads fd' = true → fd' = fd)
    (hinv : HeldInv { s with fs := fs', slots := update s.slots r.slot (some slot') } r
      slot' fd) :
    StreamInv s₀ { s with fs := fs', slots := update s.slots r.slot (some slot') } := by
  have hne : ∀ r' ∈ s.held, r' ≠ r → r'.slot ≠ r.slot :=
    fun r' hr' hne he => hne (h.slot_inj hr' hr he)
  refine ⟨h.free.imp_left fun hold i => (hfree i).trans (hold i), fun j hj => ?_, fun j hj => ?_,
    fun r' hr' => ?_, h.distinct, ?_⟩
  · dsimp only
    have hji : j ≠ r.slot := by
      rintro rfl
      rw [h.not_host hr] at hj
      cases hj
    rw [update_of_ne hji]
    exact h.host j hj
  · dsimp only at hj ⊢
    by_cases hji : j = r.slot
    · exact .inr ⟨r, hr, hji.symm⟩
    · rw [update_of_ne hji] at hj
      exact h.used j hj
  · by_cases heq : r' = r
    · exact ⟨slot', fd, heq ▸ hinv⟩
    · obtain ⟨slot'', fd', hold⟩ := h.held r' hr'
      refine ⟨slot'', fd', hold.congr (update_of_ne (hne r' hr' heq) ..) (fun he => ?_)
        fun i hi => (hfree i).trans hi⟩
      refine hother fd' fun hfd => hne r' hr' heq ?_
      obtain ⟨eof, hp⟩ := hold.producer
      exact h.apart r' hr' r hr slot'' slot fd hold.slot_eq hs
        (hfd ▸ reads_of_producer hp he) hreads
  · intro r₁ hr₁ r₂ hr₂ slot₁ slot₂ fd' h₁ h₂ hread₁ hread₂
    dsimp only at h₁ h₂
    by_cases he₁ : r₁ = r <;> by_cases he₂ : r₂ = r
    · rw [he₁, he₂]
    · rw [he₁, update_self, Option.some.injEq] at h₁
      rw [update_of_ne (hne r₂ hr₂ he₂)] at h₂
      have hfd := hreads' fd' (h₁ ▸ hread₁)
      rw [he₁]
      exact h.apart r hr r₂ hr₂ slot slot₂ fd hs h₂ hreads (hfd ▸ hread₂)
    · rw [he₂, update_self, Option.some.injEq] at h₂
      rw [update_of_ne (hne r₁ hr₁ he₁)] at h₁
      have hfd := hreads' fd' (h₂ ▸ hread₂)
      rw [he₂]
      exact h.apart r₁ hr₁ r hr slot₁ slot fd h₁ hs (hfd ▸ hread₁) hreads
    · rw [update_of_ne (hne r₁ hr₁ he₁)] at h₁
      rw [update_of_ne (hne r₂ hr₂ he₂)] at h₂
      exact h.apart r₁ hr₁ r₂ hr₂ slot₁ slot₂ fd' h₁ h₂ hread₁ hread₂

theorem StreamInv.tickSlot (h : StreamInv s₀ s) (fault : Option Fault) (host : HostFill) (i : Nat) :
    StreamInv s₀ (s.tickSlot fault host i) := by
  unfold StreamSys.tickSlot
  split
  · exact h
  · rename_i slot hs
    split
    · exact h
    · rename_i heof
      split
      · exact h
      · split
        · rename_i fd eof hp
          have hheld : ∃ r ∈ s.held, r.slot = i := by
            rcases h.used i (by rw [hs]; rfl) with hhost | hheld
            · obtain ⟨slot', hs', hp'⟩ := h.host i hhost
              rw [hs, Option.some.injEq] at hs'
              rw [← hs', hp] at hp'
              cases hp'
            · exact hheld
          obtain ⟨r, hr, rfl⟩ := hheld
          have heof' : slot.eof = false := Bool.eq_false_iff.mpr heof
          have hreads := reads_of_producer hp heof'
          obtain ⟨slot', fd', hinv⟩ := h.held r hr
          obtain ⟨eof', hp'⟩ := hinv.producer
          have hslot' := hinv.slot_eq
          rw [hs, Option.some.injEq] at hslot'
          subst hslot'
          rw [hp] at hp'
          cases hp'
          have hfill := fileChunkFill_fillTo s.fs fd slot.chunkBytes fault
          split
          · rename_i fs' hout
            rw [hout] at hfill
            refine h.setHeld hr hs hfill.free hfill.other hreads (fun fd' hr' => ?_) ?_
            · exact absurd (reads_eq_true hr').2 (by simp)
            · exact { hinv with
                slot_eq := update_self ..
                producer := ⟨true, rfl⟩
                rest := fun he => by cases he
                opened := fun he => by cases he }
          · rename_i fs' chunk hout
            rw [hout] at hfill
            obtain ⟨f, f', hf, hf', hchunk, hlen, hrest⟩ := hfill.chunk chunk rfl
            refine h.setHeld hr hs hfill.free hfill.other hreads (fun fd' hr' => ?_) ?_
            · obtain ⟨⟨eof', hpush⟩, -⟩ := reads_eq_true hr'
              rw [show (slot.push chunk).producer = slot.producer from rfl, hp] at hpush
              cases hpush
              rfl
            · have hnext : chunk = chunkAt r.source r.chunkBytes (r.got ++ slot.ring).length := by
                rw [hchunk, hinv.rest heof' f hf, hinv.chunkBytes]
                rfl
              have happ : r.got ++ (slot.push chunk).ring = r.got ++ slot.ring ++ [chunk] :=
                (List.append_assoc ..).symm
              have hcount : (r.got ++ (slot.push chunk).ring).length =
                  (r.got ++ slot.ring).length + 1 := by
                rw [happ, List.length_append, List.length_singleton]
              rw [hinv.chunkBytes] at hlen hrest
              exact { hinv with
                slot_eq := update_self ..
                producer := ⟨eof, hp⟩
                chunks := by
                  rw [happ, hnext]
                  exact wholeChunks_snoc hinv.pos hinv.chunks (hnext ▸ hlen)
                rest := fun _ f'' hf'' => by
                  rw [hf', Option.mem_some_iff] at hf''
                  rw [← hf'', hrest, hinv.rest heof' f hf, List.drop_drop, hcount, Nat.succ_mul]
                opened := fun he => (hfill.free _).trans (hinv.opened he) }
        · rename_i hp
          split
          · exact h.setHost hs hp hp
          · exact h.setHost hs hp hp

theorem StreamInv.tick (h : StreamInv s₀ s) (faults : Nat → Option Fault) (host : Nat → HostFill) :
    StreamInv s₀ (s.tick faults host) := by
  unfold StreamSys.tick
  have h0 : StreamInv s₀ { s with rotation := s.rotation + 1 } := h.congr rfl rfl rfl
  exact foldl_range_invariant (P := fun _ s' => StreamInv s₀ s') h0
    fun k s' _ h' => h'.tickSlot ..

/-! ### Opening -/

theorem freeSlot_eq_some {i : Nat} (h : s.freeSlot = some i) :
    i < streamArbiterMax ∧ s.slots i = none := by
  have hmem := List.mem_of_find?_eq_some h
  have hfree := List.find?_some h
  exact ⟨List.mem_range.mp hmem, Option.isNone_iff_eq_none.mp hfree⟩

theorem register_eq_some {fd n d : BitVec 32} {mem : Bool} {i : Nat}
    (h : s.register fd n d mem = some (s', i)) : 0 ≤ fd.toInt ∧ accepts n d mem = true ∧
      s.freeSlot = some i ∧
      s' = { s with
        slots := update s.slots i
          (some ⟨.fileChunk fd.toInt false, n.toNat, d.toNat, [], false⟩) } := by
  unfold register registerProducer at h
  split at h
  · cases h
  · rename_i hnonneg
    split at h
    · rename_i hacc
      rw [Option.map_eq_some_iff] at h
      obtain ⟨j, hj, he⟩ := h
      cases he
      exact ⟨Int.not_lt.mp hnonneg, hacc, hj, rfl⟩
    · cases h

theorem packHandle_unpack {fd : BitVec 32} {i : Nat} (hlo : fdBase ≤ fd.toInt)
    (hhi : fd.toInt < fdLimit) (hi : i < streamArbiterMax) (owns : Bool) :
    0 ≤ (packHandle fd i owns).toInt ∧ (unpackArb (packHandle fd i owns)).toNat = i ∧
      unpackOwns (packHandle fd i owns) = owns := by
  have hbase : fdBase = 3 := rfl
  have hlimit : fdLimit = 19 := rfl
  have hmax : streamArbiterMax = 4 := rfl
  have hfin : ∀ k < 19, ∀ j < 4, ∀ o, 0 ≤ (packHandle (BitVec.ofNat 32 k) (BitVec.ofNat 32 j) o).toInt ∧
      (unpackArb (packHandle (BitVec.ofNat 32 k) (BitVec.ofNat 32 j) o)).toNat = j ∧
        unpackOwns (packHandle (BitVec.ofNat 32 k) (BitVec.ofNat 32 j) o) = o := by decide
  have htoNat : fd.toNat < 19 := by
    rw [toInt_eq_toNat_cond] at hlo hhi
    omega
  have h := hfin fd.toNat htoNat i (by omega) owns
  rwa [ofNat_toNat, setWidth_eq] at h

theorem accepts_pos {n d : BitVec 32} {mem : Bool} (h : accepts n d mem = true) : 0 < n.toNat := by
  unfold accepts at h
  simp only [Bool.and_eq_true, bne_iff_ne, ne_eq] at h
  have hne := h.1.1.1
  rw [← toNat_inj] at hne
  exact Nat.pos_of_ne_zero hne

/-- What a new stream leaves, on a descriptor that no other one reads. -/
theorem StreamInv.opened (h : StreamInv s₀ s) {vm i : Nat} {fd n d : BitVec 32} {mem owns : Bool}
    {fs : FdSys FileAt} (hfree : s.freeSlot = some i) (hacc : accepts n d mem = true)
    (hlo : fdBase ≤ fd.toInt) (hhi : fd.toInt < fdLimit)
    (hopen : (fs.fds (index fd.toInt)).isFree = false)
    (hunread : ∀ r ∈ s.held, ∀ slot, s.slots r.slot = some slot → slot.reads fd.toInt = false)
    (hother : ∀ fd' ≠ fd.toInt, fs.fileAt fd' = s.fs.fileAt fd')
    (hkeep : ∀ j, (s.fs.fds j).isFree = false → (fs.fds j).isFree = false)
    (howns : owns = true ∨ ∀ j, (fs.fds j).isFree = (s.fs.fds j).isFree) :
    StreamInv s₀ { s with
      fs := fs
      slots := update s.slots i (some ⟨.fileChunk fd.toInt false, n.toNat, d.toNat, [], false⟩)
      held := ⟨vm, packHandle fd i owns, i, n.toNat,
        ((fs.fileAt fd.toInt).map FileAt.rest).getD [], []⟩ :: s.held } := by
  obtain ⟨hi, hnone⟩ := freeSlot_eq_some hfree
  obtain ⟨hnonneg, harb, hown⟩ := packHandle_unpack hlo hhi hi owns
  have hne : ∀ r ∈ s.held, r.slot ≠ i := by
    intro r hr he
    have hused := (h.slotFor_eq hr).2.2
    rw [he, hnone] at hused
    cases hused
  refine ⟨?_, fun j hj => ?_, fun j hj => ?_, fun r hr => ?_, ?_, ?_⟩
  · rcases howns with rfl | hsame
    · exact .inr ⟨_, List.mem_cons_self, hown⟩
    · exact h.free.imp (fun hold j => (hsame j).trans (hold j))
        fun ⟨r, hr, ho⟩ => ⟨r, List.mem_cons_of_mem _ hr, ho⟩
  · have hji : j ≠ i := by
      rintro rfl
      obtain ⟨slot, hs, -⟩ := h.host j hj
      rw [hnone] at hs
      cases hs
    dsimp only
    rw [update_of_ne hji]
    exact h.host j hj
  · dsimp only at hj ⊢
    by_cases hji : j = i
    · exact .inr ⟨_, List.mem_cons_self, hji.symm⟩
    · rw [update_of_ne hji] at hj
      rcases h.used j hj with hhost | ⟨r, hr, he⟩
      · exact .inl hhost
      · exact .inr ⟨r, List.mem_cons_of_mem _ hr, he⟩
  · rcases List.mem_cons.mp hr with rfl | hr
    · refine ⟨_, fd.toInt, update_self .., hi, ⟨false, rfl⟩, rfl, accepts_pos hacc,
        hnonneg, harb, List.nil_prefix, fun _ f hf => ?_, fun _ => hopen⟩
      dsimp only at hf ⊢
      rw [Option.mem_def] at hf
      rw [hf]
      simp
    · obtain ⟨slot, fd', hinv⟩ := h.held r hr
      refine ⟨slot, fd', hinv.congr (update_of_ne (hne r hr) ..) (fun he => hother fd' ?_) hkeep⟩
      rintro rfl
      obtain ⟨eof, hp⟩ := hinv.producer
      have hread := hunread r hr slot hinv.slot_eq
      rw [reads_of_producer hp he] at hread
      cases hread
  · rw [List.map_cons, List.nodup_cons]
    refine ⟨fun hmem => ?_, h.distinct⟩
    obtain ⟨r, hr, he⟩ := List.mem_map.mp hmem
    exact hne r hr he
  · intro r hr r' hr' slot slot' fd' hs hs' hread hread'
    dsimp only at hs hs'
    have hnew {slot : StreamSlot} {fd' : Int}
        (hs : some ⟨.fileChunk fd.toInt false, n.toNat, d.toNat, [], false⟩ = some slot)
        (hread : slot.reads fd' = true) : fd' = fd.toInt := by
      obtain ⟨⟨eof, hp⟩, -⟩ := reads_eq_true hread
      rw [← Option.some.inj hs] at hp
      cases hp
      rfl
    rcases List.mem_cons.mp hr with rfl | hr <;> rcases List.mem_cons.mp hr' with rfl | hr'
    · rfl
    · rw [update_self] at hs
      rw [update_of_ne (hne r' hr')] at hs'
      rw [hnew hs hread, hunread r' hr' slot' hs'] at hread'
      cases hread'
    · rw [update_self] at hs'
      rw [update_of_ne (hne r hr)] at hs
      rw [hnew hs' hread', hunread r hr slot hs] at hread
      cases hread
    · rw [update_of_ne (hne r hr)] at hs
      rw [update_of_ne (hne r' hr')] at hs'
      exact h.apart r hr r' hr' slot slot' fd' hs hs' hread hread'

theorem StreamInv.openFd (h : StreamInv s₀ s) {vm me : Nat} {fd n d : BitVec 32} {mem : Bool}
    (hok : s.StreamOk (.openFd vm fd n d mem)) : StreamInv s₀ (s.mgStreamOpenFd me fd n d mem) := by
  unfold mgStreamOpenFd
  split
  · exact h
  · split
    · exact h
    · rename_i s' i hreg
      obtain ⟨-, hacc, hfree, rfl⟩ := register_eq_some hreg
      obtain ⟨⟨hlo, hhi, hopen⟩, hunread⟩ := hok hacc (by rw [hfree]; rfl)
      exact h.opened hfree hacc hlo hhi hopen
        (fun r hr slot hs => hunread r.slot (h.slotFor_eq hr).2.1 slot hs) (fun _ _ => rfl)
        (fun _ => id) (.inr fun _ => rfl)

theorem handleOpenat_cases (fs : FdSys FileAt) (serial : Nat) {target : OpenTarget FileAt}
    (hpos : errnosPositive target = true) :
    ((fs.handleOpenat serial target).sys = fs ∧ (fs.handleOpenat serial target).a0 < 0) ∨
      ∃ i slot, i < vmHostFsMaxFiles ∧ fs.fds i = .free ∧ slot.isFree = false ∧
        fs.handleOpenat serial target = fs.grant serial i slot := by
  have hrefuse : ∀ {e : Int}, 0 < e → (fs.refuse (-e)).sys = fs ∧ (fs.refuse (-e)).a0 < 0 :=
    fun he => ⟨rfl, Int.neg_neg_of_pos he⟩
  have halloc : ∀ {i}, fs.allocFd = some i → i < vmHostFsMaxFiles ∧ fs.fds i = .free := by
    intro i hi
    have hfree := List.find?_some hi
    refine ⟨List.mem_range.mp (List.mem_of_find?_eq_some hi), ?_⟩
    cases hs : fs.fds i <;> rw [hs] at hfree <;> first | rfl | cases hfree
  have hopen : ∀ (result : Except Int FileAt) (slot : FileAt → FdSlot FileAt),
      (∀ e, result = .error e → 0 < e) → (∀ f, (slot f).isFree = false) →
      ((fs.openSlot serial result slot).sys = fs ∧ (fs.openSlot serial result slot).a0 < 0) ∨
        ∃ i slot', i < vmHostFsMaxFiles ∧ fs.fds i = .free ∧ slot'.isFree = false ∧
          fs.openSlot serial result slot = fs.grant serial i slot' := by
    intro result slot he hslot
    unfold openSlot
    cases ha : fs.allocFd with
    | none => exact .inl (hrefuse (by decide))
    | some i =>
      cases result with
      | error e => exact .inl (hrefuse (he e rfl))
      | ok f => exact .inr ⟨i, slot f, (halloc ha).1, (halloc ha).2, hslot f, rfl⟩
  cases target with
  | rejected e => exact .inl (hrefuse (of_decide_eq_true hpos))
  | root =>
    unfold handleOpenat
    dsimp only
    cases ha : fs.allocFd with
    | none => exact .inl (hrefuse (by decide))
    | some i => exact .inr ⟨i, _, (halloc ha).1, (halloc ha).2, rfl, rfl⟩
  | hostDir result len =>
    unfold handleOpenat
    dsimp only
    cases result with
    | error e => exact .inl (hrefuse (of_decide_eq_true hpos))
    | ok dir =>
      dsimp only
      cases ha : fs.allocFd with
      | none => exact .inl (hrefuse (by decide))
      | some i =>
        dsimp only
        split
        · exact .inl (hrefuse (by decide))
        · exact .inr ⟨i, _, (halloc ha).1, (halloc ha).2, rfl, rfl⟩
  | hostFile wantsWrite writable result =>
    unfold handleOpenat
    dsimp only
    split
    · exact .inl (hrefuse (by decide))
    · refine hopen _ _ (fun e he => ?_) fun _ => rfl
      subst he
      exact of_decide_eq_true hpos
  | trashDir result | trashFile result =>
    refine hopen _ _ (fun e he => ?_) fun _ => rfl
    subst he
    exact of_decide_eq_true hpos

theorem granted_fd (fs : FdSys FileAt) (serial : Nat) (slot : FdSlot FileAt) {i : Nat}
    (hi : i < vmHostFsMaxFiles) :
    (BitVec.ofInt 32 (fs.grant serial i slot).a0).toInt = 3 + i ∧ index (3 + i) = i ∧
      fdBase ≤ 3 + (i : Int) ∧ 3 + (i : Int) < fdLimit := by
  have hmax : vmHostFsMaxFiles = 16 := rfl
  have hbase : fdBase = 3 := rfl
  have hlimit : fdLimit = 19 := rfl
  have hfin : ∀ k < 16, (BitVec.ofInt 32 (3 + (k : Nat))).toInt = 3 + (k : Nat) := by decide
  refine ⟨hfin i (by omega), ?_, by omega, by omega⟩
  unfold index
  omega

theorem grant_close {fs : FdSys FileAt} {serial i : Nat} {slot : FdSlot FileAt} {closed : Bool}
    (hi : i < vmHostFsMaxFiles) (hfree : fs.fds i = .free) (hslot : slot.isFree = false) :
    ((fs.grant serial i slot).sys.handleClose (BitVec.ofInt 32 (fs.grant serial i slot).a0)
      closed).sys.fds = fs.fds := by
  obtain ⟨hint, hindex, hlo, hhi⟩ := granted_fd fs serial slot hi
  have hsys : ((fs.grant serial i slot).sys.handleClose (BitVec.ofInt 32 (fs.grant serial i slot).a0)
      closed).sys = ((fs.grant serial i slot).sys.fsCloseFd (3 + i) closed).sys := by
    unfold handleClose
    rw [hint]
    dsimp only
    split
    · split <;> rfl
    · rfl
  rw [hsys]
  have hat : (fs.grant serial i slot).sys.fds i = slot := update_self ..
  have hset : (((fs.grant serial i slot).sys).setSlot i .free).fds = fs.fds := by
    unfold FdSys.setSlot FdSys.grant FdSys.setSlot
    dsimp only
    rw [Function.update_idem, ← hfree, Function.update_eq_self]
  unfold fsCloseFd
  rw [if_neg (by omega), if_neg (by omega), hindex, hat]
  cases slot with
  | free => cases hslot
  | _ => exact hset

theorem StreamInv.openPath (h : StreamInv s₀ s) {me : Nat} {target : OpenTarget FileAt}
    {n d : BitVec 32} {mem closed : Bool} (hpos : errnosPositive target = true) :
    StreamInv s₀ (s.mgStreamOpen me target n d mem closed) := by
  unfold mgStreamOpen
  dsimp only
  rcases handleOpenat_cases s.fs me hpos with
    ⟨hsys, hneg⟩ | ⟨i, slot, hi, hfree, hslot, hgrant⟩
  · rw [if_pos hneg]
    exact h.congr (congrArg FdSys.fds hsys) rfl rfl
  · obtain ⟨hint, hindex, hlo, hhi⟩ := granted_fd s.fs me slot hi
    have ha0 : (s.fs.grant me i slot).a0 = 3 + i := rfl
    rw [hgrant, if_neg (by omega)]
    split
    · exact h.congr (grant_close hi hfree hslot) rfl rfl
    · rename_i s' arb hreg
      obtain ⟨-, hacc, hslotfree, rfl⟩ := register_eq_some hreg
      have hat {j : Nat} (hj : j ≠ i) : (s.fs.grant me i slot).sys.fds j = s.fs.fds j :=
        update_of_ne hj ..
      refine h.opened hslotfree hacc (hint ▸ hlo) (hint ▸ hhi) ?_ (fun r hr slot' hs => ?_)
        (fun fd' hne => ?_) (fun j hj => ?_) (.inl rfl)
      · have hgranted : (s.fs.grant me i slot).sys.fds i = slot := update_self ..
        rw [hint, hindex]
        exact (congrArg FdSlot.isFree hgranted).trans hslot
      · -- what a stream reads is open, and the descriptor was free
        obtain ⟨slot'', fd', hinv⟩ := h.held r hr
        cases hread : slot'.reads _ with
        | false => rfl
        | true =>
          obtain ⟨⟨eof, hp⟩, he⟩ := reads_eq_true hread
          obtain ⟨eof', hp'⟩ := hinv.producer
          obtain rfl := Option.some.inj (hs.symm.trans hinv.slot_eq)
          rw [hp', hint] at hp
          cases hp
          have hopen := hinv.opened he
          rw [hindex, hfree] at hopen
          cases hopen
      · unfold FdSys.fileAt
        split
        · rfl
        · rename_i hrange
          rw [hat fun he => hne (hint ▸ index_inj (by omega) hlo (he.trans hindex.symm))]
      · by_cases hji : j = i
        · rw [hji, hfree] at hj
          cases hj
        · rwa [hat hji]

/-! ### Consuming and closing -/

theorem StreamInv.note_held (h : StreamInv s₀ s) {me i : Nat} {hd : BitVec 32} {slot : StreamSlot}
    {chunk : List Byte} {ring : List (List Byte)} (hs : s.slots i = some slot)
    (hring : slot.ring = chunk :: ring) (harb : (unpackArb hd).toNat = i) (hheld : s.Holds me hd) :
    StreamInv s₀ (note { s with
      slots := update s.slots i (some { slot with ring := ring }) } me hd chunk) := by
  obtain ⟨r₀, hr₀, hvm, hhd⟩ := hheld
  have hslot₀ : r₀.slot = i := by
    rw [← (h.slotFor_eq hr₀).1, hhd, harb]
  have hmatch : ∀ r ∈ s.held, r.slot = i → r.vm = me ∧ r.handle = hd := by
    intro r hr he
    rw [h.slot_inj hr hr₀ (he.trans hslot₀.symm)]
    exact ⟨hvm, hhd⟩
  have hmatch' : ∀ r ∈ s.held, r.vm = me ∧ r.handle = hd → r.slot = i := by
    intro r hr hm
    rw [← (h.slotFor_eq hr).1, hm.2, harb]
  have hslots : ∀ r : Held, (if r.vm = me ∧ r.handle = hd then { r with got := r.got ++ [chunk] }
      else r).slot = r.slot := by
    intro r
    split <;> rfl
  refine ⟨h.free.imp_right fun ⟨r, hr, ho⟩ => ⟨_, List.mem_map_of_mem hr, by split <;> exact ho⟩,
    fun j hj => ?_, fun j hj => ?_, fun r' hr' => ?_, ?_, ?_⟩
  · have hji : j ≠ i := by
      rintro rfl
      rw [← hslot₀, h.not_host hr₀] at hj
      cases hj
    unfold note
    dsimp only
    rw [update_of_ne hji]
    exact h.host j hj
  · have hold : (s.slots j).isSome := by
      unfold note at hj
      dsimp only at hj
      by_cases hji : j = i
      · rw [hji, hs]
        rfl
      · rwa [update_of_ne hji] at hj
    rcases h.used j hold with hhost | ⟨r, hr, he⟩
    · exact .inl hhost
    · exact .inr ⟨_, List.mem_map_of_mem hr, (hslots r).trans he⟩
  · obtain ⟨r, hr, rfl⟩ := List.mem_map.mp hr'
    obtain ⟨slot', fd, hinv⟩ := h.held r hr
    by_cases hm : r.vm = me ∧ r.handle = hd
    · rw [if_pos hm]
      have hri := hmatch' r hr hm
      have hslot' := hinv.slot_eq
      rw [hri, hs, Option.some.injEq] at hslot'
      subst hslot'
      have happ : r.got ++ [chunk] ++ ring = r.got ++ slot.ring := by
        rw [hring, List.append_assoc]
        rfl
      refine ⟨{ slot with ring := ring }, fd, ?_⟩
      exact { hinv with
        slot_eq := by
          rw [← hri]
          exact update_self ..
        chunks := by
          dsimp only
          rw [happ]
          exact hinv.chunks
        rest := fun he f hf => by
          dsimp only
          rw [happ]
          exact hinv.rest he f hf }
    · rw [if_neg hm]
      have hne : r.slot ≠ i := fun he => hm (hmatch r hr he)
      exact ⟨slot', fd, hinv.congr (update_of_ne hne ..) (fun _ => rfl) fun _ => id⟩
  · unfold note
    dsimp only
    rw [List.map_map]
    have : (Held.slot ∘ fun r : Held =>
        if r.vm = me ∧ r.handle = hd then { r with got := r.got ++ [chunk] } else r) = Held.slot :=
      funext hslots
    rw [this]
    exact h.distinct
  · have hreads : ∀ r slot' fd, (update s.slots i (some { slot with ring := ring })) r =
        some slot' → slot'.reads fd = true →
        ∃ slot'', s.slots r = some slot'' ∧ slot''.reads fd = true := by
      intro r slot' fd hs' hread
      by_cases hri : r = i
      · rw [hri, update_self, Option.some.injEq] at hs'
        subst hs'
        exact ⟨slot, hri ▸ hs, hread⟩
      · rw [update_of_ne hri] at hs'
        exact ⟨slot', hs', hread⟩
    intro r₁ hr₁ r₂ hr₂ slot₁ slot₂ fd h₁ h₂ hread₁ hread₂
    obtain ⟨q₁, hq₁, rfl⟩ := List.mem_map.mp hr₁
    obtain ⟨q₂, hq₂, rfl⟩ := List.mem_map.mp hr₂
    rw [hslots] at h₁ h₂ ⊢
    rw [hslots]
    obtain ⟨slot₁', hs₁, hread₁'⟩ := hreads _ _ _ h₁ hread₁
    obtain ⟨slot₂', hs₂, hread₂'⟩ := hreads _ _ _ h₂ hread₂
    exact h.apart q₁ hq₁ q₂ hq₂ slot₁' slot₂' fd hs₁ hs₂ hread₁' hread₂'

theorem streamConsume_cases (i : Nat) (cap : BitVec 32) (mapped : Bool) :
    ((s.streamConsume i cap mapped).1 = s ∧ (s.streamConsume i cap mapped).2.1 = none) ∨
      (s.Ready i cap mapped ∧ ∃ slot chunk ring, s.slots i = some slot ∧ slot.ring = chunk :: ring ∧
        (s.streamConsume i cap mapped).2.1 = some chunk ∧
        (s.streamConsume i cap mapped).1 =
          { s with slots := update s.slots i (some { slot with ring := ring }) }) := by
  unfold streamConsume
  split
  · exact .inl ⟨rfl, rfl⟩
  · rename_i slot hs
    split
    · exact .inl ⟨rfl, rfl⟩
    · rename_i hcap
      split
      · exact .inl ⟨rfl, rfl⟩
      · rename_i hmap
        unfold pop
        cases hr : slot.ring with
        | nil => exact .inl ⟨rfl, rfl⟩
        | cons chunk ring =>
          refine .inr ⟨⟨slot, hs, Nat.not_lt.mp hcap, by simpa using hmap, by simp [hr]⟩, slot, chunk,
            ring, (slotFor_eq_some hs).2, hr, rfl, rfl⟩

theorem StreamInv.consume (h : StreamInv s₀ s) {vm me : Nat} {hd cap : BitVec 32} {mapped : Bool}
    (hme : s.caller vm = some me) (hok : s.StreamOk (.consume vm hd cap mapped)) :
    StreamInv s₀ (s.mgStreamConsume me hd cap mapped) := by
  unfold mgStreamConsume
  split
  · exact h
  · rename_i hnonneg
    rcases s.streamConsume_cases (unpackArb hd).toNat cap mapped with
      ⟨hsame, hnone⟩ | ⟨hready, slot, chunk, ring, hs, hring, hsome, hafter⟩
    · split
      · rename_i hout
        rw [hout] at hnone
        cases hnone
      · rename_i hout
        rw [hout] at hsame
        cases hsame
        exact h
    · split
      · rename_i s' chunk' r hout
        rw [hout] at hsome hafter
        cases hsome
        dsimp only at hafter
        rw [hafter]
        exact h.note_held hs hring rfl (hok me hme (Int.not_lt.mp hnonneg) hready)
      · rename_i hout
        rw [hout] at hsome
        cases hsome

/-- A handle with the library's mark for its own descriptor unpacks to no descriptor of the table:
bit 30 of the handle is bit 14 of the descriptor. -/
theorem unpackFd_of_owns {hd : BitVec 32} (h : unpackOwns hd = true) :
    fdLimit ≤ (unpackFd hd).toInt := by
  have hbit : hd.getLsbD 30 = true := by
    by_contra hne
    have hzero : hd &&& mgOwnsFdBit = 0 := by
      apply eq_of_getLsbD_eq
      intro i hi
      have hmask : mgOwnsFdBit.getLsbD i = decide (i = 30) := by
        have hall : ∀ j : Fin 32, mgOwnsFdBit.getLsbD j = decide (j.val = 30) := by decide
        exact hall ⟨i, hi⟩
      rw [getLsbD_and, hmask]
      by_cases hi30 : i = 30
      · rw [hi30, Bool.eq_false_iff.mpr hne]
        simp
      · simp [hi30]
    unfold unpackOwns at h
    rw [hzero] at h
    cases h
  have hlsb : (unpackFd hd).getLsbD 14 = true := by
    unfold unpackFd
    rw [getLsbD_and, getLsbD_sshiftRight]
    simp [hbit]
  have hge : 2 ^ 14 ≤ (unpackFd hd).toNat := Nat.ge_two_pow_of_testBit hlsb
  have hle : (unpackFd hd).toNat ≤ 0x7FFF := by
    unfold unpackFd
    rw [toNat_and]
    exact Nat.and_le_right
  have hlimit : fdLimit = 19 := rfl
  rw [toInt_eq_toNat_cond]
  omega

theorem close_keeps_descriptor {fs : FdSys FileAt} {hd : BitVec 32} (h : unpackOwns hd = true)
    (closed : Bool) : (fs.handleClose (unpackFd hd) closed).sys = fs := by
  have hlimit : fdLimit = 19 := rfl
  have hbase : fdBase = 3 := rfl
  have hge := unpackFd_of_owns h
  have hclose : (fs.fsCloseFd (unpackFd hd).toInt closed) = fs.refuse (-vmEbadf) := by
    unfold fsCloseFd
    rw [if_neg (by omega), if_pos hge]
  unfold handleClose
  rw [hclose]
  dsimp only
  split
  · split <;> rfl
  · rfl

theorem mgStreamClose_eq (me : Nat) (hd : BitVec 32) (closed : Bool) :
    s.mgStreamClose me hd closed = if hd.toInt < 0 then s else
      { s.unregister (unpackArb hd).toNat with
        held := s.held.filter fun r => ¬ (r.vm = me ∧ r.handle = hd) } := by
  unfold mgStreamClose
  split
  · rfl
  · dsimp only
    split
    · rename_i howns
      rw [close_keeps_descriptor howns]
    · rfl

theorem StreamInv.close (h : StreamInv s₀ s) {vm me : Nat} {hd : BitVec 32} {closed : Bool}
    (hme : s.caller vm = some me) (hok : s.StreamOk (.close vm hd closed)) :
    StreamInv s₀ (s.mgStreamClose me hd closed) := by
  rw [mgStreamClose_eq]
  split
  · exact h
  · rename_i hnonneg
    have hmatch : ∀ r ∈ s.held, r.handle = hd → r.slot = (unpackArb hd).toNat :=
      fun r hr he => by rw [← (h.slotFor_eq hr).1, he]
    have hsub : ∀ {r}, r ∈ s.held.filter (fun r => ¬ (r.vm = me ∧ r.handle = hd)) → r ∈ s.held :=
      fun hr => (List.mem_filter.mp hr).1
    have hdist : ((s.held.filter fun r => ¬ (r.vm = me ∧ r.handle = hd)).map Held.slot).Nodup :=
      h.distinct.sublist (List.filter_sublist.map _)
    unfold unregister
    split
    · rename_i hused
      obtain ⟨⟨r₀, hr₀, hvm, hhd⟩, howns⟩ := hok me hme (Int.not_lt.mp hnonneg) hused
      have hslot₀ := hmatch r₀ hr₀ hhd
      have hne : ∀ {r}, r ∈ s.held.filter (fun r => ¬ (r.vm = me ∧ r.handle = hd)) →
          r.slot ≠ (unpackArb hd).toNat := by
        intro r hr he
        have hkeep := (List.mem_filter.mp hr).2
        rw [h.slot_inj (hsub hr) hr₀ (he.trans hslot₀.symm)] at hkeep
        exact absurd ⟨hvm, hhd⟩ (of_decide_eq_true hkeep)
      refine ⟨h.free.imp_right ?_, fun j hj => ?_, fun j hj => ?_, fun r hr => ?_, hdist, ?_⟩
      · rintro ⟨r, hr, ho⟩
        refine ⟨r, List.mem_filter.mpr ⟨hr, decide_eq_true fun hm => ?_⟩, ho⟩
        rw [hm.2, howns] at ho
        cases ho
      · dsimp only
        have hji : j ≠ (unpackArb hd).toNat := by
          intro he
          rw [he, ← hslot₀, h.not_host hr₀] at hj
          cases hj
        rw [update_of_ne hji]
        exact h.host j hj
      · dsimp only at hj ⊢
        by_cases hji : j = (unpackArb hd).toNat
        · rw [hji, update_self] at hj
          cases hj
        · rw [update_of_ne hji] at hj
          rcases h.used j hj with hhost | ⟨r, hr, he⟩
          · exact .inl hhost
          · refine .inr ⟨r, List.mem_filter.mpr ⟨hr, decide_eq_true fun hm => hji ?_⟩, he⟩
            rw [← he, hmatch r hr hm.2]
      · obtain ⟨slot, fd, hinv⟩ := h.held r (hsub hr)
        exact ⟨slot, fd, hinv.congr (update_of_ne (hne hr) ..) (fun _ => rfl) fun _ => id⟩
      · intro r hr r' hr' slot slot' fd hs hs' hread hread'
        dsimp only at hs hs'
        rw [update_of_ne (hne hr)] at hs
        rw [update_of_ne (hne hr')] at hs'
        exact h.apart r (hsub hr) r' (hsub hr') slot slot' fd hs hs' hread hread'
    · rename_i hunused
      have hkept : ∀ r ∈ s.held, r ∈ s.held.filter fun r => ¬ (r.vm = me ∧ r.handle = hd) := by
        refine fun r hr => List.mem_filter.mpr ⟨hr, decide_eq_true fun hm => hunused ?_⟩
        obtain ⟨-, hlt, hsome⟩ := h.slotFor_eq hr
        rw [← hmatch r hr hm.2]
        unfold slotFor
        rwa [if_neg (Nat.not_le.mpr hlt)]
      refine ⟨h.free.imp_right fun ⟨r, hr, ho⟩ => ⟨r, hkept r hr, ho⟩, h.host, fun j hj =>
        (h.used j hj).imp_right fun ⟨r, hr, he⟩ => ⟨r, hkept r hr, he⟩, fun r hr => ?_, hdist, ?_⟩
      · obtain ⟨slot, fd, hinv⟩ := h.held r (hsub hr)
        exact ⟨slot, fd, hinv.congr rfl (fun _ => rfl) fun _ => id⟩
      · intro r hr r' hr'
        exact h.apart r (hsub hr) r' (hsub hr')

/-! ### The other events -/

theorem StreamInv.unload (h : StreamInv s₀ s) {vm : Nat} {v : VmSlot} (hv : s.fs.vms vm = some v)
    (hok : s.StreamOk (.unload vm)) {fs : FdSys FileAt} (hfs : fs.fds = s.fs.fds) :
    StreamInv s₀ { s with fs := fs, held := s.held.filter fun r => r.vm ≠ v.serial } := by
  have hall : s.held.filter (fun r => r.vm ≠ v.serial) = s.held :=
    List.filter_eq_self.mpr fun r hr => decide_eq_true (hok v hv r hr)
  exact h.congr hfs rfl hall

theorem StreamInv.hostConsume (h : StreamInv s₀ s) {i : Nat}
    (hs : s.step (.hostConsume i) = some s') : StreamInv s₀ s' := by
  unfold step at hs
  dsimp only at hs
  split at hs
  · cases hs
  · rename_i slot hslot
    split at hs
    · rename_i hhost
      unfold pop at hs
      split at hs
      · cases hs
      · cases hs
        exact h.setHost (slotFor_eq_some hslot).2 hhost hhost
    · cases hs

theorem fds_of_vm_event {fs fs' : FdSys FileAt} {e : FdEvent FileAt} (hs : fs.step e = some fs')
    (he : ∀ vm c, e ≠ .call vm c) : fs'.fds = fs.fds := by
  cases e with
  | load vm | stop vm | unload vm =>
    unfold FdSys.step at hs
    dsimp only at hs
    split at hs
    · cases hs
      rfl
    · cases hs
  | call vm c => exact absurd rfl (he vm c)

theorem step_inv (h : StreamInv s₀ s) {e : StreamEvent} (hok : s.StreamOk e)
    (hs : s.step e = some s') : StreamInv s₀ s' := by
  cases e with
  | load vm | stop vm =>
    obtain ⟨fs, hfs, rfl⟩ := Option.map_eq_some_iff.mp hs
    exact h.congr (fds_of_vm_event hfs (by simp)) rfl rfl
  | unload vm =>
    unfold step at hs
    dsimp only at hs
    split at hs
    · cases hs
    · rename_i v hv
      obtain ⟨fs, hfs, rfl⟩ := Option.map_eq_some_iff.mp hs
      exact h.unload hv hok (fds_of_vm_event hfs (by simp))
  | openFd vm fd n d mem =>
    obtain ⟨me, hme, rfl⟩ := Option.map_eq_some_iff.mp hs
    exact h.openFd hok
  | openPath vm target n d mem closed =>
    obtain ⟨hpos, hs⟩ := enabled hs
    obtain ⟨me, hme, rfl⟩ := Option.map_eq_some_iff.mp hs
    exact h.openPath hpos
  | consume vm hd cap mapped =>
    obtain ⟨me, hme, rfl⟩ := Option.map_eq_some_iff.mp hs
    exact h.consume hme hok
  | close vm hd closed =>
    obtain ⟨me, hme, rfl⟩ := Option.map_eq_some_iff.mp hs
    exact h.close hme hok
  | tick faults host =>
    cases hs
    exact h.tick faults host
  | hostConsume i => exact h.hostConsume hs

/-- A call that meets the condition with a handle that the VM does not hold finds no stream. -/
theorem confined_of_ok {e : StreamEvent} (hok : s.StreamOk e) : s.Confined e := by
  cases e with
  | consume vm hd cap mapped =>
    intro me hme hnot
    unfold mgStreamConsume
    split
    · rfl
    · rename_i hnonneg
      rcases s.streamConsume_cases (unpackArb hd).toNat cap mapped with ⟨hsame, hnone⟩ | ⟨hready, -⟩
      · split
        · rename_i hout
          rw [hout] at hnone
          cases hnone
        · rename_i hout
          rw [hout] at hsame
          cases hsame
          rfl
      · exact absurd (hok me hme (Int.not_lt.mp hnonneg) hready) hnot
  | close vm hd closed =>
    intro me hme hnot
    rw [mgStreamClose_eq]
    split
    · rfl
    · rename_i hnonneg
      unfold unregister
      split
      · rename_i hused
        exact absurd (hok me hme (Int.not_lt.mp hnonneg) hused).1 hnot
      · rfl
  | _ => exact trivial

end Steps

/-! ## Every run -/

/-- Before the first stream of a VM: any descriptors, and the streams of the host. -/
def init (fs : FdSys FileAt) (host : Nat → Option (Nat × Nat × List (List Byte))) : StreamSys where
  fs := fs
  slots i := (host i).map fun (chunkBytes, depth, ring) => ⟨.host, chunkBytes, depth, ring, false⟩
  rotation := 0
  held := []

variable (fs : FdSys FileAt) (host : Nat → Option (Nat × Nat × List (List Byte)))

theorem init_inv : StreamInv (init fs host) (init fs host) := by
  refine ⟨.inl fun _ => rfl, fun i hi => ?_, fun i hi => .inl hi, fun r hr => (List.not_mem_nil hr).elim,
    List.nodup_nil, fun r hr => (List.not_mem_nil hr).elim⟩
  obtain ⟨slot, hslot⟩ := Option.isSome_iff_exists.mp hi
  obtain ⟨⟨n, d, ring⟩, -, rfl⟩ := Option.map_eq_some_iff.mp hslot
  exact ⟨_, hslot, rfl⟩

theorem StreamInv.restored {s₀ : StreamSys} (h : StreamInv s₀ s) : Restored s₀ s := by
  intro hnil
  refine ⟨h.free.resolve_right (by simp [hnil]), fun i => Bool.eq_iff_iff.mpr ⟨fun hi => ?_, fun hi => ?_⟩⟩
  · rcases h.used i hi with hhost | ⟨r, hr, -⟩
    · exact hhost
    · rw [hnil] at hr
      cases hr
  · obtain ⟨slot, hslot, -⟩ := h.host i hi
    rw [hslot]
    rfl

theorem StreamInv.inOrder {s₀ : StreamSys} (h : StreamInv s₀ s) : s.InOrder := by
  intro r hr
  obtain ⟨slot, fd, hinv⟩ := h.held r hr
  exact (List.prefix_append ..).trans hinv.chunks

/-- In a run whose steps meet the condition, the descriptors and slots come back, every handle
returns its file's chunks in order, and no call touches a stream that its VM does not hold. -/
theorem run_streams {es : List StreamEvent} (hok : Meets step StreamOk (init fs host) es) :
    Meets step Confined (init fs host) es ∧ ∀ s, run step (init fs host) es = some s →
      Restored (init fs host) s ∧ s.InOrder := by
  have hstep : ∀ s e s', StreamInv (init fs host) s → s.StreamOk e → s.step e = some s' →
      StreamInv (init fs host) s' := fun s e s' h hok hs => step_inv h hok hs
  refine ⟨Meets.of_invariant hstep (fun s e _ hok => confined_of_ok hok) (init_inv fs host) hok,
    fun s hrun => ?_⟩
  have hinv := run_invariant hstep (init_inv fs host) hok hrun
  exact ⟨hinv.restored, hinv.inOrder⟩

/-- A table with one file open. -/
def oneFile : FdSys FileAt :=
  ⟨update (fun _ => .free) 0 (.hostFile ⟨[1, 2, 3, 4, 5], 1⟩ false), fun _ => none, 0,
    fun _ => 0⟩

theorem run_streams_one_file :
    Meets step Confined (init oneFile fun _ => none)
      [.load 0, .openFd 0 3 2 4 true, .tick (fun _ => none) (fun _ => .nothing false),
        .consume 0 0x30000 2 true, .close 0 0x30000 true, .unload 0] ∧
      ∀ s, run step (init oneFile fun _ => none)
        [.load 0, .openFd 0 3 2 4 true, .tick (fun _ => none) (fun _ => .nothing false),
          .consume 0 0x30000 2 true, .close 0 0x30000 true, .unload 0] = some s →
        Restored (init oneFile fun _ => none) s ∧ s.InOrder :=
  run_streams oneFile (fun _ => none) (by decide +kernel)

/-! ## Streams that go astray -/

/-- A stream that is opened by its path and closed keeps its descriptor. A VM that holds no stream
closes the stream of another one. -/
theorem descriptor_leaked :
    (∃ s, run step (init FdSys.init fun _ => none)
      [.load 0, .openPath 0 (.hostFile false false (.ok ⟨[1, 2, 3, 4], 0⟩)) 2 4 true true,
        .close 0 0x40030000 true] = some s ∧ ¬ Restored (init FdSys.init fun _ => none) s) ∧
      ∃ s, run step (init oneFile fun _ => none) [.load 0, .load 1, .openFd 0 3 2 4 true] = some s ∧
        ¬ s.Confined (.close 1 0x30000 true) := by
  constructor
  · have hrun : ((run step (init FdSys.init fun _ => none)
        [.load 0, .openPath 0 (.hostFile false false (.ok ⟨[1, 2, 3, 4], 0⟩)) 2 4 true true,
          .close 0 0x40030000 true]).map fun s => (s.held, (s.fs.fds 0).isFree)) =
        some ([], false) := by decide +kernel
    obtain ⟨s, hs, he⟩ := Option.map_eq_some_iff.mp hrun
    rw [Prod.mk.injEq] at he
    refine ⟨s, hs, fun hres => ?_⟩
    have hopen := (hres he.1).1 0
    rw [he.2] at hopen
    cases hopen
  · have hrun : ((run step (init oneFile fun _ => none)
        [.load 0, .load 1, .openFd 0 3 2 4 true]).map fun s =>
          (s.caller 1, decide (s.Holds 1 0x30000), (s.slots 0).isSome,
            ((s.mgStreamClose 1 0x30000 true).slots 0).isSome)) =
        some (some 1, false, true, false) := by decide +kernel
    obtain ⟨s, hs, he⟩ := Option.map_eq_some_iff.mp hrun
    simp only [Prod.mk.injEq, decide_eq_false_iff_not] at he
    obtain ⟨hme, hnot, hused, hfreed⟩ := he
    refine ⟨s, hs, fun hconf => ?_⟩
    rw [congrFun (hconf 1 hme hnot) 0, hused] at hfreed
    cases hfreed

end StreamSys

end Microgarbage.Io
