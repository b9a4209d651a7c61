import Mathlib.Logic.Function.Basic
import Microgarbage.Lib.Transition

/-!
# File descriptors

The descriptor table of `vm_host_fs.c` under the calls of any number of VMs. One table serves all of
them. What the C library or a volume does with a file is an argument of the call: `ω` is a file or
directory of a backend, and an outcome carries the result and the object after it. Every handler
runs under the file-system lock.
-/

namespace Microgarbage.Io

open Lib
open Function (update update_of_ne update_self)

variable {ω : Type*}

/-! ## Errors and limits -/

def vmEnoent : Int := 2
def vmEio : Int := 5
def vmEbadf : Int := 9
def vmEfault : Int := 14
def vmEinval : Int := 22
def vmEmfile : Int := 24
def vmErofs : Int := 30
def vmEnametoolong : Int := 36

def vmHostFsNotOurs : Int := -12345678

def fdBase : Int := 3
def vmHostFsMaxFiles : Nat := 16
def fdLimit : Int := fdBase + vmHostFsMaxFiles
def vmHostFsMaxMounts : Nat := 8
def vmHostFsMaxPath : Nat := 256

/-! ## The table -/

/-- `FdSlot`, with its kind. -/
inductive FdSlot (ω : Type*)
  | free
  | hostFile (file : ω) (writable : Bool)
  | root (cursor : Nat)
  | hostDir (dir : ω)
  | trashFile (file : ω)
  | trashDir (dir : ω)

def FdSlot.isFree : FdSlot ω → Bool
  | .free => true
  | _ => false

/-- A VM in its slot. -/
structure VmSlot where
  /-- The number of its load, which tells it from other VMs in the slot. -/
  serial : Nat
  halted : Bool
  deriving DecidableEq

structure FdSys (ω : Type*) where
  fds : Nat → FdSlot ω
  vms : Nat → Option VmSlot
  loads : Nat
  /-- Who opened the descriptor. -/
  opener : Nat → Nat

namespace FdSys

def init : FdSys ω := ⟨fun _ => .free, fun _ => none, 0, fun _ => 0⟩

/-- What a handler leaves: the system, the result, and the descriptor whose file it used. -/
structure Outcome (ω : Type*) where
  sys : FdSys ω
  a0 : Int
  via : Option Nat

variable (s : FdSys ω)

/-- `alloc_fd`. -/
def allocFd : Option Nat := (List.range vmHostFsMaxFiles).find? fun i => (s.fds i).isFree

def setSlot (i : Nat) (slot : FdSlot ω) : FdSys ω := { s with fds := update s.fds i slot }

/-- The result of a call that uses no file. -/
def refuse (a0 : Int) : Outcome ω := ⟨s, a0, none⟩

/-- A new descriptor of the VM `serial`. -/
def grant (serial i : Nat) (slot : FdSlot ω) : Outcome ω :=
  ⟨{ s.setSlot i slot with opener := update s.opener i serial }, fdBase + i, none⟩

/-- The index of a descriptor. -/
def index (fd : Int) : Nat := (fd - fdBase).toNat

/-! ## Opening -/

/-- What the path and the flags come to. -/
inductive OpenTarget (ω : Type*)
  /-- The path cannot be read or resolved, or the flags do not fit it. -/
  | rejected (errno : Int)
  | root
  | hostDir (result : Except Int ω) (pathLength : Nat)
  | hostFile (wantsWrite writable : Bool) (result : Except Int ω)
  | trashDir (result : Except Int ω)
  | trashFile (result : Except Int ω)

/-- The slot is taken before the backend opens, and given back when that fails. -/
def openSlot (serial : Nat) (result : Except Int ω) (slot : ω → FdSlot ω) : Outcome ω :=
  match s.allocFd with
  | none => s.refuse (-vmEmfile)
  | some i =>
    match result with
    | .error errno => s.refuse (-errno)
    | .ok obj => s.grant serial i (slot obj)

/-- `handle_openat`. -/
def handleOpenat (serial : Nat) : OpenTarget ω → Outcome ω
  | .rejected errno => s.refuse (-errno)
  | .root =>
    match s.allocFd with
    | none => s.refuse (-vmEmfile)
    | some i => s.grant serial i (.root 0)
  | .hostDir result pathLength =>
    match result with
    | .error errno => s.refuse (-errno)
    | .ok dir =>
      match s.allocFd with
      | none => s.refuse (-vmEmfile)
      | some i =>
        if vmHostFsMaxPath - 2 ≤ pathLength then s.refuse (-vmEnametoolong)
        else s.grant serial i (.hostDir dir)
  | .hostFile wantsWrite writable result =>
    if wantsWrite && !writable then s.refuse (-vmErofs)
    else s.openSlot serial result fun file => .hostFile file writable
  | .trashDir result => s.openSlot serial result .trashDir
  | .trashFile result => s.openSlot serial result .trashFile

/-! ## Reading, writing, closing -/

/-- `fs_read_fd`; `r` and `file'` are what the backend's read makes of the file. -/
def fsReadFd (fd : Int) (r : Int) (file' : ω) : Outcome ω :=
  if fd < fdBase then s.refuse vmHostFsNotOurs
  else if fdLimit ≤ fd then s.refuse (-vmEbadf)
  else
    match s.fds (index fd) with
    | .hostFile _ writable => ⟨s.setSlot (index fd) (.hostFile file' writable), r, some (index fd)⟩
    | .trashFile _ => ⟨s.setSlot (index fd) (.trashFile file'), r, some (index fd)⟩
    | _ => s.refuse (-vmEbadf)

/-- `fs_write_fd`. -/
def fsWriteFd (fd : Int) (r : Int) (file' : ω) : Outcome ω :=
  if fd < fdBase then s.refuse vmHostFsNotOurs
  else if fdLimit ≤ fd then s.refuse (-vmEbadf)
  else
    match s.fds (index fd) with
    | .hostFile _ writable =>
      if writable then ⟨s.setSlot (index fd) (.hostFile file' writable), r, some (index fd)⟩
      else s.refuse (-vmErofs)
    | .trashFile _ => ⟨s.setSlot (index fd) (.trashFile file'), r, some (index fd)⟩
    | _ => s.refuse (-vmEbadf)

/-- `fs_close_fd`; `closed` tells whether the C library closed its file or directory. -/
def fsCloseFd (fd : Int) (closed : Bool) : Outcome ω :=
  if fd < fdBase then s.refuse vmHostFsNotOurs
  else if fdLimit ≤ fd then s.refuse (-vmEbadf)
  else
    match s.fds (index fd) with
    | .free => s.refuse (-vmEbadf)
    | .hostFile .. | .hostDir .. =>
      ⟨s.setSlot (index fd) .free, if closed then 0 else -vmEio, some (index fd)⟩
    | _ => ⟨s.setSlot (index fd) .free, 0, some (index fd)⟩

/-- `handle_read` and `handle_write` of `vm_host_stdio.c`; `mapped` tells whether the guest's buffer
is. The standard streams give `r` and use no file. -/
def handleTransfer (op : Int → Outcome ω) (fd n : BitVec 32) (mapped : Bool) (r : Int) :
    Outcome ω :=
  if fd.toNat < 3 then s.refuse r
  else if n = 0 then s.refuse 0
  else if mapped then op fd.toInt
  else s.refuse (-vmEfault)

/-- `handle_close`. -/
def handleClose (fd : BitVec 32) (closed : Bool) : Outcome ω :=
  let r := s.fsCloseFd fd.toInt closed
  if r.a0 = vmHostFsNotOurs then
    if 0 ≤ fd.toInt ∧ fd.toInt ≤ 2 then { r with a0 := 0 } else { r with a0 := -vmEbadf }
  else r

/-- `handle_lseek`. -/
def handleLseek (fd whence : BitVec 32) (r : Int) (file' : ω) : Outcome ω :=
  if fd.toInt < fdBase ∨ fdLimit ≤ fd.toInt then s.refuse (-vmEbadf)
  else
    let i := index fd.toInt
    match s.fds i with
    | .hostFile _ writable =>
      if 2 < whence.toNat then s.refuse (-vmEinval)
      else ⟨s.setSlot i (.hostFile file' writable), r, some i⟩
    | .trashFile _ =>
      if 2 < whence.toNat then s.refuse (-vmEinval)
      else ⟨s.setSlot i (.trashFile file'), r, some i⟩
    | _ => s.refuse (-vmEbadf)

/-- The walk over the mount table from the cursor on: the cursor behind the next mount. -/
def nextMount (mounts : Nat → Bool) (cursor : Nat) : Option Nat :=
  ((List.range vmHostFsMaxMounts).find? fun i => decide (cursor ≤ i) && mounts i).map (· + 1)

/-- `handle_readdir`. -/
def handleReaddir (fd : BitVec 32) (mapped : Bool) (mounts : Nat → Bool) (r : Int) (dir' : ω) :
    Outcome ω :=
  if fd.toInt < fdBase ∨ fdLimit ≤ fd.toInt then s.refuse (-vmEbadf)
  else
    let i := index fd.toInt
    match s.fds i with
    | .free => s.refuse (-vmEbadf)
    | slot =>
      if !mapped then s.refuse (-vmEfault)
      else
        match slot with
        | .root cursor =>
          match nextMount mounts cursor with
          | some cursor' => ⟨s.setSlot i (.root cursor'), 0, some i⟩
          | none => ⟨s.setSlot i (.root vmHostFsMaxMounts), 1, some i⟩
        | .hostDir _ => ⟨s.setSlot i (.hostDir dir'), r, some i⟩
        | .trashDir _ => ⟨s.setSlot i (.trashDir dir'), r, some i⟩
        | _ => s.refuse (-vmEbadf)

end FdSys

/-! ## The machine -/

open FdSys in
/-- A call on the descriptor table. -/
inductive FdCall (ω : Type*)
  | openat (target : OpenTarget ω)
  | read (fd n : BitVec 32) (mapped : Bool) (r : Int) (file' : ω)
  | write (fd n : BitVec 32) (mapped : Bool) (r : Int) (file' : ω)
  | close (fd : BitVec 32) (closed : Bool)
  | lseek (fd whence : BitVec 32) (r : Int) (file' : ω)
  | readdir (fd : BitVec 32) (mapped : Bool) (mounts : Nat → Bool) (r : Int) (dir' : ω)

inductive FdEvent (ω : Type*)
  | load (vm : Nat)
  | call (vm : Nat) (c : FdCall ω)
  /-- An exit, or a trap: the VM stops and stays loaded. -/
  | stop (vm : Nat)
  /-- `vm_system_unload_vm`: no hook of the file system is registered. -/
  | unload (vm : Nat)

namespace FdSys

variable (s : FdSys ω)

/-- A call of the VM that was loaded as `serial`. -/
def apply (serial : Nat) : FdCall ω → Outcome ω
  | .openat target => s.handleOpenat serial target
  | .read fd n mapped r file' => s.handleTransfer (fun fd => s.fsReadFd fd r file') fd n mapped r
  | .write fd n mapped r file' => s.handleTransfer (fun fd => s.fsWriteFd fd r file') fd n mapped r
  | .close fd closed => s.handleClose fd closed
  | .lseek fd whence r file' => s.handleLseek fd whence r file'
  | .readdir fd mapped mounts r dir' => s.handleReaddir fd mapped mounts r dir'

def step : FdEvent ω → Option (FdSys ω)
  | .load vm =>
    if (s.vms vm).isNone then
      some { s with
        vms := update s.vms vm (some ⟨s.loads, false⟩)
        loads := s.loads + 1 }
    else none
  | .call vm c =>
    match s.vms vm with
    | some v => if v.halted then none else some (s.apply v.serial c).sys
    | none => none
  | .stop vm =>
    match s.vms vm with
    | some v => some { s with vms := update s.vms vm (some { v with halted := true }) }
    | none => none
  | .unload vm =>
    if (s.vms vm).isSome then some { s with vms := update s.vms vm none } else none

/-! ## What a VM may rely on -/

/-- Every descriptor belongs to a VM that is loaded. -/
def Held : Prop := ∀ i < vmHostFsMaxFiles, (s.fds i).isFree = false →
  ∃ vm v, s.vms vm = some v ∧ v.serial = s.opener i

/-- A call uses no file that another VM opened. -/
def Private : FdEvent ω → Prop
  | .call vm c => ∀ v i, s.vms vm = some v → v.halted = false →
      (s.apply v.serial c).via = some i → s.opener i = v.serial
  | _ => True

/-- The file of the slot is of the kind the call works on, and nothing else stops the call. -/
def Serves : FdSlot ω → FdCall ω → Prop
  | .hostFile .., .read _ n mapped .. => n ≠ 0 ∧ mapped = true
  | .trashFile _, .read _ n mapped .. => n ≠ 0 ∧ mapped = true
  | .hostFile _ writable, .write _ n mapped .. => n ≠ 0 ∧ mapped = true ∧ writable = true
  | .trashFile _, .write _ n mapped .. => n ≠ 0 ∧ mapped = true
  | .hostFile .., .lseek _ whence .. => whence.toNat ≤ 2
  | .trashFile _, .lseek _ whence .. => whence.toNat ≤ 2
  | .root _, .readdir _ mapped .. => mapped = true
  | .hostDir _, .readdir _ mapped .. => mapped = true
  | .trashDir _, .readdir _ mapped .. => mapped = true
  | slot, .close .. => slot.isFree = false
  | _, _ => False

end FdSys

/-- The descriptor that a call names. -/
def FdCall.fd : FdCall ω → Option (BitVec 32)
  | .openat _ => none
  | .read fd .. | .write fd .. | .close fd _ | .lseek fd .. | .readdir fd .. => some fd

namespace FdSys

variable (s : FdSys ω)

/-- A VM names its own descriptors in the calls that they serve, and has closed all of them when it
is unloaded. -/
def FdOk : FdEvent ω → Prop
  | .call vm c => ∀ v fd, s.vms vm = some v → v.halted = false → c.fd = some fd →
      fdBase ≤ fd.toInt → fd.toInt < fdLimit → Serves (s.fds (index fd.toInt)) c →
      s.opener (index fd.toInt) = v.serial
  | .unload vm => ∀ v, s.vms vm = some v →
      ∀ i < vmHostFsMaxFiles, s.opener i = v.serial → (s.fds i).isFree = true
  | _ => True

/-! ## Which file a call uses -/

variable {s}

theorem handleOpenat_cases (serial : Nat) (target : OpenTarget ω) :
    (∃ a0, s.handleOpenat serial target = s.refuse a0) ∨
      ∃ i slot, s.handleOpenat serial target = s.grant serial i slot := by
  have hopen : ∀ (result : Except Int ω) (slot : ω → FdSlot ω),
      (∃ a0, s.openSlot serial result slot = s.refuse a0) ∨
        ∃ i slot', s.openSlot serial result slot = s.grant serial i slot' := by
    intro result slot
    unfold openSlot
    split
    · exact .inl ⟨_, rfl⟩
    · split
      · exact .inl ⟨_, rfl⟩
      · exact .inr ⟨_, _, rfl⟩
  cases target with
  | rejected errno => exact .inl ⟨_, rfl⟩
  | root =>
    unfold handleOpenat
    dsimp only
    split
    · exact .inl ⟨_, rfl⟩
    · exact .inr ⟨_, _, rfl⟩
  | hostDir result pathLength =>
    unfold handleOpenat
    dsimp only
    split
    · exact .inl ⟨_, rfl⟩
    · split
      · exact .inl ⟨_, rfl⟩
      · split
        · exact .inl ⟨_, rfl⟩
        · exact .inr ⟨_, _, rfl⟩
  | hostFile wantsWrite writable result =>
    unfold handleOpenat
    dsimp only
    split
    · exact .inl ⟨_, rfl⟩
    · exact hopen _ _
  | trashDir result => exact hopen _ _
  | trashFile result => exact hopen _ _

/-- What a call on `fd` does, where `P` says that nothing but the number stops it: it uses no file,
or the one that is open there. -/
inductive Answers (s : FdSys ω) (fd : Int) (P : Prop) : Outcome ω → Prop
  | refuse (a0 : Int) (h : ¬ (fdBase ≤ fd ∧ fd < fdLimit ∧ P)) : Answers s fd P (s.refuse a0)
  | use (slot : FdSlot ω) (a0 : Int) (h : fdBase ≤ fd ∧ fd < fdLimit ∧ P)
      (hopen : (s.fds (index fd)).isFree = false) :
      Answers s fd P ⟨s.setSlot (index fd) slot, a0, some (index fd)⟩

namespace Answers

variable {fd : Int} {P Q : Prop} {o : Outcome ω}

theorem via_iff (h : Answers s fd P o) (i : Nat) :
    o.via = some i ↔ fdBase ≤ fd ∧ fd < fdLimit ∧ i = index fd ∧ P := by
  cases h with
  | refuse a0 h => exact iff_of_false (fun h => by cases h) fun hi => h ⟨hi.1, hi.2.1, hi.2.2.2⟩
  | use slot a0 h hopen => simp [h, eq_comm]

theorem guard {c : Prop} [Decidable c] {a0 : Int} (hc : c → ¬ (fdBase ≤ fd ∧ fd < fdLimit ∧ P))
    (ho : ¬ c → Answers s fd P o) : Answers s fd P (if c then s.refuse a0 else o) := by
  split
  · exact .refuse _ (hc ‹_›)
  · exact ho ‹_›

/-- The range checks of `fs_read_fd`, `fs_write_fd` and `fs_close_fd`. -/
theorem range {a b : Int} (ho : fdBase ≤ fd → fd < fdLimit → Answers s fd P o) :
    Answers s fd P (if fd < fdBase then s.refuse a else if fdLimit ≤ fd then s.refuse b else o) :=
  guard (fun hlo h => absurd h.1 (Int.not_le.mpr hlo)) fun hlo =>
    guard (fun hhi h => absurd h.2.1 (Int.not_lt.mpr hhi)) fun hhi =>
      ho (Int.not_lt.mp hlo) (Int.not_le.mp hhi)

theorem either {a : Int} (ho : fdBase ≤ fd → fd < fdLimit → Answers s fd P o) :
    Answers s fd P (if fd < fdBase ∨ fdLimit ≤ fd then s.refuse a else o) :=
  guard (fun hout h => by omega) fun hin => ho (by omega) (by omega)

theorem withA0 (h : Answers s fd P o) (a0 : Int) : Answers s fd P { o with a0 := a0 } := by
  cases h with
  | refuse _ h => exact .refuse a0 h
  | use slot _ h hopen => exact .use slot a0 h hopen

end Answers

theorem not_std_of_base {fd : BitVec 32} (h : fdBase ≤ fd.toInt) : ¬ fd.toNat < 3 := by
  intro hlt
  have hbase : fdBase = 3 := rfl
  rw [hbase, BitVec.toInt_eq_toNat_cond] at h
  omega

theorem handleTransfer_answers {op : Int → Outcome ω} {fd n : BitVec 32} {mapped : Bool} {r : Int}
    {P : Prop} (hP : P → n ≠ 0 ∧ mapped = true)
    (h : n ≠ 0 → mapped = true → Answers s fd.toInt P (op fd.toInt)) :
    Answers s fd.toInt P (s.handleTransfer op fd n mapped r) := by
  refine .guard (fun hstd hin => not_std_of_base hin.1 hstd) fun _ =>
    .guard (fun hn hin => (hP hin.2.2).1 hn) fun hn => ?_
  split
  · exact h hn ‹_›
  · exact .refuse _ fun hin => absurd (hP hin.2.2).2 ‹_›

/-- A call uses the file of the descriptor it names, if that serves the call. -/
theorem apply_answers (serial : Nat) (c : FdCall ω) {fd : BitVec 32} (hfd : c.fd = some fd) :
    Answers s fd.toInt (Serves (s.fds (index fd.toInt)) c) (s.apply serial c) := by
  cases c with
  | openat target => cases hfd
  | read fd n mapped r file' =>
    cases hfd
    unfold apply
    refine handleTransfer_answers (fun hP => ?_) fun hn hm => ?_
    · cases hs : s.fds (index fd.toInt) <;> simp_all [Serves]
    · refine .range fun hlo hhi => ?_
      cases hs : s.fds (index fd.toInt) with
      | hostFile | trashFile => exact .use _ _ ⟨hlo, hhi, hn, hm⟩ (hs ▸ rfl)
      | _ => exact .refuse _ fun hin => hin.2.2
  | write fd n mapped r file' =>
    cases hfd
    unfold apply
    refine handleTransfer_answers (fun hP => ?_) fun hn hm => ?_
    · cases hs : s.fds (index fd.toInt) <;> simp_all [Serves]
    · refine .range fun hlo hhi => ?_
      cases hs : s.fds (index fd.toInt) with
      | hostFile file writable =>
        cases writable with
        | true => exact .use _ _ ⟨hlo, hhi, hn, hm, rfl⟩ (hs ▸ rfl)
        | false => exact .refuse _ fun hin => Bool.false_ne_true hin.2.2.2.2
      | trashFile => exact .use _ _ ⟨hlo, hhi, hn, hm⟩ (hs ▸ rfl)
      | _ => exact .refuse _ fun hin => hin.2.2
  | close fd closed =>
    cases hfd
    have hclose : Answers s fd.toInt (Serves (s.fds (index fd.toInt)) (.close fd closed))
        (s.fsCloseFd fd.toInt closed) := by
      refine .range fun hlo hhi => ?_
      cases hs : s.fds (index fd.toInt) with
      | free => exact .refuse _ fun hin => absurd hin.2.2 (by simp [Serves, FdSlot.isFree])
      | _ => exact .use _ _ ⟨hlo, hhi, rfl⟩ (hs ▸ rfl)
    unfold apply handleClose
    dsimp only
    split
    · split <;> exact hclose.withA0 _
    · exact hclose
  | lseek fd whence r file' =>
    cases hfd
    refine .either fun hlo hhi => ?_
    cases hs : s.fds (index fd.toInt) with
    | hostFile | trashFile =>
      exact .guard (fun hw hin => Nat.not_le.mpr hw hin.2.2) fun hw =>
        .use _ _ ⟨hlo, hhi, Nat.not_lt.mp hw⟩ (hs ▸ rfl)
    | _ => exact .refuse _ fun hin => hin.2.2
  | readdir fd mapped mounts r dir' =>
    cases hfd
    refine .either fun hlo hhi => ?_
    cases hs : s.fds (index fd.toInt) with
    | free => exact .refuse _ fun hin => hin.2.2
    | root cursor =>
      refine .guard (fun hm hin => ?_) fun hm => ?_
      · simp_all [Serves]
      · have hserves : Serves (.root cursor) (.readdir fd mapped mounts r dir') := by
          simpa [Serves] using hm
        dsimp only
        cases nextMount mounts cursor with
        | none => exact .use _ _ ⟨hlo, hhi, hserves⟩ (by rw [hs]; rfl)
        | some next => exact .use _ _ ⟨hlo, hhi, hserves⟩ (by rw [hs]; rfl)
    | hostDir | trashDir =>
      refine .guard (fun hm hin => ?_) fun hm =>
        .use _ _ ⟨hlo, hhi, by simpa [Serves] using hm⟩ (hs ▸ rfl)
      simp_all [Serves]
    | _ => exact .guard (fun _ hin => hin.2.2) fun _ => .refuse _ fun hin => hin.2.2

theorem apply_via_iff (serial : Nat) (c : FdCall ω) (i : Nat) :
    (s.apply serial c).via = some i ↔ ∃ fd, c.fd = some fd ∧ fdBase ≤ fd.toInt ∧
      fd.toInt < fdLimit ∧ i = index fd.toInt ∧ Serves (s.fds (index fd.toInt)) c := by
  cases hfd : c.fd with
  | some fd => simpa using (apply_answers serial c hfd).via_iff i
  | none =>
    cases c with
    | openat target =>
      obtain ⟨a0, h⟩ | ⟨j, slot, h⟩ := handleOpenat_cases (s := s) serial target <;>
        simp [apply, h, refuse, grant]
    | _ => cases hfd

/-! ## What a call does to the table -/

/-- The VMs stay, and a descriptor that is open afterwards was open before under the same VM, or is
the caller's. -/
structure Kept (s : FdSys ω) (serial : Nat) (s' : FdSys ω) : Prop where
  vms : s'.vms = s.vms
  loads : s'.loads = s.loads
  open_of : ∀ i, (s'.fds i).isFree = false →
    ((s.fds i).isFree = false ∧ s'.opener i = s.opener i) ∨ s'.opener i = serial

theorem Kept.refl (s : FdSys ω) (serial : Nat) : Kept s serial s :=
  ⟨rfl, rfl, fun _ h => .inl ⟨h, rfl⟩⟩

theorem Kept.setSlot {serial i : Nat} {slot : FdSlot ω} (h : (s.fds i).isFree = false) :
    Kept s serial (s.setSlot i slot) := by
  refine ⟨rfl, rfl, fun j hj => .inl ⟨?_, rfl⟩⟩
  by_cases hji : j = i
  · rw [hji]
    exact h
  · unfold FdSys.setSlot at hj
    dsimp only at hj
    rw [update_of_ne hji] at hj
    exact hj

theorem Kept.grant (serial i : Nat) (slot : FdSlot ω) : Kept s serial (s.grant serial i slot).sys := by
  refine ⟨rfl, rfl, fun j hj => ?_⟩
  unfold FdSys.grant FdSys.setSlot at hj ⊢
  dsimp only at hj ⊢
  by_cases hji : j = i
  · rw [hji, update_self]
    exact .inr rfl
  · rw [update_of_ne hji] at hj ⊢
    exact .inl ⟨hj, rfl⟩

theorem apply_kept (serial : Nat) (c : FdCall ω) : Kept s serial (s.apply serial c).sys := by
  cases hfd : c.fd with
  | some fd =>
    have hanswers := apply_answers (s := s) serial c hfd
    generalize s.apply serial c = o at hanswers ⊢
    cases hanswers with
    | refuse a0 h => exact .refl ..
    | use slot a0 h hopen => exact .setSlot hopen
  | none =>
    cases c with
    | openat target =>
      obtain ⟨a0, h⟩ | ⟨i, slot, h⟩ := handleOpenat_cases (s := s) serial target
      · simpa only [apply, h] using .refl ..
      · simpa only [apply, h] using .grant ..
    | _ => cases hfd

/-! ## Every run -/

/-- The serial numbers tell the VMs apart. -/
structure Serials (s : FdSys ω) : Prop where
  below : ∀ vm v, s.vms vm = some v → v.serial < s.loads
  inj : ∀ vm vm' v v', s.vms vm = some v → s.vms vm' = some v' → v.serial = v'.serial → vm = vm'

theorem Serials.mono (h : Serials s) {s' : FdSys ω} (hloads : s.loads ≤ s'.loads)
    (hvms : ∀ vm v, s'.vms vm = some v → ∃ w, s.vms vm = some w ∧ w.serial = v.serial) :
    Serials s' := by
  refine ⟨fun vm v hv => ?_, fun vm vm' v v' hv hv' he => ?_⟩
  · obtain ⟨w, hw, hser⟩ := hvms _ _ hv
    have := h.below _ _ hw
    omega
  · obtain ⟨w, hw, hser⟩ := hvms _ _ hv
    obtain ⟨w', hw', hser'⟩ := hvms _ _ hv'
    exact h.inj _ _ _ _ hw hw' (by omega)

theorem step_call {vm : Nat} {c : FdCall ω} {s' : FdSys ω} (hs : s.step (.call vm c) = some s') :
    ∃ v, s.vms vm = some v ∧ Kept s v.serial s' := by
  unfold FdSys.step at hs
  dsimp only at hs
  split at hs
  · rename_i v hv
    split at hs
    · cases hs
    · cases hs
      exact ⟨v, hv, apply_kept v.serial c⟩
  · cases hs

theorem step_stop {vm : Nat} {s' : FdSys ω} (hs : s.step (.stop vm) = some s') :
    ∃ v, s.vms vm = some v ∧
      s' = { s with vms := update s.vms vm (some { v with halted := true }) } := by
  unfold FdSys.step at hs
  dsimp only at hs
  split at hs
  · cases hs
    exact ⟨_, ‹_›, rfl⟩
  · cases hs

theorem Serials.step (h : Serials s) {e : FdEvent ω} {s' : FdSys ω} (hs : s.step e = some s') :
    Serials s' := by
  cases e with
  | load vm =>
    obtain ⟨-, ⟨⟩⟩ := enabled hs
    have hcase : ∀ vm' v', update s.vms vm (some ⟨s.loads, false⟩) vm' = some v' →
        (vm' = vm ∧ v'.serial = s.loads) ∨ s.vms vm' = some v' := by
      intro vm' v' hv
      by_cases hvm : vm' = vm
      · rw [hvm, update_self, Option.some.injEq] at hv
        exact .inl ⟨hvm, hv ▸ rfl⟩
      · rw [update_of_ne hvm] at hv
        exact .inr hv
    refine ⟨fun vm' v' hv => ?_, fun vm₁ vm₂ v₁ v₂ h₁ h₂ he => ?_⟩
    · dsimp only
      rcases hcase vm' v' hv with ⟨-, hser⟩ | hold
      · omega
      · have := h.below _ _ hold
        omega
    · rcases hcase _ _ h₁ with ⟨rfl, hser₁⟩ | hold₁ <;> rcases hcase _ _ h₂ with ⟨rfl, hser₂⟩ | hold₂
      · rfl
      · have := h.below _ _ hold₂
        omega
      · have := h.below _ _ hold₁
        omega
      · exact h.inj _ _ _ _ hold₁ hold₂ he
  | call vm c =>
    obtain ⟨v, -, hk⟩ := step_call hs
    exact h.mono (Nat.le_of_eq hk.loads.symm) fun vm' v' hv => ⟨v', hk.vms ▸ hv, rfl⟩
  | stop vm =>
    obtain ⟨v, hv, rfl⟩ := step_stop hs
    refine h.mono (Nat.le_refl _) fun vm' v' hv' => ?_
    dsimp only at hv'
    by_cases hvm : vm' = vm
    · rw [hvm, update_self, Option.some.injEq] at hv'
      rw [hvm]
      exact ⟨v, hv, hv' ▸ rfl⟩
    · rw [update_of_ne hvm] at hv'
      exact ⟨v', hv', rfl⟩
  | unload vm =>
    obtain ⟨-, ⟨⟩⟩ := enabled hs
    refine h.mono (Nat.le_refl _) fun vm' v' hv' => ?_
    dsimp only at hv'
    by_cases hvm : vm' = vm
    · rw [hvm, update_self] at hv'
      cases hv'
    · rw [update_of_ne hvm] at hv'
      exact ⟨v', hv', rfl⟩

theorem Held.step (hheld : s.Held) {e : FdEvent ω} {s' : FdSys ω} (hs : s.step e = some s')
    (hne : ∀ vm, e ≠ .unload vm) : s'.Held := by
  intro i hi hopen
  cases e with
  | load vm =>
    obtain ⟨hnone, ⟨⟩⟩ := enabled hs
    obtain ⟨vm', v', hv', hser⟩ := hheld i hi hopen
    refine ⟨vm', v', ?_, hser⟩
    dsimp only
    rw [update_of_ne]
    · exact hv'
    · rintro rfl
      rw [hv'] at hnone
      exact absurd hnone Bool.false_ne_true
  | call vm c =>
    obtain ⟨v, hv, hk⟩ := step_call hs
    rw [hk.vms]
    rcases hk.open_of i hopen with ⟨hold, hsame⟩ | hmine
    · rw [hsame]
      exact hheld i hi hold
    · exact ⟨vm, v, hv, hmine.symm⟩
  | stop vm =>
    obtain ⟨v, hv, rfl⟩ := step_stop hs
    obtain ⟨vm', v', hv', hser⟩ := hheld i hi hopen
    by_cases hvm : vm' = vm
    · subst hvm
      rw [hv, Option.some.injEq] at hv'
      exact ⟨vm', { v with halted := true }, update_self .., hv' ▸ hser⟩
    · exact ⟨vm', v', (update_of_ne hvm ..).trans hv', hser⟩
  | unload vm => exact absurd rfl (hne vm)

theorem held_unload_iff (h : Serials s) (hheld : s.Held) {vm : Nat} {s' : FdSys ω}
    (hs : s.step (.unload vm) = some s') : s'.Held ↔ s.FdOk (.unload vm) := by
  obtain ⟨-, ⟨⟩⟩ := enabled hs
  constructor
  · intro hafter v hv i hi hmine
    by_contra hopen
    obtain ⟨vm', v', hv', hser⟩ := hafter i hi (Bool.eq_false_iff.mpr hopen)
    dsimp only at hv' hser
    by_cases hvm : vm' = vm
    · rw [hvm, update_self] at hv'
      cases hv'
    · rw [update_of_ne hvm] at hv'
      exact hvm (h.inj _ _ _ _ hv' hv (hser.trans hmine))
  · intro hok i hi hopen
    obtain ⟨vm', v', hv', hser⟩ := hheld i hi hopen
    refine ⟨vm', v', ?_, hser⟩
    dsimp only
    rw [update_of_ne]
    · exact hv'
    · rintro rfl
      have hfree := hok v' hv' i hi hser.symm
      rw [hopen] at hfree
      cases hfree

theorem private_call_iff (vm : Nat) (c : FdCall ω) : s.Private (.call vm c) ↔ s.FdOk (.call vm c) := by
  constructor
  · intro hp v fd hv hrun hfd hlo hhi hserves
    exact hp v _ hv hrun ((apply_via_iff v.serial c _).mpr ⟨fd, hfd, hlo, hhi, rfl, hserves⟩)
  · intro hok v i hv hrun hvia
    obtain ⟨fd, hfd, hlo, hhi, rfl, hserves⟩ := (apply_via_iff v.serial c i).mp hvia
    exact hok v fd hv hrun hfd hlo hhi hserves

/-- What a step does and leaves is as promised exactly under its condition. -/
theorem step_private_iff (h : Serials s) (hheld : s.Held) (e : FdEvent ω) :
    (s.Private e ∧ ∀ s', s.step e = some s' → s'.Held) ↔ s.FdOk e := by
  cases e with
  | load vm | stop vm => exact iff_of_true ⟨trivial, fun s' hs => hheld.step hs (by simp)⟩ trivial
  | call vm c =>
    rw [private_call_iff]
    exact and_iff_left fun s' hs => hheld.step hs (by simp)
  | unload vm =>
    constructor
    · rintro ⟨-, hafter⟩
      cases hs : s.step (.unload vm) with
      | some s' => exact (held_unload_iff h hheld hs).mp (hafter s' hs)
      | none =>
        intro v hv
        unfold FdSys.step at hs
        simp [hv] at hs
    · exact fun hok => ⟨trivial, fun s' hs => (held_unload_iff h hheld hs).mpr hok⟩

/-- Along a run no VM uses another one's files and no descriptor outlives its VM, exactly if every VM
names and closes its own descriptors. -/
theorem run_private_iff (es : List (FdEvent ω)) :
    Meets step (fun s e => s.Private e ∧ ∀ s', s.step e = some s' → s'.Held) (init : FdSys ω) es ↔
      Meets step FdOk (init : FdSys ω) es := by
  have hserials : Serials (init : FdSys ω) := by
    refine ⟨?_, ?_⟩
    · intro vm v h
      cases h
    · intro vm vm' v v' h
      cases h
  have hheld : (init : FdSys ω).Held := by
    intro i _ h
    cases h
  constructor
  · exact Meets.of_invariant (fun s e s' (h : Serials s ∧ s.Held) hp hs => ⟨h.1.step hs, hp.2 s' hs⟩)
      (fun s e h hp => (step_private_iff h.1 h.2 e).mp hp) ⟨hserials, hheld⟩
  · exact Meets.of_invariant (fun s e s' (h : Serials s ∧ s.Held) hok hs =>
        ⟨h.1.step hs, ((step_private_iff h.1 h.2 e).mpr hok).2 s' hs⟩)
      (fun s e h hok => (step_private_iff h.1 h.2 e).mpr hok) ⟨hserials, hheld⟩

/-! ## A file that outlives its VM -/

/-- One VM opens a file, another one is loaded. -/
def twoVms : List (FdEvent Unit) :=
  [.load 0, .call 0 (.openat (.trashFile (.ok ()))), .load 1]

/-- The other VM reads the file through descriptor 3, and the descriptor stays open when the VM that
opened it is unloaded. -/
theorem descriptor_shared : ∃ s, run step (init : FdSys Unit) twoVms = some s ∧
    ¬ s.Private (.call 1 (.read 3 4 true 4 ())) ∧ ∀ s', s.step (.unload 0) = some s' → ¬ s'.Held := by
  refine ⟨_, rfl, fun hp => ?_, fun s' hs hheld => ?_⟩
  · exact absurd (hp ⟨1, false⟩ 0 rfl rfl rfl) (by decide)
  · cases hs
    obtain ⟨vm, v, hv, hser⟩ := hheld 0 (by decide) rfl
    match vm, hv with
    | 0, hv => cases hv
    | 1, hv =>
      cases hv
      cases hser
    | _ + 2, hv => cases hv

end FdSys

end Microgarbage.Io
