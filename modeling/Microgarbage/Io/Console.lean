import Microgarbage.Io.Descriptors
import Microgarbage.Lib.Bytes

/-!
# Console output

`SYS_WRITE` and `SYS_FFLUSH` of `vm_host_stdio.c` and `SYS_FORMAT_AND_WRITE` of
`vm_host_platform.c` on the standard streams. A VM may be bound to a transport; otherwise the default
transport or the host's streams take its output. A `FILE` has a buffer that the C library may empty
from the front at any time. Every transport has `write` and `flush`. How many bytes a transport or a
stream accepts is an argument.
-/

namespace Microgarbage.Io

open Lib

def vmSchedMaxVms : Nat := 64

/-- The host's file descriptors 1 and 2. -/
inductive HostStream
  | stdout
  | stderr
  deriving DecidableEq

inductive Sink
  | transport (t : Nat)
  | host (stream : HostStream)
  deriving DecidableEq

/-- The streams that `vm_host_install_stdio_ex` commits: a `FILE` each, or a descriptor that replaces
it. -/
structure StdioConfig where
  outFile : Option HostStream
  errFile : Option HostStream
  outFd : Option HostStream
  errFd : Option HostStream

/-- The `FILE` of a guest's descriptor 1 or 2, and the descriptor that replaces it. -/
def StdioConfig.dest (c : StdioConfig) (fd : Nat) : Option HostStream :=
  if fd = 1 then c.outFile else c.errFile

def StdioConfig.destFd (c : StdioConfig) (fd : Nat) : Option HostStream :=
  if fd = 1 then c.outFd else c.errFd

structure Console where
  cfg : StdioConfig
  transportByVm : Nat → Option Nat
  defaultTransport : Option Nat
  /-- What has arrived. -/
  received : Sink → List Byte
  /-- What the `FILE` of a host stream holds back. -/
  buffer : HostStream → List Byte
  /-- The bytes written by the VMs whose output belongs to the sink, in the order of the calls. -/
  owed : Sink → List Byte

namespace Console

def init (cfg : StdioConfig) : Console :=
  ⟨cfg, fun _ => none, none, fun _ => [], fun _ => [], fun _ => []⟩

variable (s : Console)

/-! ## Transports -/

/-- `vm_host_get_transport_for_vm`. -/
def getTransportForVm (vm : Nat) : Option Nat :=
  if vm < vmSchedMaxVms then (s.transportByVm vm).or s.defaultTransport else s.defaultTransport

/-- `vm_host_set_transport_for_vm`, and the unload hook with `none`. -/
def setTransportForVm (vm : Nat) (t : Option Nat) : Console :=
  if vm < vmSchedMaxVms then { s with transportByVm := Function.update s.transportByVm vm t } else s

/-- Where the output of a VM belongs. -/
def ownSink (vm fd : Nat) : Option Sink :=
  match s.getTransportForVm vm with
  | some t => some (.transport t)
  | none => ((s.cfg.destFd fd).or (s.cfg.dest fd)).map .host

/-! ## Sinks -/

def receive (k : Sink) (bytes : List Byte) : Console :=
  { s with received := Function.update s.received k (s.received k ++ bytes) }

/-- `fwrite`, which fills the buffer. -/
def fill (st : HostStream) (bytes : List Byte) : Console :=
  { s with buffer := Function.update s.buffer st (s.buffer st ++ bytes) }

/-- The front of the buffer goes to the stream. -/
def spill (st : HostStream) (n : Nat) : Console :=
  { s.receive (.host st) ((s.buffer st).take n) with
    buffer := Function.update s.buffer st ((s.buffer st).drop n) }

/-- `fflush`. -/
def flush (st : HostStream) : Console := s.spill st (s.buffer st).length

/-- The bytes count for the sink that the VM's output belongs to. -/
def owe (k : Option Sink) (bytes : List Byte) : Console :=
  match k with
  | none => s
  | some k => { s with owed := Function.update s.owed k (s.owed k ++ bytes) }

/-! ## Handlers -/

/-- `handle_write` for the standard streams; `bytes` is the guest's buffer, `none` when it cannot be
read, and `w` is what the sink's write returns. -/
def handleWrite (vm fd : Nat) (bytes : Option (List Byte)) (w : Int) : Int × Console :=
  if fd = 1 ∨ fd = 2 then
    match s.getTransportForVm vm with
    | some t =>
      match bytes with
      | none => (-vmEfault, s)
      | some [] => (0, s)
      | some bytes =>
        (w, (s.receive (.transport t) (bytes.take w.toNat)).owe (s.ownSink vm fd)
          (bytes.take w.toNat))
    | none =>
      if s.cfg.dest fd = none ∧ s.cfg.destFd fd = none then (-vmEbadf, s)
      else
        match bytes with
        | none => (-vmEfault, s)
        | some [] => (0, s)
        | some bytes =>
          match s.cfg.destFd fd, s.cfg.dest fd with
          | some st, _ =>
            if w < 0 then (-vmEio, s)
            else (w, (s.receive (.host st) (bytes.take w.toNat)).owe (s.ownSink vm fd)
              (bytes.take w.toNat))
          | none, some st =>
            (w.toNat, (s.fill st (bytes.take w.toNat)).owe (s.ownSink vm fd) (bytes.take w.toNat))
          | none, none => (-vmEbadf, s)
  else (-vmEbadf, s)

/-- The host stream with the number of the descriptor. -/
def streamOf (fd : Nat) : HostStream := if fd = 1 then .stdout else .stderr

/-- `handle_format_and_write`: `text` is what the formatter makes of the guest's arguments, `none`
when they cannot be read; `fd_emit` writes to the host's descriptor until that takes no more. -/
def handleFormatAndWrite (vm fd : Nat) (text : Option (List Byte)) (accepted : Nat) :
    Int × Console :=
  if fd ≠ 1 ∧ fd ≠ 2 then (-vmEbadf, s)
  else
    match text with
    | none => (-vmEfault, s)
    | some text =>
      let s := (s.receive (.host (streamOf fd)) (text.take accepted)).owe (s.ownSink vm fd)
        (text.take accepted)
      if accepted < text.length then (-vmEio, s) else (text.length, s)

def flushFile (file : Option HostStream) : Console :=
  match file with
  | some st => s.flush st
  | none => s

/-- `handle_fflush`; `r` is what the transport's flush returns. -/
def handleFflush (vm fd : Nat) (r : Int) : Int × Console :=
  match s.getTransportForVm vm with
  | some _ => if fd ≤ 2 then (if 0 ≤ r then 0 else r, s) else (-vmEbadf, s)
  | none =>
    if fd = 0 then
      let s' := s.flushFile s.cfg.outFile
      (0, if s.cfg.errFile ≠ s.cfg.outFile then s'.flushFile s.cfg.errFile else s')
    else if fd = 1 ∧ s.cfg.outFile.isSome then (0, s.flushFile s.cfg.outFile)
    else if fd = 2 ∧ s.cfg.errFile.isSome then (0, s.flushFile s.cfg.errFile)
    else (-vmEbadf, s)

end Console

/-! ## The machine -/

inductive ConsoleEvent
  | bind (vm : Nat) (t : Option Nat)
  | setDefault (t : Option Nat)
  | write (vm fd : Nat) (bytes : Option (List Byte)) (w : Int)
  | format (vm fd : Nat) (text : Option (List Byte)) (accepted : Nat)
  | fflush (vm fd : Nat) (r : Int)
  /-- The C library empties a part of a buffer. -/
  | spill (st : HostStream) (n : Nat)

namespace Console

variable (s : Console)

def apply : ConsoleEvent → Console
  | .bind vm t => s.setTransportForVm vm t
  | .setDefault t => { s with defaultTransport := t }
  | .write vm fd bytes w => (s.handleWrite vm fd bytes w).2
  | .format vm fd text accepted => (s.handleFormatAndWrite vm fd text accepted).2
  | .fflush vm fd r => (s.handleFflush vm fd r).2
  | .spill st n => s.spill st n

def step (e : ConsoleEvent) : Option Console := some (s.apply e)

/-! ## What the sinks hold -/

/-- What a sink has received after a final flush. -/
def total : Sink → List Byte
  | .transport t => s.received (.transport t)
  | .host st => s.received (.host st) ++ s.buffer st

/-- Every sink has exactly the bytes that belong to it, in the order of the calls. -/
def Exact : Prop := ∀ k, s.total k = s.owed k

/-- A VM's call brings bytes to no other sink. -/
def Contained (e : ConsoleEvent) : Prop :=
  ∀ vm fd, ((∃ bytes w, e = .write vm fd bytes w) ∨ ∃ text accepted, e = .format vm fd text accepted) →
    ∀ k, s.ownSink vm fd ≠ some k → (s.apply e).total k = s.total k

/-- What the buffer holds and the new bytes read the same in either order. -/
def Commutes (st : HostStream) (out : List Byte) : Prop := s.buffer st ++ out = out ++ s.buffer st

/-- Formatted output comes from a VM whose output belongs to that host stream. It and a write to a
replaced descriptor find the buffer of the stream empty, or with bytes that commute. -/
def ConsoleOk : ConsoleEvent → Prop
  | .write vm fd (some bytes) w => fd = 1 ∨ fd = 2 → s.getTransportForVm vm = none →
      ∀ st, s.cfg.destFd fd = some st → 0 ≤ w → s.Commutes st (bytes.take w.toNat)
  | .format vm fd (some text) accepted => fd = 1 ∨ fd = 2 → text.take accepted = [] ∨
      (s.ownSink vm fd = some (.host (streamOf fd)) ∧ s.Commutes (streamOf fd) (text.take accepted))
  | _ => True

/-! ## How the totals change -/

section Totals

variable {s}

theorem total_receive_of_ne {k j : Sink} (h : j ≠ k) (bytes : List Byte) :
    (s.receive k bytes).total j = s.total j := by
  unfold receive total
  cases j <;> simp [Function.update_of_ne h]

theorem total_receive_host (st : HostStream) (bytes : List Byte) :
    (s.receive (.host st) bytes).total (.host st) = s.received (.host st) ++ bytes ++ s.buffer st := by
  unfold receive total
  simp

theorem total_receive_transport (t : Nat) (bytes : List Byte) :
    (s.receive (.transport t) bytes).total (.transport t) = s.total (.transport t) ++ bytes := by
  unfold receive total
  simp

theorem total_fill (st : HostStream) (bytes : List Byte) (k : Sink) :
    (s.fill st bytes).total k = if k = .host st then s.total k ++ bytes else s.total k := by
  unfold fill total
  cases k with
  | transport t => simp
  | host st' =>
    by_cases h : st' = st
    · subst h
      simp
    · simp [h]

theorem total_spill (st : HostStream) (n : Nat) (k : Sink) : (s.spill st n).total k = s.total k := by
  unfold spill receive total
  cases k with
  | transport t => simp
  | host st' =>
    by_cases h : st' = st
    · subst h
      simp [List.append_assoc]
    · simp [h]

@[simp] theorem total_owe (k : Option Sink) (bytes : List Byte) (j : Sink) :
    (s.owe k bytes).total j = s.total j := by
  unfold owe
  cases k with
  | none => rfl
  | some k => cases j <;> rfl

theorem owed_owe (k : Option Sink) (bytes : List Byte) (j : Sink) :
    (s.owe k bytes).owed j = if k = some j then s.owed j ++ bytes else s.owed j := by
  unfold owe
  cases k with
  | none => simp
  | some k =>
    by_cases h : j = k
    · subst h
      simp
    · have hne : ¬ k = j := fun he => h he.symm
      simp [Function.update_of_ne h, hne]

theorem total_flushFile (file : Option HostStream) (k : Sink) : (s.flushFile file).total k = s.total k := by
  cases file with
  | none => rfl
  | some st => exact total_spill ..

theorem owed_flushFile (file : Option HostStream) : (s.flushFile file).owed = s.owed := by
  cases file <;> rfl

end Totals

/-! ## One step -/

section Steps

variable {s}

theorem Exact.transport (h : s.Exact) (t : Nat) (out : List Byte) :
    ((s.receive (.transport t) out).owe (some (.transport t)) out).Exact := by
  intro k
  rw [total_owe, owed_owe]
  by_cases hk : k = .transport t
  · subst hk
    rw [total_receive_transport, if_pos rfl, h]
    rfl
  · rw [total_receive_of_ne hk, if_neg (fun he => hk (Option.some.inj he).symm), h]
    rfl

theorem Exact.fill (h : s.Exact) (st : HostStream) (out : List Byte) :
    ((s.fill st out).owe (some (.host st)) out).Exact := by
  intro k
  rw [total_owe, owed_owe, total_fill]
  by_cases hk : k = .host st
  · subst hk
    rw [if_pos rfl, if_pos rfl, h]
    rfl
  · rw [if_neg hk, if_neg (fun he => hk (Option.some.inj he).symm), h]
    rfl

/-- Bytes that pass the buffer by are right if they belong to the stream and commute with what is
held back. -/
theorem Exact.direct_iff (h : s.Exact) (st : HostStream) (own : Option Sink) (out : List Byte) :
    ((s.receive (.host st) out).owe own out).Exact ↔
      out = [] ∨ (own = some (.host st) ∧ s.Commutes st out) := by
  have hthis : ∀ owed : List Byte, s.received (.host st) ++ s.buffer st = owed →
      (s.received (.host st) ++ out ++ s.buffer st = owed ++ out ↔ s.Commutes st out) := by
    rintro owed rfl
    unfold Commutes
    rw [List.append_assoc, List.append_assoc, List.append_cancel_left_eq]
    exact eq_comm
  constructor
  · intro hafter
    by_cases hout : out = []
    · exact .inl hout
    · have hst := hafter (.host st)
      rw [total_owe, owed_owe, total_receive_host] at hst
      by_cases hown : own = some (.host st)
      · rw [if_pos hown] at hst
        exact .inr ⟨hown, (hthis _ (h (.host st))).mp hst⟩
      · -- the stream has bytes that belong to no one, or to another sink
        rw [if_neg hown] at hst
        have hbefore : s.received (.host st) ++ s.buffer st = s.owed (.host st) := h (.host st)
        have hlen := congrArg List.length (hst.trans hbefore.symm)
        simp only [List.length_append] at hlen
        exact absurd (List.eq_nil_of_length_eq_zero (by omega)) hout
  · rintro (rfl | ⟨rfl, hcomm⟩) k
    · rw [total_owe, owed_owe]
      have hold := h k
      split
      · rw [List.append_nil]
        by_cases hk : k = .host st
        · subst hk
          rw [total_receive_host, List.append_nil]
          exact hold
        · rw [total_receive_of_ne hk]
          exact hold
      · by_cases hk : k = .host st
        · subst hk
          rw [total_receive_host, List.append_nil]
          exact hold
        · rw [total_receive_of_ne hk]
          exact hold
    · rw [total_owe, owed_owe]
      by_cases hk : k = .host st
      · subst hk
        rw [total_receive_host, if_pos rfl]
        exact (hthis _ (h (.host st))).mpr hcomm
      · rw [total_receive_of_ne hk, if_neg (fun he => hk (Option.some.inj he).symm)]
        exact h k

/-- What a plain write can do. -/
inductive WriteStep (s : Console) (vm fd : Nat) (bytes : Option (List Byte)) (w : Int) : Console → Prop
  | none : WriteStep s vm fd bytes w s
  | transport (t : Nat) (b : List Byte) : s.getTransportForVm vm = some t →
      WriteStep s vm fd bytes w
        ((s.receive (.transport t) (b.take w.toNat)).owe (s.ownSink vm fd) (b.take w.toNat))
  | direct (st : HostStream) (b : List Byte) : bytes = some b → fd = 1 ∨ fd = 2 →
      s.getTransportForVm vm = Option.none → s.cfg.destFd fd = some st → 0 ≤ w →
      WriteStep s vm fd bytes w
        ((s.receive (.host st) (b.take w.toNat)).owe (s.ownSink vm fd) (b.take w.toNat))
  | fill (st : HostStream) (b : List Byte) : s.getTransportForVm vm = Option.none →
      s.cfg.destFd fd = Option.none → s.cfg.dest fd = some st →
      WriteStep s vm fd bytes w
        ((s.fill st (b.take w.toNat)).owe (s.ownSink vm fd) (b.take w.toNat))

theorem handleWrite_cases (vm fd : Nat) (bytes : Option (List Byte)) (w : Int) :
    WriteStep s vm fd bytes w (s.handleWrite vm fd bytes w).2 := by
  unfold handleWrite
  by_cases hfd : fd = 1 ∨ fd = 2
  · rw [if_pos hfd]
    cases ht : s.getTransportForVm vm with
    | some t =>
      match bytes with
      | none => exact .none
      | some [] => exact .none
      | some (b :: bs) => exact .transport t (b :: bs) ht
    | none =>
      dsimp only
      split
      · exact .none
      · match bytes with
        | none => exact .none
        | some [] => exact .none
        | some (b :: bs) =>
          dsimp only
          split
          · rename_i st hdirect
            split
            · exact .none
            · rename_i hw
              exact .direct st (b :: bs) rfl hfd ht hdirect (Int.not_lt.mp hw)
          · rename_i st hdirect hdest
            exact .fill st (b :: bs) ht hdirect hdest
          · exact .none
  · rw [if_neg hfd]
    exact .none

theorem ownSink_transport {vm fd t : Nat} (h : s.getTransportForVm vm = some t) :
    s.ownSink vm fd = some (.transport t) := by
  unfold ownSink
  rw [h]

theorem ownSink_direct {vm fd : Nat} {st : HostStream} (h : s.getTransportForVm vm = none)
    (hst : s.cfg.destFd fd = some st) : s.ownSink vm fd = some (.host st) := by
  unfold ownSink
  rw [h, hst]
  rfl

theorem ownSink_fill {vm fd : Nat} {st : HostStream} (h : s.getTransportForVm vm = none)
    (hnone : s.cfg.destFd fd = none) (hst : s.cfg.dest fd = some st) :
    s.ownSink vm fd = some (.host st) := by
  unfold ownSink
  rw [h, hnone, hst]
  rfl

theorem handleWrite_direct {vm fd : Nat} {st : HostStream} {b : Byte} {bs : List Byte} {w : Int}
    (hfd : fd = 1 ∨ fd = 2) (ht : s.getTransportForVm vm = none) (hst : s.cfg.destFd fd = some st)
    (hw : 0 ≤ w) : (s.handleWrite vm fd (some (b :: bs)) w).2 =
      (s.receive (.host st) ((b :: bs).take w.toNat)).owe (s.ownSink vm fd)
        ((b :: bs).take w.toNat) := by
  unfold handleWrite
  have hsome : ¬ (s.cfg.dest fd = none ∧ s.cfg.destFd fd = none) := by simp [hst]
  rw [if_pos hfd, ht]
  dsimp only
  rw [if_neg hsome, hst]
  dsimp only
  rw [if_neg (Int.not_lt.mpr hw)]

theorem write_exact_iff (h : s.Exact) (vm fd : Nat) (bytes : Option (List Byte)) (w : Int) :
    (s.apply (.write vm fd bytes w)).Exact ↔ s.ConsoleOk (.write vm fd bytes w) := by
  constructor
  · intro hafter
    match bytes with
    | none => exact trivial
    | some [] =>
      intro _ _ st _ _
      unfold Commutes
      rw [List.take_nil, List.append_nil, List.nil_append]
    | some (b :: bs) =>
      intro hfd ht st hst hw
      have hresult : (s.handleWrite vm fd (some (b :: bs)) w).2 = _ :=
        handleWrite_direct hfd ht hst hw
      unfold apply at hafter
      dsimp only at hafter
      rw [hresult, ownSink_direct ht hst] at hafter
      rcases (h.direct_iff st _ _).mp hafter with hnil | ⟨-, hcomm⟩
      · rw [hnil]
        unfold Commutes
        rw [List.append_nil, List.nil_append]
      · exact hcomm
  · intro hok
    have hcases := s.handleWrite_cases vm fd bytes w
    unfold apply
    dsimp only
    generalize (s.handleWrite vm fd bytes w).2 = s' at hcases ⊢
    cases hcases with
    | none => exact h
    | transport t b ht =>
      rw [ownSink_transport ht]
      exact h.transport t _
    | direct st b hb hfd ht hst hw =>
      rw [ownSink_direct ht hst]
      subst hb
      exact (h.direct_iff st _ _).mpr (.inr ⟨rfl, hok hfd ht st hst hw⟩)
    | fill st b ht hnone hst =>
      rw [ownSink_fill ht hnone hst]
      exact h.fill st _

theorem format_exact_iff (h : s.Exact) (vm fd : Nat) (text : Option (List Byte)) (accepted : Nat) :
    (s.apply (.format vm fd text accepted)).Exact ↔ s.ConsoleOk (.format vm fd text accepted) := by
  unfold apply handleFormatAndWrite
  dsimp only
  by_cases hfd : fd ≠ 1 ∧ fd ≠ 2
  · rw [if_pos hfd]
    refine iff_of_true h ?_
    cases text with
    | none => exact trivial
    | some text =>
      rintro (rfl | rfl)
      · exact absurd rfl hfd.1
      · exact absurd rfl hfd.2
  · rw [if_neg hfd]
    cases text with
    | none => exact iff_of_true h trivial
    | some text =>
      have hstate : ∀ p : Prop, [Decidable p] → ∀ (s' : Console) (a b : Int),
          (if p then (a, s') else (b, s')).2 = s' := by
        intro p _ s' a b
        split <;> rfl
      have hthis : fd = 1 ∨ fd = 2 := by omega
      dsimp only
      rw [hstate, h.direct_iff]
      exact ⟨fun hor _ => hor, fun hok => hok hthis⟩

theorem other_exact (h : s.Exact) {e : ConsoleEvent} (hwrite : ∀ vm fd bytes w, e ≠ .write vm fd bytes w)
    (hformat : ∀ vm fd text accepted, e ≠ .format vm fd text accepted) : (s.apply e).Exact := by
  have hflush : ∀ (s : Console) (file : Option HostStream), s.Exact → (s.flushFile file).Exact := by
    intro s file hs k
    rw [total_flushFile, owed_flushFile]
    exact hs k
  cases e with
  | bind vm t =>
    unfold apply setTransportForVm
    dsimp only
    split
    · intro k
      have hk := h k
      cases k <;> exact hk
    · exact h
  | setDefault t =>
    intro k
    have hk := h k
    cases k <;> exact hk
  | write vm fd bytes w => exact absurd rfl (hwrite vm fd bytes w)
  | format vm fd text accepted => exact absurd rfl (hformat vm fd text accepted)
  | fflush vm fd r =>
    unfold apply handleFflush
    dsimp only
    split
    · split <;> exact h
    · split
      · dsimp only
        split
        · exact hflush _ _ (hflush _ _ h)
        · exact hflush _ _ h
      · split
        · exact hflush _ _ h
        · split
          · exact hflush _ _ h
          · exact h
  | spill st n =>
    intro k
    exact (total_spill st n k).trans (h k)

theorem apply_exact_iff (h : s.Exact) (e : ConsoleEvent) : (s.apply e).Exact ↔ s.ConsoleOk e := by
  cases e with
  | write vm fd bytes w => exact write_exact_iff h vm fd bytes w
  | format vm fd text accepted => exact format_exact_iff h vm fd text accepted
  | _ => exact iff_of_true (other_exact h (by simp) (by simp)) trivial

theorem contained_of_exact (h : s.Exact) {e : ConsoleEvent} (hafter : (s.apply e).Exact) :
    s.Contained e := by
  have howe : ∀ (s : Console) (own : Option Sink) (out : List Byte) (k : Sink), own ≠ some k →
      (s.owe own out).owed k = s.owed k := by
    intro s own out k hk
    rw [owed_owe, if_neg hk]
  rintro vm fd hcall k hk
  rw [hafter k, h k]
  rcases hcall with ⟨bytes, w, rfl⟩ | ⟨text, accepted, rfl⟩
  · have hcases := s.handleWrite_cases vm fd bytes w
    unfold apply
    dsimp only
    generalize (s.handleWrite vm fd bytes w).2 = s' at hcases ⊢
    cases hcases with
    | none => rfl
    | transport t b ht => exact howe _ _ _ _ hk
    | direct st b hb hfd ht hst hw => exact howe _ _ _ _ hk
    | fill st b ht hnone hst => exact howe _ _ _ _ hk
  · unfold apply handleFormatAndWrite
    dsimp only
    split
    · rfl
    · split
      · rfl
      · split <;> exact howe _ _ _ _ hk

end Steps

/-! ## Every run -/

theorem init_exact (cfg : StdioConfig) : (init cfg).Exact := by
  intro k
  cases k <;> rfl

/-- Along a run every sink gets exactly its own bytes in order, and a call reaches no other sink,
exactly if formatted output finds its own stream with nothing held back. -/
theorem run_exact_iff (cfg : StdioConfig) (es : List ConsoleEvent) :
    Meets step (fun s e => (s.apply e).Exact ∧ s.Contained e) (init cfg) es ↔
      Meets step ConsoleOk (init cfg) es := by
  constructor
  · refine Meets.of_invariant (fun s e s' (h : Exact s) hp hs => ?_)
      (fun s e h hp => (apply_exact_iff h e).mp hp.1) (init_exact cfg)
    cases hs
    exact hp.1
  · refine Meets.of_invariant (fun s e s' (h : Exact s) hok hs => ?_) (fun s e h hok => ?_)
      (init_exact cfg)
    · cases hs
      exact (apply_exact_iff h e).mpr hok
    · have hafter := (apply_exact_iff h e).mpr hok
      exact ⟨hafter, contained_of_exact h hafter⟩

/-! ## Output that goes astray -/

/-- The host's own streams. -/
def defaultStdio : StdioConfig := ⟨some .stdout, some .stderr, none, none⟩

/-- A VM that is bound to a transport formats a byte: the host's stdout gets it. An unbound VM writes
a byte and formats another one: they arrive in the wrong order. -/
theorem format_strays :
    (((init defaultStdio).apply (.bind 1 (some 0))).apply (.format 1 1 (some [65]) 1)).received
        (.host .stdout) = [65] ∧
      ((((init defaultStdio).apply (.write 0 1 (some [65]) 1)).apply
        (.format 0 1 (some [66]) 1)).apply (.fflush 0 0 0)).received (.host .stdout) = [66, 65] ∧
      ¬ (((init defaultStdio).apply (.bind 1 (some 0))).apply (.format 1 1 (some [65]) 1)).Exact := by
  refine ⟨by decide, by decide, fun hexact => ?_⟩
  exact absurd (hexact (.transport 0)) (by decide)

end Console

end Microgarbage.Io
