import Microgarbage.Tui.Display
import Microgarbage.Tui.Input

/-!
# The terminal service

Every VM that calls `SYS_TUI_INIT` gets a session from the host's pool. The handlers reach the
session through `cur_session`, which looks for the VM in the pool anew at each access and falls back
to the first entry. What they send goes to the transport that is bound to the session's VM; where
there is none, or it lacks the function, to the host's own output.
-/

namespace Microgarbage.Tui

open Lib

/-! ## Terminals -/

/-- A transport that the host has set up. -/
abbrev TransportId := Nat

/-- The functions that a transport may have. -/
inductive TermOp
  | write
  | readNonblock
  | setRaw
  deriving DecidableEq

/-- Where a call ends up: at a transport, the output hook, or the process's own terminal. -/
inductive Port
  | transport (t : TransportId)
  | outFn
  | console
  deriving DecidableEq

inductive TermCall
  | write (bytes : List Byte)
  | read
  | setRaw (enable : Bool)
  deriving DecidableEq

def TermCall.op : TermCall → TermOp
  | .write _ => .write
  | .read => .readNonblock
  | .setRaw _ => .setRaw

/-- A pool of `n + 1` sessions and the host around it. A host without a pool has the one fallback
session. -/
structure TuiHost (n : Nat) where
  pool : Fin (n + 1) → VmTuiSession
  tiles : Tiles
  transportByVm : VmId → Option TransportId
  defaultTransport : Option TransportId
  offers : TransportId → TermOp → Bool
  /-- Whether an output hook is set. -/
  outFn : Bool
  /-- Whether the stdio bridge, whose unload hook unbinds the transport, was installed first. -/
  stdioFirst : Bool

namespace TuiHost

variable {n : Nat} (h : TuiHost n) (vm : VmId)

/-! ## The current session -/

def sessionFind : Option (Fin (n + 1)) :=
  (List.finRange (n + 1)).find? fun i => (h.pool i).ownerVm = some vm

/-- The entry for the VM and the pool in which it has been reset, unless the VM had it before. -/
def sessionAlloc : Option (Fin (n + 1) × TuiHost n) :=
  match h.sessionFind vm with
  | some i => some (i, h)
  | none =>
    ((List.finRange (n + 1)).find? fun i => (h.pool i).ownerVm = none).map fun i =>
      (i, { h with pool := Function.update h.pool i .reset })

/-- `cur_session`, as an index. -/
def curIndex : Fin (n + 1) := (h.sessionFind vm).getD 0

def curSession : VmTuiSession := h.pool (h.curIndex vm)

/-- Assignments through the shims. -/
def setCur (f : VmTuiSession → VmTuiSession) : TuiHost n :=
  { h with pool := Function.update h.pool (h.curIndex vm) (f (h.curSession vm)) }

/-- `vm_host_get_transport_for_vm`. -/
def transportForVm : Option TransportId :=
  match h.transportByVm vm with
  | some t => some t
  | none => h.defaultTransport

def resolveTransport : Option TransportId :=
  match (h.curSession vm).ownerVm with
  | some w => h.transportForVm w
  | none => h.defaultTransport

/-- Where a call goes when the transport is `t`: `hwrite`, and the fallbacks of `set_raw` and of
the read to the stdio bridge, which prefers the default transport. -/
def port (t : Option TransportId) (op : TermOp) : Port :=
  match t.filter (h.offers · op) with
  | some t => .transport t
  | none =>
    match op with
    | .write => if h.outFn then .outFn else .console
    | op =>
      match h.defaultTransport.filter (h.offers · op) with
      | some d => .transport d
      | none => .console

/-- A call to the terminal of the current session. -/
def emit (c : TermCall) : Port × TermCall := (h.port (h.resolveTransport vm) c.op, c)

/-! ## Lifecycle -/

/-- What a call returns in `a0` and in the caller's record, what it sends and the host after it. -/
structure Result (n : Nat) where
  ret : BitVec 32
  record : Option VmTuiEventRecord
  sent : List (Port × TermCall)
  host : TuiHost n

/-- `rawOk` is whether the terminal could be put into raw mode. -/
def doInit (rows cols : Int) (flags : BitVec 32) (rawOk : Bool) : Result n :=
  match h.sessionAlloc vm with
  | none => ⟨-vmEbusy, none, [], h⟩
  | some (i, h) =>
    let h := { h with pool := Function.update h.pool i { h.pool i with ownerVm := some vm } }
    let h := h.setCur vm fun s => initSession s vm rows cols flags
    let writes := (setupWrites flags).map fun bytes => h.emit vm (.write bytes)
    let raw := if useRaw flags then [h.emit vm (.setRaw true)] else []
    ⟨0, none, writes ++ raw, h.setCur vm fun s => { s with rawModeWeSet := useRaw flags && rawOk }⟩

def doShutdown : List (Port × TermCall) × TuiHost n :=
  let s := h.curSession vm
  if s.initialized = false then ([], h)
  else
    let writes := (restoreWrites s.flags).map fun bytes => h.emit vm (.write bytes)
    let raw := if s.rawModeWeSet then [h.emit vm (.setRaw false)] else []
    let h := h.setCur vm fun s => { s with rawModeWeSet := false, initialized := false }
    let h := h.setCur vm fun s => { s with ownerVm := none }
    -- The owner is gone, so the flags are those of whatever session is current now.
    let h := h.setCur vm fun s => { s with flags := 0 }
    (writes ++ raw, h)

/-- `vm_host_tui_release_for_vm`. -/
def release : List (Port × TermCall) × TuiHost n :=
  let h := { h with tiles := tileReleaseForVm h.tiles vm }
  if (h.sessionFind vm).isSome ∧ (h.curSession vm).ownerVm = some vm then h.doShutdown vm
  else ([], h)

/-- `stdio_transport_unload_hook`. -/
def unbind : TuiHost n := { h with transportByVm := Function.update h.transportByVm vm none }

/-- The unload hooks of the stdio bridge and of the service, in the order of their installation. -/
def unload : List (Port × TermCall) × TuiHost n :=
  if h.stdioFirst then (h.unbind vm).release vm
  else
    let (sent, h) := h.release vm
    (sent, h.unbind vm)

/-- `tui_atexit_shutdown_all`. -/
def atexitShutdownAll : List (Port × TermCall) × TuiHost n :=
  (List.finRange (n + 1)).foldl (fun (sent, h) i =>
    match (h.pool i).ownerVm with
    | some w =>
      let (more, h) := h.doShutdown w
      (sent ++ more, h)
    | none => (sent, h)) ([], h)

end TuiHost

/-! ## Handlers -/

def vmEfault : BitVec 32 := 14

inductive TuiCall
  | init (rows cols flags : BitVec 32) (rawOk : Bool)
  | shutdown
  | getDims
  | present
  | presentDiff
  /-- With the bytes that the terminal has, and whether the record can be written. -/
  | pollEvent (input : List Byte) (mapped : Bool)
  /-- With the bytes of the buffer, and whether it can be read. -/
  | flushDraw (buf : List Byte) (mapped : Bool)
  | tile (call : TileCall)

namespace TuiHost

variable {n : Nat} (h : TuiHost n) (vm : VmId)

/-- The bytes of a frame, which are written in pieces of at most `OUT_BUF_CAP`, and the session. -/
def handlePresent (p : VmTuiSession → List Byte × VmTuiSession) : Result n :=
  if (h.curSession vm).ownerVm ≠ some vm then ⟨-vmEbusy, none, [], h⟩
  else
    let r := p (h.curSession vm)
    ⟨0, none, [h.emit vm (.write r.1)], h.setCur vm fun _ => r.2⟩

/-- What a poll returns in `a0` and in the record. -/
def pollReturn (mapped : Bool) : Option InEvent → BitVec 32 × Option VmTuiEventRecord
  | none => (0, none)
  | some ev => if mapped then (1, some (marshalEvent ev)) else (-vmEfault, none)

def handlePollEvent (input : List Byte) (mapped : Bool) : Result n :=
  if (h.curSession vm).ownerVm ≠ some vm then ⟨0, none, [], h⟩
  else
    let p := (h.curSession vm).input
    let reads := if p.avail = 0 then [] else [h.emit vm .read]
    let r := pollInput p input
    let (ret, record) := pollReturn mapped r.1
    ⟨ret, record, reads, h.setCur vm fun s => { s with input := r.2 }⟩

def handleFlushDraw (buf : List Byte) (mapped : Bool) : Result n :=
  if (h.curSession vm).ownerVm ≠ some vm then ⟨-vmEbusy, none, [], h⟩
  else if mapped = false ∧ buf.length ≠ 0 ∧ buf.length ≤ vmTuiMaxFlushBytes then ⟨-vmEfault, none, [], h⟩
  else
    let r := flushDraw (h.curSession vm) buf
    ⟨if r.1 < 0 then BitVec.ofInt 32 r.1 else 0, none, [], h.setCur vm fun _ => r.2⟩

/-- A `SYS_TUI_*` call of `vm`. -/
def call : TuiCall → Result n
  | .init rows cols flags rawOk => h.doInit vm rows.toInt cols.toInt flags rawOk
  | .shutdown =>
    -- Only the owner can shut down; others succeed without effect.
    if (h.curSession vm).ownerVm = some vm then ⟨0, none, (h.doShutdown vm).1, (h.doShutdown vm).2⟩
    else ⟨0, none, [], h⟩
  | .getDims =>
    let s := h.curSession vm
    ⟨if s.initialized then BitVec.ofInt 32 s.rows <<< 16 ||| BitVec.ofInt 32 s.cols else 0, none, [],
      h⟩
  | .present => h.handlePresent vm doPresent
  | .presentDiff => h.handlePresent vm doPresentDiff
  | .pollEvent input mapped => h.handlePollEvent vm input mapped
  | .flushDraw buf mapped => h.handleFlushDraw vm buf mapped
  | .tile call =>
    let r := tileCall h.tiles vm (h.curSession vm) call
    ⟨r.1, none, [], { h.setCur vm fun _ => r.2.2 with tiles := r.2.1 }⟩

end TuiHost

/-! ## Runs -/

inductive TuiEvent
  | call (vm : VmId) (c : TuiCall)
  | unload (vm : VmId)
  /-- The host binds a transport to a VM, or a child gets its parent's. -/
  | setTransport (vm : VmId) (t : Option TransportId)
  | exit

namespace TuiHost

variable {n : Nat} (h : TuiHost n)

def event : TuiEvent → List (Port × TermCall) × TuiHost n
  | .call vm c => ((h.call vm c).sent, (h.call vm c).host)
  | .unload vm => h.unload vm
  | .setTransport vm t => ([], { h with transportByVm := Function.update h.transportByVm vm t })
  | .exit => h.atexitShutdownAll

def step (e : TuiEvent) : Option (TuiHost n) := some (h.event e).2

/-- The host before any call, with no session open. -/
def booted : TuiHost n := { h with pool := fun _ => .reset }

end TuiHost

end Microgarbage.Tui
