import Microgarbage.Containers.RingBuffer
import Microgarbage.Sched.Step

/-!
# Mailboxes and the messaging ecalls

A mailbox is a FIFO of slots, each a two-byte sender id followed by the payload. `SYS_SEND` copies
the payload straight into the buffer of a receiver that is blocked in `SYS_RECV`, and queues it
otherwise. This is the cooperative build.
-/

namespace Microgarbage.Mailbox

open Lib Vm Containers Sched

inductive VmMailboxResult where
  | ok
  | errInvalidArg
  | errNotWhitelisted
  | errFull
  | errEmpty
  | errBadVmId
  deriving DecidableEq

structure VmMailbox where
  sendsAccepted : Word
  sendsRejectedFull : Word
  sendsRejectedPerm : Word
  recvs : Word
  slotSize : BitVec 16
  depth : BitVec 16
  whitelist : BitVec 64
  fifo : RingBuffer

def vmMailboxMaxSlotSize : Nat := 4096
def vmMailboxSlotOverhead : Nat := 2

/-- `none` for an invalid argument. -/
def vmMailboxInit (storage : Mem) (slotSize depth : BitVec 16) : Option VmMailbox :=
  if slotSize = 0 ∨ vmMailboxMaxSlotSize < slotSize.toNat ∨ depth = 0 then none
  else some
    { sendsAccepted := 0
      sendsRejectedFull := 0
      sendsRejectedPerm := 0
      recvs := 0
      slotSize := slotSize
      depth := depth
      whitelist := 0#64
      fifo := rbInit storage depth.toNat (slotSize.toNat + vmMailboxSlotOverhead) }

/-! ## Whitelist -/

def whitelistIdValid (vmId : BitVec 16) : Bool := vmId.toNat < 64

def whitelistBit (vmId : BitVec 16) : BitVec 64 := 1#64 <<< vmId.toNat

variable (m : VmMailbox)

def vmMailboxWhitelistSet (sender : BitVec 16) : VmMailboxResult × VmMailbox :=
  if whitelistIdValid sender then
    (.ok, { m with whitelist := m.whitelist ||| whitelistBit sender })
  else
    (.errBadVmId, m)

def vmMailboxWhitelistClear (sender : BitVec 16) : VmMailboxResult × VmMailbox :=
  if whitelistIdValid sender then
    (.ok, { m with whitelist := m.whitelist &&& ~~~whitelistBit sender })
  else
    (.errBadVmId, m)

def vmMailboxWhitelistCheck (sender : BitVec 16) : Bool :=
  whitelistIdValid sender && m.whitelist &&& whitelistBit sender != 0#64

/-! ## Send and receive -/

/-- A slot: the sender id, least significant byte first, then the payload. -/
def composeSlot (sender : BitVec 16) (payload : List Byte) : List Byte :=
  [byteOf sender 0, byteOf sender 1] ++ payload

def slotSender (scratch : List Byte) : BitVec 16 := scratch.getD 1 0 ++ scratch.getD 0 0

def slotPayload (scratch : List Byte) : List Byte := scratch.drop vmMailboxSlotOverhead

def vmMailboxSend (sender : BitVec 16) (payload : List Byte) : VmMailboxResult × VmMailbox :=
  if payload.length ≠ m.slotSize.toNat then (.errInvalidArg, m)
  else if !whitelistIdValid sender then (.errBadVmId, m)
  else if m.whitelist &&& whitelistBit sender = 0#64 then
    (.errNotWhitelisted, { m with sendsRejectedPerm := m.sendsRejectedPerm + 1 })
  else
    match fifoPush m.fifo (composeSlot sender payload) with
    | (false, _) => (.errFull, { m with sendsRejectedFull := m.sendsRejectedFull + 1 })
    | (true, fifo) => (.ok, { m with fifo := fifo, sendsAccepted := m.sendsAccepted + 1 })

/-- The payload and its sender; `none` when the mailbox is empty. -/
def vmMailboxRecv : Option (List Byte × BitVec 16 × VmMailbox) :=
  match fifoPop m.fifo with
  | none => none
  | some (scratch, fifo) =>
    some ((slotPayload scratch).take m.slotSize.toNat, slotSender scratch,
      { m with fifo := fifo, recvs := m.recvs + 1 })

/-! ## The system's part of the state -/

structure VmSystem where
  vms : Slot → Option Ptr
  mailboxes : Slot → VmMailbox

namespace VmSystem

def setMailbox (sys : VmSystem) (id : Slot) (m : VmMailbox) : VmSystem :=
  { sys with mailboxes := Function.update sys.mailboxes id m }

/-- The mailbox of a loaded VM. -/
def getMailbox (sys : VmSystem) (vmId : Nat) : Option (Slot × VmMailbox) :=
  if h : vmId < 64 then
    match sys.vms ⟨vmId, h⟩ with
    | none => none
    | some _ => some (⟨vmId, h⟩, sys.mailboxes ⟨vmId, h⟩)
  else
    none

end VmSystem

/-! ## Handlers -/

abbrev SysHandler := Handler VmSystem

def sysSend : Word := 1072
def sysRecv : Word := 1073
def sysMailboxInfo : Word := 1074
def sysWhitelistAdd : Word := 1075
def sysWhitelistRemove : Word := 1076

/-- Fail with an errno and do nothing else. -/
def refuse (p : Ptr) (e : Nat) : List (Act VmSystem) := [.cpu p (ret (errno e))]

/-- Fail after a rejected address; the trap cause of the translation is cleared again. -/
def refuseFault (p : Ptr) (faulted : VmCpu) : List (Act VmSystem) :=
  [.cpu p fun _ => ret (errno vmEfault) { faulted with trapCause := .none }]

/-- `a0` of a queued send. -/
def sendStatus : VmMailboxResult → Word
  | .ok => 0
  | .errNotWhitelisted => errno vmEperm
  | .errBadVmId => errno vmEperm
  | .errFull => errno vmEagain
  | .errInvalidArg => errno vmEinval
  | .errEmpty => errno vmEinval

/-- The destination address that a blocked receiver saved. -/
def savedDest (cpu : VmCpu) : Word := cpu.internal 0

def clearInternal0 (cpu : VmCpu) : VmCpu :=
  { cpu with internal := Function.update cpu.internal 0 0 }

/-- The synchronous-delivery path: copy, wake with the sender id in `a0`, count. -/
def deliver (p : Ptr) (w : World VmSystem) (id : Slot) (target : Ptr) (targetHost : Nat)
    (payload : List Byte) : List (Act VmSystem) :=
  [.mem (·.copy targetHost payload),
    .cpu target ({ · with trapCause := .none }),
    .call (.wakeMailbox id ((w.cpus p).vmId.setWidth 32)),
    .cpu target clearInternal0,
    .cpu p (ret 0),
    .host fun sys => sys.setMailbox id { sys.mailboxes id with
      sendsAccepted := (sys.mailboxes id).sendsAccepted + 1 }]

/-- The normal path: queue the message. -/
def enqueue (p : Ptr) (w : World VmSystem) (id : Slot) (payload : List Byte) :
    List (Act VmSystem) :=
  let (r, mbox) := vmMailboxSend (w.host.mailboxes id) (w.cpus p).vmId payload
  [.host (·.setMailbox id mbox), .cpu p (ret (sendStatus r))]

/-- `handle_send` after its checks. -/
def sendTo (p : Ptr) (w : World VmSystem) (id : Slot) (target : Ptr) (payload : List Byte) :
    List (Act VmSystem) :=
  let targetCpu := w.cpus target
  if targetCpu.blockReason = .mailboxRecv then
    match vmTranslateWrite targetCpu (targetCpu.internal 0) (BitVec.ofNat 32 payload.length) with
    | .ok targetHost => deliver p w id target targetHost payload
    | .error faulted => .cpu target (fun _ => faulted) :: enqueue p w id payload
  else
    enqueue p w id payload

def handleSend : SysHandler := fun p w =>
  let cpu := w.cpus p
  let guestPayload := cpu.regs regA1
  let payloadSize := cpu.regs regA2
  if h : (cpu.regs regA0).toNat < 64 then
    let id : Slot := ⟨(cpu.regs regA0).toNat, h⟩
    match w.host.vms id with
    | none => refuse p vmEnoent
    | some target =>
      let mbox := w.host.mailboxes id
      if payloadSize ≠ mbox.slotSize.setWidth 32 then refuse p vmEinval
      else
        match vmTranslateRead cpu guestPayload payloadSize with
        | .error faulted => refuseFault p faulted
        | .ok hostPayload =>
          if !vmMailboxWhitelistCheck mbox cpu.vmId then refuse p vmEperm
          else sendTo p w id target (w.mem.bytes hostPayload payloadSize.toNat)
  else
    refuse p vmEnoent

/-- `handle_recv` on an empty mailbox with a timeout: save the destination and block. -/
def awaitMessage (dest timeout now : Word) (cpu : VmCpu) : VmCpu :=
  { cpu with
    internal := Function.update cpu.internal 0 dest
    blockReason := .mailboxRecv
    blockDeadline := if timeout = 0xFFFFFFFF then 0 else now + timeout }

def handleRecv : SysHandler := fun p w =>
  let cpu := w.cpus p
  let guestDest := cpu.regs regA0
  let timeout := cpu.regs regA1
  match w.host.getMailbox cpu.vmId.toNat with
  | none => refuse p vmEinval
  | some (id, mbox) =>
    match vmTranslateWrite cpu guestDest (mbox.slotSize.setWidth 32) with
    | .error faulted => refuseFault p faulted
    | .ok hostDest =>
      match vmMailboxRecv mbox with
      | some (payload, sender, mbox) =>
        [.host (·.setMailbox id mbox), .mem (·.copy hostDest payload),
          .cpu p (ret (sender.setWidth 32))]
      | none =>
        if timeout = 0 then refuse p vmEagain
        else if cpu.inCritical then refuse p vmEbusy
        else [.cpu p (awaitMessage guestDest timeout w.sched.globalTick)]

def handleMailboxInfo : SysHandler := fun p w =>
  let cpu := w.cpus p
  match w.host.getMailbox (cpu.regs regA0).toNat with
  | none => refuse p vmEnoent
  | some (_, mbox) =>
    if !vmMailboxWhitelistCheck mbox cpu.vmId then refuse p vmEperm
    else [.cpu p fun cpu => (ret (mbox.slotSize.setWidth 32) cpu).setReg regA1
      (BitVec.ofNat 32 (mbox.depth.toNat - mbox.fifo.count))]

/-- Both whitelist calls edit the caller's own mailbox. -/
def handleWhitelist (edit : VmMailbox → BitVec 16 → VmMailboxResult × VmMailbox) : SysHandler :=
  fun p w =>
    let cpu := w.cpus p
    match w.host.getMailbox cpu.vmId.toNat with
    | none => refuse p vmEinval
    | some (id, mbox) =>
      let peer := (cpu.regs regA0).setWidth 16
      [.host fun sys => sys.setMailbox id (edit (sys.mailboxes id) peer).2,
        .cpu p (ret (if (edit mbox peer).1 = .ok then 0 else errno vmEnoent))]

def handleWhitelistAdd : SysHandler := handleWhitelist vmMailboxWhitelistSet

def handleWhitelistRemove : SysHandler := handleWhitelist vmMailboxWhitelistClear

def sysTicksNow : Word := 1043
def sysSleepTicks : Word := 1045
def sysSleepUntil : Word := 1046
def sysSetReloadPeriod : Word := 1047
def sysYieldUntilReload : Word := 1048

/-- The table of `vm_system_init`, less the allocator and the statistics calls. -/
def systemHandlers : List (Word × SysHandler) :=
  [(sysSend, handleSend), (sysRecv, handleRecv), (sysMailboxInfo, handleMailboxInfo),
    (sysWhitelistAdd, handleWhitelistAdd), (sysWhitelistRemove, handleWhitelistRemove),
    (sysTicksNow, handleTicksNow), (sysSleepTicks, handleSleepTicks),
    (sysSleepUntil, handleSleepUntil), (sysSetReloadPeriod, handleSetReloadPeriod),
    (sysYieldUntilReload, handleYieldUntilReload)]

/-- Register every handler of a table, or none. -/
def installHandlers (r : VmEcallRouter VmSystem) (table : List (Word × SysHandler)) :
    Option (VmEcallRouter VmSystem) :=
  table.foldlM (fun r (num, handler) => VmEcallRouter.register r num handler) r

def systemRouter : VmEcallRouter VmSystem :=
  (installHandlers .init (cpuHandlers ++ systemHandlers)).getD .init

end Microgarbage.Mailbox
