import Microgarbage.Print.Printf

/-!
# The calls of the formatter

`SYS_FORMAT_AND_WRITE` and `SYS_FORMAT_TO_BUF`. The format and the arguments are copied first; the
text goes to a descriptor of the host, or into the guest's buffer as far as it has room.
-/

namespace Microgarbage.Print

open Lib Vm List

def vmEfault : Nat := 14

def vmEbadf : Nat := 9

def vmEio : Nat := 5

def vmFormatMaxFmtLen : Nat := 1024

def vmFormatMaxArgs : Nat := 16

def regA3 : Reg := 13

def regA4 : Reg := 14

/-- `(uint32_t)-errno` -/
def errno (e : Nat) : Word := -BitVec.ofNat 32 e

/-- The byte at an address of the guest. The trap that a bad address leaves in the CPU is not part of
it. -/
def guestByte (cpu : VmCpu) (mem : Mem) (addr : Word) : Option Byte :=
  match vmTranslateRead cpu addr 1 with
  | .ok a => some (mem a)
  | .error _ => none

/-- The loop of `copy_guest_string`: `left` bytes of the buffer, the next one is read at `i`. -/
def copyGuestString (read : Word → Option Byte) (ptr : Word) : Nat → Nat → Option (List Byte)
  | 0, _ => none
  | left + 1, i =>
    if left = 0 then none
    else
      match read (ptr + BitVec.ofNat 32 i) with
      | none => none
      | some b => if b = 0 then some [] else (copyGuestString read ptr left (i + 1)).map (b :: ·)

/-- A string of the guest: its characters, and a zero behind them. -/
def Spells (read : Word → Option Byte) : Word → List Byte → Prop
  | p, [] => read p = some 0
  | p, b :: bs => b ≠ 0 ∧ read p = some b ∧ Spells read (p + 1) bs

/-- A string is copied where it and its end have room. -/
theorem copyGuestString_eq_some {read : Word → Option Byte} {ptr : Word} {left i : Nat}
    {bs : List Byte} : copyGuestString read ptr left i = some bs ↔
      Spells read (ptr + BitVec.ofNat 32 i) bs ∧ bs.length + 2 ≤ left := by
  induction left generalizing i bs with
  | zero => simp [copyGuestString]
  | succ left ih =>
    have hnext : ptr + BitVec.ofNat 32 (i + 1) = ptr + BitVec.ofNat 32 i + 1 := by
      rw [BitVec.ofNat_add, BitVec.add_assoc]
      rfl
    rw [copyGuestString]
    split
    · exact iff_of_false (by simp) (by omega)
    · cases hread : read (ptr + BitVec.ofNat 32 i) with
      | none => cases bs <;> simp [Spells, hread]
      | some b =>
        dsimp only
        split
        · cases bs <;> simp [Spells, hread] <;> grind
        · rename_i hb
          cases bs with
          | nil => exact iff_of_false (by simp) fun h => hb (Option.some.inj (hread.symm.trans h.1))
          | cons c bs =>
            simp only [Option.map_eq_some_iff, List.cons.injEq, ih, hnext, Spells, hread,
              Option.some.injEq, length_cons]
            grind

/-- The words at an address of the host. -/
def wordsAt (mem : Mem) (p n : Nat) : List Word := (List.range n).map fun i => mem.load32 (p + 4 * i)

/-- `copy_guest_args`: in one piece, or word by word. -/
def copyGuestArgs (cpu : VmCpu) (mem : Mem) (ptr argc : Word) : Option (List Word) :=
  if vmFormatMaxArgs < argc.toNat then none
  else if argc = 0 then some []
  else if ptr = 0 then none
  else
    match vmTranslateRead cpu ptr (argc * 4) with
    | .ok p => some (wordsAt mem p argc.toNat)
    | .error _ =>
      (List.range argc.toNat).mapM fun i =>
        match vmTranslateRead cpu (ptr + BitVec.ofNat 32 i * 4) 4 with
        | .ok p => some (mem.load32 p)
        | .error _ => none

/-! ## To a descriptor -/

/-- The loop of `fd_emit`; `write` says how many bytes the host takes, none where it fails. -/
def fdEmit (write : List Byte → List Byte → Nat) : Nat → List Byte → List Byte → Bool × List Byte
  | 0, out, bytes => (bytes.isEmpty, out)
  | rounds + 1, out, bytes =>
    if bytes = [] then (true, out)
    else if write out bytes = 0 then (false, out)
    else fdEmit write rounds (out ++ bytes.take (write out bytes)) (bytes.drop (write out bytes))

/-- What has been written, and the guest's memory for the strings. -/
def fdSink (write : List Byte → List Byte → Nat) (cpu : VmCpu) (mem : Mem) : Sink (List Byte) where
  emit out bytes := fdEmit write bytes.length out bytes
  read _ := guestByte cpu mem

/-- `handle_format_and_write`: the value of `a0`, and what has been written to the descriptor. -/
def handleFormatAndWrite (write : List Byte → List Byte → Nat) (cpu : VmCpu) (mem : Mem)
    (out : List Byte) : Word × List Byte :=
  let fd := cpu.regs regA0
  if fd ≠ 1 ∧ fd ≠ 2 then (errno vmEbadf, out)
  else
    match copyGuestString (guestByte cpu mem) (cpu.regs regA1) vmFormatMaxFmtLen 0 with
    | none => (errno vmEfault, out)
    | some fmt =>
      match copyGuestArgs cpu mem (cpu.regs regA2) (cpu.regs regA3) with
      | none => (errno vmEfault, out)
      | some args =>
        let s := (formatVa (fdSink write cpu mem) fmt args ⟨out, 0, false⟩).1
        (if s.failed then errno vmEio else BitVec.ofNat 32 s.emitted, s.ctx)

/-! ## To a buffer -/

structure BufSinkCtx where
  mem : Mem
  pos : Nat

/-- The buffer at `buf` with room for `cap` bytes; strings are read out of the memory as it is. -/
def bufSink (cpu : VmCpu) (buf cap : Nat) : Sink BufSinkCtx where
  emit c bytes :=
    if c.pos < cap then
      let writeN := min bytes.length (cap - c.pos)
      (true, ⟨c.mem.copy (buf + c.pos) (bytes.take writeN), c.pos + writeN⟩)
    else (true, c)
  read c := guestByte cpu c.mem

/-- The most that is used of a buffer. -/
def formatCap : Nat := 65536

/-- `handle_format_to_buf`: the value of `a0`, and the memory. -/
def handleFormatToBuf (cpu : VmCpu) (mem : Mem) : Word × Mem :=
  let bufPtr := cpu.regs regA0
  let cap := cpu.regs regA1
  match copyGuestString (guestByte cpu mem) (cpu.regs regA2) vmFormatMaxFmtLen 0 with
  | none => (errno vmEfault, mem)
  | some fmt =>
    match copyGuestArgs cpu mem (cpu.regs regA3) (cpu.regs regA4) with
    | none => (errno vmEfault, mem)
    | some args =>
      if cap ≠ 0 ∧ bufPtr ≠ 0 then
        let want := min cap.toNat formatCap
        match vmTranslateWrite cpu bufPtr (BitVec.ofNat 32 want) with
        | .error _ => (errno vmEfault, mem)
        | .ok buf =>
          let s := (formatVa (bufSink cpu buf (want - 1)) fmt args ⟨⟨mem, 0⟩, 0, false⟩).1
          (BitVec.ofNat 32 s.emitted, s.ctx.mem.copy (buf + min s.ctx.pos (want - 1)) [0])
      else
        let s := (formatVa (bufSink cpu 0 0) fmt args ⟨⟨mem, 0⟩, 0, false⟩).1
        (BitVec.ofNat 32 s.emitted, s.ctx.mem)

theorem fmtEmit_ok {σ : Type} {k : Sink σ} {s : FmtSink σ} {bs : List Byte} {c : σ}
    (hok : s.failed = false) (hbs : bs ≠ []) (h : k.emit s.ctx bs = (true, c)) :
    fmtEmit k s bs = ⟨c, s.emitted + bs.length, false⟩ := by
  unfold fmtEmit
  rw [if_neg (by rw [hok]; exact Bool.false_ne_true), if_neg hbs, h, hok]
  rfl

theorem fmtEmit_fail {σ : Type} {k : Sink σ} {s : FmtSink σ} {bs : List Byte} {c : σ}
    (hok : s.failed = false) (hbs : bs ≠ []) (h : k.emit s.ctx bs = (false, c)) :
    fmtEmit k s bs = ⟨c, s.emitted, true⟩ := by
  unfold fmtEmit
  rw [if_neg (by rw [hok]; exact Bool.false_ne_true), if_neg hbs, h]
  rfl

theorem fmtEmit_nil {σ : Type} {k : Sink σ} (s : FmtSink σ) : fmtEmit k s [] = s := by
  unfold fmtEmit
  rw [if_pos rfl, ite_self]

/-! ## The buffer -/

section Buffer

variable {cpu : VmCpu} {mem : Mem} {buf cap : Nat}

theorem copy_nil (m : Mem) (p : Nat) : m.copy p [] = m := Mem.overlay_zero m p _

theorem copy_append (m : Mem) (p : Nat) (xs ys : List Byte) :
    (m.copy p xs).copy (p + xs.length) ys = m.copy p (xs ++ ys) := by
  funext a
  unfold Mem.copy
  rw [length_append]
  by_cases hlow : p ≤ a ∧ a < p + xs.length
  · rw [Mem.overlay_out (by omega), Mem.overlay_in hlow.1 hlow.2,
      Mem.overlay_in hlow.1 (by omega), getD_eq_getElem?_getD, getD_eq_getElem?_getD,
      List.getElem?_append_left (by omega)]
  · by_cases hhigh : p + xs.length ≤ a ∧ a < p + xs.length + ys.length
    · rw [Mem.overlay_in hhigh.1 hhigh.2, Mem.overlay_in (by omega) (by omega),
        getD_eq_getElem?_getD, getD_eq_getElem?_getD,
        List.getElem?_append_right (by omega), Nat.sub_sub]
    · rw [Mem.overlay_out (by omega), Mem.overlay_out (by omega), Mem.overlay_out (by omega)]

/-- The sink has taken a text: as much of it as has room is in the buffer, all of it is counted. -/
structure Buffered (mem : Mem) (buf cap : Nat) (t : List Byte) (s : FmtSink BufSinkCtx) : Prop where
  failed : s.failed = false
  emitted : s.emitted = t.length
  mem : s.ctx.mem = mem.copy buf (t.take cap)
  pos : s.ctx.pos = min t.length cap

/-- An address of the guest whose byte is not in the buffer. -/
def OutsideBuf (cpu : VmCpu) (buf n : Nat) (addr : Word) : Prop :=
  ∀ a, vmTranslateRead cpu addr 1 = .ok a → a < buf ∨ buf + n ≤ a

theorem Buffered.emit {t : List Byte} {s : FmtSink BufSinkCtx} (h : Buffered mem buf cap t s)
    (bs : List Byte) : Buffered mem buf cap (t ++ bs) (fmtEmit (bufSink cpu buf cap) s bs) := by
  by_cases hempty : bs = []
  · rw [hempty, append_nil, fmtEmit_nil]
    exact h
  · by_cases hroom : s.ctx.pos < cap
    · have hpos : s.ctx.pos = t.length := by
        have := h.pos
        omega
      have hfit : t.take cap = t := take_of_length_le (by omega)
      have htake : bs.take (min bs.length (cap - t.length)) = bs.take (cap - t.length) := by
        rw [Nat.min_comm, ← take_take, take_length]
      rw [fmtEmit_ok h.failed hempty (if_pos hroom)]
      refine ⟨rfl, ?_, ?_, ?_⟩
      · rw [length_append, ← h.emitted]
      · rw [h.mem, hpos, htake, hfit, copy_append, take_append, hfit]
      · change s.ctx.pos + min bs.length (cap - s.ctx.pos) = _
        rw [length_append]
        omega
    · have hfull : cap ≤ t.length := by
        have := h.pos
        omega
      rw [fmtEmit_ok h.failed hempty (if_neg hroom)]
      refine ⟨rfl, ?_, ?_, ?_⟩
      · rw [length_append, ← h.emitted]
      · rw [take_append_of_le_length hfull]
        exact h.mem
      · rw [h.pos, length_append]
        omega

theorem bufSink_follows :
    Follows (bufSink cpu buf cap) (guestByte cpu mem) (OutsideBuf cpu buf (cap + 1))
      (Buffered mem buf cap) where
  emit bs h := h.emit bs
  read := by
    intro t s addr h hout
    change guestByte cpu s.ctx.mem addr = guestByte cpu mem addr
    unfold guestByte
    rw [h.mem]
    cases hx : vmTranslateRead cpu addr 1 with
    | error e => rfl
    | ok a =>
      have hlen : (t.take cap).length ≤ cap := length_take_le ..
      have hfar := hout a hx
      exact congrArg some (Mem.copy_out (by omega))

theorem bufSink_follows_count :
    Follows (bufSink cpu 0 0) (guestByte cpu mem) (fun _ => True) (Buffered mem 0 0) where
  emit bs h := h.emit bs
  read := by
    intro t s addr h _
    change guestByte cpu s.ctx.mem addr = guestByte cpu mem addr
    rw [h.mem, take_zero, copy_nil]

/-- Whatever the format, nothing is written outside the room. -/
structure InRoom (mem : Mem) (buf cap : Nat) (s : FmtSink BufSinkCtx) : Prop where
  pos : s.ctx.pos ≤ cap
  frame : ∀ a, s.ctx.mem a ≠ mem a → buf ≤ a ∧ a < buf + cap

theorem InRoom.emit {s : FmtSink BufSinkCtx} (h : InRoom mem buf cap s) (bs : List Byte) :
    InRoom mem buf cap (fmtEmit (bufSink cpu buf cap) s bs) := by
  by_cases hempty : bs = []
  · rw [hempty, fmtEmit_nil]
    exact h
  · cases hfailed : s.failed with
    | true =>
      unfold fmtEmit
      rwa [if_pos hfailed]
    | false =>
      by_cases hroom : s.ctx.pos < cap
      · have hlen : (bs.take (min bs.length (cap - s.ctx.pos))).length ≤ cap - s.ctx.pos := by
          rw [length_take]
          omega
        rw [fmtEmit_ok hfailed hempty (if_pos hroom)]
        refine ⟨?_, fun a ha => ?_⟩
        · change s.ctx.pos + min bs.length (cap - s.ctx.pos) ≤ cap
          omega
        · by_contra hout
          refine ha ((Mem.copy_out (by omega)).trans ?_)
          by_contra hne
          exact hout (h.frame a hne)
      · rw [fmtEmit_ok hfailed hempty (if_neg hroom)]
        exact ⟨h.pos, h.frame⟩

theorem Buffered.terminated {t : List Byte} {s : FmtSink BufSinkCtx} (h : Buffered mem buf cap t s) :
    (s.ctx.mem.copy (buf + min s.ctx.pos cap) [0]).bytes buf (min t.length cap + 1) =
      t.take cap ++ [0] := by
  have hlen : (t.take cap ++ [0]).length = min t.length cap + 1 := by
    rw [length_append, length_take, Nat.min_comm]
    rfl
  have hpos : min s.ctx.pos cap = (t.take cap).length := by
    rw [h.pos, length_take]
    omega
  rw [h.mem, hpos, copy_append, ← hlen, Mem.bytes_copy]

end Buffer

/-! ## The descriptor -/

theorem fdEmit_all {write : List Byte → List Byte → Nat} {rounds : Nat} {out out' bytes : List Byte}
    (h : fdEmit write rounds out bytes = (true, out')) : out' = out ++ bytes := by
  induction rounds generalizing out bytes with
  | zero =>
    obtain ⟨hempty, rfl⟩ := Prod.mk.inj h
    rw [isEmpty_iff.mp hempty, append_nil]
  | succ rounds ih =>
    rw [fdEmit] at h
    split at h
    · obtain ⟨-, rfl⟩ := Prod.mk.inj h
      next hempty => rw [hempty, append_nil]
    · split at h
      · cases h
      · rw [ih h, append_assoc, take_append_drop]

/-- Of some bytes the host has taken the first, and none of the rest when it was offered. -/
def Refused (write : List Byte → List Byte → Nat) (out bytes out' : List Byte) : Prop :=
  ∃ done rest, done ++ rest <+: bytes ∧ rest ≠ [] ∧ out' = out ++ done ∧ write out' rest = 0

theorem fdEmit_refused {write : List Byte → List Byte → Nat} {rounds : Nat}
    {out out' bytes : List Byte} (hrounds : bytes.length ≤ rounds)
    (h : fdEmit write rounds out bytes = (false, out')) : Refused write out bytes out' := by
  induction rounds generalizing out bytes with
  | zero =>
    rw [length_eq_zero_iff.mp (Nat.le_zero.mp hrounds)] at h
    cases h
  | succ rounds ih =>
    rw [fdEmit] at h
    split at h
    · cases h
    · rename_i hne
      split at h
      · rename_i hnone
        cases h
        exact ⟨[], bytes, prefix_refl _, hne, (append_nil _).symm, hnone⟩
      · obtain ⟨done, rest, ⟨more, hpre⟩, hrest, hout, hwrite⟩ :=
          ih (by rw [length_drop]; omega) h
        refine ⟨bytes.take (write out bytes) ++ done, rest, ⟨more, ?_⟩, hrest, ?_, hwrite⟩
        · rw [append_assoc, append_assoc, ← append_assoc done, hpre,
            take_append_drop]
        · rw [hout, append_assoc]

/-- The sink has written a text, or the host has refused some of it. -/
def Written (write : List Byte → List Byte → Nat) (out t : List Byte) (s : FmtSink (List Byte)) :
    Prop :=
  s.failed = true ∧ Refused write out t s.ctx ∨
    s.failed = false ∧ s.emitted = t.length ∧ s.ctx = out ++ t

theorem fdSink_follows (write : List Byte → List Byte → Nat) (cpu : VmCpu) (mem : Mem)
    (out : List Byte) :
    Follows (fdSink write cpu mem) (guestByte cpu mem) (fun _ => True) (Written write out) where
  emit := by
    intro t s bs h
    by_cases hempty : bs = []
    · rw [hempty, append_nil, fmtEmit_nil]
      exact h
    · rcases h with ⟨hfailed, done, rest, hpre, hrefused⟩ | ⟨hok, hemitted, hctx⟩
      · unfold fmtEmit
        rw [if_pos hfailed]
        exact .inl ⟨hfailed, done, rest, hpre.trans (prefix_append t bs), hrefused⟩
      · cases hemit : fdEmit write bs.length s.ctx bs with
        | mk taken ctx =>
          cases taken with
          | false =>
            obtain ⟨done, rest, hpre, hne, hout, hwrite⟩ := fdEmit_refused (Nat.le_refl _) hemit
            rw [fmtEmit_fail hok hempty hemit]
            refine .inl ⟨rfl, t ++ done, rest, ?_, hne, ?_, hwrite⟩
            · rw [append_assoc]
              exact (prefix_append_right_inj t).mpr hpre
            · rw [hout, hctx, append_assoc]
          | true =>
            rw [fmtEmit_ok hok hempty hemit]
            refine .inr ⟨rfl, ?_, ?_⟩
            · rw [length_append, ← hemitted]
            · rw [fdEmit_all hemit, hctx, append_assoc]
  read := fun _ _ => rfl

/-! ## The calls -/

/-- The format and the arguments of a call are copied. -/
structure Copied (cpu : VmCpu) (mem : Mem) (fmtPtr argsPtr argc : Word) (fmt : List Byte)
    (args : List Word) : Prop where
  fmt : copyGuestString (guestByte cpu mem) fmtPtr vmFormatMaxFmtLen 0 = some fmt
  args : copyGuestArgs cpu mem argsPtr argc = some args

/-- A call and the text that C gives it. -/
structure CallText (cpu : VmCpu) (mem : Mem) (fmtPtr argsPtr argc : Word) (ok : Word → Prop)
    (fmt : List Byte) (args : List Word) (text : List Byte) : Prop where
  copied : Copied cpu mem fmtPtr argsPtr argc fmt args
  printf : ∃ texts : List (List Byte), texts.flatten = text ∧
    List.Forall₂ (Printf (guestByte cpu mem) ok) (items fmt.length fmt args) texts

/-- How much of a buffer is used. -/
def bufSize (cpu : VmCpu) : Nat := min (cpu.regs regA1).toNat formatCap

/-- The buffer of a call is at `buf`. -/
structure BufAt (cpu : VmCpu) (buf : Nat) : Prop where
  size : cpu.regs regA1 ≠ 0
  ptr : cpu.regs regA0 ≠ 0
  mapped : vmTranslateWrite cpu (cpu.regs regA0) (BitVec.ofNat 32 (bufSize cpu)) = .ok buf

theorem formatVa_prints {σ : Type} {k : Sink σ} {R : List Byte → FmtSink σ → Prop}
    {read : Word → Option Byte} {ok : Word → Prop} (hF : Follows k read ok R) (fmt : List Byte)
    (args : List Word) {s : FmtSink σ} (hR : R [] s) :
    ∃ text, Printed read ok fmt args text ∧ R text (formatVa k fmt args s).1 := by
  obtain ⟨texts, htexts, hrun⟩ := formatLoop_prints hF hR
  exact ⟨texts.flatten, ⟨texts, rfl, htexts⟩, hrun⟩

section

variable {cpu : VmCpu} {mem : Mem} {fmt text : List Byte} {args : List Word} {buf : Nat}

theorem InRoom.run (cpu : VmCpu) (mem : Mem) (buf cap : Nat) (fmt : List Byte) (args : List Word) :
    InRoom mem buf cap (formatVa (bufSink cpu buf cap) fmt args ⟨⟨mem, 0⟩, 0, false⟩).1 :=
  formatLoop_keeps (fun _ bs h => h.emit bs) ⟨Nat.zero_le cap, fun _ ha => absurd rfl ha⟩

theorem handleFormatToBuf_eq
    (h : Copied cpu mem (cpu.regs regA2) (cpu.regs regA3) (cpu.regs regA4) fmt args)
    (hbuf : BufAt cpu buf) :
    handleFormatToBuf cpu mem =
      let s := (formatVa (bufSink cpu buf (bufSize cpu - 1)) fmt args ⟨⟨mem, 0⟩, 0, false⟩).1
      (BitVec.ofNat 32 s.emitted, s.ctx.mem.copy (buf + min s.ctx.pos (bufSize cpu - 1)) [0]) := by
  have hmapped := hbuf.mapped
  unfold bufSize at hmapped
  unfold handleFormatToBuf
  dsimp only
  rw [h.fmt, h.args]
  dsimp only
  rw [if_pos ⟨hbuf.size, hbuf.ptr⟩, hmapped]
  rfl

theorem handleFormatToBuf_count
    (h : Copied cpu mem (cpu.regs regA2) (cpu.regs regA3) (cpu.regs regA4) fmt args)
    (hnone : ¬ (cpu.regs regA1 ≠ 0 ∧ cpu.regs regA0 ≠ 0)) :
    handleFormatToBuf cpu mem =
      let s := (formatVa (bufSink cpu 0 0) fmt args ⟨⟨mem, 0⟩, 0, false⟩).1
      (BitVec.ofNat 32 s.emitted, s.ctx.mem) := by
  unfold handleFormatToBuf
  dsimp only
  rw [h.fmt, h.args]
  dsimp only
  rw [if_neg hnone]

theorem bufSize_pos (hcap : cpu.regs regA1 ≠ 0) : 0 < bufSize cpu := by
  have hne : (cpu.regs regA1).toNat ≠ 0 := fun h => hcap (BitVec.eq_of_toNat_eq h)
  unfold bufSize formatCap
  omega

/-- A format or arguments that cannot be copied are an error, and nothing is written. -/
theorem handleFormatToBuf_fault
    (h : ∀ fmt args, ¬ Copied cpu mem (cpu.regs regA2) (cpu.regs regA3) (cpu.regs regA4) fmt args) :
    handleFormatToBuf cpu mem = (errno vmEfault, mem) := by
  unfold handleFormatToBuf
  dsimp only
  split
  · rfl
  · split
    · rfl
    · exact absurd ⟨‹_›, ‹_›⟩ (h _ _)

theorem handleFormatToBuf_frame {a : Nat} (ha : (handleFormatToBuf cpu mem).2 a ≠ mem a) :
    ∃ buf, BufAt cpu buf ∧ buf ≤ a ∧ a < buf + bufSize cpu := by
  by_cases hcopied : ∃ fmt args,
      Copied cpu mem (cpu.regs regA2) (cpu.regs regA3) (cpu.regs regA4) fmt args
  · obtain ⟨fmt, args, hcopied⟩ := hcopied
    by_cases huse : cpu.regs regA1 ≠ 0 ∧ cpu.regs regA0 ≠ 0
    · have hpos := bufSize_pos huse.1
      cases hmapped : vmTranslateWrite cpu (cpu.regs regA0) (BitVec.ofNat 32 (bufSize cpu)) with
      | error e =>
        unfold bufSize at hmapped
        unfold handleFormatToBuf at ha
        dsimp only at ha
        rw [hcopied.fmt, hcopied.args] at ha
        dsimp only at ha
        rw [if_pos huse, hmapped] at ha
        exact absurd rfl ha
      | ok buf =>
        have hbuf : BufAt cpu buf := ⟨huse.1, huse.2, hmapped⟩
        rw [handleFormatToBuf_eq hcopied hbuf] at ha
        have hroom := InRoom.run cpu mem buf (bufSize cpu - 1) fmt args
        refine ⟨buf, hbuf, ?_⟩
        by_contra hout
        refine ha ((Mem.copy_out ?_).trans ?_)
        · rw [length_singleton]
          omega
        · by_contra hne
          have := hroom.frame a hne
          omega
    · rw [handleFormatToBuf_count hcopied huse] at ha
      have := (InRoom.run cpu mem 0 0 fmt args).frame a ha
      omega
  · rw [handleFormatToBuf_fault fun fmt args h => hcopied ⟨fmt, args, h⟩] at ha
    exact absurd rfl ha

/-- What a call with a buffer leaves: the part of the text that has room, and a terminator. -/
theorem handleFormatToBuf_text
    (h : Copied cpu mem (cpu.regs regA2) (cpu.regs regA3) (cpu.regs regA4) fmt args)
    (hbuf : BufAt cpu buf) :
    ∃ text, Printed (guestByte cpu mem) (OutsideBuf cpu buf (bufSize cpu)) fmt args text ∧
      (handleFormatToBuf cpu mem).1 = BitVec.ofNat 32 text.length ∧
        (handleFormatToBuf cpu mem).2.bytes buf (min text.length (bufSize cpu - 1) + 1) =
          text.take (bufSize cpu - 1) ++ [0] := by
  have hpos := bufSize_pos hbuf.size
  rw [handleFormatToBuf_eq h hbuf]
  generalize bufSize cpu = want at hpos ⊢
  obtain ⟨cap, rfl⟩ : ∃ cap, want = cap + 1 := ⟨want - 1, by omega⟩
  have hstart : Buffered mem buf cap [] ⟨⟨mem, 0⟩, 0, false⟩ :=
    ⟨rfl, rfl, by rw [take_nil]; exact (copy_nil mem buf).symm,
      (Nat.min_eq_left (Nat.zero_le cap)).symm⟩
  obtain ⟨text, hprinted, hrun⟩ := formatVa_prints bufSink_follows fmt args hstart
  exact ⟨text, hprinted, congrArg (BitVec.ofNat 32) hrun.emitted, hrun.terminated⟩

theorem handleFormatToBuf_length
    (h : Copied cpu mem (cpu.regs regA2) (cpu.regs regA3) (cpu.regs regA4) fmt args)
    (hnone : ¬ (cpu.regs regA1 ≠ 0 ∧ cpu.regs regA0 ≠ 0)) :
    ∃ text, Printed (guestByte cpu mem) (fun _ => True) fmt args text ∧
      handleFormatToBuf cpu mem = (BitVec.ofNat 32 text.length, mem) := by
  have hstart : Buffered mem 0 0 [] ⟨⟨mem, 0⟩, 0, false⟩ :=
    ⟨rfl, rfl, (copy_nil mem 0).symm, rfl⟩
  obtain ⟨text, hprinted, hrun⟩ := formatVa_prints bufSink_follows_count fmt args hstart
  rw [handleFormatToBuf_count h hnone]
  refine ⟨text, hprinted, Prod.ext (congrArg (BitVec.ofNat 32) hrun.emitted) ?_⟩
  dsimp only
  rw [hrun.mem, take_zero, copy_nil]

/-- A print writes the text and returns its length, or the host has refused some of it. -/
theorem handleFormatAndWrite_text (write : List Byte → List Byte → Nat) (out : List Byte)
    (hfd : cpu.regs regA0 = 1 ∨ cpu.regs regA0 = 2)
    (h : Copied cpu mem (cpu.regs regA1) (cpu.regs regA2) (cpu.regs regA3) fmt args) :
    ∃ text, Printed (guestByte cpu mem) (fun _ => True) fmt args text ∧
      (handleFormatAndWrite write cpu mem out = (BitVec.ofNat 32 text.length, out ++ text) ∨
        ∃ out', Refused write out text out' ∧
          handleFormatAndWrite write cpu mem out = (errno vmEio, out')) := by
  have hstart : Written write out [] (⟨out, 0, false⟩ : FmtSink (List Byte)) :=
    .inr ⟨rfl, rfl, (append_nil out).symm⟩
  obtain ⟨text, hprinted, hrun⟩ := formatVa_prints (fdSink_follows write cpu mem out) fmt args hstart
  have heq : handleFormatAndWrite write cpu mem out =
      let s := (formatVa (fdSink write cpu mem) fmt args ⟨out, 0, false⟩).1
      (if s.failed then errno vmEio else BitVec.ofNat 32 s.emitted, s.ctx) := by
    unfold handleFormatAndWrite
    dsimp only
    rw [if_neg (by tauto), h.fmt, h.args]
  rw [heq]
  refine ⟨text, hprinted, ?_⟩
  rcases hrun with ⟨hfailed, hrefused⟩ | ⟨hok, hemitted, hctx⟩
  · exact .inr ⟨_, hrefused, Prod.ext (if_pos hfailed) rfl⟩
  · refine .inl (Prod.ext ?_ hctx)
    dsimp only
    rw [hok, hemitted]
    rfl

theorem handleFormatAndWrite_fault (write : List Byte → List Byte → Nat) (out : List Byte)
    (hfd : cpu.regs regA0 = 1 ∨ cpu.regs regA0 = 2)
    (h : ∀ fmt args, ¬ Copied cpu mem (cpu.regs regA1) (cpu.regs regA2) (cpu.regs regA3) fmt args) :
    handleFormatAndWrite write cpu mem out = (errno vmEfault, out) := by
  unfold handleFormatAndWrite
  dsimp only
  rw [if_neg (by tauto)]
  split
  · rfl
  · split
    · rfl
    · exact absurd ⟨‹_›, ‹_›⟩ (h _ _)

end

/-- The calls of the formatter on any CPU and memory: which formats are copied, where a buffer is
written, and where the text goes. -/
structure FormatCalls (cpu : VmCpu) (mem : Mem) : Prop where
  copied : ∀ ptr fmt, copyGuestString (guestByte cpu mem) ptr vmFormatMaxFmtLen 0 = some fmt ↔
    Spells (guestByte cpu mem) ptr fmt ∧ fmt.length ≤ 1022
  frame : ∀ a, (handleFormatToBuf cpu mem).2 a ≠ mem a →
    ∃ buf, BufAt cpu buf ∧ buf ≤ a ∧ a < buf + bufSize cpu
  fault : (∀ fmt args, ¬ Copied cpu mem (cpu.regs regA2) (cpu.regs regA3) (cpu.regs regA4) fmt
    args) → handleFormatToBuf cpu mem = (errno vmEfault, mem)
  buffer : ∀ fmt args buf,
    Copied cpu mem (cpu.regs regA2) (cpu.regs regA3) (cpu.regs regA4) fmt args → BufAt cpu buf →
      ∃ text, Printed (guestByte cpu mem) (OutsideBuf cpu buf (bufSize cpu)) fmt args text ∧
        (handleFormatToBuf cpu mem).1 = BitVec.ofNat 32 text.length ∧
          (handleFormatToBuf cpu mem).2.bytes buf (min text.length (bufSize cpu - 1) + 1) =
            text.take (bufSize cpu - 1) ++ [0]
  count : ∀ fmt args,
    Copied cpu mem (cpu.regs regA2) (cpu.regs regA3) (cpu.regs regA4) fmt args →
      ¬ (cpu.regs regA1 ≠ 0 ∧ cpu.regs regA0 ≠ 0) →
        ∃ text, Printed (guestByte cpu mem) (fun _ => True) fmt args text ∧
          handleFormatToBuf cpu mem = (BitVec.ofNat 32 text.length, mem)
  printFault : ∀ write out, cpu.regs regA0 = 1 ∨ cpu.regs regA0 = 2 →
    (∀ fmt args, ¬ Copied cpu mem (cpu.regs regA1) (cpu.regs regA2) (cpu.regs regA3) fmt args) →
      handleFormatAndWrite write cpu mem out = (errno vmEfault, out)
  print : ∀ fmt args write out, cpu.regs regA0 = 1 ∨ cpu.regs regA0 = 2 →
    Copied cpu mem (cpu.regs regA1) (cpu.regs regA2) (cpu.regs regA3) fmt args →
      ∃ text, Printed (guestByte cpu mem) (fun _ => True) fmt args text ∧
        (handleFormatAndWrite write cpu mem out = (BitVec.ofNat 32 text.length, out ++ text) ∨
          ∃ out', Refused write out text out' ∧
            handleFormatAndWrite write cpu mem out = (errno vmEio, out'))

theorem formatCalls (cpu : VmCpu) (mem : Mem) : FormatCalls cpu mem where
  copied ptr fmt := by
    rw [copyGuestString_eq_some, BitVec.add_zero, vmFormatMaxFmtLen]
    exact and_congr_right' (by omega)
  frame _ := handleFormatToBuf_frame
  fault := handleFormatToBuf_fault
  printFault := handleFormatAndWrite_fault
  buffer _ _ _ := handleFormatToBuf_text
  count _ _ := handleFormatToBuf_length
  print _ _ := handleFormatAndWrite_text

/-! ## A wide buffer -/

/-- `%70000u` -/
def wideFmt : List Byte := [ch '%', ch '7', ch '0', ch '0', ch '0', ch '0', ch 'u']

def wideMem : Mem := fun a => wideFmt.getD a 0

/-- A call with a buffer of 70001 bytes; the argument is a zero. -/
def wideCpu : VmCpu :=
  { vmInit 0 with
    regs := fun r =>
      if r = regA0 then 0x80000100 else if r = regA1 then 70001 else if r = regA2 then 0x80000000
      else if r = regA3 then 0x80000010 else if r = regA4 then 1 else 0
    regions := fun r => if r = regionData then ⟨0, 0x40000, true⟩ else .absent }

def wideText : List Byte := justify .none 70000 false [] (intDigits 10 false (-1) 0)

theorem wideText_eq : wideText = List.replicate 69999 (ch ' ') ++ [ch '0'] := by
  have hdigits : intDigits 10 false (-1) 0 = [ch '0'] := by simp [intDigits]
  rw [wideText, hdigits, justify, if_neg (by decide), if_neg (by decide), append_nil]
  congr 1

def wideDirective : Directive :=
  ⟨.none, .number [ch '7', ch '0', ch '0', ch '0', ch '0'], none, [], some (ch 'u')⟩

theorem wide_printf (read : Word → Option Byte) (ok : Word → Prop) :
    Printf read ok (.conv (ch 'u') wideDirective 70000 (-1) 0) wideText :=
  .number rfl ⟨by change _ < _; decide, nofun, .inl rfl⟩ nofun

theorem wide_call (ok : Word → Prop) :
    CallText wideCpu wideMem (wideCpu.regs regA2) (wideCpu.regs regA3) (wideCpu.regs regA4) ok wideFmt
      [0] wideText where
  copied := ⟨by decide +kernel, by decide +kernel⟩
  printf := ⟨[wideText], append_nil _, .cons (wide_printf _ ok) .nil⟩

/-- A number that is no slip has one text. -/
theorem Item.Prints.number_eq {read : Word → Option Byte} {ok : Word → Prop} {c : Byte}
    {d : Directive} {width precision : Int} {v : Word} {t text : List Byte}
    (h : Item.Prints read ok (.conv c d width precision v) text) (hnum : isNumeric c = true)
    (ht : Printf read ok (.conv c d width precision v) t)
    (hdigits : ¬ WrongDigits c d.flags precision v) (hfill : ¬ WrongFill d.flags width precision
      ((leadOf c d.flags v).length + (bodyOf c d.flags precision v).length)) : text = t := by
  rcases h with htext | hslip | hnone
  · cases htext <;> first | contradiction | cases ht <;> first | contradiction | rfl
  · cases hslip with
    | digits _ hw => exact absurd hw hdigits
    | fill _ hw => exact absurd hw hfill
    | char => contradiction
    | str => contradiction
  · exact absurd ht (hnone t)

theorem wide_printed {read : Word → Option Byte} {ok : Word → Prop} {text : List Byte}
    (h : Printed read ok wideFmt [0] text) : text = wideText := by
  obtain ⟨texts, rfl, hprints⟩ := h
  have hitems : items wideFmt.length wideFmt [0] =
      [.conv (ch 'u') wideDirective 70000 (-1) 0] := rfl
  rw [hitems] at hprints
  cases hprints with
  | cons hitem hrest =>
    cases hrest
    rw [flatten_cons, flatten_nil, append_nil]
    refine hitem.number_eq rfl (wide_printf read ok) ?_ ?_
    · rintro (⟨-, hprec, -⟩ | ⟨-, hhash, -⟩)
      · exact absurd hprec (by decide)
      · cases hhash
    · rintro (⟨hneg, -⟩ | ⟨hzero, -⟩)
      · exact absurd hneg (by decide)
      · cases hzero

theorem getElem_bytes (m : Mem) (p : Nat) {n i : Nat} (hi : i < n) :
    (m.bytes p n)[i]? = some (m (p + i)) := by
  unfold Mem.bytes
  rw [List.getElem?_map, List.getElem?_range hi]
  rfl

/-- Of a buffer of 70001 bytes only 65536 are used. -/
theorem wide_buffer_cut :
    ¬ ∀ (cpu : VmCpu) (mem : Mem) (fmt : List Byte) (args : List Word) (text : List Byte) (buf : Nat),
      CallText cpu mem (cpu.regs regA2) (cpu.regs regA3) (cpu.regs regA4)
          (OutsideBuf cpu buf (cpu.regs regA1).toNat) fmt args text →
        cpu.regs regA1 ≠ 0 → cpu.regs regA0 ≠ 0 →
          vmTranslateWrite cpu (cpu.regs regA0) (cpu.regs regA1) = .ok buf →
            (handleFormatToBuf cpu mem).2.bytes buf
                (min text.length ((cpu.regs regA1).toNat - 1) + 1) =
              text.take ((cpu.regs regA1).toNat - 1) ++ [0] := by
  intro h
  have hclaim := h wideCpu wideMem wideFmt [0] wideText 256 (wide_call _) (by decide) (by decide) rfl
  obtain ⟨text, hprinted, -, hused⟩ := handleFormatToBuf_text (wide_call fun _ => True).copied
    (⟨by decide, by decide, rfl⟩ : BufAt wideCpu 256)
  rw [wide_printed hprinted] at hused
  have hlen : wideText.length = 70000 := by
    rw [wideText_eq, length_append, length_replicate]
    rfl
  have hcap : (wideCpu.regs regA1).toNat = 70001 := rfl
  rw [hlen, hcap] at hclaim
  rw [hlen, show bufSize wideCpu - 1 = 65535 from rfl] at hused
  -- the byte behind the first 65535 characters
  have hzero : some ((handleFormatToBuf wideCpu wideMem).2 (256 + 65535)) = some 0 := by
    have htaken : (wideText.take 65535).length = 65535 := by
      rw [length_take, hlen]
      rfl
    rw [← getElem_bytes _ _ (by decide : 65535 < min 70000 65535 + 1), hused,
      List.getElem?_append_right (by omega), htaken]
    rfl
  have hspace : some ((handleFormatToBuf wideCpu wideMem).2 (256 + 65535)) = some (ch ' ') := by
    rw [← getElem_bytes _ _ (by decide : 65535 < min 70000 (70001 - 1) + 1), hclaim,
      take_of_length_le (by omega), wideText_eq, append_assoc,
      List.getElem?_append_left (by rw [length_replicate]; decide), List.getElem?_replicate,
      if_pos (by decide)]
  rw [hzero] at hspace
  exact absurd (Option.some.inj hspace) (by decide)

end Microgarbage.Print
