import Microgarbage.Lib.Telnet

/-!
# The Telnet filter

`tcp_listen.c`: the reads of the terminal's transport, whose filter keeps its state from one read to
the next.
-/

namespace Microgarbage.Mgapi

open Lib.Telnet

/-- `iac_state`, 0 to 4. -/
inductive IacState
  | data
  | iac
  | option
  | sub
  | subIac
  deriving DecidableEq

/-- What the filter and the reads use of `TcpCtx`: whether there is a client, and their state. -/
structure TcpCtx where
  clientFd : Bool
  iacState : IacState
  iacVerb : Byte
  deriving DecidableEq

/-- The session of a client that `try_accept` has let in. -/
def TcpCtx.accepted : TcpCtx := ⟨true, .data, 0⟩

/-- What the filter has written out and what it has answered. -/
structure Filtered where
  ctx : TcpCtx
  out : List Byte
  sent : List (List Byte)
  deriving DecidableEq

/-- The turn of the loop of `telnet_filter`. -/
def telnetByte (f : Filtered) (b : Byte) : Filtered :=
  match f.ctx.iacState with
  | .data =>
    if b = iac then { f with ctx.iacState := .iac } else { f with out := f.out ++ [b] }
  | .iac =>
    if b = iac then { f with out := f.out ++ [0xFF], ctx.iacState := .data }
    else if b = will ∨ b = wont ∨ b = do' ∨ b = dont then
      { f with ctx.iacVerb := b, ctx.iacState := .option }
    else if b = sb then { f with ctx.iacState := .sub }
    else { f with ctx.iacState := .data }
  | .option =>
    let resp1 := if f.ctx.iacVerb = do' then wont else if f.ctx.iacVerb = will then dont else 0
    { f with
      sent := if resp1 ≠ 0 then f.sent ++ [[iac, resp1, b]] else f.sent
      ctx.iacState := .data }
  | .sub => if b = iac then { f with ctx.iacState := .subIac } else f
  | .subIac =>
    if b = se then { f with ctx.iacState := .data }
    else if b = iac then { f with ctx.iacState := .subIac }
    else { f with ctx.iacState := .sub }

/-- `telnet_filter` -/
def telnetFilter (ctx : TcpCtx) (raw : List Byte) : Filtered := raw.foldl telnetByte ⟨ctx, [], []⟩

/-- What `recv` returns: some bytes, the end of the connection, or an error. -/
inductive Recv
  | bytes (b : Byte) (more : List Byte)
  | closed
  | wouldBlock
  | failed
  deriving DecidableEq

/-- `tcp_t_read`, for what `recv` returns: the result, and what the filter has done. -/
def tcpTRead (ctx : TcpCtx) (cap : Nat) (r : Recv) : Int × Filtered :=
  let idle : Filtered := ⟨ctx, [], []⟩
  if !ctx.clientFd then (0, idle)
  else if cap = 0 then (0, idle)
  else
    match r with
    | .bytes b more =>
      let f := telnetFilter ctx (b :: more)
      (f.out.length, f)
    | .closed => (-1, { idle with ctx.clientFd := false })
    | .wouldBlock => (0, idle)
    | .failed => (-5, idle)

/-! ## Sessions -/

/-- A session: what the reads have taken from the connection, and what they have passed on. -/
structure Session where
  ctx : TcpCtx
  received : List Byte
  passed : List Byte
  deriving DecidableEq

/-- The bytes that a read takes. -/
def taken (ctx : TcpCtx) (cap : Nat) : Recv → List Byte
  | .bytes b more => if ctx.clientFd ∧ cap ≠ 0 then b :: more else []
  | _ => []

def Session.read (s : Session) (cap : Nat) (r : Recv) : Session where
  ctx := (tcpTRead s.ctx cap r).2.ctx
  received := s.received ++ taken s.ctx cap r
  passed := s.passed ++ (tcpTRead s.ctx cap r).2.out

def session (reads : List (Nat × Recv)) : Session :=
  reads.foldl (fun s r => s.read r.1 r.2) ⟨.accepted, [], []⟩

/-! ## The filter and the reading of its stream -/

/-- The state of the filter while `o` is open: a doubled IAC in a subnegotiation leaves it as if it
had seen the first byte of the end. -/
def stateOf : Open → IacState
  | .nothing => .data
  | .iac => .iac
  | .option _ => .option
  | .sub payload => if payload.getLast? = some .escaped then .subIac else .sub
  | .subIac _ => .subIac

theorem stateOf_data_iff (o : Open) : stateOf o = .data ↔ o = .nothing := by
  cases o with
  | nothing => simp [stateOf]
  | iac => simp [stateOf]
  | option verb => simp [stateOf]
  | sub payload => by_cases h : payload.getLast? = some .escaped <;> simp [stateOf, h]
  | subIac payload => simp [stateOf]

/-- Within a subnegotiation: a doubled IAC and then the byte that ends subnegotiations. -/
def Trap (o : Open) : Prop := ∃ payload, o = .sub (payload ++ [.escaped, .byte se])

/-- Some part of the stream ends in a trap. -/
def Trapped (s : List Byte) : Prop := ∃ q, q <+: s ∧ Trap (read q).rest

/-- The filter after a byte that completes a piece or not and leaves something open. -/
structure Follows (r : Option Piece × Open) (f f' : Filtered) : Prop where
  state : f'.ctx.iacState = stateOf r.2
  out : f'.out = f.out ++ r.1.toList.flatMap Piece.shown
  clientFd : f'.ctx.clientFd = f.ctx.clientFd

theorem telnetByte_follows {o : Open} {b : Byte} {f : Filtered} (h : f.ctx.iacState = stateOf o)
    (hno : ¬Trap (o.push b).2) : Follows (o.push b) f (telnetByte f b) := by
  have hout : f.out = f.out ++ [] := (List.append_nil _).symm
  unfold telnetByte
  rw [h]
  cases o with
  | nothing =>
    dsimp only [stateOf, Open.push]
    by_cases hiac : b = iac
    · rw [if_pos hiac, if_pos hiac]
      exact ⟨rfl, hout, rfl⟩
    · rw [if_neg hiac, if_neg hiac]
      exact ⟨h, rfl, rfl⟩
  | iac =>
    dsimp only [stateOf, Open.push]
    by_cases hiac : b = iac
    · rw [if_pos hiac, if_pos hiac]
      exact ⟨rfl, rfl, rfl⟩
    rw [if_neg hiac, if_neg hiac]
    by_cases hverb : IsVerb b
    · rw [if_pos hverb, if_pos (show b = will ∨ b = wont ∨ b = do' ∨ b = dont from hverb)]
      exact ⟨rfl, hout, rfl⟩
    rw [if_neg hverb, if_neg (show ¬(b = will ∨ b = wont ∨ b = do' ∨ b = dont) from hverb)]
    by_cases hsb : b = sb
    · rw [if_pos hsb, if_pos hsb]
      exact ⟨rfl, hout, rfl⟩
    · rw [if_neg hsb, if_neg hsb]
      exact ⟨rfl, hout, rfl⟩
  | option verb => exact ⟨rfl, hout, rfl⟩
  | subIac payload =>
    dsimp only [stateOf, Open.push]
    by_cases hse : b = se
    · rw [if_pos hse, if_pos hse]
      exact ⟨rfl, hout, rfl⟩
    rw [if_neg hse, if_neg hse]
    by_cases hiac : b = iac
    · rw [if_pos hiac, if_pos hiac]
      exact ⟨by simp [stateOf], hout, rfl⟩
    · rw [if_neg hiac, if_neg hiac]
      exact ⟨by simp [stateOf], hout, rfl⟩
  | sub payload =>
    rw [stateOf] at h ⊢
    by_cases hesc : payload.getLast? = some .escaped
    · -- the filter takes the second byte of a doubled IAC for the first of the end
      rw [if_pos hesc] at h ⊢
      dsimp only [Open.push] at hno ⊢
      by_cases hiac : b = iac
      · have hse : b ≠ se := by
          rw [hiac]
          decide
        rw [if_neg hse, if_pos hiac, if_pos hiac]
        exact ⟨rfl, hout, rfl⟩
      rw [if_neg hiac] at hno
      have hse : b ≠ se := by
        rintro rfl
        obtain ⟨front, rfl⟩ := List.getLast?_eq_some_iff.mp hesc
        exact hno ⟨front, by simp⟩
      rw [if_neg hse, if_neg hiac, if_neg hiac]
      exact ⟨by simp [stateOf], hout, rfl⟩
    · rw [if_neg hesc] at h ⊢
      dsimp only [Open.push]
      by_cases hiac : b = iac
      · rw [if_pos hiac, if_pos hiac]
        exact ⟨rfl, hout, rfl⟩
      · rw [if_neg hiac, if_neg hiac]
        exact ⟨by simpa [stateOf] using h, hout, rfl⟩

/-- The filter over a whole stream, from the first byte of a session. -/
def filtered (s : List Byte) : Filtered := telnetFilter .accepted s

@[simp] theorem filtered_concat (s : List Byte) (b : Byte) :
    filtered (s ++ [b]) = telnetByte (filtered s) b := List.foldl_concat ..

theorem Trapped.mono {s t : List Byte} (h : Trapped s) (hst : s <+: t) : Trapped t :=
  let ⟨q, hq, htrap⟩ := h
  ⟨q, hq.trans hst, htrap⟩

theorem filtered_of_not_trapped {s : List Byte} (h : ¬Trapped s) :
    (filtered s).ctx.iacState = stateOf (read s).rest ∧ (filtered s).out = (read s).shown := by
  induction s using List.reverseRecOn with
  | nil => exact ⟨rfl, rfl⟩
  | append_singleton s b ih =>
    obtain ⟨hstate, hout⟩ := ih fun ht => h (ht.mono (List.prefix_append s [b]))
    have hno : ¬Trap ((read s).rest.push b).2 := fun ht => by
      refine h ⟨s ++ [b], List.prefix_rfl, ?_⟩
      rw [read_concat]
      exact ht
    have hstep := telnetByte_follows hstate hno
    rw [filtered_concat, read_concat]
    refine ⟨hstep.state, ?_⟩
    rw [hstep.out, hout]
    exact List.flatMap_append.symm

theorem trap_push {o : Open} {b : Byte} (h : Trap (o.push b).2) :
    b = se ∧ ∃ payload, o = .sub (payload ++ [.escaped]) := by
  obtain ⟨payload, hpush⟩ := h
  have hlast : (payload ++ [Item.escaped, .byte se]).getLast? = some (.byte se) := by simp
  cases o with
  | nothing =>
    dsimp only [Open.push] at hpush
    split at hpush <;> cases hpush
  | iac =>
    dsimp only [Open.push] at hpush
    split at hpush
    case isTrue => cases hpush
    split at hpush
    case isTrue => cases hpush
    split at hpush
    case isTrue =>
      rw [← Open.sub.inj hpush] at hlast
      cases hlast
    case isFalse => cases hpush
  | option verb => cases hpush
  | sub front =>
    dsimp only [Open.push] at hpush
    split at hpush
    case isTrue => cases hpush
    case isFalse =>
      have heq := Open.sub.inj hpush
      rw [show payload ++ [Item.escaped, .byte se] = (payload ++ [.escaped]) ++ [.byte se] by simp]
        at heq
      obtain ⟨hfront, hbyte⟩ := List.append_inj' heq rfl
      refine ⟨?_, payload, by rw [hfront]⟩
      exact Item.byte.inj (List.singleton_inj.mp hbyte)
  | subIac front =>
    dsimp only [Open.push] at hpush
    split at hpush
    case isTrue => cases hpush
    split at hpush
    all_goals
      rw [← Open.sub.inj hpush, List.getLast?_concat] at hlast
      cases hlast

theorem filtered_trap {s : List Byte} {b : Byte} (h : ¬Trapped s)
    (ht : Trap (read (s ++ [b])).rest) : (filtered (s ++ [b])).ctx.iacState = .data := by
  rw [read_concat] at ht
  obtain ⟨rfl, payload, hrest⟩ := trap_push ht
  have hstate := (filtered_of_not_trapped h).1
  rw [hrest, stateOf, if_pos (List.getLast?_concat ..)] at hstate
  rw [filtered_concat, telnetByte, hstate]
  dsimp only
  rw [if_pos rfl]

theorem Trapped.first {s : List Byte} (h : Trapped s) :
    ∃ q b, q ++ [b] <+: s ∧ ¬Trapped q ∧ Trap (read (q ++ [b])).rest := by
  induction s using List.reverseRecOn with
  | nil =>
    obtain ⟨q, hq, payload, htrap⟩ := h
    rw [List.prefix_nil.mp hq] at htrap
    cases htrap
  | append_singleton s b ih =>
    by_cases hs : Trapped s
    · obtain ⟨q, c, hq, hfirst⟩ := ih hs
      exact ⟨q, c, hq.trans (List.prefix_append s [b]), hfirst⟩
    · obtain ⟨q, hq, htrap⟩ := h
      rcases List.prefix_concat_iff.mp hq with rfl | hq
      · exact ⟨s, b, List.prefix_rfl, hs, htrap⟩
      · exact absurd ⟨q, hq, htrap⟩ hs

/-! ## Reads -/

theorem telnetByte_shift {f g : Filtered} {out : List Byte} (hctx : f.ctx = g.ctx)
    (hout : f.out = out ++ g.out) (b : Byte) :
    (telnetByte f b).ctx = (telnetByte g b).ctx ∧
      (telnetByte f b).out = out ++ (telnetByte g b).out := by
  unfold telnetByte
  rw [hctx]
  cases g.ctx.iacState with
  | data => by_cases hiac : b = iac <;> simp [hiac, hout]
  | iac =>
    dsimp only
    split
    case isTrue => exact ⟨rfl, by simp [hout]⟩
    split
    case isTrue => exact ⟨rfl, hout⟩
    split <;> exact ⟨rfl, hout⟩
  | option => exact ⟨rfl, hout⟩
  | sub =>
    dsimp only
    split
    case isTrue => exact ⟨rfl, hout⟩
    case isFalse => exact ⟨hctx, hout⟩
  | subIac =>
    dsimp only
    split
    case isTrue => exact ⟨rfl, hout⟩
    split <;> exact ⟨rfl, hout⟩

theorem foldl_telnetByte (raw : List Byte) {f g : Filtered} {out : List Byte}
    (hctx : f.ctx = g.ctx) (hout : f.out = out ++ g.out) :
    (raw.foldl telnetByte f).ctx = (raw.foldl telnetByte g).ctx ∧
      (raw.foldl telnetByte f).out = out ++ (raw.foldl telnetByte g).out := by
  induction raw generalizing f g with
  | nil => exact ⟨hctx, hout⟩
  | cons b raw ih =>
    obtain ⟨hctx', hout'⟩ := telnetByte_shift hctx hout b
    exact ih hctx' hout'

theorem telnetByte_clientFd (f : Filtered) (b : Byte) :
    (telnetByte f b).ctx.clientFd = f.ctx.clientFd := by
  unfold telnetByte
  cases f.ctx.iacState <;> dsimp only <;> repeat' split
  all_goals rfl

theorem filtered_clientFd (s : List Byte) : (filtered s).ctx.clientFd = true := by
  induction s using List.reverseRecOn with
  | nil => rfl
  | append_singleton s b ih => rw [filtered_concat, telnetByte_clientFd, ih]

/-- The reads of a session have passed on what the filter makes of all bytes that were taken. -/
structure Session.Tracks (t : Session) : Prop where
  iacState : t.ctx.iacState = (filtered t.received).ctx.iacState
  iacVerb : t.ctx.iacVerb = (filtered t.received).ctx.iacVerb
  passed : t.passed = (filtered t.received).out

theorem Session.Tracks.ctx_eq {t : Session} (h : t.Tracks) (hopen : t.ctx.clientFd = true) :
    t.ctx = (filtered t.received).ctx := by
  have hstate := h.iacState
  have hverb := h.iacVerb
  have hfd := filtered_clientFd t.received
  generalize (filtered t.received).ctx = c at *
  cases hc : t.ctx
  cases c
  simp_all

theorem Session.Tracks.read {t : Session} (h : t.Tracks) (cap : Nat) (r : Recv) :
    (t.read cap r).Tracks := by
  have hidle {ctx : TcpCtx} (hctx : ctx.iacState = t.ctx.iacState ∧ ctx.iacVerb = t.ctx.iacVerb) :
      Session.Tracks ⟨ctx, t.received ++ [], t.passed ++ []⟩ := by
    rw [List.append_nil, List.append_nil]
    exact ⟨hctx.1.trans h.iacState, hctx.2.trans h.iacVerb, h.passed⟩
  unfold Session.read tcpTRead taken
  cases hopen : t.ctx.clientFd with
  | false => cases r <;> exact hidle ⟨rfl, rfl⟩
  | true =>
    by_cases hcap : cap = 0
    · subst hcap
      cases r <;> exact hidle ⟨rfl, rfl⟩
    cases r with
    | closed | wouldBlock | failed =>
      rw [if_neg (by decide), if_neg hcap]
      exact hidle ⟨rfl, rfl⟩
    | bytes b more =>
      dsimp only
      rw [if_neg (by decide), if_neg hcap, if_pos ⟨rfl, hcap⟩]
      have hwhole : filtered (t.received ++ b :: more) =
          (b :: more).foldl telnetByte (filtered t.received) := List.foldl_append ..
      obtain ⟨hctx, hout⟩ := foldl_telnetByte (b :: more) (f := filtered t.received)
        (g := ⟨t.ctx, [], []⟩) (h.ctx_eq hopen).symm (List.append_nil _).symm
      refine ⟨?_, ?_, ?_⟩
      · rw [hwhole, hctx]
        rfl
      · rw [hwhole, hctx]
        rfl
      · rw [hwhole, hout, ← h.passed]
        rfl

theorem session_tracks (reads : List (Nat × Recv)) : (session reads).Tracks := by
  induction reads using List.reverseRecOn with
  | nil => exact ⟨rfl, rfl, rfl⟩
  | append_singleton reads r ih =>
    unfold session at ih ⊢
    rw [List.foldl_concat]
    exact ih.read r.1 r.2

theorem session_bytewise (s : List Byte) :
    (session (s.map fun b => (512, .bytes b []))).received = s ∧
      (session (s.map fun b => (512, .bytes b []))).ctx.clientFd = true := by
  induction s using List.reverseRecOn with
  | nil => exact ⟨rfl, rfl⟩
  | append_singleton s b ih =>
    obtain ⟨hreceived, hopen⟩ := ih
    unfold session at hreceived hopen ⊢
    rw [List.map_append, List.map_singleton, List.foldl_concat]
    generalize List.foldl _ _ _ = t at hreceived hopen ⊢
    have htake : taken t.ctx 512 (.bytes b []) = [b] := by simp [taken, hopen]
    have hctx : (t.read 512 (.bytes b [])).ctx = (telnetByte ⟨t.ctx, [], []⟩ b).ctx := by
      simp [Session.read, tcpTRead, telnetFilter, hopen]
    refine ⟨?_, ?_⟩
    · rw [show (t.read 512 (.bytes b [])).received = t.received ++ taken t.ctx 512 (.bytes b []) from
        rfl, hreceived, htake]
    · rw [hctx, telnetByte_clientFd]
      exact hopen

/-- What the terminal was given, and whether the filter is between commands. -/
structure Session.Agrees (t : Session) : Prop where
  passed : t.passed = (Lib.Telnet.read t.received).shown
  between : t.ctx.iacState = .data ↔ (Lib.Telnet.read t.received).rest = .nothing

/-- However a stream is cut into reads, the filter agrees with its reading all along exactly when no
doubled IAC of a subnegotiation stands before the byte 240. -/
theorem telnet_reads_iff (s : List Byte) :
    (∀ reads, (session reads).received <+: s → (session reads).Agrees) ↔ ¬Trapped s := by
  constructor
  · intro h htrap
    obtain ⟨q, b, hq, hnot, hrest⟩ := htrap.first
    obtain ⟨hreceived, -⟩ := session_bytewise (q ++ [b])
    have hagrees := h _ (hreceived.symm ▸ hq)
    have hdata := filtered_trap hnot hrest
    rw [← hreceived, ← (session_tracks _).iacState, hagrees.between, hreceived] at hdata
    obtain ⟨payload, hsub⟩ := hrest
    rw [hdata] at hsub
    cases hsub
  · intro h reads hreads
    have htracks := session_tracks reads
    obtain ⟨hstate, hout⟩ := filtered_of_not_trapped fun ht => h (ht.mono hreads)
    refine ⟨htracks.passed.trans hout, ?_⟩
    rw [htracks.iacState, hstate]
    exact stateOf_data_iff _

/-- The rest of a subnegotiation is typed on the terminal. -/
theorem escaped_se_typed :
    (session [(512, .bytes 255 [250, 0, 255, 255, 240, 65, 255, 240])]).passed = [65] ∧
      Lib.Telnet.read [255, 250, 0, 255, 255, 240, 65, 255, 240] =
        ⟨[.sub [.byte 0, .escaped, .byte 240, .byte 65]], .nothing⟩ ∧
      (Lib.Telnet.read [255, 250, 0, 255, 255, 240, 65, 255, 240]).shown = [] := by decide

end Microgarbage.Mgapi
