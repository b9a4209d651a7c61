import Microgarbage.Containers.SpscRing

/-!
# The service channel

`service_channel.c`: requests and responses between one requester and one provider over two rings.
Each ring is the queue its refinement theorem makes it, and the steps of the two sides interleave
between any two accesses to it. A synchronous call stamps its request with a fresh number and waits
for a response with that number.
-/

namespace Microgarbage.Io

open Lib Containers List

structure ChannelMsg where
  type : BitVec 16
  flags : BitVec 16
  seq : BitVec 32
  a0 : BitVec 32
  a1 : BitVec 32
  a2 : BitVec 32
  a3 : BitVec 32
  a4 : BitVec 32
  reserved : BitVec 32
  deriving DecidableEq

def channelFlagExpectsResponse : BitVec 16 := 1#16 <<< 0
def channelFlagAsync : BitVec 16 := 1#16 <<< 1

/-- A message in a ring, with the call it asks or answers for. -/
structure Sent where
  msg : ChannelMsg
  call : Option Nat
  deriving DecidableEq

/-- Where the requester is. Calls are counted by the numbers handed out before them. -/
inductive Requester where
  | idle
  /-- About to try `channel_request_post`. -/
  | posting (call : Nat) (msg : ChannelMsg) (stray : Bool)
  /-- In `transport.wait`, the request ring was full. -/
  | fullWait (call : Nat) (msg : ChannelMsg) (stray : Bool)
  /-- About to try `channel_response_poll`. -/
  | polling (call : Nat) (seq : BitVec 32) (stray : Bool)
  /-- In `transport.wait`, the response ring was empty. -/
  | emptyWait (call : Nat) (seq : BitVec 32) (stray : Bool)
  deriving DecidableEq

/-- What became of a response that was taken from the ring. -/
inductive Fate where
  | returned (call : Nat)
  /-- It has another number; `handed` says if there was a stray handler to take it. -/
  | stray (call : Nat) (handed : Bool)
  /-- Taken by `channel_response_poll` outside a call. -/
  | polled
  deriving DecidableEq

structure ServiceChannel where
  nextSeq : BitVec 32
  /-- The transport has a `wait`. -/
  canWait : Bool
  /-- What a ring holds, one slot less than it has. -/
  depth : Nat
  requester : Requester
  req : List Sent
  resp : List Sent
  /-- Requests the provider has polled. -/
  taken : List Sent
  /-- Every response ever posted. -/
  posted : List Sent
  fates : List (Sent × Fate)
  /-- The calls made, each with its stamped request and if it has a stray handler. -/
  calls : List (Nat × ChannelMsg × Bool)
  /-- What each call that is over returned. -/
  results : List (Nat × Option ChannelMsg)
  /-- How many numbers were handed out. -/
  numbers : Nat
  deriving DecidableEq

/-- The number handed out, and the counter after it: 0 is skipped. -/
def serviceChannelNextSeq (nextSeq : BitVec 32) : BitVec 32 × BitVec 32 :=
  if nextSeq = 0 then (nextSeq + 1, nextSeq + 1 + 1) else (nextSeq, nextSeq + 1)

/-- A synchronous request with its number. -/
def stamp (msg : ChannelMsg) (seq : BitVec 32) : ChannelMsg :=
  { msg with
    seq := seq
    flags := (msg.flags ||| channelFlagExpectsResponse) &&& ~~~channelFlagAsync }

inductive ChannelEvent where
  /-- The requester takes a number for an asynchronous request, -/
  | nextSeq
  /-- posts one, -/
  | post (msg : ChannelMsg)
  /-- or polls for a response outside a call. -/
  | poll
  | call (msg : ChannelMsg) (stray : Bool)
  /-- The call in progress tries its ring. -/
  | advance
  /-- `transport.wait` returns. -/
  | wake (woken : Bool)
  /-- The provider polls a request, -/
  | take
  /-- answers the `i`-th one it has polled, echoing its number, -/
  | respond (i : Nat) (msg : ChannelMsg)
  /-- or posts a response to none. -/
  | unsolicited (msg : ChannelMsg)

namespace ServiceChannel

def init (canWait : Bool) (depth : Nat) : ServiceChannel :=
  ⟨1, canWait, depth, .idle, [], [], [], [], [], [], [], 0⟩

variable (s : ServiceChannel)

/-- The call returns, with a response or without. -/
def finish (call : Nat) (result : Option ChannelMsg) : ServiceChannel :=
  { s with requester := .idle, results := s.results ++ [(call, result)] }

/-- A response leaves the ring, which then holds `rest`. -/
def popResponse (r : Sent) (rest : List Sent) (fate : Fate) : ServiceChannel :=
  { s with resp := rest, fates := s.fates ++ [(r, fate)] }

def pushResponse (r : Sent) : ServiceChannel :=
  if s.resp.length < s.depth then { s with resp := s.resp ++ [r], posted := s.posted ++ [r] } else s

/-- One turn of `channel_request_call`'s loops, up to the next wait. -/
def advance : Option ServiceChannel :=
  match s.requester with
  | .posting call msg stray =>
    if s.req.length < s.depth then
      some { s with req := s.req ++ [⟨msg, some call⟩], requester := .polling call msg.seq stray }
    else if s.canWait then some { s with requester := .fullWait call msg stray }
    else some (s.finish call none)
  | .polling call seq stray =>
    match s.resp with
    | r :: rest =>
      if r.msg.seq = seq then
        some ((s.popResponse r rest (.returned call)).finish call (some r.msg))
      else some (s.popResponse r rest (.stray call stray))
    | [] =>
      if s.canWait then some { s with requester := .emptyWait call seq stray }
      else some (s.finish call none)
  | _ => none

def wake (woken : Bool) : Option ServiceChannel :=
  match s.requester with
  | .fullWait call msg stray =>
    if woken then some { s with requester := .posting call msg stray }
    else some (s.finish call none)
  | .emptyWait call seq stray =>
    if woken then some { s with requester := .polling call seq stray }
    else some (s.finish call none)
  | _ => none

def step : ChannelEvent → Option ServiceChannel
  | .nextSeq =>
    if s.requester = .idle then
      some { s with nextSeq := (serviceChannelNextSeq s.nextSeq).2, numbers := s.numbers + 1 }
    else none
  | .post msg =>
    if s.requester = .idle then
      some (if s.req.length < s.depth then { s with req := s.req ++ [⟨msg, none⟩] } else s)
    else none
  | .poll =>
    if s.requester = .idle then
      match s.resp with
      | r :: rest => some (s.popResponse r rest .polled)
      | [] => some s
    else none
  | .call msg stray =>
    if s.requester = .idle then
      let number := serviceChannelNextSeq s.nextSeq
      some { s with
        nextSeq := number.2
        requester := .posting s.numbers (stamp msg number.1) stray
        calls := s.calls ++ [(s.numbers, stamp msg number.1, stray)]
        numbers := s.numbers + 1 }
    else none
  | .advance => s.advance
  | .wake woken => s.wake woken
  | .take =>
    match s.req with
    | r :: rest => some { s with req := rest, taken := s.taken ++ [r] }
    | [] => some s
  | .respond i msg =>
    match s.taken[i]? with
    | some r => some (s.pushResponse ⟨{ msg with seq := r.msg.seq }, r.call⟩)
    | none => none
  | .unsolicited msg => some (s.pushResponse ⟨msg, none⟩)

end ServiceChannel

/-! ## Numbers -/

/-- The number of the `n`-th request: 1 to `2 ^ 32 - 1`, over and over. -/
def seqOf (n : Nat) : BitVec 32 := BitVec.ofNat 32 (n % 4294967295 + 1)

theorem toNat_seqOf (n : Nat) : (seqOf n).toNat = n % 4294967295 + 1 := by
  unfold seqOf
  rw [BitVec.toNat_ofNat]
  omega

/-- The counter when `n` numbers have been handed out. -/
def CounterAt (c : BitVec 32) (n : Nat) : Prop :=
  (if c.toNat = 0 then 1 else c.toNat) = n % 4294967295 + 1

theorem nextSeq_spec {c : BitVec 32} {n : Nat} (h : CounterAt c n) :
    (serviceChannelNextSeq c).1 = seqOf n ∧ CounterAt (serviceChannelNextSeq c).2 (n + 1) := by
  unfold CounterAt at h ⊢
  have hlt := c.isLt
  have hadd : ∀ d : BitVec 32, (d + 1).toNat = (d.toNat + 1) % 4294967296 := fun d =>
    BitVec.toNat_add d 1
  unfold serviceChannelNextSeq
  by_cases h0 : c = 0
  · have hz : c.toNat = 0 := by
      rw [h0]
      rfl
    rw [if_pos h0]
    rw [if_pos hz] at h
    refine ⟨BitVec.eq_of_toNat_eq ?_, ?_⟩
    · rw [toNat_seqOf, hadd, hz]
      omega
    · rw [hadd, hadd, hz]
      split <;> omega
  · have hz : c.toNat ≠ 0 := fun e => h0 (BitVec.eq_of_toNat_eq e)
    rw [if_neg h0]
    rw [if_neg hz] at h
    refine ⟨BitVec.eq_of_toNat_eq ?_, ?_⟩
    · rw [toNat_seqOf]
      exact h
    · rw [hadd]
      split <;> omega

/-- Two calls have one number if they are a multiple of the period apart. -/
theorem seqOf_eq {j k : Nat} (hjk : j ≤ k) : seqOf j = seqOf k ↔ 4294967295 ∣ k - j := by
  constructor
  · intro h
    have hn := congrArg BitVec.toNat h
    rw [toNat_seqOf, toNat_seqOf] at hn
    omega
  · intro h
    refine BitVec.eq_of_toNat_eq ?_
    rw [toNat_seqOf, toNat_seqOf]
    omega

/-! ## The invariant -/

/-- A message that belongs to a call carries its number. -/
def Numbered (n : Nat) (r : Sent) : Prop := ∀ j, r.call = some j → j < n ∧ r.msg.seq = seqOf j

/-- The call in progress has the latest number. -/
def PlaceOk (n : Nat) (calls : List (Nat × ChannelMsg × Bool)) : Requester → Prop
  | .idle => True
  | .posting call msg stray | .fullWait call msg stray => call + 1 = n ∧ (call, msg, stray) ∈ calls
  | .polling call seq stray | .emptyWait call seq stray => call + 1 = n ∧
      ∃ req, (call, req, stray) ∈ calls ∧ req.seq = seq

/-- What a response taken from the ring is to the call that took it. -/
def FateOk (calls : List (Nat × ChannelMsg × Bool)) (r : Sent) : Fate → Prop
  | .returned call => (∃ req given, (call, req, given) ∈ calls ∧ r.msg.seq = req.seq) ∧
      ∀ j, r.call = some j → j ≤ call ∧ r.msg.seq = seqOf j
  | .stray call handed => ∃ req, (call, req, handed) ∈ calls ∧ r.msg.seq ≠ req.seq
  | .polled => True

structure ChannelInv (s : ServiceChannel) : Prop where
  counter : CounterAt s.nextSeq s.numbers
  req : ∀ r ∈ s.req, Numbered s.numbers r
  taken : ∀ r ∈ s.taken, Numbered s.numbers r
  resp : ∀ r ∈ s.resp, Numbered s.numbers r
  place : PlaceOk s.numbers s.calls s.requester
  account : s.posted = s.fates.map Prod.fst ++ s.resp
  fates : ∀ r f, (r, f) ∈ s.fates → FateOk s.calls r f
  calls : (s.calls.map Prod.fst).Pairwise (· < ·) ∧
    ∀ c ∈ s.calls, c.1 < s.numbers ∧ c.2.1.seq = seqOf c.1
  results : ∀ k m, (k, some m) ∈ s.results ↔ ∃ r, (r, Fate.returned k) ∈ s.fates ∧ r.msg = m

section Steps

variable {s s' : ServiceChannel}

theorem Numbered.mono {n n' : Nat} {r : Sent} (h : Numbered n r) (hn : n ≤ n') : Numbered n' r :=
  fun j hj => ⟨Nat.lt_of_lt_of_le (h j hj).1 hn, (h j hj).2⟩

theorem init_channel (canWait : Bool) (depth : Nat) :
    ChannelInv (ServiceChannel.init canWait depth) where
  counter := rfl
  req := nofun
  taken := nofun
  resp := nofun
  place := trivial
  account := rfl
  fates := nofun
  calls := ⟨.nil, nofun⟩
  results _ _ := ⟨nofun, fun ⟨_, h, _⟩ => nomatch h⟩

theorem ChannelInv.move (h : ChannelInv s) {p : Requester} (hp : PlaceOk s.numbers s.calls p) :
    ChannelInv { s with requester := p } :=
  { h with place := hp }

theorem ChannelInv.fail (h : ChannelInv s) (call : Nat) : ChannelInv (s.finish call none) :=
  { h with
    place := trivial
    results := fun k m => by
      refine Iff.trans ?_ (h.results k m)
      simp [ServiceChannel.finish] }

theorem FateOk.mono {calls calls' : List (Nat × ChannelMsg × Bool)} {r : Sent} {f : Fate}
    (h : FateOk calls r f) (hc : calls ⊆ calls') : FateOk calls' r f := by
  cases f with
  | returned call => exact ⟨h.1.imp fun _ ⟨given, hg, he⟩ => ⟨given, hc hg, he⟩, h.2⟩
  | stray call handed => exact h.imp fun _ hg => ⟨hc hg.1, hg.2⟩
  | polled => trivial

theorem ChannelInv.pop (h : ChannelInv s) {r : Sent} {rest : List Sent} {f : Fate}
    (hr : s.resp = r :: rest) (hf : FateOk s.calls r f) (hno : ∀ k, f ≠ .returned k) :
    ChannelInv (s.popResponse r rest f) :=
  { h with
    resp := fun r' hr' => h.resp r' (hr ▸ mem_cons_of_mem _ hr')
    account := by
      rw [ServiceChannel.popResponse, h.account, hr]
      simp
    fates := fun r' f' hm => by
      rcases mem_append.mp hm with hm | hm
      · exact h.fates r' f' hm
      · cases mem_singleton.mp hm
        exact hf
    results := fun k m => by
      rw [ServiceChannel.popResponse, h.results k m]
      refine exists_congr fun r' => and_congr_left fun _ => ?_
      rw [mem_append, mem_singleton, Prod.mk.injEq]
      refine (or_iff_left ?_).symm
      rintro ⟨-, he⟩
      exact hno k he.symm }

theorem ChannelInv.succeed (h : ChannelInv s) {r : Sent} {rest : List Sent} {call : Nat}
    (hr : s.resp = r :: rest) (hcall : call + 1 = s.numbers)
    (hseq : ∃ req given, (call, req, given) ∈ s.calls ∧ r.msg.seq = req.seq) :
    ChannelInv ((s.popResponse r rest (.returned call)).finish call (some r.msg)) :=
  { h with
    place := trivial
    resp := fun r' hr' => h.resp r' (hr ▸ mem_cons_of_mem _ hr')
    account := by
      rw [ServiceChannel.finish, ServiceChannel.popResponse, h.account, hr]
      simp
    fates := fun r' f' hm => by
      rcases mem_append.mp hm with hm | hm
      · exact h.fates r' f' hm
      · cases mem_singleton.mp hm
        refine ⟨hseq, fun j hj => ?_⟩
        obtain ⟨hlt, hj⟩ := h.resp r (hr ▸ mem_cons_self ..) j hj
        exact ⟨by omega, hj⟩
    results := fun k m => by
      rw [ServiceChannel.finish, ServiceChannel.popResponse, mem_append, h.results k m]
      constructor
      · rintro (⟨r', hm, he⟩ | hm)
        · exact ⟨r', mem_append_left _ hm, he⟩
        · cases mem_singleton.mp hm
          exact ⟨r, mem_append_right _ (mem_singleton_self _), rfl⟩
      · rintro ⟨r', hm, rfl⟩
        rcases mem_append.mp hm with hm | hm
        · exact .inl ⟨r', hm, rfl⟩
        · cases mem_singleton.mp hm
          exact .inr (mem_singleton_self _) }

theorem ChannelInv.advance (h : ChannelInv s) (hs : s.advance = some s') : ChannelInv s' := by
  have hplace := h.place
  unfold ServiceChannel.advance at hs
  cases hr : s.requester with
  | posting call msg stray =>
    rw [hr] at hs hplace
    dsimp only at hs
    split at hs
    · rw [← Option.some.inj hs]
      refine { h with place := ⟨hplace.1, msg, hplace.2, rfl⟩, req := fun r hr => ?_ }
      rcases mem_append.mp hr with hr | hr
      · exact h.req r hr
      · rw [mem_singleton.mp hr]
        rintro j hj
        obtain rfl := Option.some.inj hj
        exact ⟨hplace.1 ▸ Nat.lt_succ_self _, (h.calls.2 _ hplace.2).2⟩
    · split at hs
      · rw [← Option.some.inj hs]
        exact h.move hplace
      · rw [← Option.some.inj hs]
        exact h.fail call
  | polling call seq stray =>
    rw [hr] at hs hplace
    obtain ⟨hcall, req, hgiven, rfl⟩ := hplace
    dsimp only at hs
    cases hresp : s.resp with
    | nil =>
      rw [hresp] at hs
      dsimp only at hs
      split at hs
      · rw [← Option.some.inj hs]
        have hmove := h.move (p := .emptyWait call req.seq stray) ⟨hcall, req, hgiven, rfl⟩
        rwa [hresp] at hmove
      · rw [← Option.some.inj hs]
        exact h.fail call
    | cons r rest =>
      rw [hresp] at hs
      dsimp only at hs
      split at hs
      · next hseq =>
        rw [← Option.some.inj hs]
        exact h.succeed hresp hcall ⟨req, stray, hgiven, hseq⟩
      · next hseq =>
        rw [← Option.some.inj hs]
        exact h.pop hresp ⟨req, hgiven, hseq⟩ nofun
  | idle | fullWait call msg stray | emptyWait call seq stray =>
    rw [hr] at hs
    cases hs

theorem ChannelInv.wake (h : ChannelInv s) {woken : Bool} (hs : s.wake woken = some s') :
    ChannelInv s' := by
  have hplace := h.place
  unfold ServiceChannel.wake at hs
  cases hr : s.requester with
  | fullWait call msg stray | emptyWait call seq stray =>
    rw [hr] at hs hplace
    dsimp only at hs
    split at hs
    · rw [← Option.some.inj hs]
      exact h.move hplace
    · rw [← Option.some.inj hs]
      exact h.fail call
  | idle | posting call msg stray | polling call seq stray =>
    rw [hr] at hs
    cases hs

theorem ChannelInv.push (h : ChannelInv s) {r : Sent} (hr : Numbered s.numbers r) :
    ChannelInv (s.pushResponse r) := by
  unfold ServiceChannel.pushResponse
  split
  · refine { h with resp := fun r' hr' => ?_, account := ?_ }
    · rcases mem_append.mp hr' with hr' | hr'
      · exact h.resp r' hr'
      · rw [mem_singleton.mp hr']
        exact hr
    · dsimp only
      rw [h.account, append_assoc]
  · exact h

theorem ChannelInv.number (h : ChannelInv s) :
    ChannelInv { s with
      nextSeq := (serviceChannelNextSeq s.nextSeq).2
      requester := .idle
      numbers := s.numbers + 1 } :=
  { h with
    counter := (nextSeq_spec h.counter).2
    req := fun r hr => (h.req r hr).mono (Nat.le_succ _)
    taken := fun r hr => (h.taken r hr).mono (Nat.le_succ _)
    resp := fun r hr => (h.resp r hr).mono (Nat.le_succ _)
    place := trivial
    calls := ⟨h.calls.1, fun c hc => (h.calls.2 c hc).imp_left Nat.lt_succ_of_lt⟩ }

theorem ChannelInv.start (h : ChannelInv s) {p : Requester} {msg : ChannelMsg} (stray : Bool)
    (hmsg : msg.seq = seqOf s.numbers)
    (hp : PlaceOk (s.numbers + 1) (s.calls ++ [(s.numbers, msg, stray)]) p) :
    ChannelInv { s with
      nextSeq := (serviceChannelNextSeq s.nextSeq).2
      requester := p
      calls := s.calls ++ [(s.numbers, msg, stray)]
      numbers := s.numbers + 1 } :=
  { h.number with
    place := hp
    fates := fun r f hm => (h.fates r f hm).mono (subset_append_left ..)
    calls := by
      refine ⟨?_, fun c hc => ?_⟩
      · rw [map_append, pairwise_append]
        refine ⟨h.calls.1, pairwise_singleton .., fun k hk k' hk' => ?_⟩
        obtain ⟨c, hc, rfl⟩ := mem_map.mp hk
        rw [map_singleton, mem_singleton] at hk'
        rw [hk']
        exact (h.calls.2 c hc).1
      · rcases mem_append.mp hc with hc | hc
        · exact (h.calls.2 c hc).imp_left Nat.lt_succ_of_lt
        · rw [mem_singleton.mp hc]
          exact ⟨Nat.lt_succ_self _, hmsg⟩ }

theorem ChannelInv.step (h : ChannelInv s) {e : ChannelEvent} (hs : s.step e = some s') :
    ChannelInv s' := by
  cases e with
  | nextSeq =>
    rw [ServiceChannel.step] at hs
    split at hs
    · next hidle =>
      rw [← Option.some.inj hs]
      have hnum := h.number
      rwa [← hidle] at hnum
    · cases hs
  | post msg =>
    rw [ServiceChannel.step] at hs
    split at hs
    · rw [← Option.some.inj hs]
      split
      · refine { h with req := fun r hr => ?_ }
        rcases mem_append.mp hr with hr | hr
        · exact h.req r hr
        · rw [mem_singleton.mp hr]
          exact nofun
      · exact h
    · cases hs
  | poll =>
    rw [ServiceChannel.step] at hs
    split at hs
    · cases hresp : s.resp with
      | nil =>
        rw [hresp] at hs
        rw [← Option.some.inj hs]
        exact h
      | cons r rest =>
        rw [hresp] at hs
        rw [← Option.some.inj hs]
        exact h.pop hresp trivial nofun
    · cases hs
  | call msg stray =>
    rw [ServiceChannel.step] at hs
    split at hs
    · rw [← Option.some.inj hs]
      exact h.start stray (nextSeq_spec h.counter).1
        ⟨rfl, mem_append_right _ (mem_singleton_self _)⟩
    · cases hs
  | advance => exact h.advance hs
  | wake woken => exact h.wake hs
  | take =>
    rw [ServiceChannel.step] at hs
    cases hreq : s.req with
    | nil =>
      rw [hreq] at hs
      rw [← Option.some.inj hs]
      exact h
    | cons r rest =>
      rw [hreq] at hs
      rw [← Option.some.inj hs]
      refine { h with
        req := fun r' hr' => h.req r' (hreq ▸ mem_cons_of_mem _ hr')
        taken := fun r' hr' => ?_ }
      rcases mem_append.mp hr' with hr' | hr'
      · exact h.taken r' hr'
      · rw [mem_singleton.mp hr']
        exact h.req r (hreq ▸ mem_cons_self ..)
  | respond i msg =>
    rw [ServiceChannel.step] at hs
    cases hi : s.taken[i]? with
    | none =>
      rw [hi] at hs
      cases hs
    | some r =>
      rw [hi] at hs
      rw [← Option.some.inj hs]
      exact h.push (h.taken r (mem_of_getElem? hi))
  | unsolicited msg =>
    rw [ServiceChannel.step] at hs
    rw [← Option.some.inj hs]
    exact h.push nofun

end Steps

/-! ## Runs -/

/-- What a channel is for. -/
structure ChannelSafe (s : ServiceChannel) : Prop where
  /-- Every response posted was taken once, in the order of the posts, or is still in the ring. -/
  account : s.posted = s.fates.map Prod.fst ++ s.resp
  /-- A call is listed once, with the number that its index gives it. -/
  calls : (s.calls.map Prod.fst).Pairwise (· < ·) ∧ ∀ c ∈ s.calls, c.2.1.seq = seqOf c.1
  /-- A call that returns one returns the one it took with the number of its request. -/
  own : ∀ k m, (k, some m) ∈ s.results ↔ ∃ r, (r, Fate.returned k) ∈ s.fates ∧ r.msg = m
  matching : ∀ r k, (r, Fate.returned k) ∈ s.fates →
    ∃ req given, (k, req, given) ∈ s.calls ∧ r.msg.seq = req.seq
  /-- One with another number goes to the stray handler, if the call has one. -/
  stray : ∀ r k handed, (r, Fate.stray k handed) ∈ s.fates →
    ∃ req, (k, req, handed) ∈ s.calls ∧ r.msg.seq ≠ req.seq
  /-- A response to another call is returned only a multiple of the period later. -/
  late : ∀ r k j, (r, Fate.returned k) ∈ s.fates → r.call = some j → j ≤ k ∧ 4294967295 ∣ k - j

theorem ChannelInv.safe {s : ServiceChannel} (h : ChannelInv s) : ChannelSafe s where
  account := h.account
  calls := ⟨h.calls.1, fun c hc => (h.calls.2 c hc).2⟩
  own := h.results
  matching r k hm := (h.fates r _ hm).1
  stray r k handed hm := h.fates r _ hm
  late r k j hm hj := by
    obtain ⟨⟨req, given, hreq, he⟩, hown⟩ := h.fates r _ hm
    obtain ⟨hle, hseq⟩ := hown j hj
    exact ⟨hle, (seqOf_eq hle).mp (hseq.symm.trans (he.trans (h.calls.2 _ hreq).2))⟩

/-- In every interleaving of requests, responses, timeouts and stray responses a call returns the
first response with its own number, hands the others on in order, and returns a response to another
call only if a multiple of `2 ^ 32 - 1` numbers lies between the two. -/
theorem run_channel (canWait : Bool) (depth : Nat) (es : List ChannelEvent) (s : ServiceChannel)
    (hrun : run ServiceChannel.step (.init canWait depth) es = some s) : ChannelSafe s :=
  (run_invariant (fun _ _ _ h _ hs => ChannelInv.step h hs) (init_channel canWait depth)
    (.of_forall (fun _ _ => trivial) _ _) hrun).safe

/-- An echo request. -/
def echo : ChannelMsg := ⟨1, 0, 0, 7, 0, 0, 0, 0, 0⟩

/-- A call whose request is taken and whose wait times out. -/
def timedOut : List ChannelEvent := [.call echo true, .advance, .take, .advance, .wake false]

/-- The late response is a stray of the next call, which then gets its own. -/
def strayThenOwn : List ChannelEvent :=
  timedOut ++ [.call echo true, .advance, .respond 0 echo, .advance, .take, .respond 1 echo,
    .advance]

theorem run_channel_late : ∃ s, run ServiceChannel.step (.init true 1) strayThenOwn = some s ∧
    s.results = [(0, none), (1, some { echo with seq := 2 })] ∧ ChannelSafe s := by
  obtain ⟨s, hrun, hresults⟩ : ∃ s, run ServiceChannel.step (.init true 1) strayThenOwn = some s ∧
    s.results = [(0, none), (1, some { echo with seq := 2 })] := ⟨_, rfl, by decide⟩
  exact ⟨s, hrun, hresults, run_channel true 1 strayThenOwn s hrun⟩

theorem run_numbers (n : Nat) {s : ServiceChannel} (hidle : s.requester = .idle) :
    ∃ c, run ServiceChannel.step s (List.replicate n .nextSeq) =
      some { s with nextSeq := c, numbers := s.numbers + n } := by
  induction n generalizing s with
  | zero => exact ⟨s.nextSeq, rfl⟩
  | succ n ih =>
    obtain ⟨c, hc⟩ := ih (s := { s with
      nextSeq := (serviceChannelNextSeq s.nextSeq).2, numbers := s.numbers + 1 }) hidle
    refine ⟨c, ?_⟩
    rw [replicate_succ, run_cons, ServiceChannel.step, if_pos hidle, Option.bind_some, hc]
    dsimp only
    rw [Nat.add_assoc, Nat.add_comm 1 n]

/-- After `2 ^ 32 - 2` more numbers, the next call returns the late response to the first. -/
theorem late_response_returned : ¬∀ (canWait : Bool) (depth : Nat) (es : List ChannelEvent)
    (s : ServiceChannel), run ServiceChannel.step (.init canWait depth) es = some s →
    ∀ r k j, (r, Fate.returned k) ∈ s.fates → r.call = some j → j = k := by
  intro hclaim
  obtain ⟨s₁, hs₁, hidle, hnum, hreq, hresp, htaken, hdepth⟩ : ∃ s₁,
      run ServiceChannel.step (.init true 1) timedOut = some s₁ ∧ s₁.requester = .idle ∧
        s₁.numbers = 1 ∧ s₁.req = [] ∧ s₁.resp = [] ∧
        s₁.taken = [⟨stamp echo 1, some 0⟩] ∧ s₁.depth = 1 :=
    ⟨_, rfl, rfl, rfl, rfl, rfl, rfl, rfl⟩
  have hinv₁ : ChannelInv s₁ :=
    run_invariant (fun _ _ _ h _ hs => ChannelInv.step h hs) (init_channel true 1)
      (.of_forall (fun _ _ => trivial) _ _) hs₁
  obtain ⟨c, hs₂⟩ := run_numbers 4294967294 hidle
  have hinv₂ := run_invariant (fun _ _ _ h _ hs => ChannelInv.step h hs) hinv₁
    (.of_forall (fun _ _ => trivial) _ _) hs₂
  have hseq : (serviceChannelNextSeq c).1 = 1 := by
    have hspec := (nextSeq_spec hinv₂.counter).1
    dsimp only at hspec
    rw [hnum] at hspec
    exact hspec
  obtain ⟨s₂, hs₂'⟩ : ∃ s₂, s₂ =
      { s₁ with nextSeq := c, numbers := s₁.numbers + 4294967294 } := ⟨_, rfl⟩
  rw [← hs₂'] at hs₂
  have hagain : ∃ s₃, run ServiceChannel.step s₂
      [.call echo true, .advance, .respond 0 echo, .advance] = some s₃ ∧
        ((⟨{ echo with seq := 1 }, some 0⟩ : Sent), Fate.returned 4294967295) ∈ s₃.fates := by
    subst hs₂'
    simp only [run_cons, run_nil, ServiceChannel.step, ServiceChannel.advance,
      ServiceChannel.pushResponse, hidle, hreq, hresp, htaken, hdepth, hseq, if_true,
      Option.bind_some, length_nil, Nat.zero_lt_one, List.getElem?_cons_zero, stamp]
    refine ⟨_, rfl, ?_⟩
    rw [hnum]
    exact mem_append_right _ (mem_singleton_self _)
  obtain ⟨s₃, hs₃, hfate⟩ := hagain
  have hrun : run ServiceChannel.step (.init true 1)
      (timedOut ++ (List.replicate 4294967294 .nextSeq ++
        [.call echo true, .advance, .respond 0 echo, .advance])) = some s₃ := by
    rw [run_append, hs₁, Option.bind_some, run_append, hs₂, Option.bind_some, hs₃]
  have habsurd := hclaim true 1 _ s₃ hrun _ 4294967295 0 hfate rfl
  cases habsurd

end Microgarbage.Io
