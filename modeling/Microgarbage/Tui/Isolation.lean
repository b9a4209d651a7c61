import Microgarbage.Tui.Service

/-!
# Sessions of other VMs

What a call does to the sessions and the terminals of the other VMs: a step lemma for each
operation, and the condition under which a whole run keeps the VMs apart.
-/

namespace Microgarbage.Tui

open Lib
open Function (update update_of_ne update_self)

namespace TuiHost

variable {n : Nat} {h : TuiHost n} {vm : VmId}

/-! ## Looking up sessions -/

theorem sessionFind_owner {i : Fin (n + 1)} (hf : h.sessionFind vm = some i) :
    (h.pool i).ownerVm = some vm := by
  simpa using List.find?_some hf

theorem sessionFind_eq_none (hf : h.sessionFind vm = none) (i : Fin (n + 1)) :
    (h.pool i).ownerVm ≠ some vm := by
  have := List.find?_eq_none.mp hf i (List.mem_finRange i)
  simpa using this

/-- No VM has two sessions. -/
def OwnersUnique (h : TuiHost n) : Prop :=
  ∀ i j w, (h.pool i).ownerVm = some w → (h.pool j).ownerVm = some w → i = j

theorem OwnersUnique.find (hu : OwnersUnique h) {i : Fin (n + 1)}
    (hi : (h.pool i).ownerVm = some vm) : h.sessionFind vm = some i := by
  cases hf : h.sessionFind vm with
  | none => exact absurd hi (sessionFind_eq_none hf i)
  | some j => rw [hu j i vm (sessionFind_owner hf) hi]

theorem curIndex_of_find {i : Fin (n + 1)} (hf : h.sessionFind vm = some i) :
    h.curIndex vm = i := by
  unfold curIndex
  rw [hf]
  rfl

theorem curSession_owner : (h.curSession vm).ownerVm = some vm ↔ ∃ i, h.sessionFind vm = some i := by
  constructor
  · intro ho
    cases hf : h.sessionFind vm with
    | none => exact absurd ho (sessionFind_eq_none hf _)
    | some i => exact ⟨i, rfl⟩
  · rintro ⟨i, hf⟩
    unfold curSession
    rw [curIndex_of_find hf]
    exact sessionFind_owner hf

variable {h' : TuiHost n}

theorem sessionFind_congr (ho : ∀ i, (h'.pool i).ownerVm = (h.pool i).ownerVm) :
    h'.sessionFind vm = h.sessionFind vm := by
  unfold sessionFind
  congr 1
  funext i
  rw [ho]

section SetCur

variable {f : VmTuiSession → VmTuiSession}

theorem setCur_pool_self : (h.setCur vm f).pool (h.curIndex vm) = f (h.curSession vm) :=
  update_self ..

theorem setCur_pool_ne {i : Fin (n + 1)} (hi : i ≠ h.curIndex vm) :
    (h.setCur vm f).pool i = h.pool i := update_of_ne hi ..

theorem setCur_owner (hf : (f (h.curSession vm)).ownerVm = (h.curSession vm).ownerVm)
    (i : Fin (n + 1)) : ((h.setCur vm f).pool i).ownerVm = (h.pool i).ownerVm := by
  by_cases hi : i = h.curIndex vm
  · rw [hi, setCur_pool_self]
    exact hf
  · rw [setCur_pool_ne hi]

theorem setCur_curIndex (hf : (f (h.curSession vm)).ownerVm = (h.curSession vm).ownerVm) :
    (h.setCur vm f).curIndex vm = h.curIndex vm := by
  unfold curIndex
  rw [sessionFind_congr (setCur_owner hf)]

end SetCur

/-! ## Terminals -/

/-- What reaches the terminal of `vm`: its transport, or the host's own output if it has none. -/
def OwnPort (h : TuiHost n) (vm : VmId) (p : Port) : Prop :=
  match h.transportForVm vm with
  | some t => p = .transport t
  | none => ∀ t, p ≠ .transport t

/-- The VM's transport, if it has one, supports the operation. -/
def Offers (h : TuiHost n) (vm : VmId) (op : TermOp) : Prop :=
  ∀ t, h.transportForVm vm = some t → h.offers t op = true

theorem emit_of_session (hf : ∃ i, h.sessionFind vm = some i) (c : TermCall) :
    h.emit vm c = (h.port (h.transportForVm vm) c.op, c) := by
  unfold emit resolveTransport
  rw [curSession_owner.mpr hf]

theorem port_offered {t : TransportId} {op : TermOp} (ho : h.offers t op = true) :
    h.port (some t) op = .transport t := by
  unfold port
  rw [Option.filter_some, if_pos ho]

/-- Without the function a call goes to the host's output or the default transport. -/
theorem port_fallback {t : Option TransportId} {op : TermOp}
    (ht : ∀ a, t = some a → h.offers a op = false) {a : TransportId}
    (ha : h.port t op = .transport a) : h.defaultTransport = some a ∧ h.offers a op = true := by
  have hnone : t.filter (h.offers · op) = none := by
    rw [Option.filter_eq_none_iff]
    intro b hb
    rw [ht b hb]
    exact Bool.false_ne_true
  have hdefault : (match h.defaultTransport.filter (h.offers · op) with
      | some d => Port.transport d
      | none => .console) = .transport a → h.defaultTransport = some a ∧ h.offers a op = true := by
    intro hd
    split at hd
    · rename_i d hfilter
      cases hd
      exact Option.filter_eq_some_iff.mp hfilter
    · cases hd
  unfold port at ha
  rw [hnone] at ha
  cases op with
  | write =>
    dsimp only at ha
    split at ha <;> cases ha
  | readNonblock => exact hdefault ha
  | setRaw => exact hdefault ha

theorem ownPort_port {t : Option TransportId} (ht : t = h.transportForVm vm ∨ t = h.defaultTransport)
    (op : TermOp) : h.OwnPort vm (h.port t op) ↔ t = h.transportForVm vm ∧ h.Offers vm op := by
  have hdefault : h.transportForVm vm = none → h.defaultTransport = none := by
    unfold transportForVm
    intro hn
    split at hn
    · cases hn
    · exact hn
  unfold OwnPort Offers
  cases hv : h.transportForVm vm with
  | none =>
    obtain rfl : t = none := by
      rcases ht with ht | ht
      · exact ht.trans hv
      · exact ht.trans (hdefault hv)
    refine ⟨fun _ => ⟨rfl, fun a ha => by cases ha⟩, fun _ a ha => ?_⟩
    have := (port_fallback (fun a ha => by cases ha) ha).1
    rw [hdefault hv] at this
    cases this
  | some a =>
    dsimp only
    rw [hv] at ht
    constructor
    · intro hp
      cases t with
      | none =>
        obtain ⟨hd, -⟩ := port_fallback (fun a ha => by cases ha) hp
        rcases ht with ht | ht
        · cases ht
        · rw [hd] at ht
          cases ht
      | some b =>
        cases ho : h.offers b op with
        | true =>
          rw [port_offered ho] at hp
          cases hp
          refine ⟨rfl, fun c hc => ?_⟩
          cases hc
          exact ho
        | false =>
          obtain ⟨hd, hoa⟩ := port_fallback (fun c hc => by cases hc; exact ho) hp
          exfalso
          have hba : b = a := by
            rcases ht with ht | ht
            · cases ht
              rfl
            · rw [hd] at ht
              cases ht
              rfl
          rw [hba, hoa] at ho
          cases ho
    · rintro ⟨rfl, ho⟩
      exact port_offered (ho a rfl)

/-! ## Shutting down -/

/-- A session after its shutdown, up to the flags. -/
def closed (s : VmTuiSession) : VmTuiSession :=
  { s with rawModeWeSet := false, initialized := false, ownerVm := none }

theorem doShutdown_pool (hu : OwnersUnique h) {i : Fin (n + 1)} (hf : h.sessionFind vm = some i)
    (hinit : (h.pool i).initialized = true) :
    (h.doShutdown vm).2.pool =
      update (update h.pool i (closed (h.pool i))) 0
        { update h.pool i (closed (h.pool i)) 0 with flags := 0 } := by
  have hcur : h.curIndex vm = i := curIndex_of_find hf
  have hsess : h.curSession vm = h.pool i := congrArg h.pool hcur
  unfold doShutdown
  dsimp only
  rw [if_neg (by simp [hsess, hinit])]
  generalize hh₁ : h.setCur vm (fun s => { s with rawModeWeSet := false, initialized := false }) = h₁
  have hcur₁ : h₁.curIndex vm = i := by
    rw [← hh₁, setCur_curIndex rfl, hcur]
  generalize hh₂ : h₁.setCur vm (fun s => { s with ownerVm := none }) = h₂
  have hpool₂ : h₂.pool = update h.pool i (closed (h.pool i)) := by
    rw [← hh₂]
    unfold setCur curSession
    rw [hcur₁, ← hh₁]
    unfold setCur
    rw [hcur, hsess]
    dsimp only
    rw [update_self, Function.update_idem]
    rfl
  have hfind₂ : h₂.sessionFind vm = none := by
    unfold sessionFind
    rw [List.find?_eq_none]
    intro j _ hj
    rw [decide_eq_true_eq, hpool₂] at hj
    by_cases hji : j = i
    · rw [hji, update_self] at hj
      cases hj
    · rw [update_of_ne hji] at hj
      exact hji (hu j i vm hj (sessionFind_owner hf))
  have hcur₂ : h₂.curIndex vm = 0 := by
    unfold curIndex
    rw [hfind₂]
    rfl
  unfold setCur curSession
  rw [hcur₂, hpool₂]

theorem doShutdown_idle {i : Fin (n + 1)} (hf : h.sessionFind vm = some i)
    (hinit : (h.pool i).initialized = false) : h.doShutdown vm = ([], h) := by
  have hsess : h.curSession vm = h.pool i := congrArg h.pool (curIndex_of_find hf)
  unfold doShutdown
  dsimp only
  rw [hsess, if_pos hinit]

theorem doShutdown_sent {i : Fin (n + 1)} (hf : h.sessionFind vm = some i)
    (hinit : (h.pool i).initialized = true) :
    (h.doShutdown vm).1 =
      (restoreWrites (h.pool i).flags).map
          (fun bytes => (h.port (h.transportForVm vm) .write, .write bytes)) ++
        if (h.pool i).rawModeWeSet then [(h.port (h.transportForVm vm) .setRaw, .setRaw false)]
        else [] := by
  have hsess : h.curSession vm = h.pool i := congrArg h.pool (curIndex_of_find hf)
  unfold doShutdown
  dsimp only
  rw [hsess, if_neg (by simp [hinit])]
  simp only [emit_of_session ⟨i, hf⟩]
  rfl

/-- Sessions lose their owners and get no new ones. -/
def OwnersShrink (h h' : TuiHost n) : Prop :=
  ∀ i, (h'.pool i).ownerVm = (h.pool i).ownerVm ∨ (h'.pool i).ownerVm = none

theorem OwnersUnique.shrink (hu : OwnersUnique h) (hs : OwnersShrink h h') : OwnersUnique h' := by
  intro i j w hi hj
  rcases hs i with hi' | hi'
  · rcases hs j with hj' | hj'
    · exact hu i j w (hi' ▸ hi) (hj' ▸ hj)
    · rw [hj'] at hj
      cases hj
  · rw [hi'] at hi
    cases hi

theorem doShutdown_shrink (hu : OwnersUnique h) {i : Fin (n + 1)} (hf : h.sessionFind vm = some i) :
    OwnersShrink h (h.doShutdown vm).2 := by
  intro j
  cases hinit : (h.pool i).initialized with
  | false =>
    rw [doShutdown_idle hf hinit]
    exact .inl rfl
  | true =>
    have hclosed : (update h.pool i (closed (h.pool i)) j).ownerVm = (h.pool j).ownerVm ∨
        (update h.pool i (closed (h.pool i)) j).ownerVm = none := by
      by_cases hji : j = i
      · rw [hji, update_self]
        exact .inr rfl
      · rw [update_of_ne hji]
        exact .inl rfl
    rw [doShutdown_pool hu hf hinit]
    by_cases hj : j = 0
    · subst hj
      rw [update_self]
      exact hclosed
    · rw [update_of_ne hj]
      exact hclosed

/-! ## One step -/

/-- An operation for `vm` changes no session of another VM and reaches no other terminal. -/
structure Isolated (h : TuiHost n) (vm : VmId) (r : List (Port × TermCall) × TuiHost n) : Prop where
  sessions : ∀ i w, (h.pool i).ownerVm = some w → w ≠ vm → r.2.pool i = h.pool i
  terminal : ∀ e ∈ r.1, h.OwnPort vm e.1

/-- The session of `vm` can be shut down over transport `t`: that is the transport of `vm`, it has
the functions that are needed, and the first entry of the pool belongs to `vm`, to nobody, or has no
flags. -/
def ShutdownAlone (h : TuiHost n) (vm : VmId) (t : Option TransportId) : Prop :=
  ∀ i, h.sessionFind vm = some i → (h.pool i).initialized = true →
    (i = 0 ∨ ∀ w, (h.pool 0).ownerVm = some w → (h.pool 0).flags = 0) ∧
      t = h.transportForVm vm ∧ h.Offers vm .write ∧
        ((h.pool i).rawModeWeSet = true → h.Offers vm .setRaw)

theorem isolated_refl : Isolated h vm ([], h) := by
  refine ⟨fun _ _ _ _ => rfl, fun e he => ?_⟩
  cases he

theorem restoreWrites_ne_nil (flags : BitVec 32) : restoreWrites flags ≠ [] := by
  intro hnil
  have hlast := (List.append_eq_nil_iff.mp hnil).2
  split at hlast <;> cases hlast

/-- Everything that a list of writes sends reaches the VM's own terminal, unless it is empty. -/
theorem forall_map_own {α : Type*} {xs : List α} {g : α → Port × TermCall} {P : Prop}
    (hp : ∀ x, h.OwnPort vm (g x).1 ↔ P) :
    (∀ e ∈ xs.map g, h.OwnPort vm e.1) ↔ (xs ≠ [] → P) := by
  constructor
  · intro hall hne
    obtain ⟨x, hx⟩ := List.exists_mem_of_ne_nil xs hne
    exact (hp x).mp (hall _ (List.mem_map_of_mem hx))
  · intro himp e he
    obtain ⟨x, hx, rfl⟩ := List.mem_map.mp he
    exact (hp x).mpr (himp (List.ne_nil_of_mem hx))

theorem forall_if_own {b : Bool} {e : Port × TermCall} {P : Prop} (hp : h.OwnPort vm e.1 ↔ P) :
    (∀ e' ∈ (if b then [e] else []), h.OwnPort vm e'.1) ↔ (b = true → P) := by
  cases b <;> simp [hp]

theorem shutdown_isolated_iff (hu : OwnersUnique h) {i : Fin (n + 1)}
    (hf : h.sessionFind vm = some i) (tiles : Tiles) (bound : VmId → Option TransportId)
    (hh' : h' = { h with tiles := tiles, transportByVm := bound })
    (ht : h'.transportForVm vm = h.transportForVm vm ∨ h'.transportForVm vm = h.defaultTransport) :
    Isolated h vm (h'.doShutdown vm) ↔ h.ShutdownAlone vm (h'.transportForVm vm) := by
  have hf' : h'.sessionFind vm = some i := by rw [hh']; exact hf
  have hu' : OwnersUnique h' := by rw [hh']; exact hu
  have hpool' : h'.pool = h.pool := by rw [hh']
  have hport : ∀ t op, h'.port t op = h.port t op := by
    intro t op
    rw [hh']
    rfl
  cases hinit : (h.pool i).initialized with
  | false =>
    rw [doShutdown_idle hf' (hpool' ▸ hinit)]
    refine iff_of_true ⟨fun j w _ _ => ?_, fun e he => ?_⟩ fun j hj hji => ?_
    · rw [hpool']
    · cases he
    · rw [hf] at hj
      cases hj
      rw [hinit] at hji
      cases hji
  | true =>
    have hpool := doShutdown_pool hu' hf' (hpool' ▸ hinit)
    have hsent := doShutdown_sent hf' (hpool' ▸ hinit)
    rw [hpool'] at hpool hsent
    simp only [hport] at hsent
    have hsessions : (∀ j w, (h.pool j).ownerVm = some w → w ≠ vm →
        (h'.doShutdown vm).2.pool j = h.pool j) ↔
          (i = 0 ∨ ∀ w, (h.pool 0).ownerVm = some w → (h.pool 0).flags = 0) := by
      rw [hpool]
      by_cases hi : i = 0
      · refine iff_of_true (fun j w hj hw => ?_) (.inl hi)
        have hji : j ≠ i := by
          rintro rfl
          rw [sessionFind_owner hf, Option.some.injEq] at hj
          exact hw hj.symm
        rw [update_of_ne (hi ▸ hji), update_of_ne hji]
      · have hzero : update h.pool i (closed (h.pool i)) 0 = h.pool 0 :=
          update_of_ne (Ne.symm hi) ..
        rw [hzero]
        constructor
        · intro hall
          refine .inr fun w hw => ?_
          have hne : w ≠ vm := by
            rintro rfl
            exact hi (hu i 0 w (sessionFind_owner hf) hw)
          have := congrArg VmTuiSession.flags (hall 0 w hw hne)
          rw [update_self] at this
          exact this.symm
        · rintro (h0 | hflags) j w hj hw
          · exact absurd h0 hi
          have hji : j ≠ i := by
            rintro rfl
            rw [sessionFind_owner hf, Option.some.injEq] at hj
            exact hw hj.symm
          by_cases hj0 : j = 0
          · subst hj0
            rw [update_self, ← hflags w hj]
          · rw [update_of_ne hj0, update_of_ne hji]
    have hterminal : (∀ e ∈ (h'.doShutdown vm).1, h.OwnPort vm e.1) ↔
        h'.transportForVm vm = h.transportForVm vm ∧ h.Offers vm .write ∧
          ((h.pool i).rawModeWeSet = true → h.Offers vm .setRaw) := by
      rw [hsent, List.forall_mem_append, forall_map_own fun _ => ownPort_port ht .write,
        forall_if_own (ownPort_port ht .setRaw)]
      constructor
      · rintro ⟨hwrite, hraw⟩
        obtain ⟨heq, hoff⟩ := hwrite (restoreWrites_ne_nil _)
        exact ⟨heq, hoff, fun hr => (hraw hr).2⟩
      · rintro ⟨heq, hoff, hraw⟩
        exact ⟨fun _ => ⟨heq, hoff⟩, fun hr => ⟨heq, hraw hr⟩⟩
    constructor
    · intro hiso j hj _
      rw [hf] at hj
      cases hj
      exact ⟨hsessions.mp hiso.sessions, hterminal.mp hiso.terminal⟩
    · intro halone
      obtain ⟨h₁, h₂⟩ := halone i hf hinit
      exact ⟨hsessions.mpr h₁, hterminal.mpr h₂⟩

theorem shutdownAlone_of_none (hf : h.sessionFind vm = none) (t : Option TransportId) :
    h.ShutdownAlone vm t := by
  intro i hi
  rw [hf] at hi
  cases hi

theorem release_isolated_iff (hu : OwnersUnique h) (bound : VmId → Option TransportId)
    (hh' : h' = { h with transportByVm := bound })
    (ht : h'.transportForVm vm = h.transportForVm vm ∨ h'.transportForVm vm = h.defaultTransport) :
    Isolated h vm (h'.release vm) ↔ h.ShutdownAlone vm (h'.transportForVm vm) := by
  subst hh'
  unfold release
  dsimp only
  cases hf : h.sessionFind vm with
  | none =>
    have hnone : ∀ t : Tiles, ({ h with tiles := t, transportByVm := bound } : TuiHost n).sessionFind vm
        = none := fun t => hf
    rw [hnone, if_neg (by simp)]
    refine iff_of_true ⟨fun _ _ _ _ => rfl, fun e he => ?_⟩ (shutdownAlone_of_none hf _)
    cases he
  | some i =>
    have hsome : ∀ t : Tiles, ({ h with tiles := t, transportByVm := bound } : TuiHost n).sessionFind vm
        = some i := fun t => hf
    rw [if_pos ⟨by rw [hsome]; rfl, curSession_owner.mpr ⟨i, hsome _⟩⟩]
    exact shutdown_isolated_iff hu hf _ bound rfl ht

theorem release_shrink (hu : OwnersUnique h) : OwnersShrink h (h.release vm).2 := by
  unfold release
  dsimp only
  split
  · rename_i hsome
    obtain ⟨i, hi⟩ := curSession_owner.mp hsome.2
    have hu' : OwnersUnique ({ h with tiles := tileReleaseForVm h.tiles vm } : TuiHost n) := hu
    exact doShutdown_shrink hu' hi
  · exact fun i => .inl rfl

theorem setCur_isolated {i : Fin (n + 1)} (hf : h.sessionFind vm = some i)
    (f : VmTuiSession → VmTuiSession) (j : Fin (n + 1)) (w : VmId)
    (hj : (h.pool j).ownerVm = some w) (hw : w ≠ vm) : (h.setCur vm f).pool j = h.pool j := by
  refine setCur_pool_ne ?_
  rintro rfl
  rw [curIndex_of_find hf, sessionFind_owner hf, Option.some.injEq] at hj
  exact hw hj.symm

/-! ## Opening a session -/

theorem sessionAlloc_spec (hu : OwnersUnique h) {i : Fin (n + 1)}
    (ha : h.sessionAlloc vm = some (i, h')) :
    (∀ w, (h.pool i).ownerVm = some w → w = vm) ∧ (∀ j, (h.pool j).ownerVm = some vm → j = i) ∧
      h' = { h with pool := h'.pool } ∧ ∀ j, j ≠ i → h'.pool j = h.pool j := by
  unfold sessionAlloc at ha
  cases hf : h.sessionFind vm with
  | some k =>
    rw [hf] at ha
    cases ha
    have hi := sessionFind_owner hf
    refine ⟨fun w hw => ?_, fun j hj => hu j i vm hj hi, rfl, fun _ _ => rfl⟩
    rw [hi, Option.some.injEq] at hw
    exact hw.symm
  | none =>
    rw [hf] at ha
    obtain ⟨k, hk, hx⟩ := Option.map_eq_some_iff.mp ha
    cases hx
    have hfree : (h.pool i).ownerVm = none := by simpa using List.find?_some hk
    refine ⟨fun w hw => ?_, fun j hj => absurd hj (sessionFind_eq_none hf j), rfl, fun j hj => ?_⟩
    · rw [hfree] at hw
      cases hw
    · exact update_of_ne hj ..

theorem doInit_spec (hu : OwnersUnique h) {i : Fin (n + 1)} (ha : h.sessionAlloc vm = some (i, h'))
    (rows cols : Int) (flags : BitVec 32) (rawOk : Bool) :
    (∀ j, j ≠ i → (h.doInit vm rows cols flags rawOk).host.pool j = h.pool j) ∧
      ((h.doInit vm rows cols flags rawOk).host.pool i).ownerVm = some vm ∧
      (h.doInit vm rows cols flags rawOk).sent =
        (setupWrites flags).map
            (fun bytes => (h.port (h.transportForVm vm) .write, .write bytes)) ++
          if useRaw flags then [(h.port (h.transportForVm vm) .setRaw, .setRaw true)] else [] := by
  obtain ⟨-, hother, hh', hpool⟩ := sessionAlloc_spec hu ha
  unfold doInit
  rw [ha]
  dsimp only
  generalize hh₁ : ({ h' with
    pool := update h'.pool i { h'.pool i with ownerVm := some vm } } : TuiHost n) = h₁
  have hne₁ : ∀ j, j ≠ i → h₁.pool j = h.pool j := by
    intro j hj
    rw [← hh₁, ← hpool j hj]
    exact update_of_ne hj ..
  have hown₁ : (h₁.pool i).ownerVm = some vm := by
    rw [← hh₁]
    dsimp only
    rw [update_self]
  have hfind₁ : h₁.sessionFind vm = some i := by
    cases hf : h₁.sessionFind vm with
    | none => exact absurd hown₁ (sessionFind_eq_none hf i)
    | some k =>
      by_cases hk : k = i
      · rw [hk]
      · have hok := sessionFind_owner hf
        rw [hne₁ k hk] at hok
        exact absurd (hother k hok) hk
  have hcur₁ := curIndex_of_find hfind₁
  generalize hh₂ : h₁.setCur vm (fun s => initSession s vm rows cols flags) = h₂
  have howner₂ : ∀ j, (h₂.pool j).ownerVm = (h₁.pool j).ownerVm := by
    intro j
    rw [← hh₂]
    refine setCur_owner ?_ j
    unfold curSession
    rw [hcur₁, hown₁]
    rfl
  have hfind₂ : h₂.sessionFind vm = some i := (sessionFind_congr howner₂).trans hfind₁
  have hcur₂ := curIndex_of_find hfind₂
  have hne₂ : ∀ j, j ≠ i → h₂.pool j = h.pool j := by
    intro j hj
    rw [← hne₁ j hj, ← hh₂]
    exact setCur_pool_ne (hcur₁ ▸ hj)
  have hport : ∀ op, h₂.port (h₂.transportForVm vm) op = h.port (h.transportForVm vm) op := by
    intro op
    rw [← hh₂, ← hh₁, hh']
    rfl
  refine ⟨fun j hj => ?_, ?_, ?_⟩
  · rw [← hne₂ j hj]
    exact setCur_pool_ne (hcur₂ ▸ hj)
  · rw [setCur_owner rfl, howner₂, hown₁]
  · simp only [emit_of_session ⟨i, hfind₂⟩, ← hport]
    rfl

/-- What `init` needs of the VM's transport. -/
def InitAlone (h : TuiHost n) (vm : VmId) (flags : BitVec 32) : Prop :=
  (h.sessionAlloc vm).isSome → (setupWrites flags ≠ [] → h.Offers vm .write) ∧
    (useRaw flags = true → h.Offers vm .setRaw)

theorem init_isolated_iff (hu : OwnersUnique h) (rows cols : Int) (flags : BitVec 32)
    (rawOk : Bool) : Isolated h vm ((h.doInit vm rows cols flags rawOk).sent,
        (h.doInit vm rows cols flags rawOk).host) ↔ h.InitAlone vm flags := by
  unfold InitAlone
  cases ha : h.sessionAlloc vm with
  | none =>
    have hbusy : h.doInit vm rows cols flags rawOk = ⟨-vmEbusy, none, [], h⟩ := by
      unfold doInit
      rw [ha]
    rw [hbusy]
    exact iff_of_true isolated_refl fun hs => by cases hs
  | some x =>
    obtain ⟨i, h'⟩ := x
    obtain ⟨hmine, -, -, -⟩ := sessionAlloc_spec hu ha
    obtain ⟨hne, -, hsent⟩ := doInit_spec hu ha rows cols flags rawOk
    have hsessions : ∀ j w, (h.pool j).ownerVm = some w → w ≠ vm →
        (h.doInit vm rows cols flags rawOk).host.pool j = h.pool j := by
      intro j w hj hw
      refine hne j ?_
      rintro rfl
      exact hw (hmine w hj)
    have hown : ∀ op, h.OwnPort vm (h.port (h.transportForVm vm) op) ↔ h.Offers vm op := by
      intro op
      rw [ownPort_port (.inl rfl)]
      exact and_iff_right rfl
    have hterminal : (∀ e ∈ (h.doInit vm rows cols flags rawOk).sent, h.OwnPort vm e.1) ↔
        (setupWrites flags ≠ [] → h.Offers vm .write) ∧ (useRaw flags = true → h.Offers vm .setRaw) := by
      rw [hsent, List.forall_mem_append, forall_map_own fun _ => hown .write,
        forall_if_own (hown .setRaw)]
    exact ⟨fun hiso _ => hterminal.mp hiso.terminal,
      fun halone => ⟨hsessions, hterminal.mpr (halone rfl)⟩⟩

theorem init_unique (hu : OwnersUnique h) (rows cols : Int) (flags : BitVec 32) (rawOk : Bool) :
    OwnersUnique (h.doInit vm rows cols flags rawOk).host := by
  cases ha : h.sessionAlloc vm with
  | none =>
    have hbusy : h.doInit vm rows cols flags rawOk = ⟨-vmEbusy, none, [], h⟩ := by
      unfold doInit
      rw [ha]
    rw [hbusy]
    exact hu
  | some x =>
    obtain ⟨i, h'⟩ := x
    obtain ⟨-, hother, -, -⟩ := sessionAlloc_spec hu ha
    obtain ⟨hne, hown, -⟩ := doInit_spec hu ha rows cols flags rawOk
    have key : ∀ j w, ((h.doInit vm rows cols flags rawOk).host.pool j).ownerVm = some w →
        j = i ∧ w = vm ∨ j ≠ i ∧ w ≠ vm ∧ (h.pool j).ownerVm = some w := by
      intro j w hj
      by_cases hji : j = i
      · subst hji
        rw [hown, Option.some.injEq] at hj
        exact .inl ⟨rfl, hj.symm⟩
      · rw [hne j hji] at hj
        refine .inr ⟨hji, ?_, hj⟩
        rintro rfl
        exact hji (hother j hj)
    intro j k w hj hk
    rcases key j w hj with ⟨rfl, rfl⟩ | ⟨-, hw, hj'⟩
    · rcases key k _ hk with ⟨hk, -⟩ | ⟨-, hw, -⟩
      · exact hk.symm
      · exact absurd rfl hw
    · rcases key k w hk with ⟨-, hw'⟩ | ⟨-, -, hk'⟩
      · exact absurd hw' hw
      · exact hu j k w hj' hk'

/-! ## The other calls -/

/-- The calls of `vm` reach the terminal of `vm` if its transport supports them. -/
theorem emit_own {i : Fin (n + 1)} (hf : h.sessionFind vm = some i) (c : TermCall) :
    h.OwnPort vm (h.emit vm c).1 ↔ h.Offers vm c.op := by
  rw [emit_of_session ⟨i, hf⟩, ownPort_port (.inl rfl)]
  exact and_iff_right rfl

/-- The condition of a call that sends something when it has a session. -/
theorem sending_isolated_iff {i : Fin (n + 1)} (hf : h.sessionFind vm = some i) (c : TermCall)
    (f : VmTuiSession → VmTuiSession) :
    Isolated h vm ([h.emit vm c], h.setCur vm f) ↔ h.Offers vm c.op := by
  constructor
  · exact fun hiso => (emit_own hf c).mp (hiso.terminal _ (List.mem_singleton_self _))
  · intro ho
    refine ⟨setCur_isolated hf f, fun e he => ?_⟩
    rw [List.mem_singleton.mp he]
    exact (emit_own hf c).mpr ho

theorem quiet_isolated {i : Fin (n + 1)} (hf : h.sessionFind vm = some i)
    (f : VmTuiSession → VmTuiSession) : Isolated h vm ([], h.setCur vm f) := by
  refine ⟨setCur_isolated hf f, fun e he => ?_⟩
  cases he

theorem present_isolated_iff (p : VmTuiSession → List Byte × VmTuiSession) :
    Isolated h vm ((h.handlePresent vm p).sent, (h.handlePresent vm p).host) ↔
      ((h.curSession vm).ownerVm = some vm → h.Offers vm .write) := by
  unfold handlePresent
  by_cases ho : (h.curSession vm).ownerVm = some vm
  · obtain ⟨i, hf⟩ := curSession_owner.mp ho
    rw [if_neg (not_not.mpr ho), forall_prop_of_true ho]
    dsimp only
    exact sending_isolated_iff hf _ _
  · rw [if_pos ho]
    exact iff_of_true isolated_refl fun h' => absurd h' ho

theorem poll_isolated_iff (input : List Byte) (mapped : Bool) :
    Isolated h vm ((h.handlePollEvent vm input mapped).sent,
        (h.handlePollEvent vm input mapped).host) ↔
      ((h.curSession vm).ownerVm = some vm → (h.curSession vm).input.avail ≠ 0 →
        h.Offers vm .readNonblock) := by
  unfold handlePollEvent
  by_cases ho : (h.curSession vm).ownerVm = some vm
  · obtain ⟨i, hf⟩ := curSession_owner.mp ho
    rw [if_neg (not_not.mpr ho), forall_prop_of_true ho]
    dsimp only
    by_cases ha : (h.curSession vm).input.avail = 0
    · rw [if_pos ha]
      exact iff_of_true (quiet_isolated hf _) fun h' => absurd ha h'
    · rw [if_neg ha, forall_prop_of_true ha]
      exact sending_isolated_iff hf .read _
  · rw [if_pos ho]
    exact iff_of_true isolated_refl fun h' => absurd h' ho

theorem flushDraw_isolated (buf : List Byte) (mapped : Bool) :
    Isolated h vm ((h.handleFlushDraw vm buf mapped).sent,
      (h.handleFlushDraw vm buf mapped).host) := by
  unfold handleFlushDraw
  by_cases ho : (h.curSession vm).ownerVm = some vm
  · obtain ⟨i, hf⟩ := curSession_owner.mp ho
    rw [if_neg (not_not.mpr ho)]
    split
    · exact isolated_refl
    · dsimp only
      exact quiet_isolated hf _
  · rw [if_pos ho]
    exact isolated_refl

/-- Without a session a tile call does not touch the session it looked at. -/
theorem setCur_eq_self {s : VmTuiSession} (hs : s = h.curSession vm) :
    h.setCur vm (fun _ => s) = h := by
  subst hs
  unfold setCur curSession
  rw [Function.update_eq_self]

theorem tile_isolated (call : TileCall) :
    Isolated h vm ((h.call vm (.tile call)).sent, (h.call vm (.tile call)).host) := by
  unfold TuiHost.call
  dsimp only
  refine ⟨fun j w hj hw => ?_, fun e he => by cases he⟩
  by_cases ho : (h.curSession vm).ownerVm = some vm
  · obtain ⟨i, hf⟩ := curSession_owner.mp ho
    dsimp only
    exact setCur_isolated hf _ j w hj hw
  · have hbusy : tileCall h.tiles vm (h.curSession vm) call = (-vmEbusy, h.tiles, h.curSession vm) :=
      if_pos ho
    rw [hbusy]
    exact congrArg (·.pool j) (setCur_eq_self rfl)

/-- The condition of a call: the transport of `vm` supports what the call sends. -/
def CallAlone (h : TuiHost n) (vm : VmId) : TuiCall → Prop
  | .init _ _ flags _ => h.InitAlone vm flags
  | .shutdown => h.ShutdownAlone vm (h.transportForVm vm)
  | .present | .presentDiff => (h.curSession vm).ownerVm = some vm → h.Offers vm .write
  | .pollEvent _ _ => (h.curSession vm).ownerVm = some vm →
      (h.curSession vm).input.avail ≠ 0 → h.Offers vm .readNonblock
  | .getDims | .flushDraw _ _ | .tile _ => True

theorem call_isolated_iff (hu : OwnersUnique h) (c : TuiCall) :
    Isolated h vm ((h.call vm c).sent, (h.call vm c).host) ↔ h.CallAlone vm c := by
  cases c with
  | init rows cols flags rawOk => exact init_isolated_iff hu rows.toInt cols.toInt flags rawOk
  | shutdown =>
    unfold TuiHost.call CallAlone
    dsimp only
    by_cases ho : (h.curSession vm).ownerVm = some vm
    · obtain ⟨i, hf⟩ := curSession_owner.mp ho
      rw [if_pos ho]
      exact shutdown_isolated_iff hu hf h.tiles h.transportByVm rfl (.inl rfl)
    · rw [if_neg ho]
      refine iff_of_true isolated_refl (shutdownAlone_of_none ?_ _)
      cases hf : h.sessionFind vm with
      | none => rfl
      | some i => exact absurd (curSession_owner.mpr ⟨i, hf⟩) ho
  | getDims => exact iff_of_true isolated_refl trivial
  | present => exact present_isolated_iff doPresent
  | presentDiff => exact present_isolated_iff doPresentDiff
  | pollEvent input mapped => exact poll_isolated_iff input mapped
  | flushDraw buf mapped => exact iff_of_true (flushDraw_isolated buf mapped) trivial
  | tile call => exact iff_of_true (tile_isolated call) trivial

/-! ## Runs -/

/-- What an event must leave alone. At the exit of the process every session is shut down. -/
def EventIsolated (h : TuiHost n) (e : TuiEvent) : Prop :=
  match e with
  | .call vm _ | .unload vm | .setTransport vm _ => Isolated h vm (h.event e)
  | .exit => True

/-- The transport that the shutdown at an unload finds. -/
def unloadTransport (h : TuiHost n) (vm : VmId) : Option TransportId :=
  if h.stdioFirst then h.defaultTransport else h.transportForVm vm

def EventAlone (h : TuiHost n) : TuiEvent → Prop
  | .call vm c => h.CallAlone vm c
  | .unload vm => h.ShutdownAlone vm (h.unloadTransport vm)
  | .setTransport _ _ | .exit => True

theorem unload_isolated_iff (hu : OwnersUnique h) :
    Isolated h vm (h.unload vm) ↔ h.ShutdownAlone vm (h.unloadTransport vm) := by
  unfold unload unloadTransport
  cases hs : h.stdioFirst with
  | true =>
    have ht : (h.unbind vm).transportForVm vm = h.defaultTransport := by
      unfold unbind transportForVm
      dsimp only
      rw [update_self]
    rw [if_pos rfl, if_pos rfl, ← ht]
    exact release_isolated_iff hu _ rfl (.inr ht)
  | false =>
    rw [if_neg Bool.false_ne_true, if_neg Bool.false_ne_true]
    have hrelease : Isolated h vm (h.release vm) ↔ h.ShutdownAlone vm (h.transportForVm vm) :=
      release_isolated_iff hu h.transportByVm rfl (.inl rfl)
    rw [← hrelease]
    exact ⟨fun hiso => ⟨hiso.sessions, hiso.terminal⟩, fun hiso => ⟨hiso.sessions, hiso.terminal⟩⟩

theorem event_isolated_iff (hu : OwnersUnique h) (e : TuiEvent) :
    h.EventIsolated e ↔ h.EventAlone e := by
  cases e with
  | call vm c => exact call_isolated_iff hu c
  | unload vm => exact unload_isolated_iff hu
  | setTransport vm t =>
    refine iff_of_true ⟨fun _ _ _ _ => rfl, fun e he => ?_⟩ trivial
    cases he
  | exit => exact iff_of_true trivial trivial

theorem doPresent_owner (s : VmTuiSession) : (doPresent s).2.ownerVm = s.ownerVm := rfl

theorem doPresentDiff_owner (s : VmTuiSession) : (doPresentDiff s).2.ownerVm = s.ownerVm := by
  unfold doPresentDiff
  split <;> rfl

theorem setCur_shrink {f : VmTuiSession → VmTuiSession}
    (hf : (f (h.curSession vm)).ownerVm = (h.curSession vm).ownerVm) :
    OwnersShrink h (h.setCur vm f) := fun i => .inl (setCur_owner hf i)

theorem present_shrink {p : VmTuiSession → List Byte × VmTuiSession}
    (hp : ∀ s, (p s).2.ownerVm = s.ownerVm) : OwnersShrink h (h.handlePresent vm p).host := by
  unfold handlePresent
  split
  · exact fun i => .inl rfl
  · have hs : OwnersShrink h (h.setCur vm fun _ => (p (h.curSession vm)).2) :=
      setCur_shrink (hp _)
    exact hs

theorem OwnersUnique.call (hu : OwnersUnique h) (c : TuiCall) : OwnersUnique (h.call vm c).host := by
  cases c with
  | init rows cols flags rawOk => exact init_unique hu rows.toInt cols.toInt flags rawOk
  | shutdown =>
    unfold TuiHost.call
    dsimp only
    split
    · rename_i ho
      obtain ⟨i, hf⟩ := curSession_owner.mp ho
      exact hu.shrink (doShutdown_shrink hu hf)
    · exact hu
  | getDims => exact hu
  | present => exact hu.shrink (present_shrink doPresent_owner)
  | presentDiff => exact hu.shrink (present_shrink doPresentDiff_owner)
  | pollEvent input mapped =>
    refine hu.shrink ?_
    unfold TuiHost.call handlePollEvent
    dsimp only
    split
    · exact fun i => .inl rfl
    · have hs : OwnersShrink h (h.setCur vm fun s =>
          { s with input := (pollInput (h.curSession vm).input input).2 }) := setCur_shrink rfl
      exact hs
  | flushDraw buf mapped =>
    refine hu.shrink ?_
    unfold TuiHost.call handleFlushDraw
    dsimp only
    split
    · exact fun i => .inl rfl
    · split
      · exact fun i => .inl rfl
      · have hs : OwnersShrink h (h.setCur vm fun _ => (flushDraw (h.curSession vm) buf).2) :=
          setCur_shrink (flushDraw_drawn _ buf).ownerVm
        exact hs
  | tile call =>
    have hs : OwnersShrink h
        (h.setCur vm fun _ => (tileCall h.tiles vm (h.curSession vm) call).2.2) :=
      setCur_shrink (tileCall_drawn h.tiles vm _ call).ownerVm
    exact hu.shrink hs

theorem OwnersUnique.atexit (hu : OwnersUnique h) : OwnersUnique h.atexitShutdownAll.2 := by
  unfold atexitShutdownAll
  refine List.foldlRecOn (motive := fun r : List (Port × TermCall) × TuiHost n => OwnersUnique r.2)
    _ _ hu fun r hr i _ => ?_
  dsimp only
  split
  · rename_i w hw
    exact hr.shrink (doShutdown_shrink hr (hr.find hw))
  · exact hr

theorem OwnersUnique.event (hu : OwnersUnique h) (e : TuiEvent) : OwnersUnique (h.event e).2 := by
  cases e with
  | call vm c => exact hu.call c
  | unload vm =>
    have hunload : OwnersUnique (h.unload vm).2 := by
      unfold unload
      split
      · have hu' : OwnersUnique (h.unbind vm) := hu
        exact hu'.shrink (release_shrink hu')
      · have hs : OwnersUnique (h.release vm).2 := hu.shrink (release_shrink hu)
        exact hs
    exact hunload
  | setTransport vm t => exact hu
  | exit => exact hu.atexit

theorem booted_unique (h : TuiHost n) : OwnersUnique h.booted := by
  intro i j w hi
  cases hi

/-- A run keeps the VMs apart exactly if each of its steps meets the condition. -/
theorem run_isolated_iff (h : TuiHost n) (es : List TuiEvent) :
    Meets step EventIsolated h.booted es ↔ Meets step EventAlone h.booted es := by
  have hstep : ∀ h e (h' : TuiHost n), OwnersUnique h → h.step e = some h' → OwnersUnique h' := by
    intro h e h' hu hs
    cases hs
    exact hu.event e
  constructor
  · exact Meets.of_invariant (fun h e h' hu _ hs => hstep h e h' hu hs)
      (fun h e hu hiso => (event_isolated_iff hu e).mp hiso) (booted_unique h)
  · exact Meets.of_invariant (fun h e h' hu _ hs => hstep h e h' hu hs)
      (fun h e hu hok => (event_isolated_iff hu e).mpr hok) (booted_unique h)

/-! ## Flags of another VM -/

/-- A host with a pool of two sessions and no transports. -/
def twoSessions : TuiHost 1 where
  pool := fun _ => .reset
  tiles := .init
  transportByVm := fun _ => none
  defaultTransport := none
  offers := fun _ _ => true
  outFn := false
  stdioFirst := true

/-- VM 1 opens the first session and hides its cursor, then VM 2 opens the second one. -/
def openBoth : List TuiEvent :=
  [.call 1 (.init 2 2 4 false), .call 2 (.init 2 2 0 false)]

/-- When VM 2 shuts down, VM 1's session forgets that the cursor is hidden. -/
theorem shutdown_clears_flags : ∃ h, run step twoSessions.booted openBoth = some h ∧
    (h.pool 0).ownerVm = some 1 ∧ (h.pool 0).flags = 4 ∧
      ((h.event (.call 2 .shutdown)).2.pool 0).ownerVm = some 1 ∧
      ((h.event (.call 2 .shutdown)).2.pool 0).flags = 0 := by
  refine ⟨_, rfl, ?_, ?_, ?_, ?_⟩
  · decide +kernel
  · decide +kernel
  · decide +kernel
  · decide +kernel

end TuiHost

end Microgarbage.Tui
