import Microgarbage.Vm.Step

/-!
# The memory sandbox

A run changes host bytes only through mapped writable accesses of the guest, and its result is a
function of the bytes of the mapped regions: two memories that agree there take the same steps and
still agree there afterwards.
-/

namespace Microgarbage.Vm

open Lib

/-- The byte `p` belongs to an access of `n` bytes at guest address `a`, in a writable region. -/
structure WrittenAt (cpu : VmCpu) (p : Nat) (a : Word) (n : Nat) : Prop where
  size : n = 1 ∨ n = 2 ∨ n = 4
  mapped : Mapped cpu a n
  writable : (regionAt cpu a).writable = true
  lo : hostAddr cpu a ≤ p
  hi : p < hostAddr cpu a + n

namespace WrittenAt

variable {cpu cpu' : VmCpu} {p n : Nat} {a : Word}

theorem writable_byte (h : WrittenAt cpu p a n) : Writable cpu p :=
  ⟨_, regionAt_mem cpu a, h.writable, mapped_inRegion h.mapped h.lo h.hi⟩

/-- With read-only code and constants, the access is in the data or the shared range. -/
theorem high_address (h : WrittenAt cpu p a n) (hc : (cpu.regions regionCode).writable = false)
    (hr : (cpu.regions regionRodata).writable = false) : 0x80000000 ≤ a.toNat := by
  have hw := h.writable
  unfold regionAt at hw
  by_contra hlt
  by_cases h1 : a.toNat < 0x40000000
  · rw [if_pos h1, hc] at hw
    cases hw
  · rw [if_neg h1, if_pos (by omega), hr] at hw
    cases hw

theorem congr (h : WrittenAt cpu p a n) (hr : cpu'.regions = cpu.regions)
    (hl : cpu'.l2Shared = cpu.l2Shared) : WrittenAt cpu' p a n := by
  have he : regionAt cpu' a = regionAt cpu a := by
    unfold regionAt
    rw [hr, hl]
  obtain ⟨h1, h2, h3, h4, h5⟩ := h
  refine ⟨h1, ?_, ?_, ?_, ?_⟩
  · rwa [Mapped, he]
  · rwa [he]
  · rwa [hostAddr, he]
  · rwa [hostAddr, he]

end WrittenAt

theorem stored_written {cpu : VmCpu} {mem mem' s s' : Mem} (h : Stored cpu mem mem' s s') {p : Nat}
    (hp : s p ≠ mem p) : ∃ a n, WrittenAt cpu p a n := by
  cases h with
  | none => exact absurd rfl hp
  | store width a v mapped writable =>
    obtain ⟨lo, hi⟩ := Mem.store_ne hp
    refine ⟨a, width.bytes, ?_, mapped, writable, lo, hi⟩
    cases width with
    | byte => exact .inl rfl
    | half => exact .inr (.inl rfl)
    | word => exact .inr (.inr rfl)

theorem stored_agree {cpu : VmCpu} {mem mem' s s' : Mem} (hag : Agree cpu mem mem')
    (h : Stored cpu mem mem' s s') : Agree cpu s s' := by
  cases h with
  | none => exact hag
  | store width a v mapped writable =>
    intro p hp
    by_cases hin : hostAddr cpu a ≤ p ∧ p < hostAddr cpu a + width.bytes
    · rw [Mem.store, Mem.store, Mem.overlay_in hin.1 hin.2, Mem.overlay_in hin.1 hin.2]
    · rw [Mem.store_out (by omega), Mem.store_out (by omega)]
      exact hag p hp

theorem Agree.congr {cpu cpu' : VmCpu} {mem mem' : Mem} (h : Agree cpu mem mem')
    (hr : cpu'.regions = cpu.regions) (hl : cpu'.l2Shared = cpu.l2Shared) :
    Agree cpu' mem mem' := by
  intro p hp
  refine h p ?_
  unfold Visible regionsOf at hp ⊢
  rwa [hr, hl] at hp

/-! ## Which bytes a run writes -/

theorem vmStepLoop_writes (b s : Nat) (m : Machine) {p : Nat}
    (hp : (vmStepLoop b s m).2.2.mem p ≠ m.mem p) : ∃ a n, WrittenAt m.cpu p a n := by
  induction b generalizing s m with
  | zero => exact absurd rfl hp
  | succ b ih =>
    unfold vmStepLoop at hp
    cases hs : stepOnce m with
    | mk ok m' =>
      rw [hs] at hp
      cases ok with
      | false =>
        obtain ⟨pc, cause, tpc, ta, ti, tc, -, -⟩ := stops_of_stepOnce hs
        exfalso
        apply hp
        unfold stepExit
        cases cause <;> rfl
      | true =>
        have hr := retires_of_stepOnce hs
        have hsame := SameControl.retires hr
        by_cases hm : m'.mem p = m.mem p
        · obtain ⟨a, n, hw⟩ := ih (s + 1) m' (by rw [hm]; exact hp)
          exact ⟨a, n, hw.congr hsame.regions.symm hsame.l2Shared.symm⟩
        · obtain ⟨regs, pc, mem, stored⟩ := hr
          exact stored_written stored hm

/-! ## What a run depends on -/

/-- The two-run induction: same result, steps and CPU, and memories that still agree. -/
theorem vmStepLoop_agree (b s : Nat) (cpu : VmCpu) {mem mem' : Mem} (hag : Agree cpu mem mem') :
    (vmStepLoop b s ⟨cpu, mem'⟩).1 = (vmStepLoop b s ⟨cpu, mem⟩).1 ∧
      (vmStepLoop b s ⟨cpu, mem'⟩).2.1 = (vmStepLoop b s ⟨cpu, mem⟩).2.1 ∧
      (vmStepLoop b s ⟨cpu, mem'⟩).2.2.cpu = (vmStepLoop b s ⟨cpu, mem⟩).2.2.cpu ∧
      Agree cpu (vmStepLoop b s ⟨cpu, mem⟩).2.2.mem (vmStepLoop b s ⟨cpu, mem'⟩).2.2.mem := by
  induction b generalizing s cpu mem mem' with
  | zero => exact ⟨rfl, rfl, rfl, hag⟩
  | succ b ih =>
    have hp := stepOnce_paired hag
    unfold vmStepLoop
    revert hp
    generalize stepOnce ⟨cpu, mem⟩ = r
    generalize stepOnce ⟨cpu, mem'⟩ = r'
    intro hp
    cases hp with
    | retires regs pc t t' stored =>
      have hag' : Agree { cpu with
          regs := regs, pc := pc, instructionsRetired := cpu.instructionsRetired + 1 } t t' :=
        (stored_agree hag stored).congr rfl rfl
      obtain ⟨h1, h2, h3, h4⟩ := ih (s + 1) _ hag'
      exact ⟨h1, h2, h3, h4.congr rfl rfl⟩
    | stops pc cause tpc ta ti tc h h' => cases cause <;> exact ⟨rfl, rfl, rfl, hag⟩

/-! ## The sandbox -/

/-- Two host ranges without a common byte. -/
def Apart (r r' : VmRegion) : Prop := ∀ p, InRegion r p → ¬ InRegion r' p

theorem vmStep_writes (m : Machine) (b : Nat) {p : Nat}
    (hp : (vmStep m b).2.2.mem p ≠ m.mem p) : ∃ a n, WrittenAt m.cpu p a n := by
  unfold vmStep at hp
  split at hp
  · exact absurd rfl hp
  · obtain ⟨a, n, hw⟩ := vmStepLoop_writes b 0 (clearTrapState m) hp
    exact ⟨a, n, hw.congr rfl rfl⟩

theorem vmStep_frame (m : Machine) (b : Nat) {p : Nat} (hp : ¬ Writable m.cpu p) :
    (vmStep m b).2.2.mem p = m.mem p := by
  by_contra hne
  obtain ⟨a, n, hw⟩ := vmStep_writes m b hne
  exact hp hw.writable_byte

theorem vmStep_agree (cpu : VmCpu) (b : Nat) {mem mem' : Mem} (hag : Agree cpu mem mem') :
    (vmStep ⟨cpu, mem'⟩ b).1 = (vmStep ⟨cpu, mem⟩ b).1 ∧
      (vmStep ⟨cpu, mem'⟩ b).2.1 = (vmStep ⟨cpu, mem⟩ b).2.1 ∧
      (vmStep ⟨cpu, mem'⟩ b).2.2.cpu = (vmStep ⟨cpu, mem⟩ b).2.2.cpu ∧
      Agree cpu (vmStep ⟨cpu, mem⟩ b).2.2.mem (vmStep ⟨cpu, mem'⟩ b).2.2.mem := by
  unfold vmStep
  dsimp only
  split
  · exact ⟨rfl, rfl, rfl, hag⟩
  · have hag' : Agree (clearTrapState ⟨cpu, mem⟩).cpu mem mem' := hag.congr rfl rfl
    obtain ⟨h1, h2, h3, h4⟩ := vmStepLoop_agree b 0 _ hag'
    exact ⟨h1, h2, h3, h4.congr rfl rfl⟩

/-- For every CPU, memory and budget: (1) a changed byte belongs to an access of 1, 2 or 4 bytes
inside a writable region, at the offset its guest address selects; (2) a read-only region that
shares no host byte with a writable one is unchanged; (3) with read-only code and constants the
addresses written are those of the data and shared ranges; (4) memories that agree on the mapped
regions give the same result, steps and CPU, still agree there, and keep every other byte. -/
theorem vmStep_sandboxed (m : Machine) (b : Nat) :
    (∀ p, (vmStep m b).2.2.mem p ≠ m.mem p →
        ∃ a n, WrittenAt m.cpu p a n ∧ InRegion (regionAt m.cpu a) p) ∧
      (∀ r ∈ regionsOf m.cpu, (∀ r' ∈ regionsOf m.cpu, r'.writable = true → Apart r r') →
        ∀ p, InRegion r p → (vmStep m b).2.2.mem p = m.mem p) ∧
      ((m.cpu.regions regionCode).writable = false →
        (m.cpu.regions regionRodata).writable = false →
        ∀ p, (vmStep m b).2.2.mem p ≠ m.mem p →
          ∃ a n, WrittenAt m.cpu p a n ∧ 0x80000000 ≤ a.toNat) ∧
      ∀ mem', Agree m.cpu m.mem mem' →
        (vmStep { m with mem := mem' } b).1 = (vmStep m b).1 ∧
          (vmStep { m with mem := mem' } b).2.1 = (vmStep m b).2.1 ∧
          (vmStep { m with mem := mem' } b).2.2.cpu = (vmStep m b).2.2.cpu ∧
          Agree m.cpu (vmStep m b).2.2.mem (vmStep { m with mem := mem' } b).2.2.mem ∧
          ∀ p, ¬ Visible m.cpu p → (vmStep { m with mem := mem' } b).2.2.mem p = mem' p := by
  refine ⟨fun p hp => ?_, fun r _ hap p hr => ?_, fun hc hro p hp => ?_, fun mem' hag => ?_⟩
  · obtain ⟨a, n, hw⟩ := vmStep_writes m b hp
    exact ⟨a, n, hw, mapped_inRegion hw.mapped hw.lo hw.hi⟩
  · refine vmStep_frame m b ?_
    rintro ⟨r', hmem, hw, hin⟩
    exact hap r' hmem hw p hr hin
  · obtain ⟨a, n, hw⟩ := vmStep_writes m b hp
    exact ⟨a, n, hw, hw.high_address hc hro⟩
  · obtain ⟨h1, h2, h3, h4⟩ := vmStep_agree m.cpu b hag
    refine ⟨h1, h2, h3, h4, fun p hp => vmStep_frame { m with mem := mem' } b ?_⟩
    rintro ⟨r, hmem, -, hin⟩
    exact hp ⟨r, hmem, hin⟩

/-- `sw x0, 0(x8)` and a load past the code region: the code bytes survive. -/
theorem vmStep_sandboxed_store :
    (vmStep (flatMachine [0x23, 0x20, 0x04, 0x00]) 2).2.2.mem 0 = 0x23 :=
  (vmStep_sandboxed (flatMachine [0x23, 0x20, 0x04, 0x00]) 2).2.1 ⟨0, 64, false⟩ (by decide)
    (by
      intro r' hr' hw p hp hp'
      have : r' = ⟨64, 64, true⟩ := by
        simp only [regionsOf, List.mem_cons, List.not_mem_nil, or_false] at hr'
        rcases hr' with rfl | rfl | rfl | rfl | rfl
        · cases hw
        · cases hw
        · rfl
        · cases hw
        · cases hw
      subst this
      unfold InRegion at hp hp'
      simp at hp hp'
      omega)
    0 ⟨Nat.le_refl _, by decide⟩

/-! ## Several guests -/

/-- No other guest can write a byte that guest `i` sees. -/
def Undisturbed (cpus : Nat → VmCpu) (i : Nat) : Prop :=
  ∀ j p, j ≠ i → Writable (cpus j) p → ¬Visible (cpus i) p

/-- Quanta over one memory, each a guest and its budget. -/
def runQuanta (cpus : Nat → VmCpu) (mem : Mem) : List (Nat × Nat) → (Nat → VmCpu) × Mem
  | [] => (cpus, mem)
  | (i, b) :: qs =>
    let m := (vmStep ⟨cpus i, mem⟩ b).2.2
    runQuanta (Function.update cpus i m.cpu) m.mem qs

section Guests

variable {cpus cpus' : Nat → VmCpu} {mem mem' : Mem} {i : Nat}

theorem regionsOf_quantum (cpus : Nat → VmCpu) (mem : Mem) (i b j : Nat) :
    regionsOf (Function.update cpus i (vmStep ⟨cpus i, mem⟩ b).2.2.cpu j) = regionsOf (cpus j) := by
  obtain ⟨hsame, -⟩ := vmStep_spec (m := ⟨cpus i, mem⟩) (b := b) (Prod.mk.eta.symm)
  rw [Function.update_apply]
  split
  · next hj =>
    rw [hj, regionsOf, hsame.regions, hsame.l2Shared]
    rfl
  · rfl

/-- In every interleaving of quanta a guest that is not disturbed runs as it does alone. -/
theorem runQuanta_alone (h : Undisturbed cpus i) (hcpu : cpus' i = cpus i)
    (hag : Agree (cpus i) mem mem') (qs : List (Nat × Nat)) :
    (runQuanta cpus' mem' (qs.filter fun q => q.1 = i)).1 i = (runQuanta cpus mem qs).1 i ∧
      Agree (cpus i) (runQuanta cpus mem qs).2
        (runQuanta cpus' mem' (qs.filter fun q => q.1 = i)).2 := by
  induction qs generalizing cpus cpus' mem mem' with
  | nil => exact ⟨hcpu, hag⟩
  | cons q qs ih =>
    obtain ⟨j, b⟩ := q
    have hregions := regionsOf_quantum cpus mem j b
    have hagree (m m' : Mem) : Agree (Function.update cpus j (vmStep ⟨cpus j, mem⟩ b).2.2.cpu i)
        m m' ↔ Agree (cpus i) m m' := by
      unfold Agree Visible
      rw [hregions]
    have hnext : Undisturbed (Function.update cpus j (vmStep ⟨cpus j, mem⟩ b).2.2.cpu) i := by
      intro k p hk
      unfold Writable Visible
      rw [hregions, hregions]
      exact h k p hk
    rw [runQuanta, ← hagree, List.filter_cons]
    by_cases hj : j = i
    · subst hj
      obtain ⟨-, -, hc, hm⟩ := vmStep_agree (cpus j) b hag
      rw [if_pos (by simp), runQuanta, hcpu]
      refine ih hnext ?_ ((hagree _ _).mpr hm)
      rw [Function.update_self, Function.update_self, hc]
    · -- the quantum of another guest changes nothing that this one sees
      rw [if_neg (by simpa using hj)]
      refine ih hnext ?_ ((hagree _ _).mpr fun p hp => ?_)
      · rw [Function.update_of_ne (Ne.symm hj), hcpu]
      · rw [vmStep_frame ⟨cpus j, mem⟩ b fun hw => h j p hj hw hp]
        exact hag p hp

end Guests

/-- A guest with a data region of its own, and the code of all. -/
def ownData (i : Nat) : VmCpu :=
  { vmInit 0 with
    regions := fun r => if r = regionCode then ⟨0, 12, false⟩ else
      if r = regionData then ⟨64 * (i + 1), 64, true⟩ else .absent }

/-- The code stores 7 into the first byte of the data. -/
def storeSeven : Mem := fun p =>
  [0x93, 0x05, 0x70, 0x00, 0x37, 0x05, 0x00, 0x80, 0x23, 0x20, 0xb5, 0x00].getD p 0

/-- Guest 1 runs the code in two quanta, and guest 0 the whole of it in between. -/
theorem runQuanta_alone_store :
    let shared := runQuanta ownData storeSeven [(1, 2), (0, 3), (1, 1), (2, 1)]
    let alone := runQuanta ownData storeSeven [(1, 2), (1, 1)]
    shared.2 64 = 7 ∧ shared.2 128 = 7 ∧ alone.1 1 = shared.1 1 ∧ shared.2 128 = alone.2 128 := by
  have h : Undisturbed ownData 1 := by
    intro j p hj hw hv
    simp [Writable, Visible, regionsOf, InRegion, VmRegion.absent, regionCode, regionRodata,
      regionData, regionShared, vmInit, ownData] at hw hv
    omega
  have hvisible : Visible (ownData 1) 128 := by
    simp [Visible, regionsOf, InRegion, VmRegion.absent, regionCode, regionRodata,
      regionData, regionShared, vmInit, ownData]
  have halone := runQuanta_alone h rfl (fun _ _ => rfl : Agree (ownData 1) storeSeven storeSeven)
    [(1, 2), (0, 3), (1, 1), (2, 1)]
  exact ⟨by decide +kernel, by decide +kernel, halone.1, halone.2 128 hvisible⟩

end Microgarbage.Vm
