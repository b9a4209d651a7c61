import Mathlib.Data.List.Nodup
import Mathlib.Data.List.Flatten

/-!
# Buckets

Chains of elements, each element in the chain whose number is its index. What the chains hold is
their concatenation up to order: putting an element in front of its chain adds it, and moving all
elements to new chains by another index loses and duplicates none. Elements with distinct keys are
found by key in their chain as in the whole.
-/

namespace Microgarbage.Lib

open List

variable {α κ : Type}

theorem find_congr {p q : α → Bool} {l : List α} (h : ∀ a ∈ l, p a = q a) :
    l.find? p = l.find? q := by
  induction l with
  | nil => rfl
  | cons a l ih =>
    rw [List.find?_cons, List.find?_cons, h a (mem_cons_self ..),
      ih fun x hx => h x (mem_cons_of_mem _ hx)]

/-! ## Keys -/

section Keys

variable [DecidableEq κ] {key : α → κ} {l l' : List α} {k : κ} {e : α}

theorem find_key_eq_some (hnd : (l.map key).Nodup) :
    l.find? (fun e => decide (key e = k)) = some e ↔ e ∈ l ∧ key e = k := by
  constructor
  · intro h
    have hk := List.find?_some h
    exact ⟨mem_of_find?_eq_some h, of_decide_eq_true hk⟩
  · rintro ⟨hmem, rfl⟩
    cases hf : l.find? fun x => decide (key x = key e) with
    | none => exact absurd (decide_eq_true rfl) (List.find?_eq_none.mp hf e hmem)
    | some x =>
      have hx := List.find?_some hf
      rw [inj_on_of_nodup_map hnd (mem_of_find?_eq_some hf) hmem
        (of_decide_eq_true hx)]

theorem find_key_eq_none : l.find? (fun e => decide (key e = k)) = none ↔ k ∉ l.map key := by
  rw [List.find?_eq_none, mem_map]
  constructor
  · rintro h ⟨e, hmem, he⟩
    exact h e hmem (decide_eq_true he)
  · intro h e hmem he
    exact h ⟨e, hmem, of_decide_eq_true he⟩

theorem find_key_perm (hnd : (l.map key).Nodup) (hperm : l.Perm l') :
    l.find? (fun e => decide (key e = k)) = l'.find? fun e => decide (key e = k) := by
  refine Option.ext fun e => ?_
  rw [find_key_eq_some hnd, find_key_eq_some ((hperm.map key).nodup_iff.mp hnd), hperm.mem_iff]

end Keys

/-! ## Chains -/

section Chains

variable {idx : α → Nat} {bs : List (List α)} {b : Nat} {c c' : List α} {e : α}

theorem flatten_set (hb : bs[b]? = some c) :
    ∃ pre post, bs.flatten = pre ++ c ++ post ∧
      ∀ c', (bs.set b c').flatten = pre ++ c' ++ post := by
  obtain ⟨hlt, hget⟩ := List.getElem?_eq_some_iff.mp hb
  refine ⟨(bs.take b).flatten, (bs.drop (b + 1)).flatten, ?_, fun c' => ?_⟩
  · conv_lhs => rw [← take_append_drop b bs, drop_eq_getElem_cons hlt, hget]
    rw [flatten_append, flatten_cons, append_assoc]
  · rw [set_eq_take_append_cons_drop, if_pos hlt, flatten_append, flatten_cons,
      append_assoc]

/-- Every element is in the chain of its index. -/
def Placed (idx : α → Nat) (bs : List (List α)) : Prop :=
  ∀ b c, bs[b]? = some c → ∀ e ∈ c, idx e = b

theorem Placed.chain (h : Placed idx bs) (he : e ∈ bs.flatten) :
    ∃ c, bs[idx e]? = some c ∧ e ∈ c := by
  obtain ⟨c, hc, hec⟩ := mem_flatten.mp he
  obtain ⟨b, hb⟩ := mem_iff_getElem?.mp hc
  rw [h b c hb e hec]
  exact ⟨c, hb, hec⟩

theorem Placed.set (h : Placed idx bs) (hc : ∀ e ∈ c', idx e = b) : Placed idx (bs.set b c') := by
  intro i c hi e he
  by_cases hib : b = i
  · subst hib
    obtain ⟨hlt, hget⟩ := List.getElem?_eq_some_iff.mp hi
    rw [getElem_set_self] at hget
    exact hc e (hget ▸ he)
  · rw [List.getElem?_set_ne hib] at hi
    exact h i c hi e he

theorem placed_replicate (n : Nat) : Placed idx (List.replicate n []) := by
  intro b c hb e he
  rw [eq_of_mem_replicate (mem_of_getElem? hb)] at he
  cases he

theorem Placed.mem_chain (h : Placed idx bs) (hb : bs[b]? = some c) :
    e ∈ c ↔ e ∈ bs.flatten ∧ idx e = b := by
  constructor
  · exact fun he => ⟨mem_flatten.mpr ⟨c, mem_of_getElem? hb, he⟩, h b c hb e he⟩
  · rintro ⟨he, rfl⟩
    obtain ⟨c₁, hc₁, hmem⟩ := h.chain he
    cases hb.symm.trans hc₁
    exact hmem

theorem chain_sublist (hb : bs[b]? = some c) : c.Sublist bs.flatten :=
  sublist_flatten_of_mem (mem_of_getElem? hb)

end Chains

/-! ## Moving elements into chains -/

/-- `e` put in front of its chain, if there is such a chain. -/
def pushFront (idx : α → Nat) (bs : List (List α)) (e : α) : Option (List (List α)) :=
  (bs[idx e]?).map fun c => bs.set (idx e) (e :: c)

section Push

variable {idx : α → Nat} {bs bs' : List (List α)} {e : α}

theorem pushFront_isSome (h : idx e < bs.length) : ∃ bs', pushFront idx bs e = some bs' := by
  unfold pushFront
  rw [List.getElem?_eq_getElem h]
  exact ⟨_, rfl⟩

theorem pushFront_spec (h : pushFront idx bs e = some bs') :
    bs'.length = bs.length ∧ bs'.flatten.Perm (e :: bs.flatten) ∧
      (Placed idx bs → Placed idx bs') := by
  obtain ⟨c, hc, rfl⟩ := Option.map_eq_some_iff.mp h
  obtain ⟨pre, post, hflat, hset⟩ := flatten_set hc
  refine ⟨length_set .., ?_, fun hp => hp.set fun x hx => ?_⟩
  · rw [hflat, hset, append_assoc, append_assoc]
    exact perm_middle
  · rcases mem_cons.mp hx with rfl | hx
    · rfl
    · exact hp _ c hc x hx

variable (idx) in
theorem pushAll_spec (l : List α) (bs : List (List α)) (h : ∀ e ∈ l, idx e < bs.length) :
    ∃ bs', l.foldlM (pushFront idx) bs = some bs' ∧ bs'.length = bs.length ∧
      bs'.flatten.Perm (l ++ bs.flatten) ∧ (Placed idx bs → Placed idx bs') := by
  induction l generalizing bs with
  | nil => exact ⟨bs, rfl, rfl, .refl _, id⟩
  | cons e l ih =>
    obtain ⟨bs₁, h₁⟩ := pushFront_isSome (h e (mem_cons_self ..))
    obtain ⟨hlen, hperm, hplaced⟩ := pushFront_spec h₁
    obtain ⟨bs₂, h₂, hlen₂, hperm₂, hplaced₂⟩ :=
      ih bs₁ fun x hx => hlen ▸ h x (mem_cons_of_mem _ hx)
    refine ⟨bs₂, ?_, hlen₂.trans hlen, ?_, hplaced₂ ∘ hplaced⟩
    · rw [foldlM_cons, h₁]
      exact h₂
    · exact hperm₂.trans ((hperm.append_left l).trans perm_middle)

end Push

/-! ## Loops over an array -/

section Loops

variable {β γ : Type}

theorem foldlM_range (bs : List γ) (g : β → γ → Option β) (a : β) {n : Nat} (hn : n ≤ bs.length) :
    (List.range n).foldlM (fun a i => (bs[i]?).bind (g a)) a = (bs.take n).foldlM g a := by
  induction n with
  | zero => rfl
  | succ n ih =>
    rw [range_succ, foldlM_append, ih (Nat.le_of_succ_le hn), take_add_one,
      List.getElem?_eq_getElem hn, foldlM_append]
    refine congrArg _ (funext fun a => ?_)
    rw [foldlM_cons, Option.toList_some, foldlM_cons, List.getElem?_eq_getElem hn]
    rfl

theorem foldlM_flatten (bs : List (List γ)) (f : β → γ → Option β) (a : β) :
    bs.foldlM (fun a c => c.foldlM f a) a = bs.flatten.foldlM f a := by
  induction bs generalizing a with
  | nil => rfl
  | cons c bs ih =>
    rw [foldlM_cons, flatten_cons, foldlM_append]
    exact congrArg _ (funext ih)

end Loops

end Microgarbage.Lib
