import Mathlib.Data.Set.Card
import Mathlib.Tactic.Ring
import Microgarbage.Containers.HashTable
import Microgarbage.Lib.Align

/-!
# The hash table is a map

The table's entries up to order are the graph of a finite map, whatever the allocator refuses. The
number of buckets stays within what `size_t` counts in bytes: an array that could not be doubled
any more would hold more entries than the address space does.
-/

namespace Microgarbage.Containers

open Lib List

variable {abi : Abi} {ht ht' : HashTable abi} {key : List Byte} {h : BitVec 32} {value : SizeT abi}

/-! ## The state -/

/-- A sound table. -/
structure HashTable.Wf (ht : HashTable abi) : Prop where
  pow2 : ∃ k, ht.bucketCount.toNat = 2 ^ k
  length : ht.buckets.length = ht.bucketCount.toNat
  fits : ht.bucketCount.toNat * (2 * abi.ptrBytes) ≤ 2 ^ abi.width
  placed : Placed (fun e => bucketIndex ht.bucketCount e.hash) ht.buckets
  hashed : ∀ e ∈ ht.entries, e.hash = htHash e.key
  nodup : (ht.entries.map HtEntry.key).Nodup
  items : ht.itemCount.toNat = ht.entries.length
  held : ht.held < 2 ^ abi.width

/-- The value under a key. -/
def HashTable.lookup (ht : HashTable abi) (key : List Byte) : Option (SizeT abi) :=
  (ht.entries.find? fun e => decide (e.key = key)).map HtEntry.value

namespace HashTable

/-- The bytes of the entries are those of a list with the same entries. -/
theorem held_perm {l : List (HtEntry abi)} (hperm : ht.entries.Perm l) :
    ht.held = abi.tableBytes + ht.buckets.length * abi.ptrBytes + (l.map HtEntry.bytes).sum := by
  unfold held
  rw [(hperm.map HtEntry.bytes).sum_eq]

theorem lookup_perm {l : List (HtEntry abi)} (hnd : (ht.entries.map HtEntry.key).Nodup)
    (hperm : ht.entries.Perm l) (k : List Byte) :
    ht.lookup k = (l.find? fun e => decide (e.key = k)).map HtEntry.value := by
  unfold lookup
  rw [find_key_perm hnd hperm]

namespace Wf

variable (wf : ht.Wf)

include wf

theorem index_lt (h : BitVec 32) : bucketIndex ht.bucketCount h < ht.buckets.length := by
  obtain ⟨k, hk⟩ := wf.pow2
  unfold bucketIndex
  rw [toNat_mask hk, wf.length, hk]
  exact Nat.mod_lt _ (Nat.two_pow_pos k)

theorem chain_isSome (h : BitVec 32) : ∃ c, ht.chain h = some c :=
  ⟨_, List.getElem?_eq_getElem (wf.index_lt h)⟩

variable {c : List (HtEntry abi)} (hc : ht.chain (htHash key) = some c)

include hc

theorem is_iff {e : HtEntry abi} (he : e ∈ c) :
    e.is (htHash key) key = decide (e.key = key) := by
  have hmem : e ∈ ht.entries := mem_flatten.mpr ⟨c, mem_of_getElem? hc, he⟩
  unfold HtEntry.is
  refine decide_eq_decide.mpr ⟨And.right, fun hk => ⟨?_, hk⟩⟩
  rw [wf.hashed e hmem, hk]

theorem chain_find :
    c.find? (HtEntry.is (htHash key) key) = ht.entries.find? fun e => decide (e.key = key) := by
  have hsub := (chain_sublist hc).map HtEntry.key
  rw [find_congr fun e he => wf.is_iff hc he]
  refine Option.ext fun e => ?_
  rw [find_key_eq_some (hsub.nodup wf.nodup), find_key_eq_some wf.nodup,
    wf.placed.mem_chain hc]
  constructor
  · rintro ⟨⟨hmem, -⟩, hk⟩
    exact ⟨hmem, hk⟩
  · rintro ⟨hmem, hk⟩
    refine ⟨⟨hmem, ?_⟩, hk⟩
    rw [wf.hashed e hmem, hk]

theorem chain_any : c.any (HtEntry.is (htHash key) key) = (ht.lookup key).isSome := by
  rw [lookup, Option.isSome_map, ← wf.chain_find hc, Bool.eq_iff_iff, List.find?_isSome]
  exact any_eq_true

omit hc

theorem htGet_eq (key : List Byte) : htGet ht key = some ((ht.lookup key).getD 0) := by
  obtain ⟨c, hc⟩ := wf.chain_isSome (htHash key)
  unfold htGet lookup
  rw [hc, Option.map_some, wf.chain_find hc]
  cases ht.entries.find? fun e => decide (e.key = key) <;> rfl

theorem of_perm {l : List (HtEntry abi)} (hlen : ht'.buckets.length = ht.buckets.length)
    (hcount : ht'.bucketCount = ht.bucketCount)
    (hplaced : Placed (fun e => bucketIndex ht.bucketCount e.hash) ht'.buckets)
    (hperm : ht'.entries.Perm l) (hhashed : ∀ e ∈ l, e.hash = htHash e.key)
    (hnodup : (l.map HtEntry.key).Nodup) (hitems : ht'.itemCount.toNat = l.length)
    (hheld : abi.tableBytes + ht.buckets.length * abi.ptrBytes + (l.map HtEntry.bytes).sum <
      2 ^ abi.width) : ht'.Wf where
  pow2 := hcount ▸ wf.pow2
  length := by rw [hlen, hcount, wf.length]
  fits := hcount ▸ wf.fits
  placed := hcount ▸ hplaced
  hashed := fun e he => hhashed e (hperm.mem_iff.mp he)
  nodup := (hperm.map HtEntry.key).nodup_iff.mpr hnodup
  items := by rw [hitems, hperm.length_eq]
  held := by rw [held_perm hperm, hlen]; exact hheld

end Wf

end HashTable

/-! ## One entry of a chain -/

theorem middle_perm {α : Type} (pre c₁ x c₂ post : List α) :
    (pre ++ (c₁ ++ x ++ c₂) ++ post).Perm (x ++ (pre ++ c₁ ++ (c₂ ++ post))) := by
  classical
  refine perm_iff_count.mpr fun a => ?_
  simp only [count_append]
  omega

theorem setValue_split (value : SizeT abi) {c : List (HtEntry abi)}
    (hany : c.any (HtEntry.is h key) = true) :
    ∃ e c₁ c₂, e.is h key = true ∧ c = c₁ ++ [e] ++ c₂ ∧
      setValue h key value c = c₁ ++ [{ e with value := value }] ++ c₂ := by
  induction c with
  | nil => cases hany
  | cons a c ih =>
    unfold setValue
    by_cases ha : a.is h key = true
    · rw [if_pos ha]
      exact ⟨a, [], c, ha, rfl, rfl⟩
    · rw [if_neg ha]
      rw [any_cons, Bool.or_eq_true] at hany
      obtain ⟨e, c₁, c₂, he, hc, hset⟩ := ih (hany.resolve_left ha)
      refine ⟨e, a :: c₁, c₂, he, ?_, ?_⟩
      · rw [hc]
        rfl
      · rw [hset]
        rfl

theorem eraseP_split {c : List (HtEntry abi)} (hany : c.any (HtEntry.is h key) = true) :
    ∃ e c₁ c₂, e.is h key = true ∧ c = c₁ ++ [e] ++ c₂ ∧
      c.eraseP (HtEntry.is h key) = c₁ ++ [] ++ c₂ := by
  obtain ⟨a, ha, hp⟩ := any_eq_true.mp hany
  obtain ⟨e, c₁, c₂, -, he, hc, herase⟩ := exists_of_eraseP ha hp
  exact ⟨e, c₁, c₂, he, by rw [hc, append_assoc]; rfl, by rw [herase, append_nil]⟩

theorem find_front {e : HtEntry abi} {rest : List (HtEntry abi)} (k : List Byte) :
    ((e :: rest).find? fun x => decide (x.key = k)).map HtEntry.value =
      if k = e.key then some e.value
      else (rest.find? fun x => decide (x.key = k)).map HtEntry.value := by
  rw [List.find?_cons]
  by_cases hk : e.key = k
  · rw [decide_eq_true hk, if_pos hk.symm]
    rfl
  · rw [decide_eq_false hk, if_neg fun h => hk h.symm]

namespace HashTable.Wf

variable (wf : ht.Wf)

include wf

theorem replace {c c₁ c₂ : List (HtEntry abi)} (new : List (HtEntry abi)) {e : HtEntry abi}
    {b : Nat}
    (hb : ht.buckets[b]? = some c) (hc : c = c₁ ++ [e] ++ c₂)
    (hnew : ∀ x ∈ new, bucketIndex ht.bucketCount x.hash = b) :
    ∃ rest, ht.entries.Perm (e :: rest) ∧
      (ht.buckets.set b (c₁ ++ new ++ c₂)).flatten.Perm (new ++ rest) ∧
      Placed (fun e => bucketIndex ht.bucketCount e.hash) (ht.buckets.set b (c₁ ++ new ++ c₂)) := by
  obtain ⟨pre, post, hflat, hset⟩ := flatten_set hb
  refine ⟨pre ++ c₁ ++ (c₂ ++ post), ?_, ?_, wf.placed.set fun x hx => ?_⟩
  · unfold entries
    rw [hflat, hc]
    exact middle_perm pre c₁ [e] c₂ post
  · rw [hset]
    exact middle_perm pre c₁ new c₂ post
  · have hold := wf.placed b c hb
    rw [mem_append, mem_append] at hx
    rcases hx with (hx | hx) | hx
    · exact hold x (hc ▸ by simp [hx])
    · exact hnew x hx
    · exact hold x (hc ▸ by simp [hx])

theorem update (value : SizeT abi) {c : List (HtEntry abi)} (hc : ht.chain (htHash key) = some c)
    (hany : c.any (HtEntry.is (htHash key) key) = true)
    (hht' : ht' = { ht with
      buckets := ht.buckets.set (bucketIndex ht.bucketCount (htHash key))
        (setValue (htHash key) key value c) }) :
    ht'.Wf ∧ ht'.lookup = Function.update ht.lookup key (some value) := by
  obtain ⟨e, c₁, c₂, he, hsplit, hset⟩ := setValue_split value hany
  obtain ⟨hhash, hkey⟩ : e.hash = htHash key ∧ e.key = key := of_decide_eq_true he
  obtain ⟨rest, hold, hnew, hplaced⟩ := wf.replace [{ e with value := value }] hc hsplit
    fun x hx => by rw [mem_singleton.mp hx]; exact congrArg _ hhash
  rw [← hset] at hnew hplaced
  have hnd := (hold.map HtEntry.key).nodup_iff.mp wf.nodup
  have hentries : ht'.entries.Perm ({ e with value := value } :: rest) := hht' ▸ hnew
  have wf' : ht'.Wf := by
    refine wf.of_perm (by rw [hht']; exact length_set ..) (by rw [hht'])
      (by rw [hht']; exact hplaced) hentries ?_ hnd ?_ ?_
    · intro x hx
      rcases mem_cons.mp hx with rfl | hx
      · exact wf.hashed e (hold.mem_iff.mpr (mem_cons_self ..))
      · exact wf.hashed x (hold.mem_iff.mpr (mem_cons_of_mem _ hx))
    · rw [hht', wf.items, hold.length_eq]
      rfl
    · have hheld := wf.held
      rw [held_perm hold] at hheld
      exact hheld
  refine ⟨wf', funext fun k => ?_⟩
  rw [lookup_perm wf'.nodup hentries, find_front, Function.update_apply, hkey,
    lookup_perm wf.nodup hold, find_front, hkey]
  split <;> rfl

theorem unlink {c : List (HtEntry abi)} (hc : ht.chain (htHash key) = some c)
    (hany : c.any (HtEntry.is (htHash key) key) = true)
    (hht' : ht' = { ht with
      buckets := ht.buckets.set (bucketIndex ht.bucketCount (htHash key))
        (c.eraseP (HtEntry.is (htHash key) key))
      itemCount := ht.itemCount - 1 }) :
    ht'.Wf ∧ ht'.lookup = Function.update ht.lookup key none := by
  obtain ⟨e, c₁, c₂, he, hsplit, herase⟩ := eraseP_split hany
  obtain ⟨-, hkey⟩ : e.hash = htHash key ∧ e.key = key := of_decide_eq_true he
  obtain ⟨rest, hold, hnew, hplaced⟩ := wf.replace [] hc hsplit nofun
  rw [← herase] at hnew hplaced
  have hnd := (hold.map HtEntry.key).nodup_iff.mp wf.nodup
  have hentries : ht'.entries.Perm rest := hht' ▸ hnew
  have hlen := wf.items.trans hold.length_eq
  have wf' : ht'.Wf := by
    refine wf.of_perm (by rw [hht']; exact length_set ..) (by rw [hht'])
      (by rw [hht']; exact hplaced) hentries
      (fun x hx => wf.hashed x (hold.mem_iff.mpr (mem_cons_of_mem _ hx)))
      (nodup_cons.mp hnd).2 ?_ ?_
    · have hone : (1 : SizeT abi).toNat = 1 := by cases abi <;> rfl
      rw [length_cons] at hlen
      rw [hht']
      dsimp only
      rw [BitVec.toNat_sub_of_le (BitVec.le_def.mpr (by omega)), hone, hlen, Nat.add_sub_cancel]
    · have hheld := wf.held
      rw [held_perm hold, map_cons, sum_cons] at hheld
      omega
  refine ⟨wf', funext fun k => ?_⟩
  rw [lookup_perm wf'.nodup hentries, Function.update_apply, lookup_perm wf.nodup hold, find_front,
    hkey]
  split
  · next hk =>
    subst hk
    rw [Option.map_eq_none_iff, find_key_eq_none]
    exact hkey ▸ (nodup_cons.mp hnd).1
  · rfl

theorem entries_held :
    ht.entries.length * abi.entryBytes + abi.tableBytes + ht.bucketCount.toNat * abi.ptrBytes <
      2 ^ abi.width := by
  have hsum : ∀ l : List (HtEntry abi), l.length * abi.entryBytes ≤ (l.map HtEntry.bytes).sum := by
    intro l
    induction l with
    | nil => exact Nat.le_of_eq (Nat.zero_mul _)
    | cons e l ih =>
      rw [length_cons, Nat.add_one_mul, map_cons, sum_cons]
      unfold HtEntry.bytes at ih ⊢
      omega
  have hheld := wf.held
  have hle := hsum ht.entries
  unfold HashTable.held at hheld
  rw [wf.length] at hheld
  omega

theorem insert (habsent : ht.lookup key = none) (value : SizeT abi) (g : Grants) :
    ∃ ok ht', htInsert ht key value g = some (ok, ht') ∧ ht'.Wf ∧
      ht'.lookup = if ok then Function.update ht.lookup key (some value) else ht.lookup := by
  unfold htInsert
  split
  case isFalse => exact ⟨false, ht, rfl, wf, rfl⟩
  split
  case isFalse => exact ⟨false, ht, rfl, wf, rfl⟩
  next hkey =>
  obtain ⟨buckets, hpush⟩ : ∃ buckets, pushFront (fun e => bucketIndex ht.bucketCount e.hash)
      ht.buckets (⟨key, value, htHash key⟩ : HtEntry abi) = some buckets :=
    pushFront_isSome (wf.index_lt (htHash key))
  obtain ⟨hlen, hperm, hplaced⟩ := pushFront_spec hpush
  change buckets.flatten.Perm (_ :: ht.entries) at hperm
  have habs : key ∉ ht.entries.map HtEntry.key := by
    rw [lookup, Option.map_eq_none_iff] at habsent
    exact find_key_eq_none.mp habsent
  have wf' : HashTable.Wf { ht with buckets := buckets, itemCount := ht.itemCount + 1 } := by
    refine wf.of_perm hlen rfl (hplaced wf.placed) hperm ?_ (nodup_cons.mpr ⟨habs, wf.nodup⟩)
      ?_ ?_
    · intro x hx
      rcases mem_cons.mp hx with rfl | hx
      · rfl
      · exact wf.hashed x hx
    · have hfew := wf.entries_held
      have hone : (1 : SizeT abi).toNat = 1 := by cases abi <;> rfl
      have hentry : 1 ≤ abi.entryBytes := by cases abi <;> decide
      have hroom := Nat.le_mul_of_pos_right ht.entries.length hentry
      have htable : 1 ≤ abi.tableBytes := by cases abi <;> decide
      dsimp only
      rw [BitVec.toNat_add, hone, wf.items, Nat.mod_eq_of_lt (by omega)]
      rfl
    · have hfit := of_decide_eq_true (Bool.and_eq_true_iff.mp hkey).2
      rw [map_cons, sum_cons]
      unfold HashTable.held at hfit
      unfold HtEntry.bytes at hfit ⊢
      dsimp only
      omega
  refine ⟨true, _, by dsimp only; rw [hpush]; rfl, wf', ?_⟩
  rw [if_pos rfl]
  refine funext fun k => ?_
  rw [lookup_perm wf'.nodup hperm, find_front, Function.update_apply]
  rfl

/-! ## Growing -/

omit wf in
/-- Entries and buckets that share `n` bytes leave room to double the buckets, if the load asks for
it. -/
theorem room_to_double {p n count items : Nat} (hp : 4 ≤ p)
    (hfew : items * (4 * p) + 5 * p + count * p < n) (hfits : count * (2 * p) ≤ n)
    (hgrow : count * 3 % n < (items + 1) % n * 4 % n) :
    count * 2 * (2 * p) ≤ n ∧ count * 2 < n := by
  have hitems : items * 4 ≤ items * p := Nat.mul_le_mul_left _ hp
  have hcount : count * 4 ≤ count * p := Nat.mul_le_mul_left _ hp
  have hitems4 : items * (4 * p) = 4 * (items * p) := Nat.mul_left_comm ..
  have hcount2 : count * (2 * p) = 2 * (count * p) := Nat.mul_left_comm ..
  have hcount4 : count * 2 * (2 * p) = 4 * (count * p) := by ring
  rw [Nat.mod_eq_of_lt (a := count * 3) (by omega), Nat.mod_eq_of_lt (a := items + 1) (by omega),
    Nat.mod_eq_of_lt (by omega)] at hgrow
  have hscaled : (count * 3 + 1) * p ≤ (items + 1) * 4 * p := Nat.mul_le_mul_right p hgrow
  have hleft : (count * 3 + 1) * p = 3 * (count * p) + p := by ring
  have hright : (items + 1) * 4 * p = 4 * (items * p) + 4 * p := by ring
  omega

/-- A table that has to grow can: a longer array would need more entries than fit. -/
theorem grow_fits (hgrow : htNeedsGrow ht = true) :
    ht.bucketCount.toNat * 2 * (2 * abi.ptrBytes) ≤ 2 ^ abi.width ∧
      (ht.bucketCount * 2).toNat = ht.bucketCount.toNat * 2 := by
  have hfew := wf.entries_held
  have hfits := wf.fits
  have hgrow : (ht.bucketCount * 3).toNat < ((ht.itemCount + 1) * 4).toNat :=
    BitVec.lt_def.mp (of_decide_eq_true hgrow)
  rw [← wf.items] at hfew
  rw [BitVec.toNat_mul, BitVec.toNat_mul, BitVec.toNat_add] at hgrow
  rw [BitVec.toNat_mul]
  have hptr : 4 ≤ abi.ptrBytes := by cases abi <;> decide
  have hsmall : ∀ i : Fin 5, (BitVec.ofNat abi.width i).toNat = i := by cases abi <;> decide
  rw [show (3 : SizeT abi).toNat = 3 from hsmall 3, show (1 : SizeT abi).toNat = 1 from hsmall 1,
    show (4 : SizeT abi).toNat = 4 from hsmall 4] at hgrow
  rw [show (2 : SizeT abi).toNat = 2 from hsmall 2]
  obtain ⟨hle, hlt⟩ := room_to_double hptr hfew hfits hgrow
  exact ⟨hle, Nat.mod_eq_of_lt hlt⟩

omit wf

theorem allocBuckets_eq {n : SizeT abi} {held : Nat} {granted : Bool}
    (hfits : n.toNat * (2 * abi.ptrBytes) ≤ 2 ^ abi.width) :
    allocBuckets held n granted =
      if granted = true ∧ held + n.toNat * abi.ptrBytes < 2 ^ abi.width then
        some (List.replicate n.toNat ([] : List (HtEntry abi)))
      else none := by
  have hptr : 0 < abi.ptrBytes := by cases abi <;> decide
  have hlt : abi.ptrBytes < 2 ^ abi.width := by cases abi <;> decide
  have hword : 0 < 2 ^ abi.width := Nat.two_pow_pos _
  have hbytes : (n * BitVec.ofNat abi.width abi.ptrBytes).toNat = n.toNat * abi.ptrBytes := by
    have hdouble : n.toNat * (2 * abi.ptrBytes) = 2 * (n.toNat * abi.ptrBytes) :=
      Nat.mul_left_comm ..
    rw [BitVec.toNat_mul, BitVec.toNat_ofNat, Nat.mod_eq_of_lt hlt, Nat.mod_eq_of_lt (by omega)]
  unfold allocBuckets alloc
  dsimp only
  rw [hbytes, Nat.mul_div_cancel _ hptr]
  refine if_congr ?_ rfl rfl
  rw [Bool.and_eq_true, decide_eq_true_iff]

include wf

theorem resize (hgrow : htNeedsGrow ht = true) (granted : Bool) :
    ∃ ok ht', htResize ht (ht.bucketCount * 2) granted = some (ok, ht') ∧ ht'.Wf ∧
      ht'.entries.Perm ht.entries ∧ (ok = false → ht' = ht) := by
  obtain ⟨hfits, hdouble⟩ := wf.grow_fits hgrow
  unfold htResize
  rw [allocBuckets_eq (by rw [hdouble]; exact hfits), hdouble]
  split
  · next hnone => exact ⟨false, ht, rfl, wf, .refl _, fun _ => rfl⟩
  · next new hnew =>
    rw [Option.ite_none_right_eq_some] at hnew
    obtain ⟨⟨-, hroom⟩, hnew⟩ := hnew
    obtain ⟨k, hk⟩ := wf.pow2
    have hcount : (ht.bucketCount * 2).toNat = 2 ^ (k + 1) := by rw [hdouble, hk, Nat.pow_succ]
    have hnewlen : new.length = ht.bucketCount.toNat * 2 := by
      rw [← Option.some.inj hnew, length_replicate]
    have hnewflat : new.flatten = [] := by
      rw [← Option.some.inj hnew, flatten_replicate_nil]
    obtain ⟨buckets, hpush, hlen, hperm, hplaced⟩ := pushAll_spec
      (fun e : HtEntry abi => bucketIndex (ht.bucketCount * 2) e.hash) ht.entries new
      fun e _ => by
        rw [hnewlen, ← hdouble, hcount]
        unfold bucketIndex
        rw [toNat_mask hcount]
        exact Nat.mod_lt _ (Nat.two_pow_pos _)
    rw [hnewflat, append_nil] at hperm
    have hloop : (List.range ht.bucketCount.toNat).foldlM (fun new i => (ht.buckets[i]?).bind
        fun chain => chain.foldlM (pushFront fun e => bucketIndex (ht.bucketCount * 2) e.hash) new)
        new = some buckets := by
      rw [← wf.length]
      refine (foldlM_range ht.buckets _ new (Nat.le_refl _)).trans ?_
      rw [take_length]
      exact (foldlM_flatten ..).trans hpush
    refine ⟨true, ⟨buckets, ht.bucketCount * 2, ht.itemCount⟩, by dsimp only; rw [hloop]; rfl, ?_,
      hperm, nofun⟩
    refine ⟨⟨k + 1, hcount⟩, ?_, by rw [hdouble]; exact hfits, ?_, ?_, ?_, ?_, ?_⟩
    · rw [hlen, hnewlen, hdouble]
    · rw [← Option.some.inj hnew] at hplaced
      exact hplaced (placed_replicate _)
    · exact fun e he => wf.hashed e (hperm.mem_iff.mp he)
    · exact (hperm.map HtEntry.key).nodup_iff.mpr wf.nodup
    · exact wf.items.trans hperm.length_eq.symm
    · have hsame : (⟨buckets, ht.bucketCount * 2, ht.itemCount⟩ : HashTable abi).entries.Perm
          ht.entries := hperm
      rw [held_perm hsame]
      unfold HashTable.held at hroom
      dsimp only
      rw [hlen, hnewlen]
      omega

omit wf in
theorem lookup_of_perm (wf' : ht'.Wf) (hperm : ht'.entries.Perm ht.entries) :
    ht'.lookup = ht.lookup :=
  funext fun k => by rw [lookup_perm wf'.nodup hperm]; rfl

/-! ## The calls -/

/-- `ht_set` sets the value or leaves the map as it was, which it never does with a key that is
present. -/
theorem htSet_spec (key : List Byte) (value : SizeT abi) (g : Grants) :
    ∃ ok ht', htSet ht key value g = some (ok, ht') ∧ ht'.Wf ∧
      ht'.lookup = (if ok then Function.update ht.lookup key (some value) else ht.lookup) ∧
      (ok = false → ht.lookup key = none) := by
  obtain ⟨c, hc⟩ := wf.chain_isSome (htHash key)
  unfold htSet
  dsimp only
  rw [hc, Option.bind_some]
  by_cases hany : c.any (HtEntry.is (htHash key) key) = true
  · rw [if_pos hany]
    obtain ⟨wf', hlookup⟩ := wf.update value hc hany rfl
    exact ⟨true, _, rfl, wf', hlookup, nofun⟩
  have habsent : ht.lookup key = none := by
    rw [wf.chain_any hc, Option.isSome_iff_ne_none, not_not] at hany
    exact hany
  rw [if_neg hany]
  split
  · next hgrow =>
    obtain ⟨ok, ht₁, hresize, wf₁, hperm, hfail⟩ := wf.resize hgrow g.buckets
    have hsame := lookup_of_perm wf₁ hperm
    rw [hresize]
    cases ok with
    | false => exact ⟨false, ht₁, rfl, wf₁, hsame, fun _ => habsent⟩
    | true =>
      obtain ⟨ok, ht₂, hins, wf₂, hlookup⟩ := wf₁.insert (by rw [hsame]; exact habsent) value g
      exact ⟨ok, ht₂, hins, wf₂, by rw [hlookup, hsame], fun _ => habsent⟩
  · obtain ⟨ok, ht₂, hins, wf₂, hlookup⟩ := wf.insert habsent value g
    exact ⟨ok, ht₂, hins, wf₂, hlookup, fun _ => habsent⟩

theorem htDelete_spec (key : List Byte) :
    ∃ ht', htDelete ht key = some ((ht.lookup key).isSome, ht') ∧ ht'.Wf ∧
      ht'.lookup = Function.update ht.lookup key none := by
  obtain ⟨c, hc⟩ := wf.chain_isSome (htHash key)
  unfold htDelete
  dsimp only
  rw [hc, Option.map_some, ← wf.chain_any hc]
  cases hany : c.any (HtEntry.is (htHash key) key) with
  | true =>
    obtain ⟨wf', hlookup⟩ := wf.unlink hc hany rfl
    exact ⟨_, rfl, wf', hlookup⟩
  | false =>
    refine ⟨ht, rfl, wf, ?_⟩
    rw [wf.chain_any hc, Option.isSome_eq_false_iff, Option.isNone_iff_eq_none] at hany
    exact (Function.update_eq_self_iff.mpr hany.symm).symm

theorem htCount_eq : htCount ht = {k | ht.lookup k ≠ none}.ncard := by
  have hdom : {k | ht.lookup k ≠ none} = ((ht.entries.map HtEntry.key).toFinset : Set (List Byte)) := by
    ext k
    rw [Set.mem_ofPred_eq, lookup, ne_eq, Option.map_eq_none_iff, find_key_eq_none, not_not,
      coe_toFinset, Set.mem_ofPred_eq]
  rw [htCount, wf.items, hdom, Set.ncard_coe_finset, toFinset_card_of_nodup wf.nodup,
    length_map]

end HashTable.Wf

/-! ## The map -/

/-- A step of a finite map under string keys. An insertion may be refused, an update not. -/
inductive MapStep (f : List Byte → Option (SizeT abi)) :
    HtCall abi → HtAnswer abi → (List Byte → Option (SizeT abi)) → Prop where
  | set (key : List Byte) (value : SizeT abi) (g : Grants) :
    MapStep f (.set key value g) (.set true) (Function.update f key (some value))
  | refused (key : List Byte) (value : SizeT abi) (g : Grants) (habsent : f key = none) :
    MapStep f (.set key value g) (.set false) f
  | get (key : List Byte) : MapStep f (.get key) (.value ((f key).getD 0)) f
  | delete (key : List Byte) :
    MapStep f (.delete key) (.removed (f key).isSome) (Function.update f key none)
  | count : MapStep f .count (.count {k | f k ≠ none}.ncard) f

inductive MapRun : (List Byte → Option (SizeT abi)) → List (HtCall abi) → List (HtAnswer abi) →
    (List Byte → Option (SizeT abi)) → Prop where
  | nil (f : List Byte → Option (SizeT abi)) : MapRun f [] [] f
  | cons {f f' f'' : List Byte → Option (SizeT abi)} {c : HtCall abi} {a : HtAnswer abi}
    {cs : List (HtCall abi)} {as : List (HtAnswer abi)} :
    MapStep f c a f' → MapRun f' cs as f'' → MapRun f (c :: cs) (a :: as) f''

theorem htStep_map (wf : ht.Wf) (c : HtCall abi) :
    ∃ a ht', htStep ht c = some (a, ht') ∧ ht'.Wf ∧ MapStep ht.lookup c a ht'.lookup := by
  cases c with
  | set key value g =>
    obtain ⟨ok, ht', hset, wf', hlookup, habsent⟩ := wf.htSet_spec key value g
    refine ⟨.set ok, ht', by rw [htStep, hset]; rfl, wf', ?_⟩
    cases ok with
    | true =>
      rw [hlookup, if_pos rfl]
      exact .set key value g
    | false =>
      rw [hlookup]
      exact .refused key value g (habsent rfl)
  | get key =>
    exact ⟨_, ht, by rw [htStep, wf.htGet_eq]; rfl, wf, .get key⟩
  | delete key =>
    obtain ⟨ht', hdel, wf', hlookup⟩ := wf.htDelete_spec key
    refine ⟨_, ht', by rw [htStep, hdel]; rfl, wf', ?_⟩
    rw [hlookup]
    exact .delete key
  | count =>
    refine ⟨_, ht, rfl, wf, ?_⟩
    rw [wf.htCount_eq]
    exact .count

theorem htRun_map (calls : List (HtCall abi)) (wf : ht.Wf) :
    ∃ answers ht', htRun ht calls = some (answers, ht') ∧
      MapRun ht.lookup calls answers ht'.lookup := by
  induction calls generalizing ht with
  | nil => exact ⟨[], ht, rfl, .nil _⟩
  | cons c cs ih =>
    obtain ⟨a, ht₁, hstep, wf₁, hmap⟩ := htStep_map wf c
    obtain ⟨as, ht₂, hrun, hmaps⟩ := ih wf₁
    refine ⟨a :: as, ht₂, ?_, .cons hmap hmaps⟩
    rw [htRun, hstep, Option.bind_some, hrun]
    rfl

/-! ## Creation -/

section Round

variable {n : SizeT abi}

theorem width_pos (abi : Abi) : 0 < abi.width := by cases abi <;> decide

theorem nextPow2Loop_zero (hn : 0 < n.toNat) : ∀ fuel, nextPow2Loop n fuel 0 = none
  | 0 => rfl
  | fuel + 1 => by
    have hzero : (0 : SizeT abi) <<< 1 = 0 := BitVec.zero_shiftLeft 1
    rw [nextPow2Loop, if_pos (BitVec.lt_def.mpr (BitVec.toNat_zero ▸ hn)), hzero,
      nextPow2Loop_zero hn fuel]

/-- The loop doubles until it is past `n`, and for ever if no power of two is. -/
theorem nextPow2Loop_spec (hn : 1 < n.toNat) : ∀ fuel j (p : SizeT abi), p.toNat = 2 ^ j →
    j < abi.width → abi.width ≤ j + fuel → (j = 0 ∨ 2 ^ (j - 1) < n.toNat) →
    (nextPow2Loop n fuel p = none ∧ 2 ^ (abi.width - 1) < n.toNat) ∨
      ∃ i q, nextPow2Loop n fuel p = some q ∧ q.toNat = 2 ^ i ∧ n.toNat ≤ 2 ^ i ∧
        2 ^ (i - 1) < n.toNat
  | 0, j, p, _, hj, hfuel, _ => by omega
  | fuel + 1, j, p, hp, hj, hfuel, hlow => by
    rw [nextPow2Loop]
    split
    · next hlt =>
      have hlt : 2 ^ j < n.toNat := hp ▸ BitVec.lt_def.mp hlt
      have hshift : (p <<< 1).toNat = 2 ^ (j + 1) % 2 ^ abi.width := by
        rw [BitVec.toNat_shiftLeft, Nat.shiftLeft_eq, hp, Nat.pow_one, Nat.pow_succ]
      by_cases hlast : j + 1 = abi.width
      · have hzero : p <<< 1 = 0 := by
          refine BitVec.eq_of_toNat_eq (hshift.trans ?_)
          rw [hlast, Nat.mod_self]
          exact BitVec.toNat_zero.symm
        rw [hzero, nextPow2Loop_zero (by omega)]
        rw [show j = abi.width - 1 by omega] at hlt
        exact .inl ⟨rfl, hlt⟩
      · rw [Nat.mod_eq_of_lt (Nat.pow_lt_pow_right (by decide) (by omega))] at hshift
        exact nextPow2Loop_spec hn fuel (j + 1) _ hshift (by omega) (by omega) (.inr hlt)
    · next hge =>
      have hge : n.toNat ≤ 2 ^ j := hp ▸ Nat.le_of_not_lt fun h => hge (BitVec.lt_def.mpr h)
      refine .inr ⟨j, p, rfl, hp, hge, hlow.resolve_left ?_⟩
      rintro rfl
      omega

theorem nextPow2_spec (hn : 1 < n.toNat) :
    (nextPow2 n = none ∧ 2 ^ (abi.width - 1) < n.toNat) ∨
      ∃ i q, nextPow2 n = some q ∧ q.toNat = 2 ^ i ∧ n.toNat ≤ 2 ^ i ∧ 2 ^ (i - 1) < n.toNat := by
  have hsmall : ∀ i : Fin 3, (BitVec.ofNat abi.width i).toNat = i := by cases abi <;> decide
  have hn2 : ¬n < 2 := fun h => by
    have := BitVec.lt_def.mp h
    rw [show (2 : SizeT abi).toNat = 2 from hsmall 2] at this
    omega
  unfold nextPow2
  rw [if_neg hn2]
  exact nextPow2Loop_spec hn _ 0 1 (hsmall 1) (width_pos abi) (by omega) (.inl rfl)

end Round

theorem empty_wf {n : SizeT abi} {i : Nat} (hn : n.toNat = 2 ^ i)
    (hfits : n.toNat * (2 * abi.ptrBytes) ≤ 2 ^ abi.width)
    (hheld : abi.tableBytes + n.toNat * abi.ptrBytes < 2 ^ abi.width) :
    HashTable.Wf (⟨List.replicate n.toNat [], n, 0⟩ : HashTable abi) ∧
      HashTable.lookup (⟨List.replicate n.toNat [], n, 0⟩ : HashTable abi) = fun _ => none := by
  have hentries : HashTable.entries (⟨List.replicate n.toNat [], n, 0⟩ : HashTable abi) = [] :=
    flatten_replicate_nil
  refine ⟨⟨⟨i, hn⟩, length_replicate, hfits, placed_replicate _, ?_, ?_, ?_, ?_⟩, ?_⟩
  · rw [hentries]
    exact nofun
  · rw [hentries]
    exact nodup_nil
  · rw [hentries]
    exact BitVec.toNat_zero
  · unfold HashTable.held
    rw [hentries, length_replicate]
    exact hheld
  · unfold HashTable.lookup
    rw [hentries]
    rfl

/-- Whatever the allocator does, a table got for `initialBuckets` is a map from its creation on. -/
def BehavesAsMap (initialBuckets : SizeT abi) : Prop :=
  ∀ g : Grants, ∃ created, htCreate initialBuckets g = some created ∧
    ∀ ht, created = some ht → ∀ calls, ∃ answers ht' f,
      htRun ht calls = some (answers, ht') ∧ MapRun (fun _ => none) calls answers f

/-- The capacities whose bucket array, rounded up, has a size that `size_t` holds. -/
def CapacityFits (initialBuckets : SizeT abi) : Prop :=
  initialBuckets.toNat * (2 * abi.ptrBytes) ≤ 2 ^ abi.width

theorem created_map {n : SizeT abi} {i : Nat} (hn : n.toNat = 2 ^ i)
    (hfits : n.toNat * (2 * abi.ptrBytes) ≤ 2 ^ abi.width) {granted : Bool} {ht : HashTable abi}
    (hht : (allocBuckets abi.tableBytes n granted).map
      (fun buckets => (⟨buckets, n, 0⟩ : HashTable abi)) = some ht) (calls : List (HtCall abi)) :
    ∃ answers ht' f, htRun ht calls = some (answers, ht') ∧
      MapRun (fun _ => none) calls answers f := by
  rw [HashTable.Wf.allocBuckets_eq hfits] at hht
  split at hht
  · next hroom =>
    obtain rfl := Option.some.inj hht
    obtain ⟨wf, hlookup⟩ := empty_wf hn hfits hroom.2
    obtain ⟨answers, ht', hrun, hmap⟩ := htRun_map calls wf
    exact ⟨answers, ht', _, hrun, hlookup ▸ hmap⟩
  · cases hht

theorem ptrBytes_two_pow (abi : Abi) : ∃ j, abi.ptrBytes = 2 ^ j ∧ 2 ≤ j := by
  cases abi
  · exact ⟨2, rfl, by decide⟩
  · exact ⟨3, rfl, by decide⟩

theorem rounded_capacity {n : SizeT abi} (hfits : CapacityFits n) :
    ∃ i q, nextPow2 (if n = 0 then htDefaultBuckets else n) = some q ∧ q.toNat = 2 ^ i ∧
      q.toNat * (2 * abi.ptrBytes) ≤ 2 ^ abi.width := by
  by_cases h0 : n = 0
  · rw [if_pos h0]
    refine ⟨4, 16, ?_, ?_, ?_⟩ <;> cases abi <;> decide
  rw [if_neg h0]
  have hpos : n.toNat ≠ 0 := fun h => h0 (BitVec.eq_of_toNat_eq (h.trans BitVec.toNat_zero.symm))
  have hsmall : ∀ i : Fin 3, (BitVec.ofNat abi.width i).toNat = i := by cases abi <;> decide
  by_cases h1 : n.toNat = 1
  · refine ⟨0, 1, ?_, hsmall 1, ?_⟩
    · unfold nextPow2
      rw [if_pos (BitVec.lt_def.mpr _)]
      rw [h1, show (2 : SizeT abi).toNat = 2 from hsmall 2]
      decide
    · rw [show (1 : SizeT abi).toNat = 1 from hsmall 1]
      cases abi <;> decide
  obtain ⟨j, hj, hj2⟩ := ptrBytes_two_pow abi
  have hw := width_pos abi
  unfold CapacityFits at hfits
  rw [hj, ← Nat.pow_succ'] at hfits ⊢
  rcases nextPow2_spec (n := n) (by omega) with ⟨-, hbig⟩ | ⟨i, q, hround, hq, -, hlow⟩
  · have h : 2 ^ (abi.width - 1) * 2 ^ (j + 1) < 2 ^ abi.width :=
      Nat.lt_of_lt_of_le (Nat.mul_lt_mul_of_pos_right hbig (Nat.two_pow_pos _)) hfits
    rw [← Nat.pow_add] at h
    have := (Nat.pow_lt_pow_iff_right Nat.one_lt_two).mp h
    omega
  · refine ⟨i, q, hround, hq, ?_⟩
    have h : 2 ^ (i - 1) * 2 ^ (j + 1) < 2 ^ abi.width :=
      Nat.lt_of_lt_of_le (Nat.mul_lt_mul_of_pos_right hlow (Nat.two_pow_pos _)) hfits
    rw [← Nat.pow_add] at h
    have := (Nat.pow_lt_pow_iff_right Nat.one_lt_two).mp h
    rw [hq, ← Nat.pow_add]
    exact Nat.pow_le_pow_right (by decide) (by omega)

/-- A capacity that does not fit gives no table, or one without buckets. -/
theorem wrapped_capacity {n : SizeT abi} (hfits : ¬CapacityFits n) :
    htCreate n ⟨true, true, true, true⟩ = none ∨
      ∃ q, htCreate n ⟨true, true, true, true⟩ = some (some ⟨[], q, 0⟩) := by
  obtain ⟨j, hj, hj2⟩ := ptrBytes_two_pow abi
  have hw := width_pos abi
  have hptr : abi.ptrBytes < 2 ^ abi.width := by cases abi <;> decide
  have hz : (0 : SizeT abi).toNat = 0 := BitVec.toNat_zero
  unfold CapacityFits at hfits
  rw [hj, ← Nat.pow_succ', Nat.succ_eq_add_one, Nat.not_le] at hfits
  have hword : 2 ^ (j + 1) ≤ 2 ^ abi.width := by
    refine Nat.pow_le_pow_right (by decide) ?_
    have := (Nat.pow_lt_pow_iff_right Nat.one_lt_two).mp (hj ▸ hptr)
    omega
  have hn : 1 < n.toNat := by
    by_contra hle
    have := Nat.mul_le_mul_right (2 ^ (j + 1)) (by omega : n.toNat ≤ 1)
    omega
  have h0 : n ≠ 0 := by
    rintro rfl
    rw [hz] at hn
    omega
  have htable : alloc abi 0 abi.tableBytes true = true := by cases abi <;> decide
  unfold htCreate
  rw [if_pos htable, if_neg h0]
  rcases nextPow2_spec hn with ⟨hnone, -⟩ | ⟨i, q, hround, hq, hge, -⟩
  · exact .inl (by rw [hnone]; rfl)
  · refine .inr ⟨q, ?_⟩
    have h : 2 ^ abi.width < 2 ^ i * 2 ^ (j + 1) :=
      Nat.lt_of_lt_of_le hfits (Nat.mul_le_mul_right _ hge)
    rw [← Nat.pow_add] at h
    have hexp := (Nat.pow_lt_pow_iff_right Nat.one_lt_two).mp h
    have hbytes : q * BitVec.ofNat abi.width abi.ptrBytes = 0 := by
      refine BitVec.eq_of_toNat_eq ?_
      rw [BitVec.toNat_mul, BitVec.toNat_ofNat, Nat.mod_eq_of_lt hptr, hq, hj, ← Nat.pow_add, hz]
      exact Nat.mod_eq_zero_of_dvd (Nat.pow_dvd_pow 2 (by omega))
    have hempty : alloc abi abi.tableBytes 0 true = true := by cases abi <;> decide
    have hbuckets : @allocBuckets abi abi.tableBytes q true = some [] := by
      unfold allocBuckets
      dsimp only
      rw [hbytes, hz, if_pos hempty, Nat.zero_div]
      rfl
    rw [hround, Option.map_some, hbuckets]
    rfl

/-- The hash table is a finite map under every pattern of refusals exactly for the capacities that
fit. -/
theorem behavesAsMap_iff (initialBuckets : SizeT abi) :
    BehavesAsMap initialBuckets ↔ CapacityFits initialBuckets := by
  constructor
  · intro h
    by_contra hfits
    obtain ⟨created, hcreate, hall⟩ := h ⟨true, true, true, true⟩
    rcases wrapped_capacity hfits with hnone | ⟨q, hsome⟩
    · cases hnone.symm.trans hcreate
    · cases hsome.symm.trans hcreate
      obtain ⟨answers, ht', f, hrun, -⟩ := hall _ rfl [.get []]
      cases hrun
  · intro hfits g
    obtain ⟨i, q, hround, hq, hqfits⟩ := rounded_capacity hfits
    unfold htCreate
    split
    · rw [hround]
      exact ⟨_, rfl, fun ht hht => created_map hq hqfits hht⟩
    · exact ⟨none, rfl, nofun⟩

/-- A capacity of `2 ^ 61` buckets with pointers of 8 bytes: the size of the array wraps to zero,
and the first look-up reads behind it. -/
theorem capacity_wraps : ¬BehavesAsMap (0x2000000000000000 : SizeT .bits64) := by
  intro h
  obtain ⟨created, hcreate, hall⟩ := h ⟨true, true, true, true⟩
  have htable : htCreate (0x2000000000000000 : SizeT .bits64) ⟨true, true, true, true⟩ =
      some (some ⟨[], 0x2000000000000000, 0⟩) := by decide +kernel
  cases htable.symm.trans hcreate
  obtain ⟨answers, ht', f, hrun, -⟩ := hall _ rfl [.get []]
  cases hrun

end Microgarbage.Containers
