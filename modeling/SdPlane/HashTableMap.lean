import SdPlane.HashTable
import SdPlane.Lib.Crash
import SdPlane.Lib.Simulation

/-!
# The hash table as a finite map

What a table is for is a map from keys to pointers that is `NULL` at all but finitely many keys,
where keys that `key_eq` takes for one are one. `hash_table_insert` sets it at a key,
`hash_table_remove` clears it there, and `count` is the number of keys where it is not `NULL`.

`hash_table_map_iff` is the result, for whatever hash function and however many buckets: a bucket
only holds keys that hash to it, so keys that share a bucket have nothing to do with each other, and
no key has a second node anywhere. `count` is an `int`, so it all ends with the 2³¹st key.
-/

set_option autoImplicit false

namespace SdPlane

variable {κ : Type} {ops : KeyOps κ}

/-- `hash_table_lookup`, with the access to the bucket. -/
def HashTable.lookupIn (ht : HashTable ops) (key : κ) : Except Lib.Crash Nat := do
  Lib.inside (ht.bucketOf key) ht.size
  return ht.lookup key

inductive HashOp (κ : Type)
  | insert (key : κ) (value : Nat)
  | remove (key : κ)

/-- With the answer. There is memory for each node. -/
def HashOp.run (ht : HashTable ops) : HashOp κ → Except Lib.Crash (HashTable ops × Int)
  | .insert key value => do
    Lib.inside (ht.bucketOf key) ht.size
    match ht.insert true key value with
    | none => return (ht, -1)
    | some ht =>
      let _ ← Lib.int ht.count
      return (ht, 0)
  | .remove key => do
    Lib.inside (ht.bucketOf key) ht.size
    match ht.remove key with
    | none => return (ht, -1)
    | some ht =>
      let _ ← Lib.int ht.count
      return (ht, 0)

/-- What is stored is not `NULL`. -/
def HashOp.NonNull : HashOp κ → Prop
  | .insert _ value => value ≠ 0
  | .remove _ => True

instance : ∀ op : HashOp κ, Decidable op.NonNull
  | .insert _ value => inferInstanceAs (Decidable (value ≠ 0))
  | .remove _ => instDecidableTrue

/-! ## What it is for -/

namespace KeyOps

/-- The keys up to `key_eq`. -/
def Keys (ops : KeyOps κ) : Type := Quotient ⟨_, ops.equiv⟩

def key (ops : KeyOps κ) (key : κ) : ops.Keys := Quotient.mk _ key

theorem key_eq {a b : κ} : ops.key a = ops.key b ↔ ops.keyEq a b = true :=
  ⟨fun h => Quotient.exact h, fun h => Quotient.sound h⟩

end KeyOps

/-- What becomes of the map; only what is there can be removed. -/
noncomputable def mapOp (m : ops.Keys →₀ Nat) : HashOp κ → (ops.Keys →₀ Nat) × Int
  | .insert key value => (m.update (ops.key key) value, 0)
  | .remove key => (m.erase (ops.key key), if m (ops.key key) = 0 then -1 else 0)

/-- What can be seen of a table that holds a map. -/
structure HashTableShows (ht : HashTable ops) (m : ops.Keys →₀ Nat) : Prop where
  lookup : ∀ key, ht.lookupIn key = .ok (m (ops.key key))
  once : Chain.Distinct ops.keyEq ((List.range ht.size).flatMap ht.buckets)
  count : ht.count = m.support.card

/-- A key that is not there yet can be counted. -/
def HashOp.Counts (m : ops.Keys →₀ Nat) : HashOp κ → Prop
  | .insert key _ => m (ops.key key) = 0 → m.support.card + 1 < 2 ^ 31
  | .remove _ => True

/-! ## What one operation does to the buckets and to `count` -/

namespace HashTable

variable {ht ht' : HashTable ops} {key : κ} {value : Nat} {malloc : Bool}

/-- Every node is in the bucket that its key hashes to. -/
def Home (ht : HashTable ops) : Prop := ∀ b, ∀ n ∈ ht.buckets b, ht.bucketOf n.1 = b

theorem Home.setChain {idx : Nat} {chain : Chain κ} {count : Int} (h : ht.Home)
    (hd : chain.Distinct ops.keyEq) (hchain : ∀ n ∈ chain, ht.bucketOf n.1 = idx) :
    (ht.setChain idx chain count hd).Home := by
  intro b n hn
  have hn' : n ∈ Function.update ht.buckets idx chain b := hn
  rw [Function.update_apply] at hn'
  split at hn'
  · next heq =>
    rw [heq]
    exact hchain n hn'
  · exact h b n hn'

/-- Either a node has got the value, or there is a new one. -/
theorem insert_cases (hins : ht.insert malloc key value = some ht') :
    (∃ chain hd, Chain.update ops.keyEq key value (ht.buckets (ht.bucketOf key)) = some chain
      ∧ ht' = ht.setChain (ht.bucketOf key) chain ht.count hd)
    ∨ ht.find key = none ∧ ∃ hd, ht' = ht.setChain (ht.bucketOf key)
      ((key, value) :: ht.buckets (ht.bucketOf key)) (ht.count + 1) hd := by
  unfold insert at hins
  split at hins
  · next chain hupd => exact .inl ⟨chain, _, hupd, (Option.some.inj hins).symm⟩
  · next hupd =>
    split at hins
    · exact .inr ⟨Chain.update_eq_none.mp hupd, _, (Option.some.inj hins).symm⟩
    · cases hins

/-- A node has been taken out. -/
theorem remove_cases (hrem : ht.remove key = some ht') :
    ∃ chain hd, Chain.unlink ops.keyEq key (ht.buckets (ht.bucketOf key)) = some chain
      ∧ ht' = ht.setChain (ht.bucketOf key) chain (ht.count - 1) hd := by
  unfold remove at hrem
  split at hrem
  · next chain hunl => exact ⟨chain, _, hunl, (Option.some.inj hrem).symm⟩
  · cases hrem

theorem Home.insert (h : ht.Home) (hins : ht.insert malloc key value = some ht') : ht'.Home := by
  obtain ⟨chain, hd, hupd, rfl⟩ | ⟨-, hd, rfl⟩ := insert_cases hins
  · apply h.setChain
    intro n hn
    have hkey : n.1 ∈ (ht.buckets (ht.bucketOf key)).map Prod.fst := by
      rw [← Chain.mem_keys_update hupd]
      exact List.mem_map_of_mem hn
    obtain ⟨n', hn', heq⟩ := List.mem_map.mp hkey
    rw [← heq]
    exact h _ n' hn'
  · apply h.setChain
    intro n hn
    cases hn with
    | head => rfl
    | tail _ hn => exact h _ n hn

theorem Home.remove (h : ht.Home) (hrem : ht.remove key = some ht') : ht'.Home := by
  obtain ⟨chain, hd, hunl, rfl⟩ := remove_cases hrem
  apply h.setChain
  intro n hn
  exact h _ n ((Chain.unlink_sublist hunl).subset hn)

/-- Only a key that has no node yet is counted. -/
theorem count_insert (hins : ht.insert malloc key value = some ht') :
    ht'.count = if ht.find key = none then ht.count + 1 else ht.count := by
  obtain ⟨chain, hd, hupd, rfl⟩ | ⟨hnone, hd, rfl⟩ := insert_cases hins
  · have hfind : ¬ ht.find key = none := by
      intro hnone
      have hno : Chain.update ops.keyEq key value (ht.buckets (ht.bucketOf key)) = none :=
        Chain.update_eq_none.mpr hnone
      rw [hupd] at hno
      cases hno
    rw [if_neg hfind]
    rfl
  · rw [if_pos hnone]
    rfl

theorem count_remove (hrem : ht.remove key = some ht') : ht'.count = ht.count - 1 := by
  obtain ⟨chain, hd, -, rfl⟩ := remove_cases hrem
  rfl

/-- The array of the buckets stays as large as it is. -/
theorem size_insert (hins : ht.insert malloc key value = some ht') :
    ht'.size = ht.size ∧ ht'.mask = ht.mask := by
  obtain ⟨chain, hd, -, rfl⟩ | ⟨-, hd, rfl⟩ := insert_cases hins
  · exact ⟨rfl, rfl⟩
  · exact ⟨rfl, rfl⟩

theorem size_remove (hrem : ht.remove key = some ht') :
    ht'.size = ht.size ∧ ht'.mask = ht.mask := by
  obtain ⟨chain, hd, -, rfl⟩ := remove_cases hrem
  exact ⟨rfl, rfl⟩

/-- No key has two nodes, in one bucket or in two. -/
theorem Home.once (h : ht.Home) :
    Chain.Distinct ops.keyEq ((List.range ht.size).flatMap ht.buckets) := by
  refine List.pairwise_flatMap.mpr ⟨fun b _ => ht.distinct b, ?_⟩
  apply List.nodup_range.imp
  intro b b' hne n hn n' hn'
  by_contra hkey
  apply hne
  rw [← h b n hn, ← h b' n' hn']
  exact bucketOf_congr (Bool.eq_true_of_not_eq_false hkey)

end HashTable

/-! ## The invariant -/

structure HashTableInv (ht : HashTable ops) (m : ops.Keys →₀ Nat) : Prop where
  mask : ht.mask + 1 = ht.size
  home : ht.Home
  find : ∀ key, ht.find key = if m (ops.key key) = 0 then none else some (m (ops.key key))
  count : ht.count = m.support.card
  fits : m.support.card < 2 ^ 31

theorem hashTableInv_init {size : Nat} (hsize : 0 < size) :
    HashTableInv (hashTableInit ops size) 0 where
  mask := Nat.sub_add_cancel hsize
  home := fun _ _ hn => by cases hn
  find := fun _ => rfl
  count := rfl
  fits := by rw [Finsupp.support_zero, Finset.card_empty]; decide

namespace HashTableInv

variable {ht : HashTable ops} {m : ops.Keys →₀ Nat} (h : HashTableInv ht m)

include h

theorem inside (key : κ) : Lib.inside (ht.bucketOf key) ht.size = .ok () := by
  have hmask := h.mask
  have hle : ht.bucketOf key ≤ ht.mask := Nat.and_le_right
  exact Lib.inside_of_lt (by omega)

theorem find_eq_none {key : κ} : ht.find key = none ↔ m (ops.key key) = 0 := by
  rw [h.find key]
  split <;> simp [*]

theorem shows : HashTableShows ht m where
  lookup := fun key => by
    rw [HashTable.lookupIn, h.inside key, Lib.ok_bind, HashTable.lookup, h.find key]
    split
    · next hnull => rw [hnull]; rfl
    · rfl
  once := h.home.once
  count := h.count

/-! ### Inserting -/

omit h in
/-- A key is counted once. -/
theorem card_update {key : ops.Keys} {value : Nat} (hvalue : value ≠ 0) :
    (m.update key value).support.card
      = if m key = 0 then m.support.card + 1 else m.support.card := by
  classical
  rw [Finsupp.support_update_ne_zero _ _ hvalue]
  by_cases hnew : m key = 0
  · rw [if_pos hnew, Finset.card_insert_of_notMem (Finsupp.notMem_support_iff.mpr hnew)]
  · rw [if_neg hnew, Finset.insert_eq_of_mem (Finsupp.mem_support_iff.mpr hnew)]

theorem count_insert {key : κ} {value : Nat} (hvalue : value ≠ 0) {ht' : HashTable ops}
    (hins : ht.insert true key value = some ht') :
    ht'.count = (m.update (ops.key key) value).support.card := by
  rw [HashTable.count_insert hins, h.count, card_update hvalue]
  by_cases hnew : m (ops.key key) = 0
  · rw [if_pos (h.find_eq_none.mpr hnew), if_pos hnew]
    rfl
  · rw [if_neg (h.find_eq_none.not.mpr hnew), if_neg hnew]

theorem insert {key : κ} {value : Nat} (hvalue : value ≠ 0) {ht' : HashTable ops}
    (hins : ht.insert true key value = some ht')
    (hfits : (m.update (ops.key key) value).support.card < 2 ^ 31) :
    HashTableInv ht' (m.update (ops.key key) value) := by
  classical
  obtain ⟨hsize, hmask⟩ := HashTable.size_insert hins
  refine ⟨by rw [hmask, hsize, h.mask], h.home.insert hins, fun key' => ?_,
    h.count_insert hvalue hins, hfits⟩
  rw [HashTable.find_insert hins, Finsupp.coe_update, Function.update_apply]
  by_cases hkey : ops.keyEq key key' = true
  · have heq : ops.key key' = ops.key key := (KeyOps.key_eq.mpr hkey).symm
    rw [if_pos hkey, if_pos heq, if_neg hvalue]
  · have hne : ops.key key' ≠ ops.key key := fun heq => hkey (KeyOps.key_eq.mp heq.symm)
    rw [if_neg hkey, if_neg hne, h.find key']

/-- With memory there is a node for every key. -/
theorem run_insert (key : κ) (value : Nat) : ∃ ht', ht.insert true key value = some ht'
    ∧ (HashOp.insert key value).run ht = (Lib.int ht'.count).map fun _ => (ht', 0) := by
  cases hins : ht.insert true key value with
  | none => exact absurd (HashTable.insert_eq_none.mp hins).1 (by decide)
  | some ht' =>
    refine ⟨ht', rfl, ?_⟩
    simp only [HashOp.run, h.inside key, hins, Lib.ok_bind]
    cases Lib.int ht'.count <;> rfl

/-! ### Removing -/

theorem remove {key : κ} {ht' : HashTable ops} (hrem : ht.remove key = some ht') :
    HashTableInv ht' (m.erase (ops.key key)) := by
  classical
  obtain ⟨hsize, hmask⟩ := HashTable.size_remove hrem
  have hthere : ops.key key ∈ m.support := by
    rw [Finsupp.mem_support_iff, ne_eq, ← h.find_eq_none, ← HashTable.remove_eq_none, hrem]
    simp
  have hcard : (m.erase (ops.key key)).support.card = m.support.card - 1 := by
    rw [Finsupp.support_erase, Finset.card_erase_of_mem hthere]
  have hpos : 0 < m.support.card := Finset.card_pos.mpr ⟨_, hthere⟩
  have hfits := h.fits
  refine ⟨by rw [hmask, hsize, h.mask], h.home.remove hrem, fun key' => ?_, ?_, by omega⟩
  · rw [HashTable.find_remove hrem]
    by_cases hkey : ops.keyEq key key' = true
    · have heq : ops.key key' = ops.key key := (KeyOps.key_eq.mpr hkey).symm
      rw [if_pos hkey, heq, Finsupp.erase_same, if_pos rfl]
    · have hne : ops.key key' ≠ ops.key key := fun heq => hkey (KeyOps.key_eq.mp heq.symm)
      rw [if_neg hkey, Finsupp.erase_ne hne, h.find key']
  · have hcount := h.count
    rw [HashTable.count_remove hrem]
    omega

/-! ### One operation -/

theorem run {op : HashOp κ} (hvalue : op.NonNull) (hcounts : op.Counts m) :
    ∃ ht', op.run ht = .ok (ht', (mapOp m op).2) ∧ HashTableInv ht' (mapOp m op).1 := by
  cases op with
  | insert key value =>
    have hfits : (m.update (ops.key key) value).support.card < 2 ^ 31 := by
      rw [card_update hvalue]
      split
      · next hnew => exact hcounts hnew
      · exact h.fits
    obtain ⟨ht', hins, hrun⟩ := h.run_insert key value
    have hcount := h.count_insert hvalue hins
    refine ⟨ht', ?_, h.insert hvalue hins hfits⟩
    rw [hrun, Lib.int_of_fits (by omega)]
    rfl
  | remove key =>
    cases hrem : ht.remove key with
    | none =>
      have habsent := h.find_eq_none.mp (HashTable.remove_eq_none.mp hrem)
      refine ⟨ht, ?_, ?_⟩
      · simp only [HashOp.run, h.inside key, hrem, Lib.ok_bind, mapOp, if_pos habsent,
          Lib.pure_eq_ok]
      · rw [mapOp, Finsupp.erase_of_notMem_support (Finsupp.notMem_support_iff.mpr habsent)]
        exact h
    | some ht' =>
      have hthere : ¬ m (ops.key key) = 0 := by
        rw [← h.find_eq_none, ← HashTable.remove_eq_none, hrem]
        simp
      have hinv := h.remove hrem
      have hcount := hinv.count
      have hfits := hinv.fits
      have hint : Lib.int ht'.count = .ok ht'.count := Lib.int_of_fits (by omega)
      refine ⟨ht', ?_, hinv⟩
      simp only [HashOp.run, h.inside key, hrem, hint, Lib.ok_bind, mapOp, if_neg hthere,
        Lib.pure_eq_ok]

/-- What has been counted is an `int`. -/
theorem counts {op : HashOp κ} (hvalue : op.NonNull) {r : HashTable ops × Int}
    (hrun : op.run ht = .ok r) : op.Counts m := by
  cases op with
  | insert key value =>
    intro hnew
    obtain ⟨ht', hins, hrun'⟩ := h.run_insert key value
    have hcount := h.count_insert hvalue hins
    rw [card_update hvalue, if_pos hnew] at hcount
    by_contra hbig
    rw [hrun', Lib.int_of_big (by omega)] at hrun
    cases hrun
  | remove key => trivial

end HashTableInv

/-! ## The result -/

theorem counts_of_simulates {size : Nat} (hsize : 0 < size) {ms : List (HashOp κ)}
    (hvalues : ∀ op, op ∈ ms → op.NonNull)
    (h : Lib.Simulates HashOp.run mapOp HashTableShows (hashTableInit ops size) 0 ms) :
    Lib.AllAllowed mapOp (fun (m : ops.Keys →₀ Nat) op => op.Counts m) 0 ms := by
  refine (Lib.simulates_iff_allAllowed (R := HashTableInv) ?_ ?_ ?_
    (hashTableInv_init hsize) (Lib.allAllowed_const.mpr hvalues)).mp h
  · exact fun _ _ _ h hvalue hcounts => h.run hvalue hcounts
  · exact fun _ _ h => h.shows
  · rintro _ _ _ h hvalue ⟨_, hrun, -⟩
    exact h.counts hvalue hrun

/-- **The hash table is a finite map**, over any sequence of operations: every lookup finds what was
    stored last under an equal key, no key has two nodes, and `count` counts the keys, exactly as
    long as there are fewer than 2³¹ of them. -/
theorem hash_table_map_iff {size : Nat} (hsize : 0 < size) {ms : List (HashOp κ)}
    (hvalues : ∀ op, op ∈ ms → op.NonNull) :
    Lib.Simulates HashOp.run mapOp HashTableShows (hashTableInit ops size) 0 ms
      ↔ Lib.AllAllowed mapOp (fun (m : ops.Keys →₀ Nat) op => op.Counts m) 0 ms := by
  refine ⟨counts_of_simulates hsize hvalues, Lib.simulates_of_allAllowed (R := HashTableInv) ?_ ?_
    (hashTableInv_init hsize) (Lib.allAllowed_const.mpr hvalues)⟩
  · exact fun _ _ _ hinv hvalue hcounts => hinv.run hvalue hcounts
  · exact fun _ _ hinv => hinv.shows

/-- Numbers that all hash to one bucket. -/
def oneBucket : KeyOps Nat where
  hashFn := fun _ => 0
  keyEq := fun a b => a == b
  equiv := by simpa only [beq_iff_eq] using eq_equivalence
  hashFn_congr := fun _ _ _ => rfl

/-- There are no more keys than there have been operations. -/
theorem card_specOps {pre : List (HashOp κ)} (hvalues : ∀ op, op ∈ pre → op.NonNull) :
    (Lib.specOps mapOp (0 : ops.Keys →₀ Nat) pre).1.support.card ≤ pre.length := by
  induction pre using List.reverseRecOn with
  | nil => rfl
  | append_singleton pre op ih =>
    have hle := ih fun op' hop => hvalues op' (List.mem_append_left _ hop)
    rw [Lib.specOps_concat, List.length_append, List.length_singleton]
    cases op with
    | insert key value =>
      have hvalue : value ≠ 0 := hvalues (.insert key value) (by simp)
      show (Finsupp.update _ _ _).support.card ≤ _
      rw [HashTableInv.card_update hvalue]
      split <;> omega
    | remove key =>
      classical
      show (Finsupp.erase _ _).support.card ≤ _
      rw [Finsupp.support_erase]
      exact (Finset.card_erase_le).trans (by omega)

theorem counts_of_length {ms : List (HashOp κ)} (hvalues : ∀ op, op ∈ ms → op.NonNull)
    (hlength : ms.length ≤ 2 ^ 31 - 1) :
    Lib.AllAllowed mapOp (fun (m : ops.Keys →₀ Nat) op => op.Counts m) 0 ms := by
  intro pre op hpre
  have hle := hpre.length_le
  rw [List.length_append, List.length_singleton] at hle
  have hcard := @card_specOps _ ops pre fun op' hop =>
    hvalues op' (hpre.subset (List.mem_append_left _ hop))
  cases op with
  | insert key value =>
    intro _
    omega
  | remove key => trivial

/-- Keys that share a bucket: one is stored twice, one is removed twice and stored again. -/
theorem hash_table_map_shared : Lib.Simulates HashOp.run mapOp HashTableShows
    (hashTableInit oneBucket 2) 0
    [.insert 1 5, .insert 2 6, .insert 3 7, .insert 1 8, .remove 2, .remove 2, .insert 2 9,
      .remove 3] :=
  (hash_table_map_iff (by decide) (by decide)).mpr (counts_of_length (by decide) (by decide))

/-- The numbers below `n`, each stored once. -/
def insertBelow (n : Nat) : List (HashOp Nat) := (List.range n).map fun key => .insert key 1

theorem card_insertBelow (n : Nat) :
    (Lib.specOps mapOp (0 : oneBucket.Keys →₀ Nat) (insertBelow n)).1.support.card = n
      ∧ ∀ key, n ≤ key → (Lib.specOps mapOp (0 : oneBucket.Keys →₀ Nat) (insertBelow n)).1
        (oneBucket.key key) = 0 := by
  induction n with
  | zero => exact ⟨by rw [insertBelow]; rfl, fun _ _ => rfl⟩
  | succ n ih =>
    obtain ⟨hcard, hnew⟩ := ih
    have hstep : insertBelow (n + 1) = insertBelow n ++ [.insert n 1] := by
      simp [insertBelow, List.range_succ]
    rw [hstep, Lib.specOps_concat]
    refine ⟨?_, fun key hkey => ?_⟩
    · show (Finsupp.update _ _ _).support.card = _
      rw [HashTableInv.card_update (by decide), if_pos (hnew n le_rfl), hcard]
    · have hne : oneBucket.key key ≠ oneBucket.key n := by
        intro heq
        have hbeq : (key == n) = true := KeyOps.key_eq.mp heq
        have heq' : key = n := eq_of_beq hbeq
        omega
      classical
      show Finsupp.update _ _ _ _ = _
      rw [Finsupp.coe_update, Function.update_of_ne hne]
      exact hnew key (by omega)

/-- 2³¹ keys are too many. -/
theorem hash_table_count_overflows : ¬ ∀ ms : List (HashOp Nat), (∀ op, op ∈ ms → op.NonNull) →
    Lib.Simulates HashOp.run mapOp HashTableShows (hashTableInit oneBucket 2) 0 ms := by
  intro h
  obtain ⟨n, hn⟩ : ∃ n, n + 1 = 2 ^ 31 := ⟨2 ^ 31 - 1, rfl⟩
  have hvalues : ∀ op, op ∈ insertBelow (n + 1) → op.NonNull := by
    intro op hop
    obtain ⟨key, -, rfl⟩ := List.mem_map.mp hop
    exact Nat.one_ne_zero
  have hlast := counts_of_simulates (by decide) hvalues (h _ hvalues) (insertBelow n) (.insert n 1)
    (by simp [insertBelow, List.range_succ])
  obtain ⟨hcard, hnew⟩ := card_insertBelow n
  have hlt := hlast (hnew n le_rfl)
  omega

end SdPlane
