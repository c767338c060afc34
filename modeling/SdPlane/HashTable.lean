import Mathlib

/-!
# The chained hash table (`hash_table.c`) and the Jenkins hash (`jhash.h`)

A bucket is a list of nodes, a node a key with the value pointer stored for it. A value is a
number, and `0` is `NULL`: `hash_table_lookup` cannot tell a key whose value is `NULL` from
one that is not there, and both of its callers' mistakes with that are kept possible.

`hash_fn` and `key_eq` are set by `hash_table_init` and never again, so they are a parameter
of the table, with what a table relies on: `key_eq` is an equivalence that `hash_fn`
respects. That no bucket holds two nodes for one key is a field of the table. With both, the
table is a map (`find`), and the last section says so operation by operation.
-/

set_option autoImplicit false

namespace SdPlane

/-! ## `jhash` -/

namespace Jhash

/-- `JHASH_SEED`. -/
def seed : UInt32 := 0xdeadbeef

/-- `jhash_rot`. -/
def rot (x k : UInt32) : UInt32 := (x <<< k) ||| (x >>> (32 - k))

/-- `jhash_mix`. -/
def mix (a b c : UInt32) : UInt32 × UInt32 × UInt32 :=
  let a := a - c; let a := a ^^^ rot c 4; let c := c + b
  let b := b - a; let b := b ^^^ rot a 6; let a := a + c
  let c := c - b; let c := c ^^^ rot b 8; let b := b + a
  let a := a - c; let a := a ^^^ rot c 16; let c := c + b
  let b := b - a; let b := b ^^^ rot a 19; let a := a + c
  let c := c - b; let c := c ^^^ rot b 4; let b := b + a
  (a, b, c)

/-- `jhash_final`, of which only `c` is used. -/
def final (a b c : UInt32) : UInt32 :=
  let c := c ^^^ b; let c := c - rot b 14
  let a := a ^^^ c; let a := a - rot c 11
  let b := b ^^^ a; let b := b - rot a 25
  let c := c ^^^ b; let c := c - rot b 16
  let a := a ^^^ c; let a := a - rot c 4
  let b := b ^^^ a; let b := b - rot a 14
  let c := c ^^^ b; c - rot b 24

/-- The loop over three words at a time and the `switch` over the last ones. -/
def words : List UInt32 → UInt32 → UInt32 → UInt32 → UInt32
  | k₀ :: k₁ :: k₂ :: k₃ :: key, a, b, c =>
    let (a, b, c) := mix (a + k₀) (b + k₁) (c + k₂)
    words (k₃ :: key) a b c
  | [k₀, k₁, k₂], a, b, c => final (a + k₀) (b + k₁) (c + k₂)
  | [k₀, k₁], a, b, c => final (a + k₀) (b + k₁) c
  | [k₀], a, b, c => final (a + k₀) b c
  | [], _, _, c => c

end Jhash

/-- `jhash`. -/
def jhash (key : List UInt32) (initval : UInt32) : UInt32 :=
  let init := Jhash.seed + (UInt32.ofNat key.length <<< 2) + initval
  Jhash.words key init init init

/-! ## The table -/

/-- `hash_fn` and `key_eq`. -/
structure KeyOps (κ : Type) where
  hashFn : κ → UInt32
  keyEq : κ → κ → Bool
  equiv : Equivalence fun a b => keyEq a b = true
  hashFn_congr : ∀ a b, keyEq a b = true → hashFn a = hashFn b

/-- A bucket: `struct ht_node` after `struct ht_node`. -/
abbrev Chain (κ : Type) := List (κ × Nat)

/-- No two nodes are for one key. -/
def Chain.Distinct {κ : Type} (keyEq : κ → κ → Bool) (l : Chain κ) : Prop :=
  l.Pairwise fun m n => keyEq m.1 n.1 = false

/-- `struct hash_table`. -/
structure HashTable {κ : Type} (ops : KeyOps κ) where
  buckets : Nat → Chain κ
  size : Nat
  mask : Nat
  count : Int
  distinct : ∀ b, Chain.Distinct ops.keyEq (buckets b)

variable {κ : Type} {ops : KeyOps κ}

/-- `hash_table_init`. -/
def hashTableInit (ops : KeyOps κ) (size : Nat) : HashTable ops where
  buckets := fun _ => []
  size := size
  mask := size - 1
  count := 0
  distinct := fun _ => List.Pairwise.nil

namespace Chain

/-- The first loop of `hash_table_insert`: store the value into the node that is there. -/
def update (keyEq : κ → κ → Bool) (key : κ) (value : Nat) : Chain κ → Option (Chain κ)
  | [] => none
  | (k, v) :: rest =>
    if keyEq k key then some ((k, value) :: rest)
    else (update keyEq key value rest).map ((k, v) :: ·)

/-- The loop of `hash_table_remove`: unlink the first node for the key. -/
def unlink (keyEq : κ → κ → Bool) (key : κ) : Chain κ → Option (Chain κ)
  | [] => none
  | (k, v) :: rest =>
    if keyEq k key then some rest else (unlink keyEq key rest).map ((k, v) :: ·)

/-- The value in the first node for a key. -/
def find (keyEq : κ → κ → Bool) (key : κ) : Chain κ → Option Nat
  | [] => none
  | (k, v) :: rest => if keyEq k key then some v else find keyEq key rest

theorem update_eq_none {keyEq : κ → κ → Bool} {key : κ} {value : Nat} {l : Chain κ} :
    update keyEq key value l = none ↔ find keyEq key l = none := by
  induction l with
  | nil => simp [update, find]
  | cons n l ih =>
    rw [update, find]
    cases keyEq n.1 key with
    | true => simp
    | false => simpa using ih

theorem mem_keys_update {keyEq : κ → κ → Bool} {key : κ} {value : Nat} {l l' : Chain κ}
    (h : update keyEq key value l = some l') : l'.map Prod.fst = l.map Prod.fst := by
  induction l generalizing l' with
  | nil => simp [update] at h
  | cons n l ih =>
    rw [update] at h
    split at h
    · rw [← Option.some.inj h]; rfl
    · obtain ⟨r, hr, rfl⟩ := Option.map_eq_some_iff.mp h
      simp [ih hr]

theorem unlink_sublist {keyEq : κ → κ → Bool} {key : κ} {l l' : Chain κ}
    (h : unlink keyEq key l = some l') : l'.Sublist l := by
  induction l generalizing l' with
  | nil => simp [unlink] at h
  | cons n l ih =>
    rw [unlink] at h
    split at h
    · rw [← Option.some.inj h]; exact List.sublist_cons_self n l
    · obtain ⟨r, hr, rfl⟩ := Option.map_eq_some_iff.mp h
      exact (ih hr).cons_cons n

theorem distinct_iff_keys {keyEq : κ → κ → Bool} {l : Chain κ} :
    l.Distinct keyEq ↔ (l.map Prod.fst).Pairwise fun a b => keyEq a b = false := by
  rw [List.pairwise_map]
  rfl

theorem Distinct.update {keyEq : κ → κ → Bool} {key : κ} {value : Nat} {l l' : Chain κ}
    (hl : l.Distinct keyEq) (h : Chain.update keyEq key value l = some l') :
    l'.Distinct keyEq := by
  rw [distinct_iff_keys, mem_keys_update h]
  exact distinct_iff_keys.mp hl

theorem Distinct.unlink {keyEq : κ → κ → Bool} {key : κ} {l l' : Chain κ}
    (hl : l.Distinct keyEq) (h : Chain.unlink keyEq key l = some l') : l'.Distinct keyEq :=
  List.Pairwise.sublist (unlink_sublist h) hl

theorem find_eq_none {keyEq : κ → κ → Bool} {key : κ} {l : Chain κ} :
    find keyEq key l = none ↔ ∀ n ∈ l, keyEq n.1 key = false := by
  induction l with
  | nil => simp [find]
  | cons n l ih =>
    rw [find]
    cases hk : keyEq n.1 key with
    | true => simp [hk]
    | false => simp [hk, ih]

theorem Distinct.prepend (ops : KeyOps κ) {key : κ} {value : Nat} {l : Chain κ}
    (hl : l.Distinct ops.keyEq) (h : find ops.keyEq key l = none) :
    Distinct ops.keyEq ((key, value) :: l) := by
  refine List.pairwise_cons.mpr ⟨fun n hn => ?_, hl⟩
  have hne := find_eq_none.mp h n hn
  by_contra hc
  have hsymm := ops.equiv.symm (Bool.eq_true_of_not_eq_false hc)
  rw [hne] at hsymm
  cases hsymm

end Chain

namespace HashTable

/-- `hash_fn (key) & mask`. -/
def bucketOf (ht : HashTable ops) (key : κ) : Nat := (ops.hashFn key).toNat &&& ht.mask

/-- `ht->buckets[idx] = chain`, with the count of entries that results. -/
def setChain (ht : HashTable ops) (idx : Nat) (chain : Chain κ) (count : Int)
    (h : chain.Distinct ops.keyEq) : HashTable ops :=
  { ht with
    buckets := Function.update ht.buckets idx chain
    count := count
    distinct := fun b => by
      rw [Function.update_apply]
      split
      · exact h
      · exact ht.distinct b }

/-- `hash_table_insert`; `none` is the `-1` it answers when there is no memory. -/
def insert (malloc : Bool) (ht : HashTable ops) (key : κ) (value : Nat) :
    Option (HashTable ops) :=
  match h : Chain.update ops.keyEq key value (ht.buckets (ht.bucketOf key)) with
  | some chain =>
    some (ht.setChain (ht.bucketOf key) chain ht.count ((ht.distinct _).update h))
  | none =>
    if malloc then
      some (ht.setChain (ht.bucketOf key) ((key, value) :: ht.buckets (ht.bucketOf key))
        (ht.count + 1) ((ht.distinct _).prepend ops (Chain.update_eq_none.mp h)))
    else none

/-- `hash_table_remove`; `none` is the `-1` it answers when the key is not there. -/
def remove (ht : HashTable ops) (key : κ) : Option (HashTable ops) :=
  match h : Chain.unlink ops.keyEq key (ht.buckets (ht.bucketOf key)) with
  | some chain =>
    some (ht.setChain (ht.bucketOf key) chain (ht.count - 1) ((ht.distinct _).unlink h))
  | none => none

/-- The value stored for a key. -/
def find (ht : HashTable ops) (key : κ) : Option Nat :=
  Chain.find ops.keyEq key (ht.buckets (ht.bucketOf key))

/-- `hash_table_lookup`. -/
def lookup (ht : HashTable ops) (key : κ) : Nat := (ht.find key).getD 0

/-! ## The table is a map -/

theorem bucketOf_congr {ht : HashTable ops} {a b : κ} (h : ops.keyEq a b = true) :
    ht.bucketOf a = ht.bucketOf b := by
  unfold bucketOf
  rw [ops.hashFn_congr a b h]

end HashTable

/-- Two keys equal to a third agree on every other key. -/
theorem KeyOps.keyEq_congr (ops : KeyOps κ) {a b c : κ} (h : ops.keyEq a b = true) :
    ops.keyEq a c = ops.keyEq b c := by
  rw [Bool.eq_iff_iff]
  exact ⟨fun hac => ops.equiv.trans (ops.equiv.symm h) hac, fun hbc => ops.equiv.trans h hbc⟩

theorem Chain.find_update (ops : KeyOps κ) {key key' : κ} {value : Nat} {l l' : Chain κ}
    (h : Chain.update ops.keyEq key value l = some l') :
    Chain.find ops.keyEq key' l'
      = if ops.keyEq key key' then some value else Chain.find ops.keyEq key' l := by
  induction l generalizing l' with
  | nil => simp [Chain.update] at h
  | cons n l ih =>
    rw [Chain.update] at h
    split at h
    · next hk =>
      rw [← Option.some.inj h, Chain.find, Chain.find, ops.keyEq_congr hk]
      cases ops.keyEq key key' <;> rfl
    · next hk =>
      obtain ⟨r, hr, rfl⟩ := Option.map_eq_some_iff.mp h
      rw [Chain.find, Chain.find, ih hr]
      cases hk' : ops.keyEq key key' with
      | false => rfl
      | true =>
        -- the node is not for `key`, so it is not for `key'` either
        have hn : ops.keyEq n.1 key' = false := by
          by_contra hc
          exact hk (ops.equiv.trans (Bool.eq_true_of_not_eq_false hc) (ops.equiv.symm hk'))
        simp [hn]

theorem Chain.find_unlink (ops : KeyOps κ) {key key' : κ} {l l' : Chain κ}
    (hl : l.Distinct ops.keyEq) (h : Chain.unlink ops.keyEq key l = some l') :
    Chain.find ops.keyEq key' l'
      = if ops.keyEq key key' then none else Chain.find ops.keyEq key' l := by
  induction l generalizing l' with
  | nil => simp [Chain.unlink] at h
  | cons n l ih =>
    obtain ⟨hn, hl⟩ := List.pairwise_cons.mp hl
    rw [Chain.unlink] at h
    split at h
    · next hk =>
      rw [← Option.some.inj h, Chain.find, ops.keyEq_congr hk]
      cases hk' : ops.keyEq key key' with
      | false => rfl
      | true =>
        rw [if_pos rfl, Chain.find_eq_none]
        intro m hm
        rw [← hn m hm, Bool.eq_iff_iff]
        have heq : ops.keyEq n.1 key' = true := ops.equiv.trans hk hk'
        exact ⟨fun hm => ops.equiv.trans heq (ops.equiv.symm hm),
          fun hm => ops.equiv.trans (ops.equiv.symm hm) heq⟩
    · next hk =>
      obtain ⟨r, hr, rfl⟩ := Option.map_eq_some_iff.mp h
      rw [Chain.find, Chain.find, ih hl hr]
      cases hk' : ops.keyEq key key' with
      | false => rfl
      | true =>
        have hn : ops.keyEq n.1 key' = false := by
          by_contra hc
          exact hk (ops.equiv.trans (Bool.eq_true_of_not_eq_false hc) (ops.equiv.symm hk'))
        simp [hn]

theorem Chain.unlink_eq_none {keyEq : κ → κ → Bool} {key : κ} {l : Chain κ} :
    Chain.unlink keyEq key l = none ↔ Chain.find keyEq key l = none := by
  induction l with
  | nil => simp [Chain.unlink, Chain.find]
  | cons n l ih =>
    rw [Chain.unlink, Chain.find]
    cases keyEq n.1 key with
    | true => simp
    | false => simpa using ih

namespace HashTable

variable {ht ht' : HashTable ops} {key key' : κ} {value : Nat} {malloc : Bool}

@[simp] theorem find_hashTableInit (size : Nat) : (hashTableInit ops size).find key = none := rfl

/-- Replacing the chain that a key hashes to, seen through `find`. -/
theorem find_setChain {chain : Chain κ} {count : Int} {r : Option Nat}
    (hd : chain.Distinct ops.keyEq)
    (h : Chain.find ops.keyEq key' chain
      = if ops.keyEq key key' then r
        else Chain.find ops.keyEq key' (ht.buckets (ht.bucketOf key))) :
    (ht.setChain (ht.bucketOf key) chain count hd).find key'
      = if ops.keyEq key key' then r else ht.find key' := by
  show Chain.find ops.keyEq key' (Function.update ht.buckets (ht.bucketOf key) chain
    (ht.bucketOf key')) = _
  rw [Function.update_apply, find]
  split
  · next heq => rw [h, ← heq]
  · next hne =>
    have hk : ops.keyEq key key' = false := by
      by_contra hc
      exact hne (bucketOf_congr (Bool.eq_true_of_not_eq_false hc)).symm
    simp [hk]

/-- **`hash_table_insert` overwrites the map at one key.** -/
theorem find_insert (h : ht.insert malloc key value = some ht') :
    ht'.find key' = if ops.keyEq key key' then some value else ht.find key' := by
  unfold insert at h
  split at h
  · next chain hupd =>
    rw [← Option.some.inj h]
    exact find_setChain _ (Chain.find_update ops hupd)
  · next hupd =>
    split at h
    · rw [← Option.some.inj h]
      apply find_setChain
      rw [Chain.find]
    · cases h

theorem insert_eq_none : ht.insert malloc key value = none
    ↔ malloc = false ∧ ht.find key = none := by
  have hupd : Chain.update ops.keyEq key value (ht.buckets (ht.bucketOf key)) = none
      ↔ Chain.find ops.keyEq key (ht.buckets (ht.bucketOf key)) = none := Chain.update_eq_none
  unfold insert find
  split
  · next chain h =>
    rw [h] at hupd
    simpa using fun _ => hupd.not.mp (by simp)
  · next h =>
    cases malloc <;> simp [hupd.mp h]

/-- **`hash_table_remove` clears the map at one key.** -/
theorem find_remove (h : ht.remove key = some ht') :
    ht'.find key' = if ops.keyEq key key' then none else ht.find key' := by
  unfold remove at h
  split at h
  · next chain hunl =>
    rw [← Option.some.inj h]
    exact find_setChain _ (Chain.find_unlink ops (ht.distinct _) hunl)
  · cases h

theorem remove_eq_none : ht.remove key = none ↔ ht.find key = none := by
  unfold remove
  have hunl : Chain.unlink ops.keyEq key (ht.buckets (ht.bucketOf key)) = none
      ↔ Chain.find ops.keyEq key (ht.buckets (ht.bucketOf key)) = none := Chain.unlink_eq_none
  split
  · next chain h =>
    rw [h] at hunl
    simpa [find] using hunl.not.mp (by simp)
  · next h => simpa [find] using hunl.mp h

end HashTable

end SdPlane
