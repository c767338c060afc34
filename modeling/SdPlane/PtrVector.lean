import SdPlane.Lib.Crash
import SdPlane.Lib.Entries
import SdPlane.Lib.Simulation

/-!
# The vector (`vector.c`)

A vector is an array of pointers of which the first `size` are in use. `vector_assert` says what
the others are: `NULL`. The array is doubled when it is full, `vector_expand` clears the new half,
and what is removed is closed up by moving **all** that lies behind, up to the end of the array.

`vector_sound_iff` is what becomes of it. The contents are always the elements in the order in
which they were added. The slots behind them are `NULL` exactly as long as nothing but its last
element is removed from a full vector: the slot that becomes free is the last one of the array
then, and nothing is moved into it.
-/

set_option autoImplicit false

namespace SdPlane

def VECTOR_DEFSIZ : Nat := 1

def VECTOR_RETRY : Nat := 16

/-- `struct vector`; `none` is `NULL`. -/
structure PtrVector (α : Type) where
  array : Nat → Option α
  limit : Nat
  size : Nat

namespace PtrVector

variable {α : Type}

/-- `vector_create` -/
def create : PtrVector α := ⟨fun _ => none, VECTOR_DEFSIZ, 0⟩

/-- `vector_lookup_index` -/
def lookupIndex [DecidableEq α] (data : α) (v : PtrVector α) : Option Nat :=
  (List.range v.size).find? fun i => v.array i = some data

/-- `vector_lookup` -/
def lookup [DecidableEq α] (data : α) (v : PtrVector α) : Option α :=
  (v.lookupIndex data).bind v.array

/-- `vector_expand`; `granted` says whether there is memory. The number of elements is computed as
    an `unsigned int`. Where it comes out as 0, `realloc` frees the array and answers `NULL`, which
    is taken for a refusal: the next access is to freed memory. -/
def expand (granted : Bool) (v : PtrVector α) : Except Lib.Crash (PtrVector α) :=
  let limit := v.limit * 2 % 2 ^ 32
  if limit = 0 then .error .useAfterFree
  else if granted then
    .ok { v with
      array := fun i => if v.limit ≤ i ∧ i < v.limit + v.limit then none else v.array i
      limit }
  else .ok v

/-- `while (retry-- && v->size == v->limit) vector_expand (v);` -/
def retryExpand (grants : Nat → Bool) : Nat → PtrVector α → Except Lib.Crash (PtrVector α)
  | 0, v => .ok v
  | retry + 1, v =>
    if v.size = v.limit then do retryExpand grants retry (← v.expand (grants retry)) else .ok v

/-- `vector_add`, and whether the element has been added. -/
def add [DecidableEq α] (data : α) (grants : Nat → Bool) (v : PtrVector α) :
    Except Lib.Crash (PtrVector α × Bool) := do
  Lib.assert ((v.lookup data).isNone)
  let v ← retryExpand grants VECTOR_RETRY v
  if v.size = v.limit then return (v, false)
  Lib.inside v.size v.limit
  return ({ v with array := Function.update v.array v.size (some data), size := v.size + 1 }, true)

/-- Without the element at `index`; `memmove` goes on to the end of the array. -/
def closeUp (index : Nat) (v : PtrVector α) : PtrVector α :=
  let array := Function.update v.array index none
  { v with
    array :=
      if index + 1 < v.limit then
        fun i => if index ≤ i ∧ i < index + (v.limit - index - 1) then array (i + 1) else array i
      else array
    size := (v.size + (2 ^ 32 - 1)) % 2 ^ 32 }

/-- The common part of `vector_remove` and `vector_remove_index`; the `index + 1` that is compared
    with the limit is an `int`. -/
def removeAt (index : Nat) (v : PtrVector α) : Except Lib.Crash (PtrVector α) := do
  Lib.inside index v.limit
  let _ ← Lib.int (index + 1)
  return v.closeUp index

/-- `vector_remove` -/
def remove [DecidableEq α] (data : α) (v : PtrVector α) : Except Lib.Crash (PtrVector α) :=
  match v.lookupIndex data with
  | none => .error .assertion
  | some index => v.removeAt index

/-- `vector_remove_index` -/
def removeIndex (index : Int) (v : PtrVector α) : Except Lib.Crash (PtrVector α) := do
  Lib.assert (0 ≤ index)
  v.removeAt index.toNat

/-- `vector_clear` -/
def clear (v : PtrVector α) : PtrVector α :=
  { v with array := fun i => if i < v.limit then none else v.array i, size := 0 }

/-- `vector_assert` goes through. -/
def Asserts (v : PtrVector α) : Prop :=
  (∀ i, i < v.size → v.array i ≠ none) ∧ ∀ i, v.size ≤ i → i < v.limit → v.array i = none

/-- The elements in use. -/
def contents (v : PtrVector α) : List (Option α) := Lib.entries v.array v.size

end PtrVector

/-- A full vector of the first `n` numbers. -/
def countingVector (n : Nat) : PtrVector Nat := ⟨fun i => some i, n, n⟩

/-! ## What it is for -/

/-- `grants` is what `realloc` answers to each of the tries of an addition. -/
inductive VectorOp (α : Type)
  | add (data : α) (grants : Nat → Bool)
  | remove (data : α)
  | removeIndex (index : Int)
  | clear

/-- A list, and how many elements there is room for. -/
structure BoundedList (α : Type) where
  list : List α
  limit : Nat

section

variable {α : Type}

/-- With whether an addition has been made. -/
def VectorOp.run [DecidableEq α] (v : PtrVector α) : VectorOp α → Except Lib.Crash (PtrVector α × Bool)
  | .add data grants => v.add data grants
  | .remove data => (v.remove data).map (·, true)
  | .removeIndex index => (v.removeIndex index).map (·, true)
  | .clear => .ok (v.clear, true)

/-- What becomes of the list; an addition is given up when the room is full and all tries to make
    more fail. -/
def inOrder [DecidableEq α] (r : BoundedList α) : VectorOp α → BoundedList α × Bool
  | .add data grants =>
    if r.list.length = r.limit then
      if ∃ k, k < VECTOR_RETRY ∧ grants k then (⟨r.list ++ [data], r.limit * 2⟩, true) else (r, false)
    else (⟨r.list ++ [data], r.limit⟩, true)
  | .remove data => (⟨r.list.erase data, r.limit⟩, true)
  | .removeIndex index => (⟨r.list.eraseIdx index.toNat, r.limit⟩, true)
  | .clear => (⟨[], r.limit⟩, true)

/-- Only what is not there is added, only what is there is removed. -/
def VectorOp.Proper (r : BoundedList α) : VectorOp α → Prop
  | .add data _ => data ∉ r.list
  | .remove data => data ∈ r.list
  | .removeIndex index => 0 ≤ index ∧ index < r.list.length
  | .clear => True

/-- A full vector is not made larger than 2³¹, and loses only its last element; the place of what is
    removed has a next `int`. -/
def VectorOp.Sound [DecidableEq α] (r : BoundedList α) : VectorOp α → Prop
  | .add _ _ => r.list.length = r.limit → r.limit < 2 ^ 31
  | .remove data => r.list.idxOf data + 1 < 2 ^ 31
      ∧ (r.list.length = r.limit → r.list.idxOf data + 1 = r.limit)
  | .removeIndex index => index + 1 < 2 ^ 31 ∧ (r.list.length = r.limit → index + 1 = r.limit)
  | .clear => True

instance [DecidableEq α] (r : BoundedList α) : ∀ op : VectorOp α, Decidable (op.Proper r)
  | .add data _ => inferInstanceAs (Decidable (data ∉ r.list))
  | .remove data => inferInstanceAs (Decidable (data ∈ r.list))
  | .removeIndex index => inferInstanceAs (Decidable (0 ≤ index ∧ index < r.list.length))
  | .clear => instDecidableTrue

instance [DecidableEq α] (r : BoundedList α) : ∀ op : VectorOp α, Decidable (op.Sound r)
  | .add _ _ => inferInstanceAs (Decidable (_ → _))
  | .remove _ => inferInstanceAs (Decidable (_ ∧ (_ → _)))
  | .removeIndex _ => inferInstanceAs (Decidable (_ ∧ (_ → _)))
  | .clear => instDecidableTrue

/-- What can be seen of a vector that holds a list. -/
structure VectorHolds (v : PtrVector α) (r : BoundedList α) : Prop where
  asserts : v.Asserts
  contents : v.contents = r.list.map some

/-! ## The contents -/

namespace PtrVector

variable {v : PtrVector α}

section

variable {l : List α} (h : v.contents = l.map some)

include h

theorem size_eq : v.size = l.length := by
  have hlen := congrArg List.length h
  simpa [contents] using hlen

theorem array_eq {i : Nat} {data : α} : i < v.size ∧ v.array i = some data ↔ l[i]? = some data := by
  have hentries := @Lib.getElem?_entries _ v.array v.size i (some data)
  rw [← hentries]
  show v.contents[i]? = _ ↔ _
  rw [h, List.getElem?_map]
  simp

variable [DecidableEq α]

theorem lookupIndex_of_mem {data : α} (hmem : data ∈ l) :
    v.lookupIndex data = some (l.idxOf data) := by
  have hlt : l.idxOf data < l.length := List.idxOf_lt_length_of_mem hmem
  obtain ⟨hsize, hdata⟩ := (array_eq h).mpr (List.getElem?_idxOf hmem)
  rw [lookupIndex, List.find?_range_eq_some]
  refine ⟨by simpa using hdata, List.mem_range.mpr hsize, fun j hj => ?_⟩
  have hj' : j < l.length := hj.trans hlt
  have hother := ((array_eq h).mpr (List.getElem?_eq_getElem hj')).2
  have hne : l[j] ≠ data := by simpa using List.not_of_lt_findIdx hj
  simpa [hother] using hne

theorem lookupIndex_of_not_mem {data : α} (hnot : data ∉ l) : v.lookupIndex data = none := by
  rw [lookupIndex, List.find?_range_eq_none]
  intro i hi
  have hlt : i < l.length := size_eq h ▸ hi
  have hother := ((array_eq h).mpr (List.getElem?_eq_getElem hlt)).2
  have hne : l[i] ≠ data := fun heq => hnot (heq ▸ List.getElem_mem hlt)
  simpa [hother] using hne

theorem remove_eq {data : α} (hmem : data ∈ l) : v.remove data = v.removeAt (l.idxOf data) := by
  rw [remove, lookupIndex_of_mem h hmem]

end

/-! ### Removing -/

theorem closeUp_array {i j : Nat} (hj : j + 1 < v.limit) :
    (v.closeUp i).array j = if i ≤ j then v.array (j + 1) else v.array j := by
  dsimp only [closeUp]
  by_cases hlast : i + 1 < v.limit
  · by_cases hij : i ≤ j
    · rw [if_pos hlast, if_pos hij, if_pos (by omega), Function.update_of_ne (by omega)]
    · rw [if_pos hlast, if_neg hij, if_neg (by omega), Function.update_of_ne (by omega)]
  · rw [if_neg hlast, if_neg (by omega), Function.update_of_ne (by omega)]

theorem closeUp_array_last {i : Nat} (hi : i < v.limit) : (v.closeUp i).array (v.limit - 1)
    = if i + 1 < v.limit then v.array (v.limit - 1) else none := by
  dsimp only [closeUp]
  by_cases hlast : i + 1 < v.limit
  · rw [if_pos hlast, if_pos hlast, if_neg (by omega), Function.update_of_ne (by omega)]
  · rw [if_neg hlast, if_neg hlast, show v.limit - 1 = i by omega, Function.update_self]

theorem closeUp_size {i : Nat} (hi : i < v.size) (hsmall : v.size < 2 ^ 32) :
    (v.closeUp i).size = v.size - 1 := by
  show (v.size + (2 ^ 32 - 1)) % 2 ^ 32 = v.size - 1
  omega

/-- What lies behind moves up. -/
theorem closeUp_contents {l : List α} (h : v.contents = l.map some) {i : Nat} (hi : i < v.size)
    (hle : v.size ≤ v.limit) (hsmall : v.size < 2 ^ 32) :
    (v.closeUp i).contents = (l.eraseIdx i).map some := by
  have herase : ∀ j, j + 1 < v.size →
      (v.closeUp i).array j = if i ≤ j then v.array (j + 1) else v.array j :=
    fun j hj => closeUp_array (by omega)
  rw [contents, closeUp_size hi hsmall, Lib.entries_eraseIdx hi herase, ← List.eraseIdx_map]
  exact congrArg (·.eraseIdx i) h

theorem removeAt_eq {i : Nat} (hi : i < v.limit) (hint : i + 1 < 2 ^ 31) :
    v.removeAt i = .ok (v.closeUp i) := by
  have hin : Lib.inside i v.limit = .ok () := Lib.inside_of_lt (by omega)
  have hnext : Lib.int ((i : Int) + 1) = .ok (i + 1) := Lib.int_of_fits (by omega)
  simp only [removeAt, hin, hnext, Lib.ok_bind, Lib.pure_eq_ok]

/-- What goes right has been an `int`. -/
theorem removeAt_ok {i : Nat} {v' : PtrVector α} (hi : i < v.limit) (hrun : v.removeAt i = .ok v') :
    i + 1 < 2 ^ 31 ∧ v' = v.closeUp i := by
  rcases Nat.lt_or_ge (i + 1) (2 ^ 31) with hint | hbig
  · rw [removeAt_eq hi hint] at hrun
    exact ⟨hint, (Except.ok.inj hrun).symm⟩
  · have hin : Lib.inside i v.limit = .ok () := Lib.inside_of_lt (by omega)
    have hnext : Lib.int ((i : Int) + 1) = .error .overflow := Lib.int_of_big (by omega)
    simp only [removeAt, hin, hnext, Lib.ok_bind, Lib.error_bind] at hrun
    cases hrun

end PtrVector

/-! ## The invariant -/

structure VectorInv (v : PtrVector α) (r : BoundedList α) : Prop where
  power : ∃ k, k ≤ 31 ∧ v.limit = 2 ^ k
  limit : v.limit = r.limit
  size : v.size = r.list.length
  le : v.size ≤ v.limit
  contents : v.contents = r.list.map some
  free : ∀ i, v.size ≤ i → i < v.limit → v.array i = none

theorem vectorInv_create : VectorInv (PtrVector.create : PtrVector α) ⟨[], VECTOR_DEFSIZ⟩ where
  power := ⟨0, by simp, rfl⟩
  limit := rfl
  size := rfl
  le := Nat.zero_le _
  contents := rfl
  free := fun _ _ _ => rfl

namespace VectorInv

variable {v : PtrVector α} {r : BoundedList α} (h : VectorInv v r)

include h

theorem asserts : v.Asserts := by
  refine ⟨fun i hi => ?_, h.free⟩
  have hlt : i < r.list.length := h.size ▸ hi
  have hsome := ((PtrVector.array_eq h.contents).mpr (List.getElem?_eq_getElem hlt)).2
  simp [hsome]

theorem holds : VectorHolds v r := ⟨h.asserts, h.contents⟩

theorem small : v.size < 2 ^ 32 := by
  obtain ⟨k, hk, hpow⟩ := h.power
  have hle : 2 ^ k ≤ 2 ^ 31 := Nat.pow_le_pow_right (by decide) hk
  have hsize := h.le
  omega

/-! ### More room -/

/-- Making more room, while there is a power of two left. -/
theorem expand (hlimit : r.limit < 2 ^ 31) :
    ∃ v', v.expand true = .ok v' ∧ VectorInv v' ⟨r.list, r.limit * 2⟩ ∧ v.expand false = .ok v := by
  obtain ⟨k, hk, hpow⟩ := h.power
  have hlim := h.limit
  have hle := h.le
  have hk' : k < 31 := by
    apply (Nat.pow_lt_pow_iff_right (a := 2) (by decide)).mp
    omega
  have hpos : 0 < v.limit := hpow ▸ Nat.two_pow_pos k
  have hmod : v.limit * 2 % 2 ^ 32 = v.limit * 2 := Nat.mod_eq_of_lt (by omega)
  have hne : ¬ v.limit * 2 = 0 := by omega
  refine ⟨{ v with
      array := fun i => if v.limit ≤ i ∧ i < v.limit + v.limit then none else v.array i
      limit := v.limit * 2 }, ?_, ?_, ?_⟩
  · simp only [PtrVector.expand, hmod, if_neg hne, if_true]
  · refine ⟨⟨k + 1, hk', by rw [hpow, Nat.pow_succ]⟩, by rw [hlim], h.size, by dsimp only; omega,
      ?_, fun i hi hlt => ?_⟩
    · rw [← h.contents]
      apply Lib.entries_congr
      intro i hi
      exact if_neg (by dsimp only at hi; omega)
    · dsimp only at hi hlt ⊢
      by_cases hnew : v.limit ≤ i ∧ i < v.limit + v.limit
      · exact if_pos hnew
      · rw [if_neg hnew]
        exact h.free i hi (by omega)
  · simp only [PtrVector.expand, hmod, if_neg hne, if_false, Bool.false_eq_true]

omit h in
theorem retryExpand_done {grants : Nat → Bool} {retry : Nat} (hne : v.size ≠ v.limit) :
    PtrVector.retryExpand grants retry v = .ok v := by
  cases retry with
  | zero => rfl
  | succ retry => rw [PtrVector.retryExpand, if_neg hne]

theorem retryExpand_full (hfull : r.list.length = r.limit) (hlimit : r.limit < 2 ^ 31)
    (grants : Nat → Bool) (retry : Nat) :
    ∃ v', PtrVector.retryExpand grants retry v = .ok v'
      ∧ VectorInv v' ⟨r.list, if ∃ k, k < retry ∧ grants k then r.limit * 2 else r.limit⟩ := by
  have hsize : v.size = v.limit := by rw [h.size, h.limit, hfull]
  obtain ⟨v', hgrant, hv', hrefuse⟩ := h.expand hlimit
  have hpos : 0 < r.limit := by
    obtain ⟨k, -, hpow⟩ := h.power
    rw [← h.limit, hpow]
    exact Nat.two_pow_pos k
  induction retry with
  | zero => exact ⟨v, rfl, by simpa using h⟩
  | succ retry ih =>
    rw [PtrVector.retryExpand, if_pos hsize]
    cases hg : grants retry with
    | true =>
      have hroom : v'.size ≠ v'.limit := by
        rw [hv'.size, hv'.limit]
        dsimp only
        omega
      refine ⟨v', by rw [hgrant, Lib.ok_bind, retryExpand_done hroom], ?_⟩
      rw [if_pos ⟨retry, Nat.lt_succ_self _, hg⟩]
      exact hv'
    | false =>
      obtain ⟨v'', hrun, hv''⟩ := ih
      have hsame : (∃ k, k < retry + 1 ∧ grants k) ↔ ∃ k, k < retry ∧ grants k := by
        constructor
        · rintro ⟨k, hk, hgk⟩
          refine ⟨k, ?_, hgk⟩
          rcases Nat.lt_succ_iff_lt_or_eq.mp hk with hlt | rfl
          · exact hlt
          · rw [hg] at hgk
            cases hgk
        · rintro ⟨k, hk, hgk⟩
          exact ⟨k, Nat.lt_succ_of_lt hk, hgk⟩
      refine ⟨v'', by rw [hrefuse, Lib.ok_bind, hrun], ?_⟩
      simp only [hsame]
      exact hv''

/-- From the largest vector on, a try frees the array. -/
theorem retryExpand_largest (hfull : r.list.length = r.limit) (hlimit : ¬ r.limit < 2 ^ 31)
    (grants : Nat → Bool) (retry : Nat) :
    PtrVector.retryExpand grants (retry + 1) v = .error .useAfterFree := by
  obtain ⟨k, hk, hpow⟩ := h.power
  have hle : 2 ^ k ≤ 2 ^ 31 := Nat.pow_le_pow_right (by decide) hk
  have hlim := h.limit
  have hzero : v.limit * 2 % 2 ^ 32 = 0 := by
    rw [show v.limit = 2 ^ 31 by omega]
    rfl
  have hsize : v.size = v.limit := by rw [h.size, h.limit, hfull]
  rw [PtrVector.retryExpand, if_pos hsize, PtrVector.expand]
  simp only [hzero, if_true, Lib.error_bind]

theorem push {data : α} (hroom : v.size < v.limit) :
    VectorInv { v with array := Function.update v.array v.size (some data), size := v.size + 1 }
      ⟨r.list ++ [data], r.limit⟩ where
  power := h.power
  limit := h.limit
  size := by simp [h.size]
  le := hroom
  contents := by
    have hpush := Lib.entries_push v.array v.size (some data)
    show Lib.entries _ (v.size + 1) = _
    rw [hpush, List.map_append]
    exact congrArg (· ++ [some data]) h.contents
  free := fun i hi hlt => by
    dsimp only at hi hlt ⊢
    rw [Function.update_of_ne (by omega)]
    exact h.free i (by omega) hlt

/-! ### Searching and adding -/

variable [DecidableEq α]

theorem add {data : α} {grants : Nat → Bool} (hnew : data ∉ r.list)
    (hsound : r.list.length = r.limit → r.limit < 2 ^ 31) :
    ∃ v', v.add data grants = .ok (v', (inOrder r (.add data grants)).2)
      ∧ VectorInv v' (inOrder r (.add data grants)).1 := by
  have hlookup : Lib.assert ((v.lookup data).isNone) = .ok () := by
    apply Lib.assert_of
    rw [PtrVector.lookup, PtrVector.lookupIndex_of_not_mem h.contents hnew]
    rfl
  -- an addition where there is room
  have hroom : ∀ {w : PtrVector α} {limit : Nat}, VectorInv w ⟨r.list, limit⟩ →
      r.list.length ≠ limit →
      PtrVector.retryExpand grants VECTOR_RETRY v = .ok w →
      ∃ v', v.add data grants = .ok (v', true) ∧ VectorInv v' ⟨r.list ++ [data], limit⟩ := by
    intro w limit hw hne hrun
    have hwsize : w.size = r.list.length := hw.size
    have hwlimit : w.limit = limit := hw.limit
    have hle := hw.le
    have hlt : w.size < w.limit := by omega
    have hin : Lib.inside w.size w.limit = .ok () := Lib.inside_of_lt (by omega)
    refine ⟨_, ?_, hw.push hlt⟩
    simp only [PtrVector.add, hlookup, Lib.ok_bind, hrun, if_neg hlt.ne, hin, Lib.pure_eq_ok]
  by_cases hfull : r.list.length = r.limit
  · obtain ⟨w, hrun, hw⟩ := h.retryExpand_full hfull (hsound hfull) grants VECTOR_RETRY
    by_cases hgrant : ∃ k, k < VECTOR_RETRY ∧ grants k
    · have hpos : 0 < r.limit := by
        obtain ⟨k, -, hpow⟩ := h.power
        rw [← h.limit, hpow]
        exact Nat.two_pow_pos k
      simp only [if_pos hgrant] at hw
      obtain ⟨v', hadd, hv'⟩ := hroom hw (by omega) hrun
      exact ⟨v', by simp only [inOrder, if_pos hfull, if_pos hgrant, hadd],
        by simpa only [inOrder, if_pos hfull, if_pos hgrant] using hv'⟩
    · simp only [if_neg hgrant] at hw
      have hwfull : w.size = w.limit := by rw [hw.size, hw.limit, hfull]
      refine ⟨w, ?_, by simpa only [inOrder, if_pos hfull, if_neg hgrant] using hw⟩
      simp only [PtrVector.add, hlookup, Lib.ok_bind, hrun, if_pos hwfull, inOrder, if_pos hfull,
        if_neg hgrant, Lib.pure_eq_ok]
  · have hne : v.size ≠ v.limit := by rw [h.size, h.limit]; exact hfull
    obtain ⟨v', hadd, hv'⟩ := @hroom v r.limit h hfull (retryExpand_done hne)
    exact ⟨v', by simp only [inOrder, if_neg hfull, hadd],
      by simpa only [inOrder, if_neg hfull] using hv'⟩

/-- An addition that goes right has not come to the largest vector. -/
theorem add_sound {data : α} {grants : Nat → Bool} {w : PtrVector α × Bool} (hnew : data ∉ r.list)
    (hadd : v.add data grants = .ok w) : r.list.length = r.limit → r.limit < 2 ^ 31 := by
  intro hfull
  by_contra hlimit
  have hlookup : Lib.assert ((v.lookup data).isNone) = .ok () := by
    apply Lib.assert_of
    rw [PtrVector.lookup, PtrVector.lookupIndex_of_not_mem h.contents hnew]
    rfl
  have hfree := h.retryExpand_largest hfull hlimit grants 15
  simp only [PtrVector.add, hlookup, Lib.ok_bind, VECTOR_RETRY, hfree, Lib.error_bind] at hadd
  cases hadd

/-! ### Removing -/

omit [DecidableEq α] in
/-- What lies behind moves up, the last slot of the array keeps what it has. -/
theorem closeUp {i : Nat} (hi : i < v.size) :
    (v.closeUp i).size = v.size - 1 ∧ (v.closeUp i).contents = (r.list.eraseIdx i).map some
    ∧ (v.closeUp i).array (v.limit - 1)
      = (if i + 1 < v.limit then v.array (v.limit - 1) else none)
    ∧ ∀ j, v.size - 1 ≤ j → j + 1 < v.limit → (v.closeUp i).array j = none := by
  have hle := h.le
  refine ⟨PtrVector.closeUp_size hi h.small, PtrVector.closeUp_contents h.contents hi hle h.small,
    PtrVector.closeUp_array_last (by omega), fun j hj hlt => ?_⟩
  rw [PtrVector.closeUp_array hlt, if_pos (by omega)]
  exact h.free (j + 1) (by omega) hlt

omit [DecidableEq α] in
theorem closeUp_inv {i : Nat} (hi : i < v.size)
    (hsound : r.list.length = r.limit → i + 1 = r.limit) :
    VectorInv (v.closeUp i) ⟨r.list.eraseIdx i, r.limit⟩ := by
  obtain ⟨hsize, hcontents, hlast, hfree⟩ := h.closeUp hi
  have hle := h.le
  have hlen := h.size
  have hlim := h.limit
  have hlimit : (v.closeUp i).limit = v.limit := rfl
  refine ⟨h.power, hlim, ?_, by omega, hcontents, fun j hj hlt => ?_⟩
  · rw [hsize, List.length_eraseIdx_of_lt (by omega), hlen]
  · rcases Nat.lt_or_ge (j + 1) v.limit with hin | hend
    · exact hfree j (by omega) hin
    · obtain rfl : j = v.limit - 1 := by omega
      rw [hlast]
      split
      · exact h.free _ (by omega) (by omega)
      · rfl

omit [DecidableEq α] in
/-- The element left behind in the last slot. -/
theorem closeUp_sound {i : Nat} (hi : i < v.size) (hasserts : (v.closeUp i).Asserts) :
    r.list.length = r.limit → i + 1 = r.limit := by
  intro hfull
  obtain ⟨hsize, -, hlast, -⟩ := h.closeUp hi
  have hlimit : (v.closeUp i).limit = v.limit := rfl
  have hle := h.le
  have hlen := h.size
  have hlim := h.limit
  by_contra hne
  have hnull := hasserts.2 (v.limit - 1) (by omega) (by omega)
  rw [hlast, if_pos (by omega)] at hnull
  exact h.asserts.1 _ (by omega) hnull

omit [DecidableEq α] in
theorem clear : VectorInv v.clear ⟨[], r.limit⟩ where
  power := h.power
  limit := h.limit
  size := rfl
  le := Nat.zero_le _
  contents := rfl
  free := fun _ _ hlt => if_pos hlt

/-! ### All operations -/

omit h [DecidableEq α] in
theorem removeIndex_eq {index : Int} (hindex : 0 ≤ index) :
    v.removeIndex index = v.removeAt index.toNat := by
  have hassert : Lib.assert (0 ≤ index) = .ok () := Lib.assert_of hindex
  rw [PtrVector.removeIndex, hassert, Lib.ok_bind]

/-- Both removals close up at a place of the list. -/
theorem run_remove {data : α} (hmem : data ∈ r.list) : r.list.idxOf data < v.size
    ∧ (VectorOp.remove data).run v = (v.removeAt (r.list.idxOf data)).map (·, true) := by
  have hlt : r.list.idxOf data < v.size := h.size ▸ List.idxOf_lt_length_of_mem hmem
  exact ⟨hlt, by rw [VectorOp.run, PtrVector.remove_eq h.contents hmem]⟩

theorem run_removeIndex {index : Int} (hindex : 0 ≤ index ∧ index < r.list.length) :
    index.toNat < v.size
    ∧ (VectorOp.removeIndex index).run v = (v.removeAt index.toNat).map (·, true) := by
  have hsize := h.size
  have hlt : index.toNat < v.size := by omega
  exact ⟨hlt, by rw [VectorOp.run, removeIndex_eq hindex.1]⟩

omit [DecidableEq α] in
theorem map_removeAt {i : Nat} {v' : PtrVector α} {added : Bool} (hi : i < v.size)
    (hrun : (v.removeAt i).map (·, true) = .ok (v', added)) : i + 1 < 2 ^ 31 ∧ v' = v.closeUp i := by
  cases hat : v.removeAt i with
  | error e =>
    rw [hat] at hrun
    cases hrun
  | ok w =>
    rw [hat] at hrun
    obtain ⟨rfl, -⟩ := Prod.mk.inj (Except.ok.inj hrun)
    exact PtrVector.removeAt_ok (Nat.lt_of_lt_of_le hi h.le) hat

theorem run {op : VectorOp α} (hproper : op.Proper r) (hsound : op.Sound r) :
    ∃ v', op.run v = .ok (v', (inOrder r op).2) ∧ VectorInv v' (inOrder r op).1 := by
  cases op with
  | add data grants => exact h.add hproper hsound
  | remove data =>
    obtain ⟨hlt, hrun⟩ := h.run_remove hproper
    obtain ⟨hint, hlast⟩ := hsound
    have hclosed := h.closeUp_inv hlt hlast
    rw [List.eraseIdx_idxOf_eq_erase] at hclosed
    rw [PtrVector.removeAt_eq (Nat.lt_of_lt_of_le hlt h.le) hint] at hrun
    exact ⟨_, hrun, hclosed⟩
  | removeIndex index =>
    have hindex : 0 ≤ index ∧ index < r.list.length := hproper
    obtain ⟨hlt, hrun⟩ := h.run_removeIndex hindex
    obtain ⟨hint, hlast⟩ : index + 1 < 2 ^ 31 ∧ (r.list.length = r.limit → index + 1 = r.limit) :=
      hsound
    rw [PtrVector.removeAt_eq (Nat.lt_of_lt_of_le hlt h.le) (by omega)] at hrun
    refine ⟨_, hrun, h.closeUp_inv hlt fun hfull => ?_⟩
    have hend := hlast hfull
    omega
  | clear => exact ⟨_, rfl, h.clear⟩

theorem sound {op : VectorOp α} (hproper : op.Proper r) {v' : PtrVector α} {added : Bool}
    (hrun : op.run v = .ok (v', added)) (hasserts : v'.Asserts) : op.Sound r := by
  cases op with
  | add data grants => exact h.add_sound hproper hrun
  | remove data =>
    obtain ⟨hlt, hrun'⟩ := h.run_remove hproper
    obtain ⟨hint, rfl⟩ := h.map_removeAt hlt (hrun'.symm.trans hrun)
    exact ⟨hint, h.closeUp_sound hlt hasserts⟩
  | removeIndex index =>
    have hindex : 0 ≤ index ∧ index < r.list.length := hproper
    obtain ⟨hlt, hrun'⟩ := h.run_removeIndex hindex
    obtain ⟨hint, rfl⟩ := h.map_removeAt hlt (hrun'.symm.trans hrun)
    refine ⟨by omega, fun hfull => ?_⟩
    have hlast := h.closeUp_sound hlt hasserts hfull
    omega
  | clear => trivial

end VectorInv

/-! ## The result -/

section Result

variable [DecidableEq α] {ops : List (VectorOp α)}
  (hproper : Lib.AllAllowed inOrder (fun r op => op.Proper r) ⟨[], VECTOR_DEFSIZ⟩ ops)

include hproper in
theorem sound_of_simulates
    (h : Lib.Simulates VectorOp.run inOrder VectorHolds PtrVector.create ⟨[], VECTOR_DEFSIZ⟩ ops) :
    Lib.AllAllowed inOrder (fun r op => op.Sound r) ⟨[], VECTOR_DEFSIZ⟩ ops := by
  refine (Lib.simulates_iff_allAllowed (R := VectorInv) ?_ ?_ ?_ vectorInv_create hproper).mp h
  · exact fun _ _ _ h hproper hsound => h.run hproper hsound
  · exact fun _ _ h => h.holds
  · rintro _ _ _ h hproper ⟨_, hrun, hholds⟩
    exact h.sound hproper hrun hholds.asserts

include hproper in
/-- **The vector's own invariant**, with the contents in the order of the additions, over any
    sequence of operations: exactly as long as a full vector loses no other than its last
    element (and is not made larger than 2³¹, whose last place has no next `int`). -/
theorem vector_sound_iff :
    Lib.Simulates VectorOp.run inOrder VectorHolds PtrVector.create ⟨[], VECTOR_DEFSIZ⟩ ops
      ↔ Lib.AllAllowed inOrder (fun r op => op.Sound r) ⟨[], VECTOR_DEFSIZ⟩ ops := by
  refine ⟨sound_of_simulates hproper, Lib.simulates_of_allAllowed (R := VectorInv) ?_ ?_
    vectorInv_create hproper⟩
  · exact fun _ _ _ hv hproper hsound => hv.run hproper hsound
  · exact fun _ _ hv => hv.holds

end Result

/-- The vector grows twice and is refused memory in the end; it loses its first elements, and its
    last one when it is full. -/
theorem vector_sound_grown : Lib.Simulates VectorOp.run inOrder VectorHolds
    (PtrVector.create : PtrVector Nat) ⟨[], VECTOR_DEFSIZ⟩
    [.add 1 fun _ => true, .add 2 fun k => k == 3, .add 3 fun _ => true, .remove 1,
      .add 4 fun _ => false, .removeIndex 0, .add 2 fun _ => false, .add 5 fun _ => false,
      .add 6 fun _ => false, .removeIndex 3, .remove 4, .clear, .add 1 fun _ => false] :=
  (vector_sound_iff (by decide)).mpr (by decide)

/-- Of two elements the first is removed: the other one stays in the second slot too. -/
theorem vector_keeps_stale : ¬ ∀ ops : List (VectorOp Nat),
    Lib.AllAllowed inOrder (fun r op => op.Proper r) ⟨[], VECTOR_DEFSIZ⟩ ops →
    Lib.Simulates VectorOp.run inOrder VectorHolds PtrVector.create ⟨[], VECTOR_DEFSIZ⟩ ops := by
  intro h
  have hproper : Lib.AllAllowed inOrder (fun r op => VectorOp.Proper r op) ⟨[], VECTOR_DEFSIZ⟩
      [.add 1 fun _ => true, .add 2 fun _ => true, .remove 1] := by decide
  exact absurd (sound_of_simulates hproper (h _ hproper)) (by decide)

end

end SdPlane
