import Mathlib

/-!
# Arrays in increasing order

The first `n` keys of an array increase strictly. `PlaceFor` is the place of a key that is not
among them: what is in front of it is smaller, and the rest is greater. There is one
(`PlaceFor.unique`), and it is where the key can be put so that the keys still increase
(`increasing_insertAt_iff`).

An element is put in by moving the rest up (`insertAt`) and taken out by moving it down
(`eraseAt`). Keys are compared with `compare`, of which it is enough to know that it is an order.
-/

set_option autoImplicit false

namespace Lib

section Arrays

variable {α : Type*}

/-- The array with `x` put in at `pos`. -/
def insertAt (arr : Nat → α) (pos : Nat) (x : α) : Nat → α :=
  fun j => if j < pos then arr j else if j = pos then x else arr (j - 1)

/-- The array without the element at `pos`. -/
def eraseAt (arr : Nat → α) (pos : Nat) : Nat → α :=
  fun j => if j < pos then arr j else arr (j + 1)

theorem insertAt_self (arr : Nat → α) (pos : Nat) (x : α) : insertAt arr pos x pos = x := by
  simp [insertAt]

theorem insertAt_lt {arr : Nat → α} {pos j : Nat} (x : α) (h : j < pos) :
    insertAt arr pos x j = arr j := if_pos h

theorem insertAt_gt {arr : Nat → α} {pos j : Nat} (x : α) (h : pos < j) :
    insertAt arr pos x j = arr (j - 1) := by
  rw [insertAt, if_neg (by omega), if_neg (by omega)]

theorem eraseAt_lt {arr : Nat → α} {pos j : Nat} (h : j < pos) : eraseAt arr pos j = arr j :=
  if_pos h

theorem eraseAt_ge {arr : Nat → α} {pos j : Nat} (h : pos ≤ j) : eraseAt arr pos j = arr (j + 1) :=
  if_neg (Nat.not_lt.mpr h)

/-- What is in the array after an element was put in. -/
theorem exists_insertAt {arr : Nat → α} {n pos : Nat} {x : α} (hpos : pos ≤ n) (p : α → Prop) :
    (∃ i, i < n + 1 ∧ p (insertAt arr pos x i)) ↔ p x ∨ ∃ i, i < n ∧ p (arr i) := by
  constructor
  · rintro ⟨i, hi, hp⟩
    rcases Nat.lt_trichotomy i pos with hlt | rfl | hgt
    · rw [insertAt_lt x hlt] at hp
      exact .inr ⟨i, by omega, hp⟩
    · rw [insertAt_self] at hp
      exact .inl hp
    · rw [insertAt_gt x hgt] at hp
      exact .inr ⟨i - 1, by omega, hp⟩
  · rintro (hp | ⟨i, hi, hp⟩)
    · exact ⟨pos, by omega, by rwa [insertAt_self]⟩
    · rcases Nat.lt_or_ge i pos with hlt | hge
      · exact ⟨i, by omega, by rwa [insertAt_lt x hlt]⟩
      · exact ⟨i + 1, by omega, by rwa [insertAt_gt x (by omega), Nat.add_sub_cancel]⟩

/-- What is in the array after one was taken out. -/
theorem exists_eraseAt {arr : Nat → α} {n pos : Nat} (hpos : pos < n) (p : α → Prop) :
    (∃ i, i < n - 1 ∧ p (eraseAt arr pos i)) ↔ ∃ i, i < n ∧ i ≠ pos ∧ p (arr i) := by
  constructor
  · rintro ⟨i, hi, hp⟩
    rcases Nat.lt_or_ge i pos with hlt | hge
    · rw [eraseAt_lt hlt] at hp
      exact ⟨i, by omega, by omega, hp⟩
    · rw [eraseAt_ge hge] at hp
      exact ⟨i + 1, by omega, by omega, hp⟩
  · rintro ⟨i, hi, hne, hp⟩
    rcases Nat.lt_or_ge i pos with hlt | hge
    · exact ⟨i, by omega, by rwa [eraseAt_lt hlt]⟩
    · refine ⟨i - 1, by omega, ?_⟩
      rwa [eraseAt_ge (by omega), Nat.sub_add_cancel (by omega)]

end Arrays

section Order

variable {κ : Type*} [Ord κ] {keys : Nat → κ} {n : Nat}

/-- The first `n` keys increase. -/
def Increasing (keys : Nat → κ) (n : Nat) : Prop :=
  ∀ i j, i < j → j < n → compare (keys i) (keys j) = .lt

/-- The place of the key `k` among the first `n`, of which it is none. -/
structure PlaceFor (keys : Nat → κ) (n : Nat) (k : κ) (pos : Nat) : Prop where
  le : pos ≤ n
  before : ∀ i, i < pos → compare (keys i) k = .lt
  after : ∀ j, pos ≤ j → j < n → compare k (keys j) = .lt

theorem Increasing.congr {keys' : Nat → κ} (h : Increasing keys n)
    (hsame : ∀ i, i < n → keys' i = keys i) : Increasing keys' n := by
  intro i j hij hj
  rw [hsame i (hij.trans hj), hsame j hj]
  exact h i j hij hj

theorem Increasing.erase (h : Increasing keys n) (pos : Nat) :
    Increasing (eraseAt keys pos) (n - 1) := by
  intro i j hij hj
  rcases Nat.lt_or_ge j pos with hlt | hge
  · rw [eraseAt_lt hlt, eraseAt_lt (hij.trans hlt)]
    exact h i j hij (by omega)
  · rw [eraseAt_ge hge]
    rcases Nat.lt_or_ge i pos with hlt | hge'
    · rw [eraseAt_lt hlt]
      exact h i (j + 1) (by omega) (by omega)
    · rw [eraseAt_ge hge']
      exact h (i + 1) (j + 1) (by omega) (by omega)

theorem PlaceFor.insert {k : κ} {pos : Nat} (h : PlaceFor keys n k pos) (hinc : Increasing keys n) :
    Increasing (insertAt keys pos k) (n + 1) := by
  intro i j hij hj
  rcases Nat.lt_trichotomy j pos with hlt | rfl | hgt
  · rw [insertAt_lt k hlt, insertAt_lt k (hij.trans hlt)]
    exact hinc i j hij (hlt.trans_le h.le)
  · rw [insertAt_self, insertAt_lt k hij]
    exact h.before i hij
  · rw [insertAt_gt k hgt]
    rcases Nat.lt_trichotomy i pos with hlt | rfl | hgt'
    · rw [insertAt_lt k hlt]
      exact hinc i (j - 1) (by omega) (by omega)
    · rw [insertAt_self]
      exact h.after (j - 1) (by omega) (by omega)
    · rw [insertAt_gt k hgt']
      exact hinc (i - 1) (j - 1) (by omega) (by omega)

/-- **A key can be put in at its place and nowhere else.** -/
theorem increasing_insertAt_iff {k : κ} {pos : Nat} (hinc : Increasing keys n) (hpos : pos ≤ n) :
    Increasing (insertAt keys pos k) (n + 1) ↔ PlaceFor keys n k pos := by
  constructor
  · intro h
    refine ⟨hpos, fun i hi => ?_, fun j hj hjn => ?_⟩
    · have hless := h i pos hi (by omega)
      rwa [insertAt_self, insertAt_lt k hi] at hless
    · have hless := h pos (j + 1) (by omega) (by omega)
      rwa [insertAt_self, insertAt_gt k (by omega), Nat.add_sub_cancel] at hless
  · exact fun h => h.insert hinc

variable [Std.ReflOrd κ]

/-- No key comes before itself. -/
theorem compare_ne_lt (k : κ) : compare k k ≠ .lt := by
  rw [Std.ReflOrd.compare_self]
  intro h
  cases h

theorem Increasing.injective (h : Increasing keys n) {i j : Nat} (hi : i < n) (hj : j < n)
    (heq : keys i = keys j) : i = j := by
  rcases Nat.lt_trichotomy i j with hlt | rfl | hgt
  · have hless := h i j hlt hj
    rw [heq] at hless
    exact absurd hless (compare_ne_lt _)
  · rfl
  · have hless := h j i hgt hi
    rw [heq] at hless
    exact absurd hless (compare_ne_lt _)

/-- What has a place is not there yet. -/
theorem PlaceFor.absent {k : κ} {pos : Nat} (h : PlaceFor keys n k pos) {i : Nat} (hi : i < n) :
    keys i ≠ k := by
  intro heq
  rcases Nat.lt_or_ge i pos with hlt | hge
  · have hless := h.before i hlt
    rw [heq] at hless
    exact compare_ne_lt k hless
  · have hless := h.after i hge hi
    rw [heq] at hless
    exact compare_ne_lt k hless

end Order

theorem PlaceFor.unique {κ : Type*} [Ord κ] [Std.TransOrd κ] {keys : Nat → κ} {n : Nat}
    {k : κ} {pos pos' : Nat} (h : PlaceFor keys n k pos)
    (h' : PlaceFor keys n k pos') : pos = pos' := by
  have hle : ∀ {p q : Nat}, PlaceFor keys n k p → PlaceFor keys n k q → ¬ p < q := by
    intro p q hp hq hlt
    have hbefore := hq.before p hlt
    have hafter := hp.after p le_rfl (hlt.trans_le hq.le)
    exact compare_ne_lt k (Std.TransCmp.lt_trans hafter hbefore)
  have h₁ := hle h h'
  have h₂ := hle h' h
  omega

end Lib
