import Mathlib
import SdPlane.Lib.Loop

/-!
# An array with a count

A C array of which the first `size` elements are in use is a list, `entries arr size`. What the
code does to it is what it does to the list: writing one element behind the last and counting up
appends, and closing the gap by `memmove` and counting down erases.
-/

set_option autoImplicit false

namespace Lib

variable {α : Type*}

/-- The elements in use. -/
def entries (arr : Nat → α) (size : Nat) : List α := (List.range size).map arr

@[simp] theorem entries_zero (arr : Nat → α) : entries arr 0 = [] := rfl

@[simp] theorem length_entries (arr : Nat → α) (size : Nat) : (entries arr size).length = size := by
  simp [entries]

theorem mem_entries {arr : Nat → α} {size : Nat} {a : α} :
    a ∈ entries arr size ↔ ∃ i, i < size ∧ arr i = a := by
  simp [entries]

@[simp] theorem getElem_entries {arr : Nat → α} {size i : Nat} (h : i < (entries arr size).length) :
    (entries arr size)[i] = arr i := by
  simp [entries]

theorem getElem?_entries {arr : Nat → α} {size i : Nat} {a : α} :
    (entries arr size)[i]? = some a ↔ i < size ∧ arr i = a := by
  rw [List.getElem?_eq_some_iff]
  simp

theorem entries_succ (arr : Nat → α) (size : Nat) :
    entries arr (size + 1) = entries arr size ++ [arr size] := by
  simp [entries, List.range_succ]

theorem entries_congr {arr arr' : Nat → α} {size : Nat} (h : ∀ i, i < size → arr i = arr' i) :
    entries arr size = entries arr' size := by
  apply List.map_congr_left
  intro i hi
  exact h i (List.mem_range.mp hi)

theorem entries_push (arr : Nat → α) (size : Nat) (a : α) :
    entries (Function.update arr size a) (size + 1) = entries arr size ++ [a] := by
  rw [entries_succ, Function.update_self]
  congr 1
  apply entries_congr
  intro i hi
  exact Function.update_of_ne (Nat.ne_of_lt hi) _ _

/-- `memmove` closes the gap that element `i` leaves. -/
theorem entries_eraseIdx {arr arr' : Nat → α} {size i : Nat} (hi : i < size)
    (h : ∀ j, j + 1 < size → arr' j = if i ≤ j then arr (j + 1) else arr j) :
    entries arr' (size - 1) = (entries arr size).eraseIdx i := by
  apply List.ext_getElem
  · rw [List.length_eraseIdx_of_lt (by simpa using hi)]
    simp
  · intro j hj hj'
    simp only [length_entries] at hj
    rw [getElem_entries, h j (by omega), List.getElem_eraseIdx]
    by_cases hij : i ≤ j
    · simp [hij, Nat.not_lt.mpr hij]
    · simp [hij, Nat.not_le.mp hij]

/-- Where there is one element of a kind, its place is where the search finds it. -/
theorem eraseIdx_eq_erase [DecidableEq α] {l : List α} {a : α} {i : Nat} (hi : i < l.length)
    (ha : l[i] = a) (hfirst : ∀ j, j < i → ∀ h : j < l.length, l[j] ≠ a) : l.eraseIdx i = l.erase a := by
  induction l generalizing i with
  | nil => exact absurd hi (Nat.not_lt_zero _)
  | cons b rest ih =>
    cases i with
    | zero =>
      obtain rfl : b = a := ha
      simp
    | succ i =>
      have hb : b ≠ a := hfirst 0 (Nat.succ_pos i) (Nat.succ_pos _)
      rw [List.eraseIdx_cons_succ, List.erase_cons_tail (by simpa using hb)]
      congr 1
      apply ih (Nat.lt_of_succ_lt_succ hi) ha
      intro j hj hlt
      exact hfirst (j + 1) (Nat.succ_lt_succ hj) (Nat.succ_lt_succ hlt)

/-- A loop that erases where it finds `a`, and runs on over what has moved up. There is one `a`, so
    it finds no more. -/
theorem erase_loop [DecidableEq α] {σ : Type*} (list : σ → List α) {a : α} {body : Nat → σ → σ} {s : σ}
    (hnodup : (list s).Nodup)
    (hit : ∀ i s', (list s')[i]? = some a → list (body i s') = (list s').eraseIdx i)
    (miss : ∀ i s', (list s')[i]? ≠ some a → body i s' = s') :
    list (forUpTo (list s).length body s) = (list s).erase a := by
  have hloop : (forUpTo (list s).length body s = s ∧ ∀ k < (list s).length, (list s)[k]? ≠ some a)
      ∨ list (forUpTo (list s).length body s) = (list s).erase a := by
    refine forUpTo_rule (fun i s' => (s' = s ∧ ∀ k < i, (list s)[k]? ≠ some a)
      ∨ list s' = (list s).erase a) (.inl ⟨rfl, fun k hk => absurd hk (Nat.not_lt_zero k)⟩) ?_
    intro i s' hi hs'
    rcases hs' with ⟨rfl, hbefore⟩ | hgone
    · by_cases ha : (list s')[i]? = some a
      · right
        rw [hit i s' ha]
        refine eraseIdx_eq_erase hi (List.getElem?_eq_some_iff.mp ha).2 fun j hj hlt hja => ?_
        exact hbefore j hj (List.getElem?_eq_some_iff.mpr ⟨hlt, hja⟩)
      · left
        rw [miss i s' ha]
        refine ⟨rfl, fun k hk => ?_⟩
        rcases Nat.lt_succ_iff_lt_or_eq.mp hk with hk | rfl
        · exact hbefore k hk
        · exact ha
    · right
      rw [miss i s', hgone]
      intro ha
      rw [hgone] at ha
      exact hnodup.not_mem_erase (List.mem_of_getElem? ha)
  rcases hloop with ⟨heq, hnone⟩ | hgone
  · rw [heq, List.erase_of_not_mem]
    intro hmem
    obtain ⟨k, hk, hka⟩ := List.getElem_of_mem hmem
    exact hnone k hk (List.getElem?_eq_some_iff.mpr ⟨hk, hka⟩)
  · exact hgone

theorem index_unique {l : List α} (hnodup : l.Nodup) {a : α} {i j : Nat} (hi : l[i]? = some a)
    (hj : l[j]? = some a) : i = j := by
  obtain ⟨hi', hia⟩ := List.getElem?_eq_some_iff.mp hi
  obtain ⟨hj', hja⟩ := List.getElem?_eq_some_iff.mp hj
  exact (hnodup.getElem_inj_iff).mp (hia.trans hja.symm)

/-- Where an element stands after another one has been erased. -/
theorem getElem?_erase_iff [DecidableEq α] {l : List α} (hnodup : l.Nodup) {a b : α} {i j : Nat}
    (hi : l[i]? = some a) (hj : l[j]? = some b) (hne : b ≠ a) (m : Nat) :
    (l.erase a)[m]? = some b ↔ m = if i < j then j - 1 else j := by
  have hij : i ≠ j := by
    intro heq
    subst heq
    exact hne (Option.some.inj (hj.symm.trans hi))
  obtain ⟨hlt, ha⟩ := List.getElem?_eq_some_iff.mp hi
  have herase : l.erase a = l.eraseIdx i := by
    rw [eraseIdx_eq_erase hlt ha]
    intro k hk hlt' hka
    exact (Nat.ne_of_lt hk) (hnodup.getElem_inj_iff.mp (hka.trans ha.symm))
  rw [herase, List.getElem?_eraseIdx]
  constructor
  · intro h
    split at h
    · have hm := index_unique hnodup h hj
      split <;> omega
    · have hm := index_unique hnodup h hj
      split <;> omega
  · intro h
    split at h
    · rw [if_neg (by omega), show m + 1 = j by omega]
      exact hj
    · rw [if_pos (by omega), h]
      exact hj

end Lib
