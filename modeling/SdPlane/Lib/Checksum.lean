import Mathlib

/-!
# The internet checksum

The one's complement sum of 16-bit words adds with the carry brought around to the low end, so it
is the sum modulo `65535`, with `0` for nothing but zeros and `65535` for every other multiple.
The checksum of a header is the complement of that sum, taken with `0` in the place of the
checksum. With the checksum in its place the sum is `65535` (`onesSum_set`), and that is what a
receiver checks.
-/

set_option autoImplicit false

namespace Lib

/-- Addition with the carry brought around. -/
def onesAdd (a b : Nat) : Nat := if a + b < 65536 then a + b else a + b - 65535

def onesSum (words : List Nat) : Nat := words.foldr onesAdd 0

/-- The checksum of words with `0` in the place of the checksum. -/
def checksum (words : List Nat) : Nat := 65535 - onesSum words

theorem onesAdd_lt {a b : Nat} (ha : a < 65536) (hb : b < 65536) : onesAdd a b < 65536 := by
  unfold onesAdd
  split <;> omega

theorem onesAdd_eq_zero {a b : Nat} : onesAdd a b = 0 ↔ a = 0 ∧ b = 0 := by
  unfold onesAdd
  split <;> omega

theorem onesAdd_modEq (a b : Nat) : onesAdd a b ≡ a + b [MOD 65535] := by
  unfold onesAdd
  split
  · rfl
  · next hcarry =>
    have hsplit : a + b = a + b - 65535 + 65535 := by omega
    calc a + b - 65535 ≡ a + b - 65535 + 65535 [MOD 65535] := (Nat.add_modEq_right ..).symm
      _ = a + b := hsplit.symm

theorem onesSum_lt {words : List Nat} (h : ∀ w ∈ words, w < 65536) : onesSum words < 65536 := by
  induction words with
  | nil => exact Nat.zero_lt_succ _
  | cons w rest ih =>
    have hrest := ih fun x hx => h x (List.mem_cons_of_mem w hx)
    exact onesAdd_lt (h w List.mem_cons_self) hrest

theorem onesSum_eq_zero {words : List Nat} : onesSum words = 0 ↔ ∀ w ∈ words, w = 0 := by
  induction words with
  | nil => simp [onesSum]
  | cons w rest ih =>
    rw [List.forall_mem_cons, ← ih]
    exact onesAdd_eq_zero

theorem onesSum_modEq (words : List Nat) : onesSum words ≡ words.sum [MOD 65535] := by
  induction words with
  | nil => rfl
  | cons w rest ih =>
    calc onesSum (w :: rest) ≡ w + onesSum rest [MOD 65535] := onesAdd_modEq w _
      _ ≡ w + rest.sum [MOD 65535] := ih.add_left w
      _ = (w :: rest).sum := (List.sum_cons ..).symm

theorem sum_set {words : List Nat} {i x : Nat} (hi : words[i]? = some 0) :
    (words.set i x).sum = words.sum + x := by
  induction words generalizing i with
  | nil => cases hi
  | cons w rest ih =>
    cases i with
    | zero =>
      obtain rfl := Option.some.inj hi
      simp [Nat.add_comm]
    | succ i =>
      have hrest := ih (i := i) hi
      rw [List.set_cons_succ, List.sum_cons, List.sum_cons, hrest, Nat.add_assoc]

/-- **With its checksum a header sums up to all ones.** -/
theorem onesSum_set {words : List Nat} {i : Nat} (h : ∀ w ∈ words, w < 65536)
    (hi : words[i]? = some 0) : onesSum (words.set i (checksum words)) = 65535 := by
  have hsum := onesSum_lt h
  have hplace : i < words.length := (List.getElem?_eq_some_iff.mp hi).1
  have hwords : ∀ w ∈ words.set i (checksum words), w < 65536 := by
    intro w hw
    rcases List.mem_or_eq_of_mem_set hw with hw | rfl
    · exact h w hw
    · unfold checksum
      omega
  have hmod : onesSum (words.set i (checksum words)) ≡ 0 [MOD 65535] := by
    calc onesSum (words.set i (checksum words))
        ≡ (words.set i (checksum words)).sum [MOD 65535] := onesSum_modEq _
      _ = words.sum + checksum words := sum_set hi
      _ ≡ onesSum words + checksum words [MOD 65535] := (onesSum_modEq words).symm.add_right _
      _ = 65535 := by
        unfold checksum
        omega
      _ ≡ 0 [MOD 65535] := by rfl
  have hne : onesSum (words.set i (checksum words)) ≠ 0 := by
    intro hzero
    rw [onesSum_eq_zero] at hzero
    -- then the checksum was zero as well, and it is not the one of zeros
    have hcheck := hzero _ (List.mem_set hplace _)
    have hall : ∀ w ∈ words, w = 0 := by
      intro w hw
      obtain ⟨j, hj, rfl⟩ := List.getElem_of_mem hw
      by_cases hij : i = j
      · subst hij
        exact (List.getElem?_eq_some_iff.mp hi).2
      · have hset := hzero _ (List.getElem_mem (l := words.set i (checksum words)) (by simpa using hj))
        rwa [List.getElem_set_ne hij] at hset
    rw [checksum, onesSum_eq_zero.mpr hall] at hcheck
    cases hcheck
  have hlt := onesSum_lt hwords
  have hdvd := (Nat.modEq_zero_iff_dvd).mp hmod
  omega

end Lib
