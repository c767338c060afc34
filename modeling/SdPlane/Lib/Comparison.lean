import Mathlib

/-!
# Comparison functions

A comparison function answers a number that is negative, zero or positive. Where it orders its
arguments, and an array ascends in that order, the comparison of one value with the elements of the
array, from the first one on, is positive for a while, then zero, then negative. A search that looks
at one element hence knows on which side the others lie that it may be looking for.
-/

set_option autoImplicit false

namespace Lib

variable {β : Type*} {cmp : β → β → Int}

/-- The order of `cmp` is total, and the other way round where the arguments are. -/
structure TotalPreorder (cmp : β → β → Int) : Prop where
  swap : ∀ a b, cmp a b < 0 ↔ 0 < cmp b a
  trans : ∀ a b c, cmp a b ≤ 0 → cmp b c ≤ 0 → cmp a c ≤ 0

/-- The first `n` elements are in order. -/
def Ascends (cmp : β → β → Int) (array : Nat → β) (n : Nat) : Prop :=
  ∀ i j, i ≤ j → j < n → cmp (array i) (array j) ≤ 0

namespace TotalPreorder

variable (h : TotalPreorder cmp)

include h

theorem le_swap {a b : β} : cmp a b ≤ 0 ↔ 0 ≤ cmp b a := by
  have hswap := h.swap b a
  omega

theorem lt_of_lt_of_le {a b c : β} (hab : cmp a b < 0) (hbc : cmp b c ≤ 0) : cmp a c < 0 := by
  by_contra hac
  have hca : cmp c a ≤ 0 := h.le_swap.mpr (not_lt.mp hac)
  have hba : cmp b a ≤ 0 := h.trans b c a hbc hca
  have hswap := (h.swap a b).mp hab
  omega

variable {array : Nat → β} {n : Nat} (hasc : Ascends cmp array n) {a : β} {i j : Nat}

include hasc

/-- What is behind an element that the value is before. -/
theorem lt_of_behind (hij : i ≤ j) (hj : j < n) (hlt : cmp a (array i) < 0) :
    cmp a (array j) < 0 :=
  h.lt_of_lt_of_le hlt (hasc i j hij hj)

/-- What is before an element that the value is behind. -/
theorem gt_of_before (hij : i ≤ j) (hj : j < n) (hgt : 0 < cmp a (array j)) :
    0 < cmp a (array i) := by
  by_contra hle
  have htrans := h.trans a (array i) (array j) (not_lt.mp hle) (hasc i j hij hj)
  omega

end TotalPreorder

end Lib
