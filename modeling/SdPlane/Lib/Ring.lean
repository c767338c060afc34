import Mathlib

/-!
# Rings of slots

An array of `size` slots whose last one is followed by its first. What it holds from slot `start`
on is a list, `ring arr size start n`; a slot behind it is written by appending, and the first one
is given up by going on to the next slot. As long as the list does not fill the ring no slot is in
it twice.
-/

set_option autoImplicit false

namespace Lib

variable {α : Type*}

/-- The `n` slots from `start` on. -/
def ring (arr : Nat → α) (size start n : Nat) : List α :=
  (List.range n).map fun i => arr ((start + i) % size)

@[simp] theorem ring_zero (arr : Nat → α) (size start : Nat) : ring arr size start 0 = [] := rfl

@[simp] theorem length_ring (arr : Nat → α) (size start n : Nat) :
    (ring arr size start n).length = n := by
  simp [ring]

theorem ring_succ (arr : Nat → α) (size start n : Nat) :
    ring arr size start (n + 1) = ring arr size start n ++ [arr ((start + n) % size)] := by
  simp [ring, List.range_succ]

theorem ring_cons (arr : Nat → α) (size start n : Nat) :
    ring arr size start (n + 1) = arr (start % size) :: ring arr size ((start + 1) % size) n := by
  simp only [ring, List.range_succ_eq_map, List.map_cons, List.map_map, Nat.add_zero,
    List.cons.injEq, true_and]
  apply List.map_congr_left
  intro i _
  simp [Nat.add_assoc, Nat.add_comm 1 i]

theorem ring_congr {arr arr' : Nat → α} {size size' start start' n : Nat}
    (h : ∀ i, i < n → arr ((start + i) % size) = arr' ((start' + i) % size')) :
    ring arr size start n = ring arr' size' start' n := by
  apply List.map_congr_left
  intro i hi
  exact h i (List.mem_range.mp hi)

/-- Going round a ring once, every slot comes once. -/
theorem slot_inj {size start i j : Nat} (hi : i < size) (hj : j < size)
    (h : (start + i) % size = (start + j) % size) : i = j := by
  have hmod : i % size = j % size := Nat.ModEq.add_left_cancel' start h
  rwa [Nat.mod_eq_of_lt hi, Nat.mod_eq_of_lt hj] at hmod

/-- Writing a slot that is not among them. -/
theorem ring_update {arr : Nat → α} {size start n k : Nat} (hn : n ≤ k) (hk : k < size) (a : α) :
    ring (Function.update arr ((start + k) % size) a) size start n = ring arr size start n := by
  apply ring_congr
  intro i hi
  apply Function.update_of_ne
  intro heq
  have hik := slot_inj (by omega) hk heq
  omega

theorem ring_push {arr : Nat → α} {size start n : Nat} (hn : n < size) (a : α) :
    ring (Function.update arr ((start + n) % size) a) size start (n + 1)
      = ring arr size start n ++ [a] := by
  rw [ring_succ, ring_update le_rfl hn, Function.update_self]

end Lib
