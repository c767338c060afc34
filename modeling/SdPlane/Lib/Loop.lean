import Mathlib

/-!
# Counting loops and ring scans

Three shapes of C loops, each with the rule by which it is reasoned about:

* `forUpTo n body`, the loop `for (i = 0; i < n; i++)` whose body only changes the state;
* `forRange n body`, the same loop when the body may leave the function it stands in. What the
  function then leaves behind is the error of an `Except`;
* `ringScan size start p`, the search `for (i = start + 1; i != start; i = i + 1)` modulo
  `size`. It never looks at `start` itself.

The invariant of a loop may mention the loop variable; it is passed as a family over it.
-/

set_option autoImplicit false

namespace Lib

variable {σ ε : Type*}

/-- `for (i = 0; i < n; i++) body (i);` -/
def forUpTo : Nat → (Nat → σ → σ) → σ → σ
  | 0, _, s => s
  | n + 1, body, s => body n (forUpTo n body s)

/-- `for (i = 0; i < n; i++) body (i);` where the body may return early. -/
def forRange : Nat → (Nat → σ → Except ε σ) → σ → Except ε σ
  | 0, _, s => .ok s
  | n + 1, body, s =>
    match forRange n body s with
    | .ok s => body n s
    | .error e => .error e

theorem forUpTo_rule (P : Nat → σ → Prop) {n : Nat} {body : Nat → σ → σ} {s : σ} (init : P 0 s)
    (step : ∀ i s, i < n → P i s → P (i + 1) (body i s)) : P n (forUpTo n body s) := by
  induction n with
  | zero => exact init
  | succ n ih =>
    exact step n _ (Nat.lt_succ_self n) (ih fun i s hi => step i s (Nat.lt_succ_of_lt hi))

/-- A loop that may leave early: `P n` holds after its last round, and `Q` of what it leaves
    behind in any other case. -/
theorem forRange_rule (P : Nat → σ → Prop) (Q : ε → Prop) {n : Nat}
    {body : Nat → σ → Except ε σ} {s : σ} (init : P 0 s)
    (step : ∀ i s, i < n → P i s →
      (∀ s', body i s = .ok s' → P (i + 1) s') ∧ ∀ e, body i s = .error e → Q e) :
    (∀ s', forRange n body s = .ok s' → P n s') ∧ ∀ e, forRange n body s = .error e → Q e := by
  induction n with
  | zero =>
    refine ⟨fun s' h => ?_, fun e h => nomatch h⟩
    obtain rfl : s = s' := Except.ok.inj h
    exact init
  | succ n ih =>
    obtain ⟨ihok, iherr⟩ := ih fun i s hi => step i s (Nat.lt_succ_of_lt hi)
    cases hn : forRange n body s with
    | ok s₁ =>
      simp only [forRange, hn]
      exact step n s₁ (Nat.lt_succ_self n) (ihok s₁ hn)
    | error e₁ =>
      simp only [forRange, hn]
      refine ⟨fun s' h => (by cases h), fun e h => ?_⟩
      obtain rfl : e₁ = e := Except.error.inj h
      exact iherr e₁ hn

/-- The indices that a ring scan from `start` looks at, in order. -/
def ringFrom (size start : Nat) : List Nat :=
  (List.range (size - 1)).map fun d => (start + 1 + d) % size

/-- `for (i = (start + 1) % size; i != start; i = (i + 1) % size) if (p (i)) return i;` -/
def ringScan (size start : Nat) (p : Nat → Bool) : Option Nat := (ringFrom size start).find? p

/-- Every index but `start` is looked at. -/
theorem mem_ringFrom {size start i : Nat} (hstart : start < size) :
    i ∈ ringFrom size start ↔ i < size ∧ i ≠ start := by
  simp only [ringFrom, List.mem_map, List.mem_range]
  constructor
  · rintro ⟨d, hd, rfl⟩
    refine ⟨Nat.mod_lt _ (by omega), fun heq => ?_⟩
    rcases Nat.lt_or_ge (start + 1 + d) size with hlt | hge
    · rw [Nat.mod_eq_of_lt hlt] at heq; omega
    · rw [Nat.mod_eq_sub_mod hge, Nat.mod_eq_of_lt (by omega)] at heq; omega
  · rintro ⟨hi, hne⟩
    rcases Nat.lt_or_ge start i with hlt | hge
    · exact ⟨i - start - 1, by omega, by rw [show start + 1 + (i - start - 1) = i by omega,
        Nat.mod_eq_of_lt hi]⟩
    · refine ⟨i + size - start - 1, by omega, ?_⟩
      rw [show start + 1 + (i + size - start - 1) = i + size by omega, Nat.add_mod_right,
        Nat.mod_eq_of_lt hi]

theorem ringScan_some {size start i : Nat} {p : Nat → Bool} (hsize : 0 < size)
    (h : ringScan size start p = some i) : i < size ∧ p i = true := by
  refine ⟨?_, List.find?_some h⟩
  obtain ⟨d, -, rfl⟩ := List.mem_map.mp (List.mem_of_find?_eq_some h)
  exact Nat.mod_lt _ hsize

/-- A scan that finds nothing has seen everything but its start. -/
theorem ringScan_none {size start : Nat} {p : Nat → Bool} (hstart : start < size)
    (h : ringScan size start p = none) {i : Nat} (hi : i < size) (hne : i ≠ start) :
    p i = false := by
  have hall := List.find?_eq_none.mp h i ((mem_ringFrom hstart).mpr ⟨hi, hne⟩)
  simpa using hall

end Lib
