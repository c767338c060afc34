import Mathlib

/-!
# Memory accesses

A program that reads and writes a memory, `Access β α`, keeps a record of the addresses that it has
touched. What it computes and where it has been are then two questions about one run.

`run` is the run, and every construct has a lemma `run_` that says what is in memory after it and
what it has added to the record (`Traced.touch`). Nothing leaves the record.
-/

set_option autoImplicit false

namespace Lib

/-- A memory, and which of its addresses have been touched. -/
structure Traced (β : Type) where
  mem : Nat → β
  touched : List Nat

def Traced.touch {β : Type} (s : Traced β) (l : List Nat) : Traced β :=
  { s with touched := l ++ s.touched }

@[simp] theorem Traced.mem_touch {β : Type} (s : Traced β) (l : List Nat) :
    (s.touch l).mem = s.mem := rfl

theorem Traced.touch_touch {β : Type} (s : Traced β) (l l' : List Nat) :
    (s.touch l).touch l' = s.touch (l' ++ l) := by
  simp [touch]

def Access (β α : Type) : Type := StateM (Traced β) α

namespace Access

variable {β α γ : Type}

instance : Monad (Access β) := inferInstanceAs (Monad (StateM (Traced β)))

/-- The addresses of `n` values from `i` on. -/
def span (i n : Nat) : List Nat := (List.range n).map (i + ·)

theorem mem_span {i n j : Nat} : j ∈ span i n ↔ i ≤ j ∧ j < i + n := by
  simp only [span, List.mem_map, List.mem_range]
  constructor
  · rintro ⟨k, hk, rfl⟩
    omega
  · intro h
    exact ⟨j - i, by omega, by omega⟩

def load (i : Nat) : Access β β := fun s => (s.mem i, s.touch [i])

def store (i : Nat) (b : β) : Access β Unit :=
  fun s => ((), { s.touch [i] with mem := Function.update s.mem i b })

/-- `n` values from `i` on. -/
def loadN (i n : Nat) : Access β (Vector β n) :=
  fun s => (Vector.ofFn fun k => s.mem (i + k), s.touch (span i n))

def storeN {n : Nat} (i : Nat) (v : Vector β n) : Access β Unit :=
  fun s => ((), { s.touch (span i n) with
    mem := fun j => if h : i ≤ j ∧ j < i + n then v[j - i] else s.mem j })

/-- A program is run. -/
def run (x : Access β α) (s : Traced β) : α × Traced β := x s

-- Parentheses keep these from being used by `dsimp`, which would leave instances behind.
section Run

variable (s : Traced β) (x : Access β α) (f : α → Access β γ) (i n : Nat) (b : β)

@[simp] theorem run_pure (a : α) : (pure a : Access β α).run s = (a, s) := (rfl)

@[simp] theorem run_bind : (x >>= f).run s = (f (x.run s).1).run (x.run s).2 := (rfl)

@[simp] theorem run_load : (load i : Access β β).run s = (s.mem i, s.touch [i]) := (rfl)

@[simp] theorem run_store :
    (store i b).run s = ((), { s.touch [i] with mem := Function.update s.mem i b }) := (rfl)

@[simp] theorem run_loadN :
    (loadN i n : Access β _).run s = (Vector.ofFn fun k => s.mem (i + k), s.touch (span i n)) := (rfl)

@[simp] theorem run_storeN {n : Nat} (v : Vector β n) : (storeN i v).run s
    = ((), { s.touch (span i n) with
      mem := fun j => if h : i ≤ j ∧ j < i + n then v[j - i] else s.mem j }) := (rfl)

@[simp] theorem run_ite (c : Prop) [Decidable c] (x y : Access β α) :
    (if c then x else y).run s = if c then x.run s else y.run s := by
  split <;> rfl

end Run

end Access

end Lib
