import Mathlib

/-!
# What ends a C program

An expression of type `int` has a value only where its result is an `int`, and an array only has
the elements that it has; an `assert` is there to end the program. Code that may do any of this
is a function into `Except Crash`, and `int` and `inside` are the two tests that are made on the
way.
-/

set_option autoImplicit false

namespace Lib

inductive Crash
  | overflow
  | outOfBounds
  | nullPointer
  | useAfterFree
  | assertion
  | diverges
deriving DecidableEq

/-- The result of an expression of type `int`. -/
def int (x : Int) : Except Crash Int := if -2 ^ 31 ≤ x ∧ x < 2 ^ 31 then .ok x else .error .overflow

/-- An access to element `i` of `n`. -/
def inside (i n : Int) : Except Crash Unit :=
  if 0 ≤ i ∧ i < n then .ok () else .error .outOfBounds

/-- `assert (cond)`. -/
def assert (cond : Prop) [Decidable cond] : Except Crash Unit :=
  if cond then .ok () else .error .assertion

theorem int_of_fits {x : Int} (h : -2 ^ 31 ≤ x ∧ x < 2 ^ 31) : int x = .ok x := if_pos h

theorem int_of_big {x : Int} (h : 2 ^ 31 ≤ x) : int x = .error .overflow :=
  if_neg fun hfits => absurd hfits.2 (not_lt.mpr h)

theorem inside_of_lt {i n : Int} (h : 0 ≤ i ∧ i < n) : inside i n = .ok () := if_pos h

theorem inside_of_ge {i n : Int} (h : n ≤ i) : inside i n = .error .outOfBounds :=
  if_neg fun hfits => absurd hfits.2 (not_lt.mpr h)

theorem assert_of {cond : Prop} [Decidable cond] (h : cond) : assert cond = .ok () := if_pos h

@[simp] theorem pure_eq_ok {α : Type} (a : α) : (pure a : Except Crash α) = .ok a := rfl

@[simp] theorem ok_bind {α β : Type} (a : α) (f : α → Except Crash β) :
    (Except.ok a >>= f) = f a := rfl

@[simp] theorem error_bind {α β : Type} (e : Crash) (f : α → Except Crash β) :
    (Except.error e >>= f) = .error e := rfl

end Lib
