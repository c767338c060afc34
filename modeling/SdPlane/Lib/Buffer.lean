import Mathlib
import SdPlane.Lib.Crash

/-!
# Text in a buffer

A buffer is a function from places to characters. `Lies buf i l` says that the list `l` lies in it
from place `i` on; it can be taken apart where the list can, and is not changed by what is written
elsewhere. So what `memmove` and `memcpy` do to a buffer is said by what lies where afterwards.

A string ends in a terminator, which is not in it. `strRead` reads one from a buffer of `size`
places, and ends the program where there is no terminator.
-/

set_option autoImplicit false

namespace Lib

variable {α : Type*}

/-- `l` lies at place `i`. -/
def Lies (buf : Nat → α) (i : Nat) : List α → Prop
  | [] => True
  | a :: l => buf i = a ∧ Lies buf (i + 1) l

/-- What lies at `i`, of length `n`. -/
def slice (buf : Nat → α) (i n : Nat) : List α := (List.range n).map fun k => buf (i + k)

/-- `memmove (&buf[dst], &buf[src], n)` -/
def memmove (buf : Nat → α) (dst src n : Nat) : Nat → α :=
  fun i => if dst ≤ i ∧ i < dst + n then buf (src + (i - dst)) else buf i

/-- `memcpy (&buf[dst], l, strlen (l))` -/
def memcpy (buf : Nat → α) (dst : Nat) : List α → Nat → α
  | [] => buf
  | a :: l => memcpy (Function.update buf dst a) (dst + 1) l

variable {buf buf' : Nat → α} {i j n : Nat} {l m : List α} {a : α}

@[simp] theorem lies_nil : Lies buf i [] := trivial

@[simp] theorem lies_cons : Lies buf i (a :: l) ↔ buf i = a ∧ Lies buf (i + 1) l := Iff.rfl

theorem lies_append : Lies buf i (l ++ m) ↔ Lies buf i l ∧ Lies buf (i + l.length) m := by
  induction l generalizing i with
  | nil => simp
  | cons a l ih => simp [ih, and_assoc, Nat.add_assoc, Nat.add_comm 1]

theorem Lies.getElem (h : Lies buf i l) {k : Nat} (hk : k < l.length) : buf (i + k) = l[k] := by
  induction l generalizing i k with
  | nil => exact absurd hk (Nat.not_lt_zero k)
  | cons a l ih =>
    cases k with
    | zero => exact h.1
    | succ k =>
      rw [List.getElem_cons_succ, ← ih h.2 (Nat.lt_of_succ_lt_succ hk), Nat.add_assoc, Nat.add_comm 1]

/-- Writing elsewhere. -/
theorem Lies.congr (h : Lies buf i l) (heq : ∀ j, i ≤ j → j < i + l.length → buf' j = buf j) :
    Lies buf' i l := by
  induction l generalizing i with
  | nil => trivial
  | cons a l ih =>
    refine ⟨?_, ih h.2 fun j hij hj => heq j (by omega) (by rw [List.length_cons]; omega)⟩
    rw [heq i le_rfl (by simp)]
    exact h.1

/-- The same text at another place. -/
theorem Lies.move (h : Lies buf i l) (heq : ∀ k, k < l.length → buf' (j + k) = buf (i + k)) :
    Lies buf' j l := by
  induction l generalizing i j with
  | nil => trivial
  | cons a l ih =>
    refine ⟨?_, ih h.2 fun k hk => ?_⟩
    · have hfirst := heq 0 (by simp)
      rw [Nat.add_zero, Nat.add_zero] at hfirst
      rw [hfirst]
      exact h.1
    · have hnext := heq (k + 1) (by simpa using hk)
      rw [Nat.add_assoc, Nat.add_assoc, Nat.add_comm 1]
      exact hnext

theorem lies_slice : Lies buf i (slice buf i n) := by
  induction n generalizing i with
  | zero => trivial
  | succ n ih =>
    rw [slice, List.range_succ_eq_map, List.map_cons, List.map_map]
    refine ⟨rfl, ?_⟩
    have hnext : slice buf (i + 1) n = (List.range n).map ((fun k => buf (i + k)) ∘ Nat.succ) :=
      List.map_congr_left fun k _ => by
        show buf (i + 1 + k) = buf (i + (k + 1))
        rw [Nat.add_assoc, Nat.add_comm 1]
    rw [← hnext]
    exact ih

@[simp] theorem length_slice : (slice buf i n).length = n := by simp [slice]

/-- Only one text of a length lies at a place. -/
theorem Lies.unique (h : Lies buf i l) (h' : Lies buf i m) (hlen : l.length = m.length) : l = m := by
  induction l generalizing i m with
  | nil => exact (List.length_eq_zero_iff.mp hlen.symm).symm
  | cons a l ih =>
    cases m with
    | nil => cases hlen
    | cons b m => rw [← h.1, ← h'.1, ih h.2 h'.2 (by simpa using hlen)]

theorem Lies.slice_eq (h : Lies buf i l) : slice buf i l.length = l :=
  lies_slice.unique h (by simp)

theorem lies_memmove {dst : Nat} (h : Lies buf i l) : Lies (memmove buf dst i l.length) dst l := by
  refine h.move fun k hk => ?_
  rw [memmove, if_pos (by omega)]
  congr 1
  omega

theorem memmove_of_not {dst src : Nat} (h : ¬ (dst ≤ i ∧ i < dst + n)) :
    memmove buf dst src n i = buf i := if_neg h

theorem memcpy_of_not {dst : Nat} (h : ¬ (dst ≤ i ∧ i < dst + l.length)) :
    memcpy buf dst l i = buf i := by
  induction l generalizing buf dst with
  | nil => rfl
  | cons a l ih =>
    rw [List.length_cons] at h
    rw [memcpy, ih (by omega), Function.update_of_ne (by omega)]

theorem lies_memcpy {dst : Nat} : Lies (memcpy buf dst l) dst l := by
  induction l generalizing buf dst with
  | nil => trivial
  | cons a l ih =>
    refine ⟨?_, ih⟩
    rw [memcpy, memcpy_of_not (by omega), Function.update_self]

theorem lies_replicate (h : ∀ j, i ≤ j → j < i + n → buf j = a) : Lies buf i (List.replicate n a) := by
  induction n generalizing i with
  | zero => trivial
  | succ n ih => exact ⟨h i le_rfl (by omega), ih fun j hij hj => h j (by omega) (by omega)⟩

/-- A write behind the text. -/
theorem Lies.update (h : Lies buf i l) (hj : j < i ∨ i + l.length ≤ j) :
    Lies (Function.update buf j a) i l :=
  h.congr fun k hik hk => Function.update_of_ne (by omega) _ _

/-! ## Strings -/

section Strings

variable [DecidableEq α] (nul : α)

/-- A string, at a place of a buffer where `n` places are left. -/
def strRead (buf : Nat → α) : Nat → Nat → Except Crash (List α)
  | 0, _ => .error .outOfBounds
  | n + 1, i =>
    if buf i = nul then .ok []
    else do
      let rest ← strRead buf n (i + 1)
      return buf i :: rest

/-- The string that an array begins with. -/
def cString (l : List α) : List α := l.takeWhile (· ≠ nul)

variable {nul}

theorem strRead_eq (h : Lies buf i l) (hnul : nul ∉ l) (hend : buf (i + l.length) = nul)
    (hn : l.length < n) : strRead nul buf n i = .ok l := by
  induction l generalizing i n with
  | nil =>
    cases n with
    | zero => exact absurd hn (Nat.not_lt_zero _)
    | succ n => exact if_pos hend
  | cons a l ih =>
    cases n with
    | zero => exact absurd hn (Nat.not_lt_zero _)
    | succ n =>
      rw [List.mem_cons, not_or] at hnul
      have hrest : strRead nul buf n (i + 1) = .ok l := by
        refine ih h.2 hnul.2 ?_ (by simpa using hn)
        rw [Nat.add_assoc, Nat.add_comm 1]
        exact hend
      rw [strRead, if_neg (by rw [h.1]; exact fun heq => hnul.1 heq.symm), hrest, h.1]
      rfl

theorem not_mem_cString : nul ∉ cString nul l := by
  intro hmem
  have hne := List.mem_takeWhile_imp hmem
  simp at hne

end Strings

end Lib
