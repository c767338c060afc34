import Mathlib

/-!
# A row of a terminal

What is written to a terminal comes into the row where the cursor is, one character after the other.
A backspace only moves the cursor, as does a carriage return; a line feed goes on to a new row,
which is empty. A row has `width` places, and in the last of them the cursor stays.

`Shows` says what is to be seen: a text at the beginning of the row, nothing behind it, and the
cursor. Its lemmas are what the runs of characters that a program writes do to that; text that is
written over other text takes its place.
-/

set_option autoImplicit false

namespace Lib

structure Row where
  cells : Nat → Char
  column : Nat

namespace Row

def BS : Char := Char.ofNat 8

def LF : Char := Char.ofNat 10

def CR : Char := Char.ofNat 13

def blank : Row := ⟨fun _ => ' ', 0⟩

def put (width : Nat) (row : Row) (c : Char) : Row :=
  if c = BS then { row with column := row.column - 1 }
  else if c = CR then { row with column := 0 }
  else if c = LF then { row with cells := fun _ => ' ' }
  else ⟨Function.update row.cells row.column c, min (row.column + 1) (width - 1)⟩

def run (width : Nat) (row : Row) (cs : List Char) : Row := cs.foldl (put width) row

/-- It takes one place of a row, on any terminal. -/
def Printable (c : Char) : Prop := ' ' ≤ c ∧ c ≤ '~'

instance (c : Char) : Decidable (Printable c) := inferInstanceAs (Decidable (_ ∧ _))

/-- `text` and then nothing, with the cursor at `column`. -/
structure Shows (row : Row) (text : List Char) (column : Nat) : Prop where
  cells : ∀ i, row.cells i = text.getD i ' '
  column : row.column = column

theorem run_append (width : Nat) (row : Row) (cs ds : List Char) :
    row.run width (cs ++ ds) = (row.run width cs).run width ds := List.foldl_append

theorem Printable.ne {c d : Char} (h : Printable c) (hd : d < ' ') : c ≠ d := by
  rintro rfl
  exact absurd h.1 (not_le.mpr hd)

theorem put_printable {width : Nat} {row : Row} {c : Char} (h : Printable c) : row.put width c
    = ⟨Function.update row.cells row.column c, min (row.column + 1) (width - 1)⟩ := by
  rw [put, if_neg (h.ne (by decide)), if_neg (h.ne (by decide)), if_neg (h.ne (by decide))]

theorem shows_blank : Shows blank [] 0 := ⟨fun _ => rfl, rfl⟩

namespace Shows

variable {row : Row} {text : List Char} {column : Nat}

/-- Blanks are not seen. -/
theorem blanks_iff {n : Nat} :
    Shows row (text ++ List.replicate n ' ') column ↔ Shows row text column := by
  have hsame : ∀ i, (text ++ List.replicate n ' ').getD i ' ' = text.getD i ' ' := by
    intro i
    rcases Nat.lt_or_ge i text.length with hlt | hge
    · rw [List.getD_append _ _ _ _ hlt]
    · rw [List.getD_append_right _ _ _ _ hge, List.getD_eq_default text ' ' hge]
      rcases Nat.lt_or_ge (i - text.length) n with hlt | hge
      · rw [List.getD_replicate _ hlt]
      · exact List.getD_eq_default _ _ (by simpa using hge)
  constructor
  · exact fun h => ⟨fun i => (h.cells i).trans (hsame i), h.column⟩
  · exact fun h => ⟨fun i => (h.cells i).trans (hsame i).symm, h.column⟩

theorem cr (h : Shows row text column) (width : Nat) : Shows (row.run width [CR]) text 0 := ⟨h.cells, rfl⟩

theorem lf (h : Shows row text column) (width : Nat) : Shows (row.run width [LF]) [] column :=
  ⟨fun _ => rfl, h.column⟩

theorem back (h : Shows row text column) (width n : Nat) :
    Shows (row.run width (List.replicate n BS)) text (column - n) := by
  induction n generalizing row column with
  | zero => exact h
  | succ n ih =>
    have hone : Shows (row.put width BS) text (column - 1) :=
      ⟨h.cells, congrArg (· - 1) h.column⟩
    have hrest := ih hone
    rwa [Nat.sub_sub, Nat.add_comm 1] at hrest

/-- One character is written over another. -/
theorem putOver {width : Nat} {a b : List Char} (h : Shows row (a ++ b) a.length) {c : Char}
    (hc : Printable c) (hwidth : a.length + 1 < width) :
    Shows (row.put width c) (a ++ [c] ++ b.tail) (a.length + 1) := by
  rw [put_printable hc]
  constructor
  · intro i
    show Function.update row.cells row.column c i = _
    rw [h.column]
    rcases Nat.lt_trichotomy i a.length with hlt | rfl | hgt
    · rw [Function.update_of_ne hlt.ne, h.cells, List.append_assoc,
        List.getD_append _ _ _ _ hlt, List.getD_append _ _ _ _ hlt]
    · simp
    · rw [Function.update_of_ne hgt.ne', h.cells,
        List.getD_append_right _ _ _ _ hgt.le, List.getD_append_right _ _ _ _ (by simpa using hgt)]
      have hsub : i - a.length = i - (a ++ [c]).length + 1 := by
        rw [List.length_append, List.length_singleton]
        omega
      cases b with
      | nil => simp
      | cons d b => rw [hsub, List.getD_cons_succ, List.tail_cons]
  · rw [h.column]
    exact min_eq_left (by omega)

/-- What is written takes the place of what was there. -/
theorem write {width : Nat} {a b l : List Char} (h : Shows row (a ++ b) a.length)
    (hl : ∀ c ∈ l, Printable c) (hwidth : a.length + l.length < width) :
    Shows (row.run width l) (a ++ l ++ b.drop l.length) (a.length + l.length) := by
  induction l generalizing row a b with
  | nil => simpa [run] using h
  | cons c l ih =>
    obtain ⟨hc, hl⟩ := List.forall_mem_cons.mp hl
    rw [List.length_cons] at hwidth
    have hone := h.putOver hc (by omega : a.length + 1 < width)
    have hlen : (a ++ [c]).length = a.length + 1 := List.length_append
    rw [← hlen] at hone
    have hrest := ih hone hl (by omega)
    rw [hlen] at hrest
    simpa [run, Nat.add_assoc, Nat.add_comm 1] using hrest

/-- From some place on a row is written anew: the cursor goes back there, what was there is written
    over, with blanks where that is not enough, and the cursor comes back by `n`. -/
theorem redraw {width m : Nat} {a old new : List Char} (h : Shows row (a ++ old) column)
    (hcolumn : a.length ≤ column) (hnew : ∀ c ∈ new, Printable c) (hle : old.length ≤ new.length + m)
    (hwidth : a.length + new.length + m < width) (n : Nat) :
    Shows (row.run width (List.replicate (column - a.length) BS ++ (new ++ List.replicate m ' ')
      ++ List.replicate n BS)) (a ++ new) (a.length + new.length + m - n) := by
  have hstart := h.back width (column - a.length)
  rw [Nat.sub_sub_self hcolumn] at hstart
  have hall : ∀ c ∈ new ++ List.replicate m ' ', Printable c := by
    intro c hc
    rcases List.mem_append.mp hc with hc | hc
    · exact hnew c hc
    · rw [List.eq_of_mem_replicate hc]
      decide
  have hlen : (new ++ List.replicate m ' ').length = new.length + m := by simp
  have hwrite := hstart.write hall (by rw [hlen]; omega : _ < width)
  rw [List.drop_of_length_le (by rw [hlen]; exact hle), List.append_nil, ← List.append_assoc,
    blanks_iff, hlen, ← Nat.add_assoc] at hwrite
  rw [run_append, run_append]
  exact hwrite.back width n

end Shows

end Row

end Lib
