import SdPlane.CommandHistory
import SdPlane.Lib.Buffer

/-!
# The line of a shell (`shell.c`)

The line that is being edited is a string in a buffer that grows, with its length and a cursor. What
is inserted and deleted is moved with `memmove`, and the terminator is written behind the end
each time. `shell_delete_string` and `shell_cut` leave the cursor where the deletion starts.

Here are the functions and what each of them does to the text before the cursor and to the text
behind it, which are lists of characters, the nearest one first. What is written to the terminal is
left out.
-/

set_option autoImplicit false

namespace SdPlane

/-- The part of `struct shell` that the editing of a line is about. The offsets are never negative.
    What is in `commandLine` at `size` and behind it is what `realloc` would add. -/
structure Shell where
  commandLine : Nat → Char
  cursor : Nat
  endp : Nat
  size : Nat
  cutBuffer : Option Str
  escape : Bool
  writefd : Int
  history : Option CommandHistory

def INITIAL_COMMAND_LINE_SIZE : Nat := 32

def NUL : Char := Char.ofNat 0

/-- `shell_create`, with a terminal. -/
def shellCreate (mem : Nat → Char) (writefd : Int) : Shell where
  commandLine := fun i => if i < INITIAL_COMMAND_LINE_SIZE then NUL else mem i
  cursor := 0
  endp := 0
  size := INITIAL_COMMAND_LINE_SIZE
  cutBuffer := none
  escape := false
  writefd
  history := none

namespace Shell

/-- The bytes from `i` up to `j` are bytes of the buffer. -/
def span (shell : Shell) (i j : Nat) : Except Lib.Crash Unit :=
  if i ≤ j ∧ j ≤ shell.size then .ok () else .error .outOfBounds

/-- The text of the line. -/
def text (shell : Shell) : Str := Lib.slice shell.commandLine 0 shell.endp

end Shell

def shellTerminate (shell : Shell) : Shell :=
  if shell.size ≤ shell.endp then shell
  else { shell with commandLine := Function.update shell.commandLine shell.endp NUL }

/-- There is memory; the size is an `int`. -/
def shellExpand (shell : Shell) : Except Lib.Crash Shell := do
  let size ← Lib.int (shell.size * 2)
  return { shell with size := size.toNat }

/-- `while (need > shell->size) shell_expand (shell);`, in which no `int` can be doubled more than
    31 times. -/
def shellExpandFor (need : Nat) : Nat → Shell → Except Lib.Crash Shell
  | 0, _ => .error .diverges
  | n + 1, shell =>
    if shell.size < need then do shellExpandFor need n (← shellExpand shell) else .ok shell

def shellInsert (shell : Shell) (s : Str) : Except Lib.Crash Shell := do
  let s := Lib.cString NUL s
  let shell ← shellExpandFor (shell.endp + s.length + 1) 32 shell
  shell.span shell.cursor shell.endp
  shell.span (shell.cursor + s.length) (shell.endp + s.length)
  let moved := Lib.memmove shell.commandLine (shell.cursor + s.length) shell.cursor
    (shell.endp - shell.cursor)
  let shell := shellTerminate { shell with
    commandLine := Lib.memcpy moved shell.cursor s
    endp := shell.endp + s.length }
  -- without a terminal the cursor stays
  return if 0 ≤ shell.writefd then { shell with cursor := shell.cursor + s.length } else shell

def shellInputChar (shell : Shell) (inputch : Char) : Except Lib.Crash Shell :=
  shellInsert shell [inputch, NUL]

def shellDeleteString (shell : Shell) (start endp : Nat) : Except Lib.Crash Shell := do
  Lib.assert (start ≤ endp)
  Lib.assert (start ≤ endp ∧ endp ≤ shell.endp)
  let size := endp - start
  -- move the string after the deleted part
  let movesize := shell.endp - endp
  shell.span endp shell.endp
  let line := Lib.memmove shell.commandLine start endp movesize
  -- erase the not-needed-anymore part
  let erased := fun i => if start + movesize ≤ i ∧ i < shell.endp then ' ' else line i
  let shell := shellTerminate { shell with commandLine := erased }
  return shellTerminate { shell with cursor := start, endp := shell.endp - size }

def shellCut (shell : Shell) (start endp : Nat) : Except Lib.Crash Shell := do
  Lib.assert (start ≤ endp)
  Lib.assert (start ≤ endp ∧ endp ≤ shell.endp)
  let size := endp - start
  if size = 0 then return { shell with cutBuffer := none }
  shell.span start endp
  shellDeleteString { shell with cutBuffer := some (Lib.slice shell.commandLine start size) }
    start endp

def shellForward (shell : Shell) (num : Nat) : Shell :=
  if shell.endp < shell.cursor + num then shell else { shell with cursor := shell.cursor + num }

def shellBackward (shell : Shell) (num : Nat) : Shell :=
  if shell.cursor < num then shell else { shell with cursor := shell.cursor - num }

def shellMoveto (shell : Shell) (index : Nat) : Except Lib.Crash Shell := do
  Lib.assert (index ≤ shell.endp)
  return if shell.cursor < index then shellForward shell (index - shell.cursor)
    else if index < shell.cursor then shellBackward shell (shell.cursor - index)
    else shell

/-! ## The text on both sides of the cursor -/

/-- What the functions that change the line leave as it is. -/
def Shell.rest (shell : Shell) : Option Str × Bool × Option CommandHistory :=
  (shell.cutBuffer, shell.escape, shell.history)

/-- `left` and `right` of the cursor there is this text. -/
structure LineHolds (shell : Shell) (left right : Str) : Prop where
  lies : Lib.Lies shell.commandLine 0 (left.reverse ++ right)
  clean : NUL ∉ left.reverse ++ right
  cursor : shell.cursor = left.length
  endp : shell.endp = left.length + right.length
  room : shell.endp < shell.size
  terminated : shell.commandLine shell.endp = NUL
  power : ∃ k, k ≤ 30 ∧ shell.size = 2 ^ k
  writefd : 0 ≤ shell.writefd

theorem span_of_le {shell : Shell} {i j : Nat} (h : i ≤ j ∧ j ≤ shell.size) : shell.span i j = .ok () :=
  if_pos h

theorem lineHolds_create (mem : Nat → Char) {writefd : Int} (h : 0 ≤ writefd) :
    LineHolds (shellCreate mem writefd) [] [] where
  lies := trivial
  clean := List.not_mem_nil
  cursor := rfl
  endp := rfl
  room := Nat.zero_lt_succ 31
  terminated := rfl
  power := ⟨5, by decide, rfl⟩
  writefd := h

/-! ### More room -/

theorem shellExpandFor_fits {need n k : Nat} {shell : Shell} (hsize : shell.size = 2 ^ k)
    (hk : k ≤ 30) (hneed : need ≤ 2 ^ 30) (hn : 31 ≤ n + k) :
    ∃ k', k' ≤ 30 ∧ k ≤ k' ∧ need ≤ 2 ^ k'
      ∧ shellExpandFor need n shell = .ok { shell with size := 2 ^ k' } := by
  induction n generalizing k shell with
  | zero => omega
  | succ n ih =>
    rw [shellExpandFor]
    by_cases hlt : shell.size < need
    · have hk' : k < 30 := by
        apply (Nat.pow_lt_pow_iff_right (a := 2) (by decide)).mp
        omega
      have hpow : 2 ^ k * 2 = 2 ^ (k + 1) := (Nat.pow_succ ..).symm
      have hle : 2 ^ (k + 1) ≤ 2 ^ 30 := Nat.pow_le_pow_right (by decide) hk'
      have hexpand : shellExpand shell = .ok { shell with size := 2 ^ (k + 1) } := by
        have hint : Lib.int (shell.size * 2) = .ok (shell.size * 2) :=
          Lib.int_of_fits (by omega)
        have htoNat : ((shell.size : Int) * 2).toNat = 2 ^ (k + 1) := by omega
        simp only [shellExpand, hint, Lib.ok_bind, htoNat, Lib.pure_eq_ok]
      obtain ⟨k', hk30, hkk, hfit, hrun⟩ :=
        @ih _ { shell with size := 2 ^ (k + 1) } rfl hk' (by omega)
      refine ⟨k', hk30, by omega, hfit, ?_⟩
      rw [if_pos hlt, hexpand, Lib.ok_bind, hrun]
    · rw [if_neg hlt]
      exact ⟨k, hk, le_rfl, by omega, by rw [← hsize]⟩

theorem shellExpandFor_overflows {need n k : Nat} {shell : Shell} (hsize : shell.size = 2 ^ k)
    (hk : k ≤ 30) (hneed : ¬ need ≤ 2 ^ 30) (hn : 31 ≤ n + k) :
    shellExpandFor need n shell = .error .overflow := by
  induction n generalizing k shell with
  | zero => omega
  | succ n ih =>
    have hle : 2 ^ k ≤ 2 ^ 30 := Nat.pow_le_pow_right (by decide) hk
    have hlt : shell.size < need := by omega
    rw [shellExpandFor, if_pos hlt, shellExpand]
    by_cases hlast : k = 30
    · subst hlast
      rw [Lib.int_of_big (by omega)]
      rfl
    · have hpow : 2 ^ k * 2 = 2 ^ (k + 1) := (Nat.pow_succ ..).symm
      have hle' : 2 ^ (k + 1) ≤ 2 ^ 30 := Nat.pow_le_pow_right (by decide) (by omega)
      have hsize' : ((shell.size : Int) * 2).toNat = 2 ^ (k + 1) := by omega
      rw [Lib.int_of_fits (by omega)]
      exact @ih _ { shell with size := ((shell.size : Int) * 2).toNat } hsize' (by omega) (by omega)

namespace LineHolds

variable {shell : Shell} {left right : Str} (h : LineHolds shell left right)

include h

theorem terminate : shellTerminate shell = shell := by
  rw [shellTerminate, if_neg (by have hroom := h.room; omega)]
  have hsame : Function.update shell.commandLine shell.endp NUL = shell.commandLine := by
    rw [← h.terminated, Function.update_eq_self]
  rw [hsame]

theorem text_eq : shell.text = left.reverse ++ right := by
  have hlen : shell.endp = (left.reverse ++ right).length := by simp [h.endp]
  rw [Shell.text, hlen]
  exact h.lies.slice_eq

/-- The line does not know what else there is. -/
theorem withRest (cutBuffer : Option Str) (escape : Bool) (history : Option CommandHistory) :
    LineHolds { shell with cutBuffer, escape, history } left right :=
  ⟨h.lies, h.clean, h.cursor, h.endp, h.room, h.terminated, h.power, h.writefd⟩

/-- The cursor may be anywhere in the text. -/
theorem split {cursor : Nat} {left' right' : Str} (htext : left'.reverse ++ right' = left.reverse ++ right)
    (hcursor : cursor = left'.length) : LineHolds { shell with cursor } left' right' where
  lies := htext ▸ h.lies
  clean := htext ▸ h.clean
  cursor := hcursor
  endp := by
    have hlen := congrArg List.length htext
    simp only [List.length_append, List.length_reverse] at hlen
    rw [hlen]
    exact h.endp
  room := h.room
  terminated := h.terminated
  power := h.power
  writefd := h.writefd

/-! ### Inserting -/

theorem insert {s : Str}
    (hfits : left.length + right.length + (Lib.cString NUL s).length + 1 ≤ 2 ^ 30) :
    ∃ shell', shellInsert shell s = .ok shell' ∧ shell'.rest = shell.rest
      ∧ LineHolds shell' ((Lib.cString NUL s).reverse ++ left) right := by
  obtain ⟨k, hk, hsize⟩ := h.power
  have hend := h.endp
  have hcursor := h.cursor
  obtain ⟨k', hk30, -, hfit, hexpand⟩ := @shellExpandFor_fits
    (shell.endp + (Lib.cString NUL s).length + 1) 32 _ _ hsize hk (by omega) (by omega)
  generalize hs : Lib.cString NUL s = cs at *
  have hnul : NUL ∉ cs := hs ▸ Lib.not_mem_cString
  have hmove : shell.endp - left.length = right.length := by omega
  have hspan : (shell.cursor ≤ shell.endp ∧ shell.endp ≤ 2 ^ k')
      ∧ shell.cursor + cs.length ≤ shell.endp + cs.length ∧ shell.endp + cs.length ≤ 2 ^ k' := by omega
  simp only [shellInsert, hs, hexpand, Lib.ok_bind, Shell.span, if_pos hspan.1, if_pos hspan.2,
    Lib.pure_eq_ok]
  have hroom : ¬ 2 ^ k' ≤ shell.endp + cs.length := by omega
  simp only [shellTerminate, if_neg hroom, if_pos h.writefd]
  obtain ⟨hleft, hright⟩ := Lib.lies_append.mp h.lies
  rw [Nat.zero_add, List.length_reverse] at hright
  refine ⟨_, rfl, rfl, ?_⟩
  constructor
  · -- what is behind the cursor has been moved before the new text is written
    rw [List.reverse_append, List.reverse_reverse, List.append_assoc, Lib.lies_append,
      Lib.lies_append]
    simp only [List.length_reverse, Nat.zero_add, hcursor, hmove]
    refine ⟨?_, ?_, ?_⟩
    · refine hleft.congr fun j _ hj => ?_
      rw [List.length_reverse] at hj
      rw [Function.update_of_ne (by omega), Lib.memcpy_of_not (by omega), Lib.memmove_of_not (by omega)]
    · exact Lib.lies_memcpy.update (.inr (by omega))
    · refine Lib.Lies.update ?_ (.inr (by omega))
      refine (Lib.lies_memmove hright).congr fun j hj _ => ?_
      rw [Lib.memcpy_of_not (by omega)]
  · have hclean := h.clean
    simp only [List.mem_append, List.mem_reverse, not_or] at hclean ⊢
    exact ⟨⟨hnul, hclean.1⟩, hclean.2⟩
  · simp only [List.length_append, List.length_reverse]
    omega
  · simp only [List.length_append, List.length_reverse]
    omega
  · dsimp only
    omega
  · exact Function.update_self ..
  · exact ⟨k', hk30, rfl⟩
  · exact h.writefd

/-- From 2³⁰ bytes on the size of the buffer is no `int`. -/
theorem insert_overflows {s : Str}
    (hbig : ¬ left.length + right.length + (Lib.cString NUL s).length + 1 ≤ 2 ^ 30) :
    shellInsert shell s = .error .overflow := by
  obtain ⟨k, hk, hsize⟩ := h.power
  have hend := h.endp
  have hrun := @shellExpandFor_overflows
    (shell.endp + (Lib.cString NUL s).length + 1) 32 _ _ hsize hk (by omega) (by omega)
  simp only [shellInsert, hrun, Lib.error_bind]

/-! ### Deleting -/

theorem deleteString {a b c : Str} (htext : left.reverse ++ right = a ++ b ++ c) {start endp : Nat}
    (hstart : start = a.length) (hendp : endp = a.length + b.length) :
    ∃ shell', shellDeleteString shell start endp = .ok shell' ∧ shell'.rest = shell.rest
      ∧ LineHolds shell' a.reverse c := by
  have hlen := congrArg List.length htext
  simp only [List.length_append, List.length_reverse] at hlen
  have hend := h.endp
  have hroom := h.room
  have hassert : start ≤ endp ∧ endp ≤ shell.endp := by omega
  have hspan : endp ≤ shell.endp ∧ shell.endp ≤ shell.size := by omega
  have hmove : shell.endp - endp = c.length := by omega
  have hnew : shell.endp - (endp - start) = a.length + c.length := by omega
  have hroom' : ¬ shell.size ≤ shell.endp := by omega
  have hroom'' : ¬ shell.size ≤ a.length + c.length := by omega
  simp only [shellDeleteString, Lib.assert_of hassert.1, Lib.assert_of hassert, Lib.ok_bind,
    Shell.span, if_pos hspan, shellTerminate, if_neg hroom', hmove, hnew, if_neg hroom'',
    Lib.pure_eq_ok]
  have hlies := h.lies
  rw [htext, Lib.lies_append, Lib.lies_append] at hlies
  obtain ⟨⟨ha, -⟩, hc⟩ := hlies
  rw [Nat.zero_add, List.length_append, ← hendp] at hc
  refine ⟨_, rfl, rfl, ?_⟩
  constructor
  · rw [List.reverse_reverse]
    refine Lib.Lies.update ?_ (.inr (by simp))
    refine Lib.Lies.update ?_ (.inr (by simp only [List.length_append]; omega))
    rw [Lib.lies_append, Nat.zero_add]
    constructor
    · refine ha.congr fun j _ hj => ?_
      rw [if_neg (by omega), Lib.memmove_of_not (by omega)]
    · rw [← hstart]
      refine (Lib.lies_memmove hc).congr fun j _ hj => ?_
      rw [if_neg (by omega)]
  · have hclean := h.clean
    rw [htext] at hclean
    simp only [List.mem_append, List.mem_reverse, not_or] at hclean ⊢
    exact ⟨hclean.1.1, hclean.2⟩
  · simpa using hstart
  · simp
  · dsimp only
    omega
  · exact Function.update_self ..
  · exact h.power
  · exact h.writefd

theorem cut {a b c : Str} (htext : left.reverse ++ right = a ++ b ++ c) {start endp : Nat}
    (hstart : start = a.length) (hendp : endp = a.length + b.length)
    (hcursor : b = [] → shell.cursor = start) :
    ∃ shell', shellCut shell start endp = .ok shell'
      ∧ shell'.rest = (if b = [] then none else some b, shell.escape, shell.history)
      ∧ LineHolds shell' a.reverse c := by
  have hlen := congrArg List.length htext
  simp only [List.length_append, List.length_reverse] at hlen
  have hend := h.endp
  have hroom := h.room
  have hassert : start ≤ endp ∧ endp ≤ shell.endp := by omega
  simp only [shellCut, Lib.assert_of hassert.1, Lib.assert_of hassert, Lib.ok_bind]
  by_cases hb : b = []
  · subst hb
    rw [List.append_nil] at htext
    rw [if_pos (by simp only [List.length_nil] at hendp; omega), if_pos rfl]
    refine ⟨_, rfl, rfl, ?_⟩
    have htext' : a.reverse.reverse ++ c = left.reverse ++ right := by
      rw [List.reverse_reverse]
      exact htext.symm
    have hsplit := h.split htext' (hstart.trans List.length_reverse.symm)
    rw [← hcursor rfl] at hsplit
    exact hsplit.withRest none shell.escape shell.history
  · have hpos : 0 < b.length := List.length_pos_iff.mpr hb
    rw [if_neg (by omega), if_neg hb, span_of_le (by omega), Lib.ok_bind]
    have hslice : Lib.slice shell.commandLine start (endp - start) = b := by
      have hlies := h.lies
      rw [htext, Lib.lies_append, Lib.lies_append, Nat.zero_add] at hlies
      have heq := hlies.1.2.slice_eq
      rw [← hstart] at heq
      rw [show endp - start = b.length by omega, heq]
    have hcut := h.withRest (some b) shell.escape shell.history
    obtain ⟨shell', hrun, hrest, hline⟩ := hcut.deleteString htext hstart hendp
    rw [hslice]
    exact ⟨shell', hrun, hrest, hline⟩

/-! ### Moving -/

theorem forward {n : Nat} (hn : n ≤ right.length) :
    LineHolds (shellForward shell n) ((right.take n).reverse ++ left) (right.drop n)
      ∧ (shellForward shell n).rest = shell.rest := by
  have hend := h.endp
  have hcursor := h.cursor
  rw [shellForward, if_neg (by omega)]
  refine ⟨h.split ?_ ?_, rfl⟩
  · rw [List.reverse_append, List.reverse_reverse, List.append_assoc, List.take_append_drop]
  · rw [List.length_append, List.length_reverse, List.length_take]
    omega

theorem forward_end {n : Nat} (hn : right.length < n) : shellForward shell n = shell := by
  have hend := h.endp
  have hcursor := h.cursor
  rw [shellForward, if_pos (by omega)]

theorem backward {n : Nat} (hn : n ≤ left.length) :
    LineHolds (shellBackward shell n) (left.drop n) ((left.take n).reverse ++ right)
      ∧ (shellBackward shell n).rest = shell.rest := by
  have hcursor := h.cursor
  rw [shellBackward, if_neg (by omega)]
  refine ⟨h.split ?_ ?_, rfl⟩
  · rw [← List.append_assoc, ← List.reverse_append, List.take_append_drop]
  · rw [List.length_drop]
    omega

theorem backward_begin {n : Nat} (hn : left.length < n) : shellBackward shell n = shell := by
  have hcursor := h.cursor
  rw [shellBackward, if_pos (by omega)]

theorem moveto_forth {n : Nat} (hn : n ≤ right.length) :
    ∃ shell', shellMoveto shell (left.length + n) = .ok shell' ∧ shell'.rest = shell.rest
      ∧ LineHolds shell' ((right.take n).reverse ++ left) (right.drop n) := by
  have hend := h.endp
  have hcursor := h.cursor
  rw [shellMoveto, Lib.assert_of (by omega), Lib.ok_bind]
  cases n with
  | zero =>
    rw [if_neg (by omega), if_neg (by omega)]
    exact ⟨shell, rfl, rfl, h⟩
  | succ n =>
    rw [if_pos (by omega), show left.length + (n + 1) - shell.cursor = n + 1 by omega]
    obtain ⟨hline, hrest⟩ := h.forward hn
    exact ⟨_, rfl, hrest, hline⟩

theorem moveto_back {n : Nat} (hn : n ≤ left.length) :
    ∃ shell', shellMoveto shell (left.length - n) = .ok shell' ∧ shell'.rest = shell.rest
      ∧ LineHolds shell' (left.drop n) ((left.take n).reverse ++ right) := by
  have hend := h.endp
  have hcursor := h.cursor
  rw [shellMoveto, Lib.assert_of (by omega), Lib.ok_bind]
  cases n with
  | zero =>
    rw [if_neg (by omega), if_neg (by omega)]
    exact ⟨shell, rfl, rfl, h⟩
  | succ n =>
    rw [if_neg (by omega), if_pos (by omega), show shell.cursor - (left.length - (n + 1)) = n + 1 by omega]
    obtain ⟨hline, hrest⟩ := h.backward hn
    exact ⟨_, rfl, hrest, hline⟩

end LineHolds

end SdPlane
