import SdPlane.ShellEditor
import SdPlane.Lib.Screen

/-!
# What is seen of a line (`shell.c`)

Whoever types at a shell sees of the line what the editor writes to the terminal. A key does not
write the line again: what has changed is written over what was there, blanks are put where the line
has become shorter, and as many backspaces bring the cursor back. So what is to be seen depends on
all that has been written before.

Here is what the functions write, in an interactive shell. `screen_shows_line` is the result: after
any sequence of keys the row shows the prompt, the line, and nothing behind it, with the cursor where
the next character goes, as long as the line has room in the row and consists of printable
characters, which are the ones that the keymap lets in. The screen is not cleared here, and
`SHELL_FLAG_DEBUG` is not set.
-/

set_option autoImplicit false

namespace SdPlane

open Lib (Row)
open Lib.Row (Printable BS CR LF)

/-! ## What is written -/

/-- `writec (shell->writefd, CONTROL ('H'))`, `n` times. -/
def backspaces (n : Nat) : Str := List.replicate n BS

section Writes

variable (shell : Shell)

/-- What `write (fd, &command_line[i], strlen (&command_line[i]))` takes. -/
def Shell.stringAt (i : Nat) : Except Lib.Crash Str :=
  Lib.strRead NUL shell.commandLine (shell.size - i) i

def shellInsertWrites (s : Str) : Except Lib.Crash Str := do
  let shell' ← shellInsert shell s
  if shell.writefd < 0 then return []
  let rest ← shell'.stringAt shell.cursor
  return rest ++ backspaces (shell'.endp - shell'.cursor)

/-- The line is written when its end is still where it was. -/
def shellDeleteStringWrites (start endp : Nat) : Except Lib.Crash Str := do
  Lib.assert (start ≤ endp)
  Lib.assert (start ≤ endp ∧ endp ≤ shell.endp)
  let movesize := shell.endp - endp
  shell.span endp shell.endp
  let line := Lib.memmove shell.commandLine start endp movesize
  let erased := fun i => if start + movesize ≤ i ∧ i < shell.endp then ' ' else line i
  let shell' := shellTerminate { shell with commandLine := erased }
  let rest ← shell'.stringAt start
  return backspaces (shell.cursor - start) ++ rest ++ backspaces (shell'.endp - start)

def shellCutWrites (start endp : Nat) : Except Lib.Crash Str := do
  Lib.assert (start ≤ endp)
  Lib.assert (start ≤ endp ∧ endp ≤ shell.endp)
  if endp - start = 0 then return []
  shellDeleteStringWrites shell start endp

def shellForwardWrites (num : Nat) : Str :=
  if shell.endp < shell.cursor + num then [] else Lib.slice shell.commandLine shell.cursor num

def shellBackwardWrites (num : Nat) : Str := if shell.cursor < num then [] else backspaces num

def shellMovetoWrites (index : Nat) : Except Lib.Crash Str := do
  Lib.assert (index ≤ shell.endp)
  return if shell.cursor < index then shellForwardWrites shell (index - shell.cursor)
    else if index < shell.cursor then shellBackwardWrites shell (shell.cursor - index)
    else []

def shellFormatWrites : Except Lib.Crash Str := do
  let shell' ← shellFormat shell
  let line ← shell'.stringAt 0
  -- the last part is erased
  return backspaces shell.cursor ++ line ++ List.replicate (shell.endp - shell'.endp) ' '
    ++ backspaces (shell.endp - shell'.cursor)

/-- `shell_prompt` and the line. -/
def shellRefreshWrites (prompt : Str) : Except Lib.Crash Str := do
  let shell := shellTerminate shell
  let line ← shell.stringAt 0
  return CR :: prompt ++ line ++ backspaces (shell.endp - shell.cursor)

def shellDeleteWordBackwardWrites : Except Lib.Crash Str := do
  let (shell, start) ← backwardStart shell
  shellCutWrites shell start shell.cursor

def shellMoveWordBackwardWrites : Except Lib.Crash Str := do
  let (shell, start) ← backwardStart shell
  shellMovetoWrites shell start

def shellMoveWordForwardWrites : Except Lib.Crash Str := do
  let (shell, start) ← shellWordNextHead shell shell.cursor
  shellMovetoWrites shell start

def shellHistoryWrites (found : Option CommandHistory × Option Str) : Except Lib.Crash Str :=
  match found.2 with
  | some s => do
    let deleted ← shellDeleteStringWrites shell 0 shell.endp
    let shell ← shellDeleteString shell 0 shell.endp
    let inserted ← shellInsertWrites shell s
    return deleted ++ inserted
  | none => .ok []

def shellKeyfuncBackspaceWrites : Except Lib.Crash Str :=
  if shell.cursor = 0 then .ok []
  else if shell.escape then shellDeleteWordBackwardWrites shell
  else do
    let back := shellBackwardWrites shell 1
    let shell := shellBackward shell 1
    let deleted ← shellDeleteStringWrites shell shell.cursor (shell.cursor + 1)
    return back ++ deleted

def shellKeyfuncKillAllWrites : Except Lib.Crash Str := do
  let back := shellBackwardWrites shell shell.cursor
  let shell := shellBackward shell shell.cursor
  let deleted ← shellCutWrites shell 0 shell.endp
  return back ++ deleted

/-- The line feed stays in the buffer of `shell->terminal` until `shell_prompt` flushes it. -/
def shellKeyfuncRefreshWrites (prompt nl : Str) : Except Lib.Crash Str := do
  let formatted ← shellFormatWrites shell
  let shell ← shellFormat shell
  let line ← shellRefreshWrites shell prompt
  return formatted ++ nl ++ line

end Writes

/-- What a key writes. -/
def EditOp.writes (prompt nl : Str) (shell : Shell) : EditOp → Except Lib.Crash Str
  | .insert s => shellInsertWrites shell s
  | .inputChar inputch => shellInsertWrites shell [inputch, NUL]
  | .deleteChar =>
    if shell.cursor < shell.endp then shellDeleteStringWrites shell shell.cursor (shell.cursor + 1)
    else .ok []
  | .deleteCharAdvanced =>
    if shell.cursor < shell.endp then shellDeleteStringWrites shell shell.cursor (shell.cursor + 1)
    else if 0 < shell.endp then shellDeleteStringWrites shell (shell.endp - 1) shell.endp
    else .ok []
  | .backspace => shellKeyfuncBackspaceWrites shell
  | .deleteWordBackward => shellDeleteWordBackwardWrites shell
  | .forwardChar => .ok (shellForwardWrites shell 1)
  | .backwardChar => .ok (shellBackwardWrites shell 1)
  | .moveWordForward => shellMoveWordForwardWrites shell
  | .moveWordBackward => shellMoveWordBackwardWrites shell
  | .moveToBegin => .ok (shellBackwardWrites shell shell.cursor)
  | .moveToEnd => .ok (shellForwardWrites shell (shell.endp - shell.cursor))
  | .killLine => shellCutWrites shell shell.cursor shell.endp
  | .killAll => shellKeyfuncKillAllWrites shell
  | .yank =>
    match shell.cutBuffer with
    | some s => shellInsertWrites shell s
    | none => .ok []
  | .historyPrev => shellHistoryWrites shell (commandHistoryPrev shell.history)
  | .historyNext => shellHistoryWrites shell (commandHistoryNext shell.history)
  | .refresh => shellKeyfuncRefreshWrites shell prompt nl
  | .escape => .ok []

/-! ## Someone at a terminal -/

/-- The prompt leaves room in the row, and a line feed is one. -/
structure Terminal where
  width : Nat
  prompt : Str
  nl : Str
  printable : ∀ c ∈ prompt, Printable c
  newline : nl = [LF] ∨ nl = [CR, LF]
  room : prompt.length < width
  narrow : width ≤ 2 ^ 30

structure Session where
  shell : Shell
  row : Row

/-- The prompt is there and nothing has been typed; the history may be any. -/
def Session.start (t : Terminal) (mem : Nat → Char) (writefd : Int)
    (history : Option CommandHistory) : Session where
  shell := { shellCreate mem writefd with history }
  row := Row.blank.run t.width (CR :: t.prompt)

/-- A key. -/
def Session.key (t : Terminal) (s : Session) (op : EditOp) : Except Lib.Crash Session := do
  let written ← op.writes t.prompt t.nl s.shell
  let (shell, _) ← op.run s.shell
  return { shell, row := s.row.run t.width written }

namespace Terminal

variable (t : Terminal)

/-- `text` comes into a line of `n` characters. -/
def Takes (n : Nat) (text : Str) : Prop :=
  (∀ c ∈ text, Printable c) ∧ t.prompt.length + n + text.length < t.width

/-- What comes into the line is printable, and has room in the row. -/
def Allows (shell : Shell) : EditOp → Prop
  | .insert s => t.Takes shell.endp (Lib.cString NUL s)
  | .inputChar inputch => t.Takes shell.endp (Lib.cString NUL [inputch, NUL])
  | .yank => ∀ s, shell.cutBuffer = some s → t.prompt.length + shell.endp + s.length < t.width
  | .historyPrev =>
    ∀ s, (commandHistoryPrev shell.history).2 = some s → t.Takes 0 (Lib.cString NUL s)
  | .historyNext =>
    ∀ s, (commandHistoryNext shell.history).2 = some s → t.Takes 0 (Lib.cString NUL s)
  | _ => True

end Terminal

/-- A session that keys have led to. -/
inductive Typed (t : Terminal) : Session → Prop
  | start (mem : Nat → Char) {writefd : Int} (hwritefd : 0 ≤ writefd)
      (history : Option CommandHistory) : Typed t (Session.start t mem writefd history)
  | key {s s' : Session} {op : EditOp} (htyped : Typed t s) (hallows : t.Allows s.shell op)
      (hkey : s.key t op = .ok s') : Typed t s'

/-! ## The invariant -/

/-- The row shows the line, left and right of the cursor. -/
structure Mirrors (t : Terminal) (s : Session) (left right : Str) : Prop where
  line : LineHolds s.shell left right
  printable : ∀ c ∈ left.reverse ++ right, Printable c
  cut : ∀ x, s.shell.cutBuffer = some x → ∀ c ∈ x, Printable c
  row : s.row.Shows (t.prompt ++ left.reverse ++ right) (t.prompt.length + left.length)
  fits : t.prompt.length + left.length + right.length < t.width

/-- A function that goes right, with what it writes. -/
def Goes (t : Terminal) (row : Row) (f : Except Lib.Crash Shell) (w : Except Lib.Crash Str)
    (left right : Str) : Prop :=
  ∃ shell' written, f = .ok shell' ∧ w = .ok written
    ∧ Mirrors t { shell := shell', row := row.run t.width written } left right

theorem printable_ne_nul {c : Char} (h : Printable c) : c ≠ NUL := h.ne (by decide)

theorem LineHolds.stringAt {shell : Shell} {left right a b : Str} (h : LineHolds shell left right)
    (htext : left.reverse ++ right = a ++ b) : shell.stringAt a.length = .ok b := by
  have hlen := congrArg List.length htext
  simp only [List.length_append, List.length_reverse] at hlen
  have hend := h.endp
  have hroom := h.room
  have hlies := h.lies
  rw [htext, Lib.lies_append, Nat.zero_add] at hlies
  have hclean := h.clean
  rw [htext, List.mem_append, not_or] at hclean
  refine Lib.strRead_eq hlies.2 hclean.2 ?_ (by omega)
  rw [← hlen, ← hend]
  exact h.terminated

theorem shellDeleteStringWrites_cutBuffer (shell : Shell) (cutBuffer : Option Str) (start endp : Nat) :
    shellDeleteStringWrites { shell with cutBuffer } start endp
      = shellDeleteStringWrites shell start endp := by
  have hsame : ∀ line : Nat → Char,
      (shellTerminate { shell with cutBuffer, commandLine := line }).stringAt start
          = (shellTerminate { shell with commandLine := line }).stringAt start
        ∧ (shellTerminate { shell with cutBuffer, commandLine := line }).endp
          = (shellTerminate { shell with commandLine := line }).endp := by
    intro line
    unfold shellTerminate
    split
    · exact ⟨rfl, rfl⟩
    · exact ⟨rfl, rfl⟩
  simp only [shellDeleteStringWrites, (hsame _).1, (hsame _).2]
  rfl

namespace Mirrors

variable {t : Terminal} {s : Session} {left right : Str} (h : Mirrors t s left right)

include h

theorem printable_left : ∀ c ∈ left, Printable c :=
  fun c hc => h.printable c (List.mem_append_left _ (List.mem_reverse.mpr hc))

theorem printable_right : ∀ c ∈ right, Printable c :=
  fun c hc => h.printable c (List.mem_append_right _ hc)

/-- The row, divided at the cursor. -/
theorem row_at : s.row.Shows ((t.prompt ++ left.reverse) ++ right) (t.prompt ++ left.reverse).length := by
  have hrow := h.row
  rwa [List.length_append, List.length_reverse]

theorem shown : s.row.Shows (t.prompt ++ s.shell.text) (t.prompt.length + s.shell.cursor) := by
  rw [h.line.text_eq, h.line.cursor, ← List.append_assoc]
  exact h.row

/-! ### Moving -/

theorem backward {n : Nat} (hn : n ≤ left.length) :
    Mirrors t { shell := shellBackward s.shell n, row := s.row.run t.width (shellBackwardWrites s.shell n) }
      (left.drop n) ((left.take n).reverse ++ right) := by
  obtain ⟨hline, hrest⟩ := h.line.backward hn
  simp only [Shell.rest, Prod.mk.injEq] at hrest
  have htext : (left.drop n).reverse ++ ((left.take n).reverse ++ right) = left.reverse ++ right := by
    rw [← List.append_assoc, ← List.reverse_append, List.take_append_drop]
  have hback := h.row.back t.width n
  have hcursor := h.line.cursor
  refine ⟨hline, fun c hc => h.printable c (htext ▸ hc), fun x hx => h.cut x (hrest.1 ▸ hx), ?_, ?_⟩
  · rw [List.append_assoc, htext, ← List.append_assoc, shellBackwardWrites, if_neg (by omega),
      List.length_drop, ← Nat.add_sub_assoc hn]
    exact hback
  · have hfits := h.fits
    simp only [List.length_drop, List.length_append, List.length_reverse, List.length_take]
    omega

theorem forward {n : Nat} (hn : n ≤ right.length) :
    Mirrors t { shell := shellForward s.shell n, row := s.row.run t.width (shellForwardWrites s.shell n) }
      ((right.take n).reverse ++ left) (right.drop n) := by
  obtain ⟨hline, hrest⟩ := h.line.forward hn
  simp only [Shell.rest, Prod.mk.injEq] at hrest
  have htext : ((right.take n).reverse ++ left).reverse ++ right.drop n = left.reverse ++ right := by
    rw [List.reverse_append, List.reverse_reverse, List.append_assoc, List.take_append_drop]
  have hlen : (right.take n).length = n := by simpa using hn
  have hcursor := h.line.cursor
  have hend := h.line.endp
  have hfits := h.fits
  have hslice : Lib.slice s.shell.commandLine s.shell.cursor n = right.take n := by
    obtain ⟨-, hright⟩ := Lib.lies_append.mp h.line.lies
    rw [Nat.zero_add, List.length_reverse, ← List.take_append_drop n right, Lib.lies_append] at hright
    have hsame := hright.1.slice_eq
    rwa [hlen, ← hcursor] at hsame
  -- the same characters are written once more
  have hroom : (t.prompt ++ left.reverse).length + (right.take n).length < t.width := by
    simp only [List.length_append, List.length_reverse, hlen]
    omega
  have hwrite := h.row_at.write (fun c hc => h.printable_right c (List.mem_of_mem_take hc)) hroom
  refine ⟨hline, fun c hc => h.printable c (htext ▸ hc), fun x hx => h.cut x (hrest.1 ▸ hx), ?_, ?_⟩
  · rw [shellForwardWrites, if_neg (by omega), hslice]
    simpa [hlen, Nat.add_comm, Nat.add_left_comm, Nat.add_assoc] using hwrite
  · simp only [List.length_drop, List.length_append, List.length_reverse, hlen]
    omega

theorem moveto_forth {n : Nat} (hn : n ≤ right.length) :
    Goes t s.row (shellMoveto s.shell (left.length + n)) (shellMovetoWrites s.shell (left.length + n))
      ((right.take n).reverse ++ left) (right.drop n) := by
  have hend := h.line.endp
  have hcursor := h.line.cursor
  simp only [shellMoveto, shellMovetoWrites, Lib.assert_of (by omega : left.length + n ≤ s.shell.endp),
    Lib.ok_bind, Lib.pure_eq_ok, hcursor]
  cases n with
  | zero =>
    simp only [Nat.add_zero, lt_irrefl, if_false]
    exact ⟨s.shell, [], rfl, rfl, by simpa [Row.run] using h⟩
  | succ n =>
    rw [if_pos (by omega), if_pos (by omega), Nat.add_sub_cancel_left]
    exact ⟨_, _, rfl, rfl, h.forward hn⟩

theorem moveto_back {n : Nat} (hn : n ≤ left.length) :
    Goes t s.row (shellMoveto s.shell (left.length - n)) (shellMovetoWrites s.shell (left.length - n))
      (left.drop n) ((left.take n).reverse ++ right) := by
  have hend := h.line.endp
  have hcursor := h.line.cursor
  simp only [shellMoveto, shellMovetoWrites, Lib.assert_of (by omega : left.length - n ≤ s.shell.endp),
    Lib.ok_bind, Lib.pure_eq_ok, hcursor]
  cases n with
  | zero =>
    simp only [Nat.sub_zero, lt_irrefl, if_false]
    exact ⟨s.shell, [], rfl, rfl, by simpa [Row.run] using h⟩
  | succ n =>
    have hdist : left.length - (left.length - (n + 1)) = n + 1 := by omega
    have hback : ¬ left.length < left.length - (n + 1) ∧ left.length - (n + 1) < left.length := by omega
    simp only [if_neg hback.1, if_pos hback.2, hdist]
    exact ⟨_, _, rfl, rfl, h.backward hn⟩

/-! ### Inserting and deleting -/

theorem insert {x : Str} (htakes : t.Takes s.shell.endp (Lib.cString NUL x)) :
    Goes t s.row (shellInsert s.shell x) (shellInsertWrites s.shell x)
      ((Lib.cString NUL x).reverse ++ left) right := by
  obtain ⟨hprintable, hroom⟩ := htakes
  have hend := h.line.endp
  have hcursor := h.line.cursor
  have hnarrow := t.narrow
  obtain ⟨shell', hrun, hrest, hline⟩ := h.line.insert (s := x) (by omega)
  simp only [Shell.rest, Prod.mk.injEq] at hrest
  generalize Lib.cString NUL x = cs at *
  -- from the cursor on the line is written, and as far back as there are characters behind
  have htext : (cs.reverse ++ left).reverse ++ right = left.reverse ++ (cs ++ right) := by simp
  have hstring : shell'.stringAt s.shell.cursor = .ok (cs ++ right) := by
    rw [hcursor, ← List.length_reverse]
    exact hline.stringAt htext
  have hback : shell'.endp - shell'.cursor = right.length := by
    rw [hline.endp, hline.cursor, Nat.add_sub_cancel_left]
  have hwrites : shellInsertWrites s.shell x = .ok (cs ++ right ++ backspaces right.length) := by
    have hwritefd : ¬ s.shell.writefd < 0 := not_lt.mpr h.line.writefd
    simp only [shellInsertWrites, hrun, Lib.ok_bind, if_neg hwritefd, hstring, hback, Lib.pure_eq_ok]
  refine ⟨shell', _, hrun, hwrites, hline, ?_, ?_, ?_, ?_⟩
  · intro c hc
    rw [htext] at hc
    simp only [List.mem_append, List.mem_reverse] at hc
    rcases hc with hc | hc | hc
    · exact h.printable_left c hc
    · exact hprintable c hc
    · exact h.printable_right c hc
  · exact fun y hy => h.cut y (hrest.1 ▸ hy)
  · have hall : ∀ c ∈ cs ++ right, Printable c := by
      intro c hc
      rcases List.mem_append.mp hc with hc | hc
      · exact hprintable c hc
      · exact h.printable_right c hc
    have hlen : (t.prompt ++ left.reverse).length = t.prompt.length + left.length := by simp
    have hdraw := @Row.Shows.redraw _ _ t.width 0 _ _ _ h.row_at le_rfl hall (by simp)
      (by simp only [hlen, List.length_append]; omega) right.length
    have hcolumn : (t.prompt ++ left.reverse).length + (cs ++ right).length + 0 - right.length
        = t.prompt.length + (cs.reverse ++ left).length := by
      simp only [hlen, List.length_append, List.length_reverse]
      omega
    rw [hcolumn] at hdraw
    simpa [backspaces] using hdraw
  · simp only [List.length_append, List.length_reverse]
    omega

theorem deleteString {a b c : Str} (htext : left.reverse ++ right = a ++ b ++ c) {start endp : Nat}
    (hstart : start = a.length) (hendp : endp = a.length + b.length) (hcursor : a.length ≤ left.length) :
    Goes t s.row (shellDeleteString s.shell start endp) (shellDeleteStringWrites s.shell start endp)
      a.reverse c := by
  obtain ⟨shell', hrun, hrest, hline⟩ := h.line.deleteString htext hstart hendp
  simp only [Shell.rest, Prod.mk.injEq] at hrest
  have hlen := congrArg List.length htext
  simp only [List.length_append, List.length_reverse] at hlen
  have hend := h.line.endp
  have hroom := h.line.room
  have hprintable := h.printable
  rw [htext] at hprintable
  have hfits := h.fits
  have hassert : start ≤ endp ∧ endp ≤ s.shell.endp := by omega
  have hspan : endp ≤ s.shell.endp ∧ s.shell.endp ≤ s.shell.size := by omega
  have hmove : s.shell.endp - endp = c.length := by omega
  have hroom' : ¬ s.shell.size ≤ s.shell.endp := by omega
  -- what is behind `c` is blank now, up to the end that the line had
  have hstring : ∀ line : Nat → Char, Lib.Lies line start (c ++ List.replicate b.length ' ') →
      (shellTerminate { s.shell with commandLine := line }).stringAt start
        = .ok (c ++ List.replicate b.length ' ') := by
    intro line hlies
    rw [shellTerminate, if_neg hroom']
    have hbehind : start + (c ++ List.replicate b.length ' ').length = s.shell.endp := by
      simp only [List.length_append, List.length_replicate]
      omega
    refine Lib.strRead_eq (hlies.update (.inr hbehind.le)) ?_ ?_ ?_
    · intro hmem
      rcases List.mem_append.mp hmem with hmem | hmem
      · exact printable_ne_nul (hprintable _ (List.mem_append_right _ hmem)) rfl
      · exact absurd (List.eq_of_mem_replicate hmem) (by decide)
    · rw [hbehind]
      exact Function.update_self ..
    · dsimp only
      omega
  have hlies : Lib.Lies (fun i => if start + c.length ≤ i ∧ i < s.shell.endp then ' '
      else Lib.memmove s.shell.commandLine start endp c.length i) start
      (c ++ List.replicate b.length ' ') := by
    have hbehind := h.line.lies
    rw [htext, Lib.lies_append, Nat.zero_add, List.length_append, ← hendp] at hbehind
    refine Lib.lies_append.mpr ⟨?_, Lib.lies_replicate fun j hij hj => if_pos (by omega)⟩
    refine (Lib.lies_memmove hbehind.2).congr fun j _ hj => ?_
    rw [if_neg (by omega)]
  have hend' : ∀ line : Nat → Char,
      (shellTerminate { s.shell with commandLine := line }).endp = s.shell.endp := by
    intro line
    rw [shellTerminate, if_neg hroom']
  have hwrites : shellDeleteStringWrites s.shell start endp
      = .ok (backspaces (left.length - a.length) ++ (c ++ List.replicate b.length ' ')
        ++ backspaces (b.length + c.length)) := by
    have hback : s.shell.endp - start = b.length + c.length := by omega
    simp only [shellDeleteStringWrites, Lib.assert_of hassert.1, Lib.assert_of hassert, Lib.ok_bind,
      Shell.span, if_pos hspan, hmove, hstring _ hlies, hend', hback, Lib.pure_eq_ok]
    rw [h.line.cursor, hstart]
  refine ⟨shell', _, hrun, hwrites, hline, ?_, fun y hy => h.cut y (hrest.1 ▸ hy), ?_, ?_⟩
  · intro d hd
    rw [List.reverse_reverse, List.mem_append] at hd
    refine hprintable d (hd.elim (fun hd => ?_) fun hd => List.mem_append_right _ hd)
    exact List.mem_append_left _ (List.mem_append_left _ hd)
  · have hrow := h.row
    rw [List.append_assoc, htext, List.append_assoc, ← List.append_assoc] at hrow
    have hlen' : (t.prompt ++ a).length = t.prompt.length + a.length := List.length_append
    have hdraw := @Row.Shows.redraw _ _ t.width b.length _ _ c hrow (by omega)
      (fun d hd => hprintable d (List.mem_append_right _ hd)) (by simp [Nat.add_comm])
      (by omega) (b.length + c.length)
    have hback : t.prompt.length + left.length - (t.prompt ++ a).length = left.length - a.length := by
      omega
    have hcolumn : (t.prompt ++ a).length + c.length + b.length - (b.length + c.length)
        = t.prompt.length + a.length := by omega
    rw [hback, hcolumn] at hdraw
    simpa only [backspaces, List.reverse_reverse, List.length_reverse] using hdraw
  · rw [List.length_reverse]
    omega

/-- What has been cut, the flag and the history are not seen. -/
theorem withRest {cutBuffer : Option Str} (hcut : ∀ x, cutBuffer = some x → ∀ c ∈ x, Printable c)
    (escape : Bool) (history : Option CommandHistory) :
    Mirrors t { s with shell := { s.shell with cutBuffer, escape, history } } left right :=
  ⟨h.line.withRest cutBuffer escape history, h.printable, hcut, h.row, h.fits⟩

theorem cut_line {a b c : Str} (htext : left.reverse ++ right = a ++ b ++ c) {start endp : Nat}
    (hstart : start = a.length) (hendp : endp = a.length + b.length) (hle : a.length ≤ left.length)
    (hcursor : b = [] → left.length = a.length) :
    Goes t s.row (shellCut s.shell start endp) (shellCutWrites s.shell start endp) a.reverse c := by
  have hlen := congrArg List.length htext
  simp only [List.length_append, List.length_reverse] at hlen
  have hend := h.line.endp
  have hroom := h.line.room
  have hassert : start ≤ endp ∧ endp ≤ s.shell.endp := by omega
  simp only [shellCut, shellCutWrites, Lib.assert_of hassert.1, Lib.assert_of hassert, Lib.ok_bind]
  by_cases hb : b = []
  · -- nothing is cut, at the cursor
    have hzero : endp - start = 0 := by simp [hstart, hendp, hb]
    rw [if_pos hzero, if_pos hzero]
    have hsame : left.reverse = a ∧ right = c := by
      rw [hb, List.append_nil] at htext
      exact List.append_inj htext (by simpa using hcursor hb)
    obtain ⟨rfl, rfl⟩ := hsame
    have hnone := @Mirrors.withRest t s _ _ h none (fun x hx => by cases hx) s.shell.escape s.shell.history
    rw [List.reverse_reverse]
    exact ⟨_, [], rfl, rfl, hnone⟩
  · have hpos : 0 < b.length := List.length_pos_iff.mpr hb
    rw [if_neg (by omega), if_neg (by omega), span_of_le (by omega), Lib.ok_bind]
    have hslice : Lib.slice s.shell.commandLine start (endp - start) = b := by
      have hlies := h.line.lies
      rw [htext, Lib.lies_append, Lib.lies_append, Nat.zero_add] at hlies
      have heq := hlies.1.2.slice_eq
      rw [← hstart] at heq
      rw [show endp - start = b.length by omega, heq]
    have hb' : ∀ x, some b = some x → ∀ d ∈ x, Printable d := by
      intro x hx d hd
      obtain rfl := Option.some.inj hx
      refine h.printable d ?_
      rw [htext]
      exact List.mem_append_left _ (List.mem_append_right _ hd)
    rw [hslice]
    have hgoes := (h.withRest hb' s.shell.escape s.shell.history).deleteString htext hstart hendp hle
    rw [shellDeleteStringWrites_cutBuffer] at hgoes
    exact hgoes

/-! ### Writing the line again -/

theorem format : Goes t s.row (shellFormat s.shell) (shellFormatWrites s.shell)
    (squeeze ' ' left.reverse).reverse (squeeze (left.headD ' ') right) := by
  have hroom := h.line.room
  have hend := h.line.endp
  obtain ⟨commandLine, hrun, hlies, hbehind⟩ := shellFormat2_eq s.shell hroom.le
  rw [h.line.text_eq] at hrun hlies hbehind
  have hlast : left.reverse.getLastD ' ' = left.headD ' ' := by
    rw [List.getLastD_eq_getLast?, List.getLast?_reverse, List.headD_eq_head?_getD]
  have hsplit := @squeeze_append ' ' left.reverse right
  rw [hlast] at hsplit
  have htake : (left.reverse ++ right).take s.shell.cursor = left.reverse := by
    rw [h.line.cursor, ← List.length_reverse, List.take_left]
  have hle : (squeeze ' ' (left.reverse ++ right)).length ≤ s.shell.endp := by
    rw [hend]
    simpa using @squeeze_length_le ' ' (left.reverse ++ right)
  rw [htake] at hrun
  have hline : LineHolds { s.shell with
      commandLine
      cursor := (squeeze ' ' left.reverse).length
      endp := (squeeze ' ' (left.reverse ++ right)).length }
      (squeeze ' ' left.reverse).reverse (squeeze (left.headD ' ') right) := by
    refine ⟨?_, ?_, ?_, ?_, ?_, ?_, h.line.power, h.line.writefd⟩
    · rw [List.reverse_reverse, ← hsplit]
      exact hlies
    · rw [List.reverse_reverse, ← hsplit]
      exact fun hmem => h.line.clean (mem_of_mem_squeeze hmem)
    · rw [List.length_reverse]
    · rw [List.length_reverse, ← List.length_append, ← hsplit]
    · exact lt_of_le_of_lt hle hroom
    · exact (hbehind _ le_rfl).trans (if_pos (lt_of_le_of_lt hle hroom))
  have hnew : ∀ c ∈ squeeze ' ' (left.reverse ++ right), Printable c :=
    fun c hc => h.printable c (mem_of_mem_squeeze hc)
  have hwrites : shellFormatWrites s.shell = .ok (backspaces s.shell.cursor
      ++ squeeze ' ' (left.reverse ++ right)
      ++ List.replicate (s.shell.endp - (squeeze ' ' (left.reverse ++ right)).length) ' '
      ++ backspaces (s.shell.endp - (squeeze ' ' left.reverse).length)) := by
    have hstring := hline.stringAt (List.nil_append _).symm
    rw [List.length_nil, List.reverse_reverse, ← hsplit] at hstring
    simp only [shellFormatWrites, shellFormat, hrun, Lib.ok_bind, hstring, Lib.pure_eq_ok]
  have hfits := h.fits
  have hshort : (squeeze ' ' left.reverse).length ≤ left.length := by
    simpa using @squeeze_length_le ' ' left.reverse
  have htotal := congrArg List.length hsplit
  rw [List.length_append] at htotal
  refine ⟨_, _, hrun, hwrites, hline, ?_, h.cut, ?_, ?_⟩
  · rw [List.reverse_reverse, ← hsplit]
    exact hnew
  · have hrow := h.row
    rw [List.append_assoc] at hrow
    have hdraw := @Row.Shows.redraw _ _ t.width
      (s.shell.endp - (squeeze ' ' (left.reverse ++ right)).length) _ _ _ hrow (by omega) hnew
      (by simp only [List.length_append, List.length_reverse]; omega) (by omega)
      (s.shell.endp - (squeeze ' ' left.reverse).length)
    have hback : t.prompt.length + left.length - t.prompt.length = s.shell.cursor := by
      rw [h.line.cursor]
      omega
    have hcolumn : t.prompt.length + (squeeze ' ' (left.reverse ++ right)).length
        + (s.shell.endp - (squeeze ' ' (left.reverse ++ right)).length)
        - (s.shell.endp - (squeeze ' ' left.reverse).length)
        = t.prompt.length + (squeeze ' ' left.reverse).length := by omega
    rw [hback, hcolumn, hsplit, ← hsplit] at hdraw
    rw [List.reverse_reverse, List.length_reverse, List.append_assoc t.prompt, ← hsplit]
    simpa only [backspaces, List.append_assoc] using hdraw
  · rw [List.length_reverse]
    omega

end Mirrors

/-- A prompt and a line, on an empty row. -/
theorem shows_prompt {t : Terminal} {row : Row} {column : Nat} (h : row.Shows [] column) {line : Str}
    (hline : ∀ c ∈ line, Printable c) (hroom : t.prompt.length + line.length < t.width) (n : Nat) :
    (row.run t.width (CR :: t.prompt ++ line ++ backspaces n)).Shows (t.prompt ++ line)
      (t.prompt.length + line.length - n) := by
  have hall : ∀ c ∈ t.prompt ++ line, Printable c := by
    intro c hc
    rcases List.mem_append.mp hc with hc | hc
    · exact t.printable c hc
    · exact hline c hc
  have hdraw := @Row.Shows.redraw _ _ t.width 0 [] [] (t.prompt ++ line) (h.cr t.width) le_rfl hall
    (by simp) (by simpa using hroom) n
  rw [List.cons_append, List.cons_append, ← List.singleton_append, Row.run_append]
  simpa [backspaces] using hdraw

namespace Mirrors

variable {t : Terminal} {s : Session} {left right : Str} (h : Mirrors t s left right)

include h

theorem refresh : ∃ left' right', Goes t s.row (shellKeyfuncRefresh s.shell)
    (shellKeyfuncRefreshWrites s.shell t.prompt t.nl) left' right' := by
  obtain ⟨shell', formatted, hrun, hformatted, hmirrors⟩ := h.format
  generalize (squeeze ' ' left.reverse).reverse = left', squeeze (left.headD ' ') right = right'
    at hmirrors
  refine ⟨left', right', ?_⟩
  have hline := hmirrors.line
  have hfits := hmirrors.fits
  dsimp only at hline
  have hstring := hline.stringAt (List.nil_append _).symm
  rw [List.length_nil] at hstring
  have hback : shell'.endp - shell'.cursor = right'.length := by
    rw [hline.endp, hline.cursor, Nat.add_sub_cancel_left]
  -- a line feed, with or without a carriage return, leads to an empty row
  obtain ⟨column, hempty⟩ : ∃ column,
      ((s.row.run t.width formatted).run t.width t.nl).Shows [] column := by
    rcases t.newline with hnl | hnl
    · rw [hnl]
      exact ⟨_, hmirrors.row.lf t.width⟩
    · rw [hnl, ← List.singleton_append, Row.run_append]
      exact ⟨_, (hmirrors.row.cr t.width).lf t.width⟩
  have hroom : t.prompt.length + (left'.reverse ++ right').length < t.width := by
    simp only [List.length_append, List.length_reverse]
    omega
  have hshows := shows_prompt hempty hmirrors.printable hroom right'.length
  refine ⟨shell', formatted ++ t.nl ++ (CR :: t.prompt ++ (left'.reverse ++ right')
    ++ backspaces right'.length), ?_, ?_, hline, hmirrors.printable, hmirrors.cut, ?_, hfits⟩
  · simp only [shellKeyfuncRefresh, hrun, Lib.ok_bind, hline.terminate, Lib.pure_eq_ok]
  · simp only [shellKeyfuncRefreshWrites, hformatted, hrun, Lib.ok_bind, shellRefreshWrites,
      hline.terminate, hstring, hback, Lib.pure_eq_ok]
  · rw [Row.run_append t.width s.row (formatted ++ t.nl), Row.run_append t.width s.row formatted,
      List.append_assoc t.prompt]
    have hcolumn : t.prompt.length + (left'.reverse ++ right').length - right'.length
        = t.prompt.length + left'.length := by
      simp only [List.length_append, List.length_reverse]
      omega
    rw [hcolumn] at hshows
    exact hshows

/-! ### The keys -/

theorem stays : Goes t s.row (.ok s.shell) (.ok []) left right := ⟨s.shell, [], rfl, rfl, h⟩

theorem deleteChar (hmore : right ≠ []) :
    Goes t s.row (shellDeleteString s.shell s.shell.cursor (s.shell.cursor + 1))
      (shellDeleteStringWrites s.shell s.shell.cursor (s.shell.cursor + 1)) left right.tail := by
  have hsplit : left.reverse ++ right = left.reverse ++ [right.head hmore] ++ right.tail := by simp
  have hstart : s.shell.cursor = left.reverse.length := by simp [h.line.cursor]
  have hendp : s.shell.cursor + 1 = left.reverse.length + [right.head hmore].length := by
    simp [h.line.cursor]
  have hgoes := h.deleteString hsplit hstart hendp (by simp)
  rwa [List.reverse_reverse] at hgoes

/-- The last character, with the cursor behind it. -/
theorem deleteLast (hlast : right = []) (hmore : left ≠ []) :
    Goes t s.row (shellDeleteString s.shell (s.shell.endp - 1) s.shell.endp)
      (shellDeleteStringWrites s.shell (s.shell.endp - 1) s.shell.endp) left.tail [] := by
  have hend := h.line.endp
  have hpos := List.length_pos_iff.mpr hmore
  have hsplit : left.reverse ++ right = left.tail.reverse ++ [left.head hmore] ++ [] := by
    rw [hlast, ← List.reverse_cons, List.cons_head_tail]
  have hendp : s.shell.endp = left.tail.reverse.length + [left.head hmore].length := by
    simp [hend, hlast]
    omega
  have hstart : s.shell.endp - 1 = left.tail.reverse.length := by simp [hend, hlast]
  have hgoes := h.deleteString hsplit hstart hendp (by simp)
  rwa [List.reverse_reverse] at hgoes

theorem deleteWordBackward : ∃ left', Goes t s.row (shellDeleteWordBackward s.shell)
    (shellDeleteWordBackwardWrites s.shell) left' right := by
  have hle := backWord_le left
  have hcursor := h.line.cursor
  have hsplit : left.reverse ++ right = (left.drop (backWord left)).reverse
      ++ (left.take (backWord left)).reverse ++ right := by
    rw [← List.reverse_append, List.take_append_drop]
  have hdrop : (left.drop (backWord left)).reverse.length = left.length - backWord left := by simp
  have htake : (left.take (backWord left)).reverse.length = backWord left := by simpa using hle
  have hgoes := h.cut_line hsplit hdrop.symm (by omega : s.shell.cursor = _) (by omega) fun hnone => by
    rw [hnone, List.length_nil] at htake
    omega
  refine ⟨(left.drop (backWord left)).reverse.reverse, ?_⟩
  simp only [shellDeleteWordBackward, shellDeleteWordBackwardWrites, h.line.backwardStart, Lib.ok_bind]
  exact hgoes

theorem backspace (hmore : left ≠ []) : ∃ left' right', Goes t s.row (shellKeyfuncBackspace s.shell)
    (shellKeyfuncBackspaceWrites s.shell) left' right' := by
  have hpos := List.length_pos_iff.mpr hmore
  have hcursor := h.line.cursor
  have hne : ¬ s.shell.cursor = 0 := by omega
  simp only [shellKeyfuncBackspace, shellKeyfuncBackspaceWrites, if_neg hne]
  by_cases hescape : s.shell.escape = true
  · rw [if_pos hescape, if_pos hescape]
    obtain ⟨left', hgoes⟩ := h.deleteWordBackward
    exact ⟨left', right, hgoes⟩
  · rw [if_neg hescape, if_neg hescape]
    have hback := @Mirrors.backward t s left right h 1 hpos
    obtain ⟨shell', written, hrun, hwrites, hmirrors⟩ := hback.deleteChar (by simp [hmore])
    dsimp only at hrun hwrites hmirrors
    refine ⟨left.drop 1, ((left.take 1).reverse ++ right).tail, shell',
      shellBackwardWrites s.shell 1 ++ written, hrun, ?_, ?_⟩
    · simp only [hwrites, Lib.ok_bind, Lib.pure_eq_ok]
    · rw [Row.run_append]
      exact hmirrors

theorem killLine : Goes t s.row (shellKeyfuncKillLine s.shell)
    (shellCutWrites s.shell s.shell.cursor s.shell.endp) left [] := by
  have hcursor := h.line.cursor
  have hend := h.line.endp
  have hsplit : left.reverse ++ right = left.reverse ++ right ++ [] := by simp
  have hstart : s.shell.cursor = left.reverse.length := by simp [hcursor]
  have hendp : s.shell.endp = left.reverse.length + right.length := by simp [hend]
  have hgoes := h.cut_line hsplit hstart hendp (by simp) (by simp)
  rwa [List.reverse_reverse] at hgoes

theorem killAll : Goes t s.row (shellKeyfuncKillAll s.shell) (shellKeyfuncKillAllWrites s.shell) [] [] := by
  have hcursor := h.line.cursor
  have hback := @Mirrors.backward t s left right h s.shell.cursor hcursor.le
  have hall : left.drop s.shell.cursor = []
      ∧ (left.take s.shell.cursor).reverse ++ right = left.reverse ++ right := by simp [hcursor]
  rw [hall.1, hall.2] at hback
  have hsplit : ([] : Str).reverse ++ (left.reverse ++ right) = [] ++ (left.reverse ++ right) ++ [] := by
    simp
  have hendp : (shellBackward s.shell s.shell.cursor).endp
      = ([] : Str).length + (left.reverse ++ right).length := by
    exact hback.line.endp
  have hgoes := @Mirrors.cut_line _ _ _ _ hback [] _ [] hsplit 0 _ rfl hendp le_rfl fun _ => rfl
  obtain ⟨shell', written, hrun, hwrites, hmirrors⟩ := hgoes
  dsimp only at hrun hwrites hmirrors
  refine ⟨shell', shellBackwardWrites s.shell s.shell.cursor ++ written, hrun, ?_, ?_⟩
  · simp only [shellKeyfuncKillAllWrites, hwrites, Lib.ok_bind, Lib.pure_eq_ok]
  · rw [Row.run_append]
    exact hmirrors

theorem history {found : Option CommandHistory × Option Str}
    (htakes : ∀ x, found.2 = some x → t.Takes 0 (Lib.cString NUL x)) :
    ∃ left' right', Goes t s.row (shellHistory s.shell found) (shellHistoryWrites s.shell found)
      left' right' := by
  obtain ⟨history, line⟩ := found
  cases line with
  | none =>
    have hsame := h.withRest h.cut s.shell.escape history
    exact ⟨left, right, _, [], rfl, rfl, hsame⟩
  | some x =>
    have hsplit : left.reverse ++ right = [] ++ (left.reverse ++ right) ++ [] := by simp
    have hendp : s.shell.endp = ([] : Str).length + (left.reverse ++ right).length := by
      simp [h.line.endp]
    have hdelete := @Mirrors.deleteString _ _ _ _ h [] _ [] hsplit 0 _ rfl hendp (Nat.zero_le _)
    obtain ⟨shell₁, deleted, hrun₁, hdeleted, hempty⟩ := hdelete
    have hnone : shell₁.endp = 0 := hempty.line.endp
    obtain ⟨shell₂, inserted, hrun₂, hinserted, hfull⟩ :=
      hempty.insert (by dsimp only; rw [hnone]; exact htakes x rfl)
    dsimp only at hrun₂ hinserted hfull
    have hkept := hfull.withRest hfull.cut shell₂.escape history
    refine ⟨(Lib.cString NUL x).reverse ++ [], [], { shell₂ with history }, deleted ++ inserted,
      ?_, ?_, ?_⟩
    · simp only [shellHistory, hrun₁, hrun₂, Lib.ok_bind, Lib.pure_eq_ok]
    · simp only [shellHistoryWrites, hdeleted, hrun₁, hinserted, Lib.ok_bind, Lib.pure_eq_ok]
    · rw [Row.run_append]
      exact hkept

/-- Whatever key is pressed, the row goes on to show the line. -/
theorem keyfunc {op : EditOp} (hallows : t.Allows s.shell op) :
    ∃ left' right', Goes t s.row (op.keyfunc s.shell) (op.writes t.prompt t.nl s.shell) left' right' := by
  have hcursor := h.line.cursor
  have hend := h.line.endp
  cases op with
  | insert x => exact ⟨_, _, h.insert hallows⟩
  | inputChar inputch => exact ⟨_, _, h.insert hallows⟩
  | deleteChar =>
    simp only [EditOp.keyfunc, EditOp.writes, shellKeyfuncDeleteChar]
    by_cases hmore : right = []
    · have hlast : ¬ s.shell.cursor < s.shell.endp := by simp [hend, hcursor, hmore]
      rw [if_neg hlast, if_neg hlast]
      exact ⟨_, _, h.stays⟩
    · have hpos := List.length_pos_iff.mpr hmore
      rw [if_pos (by omega), if_pos (by omega)]
      exact ⟨_, _, h.deleteChar hmore⟩
  | deleteCharAdvanced =>
    simp only [EditOp.keyfunc, EditOp.writes, shellKeyfuncDeleteCharAdvanced]
    by_cases hmore : right = []
    · have hlast : ¬ s.shell.cursor < s.shell.endp := by simp [hend, hcursor, hmore]
      rw [if_neg hlast, if_neg hlast]
      by_cases hleft : left = []
      · have hnone : ¬ 0 < s.shell.endp := by simp [hend, hmore, hleft]
        rw [if_neg hnone, if_neg hnone]
        exact ⟨_, _, h.stays⟩
      · have hpos := List.length_pos_iff.mpr hleft
        rw [if_pos (by omega), if_pos (by omega)]
        exact ⟨_, _, h.deleteLast hmore hleft⟩
    · have hpos := List.length_pos_iff.mpr hmore
      rw [if_pos (by omega), if_pos (by omega)]
      exact ⟨_, _, h.deleteChar hmore⟩
  | backspace =>
    by_cases hleft : left = []
    · have hzero : s.shell.cursor = 0 := by simp [hcursor, hleft]
      simp only [EditOp.keyfunc, EditOp.writes, shellKeyfuncBackspace, shellKeyfuncBackspaceWrites,
        if_pos hzero]
      exact ⟨_, _, h.stays⟩
    · exact h.backspace hleft
  | deleteWordBackward =>
    obtain ⟨left', hgoes⟩ := h.deleteWordBackward
    exact ⟨left', right, hgoes⟩
  | forwardChar =>
    by_cases hmore : right = []
    · have hlast : s.shell.endp < s.shell.cursor + 1 := by simp [hend, hcursor, hmore]
      simp only [EditOp.keyfunc, EditOp.writes, shellKeyfuncForwardChar, shellForward,
        shellForwardWrites, if_pos hlast]
      exact ⟨_, _, h.stays⟩
    · exact ⟨_, _, _, _, rfl, rfl, h.forward (List.length_pos_iff.mpr hmore)⟩
  | backwardChar =>
    by_cases hleft : left = []
    · have hzero : s.shell.cursor < 1 := by simp [hcursor, hleft]
      simp only [EditOp.keyfunc, EditOp.writes, shellKeyfuncBackwardChar, shellBackward,
        shellBackwardWrites, if_pos hzero]
      exact ⟨_, _, h.stays⟩
    · exact ⟨_, _, _, _, rfl, rfl, h.backward (List.length_pos_iff.mpr hleft)⟩
  | moveWordForward =>
    simp only [EditOp.keyfunc, EditOp.writes, shellMoveWordForward, shellMoveWordForwardWrites,
      h.line.wordNextHead, Lib.ok_bind]
    split
    · exact ⟨_, _, h.moveto_forth (forthWord_le right)⟩
    · exact ⟨_, _, h.moveto_forth le_rfl⟩
  | moveWordBackward =>
    simp only [EditOp.keyfunc, EditOp.writes, shellMoveWordBackward, shellMoveWordBackwardWrites,
      h.line.backwardStart, Lib.ok_bind]
    exact ⟨_, _, h.moveto_back (backWord_le left)⟩
  | moveToBegin => exact ⟨_, _, _, _, rfl, rfl, h.backward hcursor.le⟩
  | moveToEnd =>
    have hrest : s.shell.endp - s.shell.cursor = right.length := by omega
    refine ⟨_, _, _, _, rfl, rfl, h.forward hrest.le⟩
  | killLine => exact ⟨_, _, h.killLine⟩
  | killAll => exact ⟨_, _, h.killAll⟩
  | yank =>
    simp only [EditOp.keyfunc, EditOp.writes, shellKeyfuncYank]
    cases hcut : s.shell.cutBuffer with
    | none => exact ⟨_, _, h.stays⟩
    | some x =>
      have hprintable := h.cut x hcut
      have hclean : Lib.cString NUL x = x :=
        List.takeWhile_eq_self_iff.mpr fun c hc => by simpa using printable_ne_nul (hprintable c hc)
      refine ⟨_, _, h.insert ?_⟩
      rw [hclean]
      exact ⟨hprintable, hallows x hcut⟩
  | historyPrev => exact h.history hallows
  | historyNext => exact h.history hallows
  | refresh => exact h.refresh
  | escape =>
    exact ⟨_, _, _, _, rfl, rfl, h.withRest h.cut true s.shell.history⟩

end Mirrors

/-! ## The result -/

theorem mirrors_start (t : Terminal) (mem : Nat → Char) {writefd : Int} (hwritefd : 0 ≤ writefd)
    (history : Option CommandHistory) : Mirrors t (Session.start t mem writefd history) [] [] := by
  have hnone : ∀ c ∈ ([] : Str), Printable c := fun c hc => absurd hc List.not_mem_nil
  have hroom : t.prompt.length + ([] : Str).length < t.width := t.room
  have hshows := shows_prompt Row.shows_blank hnone hroom 0
  refine ⟨(lineHolds_create mem hwritefd).withRest none false history, hnone,
    fun x hx => absurd hx (Option.some_ne_none x).symm, ?_, hroom⟩
  simpa [backspaces, Session.start] using hshows

/-- A key, which an escape before it is for. -/
theorem Mirrors.key {t : Terminal} {s : Session} {left right : Str} (h : Mirrors t s left right)
    {op : EditOp} (hallows : t.Allows s.shell op) :
    ∃ s' left' right', s.key t op = .ok s' ∧ Mirrors t s' left' right' := by
  obtain ⟨left', right', shell', written, hrun, hwrites, hmirrors⟩ := h.keyfunc hallows
  simp only [Session.key, EditOp.run, hrun, hwrites, Lib.ok_bind, Lib.pure_eq_ok]
  refine ⟨_, left', right', rfl, ?_⟩
  split
  · exact hmirrors.withRest hmirrors.cut false shell'.history
  · exact hmirrors

/-- **The screen shows the line.** After any sequence of keys the row has the prompt and the line in
    it and nothing behind, and its cursor is where the line's is; and the next key goes right. -/
theorem screen_shows_line {t : Terminal} {s : Session} (h : Typed t s) :
    s.row.Shows (t.prompt ++ s.shell.text) (t.prompt.length + s.shell.cursor)
      ∧ ∀ op, t.Allows s.shell op → ∃ s', s.key t op = .ok s' := by
  obtain ⟨left, right, hmirrors⟩ : ∃ left right, Mirrors t s left right := by
    induction h with
    | start mem hwritefd history => exact ⟨[], [], mirrors_start t mem hwritefd history⟩
    | key _ hallows hkey ih =>
      obtain ⟨left, right, hmirrors⟩ := ih
      obtain ⟨s', left', right', hrun, hmirrors'⟩ := hmirrors.key hallows
      obtain rfl := Except.ok.inj (hkey.symm.trans hrun)
      exact ⟨left', right', hmirrors'⟩
  refine ⟨hmirrors.shown, fun op hallows => ?_⟩
  obtain ⟨s', -, -, hrun, -⟩ := hmirrors.key hallows
  exact ⟨s', hrun⟩

/-- 80 columns. -/
def vt80 : Terminal where
  width := 80
  prompt := ['>', ' ']
  nl := [CR, LF]
  printable := by simp [Printable]
  newline := .inr rfl
  room := by norm_num
  narrow := by norm_num

/-- A character is typed. -/
theorem screen_shows_char : ∃ s : Session, s.row.Shows (vt80.prompt ++ s.shell.text)
    (vt80.prompt.length + s.shell.cursor) ∧ s.shell.text = ['a'] := by
  have hstart := @Typed.start vt80 (fun _ => NUL) 1 (by decide) none
  have hallows : vt80.Allows (Session.start vt80 (fun _ => NUL) 1 none).shell (.inputChar 'a') := by
    have htext : Lib.cString NUL ['a', NUL] = ['a'] := rfl
    simp [Terminal.Allows, Terminal.Takes, htext, Printable, vt80, Session.start, shellCreate]
  obtain ⟨s, hkey⟩ := (screen_shows_line hstart).2 (.inputChar 'a') hallows
  refine ⟨s, (screen_shows_line (hstart.key hallows hkey)).1, ?_⟩
  obtain rfl := Except.ok.inj hkey
  rfl

end SdPlane
