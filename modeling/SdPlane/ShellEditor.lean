import SdPlane.ShellFormat
import SdPlane.ShellWords

/-!
# The line editor (`shell_keyfunc.c`, `command_shell.c`)

What the keys do to the line. It is what a text with a cursor is for: the characters before the
cursor, the nearest one first, and the characters behind it, are what a key changes.

`shellEdit_iff` is the result: over any sequence of keys the buffer holds the text that it should,
and none of the asserts fails, exactly as long as two things do not happen. The line does not
become longer than the largest buffer that can be had by doubling an `int`, and the cursor is not
moved on by a word where more than one space is in front of the next word. There it goes to the end
of the line: `shell_word_next_head` takes the empty word between two spaces for the end, which
`shell_word_prev_head` does not.
-/

set_option autoImplicit false

namespace SdPlane

section Keys

variable (shell : Shell)

def shellKeyfuncForwardChar : Shell := shellForward shell 1

def shellKeyfuncBackwardChar : Shell := shellBackward shell 1

def shellKeyfuncMoveToBegin : Shell := shellBackward shell shell.cursor

def shellKeyfuncMoveToEnd : Shell := shellForward shell (shell.endp - shell.cursor)

def shellKeyfuncDeleteChar : Except Lib.Crash Shell :=
  if shell.cursor < shell.endp then shellDeleteString shell shell.cursor (shell.cursor + 1)
  else .ok shell

def shellKeyfuncDeleteCharAdvanced : Except Lib.Crash Shell :=
  if shell.cursor < shell.endp then shellDeleteString shell shell.cursor (shell.cursor + 1)
  else if 0 < shell.endp then shellDeleteString shell (shell.endp - 1) shell.endp
  else .ok shell

def shellKeyfuncBackspace : Except Lib.Crash Shell :=
  if shell.cursor = 0 then .ok shell
  else if shell.escape then shellDeleteWordBackward shell
  else
    let shell := shellBackward shell 1
    shellDeleteString shell shell.cursor (shell.cursor + 1)

def shellKeyfuncKillLine : Except Lib.Crash Shell := shellCut shell shell.cursor shell.endp

def shellKeyfuncKillAll : Except Lib.Crash Shell :=
  let shell := shellBackward shell shell.cursor
  shellCut shell 0 shell.endp

def shellKeyfuncYank : Except Lib.Crash Shell :=
  match shell.cutBuffer with
  | some s => shellInsert shell s
  | none => .ok shell

/-- `shell_refresh` terminates the line before it is written. -/
def shellKeyfuncRefresh : Except Lib.Crash Shell := do
  let shell ← shellFormat shell
  return shellTerminate shell

def shellKeyfuncEscape : Shell := { shell with escape := true }

/-- A line of the history comes in the place of the line, or nothing if it is the empty one. -/
def shellHistory (found : Option CommandHistory × Option Str) : Except Lib.Crash Shell := do
  let shell ← (match found.2 with
    | some s => do
      let shell ← shellDeleteString shell 0 shell.endp
      shellInsert shell s
    | none => .ok shell)
  return { shell with history := found.1 }

/-- `command_history_prev` -/
def shellHistoryPrev : Except Lib.Crash Shell := shellHistory shell (commandHistoryPrev shell.history)

/-- `command_history_next` -/
def shellHistoryNext : Except Lib.Crash Shell := shellHistory shell (commandHistoryNext shell.history)

end Keys

inductive EditOp
  | insert (s : Str)
  | inputChar (inputch : Char)
  | deleteChar
  | deleteCharAdvanced
  | backspace
  | deleteWordBackward
  | forwardChar
  | backwardChar
  | moveWordForward
  | moveWordBackward
  | moveToBegin
  | moveToEnd
  | killLine
  | killAll
  | yank
  | historyPrev
  | historyNext
  | refresh
  | escape

/-- The function that a key has. -/
def EditOp.keyfunc (shell : Shell) : EditOp → Except Lib.Crash Shell
  | .insert s => shellInsert shell s
  | .inputChar inputch => shellInputChar shell inputch
  | .deleteChar => shellKeyfuncDeleteChar shell
  | .deleteCharAdvanced => shellKeyfuncDeleteCharAdvanced shell
  | .backspace => shellKeyfuncBackspace shell
  | .deleteWordBackward => shellDeleteWordBackward shell
  | .forwardChar => .ok (shellKeyfuncForwardChar shell)
  | .backwardChar => .ok (shellKeyfuncBackwardChar shell)
  | .moveWordForward => shellMoveWordForward shell
  | .moveWordBackward => shellMoveWordBackward shell
  | .moveToBegin => .ok (shellKeyfuncMoveToBegin shell)
  | .moveToEnd => .ok (shellKeyfuncMoveToEnd shell)
  | .killLine => shellKeyfuncKillLine shell
  | .killAll => shellKeyfuncKillAll shell
  | .yank => shellKeyfuncYank shell
  | .historyPrev => shellHistoryPrev shell
  | .historyNext => shellHistoryNext shell
  | .refresh => shellKeyfuncRefresh shell
  | .escape => .ok (shellKeyfuncEscape shell)

/-- `shell_input`: an escape is for the next key only. -/
def EditOp.run (shell : Shell) (op : EditOp) : Except Lib.Crash (Shell × Unit) := do
  let escaped := shell.escape
  let shell ← op.keyfunc shell
  return (if escaped then { shell with escape := false } else shell, ())

/-! ## What it is for -/

/-- A text with a cursor, what has been cut from it, and a history. The characters to the left are
    given from the cursor on. -/
structure Editor where
  left : Str
  right : Str
  cut : Option Str
  escape : Bool
  history : Browser

namespace Editor

variable (e : Editor)

def insert (s : Str) : Editor := { e with left := (Lib.cString NUL s).reverse ++ e.left }

/-- The cursor goes `n` characters on. -/
def forth (n : Nat) : Editor :=
  { e with left := (e.right.take n).reverse ++ e.left, right := e.right.drop n }

def back (n : Nat) : Editor :=
  { e with left := e.left.drop n, right := (e.left.take n).reverse ++ e.right }

/-- What has been cut out; nothing is no text. -/
def keep (s : Str) : Editor := { e with cut := if s = [] then none else some s }

def deleteWordBackward : Editor :=
  { e.keep (e.left.take (backWord e.left)).reverse with left := e.left.drop (backWord e.left) }

/-- Another line comes from the history. -/
def fetch (op : HistoryOp) : Editor :=
  let (history, found) := browse e.history op
  match found with
  | some s => { e with left := (Lib.cString NUL s).reverse, right := [], history }
  | none => { e with history }

/-- What a key does. -/
def key : EditOp → Editor
  | .insert s => e.insert s
  | .inputChar inputch => e.insert [inputch, NUL]
  | .deleteChar => { e with right := e.right.tail }
  | .deleteCharAdvanced =>
    if e.right = [] then { e with left := e.left.tail } else { e with right := e.right.tail }
  | .backspace =>
    if e.left = [] then e
    else if e.escape then e.deleteWordBackward
    else { e with left := e.left.tail }
  | .deleteWordBackward => e.deleteWordBackward
  | .forwardChar => e.forth 1
  | .backwardChar => e.back 1
  | .moveWordForward => e.forth (forthWord e.right)
  | .moveWordBackward => e.back (backWord e.left)
  | .moveToBegin => e.back e.left.length
  | .moveToEnd => e.forth e.right.length
  | .killLine => { e.keep e.right with right := [] }
  | .killAll => { e.keep (e.left.reverse ++ e.right) with left := [], right := [] }
  | .yank =>
    match e.cut with
    | some s => e.insert s
    | none => e
  | .historyPrev => e.fetch .prev
  | .historyNext => e.fetch .next
  | .refresh =>
    { e with
      left := (squeeze ' ' e.left.reverse).reverse
      right := squeeze (e.left.headD ' ') e.right }
  | .escape => { e with escape := true }

/-- A key, which an escape before it is for. -/
def edit (op : EditOp) : Editor × Unit :=
  (if e.escape then { e.key op with escape := false } else e.key op, ())

/-- A line of at most 2³⁰ bytes, with `s` and the terminator. -/
def Fits (left right s : Str) : Prop :=
  left.length + right.length + (Lib.cString NUL s).length + 1 ≤ 2 ^ 30

/-- What comes into the line fits, and the cursor is not moved on over more than one space. -/
def Sound : EditOp → Prop
  | .insert s => Fits e.left e.right s
  | .inputChar inputch => Fits e.left e.right [inputch, NUL]
  | .yank => ∀ s, e.cut = some s → Fits e.left e.right s
  | .historyPrev => ∀ s, (browse e.history .prev).2 = some s → Fits [] [] s
  | .historyNext => ∀ s, (browse e.history .next).2 = some s → Fits [] [] s
  | .moveWordForward => OneSpace e.right
  | _ => True

instance (left right s : Str) : Decidable (Fits left right s) :=
  inferInstanceAs (Decidable (_ ≤ _))

instance : ∀ op : EditOp, Decidable (e.Sound op)
  | .insert _ | .inputChar _ => inferInstanceAs (Decidable (Fits _ _ _))
  | .yank => inferInstanceAs (Decidable (∀ s, e.cut = some s → Fits _ _ s))
  | .historyPrev | .historyNext => inferInstanceAs (Decidable (∀ s, _ = some s → Fits _ _ s))
  | .moveWordForward => inferInstanceAs (Decidable (OneSpace e.right))
  | .deleteChar | .deleteCharAdvanced | .backspace | .deleteWordBackward | .forwardChar
  | .backwardChar | .moveWordBackward | .moveToBegin | .moveToEnd | .killLine | .killAll
  | .refresh | .escape => instDecidableTrue

/-- What can be seen of a shell that holds it. -/
structure Shows (shell : Shell) : Prop where
  cursor : shell.cursor ≤ shell.endp
  room : shell.endp < shell.size
  terminated : shell.commandLine shell.endp = NUL
  left : (Lib.slice shell.commandLine 0 shell.cursor).reverse = e.left
  right : Lib.slice shell.commandLine shell.cursor (shell.endp - shell.cursor) = e.right
  cut : shell.cutBuffer = e.cut

/-! ### At the ends of the line -/

variable {e}

theorem forth_end (h : e.right = []) (n : Nat) : e.forth n = e := by
  cases e
  cases h
  simp [forth]

theorem back_begin (h : e.left = []) (n : Nat) : e.back n = e := by
  cases e
  cases h
  simp [back]

theorem tail_right (h : e.right = []) : { e with right := e.right.tail } = e := by
  cases e
  cases h
  rfl

theorem tail_left (h : e.left = []) : { e with left := e.left.tail } = e := by
  cases e
  cases h
  rfl

/-- Going back and deleting what is behind the cursor then. -/
theorem back_tail (h : e.left ≠ []) :
    { e.back 1 with right := (e.back 1).right.tail } = { e with left := e.left.tail } := by
  obtain ⟨left, right, cut, escape, history⟩ := e
  cases left with
  | nil => exact absurd rfl h
  | cons c left => rfl

end Editor

/-! ## The invariant -/

structure EditorHolds (shell : Shell) (e : Editor) : Prop where
  line : LineHolds shell e.left e.right
  cut : shell.cutBuffer = e.cut
  escape : shell.escape = e.escape
  history : HistoryInv shell.history e.history

namespace EditorHolds

variable {shell shell' : Shell} {e : Editor} (h : EditorHolds shell e)

include h

theorem shows : e.Shows shell where
  cursor := by
    rw [h.line.cursor, h.line.endp]
    exact Nat.le_add_right _ _
  room := h.line.room
  terminated := h.line.terminated
  left := by
    obtain ⟨hleft, -⟩ := Lib.lies_append.mp h.line.lies
    have hslice := hleft.slice_eq
    rw [List.length_reverse, ← h.line.cursor] at hslice
    rw [hslice, List.reverse_reverse]
  right := by
    obtain ⟨-, hright⟩ := Lib.lies_append.mp h.line.lies
    have hlen : shell.endp - shell.cursor = e.right.length := by
      rw [h.line.endp, h.line.cursor, Nat.add_sub_cancel_left]
    rw [Nat.zero_add, List.length_reverse, ← h.line.cursor] at hright
    rw [hlen]
    exact hright.slice_eq
  cut := h.cut

/-- Only the line changes. -/
theorem of_rest {left right : Str} (hrest : shell'.rest = shell.rest)
    (hline : LineHolds shell' left right) : EditorHolds shell' { e with left, right } := by
  simp only [Shell.rest, Prod.mk.injEq] at hrest
  obtain ⟨hcut, hescape, hhistory⟩ := hrest
  exact ⟨hline, hcut.trans h.cut, hescape.trans h.escape, hhistory ▸ h.history⟩

theorem insert {s : Str} (hfits : Editor.Fits e.left e.right s) :
    ∃ shell', shellInsert shell s = .ok shell' ∧ EditorHolds shell' (e.insert s) := by
  obtain ⟨shell', hrun, hrest, hline⟩ := h.line.insert hfits
  exact ⟨shell', hrun, h.of_rest hrest hline⟩

theorem deleteChar (hmore : e.right ≠ []) :
    ∃ shell', shellDeleteString shell shell.cursor (shell.cursor + 1) = .ok shell'
      ∧ EditorHolds shell' { e with right := e.right.tail } := by
  have hsplit : e.left.reverse ++ e.right = e.left.reverse ++ [e.right.head hmore] ++ e.right.tail := by
    simp
  have hstart : shell.cursor = e.left.reverse.length := by simp [h.line.cursor]
  have hendp : shell.cursor + 1 = e.left.reverse.length + [e.right.head hmore].length := by
    simp [h.line.cursor]
  obtain ⟨shell', hrun, hrest, hline⟩ := h.line.deleteString hsplit hstart hendp
  rw [List.reverse_reverse] at hline
  exact ⟨shell', hrun, h.of_rest hrest hline⟩

/-- Going back first, this is what deletes the character before the cursor. -/
theorem deleteBefore (hmore : e.left ≠ []) :
    ∃ shell', shellDeleteString shell (shell.cursor - 1) shell.cursor = .ok shell'
      ∧ EditorHolds shell' { e with left := e.left.tail } := by
  have hpos := List.length_pos_iff.mpr hmore
  have hcursor := h.line.cursor
  have hsplit : e.left.reverse ++ e.right = e.left.tail.reverse ++ [e.left.head hmore] ++ e.right := by
    rw [← List.reverse_cons, List.cons_head_tail]
  have hstart : shell.cursor - 1 = e.left.tail.reverse.length := by simp [hcursor]
  have hendp : shell.cursor = e.left.tail.reverse.length + [e.left.head hmore].length := by
    simp [hcursor]
    omega
  obtain ⟨shell', hrun, hrest, hline⟩ := h.line.deleteString hsplit hstart hendp
  rw [List.reverse_reverse] at hline
  exact ⟨shell', hrun, h.of_rest hrest hline⟩

theorem cut_line {a b c : Str} (htext : e.left.reverse ++ e.right = a ++ b ++ c) {start endp : Nat}
    (hstart : start = a.length) (hendp : endp = a.length + b.length)
    (hcursor : b = [] → shell.cursor = start) :
    ∃ shell', shellCut shell start endp = .ok shell'
      ∧ EditorHolds shell' { e.keep b with left := a.reverse, right := c } := by
  obtain ⟨shell', hrun, hrest, hline⟩ := h.line.cut htext hstart hendp hcursor
  simp only [Shell.rest, Prod.mk.injEq] at hrest
  obtain ⟨hcut, hescape, hhistory⟩ := hrest
  exact ⟨shell', hrun, hline, hcut, hescape.trans h.escape, hhistory ▸ h.history⟩

theorem deleteWordBackward : ∃ shell', shellDeleteWordBackward shell = .ok shell'
    ∧ EditorHolds shell' e.deleteWordBackward := by
  have hle := backWord_le e.left
  have hsplit : e.left.reverse ++ e.right = (e.left.drop (backWord e.left)).reverse
      ++ (e.left.take (backWord e.left)).reverse ++ e.right := by
    rw [← List.reverse_append, List.take_append_drop]
  have hcursor := h.line.cursor
  have hlen : (e.left.drop (backWord e.left)).reverse.length = e.left.length - backWord e.left := by
    simp
  have hlen' : (e.left.take (backWord e.left)).reverse.length = backWord e.left := by
    simpa using hle
  have hendp : shell.cursor = (e.left.drop (backWord e.left)).reverse.length
      + (e.left.take (backWord e.left)).reverse.length := by omega
  obtain ⟨shell', hrun, hholds⟩ := h.cut_line hsplit hlen.symm hendp fun hnone => by
      rw [hnone, List.length_nil] at hlen'
      omega
  refine ⟨shell', ?_, ?_⟩
  · rw [shellDeleteWordBackward, h.line.backwardStart]
    exact hrun
  · rw [List.reverse_reverse] at hholds
    exact hholds

theorem forth {n : Nat} (hn : n ≤ e.right.length) :
    EditorHolds (shellForward shell n) (e.forth n) := by
  obtain ⟨hline, hrest⟩ := h.line.forward hn
  exact h.of_rest hrest hline

theorem back {n : Nat} (hn : n ≤ e.left.length) : EditorHolds (shellBackward shell n) (e.back n) := by
  obtain ⟨hline, hrest⟩ := h.line.backward hn
  exact h.of_rest hrest hline

theorem moveWordForward (hone : OneSpace e.right) : ∃ shell', shellMoveWordForward shell = .ok shell'
    ∧ EditorHolds shell' (e.forth (forthWord e.right)) := by
  obtain ⟨shell', hrun, hrest, hline⟩ := h.line.moveto_forth (forthWord_le e.right)
  refine ⟨shell', ?_, h.of_rest hrest hline⟩
  rw [shellMoveWordForward, h.line.wordNextHead, if_pos hone]
  exact hrun

theorem moveWordForward_end (hone : ¬ OneSpace e.right) :
    ∃ shell', shellMoveWordForward shell = .ok shell'
      ∧ EditorHolds shell' (e.forth e.right.length) := by
  obtain ⟨shell', hrun, hrest, hline⟩ := h.line.moveto_forth (n := e.right.length) le_rfl
  refine ⟨shell', ?_, h.of_rest hrest hline⟩
  rw [shellMoveWordForward, h.line.wordNextHead, if_neg hone]
  exact hrun

theorem moveWordBackward : ∃ shell', shellMoveWordBackward shell = .ok shell'
    ∧ EditorHolds shell' (e.back (backWord e.left)) := by
  obtain ⟨shell', hrun, hrest, hline⟩ := h.line.moveto_back (backWord_le e.left)
  refine ⟨shell', ?_, h.of_rest hrest hline⟩
  rw [shellMoveWordBackward, h.line.backwardStart]
  exact hrun

theorem refresh : ∃ shell', shellKeyfuncRefresh shell = .ok shell'
    ∧ EditorHolds shell' (e.key .refresh) := by
  have hroom := h.line.room
  obtain ⟨commandLine, hrun, hlies, hbehind⟩ := shellFormat2_eq shell hroom.le
  rw [h.line.text_eq] at hrun hlies hbehind
  have hlast : e.left.reverse.getLastD ' ' = e.left.headD ' ' := by
    rw [List.getLastD_eq_getLast?, List.getLast?_reverse, List.headD_eq_head?_getD]
  have hsplit := @squeeze_append ' ' e.left.reverse e.right
  rw [hlast] at hsplit
  have htake : (e.left.reverse ++ e.right).take shell.cursor = e.left.reverse := by
    rw [h.line.cursor, ← List.length_reverse, List.take_left]
  have hle : (squeeze ' ' (e.left.reverse ++ e.right)).length ≤ shell.endp := by
    rw [h.line.endp]
    simpa using @squeeze_length_le ' ' (e.left.reverse ++ e.right)
  have hline : LineHolds { shell with
      commandLine
      cursor := (squeeze ' ' e.left.reverse).length
      endp := (squeeze ' ' (e.left.reverse ++ e.right)).length }
      (squeeze ' ' e.left.reverse).reverse (squeeze (e.left.headD ' ') e.right) := by
    refine ⟨?_, ?_, ?_, ?_, ?_, ?_, h.line.power, h.line.writefd⟩
    · rw [List.reverse_reverse, ← hsplit]
      exact hlies
    · rw [List.reverse_reverse, ← hsplit]
      exact fun hmem => h.line.clean (mem_of_mem_squeeze hmem)
    · rw [List.length_reverse]
    · rw [List.length_reverse, ← List.length_append, ← hsplit]
    · exact lt_of_le_of_lt hle hroom
    · exact (hbehind _ le_rfl).trans (if_pos (lt_of_le_of_lt hle hroom))
  refine ⟨_, ?_, EditorHolds.of_rest h ?_ hline⟩
  · rw [shellKeyfuncRefresh, shellFormat, hrun, htake, Lib.ok_bind, hline.terminate]
    rfl
  · rfl

theorem deleteLine : ∃ shell', shellDeleteString shell 0 shell.endp = .ok shell'
    ∧ EditorHolds shell' { e with left := [], right := [] } := by
  have hsplit : e.left.reverse ++ e.right = [] ++ (e.left.reverse ++ e.right) ++ [] := by simp
  have hendp : shell.endp = ([] : Str).length + (e.left.reverse ++ e.right).length := by
    simp [h.line.endp]
  obtain ⟨shell', hrun, hrest, hline⟩ := h.line.deleteString hsplit rfl hendp
  exact ⟨shell', hrun, h.of_rest hrest hline⟩

/-- The whole line is deleted and another one inserted. -/
theorem replace {s : Str} (hfits : Editor.Fits [] [] s) :
    ∃ shell', (do
        let shell ← shellDeleteString shell 0 shell.endp
        shellInsert shell s) = .ok shell'
      ∧ EditorHolds shell' { e with left := (Lib.cString NUL s).reverse, right := [] } := by
  obtain ⟨shell₁, hrun₁, hempty⟩ := h.deleteLine
  obtain ⟨shell₂, hrun₂, hholds⟩ := hempty.insert hfits
  refine ⟨shell₂, by rw [hrun₁, Lib.ok_bind, hrun₂], ?_⟩
  simpa [Editor.insert] using hholds

theorem fetch {op : HistoryOp} {history : Option CommandHistory}
    (hinv : HistoryInv history (browse e.history op).1)
    (hfits : ∀ s, (browse e.history op).2 = some s → Editor.Fits [] [] s) :
    ∃ shell', shellHistory shell (history, (browse e.history op).2) = .ok shell'
      ∧ EditorHolds shell' (e.fetch op) := by
  rw [shellHistory, Editor.fetch]
  dsimp only
  cases hfound : (browse e.history op).2 with
  | none =>
    exact ⟨_, rfl, h.line.withRest shell.cutBuffer shell.escape history, h.cut, h.escape, hinv⟩
  | some s =>
    obtain ⟨shell', hrun, hholds⟩ := h.replace (hfits s hfound)
    refine ⟨{ shell' with history }, by dsimp only; rw [hrun]; rfl, ?_, hholds.cut, hholds.escape, hinv⟩
    exact hholds.line.withRest shell'.cutBuffer shell'.escape history

/-! ### Any key -/

theorem keyfunc {op : EditOp} (hsound : e.Sound op) :
    ∃ shell', op.keyfunc shell = .ok shell' ∧ EditorHolds shell' (e.key op) := by
  have hcursor := h.line.cursor
  have hend := h.line.endp
  cases op with
  | insert s => exact h.insert hsound
  | inputChar inputch => exact h.insert hsound
  | deleteChar =>
    simp only [EditOp.keyfunc, shellKeyfuncDeleteChar, Editor.key]
    by_cases hmore : e.right = []
    · rw [if_neg (by simp [hmore] at hend; omega), Editor.tail_right hmore]
      exact ⟨shell, rfl, h⟩
    · have hpos := List.length_pos_iff.mpr hmore
      rw [if_pos (by omega)]
      exact h.deleteChar hmore
  | deleteCharAdvanced =>
    simp only [EditOp.keyfunc, shellKeyfuncDeleteCharAdvanced, Editor.key]
    by_cases hmore : e.right = []
    · have hlast : shell.endp = shell.cursor := by simp [hend, hcursor, hmore]
      rw [if_neg (by omega), if_pos hmore, hlast]
      by_cases hleft : e.left = []
      · rw [if_neg (by simp [hcursor, hleft]), Editor.tail_left hleft]
        exact ⟨shell, rfl, h⟩
      · have hpos := List.length_pos_iff.mpr hleft
        rw [if_pos (by omega)]
        exact h.deleteBefore hleft
    · have hpos := List.length_pos_iff.mpr hmore
      rw [if_pos (by omega), if_neg hmore]
      exact h.deleteChar hmore
  | backspace =>
    simp only [EditOp.keyfunc, shellKeyfuncBackspace, Editor.key, h.escape]
    by_cases hleft : e.left = []
    · rw [if_pos (by simp [hcursor, hleft]), if_pos hleft]
      exact ⟨shell, rfl, h⟩
    · have hpos := List.length_pos_iff.mpr hleft
      rw [if_neg (by omega), if_neg hleft]
      by_cases hescape : e.escape = true
      · rw [if_pos hescape, if_pos hescape]
        exact h.deleteWordBackward
      · rw [if_neg hescape, if_neg hescape]
        have hdelete := (h.back hpos).deleteChar (by simp [Editor.back, hleft])
        rwa [Editor.back_tail hleft] at hdelete
  | deleteWordBackward => exact h.deleteWordBackward
  | forwardChar =>
    simp only [EditOp.keyfunc, shellKeyfuncForwardChar, Editor.key]
    refine ⟨_, rfl, ?_⟩
    by_cases hmore : e.right = []
    · rw [h.line.forward_end (by simp [hmore]), Editor.forth_end hmore]
      exact h
    · exact h.forth (List.length_pos_iff.mpr hmore)
  | backwardChar =>
    simp only [EditOp.keyfunc, shellKeyfuncBackwardChar, Editor.key]
    refine ⟨_, rfl, ?_⟩
    by_cases hleft : e.left = []
    · rw [h.line.backward_begin (by simp [hleft]), Editor.back_begin hleft]
      exact h
    · exact h.back (List.length_pos_iff.mpr hleft)
  | moveWordForward => exact h.moveWordForward hsound
  | moveWordBackward => exact h.moveWordBackward
  | moveToBegin => exact ⟨_, rfl, by rw [shellKeyfuncMoveToBegin, hcursor]; exact h.back le_rfl⟩
  | moveToEnd =>
    refine ⟨_, rfl, ?_⟩
    rw [shellKeyfuncMoveToEnd, hend, hcursor, Nat.add_sub_cancel_left]
    exact h.forth le_rfl
  | killLine =>
    have hsplit : e.left.reverse ++ e.right = e.left.reverse ++ e.right ++ [] := by simp
    have hstart : shell.cursor = e.left.reverse.length := by simp [hcursor]
    have hendp : shell.endp = e.left.reverse.length + e.right.length := by simp [hend]
    obtain ⟨shell', hrun, hholds⟩ := h.cut_line hsplit hstart hendp fun _ => rfl
    rw [List.reverse_reverse] at hholds
    exact ⟨shell', hrun, hholds⟩
  | killAll =>
    have hback := h.back (n := shell.cursor) hcursor.le
    have hall : (e.back shell.cursor).left = [] ∧ (e.back shell.cursor).right = e.left.reverse ++ e.right := by
      simp [Editor.back, hcursor]
    have hsplit : (e.back shell.cursor).left.reverse ++ (e.back shell.cursor).right
        = [] ++ (e.left.reverse ++ e.right) ++ [] := by simp [hall]
    have hendp : (shellBackward shell shell.cursor).endp
        = ([] : Str).length + (e.left.reverse ++ e.right).length := by simp [hback.line.endp, hall]
    obtain ⟨shell', hrun, hholds⟩ := hback.cut_line hsplit rfl hendp fun _ => by
      simp [hback.line.cursor, hall]
    exact ⟨shell', hrun, hholds⟩
  | yank =>
    simp only [EditOp.keyfunc, shellKeyfuncYank, Editor.key, h.cut]
    cases hcut : e.cut with
    | none => exact ⟨shell, rfl, h⟩
    | some s => exact h.insert (hsound s hcut)
  | historyPrev =>
    obtain ⟨history, hrun, hinv⟩ := historyInv_run h.history .prev
    obtain ⟨shell', hshell, hholds⟩ := h.fetch hinv hsound
    refine ⟨shell', ?_, hholds⟩
    have hfound : commandHistoryPrev shell.history = _ := Except.ok.inj hrun
    rw [EditOp.keyfunc, shellHistoryPrev, hfound]
    exact hshell
  | historyNext =>
    obtain ⟨history, hrun, hinv⟩ := historyInv_run h.history .next
    obtain ⟨shell', hshell, hholds⟩ := h.fetch hinv hsound
    refine ⟨shell', ?_, hholds⟩
    have hfound : commandHistoryNext shell.history = _ := Except.ok.inj hrun
    rw [EditOp.keyfunc, shellHistoryNext, hfound]
    exact hshell
  | refresh => exact h.refresh
  | escape =>
    exact ⟨_, rfl, h.line.withRest shell.cutBuffer true shell.history, h.cut, rfl, h.history⟩

end EditorHolds

/-! ## The result -/

/-- What is too long does not come into the line. -/
theorem EditorHolds.fits {shell t : Shell} {e : Editor} (h : EditorHolds shell e) {s : Str}
    (hrun : shellInsert shell s = .ok t) : Editor.Fits e.left e.right s := by
  by_contra hbig
  rw [h.line.insert_overflows hbig] at hrun
  cases hrun

theorem EditorHolds.fits_history {shell t : Shell} {e : Editor} (h : EditorHolds shell e)
    {history : Option CommandHistory} {s : Str}
    (hrun : shellHistory shell (history, some s) = .ok t) : Editor.Fits [] [] s := by
  obtain ⟨shell₁, hrun₁, hempty⟩ := h.deleteLine
  simp only [shellHistory, hrun₁, Lib.ok_bind] at hrun
  cases hinsert : shellInsert shell₁ s with
  | error e => simp [hinsert] at hrun
  | ok shell₂ => exact hempty.fits hinsert

/-- Over more than one space the cursor goes too far. -/
theorem EditorHolds.oneSpace {shell shell' : Shell} {e : Editor} (h : EditorHolds shell e)
    (hrun : shellMoveWordForward shell = .ok shell')
    (hcursor : shell'.cursor = (e.forth (forthWord e.right)).left.length) : OneSpace e.right := by
  by_contra hone
  have hlt := forthWord_lt hone
  obtain ⟨shell₁, hrun₁, hholds⟩ := h.moveWordForward_end hone
  obtain rfl : shell' = shell₁ := Except.ok.inj (hrun.symm.trans hrun₁)
  have hfar := hholds.line.cursor
  simp only [Editor.forth, List.length_append, List.length_reverse, List.length_take] at hfar hcursor
  omega

/-- A key that goes right has been a sound one. -/
theorem EditorHolds.sound {shell t : Shell} {e : Editor} (h : EditorHolds shell e) {op : EditOp}
    (hrun : op.run shell = .ok (t, ())) (hshows : (e.edit op).1.Shows t) : e.Sound op := by
  obtain ⟨shell', hkey, hcursor⟩ : ∃ shell', op.keyfunc shell = .ok shell'
      ∧ shell'.cursor = (e.key op).left.length := by
    cases hkey : op.keyfunc shell with
    | error e => simp [EditOp.run, hkey] at hrun
    | ok shell' =>
      have hleft := congrArg List.length hshows.left
      rw [List.length_reverse, Lib.length_slice] at hleft
      simp only [EditOp.run, hkey, Lib.ok_bind, Lib.pure_eq_ok, Except.ok.injEq, Prod.mk.injEq,
        and_true] at hrun
      subst hrun
      refine ⟨shell', rfl, ?_⟩
      simp only [Editor.edit, h.escape] at hleft
      by_cases hescape : e.escape = true
      · simpa only [if_pos hescape] using hleft
      · simpa only [if_neg hescape] using hleft
  cases op with
  | insert s => exact h.fits hkey
  | inputChar inputch => exact h.fits hkey
  | yank =>
    intro s hcut
    simp only [EditOp.keyfunc, shellKeyfuncYank, h.cut, hcut] at hkey
    exact h.fits hkey
  | historyPrev =>
    intro s hfound
    obtain ⟨history, hop, -⟩ := historyInv_run h.history .prev
    have hprev : commandHistoryPrev shell.history = _ := Except.ok.inj hop
    simp only [EditOp.keyfunc, shellHistoryPrev, hprev, hfound] at hkey
    exact h.fits_history hkey
  | historyNext =>
    intro s hfound
    obtain ⟨history, hop, -⟩ := historyInv_run h.history .next
    have hnext : commandHistoryNext shell.history = _ := Except.ok.inj hop
    simp only [EditOp.keyfunc, shellHistoryNext, hnext, hfound] at hkey
    exact h.fits_history hkey
  | moveWordForward => exact h.oneSpace hkey hcursor
  | _ => trivial

theorem editorHolds_run {shell : Shell} {e : Editor} (h : EditorHolds shell e) {op : EditOp}
    (hsound : e.Sound op) :
    ∃ shell', op.run shell = .ok (shell', (e.edit op).2) ∧ EditorHolds shell' (e.edit op).1 := by
  obtain ⟨shell', hrun, hholds⟩ := h.keyfunc hsound
  simp only [EditOp.run, hrun, Lib.ok_bind, Lib.pure_eq_ok, Editor.edit, h.escape]
  refine ⟨_, rfl, ?_⟩
  by_cases hescape : e.escape = true
  · rw [if_pos hescape, if_pos hescape]
    exact ⟨hholds.line.withRest shell'.cutBuffer false shell'.history, hholds.cut, rfl, hholds.history⟩
  · rw [if_neg hescape, if_neg hescape]
    exact hholds

/-- An empty line with a history that has come about from anything. -/
theorem editorHolds_create (mem : Nat → Char) {writefd : Int} (hwritefd : 0 ≤ writefd)
    {before : List HistoryOp} {history : Option CommandHistory} {shown : List (Option Str)}
    (hbefore : Lib.runOps HistoryOp.run none before = .ok (history, shown)) :
    EditorHolds { shellCreate mem writefd with history }
      ⟨[], [], none, false, (Lib.specOps browse ⟨[], 0⟩ before).1⟩ := by
  have hinit : HistoryInv none ⟨[], 0⟩ := rfl
  have hsim : Lib.Simulates HistoryOp.run browse HistoryInv none ⟨[], 0⟩ before :=
    Lib.simulates_of_steps (R := HistoryInv) (fun _ _ op h _ => historyInv_run h op) hinit
      (Lib.allAllowed_true _ _)
  obtain ⟨history', hrun, hinv⟩ := hsim before List.prefix_rfl
  obtain ⟨rfl, -⟩ := Prod.mk.inj (Except.ok.inj (hbefore.symm.trans hrun))
  exact ⟨(lineHolds_create mem hwritefd).withRest none false history, rfl, rfl, hinv⟩

/-- From any shell that holds a text. -/
theorem simulates_iff_sound {shell : Shell} {e : Editor} (h : EditorHolds shell e)
    (ops : List EditOp) :
    Lib.Simulates EditOp.run Editor.edit (fun shell e => e.Shows shell) shell e ops
      ↔ Lib.AllAllowed Editor.edit Editor.Sound e ops := by
  have hgood : ∀ shell e op, EditorHolds shell e → True → Editor.Sound e op →
      ∃ t, EditOp.run shell op = .ok (t, (Editor.edit e op).2)
        ∧ EditorHolds t (Editor.edit e op).1 :=
    fun _ _ _ h _ hsound => editorHolds_run h hsound
  have hbad : ∀ shell e op, EditorHolds shell e → True →
      (∃ t, EditOp.run shell op = .ok (t, (Editor.edit e op).2) ∧ (Editor.edit e op).1.Shows t) →
      Editor.Sound e op := by
    rintro shell e op h - ⟨t, hrun, hshows⟩
    exact h.sound hrun hshows
  exact Lib.simulates_iff_allAllowed (P := fun shell e => e.Shows shell) hgood
    (fun _ _ h => h.shows) hbad h (Lib.allAllowed_true _ _)

/-- **The editor is a text with a cursor exactly as long as all keys are sound.** -/
theorem shellEdit_iff (mem : Nat → Char) {writefd : Int} (hwritefd : 0 ≤ writefd)
    {before : List HistoryOp} {history : Option CommandHistory} {shown : List (Option Str)}
    (hbefore : Lib.runOps HistoryOp.run none before = .ok (history, shown)) (ops : List EditOp) :
    Lib.Simulates EditOp.run Editor.edit (fun shell e => e.Shows shell)
        { shellCreate mem writefd with history }
        ⟨[], [], none, false, (Lib.specOps browse ⟨[], 0⟩ before).1⟩ ops
      ↔ Lib.AllAllowed Editor.edit Editor.Sound
        ⟨[], [], none, false, (Lib.specOps browse ⟨[], 0⟩ before).1⟩ ops :=
  simulates_iff_sound (editorHolds_create mem hwritefd hbefore) ops

/-- Two words are typed; the second is cut and put in front of the first, the line is killed and
    comes back, and the history has one line to show. -/
theorem shellEdit_yank : ∃ history shown,
    Lib.runOps HistoryOp.run none [.add ['s', 'h']] = .ok (history, shown)
      ∧ Lib.Simulates EditOp.run Editor.edit (fun shell e => e.Shows shell)
        { shellCreate (fun _ => NUL) 1 with history } ⟨[], [], none, false, ⟨[['s', 'h']], 0⟩⟩
        [.insert ['u', 'p', ' ', 'n', 'o'], .backspace, .inputChar 'o', .escape, .backspace,
          .moveToBegin, .yank, .inputChar ' ', .moveWordForward, .backwardChar, .deleteChar,
          .killAll, .yank, .historyPrev, .historyPrev, .historyNext, .refresh] := by
  obtain ⟨history, shown, hbefore⟩ : ∃ history shown,
      Lib.runOps HistoryOp.run none [.add ['s', 'h']] = .ok (history, shown) := ⟨_, _, rfl⟩
  exact ⟨history, shown, hbefore,
    (shellEdit_iff (fun _ => NUL) (by decide) hbefore _).mpr (by decide)⟩

/-- Two spaces between two characters: from the first one the cursor goes behind the second. -/
theorem shellEdit_goes_too_far :
    ¬ ∀ ops, Lib.Simulates EditOp.run Editor.edit (fun shell e => e.Shows shell)
      { shellCreate (fun _ => NUL) 1 with history := none } ⟨[], [], none, false, ⟨[], 0⟩⟩ ops := by
  intro h
  have hbefore : Lib.runOps HistoryOp.run none [] = .ok (none, []) := rfl
  have hinit := editorHolds_create (fun _ => NUL) (by decide : (0 : Int) ≤ 1) hbefore
  have hsound := (simulates_iff_sound hinit
    [.insert ['a', ' ', ' ', 'b'], .moveToBegin, .moveWordForward]).mp (h _)
  simp only [Lib.allAllowed_cons] at hsound
  have hone : OneSpace ['a', ' ', ' ', 'b'] := hsound.2.2.1
  exact absurd hone (by decide)

end SdPlane
