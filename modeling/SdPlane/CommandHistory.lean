import SdPlane.CommandLine
import SdPlane.Lib.Crash
import SdPlane.Lib.Simulation

/-!
# The command history (`command_shell.c`)

The lines that were entered are kept in a ring of `HISTORY_SIZE` slots, one of which stays empty:
the one behind the last line is the line that is being edited. The cursor goes round in it one slot
at a time. It stops at the empty slot, which it gets to from both sides when the ring is full.

For what it is for, lines are counted from the newest one on, and the cursor is how many lines it
has gone back. `commandHistory_refines` is the result: whatever is added and browsed, the ring
holds the newest lines in their order, and the slot that the next line goes to is empty.
-/

set_option autoImplicit false

namespace SdPlane

def HISTORY_SIZE : Nat := 128

def HISTORY_PREV (x : Nat) : Nat := if x = 0 then HISTORY_SIZE - 1 else x - 1

def HISTORY_NEXT (x : Nat) : Nat := if x + 1 = HISTORY_SIZE then 0 else x + 1

/-- `struct command_history`, without the clock. -/
structure CommandHistory where
  array : Nat → Option Str
  last : Nat
  current : Nat

/-- `memset (history, 0, sizeof (struct command_history))` -/
def CommandHistory.zero : CommandHistory := ⟨fun _ => none, 0, 0⟩

/-- `none` is `NULL`, before the first line. -/
def commandHistoryAdd (commandLine : Str) (history : Option CommandHistory) :
    Except Lib.Crash CommandHistory := do
  let history := history.getD .zero
  let current :=
    if (history.array history.last).isSome then HISTORY_NEXT history.last else history.current
  Lib.assert (history.array current = none)
  -- omit adding an identical line
  if history.array history.last = some commandLine then return { history with current }
  let next := HISTORY_NEXT current
  return {
    array := Function.update (Function.update history.array current (some commandLine)) next none
    last := current
    current := next }

/-- The line that comes into the shell, if any. -/
def commandHistoryPrev (history : Option CommandHistory) : Option CommandHistory × Option Str :=
  match history with
  | none => (none, none)
  | some history =>
    let ceil := HISTORY_NEXT history.last
    let start := HISTORY_NEXT ceil
    if history.current = start then (history, none)
    else
      let prev := HISTORY_PREV history.current
      match history.array prev with
      | some line => (some { history with current := prev }, some line)
      | none => (history, none)

/-- The empty line has been deleted and nothing inserted. -/
def commandHistoryNext (history : Option CommandHistory) : Option CommandHistory × Option Str :=
  match history with
  | none => (none, none)
  | some history =>
    let floor := HISTORY_NEXT history.last
    if history.current = floor then (history, none)
    else
      let next := HISTORY_NEXT history.current
      let (history, line) :=
        match history.array next with
        | some line => ({ history with current := next }, some line)
        | none => (history, none)
      if next = floor then (some { history with current := next }, some []) else (history, line)

/-- The loop of `show_history`: at most `n` slots from `i` on, up to `floor`. -/
def showHistoryFrom (history : CommandHistory) (floor : Nat) : Nat → Nat → List Str
  | 0, _ => []
  | n + 1, i =>
    if i = floor then []
    else (history.array i).toList ++ showHistoryFrom history floor n (HISTORY_NEXT i)

/-- The lines that `show_history` prints. -/
def showHistory (history : Option CommandHistory) : List Str :=
  match history with
  | none => []
  | some history =>
    let floor := HISTORY_NEXT history.last
    showHistoryFrom history floor HISTORY_SIZE (HISTORY_NEXT floor)

/-! ## What it is for -/

inductive HistoryOp
  | add (line : Str)
  | prev
  | next

/-- With the line that comes into the shell. -/
def HistoryOp.run (history : Option CommandHistory) :
    HistoryOp → Except Lib.Crash (Option CommandHistory × Option Str)
  | .add line => do return (← commandHistoryAdd line history, none)
  | .prev => .ok (commandHistoryPrev history)
  | .next => .ok (commandHistoryNext history)

/-- All lines, the newest one first, and how many of them the cursor has gone back. -/
structure Browser where
  log : List Str
  back : Nat

/-- One line back or forth, as far as lines are kept; the newest line is not added again. -/
def browse (b : Browser) : HistoryOp → Browser × Option Str
  | .add line => (⟨if b.log.head? = some line then b.log else line :: b.log, 0⟩, none)
  | .prev =>
    if b.back < min b.log.length (HISTORY_SIZE - 1) then
      (⟨b.log, b.back + 1⟩, b.log[b.back]?)
    else (b, none)
  | .next =>
    match b.back with
    | 0 => (b, none)
    | 1 => (⟨b.log, 0⟩, some [])
    | back + 2 => (⟨b.log, back + 1⟩, b.log[back]?)

/-- What can be seen: the newest lines, the oldest of them first, the empty slot behind, and whether
    the cursor is there. -/
structure Shows (history : Option CommandHistory) (b : Browser) : Prop where
  lines : showHistory history = (b.log.take (HISTORY_SIZE - 1)).reverse
  separator : ∀ h, history = some h → h.array (HISTORY_NEXT h.last) = none
  atEnd : ∀ h, history = some h → (h.current = HISTORY_NEXT h.last ↔ b.back = 0)

/-! ## Slots, counted back from the empty one -/

/-- The slot that is `back` before the one behind `last`. -/
def slot (last back : Nat) : Nat := (last + 1 + HISTORY_SIZE - back) % HISTORY_SIZE

section Slots

variable {last back : Nat}

theorem slot_lt : slot last back < HISTORY_SIZE := Nat.mod_lt _ (by decide)

theorem history_next {x : Nat} (h : x < HISTORY_SIZE) : HISTORY_NEXT x = (x + 1) % HISTORY_SIZE := by
  rw [HISTORY_NEXT]
  split
  · rename_i heq
    rw [heq, Nat.mod_self]
  · rw [Nat.mod_eq_of_lt]
    omega

theorem history_prev {x : Nat} (h : x < HISTORY_SIZE) :
    HISTORY_PREV x = (x + (HISTORY_SIZE - 1)) % HISTORY_SIZE := by
  cases x with
  | zero => rfl
  | succ x =>
    rw [HISTORY_PREV, if_neg (Nat.succ_ne_zero x)]
    simp only [HISTORY_SIZE] at *
    omega

theorem next_last (h : last < HISTORY_SIZE) : HISTORY_NEXT last = slot last 0 := by
  rw [history_next h, slot, Nat.sub_zero, Nat.add_mod_right]

theorem last_eq_slot (h : last < HISTORY_SIZE) : last = slot last 1 := by
  simp only [slot, HISTORY_SIZE] at *
  omega

theorem next_slot (h : back < HISTORY_SIZE) : HISTORY_NEXT (slot last (back + 1)) = slot last back := by
  rw [history_next slot_lt]
  simp only [slot, HISTORY_SIZE] at *
  omega

theorem prev_slot (h : back < HISTORY_SIZE) : HISTORY_PREV (slot last back) = slot last (back + 1) := by
  rw [history_prev slot_lt]
  simp only [slot, HISTORY_SIZE] at *
  omega

/-- The ring is closed. -/
theorem next_empty : HISTORY_NEXT (slot last 0) = slot last (HISTORY_SIZE - 1) := by
  rw [history_next slot_lt]
  simp only [slot, HISTORY_SIZE]
  omega

theorem slot_inj {back' : Nat} (h : back < HISTORY_SIZE) (h' : back' < HISTORY_SIZE)
    (heq : slot last back = slot last back') : back = back' := by
  simp only [slot, HISTORY_SIZE] at *
  omega

/-- Counted from a new last line, in the slot that was empty. -/
theorem slot_slot (h : back < HISTORY_SIZE) : slot (slot last 0) (back + 1) = slot last back := by
  simp only [slot, HISTORY_SIZE] at *
  omega

end Slots

/-! ## The invariant -/

/-- The newest lines lie before the empty slot, back to the slot behind it. -/
structure HistoryHolds (history : CommandHistory) (b : Browser) : Prop where
  last_lt : history.last < HISTORY_SIZE
  nonempty : b.log ≠ []
  empty : history.array (slot history.last 0) = none
  lines : ∀ i, i + 1 < HISTORY_SIZE → history.array (slot history.last (i + 1)) = b.log[i]?
  current : history.current = slot history.last b.back
  back : b.back ≤ min b.log.length (HISTORY_SIZE - 1)

/-- Nothing has been added, or the lines are held. -/
def HistoryInv : Option CommandHistory → Browser → Prop
  | none, b => b = ⟨[], 0⟩
  | some history, b => HistoryHolds history b

/-- A line is written to `current`, and the slot behind it is freed. -/
theorem historyHolds_push {array : Nat → Option Str} {current : Nat} {log : List Str}
    (hcurrent : current < HISTORY_SIZE)
    (hlines : ∀ i, i + 2 < HISTORY_SIZE → array (slot current (i + 2)) = log[i]?) (line : Str) :
    HistoryHolds
      { array := Function.update (Function.update array current (some line)) (slot current 0) none
        last := current
        current := slot current 0 } ⟨line :: log, 0⟩ where
  last_lt := hcurrent
  nonempty := List.cons_ne_nil _ _
  empty := Function.update_self ..
  lines := by
    intro i hi
    have hempty : slot current (i + 1) ≠ slot current 0 := fun heq =>
      absurd (slot_inj hi (by decide) heq) (Nat.succ_ne_zero i)
    dsimp only
    rw [Function.update_of_ne hempty]
    cases i with
    | zero =>
      rw [Nat.zero_add, ← last_eq_slot hcurrent]
      exact Function.update_self ..
    | succ i =>
      have hne : slot current (i + 2) ≠ current := fun heq =>
        absurd (slot_inj hi (by decide) (heq.trans (last_eq_slot hcurrent))) (by omega)
      rw [Function.update_of_ne hne, hlines i hi, List.getElem?_cons_succ]
  current := rfl
  back := Nat.zero_le _

theorem historyHolds_first (line : Str) : ∃ history, commandHistoryAdd line none = .ok history
    ∧ HistoryHolds history ⟨[line], 0⟩ :=
  ⟨_, rfl, @historyHolds_push (fun _ => none) _ [] (by decide) (fun _ _ => rfl) line⟩

namespace HistoryHolds

variable {history : CommandHistory} {b : Browser} (h : HistoryHolds history b)

include h

theorem back_lt : b.back < HISTORY_SIZE := by
  have hback := h.back
  simp only [HISTORY_SIZE] at *
  omega

theorem array_last : history.array history.last = b.log.head? := by
  have hlast := h.lines 0 (by decide)
  rwa [Nat.zero_add, ← last_eq_slot h.last_lt, ← List.head?_eq_getElem?] at hlast

theorem showFrom (k n : Nat) (hk : k < HISTORY_SIZE) (hn : k < n) :
    showHistoryFrom history (slot history.last 0) n (slot history.last k)
      = (b.log.take k).reverse := by
  induction n generalizing k with
  | zero => exact absurd hn (Nat.not_lt_zero k)
  | succ n ih =>
    rw [showHistoryFrom]
    cases k with
    | zero => simp
    | succ k =>
      have hne : slot history.last (k + 1) ≠ slot history.last 0 := fun heq =>
        absurd (slot_inj hk (by decide) heq) (Nat.succ_ne_zero k)
      rw [if_neg hne, h.lines k hk, next_slot (by omega), ih k (by omega) (by omega),
        List.take_add_one, List.reverse_append]
      cases b.log[k]? <;> rfl

theorem shows : Shows (some history) b where
  lines := by
    have hshow := h.showFrom (HISTORY_SIZE - 1) HISTORY_SIZE (by decide) (by decide)
    simp only [showHistory, next_last h.last_lt, next_empty]
    exact hshow
  separator := by
    rintro _ ⟨⟩
    rw [next_last h.last_lt]
    exact h.empty
  atEnd := by
    rintro _ ⟨⟩
    rw [next_last h.last_lt, h.current]
    exact ⟨slot_inj h.back_lt (by decide), fun hback => by rw [hback]⟩

/-! ### The operations -/

theorem add (line : Str) : ∃ history', commandHistoryAdd line (some history) = .ok history'
    ∧ HistoryHolds history' (browse b (.add line)).1 := by
  have hsome : b.log.head?.isSome := by
    rw [List.isSome_head?]
    simpa using h.nonempty
  have hassert : Lib.assert (history.array (slot history.last 0) = none) = .ok () :=
    Lib.assert_of h.empty
  simp only [commandHistoryAdd, Option.getD_some, h.array_last, if_pos hsome, next_last h.last_lt,
    hassert, Lib.ok_bind, browse]
  by_cases hsame : b.log.head? = some line
  · rw [if_pos hsame, if_pos hsame]
    exact ⟨_, rfl, h.last_lt, h.nonempty, h.empty, h.lines, rfl, Nat.zero_le _⟩
  · rw [if_neg hsame, if_neg hsame, next_last slot_lt]
    refine ⟨_, rfl, historyHolds_push slot_lt (fun i hi => ?_) line⟩
    rw [slot_slot (by omega)]
    exact h.lines i (by omega)

theorem prev : (commandHistoryPrev (some history)).2 = (browse b .prev).2
    ∧ HistoryInv (commandHistoryPrev (some history)).1 (browse b .prev).1 := by
  have hback := h.back
  simp only [commandHistoryPrev, next_last h.last_lt, next_empty, h.current, browse]
  by_cases hfar : slot history.last b.back = slot history.last (HISTORY_SIZE - 1)
  · -- all slots have been gone through
    have hall := slot_inj h.back_lt (by decide) hfar
    rw [if_pos hfar, if_neg (by omega)]
    exact ⟨rfl, h⟩
  · rw [if_neg hfar, prev_slot h.back_lt]
    have hne : b.back ≠ HISTORY_SIZE - 1 := fun heq => hfar (by rw [heq])
    have hlt := h.back_lt
    rw [h.lines b.back (by omega)]
    by_cases hmore : b.back < b.log.length
    · rw [if_pos (by omega), List.getElem?_eq_getElem hmore]
      exact ⟨rfl, h.last_lt, h.nonempty, h.empty, h.lines, rfl, by dsimp only; omega⟩
    · rw [if_neg (by omega), List.getElem?_eq_none (by omega)]
      exact ⟨rfl, h⟩

theorem next : (commandHistoryNext (some history)).2 = (browse b .next).2
    ∧ HistoryInv (commandHistoryNext (some history)).1 (browse b .next).1 := by
  obtain ⟨log, back⟩ := b
  have hback := h.back
  have hlt := h.back_lt
  simp only [commandHistoryNext, next_last h.last_lt, h.current, browse]
  match back with
  | 0 =>
    rw [if_pos rfl]
    exact ⟨rfl, h⟩
  | 1 =>
    have hne : slot history.last 1 ≠ slot history.last 0 := fun heq =>
      absurd (slot_inj (by decide) (by decide) heq) Nat.one_ne_zero
    have hnext : HISTORY_NEXT (slot history.last 1) = slot history.last 0 := next_slot (by decide)
    rw [if_neg hne, hnext, h.empty, if_pos rfl]
    exact ⟨rfl, h.last_lt, h.nonempty, h.empty, h.lines, rfl, Nat.zero_le _⟩
  | back + 2 =>
    have hne : slot history.last (back + 2) ≠ slot history.last 0 := fun heq =>
      absurd (slot_inj hlt (by decide) heq) (Nat.succ_ne_zero _)
    have hne' : slot history.last (back + 1) ≠ slot history.last 0 := fun heq =>
      absurd (slot_inj (by dsimp only at hlt; omega) (by decide) heq) (Nat.succ_ne_zero _)
    dsimp only at hlt hback
    have hnext : HISTORY_NEXT (slot history.last (back + 2)) = slot history.last (back + 1) :=
      next_slot (by omega)
    rw [if_neg hne, hnext, h.lines back (by omega), if_neg hne']
    have hkept : back < log.length := by omega
    have hline := List.getElem?_eq_getElem hkept
    rw [hline]
    exact ⟨hline.symm, h.last_lt, h.nonempty, h.empty, h.lines, rfl, by dsimp only; omega⟩

end HistoryHolds

/-! ## The result -/

theorem historyInv_run {history : Option CommandHistory} {b : Browser} (h : HistoryInv history b)
    (op : HistoryOp) : ∃ history', op.run history = .ok (history', (browse b op).2)
      ∧ HistoryInv history' (browse b op).1 := by
  cases history with
  | none =>
    cases h
    cases op with
    | add line =>
      obtain ⟨history', hadd, hholds⟩ := historyHolds_first line
      exact ⟨some history', by simp [HistoryOp.run, hadd, browse], hholds⟩
    | prev => exact ⟨none, rfl, rfl⟩
    | next => exact ⟨none, rfl, rfl⟩
  | some history =>
    cases op with
    | add line =>
      obtain ⟨history', hadd, hholds⟩ := HistoryHolds.add h line
      exact ⟨some history', by simp [HistoryOp.run, hadd, browse], hholds⟩
    | prev =>
      obtain ⟨hshown, hinv⟩ := HistoryHolds.prev h
      exact ⟨_, by rw [← hshown]; rfl, hinv⟩
    | next =>
      obtain ⟨hshown, hinv⟩ := HistoryHolds.next h
      exact ⟨_, by rw [← hshown]; rfl, hinv⟩

/-- Before the first line there is nothing to be seen. -/
theorem HistoryInv.shows {history : Option CommandHistory} {b : Browser}
    (h : HistoryInv history b) : Shows history b := by
  cases history with
  | none =>
    cases h
    constructor
    · rfl
    · rintro _ ⟨⟩
    · rintro _ ⟨⟩
  | some history => exact HistoryHolds.shows h

/-- **The ring is the list of the newest lines, with a cursor**, whatever is done. -/
theorem commandHistory_refines (ops : List HistoryOp) :
    Lib.Simulates HistoryOp.run browse Shows none ⟨[], 0⟩ ops := by
  have hinit : HistoryInv none ⟨[], 0⟩ := rfl
  have hinv : Lib.Simulates HistoryOp.run browse HistoryInv none ⟨[], 0⟩ ops :=
    Lib.simulates_of_steps (R := HistoryInv) (fun _ _ op h _ => historyInv_run h op) hinit
      (Lib.allAllowed_true _ _)
  exact hinv.mono fun _ _ h => h.shows

end SdPlane
