import SdPlane.Shell

/-!
# Where words begin (`shell.c`)

To find its way in a line the shell takes a copy apart with `strsep` and looks where the words lie
around a point. Three of the loops are enough: one for the word that the point is in or at the end
of, one for the word before, and one for the word behind. Deleting and moving back by a word goes
by subwords, which a slash ends too; moving on goes by words.

The lemmas say what the loops find in terms of the text before the point and the text behind it,
the characters before it counted from the point on.
-/

set_option autoImplicit false

namespace SdPlane

def SHELL_WORD_DELIMITERS : Str := [' ']

def SHELL_WORD_DELIMITERS_SUB : Str := [' ', '/']

/-- The loop of `shell_word_head`; `word` is a word with its place, `pos` the place of the next. -/
def wordHeadLoop (point : Nat) : Nat → List Str → Nat × Str → Nat × Str
  | _, [], word => word
  | pos, next :: rest, word =>
    if word.1 ≤ point ∧ point < pos then word
    else wordHeadLoop point (pos + next.length + 1) rest (if next ≠ [] then (pos, next) else word)

/-- The loop of `shell_word_prev_head`. -/
def prevHeadLoop (point : Nat) : Nat → List Str → Nat → Nat
  | _, [], prev => prev
  | pos, word :: rest, prev =>
    if pos ≤ point ∧ point ≤ pos + word.length then prev
    else prevHeadLoop point (pos + word.length + 1) rest (if word ≠ [] then pos else prev)

/-- The loop of `shell_word_next_head`, which ends with the word that it comes to when `passed` is
    set, be it empty. -/
def nextHeadLoop (point : Nat) : Nat → List Str → Bool → Option Nat
  | _, [], _ => none
  | pos, word :: rest, passed =>
    if passed then (if word ≠ [] then some pos else none)
    else nextHeadLoop point (pos + word.length + 1) rest
      (decide (pos ≤ point ∧ point ≤ pos + word.length))

section Functions

variable (shell : Shell) (point : Nat)

/-- `shell_terminate (shell); start = strdup (shell->command_line);` -/
def shellDupLine : Except Lib.Crash (Shell × Str) := do
  Lib.assert (point ≤ shell.endp)
  let shell := shellTerminate shell
  let start ← Lib.strRead NUL shell.commandLine shell.size 0
  return (shell, start)

/-- `shell_word_head` and `shell_subword_head`, which differ in the delimiters. -/
def wordHead (delimiters : Str) : Except Lib.Crash (Shell × Nat) := do
  let (shell, start) ← shellDupLine shell point
  let tokens := start.splitOnP (delimiters.contains ·)
  -- the first word has its end when the loop does
  let word := wordHeadLoop point 0 tokens (0, tokens.headD [])
  return (shell, if word.1 + word.2.length < point then point else word.1)

/-- `shell_word_prev_head` and `shell_subword_prev_head`. -/
def prevHead (delimiters : Str) : Except Lib.Crash (Shell × Nat) := do
  let (shell, start) ← shellDupLine shell point
  return (shell, prevHeadLoop point 0 (start.splitOnP (delimiters.contains ·)) 0)

def shellSubwordHead : Except Lib.Crash (Shell × Nat) :=
  wordHead shell point SHELL_WORD_DELIMITERS_SUB

def shellSubwordPrevHead : Except Lib.Crash (Shell × Nat) :=
  prevHead shell point SHELL_WORD_DELIMITERS_SUB

def shellWordNextHead : Except Lib.Crash (Shell × Nat) := do
  let (shell, start) ← shellDupLine shell point
  let tokens := start.splitOnP (SHELL_WORD_DELIMITERS.contains ·)
  return (shell, (nextHeadLoop point 0 tokens false).getD shell.endp)

end Functions

/-- Where a word back from the cursor begins. -/
def backwardStart (shell : Shell) : Except Lib.Crash (Shell × Nat) := do
  let (shell, start) ← shellSubwordHead shell shell.cursor
  if start = shell.cursor then shellSubwordPrevHead shell shell.cursor else return (shell, start)

def shellDeleteWordBackward (shell : Shell) : Except Lib.Crash Shell := do
  let (shell, start) ← backwardStart shell
  shellCut shell start shell.cursor

def shellMoveWordBackward (shell : Shell) : Except Lib.Crash Shell := do
  let (shell, start) ← backwardStart shell
  shellMoveto shell start

def shellMoveWordForward (shell : Shell) : Except Lib.Crash Shell := do
  let (shell, start) ← shellWordNextHead shell shell.cursor
  shellMoveto shell start

/-! ## What the loops find -/

section Loops

variable {delim : Char → Bool}

/-- A text by its words, the last one first. -/
theorem words_induction {motive : Str → Prop}
    (first : ∀ w, (∀ c ∈ w, delim c = false) → motive w)
    (next : ∀ left d w, delim d = true → (∀ c ∈ w, delim c = false) → motive left →
      motive (left ++ d :: w)) (left : Str) : motive left := by
  have hword : ∀ w, (∀ c ∈ w, delim c = false) → motive (left ++ w) := by
    induction left using List.reverseRecOn with
    | nil => exact first
    | append_singleton left c ih =>
      intro w hw
      rw [List.append_assoc]
      cases hc : delim c with
      | true =>
        refine next left c w hc hw ?_
        simpa using ih [] (by simp)
      | false => exact ih (c :: w) (by simpa using ⟨hc, hw⟩)
  simpa using hword [] (by simp)

variable {left right w : Str} {d : Char}

/-- The words of a text that begins with a word. -/
theorem split_first (hd : delim d = true) (hw : ∀ c ∈ w, delim c = false) :
    ((left ++ d :: w).reverse ++ right).splitOnP delim
      = w.reverse :: (left.reverse ++ right).splitOnP delim := by
  have htext : (left ++ d :: w).reverse ++ right = w.reverse ++ d :: (left.reverse ++ right) := by simp
  rw [htext, List.splitOnP_append_cons_of_forall_mem (by simpa using hw) d hd]

/-- The words of a text in whose first word the point is. -/
theorem split_last (hw : ∀ c ∈ w, delim c = false) :
    (w.reverse ++ right).splitOnP delim = (w.reverse ++ right.takeWhile fun c => !delim c) ::
      (match right.dropWhile fun c => !delim c with
        | [] => []
        | _ :: rest => rest.splitOnP delim) := by
  have hsplit := List.takeWhile_append_dropWhile (p := fun c => !delim c) (l := right)
  have hfirst : ∀ c ∈ w.reverse ++ right.takeWhile fun c => !delim c, delim c = false := by
    intro c hc
    rcases List.mem_append.mp hc with hc | hc
    · exact hw c (List.mem_reverse.mp hc)
    · simpa using List.mem_takeWhile_imp hc
  cases hrest : right.dropWhile fun c => !delim c with
  | nil =>
    rw [hrest, List.append_nil] at hsplit
    rw [hsplit] at hfirst
    rw [hsplit, List.splitOnP_eq_singleton hfirst]
  | cons d rest =>
    have hd : delim d = true := by
      have hne : (right.dropWhile fun c => !delim c) ≠ [] := by simp [hrest]
      have hhead := List.head_dropWhile_not (fun c => !delim c) hne
      simpa [hrest] using hhead
    rw [hrest] at hsplit
    conv_lhs => rw [← hsplit, ← List.append_assoc]
    rw [List.splitOnP_append_cons_of_forall_mem hfirst d hd]

theorem takeWhile_word (hw : ∀ c ∈ w, delim c = false) : (w.takeWhile fun c => !delim c) = w := by
  rw [List.takeWhile_eq_self_iff]
  simpa using hw

theorem takeWhile_next (hd : delim d = true) :
    ((left ++ d :: w).takeWhile fun c => !delim c) = left.takeWhile fun c => !delim c := by
  rw [List.takeWhile_append]
  split
  · rename_i hall
    rw [List.takeWhile_cons_of_neg (by simpa using hd), List.append_nil]
    exact (List.IsPrefix.eq_of_length (List.takeWhile_prefix _) hall).symm
  · rfl

theorem dropWhile_next (hd : delim d = true) :
    ((left ++ d :: w).dropWhile fun c => !delim c) = (left.dropWhile fun c => !delim c) ++ d :: w := by
  rw [List.dropWhile_append]
  split
  · rename_i hempty
    rw [List.isEmpty_iff] at hempty
    rw [hempty, List.dropWhile_cons_of_neg (by simpa using hd)]
    rfl
  · rfl

/-- Behind the point the loop has found its word. -/
theorem wordHeadLoop_done {point pos : Nat} {word : Nat × Str} (hle : word.1 ≤ point)
    (hlt : point < pos) (tokens : List Str) : wordHeadLoop point pos tokens word = word := by
  cases tokens with
  | nil => rfl
  | cons next rest => exact if_pos ⟨hle, hlt⟩

/-- The word that the point is in or behind, or the point. -/
theorem wordHeadLoop_eq (left : Str) {pos point : Nat} {word : Nat × Str}
    (hpoint : point = pos + left.length) (hpos : word.1 ≤ pos)
    (hword : word.1 + word.2.length < pos
      ∨ word = (pos, ((left.reverse ++ right).splitOnP delim).headD [])) :
    let found := wordHeadLoop point pos ((left.reverse ++ right).splitOnP delim) word
    (if found.1 + found.2.length < point then point else found.1)
      = point - (left.takeWhile fun c => !delim c).length := by
  induction left using @words_induction delim generalizing pos word with
  | first w hw =>
    rw [split_last hw] at hword ⊢
    rw [takeWhile_word hw]
    have hlen : w.length ≤ (w.reverse ++ right.takeWhile fun c => !delim c).length := by simp
    generalize w.reverse ++ (right.takeWhile fun c => !delim c) = token at *
    rw [wordHeadLoop, if_neg (by omega), wordHeadLoop_done (by split <;> omega) (by omega)]
    by_cases htoken : token = []
    · subst htoken
      rw [List.length_nil, Nat.le_zero] at hlen
      simp only [ne_eq, not_true, if_false]
      rcases hword with hlt | rfl
      · rw [if_pos (by omega)]
        omega
      · rw [if_neg (by simp; omega)]
        dsimp only
        omega
    · simp only [ne_eq, htoken, not_false_iff, if_true]
      rw [if_neg (by omega)]
      omega
  | next left d w hd hw ih =>
    rw [split_first hd hw] at hword ⊢
    rw [takeWhile_next hd]
    have hlen : point = (pos + w.length + 1) + left.length := by
      rw [hpoint]
      simp
      omega
    rw [wordHeadLoop, if_neg (by omega), List.length_reverse]
    refine ih hlen ?_ (.inl ?_)
    · split
      · dsimp only
        omega
      · omega
    · split
      · simp
      · rename_i htoken
        rw [not_not] at htoken
        rcases hword with hlt | rfl
        · omega
        · simp [htoken]

/-- Before the word that the point is in or behind, the last one that is not empty. -/
theorem prevHeadLoop_eq (left : Str) {pos point prev : Nat} (hpoint : point = pos + left.length) :
    prevHeadLoop point pos ((left.reverse ++ right).splitOnP delim) prev
      = (let before := (left.dropWhile fun c => !delim c).dropWhile delim
        if before = [] then prev else pos + (before.dropWhile fun c => !delim c).length) := by
  induction left using @words_induction delim generalizing pos prev with
  | first w hw =>
    have hdrop : (w.dropWhile fun c => !delim c) = [] := by
      rw [List.dropWhile_eq_nil_iff]
      simpa using hw
    have hlen : w.length ≤ (w.reverse ++ right.takeWhile fun c => !delim c).length := by simp
    rw [split_last hw, prevHeadLoop, if_pos (by omega)]
    simp [hdrop]
  | next left d w hd hw ih =>
    have hlen : point = (pos + w.length + 1) + left.length := by
      rw [hpoint]
      simp
      omega
    rw [split_first hd hw, prevHeadLoop, List.length_reverse, if_neg (by omega), ih hlen]
    have hword : w.dropWhile delim = w := by
      cases w with
      | nil => rfl
      | cons c w => exact List.dropWhile_cons_of_neg (by simpa using hw c List.mem_cons_self)
    dsimp only
    rw [dropWhile_next hd, List.dropWhile_append]
    generalize (left.dropWhile fun c => !delim c).dropWhile delim = before
    by_cases hbefore : before = []
    · -- only delimiters lie between
      subst hbefore
      have hall : (w.dropWhile fun c => !delim c) = [] := by
        rw [List.dropWhile_eq_nil_iff]
        simpa using hw
      simp only [List.isEmpty_nil, if_true, List.dropWhile_cons_of_pos hd, hword, hall]
      cases w <;> simp
    · have hmore : before ++ d :: w ≠ [] := by simp
      have hempty : ¬ before.isEmpty := by simpa [List.isEmpty_iff] using hbefore
      rw [if_neg hbefore, if_neg hempty, if_neg hmore, dropWhile_next hd]
      simp
      omega

/-- Behind the word that the point is in or behind, the next one, unless it is empty. -/
theorem nextHeadLoop_eq (left : Str) {pos point : Nat} (hpoint : point = pos + left.length) :
    nextHeadLoop point pos ((left.reverse ++ right).splitOnP delim) false
      = (match right.dropWhile fun c => !delim c with
        | [] => none
        | _ :: rest =>
          if (rest.takeWhile fun c => !delim c) = [] then none
          else some (point + (right.takeWhile fun c => !delim c).length + 1)) := by
  induction left using @words_induction delim generalizing pos with
  | first w hw =>
    rw [split_last hw, nextHeadLoop]
    have hin : pos ≤ point
        ∧ point ≤ pos + (w.reverse ++ right.takeWhile fun c => !delim c).length := by
      rw [hpoint]
      simp
    simp only [Bool.false_eq_true, if_false, decide_eq_true hin]
    cases right.dropWhile fun c => !delim c with
    | nil => rfl
    | cons d rest =>
      have hrest := @split_last delim rest [] (by simp)
      rw [List.reverse_nil, List.nil_append] at hrest
      simp only [hrest, nextHeadLoop, if_true, List.nil_append]
      rw [hpoint]
      simp only [ne_eq, ite_not, List.length_append, List.length_reverse, Nat.add_assoc]
  | next left d w hd hw ih =>
    have hlen : point = (pos + w.length + 1) + left.length := by
      rw [hpoint]
      simp
      omega
    rw [split_first hd hw, nextHeadLoop, List.length_reverse]
    simp only [Bool.false_eq_true, if_false]
    rw [decide_eq_false (by omega)]
    exact ih hlen

end Loops

/-! ## By a word back and forth -/

/-- What ends a subword. -/
def subEnd (c : Char) : Bool := SHELL_WORD_DELIMITERS_SUB.contains c

/-- What ends a word. -/
def wordEnd (c : Char) : Bool := SHELL_WORD_DELIMITERS.contains c

/-- How far back the subword begins that is before the cursor, or behind which the cursor is. -/
def backWord (left : Str) : Nat :=
  (left.takeWhile subEnd).length + ((left.dropWhile subEnd).takeWhile fun c => !subEnd c).length

/-- How far on the next word begins, or the end of the line. -/
def forthWord (right : Str) : Nat :=
  (right.takeWhile fun c => !wordEnd c).length
    + ((right.dropWhile fun c => !wordEnd c).takeWhile wordEnd).length

/-- No word follows, or it follows after a single space. -/
def OneSpace (right : Str) : Prop :=
  ((right.dropWhile fun c => !wordEnd c).dropWhile wordEnd) = []
    ∨ ((right.dropWhile fun c => !wordEnd c).takeWhile wordEnd).length ≤ 1

instance (right : Str) : Decidable (OneSpace right) := inferInstanceAs (Decidable (_ ∨ _))

theorem length_dropWhile (p : Char → Bool) (l : Str) :
    (l.dropWhile p).length = l.length - (l.takeWhile p).length := by
  have hlen := congrArg List.length (List.takeWhile_append_dropWhile (p := p) (l := l))
  rw [List.length_append] at hlen
  omega

theorem backWord_le (left : Str) : backWord left ≤ left.length := by
  have hfirst := length_dropWhile subEnd left
  have hle := (List.takeWhile_prefix (l := left) subEnd).length_le
  have hle' := (List.takeWhile_prefix (l := left.dropWhile subEnd) fun c => !subEnd c).length_le
  rw [backWord]
  omega

theorem forthWord_le (right : Str) : forthWord right ≤ right.length := by
  have hfirst := length_dropWhile (fun c => !wordEnd c) right
  have hle := (List.takeWhile_prefix (l := right) fun c => !wordEnd c).length_le
  have hle' := (List.takeWhile_prefix (l := right.dropWhile fun c => !wordEnd c) wordEnd).length_le
  rw [forthWord]
  omega

theorem forthWord_lt {right : Str} (h : ¬ OneSpace right) : forthWord right < right.length := by
  rw [OneSpace, not_or] at h
  have hpos := List.length_pos_iff.mpr h.1
  have hfirst := length_dropWhile (fun c => !wordEnd c) right
  have hnext := length_dropWhile wordEnd (right.dropWhile fun c => !wordEnd c)
  rw [forthWord]
  omega

/-- Where the loop for the next word stops in front of an empty one, there is none or more than one
    space. -/
theorem nextHead_eq (right : Str) : ((match right.dropWhile fun c => !wordEnd c with
      | [] => none
      | _ :: rest =>
        if (rest.takeWhile fun c => !wordEnd c) = [] then none
        else some ((right.takeWhile fun c => !wordEnd c).length + 1)) : Option Nat).getD right.length
    = if OneSpace right then forthWord right else right.length := by
  have hlen := length_dropWhile (fun c => !wordEnd c) right
  have hle := (List.takeWhile_prefix (l := right) fun c => !wordEnd c).length_le
  by_cases hone : OneSpace right
  · rw [if_pos hone, forthWord]
    rw [OneSpace] at hone
    cases hrest : right.dropWhile fun c => !wordEnd c with
    | nil =>
      rw [hrest, List.length_nil] at hlen
      simp
      omega
    | cons d rest =>
      have hd : wordEnd d = true := by
        have hne : (right.dropWhile fun c => !wordEnd c) ≠ [] := by simp [hrest]
        have hhead := List.head_dropWhile_not (fun c => !wordEnd c) hne
        simpa [hrest] using hhead
      rw [hrest, List.length_cons] at hlen
      rw [hrest, List.dropWhile_cons_of_pos hd, List.takeWhile_cons_of_pos hd, List.length_cons] at hone
      rw [List.takeWhile_cons_of_pos hd, List.length_cons]
      rcases hone with hall | hfew
      · -- nothing but spaces
        have hspaces := length_dropWhile wordEnd rest
        have hspaces' := (List.takeWhile_prefix (l := rest) wordEnd).length_le
        rw [hall, List.length_nil] at hspaces
        have hnone : (rest.takeWhile fun c => !wordEnd c) = [] := by
          cases rest with
          | nil => rfl
          | cons c rest =>
            have hc := List.dropWhile_eq_nil_iff.mp hall c List.mem_cons_self
            simp [hc]
        simp only [if_pos hnone, Option.getD_none]
        omega
      · cases rest with
        | nil =>
          simp only [List.length_nil] at hlen
          simp
          omega
        | cons c rest =>
          have hc : wordEnd c = false := by
            by_contra hc
            simp at hc
            simp [hc] at hfew
          simp [hc]
  · rw [if_neg hone]
    rw [OneSpace, not_or] at hone
    cases hrest : right.dropWhile fun c => !wordEnd c with
    | nil => exact absurd (by rw [hrest]; rfl) hone.1
    | cons d rest =>
      rw [hrest] at hone
      cases rest with
      | nil =>
        have hfew := (List.takeWhile_prefix (l := [d]) wordEnd).length_le
        exact absurd hfew hone.2
      | cons c rest =>
        have hc : wordEnd c = true := by
          by_contra hc
          have hmany := hone.2
          rw [List.takeWhile_cons] at hmany
          split at hmany
          · simp [hc] at hmany
          · simp at hmany
        simp [hc]

namespace LineHolds

variable {shell : Shell} {left right : Str} (h : LineHolds shell left right)

include h

theorem dupLine {point : Nat} (hpoint : point ≤ shell.endp) :
    shellDupLine shell point = .ok (shell, left.reverse ++ right) := by
  have hend := h.endp
  have hroom := h.room
  have hread : Lib.strRead NUL shell.commandLine shell.size 0 = .ok (left.reverse ++ right) := by
    refine Lib.strRead_eq h.lies h.clean ?_ ?_
    · simpa [hend] using h.terminated
    · simpa [hend] using hroom
  simp only [shellDupLine, Lib.assert_of hpoint, Lib.ok_bind, h.terminate, hread, Lib.pure_eq_ok]

theorem subwordHead : shellSubwordHead shell shell.cursor
    = .ok (shell, left.length - (left.takeWhile fun c => !subEnd c).length) := by
  have hcursor := h.cursor
  have hend := h.endp
  have hloop := @wordHeadLoop_eq subEnd right left 0 shell.cursor
    (0, ((left.reverse ++ right).splitOnP subEnd).headD []) (by omega) le_rfl (.inr rfl)
  rw [shellSubwordHead, wordHead, h.dupLine (by omega)]
  simp only [Lib.ok_bind, Lib.pure_eq_ok]
  rw [← hcursor, ← hloop]
  rfl

theorem subwordPrevHead : shellSubwordPrevHead shell shell.cursor
    = .ok (shell, (((left.dropWhile fun c => !subEnd c).dropWhile subEnd).dropWhile
      fun c => !subEnd c).length) := by
  have hcursor := h.cursor
  have hend := h.endp
  have hloop := @prevHeadLoop_eq subEnd right left 0 shell.cursor 0 (by omega)
  rw [shellSubwordPrevHead, prevHead, h.dupLine (by omega)]
  simp only [Lib.ok_bind, Lib.pure_eq_ok]
  show Except.ok (shell, prevHeadLoop shell.cursor 0 ((left.reverse ++ right).splitOnP subEnd) 0) = _
  rw [hloop]
  dsimp only
  split
  · rename_i hnone
    rw [hnone]
    rfl
  · rw [Nat.zero_add]

theorem backwardStart : backwardStart shell = .ok (shell, left.length - backWord left) := by
  have hcursor := h.cursor
  have hsub := h.subwordHead
  rw [hcursor] at hsub
  simp only [SdPlane.backwardStart, hcursor, hsub, Lib.ok_bind, Lib.pure_eq_ok]
  have hle := (List.takeWhile_prefix (l := left) fun c => !subEnd c).length_le
  by_cases hin : (left.takeWhile fun c => !subEnd c) = []
  · -- behind a delimiter, or at the beginning
    have hdrop : (left.dropWhile fun c => !subEnd c) = left := by
      have hsplit := List.takeWhile_append_dropWhile (p := fun c => !subEnd c) (l := left)
      rwa [hin, List.nil_append] at hsplit
    have hfirst := length_dropWhile subEnd left
    have hrest := length_dropWhile (fun c => !subEnd c) (left.dropWhile subEnd)
    have hprev := h.subwordPrevHead
    rw [hcursor] at hprev
    simp only [hin, List.length_nil, Nat.sub_zero, if_true, hprev, hdrop]
    rw [hrest, hfirst, backWord, Nat.sub_sub]
  · have hpos := List.length_pos_iff.mpr hin
    have hhead : left.takeWhile subEnd = [] ∧ left.dropWhile subEnd = left := by
      cases left with
      | nil => simp at hin
      | cons c left =>
        have hc : subEnd c = false := by
          by_contra hc
          simp at hc
          simp [hc] at hin
        simp [hc]
    rw [backWord, hhead.1, hhead.2, List.length_nil, Nat.zero_add, if_neg (by omega)]

theorem wordNextHead : shellWordNextHead shell shell.cursor
    = .ok (shell, left.length + if OneSpace right then forthWord right else right.length) := by
  have hcursor := h.cursor
  have hend := h.endp
  have hloop := @nextHeadLoop_eq wordEnd right left 0 shell.cursor (by omega)
  rw [shellWordNextHead, h.dupLine (by omega)]
  simp only [Lib.ok_bind, Lib.pure_eq_ok]
  show Except.ok (shell, (nextHeadLoop shell.cursor 0 ((left.reverse ++ right).splitOnP wordEnd)
    false).getD shell.endp) = _
  rw [hloop, ← nextHead_eq, hcursor, hend]
  cases right.dropWhile fun c => !wordEnd c with
  | nil => rfl
  | cons d rest =>
    dsimp only
    split
    · rfl
    · simp [Nat.add_assoc]

end LineHolds

end SdPlane
