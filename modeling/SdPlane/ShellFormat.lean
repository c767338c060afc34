import SdPlane.Lib.Loop
import SdPlane.Shell

/-!
# Superfluous spaces (`shell.c`, `command.c`)

A line is freed of its superfluous spaces three times in the same way: `shell_format` does it to the
line of a shell while it is edited, `shell_format2` before the line is executed, and `shell_format3`
to a string. All count the spaces in a row; a space goes if it is not the first one that is
counted, or at the very beginning.

What they are for is `squeeze`: a space goes if it follows a space, or nothing.
`shellFormat2_shellFormat3` says that they agree, what the line that comes out looks like, and that
the cursor stays between the characters where it was.
-/

set_option autoImplicit false

namespace SdPlane

/-- What the loop of `shell_format2` keeps. -/
structure Formatted where
  commandLine : Nat → Char
  cursor : Nat
  endp : Nat
  count : Nat

/-- A round of the loop. -/
def shellFormatStep (shell : Shell) (i : Nat) (f : Formatted) : Formatted :=
  let c := shell.commandLine i
  let count := if c = ' ' then f.count + 1 else f.count
  -- omit redundant spaces
  if c = ' ' ∧ 1 < count then { f with count }
  -- omit even first space if it is the beginning of the line
  else if c = ' ' ∧ i = 0 then { f with count }
  else {
    commandLine := Function.update f.commandLine f.endp c
    endp := f.endp + 1
    cursor := if i < shell.cursor then f.cursor + 1 else f.cursor
    count := if c ≠ ' ' then 0 else count }

/-- There is memory for the new line. A character is never written behind the place where it is
    read. -/
def shellFormat2 (shell : Shell) : Except Lib.Crash Shell := do
  shell.span 0 shell.endp
  let zero := fun i => if i < shell.size then NUL else shell.commandLine i
  let f := Lib.forUpTo shell.endp (shellFormatStep shell) ⟨zero, 0, 0, 0⟩
  return { shell with commandLine := f.commandLine, cursor := f.cursor, endp := f.endp }

/-- The same, and the line is written to the terminal again. -/
def shellFormat (shell : Shell) : Except Lib.Crash Shell := shellFormat2 shell

/-! ## What it is for -/

/-- Without the spaces that follow a space; `last` is what comes before. -/
def squeeze (last : Char) : Str → Str
  | [] => []
  | c :: line => if c = ' ' ∧ last = ' ' then squeeze c line else c :: squeeze c line

/-- Character `i` is none of the superfluous spaces. -/
def Kept (text : Str) (i : Nat) : Prop := text[i]? = some ' ' → 0 < i ∧ text[i - 1]? ≠ some ' '

instance (text : Str) (i : Nat) : Decidable (Kept text i) := inferInstanceAs (Decidable (_ → _))

/-- The line that comes out. -/
structure Normalised (line line' : Str) : Prop where
  head : line'.head? ≠ some ' '
  single : line'.IsChain fun c d => ¬ (c = ' ' ∧ d = ' ')
  words : (words line').filter (· ≠ []) = (words line).filter (· ≠ [])
  last : line'.getLast? = some ' ' ↔ line.getLast? = some ' ' ∧ ∃ c, c ∈ line ∧ c ≠ ' '

/-! ## Squeezing -/

section Squeeze

variable {last c : Char} {line : Str}

theorem squeeze_space : squeeze ' ' (' ' :: line) = squeeze ' ' line := if_pos ⟨rfl, rfl⟩

theorem squeeze_cons (h : ¬ (c = ' ' ∧ last = ' ')) : squeeze last (c :: line) = c :: squeeze c line :=
  if_neg h

theorem squeeze_append (line' : Str) :
    squeeze last (line ++ line') = squeeze last line ++ squeeze (line.getLastD last) line' := by
  induction line generalizing last with
  | nil => rfl
  | cons c line ih =>
    rw [List.cons_append, List.getLastD_cons]
    by_cases h : c = ' ' ∧ last = ' '
    · simp only [squeeze, if_pos h, ih]
    · simp only [squeeze, if_neg h, ih, List.cons_append]

/-- What is kept of the beginning of a line is the beginning of what is kept. -/
theorem take_squeeze (n : Nat) : (squeeze last line).take (squeeze last (line.take n)).length
    = squeeze last (line.take n) := by
  have happend := @squeeze_append last (line.take n) (line.drop n)
  rw [List.take_append_drop] at happend
  rw [happend, List.take_left]

theorem squeeze_length_le : (squeeze last line).length ≤ line.length := by
  induction line generalizing last with
  | nil => simp [squeeze]
  | cons c line ih =>
    by_cases h : c = ' ' ∧ last = ' '
    · simpa only [squeeze, if_pos h, List.length_cons] using Nat.le_succ_of_le ih
    · simpa only [squeeze, if_neg h, List.length_cons] using Nat.succ_le_succ ih

theorem mem_of_mem_squeeze {d : Char} (h : d ∈ squeeze last line) : d ∈ line := by
  induction line generalizing last with
  | nil => exact h
  | cons c line ih =>
    by_cases hc : c = ' ' ∧ last = ' '
    · rw [squeeze, if_pos hc] at h
      exact List.mem_cons_of_mem c (ih h)
    · rw [squeeze_cons hc, List.mem_cons] at h
      rcases h with rfl | h
      · exact List.mem_cons_self
      · exact List.mem_cons_of_mem c (ih h)

theorem squeeze_head : (squeeze ' ' line).head? ≠ some ' ' := by
  induction line with
  | nil => simp [squeeze]
  | cons c line ih =>
    by_cases h : c = ' '
    · rw [h, squeeze_space]
      exact ih
    · rw [squeeze_cons fun hc => h hc.1]
      simpa using h

/-- Behind a space there is no space. -/
theorem squeeze_isChain : (last :: squeeze last line).IsChain fun c d => ¬ (c = ' ' ∧ d = ' ') := by
  induction line generalizing last with
  | nil => exact List.isChain_singleton _
  | cons c line ih =>
    by_cases h : c = ' ' ∧ last = ' '
    · obtain ⟨rfl, rfl⟩ := h
      rw [squeeze_space]
      exact ih
    · rw [squeeze_cons h]
      exact List.isChain_cons_cons.mpr ⟨fun hc => h hc.symm, ih⟩

/-- There is nothing more to take out. -/
theorem squeeze_of_isChain (h : (last :: line).IsChain fun c d => ¬ (c = ' ' ∧ d = ' ')) :
    squeeze last line = line := by
  induction line generalizing last with
  | nil => rfl
  | cons c line ih =>
    obtain ⟨hc, hrest⟩ := List.isChain_cons_cons.mp h
    rw [squeeze_cons fun hsp => hc hsp.symm, ih hrest]

theorem squeeze_squeeze : squeeze last (squeeze last line) = squeeze last line :=
  squeeze_of_isChain squeeze_isChain

theorem squeeze_last : (squeeze ' ' line).getLast? = some ' '
    ↔ line.getLast? = some ' ' ∧ ∃ c, c ∈ line ∧ c ≠ ' ' := by
  induction line using List.reverseRecOn with
  | nil => simp [squeeze]
  | append_singleton line c ih =>
    rw [squeeze_append, List.getLast?_concat, Option.some.injEq]
    by_cases hc : c = ' '
    · subst hc
      cases hlast : line.getLast? with
      | none =>
        rw [List.getLast?_eq_none_iff] at hlast
        simp [hlast, squeeze]
      | some d =>
        have hd : line.getLastD ' ' = d := by rw [List.getLastD_eq_getLast?, hlast]; rfl
        by_cases hsp : d = ' '
        · -- one more space at the end
          rw [hd, hsp, squeeze_space]
          simp only [squeeze, List.append_nil, ih, hlast, hsp, true_and]
          simp
        · have hmem := List.mem_of_getLast? hlast
          rw [hd, squeeze_cons fun h => hsp h.2]
          simp only [squeeze, List.getLast?_concat, true_and, true_iff]
          exact ⟨d, List.mem_append_left _ hmem, hsp⟩
    · rw [squeeze_cons fun h => hc h.1]
      simpa [squeeze] using fun h => absurd h hc

/-- The words that are not empty stay; behind a character other than a space, so does the first. -/
theorem squeeze_words (line : Str) :
    ((words (squeeze ' ' line)).filter (· ≠ []) = (words line).filter (· ≠ []))
    ∧ ∀ last, last ≠ ' ' → ∃ first rest rest', words line = first :: rest
        ∧ words (squeeze last line) = first :: rest'
        ∧ rest'.filter (· ≠ []) = rest.filter (· ≠ []) := by
  induction line with
  | nil => exact ⟨rfl, fun last _ => ⟨[], [], [], rfl, rfl, rfl⟩⟩
  | cons c line ih =>
    have hsplit : ∀ l, words (c :: l)
        = if c = ' ' then [] :: words l else (words l).modifyHead (c :: ·) := fun l => by
      rw [words, List.splitOn_cons_eq_if_modifyHead]
      simp only [beq_iff_eq]
      rfl
    by_cases hc : c = ' '
    · subst hc
      rw [squeeze_space, hsplit]
      refine ⟨by simpa using ih.1, fun last hlast => ?_⟩
      rw [squeeze_cons fun h => hlast h.2, hsplit]
      exact ⟨[], _, _, if_pos rfl, if_pos rfl, ih.1⟩
    · obtain ⟨first, rest, rest', hline, hsqueezed, hrest⟩ := ih.2 c hc
      have hboth : ∀ last, words (squeeze last (c :: line)) = (c :: first) :: rest' := fun last => by
        rw [squeeze_cons fun h => hc h.1, hsplit, if_neg hc, hsqueezed]
        rfl
      have hown : words (c :: line) = (c :: first) :: rest := by
        rw [hsplit, if_neg hc, hline]
        rfl
      refine ⟨?_, fun last _ => ⟨c :: first, rest, rest', hown, hboth last, hrest⟩⟩
      rw [hboth, hown]
      simpa using hrest

theorem normalised_squeeze (line : Str) : Normalised line (squeeze ' ' line) where
  head := squeeze_head
  single := squeeze_isChain.tail
  words := (squeeze_words line).1
  last := squeeze_last

/-- The characters that are kept. -/
theorem squeeze_take (text : Str) (n : Nat) (hn : n ≤ text.length) :
    (squeeze ' ' (text.take n)).map some
      = ((List.range n).filter fun i => Kept text i).map (text[·]?) := by
  induction n with
  | zero => rfl
  | succ n ih =>
    have hlt : n < text.length := hn
    rw [List.take_add_one, List.getElem?_eq_getElem hlt, Option.toList_some, squeeze_append,
      List.map_append, ih (by omega), List.range_succ, List.filter_append, List.map_append]
    congr 1
    have hlast : (text.take n).getLastD ' ' = ' ' ↔ n = 0 ∨ text[n - 1]? = some ' ' := by
      cases n with
      | zero => simp
      | succ n =>
        have hn' : n < text.length := by omega
        rw [List.take_add_one, List.getElem?_eq_getElem hn', Option.toList_some, List.getLastD_concat]
        simp [List.getElem?_eq_getElem hn']
    by_cases hkept : Kept text n
    · rw [List.filter_cons_of_pos (by simpa using hkept), squeeze_cons]
      · simp [squeeze, List.getElem?_eq_getElem hlt]
      · rintro ⟨hsp, hbefore⟩
        obtain ⟨hpos, hne⟩ := hkept (by rw [List.getElem?_eq_getElem hlt, hsp])
        rcases hlast.mp hbefore with h0 | h0
        · omega
        · exact hne h0
    · rw [List.filter_cons_of_neg (by simpa using hkept)]
      simp only [Kept, Classical.not_imp, List.getElem?_eq_getElem hlt, Option.some.injEq] at hkept
      obtain ⟨hsp, hbefore⟩ := hkept
      have hspace : (text.take n).getLastD ' ' = ' ' := by
        rw [hlast]
        by_contra hnot
        rw [not_or] at hnot
        exact hbefore ⟨Nat.pos_of_ne_zero hnot.1, hnot.2⟩
      rw [hsp, hspace, squeeze_space]
      rfl

end Squeeze

/-! ## The loops squeeze -/

theorem shellFormat3From_eq {first : Bool} {count : Nat} {last : Char} (line : Str)
    (hlast : last = ' ' ↔ 0 < count ∨ first = true) :
    shellFormat3From first count line = squeeze last line := by
  induction line generalizing first count last with
  | nil => rfl
  | cons c line ih =>
    by_cases hc : c = ' '
    · subst hc
      have hnext : shellFormat3From false (count + 1) line = squeeze ' ' line := ih (by simp)
      by_cases hsp : last = ' '
      · rw [hsp, squeeze_space]
        simp only [shellFormat3From, if_true, true_and]
        by_cases hcount : 0 < count
        · rw [if_pos (by omega)]
          exact hnext
        · rw [if_neg (by omega), if_pos ((hlast.mp hsp).resolve_left hcount)]
          exact hnext
      · rw [squeeze_cons fun h => hsp h.2]
        have hnot := mt hlast.mpr hsp
        rw [not_or] at hnot
        simp only [shellFormat3From, if_true, true_and, ne_eq, not_true, if_false]
        rw [if_neg (by omega), if_neg hnot.2, hnext]
    · have hnext : shellFormat3From false 0 line = squeeze c line := ih (by simpa using hc)
      rw [squeeze_cons fun h => hc h.1]
      simp only [shellFormat3From, hc, false_and, if_false, ne_eq, not_false_iff, if_true,
        hnext]

theorem shellFormat3_eq (line : Str) : shellFormat3 line = squeeze ' ' line :=
  shellFormat3From_eq line (by simp)

/-- What the loop has got to when it comes to character `i`. -/
structure FormatsTo (shell : Shell) (zero : Nat → Char) (text : Str) (i : Nat) (f : Formatted) :
    Prop where
  lies : Lib.Lies f.commandLine 0 (squeeze ' ' (text.take i))
  endp : f.endp = (squeeze ' ' (text.take i)).length
  cursor : f.cursor = (squeeze ' ' (text.take (min i shell.cursor))).length
  count : (0 < f.count ∨ i = 0) ↔ (text.take i).getLastD ' ' = ' '
  behind : ∀ j, f.endp ≤ j → f.commandLine j = zero j

theorem formatsTo_step {shell : Shell} {zero : Nat → Char} {text : Str} {i : Nat} {f : Formatted}
    (hlies : Lib.Lies shell.commandLine 0 text) (hi : i < text.length)
    (h : FormatsTo shell zero text i f) :
    FormatsTo shell zero text (i + 1) (shellFormatStep shell i f) := by
  have hc : shell.commandLine i = text[i] := by
    have hget := hlies.getElem hi
    rwa [Nat.zero_add] at hget
  have htake : text.take (i + 1) = text.take i ++ [text[i]] := by
    rw [List.take_add_one, List.getElem?_eq_getElem hi, Option.toList_some]
  have hlast : (text.take (i + 1)).getLastD ' ' = text[i] := by rw [htake, List.getLastD_concat]
  by_cases hdrop : text[i] = ' ' ∧ (text.take i).getLastD ' ' = ' '
  · -- the character goes
    have hsame : squeeze ' ' (text.take (i + 1)) = squeeze ' ' (text.take i) := by
      rw [htake, squeeze_append, hdrop.1, hdrop.2, squeeze_space]
      exact List.append_nil _
    have hstep : shellFormatStep shell i f = { f with count := f.count + 1 } := by
      simp only [shellFormatStep, hc, hdrop.1, if_true, true_and]
      by_cases hcount : 0 < f.count
      · rw [if_pos (by omega)]
      · rw [if_neg (by omega), if_pos ((h.count.mpr hdrop.2).resolve_left hcount)]
    rw [hstep]
    refine ⟨by rw [hsame]; exact h.lies, by rw [hsame]; exact h.endp, ?_, ?_, h.behind⟩
    · rcases Nat.lt_or_ge i shell.cursor with hlt | hge
      · rw [Nat.min_eq_left hlt, hsame, ← Nat.min_eq_left hlt.le]
        exact h.cursor
      · rw [Nat.min_eq_right (by omega), ← Nat.min_eq_right hge]
        exact h.cursor
    · rw [hlast, hdrop.1]
      simp
  · have hmore : squeeze ' ' (text.take (i + 1)) = squeeze ' ' (text.take i) ++ [text[i]] := by
      rw [htake, squeeze_append, squeeze_cons hdrop]
      rfl
    have hkeep : shellFormatStep shell i f = {
        commandLine := Function.update f.commandLine f.endp text[i]
        endp := f.endp + 1
        cursor := if i < shell.cursor then f.cursor + 1 else f.cursor
        count := if text[i] ≠ ' ' then 0 else f.count + 1 } := by
      by_cases hsp : text[i] = ' '
      · have hnot := mt h.count.mp fun heq => hdrop ⟨hsp, heq⟩
        rw [not_or] at hnot
        simp only [shellFormatStep, hc, hsp, if_true, true_and]
        rw [if_neg (by omega), if_neg hnot.2]
      · simp only [shellFormatStep, hc, hsp, false_and, if_false, ne_eq, not_false_iff, if_true]
    rw [hkeep]
    constructor
    · rw [hmore, Lib.lies_append, Nat.zero_add, ← h.endp]
      exact ⟨h.lies.update (.inr (by rw [h.endp, Nat.zero_add])), Function.update_self .., trivial⟩
    · rw [hmore, List.length_append, ← h.endp]
      rfl
    · rcases Nat.lt_or_ge i shell.cursor with hlt | hge
      · have hcursor := h.cursor
        rw [Nat.min_eq_left hlt.le] at hcursor
        rw [Nat.min_eq_left hlt, hmore, List.length_append, ← hcursor, if_pos hlt]
        rfl
      · rw [Nat.min_eq_right (by omega), if_neg (by omega), ← Nat.min_eq_right hge]
        exact h.cursor
    · rw [hlast]
      by_cases hsp : text[i] = ' '
      · simp [hsp]
      · simp [hsp]
    · intro j hj
      dsimp only at hj ⊢
      rw [Function.update_of_ne (by omega)]
      exact h.behind j (by omega)

theorem shellFormat2_eq (shell : Shell) (hroom : shell.endp ≤ shell.size) :
    ∃ commandLine, shellFormat2 shell = .ok { shell with
        commandLine
        cursor := (squeeze ' ' (shell.text.take shell.cursor)).length
        endp := (squeeze ' ' shell.text).length }
      ∧ Lib.Lies commandLine 0 (squeeze ' ' shell.text)
      ∧ ∀ j, (squeeze ' ' shell.text).length ≤ j →
          commandLine j = if j < shell.size then NUL else shell.commandLine j := by
  have hlen : shell.text.length = shell.endp := by simp [Shell.text]
  have hlies : Lib.Lies shell.commandLine 0 shell.text := Lib.lies_slice
  have hloop := Lib.forUpTo_rule (n := shell.endp)
    (FormatsTo shell (fun i => if i < shell.size then NUL else shell.commandLine i) shell.text)
    (s := ⟨fun i => if i < shell.size then NUL else shell.commandLine i, 0, 0, 0⟩)
    ⟨trivial, rfl, by simp [squeeze], by simp, fun _ _ => rfl⟩
    (fun i f hi hf => formatsTo_step hlies (by omega) hf)
  have htake : shell.text.take shell.endp = shell.text := List.take_of_length_le hlen.le
  have hmin : shell.text.take (min shell.endp shell.cursor) = shell.text.take shell.cursor := by
    rw [List.take_eq_take_min (i := shell.cursor), hlen, Nat.min_comm]
  refine ⟨_, ?_, htake ▸ hloop.lies, fun j hj => hloop.behind j ?_⟩
  · rw [shellFormat2, span_of_le ⟨Nat.zero_le _, hroom⟩, Lib.ok_bind]
    simp only [hloop.endp, hloop.cursor, htake, hmin, Lib.pure_eq_ok]
  · rw [hloop.endp, htake]
    exact hj

/-- **The two filters agree**, and what comes out is the line without superfluous spaces. -/
theorem shellFormat2_shellFormat3 (shell : Shell) (hcursor : shell.cursor ≤ shell.endp)
    (hroom : shell.endp ≤ shell.size) : ∃ shell', shellFormat2 shell = .ok shell'
      ∧ shell'.text = shellFormat3 shell.text
      ∧ Normalised shell.text shell'.text
      ∧ shellFormat3 shell'.text = shell'.text
      ∧ shellFormat2 shell' = .ok shell'
      ∧ shell'.text.map some
        = ((List.range shell.endp).filter fun i => Kept shell.text i).map (shell.text[·]?)
      ∧ shell'.cursor = ((List.range shell.cursor).filter fun i => Kept shell.text i).length := by
  have hlen : shell.text.length = shell.endp := by simp [Shell.text]
  obtain ⟨commandLine, hrun, hlies, hbehind⟩ := shellFormat2_eq shell hroom
  have hle : (squeeze ' ' shell.text).length ≤ shell.size :=
    squeeze_length_le.trans (hlen.le.trans hroom)
  have hkept := squeeze_take shell.text shell.endp hlen.ge
  have hbefore := squeeze_take shell.text shell.cursor (hlen ▸ hcursor)
  rw [List.take_of_length_le hlen.le] at hkept
  generalize shell.text = text at *
  -- what has come out
  let shell' := { shell with
    commandLine
    cursor := (squeeze ' ' (text.take shell.cursor)).length
    endp := (squeeze ' ' text).length }
  have htext : shell'.text = squeeze ' ' text := hlies.slice_eq
  refine ⟨shell', hrun, ?_, ?_, ?_, ?_, ?_, ?_⟩
  · rw [htext, shellFormat3_eq]
  · rw [htext]
    exact normalised_squeeze _
  · rw [htext, shellFormat3_eq, squeeze_squeeze]
  · -- doing it again
    obtain ⟨commandLine', hrun', hlies', hbehind'⟩ := shellFormat2_eq shell' hle
    rw [htext, squeeze_squeeze] at hrun' hlies' hbehind'
    have hsame : commandLine' = commandLine := by
      funext j
      rcases Nat.lt_or_ge j (squeeze ' ' text).length with hlt | hge
      · rw [← Nat.zero_add j, hlies.getElem hlt, hlies'.getElem hlt]
      · rw [hbehind' j hge]
        show (if j < shell.size then NUL else commandLine j) = commandLine j
        rw [hbehind j hge]
        split <;> rfl
    have htake : (squeeze ' ' ((squeeze ' ' text).take shell'.cursor)).length = shell'.cursor := by
      have hfirst := @take_squeeze ' ' text shell.cursor
      rw [hfirst, squeeze_squeeze]
    rw [hrun', hsame, htake]
  · rw [htext]
    exact hkept
  · simpa only [List.length_map] using congrArg List.length hbefore

/-- Two spaces before a word and one behind it. -/
def spacedShell : Shell :=
  { shellCreate (fun _ => NUL) 1 with
    commandLine := Lib.memcpy (fun _ => NUL) 0 "  ip ".toList, cursor := 3, endp := 5 }

theorem shellFormat2_spaced : ∃ shell', shellFormat2 spacedShell = .ok shell'
    ∧ shell'.text = "ip ".toList ∧ shell'.cursor = 1 := by
  obtain ⟨shell', hrun, htext, -, -, -, -, hcursor⟩ :=
    shellFormat2_shellFormat3 spacedShell (by decide) (by decide)
  exact ⟨shell', hrun, htext.trans (by decide), hcursor.trans (by decide)⟩

end SdPlane
