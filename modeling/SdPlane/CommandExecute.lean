import SdPlane.CommandOrder
import SdPlane.ShellFormat
import SdPlane.Lib.Strstr

/-!
# The arguments of a command (`command.c`)

`command_execute` goes down the tree with the words of a command line and calls the function of the
node that it comes to, with an argument for every word. `command_matched_nodes` does the same for
those that only want to know; it is given the words without the superfluous spaces.

A `<LINE>` takes all that is left of the line, from its word on, and that is looked for by `strstr`
in the whole line. `lineArgument_iff` says when it is found: when the word is in none of the words
before it. With `set nettlp payload-string p` the payload is `p payload-string p`.
-/

set_option autoImplicit false

namespace SdPlane

variable {F : Type} (host : Host)

/-- `command_replace`. -/
def commandReplace (cmd : CommandNode F) (word : Str) : Str :=
  if fileSpec cmd.key then host.fileReplace word
  else if !isMatchVariable host cmd.key word then cmd.key
  else word

/-- The loop of `command_matched_nodes`: `cmdnodes` and `argv`, from a word on. -/
def matchedFrom (commandLine : Str) :
    List Str → CommandNode F → List (Option (CommandNode F) × Option Str)
  | [], _ => []
  | word :: rest, parent =>
    match matchUniqueExact host parent word with
    | none => (word :: rest).map fun word => (none, some word)
    | some node =>
      if lineSpec node.key then
        (some node, Lib.strstr word commandLine) :: rest.map fun word => (none, some word)
      else (some node, some (commandReplace host node word)) :: matchedFrom commandLine rest node

/-- `command_matched_nodes`, for the words that `command_argv_parse` makes of the line. -/
def commandMatchedNodes (commandLine : Str) (root : CommandNode F) :
    List (Option (CommandNode F) × Option Str) :=
  matchedFrom host commandLine (commandArgvParse commandLine) root

/-- The loop of `command_execute`: `match`, and `argv` from a word on. -/
def executeFrom (commandLine : Str) : List Str → CommandNode F → Option (CommandNode F) →
    Option (CommandNode F) × List (Option Str)
  | [], _, found => (found, [])
  | word :: rest, parent, found =>
    -- prevent execution completing NULL word
    if word = [] then (found, [])
    else match matchUniqueExact host parent word with
      | none => (none, [])
      | some node =>
        if lineSpec node.key || fileSpec node.key then (some node, [Lib.strstr word commandLine])
        else
          let (found, argv) := executeFrom commandLine rest node (some node)
          (found, some (commandReplace host node word) :: argv)

/-- The function that `command_execute` calls and what for; `none` is `CMD_NOT_FOUND`. -/
def commandExecute (commandLine : Str) (root : CommandNode F) : Option (F × List (Option Str)) :=
  let (found, argv) := executeFrom host commandLine (words commandLine) root none
  (found.bind (·.val.func)).map fun func => (func, argv)

/-! ## What they are for -/

/-- The node for word `k`; behind a node that is `last` no word has one. -/
def wordNode (last : Str → Bool) : CommandNode F → List Str → Nat → Option (CommandNode F)
  | _, [], _ => none
  | parent, word :: rest, k =>
    (matchUniqueExact host parent word).bind fun node =>
      match k with
      | 0 => some node
      | k + 1 => if last node.key then none else wordNode last node rest k

/-- The command line from word `k` on. -/
def lineFrom : Nat → Str → Str
  | 0, line => line.dropWhile (· = ' ')
  | k + 1, line => lineFrom k ((line.dropWhile (· = ' ')).dropWhile (· ≠ ' '))

def wordAt (k : Nat) (line : Str) : Str := (lineFrom k line).takeWhile (· ≠ ' ')

/-- Word `k` is not empty, and its text is in none of the words before. -/
def NotBefore (ws : List Str) (k : Nat) : Prop :=
  ∀ word, ws[k]? = some word → word ≠ [] ∧ ∀ w ∈ ws.take k, ¬ word <:+: w

/-! ## The words of a line -/

variable {line word : Str}

theorem lineFrom_space (k : Nat) (line : Str) : lineFrom k (' ' :: line) = lineFrom k line := by
  cases k with
  | zero => simp [lineFrom]
  | succ k => simp [lineFrom]

theorem lineFrom_suffix (k : Nat) : ∀ line, lineFrom k line <:+ line := by
  induction k with
  | zero => exact fun line => List.dropWhile_suffix _
  | succ k ih =>
    intro line
    exact (ih _).trans ((List.dropWhile_suffix _).trans (List.dropWhile_suffix _))

theorem lineFrom_head (k : Nat) : ∀ line, (lineFrom k line).head? ≠ some ' ' := by
  induction k with
  | zero =>
    intro line hspace
    have hnot := List.head?_dropWhile_not (· = ' ') line
    rw [lineFrom] at hspace
    rw [hspace] at hnot
    simp at hnot
  | succ k ih => exact fun line => ih _

theorem space_of_dropWhile {c : Char} {rest : Str} (h : line.dropWhile (· ≠ ' ') = c :: rest) :
    c = ' ' := by
  have hhead := List.head?_dropWhile_not (· ≠ ' ') line
  rw [h] at hhead
  simpa using hhead

theorem space_notMem_takeWhile (line : Str) : ' ' ∉ line.takeWhile (· ≠ ' ') := by
  intro hmem
  have hne := List.mem_takeWhile_imp hmem
  simp at hne

/-- The first word, and what is behind it. -/
theorem words_eq (line : Str) : words line = line.takeWhile (· ≠ ' ') ::
    (match line.dropWhile (· ≠ ' ') with
      | [] => []
      | _ :: rest => words rest) := by
  have hsplit := @List.takeWhile_append_dropWhile _ (· ≠ ' ') line
  have hword := space_notMem_takeWhile line
  cases hrest : line.dropWhile (· ≠ ' ') with
  | nil =>
    rw [hrest, List.append_nil] at hsplit
    rw [hsplit] at hword ⊢
    exact List.splitOn_eq_singleton hword
  | cons c rest =>
    obtain rfl := space_of_dropWhile hrest
    rw [hrest] at hsplit
    conv_lhs => rw [← hsplit]
    exact List.splitOn_append_cons_self_of_not_mem hword rest

theorem squeeze_word {last : Char} (h : ' ' ∉ word) : squeeze last word = word := by
  induction word generalizing last with
  | nil => rfl
  | cons c word ih =>
    rw [List.mem_cons, not_or] at h
    rw [squeeze_cons fun hc => h.1 hc.1.symm, ih h.2]

theorem squeeze_dropWhile (line : Str) : squeeze ' ' (line.dropWhile (· = ' ')) = squeeze ' ' line := by
  induction line with
  | nil => rfl
  | cons c line ih =>
    by_cases hc : c = ' '
    · subst hc
      rw [squeeze_space, ← ih]
      simp
    · rw [List.dropWhile_cons_of_neg (by simpa using hc)]

/-- The same for the words of `command_argv_parse`. -/
theorem commandArgvParse_eq (line : Str) : commandArgvParse line = wordAt 0 line ::
    (match (line.dropWhile (· = ' ')).dropWhile (· ≠ ' ') with
      | [] => []
      | _ :: rest => commandArgvParse rest) := by
  have hhead := lineFrom_head 0 line
  rw [commandArgvParse, shellFormat3_eq, ← squeeze_dropWhile, wordAt]
  simp only [lineFrom] at hhead ⊢
  generalize line.dropWhile (· = ' ') = l at *
  have hsplit := @List.takeWhile_append_dropWhile _ (· ≠ ' ') l
  have hword := space_notMem_takeWhile l
  cases hrest : l.dropWhile (· ≠ ' ') with
  | nil =>
    rw [hrest, List.append_nil] at hsplit
    rw [hsplit] at hword ⊢
    rw [squeeze_word hword]
    exact List.splitOn_eq_singleton hword
  | cons c rest =>
    obtain rfl := space_of_dropWhile hrest
    rw [hrest] at hsplit
    have hlast : (l.takeWhile (· ≠ ' ')).getLastD ' ' ≠ ' ' := by
      rw [List.getLastD_eq_getLast?]
      cases hlast : (l.takeWhile (· ≠ ' ')).getLast? with
      | none =>
        rw [List.getLast?_eq_none_iff.mp hlast, List.nil_append] at hsplit
        rw [← hsplit] at hhead
        exact absurd rfl hhead
      | some d =>
        have hmem := List.mem_of_getLast? hlast
        exact fun hd => hword (hd ▸ hmem)
    have hsqueezed : squeeze ' ' l = l.takeWhile (· ≠ ' ') ++ ' ' :: squeeze ' ' rest := by
      conv_lhs => rw [← hsplit]
      rw [squeeze_append, squeeze_word hword, squeeze_cons fun h => hlast h.2]
    rw [hsqueezed, ← shellFormat3_eq]
    exact List.splitOn_append_cons_self_of_not_mem hword _

theorem wordAt_of_argv (k : Nat) : ∀ {line word : Str}, (commandArgvParse line)[k]? = some word →
    wordAt k line = word := by
  induction k with
  | zero =>
    intro line word h
    rw [commandArgvParse_eq] at h
    exact Option.some.inj h
  | succ k ih =>
    intro line word h
    rw [commandArgvParse_eq, List.getElem?_cons_succ] at h
    rw [wordAt, lineFrom]
    cases hrest : (line.dropWhile (· = ' ')).dropWhile (· ≠ ' ') with
    | nil =>
      rw [hrest] at h
      cases h
    | cons c rest =>
      obtain rfl := space_of_dropWhile hrest
      rw [hrest] at h
      rw [lineFrom_space]
      exact ih h

/-- The words that `command_execute` looks at. -/
def executedWords (line : Str) : List Str := (words line).takeWhile (· ≠ [])

theorem dropWhile_of_word (h : line.takeWhile (· ≠ ' ') ≠ []) : line.dropWhile (· = ' ') = line := by
  cases line with
  | nil => rfl
  | cons c line =>
    by_cases hc : c = ' '
    · simp [hc] at h
    · simp [hc]

theorem executedWords_eq (line : Str) : executedWords line = if line.takeWhile (· ≠ ' ') = [] then []
    else line.takeWhile (· ≠ ' ') ::
      (match line.dropWhile (· ≠ ' ') with
        | [] => []
        | _ :: rest => executedWords rest) := by
  rw [executedWords, words_eq]
  by_cases hfirst : line.takeWhile (· ≠ ' ') = []
  · rw [if_pos hfirst, List.takeWhile_cons_of_neg (by simpa using hfirst)]
  · rw [if_neg hfirst, List.takeWhile_cons_of_pos (by simpa using hfirst)]
    cases line.dropWhile (· ≠ ' ') with
    | nil => rfl
    | cons c rest => rfl

theorem wordAt_of_executed (k : Nat) : ∀ {line word : Str}, (executedWords line)[k]? = some word →
    wordAt k line = word := by
  induction k with
  | zero =>
    intro line word h
    rw [executedWords_eq] at h
    split at h
    · cases h
    · rename_i hfirst
      rw [wordAt, lineFrom, dropWhile_of_word hfirst]
      exact Option.some.inj h
  | succ k ih =>
    intro line word h
    rw [executedWords_eq] at h
    split at h
    · cases h
    · rename_i hfirst
      rw [wordAt, lineFrom, dropWhile_of_word hfirst]
      rw [List.getElem?_cons_succ] at h
      cases hrest : line.dropWhile (· ≠ ' ') with
      | nil =>
        rw [hrest] at h
        cases h
      | cons c rest =>
        obtain rfl := space_of_dropWhile hrest
        rw [hrest] at h
        rw [lineFrom_space]
        exact ih h

/-! ## Where a word is found -/

theorem strstr_lineFrom {needle : Str} (hne : needle ≠ []) (hspace : ' ' ∉ needle) (k : Nat) :
    ∀ {line : Str}, needle <+: lineFrom k line →
      (Lib.strstr needle line = some (lineFrom k line) ↔ ∀ j, j < k → ¬ needle <:+: wordAt j line) := by
  have hword : ∀ c ∈ needle, decide (c = ' ') = false := fun c hc =>
    decide_eq_false fun heq => hspace (heq ▸ hc)
  induction k with
  | zero =>
    intro line hpre
    rw [← Lib.strstr_dropWhile (· = ' ') hne hword, ← lineFrom, Lib.strstr_here hpre]
    simp
  | succ k ih =>
    intro line hpre
    rw [← Lib.strstr_dropWhile (· = ' ') hne hword, Nat.forall_lt_succ_left]
    simp only [wordAt, lineFrom] at hpre ⊢
    generalize line.dropWhile (· = ' ') = l at *
    have hrest : ∀ c ∈ (l.dropWhile (· ≠ ' ')).head?, decide (c = ' ') = true := by
      intro c hc
      have hhead := List.head?_dropWhile_not (· ≠ ' ') l
      rw [Option.mem_def.mp hc] at hhead
      simpa using hhead
    have hsplit := @List.takeWhile_append_dropWhile _ (· ≠ ' ') l
    have hshort := (lineFrom_suffix k (l.dropWhile (· ≠ ' '))).length_le
    by_cases hin : needle <:+: l.takeWhile (· ≠ ' ')
    · -- it is found too early
      obtain ⟨found, hfound, hlong⟩ := Lib.strstr_inside (l := l.dropWhile (· ≠ ' ')) hin
      have hpos := List.length_pos_iff.mpr hne
      rw [hsplit] at hfound
      rw [hfound]
      constructor
      · intro heq
        have hlen := congrArg List.length (Option.some.inj heq)
        omega
      · exact fun h => absurd hin h.1
    · have hskip := Lib.strstr_skip hword hrest hin
      rw [hsplit] at hskip
      rw [hskip, ih hpre]
      exact (and_iff_right hin).symm

theorem strstr_wordAt (k : Nat) (line : Str) :
    Lib.strstr (wordAt k line) line = some (lineFrom k line)
      ↔ (wordAt k line ≠ [] ∧ ∀ j, j < k → ¬ wordAt k line <:+: wordAt j line) ∨ line = [] := by
  by_cases hempty : wordAt k line = []
  · -- an empty word is found at once, and is behind everything
    have hend : lineFrom k line = [] := by
      have hhead := lineFrom_head k line
      cases hrest : lineFrom k line with
      | nil => rfl
      | cons c rest =>
        rw [wordAt, hrest, List.takeWhile_cons_of_pos (by simpa [hrest] using hhead)] at hempty
        cases hempty
    rw [hempty, Lib.strstr_here List.nil_prefix, hend]
    simp
  · have hne : line ≠ [] := by
      rintro rfl
      have hend := List.suffix_nil.mp (lineFrom_suffix k [])
      simp [wordAt, hend] at hempty
    rw [strstr_lineFrom hempty (space_notMem_takeWhile _) k (List.takeWhile_prefix _),
      or_iff_left hne, and_iff_right hempty]

/-- By the words that the line has been taken apart into. -/
theorem strstr_iff {ws : List Str} {k : Nat} (hws : ∀ j w, ws[j]? = some w → wordAt j line = w)
    (hword : ws[k]? = some word) :
    Lib.strstr word line = some (lineFrom k line) ↔ NotBefore ws k ∨ line = [] := by
  have hlt : k < ws.length := (List.getElem?_eq_some_iff.mp hword).1
  rw [← hws k word hword, strstr_wordAt]
  refine or_congr_left ?_
  have hbefore : (∀ j, j < k → ¬ wordAt k line <:+: wordAt j line)
      ↔ ∀ w ∈ ws.take k, ¬ wordAt k line <:+: w := by
    constructor
    · intro h w hw
      obtain ⟨j, hj, rfl⟩ := List.mem_take_iff_getElem.mp hw
      rw [← hws j _ (List.getElem?_eq_getElem (by omega))]
      exact h j (by omega)
    · intro h j hj
      have hget := List.getElem?_eq_getElem (hj.trans hlt)
      rw [hws j _ hget]
      exact h _ (List.mem_take_iff_getElem.mpr ⟨j, by omega, rfl⟩)
  rw [hbefore, NotBefore]
  constructor
  · intro h w hw
    rw [← hws k w hw]
    exact h
  · exact fun h => h _ (by rw [hword, hws k word hword])

/-! ## The loops -/

theorem matched_of_wordNode {commandLine : Str} {node : CommandNode F} (hline : lineSpec node.key)
    {ws : List Str} :
    ∀ {parent : CommandNode F} {k : Nat}, wordNode host lineSpec parent ws k = some node →
      ∃ word, ws[k]? = some word
        ∧ (matchedFrom host commandLine ws parent)[k]? = some (some node, Lib.strstr word commandLine) := by
  induction ws with
  | nil =>
    intro parent k h
    cases h
  | cons word rest ih =>
    intro parent k h
    obtain ⟨next, hnext, h⟩ := Option.bind_eq_some_iff.mp h
    rw [matchedFrom, hnext]
    cases k with
    | zero =>
      obtain rfl := Option.some.inj h
      exact ⟨word, rfl, by simp [hline]⟩
    | succ k =>
      dsimp only at h
      by_cases hlast : lineSpec next.key
      · simp [hlast] at h
      · rw [if_neg hlast] at h
        obtain ⟨w, hw, hmatched⟩ := ih h
        exact ⟨w, hw, by simpa [hlast] using hmatched⟩

theorem execute_of_wordNode (commandLine : Str) {node : CommandNode F} (hline : lineSpec node.key)
    {ws : List Str} :
    ∀ {parent : CommandNode F} (found : Option (CommandNode F)) {k : Nat},
      wordNode host (fun spec => lineSpec spec || fileSpec spec) parent (ws.takeWhile (· ≠ [])) k
        = some node →
      ∃ word argv, (ws.takeWhile (· ≠ []))[k]? = some word
        ∧ executeFrom host commandLine ws parent found = (some node, argv)
        ∧ argv[k]? = some (Lib.strstr word commandLine) := by
  induction ws with
  | nil =>
    intro parent found k h
    cases h
  | cons word rest ih =>
    intro parent found k h
    by_cases hempty : word = []
    · rw [List.takeWhile_cons_of_neg (by simpa using hempty)] at h
      cases h
    · rw [List.takeWhile_cons_of_pos (by simpa using hempty)] at h ⊢
      obtain ⟨next, hnext, h⟩ := Option.bind_eq_some_iff.mp h
      rw [executeFrom, if_neg hempty, hnext]
      cases k with
      | zero =>
        obtain rfl := Option.some.inj h
        exact ⟨word, [Lib.strstr word commandLine], rfl, by simp [hline], rfl⟩
      | succ k =>
        dsimp only at h
        by_cases hlast : lineSpec next.key || fileSpec next.key
        · simp [hlast] at h
        · rw [if_neg hlast] at h
          obtain ⟨w, argv, hw, hrun, hargv⟩ := ih (some next) h
          refine ⟨w, some (commandReplace host next word) :: argv, hw, ?_, by simpa using hargv⟩
          dsimp only
          rw [if_neg hlast, hrun]

/-- **A `<LINE>` is the rest of the line when its word comes in no word before.** -/
theorem lineArgument_iff (root : CommandNode F) (line : Str) (k : Nat) {node : CommandNode F}
    (hline : lineSpec node.key) :
    (wordNode host lineSpec root (commandArgvParse line) k = some node →
      ((commandMatchedNodes host line root)[k]? = some (some node, some (lineFrom k line))
        ↔ NotBefore (commandArgvParse line) k ∨ line = []))
    ∧ ∀ func, wordNode host (fun spec => lineSpec spec || fileSpec spec) root (executedWords line) k
        = some node → node.val.func = some func →
      ((∃ argv, commandExecute host line root = some (func, argv)
          ∧ argv[k]? = some (some (lineFrom k line)))
        ↔ NotBefore (executedWords line) k) := by
  constructor
  · intro h
    obtain ⟨word, hword, hmatched⟩ := matched_of_wordNode host hline h
    rw [commandMatchedNodes, hmatched, ← strstr_iff (fun j w => wordAt_of_argv j) hword]
    simp
  · intro func h hfunc
    obtain ⟨word, argv, hword, hrun, hargv⟩ := execute_of_wordNode host line hline none h
    have hexecute : commandExecute host line root = some (func, argv) := by
      simp [commandExecute, hrun, hfunc]
    have hsome : line ≠ [] := by
      rintro rfl
      cases h
    have hfound := strstr_iff (fun j w => wordAt_of_executed j) hword
    rw [or_iff_left hsome] at hfound
    rw [← hfound, hexecute]
    constructor
    · rintro ⟨argv', heq, hargv'⟩
      obtain ⟨-, rfl⟩ := Prod.mk.inj (Option.some.inj heq)
      exact Option.some.inj (hargv.symm.trans hargv')
    · exact fun hstr => ⟨argv, rfl, by rw [hargv, hstr]⟩

/-- `set nettlp payload-string <LINE>` -/
def payloadRoot : CommandNode Unit :=
  ⟨[], ⟨none, none⟩, [⟨"set".toList, ⟨none, none⟩, [⟨"nettlp".toList, ⟨none, none⟩,
    [⟨"payload-string".toList, ⟨none, none⟩, [⟨"<LINE>".toList, ⟨none, some ()⟩, []⟩]⟩]⟩]⟩]⟩

def payloadNode : CommandNode Unit := ⟨"<LINE>".toList, ⟨none, some ()⟩, []⟩

/-- A payload of two words. -/
theorem lineArgument_payload :
    (commandMatchedNodes plainHost "set nettlp payload-string x y".toList payloadRoot)[3]?
        = some (some payloadNode, some "x y".toList)
      ∧ ∃ argv, commandExecute plainHost "set nettlp payload-string x y".toList payloadRoot
          = some ((), argv) ∧ argv[3]? = some (some "x y".toList) := by
  obtain ⟨hmatched, hexecute⟩ :=
    lineArgument_iff plainHost payloadRoot "set nettlp payload-string x y".toList 3
      (rfl : lineSpec payloadNode.key)
  refine ⟨(hmatched rfl).mpr (.inl ?_), (hexecute () rfl rfl).mpr ?_⟩
  · intro word hword
    obtain rfl := Option.some.inj hword
    decide
  · intro word hword
    obtain rfl := Option.some.inj hword
    decide

/-- The payload `p` is in `nettlp` too. -/
theorem lineArgument_too_early :
    wordNode plainHost lineSpec payloadRoot (commandArgvParse "set nettlp payload-string p".toList) 3
        = some payloadNode
      ∧ lineFrom 3 "set nettlp payload-string p".toList = "p".toList
      ∧ (commandMatchedNodes plainHost "set nettlp payload-string p".toList payloadRoot)[3]?
        = some (some payloadNode, some "p payload-string p".toList)
      ∧ (commandExecute plainHost "set nettlp payload-string p".toList payloadRoot).map (·.2[3]?)
        = some (some (some "p payload-string p".toList)) :=
  ⟨rfl, by decide, rfl, rfl⟩

end SdPlane
