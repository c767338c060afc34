import SdPlane.CommandExecute
import SdPlane.Lib.CommonPrefix
import SdPlane.Lib.Crash

/-!
# Completing a word (`command.c`)

`command_complete` goes down the tree with the words of a line. When there is a node for the last one
it answers what the word lacks of the node's, and a space; when there is none for a word,
`command_complete_common` is asked what the keywords that begin with it have in common.

Both take the rest of a text by indexing it with the length of the word, `cmdstr` in one case and
`common`, which is 64 characters long, in the other. `commandComplete_sound_iff` says when that
stays inside, and when the answer is what it should be. `A.B.C.D/M` and `<FLAGS>` are no keywords, but
`is_command_node_variable` does not know them; an address is longer than `A.B.C.D/M`.
-/

set_option autoImplicit false

namespace SdPlane

/-- The characters of an array; `none` is the terminator. -/
abbrev CharArray := Nat → Option Char

/-- `strncpy (dest, src, n)` -/
def strncpy (dest : CharArray) (src : Str) (n : Nat) : CharArray :=
  fun i => if i < n then src[i]? else dest i

/-- `src[i]`, of a string. -/
def charAt (src : Str) (i : Nat) : Except Lib.Crash (Option Char) :=
  if i ≤ src.length then .ok src[i]? else .error .outOfBounds

/-- The string at `&array[i]`, where the array has `n` more elements. -/
def stringAt (array : CharArray) : Nat → Nat → Except Lib.Crash Str
  | 0, _ => .error .outOfBounds
  | n + 1, i =>
    match array i with
    | none => .ok []
    | some c => do
      let rest ← stringAt array n (i + 1)
      return c :: rest

/-- The loop of `strcommon`, where `dest` has `n` more elements. Of `dest` there is nothing behind a
    place where it differs from `src`, so this is the last round. -/
def strcommonFrom (src : Str) : Nat → Nat → CharArray → Except Lib.Crash CharArray
  | 0, _, _ => .error .outOfBounds
  | n + 1, i, dest =>
    match dest i with
    | none => .ok dest
    | some c => do
      let d ← charAt src i
      if d ≠ some c then return Function.update dest i none
      else strcommonFrom src n (i + 1) dest

def strcommon (dest : CharArray) (src : Str) : Except Lib.Crash CharArray := strcommonFrom src 64 0 dest

variable {F : Type} (host : Host)

/-- `is_command_node_variable`. -/
def isCommandNodeVariable (cmdstr : Str) : Bool :=
  ipv4Spec cmdstr || rangeSpec host cmdstr || doubleSpec cmdstr || fileSpec cmdstr || lineSpec cmdstr
    || varSpec cmdstr || wordSpec cmdstr

/-- One round of the loop of `command_complete_common`, for `nmatch` and `common`. -/
def commonStep (word : Str) (s : Nat × CharArray) (node : CommandNode F) :
    Except Lib.Crash (Nat × CharArray) :=
  if isCommandNodeVariable host node.key then .ok s
  else if isMatchRegular node.key word then
    if s.1 = 0 then .ok (s.1 + 1, strncpy s.2 node.key 63)
    else do
      let common ← strcommon s.2 node.key
      return (s.1 + 1, common)
  else .ok s

/-- `command_complete_common`, and the string is read that it returns. -/
def commandCompleteCommon (word : Str) (parent : CommandNode F) : Except Lib.Crash Str := do
  let (_, common) ← parent.children.foldlM (commonStep host word) (0, fun _ => none)
  stringAt common (64 - word.length) word.length

/-- `&cmdstr[strlen (word)]` -/
def restOf (cmdstr word : Str) : Except Lib.Crash Str :=
  if word.length ≤ cmdstr.length then .ok (cmdstr.drop word.length) else .error .outOfBounds

/-- `snprintf (retbuf, sizeof (retbuf), "%s", text)` -/
def retbuf (text : Str) : Str := text.take 63

/-- The loop of `command_complete`: `parent`, the word that it has stopped at, and `match` and
    `matched`. -/
def completeLoop : List Str → CommandNode F → Option (CommandNode F × Str) →
    CommandNode F × Option Str × Option (CommandNode F × Str)
  | [], parent, found => (parent, none, found)
  | word :: rest, parent, _ =>
    match matchUniqueExact host parent word with
    | none => (parent, some word, none)
    | some node => completeLoop rest node (some (node, word))

def commandComplete (commandLine : Str) (root : CommandNode F) : Except Lib.Crash Str :=
  match completeLoop host (commandArgvParse commandLine) root none with
  | (_, _, some (node, matched)) =>
    if !isCommandNodeVariable host node.key then do
      let rest ← restOf node.key matched
      return retbuf (rest ++ [' '])
    else if fileSpec node.key then .ok ((host.fileComplete matched).elim [] retbuf)
    else .ok []
  | (parent, some word, none) => do
    let common ← commandCompleteCommon host word parent
    return retbuf common
  | (_, none, none) => .error .nullPointer

/-! ## What it is for -/

/-- The words of a line are `word`, those before it, which lead to `parent`, and `rest`. -/
def LeadsTo (root : CommandNode F) (line : Str) (parent : CommandNode F) (word : Str)
    (rest : List Str) : Prop :=
  ∃ earlier, commandArgvParse line = earlier ++ word :: rest
    ∧ earlier.foldlM (matchUniqueExact host) root = some parent

/-- The children that are keywords and begin with a word. -/
def keywords (parent : CommandNode F) (word : Str) : List Str :=
  (parent.children.filter fun c => !isVariable host c.key && isMatchRegular c.key word).map (·.key)

/-- There are keywords for the word, and nothing else. -/
structure Completable (parent : CommandNode F) (word : Str) : Prop where
  keywords : keywords host parent word ≠ []
  proper : ∀ c ∈ parent.children, c.key ≠ word
  notArgument : ∀ c ∈ parent.children, isVariable host c.key → ¬ isMatchVariable host c.key word

/-- With `text` behind it the word is all that the keywords have in common. -/
def CompletesWord (parent : CommandNode F) (word text : Str) : Prop :=
  ∃ common, Lib.LongestCommon (keywords host parent word) common
    ∧ word ++ text = if (keywords host parent word).length = 1 then common ++ [' '] else common

/-- Nothing is read outside, and the text is right. -/
def SoundAt (root : CommandNode F) (line : Str) : Prop :=
  ∃ text, commandComplete host line root = .ok text
    ∧ ∀ parent word, LeadsTo host root line parent word [] → Completable host parent word →
      CompletesWord host parent word text

/-- There is room for what is to come, and nothing that begins like it is taken for a keyword. -/
structure RoomFor (parent : CommandNode F) (word : Str) : Prop where
  one : ∀ keyword, keywords host parent word = [keyword] → keyword.length ≤ word.length + 62
    ∧ ∀ c ∈ parent.children, isVariable host c.key → ¬ word <+: c.key
  many : 1 < (keywords host parent word).length → ∀ common,
    Lib.LongestCommon (keywords host parent word) common → common.length ≤ 63
      ∧ ∀ c ∈ parent.children, (ipv4PrefixSpec c.key ∨ flagSpec c.key) → word <+: c.key →
        common <+: c.key

structure LineFits (root : CommandNode F) (line : Str) : Prop where
  unknown : ∀ parent word rest, LeadsTo host root line parent word rest →
    matchUniqueExact host parent word = none → word.length ≤ 63
  argument : ∀ parent word node, LeadsTo host root line parent word [] →
    matchUniqueExact host parent word = some node → ipv4PrefixSpec node.key ∨ flagSpec node.key →
    word.length ≤ node.key.length
  room : ∀ parent word, LeadsTo host root line parent word [] → Completable host parent word →
    RoomFor host parent word

/-! ## Arrays of characters -/

/-- The array begins with a string and its terminator. -/
def Begins (array : CharArray) (s : Str) : Prop := ∀ j, j ≤ s.length → array j = s[j]?

theorem stringAt_eq {array : CharArray} {s : Str} (h : Begins array s) {n : Nat} :
    ∀ {i : Nat}, i ≤ s.length → s.length < i + n → stringAt array n i = .ok (s.drop i) := by
  induction n with
  | zero =>
    intro i hi hn
    omega
  | succ n ih =>
    intro i hi hn
    rw [stringAt, h i hi]
    by_cases hlt : i < s.length
    · rw [List.getElem?_eq_getElem hlt, List.drop_eq_getElem_cons hlt]
      simp only [ih hlt (by omega), Lib.ok_bind, Lib.pure_eq_ok]
    · rw [List.getElem?_eq_none (by omega), List.drop_of_length_le (by omega)]

theorem Begins.cut {array : CharArray} {p t : Str} (h : Begins array (p ++ t)) :
    Begins (Function.update array p.length none) p := by
  intro j hj
  rcases Nat.lt_or_eq_of_le hj with hlt | rfl
  · rw [Function.update_of_ne (by omega), h j (by simp; omega), List.getElem?_append_left hlt]
  · simp

/-- `p` is what has been compared. -/
theorem strcommonFrom_eq {n : Nat} : ∀ {dest : CharArray} {p t u : Str}, Begins dest (p ++ t) →
    t.length < n → ∃ dest', strcommonFrom (p ++ u) n p.length dest = .ok dest'
      ∧ Begins dest' (p ++ Lib.common t u) := by
  induction n with
  | zero =>
    intro dest p t u h hn
    omega
  | succ n ih =>
    intro dest p t u h hn
    have hhere := h p.length (by simp)
    rw [List.getElem?_append_right le_rfl, Nat.sub_self] at hhere
    have hchar : charAt (p ++ u) p.length = .ok u[0]? := by
      rw [charAt, if_pos (by simp), List.getElem?_append_right le_rfl, Nat.sub_self]
    cases t with
    | nil =>
      refine ⟨dest, ?_, by simpa [Lib.common] using h⟩
      rw [strcommonFrom, hhere]
      rfl
    | cons c t =>
      have hstep : strcommonFrom (p ++ u) (n + 1) p.length dest
          = if u[0]? ≠ some c then .ok (Function.update dest p.length none)
            else strcommonFrom (p ++ u) n (p.length + 1) dest := by
        rw [strcommonFrom, hhere]
        simp only [List.getElem?_cons_zero, hchar, Lib.ok_bind, Lib.pure_eq_ok]
      by_cases hsame : u[0]? = some c
      · cases u with
        | nil => simp at hsame
        | cons d u =>
          obtain rfl : d = c := by simpa using hsame
          have hnext : Begins dest ((p ++ [d]) ++ t) := by simpa using h
          obtain ⟨dest', hrun, hbegins⟩ := ih (u := u) hnext (by simpa using hn)
          refine ⟨dest', ?_, ?_⟩
          · rw [hstep, if_neg (not_not.mpr hsame)]
            simpa using hrun
          · simpa [Lib.common] using hbegins
      · refine ⟨_, by rw [hstep, if_pos hsame], ?_⟩
        have hnone : Lib.common (c :: t) u = [] := by
          cases u with
          | nil => rfl
          | cons d u =>
            rw [Lib.common, if_neg]
            rintro rfl
            exact hsame rfl
        rw [hnone, List.append_nil]
        exact h.cut

theorem strcommon_eq {dest : CharArray} {s : Str} (h : Begins dest s) (hs : s.length < 64)
    (src : Str) : ∃ dest', strcommon dest src = .ok dest' ∧ Begins dest' (Lib.common s src) :=
  strcommonFrom_eq (p := []) h hs

theorem begins_strncpy (src : Str) (n : Nat) : Begins (strncpy (fun _ => none) src n) (src.take n) := by
  intro j hj
  rw [strncpy]
  by_cases hlt : j < n
  · rw [if_pos hlt, List.getElem?_take_of_lt hlt]
  · rw [if_neg hlt, List.getElem?_eq_none (by rw [List.length_take] at *; omega)]

/-! ## The common part -/

/-- What `command_complete_common` takes for keywords that begin with the word. -/
def candidates (word : Str) (nodes : List (CommandNode F)) : List Str :=
  (nodes.filter fun c => !isCommandNodeVariable host c.key && isMatchRegular c.key word).map (·.key)

/-- After the first of them. -/
theorem commonStep_next (word : Str) (nodes : List (CommandNode F)) :
    ∀ {n : Nat} {array : CharArray} {s : Str}, Begins array s → s.length < 64 →
      ∃ r, nodes.foldlM (commonStep host word) (n + 1, array) = .ok r
        ∧ Begins r.2 ((candidates host word nodes).foldl Lib.common s) := by
  induction nodes with
  | nil => exact fun h _ => ⟨_, rfl, h⟩
  | cons node nodes ih =>
    intro n array s h hs
    rw [List.foldlM_cons, commonStep, candidates, List.filter_cons]
    by_cases hvar : isCommandNodeVariable host node.key
    · simpa [hvar, Lib.ok_bind, candidates] using ih h hs
    · by_cases hmatch : isMatchRegular node.key word
      · obtain ⟨dest', hrun, hbegins⟩ := strcommon_eq h hs node.key
        have hle : (Lib.common s node.key).length < 64 :=
          ((Lib.prefix_common.mp (List.prefix_refl _)).1.length_le).trans_lt hs
        obtain ⟨r, hr, hend⟩ := ih (n := n + 1) hbegins hle
        refine ⟨r, ?_, ?_⟩
        · simpa [hvar, hmatch, hrun, Lib.ok_bind, Lib.pure_eq_ok] using hr
        · simpa [hvar, hmatch, candidates] using hend
      · simpa [hvar, hmatch, Lib.ok_bind, candidates] using ih h hs

theorem commonStep_all (word : Str) (nodes : List (CommandNode F)) :
    ∃ r, nodes.foldlM (commonStep host word) (0, fun _ => none) = .ok r
      ∧ match candidates host word nodes with
        | [] => r.2 = fun _ => none
        | first :: rest => Begins r.2 ((rest.foldl Lib.common first).take 63) := by
  induction nodes with
  | nil => exact ⟨_, rfl, rfl⟩
  | cons node nodes ih =>
    rw [List.foldlM_cons, commonStep, candidates, List.filter_cons]
    by_cases hvar : isCommandNodeVariable host node.key
    · simpa [hvar, Lib.ok_bind, candidates] using ih
    · by_cases hmatch : isMatchRegular node.key word
      · have hbegins := begins_strncpy node.key 63
        obtain ⟨r, hr, hend⟩ := commonStep_next host word nodes (n := 0) hbegins
          (by rw [List.length_take]; omega)
        refine ⟨r, by simpa [hvar, hmatch, Lib.ok_bind] using hr, ?_⟩
        rw [Lib.foldl_common_take] at hend
        simpa [hvar, hmatch, candidates] using hend
      · simpa [hvar, hmatch, Lib.ok_bind, candidates] using ih

section Nodes

variable {host} {parent : CommandNode F} {word : Str}

theorem mem_candidates {key : Str} : key ∈ candidates host word parent.children
    ↔ ∃ c ∈ parent.children, ¬ isCommandNodeVariable host c.key ∧ word <+: c.key ∧ c.key = key := by
  simp [candidates, isMatchRegular, List.isPrefixOf_iff_prefix, and_assoc]

theorem mem_keywords {key : Str} : key ∈ keywords host parent word
    ↔ ∃ c ∈ parent.children, ¬ isVariable host c.key ∧ word <+: c.key ∧ c.key = key := by
  simp [keywords, isMatchRegular, List.isPrefixOf_iff_prefix, and_assoc]

/-- What `is_command_node_variable` does not know. -/
theorem isVariable_iff {cmdstr : Str} : isVariable host cmdstr
    ↔ isCommandNodeVariable host cmdstr ∨ ipv4PrefixSpec cmdstr ∨ flagSpec cmdstr := by
  simp only [isVariable, isCommandNodeVariable, Bool.or_eq_true, or_assoc, or_comm, or_left_comm]

theorem commandCompleteCommon_long (h : 63 < word.length) :
    ∀ text, commandCompleteCommon host word parent ≠ .ok text := by
  intro text
  obtain ⟨r, hrun, -⟩ := commonStep_all host word parent.children
  have hroom : 64 - word.length = 0 := by omega
  simp [commandCompleteCommon, hrun, hroom, stringAt, Lib.ok_bind]

theorem commandCompleteCommon_none (h : word.length ≤ 63)
    (hnone : candidates host word parent.children = []) :
    commandCompleteCommon host word parent = .ok [] := by
  obtain ⟨r, hrun, hclear⟩ := commonStep_all host word parent.children
  rw [hnone] at hclear
  obtain ⟨n, hn⟩ : ∃ n, 64 - word.length = n + 1 := ⟨63 - word.length, by omega⟩
  simp [commandCompleteCommon, hrun, hclear, hn, stringAt, Lib.ok_bind]

theorem commandCompleteCommon_some {common : Str} (h : word.length ≤ 63)
    (hsome : candidates host word parent.children ≠ [])
    (hcommon : Lib.LongestCommon (candidates host word parent.children) common) :
    ∃ text, commandCompleteCommon host word parent = .ok text ∧ word ++ text = common.take 63 := by
  have hword : word <+: common.take 63 := by
    have hall : word <+: common := hcommon.2 word fun key hkey => by
      obtain ⟨c, -, -, hpre, rfl⟩ := mem_candidates.mp hkey
      exact hpre
    rw [List.prefix_take_iff]
    exact ⟨hall, h⟩
  obtain ⟨r, hrun, hbegins⟩ := commonStep_all host word parent.children
  cases hlist : candidates host word parent.children with
  | nil => exact absurd hlist hsome
  | cons first rest =>
    rw [hlist] at hbegins hcommon
    dsimp only at hbegins
    rw [(Lib.longestCommon_foldl first rest).unique hcommon] at hbegins
    have hstring := stringAt_eq hbegins (n := 64 - word.length) hword.length_le
      (by rw [List.length_take]; omega)
    refine ⟨(common.take 63).drop word.length, ?_, List.prefix_iff_eq_append.mp hword⟩
    simp [commandCompleteCommon, hrun, hstring, Lib.ok_bind]

/-! ## The node for a word -/

theorem commandMatchExact_some {c : CommandNode F} (h : commandMatchExact parent word = some c) :
    c ∈ parent.children ∧ c.key = word := by
  have hfold : ∀ (nodes : List (CommandNode F)) (found : Option (CommandNode F)),
      (∀ d, found = some d → d ∈ parent.children ∧ d.key = word) →
      (∀ d ∈ nodes, d ∈ parent.children) →
      nodes.foldl (fun found node => if node.key = word then some node else found) found = some c →
      c ∈ parent.children ∧ c.key = word := by
    intro nodes
    induction nodes with
    | nil => exact fun found hfound _ hc => hfound c hc
    | cons node nodes ih =>
      intro found hfound hnodes hc
      refine ih _ ?_ (fun d hd => hnodes d (List.mem_cons_of_mem _ hd)) hc
      intro d hd
      dsimp only at hd
      split at hd
      · next hkey =>
        obtain rfl := Option.some.inj hd
        exact ⟨hnodes node List.mem_cons_self, hkey⟩
      · exact hfound d hd
  exact hfold parent.children none (by simp) (fun d hd => hd) h

/-- A node for a word is a child that matches it. -/
theorem matchUniqueExact_some {c : CommandNode F} (h : matchUniqueExact host parent word = some c) :
    c ∈ parent.children ∧ (isMatchVariable host c.key word ∨ word <+: c.key) := by
  obtain ⟨s, hs, hunique⟩ := matchUnique_eq host parent word
  have hmem : ∀ d, d ∈ varChildren host word parent.children ∨ d ∈ regChildren word parent.children →
      d ∈ parent.children ∧ (isMatchVariable host d.key word ∨ word <+: d.key) := by
    intro d hd
    rcases hd with hd | hd
    · obtain ⟨hd, hmatch⟩ := List.mem_filter.mp hd
      exact ⟨hd, .inl hmatch⟩
    · obtain ⟨hd, hmatch⟩ := List.mem_filter.mp hd
      exact ⟨hd, .inr (List.isPrefixOf_iff_prefix.mp hmatch)⟩
  rw [matchUniqueExact] at h
  cases hmatch : matchUnique host parent word with
  | some d =>
    rw [hmatch] at h
    obtain rfl := Option.some.inj h
    rw [hunique] at hmatch
    have hfound := hs.found
    have hvar := hs.varmatch
    split at hmatch
    · cases hmatch
    · split at hmatch
      · rw [hmatch] at hvar
        exact hmem d (.inl hvar.1)
      · split at hmatch
        · rw [hmatch] at hfound
          exact hmem d hfound
        · cases hmatch
  | none =>
    rw [hmatch] at h
    obtain ⟨hc, hkey⟩ := commandMatchExact_some h
    exact ⟨hc, .inr (hkey ▸ List.prefix_refl _)⟩

/-- Where there is only a keyword for the word, that is meant; where there is anything else that
    begins like it, nothing is. -/
theorem Completable.matchUniqueExact (h : Completable host parent word) :
    (∀ c, regChildren word parent.children = [c] → SdPlane.matchUniqueExact host parent word = some c)
    ∧ (1 < (regChildren word parent.children).length →
      SdPlane.matchUniqueExact host parent word = none) := by
  have hvars : varChildren host word parent.children = [] := by
    refine List.filter_eq_nil_iff.mpr fun c hc hmatch => ?_
    exact h.notArgument c hc (isVariable_of_match host hmatch) hmatch
  obtain ⟨s, hs, hunique⟩ := matchUnique_eq host parent word
  have hcount := hs.count
  have hvarCount := hs.varCount
  have hfound := hs.found
  rw [hvars] at hcount hvarCount hfound
  rw [List.length_nil] at hcount hvarCount
  have hexact : commandMatchExact parent word = none := by
    cases hexact : commandMatchExact parent word with
    | none => rfl
    | some c =>
      obtain ⟨hc, hkey⟩ := commandMatchExact_some hexact
      exact absurd hkey (h.proper c hc)
  constructor
  · intro c hreg
    rw [hreg] at hcount hfound
    rw [List.length_singleton] at hcount
    cases hf : s.found with
    | none => simp [hf] at hfound
    | some d =>
      obtain rfl : d = c := by simpa [hf] using hfound
      have hne : ¬ s.varmatchCount = s.matchCount := by omega
      have hone : s.matchCount = 1 := by omega
      rw [SdPlane.matchUniqueExact, hunique, if_neg hne, if_pos hone]
      simp [hf]
  · intro hmany
    have hne : ¬ s.varmatchCount = s.matchCount := by omega
    have hone : ¬ s.matchCount = 1 := by omega
    rw [SdPlane.matchUniqueExact, hunique, if_neg hne, if_neg hone, ite_self]
    exact hexact

/-! ## The words before -/

theorem completeLoop_append {earlier : List Str} (rest : List Str) :
    ∀ {root parent : CommandNode F} (found : Option (CommandNode F × Str)),
      earlier.foldlM (SdPlane.matchUniqueExact host) root = some parent →
      ∃ found', completeLoop host (earlier ++ rest) root found = completeLoop host rest parent found' := by
  induction earlier with
  | nil =>
    intro root parent found h
    obtain rfl := Option.some.inj h
    exact ⟨found, rfl⟩
  | cons word earlier ih =>
    intro root parent found h
    rw [List.foldlM_cons] at h
    obtain ⟨next, hnext, h⟩ := Option.bind_eq_some_iff.mp h
    rw [List.cons_append, completeLoop, hnext]
    exact ih _ h

variable {root : CommandNode F} {line : Str} {rest : List Str}

/-- A word without a node. -/
theorem LeadsTo.unknown (h : LeadsTo host root line parent word rest)
    (hnone : SdPlane.matchUniqueExact host parent word = none) :
    commandComplete host line root = (commandCompleteCommon host word parent).map retbuf := by
  obtain ⟨earlier, hwords, hearlier⟩ := h
  obtain ⟨found, hloop⟩ := completeLoop_append (word :: rest) none hearlier
  simp only [completeLoop, hnone] at hloop
  simp only [commandComplete, hwords, hloop]
  cases commandCompleteCommon host word parent with
  | ok text => rfl
  | error e => rfl

/-- The last word has a node. -/
theorem LeadsTo.known {node : CommandNode F} (h : LeadsTo host root line parent word [])
    (hsome : SdPlane.matchUniqueExact host parent word = some node) :
    commandComplete host line root =
      if !isCommandNodeVariable host node.key then
        (restOf node.key word).map fun rest => retbuf (rest ++ [' '])
      else if fileSpec node.key then .ok ((host.fileComplete word).elim [] retbuf)
      else .ok [] := by
  obtain ⟨earlier, hwords, hearlier⟩ := h
  obtain ⟨found, hloop⟩ := completeLoop_append [word] none hearlier
  simp only [completeLoop, hsome] at hloop
  simp only [commandComplete, hwords, hloop]
  cases restOf node.key word with
  | ok rest => rfl
  | error e => rfl

/-- There is a first word without a node, or the last one has one. -/
theorem exists_leadsTo (root : CommandNode F) (line : Str) :
    ∃ parent word rest, LeadsTo host root line parent word rest
      ∧ (SdPlane.matchUniqueExact host parent word = none
        ∨ rest = [] ∧ ∃ node, SdPlane.matchUniqueExact host parent word = some node) := by
  have hall : ∀ (ws earlier : List Str) (parent : CommandNode F), ws ≠ [] →
      commandArgvParse line = earlier ++ ws →
      earlier.foldlM (SdPlane.matchUniqueExact host) root = some parent →
      ∃ parent word rest, LeadsTo host root line parent word rest
        ∧ (SdPlane.matchUniqueExact host parent word = none
          ∨ rest = [] ∧ ∃ node, SdPlane.matchUniqueExact host parent word = some node) := by
    intro ws
    induction ws with
    | nil => exact fun _ _ hne => absurd rfl hne
    | cons word ws ih =>
      intro earlier parent _ hwords hearlier
      cases hmatch : SdPlane.matchUniqueExact host parent word with
      | none => exact ⟨parent, word, ws, ⟨earlier, hwords, hearlier⟩, .inl hmatch⟩
      | some node =>
        by_cases hlast : ws = []
        · exact ⟨parent, word, ws, ⟨earlier, hwords, hearlier⟩, .inr ⟨hlast, node, hmatch⟩⟩
        · refine ih (earlier ++ [word]) node hlast (by simpa using hwords) ?_
          rw [List.foldlM_append, hearlier]
          simpa using hmatch
  exact hall (commandArgvParse line) [] root (words_ne_nil _) rfl rfl

/-! ## When all is well -/

theorem isCommandNodeVariable_of_spec {cmdstr : Str} (h : ipv4PrefixSpec cmdstr ∨ flagSpec cmdstr) :
    isCommandNodeVariable host cmdstr = false := by
  simp only [ipv4PrefixSpec, flagSpec, Bool.or_eq_true, decide_eq_true_eq] at h
  rcases h with rfl | rfl | rfl
  · rfl
  · rfl
  · rfl

/-- What is read of the node for the last word. -/
theorem LeadsTo.known_ok_iff {node : CommandNode F} (h : LeadsTo host root line parent word [])
    (hsome : SdPlane.matchUniqueExact host parent word = some node) :
    (∃ text, commandComplete host line root = .ok text)
      ↔ (ipv4PrefixSpec node.key ∨ flagSpec node.key → word.length ≤ node.key.length) := by
  rw [h.known hsome]
  by_cases hvar : isCommandNodeVariable host node.key
  · have hnot : ¬ (ipv4PrefixSpec node.key ∨ flagSpec node.key) := fun hspec => by
      rw [isCommandNodeVariable_of_spec hspec] at hvar
      cases hvar
    simp only [hvar, Bool.not_true, Bool.false_eq_true, if_false]
    refine iff_of_true ?_ fun hspec => absurd hspec hnot
    split
    · exact ⟨_, rfl⟩
    · exact ⟨_, rfl⟩
  · simp only [hvar, Bool.not_false, if_true, restOf]
    by_cases hle : word.length ≤ node.key.length
    · rw [if_pos hle]
      exact iff_of_true ⟨_, rfl⟩ fun _ => hle
    · -- it is no keyword, which begins with the word
      rw [if_neg hle]
      refine iff_of_false (fun ⟨text, htext⟩ => by cases htext) fun hspec => hle (hspec ?_)
      by_contra hnot
      have hkeyword : ¬ isVariable host node.key := by
        rw [isVariable_iff, not_or]
        exact ⟨hvar, hnot⟩
      rcases (matchUniqueExact_some hsome).2 with hmatch | hpre
      · exact hkeyword (isVariable_of_match host hmatch)
      · exact hle hpre.length_le

theorem LeadsTo.unknown_ok_iff (h : LeadsTo host root line parent word rest)
    (hnone : SdPlane.matchUniqueExact host parent word = none) :
    (∃ text, commandComplete host line root = .ok text) ↔ word.length ≤ 63 := by
  rw [h.unknown hnone]
  constructor
  · rintro ⟨text, htext⟩
    by_contra hlong
    cases hcommon : commandCompleteCommon host word parent with
    | ok common => exact commandCompleteCommon_long (not_le.mp hlong) common hcommon
    | error e =>
      rw [hcommon] at htext
      cases htext
  · intro hle
    cases hlist : candidates host word parent.children with
    | nil => exact ⟨_, by rw [commandCompleteCommon_none hle hlist]; rfl⟩
    | cons first others =>
      have hcommon := Lib.longestCommon_foldl first others
      rw [← hlist] at hcommon
      obtain ⟨text, htext, -⟩ := commandCompleteCommon_some hle (by simp [hlist]) hcommon
      exact ⟨_, by rw [htext]; rfl⟩

/-- The keywords are those that begin with the word and are no arguments. -/
theorem keywords_eq : keywords host parent word
    = ((regChildren word parent.children).filter fun c => !isVariable host c.key).map (·.key) := by
  rw [keywords, regChildren, List.filter_filter]

/-- One keyword, and nothing else. -/
theorem LeadsTo.completes_one (h : LeadsTo host root line parent word [])
    (hcomplete : Completable host parent word) {keyword text : Str}
    (hkeyword : keywords host parent word = [keyword])
    (hothers : ∀ c ∈ parent.children, isVariable host c.key → ¬ word <+: c.key)
    (hrun : commandComplete host line root = .ok text) :
    CompletesWord host parent word text ↔ keyword.length ≤ word.length + 62 := by
  have hall : (regChildren word parent.children).filter (fun c => !isVariable host c.key)
      = regChildren word parent.children := by
    rw [List.filter_eq_self]
    intro c hc
    obtain ⟨hmem, hmatch⟩ := List.mem_filter.mp hc
    have hnot : ¬ isVariable host c.key := fun hvar =>
      hothers c hmem hvar (List.isPrefixOf_iff_prefix.mp hmatch)
    simpa using hnot
  have hregs := hkeyword
  rw [keywords_eq, hall] at hregs
  obtain ⟨c, hc, hkey⟩ := List.map_eq_singleton_iff.mp hregs
  obtain ⟨d, hd, hnot, hpre, hdkey⟩ := mem_keywords.mp (by rw [hkeyword]; exact List.mem_singleton_self _)
  rw [hdkey] at hnot hpre
  have hnode := isVariable_iff.not.mp hnot
  rw [not_or] at hnode
  obtain ⟨rest, rfl⟩ := hpre
  rw [h.known (hcomplete.matchUniqueExact.1 c hc), hkey] at hrun
  simp only [hnode.1, Bool.not_false, if_true, restOf, List.length_append, Nat.le_add_right,
    List.drop_left] at hrun
  obtain rfl := Except.ok.inj hrun
  rw [CompletesWord, hkeyword]
  simp only [Lib.LongestCommon.singleton, exists_eq_left, List.length_singleton, if_true,
    List.append_assoc, List.append_cancel_left_eq, retbuf, List.take_eq_self_iff, List.length_append]
  omega

/-- Nothing is meant by the word. -/
theorem LeadsTo.completes_many (h : LeadsTo host root line parent word [])
    (hcomplete : Completable host parent word) {text : Str}
    (hmany : 1 < (regChildren word parent.children).length)
    (hrun : commandComplete host line root = .ok text) :
    CompletesWord host parent word text ↔ 1 < (keywords host parent word).length
      ∧ ∀ common, Lib.LongestCommon (keywords host parent word) common → common.length ≤ 63
        ∧ ∀ c ∈ parent.children, (ipv4PrefixSpec c.key ∨ flagSpec c.key) → word <+: c.key →
          common <+: c.key := by
  have hnone := hcomplete.matchUniqueExact.2 hmany
  have hle := (h.unknown_ok_iff hnone).mp ⟨text, hrun⟩
  -- what the code takes for keywords
  have hmem : ∀ key ∈ keywords host parent word, key ∈ candidates host word parent.children := by
    intro key hkey
    obtain ⟨c, hc, hnot, hpre, heq⟩ := mem_keywords.mp hkey
    exact mem_candidates.mpr ⟨c, hc, fun hvar => hnot (isVariable_iff.mpr (.inl hvar)), hpre, heq⟩
  obtain ⟨first, hfirst⟩ := List.exists_mem_of_ne_nil _ hcomplete.keywords
  have hsome : candidates host word parent.children ≠ [] := List.ne_nil_of_mem (hmem first hfirst)
  obtain ⟨seen, hseen⟩ : ∃ seen, Lib.LongestCommon (candidates host word parent.children) seen := by
    cases hlist : candidates host word parent.children with
    | nil => exact absurd hlist hsome
    | cons first others => exact ⟨_, Lib.longestCommon_foldl first others⟩
  obtain ⟨text', htext', hword⟩ := commandCompleteCommon_some hle hsome hseen
  have hshort : text'.length ≤ 63 := by
    have hlen := congrArg List.length hword
    rw [List.length_append, List.length_take] at hlen
    omega
  rw [h.unknown hnone, htext'] at hrun
  obtain rfl := Except.ok.inj hrun
  rw [CompletesWord, retbuf, List.take_of_length_le hshort, hword]
  constructor
  · rintro ⟨common, hcommon, heq⟩
    by_cases hone : (keywords host parent word).length = 1
    · -- there is no room for the space
      obtain ⟨keyword, hkeyword⟩ := List.length_eq_one_iff.mp hone
      rw [hkeyword, Lib.LongestCommon.singleton] at hcommon
      subst hcommon
      rw [if_pos hone] at heq
      have hpre := hseen.1 common (hmem common (by simp [hkeyword]))
      have hlen := congrArg List.length heq
      have hlong := hpre.length_le
      rw [List.length_take, List.length_append, List.length_singleton] at hlen
      omega
    · rw [if_neg hone] at heq
      have hpos := List.length_pos_iff.mpr hcomplete.keywords
      refine ⟨by omega, fun common' hcommon' => ?_⟩
      obtain rfl := hcommon.unique hcommon'
      rw [← heq]
      refine ⟨by rw [List.length_take]; omega, fun c hc hspec hpre => ?_⟩
      have hcand : c.key ∈ candidates host word parent.children := by
        refine mem_candidates.mpr ⟨c, hc, ?_, hpre, rfl⟩
        rw [isCommandNodeVariable_of_spec hspec]
        simp
      exact (List.take_prefix _ _).trans (hseen.1 _ hcand)
  · rintro ⟨htwo, hroom⟩
    obtain ⟨common, hcommon⟩ : ∃ common, Lib.LongestCommon (keywords host parent word) common := by
      cases hlist : keywords host parent word with
      | nil => exact absurd hlist hcomplete.keywords
      | cons first others => exact ⟨_, Lib.longestCommon_foldl first others⟩
    obtain ⟨hlen, hspecs⟩ := hroom common hcommon
    have hsame : seen = common := by
      refine hseen.unique ⟨fun key hkey => ?_, fun q hq => ?_⟩
      · obtain ⟨c, hc, hvar, hpre, rfl⟩ := mem_candidates.mp hkey
        by_cases hspec : ipv4PrefixSpec c.key ∨ flagSpec c.key
        · exact hspecs c hc hspec hpre
        · have hnot : ¬ isVariable host c.key := by
            rw [isVariable_iff, not_or]
            exact ⟨hvar, hspec⟩
          exact hcommon.1 _ (mem_keywords.mpr ⟨c, hc, hnot, hpre, rfl⟩)
      · exact hcommon.2 q fun key hkey => hq key (hmem key hkey)
    refine ⟨common, hcommon, ?_⟩
    rw [if_neg (by omega), hsame, List.take_of_length_le hlen]

theorem mem_regChildren {c : CommandNode F} :
    c ∈ regChildren word parent.children ↔ c ∈ parent.children ∧ word <+: c.key := by
  simp [regChildren, isMatchRegular, List.isPrefixOf_iff_prefix]

/-- No argument begins like the word when all that does is a keyword. -/
theorem length_keywords_iff : (keywords host parent word).length = (regChildren word parent.children).length
    ↔ ∀ c ∈ parent.children, isVariable host c.key → ¬ word <+: c.key := by
  rw [keywords_eq, List.length_map, List.length_filter_eq_length_iff]
  constructor
  · intro h c hc hvar hpre
    simpa [hvar] using h c (mem_regChildren.mpr ⟨hc, hpre⟩)
  · intro h c hc
    obtain ⟨hmem, hpre⟩ := mem_regChildren.mp hc
    simpa using fun hvar => h c hmem hvar hpre

theorem LeadsTo.completes_iff (h : LeadsTo host root line parent word [])
    (hcomplete : Completable host parent word) {text : Str}
    (hrun : commandComplete host line root = .ok text) :
    CompletesWord host parent word text ↔ RoomFor host parent word := by
  have hpos := List.length_pos_iff.mpr hcomplete.keywords
  by_cases hmany : 1 < (regChildren word parent.children).length
  · rw [h.completes_many hcomplete hmany hrun]
    constructor
    · rintro ⟨htwo, hroom⟩
      refine ⟨fun keyword hkeyword => ?_, fun _ => hroom⟩
      rw [hkeyword] at htwo
      simp at htwo
    · intro hroom
      have htwo : 1 < (keywords host parent word).length := by
        by_contra hone
        obtain ⟨keyword, hkeyword⟩ := List.length_eq_one_iff.mp
          (by omega : (keywords host parent word).length = 1)
        have hlen := length_keywords_iff.mpr (hroom.one keyword hkeyword).2
        omega
      exact ⟨htwo, hroom.many htwo⟩
  · have hle : (keywords host parent word).length ≤ (regChildren word parent.children).length := by
      rw [keywords_eq, List.length_map]
      exact List.length_filter_le _ _
    have hothers := length_keywords_iff.mp
      (by omega : (keywords host parent word).length = (regChildren word parent.children).length)
    obtain ⟨keyword, hkeyword⟩ := List.length_eq_one_iff.mp
      (by omega : (keywords host parent word).length = 1)
    rw [h.completes_one hcomplete hkeyword hothers hrun]
    constructor
    · intro hlen
      refine ⟨fun keyword' hkeyword' => ?_, fun htwo => absurd htwo (by omega)⟩
      rw [hkeyword] at hkeyword'
      obtain rfl := List.singleton_inj.mp hkeyword'
      exact ⟨hlen, hothers⟩
    · exact fun hroom => (hroom.one keyword hkeyword).1

end Nodes

/-- **Completion is right as far as words and keywords fit.** -/
theorem commandComplete_sound_iff (root : CommandNode F) (line : Str) :
    SoundAt host root line ↔ LineFits host root line := by
  constructor
  · rintro ⟨text, hrun, hsound⟩
    refine ⟨fun parent word rest h hnone => ?_, fun parent word node h hsome => ?_,
      fun parent word h hcomplete => ?_⟩
    · exact (h.unknown_ok_iff hnone).mp ⟨text, hrun⟩
    · exact (h.known_ok_iff hsome).mp ⟨text, hrun⟩
    · exact (h.completes_iff hcomplete hrun).mp (hsound parent word h hcomplete)
  · intro hfits
    obtain ⟨text, hrun⟩ : ∃ text, commandComplete host line root = .ok text := by
      obtain ⟨parent, word, rest, h, hnone | ⟨rfl, node, hsome⟩⟩ := @exists_leadsTo F host root line
      · exact (h.unknown_ok_iff hnone).mpr (hfits.unknown parent word rest h hnone)
      · exact (h.known_ok_iff hsome).mpr (hfits.argument parent word node h hsome)
    exact ⟨text, hrun, fun parent word h hcomplete =>
      (h.completes_iff hcomplete hrun).mpr (hfits.room parent word h hcomplete)⟩

/-- `show route A.B.C.D/M` -/
def routeRoot : CommandNode Unit :=
  ⟨[], ⟨none, none⟩, [⟨"show".toList, ⟨none, none⟩, [⟨"route".toList, ⟨none, none⟩,
    [⟨"A.B.C.D/M".toList, ⟨none, some ()⟩, []⟩]⟩]⟩]⟩

/-- The word is longer than what it is a word for. -/
theorem commandComplete_outside :
    commandComplete plainHost "show route 10.0.0.0/8".toList routeRoot = .error .outOfBounds
      ∧ ¬ SoundAt plainHost routeRoot "show route 10.0.0.0/8".toList := by
  have hcrash : commandComplete plainHost "show route 10.0.0.0/8".toList routeRoot
      = .error .outOfBounds := by
    decide +kernel
  refine ⟨hcrash, ?_⟩
  rintro ⟨text, htext, -⟩
  rw [hcrash] at htext
  cases htext

end SdPlane
