import SdPlane.CommandExecute

/-!
# The language of a command line (`command.c`)

A shell is told its commands one after the other, by `command_install` and
`command_install2`, and these make a tree of them. Taken together the commands are a grammar: each
stands for a set of word paths (`Installation.language`), of which every word may be abbreviated, or
be an argument, in the line that is typed.

`Parses` says which lines are read as which paths, and with which arguments; it looks at the
installations only and knows nothing of the tree. `commandExecute_language` is the result: a line
runs a function if and only if it is read as a path for which that function is the last that has been
installed. And whatever is installed can be typed: no other command, abbreviation or argument gets in
the way of a path whose words are written in full.
-/

set_option autoImplicit false

namespace SdPlane

variable {F : Type}

/-! ## The grammar -/

namespace Installation

/-- One alternative for each word; the empty ones leave no trace. -/
def language : Installation F → Set (List Str)
  | install commandLine _ _ => {words commandLine}
  | install2 commandLine _ _ =>
    {path | ∃ choice, List.Forall₂ (· ∈ ·) choice (levels commandLine) ∧ spell choice = path}

def func : Installation F → F
  | install _ _ func => func
  | install2 _ _ func => func

end Installation

/-- The function of a path is that of the last installation that has the path. -/
def Denotes (is : List (Installation F)) (path : List Str) (func : F) : Prop :=
  ∃ before i after, is = before ++ i :: after ∧ path ∈ i.language ∧ i.func = func
    ∧ ∀ j ∈ after, path ∉ j.language

/-- The words that lead on from a path. -/
def continuations (is : List (Installation F)) (path : List Str) : Set Str :=
  {k | ∃ i ∈ is, ∃ rest, path ++ k :: rest ∈ i.language}

section Host

variable (host : Host)

/-- Which of the words `K` is meant. A word that is written in full comes first. Otherwise there must be
    one way only to go on after it, and it must not do for an argument as well; or it is
    not the beginning of anything, and then it is the argument of the highest priority that it does
    for, of several the first. -/
inductive Resolves (K : Set Str) (word : Str) : Str → Prop
  | keyword (hmem : word ∈ K) : Resolves K word word
  | abbreviation {k : Str} (hmem : k ∈ K) (hpre : word <+: k)
      (honly : ∀ d ∈ K, word <+: d → d = k) (hnot : ∀ d ∈ K, ¬ isMatchVariable host d word) :
      Resolves K word k
  | argument {k : Str} (hnot : ∀ d ∈ K, ¬ word <+: d) (hmem : k ∈ K)
      (hmatch : isMatchVariable host k word)
      (hbest : ∀ d ∈ K, isMatchVariable host d word →
        varmatchPri host d ≤ varmatchPri host k
          ∧ (varmatchPri host d = varmatchPri host k → k ≤ d)) :
      Resolves K word k

/-- What a function gets for a word: keywords are written out. -/
def argumentOf (k word : Str) : Str := if isMatchVariable host k word then word else k

/-- From the path `path` on, the words are read as the path `path'`, with the arguments `argv`. An
    empty word is the end of the line; `<LINE>` and `<FILENAME>` take all that is left of it. -/
inductive Parses (is : List (Installation F)) (line : Str) :
    List Str → List Str → List Str → List (Option Str) → Prop
  | stop {path ws : List Str} (hend : ws = [] ∨ ws.head? = some []) : Parses is line path ws path []
  | word {path rest path' : List Str} {word k : Str} {argv : List (Option Str)} (hne : word ≠ [])
      (hmeans : Resolves host (continuations is path) word k)
      (hkey : (lineSpec k || fileSpec k) = false)
      (hrest : Parses is line (path ++ [k]) rest path' argv) :
      Parses is line path (word :: rest) path' (some (argumentOf host k word) :: argv)
  | last {path rest : List Str} {word k : Str} (hne : word ≠ [])
      (hmeans : Resolves host (continuations is path) word k)
      (hkey : (lineSpec k || fileSpec k) = true) :
      Parses is line path (word :: rest) (path ++ [k]) [Lib.strstr word line]

end Host

/-! ## What an installation installs -/

theorem mem_lastParents_choice (levels : List (List Str)) : ∀ {parents : List (List Str)}
    {q : List Str}, q ∈ lastParents parents levels
      ↔ ∃ p ∈ parents, ∃ choice, List.Forall₂ (· ∈ ·) choice levels ∧ p ++ spell choice = q := by
  induction levels with
  | nil =>
    intro parents q
    simp [lastParents, spell]
  | cons subwords levels ih =>
    intro parents q
    rw [lastParents, List.foldl_cons, ← lastParents, ih]
    constructor
    · rintro ⟨p', hp', choice, hchoice, rfl⟩
      obtain ⟨subword, hsub, hnext⟩ := List.mem_flatMap.mp hp'
      obtain ⟨p, hp, rfl⟩ := List.mem_map.mp hnext
      exact ⟨p, hp, subword :: choice, .cons hsub hchoice, (extend_append subword p choice).symm⟩
    · rintro ⟨p, hp, choice, hchoice, rfl⟩
      cases hchoice with
      | cons hsub hchoice =>
        exact ⟨_, List.mem_flatMap.mpr ⟨_, hsub, List.mem_map_of_mem hp⟩, _, hchoice,
          extend_append _ _ _⟩

theorem alternatives_ne_nil (word : Str) : alternatives word ≠ [] := List.splitOn_ne_nil _ _

/-- From every node some last one is reached. -/
theorem exists_lastParent (levels : List (List Str)) (hne : ∀ l ∈ levels, l ≠ []) :
    ∀ {parents : List (List Str)} {q : List Str}, q ∈ parents →
      ∃ p ∈ lastParents parents levels, q <+: p := by
  induction levels with
  | nil => intro parents q hq; exact ⟨q, hq, List.prefix_rfl⟩
  | cons subwords levels ih =>
    intro parents q hq
    obtain ⟨subword, hsub⟩ := List.exists_mem_of_ne_nil _ (hne subwords List.mem_cons_self)
    have hnext : extend subword q ∈ nextParents parents subwords :=
      List.mem_flatMap.mpr ⟨subword, hsub, List.mem_map_of_mem hq⟩
    obtain ⟨p, hp, hpre⟩ := ih (fun l hl => hne l (List.mem_cons_of_mem _ hl)) hnext
    rw [extend_eq] at hpre
    exact ⟨p, hp, (List.prefix_append _ _).trans hpre⟩

/-- Whatever is reached on the way begins a path. -/
theorem exists_of_mem_allParents (levels : List (List Str)) (hne : ∀ l ∈ levels, l ≠ []) :
    ∀ {parents : List (List Str)} {q : List Str}, q ∈ allParents parents levels →
      ∃ p ∈ lastParents parents levels, q <+: p := by
  induction levels with
  | nil => intro parents q hq; cases hq
  | cons subwords levels ih =>
    intro parents q hq
    have hlevels : ∀ l ∈ levels, l ≠ [] := fun l hl => hne l (List.mem_cons_of_mem _ hl)
    rcases List.mem_append.mp hq with hq | hq
    · exact exists_lastParent levels hlevels hq
    · exact ih hlevels hq

/-- And whatever begins a path is reached on the way, if it was not there to begin with. -/
theorem mem_allParents_of_prefix (levels : List (List Str)) :
    ∀ {parents : List (List Str)} {p q : List Str}, p ∈ lastParents parents levels → q <+: p →
      q ∈ allParents parents levels ∨ ∃ p₀ ∈ parents, q <+: p₀ := by
  induction levels with
  | nil => intro parents p q hp hpre; exact .inr ⟨p, hp, hpre⟩
  | cons subwords levels ih =>
    intro parents p q hp hpre
    rcases ih hp hpre with hq | ⟨p₁, hp₁, hpre₁⟩
    · exact .inl (List.mem_append_right _ hq)
    · obtain ⟨subword, hsub, hnext⟩ := List.mem_flatMap.mp hp₁
      obtain ⟨p₀, hp₀, rfl⟩ := List.mem_map.mp hnext
      unfold extend at hpre₁
      split at hpre₁
      · exact .inr ⟨p₀, hp₀, hpre₁⟩
      · next hsubword =>
        rcases List.prefix_concat_iff.mp hpre₁ with rfl | hpre₁
        · refine .inl (List.mem_append_left _ (List.mem_flatMap.mpr ⟨subword, hsub, ?_⟩))
          exact List.mem_map.mpr ⟨p₀, hp₀, by rw [extend, if_neg hsubword]⟩
        · exact .inr ⟨p₀, hp₀, hpre₁⟩

theorem mem_walked (ws : List Str) : ∀ {parent q : List Str},
    q ∈ Installation.walked parent ws ↔ ∃ r, r ≠ [] ∧ r <+: ws ∧ q = parent ++ r := by
  induction ws with
  | nil =>
    intro parent q
    constructor
    · intro h
      cases h
    · rintro ⟨r, hr, hpre, -⟩
      exact absurd (List.prefix_nil.mp hpre) hr
  | cons word ws ih =>
    intro parent q
    rw [Installation.walked, List.mem_cons, ih]
    constructor
    · rintro (rfl | ⟨r, -, hpre, rfl⟩)
      · exact ⟨[word], by simp, by simp, rfl⟩
      · exact ⟨word :: r, by simp, List.cons_prefix_cons.mpr ⟨rfl, hpre⟩, by simp⟩
    · rintro ⟨r, hr, hpre, rfl⟩
      cases r with
      | nil => exact absurd rfl hr
      | cons w r =>
        obtain ⟨rfl, hrpre⟩ := List.cons_prefix_cons.mp hpre
        by_cases hrest : r = []
        · exact .inl (by rw [hrest])
        · exact .inr ⟨r, hrest, hrpre, by simp⟩

namespace Installation

theorem mem_language_install2 {commandLine helpString : Str} {func : F} {q : List Str} :
    q ∈ (install2 commandLine helpString func).language
      ↔ q ∈ lastParents [[]] (levels commandLine) := by
  rw [mem_lastParents_choice]
  simp [language]

/-- For a pattern that is written as it should be, it is the language of the pattern. -/
theorem language_patternText {pattern : List PatternWord} (hne : pattern ≠ []) (helpString : Str)
    (func : F) : (install2 (patternText pattern) helpString func).language = Language pattern := by
  ext q
  rw [mem_language_install2, levels_patternText hne, mem_lastParents_iff]

/-- The nodes of an installation are where its paths go along. -/
theorem mem_paths_iff (i : Installation F) {q : List Str} (hq : q ≠ []) :
    q ∈ i.paths ↔ ∃ p ∈ i.language, q <+: p := by
  cases i with
  | install commandLine helpString func =>
    simp only [paths, language, mem_walked, List.nil_append, Set.mem_singleton_iff,
      exists_eq_left]
    constructor
    · rintro ⟨r, -, hpre, rfl⟩
      exact hpre
    · exact fun hpre => ⟨q, hq, hpre, rfl⟩
  | install2 commandLine helpString func =>
    have hne : ∀ l ∈ levels commandLine, l ≠ [] := by
      intro l hl
      obtain ⟨word, -, rfl⟩ := List.mem_map.mp hl
      exact alternatives_ne_nil word
    simp only [mem_language_install2]
    constructor
    · exact exists_of_mem_allParents _ hne
    · rintro ⟨p, hp, hpre⟩
      rcases mem_allParents_of_prefix _ hp hpre with hmem | ⟨p₀, hp₀, hpre₀⟩
      · exact hmem
      · rw [List.mem_singleton.mp hp₀] at hpre₀
        exact absurd (List.prefix_nil.mp hpre₀) hq

end Installation

theorem installWords_node (ws : List Str) : ∀ {helps : List Str} {root : CommandNode F}
    {parent : List Str}, (installWords ws helps root parent).2 = parent ++ ws := by
  induction ws with
  | nil => intro helps root parent; simp [installWords]
  | cons word ws ih =>
    intro helps root parent
    rw [installWords, ih]
    simp

/-- The paths of the language lead to the new function, all others where they led. -/
theorem Installation.run_funcAt {root root' : CommandNode F} (hroot : root.Sorted)
    {i : Installation F} (h : i.run root = .ok root') (q : List Str) :
    (q ∈ i.language → funcAt root' q = some i.func)
      ∧ (q ∉ i.language → funcAt root' q = funcAt root q) := by
  cases i with
  | install commandLine helpString func =>
    obtain rfl := Except.ok.inj h
    have hplanted := @planted_installWords F (words commandLine) (helpString.splitOn '\n') root []
      hroot rfl
    have hnode := @installWords_node F (words commandLine) (helpString.splitOn '\n') root []
    rw [List.nil_append] at hnode
    have hthere : ((installWords (words commandLine) (helpString.splitOn '\n') root []).1.entry
        (words commandLine)).isSome := by
      rw [hplanted.present, mem_walked]
      exact .inr ⟨_, words_ne_nil commandLine, List.prefix_rfl, rfl⟩
    have hfunc := funcAt_setFunc func [words commandLine] q _
      (List.forall_mem_singleton.mpr hthere)
    rw [List.foldl_cons, List.foldl_nil, hplanted.funcAt_eq] at hfunc
    have hmem : q ∈ (install commandLine helpString func).language ↔ q ∈ [words commandLine] :=
      List.mem_singleton.symm
    simp only [commandInstall, hnode]
    rw [hmem, hfunc]
    exact ⟨fun hq => if_pos hq, fun hq => if_neg hq⟩
  | install2 commandLine helpString func =>
    obtain ⟨-, -, hfunc⟩ := commandInstall2_ok hroot h
    rw [mem_language_install2, hfunc]
    exact ⟨fun hq => if_pos hq, fun hq => if_neg hq⟩

theorem Denotes.cons {i : Installation F} {is : List (Installation F)} {path : List Str} {func : F} :
    Denotes (i :: is) path func ↔ Denotes is path func
      ∨ path ∈ i.language ∧ i.func = func ∧ ∀ j ∈ is, path ∉ j.language := by
  constructor
  · rintro ⟨before, j, after, heq, hrest⟩
    cases before with
    | nil =>
      obtain ⟨rfl, rfl⟩ := List.cons.inj heq
      exact .inr hrest
    | cons i' before =>
      obtain ⟨rfl, rfl⟩ := List.cons.inj heq
      exact .inl ⟨before, j, after, rfl, hrest⟩
  · rintro (⟨before, j, after, rfl, hrest⟩ | hrest)
    · exact ⟨i :: before, j, after, rfl, hrest⟩
    · exact ⟨[], i, is, rfl, hrest⟩

/-- After a run of installations, a path leads to the function that was installed last, or to that of
    before if none was. -/
theorem funcAt_installAll (is : List (Installation F)) : ∀ {root root' : CommandNode F},
    root.Sorted → installAll root is = .ok root' → ∀ (path : List Str) (func : F),
      funcAt root' path = some func
        ↔ Denotes is path func ∨ (∀ i ∈ is, path ∉ i.language) ∧ funcAt root path = some func := by
  induction is with
  | nil =>
    intro root root' hroot h path func
    obtain rfl := Except.ok.inj h
    simp [Denotes]
  | cons i is ih =>
    intro root root' hroot h path func
    obtain ⟨root₁, hone, h⟩ := bind_ok h
    obtain ⟨hin, hout⟩ := i.run_funcAt hroot hone path
    rw [ih (i.run_ok hroot hone).1 h, Denotes.cons, or_assoc]
    refine or_congr_right ?_
    by_cases hpath : path ∈ i.language
    · rw [hin hpath]
      simp [hpath, and_comm]
    · rw [hout hpath]
      simp [hpath]

section Tree

variable {is : List (Installation F)} {root : CommandNode F}
  (h : installAll commandSetCreate is = .ok root)
include h

theorem funcAt_iff_denotes (path : List Str) (func : F) :
    funcAt root path = some func ↔ Denotes is path func := by
  rw [funcAt_installAll is CommandSet.create.sorted h]
  refine or_iff_left fun hnone => ?_
  have hleaf : funcAt (CommandSet.create : CommandSet F).root path = none := by
    cases path with
    | nil => rfl
    | cons k path => rfl
  rw [hleaf] at hnone
  cases hnone.2

/-- The children of a node are the words that lead on. -/
theorem mem_keys_iff_continuations {path : List Str} {n : CommandNode F}
    (hn : root.sub path = some n) (k : Str) :
    (∃ c ∈ n.children, c.key = k) ↔ k ∈ continuations is path := by
  obtain ⟨hsorted, hpresent⟩ := installAll_ok is CommandSet.create.sorted h
  have hleaf : ((commandSetCreate : CommandNode F).entry (path ++ [k])).isSome ↔ False := by
    cases path with
    | nil => exact ⟨fun hk => absurd hk Bool.false_ne_true, False.elim⟩
    | cons k path => exact ⟨fun hk => absurd hk Bool.false_ne_true, False.elim⟩
  rw [← List.mem_map, hsorted.mem_keys_iff hn, hpresent, CommandSet.create, hleaf, false_or]
  refine exists_congr fun i => and_congr_right fun _ => ?_
  rw [i.mem_paths_iff (by simp)]
  constructor
  · rintro ⟨-, hp, rest, rfl⟩
    exact ⟨rest, by simpa using hp⟩
  · rintro ⟨rest, hp⟩
    exact ⟨_, hp, rest, by simp⟩

end Tree

/-! ## What a word means -/

section Host

variable (host : Host)

/-- Of the children that match as arguments, the first of the highest priority. -/
def FirstBest (vars : List (CommandNode F)) (s : MatchState F) : Prop :=
  (s.varmatch = none → vars = []) ∧ ∀ best, s.varmatch = some best → best ∈ vars ∧ ∀ m ∈ vars,
    varmatchPri host m.key ≤ varmatchPri host best.key
      ∧ (varmatchPri host m.key = varmatchPri host best.key → best.key ≤ m.key)

theorem FirstBest.addVar {vars : List (CommandNode F)} {s : MatchState F}
    (h : FirstBest host vars s) {node : CommandNode F} (hlt : ∀ m ∈ vars, m.key < node.key) :
    FirstBest host (vars ++ [node]) (s.addVar host node) := by
  obtain ⟨hnone, hbest⟩ := h
  cases hvar : s.varmatch with
  | none =>
    rw [hnone hvar, List.nil_append]
    refine ⟨by simp [MatchState.addVar, hvar], fun best hb => ?_⟩
    simp only [MatchState.addVar, hvar, Option.some.injEq] at hb
    subst hb
    simp
  | some best =>
    obtain ⟨hmem, hmax⟩ := hbest best hvar
    by_cases hgt : varmatchPri host node.key > varmatchPri host best.key
    · -- the new one is better than all before
      refine ⟨by simp [MatchState.addVar, hvar, hgt], fun b hb => ?_⟩
      simp only [MatchState.addVar, hvar, hgt, if_true, Option.some.injEq] at hb
      subst hb
      refine ⟨by simp, fun m hm => ?_⟩
      rcases List.mem_append.mp hm with hm | hm
      · have hless := (hmax m hm).1
        exact ⟨by omega, fun heq => by omega⟩
      · rw [List.mem_singleton.mp hm]
        exact ⟨le_rfl, fun _ => le_rfl⟩
    · -- and if it is just as good it comes behind
      refine ⟨by simp [MatchState.addVar, hvar, hgt], fun b hb => ?_⟩
      simp only [MatchState.addVar, hvar, hgt, if_false, Option.some.injEq] at hb
      subst hb
      refine ⟨List.mem_append_left _ hmem, fun m hm => ?_⟩
      rcases List.mem_append.mp hm with hm | hm
      · exact hmax m hm
      · rw [List.mem_singleton.mp hm]
        exact ⟨not_lt.mp hgt, fun _ => (hlt best hmem).le⟩

theorem firstBest_foldl (word : Str) (nodes : List (CommandNode F)) :
    ∀ {vars : List (CommandNode F)} {s : MatchState F}, FirstBest host vars s →
    (∀ m ∈ vars, ∀ node ∈ nodes, m.key < node.key) → nodes.Pairwise (·.key < ·.key) →
    FirstBest host (vars ++ varChildren host word nodes)
      (nodes.foldl (MatchState.step host word) s) := by
  induction nodes with
  | nil =>
    intro vars s h _ _
    simpa [varChildren] using h
  | cons node nodes ih =>
    intro vars s h hlt hsorted
    obtain ⟨hnode, hsorted⟩ := List.pairwise_cons.mp hsorted
    have hrest : ∀ m ∈ vars, ∀ node ∈ nodes, m.key < node.key :=
      fun m hm n hn => hlt m hm n (List.mem_cons_of_mem _ hn)
    have hkept : ∀ s : MatchState F, FirstBest host vars s →
        FirstBest host vars (if isMatchRegular node.key word then s.addReg node else s) := by
      intro s hs
      split
      · exact hs
      · exact hs
    rw [List.foldl_cons, MatchState.step, varChildren, List.filter_cons]
    by_cases hv : isMatchVariable host node.key word
    · have hadded : FirstBest host (vars ++ [node]) (if isMatchRegular node.key word then
          (s.addVar host node).addReg node else s.addVar host node) := by
        have hone := h.addVar host fun m hm => hlt m hm node List.mem_cons_self
        split
        · exact hone
        · exact hone
      have hbefore : ∀ m ∈ vars ++ [node], ∀ n ∈ nodes, m.key < n.key := by
        intro m hm n hn
        rcases List.mem_append.mp hm with hm | hm
        · exact hrest m hm n hn
        · rw [List.mem_singleton.mp hm]
          exact hnode n hn
      simpa [hv, varChildren] using ih hadded hbefore hsorted
    · simpa [hv, varChildren] using ih (hkept s h) hrest hsorted

section Resolution

variable {parent : CommandNode F} (hsorted : parent.children.Pairwise (·.key < ·.key)) {K : Set Str}
  (hK : ∀ k, (∃ c ∈ parent.children, c.key = k) ↔ k ∈ K) {word : Str}
include hsorted hK

/-- What is found is meant. -/
theorem resolves_of_matchUniqueExact {c : CommandNode F}
    (h : matchUniqueExact host parent word = some c) :
    c ∈ parent.children ∧ Resolves host K word c.key := by
  have hmem : ∀ d ∈ parent.children, d.key ∈ K := fun d hd => (hK _).mp ⟨d, hd, rfl⟩
  have hfound := @found_foldl host F word parent.children [] [] ⟨none, none, 0, 0⟩
    ⟨rfl, rfl, ⟨rfl, rfl⟩, rfl⟩
  have hfirst := @firstBest_foldl F host word parent.children [] ⟨none, none, 0, 0⟩
    ⟨fun _ => rfl, fun _ hb => by cases hb⟩ (fun _ hm => absurd hm List.not_mem_nil) hsorted
  rw [List.nil_append] at hfirst
  rw [List.nil_append, List.nil_append] at hfound
  unfold matchUniqueExact matchUnique at h
  generalize parent.children.foldl (MatchState.step host word) ⟨none, none, 0, 0⟩ = s at *
  have hvar := hfound.varCount
  have hcount := hfound.count
  have hfoundIn := hfound.found
  have hexact : commandMatchExact parent word = some c →
      c ∈ parent.children ∧ Resolves host K word c.key := by
    intro hc
    rw [commandMatchExact_eq_child hsorted] at hc
    have hkey := Lib.KeyTree.key_child hc
    have hchild := Lib.KeyTree.mem_child hc
    rw [hkey]
    exact ⟨hchild, .keyword (hkey ▸ hmem c hchild)⟩
  by_cases hnone : s.found.isNone
  · exact hexact (by simpa [hnone] using h)
  by_cases hall : s.varmatchCount = s.matchCount
  · -- nothing but arguments
    have hreg : regChildren word parent.children = [] := List.length_eq_zero_iff.mp (by omega)
    cases hbest : s.varmatch with
    | none => exact hexact (by simpa [hnone, hall, hbest] using h)
    | some best =>
      obtain rfl : best = c := by simpa [hnone, hall, hbest] using h
      obtain ⟨hin, hmax⟩ := hfirst.2 best hbest
      obtain ⟨hchild, hmatch⟩ := List.mem_filter.mp hin
      refine ⟨hchild, .argument (fun d hd hpre => ?_) (hmem best hchild) hmatch fun d hd hd' => ?_⟩
      · obtain ⟨n, hn, rfl⟩ := (hK d).mpr hd
        have hmemReg : n ∈ regChildren word parent.children :=
          List.mem_filter.mpr ⟨hn, by simpa [isMatchRegular] using hpre⟩
        rw [hreg] at hmemReg
        cases hmemReg
      · obtain ⟨n, hn, rfl⟩ := (hK d).mpr hd
        exact hmax n (List.mem_filter.mpr ⟨hn, hd'⟩)
  · by_cases hone : s.matchCount = 1
    · -- one keyword, and no argument
      have hvars : varChildren host word parent.children = [] :=
        List.length_eq_zero_iff.mp (by omega)
      obtain ⟨m, hm⟩ := List.length_eq_one_iff.mp
        (by omega : (regChildren word parent.children).length = 1)
      rw [hvars, hm] at hfoundIn
      cases hf : s.found with
      | none => exact absurd (by rw [hf]; rfl) hnone
      | some n =>
        simp only [hf, List.not_mem_nil, List.mem_singleton, false_or] at hfoundIn
        have hvarOne : s.varmatchCount ≠ 1 := by omega
        obtain rfl : n = c := by simpa [hone, hf, hvarOne] using h
        subst hfoundIn
        have hin : n ∈ regChildren word parent.children := hm ▸ List.mem_singleton_self n
        obtain ⟨hchild, hpre⟩ := List.mem_filter.mp hin
        refine ⟨hchild, .abbreviation (hmem n hchild) (by simpa [isMatchRegular] using hpre)
          (fun d hd hd' => ?_) fun d hd hd' => ?_⟩
        · obtain ⟨e, he, rfl⟩ := (hK d).mpr hd
          have hmemReg : e ∈ regChildren word parent.children :=
            List.mem_filter.mpr ⟨he, by simpa [isMatchRegular] using hd'⟩
          rw [hm, List.mem_singleton] at hmemReg
          rw [hmemReg]
        · obtain ⟨e, he, rfl⟩ := (hK d).mpr hd
          have hmemVar : e ∈ varChildren host word parent.children := List.mem_filter.mpr ⟨he, hd'⟩
          rw [hvars] at hmemVar
          cases hmemVar
    · exact hexact (by simpa [hnone, hall, hone] using h)

/-- And what is meant is found. -/
theorem matchUniqueExact_of_resolves {k : Str} (h : Resolves host K word k) :
    ∃ c, matchUniqueExact host parent word = some c ∧ c.key = k := by
  have hdistinct : parent.children.Pairwise (·.key ≠ ·.key) := hsorted.imp ne_of_lt
  cases h with
  | keyword hmem =>
    obtain ⟨c, hc, hkey⟩ := (hK word).mpr hmem
    exact ⟨c, matchUniqueExact_exact host hdistinct hc hkey, hkey⟩
  | abbreviation hmem hpre honly hnot =>
    obtain ⟨c, hc, hkey⟩ := (hK k).mpr hmem
    have hvars : varChildren host word parent.children = [] :=
      List.filter_eq_nil_iff.mpr fun d hd => hnot d.key ((hK _).mp ⟨d, hd, rfl⟩)
    have hregs : ∀ d ∈ regChildren word parent.children, d = c := by
      intro d hd
      obtain ⟨hchild, hd⟩ := List.mem_filter.mp hd
      refine Lib.KeyTree.eq_of_key_eq hsorted hchild hc ?_
      rw [hkey, honly d.key ((hK _).mp ⟨d, hchild, rfl⟩) (by simpa [isMatchRegular] using hd)]
    have hin : c ∈ regChildren word parent.children :=
      List.mem_filter.mpr ⟨hc, by simpa [isMatchRegular, hkey] using hpre⟩
    have hlen : (regChildren word parent.children).length = 1 := by
      have hnodup : (regChildren word parent.children).Nodup :=
        (hdistinct.imp fun hne heq => hne (congrArg _ heq)).filter _
      have hsub : regChildren word parent.children ⊆ [c] :=
        fun d hd => List.mem_singleton.mpr (hregs d hd)
      have hle := hnodup.length_le_of_subset hsub
      have hpos := List.length_pos_of_mem hin
      rw [List.length_singleton] at hle
      omega
    obtain ⟨s, hs, hunique⟩ := matchUnique_eq host parent word
    have hvar := hs.varCount
    have hcount := hs.count
    have hfound := hs.found
    rw [hvars, List.length_nil] at hvar hcount
    cases hf : s.found with
    | none =>
      simp only [hf] at hfound
      rw [hfound.2] at hin
      cases hin
    | some n =>
      simp only [hf] at hfound
      rw [hvars] at hfound
      obtain rfl := hregs n (hfound.resolve_left List.not_mem_nil)
      have hone : s.matchCount = 1 := by omega
      refine ⟨n, ?_, hkey⟩
      rw [matchUniqueExact, hunique]
      simp [hf, hone, hvar]
  | argument hnot hmem hmatch hbest =>
    obtain ⟨c, hc, hkey⟩ := (hK k).mpr hmem
    have hreg : ∀ d ∈ parent.children, ¬ word <+: d.key :=
      fun d hd => hnot d.key ((hK _).mp ⟨d, hd, rfl⟩)
    obtain ⟨v, hv, hfound, hvmatch, hvmax⟩ :=
      matchUniqueExact_variable host hreg hc (hkey ▸ hmatch)
    have hvmem : v.key ∈ K := (hK _).mp ⟨v, hv, rfl⟩
    obtain ⟨hle, hfirst⟩ := hbest v.key hvmem hvmatch
    have hge := hvmax c hc (hkey ▸ hmatch)
    rw [hkey] at hge
    refine ⟨v, hfound, le_antisymm ?_ (hfirst (le_antisymm hle hge))⟩
    -- both are the first of the best
    obtain ⟨-, hresolves⟩ := resolves_of_matchUniqueExact host hsorted hK hfound
    cases hresolves with
    | keyword => exact absurd List.prefix_rfl (hnot _ hvmem)
    | abbreviation _ hpre => exact absurd hpre (hnot _ hvmem)
    | argument _ _ _ hvbest => exact (hvbest k hmem hmatch).2 (le_antisymm hge hle)

end Resolution

/-! ## Lines -/

section Tree

variable {is : List (Installation F)} {root : CommandNode F}
  (h : installAll commandSetCreate is = .ok root) (line : Str)
include h

theorem resolves_iff {path : List Str} {n : CommandNode F} (hn : root.sub path = some n)
    (word k : Str) : Resolves host (continuations is path) word k
      ↔ ∃ c, matchUniqueExact host n word = some c ∧ root.sub (path ++ [k]) = some c ∧ c.key = k := by
  have hsorted := ((installAll_ok is CommandSet.create.sorted h).1.sub hn).children
  have hkeys := mem_keys_iff_continuations h hn
  constructor
  · intro hmeans
    obtain ⟨c, hc, hkey⟩ := matchUniqueExact_of_resolves host hsorted hkeys hmeans
    obtain ⟨hchild, -⟩ := resolves_of_matchUniqueExact host hsorted hkeys hc
    refine ⟨c, hc, ?_, hkey⟩
    rw [Lib.KeyTree.sub_concat hn]
    exact (Lib.KeyTree.child_eq_some_iff hsorted).mpr ⟨hchild, hkey⟩
  · rintro ⟨c, hc, -, rfl⟩
    exact (resolves_of_matchUniqueExact host hsorted hkeys hc).2

/-- The loop of `command_execute` reads a line as `Parses` does, by induction on the words. -/
theorem executeFrom_iff (ws : List Str) : ∀ {path : List Str} {n : CommandNode F}
    {found : Option (CommandNode F)}, root.sub path = some n →
    found = (if path = [] then none else some n) → ∀ (m : CommandNode F) (argv : List (Option Str)),
    executeFrom host line ws n found = (some m, argv)
      ↔ ∃ path', path' ≠ [] ∧ root.sub path' = some m ∧ Parses host is line path ws path' argv := by
  have hstop : ∀ {path ws : List Str} {n : CommandNode F} {found : Option (CommandNode F)},
      root.sub path = some n → found = (if path = [] then none else some n) →
      (ws = [] ∨ ws.head? = some []) → ∀ (m : CommandNode F) (argv : List (Option Str)),
      (found, ([] : List (Option Str))) = (some m, argv) ↔ ∃ path', path' ≠ []
        ∧ root.sub path' = some m ∧ Parses host is line path ws path' argv := by
    intro path ws n found hn hfound hend m argv
    constructor
    · intro heq
      obtain ⟨rfl, rfl⟩ := Prod.mk.inj heq
      by_cases hpath : path = []
      · simp [hpath] at hfound
      · obtain rfl : m = n := by simpa [hpath] using hfound
        exact ⟨path, hpath, hn, .stop hend⟩
    · rintro ⟨path', hpath', hm, hparses⟩
      cases hparses with
      | stop =>
        rw [hn] at hm
        rw [hfound, if_neg hpath', hm]
      | word hne => simp [hne] at hend
      | last hne => simp [hne] at hend
  induction ws with
  | nil =>
    intro path n found hn hfound m argv
    exact hstop hn hfound (.inl rfl) m argv
  | cons word rest ih =>
    intro path n found hn hfound m argv
    rw [executeFrom]
    by_cases hempty : word = []
    · rw [if_pos hempty]
      exact hstop hn hfound (.inr (by rw [hempty]; rfl)) m argv
    rw [if_neg hempty]
    have hmeans := resolves_iff host h hn word
    cases hmatch : matchUniqueExact host n word with
    | none =>
      -- nothing is meant by the word
      have hnone : ∀ k, ¬ Resolves host (continuations is path) word k := by
        intro k hk
        obtain ⟨c, hc, -⟩ := (hmeans k).mp hk
        rw [hmatch] at hc
        cases hc
      constructor
      · intro heq
        cases heq
      · rintro ⟨path', -, -, hparses⟩
        cases hparses with
        | stop hend => simp [hempty] at hend
        | word _ hk => exact absurd hk (hnone _)
        | last _ hk => exact absurd hk (hnone _)
    | some node =>
      have hkey : ∀ {k}, Resolves host (continuations is path) word k →
          root.sub (path ++ [k]) = some node ∧ node.key = k := by
        intro k hk
        obtain ⟨c, hc, hsub, hkey⟩ := (hmeans k).mp hk
        rw [hmatch] at hc
        obtain rfl := Option.some.inj hc
        exact ⟨hsub, hkey⟩
      have hresolves : Resolves host (continuations is path) word node.key := by
        refine (hmeans _).mpr ⟨node, hmatch, ?_, rfl⟩
        have hsorted := ((installAll_ok is CommandSet.create.sorted h).1.sub hn).children
        obtain ⟨hchild, -⟩ :=
          resolves_of_matchUniqueExact host hsorted (mem_keys_iff_continuations h hn) hmatch
        rw [Lib.KeyTree.sub_concat hn]
        exact (Lib.KeyTree.child_eq_some_iff hsorted).mpr ⟨hchild, rfl⟩
      have hnext := (hkey hresolves).1
      by_cases hlast : (lineSpec node.key || fileSpec node.key) = true
      · simp only [if_pos hlast]
        constructor
        · intro heq
          obtain ⟨hnode, rfl⟩ := Prod.mk.inj heq
          obtain rfl := Option.some.inj hnode
          exact ⟨_, by simp, hnext, .last hempty hresolves hlast⟩
        · rintro ⟨path', -, hm, hparses⟩
          cases hparses with
          | stop hend => simp [hempty] at hend
          | word _ hk hnot =>
            obtain rfl := (hkey hk).2
            rw [hlast] at hnot
            cases hnot
          | last _ hk _ =>
            obtain rfl := (hkey hk).2
            rw [hnext] at hm
            rw [hm]
      · simp only [if_neg hlast]
        have hrest := @ih _ node (some node) hnext (by simp)
        have harg : commandReplace host node word = argumentOf host node.key word := by
          simp only [Bool.or_eq_true, not_or] at hlast
          simp only [commandReplace, argumentOf, if_neg hlast.2]
          cases isMatchVariable host node.key word <;> rfl
        constructor
        · intro heq
          obtain ⟨hfst, rfl⟩ := Prod.mk.inj heq
          obtain ⟨path', hpath', hm, hparses⟩ := (hrest m _).mp (Prod.ext hfst rfl)
          rw [harg]
          exact ⟨path', hpath', hm, .word hempty hresolves (by simpa using hlast) hparses⟩
        · rintro ⟨path', hpath', hm, hparses⟩
          cases hparses with
          | stop hend => simp [hempty] at hend
          | word _ hk _ hparses =>
            obtain rfl := (hkey hk).2
            rw [(hrest m _).mpr ⟨path', hpath', hm, hparses⟩, harg]
          | last _ hk hline =>
            obtain rfl := (hkey hk).2
            exact absurd hline hlast

end Tree

/-- A function is called with some arguments just when the line is read as a path for which it is the last
    function that has been installed. -/
theorem commandExecute_iff {is : List (Installation F)} {root : CommandNode F}
    (h : installAll commandSetCreate is = .ok root) (line : Str) (func : F)
    (argv : List (Option Str)) :
    commandExecute host line root = some (func, argv)
      ↔ ∃ path, path ≠ [] ∧ Parses host is line [] (words line) path argv
        ∧ Denotes is path func := by
  have hrun := @executeFrom_iff F host is root h line (words line) [] root none rfl (by simp)
  have hfunc : ∀ {path : List Str} {m : CommandNode F}, root.sub path = some m →
      (m.val.func = some func ↔ Denotes is path func) := by
    intro path m hm
    rw [← funcAt_iff_denotes h, funcAt, Lib.KeyTree.entry, hm]
    rfl
  unfold commandExecute
  constructor
  · intro hexec
    obtain ⟨func', hbind, heq⟩ := Option.map_eq_some_iff.mp hexec
    obtain ⟨m, hm, hval⟩ := Option.bind_eq_some_iff.mp hbind
    obtain ⟨rfl, rfl⟩ := Prod.mk.inj heq
    obtain ⟨path, hpath, hsub, hparses⟩ := (hrun m _).mp (Prod.ext hm rfl)
    exact ⟨path, hpath, hparses, (hfunc hsub).mp hval⟩
  · rintro ⟨path, hpath, hparses, hdenotes⟩
    have hthere := (funcAt_iff_denotes h path func).mpr hdenotes
    obtain ⟨e, he, hval⟩ := Option.bind_eq_some_iff.mp hthere
    obtain ⟨m, hm, rfl⟩ := Option.map_eq_some_iff.mp he
    rw [(hrun m argv).mpr ⟨path, hpath, hm, hparses⟩]
    simp [hval]

/-! ## Commands in full -/

/-- Words in full are read as themselves. -/
theorem parses_typed {is : List (Installation F)} (line : Str) {i : Installation F} (hi : i ∈ is)
    (rest : List Str) : ∀ {path : List Str}, path ++ rest ∈ i.language →
    (∀ w ∈ rest, w ≠ [] ∧ (lineSpec w || fileSpec w) = false) →
    Parses host is line path rest (path ++ rest) (rest.map some) := by
  induction rest with
  | nil =>
    intro path _ _
    rw [List.append_nil]
    exact .stop (.inl rfl)
  | cons w rest ih =>
    intro path hmem hwords
    obtain ⟨⟨hne, hkey⟩, hrest⟩ := List.forall_mem_cons.mp hwords
    have hfull : argumentOf host w w = w := ite_self w
    have hnext := @ih (path ++ [w]) (by simpa using hmem) hrest
    rw [List.append_assoc, List.singleton_append] at hnext
    have hthis := Parses.word hne (.keyword ⟨i, hi, rest, hmem⟩) hkey hnext
    rwa [hfull] at hthis

/-- The words of a path, with spaces between them, run the function that was installed last for it. -/
theorem commandExecute_typed {is : List (Installation F)} {root : CommandNode F}
    (h : installAll commandSetCreate is = .ok root) {path : List Str} {func : F}
    (hdenotes : Denotes is path func) (hne : path ≠ [])
    (hwords : ∀ w ∈ path, w ≠ [] ∧ ' ' ∉ w ∧ (lineSpec w || fileSpec w) = false) :
    commandExecute host ([' '].intercalate path) root = some (func, path.map some) := by
  obtain ⟨before, i, after, rfl, hmem, -⟩ := id hdenotes
  have hsplit : words ([' '].intercalate path) = path :=
    List.splitOn_intercalate ' ' (fun w hw => (hwords w hw).2.1) hne
  refine (commandExecute_iff host h _ func _).mpr ⟨path, hne, ?_, hdenotes⟩
  rw [hsplit]
  have hi : i ∈ before ++ i :: after := List.mem_append_right _ List.mem_cons_self
  exact parses_typed host _ hi path (by simpa using hmem)
    fun w hw => ⟨(hwords w hw).1, (hwords w hw).2.2⟩

/-! ## The result -/

/-- **The line runs what it says.** Whatever has been installed, `command_execute` calls a function
    with some arguments just when the line is read, in the grammar of the installations, as a path for
    which that function is the last to have been installed; and every path that has been installed can
    be typed, whatever else there is before and after. -/
theorem commandExecute_language {is : List (Installation F)} {root : CommandNode F}
    (h : installAll commandSetCreate is = .ok root) :
    (∀ line func argv, commandExecute host line root = some (func, argv)
      ↔ ∃ path, path ≠ [] ∧ Parses host is line [] (words line) path argv ∧ Denotes is path func)
    ∧ ∀ path func, Denotes is path func → path ≠ [] →
      (∀ w ∈ path, w ≠ [] ∧ ' ' ∉ w ∧ (lineSpec w || fileSpec w) = false) →
      commandExecute host ([' '].intercalate path) root = some (func, path.map some) :=
  ⟨fun line func argv => commandExecute_iff host h line func argv,
    fun _ _ hdenotes hne hwords => commandExecute_typed host h hdenotes hne hwords⟩

end Host

/-- With `(|no) up` and `show` installed, `n u` is read as `no up`, and `show` can be typed. -/
theorem commandExecute_no_up : ∃ root : CommandNode Nat,
    (∃ path, path ≠ []
      ∧ Parses plainHost [.install2 "(|no) up".toList [] 1, .install "show".toList [] 2]
        "n u".toList [] (words "n u".toList) path [some "no".toList, some "up".toList]
      ∧ Denotes [.install2 "(|no) up".toList [] 1, .install "show".toList [] 2] path 1)
    ∧ commandExecute plainHost "show".toList root = some (2, [some "show".toList]) := by
  obtain ⟨hparses, htyped⟩ := commandExecute_language plainHost
    (rfl : installAll commandSetCreate
      [.install2 "(|no) up".toList [] 1, .install "show".toList [] 2] = .ok _)
  refine ⟨_, (hparses "n u".toList 1 _).mp rfl, htyped ["show".toList] 2 ?_ (by decide) (by decide)⟩
  exact ⟨[_], _, [], rfl, rfl, rfl, fun j hj => absurd hj List.not_mem_nil⟩

end SdPlane
