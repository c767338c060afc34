import SdPlane.CommandTree

/-!
# The language of a command pattern

A pattern is a row of words, each a literal or a list of alternatives in parentheses, one of
which may be empty. It stands for the word paths that one gets by choosing an alternative for
every word (`Language`). `commandInstall2_language` says that `command_install2` installs
just these.
-/

set_option autoImplicit false

namespace SdPlane

/-- No character that means something in a pattern. -/
def Plain (w : Str) : Prop := ∀ c ∈ w, c ≠ ' ' ∧ c ≠ '(' ∧ c ≠ ')' ∧ c ≠ '|'

/-- A word of a pattern. -/
inductive PatternWord
  | literal (w : Str) (ne : w ≠ []) (plain : Plain w)
  | list (alts : List Str) (ne : alts ≠ []) (distinct : alts.Nodup) (plain : ∀ a ∈ alts, Plain a)

namespace PatternWord

def alts : PatternWord → List Str
  | literal w _ _ => [w]
  | list alts _ _ _ => alts

/-- How it is written. -/
def text : PatternWord → Str
  | literal w _ _ => w
  | list alts _ _ _ => '(' :: ['|'].intercalate alts ++ [')']

theorem alts_ne_nil (w : PatternWord) : w.alts ≠ [] := by
  cases w with
  | literal w ne plain => simp [alts]
  | list alts ne distinct plain => exact ne

theorem nodup_alts (w : PatternWord) : w.alts.Nodup := by
  cases w with
  | literal w ne plain => simp [alts]
  | list alts ne distinct plain => exact distinct

end PatternWord

/-- How a pattern is written. -/
def patternText (pattern : List PatternWord) : Str :=
  [' '].intercalate (pattern.map PatternWord.text)

/-- One alternative for each word. -/
def Choice (pattern : List PatternWord) (choice : List Str) : Prop :=
  List.Forall₂ (fun subword word => subword ∈ word.alts) choice pattern

/-- The path of a choice: empty alternatives leave no trace. -/
def spell (choice : List Str) : List Str := choice.filter (· ≠ [])

def Language (pattern : List PatternWord) : Set (List Str) :=
  {path | ∃ choice, Choice pattern choice ∧ spell choice = path}

/-- No two choices spell the same path. -/
def Unambiguous (pattern : List PatternWord) : Prop :=
  ∀ choice choice', Choice pattern choice → Choice pattern choice' →
    spell choice = spell choice' → choice = choice'

/-! ## Reading a pattern -/

theorem mem_intercalate {sep c : Char} {ls : List Str} (h : c ∈ [sep].intercalate ls) :
    c = sep ∨ ∃ l ∈ ls, c ∈ l := by
  induction ls with
  | nil => simp at h
  | cons l ls ih =>
    cases ls with
    | nil => exact .inr ⟨l, List.mem_cons_self, by simpa using h⟩
    | cons l' ls =>
      rw [List.intercalate_cons_cons] at h
      simp only [List.mem_append, List.mem_singleton] at h
      rcases h with (hc | hc) | hc
      · exact .inr ⟨l, List.mem_cons_self, hc⟩
      · exact .inl hc
      · exact (ih hc).imp_right fun ⟨m, hm, hcm⟩ => ⟨m, List.mem_cons_of_mem _ hm, hcm⟩

theorem alternatives_text (w : PatternWord) : alternatives w.text = w.alts := by
  cases w with
  | literal w ne plain =>
    have hopen : '(' ∉ w := fun h => (plain _ h).2.1 rfl
    have hclose : w.takeWhile (· ≠ ')') = w :=
      List.takeWhile_eq_self_iff.mpr fun c hc => by simpa using (plain c hc).2.2.1
    have hbar : '|' ∉ w := fun h => (plain _ h).2.2.2 rfl
    rw [alternatives, PatternWord.text]
    simp only [if_neg hopen, hclose]
    exact List.splitOn_eq_singleton hbar
  | list alts ne distinct plain =>
    have hclose : ∀ c ∈ ['|'].intercalate alts, c ≠ ')' := by
      intro c hc
      rcases mem_intercalate hc with rfl | ⟨a, ha, hca⟩
      · decide
      · exact (plain a ha c hca).2.2.1
    have htake : (['|'].intercalate alts ++ [')']).takeWhile (· ≠ ')')
        = ['|'].intercalate alts := by
      rw [List.takeWhile_append_of_pos (by simpa using hclose)]
      simp
    have hopen : '(' ∈ '(' :: ['|'].intercalate alts ++ [')'] := by simp
    have hdrop : (('(' :: ['|'].intercalate alts ++ [')']).dropWhile (· ≠ '(')).tail
        = ['|'].intercalate alts ++ [')'] := by simp
    rw [alternatives, PatternWord.text]
    simp only [if_pos hopen, hdrop, htake]
    exact List.splitOn_intercalate '|' (fun a ha h => (plain a ha _ h).2.2.2 rfl) ne

theorem space_not_mem_text (w : PatternWord) : ' ' ∉ w.text := by
  cases w with
  | literal w ne plain => exact fun h => (plain _ h).1 rfl
  | list alts ne distinct plain =>
    intro h
    simp only [PatternWord.text, List.cons_append, List.mem_cons, List.mem_append,
      List.not_mem_nil, or_false] at h
    rcases h with h | h | h
    · exact absurd h (by decide)
    · rcases mem_intercalate h with h | ⟨a, ha, hca⟩
      · exact absurd h (by decide)
      · exact (plain a ha _ hca).1 rfl
    · exact absurd h (by decide)

/-- What is written is what is read. -/
theorem levels_patternText {pattern : List PatternWord} (hne : pattern ≠ []) :
    levels (patternText pattern) = pattern.map PatternWord.alts := by
  have hspace : ∀ l ∈ pattern.map PatternWord.text, ' ' ∉ l := by
    intro l hl
    obtain ⟨w, -, rfl⟩ := List.mem_map.mp hl
    exact space_not_mem_text w
  have hwords : words (patternText pattern) = pattern.map PatternWord.text :=
    List.splitOn_intercalate ' ' hspace (by simpa using hne)
  rw [levels, hwords, List.map_map]
  exact List.map_congr_left fun w _ => alternatives_text w

/-! ## The paths that are reached -/

theorem spell_cons (subword : Str) (choice : List Str) :
    spell (subword :: choice) = spell [subword] ++ spell choice := by
  by_cases h : subword = [] <;> simp [spell, h]

theorem extend_eq (subword : Str) (path : List Str) :
    extend subword path = path ++ spell [subword] := by
  by_cases h : subword = [] <;> simp [extend, spell, h]

theorem extend_append (subword : Str) (path choice : List Str) :
    extend subword path ++ spell choice = path ++ spell (subword :: choice) := by
  rw [extend_eq, spell_cons subword choice, List.append_assoc]

/-- The last parents are what the choices spell, from the first parents on. -/
theorem mem_lastParents (pattern : List PatternWord) : ∀ (parents : List (List Str)) (q : List Str),
    q ∈ lastParents parents (pattern.map PatternWord.alts)
      ↔ ∃ p ∈ parents, ∃ choice, Choice pattern choice ∧ q = p ++ spell choice := by
  induction pattern with
  | nil =>
    intro parents q
    constructor
    · intro h
      exact ⟨q, h, [], .nil, by simp [spell]⟩
    · rintro ⟨p, hp, choice, hchoice, rfl⟩
      cases hchoice
      simpa [spell, lastParents] using hp
  | cons w pattern ih =>
    intro parents q
    have hstep := ih (nextParents parents w.alts) q
    rw [List.map_cons, lastParents, List.foldl_cons, ← lastParents, hstep]
    constructor
    · rintro ⟨p', hp', choice, hchoice, rfl⟩
      obtain ⟨subword, hsub, hnext⟩ := List.mem_flatMap.mp hp'
      obtain ⟨p, hp, rfl⟩ := List.mem_map.mp hnext
      exact ⟨p, hp, subword :: choice, .cons hsub hchoice, extend_append subword p choice⟩
    · rintro ⟨p, hp, choice, hchoice, rfl⟩
      cases hchoice with
      | cons hsub hchoice =>
        refine ⟨_, List.mem_flatMap.mpr ⟨_, hsub, List.mem_map_of_mem hp⟩, _, hchoice, ?_⟩
        exact (extend_append _ _ _).symm

theorem mem_lastParents_iff (pattern : List PatternWord) (q : List Str) :
    q ∈ lastParents [[]] (pattern.map PatternWord.alts) ↔ q ∈ Language pattern := by
  rw [mem_lastParents]
  simp [Language, eq_comm]

theorem exists_choice (pattern : List PatternWord) : ∃ choice, Choice pattern choice := by
  induction pattern with
  | nil => exact ⟨[], .nil⟩
  | cons w pattern ih =>
    obtain ⟨choice, hchoice⟩ := ih
    obtain ⟨subword, hsub⟩ := List.exists_mem_of_ne_nil _ w.alts_ne_nil
    exact ⟨subword :: choice, .cons hsub hchoice⟩

/-- Two ways to a node of some level would be two ways to whatever lies beyond. -/
theorem apart_of_unambiguous (pattern : List PatternWord) : ∀ {parents : List (List Str)},
    parents.Nodup →
    (∀ p ∈ parents, ∀ p' ∈ parents, ∀ choice choice', Choice pattern choice →
      Choice pattern choice' → p ++ spell choice = p' ++ spell choice' →
      p = p' ∧ choice = choice') →
    Apart parents (pattern.map PatternWord.alts) := by
  induction pattern with
  | nil => intro parents _ _; trivial
  | cons w pattern ih =>
    intro parents hnodup hunique
    have hstep : ∀ p ∈ parents, ∀ p' ∈ parents, ∀ s ∈ w.alts, ∀ s' ∈ w.alts,
        ∀ choice choice', Choice pattern choice → Choice pattern choice' →
        extend s p ++ spell choice = extend s' p' ++ spell choice' →
        p = p' ∧ s = s' ∧ choice = choice' := by
      intro p hp p' hp' s hs s' hs' choice choice' hchoice hchoice' heq
      rw [extend_append, extend_append] at heq
      obtain ⟨rfl, hcons⟩ := hunique p hp p' hp' _ _ (.cons hs hchoice) (.cons hs' hchoice') heq
      exact ⟨rfl, (List.cons.inj hcons).1, (List.cons.inj hcons).2⟩
    obtain ⟨rest, hrest⟩ := exists_choice pattern
    have hnext : (nextParents parents w.alts).Nodup := by
      refine List.nodup_flatMap.mpr ⟨fun s hs => ?_, ?_⟩
      · refine hnodup.map_on fun p hp p' hp' heq => ?_
        exact (hstep p hp p' hp' s hs s hs rest rest hrest hrest (by rw [heq])).1
      · refine w.nodup_alts.imp_of_mem fun {s s'} hs hs' hne => ?_
        intro q hq hq'
        obtain ⟨p, hp, rfl⟩ := List.mem_map.mp hq
        obtain ⟨p', hp', heq⟩ := List.mem_map.mp hq'
        exact hne (hstep p hp p' hp' s hs s' hs' rest rest hrest hrest (by rw [heq])).2.1
    refine ⟨hnext, ih hnext ?_⟩
    intro q hq q' hq' choice choice' hchoice hchoice' heq
    obtain ⟨s, hs, hq⟩ := List.mem_flatMap.mp hq
    obtain ⟨p, hp, rfl⟩ := List.mem_map.mp hq
    obtain ⟨s', hs', hq'⟩ := List.mem_flatMap.mp hq'
    obtain ⟨p', hp', rfl⟩ := List.mem_map.mp hq'
    obtain ⟨rfl, rfl, rfl⟩ :=
      hstep p hp p' hp' s hs s' hs' choice choice' hchoice hchoice' heq
    exact ⟨rfl, rfl⟩

/-! ## The result -/

/-- A command set: the children of every node are in order, and none has the word of another. -/
structure CommandSet (F : Type) where
  root : CommandNode F
  sorted : root.Sorted

variable {F : Type}

def CommandSet.create : CommandSet F := ⟨commandSetCreate, Lib.KeyTree.sorted_leaf _ _⟩

/-- **Installing a pattern.** The installation succeeds; the paths of the pattern's language
    lead to the new function, every other path to the function it led to before, and the nodes
    that were there still are. -/
theorem commandInstall2_language (set : CommandSet F) {pattern : List PatternWord}
    (hne : pattern ≠ []) (hunambiguous : Unambiguous pattern) (helpString : Str) (func : F) :
    ∃ set' : CommandSet F,
      commandInstall2 set.root (patternText pattern) helpString func = .ok set'.root
        ∧ (∀ path ∈ Language pattern, funcAt set'.root path = some func)
        ∧ (∀ path ∉ Language pattern, funcAt set'.root path = funcAt set.root path)
        ∧ (∀ path, (set.root.entry path).isSome → (set'.root.entry path).isSome)
        ∧ ∀ path node, set'.root.sub path = some node →
          node.children.Pairwise (·.key < ·.key) := by
  have hapart : Apart [[]] (levels (patternText pattern)) := by
    rw [levels_patternText hne]
    refine apart_of_unambiguous pattern (List.nodup_singleton _) ?_
    intro p hp p' hp' choice choice' hchoice hchoice' heq
    obtain rfl := List.mem_singleton.mp hp
    obtain rfl := List.mem_singleton.mp hp'
    exact ⟨rfl, hunambiguous choice choice' hchoice hchoice' heq⟩
  obtain ⟨root', h⟩ := commandInstall2_total set.sorted hapart helpString func
  obtain ⟨hsorted, hpresent, hfunc⟩ := commandInstall2_ok set.sorted h
  have hlast : ∀ q, q ∈ lastParents [[]] (levels (patternText pattern)) ↔ q ∈ Language pattern :=
    fun q => by rw [levels_patternText hne, mem_lastParents_iff]
  refine ⟨⟨root', hsorted⟩, h, fun path hpath => ?_, fun path hpath => ?_, fun path hpath => ?_,
    fun path node hnode => ?_⟩
  · rw [hfunc, if_pos ((hlast path).mpr hpath)]
  · rw [hfunc, if_neg fun h => hpath ((hlast path).mp h)]
  · exact (hpresent path).mpr (.inl hpath)
  · exact (hsorted.sub hnode).children

/-- `(|no) up` -/
def noUp : List PatternWord :=
  [.list [[], "no".toList] (by decide) (by decide) (by simp [Plain]),
    .literal "up".toList (by decide) (by simp [Plain])]

example : patternText noUp = "(|no) up".toList := by decide

theorem choice_noUp {choice : List Str} (h : Choice noUp choice) :
    choice = [[], "up".toList] ∨ choice = ["no".toList, "up".toList] := by
  cases h with
  | cons hfirst h =>
    cases h with
    | cons hsecond h =>
      cases h
      simp only [PatternWord.alts, List.mem_cons, List.not_mem_nil, or_false] at hfirst hsecond
      subst hsecond
      rcases hfirst with rfl | rfl
      · exact .inl rfl
      · exact .inr rfl

theorem unambiguous_noUp : Unambiguous noUp := by
  intro choice choice' hchoice hchoice' heq
  rcases choice_noUp hchoice with rfl | rfl <;> rcases choice_noUp hchoice' with rfl | rfl
  · rfl
  · exact absurd heq (by decide)
  · exact absurd heq (by decide)
  · rfl

/-- The two paths of the pattern, in a set without commands. -/
theorem commandInstall2_noUp : ∃ set' : CommandSet Nat,
    commandInstall2 CommandSet.create.root "(|no) up".toList "disable\nbring up\n".toList 7
        = .ok set'.root
      ∧ funcAt set'.root ["up".toList] = some 7 ∧ funcAt set'.root ["no".toList, "up".toList] = some 7
      ∧ funcAt set'.root ["no".toList] = none := by
  obtain ⟨set', h, hin, hout, -, -⟩ := commandInstall2_language CommandSet.create
    (List.cons_ne_nil _ _ : noUp ≠ []) unambiguous_noUp "disable\nbring up\n".toList 7
  refine ⟨set', h, hin _ ⟨[[], "up".toList], ?_, rfl⟩,
    hin _ ⟨["no".toList, "up".toList], ?_, rfl⟩, ?_⟩
  · exact .cons List.mem_cons_self (.cons List.mem_cons_self .nil)
  · exact .cons (List.mem_cons_of_mem _ List.mem_cons_self) (.cons List.mem_cons_self .nil)
  · rw [hout]
    · rfl
    · intro ⟨choice, hchoice, heq⟩
      rcases choice_noUp hchoice with rfl | rfl <;> exact absurd heq (by decide)

end SdPlane
