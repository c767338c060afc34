import SdPlane.CommandMatch
import SdPlane.CommandPattern

/-!
# Word resolution does not depend on the order of installation

An installation adds nodes at paths that only its own text decides (`Installation.paths`), and
the children of a node are in order. So two orders of the same installations make trees with
the same words in the same places (`keys_installAll`), and all that the search for a word looks
at is the words, in their order (`matchUniqueExact_congr`).
-/

set_option autoImplicit false

namespace SdPlane

variable {F : Type}

/-! ## Installations -/

inductive Installation (F : Type)
  | install (commandLine helpString : Str) (func : F)
  | install2 (commandLine helpString : Str) (func : F)

namespace Installation

def run (root : CommandNode F) : Installation F → Except Fault (CommandNode F)
  | install commandLine helpString func => .ok (commandInstall root commandLine helpString func)
  | install2 commandLine helpString func => commandInstall2 root commandLine helpString func

/-- The paths that `command_install` walks along. -/
def walked : List Str → List Str → List (List Str)
  | _, [] => []
  | parent, word :: words => (parent ++ [word]) :: walked (parent ++ [word]) words

/-- Where there are nodes afterwards. -/
def paths : Installation F → List (List Str)
  | install commandLine _ _ => walked [] (words commandLine)
  | install2 commandLine _ _ => allParents [[]] (levels commandLine)

end Installation

/-- One installation after the other. -/
def installAll (root : CommandNode F) : List (Installation F) → Except Fault (CommandNode F)
  | [] => .ok root
  | i :: is => do installAll (← i.run root) is

theorem planted_installWords (words : List Str) : ∀ {helps : List Str} {root : CommandNode F}
    {parent : List Str}, root.Sorted → (root.entry parent).isSome →
    Planted root (Installation.walked parent words) (installWords words helps root parent).1 := by
  induction words with
  | nil => intro helps root parent hroot _; exact Planted.refl hroot
  | cons word words ih =>
    intro helps root parent hroot hparent
    have hone := planted_findOrCreate hroot hparent word helps.head?
    exact hone.trans (ih hone.sorted ((hone.present _).mpr (.inr List.mem_cons_self)))

theorem Installation.run_ok {root root' : CommandNode F} (hroot : root.Sorted)
    {i : Installation F} (h : i.run root = .ok root') :
    root'.Sorted ∧ ∀ q, (root'.entry q).isSome ↔ (root.entry q).isSome ∨ q ∈ i.paths := by
  cases i with
  | install commandLine helpString func =>
    obtain rfl := Except.ok.inj h
    have hplanted := @planted_installWords F (words commandLine) (helpString.splitOn '\n') root [] hroot rfl
    refine ⟨hplanted.sorted.modify_mapVal _ _, fun q => ?_⟩
    have hfunc := isSome_setFunc func
      [(installWords (words commandLine) (helpString.splitOn '\n') root []).2] q
      (installWords (words commandLine) (helpString.splitOn '\n') root []).1
    exact (Eq.congr_left hfunc).trans (hplanted.present q)
  | install2 commandLine helpString func =>
    obtain ⟨hsorted, hpresent, -⟩ := commandInstall2_ok hroot h
    exact ⟨hsorted, hpresent⟩

/-- What a run of installations keeps: order, and knowing which paths there are. -/
theorem installAll_ok (is : List (Installation F)) : ∀ {root root' : CommandNode F},
    root.Sorted → installAll root is = .ok root' →
    root'.Sorted ∧ ∀ q, (root'.entry q).isSome
      ↔ (root.entry q).isSome ∨ ∃ i ∈ is, q ∈ i.paths := by
  induction is with
  | nil =>
    intro root root' hroot h
    obtain rfl := Except.ok.inj h
    exact ⟨hroot, fun q => by simp⟩
  | cons i is ih =>
    intro root root' hroot h
    obtain ⟨root₁, hone, h⟩ := bind_ok h
    obtain ⟨hroot₁, hpresent₁⟩ := i.run_ok hroot hone
    obtain ⟨hroot', hpresent'⟩ := ih hroot₁ h
    refine ⟨hroot', fun q => ?_⟩
    rw [hpresent', hpresent₁, List.exists_mem_cons_iff, or_assoc]

/-- Two orders, the same paths. -/
theorem installAll_perm {is is' : List (Installation F)} (hperm : is.Perm is')
    {root root' : CommandNode F} (h : installAll commandSetCreate is = .ok root)
    (h' : installAll commandSetCreate is' = .ok root') (q : List Str) :
    (root.entry q).isSome ↔ (root'.entry q).isSome := by
  rw [(installAll_ok is CommandSet.create.sorted h).2,
    (installAll_ok is' CommandSet.create.sorted h').2]
  simp only [hperm.mem_iff]

/-- Two orders, the same words below every path. -/
theorem keys_installAll {is is' : List (Installation F)} (hperm : is.Perm is')
    {root root' : CommandNode F} (h : installAll commandSetCreate is = .ok root)
    (h' : installAll commandSetCreate is' = .ok root') {path : List Str} {n n' : CommandNode F}
    (hn : root.sub path = some n) (hn' : root'.sub path = some n') :
    n.children.map (·.key) = n'.children.map (·.key) := by
  have hsorted := (installAll_ok is CommandSet.create.sorted h).1
  have hsorted' := (installAll_ok is' CommandSet.create.sorted h').1
  have hlt : (n.children.map (·.key)).Pairwise (· < ·) :=
    List.pairwise_map.mpr (hsorted.sub hn).children
  have hlt' : (n'.children.map (·.key)).Pairwise (· < ·) :=
    List.pairwise_map.mpr (hsorted'.sub hn').children
  have hkeys : (n.children.map (·.key)).Perm (n'.children.map (·.key)) := by
    refine (List.perm_ext_iff_of_nodup (hlt.imp ne_of_lt) (hlt'.imp ne_of_lt)).mpr fun k => ?_
    rw [hsorted.mem_keys_iff hn, hsorted'.mem_keys_iff hn', installAll_perm hperm h h']
  exact hkeys.eq_of_pairwise (fun _ _ _ _ hab hba => absurd hab hba.not_gt) hlt hlt'

/-! ## The search looks at words only -/

section Host

variable (host : Host)

/-- Two states that agree on words and counts. -/
structure Alike (s s' : MatchState F) : Prop where
  found : s.found.map (·.key) = s'.found.map (·.key)
  varmatch : s.varmatch.map (·.key) = s'.varmatch.map (·.key)
  matchCount : s.matchCount = s'.matchCount
  varmatchCount : s.varmatchCount = s'.varmatchCount

theorem Alike.addVar {s s' : MatchState F} (h : Alike s s') {n n' : CommandNode F}
    (hkey : n.key = n'.key) : Alike (s.addVar host n) (s'.addVar host n') where
  found := by simp [MatchState.addVar, hkey]
  varmatch := by
    have hbest := h.varmatch
    cases hv : s.varmatch with
    | none =>
      cases hv' : s'.varmatch with
      | none => simp [MatchState.addVar, hv, hv', hkey]
      | some best' => simp [hv, hv'] at hbest
    | some best =>
      cases hv' : s'.varmatch with
      | none => simp [hv, hv'] at hbest
      | some best' =>
        simp only [hv, hv', Option.map_some, Option.some.injEq] at hbest
        simp only [MatchState.addVar, hv, hv', hkey, hbest]
        split <;> simp [hkey, hbest]
  matchCount := congrArg (· + 1) h.matchCount
  varmatchCount := congrArg (· + 1) h.varmatchCount

theorem Alike.addReg {s s' : MatchState F} (h : Alike s s') {n n' : CommandNode F}
    (hkey : n.key = n'.key) : Alike (s.addReg n) (s'.addReg n') where
  found := by simp [MatchState.addReg, hkey]
  varmatch := h.varmatch
  matchCount := congrArg (· + 1) h.matchCount
  varmatchCount := h.varmatchCount

theorem Alike.step {s s' : MatchState F} (h : Alike s s') (word : Str) {n n' : CommandNode F}
    (hkey : n.key = n'.key) : Alike (s.step host word n) (s'.step host word n') := by
  simp only [MatchState.step, hkey]
  split
  · split
    · exact (h.addVar host hkey).addReg hkey
    · exact h.addReg hkey
  · split
    · exact h.addVar host hkey
    · exact h

theorem alike_foldl (word : Str) (l : List (CommandNode F)) : ∀ {l' : List (CommandNode F)}
    {s s' : MatchState F}, l.map (·.key) = l'.map (·.key) → Alike s s' →
    Alike (l.foldl (MatchState.step host word) s) (l'.foldl (MatchState.step host word) s') := by
  induction l with
  | nil =>
    intro l' s s' hkeys h
    cases l' with
    | nil => exact h
    | cons n' l' => simp at hkeys
  | cons n l ih =>
    intro l' s s' hkeys h
    cases l' with
    | nil => simp at hkeys
    | cons n' l' =>
      simp only [List.map_cons, List.cons.injEq] at hkeys
      rw [List.foldl_cons, List.foldl_cons]
      exact ih hkeys.2 (h.step host word hkeys.1)

theorem commandMatchExact_congr (word : Str) {n n' : CommandNode F}
    (hkeys : n.children.map (·.key) = n'.children.map (·.key)) :
    (commandMatchExact n word).map (·.key) = (commandMatchExact n' word).map (·.key) := by
  have hfold : ∀ (l : List (CommandNode F)) (found : Option (CommandNode F)),
      (l.foldl (fun found node => if node.key = word then some node else found) found).map (·.key)
        = (l.map (·.key)).foldl (fun found key => if key = word then some key else found)
          (found.map (·.key)) := by
    intro l
    induction l with
    | nil => intro found; rfl
    | cons c l ih =>
      intro found
      rw [List.foldl_cons, List.map_cons, List.foldl_cons, ih]
      split <;> rfl
  rw [commandMatchExact, commandMatchExact, hfold, hfold, hkeys]

theorem matchUniqueExact_congr (word : Str) {n n' : CommandNode F}
    (hkeys : n.children.map (·.key) = n'.children.map (·.key)) :
    (matchUniqueExact host n word).map (·.key) = (matchUniqueExact host n' word).map (·.key) := by
  have hstart : Alike (⟨none, none, 0, 0⟩ : MatchState F) ⟨none, none, 0, 0⟩ :=
    ⟨rfl, rfl, rfl, rfl⟩
  have halike := alike_foldl host word n.children hkeys hstart
  have hexact := commandMatchExact_congr word hkeys
  have hunique : (matchUnique host n word).map (·.key)
      = (matchUnique host n' word).map (·.key) := by
    have hnone := congrArg Option.isNone halike.found
    simp only [Option.isNone_map] at hnone
    simp only [matchUnique, hnone, halike.matchCount, halike.varmatchCount]
    split
    · rfl
    · split
      · exact halike.varmatch
      · split
        · exact halike.found
        · rfl
  unfold matchUniqueExact
  cases hm : matchUnique host n word with
  | none =>
    cases hm' : matchUnique host n' word with
    | none => exact hexact
    | some m' => simp [hm, hm'] at hunique
  | some m =>
    cases hm' : matchUnique host n' word with
    | none => simp [hm, hm'] at hunique
    | some m' => simpa [hm, hm'] using hunique

end Host

/-! ## The result -/

/-- Neither the word of a specification, as far as it goes, nor empty. -/
def Ordinary (host : Host) (parent : CommandNode F) (word : Str) : Prop :=
  word ≠ [] ∧ ∀ c ∈ parent.children, isVariable host c.key → ¬ word <+: c.key

/-- **Word resolution.** For a node whose children have different words: the child with just the
    word is found whenever there is one; with two keywords that go on after the word, and none
    that is the word, nothing is found; with nothing but arguments that match, one of the highest
    priority is. And two orders of the same installations find the same. -/
theorem matchUniqueExact_resolves (host : Host) :
    (∀ (parent : CommandNode F) (word : Str), parent.children.Pairwise (·.key ≠ ·.key) →
      Ordinary host parent word →
      (∀ c ∈ parent.children, c.key = word → matchUniqueExact host parent word = some c)
      ∧ (∀ a ∈ parent.children, ∀ b ∈ parent.children, a.key ≠ b.key →
        ¬ isVariable host a.key → ¬ isVariable host b.key →
        word <+: a.key → word <+: b.key → (∀ c ∈ parent.children, c.key ≠ word) →
        matchUniqueExact host parent word = none)
      ∧ ((∀ c ∈ parent.children, word <+: c.key → isVariable host c.key) →
        ∀ c ∈ parent.children, isMatchVariable host c.key word →
        ∃ v ∈ parent.children, matchUniqueExact host parent word = some v
          ∧ isVariable host v.key ∧ isMatchVariable host v.key word
          ∧ ∀ d ∈ parent.children, isMatchVariable host d.key word →
            varmatchPri host d.key ≤ varmatchPri host v.key))
    ∧ ∀ (is is' : List (Installation F)) (root root' : CommandNode F), is.Perm is' →
      installAll commandSetCreate is = .ok root → installAll commandSetCreate is' = .ok root' →
      ∀ path word, ((root.sub path).bind (matchUniqueExact host · word)).map (·.key)
        = ((root'.sub path).bind (matchUniqueExact host · word)).map (·.key) := by
  constructor
  · intro parent word hdistinct hordinary
    refine ⟨?_, ?_, ?_⟩
    · intro c hc hkey
      exact matchUniqueExact_exact host hdistinct hc hkey
    · intro a ha b hb hab _ _ hprea hpreb hnone
      exact matchUniqueExact_ambiguous host hdistinct ha hb (fun h => hab (h ▸ rfl)) hprea hpreb
        hnone
    · intro honly c hc hmatch
      have hreg : ∀ d ∈ parent.children, ¬ word <+: d.key :=
        fun d hd hpre => hordinary.2 d hd (honly d hd hpre) hpre
      obtain ⟨v, hv, hfound, hvmatch, hmax⟩ := matchUniqueExact_variable host hreg hc hmatch
      exact ⟨v, hv, hfound, isVariable_of_match host hvmatch, hvmatch, hmax⟩
  · intro is is' root root' hperm h h' path word
    have hsame := installAll_perm hperm h h' path
    rw [Lib.KeyTree.isSome_entry, Lib.KeyTree.isSome_entry] at hsame
    cases hn : root.sub path with
    | none =>
      cases hn' : root'.sub path with
      | none => rfl
      | some n' =>
        obtain ⟨n, hn₁⟩ := hsame.mpr ⟨n', hn'⟩
        rw [hn] at hn₁
        cases hn₁
    | some n =>
      obtain ⟨n', hn'⟩ := hsame.mp ⟨n, hn⟩
      rw [hn']
      exact matchUniqueExact_congr host word (keys_installAll hperm h h' hn hn')

/-- A host without floating point and with any file there may be. -/
def plainHost : Host where
  Double := Unit
  lt _ _ := false
  strtod text := ((), text)
  fileMatch _ := true
  fileComplete _ := none
  fileReplace word := word

/-- A node with two keywords and an argument below it. -/
def sampleNode : CommandNode Nat :=
  ⟨[], ⟨none, none⟩, [commandNodeCreate "<0-9>".toList none, commandNodeCreate "set".toList none,
    commandNodeCreate "setup".toList none]⟩

/-- `set` is found although `setup` begins with it, `se` could be either, 7 is in range; and two
    commands are found in whatever order they were installed. -/
theorem matchUniqueExact_sample :
    (matchUniqueExact plainHost sampleNode "set".toList).map (·.key) = some "set".toList
      ∧ matchUniqueExact plainHost sampleNode "se".toList = none
      ∧ (∃ v ∈ sampleNode.children, matchUniqueExact plainHost sampleNode "7".toList = some v)
      ∧ ∃ root root' : CommandNode Nat, ∀ path word,
        ((root.sub path).bind (matchUniqueExact plainHost · word)).map (·.key)
          = ((root'.sub path).bind (matchUniqueExact plainHost · word)).map (·.key) := by
  obtain ⟨hresolves, horder⟩ := matchUniqueExact_resolves (F := Nat) plainHost
  have hdistinct : sampleNode.children.Pairwise (·.key ≠ ·.key) := by decide
  have hset := (hresolves sampleNode "set".toList hdistinct (by unfold Ordinary; decide)).1
    _ (List.mem_cons_of_mem _ List.mem_cons_self) rfl
  have hse := (hresolves sampleNode "se".toList hdistinct (by unfold Ordinary; decide)).2.1
    _ (List.mem_cons_of_mem _ List.mem_cons_self)
    _ (List.mem_cons_of_mem _ (List.mem_cons_of_mem _ List.mem_cons_self))
    (by decide) (by decide) (by decide) (by decide) (by decide) (by decide)
  obtain ⟨v, hv, hseven, -⟩ :=
    (hresolves sampleNode "7".toList hdistinct (by unfold Ordinary; decide)).2.2 (by decide)
      _ List.mem_cons_self (by decide)
  refine ⟨by rw [hset]; rfl, hse, ⟨v, hv, hseven⟩, _, _, horder
    [.install "show".toList [] 1, .install2 "(|no) up".toList [] 2]
    [.install2 "(|no) up".toList [] 2, .install "show".toList [] 1] _ _ (.swap _ _ _) rfl rfl⟩

end SdPlane
