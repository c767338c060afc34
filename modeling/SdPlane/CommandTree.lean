import SdPlane.RibInfo
import SdPlane.CommandLine
import SdPlane.Lib.KeyTree

/-!
# Installing commands (`command.c`)

The commands of a shell are a tree of words. `command_install2` takes a pattern like

    (|no) set (ip|ipv6) address

and adds all the word paths that it stands for in one go. It goes through the words of the
pattern with a vector of nodes that have been reached so far, `parents`; for each alternative
every one of them gets a child, or stays itself where the alternative is empty.

A node is known by its path from the root, so vectors of nodes are lists of paths here.
`vector_add` does not take a node twice: it fails its assertion.

`commandInstall2_language` is the result: after an installation exactly the paths of the
pattern's language lead to the new function, as long as no path is spelled in two ways.
-/

set_option autoImplicit false

namespace SdPlane

/-- What a node has besides its word. -/
structure CommandEntry (F : Type) where
  helpstr : Option Str
  func : Option F

/-- `struct command_node`: the key is `cmdstr`, the children are `cmdvec`, in the order of
    `command_node_cmp_qsort`. -/
abbrev CommandNode (F : Type) := Lib.KeyTree Str (CommandEntry F)

variable {F : Type}

/-- `command_node_create`, given its word. -/
def commandNodeCreate (cmdstr : Str) (helpstr : Option Str) : CommandNode F :=
  ⟨cmdstr, ⟨helpstr, none⟩, []⟩

/-- `command_match_exact`: the last child with the word. -/
def commandMatchExact (parent : CommandNode F) (word : Str) : Option (CommandNode F) :=
  parent.children.foldl (fun found node => if node.key = word then some node else found) none

/-- The child of a node for a word, or a new one. -/
def findOrCreate (root : CommandNode F) (parent : List Str) (word : Str) (help : Option Str) :
    CommandNode F :=
  match (root.sub parent).bind (commandMatchExact · word) with
  | some _ => root
  | none => root.modify (·.insert (commandNodeCreate word help)) parent

/-- `node->func = func` -/
def setFunc (func : F) (root : CommandNode F) (path : List Str) : CommandNode F :=
  root.modify (Lib.KeyTree.mapVal fun e => { e with func := some func }) path

/-! ## `command_install` -/

/-- Its loop: the node that is reached, and the tree. -/
def installWords : List Str → List Str → CommandNode F → List Str → CommandNode F × List Str
  | [], _, root, parent => (root, parent)
  | word :: words, helps, root, parent =>
    installWords words helps.tail (findOrCreate root parent word helps.head?) (parent ++ [word])

def commandInstall (root : CommandNode F) (commandLine helpString : Str) (func : F) :
    CommandNode F :=
  let (root, node) := installWords (words commandLine) (helpString.splitOn '\n') root []
  setFunc func root node

/-! ## `command_install2` -/

/-- `vector_add` -/
def vectorAdd (data : List Str) (v : List (List Str)) : Except Fault (List (List Str)) :=
  if data ∈ v then .error .assertion else .ok (v ++ [data])

/-- The alternatives of a word. -/
def alternatives (word : Str) : List Str :=
  -- everything before '(' is ignored
  let word := if '(' ∈ word then (word.dropWhile (· ≠ '(')).tail else word
  -- everything after ')' is ignored
  (word.takeWhile (· ≠ ')')).splitOn '|'

/-- A subword, below every parent. -/
def addSubword (subword : Str) (help : Option Str) :
    List (List Str) → CommandNode F → List (List Str) →
    Except Fault (CommandNode F × List (List Str))
  | [], root, next => .ok (root, next)
  | parent :: parents, root, next =>
    -- an empty subword allows to omit this level
    if subword = [] then do
      addSubword subword help parents root (← vectorAdd parent next)
    else do
      addSubword subword help parents (findOrCreate root parent subword help)
        (← vectorAdd (parent ++ [subword]) next)

/-- The subwords of a word. An empty one takes no line of the help string. -/
def addSubwords (parents : List (List Str)) : List Str → List Str → CommandNode F →
    List (List Str) → Except Fault (CommandNode F × List (List Str) × List Str)
  | [], helps, root, next => .ok (root, next, helps)
  | subword :: subwords, helps, root, next => do
    let (root, next) ← addSubword subword helps.head? parents root next
    addSubwords parents subwords (if subword = [] then helps else helps.tail) root next

/-- The words of a pattern. -/
def addWords : List (List Str) → List Str → CommandNode F → List (List Str) →
    Except Fault (CommandNode F × List (List Str))
  | [], _, root, parents => .ok (root, parents)
  | subwords :: levels, helps, root, parents => do
    let (root, next, helps) ← addSubwords parents subwords helps root []
    addWords levels helps root next

def commandInstall2 (root : CommandNode F) (commandLine helpString : Str) (func : F) :
    Except Fault (CommandNode F) := do
  let (root, parents) ← addWords ((words commandLine).map alternatives)
    (helpString.splitOn '\n') root [[]]
  .ok (parents.foldl (setFunc func) root)

/-- `command_set_create` -/
def commandSetCreate : CommandNode F := commandNodeCreate [] none

/-! ## One node -/

/-- With no word there twice, the last child with a word is the first. -/
theorem commandMatchExact_eq_find {parent : CommandNode F}
    (h : parent.children.Pairwise (·.key ≠ ·.key)) (word : Str) :
    commandMatchExact parent word = parent.children.find? (·.key = word) := by
  have hfold : ∀ (l : List (CommandNode F)) (found : Option (CommandNode F)),
      l.Pairwise (·.key ≠ ·.key) →
      l.foldl (fun found node => if node.key = word then some node else found) found
        = (l.find? (·.key = word)).or found := by
    intro l
    induction l with
    | nil => intro found _; simp
    | cons node l ih =>
      intro found hl
      obtain ⟨hne, hl⟩ := List.pairwise_cons.mp hl
      rw [List.foldl_cons, ih _ hl, List.find?_cons]
      by_cases heq : node.key = word
      · -- none of those behind has the word too
        have hnone : l.find? (·.key = word) = none := by
          refine List.find?_eq_none.mpr fun c hc => ?_
          simpa [← heq] using (hne c hc).symm
        simp [heq, hnone]
      · simp [heq]
  rw [commandMatchExact, hfold _ _ h, Option.or_none]

theorem commandMatchExact_eq_child {parent : CommandNode F}
    (h : parent.children.Pairwise (·.key < ·.key)) (word : Str) :
    commandMatchExact parent word = parent.child word := by
  rw [commandMatchExact_eq_find (h.imp ne_of_lt), Lib.KeyTree.child]
  congr!

/-- Nodes have been added to a tree, at the paths `new` if they were not there before. -/
structure Planted (root : CommandNode F) (new : List (List Str)) (root' : CommandNode F) : Prop where
  sorted : root'.Sorted
  present : ∀ q, (root'.entry q).isSome ↔ (root.entry q).isSome ∨ q ∈ new
  kept : ∀ q e, root.entry q = some e → root'.entry q = some e
  fresh : ∀ q e, root'.entry q = some e → root.entry q = some e ∨ e.func = none

theorem Planted.refl {root : CommandNode F} (h : root.Sorted) : Planted root [] root where
  sorted := h
  present := fun q => by simp
  kept := fun q e he => he
  fresh := fun q e he => .inl he

theorem Planted.trans {root root' root'' : CommandNode F} {new new' : List (List Str)}
    (h : Planted root new root') (h' : Planted root' new' root'') :
    Planted root (new ++ new') root'' where
  sorted := h'.sorted
  present := fun q => by rw [h'.present, h.present, List.mem_append, or_assoc]
  kept := fun q e he => h'.kept q e (h.kept q e he)
  fresh := fun q e he => (h'.fresh q e he).elim (fun he => h.fresh q e he) .inr

/-- Nodes that are there already need not be mentioned. -/
theorem Planted.cons {root root' : CommandNode F} {new : List (List Str)} {p : List Str}
    (h : Planted root new root') (hp : (root.entry p).isSome) : Planted root (p :: new) root' where
  sorted := h.sorted
  present := fun q => by
    rw [h.present, List.mem_cons]
    constructor
    · exact fun hq => hq.imp_right .inr
    · rintro (hq | rfl | hq)
      · exact .inl hq
      · exact .inl hp
      · exact .inr hq
  kept := h.kept
  fresh := h.fresh

theorem planted_findOrCreate {root : CommandNode F} (h : root.Sorted) {parent : List Str}
    (hp : (root.entry parent).isSome) (word : Str) (help : Option Str) :
    Planted root [parent ++ [word]] (findOrCreate root parent word help) := by
  obtain ⟨n, hn⟩ := Lib.KeyTree.isSome_entry.mp hp
  have hfind : (root.sub parent).bind (commandMatchExact · word) = root.sub (parent ++ [word]) := by
    rw [hn, Option.bind_some, commandMatchExact_eq_child (h.sub hn).children,
      Lib.KeyTree.sub_concat hn]
  unfold findOrCreate
  rw [hfind]
  cases hword : root.sub (parent ++ [word]) with
  | some c => exact (Planted.refl h).cons (Lib.KeyTree.isSome_entry.mpr ⟨c, hword⟩)
  | none =>
    have hnew : n.child word = none := by rw [← Lib.KeyTree.sub_concat hn, hword]
    have hentry := Lib.KeyTree.entry_modify_insert h hn hnew ⟨help, none⟩
    refine ⟨h.modify_insert hn hnew _, fun q => ?_, fun q e he => ?_, fun q e he => ?_⟩
    all_goals simp only [commandNodeCreate, hentry] at *
    · by_cases hq : q = parent ++ [word] <;> simp [hq]
    · rw [if_neg, he]
      intro hq
      rw [hq, Lib.KeyTree.entry_eq_none.mpr hword] at he
      cases he
    · split at he
      · obtain rfl := Option.some.inj he
        exact .inr rfl
      · exact .inl he

/-! ## The paths of a pattern -/

/-- A path, one word further; an empty word does not lead anywhere. -/
def extend (subword : Str) (path : List Str) : List Str :=
  if subword = [] then path else path ++ [subword]

/-- The nodes that are reached by a further word. -/
def nextParents (parents : List (List Str)) (subwords : List Str) : List (List Str) :=
  subwords.flatMap fun subword => parents.map (extend subword)

theorem nextParents_cons (parents : List (List Str)) (subword : Str) (subwords : List Str) :
    nextParents parents (subword :: subwords)
      = parents.map (extend subword) ++ nextParents parents subwords := List.flatMap_cons

def lastParents (parents : List (List Str)) (levels : List (List Str)) : List (List Str) :=
  levels.foldl nextParents parents

/-- All the nodes that are reached on the way. -/
def allParents : List (List Str) → List (List Str) → List (List Str)
  | _, [] => []
  | parents, subwords :: levels =>
    nextParents parents subwords ++ allParents (nextParents parents subwords) levels

/-- At no level a node is reached twice. -/
def Apart : List (List Str) → List (List Str) → Prop
  | _, [] => True
  | parents, subwords :: levels =>
    (nextParents parents subwords).Nodup ∧ Apart (nextParents parents subwords) levels

/-! ## The loops -/

theorem vectorAdd_ok {data : List Str} {v v' : List (List Str)} (h : vectorAdd data v = .ok v') :
    v' = v ++ [data] := by
  unfold vectorAdd at h
  split at h
  · cases h
  · exact (Except.ok.inj h).symm

theorem vectorAdd_of_not_mem {data : List Str} {v : List (List Str)} (h : data ∉ v) :
    vectorAdd data v = .ok (v ++ [data]) := if_neg h

/-- `addSubword` without the case distinction. -/
theorem addSubword_cons (subword : Str) (help : Option Str) (parent : List Str)
    (parents : List (List Str)) (root : CommandNode F) (next : List (List Str)) :
    addSubword subword help (parent :: parents) root next
      = (vectorAdd (extend subword parent) next).bind fun next =>
        addSubword subword help parents
          (if subword = [] then root else findOrCreate root parent subword help) next := by
  rw [addSubword, extend]
  split <;> rfl

theorem planted_subword {root : CommandNode F} (h : root.Sorted) {parent : List Str}
    (hp : (root.entry parent).isSome) (subword : Str) (help : Option Str) :
    Planted root [extend subword parent]
      (if subword = [] then root else findOrCreate root parent subword help) := by
  unfold extend
  split
  · exact (Planted.refl h).cons hp
  · exact planted_findOrCreate h hp subword help

theorem Planted.isSome {root root' : CommandNode F} {new : List (List Str)}
    (h : Planted root new root') {q : List Str} (hq : (root.entry q).isSome) :
    (root'.entry q).isSome := (h.present q).mpr (.inl hq)

theorem addSubword_ok (subword : Str) (help : Option Str) (parents : List (List Str)) :
    ∀ {root root' : CommandNode F} {next next' : List (List Str)}, root.Sorted →
    (∀ p ∈ parents, (root.entry p).isSome) →
    addSubword subword help parents root next = .ok (root', next') →
    next' = next ++ parents.map (extend subword)
      ∧ Planted root (parents.map (extend subword)) root' := by
  induction parents with
  | nil =>
    intro root root' next next' hroot _ h
    cases h
    exact ⟨by simp, Planted.refl hroot⟩
  | cons parent parents ih =>
    intro root root' next next' hroot hparents h
    rw [addSubword_cons] at h
    obtain ⟨v, hv, h⟩ := bind_ok h
    obtain rfl := vectorAdd_ok hv
    have hone := planted_subword hroot (hparents parent List.mem_cons_self) subword help
    obtain ⟨rfl, hrest⟩ := ih hone.sorted
      (fun p hp => hone.isSome (hparents p (List.mem_cons_of_mem _ hp))) h
    exact ⟨by simp, hone.trans hrest⟩

/-- As long as no node comes twice, all goes well. -/
theorem addSubword_total (subword : Str) (help : Option Str) (parents : List (List Str)) :
    ∀ {root : CommandNode F} {next : List (List Str)},
    (next ++ parents.map (extend subword)).Nodup →
    ∃ r, addSubword subword help parents root next = .ok r := by
  induction parents with
  | nil => intro root next _; exact ⟨_, rfl⟩
  | cons parent parents ih =>
    intro root next h
    rw [List.map_cons, List.append_cons] at h
    have hnot : extend subword parent ∉ next := by
      intro hmem
      have hnext := (List.nodup_append.mp h).1
      exact (List.nodup_append.mp hnext).2.2 _ hmem _ (List.mem_singleton_self _) rfl
    rw [addSubword_cons, vectorAdd_of_not_mem hnot]
    exact ih h

theorem addSubwords_ok (parents : List (List Str)) (subwords : List Str) :
    ∀ {helps helps' : List Str} {root root' : CommandNode F} {next next' : List (List Str)},
    root.Sorted → (∀ p ∈ parents, (root.entry p).isSome) →
    addSubwords parents subwords helps root next = .ok (root', next', helps') →
    next' = next ++ nextParents parents subwords
      ∧ Planted root (nextParents parents subwords) root' := by
  induction subwords with
  | nil =>
    intro helps helps' root root' next next' hroot _ h
    cases h
    exact ⟨by simp [nextParents], Planted.refl hroot⟩
  | cons subword subwords ih =>
    intro helps helps' root root' next next' hroot hparents h
    rw [addSubwords] at h
    obtain ⟨⟨root₁, next₁⟩, hone, h⟩ := bind_ok h
    obtain ⟨rfl, hplanted⟩ := addSubword_ok subword helps.head? parents hroot hparents hone
    obtain ⟨rfl, hrest⟩ := ih hplanted.sorted (fun p hp => hplanted.isSome (hparents p hp)) h
    rw [nextParents_cons]
    exact ⟨List.append_assoc _ _ _, hplanted.trans hrest⟩

theorem addSubwords_total (parents : List (List Str)) (subwords : List Str) :
    ∀ {helps : List Str} {root : CommandNode F} {next : List (List Str)}, root.Sorted →
    (∀ p ∈ parents, (root.entry p).isSome) → (next ++ nextParents parents subwords).Nodup →
    ∃ r, addSubwords parents subwords helps root next = .ok r := by
  induction subwords with
  | nil => intro helps root next _ _ _; exact ⟨_, rfl⟩
  | cons subword subwords ih =>
    intro helps root next hroot hparents h
    rw [nextParents_cons, ← List.append_assoc] at h
    obtain ⟨⟨root₁, next₁⟩, hone⟩ :=
      @addSubword_total F subword helps.head? parents root next (List.nodup_append.mp h).1
    obtain ⟨rfl, hplanted⟩ := addSubword_ok subword helps.head? parents hroot hparents hone
    obtain ⟨r, hr⟩ := @ih (if subword = [] then helps else helps.tail) _ _ hplanted.sorted
      (fun p hp => hplanted.isSome (hparents p hp)) h
    exact ⟨r, by rw [addSubwords, hone]; exact hr⟩

theorem addWords_ok (levels : List (List Str)) :
    ∀ {helps : List Str} {root root' : CommandNode F} {parents parents' : List (List Str)},
    root.Sorted → (∀ p ∈ parents, (root.entry p).isSome) →
    addWords levels helps root parents = .ok (root', parents') →
    parents' = lastParents parents levels ∧ Planted root (allParents parents levels) root'
      ∧ ∀ p ∈ parents', (root'.entry p).isSome := by
  induction levels with
  | nil =>
    intro helps root root' parents parents' hroot hparents h
    cases h
    exact ⟨rfl, Planted.refl hroot, hparents⟩
  | cons subwords levels ih =>
    intro helps root root' parents parents' hroot hparents h
    rw [addWords] at h
    obtain ⟨⟨root₁, next, helps₁⟩, hone, h⟩ := bind_ok h
    obtain ⟨rfl, hplanted⟩ := addSubwords_ok parents subwords hroot hparents hone
    rw [List.nil_append] at h
    obtain ⟨rfl, hrest, hlast⟩ := ih hplanted.sorted
      (fun p hp => (hplanted.present p).mpr (.inr hp)) h
    exact ⟨rfl, hplanted.trans hrest, hlast⟩

theorem addWords_total (levels : List (List Str)) :
    ∀ {helps : List Str} {root : CommandNode F} {parents : List (List Str)},
    root.Sorted → (∀ p ∈ parents, (root.entry p).isSome) → Apart parents levels →
    ∃ r, addWords levels helps root parents = .ok r := by
  induction levels with
  | nil => intro helps root parents _ _ _; exact ⟨_, rfl⟩
  | cons subwords levels ih =>
    intro helps root parents hroot hparents h
    obtain ⟨⟨root₁, next, helps₁⟩, hone⟩ :=
      @addSubwords_total F parents subwords helps root [] hroot hparents h.1
    obtain ⟨rfl, hplanted⟩ := addSubwords_ok parents subwords hroot hparents hone
    rw [List.nil_append] at hone
    obtain ⟨r, hr⟩ := @ih helps₁ _ _ hplanted.sorted
      (fun p hp => (hplanted.present p).mpr (.inr hp)) h.2
    exact ⟨r, by rw [addWords, hone]; exact hr⟩

/-! ## The functions -/

/-- The function that a path leads to. -/
def funcAt (root : CommandNode F) (path : List Str) : Option F := (root.entry path).bind (·.func)

theorem Planted.funcAt_eq {root root' : CommandNode F} {new : List (List Str)}
    (h : Planted root new root') (q : List Str) : funcAt root' q = funcAt root q := by
  unfold funcAt
  cases he : root.entry q with
  | some e => rw [h.kept q e he]
  | none =>
    cases he' : root'.entry q with
    | none => rfl
    | some e' =>
      rcases h.fresh q e' he' with hold | hfunc
      · rw [he] at hold
        cases hold
      · exact hfunc

theorem sorted_setFunc {root : CommandNode F} (h : root.Sorted) (func : F)
    (paths : List (List Str)) : (paths.foldl (setFunc func) root).Sorted := by
  induction paths generalizing root with
  | nil => exact h
  | cons p paths ih => exact ih (h.modify_mapVal _ p)

theorem isSome_setFunc (func : F) (paths : List (List Str)) (q : List Str) :
    ∀ root : CommandNode F,
    ((paths.foldl (setFunc func) root).entry q).isSome = (root.entry q).isSome := by
  induction paths with
  | nil => intro root; rfl
  | cons p paths ih =>
    intro root
    rw [List.foldl_cons, ih, setFunc, Lib.KeyTree.entry_modify_mapVal]
    split
    · next heq => rw [heq, Option.isSome_map]
    · rfl

theorem funcAt_setFunc (func : F) (paths : List (List Str)) (q : List Str) :
    ∀ root : CommandNode F, (∀ p ∈ paths, (root.entry p).isSome) →
    funcAt (paths.foldl (setFunc func) root) q = if q ∈ paths then some func else funcAt root q := by
  induction paths with
  | nil => intro root _; simp
  | cons p paths ih =>
    intro root h
    have hkept : ∀ p' ∈ paths, ((setFunc func root p).entry p').isSome := by
      intro p' hp'
      have hsome := isSome_setFunc func [p] p' root
      rw [List.foldl_cons, List.foldl_nil] at hsome
      rw [hsome]
      exact h p' (List.mem_cons_of_mem _ hp')
    obtain ⟨e, he⟩ := Option.isSome_iff_exists.mp (h p List.mem_cons_self)
    have hone : funcAt (setFunc func root p) q = if q = p then some func else funcAt root q := by
      rw [funcAt, setFunc, Lib.KeyTree.entry_modify_mapVal]
      split
      · rw [he]
        rfl
      · rfl
    rw [List.foldl_cons, ih _ hkept, hone]
    by_cases hp : q = p <;> by_cases hq : q ∈ paths <;> simp [hp, hq]

/-- The levels of a pattern, whatever it looks like. -/
def levels (commandLine : Str) : List (List Str) := (words commandLine).map alternatives

theorem commandInstall2_ok {root root' : CommandNode F} (hroot : root.Sorted)
    {commandLine helpString : Str} {func : F}
    (h : commandInstall2 root commandLine helpString func = .ok root') :
    root'.Sorted
      ∧ (∀ q, (root'.entry q).isSome
        ↔ (root.entry q).isSome ∨ q ∈ allParents [[]] (levels commandLine))
      ∧ ∀ q, funcAt root' q
        = if q ∈ lastParents [[]] (levels commandLine) then some func else funcAt root q := by
  obtain ⟨⟨root₁, parents⟩, hwords, h⟩ := bind_ok h
  obtain rfl := Except.ok.inj h
  have hstart : ∀ p ∈ [([] : List Str)], (root.entry p).isSome := by
    intro p hp
    obtain rfl := List.mem_singleton.mp hp
    rfl
  obtain ⟨rfl, hplanted, hlast⟩ := addWords_ok _ hroot hstart hwords
  refine ⟨sorted_setFunc hplanted.sorted func _, fun q => ?_, fun q => ?_⟩
  · rw [isSome_setFunc, hplanted.present, levels]
  · rw [funcAt_setFunc func _ q root₁ hlast, hplanted.funcAt_eq, levels]

theorem commandInstall2_total {root : CommandNode F} (hroot : root.Sorted) {commandLine : Str}
    (h : Apart [[]] (levels commandLine)) (helpString : Str) (func : F) :
    ∃ root', commandInstall2 root commandLine helpString func = .ok root' := by
  have hstart : ∀ p ∈ [([] : List Str)], (root.entry p).isSome := by
    intro p hp
    obtain rfl := List.mem_singleton.mp hp
    rfl
  obtain ⟨r, hr⟩ := @addWords_total F _ (helpString.splitOn '\n') _ _ hroot hstart h
  exact ⟨_, by rw [commandInstall2, ← levels, hr]; rfl⟩

end SdPlane
