import SdPlane.CommandTree
import SdPlane.Lib.Strto

/-!
# Finding the node for a word (`command.c`)

A word on a command line is a keyword, possibly abbreviated, or an argument: some nodes have
for their word a specification like `A.B.C.D` or `<0-4095>`, and match whatever meets it.
`command_match_unique_exact` settles which child a word means. `matchUniqueExact_exact`,
`matchUniqueExact_ambiguous` and `matchUniqueExact_variable` are what it promises.

What a word is worth as a floating-point number and what files there are is left open; `Host`
answers that.
-/

set_option autoImplicit false

namespace SdPlane

/-- What the C library and the file system know. -/
structure Host where
  Double : Type
  lt : Double → Double → Bool
  /-- The value, and what is left of the text. -/
  strtod : Str → Double × Str
  /-- What `file_match` finds out by `stat`, for a word without a leading `-`. -/
  fileMatch : Str → Bool
  fileComplete : Str → Option Str
  fileReplace : Str → Str

/-! ## Specifications -/

def ipv4Spec (spec : Str) : Bool := spec = "A.B.C.D".toList

def ipv4Match (word : Str) : Bool := Lib.inetPton4 word

def ipv4PrefixSpec (spec : Str) : Bool := spec = "A.B.C.D/M".toList

def ipv4PrefixMatch (word : Str) : Bool :=
  if '/' ∉ word then false
  else
    let (len, endp) := Lib.strtol (word.dropWhile (· ≠ '/')).tail 10
    let len := Int.bmod len (2 ^ 32)
    if endp ≠ [] then false
    else if len < 0 ∨ 32 < len then false
    else Lib.inetPton4 (word.takeWhile (· ≠ '/'))

def MAX_RANGE_SPEC_STR : Nat := 10

/-- `minstr` and `maxstr` of `<min-max>`. -/
def rangeBounds (spec : Str) : Option (Str × Str) :=
  match spec with
  | '<' :: s =>
    if '-' ∉ s then none
    else
      let minstr := s.takeWhile (· ≠ '-')
      let s := (s.dropWhile (· ≠ '-')).tail
      if minstr.length > MAX_RANGE_SPEC_STR then none
      else if s.getLast? ≠ some '>' then none
      else if s.dropLast.length > MAX_RANGE_SPEC_STR then none
      else some (minstr, s.dropLast)
  | _ => none

section Host

variable (host : Host)

def rangeSpec (spec : Str) : Bool :=
  match rangeBounds spec with
  | none => false
  | some (minstr, maxstr) =>
    if '.' ∈ minstr ∨ '.' ∈ maxstr then
      let (dmin, endmin) := host.strtod minstr
      let (dmax, endmax) := host.strtod maxstr
      endmin = [] && endmax = [] && !host.lt dmax dmin
    else
      let (min, endmin) := Lib.strtoul minstr 0
      let (max, endmax) := Lib.strtoul maxstr 0
      endmin = [] && endmax = [] && min ≤ max

/-- `range_match`, called for what `range_spec` has accepted. -/
def rangeMatch (spec word : Str) : Bool :=
  match rangeBounds spec with
  | none => false
  | some (minstr, maxstr) =>
    if '.' ∈ minstr ∨ '.' ∈ maxstr then
      let dmin := (host.strtod minstr).1
      let dmax := (host.strtod maxstr).1
      let (dval, endptr) := host.strtod word
      endptr = [] && !(host.lt dval dmin || host.lt dmax dval)
    else
      let min := (Lib.strtoul minstr 0).1
      let max := (Lib.strtoul maxstr 0).1
      let (val, endptr) := Lib.strtoul word 0
      endptr = [] && !(val < min || max < val)

def doubleSpec (spec : Str) : Bool :=
  spec = "<[-]ddd.ddd>".toList || spec = "<[-]d.ddde[+-]dd>".toList

def doubleMatch (word : Str) : Bool := (host.strtod word).2 = []

def fileSpec (spec : Str) : Bool := spec = "<FILENAME>".toList || spec = "<FILE>".toList

def fileMatch (word : Str) : Bool := word.head? ≠ some '-' && host.fileMatch word

def flagSpec (spec : Str) : Bool := spec = "<FLAGS>".toList || spec = "<FLAG>".toList

def flagMatch (word : Str) : Bool := word.head? = some '-'

def lineSpec (spec : Str) : Bool := spec = "<LINE>".toList

def wordSpec (spec : Str) : Bool := spec = "<WORD>".toList

def varSpec (spec : Str) : Bool := spec = "<VAR>".toList

/-- `is_command_match_variable`. -/
def isMatchVariable (spec word : Str) : Bool :=
  (ipv4Spec spec && ipv4Match word)
    || (ipv4PrefixSpec spec && ipv4PrefixMatch word)
    || (rangeSpec host spec && rangeMatch host spec word)
    || (doubleSpec spec && doubleMatch host word)
    || (fileSpec spec && fileMatch host word)
    || (flagSpec spec && flagMatch word)
    || lineSpec spec || wordSpec spec || varSpec spec

/-- `is_command_match_regular`: the word is how the specification begins. -/
def isMatchRegular (spec word : Str) : Bool := word.isPrefixOf spec

/-- `varmatch_pri`. -/
def varmatchPri (spec : Str) : Int :=
  if ipv4PrefixSpec spec then 6
  else if ipv4Spec spec then 5
  else if rangeSpec host spec then 4
  else if doubleSpec spec then 3
  else if fileSpec spec then 2
  else if varSpec spec then 1
  else if lineSpec spec then 0
  else -1

/-! ## The search -/

variable {F : Type}

/-- The locals of `command_match_unique`. -/
structure MatchState (F : Type) where
  found : Option (CommandNode F)
  varmatch : Option (CommandNode F)
  matchCount : Nat
  varmatchCount : Nat

/-- A variable match. -/
def MatchState.addVar (s : MatchState F) (node : CommandNode F) : MatchState F where
  found := some node
  varmatch := match s.varmatch with
    | none => some node
    | some best =>
      if varmatchPri host node.key > varmatchPri host best.key then some node else some best
  matchCount := s.matchCount + 1
  varmatchCount := s.varmatchCount + 1

/-- A regular match. -/
def MatchState.addReg (s : MatchState F) (node : CommandNode F) : MatchState F :=
  { s with found := some node, matchCount := s.matchCount + 1 }

/-- One round of its loop. -/
def MatchState.step (word : Str) (s : MatchState F) (node : CommandNode F) : MatchState F :=
  let s := if isMatchVariable host node.key word then s.addVar host node else s
  if isMatchRegular node.key word then s.addReg node else s

/-- `command_match_unique`. -/
def matchUnique (parent : CommandNode F) (word : Str) : Option (CommandNode F) :=
  let s := parent.children.foldl (MatchState.step host word) ⟨none, none, 0, 0⟩
  if s.found.isNone then none
  -- if all matches are variable matches, the best of them
  else if s.varmatchCount = s.matchCount then s.varmatch
  else if s.matchCount = 1 then s.found
  else none

/-- `command_match_unique_exact`. -/
def matchUniqueExact (parent : CommandNode F) (word : Str) : Option (CommandNode F) :=
  match matchUnique host parent word with
  | some node => some node
  | none => commandMatchExact parent word

/-- A specification, for any kind of argument. -/
def isVariable (spec : Str) : Bool :=
  ipv4Spec spec || ipv4PrefixSpec spec || rangeSpec host spec || doubleSpec spec || fileSpec spec
    || flagSpec spec || lineSpec spec || wordSpec spec || varSpec spec

theorem isVariable_of_match {spec word : Str} (h : isMatchVariable host spec word) :
    isVariable host spec := by
  simp only [isMatchVariable, isVariable, Bool.or_eq_true, Bool.and_eq_true] at h ⊢
  grind only

/-! ## What the loop has found -/

/-- The children that match as arguments, and as keywords. -/
def varChildren (word : Str) (nodes : List (CommandNode F)) : List (CommandNode F) :=
  nodes.filter (isMatchVariable host ·.key word)

def regChildren (word : Str) (nodes : List (CommandNode F)) : List (CommandNode F) :=
  nodes.filter (isMatchRegular ·.key word)

/-- The state when the children `vars` have matched as arguments and `regs` as keywords. -/
structure Found (vars regs : List (CommandNode F)) (s : MatchState F) : Prop where
  varCount : s.varmatchCount = vars.length
  count : s.matchCount = vars.length + regs.length
  found : match s.found with
    | none => vars = [] ∧ regs = []
    | some n => n ∈ vars ∨ n ∈ regs
  varmatch : match s.varmatch with
    | none => vars = []
    | some n => n ∈ vars ∧ ∀ m ∈ vars, varmatchPri host m.key ≤ varmatchPri host n.key

theorem Found.addVar {vars regs : List (CommandNode F)} {s : MatchState F}
    (h : Found host vars regs s) (node : CommandNode F) :
    Found host (vars ++ [node]) regs (s.addVar host node) where
  varCount := by simp [MatchState.addVar, h.varCount]
  count := by
    simp [MatchState.addVar, h.count]
    omega
  found := .inl (by simp)
  varmatch := by
    have hbest := h.varmatch
    cases hvar : s.varmatch with
    | none =>
      simp only [hvar] at hbest
      simp [MatchState.addVar, hvar, hbest]
    | some best =>
      simp only [hvar] at hbest
      obtain ⟨hmem, hmax⟩ := hbest
      simp only [MatchState.addVar, hvar]
      by_cases hgt : varmatchPri host node.key > varmatchPri host best.key
      · simp only [hgt, if_true]
        refine ⟨by simp, fun m hm => ?_⟩
        rcases List.mem_append.mp hm with hm | hm
        · exact le_trans (hmax m hm) hgt.le
        · rw [List.mem_singleton.mp hm]
      · simp only [hgt, if_false]
        refine ⟨List.mem_append_left _ hmem, fun m hm => ?_⟩
        rcases List.mem_append.mp hm with hm | hm
        · exact hmax m hm
        · rw [List.mem_singleton.mp hm]
          exact not_lt.mp hgt

theorem Found.addReg {vars regs : List (CommandNode F)} {s : MatchState F}
    (h : Found host vars regs s) (node : CommandNode F) :
    Found host vars (regs ++ [node]) (s.addReg node) where
  varCount := h.varCount
  count := by
    simp [MatchState.addReg, h.count]
    omega
  found := .inr (by simp)
  varmatch := h.varmatch

theorem found_foldl (word : Str) (nodes : List (CommandNode F)) :
    ∀ {vars regs : List (CommandNode F)} {s : MatchState F}, Found host vars regs s →
    Found host (vars ++ varChildren host word nodes) (regs ++ regChildren word nodes)
      (nodes.foldl (MatchState.step host word) s) := by
  induction nodes with
  | nil =>
    intro vars regs s h
    simpa [varChildren, regChildren] using h
  | cons node nodes ih =>
    intro vars regs s h
    rw [List.foldl_cons, MatchState.step, varChildren, regChildren, List.filter_cons,
      List.filter_cons]
    by_cases hv : isMatchVariable host node.key word <;>
      by_cases hr : isMatchRegular node.key word <;>
      simp only [hv, hr, if_true]
    · simpa [varChildren, regChildren] using ih ((h.addVar host node).addReg host node)
    · simpa [varChildren, regChildren] using ih (h.addVar host node)
    · simpa [varChildren, regChildren] using ih (h.addReg host node)
    · simpa [varChildren, regChildren] using ih h

/-- What `command_match_unique` answers, by the children that match. -/
theorem matchUnique_eq (parent : CommandNode F) (word : Str) :
    ∃ s : MatchState F, Found host (varChildren host word parent.children)
        (regChildren word parent.children) s
      ∧ matchUnique host parent word =
        if s.found.isNone then none
        else if s.varmatchCount = s.matchCount then s.varmatch
        else if s.matchCount = 1 then s.found
        else none := by
  have hstart : Found host ([] : List (CommandNode F)) [] ⟨none, none, 0, 0⟩ :=
    ⟨rfl, rfl, ⟨rfl, rfl⟩, rfl⟩
  exact ⟨_, found_foldl host word parent.children hstart, rfl⟩

/-! ## What is promised -/

section Promises

variable {parent : CommandNode F} (hdistinct : parent.children.Pairwise (·.key ≠ ·.key))
  {word : Str}

include hdistinct in
theorem eq_of_key_eq {a b : CommandNode F} (ha : a ∈ parent.children) (hb : b ∈ parent.children)
    (hkey : a.key = b.key) : a = b := by
  exact List.inj_on_of_nodup_map (List.pairwise_map.mpr hdistinct) ha hb hkey

include hdistinct in
/-- A child with just the word is what the word means. -/
theorem matchUniqueExact_exact {c : CommandNode F} (hc : c ∈ parent.children)
    (hkey : c.key = word) : matchUniqueExact host parent word = some c := by
  have hexact : commandMatchExact parent word = some c := by
    rw [commandMatchExact_eq_find hdistinct]
    obtain ⟨d, hd⟩ := Option.isSome_iff_exists.mp
      (List.find?_isSome.mpr ⟨c, hc, by simpa using hkey⟩ :
        (parent.children.find? (·.key = word)).isSome)
    have hdkey : d.key = word := by simpa using List.find?_some hd
    rw [hd, eq_of_key_eq hdistinct (List.mem_of_find?_eq_some hd) hc (hdkey.trans hkey.symm)]
  have hreg : c ∈ regChildren word parent.children :=
    List.mem_filter.mpr ⟨hc, by simp [isMatchRegular, hkey]⟩
  have hpos : 0 < (regChildren word parent.children).length := List.length_pos_of_mem hreg
  obtain ⟨s, hs, hunique⟩ := matchUnique_eq host parent word
  have hcount := hs.count
  have hvar := hs.varCount
  have hfound := hs.found
  have hmatch : matchUnique host parent word = none ∨ matchUnique host parent word = some c := by
    rw [hunique]
    by_cases hone : s.matchCount = 1
    · -- it is the only match of any kind
      have hvars : varChildren host word parent.children = [] :=
        List.length_eq_zero_iff.mp (by omega)
      obtain ⟨m, hm⟩ := List.length_eq_one_iff.mp
        (by omega : (regChildren word parent.children).length = 1)
      rw [hvars, hm] at hfound
      rw [hm, List.mem_singleton] at hreg
      cases hf : s.found with
      | none => simp
      | some n =>
        simp only [hf, List.not_mem_nil, List.mem_singleton, false_or] at hfound
        simp [hone, hfound, hreg]
        omega
    · have hne : s.varmatchCount ≠ s.matchCount := by omega
      simp [hone, hne]
  unfold matchUniqueExact
  rcases hmatch with hmatch | hmatch
  · rw [hmatch]
    exact hexact
  · rw [hmatch]

include hdistinct in
theorem commandMatchExact_eq_none (hnone : ∀ c ∈ parent.children, c.key ≠ word) :
    commandMatchExact parent word = none := by
  rw [commandMatchExact_eq_find hdistinct]
  exact List.find?_eq_none.mpr fun c hc => by simpa using hnone c hc

include hdistinct in
/-- Two children that both go on after the word, and none that is the word: nothing is meant. -/
theorem matchUniqueExact_ambiguous {a b : CommandNode F} (ha : a ∈ parent.children)
    (hb : b ∈ parent.children) (hab : a ≠ b) (hprea : word <+: a.key) (hpreb : word <+: b.key)
    (hnone : ∀ c ∈ parent.children, c.key ≠ word) :
    matchUniqueExact host parent word = none := by
  have hrega : a ∈ regChildren word parent.children :=
    List.mem_filter.mpr ⟨ha, by simpa [isMatchRegular] using hprea⟩
  have hregb : b ∈ regChildren word parent.children :=
    List.mem_filter.mpr ⟨hb, by simpa [isMatchRegular] using hpreb⟩
  have htwo : 1 < (regChildren word parent.children).length := by
    by_contra hle
    have hpos := List.length_pos_of_mem hrega
    obtain ⟨m, hm⟩ := List.length_eq_one_iff.mp
      (by omega : (regChildren word parent.children).length = 1)
    rw [hm, List.mem_singleton] at hrega hregb
    exact hab (hrega.trans hregb.symm)
  obtain ⟨s, hs, hunique⟩ := matchUnique_eq host parent word
  have hcount := hs.count
  have hvar := hs.varCount
  have hne : s.varmatchCount ≠ s.matchCount := by omega
  have hone : s.matchCount ≠ 1 := by omega
  have hmatch : matchUnique host parent word = none := by
    rw [hunique]
    simp [hne, hone]
  rw [matchUniqueExact, hmatch]
  exact commandMatchExact_eq_none hdistinct hnone

/-- With matches only as arguments, one of the highest priority is meant. -/
theorem matchUniqueExact_variable (hreg : ∀ c ∈ parent.children, ¬ word <+: c.key)
    {c : CommandNode F} (hc : c ∈ parent.children) (hmatch : isMatchVariable host c.key word) :
    ∃ v ∈ parent.children, matchUniqueExact host parent word = some v
      ∧ isMatchVariable host v.key word
      ∧ ∀ d ∈ parent.children, isMatchVariable host d.key word →
        varmatchPri host d.key ≤ varmatchPri host v.key := by
  have hregs : regChildren word parent.children = [] :=
    List.filter_eq_nil_iff.mpr fun d hd => by simpa [isMatchRegular] using hreg d hd
  have hvars : c ∈ varChildren host word parent.children := List.mem_filter.mpr ⟨hc, hmatch⟩
  obtain ⟨s, hs, hunique⟩ := matchUnique_eq host parent word
  have hcount := hs.count
  have hvarCount := hs.varCount
  have hfound := hs.found
  have hbest := hs.varmatch
  rw [hregs, List.length_nil] at hcount
  cases hf : s.found with
  | none =>
    simp only [hf] at hfound
    rw [hfound.1] at hvars
    exact absurd hvars List.not_mem_nil
  | some n =>
    cases hv : s.varmatch with
    | none =>
      simp only [hv] at hbest
      rw [hbest] at hvars
      exact absurd hvars List.not_mem_nil
    | some v =>
      simp only [hv] at hbest
      obtain ⟨hmem, hmax⟩ := hbest
      obtain ⟨hv', hvmatch⟩ := List.mem_filter.mp hmem
      have hsame : s.varmatchCount = s.matchCount := by omega
      have hunique' : matchUnique host parent word = some v := by
        rw [hunique]
        simp [hf, hsame, hv]
      refine ⟨v, hv', ?_, hvmatch, fun d hd hdmatch => hmax d (List.mem_filter.mpr ⟨hd, hdmatch⟩)⟩
      rw [matchUniqueExact, hunique']

end Promises

end Host

end SdPlane
