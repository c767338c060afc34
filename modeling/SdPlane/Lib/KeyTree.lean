import Mathlib

/-!
# Trees with keyed children

A `KeyTree` has a value at every node, and its nodes tell their children apart by a key, so a
path of keys is the address of a node: `sub` goes there, `modify` changes what is there, and
`entry` is the value that is found. Children are kept in the order of their keys (`Sorted`).

The results say what the two operations that matter, a change of the value (`mapVal`) and a new child
(`insert`), do to the entry of every path: to all but one path nothing.
-/

set_option autoImplicit false

namespace Lib

structure KeyTree (K V : Type) where
  key : K
  val : V
  children : List (KeyTree K V)

namespace KeyTree

variable {K V : Type}

section Paths

variable [LinearOrder K]

def child (t : KeyTree K V) (k : K) : Option (KeyTree K V) := t.children.find? (·.key = k)

/-- The tree below a path. -/
def sub : KeyTree K V → List K → Option (KeyTree K V)
  | t, [] => some t
  | t, k :: p => (t.child k).bind (·.sub p)

/-- The value that a path leads to. -/
def entry (t : KeyTree K V) (p : List K) : Option V := (t.sub p).map (·.val)

/-- Something happens to the node that a path leads to. -/
def modify (f : KeyTree K V → KeyTree K V) : List K → KeyTree K V → KeyTree K V
  | [], t => f t
  | k :: p, t => { t with children := t.children.map fun c => if c.key = k then c.modify f p else c }

def mapVal (g : V → V) (t : KeyTree K V) : KeyTree K V := { t with val := g t.val }

/-! ## Where paths lead -/

theorem key_child {t c : KeyTree K V} {k : K} (h : t.child k = some c) : c.key = k := by
  simpa using List.find?_some h

theorem mem_child {t c : KeyTree K V} {k : K} (h : t.child k = some c) : c ∈ t.children :=
  List.mem_of_find?_eq_some h

theorem sub_append (p : List K) : ∀ (t : KeyTree K V) (q : List K),
    t.sub (p ++ q) = (t.sub p).bind (·.sub q) := by
  induction p with
  | nil => intro t q; rfl
  | cons k p ih =>
    intro t q
    simp only [List.cons_append, sub]
    cases t.child k with
    | none => rfl
    | some c => exact ih c q

theorem sub_singleton (t : KeyTree K V) (k : K) : t.sub [k] = t.child k := by
  cases h : t.child k <;> simp [sub, h]

theorem sub_concat {t n : KeyTree K V} {p : List K} (h : t.sub p = some n) (k : K) :
    t.sub (p ++ [k]) = n.child k := by
  rw [sub_append, h, Option.bind_some, sub_singleton]

theorem entry_append {t n : KeyTree K V} {p : List K} (h : t.sub p = some n) (q : List K) :
    t.entry (p ++ q) = n.entry q := by
  rw [entry, sub_append, h, Option.bind_some, entry]

theorem entry_eq_none {t : KeyTree K V} {p : List K} : t.entry p = none ↔ t.sub p = none := by
  simp [entry]

theorem isSome_entry {t : KeyTree K V} {p : List K} :
    (t.entry p).isSome ↔ ∃ n, t.sub p = some n := by
  rw [entry, Option.isSome_map, Option.isSome_iff_exists]

/-! ## Changes at a path -/

variable {f : KeyTree K V → KeyTree K V}

theorem key_modify (hkey : ∀ t, (f t).key = t.key) (p : List K) (t : KeyTree K V) :
    (t.modify f p).key = t.key := by
  cases p with
  | nil => exact hkey t
  | cons k p => rfl

theorem child_modify (hkey : ∀ t, (f t).key = t.key) (k : K) (p : List K) (t : KeyTree K V)
    (k' : K) : (t.modify f (k :: p)).child k'
      = if k' = k then (t.child k).map (·.modify f p) else t.child k' := by
  have hsame : ∀ c : KeyTree K V, (if c.key = k then c.modify f p else c).key = c.key := by
    intro c
    split
    · exact key_modify hkey p c
    · rfl
  simp only [modify, child, List.find?_map, Function.comp_def, hsame]
  split
  · next heq =>
    subst heq
    cases h : t.children.find? (·.key = k') with
    | none => rfl
    | some c => simp [key_child (t := t) h]
  · next hne =>
    cases h : t.children.find? (·.key = k') with
    | none => rfl
    | some c => simp [key_child (t := t) h, hne]

theorem sub_modify_append (hkey : ∀ t, (f t).key = t.key) (p : List K) :
    ∀ (t : KeyTree K V) (q : List K),
    (t.modify f p).sub (p ++ q) = (t.sub p).bind fun n => (f n).sub q := by
  induction p with
  | nil => intro t q; rfl
  | cons k p ih =>
    intro t q
    simp only [List.cons_append, sub, child_modify hkey, if_true]
    cases t.child k with
    | none => rfl
    | some c => exact ih c q

/-- What is not below the path stays. -/
theorem entry_modify_elsewhere (hkey : ∀ t, (f t).key = t.key) (p : List K) :
    ∀ (t : KeyTree K V) (q : List K), ¬ p <+: q → (t.modify f p).entry q = t.entry q := by
  induction p with
  | nil => intro t q h; exact absurd (List.nil_prefix) h
  | cons k p ih =>
    intro t q h
    cases q with
    | nil => rfl
    | cons k' q =>
      simp only [entry, sub, child_modify hkey]
      split
      · next heq =>
        subst heq
        have hq : ¬ p <+: q := fun hpq => h (List.cons_prefix_cons.mpr ⟨rfl, hpq⟩)
        cases t.child k' with
        | none => rfl
        | some c => exact ih c q hq
      · rfl

theorem entry_mapVal (g : V → V) (t : KeyTree K V) (q : List K) :
    (t.mapVal g).entry q = if q = [] then some (g t.val) else t.entry q := by
  cases q with
  | nil => rfl
  | cons k q => rfl

/-- A value changes at a path, and everything else is what it was. -/
theorem entry_modify_mapVal (g : V → V) (t : KeyTree K V) (p q : List K) :
    (t.modify (mapVal g) p).entry q = if q = p then (t.entry p).map g else t.entry q := by
  have hkey : ∀ t : KeyTree K V, (t.mapVal g).key = t.key := fun t => rfl
  by_cases hpre : p <+: q
  · obtain ⟨r, rfl⟩ := hpre
    rw [entry, sub_modify_append hkey]
    cases hn : t.sub p with
    | none => simp [entry, sub_append, hn]
    | some n =>
      have hp : t.entry p = some n.val := by rw [entry, hn, Option.map_some]
      rw [Option.bind_some, ← entry, entry_mapVal, entry_append hn, hp]
      simp
  · have hne : q ≠ p := fun heq => hpre (heq ▸ List.prefix_rfl)
    rw [entry_modify_elsewhere hkey p t q hpre, if_neg hne]

end Paths

/-! ## Sorted trees -/

section Order

variable [LinearOrder K]

/-- The keys of the children of every node are in order, and no key is there twice. -/
inductive Sorted : KeyTree K V → Prop
  | mk {t : KeyTree K V} (children : t.children.Pairwise (·.key < ·.key))
      (below : ∀ c ∈ t.children, c.Sorted) : t.Sorted

theorem Sorted.children {t : KeyTree K V} (h : t.Sorted) :
    t.children.Pairwise (·.key < ·.key) := by
  cases h with
  | mk children _ => exact children

theorem Sorted.of_mem {t : KeyTree K V} (h : t.Sorted) : ∀ c ∈ t.children, c.Sorted := by
  cases h with
  | mk _ hbelow => exact hbelow

theorem sorted_leaf (k : K) (v : V) : Sorted ⟨k, v, []⟩ :=
  ⟨List.Pairwise.nil, fun _ hc => absurd hc List.not_mem_nil⟩

theorem Sorted.sub {p : List K} : ∀ {t n : KeyTree K V}, t.Sorted → t.sub p = some n →
    n.Sorted := by
  induction p with
  | nil =>
    intro t n h hn
    obtain rfl := Option.some.inj hn
    exact h
  | cons k p ih =>
    intro t n h hn
    obtain ⟨c, hc, hn⟩ := Option.bind_eq_some_iff.mp hn
    exact ih (h.of_mem c (mem_child hc)) hn

/-- Among children in order there is at most one for a key. -/
theorem eq_of_key_eq {l : List (KeyTree K V)} (h : l.Pairwise (·.key < ·.key))
    {a b : KeyTree K V} (ha : a ∈ l) (hb : b ∈ l) (hkey : a.key = b.key) : a = b := by
  induction l with
  | nil => exact absurd ha List.not_mem_nil
  | cons c l ih =>
    obtain ⟨hlt, hl⟩ := List.pairwise_cons.mp h
    cases ha with
    | head =>
      cases hb with
      | head => rfl
      | tail _ hb => exact absurd hkey (hlt b hb).ne
    | tail _ ha =>
      cases hb with
      | head => exact absurd hkey.symm (hlt a ha).ne
      | tail _ hb => exact ih hl ha hb

theorem child_eq_some_iff {t c : KeyTree K V} (h : t.children.Pairwise (·.key < ·.key)) {k : K} :
    t.child k = some c ↔ c ∈ t.children ∧ c.key = k := by
  constructor
  · intro hc
    exact ⟨mem_child hc, key_child hc⟩
  · intro ⟨hmem, hkey⟩
    obtain ⟨d, hd⟩ : ∃ d, t.child k = some d := by
      refine Option.isSome_iff_exists.mp (List.find?_isSome.mpr ⟨c, hmem, ?_⟩)
      simpa using hkey
    rw [hd, eq_of_key_eq h (mem_child hd) hmem ((key_child hd).trans hkey.symm)]

/-- A further child, put where it belongs. -/
def insert (t c : KeyTree K V) : KeyTree K V :=
  { t with children := (t.children ++ [c]).insertionSort (·.key ≤ ·.key) }

theorem mem_children_insert {t c d : KeyTree K V} :
    d ∈ (t.insert c).children ↔ d ∈ t.children ∨ d = c := by
  simp [insert, List.mem_insertionSort]

theorem key_ne_of_child_eq_none {t d : KeyTree K V} {k : K} (h : t.child k = none)
    (hd : d ∈ t.children) : d.key ≠ k := by
  simpa using List.find?_eq_none.mp h d hd

theorem children_insert {t c : KeyTree K V} (h : t.children.Pairwise (·.key < ·.key))
    (hnew : t.child c.key = none) : (t.insert c).children.Pairwise (·.key < ·.key) := by
  have : IsTrans (KeyTree K V) (·.key ≤ ·.key) := ⟨fun a b c hab hbc => le_trans hab hbc⟩
  have : @Std.Total (KeyTree K V) (·.key ≤ ·.key) := ⟨fun a b => le_total a.key b.key⟩
  have hle := List.pairwise_insertionSort (fun a b : KeyTree K V => a.key ≤ b.key)
    (t.children ++ [c])
  have hne : (t.children ++ [c]).Pairwise (·.key ≠ ·.key) := by
    refine List.pairwise_append.mpr ⟨h.imp ne_of_lt, List.pairwise_singleton _ _, ?_⟩
    intro a ha b hb
    obtain rfl := List.mem_singleton.mp hb
    exact key_ne_of_child_eq_none hnew ha
  have hne' := ((List.perm_insertionSort (fun a b : KeyTree K V => a.key ≤ b.key) _).symm.pairwise
    hne fun h => h.symm)
  exact (hle.and hne').imp fun h => lt_of_le_of_ne h.1 h.2

theorem sorted_insert {t c : KeyTree K V} (h : t.Sorted) (hc : c.Sorted)
    (hnew : t.child c.key = none) : (t.insert c).Sorted := by
  refine ⟨children_insert h.children hnew, ?_⟩
  intro d hd
  rcases mem_children_insert.mp hd with hd | rfl
  · exact h.of_mem d hd
  · exact hc

theorem child_insert {t c : KeyTree K V} (h : t.children.Pairwise (·.key < ·.key))
    (hnew : t.child c.key = none) (k : K) :
    (t.insert c).child k = if k = c.key then some c else t.child k := by
  ext d
  rw [child_eq_some_iff (children_insert h hnew), mem_children_insert]
  split
  · next heq =>
    subst heq
    constructor
    · intro ⟨hd, hkey⟩
      rcases hd with hd | rfl
      · exact absurd hkey (key_ne_of_child_eq_none hnew hd)
      · rfl
    · intro hd
      obtain rfl := Option.some.inj hd
      exact ⟨.inr rfl, rfl⟩
  · next hne =>
    rw [child_eq_some_iff h]
    constructor
    · intro ⟨hd, hkey⟩
      rcases hd with hd | rfl
      · exact ⟨hd, hkey⟩
      · exact absurd hkey.symm hne
    · intro ⟨hd, hkey⟩
      exact ⟨.inl hd, hkey⟩

/-- A change that keeps keys and order at a node keeps the order everywhere. -/
theorem Sorted.modify {f : KeyTree K V → KeyTree K V} (hkey : ∀ t, (f t).key = t.key)
    {p : List K} : ∀ {t : KeyTree K V}, t.Sorted →
    (∀ n, t.sub p = some n → n.Sorted → (f n).Sorted) → (t.modify f p).Sorted := by
  induction p with
  | nil => intro t h hf; exact hf t rfl h
  | cons k p ih =>
    intro t h hf
    refine ⟨?_, ?_⟩
    · refine List.pairwise_map.mpr (h.children.imp ?_)
      intro a b hab
      split <;> split <;> simpa [key_modify hkey] using hab
    · intro d hd
      obtain ⟨c, hc, rfl⟩ := List.mem_map.mp hd
      split
      · next heq =>
        refine ih (h.of_mem c hc) fun n hn => hf n ?_
        rw [KeyTree.sub, (child_eq_some_iff h.children).mpr ⟨hc, heq⟩]
        exact hn
      · exact h.of_mem c hc

theorem Sorted.modify_mapVal {t : KeyTree K V} (h : t.Sorted) (g : V → V) (p : List K) :
    (t.modify (mapVal g) p).Sorted :=
  @Sorted.modify K V _ (mapVal g) (fun _ => rfl) p t h fun _ _ hn => ⟨hn.children, hn.of_mem⟩

section Insert

variable {t n : KeyTree K V} {p : List K} {k : K} (h : t.Sorted) (hn : t.sub p = some n)
  (hnew : n.child k = none) (v : V)
include h hn hnew

theorem Sorted.modify_insert : (t.modify (insert · ⟨k, v, []⟩) p).Sorted := by
  refine @Sorted.modify K V _ (insert · ⟨k, v, []⟩) (fun _ => rfl) p t h fun m hm hsorted => ?_
  obtain rfl := Option.some.inj (hm.symm.trans hn)
  exact sorted_insert hsorted (sorted_leaf k v) hnew

/-- A new child is there, and everything else is what it was. -/
theorem entry_modify_insert (q : List K) :
    (t.modify (insert · ⟨k, v, []⟩) p).entry q = if q = p ++ [k] then some v else t.entry q := by
  have hkey : ∀ t : KeyTree K V, (t.insert ⟨k, v, []⟩).key = t.key := fun t => rfl
  by_cases hpre : p <+: q
  · obtain ⟨r, rfl⟩ := hpre
    rw [entry, sub_modify_append hkey, hn, Option.bind_some, ← entry, entry_append hn]
    cases r with
    | nil =>
      have hne : p ++ [] ≠ p ++ [k] := by simp
      rw [if_neg hne]
      rfl
    | cons k' r =>
      have hchild := child_insert (h.sub hn).children hnew k' (c := ⟨k, v, []⟩)
      simp only [entry, KeyTree.sub, hchild]
      by_cases heq : k' = k
      · subst heq
        cases r with
        | nil => simp [KeyTree.sub]
        | cons k'' r =>
          have hleaf : (⟨k', v, []⟩ : KeyTree K V).child k'' = none := rfl
          simp [KeyTree.sub, hnew, hleaf]
      · simp [heq]
  · have hne : q ≠ p ++ [k] := fun heq => hpre (heq ▸ List.prefix_append p [k])
    rw [entry_modify_elsewhere hkey p t q hpre, if_neg hne]

end Insert

/-- In a sorted tree the keys below a path are those that lead further. -/
theorem Sorted.mem_keys_iff {t n : KeyTree K V} {p : List K} (h : t.Sorted)
    (hn : t.sub p = some n) (k : K) :
    k ∈ n.children.map (·.key) ↔ (t.entry (p ++ [k])).isSome := by
  rw [isSome_entry, sub_concat hn, List.mem_map]
  refine exists_congr fun c => ?_
  rw [child_eq_some_iff (h.sub hn).children]

end Order

end KeyTree

end Lib
