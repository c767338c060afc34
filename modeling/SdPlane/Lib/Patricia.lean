import Mathlib

/-!
# PATRICIA trees

A tree whose nodes have bit strings for keys, the key of a child being longer than that of the node
above: it goes on with a 0 below one side and with a 1 below the other (`Under`). A node may have
data or only be there for its children, and it has a name, by which a program that keeps the tree
in memory would call it.

There is one way down to all of the keys that a bit string begins with (`entry_on_path`). So `find`
and `best` need not look anywhere else, and together with what `entries` there are that is all that
is to know about a tree.
-/

set_option autoImplicit false

namespace Lib

inductive Patricia (ι D : Type)
  | nil
  | node (name : ι) (key : List Bool) (data : Option D) (child : Bool → Patricia ι D)

namespace Patricia

/-- A node for itself. -/
structure Entry (ι D : Type) where
  name : ι
  key : List Bool
  data : Option D

variable {ι D : Type}

def root : Patricia ι D → Option ι
  | nil => none
  | node a _ _ _ => some a

/-- The nodes in preorder. -/
def entries : Patricia ι D → List (Entry ι D)
  | nil => []
  | node a k d c => ⟨a, k, d⟩ :: ((c false).entries ++ (c true).entries)

def names (t : Patricia ι D) : List ι := t.entries.map (·.name)

/-- The keys begin with `p`, and those of the children with the key above and their side. -/
def Under : List Bool → Patricia ι D → Prop
  | _, nil => True
  | p, node _ k _ c => p <+: k ∧ ∀ b, Under (k ++ [b]) (c b)

/-- The node with key `q`. -/
def find (q : List Bool) : Patricia ι D → Option (Entry ι D)
  | nil => none
  | node a k d c =>
    if k = q then some ⟨a, k, d⟩ else if k <+: q then find q (c (q.getD k.length false)) else none

/-- The last node with data on the way to `q`. -/
def best (q : List Bool) : Patricia ι D → Option (Entry ι D)
  | nil => none
  | node a k d c =>
    if k <+: q then
      (best q (c (q.getD k.length false))).or (if d.isSome then some ⟨a, k, d⟩ else none)
    else none

variable {a : ι} {p q k : List Bool} {d : Option D} {c : Bool → Patricia ι D} {t : Patricia ι D}
  {e e' : Entry ι D}

@[simp] theorem root_node : (node a k d c).root = some a := rfl

@[simp] theorem entries_nil : (nil : Patricia ι D).entries = [] := rfl

@[simp] theorem names_nil : (nil : Patricia ι D).names = [] := rfl

theorem names_node : (node a k d c).names = a :: ((c false).names ++ (c true).names) := by
  simp [names, entries]

/-- Either side first. -/
theorem entries_perm (b : Bool) :
    (node a k d c).entries.Perm (⟨a, k, d⟩ :: ((c b).entries ++ (c !b).entries)) := by
  cases b with
  | false => exact .rfl
  | true => exact List.perm_append_comm.cons _

theorem names_perm (b : Bool) : (node a k d c).names.Perm (a :: ((c b).names ++ (c !b).names)) := by
  simpa [names] using (entries_perm b).map Entry.name

@[simp] theorem mem_entries_node :
    e ∈ (node a k d c).entries ↔ e = ⟨a, k, d⟩ ∨ ∃ b, e ∈ (c b).entries := by
  simp [entries]

@[simp] theorem mem_names_node {x : ι} :
    x ∈ (node a k d c).names ↔ x = a ∨ ∃ b, x ∈ (c b).names := by
  simp [names_node]

theorem root_mem {x : ι} (h : t.root = some x) : x ∈ t.names := by
  cases t with
  | nil => cases h
  | node a k d c =>
    cases h
    exact mem_names_node.mpr (.inl rfl)

/-- The names in one child are not in the other, and not above. -/
theorem nodup_node : (node a k d c).names.Nodup ↔
    (∀ b, a ∉ (c b).names) ∧ (∀ b, (c b).names.Nodup) ∧ (c false).names.Disjoint (c true).names := by
  simp [names_node, List.nodup_append', and_assoc]

theorem nodup_sides (h : (node a k d c).names.Nodup) (b : Bool) :
    (c b).names.Disjoint (c !b).names := by
  obtain ⟨-, -, hdisj⟩ := nodup_node.mp h
  cases b with
  | false => exact hdisj
  | true => exact hdisj.symm

/-! ### Keys -/

theorem Under.shorten {p' : List Bool} (hp : p' <+: p) (h : t.Under p) : t.Under p' := by
  cases t with
  | nil => trivial
  | node a k d c => exact ⟨hp.trans h.1, h.2⟩

theorem Under.key_begins (h : t.Under p) (he : e ∈ t.entries) : p <+: e.key := by
  induction t generalizing p with
  | nil => cases he
  | node a k d c ih =>
    obtain rfl | ⟨b, hb⟩ := mem_entries_node.mp he
    · exact h.1
    · exact (h.1.trans (List.prefix_append k [b])).trans (ih b (h.2 b) hb)

/-- A key below a node is longer. -/
theorem Under.key_lt (h : (node a k d c).Under p) {b : Bool} (he : e ∈ (c b).entries) :
    k.length < e.key.length := by
  have hlen := ((h.2 b).key_begins he).length_le
  simp only [List.length_append, List.length_singleton] at hlen
  omega

theorem getD_branch {b : Bool} (h : k ++ [b] <+: q) : q.getD k.length false = b := by
  have hget := List.prefix_iff_getElem?.mp h k.length (by simp)
  simpa [List.getD_eq_getElem?_getD] using congrArg (·.getD false) hget

/-- What `q` begins with is all on one path. -/
theorem Under.entry_on_path (h : (node a k d c).Under p) (he : e ∈ (node a k d c).entries)
    (hq : e.key <+: q) :
    k <+: q ∧ (e = ⟨a, k, d⟩ ∨ e ∈ (c (q.getD k.length false)).entries) := by
  obtain rfl | ⟨b, hb⟩ := mem_entries_node.mp he
  · exact ⟨hq, .inl rfl⟩
  · have hbit := ((h.2 b).key_begins hb).trans hq
    refine ⟨(List.prefix_append k [b]).trans hbit, .inr ?_⟩
    rw [getD_branch hbit]
    exact hb

theorem Under.key_inj (h : t.Under p) (he : e ∈ t.entries) (he' : e' ∈ t.entries)
    (heq : e.key = e'.key) : e = e' := by
  induction t generalizing p with
  | nil => cases he
  | node a k d c ih =>
    have hpath := h.entry_on_path he (heq ▸ List.prefix_rfl : e.key <+: e'.key)
    have hpath' := h.entry_on_path he' (List.prefix_rfl : e'.key <+: e'.key)
    obtain rfl | hc := hpath.2 <;> obtain rfl | hc' := hpath'.2
    · rfl
    · exact absurd (h.key_lt hc') (by simp [← heq])
    · exact absurd (h.key_lt hc) (by simp [heq])
    · exact ih _ (h.2 _) hc hc'

/-! ### Searches -/

theorem find_some (h : t.find q = some e) : e ∈ t.entries ∧ e.key = q := by
  induction t with
  | nil => cases h
  | node a k d c ih =>
    simp only [find] at h
    split at h
    · rename_i heq
      obtain rfl := Option.some.inj h
      exact ⟨mem_entries_node.mpr (.inl rfl), heq⟩
    · split at h
      · obtain ⟨hmem, hkey⟩ := ih _ h
        exact ⟨mem_entries_node.mpr (.inr ⟨_, hmem⟩), hkey⟩
      · cases h

/-- No key is overlooked. -/
theorem Under.find_mem (h : t.Under p) (he : e ∈ t.entries) : t.find e.key = some e := by
  induction t generalizing p with
  | nil => cases he
  | node a k d c ih =>
    simp only [find]
    obtain ⟨hpre, rfl | hc⟩ := h.entry_on_path he List.prefix_rfl
    · rw [if_pos rfl]
    · have hne : k ≠ e.key := fun heq => absurd (h.key_lt hc) (by simp [heq])
      rw [if_neg hne, if_pos hpre]
      exact ih _ (h.2 _) hc

/-- A tree with longer keys only. -/
theorem Under.best_longer (h : t.Under p) (hlt : q.length < p.length) : t.best q = none := by
  cases t with
  | nil => rfl
  | node a k d c =>
    have hk : ¬k <+: q := fun hpre => absurd ((h.1.trans hpre).length_le) (by omega)
    simp only [best, if_neg hk]

theorem best_some (h : t.best q = some e) : e ∈ t.entries ∧ e.data.isSome ∧ e.key <+: q := by
  induction t with
  | nil => cases h
  | node a k d c ih =>
    simp only [best] at h
    split at h
    · rename_i hpre
      obtain hbelow | ⟨-, hhere⟩ := Option.or_eq_some_iff.mp h
      · obtain ⟨hmem, hrest⟩ := ih _ hbelow
        exact ⟨mem_entries_node.mpr (.inr ⟨_, hmem⟩), hrest⟩
      · obtain ⟨hd, hentry⟩ := Option.ite_none_right_eq_some.mp hhere
        obtain rfl := Option.some.inj hentry
        exact ⟨mem_entries_node.mpr (.inl rfl), hd, hpre⟩
    · cases h

/-- Nothing that `q` begins with is longer than what is found. -/
theorem Under.best_longest (h : t.Under p) (he : e ∈ t.entries) (hd : e.data.isSome)
    (hq : e.key <+: q) : ∃ f, t.best q = some f ∧ e.key.length ≤ f.key.length := by
  induction t generalizing p with
  | nil => cases he
  | node a k d c ih =>
    obtain ⟨hpre, rfl | hc⟩ := h.entry_on_path he hq
    · simp only [best, if_pos hpre]
      cases hbelow : (c (q.getD k.length false)).best q with
      | none => exact ⟨_, by simp [hd]; rfl, le_rfl⟩
      | some f => exact ⟨f, rfl, (h.key_lt (best_some hbelow).1).le⟩
    · obtain ⟨f, hf, hle⟩ := ih _ (h.2 _) hc
      refine ⟨f, ?_, hle⟩
      simp only [best, if_pos hpre, hf, Option.some_or]

/-! ### Changes -/

/-- Other data at the node `x`. -/
def setData [DecidableEq ι] (x : ι) (d : Option D) : Patricia ι D → Patricia ι D
  | nil => nil
  | node a k d' c => node a k (if a = x then d else d') fun b => (c b).setData x d

section SetData

variable [DecidableEq ι] {x : ι}

@[simp] theorem root_setData : (t.setData x d).root = t.root := by
  cases t <;> rfl

theorem entries_setData : (t.setData x d).entries
    = t.entries.map fun e => if e.name = x then { e with data := d } else e := by
  induction t with
  | nil => rfl
  | node a k d' c ih =>
    simp only [setData, entries, ih, List.map_cons, List.map_append]
    split <;> rfl

@[simp] theorem names_setData : (t.setData x d).names = t.names := by
  simp only [names, entries_setData, List.map_map]
  refine List.map_congr_left fun e _ => ?_
  simp only [Function.comp]
  split <;> rfl

theorem Under.setData (h : t.Under p) : (t.setData x d).Under p := by
  induction t generalizing p with
  | nil => trivial
  | node a k d' c ih => exact ⟨h.1, fun b => ih b (h.2 b)⟩

end SetData

/-- Another tree for a child. -/
theorem Under.update {b : Bool} {t' : Patricia ι D} (h : (node a k d c).Under p)
    (ht : t'.Under (k ++ [b])) : (node a k d (Function.update c b t')).Under p := by
  refine ⟨h.1, fun b' => ?_⟩
  by_cases heq : b' = b
  · subst heq
    rw [Function.update_self]
    exact ht
  · rw [Function.update_of_ne heq]
    exact h.2 b'

end Patricia

end Lib
