import SdPlane.Lib.Patricia
import SdPlane.Ptree

/-!
# The tree that lies in memory (`ptree.c`)

`Rep` says of a PATRICIA tree that it is what the pointers in memory make up, parents and
children alike, and `Shape` that all of the memory is a tree and how the keys are ordered in it. Then
the loops of the searches are searches of that tree: they end, and they find what there is to find.
-/

set_option autoImplicit false

namespace SdPlane

variable {D : Type}

abbrev Tree (D : Type) := Lib.Patricia Addr D

def PtreeNode.bits (x : PtreeNode D) : List Bool := Lib.bits x.key x.keylen

/-- What is in memory for a node with parent `u` and these children. -/
structure NodeHolds (x : PtreeNode D) (k : List Bool) (d : Option D) (u : Option Addr)
    (child : Bool → Tree D) : Prop where
  bits : x.bits = k
  data : x.data = d
  parent : x.parent = u
  child : ∀ b, x.child b = (child b).root

/-- The tree below `u`. -/
def Rep (heap : Addr → Option (PtreeNode D)) : Option Addr → Tree D → Prop
  | _, .nil => True
  | u, .node a k d c => (∃ x, heap a = some x ∧ NodeHolds x k d u c) ∧ ∀ b, Rep heap (some a) (c b)

structure Shape (s : Ptree D) (t : Tree D) : Prop where
  top : s.top = t.root
  rep : Rep s.heap none t
  under : t.Under []
  nodup : t.names.Nodup
  live : ∀ a, s.heap a ≠ none ↔ a ∈ t.names
  used : ∀ a, a ∈ t.names → a < s.next
  fits : ∀ e, e ∈ t.entries → e.key.length + 7 < 2 ^ 31

variable {heap heap' : Addr → Option (PtreeNode D)} {u : Option Addr} {t : Tree D} {s : Ptree D}

theorem node_of_heap {a : Addr} {x : PtreeNode D} (h : s.heap a = some x) :
    s.node (some a) = .ok x := by
  simp [Ptree.node, h]

@[simp] theorem PtreeNode.length_bits (x : PtreeNode D) : x.bits.length = x.keylen :=
  Lib.length_bits _ _

theorem Rep.frame (h : Rep heap u t) (hsame : ∀ a, a ∈ t.names → heap' a = heap a) :
    Rep heap' u t := by
  induction t generalizing u with
  | nil => trivial
  | node a k d c ih =>
    obtain ⟨⟨x, hx, hholds⟩, hbelow⟩ := h
    refine ⟨⟨x, ?_, hholds⟩, fun b => ih b (hbelow b) fun y hy => ?_⟩
    · rw [hsame a (Lib.Patricia.mem_names_node.mpr (.inl rfl)), hx]
    · exact hsame y (Lib.Patricia.mem_names_node.mpr (.inr ⟨b, hy⟩))

/-- Every entry is a node in memory. -/
theorem Rep.entry (h : Rep heap u t) {e : Lib.Patricia.Entry Addr D} (he : e ∈ t.entries) :
    ∃ x, heap e.name = some x ∧ x.bits = e.key ∧ x.data = e.data := by
  induction t generalizing u with
  | nil => cases he
  | node a k d c ih =>
    obtain ⟨⟨x, hx, hholds⟩, hbelow⟩ := h
    obtain rfl | ⟨b, hb⟩ := Lib.Patricia.mem_entries_node.mp he
    · exact ⟨x, hx, hholds.bits, hholds.data⟩
    · exact ih b (hbelow b) hb

theorem Rep.mem_entries (h : Rep heap u t) {a : Addr} {x : PtreeNode D} (ha : a ∈ t.names)
    (hx : heap a = some x) : ⟨a, x.bits, x.data⟩ ∈ t.entries := by
  obtain ⟨e, he, rfl⟩ := List.mem_map.mp ha
  obtain ⟨y, hy, hbits, hdata⟩ := h.entry he
  obtain rfl := Option.some.inj (hx.symm.trans hy)
  rw [hbits, hdata]
  exact he

/-! ## Links -/

/-- A child knows its parent, and its key goes on where the parent's ends. -/
theorem Rep.child {p : List Bool} (h : Rep heap u t) (hunder : t.Under p) {a c' : Addr}
    {x : PtreeNode D} {b : Bool} (ha : a ∈ t.names) (hx : heap a = some x)
    (hc : x.child b = some c') :
    ∃ y, heap c' = some y ∧ y.parent = some a ∧ x.bits ++ [b] <+: y.bits := by
  induction t generalizing u p with
  | nil => cases ha
  | node a' k d c ih =>
    obtain ⟨⟨x', hx', hholds⟩, hbelow⟩ := h
    obtain rfl | ⟨b', hb'⟩ := Lib.Patricia.mem_names_node.mp ha
    · obtain rfl := Option.some.inj (hx.symm.trans hx')
      rw [hholds.child] at hc
      have hbelow' := hbelow b
      have hunder' := hunder.2 b
      cases hcb : c b with
      | nil => simp [hcb, Lib.Patricia.root] at hc
      | node a' k' d' c'' =>
        rw [hcb] at hc hbelow' hunder'
        obtain rfl := Option.some.inj hc
        obtain ⟨⟨y, hy, hyholds⟩, -⟩ := hbelow'
        refine ⟨y, hy, hyholds.parent, ?_⟩
        rw [hholds.bits, hyholds.bits]
        exact hunder'.1
    · exact ih b' (hbelow b') (hunder.2 b') hb'

/-- And a parent its child. -/
theorem Rep.parent (h : Rep heap u t) {a : Addr} {x : PtreeNode D} (ha : a ∈ t.names)
    (hx : heap a = some x) : x.parent = u ∧ t.root = some a
      ∨ ∃ v y b, x.parent = some v ∧ v ∈ t.names ∧ heap v = some y ∧ y.child b = some a := by
  induction t generalizing u with
  | nil => cases ha
  | node a' k d c ih =>
    obtain ⟨⟨x', hx', hholds⟩, hbelow⟩ := h
    obtain rfl | ⟨b, hb⟩ := Lib.Patricia.mem_names_node.mp ha
    · obtain rfl := Option.some.inj (hx.symm.trans hx')
      exact .inl ⟨hholds.parent, rfl⟩
    · obtain ⟨hparent, hroot⟩ | ⟨v, y, b', hparent, hv, hrest⟩ := ih b (hbelow b) hb
      · refine .inr ⟨a', x', b, hparent, Lib.Patricia.mem_names_node.mpr (.inl rfl), hx', ?_⟩
        rw [hholds.child, hroot]
      · exact .inr ⟨v, y, b', hparent, Lib.Patricia.mem_names_node.mpr (.inr ⟨b, hv⟩), hrest⟩

/-! ## Searches -/

section Search

variable {key : Nat → UInt8} {keylen : Nat}

theorem getD_bits {i : Nat} (hi : i < keylen) :
    (Lib.bits key keylen).getD i false = Lib.bitAt key i := by
  simp [Lib.bits, hi]

theorem bits_eq_bits {x : PtreeNode D} : x.bits = Lib.bits key keylen
    ↔ x.keylen = keylen ∧ ptreeMatch x.key key x.keylen := by
  rw [ptreeMatch_iff]
  constructor
  · intro h
    have hlen : x.keylen = keylen := by simpa using congrArg List.length h
    exact ⟨hlen, by rw [← PtreeNode.bits, h, hlen]⟩
  · rintro ⟨rfl, h⟩
    exact h

/-- The last `x` of the loop, and what it says of the node with the key. -/
theorem lookupLoop_find (key : Nat → UInt8) (keylen more : Nat) {p : List Bool}
    (h : Rep s.heap u t) (hunder : t.Under p) (hmore : keylen + 2 ≤ p.length + more)
    (hpos : 0 < more) :
    ∃ r, lookupLoop key keylen s more t.root = .ok r ∧ match r with
      | none => t.find (Lib.bits key keylen) = none
      | some a => ∃ x, s.heap a = some x ∧ t.find (Lib.bits key keylen)
          = if x.bits = Lib.bits key keylen then some ⟨a, x.bits, x.data⟩ else none := by
  induction t generalizing u p more with
  | nil =>
    obtain ⟨more, rfl⟩ := Nat.exists_eq_succ_of_ne_zero hpos.ne'
    exact ⟨none, rfl, rfl⟩
  | node a k d c ih =>
    obtain ⟨more, rfl⟩ := Nat.exists_eq_succ_of_ne_zero hpos.ne'
    obtain ⟨⟨x, hx, hholds⟩, hbelow⟩ := h
    have hlen : k.length = x.keylen := by rw [← hholds.bits, PtreeNode.length_bits]
    have hp := hunder.1.length_le
    simp only [Lib.Patricia.root_node, lookupLoop, node_of_heap hx, Lib.ok_bind]
    by_cases hdown : x.keylen < keylen ∧ ptreeMatch x.key key x.keylen
    · rw [if_pos hdown]
      have hpre : k <+: Lib.bits key keylen := by
        rw [← hholds.bits]
        exact match_iff_begins.mp ⟨hdown.1.le, hdown.2⟩
      have hne : k ≠ Lib.bits key keylen := fun heq => by
        have hk := congrArg List.length heq
        rw [Lib.length_bits] at hk
        omega
      obtain ⟨r, hr, hfind⟩ := ih (checkBit key x.keylen) more (hbelow _) (hunder.2 _)
        (by simp only [List.length_append, List.length_singleton]; omega) (by omega)
      refine ⟨r, by rw [hholds.child, hr], ?_⟩
      have hbit : (Lib.bits key keylen).getD k.length false = checkBit key x.keylen := by
        rw [hlen, getD_bits hdown.1, checkBit_eq]
      simp only [Lib.Patricia.find, if_neg hne, if_pos hpre, hbit]
      exact hfind
    · rw [if_neg hdown]
      refine ⟨some a, rfl, x, hx, ?_⟩
      simp only [Lib.Patricia.find, ← hholds.bits, ← hholds.data]
      by_cases heq : x.bits = Lib.bits key keylen
      · rw [if_pos heq, if_pos heq]
      · rw [if_neg heq, if_neg heq, if_neg]
        intro hpre
        obtain ⟨hle, hmatch⟩ := match_iff_begins.mpr hpre
        have hnot := mt bits_eq_bits.mpr heq
        exact hdown ⟨by by_contra hge; exact hnot ⟨by omega, hmatch⟩, hmatch⟩

theorem Shape.lookup (h : Shape s t) :
    ptreeLookup key keylen s = .ok ((t.find (Lib.bits key keylen)).map (·.name)) := by
  obtain ⟨r, hr, hfind⟩ := lookupLoop_find key keylen (keylen + 2) h.rep h.under (by simp) (by omega)
  simp only [ptreeLookup, h.top, hr, Lib.ok_bind]
  cases r with
  | none => simp [hfind]
  | some a =>
    obtain ⟨x, hx, hfind⟩ := hfind
    simp only [node_of_heap hx, Lib.ok_bind, ← bits_eq_bits, hfind]
    split <;> rfl

theorem searchLoop_best {p : List Bool} {more : Nat} (found : Option Addr) (h : Rep s.heap u t)
    (hunder : t.Under p) (hmore : keylen + 2 ≤ p.length + more) (hpos : 0 < more) :
    searchLoop key keylen s more found t.root
      = .ok (((t.best (Lib.bits key keylen)).map (·.name)).or found) := by
  induction t generalizing u p more found with
  | nil =>
    obtain ⟨more, rfl⟩ := Nat.exists_eq_succ_of_ne_zero hpos.ne'
    rfl
  | node a k d c ih =>
    obtain ⟨more, rfl⟩ := Nat.exists_eq_succ_of_ne_zero hpos.ne'
    obtain ⟨⟨x, hx, hholds⟩, hbelow⟩ := h
    have hlen : k.length = x.keylen := by rw [← hholds.bits, PtreeNode.length_bits]
    have hp := hunder.1.length_le
    simp only [Lib.Patricia.root_node, searchLoop, node_of_heap hx, Lib.ok_bind]
    have hmatch : x.keylen ≤ keylen ∧ ptreeMatch x.key key x.keylen
        ↔ k <+: Lib.bits key keylen := by
      rw [match_iff_begins, ← PtreeNode.bits, hholds.bits]
    simp only [hmatch, Lib.Patricia.best]
    by_cases hpre : k <+: Lib.bits key keylen
    · have hle : k.length ≤ keylen := by simpa using hpre.length_le
      rw [if_pos hpre, if_pos hpre, hholds.child, hholds.data,
        ih _ _ (hbelow _) (hunder.2 _)
          (by simp only [List.length_append, List.length_singleton]; omega) (by omega)]
      -- behind the end of the key either side will do
      have hside : (c (checkBit key x.keylen)).best (Lib.bits key keylen)
          = (c ((Lib.bits key keylen).getD k.length false)).best (Lib.bits key keylen) := by
        rcases hle.lt_or_eq with hlt | heq
        · rw [getD_bits hlt, checkBit_eq, hlen]
        · have hlonger : ∀ b, (c b).best (Lib.bits key keylen) = none := fun b =>
            (hunder.2 b).best_longer (by simp [heq])
          rw [hlonger, hlonger]
      rw [hside]
      cases (c ((Lib.bits key keylen).getD k.length false)).best (Lib.bits key keylen) with
      | some e => rfl
      | none => cases d <;> rfl
    · rw [if_neg hpre, if_neg hpre]
      rfl

theorem Shape.search (h : Shape s t) :
    ptreeSearch key keylen s = .ok ((t.best (Lib.bits key keylen)).map (·.name)) := by
  rw [ptreeSearch, h.top, searchLoop_best none h.rep h.under (by simp) (by omega), Option.or_none]

/-- The node with the key, if it has data. -/
theorem Shape.searchExact (h : Shape s t) : ptreeSearchExact key keylen s
    = .ok (((t.find (Lib.bits key keylen)).filter (·.data.isSome)).map (·.name)) := by
  have hloop : ptreeSearch key keylen s = _ := h.search
  rw [ptreeSearch] at hloop
  simp only [ptreeSearchExact, hloop, Lib.ok_bind]
  -- it is on the way, and is the last one
  have hlast : ∀ e, t.find (Lib.bits key keylen) = some e → e.data.isSome →
      t.best (Lib.bits key keylen) = some e := fun e he hd => by
    obtain ⟨hmem, hkey⟩ := Lib.Patricia.find_some he
    obtain ⟨f, hf, hle⟩ := h.under.best_longest hmem hd (by rw [hkey])
    obtain ⟨hfmem, -, hpre⟩ := Lib.Patricia.best_some hf
    rw [hkey] at hle
    have hfkey : f.key = Lib.bits key keylen := hpre.eq_of_length (by
      have hge := hpre.length_le
      omega)
    rw [hf, h.under.key_inj hmem hfmem (hkey.trans hfkey.symm)]
  have hnone : ¬(∃ e, t.find (Lib.bits key keylen) = some e ∧ e.data.isSome) →
      (t.find (Lib.bits key keylen)).filter (·.data.isSome) = none := fun hno => by
    rw [Option.filter_eq_none_iff]
    exact fun e he hd => hno ⟨e, he, hd⟩
  cases hbest : t.best (Lib.bits key keylen) with
  | none =>
    rw [hnone]
    · rfl
    · rintro ⟨e, he, hd⟩
      simp [hlast e he hd] at hbest
  | some e =>
    obtain ⟨hmem, hd, hpre⟩ := Lib.Patricia.best_some hbest
    obtain ⟨x, hx, hbits, -⟩ := h.rep.entry hmem
    have hlen : x.keylen = e.key.length := by rw [← hbits, PtreeNode.length_bits]
    simp only [Option.map_some, node_of_heap hx, Lib.ok_bind]
    by_cases hend : x.keylen = keylen
    · have hkey : e.key = Lib.bits key keylen :=
        hpre.eq_of_length (by rw [Lib.length_bits, ← hlen, hend])
      rw [if_pos hend, ← hkey, h.under.find_mem hmem, Option.filter_some, if_pos hd]
      rfl
    · rw [if_neg hend, hnone]
      · rfl
      · rintro ⟨f, hf, hfd⟩
        obtain rfl := Option.some.inj (hbest.symm.trans (hlast f hf hfd))
        refine hend ?_
        rw [hlen, (Lib.Patricia.find_some hf).2, Lib.length_bits]

end Search

end SdPlane
