import SdPlane.RibDelete
import SdPlane.RouteRefcnt

/-!
# The nodes of the RIB tree (`radix.c`)

`_shrink` is there so that the tree holds no node that no route needs. `_delete` calls it on the
node that has lost its route, and it goes **down** from there: the nodes above are put back by
`_delete` on its way up, which does not look at what is left of them. A node that was only on the
way to the deleted one stays, and so does a chain of them. `_add` leaves such a chain too, when it
runs out of memory below a node it has just made.

`Pruned` is that every node without children holds a route. The bound on the number of nodes and the
empty tree follow from it (`treePruned_iff`), and `treePruned_throughout_iff` says which calls keep
it.
-/

set_option autoImplicit false

namespace SdPlane.Radix

open Fib (Acc mallocOk)

/-! ## Pruned trees -/

/-- The number of nodes. -/
def RibNode.size : RibNode → Nat
  | .null => 0
  | .node _ _ left right => left.size + right.size + 1

/-- Every node without children is valid. -/
def RibNode.Pruned : RibNode → Prop
  | .null => True
  | .node valid _ left right =>
    (left = .null → right = .null → valid = true) ∧ left.Pruned ∧ right.Pruned

/-- The tree has the nodes that its routes need: no childless node without a route, at most one node
    for each bit of a stored prefix and one more, and none if there are no routes. -/
structure TreePruned (t : RibTree) : Prop where
  pruned : t.root.Pruned
  size : t.root.size ≤ ∑ p ∈ t.root.keys, (p.length + 1)
  empty : (∀ p, routes t.root p = none) → t.root = .null

section Pruned

variable {n : RibNode}

/-- A node of a pruned tree is on the way to a route. -/
theorem RibNode.Pruned.exists_route (h : n.Pruned) (hn : n ≠ .null) :
    ∃ p, (routes n p).isSome := by
  induction n with
  | null => exact absurd rfl hn
  | node valid entry left right ihl ihr =>
    obtain ⟨hvalid, hl, hr⟩ := h
    by_cases hleft : left = .null
    · by_cases hright : right = .null
      · exact ⟨[], by rw [routes_nil, hvalid hleft hright]; rfl⟩
      · obtain ⟨p, hp⟩ := ihr hr hright
        exact ⟨true :: p, hp⟩
    · obtain ⟨p, hp⟩ := ihl hl hleft
      exact ⟨false :: p, hp⟩

/-- The sum over the routes of a node, child by child. A child adds one bit to each of its own. -/
theorem sum_keys_node (valid : Bool) (entry : RouteEntry) (left right : RibNode) :
    ∑ p ∈ (RibNode.node valid entry left right).keys, (p.length + 1)
      = (if valid then 1 else 0) + ((∑ p ∈ left.keys, (p.length + 1)) + left.keys.card)
        + ((∑ p ∈ right.keys, (p.length + 1)) + right.keys.card) := by
  have hchild : ∀ (b : Bool) (s : Finset (List Bool)),
      ∑ p ∈ s.image (List.cons b), (p.length + 1) = (∑ p ∈ s, (p.length + 1)) + s.card := by
    intro b s
    rw [Finset.sum_image fun p _ q _ heq => (List.cons.inj heq).2, Finset.card_eq_sum_ones,
      ← Finset.sum_add_distrib]
    rfl
  have hsides : Disjoint ((if valid then {[]} else ∅) ∪ left.keys.image (List.cons false))
      (right.keys.image (List.cons true)) := by
    rw [Finset.disjoint_left]
    intro p hp hp'
    obtain ⟨q, -, rfl⟩ := Finset.mem_image.mp hp'
    cases valid <;> simp at hp
  have hhere : Disjoint (if valid then {[]} else ∅) (left.keys.image (List.cons false)) := by
    rw [Finset.disjoint_left]
    intro p hp hp'
    obtain ⟨q, -, rfl⟩ := Finset.mem_image.mp hp'
    cases valid <;> simp at hp
  rw [RibNode.keys, Finset.sum_union hsides, Finset.sum_union hhere, hchild, hchild]
  cases valid <;> simp

theorem RibNode.Pruned.size_le (h : n.Pruned) : n.size ≤ ∑ p ∈ n.keys, (p.length + 1) := by
  induction n with
  | null => exact Nat.zero_le _
  | node valid entry left right ihl ihr =>
    obtain ⟨hvalid, hl, hr⟩ := h
    have hleft := ihl hl
    have hright := ihr hr
    -- the node itself is paid for by its own route, or by one bit of a route below
    have hcard : ∀ c : RibNode, c.Pruned → c ≠ .null → 0 < c.keys.card := by
      intro c hc hne
      obtain ⟨p, hp⟩ := hc.exists_route hne
      exact Finset.card_pos.mpr ⟨p, (c.mem_keys p).mpr hp⟩
    rw [RibNode.size, sum_keys_node]
    by_cases hnl : left = .null
    · by_cases hnr : right = .null
      · rw [hvalid hnl hnr, if_pos rfl]
        omega
      · have := hcard right hr hnr
        omega
    · have := hcard left hl hnl
      omega

/-- The rest of `TreePruned` follows. -/
theorem treePruned_iff {t : RibTree} : TreePruned t ↔ t.root.Pruned := by
  refine ⟨TreePruned.pruned, fun h => ⟨h, h.size_le, fun hnone => ?_⟩⟩
  by_contra hne
  obtain ⟨p, hp⟩ := h.exists_route hne
  rw [hnone p] at hp
  cases hp

end Pruned

/-! ## One level -/

/-- A node with `child` on the side that the bit `b` leads to, and `other` on the other side. -/
def RibNode.fork (b valid : Bool) (entry : RouteEntry) (child other : RibNode) : RibNode :=
  if b then .node valid entry other child else .node valid entry child other

section Fork

variable {key : IpAddr} {depth togo : Nat} {valid : Bool} {entry : RouteEntry}
  {child other : RibNode}

theorem RibNode.exists_fork (b valid : Bool) (entry : RouteEntry) (left right : RibNode) :
    ∃ child other, RibNode.node valid entry left right = .fork b valid entry child other := by
  cases b with
  | true => exact ⟨right, left, rfl⟩
  | false => exact ⟨left, right, rfl⟩

theorem RibNode.pruned_fork {b : Bool} : (RibNode.fork b valid entry child other).Pruned
    ↔ (child = .null → other = .null → valid = true) ∧ child.Pruned ∧ other.Pruned := by
  cases b with
  | false => exact Iff.rfl
  | true =>
    show (other = .null → child = .null → valid = true) ∧ other.Pruned ∧ child.Pruned ↔ _
    exact ⟨fun h => ⟨fun hc ho => h.1 ho hc, h.2.2, h.2.1⟩, fun h => ⟨fun ho hc => h.1 hc ho, h.2.2, h.2.1⟩⟩

theorem RibNode.fork_ne_null {b : Bool} : RibNode.fork b valid entry child other ≠ .null := by
  cases b <;> nofun

theorem nodeAt_fork (b : Bool) (p : List Bool) :
    nodeAt (.fork b valid entry child other) (b :: p) = nodeAt child p := by
  cases b <;> rfl

theorem missing_fork : missing (.fork (keyBit key depth) valid entry child other) key depth (togo + 1)
    = missing child key (depth + 1) togo := by
  cases hbit : keyBit key depth <;> simp [RibNode.fork, missing, hbit]

/-- `_add` works on the child that the next bit of the key leads to. -/
theorem add_fork (malloc : Nat → Bool) (fuel : Nat) (data : RouteEntry) (acc : Acc) :
    (add malloc (fuel + 1) (.fork (keyBit key depth) valid entry child other) key
        (depth + (togo + 1)) data depth acc).1
      = .fork (keyBit key depth) valid entry
          (add malloc fuel child key (depth + 1 + togo) data (depth + 1) acc).1 other := by
  have hne : depth ≠ depth + 1 + togo := by omega
  have hstep : depth + (togo + 1) = depth + 1 + togo := by omega
  rw [hstep]
  cases hbit : keyBit key depth <;> simp [RibNode.fork, add, addAt, hbit, hne]

/-- So does `_delete`. -/
theorem delete_fork (success : Int) :
    (delete (.fork (keyBit key depth) valid entry child other) key (depth + (togo + 1)) depth
        success).1
      = .fork (keyBit key depth) valid entry
          (delete child key (depth + 1 + togo) (depth + 1) success).1 other := by
  have hne : depth ≠ depth + 1 + togo := by omega
  have hstep : depth + (togo + 1) = depth + 1 + togo := by omega
  rw [hstep]
  cases hbit : keyBit key depth <;> simp [RibNode.fork, delete, hbit, hne]

end Fork

/-! ## What `_add` leaves -/

section Add

variable {malloc : Nat → Bool}

/-- There is no node only if there was none, and no memory for one. -/
theorem add_eq_null_iff (key : IpAddr) (data : RouteEntry) {n : RibNode} {keylen depth fuel : Nat}
    {acc : Acc} : (add malloc (fuel + 1) n key keylen data depth acc).1 = .null
      ↔ n = .null ∧ malloc acc.mallocs = false := by
  have haddAt : ∀ (down : RibNode → Acc → RibNode × Acc) (valid : Bool) (entry : RouteEntry)
      (left right : RibNode) (acc : Acc),
      (addAt down valid entry left right key keylen data depth acc).1 ≠ .null := by
    intro down valid entry left right acc
    rw [addAt]
    split
    · exact fun h => by cases h
    · split <;> (intro h; cases h)
  cases n with
  | node valid entry left right =>
    rw [add]
    exact iff_of_false (haddAt _ _ _ _ _ _) fun h => by cases h.1
  | null =>
    cases hm : malloc acc.mallocs with
    | true => simpa [add, createRibNode, hm] using haddAt _ _ _ _ _ _
    | false => simp [add, createRibNode, hm]

/-- With memory, `_add` goes on with the empty node that it has made. -/
theorem add_created {fuel keylen depth : Nat} {key : IpAddr} {data : RouteEntry} {acc : Acc}
    (hm : malloc acc.mallocs = true) : add malloc (fuel + 1) .null key keylen data depth acc
      = add malloc (fuel + 1) (.node false .zero .null .null) key keylen data depth
          { acc with mallocs := acc.mallocs + 1 } := by
  simp [add, createRibNode, hm]

/-- **A pruned node stays pruned** unless the first new node is made and a later one is not. -/
theorem pruned_add_iff (key : IpAddr) (data : RouteEntry) (togo : Nat) :
    ∀ (n : RibNode) (depth fuel : Nat) (acc : Acc), togo < fuel → n.Pruned →
      ((add malloc fuel n key (depth + togo) data depth acc).1.Pruned
        ↔ malloc acc.mallocs = false
          ∨ ∀ j < missing n key depth togo, malloc (acc.mallocs + j) = true) := by
  induction togo with
  | zero =>
    intro n depth fuel acc hfuel hn
    obtain ⟨fuel, rfl⟩ := Nat.exists_eq_succ_of_ne_zero (Nat.ne_of_gt hfuel)
    cases n with
    | node valid entry left right =>
      exact iff_of_true (by simpa [add, addAt, RibNode.Pruned] using hn.2)
        (.inr fun j hj => by cases hj)
    | null =>
      cases hm : malloc acc.mallocs with
      | true => simp [add, createRibNode, hm, addAt, RibNode.Pruned, missing]
      | false => simp [add, createRibNode, hm, RibNode.Pruned]
  | succ togo ih =>
    intro n depth fuel acc hfuel hn
    obtain ⟨fuel, rfl⟩ := Nat.exists_eq_succ_of_ne_zero (Nat.ne_of_gt (Nat.zero_lt_of_lt hfuel))
    obtain ⟨fuel, rfl⟩ := Nat.exists_eq_succ_of_ne_zero (Nat.ne_of_gt (Nat.zero_lt_of_lt
      (Nat.lt_of_succ_lt_succ hfuel)))
    have hfuel : togo < fuel + 1 := Nat.lt_of_succ_lt_succ hfuel
    cases n with
    | node valid entry left right =>
      obtain ⟨child, other, hfork⟩ := RibNode.exists_fork (keyBit key depth) valid entry left right
      rw [hfork] at hn ⊢
      obtain ⟨hbare, hchild, hother⟩ := RibNode.pruned_fork.mp hn
      rw [add_fork, missing_fork, RibNode.pruned_fork, and_iff_left hother, ← ih child (depth + 1)
        (fuel + 1) acc hfuel hchild]
      -- a child does not go away
      refine and_iff_right fun hnull => hbare ((add_eq_null_iff key data).mp hnull).1
    | null =>
      cases hm : malloc acc.mallocs with
      | false => simp [add, createRibNode, hm, RibNode.Pruned]
      | true =>
        rw [add_created hm, show RibNode.node false .zero .null .null
          = .fork (keyBit key depth) false .zero .null .null by cases keyBit key depth <;> rfl,
          add_fork, RibNode.pruned_fork, and_iff_left (show RibNode.null.Pruned from trivial),
          ih .null (depth + 1) (fuel + 1) _ hfuel trivial]
        have hsome : ((add malloc (fuel + 1) .null key (depth + 1 + togo) data (depth + 1)
            { acc with mallocs := acc.mallocs + 1 }).1 = .null → RibNode.null = .null → false = true)
            ↔ malloc (acc.mallocs + 1) = true := by
          rw [add_eq_null_iff]
          simp
        rw [hsome]
        simp only [missing, Bool.true_eq_false, false_or]
        constructor
        · rintro ⟨hnext, hfail | hall⟩ j hj
          · cases hnext.symm.trans hfail
          · cases j with
            | zero => exact hm
            | succ j =>
              have hj' := hall j (Nat.lt_of_succ_lt_succ hj)
              rwa [Nat.add_right_comm, Nat.add_assoc] at hj'
        · intro hall
          refine ⟨hall 1 (by omega), .inr fun j hj => ?_⟩
          have hj' := hall (j + 1) (Nat.succ_lt_succ hj)
          rwa [← Nat.add_assoc, Nat.add_right_comm] at hj'

end Add

/-! ## What `_delete` leaves -/

/-- `_delete` takes the node away, or would: it holds no route, or it has no children. -/
def RibNode.Goes : RibNode → Prop
  | .null => False
  | .node valid _ left right => valid = true → left = .null ∧ right = .null

/-- A node that is there only for the sake of its child on the side `b`, which goes. -/
def RibNode.LeansOn : RibNode → Bool → Prop
  | .null, _ => False
  | .node valid _ left right, b =>
    valid = false ∧ (if b then left else right) = .null ∧ (if b then right else left).Goes

/-- Taking the node at the end of the path away leaves its parent bare. -/
def BaresParent (n : RibNode) (path : List Bool) : Prop :=
  ∃ q b, path = q ++ [b] ∧ (nodeAt n q).LeansOn b

section Delete

variable {n : RibNode}

@[simp] theorem baresParent_nil : ¬ BaresParent n [] := by
  rintro ⟨q, b, hpath, -⟩
  exact absurd hpath (by simp)

theorem not_baresParent_null (path : List Bool) : ¬ BaresParent .null path := by
  rintro ⟨q, b, -, hleans⟩
  rw [nodeAt_null] at hleans
  exact hleans

theorem RibNode.leansOn_fork {b valid : Bool} {entry : RouteEntry} {child other : RibNode} :
    (RibNode.fork b valid entry child other).LeansOn b
      ↔ valid = false ∧ other = .null ∧ child.Goes := by
  cases b <;> exact Iff.rfl

theorem baresParent_single {b valid : Bool} {entry : RouteEntry} {child other : RibNode} :
    BaresParent (.fork b valid entry child other) [b] ↔ valid = false ∧ other = .null ∧ child.Goes := by
  rw [← RibNode.leansOn_fork]
  constructor
  · rintro ⟨q, b', hpath, hleans⟩
    cases q with
    | nil =>
      obtain rfl : b = b' := by simpa using hpath
      simpa using hleans
    | cons c q => simp at hpath
  · intro h
    exact ⟨[], b, rfl, by simpa using h⟩

theorem baresParent_cons {b b' valid : Bool} {entry : RouteEntry} {child other : RibNode}
    {p : List Bool} : BaresParent (.fork b valid entry child other) (b :: b' :: p)
      ↔ BaresParent child (b' :: p) := by
  constructor
  · rintro ⟨q, c, hpath, hleans⟩
    cases q with
    | nil => simp at hpath
    | cons d q =>
      rw [List.cons_append, List.cons.injEq] at hpath
      obtain ⟨rfl, hpath⟩ := hpath
      rw [nodeAt_fork] at hleans
      exact ⟨q, c, hpath, hleans⟩
  · rintro ⟨q, c, hpath, hleans⟩
    exact ⟨b :: q, c, by rw [hpath]; rfl, by rwa [nodeAt_fork]⟩

theorem shrink_eq_null_iff (h : n.Pruned) : shrink n = .null ↔ n = .null := by
  cases n with
  | null => rfl
  | node valid entry left right =>
    refine iff_of_false ?_ nofun
    have hroutes := h.exists_route nofun
    intro hnull
    obtain ⟨p, hp⟩ := hroutes
    rw [← routes_shrink, hnull, routes_null] at hp
    cases hp

/-- What is left after pruning is pruned. -/
theorem pruned_shrink (n : RibNode) : (shrink n).Pruned := by
  induction n with
  | null => trivial
  | node valid entry left right ihl ihr =>
    rw [shrink.eq_def]
    dsimp only
    split
    · trivial
    · next hnull =>
      refine ⟨fun hl hr => ?_, ihl, ihr⟩
      by_contra hvalid
      exact hnull hl hr (Bool.not_eq_true _ ▸ hvalid)

/-- A node that loses its route goes when it has no children. -/
theorem shrink_cleared_eq_null_iff {entry : RouteEntry} {left right : RibNode} (hl : left.Pruned)
    (hr : right.Pruned) :
    shrink (.node false entry left right) = .null ↔ left = .null ∧ right = .null := by
  rw [← shrink_eq_null_iff hl, ← shrink_eq_null_iff hr, shrink.eq_def]
  dsimp only
  split
  · next hleft hright _ => exact iff_of_true rfl ⟨hleft, hright⟩
  · next hnull => exact iff_of_false nofun fun h => hnull h.1 h.2 rfl

theorem delete_eq_null_iff (key : IpAddr) (togo depth : Nat) (success : Int) (h : n.Pruned) :
    (delete n key (depth + togo) depth success).1 = .null ↔ n = .null ∨ togo = 0 ∧ n.Goes := by
  cases n with
  | null => simp [delete]
  | node valid entry left right =>
    cases togo with
    | succ togo =>
      obtain ⟨child, other, hfork⟩ := RibNode.exists_fork (keyBit key depth) valid entry left right
      rw [hfork, delete_fork]
      refine iff_of_false RibNode.fork_ne_null ?_
      rintro (hnull | ⟨hzero, -⟩)
      · exact RibNode.fork_ne_null hnull
      · exact absurd hzero (Nat.succ_ne_zero togo)
    | zero =>
      rw [delete, if_pos (Nat.add_zero depth).symm]
      cases valid with
      | false => simp [RibNode.Goes]
      | true => simp [RibNode.Goes, shrink_cleared_eq_null_iff h.2.1 h.2.2]

/-- **A pruned node stays pruned** unless the node for the key goes and leaves its parent bare. -/
theorem pruned_delete_iff (key : IpAddr) (togo : Nat) :
    ∀ (n : RibNode) (depth : Nat) (success : Int), n.Pruned →
      ((delete n key (depth + togo) depth success).1.Pruned
        ↔ ¬ BaresParent n (bitsFrom key depth togo)) := by
  induction togo with
  | zero =>
    intro n depth success hn
    refine iff_of_true ?_ baresParent_nil
    cases n with
    | null => trivial
    | node valid entry left right =>
      rw [delete, if_pos (Nat.add_zero depth).symm]
      cases valid with
      | true => exact pruned_shrink _
      | false => trivial
  | succ togo ih =>
    intro n depth success hn
    cases n with
    | null => exact iff_of_true trivial (not_baresParent_null _)
    | node valid entry left right =>
      obtain ⟨child, other, hfork⟩ := RibNode.exists_fork (keyBit key depth) valid entry left right
      rw [hfork] at hn ⊢
      obtain ⟨hbare, hchild, hother⟩ := RibNode.pruned_fork.mp hn
      rw [delete_fork, RibNode.pruned_fork, and_iff_left hother, delete_eq_null_iff _ _ _ _ hchild,
        ih child (depth + 1) success hchild, bitsFrom_succ]
      cases togo with
      | zero =>
        rw [show bitsFrom key (depth + 1) 0 = [] from rfl, baresParent_single,
          and_iff_left baresParent_nil]
        constructor
        · rintro h ⟨hvalid, hnull, hgoes⟩
          cases hvalid.symm.trans (h (.inr ⟨rfl, hgoes⟩) hnull)
        · rintro h (hnull | ⟨-, hgoes⟩) hother
          · exact hbare hnull hother
          · by_contra hvalid
            exact h ⟨Bool.not_eq_true _ ▸ hvalid, hother, hgoes⟩
      | succ togo =>
        rw [bitsFrom_succ, baresParent_cons]
        refine and_iff_right fun h => ?_
        exact hbare (h.resolve_right fun hzero => absurd hzero.1 (Nat.succ_ne_zero togo))

end Delete

/-! ## Sequences of calls -/

/-- One call of `rib_route_add` or `rib_route_delete`. -/
def CallStep (t : RibTree) (call : RibCall) (t' : RibTree) : Prop := t' = afterCall t call

/-- An add that makes the first of the missing nodes makes all of them. A delete does not take away
    a node that was all that its parent was there for. -/
def StaysPruned (t : RibTree) : RibCall → Prop
  | .add malloc key keylen _ =>
    malloc 0 = false ∨ ∀ j < missing t.root key 0 keylen, malloc j = true
  | .delete key keylen => ¬ BaresParent t.root (prefixOf key keylen)

theorem treePruned_step_iff {t t' : RibTree} {call : RibCall} (h : TreePruned t)
    (hstep : CallStep t call t') : TreePruned t' ↔ StaysPruned t call := by
  obtain rfl := hstep
  rw [treePruned_iff] at h ⊢
  cases call with
  | add malloc key keylen data =>
    have hadd := @pruned_add_iff malloc key data keylen t.root 0 (keylen + 1) ⟨0, 0⟩
      (Nat.lt_succ_self keylen) h
    simp only [Nat.zero_add] at hadd
    exact hadd
  | delete key keylen =>
    have hdelete := pruned_delete_iff key keylen t.root 0 0 h
    rwa [Nat.zero_add, bitsFrom_zero_eq] at hdelete

/-- **The tree stays pruned throughout a sequence of calls if and only if** no delete bares the
    parent of the node it takes away, and no add runs out of memory half-way. -/
theorem treePruned_throughout_iff (calls : List RibCall) :
    Lib.Throughout CallStep ribNew TreePruned calls ↔ Lib.Stepwise CallStep ribNew StaysPruned calls :=
  Lib.throughout_iff (fun _ => True) trivial (fun _ _ _ _ _ => trivial) 
    (treePruned_iff.mpr (show ribNew.root.Pruned from trivial))
    fun _ _ _ _ h hstep => treePruned_step_iff h hstep

/-- The root outlives the only route, `0.0.0.0/1`. -/
theorem deleted_route_leaves_root :
    ¬ ∀ calls : List RibCall, Lib.Throughout CallStep ribNew TreePruned calls := by
  intro hall
  have hstart : Lib.Run CallStep ribNew [] ribNew := .nil
  have hrun := (hstart.snoc (m := .add mallocOk .zero 1 .zero) rfl).snoc (m := .delete .zero 1) rfl
  have hpruned := hall _ _ _ List.prefix_rfl hrun
  have hroot : afterCall (afterCall ribNew (.add mallocOk .zero 1 .zero)) (.delete .zero 1)
      = ⟨0, 0, .node false .zero .null .null⟩ := by rfl
  rw [hroot] at hpruned
  exact Bool.false_ne_true (hpruned.pruned.1 rfl rfl)

end SdPlane.Radix
