import SdPlane.Lib.Run
import SdPlane.Radix

/-!
# The RIB tree as a map from prefixes to routes

`routes n p` is the route at the node that `p` leads to from `n`, if that node is there and
valid. It is what the tree means, and each operation gets one lemma that says what it does to
it: `added_add`, `routes_shrink`, `routes_delete`.

`_add` updates the map at one prefix. `_delete` does so too when the prefix is stored. When
it is not, `_delete` removes **every route below it**: the recursion answers `NULL` for the
node it finds without a route, and the parent stores that. The last section settles on which
sequences of operations the tree is the map one would expect.
-/

set_option autoImplicit false

namespace SdPlane.Radix

open Fib (Acc mallocOk)

/-- The route stored at the end of a path. -/
def routes : RibNode → List Bool → Option RouteEntry
  | .null, _ => none
  | .node valid entry _ _, [] => if valid then some entry else none
  | .node _ _ left right, b :: p => if b then routes right p else routes left p

/-- The bits of a key from `depth` on, `n` of them: the rest of the path to a prefix. -/
def bitsFrom (key : IpAddr) (depth n : Nat) : List Bool := (List.range' depth n).map (keyBit key)

theorem bitsFrom_succ (key : IpAddr) (depth n : Nat) :
    bitsFrom key depth (n + 1) = keyBit key depth :: bitsFrom key (depth + 1) n := by
  simp [bitsFrom, List.range'_succ]

theorem bitsFrom_zero_eq (key : IpAddr) (n : Nat) : bitsFrom key 0 n = prefixOf key n := by
  simp [bitsFrom, prefixOf, Lib.takeBits, List.range_eq_range']

@[simp] theorem routes_null (p : List Bool) : routes .null p = none := by cases p <;> rfl

@[simp] theorem routes_nil (valid : Bool) (entry : RouteEntry) (left right : RibNode) :
    routes (.node valid entry left right) [] = if valid then some entry else none := rfl

@[simp] theorem routes_cons (valid : Bool) (entry : RouteEntry) (left right : RibNode) (b : Bool)
    (p : List Bool) : routes (.node valid entry left right) (b :: p)
      = if b then routes right p else routes left p := rfl

/-! ## What the operations do to the map -/

/-- What `_add` has done to the routes below a node: the one at `path` is new, or memory ran out
    on the way to it and they are what they were. -/
def Added (data : RouteEntry) (path : List Bool) (n : RibNode) (result : RibNode × Acc) : Prop :=
  (result.2.success = 0 ∧ ∀ p, routes result.1 p = if p = path then some data else routes n p)
    ∨ (result.2.success = -1 ∧ ∀ p, routes result.1 p = routes n p)

/-- What has been done below a child is done below the node, at a path that is one bit longer. -/
theorem Added.child {data : RouteEntry} {path : List Bool} {b : Bool} {child n m : RibNode}
    {result : RibNode × Acc} (h : Added data path child result)
    (hbelow : ∀ p, routes n (b :: p) = routes child p ∧ routes m (b :: p) = routes result.1 p)
    (helse : ∀ p, p.head? ≠ some b → routes m p = routes n p) :
    Added data (b :: path) n (m, result.2) := by
  rcases h with ⟨hsucc, hroutes⟩ | ⟨hsucc, hroutes⟩
  · refine .inl ⟨hsucc, fun p => ?_⟩
    by_cases hp : p.head? = some b
    · obtain ⟨p, rfl⟩ := List.head?_eq_some_iff.mp hp
      rw [(hbelow p).2, hroutes, (hbelow p).1]
      simp only [List.cons_inj_right]
    · rw [helse p hp, if_neg (fun heq => hp (by rw [heq]; rfl))]
  · refine .inr ⟨hsucc, fun p => ?_⟩
    by_cases hp : p.head? = some b
    · obtain ⟨p, rfl⟩ := List.head?_eq_some_iff.mp hp
      rw [(hbelow p).2, hroutes, (hbelow p).1]
    · exact helse p hp

/-- One level of `_add` passes on what the recursive call has done. -/
theorem Added.addAt {data : RouteEntry} {key : IpAddr} {depth togo : Nat}
    {down : RibNode → Acc → RibNode × Acc} {valid : Bool} {entry : RouteEntry}
    {left right : RibNode} {acc : Acc}
    (hdown : ∀ n, Added data (bitsFrom key (depth + 1) togo) n (down n acc)) :
    Added data (bitsFrom key depth (togo + 1)) (.node valid entry left right)
      (addAt down valid entry left right key (depth + (togo + 1)) data depth acc) := by
  rw [Radix.addAt, if_neg (by omega), bitCheck_eq_keyBit, bitsFrom_succ]
  cases hbit : keyBit key depth with
  | true =>
    refine (hdown right).child (fun p => ⟨rfl, rfl⟩) fun p hp => ?_
    cases p with
    | nil => rfl
    | cons b p => cases b <;> simp_all
  | false =>
    refine (hdown left).child (fun p => ⟨rfl, rfl⟩) fun p hp => ?_
    cases p with
    | nil => rfl
    | cons b p => cases b <;> simp_all

/-- An empty node holds what no node holds. -/
theorem routes_empty (entry : RouteEntry) (p : List Bool) :
    routes (.node false entry .null .null) p = none := by
  cases p with
  | nil => rfl
  | cons b p => cases b <;> simp

theorem Added.of_empty {data entry : RouteEntry} {path : List Bool} {result : RibNode × Acc}
    (h : Added data path (.node false entry .null .null) result) : Added data path .null result := by
  rcases h with ⟨hsucc, hroutes⟩ | ⟨hsucc, hroutes⟩
  · exact .inl ⟨hsucc, fun p => by rw [hroutes, routes_empty, routes_null]⟩
  · exact .inr ⟨hsucc, fun p => by rw [hroutes, routes_empty, routes_null]⟩

theorem added_add (malloc : Nat → Bool) (data : RouteEntry) (key : IpAddr) (togo : Nat) :
    ∀ (n : RibNode) (depth fuel : Nat) (acc : Acc), togo < fuel →
      Added data (bitsFrom key depth togo) n
        (add malloc fuel n key (depth + togo) data depth acc) := by
  induction togo with
  | zero =>
    intro n depth fuel acc hfuel
    obtain ⟨fuel, rfl⟩ : ∃ f, fuel = f + 1 := ⟨fuel - 1, by omega⟩
    have hnode : ∀ valid entry left right acc, Added data (bitsFrom key depth 0)
        (.node valid entry left right) (add malloc (fuel + 1) (.node valid entry left right) key
          (depth + 0) data depth acc) := by
      intro valid entry left right acc
      refine .inl ⟨by simp [add, addAt], fun p => ?_⟩
      cases p <;> simp [add, addAt, bitsFrom]
    cases n with
    | node valid entry left right => exact hnode valid entry left right acc
    | null =>
      cases hm : malloc acc.mallocs with
      | true => simpa [add, createRibNode, hm] using (hnode false .zero .null .null _).of_empty
      | false => exact .inr ⟨by simp [add, createRibNode, hm], by simp [add, createRibNode, hm]⟩
  | succ togo ih =>
    intro n depth fuel acc hfuel
    obtain ⟨fuel, rfl⟩ : ∃ f, fuel = f + 1 := ⟨fuel - 1, by omega⟩
    have hnode : ∀ valid entry left right acc, Added data (bitsFrom key depth (togo + 1))
        (.node valid entry left right) (add malloc (fuel + 1) (.node valid entry left right) key
          (depth + (togo + 1)) data depth acc) := by
      intro valid entry left right acc
      refine Added.addAt fun n => ?_
      rw [show depth + (togo + 1) = depth + 1 + togo by omega]
      exact ih n (depth + 1) fuel acc (by omega)
    cases n with
    | node valid entry left right => exact hnode valid entry left right acc
    | null =>
      cases hm : malloc acc.mallocs with
      | true => simpa [add, createRibNode, hm] using (hnode false .zero .null .null _).of_empty
      | false => exact .inr ⟨by simp [add, createRibNode, hm], by simp [add, createRibNode, hm]⟩

/-- How many nodes `_add` has to make for a key of `togo` more bits. -/
def missing : RibNode → IpAddr → Nat → Nat → Nat
  | .null, _, _, togo => togo + 1
  | .node .., _, _, 0 => 0
  | .node _ _ left right, key, depth, togo + 1 =>
    if bitCheck key depth then missing right key (depth + 1) togo
    else missing left key (depth + 1) togo

/-- With memory for these, `_add` does not report a failure. -/
theorem add_success {malloc : Nat → Bool} (key : IpAddr) (data : RouteEntry) (togo : Nat) :
    ∀ (n : RibNode) (depth fuel : Nat) (acc : Acc), acc.success = 0 →
      (∀ j, j < missing n key depth togo → malloc (acc.mallocs + j) = true) →
      (add malloc fuel n key (depth + togo) data depth acc).2.success = 0 := by
  induction togo with
  | zero =>
    intro n depth fuel acc h hmalloc
    cases fuel with
    | zero => exact h
    | succ fuel =>
      cases n with
      | node valid entry left right => simp [add, addAt]
      | null =>
        have hm : malloc acc.mallocs = true := hmalloc 0 (Nat.zero_lt_one)
        simp [add, createRibNode, hm, addAt]
  | succ togo ih =>
    intro n depth fuel acc h hmalloc
    have hnode : ∀ valid entry left right fuel (acc : Acc), acc.success = 0 →
        (∀ j, j < missing (.node valid entry left right) key depth (togo + 1) →
          malloc (acc.mallocs + j) = true) →
        (add malloc (fuel + 1) (.node valid entry left right) key (depth + (togo + 1)) data depth
          acc).2.success = 0 := by
      intro valid entry left right fuel acc h hmalloc
      have hstep : depth + (togo + 1) = depth + 1 + togo := by omega
      rw [missing] at hmalloc
      rw [add, addAt, if_neg (by omega), hstep]
      split
      · next hbit =>
        rw [if_pos hbit] at hmalloc
        exact ih right (depth + 1) fuel acc h hmalloc
      · next hbit =>
        rw [if_neg hbit] at hmalloc
        exact ih left (depth + 1) fuel acc h hmalloc
    cases fuel with
    | zero => exact h
    | succ fuel =>
      cases n with
      | node valid entry left right => exact hnode valid entry left right fuel acc h hmalloc
      | null =>
        have hm : malloc acc.mallocs = true := hmalloc 0 (Nat.succ_pos _)
        have hcreated := hnode false .zero .null .null fuel
          { acc with mallocs := acc.mallocs + 1 } h fun j hj => by
            have hlater := hmalloc (j + 1) (by simp [missing] at hj ⊢; omega)
            rwa [← Nat.add_assoc, Nat.add_right_comm] at hlater
        simpa [add, createRibNode, hm] using hcreated

/-- Without it, `_add` reports one. -/
theorem memory_of_add_success {malloc : Nat → Bool} (key : IpAddr) (data : RouteEntry)
    (togo : Nat) : ∀ (n : RibNode) (depth fuel : Nat) (acc : Acc), togo < fuel →
      (add malloc fuel n key (depth + togo) data depth acc).2.success = 0 →
      ∀ j, j < missing n key depth togo → malloc (acc.mallocs + j) = true := by
  have hnull : ∀ {keylen depth fuel : Nat} {acc : Acc},
      (add malloc (fuel + 1) .null key keylen data depth acc).2.success = 0 →
      malloc acc.mallocs = true := by
    intro keylen depth fuel acc h
    by_contra hm
    simp [add, createRibNode, hm] at h
  induction togo with
  | zero =>
    intro n depth fuel acc hfuel h j hj
    obtain ⟨fuel, rfl⟩ := Nat.exists_eq_succ_of_ne_zero (Nat.ne_of_gt hfuel)
    cases n with
    | node valid entry left right => exact absurd hj (Nat.not_lt_zero j)
    | null =>
      obtain rfl : j = 0 := Nat.lt_one_iff.mp hj
      exact hnull h
  | succ togo ih =>
    intro n depth fuel acc hfuel h
    have hnode : ∀ valid entry left right fuel (acc : Acc), togo < fuel →
        (add malloc (fuel + 1) (.node valid entry left right) key (depth + (togo + 1)) data depth
          acc).2.success = 0 →
        ∀ j, j < missing (.node valid entry left right) key depth (togo + 1) →
          malloc (acc.mallocs + j) = true := by
      intro valid entry left right fuel acc hfuel h j hj
      have hstep : depth + (togo + 1) = depth + 1 + togo := by omega
      rw [missing] at hj
      rw [add, addAt, if_neg (by omega), hstep] at h
      split at h
      · next hbit =>
        rw [if_pos hbit] at hj
        exact ih right (depth + 1) fuel acc hfuel h j hj
      · next hbit =>
        rw [if_neg hbit] at hj
        exact ih left (depth + 1) fuel acc hfuel h j hj
    obtain ⟨fuel, rfl⟩ := Nat.exists_eq_succ_of_ne_zero (Nat.ne_of_gt (Nat.zero_lt_of_lt hfuel))
    cases n with
    | node valid entry left right =>
      exact hnode valid entry left right fuel acc (Nat.lt_of_succ_lt_succ hfuel) h
    | null =>
      have hm := hnull h
      have hcreated := hnode false .zero .null .null fuel { acc with mallocs := acc.mallocs + 1 }
        (Nat.lt_of_succ_lt_succ hfuel) (by simpa [add, createRibNode, hm] using h)
      intro j hj
      cases j with
      | zero => exact hm
      | succ j =>
        have hlater := hcreated j (by simp [missing] at hj ⊢; omega)
        rwa [Nat.add_right_comm, Nat.add_assoc] at hlater

/-- Pruning removes nodes, not routes. -/
@[simp] theorem routes_shrink (n : RibNode) (p : List Bool) : routes (shrink n) p = routes n p := by
  induction n generalizing p with
  | null => rfl
  | node valid entry left right ihl ihr =>
    have hnode : ∀ p, routes (.node valid entry (shrink left) (shrink right)) p
        = routes (.node valid entry left right) p := by
      intro p
      cases p with
      | nil => rfl
      | cons b p => cases b <;> simp [ihl, ihr]
    rw [← hnode]
    simp only [shrink]
    split
    · -- no child left and no route here
      rename_i hl hr
      rw [hl, hr]
      cases p with
      | nil => rfl
      | cons b p => cases b <;> simp
    · rfl

/-- **What `_delete` removes**: the prefix alone when it is stored, and otherwise everything
    below it. -/
theorem routes_delete (key : IpAddr) : ∀ (togo : Nat) (n : RibNode) (depth : Nat) (success : Int)
    (p : List Bool),
    routes (delete n key (depth + togo) depth success).1 p
      = if (routes n (bitsFrom key depth togo)).isSome then
          if p = bitsFrom key depth togo then none else routes n p
        else if bitsFrom key depth togo <+: p then none else routes n p := by
  intro togo n
  induction n generalizing togo with
  | null => intro depth success p; simp [delete]
  | node valid entry left right ihl ihr =>
    intro depth success p
    cases togo with
    | zero =>
      have hnil : bitsFrom key depth 0 = [] := rfl
      rw [delete, if_pos (Nat.add_zero depth).symm, hnil]
      cases valid with
      | true => cases p <;> simp
      | false => simp
    | succ togo =>
      have hne : depth ≠ depth + (togo + 1) := by omega
      have hright := ihr togo (depth + 1) success
      have hleft := ihl togo (depth + 1) success
      rw [show depth + 1 + togo = depth + (togo + 1) by omega] at hright hleft
      rw [delete, if_neg hne, bitCheck_eq_keyBit, bitsFrom_succ]
      cases hbit : keyBit key depth with
      | true =>
        cases p with
        | nil => simp
        | cons b p => cases b <;> simp [hright]
      | false =>
        cases p with
        | nil => simp
        | cons b p => cases b <;> simp [hleft]

/-- **What `rib_route_add` does**: it stores the route and answers `0`, or it answers `-1` and
    changes nothing. -/
theorem ribRouteAdd_cases (malloc : Nat → Bool) (t : RibTree) (key : IpAddr) (keylen : Nat)
    (data : RouteEntry) :
    ((ribRouteAdd malloc t key keylen data).2 = 0 ∧
      ∀ p, routes (ribRouteAdd malloc t key keylen data).1.root p
        = if p = prefixOf key keylen then some data else routes t.root p)
    ∨ ((ribRouteAdd malloc t key keylen data).2 = -1 ∧
      ∀ p, routes (ribRouteAdd malloc t key keylen data).1.root p = routes t.root p) := by
  have h := added_add malloc data key keylen t.root 0 (keylen + 1) ⟨0, 0⟩ (Nat.lt_succ_self _)
  rw [Nat.zero_add, bitsFrom_zero_eq] at h
  exact h

theorem ribRouteAdd_memory {malloc : Nat → Bool} {t : RibTree} {key : IpAddr} {keylen : Nat}
    (h : ∀ j, j < missing t.root key 0 keylen → malloc j = true) (data : RouteEntry) :
    (ribRouteAdd malloc t key keylen data).2 = 0 := by
  have hmalloc : ∀ j, j < missing t.root key 0 keylen → malloc (0 + j) = true := by
    intro j hj
    rw [Nat.zero_add]
    exact h j hj
  have hadd := add_success key data keylen t.root 0 (keylen + 1) ⟨0, 0⟩ rfl hmalloc
  rw [Nat.zero_add] at hadd
  exact hadd

/-- The route is stored if and only if there is memory for the nodes that are missing. -/
theorem ribRouteAdd_success_iff {malloc : Nat → Bool} {t : RibTree} {key : IpAddr} {keylen : Nat}
    {data : RouteEntry} : (ribRouteAdd malloc t key keylen data).2 = 0
      ↔ ∀ j, j < missing t.root key 0 keylen → malloc j = true := by
  refine ⟨fun h j hj => ?_, fun h => ribRouteAdd_memory h data⟩
  have hmalloc := @memory_of_add_success malloc key data keylen t.root 0 (keylen + 1)
    ⟨0, 0⟩ (Nat.lt_succ_self _)
  rw [Nat.zero_add] at hmalloc
  have hj' := hmalloc h j hj
  rwa [Nat.zero_add] at hj'

theorem ribRouteAdd_success (t : RibTree) (key : IpAddr) (keylen : Nat) (data : RouteEntry) :
    (ribRouteAdd mallocOk t key keylen data).2 = 0 :=
  ribRouteAdd_memory (fun _ _ => rfl) data

theorem routes_ribRouteAdd (t : RibTree) (key : IpAddr) (keylen : Nat) (data : RouteEntry)
    (p : List Bool) : routes (ribRouteAdd mallocOk t key keylen data).1.root p
      = if p = prefixOf key keylen then some data else routes t.root p := by
  rcases ribRouteAdd_cases mallocOk t key keylen data with ⟨-, hroutes⟩ | ⟨hfail, -⟩
  · exact hroutes p
  · rw [ribRouteAdd_success] at hfail
    exact absurd hfail (by decide)

theorem routes_ribRouteDelete (t : RibTree) (key : IpAddr) (keylen : Nat) (p : List Bool) :
    routes (ribRouteDelete t key keylen).1.root p
      = if (routes t.root (prefixOf key keylen)).isSome then
          if p = prefixOf key keylen then none else routes t.root p
        else if prefixOf key keylen <+: p then none else routes t.root p := by
  have h := routes_delete key keylen t.root 0 0 p
  rw [Nat.zero_add, bitsFrom_zero_eq] at h
  exact h

/-! ## Sequences of operations -/

/-- A call of `rib_route_add` or of `rib_route_delete`. -/
inductive RibOp
  | add (key : IpAddr) (keylen : Nat) (data : RouteEntry)
  | delete (key : IpAddr) (keylen : Nat)

/-- What a call does to the tree. -/
def applyOp (t : RibTree) : RibOp → RibTree
  | .add key keylen data => (ribRouteAdd mallocOk t key keylen data).1
  | .delete key keylen => (ribRouteDelete t key keylen).1

/-- The map that the tree is for: what a call is meant to do to it. -/
def mapOp (m : List Bool → Option RouteEntry) : RibOp → List Bool → Option RouteEntry
  | .add key keylen data => Function.update m (prefixOf key keylen) (some data)
  | .delete key keylen => Function.update m (prefixOf key keylen) none

/-- A call, on the tree and on the map side by side. -/
def BothStep (s : RibTree × (List Bool → Option RouteEntry)) (op : RibOp)
    (s' : RibTree × (List Bool → Option RouteEntry)) : Prop :=
  s' = (applyOp s.1 op, mapOp s.2 op)

/-- The tree stores exactly the routes of the map. -/
def Refines (s : RibTree × (List Bool → Option RouteEntry)) : Prop := routes s.1.root = s.2

/-- A delete names a prefix that is stored, or one below which nothing is. -/
def DeleteSafe (s : RibTree × (List Bool → Option RouteEntry)) : RibOp → Prop
  | .add .. => True
  | .delete key keylen =>
    s.2 (prefixOf key keylen) ≠ none ∨ ∀ p, prefixOf key keylen <+: p → s.2 p = none

/-- One call keeps the tree and the map together exactly when it is safe. -/
theorem refines_step_iff {s s' : RibTree × (List Bool → Option RouteEntry)} {op : RibOp}
    (h : Refines s) (hstep : BothStep s op s') : Refines s' ↔ DeleteSafe s op := by
  obtain ⟨t, m⟩ := s
  obtain rfl : routes t.root = m := h
  obtain rfl := hstep
  cases op with
  | add key keylen data =>
    refine iff_of_true ?_ trivial
    funext p
    show routes (ribRouteAdd mallocOk t key keylen data).1.root p
      = Function.update (routes t.root) (prefixOf key keylen) (some data) p
    rw [routes_ribRouteAdd, Function.update_apply]
  | delete key keylen =>
    have hpoint : Refines (applyOp t (.delete key keylen), mapOp (routes t.root) (.delete key keylen))
        ↔ ∀ p, routes (ribRouteDelete t key keylen).1.root p
          = if p = prefixOf key keylen then none else routes t.root p := by
      simp only [Refines, applyOp, mapOp, funext_iff, Function.update_apply]
    rw [hpoint]
    simp only [routes_ribRouteDelete, DeleteSafe]
    cases hstored : routes t.root (prefixOf key keylen) with
    | some e => simp
    | none =>
      simp only [Option.isSome_none, Bool.false_eq_true, if_false, ne_eq, not_true_eq_false,
        false_or]
      constructor
      · intro hall p hp
        have := hall p
        rw [if_pos hp] at this
        by_cases heq : p = prefixOf key keylen
        · rw [heq, hstored]
        · rw [if_neg heq] at this; exact this.symm
      · intro hall p
        by_cases hp : prefixOf key keylen <+: p
        · rw [if_pos hp, hall p hp]; simp
        · have hne : p ≠ prefixOf key keylen := fun heq => hp (heq ▸ List.prefix_rfl)
          rw [if_neg hp, if_neg hne]

/-- **The RIB trie is the map of its routes throughout a sequence of calls exactly when no
    delete names a prefix that is not stored while a longer one under it is.** -/
theorem ribTree_refines_map_iff (ops : List RibOp) :
    Lib.Throughout BothStep (ribNew, fun _ => none) Refines ops
      ↔ Lib.Stepwise BothStep (ribNew, fun _ => none) DeleteSafe ops :=
  Lib.throughout_iff (fun _ => True) trivial (fun _ _ _ _ _ => trivial)
    (by funext p; simp [ribNew]) fun _ _ _ _ h hstep => refines_step_iff h hstep

/-- Adding `0.0.0.0/2` and deleting `0.0.0.0/1`, which was never added, removes the former. -/
theorem delete_drops_longer_prefix :
    ¬ ∀ ops : List RibOp, Lib.Throughout BothStep (ribNew, fun _ => none) Refines ops := by
  intro hall
  have hstart : Lib.Run BothStep (ribNew, fun _ => none) [] (ribNew, fun _ => none) := .nil
  have hrun := (hstart.snoc (m := .add .zero 2 .zero) rfl).snoc (m := .delete .zero 1) rfl
  have hroutes := congrFun (hall _ _ _ List.prefix_rfl hrun) [false, false]
  revert hroutes
  show ¬ routes (applyOp (applyOp ribNew (.add .zero 2 .zero)) (.delete .zero 1)).root [false, false]
    = Function.update (Function.update (fun _ => none) (prefixOf .zero 2) (some .zero))
        (prefixOf .zero 1) none [false, false]
  decide +kernel

end SdPlane.Radix
