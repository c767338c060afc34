import SdPlane.RadixMap

/-!
# What `rib_route_delete` answers (`radix.c`)

`_delete` writes `*success` at the node for the prefix, if there is one: `0` when the node holds
a route, `-1` when it does not. Where the path runs off the tree it writes nothing, and
`rib_route_delete` answers the `0` it started from, as if a route had been removed.

So the answer is a fact about one node, `nodeAt t.root (prefixOf key keylen)`, and
`delete_status` reads it off there. Whether the routes are what the answer says they are is
`routes_ribRouteDelete`'s matter: a node without a route takes everything below it along.
`deleteTruthful_iff` puts the two together, for any tree at all; the trees that calls of the two
operations lead to, whatever memory they find, are `treeAfter`.
-/

set_option autoImplicit false

namespace SdPlane.Radix

open Fib (mallocOk)

/-! ## The node for a prefix -/

/-- The node that a path leads to. -/
def nodeAt : RibNode → List Bool → RibNode
  | n, [] => n
  | .null, _ :: _ => .null
  | .node _ _ left right, b :: p => if b then nodeAt right p else nodeAt left p

@[simp] theorem nodeAt_nil (n : RibNode) : nodeAt n [] = n := by cases n <;> rfl

@[simp] theorem nodeAt_null (p : List Bool) : nodeAt .null p = .null := by cases p <;> rfl

@[simp] theorem nodeAt_cons (valid : Bool) (entry : RouteEntry) (left right : RibNode) (b : Bool)
    (p : List Bool) : nodeAt (.node valid entry left right) (b :: p)
      = if b then nodeAt right p else nodeAt left p := rfl

/-- The routes below a prefix are those of its node. -/
theorem routes_append (n : RibNode) (p q : List Bool) :
    routes n (p ++ q) = routes (nodeAt n p) q := by
  induction p generalizing n with
  | nil => simp
  | cons b p ih =>
    cases n with
    | null => simp
    | node valid entry left right => cases b <;> simp [ih]

/-- A route is stored for a prefix exactly when its node is valid. -/
theorem isSome_routes (n : RibNode) (p : List Bool) :
    (routes n p).isSome = (nodeAt n p).isValid := by
  have h := routes_append n p []
  rw [List.append_nil] at h
  rw [h]
  cases nodeAt n p with
  | null => rfl
  | node valid entry left right => cases valid <;> rfl

/-! ## The answer -/

/-- What `_delete` leaves in `*success` when the path ends at this node. -/
def statusAt (success : Int) : RibNode → Int
  | .null => success
  | .node valid _ _ _ => if valid then 0 else -1

theorem delete_status (key : IpAddr) (success : Int) : ∀ (togo : Nat) (n : RibNode) (depth : Nat),
    (delete n key (depth + togo) depth success).2
      = statusAt success (nodeAt n (bitsFrom key depth togo)) := by
  intro togo n
  induction n generalizing togo with
  | null => intro depth; simp [delete, statusAt]
  | node valid entry left right ihl ihr =>
    intro depth
    cases togo with
    | zero =>
      have hnil : bitsFrom key depth 0 = [] := rfl
      rw [delete, if_pos (Nat.add_zero depth).symm, hnil]
      cases valid with
      | true => rfl
      | false => rfl
    | succ togo =>
      have hne : depth ≠ depth + (togo + 1) := by omega
      have hstep : depth + 1 + togo = depth + (togo + 1) := by omega
      have hright := ihr togo (depth + 1)
      have hleft := ihl togo (depth + 1)
      rw [hstep] at hright hleft
      rw [delete, if_neg hne, bitCheck_eq_keyBit, bitsFrom_succ, nodeAt_cons]
      cases hbit : keyBit key depth with
      | true => simpa using hright
      | false => simpa using hleft

theorem ribRouteDelete_status (t : RibTree) (key : IpAddr) (keylen : Nat) :
    (ribRouteDelete t key keylen).2 = statusAt 0 (nodeAt t.root (prefixOf key keylen)) := by
  have h := delete_status key 0 keylen t.root 0
  rw [Nat.zero_add, bitsFrom_zero_eq] at h
  exact h

/-- An error is reported for a node that is there without a route, and for nothing else. -/
theorem ribRouteDelete_fails_iff (t : RibTree) (key : IpAddr) (keylen : Nat) :
    (ribRouteDelete t key keylen).2 ≠ 0
      ↔ nodeAt t.root (prefixOf key keylen) ≠ .null
        ∧ (nodeAt t.root (prefixOf key keylen)).isValid = false := by
  rw [ribRouteDelete_status]
  cases nodeAt t.root (prefixOf key keylen) with
  | null => simp [statusAt]
  | node valid entry left right => cases valid <;> simp [statusAt, RibNode.isValid]

/-! ## When the answer is the truth -/

/-- `rib_route_delete` reports truthfully: `0` if and only if there was a route for exactly this
    prefix, which is gone then, and otherwise something else, with the routes as they were. -/
structure DeleteTruthful (t : RibTree) (key : IpAddr) (keylen : Nat) : Prop where
  reported : (ribRouteDelete t key keylen).2 = 0
    ↔ (routes t.root (prefixOf key keylen)).isSome
  gone : (routes t.root (prefixOf key keylen)).isSome →
    routes (ribRouteDelete t key keylen).1.root (prefixOf key keylen) = none
  unchanged : ¬ (routes t.root (prefixOf key keylen)).isSome →
    ∀ p, routes (ribRouteDelete t key keylen).1.root p = routes t.root p

/-- The node for the prefix holds a route, or it is there and neither it nor any node below
    it does. -/
def NodeAnswers (n : RibNode) : Prop :=
  n.isValid = true ∨ n ≠ .null ∧ ∀ q, routes n q = none

/-- A route that is stored goes alone, and is reported. -/
theorem deleteTruthful_of_stored {t : RibTree} {key : IpAddr} {keylen : Nat}
    (h : (routes t.root (prefixOf key keylen)).isSome) : DeleteTruthful t key keylen where
  reported := by
    refine iff_of_true ?_ h
    by_contra hfails
    obtain ⟨-, hvalid⟩ := (ribRouteDelete_fails_iff t key keylen).mp hfails
    rw [isSome_routes, hvalid] at h
    exact absurd h (by decide)
  gone := fun _ => by rw [routes_ribRouteDelete, if_pos h, if_pos rfl]
  unchanged := fun hnone => absurd h hnone

/-- Where none is stored, the routes stay what they were exactly when none is below. -/
theorem unchanged_iff {t : RibTree} {key : IpAddr} {keylen : Nat}
    (h : ¬ (routes t.root (prefixOf key keylen)).isSome) :
    (∀ p, routes (ribRouteDelete t key keylen).1.root p = routes t.root p)
      ↔ ∀ q, routes (nodeAt t.root (prefixOf key keylen)) q = none := by
  simp only [routes_ribRouteDelete, if_neg h]
  constructor
  · intro hsame q
    have hbelow := hsame (prefixOf key keylen ++ q)
    rw [if_pos (List.prefix_append _ _)] at hbelow
    rw [← routes_append, ← hbelow]
  · intro hnone p
    by_cases hp : prefixOf key keylen <+: p
    · obtain ⟨q, rfl⟩ := hp
      rw [if_pos (List.prefix_append _ _), routes_append, hnone]
    · rw [if_neg hp]

theorem deleteTruthful_iff (t : RibTree) (key : IpAddr) (keylen : Nat) :
    DeleteTruthful t key keylen ↔ NodeAnswers (nodeAt t.root (prefixOf key keylen)) := by
  by_cases hstored : (routes t.root (prefixOf key keylen)).isSome
  · refine iff_of_true (deleteTruthful_of_stored hstored) (.inl ?_)
    rwa [isSome_routes] at hstored
  · have hinvalid : (nodeAt t.root (prefixOf key keylen)).isValid = false := by
      rwa [isSome_routes, Bool.not_eq_true] at hstored
    constructor
    · intro h
      have hfails : (ribRouteDelete t key keylen).2 ≠ 0 := fun hret =>
        hstored (h.reported.mp hret)
      exact .inr ⟨((ribRouteDelete_fails_iff t key keylen).mp hfails).1,
        (unchanged_iff hstored).mp (h.unchanged hstored)⟩
    · rintro (hvalid | ⟨hnode, hnone⟩)
      · rw [hinvalid] at hvalid
        exact absurd hvalid (by decide)
      · exact {
          reported := iff_of_false
            ((ribRouteDelete_fails_iff t key keylen).mpr ⟨hnode, hinvalid⟩) hstored
          gone := fun h => absurd h hstored
          unchanged := fun _ => (unchanged_iff hstored).mpr hnone }

/-! ## The trees that calls lead to -/

/-- A call of one of the two operations. An add carries the answers that its `malloc`s get. -/
inductive RibCall
  | add (malloc : Nat → Bool) (key : IpAddr) (keylen : Nat) (data : RouteEntry)
  | delete (key : IpAddr) (keylen : Nat)

def afterCall (t : RibTree) : RibCall → RibTree
  | .add malloc key keylen data => (ribRouteAdd malloc t key keylen data).1
  | .delete key keylen => (ribRouteDelete t key keylen).1

/-- What `rib_new`'s tree is after a sequence of calls. -/
def treeAfter (calls : List RibCall) : RibTree := calls.foldl afterCall ribNew

/-- **On every tree that calls lead to, `rib_route_delete` tells the truth exactly when the prefix
    has a node, and either it holds a route or no route lies at or below it.** -/
theorem ribRouteDelete_truthful_iff (calls : List RibCall) (key : IpAddr) (keylen : Nat) :
    DeleteTruthful (treeAfter calls) key keylen
      ↔ NodeAnswers (nodeAt (treeAfter calls).root (prefixOf key keylen)) :=
  deleteTruthful_iff (treeAfter calls) key keylen

/-- The node for `0.0.0.0/1` outlives the route for `0.0.0.0/2` that it led to, so the missing
    route is noticed. -/
example :
    (ribRouteDelete (treeAfter [.add mallocOk .zero 2 .zero, .delete .zero 2]) .zero 1).2 = -1 := by
  decide +kernel

/-- On the empty tree the path of `0.0.0.0/8` runs off at once, and the answer is `0`. -/
theorem absent_delete_succeeds :
    ¬ ∀ (calls : List RibCall) (key : IpAddr) (keylen : Nat),
      DeleteTruthful (treeAfter calls) key keylen := by
  intro hall
  have hstored := (hall [] .zero 8).reported.mp rfl
  rw [show (treeAfter []).root = .null from rfl, routes_null] at hstored
  exact absurd hstored (by decide)

end SdPlane.Radix
