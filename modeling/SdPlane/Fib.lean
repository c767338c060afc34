import SdPlane.Key

/-!
# The FIB tree (`fib.c`)

A 4-ary trie with the routes pushed down to its leaves: an inner node holds no route, and a
lookup follows two bits of the address per level and answers the last leaf on the way.

`FibNode` is `struct fib_node` together with the pointer to it, so that `null` is the `NULL`
of the source and `child` its `child[BRANCH_SZ]`. Node allocation may fail. Whether the
`j`-th allocation of a run succeeds is `malloc j`, and `Acc` carries what the source threads
through the recursion by pointer, `*success`, next to the number of allocations so far.

The recursion of `_add` is not structural, since it descends through nodes it has just
created. It is bounded by `fuel`, and `fibRouteAdd` supplies the height of the tree plus the
length of the prefix: one level of the tree or two bits of the prefix is what a call costs.
`SdPlane/FibLpm.lean` shows that this is never short.
-/

set_option autoImplicit false

namespace SdPlane.Fib

/-- Bits per level. -/
abbrev K : Nat := 2

/-- Children per node, `1 << K`. -/
abbrev BRANCH_SZ : Nat := 4

scoped instance : NeZero BRANCH_SZ := ⟨by decide⟩

/-- `struct fib_node *`. -/
inductive FibNode
  | null
  | node (leaf : Bool) (keyIpAddr : IpAddr) (keylen : Nat) (sdplaneNhId : Int)
      (child : Fin BRANCH_SZ → FibNode)

namespace FibNode

/-- `n->leaf`; a null pointer has no leaf flag to read, and is no leaf. -/
def isLeaf : FibNode → Bool
  | .null => false
  | .node leaf _ _ _ _ => leaf

/-- `n->keylen` and `n->sdplane_nh_id`: the route that a leaf stands for. -/
def route : FibNode → Nat × Int
  | .null => (0, 0)
  | .node _ _ keylen sdplaneNhId _ => (keylen, sdplaneNhId)

/-- `n->keylen`. -/
def keylen (n : FibNode) : Nat := n.route.1

/-- `n->sdplane_nh_id`. -/
def nhId (n : FibNode) : Int := n.route.2

/-- The number of levels below and including a node. -/
def height : FibNode → Nat
  | .null => 0
  | .node _ _ _ _ child => (Finset.univ.sup fun i => height (child i)) + 1

end FibNode

/-- `struct fib_tree`. -/
structure FibTree where
  family : Int
  tableId : Int
  root : FibNode

/-- `fib_new`. -/
def fibNew : FibTree := ⟨0, 0, .null⟩

/-- What `_add` hands on from one call to the next. -/
structure Acc where
  /-- the nodes asked for so far -/
  mallocs : Nat
  /-- `*success` -/
  success : Int

/-- `_create_fib_node`: a zeroed node, or `null` when there is no memory. -/
def createFibNode (malloc : Nat → Bool) (acc : Acc) : FibNode × Acc :=
  let acc' := { acc with mallocs := acc.mallocs + 1 }
  if malloc acc.mallocs then (.node false .zero 0 0 fun _ => .null, acc') else (.null, acc')

/-- The loop `for (i = 0; i < BRANCH_SZ; i++) n->child[i] = f (i, n->child[i])`. -/
def forBranches (f : Fin BRANCH_SZ → FibNode → Acc → FibNode × Acc)
    (child : Fin BRANCH_SZ → FibNode) (acc : Acc) : (Fin BRANCH_SZ → FibNode) × Acc :=
  let (c₀, acc) := f 0 (child 0) acc
  let (c₁, acc) := f 1 (child 1) acc
  let (c₂, acc) := f 2 (child 2) acc
  let (c₃, acc) := f 3 (child 3) acc
  (![c₀, c₁, c₂, c₃], acc)

/-- Whether child `i` of a node at depth `curPlen` is in the range `first ..
    first + count - 1` of those that the prefix `key`/`keylen` reaches. -/
def inRange (key : IpAddr) (keylen curPlen i : Nat) : Bool :=
  let bitsInDepth := keylen - curPlen
  let bitsInDepth := if bitsInDepth > K - 1 then K else bitsInDepth
  let base := bitIndex key curPlen bitsInDepth
  let first := base <<< (K - bitsInDepth)
  let count := 1 <<< (K - bitsInDepth)
  decide (first ≤ i) && decide (i < first + count)

/-- The child that an address descends into at depth `curPlen`. -/
def childIndex (key : IpAddr) (curPlen : Nat) : Fin BRANCH_SZ :=
  ⟨bitIndex key curPlen K, bitIndex_lt key curPlen K⟩

/-- The body of `_add` once there is a node to work on: the one found (`existed`) or the one
    just created. `down` is the recursive call, one level further down. -/
def addAt (down : FibNode → IpAddr → Nat → Int → Acc → FibNode × Acc) (existed leaf : Bool)
    (nKey : IpAddr) (nKeylen : Nat) (nNhId : Int) (child : Fin BRANCH_SZ → FibNode)
    (key : IpAddr) (keylen : Nat) (sdplaneNhId : Int) (curPlen : Nat) (acc : Acc) :
    FibNode × Acc :=
  if keylen ≤ curPlen then
    -- case 1: the prefix ends at or above this node
    if !leaf && existed then
      let (child, acc) := forBranches (fun _ c acc => down c key keylen sdplaneNhId acc) child acc
      (.node leaf nKey nKeylen nNhId child, acc)
    else if leaf then
      if keylen > nKeylen then
        (.node leaf key keylen sdplaneNhId child, { acc with success := 0 })
      else (.node leaf nKey nKeylen nNhId child, { acc with success := 0 })
    else (.node true key keylen sdplaneNhId child, { acc with success := 0 })
  else if keylen < curPlen + K || leaf then
    -- case 2: the prefix ends inside this stride, or a leaf has to be split
    let (child, acc) := forBranches
      (fun i c acc =>
        let (c, acc) := if leaf then down c nKey nKeylen nNhId acc else (c, acc)
        if inRange key keylen curPlen i then down c key keylen sdplaneNhId acc else (c, acc))
      child acc
    (.node false nKey 0 nNhId child, { acc with success := 0 })
  else
    -- case 3: further down
    let index := childIndex key curPlen
    let (c, acc) := down (child index) key keylen sdplaneNhId acc
    (.node leaf nKey nKeylen nNhId (Function.update child index c), acc)

/-- `_add`. -/
def add (malloc : Nat → Bool) :
    Nat → FibNode → IpAddr → Nat → Int → Nat → Acc → FibNode × Acc
  | 0, n, _, _, _, _, acc => (n, acc)
  | fuel + 1, .null, key, keylen, sdplaneNhId, curPlen, acc =>
    match createFibNode malloc acc with
    | (.null, acc) => (.null, { acc with success := -1 })
    | (.node leaf nKey nKeylen nNhId child, acc) =>
      addAt (fun c key keylen nhId acc => add malloc fuel c key keylen nhId (curPlen + K) acc)
        false leaf nKey nKeylen nNhId child key keylen sdplaneNhId curPlen acc
  | fuel + 1, .node leaf nKey nKeylen nNhId child, key, keylen, sdplaneNhId, curPlen, acc =>
    addAt (fun c key keylen nhId acc => add malloc fuel c key keylen nhId (curPlen + K) acc)
      true leaf nKey nKeylen nNhId child key keylen sdplaneNhId curPlen acc

/-- `fib_route_add`. The result is the tree, the number of allocations asked for and the
    value returned (`success`). -/
def fibRouteAdd (malloc : Nat → Bool) (t : FibTree) (key : IpAddr) (keylen : Nat)
    (sdplaneNhId : Int) (mallocs : Nat) : FibTree × Acc :=
  let fuel := t.root.height + keylen + 1
  let (root, acc) := add malloc fuel t.root key keylen sdplaneNhId 0 ⟨mallocs, 0⟩
  ({ t with root := root }, acc)

/-- `_lookup`. -/
def lookup : FibNode → Option FibNode → IpAddr → Nat → Option FibNode
  | .null, cand, _, _ => cand
  | .node leaf nKey nKeylen nNhId child, cand, key, curPlen =>
    lookup (child (childIndex key curPlen))
      (if leaf then some (.node leaf nKey nKeylen nNhId child) else cand) key (curPlen + K)

/-- `fib_route_lookup`. -/
def fibRouteLookup (t : FibTree) (key : IpAddr) : Option FibNode := lookup t.root none key 0

end SdPlane.Fib
