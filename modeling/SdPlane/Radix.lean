import SdPlane.FibLpm

/-!
# The RIB tree (`radix.c`)

A binary trie with a node for every prefix of a stored prefix. A node whose `valid` flag is
set holds a route; the others are only on the way to one. `RibNode` is `struct rib_node`
together with the pointer to it.

`_add` descends through the nodes that it creates, one bit of the key per call, so it carries
fuel, and `ribRouteAdd` supplies one more than the length of the prefix. `_delete`, `_lookup`
and `_traverse` descend through nodes that are there and need none. `_delete` answers `NULL`
in three places, and what it answers is stored into the parent on the way back; that is kept
exactly as in the source, including the place where the node is there but holds no route.
-/

set_option autoImplicit false

namespace SdPlane

/-- `struct route_dst_info`. -/
structure RouteDstInfo where
  family : Int
  dstIpAddr : IpAddr
  plen : Nat
deriving DecidableEq

/-- `struct route_entry`. -/
structure RouteEntry where
  dst : RouteDstInfo
  sdplaneNhId : Int
deriving DecidableEq

/-- What `memset` leaves of a `struct route_entry`. -/
def RouteEntry.zero : RouteEntry := ⟨⟨0, .zero, 0⟩, 0⟩

namespace Radix

open Fib (Acc FibTree)

/-- `struct rib_node *`. -/
inductive RibNode
  | null
  | node (valid : Bool) (entry : RouteEntry) (left right : RibNode)

namespace RibNode

def isValid : RibNode → Bool
  | .null => false
  | .node valid _ _ _ => valid

def entry : RibNode → RouteEntry
  | .null => .zero
  | .node _ entry _ _ => entry

end RibNode

/-- `struct rib_tree`. -/
structure RibTree where
  family : Int
  tableId : Int
  root : RibNode

/-- `rib_new`. -/
def ribNew : RibTree := ⟨0, 0, .null⟩

/-- `_create_rib_node`. -/
def createRibNode (malloc : Nat → Bool) (acc : Acc) : RibNode × Acc :=
  let acc' := { acc with mallocs := acc.mallocs + 1 }
  if malloc acc.mallocs then (.node false .zero .null .null, acc') else (.null, acc')

/-- The body of `_add` once there is a node to work on. `down` is the recursive call. A node
    that is valid already is overwritten just as an empty one is filled. -/
def addAt (down : RibNode → Acc → RibNode × Acc) (valid : Bool) (entry : RouteEntry)
    (left right : RibNode) (key : IpAddr) (keylen : Nat) (data : RouteEntry) (depth : Nat)
    (acc : Acc) : RibNode × Acc :=
  if depth = keylen then (.node true data left right, { acc with success := 0 })
  else if bitCheck key depth then
    let (right, acc) := down right acc
    (.node valid entry left right, acc)
  else
    let (left, acc) := down left acc
    (.node valid entry left right, acc)

/-- `_add`. -/
def add (malloc : Nat → Bool) :
    Nat → RibNode → IpAddr → Nat → RouteEntry → Nat → Acc → RibNode × Acc
  | 0, n, _, _, _, _, acc => (n, acc)
  | fuel + 1, .null, key, keylen, data, depth, acc =>
    match createRibNode malloc acc with
    | (.null, acc) => (.null, { acc with success := -1 })
    | (.node valid entry left right, acc) =>
      addAt (fun c acc => add malloc fuel c key keylen data (depth + 1) acc)
        valid entry left right key keylen data depth acc
  | fuel + 1, .node valid entry left right, key, keylen, data, depth, acc =>
    addAt (fun c acc => add malloc fuel c key keylen data (depth + 1) acc)
      valid entry left right key keylen data depth acc

/-- `rib_route_add`: the tree, and the value returned. -/
def ribRouteAdd (malloc : Nat → Bool) (t : RibTree) (key : IpAddr) (keylen : Nat)
    (data : RouteEntry) : RibTree × Int :=
  let (root, acc) := add malloc (keylen + 1) t.root key keylen data 0 ⟨0, 0⟩
  ({ t with root := root }, acc.success)

/-- `_shrink`. -/
def shrink : RibNode → RibNode
  | .null => .null
  | .node valid entry left right =>
    match shrink left, shrink right, valid with
    | .null, .null, false => .null
    | left, right, valid => .node valid entry left right

/-- `_delete`: the node that takes the place of `n`, and `*success`. -/
def delete : RibNode → IpAddr → Nat → Nat → Int → RibNode × Int
  | .null, _, _, _, success => (.null, success)
  | .node valid entry left right, key, keylen, depth, success =>
    if depth = keylen then
      if valid then (shrink (.node false .zero left right), 0)
      else (.null, -1)
    else if bitCheck key depth then
      let (right, success) := delete right key keylen (depth + 1) success
      (.node valid entry left right, success)
    else
      let (left, success) := delete left key keylen (depth + 1) success
      (.node valid entry left right, success)

/-- `rib_route_delete`. -/
def ribRouteDelete (t : RibTree) (key : IpAddr) (keylen : Nat) : RibTree × Int :=
  let (root, success) := delete t.root key keylen 0 0
  ({ t with root := root }, success)

/-- `_lookup`. -/
def lookup : RibNode → Option RibNode → IpAddr → Nat → Option RibNode
  | .null, cand, _, _ => cand
  | .node valid entry left right, cand, key, depth =>
    let cand := if valid then some (.node valid entry left right) else cand
    if bitCheck key depth then lookup right cand key (depth + 1)
    else lookup left cand key (depth + 1)

/-- `rib_route_lookup`. -/
def ribRouteLookup (t : RibTree) (key : IpAddr) : Option RibNode := lookup t.root none key 0

/-- `_traverse`. The callback's `arg` is threaded as a state. -/
def traverse {σ : Type} (callback : RibNode → σ → Int × σ) : RibNode → σ → Int × σ
  | .null, arg => (0, arg)
  | .node valid entry left right, arg =>
    let (ret, arg) := if valid then callback (.node valid entry left right) arg else (0, arg)
    if ret ≠ 0 then (-1, arg)
    else
      let (ret, arg) := traverse callback left arg
      if ret ≠ 0 then (-1, arg)
      else
        let (ret, arg) := traverse callback right arg
        if ret ≠ 0 then (-1, arg) else (0, arg)

/-- `rib_traverse`; the counter `route_count`, which only `show` commands read, is left out. -/
def ribTraverse {σ : Type} (t : RibTree) (callback : RibNode → σ → Int × σ) (arg : σ) : Int × σ :=
  traverse callback t.root arg

/-- `_add_to_fib`. -/
def addToFib (malloc : Nat → Bool) (n : RibNode) (arg : FibTree × Nat) : Int × FibTree × Nat :=
  let (fibTree, acc) := Fib.fibRouteAdd malloc arg.1 n.entry.dst.dstIpAddr n.entry.dst.plen
    n.entry.sdplaneNhId arg.2
  (acc.success, fibTree, acc.mallocs)

/-- `rebuild_fib_from_rib`: the value returned, and the FIB tree. -/
def rebuildFibFromRib (malloc : Nat → Bool) (ribTree : RibTree) (fibTree : FibTree) :
    Int × FibTree :=
  let fibTree := { fibTree with family := ribTree.family, tableId := ribTree.tableId }
  let (ret, fibTree, _) := ribTraverse ribTree (addToFib malloc) (fibTree, 0)
  (ret, fibTree)

end Radix

end SdPlane
