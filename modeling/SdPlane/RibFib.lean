import SdPlane.RadixMap

/-!
# The RIB and the FIB built from it agree

`rebuild_fib_from_rib` walks the RIB and adds each route to the FIB under the prefix that the
route itself carries, `route_entry.dst`; where the route sits in the RIB is not looked at. So
the two tables are about the same prefixes only because every route is stored under the
prefix it carries (`Labelled`), an invariant of the callers and not of the trie.

The RIB is compared with the FIB through the abstract longest-prefix match. The walk visits
`listing`, an enumeration of the map `routes` without repetition, so the FIB it builds answers
for exactly that map; a lookup in the RIB answers for it too (`ribRouteLookup_longest`), and the
answer is unique.
-/

set_option autoImplicit false

namespace SdPlane.Radix

open Fib (FibTree FibRoute FibNode fibNew fibRouteAddAll fibRouteLookup look Answers mallocOk)

/-- The routes of a tree with the paths to them, in the order in which `_traverse` visits them. -/
def listing : RibNode → List (List Bool × RouteEntry)
  | .null => []
  | .node valid entry left right =>
    (if valid then [([], entry)] else [])
      ++ (listing left).map (fun e => (false :: e.1, e.2))
      ++ (listing right).map (fun e => (true :: e.1, e.2))

theorem mem_listing {n : RibNode} {p : List Bool} {e : RouteEntry} :
    (p, e) ∈ listing n ↔ routes n p = some e := by
  induction n generalizing p with
  | null => simp [listing]
  | node valid entry left right ihl ihr =>
    cases p with
    | nil => cases valid <;> simp [listing, eq_comm]
    | cons b p => cases b <;> cases valid <;> simp [listing, ihl, ihr]

theorem listing_nodup (n : RibNode) : ((listing n).map Prod.fst).Nodup := by
  induction n with
  | null => exact List.nodup_nil
  | node valid entry left right ihl ihr =>
    have hcons : ∀ (b : Bool) (l : List (List Bool × RouteEntry)), (l.map Prod.fst).Nodup →
        ((l.map fun e => (b :: e.1, e.2)).map Prod.fst).Nodup := by
      intro b l h
      rw [List.map_map, show (Prod.fst ∘ fun e : List Bool × RouteEntry => (b :: e.1, e.2))
        = (List.cons b) ∘ Prod.fst from rfl, ← List.map_map]
      exact h.map (fun _ _ h => List.tail_eq_of_cons_eq h)
    have hleft := hcons false _ ihl
    have hright := hcons true _ ihr
    rw [listing, List.map_append, List.map_append]
    refine List.Nodup.append (List.Nodup.append ?_ hleft ?_) hright ?_
    · cases valid <;> simp
    · cases valid <;> simp [List.disjoint_left]
    · -- the paths on the left do not start with the bit that those on the right start with
      intro p hl hr
      obtain ⟨y, hy, rfl⟩ := List.mem_map.mp hr
      obtain ⟨z, -, rfl⟩ := List.mem_map.mp hy
      cases valid <;> simp at hl

/-! ## The walk -/

/-- A route of the RIB as it is given to `fib_route_add`. -/
def toFibRoute (e : RouteEntry) : FibRoute := ⟨e.dst.dstIpAddr, e.dst.plen, e.sdplaneNhId⟩

theorem addToFib_ok (n : RibNode) (arg : FibTree × Nat) :
    addToFib mallocOk n arg = (0, fibRouteAddAll mallocOk arg [toFibRoute n.entry]) := by
  have hsucc : (Fib.fibRouteAdd mallocOk arg.1 n.entry.dst.dstIpAddr n.entry.dst.plen
      n.entry.sdplaneNhId arg.2).2.success = 0 := Fib.add_success _ _ _ _ _ _ _ rfl
  exact Prod.ext hsucc rfl

theorem fibRouteAddAll_append (s : FibTree × Nat) (rs rs' : List FibRoute) :
    fibRouteAddAll mallocOk s (rs ++ rs')
      = fibRouteAddAll mallocOk (fibRouteAddAll mallocOk s rs) rs' := List.foldl_append

/-- With memory, the walk adds the routes one after the other and reports success. -/
theorem traverse_addToFib (n : RibNode) (arg : FibTree × Nat) :
    traverse (addToFib mallocOk) n arg
      = (0, fibRouteAddAll mallocOk arg ((listing n).map fun e => toFibRoute e.2)) := by
  induction n generalizing arg with
  | null => rfl
  | node valid entry left right ihl ihr =>
    have hsub : ∀ (b : Bool) (l : List (List Bool × RouteEntry)),
        (l.map fun e => (b :: e.1, e.2)).map (fun e => toFibRoute e.2)
          = l.map fun e => toFibRoute e.2 := by
      intro b l; rw [List.map_map]; rfl
    rw [listing, List.map_append, List.map_append, hsub, hsub, fibRouteAddAll_append,
      fibRouteAddAll_append, traverse]
    cases valid with
    | true =>
      rw [if_pos rfl, addToFib_ok]
      simp [ihl, ihr, RibNode.entry]
    | false => simp [ihl, ihr, fibRouteAddAll]

/-- Every route is stored under the prefix that it carries. -/
def Labelled (t : RibTree) : Prop :=
  ∀ p e, routes t.root p = some e → prefixOf e.dst.dstIpAddr e.dst.plen = p

/-- The next hops of a tree by prefix: the entries that its FIB answers for. -/
def fibTable (t : RibTree) : Set (List Bool × Int) :=
  {x | ∃ e, routes t.root x.1 = some e ∧ e.sdplaneNhId = x.2}

theorem fibTable_functional (t : RibTree) : Lib.Functional (fibTable t) := by
  rintro p a a' ⟨e, he, rfl⟩ ⟨e', he', rfl⟩
  obtain rfl : e = e' := Option.some.inj (he.symm.trans he')
  rfl

theorem Labelled.pfx_eq {t : RibTree} (h : Labelled t) {x : List Bool × RouteEntry}
    (hx : x ∈ listing t.root) : (toFibRoute x.2).pfx = x.1 :=
  h x.1 x.2 (mem_listing.mp hx)

/-- **The rebuilt FIB answers for the routes of the RIB.** -/
theorem answers_rebuildFibFromRib {t : RibTree} (h : Labelled t) {fibTree : FibTree}
    (hempty : fibTree.root = .null) :
    (rebuildFibFromRib mallocOk t fibTree).1 = 0
      ∧ Answers (rebuildFibFromRib mallocOk t fibTree).2 (fibTable t) := by
  have hpfx : ((listing t.root).map fun e => toFibRoute e.2).map FibRoute.pfx
      = (listing t.root).map Prod.fst := by
    rw [List.map_map]
    exact List.map_congr_left fun x hx => h.pfx_eq hx
  have hset : (∅ : Set (List Bool × Int))
      ∪ {e | ∃ r ∈ (listing t.root).map (fun e => toFibRoute e.2), r.entry = e} = fibTable t := by
    rw [Set.empty_union]
    ext ⟨p, a⟩
    constructor
    · rintro ⟨r, hr, heq⟩
      obtain ⟨x, hx, rfl⟩ := List.mem_map.mp hr
      obtain rfl : x.1 = p := (h.pfx_eq hx).symm.trans (congrArg Prod.fst heq)
      exact ⟨x.2, mem_listing.mp hx, congrArg Prod.snd heq⟩
    · rintro ⟨e, he, rfl⟩
      refine ⟨toFibRoute e, List.mem_map.mpr ⟨(p, e), mem_listing.mpr he, rfl⟩, ?_⟩
      exact Prod.ext (h p e he) rfl
  have hall := Answers.addAll ((listing t.root).map fun e => toFibRoute e.2)
    ({ fibTree with family := t.family, tableId := t.tableId }, 0)
    (Fib.answers_empty hempty) (by rw [hpfx]; exact listing_nodup _) (by simp)
  rw [hset] at hall
  simp only [rebuildFibFromRib, ribTraverse, traverse_addToFib]
  exact ⟨trivial, hall⟩

/-! ## Lookups in the RIB -/

theorem lookup_cand (n : RibNode) (cand : Option RibNode) (k : IpAddr) (depth : Nat) :
    lookup n cand k depth = (lookup n none k depth).or cand := by
  induction n generalizing cand depth with
  | null => simp [lookup]
  | node valid entry left right ihl ihr =>
    simp only [lookup, bitCheck_eq_keyBit]
    cases keyBit k depth with
    | true =>
      simp only [if_true]
      rw [ihr, ihr (if valid = true then _ else none)]
      cases valid <;> simp
    | false =>
      simp only [Bool.false_eq_true, if_false]
      rw [ihl, ihl (if valid = true then some (.node valid entry left right) else none)]
      cases valid <;> simp

/-- `_lookup` below `depth` answers the longest match of the rest of the address. -/
theorem lookup_longest (k : IpAddr) (n : RibNode) (depth : Nat) :
    ∃ r, Lib.Longest {x : List Bool × RouteEntry | routes n x.1 = some x.2}
        (fun i => keyBit k (depth + i)) r
      ∧ (lookup n none k depth).map RibNode.entry = r.map Prod.snd := by
  induction n generalizing depth with
  | null => exact ⟨none, by simp [Lib.Longest], rfl⟩
  | node valid entry left right ihl ihr =>
    have hroot : ∀ a, ([], a) ∈ {x : List Bool × RouteEntry |
        routes (.node valid entry left right) x.1 = some x.2}
          ↔ (if valid then some entry else none) = some a := by simp
    have hshift : (fun i => keyBit k (depth + (i + 1))) = fun i => keyBit k (depth + 1 + i) := by
      funext i; rw [Nat.add_right_comm, Nat.add_assoc]
    have hmap : ∀ (c : RibNode) (r : Option (List Bool × RouteEntry)) (b : Bool),
        (lookup c none k (depth + 1)).map RibNode.entry = r.map Prod.snd →
        (lookup c (if valid then some (.node valid entry left right) else none) k
            (depth + 1)).map RibNode.entry
          = ((r.map fun e => (b :: e.1, e.2)).or
              ((if valid then some entry else none).map fun a => ([], a))).map Prod.snd := by
      intro c r b heq
      rw [lookup_cand, Option.map_or, heq]
      cases r <;> cases valid <;> rfl
    cases hbit : keyBit k depth with
    | true =>
      obtain ⟨r, hlong, heq⟩ := ihr (depth + 1)
      rw [← hshift] at hlong
      refine ⟨_, hlong.descend (b := fun i => keyBit k (depth + i)) (fun p a => ?_) hroot, ?_⟩
      · simp [hbit]
      · rw [lookup, bitCheck_eq_keyBit, hbit]
        exact hmap right r _ heq
    | false =>
      obtain ⟨r, hlong, heq⟩ := ihl (depth + 1)
      rw [← hshift] at hlong
      refine ⟨_, hlong.descend (b := fun i => keyBit k (depth + i)) (fun p a => ?_) hroot, ?_⟩
      · simp [hbit]
      · rw [lookup, bitCheck_eq_keyBit, hbit]
        exact hmap left r _ heq

/-- The next hop that `rib_route_lookup` answers is that of a longest match. -/
theorem ribRouteLookup_longest (t : RibTree) (k : IpAddr) :
    ∃ r, Lib.Longest (fibTable t) (keyBit k) r
      ∧ (ribRouteLookup t k).map (fun n => n.entry.sdplaneNhId) = r.map Prod.snd := by
  obtain ⟨r, hlong, heq⟩ := lookup_longest k t.root 0
  simp only [Nat.zero_add] at hlong
  refine ⟨r.map fun x => (x.1, x.2.sdplaneNhId), ?_, ?_⟩
  · cases r with
    | none =>
      rintro ⟨p, a⟩ ⟨e, he, -⟩
      exact hlong (p, e) he
    | some x =>
      obtain ⟨hmem, hcov, hmax⟩ := hlong
      refine ⟨⟨x.2, hmem, rfl⟩, hcov, ?_⟩
      rintro ⟨p, a⟩ ⟨e, he, -⟩ hcov'
      exact hmax (p, e) he hcov'
  · have hmap := congrArg (Option.map RouteEntry.sdplaneNhId) heq
    rw [Option.map_map] at hmap
    rw [Option.map_map]
    exact hmap.trans (by rw [Option.map_map]; rfl)

/-! ## Histories -/

/-- A call as `rib_manager` makes it: a route is added under the prefix that it carries. -/
inductive RouteUpdate
  | add (data : RouteEntry)
  | delete (key : IpAddr) (keylen : Nat)

/-- The call that an update makes. -/
def RouteUpdate.op : RouteUpdate → RibOp
  | .add data => .add data.dst.dstIpAddr data.dst.plen data
  | .delete key keylen => .delete key keylen

/-- The tree after a history of updates. -/
def ribAfter (us : List RouteUpdate) : RibTree :=
  us.foldl (fun t u => applyOp t u.op) ribNew

theorem Labelled.add {t : RibTree} (h : Labelled t) (malloc : Nat → Bool) (data : RouteEntry) :
    Labelled (ribRouteAdd malloc t data.dst.dstIpAddr data.dst.plen data).1 := by
  intro p e he
  rcases ribRouteAdd_cases malloc t data.dst.dstIpAddr data.dst.plen data with
    ⟨-, hroutes⟩ | ⟨-, hroutes⟩
  · rw [hroutes] at he
    split at he
    · next hp => rw [← Option.some.inj he]; exact hp.symm
    · exact h p e he
  · exact h p e ((hroutes p).symm.trans he)

theorem Labelled.delete {t : RibTree} (h : Labelled t) (key : IpAddr) (keylen : Nat) :
    Labelled (ribRouteDelete t key keylen).1 := by
  intro p e he
  rw [routes_ribRouteDelete] at he
  split_ifs at he
  · exact h p e he
  · exact h p e he

theorem labelled_ribNew : Labelled ribNew := by intro p e he; simp [ribNew] at he

theorem labelled_ribAfter (us : List RouteUpdate) : Labelled (ribAfter us) := by
  unfold ribAfter
  induction us using List.reverseRecOn with
  | nil => exact labelled_ribNew
  | append_singleton us u ih =>
    rw [List.foldl_append]
    cases u with
    | add data => exact ih.add mallocOk data
    | delete key keylen => exact ih.delete key keylen

/-- **RIB and FIB agree.** Whatever the history of a RIB tree, the FIB that
    `rebuild_fib_from_rib` builds from it answers every address with the next hop that the RIB
    answers it with, and with `NULL` where the RIB does. -/
theorem fibRouteLookup_rebuild_eq_ribRouteLookup (us : List RouteUpdate) (k : IpAddr) :
    (fibRouteLookup (rebuildFibFromRib mallocOk (ribAfter us) fibNew).2 k).map FibNode.nhId
      = (ribRouteLookup (ribAfter us) k).map fun n => n.entry.sdplaneNhId := by
  obtain ⟨-, hans⟩ := answers_rebuildFibFromRib (labelled_ribAfter us)
    (show fibNew.root = .null from rfl)
  obtain ⟨r, hlong, heq⟩ := ribRouteLookup_longest (ribAfter us) k
  have hsame := Lib.Longest.unique (fibTable_functional _) (hans.longest k) hlong
  rw [heq, ← hsame, Option.map_map]
  show _ = Option.map _ (Option.map FibNode.route _)
  rw [Option.map_map]
  rfl

end SdPlane.Radix
