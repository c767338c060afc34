import SdPlane.RibFib
import SdPlane.Routing

/-!
# What a routing message does

Inversion lemmas for the two messages about routes, `RouteAdded` and `RouteDeleted`, with one
case for each way out of the handler. In every case the RIB trees are the old ones but for one,
which `rib_route_add` or `rib_route_delete` has worked on.

`routeAt` is the RIB as one map, from the number of a table and a prefix to the route there.
-/

set_option autoImplicit false

namespace SdPlane

open Radix (RibTree RibNode ribNew ribRouteAdd ribRouteDelete routes Labelled)

/-- The place of a route: the number of its table, and its prefix. -/
abbrev RouteKey := Nat × List Bool

/-- The route at a place. -/
def routeAt (ribTreeMaster : Nat → Option RibTree) (x : RouteKey) : Option RouteEntry :=
  (ribTreeMaster x.1).bind fun t => routes t.root x.2

@[simp] theorem routeAt_init (x : RouteKey) : routeAt Routing.init.ribTreeMaster x = none := rfl

theorem routeAt_update (ribTreeMaster : Nat → Option RibTree) (i : Nat) (t : RibTree)
    (x : RouteKey) : routeAt (Function.update ribTreeMaster i (some t)) x
      = if x.1 = i then routes t.root x.2 else routeAt ribTreeMaster x := by
  by_cases h : x.1 = i
  · rw [if_pos h, routeAt, h, Function.update_self, Option.bind_some]
  · rw [if_neg h, routeAt, routeAt, Function.update_of_ne h]

/-! ## Tables -/

/-- The table `t` is at slot `i`, or the slot is free and `t` is new. -/
def TableFor (ribTreeMaster : Nat → Option RibTree) (i : Nat) (t : RibTree) : Prop :=
  ribTreeMaster i = some t ∨ ribTreeMaster i = none ∧ t.root = .null

theorem TableFor.routes_eq {ribTreeMaster : Nat → Option RibTree} {i : Nat} {t : RibTree}
    (h : TableFor ribTreeMaster i t) (p : List Bool) :
    routes t.root p = routeAt ribTreeMaster (i, p) := by
  rcases h with h | ⟨h, hroot⟩
  · rw [routeAt, h, Option.bind_some]
  · rw [routeAt, h, hroot, Radix.routes_null, Option.bind_none]

section Tables

variable {ribTreeMaster ribTreeMaster' : Nat → Option RibTree} {malloc : Bool}
  {tableId family : Int} {i : Nat}

theorem routeTableLookupId_some
    (h : Routing.routeTableLookupId ribTreeMaster tableId family = some i) :
    i < ROUTE_TREE_SIZE ∧ ∃ t, ribTreeMaster i = some t ∧ t.family = family
      ∧ t.tableId = tableId := by
  have hi := List.mem_range.mp (List.mem_of_find?_eq_some h)
  have hp := List.find?_some h
  cases ht : ribTreeMaster i with
  | none => rw [ht] at hp; exact absurd hp (by simp)
  | some t =>
    rw [ht] at hp
    simp only [Bool.and_eq_true, decide_eq_true_eq] at hp
    exact ⟨hi, t, rfl, hp⟩

theorem routeTableLookupId_none
    (h : Routing.routeTableLookupId ribTreeMaster tableId family = none) (hi : i < ROUTE_TREE_SIZE)
    {t : RibTree} (ht : ribTreeMaster i = some t) (hfamily : t.family = family) :
    t.tableId ≠ tableId := by
  intro htable
  have hp := List.find?_eq_none.mp h i (List.mem_range.mpr hi)
  simp [ht, hfamily, htable] at hp

theorem routeTable_some
    (h : Routing.routeTable malloc ribTreeMaster tableId family = some (i, ribTreeMaster')) :
    i < ROUTE_TREE_SIZE ∧ ∃ t, ribTreeMaster' = Function.update ribTreeMaster i (some t)
      ∧ TableFor ribTreeMaster i t ∧ t.family = family ∧ t.tableId = tableId := by
  unfold Routing.routeTable at h
  cases hlookup : Routing.routeTableLookupId ribTreeMaster tableId family with
  | some j =>
    rw [hlookup] at h
    obtain ⟨rfl, rfl⟩ := Prod.mk.inj (Option.some.inj h)
    obtain ⟨hi, t, ht, hfamily, htable⟩ := routeTableLookupId_some hlookup
    refine ⟨hi, t, ?_, .inl ht, hfamily, htable⟩
    rw [← ht, Function.update_eq_self]
  | none =>
    rw [hlookup] at h
    simp only [Routing.routeTableAllocSlot] at h
    split at h
    · cases h
    · next j hfree =>
      split at h
      · obtain ⟨rfl, rfl⟩ := Prod.mk.inj (Option.some.inj h)
        have hnone := List.find?_some (p := fun i => (ribTreeMaster i).isNone) hfree
        exact ⟨List.mem_range.mp (List.mem_of_find?_eq_some hfree), _, rfl,
          .inr ⟨Option.isNone_iff_eq_none.mp hnone, rfl⟩, rfl, rfl⟩
      · cases h

/-- A slot that was free is taken when the table is not there, and it is the first of them. -/
theorem routeTable_free
    (h : Routing.routeTable malloc ribTreeMaster tableId family = some (i, ribTreeMaster'))
    (hfree : ribTreeMaster i = none) :
    Routing.routeTableLookupId ribTreeMaster tableId family = none
      ∧ (∀ j < i, ribTreeMaster j ≠ none) ∧ malloc = true := by
  unfold Routing.routeTable at h
  cases hlookup : Routing.routeTableLookupId ribTreeMaster tableId family with
  | some j =>
    rw [hlookup] at h
    obtain ⟨rfl, rfl⟩ := Prod.mk.inj (Option.some.inj h)
    obtain ⟨-, t, ht, -⟩ := routeTableLookupId_some hlookup
    cases hfree.symm.trans ht
  | none =>
    rw [hlookup] at h
    simp only [Routing.routeTableAllocSlot] at h
    split at h
    · cases h
    · next k hfirst =>
      split at h
      · next hmalloc =>
        obtain ⟨rfl, rfl⟩ := Prod.mk.inj (Option.some.inj h)
        refine ⟨rfl, fun j hj hnone => ?_, hmalloc⟩
        have hbefore := (List.find?_range_eq_some.mp hfirst).2.2 j hj
        rw [hnone] at hbefore
        cases hbefore
      · cases h

end Tables

/-! ## The handlers -/

/-- What became of a `ROUTE_ENTRY_ADD`. -/
inductive RouteAdded (env : Env) (r : Routing) (msg : InternalMsgRouteEntry) : Routing → Prop
  | refused {nh : NhState} (hadd : nexthopAddEntry env.mallocNhNode r.nh msg.nh = (nh, none)) :
      RouteAdded env r msg ⟨nh, r.ribTreeMaster⟩
  | noTable {nh : NhState} {slot : Nat}
      (hadd : nexthopAddEntry env.mallocNhNode r.nh msg.nh = (nh, some slot))
      (htable : Routing.routeTable env.mallocRibTree r.ribTreeMaster msg.tableId msg.family
        = none) :
      RouteAdded env r msg ⟨nexthopIncrementRefcnt nh slot, r.ribTreeMaster⟩
  | tabled {nh : NhState} {slot i : Nat} {t : RibTree}
      (hadd : nexthopAddEntry env.mallocNhNode r.nh msg.nh = (nh, some slot))
      (hfound : Routing.routeTable env.mallocRibTree r.ribTreeMaster msg.tableId msg.family
        = some (i, Function.update r.ribTreeMaster i (some t)))
      (hi : i < ROUTE_TREE_SIZE) (htable : TableFor r.ribTreeMaster i t)
      (hfamily : t.family = msg.family) (htableId : t.tableId = msg.tableId) :
      RouteAdded env r msg ⟨nexthopIncrementRefcnt nh slot,
        Function.update r.ribTreeMaster i (some (ribRouteAdd env.mallocRibNode t
          msg.dst.dstIpAddr msg.dst.plen ⟨msg.dst, slot⟩).1)⟩

theorem routeAdded (env : Env) (r : Routing) (msg : InternalMsgRouteEntry) :
    RouteAdded env r msg (r.routeEntryAdd env msg) := by
  cases hadd : nexthopAddEntry env.mallocNhNode r.nh msg.nh with
  | mk nh result =>
    cases result with
    | none =>
      simp only [Routing.routeEntryAdd, hadd]
      exact .refused hadd
    | some slot =>
      cases htable : Routing.routeTable env.mallocRibTree r.ribTreeMaster msg.tableId
          msg.family with
      | none =>
        simp only [Routing.routeEntryAdd, hadd, htable]
        exact .noTable hadd htable
      | some found =>
        obtain ⟨i, ribTreeMaster⟩ := found
        obtain ⟨hi, t, rfl, ht, hfamily, htableId⟩ := routeTable_some htable
        simp only [Routing.routeEntryAdd, hadd, htable, Routing.onTable, Function.update_self,
          Option.map_some, Function.update_idem]
        exact .tabled hadd htable hi ht hfamily htableId

/-- The route that is stored in the table of a message, if `rib_route_add` has the memory. -/
theorem routeAt_added (malloc : Nat → Bool) {ribTreeMaster : Nat → Option RibTree} {i : Nat}
    {t : RibTree} (htable : TableFor ribTreeMaster i t) (msg : InternalMsgRouteEntry) (slot : Nat)
    (x : RouteKey) :
    routeAt (Function.update ribTreeMaster i
        (some (ribRouteAdd malloc t msg.dst.dstIpAddr msg.dst.plen ⟨msg.dst, slot⟩).1)) x
      = routeAt ribTreeMaster x
    ∨ x = (i, prefixOf msg.dst.dstIpAddr msg.dst.plen)
      ∧ routeAt (Function.update ribTreeMaster i
          (some (ribRouteAdd malloc t msg.dst.dstIpAddr msg.dst.plen ⟨msg.dst, slot⟩).1)) x
        = some ⟨msg.dst, slot⟩ := by
  obtain ⟨j, p⟩ := x
  rw [routeAt_update]
  by_cases hj : j = i
  · subst hj
    rw [if_pos rfl]
    rcases Radix.ribRouteAdd_cases malloc t msg.dst.dstIpAddr msg.dst.plen ⟨msg.dst, slot⟩ with
      ⟨-, hroutes⟩ | ⟨-, hroutes⟩
    · rw [hroutes]
      by_cases hp : p = prefixOf msg.dst.dstIpAddr msg.dst.plen
      · exact .inr ⟨by rw [hp], if_pos hp⟩
      · exact .inl ((if_neg hp).trans (htable.routes_eq p))
    · exact .inl ((hroutes p).trans (htable.routes_eq p))
  · exact .inl (if_neg hj)

/-- A route after `ROUTE_ENTRY_ADD` was there before or is to the destination of the message. -/
theorem routeAt_routeEntryAdd {env : Env} {r : Routing} {msg : InternalMsgRouteEntry}
    {x : RouteKey} {e : RouteEntry}
    (h : routeAt (r.routeEntryAdd env msg).ribTreeMaster x = some e) :
    routeAt r.ribTreeMaster x = some e ∨ e.dst = msg.dst := by
  have hadded := routeAdded env r msg
  generalize r.routeEntryAdd env msg = r' at hadded h
  cases hadded with
  | refused _ => exact .inl h
  | noTable _ _ => exact .inl h
  | @tabled _ slot _ _ _ _ _ htable _ _ =>
    rcases routeAt_added env.mallocRibNode htable msg slot x with hsame | ⟨-, hnew⟩
    · exact .inl (hsame.symm.trans h)
    · obtain rfl := Option.some.inj (hnew.symm.trans h)
      exact .inr rfl

/-- With memory for the nodes on its path the route is stored. -/
theorem routeAt_stored {malloc : Nat → Bool} {ribTreeMaster : Nat → Option RibTree} {i : Nat}
    {t : RibTree} (htable : TableFor ribTreeMaster i t) {dst : RouteDstInfo}
    (hmalloc : ∀ j, j < Radix.missing t.root dst.dstIpAddr 0 dst.plen → malloc j = true)
    (e : RouteEntry) (x : RouteKey) :
    routeAt (Function.update ribTreeMaster i
        (some (ribRouteAdd malloc t dst.dstIpAddr dst.plen e).1)) x
      = if x = (i, prefixOf dst.dstIpAddr dst.plen) then some e else routeAt ribTreeMaster x := by
  have hroutes := (Radix.ribRouteAdd_cases malloc t dst.dstIpAddr dst.plen e).resolve_right fun h =>
    absurd (h.1.symm.trans (Radix.ribRouteAdd_memory hmalloc e)) (by decide)
  obtain ⟨j, p⟩ := x
  rw [routeAt_update]
  by_cases hj : j = i
  · subst hj
    rw [if_pos rfl, hroutes.2]
    simp only [Prod.mk.injEq, true_and]
    rw [htable.routes_eq]
  · rw [if_neg hj, if_neg fun heq => hj (congrArg Prod.fst heq)]

/-- What becomes of the RIB when `rib_route_delete` is called for a prefix. -/
def Removed (ribTreeMaster : Nat → Option RibTree) (y x : RouteKey) : Prop :=
  x.1 = y.1 ∧ if (routeAt ribTreeMaster y).isSome then x.2 = y.2 else y.2 <+: x.2

instance (ribTreeMaster : Nat → Option RibTree) (y x : RouteKey) :
    Decidable (Removed ribTreeMaster y x) := by
  unfold Removed
  infer_instance

theorem routeAt_deleted {ribTreeMaster : Nat → Option RibTree} {i : Nat} {t : RibTree}
    (htable : ribTreeMaster i = some t) (dst : RouteDstInfo) (x : RouteKey) :
    routeAt (Function.update ribTreeMaster i
        (some (ribRouteDelete t dst.dstIpAddr dst.plen).1)) x
      = if Removed ribTreeMaster (i, prefixOf dst.dstIpAddr dst.plen) x then none
        else routeAt ribTreeMaster x := by
  obtain ⟨j, p⟩ := x
  have hhere : ∀ p, routeAt ribTreeMaster (i, p) = routes t.root p := by
    intro p
    rw [routeAt, htable, Option.bind_some]
  rw [routeAt_update]
  by_cases hj : j = i
  · subst hj
    simp only [Removed, true_and, if_true, hhere, Radix.routes_ribRouteDelete]
    split
    · rfl
    · rfl
  · rw [if_neg hj, if_neg fun hremoved => hj hremoved.1]

/-- What became of a `ROUTE_ENTRY_DEL`. -/
inductive RouteDeleted (r : Routing) (msg : InternalMsgRouteEntry) : Routing → Prop
  | missing {nh : NhState} (hdel : Routing.routeEntryDelNexthop r.nh msg = (nh, none)) :
      RouteDeleted r msg ⟨nh, r.ribTreeMaster⟩
  | noTable {nh : NhState} {slot : Nat}
      (hdel : Routing.routeEntryDelNexthop r.nh msg = (nh, some slot))
      (htable : Routing.routeTableLookupId r.ribTreeMaster msg.tableId msg.family = none) :
      RouteDeleted r msg ⟨nexthopDecrementRefcnt nh slot, r.ribTreeMaster⟩
  | tabled {nh : NhState} {slot i : Nat} {t : RibTree}
      (hdel : Routing.routeEntryDelNexthop r.nh msg = (nh, some slot))
      (hlookup : Routing.routeTableLookupId r.ribTreeMaster msg.tableId msg.family = some i)
      (hi : i < ROUTE_TREE_SIZE) (htable : r.ribTreeMaster i = some t)
      (hfamily : t.family = msg.family) (htableId : t.tableId = msg.tableId) :
      RouteDeleted r msg ⟨nexthopDecrementRefcnt nh slot,
        Function.update r.ribTreeMaster i
          (some (ribRouteDelete t msg.dst.dstIpAddr msg.dst.plen).1)⟩

theorem routeDeleted (r : Routing) (msg : InternalMsgRouteEntry) :
    RouteDeleted r msg (r.routeEntryDel msg) := by
  cases hdel : Routing.routeEntryDelNexthop r.nh msg with
  | mk nh result =>
    cases result with
    | none =>
      simp only [Routing.routeEntryDel, hdel]
      exact .missing hdel
    | some slot =>
      cases hlookup : Routing.routeTableLookupId r.ribTreeMaster msg.tableId msg.family with
      | none =>
        simp only [Routing.routeEntryDel, hdel, hlookup]
        exact .noTable hdel hlookup
      | some i =>
        obtain ⟨hi, t, ht, hfamily, htableId⟩ := routeTableLookupId_some hlookup
        simp only [Routing.routeEntryDel, hdel, hlookup, Routing.onTable, ht, Option.map_some]
        exact .tabled hdel hlookup hi ht hfamily htableId

/-! ## Routes carry the prefix they are stored under -/

/-- `Labelled`, in every table. -/
def TablesLabelled (ribTreeMaster : Nat → Option RibTree) : Prop :=
  ∀ i t, ribTreeMaster i = some t → Labelled t

theorem tablesLabelled_init : TablesLabelled Routing.init.ribTreeMaster := by
  intro i t h
  cases h

section Labels

variable {ribTreeMaster : Nat → Option RibTree} {i : Nat} {t : RibTree}

theorem TablesLabelled.update (h : TablesLabelled ribTreeMaster) (ht : Labelled t) :
    TablesLabelled (Function.update ribTreeMaster i (some t)) := by
  intro j t' hj
  by_cases hji : j = i
  · subst hji
    obtain rfl : t = t' := by simpa using hj
    exact ht
  · exact h j t' (by simpa [Function.update_of_ne hji] using hj)

theorem TableFor.labelled (h : TablesLabelled ribTreeMaster) (ht : TableFor ribTreeMaster i t) :
    Labelled t := by
  rcases ht with ht | ⟨-, hroot⟩
  · exact h i t ht
  · intro p e he
    rw [hroot, Radix.routes_null] at he
    cases he

end Labels

theorem TablesLabelled.routingMessage {r : Routing} (h : TablesLabelled r.ribTreeMaster) (env : Env)
    (msg : RoutingMsg) : TablesLabelled (routingMessage env r msg).ribTreeMaster := by
  cases msg with
  | routeEntryAdd msg =>
    have hadded := routeAdded env r msg
    show TablesLabelled (r.routeEntryAdd env msg).ribTreeMaster
    generalize r.routeEntryAdd env msg = r' at hadded ⊢
    cases hadded with
    | refused _ => exact h
    | noTable _ _ => exact h
    | @tabled _ slot _ _ _ _ _ htable _ _ =>
      exact h.update ((htable.labelled h).add env.mallocRibNode ⟨msg.dst, slot⟩)
  | routeEntryDel msg =>
    have hdeleted := routeDeleted r msg
    show TablesLabelled (r.routeEntryDel msg).ribTreeMaster
    generalize r.routeEntryDel msg = r' at hdeleted ⊢
    cases hdeleted with
    | missing _ => exact h
    | noTable _ _ => exact h
    | tabled _ _ _ htable _ _ => exact h.update ((h _ _ htable).delete _ _)
  | nexthopEntryAdd _ => exact h
  | nexthopEntryDel _ => exact h

end SdPlane
