import SdPlane.NexthopUndo
import SdPlane.RibPublish
import SdPlane.RouteTrace

/-!
# A route that is added and deleted (`rib_manager.c`)

A route whose next hop has no kernel id is deleted by a message with the same contents. The RIB is
then what it was, if the prefix was not in it, and the next-hop group of the route is found by its
members and freed. What is left of the next hops is the matter of `Undoable`: the group has to be
the route's own, and no other group may have been made along with it.

The states are those of the whole RIB manager. It may have lost its next hops on the way, when there
was no memory for a version; `NhGood` holds of none as well.
-/

set_option autoImplicit false

namespace SdPlane

open Radix (RibTree ribRouteAdd)

/-! ## What is to hold -/

/-- A route with a next hop by content. -/
structure LegacyRoute (msg : InternalMsgRouteEntry) : Prop where
  isNhid : msg.isNhid = false
  kernelNhId : msg.nh.kernelNhId = 0
  nhcnt : 1 ≤ msg.nh.nhcnt

/-- There is no route to the prefix of the message. -/
def PrefixAbsent (r : Routing) (msg : InternalMsgRouteEntry) : Prop :=
  ∀ i, Routing.routeTableLookupId r.ribTreeMaster msg.tableId msg.family = some i →
    routeAt r.ribTreeMaster (i, prefixOf msg.dst.dstIpAddr msg.dst.plen) = none

/-- The groups and gateways in use are the same, and so are the routes. -/
structure Cancels (r r' : Routing) : Prop where
  live : SameLive r.nh r'.nh
  routes : ∀ x, routeAt r'.ribTreeMaster x = routeAt r.ribTreeMaster x

/-! ## The table -/

section Table

variable {malloc : Bool} {ribTreeMaster ribTreeMaster' : Nat → Option RibTree}
  {tableId family : Int} {i : Nat}

/-- The table of a message is found again. -/
theorem routeTable_found_again
    (h : Routing.routeTable malloc ribTreeMaster tableId family = some (i, ribTreeMaster'))
    {t : RibTree} (hfamily : t.family = family) (htable : t.tableId = tableId) :
    Routing.routeTableLookupId (Function.update ribTreeMaster i (some t)) tableId family
      = some i := by
  have hi := (routeTable_some h).1
  rw [Routing.routeTableLookupId, List.find?_range_eq_some]
  refine ⟨?_, List.mem_range.mpr hi, fun j hj => ?_⟩
  · simp [hfamily, htable]
  · rw [Function.update_of_ne (Nat.ne_of_lt hj)]
    cases hlookup : Routing.routeTableLookupId ribTreeMaster tableId family with
    | some k =>
      rw [Routing.routeTable, hlookup] at h
      obtain ⟨rfl, -⟩ := Prod.mk.inj (Option.some.inj h)
      exact (List.find?_range_eq_some.mp hlookup).2.2 j hj
    | none =>
      have hnone := List.find?_eq_none.mp hlookup j (List.mem_range.mpr (hj.trans hi))
      rw [Bool.not_eq_true', Bool.eq_false_iff]
      exact hnone

/-- What is absent is absent from the table that the message gets. -/
theorem PrefixAbsent.routeAt {r : Routing} {msg : InternalMsgRouteEntry} (h : PrefixAbsent r msg)
    (hfound : Routing.routeTable malloc r.ribTreeMaster msg.tableId msg.family
      = some (i, ribTreeMaster')) :
    routeAt r.ribTreeMaster (i, prefixOf msg.dst.dstIpAddr msg.dst.plen) = none := by
  cases hfree : r.ribTreeMaster i with
  | none => rw [SdPlane.routeAt, hfree, Option.bind_none]
  | some t =>
    obtain ⟨-, t', -, ht, hfamily, htable⟩ := routeTable_some hfound
    rcases ht with ht | ⟨hnone, -⟩
    · have hlookup := routeTable_found_again hfound hfamily htable
      rw [← ht, Function.update_eq_self] at hlookup
      exact h i hlookup
    · cases hfree.symm.trans hnone

end Table

/-! ## The two handlers -/

section Handlers

variable {env : Env} {r : Routing} {msg : InternalMsgRouteEntry}

theorem cancels_iff_of_good (hgood : NhGood r.nh) (hlegacy : LegacyRoute msg)
    (habsent : PrefixAbsent r msg) (hstored : RouteStored env r msg) :
    Cancels r ((r.routeEntryAdd env msg).routeEntryDel msg) ↔ Undoable r.nh msg.nh := by
  obtain ⟨slot, i, t, hslot, hfound, hok⟩ := hstored
  have hadded := routeAdded env r msg
  generalize r.routeEntryAdd env msg = r₁ at hadded
  cases hadded with
  | refused hadd =>
    rw [hadd] at hslot
    cases hslot
  | noTable hadd htable => cases htable.symm.trans hfound
  | @tabled u slot' i' t' hadd hfound' hi htable hfamily htableId =>
    obtain ⟨rfl, hupdate⟩ := Prod.mk.inj (Option.some.inj (hfound.symm.trans hfound'))
    obtain rfl : t = t' := by simpa using congrFun hupdate i
    rw [hadd] at hslot
    obtain rfl := Option.some.inj hslot
    rw [RefcntExact.nexthopIncrement (hgood.addSlot_lt hadd)]
    rw [← group_undone_iff hgood hlegacy.kernelNhId hlegacy.nhcnt hadd]
    -- the route is there in between
    have hthere := routeAt_stored htable (Radix.ribRouteAdd_success_iff.mp hok) ⟨msg.dst, slot'⟩
    have habsent' := habsent.routeAt hfound
    generalize hmaster : Function.update r.ribTreeMaster i (some (ribRouteAdd env.mallocRibNode t
      msg.dst.dstIpAddr msg.dst.plen ⟨msg.dst, slot'⟩).1) = master at hthere
    have hroute : routeAt master (i, prefixOf msg.dst.dstIpAddr msg.dst.plen)
        = some ⟨msg.dst, slot'⟩ := by rw [hthere, if_pos rfl]
    have hagain : Routing.routeTableLookupId master msg.tableId msg.family = some i := by
      rw [← hmaster]
      exact routeTable_found_again hfound hfamily htableId
    have hdeleted := routeDeleted ⟨u.addRef slot' 1, master⟩ msg
    generalize Routing.routeEntryDel ⟨u.addRef slot' 1, master⟩ msg = r₂ at hdeleted
    have hdelete : Routing.routeEntryDelNexthop (u.addRef slot' 1) msg
        = nexthopDelEntry (u.addRef slot' 1) msg.nh := by
      rw [Routing.routeEntryDelNexthop, hlegacy.isNhid]
      rfl
    cases hdeleted with
    | missing hdel =>
      rw [hdelete] at hdel
      refine iff_of_false (fun hcancels => ?_) ?_
      · have hsame := hcancels.routes (i, prefixOf msg.dst.dstIpAddr msg.dst.plen)
        rw [hroute, habsent'] at hsame
        cases hsame
      · rintro ⟨v, g, hgiven, -⟩
        rw [hdel] at hgiven
        cases hgiven
    | noTable _ hnone => cases hagain.symm.trans hnone
    | @tabled v g i' t' hdel hlookup hi' htree _ _ =>
      obtain rfl := Option.some.inj (hagain.symm.trans hlookup)
      rw [hdelete] at hdel
      have hg : g < MAX_NEXTHOP_GRP_SIZE := by
        cases hfind : delSlot (u.addRef slot' 1) msg.nh with
        | none =>
          simp only [nexthopDelEntry, hfind] at hdel
          cases hdel
        | some g' =>
          rw [nexthopDelEntry_legacy hlegacy.kernelNhId hfind] at hdel
          obtain rfl := Option.some.inj (Prod.mk.inj hdel).2
          exact ((hgood.call (.add env.mallocNhNode msg.nh)).addRef slot' 1).delSlot_lt
            (by rw [show (nhCall r.nh (.add env.mallocNhNode msg.nh)).1 = u from
              congrArg Prod.fst hadd]; exact hfind)
      have hroutes : ∀ x, routeAt (Function.update master i (some (Radix.ribRouteDelete t'
          msg.dst.dstIpAddr msg.dst.plen).1)) x = routeAt r.ribTreeMaster x := by
        intro x
        rw [routeAt_deleted htree]
        by_cases hx : x = (i, prefixOf msg.dst.dstIpAddr msg.dst.plen)
        · rw [if_pos (by subst hx; simp [Removed, hroute]), hx, habsent']
        · have hnot : ¬Removed master (i, prefixOf msg.dst.dstIpAddr msg.dst.plen) x := by
            rw [Removed, hroute, Option.isSome_some, if_pos rfl]
            exact fun hremoved => hx (Prod.ext hremoved.1 hremoved.2)
          rw [if_neg hnot, hthere, if_neg hx]
      rw [RefcntExact.nexthopDecrement hg]
      constructor
      · exact fun hcancels => ⟨v, g, hdel, hcancels.live⟩
      · rintro ⟨v', g', hgiven, hsame⟩
        rw [hdel] at hgiven
        obtain ⟨rfl, heq⟩ := Prod.mk.inj hgiven
        obtain rfl := Option.some.inj heq
        exact ⟨hsame, hroutes⟩

end Handlers

/-! ## Runs -/

/-- No message breaks the invariant of the next hops, not even one that loses them. -/
theorem NhGood.processed {env : Env} {s t : RibState} {msg : Msg} (h : NhGood s.routing.nh)
    (hstep : ribManagerProcessMessage env s msg = .ok t) : NhGood t.routing.nh := by
  cases processed_of_ok hstep with
  | dropped hrouting => rwa [hrouting]
  | portGet hrouting => rwa [hrouting]
  | lost _ hrouting =>
    rw [hrouting]
    exact .empty h.slots
  | rebuilt _ hrouting =>
    rw [hrouting]
    cases msg with
    | routing msg => exact h.routing env msg
    | conf _ => exact h
    | portGetRequest _ => exact h
    | unknown _ => exact h

theorem nhGood_of_run {events : List (Env × Msg)} {s : RibState}
    (h : Lib.Run Step .init events s) : NhGood s.routing.nh :=
  h.invariant (fun s => NhGood s.routing.nh) NhGood.init fun _ _ _ hs hstep => hs.processed hstep

/-- **Adding a route and deleting it cancel if and only if** the group of the route is made for it,
    and no other group is. -/
theorem route_cancels_iff {events : List (Env × Msg)} {s t u : RibState} {env env' : Env}
    {msg : InternalMsgRouteEntry} (hrun : Lib.Run Step .init events s) (hlegacy : LegacyRoute msg)
    (habsent : PrefixAbsent s.routing msg)
    (hadd : Step s (env, .routing (.routeEntryAdd msg)) t) (hstored : RouteStored env s.routing msg)
    (hdel : Step t (env', .routing (.routeEntryDel msg)) u) :
    Cancels s.routing u.routing ↔ Undoable s.routing.nh msg.nh := by
  rw [routing_of_ok hdel, routing_of_ok hadd]
  exact cancels_iff_of_good (nhGood_of_run hrun) hlegacy habsent hstored

theorem legacyRoute_defaultRoute : LegacyRoute defaultRoute := ⟨rfl, rfl, Nat.le_refl 1⟩

theorem defaultRoute_cancels : ∃ t u, Step .init (.plain, .routing (.routeEntryAdd defaultRoute)) t
    ∧ Step t (.plain, .routing (.routeEntryDel defaultRoute)) u
    ∧ Cancels RibState.init.routing u.routing := by
  obtain ⟨t, ht⟩ := routing_message_ok Env.plain_allocs .init (.routeEntryAdd defaultRoute)
  obtain ⟨u, hu⟩ := routing_message_ok Env.plain_allocs t (.routeEntryDel defaultRoute)
  have hslot : (nexthopAddEntry Env.plain.mallocNhNode RibState.init.routing.nh
      defaultRoute.nh).2 = some 0 := by decide +kernel
  have hstored : RouteStored .plain RibState.init.routing defaultRoute :=
    (routeStored_iff hslot).mpr
      ⟨0, { Radix.ribNew with family := AF_INET, tableId := 254 }, rfl, fun _ _ => rfl⟩
  refine ⟨t, u, ht, hu, (route_cancels_iff .nil legacyRoute_defaultRoute (fun _ _ => rfl) ht hstored
    hu).mpr ⟨by decide +kernel, fun j _ => ?_⟩⟩
  have hid : (defaultRoute.nh.members j).kernelNhId = 0 := rfl
  rw [Recoverable, if_neg (not_not.mpr hid)]
  exact fun hmore => absurd hmore (by decide)

/-- A second default route, in another table, is given the group of the first. -/
theorem shared_group_freed : ¬ ∀ (events : List (Env × Msg)) (s t u : RibState) (env env' : Env)
    (msg : InternalMsgRouteEntry), Lib.Run Step .init events s → LegacyRoute msg →
    PrefixAbsent s.routing msg → Step s (env, .routing (.routeEntryAdd msg)) t →
    RouteStored env s.routing msg → Step t (env', .routing (.routeEntryDel msg)) u →
    Cancels s.routing u.routing := by
  intro hall
  have hother : LegacyRoute { defaultRoute with tableId := 100 } := ⟨rfl, rfl, Nat.le_refl 1⟩
  obtain ⟨s, hs⟩ := routing_message_ok Env.plain_allocs .init (.routeEntryAdd defaultRoute)
  obtain ⟨t, ht⟩ := routing_message_ok Env.plain_allocs s
    (.routeEntryAdd { defaultRoute with tableId := 100 })
  obtain ⟨u, hu⟩ := routing_message_ok Env.plain_allocs t
    (.routeEntryDel { defaultRoute with tableId := 100 })
  have hrouting := routing_of_ok hs
  have hrun : Lib.Run Step .init [(.plain, .routing (.routeEntryAdd defaultRoute))] s :=
    Lib.Run.nil.snoc hs
  have hlookup : Routing.routeTableLookupId s.routing.ribTreeMaster 100 AF_INET = none := by
    rw [hrouting]
    decide +kernel
  have hslot : (nexthopAddEntry Env.plain.mallocNhNode s.routing.nh defaultRoute.nh).2 = some 0 := by
    rw [hrouting]
    decide +kernel
  have habsent : PrefixAbsent s.routing { defaultRoute with tableId := 100 } :=
    fun i hi => nomatch hlookup.symm.trans hi
  have hfree : (List.range ROUTE_TREE_SIZE).find? (fun i => (s.routing.ribTreeMaster i).isNone)
      = some 1 := by
    rw [hrouting]
    decide +kernel
  have hstored : RouteStored .plain s.routing { defaultRoute with tableId := 100 } := by
    refine (@routeStored_iff _ _ { defaultRoute with tableId := 100 } _ hslot).mpr
      ⟨1, { Radix.ribNew with family := AF_INET, tableId := 100 }, ?_, fun _ _ => rfl⟩
    show Routing.routeTable true s.routing.ribTreeMaster 100 AF_INET = _
    simp only [Routing.routeTable, hlookup, Routing.routeTableAllocSlot, hfree]
    rfl
  have hgone := (hall _ s t u _ _ _ hrun hother habsent ht hstored hu).live.cnt 0 (by decide +kernel)
  rw [routing_of_ok hu, routing_of_ok ht, hrouting] at hgone
  exact absurd hgone (by decide +kernel)

end SdPlane
