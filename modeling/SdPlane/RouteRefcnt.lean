import SdPlane.NexthopRefs
import SdPlane.RibPublish

/-!
# The reference counts of groups, with the routes

`RefBalance` counts the members of groups and leaves open what the routes add. Here the RIB is
part of the count: `routeKeys` are the places where routes are, and `RefcntExact` says that the
count of a group is the number of routes that use it plus the number of members that refer to it.

The RIB manager moves a count by one for every message about a route, whatever the message does to
the RIB. A route that replaces another one is counted twice. A route that is deleted by its
content has its group freed first, shared or not, and the count of the free slot goes down to `-1`.
`CountSafe` says when a message is one that the count agrees with.
-/

set_option autoImplicit false

namespace SdPlane

open Radix (RibTree RibNode ribNew routes)

/-! ## The places of routes -/

/-- The prefixes below a node that have a route. -/
def Radix.RibNode.keys : RibNode → Finset (List Bool)
  | .null => ∅
  | .node valid _ left right =>
    (if valid then {[]} else ∅) ∪ left.keys.image (List.cons false) ∪ right.keys.image (List.cons true)

theorem Radix.RibNode.mem_keys (n : RibNode) (p : List Bool) :
    p ∈ n.keys ↔ (routes n p).isSome := by
  induction n generalizing p with
  | null => simp [keys]
  | node valid entry left right ihl ihr =>
    cases p with
    | nil => cases valid <;> simp [keys]
    | cons b p => cases valid <;> cases b <;> simp [keys, ihl, ihr]

/-- The places of the RIB that have a route. -/
def routeKeys (ribTreeMaster : Nat → Option RibTree) : Finset RouteKey :=
  (Finset.range ROUTE_TREE_SIZE).biUnion fun i =>
    match ribTreeMaster i with
    | none => ∅
    | some t => t.root.keys.image (Prod.mk i)

theorem mem_routeKeys {ribTreeMaster : Nat → Option RibTree} {x : RouteKey} :
    x ∈ routeKeys ribTreeMaster ↔ x.1 < ROUTE_TREE_SIZE ∧ (routeAt ribTreeMaster x).isSome := by
  obtain ⟨i, p⟩ := x
  unfold routeKeys
  rw [Finset.mem_biUnion]
  constructor
  · rintro ⟨j, hj, hp⟩
    cases ht : ribTreeMaster j with
    | none =>
      rw [ht] at hp
      exact absurd hp (Finset.notMem_empty _)
    | some t =>
      rw [ht] at hp
      obtain ⟨q, hq, hqp⟩ := Finset.mem_image.mp hp
      obtain ⟨rfl, rfl⟩ := Prod.mk.inj hqp
      refine ⟨Finset.mem_range.mp hj, ?_⟩
      rw [routeAt, ht, Option.bind_some]
      exact (t.root.mem_keys q).mp hq
  · rintro ⟨hi, hp⟩
    refine ⟨i, Finset.mem_range.mpr hi, ?_⟩
    cases ht : ribTreeMaster i with
    | none =>
      rw [routeAt, ht] at hp
      cases hp
    | some t =>
      rw [routeAt, ht, Option.bind_some] at hp
      exact Finset.mem_image.mpr ⟨p, (t.root.mem_keys p).mpr hp, rfl⟩

/-- The group that the route at a place uses. -/
def nhIdAt (ribTreeMaster : Nat → Option RibTree) (x : RouteKey) : Int :=
  ((routeAt ribTreeMaster x).map RouteEntry.sdplaneNhId).getD (-1)

/-- The number of routes that use a group. -/
def routeRefs (ribTreeMaster : Nat → Option RibTree) (g : Nat) : Int :=
  Lib.refs (routeKeys ribTreeMaster) (nhIdAt ribTreeMaster) (g : Int)

section Routes

variable {ribTreeMaster ribTreeMaster' : Nat → Option RibTree} {y : RouteKey} {e : RouteEntry}

/-- A route comes where there was none. -/
theorem routeRefs_added (hy : y.1 < ROUTE_TREE_SIZE) (hnone : routeAt ribTreeMaster y = none)
    (h : ∀ x, routeAt ribTreeMaster' x = if x = y then some e else routeAt ribTreeMaster x) (g : Nat) :
    routeRefs ribTreeMaster' g = routeRefs ribTreeMaster g + if e.sdplaneNhId = g then 1 else 0 := by
  have hfresh : y ∉ routeKeys ribTreeMaster := by
    rw [mem_routeKeys, hnone]
    exact fun h => nomatch h.2
  have hkeys : routeKeys ribTreeMaster' = insert y (routeKeys ribTreeMaster) := by
    ext x
    rw [Finset.mem_insert, mem_routeKeys, mem_routeKeys, h]
    by_cases hx : x = y
    · rw [if_pos hx, hx]
      exact iff_of_true ⟨hy, rfl⟩ (.inl rfl)
    · rw [if_neg hx, or_iff_right hx]
  have hsame : ∀ x ∈ routeKeys ribTreeMaster, nhIdAt ribTreeMaster x = nhIdAt ribTreeMaster' x := by
    intro x hx
    have hne : x ≠ y := fun heq => hfresh (heq ▸ hx)
    rw [nhIdAt, nhIdAt, h, if_neg hne]
  have hnew : nhIdAt ribTreeMaster' y = e.sdplaneNhId := by
    rw [nhIdAt, h, if_pos rfl]
    rfl
  rw [routeRefs, hkeys, Lib.refs_insert hfresh hsame, hnew, routeRefs]

/-- The one route of those to be removed goes. -/
theorem routeRefs_removed {P : RouteKey → Prop} [DecidablePred P] (hy : y.1 < ROUTE_TREE_SIZE)
    (hsome : routeAt ribTreeMaster y = some e) (hP : P y)
    (honly : ∀ x, P x → x ≠ y → routeAt ribTreeMaster x = none)
    (h : ∀ x, routeAt ribTreeMaster' x = if P x then none else routeAt ribTreeMaster x) (g : Nat) :
    routeRefs ribTreeMaster' g = routeRefs ribTreeMaster g - if e.sdplaneNhId = g then 1 else 0 := by
  have hroute : ∀ x, routeAt ribTreeMaster' x = if x = y then none else routeAt ribTreeMaster x := by
    intro x
    rw [h]
    by_cases hx : x = y
    · rw [if_pos hx, if_pos (hx ▸ hP)]
    · rw [if_neg hx]
      by_cases hPx : P x
      · rw [if_pos hPx, honly x hPx hx]
      · rw [if_neg hPx]
  have hmem : y ∈ routeKeys ribTreeMaster := mem_routeKeys.mpr ⟨hy, by rw [hsome]; rfl⟩
  have hkeys : routeKeys ribTreeMaster' = (routeKeys ribTreeMaster).erase y := by
    ext x
    rw [Finset.mem_erase, mem_routeKeys, mem_routeKeys, hroute]
    by_cases hx : x = y
    · rw [if_pos hx]
      exact iff_of_false (fun h => nomatch h.2) fun h => h.1 hx
    · rw [if_neg hx, and_iff_right hx]
  have hsame : ∀ x ∈ (routeKeys ribTreeMaster).erase y,
      nhIdAt ribTreeMaster x = nhIdAt ribTreeMaster' x := by
    intro x hx
    rw [nhIdAt, nhIdAt, hroute, if_neg (Finset.ne_of_mem_erase hx)]
  have hold : nhIdAt ribTreeMaster y = e.sdplaneNhId := by
    rw [nhIdAt, hsome]
    rfl
  rw [routeRefs, hkeys, Lib.refs_erase hmem hsame, hold, routeRefs]

end Routes

/-! ## The counts -/

/-- The count of every group is exact, and not negative. -/
structure RefcntExact (r : Routing) : Prop where
  exact : ∀ g, r.nh.refcnt g = Lib.refs (live r.nh) r.nh.ref (g : Int) + routeRefs r.ribTreeMaster g
  nonneg : ∀ g, 0 ≤ r.nh.refcnt g

theorem refcntExact_iff {r : Routing} :
    RefcntExact r ↔ RefBalance (fun _ => True) (routeRefs r.ribTreeMaster) (live r.nh) r.nh := by
  constructor
  · exact fun h g _ => h.exact g
  · intro h
    refine ⟨fun g => h g trivial, fun g => ?_⟩
    rw [h g trivial]
    have hmembers := Lib.refs_nonneg (live r.nh) r.nh.ref (g : Int)
    have hroutes := Lib.refs_nonneg (routeKeys r.ribTreeMaster) (nhIdAt r.ribTreeMaster) (g : Int)
    exact Int.add_nonneg hmembers hroutes

/-- A reference of a route comes or goes, and so does the route. -/
theorem RefBalance.route {c c' : Nat → Int} {s : NhState}
    (h : RefBalance (fun _ => True) c (live s) s) {slot : Nat} {d : Int}
    (hc : ∀ g, c' g = c g + if g = slot then d else 0) :
    RefBalance (fun _ => True) c' (live (s.addRef slot d)) (s.addRef slot d) := by
  have hmoved := h.addRef slot d
  rw [live_addRef]
  intro g hg
  rw [hmoved g hg, hc]

/-! ## When a message counts right -/

/-- The route of the message is stored, at a place where there was none. -/
def StoredNew (env : Env) (r : Routing) (msg : InternalMsgRouteEntry) : Prop :=
  ∃ i t, Routing.routeTable env.mallocRibTree r.ribTreeMaster msg.tableId msg.family
      = some (i, Function.update r.ribTreeMaster i (some t))
    ∧ (∀ j, j < Radix.missing t.root msg.dst.dstIpAddr 0 msg.dst.plen → env.mallocRibNode j = true)
    ∧ routeAt r.ribTreeMaster (i, prefixOf msg.dst.dstIpAddr msg.dst.plen) = none

/-- Of the routes that go with the message there is one, which uses the group. -/
def RemovesOne (r : Routing) (msg : InternalMsgRouteEntry) (slot : Nat) : Prop :=
  ∃ i, Routing.routeTableLookupId r.ribTreeMaster msg.tableId msg.family = some i
    ∧ ∃ y e, routeAt r.ribTreeMaster y = some e ∧ e.sdplaneNhId = slot
      ∧ Removed r.ribTreeMaster (i, prefixOf msg.dst.dstIpAddr msg.dst.plen) y
      ∧ ∀ x, Removed r.ribTreeMaster (i, prefixOf msg.dst.dstIpAddr msg.dst.plen) x → x ≠ y →
        routeAt r.ribTreeMaster x = none

/-- Nothing refers to the group but, it may be, itself. -/
def Unused (r : Routing) (slot : Nat) : Prop :=
  routeRefs r.ribTreeMaster slot = 0 ∧ ∀ p ∈ live r.nh, p.1 ≠ slot → r.nh.ref p ≠ slot

def CountSafe (env : Env) (r : Routing) : RoutingMsg → Prop
  | .routeEntryAdd msg =>
    (findExisting r.nh msg.nh = none → AddSafe env.mallocNhNode r.nh msg.nh)
      ∧ ((nexthopAddEntry env.mallocNhNode r.nh msg.nh).2.isSome → StoredNew env r msg)
  | .routeEntryDel msg =>
    if msg.isNhid then ∀ slot, nexthopGetIndexByNhid r.nh msg.nh.kernelNhId = some slot →
      RemovesOne r msg slot
    else delSlot r.nh msg.nh = none
  | .nexthopEntryAdd nh => findExisting r.nh nh = none → AddSafe env.mallocNhNode r.nh nh
  | .nexthopEntryDel nh => ∀ slot, delSlot r.nh nh = some slot → Unused r slot

/-! ## Messages -/

theorem NhGood.routing {r : Routing} (h : NhGood r.nh) (env : Env) (msg : RoutingMsg) :
    NhGood (routingMessage env r msg).nh := by
  cases msg with
  | routeEntryAdd msg =>
    have hadded := routeAdded env r msg
    have hgood := h.add env.mallocNhNode msg.nh
    show NhGood (r.routeEntryAdd env msg).nh
    generalize r.routeEntryAdd env msg = r' at hadded
    cases hadded with
    | refused hadd =>
      rw [hadd] at hgood
      exact hgood
    | noTable hadd =>
      rw [hadd] at hgood
      exact hgood.addRefcnt _ 1
    | tabled hadd =>
      rw [hadd] at hgood
      exact hgood.addRefcnt _ 1
  | routeEntryDel msg =>
    have hdeleted := routeDeleted r msg
    have hgood : NhGood (Routing.routeEntryDelNexthop r.nh msg).1 := by
      unfold Routing.routeEntryDelNexthop
      split
      · exact h
      · exact h.del msg.nh
    show NhGood (r.routeEntryDel msg).nh
    generalize r.routeEntryDel msg = r' at hdeleted
    cases hdeleted with
    | missing hdel =>
      rw [hdel] at hgood
      exact hgood
    | noTable hdel =>
      rw [hdel] at hgood
      exact hgood.addRefcnt _ (-1)
    | tabled hdel =>
      rw [hdel] at hgood
      exact hgood.addRefcnt _ (-1)
  | nexthopEntryAdd nh => exact h.add env.mallocNhNode nh
  | nexthopEntryDel nh => exact h.del nh

namespace RefcntExact

variable {env : Env} {r : Routing}

theorem nexthopIncrement {s : NhState} {slot : Nat} (h : slot < MAX_NEXTHOP_GRP_SIZE) :
    nexthopIncrementRefcnt s slot = s.addRef slot 1 := by
  unfold nexthopIncrementRefcnt nexthopAddRefcnt
  rw [if_pos ⟨Int.natCast_nonneg slot, Int.ofNat_lt.mpr h⟩, Int.toNat_natCast]

theorem nexthopDecrement {s : NhState} {slot : Nat} (h : slot < MAX_NEXTHOP_GRP_SIZE) :
    nexthopDecrementRefcnt s slot = s.addRef slot (-1) := by
  unfold nexthopDecrementRefcnt nexthopAddRefcnt
  rw [if_pos ⟨Int.natCast_nonneg slot, Int.ofNat_lt.mpr h⟩, Int.toNat_natCast]

theorem nexthopAdd (h : RefcntExact r) (hgood : NhGood r.nh) {nh : InternalMsgNhEntry}
    (hsafe : findExisting r.nh nh = none → AddSafe env.mallocNhNode r.nh nh) :
    RefcntExact ⟨(nexthopAddEntry env.mallocNhNode r.nh nh).1, r.ribTreeMaster⟩ :=
  refcntExact_iff.mpr (refBalance_nexthopAddEntry (refcntExact_iff.mp h)
    (fun _ => Lib.refs_nonneg ..) hgood.top env.mallocNhNode nh hsafe)

theorem nexthopDel (h : RefcntExact r) (hgood : NhGood r.nh) {nh : InternalMsgNhEntry}
    (hsafe : ∀ slot, delSlot r.nh nh = some slot → Unused r slot) :
    RefcntExact ⟨(nexthopDelEntry r.nh nh).1, r.ribTreeMaster⟩ := by
  rw [refcntExact_iff] at h ⊢
  unfold nexthopDelEntry
  cases hdel : delSlot r.nh nh with
  | none => exact h
  | some slot =>
    have hslot := hgood.delSlot_lt hdel
    obtain ⟨hroutes, hmembers⟩ := hsafe slot hdel
    dsimp only
    split
    · have hremoved : RefBalance (fun _ => True) (routeRefs r.ribTreeMaster)
          (live (removeNhid r.nh nh.kernelNhId)) (removeNhid r.nh nh.kernelNhId) :=
        h.congr (fun _ _ => rfl) fun _ _ => rfl
      exact refBalance_freeGroup hremoved hslot fun _ => ⟨hroutes, hmembers⟩
    · exact refBalance_freeGroup h hslot fun _ => ⟨hroutes, hmembers⟩

theorem routeAdd (h : RefcntExact r) (hgood : NhGood r.nh) {msg : InternalMsgRouteEntry}
    (hsafe : CountSafe env r (.routeEntryAdd msg)) : RefcntExact (r.routeEntryAdd env msg) := by
  obtain ⟨hadd, hstored⟩ := hsafe
  have hbal := refcntExact_iff.mp (h.nexthopAdd hgood hadd)
  have hadded := routeAdded env r msg
  generalize r.routeEntryAdd env msg = r' at hadded
  cases hadded with
  | refused hadd =>
    rw [hadd] at hbal
    exact refcntExact_iff.mpr hbal
  | noTable hadd htable =>
    obtain ⟨i, t, hfound, -⟩ := hstored (by rw [hadd]; rfl)
    cases htable.symm.trans hfound
  | @tabled nh slot i t hadd hfound hi htable =>
    obtain ⟨i', t', hfound', hmemory, hnone⟩ := hstored (by rw [hadd]; rfl)
    obtain ⟨rfl, hupdate⟩ := Prod.mk.inj (Option.some.inj (hfound.symm.trans hfound'))
    obtain rfl : t = t' := by simpa using congrFun hupdate i
    have hroutes := routeRefs_added hi hnone (routeAt_stored htable hmemory ⟨msg.dst, slot⟩)
    rw [hadd] at hbal
    rw [refcntExact_iff, nexthopIncrement (hgood.addSlot_lt hadd)]
    refine hbal.route fun g => ?_
    rw [hroutes]
    simp only [Nat.cast_inj, eq_comm]

theorem routeDel (h : RefcntExact r) (hgood : NhGood r.nh) {msg : InternalMsgRouteEntry}
    (hsafe : CountSafe env r (.routeEntryDel msg)) : RefcntExact (r.routeEntryDel msg) := by
  -- the next hops, and the slot where there is one
  have hnexthop : ∀ {nh : NhState} {slot : Option Nat},
      Routing.routeEntryDelNexthop r.nh msg = (nh, slot) → nh = r.nh
        ∧ ∀ g, slot = some g → g < MAX_NEXTHOP_GRP_SIZE ∧ RemovesOne r msg g := by
    intro nh slot hdel
    unfold Routing.routeEntryDelNexthop at hdel
    unfold CountSafe at hsafe
    dsimp only at hsafe
    split at hdel
    · next hnhid =>
      rw [if_pos hnhid] at hsafe
      obtain ⟨rfl, rfl⟩ := Prod.mk.inj hdel
      exact ⟨rfl, fun g hg =>
        ⟨hgood.slots _ _ (nexthopGetIndexByNhid_eq_some.mp hg).2.2, hsafe g hg⟩⟩
    · next hnhid =>
      rw [if_neg hnhid] at hsafe
      rw [nexthopDelEntry, hsafe] at hdel
      obtain ⟨rfl, rfl⟩ := Prod.mk.inj hdel
      exact ⟨rfl, nofun⟩
  have hdeleted := routeDeleted r msg
  generalize r.routeEntryDel msg = r' at hdeleted
  cases hdeleted with
  | missing hdel =>
    obtain ⟨rfl, -⟩ := hnexthop hdel
    exact h
  | noTable hdel htable =>
    obtain ⟨i, hlookup, -⟩ := ((hnexthop hdel).2 _ rfl).2
    cases htable.symm.trans hlookup
  | @tabled nh slot i t hdel hlookup hi htable =>
    obtain ⟨rfl, hslot⟩ := hnexthop hdel
    obtain ⟨hlt, i', hlookup', y, e, hsome, hid, hremoved, honly⟩ := hslot _ rfl
    obtain rfl := Option.some.inj (hlookup.symm.trans hlookup')
    have hroutes := routeRefs_removed (hremoved.1 ▸ hi) hsome hremoved honly
      (routeAt_deleted htable msg.dst)
    rw [refcntExact_iff, nexthopDecrement hlt]
    refine (refcntExact_iff.mp h).route fun g => ?_
    rw [hroutes, hid]
    simp only [Nat.cast_inj, eq_comm]
    split <;> omega

/-- **A safe message keeps the counts exact.** -/
theorem step (h : RefcntExact r) (hgood : NhGood r.nh) {msg : RoutingMsg}
    (hsafe : CountSafe env r msg) : RefcntExact (routingMessage env r msg) := by
  cases msg with
  | routeEntryAdd msg => exact h.routeAdd hgood hsafe
  | routeEntryDel msg => exact h.routeDel hgood hsafe
  | nexthopEntryAdd nh => exact h.nexthopAdd hgood hsafe
  | nexthopEntryDel nh => exact h.nexthopDel hgood hsafe

theorem init : RefcntExact .init := by
  have hmembers : live Routing.init.nh = ∅ := by
    rw [Finset.eq_empty_iff_forall_notMem]
    intro p hp
    exact absurd (mem_places.mp hp).2 (Nat.not_lt_zero _)
  have hroutes : routeKeys Routing.init.ribTreeMaster = ∅ := by
    rw [Finset.eq_empty_iff_forall_notMem]
    intro x hx
    cases (mem_routeKeys.mp hx).2
  refine ⟨fun g => ?_, fun g => le_refl _⟩
  rw [hmembers, routeRefs, hroutes]
  rfl

end RefcntExact

/-! ## Runs -/

/-- One message about routes or next hops, in any world. -/
def RoutingStep (s : RibState) (event : Env × RoutingMsg) (t : RibState) : Prop :=
  ribManagerProcessMessage event.1 s (.routing event.2) = .ok t

/-- The routes and next hops after messages about them. -/
def routed (events : List (Env × RoutingMsg)) : Routing :=
  events.foldl (fun r e => routingMessage e.1 r e.2) .init

theorem routing_of_run {events : List (Env × RoutingMsg)} {s : RibState}
    (h : Lib.Run RoutingStep .init events s) : s.routing = routed events := by
  induction h with
  | nil => rfl
  | snoc _ last ih =>
    rw [routing_of_ok last, ih, routed, routed, List.foldl_append]
    rfl

/-- **The counts are exact throughout a run of safe messages.** -/
theorem refcnt_exact_throughout {events : List (Env × RoutingMsg)}
    (hsafe : Lib.Stepwise RoutingStep .init (fun s e => CountSafe e.1 s.routing e.2) events) :
    Lib.Throughout RoutingStep .init (fun s => RefcntExact s.routing) events := by
  refine Lib.throughout_of_stepwise (fun s => NhGood s.routing.nh) NhGood.init
    (fun s e t hs h => ?_) .init (fun s e t hs hexact h hsafe => ?_) hsafe
  · show NhGood t.routing.nh
    rw [routing_of_ok h]
    exact hs.routing e.1 e.2
  · show RefcntExact t.routing
    rw [routing_of_ok h]
    exact hexact.step hs hsafe

/-- A route that is deleted as it has been added leaves a count of `-1`. -/
theorem refcnt_negative : ¬ ∀ events : List (Env × RoutingMsg),
    Lib.Throughout RoutingStep .init (fun s => RefcntExact s.routing) events := by
  intro hall
  obtain ⟨s, hs⟩ := routing_message_ok Env.plain_allocs .init (.routeEntryAdd defaultRoute)
  obtain ⟨t, ht⟩ := routing_message_ok Env.plain_allocs s (.routeEntryDel defaultRoute)
  have hfirst : RoutingStep .init (.plain, .routeEntryAdd defaultRoute) s := hs
  have hsecond : RoutingStep s (.plain, .routeEntryDel defaultRoute) t := ht
  have hexact := hall _ _ t List.prefix_rfl ((Lib.Run.nil.snoc hfirst).snoc hsecond)
  have hnonneg : 0 ≤ t.routing.nh.refcnt 0 := hexact.nonneg 0
  rw [routing_of_ok ht, routing_of_ok hs] at hnonneg
  have hnegative : (routingMessage .plain (routingMessage .plain .init (.routeEntryAdd defaultRoute))
      (.routeEntryDel defaultRoute)).nh.refcnt 0 = -1 := by decide +kernel
  rw [routing_init, hnegative] at hnonneg
  exact absurd hnonneg (by decide)

/-- A next hop with a kernel id. -/
def gatewayEntry (kernelNhId : Int) : InternalMsgNhEntry :=
  ⟨kernelNhId, 1, fun _ => ⟨0, ⟨AF_INET, .gateway, .zero, 1, 0⟩, 1⟩, one_le_maxEcmpEntry⟩

theorem addSafe_gatewayEntry {malloc : Bool} {s : NhState} {k : Int}
    (h : ∀ slot, findSlot s = some slot → s.refcnt slot = 0) : AddSafe malloc s (gatewayEntry k) where
  slot := h
  free hmulti := absurd hmulti.1 (Nat.lt_irrefl 1)
  named hmulti := absurd hmulti.1 (Nat.lt_irrefl 1)
  back _ _ _ _ _ := .inl rfl

/-- Two next hops, and a route by the second one. -/
theorem refcnt_exact_throughout_shared :
    Lib.Throughout RoutingStep .init (fun s => RefcntExact s.routing)
      [(.plain, .nexthopEntryAdd (gatewayEntry 1)), (.plain, .nexthopEntryAdd (gatewayEntry 2)),
        (.plain, .routeEntryAdd { defaultRoute with nh := gatewayEntry 2, isNhid := true })] := by
  refine refcnt_exact_throughout (((Lib.stepwise_nil.snoc ?_).snoc ?_).snoc ?_)
  · intro s t hrun _ _
    rw [routing_of_run hrun]
    exact addSafe_gatewayEntry fun _ _ => rfl
  · intro s t hrun _ _
    rw [routing_of_run hrun]
    refine addSafe_gatewayEntry fun slot hslot => ?_
    have hone : findSlot (routingMessage .plain .init (.nexthopEntryAdd (gatewayEntry 1))).nh = some 1 :=
      by decide +kernel
    obtain rfl := Option.some.inj (hone.symm.trans hslot)
    decide +kernel
  · intro s t hrun _
    rw [routing_of_run hrun]
    refine ⟨fun hnew => ?_, fun _ =>
      ⟨0, { ribNew with family := AF_INET, tableId := 254 }, rfl, fun _ _ => rfl, rfl⟩⟩
    have hthere : findExisting (routingMessage .plain (routingMessage .plain .init
        (.nexthopEntryAdd (gatewayEntry 1))) (.nexthopEntryAdd (gatewayEntry 2))).nh (gatewayEntry 2)
          = some 1 := by decide +kernel
    cases hthere.symm.trans hnew

end SdPlane
