import SdPlane.Forwarding
import SdPlane.NexthopContent
import SdPlane.RibFamily
import SdPlane.RouteTrace

/-!
# From the announced routes to the next hop of a packet

A route comes as a message, and a packet asks for a next hop. Between the two lie the next-hop
groups, the RIB trees, the FIB trees that are built from them, the version that is published, and
the two lookups of `_forwarding`. Here the whole way is compared with what it is for: `RouteMap` is
the routes that have been announced and not withdrawn, and `Served` says that every address of both
families gets the first gateway of the longest announced prefix that covers it.

`RoutesAre` connects the two: the RIB has a route just where one is announced, and the group of the
route stands for the announced gateways. It is `Servable` that has to be asked of a message. Three
of its conditions are about the manager and not about the sender. A route of the second family must
not come first, `PORT_GET_REQUEST` publishes empty FIB trees, and a route by content that is
withdrawn takes its group along, whoever else uses it.
-/

set_option autoImplicit false

namespace SdPlane

open Radix (RibTree)
open Fib (fibRouteLookup)

/-! ## The announced routes -/

/-- A route belongs to a family and a prefix. -/
abbrev RoutePlace := Bool × List Bool

/-- The announced routes, with their next hops. -/
abbrev RouteMap := RoutePlace → Option InternalMsgNhEntry

def RouteMap.empty : RouteMap := fun _ => none

def InternalMsgRouteEntry.place (msg : InternalMsgRouteEntry) : RoutePlace :=
  (decide (msg.family = AF_INET), prefixOf msg.dst.dstIpAddr msg.dst.plen)

/-- What a message announces or withdraws. -/
def RouteMap.after (m : RouteMap) : Msg → RouteMap
  | .routing (.routeEntryAdd msg) => Function.update m msg.place (some msg.nh)
  | .routing (.routeEntryDel msg) => Function.update m msg.place none
  | .routing (.nexthopEntryAdd _) | .routing (.nexthopEntryDel _) => m
  | .conf _ | .portGetRequest _ | .unknown _ => m

/-- The answer is the first gateway of the longest prefix that covers the address. -/
def Serves (info : RibInfo) (m : RouteMap) (ipv4 : Bool) (dstIp : IpAddr) : Prop :=
  ∃ answer, routeNexthop info (treeIdx ipv4) dstIp = .ok answer
    ∧ ∃ r, Lib.Longest {x : List Bool × InternalMsgNhEntry | m (ipv4, x.1) = some x.2} (keyBit dstIp) r
      ∧ Option.Rel (fun hop x => hop.same (x.2.members 0).info = true) answer r

/-- The RIB manager, and the routes that have been announced to it. -/
abbrev Announcing := RibState × RouteMap

/-- Whatever version is published serves the announced routes. -/
def Served (s : Announcing) : Prop :=
  ∀ info, s.1.published = some info → ∀ ipv4 dstIp, Serves info s.2 ipv4 dstIp

def AnnouncingStep (s : Announcing) (event : Env × Msg) (t : Announcing) : Prop :=
  Step s.1 event t.1 ∧ t.2 = s.2.after event.2

/-! ## What is asked of a message -/

/-- A route by content, of one of the two families in the main table. -/
structure ContentRoute (msg : InternalMsgRouteEntry) : Prop where
  table : MainTableRoute msg
  isNhid : msg.isNhid = false
  nh : ByContent msg.nh

def SameGateways (a b : InternalMsgNhEntry) : Prop :=
  a.nhcnt = b.nhcnt ∧ ∀ i < b.nhcnt, (a.members i).info.same (b.members i).info = true

/-- The withdrawn route is announced, and it is the only one with its gateways. -/
def OwnGateways (m : RouteMap) (msg : InternalMsgRouteEntry) : Prop :=
  (∃ nh, m msg.place = some nh ∧ SameGateways nh msg.nh)
    ∧ ∀ x nh, m x = some nh → SameGateways nh msg.nh → x = msg.place

/-- No route uses the group. -/
def Unrouted (ribTreeMaster : Nat → Option RibTree) (slot : Nat) : Prop :=
  ∀ x e, routeAt ribTreeMaster x = some e → e.sdplaneNhId ≠ slot

/-- There is memory, and the message is one that the manager gets right. -/
def Servable (s : Announcing) (event : Env × Msg) : Prop :=
  event.1.AllocsOk ∧ match event.2 with
    | .routing (.routeEntryAdd msg) => ContentRoute msg
        ∧ ¬Refused event.1.mallocNhNode s.1.routing.nh msg.nh
        ∧ (msg.family = AF_INET6 → ∃ i < ROUTE_TREE_SIZE, s.1.ribTreeMaster i ≠ none)
    | .routing (.routeEntryDel msg) => ContentRoute msg ∧ OwnGateways s.2 msg
    | .routing (.nexthopEntryAdd _) => True
    | .routing (.nexthopEntryDel nh) => ∀ slot, delSlot s.1.routing.nh nh = some slot →
        Unrouted s.1.ribTreeMaster slot
    | .portGetRequest _ => s.2 = .empty
    | .conf _ | .unknown _ => True

/-! ## The invariant -/

/-- The route uses a group that has the gateways of the entry. -/
def Stands (s : NhState) (e : RouteEntry) (nh : InternalMsgNhEntry) : Prop :=
  ByContent nh ∧ ∃ g < MAX_NEXTHOP_GRP_SIZE, e.sdplaneNhId = (g : Nat)
    ∧ legacyMatch s nh (s.groups g) = true

/-- The RIB and the next hops hold the announced routes. -/
structure RoutesAre (r : Routing) (m : RouteMap) : Prop where
  tables : FamilyTables r.ribTreeMaster
  good : NhGood r.nh
  stored : ∀ ipv4 p, Option.Rel (Stands r.nh) (routeAt r.ribTreeMaster (treeIdx ipv4, p)) (m (ipv4, p))

/-- What is published has its FIB trees. -/
def FibsThere (s : RibState) : Prop :=
  ∀ info, s.published = some info → ∀ i, (s.fibTree i).isSome

theorem routesAre_init : RoutesAre .init .empty where
  tables := familyTables_init
  good := NhGood.init
  stored _ _ := .none

theorem option_rel_map {α β : Type} {r r' : α → β → Prop} {a : Option α} {b : Option β}
    (hrel : Option.Rel r a b) (h : ∀ x y, a = some x → b = some y → r x y → r' x y) :
    Option.Rel r' a b := by
  cases hrel with
  | none => exact .none
  | some hxy => exact .some (h _ _ rfl rfl hxy)

theorem RoutesAre.absent {r : Routing} {m : RouteMap} (h : RoutesAre r m) {ipv4 : Bool}
    {p : List Bool} (hnone : m (ipv4, p) = none) : routeAt r.ribTreeMaster (treeIdx ipv4, p) = none := by
  have hrel := h.stored ipv4 p
  rw [hnone] at hrel
  generalize routeAt r.ribTreeMaster (treeIdx ipv4, p) = route at hrel
  cases hrel with
  | none => rfl

/-! ## A lookup -/

/-- The next hop of a route that stands for an entry is the first gateway of it. -/
theorem Stands.nexthop {s : NhState} {e : RouteEntry} {nh : InternalMsgNhEntry} (h : Stands s e nh) :
    ∃ hop, nexthopGetInfoByIndex s.toNexthop e.sdplaneNhId = some hop
      ∧ hop.same (nh.members 0).info = true := by
  obtain ⟨hcontent, g, hg, hid, hmatch⟩ := h
  obtain ⟨-, -, -, hmembers⟩ := legacyMatch_iff.mp hmatch
  have hfirst := hmembers 0 hcontent.nhcnt
  rw [memberMatch, Bool.and_eq_true, decide_eq_true_eq] at hfirst
  obtain ⟨hnonneg, hsame⟩ := hfirst
  have hrange : ¬((g : Int) < 0 ∨ (g : Int) ≥ MAX_NEXTHOP_GRP_SIZE) := by omega
  have hidx : ((s.groups g).members 0).infoIndex = s.info ⟨g, 0⟩ := rfl
  refine ⟨s.infoPool (s.info ⟨g, 0⟩).toNat, ?_, hsame⟩
  rw [nexthopGetInfoByIndex, hid, if_neg hrange, Int.toNat_natCast, hidx]
  exact if_neg (Int.not_lt.mpr hnonneg)

/-- **The published version answers for the announced routes.** -/
theorem RoutesAre.serves {s : RibState} {m : RouteMap} (h : RoutesAre s.routing m)
    (hapart : FamiliesApart s) {info : RibInfo} (hpub : s.published = some info)
    (hfibs : ∀ i, (info.fibTree i).isSome) (ipv4 : Bool) (dstIp : IpAddr) :
    Serves info m ipv4 dstIp := by
  have hnexthop : info.nexthop = s.routing.nh.toNexthop := by
    show info.nexthop = s.nexthop
    rw [RibState.nexthop, hpub]
    rfl
  obtain ⟨tree, htree⟩ := Option.isSome_iff_exists.mp (hfibs (treeIdx ipv4))
  have hanswers := hapart ipv4
  rw [RibState.fibTree, hpub, Option.map_some, Option.getD_some, htree,
    show s.ribTreeMaster = s.routing.ribTreeMaster from rfl, h.tables.familyRoutes_eq] at hanswers
  have hlongest := Fib.Answers.longest hanswers dstIp
  rw [Fib.look, ← fibRouteLookup] at hlongest
  -- a route that is announced is in the set that the FIB answers for
  have hroute : ∀ p nh, m (ipv4, p) = some nh →
      ∃ e, routeAt s.routing.ribTreeMaster (treeIdx ipv4, p) = some e := by
    intro p nh hp
    have hrel := h.stored ipv4 p
    rw [hp] at hrel
    cases hat : routeAt s.routing.ribTreeMaster (treeIdx ipv4, p) with
    | none =>
      rw [hat] at hrel
      cases hrel
    | some e => exact ⟨e, rfl⟩
  cases hlook : fibRouteLookup tree dstIp with
  | none =>
    rw [hlook] at hlongest
    refine ⟨none, by simp only [routeNexthop, htree, hlook], none, ?_, .none⟩
    rintro ⟨p, nh⟩ hp
    obtain ⟨e, he⟩ := hroute p nh hp
    exact hlongest (p, e.sdplaneNhId) ⟨e, he, rfl⟩
  | some node =>
    rw [hlook] at hlongest
    obtain ⟨⟨e, he, hid⟩, hcovers, hmax⟩ := hlongest
    have hrel := h.stored ipv4 (prefixOf dstIp node.route.1)
    rw [show routeAt s.routing.ribTreeMaster (treeIdx ipv4, prefixOf dstIp node.route.1) = some e
      from he] at hrel
    generalize hm : m (ipv4, prefixOf dstIp node.route.1) = entry at hrel
    cases hrel with
    | @some _ nh hstands =>
      obtain ⟨hop, hget, hsame⟩ := hstands.nexthop
      have hnode : node.nhId = e.sdplaneNhId := hid.symm
      refine ⟨some hop, ?_, some (prefixOf dstIp node.route.1, nh), ⟨hm, hcovers, ?_⟩, .some hsame⟩
      · simp only [routeNexthop, htree, hlook, hnode, hnexthop, hget]
      · rintro ⟨q, nh'⟩ hq
        obtain ⟨e', he'⟩ := hroute q nh' hq
        exact hmax (q, e'.sdplaneNhId) ⟨e', he', rfl⟩

/-! ## One message -/

theorem Stands.mono {s t : NhState} {e : RouteEntry} {nh : InternalMsgNhEntry} (h : Stands s e nh)
    (hkeep : ∀ g < MAX_NEXTHOP_GRP_SIZE, e.sdplaneNhId = (g : Nat) →
      legacyMatch s nh (s.groups g) = true → legacyMatch t nh (t.groups g) = true) :
    Stands t e nh := by
  obtain ⟨hcontent, g, hg, hid, hmatch⟩ := h
  exact ⟨hcontent, g, hg, hid, hkeep g hg hid hmatch⟩

/-- A message about next hops leaves the routes and what they stand for. -/
theorem RoutesAre.nexthops {r : Routing} {m : RouteMap} (h : RoutesAre r m) {nh : NhState}
    (hgood : NhGood nh)
    (hkeep : ∀ x e, routeAt r.ribTreeMaster x = some e → ∀ entry, ∀ g < MAX_NEXTHOP_GRP_SIZE,
      e.sdplaneNhId = (g : Nat) → legacyMatch r.nh entry (r.nh.groups g) = true →
        legacyMatch nh entry (nh.groups g) = true) :
    RoutesAre ⟨nh, r.ribTreeMaster⟩ m where
  tables := h.tables
  good := hgood
  stored ipv4 p := option_rel_map (h.stored ipv4 p) fun e entry he _ hstands =>
    hstands.mono fun g hg hid => hkeep _ e he entry g hg hid

theorem RoutesAre.nexthopAdd {r : Routing} {m : RouteMap} (h : RoutesAre r m) (malloc : Bool)
    (nh : InternalMsgNhEntry) :
    RoutesAre ⟨(nexthopAddEntry malloc r.nh nh).1, r.ribTreeMaster⟩ m :=
  h.nexthops (h.good.add malloc nh) fun _ _ _ _ _ hg _ hmatch => legacyMatch_add h.good hg hmatch

theorem RoutesAre.nexthopDel {r : Routing} {m : RouteMap} (h : RoutesAre r m)
    {nh : InternalMsgNhEntry} (hfree : ∀ slot, delSlot r.nh nh = some slot →
      Unrouted r.ribTreeMaster slot) :
    RoutesAre ⟨(nexthopDelEntry r.nh nh).1, r.ribTreeMaster⟩ m := by
  refine h.nexthops (h.good.del nh) fun x e he entry g hg hid hmatch => ?_
  rw [nexthopDelEntry]
  cases hdel : delSlot r.nh nh with
  | none => exact hmatch
  | some slot =>
    have hslot := h.good.delSlot_lt hdel
    have hne : g ≠ slot := by
      rintro rfl
      exact hfree g hdel x e he hid
    dsimp only
    split
    · -- the hash table is not looked at
      exact legacyMatch_freeGroup (h.good.removeNhid _) hslot hg hne hmatch
    · exact legacyMatch_freeGroup h.good hslot hg hne hmatch

/-- The two tables are there, or there is room for them. -/
theorem FamilyTables.routeTable_isSome {ribTreeMaster : Nat → Option RibTree}
    (h : FamilyTables ribTreeMaster) {family : Int} (hfamily : family = AF_INET ∨ family = AF_INET6) :
    Routing.routeTable true ribTreeMaster RT_TABLE_MAIN family ≠ none := by
  intro hnone
  unfold Routing.routeTable at hnone
  cases hlookup : Routing.routeTableLookupId ribTreeMaster RT_TABLE_MAIN family with
  | some i =>
    rw [hlookup] at hnone
    cases hnone
  | none =>
    rw [hlookup] at hnone
    simp only [Routing.routeTableAllocSlot] at hnone
    split at hnone
    · next hfull =>
      obtain ⟨ipv4, rfl⟩ : ∃ ipv4, family = familyOf ipv4 := by
        rcases hfamily with rfl | rfl
        · exact ⟨true, rfl⟩
        · exact ⟨false, rfl⟩
      have hthere := List.find?_eq_none.mp hfull _ (List.mem_range.mpr (treeIdx_lt ipv4))
      rw [Option.isNone_iff_eq_none] at hthere
      obtain ⟨t, ht⟩ := Option.ne_none_iff_exists'.mp hthere
      obtain ⟨hid, hfam⟩ := h.table ipv4 t ht
      exact routeTableLookupId_none hlookup (treeIdx_lt ipv4) ht hfam hid
    · cases hnone

theorem RoutesAre.routeAdd {env : Env} (hallocs : env.AllocsOk) {r : Routing} {m : RouteMap}
    (h : RoutesAre r m) {msg : InternalMsgRouteEntry} (hmsg : ContentRoute msg)
    (hroom : ¬Refused env.mallocNhNode r.nh msg.nh)
    (hinet6 : msg.family = AF_INET6 → ∃ i < ROUTE_TREE_SIZE, r.ribTreeMaster i ≠ none) :
    RoutesAre (r.routeEntryAdd env msg) (Function.update m msg.place (some msg.nh)) := by
  have htables : FamilyTables (r.routeEntryAdd env msg).ribTreeMaster :=
    h.tables.add hmsg.table fun hinet _ _ => hinet6 hinet
  have hgood : NhGood (r.routeEntryAdd env msg).nh := h.good.routing env (.routeEntryAdd msg)
  refine ⟨htables, hgood, ?_⟩
  have hadded := routeAdded env r msg
  generalize r.routeEntryAdd env msg = r' at hadded
  cases hadded with
  | refused hadd => exact absurd ((refused_iff h.good).mpr (by rw [hadd])) hroom
  | noTable _ htable =>
    rw [hmsg.table.table, hallocs.ribTree] at htable
    exact absurd htable (h.tables.routeTable_isSome hmsg.table.family)
  | @tabled nh slot i t hadd hfound hi htable hfamily htableId =>
    rw [hmsg.table.table] at hfound
    obtain ⟨ipv4, rfl, hof⟩ := h.tables.slot hmsg.table.family hfound htable hfamily
      fun hinet _ => hinet6 hinet
    have hplace : msg.place = (ipv4, prefixOf msg.dst.dstIpAddr msg.dst.plen) := by
      rw [InternalMsgRouteEntry.place, hof]
      cases ipv4 <;> rfl
    have hlt := h.good.addSlot_lt hadd
    have hmemory : ∀ j, j < Radix.missing t.root msg.dst.dstIpAddr 0 msg.dst.plen →
        env.mallocRibNode j = true := fun j _ => by rw [hallocs.ribNode]
    have hnew : legacyMatch nh msg.nh (nh.groups slot) = true := addEntry_matches h.good hmsg.nh hadd
    have hold := h.nexthopAdd env.mallocNhNode msg.nh
    rw [hadd] at hold
    intro b p
    rw [RefcntExact.nexthopIncrement hlt, routeAt_stored htable hmemory, hplace]
    by_cases hhere : (b, p) = (ipv4, prefixOf msg.dst.dstIpAddr msg.dst.plen)
    · obtain ⟨rfl, rfl⟩ := Prod.mk.inj hhere
      rw [if_pos rfl, Function.update_self]
      refine .some ⟨hmsg.nh, slot, hlt, rfl, ?_⟩
      rw [legacyMatch_addRef]
      exact hnew
    · have hother : (treeIdx b, p) ≠ (treeIdx ipv4, prefixOf msg.dst.dstIpAddr msg.dst.plen) := by
        intro heq
        obtain ⟨hidx, rfl⟩ := Prod.mk.inj heq
        exact hhere (by rw [treeIdx_inj hidx])
      rw [if_neg hother, Function.update_of_ne hhere]
      refine option_rel_map (hold.stored b p) fun e entry _ _ hstands => hstands.mono ?_
      intro g _ _ hmatch
      rw [legacyMatch_addRef]
      exact hmatch

/-- Groups that stand for the same entry as `msg` are groups of the same gateways. -/
theorem sameGateways_of_match {s : NhState} {a b : InternalMsgNhEntry} {g : Nat}
    (ha : legacyMatch s a (s.groups g) = true) (hb : legacyMatch s b (s.groups g) = true) :
    SameGateways a b := by
  obtain ⟨-, -, hna, ha⟩ := legacyMatch_iff.mp ha
  obtain ⟨-, -, hnb, hb⟩ := legacyMatch_iff.mp hb
  refine ⟨hna.symm.trans hnb, fun i hi => ?_⟩
  have ha := ha i (by omega)
  have hb := hb i hi
  simp only [memberMatch, NhInfo.same, Bool.and_eq_true, decide_eq_true_eq] at ha hb ⊢
  obtain ⟨-, ⟨hfa, hga⟩, hoa⟩ := ha
  obtain ⟨-, ⟨hfb, hgb⟩, hob⟩ := hb
  exact ⟨⟨hfa.symm.trans hfb, hga.symm.trans hgb⟩, hoa.symm.trans hob⟩

/-- A group of the same gateways is found. -/
theorem legacyMatch_of_sameGateways {s : NhState} {a b : InternalMsgNhEntry} {g : Nat}
    (ha : legacyMatch s a (s.groups g) = true) (hsame : SameGateways a b) :
    legacyMatch s b (s.groups g) = true := by
  obtain ⟨hbusy, hkernel, hcnt, hmembers⟩ := legacyMatch_iff.mp ha
  obtain ⟨hnhcnt, hgateways⟩ := hsame
  refine legacyMatch_iff.mpr ⟨hbusy, hkernel, hcnt.trans hnhcnt, fun i hi => ?_⟩
  have hmember := hmembers i (by omega)
  have hgateway := hgateways i hi
  simp only [memberMatch, NhInfo.same, Bool.and_eq_true, decide_eq_true_eq] at hmember hgateway ⊢
  obtain ⟨hnonneg, ⟨hf, hg⟩, ho⟩ := hmember
  obtain ⟨⟨hf', hg'⟩, ho'⟩ := hgateway
  exact ⟨hnonneg, ⟨hf.trans hf', hg.trans hg'⟩, ho.trans ho'⟩

theorem RoutesAre.routeDel {r : Routing} {m : RouteMap} (h : RoutesAre r m)
    {msg : InternalMsgRouteEntry} (hmsg : ContentRoute msg) (hown : OwnGateways m msg) :
    RoutesAre (r.routeEntryDel msg) (Function.update m msg.place none) := by
  have htables : FamilyTables (r.routeEntryDel msg).ribTreeMaster := h.tables.del
  have hgood : NhGood (r.routeEntryDel msg).nh := h.good.routing .plain (.routeEntryDel msg)
  obtain ⟨⟨nh, hnh, hsame⟩, honly⟩ := hown
  obtain ⟨ipv4, hof⟩ : ∃ ipv4, msg.family = familyOf ipv4 := by
    rcases hmsg.table.family with hfamily | hfamily
    · exact ⟨true, hfamily⟩
    · exact ⟨false, hfamily⟩
  have hplace : msg.place = (ipv4, prefixOf msg.dst.dstIpAddr msg.dst.plen) := by
    rw [InternalMsgRouteEntry.place, hof]
    cases ipv4 <;> rfl
  -- the withdrawn route, and its group
  have hrel := h.stored ipv4 (prefixOf msg.dst.dstIpAddr msg.dst.plen)
  rw [← hplace, hnh] at hrel
  generalize hat : routeAt r.ribTreeMaster
    (treeIdx ipv4, prefixOf msg.dst.dstIpAddr msg.dst.plen) = route at hrel
  cases hrel with
  | @some e _ hstands =>
  obtain ⟨-, g, hg, -, hmatch⟩ := hstands
  have hmatch := legacyMatch_of_sameGateways hmatch hsame
  -- some group with these gateways is freed
  obtain ⟨slot, hdel⟩ : ∃ slot, delSlot r.nh msg.nh = some slot := by
    rw [← Option.isSome_iff_exists, delSlot, if_neg (not_not.mpr hmsg.nh.kernelNhId), sizes_eq]
    exact List.find?_isSome.mpr ⟨g, List.mem_range.mpr hg, hmatch⟩
  have hslot := h.good.delSlot_lt hdel
  have hfreed : legacyMatch r.nh msg.nh (r.nh.groups slot) = true := by
    rw [delSlot, if_neg (not_not.mpr hmsg.nh.kernelNhId)] at hdel
    exact (legacyFind_some hdel).2
  refine ⟨htables, hgood, fun b p => ?_⟩
  have hdeleted := routeDeleted r msg
  have hnexthop : Routing.routeEntryDelNexthop r.nh msg = (freeGroup r.nh slot, some slot) := by
    rw [Routing.routeEntryDelNexthop, hmsg.isNhid, if_neg Bool.false_ne_true]
    exact nexthopDelEntry_legacy hmsg.nh.kernelNhId hdel
  generalize r.routeEntryDel msg = r' at hdeleted
  cases hdeleted with
  | missing hgone => cases hnexthop.symm.trans hgone
  | noTable hgone hnone =>
    obtain ⟨t, ht⟩ : ∃ t, r.ribTreeMaster (treeIdx ipv4) = some t := by
      cases ht : r.ribTreeMaster (treeIdx ipv4) with
      | some t => exact ⟨t, rfl⟩
      | none =>
        rw [routeAt, ht] at hat
        cases hat
    obtain ⟨hid, hfamily⟩ := h.tables.table ipv4 t ht
    exact absurd (hid.trans hmsg.table.table.symm)
      (routeTableLookupId_none hnone (treeIdx_lt ipv4) ht (hfamily.trans hof.symm))
  | @tabled _ slot' i t hgone hlookup hi htable hfamily htableId =>
    obtain ⟨rfl, hslot'⟩ := Prod.mk.inj (hnexthop.symm.trans hgone)
    obtain rfl := Option.some.inj hslot'
    obtain ⟨b', rfl⟩ := eq_treeIdx hi
    obtain rfl : b' = ipv4 :=
      familyOf_inj (((h.tables.table b' t htable).2.symm.trans hfamily).trans hof)
    rw [RefcntExact.nexthopDecrement hslot, routeAt_deleted htable, hplace]
    by_cases hhere : (b, p) = (b', prefixOf msg.dst.dstIpAddr msg.dst.plen)
    · obtain ⟨rfl, rfl⟩ := Prod.mk.inj hhere
      have hremoved : Removed r.ribTreeMaster
          (treeIdx b, prefixOf msg.dst.dstIpAddr msg.dst.plen)
          (treeIdx b, prefixOf msg.dst.dstIpAddr msg.dst.plen) :=
        ⟨rfl, by rw [hat]; rfl⟩
      rw [if_pos hremoved, Function.update_self]
      exact .none
    · have hkept : ¬Removed r.ribTreeMaster
          (treeIdx b', prefixOf msg.dst.dstIpAddr msg.dst.plen) (treeIdx b, p) := by
        rintro ⟨hidx, hp⟩
        rw [hat, if_pos (by rfl)] at hp
        exact hhere (Prod.ext (treeIdx_inj hidx) hp)
      rw [if_neg hkept, Function.update_of_ne hhere]
      refine option_rel_map (h.stored b p) fun e' entry _ hentry hstands => hstands.mono ?_
      intro g' hg' _ hmatch'
      rw [legacyMatch_addRef]
      refine legacyMatch_freeGroup h.good hslot hg' ?_ hmatch'
      rintro rfl
      have heq := honly (b, p) entry hentry (sameGateways_of_match hmatch' hfreed)
      exact hhere (heq.trans hplace)

/-! ## The FIB trees are there -/

theorem stopPorts_published {env : Env} {flag : Bool} {s : RibState} {rib : Option Rib}
    (h : stopPorts env flag s.rib = .ok rib) {info : RibInfo} (hinfo : rib.bind Rib.ribInfo = some info) :
    s.published.isSome := by
  rw [stopPorts] at h
  split at h
  · obtain rfl := Except.ok.inj h
    rw [RibState.published, hinfo]
    rfl
  · obtain ⟨old, hold, -⟩ := bind_ok h
    rw [RibState.published, deref_ok hold]
    rfl

/-- A version that is not rebuilt has been there before. -/
theorem fibTree_of_conf {env : Env} {s t : RibState} {msg : ConfMsg}
    (h : ribManagerProcessMessage env s (.conf msg) = .ok t) {info : RibInfo}
    (hinfo : t.published = some info) :
    t.fibTree = rebuildFibs env s.ribTreeMaster (newFibTrees env 0)
      ∨ s.published.isSome ∧ t.fibTree = s.fibTree := by
  obtain ⟨new, hnew, h⟩ := bind_ok h
  obtain ⟨result, -, h⟩ := bind_ok h
  obtain ⟨-, hfib⟩ := ribCreate_info (deref_ok hnew)
  cases result with
  | none =>
    obtain ⟨rib, hrib, h⟩ := bind_ok h
    obtain rfl := Except.ok.inj h
    exact .inr ⟨stopPorts_published hrib hinfo, (stopPorts_ok hrib).2⟩
  | some result =>
    obtain ⟨-, htree⟩ := publish_ok h
    exact .inl (htree.trans (congrArg _ hfib))

theorem rebuildFibs_isSome {env : Env} {ribTreeMaster : Nat → Option RibTree}
    {fibTree : Nat → Option Fib.FibTree} {i : Nat} (h : (fibTree i).isSome) :
    (rebuildFibs env ribTreeMaster fibTree i).isSome := by
  obtain ⟨fib, hfib⟩ := Option.isSome_iff_exists.mp h
  rw [rebuildFibs, hfib]
  cases ribTreeMaster i with
  | none => rfl
  | some t =>
    dsimp only
    split <;> rfl

theorem FibsThere.step {env : Env} (hallocs : env.AllocsOk) {s t : RibState} {msg : Msg}
    (h : FibsThere s) (hstep : ribManagerProcessMessage env s msg = .ok t) : FibsThere t := by
  intro info hinfo i
  have hnew : ∀ k, (newFibTrees env k i).isSome := fun k => by rw [newFibTrees_ok hallocs]; rfl
  cases processed_of_ok hstep with
  | dropped _ _ =>
    rcases fibTree_of_conf hstep hinfo with hfib | ⟨hpub, hfib⟩
    · rw [hfib]
      exact rebuildFibs_isSome (hnew 0)
    · obtain ⟨old, hold⟩ := Option.isSome_iff_exists.mp hpub
      rw [hfib]
      exact h old hold i
  | portGet _ hfib =>
    rw [hfib]
    exact hnew 1
  | lost hno _ => exact absurd hallocs hno
  | rebuilt _ _ hfib =>
    rw [hfib]
    exact rebuildFibs_isSome (hnew 0)

/-! ## Runs -/

/-- What every servable message keeps. -/
structure Serving (s : Announcing) : Prop where
  routes : RoutesAre s.1.routing s.2
  apart : FamiliesApart s.1
  fibs : FibsThere s.1

theorem Serving.served {s : Announcing} (h : Serving s) : Served s := by
  intro info hinfo ipv4 dstIp
  refine h.routes.serves h.apart hinfo (fun i => ?_) ipv4 dstIp
  have hfib := h.fibs info hinfo i
  rw [RibState.fibTree, hinfo] at hfib
  exact hfib

theorem serving_init : Serving (.init, .empty) where
  routes := routesAre_init
  apart ipv4 := by
    show familyRoutes Routing.init.ribTreeMaster (familyOf ipv4) = ∅
    rw [familyTables_init.familyRoutes_eq]
    exact Set.eq_empty_of_forall_notMem fun x ⟨e, he, _⟩ => by cases he
  fibs info hinfo := by cases hinfo

theorem RoutesAre.message {env : Env} {s : RibState} {m : RouteMap} (h : RoutesAre s.routing m)
    {msg : Msg} (hguard : Servable (s, m) (env, msg)) :
    RoutesAre (msg.onRouting env s.routing) (m.after msg) := by
  obtain ⟨hallocs, hmsg⟩ := hguard
  cases msg with
  | conf msg => exact h
  | portGetRequest portId => exact h
  | unknown type => exact h
  | routing msg =>
    cases msg with
    | routeEntryAdd msg =>
      obtain ⟨hroute, hroom, hinet6⟩ := hmsg
      exact h.routeAdd hallocs hroute hroom hinet6
    | routeEntryDel msg =>
      obtain ⟨hroute, hown⟩ := hmsg
      exact h.routeDel hroute hown
    | nexthopEntryAdd nh => exact h.nexthopAdd env.mallocNhNode nh
    | nexthopEntryDel nh => exact h.nexthopDel hmsg

/-- **One message.** -/
theorem Serving.step {s t : Announcing} {event : Env × Msg} (h : Serving s)
    (hstep : AnnouncingStep s event t) (hguard : Servable s event) : Serving t := by
  obtain ⟨env, msg⟩ := event
  obtain ⟨s, m⟩ := s
  obtain ⟨t, m'⟩ := t
  obtain ⟨hstep, rfl⟩ := hstep
  have hallocs := hguard.1
  have hfibs := FibsThere.step hallocs h.fibs hstep
  have hroutes := h.routes.message hguard
  cases processed_of_ok hstep with
  | dropped hrouting hfib =>
    refine ⟨?_, fun ipv4 => ?_, hfibs⟩
    · rw [hrouting]
      exact hroutes
    · rw [hfib, show t.ribTreeMaster = s.ribTreeMaster from congrArg Routing.ribTreeMaster hrouting]
      exact h.apart ipv4
  | portGet hrouting hfib =>
    refine ⟨?_, fun ipv4 => ?_, hfibs⟩
    · rw [hrouting]
      exact hroutes
    · -- the trees are empty, and so are the tables
      have hempty : m = .empty := hguard.2
      have hnone : ∀ p, routeAt t.ribTreeMaster (treeIdx ipv4, p) = none := fun p => by
        rw [show t.ribTreeMaster = s.routing.ribTreeMaster from congrArg Routing.ribTreeMaster hrouting]
        exact h.routes.absent (congrFun hempty _)
      have htables : FamilyTables t.ribTreeMaster := by
        rw [show t.ribTreeMaster = s.routing.ribTreeMaster from congrArg Routing.ribTreeMaster hrouting]
        exact h.routes.tables
      rw [hfib, newFibTrees_ok hallocs, htables.familyRoutes_eq]
      simp only [hnone, reduceCtorEq, false_and, exists_false, Set.ofPred_false]
      exact Fib.answers_empty rfl
  | lost hno _ => exact absurd hallocs hno
  | rebuilt _ hrouting hfib =>
    rw [← hrouting] at hroutes
    exact ⟨hroutes, hroutes.tables.apart hallocs.fibTree hallocs.fibNode hfib, hfibs⟩

/-- **The announced routes are served** in every version of a run of servable messages. -/
theorem announced_routes_served {events : List (Env × Msg)}
    (h : Lib.Stepwise AnnouncingStep (.init, .empty) Servable events) :
    Lib.Throughout AnnouncingStep (.init, .empty) Served events := by
  have hkeep : ∀ (s : Announcing) (event : Env × Msg) (t : Announcing), True → Serving s →
      AnnouncingStep s event t → Servable s event → Serving t :=
    fun _ _ _ _ hs hstep hguard => hs.step hstep hguard
  have hserving := Lib.throughout_of_stepwise (fun _ => True) trivial (fun _ _ _ _ _ => trivial)
    serving_init hkeep h
  exact fun pre s hpre hrun => (hserving pre s hpre hrun).served

theorem content_defaultRoute : ContentRoute defaultRoute where
  table := ⟨rfl, .inl rfl, rfl⟩
  isNhid := rfl
  nh := ⟨rfl, le_refl 1, fun _ _ => rfl⟩

theorem content_defaultRoute6 : ContentRoute defaultRoute6 where
  table := mainTable_defaultRoute6
  isNhid := rfl
  nh := ⟨rfl, le_refl 1, fun _ _ => rfl⟩

/-- Two default routes come, and the first one goes. -/
theorem announced_routes_served_default :
    Lib.Throughout AnnouncingStep (.init, .empty) Served
      [adding defaultRoute, adding defaultRoute6, (.plain, .routing (.routeEntryDel defaultRoute))] := by
  let r₁ := routingMessage .plain .init (.routeEntryAdd defaultRoute)
  have hstate : ∀ {s : Announcing} {events : List (Env × Msg)} {msg : RoutingMsg} {r : Routing},
      (∀ t, Lib.Run AnnouncingStep (.init, .empty) events t → t.1.routing = r) →
      Lib.Run AnnouncingStep (.init, .empty) (events ++ [(.plain, .routing msg)]) s →
      s.1.routing = routingMessage .plain r msg := by
    intro s events msg r hr hrun
    obtain ⟨t, ht, hstep, -⟩ := hrun.snoc_inv
    rw [routing_of_ok hstep, hr t ht]
  have hinit : ∀ t, Lib.Run AnnouncingStep (.init, .empty) [] t → t.1.routing = .init := by
    intro t ht
    obtain rfl := ht.nil_inv
    rfl
  have hfirst : ∀ t, Lib.Run AnnouncingStep (.init, .empty) [adding defaultRoute] t →
      t.1.routing = r₁ := fun t ht => @hstate t [] _ _ hinit ht
  have hadd : Lib.Stepwise AnnouncingStep (.init, .empty) Servable [adding defaultRoute] := by
    refine Lib.Stepwise.snoc Lib.stepwise_nil fun s t hrun _ => ?_
    refine ⟨Env.plain_allocs, content_defaultRoute, ?_, fun h => absurd h (by decide)⟩
    have hgood : NhGood Routing.init.nh := NhGood.init
    rw [hinit s hrun, refused_iff hgood]
    decide +kernel
  have hadd6 : Lib.Stepwise AnnouncingStep (.init, .empty) Servable
      [adding defaultRoute, adding defaultRoute6] := by
    refine hadd.snoc fun s t hrun _ => ?_
    have hgood : NhGood r₁.nh := NhGood.routing NhGood.init .plain (.routeEntryAdd defaultRoute)
    refine ⟨Env.plain_allocs, content_defaultRoute6, ?_, fun _ => ⟨0, by decide, ?_⟩⟩
    · rw [hfirst s hrun, refused_iff hgood]
      decide +kernel
    · rw [show s.1.ribTreeMaster = r₁.ribTreeMaster from congrArg Routing.ribTreeMaster (hfirst s hrun)]
      have hsome : (r₁.ribTreeMaster 0).isSome = true := by decide +kernel
      exact Option.isSome_iff_ne_none.mp hsome
  refine announced_routes_served (hadd6.snoc fun s t hrun _ => ?_)
  refine ⟨Env.plain_allocs, content_defaultRoute, ?_⟩
  obtain ⟨s₁, hrun₁, -, hmap⟩ := @Lib.Run.snoc_inv _ _ _ _ [adding defaultRoute] _ _ hrun
  obtain ⟨s₀, hrun₀, -, hmap₁⟩ := @Lib.Run.snoc_inv _ _ _ _ [] _ _ hrun₁
  obtain rfl := hrun₀.nil_inv
  have hmap : s.2 = Function.update (Function.update RouteMap.empty defaultRoute.place (some defaultRoute.nh))
      defaultRoute6.place (some defaultRoute6.nh) := by
    rw [hmap, hmap₁]
    rfl
  have hplaces : defaultRoute.place ≠ defaultRoute6.place := by decide
  rw [hmap]
  refine ⟨⟨defaultRoute.nh, ?_, rfl, fun _ _ => rfl⟩, fun x nh hx hsame => ?_⟩
  · rw [Function.update_of_ne hplaces, Function.update_self]
  · by_contra hne
    by_cases hx6 : x = defaultRoute6.place
    · rw [hx6, Function.update_self] at hx
      obtain rfl := Option.some.inj hx
      exact absurd (hsame.2 0 (by decide)) (by decide)
    · rw [Function.update_of_ne hx6, Function.update_of_ne hne] at hx
      cases hx

end SdPlane
