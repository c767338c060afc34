import SdPlane.RibPublish

/-!
# The two address families

`_forwarding` looks an IPv4 packet up in FIB tree 0 and an IPv6 packet in FIB tree 1. The trees
are built from `rib_tree_master` slot by slot, and there the slots go to families in the order in
which their first routes arrive. Nothing connects the two but that order: when an `AF_INET`
route comes first, the families are where `_forwarding` looks for them (`familiesApart`), and
when an `AF_INET6` route does, both packets are looked up among the routes of the other family.
-/

set_option autoImplicit false

namespace SdPlane

open Radix (RibTree Labelled routes rebuildFibFromRib fibTable ribRouteAdd ribRouteDelete)
open Fib (FibTree FibNode fibNew fibRouteLookup mallocOk Answers)

def RT_TABLE_MAIN : Int := 254

/-- `tree_idx` of `_forwarding`. -/
def treeIdx (ipv4 : Bool) : Nat := if ipv4 then 0 else 1

/-- The family of the packets that are looked up in a tree. -/
def familyOf (ipv4 : Bool) : Int := if ipv4 then AF_INET else AF_INET6

/-- The routes of a family, as prefixes with their next hops. -/
def familyRoutes (ribTreeMaster : Nat → Option RibTree) (family : Int) : Set (List Bool × Int) :=
  {x | ∃ i < ROUTE_TREE_SIZE, ∃ e, routeAt ribTreeMaster (i, x.1) = some e
    ∧ e.dst.family = family ∧ e.sdplaneNhId = x.2}

/-- A FIB tree holds exactly these routes. One that is not there holds none. -/
def Holds (fib : Option FibTree) (S : Set (List Bool × Int)) : Prop :=
  match fib with
  | none => S = ∅
  | some fib => Answers fib S

/-- The trees that `_forwarding` consults hold the routes of the family of its packets. -/
def FamiliesApart (s : RibState) : Prop :=
  ∀ ipv4, Holds (s.fibTree (treeIdx ipv4)) (familyRoutes s.ribTreeMaster (familyOf ipv4))

/-! ## The messages -/

/-- A route of one of the two families in the main table. -/
structure MainTableRoute (msg : InternalMsgRouteEntry) : Prop where
  table : msg.tableId = RT_TABLE_MAIN
  family : msg.family = AF_INET ∨ msg.family = AF_INET6
  dst : msg.dst.family = msg.family

/-- The messages about such routes. -/
inductive MainTableMsg : Msg → Prop
  | add {msg : InternalMsgRouteEntry} (h : MainTableRoute msg) :
      MainTableMsg (.routing (.routeEntryAdd msg))
  | del {msg : InternalMsgRouteEntry} (h : MainTableRoute msg) :
      MainTableMsg (.routing (.routeEntryDel msg))

def MainTableStep (s : RibState) (event : Env × Msg) (t : RibState) : Prop :=
  MainTableMsg event.2 ∧ Step s event t

/-- The memory for the FIB is there, and the first table is not made for an `AF_INET6` route: while
    there is none, the next hop of such a route is refused, or `rib_new` fails. -/
structure InetFirst (s : RibState) (event : Env × Msg) : Prop where
  fibTree : event.1.mallocFibTree = fun _ _ => true
  fibNode : event.1.mallocFibNode = fun _ _ => true
  inet6 : ∀ msg, event.2 = .routing (.routeEntryAdd msg) → msg.family = AF_INET6 →
    (nexthopAddEntry event.1.mallocNhNode s.routing.nh msg.nh).2 ≠ none →
    event.1.mallocRibTree = true → ∃ i < ROUTE_TREE_SIZE, s.ribTreeMaster i ≠ none

/-! ## The tables -/

/-- The slots belong to the families that `_forwarding` takes them to. -/
structure FamilyTables (ribTreeMaster : Nat → Option RibTree) : Prop where
  labelled : TablesLabelled ribTreeMaster
  table : ∀ ipv4 t, ribTreeMaster (treeIdx ipv4) = some t →
    t.tableId = RT_TABLE_MAIN ∧ t.family = familyOf ipv4
  route : ∀ ipv4 p e, routeAt ribTreeMaster (treeIdx ipv4, p) = some e →
    e.dst.family = familyOf ipv4

theorem familyTables_init : FamilyTables Routing.init.ribTreeMaster where
  labelled := tablesLabelled_init
  table _ _ h := nomatch h
  route _ _ _ h := nomatch h

theorem treeIdx_lt (ipv4 : Bool) : treeIdx ipv4 < ROUTE_TREE_SIZE := by cases ipv4 <;> decide

/-- Both slots are consulted for some family. -/
theorem eq_treeIdx {i : Nat} (h : i < ROUTE_TREE_SIZE) : ∃ ipv4, i = treeIdx ipv4 := by
  match i, h with
  | 0, _ => exact ⟨true, rfl⟩
  | 1, _ => exact ⟨false, rfl⟩

theorem familyOf_inj {a b : Bool} (h : familyOf a = familyOf b) : a = b := by
  cases a <;> cases b <;> first | rfl | exact absurd h (by decide)

theorem treeIdx_inj {a b : Bool} (h : treeIdx a = treeIdx b) : a = b := by
  cases a <;> cases b <;> first | rfl | exact absurd h (by decide)

/-- A tree of the right family may take the place of what is in a slot. -/
theorem FamilyTables.update {ribTreeMaster : Nat → Option RibTree} (h : FamilyTables ribTreeMaster)
    {ipv4 : Bool} {t : RibTree} (hlabelled : Labelled t) (htable : t.tableId = RT_TABLE_MAIN)
    (hfamily : t.family = familyOf ipv4)
    (hroute : ∀ p e, routes t.root p = some e → e.dst.family = familyOf ipv4) :
    FamilyTables (Function.update ribTreeMaster (treeIdx ipv4) (some t)) where
  labelled := h.labelled.update hlabelled
  table b t' ht' := by
    by_cases hb : treeIdx b = treeIdx ipv4
    · obtain rfl := treeIdx_inj hb
      obtain rfl : t = t' := by simpa using ht'
      exact ⟨htable, hfamily⟩
    · exact h.table b t' (by simpa [Function.update_of_ne hb] using ht')
  route b p e he := by
    rw [routeAt_update] at he
    split at he
    · next hb =>
      obtain rfl := treeIdx_inj hb
      exact hroute p e he
    · exact h.route b p e he

/-- With an `AF_INET` route first, a table that is made is made where it is looked for. -/
theorem FamilyTables.slot {ribTreeMaster ribTreeMaster' : Nat → Option RibTree}
    (h : FamilyTables ribTreeMaster) {malloc : Bool} {i : Nat} {family : Int} {t : RibTree}
    (hfamily : family = AF_INET ∨ family = AF_INET6)
    (hfound : Routing.routeTable malloc ribTreeMaster RT_TABLE_MAIN family
      = some (i, ribTreeMaster'))
    (htable : TableFor ribTreeMaster i t) (ht : t.family = family)
    (hinet6 : family = AF_INET6 → malloc = true → ∃ i < ROUTE_TREE_SIZE, ribTreeMaster i ≠ none) :
    ∃ ipv4, i = treeIdx ipv4 ∧ family = familyOf ipv4 := by
  obtain ⟨ipv4, rfl⟩ := eq_treeIdx (routeTable_some hfound).1
  refine ⟨ipv4, rfl, ?_⟩
  rcases htable with hsome | ⟨hfree, -⟩
  · exact ht.symm.trans (h.table ipv4 t hsome).2
  · obtain ⟨hlookup, hfirst, hmalloc⟩ := routeTable_free hfound hfree
    -- a table that is there is not the one that was looked up
    have hother : ∀ b t', ribTreeMaster (treeIdx b) = some t' → family ≠ familyOf b := by
      intro b t' ht' heq
      obtain ⟨hid, hfam⟩ := h.table b t' ht'
      exact routeTableLookupId_none hlookup (treeIdx_lt b) ht' (hfam.trans heq.symm) hid
    cases ipv4 with
    | true =>
      refine hfamily.resolve_right fun hsix => ?_
      obtain ⟨j, hj, hne⟩ := hinet6 hsix hmalloc
      obtain ⟨b, rfl⟩ := eq_treeIdx hj
      obtain ⟨t', ht'⟩ := Option.ne_none_iff_exists'.mp hne
      cases b with
      | true => cases hfree.symm.trans ht'
      | false => exact hother false t' ht' hsix
    | false =>
      obtain ⟨t', ht'⟩ := Option.ne_none_iff_exists'.mp (hfirst (treeIdx true) (by decide))
      exact hfamily.resolve_left (hother true t' ht')

theorem FamilyTables.add {env : Env} {r : Routing} (h : FamilyTables r.ribTreeMaster)
    {msg : InternalMsgRouteEntry} (hmsg : MainTableRoute msg)
    (hinet6 : msg.family = AF_INET6 → (nexthopAddEntry env.mallocNhNode r.nh msg.nh).2 ≠ none →
      env.mallocRibTree = true → ∃ i < ROUTE_TREE_SIZE, r.ribTreeMaster i ≠ none) :
    FamilyTables (r.routeEntryAdd env msg).ribTreeMaster := by
  have hadded := routeAdded env r msg
  generalize r.routeEntryAdd env msg = r' at hadded ⊢
  cases hadded with
  | refused _ => exact h
  | noTable _ _ => exact h
  | @tabled _ slot i t hadd hfound _ htable hfamily htableId =>
    rw [hmsg.table] at hfound
    obtain ⟨ipv4, rfl, hof⟩ := h.slot hmsg.family hfound htable hfamily
      fun hsix => hinet6 hsix (by simp [hadd])
    have hlabelled := (htable.labelled h.labelled).add env.mallocRibNode ⟨msg.dst, slot⟩
    refine h.update hlabelled (htableId.trans hmsg.table) (hfamily.trans hof) ?_
    intro p e he
    have hold : routes t.root p = some e → e.dst.family = familyOf ipv4 := by
      intro he
      rw [htable.routes_eq] at he
      exact h.route ipv4 p e he
    rcases Radix.ribRouteAdd_cases env.mallocRibNode t msg.dst.dstIpAddr msg.dst.plen
      ⟨msg.dst, slot⟩ with ⟨-, hroutes⟩ | ⟨-, hroutes⟩
    · rw [hroutes] at he
      split at he
      · obtain rfl := Option.some.inj he
        exact hmsg.dst.trans hof
      · exact hold he
    · exact hold ((hroutes p).symm.trans he)

theorem FamilyTables.del {r : Routing} (h : FamilyTables r.ribTreeMaster)
    {msg : InternalMsgRouteEntry} : FamilyTables (r.routeEntryDel msg).ribTreeMaster := by
  have hdeleted := routeDeleted r msg
  generalize r.routeEntryDel msg = r' at hdeleted ⊢
  cases hdeleted with
  | missing _ => exact h
  | noTable _ _ => exact h
  | @tabled _ _ i t _ _ hi htable _ _ =>
    obtain ⟨ipv4, rfl⟩ := eq_treeIdx hi
    obtain ⟨hid, hfamily⟩ := h.table ipv4 t htable
    refine h.update ((h.labelled _ t htable).delete _ _) hid hfamily ?_
    intro p e he
    have hold : routes t.root p = some e := by
      rw [Radix.routes_ribRouteDelete] at he
      split_ifs at he <;> exact he
    exact h.route ipv4 p e (by rw [routeAt, htable]; exact hold)

/-! ## The FIB trees -/

/-- The routes of a family are those of its table. -/
theorem FamilyTables.familyRoutes_eq {ribTreeMaster : Nat → Option RibTree}
    (h : FamilyTables ribTreeMaster) (ipv4 : Bool) :
    familyRoutes ribTreeMaster (familyOf ipv4)
      = {x | ∃ e, routeAt ribTreeMaster (treeIdx ipv4, x.1) = some e ∧ e.sdplaneNhId = x.2} := by
  ext x
  constructor
  · rintro ⟨i, hi, e, he, hfamily, hnh⟩
    obtain ⟨b, rfl⟩ := eq_treeIdx hi
    obtain rfl := familyOf_inj ((h.route b _ e he).symm.trans hfamily)
    exact ⟨e, he, hnh⟩
  · rintro ⟨e, he, hnh⟩
    exact ⟨treeIdx ipv4, treeIdx_lt ipv4, e, he, h.route ipv4 _ e he, hnh⟩

theorem FamilyTables.apart {env : Env} {s : RibState} (h : FamilyTables s.ribTreeMaster)
    (htree : env.mallocFibTree = fun _ _ => true) (hnode : env.mallocFibNode = fun _ _ => true)
    (hfib : s.fibTree = rebuildFibs env s.ribTreeMaster (newFibTrees env 0)) :
    FamiliesApart s := by
  intro ipv4
  have hnew : newFibTrees env 0 (treeIdx ipv4) = some fibNew := by
    rw [newFibTrees, htree, if_pos rfl]
  rw [h.familyRoutes_eq, hfib]
  simp only [rebuildFibs, hnew, hnode]
  cases htable : s.ribTreeMaster (treeIdx ipv4) with
  | none =>
    have hempty : {x : List Bool × Int | ∃ e, routeAt s.ribTreeMaster (treeIdx ipv4, x.1) = some e
        ∧ e.sdplaneNhId = x.2} = ∅ := by
      simp [routeAt, htable]
    rw [hempty]
    exact Fib.answers_empty rfl
  | some t =>
    obtain ⟨-, hfamily⟩ := h.table ipv4 t htable
    have hfamily : t.family ≠ 0 := by
      rw [hfamily]
      cases ipv4 <;> decide
    have htableRoutes : {x : List Bool × Int | ∃ e, routeAt s.ribTreeMaster (treeIdx ipv4, x.1)
        = some e ∧ e.sdplaneNhId = x.2} = fibTable t := by
      simp [routeAt, htable, fibTable]
    rw [htableRoutes]
    simp only [treeIdx_lt, hfamily, ne_eq, not_false_eq_true, and_self, if_true]
    exact (Radix.answers_rebuildFibFromRib (h.labelled _ t htable) rfl).2

/-! ## Runs -/

theorem familyTables_step {s t : RibState} {event : Env × Msg}
    (h : FamilyTables s.ribTreeMaster) (hstep : MainTableStep s event t)
    (hguard : InetFirst s event) : FamilyTables t.ribTreeMaster ∧ FamiliesApart t := by
  obtain ⟨env, msg⟩ := event
  obtain ⟨hmsg, hstep⟩ := hstep
  cases processed_of_ok hstep with
  | dropped _ _ => cases hmsg
  | portGet _ _ => cases hmsg
  | lost _ _ => cases hmsg
  | rebuilt _ hrouting hfib =>
    have htables : FamilyTables t.ribTreeMaster := by
      rw [show t.ribTreeMaster = (msg.onRouting env s.routing).ribTreeMaster from
        congrArg Routing.ribTreeMaster hrouting]
      cases hmsg with
      | @add msg hroute =>
        exact FamilyTables.add (r := s.routing) h hroute (hguard.inet6 msg rfl)
      | del _ => exact FamilyTables.del (r := s.routing) h
    exact ⟨htables, htables.apart hguard.fibTree hguard.fibNode hfib⟩

/-- **The families stay apart** in every run in which the first table is not made for an `AF_INET6`
    route, and the memory for the FIB is there. -/
theorem familiesApart (events : List (Env × Msg))
    (h : Lib.Stepwise MainTableStep .init InetFirst events) :
    Lib.Throughout MainTableStep .init FamiliesApart events := by
  have hinit : FamiliesApart .init := by
    intro ipv4
    show familyRoutes Routing.init.ribTreeMaster (familyOf ipv4) = ∅
    rw [familyTables_init.familyRoutes_eq]
    exact Set.eq_empty_of_forall_notMem fun x ⟨e, he, _⟩ => nomatch he
  have hkeep : ∀ (s : RibState) (event : Env × Msg) (t : RibState), True →
      FamilyTables s.ribTreeMaster ∧ FamiliesApart s → MainTableStep s event t →
      InetFirst s event → FamilyTables t.ribTreeMaster ∧ FamiliesApart t :=
    fun s event t _ hs hstep hguard => familyTables_step hs.1 hstep hguard
  have hboth := Lib.throughout_of_stepwise
    (P := fun s : RibState => FamilyTables s.ribTreeMaster ∧ FamiliesApart s)
    (fun _ => True) trivial (fun _ _ _ _ _ => trivial) ⟨familyTables_init, hinit⟩ hkeep h
  exact fun pre s hpre hrun => (hboth pre s hpre hrun).2

/-- The default route of the other family. -/
def defaultRoute6 : InternalMsgRouteEntry where
  family := AF_INET6
  tableId := RT_TABLE_MAIN
  dst := ⟨AF_INET6, .zero, 0⟩
  isNhid := false
  nh := ⟨0, 1, fun _ => ⟨0, ⟨AF_INET6, .gateway, .zero, 1, 0⟩, 1⟩, one_le_maxEcmpEntry⟩

theorem mainTable_defaultRoute6 : MainTableRoute defaultRoute6 := ⟨rfl, .inr rfl, rfl⟩

/-- The event of adding a route when nothing fails. -/
def adding (msg : InternalMsgRouteEntry) : Env × Msg := (.plain, .routing (.routeEntryAdd msg))

theorem familiesApart_inet_first :
    Lib.Throughout MainTableStep .init FamiliesApart [adding defaultRoute, adding defaultRoute6] := by
  have hfirst : Lib.Stepwise MainTableStep .init InetFirst [adding defaultRoute] := by
    refine Lib.Stepwise.snoc Lib.stepwise_nil ?_
    intro s t _ _
    refine ⟨rfl, rfl, fun msg hmsg hfamily _ _ => ?_⟩
    obtain rfl : defaultRoute = msg := by simpa [adding] using hmsg
    exact absurd hfamily (by decide)
  refine familiesApart _ (hfirst.snoc ?_)
  intro s t hrun _
  refine ⟨rfl, rfl, fun _ _ _ _ _ => ⟨0, by decide, ?_⟩⟩
  obtain ⟨s₀, hnil, -, hstep⟩ := @Lib.Run.snoc_inv _ _ _ _ [] _ _ hrun
  obtain rfl := hnil.nil_inv
  rw [show s.ribTreeMaster = (routingMessage .plain .init (.routeEntryAdd defaultRoute)).ribTreeMaster
    from congrArg Routing.ribTreeMaster (routing_of_ok hstep)]
  have hsome : ((routingMessage .plain .init (.routeEntryAdd defaultRoute)).ribTreeMaster 0).isSome
      = true := by decide +kernel
  exact Option.isSome_iff_ne_none.mp hsome

/-- With the `AF_INET6` route first, an IPv4 packet is forwarded by it. -/
theorem inet6_first_mixes_families :
    ¬ ∀ events : List (Env × Msg), Lib.Throughout MainTableStep .init FamiliesApart events := by
  intro hall
  obtain ⟨s, hs⟩ := routing_message_ok Env.plain_allocs .init (.routeEntryAdd defaultRoute6)
  have hrun : Lib.Run MainTableStep .init [adding defaultRoute6] s :=
    Lib.Run.nil.snoc ⟨.add mainTable_defaultRoute6, hs⟩
  have hapart := hall _ _ s List.prefix_rfl hrun true
  have htrees : s.ribTreeMaster
      = (routingMessage .plain .init (.routeEntryAdd defaultRoute6)).ribTreeMaster :=
    congrArg Routing.ribTreeMaster (routing_of_ok hs)
  -- the tree for IPv4 answers
  have hanswered : ((rebuildFibs .plain s.ribTreeMaster (newFibTrees .plain 0) 0).any fun fib =>
      (Fib.look fib.root .zero 0).isSome) = true := by
    rw [htrees]
    decide +kernel
  -- but there is no route of that family
  have hnone : familyRoutes s.ribTreeMaster (familyOf true) = ∅ := by
    refine Set.eq_empty_of_forall_notMem fun x ⟨i, _, e, he, hfamily, _⟩ => ?_
    rw [htrees] at he
    rcases routeAt_routeEntryAdd (r := .init) he with hold | hdst
    · cases hold
    · rw [hdst] at hfamily
      exact absurd hfamily (by decide)
  cases processed_of_ok hs with
  | rebuilt _ _ hfib =>
    rw [hnone, show s.fibTree (treeIdx true) = _ from congrFun hfib 0] at hapart
    cases hfib0 : rebuildFibs .plain s.ribTreeMaster (newFibTrees .plain 0) 0 with
    | none =>
      rw [hfib0] at hanswered
      cases hanswered
    | some fib =>
      rw [hfib0] at hapart hanswered
      have hlong := Answers.longest hapart .zero
      cases hlook : Fib.look fib.root .zero 0 with
      | none =>
        rw [Option.any_some, hlook] at hanswered
        cases hanswered
      | some answer =>
        rw [hlook] at hlong
        exact hlong.1

end SdPlane
