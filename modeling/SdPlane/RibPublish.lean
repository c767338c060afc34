import SdPlane.Lib.Run
import SdPlane.RibManagerSpec
import SdPlane.RoutingSpec

/-!
# The published FIB

Every version starts with empty FIB trees, and only the loop at the end of
`rib_manager_process_message` fills them. So what is published answers for the routes of the RIB
(`FibCurrent`) just in case every way to `rib_replace` passes that loop.

One does not. `PORT_GET_REQUEST` publishes a version of its own and returns. The forwarding
threads then find no route at all, until the next message that gets to the end. This is the only
exception: `fibCurrent_iff` says that a run keeps the published FIB current exactly when no such
request is processed while a table holds a route.
-/

set_option autoImplicit false

namespace SdPlane

open Radix (RibTree Labelled routes rebuildFibFromRib fibTable)
open Fib (FibTree FibNode fibNew fibRouteLookup mallocOk)

/-- Processing a message, with what the world answers meanwhile. -/
def Step (s : RibState) (event : Env × Msg) (t : RibState) : Prop :=
  ribManagerProcessMessage event.1 s event.2 = .ok t

/-- Processing a message when memory does not run out. -/
def AllocStep (s : RibState) (event : Env × Msg) (t : RibState) : Prop :=
  event.1.AllocsOk ∧ Step s event t

/-- Two FIB trees answer every address alike. -/
def SameAnswers (a b : FibTree) : Prop :=
  ∀ k, (fibRouteLookup a k).map FibNode.route = (fibRouteLookup b k).map FibNode.route

/-- The FIB trees of the published version answer like those that `rebuild_fib_from_rib` would
    build from the RIB now. -/
def FibCurrent (s : RibState) : Prop :=
  ∀ i < ROUTE_TREE_SIZE, ∀ t, s.ribTreeMaster i = some t → t.family ≠ 0 →
    ∃ fib, s.fibTree i = some fib ∧ SameAnswers fib (rebuildFibFromRib mallocOk t fibNew).2

/-- The message is no `PORT_GET_REQUEST`, or no table that is built into a FIB holds a route. -/
def NotPortGetOverRoutes (s : RibState) (event : Env × Msg) : Prop :=
  ∀ portId, event.2 = .portGetRequest portId → ∀ i < ROUTE_TREE_SIZE, ∀ t,
    s.ribTreeMaster i = some t → t.family ≠ 0 → ∀ p, routes t.root p = none

theorem newFibTrees_ok {env : Env} (h : env.AllocsOk) (k i : Nat) :
    newFibTrees env k i = some fibNew := by
  rw [newFibTrees, h.fibTree, if_pos rfl]

/-! ## The rebuild -/

/-- A version that went through the loop is current. -/
theorem fibCurrent_of_rebuilt {env : Env} (h : env.AllocsOk) {s : RibState}
    (hfib : s.fibTree = rebuildFibs env s.ribTreeMaster (newFibTrees env 0)) : FibCurrent s := by
  intro i hi t ht hfamily
  refine ⟨(rebuildFibFromRib mallocOk t fibNew).2, ?_, fun k => rfl⟩
  rw [hfib]
  simp only [rebuildFibs, ht, newFibTrees_ok h, h.fibNode]
  rw [if_pos ⟨hi, hfamily⟩]

/-- A tree is answered for by the empty FIB exactly when it holds no route. -/
theorem sameAnswers_fibNew_iff {t : RibTree} (h : Labelled t) :
    SameAnswers fibNew (rebuildFibFromRib mallocOk t fibNew).2 ↔ ∀ p, routes t.root p = none := by
  obtain ⟨-, hanswers⟩ := Radix.answers_rebuildFibFromRib h (show fibNew.root = .null from rfl)
  constructor
  · intro hsame p
    cases hroute : routes t.root p with
    | none => rfl
    | some e =>
      -- the address that the route is for is answered
      obtain rfl := h p e hroute
      have hlong := hanswers.longest e.dst.dstIpAddr
      rw [show Fib.look (rebuildFibFromRib mallocOk t fibNew).2.root e.dst.dstIpAddr 0 = none from
        (hsame e.dst.dstIpAddr).symm] at hlong
      exact absurd (Lib.covers_takeBits _ _) (hlong (_, e.sdplaneNhId) ⟨e, hroute, rfl⟩)
  · intro hnone k
    have hlong := hanswers.longest k
    have hlook : Fib.look (rebuildFibFromRib mallocOk t fibNew).2.root k 0
        = (fibRouteLookup (rebuildFibFromRib mallocOk t fibNew).2 k).map FibNode.route := rfl
    rw [← hlook]
    cases hanswer : Fib.look (rebuildFibFromRib mallocOk t fibNew).2.root k 0 with
    | none => rfl
    | some answer =>
      rw [hanswer] at hlong
      obtain ⟨⟨e, he, -⟩, -⟩ := hlong
      rw [hnone] at he
      cases he

/-! ## Runs -/

theorem Processed.tablesLabelled {env : Env} {s t : RibState} {msg : Msg}
    (h : Processed env s msg t) (hs : TablesLabelled s.ribTreeMaster) :
    TablesLabelled t.ribTreeMaster := by
  have hsame : t.ribTreeMaster = s.ribTreeMaster → TablesLabelled t.ribTreeMaster := by
    intro htrees
    rw [htrees]
    exact hs
  cases h with
  | dropped hrouting _ => exact hsame (congrArg Routing.ribTreeMaster hrouting)
  | portGet hrouting _ => exact hsame (congrArg Routing.ribTreeMaster hrouting)
  | lost _ hrouting => exact hsame (congrArg Routing.ribTreeMaster hrouting)
  | rebuilt _ hrouting _ =>
    have htrees : t.ribTreeMaster = (msg.onRouting env s.routing).ribTreeMaster :=
      congrArg Routing.ribTreeMaster hrouting
    cases msg with
    | routing msg =>
      rw [htrees]
      exact TablesLabelled.routingMessage (r := s.routing) hs env msg
    | conf _ => exact hsame htrees
    | portGetRequest _ => exact hsame htrees
    | unknown _ => exact hsame htrees

/-- What one message does to a current FIB. -/
theorem fibCurrent_step_iff {s t : RibState} {event : Env × Msg}
    (hlabelled : TablesLabelled s.ribTreeMaster) (hs : FibCurrent s) (h : AllocStep s event t) :
    FibCurrent t ↔ NotPortGetOverRoutes s event := by
  obtain ⟨env, msg⟩ := event
  obtain ⟨hallocs, hstep⟩ := h
  cases processed_of_ok hstep with
  | dropped hrouting hfib =>
    have htrees : t.ribTreeMaster = s.ribTreeMaster := congrArg Routing.ribTreeMaster hrouting
    refine iff_of_true ?_ (fun portId => nofun)
    intro i hi tree htree hfamily
    rw [hfib]
    exact hs i hi tree (htrees ▸ htree) hfamily
  | lost hno _ => exact absurd hallocs hno
  | rebuilt hmsg _ hfib =>
    exact iff_of_true (fibCurrent_of_rebuilt hallocs hfib) fun portId h => absurd h (hmsg portId)
  | portGet hrouting hfib =>
    have htrees : t.ribTreeMaster = s.ribTreeMaster := congrArg Routing.ribTreeMaster hrouting
    have hempty : ∀ i, t.fibTree i = some fibNew := by
      intro i
      rw [hfib, newFibTrees_ok hallocs]
    constructor
    · intro ht _ _ i hi tree htree hfamily
      obtain ⟨fib, hsome, hsame⟩ := ht i hi tree (htrees.symm ▸ htree) hfamily
      obtain rfl : fibNew = fib := Option.some.inj ((hempty i).symm.trans hsome)
      exact (sameAnswers_fibNew_iff (hlabelled i tree htree)).mp hsame
    · intro hguard i hi tree htree hfamily
      rw [htrees] at htree
      exact ⟨fibNew, hempty i, (sameAnswers_fibNew_iff (hlabelled i tree htree)).mpr
        (hguard _ rfl i hi tree htree hfamily)⟩

/-- **The published FIB is current throughout a run exactly when no `PORT_GET_REQUEST` is
    processed while a table holds a route.** -/
theorem fibCurrent_iff (events : List (Env × Msg)) :
    Lib.Throughout AllocStep .init FibCurrent events
      ↔ Lib.Stepwise AllocStep .init NotPortGetOverRoutes events :=
  Lib.throughout_iff (fun s => TablesLabelled s.ribTreeMaster) tablesLabelled_init
    (fun _ _ _ hs h => (processed_of_ok h.2).tablesLabelled hs)
    (fun _ _ _ ht => nomatch ht)
    fun _ _ _ hlabelled hs h => fibCurrent_step_iff hlabelled hs h

/-- A default route by way of a gateway. -/
def defaultRoute : InternalMsgRouteEntry where
  family := AF_INET
  tableId := 254
  dst := ⟨AF_INET, .zero, 0⟩
  isNhid := false
  nh := ⟨0, 1, fun _ => ⟨0, ⟨AF_INET, .gateway, .zero, 1, 0⟩, 1⟩, one_le_maxEcmpEntry⟩

/-- A request for the state of a port takes the default route out of the published FIB. -/
theorem portGet_drops_routes :
    ¬ ∀ events : List (Env × Msg), Lib.Throughout AllocStep .init FibCurrent events := by
  intro hall
  obtain ⟨s, hs⟩ := routing_message_ok Env.plain_allocs .init (.routeEntryAdd defaultRoute)
  obtain ⟨t, ht⟩ := portGetRequest_ok Env.plain_allocs s
    (show (0 : UInt16).toNat < MAX_ETH_PORTS by decide)
  have hrun : Lib.Run AllocStep .init [(.plain, .routing (.routeEntryAdd defaultRoute))] s :=
    Lib.Run.nil.snoc ⟨Env.plain_allocs, hs⟩
  have hbefore := hall _ _ s List.prefix_rfl hrun
  have hport : AllocStep s (.plain, .portGetRequest 0) t := ⟨Env.plain_allocs, ht⟩
  have hafter := hall _ _ t List.prefix_rfl (hrun.snoc hport)
  have htrees : s.ribTreeMaster
      = (routingMessage .plain .init (.routeEntryAdd defaultRoute)).ribTreeMaster :=
    congrArg Routing.ribTreeMaster (routing_of_ok hs)
  have hlabelled : TablesLabelled s.ribTreeMaster := by
    rw [htrees]
    exact tablesLabelled_init.routingMessage .plain _
  have hguard := (fibCurrent_step_iff hlabelled hbefore hport).mp hafter
  -- the one route is in a table that is built into a FIB
  have hroute : (s.ribTreeMaster 0).any (fun tree =>
      decide (tree.family ≠ 0) && (routes tree.root []).isSome) = true := by
    rw [htrees]
    decide +kernel
  cases htree : s.ribTreeMaster 0 with
  | none =>
    rw [htree] at hroute
    cases hroute
  | some tree =>
    simp only [htree, Option.any_some, Bool.and_eq_true, decide_eq_true_eq] at hroute
    obtain ⟨hfamily, hsome⟩ := hroute
    rw [hguard 0 rfl 0 (by decide) tree htree hfamily []] at hsome
    cases hsome

end SdPlane
