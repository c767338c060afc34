import SdPlane.NeighMap
import SdPlane.NeighReplica
import SdPlane.NexthopTypes
import SdPlane.Routed
import SdPlane.RoutesServed

/-!
# The tables of the kernel and the frames of the router

The kernel announces routes and neighbors. A route becomes a message to the RIB manager, a neighbor a
request to the neighbor manager, which keeps a table of its own and sends the changes through the
queue. Frames are forwarded by what is published at the end. `DataPlane` is all of this together with
what has been announced so far, and `AsAnnounced` is forwarding as it is meant to be, from the
announced routes and neighbors alone: the first gateway of the longest prefix, the address of this
gateway, and the link behind which that address has been learned.

Routes are always up to date (`announced_routes_served`). Neighbors lag behind by what is in the
queue: the router knows them as they were some requests ago, and if nothing is in flight, as they are
(`forwarded_as_announced`).
-/

set_option autoImplicit false

namespace SdPlane

/-! ## What has been announced -/

/-- The call that a request makes. -/
def NeighRequest.op : NeighRequest → NeighOp
  | .add _ data => .add data
  | .del _ data => .del data.ipAddr

/-- `asked` are the requests for each table, from the first one on. -/
structure DataPlane where
  neigh : NeighSys
  routes : RouteMap
  asked : Nat → List NeighOp

def DataPlane.start : DataPlane := ⟨.start .init, .empty, fun _ => []⟩

/-- What an event announces. -/
def DataPlane.announce (s : DataPlane) : NeighEvent → RouteMap × (Nat → List NeighOp)
  | .request request | .lost request => (s.routes,
      Function.update s.asked request.type (s.asked request.type ++ [request.op]))
  | .process _ => (s.routes, s.asked)
  | .other _ msg => (s.routes.after msg, s.asked)

/-- One event. No message between the managers is lost. -/
def DataPlaneStep (s : DataPlane) (event : NeighEvent) (t : DataPlane) : Prop :=
  LosslessStep s.neigh event t.neigh ∧ (t.routes, t.asked) = s.announce event

/-- A message that the manager gets right, with the next hops typed as they are read from the
    kernel. -/
def Announceable (s : DataPlane) : NeighEvent → Prop
  | .other env msg => Servable (s.neigh.rib, s.routes) (env, msg)
      ∧ ∀ routing, msg = .routing routing → routing.nextHops.Typed
  | .request _ | .lost _ | .process _ => True

/-! ## Forwarding by what was announced -/

/-- The address of a neighbor, once it is resolved. -/
def NeighMap.resolved (m : NeighMap) (key : List UInt8) : Option EtherAddr :=
  (m key).bind fun data => if data.macAddr = zeros 6 then none else some data.macAddr

/-- The gateways of the longest announced prefix that covers the address. -/
def Announced (routes : RouteMap) (l3 : L3) (dstIp : IpAddr) (r : Option (List Bool × InternalMsgNhEntry)) :
    Prop :=
  Lib.Longest {x : List Bool × InternalMsgNhEntry | routes (decide (l3.treeIdx = 0), x.1) = some x.2}
    (keyBit dstIp) r

/-- The address of the gateway, or of the destination itself if it is on the link. -/
def hopAddress (neigh : Nat → NeighMap) (hop : NhInfo) (dstIp : IpAddr) : Option EtherAddr :=
  (neigh (afToNeighTable hop.family)).resolved
    (neighKey (afToNeighTable hop.family) (hop.lookupIp dstIp))

/-- The end of `_forwarding`, when the address of the gateway is known. -/
def sendVia (dpdk : RouterDpdk) (info : RibInfo) (rxPort : Nat) (rxLink : Option Nat) (m : Mbuf)
    (l3 : L3) (oif : Int) (dstMac : EtherAddr) : Except Fault Forwarded :=
  match egressLink info oif dstMac with
  | .error e => .error e
  | .ok none => .ok .dropped
  | .ok (some egress) =>
    let srcMac := (info.vswitch egress.vswitch).routerIf.macAddr
    (routerSendLink dpdk.toDpdk info.toRibConf egress.place
      (rewrite dpdk rxPort m l3 srcMac dstMac) rxLink egress.port egress.link).map .sent

/-- What becomes of a frame by the announced routes and neighbors. -/
inductive AsAnnounced (dpdk : RouterDpdk) (info : RibInfo) (routes : RouteMap) (neigh : Nat → NeighMap)
    (rxPort : Nat) (rxLink : Option Nat) (m : Mbuf) (l3 : L3) : Except Fault Forwarded → Prop
  /-- There is no route. -/
  | unrouted (route : Announced routes l3 (m.dstIp l3) none) :
      AsAnnounced dpdk info routes neigh rxPort rxLink m l3 (.ok .dropped)
  /-- The gateway is asked for its address. -/
  | unresolved {p : List Bool} {nh : InternalMsgNhEntry}
      (route : Announced routes l3 (m.dstIp l3) (some (p, nh)))
      (address : hopAddress neigh (nh.members 0).info (m.dstIp l3) = none) :
      AsAnnounced dpdk info routes neigh rxPort rxLink m l3
        ((requestNeigh dpdk info (nh.members 0).info (m.dstIp l3)).map .requested)
  /-- The frame is for the gateway. -/
  | routed {p : List Bool} {nh : InternalMsgNhEntry} {mac : EtherAddr}
      (route : Announced routes l3 (m.dstIp l3) (some (p, nh)))
      (address : hopAddress neigh (nh.members 0).info (m.dstIp l3) = some mac) :
      AsAnnounced dpdk info routes neigh rxPort rxLink m l3
        (sendVia dpdk info rxPort rxLink m l3 (toInt32 (nh.members 0).info.oif) mac)

/-- The neighbors that the first `n` requests for each table have made known. -/
def DataPlane.known (s : DataPlane) (n : Nat → Nat) (type : Nat) : NeighMap :=
  (neighRun type ((s.asked type).take (n type))).2

/-- Every frame is forwarded by the routes, and by the neighbors up to some request; where nothing is
    in flight, up to the last one. -/
def ForwardsAsAnnounced (s : DataPlane) : Prop :=
  ∃ n : Nat → Nat, (∀ type < NEIGH_NR_TABLES, n type ≤ (s.asked type).length
      ∧ (s.neigh.pending type = [] → n type = (s.asked type).length))
    ∧ ∀ info, s.neigh.rib.published = some info → ∀ dpdk rxPort rxLink m l3,
        AsAnnounced dpdk info s.routes (s.known n) rxPort rxLink m l3
          (forwarding dpdk info rxPort rxLink m l3)

/-! ## The neighbor tables -/

section Neighbors

variable {type : Nat} {s t : NeighTable} {m : NeighMap}

/-- Only the entries count. -/
theorem Represents.congr (h : Represents type t m) (hsame : SameEntries s t) : Represents type s m := by
  obtain ⟨hnum, hentries⟩ := hsame
  have hnonneg := h.sized.1
  have hat : ∀ i < t.numEntries.toNat, s.entries i = t.entries i := fun i hi => hentries i (by omega)
  refine ⟨?_, fun i j hij hj => ?_, fun key data => ?_⟩
  · rw [NeighTable.Sized, hnum]
    exact h.sized
  · rw [hnum] at hj
    rw [NeighTable.keys, NeighTable.keys, hat i (hij.trans hj), hat j hj]
    exact h.increasing i j hij hj
  · rw [h.holds, hnum]
    refine and_congr_left fun _ => exists_congr fun i => and_congr_right fun hi => ?_
    rw [hat i hi]

/-- The router finds what the map has. -/
theorem Represents.neighMac {info : RibInfo} {nhInfo : NhInfo} {dstIp : IpAddr}
    (h : Represents (afToNeighTable nhInfo.family) (info.neighTables (afToNeighTable nhInfo.family)) m) :
    neighMac info nhInfo dstIp
      = m.resolved (neighKey (afToNeighTable nhInfo.family) (nhInfo.lookupIp dstIp)) := by
  have hlooked := lookedUp h.increasing (nhInfo.lookupIp dstIp)
  rw [SdPlane.neighMac, NeighMap.resolved]
  generalize neighManagerLookup (info.neighTables (afToNeighTable nhInfo.family))
    (afToNeighTable nhInfo.family) (nhInfo.lookupIp dstIp) = r at hlooked
  cases hlooked with
  | found hpos hkey => rw [(h.holds _ _).mpr ⟨⟨_, hpos, rfl⟩, hkey⟩, Option.bind_some]
  | place hplace =>
    have hnone : m (neighKey (afToNeighTable nhInfo.family) (nhInfo.lookupIp dstIp)) = none := by
      cases hm : m (neighKey (afToNeighTable nhInfo.family) (nhInfo.lookupIp dstIp)) with
      | none => rfl
      | some data =>
        obtain ⟨i, hi, hkey⟩ := (h.has_iff _).mpr ⟨data, hm⟩
        exact absurd hkey (hplace.absent hi)
    rw [hnone, Option.bind_none]

/-- An add that fails changes nothing. -/
theorem addEntry_of_none {data : NeighEntry} (h : (neighManagerAddEntry t type data).1 = none) :
    (neighManagerAddEntry t type data).2 = t := by
  unfold neighManagerAddEntry at h ⊢
  split
  · rfl
  · next hroom =>
    rw [if_neg hroom] at h
    dsimp only at h ⊢
    split
    · next hfound =>
      rw [hfound] at h
      cases h
    · next hplace =>
      rw [hplace] at h
      dsimp only at h
      split
      · rfl
      · next hle =>
        rw [if_neg hle] at h
        cases h

theorem deleteEntry_of_none {key : IpAddr} (h : (neighManagerDeleteEntry t type key).1 = none) :
    (neighManagerDeleteEntry t type key).2 = t := by
  unfold neighManagerDeleteEntry at h ⊢
  split
  · next hfound =>
    rw [hfound] at h
    cases h
  · rfl

/-- The table after a request, whatever is sent about it. -/
theorem neighManagerProcessMessage_fst (tables : Nat → NeighTable) (request : NeighRequest) :
    (neighManagerProcessMessage tables request).1 = Function.update tables request.type
      (request.op.apply request.type (tables request.type)) := by
  cases request with
  | add type data =>
    have hnone := @addEntry_of_none type (tables type) data
    simp only [neighManagerProcessMessage, NeighRequest.type, NeighRequest.op, NeighOp.apply]
    generalize neighManagerAddEntry (tables type) type data = r at hnone
    obtain ⟨pos, table⟩ := r
    cases pos with
    | none =>
      rw [show table = tables type from hnone rfl, Function.update_eq_self]
    | some pos => rfl
  | del type data =>
    have hnone := @deleteEntry_of_none type (tables type) data.ipAddr
    simp only [neighManagerProcessMessage, NeighRequest.type, NeighRequest.op, NeighOp.apply]
    generalize neighManagerDeleteEntry (tables type) type data.ipAddr = r at hnone
    obtain ⟨pos, table⟩ := r
    cases pos with
    | none =>
      rw [show table = tables type from hnone rfl, Function.update_eq_self]
    | some pos => rfl

end Neighbors

/-! ## The requests, and what has come of them -/

/-- The tables on both sides are those that the requests make. -/
structure Heard (s : DataPlane) (type : Nat) : Prop where
  master : s.neigh.master type = (neighRun type (s.asked type)).1
  changes : ∀ t ∈ s.neigh.changes type, ∃ n ≤ (s.asked type).length,
    t = (neighRun type ((s.asked type).take n)).1
  untaken : s.neigh.taken type = 0 → SameEntries (s.neigh.rib.conf.neighTables type) .zero

/-- The RIB manager has a table as the requests made it. -/
theorem Heard.represents {s : DataPlane} {type : Nat} (h : Heard s type) (hlag : Lagging s.neigh)
    (htype : type < NEIGH_NR_TABLES) : ∃ n ≤ (s.asked type).length,
      (s.neigh.pending type = [] → n = (s.asked type).length)
      ∧ Represents type (s.neigh.rib.conf.neighTables type)
        (neighRun type ((s.asked type).take n)).2 := by
  obtain ⟨base, hbase⟩ := hlag.1 type htype
  by_cases hempty : s.neigh.pending type = []
  · -- nothing leads from the one table to the other
    have hlinked := hbase.linked
    have hpresent := hbase.present
    rw [hempty] at hlinked
    generalize (s.neigh.changes type).drop (s.neigh.taken type) = ts at hlinked hpresent
    cases hlinked with
    | nil =>
      have hmaster : base = (neighRun type (s.asked type)).1 :=
        (Option.some.inj hpresent).trans h.master
      refine ⟨_, le_refl _, fun _ => rfl, ?_⟩
      rw [List.take_length]
      exact (represents_run type (s.asked type)).congr (hmaster ▸ hbase.same)
  · cases htaken : s.neigh.taken type with
    | zero =>
      refine ⟨0, Nat.zero_le _, fun h => absurd h hempty, ?_⟩
      rw [List.take_zero]
      exact (represents_run type []).congr (h.untaken htaken)
    | succ k =>
      have hget := hbase.before k htaken
      obtain ⟨n, hn, hrun⟩ := h.changes base (List.mem_of_getElem? hget)
      refine ⟨n, hn, fun h => absurd h hempty, ?_⟩
      exact (represents_run type _).congr (hrun ▸ hbase.same)

theorem heard_start (type : Nat) : Heard .start type where
  master := rfl
  changes t ht := by cases ht
  untaken _ := ⟨rfl, fun _ _ => rfl⟩

section Handle

variable (s : NeighSys) (request : NeighRequest) (sent : Bool)

/-- Without a message nothing has changed. -/
theorem neighManagerProcessMessage_none {tables : Nat → NeighTable}
    (h : (neighManagerProcessMessage tables request).2 = none) :
    (neighManagerProcessMessage tables request).1 = tables := by
  cases request with
  | add type data =>
    simp only [neighManagerProcessMessage] at h ⊢
    split
    · rfl
    · next hadd =>
      rw [hadd] at h
      cases h
  | del type data =>
    simp only [neighManagerProcessMessage] at h ⊢
    split
    · rfl
    · next hdel =>
      rw [hdel] at h
      cases h

theorem handle_master : (s.handle request sent).master = Function.update s.master request.type
    (request.op.apply request.type (s.master request.type)) := by
  rw [← neighManagerProcessMessage_fst, NeighSys.handle]
  have hnone := @neighManagerProcessMessage_none request s.master
  generalize neighManagerProcessMessage s.master request = r at hnone
  obtain ⟨master, sent⟩ := r
  cases sent with
  | none => exact (hnone rfl).symm
  | some msg => rfl

theorem handle_changes {type : Nat} {t : NeighTable} (h : t ∈ (s.handle request sent).changes type) :
    t ∈ s.changes type ∨ type = request.type ∧ t = (s.handle request sent).master type := by
  rw [NeighSys.handle] at h ⊢
  generalize neighManagerProcessMessage s.master request = r at h ⊢
  obtain ⟨master, sent⟩ := r
  cases sent with
  | none => exact .inl h
  | some msg =>
    dsimp only at h ⊢
    by_cases heq : type = request.type
    · subst heq
      rw [Function.update_self, List.mem_append, List.mem_singleton] at h
      exact h.imp_right fun ht => ⟨rfl, ht⟩
    · rw [Function.update_of_ne heq] at h
      exact .inl h

end Handle

/-- One more request. -/
theorem Heard.request {s t : DataPlane} {request : NeighRequest} {sent : Bool} {type : Nat}
    (h : Heard s type) (hneigh : t.neigh = s.neigh.handle request sent)
    (hasked : t.asked
      = Function.update s.asked request.type (s.asked request.type ++ [request.op])) :
    Heard t type := by
  obtain ⟨hrib, htaken⟩ := handle_rib s.neigh request sent
  have hmaster : t.neigh.master type = (neighRun type (t.asked type)).1 := by
    rw [hneigh, handle_master, hasked]
    by_cases heq : type = request.type
    · subst heq
      rw [Function.update_self, Function.update_self, neighRun_snoc, h.master]
    · rw [Function.update_of_ne heq, Function.update_of_ne heq, h.master]
  have hprefix : s.asked type <+: t.asked type := by
    rw [hasked]
    by_cases heq : type = request.type
    · subst heq
      rw [Function.update_self]
      exact List.prefix_append _ _
    · rw [Function.update_of_ne heq]
  refine ⟨hmaster, fun table htable => ?_, ?_⟩
  · rw [hneigh] at htable
    rcases handle_changes s.neigh request sent htable with hold | ⟨-, hnew⟩
    · obtain ⟨n, hn, hrun⟩ := h.changes table hold
      refine ⟨n, hn.trans hprefix.length_le, ?_⟩
      rw [hrun, List.prefix_iff_eq_take.mp hprefix, List.take_take, Nat.min_eq_left hn]
    · refine ⟨_, le_refl _, ?_⟩
      rw [hnew, ← hneigh, hmaster, List.take_length]
  · rw [hneigh, htaken, hrib]
    exact h.untaken

/-- A message is processed. -/
theorem Heard.processed {s t : DataPlane} {type : Nat} (h : Heard s type)
    (hmaster : t.neigh.master = s.neigh.master) (hchanges : t.neigh.changes = s.neigh.changes)
    (hasked : t.asked = s.asked)
    (htable : t.neigh.taken type = 0 → s.neigh.taken type = 0
      ∧ t.neigh.rib.conf.neighTables type = s.neigh.rib.conf.neighTables type) : Heard t type := by
  refine ⟨?_, ?_, fun htaken => ?_⟩
  · rw [hmaster, hasked]
    exact h.master
  · rw [hchanges, hasked]
    exact h.changes
  · obtain ⟨hnone, hsame⟩ := htable htaken
    rw [hsame]
    exact h.untaken hnone

theorem Heard.step {s t : DataPlane} {event : NeighEvent} {type : Nat} (h : Heard s type)
    (hlag : Lagging s.neigh) (hstep : DataPlaneStep s event t) : Heard t type := by
  obtain ⟨⟨hstep, hlossless⟩, hannounced⟩ := hstep
  have hasked := congrArg Prod.snd hannounced
  dsimp only at hasked
  generalize hneigh : t.neigh = u at hstep
  cases hstep with
  | request _ => exact h.request hneigh hasked
  | lost _ => exact absurd rfl (hlossless _)
  | @process env msg rest rib hqueue hallocs hprocess =>
    refine h.processed (by rw [hneigh]) (by rw [hneigh]) hasked fun htaken => ?_
    rw [hneigh] at htaken ⊢
    dsimp only at htaken ⊢
    by_cases heq : type = msg.neighType
    · subst heq
      rw [Function.update_self] at htaken
      cases htaken
    · rw [Function.update_of_ne heq] at htaken
      obtain ⟨_, _, r, _, -, -, -, -, -, hresult⟩ := first_replayed hlag hqueue env
      rw [conf_of_handled hresult hprocess, RibConf.setNeigh_of_ne heq]
      exact ⟨htaken, rfl⟩
  | other hmsg hallocs hprocess =>
    refine h.processed (by rw [hneigh]) (by rw [hneigh]) hasked fun htaken => ?_
    rw [hneigh] at htaken ⊢
    exact ⟨htaken, congrFun (keepsTables_of_ok hallocs hmsg hprocess).neigh type⟩

/-- The neighbor tables follow the requests. -/
def Following (s : DataPlane) : Prop := Lagging s.neigh ∧ ∀ type, Heard s type

theorem Following.step {s t : DataPlane} {event : NeighEvent} (h : Following s)
    (hstep : DataPlaneStep s event t) : Following t :=
  ⟨lagging_step h.1 hstep.1, fun type => (h.2 type).step h.1 hstep⟩

/-! ## The routes -/

/-- What is needed of the routes: the announced ones are served, and all next hops have the type that
    goes with their address. -/
structure Routed (s : DataPlane) : Prop where
  serving : Serving (s.neigh.rib, s.routes)
  pooled : Pooled NhInfo.Typed s.neigh.rib.routing.nh.toNexthop
  typed : ∀ x nh, s.routes x = some nh → nh.Typed

theorem routed_start : Routed .start where
  serving := serving_init
  pooled := pooled_init uncounted_typed
  typed x nh h := by cases h

/-- The manager has processed a message. -/
theorem Routed.message {s t : DataPlane} {env : Env} {msg : Msg} (h : Routed s)
    (hprocess : ribManagerProcessMessage env s.neigh.rib msg = .ok t.neigh.rib)
    (hroutes : t.routes = s.routes.after msg)
    (hservable : Servable (s.neigh.rib, s.routes) (env, msg))
    (htyped : ∀ routing, msg = .routing routing → routing.nextHops.Typed) : Routed t := by
  have hstep : AnnouncingStep (s.neigh.rib, s.routes) (env, msg) (t.neigh.rib, t.routes) :=
    ⟨hprocess, hroutes⟩
  refine ⟨h.serving.step hstep hservable, ?_, ?_⟩
  · have hpool : Pooled NhInfo.Typed (msg.onRouting env s.neigh.rib.routing).nh.toNexthop := by
      cases msg with
      | routing routing => exact h.pooled.routing uncounted_typed env (htyped routing rfl)
      | conf msg => exact h.pooled
      | portGetRequest portId => exact h.pooled
      | unknown type => exact h.pooled
    cases processed_of_ok hprocess with
    | dropped hrouting _ =>
      rw [hrouting]
      exact h.pooled
    | portGet hrouting _ =>
      rw [hrouting]
      exact h.pooled
    | lost hno _ => exact absurd hservable.1 hno
    | rebuilt _ hrouting _ =>
      rw [hrouting]
      exact hpool
  · rw [hroutes]
    cases msg with
    | routing routing =>
      have hnew := htyped routing rfl
      cases routing with
      | routeEntryAdd msg =>
        intro x nh hx
        by_cases heq : x = msg.place
        · subst heq
          rw [RouteMap.after, Function.update_self] at hx
          exact Option.some.inj hx ▸ hnew
        · rw [RouteMap.after, Function.update_of_ne heq] at hx
          exact h.typed x nh hx
      | routeEntryDel msg =>
        intro x nh hx
        by_cases heq : x = msg.place
        · subst heq
          rw [RouteMap.after, Function.update_self] at hx
          cases hx
        · rw [RouteMap.after, Function.update_of_ne heq] at hx
          exact h.typed x nh hx
      | nexthopEntryAdd nh => exact h.typed
      | nexthopEntryDel nh => exact h.typed
    | conf msg => exact h.typed
    | portGetRequest portId => exact h.typed
    | unknown type => exact h.typed

theorem Routed.step {s t : DataPlane} {event : NeighEvent} (h : Routed s)
    (hstep : DataPlaneStep s event t) (hguard : Announceable s event) : Routed t := by
  obtain ⟨⟨hstep, hlossless⟩, hannounced⟩ := hstep
  have hroutes := congrArg Prod.fst hannounced
  dsimp only at hroutes
  have hkeep : t.neigh.rib = s.neigh.rib → t.routes = s.routes → Routed t := by
    intro hrib hsame
    refine ⟨?_, ?_, ?_⟩
    · rw [hrib, hsame]
      exact h.serving
    · rw [hrib]
      exact h.pooled
    · rw [hsame]
      exact h.typed
  generalize hneigh : t.neigh = u at hstep
  cases hstep with
  | request _ =>
    refine hkeep ?_ hroutes
    rw [hneigh]
    exact (handle_rib s.neigh _ true).1
  | lost _ => exact absurd rfl (hlossless _)
  | @process env msg rest rib hqueue hallocs hprocess =>
    have hafter : t.routes = s.routes.after (.conf msg) := hroutes
    refine h.message ?_ hafter ⟨hallocs, trivial⟩ fun _ heq => ?_
    · rw [hneigh]
      exact hprocess
    · cases heq
  | other _ _ hprocess =>
    refine h.message ?_ hroutes hguard.1 hguard.2
    rw [hneigh]
    exact hprocess

/-! ## A frame -/

/-- Gateways of one address and one type are the same to `_forwarding`. -/
theorem requestNeigh_congr {dpdk : RouterDpdk} {info : RibInfo} {a b : NhInfo} (hsame : a.same b = true)
    (htype : a.type = b.type) (dstIp : IpAddr) :
    requestNeigh dpdk info a dstIp = requestNeigh dpdk info b dstIp := by
  simp only [NhInfo.same, Bool.and_eq_true, decide_eq_true_eq] at hsame
  obtain ⟨⟨hfamily, hgw⟩, hoif⟩ := hsame
  simp only [requestNeigh, NhInfo.lookupIp, hfamily, hgw, hoif, htype]

theorem hopAddress_congr {neigh : Nat → NeighMap} {a b : NhInfo} (hsame : a.same b = true)
    (htype : a.type = b.type) (dstIp : IpAddr) : hopAddress neigh a dstIp = hopAddress neigh b dstIp := by
  simp only [NhInfo.same, Bool.and_eq_true, decide_eq_true_eq] at hsame
  obtain ⟨⟨hfamily, hgw⟩, -⟩ := hsame
  simp only [hopAddress, NhInfo.lookupIp, hfamily, hgw, htype]

theorem afToNeighTable_lt (family : Int) : afToNeighTable family < NEIGH_NR_TABLES := by
  rw [afToNeighTable]
  split
  · decide
  · decide

theorem treeIdx_l3 (l3 : L3) : treeIdx (decide (l3.treeIdx = 0)) = l3.treeIdx := by
  cases l3 with
  | ipv4 off => rfl
  | ipv6 off => rfl
  | other => rfl

theorem Routed.typed_hop {s : DataPlane} (h : Routed s) {info : RibInfo}
    (hpub : s.neigh.rib.published = some info) {treeIdx : Nat} {dstIp : IpAddr} {hop : NhInfo}
    (hroute : routeNexthop info treeIdx dstIp = .ok (some hop)) : hop.Typed := by
  have hnexthop : info.nexthop = s.neigh.rib.routing.nh.toNexthop := by
    show info.nexthop = s.neigh.rib.nexthop
    rw [RibState.nexthop, hpub]
    rfl
  obtain ⟨tree, node, -, -, hinfo⟩ := routeNexthop_some hroute
  rw [nexthopGetInfoByIndex] at hinfo
  split at hinfo
  · cases hinfo
  · dsimp only at hinfo
    split at hinfo
    · cases hinfo
    · obtain rfl := Option.some.inj hinfo
      rw [hnexthop]
      exact h.pooled _

/-- **A frame** goes where the tables say. -/
theorem Routed.forwards {s : DataPlane} (h : Routed s) {neigh : Nat → NeighMap}
    (hneigh : ∀ type < NEIGH_NR_TABLES, Represents type (s.neigh.rib.conf.neighTables type) (neigh type))
    {info : RibInfo} (hpub : s.neigh.rib.published = some info) (dpdk : RouterDpdk) (rxPort : Nat)
    (rxLink : Option Nat) (m : Mbuf) (l3 : L3) :
    AsAnnounced dpdk info s.routes neigh rxPort rxLink m l3
      (forwarding dpdk info rxPort rxLink m l3) := by
  obtain ⟨answer, hanswer, r, hlongest, hrel⟩ :=
    h.serving.served info hpub (decide (l3.treeIdx = 0)) (m.dstIp l3)
  rw [treeIdx_l3] at hanswer
  rw [forwarding, hanswer]
  cases hrel with
  | none => exact .unrouted hlongest
  | @some hop entry hsame =>
    obtain ⟨p, nh⟩ := entry
    have hmem : s.routes (decide (l3.treeIdx = 0), p) = some nh := hlongest.1
    have htype : hop.type = (nh.members 0).info.type := by
      have hpool : hop.Typed := h.typed_hop hpub hanswer
      exact hpool.type_eq (h.typed _ _ hmem 0) hsame
    have hmac : neighMac info hop (m.dstIp l3) = hopAddress neigh (nh.members 0).info (m.dstIp l3) := by
      have htable : s.neigh.rib.conf.neighTables = info.neighTables := by
        rw [RibState.conf, hpub]
        rfl
      rw [← hopAddress_congr hsame htype, hopAddress]
      exact Represents.neighMac (htable ▸ hneigh _ (afToNeighTable_lt hop.family))
    dsimp only
    rw [hmac]
    cases haddress : hopAddress neigh (nh.members 0).info (m.dstIp l3) with
    | none =>
      dsimp only
      rw [requestNeigh_congr hsame htype]
      exact .unresolved hlongest haddress
    | some mac =>
      have hoif : hop.oif = (nh.members 0).info.oif := by
        simp only [NhInfo.same, Bool.and_eq_true, decide_eq_true_eq] at hsame
        exact hsame.2
      rw [hoif]
      exact .routed hlongest haddress

/-! ## Runs -/

/-- **Frames are forwarded by what was announced**, in every version of a run in which no message
    between the managers is lost. -/
theorem forwarded_as_announced {events : List NeighEvent}
    (h : Lib.Stepwise DataPlaneStep .start Announceable events) :
    Lib.Throughout DataPlaneStep .start ForwardsAsAnnounced events := by
  have hstart : Following .start := ⟨lagging_start fun _ _ => rfl, heard_start⟩
  have hguard : ∀ s event t, Following s → Routed s → DataPlaneStep s event t → Announceable s event →
      Routed t := fun _ _ _ _ hs hstep hguard => hs.step hstep hguard
  have hrouted := Lib.throughout_of_stepwise Following hstart (fun _ _ _ => Following.step) routed_start
    hguard h
  intro pre s hpre hrun
  obtain ⟨hlag, hheard⟩ := hrun.invariant Following hstart fun _ _ _ => Following.step
  have htables : ∀ type, ∃ n, type < NEIGH_NR_TABLES → n ≤ (s.asked type).length
      ∧ (s.neigh.pending type = [] → n = (s.asked type).length)
      ∧ Represents type (s.neigh.rib.conf.neighTables type)
        (neighRun type ((s.asked type).take n)).2 := by
    intro type
    by_cases htype : type < NEIGH_NR_TABLES
    · obtain ⟨n, hn⟩ := (hheard type).represents hlag htype
      exact ⟨n, fun _ => hn⟩
    · exact ⟨0, fun h => absurd h htype⟩
  choose n hn using htables
  refine ⟨n, fun type htype => ⟨(hn type htype).1, (hn type htype).2.1⟩, ?_⟩
  intro info hpub dpdk rxPort rxLink m l3
  exact (hrouted pre s hpre hrun).forwards (fun type htype => (hn type htype).2.2) hpub dpdk rxPort
    rxLink m l3

/-- A default route that needs no gateway. -/
def onlinkRoute : InternalMsgRouteEntry :=
  { defaultRoute with
    nh := ⟨0, 1, fun _ => ⟨0, ⟨AF_INET, .connected, .zero, 1, 0⟩, 1⟩, one_le_maxEcmpEntry⟩ }

/-- The route comes, a neighbor is announced, and the message about it arrives. -/
theorem forwarded_as_announced_onlink : Lib.Throughout DataPlaneStep .start ForwardsAsAnnounced
    [.other .plain (.routing (.routeEntryAdd onlinkRoute)), .request (.add 0 .zero), .process .plain] := by
  have hroute : Lib.Stepwise DataPlaneStep .start Announceable
      [.other .plain (.routing (.routeEntryAdd onlinkRoute))] := by
    refine Lib.Stepwise.snoc Lib.stepwise_nil fun s t hrun _ => ?_
    obtain rfl := hrun.nil_inv
    have hgood : NhGood Routing.init.nh := NhGood.init
    have hcontent : ContentRoute onlinkRoute := ⟨⟨rfl, .inl rfl, rfl⟩, rfl, rfl, le_refl 1, fun _ _ => rfl⟩
    have hroom : ¬Refused true Routing.init.nh onlinkRoute.nh := by
      rw [refused_iff hgood]
      decide +kernel
    refine ⟨⟨Env.plain_allocs, hcontent, hroom, fun h => absurd h (by decide)⟩, fun routing h i => ?_⟩
    obtain rfl := Msg.routing.inj h
    exact iff_of_true rfl rfl
  have hrequest : Lib.Stepwise DataPlaneStep .start Announceable
      [.other .plain (.routing (.routeEntryAdd onlinkRoute)), .request (.add 0 .zero)] := by
    refine hroute.snoc fun s _ _ _ => ?_
    trivial
  refine forwarded_as_announced (hrequest.snoc fun s _ _ _ => ?_)
  trivial

end SdPlane
