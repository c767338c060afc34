import SdPlane.RibManager

/-!
# What one message does

The state of the RIB manager is looked at through two views. `routing` is what the routing
messages work on: the next hops, the hash table and the RIB trees. `fibTree` is what the
forwarding threads look addresses up in.

`Processed` says what a message does to both, in four cases: the message is dropped after a
failed check, or it is a `PORT_GET_REQUEST`, or the new version could not be allocated and none
is published, or, in every other case, the function gets to its end. That every case of the
switch is one of these is `processed_of_ok`, and nothing about the manager needs the function
itself after that.
-/

set_option autoImplicit false

namespace SdPlane

open Radix (RibTree)
open Fib (FibTree)

namespace RibState

/-- The version that is published. -/
def published (s : RibState) : Option RibInfo := s.rib.bind Rib.ribInfo

/-- The next hops that the next version starts from. -/
def nexthop (s : RibState) : Nexthop := (s.published.map RibInfo.nexthop).getD .zero

def routing (s : RibState) : Routing := ⟨⟨s.nexthop, s.nhHt⟩, s.ribTreeMaster⟩

/-- The FIB trees of the published version. -/
def fibTree (s : RibState) : Nat → Option FibTree :=
  (s.published.map RibInfo.fibTree).getD fun _ => none

end RibState

@[simp] theorem routing_init : RibState.init.routing = Routing.init := rfl

/-- What a message does to routes and next hops; most do nothing. -/
def Msg.onRouting (env : Env) (r : Routing) : Msg → Routing
  | .routing msg => routingMessage env r msg
  | .conf _ | .portGetRequest _ | .unknown _ => r

/-! ## Steps that can fail -/

theorem map_ok {α β : Type} {x : Except Fault α} {f : α → β} {b : β} (h : x.map f = .ok b) :
    ∃ a, x = .ok a ∧ f a = b := by
  cases x with
  | error e => cases h
  | ok a => exact ⟨a, rfl, Except.ok.inj h⟩

theorem deref_ok {α : Type} {o : Option α} {a : α} (h : deref o = .ok a) : o = some a := by
  cases o with
  | none => cases h
  | some a' => exact congrArg some (Except.ok.inj h)

/-! ## The parts of the function -/

/-- A new version is the published one, or the zero version before there is one, with its number
    counted up and with empty FIB trees. -/
theorem ribCreate_some {env : Env} {k : Nat} {s : RibState} {info : RibInfo}
    (h : (ribCreate env k s.rib).bind Rib.ribInfo = some info) :
    info = { (s.published.getD ⟨.zero, .zero, fun _ => none⟩) with
      ver := (s.published.getD ⟨.zero, .zero, fun _ => none⟩).ver + 1
      fibTree := newFibTrees env k } := by
  have hinfo : ribInfoCreate env k s.published = some info := by
    rw [ribCreate] at h
    split at h
    · exact h
    · cases h
  unfold ribInfoCreate at hinfo
  split at hinfo
  · cases hpub : s.published with
    | none =>
      rw [hpub] at hinfo
      exact (Option.some.inj hinfo).symm
    | some old =>
      rw [hpub] at hinfo
      exact (Option.some.inj hinfo).symm
  · cases hinfo

theorem ribCreate_info {env : Env} {k : Nat} {s : RibState} {info : RibInfo}
    (h : (ribCreate env k s.rib).bind Rib.ribInfo = some info) :
    info.nexthop = s.nexthop ∧ info.fibTree = newFibTrees env k := by
  obtain rfl := ribCreate_some h
  refine ⟨?_, rfl⟩
  rw [RibState.nexthop]
  cases s.published with
  | none => rfl
  | some old => rfl

theorem ribCreate_allocs {env : Env} (h : env.AllocsOk) (k : Nat) (old : Option Rib) :
    ∃ info, (ribCreate env k old).bind Rib.ribInfo = some info := by
  rw [ribCreate, h.rib]
  cases hold : old.bind Rib.ribInfo with
  | none => exact ⟨_, by simp [ribInfoCreate, h.ribInfo]; rfl⟩
  | some info => exact ⟨_, by simp [ribInfoCreate, h.ribInfo]; rfl⟩

/-- Stopping the ports of a version and starting them again touches nothing else of it. -/
theorem stopPorts_ok {env : Env} {flag : Bool} {s : RibState} {rib : Option Rib}
    (h : stopPorts env flag s.rib = .ok rib) :
    ({ s with rib := rib } : RibState).routing = s.routing
      ∧ ({ s with rib := rib } : RibState).fibTree = s.fibTree := by
  rw [stopPorts] at h
  split at h
  · obtain rfl := Except.ok.inj h
    exact ⟨rfl, rfl⟩
  · obtain ⟨info, hinfo, h⟩ := bind_ok h
    obtain ⟨conf, -, h⟩ := bind_ok h
    obtain rfl := Except.ok.inj h
    have hpub : s.published = some info := deref_ok hinfo
    constructor
    · simp only [RibState.routing, RibState.nexthop, hpub]
      rfl
    · simp only [RibState.fibTree, hpub]
      rfl

theorem publish_ok {env : Env} {s t : RibState} {info : RibInfo}
    (h : publish env s (some ⟨some info⟩) = .ok t) :
    t.routing = ⟨⟨info.nexthop, s.nhHt⟩, s.ribTreeMaster⟩
      ∧ t.fibTree = rebuildFibs env s.ribTreeMaster info.fibTree := by
  obtain rfl := Except.ok.inj h
  exact ⟨rfl, rfl⟩

/-! ## The function -/

/-- What became of a message. -/
inductive Processed (env : Env) (s : RibState) : Msg → RibState → Prop
  | dropped {msg : ConfMsg} {t : RibState} (hrouting : t.routing = s.routing)
      (hfib : t.fibTree = s.fibTree) : Processed env s (.conf msg) t
  | portGet {portId : UInt16} {t : RibState} (hrouting : t.routing = s.routing)
      (hfib : t.fibTree = newFibTrees env 1) : Processed env s (.portGetRequest portId) t
  | lost {type : UInt32} {t : RibState} (hallocs : ¬ env.AllocsOk)
      (hrouting : t.routing = ⟨⟨.zero, s.nhHt⟩, s.ribTreeMaster⟩) :
      Processed env s (.unknown type) t
  | rebuilt {msg : Msg} {t : RibState} (hmsg : ∀ portId, msg ≠ .portGetRequest portId)
      (hrouting : t.routing = msg.onRouting env s.routing)
      (hfib : t.fibTree = rebuildFibs env t.ribTreeMaster (newFibTrees env 0)) :
      Processed env s msg t

/-- A port request publishes a version of its own, with what the driver says of the port. -/
theorem portGet_ok {env : Env} {s t : RibState} {portId : UInt16}
    (h : ribManagerProcessMessage env s (.portGetRequest portId) = .ok t) :
    ∃ info, (ribCreate env 1 s.rib).bind Rib.ribInfo = some info
      ∧ t = { s with rib := some ⟨some { info with
          toRibConf := info.toRibConf.setPort portId.toNat fun p => { p with
            dpdkPortId := portId
            devInfo := env.devInfo portId.toNat
            link := env.link portId.toNat } }⟩ } := by
  obtain ⟨t', h', h⟩ := bind_ok h
  obtain ⟨_, -, h⟩ := bind_ok h
  obtain rfl := Except.ok.inj h
  obtain ⟨info, hinfo, h'⟩ := bind_ok h'
  obtain ⟨_, -, h'⟩ := bind_ok h'
  obtain rfl := Except.ok.inj h'
  exact ⟨info, deref_ok hinfo, rfl⟩

theorem processed_portGet {env : Env} {s t : RibState} {portId : UInt16}
    (h : ribManagerProcessMessage env s (.portGetRequest portId) = .ok t) :
    Processed env s (.portGetRequest portId) t := by
  obtain ⟨info, hinfo, rfl⟩ := portGet_ok h
  obtain ⟨hnexthop, hfib⟩ := ribCreate_info hinfo
  refine .portGet ?_ ?_
  · show (⟨⟨info.nexthop, s.nhHt⟩, s.ribTreeMaster⟩ : Routing) = s.routing
    rw [hnexthop]
    rfl
  · exact hfib

theorem processed_conf {env : Env} {s t : RibState} {msg : ConfMsg}
    (h : ribManagerProcessMessage env s (.conf msg) = .ok t) : Processed env s (.conf msg) t := by
  obtain ⟨info, hinfo, h⟩ := bind_ok h
  obtain ⟨result, -, h⟩ := bind_ok h
  obtain ⟨hnexthop, hfib⟩ := ribCreate_info (deref_ok hinfo)
  cases result with
  | none =>
    obtain ⟨rib, hrib, h⟩ := bind_ok h
    obtain rfl := Except.ok.inj h
    obtain ⟨hrouting, hfib⟩ := stopPorts_ok hrib
    exact .dropped hrouting hfib
  | some result =>
    obtain ⟨hrouting, htree⟩ := publish_ok h
    refine .rebuilt (by intro portId; exact nofun) ?_ ?_
    · rw [hrouting]
      show (⟨⟨info.nexthop, s.nhHt⟩, s.ribTreeMaster⟩ : Routing) = s.routing
      rw [hnexthop]
      rfl
    · rw [htree, show t.ribTreeMaster = s.ribTreeMaster from congrArg Routing.ribTreeMaster hrouting]
      exact congrArg _ hfib

theorem processed_routing {env : Env} {s t : RibState} {msg : RoutingMsg}
    (h : ribManagerProcessMessage env s (.routing msg) = .ok t) :
    Processed env s (.routing msg) t := by
  obtain ⟨info, hinfo, h⟩ := bind_ok h
  obtain ⟨hnexthop, hfib⟩ := ribCreate_info (deref_ok hinfo)
  obtain ⟨hrouting, htree⟩ := publish_ok h
  rw [show (⟨⟨info.nexthop, s.nhHt⟩, s.ribTreeMaster⟩ : Routing) = s.routing by
    rw [hnexthop]; rfl] at hrouting htree
  refine .rebuilt (by intro portId; exact nofun) hrouting ?_
  rw [htree, show t.ribTreeMaster = (routingMessage env s.routing msg).ribTreeMaster from
    congrArg Routing.ribTreeMaster hrouting]
  exact congrArg _ hfib

theorem processed_unknown {env : Env} {s t : RibState} {type : UInt32}
    (h : ribManagerProcessMessage env s (.unknown type) = .ok t) :
    Processed env s (.unknown type) t := by
  cases hnew : (ribCreate env 0 s.rib).bind Rib.ribInfo with
  | none =>
    have hallocs : ¬ env.AllocsOk := by
      intro hallocs
      obtain ⟨info, hinfo⟩ := ribCreate_allocs hallocs 0 s.rib
      rw [hnew] at hinfo
      cases hinfo
    simp only [ribManagerProcessMessage, publish, hnew] at h
    split at h
    · cases h
    · obtain rfl := Except.ok.inj h
      refine .lost hallocs ?_
      simp only [RibState.routing, RibState.nexthop, RibState.published, hnew]
      rfl
  | some info =>
    obtain ⟨hnexthop, hfib⟩ := ribCreate_info hnew
    simp only [ribManagerProcessMessage, publish, hnew] at h
    obtain rfl := Except.ok.inj h
    refine .rebuilt (by intro portId; exact nofun) ?_ ?_
    · show (⟨⟨info.nexthop, s.nhHt⟩, s.ribTreeMaster⟩ : Routing) = s.routing
      rw [hnexthop]
      rfl
    · exact congrArg (rebuildFibs env s.ribTreeMaster) hfib

/-- **Every message is processed in one of the four ways.** -/
theorem processed_of_ok {env : Env} {s t : RibState} {msg : Msg}
    (h : ribManagerProcessMessage env s msg = .ok t) : Processed env s msg t := by
  cases msg with
  | conf msg => exact processed_conf h
  | portGetRequest portId => exact processed_portGet h
  | routing msg => exact processed_routing h
  | unknown type => exact processed_unknown h

/-- The result of a routing message, where there is one. -/
theorem routing_of_ok {env : Env} {s t : RibState} {msg : RoutingMsg}
    (h : ribManagerProcessMessage env s (.routing msg) = .ok t) :
    t.routing = routingMessage env s.routing msg := by
  cases processed_of_ok h with
  | rebuilt _ hrouting _ => exact hrouting

/-! ## Messages that cannot fault -/

theorem routing_message_ok {env : Env} (h : env.AllocsOk) (s : RibState) (msg : RoutingMsg) :
    ∃ t, ribManagerProcessMessage env s (.routing msg) = .ok t := by
  obtain ⟨info, hinfo⟩ := ribCreate_allocs h 0 s.rib
  simp only [ribManagerProcessMessage, hinfo, deref]
  exact ⟨_, rfl⟩

theorem portGetRequest_ok {env : Env} (h : env.AllocsOk) (s : RibState) {portId : UInt16}
    (hport : portId.toNat < MAX_ETH_PORTS) :
    ∃ t, ribManagerProcessMessage env s (.portGetRequest portId) = .ok t := by
  obtain ⟨info, hinfo⟩ := ribCreate_allocs h 1 s.rib
  have hnew : ribCreate env 0 s.rib
      = some ⟨ribInfoCreate env 0 (s.rib.bind Rib.ribInfo)⟩ := by rw [ribCreate, h.rib, if_pos rfl]
  simp only [ribManagerProcessMessage, ribManagerProcessPortGet, hinfo, hnew, deref, inBounds,
    if_pos hport]
  exact ⟨_, rfl⟩

end SdPlane
