import SdPlane.Routed

/-!
# How often a frame goes to the router interface (`router.c`, `net_subr.h`)

A multicast or broadcast frame is given to the router interface before anything else is done with
it. If it is no control frame it is switched, which for such a frame means flooded, and flooding is
also for the router interface. So the interface gets it twice: that is what `PuntedTwice` says, and
no other way through `_process_rx_packet` leads to the interface more than once.
-/

set_option autoImplicit false

namespace SdPlane

/-- The copies of the frame that the router interface of its vswitch gets. -/
def RouterOut.punts (out : RouterOut) : List Mbuf :=
  out.routerIf.toList ++ match out.disposition with
    | .switched switched => switched.routerIf.toList
    | _ => []

/-- There is memory for a copy, and room in the ring. -/
def Takes (dpdk : RouterDpdk) (rif : RouterIf) (again : Bool) (m : Mbuf) : Prop :=
  ∃ c, routerIfFrame dpdk.toDpdk rif again m = .ok (some c)

/-- A frame on link `rx` of vswitch `v` that goes both ways. -/
structure GoesTwice (dpdk : RouterDpdk) (info : RibInfo) (rxPort : Nat) (m : Mbuf) (rx v : Nat) :
    Prop where
  received : classify info.toRibConf rxPort m = .ok (some (rx, v))
  live : (info.vswitch v).isDeleted = false
  up : (info.vswitch v).routerIf.sockfd ≥ 0 ∧ (info.vswitch v).routerIf.ringUp ≠ 0
  group : (m.isMulticast || m.isBroadcast) = true
  other : m.dstAddr ≠ (info.vswitch v).routerIf.macAddr
  data : (checkControlPacket m (info.vswitch v).routerIf).1 = false
  first : Takes dpdk (info.vswitch v).routerIf false m
  second : Takes dpdk (info.vswitch v).routerIf true m

def PuntedTwice (dpdk : RouterDpdk) (info : RibInfo) (rxPort : Nat) (m : Mbuf) : Prop :=
  ∃ rx v, GoesTwice dpdk info rxPort m rx v

section

variable {dpdk : RouterDpdk} {info : RibInfo} {rxPort rx v : Nat} {m : Mbuf}

theorem punts_length (out : RouterOut) :
    out.punts.length ≤ 1 ↔ ¬ ∃ a switched b, out.routerIf = some a ∧
      out.disposition = .switched switched ∧ switched.routerIf = some b := by
  obtain ⟨captureIf, routerIf, neigh, disposition⟩ := out
  cases disposition with
  | switched switched =>
    obtain ⟨lookup, b⟩ := switched
    cases routerIf <;> cases b <;> simp [RouterOut.punts]
  | _ => cases routerIf <;> simp [RouterOut.punts]

theorem flooding_routerIf {rxLink : Option Nat} {vs : VswitchConf}
    {lookup : Option (EtherAddr × UInt16)} {switched : SwitchingOut}
    (h : flooding dpdk.toDpdk info.toRibConf rxPort rxLink vs lookup m = .ok switched) :
    floodingRouterIf dpdk.toDpdk rxPort vs.routerIf m = .ok switched.routerIf := by
  obtain ⟨sent, -, h⟩ := bind_ok h
  obtain ⟨routerIf, hrouterIf, h⟩ := bind_ok h
  rw [← Except.ok.inj h]
  exact hrouterIf

/-- What the router interface gets of a frame that is switched, it gets because it is flooded. -/
theorem switching_routerIf {rxLink : Option Nat} {vs : VswitchConf} {switched : SwitchingOut}
    {b : Mbuf} (h : switching dpdk.toDpdk info.toRibConf rxPort rxLink vs m = .ok switched)
    (hb : switched.routerIf = some b) :
    vs.isDeleted = false ∧ (vs.routerIf.sockfd ≥ 0 ∧ vs.routerIf.ringUp ≠ 0) ∧
      routerIfFrame dpdk.toDpdk vs.routerIf true m = .ok (some b) := by
  rw [switching] at h
  split at h
  · rw [← Except.ok.inj h] at hb
    cases hb
  · next hlive =>
    refine ⟨by simpa using hlive, ?_⟩
    have hflooding : floodingRouterIf dpdk.toDpdk rxPort vs.routerIf m = .ok (some b) := by
      rw [← hb]
      split at h
      · exact flooding_routerIf h
      · dsimp only at h
        split at h
        · split at h
          · cases h
          · split at h
            · cases h
            · rw [← Except.ok.inj h] at hb
              cases hb
          · exact flooding_routerIf h
        · exact flooding_routerIf h
    rw [floodingRouterIf] at hflooding
    split at hflooding
    · next hup => exact ⟨hup.2, hflooding⟩
    · cases hflooding

/-- A frame that is switched is not the router's own and no control frame, and the router interface
    has it already if it is for a group. -/
theorem switched_of {out : RouterOut} {switched : SwitchingOut}
    (h : routerProcessRxPacket dpdk info rxPort m = .ok out)
    (hs : out.disposition = .switched switched) :
    ∃ rx v, classify info.toRibConf rxPort m = .ok (some (rx, v)) ∧
      m.dstAddr ≠ (info.vswitch v).routerIf.macAddr ∧
      ((info.vswitch v).routerIf.sockfd ≥ 0 ∧ (info.vswitch v).routerIf.ringUp ≠ 0 →
        (checkControlPacket m (info.vswitch v).routerIf).1 = false) ∧
      (if (m.isMulticast || m.isBroadcast) = true then
        routerIfFrame dpdk.toDpdk (info.vswitch v).routerIf false m else .ok none) =
          .ok out.routerIf ∧
      switching dpdk.toDpdk info.toRibConf rxPort (some rx) (info.vswitch v) m = .ok switched := by
  unfold routerProcessRxPacket at h
  split at h
  · cases h
  · obtain rfl := Except.ok.inj h
    cases hs
  · next rx v hrx =>
    dsimp only at h
    split at h
    · obtain ⟨_, -, rfl⟩ := map_ok h
      cases hs
    split at h
    · cases h
    next routerIf hfirst =>
    split at h
    · split at h
      · obtain rfl := Except.ok.inj h
        cases hs
      · obtain ⟨_, -, rfl⟩ := map_ok h
        cases hs
    next neigh hcontrol =>
    obtain ⟨disposition, hdisposition, rfl⟩ := map_ok h
    obtain rfl : disposition = _ := hs
    unfold switchOrRoute at hdisposition
    split at hdisposition
    · next hother =>
      obtain ⟨switched', hswitching, hsame⟩ := map_ok hdisposition
      obtain rfl := Disposition.switched.inj hsame
      refine ⟨rx, v, hrx, hother, fun hup => ?_, hfirst, hswitching⟩
      rw [if_pos hup] at hcontrol
      rw [hcontrol]
    · split at hdisposition
      · cases Except.ok.inj hdisposition
      · obtain ⟨_, -, hsame⟩ := map_ok hdisposition
        cases hsame

/-- The way of a frame that goes twice. -/
theorem GoesTwice.punts {out : RouterOut} (h : GoesTwice dpdk info rxPort m rx v)
    (hout : routerProcessRxPacket dpdk info rxPort m = .ok out) :
    ∃ a switched b, out.routerIf = some a ∧ out.disposition = .switched switched ∧
      switched.routerIf = some b := by
  obtain ⟨a, ha⟩ := h.first
  obtain ⟨b, hb⟩ := h.second
  have hnot : forRouterIf m (info.vswitch v).routerIf = false := by
    rw [forRouterIf, decide_eq_false h.other, Bool.false_and]
  have hself : rxPort ≠ ROUTER_IF_RX_SELF_PORT_ID := by
    have hport := classify_port h.received
    rw [ROUTER_IF_RX_SELF_PORT_ID]
    rw [MAX_ETH_PORTS] at hport
    omega
  obtain ⟨neigh, hcontrol⟩ : ∃ neigh, checkControlPacket m (info.vswitch v).routerIf = (false, neigh) :=
    ⟨_, by rw [← h.data]⟩
  simp only [routerProcessRxPacket, h.received, hnot, Bool.false_eq_true, if_false, h.group, if_true,
    ha, if_pos h.up, hcontrol] at hout
  obtain ⟨disposition, hdisposition, rfl⟩ := map_ok hout
  rw [switchOrRoute, if_pos h.other] at hdisposition
  obtain ⟨switched, hswitching, rfl⟩ := map_ok hdisposition
  refine ⟨a, switched, b, rfl, rfl, ?_⟩
  rw [switching, if_neg (by simp [h.live]), if_pos (by simpa using h.group)] at hswitching
  have hflooding := flooding_routerIf hswitching
  rw [floodingRouterIf, if_pos ⟨hself, h.up⟩, hb] at hflooding
  exact (Except.ok.inj hflooding).symm

end

/-- A frame that is processed goes to the router interface at most once exactly when it is not
    `PuntedTwice`. -/
theorem punted_once_iff (dpdk : RouterDpdk) (info : RibInfo) (rxPort : Nat) (m : Mbuf)
    (out : RouterOut) (hout : routerProcessRxPacket dpdk info rxPort m = .ok out) :
    out.punts.length ≤ 1 ↔ ¬ PuntedTwice dpdk info rxPort m := by
  rw [punts_length, not_iff_not]
  constructor
  · rintro ⟨a, switched, b, ha, hs, hb⟩
    obtain ⟨rx, v, hrx, hother, hdata, hfirst, hswitching⟩ := switched_of hout hs
    obtain ⟨hlive, hup, hsecond⟩ := switching_routerIf hswitching hb
    rw [ha] at hfirst
    split at hfirst
    · next hgroup => exact ⟨rx, v, hrx, hlive, hup, hgroup, hother, hdata hup, ⟨a, hfirst⟩, ⟨b, hsecond⟩⟩
    · cases hfirst
  · rintro ⟨rx, v, h⟩
    exact h.punts hout

/-- A vswitch with one port and a router interface that is up. -/
def withRouterIf : RibInfo where
  toRibConf := { RibConf.zero with
    vswitchSize := 1
    vswitchLinkSize := 1
    portSize := 1
    vswitch := fun _ => { VswitchConf.zero with
      vswitchPortSize := 1
      routerIf := { RouterIf.zero with sockfd := 5, ringUp := 1, macAddr := routerMac } } }
  nexthop := .zero
  fibTree := fun _ => none

/-- A broadcast that is neither ARP nor anything else for the router. -/
def broadcast : Mbuf := .ofList [255, 255, 255, 255, 255, 255, 2, 0, 0, 0, 0, 1, 0x88, 0xb5]

theorem broadcast_processed : ∃ out, routerProcessRxPacket (.plain 1) withRouterIf 0 broadcast = .ok out ∧
    out.punts.length = 2 := by
  have hcount : (match routerProcessRxPacket (.plain 1) withRouterIf 0 broadcast with
      | .ok out => some out.punts.length
      | .error _ => none) = some 2 := by decide +kernel
  split at hcount
  · next out hout => exact ⟨out, hout, Option.some.inj hcount⟩
  · cases hcount

theorem punted_once_iff_broadcast : ∃ out,
    routerProcessRxPacket (.plain 1) withRouterIf 0 broadcast = .ok out ∧
      (out.punts.length ≤ 1 ↔ ¬ PuntedTwice (.plain 1) withRouterIf 0 broadcast) := by
  obtain ⟨out, hout, -⟩ := broadcast_processed
  exact ⟨out, hout, punted_once_iff (.plain 1) withRouterIf 0 broadcast out hout⟩

theorem broadcast_punted_twice :
    ¬ ∀ (dpdk : RouterDpdk) (info : RibInfo) (rxPort : Nat) (m : Mbuf) (out : RouterOut),
      routerProcessRxPacket dpdk info rxPort m = .ok out → out.punts.length ≤ 1 := by
  intro h
  obtain ⟨out, hout, htwo⟩ := broadcast_processed
  have hone := h _ _ _ _ out hout
  omega

end SdPlane
