import SdPlane.Fdb
import SdPlane.Ingress

/-!
# Switching in the router (`net_subr.h`)

What the router does not route it switches: to the link of the vswitch on the port where the
destination was learned, or to all links, if the destination was not learned or is a group. A
frame is not sent back on the link that it came in on; a frame that the router has made itself
came in on no link, and from the port `ROUTER_IF_RX_SELF_PORT_ID`.

Besides what is sent, `Switched` has what was looked up and whether the frame was flooded.
-/

set_option autoImplicit false

namespace SdPlane

def ROUTER_IF_RX_SELF_PORT_ID : Nat := 65535

namespace Mbuf

/-- `rte_is_multicast_ether_addr (&eth->dst_addr)`. -/
def isMulticast (m : Mbuf) : Bool := decide (m.bytes 0 &&& 1 ≠ 0)

/-- `rte_is_broadcast_ether_addr (&eth->dst_addr)`. -/
def isBroadcast (m : Mbuf) : Bool := decide (m.dstAddr = Vector.replicate 6 0xff)

/-- A broadcast is a multicast. -/
theorem not_broadcast {m : Mbuf} (h : m.isMulticast = false) : m.isBroadcast = false := by
  by_contra hnot
  have hall : m.dstAddr = Vector.replicate 6 0xff := by simpa [isBroadcast] using hnot
  have hfirst := congrArg (fun a : EtherAddr => a[0]) hall
  simp [dstAddr] at hfirst
  rw [isMulticast, hfirst] at h
  cases h

theorem not_group {m : Mbuf} (h : m.isMulticast = false) :
    ¬ (m.isMulticast = true ∨ m.isBroadcast = true) := by
  rw [h, not_broadcast h]
  decide

end Mbuf

/-- A search over the links of a vswitch: the place and the link. -/
def searchLinks (v : VswitchConf) (q : Nat → Bool) : List Nat → Except Fault (Option (Nat × Nat))
  | [] => .ok none
  | i :: rest =>
    if MAX_VSWITCH_PORTS ≤ i ∨ MAX_VSWITCH_LINK ≤ (v.vswitchLinkId i).toNat then
      .error .outOfBounds
    else if q (v.vswitchLinkId i).toNat then .ok (some (i, (v.vswitchLinkId i).toNat))
    else searchLinks v q rest

/-- `_send_link`. -/
def routerSendLink (dpdk : Dpdk) (c : RibConf) (i : Nat) (m : Mbuf) (rxLink : Option Nat)
    (txPort l : Nat) : Except Fault (List Tx) :=
  sendLink dpdk c i (decide (rxLink = some l)) m txPort l

structure Switched where
  lookup : Option (EtherAddr × UInt16)
  flooded : Bool
  sent : List Tx

/-- `routerIf` is what the router interface gets. -/
structure SwitchingOut extends Switched where
  routerIf : Option Mbuf

/-- A round of the loop in `_flooding`. -/
def floodingRound (dpdk : Dpdk) (c : RibConf) (m : Mbuf) (rxLink : Option Nat) (i l : Nat) :
    Except Fault (List Tx) :=
  if MAX_ETH_PORTS ≤ (c.vswitchLink l).portId.toNat then .error .outOfBounds
  else if (c.port (c.vswitchLink l).portId.toNat).isStopped = true then .ok []
  else routerSendLink dpdk c i m rxLink (c.vswitchLink l).portId.toNat l

/-- Flooding is also for the router interface, unless the frame is its own. -/
def floodingRouterIf (dpdk : Dpdk) (rxPort : Nat) (rif : RouterIf) (m : Mbuf) :
    Except Fault (Option Mbuf) :=
  if rxPort ≠ ROUTER_IF_RX_SELF_PORT_ID ∧ rif.sockfd ≥ 0 ∧ rif.ringUp ≠ 0 then
    routerIfFrame dpdk rif true m
  else .ok none

/-- `_flooding`. -/
def flooding (dpdk : Dpdk) (c : RibConf) (rxPort : Nat) (rxLink : Option Nat) (v : VswitchConf)
    (lookup : Option (EtherAddr × UInt16)) (m : Mbuf) : Except Fault SwitchingOut := do
  let sent ← forLinks v (floodingRound dpdk c m rxLink)
  let routerIf ← floodingRouterIf dpdk rxPort v.routerIf m
  .ok ⟨⟨lookup, true, sent⟩, routerIf⟩

/-- `_switching`. -/
def switching (dpdk : Dpdk) (c : RibConf) (rxPort : Nat) (rxLink : Option Nat) (v : VswitchConf)
    (m : Mbuf) : Except Fault SwitchingOut :=
  if v.isDeleted = true then .ok ⟨⟨none, false, []⟩, none⟩
  else if m.isMulticast = true ∨ m.isBroadcast = true then
    flooding dpdk c rxPort rxLink v none m
  else
    let dstPort := fdbLookupEntry c.fdb m.dstAddr v.vlanId
    if dstPort ≥ 0 then
      match searchLinks v (fun l => decide (((c.vswitchLink l).portId.toNat : Int) = dstPort))
          (List.range v.vswitchPortSize.toNat) with
      | .error e => .error e
      | .ok (some (i, l)) =>
        match routerSendLink dpdk c i m rxLink dstPort.toNat l with
        | .error e => .error e
        | .ok sent => .ok ⟨⟨some (m.dstAddr, v.vlanId), false, sent⟩, none⟩
      | .ok none => flooding dpdk c rxPort rxLink v (some (m.dstAddr, v.vlanId)) m
    else flooding dpdk c rxPort rxLink v (some (m.dstAddr, v.vlanId)) m

/-! ## What they do -/

theorem searchLinks_of {v : VswitchConf} (q : Nat → Bool) {places : List Nat}
    (hroom : ∀ i ∈ places, i < MAX_VSWITCH_PORTS ∧ (v.vswitchLinkId i).toNat < MAX_VSWITCH_LINK) :
    searchLinks v q places = .ok ((places.find? fun i => q (v.vswitchLinkId i).toNat).map fun i =>
      (i, (v.vswitchLinkId i).toNat)) := by
  induction places with
  | nil => rfl
  | cons i rest ih =>
    obtain ⟨hi, hl⟩ := hroom i List.mem_cons_self
    have hrest := ih fun j hj => hroom j (List.mem_cons_of_mem i hj)
    rw [searchLinks, if_neg (not_or.mpr ⟨Nat.not_le.mpr hi, Nat.not_le.mpr hl⟩)]
    cases hq : q (v.vswitchLinkId i).toNat with
    | true => simp [hq]
    | false => simp [hq, hrest]

/-- What is found stands at its place. -/
theorem searchLinks_some {v : VswitchConf} {q : Nat → Bool} {places : List Nat} {i l : Nat}
    (h : searchLinks v q places = .ok (some (i, l))) :
    i ∈ places ∧ (v.vswitchLinkId i).toNat = l := by
  induction places with
  | nil => cases Except.ok.inj h
  | cons j rest ih =>
    rw [searchLinks] at h
    split at h
    · cases h
    · split at h
      · obtain ⟨rfl, rfl⟩ := Prod.mk.inj (Option.some.inj (Except.ok.inj h))
        exact ⟨List.mem_cons_self, rfl⟩
      · obtain ⟨hi, hl⟩ := ih h
        exact ⟨List.mem_cons_of_mem j hi, hl⟩

variable {dpdk : Dpdk} {c : RibConf} {m : Mbuf}

theorem searchLinks_eq (hw : Wired c) (v : Nat) (q : Nat → Bool) :
    searchLinks (c.vswitch v) q (List.range (c.vswitch v).vswitchPortSize.toNat)
      = .ok (((List.range (c.vswitch v).vswitchPortSize.toNat).find? fun i =>
          q ((c.vswitch v).vswitchLinkId i).toNat).map fun i =>
            (i, ((c.vswitch v).vswitchLinkId i).toNat)) := by
  apply searchLinks_of
  intro i hi
  have hi := List.mem_range.mp hi
  exact ⟨hi.trans_le (hw.room v), (hw.listed_at hi).1.trans_le hw.linkSize⟩

/-- The place of the first link of a vswitch on a port. -/
def RibConf.linkOn (c : RibConf) (v p : Nat) : Option Nat :=
  (List.range (c.vswitch v).vswitchPortSize.toNat).find? fun i =>
    decide ((c.vswitchLink ((c.vswitch v).vswitchLinkId i).toNat).portId.toNat = p)

theorem linkOn_some {v p i : Nat} (h : c.linkOn v p = some i) :
    i < (c.vswitch v).vswitchPortSize.toNat
      ∧ (c.vswitchLink ((c.vswitch v).vswitchLinkId i).toNat).portId.toNat = p := by
  obtain ⟨hp, hi, -⟩ := List.find?_range_eq_some.mp h
  exact ⟨List.mem_range.mp hi, of_decide_eq_true hp⟩

/-- The search of `_switching`. -/
theorem searchLinks_linkOn (hw : Wired c) (v p : Nat) :
    searchLinks (c.vswitch v)
        (fun l => decide (((c.vswitchLink l).portId.toNat : Int) = (p : Int)))
        (List.range (c.vswitch v).vswitchPortSize.toNat)
      = .ok ((c.linkOn v p).map fun i => (i, ((c.vswitch v).vswitchLinkId i).toNat)) := by
  rw [searchLinks_eq hw]
  simp only [Nat.cast_inj]
  rfl

theorem flooding_flooded {rxPort : Nat} {rxLink : Option Nat} {v : VswitchConf}
    {lookup : Option (EtherAddr × UInt16)} {out : SwitchingOut}
    (h : flooding dpdk c rxPort rxLink v lookup m = .ok out) : out.flooded = true := by
  obtain ⟨sent, -, h⟩ := bind_ok h
  obtain ⟨routerIf, -, h⟩ := bind_ok h
  rw [← Except.ok.inj h]

/-- A frame for a host that was learned on a port. -/
theorem switching_learned (hw : Wired c) {rxPort v p : Nat} {rxLink : Option Nat}
    (hv : c.LiveVswitch v) (hunicast : m.isMulticast = false)
    (hlearned : fdbLookupEntry c.fdb m.dstAddr (c.vswitch v).vlanId = (p : Int)) :
    switching dpdk c rxPort rxLink (c.vswitch v) m =
      match c.linkOn v p with
      | some i =>
        (routerSendLink dpdk c i m rxLink p ((c.vswitch v).vswitchLinkId i).toNat).map fun sent =>
          ⟨⟨some (m.dstAddr, (c.vswitch v).vlanId), false, sent⟩, none⟩
      | none => flooding dpdk c rxPort rxLink (c.vswitch v)
          (some (m.dstAddr, (c.vswitch v).vlanId)) m := by
  have hpos : (p : Int) ≥ 0 := Int.natCast_nonneg p
  rw [switching, if_neg (by simp [hv.2]), if_neg (Mbuf.not_group hunicast)]
  simp only [hlearned, if_pos hpos, searchLinks_linkOn hw, Int.toNat_natCast]
  cases c.linkOn v p with
  | none => rfl
  | some i =>
    dsimp only [Option.map_some]
    cases routerSendLink dpdk c i m rxLink p ((c.vswitch v).vswitchLinkId i).toNat with
    | error e => rfl
    | ok sent => rfl

end SdPlane
