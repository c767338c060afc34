import SdPlane.Headers

/-!
# Routing (`router.c`, `net_subr.h`)

A frame for the router's own address goes through two tables: the FIB says which next hop, the
neighbor table which address that has. The vswitch whose router interface is the outgoing
interface, and the forwarding database of it, say on which link the frame leaves. Then the header
is rewritten in place, and the link gets a copy.

A neighbor that is not known is asked for. The request is flooded, and the frame is dropped.

`_process_rx_packet` is the whole path of a received frame: who it is for, and what becomes of it.
-/

set_option autoImplicit false

namespace SdPlane

/-- What an `int` has of an `uint32_t`. -/
def toInt32 (n : Nat) : Int := (n : Int).bmod (2 ^ 32)

/-- `dst_ip`. -/
def Mbuf.dstIp (m : Mbuf) : L3 → IpAddr
  | .ipv4 off => Vector.ofFn fun k => if k.val < 4 then m.bytes (off + 16 + k) else 0
  | .ipv6 off => m.bytesAt (off + 24) 16
  | .other => .zero

def L3.treeIdx : L3 → Nat
  | .ipv4 _ => 0
  | .ipv6 _ | .other => 1

/-- The next hop of a destination. -/
def routeNexthop (info : RibInfo) (treeIdx : Nat) (dstIp : IpAddr) : Except Fault (Option NhInfo) :=
  match info.fibTree treeIdx with
  | none => .error .nullPointer
  | some tree =>
    match Fib.fibRouteLookup tree dstIp with
    | none => .ok none
    | some node =>
      match nexthopGetInfoByIndex info.nexthop node.nhId with
      | none => .error .nullPointer
      | some nhInfo => .ok (some nhInfo)

/-- The address that the neighbor is looked up by. -/
def NhInfo.lookupIp (nhInfo : NhInfo) (dstIp : IpAddr) : IpAddr :=
  if nhInfo.type = .connected then dstIp else nhInfo.gw

/-- `AF_TO_NEIGH_TABLE`. -/
def afToNeighTable (family : Int) : Nat :=
  if family = AF_INET then NEIGH_ARP_TABLE else NEIGH_ND_TABLE

/-- The neighbor, if there is an entry and it is resolved. -/
def neighMac (info : RibInfo) (nhInfo : NhInfo) (dstIp : IpAddr) : Option EtherAddr :=
  let type := afToNeighTable nhInfo.family
  let table := info.neighTables type
  match neighManagerLookup table type (nhInfo.lookupIp dstIp) with
  | (pos, true) =>
    if (table.entries pos).macAddr = zeros 6 then none else some (table.entries pos).macAddr
  | (_, false) => none

/-- ARP or ND resolution, on the vswitch of the outgoing interface. Deleted ones are not passed
    over here. -/
def requestNeigh (dpdk : RouterDpdk) (info : RibInfo) (nhInfo : NhInfo) (dstIp : IpAddr) :
    Except Fault (Option SwitchingOut) :=
  match (List.range info.vswitchSize.toNat).find? fun i =>
      decide ((info.vswitch i).routerIf.ifindex = toInt32 nhInfo.oif) with
  | none => .ok none
  | some i =>
    let rif := (info.vswitch i).routerIf
    if dpdk.pktmbufAlloc = true then
      let m :=
        if nhInfo.family = AF_INET then
          arpReqPktGen rif.macAddr rif.ipv4Addr (nhInfo.lookupIp dstIp)
        else nsPktGen dpdk rif.macAddr rif.llAddr (nhInfo.lookupIp dstIp)
      (flooding dpdk.toDpdk info.toRibConf ROUTER_IF_RX_SELF_PORT_ID none (info.vswitch i) none m).map
        some
    else .ok none

/-- The vswitch that a routed frame leaves from. -/
def targetVswitch (info : RibInfo) (oif : Int) : Option Nat :=
  (List.range info.vswitchSize.toNat).find? fun i =>
    !(info.vswitch i).isDeleted && decide ((info.vswitch i).routerIf.ifindex = oif)

structure EgressLink where
  vswitch : Nat
  place : Nat
  link : Nat
  port : Nat

/-- The link that it leaves on, if the port is not stopped. -/
def egressLink (info : RibInfo) (oif : Int) (dstMac : EtherAddr) :
    Except Fault (Option EgressLink) :=
  match targetVswitch info oif with
  | none => .ok none
  | some v =>
    let dstPort := fdbLookupEntry info.fdb dstMac (info.vswitch v).vlanId
    if dstPort < 0 then .ok none
    else
      match searchLinks (info.vswitch v)
          (fun l => decide (((info.vswitchLink l).portId.toNat : Int) = dstPort))
          (List.range (info.vswitch v).vswitchPortSize.toNat) with
      | .error e => .error e
      | .ok none => .ok none
      | .ok (some (i, l)) =>
        if MAX_ETH_PORTS ≤ dstPort.toNat then .error .outOfBounds
        else if (info.port dstPort.toNat).isStopped = true then .ok none
        else .ok (some ⟨v, i, l, dstPort.toNat⟩)

/-- The header of layer 3, on the way through. -/
def rewriteL3 (dpdk : RouterDpdk) (m : Mbuf) : L3 → Mbuf
  | .ipv4 off =>
    let m := (m.setByte (off + 8) (m.bytes (off + 8) - 1)).setBe16 (off + 10) 0
    m.setBe16 (off + 10) (dpdk.ipv4Cksum m off)
  | .ipv6 off => m.setByte (off + 7) (m.bytes (off + 7) - 1)
  | .other => m

/-- Frames of the router itself are not rewritten. -/
def rewrite (dpdk : RouterDpdk) (rxPort : Nat) (m : Mbuf) (l3 : L3) (srcMac dstMac : EtherAddr) :
    Mbuf :=
  if rxPort ≠ ROUTER_IF_RX_SELF_PORT_ID then
    ((rewriteL3 dpdk m l3).setBytes 6 srcMac).setBytes 0 dstMac
  else m

inductive Forwarded
  | dropped
  | requested (out : Option SwitchingOut)
  | sent (l : List Tx)

/-- `_forwarding`. -/
def forwarding (dpdk : RouterDpdk) (info : RibInfo) (rxPort : Nat) (rxLink : Option Nat) (m : Mbuf)
    (l3 : L3) : Except Fault Forwarded :=
  match routeNexthop info l3.treeIdx (m.dstIp l3) with
  | .error e => .error e
  | .ok none => .ok .dropped
  | .ok (some nhInfo) =>
    match neighMac info nhInfo (m.dstIp l3) with
    | none => (requestNeigh dpdk info nhInfo (m.dstIp l3)).map .requested
    | some dstMac =>
      match egressLink info (toInt32 nhInfo.oif) dstMac with
      | .error e => .error e
      | .ok none => .ok .dropped
      | .ok (some egress) =>
        let srcMac := (info.vswitch egress.vswitch).routerIf.macAddr
        (routerSendLink dpdk.toDpdk info.toRibConf egress.place
          (rewrite dpdk rxPort m l3 srcMac dstMac) rxLink egress.port egress.link).map .sent

/-! ## A received frame -/

inductive Disposition
  | noVswitch
  /-- For the router itself. -/
  | toRouterIf
  | control
  | switched (out : SwitchingOut)
  | invalid
  | forwarded (out : Forwarded)

structure RouterOut where
  captureIf : Option Mbuf
  routerIf : Option Mbuf
  neigh : Option NeighRequest
  disposition : Disposition

/-- The address of the router interface, on both layers. -/
def forRouterIf (m : Mbuf) (rif : RouterIf) : Bool :=
  decide (m.dstAddr = rif.macAddr) && match m.l3 with
    | .ipv4 off => decide (m.bytesAt (off + 16) 4 = rif.ipv4Addr)
    | .ipv6 off => decide (m.bytesAt (off + 24) 16 = rif.ipv6Addr)
    | .other => false

/-- What is done with a frame that is not for the router interface alone. -/
def switchOrRoute (dpdk : RouterDpdk) (info : RibInfo) (rxPort rx v : Nat) (m : Mbuf) :
    Except Fault Disposition :=
  if m.dstAddr ≠ (info.vswitch v).routerIf.macAddr then
    (switching dpdk.toDpdk info.toRibConf rxPort (some rx) (info.vswitch v) m).map .switched
  else if verifyPacket dpdk m m.l3 = false then .ok .invalid
  else (forwarding dpdk info rxPort (some rx) m m.l3).map .forwarded

/-- `_process_rx_packet`. -/
def routerProcessRxPacket (dpdk : RouterDpdk) (info : RibInfo) (rxPort : Nat) (m : Mbuf) :
    Except Fault RouterOut :=
  match classify info.toRibConf rxPort m with
  | .error e => .error e
  | .ok none => .ok ⟨none, none, none, .noVswitch⟩
  | .ok (some (rx, v)) =>
    let cif := (info.vswitch v).captureIf
    let rif := (info.vswitch v).routerIf
    let captureIf :=
      if cif.sockfd ≥ 0 ∧ cif.ringUp ≠ 0 then sendRing dpdk.toDpdk .captureIf m else none
    if forRouterIf m rif = true then
      (routerIfFrame dpdk.toDpdk rif false m).map fun routerIf => ⟨captureIf, routerIf, none, .toRouterIf⟩
    else
      let group := m.isMulticast || m.isBroadcast
      match (if group = true then routerIfFrame dpdk.toDpdk rif false m else .ok none) with
      | .error e => .error e
      | .ok routerIf =>
        match (if rif.sockfd ≥ 0 ∧ rif.ringUp ≠ 0 then checkControlPacket m rif else (false, none)) with
        | (true, neigh) =>
          if group = true then .ok ⟨captureIf, routerIf, neigh, .control⟩
          else (routerIfFrame dpdk.toDpdk rif false m).map fun routerIf =>
            ⟨captureIf, routerIf, neigh, .control⟩
        | (false, neigh) =>
          (switchOrRoute dpdk info rxPort rx v m).map fun disposition =>
            ⟨captureIf, routerIf, neigh, disposition⟩

end SdPlane
