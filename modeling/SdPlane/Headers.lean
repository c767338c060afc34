import SdPlane.Neigh
import SdPlane.Switching

/-!
# What the router reads of a frame (`router.c`, `net_subr.h`, `packet_gen.h`)

`_process_rx_packet` looks for an IP header behind the Ethernet header, or behind the vlan header
if there is one: `L3` says where it is. A frame that is neither IPv4 nor IPv6 has none, and two null
pointers stand for that; `_verify_packet` has nothing to say against such a frame.

`untagged` is the frame without its outer vlan header, so that the IP header is always at
`ETHER_HDR_LEN`. The code does not strip the header. It is how the property is put.
-/

set_option autoImplicit false

namespace SdPlane

def RTE_ETHER_TYPE_IPV4 : UInt16 := 0x0800
def RTE_ETHER_TYPE_IPV6 : UInt16 := 0x86dd
def RTE_ETHER_TYPE_ARP : UInt16 := 0x0806
def ETHER_HDR_LEN : Nat := 14
def RTE_ARP_OP_REPLY : UInt16 := 2
def IPPROTO_ICMP : UInt8 := 1
def IPPROTO_ICMPV6 : UInt8 := 58
def IPPROTO_OSPF : UInt8 := 89
def ICMPV6_NS : UInt8 := 135
def ICMPV6_NA : UInt8 := 136
def NUD_REACHABLE : UInt8 := 2
def NEIGH_ARP_TABLE : Nat := 0
def NEIGH_ND_TABLE : Nat := 1

/-- What DPDK answers to the router. -/
structure RouterDpdk extends Dpdk where
  /-- Whether `rte_pktmbuf_alloc` and `rte_pktmbuf_append` have memory. -/
  pktmbufAlloc : Bool
  /-- `rte_ipv4_cksum` of the header at an offset, as a number in network order. -/
  ipv4Cksum : Mbuf → Nat → UInt16
  /-- `rte_ipv6_udptcp_cksum` of the header and the payload at an offset. -/
  ipv6UdptcpCksum : Mbuf → Nat → Nat → UInt16

namespace Mbuf

/-- `n` bytes from `i` on. -/
def bytesAt (m : Mbuf) (i n : Nat) : Vector UInt8 n := Vector.ofFn fun k => m.bytes (i + k)

/-- `memcpy` to `i`. -/
def setBytes {n : Nat} (m : Mbuf) (i : Nat) (src : Vector UInt8 n) : Mbuf where
  bytes := fun j => if i ≤ j ∧ j < i + n then src[j - i]?.getD 0 else m.bytes j
  dataLen := m.dataLen

/-- Where the header behind the Ethernet and vlan headers is, and its type. -/
def innerOffset (m : Mbuf) : Nat := if m.etherType = RTE_ETHER_TYPE_VLAN then 18 else ETHER_HDR_LEN
def innerType (m : Mbuf) : UInt16 :=
  if m.etherType = RTE_ETHER_TYPE_VLAN then m.be16 16 else m.etherType

/-- The frame without its outer vlan header. -/
def untagged (m : Mbuf) : Mbuf := if m.etherType = RTE_ETHER_TYPE_VLAN then m.vlanStrip else m

/-- `rte_ipv4_hdr_len`. -/
def ipv4HdrLen (m : Mbuf) (off : Nat) : Nat := ((m.bytes off) &&& 0x0f).toNat * 4

/-- The 16-bit words of an IPv4 header. -/
def ipv4Words (m : Mbuf) (off : Nat) : List Nat :=
  (List.range (m.ipv4HdrLen off / 2)).map fun i => (m.be16 (off + 2 * i)).toNat

end Mbuf

/-- The pointers `ipv4` and `ipv6`, of which at most one is set. -/
inductive L3
  | ipv4 (off : Nat)
  | ipv6 (off : Nat)
  | other

def Mbuf.l3 (m : Mbuf) : L3 :=
  if m.innerType = RTE_ETHER_TYPE_IPV4 then .ipv4 m.innerOffset
  else if m.innerType = RTE_ETHER_TYPE_IPV6 then .ipv6 m.innerOffset
  else .other

/-- `_verify_packet`. `data_len` counts from the start of the frame, not of the header. -/
def verifyPacket (dpdk : RouterDpdk) (m : Mbuf) : L3 → Bool
  | .ipv4 off =>
    decide (20 ≤ m.dataLen ∧ dpdk.ipv4Cksum m off = 0 ∧ m.bytes off >>> 4 = 4
      ∧ 20 ≤ m.ipv4HdrLen off ∧ 20 ≤ m.be16 (off + 2) ∧ 1 < m.bytes (off + 8))
  | .ipv6 off => decide (40 ≤ m.dataLen ∧ m.bytes off &&& 0xf0 = 0x60 ∧ 1 < m.bytes (off + 7))
  | .other => true

/-! ## Control packets -/

/-- The entry that is learned from an answer. Of an IPv4 address four bytes are written. -/
def learnedNeigh (family : Int) (type : Nat) (rif : RouterIf) (ip : IpAddr) (mac : EtherAddr) :
    NeighRequest :=
  .add type ⟨family, ip, mac, NUD_REACHABLE, rif.ifindex⟩

/-- `_check_control_packet`, and the message that goes to the neighbor manager. -/
def checkControlPacket (m : Mbuf) (rif : RouterIf) : Bool × Option NeighRequest :=
  let off := m.innerOffset
  if m.innerType = RTE_ETHER_TYPE_ARP then
    if m.bytesAt (off + 24) 4 = rif.ipv4Addr then
      (true, if m.be16 (off + 6) = RTE_ARP_OP_REPLY then
        some (learnedNeigh AF_INET NEIGH_ARP_TABLE rif
          (Vector.ofFn fun k => if k.val < 4 then m.bytes (off + 14 + k) else 0)
          (m.bytesAt (off + 8) 6)) else none)
    else (false, none)
  else
    match m.l3 with
    | .ipv4 off =>
      (decide (m.bytesAt (off + 16) 4 = rif.ipv4Addr) || decide (m.bytes (off + 9) = IPPROTO_OSPF), none)
    | .ipv6 off =>
      if m.bytes (off + 6) = IPPROTO_OSPF then (true, none)
      else if m.bytes (off + 6) = IPPROTO_ICMPV6 then
        let icmp := off + 40
        if m.bytes icmp = ICMPV6_NS then
          (decide (m.bytesAt (icmp + 8) 16 = rif.ipv6Addr), none)
        else if m.bytes icmp = ICMPV6_NA ∧ m.bytesAt (off + 24) 16 = rif.llAddr then
          (true, some (learnedNeigh AF_INET6 NEIGH_ND_TABLE rif (m.bytesAt (icmp + 8) 16) m.srcAddr))
        else (false, none)
      else (false, none)
    | .other => (false, none)

/-! ## Requests -/

/-- `arp_req_pkt_gen`. -/
def arpReqPktGen (srcMac : EtherAddr) (srcIp : Vector UInt8 4) (target : IpAddr) : Mbuf :=
  .ofList (List.replicate 6 0xff ++ srcMac.toList ++ [0x08, 0x06]
    ++ [0, 1, 0x08, 0x00, 6, 4, 0, 1] ++ srcMac.toList ++ srcIp.toList ++ List.replicate 6 0
    ++ target.toList.take 4)

/-- `ns_pkt_gen`, with the checksum last. -/
def nsPktGen (dpdk : RouterDpdk) (srcMac : EtherAddr) (srcIp target : IpAddr) : Mbuf :=
  let low := target.toList.drop 13
  let m := Mbuf.ofList ([0x33, 0x33, 0xff] ++ low ++ srcMac.toList ++ [0x86, 0xdd]
    ++ [0x60, 0, 0, 0, 0, 32, IPPROTO_ICMPV6, 255] ++ srcIp.toList
    ++ [0xff, 0x02, 0, 0, 0, 0, 0, 0, 0, 0, 0, 0x01, 0xff] ++ low
    ++ [ICMPV6_NS, 0, 0, 0, 0, 0, 0, 0] ++ target.toList ++ [1, 1] ++ srcMac.toList)
  m.setBe16 56 (dpdk.ipv6UdptcpCksum m 14 54)

end SdPlane
