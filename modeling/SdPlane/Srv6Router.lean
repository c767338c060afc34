import SdPlane.Routed
import SdPlane.Srv6

/-!
# The router with segment routing (`srv6_router.c`)

It is the router with one step more: before a frame is forwarded, `_process_srv6_packet_multi_sids`
is given the pointer to its IPv6 header. A frame that has none gets there as well, and the pointer
is `NULL`.

`Srv6Safe` is that there is a header, and that no byte is touched that is not the frame's. The length
that is checked is that of the two headers alone. It does not count the Ethernet header before
them, nor the list of segments behind, and `Srv6Fits` says which frames are long enough all the
same.
-/

set_option autoImplicit false

namespace SdPlane

open Lib (Access Traced)

/-! ## A received frame -/

/-- The program that is run on a frame, for the IPv6 header at `off`. -/
def srv6Run (info : RibInfo) (m : Mbuf) (off : Nat) : Bool × Traced UInt8 :=
  (processSrv6PacketMultiSids m.dataLen off info.srv6LocalSidAddr
    info.srv6LocalSidAddrNum.toNat).run ⟨m.bytes, []⟩

/-- Step 6, forwarding. A frame whose destination has been replaced may leave on the link that it
    has come from. -/
def srv6Forwarding (dpdk : RouterDpdk) (info : RibInfo) (rxPort rx : Nat) (m : Mbuf) :
    Except Fault Disposition :=
  match m.l3 with
  | .ipv4 _ | .other => .error .nullPointer
  | .ipv6 off =>
    let (modified, s) := srv6Run info m off
    let rxLink := if modified = true then none else some rx
    (forwarding dpdk info rxPort rxLink { m with bytes := s.mem } (.ipv6 off)).map .forwarded

/-- Steps 4 to 6. -/
def srv6SwitchOrRoute (dpdk : RouterDpdk) (info : RibInfo) (rxPort rx v : Nat) (m : Mbuf) :
    Except Fault Disposition :=
  if m.dstAddr ≠ (info.vswitch v).routerIf.macAddr then
    (switching dpdk.toDpdk info.toRibConf rxPort (some rx) (info.vswitch v) m).map .switched
  else if verifyPacket dpdk m m.l3 = false then .ok .invalid
  else srv6Forwarding dpdk info rxPort rx m

/-- The router interface gets a control packet that is for a group twice. -/
structure Srv6Out where
  captureIf : Option Mbuf
  routerIf : List Mbuf
  neigh : Option NeighRequest
  disposition : Disposition

/-- Whether a frame is a control packet. It is not looked at if the router interface is not there. -/
def controlPacket (m : Mbuf) (rif : RouterIf) : Bool × Option NeighRequest :=
  if rif.sockfd ≥ 0 ∧ rif.ringUp ≠ 0 then checkControlPacket m rif else (false, none)

/-- `_process_rx_packet`. -/
def srv6ProcessRxPacket (dpdk : RouterDpdk) (info : RibInfo) (rxPort : Nat) (m : Mbuf) :
    Except Fault Srv6Out :=
  match classify info.toRibConf rxPort m with
  | .error e => .error e
  | .ok none => .ok ⟨none, [], none, .noVswitch⟩
  | .ok (some (rx, v)) =>
    let cif := (info.vswitch v).captureIf
    let rif := (info.vswitch v).routerIf
    let captureIf :=
      if cif.sockfd ≥ 0 ∧ cif.ringUp ≠ 0 then sendRing dpdk.toDpdk .captureIf m else none
    if forRouterIf m rif = true then
      (routerIfFrame dpdk.toDpdk rif false m).map fun routerIf =>
        ⟨captureIf, routerIf.toList, none, .toRouterIf⟩
    else
      match (if (m.isMulticast || m.isBroadcast) = true then routerIfFrame dpdk.toDpdk rif false m
        else .ok none) with
      | .error e => .error e
      | .ok group =>
        match controlPacket m rif with
        | (true, neigh) =>
          (routerIfFrame dpdk.toDpdk rif true m).map fun routerIf =>
            ⟨captureIf, group.toList ++ routerIf.toList, neigh, .control⟩
        | (false, neigh) =>
          (srv6SwitchOrRoute dpdk info rxPort rx v m).map fun disposition =>
            ⟨captureIf, group.toList, neigh, disposition⟩

/-! ## The frames that get to step 6 -/

/-- A transit packet: it is addressed to the router, and neither for its interface nor a control
    packet. -/
structure ReachesSrv6 (dpdk : RouterDpdk) (info : RibInfo) (rxPort : Nat) (m : Mbuf) (rx v : Nat) :
    Prop where
  classified : classify info.toRibConf rxPort m = .ok (some (rx, v))
  transit : forRouterIf m (info.vswitch v).routerIf = false
  group : (m.isMulticast || m.isBroadcast) = true →
    ∃ r, routerIfFrame dpdk.toDpdk (info.vswitch v).routerIf false m = .ok r
  data : (controlPacket m (info.vswitch v).routerIf).1 = false
  mac : m.dstAddr = (info.vswitch v).routerIf.macAddr
  verified : verifyPacket dpdk m m.l3 = true

variable {dpdk : RouterDpdk} {info : RibInfo} {rxPort rx v : Nat} {m : Mbuf}

theorem ReachesSrv6.of_unicast (hunicast : (m.isMulticast || m.isBroadcast) = false)
    (classified : classify info.toRibConf rxPort m = .ok (some (rx, v)))
    (transit : forRouterIf m (info.vswitch v).routerIf = false)
    (data : (controlPacket m (info.vswitch v).routerIf).1 = false)
    (mac : m.dstAddr = (info.vswitch v).routerIf.macAddr)
    (verified : verifyPacket dpdk m m.l3 = true) : ReachesSrv6 dpdk info rxPort m rx v where
  classified := classified
  transit := transit
  group := fun hgroup => absurd hgroup (by rw [hunicast]; decide)
  data := data
  mac := mac
  verified := verified

/-- What becomes of such a frame is what step 6 makes of it. -/
theorem srv6ProcessRxPacket_transit (h : ReachesSrv6 dpdk info rxPort m rx v) :
    ∃ captureIf routerIf neigh, srv6ProcessRxPacket dpdk info rxPort m
      = (srv6Forwarding dpdk info rxPort rx m).map fun disposition =>
        ⟨captureIf, routerIf, neigh, disposition⟩ := by
  have hroute : srv6SwitchOrRoute dpdk info rxPort rx v m = srv6Forwarding dpdk info rxPort rx m := by
    rw [srv6SwitchOrRoute, if_neg (not_not_intro h.mac), if_neg (by simp [h.verified])]
  have hgroup : ∃ r, (if (m.isMulticast || m.isBroadcast) = true then
      routerIfFrame dpdk.toDpdk (info.vswitch v).routerIf false m else .ok none) = .ok r := by
    split
    · next hgroup => exact h.group hgroup
    · exact ⟨_, rfl⟩
  obtain ⟨group, hgroup⟩ := hgroup
  have hdata := h.data
  cases hcontrol : controlPacket m (info.vswitch v).routerIf with
  | mk control neigh =>
    rw [hcontrol] at hdata
    obtain rfl : control = false := hdata
    unfold srv6ProcessRxPacket
    rw [h.classified]
    dsimp only
    rw [if_neg (by simp [h.transit]), hgroup]
    dsimp only
    rw [hcontrol]
    dsimp only
    rw [hroute]
    exact ⟨_, _, _, rfl⟩

/-! ## Safety -/

/-- The pointer to the IPv6 header is not `NULL`, and only bytes of the frame are touched. -/
def Srv6Safe (info : RibInfo) (m : Mbuf) : Prop :=
  ∃ off, m.l3 = .ipv6 off ∧ ∀ i ∈ (srv6Run info m off).2.touched, i < m.dataLen

/-- The header, and the segment that becomes the destination, lie within the frame. -/
def Srv6Fits (info : RibInfo) (m : Mbuf) : Prop :=
  ∃ off, m.l3 = .ipv6 off
    ∧ (m.bytes (off + 6) = IPPROTO_ROUTING → 40 + 8 ≤ m.dataLen → off + 42 < m.dataLen
      ∧ (m.bytes (off + 42) = RTE_IPV6_SRCRT_TYPE_4 → off + 44 < m.dataLen
        ∧ (EndSid m.bytes m.dataLen off
            (InTable info.srv6LocalSidAddr info.srv6LocalSidAddrNum.toNat) →
          off + 48 + 16 * (m.bytes (off + 43)).toNat ≤ m.dataLen)))

theorem l3_ipv6 {off : Nat} (h : m.l3 = .ipv6 off) : off = 14 ∨ off = 18 := by
  have hoff : off = m.innerOffset := by
    unfold Mbuf.l3 at h
    split at h
    · cases h
    · split at h
      · exact (L3.ipv6.inj h).symm
      · cases h
  rw [hoff]
  exact m.innerOffset_cases

/-- **A transit packet is processed safely exactly when it is IPv6 and long enough.** -/
theorem srv6Safe_iff (h : ReachesSrv6 dpdk info rxPort m rx v) : Srv6Safe info m ↔ Srv6Fits info m := by
  refine exists_congr fun off => and_congr_right fun hl3 => ?_
  have hlen : off + 6 < m.dataLen := by
    have hverified := h.verified
    rw [hl3] at hverified
    have hroom := (verifyPacket_ipv6 hverified).1
    have hoff := l3_ipv6 hl3
    omega
  obtain ⟨found, l, hrun, hfound, hwithin⟩ := @processSrv6_run m.dataLen off _ _
    (compares_table info.srv6LocalSidAddr info.srv6LocalSidAddrNum.toNat) ⟨m.bytes, []⟩
  have htouch : ((⟨m.bytes, []⟩ : Traced UInt8).touch l).touched = l := List.append_nil l
  have hr : srv6Run info m off = _ := hrun
  rw [hr]
  have hwithin := hwithin m.dataLen
  simp only [HeaderWithin, hlen, true_and] at hwithin
  cases found with
  | false =>
    have hnot : ¬ EndSid m.bytes m.dataLen off
        (InTable info.srv6LocalSidAddr info.srv6LocalSidAddrNum.toNat) :=
      fun hend => by cases hfound.mpr hend
    rw [if_neg (by simp), htouch, hwithin]
    simp only [hnot, false_imp_iff, and_true]
  | true =>
    have hend : EndSid m.bytes m.dataLen off
        (InTable info.srv6LocalSidAddr info.srv6LocalSidAddrNum.toNat) := hfound.mp rfl
    have hsome := hend.some
    have hleft : (m.bytes (off + 43) - 1).toNat = (m.bytes (off + 43)).toNat - 1 :=
      UInt8.toNat_sub_of_le _ _ (UInt8.le_iff_toNat_le.mpr hsome)
    rw [if_pos rfl, nextSegment_touched, htouch, hwithin]
    simp only [Traced.mem_touch, hleft, hend.routing, hend.length, hend.type, hend, forall_const]
    constructor
    · rintro ⟨⟨htype, hentry⟩, -, hsegment⟩
      exact ⟨htype, hentry, by omega⟩
    · rintro ⟨htype, hentry, hsegment⟩
      exact ⟨⟨htype, hentry⟩, by omega, by omega⟩

/-! A router with one route -/

/-- The route leads to a host on the second port. -/
def srv6Info : RibInfo := oneRoute AF_INET6 .zero

/-- UDP to the host `2001::1`. -/
def transit6 : Mbuf := .ofList ([2, 0, 0, 0, 0, 9, 2, 0, 0, 0, 0, 1, 0x86, 0xdd, 0x60, 0, 0, 0, 0, 0, 17, 64]
  ++ List.replicate 16 1 ++ [0x20, 0x01] ++ List.replicate 13 0 ++ [1])

theorem transit6_safe : Srv6Safe srv6Info transit6 := by
  have hreaches : ReachesSrv6 (.plain 2) srv6Info 0 transit6 0 0 := by
    apply ReachesSrv6.of_unicast
    all_goals decide +kernel
  refine (srv6Safe_iff hreaches).mpr ⟨14, rfl, fun hproto => ?_⟩
  exact absurd hproto (by decide +kernel)

/-- UDP over IPv4. -/
def transit4 : Mbuf := .ofList [2, 0, 0, 0, 0, 9, 2, 0, 0, 0, 0, 1, 0x08, 0, 0x45, 0, 0, 20, 0, 0, 0, 0,
  64, 17, 0x66, 0xd7, 10, 0, 0, 1, 10, 1, 0, 1]

theorem transit4_null : ¬ ∀ (dpdk : RouterDpdk) (info : RibInfo) (rxPort : Nat) (m : Mbuf) (rx v : Nat),
    dpdk.Documented → ReachesSrv6 dpdk info rxPort m rx v → Srv6Safe info m := by
  intro hall
  have hreaches : ReachesSrv6 (.plain 2) srv6Info 0 transit4 0 0 := by
    apply ReachesSrv6.of_unicast
    all_goals decide +kernel
  obtain ⟨off, hl3, -⟩ := hall _ _ _ _ _ _ (RouterDpdk.plain_documented 2) hreaches
  have hipv4 : (match transit4.l3 with | .ipv6 _ => true | _ => false) = false := by decide +kernel
  rw [hl3] at hipv4
  cases hipv4

end SdPlane
