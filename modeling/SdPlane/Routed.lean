import SdPlane.Forwarding
import SdPlane.Lib.Checksum

/-!
# A routed frame

What has to be true of a frame that the router has routed is put about the frames without their
outer vlan headers, `m.untagged` before and `t.frame.untagged` after: both have the IP header at
the same place.

It is true of every frame that has an IP header. The router routes others as well: a frame whose
type is neither IPv4 nor IPv6 passes `_verify_packet`, is looked up in the tree for IPv6 as the
address `::`, and if there is a route it leaves with new addresses and everything else as it was.
And a header need not lie within the frame, as the length that is checked includes the Ethernet
header.
-/

set_option autoImplicit false

namespace SdPlane

/-- What the mbuf library documents of the functions that the router uses: a header that is
    inserted is the four bytes behind the addresses, and the checksum of IPv4 is that of the
    internet, to be taken with `0` in its place. -/
structure RouterDpdk.Documented (dpdk : RouterDpdk) : Prop extends dpdk.toDpdk.Documented where
  insert : ∀ u m, 14 ≤ m.dataLen → (dpdk.vlanInsert u m).etherType = RTE_ETHER_TYPE_VLAN →
    m.etherType ≠ RTE_ETHER_TYPE_VLAN → 16 ≤ (dpdk.vlanInsert u m).dataLen
      ∧ (dpdk.vlanInsert u m).data.take 12 ++ (dpdk.vlanInsert u m).data.drop 16 = m.data
  cksum : ∀ m off, 20 ≤ m.ipv4HdrLen off →
    (dpdk.ipv4Cksum m off).toNat = Lib.checksum (m.ipv4Words off)

/-! ## The property -/

/-- What the tables say of a destination: the address of the neighbor, and the vswitch whose
    router interface is the way there. -/
def NextHop (info : RibInfo) (treeIdx : Nat) (dstIp : IpAddr) (v : Nat) (mac : EtherAddr) : Prop :=
  ∃ tree node nhInfo pos, info.fibTree treeIdx = some tree
    ∧ Fib.fibRouteLookup tree dstIp = some node
    ∧ nexthopGetInfoByIndex info.nexthop node.nhId = some nhInfo
    ∧ neighManagerLookup (info.neighTables (afToNeighTable nhInfo.family))
        (afToNeighTable nhInfo.family)
        (if nhInfo.type = .connected then dstIp else nhInfo.gw) = (pos, true)
    ∧ ((info.neighTables (afToNeighTable nhInfo.family)).entries pos).macAddr = mac
    ∧ info.LiveVswitch v ∧ (info.vswitch v).routerIf.ifindex = toInt32 nhInfo.oif

/-- `u` carries an IPv4 header, and `w` is the frame after a hop. -/
structure Hop4 (u w : Mbuf) : Prop where
  type : u.etherType = RTE_ETHER_TYPE_IPV4
  within : 14 + u.ipv4HdrLen 14 ≤ u.dataLen
  complete : 20 ≤ u.ipv4HdrLen 14
  ttl : 2 ≤ u.bytes 22
  less : w.bytes 22 = u.bytes 22 - 1
  checksum : Lib.onesSum (w.ipv4Words 14) = 65535
  rest : ∀ i, 12 ≤ i → i < u.dataLen → i ≠ 22 → i ≠ 24 → i ≠ 25 → w.bytes i = u.bytes i

structure Hop6 (u w : Mbuf) : Prop where
  type : u.etherType = RTE_ETHER_TYPE_IPV6
  within : 54 ≤ u.dataLen
  hopLimit : 2 ≤ u.bytes 21
  less : w.bytes 21 = u.bytes 21 - 1
  rest : ∀ i, 12 ≤ i → i < u.dataLen → i ≠ 21 → w.bytes i = u.bytes i

/-- The frame leaves on a link of the vswitch that leads to the next hop, with the addresses of
    the two, one hop further. -/
def RoutedRight (info : RibInfo) (m : Mbuf) (t : Tx) : Prop :=
  ∃ v i, i < (info.vswitch v).vswitchPortSize.toNat
    ∧ ((info.vswitch v).vswitchLinkId i).toNat = t.link
    ∧ t.frame.untagged.dataLen = m.untagged.dataLen
    ∧ t.frame.untagged.srcAddr = (info.vswitch v).routerIf.macAddr
    ∧ (Hop4 m.untagged t.frame.untagged
        ∧ NextHop info 0 (m.untagged.dstIp (.ipv4 14)) v t.frame.untagged.dstAddr
      ∨ Hop6 m.untagged t.frame.untagged
        ∧ NextHop info 1 (m.untagged.dstIp (.ipv6 14)) v t.frame.untagged.dstAddr)

/-- The frame has an IP header, and it lies within the frame. -/
def HasIpHeader (m : Mbuf) : Prop :=
  m.untagged.etherType = RTE_ETHER_TYPE_IPV4
      ∧ 14 + m.untagged.ipv4HdrLen 14 ≤ m.untagged.dataLen
    ∨ m.untagged.etherType = RTE_ETHER_TYPE_IPV6 ∧ 54 ≤ m.untagged.dataLen

/-! ## Frames without their vlan headers -/

namespace Mbuf

variable {m c : Mbuf}

theorem untagged_of_vlan (h : m.etherType = RTE_ETHER_TYPE_VLAN) : m.untagged = m.vlanStrip :=
  if_pos h

theorem untagged_of_ne (h : m.etherType ≠ RTE_ETHER_TYPE_VLAN) : m.untagged = m := if_neg h

/-- What lies behind the addresses is four bytes further in a tagged frame. -/
theorem bytes_untagged (m : Mbuf) {i : Nat} (h : 12 ≤ i) :
    m.untagged.bytes i = m.bytes (m.innerOffset - 14 + i) := by
  by_cases hvlan : m.etherType = RTE_ETHER_TYPE_VLAN
  · rw [untagged_of_vlan hvlan, innerOffset, if_pos hvlan, vlanStrip]
    dsimp only
    rw [if_neg (Nat.not_lt.mpr h), Nat.add_comm]
  · rw [untagged_of_ne hvlan, innerOffset, if_neg hvlan, ETHER_HDR_LEN, Nat.sub_self, Nat.zero_add]

theorem bytes_untagged_addr (m : Mbuf) {i : Nat} (h : i < 12) : m.untagged.bytes i = m.bytes i := by
  unfold untagged
  split
  · simp [vlanStrip, h]
  · rfl

theorem etherType_untagged (m : Mbuf) : m.untagged.etherType = m.innerType := by
  unfold untagged innerType
  split
  · rfl
  · rfl

theorem dataLen_untagged (m : Mbuf) : m.untagged.dataLen = m.dataLen - (m.innerOffset - 14) := by
  unfold untagged innerOffset
  split
  · rfl
  · rfl

theorem innerOffset_cases (m : Mbuf) : m.innerOffset = 14 ∨ m.innerOffset = 18 := by
  unfold innerOffset
  split
  · exact .inr rfl
  · exact .inl rfl

/-- The IP header of the frame. -/
theorem bytes_ip (m : Mbuf) (k : Nat) : m.untagged.bytes (14 + k) = m.bytes (m.innerOffset + k) := by
  have hoff := m.innerOffset_cases
  rw [m.bytes_untagged (by omega)]
  congr 1
  omega

theorem setVlanId_vlanStrip (m : Mbuf) (v : UInt16) : (m.setVlanId v).vlanStrip = m.vlanStrip := by
  have hbytes : (m.setVlanId v).vlanStrip.bytes = m.vlanStrip.bytes := by
    funext i
    simp only [vlanStrip]
    split
    · exact m.bytes_setVlanId v (by omega) (by omega)
    · exact m.bytes_setVlanId v (by omega) (by omega)
  exact congrArg (Mbuf.mk · _) hbytes

/-- Frames of the same bytes are the same without the header. -/
theorem untagged_congr (h : c.data = m.data) (hlen : 16 ≤ m.dataLen) :
    c.untagged.data = m.untagged.data := by
  have hlength : c.dataLen = m.dataLen := by
    have hdata := congrArg List.length h
    rwa [length_data, length_data] at hdata
  have htype : c.etherType = m.etherType := be16_of_data h (by omega)
  by_cases hvlan : m.etherType = RTE_ETHER_TYPE_VLAN
  · rw [untagged_of_vlan hvlan, untagged_of_vlan (htype.trans hvlan), data_vlanStrip hlen,
      data_vlanStrip (hlength ▸ hlen), h]
  · rw [untagged_of_ne hvlan, untagged_of_ne fun heq => hvlan (htype.symm.trans heq), h]

end Mbuf

/-- Whatever the link does to the vlan header, it leaves the rest. -/
theorem retag_untagged {dpdk : RouterDpdk} (hdoc : dpdk.Documented) {u : Purpose}
    {link : VswitchLink} {c e : Mbuf} (hlen : 18 ≤ c.dataLen)
    (hinner : c.innerType ≠ RTE_ETHER_TYPE_VLAN) (h : retag dpdk.toDpdk u link c = .ok e) :
    e.untagged.data = c.untagged.data := by
  unfold retag at h
  split at h
  · next htype =>
    split at h
    · obtain rfl := Except.ok.inj h
      rw [Mbuf.untagged_of_vlan htype, Mbuf.untagged_of_vlan (by simpa using htype),
        Mbuf.setVlanId_vlanStrip]
    · split at h
      · obtain rfl := Except.ok.inj h
        have hdata : (dpdk.vlanStrip c).data = c.vlanStrip.data := by
          rw [Mbuf.data_vlanStrip (by omega)]
          exact hdoc.strip c (by omega) htype
        have hout : (dpdk.vlanStrip c).etherType = c.innerType := by
          rw [← c.etherType_untagged, Mbuf.untagged_of_vlan htype]
          refine Mbuf.be16_of_data hdata ?_
          rw [Mbuf.vlanStrip]
          dsimp only
          omega
        rw [Mbuf.untagged_of_ne (hout ▸ hinner), hdata, Mbuf.untagged_of_vlan htype]
      · obtain rfl := Except.ok.inj h
        rfl
  · next htype =>
    split at h
    · split at h
      · next hinsert =>
        obtain rfl := Except.ok.inj h
        obtain ⟨hroom, hdata⟩ := hdoc.insert u c (by omega) hinsert htype
        rw [Mbuf.untagged_of_ne htype, Mbuf.untagged_of_vlan (by simpa using hinsert),
          Mbuf.setVlanId_vlanStrip, Mbuf.data_vlanStrip hroom, hdata]
      · cases h
    · obtain rfl := Except.ok.inj h
      rfl

/-! ## The rewritten header -/

namespace Mbuf

theorem ipv4Words_eq {a b : Mbuf} {o o' : Nat} (hpos : 0 < b.ipv4HdrLen o')
    (h : ∀ k < b.ipv4HdrLen o', a.bytes (o + k) = b.bytes (o' + k)) :
    a.ipv4HdrLen o = b.ipv4HdrLen o' ∧ a.ipv4Words o = b.ipv4Words o' := by
  have hfirst : a.bytes o = b.bytes o' := h 0 hpos
  have hlen : a.ipv4HdrLen o = b.ipv4HdrLen o' := by rw [ipv4HdrLen, ipv4HdrLen, hfirst]
  refine ⟨hlen, ?_⟩
  rw [ipv4Words, ipv4Words, hlen]
  apply List.map_congr_left
  intro i hi
  have hi := List.mem_range.mp hi
  rw [be16, be16, h (2 * i) (by omega), Nat.add_assoc, Nat.add_assoc, h (2 * i + 1) (by omega)]

/-- Another checksum is another sixth word. -/
theorem ipv4Words_setBe16 (m : Mbuf) (off : Nat) (x : UInt16) :
    (m.setBe16 (off + 10) x).ipv4HdrLen off = m.ipv4HdrLen off
      ∧ (m.setBe16 (off + 10) x).ipv4Words off = (m.ipv4Words off).set 5 x.toNat := by
  have hne : off ≠ off + 10 + 1 := by omega
  have hfirst : (m.setBe16 (off + 10) x).bytes off = m.bytes off := by simp [setBe16, hne]
  have hlen : (m.setBe16 (off + 10) x).ipv4HdrLen off = m.ipv4HdrLen off := by
    rw [ipv4HdrLen, ipv4HdrLen, hfirst]
  refine ⟨hlen, ?_⟩
  rw [ipv4Words, ipv4Words, hlen]
  apply List.ext_getElem
  · simp
  · intro i hi hi'
    rw [List.getElem_set, List.getElem_map, List.getElem_map, List.getElem_range]
    split
    · next hplace =>
      rw [← hplace, be16_setBe16]
    · next hplace => rw [be16_setBe16_of_ne _ _ (by omega)]

theorem ipv4Words_lt (m : Mbuf) (off : Nat) : ∀ w ∈ m.ipv4Words off, w < 65536 := by
  intro w hw
  obtain ⟨i, -, rfl⟩ := List.mem_map.mp hw
  exact UInt16.toNat_lt _

@[simp] theorem bytes_setBytes {n : Nat} (m : Mbuf) (i j : Nat) (src : Vector UInt8 n) :
    (m.setBytes i src).bytes j
      = if i ≤ j ∧ j < i + n then src[j - i]?.getD 0 else m.bytes j := rfl

@[simp] theorem dataLen_setBytes {n : Nat} (m : Mbuf) (i : Nat) (src : Vector UInt8 n) :
    (m.setBytes i src).dataLen = m.dataLen := rfl

end Mbuf

variable {dpdk : RouterDpdk} {info : RibInfo} {rxPort : Nat} {rxLink : Option Nat} {m : Mbuf}

/-- The new header sums up to all ones, and nothing but its ninth, eleventh and twelfth byte
    has changed. -/
theorem rewriteL3_ipv4 (hdoc : dpdk.Documented) {off : Nat} (hlen : 20 ≤ m.ipv4HdrLen off) :
    Lib.onesSum ((rewriteL3 dpdk m (.ipv4 off)).ipv4Words off) = 65535
      ∧ (rewriteL3 dpdk m (.ipv4 off)).ipv4HdrLen off = m.ipv4HdrLen off
      ∧ (rewriteL3 dpdk m (.ipv4 off)).bytes (off + 8) = m.bytes (off + 8) - 1
      ∧ ∀ i, i ≠ off + 8 → i ≠ off + 10 → i ≠ off + 11 →
        (rewriteL3 dpdk m (.ipv4 off)).bytes i = m.bytes i := by
  have httl : (m.setByte (off + 8) (m.bytes (off + 8) - 1)).ipv4HdrLen off = m.ipv4HdrLen off := by
    simp [Mbuf.ipv4HdrLen]
  generalize hm' : m.setByte (off + 8) (m.bytes (off + 8) - 1) = m' at httl
  obtain ⟨hzeroLen, hzeroWords⟩ := m'.ipv4Words_setBe16 off 0
  have hzeroLen : (m'.setBe16 (off + 10) 0).ipv4HdrLen off = m.ipv4HdrLen off := hzeroLen.trans httl
  obtain ⟨hnewLen, hnewWords⟩ := (m'.setBe16 (off + 10) 0).ipv4Words_setBe16 off
    (dpdk.ipv4Cksum (m'.setBe16 (off + 10) 0) off)
  have hrewrite : rewriteL3 dpdk m (.ipv4 off) = (m'.setBe16 (off + 10) 0).setBe16 (off + 10)
      (dpdk.ipv4Cksum (m'.setBe16 (off + 10) 0) off) := by
    rw [rewriteL3, hm']
  rw [hrewrite]
  refine ⟨?_, hnewLen.trans hzeroLen, ?_, fun i h₁ h₂ h₃ => ?_⟩
  · rw [hnewWords, hdoc.cksum _ _ (hzeroLen ▸ hlen)]
    apply Lib.onesSum_set (Mbuf.ipv4Words_lt _ _)
    have hplace : 5 < (m'.ipv4Words off).length := by
      simp only [Mbuf.ipv4Words, List.length_map, List.length_range, httl]
      omega
    rw [hzeroWords, List.getElem?_set_self hplace]
    rfl
  · simp [Mbuf.setBe16, ← hm']
  · have h₃' : i ≠ off + 10 + 1 := h₃
    simp [Mbuf.setBe16, ← hm', h₁, h₂, h₃']

/-! ## What has happened when a frame is sent -/

theorem sendLink_frame {dpdk : Dpdk} {c : RibConf} {i txPort l : Nat} {back : Bool} {m : Mbuf}
    {sent : List Tx} (h : sendLink dpdk c i back m txPort l = .ok sent) {t : Tx} (ht : t ∈ sent) :
    t.link = l ∧ ∃ copied, dpdk.copy (.link i) m = some copied
      ∧ retag dpdk (.link i) (c.vswitchLink l) copied = .ok t.frame := by
  have hnone : ¬ t ∈ ([] : List Tx) := List.not_mem_nil
  unfold sendLink at h
  split at h
  · exact absurd (Except.ok.inj h ▸ ht) hnone
  · split at h
    · cases h
    · split at h
      · exact absurd (Except.ok.inj h ▸ ht) hnone
      · split at h
        · exact absurd (Except.ok.inj h ▸ ht) hnone
        · next copied hcopied =>
          split at h
          · cases h
          · next frame hframe =>
            obtain rfl := Except.ok.inj h
            obtain rfl := List.mem_singleton.mp ht
            exact ⟨rfl, copied, hcopied, hframe⟩

/-- A frame that is routed was for the address of the router interface, and was verified. -/
theorem forwarded_of_process {out : RouterOut} {f : Forwarded}
    (h : routerProcessRxPacket dpdk info rxPort m = .ok out) (hout : out.disposition = .forwarded f) :
    rxPort < MAX_ETH_PORTS ∧ verifyPacket dpdk m m.l3 = true
      ∧ ∃ rx, forwarding dpdk info rxPort (some rx) m m.l3 = .ok f := by
  unfold routerProcessRxPacket at h
  cases hclassify : classify info.toRibConf rxPort m with
  | error e =>
    rw [hclassify] at h
    cases h
  | ok found =>
    have hport := classify_port hclassify
    rw [hclassify] at h
    cases found with
    | none =>
      obtain rfl := Except.ok.inj h
      cases hout
    | some pair =>
      obtain ⟨rx, v⟩ := pair
      dsimp only at h
      split at h
      · obtain ⟨_, -, rfl⟩ := map_ok h
        cases hout
      · split at h
        · cases h
        · split at h
          · split at h
            · obtain rfl := Except.ok.inj h
              cases hout
            · obtain ⟨_, -, rfl⟩ := map_ok h
              cases hout
          · obtain ⟨disposition, hdo, rfl⟩ := map_ok h
            obtain rfl : disposition = _ := hout
            unfold switchOrRoute at hdo
            split at hdo
            · obtain ⟨_, -, hsame⟩ := map_ok hdo
              cases hsame
            · split at hdo
              · cases Except.ok.inj hdo
              · next hverify =>
                obtain ⟨f', hf', hsame⟩ := map_ok hdo
                obtain rfl := Disposition.forwarded.inj hsame
                exact ⟨hport, by simpa using hverify, rx, hf'⟩

theorem routeNexthop_some {treeIdx : Nat} {dstIp : IpAddr} {nhInfo : NhInfo}
    (h : routeNexthop info treeIdx dstIp = .ok (some nhInfo)) :
    ∃ tree node, info.fibTree treeIdx = some tree ∧ Fib.fibRouteLookup tree dstIp = some node
      ∧ nexthopGetInfoByIndex info.nexthop node.nhId = some nhInfo := by
  unfold routeNexthop at h
  split at h
  · cases h
  · next tree htree =>
    split at h
    · cases Except.ok.inj h
    · next node hnode =>
      split at h
      · cases h
      · next found hfound =>
        obtain rfl := Option.some.inj (Except.ok.inj h)
        exact ⟨tree, node, htree, hnode, hfound⟩

theorem neighMac_some {nhInfo : NhInfo} {dstIp : IpAddr} {mac : EtherAddr}
    (h : neighMac info nhInfo dstIp = some mac) :
    ∃ pos, neighManagerLookup (info.neighTables (afToNeighTable nhInfo.family))
        (afToNeighTable nhInfo.family) (nhInfo.lookupIp dstIp) = (pos, true)
      ∧ ((info.neighTables (afToNeighTable nhInfo.family)).entries pos).macAddr = mac := by
  unfold neighMac at h
  dsimp only at h
  split at h
  · next pos hpos =>
    split at h
    · cases h
    · exact ⟨pos, hpos, Option.some.inj h⟩
  · cases h

theorem egressLink_some {oif : Int} {mac : EtherAddr} {egress : EgressLink}
    (h : egressLink info oif mac = .ok (some egress)) :
    info.LiveVswitch egress.vswitch ∧ (info.vswitch egress.vswitch).routerIf.ifindex = oif
      ∧ egress.place < (info.vswitch egress.vswitch).vswitchPortSize.toNat
      ∧ ((info.vswitch egress.vswitch).vswitchLinkId egress.place).toNat = egress.link := by
  unfold egressLink at h
  split at h
  · cases Except.ok.inj h
  · next v hv =>
    obtain ⟨htarget, hlt, -⟩ := List.find?_range_eq_some.mp hv
    simp only [Bool.and_eq_true, Bool.not_eq_true', decide_eq_true_eq] at htarget
    dsimp only at h
    split at h
    · cases Except.ok.inj h
    · split at h
      · cases h
      · cases Except.ok.inj h
      · next i l hfound =>
        obtain ⟨hi, hl⟩ := searchLinks_some hfound
        split at h
        · cases h
        · split at h
          · cases Except.ok.inj h
          · obtain rfl := Option.some.inj (Except.ok.inj h)
            exact ⟨⟨List.mem_range.mp hlt, htarget.1⟩, htarget.2, List.mem_range.mp hi, hl⟩

/-- The tables that were looked up on the way. -/
theorem forwarding_sent {l3 : L3} {sent : List Tx}
    (h : forwarding dpdk info rxPort rxLink m l3 = .ok (.sent sent)) :
    ∃ mac v i port, NextHop info l3.treeIdx (m.dstIp l3) v mac
      ∧ i < (info.vswitch v).vswitchPortSize.toNat
      ∧ routerSendLink dpdk.toDpdk info.toRibConf i
          (rewrite dpdk rxPort m l3 (info.vswitch v).routerIf.macAddr mac) rxLink port
          ((info.vswitch v).vswitchLinkId i).toNat = .ok sent := by
  unfold forwarding at h
  split at h
  · cases h
  · cases Except.ok.inj h
  · next nhInfo hroute =>
    obtain ⟨tree, node, htree, hnode, hinfo⟩ := routeNexthop_some hroute
    split at h
    · obtain ⟨_, -, hsame⟩ := map_ok h
      cases hsame
    · next mac hmac =>
      obtain ⟨pos, hpos, hentry⟩ := neighMac_some hmac
      split at h
      · cases h
      · cases Except.ok.inj h
      · next egress hegress =>
        obtain ⟨hlive, hoif, hplace, hlink⟩ := egressLink_some hegress
        obtain ⟨sent', hsent, hsame⟩ := map_ok h
        obtain rfl := Forwarded.sent.inj hsame
        rw [← hlink] at hsent
        exact ⟨mac, egress.vswitch, egress.place, egress.port,
          ⟨tree, node, nhInfo, pos, htree, hnode, hinfo, hpos, hentry, hlive, hoif⟩, hplace, hsent⟩

/-! ## The routed frame -/

/-- The frame that is copied: the header behind the addresses is the new one. -/
theorem rewrite_eq {l3 : L3} {srcMac dstMac : EtherAddr} (hport : rxPort < MAX_ETH_PORTS) :
    rewrite dpdk rxPort m l3 srcMac dstMac
      = ((rewriteL3 dpdk m l3).setBytes 6 srcMac).setBytes 0 dstMac := by
  have hne : rxPort ≠ ROUTER_IF_RX_SELF_PORT_ID := by
    intro heq
    rw [heq] at hport
    exact absurd hport (by decide)
  rw [rewrite, if_pos hne]

theorem verifyPacket_ipv4 {off : Nat} (h : verifyPacket dpdk m (.ipv4 off) = true) :
    20 ≤ m.dataLen ∧ 20 ≤ m.ipv4HdrLen off ∧ 2 ≤ m.bytes (off + 8) := by
  simp only [verifyPacket, decide_eq_true_eq] at h
  refine ⟨h.1, h.2.2.2.1, ?_⟩
  have httl := UInt8.lt_iff_toNat_lt.mp h.2.2.2.2.2
  exact UInt8.le_iff_toNat_le.mpr httl

theorem verifyPacket_ipv6 {off : Nat} (h : verifyPacket dpdk m (.ipv6 off) = true) :
    40 ≤ m.dataLen ∧ 2 ≤ m.bytes (off + 7) := by
  simp only [verifyPacket, decide_eq_true_eq] at h
  refine ⟨h.1, ?_⟩
  have hlimit := UInt8.lt_iff_toNat_lt.mp h.2.2
  exact UInt8.le_iff_toNat_le.mpr hlimit

/-- The two addresses are new, and what lies behind them is not touched. -/
theorem rewrite_addrs {r : Mbuf} (srcMac dstMac : EtherAddr) :
    ((r.setBytes 6 srcMac).setBytes 0 dstMac).dataLen = r.dataLen
      ∧ ((r.setBytes 6 srcMac).setBytes 0 dstMac).dstAddr = dstMac
      ∧ ((r.setBytes 6 srcMac).setBytes 0 dstMac).srcAddr = srcMac
      ∧ ∀ i, 12 ≤ i → ((r.setBytes 6 srcMac).setBytes 0 dstMac).bytes i = r.bytes i := by
  refine ⟨rfl, ?_, ?_, fun i hi => ?_⟩
  · apply Vector.ext
    intro k hk
    simp [Mbuf.dstAddr]
  · apply Vector.ext
    intro k hk
    have hnot : ¬ 12 ≤ 6 + k := by omega
    simp [Mbuf.srcAddr, hnot]
  · have hnot : ¬ i < 6 := by omega
    have hnot' : ¬ (6 ≤ i ∧ i < 6 + 6) := by omega
    simp only [Mbuf.bytes_setBytes, if_neg hnot', Nat.zero_le, Nat.zero_add, hnot, and_false,
      if_false]

/-- The frame on the link, without vlan headers, against the frame `r` that was copied for it.
    `r` has the type and the length of the received frame `m`. -/
theorem untagged_sent (hdoc : dpdk.Documented) {u : Purpose} {link : VswitchLink}
    {r copied e : Mbuf} (hcopy : dpdk.copy u r = some copied)
    (hretag : retag dpdk.toDpdk u link copied = .ok e) (hlen : r.dataLen = m.dataLen)
    (hroom : 18 ≤ m.dataLen) (hsame : ∀ i, 12 ≤ i → i < m.innerOffset → r.bytes i = m.bytes i)
    (hinner : m.innerType ≠ RTE_ETHER_TYPE_VLAN) :
    e.untagged.dataLen = m.untagged.dataLen
      ∧ (∀ i < 12, e.untagged.bytes i = r.bytes i)
      ∧ ∀ i, 12 ≤ i → i < m.untagged.dataLen →
        e.untagged.bytes i = r.bytes (m.innerOffset - 14 + i) := by
  have hoff := m.innerOffset_cases
  have hroomOff : m.innerOffset ≤ 18 := by omega
  have htype : r.etherType = m.etherType := by
    rw [Mbuf.etherType, Mbuf.etherType, Mbuf.be16, Mbuf.be16, hsame 12 (by omega) (by omega),
      hsame 13 (by omega) (by omega)]
  have hplace : r.innerOffset = m.innerOffset := by rw [Mbuf.innerOffset, Mbuf.innerOffset, htype]
  have hrtype : r.innerType = m.innerType := by
    rw [Mbuf.innerType, Mbuf.innerType, htype]
    by_cases hvlan : m.etherType = RTE_ETHER_TYPE_VLAN
    · have h18 : m.innerOffset = 18 := if_pos hvlan
      rw [if_pos hvlan, if_pos hvlan, Mbuf.be16, Mbuf.be16, hsame 16 (by omega) (by omega),
        hsame 17 (by omega) (by omega)]
    · rw [if_neg hvlan, if_neg hvlan]
  have hcopied : copied.data = r.data := hdoc.copy _ _ _ hcopy
  have hcopiedLen : copied.dataLen = m.dataLen := by
    have hlength := congrArg List.length hcopied
    rwa [Mbuf.length_data, Mbuf.length_data, hlen] at hlength
  have hcopiedType : copied.innerType = m.innerType := by
    rw [← hrtype, Mbuf.innerType, Mbuf.innerType, Mbuf.etherType, Mbuf.etherType,
      Mbuf.be16_of_data hcopied (show 12 + 1 < r.dataLen by omega),
      Mbuf.be16_of_data hcopied (show 16 + 1 < r.dataLen by omega)]
  have hdata : e.untagged.data = r.untagged.data :=
    (retag_untagged hdoc (by omega) (by rwa [hcopiedType]) hretag).trans
      (Mbuf.untagged_congr hcopied (by omega))
  have hrlen : r.untagged.dataLen = m.untagged.dataLen := by
    rw [Mbuf.dataLen_untagged, Mbuf.dataLen_untagged, hlen, hplace]
  have hmlen := m.dataLen_untagged
  have hlength : e.untagged.dataLen = m.untagged.dataLen := by
    have hlength := congrArg List.length hdata
    rwa [Mbuf.length_data, Mbuf.length_data, hrlen] at hlength
  refine ⟨hlength, fun i hi => ?_, fun i hi hlt => ?_⟩
  · rw [Mbuf.bytes_of_data hdata (by omega), r.bytes_untagged_addr hi]
  · rw [Mbuf.bytes_of_data hdata (by omega), r.bytes_untagged hi, hplace]

@[simp] theorem dataLen_rewriteL3 (l3 : L3) : (rewriteL3 dpdk m l3).dataLen = m.dataLen := by
  cases l3 with
  | ipv4 off => rfl
  | ipv6 off => rfl
  | other => rfl

/-- What lies before the IP header is not touched. -/
theorem bytes_rewriteL3 {i : Nat} (h : i < m.innerOffset) :
    (rewriteL3 dpdk m m.l3).bytes i = m.bytes i := by
  have h₇ : i ≠ m.innerOffset + 7 := by omega
  have h₈ : i ≠ m.innerOffset + 8 := by omega
  have h₁₀ : i ≠ m.innerOffset + 10 := by omega
  have h₁₁ : i ≠ m.innerOffset + 10 + 1 := by omega
  unfold Mbuf.l3
  split
  · simp [rewriteL3, Mbuf.setBe16, h₈, h₁₀, h₁₁]
  · split
    · simp [rewriteL3, h₇]
    · rfl

/-- A frame that leaves, whatever its header of layer 3 is. -/
theorem sent_of_forwarding (hdoc : dpdk.Documented) (hport : rxPort < MAX_ETH_PORTS)
    (hroom : 18 ≤ m.dataLen) (hinner : m.innerType ≠ RTE_ETHER_TYPE_VLAN) {sent : List Tx} {t : Tx}
    (h : forwarding dpdk info rxPort rxLink m m.l3 = .ok (.sent sent)) (ht : t ∈ sent) :
    ∃ v i, i < (info.vswitch v).vswitchPortSize.toNat
      ∧ ((info.vswitch v).vswitchLinkId i).toNat = t.link
      ∧ t.frame.untagged.dataLen = m.untagged.dataLen
      ∧ t.frame.untagged.srcAddr = (info.vswitch v).routerIf.macAddr
      ∧ NextHop info m.l3.treeIdx (m.dstIp m.l3) v t.frame.untagged.dstAddr
      ∧ ∀ i, 12 ≤ i → i < m.untagged.dataLen →
        t.frame.untagged.bytes i = (rewriteL3 dpdk m m.l3).bytes (m.innerOffset - 14 + i) := by
  have hoff := m.innerOffset_cases
  obtain ⟨mac, v, i, port, hnext, hi, hsend⟩ := forwarding_sent h
  obtain ⟨hlink, copied, hcopy, hretag⟩ := sendLink_frame hsend ht
  rw [rewrite_eq hport] at hcopy
  obtain ⟨hlen, hdst, hsrc, hbehind⟩ := rewrite_addrs (r := rewriteL3 dpdk m m.l3)
    (info.vswitch v).routerIf.macAddr mac
  obtain ⟨hsameLen, hfront, hback⟩ := untagged_sent hdoc hcopy hretag
    (hlen.trans (dataLen_rewriteL3 _)) hroom
    (fun i hi hlt => (hbehind i hi).trans (bytes_rewriteL3 hlt)) hinner
  have hdst' : t.frame.untagged.dstAddr = mac := by
    rw [← hdst]
    apply Vector.ext
    intro k hk
    simp only [Mbuf.dstAddr, Vector.getElem_ofFn]
    exact hfront k (by omega)
  have hsrc' : t.frame.untagged.srcAddr = (info.vswitch v).routerIf.macAddr := by
    rw [← hsrc]
    apply Vector.ext
    intro k hk
    simp only [Mbuf.srcAddr, Vector.getElem_ofFn]
    exact hfront (6 + k) (by omega)
  refine ⟨v, i, hi, hlink.symm, hsameLen, hsrc', hdst' ▸ hnext, fun i hi hlt => ?_⟩
  rw [hback i hi hlt, hbehind _ (by omega)]

theorem hop4_of_rewritten (hdoc : dpdk.Documented) {w : Mbuf}
    (htype : m.untagged.etherType = RTE_ETHER_TYPE_IPV4)
    (hwithin : 14 + m.untagged.ipv4HdrLen 14 ≤ m.untagged.dataLen)
    (hverify : verifyPacket dpdk m (.ipv4 m.innerOffset) = true)
    (hw : ∀ i, 12 ≤ i → i < m.untagged.dataLen →
      w.bytes i = (rewriteL3 dpdk m (.ipv4 m.innerOffset)).bytes (m.innerOffset - 14 + i)) :
    Hop4 m.untagged w := by
  have hoff := m.innerOffset_cases
  have hplace : ∀ k, m.innerOffset - 14 + (14 + k) = m.innerOffset + k := by omega
  obtain ⟨-, hcomplete, httl⟩ := verifyPacket_ipv4 hverify
  obtain ⟨hsum, hnewLen, hless, hrest⟩ := rewriteL3_ipv4 hdoc hcomplete
  have hhdr : m.untagged.ipv4HdrLen 14 = m.ipv4HdrLen m.innerOffset :=
    (Mbuf.ipv4Words_eq (by omega) fun k _ => m.bytes_ip k).1
  have hbyte22 : m.untagged.bytes 22 = m.bytes (m.innerOffset + 8) := m.bytes_ip 8
  refine ⟨htype, hwithin, hhdr ▸ hcomplete, hbyte22 ▸ httl, ?_, ?_, fun i hi hlt h₁ h₂ h₃ => ?_⟩
  · rw [hw 22 (by omega) (by omega), hplace 8, hless, hbyte22]
  · have hwords : w.ipv4Words 14
        = (rewriteL3 dpdk m (.ipv4 m.innerOffset)).ipv4Words m.innerOffset := by
      refine (Mbuf.ipv4Words_eq (by omega) fun k hk => ?_).2
      rw [hw _ (by omega) (by omega), hplace]
    rw [hwords, hsum]
  · rw [hw i hi hlt, hrest _ (by omega) (by omega) (by omega), m.bytes_untagged hi]

theorem hop6_of_rewritten {w : Mbuf} (htype : m.untagged.etherType = RTE_ETHER_TYPE_IPV6)
    (hwithin : 54 ≤ m.untagged.dataLen)
    (hverify : verifyPacket dpdk m (.ipv6 m.innerOffset) = true)
    (hw : ∀ i, 12 ≤ i → i < m.untagged.dataLen →
      w.bytes i = (rewriteL3 dpdk m (.ipv6 m.innerOffset)).bytes (m.innerOffset - 14 + i)) :
    Hop6 m.untagged w := by
  have hoff := m.innerOffset_cases
  have hplace : m.innerOffset - 14 + 21 = m.innerOffset + 7 := by omega
  have hbyte21 : m.untagged.bytes 21 = m.bytes (m.innerOffset + 7) := m.bytes_ip 7
  refine ⟨htype, hwithin, hbyte21 ▸ (verifyPacket_ipv6 hverify).2, ?_, fun i hi hlt hne => ?_⟩
  · rw [hw 21 (by omega) (by omega), hplace, hbyte21]
    simp [rewriteL3]
  · have hne' : m.innerOffset - 14 + i ≠ m.innerOffset + 7 := by omega
    rw [hw i hi hlt, m.bytes_untagged hi]
    simp [rewriteL3, hne']

/-- The address a frame goes to is the same one without the vlan headers. -/
theorem Mbuf.dstIp_untagged4 (m : Mbuf) :
    m.untagged.dstIp (.ipv4 14) = m.dstIp (.ipv4 m.innerOffset) := by
  apply Vector.ext
  intro k hk
  simp only [Mbuf.dstIp, Vector.getElem_ofFn]
  split
  · rw [Nat.add_assoc, Nat.add_assoc, m.bytes_ip]
  · rfl

theorem Mbuf.dstIp_untagged6 (m : Mbuf) :
    m.untagged.dstIp (.ipv6 14) = m.dstIp (.ipv6 m.innerOffset) := by
  apply Vector.ext
  intro k hk
  simp only [Mbuf.dstIp, Mbuf.bytesAt, Vector.getElem_ofFn]
  rw [Nat.add_assoc, Nat.add_assoc, m.bytes_ip]

/-- The router routes every frame that has an IP header as it should, and no other. -/
theorem routedRight_iff (hdoc : dpdk.Documented) {out : RouterOut} {sent : List Tx} {t : Tx}
    (h : routerProcessRxPacket dpdk info rxPort m = .ok out)
    (hout : out.disposition = .forwarded (.sent sent)) (ht : t ∈ sent) :
    RoutedRight info m t ↔ HasIpHeader m := by
  constructor
  · rintro ⟨v, i, -, -, -, -, ⟨hop, -⟩ | ⟨hop, -⟩⟩
    · exact .inl ⟨hop.type, hop.within⟩
    · exact .inr ⟨hop.type, hop.within⟩
  · intro hip
    obtain ⟨hport, hverify, rx, hf⟩ := forwarded_of_process h hout
    rcases hip with ⟨htype, hwithin⟩ | ⟨htype, hwithin⟩
    · have hinner : m.innerType = RTE_ETHER_TYPE_IPV4 := m.etherType_untagged ▸ htype
      have hl3 : m.l3 = .ipv4 m.innerOffset := if_pos hinner
      have hverify : verifyPacket dpdk m (.ipv4 m.innerOffset) = true := hl3 ▸ hverify
      have hroom : 18 ≤ m.dataLen := le_trans (by decide) (verifyPacket_ipv4 hverify).1
      have hne : m.innerType ≠ RTE_ETHER_TYPE_VLAN := hinner ▸ (by decide)
      obtain ⟨v, i, hi, hlink, hlen, hsrc, hnext, hw⟩ :=
        sent_of_forwarding hdoc hport hroom hne hf ht
      rw [hl3] at hnext hw
      rw [← m.dstIp_untagged4] at hnext
      exact ⟨v, i, hi, hlink, hlen, hsrc,
        .inl ⟨hop4_of_rewritten hdoc htype hwithin hverify hw, hnext⟩⟩
    · have hinner : m.innerType = RTE_ETHER_TYPE_IPV6 := m.etherType_untagged ▸ htype
      have hl3 : m.l3 = .ipv6 m.innerOffset := by
        rw [Mbuf.l3, if_neg (hinner ▸ (by decide)), if_pos hinner]
      have hverify : verifyPacket dpdk m (.ipv6 m.innerOffset) = true := hl3 ▸ hverify
      have hroom : 18 ≤ m.dataLen := le_trans (by decide) (verifyPacket_ipv6 hverify).1
      have hne : m.innerType ≠ RTE_ETHER_TYPE_VLAN := hinner ▸ (by decide)
      obtain ⟨v, i, hi, hlink, hlen, hsrc, hnext, hw⟩ :=
        sent_of_forwarding hdoc hport hroom hne hf ht
      rw [hl3] at hnext hw
      rw [← m.dstIp_untagged6] at hnext
      exact ⟨v, i, hi, hlink, hlen, hsrc,
        .inr ⟨hop6_of_rewritten htype hwithin hverify hw, hnext⟩⟩

/-! ## A router with one route -/

def RouterDpdk.plain (nbPorts : Nat) : RouterDpdk where
  toDpdk := .plain nbPorts
  pktmbufAlloc := true
  ipv4Cksum := fun m off => UInt16.ofNat (Lib.checksum (m.ipv4Words off))
  ipv6UdptcpCksum := fun _ _ _ => 0

theorem Mbuf.vlanStrip_vlanInsert (m : Mbuf) : m.vlanInsert.vlanStrip = m := by
  have hbytes : m.vlanInsert.vlanStrip.bytes = m.bytes := by
    funext i
    simp only [vlanStrip, vlanInsert]
    split
    · rfl
    · next hi =>
      rw [if_neg (by omega), if_neg (by omega), if_neg (by omega), Nat.add_sub_cancel]
  exact congrArg (Mbuf.mk · _) hbytes

theorem RouterDpdk.plain_documented (nbPorts : Nat) : (RouterDpdk.plain nbPorts).Documented where
  toDocumented := Dpdk.plain_documented nbPorts
  insert := by
    intro u m hlen _ _
    have hroom : 16 ≤ m.vlanInsert.dataLen := Nat.add_le_add_right (le_trans (by decide) hlen) 4
    refine ⟨hroom, ?_⟩
    have hstrip := Mbuf.data_vlanStrip hroom
    rw [m.vlanStrip_vlanInsert] at hstrip
    exact hstrip.symm
  cksum := by
    intro m off _
    refine UInt16.toNat_ofNat_of_lt' ?_
    show 65535 - _ < 2 ^ 16
    omega

/-! The MAC addresses of a router interface and of a host. -/

def routerMac : EtherAddr := #v[2, 0, 0, 0, 0, 9]
def hostMac : EtherAddr := #v[2, 0, 0, 0, 0, 2]

/-- Two ports on a vswitch, and a default route that leads to a host on the second port. -/
def oneRoute (family : Int) (gw : IpAddr) : RibInfo where
  toRibConf := { RibConf.zero with
    vswitchSize := 1
    vswitchLinkSize := 2
    portSize := 2
    vswitch := fun _ => { VswitchConf.zero with
      vlanId := 10
      vswitchPortSize := 2
      vswitchLinkId := UInt16.ofNat
      routerIf := { RouterIf.zero with ifindex := 7, macAddr := routerMac } }
    vswitchLink := fun i => { VswitchLink.zero with portId := UInt16.ofNat i }
    fdb := fun _ => ⟨hostMac, 1, 10, FDB_STATE_ACTIVE, 0⟩
    neighTables := fun _ => ⟨fun _ => ⟨family, gw, hostMac, NUD_REACHABLE, 7⟩, 1⟩ }
  nexthop := { Nexthop.zero with infoPool := fun _ => ⟨family, .gateway, gw, 7, 1⟩ }
  fibTree := fun _ => some ⟨0, 0, .node true .zero 0 0 fun _ => .null⟩

def sends (dpdk : RouterDpdk) (info : RibInfo) (rxPort : Nat) (m : Mbuf) : Bool :=
  match routerProcessRxPacket dpdk info rxPort m with
  | .ok ⟨_, _, _, .forwarded (.sent (_ :: _))⟩ => true
  | _ => false

theorem exists_sent (h : sends dpdk info rxPort m = true) :
    ∃ out sent t, routerProcessRxPacket dpdk info rxPort m = .ok out
      ∧ out.disposition = .forwarded (.sent sent) ∧ t ∈ sent := by
  unfold sends at h
  split at h
  · next hout => exact ⟨_, _, _, hout, rfl, List.mem_cons_self⟩
  · cases h

theorem routedRight_oneRoute : ∃ out sent t,
    routerProcessRxPacket (.plain 2) (oneRoute AF_INET (.ofFn fun _ => 1)) 0
      (.ofList [2, 0, 0, 0, 0, 9, 2, 0, 0, 0, 0, 1, 0x08, 0, 0x45, 0, 0, 20, 0, 0, 0, 0, 64, 17,
        0x66, 0xd7, 10, 0, 0, 1, 10, 1, 0, 1]) = .ok out
      ∧ out.disposition = .forwarded (.sent sent) ∧ t ∈ sent
      ∧ RoutedRight (oneRoute AF_INET (.ofFn fun _ => 1))
        (.ofList [2, 0, 0, 0, 0, 9, 2, 0, 0, 0, 0, 1, 0x08, 0, 0x45, 0, 0, 20, 0, 0, 0, 0, 64, 17,
          0x66, 0xd7, 10, 0, 0, 1, 10, 1, 0, 1]) t := by
  obtain ⟨out, sent, t, h, hout, ht⟩ := exists_sent
    (show sends (.plain 2) (oneRoute AF_INET (.ofFn fun _ => 1)) 0
      (.ofList [2, 0, 0, 0, 0, 9, 2, 0, 0, 0, 0, 1, 0x08, 0, 0x45, 0, 0, 20, 0, 0, 0, 0, 64, 17,
        0x66, 0xd7, 10, 0, 0, 1, 10, 1, 0, 1]) = true by decide +kernel)
  exact ⟨out, sent, t, h, hout, ht,
    (routedRight_iff (RouterDpdk.plain_documented 2) h hout ht).mpr (.inl (by decide +kernel))⟩

/-- A frame of LLDP. There is no TTL to count down. -/
theorem routes_lldp : ¬ ∀ (dpdk : RouterDpdk) (info : RibInfo) (rxPort : Nat) (m : Mbuf)
    (out : RouterOut) (sent : List Tx) (t : Tx), dpdk.Documented →
      routerProcessRxPacket dpdk info rxPort m = .ok out →
      out.disposition = .forwarded (.sent sent) → t ∈ sent → RoutedRight info m t := by
  intro hall
  obtain ⟨out, sent, t, h, hout, ht⟩ := exists_sent
    (show sends (.plain 2) (oneRoute AF_INET6 (.ofFn fun _ => 1)) 0
      (.ofList [2, 0, 0, 0, 0, 9, 2, 0, 0, 0, 0, 1, 0x88, 0xcc]) = true by decide +kernel)
  obtain ⟨v, i, -, -, -, -, ⟨hop, -⟩ | ⟨hop, -⟩⟩ :=
    hall _ _ _ _ out sent t (RouterDpdk.plain_documented 2) h hout ht
  · exact absurd hop.type (by decide)
  · exact absurd hop.type (by decide)

end SdPlane
