import SdPlane.Routed

/-!
# A packet on its way

Routes may lead in a circle, and no router can see that. What ends such a journey is the hop limit
alone. So the question is not about one router but about any number of them, each with whatever tables
it has at the time, and about the packet that they hand on: after `n` routers its TTL is less by
`n`, it has never been `0` on a link, the header checksum is right, and every other byte behind the
addresses is the one that was sent (`journey_conserves`). Hence a journey has fewer hops than the
TTL that it starts with, whatever the routes are.

Between two routers the packet is in a frame that the links and switches carry. They may write other
addresses and other vlan headers, and they may pad.
-/

set_option autoImplicit false

namespace SdPlane

/-! ## Hops -/

/-- Some router takes the frame `m` in, and routes it out as `w`. -/
def RouterHop (m w : Mbuf) : Prop :=
  ∃ dpdk info rxPort out sent t, RouterDpdk.Documented dpdk
    ∧ routerProcessRxPacket dpdk info rxPort m = .ok out
    ∧ out.disposition = .forwarded (.sent sent) ∧ t ∈ sent ∧ Tx.frame t = w

/-- The packet of `w` arrives in the frame `m`. -/
structure Carried (w m : Mbuf) : Prop where
  length : w.untagged.dataLen ≤ m.untagged.dataLen
  bytes : ∀ i, 12 ≤ i → i < w.untagged.dataLen → m.untagged.bytes i = w.untagged.bytes i

/-- `n` routers have handed the packet of `m` on, and it is in the frame `w`. -/
inductive Journey (m : Mbuf) : Nat → Mbuf → Prop
  | start : Journey m 0 m
  | hop {n : Nat} {u v w : Mbuf} (before : Journey m n u) (hop : RouterHop u v) (carried : Carried v w) :
      Journey m (n + 1) w

/-! ## What is conserved -/

/-- The TTL of IPv4, or the hop limit of IPv6. -/
def timeToLive (m : Mbuf) : Nat :=
  if m.untagged.etherType = RTE_ETHER_TYPE_IPV4 then (m.untagged.bytes 22).toNat
  else (m.untagged.bytes 21).toNat

/-- The bytes of the packet that a router writes: TTL and checksum, or the hop limit. -/
def Written (m : Mbuf) (i : Nat) : Prop :=
  if m.untagged.etherType = RTE_ETHER_TYPE_IPV4 then i = 22 ∨ i = 24 ∨ i = 25 else i = 21

/-- `w` is the packet of `m`, `n` hops further. -/
structure Conserved (m : Mbuf) (n : Nat) (w : Mbuf) : Prop where
  type : w.untagged.etherType = m.untagged.etherType
  ttl : timeToLive w + n = timeToLive m
  alive : n = 0 ∨ 0 < timeToLive w
  checksum : n = 0 ∨ (w.untagged.etherType = RTE_ETHER_TYPE_IPV4 →
    Lib.onesSum (w.untagged.ipv4Words 14) = 65535)
  length : m.untagged.dataLen ≤ w.untagged.dataLen
  bytes : ∀ i, 12 ≤ i → i < m.untagged.dataLen → ¬Written m i →
    w.untagged.bytes i = m.untagged.bytes i

/-- There are fewer hops than the TTL says. -/
theorem Conserved.hops_lt {m w : Mbuf} {n : Nat} (h : Conserved m n w) :
    n = 0 ∨ n < timeToLive m := by
  rcases h.alive with hzero | halive
  · exact .inl hzero
  · have httl := h.ttl
    exact .inr (by omega)

/-- A hop is one of the two kinds, and the frame keeps its length. -/
theorem RouterHop.cases {m w : Mbuf} (h : RouterHop m w) (hip : HasIpHeader m) :
    (Hop4 m.untagged w.untagged ∨ Hop6 m.untagged w.untagged)
      ∧ w.untagged.dataLen = m.untagged.dataLen := by
  obtain ⟨dpdk, info, rxPort, out, sent, t, hdoc, hprocess, hout, ht, rfl⟩ := h
  obtain ⟨hport, hverify, rx, hf⟩ := forwarded_of_process hprocess hout
  rcases hip with ⟨htype, hwithin⟩ | ⟨htype, hwithin⟩
  · have hinner : m.innerType = RTE_ETHER_TYPE_IPV4 := m.etherType_untagged ▸ htype
    have hl3 : m.l3 = .ipv4 m.innerOffset := if_pos hinner
    have hverify : verifyPacket dpdk m (.ipv4 m.innerOffset) = true := hl3 ▸ hverify
    have hroom : 18 ≤ m.dataLen := le_trans (by decide) (verifyPacket_ipv4 hverify).1
    obtain ⟨_, _, -, -, hlen, -, -, hw⟩ :=
      sent_of_forwarding hdoc hport hroom (hinner ▸ (by decide)) hf ht
    rw [hl3] at hw
    exact ⟨.inl (hop4_of_rewritten hdoc htype hwithin hverify hw), hlen⟩
  · have hinner : m.innerType = RTE_ETHER_TYPE_IPV6 := m.etherType_untagged ▸ htype
    have hl3 : m.l3 = .ipv6 m.innerOffset := by
      rw [Mbuf.l3, if_neg (hinner ▸ (by decide)), if_pos hinner]
    have hverify : verifyPacket dpdk m (.ipv6 m.innerOffset) = true := hl3 ▸ hverify
    have hroom : 18 ≤ m.dataLen := le_trans (by decide) (verifyPacket_ipv6 hverify).1
    obtain ⟨_, _, -, -, hlen, -, -, hw⟩ :=
      sent_of_forwarding hdoc hport hroom (hinner ▸ (by decide)) hf ht
    rw [hl3] at hw
    exact ⟨.inr (hop6_of_rewritten htype hwithin hverify hw), hlen⟩

theorem etherType_congr {u w : Mbuf} (h : ∀ i, 12 ≤ i → i < 14 → w.bytes i = u.bytes i) :
    w.etherType = u.etherType := by
  rw [Mbuf.etherType, Mbuf.etherType, Mbuf.be16, Mbuf.be16, h 12 (by omega) (by omega),
    h 13 (by omega) (by omega)]

/-! ## One hop -/

section Hop

variable {u v w : Mbuf}

/-- One less to live. -/
theorem toNat_sub_one {t : UInt8} (h : 2 ≤ t) : (t - 1).toNat + 1 = t.toNat := by
  have htwo : 2 ≤ t.toNat := UInt8.le_iff_toNat_le.mp h
  have hone : (1 : UInt8) ≤ t := UInt8.le_iff_toNat_le.mpr (le_trans (by decide) htwo)
  rw [UInt8.toNat_sub_of_le _ _ hone]
  exact Nat.sub_add_cancel (le_trans (by decide) htwo)

theorem conserved_hop4 (hop : Hop4 u.untagged v.untagged)
    (hlen : v.untagged.dataLen = u.untagged.dataLen) (hc : Carried v w) :
    Conserved u 1 w ∧ HasIpHeader w := by
  have hwithin := hop.within
  have hcomplete := hop.complete
  have hbytes : ∀ i, 12 ≤ i → i < u.untagged.dataLen → i ≠ 22 → i ≠ 24 → i ≠ 25 →
      w.untagged.bytes i = u.untagged.bytes i := by
    intro i hi hlt h₁ h₂ h₃
    rw [hc.bytes i hi (hlt.trans_eq hlen.symm), hop.rest i hi hlt h₁ h₂ h₃]
  have htype : w.untagged.etherType = u.untagged.etherType := etherType_congr fun i hi hlt =>
    hbytes i hi (by omega) (by omega) (by omega) (by omega)
  have htype4 : w.untagged.etherType = RTE_ETHER_TYPE_IPV4 := htype.trans hop.type
  have hbyte22 : w.untagged.bytes 22 = u.untagged.bytes 22 - 1 := by
    rw [hc.bytes 22 (by omega) (by omega), hop.less]
  have httl : timeToLive w + 1 = timeToLive u := by
    rw [timeToLive, timeToLive, if_pos htype4, if_pos hop.type, hbyte22]
    exact toNat_sub_one hop.ttl
  have hlength : u.untagged.dataLen ≤ w.untagged.dataLen := hlen.symm.trans_le hc.length
  refine ⟨⟨htype, httl, .inr ?_, .inr fun _ => ?_, hlength, fun i hi hlt hw => ?_⟩, .inl ⟨htype4, ?_⟩⟩
  · have hmore : 2 ≤ timeToLive u := by
      rw [timeToLive, if_pos hop.type]
      exact UInt8.le_iff_toNat_le.mp hop.ttl
    omega
  · -- the header of `w` is that of `v`
    have hhdr : v.untagged.ipv4HdrLen 14 = u.untagged.ipv4HdrLen 14 := by
      rw [Mbuf.ipv4HdrLen, Mbuf.ipv4HdrLen,
        hop.rest 14 (by omega) (by omega) (by omega) (by omega) (by omega)]
    have hwords : w.untagged.ipv4Words 14 = v.untagged.ipv4Words 14 := by
      refine (Mbuf.ipv4Words_eq (by omega) fun k hk => ?_).2
      exact hc.bytes _ (by omega) (by omega)
    rw [hwords]
    exact hop.checksum
  · simp only [Written, if_pos hop.type, not_or] at hw
    exact hbytes i hi hlt hw.1 hw.2.1 hw.2.2
  · have hhdr : w.untagged.ipv4HdrLen 14 = u.untagged.ipv4HdrLen 14 := by
      rw [Mbuf.ipv4HdrLen, Mbuf.ipv4HdrLen,
        hbytes 14 (by omega) (by omega) (by omega) (by omega) (by omega)]
    omega

theorem conserved_hop6 (hop : Hop6 u.untagged v.untagged)
    (hlen : v.untagged.dataLen = u.untagged.dataLen) (hc : Carried v w) :
    Conserved u 1 w ∧ HasIpHeader w := by
  have hwithin := hop.within
  have hbytes : ∀ i, 12 ≤ i → i < u.untagged.dataLen → i ≠ 21 →
      w.untagged.bytes i = u.untagged.bytes i := by
    intro i hi hlt hne
    rw [hc.bytes i hi (hlt.trans_eq hlen.symm), hop.rest i hi hlt hne]
  have htype : w.untagged.etherType = u.untagged.etherType :=
    etherType_congr fun i hi hlt => hbytes i hi (by omega) (by omega)
  have hne4 : u.untagged.etherType ≠ RTE_ETHER_TYPE_IPV4 := by
    rw [hop.type]
    decide
  have hbyte21 : w.untagged.bytes 21 = u.untagged.bytes 21 - 1 := by
    rw [hc.bytes 21 (by omega) (by omega), hop.less]
  have httl : timeToLive w + 1 = timeToLive u := by
    rw [timeToLive, timeToLive, htype, if_neg hne4, if_neg hne4, hbyte21]
    exact toNat_sub_one hop.hopLimit
  have hlength : u.untagged.dataLen ≤ w.untagged.dataLen := hlen.symm.trans_le hc.length
  refine ⟨⟨htype, httl, .inr ?_, .inr fun h => absurd (htype.symm.trans h) hne4, hlength,
    fun i hi hlt hw => ?_⟩, .inr ⟨htype.trans hop.type, hwithin.trans hlength⟩⟩
  · have hmore : 2 ≤ timeToLive u := by
      rw [timeToLive, if_neg hne4]
      exact UInt8.le_iff_toNat_le.mp hop.hopLimit
    omega
  · rw [Written, if_neg hne4] at hw
    exact hbytes i hi hlt hw

theorem conserved_hop (hip : HasIpHeader u) (hop : RouterHop u v) (hc : Carried v w) :
    Conserved u 1 w ∧ HasIpHeader w := by
  obtain ⟨hop | hop, hlen⟩ := hop.cases hip
  · exact conserved_hop4 hop hlen hc
  · exact conserved_hop6 hop hlen hc

end Hop

/-! ## Any number of hops -/

theorem Conserved.start (m : Mbuf) : Conserved m 0 m :=
  ⟨rfl, rfl, .inl rfl, .inl rfl, le_refl _, fun _ _ _ _ => rfl⟩

theorem Conserved.hop {m u w : Mbuf} {n : Nat} (h : Conserved m n u) (h' : Conserved u 1 w) :
    Conserved m (n + 1) w := by
  have hlength := h.length
  refine ⟨h'.type.trans h.type, ?_, .inr (h'.alive.resolve_left Nat.one_ne_zero),
    .inr (h'.checksum.resolve_left Nat.one_ne_zero), hlength.trans h'.length, fun i hi hlt hw => ?_⟩
  · rw [← h.ttl, ← h'.ttl, Nat.add_comm n, Nat.add_assoc]
  · have hw' : ¬Written u i := by
      rw [Written, h.type]
      exact hw
    rw [h'.bytes i hi (hlt.trans_le hlength) hw', h.bytes i hi hlt hw]

/-- **Whatever the routes are, a packet is conserved, and its TTL counts the routers**, so that a
    journey has fewer hops than the TTL that it starts with. -/
theorem journey_conserves {m w : Mbuf} {n : Nat} (hip : HasIpHeader m) (h : Journey m n w) :
    Conserved m n w ∧ (n = 0 ∨ n < timeToLive m) := by
  have hboth : Conserved m n w ∧ HasIpHeader w := by
    induction h with
    | start => exact ⟨.start m, hip⟩
    | hop before hop carried ih =>
      obtain ⟨hcons, hip⟩ := ih
      obtain ⟨hone, hip⟩ := conserved_hop hip hop carried
      exact ⟨hcons.hop hone, hip⟩
  exact ⟨hboth.1, hboth.1.hops_lt⟩

/-- A frame for a router with one route. -/
def routedFrame : Mbuf := .ofList [2, 0, 0, 0, 0, 9, 2, 0, 0, 0, 0, 1, 0x08, 0, 0x45, 0, 0, 20, 0, 0, 0, 0,
  64, 17, 0x66, 0xd7, 10, 0, 0, 1, 10, 1, 0, 1]

theorem journey_conserves_one : ∃ w, Journey routedFrame 1 w
    ∧ Conserved routedFrame 1 w ∧ (1 = 0 ∨ 1 < timeToLive routedFrame) := by
  obtain ⟨out, sent, t, h, hout, ht⟩ := exists_sent
    (show sends (.plain 2) (oneRoute AF_INET (.ofFn fun _ => 1)) 0 routedFrame = true by
      decide +kernel)
  have hhop : RouterHop routedFrame t.frame :=
    ⟨_, _, _, out, sent, t, RouterDpdk.plain_documented 2, h, hout, ht, rfl⟩
  have hcarried : Carried t.frame t.frame := ⟨le_refl _, fun _ _ _ => rfl⟩
  have hjourney : Journey routedFrame 1 t.frame := .hop .start hhop hcarried
  exact ⟨t.frame, hjourney, journey_conserves (.inl (by decide +kernel)) hjourney⟩

end SdPlane
