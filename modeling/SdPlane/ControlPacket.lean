import SdPlane.Headers

/-!
# Control packets (`control_packet.c`)

Ten functions are asked in turn whether a frame is of one protocol. They look at the type of the
frame, at the protocol of the IP header, and at the ports behind it.

`ControlFrame` is what they should find: it looks for the ports where they are, behind an IPv4
header of any length, and in no packet but the first of its fragments. The code looks 20 bytes
behind the start of the header, whatever is there, and `is_bgp` looks at every field of IPv4 one byte
too late. So the answer is right for all frames but IPv4 ones, and for those if what is taken for a
port says what the ports say (`isControlPacket_exact_iff`).
-/

set_option autoImplicit false

namespace SdPlane

def ETHER_TYPE_ISIS : UInt16 := 0xfefe
def IPPROTO_TCP : UInt8 := 6
def IPPROTO_UDP : UInt8 := 17
def IPPROTO_PIM : UInt8 := 103
def BGP_PORT : UInt16 := 179
def LDP_PORT : UInt16 := 646
def RIP_PORT : UInt16 := 520
def RIPNG_PORT : UInt16 := 521
def BABEL_PORT : UInt16 := 6696

/-- `src_port == port || dst_port == port`, of a header at `l4`. -/
def Mbuf.portIs (m : Mbuf) (l4 : Nat) (port : UInt16) : Bool :=
  decide (m.be16 l4 = port) || decide (m.be16 (l4 + 2) = port)

/-! ## The ten functions

Each has the payload behind the Ethernet and vlan headers, and its type. -/

def isIsis (_m : Mbuf) (_payload : Nat) (ethType : UInt16) : Bool :=
  decide (ethType = ETHER_TYPE_ISIS)

def isArp (_m : Mbuf) (_payload : Nat) (ethType : UInt16) : Bool :=
  decide (ethType = RTE_ETHER_TYPE_ARP)

/-- A protocol of IP, by its number in either version. -/
def isProto (proto4 proto6 : UInt8) (m : Mbuf) (payload : Nat) (ethType : UInt16) : Bool :=
  if ethType = RTE_ETHER_TYPE_IPV4 then decide (m.bytes (payload + 9) = proto4)
  else if ethType = RTE_ETHER_TYPE_IPV6 then decide (m.bytes (payload + 6) = proto6)
  else false

def isIcmp : Mbuf → Nat → UInt16 → Bool := isProto IPPROTO_ICMP IPPROTO_ICMPV6
def isPim : Mbuf → Nat → UInt16 → Bool := isProto IPPROTO_PIM IPPROTO_PIM
def isOspf : Mbuf → Nat → UInt16 → Bool := isProto IPPROTO_OSPF IPPROTO_OSPF

/-- A protocol over TCP or UDP, by its ports in either version. The header of IPv4 is looked for at
    `ipv4`, and that of TCP or UDP 20 bytes behind. -/
def isL4 (proto : UInt8) (ports4 ports6 : Mbuf → Nat → Bool) (m : Mbuf) (ipv4 payload : Nat)
    (ethType : UInt16) : Bool :=
  if ethType = RTE_ETHER_TYPE_IPV4 ∧ m.bytes (ipv4 + 9) = proto then ports4 m (ipv4 + 20)
  else if ethType = RTE_ETHER_TYPE_IPV6 ∧ m.bytes (payload + 6) = proto then
    ports6 m (payload + 40)
  else false

/-- The header of IPv4 is taken to be at `payload + 1`. -/
def isBgp (m : Mbuf) (payload : Nat) : UInt16 → Bool :=
  isL4 IPPROTO_TCP (fun m l4 => m.portIs l4 BGP_PORT) (fun m l4 => m.portIs l4 BGP_PORT) m
    (payload + 1) payload

/-- Over TCP and over UDP. -/
def isLdp (m : Mbuf) (payload : Nat) (ethType : UInt16) : Bool :=
  isL4 IPPROTO_TCP (fun m l4 => m.portIs l4 LDP_PORT) (fun m l4 => m.portIs l4 LDP_PORT) m payload
      payload ethType
    || isL4 IPPROTO_UDP (fun m l4 => m.portIs l4 LDP_PORT) (fun m l4 => m.portIs l4 LDP_PORT) m
      payload payload ethType

def isRip (m : Mbuf) (payload : Nat) : UInt16 → Bool :=
  isL4 IPPROTO_UDP (fun m l4 => m.portIs l4 RIP_PORT)
    (fun m l4 => m.portIs l4 RIPNG_PORT || m.portIs l4 RIP_PORT) m payload payload

/-- IPv4 is asked for twice, and the second time never: the first one has answered. -/
def isBabel (m : Mbuf) (payload : Nat) (ethType : UInt16) : Bool :=
  if ethType = RTE_ETHER_TYPE_IPV4 ∧ m.bytes (payload + 9) = IPPROTO_UDP then
    m.portIs (payload + 20) 6696
  else if ethType = RTE_ETHER_TYPE_IPV4 ∧ m.bytes (payload + 9) = IPPROTO_UDP then
    m.portIs (payload + 20) BABEL_PORT
  else if ethType = RTE_ETHER_TYPE_IPV6 ∧ m.bytes (payload + 6) = IPPROTO_UDP then
    m.portIs (payload + 40) BABEL_PORT
  else false

/-- Neighbor discovery: router and neighbor solicitations and advertisements, and redirects. -/
def isNd (m : Mbuf) (payload : Nat) (ethType : UInt16) : Bool :=
  if ethType = RTE_ETHER_TYPE_IPV6 ∧ m.bytes (payload + 6) = IPPROTO_ICMPV6 then
    decide (133 ≤ m.bytes (payload + 40)) && decide (m.bytes (payload + 40) ≤ 137)
  else false

def filterFuncs : List (Mbuf → Nat → UInt16 → Bool) :=
  [isIsis, isArp, isIcmp, isOspf, isPim, isBgp, isLdp, isRip, isBabel, isNd]

/-- `is_control_packet`. -/
def isControlPacket (m : Mbuf) : Int :=
  if filterFuncs.any fun f => f m m.innerOffset m.innerType then 1 else 0

/-! ## What a control packet is -/

/-- The port of a TCP or UDP header at `l4`, on either side. -/
def Mbuf.HasPort (m : Mbuf) (l4 : Nat) (ports : List UInt16) : Prop :=
  m.be16 l4 ∈ ports ∨ m.be16 (l4 + 2) ∈ ports

/-- Only the first fragment of an IPv4 packet has the header behind. -/
def Mbuf.FirstFragment (m : Mbuf) (off : Nat) : Prop := m.be16 (off + 6) &&& 0x1fff = 0

/-- An IPv4 packet of a control protocol with ports. -/
def Mbuf.ControlPort4 (m : Mbuf) (off : Nat) : Prop :=
  m.FirstFragment off
    ∧ ((m.bytes (off + 9) = IPPROTO_TCP ∧ m.HasPort (off + m.ipv4HdrLen off) [BGP_PORT, LDP_PORT])
      ∨ (m.bytes (off + 9) = IPPROTO_UDP
        ∧ m.HasPort (off + m.ipv4HdrLen off) [RIP_PORT, LDP_PORT, BABEL_PORT, 6696]))

def Mbuf.ControlProto4 (m : Mbuf) (off : Nat) : Prop :=
  m.bytes (off + 9) = IPPROTO_ICMP ∨ m.bytes (off + 9) = IPPROTO_OSPF ∨ m.bytes (off + 9) = IPPROTO_PIM

/-- A frame of a control protocol. -/
def ControlFrame (m : Mbuf) : Prop :=
  m.innerType = ETHER_TYPE_ISIS ∨ m.innerType = RTE_ETHER_TYPE_ARP ∨
  match m.l3 with
  | .ipv4 off => m.ControlProto4 off ∨ m.ControlPort4 off
  | .ipv6 off =>
    m.bytes (off + 6) = IPPROTO_ICMPV6 ∨ m.bytes (off + 6) = IPPROTO_OSPF
      ∨ m.bytes (off + 6) = IPPROTO_PIM
      ∨ (m.bytes (off + 6) = IPPROTO_TCP ∧ m.HasPort (off + 40) [BGP_PORT, LDP_PORT])
      ∨ (m.bytes (off + 6) = IPPROTO_UDP
        ∧ m.HasPort (off + 40) [RIP_PORT, LDP_PORT, BABEL_PORT, RIPNG_PORT])
  | .other => False

/-- What is taken for a port of a control protocol: 20 bytes behind the start of the header, and one
    byte later, as the protocol is, for BGP. -/
def Mbuf.TakenForPort4 (m : Mbuf) (off : Nat) : Prop :=
  (m.bytes (off + 9) = IPPROTO_TCP ∧ m.HasPort (off + 20) [LDP_PORT])
    ∨ (m.bytes (off + 9) = IPPROTO_UDP ∧ m.HasPort (off + 20) [RIP_PORT, LDP_PORT, BABEL_PORT])
    ∨ (m.bytes (off + 10) = IPPROTO_TCP ∧ m.HasPort (off + 21) [BGP_PORT])

/-- An IPv4 packet needs its ports to be known, and they are what is taken for them: a control
    protocol is seen, and nothing else is taken for one. -/
def ReadsPorts (m : Mbuf) : Prop :=
  ∀ off, m.l3 = .ipv4 off → ¬ m.ControlProto4 off → (m.TakenForPort4 off ↔ m.ControlPort4 off)

/-! ## What is found -/

section Found

variable {m : Mbuf}

theorem l3_cases (m : Mbuf) :
    (m.l3 = .ipv4 m.innerOffset ∧ m.innerType = RTE_ETHER_TYPE_IPV4)
      ∨ (m.l3 = .ipv6 m.innerOffset ∧ m.innerType = RTE_ETHER_TYPE_IPV6)
      ∨ (m.l3 = .other ∧ m.innerType ≠ RTE_ETHER_TYPE_IPV4 ∧ m.innerType ≠ RTE_ETHER_TYPE_IPV6) := by
  unfold Mbuf.l3
  split
  · next h4 => exact .inl ⟨rfl, h4⟩
  · next h4 =>
    split
    · next h6 => exact .inr (.inl ⟨rfl, h6⟩)
    · next h6 => exact .inr (.inr ⟨rfl, h4, h6⟩)

theorem isControlPacket_eq_one : isControlPacket m = 1
    ↔ ∃ f ∈ filterFuncs, f m m.innerOffset m.innerType = true := by
  rw [isControlPacket, ← List.any_eq_true]
  split
  · next h => exact ⟨fun _ => h, fun _ => rfl⟩
  · next h => exact ⟨nofun, fun h' => absurd h' h⟩

theorem hasPort_cons (l4 : Nat) (port port' : UInt16) (ports : List UInt16) :
    m.HasPort l4 (port :: port' :: ports) ↔ m.HasPort l4 [port] ∨ m.HasPort l4 (port' :: ports) := by
  simp only [Mbuf.HasPort, List.mem_cons, List.not_mem_nil, or_false]
  exact or_or_or_comm

theorem portIs_iff (l4 : Nat) (port : UInt16) : m.portIs l4 port = true ↔ m.HasPort l4 [port] := by
  simp [Mbuf.portIs, Mbuf.HasPort]

section Types

variable {proto : UInt8} {ports4 ports6 : Mbuf → Nat → Bool} {ipv4 payload : Nat} {proto4 proto6 : UInt8}

theorem isProto_ipv4 : isProto proto4 proto6 m payload RTE_ETHER_TYPE_IPV4 = true
    ↔ m.bytes (payload + 9) = proto4 := by
  simp [isProto]

theorem isProto_ipv6 : isProto proto4 proto6 m payload RTE_ETHER_TYPE_IPV6 = true
    ↔ m.bytes (payload + 6) = proto6 := by
  rw [isProto, if_neg (by decide), if_pos rfl, decide_eq_true_iff]

theorem isL4_ipv4 : isL4 proto ports4 ports6 m ipv4 payload RTE_ETHER_TYPE_IPV4 = true
    ↔ m.bytes (ipv4 + 9) = proto ∧ ports4 m (ipv4 + 20) = true := by
  have hne : RTE_ETHER_TYPE_IPV4 ≠ RTE_ETHER_TYPE_IPV6 := by decide
  simp [isL4, hne]

theorem isL4_ipv6 : isL4 proto ports4 ports6 m ipv4 payload RTE_ETHER_TYPE_IPV6 = true
    ↔ m.bytes (payload + 6) = proto ∧ ports6 m (payload + 40) = true := by
  have hne : RTE_ETHER_TYPE_IPV6 ≠ RTE_ETHER_TYPE_IPV4 := by decide
  simp [isL4, hne]

/-- Nothing comes of the second question about IPv4. -/
theorem isBabel_eq (ethType : UInt16) : isBabel m payload ethType
    = isL4 IPPROTO_UDP (fun m l4 => m.portIs l4 BABEL_PORT) (fun m l4 => m.portIs l4 BABEL_PORT) m
      payload payload ethType := by
  unfold isBabel isL4
  split <;> rfl

/-- Neighbor discovery is a part of ICMPv6. -/
theorem isIcmp_of_isNd {ethType : UInt16} (h : isNd m payload ethType = true) :
    isIcmp m payload ethType = true := by
  unfold isNd at h
  split at h
  · next htype =>
    obtain ⟨rfl, hproto⟩ := htype
    exact isProto_ipv6.mpr hproto
  · cases h

end Types

theorem isControlPacket_other (h4 : m.innerType ≠ RTE_ETHER_TYPE_IPV4)
    (h6 : m.innerType ≠ RTE_ETHER_TYPE_IPV6) : isControlPacket m = 1
      ↔ m.innerType = ETHER_TYPE_ISIS ∨ m.innerType = RTE_ETHER_TYPE_ARP := by
  rw [isControlPacket_eq_one]
  simp [filterFuncs, isIsis, isArp, isIcmp, isOspf, isPim, isProto, isBgp, isLdp, isRip, isBabel, isNd,
    isL4, h4, h6]

/-- What the functions have to say of a frame of IP. -/
theorem isControlPacket_ip (hisis : m.innerType ≠ ETHER_TYPE_ISIS)
    (harp : m.innerType ≠ RTE_ETHER_TYPE_ARP) : isControlPacket m = 1
      ↔ isIcmp m m.innerOffset m.innerType = true ∨ isOspf m m.innerOffset m.innerType = true
        ∨ isPim m m.innerOffset m.innerType = true ∨ isBgp m m.innerOffset m.innerType = true
        ∨ isLdp m m.innerOffset m.innerType = true ∨ isRip m m.innerOffset m.innerType = true
        ∨ isBabel m m.innerOffset m.innerType = true := by
  rw [isControlPacket_eq_one]
  have hnd := @isIcmp_of_isNd m m.innerOffset m.innerType
  simp only [filterFuncs, List.mem_cons, List.not_mem_nil, or_false, exists_eq_or_imp,
    exists_eq_left]
  have hno : isIsis m m.innerOffset m.innerType = false ∧ isArp m m.innerOffset m.innerType = false :=
    ⟨decide_eq_false hisis, decide_eq_false harp⟩
  rw [hno.1, hno.2]
  generalize isIcmp m m.innerOffset m.innerType = icmp at hnd ⊢
  generalize isNd m m.innerOffset m.innerType = nd at hnd ⊢
  grind

theorem isControlPacket_ipv6 (h6 : m.innerType = RTE_ETHER_TYPE_IPV6) : isControlPacket m = 1
      ↔ ControlFrame m := by
  have hl3 : m.l3 = .ipv6 m.innerOffset := by
    rw [Mbuf.l3, if_neg (by rw [h6]; decide), if_pos h6]
  rw [isControlPacket_ip (by rw [h6]; decide) (by rw [h6]; decide), ControlFrame, hl3, h6]
  have hno : RTE_ETHER_TYPE_IPV6 ≠ ETHER_TYPE_ISIS ∧ RTE_ETHER_TYPE_IPV6 ≠ RTE_ETHER_TYPE_ARP := by
    decide
  simp only [hno, isIcmp, isOspf, isPim, isBgp, isLdp, isRip, isBabel_eq, Bool.or_eq_true,
    isProto_ipv6, isL4_ipv6, portIs_iff, hasPort_cons, false_or, and_or_left]
  grind only

theorem isControlPacket_ipv4 (h4 : m.innerType = RTE_ETHER_TYPE_IPV4) : isControlPacket m = 1
      ↔ m.ControlProto4 m.innerOffset ∨ m.TakenForPort4 m.innerOffset := by
  rw [isControlPacket_ip (by rw [h4]; decide) (by rw [h4]; decide), h4]
  simp only [isIcmp, isOspf, isPim, isBgp, isLdp, isRip, isBabel_eq, Bool.or_eq_true, isProto_ipv4,
    isL4_ipv4, portIs_iff, hasPort_cons, Mbuf.ControlProto4, Mbuf.TakenForPort4, Nat.add_assoc,
    Nat.reduceAdd, and_or_left]
  grind only

/-- **The answer is right exactly when what is taken for the ports of IPv4 says what they say.** -/
theorem isControlPacket_exact_iff (m : Mbuf) :
    (isControlPacket m = 1 ↔ ControlFrame m) ↔ ReadsPorts m := by
  rcases l3_cases m with ⟨hl3, h4⟩ | ⟨hl3, h6⟩ | ⟨hl3, h4, h6⟩
  · have hno : RTE_ETHER_TYPE_IPV4 ≠ ETHER_TYPE_ISIS ∧ RTE_ETHER_TYPE_IPV4 ≠ RTE_ETHER_TYPE_ARP := by
      decide
    have hframe : ControlFrame m
        ↔ m.ControlProto4 m.innerOffset ∨ m.ControlPort4 m.innerOffset := by
      simp only [ControlFrame, hl3, h4, hno, false_or]
    have hreads : ReadsPorts m ↔ (¬ m.ControlProto4 m.innerOffset →
        (m.TakenForPort4 m.innerOffset ↔ m.ControlPort4 m.innerOffset)) := by
      refine ⟨fun h => h _ hl3, fun h off hoff => ?_⟩
      obtain rfl := L3.ipv4.inj (hl3.symm.trans hoff)
      exact h
    rw [isControlPacket_ipv4 h4, hframe, hreads]
    by_cases hproto : m.ControlProto4 m.innerOffset
    · simp [hproto]
    · simp [hproto]
  · have hreads : ReadsPorts m := fun off hoff => nomatch hl3.symm.trans hoff
    exact ⟨fun _ => hreads, fun _ => isControlPacket_ipv6 h6⟩
  · have hreads : ReadsPorts m := fun off hoff => nomatch hl3.symm.trans hoff
    have hframe : ControlFrame m
        ↔ m.innerType = ETHER_TYPE_ISIS ∨ m.innerType = RTE_ETHER_TYPE_ARP := by
      simp only [ControlFrame, hl3, or_false]
    exact ⟨fun _ => hreads, fun _ => (isControlPacket_other h4 h6).trans hframe.symm⟩

end Found

/-! A BGP session -/

/-- The headers of IPv4 and of TCP or UDP are complete. -/
structure Mbuf.Complete4 (m : Mbuf) (off : Nat) : Prop where
  version : m.bytes off >>> 4 = 4
  least : 20 ≤ m.ipv4HdrLen off
  tcp : m.bytes (off + 9) = IPPROTO_TCP → off + m.ipv4HdrLen off + 20 ≤ m.dataLen
  udp : m.bytes (off + 9) = IPPROTO_UDP → off + m.ipv4HdrLen off + 8 ≤ m.dataLen

/-- `SYN` to port 179. -/
def bgpSyn : Mbuf := .ofList [2, 0, 0, 0, 0, 9, 2, 0, 0, 0, 0, 1, 0x08, 0,
  0x45, 0, 0, 40, 0, 0, 0, 0, 64, 6, 0x66, 0xce, 10, 0, 0, 1, 10, 0, 0, 2,
  0xc0, 0, 0, 179, 0, 0, 0, 1, 0, 0, 0, 0, 0x50, 2, 0xff, 0xff, 0, 0, 0, 0]

theorem bgpSyn_missed : ¬ ∀ m : Mbuf, (∀ off, m.l3 = .ipv4 off → m.Complete4 off) →
    (isControlPacket m = 1 ↔ ControlFrame m) := by
  intro hall
  have hcomplete : ∀ off, bgpSyn.l3 = .ipv4 off → bgpSyn.Complete4 off := by
    intro off hoff
    obtain rfl : 14 = off := L3.ipv4.inj hoff
    exact ⟨by decide +kernel, by decide +kernel, fun _ => by decide +kernel, fun _ => by decide +kernel⟩
  have hcontrol : ControlFrame bgpSyn := by
    refine .inr (.inr (.inr ⟨?_, .inl ⟨?_, ?_⟩⟩))
    · exact (by decide +kernel : bgpSyn.be16 20 &&& 0x1fff = 0)
    · exact (by decide +kernel : bgpSyn.bytes 23 = IPPROTO_TCP)
    · exact .inr (by decide +kernel : bgpSyn.be16 36 ∈ [BGP_PORT, LDP_PORT])
  exact absurd ((hall bgpSyn hcomplete).mpr hcontrol) (by decide +kernel)

end SdPlane
