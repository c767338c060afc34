import SdPlane.Lib.Collect
import SdPlane.Lib.Entries
import SdPlane.RibConf

/-!
# Frames and links (`net_subr.h`, `packet_hdr.h`)

An mbuf is a buffer of which the first `dataLen` bytes are the frame. The forwarding threads read
headers without looking at the length, so every byte of the buffer can be read, and behind the
frame it is what somebody else has left there.

Each of the forwarding threads has its own copy of the function that sends a frame on a link, and
they differ in one point only: which frames are not sent back. That function is `sendLink`. It
gives the port a copy, with the tag that the link has, or without one.

What drivers, rings and the mbuf library answer is in `Dpdk`. A request that can fail can do so
every time anew, so the answers are numbered by what the request is for.
-/

set_option autoImplicit false

namespace SdPlane

structure Mbuf where
  bytes : Nat → UInt8
  dataLen : Nat

def RTE_ETHER_TYPE_VLAN : UInt16 := 0x8100

namespace Mbuf

/-- The frame. -/
def data (m : Mbuf) : List UInt8 := Lib.entries m.bytes m.dataLen

/-- `rte_be_to_cpu_16` of the two bytes at `i`. -/
def be16 (m : Mbuf) (i : Nat) : UInt16 :=
  UInt16.ofNat ((m.bytes i).toNat * 256 + (m.bytes (i + 1)).toNat)

def setByte (m : Mbuf) (i : Nat) (b : UInt8) : Mbuf :=
  { m with bytes := Function.update m.bytes i b }

/-- `rte_cpu_to_be_16`, into the two bytes at `i`. -/
def setBe16 (m : Mbuf) (i : Nat) (v : UInt16) : Mbuf :=
  (m.setByte i (UInt8.ofNat (v.toNat / 256))).setByte (i + 1) (UInt8.ofNat v.toNat)

/-- `eth->ether_type`. -/
def etherType (m : Mbuf) : UInt16 := m.be16 12

/-- `RTE_VLAN_TCI_ID (vlan->vlan_tci)`, of the header behind the Ethernet header. -/
def vlanId (m : Mbuf) : UInt16 := m.be16 14 &&& 0x0fff

/-- Another vlan id in the header; priority and drop eligibility stay. -/
def setVlanId (m : Mbuf) (vlanId : UInt16) : Mbuf :=
  m.setBe16 14 ((m.be16 14 &&& 0xf000) ||| (vlanId &&& 0x0fff))

/-- The addresses `eth->dst_addr` and `eth->src_addr`. -/
def dstAddr (m : Mbuf) : EtherAddr := Vector.ofFn fun i => m.bytes i
def srcAddr (m : Mbuf) : EtherAddr := Vector.ofFn fun i => m.bytes (6 + i)

/-- A frame with a vlan header. -/
structure Tagged (m : Mbuf) : Prop where
  length : 16 ≤ m.dataLen
  type : m.etherType = RTE_ETHER_TYPE_VLAN

@[simp] theorem dataLen_setByte (m : Mbuf) (i : Nat) (b : UInt8) :
    (m.setByte i b).dataLen = m.dataLen := rfl

@[simp] theorem bytes_setByte (m : Mbuf) (i j : Nat) (b : UInt8) :
    (m.setByte i b).bytes j = if j = i then b else m.bytes j :=
  Function.update_apply ..

@[simp] theorem dataLen_setVlanId (m : Mbuf) (v : UInt16) : (m.setVlanId v).dataLen = m.dataLen :=
  rfl

@[simp] theorem length_data (m : Mbuf) : m.data.length = m.dataLen := Lib.length_entries ..

theorem be16_setBe16 (m : Mbuf) (i : Nat) (v : UInt16) : (m.setBe16 i v).be16 i = v := by
  have hv := v.toNat_lt
  have hhigh : (m.setBe16 i v).bytes i = UInt8.ofNat (v.toNat / 256) := by simp [setBe16]
  have hlow : (m.setBe16 i v).bytes (i + 1) = UInt8.ofNat v.toNat := by simp [setBe16]
  rw [be16, hhigh, hlow]
  apply UInt16.toNat_inj.mp
  simp
  omega

theorem be16_setBe16_of_ne (m : Mbuf) {i j : Nat} (v : UInt16) (h : j + 1 < i ∨ i + 1 < j) :
    (m.setBe16 i v).be16 j = m.be16 j := by
  have hbyte : ∀ k, k ≠ i → k ≠ i + 1 → (m.setBe16 i v).bytes k = m.bytes k := by
    intro k hi hi'
    simp [setBe16, hi, hi']
  rw [be16, be16, hbyte j (by omega) (by omega), hbyte (j + 1) (by omega) (by omega)]

@[simp] theorem etherType_setVlanId (m : Mbuf) (v : UInt16) :
    (m.setVlanId v).etherType = m.etherType :=
  m.be16_setBe16_of_ne _ (.inl (by decide))

@[simp] theorem vlanId_setVlanId (m : Mbuf) (v : UInt16) :
    (m.setVlanId v).vlanId = v &&& 0x0fff := by
  have hmask : ∀ a b : UInt16, ((a &&& 0xf000) ||| (b &&& 0x0fff)) &&& 0x0fff = b &&& 0x0fff := by
    intro a b
    apply UInt16.toNat_inj.mp
    simp only [UInt16.toNat_and, UInt16.toNat_or, Nat.and_or_distrib_right, Nat.and_assoc]
    simp
  rw [vlanId, setVlanId, be16_setBe16, hmask]

/-- Only the two bytes of the tag change. -/
theorem bytes_setVlanId (m : Mbuf) (v : UInt16) {i : Nat} (h : i ≠ 14) (h' : i ≠ 15) :
    (m.setVlanId v).bytes i = m.bytes i := by
  simp [setVlanId, setBe16, h, h']

/-- Frames of the same bytes agree on what lies within them. -/
theorem bytes_of_data {m c : Mbuf} (h : c.data = m.data) {i : Nat} (hi : i < m.dataLen) :
    c.bytes i = m.bytes i := by
  have hlt : i < c.data.length := by rwa [h, length_data]
  have hlt' : i < m.data.length := by rwa [length_data]
  have hget : c.data[i] = m.data[i] := by simp only [h]
  simpa [data] using hget

theorem be16_of_data {m c : Mbuf} (h : c.data = m.data) {i : Nat} (hi : i + 1 < m.dataLen) :
    c.be16 i = m.be16 i := by
  rw [be16, be16, bytes_of_data h (Nat.lt_of_succ_lt hi), bytes_of_data h hi]

theorem setBe16_be16 (m : Mbuf) (i : Nat) : m.setBe16 i (m.be16 i) = m := by
  have hlow := (m.bytes (i + 1)).toNat_lt
  have hhigh := (m.bytes i).toNat_lt
  have hvalue : (m.be16 i).toNat = (m.bytes i).toNat * 256 + (m.bytes (i + 1)).toNat := by
    rw [be16, UInt16.toNat_ofNat_of_lt']
    show _ < 2 ^ 16
    omega
  have hdiv : (m.be16 i).toNat / 256 = (m.bytes i).toNat := by omega
  have hbytes : (m.setBe16 i (m.be16 i)).bytes = m.bytes := by
    funext j
    simp only [setBe16, bytes_setByte]
    split
    · next hj =>
      subst hj
      apply UInt8.toNat_inj.mp
      rw [UInt8.toNat_ofNat', hvalue]
      omega
    · split
      · next hj =>
        subst hj
        rw [hdiv]
        simp
      · rfl
  cases m
  exact congrArg (Mbuf.mk · _) hbytes

/-- The vlan id that a frame has. -/
theorem setVlanId_vlanId (m : Mbuf) : m.setVlanId m.vlanId = m := by
  have hmask : ∀ a : UInt16, (a &&& 0xf000) ||| ((a &&& 0x0fff) &&& 0x0fff) = a := by
    intro a
    apply UInt16.toNat_inj.mp
    rw [UInt16.and_assoc, UInt16.toNat_or, UInt16.toNat_and, UInt16.toNat_and,
      ← Nat.and_or_distrib_left]
    exact Nat.and_two_pow_sub_one_of_lt_two_pow a.toNat_lt
  rw [setVlanId, vlanId, hmask, setBe16_be16]

/-- Frames of the same bytes are the same with another vlan id. -/
theorem data_setVlanId {m c : Mbuf} (h : c.data = m.data) (hlen : 16 ≤ m.dataLen) (v : UInt16) :
    (c.setVlanId v).data = (m.setVlanId v).data := by
  have hlength : c.dataLen = m.dataLen := by
    have hdata := congrArg List.length h
    rwa [length_data, length_data] at hdata
  have htci := be16_of_data h (show 14 + 1 < m.dataLen by omega)
  have hbytes : ∀ i < m.dataLen, (c.setVlanId v).bytes i = (m.setVlanId v).bytes i := by
    intro i hi
    simp only [setVlanId, setBe16, bytes_setByte, htci, bytes_of_data h hi]
  rw [data, data, dataLen_setVlanId, dataLen_setVlanId, hlength]
  exact Lib.entries_congr hbytes

end Mbuf

/-! ## The world -/

/-- What a copy of a frame is made for. A router interface can be given a frame twice: `again` is the
    copy that is flooded. -/
inductive Purpose
  | link (i : Nat)
  | routerIf (again : Bool)
  | routerIfRing (again : Bool)
  | captureIf
  | application (i : Nat)
deriving DecidableEq

structure Dpdk where
  /-- `rte_eth_dev_count_avail`. -/
  nbPorts : Nat
  /-- `link_status` of a `struct rte_eth_link`. -/
  linkStatus : Nat → Bool
  /-- Whether the port has a transmit buffer for this lcore. -/
  txBuffer : Nat → Bool
  /-- `rte_pktmbuf_copy`. -/
  copy : Purpose → Mbuf → Option Mbuf
  /-- `rte_vlan_insert`; a frame in which there is no room stays as it is. -/
  vlanInsert : Purpose → Mbuf → Mbuf
  /-- `rte_vlan_strip`. -/
  vlanStrip : Mbuf → Mbuf
  /-- Whether `rte_ring_enqueue` has room. -/
  ringEnqueue : Purpose → Bool
  /-- The function that an application has registered. -/
  isPacketMatch : Nat → Mbuf → Bool

/-- What the mbuf library documents: a copy has the bytes of the frame, and a header that is
    stripped is the four bytes behind the addresses. -/
structure Dpdk.Documented (dpdk : Dpdk) : Prop where
  copy : ∀ u m c, dpdk.copy u m = some c → c.data = m.data
  strip : ∀ m, 16 ≤ m.dataLen → m.etherType = RTE_ETHER_TYPE_VLAN →
    (dpdk.vlanStrip m).data = m.data.take 12 ++ m.data.drop 16

/-- A frame that is handed to a port, and the link that it is sent on. -/
structure Tx where
  link : Nat
  port : Nat
  frame : Mbuf

/-! ## Sending -/

/-- The vlan header of a copy that leaves on a link. -/
def retag (dpdk : Dpdk) (u : Purpose) (link : VswitchLink) (c : Mbuf) : Except Fault Mbuf :=
  if c.etherType = RTE_ETHER_TYPE_VLAN then
    if link.tagId ≠ 0 ∧ link.tagId ≠ c.vlanId then .ok (c.setVlanId link.tagId)
    else if link.tagId = 0 then .ok (dpdk.vlanStrip c)
    else .ok c
  else if link.tagId ≠ 0 then
    -- the frame is read again, and has to have the header now
    if (dpdk.vlanInsert u c).etherType = RTE_ETHER_TYPE_VLAN then
      .ok ((dpdk.vlanInsert u c).setVlanId link.tagId)
    else .error .assertion
  else .ok c

/-- `_send_link`. `back` are the frames that are not sent because they have come this way. -/
def sendLink (dpdk : Dpdk) (c : RibConf) (i : Nat) (back : Bool) (m : Mbuf) (txPort l : Nat) :
    Except Fault (List Tx) :=
  if dpdk.nbPorts ≤ txPort ∨ back = true then .ok []
  else if MAX_ETH_PORTS ≤ txPort then .error .outOfBounds
  else if dpdk.linkStatus (c.port txPort).link = false ∨ dpdk.txBuffer txPort = false then .ok []
  else
    match dpdk.copy (.link i) m with
    | none => .ok []
    | some copied =>
      match retag dpdk (.link i) (c.vswitchLink l) copied with
      | .error e => .error e
      | .ok frame => .ok [⟨l, txPort, frame⟩]

/-- The port takes frames: it is there, its link is up, and this lcore has a buffer for it. -/
structure Dpdk.Ready (dpdk : Dpdk) (c : RibConf) (p : Nat) : Prop where
  present : p < dpdk.nbPorts
  up : dpdk.linkStatus (c.port p).link = true
  buffer : dpdk.txBuffer p = true

/-- `rte_vlan_insert` has to make a header, and does not. -/
def Dpdk.NoInsert (dpdk : Dpdk) (u : Purpose) (link : VswitchLink) (c : Mbuf) : Prop :=
  c.etherType ≠ RTE_ETHER_TYPE_VLAN ∧ link.tagId ≠ 0
    ∧ (dpdk.vlanInsert u c).etherType ≠ RTE_ETHER_TYPE_VLAN

/-! ## Rings -/

/-- `_send_ring`: the copy that the ring gets. -/
def sendRing (dpdk : Dpdk) (u : Purpose) (m : Mbuf) : Option Mbuf :=
  match dpdk.copy u m with
  | none => none
  | some c => if dpdk.ringEnqueue u then some c else none

/-- `rte_vlan_hdr_set`. -/
def rteVlanHdrSet (c : Mbuf) (vlanId : UInt16) : Except Fault Mbuf :=
  if c.etherType = RTE_ETHER_TYPE_VLAN then .ok (c.setVlanId vlanId) else .error .assertion

/-- The copy for the router interface, with the vlan header that the interface has. -/
def routerIfTag (dpdk : Dpdk) (rif : RouterIf) (again : Bool) (c : Mbuf) : Except Fault Mbuf :=
  if rif.vlanId ≠ 0 then
    if c.etherType = RTE_ETHER_TYPE_VLAN then rteVlanHdrSet c rif.vlanId
    else rteVlanHdrSet (dpdk.vlanInsert (.routerIf again) c) rif.vlanId
  else if c.etherType = RTE_ETHER_TYPE_VLAN then .ok (dpdk.vlanStrip c)
  else .ok c

/-- What the ring of a router interface gets. -/
def routerIfFrame (dpdk : Dpdk) (rif : RouterIf) (again : Bool) (m : Mbuf) :
    Except Fault (Option Mbuf) :=
  match dpdk.copy (.routerIf again) m with
  | none => .ok none
  | some c =>
    match routerIfTag dpdk rif again c with
    | .error e => .error e
    | .ok c => .ok (if rif.ringUp ≠ 0 then sendRing dpdk (.routerIfRing again) c else none)

/-! ## What is sent -/

theorem retag_error {dpdk : Dpdk} {u : Purpose} {link : VswitchLink} {c : Mbuf} {e : Fault}
    (h : retag dpdk u link c = .error e) : e = .assertion ∧ dpdk.NoInsert u link c := by
  unfold retag at h
  split at h
  · split at h
    · cases h
    · split at h <;> cases h
  · next htype =>
    split at h
    · next htag =>
      split at h
      · cases h
      · next hinsert => exact ⟨(Except.error.inj h).symm, htype, htag, hinsert⟩
    · cases h

theorem retag_noInsert {dpdk : Dpdk} {u : Purpose} {link : VswitchLink} {c : Mbuf}
    (h : dpdk.NoInsert u link c) : retag dpdk u link c = .error .assertion := by
  obtain ⟨htype, htag, hinsert⟩ := h
  rw [retag, if_neg htype, if_pos htag, if_neg hinsert]

variable {dpdk : Dpdk} {c : RibConf} {i txPort l : Nat} {back : Bool} {m copied : Mbuf}

/-- A frame is not sent back, and a port that is not ready or cannot be given a copy is passed
    over. -/
theorem sendLink_skip (hport : txPort < MAX_ETH_PORTS)
    (h : ¬ (back = false ∧ dpdk.Ready c txPort ∧ (dpdk.copy (.link i) m).isSome)) :
    sendLink dpdk c i back m txPort l = .ok [] := by
  unfold sendLink
  split
  · rfl
  · next hgo =>
    obtain ⟨hpresent, hback⟩ := not_or.mp hgo
    rw [if_neg (Nat.not_le.mpr hport)]
    split
    · rfl
    · next hup =>
      obtain ⟨hup, hbuffer⟩ := not_or.mp hup
      cases hcopy : dpdk.copy (.link i) m with
      | none => rfl
      | some copied =>
        refine absurd ⟨by simpa using hback, ⟨Nat.lt_of_not_le hpresent, ?_, ?_⟩, by simp [hcopy]⟩ h
        · simpa using hup
        · simpa using hbuffer

/-- What is sent on a link is sent to the port. -/
theorem mem_sendLink {sent : List Tx} (h : sendLink dpdk c i back m txPort l = .ok sent) {t : Tx}
    (ht : t ∈ sent) : t.link = l ∧ t.port = txPort := by
  unfold sendLink at h
  split at h
  · obtain rfl := Except.ok.inj h
    cases ht
  · split at h
    · cases h
    · split at h
      · obtain rfl := Except.ok.inj h
        cases ht
      · split at h
        · obtain rfl := Except.ok.inj h
          cases ht
        · split at h
          · cases h
          · obtain rfl := Except.ok.inj h
            rw [List.mem_singleton.mp ht]
            exact ⟨rfl, rfl⟩

theorem sendLink_copy (hport : txPort < MAX_ETH_PORTS) (hback : back = false)
    (hready : dpdk.Ready c txPort) (hcopy : dpdk.copy (.link i) m = some copied) :
    sendLink dpdk c i back m txPort l
      = (retag dpdk (.link i) (c.vswitchLink l) copied).map fun frame => [⟨l, txPort, frame⟩] := by
  have hgo : ¬ (dpdk.nbPorts ≤ txPort ∨ back = true) := by
    simp [hback, hready.present]
  rw [sendLink, if_neg hgo, if_neg (Nat.not_le.mpr hport),
    if_neg (by simp [hready.up, hready.buffer]), hcopy]
  dsimp only
  cases retag dpdk (.link i) (c.vswitchLink l) copied with
  | error e => rfl
  | ok frame => rfl

/-! ## A world in which everything is granted -/

/-- The frame of some bytes, in a buffer of zeros. -/
def Mbuf.ofList (l : List UInt8) : Mbuf := ⟨fun i => l.getD i 0, l.length⟩

def Mbuf.vlanInsert (m : Mbuf) : Mbuf where
  bytes := fun i =>
    if i < 12 then m.bytes i else if i = 12 then 0x81 else if i < 16 then 0 else m.bytes (i - 4)
  dataLen := m.dataLen + 4

def Mbuf.vlanStrip (m : Mbuf) : Mbuf where
  bytes := fun i => if i < 12 then m.bytes i else m.bytes (i + 4)
  dataLen := m.dataLen - 4

def Dpdk.plain (nbPorts : Nat) : Dpdk where
  nbPorts := nbPorts
  linkStatus := fun _ => true
  txBuffer := fun _ => true
  copy := fun _ m => some m
  vlanInsert := fun _ m => m.vlanInsert
  vlanStrip := Mbuf.vlanStrip
  ringEnqueue := fun _ => true
  isPacketMatch := fun _ _ => true

theorem Mbuf.data_vlanStrip {m : Mbuf} (h : 16 ≤ m.dataLen) :
    m.vlanStrip.data = m.data.take 12 ++ m.data.drop 16 := by
  apply List.ext_getElem
  · simp [vlanStrip]
    omega
  · intro i hi hi'
    by_cases hlt : i < 12
    · rw [List.getElem_append_left (by simp; omega)]
      simp [vlanStrip, data, hlt]
    · rw [List.getElem_append_right (by simp; omega)]
      simp only [vlanStrip, data, Lib.getElem_entries, if_neg hlt, List.getElem_drop,
        List.length_take, Lib.length_entries]
      congr 1
      omega

theorem Dpdk.plain_documented (nbPorts : Nat) : (Dpdk.plain nbPorts).Documented := by
  refine ⟨fun u m c hcopy => ?_, fun m hlen _ => Mbuf.data_vlanStrip hlen⟩
  rw [← Option.some.inj hcopy]

/-- A frame copy has room for another header in front, so `rte_vlan_insert` makes it. -/
def Dpdk.Inserts (dpdk : Dpdk) : Prop :=
  ∀ u m, (dpdk.vlanInsert u m).etherType = RTE_ETHER_TYPE_VLAN

theorem Dpdk.plain_inserts (nbPorts : Nat) : (Dpdk.plain nbPorts).Inserts := by
  intro u m
  simp [Mbuf.etherType, Mbuf.be16, plain, Mbuf.vlanInsert, RTE_ETHER_TYPE_VLAN]

end SdPlane
