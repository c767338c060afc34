import SdPlane.Lib.Dot1q
import SdPlane.Repeater
import SdPlane.Routed

/-!
# The tag of a frame that is sent on a link

`sendLink` is about the bytes of one frame. Here the frames are mbufs of a pool, which are changed
in place, so that it can be said which of them a function leaves alone: `sendLinkIn` is
`_send_link` over a pool, and `sendLinkIn_frames` that it sends what `sendLink` sends.

`EgressTag` says what a link makes of a frame, in terms of the tags that the frame has. A link
without a tag takes the outer one, and only that: of a frame with two tags the other one is left.
-/

set_option autoImplicit false

namespace SdPlane

/-! ## Mbufs in place -/

/-- The mbufs that are in use, and what is in them. -/
structure Pool where
  used : Finset Nat
  mbuf : Nat → Mbuf

def Pool.write (p : Pool) (c : Nat) (m : Mbuf) : Pool :=
  { p with mbuf := Function.update p.mbuf c m }

/-- The world, and the mbuf that the next copy is made in. -/
structure PoolDpdk extends Dpdk where
  alloc : Pool → Nat

/-- `rte_pktmbuf_copy`. -/
def pktmbufCopy (dpdk : PoolDpdk) (u : Purpose) (p : Pool) (m : Nat) : Option (Nat × Pool) :=
  match dpdk.copy u (p.mbuf m) with
  | none => none
  | some copied =>
    let c := dpdk.alloc p
    some (c, { used := insert c p.used, mbuf := Function.update p.mbuf c copied })

/-- An mbuf that is handed to a port. -/
structure PoolTx where
  link : Nat
  port : Nat
  mbuf : Nat

/-- The vlan header of the mbuf `c`. -/
def retagIn (dpdk : PoolDpdk) (u : Purpose) (link : VswitchLink) (p : Pool) (c : Nat) :
    Except Fault Pool :=
  if (p.mbuf c).etherType = RTE_ETHER_TYPE_VLAN then
    if link.tagId ≠ 0 ∧ link.tagId ≠ (p.mbuf c).vlanId then
      .ok (p.write c ((p.mbuf c).setVlanId link.tagId))
    else if link.tagId = 0 then .ok (p.write c (dpdk.vlanStrip (p.mbuf c)))
    else .ok p
  else if link.tagId ≠ 0 then
    let p := p.write c (dpdk.vlanInsert u (p.mbuf c))
    if (p.mbuf c).etherType = RTE_ETHER_TYPE_VLAN then
      .ok (p.write c ((p.mbuf c).setVlanId link.tagId))
    else .error .assertion
  else .ok p

/-- `_send_link` of the mbuf `m`. -/
def sendLinkIn (dpdk : PoolDpdk) (c : RibConf) (i : Nat) (back : Bool) (p : Pool)
    (m txPort l : Nat) : Except Fault (Pool × List PoolTx) :=
  if dpdk.nbPorts ≤ txPort ∨ back = true then .ok (p, [])
  else if MAX_ETH_PORTS ≤ txPort then .error .outOfBounds
  else if dpdk.linkStatus (c.port txPort).link = false ∨ dpdk.txBuffer txPort = false then
    .ok (p, [])
  else
    match pktmbufCopy dpdk (.link i) p m with
    | none => .ok (p, [])
    | some (copy, p) =>
      match retagIn dpdk (.link i) (c.vswitchLink l) p copy with
      | .error e => .error e
      | .ok p => .ok (p, [⟨l, txPort, copy⟩])

/-! ## The bytes of it -/

theorem write_mbuf (p : Pool) (c j : Nat) (m : Mbuf) :
    (p.write c m).mbuf j = if j = c then m else p.mbuf j :=
  Function.update_apply ..

/-- The mbuf gets the vlan header that the frame in it gets, and no other mbuf changes. -/
theorem retagIn_eq (dpdk : PoolDpdk) (u : Purpose) (link : VswitchLink) (p : Pool) (c : Nat) :
    retagIn dpdk u link p c = (retag dpdk.toDpdk u link (p.mbuf c)).map (p.write c) := by
  have hself : p.write c (p.mbuf c) = p := by
    rw [Pool.write, Function.update_eq_self]
  have htwice : ∀ m m', (p.write c m).write c m' = p.write c m' := by
    intro m m'
    rw [Pool.write, Pool.write, Pool.write, Function.update_idem]
  have hread : ∀ m, (p.write c m).mbuf c = m := fun m => by rw [write_mbuf, if_pos rfl]
  unfold retagIn retag
  dsimp only
  simp only [hread, htwice]
  split
  · split
    · rfl
    · split
      · rfl
      · rw [Except.map, hself]
  · split
    · split <;> rfl
    · rw [Except.map, hself]

section Send

variable {dpdk : PoolDpdk} {c : RibConf} {i m txPort l : Nat} {back : Bool} {p p' : Pool}
  {sent : List PoolTx}

/-- What `sendLinkIn` has done if it has sent something. -/
theorem sendLinkIn_sent (h : sendLinkIn dpdk c i back p m txPort l = .ok (p', sent)) {t : PoolTx}
    (ht : t ∈ sent) :
    ∃ copied e, dpdk.copy (.link i) (p.mbuf m) = some copied
      ∧ retag dpdk.toDpdk (.link i) (c.vswitchLink l) copied = .ok e
      ∧ t.mbuf = dpdk.alloc p ∧ p'.mbuf = Function.update p.mbuf (dpdk.alloc p) e := by
  have nothing : ∀ {q}, (.ok (q, []) : Except Fault (Pool × List PoolTx)) = .ok (p', sent) → False := by
    intro q hq
    obtain ⟨-, rfl⟩ := Prod.mk.inj (Except.ok.inj hq)
    cases ht
  unfold sendLinkIn at h
  split at h
  · exact (nothing h).elim
  · split at h
    · cases h
    · split at h
      · exact (nothing h).elim
      · unfold pktmbufCopy at h
        cases hcopy : dpdk.copy (.link i) (p.mbuf m) with
        | none =>
          rw [hcopy] at h
          exact (nothing h).elim
        | some copied =>
          rw [hcopy] at h
          dsimp only at h
          rw [retagIn_eq] at h
          dsimp only at h
          rw [Function.update_self] at h
          cases hretag : retag dpdk.toDpdk (.link i) (c.vswitchLink l) copied with
          | error e =>
            rw [hretag] at h
            cases h
          | ok e =>
            rw [hretag] at h
            obtain ⟨rfl, rfl⟩ := Prod.mk.inj (Except.ok.inj h)
            refine ⟨copied, e, rfl, hretag, ?_, ?_⟩
            · rw [List.mem_singleton.mp ht]
            · exact Function.update_idem ..

/-- **What is sent are the frames that `sendLink` sends.** -/
theorem sendLinkIn_frames : (sendLinkIn dpdk c i back p m txPort l).map
      (fun s => s.2.map fun t => (⟨t.link, t.port, s.1.mbuf t.mbuf⟩ : Tx))
    = sendLink dpdk.toDpdk c i back (p.mbuf m) txPort l := by
  unfold sendLinkIn sendLink
  split
  · rfl
  · split
    · rfl
    · split
      · rfl
      · unfold pktmbufCopy
        cases hcopy : dpdk.copy (.link i) (p.mbuf m) with
        | none => rfl
        | some copied =>
          dsimp only
          rw [retagIn_eq]
          dsimp only
          rw [Function.update_self]
          cases hretag : retag dpdk.toDpdk (.link i) (c.vswitchLink l) copied with
          | error e => rfl
          | ok e =>
            simp only [Except.map, List.map_cons, List.map_nil, write_mbuf, if_true]

end Send

/-! ## Tags -/

/-- A frame has an Ethernet header, and the vlan header that its type says. -/
structure Mbuf.Framed (m : Mbuf) : Prop where
  ethernet : 14 ≤ m.dataLen
  vlan : m.etherType = RTE_ETHER_TYPE_VLAN → 16 ≤ m.dataLen

/-- What is sent for a frame on a link with this tag. -/
def EgressTag (tagId : UInt16) (frame e : List UInt8) : Prop :=
  if tagId = 0 then e = Lib.payload frame
  else ∃ tci, Lib.vid tci = tagId
    ∧ (∀ old, Lib.outer frame = some old → Lib.pcpDei tci = Lib.pcpDei old)
    ∧ e = Lib.tag tci (Lib.payload frame)

/-- Who receives a frame that was sent on a link with a tag finds this tag. -/
theorem EgressTag.outer {tagId : UInt16} {frame e : List UInt8} (h : EgressTag tagId frame e)
    (htag : tagId ≠ 0) (hlen : 12 ≤ frame.length) :
    ∃ tci, Lib.outer e = some tci ∧ Lib.vid tci = tagId := by
  rw [EgressTag, if_neg htag] at h
  obtain ⟨tci, hvid, -, rfl⟩ := h
  exact ⟨tci, Lib.outer_tag (Lib.twelve_le_length_payload hlen), hvid⟩

namespace Mbuf

/-- The bytes from `i` on. -/
theorem drop_data {m : Mbuf} {i : Nat} (h : i < m.dataLen) :
    m.data.drop i = m.bytes i :: m.data.drop (i + 1) := by
  rw [List.drop_eq_getElem_cons (by rwa [length_data])]
  simp [data]

theorem etherType_vlan_iff (m : Mbuf) :
    m.etherType = RTE_ETHER_TYPE_VLAN ↔ m.bytes 12 = 0x81 ∧ m.bytes 13 = 0x00 := by
  have hhigh := (m.bytes 12).toNat_lt
  have hlow := (m.bytes 13).toNat_lt
  have hnat : m.etherType.toNat = (m.bytes 12).toNat * 256 + (m.bytes 13).toNat := by
    refine UInt16.toNat_ofNat_of_lt' ?_
    show (m.bytes 12).toNat * 256 + (m.bytes 13).toNat < 2 ^ 16
    omega
  rw [← UInt16.toNat_inj, ← UInt8.toNat_inj, ← UInt8.toNat_inj, hnat]
  have htype : RTE_ETHER_TYPE_VLAN.toNat = 33024 := rfl
  have hbytes : (0x81 : UInt8).toNat = 129 ∧ (0x00 : UInt8).toNat = 0 := ⟨rfl, rfl⟩
  omega

theorem outer_of_tagged {m : Mbuf} (h : m.Tagged) : Lib.outer m.data = some (m.be16 14) := by
  have hlen := h.length
  rw [Lib.outer, drop_data (by omega), drop_data (by omega), drop_data (by omega),
    drop_data (by omega)]
  exact if_pos ((etherType_vlan_iff m).mp h.type)

theorem outer_of_untagged {m : Mbuf} (hlen : 14 ≤ m.dataLen)
    (h : m.etherType ≠ RTE_ETHER_TYPE_VLAN) : Lib.outer m.data = none := by
  rw [Lib.outer, drop_data (by omega), drop_data (by omega)]
  split
  · next heq =>
    obtain ⟨rfl, hrest⟩ := List.cons.inj heq
    obtain ⟨rfl, -⟩ := List.cons.inj hrest
    exact if_neg fun htype => h ((etherType_vlan_iff m).mpr htype)
  · rfl

/-- Another vlan id in the tag. -/
theorem data_setVlanId_tag {m : Mbuf} (h : m.Tagged) (v : UInt16) :
    (m.setVlanId v).data = Lib.tag (Lib.setVid (m.be16 14) v) (Lib.untag m.data) := by
  have htagged : (m.setVlanId v).Tagged := ⟨h.length, by rw [etherType_setVlanId]; exact h.type⟩
  have hsame : Lib.untag (m.setVlanId v).data = Lib.untag m.data := by
    have hstrip := congrArg data (setVlanId_vlanStrip m v)
    rwa [data_vlanStrip htagged.length, data_vlanStrip h.length] at hstrip
  have htci : (m.setVlanId v).be16 14 = Lib.setVid (m.be16 14) v := be16_setBe16 m 14 _
  rw [← hsame, ← htci, Lib.tag_untag (outer_of_tagged htagged)]

/-- The frame without its outer tag, if it has one. -/
theorem payload_of_tagged {m : Mbuf} (h : m.Tagged) : Lib.payload m.data = Lib.untag m.data := by
  rw [Lib.payload, outer_of_tagged h, Option.isSome_some, if_pos rfl]

theorem payload_of_untagged {m : Mbuf} (hlen : 14 ≤ m.dataLen)
    (h : m.etherType ≠ RTE_ETHER_TYPE_VLAN) : Lib.payload m.data = m.data := by
  rw [Lib.payload, outer_of_untagged hlen h]
  rfl

theorem dataLen_of_data {m c : Mbuf} (h : c.data = m.data) : c.dataLen = m.dataLen := by
  have hlength := congrArg List.length h
  rwa [length_data, length_data] at hlength

end Mbuf

/-- What the mbuf library documents, for a world in which headers are inserted: a copy is made in
    an mbuf that is not in use, and a header that is inserted is a tag. -/
structure PoolDpdk.Documented (dpdk : PoolDpdk) : Prop extends dpdk.toDpdk.Documented where
  insert : ∀ u m, 14 ≤ m.dataLen → ∃ tci, (dpdk.vlanInsert u m).data = Lib.tag tci m.data
  alloc : ∀ p, dpdk.alloc p ∉ p.used

/-- **The header of a copy becomes that of the link.** -/
theorem egressTag_of_retag {dpdk : PoolDpdk} (hdoc : dpdk.Documented) {m copied e : Mbuf}
    (hm : m.Framed) {u : Purpose} {link : VswitchLink} (hcopy : dpdk.copy u m = some copied)
    (hfits : link.tagId.toNat < 4096) (h : retag dpdk.toDpdk u link copied = .ok e) :
    EgressTag link.tagId m.data e.data := by
  by_cases htype : m.etherType = RTE_ETHER_TYPE_VLAN
  · have htagged : m.Tagged := ⟨hm.vlan htype, htype⟩
    obtain ⟨e', he, hresult⟩ := retag_tagged hdoc.toDocumented htagged hcopy hfits
    obtain rfl := Except.ok.inj (he.symm.trans h)
    unfold EgressTag
    rw [Mbuf.payload_of_tagged htagged]
    split
    · next hzero =>
      rw [if_pos hzero] at hresult
      exact hresult
    · next hzero =>
      rw [if_neg hzero] at hresult
      refine ⟨Lib.setVid (m.be16 14) link.tagId, ?_, fun old hold => ?_, ?_⟩
      · rw [Lib.vid_setVid, Lib.vid_of_lt hfits]
      · rw [Mbuf.outer_of_tagged htagged] at hold
        rw [Lib.pcpDei_setVid, Option.some.inj hold]
      · rw [hresult.2, Mbuf.data_setVlanId_tag htagged]
  · have hdata := hdoc.copy u m copied hcopy
    have hlen := hm.ethernet
    have hcopied : copied.etherType ≠ RTE_ETHER_TYPE_VLAN := by
      rwa [Mbuf.etherType, Mbuf.be16_of_data hdata (by omega)]
    rw [retag, if_neg hcopied] at h
    unfold EgressTag
    rw [Mbuf.payload_of_untagged hlen htype]
    split
    · next hzero =>
      rw [if_neg (not_not_intro hzero)] at h
      rw [← Except.ok.inj h, hdata]
    · next hzero =>
      rw [if_pos hzero] at h
      split at h
      · next hinserted =>
        -- a tag is put in, and gets the id of the link
        have hroom : 14 ≤ copied.dataLen := by rwa [Mbuf.dataLen_of_data hdata]
        obtain ⟨tci, htci⟩ := hdoc.insert u copied hroom
        rw [hdata] at htci
        have htagged : (dpdk.vlanInsert u copied).Tagged := by
          refine ⟨?_, hinserted⟩
          have hlength := congrArg List.length htci
          rw [Mbuf.length_data, Lib.length_tag, Mbuf.length_data] at hlength
          omega
        rw [← Except.ok.inj h, Mbuf.data_setVlanId_tag htagged, htci,
          Lib.untag_tag (by rw [Mbuf.length_data]; omega)]
        refine ⟨_, ?_, fun old hold => ?_, rfl⟩
        · rw [Lib.vid_setVid, Lib.vid_of_lt hfits]
        · rw [Mbuf.outer_of_untagged hlen htype] at hold
          cases hold
      · cases h

/-- **Every frame that is sent on a link has the tag of the link, everything else in it is as it was,
    and the frame itself is left alone.** -/
theorem sendLink_egressTag {dpdk : PoolDpdk} (hdoc : dpdk.Documented) {c : RibConf} {i : Nat}
    {back : Bool} {p p' : Pool} {m txPort l : Nat} {sent : List PoolTx} {t : PoolTx}
    (hused : m ∈ p.used) (hframe : (p.mbuf m).Framed) (hfits : (c.vswitchLink l).tagId ≤ 4094)
    (h : sendLinkIn dpdk c i back p m txPort l = .ok (p', sent)) (ht : t ∈ sent) :
    EgressTag (c.vswitchLink l).tagId (p.mbuf m).data (p'.mbuf t.mbuf).data
      ∧ p'.mbuf m = p.mbuf m := by
  obtain ⟨copied, e, hcopy, hretag, hmbuf, hpool⟩ := sendLinkIn_sent h ht
  constructor
  · rw [hpool, hmbuf, Function.update_self]
    have hnat := UInt16.le_iff_toNat_le.mp hfits
    exact egressTag_of_retag hdoc hframe hcopy (hnat.trans_lt (by decide)) hretag
  · have hne : m ≠ dpdk.alloc p := fun heq => hdoc.alloc p (heq ▸ hused)
    rw [hpool, Function.update_of_ne hne]

/-! A link with the tag 7, and one without -/

def PoolDpdk.plain (nbPorts : Nat) : PoolDpdk where
  toDpdk := .plain nbPorts
  alloc := fun p => p.used.sup id + 1

theorem PoolDpdk.plain_documented (nbPorts : Nat) : (PoolDpdk.plain nbPorts).Documented where
  toDocumented := Dpdk.plain_documented nbPorts
  insert := by
    intro u m hlen
    have htagged : m.vlanInsert.Tagged := by
      refine ⟨Nat.add_le_add_right (le_trans (by decide) hlen) 4, ?_⟩
      rw [Mbuf.etherType_vlan_iff]
      exact ⟨rfl, rfl⟩
    have hstrip := Mbuf.data_vlanStrip htagged.length
    rw [m.vlanStrip_vlanInsert] at hstrip
    refine ⟨m.vlanInsert.be16 14, ?_⟩
    rw [hstrip]
    exact (Lib.tag_untag (Mbuf.outer_of_tagged htagged)).symm
  alloc := by
    intro p hused
    have hle : p.used.sup id + 1 ≤ p.used.sup id := Finset.le_sup (f := id) hused
    exact absurd hle (Nat.not_succ_le_self _)

/-- One mbuf. -/
def onePool (frame : List UInt8) : Pool := ⟨{0}, fun _ => .ofList frame⟩

def linkOfTag (tagId : UInt16) : RibConf :=
  { RibConf.zero with vswitchLink := fun _ => { VswitchLink.zero with tagId := tagId } }

/-- Vlan 5, with a priority. -/
def taggedFrame : List UInt8 := [2, 0, 0, 0, 0, 9, 2, 0, 0, 0, 0, 1, 0x81, 0, 0x60, 5, 0x08, 0, 1, 2]

theorem sendLink_egressTag_seven : ∃ p' sent t,
    sendLinkIn (.plain 1) (linkOfTag 7) 0 false (onePool taggedFrame) 0 0 0 = .ok (p', sent)
      ∧ t ∈ sent ∧ EgressTag 7 (Mbuf.ofList taggedFrame).data (p'.mbuf t.mbuf).data
      ∧ p'.mbuf 0 = Mbuf.ofList taggedFrame := by
  have hframe : ((onePool taggedFrame).mbuf 0).Framed := ⟨by decide, fun _ => by decide⟩
  have hfits : ((linkOfTag 7).vswitchLink 0).tagId ≤ 4094 := by decide
  have hsend : ∃ p' sent t, sendLinkIn (.plain 1) (linkOfTag 7) 0 false (onePool taggedFrame) 0 0 0
      = .ok (p', sent) ∧ t ∈ sent := ⟨_, _, _, rfl, List.mem_cons_self⟩
  obtain ⟨p', sent, t, h, ht⟩ := hsend
  exact ⟨p', sent, t, h, ht, sendLink_egressTag (PoolDpdk.plain_documented 1)
    (Finset.mem_singleton_self 0) hframe hfits h ht⟩

/-- Two tags, for the vlans 5 and 6. -/
def doubleTagged : List UInt8 :=
  [2, 0, 0, 0, 0, 9, 2, 0, 0, 0, 0, 1, 0x81, 0, 0, 5, 0x81, 0, 0, 6, 0x08, 0, 1, 2]

theorem inner_tag_sent : ¬ ∀ (dpdk : PoolDpdk) (c : RibConf) (i : Nat) (back : Bool) (p p' : Pool)
    (m txPort l : Nat) (sent : List PoolTx) (t : PoolTx), dpdk.Documented → m ∈ p.used →
    (p.mbuf m).Framed → (c.vswitchLink l).tagId ≤ 4094 →
    sendLinkIn dpdk c i back p m txPort l = .ok (p', sent) → t ∈ sent →
    (c.vswitchLink l).tagId = 0 → Lib.outer (p'.mbuf t.mbuf).data = none := by
  intro hall
  have hnone := hall (.plain 1) (linkOfTag 0) 0 false (onePool doubleTagged) _ 0 0 0 _ _
    (PoolDpdk.plain_documented 1) (Finset.mem_singleton_self 0) ⟨by decide, fun _ => by decide⟩
    (by decide) rfl List.mem_cons_self rfl
  exact absurd hnone (by decide +kernel)

end SdPlane
