import SdPlane.QueuesFit
import SdPlane.RingOwnership

/-!
# Handlers that come to their end

For each handler of a configuration message, what it needs in order not to fault. It is little
where ports, links and vswitches refer to each other as they should (`Wired`, `PortIds`): a link
leads to its vswitch, and that to its list of links. What is left are numbers that a message brings
along, and numbers that a vswitch has been given: `router_if_delete` and `capture_if_delete` index
arrays of `MAX_VSWITCH` elements by the id of a vswitch, which may be any VLAN number.
-/

set_option autoImplicit false

namespace SdPlane

theorem inBounds_of_lt {i size : Nat} (h : i < size) : inBounds i size = .ok () := if_pos h

/-! ## Links -/

section Links

variable {c : RibConf}

theorem exists_vswitchLinkDelete {l : UInt16} {i : Nat} (hbound : l.toNat < MAX_VSWITCH_LINK)
    (hlookup : vswitchLookup c (c.vswitchLink l.toNat).vswitchId = some i)
    (hport : (c.vswitchLink l.toNat).portId.toNat < MAX_ETH_PORTS) :
    ∃ d, vswitchLinkDelete c l = .ok d := by
  simp only [vswitchLinkDelete, inBounds_of_lt hbound, hlookup, inBounds_of_lt hport, bind,
    Except.bind]
  exact ⟨_, rfl⟩

/-- The link of a live vswitch can be deleted. -/
theorem Wired.exists_linkDelete (hw : Wired c) (hp : PortIds c) {l : UInt16} {i : Nat}
    (hl : l.toNat < c.vswitchLinkSize.toNat) (hi : c.LiveVswitch i)
    (hid : (c.vswitchLink l.toNat).vswitchId = (c.vswitch i).vswitchId) :
    ∃ d, vswitchLinkDelete c l = .ok d := by
  have hlookup : vswitchLookup c (c.vswitchLink l.toNat).vswitchId = some i := by
    rw [hid]
    exact hw.lookup_eq hi
  exact exists_vswitchLinkDelete (hl.trans_le hw.linkSize) hlookup (hp.link l.toNat hl)

/-- The loop comes to an end: every round takes the first link off the list. -/
theorem exists_deleteLinks {i fuel : Nat} (hw : Wired c) (hp : PortIds c)
    (hfuel : (c.vswitch i).vswitchPortSize.toNat ≤ fuel) :
    ∃ d, vswitchDeleteLinks i fuel c = .ok d := by
  induction fuel generalizing c with
  | zero =>
    have hnone : ¬ (c.vswitch i).vswitchPortSize > 0 :=
      fun h => Nat.not_lt.mpr hfuel (UInt16.lt_iff_toNat_lt.mp h)
    exact ⟨c, if_neg hnone⟩
  | succ fuel ih =>
    unfold vswitchDeleteLinks
    split
    · next hpos =>
      have hpos : 0 < (c.vswitch i).vswitchPortSize.toNat := UInt16.lt_iff_toNat_lt.mp hpos
      have hfirst : (c.vswitch i).vswitchLinkId 0 ∈ (c.vswitch i).links :=
        Lib.mem_entries.mpr ⟨0, hpos, rfl⟩
      obtain ⟨hl, hid⟩ := hw.listed_at hpos
      obtain ⟨d, hd⟩ := hw.exists_linkDelete hp hl (hw.live_of_listed hfirst) hid
      obtain ⟨j, hdel⟩ := linkDeleted_ok hd
      have hsize : (d.vswitch i).vswitchPortSize.toNat ≤ fuel := by
        rw [← Wired.length_links, (hw.links_deleted hdel i).1, List.length_erase_of_mem hfirst,
          Wired.length_links]
        omega
      rw [hd]
      exact ih (hw.linkDeleted hdel) (hp.linkDeleted hdel) hsize
    · exact ⟨c, rfl⟩

theorem exists_vswitchPortSet {msg : InternalMsgVswitchPort}
    (hport : msg.portId.toNat < MAX_ETH_PORTS) : ∃ d, c.vswitchPortSet msg = .ok d := by
  unfold RibConf.vswitchPortSet
  split
  · exact ⟨c, rfl⟩
  · split
    · exact ⟨c, rfl⟩
    · simp only [inBounds_of_lt hport, bind, Except.bind]
      split <;> exact ⟨_, rfl⟩

theorem exists_vswitchPortNoSet {msg : InternalMsgVswitchPort} (hw : Wired c) (hp : PortIds c)
    (hport : msg.portId.toNat < MAX_ETH_PORTS) : ∃ d, c.vswitchPortNoSet msg = .ok d := by
  unfold RibConf.vswitchPortNoSet
  split
  · exact ⟨c, rfl⟩
  · next v hlookup =>
    simp only [inBounds_of_lt hport, bind, Except.bind, ite_self]
    split
    · exact ⟨c, rfl⟩
    · next l hlink =>
      obtain ⟨hlive, hid, -⟩ := vswitchLinkLookup_some hlink
      have hnamed := hw.named_toNat hlive.1
      refine hw.exists_linkDelete hp ?_ (vswitchLookup_some hlookup).1 ?_
      · rw [hnamed]
        exact hlive.1
      · rw [hnamed]
        exact hid

end Links

/-! ## Ports -/

/-- One of the fields for the port is to be changed. -/
def InternalMsgTxrxDesc.Changes (msg : InternalMsgTxrxDesc) : Prop :=
  msg.mtu ≠ 0 ∨ msg.nrxq ≠ 0 ∨ msg.ntxq ≠ 0 ∨ msg.nbRxd ≠ 0 ∨ msg.nbTxd ≠ 0

theorem exists_txrxDesc {c : RibConf} {msg : InternalMsgTxrxDesc}
    (h : msg.Changes → msg.portid.toNat < MAX_ETH_PORTS) : ∃ d, c.txrxDesc msg = .ok d := by
  rw [RibConf.txrxDesc]
  by_cases hchanges : msg.Changes
  · rw [inBounds_of_lt (h hchanges)]
    unfold InternalMsgTxrxDesc.Changes at hchanges
    rw [if_pos hchanges]
    exact ⟨_, rfl⟩
  · unfold InternalMsgTxrxDesc.Changes at hchanges
    rw [if_neg hchanges]
    exact ⟨_, rfl⟩

/-! ## Interfaces -/

section Interfaces

variable {c : RibConf} {rings : Rings} {kind : IfKind}

@[simp] theorem drop_sockfd (v : VswitchConf) {kind kind' : IfKind} (h : kind' ≠ kind) :
    (v.drop kind).sockfd kind' = v.sockfd kind' := by
  cases kind <;> cases kind' <;> first | rfl | exact absurd rfl h

/-- An interface is deleted where there is one. The other one stays. -/
theorem exists_maybeDelete {vswitchId : UInt16} {i : Nat}
    (hlookup : vswitchLookup c vswitchId = some i)
    (hbound : 0 ≤ (c.vswitch i).sockfd kind → vswitchId.toNat < MAX_VSWITCH) (rings : Rings) :
    ∃ d rings', (if (c.vswitch i).sockfd kind ≥ 0 then ifDelete kind c rings vswitchId
        else .ok (c, rings)) = .ok (d, rings')
      ∧ KeepsWiring c d ∧ ∀ kind', kind' ≠ kind →
        (d.vswitch i).sockfd kind' = (c.vswitch i).sockfd kind' := by
  by_cases hsockfd : (c.vswitch i).sockfd kind ≥ 0
  · obtain ⟨⟨d, rings'⟩, hdel⟩ := @exists_ifDelete kind _ _ _ hlookup (hbound hsockfd) rings
    obtain ⟨j, hdeleted⟩ := ifDeleted_ok hdel
    obtain rfl := Option.some.inj (hlookup.symm.trans hdeleted.lookup)
    refine ⟨d, rings', (if_pos hsockfd).trans hdel, hdeleted.keepsWiring, fun kind' hkind => ?_⟩
    rw [hdeleted.conf, RibConf.setVswitch_vswitch, if_pos rfl, drop_sockfd _ hkind]
  · exact ⟨c, rings, if_neg hsockfd, .refl c, fun _ _ => rfl⟩

/-- The steps of `vswitch_delete`, one after the other. -/
theorem vswitchDelete_of_steps {vswitchId : UInt16} {i : Nat} {c₁ c₂ c₃ : RibConf}
    {rings₁ rings₂ : Rings} (hlookup : vswitchLookup c vswitchId = some i)
    (h₁ : (if (c.vswitch i).routerIf.sockfd ≥ 0 then routerIfDelete c rings vswitchId
      else .ok (c, rings)) = .ok (c₁, rings₁))
    (h₂ : (if (c₁.vswitch i).captureIf.sockfd ≥ 0 then captureIfDelete c₁ rings₁ vswitchId
      else .ok (c₁, rings₁)) = .ok (c₂, rings₂))
    (h₃ : vswitchDeleteLinks i (c₂.vswitch i).vswitchPortSize.toNat c₂ = .ok c₃) :
    ∃ r, vswitchDelete c rings vswitchId = .ok r := by
  have hrest : ∃ r, (if (c₁.vswitch i).captureIf.sockfd ≥ 0 then do
        let s ← captureIfDelete c₁ rings₁ vswitchId
        let c ← vswitchDeleteLinks i (s.1.vswitch i).vswitchPortSize.toNat s.1
        .ok (c.setVswitch i fun v => { v with isDeleted := true }, s.2)
      else do
        let c ← vswitchDeleteLinks i (c₁.vswitch i).vswitchPortSize.toNat c₁
        .ok (c.setVswitch i fun v => { v with isDeleted := true }, rings₁))
      = (.ok r : Except Fault (RibConf × Rings)) := by
    split at h₂
    · next hsockfd =>
      rw [if_pos hsockfd, h₂]
      dsimp only [bind, Except.bind]
      rw [h₃]
      exact ⟨_, rfl⟩
    · next hsockfd =>
      obtain ⟨rfl, -⟩ := Prod.mk.inj (Except.ok.inj h₂)
      rw [if_neg hsockfd, h₃]
      exact ⟨_, rfl⟩
  obtain ⟨r, hr⟩ := hrest
  refine ⟨r, ?_⟩
  rw [vswitchDelete, hlookup]
  split at h₁
  · next hsockfd =>
    dsimp only
    rw [if_pos hsockfd, h₁]
    exact hr
  · next hsockfd =>
    obtain ⟨rfl, rfl⟩ := Prod.mk.inj (Except.ok.inj h₁)
    dsimp only
    rw [if_neg hsockfd]
    exact hr

theorem exists_vswitchDelete {vswitchId : UInt16} (hw : Wired c) (hp : PortIds c)
    (hbound : ∀ i, vswitchLookup c vswitchId = some i →
      (∃ kind, 0 ≤ (c.vswitch i).sockfd kind) → vswitchId.toNat < MAX_VSWITCH) (rings : Rings) :
    ∃ r, vswitchDelete c rings vswitchId = .ok r := by
  cases hlookup : vswitchLookup c vswitchId with
  | none => exact ⟨(c, rings), by rw [vswitchDelete, hlookup]⟩
  | some i =>
    have hbound := hbound i hlookup
    obtain ⟨c₁, rings₁, h₁, hkeeps₁, hsame⟩ := @exists_maybeDelete _ .router _ _ hlookup
      (fun h => hbound ⟨.router, h⟩) rings
    have hlookup₁ : vswitchLookup c₁ vswitchId = some i := by
      rw [hkeeps₁.lookup]
      exact hlookup
    have hcapture : 0 ≤ (c₁.vswitch i).sockfd .capture → vswitchId.toNat < MAX_VSWITCH := by
      intro h
      rw [hsame .capture (by rintro ⟨⟩)] at h
      exact hbound ⟨.capture, h⟩
    obtain ⟨c₂, rings₂, h₂, hkeeps₂, -⟩ := @exists_maybeDelete _ .capture _ _ hlookup₁ hcapture
      rings₁
    have hkeeps := hkeeps₁.trans hkeeps₂
    obtain ⟨d, hd⟩ := exists_deleteLinks (hw.keep hkeeps) (hp.keep hkeeps) (le_refl _)
    exact vswitchDelete_of_steps hlookup h₁ h₂ hd

/-- Every interface of this name can be deleted. -/
def RibConf.Deletable (c : RibConf) (kind : IfKind) (name : CharBuf) : Prop :=
  ∀ i, c.Named kind name i → (c.vswitch i).vswitchId.toNat < MAX_VSWITCH
    ∧ (vswitchLookup c (c.vswitch i).vswitchId).isSome

/-- When one has been deleted, the others still can be. -/
theorem RibConf.Deletable.ifDeleted {name : CharBuf} {i j : Nat} {d : RibConf} {rings' : Rings}
    (h : c.Deletable kind name) (hi : c.Named kind name i)
    (hdel : IfDeleted kind c rings (c.vswitch i).vswitchId j d rings') : d.Deletable kind name := by
  have hkeeps := hdel.keepsWiring
  intro k ⟨hk, hname⟩
  rw [hkeeps.vswitchSize] at hk
  have hid : (d.vswitch k).vswitchId = (c.vswitch k).vswitchId := by
    obtain ⟨rif, cif, hk⟩ := hkeeps.vswitch k
    rw [hk]
  rw [hkeeps.lookup, hid]
  by_cases hkj : k = j
  · -- it has lost its name, but it has the id of the one that was found by it
    rw [hkj, (vswitchLookup_some hdel.lookup).2]
    exact h i hi
  · rw [hdel.conf, RibConf.setVswitch_vswitch, if_neg hkj] at hname
    exact h k ⟨hk, hname⟩

theorem exists_tapNoSet {name : CharBuf} (hsize : c.vswitchSize.toNat ≤ MAX_VSWITCH)
    (h : c.Deletable kind name) (rings : Rings) :
    ∃ r, RibConf.tapNoSet (fun v => v.tapName kind) (ifDelete kind) name c rings = .ok r := by
  cases hresult : RibConf.tapNoSet (fun v => v.tapName kind) (ifDelete kind) name c rings with
  | ok r => exact ⟨r, rfl⟩
  | error e =>
    refine ((Lib.forRange_rule
      (fun _ (s : RibConf × Rings) => KeepsWiring c s.1 ∧ s.1.Deletable kind name) (fun _ => False)
      ⟨.refl c, h⟩ fun i s hi ⟨hkeeps, hs⟩ => ?_).2 e hresult).elim
    rw [inBounds_of_lt (hi.trans_le hsize)]
    dsimp only [bind, Except.bind]
    by_cases hname : name.str = ((s.1.vswitch i).tapName kind).str
    · have hi : s.1.Named kind name i := ⟨hkeeps.vswitchSize ▸ hi, hname⟩
      obtain ⟨hbound, hfound⟩ := hs i hi
      obtain ⟨j, hlookup⟩ := Option.isSome_iff_exists.mp hfound
      obtain ⟨⟨d, rings'⟩, hdel⟩ := @exists_ifDelete kind _ _ _ hlookup hbound s.2
      obtain ⟨j', hdeleted⟩ := ifDeleted_ok hdel
      rw [if_pos hname, hdel]
      refine ⟨fun s' hs' => ?_, fun e he => nomatch he⟩
      obtain rfl := Except.ok.inj hs'
      exact ⟨hkeeps.trans hdeleted.keepsWiring, hs.ifDeleted hi hdeleted⟩
    · rw [if_neg hname]
      refine ⟨fun s' hs' => ?_, fun e he => nomatch he⟩
      obtain rfl := Except.ok.inj hs'
      exact ⟨hkeeps, hs⟩

end Interfaces

/-! ## Neighbors -/

section Neighbors

variable {c : RibConf} {msg : InternalMsgNeighEntry}

/-- The table of the message, and the place in it. -/
structure InternalMsgNeighEntry.InTable (msg : InternalMsgNeighEntry) : Prop where
  type : 0 ≤ msg.type ∧ msg.type < NEIGH_NR_TABLES
  pos : 0 ≤ msg.pos ∧ msg.pos < MAX_NEIGHBOR_ENTRY_SIZE

theorem neighPos_eq (h : msg.InTable) :
    RibConf.neighPos msg = .ok (msg.type.toNat, msg.pos.toNat) := by
  obtain ⟨⟨htype, htype'⟩, hpos, hpos'⟩ := h
  have hguard : ¬ (msg.type < 0 ∨ msg.pos < 0) := by omega
  have htable : msg.type.toNat < NEIGH_NR_TABLES := by omega
  have hplace : msg.pos.toNat < MAX_NEIGHBOR_ENTRY_SIZE := by omega
  rw [RibConf.neighPos, if_neg hguard, inBounds_of_lt htable, inBounds_of_lt hplace]
  rfl

theorem exists_neighMoved {numEntries pos : Int} (hpos : 0 ≤ pos) (hle : pos ≤ numEntries)
    (hmax : numEntries < MAX_NEIGHBOR_ENTRY_SIZE) : ∃ n, RibConf.neighMoved numEntries pos = .ok n := by
  have hlast : pos.toNat + (numEntries - pos).toNat < MAX_NEIGHBOR_ENTRY_SIZE := by omega
  rw [RibConf.neighMoved, if_neg (Int.not_lt.mpr hle)]
  dsimp only
  split
  · exact ⟨_, rfl⟩
  · rw [inBounds_of_lt hlast]
    exact ⟨_, rfl⟩

theorem exists_neighEntryAdd (h : msg.InTable) (hmax : msg.numEntries ≤ MAX_NEIGHBOR_ENTRY_SIZE)
    (hle : (c.neighTables msg.type.toNat).numEntries < msg.numEntries →
      msg.pos ≤ (c.neighTables msg.type.toNat).numEntries) :
    ∃ d, c.neighEntryAdd msg = .ok d := by
  simp only [RibConf.neighEntryAdd, neighPos_eq h, bind, Except.bind]
  split
  · next hmore =>
    obtain ⟨n, hn⟩ := exists_neighMoved h.pos.1 (hle hmore) (hmore.trans_le hmax)
    rw [hn]
    exact ⟨_, rfl⟩
  · exact ⟨_, rfl⟩

theorem exists_neighEntryDel (h : msg.InTable) (hle : msg.pos ≤ msg.numEntries)
    (hmax : msg.numEntries < MAX_NEIGHBOR_ENTRY_SIZE) : ∃ d, c.neighEntryDel msg = .ok d := by
  obtain ⟨n, hn⟩ := exists_neighMoved h.pos.1 hle hmax
  simp only [RibConf.neighEntryDel, neighPos_eq h, hn, bind, Except.bind]
  exact ⟨_, rfl⟩

end Neighbors

end SdPlane
