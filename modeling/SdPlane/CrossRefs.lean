import SdPlane.PortRefs

/-!
# Links are referred to exactly once

`CrossRefs` is what the three tables owe each other: a link in use stands once on the list of a
vswitch in use, at the place it says, and its port refers to it once, as a tagged link or as the
native one; and whatever a list or a native field names is a link in use, of that vswitch or
port. The native field has a mark for "none", `65535`, which a configuration that `memset` made
does not carry.

The messages do not keep it. A link may be made for which the list of the vswitch, or that of
the port, has no room, or in the place of another native link; a native link is only forgotten
by a port that has tagged links; and the links that are renumbered after a deletion are those
with a greater id, not those further down the list. `CrossRefsKept` collects what has to be
true for none of this to happen, and `crossRefs_iff` says that nothing else can go wrong.
-/

set_option autoImplicit false

namespace SdPlane

/-- How often a port refers to a link. -/
def PortConf.references (p : PortConf) (l : UInt16) : Nat :=
  p.vlans.count l + if p.vswitchLinkIdOfNativeVlan = l then 1 else 0

structure CrossRefs (c : RibConf) : Prop where
  link : ∀ l, c.LiveLink l → ∃ i, c.LiveVswitch i
    ∧ (c.vswitch i).vswitchId = (c.vswitchLink l).vswitchId
    ∧ (c.vswitch i).links.count (UInt16.ofNat l) = 1
    ∧ (c.vswitch i).links[(c.vswitchLink l).vswitchPort.toNat]? = some (UInt16.ofNat l)
    ∧ (c.vswitchLink l).portId.toNat < MAX_ETH_PORTS
    ∧ (c.port (c.vswitchLink l).portId.toNat).references (UInt16.ofNat l) = 1
  listed : ∀ i, c.LiveVswitch i → ∀ l ∈ (c.vswitch i).links,
    c.LiveLink l.toNat ∧ (c.vswitchLink l.toNat).vswitchId = (c.vswitch i).vswitchId
  tagged : ∀ p < MAX_ETH_PORTS, ∀ l ∈ (c.port p).vlans,
    c.LiveLink l.toNat ∧ (c.vswitchLink l.toNat).portId.toNat = p
  native : ∀ p < MAX_ETH_PORTS, (c.port p).vswitchLinkIdOfNativeVlan ≠ NATIVE_UNSET →
    c.LiveLink (c.port p).vswitchLinkIdOfNativeVlan.toNat
      ∧ (c.vswitchLink (c.port p).vswitchLinkIdOfNativeVlan.toNat).portId.toNat = p

/-- What a message has to find for the references to stay exact. -/
def CrossRefsKept (c : RibConf) : ConfMsg → Prop
  | .vswitchPortSet msg => ∀ v, vswitchLookup c msg.vswitchId = some v →
      (∃ l < MAX_VSWITCH_LINK, ¬ c.LiveLink l) →
      (c.port msg.portId.toNat).dpdkPortId = msg.portId
        ∧ (c.vswitch v).vswitchPortSize.toNat < MAX_VSWITCH_PORTS
        ∧ (if msg.isTagged = false then
            (c.port msg.portId.toNat).vswitchLinkIdOfNativeVlan = NATIVE_UNSET
          else (c.port msg.portId.toNat).vlanSize.toNat < MAX_VLAN_PER_PORT)
  | .vswitchPortNoSet msg => ∀ v l, vswitchLookup c msg.vswitchId = some v →
      vswitchLinkLookup c v msg.portId.toNat = some l →
      ((c.port (c.vswitchLink l).portId.toNat).vswitchLinkIdOfNativeVlan = UInt16.ofNat l →
          0 < (c.port (c.vswitchLink l).portId.toNat).vlanSize.toNat)
        ∧ ∀ x ∈ (c.vswitch v).links,
            l < x.toNat ↔ (c.vswitchLink l).vswitchPort < (c.vswitchLink x.toNat).vswitchPort
  | .vswitchNoSet msg => ∀ i, vswitchLookup c msg.vswitchId = some i →
      ∀ l ∈ (c.vswitch i).links,
        (c.port (c.vswitchLink l.toNat).portId.toNat).vswitchLinkIdOfNativeVlan = l →
        c.Outlived i (c.vswitchLink l.toNat).portId.toNat
  | _ => True

namespace CrossRefs

variable {c d : RibConf}

/-! ## Consequences -/

/-- The link clause, for an id as the tables have it. -/
theorem of_live (h : CrossRefs c) {l : UInt16} (hl : c.LiveLink l.toNat) :
    ∃ i, c.LiveVswitch i ∧ (c.vswitch i).vswitchId = (c.vswitchLink l.toNat).vswitchId
      ∧ l ∈ (c.vswitch i).links
      ∧ (c.vswitch i).links[(c.vswitchLink l.toNat).vswitchPort.toNat]? = some l
      ∧ (c.vswitchLink l.toNat).portId.toNat < MAX_ETH_PORTS
      ∧ (c.port (c.vswitchLink l.toNat).portId.toNat).references l = 1 := by
  obtain ⟨i, hi, hid, hcount, hpos, hport, href⟩ := h.link l.toNat hl
  rw [UInt16.ofNat_toNat] at hcount hpos href
  exact ⟨i, hi, hid, List.count_pos_iff.mp (by omega), hpos, hport, href⟩

/-- A link in use is on the list of its vswitch. -/
theorem mem_links (h : CrossRefs c) (hw : Wired c) {i : Nat} {l : UInt16} (hi : c.LiveVswitch i)
    (hl : c.LiveLink l.toNat) (hid : (c.vswitchLink l.toNat).vswitchId = (c.vswitch i).vswitchId) :
    l ∈ (c.vswitch i).links
      ∧ (c.vswitch i).links[(c.vswitchLink l.toNat).vswitchPort.toNat]? = some l := by
  obtain ⟨j, hj, hjid, hmem, hpos, -, -⟩ := h.of_live hl
  obtain rfl : j = i := hw.live_unique hj hi (hjid.trans hid)
  exact ⟨hmem, hpos⟩

theorem nodup_vlans (h : CrossRefs c) {p : Nat} (hp : p < MAX_ETH_PORTS) :
    (c.port p).vlans.Nodup := by
  rw [List.nodup_iff_count_le_one]
  intro l
  by_cases hmem : l ∈ (c.port p).vlans
  · obtain ⟨hlive, hport⟩ := h.tagged p hp l hmem
    obtain ⟨_, -, -, -, -, -, href⟩ := h.of_live hlive
    rw [hport, PortConf.references] at href
    omega
  · rw [List.count_eq_zero_of_not_mem hmem]
    exact Nat.zero_le 1

/-- A link is tagged or native, not both. -/
theorem native_ne (h : CrossRefs c) {p : Nat} (hp : p < MAX_ETH_PORTS) {l : UInt16}
    (hl : l ∈ (c.port p).vlans) : (c.port p).vswitchLinkIdOfNativeVlan ≠ l := by
  obtain ⟨hlive, hport⟩ := h.tagged p hp l hl
  obtain ⟨_, -, -, -, -, -, href⟩ := h.of_live hlive
  have hcount := List.count_pos_iff.mpr hl
  rw [hport, PortConf.references] at href
  intro hnative
  rw [if_pos hnative] at href
  omega

theorem portRefs (h : CrossRefs c) : PortRefs c := ⟨h.tagged, fun _ hp => h.nodup_vlans hp⟩

theorem headWhenDeleted (h : CrossRefs c) (i : Nat) : c.HeadWhenDeleted i := by
  intro l hl hport hnative hmem
  exact absurd hnative (h.native_ne hport hmem)

/-- A port refers to its own links only. -/
theorem references_eq_zero (h : CrossRefs c) {p : Nat} (hp : p < MAX_ETH_PORTS) {l : UInt16}
    (hl : ¬ (c.LiveLink l.toNat ∧ (c.vswitchLink l.toNat).portId.toNat = p))
    (hset : l ≠ NATIVE_UNSET) : (c.port p).references l = 0 := by
  have hvlan : l ∉ (c.port p).vlans := fun hmem => hl (h.tagged p hp l hmem)
  have hnative : (c.port p).vswitchLinkIdOfNativeVlan ≠ l := by
    intro heq
    have hlive := h.native p hp (heq ▸ hset)
    rw [heq] at hlive
    exact hl hlive
  rw [PortConf.references, List.count_eq_zero_of_not_mem hvlan, if_neg hnative]

/-! ## Messages about something else, and a new vswitch -/

theorem keep (h : CrossRefs c) (hkeeps : KeepsWiring c d) : CrossRefs d := by
  have hvswitch : ∀ i, (d.vswitch i).vswitchId = (c.vswitch i).vswitchId
      ∧ (d.vswitch i).links = (c.vswitch i).links
      ∧ (d.vswitch i).isDeleted = (c.vswitch i).isDeleted := by
    intro i
    obtain ⟨rif, cif, hd⟩ := hkeeps.vswitch i
    rw [hd]
    exact ⟨rfl, rfl, rfl⟩
  have hport : ∀ p, (d.port p).vlans = (c.port p).vlans
      ∧ (d.port p).vswitchLinkIdOfNativeVlan = (c.port p).vswitchLinkIdOfNativeVlan := by
    intro p
    obtain ⟨hsize, hvlan, hnative⟩ := hkeeps.port p
    exact ⟨by rw [PortConf.vlans, PortConf.vlans, hsize, hvlan], hnative⟩
  have hlive : ∀ i, d.LiveVswitch i ↔ c.LiveVswitch i := by
    intro i
    rw [RibConf.LiveVswitch, RibConf.LiveVswitch, hkeeps.vswitchSize, (hvswitch i).2.2]
  have hlink : ∀ l, d.LiveLink l ↔ c.LiveLink l := by
    intro l
    rw [RibConf.LiveLink, RibConf.LiveLink, hkeeps.linkSize, hkeeps.link]
  refine ⟨fun l hl => ?_, fun i hi l hl => ?_, fun p hp l hl => ?_, fun p hp hnative => ?_⟩
  · obtain ⟨i, hi, hrest⟩ := h.link l ((hlink l).mp hl)
    refine ⟨i, (hlive i).mpr hi, ?_⟩
    rw [(hvswitch i).1, (hvswitch i).2.1, hkeeps.link, PortConf.references, (hport _).1,
      (hport _).2]
    exact hrest
  · rw [(hvswitch i).2.1] at hl
    rw [hlink, hkeeps.link, (hvswitch i).1]
    exact h.listed i ((hlive i).mp hi) l hl
  · rw [(hport p).1] at hl
    rw [hlink, hkeeps.link]
    exact h.tagged p hp l hl
  · rw [(hport p).2] at hnative ⊢
    rw [hlink, hkeeps.link]
    exact h.native p hp hnative

theorem vswitchNew {vswitchId vlanId : UInt16} {i : Nat} (h : CrossRefs c) (hd : Wired d)
    (hnew : VswitchNew c vswitchId vlanId i d) : CrossRefs d := by
  have hlink : ∀ l, d.LiveLink l ↔ c.LiveLink l := by
    intro l
    rw [RibConf.LiveLink, RibConf.LiveLink, hnew.linkSize, hnew.link]
  refine ⟨fun l hl => ?_, fun j _ l hl => hd.listed j l hl, fun p hp l hl => ?_,
    fun p hp hnative => ?_⟩
  · obtain ⟨j, hj, hrest⟩ := h.link l ((hlink l).mp hl)
    have hji : j ≠ i := by
      intro heq
      rw [heq] at hj
      exact hnew.free hj
    have hsize := hnew.size
    refine ⟨j, ⟨by have hlt := hj.1; omega, ?_⟩, ?_⟩
    · rw [hnew.others j hji]
      exact hj.2
    · rw [hnew.others j hji, hnew.link, hnew.port]
      exact hrest
  · rw [hnew.port] at hl
    rw [hlink, hnew.link]
    exact h.tagged p hp l hl
  · rw [hnew.port] at hnative ⊢
    rw [hlink, hnew.link]
    exact h.native p hp hnative

/-! ## A new link -/

section NewLink

variable {msg : InternalMsgVswitchPort} {v l : Nat}

/-- What the port makes of the new link and of the others. -/
theorem references_set (p : PortConf) {x y : UInt16} :
    (msg.set p x).references y
      = (if msg.isTagged = true ∧ p.vlanSize.toNat < MAX_VLAN_PER_PORT then (p.vlans ++ [x]).count y
          else p.vlans.count y)
        + if (if msg.isTagged = true then p.vswitchLinkIdOfNativeVlan else x) = y then 1 else 0 := by
  cases htagged : msg.isTagged with
  | false =>
    simp only [InternalMsgVswitchPort.set, htagged, PortConf.references]
    rfl
  | true =>
    have hnative : (p.tagged x).vswitchLinkIdOfNativeVlan = p.vswitchLinkIdOfNativeVlan := by
      unfold PortConf.tagged
      split <;> rfl
    by_cases hroom : p.vlanSize.toNat < MAX_VLAN_PER_PORT
    · simp [InternalMsgVswitchPort.set, htagged, PortConf.references, vlans_tagged, hroom, hnative]
    · simp [InternalMsgVswitchPort.set, htagged, PortConf.references, vlans_tagged, hroom, hnative]

/-- If the references are exact afterwards, there was room for the link. -/
theorem room_of_portSet (h : CrossRefs c) (hw : Wired c) (hset : PortSet c msg v l d)
    (hd : CrossRefs d) :
    (c.port msg.portId.toNat).dpdkPortId = msg.portId
      ∧ (c.vswitch v).vswitchPortSize.toNat < MAX_VSWITCH_PORTS
      ∧ (if msg.isTagged = false then
          (c.port msg.portId.toNat).vswitchLinkIdOfNativeVlan = NATIVE_UNSET
        else (c.port msg.portId.toNat).vlanSize.toNat < MAX_VLAN_PER_PORT) := by
  have hbound := hset.bound hw.linkSize
  have htoNat := Wired.ofNat_toNat hbound
  have hfree : ¬ c.LiveLink (UInt16.ofNat l).toNat := by
    rw [htoNat]
    exact hset.free
  -- nothing referred to the link before
  have hzero : ∀ q < MAX_ETH_PORTS, (c.port q).references (UInt16.ofNat l) = 0 := fun q hq =>
    h.references_eq_zero hq (fun hl => hfree hl.1) (ne_unset hbound)
  obtain ⟨i, hi, hid, hcount, -, hport, href⟩ := hd.link l ((hset.liveLink_iff l).mpr (.inl rfl))
  rw [hset.vswitchId] at hid
  rw [hset.portId] at hport href
  have hdpdk : (c.port msg.portId.toNat).dpdkPortId.toNat = msg.portId.toNat := by
    by_contra hne
    rw [hset.port_apply, if_neg hne, hzero _ hport] at href
    exact absurd href (by simp)
  rw [hdpdk, hset.port_apply, if_pos rfl] at href
  refine ⟨UInt16.toNat_inj.mp hdpdk, ?_, ?_⟩
  · have hv := (vswitchLookup_some hset.lookup).1
    obtain rfl : i = v := (hw.live_unique ((hset.liveVswitch_iff i).mp hi) hv
      ((hset.vswitch_same i).1.symm.trans hid))
    by_contra hfull
    rw [hset.links_eq, if_neg fun hroom => hfull hroom.2] at hcount
    have hmem : UInt16.ofNat l ∈ (c.vswitch i).links := List.count_pos_iff.mp (by omega)
    exact hfree (hw.listed i _ hmem).1
  · split
    · next htagged =>
      by_contra hnative
      -- the native link that was there before has lost its port
      obtain ⟨hlive, hp⟩ := h.native _ hset.port_bound hnative
      generalize hx : (c.port msg.portId.toNat).vswitchLinkIdOfNativeVlan = x at hlive hp
      have hxl : x.toNat ≠ l := by
        intro heq
        rw [heq] at hlive
        exact hset.free hlive
      obtain ⟨_, -, -, -, -, -, hold⟩ := h.of_live hlive
      obtain ⟨_, -, -, -, -, -, hnew⟩ := hd.of_live ((hset.liveLink_iff _).mpr (.inr hlive))
      rw [hp, PortConf.references, if_pos hx] at hold
      rw [hset.others _ hxl, hp, hset.port_apply, if_pos rfl, references_set, htagged] at hnew
      have hne : UInt16.ofNat l ≠ x := fun heq => hxl (by rw [← heq, htoNat])
      simp [hne] at hnew
      omega
    · next htagged =>
      by_contra hfull
      have hold := hzero _ hset.port_bound
      rw [InternalMsgVswitchPort.set, if_neg htagged, PortConf.tagged,
        if_pos (Nat.not_lt.mp hfull), hold] at href
      exact absurd href (by simp)

/-- If there was room, the references are exact afterwards. -/
theorem portSet (h : CrossRefs c) (hw : Wired c) (hset : PortSet c msg v l d)
    (hdpdk : (c.port msg.portId.toNat).dpdkPortId = msg.portId)
    (hsize : (c.vswitch v).vswitchPortSize.toNat < MAX_VSWITCH_PORTS)
    (hroom : if msg.isTagged = false then
        (c.port msg.portId.toNat).vswitchLinkIdOfNativeVlan = NATIVE_UNSET
      else (c.port msg.portId.toNat).vlanSize.toNat < MAX_VLAN_PER_PORT) : CrossRefs d := by
  have hbound := hset.bound hw.linkSize
  have htoNat := Wired.ofNat_toNat hbound
  have hunset := ne_unset hbound
  have hlv := (vswitchLookup_some hset.lookup).1
  have hfree : ¬ c.LiveLink (UInt16.ofNat l).toNat := by
    rw [htoNat]
    exact hset.free
  have hne : ∀ {x : UInt16}, c.LiveLink x.toNat → UInt16.ofNat l ≠ x := by
    rintro x hx rfl
    exact hfree hx
  have hportId : (d.vswitchLink l).portId.toNat = msg.portId.toNat := by
    rw [hset.portId, hdpdk]
  -- a port refers to an old link as often as before
  have hsame : ∀ q < MAX_ETH_PORTS, ∀ {x : UInt16}, c.LiveLink x.toNat → x ≠ NATIVE_UNSET →
      (d.port q).references x = (c.port q).references x := by
    intro q hq x hx hxunset
    rw [hset.port_apply]
    split
    · next heq =>
      subst heq
      rw [references_set, PortConf.references]
      cases htagged : msg.isTagged with
      | false =>
        rw [htagged, if_pos rfl] at hroom
        simp [hne hx, hroom, hxunset.symm]
      | true =>
        rw [htagged, if_neg (by simp)] at hroom
        simp [hroom, List.count_append, hne hx]
    · rfl
  refine ⟨fun x hx => ?_, fun i _ x hx => (hw.portSet hset).listed i x hx, fun q hq x hx => ?_,
    fun q hq hnative => ?_⟩
  · rcases (hset.liveLink_iff x).mp hx with rfl | hx
    · -- the new link
      have hzero := h.references_eq_zero hset.port_bound (fun hl => hfree hl.1) hunset
      have hnotmem : UInt16.ofNat x ∉ (c.vswitch v).links := fun hmem =>
        hfree (hw.listed v _ hmem).1
      refine ⟨v, (hset.liveVswitch_iff v).mpr hlv, (hset.vswitch_same v).1.trans hset.vswitchId.symm,
        ?_, ?_, ?_, ?_⟩
      · rw [hset.links_eq, if_pos ⟨rfl, hsize⟩, List.count_append,
          List.count_eq_zero_of_not_mem hnotmem]
        simp
      · rw [hset.links_eq, if_pos ⟨rfl, hsize⟩, hset.vswitchPort hsize, ← Wired.length_links]
        simp
      · rw [hportId]
        exact hset.port_bound
      · rw [hportId, hset.port_apply, if_pos rfl, references_set]
        rw [PortConf.references] at hzero
        cases htagged : msg.isTagged with
        | false =>
          simp
          omega
        | true =>
          rw [htagged, if_neg (by simp)] at hroom
          simp [hroom]
          omega
    · -- the others
      have hxl : x ≠ l := by
        rintro rfl
        exact hset.free hx
      have hx32 : x < MAX_VSWITCH_LINK := hx.1.trans_le hw.linkSize
      have hxToNat := Wired.ofNat_toNat hx32
      have hxlive : c.LiveLink (UInt16.ofNat x).toNat := by
        rw [hxToNat]
        exact hx
      obtain ⟨i, hi, hid, hcount, hpos, hport, href⟩ := h.link x hx
      rw [hset.others x hxl]
      refine ⟨i, (hset.liveVswitch_iff i).mpr hi, (hset.vswitch_same i).1.trans hid, ?_, ?_, hport, ?_⟩
      · rw [hset.links_eq]
        split
        · next hiv =>
          rw [List.count_append, ← hiv.1, hcount]
          simp [hne hxlive]
        · exact hcount
      · rw [hset.links_eq]
        split
        · next hiv =>
          rw [← hiv.1, List.getElem?_append_left (List.getElem?_eq_some_iff.mp hpos).1]
          exact hpos
        · exact hpos
      · rw [hsame _ hport hxlive (ne_unset hx32)]
        exact href
  · have hold : x ∈ (c.port q).vlans → d.LiveLink x.toNat ∧ (d.vswitchLink x.toNat).portId.toNat = q := by
      intro hx
      obtain ⟨hlive, hp⟩ := h.tagged q hq x hx
      rw [hset.others _ fun heq => hset.free (heq ▸ hlive)]
      exact ⟨(hset.liveLink_iff _).mpr (.inr hlive), hp⟩
    rw [hset.port_apply] at hx
    split at hx
    · next heq =>
      unfold InternalMsgVswitchPort.set at hx
      split at hx
      · exact hold hx
      · rw [vlans_tagged] at hx
        split at hx
        · rcases List.mem_append.mp hx with hx | hx
          · exact hold hx
          · rw [List.mem_singleton.mp hx, htoNat, heq]
            exact ⟨(hset.liveLink_iff l).mpr (.inl rfl), hportId⟩
        · exact hold hx
    · exact hold hx
  · have hold : (d.port q).vswitchLinkIdOfNativeVlan = (c.port q).vswitchLinkIdOfNativeVlan →
        d.LiveLink (d.port q).vswitchLinkIdOfNativeVlan.toNat
          ∧ (d.vswitchLink (d.port q).vswitchLinkIdOfNativeVlan.toNat).portId.toNat = q := by
      intro heq
      rw [heq] at hnative ⊢
      obtain ⟨hlive, hp⟩ := h.native q hq hnative
      rw [hset.others _ fun heq => hset.free (heq ▸ hlive)]
      exact ⟨(hset.liveLink_iff _).mpr (.inr hlive), hp⟩
    by_cases hq' : q = msg.portId.toNat
    · cases htagged : msg.isTagged with
      | false =>
        have hnew : (d.port q).vswitchLinkIdOfNativeVlan = UInt16.ofNat l := by
          rw [hset.port_apply, if_pos hq', InternalMsgVswitchPort.set, if_pos htagged]
        rw [hnew, htoNat, hq']
        exact ⟨(hset.liveLink_iff l).mpr (.inl rfl), hportId⟩
      | true =>
        apply hold
        rw [hset.port_apply, if_pos hq', InternalMsgVswitchPort.set, htagged, if_neg (by simp),
          PortConf.tagged]
        split <;> rfl
    · exact hold (by rw [hset.port_apply, if_neg hq'])

end NewLink

/-! ## Deletions -/

/-- What is left has exact references, if the ports have forgotten what is gone and the other
    links of the vswitch stand where they say. -/
theorem deleting {i : Nat} {done : List UInt16} {e : RibConf} (h : CrossRefs c) (hw : Wired c)
    (hd : Deleting c i done e) (hwe : Wired e) (hi : c.LiveVswitch i) (hdone : ∀ x ∈ done, x ∈ (c.vswitch i).links)
    (hnative : ∀ q < MAX_ETH_PORTS, (c.port q).vswitchLinkIdOfNativeVlan ∈ done →
      (e.port q).vswitchLinkIdOfNativeVlan = NATIVE_UNSET)
    (hpos : ∀ x ∈ (c.vswitch i).links, x ∉ done →
      (e.vswitch i).links[(e.vswitchLink x.toNat).vswitchPort.toNat]? = some x) : CrossRefs e := by
  refine ⟨fun y hy => ?_, fun j _ x hx => hwe.listed j x hx, fun q hq x hx => ?_, fun q hq hn => ?_⟩
  · have hy32 : y < MAX_VSWITCH_LINK := hy.1.trans_le hwe.linkSize
    have hyToNat := Wired.ofNat_toNat hy32
    generalize hx : UInt16.ofNat y = x at hyToNat
    subst hyToNat
    obtain ⟨hlive, hnot⟩ := (hd.liveLink_iff x).mp hy
    obtain ⟨j, hj, hid, hmem, hposc, hport, href⟩ := h.of_live hlive
    refine ⟨j, (hd.liveVswitch_iff j).mpr hj, ?_, ?_, ?_, ?_, ?_⟩
    · rw [(hd.vswitch j).1, (hd.link _).2.1]
      exact hid
    · rw [(hd.vswitch j).2.2, List.count_filter (by simpa using hnot)]
      exact List.count_eq_one_of_mem (hw.once j) hmem
    · by_cases hji : j = i
      · subst hji
        exact hpos x hmem hnot
      · -- another vswitch has lost nothing
        have hne : (c.vswitchLink x.toNat).vswitchId ≠ (c.vswitch i).vswitchId := by
          rw [← hid]
          exact fun heq => hji (hw.live_unique hj hi heq)
        rw [hd.elsewhere _ hne, (hd.vswitch j).2.2, List.filter_eq_self.mpr]
        · exact hposc
        · intro z hz
          simp only [decide_eq_true_eq]
          exact fun hzdone => hji (hw.listed_unique hz (hdone z hzdone))
    · rw [(hd.link _).1]
      exact hport
    · rw [(hd.link _).1, PortConf.references, hd.vlans _ hport,
        List.count_filter (by simpa using hnot)]
      rw [PortConf.references] at href
      have hunset : x ≠ NATIVE_UNSET := by
        rw [← hx]
        exact ne_unset hy32
      rcases hd.native _ hport with heq | ⟨hgone, hmem⟩
      · rw [heq]
        exact href
      · have hne : (c.port (c.vswitchLink x.toNat).portId.toNat).vswitchLinkIdOfNativeVlan ≠ x :=
          fun heq => hnot (heq ▸ hmem)
        rw [if_neg hne] at href
        rw [hgone, if_neg hunset.symm]
        exact href
  · rw [hd.vlans q hq] at hx
    obtain ⟨hmem, hnot⟩ := List.mem_filter.mp hx
    obtain ⟨hlive, hport⟩ := h.tagged q hq x hmem
    rw [hd.liveLink_iff, (hd.link _).1]
    exact ⟨⟨hlive, by simpa using hnot⟩, hport⟩
  · rcases hd.native q hq with heq | ⟨hgone, -⟩
    · rw [heq] at hn ⊢
      obtain ⟨hlive, hport⟩ := h.native q hq hn
      rw [hd.liveLink_iff, (hd.link _).1]
      refine ⟨⟨hlive, fun hmem => hn ?_⟩, hport⟩
      rw [← heq]
      exact hnative q hq hmem
    · exact absurd hgone hn

/-- One link is deleted: the place of every other link of its vswitch. -/
theorem position_iff (hw : Wired c) {i : Nat} {l x : UInt16} (hd : LinkDeleted c l i d)
    (hid : (c.vswitchLink x.toNat).vswitchId = (c.vswitchLink l.toNat).vswitchId)
    (hx : x.toNat < c.vswitchLinkSize.toNat) (hne : x ≠ l)
    (hl : (c.vswitch i).links[(c.vswitchLink l.toNat).vswitchPort.toNat]? = some l)
    (hpos : (c.vswitch i).links[(c.vswitchLink x.toNat).vswitchPort.toNat]? = some x) :
    (d.vswitch i).links[(d.vswitchLink x.toNat).vswitchPort.toNat]? = some x
      ↔ (l.toNat < x.toNat ↔ (c.vswitchLink l.toNat).vswitchPort
          < (c.vswitchLink x.toNat).vswitchPort) := by
  have hnat : x.toNat ≠ l.toNat := fun heq => hne (UInt16.toNat_inj.mp heq)
  have hplace : (c.vswitchLink x.toNat).vswitchPort.toNat
      ≠ (c.vswitchLink l.toNat).vswitchPort.toNat := by
    intro heq
    rw [heq] at hpos
    exact hne (Option.some.inj (hpos.symm.trans hl))
  have hport : (d.vswitchLink x.toNat).vswitchPort
      = if l.toNat < x.toNat then (c.vswitchLink x.toNat).vswitchPort - 1
        else (c.vswitchLink x.toNat).vswitchPort := by
    rw [hd.link x.toNat]
    by_cases hlt : l.toNat < x.toNat
    · simp [hlt, hlt.le, hx, hid]
    · have hle : ¬ l.toNat ≤ x.toNat := by omega
      simp [hlt, hle]
  rw [(hw.links_deleted hd i).1, Lib.getElem?_erase_iff (hw.once i) hl hpos hne, hport,
    UInt16.lt_iff_toNat_lt]
  generalize (c.vswitchLink x.toNat).vswitchPort = n at hplace
  generalize (c.vswitchLink l.toNat).vswitchPort = m at hplace
  have hpred : (n - 1).toNat = if n.toNat = 0 then 65535 else n.toNat - 1 := by
    split
    · next hzero =>
      obtain rfl : n = 0 := UInt16.toNat_inj.mp hzero
      rfl
    · next hpos => exact toNat_pred (Nat.pos_of_ne_zero hpos)
  have hn := n.toNat_lt
  by_cases hlt : l.toNat < x.toNat
  · rw [if_pos hlt, hpred]
    simp only [hlt, true_iff]
    split <;> split <;> omega
  · rw [if_neg hlt]
    simp only [hlt, false_iff]
    split <;> omega

/-- A native field is cleared if its link goes and the port has a tagged one. -/
theorem native_deleted {i : Nat} {l : UInt16} (h : CrossRefs c) (hw : Wired c)
    (hl : c.LiveLink l.toNat) (hdel : LinkDeleted c l i d) {q : Nat} (hq : q < MAX_ETH_PORTS) :
    (d.port q).vswitchLinkIdOfNativeVlan
      = if (c.port q).vswitchLinkIdOfNativeVlan = l ∧ (c.port q).vlans ≠ [] then NATIVE_UNSET
        else (c.port q).vswitchLinkIdOfNativeVlan := by
  have hstart : Deleting c i [] c := .start (.refl c)
  rw [hstart.native_step hdel q]
  have hiff : (q = (c.vswitchLink l.toNat).portId.toNat
        ∧ (c.port q).vswitchLinkIdOfNativeVlan = l ∧ (c.port q).vlans ≠ []
        ∧ (c.port q).vlans.head? ≠ some l)
      ↔ (c.port q).vswitchLinkIdOfNativeVlan = l ∧ (c.port q).vlans ≠ [] := by
    constructor
    · exact fun hall => ⟨hall.2.1, hall.2.2.1⟩
    · intro hboth
      have hown := (h.native q hq (hboth.1 ▸ hw.live_ne_unset hl)).2
      rw [hboth.1] at hown
      exact ⟨hown.symm, hboth.1, hboth.2, fun hhead =>
        h.native_ne hq (List.mem_of_head? hhead) hboth.1⟩
  simp only [hiff]

theorem linkDeleted_iff {v l i : Nat} (h : CrossRefs c) (hw : Wired c) (hv : c.LiveVswitch v)
    (hl : c.LiveLink l) (hid : (c.vswitchLink l).vswitchId = (c.vswitch v).vswitchId)
    (hdel : LinkDeleted c (UInt16.ofNat l) i d) :
    CrossRefs d ↔ ((c.port (c.vswitchLink l).portId.toNat).vswitchLinkIdOfNativeVlan = UInt16.ofNat l →
          0 < (c.port (c.vswitchLink l).portId.toNat).vlanSize.toNat)
        ∧ ∀ x ∈ (c.vswitch v).links,
            l < x.toNat ↔ (c.vswitchLink l).vswitchPort < (c.vswitchLink x.toNat).vswitchPort := by
  have hl32 := hl.1.trans_le hw.linkSize
  have hwd := hw.linkDeleted hdel
  have htoNat := Wired.ofNat_toNat hl32
  have hunset := ne_unset hl32
  generalize UInt16.ofNat l = y at *
  subst htoNat
  obtain ⟨hmem, hpos⟩ := h.mem_links hw hv hl hid
  obtain rfl : i = v := by
    obtain ⟨hi, hiid⟩ := vswitchLookup_some hdel.lookup
    exact hw.live_unique hi hv (hiid.trans hid)
  obtain ⟨_, -, -, -, -, hport, -⟩ := h.of_live hl
  have hd : Deleting c i [y] d := Deleting.step h.portRefs hw (.start (.refl c)) hw hid hdel
    fun hnative hvlan => absurd hnative (h.native_ne hport hvlan)
  have hnative : ∀ q < MAX_ETH_PORTS, (d.port q).vswitchLinkIdOfNativeVlan
      = if (c.port q).vswitchLinkIdOfNativeVlan = y ∧ (c.port q).vlans ≠ [] then NATIVE_UNSET
        else (c.port q).vswitchLinkIdOfNativeVlan := fun q hq => h.native_deleted hw hl hdel hq
  constructor
  · intro hrefs
    refine ⟨fun hn => ?_, fun x hx => ?_⟩
    · by_contra hzero
      have hnil := Wired.vlans_eq_nil.mpr (Nat.eq_zero_of_not_pos hzero)
      have hstale := hnative _ hport
      rw [if_neg fun hboth => hboth.2 hnil, hn] at hstale
      have hlive := (hrefs.native _ hport (by rw [hstale]; exact hunset)).1
      rw [hstale, hd.liveLink_iff] at hlive
      exact hlive.2 (List.mem_singleton_self y)
    · by_cases hxy : x = y
      · rw [hxy]
        exact ⟨fun hlt => absurd hlt (Nat.lt_irrefl _), fun hlt => absurd hlt (UInt16.lt_irrefl _)⟩
      · obtain ⟨hxlive, hxid⟩ := hw.listed i x hx
        have hxpos := (h.mem_links hw hv hxlive hxid).2
        have hxlive' : d.LiveLink x.toNat := (hd.liveLink_iff x).mpr ⟨hxlive, by simpa using hxy⟩
        have hxid' : (d.vswitchLink x.toNat).vswitchId = (d.vswitch i).vswitchId := by
          rw [(hd.link _).2.1, (hd.vswitch i).1]
          exact hxid
        exact (position_iff hw hdel (hxid.trans hid.symm) hxlive.1 hxy hpos hxpos).mp
          (hrefs.mem_links hwd ((hd.liveVswitch_iff i).mpr hv) hxlive' hxid').2
  · rintro ⟨hn, horder⟩
    refine h.deleting hw hd hwd hv (by simpa using hmem) (fun q hq hgone => ?_) fun x hx hxy => ?_
    · have hgone := List.mem_singleton.mp hgone
      have hq' := (h.native q hq (by rw [hgone]; exact hunset)).2
      rw [hgone] at hq'
      rw [hq'] at hn
      have htagged : (c.port q).vlans ≠ [] := by
        intro hnil
        have hlt := hn hgone
        rw [Wired.vlans_eq_nil.mp hnil] at hlt
        exact Nat.lt_irrefl 0 hlt
      rw [hnative q hq, if_pos ⟨hgone, htagged⟩]
    · have hxy : x ≠ y := by simpa using hxy
      obtain ⟨hxlive, hxid⟩ := hw.listed i x hx
      have hxpos := (h.mem_links hw hv hxlive hxid).2
      exact (position_iff hw hdel (hxid.trans hid.symm) hxlive.1 hxy hpos hxpos).mpr (horder x hx)

theorem vswitchDeleted_iff {i fuel : Nat} {c₁ c₂ : RibConf} (h : CrossRefs c) (hw : Wired c)
    (hi : c.LiveVswitch i) (hkeeps : KeepsWiring c c₁)
    (hlinks : vswitchDeleteLinks i fuel c₁ = .ok c₂) :
    CrossRefs (c₂.setVswitch i fun v => { v with isDeleted := true })
      ↔ ∀ l ∈ (c.vswitch i).links,
        (c.port (c.vswitchLink l.toNat).portId.toNat).vswitchLinkIdOfNativeVlan = l →
        c.Outlived i (c.vswitchLink l.toNat).portId.toNat := by
  have hat := deleteLinks h.portRefs hw (h.headWhenDeleted i) hkeeps hlinks
  have hcleared : ∀ q < MAX_ETH_PORTS, (c.port q).vswitchLinkIdOfNativeVlan ∈ (c.vswitch i).links →
      ((c₂.port q).vswitchLinkIdOfNativeVlan = NATIVE_UNSET ↔ c.Outlived i q) := by
    intro q hq hgone
    refine hat.native q hq hgone ?_ fun hvlan => h.native_ne hq hvlan rfl
    exact (h.native q hq (hw.live_ne_unset (hw.listed i _ hgone).1)).2
  constructor
  · intro hrefs l hl hnative
    have hlive := (hw.listed i l hl).1
    obtain ⟨_, -, -, -, -, hport, -⟩ := h.of_live hlive
    by_contra hnot
    have hmem : (c.port (c.vswitchLink l.toNat).portId.toNat).vswitchLinkIdOfNativeVlan
        ∈ (c.vswitch i).links := by rwa [hnative]
    rw [← hcleared _ hport hmem] at hnot
    have hgone := (hrefs.native _ hport hnot).1
    rcases hat.deleting.native _ hport with heq | ⟨hunset, -⟩
    · rw [RibConf.setVswitch_port, heq, hnative] at hgone
      exact ((hat.deleting.liveLink_iff l).mp hgone).2 hl
    · exact hnot hunset
  · intro hout
    have hrefs : CrossRefs c₂ := by
      refine h.deleting hw hat.deleting hat.wired hi (fun x hx => hx) (fun q hq hgone => ?_)
        fun x hx hnot => absurd hx hnot
      rw [hcleared q hq hgone]
      have hunset := hw.live_ne_unset (hw.listed i _ hgone).1
      have hport := (h.native q hq hunset).2
      have houtlived := hout _ hgone (by rw [hport])
      rwa [hport] at houtlived
    have hempty : (c₂.vswitch i).links = [] := hat.todo_eq hw
    refine ⟨fun x hx => ?_, fun j hj l hl => ?_, hrefs.tagged, hrefs.native⟩
    · obtain ⟨j, hj, hid, hcount, hrest⟩ := hrefs.link x hx
      have hji : j ≠ i := by
        rintro rfl
        rw [hempty] at hcount
        cases hcount
      refine ⟨j, ⟨hj.1, ?_⟩, ?_⟩
      · rw [RibConf.setVswitch_vswitch, if_neg hji]
        exact hj.2
      · rw [RibConf.setVswitch_vswitch, if_neg hji]
        exact ⟨hid, hcount, hrest⟩
    · rw [RibConf.setVswitch_vswitch] at hl ⊢
      split at hl
      · next hji =>
        rw [if_pos hji]
        exact hat.wired.listed i l hl
      · next hji =>
        rw [if_neg hji]
        exact hat.wired.listed j l hl

/-- **One message keeps the references exact if and only if it finds what it needs.** -/
theorem step_iff {msg : ConfMsg} (h : CrossRefs c) (hw : Wired c) (hstep : WiringStep c msg d) :
    CrossRefs d ↔ CrossRefsKept c msg := by
  cases hstep with
  | other hmsg hkeeps =>
    refine iff_of_true (h.keep hkeeps) ?_
    cases msg with
    | vswitchNoSet _ => cases hmsg
    | vswitchPortSet _ => cases hmsg
    | vswitchPortNoSet _ => cases hmsg
    | _ => trivial
  | vswitchKept => exact iff_of_true h trivial
  | vswitchNew hfresh hnew =>
    have hwd := hw.vswitchNew (fun j hj => vswitchLookup_none hfresh hj) hnew
    exact iff_of_true (h.vswitchNew hwd hnew) trivial
  | vswitchAbsent hlookup =>
    refine iff_of_true h fun i hi => ?_
    rw [hlookup] at hi
    cases hi
  | vswitchDeleted hlookup hkeeps hlinks =>
    rw [vswitchDeleted_iff h hw (vswitchLookup_some hlookup).1 hkeeps hlinks]
    constructor
    · intro hout i' hi'
      rw [hlookup] at hi'
      obtain rfl := Option.some.inj hi'
      exact hout
    · exact fun hkept => hkept _ hlookup
  | linkKept hnone =>
    refine iff_of_true h fun v hv hfree => ?_
    obtain ⟨l, hl, hfree⟩ := hfree
    obtain ⟨hfull, hall⟩ := vswitchLinkNew_none (hnone v hv)
    exact absurd (hall l (hl.trans_le hfull)) hfree
  | linkSet hset =>
    constructor
    · intro hd v' hv' _
      rw [hset.lookup] at hv'
      obtain rfl := Option.some.inj hv'
      exact h.room_of_portSet hw hset hd
    · intro hkept
      obtain ⟨hdpdk, hsize, hroom⟩ := hkept _ hset.lookup ⟨_, hset.bound hw.linkSize, hset.free⟩
      exact h.portSet hw hset hdpdk hsize hroom
  | linkAbsent hnone =>
    refine iff_of_true h fun v l hv hl => ?_
    rw [hnone v hv] at hl
    cases hl
  | linkDeleted hlookup hlink hdel =>
    obtain ⟨hlive, hid, -⟩ := vswitchLinkLookup_some hlink
    rw [linkDeleted_iff h hw (vswitchLookup_some hlookup).1 hlive hid hdel]
    constructor
    · intro hkept v' l' hv' hl'
      rw [hlookup] at hv'
      obtain rfl := Option.some.inj hv'
      rw [hlink] at hl'
      obtain rfl := Option.some.inj hl'
      exact hkept
    · exact fun hkept => hkept _ _ hlookup hlink

end CrossRefs

/-! ## Runs -/

theorem Bare.exact_iff {c : RibConf} (h : Bare c) : CrossRefs c ↔
    ∀ p < MAX_ETH_PORTS, (c.port p).vswitchLinkIdOfNativeVlan = NATIVE_UNSET := by
  constructor
  · intro hrefs p hp
    by_contra hn
    exact (h.not_live _).2 (hrefs.native p hp hn).1
  · intro hunset
    refine ⟨fun l hl => absurd hl (h.not_live l).2, fun i hi => absurd hi (h.not_live i).1,
      fun p _ l hl => ?_, fun p hp hn => absurd (hunset p hp) hn⟩
    rw [h.vlans_nil p] at hl
    cases hl

/-- **When the references stay exact.** They are exact in every state of a run if and only if the
    ports start with the mark in their native fields, and every message finds what it needs.
    The configuration that the RIB manager starts from has no mark there. -/
theorem crossRefs_iff {s₀ : RibState} (hbare : Bare s₀.conf) (events : List (Env × ConfMsg)) :
    Lib.Throughout ConfStep s₀ (fun s => CrossRefs s.conf) events
      ↔ (∀ p < MAX_ETH_PORTS, (s₀.conf.port p).vswitchLinkIdOfNativeVlan = NATIVE_UNSET)
        ∧ Lib.Stepwise ConfStep s₀ (fun s event => CrossRefsKept s.conf event.2) events := by
  have hguard : ∀ (s : RibState) (event : Env × ConfMsg) (t : RibState), Wired s.conf →
      CrossRefs s.conf → ConfStep s event t →
      (CrossRefs t.conf ↔ CrossRefsKept s.conf event.2) := by
    intro s event t hw h hstep
    have hnext := (Peripheral.next s.conf).toKeepsWiring
    rw [CrossRefs.step_iff (h.keep hnext) (hw.keep hnext) (wiringStep_of_ok hw hstep)]
    cases event.2 <;> rfl
  have hiff : CrossRefs s₀.conf →
      (Lib.Throughout ConfStep s₀ (fun s => CrossRefs s.conf) events
        ↔ Lib.Stepwise ConfStep s₀ (fun s event => CrossRefsKept s.conf event.2) events) :=
    fun hstart => Lib.throughout_iff (fun s : RibState => Wired s.conf) hbare.wired
      (fun _ _ _ => wired_confStep) hstart hguard
  constructor
  · intro hall
    have hstart : CrossRefs s₀.conf := hall [] s₀ List.nil_prefix .nil
    exact ⟨hbare.exact_iff.mp hstart, (hiff hstart).mp hall⟩
  · rintro ⟨hunset, hsteps⟩
    exact (hiff (hbare.exact_iff.mpr hunset)).mpr hsteps

/-- A link that is found is named by a number of 16 bits. -/
theorem eq_ofNat_iff {c : RibConf} {v p l : Nat} (h : vswitchLinkLookup c v p = some l)
    (n : UInt16) : n = UInt16.ofNat l ↔ n.toNat = l := by
  have hlt := (vswitchLinkLookup_some h).1.1
  have hsize := UInt8.toNat_lt c.vswitchLinkSize
  rw [← UInt16.toNat_inj, UInt16.toNat_ofNat_of_lt' (show l < 65536 by omega)]

/-- What the deletion of a link has to find, as it is computed. -/
def portNoSetKept (c : RibConf) (msg : InternalMsgVswitchPort) : Bool :=
  (vswitchLookup c msg.vswitchId).all fun v =>
    (vswitchLinkLookup c v msg.portId.toNat).all fun l =>
      ((c.port (c.vswitchLink l).portId.toNat).vswitchLinkIdOfNativeVlan.toNat != l
        || decide (0 < (c.port (c.vswitchLink l).portId.toNat).vlanSize.toNat))
      && (c.vswitch v).links.all fun x => decide (l < x.toNat)
        == decide ((c.vswitchLink l).vswitchPort < (c.vswitchLink x.toNat).vswitchPort)

theorem portNoSetKept_iff {c : RibConf} {msg : InternalMsgVswitchPort} :
    portNoSetKept c msg = true ↔ CrossRefsKept c (.vswitchPortNoSet msg) := by
  simp only [portNoSetKept, CrossRefsKept, Option.all_eq_true, Bool.and_eq_true, Bool.or_eq_true,
    bne_iff_ne, decide_eq_true_eq, List.all_eq_true, beq_iff_eq, decide_eq_decide, ← imp_iff_not_or]
  refine forall_congr' fun v => ⟨fun h l hv hl => ?_, fun h hv l hl => ?_⟩
  · rw [eq_ofNat_iff hl]
    exact h hv l hl
  · have hkept := h l hv hl
    rwa [eq_ofNat_iff hl] at hkept

instance (c : RibConf) : ∀ msg : ConfMsg, Decidable (CrossRefsKept c msg)
  | .vswitchPortSet msg =>
    inferInstanceAs (Decidable (∀ v ∈ vswitchLookup c msg.vswitchId,
      (∃ l < MAX_VSWITCH_LINK, ¬ c.LiveLink l) →
      (c.port msg.portId.toNat).dpdkPortId = msg.portId
        ∧ (c.vswitch v).vswitchPortSize.toNat < MAX_VSWITCH_PORTS
        ∧ (if msg.isTagged = false then
            (c.port msg.portId.toNat).vswitchLinkIdOfNativeVlan = NATIVE_UNSET
          else (c.port msg.portId.toNat).vlanSize.toNat < MAX_VLAN_PER_PORT)))
  | .vswitchPortNoSet _ => decidable_of_iff _ portNoSetKept_iff
  | .vswitchNoSet msg =>
    inferInstanceAs (Decidable (∀ i ∈ vswitchLookup c msg.vswitchId,
      ∀ l ∈ (c.vswitch i).links,
        (c.port (c.vswitchLink l.toNat).portId.toNat).vswitchLinkIdOfNativeVlan = l →
        c.Outlived i (c.vswitchLink l.toNat).portId.toNat))
  | .portStatus | .qconf _ | .txrxDesc _ | .neighEntryAdd _ | .neighEntryDel _ | .vswitchSet _
  | .routerIfSet _ | .routerIfNoSet _ | .captureIfSet _ | .captureIfNoSet _ | .fdbEntryAdd _
  | .applicationSlot _ | .macAddrAdd _ | .macAddrDel _ | .ipAddrAdd _ | .ipAddrDel _
  | .srv6LocalSid _ => instDecidableTrue

/-- Port 0 gets a native link and a tagged one, port 1 two tagged ones. The native link of port 0 is
    deleted, and another one is made in its slot. -/
theorem crossRefs_iff_links : Lib.Throughout ConfStep unmarkedStart (fun s => CrossRefs s.conf)
    ([.portStatus, .vswitchSet ⟨1, 10⟩, .vswitchSet ⟨2, 20⟩, .vswitchPortSet ⟨1, 0, 0, false⟩,
      .vswitchPortSet ⟨2, 0, 0, true⟩, .vswitchPortSet ⟨1, 1, 0, true⟩,
      .vswitchPortSet ⟨2, 1, 0, true⟩, .vswitchPortNoSet ⟨1, 0, 0, false⟩,
      .vswitchPortSet ⟨1, 0, 0, true⟩].map (Env.ports 2, ·)) := by
  have hbare : Bare unmarkedStart.conf := ⟨rfl, rfl, fun _ => rfl, fun _ => rfl⟩
  refine (crossRefs_iff hbare _).mpr ⟨fun _ _ => rfl, ?_⟩
  exact stepwise_of_confRun CrossRefsKept (by decide +kernel)

/-- A native link is made on port 0 and deleted. The port still names it. -/
theorem deleted_native_kept : ¬ ∀ (events : List (Env × ConfMsg)) (s : RibState),
    Lib.Run ConfStep .init events s → CrossRefs s.conf := by
  intro hall
  have hcompute : ∀ c, (RibConf.zero.next.vswitchSet ⟨1, 10⟩).next.vswitchPortSet ⟨1, 0, 0, false⟩
      = .ok c → ∃ d, c.next.vswitchPortNoSet ⟨1, 0, 0, false⟩ = .ok d
        ∧ (d.port 0).vswitchLinkIdOfNativeVlan = 0 ∧ (d.vswitchLink 0).isDeleted = true := by
    intro c hc
    cases hc
    exact ⟨_, rfl, rfl, rfl⟩
  obtain ⟨s₁, h₁⟩ : ∃ s, ConfStep .init (.plain, .vswitchSet ⟨1, 10⟩) s := ⟨_, rfl⟩
  have hconf₁ : RibConf.zero.next.vswitchSet ⟨1, 10⟩ = s₁.conf :=
    Except.ok.inj (conf_of_handler (f := .ok _) rfl h₁).1
  rw [hconf₁] at hcompute
  obtain ⟨c, hc⟩ : ∃ c, s₁.conf.next.vswitchPortSet ⟨1, 0, 0, false⟩ = .ok c := by
    rw [← hconf₁]
    exact ⟨_, rfl⟩
  obtain ⟨s₂, h₂⟩ : ∃ s, ConfStep s₁ (.plain, .vswitchPortSet ⟨1, 0, 0, false⟩) s :=
    process_ok Env.plain_allocs (by rw [confMessage, hc]; rfl)
  obtain ⟨d, hd, hnative, hdeleted⟩ := hcompute _ (conf_of_handler rfl h₂).1
  obtain ⟨s₃, h₃⟩ : ∃ s, ConfStep s₂ (.plain, .vswitchPortNoSet ⟨1, 0, 0, false⟩) s :=
    process_ok Env.plain_allocs (by rw [confMessage, hd]; rfl)
  obtain rfl : d = s₃.conf := Except.ok.inj (hd.symm.trans (conf_of_handler rfl h₃).1)
  have hrefs := hall _ _ (((Lib.Run.nil.snoc h₁).snoc h₂).snoc h₃)
  have hlive := (hrefs.native 0 (by decide) (by rw [hnative]; decide)).1.2
  rw [hnative] at hlive
  cases hdeleted.symm.trans hlive

end SdPlane
