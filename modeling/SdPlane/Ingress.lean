import SdPlane.Frame
import SdPlane.Wired

/-!
# Where a frame belongs (`router.c`, `enhanced_repeater.c`, `vlan_switch.c`, `l2_switch.c`)

Every forwarding thread starts with the same two searches. A tagged frame belongs to the first
tagged link of the port with the tag of the frame, an untagged frame to the native link of the
port, if that is the number of a link at all (`rxLink`). From the link to its vswitch it is a
search for the id (`rxVswitch`), which three of the threads make.

Neither search looks at `is_deleted`. For the second one that makes no difference: in a wired
configuration no slot in front of a vswitch in use has its id.
-/

set_option autoImplicit false

namespace SdPlane

/-- The loop over the tagged links of a port. -/
def scanVlans (c : RibConf) (p : PortConf) (vlanId : UInt16) :
    List Nat → Except Fault (Option Nat)
  | [] => .ok none
  | i :: rest =>
    if MAX_VLAN_PER_PORT ≤ i ∨ MAX_VSWITCH_LINK ≤ (p.vswitchLinkIdOfVlan i).toNat then
      .error .outOfBounds
    else if (c.vswitchLink (p.vswitchLinkIdOfVlan i).toNat).tagId = vlanId then
      .ok (some (p.vswitchLinkIdOfVlan i).toNat)
    else scanVlans c p vlanId rest

/-- The link that a frame is received on. -/
def rxLink (c : RibConf) (rxPort : Nat) (m : Mbuf) : Except Fault (Option Nat) :=
  if MAX_ETH_PORTS ≤ rxPort then .error .outOfBounds
  else if m.etherType = RTE_ETHER_TYPE_VLAN then
    scanVlans c (c.port rxPort) m.vlanId (List.range (c.port rxPort).vlanSize.toNat)
  else if (c.port rxPort).vswitchLinkIdOfNativeVlan.toNat < c.vswitchLinkSize.toNat then
    if MAX_VSWITCH_LINK ≤ (c.port rxPort).vswitchLinkIdOfNativeVlan.toNat then
      .error .outOfBounds
    else .ok (some (c.port rxPort).vswitchLinkIdOfNativeVlan.toNat)
  else .ok none

/-- The search for the vswitch of a link. -/
def rxVswitch (c : RibConf) (vswitchId : UInt16) : Option Nat :=
  (List.range c.vswitchSize.toNat).find? fun i => decide ((c.vswitch i).vswitchId = vswitchId)

/-- The link and the vswitch that a frame is assigned to. -/
def classify (c : RibConf) (rxPort : Nat) (m : Mbuf) : Except Fault (Option (Nat × Nat)) :=
  match rxLink c rxPort m with
  | .error e => .error e
  | .ok none => .ok none
  | .ok (some rx) =>
    if c.vswitchSize.toNat > MAX_VSWITCH then .ok none
    else .ok ((rxVswitch c (c.vswitchLink rx).vswitchId).map (rx, ·))

/-- A loop over the links of a vswitch. -/
def forLinks (v : VswitchConf) (f : Nat → Nat → Except Fault (List Tx)) : Except Fault (List Tx) :=
  Lib.collect (fun i =>
    if MAX_VSWITCH_PORTS ≤ i ∨ MAX_VSWITCH_LINK ≤ (v.vswitchLinkId i).toNat then
      .error .outOfBounds
    else f i (v.vswitchLinkId i).toNat) (List.range v.vswitchPortSize.toNat)

/-! ## What they find -/

/-- Only a port of the table has frames. -/
theorem classify_port {c : RibConf} {rxPort : Nat} {m : Mbuf} {found : Option (Nat × Nat)}
    (h : classify c rxPort m = .ok found) : rxPort < MAX_ETH_PORTS := by
  by_contra hge
  rw [classify, rxLink, if_pos (Nat.not_lt.mp hge)] at h
  cases h

/-- The link, as the tables have it. -/
def RibConf.ingress (c : RibConf) (rxPort : Nat) (m : Mbuf) : Option UInt16 :=
  if m.etherType = RTE_ETHER_TYPE_VLAN then
    (c.port rxPort).vlans.find? fun l => decide ((c.vswitchLink l.toNat).tagId = m.vlanId)
  else if (c.port rxPort).vswitchLinkIdOfNativeVlan.toNat < c.vswitchLinkSize.toNat then
    some (c.port rxPort).vswitchLinkIdOfNativeVlan
  else none

theorem scanVlans_eq {c : RibConf} {p : PortConf} (vlanId : UInt16) {places : List Nat}
    (hroom : ∀ i ∈ places, i < MAX_VLAN_PER_PORT)
    (hlinks : ∀ i ∈ places, (p.vswitchLinkIdOfVlan i).toNat < MAX_VSWITCH_LINK) :
    scanVlans c p vlanId places = .ok
      (((places.map p.vswitchLinkIdOfVlan).find? fun l =>
        decide ((c.vswitchLink l.toNat).tagId = vlanId)).map UInt16.toNat) := by
  induction places with
  | nil => rfl
  | cons i rest ih =>
    have hi := hroom i List.mem_cons_self
    have hl := hlinks i List.mem_cons_self
    have hrest := ih (fun j hj => hroom j (List.mem_cons_of_mem i hj)) fun j hj =>
      hlinks j (List.mem_cons_of_mem i hj)
    by_cases htag : (c.vswitchLink (p.vswitchLinkIdOfVlan i).toNat).tagId = vlanId
    · simp [scanVlans, Nat.not_le.mpr hi, Nat.not_le.mpr hl, htag]
    · simp [scanVlans, Nat.not_le.mpr hi, Nat.not_le.mpr hl, htag, hrest]

variable {c : RibConf}

/-- In a wired configuration the search stays within its arrays. -/
theorem rxLink_eq (hw : Wired c) {rxPort : Nat} (hport : rxPort < MAX_ETH_PORTS) (m : Mbuf) :
    rxLink c rxPort m = .ok ((c.ingress rxPort m).map UInt16.toNat) := by
  rw [rxLink, if_neg (Nat.not_le.mpr hport), RibConf.ingress]
  split
  · rw [scanVlans_eq]
    · rfl
    · intro i hi
      exact (List.mem_range.mp hi).trans_le (hw.vlanRoom rxPort)
    · intro i hi
      have hmem : (c.port rxPort).vswitchLinkIdOfVlan i ∈ (c.port rxPort).vlans :=
        Lib.mem_entries.mpr ⟨i, List.mem_range.mp hi, rfl⟩
      exact (hw.vlans rxPort _ hmem).trans_le hw.linkSize
  · split
    · next hlt =>
      rw [if_neg (Nat.not_le.mpr (hlt.trans_le hw.linkSize))]
      rfl
    · rfl

/-- The search finds the vswitch in use. -/
theorem rxVswitch_eq (hw : Wired c) {i : Nat} (hi : c.LiveVswitch i) :
    rxVswitch c (c.vswitch i).vswitchId = some i := by
  rw [rxVswitch, List.find?_range_eq_some]
  refine ⟨by simp, List.mem_range.mpr hi.1, fun j hj => ?_⟩
  simpa using hw.first i j hj hi

/-- The link at a place of the list of a vswitch is in the table. -/
theorem forLinks_inBounds (hw : Wired c) {v i : Nat}
    (hi : i < (c.vswitch v).vswitchPortSize.toNat) :
    ¬ (MAX_VSWITCH_PORTS ≤ i ∨ MAX_VSWITCH_LINK ≤ ((c.vswitch v).vswitchLinkId i).toNat) := by
  have hmem : (c.vswitch v).vswitchLinkId i ∈ (c.vswitch v).links :=
    Lib.mem_entries.mpr ⟨i, hi, rfl⟩
  have hroom := hi.trans_le (hw.room v)
  have hlt := (hw.listed v _ hmem).1.1.trans_le hw.linkSize
  exact not_or.mpr ⟨Nat.not_le.mpr hroom, Nat.not_le.mpr hlt⟩

theorem forLinks_eq (hw : Wired c) (v : Nat) (f : Nat → Nat → Except Fault (List Tx)) :
    forLinks (c.vswitch v) f
      = Lib.collect (fun i => f i ((c.vswitch v).vswitchLinkId i).toNat)
        (List.range (c.vswitch v).vswitchPortSize.toNat) := by
  unfold forLinks
  apply Lib.collect_congr
  intro i hi
  rw [if_neg (forLinks_inBounds hw (List.mem_range.mp hi))]

end SdPlane
