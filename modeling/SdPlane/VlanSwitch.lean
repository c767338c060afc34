import SdPlane.Ingress
import SdPlane.Lib.Run

/-!
# The vlan switch (`vlan_switch.c`)

`vlan_switch_select` takes the id of the vswitch of a link for the number of its slot. Slots are
given out by `vswitch_new` in the order in which vswitches are made, and the ids are what the
operator chose, so the slot is in general that of another vswitch, or there is none and the frame
is dropped. The three other forwarding threads search for the id.

The comparison of the id with `vswitch_size` does keep the access within the array. What it does
not do is keep a frame in its vswitch: that depends on what the slot holds (`Misdirected`).

A copy that has no room for a tag ends the program. What the loop has put into transmit buffers
before that has left the vswitch all the same, so the model of the loop returns it along with the
fault.
-/

set_option autoImplicit false

namespace SdPlane

/-- `vlan_switch_send_link`. -/
def vlanSwitchSendLink (dpdk : Dpdk) (c : RibConf) (i : Nat) (m : Mbuf) (rxPort txPort l : Nat) :
    Except Fault (List Tx) :=
  sendLink dpdk c i (decide (rxPort = txPort)) m txPort l

/-- A loop over the links of a vswitch, with what it has sent when a round fails. -/
def forLinksUntil (v : VswitchConf) (f : Nat → Nat → Except Fault (List Tx)) :
    List Tx × Option Fault :=
  Lib.collectUntil (fun i =>
    if MAX_VSWITCH_PORTS ≤ i ∨ MAX_VSWITCH_LINK ≤ (v.vswitchLinkId i).toNat then
      .error .outOfBounds
    else f i (v.vswitchLinkId i).toNat) (List.range v.vswitchPortSize.toNat)

/-- `vlan_switch_select`: what it puts into transmit buffers, and the fault that ends it. -/
def vlanSwitchSelect (dpdk : Dpdk) (c : RibConf) (rxPort : Nat) (m : Mbuf) :
    List Tx × Option Fault :=
  match rxLink c rxPort m with
  | .error e => ([], some e)
  | .ok none => ([], none)
  | .ok (some rx) =>
    -- the id stands for the slot
    let vswitch := (c.vswitchLink rx).vswitchId.toNat
    if c.vswitchSize.toNat ≤ vswitch then ([], none)
    else if MAX_VSWITCH ≤ vswitch then ([], some .outOfBounds)
    else
      forLinksUntil (c.vswitch vswitch) fun i l =>
        if l = rx ∨ (c.vswitchLink l).portId.toNat = rxPort then .ok []
        else vlanSwitchSendLink dpdk c i m rxPort (c.vswitchLink l).portId.toNat l

/-! ## Isolation -/

/-- Whatever becomes of the loop, the frame stays in the vswitch of the link it is received on, and
    no access leaves its array. -/
def VlanSwitchIsolates (dpdk : Dpdk) (c : RibConf) (rxPort : Nat) (m : Mbuf) : Prop :=
  (vlanSwitchSelect dpdk c rxPort m).2 ≠ some .outOfBounds
    ∧ ∀ rx, rxLink c rxPort m = .ok (some rx) →
      ∀ t ∈ (vlanSwitchSelect dpdk c rxPort m).1,
        (c.vswitchLink t.link).vswitchId = (c.vswitchLink rx).vswitchId

/-- The slot with the number `k` is in use for a vswitch of another id. -/
def Misdirected (c : RibConf) (k : UInt16) : Prop :=
  k.toNat < c.vswitchSize.toNat ∧ (c.vswitch k.toNat).vswitchId ≠ k

/-- A copy of the frame can be given to the port of place `i` on the list of a vswitch. -/
def Dpdk.Reaches (dpdk : Dpdk) (c : RibConf) (v : VswitchConf) (rxPort : Nat) (m copied : Mbuf)
    (i : Nat) : Prop :=
  i < v.vswitchPortSize.toNat ∧ dpdk.copy (.link i) m = some copied
    ∧ (c.vswitchLink (v.vswitchLinkId i).toNat).portId.toNat ≠ rxPort
    ∧ dpdk.Ready c (c.vswitchLink (v.vswitchLinkId i).toNat).portId.toNat

section

variable {dpdk : Dpdk} {c : RibConf} {rxPort : Nat} {m : Mbuf}

variable (dpdk c rxPort m) in
/-- A round of the loop. -/
def vlanSwitchRound (rx i l : Nat) : Except Fault (List Tx) :=
  if l = rx ∨ (c.vswitchLink l).portId.toNat = rxPort then .ok []
  else vlanSwitchSendLink dpdk c i m rxPort (c.vswitchLink l).portId.toNat l

/-- A round sends what it reaches, unless it came from there. -/
theorem vlanSwitchRound_reaches (hids : PortIds c) {v : VswitchConf} {copied : Mbuf} {rx i : Nat}
    (hl : (v.vswitchLinkId i).toNat < c.vswitchLinkSize.toNat)
    (hrx : (v.vswitchLinkId i).toNat ≠ rx) (h : dpdk.Reaches c v rxPort m copied i) :
    vlanSwitchRound dpdk c rxPort m rx i (v.vswitchLinkId i).toNat
      = (retag dpdk (.link i) (c.vswitchLink (v.vswitchLinkId i).toNat) copied).map fun frame =>
          [⟨(v.vswitchLinkId i).toNat, (c.vswitchLink (v.vswitchLinkId i).toNat).portId.toNat,
            frame⟩] := by
  obtain ⟨-, hcopy, hother, hready⟩ := h
  rw [vlanSwitchRound, if_neg (not_or.mpr ⟨hrx, hother⟩)]
  exact sendLink_copy (hids.link _ hl) (decide_eq_false fun heq => hother heq.symm) hready hcopy

/-- It sends nothing otherwise. -/
theorem vlanSwitchRound_not_reaches (hids : PortIds c) {v : VswitchConf} {rx i : Nat}
    (hi : i < v.vswitchPortSize.toNat)
    (hl : (v.vswitchLinkId i).toNat < c.vswitchLinkSize.toNat)
    (h : ∀ copied, ¬ dpdk.Reaches c v rxPort m copied i) :
    vlanSwitchRound dpdk c rxPort m rx i (v.vswitchLinkId i).toNat = .ok [] := by
  rw [vlanSwitchRound]
  split
  · rfl
  · next hsplit =>
    refine sendLink_skip (hids.link _ hl) ?_
    rintro ⟨-, hready, hcopy⟩
    obtain ⟨copied, hcopied⟩ := Option.isSome_iff_exists.mp hcopy
    exact h copied ⟨hi, hcopied, fun heq => hsplit (.inr heq), hready⟩

/-- A round that fails has reached a port for which a header cannot be made. -/
theorem vlanSwitchRound_error (hids : PortIds c) {v : VswitchConf} {rx i : Nat} {e : Fault}
    (hi : i < v.vswitchPortSize.toNat)
    (hl : (v.vswitchLinkId i).toNat < c.vswitchLinkSize.toNat)
    (h : vlanSwitchRound dpdk c rxPort m rx i (v.vswitchLinkId i).toNat = .error e) :
    e = .assertion ∧ ∃ copied, dpdk.Reaches c v rxPort m copied i
      ∧ dpdk.NoInsert (.link i) (c.vswitchLink (v.vswitchLinkId i).toNat) copied := by
  by_cases hreaches : ∃ copied, dpdk.Reaches c v rxPort m copied i
  · obtain ⟨copied, hreaches⟩ := hreaches
    have hrx : (v.vswitchLinkId i).toNat ≠ rx := by
      intro heq
      rw [vlanSwitchRound, if_pos (.inl heq)] at h
      cases h
    rw [vlanSwitchRound_reaches hids hl hrx hreaches] at h
    cases hretag : retag dpdk (.link i) (c.vswitchLink (v.vswitchLinkId i).toNat) copied with
    | ok frame =>
      rw [hretag] at h
      cases h
    | error e' =>
      rw [hretag] at h
      obtain rfl := Except.error.inj h
      obtain ⟨hassert, hinsert⟩ := retag_error hretag
      exact ⟨hassert, copied, hreaches, hinsert⟩
  · rw [vlanSwitchRound_not_reaches hids hi hl (not_exists.mp hreaches)] at h
    cases h

/-- Where a header cannot be made, the round fails. -/
theorem vlanSwitchRound_noInsert (hids : PortIds c) {v : VswitchConf} {copied : Mbuf} {rx i : Nat}
    (hl : (v.vswitchLinkId i).toNat < c.vswitchLinkSize.toNat)
    (hrx : (v.vswitchLinkId i).toNat ≠ rx) (h : dpdk.Reaches c v rxPort m copied i)
    (hinsert : dpdk.NoInsert (.link i) (c.vswitchLink (v.vswitchLinkId i).toNat) copied) :
    vlanSwitchRound dpdk c rxPort m rx i (v.vswitchLinkId i).toNat = .error .assertion := by
  rw [vlanSwitchRound_reaches hids hl hrx h, retag_noInsert hinsert]
  rfl

/-- The two searches, and the loop. -/
theorem vlanSwitchSelect_eq (hw : Wired c) {rx : Nat} (hrx : rxLink c rxPort m = .ok (some rx)) :
    vlanSwitchSelect dpdk c rxPort m
      = if c.vswitchSize.toNat ≤ (c.vswitchLink rx).vswitchId.toNat then ([], none)
        else Lib.collectUntil (fun i => vlanSwitchRound dpdk c rxPort m rx i
            ((c.vswitch (c.vswitchLink rx).vswitchId.toNat).vswitchLinkId i).toNat)
          (List.range (c.vswitch (c.vswitchLink rx).vswitchId.toNat).vswitchPortSize.toNat) := by
  unfold vlanSwitchSelect
  rw [hrx]
  dsimp only
  split
  · rfl
  · next hlt =>
    rw [if_neg (Nat.not_le.mpr ((Nat.lt_of_not_le hlt).trans_le hw.vswitchSize))]
    apply Lib.collectUntil_congr
    intro i hi
    rw [if_neg (forLinks_inBounds hw (List.mem_range.mp hi))]
    rfl

theorem vlanSwitchSelect_safe (hw : Wired c) (hids : PortIds c) (hport : rxPort < MAX_ETH_PORTS) :
    (vlanSwitchSelect dpdk c rxPort m).2 ≠ some .outOfBounds := by
  intro hfault
  have hlink := rxLink_eq hw hport m
  cases hrx : c.ingress rxPort m with
  | none =>
    rw [hrx] at hlink
    unfold vlanSwitchSelect at hfault
    rw [hlink] at hfault
    cases hfault
  | some rx =>
    rw [hrx] at hlink
    rw [vlanSwitchSelect_eq hw hlink] at hfault
    split at hfault
    · cases hfault
    · obtain ⟨i, hi, herror⟩ := Lib.collectUntil_error hfault
      have hi := List.mem_range.mp hi
      cases (vlanSwitchRound_error hids hi (hw.listed_at hi).1 herror).1

variable (dpdk c rxPort m) in
/-- The loop over the links of vswitch `v` sends nothing: if it reaches a port at all, then the
    program ends at this one or before. -/
def SendsNothing (v : VswitchConf) : Prop :=
  ∀ i copied, dpdk.Reaches c v rxPort m copied i →
    ∃ j ≤ i, ∃ copied', dpdk.Reaches c v rxPort m copied' j
      ∧ dpdk.NoInsert (.link j) (c.vswitchLink (v.vswitchLinkId j).toNat) copied'

section Slot

variable {k rx : Nat} (hw : Wired c) (hids : PortIds c)
  (hid : (c.vswitch k).vswitchId ≠ (c.vswitchLink rx).vswitchId)

include hw hid in
/-- The receiving link is not on the list of the slot of another vswitch. -/
theorem listed_ne {i : Nat} (hi : i < (c.vswitch k).vswitchPortSize.toNat) :
    ((c.vswitch k).vswitchLinkId i).toNat ≠ rx := by
  intro heq
  have hlinkId := (hw.listed_at hi).2
  rw [heq] at hlinkId
  exact hid hlinkId.symm

include hw hids hid in
/-- A round that reaches a port, with none before it that fails, sends a frame to the vswitch of the
    slot. -/
theorem exists_misdirected {i : Nat} {copied : Mbuf}
    (hreaches : dpdk.Reaches c (c.vswitch k) rxPort m copied i)
    (hinserts : ∀ j ≤ i, ∀ copied', dpdk.Reaches c (c.vswitch k) rxPort m copied' j →
      ¬ dpdk.NoInsert (.link j) (c.vswitchLink ((c.vswitch k).vswitchLinkId j).toNat) copied') :
    ∃ t ∈ (Lib.collectUntil (fun i => vlanSwitchRound dpdk c rxPort m rx i
        ((c.vswitch k).vswitchLinkId i).toNat) (List.range (c.vswitch k).vswitchPortSize.toNat)).1,
      (c.vswitchLink t.link).vswitchId = (c.vswitch k).vswitchId := by
  have hrounds : ∀ j ≤ i, ∃ out, vlanSwitchRound dpdk c rxPort m rx j
      ((c.vswitch k).vswitchLinkId j).toNat = .ok out := by
    intro j hj
    have hlt := hj.trans_lt hreaches.1
    cases hround : vlanSwitchRound dpdk c rxPort m rx j ((c.vswitch k).vswitchLinkId j).toNat with
    | ok out => exact ⟨out, rfl⟩
    | error e =>
      obtain ⟨-, copied', hreaches', hinsert⟩ :=
        vlanSwitchRound_error hids hlt (hw.listed_at hlt).1 hround
      exact absurd hinsert (hinserts j hj copied' hreaches')
  obtain ⟨hlink, hlinkId⟩ := hw.listed_at hreaches.1
  obtain ⟨out, hout⟩ := hrounds i le_rfl
  have hround := hout
  rw [vlanSwitchRound_reaches hids hlink (listed_ne hw hid hreaches.1) hreaches] at hround
  cases hretag : retag dpdk (.link i) (c.vswitchLink ((c.vswitch k).vswitchLinkId i).toNat)
      copied with
  | error e =>
    rw [hretag] at hround
    cases hround
  | ok frame =>
    rw [hretag] at hround
    obtain rfl := Except.ok.inj hround
    exact ⟨_, Lib.mem_collectUntil_range.mpr ⟨i, hreaches.1, _, hout, List.mem_singleton_self _,
      fun j hj => hrounds j hj.le⟩, hlinkId⟩

include hw hids hid in
/-- Where nothing can be sent, nothing is. -/
theorem SendsNothing.not_mem (h : SendsNothing dpdk c rxPort m (c.vswitch k)) (t : Tx) :
    t ∉ (Lib.collectUntil (fun i => vlanSwitchRound dpdk c rxPort m rx i
      ((c.vswitch k).vswitchLinkId i).toNat)
        (List.range (c.vswitch k).vswitchPortSize.toNat)).1 := by
  intro ht
  obtain ⟨i, hi, out, hout, hmem, hbefore⟩ := Lib.mem_collectUntil_range.mp ht
  by_cases hreach : ∃ copied, dpdk.Reaches c (c.vswitch k) rxPort m copied i
  · obtain ⟨copied, hreaches⟩ := hreach
    obtain ⟨j, hj, copied', hreaches', hinsert⟩ := h i copied hreaches
    have hfails := vlanSwitchRound_noInsert hids (hw.listed_at hreaches'.1).1
      (listed_ne hw hid hreaches'.1) hreaches' hinsert
    -- but the rounds up to `i` have not failed
    obtain ⟨out', hout'⟩ : ∃ out', vlanSwitchRound dpdk c rxPort m rx j
        ((c.vswitch k).vswitchLinkId j).toNat = .ok out' := by
      rcases hj.lt_or_eq with hlt | rfl
      · exact hbefore j hlt
      · exact ⟨out, hout⟩
    cases hfails.symm.trans hout'
  · rw [vlanSwitchRound_not_reaches hids hi (hw.listed_at hi).1 (not_exists.mp hreach)] at hout
    obtain rfl := Except.ok.inj hout
    cases hmem

end Slot

/-- A slot of another vswitch: what is sent leaves the vswitch, so there must be nothing. -/
theorem misdirected_iff (hw : Wired c) (hids : PortIds c) {rx : Nat}
    (hrx : rxLink c rxPort m = .ok (some rx))
    (hslot : Misdirected c (c.vswitchLink rx).vswitchId) :
    (∀ t ∈ (vlanSwitchSelect dpdk c rxPort m).1,
        (c.vswitchLink t.link).vswitchId = (c.vswitchLink rx).vswitchId)
      ↔ SendsNothing dpdk c rxPort m (c.vswitch (c.vswitchLink rx).vswitchId.toNat) := by
  obtain ⟨hsize, hid⟩ := hslot
  rw [vlanSwitchSelect_eq hw hrx, if_neg (Nat.not_le.mpr hsize)]
  constructor
  · intro hstays
    by_contra hsends
    simp only [SendsNothing] at hsends
    push Not at hsends
    obtain ⟨i, copied, hreaches, hinserts⟩ := hsends
    obtain ⟨t, ht, hlinkId⟩ := exists_misdirected hw hids hid hreaches hinserts
    exact hid (hlinkId.symm.trans (hstays t ht))
  · intro hnothing t ht
    exact absurd ht (hnothing.not_mem hw hids hid t)

/-- In its own slot a frame stays in its vswitch. -/
theorem stays_of_not_misdirected (hw : Wired c) {rx : Nat}
    (hrx : rxLink c rxPort m = .ok (some rx))
    (hslot : ¬ Misdirected c (c.vswitchLink rx).vswitchId) {t : Tx}
    (ht : t ∈ (vlanSwitchSelect dpdk c rxPort m).1) :
    (c.vswitchLink t.link).vswitchId = (c.vswitchLink rx).vswitchId := by
  rw [vlanSwitchSelect_eq hw hrx] at ht
  split at ht
  · cases ht
  · next hsize =>
    have hid := not_not.mp fun hne => hslot ⟨Nat.lt_of_not_le hsize, hne⟩
    obtain ⟨i, hi, out, hout, hmem, -⟩ := Lib.mem_collectUntil_range.mp ht
    have hlink := (hw.listed_at hi).2
    unfold vlanSwitchRound at hout
    split at hout
    · obtain rfl := Except.ok.inj hout
      cases hmem
    · rw [(mem_sendLink hout hmem).1, hlink, hid]

end

/-- **When the vlan switch isolates.** In every configuration that messages lead to, a frame stays
    in its vswitch if and only if the id of the vswitch is no slot, or is the slot of that vswitch,
    or nothing can be sent from the slot: no port of the vswitch there can be given a copy, or the
    first copy has no room for a tag, and the program ends. -/
theorem vlanSwitch_isolates_iff {events : List (Env × ConfMsg)} {s : RibState}
    (hrun : Lib.Run ConfStep .init events s) (dpdk : Dpdk) {rxPort : Nat}
    (hport : rxPort < MAX_ETH_PORTS) (m : Mbuf) :
    VlanSwitchIsolates dpdk s.conf rxPort m ↔
      ∀ rx, rxLink s.conf rxPort m = .ok (some rx) →
        Misdirected s.conf (s.conf.vswitchLink rx).vswitchId →
        SendsNothing dpdk s.conf rxPort m
          (s.conf.vswitch (s.conf.vswitchLink rx).vswitchId.toNat) := by
  obtain ⟨hw, hids⟩ : Wired s.conf ∧ PortIds s.conf :=
    hrun.invariant (fun s => Wired s.conf ∧ PortIds s.conf) ⟨.zero, .zero⟩
      fun _ _ _ h hstep => ⟨wired_confStep h.1 hstep, portIds_confStep h.1 h.2 hstep⟩
  constructor
  · intro hisolates rx hrx hslot
    exact (misdirected_iff hw hids hrx hslot).mp (hisolates.2 rx hrx)
  · intro hcond
    refine ⟨vlanSwitchSelect_safe hw hids hport, fun rx hrx t ht => ?_⟩
    by_cases hslot : Misdirected s.conf (s.conf.vswitchLink rx).vswitchId
    · exact (misdirected_iff hw hids hrx hslot).mpr (hcond rx hrx hslot) t ht
    · exact stays_of_not_misdirected hw hrx hslot ht

/-- A frame of vlan 10. -/
def vlan10 : Mbuf := .ofList [2, 0, 0, 0, 0, 2, 2, 0, 0, 0, 0, 1, 0x81, 0, 0, 10, 0x08, 0]

/-- Vswitch 1 has been made after another one and is in slot 1: the frame goes to its other link. -/
theorem vlanSwitch_isolates_own_slot : ∃ events s, Lib.Run ConfStep .init events s
    ∧ rxLink s.conf 0 vlan10 = .ok (some 0)
    ∧ (vlanSwitchSelect (.plain 2) s.conf 0 vlan10).1.map Tx.link = [1]
    ∧ VlanSwitchIsolates (.plain 2) s.conf 0 vlan10 := by
  obtain ⟨s, hrun, hfacts⟩ := exists_run (Env.ports_allocs 2)
    (show (confRun (.ports 2) [.portStatus, .vswitchSet ⟨2, 20⟩, .vswitchSet ⟨1, 10⟩,
        .vswitchPortSet ⟨1, 0, 0, true⟩, .vswitchPortSet ⟨1, 1, 0, true⟩] .zero).map
          (fun c => (rxLink c 0 vlan10, (vlanSwitchSelect (.plain 2) c 0 vlan10).1.map Tx.link,
            (c.vswitchLink 0).vswitchId, (c.vswitch 1).vswitchId))
        = some (.ok (some 0), [1], 1, 1) by decide +kernel)
  obtain ⟨hrx, hrest⟩ := Prod.mk.inj hfacts
  obtain ⟨hsent, hids⟩ := Prod.mk.inj hrest
  obtain ⟨hid, hslotId⟩ := Prod.mk.inj hids
  refine ⟨_, s, hrun, hrx, hsent,
    (vlanSwitch_isolates_iff hrun (.plain 2) (by decide) vlan10).mpr ?_⟩
  intro rx hrx' hslot
  obtain rfl := Option.some.inj (Except.ok.inj (hrx.symm.trans hrx'))
  have hother := hslot.2
  rw [hid] at hother
  exact absurd hslotId hother

/-- Vswitch 1 is in slot 0 and vswitch 2 in slot 1, with a link each. A frame of vswitch 1 is sent
    on the link of vswitch 2. -/
theorem vlanSwitch_leaks : ¬ ∀ (events : List (Env × ConfMsg)) (s : RibState) (dpdk : Dpdk)
    (rxPort : Nat) (m : Mbuf), Lib.Run ConfStep .init events s → rxPort < MAX_ETH_PORTS →
      VlanSwitchIsolates dpdk s.conf rxPort m := by
  intro hall
  obtain ⟨s, hrun, hfacts⟩ := exists_run (Env.ports_allocs 2)
    (show (confRun (.ports 2) [.portStatus, .vswitchSet ⟨1, 10⟩, .vswitchSet ⟨2, 20⟩,
        .vswitchPortSet ⟨1, 0, 0, true⟩, .vswitchPortSet ⟨2, 1, 0, true⟩] .zero).map
          (fun c => (rxLink c 0 vlan10,
            (vlanSwitchSelect (.plain 2) c 0 vlan10).1.map Tx.link,
            (c.vswitchLink 0).vswitchId, (c.vswitchLink 1).vswitchId))
        = some (.ok (some 0), [1], 1, 2) by decide +kernel)
  obtain ⟨hrx, hrest⟩ := Prod.mk.inj hfacts
  obtain ⟨hlinks, hids⟩ := Prod.mk.inj hrest
  obtain ⟨hid, hid'⟩ := Prod.mk.inj hids
  obtain ⟨t, ht, hlink⟩ := List.mem_map.mp (hlinks ▸ List.mem_singleton_self 1)
  have hsame := (hall _ s (.plain 2) 0 vlan10 hrun (by decide)).2 0 hrx t ht
  rw [hlink, hid, hid'] at hsame
  cases hsame

end SdPlane
