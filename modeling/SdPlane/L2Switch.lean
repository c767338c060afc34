import SdPlane.FdbLearn
import SdPlane.Switching

/-!
# Learned unicast (`l2_switch.c`, `net_subr.h`)

Three threads make a key for the forwarding database out of a frame. `l3_tap_handler` learns under
the vlan of the vswitch, and the router looks up under it. `l2_switch` looks up under the tag of
the link that the frame came in on. For a native link that is `0`, and a link may have another tag
than the vlan of its vswitch: then the entry is not found, and the frame is flooded.

The router has the key right and does other things. It does not look whether the port is stopped,
it floods if the vswitch has lost its link on the port, and of the links that lead back to the
port that the frame came from it passes over one only.
-/

set_option autoImplicit false

namespace SdPlane

/-- `l2_switch_send_link`. -/
def l2SwitchSendLink (dpdk : Dpdk) (c : RibConf) (i : Nat) (m : Mbuf) (rxPort txPort l : Nat) :
    Except Fault (List Tx) :=
  sendLink dpdk c i (decide (rxPort = txPort)) m txPort l

/-- A round of the two loops that flood. Only the one for groups looks at stopped ports. -/
def l2SwitchFloodRound (dpdk : Dpdk) (c : RibConf) (group : Bool) (rxPort rx : Nat) (m : Mbuf)
    (i l : Nat) : Except Fault (List Tx) :=
  if l = rx ∨ (c.vswitchLink l).portId.toNat = rxPort then .ok []
  else if group = true ∧ MAX_ETH_PORTS ≤ (c.vswitchLink l).portId.toNat then .error .outOfBounds
  else if group = true ∧ (c.port (c.vswitchLink l).portId.toNat).isStopped = true then .ok []
  else l2SwitchSendLink dpdk c i m rxPort (c.vswitchLink l).portId.toNat l

/-- The loop for a known port. -/
def l2SwitchKnown (dpdk : Dpdk) (c : RibConf) (rxPort rx : Nat) (m : Mbuf) (dstPort : Nat)
    (v : VswitchConf) : List Nat → Except Fault (List Tx)
  | [] => .ok []
  | i :: rest =>
    if MAX_VSWITCH_PORTS ≤ i ∨ MAX_VSWITCH_LINK ≤ (v.vswitchLinkId i).toNat then
      .error .outOfBounds
    else if MAX_ETH_PORTS ≤ dstPort then .error .outOfBounds
    else if (c.port dstPort).isStopped = true then
      l2SwitchKnown dpdk c rxPort rx m dstPort v rest
    else if (c.vswitchLink (v.vswitchLinkId i).toNat).portId.toNat = dstPort
        ∧ (v.vswitchLinkId i).toNat ≠ rx then
      l2SwitchSendLink dpdk c i m rxPort dstPort (v.vswitchLinkId i).toNat
    else l2SwitchKnown dpdk c rxPort rx m dstPort v rest

/-- What happens on the ports. -/
def l2SwitchPorts (dpdk : Dpdk) (c : RibConf) (rxPort rx : Nat) (v : VswitchConf) (m : Mbuf) :
    Except Fault Switched :=
  if m.isMulticast = true ∨ m.isBroadcast = true then
    (forLinks v (l2SwitchFloodRound dpdk c true rxPort rx m)).map fun sent => ⟨none, true, sent⟩
  else
    let tagId := (c.vswitchLink rx).tagId
    let dstPort := fdbLookupEntry c.fdb m.dstAddr tagId
    if dstPort ≥ 0 then
      (l2SwitchKnown dpdk c rxPort rx m dstPort.toNat v
        (List.range v.vswitchPortSize.toNat)).map fun sent => ⟨some (m.dstAddr, tagId), false, sent⟩
    else
      (forLinks v (l2SwitchFloodRound dpdk c false rxPort rx m)).map fun sent =>
        ⟨some (m.dstAddr, tagId), true, sent⟩

structure L2Out extends Switched where
  routerIf : Option Mbuf
  captureIf : Option Mbuf

/-- `l2_switch_select`. -/
def l2SwitchSelect (dpdk : Dpdk) (c : RibConf) (rxPort : Nat) (m : Mbuf) :
    Except Fault (Option L2Out) :=
  match rxLink c rxPort m with
  | .error e => .error e
  | .ok none => .ok none
  | .ok (some rx) =>
    if c.vswitchSize.toNat > MAX_VSWITCH then .ok none
    else
      match rxVswitch c (c.vswitchLink rx).vswitchId with
      | none => .error .nullPointer
      | some v =>
        (l2SwitchPorts dpdk c rxPort rx (c.vswitch v) m).map fun switched =>
          let rif := (c.vswitch v).routerIf
          let cif := (c.vswitch v).captureIf
          -- a copy that cannot be made is `NULL`, and who takes it from the ring passes over it
          some ⟨switched,
            if rif.sockfd ≥ 0 ∧ rif.ringUp ≠ 0 then sendRing dpdk (.routerIf false) m else none,
            if cif.sockfd ≥ 0 ∧ cif.ringUp ≠ 0 then sendRing dpdk .captureIf m else none⟩

/-! ## The property -/

/-- A frame that comes in on a link of vswitch `v`, on port `r`. -/
structure Received (c : RibConf) (r : Nat) (m : Mbuf) (rx v : Nat) : Prop where
  link : classify c r m = .ok (some (rx, v))
  port : (c.vswitchLink rx).portId.toNat = r
  vswitch : c.LiveVswitch v

/-- The destination was learned on vswitch `v`, at port `p`. -/
structure LearnedAt (c : RibConf) (m : Mbuf) (v p : Nat) : Prop where
  entry : fdbLookupEntry c.fdb m.dstAddr (c.vswitch v).vlanId = (p : Int)
  port : p < MAX_ETH_PORTS

/-- What `l3_tap_handler` sends about a host of a vswitch, it sends under this key. -/
def LearnedUnder (vswitch : VswitchConf) (mac : EtherAddr) (key : EtherAddr × UInt16) : Prop :=
  ∀ info port msg, l3TapHandlerLearn info vswitch ⟨mac, port⟩ = some msg →
    msg = .fdbEntryAdd ⟨key.1, key.2, port⟩

/-- The frame is sent on the link of vswitch `v` on port `p`; nowhere if it came from there, or if
    the port is stopped or down. -/
def deliver (dpdk : Dpdk) (c : RibConf) (r v p : Nat) (m : Mbuf) : Except Fault (List Tx) :=
  match c.linkOn v p with
  | none => .ok []
  | some i =>
    if p = r ∨ (c.port p).isStopped = true then .ok []
    else sendLink dpdk c i false m p ((c.vswitch v).vswitchLinkId i).toNat

/-- Both threads look up under the key that is learned under, deliver, and do not flood. -/
def ForwardsLearned (dpdk : Dpdk) (c : RibConf) (r : Nat) (m : Mbuf) (rx v p : Nat) : Prop :=
  ∃ key sent, LearnedUnder (c.vswitch v) m.dstAddr key ∧ deliver dpdk c r v p m = .ok sent
    ∧ (∃ out, l2SwitchSelect dpdk c r m = .ok (some out)
      ∧ out.toSwitched = ⟨some key, false, sent⟩)
    ∧ ∃ out, switching dpdk c r (some rx) (c.vswitch v) m = .ok out
      ∧ out.toSwitched = ⟨some key, false, sent⟩

/-! ## What the threads do -/

variable {dpdk : Dpdk} {c : RibConf} {m : Mbuf} {r rx v p : Nat}

/-- Nothing is found in an empty database. -/
theorem fdbLookup_zero (mac : EtherAddr) (vlanId : UInt16) :
    fdbLookupEntry (fun _ => .zero) mac vlanId = -1 := by
  unfold fdbLookupEntry
  split
  · next o hfind =>
    have hactive := List.find?_some hfind
    simp [FdbEntry.zero, FDB_STATE_ACTIVE] at hactive
  · rfl

theorem learnedUnder_iff {vswitch : VswitchConf} {mac : EtherAddr} {key : EtherAddr × UInt16} :
    LearnedUnder vswitch mac key ↔ key = (mac, vswitch.vlanId) := by
  constructor
  · intro h
    have hmiss := fdbLookup_zero mac vswitch.vlanId
    have hsent := h ⟨.zero, .zero, fun _ => none⟩ 0 (sendFdbEntryAddMsg ⟨mac, 0⟩ vswitch.vlanId)
      (by
        rw [l3TapHandlerLearn, if_pos]
        exact decide_eq_true (show fdbLookupEntry (fun _ => .zero) mac vswitch.vlanId < 0 by omega))
    simp only [sendFdbEntryAddMsg, ConfMsg.fdbEntryAdd.injEq, InternalMsgFdbEntry.mk.injEq] at hsent
    exact Prod.ext hsent.1.symm hsent.2.1.symm
  · rintro rfl info port msg hmsg
    unfold l3TapHandlerLearn at hmsg
    split at hmsg
    · exact (Option.some.inj hmsg).symm
    · cases hmsg

/-- The loop for a known port sends to the first link on it. -/
theorem l2SwitchKnown_of (hp : p < MAX_ETH_PORTS) {vswitch : VswitchConf} {places : List Nat}
    (hroom : ∀ i ∈ places,
      i < MAX_VSWITCH_PORTS ∧ (vswitch.vswitchLinkId i).toNat < MAX_VSWITCH_LINK) :
    l2SwitchKnown dpdk c r rx m p vswitch places =
      if (c.port p).isStopped = true then .ok []
      else match places.find? fun i =>
          decide ((c.vswitchLink (vswitch.vswitchLinkId i).toNat).portId.toNat = p
            ∧ (vswitch.vswitchLinkId i).toNat ≠ rx) with
        | none => .ok []
        | some i => l2SwitchSendLink dpdk c i m r p (vswitch.vswitchLinkId i).toNat := by
  induction places with
  | nil => simp [l2SwitchKnown]
  | cons i rest ih =>
    obtain ⟨hi, hl⟩ := hroom i List.mem_cons_self
    rw [l2SwitchKnown, if_neg (not_or.mpr ⟨Nat.not_le.mpr hi, Nat.not_le.mpr hl⟩),
      if_neg (Nat.not_le.mpr hp), ih fun j hj => hroom j (List.mem_cons_of_mem i hj)]
    by_cases hstopped : (c.port p).isStopped = true
    · simp [hstopped]
    · rw [if_neg hstopped, if_neg hstopped, if_neg hstopped]
      by_cases hlink : (c.vswitchLink (vswitch.vswitchLinkId i).toNat).portId.toNat = p
          ∧ (vswitch.vswitchLinkId i).toNat ≠ rx
      · rw [if_pos hlink, List.find?_cons]
        simp [hlink]
      · rw [if_neg hlink, List.find?_cons]
        simp [hlink]

/-- A frame for a host that is known delivers. -/
theorem l2SwitchKnown_eq (hw : Wired c) (hrx : Received c r m rx v) (hp : p < MAX_ETH_PORTS) :
    l2SwitchKnown dpdk c r rx m p (c.vswitch v)
        (List.range (c.vswitch v).vswitchPortSize.toNat) = deliver dpdk c r v p m := by
  have hroom : ∀ i ∈ List.range (c.vswitch v).vswitchPortSize.toNat,
      i < MAX_VSWITCH_PORTS ∧ ((c.vswitch v).vswitchLinkId i).toNat < MAX_VSWITCH_LINK := by
    intro i hi
    have hi := List.mem_range.mp hi
    exact ⟨hi.trans_le (hw.room v), (hw.listed_at hi).1.trans_le hw.linkSize⟩
  rw [l2SwitchKnown_of hp hroom, deliver]
  by_cases hback : p = r
  · -- nothing is sent back
    subst hback
    have hsend : ∀ i l, l2SwitchSendLink dpdk c i m p p l = .ok [] := by
      intro i l
      exact sendLink_skip hp fun hall => nomatch (decide_eq_true (Eq.refl p)).symm.trans hall.1
    have hnone : (match c.linkOn v p with
        | none => (.ok [] : Except Fault (List Tx))
        | some _ => .ok []) = .ok [] := by
      cases c.linkOn v p <;> rfl
    simp only [hsend, true_or, if_true, hnone]
    split
    · rfl
    · split <;> rfl
  · -- the link that the frame came in on is not on the port
    have hsearch : ((List.range (c.vswitch v).vswitchPortSize.toNat).find? fun i =>
        decide ((c.vswitchLink ((c.vswitch v).vswitchLinkId i).toNat).portId.toNat = p
          ∧ ((c.vswitch v).vswitchLinkId i).toNat ≠ rx)) = c.linkOn v p := by
      unfold RibConf.linkOn
      congr 1
      funext i
      rw [decide_eq_decide, and_iff_left_iff_imp]
      intro hport heq
      rw [heq, hrx.port] at hport
      exact hback hport.symm
    rw [hsearch]
    cases c.linkOn v p with
    | none => simp
    | some i =>
      by_cases hstopped : (c.port p).isStopped = true
      · simp [hstopped]
      · simp only [hstopped, hback, false_or, l2SwitchSendLink]
        rw [decide_eq_false (Ne.symm hback)]

/-! ## When learned unicast is forwarded -/

/-- Sending on a link does not fail, and sends unless the port is not ready. -/
theorem sendLink_ok (hinsert : dpdk.Inserts) (hp : p < MAX_ETH_PORTS) (i l : Nat) :
    ∃ sent, sendLink dpdk c i false m p l = .ok sent
      ∧ (sent = [] ↔ ¬ (dpdk.Ready c p ∧ (dpdk.copy (.link i) m).isSome)) := by
  by_cases hready : dpdk.Ready c p ∧ (dpdk.copy (.link i) m).isSome
  · obtain ⟨copied, hcopied⟩ := Option.isSome_iff_exists.mp hready.2
    have hsend := sendLink_copy (l := l) hp rfl hready.1 hcopied
    cases hretag : retag dpdk (.link i) (c.vswitchLink l) copied with
    | error e => exact absurd (hinsert _ _) (retag_error hretag).2.2.2
    | ok frame =>
      rw [hretag] at hsend
      exact ⟨_, hsend, by simp [hready]⟩
  · exact ⟨[], sendLink_skip hp fun hall => hready hall.2, by simp [hready]⟩

/-- The frame is classified as `Received` says, and looked up under the tag of the link. -/
theorem l2SwitchSelect_eq (hw : Wired c) (hrx : Received c r m rx v) :
    l2SwitchSelect dpdk c r m = (l2SwitchPorts dpdk c r rx (c.vswitch v) m).map fun switched =>
      some ⟨switched,
        if (c.vswitch v).routerIf.sockfd ≥ 0 ∧ (c.vswitch v).routerIf.ringUp ≠ 0 then
          sendRing dpdk (.routerIf false) m else none,
        if (c.vswitch v).captureIf.sockfd ≥ 0 ∧ (c.vswitch v).captureIf.ringUp ≠ 0 then
          sendRing dpdk .captureIf m else none⟩ := by
  have hclassify := hrx.link
  unfold classify at hclassify
  cases hlink : rxLink c r m with
  | error e =>
    rw [hlink] at hclassify
    cases hclassify
  | ok found =>
    rw [hlink] at hclassify
    cases found with
    | none => cases hclassify
    | some rx' =>
      dsimp only at hclassify
      rw [if_neg (Nat.not_lt.mpr hw.vswitchSize)] at hclassify
      obtain ⟨v', hv', hpair⟩ := Option.map_eq_some_iff.mp (Except.ok.inj hclassify)
      obtain ⟨rfl, rfl⟩ := Prod.mk.inj hpair
      simp only [l2SwitchSelect, hlink, if_neg (Nat.not_lt.mpr hw.vswitchSize), hv']

/-- What `l2_switch` looks up. -/
theorem l2SwitchPorts_lookup (hunicast : m.isMulticast = false) {vswitch : VswitchConf}
    {out : Switched} (h : l2SwitchPorts dpdk c r rx vswitch m = .ok out) :
    out.lookup = some (m.dstAddr, (c.vswitchLink rx).tagId) := by
  rw [l2SwitchPorts, if_neg (Mbuf.not_group hunicast)] at h
  dsimp only at h
  split at h
  · obtain ⟨sent, -, hout⟩ := map_ok h
    rw [← hout]
  · obtain ⟨sent, -, hout⟩ := map_ok h
    rw [← hout]

/-- Where the key is right, `l2_switch` delivers. -/
theorem l2SwitchPorts_learned (hw : Wired c) (hrx : Received c r m rx v)
    (hunicast : m.isMulticast = false) (hlearned : LearnedAt c m v p)
    (htag : (c.vswitchLink rx).tagId = (c.vswitch v).vlanId) :
    l2SwitchPorts dpdk c r rx (c.vswitch v) m = (deliver dpdk c r v p m).map fun sent =>
      ⟨some (m.dstAddr, (c.vswitch v).vlanId), false, sent⟩ := by
  have hpos : (p : Int) ≥ 0 := Int.natCast_nonneg p
  rw [l2SwitchPorts, if_neg (Mbuf.not_group hunicast)]
  simp only [htag, hlearned.entry, if_pos hpos, Int.toNat_natCast,
    l2SwitchKnown_eq hw hrx hlearned.port]

/-- The router delivers if it finds a link, and what it does not look at makes no difference. -/
def RouterDelivers (dpdk : Dpdk) (c : RibConf) (r rx v p : Nat) (m : Mbuf) : Prop :=
  ∃ i, c.linkOn v p = some i
    ∧ (p ≠ r ∧ (c.port p).isStopped = false
      ∨ ((c.vswitch v).vswitchLinkId i).toNat = rx
      ∨ ¬ (dpdk.Ready c p ∧ (dpdk.copy (.link i) m).isSome))

theorem ForwardsLearned.tag_eq (h : ForwardsLearned dpdk c r m rx v p) (hw : Wired c)
    (hrx : Received c r m rx v) (hunicast : m.isMulticast = false) :
    (c.vswitchLink rx).tagId = (c.vswitch v).vlanId := by
  obtain ⟨key, sent, hkey, -, ⟨out, hout, hswitched⟩, -⟩ := h
  obtain rfl := learnedUnder_iff.mp hkey
  rw [l2SwitchSelect_eq hw hrx] at hout
  obtain ⟨switched, hports, hsome⟩ := map_ok hout
  have hlookup := l2SwitchPorts_lookup hunicast hports
  rw [← Option.some.inj hsome] at hswitched
  obtain rfl : switched = _ := hswitched
  exact (Prod.mk.inj (Option.some.inj hlookup)).2.symm

/-- **When learned unicast is forwarded where it was learned.** In every configuration that messages
    lead to, both threads do it if and only if the link has the vlan of its vswitch for a tag, and
    the vswitch has a link on the port which, unless it is another one and the port not stopped,
    is the one that the frame came in on, or not ready. -/
theorem forwardsLearned_iff {events : List (Env × ConfMsg)} {s : RibState}
    (hrun : Lib.Run ConfStep .init events s) (hinsert : dpdk.Inserts)
    (hrx : Received s.conf r m rx v) (hunicast : m.isMulticast = false)
    (hlearned : LearnedAt s.conf m v p) :
    ForwardsLearned dpdk s.conf r m rx v p ↔
      (s.conf.vswitchLink rx).tagId = (s.conf.vswitch v).vlanId
        ∧ RouterDelivers dpdk s.conf r rx v p m := by
  have hw : Wired s.conf :=
    hrun.invariant (fun s => Wired s.conf) .zero fun _ _ _ => wired_confStep
  have hswitch := @switching_learned dpdk _ m hw r v p (some rx) hrx.vswitch hunicast hlearned.entry
  constructor
  · intro hforwards
    refine ⟨hforwards.tag_eq hw hrx hunicast, ?_⟩
    · obtain ⟨key, sent, hkey, hdeliver, -, out, hout, houtput⟩ := hforwards
      obtain rfl := learnedUnder_iff.mp hkey
      rw [hswitch] at hout
      cases hlink : s.conf.linkOn v p with
      | none =>
        rw [hlink] at hout
        have hflooded := flooding_flooded hout
        rw [houtput] at hflooded
        cases hflooded
      | some i =>
        refine ⟨i, hlink, ?_⟩
        rw [hlink] at hout
        obtain ⟨sent', hsent', rfl⟩ := map_ok hout
        obtain rfl : sent' = sent := congrArg Switched.sent houtput
        by_cases hown : ((s.conf.vswitch v).vswitchLinkId i).toNat = rx
        · exact .inr (.inl hown)
        by_cases hgo : p ≠ r ∧ (s.conf.port p).isStopped = false
        · exact .inl hgo
        -- nothing is to be sent here, and the router has not sent anything
        refine .inr (.inr ?_)
        have hblocked : p = r ∨ (s.conf.port p).isStopped = true := by
          rcases not_and_or.mp hgo with hback | hstopped
          · exact .inl (not_not.mp hback)
          · exact .inr (Bool.not_eq_false _ ▸ hstopped)
        rw [deliver, hlink] at hdeliver
        dsimp only at hdeliver
        rw [if_pos hblocked] at hdeliver
        obtain rfl := Except.ok.inj hdeliver
        obtain ⟨sent, hsent, hnone⟩ := @sendLink_ok dpdk s.conf m p hinsert hlearned.port i
          ((s.conf.vswitch v).vswitchLinkId i).toNat
        rw [routerSendLink, decide_eq_false fun heq => hown (Option.some.inj heq).symm, hsent]
          at hsent'
        exact hnone.mp (Except.ok.inj hsent')
  · rintro ⟨htag, i, hlink, hgo⟩
    obtain ⟨hi, hport⟩ := linkOn_some hlink
    have hdeliver : ∃ sent, deliver dpdk s.conf r v p m = .ok sent
        ∧ routerSendLink dpdk s.conf i m (some rx) p ((s.conf.vswitch v).vswitchLinkId i).toNat
          = .ok sent := by
      rw [deliver, hlink]
      dsimp only
      by_cases hown : ((s.conf.vswitch v).vswitchLinkId i).toNat = rx
      · -- the frame came from there
        have hback : p = r := by rw [← hport, hown, hrx.port]
        refine ⟨[], if_pos (.inl hback), sendLink_skip hlearned.port fun hall => ?_⟩
        exact of_decide_eq_false hall.1 (congrArg some hown.symm)
      · rw [routerSendLink, decide_eq_false fun heq => hown (Option.some.inj heq).symm]
        obtain ⟨sent, hsent, hnone⟩ := @sendLink_ok dpdk s.conf m p hinsert hlearned.port i
          ((s.conf.vswitch v).vswitchLinkId i).toNat
        rcases hgo with ⟨hother, hrunning⟩ | hsame | hready
        · refine ⟨sent, ?_, hsent⟩
          rw [if_neg (by simp [hother, hrunning]), hsent]
        · exact absurd hsame hown
        · obtain rfl := hnone.mpr hready
          refine ⟨[], ?_, hsent⟩
          split
          · rfl
          · exact hsent
    obtain ⟨sent, hsent, hrouter⟩ := hdeliver
    refine ⟨_, sent, learnedUnder_iff.mpr rfl, hsent, ?_, ?_⟩
    · rw [l2SwitchSelect_eq hw hrx, l2SwitchPorts_learned hw hrx hunicast hlearned htag, hsent]
      exact ⟨_, rfl, rfl⟩
    · rw [hswitch, hlink]
      dsimp only
      rw [hrouter]
      exact ⟨_, rfl, rfl⟩

/-- Two tagged links. A host was learned on the second. -/
theorem forwardsLearned_tagged : ∃ events s, Lib.Run ConfStep .init events s
    ∧ ForwardsLearned (.plain 2) s.conf 0
      (.ofList [2, 0, 0, 0, 0, 2, 2, 0, 0, 0, 0, 1, 0x81, 0, 0, 10, 0x08, 0]) 0 0 1 := by
  obtain ⟨s, hrun, hfacts⟩ := exists_run (Env.ports_allocs 2)
    (show (confRun (.ports 2) [.portStatus, .vswitchSet ⟨1, 10⟩, .vswitchPortSet ⟨1, 0, 0, true⟩,
        .vswitchPortSet ⟨1, 1, 0, true⟩, .fdbEntryAdd ⟨#v[2, 0, 0, 0, 0, 2], 10, 1⟩] .zero).map
          (fun c => (classify c 0
              (.ofList [2, 0, 0, 0, 0, 2, 2, 0, 0, 0, 0, 1, 0x81, 0, 0, 10, 0x08, 0]),
            [(c.vswitchLink 0).portId.toNat, c.vswitchSize.toNat, (c.vswitch 0).isDeleted.toNat,
              (c.vswitchLink 0).tagId.toNat, (c.vswitch 0).vlanId.toNat, (c.port 1).isStopped.toNat],
            fdbLookupEntry c.fdb #v[2, 0, 0, 0, 0, 2] 10, c.linkOn 0 1))
        = some (.ok (some (0, 0)), [0, 1, 0, 10, 10, 0], 1, some 1) by decide +kernel)
  obtain ⟨hclassify, hrest⟩ := Prod.mk.inj hfacts
  obtain ⟨hnumbers, hrest⟩ := Prod.mk.inj hrest
  obtain ⟨hentry, hlink⟩ := Prod.mk.inj hrest
  simp only [List.cons.injEq, Bool.toNat_eq_zero, and_true] at hnumbers
  obtain ⟨hport, hsize, hdeleted, htag, hvlan, hrunning⟩ := hnumbers
  have hvlan : (s.conf.vswitch 0).vlanId = 10 := UInt16.toNat_inj.mp hvlan
  refine ⟨_, s, hrun, (forwardsLearned_iff hrun (Dpdk.plain_inserts 2)
    ⟨hclassify, hport, by omega, hdeleted⟩ (by decide) ⟨?_, by decide⟩).mpr
    ⟨?_, 1, hlink, .inl ⟨by decide, hrunning⟩⟩⟩
  · rw [hvlan]
    exact hentry
  · rw [hvlan]
    exact UInt16.toNat_inj.mp htag

/-- Two native links. `l2_switch` looks up vlan 0, where nothing is learned. -/
theorem l2Switch_floods_learned : ¬ ∀ (events : List (Env × ConfMsg)) (s : RibState) (dpdk : Dpdk)
    (r rx v p : Nat) (m : Mbuf), Lib.Run ConfStep .init events s → dpdk.Inserts →
      Received s.conf r m rx v → m.isMulticast = false → LearnedAt s.conf m v p →
      ForwardsLearned dpdk s.conf r m rx v p := by
  intro hall
  obtain ⟨s, hrun, hfacts⟩ := exists_run (Env.ports_allocs 2)
    (show (confRun (.ports 2) [.portStatus, .vswitchSet ⟨1, 10⟩, .vswitchPortSet ⟨1, 0, 0, false⟩,
        .vswitchPortSet ⟨1, 1, 0, false⟩, .fdbEntryAdd ⟨#v[2, 0, 0, 0, 0, 2], 10, 1⟩] .zero).map
          (fun c => (classify c 0 (.ofList [2, 0, 0, 0, 0, 2, 2, 0, 0, 0, 0, 1, 0x08, 0]),
            [(c.vswitchLink 0).portId.toNat, c.vswitchSize.toNat, (c.vswitch 0).isDeleted.toNat,
              (c.vswitchLink 0).tagId.toNat, (c.vswitch 0).vlanId.toNat],
            fdbLookupEntry c.fdb #v[2, 0, 0, 0, 0, 2] 10))
        = some (.ok (some (0, 0)), [0, 1, 0, 0, 10], 1) by decide +kernel)
  obtain ⟨hclassify, hrest⟩ := Prod.mk.inj hfacts
  obtain ⟨hnumbers, hentry⟩ := Prod.mk.inj hrest
  simp only [List.cons.injEq, Bool.toNat_eq_zero, and_true] at hnumbers
  obtain ⟨hport, hsize, hdeleted, htag, hvlan⟩ := hnumbers
  have hvlan : (s.conf.vswitch 0).vlanId = 10 := UInt16.toNat_inj.mp hvlan
  have hrx : Received s.conf 0 (.ofList [2, 0, 0, 0, 0, 2, 2, 0, 0, 0, 0, 1, 0x08, 0]) 0 0 :=
    ⟨hclassify, hport, by omega, hdeleted⟩
  have hlearned :
      LearnedAt s.conf (.ofList [2, 0, 0, 0, 0, 2, 2, 0, 0, 0, 0, 1, 0x08, 0]) 0 1 := by
    refine ⟨?_, by decide⟩
    rw [hvlan]
    exact hentry
  have hw : Wired s.conf :=
    hrun.invariant (fun s => Wired s.conf) .zero fun _ _ _ => wired_confStep
  have hforwards := hall _ s (.plain 2) 0 0 0 1 _ hrun (Dpdk.plain_inserts 2) hrx (by decide) hlearned
  have heq := hforwards.tag_eq hw hrx (by decide)
  rw [hvlan] at heq
  rw [heq] at htag
  cases htag

end SdPlane
