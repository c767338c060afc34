import SdPlane.L2Switch
import SdPlane.Punted

/-!
# Stopped ports (`net_subr.h`, `router.c`, `l2_switch.c`)

A port is stopped while `rib_check` sets its queues up anew, and a frame is not to be sent there.
There is no single place that looks at the flag: every loop that floods and every search for the
port of a known host has to do it for itself. Two of them do not.

`_switching` sends a frame for a host that was learned without a look at the port (`ToStopped`), and
so do received frames that are switched and all frames from the tap. `l2_switch` looks when it
floods a group, but not when it floods for a host that it does not know (`FloodsStopped`).
`_flooding` and `_forwarding` look.
-/

set_option autoImplicit false

namespace SdPlane

/-- `_process_tx_packet`. What it reads of the headers is for code that is left out. -/
def routerProcessTxPacket (dpdk : Dpdk) (c : RibConf) (m : Mbuf) (v : VswitchConf) :
    Except Fault SwitchingOut :=
  switching dpdk c ROUTER_IF_RX_SELF_PORT_ID none v m

/-- What the ports get. -/
def Forwarded.txs : Forwarded → List Tx
  | .dropped | .requested none => []
  | .requested (some out) => out.sent
  | .sent l => l

def Disposition.txs : Disposition → List Tx
  | .switched out => out.sent
  | .forwarded out => out.txs
  | .noVswitch | .toRouterIf | .control | .invalid => []

def l2SwitchTxs : Option L2Out → List Tx
  | none => []
  | some out => out.sent

/-- Where a frame comes from: the router has received it on a port, or taken it from the tap of a
    vswitch, or `l2_switch` has received it. -/
inductive FrameSource
  | port (rxPort : Nat)
  | tap (v : Nat)
  | l2Switch (rxPort : Nat)

/-- What becomes of it. -/
def transmits (dpdk : RouterDpdk) (info : RibInfo) (m : Mbuf) :
    FrameSource → Except Fault (List Tx)
  | .port rxPort => (routerProcessRxPacket dpdk info rxPort m).map fun out => out.disposition.txs
  | .tap v =>
    (routerProcessTxPacket dpdk.toDpdk info.toRibConf m (info.vswitch v)).map fun out => out.sent
  | .l2Switch rxPort =>
    (l2SwitchSelect dpdk.toDpdk info.toRibConf rxPort m).map l2SwitchTxs

/-- Nothing is sent to a stopped port. -/
def Spares (c : RibConf) (sent : List Tx) : Prop := ∀ t ∈ sent, (c.port t.port).isStopped = false

/-- The host was learned on port `p`, which is stopped and takes frames all the same. Link `l`, at
    place `i` of the vswitch, is the first one on it. -/
structure ToStopped (dpdk : Dpdk) (c : RibConf) (rxLink : Option Nat) (v : VswitchConf) (m : Mbuf)
    (p i l : Nat) : Prop where
  live : v.isDeleted = false
  unicast : m.isMulticast = false
  learned : fdbLookupEntry c.fdb m.dstAddr v.vlanId = (p : Int)
  link : searchLinks v (fun l => decide (((c.vswitchLink l).portId.toNat : Int) = (p : Int)))
    (List.range v.vswitchPortSize.toNat) = .ok (some (i, l))
  other : rxLink ≠ some l
  ready : dpdk.Ready c p
  copied : (dpdk.copy (.link i) m).isSome
  stopped : (c.port p).isStopped = true

/-- A frame that the router has received on link `rx` of vswitch `v` is to be switched. -/
structure IsSwitched (info : RibInfo) (rxPort : Nat) (m : Mbuf) (rx v : Nat) : Prop where
  received : classify info.toRibConf rxPort m = .ok (some (rx, v))
  other : m.dstAddr ≠ (info.vswitch v).routerIf.macAddr
  data : (info.vswitch v).routerIf.sockfd ≥ 0 ∧ (info.vswitch v).routerIf.ringUp ≠ 0 →
    (checkControlPacket m (info.vswitch v).routerIf).1 = false

/-- `l2_switch` has received a frame for a host that it does not know, and the link at place `i` of
    the vswitch is on another port, which is stopped and takes frames all the same. -/
structure FloodsStopped (dpdk : Dpdk) (c : RibConf) (rxPort : Nat) (m : Mbuf) (rx v i : Nat) :
    Prop where
  received : classify c rxPort m = .ok (some (rx, v))
  unicast : m.isMulticast = false
  unknown : fdbLookupEntry c.fdb m.dstAddr (c.vswitchLink rx).tagId < 0
  listed : i < (c.vswitch v).vswitchPortSize.toNat
  link : ((c.vswitch v).vswitchLinkId i).toNat ≠ rx
  other : (c.vswitchLink ((c.vswitch v).vswitchLinkId i).toNat).portId.toNat ≠ rxPort
  ready : dpdk.Ready c (c.vswitchLink ((c.vswitch v).vswitchLinkId i).toNat).portId.toNat
  copied : (dpdk.copy (.link i) m).isSome
  stopped : (c.port (c.vswitchLink ((c.vswitch v).vswitchLinkId i).toNat).portId.toNat).isStopped
    = true

/-- The frames that a stopped port gets. -/
def ReachesStopped (dpdk : RouterDpdk) (info : RibInfo) (m : Mbuf) : FrameSource → Prop
  | .port rxPort => ∃ rx v p i l, IsSwitched info rxPort m rx v
    ∧ ToStopped dpdk.toDpdk info.toRibConf (some rx) (info.vswitch v) m p i l
  | .tap v => ∃ p i l, ToStopped dpdk.toDpdk info.toRibConf none (info.vswitch v) m p i l
  | .l2Switch rxPort => ∃ rx v i, FloodsStopped dpdk.toDpdk info.toRibConf rxPort m rx v i

/-! ## Sending on one link -/

section

variable {dpdk : Dpdk} {c : RibConf} {m : Mbuf} {rxPort : Nat}

theorem Spares.nil : Spares c [] := fun _ ht => nomatch ht

/-- The port gets a frame if it is not sent back, the port is ready and there is a copy. -/
theorem exists_mem_sendLink {i txPort l : Nat} {back : Bool} {sent : List Tx}
    (h : sendLink dpdk c i back m txPort l = .ok sent) :
    (∃ t, t ∈ sent) ↔ back = false ∧ dpdk.Ready c txPort ∧ (dpdk.copy (.link i) m).isSome := by
  by_cases hall : back = false ∧ dpdk.Ready c txPort ∧ (dpdk.copy (.link i) m).isSome
  · obtain ⟨hback, hready, hcopy⟩ := hall
    obtain ⟨copied, hcopied⟩ := Option.isSome_iff_exists.mp hcopy
    have hport : txPort < MAX_ETH_PORTS := by
      by_contra hge
      rw [sendLink, if_neg (by simp [hready.present, hback]), if_pos (Nat.le_of_not_lt hge)] at h
      cases h
    rw [sendLink_copy hport hback hready hcopied] at h
    obtain ⟨frame, -, rfl⟩ := map_ok h
    simp [hback, hready, hcopy]
  · refine iff_of_false ?_ hall
    rintro ⟨t, ht⟩
    have hempty : sent = [] := by
      by_cases hport : txPort < MAX_ETH_PORTS
      · rw [sendLink_skip hport hall] at h
        exact (Except.ok.inj h).symm
      · -- the port is looked up, unless the frame is passed over before
        rw [sendLink] at h
        split at h
        · exact (Except.ok.inj h).symm
        · rw [if_pos (Nat.le_of_not_lt hport)] at h
          cases h
    rw [hempty] at ht
    cases ht

/-- What is sent on one link spares the stopped ports unless it reaches one. -/
theorem spares_sendLink {i txPort l : Nat} {back : Bool} {sent : List Tx}
    (h : sendLink dpdk c i back m txPort l = .ok sent) :
    Spares c sent ↔ ¬ (back = false ∧ dpdk.Ready c txPort ∧ (dpdk.copy (.link i) m).isSome
      ∧ (c.port txPort).isStopped = true) := by
  have hsent := exists_mem_sendLink h
  constructor
  · rintro hspares ⟨hback, hready, hcopy, hstopped⟩
    obtain ⟨t, ht⟩ := hsent.mpr ⟨hback, hready, hcopy⟩
    have hrunning := hspares t ht
    rw [(mem_sendLink h ht).2, hstopped] at hrunning
    cases hrunning
  · intro hnot t ht
    obtain ⟨hback, hready, hcopy⟩ := hsent.mp ⟨t, ht⟩
    rw [(mem_sendLink h ht).2]
    simpa using fun hstopped => hnot ⟨hback, hready, hcopy, hstopped⟩

/-- A loop over the links of a vswitch spares the stopped ports if every round does. -/
theorem spares_forLinks {v : VswitchConf} {f : Nat → Nat → Except Fault (List Tx)} {sent : List Tx}
    (h : forLinks v f = .ok sent) :
    Spares c sent ↔ ∀ i < v.vswitchPortSize.toNat, ∀ out, f i (v.vswitchLinkId i).toNat = .ok out →
      Spares c out := by
  have hround : ∀ i < v.vswitchPortSize.toNat,
      (if MAX_VSWITCH_PORTS ≤ i ∨ MAX_VSWITCH_LINK ≤ (v.vswitchLinkId i).toNat then
        (.error .outOfBounds : Except Fault (List Tx))
      else f i (v.vswitchLinkId i).toNat) = f i (v.vswitchLinkId i).toNat := by
    intro i hi
    obtain ⟨out, hout⟩ := Lib.collect_ok h i (List.mem_range.mpr hi)
    split at hout
    · cases hout
    · next hin => exact if_neg hin
  constructor
  · intro hspares i hi out hout t ht
    refine hspares t ((Lib.mem_collect h).mpr ⟨i, List.mem_range.mpr hi, out, ?_, ht⟩)
    rw [hround i hi, hout]
  · intro hall t ht
    obtain ⟨i, hi, out, hout, ht⟩ := (Lib.mem_collect h).mp ht
    have hi := List.mem_range.mp hi
    rw [hround i hi] at hout
    exact hall i hi out hout t ht

/-! ## The router -/

theorem flooding_spares {rxLink : Option Nat} {v : VswitchConf}
    {lookup : Option (EtherAddr × UInt16)} {out : SwitchingOut}
    (h : flooding dpdk c rxPort rxLink v lookup m = .ok out) : Spares c out.sent := by
  obtain ⟨sent, hsent, h⟩ := bind_ok h
  obtain ⟨routerIf, -, h⟩ := bind_ok h
  rw [← Except.ok.inj h]
  refine (spares_forLinks hsent).mpr fun i _ out hout => ?_
  rw [floodingRound] at hout
  split at hout
  · cases hout
  · split at hout
    · obtain rfl := Except.ok.inj hout
      exact .nil
    · next hrunning => exact (spares_sendLink hout).mpr fun hall => hrunning hall.2.2.2

/-- Only a frame for a host that was learned is sent without a look at the port. -/
theorem switching_spares_iff {rxLink : Option Nat} {v : VswitchConf} {out : SwitchingOut}
    (h : switching dpdk c rxPort rxLink v m = .ok out) :
    Spares c out.sent ↔ ¬ ∃ p i l, ToStopped dpdk c rxLink v m p i l := by
  rw [switching] at h
  split at h
  · next hdeleted =>
    obtain rfl := Except.ok.inj h
    refine iff_of_true .nil ?_
    rintro ⟨p, i, l, hto⟩
    rw [hto.live] at hdeleted
    cases hdeleted
  next hlive =>
  split at h
  · next hgroup =>
    refine iff_of_true (flooding_spares h) ?_
    rintro ⟨p, i, l, hto⟩
    rw [hto.unicast, Mbuf.not_broadcast hto.unicast] at hgroup
    simp at hgroup
  next hunicast =>
  dsimp only at h
  split at h
  · next hlearned =>
    obtain ⟨p, hp⟩ := Int.eq_ofNat_of_zero_le hlearned
    simp only [hp] at h
    cases hsearch : searchLinks v
        (fun l => decide (((c.vswitchLink l).portId.toNat : Int) = (p : Int)))
        (List.range v.vswitchPortSize.toNat) with
    | error e =>
      rw [hsearch] at h
      cases h
    | ok found =>
      rw [hsearch] at h
      cases found with
      | none =>
        refine iff_of_true (flooding_spares h) ?_
        rintro ⟨p', i, l, hto⟩
        obtain rfl := Int.ofNat_inj.mp (hp.symm.trans hto.learned)
        cases hsearch.symm.trans hto.link
      | some pair =>
        obtain ⟨i, l⟩ := pair
        dsimp only at h
        cases hsend : routerSendLink dpdk c i m rxLink (p : Int).toNat l with
        | error e =>
          rw [hsend] at h
          cases h
        | ok sent =>
          rw [hsend] at h
          obtain rfl := Except.ok.inj h
          rw [Int.toNat_natCast] at hsend
          rw [spares_sendLink hsend, not_iff_not]
          constructor
          · rintro ⟨hback, hready, hcopy, hstopped⟩
            exact ⟨p, i, l, by simpa using hlive, by simpa using (not_or.mp hunicast).1, hp, hsearch,
              of_decide_eq_false hback, hready, hcopy, hstopped⟩
          · rintro ⟨p', i', l', hto⟩
            obtain rfl := Int.ofNat_inj.mp (hp.symm.trans hto.learned)
            obtain ⟨rfl, rfl⟩ :=
              Prod.mk.inj (Option.some.inj (Except.ok.inj (hsearch.symm.trans hto.link)))
            exact ⟨decide_eq_false hto.other, hto.ready, hto.copied, hto.stopped⟩
  · next hunknown =>
    refine iff_of_true (flooding_spares h) ?_
    rintro ⟨p, i, l, hto⟩
    exact hunknown (hto.learned ▸ Int.natCast_nonneg p)

/-! ## `l2_switch` -/

/-- The rounds of the loop for groups. -/
theorem l2SwitchFloodRound_spares {rx i l : Nat} {sent : List Tx}
    (h : l2SwitchFloodRound dpdk c true rxPort rx m i l = .ok sent) : Spares c sent := by
  rw [l2SwitchFloodRound] at h
  split at h
  · obtain rfl := Except.ok.inj h
    exact .nil
  · split at h
    · cases h
    · split at h
      · obtain rfl := Except.ok.inj h
        exact .nil
      · next hrunning =>
        exact (spares_sendLink h).mpr fun hall => hrunning ⟨rfl, hall.2.2.2⟩

theorem l2SwitchKnown_spares {rx p : Nat} {v : VswitchConf} {places : List Nat} {sent : List Tx}
    (h : l2SwitchKnown dpdk c rxPort rx m p v places = .ok sent) : Spares c sent := by
  induction places with
  | nil =>
    obtain rfl := Except.ok.inj h
    exact .nil
  | cons i rest ih =>
    rw [l2SwitchKnown] at h
    split at h
    · cases h
    · split at h
      · cases h
      · split at h
        · exact ih h
        · next hrunning =>
          split at h
          · exact (spares_sendLink h).mpr fun hall => hrunning hall.2.2.2
          · exact ih h

/-- The rounds of the loop for hosts that are not known do not look at the flag. -/
theorem l2SwitchFloodRound_spares_iff {rx i l : Nat} {sent : List Tx}
    (h : l2SwitchFloodRound dpdk c false rxPort rx m i l = .ok sent) :
    Spares c sent ↔ ¬ (l ≠ rx ∧ (c.vswitchLink l).portId.toNat ≠ rxPort
      ∧ dpdk.Ready c (c.vswitchLink l).portId.toNat ∧ (dpdk.copy (.link i) m).isSome
      ∧ (c.port (c.vswitchLink l).portId.toNat).isStopped = true) := by
  rw [l2SwitchFloodRound] at h
  split at h
  · next hsame =>
    obtain rfl := Except.ok.inj h
    refine iff_of_true .nil fun hall => ?_
    rcases hsame with hlink | hport
    · exact hall.1 hlink
    · exact hall.2.1 hport
  · next hother =>
    obtain ⟨hlink, hport⟩ := not_or.mp hother
    rw [if_neg (by simp), if_neg (by simp)] at h
    rw [spares_sendLink h]
    simp [hlink, hport, Ne.symm hport]

/-- Only a frame for a host that is not known is sent without a look at the port. -/
theorem l2SwitchPorts_spares_iff {rx v : Nat} {out : Switched}
    (hrx : classify c rxPort m = .ok (some (rx, v)))
    (h : l2SwitchPorts dpdk c rxPort rx (c.vswitch v) m = .ok out) :
    Spares c out.sent ↔ ¬ ∃ i, FloodsStopped dpdk c rxPort m rx v i := by
  rw [l2SwitchPorts] at h
  split at h
  · next hgroup =>
    obtain ⟨sent, hsent, rfl⟩ := map_ok h
    refine iff_of_true ((spares_forLinks hsent).mpr fun i _ out hout => ?_) ?_
    · exact l2SwitchFloodRound_spares hout
    · rintro ⟨i, hto⟩
      rw [hto.unicast, Mbuf.not_broadcast hto.unicast] at hgroup
      simp at hgroup
  next hunicast =>
  dsimp only at h
  split at h
  · next hknown =>
    obtain ⟨sent, hsent, rfl⟩ := map_ok h
    refine iff_of_true (l2SwitchKnown_spares hsent) ?_
    rintro ⟨i, hto⟩
    exact absurd hto.unknown (not_lt.mpr hknown)
  · next hunknown =>
    obtain ⟨sent, hsent, rfl⟩ := map_ok h
    rw [spares_forLinks hsent, ← not_iff_not, not_not]
    push Not
    constructor
    · rintro ⟨i, hi, out, hout, hnot⟩
      rw [l2SwitchFloodRound_spares_iff hout, not_not] at hnot
      obtain ⟨hlink, hother, hready, hcopy, hstopped⟩ := hnot
      exact ⟨i, hrx, by simpa using (not_or.mp hunicast).1, not_le.mp hunknown, hi, hlink, hother,
        hready, hcopy, hstopped⟩
    · rintro ⟨i, hto⟩
      obtain ⟨out, hout⟩ := Lib.collect_ok hsent i (List.mem_range.mpr hto.listed)
      split at hout
      · cases hout
      · refine ⟨i, hto.listed, out, hout, ?_⟩
        rw [l2SwitchFloodRound_spares_iff hout, not_not]
        exact ⟨hto.link, hto.other, hto.ready, hto.copied, hto.stopped⟩

end

section

variable {dpdk : RouterDpdk} {info : RibInfo} {m : Mbuf} {rxPort : Nat}

/-! ## Received frames -/

theorem egressLink_running {oif : Int} {mac : EtherAddr} {egress : EgressLink}
    (h : egressLink info oif mac = .ok (some egress)) :
    (info.port egress.port).isStopped = false := by
  unfold egressLink at h
  split at h
  · cases Except.ok.inj h
  · dsimp only at h
    split at h
    · cases Except.ok.inj h
    · split at h
      · cases h
      · cases Except.ok.inj h
      · split at h
        · cases h
        · split at h
          · cases Except.ok.inj h
          · next hrunning =>
            obtain rfl := Option.some.inj (Except.ok.inj h)
            simpa using hrunning

/-- Routed frames and the requests for a neighbor spare the stopped ports. -/
theorem forwarding_spares {rxLink : Option Nat} {l3 : L3} {out : Forwarded}
    (h : forwarding dpdk info rxPort rxLink m l3 = .ok out) : Spares info.toRibConf out.txs := by
  unfold forwarding at h
  split at h
  · cases h
  · obtain rfl := Except.ok.inj h
    exact .nil
  · next nhInfo _ =>
    split at h
    · obtain ⟨requested, hrequest, rfl⟩ := map_ok h
      rw [requestNeigh] at hrequest
      split at hrequest
      · obtain rfl := Except.ok.inj hrequest
        exact .nil
      · dsimp only at hrequest
        split at hrequest
        · obtain ⟨flooded, hflooded, rfl⟩ := map_ok hrequest
          exact flooding_spares hflooded
        · obtain rfl := Except.ok.inj hrequest
          exact .nil
    · split at h
      · cases h
      · obtain rfl := Except.ok.inj h
        exact .nil
      · next egress hegress =>
        obtain ⟨sent, hsent, rfl⟩ := map_ok h
        exact (spares_sendLink hsent).mpr fun hall => by
          rw [egressLink_running hegress] at hall
          cases hall.2.2.2

theorem IsSwitched.not_forRouterIf {rx v : Nat} (h : IsSwitched info rxPort m rx v) :
    forRouterIf m (info.vswitch v).routerIf = false := by
  rw [forRouterIf, decide_eq_false h.other, Bool.false_and]

/-- A unicast frame that is to be switched is switched. -/
theorem IsSwitched.switching {rx v : Nat} {out : RouterOut} (h : IsSwitched info rxPort m rx v)
    (hunicast : m.isMulticast = false) (hout : routerProcessRxPacket dpdk info rxPort m = .ok out) :
    ∃ switched, out.disposition = .switched switched
      ∧ SdPlane.switching dpdk.toDpdk info.toRibConf rxPort (some rx) (info.vswitch v) m
        = .ok switched := by
  have hgroup : (m.isMulticast || m.isBroadcast) = false := by
    rw [hunicast, Mbuf.not_broadcast hunicast]
    rfl
  obtain ⟨neigh, hcontrol⟩ : ∃ neigh, (if (info.vswitch v).routerIf.sockfd ≥ 0
      ∧ (info.vswitch v).routerIf.ringUp ≠ 0 then checkControlPacket m (info.vswitch v).routerIf
      else (false, none)) = (false, neigh) := by
    split
    · next hup => exact ⟨_, by rw [← h.data hup]⟩
    · exact ⟨none, rfl⟩
  simp only [routerProcessRxPacket, h.received, h.not_forRouterIf, Bool.false_eq_true, if_false,
    hgroup, hcontrol] at hout
  obtain ⟨disposition, hdisposition, rfl⟩ := map_ok hout
  rw [switchOrRoute, if_pos h.other] at hdisposition
  obtain ⟨switched, hswitching, rfl⟩ := map_ok hdisposition
  exact ⟨switched, rfl, hswitching⟩

theorem received_spares_iff {out : RouterOut}
    (h : routerProcessRxPacket dpdk info rxPort m = .ok out) :
    Spares info.toRibConf out.disposition.txs ↔ ¬ ReachesStopped dpdk info m (.port rxPort) := by
  have hreaches : ReachesStopped dpdk info m (.port rxPort) →
      ∃ switched, out.disposition = .switched switched
        ∧ ¬ Spares info.toRibConf switched.sent := by
    rintro ⟨rx, v, p, i, l, hswitched, hto⟩
    obtain ⟨switched, hout, hswitching⟩ := hswitched.switching hto.unicast h
    exact ⟨switched, hout, fun hspares =>
      (switching_spares_iff hswitching).mp hspares ⟨p, i, l, hto⟩⟩
  have hother : Spares info.toRibConf out.disposition.txs →
      ¬ ReachesStopped dpdk info m (.port rxPort) := by
    intro hspares hto
    obtain ⟨switched, hout, hnot⟩ := hreaches hto
    rw [hout] at hspares
    exact hnot hspares
  refine ⟨hother, fun hnot => ?_⟩
  cases hout : out.disposition with
  | noVswitch | toRouterIf | control | invalid => exact .nil
  | forwarded f =>
    obtain ⟨-, -, rx, hf⟩ := forwarded_of_process h hout
    exact forwarding_spares hf
  | switched switched =>
    obtain ⟨rx, v, hrx, hmac, hdata, -, hswitching⟩ := switched_of h hout
    refine (switching_spares_iff hswitching).mpr ?_
    rintro ⟨p, i, l, hto⟩
    exact hnot ⟨rx, v, p, i, l, ⟨hrx, hmac, hdata⟩, hto⟩

theorem l2Switch_spares_iff {c : RibConf} {out : Option L2Out}
    (h : l2SwitchSelect dpdk.toDpdk c rxPort m = .ok out) :
    Spares c (l2SwitchTxs out) ↔ ¬ ∃ rx v i, FloodsStopped dpdk.toDpdk c rxPort m rx v i := by
  have hnone : classify c rxPort m = .ok none →
      ¬ ∃ rx v i, FloodsStopped dpdk.toDpdk c rxPort m rx v i := by
    rintro hlost ⟨rx, v, i, hto⟩
    cases hlost.symm.trans hto.received
  rw [l2SwitchSelect] at h
  cases hrx : rxLink c rxPort m with
  | error e =>
    rw [hrx] at h
    cases h
  | ok found =>
    rw [hrx] at h
    cases found with
    | none =>
      obtain rfl := Except.ok.inj h
      exact iff_of_true .nil (hnone (by rw [classify, hrx]))
    | some rx =>
      dsimp only at h
      split at h
      · next hsize =>
        obtain rfl := Except.ok.inj h
        exact iff_of_true .nil (hnone (by rw [classify, hrx]; exact if_pos hsize))
      · next hsize =>
        cases hv : rxVswitch c (c.vswitchLink rx).vswitchId with
        | none =>
          rw [hv] at h
          cases h
        | some v =>
          rw [hv] at h
          obtain ⟨switched, hports, rfl⟩ := map_ok h
          have hclassify : classify c rxPort m = .ok (some (rx, v)) := by
            rw [classify, hrx]
            dsimp only
            rw [if_neg hsize, hv]
            rfl
          refine (l2SwitchPorts_spares_iff hclassify hports).trans (not_iff_not.mpr ?_)
          constructor
          · rintro ⟨i, hto⟩
            exact ⟨rx, v, i, hto⟩
          · rintro ⟨rx', v', i, hto⟩
            obtain ⟨rfl, rfl⟩ :=
              Prod.mk.inj (Option.some.inj (Except.ok.inj (hclassify.symm.trans hto.received)))
            exact ⟨i, hto⟩

/-! ## When stopped ports are spared -/

/-- **When nothing is sent to a stopped port.** Of every frame that is received, by the router or by
    `l2_switch`, or that comes from the tap, no stopped port gets a copy, exactly when the frame is
    none of those that are sent without a look at the flag. -/
theorem transmits_spares_iff (dpdk : RouterDpdk) (info : RibInfo) (m : Mbuf) (source : FrameSource)
    (sent : List Tx) (h : transmits dpdk info m source = .ok sent) :
    Spares info.toRibConf sent ↔ ¬ ReachesStopped dpdk info m source := by
  cases source with
  | port rxPort =>
    obtain ⟨out, hout, rfl⟩ := map_ok h
    exact received_spares_iff hout
  | tap v =>
    obtain ⟨out, hout, rfl⟩ := map_ok h
    exact switching_spares_iff hout
  | l2Switch rxPort =>
    obtain ⟨out, hout, rfl⟩ := map_ok h
    exact l2Switch_spares_iff hout

/-- Two ports on a vswitch, of which the second is stopped if `stopped`. A host was learned there. -/
def learnedOnSecond (stopped : Bool) : RibInfo where
  toRibConf := { RibConf.zero with
    vswitchSize := 1
    vswitchLinkSize := 2
    portSize := 2
    vswitch := fun _ => { VswitchConf.zero with
      vlanId := 10
      vswitchPortSize := 2
      vswitchLinkId := UInt16.ofNat }
    vswitchLink := fun i => { VswitchLink.zero with portId := UInt16.ofNat i }
    port := fun p => { PortConf.zero with isStopped := stopped && decide (p = 1) }
    fdb := fun _ => ⟨hostMac, 1, 10, FDB_STATE_ACTIVE, 0⟩ }
  nexthop := .zero
  fibTree := fun _ => none

/-- A frame from the tap, for that host. -/
def toSecond : Mbuf := .ofList [2, 0, 0, 0, 0, 2, 2, 0, 0, 0, 0, 1, 0x08, 0]

theorem tap_transmits (stopped : Bool) : ∃ sent,
    transmits (.plain 2) (learnedOnSecond stopped) toSecond (.tap 0) = .ok sent
      ∧ sent.map Tx.port = [1] := by
  have hports : ((transmits (.plain 2) (learnedOnSecond stopped) toSecond (.tap 0)).map
      fun sent => sent.map Tx.port) = .ok [1] := by
    cases stopped <;> decide +kernel
  obtain ⟨sent, hsent, hmap⟩ := map_ok hports
  exact ⟨sent, hsent, hmap⟩

theorem transmits_spares_tap : ∃ sent,
    transmits (.plain 2) (learnedOnSecond false) toSecond (.tap 0) = .ok sent
      ∧ (Spares (learnedOnSecond false).toRibConf sent
        ↔ ¬ ReachesStopped (.plain 2) (learnedOnSecond false) toSecond (.tap 0)) := by
  obtain ⟨sent, hsent, -⟩ := tap_transmits false
  exact ⟨sent, hsent, transmits_spares_iff (.plain 2) (learnedOnSecond false) toSecond (.tap 0) sent
    hsent⟩

/-- The host was learned before its port was stopped. -/
theorem stopped_port_gets_frame : ¬ ∀ (dpdk : RouterDpdk) (info : RibInfo) (m : Mbuf)
    (source : FrameSource) (sent : List Tx), transmits dpdk info m source = .ok sent →
      Spares info.toRibConf sent := by
  intro hall
  obtain ⟨sent, hsent, hports⟩ := tap_transmits true
  have hmem : 1 ∈ sent.map Tx.port := by rw [hports]; exact List.mem_singleton_self 1
  obtain ⟨t, ht, hport⟩ := List.mem_map.mp hmem
  have hrunning := hall _ _ _ _ sent hsent t ht
  rw [hport] at hrunning
  cases hrunning

end

end SdPlane
