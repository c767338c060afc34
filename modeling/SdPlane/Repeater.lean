import SdPlane.Ingress
import SdPlane.PortRefs

/-!
# The enhanced repeater (`enhanced_repeater.c`)

A frame is given to every other link of the vswitch that it is received on, with the tag that each
of these has, then to the router interface, the capture interface and the applications of the
vswitch. A link gets nothing if it leads back to the port that the frame came from, or if its
port is stopped or not ready.

Whether all links get their copy is up to the tables. `Complete` is what the repeater needs of
them: every link in use is on the list of its vswitch, and every tagged one on the list of its
port. A table that is full breaks it when a link is made, and so does the deletion of a tagged
link that the native field of its port happens to name: the port keeps it, the slot is given to
another link, and a list has a link of another port, or one link twice. `RepeaterKept` is what a
message has to find for all that not to happen.
-/

set_option autoImplicit false

namespace SdPlane

/-- `_send_link`. -/
def repeaterSendLink (dpdk : Dpdk) (c : RibConf) (i : Nat) (m : Mbuf) (rxPort txPort l : Nat) :
    Except Fault (List Tx) :=
  sendLink dpdk c i (decide (rxPort = txPort)) m txPort l

/-- A round of the loop over the links. -/
def repeaterRound (dpdk : Dpdk) (c : RibConf) (rxPort : Nat) (m : Mbuf) (rx i l : Nat) :
    Except Fault (List Tx) :=
  if l = rx then .ok []
  else if MAX_ETH_PORTS ≤ (c.vswitchLink l).portId.toNat then .error .outOfBounds
  else if (c.port (c.vswitchLink l).portId.toNat).isStopped = true then .ok []
  else repeaterSendLink dpdk c i m rxPort (c.vswitchLink l).portId.toNat l

/-- What an application gets, by its slot. -/
def repeaterApplication (dpdk : Dpdk) (c : RibConf) (m : Mbuf) (i : Nat) :
    Except Fault (List (Nat × Mbuf)) :=
  if APPLI_SLOT_SIZE ≤ i then .error .outOfBounds
  else if (c.applicationSlot i).ring = 0 then .ok []
  else if (c.applicationSlot i).isPacketMatch = 0 then .error .nullPointer
  else if dpdk.isPacketMatch (c.applicationSlot i).isPacketMatch m = true then
    .ok ((sendRing dpdk (.application i) m).toList.map (i, ·))
  else .ok []

structure RepeaterRings where
  routerIf : Option Mbuf
  captureIf : Option Mbuf
  applications : List (Nat × Mbuf)

def repeaterRings (dpdk : Dpdk) (c : RibConf) (v : VswitchConf) (m : Mbuf) :
    Except Fault RepeaterRings := do
  let routerIf ←
    if v.routerIf.sockfd ≥ 0 ∧ v.routerIf.ringUp ≠ 0 then routerIfFrame dpdk v.routerIf false m
    else .ok none
  let captureIf :=
    if v.captureIf.sockfd ≥ 0 ∧ v.captureIf.ringUp ≠ 0 then sendRing dpdk .captureIf m else none
  let applications ←
    Lib.collect (repeaterApplication dpdk c m) (List.range c.applicationSlotSize.toNat)
  .ok ⟨routerIf, captureIf, applications⟩

/-- The links come first. A failure behind them does not take back what is sent. -/
structure RepeaterOut where
  sent : List Tx
  rings : Except Fault RepeaterRings

/-- `_process_rx_packet`. -/
def repeaterProcessRxPacket (dpdk : Dpdk) (c : RibConf) (rxPort : Nat) (m : Mbuf) :
    Except Fault RepeaterOut :=
  match classify c rxPort m with
  | .error e => .error e
  | .ok none => .ok ⟨[], .ok ⟨none, none, []⟩⟩
  | .ok (some (rx, v)) =>
    match forLinks (c.vswitch v) (repeaterRound dpdk c rxPort m rx) with
    | .error e => .error e
    | .ok sent => .ok ⟨sent, repeaterRings dpdk c (c.vswitch v) m⟩

/-! ## The property -/

/-- The link that a tagged frame matches on a port. A link with the tag `0` has no tag. -/
structure Matches (c : RibConf) (p : Nat) (m : Mbuf) (rx : Nat) : Prop where
  tagged : m.Tagged
  live : c.LiveLink rx
  port : (c.vswitchLink rx).portId.toNat = p
  tag : (c.vswitchLink rx).tagId = m.vlanId
  ne_zero : (c.vswitchLink rx).tagId ≠ 0
  only : ∀ l, c.LiveLink l → (c.vswitchLink l).portId.toNat = p →
    (c.vswitchLink l).tagId = m.vlanId → l = rx

/-- A link that gets a copy of a frame that is received on the link `rx` of port `p`. -/
structure Gets (dpdk : Dpdk) (c : RibConf) (p : Nat) (m : Mbuf) (rx l : Nat) : Prop where
  live : c.LiveLink l
  vswitchId : (c.vswitchLink l).vswitchId = (c.vswitchLink rx).vswitchId
  ne : l ≠ rx
  port : (c.vswitchLink l).portId.toNat ≠ p
  ready : dpdk.Ready c (c.vswitchLink l).portId.toNat
  running : (c.port (c.vswitchLink l).portId.toNat).isStopped = false
  /-- There is memory for it when its turn comes. -/
  copied : ∃ v i, c.LiveVswitch v ∧ (c.vswitch v).links[i]? = some (UInt16.ofNat l)
    ∧ (dpdk.copy (.link i) m).isSome

/-- The frame as it leaves on a link: without the header, or with the tag of the link. -/
def Retagged (c : RibConf) (m : Mbuf) (t : Tx) : Prop :=
  if (c.vswitchLink t.link).tagId = 0 then t.frame.data = m.data.take 12 ++ m.data.drop 16
  else t.frame.vlanId = (c.vswitchLink t.link).tagId
    ∧ t.frame.data = (m.setVlanId (c.vswitchLink t.link).tagId).data

/-- Every link that is to get a copy gets one, and nothing else is sent. -/
def Repeats (dpdk : Dpdk) (c : RibConf) (p : Nat) (m : Mbuf) : Prop :=
  ∀ rx, Matches c p m rx → ∃ out, repeaterProcessRxPacket dpdk c p m = .ok out
    ∧ (out.sent.map Tx.link).Nodup
    ∧ (∀ l, l ∈ out.sent.map Tx.link ↔ Gets dpdk c p m rx l)
    ∧ ∀ t ∈ out.sent, t.port = (c.vswitchLink t.link).portId.toNat ∧ Retagged c m t

/-- A new link is within the limits of the tables, and its tag within those of the header. -/
def WithinLimits (c : RibConf) : ConfMsg → Prop
  | .vswitchPortSet msg => ∀ v l, vswitchLookup c msg.vswitchId = some v → freeLink c = some l →
      (c.vswitch v).vswitchPortSize.toNat < MAX_VSWITCH_PORTS
        ∧ (msg.isTagged = true → (c.port msg.portId.toNat).vlanSize.toNat < MAX_VLAN_PER_PORT)
        ∧ (msg.tag (c.vswitch v).vlanId).toNat < 4096
  | _ => True

/-- What a message has to find. -/
def RepeaterKept (c : RibConf) (msg : ConfMsg) : Prop := PortRefsKept c msg ∧ WithinLimits c msg

/-! ## One frame -/

section

variable {dpdk : Dpdk} {c : RibConf} {p : Nat} {m : Mbuf}

/-- A tagged frame gets the tag of the link, or loses its own. -/
theorem retag_tagged (hdoc : dpdk.Documented) (hm : m.Tagged) {u : Purpose} {link : VswitchLink}
    {copied : Mbuf} (hcopy : dpdk.copy u m = some copied) (hfits : link.tagId.toNat < 4096) :
    ∃ frame, retag dpdk u link copied = .ok frame
      ∧ if link.tagId = 0 then frame.data = m.data.take 12 ++ m.data.drop 16
        else frame.vlanId = link.tagId ∧ frame.data = (m.setVlanId link.tagId).data := by
  have hdata := hdoc.copy u m copied hcopy
  have hlen : copied.dataLen = m.dataLen := by
    have hlength := congrArg List.length hdata
    rwa [Mbuf.length_data, Mbuf.length_data] at hlength
  have hroom := hm.length
  have htype : copied.etherType = RTE_ETHER_TYPE_VLAN :=
    (Mbuf.be16_of_data hdata (by omega)).trans hm.type
  have hid : copied.vlanId = m.vlanId := by
    rw [Mbuf.vlanId, Mbuf.vlanId, Mbuf.be16_of_data hdata (by omega)]
  rw [retag, if_pos htype]
  by_cases hzero : link.tagId = 0
  · rw [if_neg fun hboth => hboth.1 hzero, if_pos hzero]
    refine ⟨_, rfl, ?_⟩
    rw [if_pos hzero, hdoc.strip copied (by omega) htype, hdata]
  · simp only [if_neg hzero]
    by_cases hsame : link.tagId = copied.vlanId
    · rw [if_neg fun hboth => hboth.2 hsame]
      refine ⟨copied, rfl, hsame.symm, ?_⟩
      rw [hsame, hid, Mbuf.setVlanId_vlanId, hdata]
    · rw [if_pos ⟨hzero, hsame⟩]
      refine ⟨_, rfl, ?_, Mbuf.data_setVlanId hdata hroom _⟩
      rw [Mbuf.vlanId_setVlanId]
      apply UInt16.toNat_inj.mp
      rw [UInt16.toNat_and]
      exact Nat.and_two_pow_sub_one_of_lt_two_pow (show link.tagId.toNat < 2 ^ 12 from hfits)

variable (dpdk c p m) in
/-- What a round of the loop asks before it sends. -/
structure Sends (rx i l : Nat) : Prop where
  ne : l ≠ rx
  port : (c.vswitchLink l).portId.toNat ≠ p
  ready : dpdk.Ready c (c.vswitchLink l).portId.toNat
  running : (c.port (c.vswitchLink l).portId.toNat).isStopped = false
  copied : (dpdk.copy (.link i) m).isSome

theorem repeaterRound_sends (hdoc : dpdk.Documented) (hm : m.Tagged) (hids : PortIds c)
    {rx i l : Nat} (hl : l < c.vswitchLinkSize.toNat) (hfits : (c.vswitchLink l).tagId.toNat < 4096)
    (h : Sends dpdk c p m rx i l) : ∃ frame, Retagged c m ⟨l, (c.vswitchLink l).portId.toNat, frame⟩
      ∧ repeaterRound dpdk c p m rx i l = .ok [⟨l, (c.vswitchLink l).portId.toNat, frame⟩] := by
  obtain ⟨copied, hcopied⟩ := Option.isSome_iff_exists.mp h.copied
  obtain ⟨frame, hframe, htag⟩ := retag_tagged hdoc hm hcopied hfits
  refine ⟨frame, htag, ?_⟩
  have hport := hids.link l hl
  rw [repeaterRound, if_neg h.ne, if_neg (Nat.not_le.mpr hport), if_neg (by simp [h.running]),
    repeaterSendLink, sendLink_copy hport (decide_eq_false h.port.symm) h.ready hcopied, hframe]
  rfl

theorem repeaterRound_skips (hids : PortIds c) {rx i l : Nat} (hl : l < c.vswitchLinkSize.toNat)
    (h : ¬ Sends dpdk c p m rx i l) : repeaterRound dpdk c p m rx i l = .ok [] := by
  have hport := hids.link l hl
  rw [repeaterRound]
  split
  · rfl
  · next hne =>
    rw [if_neg (Nat.not_le.mpr hport)]
    split
    · rfl
    · next hrunning =>
      refine sendLink_skip hport fun hall => h ⟨hne, fun heq => ?_, hall.2.1, ?_, hall.2.2⟩
      · exact of_decide_eq_false hall.1 heq.symm
      · simpa using hrunning

end

/-! ## Complete tables -/

structure Complete (c : RibConf) : Prop extends PortRefs c where
  listed : ∀ l : UInt16, c.LiveLink l.toNat → ∃ v, c.LiveVswitch v ∧ l ∈ (c.vswitch v).links
  vlan : ∀ l : UInt16, c.LiveLink l.toNat → (c.vswitchLink l.toNat).tagId ≠ 0 →
    l ∈ (c.port (c.vswitchLink l.toNat).portId.toNat).vlans
  fits : ∀ l : UInt16, c.LiveLink l.toNat → (c.vswitchLink l.toNat).tagId.toNat < 4096

namespace Complete

variable {c d : RibConf}

/-- A frame is assigned to the link that it matches. -/
theorem classify_eq (h : Complete c) (hw : Wired c) (hids : PortIds c) {p rx : Nat} {m : Mbuf}
    (hrx : Matches c p m rx) : ∃ v, c.LiveVswitch v
      ∧ (c.vswitch v).vswitchId = (c.vswitchLink rx).vswitchId
      ∧ classify c p m = .ok (some (rx, v)) := by
  have htoNat := Wired.ofNat_toNat (hrx.live.1.trans_le hw.linkSize)
  have hlive : c.LiveLink (UInt16.ofNat rx).toNat := htoNat.symm ▸ hrx.live
  have hp : p < MAX_ETH_PORTS := hrx.port ▸ hids.link rx hrx.live.1
  have hmem := h.vlan _ hlive (htoNat.symm ▸ hrx.ne_zero)
  rw [htoNat, hrx.port] at hmem
  -- the search stops at a link with the tag, and there is one such link
  have hfound : ((c.port p).vlans.find? fun l =>
      decide ((c.vswitchLink l.toNat).tagId = m.vlanId)).isSome := by
    rw [List.find?_isSome]
    refine ⟨_, hmem, ?_⟩
    rw [htoNat]
    exact decide_eq_true hrx.tag
  obtain ⟨x, hx⟩ := Option.isSome_iff_exists.mp hfound
  obtain ⟨hlive', hport⟩ := h.tagged p hp x (List.mem_of_find?_eq_some hx)
  have hxrx := hrx.only _ hlive' hport (by simpa using List.find?_some hx)
  have hlink : rxLink c p m = .ok (some rx) := by
    rw [rxLink_eq hw hp, RibConf.ingress, if_pos hrx.tagged.type, hx, ← hxrx]
    rfl
  obtain ⟨v, hv, hlisted⟩ := h.listed _ hlive
  have hid := (hw.listed v _ hlisted).2
  rw [htoNat] at hid
  refine ⟨v, hv, hid.symm, ?_⟩
  rw [classify, hlink]
  dsimp only
  rw [if_neg (Nat.not_lt.mpr hw.vswitchSize), hid, rxVswitch_eq hw hv]
  rfl

/-- **Where the tables are complete, the repeater repeats.** -/
theorem repeats (h : Complete c) (hw : Wired c) (hids : PortIds c) {dpdk : Dpdk}
    (hdoc : dpdk.Documented) (p : Nat) (m : Mbuf) : Repeats dpdk c p m := by
  intro rx hrx
  obtain ⟨v, hv, hid, hclassify⟩ := h.classify_eq hw hids hrx
  have hplace : ∀ i < (c.vswitch v).vswitchPortSize.toNat,
      ((c.vswitch v).vswitchLinkId i).toNat < c.vswitchLinkSize.toNat
        ∧ (c.vswitchLink ((c.vswitch v).vswitchLinkId i).toNat).tagId.toNat < 4096 := by
    intro i hi
    have hmem : (c.vswitch v).vswitchLinkId i ∈ (c.vswitch v).links :=
      Lib.mem_entries.mpr ⟨i, hi, rfl⟩
    have hlive := (hw.listed v _ hmem).1
    exact ⟨hlive.1, h.fits _ hlive⟩
  have hround : ∀ i < (c.vswitch v).vswitchPortSize.toNat, ∃ out,
      repeaterRound dpdk c p m rx i ((c.vswitch v).vswitchLinkId i).toNat = .ok out
        ∧ (∀ t, t ∈ out → t.link = ((c.vswitch v).vswitchLinkId i).toNat
          ∧ t.port = (c.vswitchLink t.link).portId.toNat ∧ Retagged c m t)
        ∧ (out.map Tx.link).Sublist [((c.vswitch v).vswitchLinkId i).toNat]
        ∧ (((c.vswitch v).vswitchLinkId i).toNat ∈ out.map Tx.link
          ↔ Sends dpdk c p m rx i ((c.vswitch v).vswitchLinkId i).toNat) := by
    intro i hi
    obtain ⟨hlt, hfits⟩ := hplace i hi
    by_cases hsends : Sends dpdk c p m rx i ((c.vswitch v).vswitchLinkId i).toNat
    · obtain ⟨frame, htag, hround⟩ := repeaterRound_sends hdoc hrx.tagged hids hlt hfits hsends
      refine ⟨_, hround, fun t ht => ?_, List.Sublist.refl _, by simp [hsends]⟩
      obtain rfl := List.mem_singleton.mp ht
      exact ⟨rfl, rfl, htag⟩
    · exact ⟨[], repeaterRound_skips hids hlt hsends, fun t ht => (by cases ht),
        List.nil_sublist _, by simp [hsends]⟩
  have hok : ∀ i ∈ List.range (c.vswitch v).vswitchPortSize.toNat, ∃ out,
      repeaterRound dpdk c p m rx i ((c.vswitch v).vswitchLinkId i).toNat = .ok out := by
    intro i hi
    obtain ⟨out, hout, -⟩ := hround i (List.mem_range.mp hi)
    exact ⟨out, hout⟩
  obtain ⟨sent, hsent⟩ := Lib.exists_collect_ok hok
  have hloop : forLinks (c.vswitch v) (repeaterRound dpdk c p m rx) = .ok sent := by
    rw [forLinks_eq hw, hsent]
  refine ⟨⟨sent, repeaterRings dpdk c (c.vswitch v) m⟩, ?_, ?_, fun l => ⟨fun hl => ?_, fun hl => ?_⟩,
    fun t ht => ?_⟩
  · rw [repeaterProcessRxPacket, hclassify]
    dsimp only
    rw [hloop]
  · -- the list of the vswitch has no link twice
    have hsub : (sent.map Tx.link).Sublist ((List.range (c.vswitch v).vswitchPortSize.toNat).map
        fun i => ((c.vswitch v).vswitchLinkId i).toNat) := by
      refine Lib.collect_sublist hsent fun i hi out hout => ?_
      obtain ⟨out', hout', -, hone, -⟩ := hround i (List.mem_range.mp hi)
      obtain rfl := Except.ok.inj (hout'.symm.trans hout)
      exact hone
    have hnodup := (hw.once v).map fun x y : UInt16 => UInt16.toNat_inj.mp
    rw [VswitchConf.links, Lib.entries, List.map_map] at hnodup
    exact hsub.nodup hnodup
  · obtain ⟨t, ht, rfl⟩ := List.mem_map.mp hl
    obtain ⟨i, hi, out, hout, hmem⟩ := (Lib.mem_collect hsent).mp ht
    have hi := List.mem_range.mp hi
    obtain ⟨out', hout', hlinks, -, hsends⟩ := hround i hi
    obtain rfl := Except.ok.inj (hout'.symm.trans hout)
    have hlink := (hlinks t hmem).1
    have hs := hsends.mp (hlink ▸ List.mem_map_of_mem hmem)
    obtain ⟨hlive, hlinkId⟩ := hw.listed v _ (Lib.mem_entries.mpr ⟨i, hi, rfl⟩)
    rw [hlink]
    refine ⟨hlive, hlinkId.trans hid, hs.ne, hs.port, hs.ready, hs.running, v, i, hv, ?_, hs.copied⟩
    rw [List.getElem?_eq_getElem (by rwa [Wired.length_links])]
    simp [VswitchConf.links]
  · obtain ⟨v', i, hv', hplace', hcopied⟩ := hl.copied
    have htoNat := Wired.ofNat_toNat (hl.live.1.trans_le hw.linkSize)
    obtain ⟨hi, hat⟩ := List.getElem?_eq_some_iff.mp hplace'
    -- there is one vswitch with the id
    have hlinkId := (hw.listed v' _ (List.mem_of_getElem? hplace')).2
    rw [htoNat, hl.vswitchId, ← hid] at hlinkId
    obtain rfl := hw.live_unique hv' hv hlinkId.symm
    rw [Wired.length_links] at hi
    have hat : ((c.vswitch v').vswitchLinkId i).toNat = l := by
      rw [← htoNat, ← hat]
      simp [VswitchConf.links]
    obtain ⟨out, hout, -, -, hsends⟩ := hround i hi
    rw [hat] at hout hsends
    obtain ⟨t, ht, hlink⟩ := List.mem_map.mp
      (hsends.mpr ⟨hl.ne, hl.port, hl.ready, hl.running, hcopied⟩)
    refine List.mem_map.mpr ⟨t, (Lib.mem_collect hsent).mpr ⟨i, List.mem_range.mpr hi, out, ?_, ht⟩,
      hlink⟩
    rw [hat]
    exact hout
  · obtain ⟨i, hi, out, hout, hmem⟩ := (Lib.mem_collect hsent).mp ht
    obtain ⟨out', hout', hlinks, -, -⟩ := hround i (List.mem_range.mp hi)
    obtain rfl := Except.ok.inj (hout'.symm.trans hout)
    exact (hlinks t hmem).2

/-! ### What the messages leave of it -/

theorem keep (h : Complete c) (hkeeps : KeepsWiring c d) : Complete d := by
  have hlive : ∀ l, d.LiveLink l ↔ c.LiveLink l := by
    intro l
    rw [RibConf.LiveLink, RibConf.LiveLink, hkeeps.linkSize, hkeeps.link]
  refine ⟨h.toPortRefs.keep hkeeps, fun l hl => ?_, fun l hl htag => ?_, fun l hl => ?_⟩
  · obtain ⟨v, hv, hmem⟩ := h.listed l ((hlive _).mp hl)
    obtain ⟨rif, cif, hd⟩ := hkeeps.vswitch v
    refine ⟨v, ?_, ?_⟩
    · rw [RibConf.LiveVswitch, hkeeps.vswitchSize, hd]
      exact hv
    · rw [hd]
      exact hmem
  · rw [hkeeps.link] at htag ⊢
    obtain ⟨hsize, hvlan, -⟩ := hkeeps.port (c.vswitchLink l.toNat).portId.toNat
    rw [PortConf.vlans, hsize, hvlan]
    exact h.vlan l ((hlive _).mp hl) htag
  · rw [hkeeps.link]
    exact h.fits l ((hlive _).mp hl)

theorem vswitchNew {vswitchId vlanId : UInt16} {i : Nat} (h : Complete c)
    (hnew : VswitchNew c vswitchId vlanId i d) : Complete d := by
  have hlive : ∀ l, d.LiveLink l → c.LiveLink l := by
    intro l hl
    rw [RibConf.LiveLink, hnew.linkSize, hnew.link] at hl
    exact hl
  refine ⟨h.toPortRefs.vswitchNew hnew, fun l hl => ?_, fun l hl htag => ?_, fun l hl => ?_⟩
  · obtain ⟨v, hv, hmem⟩ := h.listed l (hlive _ hl)
    have hvi : v ≠ i := fun heq => hnew.free (heq ▸ hv)
    have hsize := hnew.size
    have hlt := hv.1
    refine ⟨v, ⟨by omega, ?_⟩, ?_⟩
    · rw [hnew.others v hvi]
      exact hv.2
    · rw [hnew.others v hvi]
      exact hmem
  · rw [hnew.link] at htag ⊢
    rw [hnew.port]
    exact h.vlan l (hlive _ hl) htag
  · rw [hnew.link]
    exact h.fits l (hlive _ hl)

/-- A link is made for which there is room. -/
theorem portSet {msg : InternalMsgVswitchPort} {v l : Nat} (h : Complete c) (hw : Wired c)
    (hset : PortSet c msg v l d) (hrefs : PortRefsKept c (.vswitchPortSet msg))
    (hlimits : WithinLimits c (.vswitchPortSet msg)) : Complete d := by
  have htoNat := Wired.ofNat_toNat (hset.bound hw.linkSize)
  have hdpdk := hrefs v hset.lookup ⟨l, hset.bound hw.linkSize, hset.free⟩
  obtain ⟨hroom, hvlanRoom, hfits⟩ := hlimits v l hset.lookup hset.slot
  have hcases : ∀ x : UInt16, d.LiveLink x.toNat → x = UInt16.ofNat l
      ∨ c.LiveLink x.toNat ∧ d.vswitchLink x.toNat = c.vswitchLink x.toNat := by
    intro x hx
    rcases (hset.liveLink_iff _).mp hx with heq | hold
    · exact .inl (UInt16.toNat_inj.mp (heq.trans htoNat.symm))
    · exact .inr ⟨hold, hset.others _ fun heq => hset.free (heq ▸ hold)⟩
  refine ⟨h.toPortRefs.portSet hw hset hdpdk, fun x hx => ?_, fun x hx htag => ?_, fun x hx => ?_⟩
  · rcases hcases x hx with rfl | ⟨hold, -⟩
    · refine ⟨v, (hset.liveVswitch_iff v).mpr (vswitchLookup_some hset.lookup).1, ?_⟩
      rw [hset.links_eq v, if_pos ⟨rfl, hroom⟩]
      simp
    · obtain ⟨w, hlive, hmem⟩ := h.listed x hold
      refine ⟨w, (hset.liveVswitch_iff w).mpr hlive, ?_⟩
      rw [hset.links_eq w]
      split
      · next hw' => exact List.mem_append_left _ (hw'.1 ▸ hmem)
      · exact hmem
  · rcases hcases x hx with rfl | ⟨hold, hsame⟩
    · rw [htoNat] at htag ⊢
      rw [hset.tag, InternalMsgVswitchPort.tag] at htag
      have htagged : msg.isTagged = true := by
        by_contra hnot
        rw [if_pos (Bool.not_eq_true _ ▸ hnot)] at htag
        exact htag rfl
      rw [hset.portId, hdpdk htagged (hvlanRoom htagged), PortRefs.vlans_set hset,
        if_pos ⟨rfl, htagged, hvlanRoom htagged⟩]
      simp
    · rw [hsame] at htag ⊢
      rw [PortRefs.vlans_set hset]
      split
      · exact List.mem_append_left _ (h.vlan x hold htag)
      · exact h.vlan x hold htag
  · rcases hcases x hx with rfl | ⟨hold, hsame⟩
    · rw [htoNat, hset.tag]
      exact hfits
    · rw [hsame]
      exact h.fits x hold

theorem deleting {i : Nat} {done : List UInt16} (h : Complete c) (hids : PortIds c)
    (hd : Deleting c i done d) : Complete d := by
  refine ⟨h.toPortRefs.deleting hd, fun l hl => ?_, fun l hl htag => ?_, fun l hl => ?_⟩
  all_goals obtain ⟨hold, hnot⟩ := (hd.liveLink_iff l).mp hl
  · obtain ⟨v, hv, hmem⟩ := h.listed l hold
    refine ⟨v, (hd.liveVswitch_iff v).mpr hv, ?_⟩
    rw [(hd.vswitch v).2.2, List.mem_filter]
    exact ⟨hmem, decide_eq_true hnot⟩
  · rw [(hd.link _).2.2] at htag
    rw [(hd.link _).1, hd.vlans _ (hids.link _ hold.1), List.mem_filter]
    exact ⟨h.vlan l hold htag, decide_eq_true hnot⟩
  · rw [(hd.link _).2.2]
    exact h.fits l hold

/-- A vswitch that lists nothing is taken out of use. -/
theorem retire {i : Nat} (h : Complete c) (hempty : (c.vswitch i).links = []) :
    Complete (c.setVswitch i fun v => { v with isDeleted := true }) := by
  refine ⟨⟨h.tagged, h.nodup⟩, fun l hl => ?_, h.vlan, h.fits⟩
  obtain ⟨v, hv, hmem⟩ := h.listed l hl
  have hvi : v ≠ i := by
    intro heq
    rw [heq, hempty] at hmem
    cases hmem
  refine ⟨v, ⟨hv.1, ?_⟩, ?_⟩
  · rw [RibConf.setVswitch_vswitch, if_neg hvi]
    exact hv.2
  · rw [RibConf.setVswitch_vswitch, if_neg hvi]
    exact hmem

/-- **One message that finds what it needs keeps the tables complete.** -/
theorem step {msg : ConfMsg} (h : Complete c) (hw : Wired c) (hids : PortIds c)
    (hstep : WiringStep c msg d) (hkept : RepeaterKept c msg) : Complete d := by
  cases hstep with
  | other hmsg hkeeps => exact h.keep hkeeps
  | vswitchKept => exact h
  | vswitchNew hfresh hnew => exact h.vswitchNew hnew
  | vswitchAbsent => exact h
  | @vswitchDeleted msg i c₁ c₂ hlookup hkeeps hlinks =>
    have hat := deleteLinks h.toPortRefs hw (hkept.1 i hlookup) hkeeps hlinks
    refine (h.deleting hids hat.deleting).retire ?_
    rw [(hat.deleting.vswitch i).2.2, List.filter_eq_nil_iff]
    intro l hl
    simpa using hl
  | linkKept => exact h
  | linkSet hset => exact h.portSet hw hset hkept.1 hkept.2
  | linkAbsent => exact h
  | @linkDeleted msg v l i d hlookup hlink hdel =>
    obtain ⟨hlive, hid, -⟩ := vswitchLinkLookup_some hlink
    have hhead := hkept.1 v l hlookup hlink
    exact h.deleting hids (h.toPortRefs.deleting_one hw hlive hid hdel hhead)

end Complete

theorem Bare.complete {c : RibConf} (h : Bare c) : Complete c :=
  ⟨h.portRefs, fun _ hl => absurd hl (h.not_live _).2, fun _ hl => absurd hl (h.not_live _).2,
    fun _ hl => absurd hl (h.not_live _).2⟩

theorem complete_confStep {s t : RibState} {event : Env × ConfMsg} (hw : Wired s.conf)
    (hids : PortIds s.conf) (h : Complete s.conf) (hstep : ConfStep s event t)
    (hkept : RepeaterKept s.conf event.2) : Complete t.conf := by
  have hstart : Complete s.conf.next := ⟨⟨h.tagged, h.nodup⟩, h.listed, h.vlan, h.fits⟩
  have hkept' : RepeaterKept s.conf.next event.2 := by
    revert hkept
    cases event.2 <;> exact id
  have hids' : PortIds s.conf.next := ⟨hids.port, hids.link⟩
  exact hstart.step (wired_next hw) hids' (wiringStep_of_ok hw hstep) hkept'

/-- **When the repeater repeats.** Every message of the run finds what it needs: then in every
    state of the run, and for every frame, each link that is to get a copy gets one. -/
theorem repeats_of_kept {events : List (Env × ConfMsg)}
    (h : Lib.Stepwise ConfStep .init (fun s event => RepeaterKept s.conf event.2) events)
    {dpdk : Dpdk} (hdoc : dpdk.Documented) :
    Lib.Throughout ConfStep .init (fun s => ∀ p m, Repeats dpdk s.conf p m) events := by
  have hinv : ∀ (s : RibState) (event : Env × ConfMsg) (t : RibState),
      Wired s.conf ∧ PortIds s.conf → ConfStep s event t → Wired t.conf ∧ PortIds t.conf :=
    fun _ _ _ hs hstep => ⟨wired_confStep hs.1 hstep, portIds_confStep hs.1 hs.2 hstep⟩
  have hguard : ∀ (s : RibState) (event : Env × ConfMsg) (t : RibState),
      Wired s.conf ∧ PortIds s.conf → Complete s.conf → ConfStep s event t →
      RepeaterKept s.conf event.2 → Complete t.conf :=
    fun _ _ _ hs => complete_confStep hs.1 hs.2
  have hinit : Wired RibState.init.conf ∧ PortIds RibState.init.conf := ⟨.zero, .zero⟩
  have hcomplete := Lib.throughout_of_stepwise (fun s : RibState => Wired s.conf ∧ PortIds s.conf)
    hinit hinv Bare.zero.complete hguard h
  intro pre s hpre hrun p m
  obtain ⟨hw, hids⟩ := hrun.invariant (fun s : RibState => Wired s.conf ∧ PortIds s.conf) hinit hinv
  exact (hcomplete pre s hpre hrun).repeats hw hids hdoc p m

instance (c : RibConf) (i : Nat) : Decidable (c.HeadWhenDeleted i) :=
  inferInstanceAs (Decidable (∀ l ∈ (c.vswitch i).links,
    (c.vswitchLink l.toNat).portId.toNat < MAX_ETH_PORTS →
    (c.port (c.vswitchLink l.toNat).portId.toNat).vswitchLinkIdOfNativeVlan = l →
    l ∈ (c.port (c.vswitchLink l.toNat).portId.toNat).vlans →
    ∀ x ∈ (c.port (c.vswitchLink l.toNat).portId.toNat).vlans.takeWhile (· ≠ l),
      x ∈ (c.vswitch i).links.takeWhile (· ≠ l)))

instance (c : RibConf) : ∀ msg : ConfMsg, Decidable (PortRefsKept c msg)
  | .vswitchPortSet msg =>
    inferInstanceAs (Decidable (∀ v ∈ vswitchLookup c msg.vswitchId,
      (∃ l < MAX_VSWITCH_LINK, ¬ c.LiveLink l) →
      msg.isTagged = true → (c.port msg.portId.toNat).vlanSize.toNat < MAX_VLAN_PER_PORT →
      (c.port msg.portId.toNat).dpdkPortId = msg.portId))
  | .vswitchPortNoSet msg =>
    decidable_of_iff (∀ v ∈ vswitchLookup c msg.vswitchId,
        ∀ l ∈ vswitchLinkLookup c v msg.portId.toNat,
        (c.port (c.vswitchLink l).portId.toNat).vswitchLinkIdOfNativeVlan = UInt16.ofNat l →
        UInt16.ofNat l ∈ (c.port (c.vswitchLink l).portId.toNat).vlans →
        (c.port (c.vswitchLink l).portId.toNat).vlans.head? = some (UInt16.ofNat l))
      ⟨fun h v l hv hl => h v hv l hl, fun h v hv l hl => h v l hv hl⟩
  | .vswitchNoSet msg =>
    inferInstanceAs
      (Decidable (∀ i ∈ vswitchLookup c msg.vswitchId, c.HeadWhenDeleted i))
  | .portStatus | .qconf _ | .txrxDesc _ | .neighEntryAdd _ | .neighEntryDel _ | .vswitchSet _
  | .routerIfSet _ | .routerIfNoSet _ | .captureIfSet _ | .captureIfNoSet _ | .fdbEntryAdd _
  | .applicationSlot _ | .macAddrAdd _ | .macAddrDel _ | .ipAddrAdd _ | .ipAddrDel _
  | .srv6LocalSid _ => instDecidableTrue

instance (c : RibConf) : ∀ msg : ConfMsg, Decidable (WithinLimits c msg)
  | .vswitchPortSet msg =>
    decidable_of_iff (∀ v ∈ vswitchLookup c msg.vswitchId, ∀ _l ∈ freeLink c,
        (c.vswitch v).vswitchPortSize.toNat < MAX_VSWITCH_PORTS
          ∧ (msg.isTagged = true → (c.port msg.portId.toNat).vlanSize.toNat < MAX_VLAN_PER_PORT)
          ∧ (msg.tag (c.vswitch v).vlanId).toNat < 4096)
      ⟨fun h v l hv hl => h v hv l hl, fun h v hv l hl => h v l hv hl⟩
  | .portStatus | .qconf _ | .txrxDesc _ | .neighEntryAdd _ | .neighEntryDel _ | .vswitchSet _
  | .vswitchNoSet _ | .vswitchPortNoSet _ | .routerIfSet _ | .routerIfNoSet _ | .captureIfSet _
  | .captureIfNoSet _ | .fdbEntryAdd _ | .applicationSlot _ | .macAddrAdd _ | .macAddrDel _
  | .ipAddrAdd _ | .ipAddrDel _ | .srv6LocalSid _ => instDecidableTrue

instance (c : RibConf) (msg : ConfMsg) : Decidable (RepeaterKept c msg) :=
  inferInstanceAs (Decidable (_ ∧ _))

/-- Two tagged links of a vswitch, on two ports. -/
theorem repeats_of_kept_two_links : Lib.Throughout ConfStep .init
    (fun s => ∀ p m, Repeats (.plain 2) s.conf p m)
    ([.portStatus, .vswitchSet ⟨1, 10⟩, .vswitchPortSet ⟨1, 0, 0, true⟩,
      .vswitchPortSet ⟨1, 1, 0, true⟩].map (Env.ports 2, ·)) :=
  repeats_of_kept (stepwise_of_confRun RepeaterKept (by decide +kernel)) (Dpdk.plain_documented 2)

/-- A frame of vlan 20. -/
def vlan20 : Mbuf := .ofList [2, 0, 0, 0, 0, 2, 2, 0, 0, 0, 0, 1, 0x81, 0, 0, 20, 0x08, 0]

/-- The first link that is made is the one that the native fields name. It is deleted, and its
    number is given to a link of port 1, behind another one. When that is deleted the port keeps
    it on its list, and the number is given to a link of port 2. -/
def renumbered : List ConfMsg :=
  [.portStatus, .vswitchSet ⟨1, 10⟩, .vswitchSet ⟨2, 20⟩, .vswitchPortSet ⟨1, 0, 0, true⟩,
    .vswitchPortSet ⟨1, 1, 0, true⟩, .vswitchPortNoSet ⟨1, 0, 0, true⟩,
    .vswitchPortSet ⟨2, 1, 0, true⟩, .vswitchPortNoSet ⟨2, 1, 0, true⟩,
    .vswitchPortSet ⟨2, 2, 0, true⟩, .vswitchPortSet ⟨2, 1, 0, true⟩]

/-- A frame that comes in on port 1 after that is taken for one of that link. Port 2 gets
    nothing. -/
theorem repeater_loses_copies : ¬ ∀ (events : List (Env × ConfMsg)) (dpdk : Dpdk),
    dpdk.Documented →
    Lib.Stepwise ConfStep .init (fun s event => WithinLimits s.conf event.2) events →
    Lib.Throughout ConfStep .init (fun s => ∀ p < MAX_ETH_PORTS, ∀ m, Repeats dpdk s.conf p m)
      events := by
  intro hall
  obtain ⟨s, hrun, hfacts⟩ := exists_run (Env.ports_allocs 3)
    (show (confRun (.ports 3) renumbered .zero).map (fun c =>
          ((repeaterProcessRxPacket (.plain 3) c 1 vlan20).map fun out => out.sent.map Tx.link,
            [c.vswitchLinkSize.toNat, c.vswitchSize.toNat, (c.vswitch 1).isDeleted.toNat,
              (c.port 2).isStopped.toNat],
            (c.vswitch 1).links,
            (List.range 3).map fun l => [(c.vswitchLink l).portId.toNat,
              (c.vswitchLink l).vswitchId.toNat, (c.vswitchLink l).tagId.toNat,
              (c.vswitchLink l).isDeleted.toNat]))
        = some (.ok [], [3, 2, 0, 0], [0, 2], [[2, 2, 20, 0], [1, 1, 10, 0], [1, 2, 20, 0]])
      by decide +kernel)
  obtain ⟨hsent, hrest⟩ := Prod.mk.inj hfacts
  obtain ⟨hsizes, hrest⟩ := Prod.mk.inj hrest
  obtain ⟨hlist, hlinks⟩ := Prod.mk.inj hrest
  simp only [List.range_succ, List.range_zero, List.nil_append, List.cons_append, List.map_cons,
    List.map_nil, List.cons.injEq, and_true, Bool.toNat_eq_zero] at hsizes hlinks
  obtain ⟨hsize, hvswitches, hvswitch, hrunning⟩ := hsizes
  obtain ⟨⟨hport₀, hid₀, htag₀, hlive₀⟩, ⟨hport₁, -, htag₁, -⟩, hport₂, hid₂, htag₂, hlive₂⟩ :=
    hlinks
  have hmatches : Matches s.conf 1 vlan20 2 := by
    refine ⟨⟨by decide, by decide⟩, ⟨by omega, hlive₂⟩, hport₂, UInt16.toNat_inj.mp htag₂, ?_, ?_⟩
    · intro hzero
      rw [hzero] at htag₂
      cases htag₂
    · intro l hl hport htag
      have htag' : (s.conf.vswitchLink l).tagId.toNat = 20 := congrArg UInt16.toNat htag
      have hlt := hl.1
      rw [hsize] at hlt
      interval_cases l
      · cases hport₀.symm.trans hport
      · cases htag₁.symm.trans htag'
      · rfl
  have hgets : Gets (.plain 3) s.conf 1 vlan20 2 0 := by
    refine ⟨⟨by omega, hlive₀⟩, UInt16.toNat_inj.mp (hid₀.trans hid₂.symm), by decide, ?_, ?_, ?_,
      1, 0, ⟨by omega, hvswitch⟩, ?_, rfl⟩
    · rw [hport₀]
      decide
    · rw [hport₀]
      exact ⟨by decide, rfl, rfl⟩
    · rw [hport₀]
      exact hrunning
    · rw [hlist]
      rfl
  have hlimits := @stepwise_of_confRun (.ports 3) WithinLimits _ renumbered .init (by decide +kernel)
  obtain ⟨out, hout, -, hlink, -⟩ := hall _ _ (Dpdk.plain_documented 3) hlimits _ s
    (List.prefix_refl _) hrun 1 (by decide) vlan20 2 hmatches
  rw [hout] at hsent
  have hnone : out.sent.map Tx.link = [] := Except.ok.inj hsent
  have hmem := (hlink 0).mpr hgets
  rw [hnone] at hmem
  cases hmem

end SdPlane
