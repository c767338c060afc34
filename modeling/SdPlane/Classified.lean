import SdPlane.Ingress
import SdPlane.PortRefs

/-!
# Ingress classification (`router.c`, `enhanced_repeater.c`)

A frame is to be assigned to a link of the port that it comes in on: to the native link that was
configured there if it is untagged, to a link with its tag if it is tagged. The lists of tagged
links are good enough for that, as long as `PortRefs` holds of them. The native field is not.

What marks a port without a native link is `65535`, which is not the number of a link; and that
mark is written in one place only, when a native link is deleted and the port has tagged ones.
A configuration starts with `0` in the native fields. So the first link that is made, whoever it
is made for, is the native link of every port that has none; and a native link that is deleted
from a port without tagged links goes on receiving. `ClassifiedKept` says when a message has no
such effect on the frames of `n` ports. If there is more than one, then it is the case as long as
no link is made, and no longer (`classified_iff_no_link`).
-/

set_option autoImplicit false

namespace SdPlane

/-! ## The configured native links -/

/-- The native link that a message makes for a port. -/
def nativeSet (c : RibConf) (msg : ConfMsg) (p : Nat) : Option UInt16 :=
  match msg with
  | .vswitchPortSet msg =>
    if msg.isTagged = false ∧ p = msg.portId.toNat then
      (vswitchLookup c msg.vswitchId).bind fun _ => (freeLink c).map UInt16.ofNat
    else none
  | _ => none

/-- What is configured after a message: what it makes, and what was there and still is. -/
def nativeAfter (c : RibConf) (native : Nat → Option UInt16) (msg : ConfMsg) (d : RibConf) :
    Nat → Option UInt16 := fun p =>
  match nativeSet c msg p with
  | some l => some l
  | none => (native p).filter fun l => decide (d.LiveLink l.toNat)

/-- The manager, and the native links that the ports were given. -/
structure Wires where
  rib : RibState
  native : Nat → Option UInt16

def WiresStep (s : Wires) (event : Env × ConfMsg) (t : Wires) : Prop :=
  ConfStep s.rib event t.rib ∧ t.native = nativeAfter s.rib.conf s.native event.2 t.rib.conf

/-! ## The property -/

/-- A link that a frame may be assigned to. -/
structure Belongs (s : Wires) (p : Nat) (m : Mbuf) (l : Nat) : Prop where
  live : s.rib.conf.LiveLink l
  port : (s.rib.conf.vswitchLink l).portId.toNat = p
  tag : if m.etherType = RTE_ETHER_TYPE_VLAN then (s.rib.conf.vswitchLink l).tagId = m.vlanId
    else s.native p = some (UInt16.ofNat l)

/-- There are `n` ports. Every frame that comes in on one is assigned to a link that it belongs to,
    or to no vswitch at all. -/
def Classified (n : Nat) (s : Wires) : Prop :=
  ∀ p < n, p < MAX_ETH_PORTS → ∀ m,
    (∀ l, rxLink s.rib.conf p m = .ok (some l) → Belongs s p m l)
      ∧ ((∀ l, ¬ Belongs s p m l) → classify s.rib.conf p m = .ok none)

/-- What a message has to find, for the frames of `n` ports. -/
def ClassifiedKept (n : Nat) (c : RibConf) : ConfMsg → Prop
  | .vswitchPortSet msg => ∀ v l, vswitchLookup c msg.vswitchId = some v →
      freeLink c = some l →
      ((msg.isTagged = true → (c.port msg.portId.toNat).vlanSize.toNat < MAX_VLAN_PER_PORT) →
          (c.port msg.portId.toNat).dpdkPortId = msg.portId)
        ∧ (∀ q < MAX_ETH_PORTS, q < n → q ≠ msg.portId.toNat →
            (c.port q).vswitchLinkIdOfNativeVlan ≠ UInt16.ofNat l)
        ∧ (msg.isTagged = true →
            (c.port msg.portId.toNat).vswitchLinkIdOfNativeVlan ≠ UInt16.ofNat l)
  | .vswitchPortNoSet msg => ∀ v l, vswitchLookup c msg.vswitchId = some v →
      vswitchLinkLookup c v msg.portId.toNat = some l →
      (c.vswitchLink l).portId.toNat < n →
      (c.port (c.vswitchLink l).portId.toNat).vswitchLinkIdOfNativeVlan = UInt16.ofNat l →
      0 < (c.port (c.vswitchLink l).portId.toNat).vlanSize.toNat
  | .vswitchNoSet msg => ∀ i, vswitchLookup c msg.vswitchId = some i →
      ∀ l ∈ (c.vswitch i).links, (c.vswitchLink l.toNat).portId.toNat < n →
        (c.port (c.vswitchLink l.toNat).portId.toNat).vswitchLinkIdOfNativeVlan = l →
        c.Outlived i (c.vswitchLink l.toNat).portId.toNat
  | _ => True

/-! ## The invariant -/

/-- A native field of one of the `n` ports that names a link at all names the configured one. -/
structure NativeRefs (n : Nat) (c : RibConf) (native : Nat → Option UInt16) : Prop
    extends PortRefs c where
  live : ∀ q < n, q < MAX_ETH_PORTS →
    (c.port q).vswitchLinkIdOfNativeVlan.toNat < c.vswitchLinkSize.toNat →
    c.LiveLink (c.port q).vswitchLinkIdOfNativeVlan.toNat
      ∧ (c.vswitchLink (c.port q).vswitchLinkIdOfNativeVlan.toNat).portId.toNat = q
      ∧ native q = some (c.port q).vswitchLinkIdOfNativeVlan
  untagged : ∀ q < MAX_ETH_PORTS, (c.port q).vswitchLinkIdOfNativeVlan ∉ (c.port q).vlans

variable {n : Nat} {c d : RibConf} {native : Nat → Option UInt16}

theorem nativeAfter_of_live {msg : ConfMsg} {p : Nat} {l : UInt16} (hset : nativeSet c msg p = none)
    (hold : native p = some l) (hlive : d.LiveLink l.toNat) :
    nativeAfter c native msg d p = some l := by
  simp [nativeAfter, hset, hold, hlive]

theorem nativeSet_next (c : RibConf) (msg : ConfMsg) (p : Nat) :
    nativeSet c.next msg p = nativeSet c msg p := by
  cases msg <;> rfl

theorem nativeSet_of_other {msg : ConfMsg} (h : msg.isVswitch = false) (p : Nat) :
    nativeSet c msg p = none := by
  cases msg with
  | vswitchPortSet _ => cases h
  | _ => rfl

theorem nativeSet_of_kept {msg : InternalMsgVswitchPort}
    (h : ∀ v, vswitchLookup c msg.vswitchId = some v → vswitchLinkNew c v msg.portId.toNat = none)
    (p : Nat) : nativeSet c (.vswitchPortSet msg) p = none := by
  dsimp only [nativeSet]
  cases hlookup : vswitchLookup c msg.vswitchId with
  | none => simp
  | some v => simp [freeLink_eq c v msg.portId.toNat, h v hlookup]

namespace NativeRefs

/-- A link that is in use is the native link of its own port only. -/
theorem own (h : NativeRefs n c native) {q : Nat} (hn : q < n) (hq : q < MAX_ETH_PORTS) {l : UInt16}
    (hl : c.LiveLink l.toNat) (hnative : (c.port q).vswitchLinkIdOfNativeVlan = l) :
    (c.vswitchLink l.toNat).portId.toNat = q := by
  have hown := (h.live q hn hq (by rw [hnative]; exact hl.1)).2.1
  rwa [hnative] at hown

theorem headWhenDeleted (h : NativeRefs n c native) (i : Nat) : c.HeadWhenDeleted i := by
  intro l hl hport hnative hmem
  have hnot := h.untagged _ hport
  rw [hnative] at hnot
  exact absurd hmem hnot

theorem keep {msg : ConfMsg} (h : NativeRefs n c native) (hkeeps : KeepsWiring c d)
    (hset : ∀ p, nativeSet c msg p = none) : NativeRefs n d (nativeAfter c native msg d) := by
  refine ⟨h.toPortRefs.keep hkeeps, fun q hn hq hlt => ?_, fun q hq => ?_⟩
  · rw [(hkeeps.port q).2.2] at hlt ⊢
    rw [hkeeps.linkSize] at hlt
    obtain ⟨hlive, hport, hold⟩ := h.live q hn hq hlt
    have hlive' : d.LiveLink (c.port q).vswitchLinkIdOfNativeVlan.toNat := by
      rw [RibConf.LiveLink, hkeeps.linkSize, hkeeps.link]
      exact hlive
    rw [hkeeps.link]
    exact ⟨hlive', hport, nativeAfter_of_live (hset q) hold hlive'⟩
  · rw [(hkeeps.port q).2.2, PortConf.vlans, (hkeeps.port q).1, (hkeeps.port q).2.1]
    exact h.untagged q hq

theorem vswitchNew {vswitchId vlanId : UInt16} {i : Nat} {msg : ConfMsg}
    (h : NativeRefs n c native) (hnew : VswitchNew c vswitchId vlanId i d)
    (hset : ∀ p, nativeSet c msg p = none) : NativeRefs n d (nativeAfter c native msg d) := by
  refine ⟨h.toPortRefs.vswitchNew hnew, fun q hn hq hlt => ?_, fun q hq => ?_⟩
  · rw [hnew.port] at hlt ⊢
    rw [hnew.linkSize] at hlt
    obtain ⟨hlive, hport, hold⟩ := h.live q hn hq hlt
    have hlive' : d.LiveLink (c.port q).vswitchLinkIdOfNativeVlan.toNat := by
      rw [RibConf.LiveLink, hnew.linkSize, hnew.link]
      exact hlive
    rw [hnew.link]
    exact ⟨hlive', hport, nativeAfter_of_live (hset q) hold hlive'⟩
  · rw [hnew.port]
    exact h.untagged q hq

/-- Links are deleted. The native fields that named them are cleared, or name something else. -/
theorem deleting {i : Nat} {done : List UInt16} {msg : ConfMsg} (h : NativeRefs n c native)
    (hd : Deleting c i done d) (hset : ∀ p, nativeSet c msg p = none)
    (hcleared : ∀ q < n, q < MAX_ETH_PORTS → (c.port q).vswitchLinkIdOfNativeVlan.toNat
        < c.vswitchLinkSize.toNat → (c.port q).vswitchLinkIdOfNativeVlan ∈ done →
      (d.port q).vswitchLinkIdOfNativeVlan = NATIVE_UNSET) :
    NativeRefs n d (nativeAfter c native msg d) := by
  have hunset : ∀ {n : UInt8}, ¬ NATIVE_UNSET.toNat < n.toNat := by
    intro n hlt
    have hn := n.toNat_lt
    rw [show NATIVE_UNSET.toNat = 65535 from rfl] at hlt
    omega
  refine ⟨h.toPortRefs.deleting hd, fun q hn hq hlt => ?_, fun q hq hmem => ?_⟩
  · rcases hd.native q hq with hsame | ⟨hgone, -⟩
    · rw [hsame] at hlt ⊢
      rw [hd.linkSize] at hlt
      obtain ⟨hlive, hport, hold⟩ := h.live q hn hq hlt
      have hnot : (c.port q).vswitchLinkIdOfNativeVlan ∉ done := by
        intro hmem
        have hgone := hcleared q hn hq hlt hmem
        rw [← hsame, hgone] at hlt
        exact hunset hlt
      have hlive' := (hd.liveLink_iff _).mpr ⟨hlive, hnot⟩
      rw [(hd.link _).1]
      exact ⟨hlive', hport, nativeAfter_of_live (hset q) hold hlive'⟩
    · rw [hgone] at hlt
      exact absurd hlt hunset
  · rw [hd.vlans q hq] at hmem
    have hmem := (List.mem_filter.mp hmem).1
    rcases hd.native q hq with hsame | ⟨hgone, -⟩
    · exact h.untagged q hq (hsame ▸ hmem)
    · have hlive := (h.tagged q hq _ hmem).1
      rw [hgone] at hlive
      exact hunset hlive.1

/-- A link is made. It must not be the one that a native field happens to name. -/
theorem portSet {msg : InternalMsgVswitchPort} {v l : Nat} (h : NativeRefs n c native) (hw : Wired c)
    (hset : PortSet c msg v l d)
    (hdpdk : (msg.isTagged = true →
        (c.port msg.portId.toNat).vlanSize.toNat < MAX_VLAN_PER_PORT) →
      (c.port msg.portId.toNat).dpdkPortId = msg.portId)
    (hfree : ∀ q < MAX_ETH_PORTS, q < n → q ≠ msg.portId.toNat →
      (c.port q).vswitchLinkIdOfNativeVlan ≠ UInt16.ofNat l)
    (hown : msg.isTagged = true →
      (c.port msg.portId.toNat).vswitchLinkIdOfNativeVlan ≠ UInt16.ofNat l) :
    NativeRefs n d (nativeAfter c native (.vswitchPortSet msg) d) := by
  have htoNat := Wired.ofNat_toNat (hset.bound hw.linkSize)
  have hsame : ∀ q, msg.isTagged = true ∨ q ≠ msg.portId.toNat →
      (d.port q).vswitchLinkIdOfNativeVlan = (c.port q).vswitchLinkIdOfNativeVlan := by
    intro q hq
    rw [hset.port_apply q]
    split
    · next hown =>
      have htagged : msg.isTagged = true := hq.resolve_right fun hne => hne hown
      simp only [InternalMsgVswitchPort.set, htagged, PortConf.tagged]
      split
      · next hfalse => cases hfalse
      · split <;> rfl
    · rfl
  have hnew : msg.isTagged = false → (d.port msg.portId.toNat).vswitchLinkIdOfNativeVlan
      = UInt16.ofNat l := by
    intro htagged
    rw [hset.port_apply, if_pos rfl, InternalMsgVswitchPort.set, if_pos htagged]
  refine ⟨h.toPortRefs.portSet hw hset fun _ hroom => hdpdk fun _ => hroom, fun q hn hq hlt => ?_,
    fun q hq hmem => ?_⟩
  · by_cases hq' : msg.isTagged = true ∨ q ≠ msg.portId.toNat
    · rw [hsame q hq'] at hlt ⊢
      have hne : (c.port q).vswitchLinkIdOfNativeVlan ≠ UInt16.ofNat l := by
        by_cases hport : q = msg.portId.toNat
        · subst hport
          exact hown (hq'.resolve_right fun hne => hne rfl)
        · exact hfree q hq hn hport
      have hne' : (c.port q).vswitchLinkIdOfNativeVlan.toNat ≠ l := fun heq =>
        hne (UInt16.toNat_inj.mp (heq.trans htoNat.symm))
      have hsize := hset.size
      have hle := hset.le
      obtain ⟨hlive, hport, hold⟩ := h.live q hn hq (by omega)
      have hlive' := (hset.liveLink_iff _).mpr (.inr hlive)
      rw [hset.others _ hne']
      refine ⟨hlive', hport, nativeAfter_of_live ?_ hold hlive'⟩
      rw [nativeSet, if_neg]
      intro hboth
      rcases hq' with htagged | hother
      · cases htagged.symm.trans hboth.1
      · exact hother hboth.2
    · obtain ⟨htagged, hsame⟩ := not_or.mp hq'
      obtain rfl := not_not.mp hsame
      have htagged := Bool.not_eq_true _ ▸ htagged
      rw [hnew htagged, htoNat, hset.portId, hdpdk fun h => by cases htagged.symm.trans h]
      refine ⟨(hset.liveLink_iff l).mpr (.inl rfl), rfl, ?_⟩
      simp [nativeAfter, nativeSet, htagged, hset.lookup, hset.slot]
  · rw [PortRefs.vlans_set hset q] at hmem
    by_cases hq' : msg.isTagged = true ∨ q ≠ msg.portId.toNat
    · rw [hsame q hq'] at hmem
      split at hmem
      · next hall =>
        obtain ⟨rfl, htagged, -⟩ := hall
        rcases List.mem_append.mp hmem with hmem | hmem
        · exact h.untagged _ hq hmem
        · exact hown htagged (List.mem_singleton.mp hmem)
      · exact h.untagged q hq hmem
    · obtain ⟨htagged, hsame⟩ := not_or.mp hq'
      obtain rfl := not_not.mp hsame
      rw [if_neg fun hall => htagged hall.2.1, hnew (Bool.not_eq_true _ ▸ htagged)] at hmem
      have hlive := (h.tagged _ hq _ hmem).1
      rw [htoNat] at hlive
      exact hset.free hlive

/-- **One message that finds what it needs keeps the native fields right.** -/
theorem step {msg : ConfMsg} (h : NativeRefs n c native) (hw : Wired c)
    (hstep : WiringStep c msg d) (hkept : ClassifiedKept n c msg) :
    NativeRefs n d (nativeAfter c native msg d) := by
  cases hstep with
  | other hmsg hkeeps => exact h.keep hkeeps (nativeSet_of_other hmsg)
  | vswitchKept => exact h.keep (.refl c) fun _ => rfl
  | vswitchNew hfresh hnew => exact h.vswitchNew hnew fun _ => rfl
  | vswitchAbsent => exact h.keep (.refl c) fun _ => rfl
  | @vswitchDeleted msg i c₁ c₂ hlookup hkeeps hlinks =>
    have hat := deleteLinks h.toPortRefs hw (h.headWhenDeleted _) hkeeps hlinks
    have hdone : NativeRefs n c₂ (nativeAfter c native (.vswitchNoSet msg) c₂) := by
      refine h.deleting hat.deleting (fun _ => rfl) fun q hn hq hlt hmem => ?_
      have hown := (h.live q hn hq hlt).2.1
      rw [hat.native q hq hmem hown (h.untagged q hq)]
      have hout := hkept _ hlookup _ hmem
      rw [hown] at hout
      exact hout hn rfl
    exact ⟨⟨hdone.tagged, hdone.nodup⟩, hdone.live, hdone.untagged⟩
  | linkKept hnone => exact h.keep (.refl c) (nativeSet_of_kept hnone)
  | linkSet hset =>
    obtain ⟨hdpdk, hfree, hown⟩ := hkept _ _ hset.lookup hset.slot
    exact h.portSet hw hset hdpdk hfree hown
  | linkAbsent => exact h.keep (.refl c) fun _ => rfl
  | @linkDeleted msg v l i d hlookup hlink hdel =>
    obtain ⟨hlive, hid, -⟩ := vswitchLinkLookup_some hlink
    have htoNat := Wired.ofNat_toNat (hlive.1.trans_le hw.linkSize)
    have hport := hdel.port_bound
    rw [htoNat] at hport
    have hd := h.toPortRefs.deleting_one hw hlive hid hdel fun hnative hmem =>
      absurd (hnative ▸ hmem) (h.untagged _ hport)
    refine h.deleting hd (fun _ => rfl) fun q hn hq hlt hmem => ?_
    have hnative := List.mem_singleton.mp hmem
    have hown := h.own hn hq (htoNat.symm ▸ hlive) hnative
    rw [htoNat] at hown
    have htagged := hkept v l hlookup hlink (by rw [hown]; exact hn) (by rw [hown]; exact hnative)
    rw [hown] at htagged
    have hstart : Deleting c v [] c := .start (.refl c)
    rw [hstart.native_step hdel q, htoNat, if_pos]
    refine ⟨hown.symm, hnative, fun hnil => ?_, fun hhead => ?_⟩
    · rw [Wired.vlans_eq_nil.mp hnil] at htagged
      exact Nat.lt_irrefl 0 htagged
    · rw [← hnative] at hhead
      exact h.untagged q hq (List.mem_of_head? hhead)

end NativeRefs

/-- Where the native fields are right, so is the classification. -/
theorem classified_of_nativeRefs {s : Wires} (hw : Wired s.rib.conf)
    (h : NativeRefs n s.rib.conf s.native) : Classified n s := by
  intro p hn hp m
  have hbelongs : ∀ l, rxLink s.rib.conf p m = .ok (some l) → Belongs s p m l := by
    intro l hl
    rw [rxLink_eq hw hp] at hl
    obtain ⟨x, hx, rfl⟩ := Option.map_eq_some_iff.mp (Except.ok.inj hl)
    unfold RibConf.ingress at hx
    split at hx
    · next htype =>
      obtain ⟨hlive, hport⟩ := h.tagged p hp x (List.mem_of_find?_eq_some hx)
      refine ⟨hlive, hport, ?_⟩
      rw [if_pos htype]
      simpa using List.find?_some hx
    · next htype =>
      split at hx
      · next hlt =>
        obtain ⟨hlive, hport, hnative⟩ := h.live p hn hp hlt
        obtain rfl := Option.some.inj hx
        refine ⟨hlive, hport, ?_⟩
        rw [if_neg htype, UInt16.ofNat_toNat]
        exact hnative
      · cases hx
  refine ⟨hbelongs, fun hnone => ?_⟩
  unfold classify
  cases hrx : rxLink s.rib.conf p m with
  | error e => cases (rxLink_eq hw hp m).symm.trans hrx
  | ok rx =>
    cases rx with
    | none => rfl
    | some l => exact absurd (hbelongs l hrx) (hnone l)

theorem nativeRefs_wiresStep {s t : Wires} {event : Env × ConfMsg} (hw : Wired s.rib.conf)
    (h : NativeRefs n s.rib.conf s.native) (hstep : WiresStep s event t)
    (hkept : ClassifiedKept n s.rib.conf event.2) : NativeRefs n t.rib.conf t.native := by
  obtain ⟨hconf, hnative⟩ := hstep
  have hstart : NativeRefs n s.rib.conf.next s.native :=
    ⟨⟨h.tagged, h.nodup⟩, h.live, h.untagged⟩
  have hkept' : ClassifiedKept n s.rib.conf.next event.2 := by
    revert hkept
    cases event.2 <;> exact id
  have hdone := hstart.step (wired_next hw) (wiringStep_of_ok hw hconf) hkept'
  have hafter : nativeAfter s.rib.conf.next s.native event.2 t.rib.conf = t.native := by
    rw [hnative]
    funext p
    simp only [nativeAfter, nativeSet_next]
  rwa [hafter] at hdone

theorem wired_wiresStep (s : Wires) (event : Env × ConfMsg) (t : Wires) (hw : Wired s.rib.conf)
    (hstep : WiresStep s event t) : Wired t.rib.conf :=
  wired_confStep hw hstep.1

/-- The manager at its start. No port has been given a native link. -/
def Wires.init : Wires := ⟨.init, fun _ => none⟩

theorem wired_init : Wired Wires.init.rib.conf := Wired.zero

theorem classified_of_stepwise {events : List (Env × ConfMsg)}
    (h : Lib.Stepwise WiresStep .init (fun s event => ClassifiedKept n s.rib.conf event.2) events) :
    Lib.Throughout WiresStep .init (Classified n) events := by
  have hstart : NativeRefs n Wires.init.rib.conf Wires.init.native := by
    refine ⟨Bare.zero.portRefs, fun q _ _ hlt => ?_, fun q _ hmem => ?_⟩
    · exact absurd hlt (Nat.not_lt_zero _)
    · cases (Bare.zero.vlans_nil q).symm ▸ hmem
  have hguard : ∀ (s : Wires) (event : Env × ConfMsg) (t : Wires), Wired s.rib.conf →
      NativeRefs n s.rib.conf s.native → WiresStep s event t →
      ClassifiedKept n s.rib.conf event.2 → NativeRefs n t.rib.conf t.native :=
    fun _ _ _ => nativeRefs_wiresStep
  have hrefs : Lib.Throughout WiresStep .init
      (fun s => NativeRefs n s.rib.conf s.native) events :=
    Lib.throughout_of_stepwise (fun s : Wires => Wired s.rib.conf) wired_init wired_wiresStep hstart
      hguard h
  intro pre s hpre hrun
  have hw := hrun.invariant (fun s : Wires => Wired s.rib.conf) wired_init wired_wiresStep
  exact classified_of_nativeRefs hw (hrefs pre s hpre hrun)

/-! ## More than one port -/

/-- No link has been made, and the native fields are what they were at the start. -/
structure NoLink (s : Wires) : Prop where
  linkSize : s.rib.conf.vswitchLinkSize.toNat = 0
  field : ∀ q, (s.rib.conf.port q).vswitchLinkIdOfNativeVlan = 0
  native : ∀ q, s.native q = none

theorem classified_of_no_link {s : Wires} (hw : Wired s.rib.conf)
    (h : s.rib.conf.vswitchLinkSize.toNat = 0) : Classified n s := by
  intro p _ hp m
  have hnone : rxLink s.rib.conf p m = .ok none := by
    rw [rxLink_eq hw hp]
    unfold RibConf.ingress
    split
    · rw [List.find?_eq_none.mpr]
      · rfl
      · intro l hl
        have hlt := hw.vlans p l hl
        omega
    · rw [if_neg (by omega)]
      rfl
  refine ⟨fun l hl => ?_, fun _ => ?_⟩
  · rw [hnone] at hl
    cases hl
  · rw [classify, hnone]

/-- As long as there is no link, a message makes the first one or leaves the native fields alone. -/
theorem noLink_wiringStep {msg : ConfMsg} (hw : Wired c) (hsize : c.vswitchLinkSize.toNat = 0)
    (hstep : WiringStep c msg d) :
    (d.vswitchLinkSize.toNat = 0
        ∧ (∀ q, (d.port q).vswitchLinkIdOfNativeVlan = (c.port q).vswitchLinkIdOfNativeVlan)
        ∧ ∀ q, nativeSet c msg q = none)
      ∨ ∃ msg' v l, msg = .vswitchPortSet msg' ∧ PortSet c msg' v l d := by
  have hnot : ∀ l, ¬ c.LiveLink l := by
    intro l hl
    have hlt := hl.1
    omega
  cases hstep with
  | other hmsg hkeeps =>
    exact .inl ⟨by rw [hkeeps.linkSize, hsize], fun q => (hkeeps.port q).2.2,
      nativeSet_of_other hmsg⟩
  | vswitchNew hfresh hnew =>
    exact .inl ⟨by rw [hnew.linkSize, hsize], fun q => by rw [hnew.port], fun _ => rfl⟩
  | @vswitchDeleted msg i c₁ c₂ hlookup hkeeps hlinks =>
    have hnil : (c₁.vswitch i).vswitchPortSize.toNat = 0 := by
      by_contra hne
      have hlt := ((hw.keep hkeeps).listed_at (Nat.pos_of_ne_zero hne)).1
      rw [hkeeps.linkSize] at hlt
      omega
    rw [hnil, vswitchDeleteLinks,
      if_neg fun hpos => absurd (UInt16.lt_iff_toNat_lt.mp hpos) (by simp [hnil])] at hlinks
    obtain rfl := Except.ok.inj hlinks
    exact .inl ⟨hkeeps.linkSize ▸ hsize, fun q => (hkeeps.port q).2.2, fun _ => rfl⟩
  | linkKept hnone => exact .inl ⟨hsize, fun _ => rfl, nativeSet_of_kept hnone⟩
  | linkSet hset => exact .inr ⟨_, _, _, rfl, hset⟩
  | linkDeleted hlookup hlink hdel => exact absurd (vswitchLinkLookup_some hlink).1 (hnot _)
  | _ => exact .inl ⟨hsize, fun _ => rfl, fun _ => rfl⟩

/-- The first link is received on by the ports that it was not made for. -/
theorem not_classified_of_first_link {s t : Wires} {env : Env} {msg : InternalMsgVswitchPort}
    {v l : Nat} (h : NoLink s) (hw : Wired t.rib.conf)
    (hstep : WiresStep s (env, .vswitchPortSet msg) t)
    (hset : PortSet s.rib.conf.next msg v l t.rib.conf) (hn : 2 ≤ n) : ¬ Classified n t := by
  intro hclassified
  obtain ⟨q, hq, hother⟩ : ∃ q < 2, q ≠ msg.portId.toNat := by
    by_cases hzero : msg.portId.toNat = 0
    · exact ⟨1, by decide, by omega⟩
    · exact ⟨0, by decide, by omega⟩
  have hbound : q < MAX_ETH_PORTS := hq.trans_le (by decide)
  have hle : l ≤ s.rib.conf.vswitchLinkSize.toNat := hset.le
  have hsize : t.rib.conf.vswitchLinkSize.toNat
      = max s.rib.conf.vswitchLinkSize.toNat (l + 1) := hset.size
  rw [h.linkSize] at hle hsize
  have hfield : (t.rib.conf.port q).vswitchLinkIdOfNativeVlan = 0 := by
    rw [hset.port_apply, if_neg hother]
    exact h.field q
  have hrx : rxLink t.rib.conf q (.ofList (List.replicate 60 0)) = .ok (some 0) := by
    rw [rxLink_eq hw hbound, RibConf.ingress, if_neg (by decide), hfield,
      if_pos (by rw [hsize]; exact Nat.lt_of_lt_of_le Nat.zero_lt_one (le_max_of_le_right (by omega)))]
    rfl
  have hbelongs := ((hclassified q (hq.trans_le hn) hbound _).1 0 hrx).tag
  rw [if_neg (by decide), hstep.2, nativeAfter, nativeSet, if_neg fun hboth => hother hboth.2,
    h.native q] at hbelongs
  cases hbelongs

theorem noLink_of_classified (hn : 2 ≤ n) {events : List (Env × ConfMsg)} {s : Wires}
    (hrun : Lib.Run WiresStep .init events s)
    (h : Lib.Throughout WiresStep .init (Classified n) events) : NoLink s := by
  induction hrun with
  | nil => exact ⟨rfl, fun _ => rfl, fun _ => rfl⟩
  | @snoc events s t event hrun hstep ih =>
    have hs := ih fun pre u hpre => h pre u (hpre.trans (List.prefix_append _ _))
    have hw := hrun.invariant (fun s : Wires => Wired s.rib.conf) wired_init wired_wiresStep
    have hclassified := h _ t (List.prefix_refl _) (hrun.snoc hstep)
    rcases noLink_wiringStep (wired_next hw) hs.linkSize (wiringStep_of_ok hw hstep.1) with
      ⟨hsize, hfields, hset⟩ | ⟨msg, v, l, hmsg, hset⟩
    · refine ⟨hsize, fun q => (hfields q).trans (hs.field q), fun q => ?_⟩
      rw [hstep.2, nativeAfter, ← nativeSet_next, hset q, hs.native q]
      rfl
    · obtain ⟨env, msg'⟩ := event
      obtain rfl := hmsg
      exact absurd hclassified
        (not_classified_of_first_link hs (wired_wiresStep _ _ _ hw hstep) hstep hset hn)
theorem classified_iff_no_link (hn : 2 ≤ n) (events : List (Env × ConfMsg)) :
    Lib.Throughout WiresStep .init (Classified n) events
      ↔ Lib.Throughout WiresStep .init (fun s => s.rib.conf.vswitchLinkSize.toNat = 0) events := by
  constructor
  · intro h pre s hpre hrun
    exact (noLink_of_classified hn hrun fun pre' u hpre' => h pre' u (hpre'.trans hpre)).linkSize
  · intro h pre s hpre hrun
    have hw := hrun.invariant (fun s : Wires => Wired s.rib.conf) wired_init wired_wiresStep
    exact classified_of_no_link hw (h pre s hpre hrun)

/-! ## Runs -/

/-- **When classification is sound.** Every message of a run finds what it needs: then every frame
    that comes in on one of `n` ports is assigned to a link that it belongs to, or to no vswitch, in
    every state of the run. With more than one port that is so as long as no link has been made,
    and no longer. -/
theorem classified_of_kept (n : Nat) (events : List (Env × ConfMsg)) :
    (Lib.Stepwise WiresStep .init (fun s event => ClassifiedKept n s.rib.conf event.2) events →
        Lib.Throughout WiresStep .init (Classified n) events)
      ∧ (2 ≤ n → (Lib.Throughout WiresStep .init (Classified n) events
        ↔ Lib.Throughout WiresStep .init (fun s => s.rib.conf.vswitchLinkSize.toNat = 0)
            events)) :=
  ⟨classified_of_stepwise, fun hn => classified_iff_no_link hn events⟩

/-- A run of the manager is one of the manager with its native links. -/
theorem exists_wires {s₀ s : RibState} {events : List (Env × ConfMsg)}
    (h : Lib.Run ConfStep s₀ events s) (native : Nat → Option UInt16) :
    ∃ t : Wires, Lib.Run WiresStep ⟨s₀, native⟩ events t ∧ t.rib = s := by
  induction h with
  | nil => exact ⟨_, .nil, rfl⟩
  | @snoc _ _ u event _ last ih =>
    obtain ⟨t, hrun, rfl⟩ := ih
    have hstep : WiresStep t event ⟨u, nativeAfter t.rib.conf t.native event.2 u.conf⟩ := ⟨last, rfl⟩
    exact ⟨_, hrun.snoc hstep, rfl⟩

/-- The manager's part of a run. -/
theorem run_rib {w s : Wires} {events : List (Env × ConfMsg)} (h : Lib.Run WiresStep w events s) :
    Lib.Run ConfStep w.rib events s.rib := by
  induction h with
  | nil => exact .nil
  | snoc _ hstep ih => exact ih.snoc hstep.1

instance (n : Nat) (c : RibConf) : ∀ msg : ConfMsg, Decidable (ClassifiedKept n c msg)
  | .vswitchPortSet msg =>
    decidable_of_iff (∀ v ∈ vswitchLookup c msg.vswitchId, ∀ l ∈ freeLink c,
        ((msg.isTagged = true → (c.port msg.portId.toNat).vlanSize.toNat < MAX_VLAN_PER_PORT) →
            (c.port msg.portId.toNat).dpdkPortId = msg.portId)
          ∧ (∀ q < MAX_ETH_PORTS, q < n → q ≠ msg.portId.toNat →
              (c.port q).vswitchLinkIdOfNativeVlan ≠ UInt16.ofNat l)
          ∧ (msg.isTagged = true →
              (c.port msg.portId.toNat).vswitchLinkIdOfNativeVlan ≠ UInt16.ofNat l))
      ⟨fun h v l hv hl => h v hv l hl, fun h v hv l hl => h v l hv hl⟩
  | .vswitchPortNoSet msg =>
    decidable_of_iff (∀ v ∈ vswitchLookup c msg.vswitchId,
        ∀ l ∈ vswitchLinkLookup c v msg.portId.toNat, (c.vswitchLink l).portId.toNat < n →
        (c.port (c.vswitchLink l).portId.toNat).vswitchLinkIdOfNativeVlan = UInt16.ofNat l →
        0 < (c.port (c.vswitchLink l).portId.toNat).vlanSize.toNat)
      ⟨fun h v l hv hl => h v hv l hl, fun h v hv l hl => h v l hv hl⟩
  | .vswitchNoSet msg =>
    inferInstanceAs (Decidable (∀ i ∈ vswitchLookup c msg.vswitchId,
      ∀ l ∈ (c.vswitch i).links, (c.vswitchLink l.toNat).portId.toNat < n →
        (c.port (c.vswitchLink l.toNat).portId.toNat).vswitchLinkIdOfNativeVlan = l →
        c.Outlived i (c.vswitchLink l.toNat).portId.toNat))
  | .portStatus | .qconf _ | .txrxDesc _ | .neighEntryAdd _ | .neighEntryDel _ | .vswitchSet _
  | .routerIfSet _ | .routerIfNoSet _ | .captureIfSet _ | .captureIfNoSet _ | .fdbEntryAdd _
  | .applicationSlot _ | .macAddrAdd _ | .macAddrDel _ | .ipAddrAdd _ | .ipAddrDel _
  | .srv6LocalSid _ => instDecidableTrue

/-- One port. It gets a native link and a tagged one, and the native link is deleted. -/
def nativeDeleted : List ConfMsg :=
  [.portStatus, .vswitchSet ⟨1, 10⟩, .vswitchSet ⟨2, 20⟩, .vswitchPortSet ⟨1, 0, 0, false⟩,
    .vswitchPortSet ⟨2, 0, 0, true⟩, .vswitchPortNoSet ⟨1, 0, 0, false⟩]

theorem classified_of_kept_one_port : ∃ s,
    Lib.Run WiresStep .init (nativeDeleted.map (Env.ports 1, ·)) s
      ∧ rxLink s.rib.conf 0 (.ofList [2, 0, 0, 0, 0, 2, 2, 0, 0, 0, 0, 1, 0x81, 0, 0, 20, 8, 0])
        = .ok (some 1)
      ∧ rxLink s.rib.conf 0 (.ofList (List.replicate 60 0)) = .ok none
      ∧ Classified 1 s := by
  have hkept := @stepwise_of_confRun (.ports 1) (ClassifiedKept 1) _ nativeDeleted .init
    (by decide +kernel)
  obtain ⟨s, hrun, hfacts⟩ := exists_run (Env.ports_allocs 1)
    (show (confRun (.ports 1) nativeDeleted .zero).map (fun c =>
          (rxLink c 0 (.ofList [2, 0, 0, 0, 0, 2, 2, 0, 0, 0, 0, 1, 0x81, 0, 0, 20, 8, 0]),
            rxLink c 0 (.ofList (List.replicate 60 0))))
        = some (.ok (some 1), .ok none) by decide +kernel)
  obtain ⟨htagged, huntagged⟩ := Prod.mk.inj hfacts
  obtain ⟨t, hrun', rfl⟩ := exists_wires hrun fun _ => none
  refine ⟨t, hrun', htagged, huntagged, (classified_of_kept 1 _).1 ?_ _ t (List.prefix_refl _) hrun'⟩
  exact fun pre event u v hpre hpath hstep =>
    hkept pre event u.rib v.rib hpre (run_rib hpath) hstep.1

/-- A tagged link is made for port 0. It gets the number 0, and an untagged frame on port 1 is
    received on it. -/
theorem first_link_taken_for_native : ¬ ∀ (events : List (Env × ConfMsg)) (s : Wires),
    Lib.Run WiresStep .init events s → Classified 2 s := by
  intro hall
  obtain ⟨s, hrun, hfacts⟩ := exists_run (Env.ports_allocs 2)
    (show (confRun (.ports 2) [.portStatus, .vswitchSet ⟨1, 10⟩, .vswitchPortSet ⟨1, 0, 0, true⟩]
        .zero).map (fun c =>
          (rxLink c 1 (.ofList (List.replicate 60 0)), (c.vswitchLink 0).portId))
        = some (.ok (some 0), 0) by decide +kernel)
  obtain ⟨hrx, hport⟩ := Prod.mk.inj hfacts
  obtain ⟨t, hrun', rfl⟩ := exists_wires hrun fun _ => none
  have hbelongs := (hall _ t hrun' 1 (by decide) (by decide) _).1 0 hrx
  have hone := hbelongs.port
  rw [hport] at hone
  exact absurd hone (by decide)

end SdPlane
