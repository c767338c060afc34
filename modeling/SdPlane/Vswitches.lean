import SdPlane.Handled
import SdPlane.Ingress

/-!
# Vswitches that come and go (`rib_manager.c`)

A deleted vswitch leaves its id behind in its slot, the slots in front of it are used again first,
and the forwarding threads search for an id without a look at `is_deleted`. They find the vswitch
in use all the same (`live_vswitch_found`), since `Wired.first` holds after every message.

`vswitch_delete` takes the links of the vswitch away one after the other. `OthersKept` is what it
leaves alone: the links, the lists and the tagged links of every other vswitch. It comes to its end
in every configuration that messages about vswitches lead to, where no vswitch has an interface
(`NoInterfaces`).
-/

set_option autoImplicit false

namespace SdPlane

/-- **The id of a vswitch in use leads to it**, whether a search looks at `is_deleted` or not. -/
theorem live_vswitch_found {events : List (Env × ConfMsg)} {s : RibState}
    (hrun : Lib.Run ConfStep .init events s) :
    (∀ i j, s.conf.LiveVswitch i → s.conf.LiveVswitch j →
        (s.conf.vswitch i).vswitchId = (s.conf.vswitch j).vswitchId → i = j)
      ∧ ∀ i, s.conf.LiveVswitch i →
        rxVswitch s.conf (s.conf.vswitch i).vswitchId = some i
          ∧ vswitchLookup s.conf (s.conf.vswitch i).vswitchId = some i := by
  have hw : Wired s.conf :=
    hrun.invariant (fun s => Wired s.conf) Wired.zero fun _ _ _ => wired_confStep
  exact ⟨fun i j => hw.live_unique, fun i hi => ⟨rxVswitch_eq hw hi, hw.lookup_eq hi⟩⟩

/-- Two vswitches, of which the first is deleted. The third gets its slot. -/
theorem reused_vswitch_found : ∃ s, Lib.Run ConfStep .init
      ([.vswitchSet ⟨1, 10⟩, .vswitchSet ⟨2, 20⟩, .vswitchPortSet ⟨1, 0, 0, true⟩,
        .vswitchNoSet ⟨1, 10⟩, .vswitchSet ⟨3, 30⟩].map ((.plain, ·) : ConfMsg → Env × ConfMsg)) s
    ∧ s.conf.LiveVswitch 0 ∧ (s.conf.vswitch 0).vswitchId = 3
    ∧ rxVswitch s.conf 3 = some 0 := by
  obtain ⟨s, hrun, hfacts⟩ := @exists_run _ Env.plain_allocs
    [.vswitchSet ⟨1, 10⟩, .vswitchSet ⟨2, 20⟩, .vswitchPortSet ⟨1, 0, 0, true⟩,
      .vswitchNoSet ⟨1, 10⟩, .vswitchSet ⟨3, 30⟩] _
    (fun c => (c.vswitchSize, (c.vswitch 0).isDeleted, (c.vswitch 0).vswitchId)) (2, false, 3)
    (by decide +kernel)
  obtain ⟨hsize, hfacts⟩ := Prod.mk.inj hfacts
  obtain ⟨hdeleted, hid⟩ := Prod.mk.inj hfacts
  have hlive : s.conf.LiveVswitch 0 := ⟨by rw [hsize]; decide, hdeleted⟩
  have hfound := ((live_vswitch_found hrun).2 0 hlive).1
  rw [hid] at hfound
  exact ⟨s, hrun, hlive, hid, hfound⟩

/-! ## Configurations without interfaces -/

/-- No vswitch in use has a router or a capture interface. -/
def NoInterfaces (c : RibConf) : Prop :=
  ∀ kind i, c.LiveVswitch i → (c.vswitch i).sockfd kind < 0

theorem Bare.noInterfaces {c : RibConf} (h : Bare c) : NoInterfaces c :=
  fun _ i hi => absurd hi (h.not_live i).1

namespace NoInterfaces

variable {c d : RibConf}

theorem keep (h : NoInterfaces c) (hkeeps : KeepsIfs c d) : NoInterfaces d := by
  intro kind i hi
  rw [hkeeps.sockfd]
  exact h kind i ⟨hkeeps.size ▸ hi.1, (hkeeps.deleted i).symm.trans hi.2⟩

/-- A new vswitch has no interface. -/
theorem vswitchNew {vswitchId vlanId : UInt16} {i : Nat} (h : NoInterfaces c)
    (hnew : SdPlane.vswitchNew c vswitchId vlanId = some (i, d)) : NoInterfaces d := by
  have hfacts := vswitchNew_some hnew
  have hsockfd : ∀ kind, (d.vswitch i).sockfd kind = -1 := by
    intro kind
    simp only [SdPlane.vswitchNew] at hnew
    split at hnew
    · obtain ⟨rfl, rfl⟩ := Prod.mk.inj (Option.some.inj hnew)
      cases kind <;> simp [VswitchConf.sockfd]
    · split at hnew
      · cases hnew
      · obtain ⟨rfl, rfl⟩ := Prod.mk.inj (Option.some.inj hnew)
        cases kind <;> simp [VswitchConf.sockfd]
  intro kind j hj
  by_cases hji : j = i
  · rw [hji, hsockfd kind]
    decide
  · have hsize := hfacts.size
    have hle := hfacts.le
    have hlt := hj.1
    rw [hfacts.others j hji]
    refine h kind j ⟨by omega, ?_⟩
    rw [← hfacts.others j hji]
    exact hj.2

/-- Without interfaces to delete, `vswitch_delete` is the loop over the links. -/
theorem vswitchDelete_ok {vswitchId : UInt16} {rings rings' : Rings} (h : NoInterfaces c)
    (hdel : vswitchDelete c rings vswitchId = .ok (d, rings')) :
    (vswitchLookup c vswitchId = none ∧ d = c)
      ∨ ∃ i c', vswitchLookup c vswitchId = some i
        ∧ vswitchDeleteLinks i (c.vswitch i).vswitchPortSize.toNat c = .ok c'
        ∧ d = c'.setVswitch i fun v => { v with isDeleted := true } := by
  rcases SdPlane.vswitchDelete_ok hdel with
    ⟨hnone, rfl, -⟩ | ⟨i, c₁, rings₁, c₂, c₃, hi, h₁, h₂, h₃, rfl⟩
  · exact .inl ⟨hnone, rfl⟩
  · have hlive := (vswitchLookup_some hi).1
    have hrouter : ¬ (c.vswitch i).routerIf.sockfd ≥ 0 := Int.not_le.mpr (h .router i hlive)
    rw [if_neg hrouter] at h₁
    obtain ⟨rfl, rfl⟩ := Prod.mk.inj (Except.ok.inj h₁)
    have hcapture : ¬ (c.vswitch i).captureIf.sockfd ≥ 0 := Int.not_le.mpr (h .capture i hlive)
    rw [if_neg hcapture] at h₂
    obtain ⟨rfl, rfl⟩ := Prod.mk.inj (Except.ok.inj h₂)
    exact .inr ⟨i, c₃, hi, h₃, rfl⟩

theorem deleteLinks {i fuel : Nat} (h : NoInterfaces c)
    (hdel : vswitchDeleteLinks i fuel c = .ok d) : NoInterfaces d := by
  refine (vswitchDeleteLinks_rule NoInterfaces h (fun e e' he _ hone => ?_) hdel).1
  obtain ⟨j, hj⟩ := linkDeleted_ok hone
  exact he.keep (.linkDeleted hj)

theorem retire {i : Nat} (h : NoInterfaces c) :
    NoInterfaces (c.setVswitch i fun v => { v with isDeleted := true }) := by
  intro kind j hj
  have hdeleted := hj.2
  rw [RibConf.setVswitch_vswitch] at hdeleted ⊢
  split at hdeleted
  · cases hdeleted
  · next hji =>
    rw [if_neg hji]
    exact h kind j ⟨hj.1, hdeleted⟩

theorem portSet {msg : InternalMsgVswitchPort} (h : NoInterfaces c)
    (hok : c.vswitchPortSet msg = .ok d) : NoInterfaces d := by
  rcases vswitchPortSet_ok hok with ⟨rfl, -⟩ | ⟨v, l, hset⟩
  · exact h
  · exact h.keep (.linkMade hset.toLinkMade)

theorem portNoSet {msg : InternalMsgVswitchPort} (h : NoInterfaces c) (hw : Wired c)
    (hok : c.vswitchPortNoSet msg = .ok d) : NoInterfaces d := by
  rcases vswitchPortNoSet_ok hw hok with ⟨rfl, -⟩ | ⟨v, l, i, -, -, hdel⟩
  · exact h
  · exact h.keep (.linkDeleted hdel)

/-- No message about a vswitch makes an interface. -/
theorem message {env : Env} {old : Option Rib} {rings rings' : Rings} {msg : ConfMsg}
    (h : NoInterfaces c) (hw : Wired c) (hmsg : msg.isVswitch = true)
    (hok : confMessage env old c rings msg = .ok (some (d, rings'))) : NoInterfaces d := by
  cases msg with
  | vswitchSet msg =>
    have hd : c.vswitchSet msg = d := plain_ok hok
    rw [← hd, RibConf.vswitchSet]
    split
    · exact h
    · split
      · next hnew => exact h.vswitchNew hnew
      · exact h
  | vswitchNoSet msg =>
    obtain ⟨⟨c', rings₁⟩, hc', hok⟩ := bind_ok hok
    obtain ⟨rfl, -⟩ := Prod.mk.inj (Option.some.inj (Except.ok.inj hok))
    rcases h.vswitchDelete_ok hc' with ⟨-, rfl⟩ | ⟨i, c₁, -, hlinks, rfl⟩
    · exact h
    · exact (h.deleteLinks hlinks).retire
  | vswitchPortSet msg => exact h.portSet (handler_ok hok)
  | vswitchPortNoSet msg => exact h.portNoSet hw (handler_ok hok)
  | _ => cases hmsg

theorem confStep {s t : RibState} {event : Env × ConfMsg} (h : NoInterfaces s.conf)
    (hw : Wired s.conf) (hmsg : event.2.isVswitch = true) (hstep : ConfStep s event t) :
    NoInterfaces t.conf := by
  have hnext : NoInterfaces s.conf.next := h.keep (.of_eq rfl rfl)
  rcases conf_of_ok hstep with ⟨c, rings, hresult, rfl, -, -⟩ | ⟨hnone, -⟩
  · exact hnext.message (wired_next hw) hmsg hresult
  · cases hmsg.symm.trans (isVswitch_of_none hnone)

theorem of_run {s₀ s : RibState} {events : List (Env × ConfMsg)} (hbare : Bare s₀.conf)
    (hrun : Lib.Run ConfStep s₀ events s) (hevents : ∀ event ∈ events, event.2.isVswitch = true) :
    NoInterfaces s.conf := by
  induction hrun with
  | nil => exact hbare.noInterfaces
  | snoc run last ih =>
    have hw := run.invariant (fun s => Wired s.conf) hbare.wired fun _ _ _ => wired_confStep
    have hbefore := ih fun event hevent => hevents event (List.mem_append_left _ hevent)
    exact hbefore.confStep hw (hevents _ (by simp)) last

end NoInterfaces

/-! ## What a deletion leaves alone -/

/-- The tagged links of a port that are links of this vswitch, in order. -/
def RibConf.vlansOf (c : RibConf) (p : Nat) (vswitchId : UInt16) : List UInt16 :=
  (c.port p).vlans.filter fun l => decide ((c.vswitchLink l.toNat).vswitchId = vswitchId)

/-- What is there of vswitches with another id is the same. -/
structure OthersKept (c : RibConf) (vswitchId : UInt16) (d : RibConf) : Prop where
  vswitchSize : d.vswitchSize = c.vswitchSize
  linkSize : d.vswitchLinkSize = c.vswitchLinkSize
  link : ∀ l, (c.vswitchLink l).vswitchId ≠ vswitchId → d.vswitchLink l = c.vswitchLink l
  vswitch : ∀ i, (c.vswitch i).vswitchId ≠ vswitchId → d.vswitch i = c.vswitch i
  vlans : ∀ p w, w ≠ vswitchId → d.vlansOf p w = c.vlansOf p w

namespace OthersKept

variable {c d e : RibConf} {vswitchId : UInt16}

theorem refl (c : RibConf) (vswitchId : UInt16) : OthersKept c vswitchId c :=
  ⟨rfl, rfl, fun _ _ => rfl, fun _ _ => rfl, fun _ _ _ => rfl⟩

theorem trans (h : OthersKept c vswitchId d) (h' : OthersKept d vswitchId e) :
    OthersKept c vswitchId e := by
  refine ⟨h'.vswitchSize.trans h.vswitchSize, h'.linkSize.trans h.linkSize, fun l hl => ?_,
    fun i hi => ?_, fun p w hw => (h'.vlans p w hw).trans (h.vlans p w hw)⟩
  · have hsame := h.link l hl
    rw [← hsame] at hl
    exact (h'.link l hl).trans hsame
  · have hsame := h.vswitch i hi
    rw [← hsame] at hi
    exact (h'.vswitch i hi).trans hsame

/-- Any link of the vswitch may be deleted. -/
theorem linkDeleted {l : UInt16} {i : Nat} (hdel : LinkDeleted c l i d)
    (hid : (c.vswitchLink l.toNat).vswitchId = vswitchId) : OthersKept c vswitchId d := by
  refine ⟨hdel.vswitchSize, hdel.linkSize, fun x hx => ?_, fun j hj => ?_, fun p w hw => ?_⟩
  · have hne : x ≠ l.toNat := by
      rintro rfl
      exact hx hid
    rw [hdel.link x, if_neg hne, if_neg]
    exact fun hcond => hx (hcond.2.2.trans hid)
  · have hne : j ≠ i := by
      rintro rfl
      exact hj ((vswitchLookup_some hdel.lookup).2.trans hid)
    rw [hdel.vswitch, Function.update_of_ne hne]
  · have hids : ∀ x : UInt16, (d.vswitchLink x.toNat).vswitchId = (c.vswitchLink x.toNat).vswitchId := by
      intro x
      rw [hdel.link x.toNat]
    have hport : (d.port p).vlans = (c.port p).vlans ∨ (d.port p).vlans = (c.port p).vlans.erase l := by
      rw [hdel.port, Function.update_apply]
      split
      · next hp =>
        rw [hp]
        exact Wired.vlans_removed ..
      · exact .inl rfl
    simp only [RibConf.vlansOf, hids]
    rcases hport with hsame | herase
    · rw [hsame]
    · -- the one that is erased is not a link of the other vswitch
      rw [herase, ← List.erase_filter, List.erase_of_not_mem]
      intro hmem
      have hlw := of_decide_eq_true (List.mem_filter.mp hmem).2
      exact hw (hlw.symm.trans hid)

theorem setVswitch {i : Nat} (f : VswitchConf → VswitchConf)
    (hid : (c.vswitch i).vswitchId = vswitchId) : OthersKept c vswitchId (c.setVswitch i f) := by
  refine ⟨rfl, rfl, fun _ _ => rfl, fun j hj => ?_, fun _ _ _ => rfl⟩
  have hne : j ≠ i := by
    rintro rfl
    exact hj hid
  rw [RibConf.setVswitch_vswitch, if_neg hne]

/-- Every round of the loop deletes a link of the vswitch. -/
theorem deleteLinks {i fuel : Nat} (hw : Wired c) (hid : (c.vswitch i).vswitchId = vswitchId)
    (hdel : vswitchDeleteLinks i fuel c = .ok d) :
    OthersKept c vswitchId d ∧ (d.vswitch i).vswitchId = vswitchId := by
  refine (vswitchDeleteLinks_rule
    (fun e => Wired e ∧ OthersKept c vswitchId e ∧ (e.vswitch i).vswitchId = vswitchId)
    ⟨hw, .refl c _, hid⟩ (fun e e' he hsize hone => ?_) hdel).1.2
  obtain ⟨hwe, hkept, hide⟩ := he
  obtain ⟨j, hj⟩ := linkDeleted_ok hone
  have hlisted := hwe.listed_at (UInt16.lt_iff_toNat_lt.mp hsize)
  exact ⟨hwe.linkDeleted hj, hkept.trans (.linkDeleted hj (hlisted.2.trans hide)),
    (hwe.links_deleted hj i).2.1.trans hide⟩

theorem vswitchDelete {rings rings' : Rings} (hw : Wired c) (hno : NoInterfaces c)
    (hdel : vswitchDelete c rings vswitchId = .ok (d, rings')) : OthersKept c vswitchId d := by
  rcases hno.vswitchDelete_ok hdel with ⟨-, rfl⟩ | ⟨i, c', hi, hlinks, rfl⟩
  · exact .refl _ _
  · obtain ⟨hkept, hid⟩ := deleteLinks hw (vswitchLookup_some hi).2 hlinks
    exact hkept.trans (.setVswitch _ hid)

end OthersKept

/-- **A vswitch is deleted without touching another one.** The loop over its links comes to its
    end, and so does the deletion of one link of a vswitch in use. -/
theorem vswitch_delete_local {s₀ s : RibState} {events : List (Env × ConfMsg)}
    (hbare : Bare s₀.conf) (hports : PortIds s₀.conf) (hrun : Lib.Run ConfStep s₀ events s)
    (hevents : ∀ event ∈ events, event.2.isVswitch = true) (vswitchId : UInt16) :
    (∀ rings, ∃ d rings', vswitchDelete s.conf rings vswitchId = .ok (d, rings')
        ∧ OthersKept s.conf vswitchId d)
      ∧ ∀ l : UInt16, s.conf.LiveLink l.toNat →
        (s.conf.vswitchLink l.toNat).vswitchId = vswitchId →
        ((vswitchLookup s.conf vswitchId).isSome → ∃ d, vswitchLinkDelete s.conf l = .ok d)
          ∧ ∀ d, vswitchLinkDelete s.conf l = .ok d → OthersKept s.conf vswitchId d := by
  have hno := NoInterfaces.of_run hbare hrun hevents
  obtain ⟨hw, hp⟩ := hrun.invariant (fun s => Wired s.conf ∧ PortIds s.conf) ⟨hbare.wired, hports⟩
    fun _ _ _ h hstep => ⟨wired_confStep h.1 hstep, portIds_confStep h.1 h.2 hstep⟩
  refine ⟨fun rings => ?_, fun l hl hid => ⟨fun hfound => ?_, fun d hd => ?_⟩⟩
  · obtain ⟨⟨d, rings'⟩, hdel⟩ := exists_vswitchDelete hw hp (fun i hi hif => by
      obtain ⟨kind, hkind⟩ := hif
      exact absurd hkind (Int.not_le.mpr (hno kind i (vswitchLookup_some hi).1))) rings
    exact ⟨d, rings', hdel, .vswitchDelete hw hno hdel⟩
  · obtain ⟨i, hi⟩ := Option.isSome_iff_exists.mp hfound
    obtain ⟨hlive, hi⟩ := vswitchLookup_some hi
    exact hw.exists_linkDelete hp hl.1 hlive (hid.trans hi.symm)
  · obtain ⟨i, hdel⟩ := linkDeleted_ok hd
    exact .linkDeleted hdel hid

/-- Two vswitches with a link each, and the first one is deleted. -/
theorem first_vswitch_deleted : ∃ s, Lib.Run ConfStep .init
      ([.vswitchSet ⟨1, 10⟩, .vswitchSet ⟨2, 20⟩, .vswitchPortSet ⟨1, 0, 0, true⟩,
        .vswitchPortSet ⟨2, 0, 0, true⟩].map ((.plain, ·) : ConfMsg → Env × ConfMsg)) s
    ∧ ∃ d rings', vswitchDelete s.conf s.rings 1 = .ok (d, rings') ∧ OthersKept s.conf 1 d := by
  obtain ⟨s, hrun, -⟩ := @exists_run _ Env.plain_allocs
    [.vswitchSet ⟨1, 10⟩, .vswitchSet ⟨2, 20⟩, .vswitchPortSet ⟨1, 0, 0, true⟩,
      .vswitchPortSet ⟨2, 0, 0, true⟩] _ (fun c => c.vswitchLinkSize) 2 (by decide +kernel)
  have hevents : ∀ event ∈ ([.vswitchSet ⟨1, 10⟩, .vswitchSet ⟨2, 20⟩,
      .vswitchPortSet ⟨1, 0, 0, true⟩, .vswitchPortSet ⟨2, 0, 0, true⟩].map
        ((.plain, ·) : ConfMsg → Env × ConfMsg)), event.2.isVswitch = true := by
    simp [ConfMsg.isVswitch]
  have hbare : Bare RibState.init.conf := Bare.zero
  have hports : PortIds RibState.init.conf := PortIds.zero
  exact ⟨s, hrun, (vswitch_delete_local hbare hports hrun hevents 1).1 s.rings⟩

end SdPlane
