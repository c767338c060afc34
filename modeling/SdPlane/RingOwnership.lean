import SdPlane.Outcome
import SdPlane.Wired

/-!
# Who owns the rings of the interfaces

`rib_check` makes the rings of an interface for the slot of its vswitch, and the functions that
delete an interface free those in the slot that the **id** of the vswitch says. Slot and id agree
for no vswitch but by accident, and ids start at `1`. So the rings of another vswitch are freed,
which goes on using them, and those of the vswitch itself stay behind.

`RingsOwned` is what should hold in every version: a vswitch in use holds the rings of its slot,
whatever they are, and a slot that is not in use has none. `ringsOwned_of_run` shows that it does
in every run in which an interface is deleted only where id and slot agree, or where neither has
any rings (`FreesOwn`).
-/

set_option autoImplicit false

namespace SdPlane

structure RingsOwned (c : RibConf) (rings : Rings) : Prop where
  /-- A vswitch holds the rings that were made for its slot, and none that has been freed. -/
  held : ∀ k i, (c.vswitch i).ring k = rings.ring k i
  /-- Where no vswitch is, no ring is left. -/
  free : ∀ k i, ¬ c.LiveVswitch i → rings.ring k i = 0
  /-- A vswitch that is deleted has no interface, which `rib_check` would make rings for. -/
  idle : ∀ kind i, (c.vswitch i).isDeleted = true → i < c.vswitchSize.toNat →
    (c.vswitch i).sockfd kind < 0

/-- The rings that are freed with an interface of the vswitch in slot `i` are those of the slot. -/
def FreesOwn (rings : Rings) (kind : IfKind) (vswitchId : UInt16) (i : Nat) : Prop :=
  vswitchId.toNat = i
    ∨ ∀ k, RingKind.owner k = kind → rings.ring k i = 0 ∧ rings.ring k vswitchId.toNat = 0

theorem FreesOwn.mono {rings rings' : Rings} {kind : IfKind} {vswitchId : UInt16} {i : Nat}
    (h : FreesOwn rings kind vswitchId i)
    (hless : ∀ k j, rings'.ring k j = 0 ∨ rings'.ring k j = rings.ring k j) :
    FreesOwn rings' kind vswitchId i := by
  refine h.imp_right fun hnone k hk => ⟨?_, ?_⟩
  · rcases hless k i with hzero | hsame
    · exact hzero
    · rw [hsame]
      exact (hnone k hk).1
  · rcases hless k vswitchId.toNat with hzero | hsame
    · exact hzero
    · rw [hsame]
      exact (hnone k hk).2

/-- The slot has an interface of this name. -/
def RibConf.Named (c : RibConf) (kind : IfKind) (name : CharBuf) (i : Nat) : Prop :=
  i < c.vswitchSize.toNat ∧ name.str = ((c.vswitch i).tapName kind).str

/-- Deleting by name frees no rings but those of the vswitches that it finds. -/
def NamedFreesOwn (c : RibConf) (rings : Rings) (kind : IfKind) (name : CharBuf) : Prop :=
  ∀ i, c.Named kind name i → ∀ j, vswitchLookup c (c.vswitch i).vswitchId = some j →
    FreesOwn rings kind (c.vswitch i).vswitchId j

/-! ## What leaves it alone -/

/-- Slots, sockets and rings are the same. -/
structure KeepsIfs (c d : RibConf) : Prop where
  size : d.vswitchSize = c.vswitchSize
  deleted : ∀ i, (d.vswitch i).isDeleted = (c.vswitch i).isDeleted
  ring : ∀ k i, (d.vswitch i).ring k = (c.vswitch i).ring k
  sockfd : ∀ kind i, (d.vswitch i).sockfd kind = (c.vswitch i).sockfd kind

namespace KeepsIfs

variable {c d : RibConf}

theorem of_eq (hsize : d.vswitchSize = c.vswitchSize) (h : d.vswitch = c.vswitch) :
    KeepsIfs c d :=
  ⟨hsize, fun _ => by rw [h], fun _ _ => by rw [h], fun _ _ => by rw [h]⟩

theorem of_same (h : SameVswitches c d) : KeepsIfs c d := of_eq h.size h.vswitch

theorem trans {e : RibConf} (h : KeepsIfs c d) (h' : KeepsIfs d e) : KeepsIfs c e :=
  ⟨h'.size.trans h.size, fun i => (h'.deleted i).trans (h.deleted i),
    fun k i => (h'.ring k i).trans (h.ring k i), fun kind i => (h'.sockfd kind i).trans (h.sockfd kind i)⟩

theorem setVswitch (i : Nat) {f : VswitchConf → VswitchConf}
    (hdeleted : ∀ v, (f v).isDeleted = v.isDeleted) (hring : ∀ v k, (f v).ring k = v.ring k)
    (hsockfd : ∀ v kind, (f v).sockfd kind = v.sockfd kind) : KeepsIfs c (c.setVswitch i f) := by
  have hvswitch : ∀ j, (c.setVswitch i f).vswitch j = c.vswitch j
      ∨ (c.setVswitch i f).vswitch j = f (c.vswitch j) := by
    intro j
    rw [RibConf.setVswitch_vswitch]
    split
    · next hj => exact .inr (by rw [hj])
    · exact .inl rfl
  refine ⟨rfl, fun j => ?_, fun k j => ?_, fun kind j => ?_⟩
  all_goals rcases hvswitch j with h | h
  all_goals rw [h]
  · exact hdeleted _
  · exact hring _ k
  · exact hsockfd _ kind

theorem onRouterIf (p : RouterIf → Bool) {f : RouterIf → RouterIf}
    (hup : ∀ r, (f r).ringUp = r.ringUp) (hdn : ∀ r, (f r).ringDn = r.ringDn)
    (hsockfd : ∀ r, (f r).sockfd = r.sockfd) : KeepsIfs c (c.onRouterIf p f) := by
  unfold RibConf.onRouterIf
  split
  · apply setVswitch
    · exact fun v => rfl
    · intro v k
      cases k with
      | routerUp => exact hup _
      | routerDn => exact hdn _
      | captureUp => rfl
      | captureDn => rfl
    · intro v kind
      cases kind with
      | router => exact hsockfd _
      | capture => rfl
  · exact .of_eq rfl rfl

theorem attached (v : VswitchConf) (l : UInt16) : (v.attached l).isDeleted = v.isDeleted
    ∧ (∀ k, (v.attached l).ring k = v.ring k) ∧ ∀ kind, (v.attached l).sockfd kind = v.sockfd kind := by
  unfold VswitchConf.attached
  split
  · exact ⟨rfl, fun k => by cases k <;> rfl, fun kind => by cases kind <;> rfl⟩
  · exact ⟨rfl, fun k => rfl, fun kind => rfl⟩

theorem linkDeleted {l : UInt16} {i : Nat} (h : LinkDeleted c l i d) : KeepsIfs c d := by
  have hvswitch : ∀ j, ∃ arr size, d.vswitch j
      = { c.vswitch j with vswitchLinkId := arr, vswitchPortSize := size } := by
    intro j
    rw [h.vswitch, Function.update_apply]
    split
    · next hj =>
      rw [hj]
      exact linkRemoved l _
    · exact ⟨_, _, rfl⟩
  refine ⟨h.vswitchSize, fun j => ?_, fun k j => ?_, fun kind j => ?_⟩
  all_goals
    obtain ⟨arr, size, hj⟩ := hvswitch j
    rw [hj]
  · cases k <;> rfl
  · cases kind <;> rfl

theorem linkMade {v p l : Nat} (h : LinkMade c v p l d) : KeepsIfs c d := by
  have hvswitch : ∀ j, d.vswitch j = c.vswitch j ∨ ∃ x, d.vswitch j = (c.vswitch j).attached x := by
    intro j
    rw [h.vswitch, Function.update_apply]
    split
    · next hj => exact .inr ⟨_, by rw [hj]⟩
    · exact .inl rfl
  refine ⟨h.vswitchSize, fun j => ?_, fun k j => ?_, fun kind j => ?_⟩
  all_goals
    rcases hvswitch j with hj | ⟨x, hj⟩
    all_goals rw [hj]
  · exact (attached _ x).1
  · exact (attached _ x).2.1 k
  · exact (attached _ x).2.2 kind

end KeepsIfs

namespace RingsOwned

variable {c d : RibConf} {rings rings' : Rings}

theorem none : RingsOwned .zero .none := by
  refine ⟨fun k i => ?_, fun k i _ => ?_, fun kind i hdeleted => nomatch hdeleted⟩
  all_goals cases k <;> rfl

theorem keep (h : RingsOwned c rings) (hkeeps : KeepsIfs c d) : RingsOwned d rings := by
  refine ⟨fun k i => (hkeeps.ring k i).trans (h.held k i), fun k i hlive => h.free k i fun hc => ?_,
    fun kind i hdeleted hi => ?_⟩
  · exact hlive ⟨hkeeps.size ▸ hc.1, (hkeeps.deleted i).trans hc.2⟩
  · rw [hkeeps.sockfd]
    exact h.idle kind i ((hkeeps.deleted i).symm.trans hdeleted) (hkeeps.size ▸ hi)

theorem sameInterfaces (h : RingsOwned c rings) (hsame : rings.SameInterfaces rings') :
    RingsOwned c rings' := by
  have hring : ∀ k i, rings'.ring k i = rings.ring k i := by
    intro k i
    cases k with
    | routerUp => exact congrFun hsame.routerUp i
    | routerDn => exact congrFun hsame.routerDn i
    | captureUp => exact congrFun hsame.captureUp i
    | captureDn => exact congrFun hsame.captureDn i
  exact ⟨fun k i => (h.held k i).trans (hring k i).symm,
    fun k i hlive => (hring k i).trans (h.free k i hlive), h.idle⟩

/-! ## A new vswitch -/

/-- A slot that is used again is cleared, and one that is used for the first time is kept. -/
theorem vswitchNew_ring {vswitchId vlanId : UInt16} {i : Nat}
    (h : vswitchNew c vswitchId vlanId = some (i, d)) (k : RingKind) :
    (d.vswitch i).ring k = 0 ∨ (d.vswitch i).ring k = (c.vswitch i).ring k := by
  simp only [vswitchNew] at h
  split at h
  · obtain ⟨rfl, rfl⟩ := Prod.mk.inj (Option.some.inj h)
    rw [RibConf.setVswitch_vswitch, if_pos rfl]
    exact .inl (by cases k <;> rfl)
  · split at h
    · cases h
    · obtain ⟨rfl, rfl⟩ := Prod.mk.inj (Option.some.inj h)
      rw [RibConf.setVswitch_vswitch, if_pos rfl]
      exact .inr (by cases k <;> rfl)

theorem vswitchNew {vswitchId vlanId : UInt16} {i : Nat} (h : RingsOwned c rings)
    (hmade : SdPlane.vswitchNew c vswitchId vlanId = some (i, d)) : RingsOwned d rings := by
  have hnew := vswitchNew_some hmade
  have hlive : ∀ j, c.LiveVswitch j → d.LiveVswitch j := by
    intro j hj
    have hne : j ≠ i := fun hji => hnew.free (hji ▸ hj)
    refine ⟨?_, by rw [hnew.others j hne]; exact hj.2⟩
    rw [hnew.size]
    exact hj.1.trans_le (le_max_left _ _)
  refine ⟨fun k j => ?_, fun k j hj => h.free k j fun hc => hj (hlive j hc), fun kind j hdeleted hj => ?_⟩
  · by_cases hji : j = i
    · subst hji
      have hnone := h.free k j hnew.free
      rcases vswitchNew_ring hmade k with hzero | hkept
      · rw [hzero, hnone]
      · rw [hkept]
        exact h.held k j
    · rw [hnew.others j hji]
      exact h.held k j
  · have hne : j ≠ i := by
      rintro rfl
      rw [hnew.live] at hdeleted
      cases hdeleted
    rw [hnew.others j hne] at hdeleted ⊢
    refine h.idle kind j hdeleted ?_
    have hle := hnew.le
    rw [hnew.size] at hj
    omega

theorem vswitchSet (h : RingsOwned c rings) (msg : InternalMsgVswitch) :
    RingsOwned (c.vswitchSet msg) rings := by
  unfold RibConf.vswitchSet
  split
  · exact h
  · split
    · next hmade => exact h.vswitchNew hmade
    · exact h

/-! ## An interface -/

/-- Rings are written to a slot, and to the vswitch that is there. -/
theorem writeSlot {i : Nat} (h : RingsOwned c rings) (hi : c.LiveVswitch i)
    {f : VswitchConf → VswitchConf} (hdeleted : ∀ v, (f v).isDeleted = v.isDeleted)
    (hring : ∀ k, (f (c.vswitch i)).ring k = rings'.ring k i)
    (hothers : ∀ k j, j ≠ i → rings'.ring k j = rings.ring k j) :
    RingsOwned (c.setVswitch i f) rings' := by
  refine ⟨fun k j => ?_, fun k j hj => ?_, fun kind j hj hlt => ?_⟩
  · rw [RibConf.setVswitch_vswitch]
    split
    · next hji =>
      rw [hji]
      exact hring k
    · next hji =>
      rw [hothers k j hji]
      exact h.held k j
  · have hne : j ≠ i := by
      rintro rfl
      refine hj ⟨hi.1, ?_⟩
      rw [RibConf.setVswitch_vswitch, if_pos rfl, hdeleted]
      exact hi.2
    rw [hothers k j hne]
    refine h.free k j fun hc => hj ⟨hc.1, ?_⟩
    rw [RibConf.setVswitch_vswitch, if_neg hne]
    exact hc.2
  · rw [RibConf.setVswitch_vswitch] at hj ⊢
    split at hj
    · rw [hdeleted, hi.2] at hj
      cases hj
    · next hji =>
      rw [if_neg hji]
      exact h.idle kind j hj hlt

/-- The socket of a vswitch in use may change. -/
theorem setInterface {i : Nat} (h : RingsOwned c rings) (hi : c.LiveVswitch i)
    {f : VswitchConf → VswitchConf} (hdeleted : ∀ v, (f v).isDeleted = v.isDeleted)
    (hring : ∀ v k, (f v).ring k = v.ring k) : RingsOwned (c.setVswitch i f) rings :=
  h.writeSlot hi hdeleted (fun k => (hring _ k).trans (h.held k i)) fun _ _ _ => rfl

/-- **An interface is deleted, with its own rings.** -/
theorem ifDeleted {kind : IfKind} {vswitchId : UInt16} {i : Nat} (h : RingsOwned c rings)
    (hdel : IfDeleted kind c rings vswitchId i d rings')
    (hown : FreesOwn rings kind vswitchId i) : RingsOwned d rings' := by
  rw [hdel.conf]
  refine h.writeSlot (vswitchLookup_some hdel.lookup).1 (fun v => drop_isDeleted v kind)
    (fun k => ?_) fun k j hji => ?_
  · rw [hdel.ring, drop_ring]
    by_cases hk : k.owner = kind
    · rw [if_pos hk]
      split
      · rfl
      · next hid =>
        -- the rings of the slot are not those that were freed
        rcases hown with hsame | hnone
        · exact absurd ⟨hk, hsame.symm⟩ hid
        · exact (hnone k hk).1.symm
    · rw [if_neg hk, if_neg fun hid => hk hid.1]
      exact h.held k i
  · rw [hdel.ring]
    split
    · next hid =>
      rcases hown with hsame | hnone
      · exact absurd (hid.2.trans hsame) hji
      · rw [hid.2]
        exact (hnone k hid.1).2.symm
    · rfl

/-! ## Rings that are made -/

/-- A vswitch with an interface is in use. -/
theorem live_of_sockfd {i : Nat} (h : RingsOwned c rings) (hi : i < c.vswitchSize.toNat)
    {kind : IfKind} (hsockfd : (c.vswitch i).sockfd kind ≥ 0) : c.LiveVswitch i := by
  refine ⟨hi, ?_⟩
  by_contra hdeleted
  have hidle := h.idle kind i (Bool.not_eq_false _ ▸ hdeleted) hi
  omega

theorem makeRouterRings {i : Nat} (h : RingsOwned c rings) (hi : c.LiveVswitch i) (up dn : Nat) :
    RingsOwned
      (c.setVswitch i fun v => { v with
        routerIf := { v.routerIf with ringUp := up, ringDn := dn } })
      { rings with
        routerIfRingUp := Function.update rings.routerIfRingUp i up
        routerIfRingDn := Function.update rings.routerIfRingDn i dn } := by
  refine h.writeSlot hi (fun v => rfl) (fun k => ?_) fun k j hj => ?_
  · cases k with
    | routerUp => exact (Function.update_self i up rings.routerIfRingUp).symm
    | routerDn => exact (Function.update_self i dn rings.routerIfRingDn).symm
    | captureUp => exact h.held .captureUp i
    | captureDn => exact h.held .captureDn i
  · cases k with
    | routerUp => exact Function.update_of_ne hj up rings.routerIfRingUp
    | routerDn => exact Function.update_of_ne hj dn rings.routerIfRingDn
    | captureUp => rfl
    | captureDn => rfl

theorem makeCaptureRings {i : Nat} (h : RingsOwned c rings) (hi : c.LiveVswitch i) (up dn : Nat) :
    RingsOwned
      (c.setVswitch i fun v => { v with
        captureIf := { v.captureIf with ringUp := up, ringDn := dn } })
      { rings with
        captureIfRingUp := Function.update rings.captureIfRingUp i up
        captureIfRingDn := Function.update rings.captureIfRingDn i dn } := by
  refine h.writeSlot hi (fun v => rfl) (fun k => ?_) fun k j hj => ?_
  · cases k with
    | routerUp => exact h.held .routerUp i
    | routerDn => exact h.held .routerDn i
    | captureUp => exact (Function.update_self i up rings.captureIfRingUp).symm
    | captureDn => exact (Function.update_self i dn rings.captureIfRingDn).symm
  · cases k with
    | routerUp => rfl
    | routerDn => rfl
    | captureUp => exact Function.update_of_ne hj up rings.captureIfRingUp
    | captureDn => exact Function.update_of_ne hj dn rings.captureIfRingDn

/-- **`rib_check` makes the rings for the slot.** -/
theorem createIfRings (env : Env) {i : Nat} {s : RibConf × Rings} (hi : i < s.1.vswitchSize.toNat)
    (h : RingsOwned s.1 s.2) : RingsOwned (SdPlane.createIfRings env i s).1
      (SdPlane.createIfRings env i s).2 := by
  obtain ⟨c, rings⟩ := s
  unfold SdPlane.createIfRings
  dsimp only
  split
  · exact h
  · split
    · next hsockfd =>
      have hlive := @live_of_sockfd _ _ _ h hi .router hsockfd
      have hmade := h.makeRouterRings hlive (createRing env (.routerUp i) (rings.routerIfRingUp i))
        (createRing env (.routerDn i) (rings.routerIfRingDn i))
      split
      · next hsockfd' =>
        exact hmade.makeCaptureRings (@live_of_sockfd _ _ _ hmade hi .capture hsockfd') _ _
      · exact hmade
    · split
      · next hsockfd' =>
        exact h.makeCaptureRings (@live_of_sockfd _ _ _ h hi .capture hsockfd') _ _
      · exact h

theorem ribCheck {env : Env} (h : RingsOwned c rings)
    (hcheck : SdPlane.ribCheck env c rings = .ok (some (d, rings'))) : RingsOwned d rings' := by
  obtain ⟨-, -, -, rings₁, hsame, hr⟩ := ribCheck_some hcheck
  have hloop : (Lib.forUpTo c.vswitchSize.toNat (SdPlane.createIfRings env) (c, rings₁)).1.vswitchSize
        = c.vswitchSize
      ∧ RingsOwned (Lib.forUpTo c.vswitchSize.toNat (SdPlane.createIfRings env) (c, rings₁)).1
        (Lib.forUpTo c.vswitchSize.toNat (SdPlane.createIfRings env) (c, rings₁)).2 := by
    apply Lib.forUpTo_rule fun _ (s : RibConf × Rings) =>
      s.1.vswitchSize = c.vswitchSize ∧ RingsOwned s.1 s.2
    · exact ⟨rfl, h.sameInterfaces hsame⟩
    · rintro i s hi ⟨hsize, hs⟩
      exact ⟨(Peripheral.createIfRings env i s).vswitchSize.trans hsize,
        createIfRings env (hsize ▸ hi) hs⟩
  rw [← hr] at hloop
  exact hloop.2

/-! ## A vswitch is deleted -/

/-- An interface of a vswitch is deleted if there is one. -/
theorem maybeDelete {kind : IfKind} {vswitchId : UInt16} {i : Nat} (h : RingsOwned c rings)
    (hlookup : vswitchLookup c vswitchId = some i)
    (hown : if (c.vswitch i).sockfd kind ≥ 0 then FreesOwn rings kind vswitchId i
      else ∀ k, RingKind.owner k = kind → rings.ring k i = 0)
    (hdel : (if (c.vswitch i).sockfd kind ≥ 0 then ifDelete kind c rings vswitchId
      else .ok (c, rings)) = .ok (d, rings')) :
    RingsOwned d rings' ∧ (d.vswitch i).sockfd kind < 0
      ∧ (∀ k, RingKind.owner k = kind → rings'.ring k i = 0)
      ∧ (∀ k j, RingKind.owner k ≠ kind → rings'.ring k j = rings.ring k j)
      ∧ (∀ kind', kind' ≠ kind → (d.vswitch i).sockfd kind' = (c.vswitch i).sockfd kind')
      ∧ vswitchLookup d vswitchId = some i := by
  split at hdel
  · next hsockfd =>
    rw [if_pos hsockfd] at hown
    obtain ⟨i', hdeleted⟩ := ifDeleted_ok hdel
    obtain rfl := Option.some.inj (hlookup.symm.trans hdeleted.lookup)
    have howned := h.ifDeleted hdeleted hown
    have hdrop : d.vswitch i = (c.vswitch i).drop kind := by
      rw [hdeleted.conf, RibConf.setVswitch_vswitch, if_pos rfl]
    refine ⟨howned, ?_, fun k hk => ?_, fun k j hk => ?_, fun kind' hne => ?_, ?_⟩
    · rw [hdrop]
      cases kind <;> exact Int.negSucc_lt_zero 0
    · rw [← howned.held, hdrop, drop_ring, if_pos hk]
    · rw [hdeleted.ring, if_neg fun hid => hk hid.1]
    · rw [hdrop]
      cases kind <;> cases kind' <;> first | rfl | exact absurd rfl hne
    · rw [hdeleted.keepsWiring.lookup]
      exact hlookup
  · next hsockfd =>
    rw [if_neg hsockfd] at hown
    obtain ⟨rfl, rfl⟩ := Prod.mk.inj (Except.ok.inj hdel)
    exact ⟨h, Int.not_le.mp hsockfd, hown, fun _ _ _ => rfl, fun _ _ => rfl, hlookup⟩

theorem vswitchDelete {vswitchId : UInt16} (h : RingsOwned c rings)
    (hown : ∀ i, vswitchLookup c vswitchId = some i → ∀ kind,
      if (c.vswitch i).sockfd kind ≥ 0 then FreesOwn rings kind vswitchId i
      else ∀ k, RingKind.owner k = kind → rings.ring k i = 0)
    (hdel : SdPlane.vswitchDelete c rings vswitchId = .ok (d, rings')) : RingsOwned d rings' := by
  rcases vswitchDelete_ok hdel with
    ⟨-, rfl, rfl⟩ | ⟨i, c₁, rings₁, c₂, c₃, hlookup, h₁, h₂, h₃, rfl⟩
  · exact h
  · obtain ⟨howned₁, hrouter, hnoRouter, hrings₁, hsockfd₁, hlookup₁⟩ :=
      @maybeDelete _ _ _ _ .router _ _ h hlookup (hown i hlookup .router) h₁
    have hownCapture : if (c₁.vswitch i).sockfd .capture ≥ 0 then FreesOwn rings₁ .capture vswitchId i
        else ∀ k, RingKind.owner k = .capture → rings₁.ring k i = 0 := by
      have hcapture := hown i hlookup .capture
      have hsame : ∀ k j, RingKind.owner k = .capture → rings₁.ring k j = rings.ring k j :=
        fun k j hk => hrings₁ k j (by rw [hk]; exact nofun)
      rw [hsockfd₁ .capture nofun]
      split
      · next hsockfd =>
        rw [if_pos hsockfd] at hcapture
        refine hcapture.imp_right fun hnone k hk => ?_
        rw [hsame k _ hk, hsame k _ hk]
        exact hnone k hk
      · next hsockfd =>
        rw [if_neg hsockfd] at hcapture
        intro k hk
        rw [hsame k i hk]
        exact hcapture k hk
    obtain ⟨howned₂, hcapture, hnoCapture, hrings₂, hsockfd₂, -⟩ :=
      @maybeDelete _ _ _ _ .capture _ _ howned₁ hlookup₁ hownCapture h₂
    -- then the links, which leave it alone
    have hkeeps : KeepsIfs c₂ c₃ := (vswitchDeleteLinks_rule (KeepsIfs c₂) (.of_eq rfl rfl)
      (fun _ _ hkeeps _ hone => by
        obtain ⟨j, hj⟩ := linkDeleted_ok hone
        exact hkeeps.trans (.linkDeleted hj)) h₃).1
    have howned := howned₂.keep hkeeps
    have hnone : ∀ k, rings'.ring k i = 0 := by
      intro k
      cases hk : k.owner with
      | router =>
        rw [hrings₂ k i (by rw [hk]; exact nofun)]
        exact hnoRouter k hk
      | capture => exact hnoCapture k hk
    have hsockfd : ∀ kind, (c₃.vswitch i).sockfd kind < 0 := by
      intro kind
      rw [hkeeps.sockfd]
      cases kind with
      | router =>
        rw [hsockfd₂ .router nofun]
        exact hrouter
      | capture => exact hcapture
    have hvswitch : ∀ j, ((c₃.setVswitch i fun v => { v with isDeleted := true }).vswitch j)
        = { c₃.vswitch j with isDeleted := if j = i then true else (c₃.vswitch j).isDeleted } := by
      intro j
      rw [RibConf.setVswitch_vswitch]
      split
      · next hj => rw [hj]
      · rfl
    refine ⟨fun k j => ?_, fun k j hj => ?_, fun kind j hj hlt => ?_⟩
    · rw [hvswitch, ← howned.held]
      cases k <;> rfl
    · by_cases hji : j = i
      · rw [hji]
        exact hnone k
      · refine howned.free k j fun hc => hj ⟨hc.1, ?_⟩
        rw [hvswitch]
        simpa [hji] using hc.2
    · have hsame : ((c₃.setVswitch i fun v => { v with isDeleted := true }).vswitch j).sockfd kind
          = (c₃.vswitch j).sockfd kind := by
        rw [hvswitch]
        cases kind <;> rfl
      rw [hsame]
      by_cases hji : j = i
      · rw [hji]
        exact hsockfd kind
      · refine howned.idle kind j ?_ hlt
        rw [hvswitch] at hj
        simpa [hji] using hj

/-! ## Interfaces are deleted by name -/

/-- While the loop runs: slots without the name they had are those that it has found. -/
structure Deleting (c : RibConf) (rings : Rings) (kind : IfKind) (name : CharBuf)
    (s : RibConf × Rings) : Prop where
  owned : RingsOwned s.1 s.2
  wiring : KeepsWiring c s.1
  names : ∀ j, (s.1.vswitch j).tapName kind = (c.vswitch j).tapName kind
    ∨ ∃ i, c.Named kind name i ∧ vswitchLookup c (c.vswitch i).vswitchId = some j
  less : ∀ k j, s.2.ring k j = 0 ∨ s.2.ring k j = rings.ring k j

theorem Deleting.round {kind : IfKind} {name : CharBuf} {i : Nat} {s s' : RibConf × Rings}
    (hown : NamedFreesOwn c rings kind name) (hs : Deleting c rings kind name s)
    (hi : i < c.vswitchSize.toNat)
    (hname : name.str = ((s.1.vswitch i).tapName kind).str)
    (hdel : ifDelete kind s.1 s.2 (s.1.vswitch i).vswitchId = .ok s') :
    Deleting c rings kind name s' := by
  obtain ⟨d, rings'⟩ := s'
  obtain ⟨j, hdeleted⟩ := ifDeleted_ok hdel
  have hid : (s.1.vswitch i).vswitchId = (c.vswitch i).vswitchId := by
    obtain ⟨rif, cif, hvswitch⟩ := hs.wiring.vswitch i
    rw [hvswitch]
  have hlookup : vswitchLookup c (c.vswitch i).vswitchId = some j := by
    rw [← hid, ← hs.wiring.lookup]
    exact hdeleted.lookup
  -- the slot has had the name from the start, or it is one that the loop has found before
  have hfound : ∃ i₀, c.Named kind name i₀ ∧ (c.vswitch i₀).vswitchId = (c.vswitch i).vswitchId := by
    rcases hs.names i with hsame | ⟨i₀, hnamed, hi₀⟩
    · exact ⟨i, ⟨hi, hsame ▸ hname⟩, rfl⟩
    · exact ⟨i₀, hnamed, (vswitchLookup_some hi₀).2.symm⟩
  obtain ⟨i₀, hnamed, hsameId⟩ := hfound
  have hfrees : FreesOwn rings kind (c.vswitch i).vswitchId j := by
    rw [← hsameId]
    exact hown i₀ hnamed j (by rw [hsameId]; exact hlookup)
  refine ⟨hs.owned.ifDeleted hdeleted (hid ▸ hfrees.mono hs.less),
    hs.wiring.trans hdeleted.keepsWiring, fun j' => ?_, fun k j' => ?_⟩
  · by_cases hj : j' = j
    · exact .inr ⟨i₀, hnamed, by rw [hsameId, hj]; exact hlookup⟩
    · have hother : d.vswitch j' = s.1.vswitch j' := by
        rw [hdeleted.conf, RibConf.setVswitch_vswitch, if_neg hj]
      rw [hother]
      exact hs.names j'
  · rw [hdeleted.ring]
    split
    · exact .inl rfl
    · exact hs.less k j'

theorem tapNoSet {kind : IfKind} {name : CharBuf} (h : RingsOwned c rings)
    (hown : NamedFreesOwn c rings kind name)
    (hloop : RibConf.tapNoSet (fun v => v.tapName kind) (ifDelete kind) name c rings
      = .ok (d, rings')) : RingsOwned d rings' := by
  have hstart : Deleting c rings kind name (c, rings) :=
    ⟨h, .refl c, fun _ => .inl rfl, fun _ _ => .inr rfl⟩
  refine ((Lib.forRange_rule (fun _ s => Deleting c rings kind name s) (fun _ => True) hstart
    fun i s hi hs => ⟨fun s' hs' => ?_, fun _ _ => trivial⟩).1 _ hloop).owned
  obtain ⟨_, -, hs'⟩ := bind_ok hs'
  split at hs'
  · next hname => exact hs.round hown hi hname hs'
  · obtain rfl := Except.ok.inj hs'
    exact hs

end RingsOwned

/-! ## Messages -/

/-- Where a message deletes interfaces, their own rings go with them. A vswitch whose interface
    could not be opened again has no socket to be deleted by, and must not have rings. -/
def DeletesOwn (c : RibConf) (rings : Rings) : ConfMsg → Prop
  | .vswitchNoSet msg => ∀ i, vswitchLookup c msg.vswitchId = some i → ∀ kind,
      if (c.vswitch i).sockfd kind ≥ 0 then FreesOwn rings kind msg.vswitchId i
      else ∀ k, RingKind.owner k = kind → rings.ring k i = 0
  | .routerIfNoSet msg => NamedFreesOwn c rings .router msg.tapName
  | .captureIfNoSet msg => NamedFreesOwn c rings .capture msg.tapName
  | _ => True

/-- **What a handler does, if it deletes no rings but those of the slot.** -/
theorem RingsOwned.outcome {env : Env} {c d : RibConf} {rings rings' : Rings} {msg : ConfMsg}
    (h : RingsOwned c rings) (hown : DeletesOwn c rings msg)
    (houtcome : Outcome env c rings msg d rings') : RingsOwned d rings' := by
  cases houtcome with
  | tables => exact h.keep (.of_eq rfl rfl)
  | addresses up dn sockfd => exact h.keep (.onRouterIf _ up dn sockfd)
  | portStatus hd => exact h.keep (.of_same (.portStatus hd))
  | qconf hd check => exact (h.keep (.of_same (.qconf hd))).ribCheck check
  | txrxDesc hd => exact h.keep (.of_same (.txrxDesc hd))
  | txrxChecked hd check => exact (h.keep (.of_same (.txrxDesc hd))).ribCheck check
  | vswitchSet => exact h.vswitchSet _
  | vswitchNoSet hd => exact h.vswitchDelete hown hd
  | linkSet hset =>
    rcases vswitchPortSet_ok hset with ⟨rfl, -⟩ | ⟨v, l, hset⟩
    · exact h
    · exact h.keep (.linkMade hset.toLinkMade)
  | linkDeleted hdel =>
    obtain ⟨i, hdel⟩ := linkDeleted_ok hdel
    exact h.keep (.linkDeleted hdel)
  | ifSet live keeps ring check =>
    refine (h.setInterface live (fun v => ?_) ring).ribCheck check
    obtain ⟨rif, cif, hv⟩ := keeps v
    rw [hv]
  | @ifNoSet kind msg _ _ hloop =>
    cases kind with
    | router => exact h.tapNoSet hown hloop
    | capture => exact h.tapNoSet hown hloop

/-! ## Runs -/

theorem ringsOwned_step {s t : RibState} {event : Env × ConfMsg} (h : RingsOwned s.conf s.rings)
    (hown : DeletesOwn s.conf s.rings event.2) (hstep : ConfStep s event t) :
    RingsOwned t.conf t.rings := by
  obtain ⟨env, msg⟩ := event
  obtain ⟨info, hinfo, hstep⟩ := bind_ok hstep
  obtain ⟨result, hresult, hstep⟩ := bind_ok hstep
  rw [ribCreate_conf (deref_ok hinfo)] at hresult
  cases result with
  | none =>
    obtain ⟨rib, hrib, hstep⟩ := bind_ok hstep
    obtain rfl := Except.ok.inj hstep
    rcases stopPorts_conf hrib with hsame | hflag
    · rw [hsame]
      exact h
    · exact h.keep (.of_same (.putStopFlag hflag))
  | some result =>
    obtain ⟨c, rings⟩ := result
    obtain rfl := Except.ok.inj hstep
    have hnext : RingsOwned s.conf.next s.rings := h.keep (.of_eq rfl rfl)
    exact hnext.outcome hown (outcome_of_some hresult)

/-- The rings that a step frees are those that the vswitches lose. -/
def FreesExactly (s t : RibState) : Prop :=
  ∀ k i, s.rings.ring k i ≠ 0 ∧ t.rings.ring k i = 0
    ↔ (s.conf.vswitch i).ring k ≠ 0 ∧ (t.conf.vswitch i).ring k = 0

/-- **In a run that deletes no interface but with its own rings, every version has the rings that
    it should, and every step frees those of the interfaces that it deletes.** -/
theorem ringsOwned_of_run {events : List (Env × ConfMsg)}
    (h : Lib.Stepwise ConfStep .init (fun s event => DeletesOwn s.conf s.rings event.2) events) :
    Lib.Throughout ConfStep .init (fun s => RingsOwned s.conf s.rings) events
      ∧ ∀ pre event s t, (pre ++ [event]) <+: events → Lib.Run ConfStep .init pre s →
        ConfStep s event t → FreesExactly s t := by
  have hstart : RingsOwned RibState.init.conf RibState.init.rings := RingsOwned.none
  have howned : Lib.Throughout ConfStep .init (fun s => RingsOwned s.conf s.rings) events :=
    @Lib.throughout_of_stepwise _ _ ConfStep .init _
      (fun s event => DeletesOwn s.conf s.rings event.2) (fun _ => True) trivial
      (fun _ _ _ _ _ => trivial) hstart
      (fun _ _ _ _ hs hstep hown => ringsOwned_step hs hown hstep) _ h
  refine ⟨howned, fun pre event s t hpre hrun hstep k i => ?_⟩
  have hs := howned pre s ((List.prefix_append pre [event]).trans hpre) hrun
  have ht := howned _ t hpre (hrun.snoc hstep)
  rw [hs.held k i, ht.held k i]

/-! ## Two vswitches -/

/-- Without queues there is nothing that `rib_check` could refuse. -/
theorem ribCheck_noQueues {c : RibConf} (hlcores : c.lcoreSize.toNat ≤ RTE_MAX_LCORE)
    (hnone : ∀ l, (c.lcoreQconf l).nrxq = 0) (hsize : c.vswitchSize.toNat ≤ MAX_VSWITCH)
    (env : Env) (rings : Rings) : ribCheck env c rings
      = .ok (some (Lib.forUpTo c.vswitchSize.toNat (createIfRings env) (c, rings))) := by
  have hroom : ∀ n, QueueRoom c n := by
    intro n l _
    rw [hnone l]
    exact Nat.zero_le _
  have hempty : ∀ n, queuesIn c.lcoreQconf n = [] := by
    intro n
    refine List.eq_nil_iff_forall_not_mem.mpr fun x hx => ?_
    obtain ⟨l, -, j, hj, -⟩ := mem_queuesIn.mp hx
    rw [hnone l] at hj
    exact Nat.not_lt_zero j hj
  have hqueues : c.queues = [] := hempty _
  have hbound : c.vswitchSize.toNat - 1 < MAX_VSWITCH :=
    (Nat.sub_le_sub_right hsize 1).trans_lt (by decide)
  rw [ribCheck_eq hlcores (hroom _) (by rw [hqueues]; exact Nat.zero_le _), hqueues,
    List.mergeSort_nil, queuesOrdered_nil, queuesOf_eq (hroom _), hempty]
  simp only [bind, Except.bind, if_true, createQueueRings, inBounds, hbound]

theorem confStep_unique {s t t' : RibState} {event : Env × ConfMsg} (h : ConfStep s event t)
    (h' : ConfStep s event t') : t = t' :=
  Except.ok.inj (h.symm.trans h')

/-- What is known of a state for the messages that follow. -/
structure Reached (s : RibState) (c : RibConf) (rings : Rings) : Prop where
  conf : s.conf = c
  rings : s.rings = rings
  published : s.published.isSome

theorem exists_handled {s : RibState} {msg : ConfMsg} {d : RibConf} {rings : Rings}
    (h : confMessage .plain s.rib s.conf.next s.rings msg = .ok (some (d, rings))) :
    ∃ t, ConfStep s (.plain, msg) t ∧ Reached t d rings := by
  obtain ⟨t, ht⟩ := process_ok Env.plain_allocs h
  refine ⟨t, ht, ?_⟩
  rcases conf_of_ok ht with ⟨c, rings', hresult, hconf, hpub, hrings⟩ | ⟨hnone, -⟩
  · obtain ⟨rfl, rfl⟩ := Prod.mk.inj (Option.some.inj (Except.ok.inj (hresult.symm.trans h)))
    exact ⟨hconf, hrings, hpub⟩
  · cases hnone.symm.trans h

/-- A version in which an interface is set, with its rings. -/
def afterRouterIfSet (p : RibConf × Rings) (i : Nat) (msg : InternalMsgTapDev) : RibConf × Rings :=
  Lib.forUpTo p.1.vswitchSize.toNat (createIfRings .plain) (p.1.next.routerIfSet .plain i msg, p.2)

theorem exists_routerIfSet {s : RibState} {p : RibConf × Rings} {msg : InternalMsgTapDev} {i : Nat}
    (h : Reached s p.1 p.2) (hlookup : vswitchLookup p.1 msg.vswitchId = some i)
    (hlcores : p.1.lcoreSize.toNat ≤ RTE_MAX_LCORE) (hnone : ∀ l, (p.1.lcoreQconf l).nrxq = 0)
    (hsize : p.1.vswitchSize.toNat ≤ MAX_VSWITCH) :
    ∃ t, ConfStep s (.plain, .routerIfSet msg) t
      ∧ Reached t (afterRouterIfSet p i msg).1 (afterRouterIfSet p i msg).2 := by
  have hstop : ∃ rib, stopPorts .plain true s.rib = .ok rib := by
    obtain ⟨info, hinfo⟩ := Option.isSome_iff_exists.mp h.published
    exact ⟨_, by rw [stopPorts, show s.rib.bind Rib.ribInfo = some info from hinfo]; rfl⟩
  obtain ⟨rib, hstop⟩ := hstop
  apply exists_handled
  have hlookup' : vswitchLookup p.1.next msg.vswitchId = some i := hlookup
  have hcheck : ribCheck .plain (p.1.next.routerIfSet .plain i msg) p.2
      = .ok (some (afterRouterIfSet p i msg)) :=
    @ribCheck_noQueues (p.1.next.routerIfSet .plain i msg) hlcores hnone hsize .plain p.2
  simp only [confMessage, ribCheckStopped, hstop, bind, Except.bind, h.conf, h.rings, hlookup']
  exact hcheck

def CharBuf.ofChar (c : UInt8) : CharBuf := (zeros 16).set 0 c

def tapA : InternalMsgTapDev := ⟨1, CharBuf.ofChar 97, NO_VLAN_SPECIFIED⟩
def tapB : InternalMsgTapDev := ⟨2, CharBuf.ofChar 98, NO_VLAN_SPECIFIED⟩

/-- Vswitches `1` and `2`, in the slots `0` and `1`. -/
def twoVswitches : RibConf := (RibConf.zero.next.vswitchSet ⟨1, 1⟩).next.vswitchSet ⟨2, 2⟩

/-- Both with a router interface. -/
def twoRouterIfs : RibConf × Rings := afterRouterIfSet (afterRouterIfSet (twoVswitches, .none) 0 tapA) 1 tapB

def twoRouterIfsRun : List (Env × ConfMsg) :=
  [(.plain, .vswitchSet ⟨1, 1⟩), (.plain, .vswitchSet ⟨2, 2⟩), (.plain, .routerIfSet tapA),
    (.plain, .routerIfSet tapB)]

theorem twoRouterIfs_reached : ∃ s, Lib.Run ConfStep .init twoRouterIfsRun s
    ∧ Reached s twoRouterIfs.1 twoRouterIfs.2 := by
  obtain ⟨s₁, h₁, hr₁⟩ := @exists_handled .init (.vswitchSet ⟨1, 1⟩) _ _ rfl
  obtain ⟨s₂, h₂, hr₂⟩ := @exists_handled s₁ (.vswitchSet ⟨2, 2⟩) twoVswitches .none (by
    rw [hr₁.conf, hr₁.rings]; rfl)
  obtain ⟨s₃, h₃, hr₃⟩ := @exists_routerIfSet s₂ (twoVswitches, .none) tapA 0 hr₂ (by decide +kernel)
    (by decide) (fun l => rfl) (by decide)
  obtain ⟨s₄, h₄, hr₄⟩ := @exists_routerIfSet s₃ (afterRouterIfSet (twoVswitches, .none) 0 tapA) tapB 1
    hr₃ (by decide +kernel) (by decide +kernel) (fun l => rfl) (by decide +kernel)
  exact ⟨s₄, (((Lib.Run.nil.snoc h₁).snoc h₂).snoc h₃).snoc h₄, hr₄⟩

/-- The first interface is deleted, and the second one has lost its rings. -/
theorem other_rings_freed : ∃ s, Lib.Run ConfStep .init
    (twoRouterIfsRun ++ [(.plain, .routerIfNoSet tapA)]) s ∧ ¬ RingsOwned s.conf s.rings := by
  obtain ⟨s, hrun, hs⟩ := twoRouterIfs_reached
  have hlost : (match twoRouterIfs.1.next.routerIfNoSet twoRouterIfs.2 tapA with
      | .ok (d, rings) => decide ((d.vswitch 1).ring .routerUp ≠ rings.ring .routerUp 1)
      | .error _ => false) = true := by decide +kernel
  cases hdel : twoRouterIfs.1.next.routerIfNoSet twoRouterIfs.2 tapA with
  | error e =>
    rw [hdel] at hlost
    cases hlost
  | ok result =>
    obtain ⟨d, rings⟩ := result
    rw [hdel] at hlost
    obtain ⟨t, hstep, ht⟩ := @exists_handled s (.routerIfNoSet tapA) d rings (by
      simp only [confMessage, hs.conf, hs.rings, hdel]
      rfl)
    refine ⟨t, hrun.snoc hstep, fun howned => ?_⟩
    have hheld := howned.held .routerUp 1
    rw [ht.conf, ht.rings] at hheld
    exact of_decide_eq_true hlost hheld

/-- The messages that make and delete vswitches and their interfaces. -/
def ConfMsg.isInterface : ConfMsg → Bool
  | .vswitchSet _ | .vswitchNoSet _ | .routerIfSet _ | .routerIfNoSet _ | .captureIfSet _
  | .captureIfNoSet _ => true
  | _ => false

theorem rings_not_owned : ¬ ∀ (events : List (Env × ConfMsg)) (s : RibState),
    (∀ event ∈ events, event.2.isInterface = true) → Lib.Run ConfStep .init events s →
    RingsOwned s.conf s.rings := by
  intro h
  obtain ⟨s, hrun, hnot⟩ := other_rings_freed
  refine hnot (h _ s (fun event hevent => ?_) hrun)
  simp only [twoRouterIfsRun, List.cons_append, List.nil_append, List.mem_cons, List.not_mem_nil,
    or_false] at hevent
  rcases hevent with rfl | rfl | rfl | rfl | rfl <;> rfl

/-! A vswitch whose id is its slot -/

/-- Vswitches `7` and `1`, in the slots `0` and `1`. -/
def idIsSlot : RibConf := (RibConf.zero.next.vswitchSet ⟨7, 7⟩).next.vswitchSet ⟨1, 1⟩

def idIsSlotRun : List (Env × ConfMsg) :=
  [(.plain, .vswitchSet ⟨7, 7⟩), (.plain, .vswitchSet ⟨1, 1⟩), (.plain, .routerIfSet tapA)]

theorem idIsSlot_reached : ∃ s, Lib.Run ConfStep .init idIsSlotRun s
    ∧ Reached s (afterRouterIfSet (idIsSlot, .none) 1 tapA).1
      (afterRouterIfSet (idIsSlot, .none) 1 tapA).2 := by
  obtain ⟨s₁, h₁, hr₁⟩ := @exists_handled .init (.vswitchSet ⟨7, 7⟩) _ _ rfl
  obtain ⟨s₂, h₂, hr₂⟩ := @exists_handled s₁ (.vswitchSet ⟨1, 1⟩) idIsSlot .none (by
    rw [hr₁.conf, hr₁.rings]; rfl)
  obtain ⟨s₃, h₃, hr₃⟩ := @exists_routerIfSet s₂ (idIsSlot, .none) tapA 1 hr₂ (by decide +kernel)
    (by decide) (fun l => rfl) (by decide)
  exact ⟨s₃, ((Lib.Run.nil.snoc h₁).snoc h₂).snoc h₃, hr₃⟩

theorem idIsSlot_deletesOwn : DeletesOwn (afterRouterIfSet (idIsSlot, .none) 1 tapA).1
    (afterRouterIfSet (idIsSlot, .none) 1 tapA).2 (.routerIfNoSet tapA) := by
  rintro i ⟨hi, hname⟩ j hj
  have hsize : (afterRouterIfSet (idIsSlot, .none) 1 tapA).1.vswitchSize.toNat = 2 := by decide +kernel
  rw [hsize] at hi
  have hcases : i = 0 ∨ i = 1 := by omega
  rcases hcases with rfl | rfl
  · -- vswitch `7` has no interface
    refine absurd hname ?_
    decide +kernel
  · have hslot : vswitchLookup (afterRouterIfSet (idIsSlot, .none) 1 tapA).1
        ((afterRouterIfSet (idIsSlot, .none) 1 tapA).1.vswitch 1).vswitchId = some 1 := by decide +kernel
    obtain rfl := Option.some.inj (hslot.symm.trans hj)
    exact .inl (by decide +kernel)

theorem ringsOwned_of_run_idIsSlot :
    Lib.Throughout ConfStep .init (fun s => RingsOwned s.conf s.rings)
      (idIsSlotRun ++ [(.plain, .routerIfNoSet tapA)]) := by
  obtain ⟨s, hrun, hs⟩ := idIsSlot_reached
  refine (ringsOwned_of_run (Lib.Stepwise.snoc ?_ fun s' _ hrun' _ => ?_)).1
  · -- nothing is deleted before
    rintro pre event s' t hpre - -
    have hmem : event ∈ idIsSlotRun := hpre.subset (by simp)
    simp only [idIsSlotRun, List.mem_cons, List.not_mem_nil, or_false] at hmem
    rcases hmem with rfl | rfl | rfl <;> exact trivial
  · obtain rfl := @Lib.Run.unique _ _ ConfStep _ (fun _ _ _ _ => confStep_unique) _ _ _ hrun hrun'
    rw [hs.conf, hs.rings]
    exact idIsSlot_deletesOwn

end SdPlane
