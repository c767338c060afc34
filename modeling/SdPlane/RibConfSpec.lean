import SdPlane.RibManagerSpec

/-!
# What one message does to the configuration

`RibState.conf` is the configuration of the published version, and of the zero version before
there is one. The next version starts from it with the version number counted up
(`RibConf.next`), and `conf_of_ok` says what a configuration message makes of that.

The rest of the module is a frame: neighbor tables and forwarding database belong to the three
messages that are about them, and every other message leaves them alone (`KeepsTables`).
-/

set_option autoImplicit false

namespace SdPlane

/-- The configuration of the published version. -/
def RibState.conf (s : RibState) : RibConf := (s.published.map RibInfo.toRibConf).getD .zero

/-- What `rib_create` copies. -/
def RibConf.next (c : RibConf) : RibConf := { c with ver := c.ver + 1 }

@[simp] theorem conf_init : RibState.init.conf = RibConf.zero := rfl

theorem ribCreate_conf {env : Env} {k : Nat} {s : RibState} {info : RibInfo}
    (h : (ribCreate env k s.rib).bind Rib.ribInfo = some info) :
    info.toRibConf = s.conf.next := by
  obtain rfl := ribCreate_some h
  rw [RibState.conf]
  cases s.published with
  | none => rfl
  | some old => rfl

/-- The stop flags of the ports are all that `set_stop_flag` and `delete_stop_flag` write. -/
theorem stopPorts_conf {env : Env} {flag : Bool} {s : RibState} {rib : Option Rib}
    (h : stopPorts env flag s.rib = .ok rib) :
    ({ s with rib := rib } : RibState).conf = s.conf
      ∨ putStopFlag env flag s.conf = .ok ({ s with rib := rib } : RibState).conf := by
  rw [stopPorts] at h
  split at h
  · obtain rfl := Except.ok.inj h
    exact .inl rfl
  · obtain ⟨info, hinfo, h⟩ := bind_ok h
    obtain ⟨conf, hconf, h⟩ := bind_ok h
    obtain rfl := Except.ok.inj h
    have hpub : s.published = some info := deref_ok hinfo
    refine .inr ?_
    rw [RibState.conf, hpub]
    exact hconf

/-- **What a configuration message does.** Its handler works on the copy, and the result is
    published, or the handler gives up and only stop flags are written. -/
theorem conf_of_ok {env : Env} {s t : RibState} {msg : ConfMsg}
    (h : ribManagerProcessMessage env s (.conf msg) = .ok t) :
    (∃ c rings, confMessage env s.rib s.conf.next s.rings msg = .ok (some (c, rings))
        ∧ t.conf = c ∧ t.published.isSome ∧ t.rings = rings)
      ∨ confMessage env s.rib s.conf.next s.rings msg = .ok none
        ∧ (t.conf = s.conf ∨ putStopFlag env false s.conf = .ok t.conf) := by
  obtain ⟨info, hinfo, h⟩ := bind_ok h
  obtain ⟨result, hresult, h⟩ := bind_ok h
  rw [ribCreate_conf (deref_ok hinfo)] at hresult
  cases result with
  | none =>
    obtain ⟨rib, hrib, h⟩ := bind_ok h
    obtain rfl := Except.ok.inj h
    exact .inr ⟨hresult, stopPorts_conf hrib⟩
  | some result =>
    obtain ⟨c, rings⟩ := result
    obtain rfl := Except.ok.inj h
    exact .inl ⟨c, rings, hresult, rfl, rfl, rfl⟩

/-- A handler that is known to make a configuration makes the one that is published. -/
theorem conf_of_handled {env : Env} {s t : RibState} {msg : ConfMsg} {c : RibConf} {rings : Rings}
    (hresult : confMessage env s.rib s.conf.next s.rings msg = .ok (some (c, rings)))
    (h : ribManagerProcessMessage env s (.conf msg) = .ok t) : t.conf = c := by
  rcases conf_of_ok h with ⟨_, _, hok, rfl, -, -⟩ | ⟨hok, -⟩
  · rw [hresult] at hok
    exact (Prod.mk.inj (Option.some.inj (Except.ok.inj hok))).1.symm
  · rw [hresult] at hok
    cases hok

/-- A message whose handler does not fault is processed, as far as memory goes. -/
theorem process_ok {env : Env} (hallocs : env.AllocsOk) {s : RibState} {msg : ConfMsg}
    {c : RibConf} {rings : Rings}
    (h : confMessage env s.rib s.conf.next s.rings msg = .ok (some (c, rings))) :
    ∃ t, ribManagerProcessMessage env s (.conf msg) = .ok t := by
  obtain ⟨info, hinfo⟩ := ribCreate_allocs hallocs 0 s.rib
  have hconf := ribCreate_conf hinfo
  simp only [ribManagerProcessMessage, hinfo, deref, bind, Except.bind, hconf, h]
  exact ⟨_, rfl⟩

/-- For a handler that never gives up there is one case. -/
theorem conf_of_handler {env : Env} {s t : RibState} {msg : ConfMsg} {f : Except Fault RibConf}
    (hmsg : confMessage env s.rib s.conf.next s.rings msg = do .ok (some (← f, s.rings)))
    (h : ribManagerProcessMessage env s (.conf msg) = .ok t) :
    f = .ok t.conf ∧ t.published.isSome := by
  rcases conf_of_ok h with ⟨c, rings, hresult, rfl, hpub, -⟩ | ⟨hresult, -⟩
  · rw [hmsg] at hresult
    obtain ⟨c', hc', hresult⟩ := bind_ok hresult
    obtain ⟨rfl, -⟩ := Prod.mk.inj (Option.some.inj (Except.ok.inj hresult))
    exact ⟨hc', hpub⟩
  · rw [hmsg] at hresult
    obtain ⟨c', -, hresult⟩ := bind_ok hresult
    cases hresult

/-- A check that is made only where `p` holds. -/
theorem guard_ok {β : Type} {p : Prop} [Decidable p] {x : Except Fault Unit}
    {f : Unit → Except Fault β} {b : β} (h : (if p then x >>= f else f ()) = .ok b) :
    (p → x = .ok ()) ∧ f () = .ok b := by
  split at h
  · obtain ⟨u, hx, h⟩ := bind_ok h
    exact ⟨fun _ => hx, h⟩
  · next hp => exact ⟨fun h' => absurd h' hp, h⟩

/-- The steps of `vswitch_delete`. -/
theorem vswitchDelete_ok {c d : RibConf} {rings rings' : Rings} {vswitchId : UInt16}
    (h : vswitchDelete c rings vswitchId = .ok (d, rings')) :
    (vswitchLookup c vswitchId = none ∧ d = c ∧ rings' = rings)
      ∨ ∃ i c₁ rings₁ c₂ c₃, vswitchLookup c vswitchId = some i
        ∧ (if (c.vswitch i).routerIf.sockfd ≥ 0 then routerIfDelete c rings vswitchId
            else .ok (c, rings)) = .ok (c₁, rings₁)
        ∧ (if (c₁.vswitch i).captureIf.sockfd ≥ 0 then captureIfDelete c₁ rings₁ vswitchId
            else .ok (c₁, rings₁)) = .ok (c₂, rings')
        ∧ vswitchDeleteLinks i (c₂.vswitch i).vswitchPortSize.toNat c₂ = .ok c₃
        ∧ d = c₃.setVswitch i fun v => { v with isDeleted := true } := by
  unfold vswitchDelete at h
  split at h
  · next hlookup =>
    obtain ⟨rfl, rfl⟩ := Prod.mk.inj (Except.ok.inj h)
    exact .inl ⟨hlookup, rfl, rfl⟩
  · next i hlookup =>
    -- the two interfaces, then the links
    have hrest : ∀ c₁ rings₁, (if (c₁.vswitch i).captureIf.sockfd ≥ 0 then do
          let s ← captureIfDelete c₁ rings₁ vswitchId
          let c ← vswitchDeleteLinks i (s.1.vswitch i).vswitchPortSize.toNat s.1
          .ok (c.setVswitch i fun v => { v with isDeleted := true }, s.2)
        else do
          let c ← vswitchDeleteLinks i (c₁.vswitch i).vswitchPortSize.toNat c₁
          .ok (c.setVswitch i fun v => { v with isDeleted := true }, rings₁)) = .ok (d, rings') →
        ∃ c₂ c₃, (if (c₁.vswitch i).captureIf.sockfd ≥ 0 then captureIfDelete c₁ rings₁ vswitchId
            else .ok (c₁, rings₁)) = .ok (c₂, rings')
          ∧ vswitchDeleteLinks i (c₂.vswitch i).vswitchPortSize.toNat c₂ = .ok c₃
          ∧ d = c₃.setVswitch i fun v => { v with isDeleted := true } := by
      intro c₁ rings₁ h
      split at h
      · next hsock =>
        obtain ⟨⟨c₂, rings₂⟩, h₂, h⟩ := bind_ok h
        obtain ⟨c₃, h₃, h⟩ := bind_ok h
        obtain ⟨rfl, rfl⟩ := Prod.mk.inj (Except.ok.inj h)
        exact ⟨c₂, c₃, by rw [if_pos hsock]; exact h₂, h₃, rfl⟩
      · next hsock =>
        obtain ⟨c₃, h₃, h⟩ := bind_ok h
        obtain ⟨rfl, rfl⟩ := Prod.mk.inj (Except.ok.inj h)
        exact ⟨c₁, c₃, by rw [if_neg hsock], h₃, rfl⟩
    dsimp only at h
    split at h
    · next hsock =>
      obtain ⟨⟨c₁, rings₁⟩, h₁, h⟩ := bind_ok h
      obtain ⟨c₂, c₃, h₂, h₃, rfl⟩ := hrest c₁ rings₁ h
      exact .inr ⟨i, c₁, rings₁, c₂, c₃, hlookup, by rw [if_pos hsock]; exact h₁, h₂, h₃, rfl⟩
    · next hsock =>
      obtain ⟨c₂, c₃, h₂, h₃, rfl⟩ := hrest c rings h
      exact .inr ⟨i, c, rings, c₂, c₃, hlookup, by rw [if_neg hsock], h₂, h₃, rfl⟩

/-- The rule of the loop over the links of a vswitch: each of its rounds keeps `P`, and there is
    no link on the list when it ends. -/
theorem vswitchDeleteLinks_rule (P : RibConf → Prop) {i fuel : Nat} {c d : RibConf} (init : P c)
    (step : ∀ e e', P e → (e.vswitch i).vswitchPortSize > 0 →
      vswitchLinkDelete e ((e.vswitch i).vswitchLinkId 0) = .ok e' → P e')
    (h : vswitchDeleteLinks i fuel c = .ok d) : P d ∧ (d.vswitch i).vswitchPortSize = 0 := by
  have hstop : ∀ {e : RibConf}, ¬ (e.vswitch i).vswitchPortSize > 0 →
      (e.vswitch i).vswitchPortSize = 0 := by
    intro e he
    exact UInt16.toNat_inj.mp (Nat.le_zero.mp (UInt16.le_iff_toNat_le.mp (UInt16.not_lt.mp he)))
  induction fuel generalizing c with
  | zero =>
    unfold vswitchDeleteLinks at h
    split at h
    · cases h
    · next hsize =>
      obtain rfl := Except.ok.inj h
      exact ⟨init, hstop hsize⟩
  | succ fuel ih =>
    unfold vswitchDeleteLinks at h
    split at h
    · next hsize =>
      split at h
      · cases h
      · next hone => exact ih (step c _ init hsize hone) h
    · next hsize =>
      obtain rfl := Except.ok.inj h
      exact ⟨init, hstop hsize⟩

/-- `VSWITCH_PORT_NO_SET` deletes one link, if it finds it. -/
theorem vswitchPortNoSet_cases {c d : RibConf} {msg : InternalMsgVswitchPort}
    (h : c.vswitchPortNoSet msg = .ok d) : d = c ∨ ∃ l, vswitchLinkDelete c l = .ok d := by
  unfold RibConf.vswitchPortNoSet at h
  split at h
  · exact .inl (Except.ok.inj h).symm
  · obtain ⟨-, h⟩ := guard_ok h
    split at h
    · exact .inl (Except.ok.inj h).symm
    · exact .inr ⟨_, h⟩

/-- What deleting an interface and deleting a link both keep, deleting a vswitch keeps. -/
theorem vswitchDelete_rule (P : RibConf → Prop) {c d : RibConf} {rings rings' : Rings}
    {vswitchId : UInt16} (init : P c)
    (router : ∀ {e e' r r'}, P e → routerIfDelete e r vswitchId = .ok (e', r') → P e')
    (capture : ∀ {e e' r r'}, P e → captureIfDelete e r vswitchId = .ok (e', r') → P e')
    (link : ∀ {e e' l}, P e → vswitchLinkDelete e l = .ok e' → P e')
    (mark : ∀ {e} i, P e → P (e.setVswitch i fun v => { v with isDeleted := true }))
    (h : vswitchDelete c rings vswitchId = .ok (d, rings')) : P d := by
  rcases vswitchDelete_ok h with ⟨-, rfl, -⟩ | ⟨i, c₁, rings₁, c₂, c₃, -, h₁, h₂, h₃, rfl⟩
  · exact init
  · have hrouter : P c₁ := by
      split at h₁
      · exact router init h₁
      · obtain ⟨rfl, -⟩ := Prod.mk.inj (Except.ok.inj h₁)
        exact init
    have hcapture : P c₂ := by
      split at h₂
      · exact capture hrouter h₂
      · obtain ⟨rfl, -⟩ := Prod.mk.inj (Except.ok.inj h₂)
        exact hrouter
    exact mark i (vswitchDeleteLinks_rule P hcapture (fun _ _ he _ hone => link he hone) h₃).1

/-- The loop over the vswitches keeps what deleting one interface keeps. -/
theorem tapNoSet_rule (P : RibConf → Prop) {c d : RibConf} {rings rings' : Rings}
    {tapName : VswitchConf → CharBuf} {name : CharBuf}
    {delete : RibConf → Rings → UInt16 → Except Fault (RibConf × Rings)} (init : P c)
    (one : ∀ {e e' r r' vswitchId}, P e → delete e r vswitchId = .ok (e', r') → P e')
    (h : RibConf.tapNoSet tapName delete name c rings = .ok (d, rings')) : P d := by
  refine (Lib.forRange_rule (fun _ (s : RibConf × Rings) => P s.1) (fun _ => True) init
    fun i s _ hs => ⟨fun s' hs' => ?_, fun _ _ => trivial⟩).1 _ h
  obtain ⟨_, -, hs'⟩ := bind_ok hs'
  split at hs'
  · exact one hs hs'
  · obtain rfl := Except.ok.inj hs'
    exact hs

/-- What giving a vswitch the rings of one of its interfaces keeps, giving it those of both does. -/
theorem createIfRings_rule (P : RibConf → Prop) {env : Env} {i : Nat} {s : RibConf × Rings}
    (init : P s.1)
    (router : ∀ {e} up dn, P e → P (e.setVswitch i fun v => { v with
      routerIf := { v.routerIf with ringUp := up, ringDn := dn } }))
    (capture : ∀ {e} up dn, P e → P (e.setVswitch i fun v => { v with
      captureIf := { v.captureIf with ringUp := up, ringDn := dn } })) :
    P (createIfRings env i s).1 := by
  obtain ⟨c, rings⟩ := s
  unfold createIfRings
  dsimp only
  split
  · exact init
  · split
    · split
      · exact capture _ _ (router _ _ init)
      · exact router _ _ init
    · split
      · exact capture _ _ init
      · exact init

/-- And so `rib_check` does. -/
theorem ribCheck_rule (P : RibConf → Prop) {env : Env} {c d : RibConf} {rings rings' : Rings}
    (init : P c)
    (router : ∀ {e} i up dn, P e → P (e.setVswitch i fun v => { v with
      routerIf := { v.routerIf with ringUp := up, ringDn := dn } }))
    (capture : ∀ {e} i up dn, P e → P (e.setVswitch i fun v => { v with
      captureIf := { v.captureIf with ringUp := up, ringDn := dn } }))
    (h : ribCheck env c rings = .ok (some (d, rings'))) : P d := by
  unfold ribCheck at h
  obtain ⟨-, h⟩ := guard_ok h
  obtain ⟨queues, -, h⟩ := bind_ok h
  obtain ⟨-, h⟩ := guard_ok h
  obtain ⟨ordered, -, h⟩ := bind_ok h
  split at h
  · obtain ⟨_, -, h⟩ := bind_ok h
    obtain ⟨rings₁, -, h⟩ := bind_ok h
    obtain ⟨_, -, h⟩ := bind_ok h
    have hpair := Option.some.inj (Except.ok.inj h)
    have hloop := Lib.forUpTo_rule (fun _ s => P s.1) (s := (c, rings₁)) init
      fun i s (_ : i < c.vswitchSize.toNat) hs =>
        @createIfRings_rule P env i s hs (router i) (capture i)
    rw [hpair] at hloop
    exact hloop
  · cases h

/-! ## What most messages leave alone -/

/-- The neighbor tables and the forwarding database are the same. -/
structure KeepsTables (c d : RibConf) : Prop where
  neigh : d.neighTables = c.neighTables
  fdb : d.fdb = c.fdb

/-- Vswitches, links and ports refer to each other as before. -/
structure KeepsWiring (c d : RibConf) : Prop where
  vswitchSize : d.vswitchSize = c.vswitchSize
  linkSize : d.vswitchLinkSize = c.vswitchLinkSize
  link : d.vswitchLink = c.vswitchLink
  vswitch : ∀ i, ∃ rif cif, d.vswitch i = { c.vswitch i with routerIf := rif, captureIf := cif }
  port : ∀ p, (d.port p).vlanSize = (c.port p).vlanSize
    ∧ (d.port p).vswitchLinkIdOfVlan = (c.port p).vswitchLinkIdOfVlan
    ∧ (d.port p).vswitchLinkIdOfNativeVlan = (c.port p).vswitchLinkIdOfNativeVlan
  /-- A port that the driver reports has its index for an id. -/
  ids : ∀ p, (d.port p).dpdkPortId = (c.port p).dpdkPortId
    ∨ p < MAX_ETH_PORTS ∧ (d.port p).dpdkPortId = UInt16.ofNat p

/-- Neither tables nor wiring are touched. -/
structure Peripheral (c d : RibConf) : Prop extends KeepsTables c d, KeepsWiring c d

namespace KeepsWiring

theorem refl (c : RibConf) : KeepsWiring c c :=
  ⟨rfl, rfl, rfl, fun _ => ⟨_, _, rfl⟩, fun _ => ⟨rfl, rfl, rfl⟩, fun _ => .inl rfl⟩

theorem of_eq {c d : RibConf} (hsize : d.vswitchSize = c.vswitchSize)
    (hlinkSize : d.vswitchLinkSize = c.vswitchLinkSize) (hlink : d.vswitchLink = c.vswitchLink)
    (hvswitch : d.vswitch = c.vswitch) (hport : d.port = c.port) : KeepsWiring c d :=
  ⟨hsize, hlinkSize, hlink, fun _ => ⟨_, _, by rw [hvswitch]⟩, fun _ => by simp [hport],
    fun _ => .inl (by rw [hport])⟩

theorem trans {c d e : RibConf} (h : KeepsWiring c d) (h' : KeepsWiring d e) : KeepsWiring c e := by
  refine ⟨h'.vswitchSize.trans h.vswitchSize, h'.linkSize.trans h.linkSize, h'.link.trans h.link,
    fun i => ?_, fun p => ?_, fun p => ?_⟩
  · obtain ⟨rif, cif, hd⟩ := h.vswitch i
    obtain ⟨rif', cif', he⟩ := h'.vswitch i
    exact ⟨rif', cif', by rw [he, hd]⟩
  · obtain ⟨hsize, hvlan, hnative⟩ := h.port p
    obtain ⟨hsize', hvlan', hnative'⟩ := h'.port p
    exact ⟨hsize'.trans hsize, hvlan'.trans hvlan, hnative'.trans hnative⟩
  · rcases h'.ids p with hkept | hindex
    · rw [hkept]
      exact h.ids p
    · exact .inr hindex

end KeepsWiring

namespace Peripheral

theorem refl (c : RibConf) : Peripheral c c := ⟨⟨rfl, rfl⟩, .refl c⟩

theorem trans {c d e : RibConf} (h : Peripheral c d) (h' : Peripheral d e) : Peripheral c e :=
  ⟨⟨h'.neigh.trans h.neigh, h'.fdb.trans h.fdb⟩, h.toKeepsWiring.trans h'.toKeepsWiring⟩

theorem next (c : RibConf) : Peripheral c c.next := ⟨⟨rfl, rfl⟩, .of_eq rfl rfl rfl rfl rfl⟩

variable {c d : RibConf} {rings rings' : Rings}

theorem setVswitch (i : Nat) {f : VswitchConf → VswitchConf}
    (hf : ∀ v, ∃ rif cif, f v = { v with routerIf := rif, captureIf := cif }) :
    Peripheral c (c.setVswitch i f) := by
  refine ⟨⟨rfl, rfl⟩, rfl, rfl, rfl, fun j => ?_, fun _ => ⟨rfl, rfl, rfl⟩, fun _ => .inl rfl⟩
  by_cases hj : j = i
  · subst hj
    obtain ⟨rif, cif, hv⟩ := hf (c.vswitch j)
    exact ⟨rif, cif, (Function.update_self ..).trans hv⟩
  · exact ⟨_, _, Function.update_of_ne hj _ _⟩

theorem setPort (p : Nat) {f : PortConf → PortConf}
    (hf : ∀ q, (f q).vlanSize = q.vlanSize ∧ (f q).vswitchLinkIdOfVlan = q.vswitchLinkIdOfVlan
      ∧ (f q).vswitchLinkIdOfNativeVlan = q.vswitchLinkIdOfNativeVlan)
    (hid : ∀ q, (f q).dpdkPortId = q.dpdkPortId) : Peripheral c (c.setPort p f) := by
  refine ⟨⟨rfl, rfl⟩, rfl, rfl, rfl, fun _ => ⟨_, _, rfl⟩, fun q => ?_, fun q => .inl ?_⟩
  all_goals by_cases hq : q = p
  · subst hq
    rw [show (c.setPort q f).port q = f (c.port q) from Function.update_self ..]
    exact hf _
  · rw [show (c.setPort p f).port q = c.port q from Function.update_of_ne hq _ _]
    exact ⟨rfl, rfl, rfl⟩
  · subst hq
    rw [show (c.setPort q f).port q = f (c.port q) from Function.update_self ..]
    exact hid _
  · rw [show (c.setPort p f).port q = c.port q from Function.update_of_ne hq _ _]

/-- All ports at once. -/
theorem ports {f : Nat → PortConf}
    (hf : ∀ p, (f p).vlanSize = (c.port p).vlanSize
      ∧ (f p).vswitchLinkIdOfVlan = (c.port p).vswitchLinkIdOfVlan
      ∧ (f p).vswitchLinkIdOfNativeVlan = (c.port p).vswitchLinkIdOfNativeVlan)
    (hid : ∀ p, (f p).dpdkPortId = (c.port p).dpdkPortId) : Peripheral c { c with port := f } :=
  ⟨⟨rfl, rfl⟩, rfl, rfl, rfl, fun _ => ⟨_, _, rfl⟩, hf, fun p => .inl (hid p)⟩

theorem routerIfDelete {vswitchId : UInt16}
    (h : SdPlane.routerIfDelete c rings vswitchId = .ok (d, rings')) : Peripheral c d := by
  unfold SdPlane.routerIfDelete at h
  split at h
  · cases h
  · obtain ⟨_, -, h⟩ := bind_ok h
    obtain ⟨rfl, -⟩ := Prod.mk.inj (Except.ok.inj h)
    exact .setVswitch _ fun v => ⟨_, _, rfl⟩

theorem captureIfDelete {vswitchId : UInt16}
    (h : SdPlane.captureIfDelete c rings vswitchId = .ok (d, rings')) : Peripheral c d := by
  unfold SdPlane.captureIfDelete at h
  split at h
  · cases h
  · obtain ⟨_, -, h⟩ := bind_ok h
    obtain ⟨rfl, -⟩ := Prod.mk.inj (Except.ok.inj h)
    exact .setVswitch _ fun v => ⟨_, _, rfl⟩

theorem tapNoSet {tapName : VswitchConf → CharBuf} {name : CharBuf}
    {delete : RibConf → Rings → UInt16 → Except Fault (RibConf × Rings)}
    (hdelete : ∀ {c d rings rings' vswitchId}, delete c rings vswitchId = .ok (d, rings') →
      Peripheral c d) (h : RibConf.tapNoSet tapName delete name c rings = .ok (d, rings')) :
    Peripheral c d :=
  tapNoSet_rule (Peripheral c) (.refl c) (fun hkeeps hone => hkeeps.trans (hdelete hone)) h

theorem onRouterIf (p : RouterIf → Bool) (f : RouterIf → RouterIf) :
    Peripheral c (c.onRouterIf p f) := by
  unfold RibConf.onRouterIf
  split
  · exact .setVswitch _ fun v => ⟨_, _, rfl⟩
  · exact .refl _

theorem createIfRings (env : Env) (i : Nat) (s : RibConf × Rings) :
    Peripheral s.1 (SdPlane.createIfRings env i s).1 :=
  createIfRings_rule (Peripheral s.1) (refl s.1)
    (fun _ _ hkeeps => hkeeps.trans (setVswitch i fun _ => ⟨_, _, rfl⟩))
    (fun _ _ hkeeps => hkeeps.trans (setVswitch i fun _ => ⟨_, _, rfl⟩))

theorem ribCheck {env : Env} (h : SdPlane.ribCheck env c rings = .ok (some (d, rings'))) :
    Peripheral c d :=
  ribCheck_rule (Peripheral c) (refl c)
    (fun i _ _ hkeeps => hkeeps.trans (setVswitch i fun _ => ⟨_, _, rfl⟩))
    (fun i _ _ hkeeps => hkeeps.trans (setVswitch i fun _ => ⟨_, _, rfl⟩)) h

theorem ribCheckStopped {env : Env} {old : Option Rib}
    (h : SdPlane.ribCheckStopped env old c rings = .ok (some (d, rings'))) : Peripheral c d := by
  obtain ⟨_, -, h⟩ := bind_ok h
  exact ribCheck h

theorem updatePortStatus {env : Env} (h : SdPlane.updatePortStatus env c = .ok d) :
    Peripheral c d := by
  unfold SdPlane.updatePortStatus at h
  split at h
  · cases h
  · next hbound =>
    obtain rfl := Except.ok.inj h
    refine ⟨⟨rfl, rfl⟩, rfl, rfl, rfl, fun _ => ⟨_, _, rfl⟩, fun p => ?_, fun p => ?_⟩
    · dsimp only
      split <;> exact ⟨rfl, rfl, rfl⟩
    · dsimp only
      split
      · next hp => exact .inr ⟨hp.trans_le (Nat.le_of_not_lt hbound), rfl⟩
      · exact .inl rfl

theorem putStopFlag {env : Env} {flag : Bool} (h : SdPlane.putStopFlag env flag c = .ok d) :
    Peripheral c d := by
  unfold SdPlane.putStopFlag at h
  split at h
  · cases h
  · obtain rfl := Except.ok.inj h
    apply Peripheral.ports
    · intro p
      dsimp only
      split <;> exact ⟨rfl, rfl, rfl⟩
    · intro p
      dsimp only
      split <;> rfl

theorem qconf {env : Env} {q : Nat → LcoreQconf} (h : c.qconf env q = .ok d) :
    Peripheral c d := by
  unfold RibConf.qconf at h
  dsimp only at h
  split at h
  · cases h
  · obtain rfl := Except.ok.inj h
    exact ⟨⟨rfl, rfl⟩, rfl, rfl, rfl, fun _ => ⟨_, _, rfl⟩, fun _ => ⟨rfl, rfl, rfl⟩,
      fun _ => .inl rfl⟩

theorem txrxDesc {msg : InternalMsgTxrxDesc} (h : c.txrxDesc msg = .ok d) : Peripheral c d := by
  unfold RibConf.txrxDesc at h
  obtain ⟨-, h⟩ := guard_ok h
  obtain rfl := Except.ok.inj h
  exact .setPort _ (fun q => ⟨rfl, rfl, rfl⟩) fun q => rfl

end Peripheral

/-- Nothing but vswitches, links and ports has changed. -/
def OnlyWiring (c d : RibConf) : Prop :=
  ∃ vswitchSize vswitchLinkSize vswitch vswitchLink port,
    d = { c with vswitchSize := vswitchSize, vswitchLinkSize := vswitchLinkSize, vswitch := vswitch,
                 vswitchLink := vswitchLink, port := port }

namespace OnlyWiring

variable {c d : RibConf} {rings rings' : Rings}

theorem refl (c : RibConf) : OnlyWiring c c := ⟨_, _, _, _, _, rfl⟩

theorem trans {e : RibConf} (h : OnlyWiring c d) (h' : OnlyWiring d e) : OnlyWiring c e := by
  obtain ⟨_, _, _, _, _, rfl⟩ := h
  obtain ⟨_, _, _, _, _, rfl⟩ := h'
  exact ⟨_, _, _, _, _, rfl⟩

theorem setVswitch (c : RibConf) (i : Nat) (f : VswitchConf → VswitchConf) :
    OnlyWiring c (c.setVswitch i f) := ⟨_, _, _, _, _, rfl⟩

theorem setLink (c : RibConf) (l : Nat) (f : VswitchLink → VswitchLink) :
    OnlyWiring c (c.setLink l f) := ⟨_, _, _, _, _, rfl⟩

theorem setPort (c : RibConf) (p : Nat) (f : PortConf → PortConf) :
    OnlyWiring c (c.setPort p f) := ⟨_, _, _, _, _, rfl⟩

theorem vswitchNew {vswitchId vlanId : UInt16} {i : Nat}
    (h : SdPlane.vswitchNew c vswitchId vlanId = some (i, d)) : OnlyWiring c d := by
  simp only [SdPlane.vswitchNew] at h
  split at h
  · obtain ⟨-, rfl⟩ := Prod.mk.inj (Option.some.inj h)
    exact ⟨_, _, _, _, _, rfl⟩
  · split at h
    · cases h
    · obtain ⟨-, rfl⟩ := Prod.mk.inj (Option.some.inj h)
      exact ⟨_, _, _, _, _, rfl⟩

theorem vswitchSet (msg : InternalMsgVswitch) : OnlyWiring c (c.vswitchSet msg) := by
  unfold RibConf.vswitchSet
  split
  · exact refl c
  · split
    · next hnew => exact vswitchNew hnew
    · exact refl c

theorem vswitchLinkNew {vswitch port i : Nat}
    (h : SdPlane.vswitchLinkNew c vswitch port = some (i, d)) : OnlyWiring c d := by
  simp only [SdPlane.vswitchLinkNew] at h
  split at h
  · obtain ⟨-, rfl⟩ := Prod.mk.inj (Option.some.inj h)
    split <;> exact ⟨_, _, _, _, _, rfl⟩
  · split at h
    · cases h
    · obtain ⟨-, rfl⟩ := Prod.mk.inj (Option.some.inj h)
      split <;> exact ⟨_, _, _, _, _, rfl⟩

theorem vswitchLinkDelete {linkId : UInt16} (h : SdPlane.vswitchLinkDelete c linkId = .ok d) :
    OnlyWiring c d := by
  obtain ⟨_, -, h⟩ := bind_ok h
  dsimp only at h
  split at h
  · cases h
  · obtain ⟨_, -, h⟩ := bind_ok h
    obtain rfl := Except.ok.inj h
    exact ⟨_, _, _, _, _, rfl⟩

theorem routerIfDelete {vswitchId : UInt16}
    (h : SdPlane.routerIfDelete c rings vswitchId = .ok (d, rings')) : OnlyWiring c d := by
  unfold SdPlane.routerIfDelete at h
  split at h
  · cases h
  · obtain ⟨_, -, h⟩ := bind_ok h
    obtain ⟨rfl, -⟩ := Prod.mk.inj (Except.ok.inj h)
    exact setVswitch c _ _

theorem captureIfDelete {vswitchId : UInt16}
    (h : SdPlane.captureIfDelete c rings vswitchId = .ok (d, rings')) : OnlyWiring c d := by
  unfold SdPlane.captureIfDelete at h
  split at h
  · cases h
  · obtain ⟨_, -, h⟩ := bind_ok h
    obtain ⟨rfl, -⟩ := Prod.mk.inj (Except.ok.inj h)
    exact setVswitch c _ _

theorem vswitchDelete {vswitchId : UInt16}
    (h : SdPlane.vswitchDelete c rings vswitchId = .ok (d, rings')) : OnlyWiring c d :=
  vswitchDelete_rule (OnlyWiring c) (refl c)
    (fun hkeeps hone => hkeeps.trans (routerIfDelete hone))
    (fun hkeeps hone => hkeeps.trans (captureIfDelete hone))
    (fun hkeeps hone => hkeeps.trans (vswitchLinkDelete hone))
    (fun i hkeeps => hkeeps.trans (setVswitch _ i _)) h

theorem vswitchPortSet {msg : InternalMsgVswitchPort} (h : c.vswitchPortSet msg = .ok d) :
    OnlyWiring c d := by
  unfold RibConf.vswitchPortSet at h
  split at h
  · obtain rfl := Except.ok.inj h
    exact refl _
  · split at h
    · obtain rfl := Except.ok.inj h
      exact refl _
    · next hnew =>
      refine (vswitchLinkNew hnew).trans ?_
      obtain ⟨_, -, h⟩ := bind_ok h
      split at h
      · obtain rfl := Except.ok.inj h
        exact (setLink _ _ _).trans (setPort _ _ _)
      · obtain rfl := Except.ok.inj h
        split
        · exact (setLink _ _ _).trans (setPort _ _ _)
        · exact setPort _ _ _

theorem vswitchPortNoSet {msg : InternalMsgVswitchPort} (h : c.vswitchPortNoSet msg = .ok d) :
    OnlyWiring c d := by
  rcases vswitchPortNoSet_cases h with rfl | ⟨l, hdel⟩
  · exact refl _
  · exact vswitchLinkDelete hdel

theorem tapNoSet {tapName : VswitchConf → CharBuf} {name : CharBuf}
    {delete : RibConf → Rings → UInt16 → Except Fault (RibConf × Rings)}
    (hdelete : ∀ {c d rings rings' vswitchId}, delete c rings vswitchId = .ok (d, rings') →
      OnlyWiring c d) (h : RibConf.tapNoSet tapName delete name c rings = .ok (d, rings')) :
    OnlyWiring c d :=
  tapNoSet_rule (OnlyWiring c) (refl c) (fun hkeeps hone => hkeeps.trans (hdelete hone)) h

theorem onRouterIf (p : RouterIf → Bool) (f : RouterIf → RouterIf) :
    OnlyWiring c (c.onRouterIf p f) := by
  unfold RibConf.onRouterIf
  split
  · exact setVswitch c _ _
  · exact refl c

theorem ribCheck {env : Env} (h : SdPlane.ribCheck env c rings = .ok (some (d, rings'))) :
    OnlyWiring c d :=
  ribCheck_rule (OnlyWiring c) (refl c) (fun i _ _ hkeeps => hkeeps.trans (setVswitch _ i _))
    (fun i _ _ hkeeps => hkeeps.trans (setVswitch _ i _)) h

theorem txrxDesc {msg : InternalMsgTxrxDesc} (h : c.txrxDesc msg = .ok d) : OnlyWiring c d := by
  unfold RibConf.txrxDesc at h
  obtain ⟨-, h⟩ := guard_ok h
  obtain rfl := Except.ok.inj h
  exact setPort c _ _

theorem putStopFlag {env : Env} {flag : Bool} (h : SdPlane.putStopFlag env flag c = .ok d) :
    OnlyWiring c d := by
  unfold SdPlane.putStopFlag at h
  split at h
  · cases h
  · obtain rfl := Except.ok.inj h
    exact ⟨_, _, _, _, _, rfl⟩

theorem keepsTables (h : OnlyWiring c d) : KeepsTables c d := by
  obtain ⟨_, _, _, _, _, rfl⟩ := h
  exact ⟨rfl, rfl⟩

end OnlyWiring

/-- The vswitches are the same. -/
structure SameVswitches (c d : RibConf) : Prop where
  size : d.vswitchSize = c.vswitchSize
  vswitch : d.vswitch = c.vswitch

namespace SameVswitches

variable {c d : RibConf}

theorem portStatus {env : Env} (h : updatePortStatus env c = .ok d) : SameVswitches c d := by
  unfold updatePortStatus at h
  split at h
  · cases h
  · obtain rfl := Except.ok.inj h
    exact ⟨rfl, rfl⟩

theorem putStopFlag {env : Env} {stop : Bool} (h : SdPlane.putStopFlag env stop c = .ok d) :
    SameVswitches c d := by
  unfold SdPlane.putStopFlag at h
  split at h
  · cases h
  · obtain rfl := Except.ok.inj h
    exact ⟨rfl, rfl⟩

theorem qconf {env : Env} {q : Nat → LcoreQconf} (h : c.qconf env q = .ok d) :
    SameVswitches c d := by
  unfold RibConf.qconf at h
  dsimp only at h
  split at h
  · cases h
  · obtain rfl := Except.ok.inj h
    exact ⟨rfl, rfl⟩

theorem txrxDesc {msg : InternalMsgTxrxDesc} (h : c.txrxDesc msg = .ok d) : SameVswitches c d := by
  unfold RibConf.txrxDesc at h
  obtain ⟨-, h⟩ := guard_ok h
  obtain rfl := Except.ok.inj h
  exact ⟨rfl, rfl⟩

theorem neighEntryAdd {msg : InternalMsgNeighEntry} (h : c.neighEntryAdd msg = .ok d) :
    SameVswitches c d := by
  obtain ⟨⟨type, pos⟩, -, h⟩ := bind_ok h
  dsimp only at h
  split at h
  · obtain ⟨entries, -, h⟩ := bind_ok h
    obtain rfl := Except.ok.inj h
    exact ⟨rfl, rfl⟩
  · obtain rfl := Except.ok.inj h
    exact ⟨rfl, rfl⟩

theorem neighEntryDel {msg : InternalMsgNeighEntry} (h : c.neighEntryDel msg = .ok d) :
    SameVswitches c d := by
  obtain ⟨⟨type, pos⟩, -, h⟩ := bind_ok h
  obtain ⟨n, -, h⟩ := bind_ok h
  obtain rfl := Except.ok.inj h
  exact ⟨rfl, rfl⟩

end SameVswitches

namespace KeepsTables

theorem refl (c : RibConf) : KeepsTables c c := ⟨rfl, rfl⟩

theorem trans {c d e : RibConf} (h : KeepsTables c d) (h' : KeepsTables d e) : KeepsTables c e :=
  ⟨h'.neigh.trans h.neigh, h'.fdb.trans h.fdb⟩

theorem next (c : RibConf) : KeepsTables c c.next := ⟨rfl, rfl⟩

end KeepsTables

def ConfMsg.isNeigh : ConfMsg → Bool
  | .neighEntryAdd _ | .neighEntryDel _ => true
  | _ => false

def ConfMsg.isFdb : ConfMsg → Bool
  | .fdbEntryAdd _ => true
  | _ => false

def ConfMsg.isVswitch : ConfMsg → Bool
  | .vswitchSet _ | .vswitchNoSet _ | .vswitchPortSet _ | .vswitchPortNoSet _ => true
  | _ => false

section Handlers

variable {env : Env} {old : Option Rib} {c d : RibConf} {rings rings' : Rings} {msg : ConfMsg}

/-- How most handlers end. -/
theorem handler_ok {x : Except Fault RibConf}
    (h : (do .ok (some (← x, rings))) = .ok (some (d, rings'))) : x = .ok d := by
  obtain ⟨c', hc', h⟩ := bind_ok h
  obtain ⟨rfl, -⟩ := Prod.mk.inj (Option.some.inj (Except.ok.inj h))
  exact hc'

theorem plain_ok (h : (.ok (some (c, rings)) : Except Fault _) = .ok (some (d, rings'))) :
    c = d :=
  (Prod.mk.inj (Option.some.inj (Except.ok.inj h))).1

/-- After a `TXRX_DESC` the version is checked or not, and kept if it is refused. -/
theorem txrxDesc_ok {msg : InternalMsgTxrxDesc}
    (h : confMessage env old c rings (.txrxDesc msg) = .ok (some (d, rings'))) :
    ∃ c', c.txrxDesc msg = .ok c'
      ∧ ((d = c' ∧ rings' = rings) ∨ ribCheck env c' rings = .ok (some (d, rings'))) := by
  obtain ⟨c', hc', h⟩ := bind_ok h
  refine ⟨c', hc', ?_⟩
  split at h
  · have hcheck : ∃ result, ribCheck env c' rings = .ok result
        ∧ result.getD (c', rings) = (d, rings') := by
      split at h
      all_goals
        obtain ⟨_, -, h⟩ := bind_ok h
        obtain ⟨result, hcheck, h⟩ := bind_ok h
        exact ⟨result, hcheck, Option.some.inj (Except.ok.inj h)⟩
    obtain ⟨result, hcheck, hresult⟩ := hcheck
    cases result with
    | none =>
      obtain ⟨rfl, rfl⟩ := Prod.mk.inj hresult
      exact .inl ⟨rfl, rfl⟩
    | some result =>
      obtain rfl : result = (d, rings') := hresult
      exact .inr hcheck
  · obtain ⟨rfl, rfl⟩ := Prod.mk.inj (Option.some.inj (Except.ok.inj h))
    exact .inl ⟨rfl, rfl⟩

theorem confMessage_peripheral (hneigh : msg.isNeigh = false) (hfdb : msg.isFdb = false)
    (hvswitch : msg.isVswitch = false)
    (h : confMessage env old c rings msg = .ok (some (d, rings'))) : Peripheral c d := by
  cases msg with
  | neighEntryAdd _ => cases hneigh
  | neighEntryDel _ => cases hneigh
  | fdbEntryAdd _ => cases hfdb
  | vswitchSet _ => cases hvswitch
  | vswitchNoSet _ => cases hvswitch
  | vswitchPortSet _ => cases hvswitch
  | vswitchPortNoSet _ => cases hvswitch
  | portStatus => exact .updatePortStatus (handler_ok h)
  | qconf q =>
    obtain ⟨c', hc', h⟩ := bind_ok h
    exact (Peripheral.qconf hc').trans (.ribCheckStopped h)
  | txrxDesc msg =>
    obtain ⟨c', hc', ⟨rfl, -⟩ | hcheck⟩ := txrxDesc_ok h
    · exact .txrxDesc hc'
    · exact (Peripheral.txrxDesc hc').trans (.ribCheck hcheck)
  | routerIfSet msg =>
    simp only [confMessage] at h
    split at h
    · obtain rfl := plain_ok h
      exact .refl _
    · exact (Peripheral.setVswitch _ fun v => ⟨_, _, rfl⟩).trans (.ribCheckStopped h)
  | routerIfNoSet msg =>
    obtain ⟨⟨c', rings₁⟩, hc', h⟩ := bind_ok h
    obtain ⟨rfl, -⟩ := Prod.mk.inj (Option.some.inj (Except.ok.inj h))
    exact .tapNoSet .routerIfDelete hc'
  | captureIfSet msg =>
    simp only [confMessage] at h
    split at h
    · obtain rfl := plain_ok h
      exact .refl _
    · exact (Peripheral.setVswitch _ fun v => ⟨_, _, rfl⟩).trans (.ribCheckStopped h)
  | captureIfNoSet msg =>
    obtain ⟨⟨c', rings₁⟩, hc', h⟩ := bind_ok h
    obtain ⟨rfl, -⟩ := Prod.mk.inj (Option.some.inj (Except.ok.inj h))
    exact .tapNoSet .captureIfDelete hc'
  | applicationSlot msg =>
    obtain rfl := plain_ok h
    unfold applicationSlotAdd
    split <;> exact ⟨⟨rfl, rfl⟩, .of_eq rfl rfl rfl rfl rfl⟩
  | macAddrAdd msg =>
    obtain rfl := plain_ok h
    exact .onRouterIf _ _
  | macAddrDel msg =>
    obtain rfl := plain_ok h
    exact .onRouterIf _ _
  | ipAddrAdd msg =>
    obtain rfl := plain_ok h
    exact .onRouterIf _ _
  | ipAddrDel msg =>
    obtain rfl := plain_ok h
    exact .onRouterIf _ _
  | srv6LocalSid msg =>
    obtain rfl := plain_ok h
    unfold RibConf.srv6LocalSid
    dsimp only
    split <;> exact ⟨⟨rfl, rfl⟩, .of_eq rfl rfl rfl rfl rfl⟩

theorem confMessage_keepsTables (hneigh : msg.isNeigh = false) (hfdb : msg.isFdb = false)
    (h : confMessage env old c rings msg = .ok (some (d, rings'))) : KeepsTables c d := by
  cases hvswitch : msg.isVswitch with
  | false => exact (confMessage_peripheral hneigh hfdb hvswitch h).toKeepsTables
  | true =>
    cases msg with
    | vswitchSet msg =>
      obtain rfl := plain_ok h
      exact (OnlyWiring.vswitchSet msg).keepsTables
    | vswitchNoSet msg =>
      obtain ⟨⟨c', rings₁⟩, hc', h⟩ := bind_ok h
      obtain ⟨rfl, -⟩ := Prod.mk.inj (Option.some.inj (Except.ok.inj h))
      exact (OnlyWiring.vswitchDelete hc').keepsTables
    | vswitchPortSet msg => exact (OnlyWiring.vswitchPortSet (handler_ok h)).keepsTables
    | vswitchPortNoSet msg => exact (OnlyWiring.vswitchPortNoSet (handler_ok h)).keepsTables
    | _ => cases hvswitch

theorem confMessage_keepsWiring (hvswitch : msg.isVswitch = false)
    (h : confMessage env old c rings msg = .ok (some (d, rings'))) : KeepsWiring c d := by
  cases msg with
  | neighEntryAdd msg =>
    obtain ⟨⟨type, pos⟩, -, h⟩ := bind_ok (handler_ok h)
    dsimp only at h
    split at h
    · obtain ⟨entries, -, h⟩ := bind_ok h
      obtain rfl := Except.ok.inj h
      exact .of_eq rfl rfl rfl rfl rfl
    · obtain rfl := Except.ok.inj h
      exact .of_eq rfl rfl rfl rfl rfl
  | neighEntryDel msg =>
    obtain ⟨⟨type, pos⟩, -, h⟩ := bind_ok (handler_ok h)
    obtain ⟨n, -, h⟩ := bind_ok h
    obtain rfl := Except.ok.inj h
    exact .of_eq rfl rfl rfl rfl rfl
  | fdbEntryAdd msg =>
    obtain rfl := plain_ok h
    exact .of_eq rfl rfl rfl rfl rfl
  | vswitchSet _ => cases hvswitch
  | vswitchNoSet _ => cases hvswitch
  | vswitchPortSet _ => cases hvswitch
  | vswitchPortNoSet _ => cases hvswitch
  | _ => exact (confMessage_peripheral rfl rfl rfl h).toKeepsWiring

end Handlers

/-- A message about neither table. -/
def Msg.Elsewhere : Msg → Prop
  | .conf msg => msg.isNeigh = false ∧ msg.isFdb = false
  | .portGetRequest _ | .routing _ | .unknown _ => True

theorem keepsTables_of_ok {env : Env} (hallocs : env.AllocsOk) {s t : RibState} {msg : Msg}
    (hmsg : msg.Elsewhere) (h : ribManagerProcessMessage env s msg = .ok t) :
    KeepsTables s.conf t.conf := by
  cases msg with
  | conf msg =>
    rcases conf_of_ok h with ⟨c, rings, hresult, rfl, -, -⟩ | ⟨-, hsame | hflag⟩
    · exact (KeepsTables.next s.conf).trans (confMessage_keepsTables hmsg.1 hmsg.2 hresult)
    · rw [hsame]
      exact .refl _
    · exact (Peripheral.putStopFlag hflag).toKeepsTables
  | portGetRequest portId =>
    obtain ⟨info, hinfo, rfl⟩ := portGet_ok h
    have hconf := ribCreate_conf hinfo
    have hkeeps : KeepsTables s.conf info.toRibConf := by
      rw [hconf]
      exact .next _
    exact ⟨hkeeps.neigh, hkeeps.fdb⟩
  | routing msg =>
    obtain ⟨info, hinfo, h⟩ := bind_ok h
    have hconf := ribCreate_conf (deref_ok hinfo)
    obtain rfl := Except.ok.inj h
    show KeepsTables s.conf info.toRibConf
    rw [hconf]
    exact .next _
  | unknown type =>
    obtain ⟨info, hinfo⟩ := ribCreate_allocs hallocs 0 s.rib
    simp only [ribManagerProcessMessage, publish, hinfo] at h
    obtain rfl := Except.ok.inj h
    show KeepsTables s.conf info.toRibConf
    rw [ribCreate_conf hinfo]
    exact .next _

end SdPlane
