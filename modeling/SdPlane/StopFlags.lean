import SdPlane.Outcome
import SdPlane.RibPublish
import SdPlane.Wired

/-!
# The stop flags

While `rib_check` reconfigures the ports, those of the published version are flagged, for the
forwarding threads to keep off them. The flags are set on a version that is on its way out, or
cleared again when the new one is refused, and the new version was copied before: so no flag is
ever set in a version that is published (`unstopped_of_run`). A version that is kept because the
new one is refused is therefore kept as it was (`stopPorts_of_unstopped`).
-/

set_option autoImplicit false

namespace SdPlane

/-- The flags of the ports are the same. -/
def KeepsFlags (c d : RibConf) : Prop := ∀ p, (d.port p).isStopped = (c.port p).isStopped

namespace KeepsFlags

variable {c d : RibConf} {rings rings' : Rings}

theorem of_eq (h : d.port = c.port) : KeepsFlags c d := fun p => by rw [h]

theorem trans {e : RibConf} (h : KeepsFlags c d) (h' : KeepsFlags d e) : KeepsFlags c e :=
  fun p => (h' p).trans (h p)

theorem setPort (p : Nat) {f : PortConf → PortConf} (hf : ∀ q, (f q).isStopped = q.isStopped) :
    KeepsFlags c (c.setPort p f) := by
  intro q
  rw [RibConf.setPort_port]
  split
  · next hq => rw [hf, hq]
  · rfl

/-! ## Interfaces -/

theorem ifDelete {kind : IfKind} {vswitchId : UInt16}
    (h : SdPlane.ifDelete kind c rings vswitchId = .ok (d, rings')) : KeepsFlags c d := by
  obtain ⟨i, hdel⟩ := ifDeleted_ok h
  rw [hdel.conf]
  exact .of_eq rfl

theorem tapNoSet {kind : IfKind} {tapName : VswitchConf → CharBuf} {name : CharBuf}
    (h : RibConf.tapNoSet tapName (SdPlane.ifDelete kind) name c rings = .ok (d, rings')) :
    KeepsFlags c d :=
  tapNoSet_rule (KeepsFlags c) (fun _ => rfl) (fun hkeeps hone => hkeeps.trans (ifDelete hone)) h

theorem ribCheck {env : Env} (h : SdPlane.ribCheck env c rings = .ok (some (d, rings'))) :
    KeepsFlags c d :=
  ribCheck_rule (KeepsFlags c) (.of_eq rfl) (fun _ _ _ hkeeps => hkeeps)
    (fun _ _ _ hkeeps => hkeeps) h

theorem onRouterIf (p : RouterIf → Bool) (f : RouterIf → RouterIf) :
    KeepsFlags c (c.onRouterIf p f) := by
  unfold RibConf.onRouterIf
  split
  · exact .of_eq rfl
  · exact .of_eq rfl

/-! ## Links -/

theorem vswitchLinkDelete {l : UInt16} (h : SdPlane.vswitchLinkDelete c l = .ok d) :
    KeepsFlags c d := by
  obtain ⟨i, hdel⟩ := linkDeleted_ok h
  intro p
  rw [hdel.port, Function.update_apply]
  split
  · next hp =>
    obtain ⟨arr, size, native, hremoved⟩ := portLinkRemoved l (c.port p)
    rw [← hp, hremoved]
  · rfl

theorem vswitchDelete {vswitchId : UInt16}
    (h : SdPlane.vswitchDelete c rings vswitchId = .ok (d, rings')) : KeepsFlags c d := by
  have interface : ∀ (kind : IfKind) {e e' : RibConf} {r r' : Rings}, KeepsFlags c e →
      SdPlane.ifDelete kind e r vswitchId = .ok (e', r') → KeepsFlags c e' :=
    fun _ _ _ _ _ hkeeps hone => hkeeps.trans (ifDelete hone)
  exact vswitchDelete_rule (KeepsFlags c) (fun _ => rfl) (interface .router) (interface .capture)
    (fun hkeeps hone => hkeeps.trans (vswitchLinkDelete hone)) (fun _ hkeeps => hkeeps) h

theorem vswitchPortSet {msg : InternalMsgVswitchPort} (h : c.vswitchPortSet msg = .ok d) :
    KeepsFlags c d := by
  rcases vswitchPortSet_ok h with ⟨rfl, -⟩ | ⟨v, l, hset⟩
  · exact fun p => rfl
  · intro p
    rw [hset.port_apply]
    unfold InternalMsgVswitchPort.set PortConf.tagged
    split
    · split
      · rfl
      · split <;> rfl
    · rfl

/-! ## Ports and queues -/

theorem txrxDesc {msg : InternalMsgTxrxDesc} (h : c.txrxDesc msg = .ok d) : KeepsFlags c d := by
  unfold RibConf.txrxDesc at h
  obtain ⟨-, h⟩ := guard_ok h
  obtain rfl := Except.ok.inj h
  exact .setPort _ fun q => rfl

theorem qconf {env : Env} {q : Nat → LcoreQconf} (h : c.qconf env q = .ok d) : KeepsFlags c d := by
  unfold RibConf.qconf at h
  dsimp only at h
  split at h
  · cases h
  · obtain rfl := Except.ok.inj h
    exact .of_eq rfl

end KeepsFlags

/-! ## Messages -/

/-- **No handler writes a stop flag.** -/
theorem Outcome.keepsFlags {env : Env} {c d : RibConf} {rings rings' : Rings} {msg : ConfMsg}
    (h : Outcome env c rings msg d rings') : KeepsFlags c d := by
  cases h with
  | tables => exact .of_eq rfl
  | addresses => exact .onRouterIf _ _
  | portStatus h =>
    unfold updatePortStatus at h
    split at h
    · cases h
    · obtain rfl := Except.ok.inj h
      intro p
      dsimp only
      split <;> rfl
  | qconf h check => exact (KeepsFlags.qconf h).trans (.ribCheck check)
  | txrxDesc h => exact .txrxDesc h
  | txrxChecked h check => exact (KeepsFlags.txrxDesc h).trans (.ribCheck check)
  | @vswitchSet msg =>
    rcases vswitchSet_cases c msg with heq | ⟨-, i, hnew⟩
    · exact .of_eq (by rw [heq])
    · exact .of_eq hnew.port
  | vswitchNoSet h => exact .vswitchDelete h
  | linkSet h => exact .vswitchPortSet h
  | linkDeleted h => exact .vswitchLinkDelete h
  | @ifSet _ f i _ _ _ _ _ check =>
    have hset : KeepsFlags c (c.setVswitch i f) := .of_eq rfl
    exact hset.trans (.ribCheck check)
  | ifNoSet h => exact .tapNoSet h

/-- No port is flagged. -/
def Unstopped (c : RibConf) : Prop := ∀ p, (c.port p).isStopped = false

theorem KeepsFlags.unstopped {c d : RibConf} (h : KeepsFlags c d) (hc : Unstopped c) :
    Unstopped d :=
  fun p => (h p).trans (hc p)

/-- The flags can be written where there is a version to write them to, and no port too many. -/
theorem stopPorts_ok_iff {env : Env} {flag : Bool} {old : Option Rib} :
    (∃ rib, stopPorts env flag old = .ok rib)
      ↔ env.nbPorts = 0 ∨ (old.bind Rib.ribInfo).isSome ∧ env.nbPorts.toNat ≤ MAX_ETH_PORTS := by
  rw [stopPorts]
  by_cases hnone : env.nbPorts = 0
  · rw [if_pos hnone]
    exact iff_of_true ⟨old, rfl⟩ (.inl hnone)
  · rw [if_neg hnone, or_iff_right hnone]
    cases old.bind Rib.ribInfo with
    | none => simp [deref, bind, Except.bind]
    | some info =>
      by_cases hmany : env.nbPorts.toNat > MAX_ETH_PORTS
      · simp [deref, bind, Except.bind, putStopFlag, hmany]
      · simp [deref, bind, Except.bind, putStopFlag, hmany, Nat.le_of_not_lt hmany]

/-- Clearing flags that are not set changes nothing. -/
theorem stopPorts_of_unstopped {env : Env} {s : RibState} {rib : Option Rib}
    (hs : Unstopped s.conf) (h : stopPorts env false s.rib = .ok rib) : rib = s.rib := by
  rw [stopPorts] at h
  split at h
  · exact (Except.ok.inj h).symm
  · obtain ⟨info, hinfo, h⟩ := bind_ok h
    obtain ⟨conf, hconf, h⟩ := bind_ok h
    obtain rfl := Except.ok.inj h
    have hpub : s.published = some info := deref_ok hinfo
    have hsame : conf = info.toRibConf := by
      rw [putStopFlag] at hconf
      split at hconf
      · cases hconf
      · obtain rfl := Except.ok.inj hconf
        have hports : (fun i => if i < env.nbPorts.toNat then { info.port i with isStopped := false }
            else info.port i) = info.port := by
          funext i
          have hclear : (info.port i).isStopped = false := by
            have hi := hs i
            rw [RibState.conf, hpub] at hi
            exact hi
          split
          · rw [← hclear]
          · rfl
        rw [hports]
    rw [hsame]
    -- the version that is published is the one that was looked up
    cases hrib : s.rib with
    | none => rw [RibState.published, hrib] at hpub; cases hpub
    | some rib =>
      rw [RibState.published, hrib] at hpub
      cases rib with
      | mk old =>
        obtain rfl : old = some info := hpub
        rfl

/-- **No published version has a stop flag set.** -/
theorem unstopped_of_step {s t : RibState} {event : Env × Msg} (hs : Unstopped s.conf)
    (h : Step s event t) : Unstopped t.conf := by
  obtain ⟨env, msg⟩ := event
  have hzero : Unstopped RibConf.zero := fun p => rfl
  cases msg with
  | conf msg =>
    rcases conf_of_ok h with ⟨c, rings, hresult, rfl, -, -⟩ | ⟨-, hsame | hflag⟩
    · exact (outcome_of_some hresult).keepsFlags.unstopped hs
    · rw [hsame]
      exact hs
    · rw [putStopFlag] at hflag
      split at hflag
      · cases hflag
      · obtain hconf := Except.ok.inj hflag
        intro p
        rw [← hconf]
        dsimp only
        split
        · rfl
        · exact hs p
  | portGetRequest portId =>
    obtain ⟨info, hinfo, rfl⟩ := portGet_ok h
    have hconf : info.toRibConf = s.conf.next := ribCreate_conf hinfo
    have hkeeps : KeepsFlags info.toRibConf
        (info.toRibConf.setPort portId.toNat fun p => { p with
          dpdkPortId := portId, devInfo := env.devInfo portId.toNat, link := env.link portId.toNat }) :=
      .setPort _ fun q => rfl
    exact hkeeps.unstopped (hconf ▸ hs)
  | routing msg =>
    obtain ⟨info, hinfo, h⟩ := bind_ok h
    have hconf : info.toRibConf = s.conf.next := ribCreate_conf (deref_ok hinfo)
    obtain rfl := Except.ok.inj h
    show Unstopped info.toRibConf
    rw [hconf]
    exact hs
  | unknown type =>
    cases hnew : (ribCreate env 0 s.rib).bind Rib.ribInfo with
    | none =>
      simp only [Step, ribManagerProcessMessage, publish, hnew] at h
      split at h
      · cases h
      · obtain rfl := Except.ok.inj h
        have hconf : RibState.conf { s with rib := ribCreate env 0 s.rib } = .zero := by
          rw [RibState.conf, RibState.published, hnew]
          rfl
        rw [hconf]
        exact hzero
    | some info =>
      simp only [Step, ribManagerProcessMessage, publish, hnew] at h
      obtain rfl := Except.ok.inj h
      show Unstopped info.toRibConf
      rw [ribCreate_conf hnew]
      exact hs

theorem unstopped_of_run {events : List (Env × Msg)} {s : RibState}
    (h : Lib.Run Step .init events s) : Unstopped s.conf :=
  h.invariant (fun s => Unstopped s.conf) (fun _ => rfl) fun _ _ _ hs hstep =>
    unstopped_of_step hs hstep

end SdPlane
