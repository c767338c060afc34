import SdPlane.Interfaces

/-!
# What a handler has done

`Outcome` is the inversion of `confMessage`: in what ways a message can have changed a version and
the rings when its handler has got to its end. The cases are those that a proof about ports,
queues, vswitches or interfaces has to look at. What is written to other tables is not told apart,
and neither are the four messages about the addresses of an interface.
-/

set_option autoImplicit false

namespace SdPlane

def ConfMsg.ifNoSet : IfKind → InternalMsgTapDev → ConfMsg
  | .router => .routerIfNoSet
  | .capture => .captureIfNoSet

inductive Outcome (env : Env) (c : RibConf) (rings : Rings) : ConfMsg → RibConf → Rings → Prop
  | tables {msg : ConfMsg} {neigh : Nat → NeighTable} {fdb : Nat → FdbEntry} {slots sids : UInt8}
      {slot : Nat → ApplicationSlotEntry} {sid : Nat → Vector UInt8 16} :
      Outcome env c rings msg { c with
        neighTables := neigh
        fdb := fdb
        applicationSlotSize := slots
        applicationSlot := slot
        srv6LocalSidAddrNum := sids
        srv6LocalSidAddr := sid } rings
  | addresses {msg : ConfMsg} {p : RouterIf → Bool} {f : RouterIf → RouterIf}
      (up : ∀ r, (f r).ringUp = r.ringUp) (dn : ∀ r, (f r).ringDn = r.ringDn)
      (sockfd : ∀ r, (f r).sockfd = r.sockfd) : Outcome env c rings msg (c.onRouterIf p f) rings
  | portStatus {d : RibConf} (h : updatePortStatus env c = .ok d) :
      Outcome env c rings .portStatus d rings
  | qconf {q : Nat → LcoreQconf} {c' d : RibConf} {rings' : Rings} (h : c.qconf env q = .ok c')
      (check : ribCheck env c' rings = .ok (some (d, rings'))) :
      Outcome env c rings (.qconf q) d rings'
  | txrxDesc {msg : InternalMsgTxrxDesc} {d : RibConf} (h : c.txrxDesc msg = .ok d) :
      Outcome env c rings (.txrxDesc msg) d rings
  | txrxChecked {msg : InternalMsgTxrxDesc} {c' d : RibConf} {rings' : Rings}
      (h : c.txrxDesc msg = .ok c') (check : ribCheck env c' rings = .ok (some (d, rings'))) :
      Outcome env c rings (.txrxDesc msg) d rings'
  | vswitchSet {msg : InternalMsgVswitch} :
      Outcome env c rings (.vswitchSet msg) (c.vswitchSet msg) rings
  | vswitchNoSet {msg : InternalMsgVswitch} {d : RibConf} {rings' : Rings}
      (h : vswitchDelete c rings msg.vswitchId = .ok (d, rings')) :
      Outcome env c rings (.vswitchNoSet msg) d rings'
  | linkSet {msg : InternalMsgVswitchPort} {d : RibConf} (h : c.vswitchPortSet msg = .ok d) :
      Outcome env c rings (.vswitchPortSet msg) d rings
  | linkDeleted {msg : InternalMsgVswitchPort} {l : UInt16} {d : RibConf}
      (h : vswitchLinkDelete c l = .ok d) : Outcome env c rings (.vswitchPortNoSet msg) d rings
  | ifSet {msg : ConfMsg} {f : VswitchConf → VswitchConf} {i : Nat} {d : RibConf} {rings' : Rings}
      (live : c.LiveVswitch i)
      (keeps : ∀ v, ∃ rif cif, f v = { v with routerIf := rif, captureIf := cif })
      (ring : ∀ v k, (f v).ring k = v.ring k)
      (check : ribCheck env (c.setVswitch i f) rings = .ok (some (d, rings'))) :
      Outcome env c rings msg d rings'
  | ifNoSet {kind : IfKind} {msg : InternalMsgTapDev} {d : RibConf} {rings' : Rings}
      (h : RibConf.tapNoSet (fun v => v.tapName kind) (ifDelete kind) msg.tapName c rings
        = .ok (d, rings')) : Outcome env c rings (.ifNoSet kind msg) d rings'

namespace Outcome

variable {env : Env} {old : Option Rib} {c d : RibConf} {rings rings' : Rings} {msg : ConfMsg}

/-- Nothing is written. -/
theorem none : Outcome env c rings msg c rings := .tables

theorem of_handler {x : Except Fault RibConf} (hx : x = .ok d → Outcome env c rings msg d rings)
    (h : (do .ok (some (← x, rings))) = .ok (some (d, rings'))) : Outcome env c rings msg d rings' := by
  obtain ⟨c', hc', h⟩ := bind_ok h
  obtain ⟨rfl, rfl⟩ := Prod.mk.inj (Option.some.inj (Except.ok.inj h))
  exact hx hc'

theorem of_plain {c' : RibConf} (hc' : Outcome env c rings msg c' rings)
    (h : (.ok (some (c', rings)) : Except Fault _) = .ok (some (d, rings'))) :
    Outcome env c rings msg d rings' := by
  obtain ⟨rfl, rfl⟩ := Prod.mk.inj (Option.some.inj (Except.ok.inj h))
  exact hc'

theorem of_pair {x : Except Fault (RibConf × Rings)}
    (hx : x = .ok (d, rings') → Outcome env c rings msg d rings')
    (h : (do .ok (some (← x))) = .ok (some (d, rings'))) : Outcome env c rings msg d rings' := by
  obtain ⟨pair, hpair, h⟩ := bind_ok h
  obtain rfl := Option.some.inj (Except.ok.inj h)
  exact hx hpair

end Outcome

/-- **A handler that gets to its end has one of these outcomes.** -/
theorem outcome_of_some {env : Env} {old : Option Rib} {c d : RibConf} {rings rings' : Rings}
    {msg : ConfMsg} (h : confMessage env old c rings msg = .ok (some (d, rings'))) :
    Outcome env c rings msg d rings' := by
  cases msg with
  | portStatus => exact .of_handler .portStatus h
  | qconf q =>
    obtain ⟨c', hc', h⟩ := bind_ok h
    obtain ⟨_, -, h⟩ := bind_ok h
    exact .qconf hc' h
  | txrxDesc msg =>
    obtain ⟨c', hc', ⟨rfl, rfl⟩ | hcheck⟩ := txrxDesc_ok h
    · exact .txrxDesc hc'
    · exact .txrxChecked hc' hcheck
  | neighEntryAdd msg =>
    refine .of_handler (fun h => ?_) h
    obtain ⟨⟨type, pos⟩, -, h⟩ := bind_ok h
    dsimp only at h
    split at h
    · obtain ⟨entries, -, h⟩ := bind_ok h
      obtain rfl := Except.ok.inj h
      exact .tables
    · obtain rfl := Except.ok.inj h
      exact .tables
  | neighEntryDel msg =>
    refine .of_handler (fun h => ?_) h
    obtain ⟨⟨type, pos⟩, -, h⟩ := bind_ok h
    obtain ⟨n, -, h⟩ := bind_ok h
    obtain rfl := Except.ok.inj h
    exact .tables
  | vswitchSet msg => exact .of_plain .vswitchSet h
  | vswitchNoSet msg => exact .of_pair .vswitchNoSet h
  | vswitchPortSet msg => exact .of_handler .linkSet h
  | vswitchPortNoSet msg =>
    refine .of_handler (fun h => ?_) h
    rcases vswitchPortNoSet_cases h with rfl | ⟨l, hdel⟩
    · exact .none
    · exact .linkDeleted hdel
  | routerIfSet msg =>
    simp only [confMessage] at h
    split at h
    · exact .of_plain .none h
    · next i hlookup =>
      obtain ⟨_, -, h⟩ := bind_ok h
      exact .ifSet (vswitchLookup_some hlookup).1 (fun v => ⟨_, _, rfl⟩)
        (fun v k => by cases k <;> rfl) h
  | routerIfNoSet msg => exact .of_pair (fun h => @Outcome.ifNoSet _ _ _ .router _ _ _ h) h
  | captureIfSet msg =>
    simp only [confMessage] at h
    split at h
    · exact .of_plain .none h
    · next i hlookup =>
      obtain ⟨_, -, h⟩ := bind_ok h
      exact .ifSet (vswitchLookup_some hlookup).1 (fun v => ⟨_, _, rfl⟩)
        (fun v k => by cases k <;> rfl) h
  | captureIfNoSet msg => exact .of_pair (fun h => @Outcome.ifNoSet _ _ _ .capture _ _ _ h) h
  | fdbEntryAdd msg => exact .of_plain .tables h
  | applicationSlot msg =>
    refine .of_plain ?_ h
    unfold applicationSlotAdd
    split
    · exact .none
    · exact .tables
  | macAddrAdd msg =>
    refine .of_plain (.addresses (fun _ => ?_) (fun _ => ?_) fun _ => ?_) h
    all_goals rfl
  | macAddrDel msg =>
    refine .of_plain (.addresses (fun _ => ?_) (fun _ => ?_) fun _ => ?_) h
    all_goals rfl
  | ipAddrAdd msg =>
    refine .of_plain (.addresses (fun r => ?_) (fun r => ?_) fun r => ?_) h
    all_goals
      split
      · rfl
      · split <;> rfl
  | ipAddrDel msg =>
    refine .of_plain (.addresses (fun r => ?_) (fun r => ?_) fun r => ?_) h
    all_goals
      split
      · split <;> rfl
      · split
        · split <;> rfl
        · split <;> rfl
  | srv6LocalSid msg =>
    refine .of_plain ?_ h
    unfold RibConf.srv6LocalSid
    dsimp only
    split
    · exact .tables
    · exact .none

end SdPlane
