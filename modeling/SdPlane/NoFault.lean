import SdPlane.Handled
import SdPlane.Neigh

/-!
# The RIB manager does not fault, and when it does

A `Fault` is a null pointer that is followed, or an element that is not in its array. Messages come
from commands and from netlink, which check some of what they send; `Sendable` is what can be relied
upon. It is not enough. The helpers assume different things of the version that is published:
`set_stop_flag` that there is one, and that it has an element for every port of the driver, though
the driver may report more ports than `MAX_ETH_PORTS`; `router_if_delete` that the id of a vswitch
is the index of its slot, though the commands take every VLAN number.

`Safe` says of one message, and the state that it comes to, that none of this happens, and
`run_of_safe` is that a run of such messages never faults. The invariant is `Intact`.
-/

set_option autoImplicit false

namespace SdPlane

/-! ## What is sent -/

/-- The numbers of vswitches and VLANs that the commands take. -/
def VlanNumber (id : UInt16) : Prop := 1 ≤ id.toNat ∧ id.toNat ≤ 4094

def ConfMsg.Sendable : ConfMsg → Prop
  | .qconf q => ∀ l < RTE_MAX_LCORE, (q l).nrxq.toNat ≤ MAX_RX_QUEUE_PER_LCORE
      ∧ ∀ j < (q l).nrxq.toNat,
        ((q l).rxQueueList j).portId.toNat ≤ 128 ∧ ((q l).rxQueueList j).queueId.toNat ≤ 128
  | .txrxDesc msg => msg.portid.toNat < RTE_MAX_ETHPORTS
  | .neighEntryAdd msg => msg.InTable ∧ msg.pos < msg.numEntries
      ∧ msg.numEntries ≤ MAX_NEIGHBOR_ENTRY_SIZE
  | .neighEntryDel msg => msg.InTable ∧ msg.pos ≤ msg.numEntries
      ∧ msg.numEntries < MAX_NEIGHBOR_ENTRY_SIZE
  | .vswitchSet msg => VlanNumber msg.vswitchId ∧ VlanNumber msg.vlanId
  | .vswitchNoSet msg => VlanNumber msg.vswitchId
  | .vswitchPortSet msg => VlanNumber msg.vswitchId ∧ msg.portId.toNat ≤ 7
      ∧ (msg.tagId = 0 ∨ VlanNumber msg.tagId)
  | .vswitchPortNoSet msg => VlanNumber msg.vswitchId ∧ msg.portId.toNat ≤ 7
  | .routerIfSet msg => VlanNumber msg.vswitchId
      ∧ (msg.vlanId.toNat ≤ 4094 ∨ msg.vlanId = NO_VLAN_SPECIFIED)
  | .captureIfSet msg => VlanNumber msg.vswitchId
  | _ => True

/-- The fields of a message are in the ranges of its sender, and the driver and the lcores in
    those of DPDK. -/
structure Sendable (env : Env) (msg : Msg) : Prop where
  ports : env.nbPorts.toNat ≤ RTE_MAX_ETHPORTS
  lcores : env.lcoreCount.toNat ≤ RTE_MAX_LCORE
  portGet : ∀ portId, msg = .portGetRequest portId → portId.toNat ≤ 16
  conf : ∀ m, msg = .conf m → m.Sendable

/-- The ranges of neighbor messages are those of the neighbor manager. -/
theorem Change.sendable {type : Nat} {t t' : NeighTable} {msg : ConfMsg} (h : Change type t msg t')
    (htype : type < NEIGH_NR_TABLES) (hsized : t.Sized) : msg.Sendable := by
  obtain ⟨-, hmax⟩ := hsized
  have htable : 0 ≤ (type : Int) ∧ (type : Int) < NEIGH_NR_TABLES :=
    ⟨Int.natCast_nonneg type, Int.ofNat_lt.mpr htype⟩
  cases h with
  | update hpos =>
    exact ⟨⟨htable, Int.natCast_nonneg _, hpos.trans_le hmax⟩, hpos, hmax⟩
  | insert hpos hroom =>
    exact ⟨⟨htable, Int.natCast_nonneg _, hpos.trans_lt hroom⟩, Int.lt_add_one_of_le hpos, hroom⟩
  | delete hpos =>
    exact ⟨⟨htable, Int.natCast_nonneg _, hpos.trans_le hmax⟩, Int.le_sub_one_of_lt hpos,
      Int.sub_one_lt_of_le hmax⟩

/-! ## What has to be seen to -/

/-- The ports of the published version can be flagged. -/
def CanStop (env : Env) (s : RibState) : Prop :=
  env.nbPorts = 0 ∨ s.rib.isSome ∧ env.nbPorts.toNat ≤ MAX_ETH_PORTS

def ConfMsg.Safe (env : Env) (s : RibState) : ConfMsg → Prop
  | .portStatus => env.nbPorts.toNat ≤ MAX_ETH_PORTS
  | .qconf q => CanStop env s ∧ QconfFits env s.conf.lcoreQconf q
  | .txrxDesc msg => (msg.Changes → msg.portid.toNat < MAX_ETH_PORTS)
      ∧ (env.startupConfigCompleted = true → s.rib.isSome → CanStop env s)
  | .neighEntryAdd msg => (s.conf.neighTables msg.type.toNat).numEntries < msg.numEntries →
      msg.pos ≤ (s.conf.neighTables msg.type.toNat).numEntries
  | .vswitchNoSet msg => ∀ i, vswitchLookup s.conf msg.vswitchId = some i →
      (∃ kind, 0 ≤ (s.conf.vswitch i).sockfd kind) → msg.vswitchId.toNat < MAX_VSWITCH
  | .routerIfSet msg | .captureIfSet msg =>
      (vswitchLookup s.conf msg.vswitchId).isSome → CanStop env s
  | .routerIfNoSet msg => s.conf.Deletable .router msg.tapName
  | .captureIfNoSet msg => s.conf.Deletable .capture msg.tapName
  | _ => True

/-- There is memory for a new version, and the message does not lead where it must not. -/
structure Safe (env : Env) (s : RibState) (msg : Msg) : Prop where
  rib : ∀ k, env.mallocRib k = true
  ribInfo : ∀ k, env.mallocRibInfo k = true
  portGet : ∀ portId, msg = .portGetRequest portId → portId.toNat < MAX_ETH_PORTS
  conf : ∀ m, msg = .conf m → m.Safe env s

/-! ## The invariant -/

structure Intact (s : RibState) : Prop where
  published : s.rib.isSome → s.published.isSome
  wired : Wired s.conf
  portIds : PortIds s.conf
  queues : QueuesFit s.conf

theorem Intact.init : Intact .init := ⟨nofun, .zero, .zero, .zero⟩

theorem Safe.ribCreate {env : Env} {s : RibState} {msg : Msg} (h : Safe env s msg) (k : Nat) :
    ∃ info, SdPlane.ribCreate env k s.rib = some ⟨some info⟩ ∧ info.toRibConf = s.conf.next := by
  have hnew : ∃ info, ribInfoCreate env k (s.rib.bind Rib.ribInfo) = some info := by
    unfold ribInfoCreate
    rw [if_pos (h.ribInfo k)]
    cases s.rib.bind Rib.ribInfo <;> exact ⟨_, rfl⟩
  obtain ⟨info, hinfo⟩ := hnew
  have hrib : SdPlane.ribCreate env k s.rib = some ⟨some info⟩ := by
    rw [SdPlane.ribCreate, if_pos (h.rib k), hinfo]
  refine ⟨info, hrib, @ribCreate_conf env k s info ?_⟩
  rw [hrib]
  rfl

/-- A port that has been asked about has its index for an id. -/
theorem keepsWiring_portGet (c : RibConf) {portId : UInt16}
    (hport : portId.toNat < MAX_ETH_PORTS) (devInfo link : Nat) :
    KeepsWiring c (c.setPort portId.toNat fun p =>
      { p with dpdkPortId := portId, devInfo := devInfo, link := link }) := by
  refine ⟨rfl, rfl, rfl, fun _ => ⟨_, _, rfl⟩, fun p => ?_, fun p => ?_⟩
  · rw [RibConf.setPort_port]
    split
    · next hp =>
      rw [hp]
      exact ⟨rfl, rfl, rfl⟩
    · exact ⟨rfl, rfl, rfl⟩
  · rw [RibConf.setPort_port]
    split
    · next hp =>
      subst hp
      exact .inr ⟨hport, (UInt16.ofNat_toNat).symm⟩
    · exact .inl rfl

namespace Intact

variable {env : Env} {s t : RibState}

theorem stopPorts_ok (hs : Intact s) (h : CanStop env s) (flag : Bool) :
    ∃ rib, stopPorts env flag s.rib = .ok rib :=
  stopPorts_ok_iff.mpr (h.imp_right fun ⟨hrib, hports⟩ => ⟨hs.published hrib, hports⟩)

theorem ribCheckStopped_ok (hs : Intact s) (h : CanStop env s) {c : RibConf} {rings : Rings}
    {result : Option (RibConf × Rings)} (hcheck : ribCheck env c rings = .ok result) :
    ribCheckStopped env s.rib c rings = .ok result := by
  obtain ⟨rib, hrib⟩ := hs.stopPorts_ok h true
  rw [ribCheckStopped, hrib]
  exact hcheck

/-- A version with other interfaces is checked to the end. -/
theorem checkable (hs : Intact s) {d : RibConf} (hqueues : KeepsQueues s.conf d)
    (hsize : d.vswitchSize = s.conf.vswitchSize) : Checkable d := by
  refine (hs.queues.keep hqueues).checkable ?_
  rw [hsize]
  exact hs.wired.vswitchSize

/-! ## Progress -/

/-- **The handler of a safe message comes to its end**, and when it gives up the flags can be
    cleared again. -/
theorem handles (hs : Intact s) {msg : ConfMsg} (hlcores : env.lcoreCount.toNat ≤ RTE_MAX_LCORE)
    (hsent : msg.Sendable) (hsafe : msg.Safe env s) :
    ∃ result, confMessage env s.rib s.conf.next s.rings msg = .ok result
      ∧ (result = none → CanStop env s) := by
  have hw : Wired s.conf.next := wired_next hs.wired
  have hp : PortIds s.conf.next := hs.portIds.keep (Peripheral.next _).toKeepsWiring
  have kept : ∀ {r : RibConf × Rings},
      ∃ result, (.ok (some r) : Except Fault _) = .ok result ∧ (result = none → CanStop env s) := by
    intro r
    exact ⟨some r, rfl, fun h => by cases h⟩
  have handler : ∀ {x : Except Fault RibConf}, (∃ d, x = .ok d) →
      ∃ result, (do .ok (some (← x, s.rings))) = (.ok result : Except Fault _)
        ∧ (result = none → CanStop env s) := by
    rintro x ⟨d, rfl⟩
    exact kept
  have pair : ∀ {x : Except Fault (RibConf × Rings)}, (∃ r, x = .ok r) →
      ∃ result, (do .ok (some (← x))) = (.ok result : Except Fault _)
        ∧ (result = none → CanStop env s) := by
    rintro x ⟨r, rfl⟩
    exact kept
  have interface : ∀ {d : RibConf}, CanStop env s → Checkable d →
      ∃ result, ribCheckStopped env s.rib d s.rings = .ok result
        ∧ (result = none → CanStop env s) := by
    intro d hstop hcheckable
    obtain ⟨result, hcheck⟩ := hcheckable.exists_ribCheck env s.rings
    exact ⟨result, hs.ribCheckStopped_ok hstop hcheck, fun _ => hstop⟩
  cases msg with
  | portStatus => exact handler ⟨_, if_neg (Nat.not_lt.mpr hsafe)⟩
  | qconf q =>
    obtain ⟨hstop, hfits⟩ := hsafe
    obtain ⟨c, hc⟩ := exists_qconf s.conf.next hlcores fun l hl => (hsent l (hl.trans_le hlcores)).1
    obtain ⟨result, hcheck⟩ := (made_of_ok hc).exists_ribCheck hs.queues hfits hs.wired.vswitchSize
      s.rings
    refine ⟨result, ?_, fun _ => hstop⟩
    rw [confMessage, hc]
    exact hs.ribCheckStopped_ok hstop hcheck
  | txrxDesc msg =>
    obtain ⟨hport, hstop⟩ := hsafe
    obtain ⟨d, hd⟩ := @exists_txrxDesc s.conf.next msg hport
    have hsize : d.vswitchSize = s.conf.vswitchSize :=
      (Peripheral.txrxDesc hd).toKeepsWiring.vswitchSize
    have hnext : KeepsQueues s.conf s.conf.next := ⟨rfl, rfl⟩
    obtain ⟨result, hcheck⟩ :=
      (hs.checkable (hnext.trans (.of_onlyWiring (.txrxDesc hd))) hsize).exists_ribCheck env s.rings
    rw [confMessage, hd]
    dsimp only [bind, Except.bind]
    split
    · next hstarted =>
      split
      · next hrib =>
        obtain ⟨rib, hflags⟩ := hs.stopPorts_ok (hstop hstarted hrib) true
        rw [hflags]
        dsimp only
        rw [hcheck]
        exact kept
      · rw [hcheck]
        exact kept
    · exact kept
  | neighEntryAdd msg => exact handler (exists_neighEntryAdd hsent.1 hsent.2.2 hsafe)
  | neighEntryDel msg => exact handler (exists_neighEntryDel hsent.1 hsent.2.1 hsent.2.2)
  | vswitchSet msg => exact kept
  | vswitchNoSet msg => exact pair (exists_vswitchDelete hw hp hsafe s.rings)
  | vswitchPortSet msg => exact handler (exists_vswitchPortSet (Nat.lt_succ_of_le hsent.2.1))
  | vswitchPortNoSet msg =>
    exact handler (exists_vswitchPortNoSet hw hp (Nat.lt_succ_of_le hsent.2))
  | routerIfSet msg =>
    simp only [confMessage]
    split
    · exact kept
    · next i hlookup =>
      have hstop : CanStop env s := hsafe (Option.isSome_iff_exists.mpr ⟨i, hlookup⟩)
      exact interface hstop (hs.checkable ⟨rfl, rfl⟩ rfl)
  | routerIfNoSet msg =>
    exact pair (@exists_tapNoSet _ .router _ hw.vswitchSize hsafe s.rings)
  | captureIfSet msg =>
    simp only [confMessage]
    split
    · exact kept
    · next i hlookup =>
      have hstop : CanStop env s := hsafe (Option.isSome_iff_exists.mpr ⟨i, hlookup⟩)
      exact interface hstop (hs.checkable ⟨rfl, rfl⟩ rfl)
  | captureIfNoSet msg =>
    exact pair (@exists_tapNoSet _ .capture _ hw.vswitchSize hsafe s.rings)
  | fdbEntryAdd msg => exact kept
  | applicationSlot msg => exact kept
  | macAddrAdd msg => exact kept
  | macAddrDel msg => exact kept
  | ipAddrAdd msg => exact kept
  | ipAddrDel msg => exact kept
  | srv6LocalSid msg => exact kept

theorem progress (hs : Intact s) {msg : Msg} (hsent : Sendable env msg) (hsafe : Safe env s msg) :
    ∃ t, ribManagerProcessMessage env s msg = .ok t := by
  obtain ⟨info, hnew, hconf⟩ := hsafe.ribCreate 0
  cases msg with
  | conf msg =>
    obtain ⟨result, hresult, hstop⟩ :=
      hs.handles hsent.lcores (hsent.conf msg rfl) (hsafe.conf msg rfl)
    rw [← hconf] at hresult
    simp only [ribManagerProcessMessage, hnew, Option.bind_some, deref, bind, Except.bind, hresult]
    cases result with
    | none =>
      obtain ⟨rib, hrib⟩ := hs.stopPorts_ok (hstop rfl) false
      dsimp only
      rw [hrib]
      exact ⟨_, rfl⟩
    | some r => exact ⟨_, rfl⟩
  | portGetRequest portId =>
    obtain ⟨info₁, hnew₁, -⟩ := hsafe.ribCreate 1
    simp only [ribManagerProcessMessage, ribManagerProcessPortGet, hnew, hnew₁, Option.bind_some,
      deref, bind, Except.bind, inBounds_of_lt (hsafe.portGet portId rfl)]
    exact ⟨_, rfl⟩
  | routing msg =>
    simp only [ribManagerProcessMessage, hnew, Option.bind_some, deref, bind, Except.bind]
    exact ⟨_, rfl⟩
  | unknown type =>
    simp only [ribManagerProcessMessage, publish, hnew, Option.bind_some]
    exact ⟨_, rfl⟩

/-! ## Preservation -/

theorem of_conf (hs : Intact s) {c : RibConf} (hconf : t.conf = c)
    (hwiring : KeepsWiring s.conf c) (hqueues : KeepsQueues s.conf c)
    (hpub : t.rib.isSome → t.published.isSome) : Intact t := by
  subst hconf
  exact ⟨hpub, hs.wired.keep hwiring, hs.portIds.keep hwiring, hs.queues.keep hqueues⟩

/-- A version is published with its `rib_info`, or the one that was there stays. -/
theorem published_of_conf (hs : Intact s) {msg : ConfMsg}
    (h : ribManagerProcessMessage env s (.conf msg) = .ok t) : t.rib.isSome → t.published.isSome := by
  obtain ⟨info, -, h⟩ := bind_ok h
  obtain ⟨result, -, h⟩ := bind_ok h
  cases result with
  | none =>
    obtain ⟨rib, hrib, h⟩ := bind_ok h
    obtain rfl := Except.ok.inj h
    rw [stopPorts] at hrib
    split at hrib
    · obtain rfl := Except.ok.inj hrib
      exact hs.published
    · obtain ⟨info, -, hrib⟩ := bind_ok hrib
      obtain ⟨conf, -, hrib⟩ := bind_ok hrib
      obtain rfl := Except.ok.inj hrib
      exact fun _ => rfl
  | some r =>
    obtain rfl := Except.ok.inj h
    exact fun _ => rfl

theorem conf_step (hs : Intact s) {msg : ConfMsg} (hsent : Sendable env (.conf msg))
    (hsafe : Safe env s (.conf msg)) (h : ribManagerProcessMessage env s (.conf msg) = .ok t) :
    Intact t := by
  have hwiring := wiringStep_of_ok hs.wired h
  refine ⟨hs.published_of_conf h, (wired_next hs.wired).step hwiring,
    (hs.portIds.keep (Peripheral.next _).toKeepsWiring).step hwiring, ?_⟩
  rcases conf_of_ok h with ⟨c, rings, hresult, rfl, -, -⟩ | ⟨-, hsame | hflag⟩
  · refine (outcome_of_some hresult).queuesFit hs.queues hsent.lcores fun q hq => ?_
    subst hq
    exact (hsafe.conf _ rfl).2
  · rw [hsame]
    exact hs.queues
  · exact hs.queues.keep (.of_onlyWiring (.putStopFlag hflag))

theorem step (hs : Intact s) {msg : Msg} (hsent : Sendable env msg) (hsafe : Safe env s msg)
    (h : ribManagerProcessMessage env s msg = .ok t) : Intact t := by
  have hnextWiring : KeepsWiring s.conf s.conf.next := .of_eq rfl rfl rfl rfl rfl
  have hnextQueues : KeepsQueues s.conf s.conf.next := ⟨rfl, rfl⟩
  obtain ⟨info, hnew, hconf⟩ := hsafe.ribCreate 0
  cases msg with
  | conf msg => exact hs.conf_step hsent hsafe h
  | portGetRequest portId =>
    obtain ⟨info₁, hnew₁, hconf₁⟩ := hsafe.ribCreate 1
    have hport := hsafe.portGet portId rfl
    simp only [ribManagerProcessMessage, ribManagerProcessPortGet, hnew, hnew₁, Option.bind_some,
      deref, bind, Except.bind, inBounds_of_lt hport] at h
    obtain rfl := Except.ok.inj h
    refine hs.of_conf rfl ?_ ?_ fun _ => rfl
    · rw [hconf₁]
      exact hnextWiring.trans (keepsWiring_portGet _ hport _ _)
    · rw [hconf₁]
      exact ⟨rfl, rfl⟩
  | routing msg =>
    simp only [ribManagerProcessMessage, hnew, Option.bind_some, deref, bind, Except.bind] at h
    obtain rfl := Except.ok.inj h
    exact hs.of_conf hconf hnextWiring hnextQueues fun _ => rfl
  | unknown type =>
    simp only [ribManagerProcessMessage, publish, hnew, Option.bind_some] at h
    obtain rfl := Except.ok.inj h
    exact hs.of_conf hconf hnextWiring hnextQueues fun _ => rfl

end Intact

/-! ## The first messages -/

theorem queueOn_sendable (lcore : Nat) : (ConfMsg.qconf (queueOn lcore)).Sendable := by
  intro l _
  refine ⟨?_, fun j _ => ⟨Nat.zero_le _, Nat.zero_le _⟩⟩
  dsimp only [queueOn]
  split <;> decide

/-- It is the only queue where nothing has been configured before. -/
theorem queueOn_fits (env : Env) (lcore : Nat) :
    QconfFits env RibConf.zero.lcoreQconf (queueOn lcore) := by
  have hafter : ∀ l, (queuesAfter env RibConf.zero.lcoreQconf (queueOn lcore) l).nrxq.toNat ≤ 1
      ∧ ∀ j, (queuesAfter env RibConf.zero.lcoreQconf (queueOn lcore) l).rxQueueList j = ⟨0, 0⟩ := by
    intro l
    unfold queuesAfter withLeft
    split
    · split
      · exact ⟨Nat.zero_le _, fun _ => rfl⟩
      · refine ⟨?_, fun _ => rfl⟩
        dsimp only [queueOn]
        split <;> decide
    · exact ⟨Nat.zero_le _, fun _ => rfl⟩
  refine ⟨?_, .inr fun x hx => ?_⟩
  · rw [length_queuesIn]
    have hsum := List.sum_le_card_nsmul ((List.range RTE_MAX_LCORE).map fun l =>
      (queuesAfter env RibConf.zero.lcoreQconf (queueOn lcore) l).nrxq.toNat) 1 (by
        intro n hn
        obtain ⟨l, -, rfl⟩ := List.mem_map.mp hn
        exact (hafter l).1)
    simp only [List.length_map, List.length_range, smul_eq_mul, mul_one] at hsum
    exact hsum.trans (by decide)
  · obtain ⟨l, -, j, -, rfl⟩ := mem_queuesIn.mp hx
    rw [(hafter l).2 j]
    exact ⟨by decide, by decide⟩

theorem sendable_plain {msg : ConfMsg} (h : msg.Sendable) : Sendable .plain (.conf msg) := by
  refine ⟨by decide, by decide, nofun, fun m hm => ?_⟩
  obtain rfl := Msg.conf.inj hm
  exact h

/-! ## Runs -/

/-- **The RIB manager does not fault in a run of safe messages.** -/
theorem run_of_safe {events : List (Env × Msg)} (hsent : ∀ e ∈ events, Sendable e.1 e.2)
    (hsafe : Lib.Guarded Step .init (fun s e => Safe e.1 s e.2) events) :
    ∃ t, Lib.Run Step .init events t := by
  have hguarded : Lib.Guarded Step .init (fun s e => Sendable e.1 e.2 ∧ Safe e.1 s e.2) events :=
    fun pre e s hpre hrun => ⟨hsent e (hpre.subset (by simp)), hsafe pre e s hpre hrun⟩
  have hpres : ∀ s e t, Intact s → Sendable e.1 e.2 ∧ Safe e.1 s e.2 → Step s e t → Intact t :=
    fun s e t hs he h => hs.step he.1 he.2 h
  obtain ⟨t, hrun, -⟩ := Lib.run_of_guarded Intact .init hpres
    (fun s e hs he => hs.progress he.1 he.2) hguarded
  exact ⟨t, hrun⟩

/-- Before anything is published there is nothing to set a stop flag in. -/
theorem first_qconf_faults : ¬ ∀ events : List (Env × Msg),
    (∀ e ∈ events, Sendable e.1 e.2) → ∃ t, Lib.Run Step .init events t := by
  intro h
  obtain ⟨t, hrun⟩ := h [(.plain, .conf (.qconf (queueOn 0)))] fun e he => by
    obtain rfl := List.mem_singleton.mp he
    exact sendable_plain (queueOn_sendable 0)
  obtain ⟨s, hs, hstep⟩ := @Lib.Run.snoc_inv _ _ _ _ [] _ _ hrun
  obtain rfl := hs.nil_inv
  have hfault : ribManagerProcessMessage .plain .init (.conf (.qconf (queueOn 0)))
      = .error .nullPointer := rfl
  cases hfault.symm.trans hstep

/-- Once the ports are known, and published, it can be. -/
theorem run_of_safe_qconf : ∃ t, Lib.Run Step .init
    [(.plain, .conf .portStatus), (.plain, .conf (.qconf (queueOn 0)))] t := by
  have hstatus : Lib.Guarded Step .init (fun s e => Safe e.1 s e.2) [(.plain, .conf .portStatus)] := by
    refine Lib.guarded_nil.snoc fun s _ => ⟨fun _ => rfl, fun _ => rfl, nofun, fun m hm => ?_⟩
    obtain rfl := Msg.conf.inj hm
    show Env.plain.nbPorts.toNat ≤ MAX_ETH_PORTS
    decide
  have hsafe := hstatus.snoc (m := (Env.plain, .conf (.qconf (queueOn 0)))) fun s hrun => by
    obtain ⟨s₀, hs₀, hstep⟩ := @Lib.Run.snoc_inv _ _ _ _ [] _ _ hrun
    obtain rfl := hs₀.nil_inv
    have hpub : s.rib.isSome ∧ s.conf.lcoreQconf = RibConf.zero.lcoreQconf := by
      have hs : ribManagerProcessMessage .plain .init (.conf .portStatus) = .ok s := hstep
      obtain rfl := Except.ok.inj hs
      exact ⟨rfl, rfl⟩
    refine ⟨fun _ => rfl, fun _ => rfl, nofun, fun m hm => ?_⟩
    obtain rfl := Msg.conf.inj hm
    refine ⟨.inr ⟨hpub.1, by decide⟩, ?_⟩
    rw [hpub.2]
    exact queueOn_fits .plain 0
  refine run_of_safe (fun e he => ?_) hsafe
  rcases List.mem_cons.mp he with rfl | he
  · exact sendable_plain trivial
  · obtain rfl := List.mem_singleton.mp he
    exact sendable_plain (queueOn_sendable 0)

end SdPlane
