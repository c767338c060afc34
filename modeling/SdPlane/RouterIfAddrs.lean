import SdPlane.RingOwnership

/-!
# The addresses of router interfaces (`MAC_ADDR_ADD`, `IP_ADDR_ADD` and so on)

The kernel says which addresses a tap has, by messages with the name of the tap, and the RIB manager
keeps them in the router interface: a MAC address, an IPv4 address, an IPv6 address and a link-local
one. A `Watched` state has, beside the RIB manager, what these messages come to for each vswitch
since its interface was set; `FollowsKernel` is that the interfaces have just that.

They do not in four cases, and `FollowsOn` excludes them. `MAC_ADDR_DEL` has its comparison the wrong
way round, and clears an address that it does not name. Setting an interface does not clear the
addresses that it has. Only the first interface of a name is found. And the name is compared with
all 16 bytes of the buffer, of which `snprintf` leaves those behind the terminator as they were.
-/

set_option autoImplicit false

namespace SdPlane

structure Addrs where
  mac : EtherAddr
  ipv4 : Vector UInt8 4
  ipv6 : Vector UInt8 16
  ll : Vector UInt8 16
deriving DecidableEq

def Addrs.zero : Addrs := ⟨zeros 6, zeros 4, zeros 16, zeros 16⟩

def RouterIf.addrs (rif : RouterIf) : Addrs :=
  ⟨rif.macAddr, rif.ipv4Addr, rif.ipv6Addr, rif.llAddr⟩

/-- A message about an address: the name of the tap, and what becomes of its addresses. An address
    that is deleted is cleared if it is the one that the tap has. -/
def ConfMsg.address : ConfMsg → Option (CharBuf × (Addrs → Addrs))
  | .macAddrAdd msg => some (msg.ifname, fun a => { a with mac := msg.macAddr })
  | .macAddrDel msg =>
    some (msg.ifname, fun a => if a.mac = msg.macAddr then { a with mac := zeros 6 } else a)
  | .ipAddrAdd msg => some (msg.ifname, fun a =>
      if msg.family = AF_INET then { a with ipv4 := RibConf.ipv4Of msg.ipAddr }
      else if msg.isLlAddr then { a with ll := msg.ipAddr }
      else { a with ipv6 := msg.ipAddr })
  | .ipAddrDel msg => some (msg.ifname, fun a =>
      if msg.family = AF_INET then
        if a.ipv4 = RibConf.ipv4Of msg.ipAddr then { a with ipv4 := zeros 4 } else a
      else if msg.isLlAddr then if a.ll = msg.ipAddr then { a with ll := zeros 16 } else a
      else if a.ipv6 = msg.ipAddr then { a with ipv6 := zeros 16 } else a)
  | _ => none

/-- A vswitch in use with a router interface. -/
structure RibConf.LiveIf (c : RibConf) (i : Nat) : Prop where
  vswitch : c.LiveVswitch i
  up : 0 ≤ (c.vswitch i).routerIf.sockfd

/-- The RIB manager, and the addresses that the interface of each vswitch has been given. -/
structure Watched where
  rib : RibState
  kernel : Nat → Addrs

/-- The vswitch whose interface is set by a message that is handled to its end. -/
def ifSetBy (env : Env) (s : RibState) : ConfMsg → Option Nat
  | .routerIfSet msg =>
    match confMessage env s.rib s.conf.next s.rings (.routerIfSet msg) with
    | .ok (some _) => vswitchLookup s.conf.next msg.vswitchId
    | _ => none
  | _ => none

/-- What the messages about addresses come to. An interface starts without addresses. -/
def kernelAfter (env : Env) (s : RibState) (msg : ConfMsg) (kernel : Nat → Addrs) : Nat → Addrs :=
  match msg.address with
  | some (name, f) => fun i =>
    if (s.conf.vswitch i).routerIf.tapName.str = name.str then f (kernel i) else kernel i
  | none => fun i => if ifSetBy env s msg = some i then .zero else kernel i

def WatchedStep (s : Watched) (event : Env × ConfMsg) (t : Watched) : Prop :=
  ConfStep s.rib event t.rib ∧ t.kernel = kernelAfter event.1 s.rib event.2 s.kernel

/-- The interfaces have the addresses that they have been given. -/
def FollowsKernel (s : Watched) : Prop :=
  ∀ i, s.rib.conf.LiveIf i → (s.rib.conf.vswitch i).routerIf.addrs = s.kernel i

/-- The search for an interface. -/
def RibConf.firstIf (c : RibConf) (p : RouterIf → Bool) : Option Nat :=
  (List.range c.vswitchSize.toNat).find? fun i => p (c.vswitch i).routerIf

/-- The messages after which the addresses are still right. -/
def FollowsOn (env : Env) (s : RibState) : ConfMsg → Prop
  | .macAddrDel msg =>
    -- no interface of the name has the address, or another one that is cleared
    ∀ i, s.conf.LiveIf i → (s.conf.vswitch i).routerIf.tapName.str = msg.ifname.str →
      ((s.conf.vswitch i).routerIf.macAddr = msg.macAddr
        ∨ s.conf.firstIf (fun rif =>
          decide (rif.tapName = msg.ifname) && decide (rif.macAddr ≠ msg.macAddr)) = some i) →
      (s.conf.vswitch i).routerIf.macAddr = zeros 6
  | .routerIfSet msg =>
    -- an interface that is set has no addresses
    ∀ i, ifSetBy env s (.routerIfSet msg) = some i → 0 ≤ env.tapOpen msg.tapName →
      (s.conf.vswitch i).routerIf.addrs = .zero
  | msg =>
    -- an interface of the name is the one that is found, or has nothing to change
    ∀ name f, msg.address = some (name, f) → ∀ i, s.conf.LiveIf i →
      (s.conf.vswitch i).routerIf.tapName.str = name.str →
        s.conf.firstIf (fun rif => decide (rif.tapName = name)) = some i
          ∨ f (s.conf.vswitch i).routerIf.addrs = (s.conf.vswitch i).routerIf.addrs

/-! ## Messages about addresses -/

section Address

variable {c : RibConf}

theorem RibConf.onRouterIf_vswitch (p : RouterIf → Bool) (f : RouterIf → RouterIf) (i : Nat) :
    (c.onRouterIf p f).vswitch i = if c.firstIf p = some i then
      { c.vswitch i with routerIf := f (c.vswitch i).routerIf } else c.vswitch i := by
  unfold RibConf.onRouterIf RibConf.firstIf
  cases hfind : (List.range c.vswitchSize.toNat).find? fun i => p (c.vswitch i).routerIf with
  | none => simp
  | some j =>
    dsimp only
    rw [RibConf.setVswitch_vswitch]
    by_cases hij : i = j
    · rw [if_pos hij, hij, if_pos rfl]
    · rw [if_neg hij, if_neg]
      exact fun heq => hij (Option.some.inj heq).symm

theorem RibConf.onRouterIf_size (p : RouterIf → Bool) (f : RouterIf → RouterIf) :
    (c.onRouterIf p f).vswitchSize = c.vswitchSize := by
  unfold RibConf.onRouterIf
  split <;> rfl

theorem RibConf.onRouterIf_liveIf (p : RouterIf → Bool) {f : RouterIf → RouterIf}
    (hsockfd : ∀ rif, (f rif).sockfd = rif.sockfd) (i : Nat) :
    (c.onRouterIf p f).LiveIf i ↔ c.LiveIf i := by
  have hdeleted : ((c.onRouterIf p f).vswitch i).isDeleted = (c.vswitch i).isDeleted := by
    rw [RibConf.onRouterIf_vswitch]
    split <;> rfl
  have hup : ((c.onRouterIf p f).vswitch i).routerIf.sockfd = (c.vswitch i).routerIf.sockfd := by
    rw [RibConf.onRouterIf_vswitch]
    split
    · exact hsockfd _
    · rfl
  constructor
  · rintro ⟨⟨hlt, hlive⟩, h⟩
    rw [RibConf.onRouterIf_size] at hlt
    exact ⟨⟨hlt, hdeleted ▸ hlive⟩, hup ▸ h⟩
  · rintro ⟨⟨hlt, hlive⟩, h⟩
    rw [← RibConf.onRouterIf_size p f] at hlt
    exact ⟨⟨hlt, hdeleted.trans hlive⟩, hup.symm ▸ h⟩

theorem RibConf.next_liveIf (i : Nat) : c.next.LiveIf i ↔ c.LiveIf i :=
  ⟨fun h => ⟨h.vswitch, h.up⟩, fun h => ⟨h.vswitch, h.up⟩⟩

theorem RibConf.firstIf_some {p : RouterIf → Bool} {i : Nat} (h : c.firstIf p = some i) :
    p (c.vswitch i).routerIf = true :=
  (List.find?_range_eq_some.mp h).1

end Address

/-! ## Messages that leave the addresses alone -/

/-- The interfaces in use are the same, and so are their addresses. -/
structure SameAddrs (c d : RibConf) : Prop where
  size : d.vswitchSize = c.vswitchSize
  deleted : ∀ i, (d.vswitch i).isDeleted = (c.vswitch i).isDeleted
  sockfd : ∀ i, (d.vswitch i).routerIf.sockfd = (c.vswitch i).routerIf.sockfd
  addrs : ∀ i, (d.vswitch i).routerIf.addrs = (c.vswitch i).routerIf.addrs

/-- An interface that is in use afterwards was so before, with these addresses. -/
def KeepsAddrs (c d : RibConf) : Prop :=
  ∀ i, d.LiveIf i → c.LiveIf i ∧ (d.vswitch i).routerIf.addrs = (c.vswitch i).routerIf.addrs

namespace SameAddrs

variable {c d : RibConf} {rings rings' : Rings}

theorem of_eq (hsize : d.vswitchSize = c.vswitchSize) (h : d.vswitch = c.vswitch) :
    SameAddrs c d :=
  ⟨hsize, fun _ => by rw [h], fun _ => by rw [h], fun _ => by rw [h]⟩

theorem of_same (h : SameVswitches c d) : SameAddrs c d := of_eq h.size h.vswitch

theorem refl (c : RibConf) : SameAddrs c c := of_eq rfl rfl

theorem trans {e : RibConf} (h : SameAddrs c d) (h' : SameAddrs d e) : SameAddrs c e :=
  ⟨h'.size.trans h.size, fun i => (h'.deleted i).trans (h.deleted i),
    fun i => (h'.sockfd i).trans (h.sockfd i), fun i => (h'.addrs i).trans (h.addrs i)⟩

theorem liveIf (h : SameAddrs c d) (i : Nat) : d.LiveIf i ↔ c.LiveIf i := by
  constructor
  · rintro ⟨⟨hlt, hlive⟩, hup⟩
    exact ⟨⟨h.size ▸ hlt, (h.deleted i).symm.trans hlive⟩, h.sockfd i ▸ hup⟩
  · rintro ⟨⟨hlt, hlive⟩, hup⟩
    exact ⟨⟨h.size.symm ▸ hlt, (h.deleted i).trans hlive⟩, (h.sockfd i).symm ▸ hup⟩

theorem keeps (h : SameAddrs c d) : KeepsAddrs c d :=
  fun i hi => ⟨(h.liveIf i).mp hi, h.addrs i⟩

/-- The vswitches change in other fields than these. -/
theorem of_vswitch (hsize : d.vswitchSize = c.vswitchSize)
    (h : ∀ i, (d.vswitch i).isDeleted = (c.vswitch i).isDeleted
      ∧ (d.vswitch i).routerIf.sockfd = (c.vswitch i).routerIf.sockfd
      ∧ (d.vswitch i).routerIf.addrs = (c.vswitch i).routerIf.addrs) : SameAddrs c d :=
  ⟨hsize, fun i => (h i).1, fun i => (h i).2.1, fun i => (h i).2.2⟩

theorem setVswitch (i : Nat) {f : VswitchConf → VswitchConf}
    (h : ∀ v, (f v).isDeleted = v.isDeleted ∧ (f v).routerIf.sockfd = v.routerIf.sockfd
      ∧ (f v).routerIf.addrs = v.routerIf.addrs) : SameAddrs c (c.setVswitch i f) := by
  refine of_vswitch rfl fun j => ?_
  rw [RibConf.setVswitch_vswitch]
  split
  · next hj =>
    rw [hj]
    exact h _
  · exact ⟨rfl, rfl, rfl⟩

theorem ribCheck {env : Env} (h : SdPlane.ribCheck env c rings = .ok (some (d, rings'))) :
    SameAddrs c d :=
  ribCheck_rule (SameAddrs c) (refl c)
    (fun i _ _ hkeeps => hkeeps.trans (setVswitch i fun _ => ⟨rfl, rfl, rfl⟩))
    (fun i _ _ hkeeps => hkeeps.trans (setVswitch i fun _ => ⟨rfl, rfl, rfl⟩)) h

theorem linkDeleted {l : UInt16} {i : Nat} (h : LinkDeleted c l i d) : SameAddrs c d := by
  refine of_vswitch h.vswitchSize fun j => ?_
  rw [h.vswitch, Function.update_apply]
  split
  · next hj =>
    rw [hj]
    obtain ⟨arr, size, hremoved⟩ := linkRemoved l (c.vswitch i)
    rw [hremoved]
    exact ⟨rfl, rfl, rfl⟩
  · exact ⟨rfl, rfl, rfl⟩

theorem vswitchPortSet {msg : InternalMsgVswitchPort} (h : c.vswitchPortSet msg = .ok d) :
    SameAddrs c d := by
  rcases vswitchPortSet_ok h with ⟨rfl, -⟩ | ⟨v, l, hset⟩
  · exact refl d
  · refine of_vswitch hset.vswitchSize fun j => ?_
    rw [hset.vswitch, Function.update_apply]
    split
    · next hj =>
      rw [hj]
      unfold VswitchConf.attached
      split <;> exact ⟨rfl, rfl, rfl⟩
    · exact ⟨rfl, rfl, rfl⟩

theorem vswitchPortNoSet {msg : InternalMsgVswitchPort} (h : c.vswitchPortNoSet msg = .ok d) :
    SameAddrs c d := by
  rcases vswitchPortNoSet_cases h with rfl | ⟨l, hdel⟩
  · exact refl _
  · obtain ⟨i, hdel⟩ := linkDeleted_ok hdel
    exact linkDeleted hdel

end SameAddrs

namespace KeepsAddrs

variable {c d : RibConf} {rings rings' : Rings}

theorem trans {e : RibConf} (h : KeepsAddrs c d) (h' : KeepsAddrs d e) : KeepsAddrs c e := by
  intro i hi
  obtain ⟨hd, hde⟩ := h' i hi
  obtain ⟨hc, hcd⟩ := h i hd
  exact ⟨hc, hde.trans hcd⟩

/-- One vswitch changes, and has no interface in use afterwards. -/
theorem of_down {j : Nat}
    (hsize : ∀ i, i ≠ j → i < d.vswitchSize.toNat → i < c.vswitchSize.toNat)
    (hothers : ∀ i, i ≠ j → d.vswitch i = c.vswitch i) (hdown : ¬ d.LiveIf j) :
    KeepsAddrs c d := by
  intro i hi
  have hij : i ≠ j := fun heq => hdown (heq ▸ hi)
  have hsame := hothers i hij
  rw [hsame]
  exact ⟨⟨⟨hsize i hij hi.vswitch.1, hsame ▸ hi.vswitch.2⟩, hsame ▸ hi.up⟩, rfl⟩

theorem setVswitch {j : Nat} {f : VswitchConf → VswitchConf}
    (hdown : ¬ (c.setVswitch j f).LiveIf j) : KeepsAddrs c (c.setVswitch j f) :=
  of_down (fun _ _ hi => hi) (fun i hij => by rw [RibConf.setVswitch_vswitch, if_neg hij]) hdown

theorem ifDelete {kind : IfKind} {vswitchId : UInt16}
    (h : SdPlane.ifDelete kind c rings vswitchId = .ok (d, rings')) : KeepsAddrs c d := by
  obtain ⟨i, hdel⟩ := ifDeleted_ok h
  rw [hdel.conf]
  cases kind with
  | capture => exact SameAddrs.keeps (.setVswitch i fun v => ⟨rfl, rfl, rfl⟩)
  | router =>
    refine setVswitch fun hi => ?_
    have hup := hi.up
    rw [RibConf.setVswitch_vswitch, if_pos rfl] at hup
    exact absurd (show (0 : Int) ≤ -1 from hup) (by decide)

theorem retire (i : Nat) : KeepsAddrs c (c.setVswitch i fun v => { v with isDeleted := true }) := by
  refine setVswitch fun hi => ?_
  have hlive := hi.vswitch.2
  rw [RibConf.setVswitch_vswitch, if_pos rfl] at hlive
  cases hlive

theorem vswitchDelete {vswitchId : UInt16}
    (h : SdPlane.vswitchDelete c rings vswitchId = .ok (d, rings')) : KeepsAddrs c d := by
  have interface : ∀ (kind : IfKind) {e e' : RibConf} {r r' : Rings}, KeepsAddrs c e →
      SdPlane.ifDelete kind e r vswitchId = .ok (e', r') → KeepsAddrs c e' :=
    fun _ _ _ _ _ hkeeps hone => hkeeps.trans (ifDelete hone)
  exact vswitchDelete_rule (KeepsAddrs c) (SameAddrs.refl c).keeps (interface .router)
    (interface .capture)
    (fun hkeeps hone => by
      obtain ⟨i, hdel⟩ := linkDeleted_ok hone
      exact hkeeps.trans (SameAddrs.linkDeleted hdel).keeps)
    (fun i hkeeps => hkeeps.trans (retire i)) h

/-- A new vswitch has no interface. -/
theorem vswitchSet (msg : InternalMsgVswitch) : KeepsAddrs c (c.vswitchSet msg) := by
  unfold RibConf.vswitchSet
  split
  · exact (SameAddrs.refl c).keeps
  · split
    · next i d hnew =>
      have hfacts := vswitchNew_some hnew
      refine of_down (fun j hji hj => ?_) hfacts.others fun hi => ?_
      · have hle := hfacts.le
        rw [hfacts.size] at hj
        omega
      · have hup := hi.up
        rw [hfacts.routerIf] at hup
        exact absurd hup (by decide)
    · exact (SameAddrs.refl c).keeps

/-- **A message that neither is about an address nor sets an interface.** -/
theorem confMessage {env : Env} {old : Option Rib} {msg : ConfMsg} (haddress : msg.address = none)
    (hset : ∀ set, msg ≠ .routerIfSet set)
    (h : SdPlane.confMessage env old c rings msg = .ok (some (d, rings'))) : KeepsAddrs c d := by
  cases msg with
  | macAddrAdd _ => cases haddress
  | macAddrDel _ => cases haddress
  | ipAddrAdd _ => cases haddress
  | ipAddrDel _ => cases haddress
  | routerIfSet set => exact absurd rfl (hset set)
  | portStatus => exact (SameAddrs.of_same (.portStatus (handler_ok h))).keeps
  | qconf q =>
    obtain ⟨c', hc', h⟩ := bind_ok h
    obtain ⟨_, -, h⟩ := bind_ok h
    exact ((SameAddrs.of_same (.qconf hc')).trans (.ribCheck h)).keeps
  | txrxDesc msg =>
    obtain ⟨c', hc', ⟨rfl, -⟩ | hcheck⟩ := txrxDesc_ok h
    · exact (SameAddrs.of_same (.txrxDesc hc')).keeps
    · exact ((SameAddrs.of_same (.txrxDesc hc')).trans (.ribCheck hcheck)).keeps
  | neighEntryAdd msg => exact (SameAddrs.of_same (.neighEntryAdd (handler_ok h))).keeps
  | neighEntryDel msg => exact (SameAddrs.of_same (.neighEntryDel (handler_ok h))).keeps
  | vswitchSet msg =>
    obtain rfl := plain_ok h
    exact vswitchSet msg
  | vswitchNoSet msg =>
    obtain ⟨⟨c', rings₁⟩, hc', h⟩ := bind_ok h
    obtain ⟨rfl, -⟩ := Prod.mk.inj (Option.some.inj (Except.ok.inj h))
    exact vswitchDelete hc'
  | vswitchPortSet msg => exact (SameAddrs.vswitchPortSet (handler_ok h)).keeps
  | vswitchPortNoSet msg => exact (SameAddrs.vswitchPortNoSet (handler_ok h)).keeps
  | routerIfNoSet msg =>
    obtain ⟨⟨c', rings₁⟩, hc', h⟩ := bind_ok h
    obtain ⟨rfl, -⟩ := Prod.mk.inj (Option.some.inj (Except.ok.inj h))
    exact tapNoSet_rule (KeepsAddrs c) (SameAddrs.refl c).keeps
      (fun hkeeps hone => hkeeps.trans (@ifDelete _ _ _ _ .router _ hone)) hc'
  | captureIfSet msg =>
    simp only [SdPlane.confMessage] at h
    split at h
    · obtain rfl := plain_ok h
      exact (SameAddrs.refl _).keeps
    · next i hlookup =>
      obtain ⟨_, -, h⟩ := bind_ok h
      have hset : SameAddrs c (c.captureIfSet env i msg) :=
        SameAddrs.setVswitch i fun v => ⟨rfl, rfl, rfl⟩
      exact (hset.trans (.ribCheck h)).keeps
  | captureIfNoSet msg =>
    obtain ⟨⟨c', rings₁⟩, hc', h⟩ := bind_ok h
    obtain ⟨rfl, -⟩ := Prod.mk.inj (Option.some.inj (Except.ok.inj h))
    exact tapNoSet_rule (KeepsAddrs c) (SameAddrs.refl c).keeps
      (fun hkeeps hone => hkeeps.trans (@ifDelete _ _ _ _ .capture _ hone)) hc'
  | fdbEntryAdd msg =>
    obtain rfl := plain_ok h
    exact SameAddrs.keeps (.of_eq rfl rfl)
  | applicationSlot msg =>
    obtain rfl := plain_ok h
    unfold applicationSlotAdd
    split <;> exact SameAddrs.keeps (.of_eq rfl rfl)
  | srv6LocalSid msg =>
    obtain rfl := plain_ok h
    unfold RibConf.srv6LocalSid
    dsimp only
    split <;> exact SameAddrs.keeps (.of_eq rfl rfl)

end KeepsAddrs

/-! ## One message -/

section Step

variable {env : Env} {s t : Watched} {msg : ConfMsg}

theorem kernelAfter_other (haddress : msg.address = none) (hset : ifSetBy env s.rib msg = none) :
    kernelAfter env s.rib msg s.kernel = s.kernel := by
  unfold kernelAfter
  rw [haddress]
  simp [hset]

theorem followsOn_other (haddress : msg.address = none) (hset : ifSetBy env s.rib msg = none) :
    FollowsOn env s.rib msg := by
  cases msg with
  | macAddrDel _ => cases haddress
  | routerIfSet _ => exact fun i hi => nomatch hset.symm.trans hi
  | _ => exact fun name f hf => nomatch haddress.symm.trans hf

/-- What keeps the addresses keeps them right. -/
theorem followsKernel_keep (h : FollowsKernel s) (hkeeps : KeepsAddrs s.rib.conf t.rib.conf)
    (hkernel : t.kernel = s.kernel) : FollowsKernel t := by
  intro i hi
  obtain ⟨hs, haddrs⟩ := hkeeps i hi
  rw [haddrs, hkernel]
  exact h i hs

/-- A message about an address, whose handler changes the first interface that meets `p`. -/
theorem followsKernel_address (h : FollowsKernel s) {p : RouterIf → Bool} {f : RouterIf → RouterIf}
    {name : CharBuf} {g : Addrs → Addrs} (haddress : msg.address = some (name, g))
    (hconf : t.rib.conf = s.rib.conf.next.onRouterIf p f)
    (hkernel : t.kernel = kernelAfter env s.rib msg s.kernel)
    (hname : ∀ rif, p rif = true → rif.tapName = name)
    (hsockfd : ∀ rif, (f rif).sockfd = rif.sockfd) :
    FollowsKernel t ↔ ∀ i, s.rib.conf.LiveIf i →
      (s.rib.conf.vswitch i).routerIf.tapName.str = name.str →
        (if s.rib.conf.firstIf p = some i then f (s.rib.conf.vswitch i).routerIf
          else (s.rib.conf.vswitch i).routerIf).addrs = g (s.rib.conf.vswitch i).routerIf.addrs := by
  have hlive : ∀ i, t.rib.conf.LiveIf i ↔ s.rib.conf.LiveIf i := by
    intro i
    rw [hconf]
    exact (RibConf.onRouterIf_liveIf p hsockfd i).trans (RibConf.next_liveIf i)
  have haddrs : ∀ i, (t.rib.conf.vswitch i).routerIf.addrs
      = (if s.rib.conf.firstIf p = some i then f (s.rib.conf.vswitch i).routerIf
        else (s.rib.conf.vswitch i).routerIf).addrs := by
    intro i
    rw [hconf, RibConf.onRouterIf_vswitch]
    show (if s.rib.conf.firstIf p = some i then
        { s.rib.conf.vswitch i with routerIf := f (s.rib.conf.vswitch i).routerIf }
      else s.rib.conf.vswitch i).routerIf.addrs = _
    split <;> rfl
  have hafter : ∀ i, t.kernel i
      = if (s.rib.conf.vswitch i).routerIf.tapName.str = name.str then g (s.kernel i)
        else s.kernel i := by
    intro i
    rw [hkernel, kernelAfter, haddress]
  refine forall_congr' fun i => ?_
  rw [hlive i, haddrs i, hafter i]
  refine forall_congr' fun hi => ?_
  rw [← h i hi]
  by_cases hnamed : (s.rib.conf.vswitch i).routerIf.tapName.str = name.str
  · rw [if_pos hnamed]
    exact ⟨fun heq _ => heq, fun heq => heq hnamed⟩
  · -- an interface of another name is not the one that is found
    have hnot : s.rib.conf.firstIf p ≠ some i :=
      fun hfound => hnamed (by rw [hname _ (RibConf.firstIf_some hfound)])
    rw [if_neg hnamed, if_neg hnot]
    exact ⟨fun _ heq => absurd heq hnamed, fun _ => rfl⟩

/-- The interface that is found gets what the message says. -/
theorem followsKernel_found (h : FollowsKernel s) {f : RouterIf → RouterIf}
    {name : CharBuf} {g : Addrs → Addrs} (haddress : msg.address = some (name, g))
    (hconf : t.rib.conf = s.rib.conf.next.onRouterIf (fun rif => decide (rif.tapName = name)) f)
    (hkernel : t.kernel = kernelAfter env s.rib msg s.kernel)
    (hsockfd : ∀ rif, (f rif).sockfd = rif.sockfd) (haddrs : ∀ rif, (f rif).addrs = g rif.addrs) :
    FollowsKernel t ↔ ∀ name f, msg.address = some (name, f) → ∀ i, s.rib.conf.LiveIf i →
      (s.rib.conf.vswitch i).routerIf.tapName.str = name.str →
        s.rib.conf.firstIf (fun rif => decide (rif.tapName = name)) = some i
          ∨ f (s.rib.conf.vswitch i).routerIf.addrs = (s.rib.conf.vswitch i).routerIf.addrs := by
  rw [followsKernel_address h haddress hconf hkernel (fun rif => of_decide_eq_true) hsockfd]
  have one : ∀ i, ((if s.rib.conf.firstIf (fun rif => decide (rif.tapName = name)) = some i then
        f (s.rib.conf.vswitch i).routerIf else (s.rib.conf.vswitch i).routerIf).addrs
          = g (s.rib.conf.vswitch i).routerIf.addrs
      ↔ s.rib.conf.firstIf (fun rif => decide (rif.tapName = name)) = some i
        ∨ g (s.rib.conf.vswitch i).routerIf.addrs = (s.rib.conf.vswitch i).routerIf.addrs) := by
    intro i
    split
    · next hfound => exact ⟨fun _ => .inl hfound, fun _ => haddrs _⟩
    · next hnot => exact ⟨fun heq => .inr heq.symm, fun heq => (heq.resolve_left hnot).symm⟩
  constructor
  · intro hall name' f' hf i hi hnamed
    obtain ⟨rfl, rfl⟩ := Prod.mk.inj (Option.some.inj (haddress.symm.trans hf))
    exact (one i).mp (hall i hi hnamed)
  · intro hall i hi hnamed
    exact (one i).mpr (hall name g haddress i hi hnamed)

/-- An interface is set, and has the addresses that it had before. -/
theorem followsKernel_routerIfSet (h : FollowsKernel s) {set : InternalMsgTapDev} {i : Nat}
    {rings : Rings}
    (hlookup : vswitchLookup s.rib.conf.next set.vswitchId = some i)
    (hcheck : ribCheck env (s.rib.conf.next.routerIfSet env i set) s.rib.rings
      = .ok (some (t.rib.conf, rings)))
    (hkernel : t.kernel = fun j => if i = j then .zero else s.kernel j) :
    FollowsKernel t ↔ (0 ≤ env.tapOpen set.tapName → (s.rib.conf.vswitch i).routerIf.addrs = .zero) := by
  have hsame := SameAddrs.ribCheck hcheck
  have hself : ((s.rib.conf.next.routerIfSet env i set).vswitch i).isDeleted
        = (s.rib.conf.vswitch i).isDeleted
      ∧ ((s.rib.conf.next.routerIfSet env i set).vswitch i).routerIf.sockfd
        = env.tapOpen set.tapName
      ∧ ((s.rib.conf.next.routerIfSet env i set).vswitch i).routerIf.addrs
        = (s.rib.conf.vswitch i).routerIf.addrs := by
    rw [RibConf.routerIfSet, RibConf.setVswitch_vswitch, if_pos rfl]
    exact ⟨rfl, rfl, rfl⟩
  have hothers : ∀ j, j ≠ i → (s.rib.conf.next.routerIfSet env i set).vswitch j
      = s.rib.conf.vswitch j := by
    intro j hj
    rw [RibConf.routerIfSet, RibConf.setVswitch_vswitch, if_neg hj]
    rfl
  have hvswitch := (vswitchLookup_some hlookup).1
  have hlive : t.rib.conf.LiveIf i ↔ 0 ≤ env.tapOpen set.tapName := by
    rw [hsame.liveIf]
    exact ⟨fun hi => hself.2.1 ▸ hi.up,
      fun hup => ⟨⟨hvswitch.1, hself.1.trans hvswitch.2⟩, hself.2.1.symm ▸ hup⟩⟩
  have hlive_other : ∀ j, j ≠ i → (t.rib.conf.LiveIf j ↔ s.rib.conf.LiveIf j) := by
    intro j hj
    rw [hsame.liveIf]
    exact ⟨fun ⟨⟨hlt, hnot⟩, hup⟩ => ⟨⟨hlt, hothers j hj ▸ hnot⟩, hothers j hj ▸ hup⟩,
      fun ⟨⟨hlt, hnot⟩, hup⟩ => ⟨⟨hlt, (hothers j hj).symm ▸ hnot⟩, (hothers j hj).symm ▸ hup⟩⟩
  constructor
  · intro ht hup
    have hi := ht i (hlive.mpr hup)
    rw [hsame.addrs, hself.2.2, hkernel] at hi
    simpa using hi
  · intro hzero j hj
    by_cases hji : j = i
    · subst hji
      rw [hsame.addrs, hself.2.2, hkernel, hzero (hlive.mp hj)]
      simp
    · have hs := h j ((hlive_other j hji).mp hj)
      rw [hsame.addrs, hothers j hji, hs, hkernel]
      simp [Ne.symm hji]

/-- The address that is found is cleared, and it is another one than that of the message. -/
theorem macAddrDel_iff {p : RouterIf → Bool} {mac : EtherAddr}
    (hp : ∀ rif, p rif = true → rif.macAddr ≠ mac) (c : RibConf) (i : Nat) :
    (if c.firstIf p = some i then { (c.vswitch i).routerIf with macAddr := zeros 6 }
        else (c.vswitch i).routerIf).addrs
        = (if (c.vswitch i).routerIf.addrs.mac = mac then
            { (c.vswitch i).routerIf.addrs with mac := zeros 6 } else (c.vswitch i).routerIf.addrs)
      ↔ ((c.vswitch i).routerIf.macAddr = mac ∨ c.firstIf p = some i →
        (c.vswitch i).routerIf.macAddr = zeros 6) := by
  by_cases hmac : (c.vswitch i).routerIf.macAddr = mac
  · have hnot : c.firstIf p ≠ some i := fun hfound => hp _ (RibConf.firstIf_some hfound) hmac
    simp [hnot, hmac, RouterIf.addrs]
  · by_cases hfound : c.firstIf p = some i
    · simp [hfound, hmac, RouterIf.addrs, eq_comm]
    · simp [hfound, hmac, RouterIf.addrs]

/-- A message that is refused sets no interface, and is not about an address. -/
theorem refused_other (hnone : confMessage env s.rib.rib s.rib.conf.next s.rib.rings msg = .ok none) :
    msg.address = none ∧ ifSetBy env s.rib msg = none := by
  cases msg with
  | macAddrAdd m => cases hnone
  | macAddrDel m => cases hnone
  | ipAddrAdd m => cases hnone
  | ipAddrDel m => cases hnone
  | routerIfSet set =>
    refine ⟨rfl, ?_⟩
    simp only [ifSetBy, hnone]
  | _ => exact ⟨rfl, rfl⟩

/-- **One message: the addresses are right afterwards exactly when it is one that they follow.** -/
theorem followsKernel_step {event : Env × ConfMsg} (h : FollowsKernel s)
    (hstep : WatchedStep s event t) : FollowsKernel t ↔ FollowsOn event.1 s.rib event.2 := by
  obtain ⟨env, msg⟩ := event
  obtain ⟨hconf, hkernel⟩ := hstep
  have other : msg.address = none → ifSetBy env s.rib msg = none →
      KeepsAddrs s.rib.conf t.rib.conf → (FollowsKernel t ↔ FollowsOn env s.rib msg) :=
    fun haddress hset hkeeps => ⟨fun _ => followsOn_other haddress hset,
      fun _ => followsKernel_keep h hkeeps (hkernel.trans (kernelAfter_other haddress hset))⟩
  have hnext : KeepsAddrs s.rib.conf s.rib.conf.next := SameAddrs.keeps (.of_eq rfl rfl)
  rcases conf_of_ok hconf with ⟨d, rings, hresult, rfl, -, -⟩ | ⟨hnone, hsame⟩
  · cases msg with
    | macAddrAdd m =>
      exact followsKernel_found h rfl (plain_ok hresult).symm hkernel (fun rif => rfl) fun rif => rfl
    | ipAddrAdd m =>
      refine followsKernel_found h rfl (plain_ok hresult).symm hkernel (fun rif => ?_) fun rif => ?_
      · simp only [apply_ite RouterIf.sockfd, ite_self]
      · simp only [apply_ite RouterIf.addrs]
        rfl
    | ipAddrDel m =>
      refine followsKernel_found h rfl (plain_ok hresult).symm hkernel (fun rif => ?_) fun rif => ?_
      · simp only [apply_ite RouterIf.sockfd, ite_self]
      · simp only [apply_ite RouterIf.addrs]
        rfl
    | macAddrDel m =>
      have hp : ∀ rif : RouterIf,
          (decide (rif.tapName = m.ifname) && decide (rif.macAddr ≠ m.macAddr)) = true →
            rif.tapName = m.ifname ∧ rif.macAddr ≠ m.macAddr := by simp
      rw [followsKernel_address h rfl (plain_ok hresult).symm hkernel
        (fun rif hrif => (hp rif hrif).1) fun rif => rfl]
      exact forall_congr' fun i => forall_congr' fun _ => forall_congr' fun _ =>
        macAddrDel_iff (fun rif hrif => (hp rif hrif).2) s.rib.conf i
    | routerIfSet set =>
      have hset : ifSetBy env s.rib (.routerIfSet set)
          = vswitchLookup s.rib.conf.next set.vswitchId := by
        simp only [ifSetBy, hresult]
      simp only [confMessage] at hresult
      cases hlookup : vswitchLookup s.rib.conf.next set.vswitchId with
      | none =>
        rw [hlookup] at hresult hset
        refine other rfl hset ?_
        rw [← plain_ok hresult]
        exact hnext
      | some i =>
        rw [hlookup] at hresult hset
        obtain ⟨_, -, hcheck⟩ := bind_ok hresult
        rw [followsKernel_routerIfSet h hlookup hcheck]
        · constructor
          · intro hzero j hj
            obtain rfl := Option.some.inj (hset.symm.trans hj)
            exact hzero
          · exact fun hall => hall i hset
        · rw [hkernel]
          funext j
          simp [kernelAfter, ConfMsg.address, hset]
    | _ =>
      refine other rfl rfl (hnext.trans (KeepsAddrs.confMessage rfl (fun set heq => ?_) hresult))
      cases heq
  · obtain ⟨haddress, hset⟩ := refused_other hnone
    refine other haddress hset ?_
    rcases hsame with heq | hflag
    · rw [heq]
      exact SameAddrs.keeps (.refl _)
    · exact SameAddrs.keeps (.of_same (.putStopFlag hflag))

end Step

/-! ## Runs -/

/-- **In every run, the interfaces have the addresses that they have been given throughout exactly
    when every message is one that they follow.** -/
theorem followsKernel_iff (events : List (Env × ConfMsg)) :
    Lib.Throughout WatchedStep ⟨.init, fun _ => .zero⟩ FollowsKernel events
      ↔ Lib.Stepwise WatchedStep ⟨.init, fun _ => .zero⟩
        (fun s event => FollowsOn event.1 s.rib event.2) events :=
  Lib.throughout_iff (fun _ => True) trivial (fun _ _ _ _ _ => trivial)
    (fun i hi => absurd hi.vswitch.1 (Nat.not_lt_zero i))
    fun _ _ _ _ hs hstep => followsKernel_step hs hstep

/-! A tap whose address is deleted -/

theorem exists_watched {s₀ s : RibState} {events : List (Env × ConfMsg)}
    (h : Lib.Run ConfStep s₀ events s) (kernel : Nat → Addrs) :
    ∃ t : Watched, Lib.Run WatchedStep ⟨s₀, kernel⟩ events t ∧ t.rib = s := by
  induction h with
  | nil => exact ⟨_, .nil, rfl⟩
  | @snoc _ _ u event _ last ih =>
    obtain ⟨t, hrun, rfl⟩ := ih
    have hstep : WatchedStep t event ⟨u, kernelAfter event.1 t.rib event.2 t.kernel⟩ := ⟨last, rfl⟩
    exact ⟨_, hrun.snoc hstep, rfl⟩

/-- A name with zeros behind the terminator. -/
def CharBuf.Padded (name : CharBuf) : Prop := CharBuf.print (zeros 16) name = name

instance (name : CharBuf) : Decidable name.Padded := inferInstanceAs (Decidable (_ = _))

def macA : InternalMsgMacAddr := ⟨tapA.tapName, Vector.replicate 6 2⟩

/-- Vswitch `1` with a router interface that has got an address. -/
def oneAddr : RibConf × Rings :=
  let p := afterRouterIfSet (RibConf.zero.next.vswitchSet ⟨1, 1⟩, .none) 0 tapA
  (p.1.next.macAddrAdd macA, p.2)

def oneAddrRun : List (Env × ConfMsg) :=
  [(.plain, .vswitchSet ⟨1, 1⟩), (.plain, .routerIfSet tapA), (.plain, .macAddrAdd macA)]

theorem oneAddr_reached : ∃ s, Lib.Run ConfStep .init oneAddrRun s
    ∧ Reached s oneAddr.1 oneAddr.2 := by
  obtain ⟨s₁, h₁, hr₁⟩ := @exists_handled .init (.vswitchSet ⟨1, 1⟩) _ _ rfl
  obtain ⟨s₂, h₂, hr₂⟩ := @exists_routerIfSet s₁ (RibConf.zero.next.vswitchSet ⟨1, 1⟩, .none) tapA 0
    hr₁ (by decide +kernel) (by decide) (fun l => rfl) (by decide)
  obtain ⟨s₃, h₃, hr₃⟩ := @exists_handled s₂ (.macAddrAdd macA) oneAddr.1 oneAddr.2 (by
    rw [hr₂.conf, hr₂.rings]
    rfl)
  exact ⟨s₃, ((Lib.Run.nil.snoc h₁).snoc h₂).snoc h₃, hr₃⟩

theorem deleted_address_stays : ¬ ∀ (events : List (Env × ConfMsg)) (s : Watched),
    (∀ event ∈ events, ∀ name f, event.2.address = some (name, f) → name.Padded) →
      Lib.Run WatchedStep ⟨.init, fun _ => .zero⟩ events s → FollowsKernel s := by
  intro hall
  have hpadded : ∀ event ∈ oneAddrRun ++ [(Env.plain, ConfMsg.macAddrDel macA)], ∀ name f,
      event.2.address = some (name, f) → name.Padded := by
    intro event hevent name f hf
    have hname : name = tapA.tapName := by
      simp only [oneAddrRun, List.cons_append, List.nil_append, List.mem_cons, List.not_mem_nil,
        or_false] at hevent
      rcases hevent with rfl | rfl | rfl | rfl
      · cases hf
      · cases hf
      · exact (Prod.mk.inj (Option.some.inj hf)).1.symm
      · exact (Prod.mk.inj (Option.some.inj hf)).1.symm
    rw [hname]
    decide +kernel
  obtain ⟨s, hrun, hs⟩ := oneAddr_reached
  obtain ⟨t, hrun', rfl⟩ := exists_watched hrun fun _ => .zero
  obtain ⟨u, hstep, -⟩ := @exists_handled t.rib (.macAddrDel macA) _ _ rfl
  have hlast : WatchedStep t (.plain, .macAddrDel macA)
      ⟨u, kernelAfter .plain t.rib (.macAddrDel macA) t.kernel⟩ := ⟨hstep, rfl⟩
  have hfollows := hall _ t (fun event hevent => hpadded event (List.mem_append_left _ hevent)) hrun'
  -- the message names the address that the interface has, so it is the one that is left
  have hon := (followsKernel_step hfollows hlast).mp (hall _ _ hpadded (hrun'.snoc hlast))
  have hlive : oneAddr.1.LiveIf 0 := ⟨⟨by decide +kernel, by decide +kernel⟩, by decide +kernel⟩
  have hzero := hon 0 (hs.conf ▸ hlive) (by rw [hs.conf]; decide +kernel)
    (.inl (by rw [hs.conf]; decide +kernel))
  rw [hs.conf] at hzero
  exact absurd hzero (by decide +kernel)

end SdPlane
