import SdPlane.RibConf
import SdPlane.Routing

/-!
# One message (`rib_manager_process_message`)

The RIB manager owns the configuration. It takes one message at a time, makes a new version out
of the published one, changes it as the message says, rebuilds the FIB trees of the new version
from the RIB, and publishes it. `ribManagerProcessMessage` is that function; a `Fault` is what C
leaves undefined.

Not every message goes all the way. Four of them are checked by `rib_check`, and three of these
are dropped when it fails: the new version is thrown away and the old one stays, with the stop
flags of its ports cleared. `PORT_GET_REQUEST` publishes a version that it makes itself, and
the rest of the function is skipped. Between the check of a `QCONF` and the end, a version
without `rib_info` is published for the forwarding threads to see; no message is processed
meanwhile, and the model does not show it.

Answers to requests, and freeing, are left out.
-/

set_option autoImplicit false

namespace SdPlane

open Radix (RibTree rebuildFibFromRib)
open Fib (FibTree fibNew)

def NO_VLAN_SPECIFIED : UInt16 := 65535

/-! ## Messages -/

structure InternalMsgTxrxDesc where
  portid : UInt16
  mtu : UInt16
  nrxq : UInt16
  ntxq : UInt16
  nbRxd : UInt16
  nbTxd : UInt16

structure InternalMsgVswitch where
  vswitchId : UInt16
  vlanId : UInt16

structure InternalMsgVswitchPort where
  vswitchId : UInt16
  portId : UInt16
  tagId : UInt16
  isTagged : Bool

structure InternalMsgTapDev where
  vswitchId : UInt16
  tapName : CharBuf
  vlanId : UInt16

structure InternalMsgNeighEntry where
  type : Int
  pos : Int
  numEntries : Int
  data : NeighEntry

structure InternalMsgFdbEntry where
  macAddr : EtherAddr
  vlanId : UInt16
  port : UInt16

structure InternalMsgMacAddr where
  ifname : CharBuf
  macAddr : EtherAddr

structure InternalMsgIpAddr where
  ifname : CharBuf
  family : Int
  isLlAddr : Bool
  ipAddr : IpAddr

structure InternalMsgSrv6LocalSid where
  srv6LocalSidAddr : Vector UInt8 16
  srv6LocalSidAddrIndex : UInt8

/-- The messages that change the configuration of a version and nothing else. -/
inductive ConfMsg
  | portStatus
  | qconf (qconf : Nat → LcoreQconf)
  | txrxDesc (msg : InternalMsgTxrxDesc)
  | neighEntryAdd (msg : InternalMsgNeighEntry)
  | neighEntryDel (msg : InternalMsgNeighEntry)
  | vswitchSet (msg : InternalMsgVswitch)
  | vswitchNoSet (msg : InternalMsgVswitch)
  | vswitchPortSet (msg : InternalMsgVswitchPort)
  | vswitchPortNoSet (msg : InternalMsgVswitchPort)
  | routerIfSet (msg : InternalMsgTapDev)
  | routerIfNoSet (msg : InternalMsgTapDev)
  | captureIfSet (msg : InternalMsgTapDev)
  | captureIfNoSet (msg : InternalMsgTapDev)
  | fdbEntryAdd (msg : InternalMsgFdbEntry)
  | applicationSlot (msg : ApplicationSlotEntry)
  | macAddrAdd (msg : InternalMsgMacAddr)
  | macAddrDel (msg : InternalMsgMacAddr)
  | ipAddrAdd (msg : InternalMsgIpAddr)
  | ipAddrDel (msg : InternalMsgIpAddr)
  | srv6LocalSid (msg : InternalMsgSrv6LocalSid)

/-- `struct internal_msg_header` and what follows it. -/
inductive Msg
  | conf (msg : ConfMsg)
  | portGetRequest (portId : UInt16)
  | routing (msg : RoutingMsg)
  | unknown (type : UInt32)

/-! ## The handlers of the configuration messages -/

/-- `set_stop_flag` and `delete_stop_flag` on a version that may not be there. -/
def stopPorts (env : Env) (flag : Bool) (old : Option Rib) : Except Fault (Option Rib) :=
  if env.nbPorts = 0 then .ok old
  else do
    let info ← deref (old.bind Rib.ribInfo)
    let conf ← putStopFlag env flag info.toRibConf
    .ok (some ⟨some { info with toRibConf := conf }⟩)

/-- `rib_check`, with the published version stopped meanwhile. -/
def ribCheckStopped (env : Env) (old : Option Rib) (c : RibConf) (rings : Rings) :
    Except Fault (Option (RibConf × Rings)) := do
  let _ ← stopPorts env true old
  ribCheck env c rings

namespace RibConf

/-- `case INTERNAL_MSG_TYPE_QCONF`, up to the check. An lcore without queues in the message is
    passed over. -/
def qconf (env : Env) (c : RibConf) (qconf : Nat → LcoreQconf) : Except Fault RibConf :=
  let n := env.lcoreCount.toNat
  if n > RTE_MAX_LCORE ∨ ((List.range n).any fun i =>
      decide ((qconf i).nrxq.toNat > MAX_RX_QUEUE_PER_LCORE)) then .error .outOfBounds
  else .ok { c with
    lcoreSize := env.lcoreCount.toUInt8
    lcoreQconf := fun i =>
      if i < n ∧ (qconf i).nrxq ≠ 0 then
        { nrxq := (qconf i).nrxq
          rxQueueList := fun j =>
            if j < (qconf i).nrxq.toNat then (qconf i).rxQueueList j
            else (c.lcoreQconf i).rxQueueList j }
      else c.lcoreQconf i }

/-- `case INTERNAL_MSG_TYPE_TXRX_DESC`, up to the check. -/
def txrxDesc (c : RibConf) (msg : InternalMsgTxrxDesc) : Except Fault RibConf := do
  if msg.mtu ≠ 0 ∨ msg.nrxq ≠ 0 ∨ msg.ntxq ≠ 0 ∨ msg.nbRxd ≠ 0 ∨ msg.nbTxd ≠ 0 then
    inBounds msg.portid.toNat MAX_ETH_PORTS
  .ok (c.setPort msg.portid.toNat fun p => { p with
    mtu := if msg.mtu ≠ 0 then msg.mtu else p.mtu
    nrxq := if msg.nrxq ≠ 0 then msg.nrxq else p.nrxq
    ntxq := if msg.ntxq ≠ 0 then msg.ntxq else p.ntxq
    nbRxd := if msg.nbRxd ≠ 0 then msg.nbRxd else p.nbRxd
    nbTxd := if msg.nbTxd ≠ 0 then msg.nbTxd else p.nbTxd })

/-- The table and the position of a neighbor message. -/
def neighPos (msg : InternalMsgNeighEntry) : Except Fault (Nat × Nat) :=
  if msg.type < 0 ∨ msg.pos < 0 then .error .outOfBounds
  else do
    inBounds msg.type.toNat NEIGH_NR_TABLES
    inBounds msg.pos.toNat MAX_NEIGHBOR_ENTRY_SIZE
    .ok (msg.type.toNat, msg.pos.toNat)

/-- The number of entries that `memmove` moves. -/
def neighMoved (numEntries pos : Int) : Except Fault Nat :=
  if numEntries < pos then .error .outOfBounds
  else do
    let n := (numEntries - pos).toNat
    -- the last entry that is read or written
    if n = 0 then .ok n
    else do
      inBounds (pos.toNat + n) MAX_NEIGHBOR_ENTRY_SIZE
      .ok n

/-- `case INTERNAL_MSG_TYPE_NEIGH_ENTRY_ADD`. -/
def neighEntryAdd (c : RibConf) (msg : InternalMsgNeighEntry) : Except Fault RibConf := do
  let (type, pos) ← neighPos msg
  let table := c.neighTables type
  let entries ←
    if msg.numEntries > table.numEntries then do
      let n ← neighMoved table.numEntries msg.pos
      .ok fun j => if pos < j ∧ j ≤ pos + n then table.entries (j - 1) else table.entries j
    else .ok table.entries
  let table := ⟨Function.update entries pos msg.data, msg.numEntries⟩
  .ok { c with neighTables := Function.update c.neighTables type table }

/-- `case INTERNAL_MSG_TYPE_NEIGH_ENTRY_DEL`. -/
def neighEntryDel (c : RibConf) (msg : InternalMsgNeighEntry) : Except Fault RibConf := do
  let (type, pos) ← neighPos msg
  let table := c.neighTables type
  let n ← neighMoved msg.numEntries msg.pos
  let entries := fun j =>
    if pos ≤ j ∧ j < pos + n then table.entries (j + 1) else table.entries j
  .ok { c with neighTables := Function.update c.neighTables type ⟨entries, msg.numEntries⟩ }

/-- `case INTERNAL_MSG_TYPE_VSWITCH_SET`. -/
def vswitchSet (c : RibConf) (msg : InternalMsgVswitch) : RibConf :=
  match vswitchLookup c msg.vswitchId with
  | some _ => c
  | none =>
    match vswitchNew c msg.vswitchId msg.vlanId with
    | some (_, c) => c
    | none => c

/-- `case INTERNAL_MSG_TYPE_VSWITCH_PORT_SET`. -/
def vswitchPortSet (c : RibConf) (msg : InternalMsgVswitchPort) : Except Fault RibConf :=
  match vswitchLookup c msg.vswitchId with
  | none => .ok c
  | some vswitch =>
    match vswitchLinkNew c vswitch msg.portId.toNat with
    | none => .ok c
    | some (link, c) => do
      inBounds msg.portId.toNat MAX_ETH_PORTS
      if msg.isTagged = false then .ok (portSetNativeVlan c msg.portId.toNat link)
      else
        let c :=
          if msg.tagId ≠ 0 ∧ msg.tagId ≠ (c.vswitchLink link).tagId then
            c.setLink link fun l => { l with tagId := msg.tagId }
          else c
        .ok (portAddTaggedVlan c msg.portId.toNat link)

/-- `case INTERNAL_MSG_TYPE_VSWITCH_PORT_NO_SET`. The port is read if a link names the vswitch. -/
def vswitchPortNoSet (c : RibConf) (msg : InternalMsgVswitchPort) : Except Fault RibConf :=
  match vswitchLookup c msg.vswitchId with
  | none => .ok c
  | some vswitch => do
    if (List.range c.vswitchLinkSize.toNat).any fun i =>
        decide ((c.vswitchLink i).vswitchId = (c.vswitch vswitch).vswitchId) then
      inBounds msg.portId.toNat MAX_ETH_PORTS
    match vswitchLinkLookup c vswitch msg.portId.toNat with
    | none => .ok c
    | some link => vswitchLinkDelete c (c.vswitchLink link).vswitchLinkId

/-- `case INTERNAL_MSG_TYPE_ROUTER_IF_SET`, up to the check. -/
def routerIfSet (env : Env) (c : RibConf) (vswitch : Nat) (msg : InternalMsgTapDev) : RibConf :=
  c.setVswitch vswitch fun v => { v with
    routerIf := { v.routerIf with
      sockfd := env.tapOpen msg.tapName
      tapRingId := msg.vswitchId
      tapName := v.routerIf.tapName.print msg.tapName
      vlanId := if msg.vlanId ≠ NO_VLAN_SPECIFIED then msg.vlanId else v.vlanId
      ifindex := env.tapGetIfindex msg.tapName } }

/-- `case INTERNAL_MSG_TYPE_CAPTURE_IF_SET`, up to the check. -/
def captureIfSet (env : Env) (c : RibConf) (vswitch : Nat) (msg : InternalMsgTapDev) : RibConf :=
  c.setVswitch vswitch fun v => { v with
    captureIf := { v.captureIf with
      sockfd := env.tapOpen msg.tapName
      tapRingId := msg.vswitchId
      tapName := v.captureIf.tapName.print msg.tapName } }

/-- The loop of `ROUTER_IF_NO_SET` and of `CAPTURE_IF_NO_SET`. -/
def tapNoSet (tapName : VswitchConf → CharBuf)
    (delete : RibConf → Rings → UInt16 → Except Fault (RibConf × Rings)) (name : CharBuf)
    (c : RibConf) (rings : Rings) : Except Fault (RibConf × Rings) :=
  Lib.forRange c.vswitchSize.toNat (fun i (s : RibConf × Rings) => do
    inBounds i MAX_VSWITCH
    if name.str = (tapName (s.1.vswitch i)).str then delete s.1 s.2 (s.1.vswitch i).vswitchId
    else .ok s) (c, rings)

/-- `case INTERNAL_MSG_TYPE_ROUTER_IF_NO_SET`. -/
def routerIfNoSet (c : RibConf) (rings : Rings) (msg : InternalMsgTapDev) :
    Except Fault (RibConf × Rings) :=
  tapNoSet (fun v => v.routerIf.tapName) routerIfDelete msg.tapName c rings

/-- `case INTERNAL_MSG_TYPE_CAPTURE_IF_NO_SET`. -/
def captureIfNoSet (c : RibConf) (rings : Rings) (msg : InternalMsgTapDev) :
    Except Fault (RibConf × Rings) :=
  tapNoSet (fun v => v.captureIf.tapName) captureIfDelete msg.tapName c rings

/-- The four messages about addresses change the first router interface of the name. -/
def onRouterIf (c : RibConf) (p : RouterIf → Bool) (f : RouterIf → RouterIf) : RibConf :=
  match (List.range c.vswitchSize.toNat).find? fun i => p (c.vswitch i).routerIf with
  | some i => c.setVswitch i fun v => { v with routerIf := f v.routerIf }
  | none => c

/-- `case INTERNAL_MSG_TYPE_MAC_ADDR_ADD`. -/
def macAddrAdd (c : RibConf) (msg : InternalMsgMacAddr) : RibConf :=
  c.onRouterIf (fun rif => decide (rif.tapName = msg.ifname))
    fun rif => { rif with macAddr := msg.macAddr }

/-- `case INTERNAL_MSG_TYPE_MAC_ADDR_DEL`. The address is cleared if it is **not** that of the
    message. -/
def macAddrDel (c : RibConf) (msg : InternalMsgMacAddr) : RibConf :=
  c.onRouterIf (fun rif => decide (rif.tapName = msg.ifname) && decide (rif.macAddr ≠ msg.macAddr))
    fun rif => { rif with macAddr := zeros 6 }

/-- `ip_addr.ipv4_addr`, the first bytes of the union. -/
def ipv4Of (addr : IpAddr) : Vector UInt8 4 := Vector.ofFn fun i => addr[i.val]

/-- `case INTERNAL_MSG_TYPE_IP_ADDR_ADD`. -/
def ipAddrAdd (c : RibConf) (msg : InternalMsgIpAddr) : RibConf :=
  c.onRouterIf (fun rif => decide (rif.tapName = msg.ifname)) fun rif =>
    if msg.family = AF_INET then { rif with ipv4Addr := ipv4Of msg.ipAddr }
    else if msg.isLlAddr then { rif with llAddr := msg.ipAddr }
    else { rif with ipv6Addr := msg.ipAddr }

/-- `case INTERNAL_MSG_TYPE_IP_ADDR_DEL`. -/
def ipAddrDel (c : RibConf) (msg : InternalMsgIpAddr) : RibConf :=
  c.onRouterIf (fun rif => decide (rif.tapName = msg.ifname)) fun rif =>
    if msg.family = AF_INET then
      if rif.ipv4Addr = ipv4Of msg.ipAddr then { rif with ipv4Addr := zeros 4 } else rif
    else if msg.isLlAddr then
      if rif.llAddr = msg.ipAddr then { rif with llAddr := zeros 16 } else rif
    else if rif.ipv6Addr = msg.ipAddr then { rif with ipv6Addr := zeros 16 } else rif

/-- `case INTERNAL_MSG_TYPE_SRV6_LOCAL_SID`. -/
def srv6LocalSid (c : RibConf) (msg : InternalMsgSrv6LocalSid) : RibConf :=
  let numSids := c.srv6LocalSidAddrNum.toNat
  let index := msg.srv6LocalSidAddrIndex.toNat
  if numSids < MAX_SRV6_LOCAL_SID_ADDR_NUM ∧ index ≤ numSids then
    { c with
      srv6LocalSidAddr := Function.update c.srv6LocalSidAddr index msg.srv6LocalSidAddr
      srv6LocalSidAddrNum :=
        if index = numSids then c.srv6LocalSidAddrNum + 1 else c.srv6LocalSidAddrNum }
  else c

end RibConf

/-- What a configuration message makes of a version and of the rings. `none` is the return in
    the middle of the function, when `rib_check` has failed. -/
def confMessage (env : Env) (old : Option Rib) (c : RibConf) (rings : Rings) :
    ConfMsg → Except Fault (Option (RibConf × Rings))
  | .portStatus => do .ok (some (← updatePortStatus env c, rings))
  | .qconf qconf => do ribCheckStopped env old (← c.qconf env qconf) rings
  | .txrxDesc msg => do
    let c ← c.txrxDesc msg
    if env.startupConfigCompleted then
      let _ ← if old.isSome then stopPorts env true old else .ok old
      .ok (some ((← ribCheck env c rings).getD (c, rings)))
    else .ok (some (c, rings))
  | .neighEntryAdd msg => do .ok (some (← c.neighEntryAdd msg, rings))
  | .neighEntryDel msg => do .ok (some (← c.neighEntryDel msg, rings))
  | .vswitchSet msg => .ok (some (c.vswitchSet msg, rings))
  | .vswitchNoSet msg => do .ok (some (← vswitchDelete c rings msg.vswitchId))
  | .vswitchPortSet msg => do .ok (some (← c.vswitchPortSet msg, rings))
  | .vswitchPortNoSet msg => do .ok (some (← c.vswitchPortNoSet msg, rings))
  | .routerIfSet msg =>
    match vswitchLookup c msg.vswitchId with
    | none => .ok (some (c, rings))
    | some i => ribCheckStopped env old (c.routerIfSet env i msg) rings
  | .routerIfNoSet msg => do .ok (some (← c.routerIfNoSet rings msg))
  | .captureIfSet msg =>
    match vswitchLookup c msg.vswitchId with
    | none => .ok (some (c, rings))
    | some i => ribCheckStopped env old (c.captureIfSet env i msg) rings
  | .captureIfNoSet msg => do .ok (some (← c.captureIfNoSet rings msg))
  | .fdbEntryAdd msg => .ok (some ({ c with
      fdb := (fdbAddEntry c.fdb env.time msg.macAddr msg.vlanId msg.port.toNat).2 }, rings))
  | .applicationSlot msg => .ok (some (applicationSlotAdd c msg, rings))
  | .macAddrAdd msg => .ok (some (c.macAddrAdd msg, rings))
  | .macAddrDel msg => .ok (some (c.macAddrDel msg, rings))
  | .ipAddrAdd msg => .ok (some (c.ipAddrAdd msg, rings))
  | .ipAddrDel msg => .ok (some (c.ipAddrDel msg, rings))
  | .srv6LocalSid msg => .ok (some (c.srv6LocalSid msg, rings))

/-! ## The state and the function -/

/-- What the RIB manager keeps: the version that is published, and the globals. -/
structure RibState where
  rib : Option Rib
  ribTreeMaster : Nat → Option RibTree
  nhHt : HashTable nexthopKeyOps
  rings : Rings

/-- Nothing is published before the first message. -/
def RibState.init : RibState :=
  ⟨none, Routing.init.ribTreeMaster, Routing.init.nh.nhHt, .none⟩

/-- The FIB trees of a version that has just been created. -/
def newFibTrees (env : Env) (k : Nat) : Nat → Option FibTree :=
  fun i => if env.mallocFibTree k i then some fibNew else none

/-- `rib_info_create`, the `k`-th of this message. -/
def ribInfoCreate (env : Env) (k : Nat) (old : Option RibInfo) : Option RibInfo :=
  if env.mallocRibInfo k then
    match old with
    | none => some ⟨{ RibConf.zero with ver := 1 }, .zero, newFibTrees env k⟩
    | some old => some { old with ver := old.ver + 1, fibTree := newFibTrees env k }
  else none

/-- `rib_create`, the `k`-th of this message. -/
def ribCreate (env : Env) (k : Nat) (old : Option Rib) : Option Rib :=
  if env.mallocRib k then some ⟨ribInfoCreate env k (old.bind Rib.ribInfo)⟩ else none

/-- The loop over the routing tables at the end: the FIB trees of the new version. -/
def rebuildFibs (env : Env) (ribTreeMaster : Nat → Option RibTree)
    (fibTree : Nat → Option FibTree) : Nat → Option FibTree := fun i =>
  match ribTreeMaster i, fibTree i with
  | some t, some fib =>
    if i < ROUTE_TREE_SIZE ∧ t.family ≠ 0 then
      some (rebuildFibFromRib (env.mallocFibNode i) t fib).2
    else some fib
  | _, fib => fib

/-- The end of `rib_manager_process_message`: rebuild, and `rib_replace`. `new` is looked at
    only where there is a table. -/
def publish (env : Env) (s : RibState) (new : Option Rib) : Except Fault RibState :=
  match new.bind Rib.ribInfo with
  | some info =>
    .ok { s with rib := some ⟨some { info with
      fibTree := rebuildFibs env s.ribTreeMaster info.fibTree }⟩ }
  | none =>
    if (List.range ROUTE_TREE_SIZE).any fun i => (s.ribTreeMaster i).isSome then
      .error .nullPointer
    else .ok { s with rib := new }

/-- `rib_manager_process_port_get`: a version of its own, which is published as it is. -/
def ribManagerProcessPortGet (env : Env) (s : RibState) (portId : UInt16) :
    Except Fault RibState := do
  let info ← deref ((ribCreate env 1 s.rib).bind Rib.ribInfo)
  inBounds portId.toNat MAX_ETH_PORTS
  let conf := info.toRibConf.setPort portId.toNat fun p => { p with
    dpdkPortId := portId, devInfo := env.devInfo portId.toNat, link := env.link portId.toNat }
  .ok { s with rib := some ⟨some { info with toRibConf := conf }⟩ }

/-- `rib_manager_process_message`. A routing message whose version has no `rib_info` is a
    fault. -/
def ribManagerProcessMessage (env : Env) (s : RibState) : Msg → Except Fault RibState
  | .portGetRequest portId => do
    let s' ← ribManagerProcessPortGet env s portId
    -- `rib_delete (new)`
    let _ ← deref (ribCreate env 0 s.rib)
    .ok s'
  | .conf msg => do
    let info ← deref ((ribCreate env 0 s.rib).bind Rib.ribInfo)
    match ← confMessage env s.rib info.toRibConf s.rings msg with
    | none => do .ok { s with rib := ← stopPorts env false s.rib }
    | some (conf, rings) =>
      publish env { s with rings := rings } (some ⟨some { info with toRibConf := conf }⟩)
  | .routing msg => do
    let info ← deref ((ribCreate env 0 s.rib).bind Rib.ribInfo)
    let r := routingMessage env ⟨⟨info.nexthop, s.nhHt⟩, s.ribTreeMaster⟩ msg
    publish env { s with ribTreeMaster := r.ribTreeMaster, nhHt := r.nh.nhHt }
      (some ⟨some { info with nexthop := r.nh.toNexthop }⟩)
  | .unknown _ => publish env s (ribCreate env 0 s.rib)

end SdPlane
