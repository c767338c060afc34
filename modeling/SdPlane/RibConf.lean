import SdPlane.RibInfo

/-!
# The configuration that messages write (`rib_manager.c`)

The handlers of `rib_manager_process_message` that have nothing to do with routing, and the
functions they call: vswitches with their links and ports, router and capture interfaces,
the forwarding database, neighbors, addresses. Each is translated with the accesses it does
not check, which fail here with a `Fault`.

`ribCheck` is `rib_check` as far as it decides and as far as it writes: what it tells the
drivers is left out.
-/

set_option autoImplicit false

namespace SdPlane

/-- Remove element `i` of an array of `size` elements, by `memmove`. -/
def shiftDown {α : Type} (arr : Nat → α) (i size : Nat) : Nat → α :=
  fun j => if i ≤ j ∧ j + 1 < size then arr (j + 1) else arr j

namespace RibConf

/-! ## Writes -/

def setVswitch (c : RibConf) (i : Nat) (f : VswitchConf → VswitchConf) : RibConf :=
  { c with vswitch := Function.update c.vswitch i (f (c.vswitch i)) }

def setLink (c : RibConf) (i : Nat) (f : VswitchLink → VswitchLink) : RibConf :=
  { c with vswitchLink := Function.update c.vswitchLink i (f (c.vswitchLink i)) }

def setPort (c : RibConf) (i : Nat) (f : PortConf → PortConf) : RibConf :=
  { c with port := Function.update c.port i (f (c.port i)) }

end RibConf

/-! ## vswitch -/

/-- `vswitch_lookup`: the index of the vswitch. -/
def vswitchLookup (c : RibConf) (vswitchId : UInt16) : Option Nat :=
  (List.range c.vswitchSize.toNat).find? fun i =>
    decide ((c.vswitch i).vswitchId = vswitchId) && !(c.vswitch i).isDeleted

/-- `vswitch_new`. -/
def vswitchNew (c : RibConf) (vswitchId vlanId : UInt16) : Option (Nat × RibConf) :=
  let init := fun (v : VswitchConf) => { v with
    vswitchId := vswitchId
    vlanId := vlanId
    routerIf := { v.routerIf with sockfd := -1, tapRingId := 65535, vlanId := vlanId }
    captureIf := { v.captureIf with sockfd := -1, tapRingId := 65535 }
    isDeleted := false }
  match (List.range c.vswitchSize.toNat).find? fun i => (c.vswitch i).isDeleted with
  | some i => some (i, c.setVswitch i fun _ => init .zero)
  | none =>
    if c.vswitchSize.toNat ≥ MAX_VSWITCH then none
    else
      let i := c.vswitchSize.toNat
      some (i, { c with vswitchSize := c.vswitchSize + 1 }.setVswitch i init)

/-- `vswitch_link_lookup`, by the indices of vswitch and port. -/
def vswitchLinkLookup (c : RibConf) (vswitch port : Nat) : Option Nat :=
  (List.range c.vswitchLinkSize.toNat).find? fun i =>
    decide ((c.vswitchLink i).vswitchId = (c.vswitch vswitch).vswitchId)
      && decide ((c.vswitchLink i).portId = (c.port port).dpdkPortId)
      && !(c.vswitchLink i).isDeleted

/-- `vswitch_link_new`. -/
def vswitchLinkNew (c : RibConf) (vswitch port : Nat) : Option (Nat × RibConf) :=
  let init := fun (id : Nat) (l : VswitchLink) => { l with
    vswitchLinkId := UInt16.ofNat id
    portId := (c.port port).dpdkPortId
    vlanId := (c.vswitch vswitch).vlanId
    tagId := (c.vswitch vswitch).vlanId
    vswitchId := (c.vswitch vswitch).vswitchId
    isDeleted := false }
  -- the new link becomes a port of the vswitch if there is room
  let attach := fun (id : Nat) (c : RibConf) =>
    let size := (c.vswitch vswitch).vswitchPortSize
    if size.toNat < MAX_VSWITCH_PORTS then
      (c.setVswitch vswitch fun v => { v with
        vswitchPortSize := size + 1
        vswitchLinkId := Function.update v.vswitchLinkId size.toNat (UInt16.ofNat id) }).setLink id
          fun l => { l with vswitchPort := size }
    else c
  match (List.range c.vswitchLinkSize.toNat).find? fun i => (c.vswitchLink i).isDeleted with
  | some id => some (id, attach id (c.setLink id fun _ => init id .zero))
  | none =>
    if c.vswitchLinkSize.toNat ≥ MAX_VSWITCH_LINK then none
    else
      let id := c.vswitchLinkSize.toNat
      some (id, attach id
        ({ c with vswitchLinkSize := c.vswitchLinkSize + 1 }.setLink id (init id)))

/-- `vswitch_link_remove_from_port_vlan_array`. The native link is compared in every round of
    the loop over the tagged ones. -/
def vswitchLinkRemoveFromPortVlanArray (linkId : UInt16) (port : PortConf) : PortConf :=
  match (List.range port.vlanSize.toNat).find? fun i =>
      decide (port.vswitchLinkIdOfVlan i = linkId)
        || decide (port.vswitchLinkIdOfNativeVlan = linkId) with
  | none => port
  | some i =>
    if port.vswitchLinkIdOfVlan i = linkId then
      { port with
        vswitchLinkIdOfVlan := shiftDown port.vswitchLinkIdOfVlan i port.vlanSize.toNat
        vlanSize := port.vlanSize - 1 }
    else { port with vswitchLinkIdOfNativeVlan := 65535 }

/-- `vswitch_link_remove_from_vswitch_port_array`. The loop goes on after a removal, one
    element further. -/
def vswitchLinkRemoveFromVswitchPortArray (linkId : UInt16) (vswitch : VswitchConf) :
    VswitchConf :=
  Lib.forUpTo vswitch.vswitchPortSize.toNat (fun i v =>
    if i < v.vswitchPortSize.toNat ∧ v.vswitchLinkId i = linkId then
      { v with
        vswitchLinkId := shiftDown v.vswitchLinkId i v.vswitchPortSize.toNat
        vswitchPortSize := v.vswitchPortSize - 1 }
    else v) vswitch

/-- `vswitch_link_delete`. -/
def vswitchLinkDelete (c : RibConf) (linkId : UInt16) : Except Fault RibConf := do
  inBounds linkId.toNat MAX_VSWITCH_LINK
  let vswitchId := (c.vswitchLink linkId.toNat).vswitchId
  let portId := (c.vswitchLink linkId.toNat).portId
  match vswitchLookup c vswitchId with
  | none => .error .nullPointer
  | some i =>
    inBounds portId.toNat MAX_ETH_PORTS
    let c := c.setVswitch i (vswitchLinkRemoveFromVswitchPortArray linkId)
    let c := c.setPort portId.toNat (vswitchLinkRemoveFromPortVlanArray linkId)
    let c := { c with vswitchLink := fun j =>
      if linkId.toNat ≤ j ∧ j < c.vswitchLinkSize.toNat ∧ (c.vswitchLink j).vswitchId = vswitchId
      then { c.vswitchLink j with vswitchPort := (c.vswitchLink j).vswitchPort - 1 }
      else c.vswitchLink j }
    .ok (c.setLink linkId.toNat fun l => { l with isDeleted := true })

/-! ## router_if and capture_if -/

/-- `router_if_delete`. The rings are looked up by the id of the vswitch. -/
def routerIfDelete (c : RibConf) (rings : Rings) (vswitchId : UInt16) :
    Except Fault (RibConf × Rings) :=
  match vswitchLookup c vswitchId with
  | none => .error .nullPointer
  | some i => do
    inBounds vswitchId.toNat MAX_VSWITCH
    let rings := { rings with
      routerIfRingUp := Function.update rings.routerIfRingUp vswitchId.toNat 0
      routerIfRingDn := Function.update rings.routerIfRingDn vswitchId.toNat 0 }
    .ok (c.setVswitch i fun v => { v with
      routerIf := { RouterIf.zero with sockfd := -1, tapRingId := 65535, ifindex := -1 } }, rings)

/-- `capture_if_delete`. -/
def captureIfDelete (c : RibConf) (rings : Rings) (vswitchId : UInt16) :
    Except Fault (RibConf × Rings) :=
  match vswitchLookup c vswitchId with
  | none => .error .nullPointer
  | some i => do
    inBounds vswitchId.toNat MAX_VSWITCH
    let rings := { rings with
      captureIfRingUp := Function.update rings.captureIfRingUp vswitchId.toNat 0
      captureIfRingDn := Function.update rings.captureIfRingDn vswitchId.toNat 0 }
    .ok (c.setVswitch i fun v => { v with
      captureIf := { CaptureIf.zero with sockfd := -1, tapRingId := 65535 } }, rings)

/-- The loop `while (vswitch->vswitch_port_size > 0)` of `vswitch_delete`. A round that does
    not make the array of links shorter is repeated for ever. -/
def vswitchDeleteLinks (i : Nat) : Nat → RibConf → Except Fault RibConf
  | 0, c => if (c.vswitch i).vswitchPortSize > 0 then .error .diverges else .ok c
  | fuel + 1, c =>
    if (c.vswitch i).vswitchPortSize > 0 then
      match vswitchLinkDelete c ((c.vswitch i).vswitchLinkId 0) with
      | .error e => .error e
      | .ok c => vswitchDeleteLinks i fuel c
    else .ok c

/-- `vswitch_delete`. -/
def vswitchDelete (c : RibConf) (rings : Rings) (vswitchId : UInt16) :
    Except Fault (RibConf × Rings) :=
  match vswitchLookup c vswitchId with
  | none => .ok (c, rings)
  | some i => do
    let (c, rings) ←
      if (c.vswitch i).routerIf.sockfd ≥ 0 then routerIfDelete c rings vswitchId
      else .ok (c, rings)
    let (c, rings) ←
      if (c.vswitch i).captureIf.sockfd ≥ 0 then captureIfDelete c rings vswitchId
      else .ok (c, rings)
    let c ← vswitchDeleteLinks i (c.vswitch i).vswitchPortSize.toNat c
    .ok (c.setVswitch i fun v => { v with isDeleted := true }, rings)

/-! ## port -/

/-- `port_set_native_vlan`. -/
def portSetNativeVlan (c : RibConf) (port link : Nat) : RibConf :=
  (c.setLink link fun l => { l with tagId := 0 }).setPort port fun p =>
    { p with vswitchLinkIdOfNativeVlan := (c.vswitchLink link).vswitchLinkId }

/-- `port_add_tagged_vlan`. -/
def portAddTaggedVlan (c : RibConf) (port link : Nat) : RibConf :=
  c.setPort port fun p =>
    if p.vlanSize.toNat ≥ MAX_VLAN_PER_PORT then p
    else { p with
      vlanSize := p.vlanSize + 1
      vswitchLinkIdOfVlan := Function.update p.vswitchLinkIdOfVlan p.vlanSize.toNat
        (c.vswitchLink link).vswitchLinkId }

/-! ## fdb -/

/-- `jenkins_hash`. -/
def jenkinsHash (key : List UInt8) : UInt32 :=
  let hash := key.foldl (fun (hash : UInt32) k =>
    let hash := hash + k.toUInt32
    let hash := hash + (hash <<< 10)
    hash ^^^ (hash >>> 6)) 0
  let hash := hash + (hash <<< 3)
  let hash := hash ^^^ (hash >>> 11)
  hash + (hash <<< 15)

/-- `fdb_jenkins_hash`. -/
def fdbJenkinsHash (macAddr : EtherAddr) (vlanId : UInt16) : Nat :=
  (jenkinsHash (macAddr.toList ++ [(vlanId >>> 8).toUInt8, vlanId.toUInt8])).toNat &&& 0x3FF

/-- `fdb_add_entry`: the offset that is written, and the table. -/
def fdbAddEntry (fdb : Nat → FdbEntry) (time : Int) (macAddr : EtherAddr) (vlanId : UInt16)
    (port : Int) : Option Nat × (Nat → FdbEntry) :=
  let hash := fdbJenkinsHash macAddr vlanId
  -- the offsets from `hash` on, round the table once
  match ((List.range FDB_SIZE).map fun d => (hash + d) % FDB_SIZE).find? fun offset =>
      decide ((fdb offset).state = FDB_STATE_NONE)
        || (decide ((fdb offset).l2addr = macAddr) && decide ((fdb offset).vlanId = vlanId)) with
  | none => (none, fdb)
  | some offset =>
    if (fdb offset).state ≠ FDB_STATE_NONE then
      (some offset, Function.update fdb offset
        { fdb offset with port := port, lastSeen := time, state := FDB_STATE_ACTIVE })
    else
      (some offset, Function.update fdb offset ⟨macAddr, port, vlanId, FDB_STATE_ACTIVE, time⟩)

/-! ## rib_check -/

/-- `port_qconf_compare`, as the order it sorts by. -/
def portQconfLe (a b : PortQueueConf) : Bool :=
  decide (a.portId < b.portId) || (decide (a.portId = b.portId) && decide (a.queueId ≤ b.queueId))

/-- The receive queues of an lcore. -/
def rxQueues (q : LcoreQconf) : Except Fault (List PortQueueConf) :=
  if q.nrxq.toNat ≤ MAX_RX_QUEUE_PER_LCORE then
    .ok ((List.range q.nrxq.toNat).map q.rxQueueList)
  else .error .outOfBounds

/-- The queues of the first `n` lcores, in order. -/
def queuesOf (c : RibConf) (n : Nat) : Except Fault (List PortQueueConf) := do
  let queues ← (List.range n).mapM fun lcore => rxQueues (c.lcoreQconf lcore)
  .ok queues.flatten

/-- The queues of each port are numbered from 0 without gaps. -/
def queuesOrdered : List PortQueueConf → (Nat → Nat) → Except Fault Bool
  | [], _ => .ok true
  | rxq :: rest, portNrxq => do
    inBounds rxq.portId.toNat RTE_MAX_ETHPORTS
    if portNrxq rxq.portId.toNat = rxq.queueId.toNat then
      queuesOrdered rest
        (Function.update portNrxq rxq.portId.toNat (portNrxq rxq.portId.toNat + 1))
    else .ok false

/-- `if (! ring) ring = rte_ring_create (name, ...)`. -/
def createRing (env : Env) (name : RingName) (ring : Nat) : Nat :=
  if ring = 0 then env.ringCreate name else ring

/-- The rings of the queues. -/
def createQueueRings (env : Env) : List PortQueueConf → Rings → Except Fault Rings
  | [], rings => .ok rings
  | rxq :: rest, rings => do
    let p := rxq.portId.toNat
    let q := rxq.queueId.toNat
    inBounds p RTE_MAX_ETHPORTS
    inBounds q MAX_RX_QUEUE_PER_LCORE
    createQueueRings env rest { rings with
      ringUp := Function.update rings.ringUp p (Function.update (rings.ringUp p) q
        (createRing env (.ringUp p q) (rings.ringUp p q)))
      ringDn := Function.update rings.ringDn p (Function.update (rings.ringDn p) q
        (createRing env (.ringDn p q) (rings.ringDn p q))) }

/-- The rings of the interfaces of vswitch `i`. -/
def createIfRings (env : Env) (i : Nat) (s : RibConf × Rings) : RibConf × Rings :=
  let (c, rings) := s
  if (c.vswitch i).vlanId = 0 then (c, rings)
  else
    let (c, rings) :=
      if (c.vswitch i).routerIf.sockfd ≥ 0 then
        let up := createRing env (.routerUp i) (rings.routerIfRingUp i)
        let dn := createRing env (.routerDn i) (rings.routerIfRingDn i)
        (c.setVswitch i fun v => { v with
            routerIf := { v.routerIf with ringUp := up, ringDn := dn } },
          { rings with
            routerIfRingUp := Function.update rings.routerIfRingUp i up
            routerIfRingDn := Function.update rings.routerIfRingDn i dn })
      else (c, rings)
    if (c.vswitch i).captureIf.sockfd ≥ 0 then
      let up := createRing env (.captureUp i) (rings.captureIfRingUp i)
      let dn := createRing env (.captureDn i) (rings.captureIfRingDn i)
      (c.setVswitch i fun v => { v with
          captureIf := { v.captureIf with ringUp := up, ringDn := dn } },
        { rings with
          captureIfRingUp := Function.update rings.captureIfRingUp i up
          captureIfRingDn := Function.update rings.captureIfRingDn i dn })
    else (c, rings)

/-- `rib_check`; `none` is the `-1` it answers when the queues are not in order. -/
def ribCheck (env : Env) (c : RibConf) (rings : Rings) :
    Except Fault (Option (RibConf × Rings)) := do
  if c.lcoreSize.toNat > RTE_MAX_LCORE then .error .outOfBounds
  let queues ← queuesOf c c.lcoreSize.toNat
  if queues.length > MAX_PORT_QCONF then .error .outOfBounds
  let ordered ← queuesOrdered (queues.mergeSort portQconfLe) fun _ => 0
  if ordered then
    let all ← queuesOf c RTE_MAX_LCORE
    let rings ← createQueueRings env all rings
    inBounds (c.vswitchSize.toNat - 1) MAX_VSWITCH
    .ok (some (Lib.forUpTo c.vswitchSize.toNat (createIfRings env) (c, rings)))
  else .ok none

/-! ## The rest -/

/-- `update_port_status`. -/
def updatePortStatus (env : Env) (c : RibConf) : Except Fault RibConf :=
  if env.nbPorts.toNat > MAX_ETH_PORTS then .error .outOfBounds
  else .ok { c with
    portSize := env.nbPorts.toUInt8
    port := fun i =>
      if i < env.nbPorts.toNat then
        { c.port i with devInfo := env.devInfo i, link := env.link i, dpdkPortId := UInt16.ofNat i }
      else c.port i
    lcoreSize := env.lcoreCount.toUInt8 }

/-- `set_stop_flag` and `delete_stop_flag`, on the version that is published. -/
def putStopFlag (env : Env) (flag : Bool) (old : RibConf) : Except Fault RibConf :=
  if env.nbPorts.toNat > MAX_ETH_PORTS then .error .outOfBounds
  else .ok { old with port := fun i =>
    if i < env.nbPorts.toNat then { old.port i with isStopped := flag } else old.port i }

/-- `application_slot_add`. -/
def applicationSlotAdd (c : RibConf) (entry : ApplicationSlotEntry) : RibConf :=
  if c.applicationSlotSize.toNat = APPLI_SLOT_SIZE then c
  else { c with
    applicationSlot := Function.update c.applicationSlot c.applicationSlotSize.toNat entry
    applicationSlotSize := c.applicationSlotSize + 1 }

end SdPlane
