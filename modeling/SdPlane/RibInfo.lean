import SdPlane.Fib
import SdPlane.Nexthop

/-!
# What is published (`rib.h`)

`RibInfo` is `struct rib_info`, the version of the configuration that the forwarding threads
read. It is split in two: `RibConf`, the part that the configuration messages write, and the
rest, next hops and FIB trees, that the routing messages write. The handlers of the first kind
are functions of `RibConf`, so that they cannot touch the second is part of their type.

Arrays are functions of the index. Their lengths are the constants at the top, and a handler
that indexes one with a number out of a message checks it first; where the source does not, the
check stands for the access outside of the array, and fails with a `Fault`. A pointer is a
number, `0` is `NULL`.
-/

set_option autoImplicit false

namespace SdPlane

def MAX_VSWITCH : Nat := 4
def MAX_VSWITCH_LINK : Nat := 32
def MAX_VSWITCH_PORTS : Nat := 16
def MAX_VLAN_PER_PORT : Nat := 8
def MAX_ETH_PORTS : Nat := 8
def MAX_NEIGHBOR_ENTRY_SIZE : Nat := 1024
def NEIGH_NR_TABLES : Nat := 2
def FDB_SIZE : Nat := 1024
def APPLI_SLOT_SIZE : Nat := 32
def MAX_SRV6_LOCAL_SID_ADDR_NUM : Nat := 16
def ROUTE_TREE_SIZE : Nat := 2
def MAX_RX_QUEUE_PER_LCORE : Nat := 16
def MAX_PORT_QCONF : Nat := 256
def RTE_MAX_LCORE : Nat := 128
def RTE_MAX_ETHPORTS : Nat := 32

/-- What C leaves undefined, a loop that does not end, and an `assert` that fails. -/
inductive Fault
  | nullPointer
  | outOfBounds
  | diverges
  | assertion
deriving DecidableEq

theorem bind_ok {ε α β : Type} {x : Except ε α} {f : α → Except ε β} {b : β}
    (h : x >>= f = .ok b) : ∃ a, x = .ok a ∧ f a = .ok b := by
  cases x with
  | error e => cases h
  | ok a => exact ⟨a, rfl, h⟩

/-- An access that the source does not check. -/
def inBounds (i size : Nat) : Except Fault Unit :=
  if i < size then .ok () else .error .outOfBounds

/-- `char [16]`. -/
abbrev CharBuf := Vector UInt8 16

abbrev EtherAddr := Vector UInt8 6

/-- The string in a buffer. -/
def CharBuf.str (buf : CharBuf) : List UInt8 := buf.toList.takeWhile (· ≠ 0)

/-- `snprintf (dst, sizeof (dst), "%s", src)`: what lies behind the terminator stays. -/
def CharBuf.print (dst src : CharBuf) : CharBuf :=
  let name := src.str.take 15
  Vector.ofFn fun i =>
    if i.val < name.length then name.getD i.val 0 else if i.val = name.length then 0 else dst[i]

structure RouterIf where
  sockfd : Int
  tapRingId : UInt16
  ringUp : Nat
  ringDn : Nat
  vlanId : UInt16
  ifindex : Int
  macAddr : EtherAddr
  ipv4Addr : Vector UInt8 4
  ipv6Addr : Vector UInt8 16
  llAddr : Vector UInt8 16
  tapName : CharBuf

structure CaptureIf where
  sockfd : Int
  tapRingId : UInt16
  ringUp : Nat
  ringDn : Nat
  tapName : CharBuf

structure VswitchLink where
  vswitchLinkId : UInt16
  portId : UInt16
  vlanId : UInt16
  tagId : UInt16
  vswitchId : UInt16
  vswitchPort : UInt16
  isDeleted : Bool

structure VswitchConf where
  vswitchId : UInt16
  vlanId : UInt16
  vswitchPortSize : UInt16
  vswitchLinkId : Nat → UInt16
  routerIf : RouterIf
  captureIf : CaptureIf
  isDeleted : Bool

/-- `struct port_conf`. What the driver says of link and device is not interpreted. -/
structure PortConf where
  dpdkPortId : UInt16
  mtu : UInt16
  nrxq : UInt16
  ntxq : UInt16
  nbRxd : UInt16
  nbTxd : UInt16
  link : Nat
  devInfo : Nat
  isStopped : Bool
  vlanSize : UInt16
  vswitchLinkIdOfVlan : Nat → UInt16
  vswitchLinkIdOfNativeVlan : UInt16

structure PortQueueConf where
  portId : UInt16
  queueId : UInt16
deriving DecidableEq

structure LcoreQconf where
  nrxq : UInt16
  rxQueueList : Nat → PortQueueConf

structure NeighEntry where
  family : Int
  ipAddr : IpAddr
  macAddr : EtherAddr
  state : UInt8
  ifindex : Int

structure NeighTable where
  entries : Nat → NeighEntry
  numEntries : Int

structure FdbEntry where
  l2addr : EtherAddr
  port : Int
  vlanId : UInt16
  state : UInt8
  lastSeen : Int

def FDB_STATE_NONE : UInt8 := 0
def FDB_STATE_ACTIVE : UInt8 := 1

structure ApplicationSlotEntry where
  name : Nat
  ring : Nat
  isPacketMatch : Nat

/-- `struct rib_info`, less next hops and FIB trees. -/
structure RibConf where
  ver : UInt32
  vswitchSize : UInt8
  vswitchLinkSize : UInt8
  portSize : UInt8
  lcoreSize : UInt8
  applicationSlotSize : UInt8
  vswitch : Nat → VswitchConf
  vswitchLink : Nat → VswitchLink
  port : Nat → PortConf
  lcoreQconf : Nat → LcoreQconf
  neighTables : Nat → NeighTable
  fdb : Nat → FdbEntry
  applicationSlot : Nat → ApplicationSlotEntry
  srv6LocalSidAddr : Nat → Vector UInt8 16
  srv6LocalSidAddrNum : UInt8

structure RibInfo extends RibConf where
  nexthop : Nexthop
  fibTree : Nat → Option Fib.FibTree

/-- `struct rib`. The version that is published for a moment while queues move has none. -/
structure Rib where
  ribInfo : Option RibInfo

/-! What `memset` leaves. -/

def zeros (n : Nat) : Vector UInt8 n := Vector.replicate n 0

def RouterIf.zero : RouterIf :=
  ⟨0, 0, 0, 0, 0, 0, zeros 6, zeros 4, zeros 16, zeros 16, zeros 16⟩
def CaptureIf.zero : CaptureIf := ⟨0, 0, 0, 0, zeros 16⟩
def VswitchConf.zero : VswitchConf := ⟨0, 0, 0, fun _ => 0, .zero, .zero, false⟩
def VswitchLink.zero : VswitchLink := ⟨0, 0, 0, 0, 0, 0, false⟩
def PortConf.zero : PortConf := ⟨0, 0, 0, 0, 0, 0, 0, 0, false, 0, fun _ => 0, 0⟩
def NeighEntry.zero : NeighEntry := ⟨0, .zero, zeros 6, 0, 0⟩
def FdbEntry.zero : FdbEntry := ⟨zeros 6, 0, 0, 0, 0⟩

def RibConf.zero : RibConf where
  ver := 0
  vswitchSize := 0
  vswitchLinkSize := 0
  portSize := 0
  lcoreSize := 0
  applicationSlotSize := 0
  vswitch := fun _ => .zero
  vswitchLink := fun _ => .zero
  port := fun _ => .zero
  lcoreQconf := fun _ => ⟨0, fun _ => ⟨0, 0⟩⟩
  neighTables := fun _ => ⟨fun _ => .zero, 0⟩
  fdb := fun _ => .zero
  applicationSlot := fun _ => ⟨0, 0, 0⟩
  srv6LocalSidAddr := fun _ => zeros 16
  srv6LocalSidAddrNum := 0

/-- The global rings. -/
structure Rings where
  ringUp : Nat → Nat → Nat
  ringDn : Nat → Nat → Nat
  routerIfRingUp : Nat → Nat
  routerIfRingDn : Nat → Nat
  captureIfRingUp : Nat → Nat
  captureIfRingDn : Nat → Nat

def Rings.none : Rings :=
  ⟨fun _ _ => 0, fun _ _ => 0, fun _ => 0, fun _ => 0, fun _ => 0, fun _ => 0⟩

/-- The rings that `rib_check` creates, by name. -/
inductive RingName
  | ringUp (port queue : Nat)
  | ringDn (port queue : Nat)
  | routerUp (i : Nat)
  | routerDn (i : Nat)
  | captureUp (i : Nat)
  | captureDn (i : Nat)

/-- What the world answers while one message is processed. One message may create two versions,
    and those allocations are numbered. -/
structure Env where
  nbPorts : UInt16
  devInfo : Nat → Nat
  link : Nat → Nat
  lcoreCount : UInt16
  tapOpen : CharBuf → Int
  tapGetIfindex : CharBuf → Int
  ringCreate : RingName → Nat
  time : Int
  startupConfigCompleted : Bool
  mallocRib : Nat → Bool
  mallocRibInfo : Nat → Bool
  mallocFibTree : Nat → Nat → Bool
  mallocFibNode : Nat → Nat → Bool
  mallocRibTree : Bool
  mallocRibNode : Nat → Bool
  mallocNhNode : Bool

/-- Every allocation succeeds. -/
structure Env.AllocsOk (env : Env) : Prop where
  rib : env.mallocRib = fun _ => true
  ribInfo : env.mallocRibInfo = fun _ => true
  fibTree : env.mallocFibTree = fun _ _ => true
  fibNode : env.mallocFibNode = fun _ _ => true
  ribTree : env.mallocRibTree = true
  ribNode : env.mallocRibNode = fun _ => true
  nhNode : env.mallocNhNode = true

/-- A world of one port, in which every request is granted. -/
def Env.plain : Env where
  nbPorts := 1
  devInfo := fun _ => 0
  link := fun _ => 0
  lcoreCount := 1
  tapOpen := fun _ => 0
  tapGetIfindex := fun _ => 0
  ringCreate := fun _ => 1
  time := 0
  startupConfigCompleted := true
  mallocRib := fun _ => true
  mallocRibInfo := fun _ => true
  mallocFibTree := fun _ _ => true
  mallocFibNode := fun _ _ => true
  mallocRibTree := true
  mallocRibNode := fun _ => true
  mallocNhNode := true

theorem Env.plain_allocs : Env.plain.AllocsOk := ⟨rfl, rfl, rfl, rfl, rfl, rfl, rfl⟩

/-- `NULL` is dereferenced. -/
def deref {α : Type} : Option α → Except Fault α
  | some a => .ok a
  | none => .error .nullPointer

end SdPlane
