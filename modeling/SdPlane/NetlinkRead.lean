import SdPlane.NetlinkTables
import SdPlane.RibManager

/-!
# Reading the socket (`netlink_read` of `netlink_thread.c`)

A datagram from the kernel holds messages, one after another, each of which says its own length. By
its type a message goes to one of five readers, two of which are in `SdPlane/NetlinkTables.lean`. The
other three are here: next hop objects, links and addresses. What a reader makes of a message goes
into the queue of the neighbor manager or of the RIB manager.

A message is memory that starts with its header, so a reader is given the datagram from where the
message begins. `ifIndextoname` is the buffer that `if_indextoname` fills. What the hooks for
interface addresses do is left out.
-/

set_option autoImplicit false

namespace SdPlane

/-! The numbers that the kernel's headers give. -/

def NHA_ID : Nat := 1
def NHA_GROUP : Nat := 2
def NHA_OIF : Nat := 5
def NHA_GATEWAY : Nat := 6
def NHA_MAX : Nat := 13
def IFLA_ADDRESS : Nat := 1
def IFLA_MAX : Nat := 65
def IFA_ADDRESS : Nat := 1
def IFA_MAX : Nat := 11
def RT_SCOPE_LINK : Nat := 253
def NLMSG_DONE : Nat := 3
def RTM_NEWLINK : Nat := 16
def RTM_DELLINK : Nat := 17
def RTM_NEWADDR : Nat := 20
def RTM_DELADDR : Nat := 21
def RTM_DELNEIGH : Nat := 29
def RTM_NEWNEXTHOP : Nat := 104
def RTM_DELNEXTHOP : Nat := 105

/-- What is sent, by the queue that it goes to. -/
inductive KernelMsg
  | neigh (request : NeighRequest)
  | rib (msg : Msg)

namespace Tables

section

variable (mem : Nat → UInt8)

/-! ## Next hop objects -/

/-- `grp[i]`, of eight bytes. -/
def groupMember (grp i : Nat) : InternalMsgNhMember :=
  { InternalMsgNhMember.zero with
    kernelNhId := int32 mem (grp + 8 * i)
    weight := (mem (grp + 8 * i + 4)).toNat + 1 }

/-- `NHA_GROUP`: the members of the group in the attribute, unless there are too many of them. -/
def readGroup (rta : Nat) : Option InternalMsgNhEntry :=
  let grpCount := (half mem rta - 4) / 8
  if hmax : grpCount ≤ MAX_ECMP_ENTRY then
    some {
      kernelNhId := 0
      nhcnt := grpCount
      members := fun i => if i < grpCount then groupMember mem (rta + 4) i else .zero
      nhcnt_le := hmax }
  else none

/-- `NHA_GATEWAY`, for a next hop of the family of the message. -/
def readObjectGateway (rtas : Attrs) (info : NhInfo) : Except TableFault NhInfo :=
  match rtas NHA_GATEWAY with
  | none => return info
  | some rta =>
    if ((mem 16).toNat : Int) = AF_INET then do
      let ipv4Addr ← memcpy mem 4 (rta + 4) 4
      return { info with gw := overwrite info.gw ipv4Addr, type := .gateway }
    else if ((mem 16).toNat : Int) = AF_INET6 then do
      let ipv6Addr ← memcpy mem 16 (rta + 4) 16
      return { info with gw := overwrite info.gw ipv6Addr, type := .gateway }
    else return info

/-- An object that is not a group: one next hop of its own. -/
def readObject (rtas : Attrs) : Except TableFault InternalMsgNhEntry := do
  let oif := (rtas NHA_OIF).elim 0 fun rta => word mem (rta + 4)
  let info ← readObjectGateway mem rtas { NhInfo.zero with family := (mem 16).toNat, oif := oif }
  return {
    kernelNhId := 0
    nhcnt := 1
    members := Function.update (fun _ => .zero) 0 { InternalMsgNhMember.zero with info := info }
    nhcnt_le := one_le_maxEcmpEntry }

/-- `netlink_read_nlmsg_nexthop`: the message that is sent to the RIB manager, if one is. -/
def netlinkReadNlmsgNexthop : Except TableFault (Option RoutingMsg) :=
  if word mem 0 < 24 then return none
  else do
    let rtas ← attrTable mem (NHA_MAX + 1) NHA_MAX 24 ((word mem 0 : Int) - 24)
    let nh ← match rtas NHA_GROUP with
      | some rta => pure (readGroup mem rta)
      | none => some <$> readObject mem rtas
    match nh with
    | none => return none
    | some nh =>
      let nh := { nh with kernelNhId := (rtas NHA_ID).elim 0 fun rta => int32 mem (rta + 4) }
      if half mem 4 = RTM_NEWNEXTHOP then return some (.nexthopEntryAdd nh)
      else if half mem 4 = RTM_DELNEXTHOP then return some (.nexthopEntryDel nh)
      else return none

/-! ## Links and addresses -/

variable (ifIndextoname : Nat → CharBuf)

/-- `netlink_read_nlmsg_link`: the message that is sent to the RIB manager, if one is. -/
def netlinkReadNlmsgLink : Except TableFault (Option ConfMsg) :=
  if word mem 0 < 32 then return none
  else do
    let rtas ← attrTable mem (IFLA_MAX + 1) IFLA_MAX 32 ((word mem 0 : Int) - 32)
    match rtas IFLA_ADDRESS with
    | none => return none
    | some address =>
      let macAddr ← memcpy mem 6 (address + 4) 6
      let msg : InternalMsgMacAddr := {
        ifname := ifIndextoname (word mem 20)
        macAddr := overwrite (.replicate 6 0) macAddr }
      if half mem 4 = RTM_NEWLINK then return some (.macAddrAdd msg)
      else if half mem 4 = RTM_DELLINK then return some (.macAddrDel msg)
      else return none

/-- The address of an interface, by family. -/
def ifAddr (address : Nat) : Except TableFault (Option IpAddr) :=
  if ((mem 16).toNat : Int) = AF_INET then do
    let ipv4Addr ← memcpy mem 4 (address + 4) 4
    return some (overwrite (.replicate 16 0) ipv4Addr)
  else if ((mem 16).toNat : Int) = AF_INET6 then do
    let ipv6Addr ← memcpy mem 16 (address + 4) 16
    return some (overwrite (.replicate 16 0) ipv6Addr)
  else return none

/-- `netlink_read_nlmsg_addr`: the message that is sent to the RIB manager, if one is. -/
def netlinkReadNlmsgAddr : Except TableFault (Option ConfMsg) :=
  if word mem 0 < 24 then return none
  else do
    let rtas ← attrTable mem (IFA_MAX + 1) IFA_MAX 24 ((word mem 0 : Int) - 24)
    match rtas IFA_ADDRESS with
    | none => return none
    | some address =>
      match ← ifAddr mem address with
      | none => return none
      | some ipAddr =>
        let msg : InternalMsgIpAddr := {
          ifname := ifIndextoname (word mem 20)
          family := (mem 16).toNat
          isLlAddr := ((mem 16).toNat : Int) = AF_INET6 && (mem 19).toNat = RT_SCOPE_LINK
          ipAddr := ipAddr }
        if half mem 4 = RTM_NEWADDR then return some (.ipAddrAdd msg)
        else if half mem 4 = RTM_DELADDR then return some (.ipAddrDel msg)
        else return none

/-! ## Datagrams -/

/-- The `switch` over the type of a message. `stack` is where `netlink_read_nlmsg_neigh` has its
    message. -/
def readNlmsg (stack : NeighEntry) : Except TableFault (Option KernelMsg) :=
  let type := half mem 4
  if type = RTM_NEWNEIGH ∨ type = RTM_DELNEIGH then
    Option.map KernelMsg.neigh <$> netlinkReadNlmsgNeigh mem stack
  else if type = RTM_NEWROUTE ∨ type = RTM_DELROUTE then
    Option.map (fun msg => .rib (.routing msg)) <$> netlinkReadNlmsgRoute mem
  else if type = RTM_NEWLINK ∨ type = RTM_DELLINK then
    Option.map (fun msg => .rib (.conf msg)) <$> netlinkReadNlmsgLink mem ifIndextoname
  else if type = RTM_NEWADDR ∨ type = RTM_DELADDR then
    Option.map (fun msg => .rib (.conf msg)) <$> netlinkReadNlmsgAddr mem ifIndextoname
  else if type = RTM_NEWNEXTHOP ∨ type = RTM_DELNEXTHOP then
    Option.map (fun msg => .rib (.routing msg)) <$> netlinkReadNlmsgNexthop mem
  else return none

end

/-- `NLMSG_OK`. -/
def NlmsgOk (buf : Nat → UInt8) (h : Nat) (len : Int) : Prop :=
  16 ≤ len ∧ 16 ≤ word buf h ∧ (word buf h : Int) ≤ len

instance (buf : Nat → UInt8) (h : Nat) (len : Int) : Decidable (NlmsgOk buf h len) :=
  inferInstanceAs (Decidable (_ ∧ _))

/-- A datagram from where one of its messages begins. -/
def fromPlace (buf : Nat → UInt8) (h : Nat) : Nat → UInt8 := fun i => buf (h + i)

variable (ifIndextoname : Nat → CharBuf)

/-- The loop over the messages of a datagram: what is sent, and whether there was an `NLMSG_DONE`.
    `stack` is what each reader finds on its stack, and `fuel` bounds the number of messages, each of
    which takes sixteen bytes at least. -/
def netlinkMessages (buf : Nat → UInt8) :
    Nat → (Nat → NeighEntry) → Nat → Int → Except TableFault (List KernelMsg × Bool)
  | 0, _, _, _ => return ([], false)
  | fuel + 1, stack, h, len =>
    if NlmsgOk buf h len then do
      let sent ← readNlmsg (fromPlace buf h) ifIndextoname (stack 0)
      let done := decide (half (fromPlace buf h) 4 = NLMSG_DONE)
      let (rest, restDone) ← netlinkMessages buf fuel (fun n => stack (n + 1))
        (h + align4 (word buf h)) (len - align4 (word buf h))
      return (sent.toList ++ rest, done || restDone)
    else return ([], false)

/-- What `recvmsg` does, up to when it would block. -/
inductive Received
  /-- `EINTR` and the other errors. -/
  | failed
  /-- `len` bytes come into `buf`. The kernel has the `pid` 0, and `nameOk` says that the address of
      the sender has the right length. -/
  | datagram (pid : Nat) (nameOk : Bool) (len : Nat) (buf : Nat → UInt8)

/-- `netlink_read`: what is sent. What is received after it returns is for the next call. -/
def netlinkRead : (Nat → Nat → NeighEntry) → List Received → Except TableFault (List KernelMsg)
  | _, [] => return []
  | stack, .failed :: received => netlinkRead stack received
  | stack, .datagram pid nameOk len buf :: received =>
    if pid ≠ 0 then netlinkRead stack received
    else if len = 0 ∨ nameOk = false then return []
    else do
      let (sent, done) ← netlinkMessages ifIndextoname buf len (stack 0) 0 len
      if done then return sent
      else do
        let rest ← netlinkRead (fun n => stack (n + 1)) received
        return sent ++ rest

end Tables

end SdPlane
