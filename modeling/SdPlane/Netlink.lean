import SdPlane.Routing
import SdPlane.RibFamily

/-!
# Route messages of the kernel (`netlink_thread.c`)

`netlink_read_nlmsg_route` makes a message to the RIB manager of a netlink message. A netlink message
is a header, a `struct rtmsg` and attributes, each of which says its own length; a multipath
attribute holds a list of next hops, each of which says its length too and holds attributes again.

The message is memory, and a pointer into it is a place. Memory may end: `mem i = none` where nothing
may be read, and a function that reads there has no result. On memory that never ends every read
succeeds, so whether a function looks beyond a place is a matter of running it on what is left when
memory is `cut` there.

Copying an address of more than sixteen bytes writes past the end of the union that holds it, and has
no result either. What is only logged (interface names, encapsulations) is left out.
-/

set_option autoImplicit false

namespace SdPlane

/-- Bytes, as far as they may be read. -/
abbrev Memory := Nat → Option UInt8

/-- Memory that ends at `stop`. -/
def Memory.cut (mem : Nat → UInt8) (stop : Nat) : Memory :=
  fun i => if i < stop then some (mem i) else none

/-- Memory that does not end. -/
def Memory.all (mem : Nat → UInt8) : Memory := fun i => some (mem i)

namespace Memory

def u8 (mem : Memory) (i : Nat) : Option Nat := (mem i).map UInt8.toNat

/-- The machine is little-endian. -/
def u16 (mem : Memory) (i : Nat) : Option Nat := do
  let lo ← mem.u8 i
  let hi ← mem.u8 (i + 1)
  return lo + 256 * hi

def u32 (mem : Memory) (i : Nat) : Option Nat := do
  let lo ← mem.u16 i
  let hi ← mem.u16 (i + 2)
  return lo + 65536 * hi

/-- `n` bytes from `i` on. -/
def bytes (mem : Memory) (i n : Nat) : Option (List UInt8) :=
  (List.range n).mapM fun k => mem (i + k)

end Memory

/-- An address field that was zero before `bs` was copied to it. -/
def addrOf (bs : List UInt8) : IpAddr := Vector.ofFn fun i => bs[i]?.getD 0

/-- `memcpy` of `n` bytes to an address field. -/
def copyAddr (mem : Memory) (i n : Nat) : Option IpAddr :=
  if n ≤ 16 then (mem.bytes i n).map addrOf else none

/-! ## Attributes -/

def RTA_DST : Nat := 1
def RTA_OIF : Nat := 4
def RTA_GATEWAY : Nat := 5
def RTA_MULTIPATH : Nat := 9
def RTA_NH_ID : Nat := 30
def RTA_MAX : Nat := 30
def RTM_NEWROUTE : Nat := 24
def RTM_DELROUTE : Nat := 25

/-- `RTA_ALIGN`, `RTNH_ALIGN`. -/
def align4 (len : Nat) : Nat := (len + 3) / 4 * 4

/-- The attributes that were found, by type. -/
abbrev Attrs := Nat → Option Nat

/-- `netlink_get_rtattr`, from the attribute `rta` on. `fuel` bounds the number of attributes, each of
    which takes four bytes at least. -/
def netlinkGetRtattr (mem : Memory) (max : Nat) : Nat → Nat → Int → Attrs → Option Attrs
  | 0, _, _, rtas => some rtas
  | fuel + 1, rta, len, rtas =>
    if 4 ≤ len then do
      let rtaLen ← mem.u16 rta
      if 4 ≤ rtaLen ∧ (rtaLen : Int) ≤ len then
        let rtaType ← mem.u16 (rta + 2)
        let rtas := if rtaType ≤ max then Function.update rtas rtaType (some rta) else rtas
        netlinkGetRtattr mem max fuel (rta + align4 rtaLen) (len - align4 rtaLen) rtas
      else some rtas
    else some rtas

/-- The attributes in `len` bytes from `head` on. -/
def attrsIn (mem : Memory) (max head : Nat) (len : Int) : Option Attrs :=
  netlinkGetRtattr mem max len.toNat head len fun _ => none

/-- `RTA_DATA` and `RTA_PAYLOAD` of an attribute, copied to an address field. -/
def rtaAddr (mem : Memory) (rta : Nat) : Option IpAddr := do
  let rtaLen ← mem.u16 rta
  copyAddr mem (rta + 4) (rtaLen - 4)

/-! ## Next hops -/

/-- The type and the gateway of a next hop whose attributes are known. -/
def gatewayInfo (mem : Memory) (rtas : Attrs) (info : NhInfo) : Option NhInfo :=
  match rtas RTA_GATEWAY with
  | some rta => (rtaAddr mem rta).map fun gw => { info with gw := gw, type := .gateway }
  | none => some { info with gw := .zero, type := .connected }

/-- `RTNH_OK`. -/
def rtnhOk (mem : Memory) (rtnh : Nat) (len : Int) : Option Bool :=
  (mem.u16 rtnh).map fun (rtnhLen : Nat) => 8 ≤ rtnhLen && (rtnhLen : Int) ≤ len

/-- What the loop over the next hops does with one of them. -/
def readRtnexthop (mem : Memory) (family : Int) (rtnh : Nat) : Option InternalMsgNhMember := do
  let rtnhLen ← mem.u16 rtnh
  let oif ← mem.u32 (rtnh + 4)
  let info : NhInfo := { NhInfo.zero with family := family, oif := oif }
  if 8 < rtnhLen then
    let rtas ← attrsIn mem RTA_MAX (rtnh + 8) (rtnhLen - 8)
    let info ← gatewayInfo mem rtas info
    return { InternalMsgNhMember.zero with info := info }
  else
    return { InternalMsgNhMember.zero with info := info }

/-- `for (; RTNH_OK (rtnh, rtnh_len) && nhcnt < MAX_ECMP_ENTRY; rtnh = RTNH_NEXT (rtnh), nhcnt++)`.
    The test looks at the next hop before it looks at the count, and `rtnh_len` stays as it is. -/
def multipathLoop (mem : Memory) (family rtnhLen : Int) : Nat → Nat →
    Option (List InternalMsgNhMember)
  | 0, rtnh => (rtnhOk mem rtnh rtnhLen).map fun _ => []
  | room + 1, rtnh => do
    if ← rtnhOk mem rtnh rtnhLen then
      let member ← readRtnexthop mem family rtnh
      let thisLen ← mem.u16 rtnh
      let members ← multipathLoop mem family rtnhLen room (rtnh + align4 thisLen)
      return member :: members
    else
      return []

/-- An entry with the members that were read, of which there are at most `MAX_ECMP_ENTRY`. -/
def nhEntry (members : List InternalMsgNhMember) : InternalMsgNhEntry where
  kernelNhId := 0
  nhcnt := (members.take MAX_ECMP_ENTRY).length
  members := fun i => (members.take MAX_ECMP_ENTRY)[i]?.getD .zero
  nhcnt_le := by simp

/-- The part of `netlink_read_nlmsg_route` for `RTA_MULTIPATH`. -/
def readMultipath (mem : Memory) (family : Int) (rta : Nat) : Option InternalMsgNhEntry := do
  let rtaLen ← mem.u16 rta
  let members ← multipathLoop mem family ((rtaLen : Int) - 4) MAX_ECMP_ENTRY (rta + 4)
  return nhEntry members

/-- The part for a single next hop, which takes the place of the first member. -/
def readSingle (mem : Memory) (family : Int) (rtns : Attrs) (nh : InternalMsgNhEntry) :
    Option InternalMsgNhEntry :=
  if (rtns RTA_GATEWAY).isSome ∨ (rtns RTA_OIF).isSome then do
    let info ← gatewayInfo mem rtns { (nh.members 0).info with family := family }
    let oif ← (rtns RTA_OIF).elim (some 0) fun rta => mem.u32 (rta + 4)
    return {
      kernelNhId := nh.kernelNhId
      nhcnt := 1
      members := Function.update nh.members 0
        { nh.members 0 with kernelNhId := 0, info := { info with oif := oif } }
      nhcnt_le := one_le_maxEcmpEntry }
  else some nh

/-! ## Messages -/

/-- `RTM_PAYLOAD` bytes of attributes, behind the header and the `struct rtmsg`. -/
def messageAttrs (mem : Memory) : Option Attrs := do
  let nlmsgLen ← mem.u32 0
  attrsIn mem RTA_MAX 28 ((nlmsgLen : Int) - 28)

/-- The destination, which is zero for a default route. -/
def routeDst (mem : Memory) (rtns : Attrs) : Option IpAddr :=
  match rtns RTA_DST with
  | some rta => rtaAddr mem rta
  | none => some .zero

/-- The next hops, of a multipath attribute or of the message itself. -/
def routeNh (mem : Memory) (family : Int) (rtns : Attrs) : Option InternalMsgNhEntry := do
  let nh ← match rtns RTA_MULTIPATH with
    | some rta => readMultipath mem family rta
    | none => some (nhEntry [])
  readSingle mem family rtns nh

/-- The id of a next hop object, an `int`. -/
def routeNhId (mem : Memory) (rtns : Attrs) : Option Int :=
  match rtns RTA_NH_ID with
  | some rta => (mem.u32 (rta + 4)).map fun id => (BitVec.ofNat 32 id).toInt
  | none => some 0

/-- `netlink_read_nlmsg_route`: the message that is sent to the RIB manager, if one is. -/
def netlinkReadNlmsgRoute (mem : Memory) : Option (Option RoutingMsg) := do
  let nlmsgLen ← mem.u32 0
  if nlmsgLen < 28 then
    return none
  let rtns ← messageAttrs mem
  let family ← mem.u8 16
  let dstLen ← mem.u8 17
  let table ← mem.u8 20
  if (table : Int) ≠ RT_TABLE_MAIN then
    return none
  if rtns RTA_DST = none ∧ dstLen ≠ 0 then
    return none
  let dst ← routeDst mem rtns
  let nh ← routeNh mem family rtns
  let kernelNhId ← routeNhId mem rtns
  let msg : InternalMsgRouteEntry := {
    family := family
    tableId := table
    dst := { family := family, dstIpAddr := dst, plen := dstLen }
    isNhid := (rtns RTA_NH_ID).isSome
    nh := { nh with kernelNhId := kernelNhId } }
  let nlmsgType ← mem.u16 4
  if nlmsgType = RTM_NEWROUTE then return some (.routeEntryAdd msg)
  else if nlmsgType = RTM_DELROUTE then return some (.routeEntryDel msg)
  else return none

end SdPlane
