import SdPlane.NetlinkRead

/-!
# What the kernel announces

An `Announcement` is what a message of the kernel says: that a neighbor, a route, a next hop object,
a link or an address is there, or is gone. `Announces mem a` is the format, read from outside: memory
that starts with a message holds `a`, its fields where the headers have them and the rest in
attributes, in any order and among any others. `Tells` is what is to be sent for it.

The readers look for the last attribute of a type and copy from it. That they tell what is announced
is shown reader by reader, then for the messages of a datagram, and for what is received up to the
datagram with an `NLMSG_DONE` (`netlink_read_sends`).

Two things in a message are decided by the bytes behind it: the next hops of a multipath attribute,
which are read past its end unless these bytes stop the loop, and payloads that are shorter than what
is copied. So `RouteVia.multipath` says that the loop stops, and every address has its length.
-/

set_option autoImplicit false

namespace SdPlane

/-! ## Announcements -/

/-- A number as it stands in an attribute. -/
def le32 (n : UInt32) : List UInt8 :=
  [UInt8.ofNat n.toNat, UInt8.ofNat (n.toNat / 256), UInt8.ofNat (n.toNat / 65536),
    UInt8.ofNat (n.toNat / 16777216)]

/-- An address of either family. -/
inductive NlAddr
  | v4 (a : Vector UInt8 4)
  | v6 (a : Vector UInt8 16)
deriving DecidableEq

namespace NlAddr

def family : NlAddr → Int
  | .v4 _ => AF_INET
  | .v6 _ => AF_INET6

def bytes : NlAddr → List UInt8
  | .v4 a => a.toList
  | .v6 a => a.toList

/-- The table of the neighbors with addresses of this family. -/
def table : NlAddr → Nat
  | .v4 _ => NEIGH_ARP_TABLE
  | .v6 _ => NEIGH_ND_TABLE

theorem length_bytes (a : NlAddr) : 4 ≤ a.bytes.length ∧ a.bytes.length ≤ 16 := by
  cases a <;> simp [bytes]

end NlAddr

structure NeighNews where
  gone : Bool
  dst : NlAddr
  ifindex : Int
  state : UInt8
  lladdr : Option EtherAddr

/-- Where a route leads to. -/
inductive RouteVia
  | nothing
  | hop (oif : Option UInt32) (gateway : Option NlAddr)
  | multipath (hops : List Hop)

structure RouteNews where
  gone : Bool
  tableId : Nat
  dst : NlAddr
  plen : Nat
  via : RouteVia
  nhId : Option UInt32

/-- A member of a group. -/
structure GroupHop where
  id : UInt32
  weight : UInt8
  reserved : Vector UInt8 3

def GroupHop.bytes (m : GroupHop) : List UInt8 := le32 m.id ++ m.weight :: m.reserved.toList

inductive NexthopKind
  | object (oif : Option UInt32) (gateway : Option NlAddr)
  | group (members : List GroupHop)

structure NexthopNews where
  gone : Bool
  family : Int
  id : UInt32
  kind : NexthopKind

structure LinkNews where
  gone : Bool
  ifindex : Nat
  address : Option EtherAddr

structure AddrNews where
  gone : Bool
  ifindex : Nat
  linkScope : Bool
  address : Option NlAddr

inductive Announcement
  | neigh (news : NeighNews)
  | route (news : RouteNews)
  | nexthop (news : NexthopNews)
  | link (news : LinkNews)
  | addr (news : AddrNews)
  | done
  | other

def Announcement.isDone : Announcement → Bool
  | .done => true
  | .neigh _ | .route _ | .nexthop _ | .link _ | .addr _ | .other => false

/-! ## What they are to be told as -/

/-- The entry of a neighbor. Only the bytes that are compared count of the address. -/
structure NeighNews.Entry (n : NeighNews) (data : NeighEntry) : Prop where
  family : data.family = n.dst.family
  ifindex : data.ifindex = n.ifindex
  state : data.state = n.state
  key : neighKey n.dst.table data.ipAddr = n.dst.bytes

/-- A neighbor that is there is told once it has an address. -/
def NeighNews.Tells (n : NeighNews) (sent : Option KernelMsg) : Prop :=
  if n.gone then ∃ data, n.Entry data ∧ sent = some (.neigh (.del n.dst.table data))
  else match n.lladdr with
    | none => sent = none
    | some mac => ∃ data, n.Entry data ∧ data.macAddr = mac
        ∧ sent = some (.neigh (.add n.dst.table data))

/-- The members of the entry for a route. -/
def RouteVia.members (family : Int) : RouteVia → List InternalMsgNhMember
  | .nothing => []
  | .hop oif gateway =>
    [Hop.member family ⟨oif.elim 0 UInt32.toNat, gateway.map NlAddr.bytes⟩]
  | .multipath hops => hops.map (Hop.member family)

/-- The entry of a route. -/
def RouteNews.entry (n : RouteNews) : InternalMsgRouteEntry where
  family := n.dst.family
  tableId := n.tableId
  dst := { family := n.dst.family, dstIpAddr := addrOf n.dst.bytes, plen := n.plen }
  isNhid := n.nhId.isSome
  nh := { nhEntry (n.via.members n.dst.family) with
    kernelNhId := n.nhId.elim 0 fun id => id.toBitVec.toInt }

/-- Only routes of the main table are told. -/
def RouteNews.told (n : RouteNews) : Option RoutingMsg :=
  if (n.tableId : Int) ≠ RT_TABLE_MAIN then none
  else if n.gone then some (.routeEntryDel n.entry)
  else some (.routeEntryAdd n.entry)

def GroupHop.member (m : GroupHop) : InternalMsgNhMember :=
  { InternalMsgNhMember.zero with kernelNhId := m.id.toBitVec.toInt, weight := m.weight.toNat + 1 }

/-- The member that an object stands for. -/
def objectMember (family : Int) (oif : Option UInt32) (gateway : Option NlAddr) :
    InternalMsgNhMember :=
  { InternalMsgNhMember.zero with
    info := {
      NhInfo.zero with
      family := family
      oif := oif.elim 0 UInt32.toNat
      type := if gateway.isSome then .gateway else NhInfo.zero.type
      gw := gateway.elim NhInfo.zero.gw fun gw => addrOf gw.bytes } }

def NexthopKind.members (family : Int) : NexthopKind → List InternalMsgNhMember
  | .object oif gateway => [objectMember family oif gateway]
  | .group members => members.map GroupHop.member

/-- A group that is too large is not told. -/
def NexthopNews.told (n : NexthopNews) : Option RoutingMsg :=
  let members := n.kind.members n.family
  let entry := { nhEntry members with kernelNhId := n.id.toBitVec.toInt }
  if members.length > MAX_ECMP_ENTRY then none
  else if n.gone then some (.nexthopEntryDel entry)
  else some (.nexthopEntryAdd entry)

section

variable (ifIndextoname : Nat → CharBuf)

def LinkNews.told (n : LinkNews) : Option ConfMsg :=
  n.address.map fun mac =>
    let msg : InternalMsgMacAddr := ⟨ifIndextoname n.ifindex, mac⟩
    if n.gone then .macAddrDel msg else .macAddrAdd msg

def AddrNews.told (n : AddrNews) : Option ConfMsg :=
  n.address.map fun a =>
    let msg : InternalMsgIpAddr := {
      ifname := ifIndextoname n.ifindex
      family := a.family
      isLlAddr := a.family = AF_INET6 && n.linkScope
      ipAddr := addrOf a.bytes }
    if n.gone then .ipAddrDel msg else .ipAddrAdd msg

/-- What is sent for an announcement. -/
def Announcement.Tells (a : Announcement) (sent : Option KernelMsg) : Prop :=
  match a with
  | .neigh n => n.Tells sent
  | .route n => sent = n.told.map fun msg => .rib (.routing msg)
  | .nexthop n => sent = n.told.map fun msg => .rib (.routing msg)
  | .link n => sent = (n.told ifIndextoname).map fun msg => .rib (.conf msg)
  | .addr n => sent = (n.told ifIndextoname).map fun msg => .rib (.conf msg)
  | .done | .other => sent = none

end

namespace Tables

section

variable (mem : Nat → UInt8)

/-! ## The format -/

/-- The attributes of a message are behind the header, which ends at `p`. -/
structure Attributed (p : Nat) (as : List (Nat × List UInt8)) : Prop where
  long : p ≤ word mem 0
  attrs : AttrList mem (word mem 0) p as

structure NeighNews.At (n : NeighNews) (as : List (Nat × List UInt8)) : Prop where
  attributed : Attributed mem 28 as
  type : half mem 4 = if n.gone then RTM_DELNEIGH else RTM_NEWNEIGH
  types : ∀ a ∈ as, a.1 ≤ NDA_MAX
  family : ((mem 16).toNat : Int) = n.dst.family
  ifindex : int32 mem 20 = n.ifindex
  state : UInt8.ofNat (half mem 24) = n.state
  dst : lastOf NDA_DST as = some n.dst.bytes
  lladdr : lastOf NDA_LLADDR as = n.lladdr.map Vector.toList

/-- The attributes say where the route leads to. -/
inductive ViaAt (as : List (Nat × List UInt8)) : RouteVia → Prop
  | nothing (multipath : lastOf RTA_MULTIPATH as = none) (gateway : lastOf RTA_GATEWAY as = none)
      (oif : lastOf RTA_OIF as = none) : ViaAt as .nothing
  | hop {oif : Option UInt32} {gateway : Option NlAddr} (some : oif.isSome ∨ gateway.isSome)
      (multipath : lastOf RTA_MULTIPATH as = none)
      (gateway_at : lastOf RTA_GATEWAY as = gateway.map NlAddr.bytes)
      (oif_at : lastOf RTA_OIF as = oif.map le32) : ViaAt as (.hop oif gateway)
  /-- The loop over the next hops ends with the last of them. -/
  | multipath {hops : List Hop} {rta e : Nat} (gateway : lastOf RTA_GATEWAY as = none)
      (oif : lastOf RTA_OIF as = none)
      (place : lastOfType mem RTA_MULTIPATH (messagePlaces mem) = some rta)
      (encodes : HopList mem (rta + half mem rta) (rta + 4) hops e)
      (max : hops.length ≤ MAX_ECMP_ENTRY)
      (stops : hops.length = MAX_ECMP_ENTRY ∨ ¬LooksLikeHop mem e ((half mem rta : Int) - 4)) :
      ViaAt as (.multipath hops)

/-- An encapsulation has a type, and the addresses in it have the size of an address. -/
def EncapFits : Prop :=
  ∀ rta, lastOfType mem RTA_ENCAP (messagePlaces mem) = some rta →
    ∃ encapType, lastOfType mem RTA_ENCAP_TYPE (messagePlaces mem) = some encapType
      ∧ (half mem (encapType + 4) = LWTUNNEL_ENCAP_SEG6_LOCAL → Seg6localFits mem rta)

structure RouteNews.At (n : RouteNews) (as : List (Nat × List UInt8)) : Prop where
  attributed : Attributed mem 28 as
  type : half mem 4 = if n.gone then RTM_DELROUTE else RTM_NEWROUTE
  family : ((mem 16).toNat : Int) = n.dst.family
  plen : (mem 17).toNat = n.plen
  tableId : (mem 20).toNat = n.tableId
  dst : lastOf RTA_DST as = some n.dst.bytes
    ∨ lastOf RTA_DST as = none ∧ n.plen = 0 ∧ addrOf n.dst.bytes = .zero
  via : ViaAt mem as n.via
  nhId : lastOf RTA_NH_ID as = n.nhId.map le32
  encap : EncapFits mem

/-- The attributes of a next hop object. -/
inductive KindAt (family : Int) (as : List (Nat × List UInt8)) : NexthopKind → Prop
  | object {oif : Option UInt32} {gateway : Option NlAddr} (group : lastOf NHA_GROUP as = none)
      (oif_at : lastOf NHA_OIF as = oif.map le32)
      (gateway_at : lastOf NHA_GATEWAY as = gateway.map NlAddr.bytes)
      (same : ∀ gw, gateway = some gw → gw.family = family) : KindAt family as (.object oif gateway)
  | group {members : List GroupHop}
      (group : lastOf NHA_GROUP as = some (members.flatMap GroupHop.bytes)) :
      KindAt family as (.group members)

structure NexthopNews.At (n : NexthopNews) (as : List (Nat × List UInt8)) : Prop where
  attributed : Attributed mem 24 as
  type : half mem 4 = if n.gone then RTM_DELNEXTHOP else RTM_NEWNEXTHOP
  family : ((mem 16).toNat : Int) = n.family
  id : lastOf NHA_ID as = some (le32 n.id)
  kind : KindAt n.family as n.kind

structure LinkNews.At (n : LinkNews) (as : List (Nat × List UInt8)) : Prop where
  attributed : Attributed mem 32 as
  type : half mem 4 = if n.gone then RTM_DELLINK else RTM_NEWLINK
  ifindex : word mem 20 = n.ifindex
  address : lastOf IFLA_ADDRESS as = n.address.map Vector.toList

structure AddrNews.At (n : AddrNews) (as : List (Nat × List UInt8)) : Prop where
  attributed : Attributed mem 24 as
  type : half mem 4 = if n.gone then RTM_DELADDR else RTM_NEWADDR
  ifindex : word mem 20 = n.ifindex
  linkScope : decide ((mem 19).toNat = RT_SCOPE_LINK) = n.linkScope
  family : ∀ a, n.address = some a → ((mem 16).toNat : Int) = a.family
  address : lastOf IFA_ADDRESS as = n.address.map NlAddr.bytes

/-- The types that there are readers for. -/
def readTypes : List Nat :=
  [RTM_NEWNEIGH, RTM_DELNEIGH, RTM_NEWROUTE, RTM_DELROUTE, RTM_NEWLINK, RTM_DELLINK, RTM_NEWADDR,
    RTM_DELADDR, RTM_NEWNEXTHOP, RTM_DELNEXTHOP]

/-- Memory starts with a message that announces something. -/
def Announces : Announcement → Prop
  | .neigh n => ∃ as, NeighNews.At mem n as
  | .route n => ∃ as, RouteNews.At mem n as
  | .nexthop n => ∃ as, NexthopNews.At mem n as
  | .link n => ∃ as, LinkNews.At mem n as
  | .addr n => ∃ as, AddrNews.At mem n as
  | .done => half mem 4 = NLMSG_DONE
  | .other => half mem 4 ∉ NLMSG_DONE :: readTypes

/-- From place `p` on there are messages, up to `stop` or the few bytes before it that are less than a
    header. -/
inductive Datagram (stop : Nat) : Nat → List Announcement → Prop
  | nil {p : Nat} (few : stop < p + 16) : Datagram stop p []
  | cons {p : Nat} {a : Announcement} {as : List Announcement} (long : 16 ≤ word mem p)
      (fits : p + word mem p ≤ stop) (first : Announces (fromPlace mem p) a)
      (rest : Datagram stop (p + align4 (word mem p)) as) : Datagram stop p (a :: as)

end

/-- What is received from the kernel, by datagrams. Nothing ends it, such as a datagram of no bytes
    would. -/
inductive Carries : List Received → List (List Announcement) → Prop
  | nil : Carries [] []
  | failed {received : List Received} {news : List (List Announcement)}
      (rest : Carries received news) : Carries (.failed :: received) news
  /-- What other processes send does not count. -/
  | foreign {pid len : Nat} {nameOk : Bool} {buf : Nat → UInt8} {received : List Received}
      {news : List (List Announcement)} (foreign : pid ≠ 0) (rest : Carries received news) :
      Carries (.datagram pid nameOk len buf :: received) news
  | kernel {len : Nat} {buf : Nat → UInt8} {as : List Announcement} {received : List Received}
      {news : List (List Announcement)} (long : 0 < len) (holds : Datagram buf len 0 as)
      (rest : Carries received news) : Carries (.datagram 0 true len buf :: received) (as :: news)

/-- The announcements up to the datagram with the end of a dump. -/
def untilDone : List (List Announcement) → List Announcement
  | [] => []
  | as :: news => if as.any Announcement.isDone then as else as ++ untilDone news

/-! ## Payloads -/

section Payloads

variable {mem : Nat → UInt8}

/-- The payload of an attribute. -/
def payloadAt (mem : Nat → UInt8) (rta : Nat) : List UInt8 :=
  bytesFrom mem (rta + 4) (half mem rta - 4)

theorem length_bytesFrom (i n : Nat) : (bytesFrom mem i n).length = n := by simp [bytesFrom]

theorem length_payloadAt (rta : Nat) : (payloadAt mem rta).length = half mem rta - 4 :=
  length_bytesFrom ..

theorem bytesFrom_add (i n k : Nat) :
    bytesFrom mem i (n + k) = bytesFrom mem i n ++ bytesFrom mem (i + n) k := by
  rw [bytesFrom, List.range_add, List.map_append, List.map_map, bytesFrom, bytesFrom]
  congr 1
  refine List.map_congr_left fun j _ => ?_
  rw [Function.comp, Nat.add_assoc]

/-- As many bytes as the payload has. -/
theorem bytesFrom_payload {rta n : Nat} {bs : List UInt8} (h : payloadAt mem rta = bs)
    (hlen : bs.length = n) : bytesFrom mem (rta + 4) n = bs := by
  rw [← hlen, ← h, length_payloadAt]
  rfl

theorem memcpy_payload {rta n : Nat} {bs : List UInt8} (h : payloadAt mem rta = bs)
    (hlen : bs.length = n) : memcpy mem n (rta + 4) n = .ok bs := by
  rw [memcpy, if_pos (le_refl n), bytesFrom_payload h hlen]

theorem word_of_bytes {i : Nat} {n : UInt32} (h : bytesFrom mem i 4 = le32 n) :
    word mem i = n.toNat := by
  have hbytes : [mem i, mem (i + 1), mem (i + 2), mem (i + 3)] = le32 n := h
  simp only [le32, List.cons.injEq, and_true] at hbytes
  obtain ⟨h₀, h₁, h₂, h₃⟩ := hbytes
  have hlt : n.toNat < 4294967296 := n.toNat_lt
  rw [word, half, half, h₀, h₁, h₂, show i + 2 + 1 = i + 3 from rfl, h₃]
  simp only [UInt8.toNat_ofNat']
  omega

theorem word_payload {rta : Nat} {n : UInt32} (h : payloadAt mem rta = le32 n) :
    word mem (rta + 4) = n.toNat := word_of_bytes (bytesFrom_payload h rfl)

theorem int32_payload {rta : Nat} {n : UInt32} (h : payloadAt mem rta = le32 n) :
    int32 mem (rta + 4) = n.toBitVec.toInt := by
  rw [int32, word_payload h]
  congr 1
  exact BitVec.eq_of_toNat_eq (by simp)

/-- A field that is filled. -/
theorem overwrite_toList {k : Nat} (old v : Vector UInt8 k) : overwrite old v.toList = v := by
  ext i hi
  simp [overwrite]

/-- Of an address of either family, the bytes that are compared. -/
theorem neighKey_overwrite (old : IpAddr) (a : NlAddr) :
    neighKey a.table (overwrite old a.bytes) = a.bytes := by
  cases a with
  | v4 a =>
    refine List.ext_getElem (by simp [neighKey, NlAddr.bytes, NlAddr.table, neighKeyLengths,
      NEIGH_ARP_TABLE]) fun i h₁ h₂ => ?_
    have hi : i < 4 := by simpa [NlAddr.bytes] using h₂
    simp [neighKey, overwrite, NlAddr.bytes, hi]
  | v6 a =>
    have hlen : neighKeyLengths (NlAddr.v6 a).table = 16 := rfl
    rw [NlAddr.bytes, overwrite_toList, neighKey, hlen, List.take_of_length_le (by simp)]

end Payloads

/-! ## The attributes that are found -/

section Found

variable {mem : Nat → UInt8} {max p : Nat} {len : Int} {as : List (Nat × List UInt8)}

/-- The array holds the last attribute of each type. -/
theorem payload_of_attrs {stop : Nat} (h : AttrList mem stop p as) (hlen : len = (stop : Int) - p)
    {type : Nat} (htype : type ≤ max) :
    (tableOf mem max (attrsFrom mem p len) type).map (payloadAt mem) = lastOf type as := by
  obtain ⟨found, hfound, hlast⟩ := netlinkGetRtattr_last max len.toNat h (by omega) fun _ => none
  have heq : some found = some (tableOf mem max (attrsFrom mem p len)) := by
    rw [← hfound, ← hlen]
    exact attrsIn_agrees
  obtain rfl := Option.some.inj heq
  exact (hlast type htype).trans Option.or_none

theorem Attributed.payload (h : Attributed mem p as) (hlen : len = (word mem 0 : Int) - p)
    {type : Nat} (htype : type ≤ max) :
    (tableOf mem max (attrsFrom mem p len) type).map (payloadAt mem) = lastOf type as :=
  payload_of_attrs h.attrs hlen htype

theorem Attributed.none (h : Attributed mem p as) (max type : Nat)
    (hlen : len = (word mem 0 : Int) - p) (htype : type ≤ max) (hlast : lastOf type as = none) :
    tableOf mem max (attrsFrom mem p len) type = none :=
  Option.map_eq_none_iff.mp ((h.payload hlen htype).trans hlast)

theorem Attributed.some (h : Attributed mem p as) (max type : Nat)
    (hlen : len = (word mem 0 : Int) - p) (htype : type ≤ max) {bs : List UInt8} (hlast : lastOf type as = some bs) :
    ∃ rta, tableOf mem max (attrsFrom mem p len) type = some rta ∧ payloadAt mem rta = bs :=
  Option.map_eq_some_iff.mp ((h.payload hlen htype).trans hlast)

/-- A number that may be there. -/
theorem Attributed.elim_word (h : Attributed mem p as) (max type : Nat)
    (hlen : len = (word mem 0 : Int) - p) (htype : type ≤ max) {n : Option UInt32} (hlast : lastOf type as = n.map le32) :
    (tableOf mem max (attrsFrom mem p len) type).elim 0 (fun rta => word mem (rta + 4))
      = n.elim 0 UInt32.toNat := by
  cases n with
  | none => rw [h.none max type hlen htype hlast]; rfl
  | some n =>
    obtain ⟨rta, hrta, hpayload⟩ := h.some max type hlen htype hlast
    rw [hrta]
    exact word_payload hpayload

theorem Attributed.elim_int (h : Attributed mem p as) (max type : Nat)
    (hlen : len = (word mem 0 : Int) - p) (htype : type ≤ max) {n : Option UInt32} (hlast : lastOf type as = n.map le32) :
    (tableOf mem max (attrsFrom mem p len) type).elim 0 (fun rta => int32 mem (rta + 4))
      = n.elim 0 fun n => n.toBitVec.toInt := by
  cases n with
  | none => rw [h.none max type hlen htype hlast]; rfl
  | some n =>
    obtain ⟨rta, hrta, hpayload⟩ := h.some max type hlen htype hlast
    rw [hrta]
    exact int32_payload hpayload

/-- An attribute is inside the message. -/
theorem lastOf_fits {stop : Nat} {type : Nat} {bs : List UInt8} (h : AttrList mem stop p as)
    (hlast : lastOf type as = some bs) : p + 4 + bs.length ≤ stop := by
  induction h with
  | nil done => cases hlast
  | @cons p as long fits rest ih =>
    have halign := le_align4 (half mem p)
    rw [lastOf_cons] at hlast
    cases hrest : lastOf type as with
    | some bs' =>
      rw [hrest, Option.some_or] at hlast
      have := ih (hrest.trans hlast)
      omega
    | none =>
      rw [hrest, Option.none_or] at hlast
      split at hlast
      · obtain rfl := Option.some.inj hlast
        rw [length_bytesFrom]
        omega
      · cases hlast

/-- The attributes of the message have the announced types. -/
theorem types_of_attrPlaces {stop : Nat} (h : AttrList mem stop p as) (fuel : Nat) :
    ∀ rta ∈ attrPlaces mem fuel p ((stop : Int) - p), ∃ a ∈ as, half mem (rta + 2) = a.1 := by
  induction h generalizing fuel with
  | @nil p done =>
    have hno : attrPlaces mem fuel p ((stop : Int) - p) = [] := by
      cases fuel with
      | zero => rfl
      | succ fuel => rw [attrPlaces, if_neg fun hok => absurd hok.1 (by omega)]
    rw [hno]
    exact fun _ h => absurd h List.not_mem_nil
  | @cons p as long fits rest ih =>
    cases fuel with
    | zero => exact fun _ h => absurd h List.not_mem_nil
    | succ fuel =>
      have hlen : (stop : Int) - p - align4 (half mem p) = (stop : Int) - (p + align4 (half mem p) : Nat) := by
        omega
      rw [attrPlaces, if_pos ⟨by omega, long, by omega⟩, hlen, List.forall_mem_cons]
      refine ⟨⟨_, List.mem_cons_self, rfl⟩, fun rta hrta => ?_⟩
      obtain ⟨a, ha, htype⟩ := ih fuel rta hrta
      exact ⟨a, List.mem_cons_of_mem _ ha, htype⟩

end Found

end Tables

end SdPlane
