import SdPlane.Radix
import SdPlane.RibInfo

/-!
# Routing messages (`rib_manager.c`)

Four messages are about routes and next hops. What they work on is the next hops of the new
version, the hash table of kernel ids and the RIB trees, `rib_tree_master`. The trees are not
part of a version: there is one set of them, and the FIB trees of every version are built from
it. `Routing` is these three together, and `routingMessage` what a message does to them.

A tree takes the first slot that is free when the first route of its family and table arrives
(`routeTableAllocSlot`), and keeps it. Reference counts of groups are moved here too, by one per
message and not by one per route, whatever becomes of the route afterwards.
-/

set_option autoImplicit false

namespace SdPlane

open Radix (RibTree ribNew ribRouteAdd ribRouteDelete)

def AF_INET : Int := 2
def AF_INET6 : Int := 10

/-- `struct internal_msg_route_entry`. -/
structure InternalMsgRouteEntry where
  family : Int
  tableId : Int
  dst : RouteDstInfo
  isNhid : Bool
  nh : InternalMsgNhEntry

inductive RoutingMsg
  | routeEntryAdd (msg : InternalMsgRouteEntry)
  | routeEntryDel (msg : InternalMsgRouteEntry)
  | nexthopEntryAdd (msg : InternalMsgNhEntry)
  | nexthopEntryDel (msg : InternalMsgNhEntry)

structure Routing where
  nh : NhState
  ribTreeMaster : Nat → Option RibTree

def Routing.init : Routing := ⟨nexthopInit, fun _ => none⟩

namespace Routing

/-- `route_table_lookup_id`. -/
def routeTableLookupId (ribTreeMaster : Nat → Option RibTree) (tableId family : Int) :
    Option Nat :=
  (List.range ROUTE_TREE_SIZE).find? fun i =>
    match ribTreeMaster i with
    | none => false
    | some t => decide (t.family = family) && decide (t.tableId = tableId)

/-- `route_table_alloc_slot`. -/
def routeTableAllocSlot (malloc : Bool) (ribTreeMaster : Nat → Option RibTree)
    (tableId family : Int) : Option (Nat × (Nat → Option RibTree)) :=
  match (List.range ROUTE_TREE_SIZE).find? fun i => (ribTreeMaster i).isNone with
  | none => none
  | some i =>
    if malloc then
      some (i, Function.update ribTreeMaster i
        (some { ribNew with family := family, tableId := tableId }))
    else none

/-- The table of a message, which is made if it is not there. -/
def routeTable (malloc : Bool) (ribTreeMaster : Nat → Option RibTree) (tableId family : Int) :
    Option (Nat × (Nat → Option RibTree)) :=
  match routeTableLookupId ribTreeMaster tableId family with
  | some i => some (i, ribTreeMaster)
  | none => routeTableAllocSlot malloc ribTreeMaster tableId family

/-- `rib_tree_master[i]` after an operation on it. -/
def onTable (ribTreeMaster : Nat → Option RibTree) (i : Nat) (op : RibTree → RibTree) :
    Nat → Option RibTree :=
  Function.update ribTreeMaster i ((ribTreeMaster i).map op)

/-- `case INTERNAL_MSG_TYPE_ROUTE_ENTRY_ADD`. What `rib_route_add` answers is compared with
    `> 0`, which it never is. -/
def routeEntryAdd (env : Env) (r : Routing) (msg : InternalMsgRouteEntry) : Routing :=
  match nexthopAddEntry env.mallocNhNode r.nh msg.nh with
  | (nh, none) => { r with nh := nh }
  | (nh, some sdplaneNhId) =>
    let nh := nexthopIncrementRefcnt nh sdplaneNhId
    match routeTable env.mallocRibTree r.ribTreeMaster msg.tableId msg.family with
    | none => { r with nh := nh }
    | some (i, ribTreeMaster) =>
      { nh := nh
        ribTreeMaster := onTable ribTreeMaster i fun t =>
          (ribRouteAdd env.mallocRibNode t msg.dst.dstIpAddr msg.dst.plen
            ⟨msg.dst, sdplaneNhId⟩).1 }

/-- The next hop that a deleted route is taken to have had. -/
def routeEntryDelNexthop (s : NhState) (msg : InternalMsgRouteEntry) : NhState × Option Nat :=
  if msg.isNhid then (s, nexthopGetIndexByNhid s msg.nh.kernelNhId)
  else nexthopDelEntry s msg.nh

/-- `case INTERNAL_MSG_TYPE_ROUTE_ENTRY_DEL`. -/
def routeEntryDel (r : Routing) (msg : InternalMsgRouteEntry) : Routing :=
  match routeEntryDelNexthop r.nh msg with
  | (nh, none) => { r with nh := nh }
  | (nh, some sdplaneNhId) =>
    let nh := nexthopDecrementRefcnt nh sdplaneNhId
    match routeTableLookupId r.ribTreeMaster msg.tableId msg.family with
    | none => { r with nh := nh }
    | some i =>
      { nh := nh
        ribTreeMaster := onTable r.ribTreeMaster i fun t =>
          (ribRouteDelete t msg.dst.dstIpAddr msg.dst.plen).1 }

end Routing

/-- What a message does to routes and next hops. -/
def routingMessage (env : Env) (r : Routing) : RoutingMsg → Routing
  | .routeEntryAdd msg => r.routeEntryAdd env msg
  | .routeEntryDel msg => r.routeEntryDel msg
  | .nexthopEntryAdd msg => { r with nh := (nexthopAddEntry env.mallocNhNode r.nh msg).1 }
  | .nexthopEntryDel msg => { r with nh := (nexthopDelEntry r.nh msg).1 }

end SdPlane
