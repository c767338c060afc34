import SdPlane.HashTable
import SdPlane.Key
import SdPlane.Lib.Loop

/-!
# Next-hop groups (`nexthop.c`)

Two pools: `groups`, whose slot numbers are what routes hold as `sdplane_nh_id`, and
`info_pool`, the gateways that the members of groups point at. A group is free when its
`nhcnt` is zero, a gateway when its `refcnt` is not positive. The global hash table `nh_ht`
leads from a kernel's next-hop id to a slot; it is part of the state here.

`nexthop_add_entry` calls itself, for the members of a multipath entry without a kernel id,
with an entry of one member. `addEntryWith` is its body with the recursive call as a
parameter, and `nexthopAddEntry` ties the knot after one level, since an entry of one member
makes no further call. `nexthopAddEntry_eq` is the equation of the source.

`-1` is `none` where a slot or an index is returned. The one `malloc` on the way, for the node
of the hash table, is a parameter. `nhcnt` counts up from zero in every sender of messages and
is a natural number, bounded by the length of the array that it is about.
-/

set_option autoImplicit false

namespace SdPlane

-- irreducible, so that no proof unrolls a scan of a pool
@[irreducible] def MAX_NEXTHOP_INFO_SIZE : Nat := 4096
@[irreducible] def MAX_NEXTHOP_GRP_SIZE : Nat := 4096
def MAX_ECMP_ENTRY : Nat := 32
def NEXTHOP_HASH_BUCKETS_SIZE : Nat := 1024

inductive NexthopType
  | connected
  | gateway
deriving DecidableEq

/-- `struct nh_info`, without the interface name that only `show` commands print. -/
structure NhInfo where
  family : Int
  type : NexthopType
  gw : IpAddr
  oif : Nat
  refcnt : Int
deriving DecidableEq

structure NhMember where
  refSdplaneNhId : Int
  infoIndex : Int
  weight : Nat
deriving DecidableEq

structure NhGroup where
  sdplaneNhId : Int
  kernelNhId : Int
  refcnt : Int
  nhcnt : Nat
  members : Nat → NhMember

structure Nexthop where
  groups : Nat → NhGroup
  infoPool : Nat → NhInfo
  groupsTop : Nat
  infoTop : Nat

/-! What `memset` leaves. -/

def NhInfo.zero : NhInfo := ⟨0, .connected, .zero, 0, 0⟩
def NhMember.zero : NhMember := ⟨0, 0, 0⟩
def NhGroup.zero : NhGroup := ⟨0, 0, 0, 0, fun _ => .zero⟩
def Nexthop.zero : Nexthop := ⟨fun _ => .zero, fun _ => .zero, 0, 0⟩

/-- `struct internal_msg_nh_member`. -/
structure InternalMsgNhMember where
  kernelNhId : Int
  info : NhInfo
  weight : Nat
deriving DecidableEq

def InternalMsgNhMember.zero : InternalMsgNhMember := ⟨0, .zero, 0⟩

/-- `struct internal_msg_nh_entry`. -/
structure InternalMsgNhEntry where
  kernelNhId : Int
  nhcnt : Nat
  members : Nat → InternalMsgNhMember
  nhcnt_le : nhcnt ≤ MAX_ECMP_ENTRY

theorem one_le_maxEcmpEntry : 1 ≤ MAX_ECMP_ENTRY := by decide

/-- `nexthop_hash_kernel_nh_id`: the id, widened to a pointer, hashed as two words. -/
def nexthopHashKernelNhId (key : Int) : UInt32 :=
  let p := (BitVec.ofInt 64 key).toNat
  jhash [UInt32.ofNat (p % 2 ^ 32), UInt32.ofNat (p / 2 ^ 32)] Jhash.seed

/-- `nexthop_eq_kernel_nh_id`. -/
def nexthopEqKernelNhId (a b : Int) : Bool := a == b

/-- The functions that `nexthop_init` hands to `nh_ht`. -/
def nexthopKeyOps : KeyOps Int where
  hashFn := nexthopHashKernelNhId
  keyEq := nexthopEqKernelNhId
  equiv := by
    simp only [nexthopEqKernelNhId, beq_iff_eq]
    exact eq_equivalence
  hashFn_congr a b h := by rw [show a = b by simpa [nexthopEqKernelNhId] using h]

/-- `rib_info->nexthop` and `nh_ht`. -/
structure NhState extends Nexthop where
  nhHt : HashTable nexthopKeyOps

/-- All zero, and `nexthop_init`. -/
def nexthopInit : NhState := ⟨.zero, hashTableInit nexthopKeyOps NEXTHOP_HASH_BUCKETS_SIZE⟩

namespace NhState

/-! ## Writes -/

def setGroup (s : NhState) (slot : Nat) (grp : NhGroup) : NhState :=
  { s with groups := Function.update s.groups slot grp }

def setInfo (s : NhState) (idx : Nat) (info : NhInfo) : NhState :=
  { s with infoPool := Function.update s.infoPool idx info }

/-- `groups[slot].members[i] = m` -/
def setMember (s : NhState) (slot i : Nat) (m : NhMember) : NhState :=
  s.setGroup slot { s.groups slot with members := Function.update (s.groups slot).members i m }

/-- `groups[slot].refcnt += d` -/
def addRef (s : NhState) (slot : Nat) (d : Int) : NhState :=
  s.setGroup slot { s.groups slot with refcnt := (s.groups slot).refcnt + d }

/-- `info_pool[idx].refcnt++` -/
def holdInfo (s : NhState) (idx : Nat) : NhState :=
  s.setInfo idx { s.infoPool idx with refcnt := (s.infoPool idx).refcnt + 1 }

/-- `memset (grp, 0, sizeof (*grp))` -/
def clearGroup (s : NhState) (slot : Nat) : NhState := s.setGroup slot .zero

end NhState

/-! ## The gateways -/

/-- The comparison that gateways are shared by. The type is not part of it. -/
def NhInfo.same (a b : NhInfo) : Bool :=
  decide (a.family = b.family) && decide (a.gw = b.gw) && decide (a.oif = b.oif)

/-- `_info_find`. -/
def infoFind (s : NhState) (src : NhInfo) : Option Nat :=
  (List.range MAX_NEXTHOP_INFO_SIZE).find? fun i =>
    decide (0 < (s.infoPool i).refcnt) && (s.infoPool i).same src

/-- `_info_alloc`. -/
def infoAlloc (s : NhState) (src : NhInfo) : Option (Nat × NhState) :=
  match infoFind s src with
  | some idx => some (idx, s.holdInfo idx)
  | none =>
    match Lib.ringScan MAX_NEXTHOP_INFO_SIZE s.infoTop
        fun i => decide ((s.infoPool i).refcnt ≤ 0) with
    | some i => some (i, { s.setInfo i { src with refcnt := 1 } with
        infoTop := (i + 1) % MAX_NEXTHOP_INFO_SIZE })
    | none => none

/-- `_info_release`. -/
def infoRelease (s : NhState) (idx : Int) : NhState :=
  if idx < 0 ∨ idx ≥ MAX_NEXTHOP_INFO_SIZE then s
  else
    let info := s.infoPool idx.toNat
    if info.refcnt - 1 ≤ 0 then s.setInfo idx.toNat .zero
    else s.setInfo idx.toNat { info with refcnt := info.refcnt - 1 }

/-! ## Finding groups -/

/-- `nexthop_get_index_by_nhid`. A value of `0`, the slot `0`, reads as `NULL`. -/
def nexthopGetIndexByNhid (s : NhState) (kernelNhId : Int) : Option Nat :=
  if kernelNhId = 0 then none
  else
    match s.nhHt.lookup kernelNhId with
    | 0 => none
    | v + 1 => some (v + 1)

/-- A member of a group, by its index into the pool, has the content of a message's member. -/
def memberMatch (s : NhState) (aidx : Int) (b : NhInfo) : Bool :=
  decide (0 ≤ aidx) && (s.infoPool aidx.toNat).same b

/-- The test in the scans for a group by its content. -/
def legacyMatch (s : NhState) (nh : InternalMsgNhEntry) (g : NhGroup) : Bool :=
  !(decide (g.nhcnt = 0) || decide (g.kernelNhId ≠ 0)) && decide (g.nhcnt = nh.nhcnt)
    && (List.range nh.nhcnt).all fun i =>
      memberMatch s (g.members i).infoIndex (nh.members i).info

/-- The scan for a group by its content, over the first `size` slots. -/
def legacyFind (size : Nat) (s : NhState) (nh : InternalMsgNhEntry) : Option Nat :=
  (List.range size).find? fun j => legacyMatch s nh (s.groups j)

/-- `_find_next_free_group_slot`. -/
def findNextFreeGroupSlot (s : NhState) (start : Nat) : Option Nat :=
  Lib.ringScan MAX_NEXTHOP_GRP_SIZE start fun i => decide ((s.groups i).nhcnt = 0)

/-! ## `nexthop_add_entry` -/

/-- The group that is there already, by kernel id or by content. -/
def findExisting (s : NhState) (nh : InternalMsgNhEntry) : Option Nat :=
  if nh.kernelNhId ≠ 0 then nexthopGetIndexByNhid s nh.kernelNhId
  else legacyFind MAX_NEXTHOP_GRP_SIZE s nh

/-- The slot for a new group. -/
def findSlot (s : NhState) : Option Nat :=
  if (s.groups s.groupsTop).nhcnt = 0 then some s.groupsTop
  else findNextFreeGroupSlot s s.groupsTop

/-- The head of the new group. Its members are filled in afterwards. -/
def reserve (s : NhState) (slot : Nat) (nh : InternalMsgNhEntry) : NhState :=
  s.setGroup slot { s.groups slot with
    sdplaneNhId := slot, kernelNhId := nh.kernelNhId, refcnt := 0, nhcnt := nh.nhcnt }

/-- Member `i` shares the first member's gateway of the group `refSlot`. -/
def shareMember (s : NhState) (slot i refSlot weight : Nat) : NhState :=
  let sharedIdx := ((s.groups refSlot).members 0).infoIndex
  let s := s.setMember slot i ⟨refSlot, sharedIdx, weight⟩
  let s := if sharedIdx ≥ 0 then s.holdInfo sharedIdx.toNat else s
  s.addRef refSlot 1

/-- Give up the gateway of `members[j]`, for `j < n`. -/
def releaseInfos (s : NhState) (slot n : Nat) : NhState :=
  Lib.forUpTo n (fun j s => infoRelease s ((s.groups slot).members j).infoIndex) s

/-- Give up the group that `members[j]` refers to and its gateway. -/
def releaseMember (slot j : Nat) (s : NhState) : NhState :=
  let m := (s.groups slot).members j
  let s := if m.refSdplaneNhId ≥ 0 then s.addRef m.refSdplaneNhId.toNat (-1) else s
  infoRelease s m.infoIndex

def releaseMembers (s : NhState) (slot n : Nat) : NhState :=
  Lib.forUpTo n (fun j s => releaseMember slot j s) s

/-- The entry that is added for one member of a multipath entry. -/
def standaloneEntry (member : InternalMsgNhMember) : InternalMsgNhEntry where
  kernelNhId := 0
  nhcnt := 1
  members := fun j => if j = 0 then member else .zero
  nhcnt_le := one_le_maxEcmpEntry

/-- One round of the loop that fills the members. Leaving the function with `-1` is an error
    that carries the state after the roll-back. -/
def populateMember (self : NhState → InternalMsgNhEntry → NhState × Option Nat)
    (nh : InternalMsgNhEntry) (slot i : Nat) (s : NhState) : Except NhState NhState :=
  let member := nh.members i
  if member.kernelNhId ≠ 0 then
    match nexthopGetIndexByNhid s member.kernelNhId with
    | none => .ok (s.setMember slot i ⟨-1, -1, member.weight⟩)
    | some refSlot => .ok (shareMember s slot i refSlot member.weight)
  else if nh.nhcnt > 1 ∧ nh.kernelNhId = 0 then
    match self s (standaloneEntry member) with
    | (s, none) => .error ((releaseMembers s slot i).clearGroup slot)
    | (s, some refSlot) => .ok (shareMember s slot i refSlot member.weight)
  else
    match infoAlloc s member.info with
    | none => .error ((releaseInfos s slot i).clearGroup slot)
    | some (infoIdx, s) => .ok (s.setMember slot i ⟨-1, infoIdx, member.weight⟩)

/-- The loop that fills the members. -/
def populate (self : NhState → InternalMsgNhEntry → NhState × Option Nat)
    (nh : InternalMsgNhEntry) (slot : Nat) (s : NhState) : Except NhState NhState :=
  Lib.forRange nh.nhcnt (fun i s => populateMember self nh slot i s) s

/-- Update the free-slot hint. -/
def updateHint (s : NhState) (slot : Nat) : NhState :=
  { s with groupsTop := (findNextFreeGroupSlot s slot).getD slot }

/-- The body of `nexthop_add_entry`, with the recursive call as a parameter. -/
def addEntryWith (self : NhState → InternalMsgNhEntry → NhState × Option Nat) (malloc : Bool)
    (s : NhState) (nh : InternalMsgNhEntry) : NhState × Option Nat :=
  match findExisting s nh with
  | some existing => (s, some existing)
  | none =>
    match findSlot s with
    | none => (s, none)
    | some slot =>
      match populate self nh slot (reserve s slot nh) with
      | .error s => (s, none)
      | .ok s =>
        let s := updateHint s slot
        if nh.kernelNhId ≠ 0 then
          match s.nhHt.insert malloc nh.kernelNhId slot with
          | none => ((releaseInfos s slot nh.nhcnt).clearGroup slot, none)
          | some ht => ({ s with nhHt := ht }, some slot)
        else (s, some slot)

/-- `nexthop_add_entry` for an entry that makes no recursive call. -/
def addStandalone (malloc : Bool) : NhState → InternalMsgNhEntry → NhState × Option Nat :=
  addEntryWith (fun s _ => (s, none)) malloc

/-- `nexthop_add_entry`. -/
def nexthopAddEntry (malloc : Bool) : NhState → InternalMsgNhEntry → NhState × Option Nat :=
  addEntryWith (addStandalone malloc) malloc

/-! ## `nexthop_del_entry` and the rest -/

/-- The slot that `nexthop_del_entry` frees. -/
def delSlot (s : NhState) (nh : InternalMsgNhEntry) : Option Nat :=
  if nh.kernelNhId ≠ 0 then nexthopGetIndexByNhid s nh.kernelNhId
  else legacyFind MAX_NEXTHOP_INFO_SIZE s nh

/-- `hash_table_remove (&nh_ht, nh->kernel_nh_id)`, whose result is not looked at. -/
def removeNhid (s : NhState) (kernelNhId : Int) : NhState :=
  { s with nhHt := (s.nhHt.remove kernelNhId).getD s.nhHt }

/-- The part of `nexthop_del_entry` that frees the slot. -/
def freeGroup (s : NhState) (slot : Nat) : NhState :=
  (releaseMembers s slot (s.groups slot).nhcnt).clearGroup slot

/-- `nexthop_del_entry`. -/
def nexthopDelEntry (s : NhState) (nh : InternalMsgNhEntry) : NhState × Option Nat :=
  match delSlot s nh with
  | none => (s, none)
  | some slot =>
    let s := if nh.kernelNhId ≠ 0 then removeNhid s nh.kernelNhId else s
    (freeGroup s slot, some slot)

/-- `nexthop_increment_refcnt` and, with `d = -1`, `nexthop_decrement_refcnt`. -/
def nexthopAddRefcnt (s : NhState) (sdplaneNhId : Int) (d : Int) : NhState :=
  if sdplaneNhId ≥ 0 ∧ sdplaneNhId < MAX_NEXTHOP_GRP_SIZE then s.addRef sdplaneNhId.toNat d else s

/-- `nexthop_increment_refcnt`. -/
def nexthopIncrementRefcnt (s : NhState) (sdplaneNhId : Int) : NhState :=
  nexthopAddRefcnt s sdplaneNhId 1

/-- `nexthop_decrement_refcnt`. -/
def nexthopDecrementRefcnt (s : NhState) (sdplaneNhId : Int) : NhState :=
  nexthopAddRefcnt s sdplaneNhId (-1)

/-- `nexthop_get_info_by_index`. -/
def nexthopGetInfoByIndex (nx : Nexthop) (sdplaneNhId : Int) : Option NhInfo :=
  if sdplaneNhId < 0 ∨ sdplaneNhId ≥ MAX_NEXTHOP_GRP_SIZE then none
  else
    let idx := ((nx.groups sdplaneNhId.toNat).members 0).infoIndex
    if idx < 0 then none else some (nx.infoPool idx.toNat)

end SdPlane
