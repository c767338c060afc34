import SdPlane.Headers
import SdPlane.Neigh
import SdPlane.NetlinkMultipath

/-!
# Attribute tables (`netlink_thread.c`)

Every reader of netlink messages has an array with a place for each type of attribute, and calls
`netlink_get_rtattr` with the array and, apart from it, with the largest type that it is to store.
The payload of an attribute is copied to a field afterwards, either as many bytes as the field has
or as many as the attribute has.

Here memory does not end, and what is written is checked: a store outside the array and a copy of
more bytes than the field has are the errors of an `Except`. A read at `NULL` is the third. Four
readers are modelled with all that they write, and `attribute_writes_inside_iff` says when they
overrun nothing. Where the one for routes does not, it says what the model of it says that knows of
no overruns (`netlinkReadNlmsgRoute_agrees`).
-/

set_option autoImplicit false

namespace SdPlane

/-! The numbers that the kernel's headers give. -/

def NDA_DST : Nat := 1
def NDA_LLADDR : Nat := 2
def NDA_MAX : Nat := 17
def RTM_NEWNEIGH : Nat := 28
def RTA_ENCAP_TYPE : Nat := 21
def RTA_ENCAP : Nat := 22
def LWTUNNEL_ENCAP_SEG6 : Nat := 5
def LWTUNNEL_ENCAP_SEG6_LOCAL : Nat := 7
def SEG6_IPTUNNEL_SRH : Nat := 1
def SEG6_IPTUNNEL_MAX : Nat := 1
def SEG6_LOCAL_ACTION : Nat := 1
def SEG6_LOCAL_SRH : Nat := 2
def SEG6_LOCAL_TABLE : Nat := 3
def SEG6_LOCAL_NH4 : Nat := 4
def SEG6_LOCAL_NH6 : Nat := 5
def SEG6_LOCAL_IIF : Nat := 6
def SEG6_LOCAL_OIF : Nat := 7
def SEG6_LOCAL_VRFTABLE : Nat := 9
def SEG6_LOCAL_MAX : Nat := 11

namespace Tables

/-- What goes wrong: a store outside an array, a copy that is too long, a read at `NULL`. -/
inductive TableFault
  | store (size type : Nat)
  | copy (size n : Nat)
  | nullPointer
deriving DecidableEq

/-- `rtas[type] = rta`, of an array of `size`. -/
def store (size : Nat) (rtas : Attrs) (type rta : Nat) : Except TableFault Attrs :=
  if type < size then .ok (Function.update rtas type (some rta)) else .error (.store size type)

/-- The bytes that a copy to a field from an old content leaves there. -/
def overwrite {k : Nat} (old : Vector UInt8 k) (bs : List UInt8) : Vector UInt8 k :=
  Vector.ofFn fun i => bs[i]?.getD old[i]

section

variable (mem : Nat → UInt8)

/-- `memcpy (dst, src, n)`, where `dst` has `size` bytes. -/
def memcpy (size src n : Nat) : Except TableFault (List UInt8) :=
  if n ≤ size then .ok (bytesFrom mem src n) else .error (.copy size n)

/-- An `int`. -/
def int32 (i : Nat) : Int := (BitVec.ofNat 32 (word mem i)).toInt

/-- `RTA_OK`. -/
def RtaOk (rta : Nat) (len : Int) : Prop :=
  4 ≤ len ∧ 4 ≤ half mem rta ∧ (half mem rta : Int) ≤ len

instance (rta : Nat) (len : Int) : Decidable (RtaOk mem rta len) :=
  inferInstanceAs (Decidable (_ ∧ _))

/-- What the loop does with an attribute. -/
def storeRta (size max : Nat) (rtas : Attrs) (rta : Nat) : Except TableFault Attrs :=
  if half mem (rta + 2) ≤ max then store size rtas (half mem (rta + 2)) rta else .ok rtas

/-- `netlink_get_rtattr`, with an array of `size`. -/
def netlinkGetRtattr (size max : Nat) : Nat → Nat → Int → Attrs → Except TableFault Attrs
  | 0, _, _, rtas => .ok rtas
  | fuel + 1, rta, len, rtas =>
    if RtaOk mem rta len then do
      let rtas ← storeRta mem size max rtas rta
      netlinkGetRtattr size max fuel (rta + align4 (half mem rta)) (len - align4 (half mem rta))
        rtas
    else .ok rtas

/-- The call of it with an empty array. -/
def attrTable (size max head : Nat) (len : Int) : Except TableFault Attrs :=
  netlinkGetRtattr mem size max len.toNat head len fun _ => none

/-! ## Neighbors -/

/-- The address of a neighbor and its table, by family. `stack` is what `msg_neigh_entry` holds
    before it is filled. -/
def neighAddr (stack : NeighEntry) (dst : Nat) : Except TableFault (Option (Nat × IpAddr)) :=
  if ((mem 16).toNat : Int) = AF_INET then do
    let ipv4Addr ← memcpy mem 4 (dst + 4) 4
    return some (NEIGH_ARP_TABLE, overwrite stack.ipAddr ipv4Addr)
  else if ((mem 16).toNat : Int) = AF_INET6 then do
    let ipv6Addr ← memcpy mem 16 (dst + 4) 16
    return some (NEIGH_ND_TABLE, overwrite stack.ipAddr ipv6Addr)
  else return none

/-- `netlink_read_nlmsg_neigh`: the message that is sent to the neighbor manager, if one is. -/
def netlinkReadNlmsgNeigh (stack : NeighEntry) : Except TableFault (Option NeighRequest) :=
  if word mem 0 < 36 then return none
  else do
    let rtns ← attrTable mem (NDA_MAX + 1) RTA_MAX 28 ((word mem 0 : Int) - 28)
    match rtns NDA_DST with
    | none => return none
    | some dst =>
      match ← neighAddr mem stack dst with
      | none => return none
      | some (type, ipAddr) =>
        let data := { stack with
          family := (mem 16).toNat
          state := UInt8.ofNat (half mem 24)
          ifindex := int32 mem 20
          ipAddr := ipAddr }
        if half mem 4 = RTM_NEWNEIGH then
          match rtns NDA_LLADDR with
          | none => return none
          | some lladdr =>
            let macAddr ← memcpy mem 6 (lladdr + 4) 6
            return some (.add type { data with macAddr := overwrite stack.macAddr macAddr })
        else return some (.del type data)

/-! ## Encapsulations -/

/-- `netlink_parse_seg6`: the place that `seg6_tuninfo` points to. -/
def netlinkParseSeg6 (rta : Nat) : Except TableFault (Option Nat) := do
  let rtas ← attrTable mem (SEG6_IPTUNNEL_MAX + 1) SEG6_IPTUNNEL_MAX (rta + 4)
    ((half mem rta : Int) - 4)
  return (rtas SEG6_IPTUNNEL_SRH).map (· + 4)

/-- `struct seg6local_param`. -/
structure Seg6localParam where
  action : Nat
  tableId : Nat
  vrfId : Nat
  nh4 : Vector UInt8 4
  nh6 : IpAddr
  iif : Int
  oif : Int
  srh : Option Nat

/-- A payload that is copied to an address of `k` bytes, if there is one. -/
def copyPayload (k : Nat) : Option Nat → Except TableFault (Vector UInt8 k)
  | none => return .replicate k 0
  | some rta => do
    let bs ← memcpy mem k (rta + 4) (half mem rta - 4)
    return overwrite (.replicate k 0) bs

/-- `netlink_parse_seg6local`. -/
def netlinkParseSeg6local (rta : Nat) : Except TableFault Seg6localParam := do
  let rtas ← attrTable mem (SEG6_LOCAL_MAX + 1) SEG6_LOCAL_MAX (rta + 4) ((half mem rta : Int) - 4)
  let nh4 ← copyPayload mem 4 (rtas SEG6_LOCAL_NH4)
  let nh6 ← copyPayload mem 16 (rtas SEG6_LOCAL_NH6)
  return {
    action := (rtas SEG6_LOCAL_ACTION).elim 0 fun rta => word mem (rta + 4)
    srh := (rtas SEG6_LOCAL_SRH).map (· + 4)
    tableId := (rtas SEG6_LOCAL_TABLE).elim 0 fun rta => word mem (rta + 4)
    nh4 := nh4
    nh6 := nh6
    iif := (rtas SEG6_LOCAL_IIF).elim 0 fun rta => int32 mem (rta + 4)
    oif := (rtas SEG6_LOCAL_OIF).elim 0 fun rta => int32 mem (rta + 4)
    vrfId := (rtas SEG6_LOCAL_VRFTABLE).elim 0 fun rta => word mem (rta + 4) }

/-- The part of `netlink_read_nlmsg_route` for `RTA_ENCAP`. What it reads is only logged. -/
def readEncap (rtns : Attrs) : Except TableFault Unit :=
  match rtns RTA_ENCAP with
  | none => return ()
  | some rta =>
    match rtns RTA_ENCAP_TYPE with
    | none => .error .nullPointer
    | some encapType =>
      if half mem (encapType + 4) = LWTUNNEL_ENCAP_SEG6 then do
        let _ ← netlinkParseSeg6 mem rta
      else if half mem (encapType + 4) = LWTUNNEL_ENCAP_SEG6_LOCAL then do
        let _ ← netlinkParseSeg6local mem rta
      else return ()

/-! ## Routes -/

/-- The type and the gateway of a next hop whose attributes are known. -/
def gatewayInfo (rtas : Attrs) (info : NhInfo) : Except TableFault NhInfo :=
  match rtas RTA_GATEWAY with
  | some rta => do
    let gw ← copyPayload mem 16 (some rta)
    return { info with gw := gw, type := .gateway }
  | none => return { info with gw := .zero, type := .connected }

/-- What the loop over the next hops does with one of them. -/
def readRtnexthop (family : Int) (rtnh : Nat) : Except TableFault InternalMsgNhMember :=
  let info : NhInfo := { NhInfo.zero with family := family, oif := word mem (rtnh + 4) }
  if 8 < half mem rtnh then do
    let rtnhRtns ← attrTable mem (RTA_MAX + 1) RTA_MAX (rtnh + 8) ((half mem rtnh : Int) - 8)
    let info ← gatewayInfo mem rtnhRtns info
    return { InternalMsgNhMember.zero with info := info }
  else return { InternalMsgNhMember.zero with info := info }

/-- The loop over the next hops. -/
def multipathLoop (family rtnhLen : Int) : Nat → Nat → Except TableFault (List InternalMsgNhMember)
  | 0, _ => return []
  | room + 1, rtnh =>
    if LooksLikeHop mem rtnh rtnhLen then do
      let member ← readRtnexthop mem family rtnh
      let members ← multipathLoop family rtnhLen room (rtnh + align4 (half mem rtnh))
      return member :: members
    else return []

/-- The part of `netlink_read_nlmsg_route` for `RTA_MULTIPATH`. -/
def readMultipath (family : Int) (rtns : Attrs) : Except TableFault InternalMsgNhEntry :=
  match rtns RTA_MULTIPATH with
  | none => return nhEntry []
  | some rta => do
    let members ← multipathLoop mem family ((half mem rta : Int) - 4) MAX_ECMP_ENTRY (rta + 4)
    return nhEntry members

/-- The part for a single next hop. -/
def readSingle (family : Int) (rtns : Attrs) (nh : InternalMsgNhEntry) :
    Except TableFault InternalMsgNhEntry :=
  if (rtns RTA_GATEWAY).isSome ∨ (rtns RTA_OIF).isSome then do
    let info ← gatewayInfo mem rtns { (nh.members 0).info with family := family }
    return {
      kernelNhId := nh.kernelNhId
      nhcnt := 1
      members := Function.update nh.members 0
        { nh.members 0 with
          kernelNhId := 0
          info := { info with oif := (rtns RTA_OIF).elim 0 fun rta => word mem (rta + 4) } }
      nhcnt_le := one_le_maxEcmpEntry }
  else return nh

/-- `netlink_read_nlmsg_route`, with the attributes, up to what is sent. -/
def routeEntry (rtns : Attrs) : Except TableFault InternalMsgRouteEntry := do
  let dst ← copyPayload mem 16 (rtns RTA_DST)
  let nh ← readMultipath mem (mem 16).toNat rtns
  let nh ← readSingle mem (mem 16).toNat rtns nh
  readEncap mem rtns
  return {
    family := (mem 16).toNat
    tableId := (mem 20).toNat
    dst := { family := (mem 16).toNat, dstIpAddr := dst, plen := (mem 17).toNat }
    isNhid := (rtns RTA_NH_ID).isSome
    nh := { nh with kernelNhId := (rtns RTA_NH_ID).elim 0 fun rta => int32 mem (rta + 4) } }

/-- `netlink_read_nlmsg_route`: the message that is sent to the RIB manager, if one is. -/
def netlinkReadNlmsgRoute : Except TableFault (Option RoutingMsg) :=
  if word mem 0 < 28 then return none
  else do
    let rtns ← attrTable mem (RTA_MAX + 1) RTA_MAX 28 ((word mem 0 : Int) - 28)
    if ((mem 20).toNat : Int) ≠ RT_TABLE_MAIN then return none
    else if rtns RTA_DST = none ∧ (mem 17).toNat ≠ 0 then return none
    else do
      let msg ← routeEntry mem rtns
      if half mem 4 = RTM_NEWROUTE then return some (.routeEntryAdd msg)
      else if half mem 4 = RTM_DELROUTE then return some (.routeEntryDel msg)
      else return none

/-! ## The attributes of a message -/

/-- The places of the attributes that the walk over `len` bytes from `rta` on meets. -/
def attrPlaces : Nat → Nat → Int → List Nat
  | 0, _, _ => []
  | fuel + 1, rta, len =>
    if RtaOk mem rta len then
      rta :: attrPlaces fuel (rta + align4 (half mem rta)) (len - align4 (half mem rta))
    else []

def attrsFrom (head : Nat) (len : Int) : List Nat := attrPlaces mem len.toNat head len

/-- The attributes of the message. -/
def messagePlaces : List Nat := attrsFrom mem 28 ((word mem 0 : Int) - 28)

/-- The attributes in the payload of another. -/
def nestedPlaces (rta : Nat) : List Nat := attrsFrom mem (rta + 4) ((half mem rta : Int) - 4)

/-- The last attribute of a type. -/
def lastOfType (type : Nat) (ps : List Nat) : Option Nat :=
  ps.reverse.find? fun p => half mem (p + 2) = type

/-- The array that `netlink_get_rtattr` fills. -/
def tableOf (max : Nat) (ps : List Nat) : Attrs :=
  fun type => if type ≤ max then lastOfType mem type ps else none

/-- The payload of the last attribute of a type has at most `size` bytes. -/
def PayloadFits (size type : Nat) (ps : List Nat) : Prop :=
  ∀ p, lastOfType mem type ps = some p → half mem p - 4 ≤ size

/-- The next hops that the loop looks at. -/
def hopPlaces (rtnhLen : Int) : Nat → Nat → List Nat
  | 0, _ => []
  | room + 1, rtnh =>
    if LooksLikeHop mem rtnh rtnhLen then
      rtnh :: hopPlaces rtnhLen room (rtnh + align4 (half mem rtnh))
    else []

/-- The attributes of a next hop. -/
def rtnhPlaces (rtnh : Nat) : List Nat := attrsFrom mem (rtnh + 8) ((half mem rtnh : Int) - 8)

/-! ## When nothing is overrun -/

/-- No attribute of the message has a type that the array has no place for. -/
def NeighFits : Prop :=
  36 ≤ word mem 0 → ∀ p ∈ messagePlaces mem, half mem (p + 2) ≤ RTA_MAX → half mem (p + 2) ≤ NDA_MAX

/-- The addresses of the encapsulation have the size of an address, at most. -/
def Seg6localFits (rta : Nat) : Prop :=
  PayloadFits mem 4 SEG6_LOCAL_NH4 (nestedPlaces mem rta)
    ∧ PayloadFits mem 16 SEG6_LOCAL_NH6 (nestedPlaces mem rta)

/-- So have the gateways of the next hops that the loop looks at. -/
def HopsFit (rta : Nat) : Prop :=
  ∀ p ∈ hopPlaces mem ((half mem rta : Int) - 4) MAX_ECMP_ENTRY (rta + 4),
    8 < half mem p → PayloadFits mem 16 RTA_GATEWAY (rtnhPlaces mem p)

/-- The message is about the main table, and has a destination. -/
structure RouteRead : Prop where
  long : 28 ≤ word mem 0
  table : ((mem 20).toNat : Int) = RT_TABLE_MAIN
  dst : lastOfType mem RTA_DST (messagePlaces mem) = none → (mem 17).toNat = 0

/-- The destination, the gateways and the addresses of an encapsulation are not too long. -/
structure RouteFits : Prop where
  dst : PayloadFits mem 16 RTA_DST (messagePlaces mem)
  multipath : ∀ rta, lastOfType mem RTA_MULTIPATH (messagePlaces mem) = some rta → HopsFit mem rta
  gateway : PayloadFits mem 16 RTA_GATEWAY (messagePlaces mem)
  encap : ∀ rta encapType, lastOfType mem RTA_ENCAP (messagePlaces mem) = some rta →
    lastOfType mem RTA_ENCAP_TYPE (messagePlaces mem) = some encapType →
    half mem (encapType + 4) = LWTUNNEL_ENCAP_SEG6_LOCAL → Seg6localFits mem rta

end

/-- No store outside an array, and no copy that is too long. -/
def NoOverrun {α : Type} (r : Except TableFault α) : Prop :=
  ∀ fault, r = .error fault → fault = .nullPointer

/-- Nothing is read at `NULL`. -/
def NoNull {α : Type} (r : Except TableFault α) : Prop := r ≠ .error .nullPointer

section Rules

variable {α β : Type} {mem : Nat → UInt8}

@[simp] theorem noOverrun_ok (a : α) : NoOverrun (.ok a : Except TableFault α) := nofun

@[simp] theorem noOverrun_pure (a : α) : NoOverrun (pure a : Except TableFault α) := noOverrun_ok a

@[simp] theorem noOverrun_nullPointer : NoOverrun (.error .nullPointer : Except TableFault α) := by
  intro fault h
  exact (Except.error.inj h).symm

theorem noOverrun_bind {x : Except TableFault α} {f : α → Except TableFault β} :
    NoOverrun (x >>= f) ↔ NoOverrun x ∧ ∀ a, x = .ok a → NoOverrun (f a) := by
  cases x with
  | error fault =>
    show NoOverrun (.error fault) ↔ _
    constructor
    · intro h
      exact ⟨fun _ heq => h _ (congrArg Except.error (Except.error.inj heq)), nofun⟩
    · intro h _ heq
      exact h.1 _ (congrArg Except.error (Except.error.inj heq))
  | ok a =>
    show NoOverrun (f a) ↔ _
    constructor
    · intro h
      refine ⟨noOverrun_ok a, fun b heq => ?_⟩
      rw [← Except.ok.inj heq]
      exact h
    · intro h
      exact h.2 a rfl

/-- What is done afterwards depends on no result. -/
theorem noOverrun_bind_iff {x : Except TableFault α} {f : α → Except TableFault β} {Q : Prop}
    (hx : NoNull x) (hf : ∀ a, NoOverrun (f a) ↔ Q) :
    NoOverrun (x >>= f) ↔ NoOverrun x ∧ Q := by
  rw [noOverrun_bind]
  refine and_congr_right fun hok => ?_
  cases x with
  | error fault => exact absurd (congrArg Except.error (hok fault rfl)) hx
  | ok a =>
    constructor
    · exact fun h => (hf a).mp (h a rfl)
    · exact fun hQ b _ => (hf b).mpr hQ

theorem noOverrun_bind_pure {x : Except TableFault α} {g : α → β} :
    NoOverrun (x >>= fun a => pure (g a)) ↔ NoOverrun x := by
  rw [noOverrun_bind]
  exact and_iff_left fun _ _ => noOverrun_ok _

theorem noNull_ok (a : α) : NoNull (.ok a : Except TableFault α) := nofun

theorem noNull_bind {x : Except TableFault α} {f : α → Except TableFault β} (hx : NoNull x)
    (hf : ∀ a, NoNull (f a)) : NoNull (x >>= f) := by
  cases x with
  | error fault =>
    intro heq
    exact hx (congrArg Except.error (Except.error.inj heq))
  | ok a => exact hf a

/-- A result is known. -/
theorem ok_bind {x : Except TableFault α} {a : α} (h : x = .ok a) (f : α → Except TableFault β) :
    x >>= f = f a := by
  rw [h]
  rfl

@[simp] theorem noOverrun_memcpy {size src n : Nat} :
    NoOverrun (memcpy mem size src n) ↔ n ≤ size := by
  unfold memcpy
  split
  · next hle => exact iff_of_true (noOverrun_ok _) hle
  · next hle => exact iff_of_false (fun h => nomatch h _ rfl) hle

theorem noOverrun_storeRta {size max rta : Nat} {rtas : Attrs} :
    NoOverrun (storeRta mem size max rtas rta)
      ↔ (half mem (rta + 2) ≤ max → half mem (rta + 2) < size) := by
  unfold storeRta store
  split
  · next htype =>
    split
    · next hlt => exact iff_of_true (noOverrun_ok _) fun _ => hlt
    · next hlt => exact iff_of_false (fun h => nomatch h _ rfl) fun h => hlt (h htype)
  · next htype => exact iff_of_true (noOverrun_ok _) fun h => absurd h htype

theorem storeRta_ok {size max rta : Nat} {rtas : Attrs}
    (h : half mem (rta + 2) ≤ max → half mem (rta + 2) < size) :
    storeRta mem size max rtas rta = .ok (if half mem (rta + 2) ≤ max then
      Function.update rtas (half mem (rta + 2)) (some rta) else rtas) := by
  unfold storeRta store
  split
  · next htype => exact if_pos (h htype)
  · rfl

end Rules

/-! ## The walk -/

section Walk

variable {mem : Nat → UInt8} {size max : Nat}

theorem lastOfType_cons (type p : Nat) (ps : List Nat) : lastOfType mem type (p :: ps)
    = (lastOfType mem type ps).or (if half mem (p + 2) = type then some p else none) := by
  rw [lastOfType, List.reverse_cons, List.find?_append, lastOfType, List.find?_singleton]
  simp only [decide_eq_true_eq]

/-- Every attribute is stored under its type, unless the type is too large. -/
theorem netlinkGetRtattr_eq (fuel rta : Nat) (len : Int) (rtas : Attrs)
    (h : ∀ p ∈ attrPlaces mem fuel rta len, half mem (p + 2) ≤ max → half mem (p + 2) < size) :
    netlinkGetRtattr mem size max fuel rta len rtas = .ok fun type =>
      if type ≤ max then (lastOfType mem type (attrPlaces mem fuel rta len)).or (rtas type)
      else rtas type := by
  induction fuel generalizing rta len rtas with
  | zero => simp [netlinkGetRtattr, attrPlaces, lastOfType]
  | succ fuel ih =>
    rw [attrPlaces] at h
    rw [netlinkGetRtattr, attrPlaces]
    by_cases hok : RtaOk mem rta len
    · rw [if_pos hok] at h
      rw [if_pos hok, if_pos hok]
      obtain ⟨hhere, hrest⟩ := List.forall_mem_cons.mp h
      rw [ok_bind (storeRta_ok hhere), ih _ _ _ hrest]
      congr 1
      funext type
      rw [lastOfType_cons, Option.or_assoc]
      by_cases hmax : type ≤ max
      · rw [if_pos hmax, if_pos hmax]
        by_cases hsame : half mem (rta + 2) = type
        · subst hsame
          simp [hmax]
        · rw [if_neg hsame, Option.none_or]
          split
          · rw [Function.update_of_ne (Ne.symm hsame)]
          · rfl
      · rw [if_neg hmax, if_neg hmax]
        split
        · next hle =>
          have hne : type ≠ half mem (rta + 2) := fun heq => hmax (heq ▸ hle)
          rw [Function.update_of_ne hne]
        · rfl
    · rw [if_neg hok, if_neg hok]
      simp [lastOfType]

theorem noOverrun_netlinkGetRtattr (fuel rta : Nat) (len : Int) (rtas : Attrs) :
    NoOverrun (netlinkGetRtattr mem size max fuel rta len rtas)
      ↔ ∀ p ∈ attrPlaces mem fuel rta len, half mem (p + 2) ≤ max → half mem (p + 2) < size := by
  induction fuel generalizing rta len rtas with
  | zero => exact iff_of_true (noOverrun_ok _) nofun
  | succ fuel ih =>
    rw [netlinkGetRtattr, attrPlaces]
    by_cases hok : RtaOk mem rta len
    · rw [if_pos hok, if_pos hok, List.forall_mem_cons, noOverrun_bind, noOverrun_storeRta]
      simp only [ih]
      refine and_congr_right fun hhere => ⟨fun h => h _ (storeRta_ok hhere), fun h _ _ => h⟩
    · rw [if_neg hok, if_neg hok]
      exact iff_of_true (noOverrun_ok _) nofun

theorem noOverrun_attrTable {head : Nat} {len : Int} :
    NoOverrun (attrTable mem size max head len)
      ↔ ∀ p ∈ attrsFrom mem head len, half mem (p + 2) ≤ max → half mem (p + 2) < size :=
  noOverrun_netlinkGetRtattr ..

/-- An array with a place for each type up to the largest that is stored is enough. -/
theorem attrTable_eq {max head : Nat} {len : Int} :
    attrTable mem (max + 1) max head len = .ok (tableOf mem max (attrsFrom mem head len)) := by
  rw [attrTable, netlinkGetRtattr_eq _ _ _ _ fun _ _ => Nat.lt_succ_of_le]
  congr 1
  funext type
  rw [tableOf, attrsFrom, Option.or_none]

end Walk

/-! ## The readers -/

section Readers

variable {mem : Nat → UInt8}

theorem tableOf_of_le {max type : Nat} (h : type ≤ max) (ps : List Nat) :
    tableOf mem max ps type = lastOfType mem type ps := if_pos h

theorem noOverrun_copyPayload {k : Nat} {o : Option Nat} :
    NoOverrun (copyPayload mem k o) ↔ ∀ rta, o = some rta → half mem rta - 4 ≤ k := by
  cases o with
  | none => exact iff_of_true (noOverrun_ok _) nofun
  | some rta =>
    rw [copyPayload, noOverrun_bind, noOverrun_memcpy]
    constructor
    · rintro ⟨hle, -⟩ _ heq
      rwa [← Option.some.inj heq]
    · exact fun h => ⟨h rta rfl, fun _ _ => noOverrun_ok _⟩

theorem noNull_copyPayload (k : Nat) (o : Option Nat) :
    NoNull (copyPayload mem k o) := by
  cases o with
  | none => exact nofun
  | some rta =>
    refine noNull_bind ?_ fun _ => noNull_ok _
    unfold memcpy
    split
    · exact nofun
    · exact nofun

theorem noOverrun_neighAddr (stack : NeighEntry) (dst : Nat) :
    NoOverrun (neighAddr mem stack dst) := by
  unfold neighAddr
  split
  · exact noOverrun_bind.mpr ⟨noOverrun_memcpy.mpr (Nat.le_refl 4), fun _ _ => noOverrun_ok _⟩
  · split
    · exact noOverrun_bind.mpr ⟨noOverrun_memcpy.mpr (Nat.le_refl 16), fun _ _ => noOverrun_ok _⟩
    · exact noOverrun_ok _

/-- The copies of a neighbor fit, so only the array matters. -/
theorem noOverrun_netlinkReadNlmsgNeigh (stack : NeighEntry) :
    NoOverrun (netlinkReadNlmsgNeigh mem stack) ↔ NeighFits mem := by
  unfold netlinkReadNlmsgNeigh
  split
  · next hshort =>
    exact iff_of_true (noOverrun_ok _) fun hlong => absurd hshort (Nat.not_lt.mpr hlong)
  · next hlong =>
    rw [noOverrun_bind, noOverrun_attrTable]
    constructor
    · exact fun h _ p hp hle => Nat.le_of_lt_succ (h.1 p hp hle)
    · intro h
      have hlong := Nat.not_lt.mp hlong
      refine ⟨fun p hp hle => Nat.lt_succ_of_le (h hlong p hp hle), fun rtns _ => ?_⟩
      split
      · exact noOverrun_ok _
      · next dst hdst =>
        refine noOverrun_bind.mpr ⟨noOverrun_neighAddr stack dst, fun addr _ => ?_⟩
        split
        · exact noOverrun_ok _
        · next type ipAddr =>
          dsimp only
          split
          · split
            · exact noOverrun_ok _
            · next lladdr hlladdr =>
              exact noOverrun_bind.mpr
                ⟨noOverrun_memcpy.mpr (Nat.le_refl 6), fun _ _ => noOverrun_ok _⟩
          · exact noOverrun_ok _

theorem noOverrun_netlinkParseSeg6 (rta : Nat) : NoOverrun (netlinkParseSeg6 mem rta) := by
  rw [netlinkParseSeg6, ok_bind attrTable_eq]
  exact noOverrun_ok _

theorem noOverrun_netlinkParseSeg6local (rta : Nat) :
    NoOverrun (netlinkParseSeg6local mem rta) ↔ Seg6localFits mem rta := by
  rw [netlinkParseSeg6local, ok_bind attrTable_eq, tableOf_of_le (by decide),
    tableOf_of_le (by decide)]
  rw [noOverrun_bind_iff (noNull_copyPayload _ _) fun nh4 => noOverrun_bind_pure,
    noOverrun_copyPayload, noOverrun_copyPayload]
  exact Iff.rfl

theorem noOverrun_readEncap (rtns : Attrs) :
    NoOverrun (readEncap mem rtns) ↔ ∀ rta encapType, rtns RTA_ENCAP = some rta →
      rtns RTA_ENCAP_TYPE = some encapType →
      half mem (encapType + 4) = LWTUNNEL_ENCAP_SEG6_LOCAL → Seg6localFits mem rta := by
  unfold readEncap
  cases hrta : rtns RTA_ENCAP with
  | none => exact iff_of_true (noOverrun_ok _) nofun
  | some rta =>
    cases htype : rtns RTA_ENCAP_TYPE with
    | none => exact iff_of_true noOverrun_nullPointer nofun
    | some encapType =>
      dsimp only
      by_cases hseg6 : half mem (encapType + 4) = LWTUNNEL_ENCAP_SEG6
      · rw [if_pos hseg6]
        refine iff_of_true (noOverrun_bind.mpr ⟨noOverrun_netlinkParseSeg6 rta, fun _ _ =>
          noOverrun_ok _⟩) ?_
        rintro _ _ - heq hlocal
        rw [← Option.some.inj heq, hseg6] at hlocal
        exact absurd hlocal (by decide)
      · rw [if_neg hseg6]
        by_cases hlocal : half mem (encapType + 4) = LWTUNNEL_ENCAP_SEG6_LOCAL
        · rw [if_pos hlocal, noOverrun_bind, noOverrun_netlinkParseSeg6local]
          constructor
          · rintro ⟨hfits, -⟩ _ _ heq - -
            rwa [← Option.some.inj heq]
          · exact fun h => ⟨h rta encapType rfl rfl hlocal, fun _ _ => noOverrun_ok _⟩
        · rw [if_neg hlocal]
          refine iff_of_true (noOverrun_ok _) ?_
          rintro _ _ - heq hlocal'
          rw [← Option.some.inj heq] at hlocal'
          exact absurd hlocal' hlocal

/-! ## Next hops and routes -/

theorem noOverrun_gatewayInfo (rtas : Attrs) (info : NhInfo) :
    NoOverrun (gatewayInfo mem rtas info)
      ↔ ∀ rta, rtas RTA_GATEWAY = some rta → half mem rta - 4 ≤ 16 := by
  unfold gatewayInfo
  split
  · next rta hrta =>
    rw [noOverrun_bind_pure, noOverrun_copyPayload, hrta]
  · next hrta => exact iff_of_true (noOverrun_ok _) fun rta hrta' => nomatch hrta.symm.trans hrta'

theorem noNull_gatewayInfo (rtas : Attrs) (info : NhInfo) :
    NoNull (gatewayInfo mem rtas info) := by
  unfold gatewayInfo
  split
  · exact noNull_bind (noNull_copyPayload _ _) fun _ => noNull_ok _
  · exact nofun

theorem noOverrun_readRtnexthop (family : Int) (rtnh : Nat) :
    NoOverrun (readRtnexthop mem family rtnh)
      ↔ (8 < half mem rtnh → PayloadFits mem 16 RTA_GATEWAY (rtnhPlaces mem rtnh)) := by
  unfold readRtnexthop
  dsimp only
  split
  · next hattrs =>
    rw [ok_bind attrTable_eq, noOverrun_bind_pure, noOverrun_gatewayInfo, tableOf_of_le (by decide)]
    exact ⟨fun h _ => h, fun h => h hattrs⟩
  · next hnone => exact iff_of_true (noOverrun_ok _) fun hattrs => absurd hattrs hnone

theorem noNull_readRtnexthop (family : Int) (rtnh : Nat) :
    NoNull (readRtnexthop mem family rtnh) := by
  unfold readRtnexthop
  dsimp only
  split
  · rw [ok_bind attrTable_eq]
    exact noNull_bind (noNull_gatewayInfo _ _) fun _ => noNull_ok _
  · exact nofun

theorem noNull_multipathLoop (family len : Int) (room rtnh : Nat) :
    NoNull (multipathLoop mem family len room rtnh) := by
  induction room generalizing rtnh with
  | zero => exact nofun
  | succ room ih =>
    rw [multipathLoop]
    split
    · exact noNull_bind (noNull_readRtnexthop _ _) fun _ => noNull_bind (ih _) fun _ => noNull_ok _
    · exact nofun

theorem noOverrun_multipathLoop (family len : Int) (room rtnh : Nat) :
    NoOverrun (multipathLoop mem family len room rtnh) ↔ ∀ p ∈ hopPlaces mem len room rtnh,
      8 < half mem p → PayloadFits mem 16 RTA_GATEWAY (rtnhPlaces mem p) := by
  induction room generalizing rtnh with
  | zero => exact iff_of_true (noOverrun_ok _) nofun
  | succ room ih =>
    rw [multipathLoop, hopPlaces]
    split
    · rw [List.forall_mem_cons, ← noOverrun_readRtnexthop family, ← ih]
      refine noOverrun_bind_iff (noNull_readRtnexthop _ _) fun member => ?_
      rw [noOverrun_bind_pure]
    · exact iff_of_true (noOverrun_ok _) nofun

theorem noOverrun_readMultipath (family : Int) (rtns : Attrs) :
    NoOverrun (readMultipath mem family rtns)
      ↔ ∀ rta, rtns RTA_MULTIPATH = some rta → HopsFit mem rta := by
  unfold readMultipath
  split
  · next hnone => exact iff_of_true (noOverrun_ok _) fun rta hrta => nomatch hnone.symm.trans hrta
  · next rta hrta =>
    rw [noOverrun_bind_pure, noOverrun_multipathLoop]
    constructor
    · intro h _ heq
      rwa [← Option.some.inj (hrta.symm.trans heq)]
    · exact fun h => h rta hrta

theorem noNull_readMultipath (family : Int) (rtns : Attrs) :
    NoNull (readMultipath mem family rtns) := by
  unfold readMultipath
  split
  · exact nofun
  · exact noNull_bind (noNull_multipathLoop _ _ _ _) fun _ => noNull_ok _

theorem noOverrun_readSingle (family : Int) (rtns : Attrs) (nh : InternalMsgNhEntry) :
    NoOverrun (readSingle mem family rtns nh)
      ↔ ∀ rta, rtns RTA_GATEWAY = some rta → half mem rta - 4 ≤ 16 := by
  unfold readSingle
  split
  · rw [noOverrun_bind_pure, noOverrun_gatewayInfo]
  · next hnone =>
    refine iff_of_true (noOverrun_ok _) fun rta hrta => absurd (.inl ?_) hnone
    rw [hrta]
    rfl

theorem noNull_readSingle (family : Int) (rtns : Attrs) (nh : InternalMsgNhEntry) :
    NoNull (readSingle mem family rtns nh) := by
  unfold readSingle
  split
  · exact noNull_bind (noNull_gatewayInfo _ _) fun _ => noNull_ok _
  · exact fun h => by cases h

theorem noOverrun_routeEntry :
    NoOverrun (routeEntry mem (tableOf mem RTA_MAX (messagePlaces mem))) ↔ RouteFits mem := by
  have htype : ∀ {type : Nat}, type ≤ RTA_MAX → tableOf mem RTA_MAX (messagePlaces mem) type
      = lastOfType mem type (messagePlaces mem) := fun hle => tableOf_of_le hle _
  have hdst := @noOverrun_copyPayload mem 16 (tableOf mem RTA_MAX (messagePlaces mem) RTA_DST)
  have hmulti := @noOverrun_readMultipath mem (mem 16).toNat
    (tableOf mem RTA_MAX (messagePlaces mem))
  have hsingle := @noOverrun_readSingle mem (mem 16).toNat
    (tableOf mem RTA_MAX (messagePlaces mem))
  have hencap := @noOverrun_readEncap mem (tableOf mem RTA_MAX (messagePlaces mem))
  rw [htype (by decide)] at hdst hmulti hencap
  rw [htype (by decide)] at hencap
  simp only [htype (show RTA_GATEWAY ≤ RTA_MAX by decide)] at hsingle
  rw [routeEntry, htype (by decide)]
  rw [noOverrun_bind_iff (noNull_copyPayload _ _) fun dst =>
    noOverrun_bind_iff (noNull_readMultipath _ _) fun nh =>
      (noOverrun_bind_iff (noNull_readSingle _ _ _) fun nh' => noOverrun_bind_pure).trans
        (and_congr_left fun _ => hsingle nh)]
  rw [hdst, hmulti, hencap]
  constructor
  · rintro ⟨hdst, hmulti, hgw, hencap⟩
    exact ⟨hdst, hmulti, hgw, hencap⟩
  · exact fun h => ⟨h.dst, h.multipath, h.gateway, h.encap⟩

theorem noOverrun_netlinkReadNlmsgRoute :
    NoOverrun (netlinkReadNlmsgRoute mem) ↔ (RouteRead mem → RouteFits mem) := by
  unfold netlinkReadNlmsgRoute
  split
  · next hshort =>
    exact iff_of_true (noOverrun_ok _) fun h => absurd hshort (Nat.not_lt.mpr h.long)
  · next hlong =>
    rw [ok_bind attrTable_eq]
    have hdst : tableOf mem RTA_MAX (messagePlaces mem) RTA_DST
        = lastOfType mem RTA_DST (messagePlaces mem) := tableOf_of_le (by decide) _
    split
    · next htable => exact iff_of_true (noOverrun_ok _) fun h => absurd h.table htable
    · next htable =>
      split
      · next hnone =>
        refine iff_of_true (noOverrun_ok _) fun h => absurd (h.dst ?_) hnone.2
        rw [← hdst]
        exact hnone.1
      · next hsome =>
        have hread : RouteRead mem := by
          refine ⟨Nat.not_lt.mp hlong, not_not.mp htable, fun hnone => not_not.mp fun hlen => ?_⟩
          rw [← hdst] at hnone
          exact hsome ⟨hnone, hlen⟩
        rw [forall_prop_of_true hread, ← noOverrun_routeEntry, noOverrun_bind]
        refine and_iff_left fun msg _ => ?_
        split
        · exact noOverrun_ok _
        · split
          · exact noOverrun_ok _
          · exact noOverrun_ok _

end Readers

/-! ## The messages are the same

Where the reader of routes has a result here, it is the one that it has on memory without an end. -/

section Agree

variable {mem : Nat → UInt8}

theorem overwrite_replicate (bs : List UInt8) : overwrite (.replicate 16 0) bs = addrOf bs := by
  ext i hi
  simp [overwrite, addrOf]

theorem rtaAddr_agrees {rta : Nat} {v : IpAddr} (h : copyPayload mem 16 (some rta) = .ok v) :
    rtaAddr (.all mem) rta = some v := by
  obtain ⟨bs, hbs, hv⟩ := bind_ok h
  unfold memcpy at hbs
  split at hbs
  · next hle =>
    rw [← Except.ok.inj hv, ← Except.ok.inj hbs, overwrite_replicate]
    rw [rtaAddr, u16_all, Option.bind_eq_bind, Option.bind_some, copyAddr, if_pos hle, bytes_all,
      Option.map_some]
  · cases hbs

theorem gatewayInfo_agrees {rtas : Attrs} {info info' : NhInfo}
    (h : gatewayInfo mem rtas info = .ok info') :
    SdPlane.gatewayInfo (.all mem) rtas info = some info' := by
  rw [gatewayInfo] at h
  rw [SdPlane.gatewayInfo]
  cases hrta : rtas RTA_GATEWAY with
  | none =>
    rw [hrta] at h
    exact congrArg some (Except.ok.inj h)
  | some rta =>
    rw [hrta] at h
    obtain ⟨gw, hgw, hinfo⟩ := bind_ok h
    show (rtaAddr (.all mem) rta).map _ = _
    rw [rtaAddr_agrees hgw, Option.map_some]
    exact congrArg some (Except.ok.inj hinfo)

theorem netlinkGetRtattr_agrees {size max : Nat} (fuel rta : Nat) (len : Int) {rtas rtas' : Attrs}
    (h : netlinkGetRtattr mem size max fuel rta len rtas = .ok rtas') :
    SdPlane.netlinkGetRtattr (.all mem) max fuel rta len rtas = some rtas' := by
  induction fuel generalizing rta len rtas with
  | zero => exact congrArg some (Except.ok.inj h)
  | succ fuel ih =>
    rw [netlinkGetRtattr] at h
    rw [SdPlane.netlinkGetRtattr]
    simp only [u16_all, Option.bind_eq_bind, Option.bind_some]
    split at h
    · next hok =>
      obtain ⟨stored, hstored, hrest⟩ := bind_ok h
      have hfits := noOverrun_storeRta.mp (show NoOverrun (storeRta mem size max rtas rta) by
        rw [hstored]
        exact noOverrun_ok _)
      rw [storeRta_ok hfits] at hstored
      rw [if_pos hok.1, if_pos hok.2, Except.ok.inj hstored]
      exact ih _ _ hrest
    · next hok =>
      rw [Except.ok.inj h]
      split
      · next hlong => rw [if_neg fun hrta => hok ⟨hlong, hrta⟩]
      · rfl

theorem attrsIn_agrees {max head : Nat} {len : Int} :
    attrsIn (.all mem) max head len = some (tableOf mem max (attrsFrom mem head len)) :=
  netlinkGetRtattr_agrees _ _ _ attrTable_eq

theorem readRtnexthop_agrees {family : Int} {rtnh : Nat} {member : InternalMsgNhMember}
    (h : readRtnexthop mem family rtnh = .ok member) :
    SdPlane.readRtnexthop (.all mem) family rtnh = some member := by
  unfold readRtnexthop at h
  rw [SdPlane.readRtnexthop]
  simp only [u16_all, u32_all, Option.bind_eq_bind, Option.bind_some]
  dsimp only at h
  split at h
  · next hattrs =>
    rw [ok_bind attrTable_eq] at h
    obtain ⟨info, hinfo, hmember⟩ := bind_ok h
    rw [if_pos hattrs, attrsIn_agrees, Option.bind_some, gatewayInfo_agrees hinfo, Option.bind_some]
    exact congrArg some (Except.ok.inj hmember)
  · next hnone =>
    rw [if_neg hnone]
    exact congrArg some (Except.ok.inj h)

theorem multipathLoop_agrees {family len : Int} (room rtnh : Nat)
    {members : List InternalMsgNhMember} (h : multipathLoop mem family len room rtnh = .ok members) :
    SdPlane.multipathLoop (.all mem) family len room rtnh = some members := by
  have hhop : ∀ rtnh, rtnhOk (.all mem) rtnh len = some (decide (LooksLikeHop mem rtnh len)) := by
    intro rtnh
    rw [rtnhOk, u16_all, Option.map_some, Option.some.injEq, Bool.eq_iff_iff, Bool.and_eq_true,
      decide_eq_true_eq, decide_eq_true_eq, decide_eq_true_eq]
    exact Iff.rfl
  induction room generalizing rtnh members with
  | zero =>
    rw [SdPlane.multipathLoop, hhop]
    exact congrArg some (Except.ok.inj h)
  | succ room ih =>
    rw [multipathLoop] at h
    rw [SdPlane.multipathLoop, hhop]
    simp only [Option.bind_eq_bind, Option.bind_some, decide_eq_true_eq, u16_all]
    split at h
    · next hlooks =>
      obtain ⟨member, hmember, h⟩ := bind_ok h
      obtain ⟨rest, hrest, h⟩ := bind_ok h
      rw [if_pos hlooks, readRtnexthop_agrees hmember, Option.bind_some, ih _ hrest,
        Option.bind_some]
      exact congrArg some (Except.ok.inj h)
    · next hlooks =>
      rw [if_neg hlooks]
      exact congrArg some (Except.ok.inj h)

theorem readSingle_agrees {family : Int} {rtns : Attrs} {nh nh' : InternalMsgNhEntry}
    (h : readSingle mem family rtns nh = .ok nh') :
    SdPlane.readSingle (.all mem) family rtns nh = some nh' := by
  unfold readSingle at h
  unfold SdPlane.readSingle
  split at h
  · next hsome =>
    obtain ⟨info, hinfo, hnh⟩ := bind_ok h
    have hoif : (rtns RTA_OIF).elim (some 0) (fun rta => (Memory.all mem).u32 (rta + 4))
        = some ((rtns RTA_OIF).elim 0 fun rta => word mem (rta + 4)) := by
      cases rtns RTA_OIF with
      | none => rfl
      | some rta => rfl
    rw [if_pos hsome, gatewayInfo_agrees hinfo, hoif]
    exact congrArg some (Except.ok.inj hnh)
  · next hnone =>
    rw [if_neg hnone]
    exact congrArg some (Except.ok.inj h)

theorem routeNh_agrees {family : Int} {rtns : Attrs} {nh nh' : InternalMsgNhEntry}
    (hmulti : readMultipath mem family rtns = .ok nh)
    (hsingle : readSingle mem family rtns nh = .ok nh') :
    routeNh (.all mem) family rtns = some nh' := by
  rw [readMultipath] at hmulti
  rw [routeNh]
  cases hrta : rtns RTA_MULTIPATH with
  | none =>
    rw [hrta] at hmulti
    obtain rfl := Except.ok.inj hmulti
    exact readSingle_agrees hsingle
  | some rta =>
    rw [hrta] at hmulti
    obtain ⟨members, hmembers, hnh⟩ := bind_ok hmulti
    obtain rfl := Except.ok.inj hnh
    have hread : SdPlane.readMultipath (.all mem) family rta = some (nhEntry members) := by
      rw [SdPlane.readMultipath]
      simp only [u16_all, multipathLoop_agrees _ _ hmembers, Option.bind_eq_bind, Option.bind_some,
        Option.pure_def]
    show (SdPlane.readMultipath (.all mem) family rta).bind _ = _
    rw [hread, Option.bind_some]
    exact readSingle_agrees hsingle

theorem routeDst_agrees {rtns : Attrs} {dst : IpAddr}
    (h : copyPayload mem 16 (rtns RTA_DST) = .ok dst) : routeDst (.all mem) rtns = some dst := by
  rw [routeDst]
  cases hrta : rtns RTA_DST with
  | none =>
    rw [hrta] at h
    exact congrArg some (Except.ok.inj h)
  | some rta =>
    rw [hrta] at h
    exact rtaAddr_agrees h

theorem routeNhId_agrees (rtns : Attrs) : routeNhId (.all mem) rtns
    = some ((rtns RTA_NH_ID).elim 0 fun rta => int32 mem (rta + 4)) := by
  rw [routeNhId]
  cases rtns RTA_NH_ID with
  | none => rfl
  | some rta => rfl

/-- **The reader of routes that checks what it writes refines the one that does not.** -/
theorem netlinkReadNlmsgRoute_agrees {result : Option RoutingMsg}
    (h : netlinkReadNlmsgRoute mem = .ok result) :
    SdPlane.netlinkReadNlmsgRoute (.all mem) = some result := by
  unfold netlinkReadNlmsgRoute at h
  rw [SdPlane.netlinkReadNlmsgRoute]
  simp only [messageAttrs, u32_all, u16_all, u8_all, attrsIn_agrees, Option.bind_eq_bind,
    Option.bind_some]
  split at h
  · next hshort =>
    rw [if_pos hshort]
    exact congrArg some (Except.ok.inj h)
  · next hlong =>
    rw [ok_bind attrTable_eq] at h
    rw [if_neg hlong]
    split at h
    · next htable =>
      rw [if_pos htable]
      exact congrArg some (Except.ok.inj h)
    · next htable =>
      rw [if_neg htable]
      split at h
      · next hnone =>
        rw [if_pos hnone]
        exact congrArg some (Except.ok.inj h)
      · next hsome =>
        obtain ⟨msg, hmsg, h⟩ := bind_ok h
        obtain ⟨dst, hdst, hmsg⟩ := bind_ok hmsg
        obtain ⟨nh, hmulti, hmsg⟩ := bind_ok hmsg
        obtain ⟨nh', hsingle, hmsg⟩ := bind_ok hmsg
        obtain ⟨-, -, hmsg⟩ := bind_ok hmsg
        obtain rfl := Except.ok.inj hmsg
        rw [if_neg hsome, routeDst_agrees hdst, Option.bind_some, routeNh_agrees hmulti hsingle,
          Option.bind_some, routeNhId_agrees, Option.bind_some]
        split at h
        · next hnew =>
          rw [if_pos hnew]
          exact congrArg some (Except.ok.inj h)
        · next hnew =>
          rw [if_neg hnew]
          split at h
          · next hdel =>
            rw [if_pos hdel]
            exact congrArg some (Except.ok.inj h)
          · next hdel =>
            rw [if_neg hdel]
            exact congrArg some (Except.ok.inj h)

end Agree

/-! ## The four readers -/

/-- A call of one of them: of the first two for the message, of the others for an attribute. -/
inductive Reading
  | neigh (stack : NeighEntry)
  | route
  | seg6 (rta : Nat)
  | seg6local (rta : Nat)

/-- It writes inside its arrays and fields. -/
def WritesInside (mem : Nat → UInt8) : Reading → Prop
  | .neigh stack => NoOverrun (netlinkReadNlmsgNeigh mem stack)
  | .route => NoOverrun (netlinkReadNlmsgRoute mem)
  | .seg6 rta => NoOverrun (netlinkParseSeg6 mem rta)
  | .seg6local rta => NoOverrun (netlinkParseSeg6local mem rta)

/-- What it reads fits. -/
def Fits (mem : Nat → UInt8) : Reading → Prop
  | .neigh _ => NeighFits mem
  | .route => RouteRead mem → RouteFits mem
  | .seg6 _ => True
  | .seg6local rta => Seg6localFits mem rta

/-- **A reader writes inside its arrays and fields if and only if what it reads fits.** -/
theorem attribute_writes_inside_iff (mem : Nat → UInt8) (reading : Reading) :
    WritesInside mem reading ↔ Fits mem reading := by
  cases reading with
  | neigh stack => exact noOverrun_netlinkReadNlmsgNeigh stack
  | route => exact noOverrun_netlinkReadNlmsgRoute
  | seg6 rta => exact iff_true_intro (noOverrun_netlinkParseSeg6 rta)
  | seg6local rta => exact noOverrun_netlinkParseSeg6local rta

/-- A neighbor message with one attribute, of type 20. -/
def typeTwenty : Nat → UInt8 := fun i =>
  ([36, 0, 0, 0, 28, 0, 0, 0, 0, 0, 0, 0, 0, 0, 0, 0,
    2, 0, 0, 0, 3, 0, 0, 0, 2, 0, 0, 0,
    8, 0, 20, 0, 1, 0, 0, 0] : List UInt8).getD i 0

/-- The array for neighbors has no place for it. -/
theorem type_twenty_outside :
    ¬ ∀ (mem : Nat → UInt8) (reading : Reading), WritesInside mem reading := by
  intro hall
  have hwrite : netlinkReadNlmsgNeigh typeTwenty .zero = .error (.store 18 20) := by rfl
  cases hall typeTwenty (.neigh .zero) _ hwrite

end Tables

end SdPlane
