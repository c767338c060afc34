import SdPlane.Netlink

/-!
# Multipath attributes

`HopList mem stop p hops e` says that from place `p` on memory holds well-formed next hops, up to
`stop`, and that the last of them ends at `e`. The loop of `netlink_read_nlmsg_route` reads each of
them as it was encoded. What it does then is decided by bytes that are not the attribute's: it tests
whether the two bytes at `e` could be the length of a next hop, and since the length it compares
with is never counted down, many can. So the entry is exact only when there was no room for more or
these bytes say no, and the test itself is always one read too many.
-/

set_option autoImplicit false

namespace SdPlane

/-! ## Memory that does not end, and memory that does -/

/-- The number in two bytes, and in four. -/
def half (mem : Nat → UInt8) (i : Nat) : Nat := (mem i).toNat + 256 * (mem (i + 1)).toNat
def word (mem : Nat → UInt8) (i : Nat) : Nat := half mem i + 65536 * half mem (i + 2)

def bytesFrom (mem : Nat → UInt8) (i n : Nat) : List UInt8 :=
  (List.range n).map fun k => mem (i + k)

section

variable (mem : Nat → UInt8)

@[simp] theorem u8_all (i : Nat) : (Memory.all mem).u8 i = some (mem i).toNat := rfl

@[simp] theorem u16_all (i : Nat) : (Memory.all mem).u16 i = some (half mem i) := rfl

@[simp] theorem u32_all (i : Nat) : (Memory.all mem).u32 i = some (word mem i) := rfl

@[simp] theorem bytes_all (i n : Nat) : (Memory.all mem).bytes i n = some (bytesFrom mem i n) := by
  rw [Memory.bytes, bytesFrom]
  generalize List.range n = ks
  induction ks with
  | nil => rfl
  | cons k ks ih =>
    rw [List.mapM_cons, ih]
    rfl

theorem u16_cut_inside {stop i : Nat} (h : i + 2 ≤ stop) :
    (Memory.cut mem stop).u16 i = some (half mem i) := by
  have h0 : i < stop := by omega
  have h1 : i + 1 < stop := by omega
  simp [Memory.u16, Memory.u8, Memory.cut, h0, h1, half]

theorem u16_cut_outside {stop i : Nat} (h : stop ≤ i) : (Memory.cut mem stop).u16 i = none := by
  have h0 : ¬ i < stop := by omega
  simp [Memory.u16, Memory.u8, Memory.cut, h0]

end

/-! ## Well-formed attributes and next hops -/

/-- Attributes from `p` up to `stop`, each with its type and its payload. -/
inductive AttrList (mem : Nat → UInt8) (stop : Nat) : Nat → List (Nat × List UInt8) → Prop
  | nil {p : Nat} (done : stop ≤ p) : AttrList mem stop p []
  | cons {p : Nat} {as : List (Nat × List UInt8)} (long : 4 ≤ half mem p)
      (fits : p + half mem p ≤ stop) (rest : AttrList mem stop (p + align4 (half mem p)) as) :
      AttrList mem stop p ((half mem (p + 2), bytesFrom mem (p + 4) (half mem p - 4)) :: as)

/-- The payload of the last attribute of a type, which is the one that counts. -/
def lastOf (type : Nat) (as : List (Nat × List UInt8)) : Option (List UInt8) :=
  ((as.filter fun a => a.1 = type).getLast?).map Prod.snd

/-- What a next hop encodes. -/
structure Hop where
  oif : Nat
  gateway : Option (List UInt8)
deriving DecidableEq

/-- The next hop at `p` is well formed and encodes `hop`. -/
structure HopAt (mem : Nat → UInt8) (stop p : Nat) (hop : Hop) : Prop where
  long : 8 ≤ half mem p
  fits : p + half mem p ≤ stop
  oif : hop.oif = word mem (p + 4)
  attrs : ∃ as, AttrList mem (p + half mem p) (p + 8) as ∧ hop.gateway = lastOf RTA_GATEWAY as
  small : ∀ gw, hop.gateway = some gw → gw.length ≤ 16

/-- Next hops from `p` up to `stop`; the last one ends at `e`. -/
inductive HopList (mem : Nat → UInt8) (stop : Nat) : Nat → List Hop → Nat → Prop
  | nil {p : Nat} (done : stop ≤ p) : HopList mem stop p [] p
  | cons {p e : Nat} {hop : Hop} {hops : List Hop} (first : HopAt mem stop p hop)
      (rest : HopList mem stop (p + align4 (half mem p)) hops e) :
      HopList mem stop p (hop :: hops) e

/-- The member of the entry that a next hop stands for. -/
def Hop.member (family : Int) (hop : Hop) : InternalMsgNhMember :=
  { InternalMsgNhMember.zero with
    info := {
      NhInfo.zero with
      family := family
      oif := hop.oif
      type := if hop.gateway.isSome then .gateway else .connected
      gw := addrOf (hop.gateway.getD []) } }

theorem addrOf_nil : addrOf [] = .zero := by
  ext i hi
  simp [addrOf, IpAddr.zero]

theorem le_align4 (n : Nat) : n ≤ align4 n := by
  unfold align4
  omega

theorem lastOf_cons (type : Nat) (a : Nat × List UInt8) (as : List (Nat × List UInt8)) :
    lastOf type (a :: as) =
      (lastOf type as).or (if a.1 = type then some a.2 else none) := by
  rw [lastOf, lastOf, List.filter_cons]
  by_cases ha : a.1 = type
  · rw [if_pos (decide_eq_true ha), if_pos ha, List.getLast?_cons]
    cases (as.filter fun a => a.1 = type).getLast? <;> rfl
  · rw [if_neg (by simpa using ha), if_neg ha, Option.or_none]

/-! ## Reading a next hop -/

section

variable {mem : Nat → UInt8}

/-- The attributes that are found are the last ones of their types. -/
theorem netlinkGetRtattr_last (max fuel : Nat) {stop p : Nat} {as : List (Nat × List UInt8)}
    (h : AttrList mem stop p as) (hfuel : stop - p ≤ fuel) (rtas : Attrs) :
    ∃ found, netlinkGetRtattr (.all mem) max fuel p ((stop : Int) - p) rtas = some found ∧
      ∀ type ≤ max, (found type).map (fun q => bytesFrom mem (q + 4) (half mem q - 4)) =
        (lastOf type as).or
          ((rtas type).map fun q => bytesFrom mem (q + 4) (half mem q - 4)) := by
  induction h generalizing fuel rtas with
  | @nil p done =>
    refine ⟨rtas, ?_, fun type _ => by simp [lastOf]⟩
    cases fuel with
    | zero => rfl
    | succ fuel => rw [netlinkGetRtattr, if_neg (by omega)]
  | @cons p as long fits rest ih =>
    obtain ⟨fuel, rfl⟩ : ∃ k, fuel = k + 1 := ⟨fuel - 1, by omega⟩
    have halign := le_align4 (half mem p)
    obtain ⟨found, hfound, hlast⟩ := ih fuel (by omega)
      (if half mem (p + 2) ≤ max then Function.update rtas (half mem (p + 2)) (some p) else rtas)
    refine ⟨found, ?_, fun type htype => ?_⟩
    · have hlen : (stop : Int) - (p + align4 (half mem p) : Nat) =
          (stop : Int) - p - align4 (half mem p) := by omega
      rw [hlen] at hfound
      rw [netlinkGetRtattr, if_pos (by omega)]
      simp only [u16_all, Option.bind_eq_bind, Option.bind_some]
      rw [if_pos ⟨long, by omega⟩]
      exact hfound
    · rw [hlast type htype, lastOf_cons, Option.or_assoc]
      congr 1
      by_cases hsame : half mem (p + 2) = type
      · subst hsame
        rw [if_pos htype, if_pos rfl, Function.update_self]
        rfl
      · rw [if_neg hsame, Option.none_or]
        split
        · rw [Function.update_of_ne (Ne.symm hsame)]
        · rfl

/-- The gateway, if an attribute holds one. -/
theorem gatewayInfo_of {rtas : Attrs} {gateway : Option (List UInt8)}
    (h : (rtas RTA_GATEWAY).map (fun q => bytesFrom mem (q + 4) (half mem q - 4)) = gateway)
    (hsmall : ∀ gw, gateway = some gw → gw.length ≤ 16) (info : NhInfo) :
    gatewayInfo (.all mem) rtas info =
      some { info with
        type := if gateway.isSome then .gateway else .connected
        gw := addrOf (gateway.getD []) } := by
  subst h
  rw [gatewayInfo]
  cases hrta : rtas RTA_GATEWAY with
  | none => simp [addrOf_nil]
  | some rta =>
    have hlen : half mem rta - 4 ≤ 16 := by
      simpa [hrta, bytesFrom] using hsmall
    have hcopy : half mem rta ≤ 20 := by omega
    simp [rtaAddr, copyAddr, hcopy]

theorem readRtnexthop_hop {stop p : Nat} {hop : Hop} (h : HopAt mem stop p hop) (family : Int) :
    readRtnexthop (.all mem) family p = some (hop.member family) := by
  obtain ⟨as, has, hgateway⟩ := h.attrs
  have hlong := h.long
  rw [readRtnexthop, Hop.member, h.oif]
  simp only [u16_all, u32_all, Option.bind_eq_bind, Option.bind_some]
  split
  · next hattrs =>
    have hlen : ((p + half mem p : Nat) : Int) - ((p + 8 : Nat) : Int) = (half mem p : Int) - 8 := by
      omega
    obtain ⟨found, hfound, hlast⟩ := netlinkGetRtattr_last RTA_MAX ((half mem p : Int) - 8).toNat has
      (by omega) fun _ => none
    rw [hlen] at hfound
    have hgateway' := (hlast RTA_GATEWAY (by decide)).trans (Option.or_none.trans hgateway.symm)
    rw [attrsIn, hfound, Option.bind_some, gatewayInfo_of hgateway' h.small]
    rfl
  · next hnone =>
    have hno : hop.gateway = none := by
      cases has with
      | nil done => exact hgateway
      | cons long fits rest => omega
    rw [hno]
    rfl

/-! ## The loop -/

/-- The loop reads the next hops of the attribute, and goes on behind them. -/
theorem multipathLoop_hops (family : Int) {stop p e : Nat} (room : Nat) (len : Int)
    {hops : List Hop} (h : HopList mem stop p hops e) (hlen : (stop : Int) - p ≤ len) (hroom : hops.length ≤ room) :
    multipathLoop (.all mem) family len room p =
      (multipathLoop (.all mem) family len (room - hops.length) e).map
        (hops.map (Hop.member family) ++ ·) := by
  induction h generalizing room with
  | nil done => simp
  | @cons p e hop hops first rest ih =>
    rw [List.length_cons] at hroom
    obtain ⟨room, rfl⟩ : ∃ k, room = k + 1 := ⟨room - 1, by omega⟩
    have hlong := first.long
    have hfits := first.fits
    have hnext := ih room (by push_cast; omega) (by omega)
    have hok : rtnhOk (.all mem) p len = some true := by
      have hle : (half mem p : Int) ≤ len := by omega
      simp [rtnhOk, hlong, hle]
    rw [multipathLoop, hok]
    simp only [Option.bind_eq_bind, Option.bind_some, if_true, readRtnexthop_hop first, u16_all,
      hnext, List.length_cons, Nat.add_sub_add_right, List.map_cons, List.cons_append]
    cases multipathLoop (.all mem) family len (room - hops.length) e <;> rfl

/-- On memory that ends with the attribute, the last test reads behind the end. -/
theorem multipathLoop_cut (family : Int) {stop p e : Nat} (room : Nat) (len : Int)
    {hops : List Hop} (h : HopList mem stop p hops e) (hlen : (stop : Int) - p ≤ len) (hroom : hops.length ≤ room) :
    multipathLoop (.cut mem stop) family len room p = none := by
  induction h generalizing room with
  | nil done => cases room <;> simp [multipathLoop, rtnhOk, u16_cut_outside mem done]
  | @cons p e hop hops first rest ih =>
    rw [List.length_cons] at hroom
    obtain ⟨room, rfl⟩ : ∃ k, room = k + 1 := ⟨room - 1, by omega⟩
    have hlong := first.long
    have hfits := first.fits
    have hnext := ih room (by push_cast; omega) (by omega)
    have hread := u16_cut_inside mem (by omega : p + 2 ≤ stop)
    have hok : rtnhOk (.cut mem stop) p len = some true := by
      have hle : (half mem p : Int) ≤ len := by omega
      simp [rtnhOk, hread, hlong, hle]
    rw [multipathLoop, hok]
    simp [hread, hnext]

/-! ## The entry -/

/-- The entry holds the next hops, and no more. -/
structure NhIs (nh : InternalMsgNhEntry) (hops : List Hop) : Prop where
  nhcnt : nh.nhcnt = hops.length
  member : ∀ i (h : i < hops.length), (nh.members i).info.oif = hops[i].oif ∧
    (nh.members i).info.type = (if hops[i].gateway.isSome then .gateway else .connected) ∧
    (nh.members i).info.gw = addrOf (hops[i].gateway.getD [])

/-- The two bytes at `e` could be the length of a next hop, as far as the test can tell. -/
def LooksLikeHop (mem : Nat → UInt8) (e : Nat) (len : Int) : Prop :=
  8 ≤ half mem e ∧ (half mem e : Int) ≤ len

instance (mem : Nat → UInt8) (e : Nat) (len : Int) : Decidable (LooksLikeHop mem e len) :=
  inferInstanceAs (Decidable (_ ∧ _))

theorem nhIs_nhEntry {family : Int} {hops : List Hop} {more : List InternalMsgNhMember}
    (hmax : hops.length ≤ MAX_ECMP_ENTRY) :
    NhIs (nhEntry (hops.map (Hop.member family) ++ more)) hops ↔
      hops.length = MAX_ECMP_ENTRY ∨ more = [] := by
  constructor
  · intro h
    have hcount : min MAX_ECMP_ENTRY (hops.length + more.length) = hops.length := by
      simpa [nhEntry] using h.nhcnt
    refine or_iff_not_imp_left.mpr fun hroom => List.length_eq_zero_iff.mp ?_
    omega
  · intro h
    have htake : (hops.map (Hop.member family) ++ more).take MAX_ECMP_ENTRY =
        hops.map (Hop.member family) := by
      rcases h with hfull | rfl
      · exact List.take_left' (by simpa using hfull)
      · rw [List.append_nil, List.take_of_length_le (by simpa using hmax)]
    constructor
    · rw [nhEntry]
      simp only [htake, List.length_map]
    · intro i hi
      have hmember : (nhEntry (hops.map (Hop.member family) ++ more)).members i =
          hops[i].member family := by
        rw [nhEntry]
        simp only [htake, List.getElem?_map, List.getElem?_eq_getElem hi, Option.map_some,
          Option.getD_some]
      rw [hmember]
      exact ⟨rfl, rfl, rfl⟩

/-- The entry made of an attribute of `n` next hops is exact when there is no room for another, or
    what follows the attribute is not taken for one. -/
theorem readMultipath_iff {family : Int} {rta e : Nat} {hops : List Hop} {nh : InternalMsgNhEntry}
    (h : HopList mem (rta + half mem rta) (rta + 4) hops e) (hmax : hops.length ≤ MAX_ECMP_ENTRY)
    (hread : readMultipath (.all mem) family rta = some nh) :
    NhIs nh hops ↔
      hops.length = MAX_ECMP_ENTRY ∨ ¬ LooksLikeHop mem e ((half mem rta : Int) - 4) := by
  have hloop := multipathLoop_hops family MAX_ECMP_ENTRY ((half mem rta : Int) - 4) h
    (by push_cast; omega) hmax
  rw [readMultipath] at hread
  simp only [u16_all, Option.bind_eq_bind, Option.bind_some, hloop] at hread
  obtain ⟨members, hmembers, hnh⟩ := Option.bind_eq_some_iff.mp hread
  obtain ⟨more, hmore, rfl⟩ := Option.map_eq_some_iff.mp hmembers
  obtain rfl := Option.some.inj hnh
  rw [nhIs_nhEntry hmax]
  refine or_congr_right' fun hroom => ?_
  obtain ⟨room, hroom'⟩ : ∃ k, MAX_ECMP_ENTRY - hops.length = k + 1 :=
    ⟨MAX_ECMP_ENTRY - hops.length - 1, by omega⟩
  have htest : rtnhOk (.all mem) e ((half mem rta : Int) - 4) =
      some (decide (LooksLikeHop mem e ((half mem rta : Int) - 4))) := by
    rw [rtnhOk, u16_all, Option.map_some, Option.some.injEq, Bool.eq_iff_iff, Bool.and_eq_true,
      decide_eq_true_eq, decide_eq_true_eq, decide_eq_true_eq]
    exact Iff.rfl
  rw [hroom', multipathLoop, htest, Option.bind_eq_bind, Option.bind_some] at hmore
  by_cases hlooks : LooksLikeHop mem e ((half mem rta : Int) - 4)
  · rw [decide_eq_true hlooks, if_pos rfl] at hmore
    obtain ⟨member, -, hrest⟩ := Option.bind_eq_some_iff.mp hmore
    obtain ⟨thisLen, -, hrest⟩ := Option.bind_eq_some_iff.mp hrest
    obtain ⟨members, -, hcons⟩ := Option.bind_eq_some_iff.mp hrest
    obtain rfl := Option.some.inj hcons
    exact iff_of_false (List.cons_ne_nil _ _) (not_not_intro hlooks)
  · rw [decide_eq_false hlooks, if_neg (by simp)] at hmore
    obtain rfl := Option.some.inj hmore
    exact iff_of_true rfl hlooks

/-- The attribute cannot be read without reading behind it. -/
theorem readMultipath_cut {family : Int} {rta e : Nat} {hops : List Hop}
    (h : HopList mem (rta + half mem rta) (rta + 4) hops e) (hsome : hops ≠ [])
    (hmax : hops.length ≤ MAX_ECMP_ENTRY) :
    readMultipath (.cut mem (rta + half mem rta)) family rta = none := by
  have hlong : rta + 2 ≤ rta + half mem rta := by
    cases h with
    | nil done => exact absurd rfl hsome
    | cons first rest =>
      have := first.fits
      omega
  have hloop := multipathLoop_cut family MAX_ECMP_ENTRY ((half mem rta : Int) - 4) h
    (by push_cast; omega) hmax
  rw [readMultipath, u16_cut_inside mem hlong]
  simp [hloop]

end

/-! ## The message -/

def RoutingMsg.nh : RoutingMsg → InternalMsgNhEntry
  | .routeEntryAdd msg => msg.nh
  | .routeEntryDel msg => msg.nh
  | .nexthopEntryAdd msg => msg
  | .nexthopEntryDel msg => msg

/-- A message with a multipath attribute at `rta` that encodes `hops`, the last of which ends at `e`,
    and without a next hop of its own. Nothing is said of the bytes from `e` on. -/
structure MultipathMessage (mem : Nat → UInt8) (rta : Nat) (hops : List Hop) (e : Nat) : Prop where
  attrs : ∃ rtns, messageAttrs (.all mem) = some rtns ∧ rtns RTA_MULTIPATH = some rta ∧
    rtns RTA_GATEWAY = none ∧ rtns RTA_OIF = none
  encodes : HopList mem (rta + half mem rta) (rta + 4) hops e
  some : 1 ≤ hops.length
  max : hops.length ≤ MAX_ECMP_ENTRY

/-- A message goes to the RIB manager. -/
def Builds (mem : Nat → UInt8) : Prop :=
  ∃ msg, netlinkReadNlmsgRoute (.all mem) = some (some msg)

/-- A message goes to the RIB manager, with the encoded next hops and no others. -/
def BuildsExactly (mem : Nat → UInt8) (hops : List Hop) : Prop :=
  ∃ msg, netlinkReadNlmsgRoute (.all mem) = some (some msg) ∧ NhIs msg.nh hops

/-- The multipath attribute at `rta` is read without a look behind it. -/
def StaysInside (mem : Nat → UInt8) (rta : Nat) : Prop :=
  (readMultipath (.cut mem (rta + half mem rta)) (mem 16).toNat rta).isSome = true

/-- The next hops of a message are those of its multipath attribute. -/
theorem netlinkReadNlmsgRoute_nh {mem : Nat → UInt8} {rtns : Attrs} {rta : Nat} {msg : RoutingMsg}
    {hops : List Hop} (hattrs : messageAttrs (.all mem) = some rtns)
    (hmulti : rtns RTA_MULTIPATH = some rta) (hgw : rtns RTA_GATEWAY = none)
    (hoif : rtns RTA_OIF = none) (h : netlinkReadNlmsgRoute (.all mem) = some (some msg)) :
    ∃ nh, readMultipath (.all mem) (mem 16).toNat rta = some nh ∧
      (NhIs msg.nh hops ↔ NhIs nh hops) := by
  rw [netlinkReadNlmsgRoute] at h
  simp only [u32_all, u8_all, u16_all, hattrs, Option.bind_eq_bind, Option.bind_some] at h
  have hnext : routeNh (.all mem) (mem 16).toNat rtns =
      readMultipath (.all mem) (mem 16).toNat rta := by
    have hsingle : readSingle (.all mem) (mem 16).toNat rtns = some := by
      funext nh
      rw [readSingle, if_neg (by simp [hgw, hoif])]
    rw [routeNh, hmulti]
    simp only [hsingle, Option.bind_eq_bind, Option.bind_fun_some]
  rw [hnext] at h
  split at h
  · simp at h
  split at h
  · simp at h
  split at h
  · simp at h
  obtain ⟨dst, -, h⟩ := Option.bind_eq_some_iff.mp h
  obtain ⟨nh, hnh, h⟩ := Option.bind_eq_some_iff.mp h
  obtain ⟨kernelNhId, -, h⟩ := Option.bind_eq_some_iff.mp h
  refine ⟨nh, hnh, ?_⟩
  split at h
  · obtain rfl := Option.some.inj (Option.some.inj h)
    exact ⟨fun h => ⟨h.nhcnt, h.member⟩, fun h => ⟨h.nhcnt, h.member⟩⟩
  · split at h
    · obtain rfl := Option.some.inj (Option.some.inj h)
      exact ⟨fun h => ⟨h.nhcnt, h.member⟩, fun h => ⟨h.nhcnt, h.member⟩⟩
    · simp at h

/-- The entry is exact when there is no room for more next hops, or the bytes behind the last one are
    not taken for another; to find out, these bytes are read in any case. -/
theorem multipath_exact_iff (mem : Nat → UInt8) (rta e : Nat) (hops : List Hop)
    (hmsg : MultipathMessage mem rta hops e) :
    (BuildsExactly mem hops ↔ Builds mem ∧
      (hops.length = MAX_ECMP_ENTRY ∨ ¬ LooksLikeHop mem e ((half mem rta : Int) - 4))) ∧
    ¬ (BuildsExactly mem hops ∧ StaysInside mem rta) := by
  obtain ⟨rtns, hattrs, hmulti, hgw, hoif⟩ := hmsg.attrs
  refine ⟨⟨?_, ?_⟩, ?_⟩
  · rintro ⟨msg, hbuilt, hexact⟩
    obtain ⟨nh, hnh, hsame⟩ := netlinkReadNlmsgRoute_nh hattrs hmulti hgw hoif hbuilt
    exact ⟨⟨msg, hbuilt⟩, (readMultipath_iff hmsg.encodes hmsg.max hnh).mp (hsame.mp hexact)⟩
  · rintro ⟨⟨msg, hbuilt⟩, hstops⟩
    obtain ⟨nh, hnh, hsame⟩ := netlinkReadNlmsgRoute_nh hattrs hmulti hgw hoif hbuilt
    exact ⟨msg, hbuilt, hsame.mpr ((readMultipath_iff hmsg.encodes hmsg.max hnh).mpr hstops)⟩
  · rintro ⟨-, hinside⟩
    have hsome : hops ≠ [] := List.length_pos_iff.mp hmsg.some
    rw [StaysInside, readMultipath_cut hmsg.encodes hsome hmsg.max] at hinside
    cases hinside

/-! ## One message

A default route with one next hop, to interface 3, and a priority of 100 behind the multipath
attribute. The eight bytes of the priority are taken for a next hop to interface 100. -/

def priorityBehind : Nat → UInt8 := fun i =>
  ([48, 0, 0, 0, 24, 0, 0, 0, 0, 0, 0, 0, 0, 0, 0, 0,
    2, 0, 0, 0, 254, 0, 0, 0, 0, 0, 0, 0,
    12, 0, 9, 0, 8, 0, 0, 0, 3, 0, 0, 0,
    8, 0, 6, 0, 100, 0, 0, 0] : List UInt8).getD i 0

theorem priorityBehind_message : MultipathMessage priorityBehind 28 [⟨3, none⟩] 40 where
  attrs := by
    have hfound : (messageAttrs (.all priorityBehind)).map
        (fun rtns => (rtns RTA_MULTIPATH, rtns RTA_GATEWAY, rtns RTA_OIF)) =
        some (some 28, none, none) := by decide +kernel
    obtain ⟨rtns, hrtns, hvalues⟩ := Option.map_eq_some_iff.mp hfound
    simp only [Prod.mk.injEq] at hvalues
    exact ⟨rtns, hrtns, hvalues⟩
  encodes := by
    have hend : 28 + 4 + align4 (half priorityBehind (28 + 4)) = 40 := by decide +kernel
    have hrest : HopList priorityBehind (28 + half priorityBehind 28)
        (28 + 4 + align4 (half priorityBehind (28 + 4))) [] 40 := by
      rw [hend]
      exact .nil (by decide +kernel)
    exact .cons {
      long := by decide +kernel
      fits := by decide +kernel
      oif := by decide +kernel
      attrs := ⟨[], .nil (by decide +kernel), by decide +kernel⟩
      small := fun gw hgw => by cases hgw } hrest
  some := by decide
  max := by decide

theorem priorityBehind_read :
    (netlinkReadNlmsgRoute (.all priorityBehind)).map (Option.map fun msg => msg.nh.nhcnt) =
      some (some 2) := by decide +kernel

theorem priorityBehind_iff :
    (BuildsExactly priorityBehind [⟨3, none⟩] ↔ Builds priorityBehind ∧
      ([(⟨3, none⟩ : Hop)].length = MAX_ECMP_ENTRY ∨
        ¬ LooksLikeHop priorityBehind 40 ((half priorityBehind 28 : Int) - 4))) ∧
    ¬ (BuildsExactly priorityBehind [⟨3, none⟩] ∧ StaysInside priorityBehind 28) :=
  multipath_exact_iff priorityBehind 28 40 [⟨3, none⟩] priorityBehind_message

/-- So next hops are made up of what follows the attribute. -/
theorem multipath_not_exact :
    ¬ ∀ (mem : Nat → UInt8) (rta e : Nat) (hops : List Hop), MultipathMessage mem rta hops e →
      Builds mem → BuildsExactly mem hops ∧ StaysInside mem rta := by
  intro h
  obtain ⟨read, hread, hcount⟩ := Option.map_eq_some_iff.mp priorityBehind_read
  obtain ⟨msg, rfl, hcount⟩ := Option.map_eq_some_iff.mp hcount
  obtain ⟨⟨msg', hread', hexact⟩, -⟩ := h priorityBehind 28 40 [⟨3, none⟩] priorityBehind_message
    ⟨msg, hread⟩
  obtain rfl := Option.some.inj (Option.some.inj (hread.symm.trans hread'))
  have hone : msg.nh.nhcnt = 1 := hexact.nhcnt
  omega

end SdPlane
