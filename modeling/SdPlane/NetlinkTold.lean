import SdPlane.NetlinkNews

/-!
# The readers tell what is announced

One section for each reader of `netlink_thread.c`, then the messages of a datagram, and what is
received until a dump ends.
-/

set_option autoImplicit false

namespace SdPlane

namespace Tables

/-! ## Neighbors -/

section Neighbors

variable {mem : Nat → UInt8} {stack : NeighEntry}

/-- The address is read by its family. -/
theorem neighAddr_eq {a : NlAddr} {dst : Nat} (hfamily : ((mem 16).toNat : Int) = a.family)
    (hdst : payloadAt mem dst = a.bytes) :
    neighAddr mem stack dst = .ok (some (a.table, overwrite stack.ipAddr a.bytes)) := by
  unfold neighAddr
  rw [hfamily]
  cases a with
  | v4 a =>
    rw [NlAddr.family, if_pos rfl, ok_bind (memcpy_payload hdst (by simp [NlAddr.bytes]))]
    rfl
  | v6 a =>
    rw [NlAddr.family, if_neg (by decide), if_pos rfl,
      ok_bind (memcpy_payload hdst (by simp [NlAddr.bytes]))]
    rfl

/-- The array has a place for each type that is announced. -/
theorem NeighNews.At.attrTable {n : NeighNews} {as : List (Nat × List UInt8)}
    (h : NeighNews.At mem n as) :
    attrTable mem (NDA_MAX + 1) RTA_MAX 28 ((word mem 0 : Int) - 28)
      = .ok (tableOf mem RTA_MAX (attrsFrom mem 28 ((word mem 0 : Int) - 28))) := by
  rw [Tables.attrTable, netlinkGetRtattr_eq]
  · congr 1
    funext type
    rw [tableOf, attrsFrom, Option.or_none]
  · intro rta hrta _
    obtain ⟨a, ha, htype⟩ := types_of_attrPlaces h.attributed.attrs _ rta hrta
    rw [htype]
    exact Nat.lt_succ_of_le (h.types a ha)

theorem neigh_told {n : NeighNews} {as : List (Nat × List UInt8)} (h : NeighNews.At mem n as) :
    ∃ request, netlinkReadNlmsgNeigh mem stack = .ok request
      ∧ n.Tells (request.map KernelMsg.neigh) := by
  have hlen : (word mem 0 : Int) - 28 = (word mem 0 : Int) - (28 : Nat) := rfl
  have hfits := lastOf_fits h.attributed.attrs h.dst
  have hlong := n.dst.length_bytes.1
  obtain ⟨dst, hdst, hpayload⟩ := h.attributed.some RTA_MAX NDA_DST hlen (by decide) h.dst
  have hentry : ∀ mac, n.Entry { stack with
      family := (mem 16).toNat
      state := UInt8.ofNat (half mem 24)
      ifindex := int32 mem 20
      ipAddr := overwrite stack.ipAddr n.dst.bytes
      macAddr := mac } := fun _ => ⟨h.family, h.ifindex, h.state, neighKey_overwrite _ _⟩
  rw [netlinkReadNlmsgNeigh, if_neg (by omega), ok_bind h.attrTable, hdst]
  simp only [neighAddr_eq h.family hpayload]
  show ∃ request, (if half mem 4 = RTM_NEWNEIGH then _ else _) = _ ∧ _
  rw [h.type]
  unfold NeighNews.Tells
  cases hgone : n.gone with
  | true =>
    exact ⟨_, if_neg (by decide), _, hentry _, rfl⟩
  | false =>
    simp only [Bool.false_eq_true, if_false, if_true]
    cases hlladdr : n.lladdr with
    | none =>
      rw [h.attributed.none RTA_MAX NDA_LLADDR hlen (by decide) (by rw [h.lladdr, hlladdr]; rfl)]
      exact ⟨_, rfl, rfl⟩
    | some mac =>
      obtain ⟨lladdr, hplace, hmac⟩ := h.attributed.some RTA_MAX NDA_LLADDR hlen (by decide)
        (by rw [h.lladdr, hlladdr]; rfl)
      rw [hplace]
      simp only [memcpy_payload hmac mac.length_toList]
      exact ⟨_, rfl, _, hentry _, overwrite_toList _ _, rfl⟩

end Neighbors

/-! ## Links and addresses -/

section Interfaces

variable {mem : Nat → UInt8} {ifIndextoname : Nat → CharBuf}

theorem link_told {n : LinkNews} {as : List (Nat × List UInt8)} (h : LinkNews.At mem n as) :
    netlinkReadNlmsgLink mem ifIndextoname = .ok (n.told ifIndextoname) := by
  have hlen : (word mem 0 : Int) - 32 = (word mem 0 : Int) - (32 : Nat) := rfl
  rw [netlinkReadNlmsgLink, if_neg (Nat.not_lt.mpr h.attributed.long), ok_bind attrTable_eq,
    LinkNews.told]
  cases haddress : n.address with
  | none =>
    rw [h.attributed.none IFLA_MAX IFLA_ADDRESS hlen (by decide) (by rw [h.address, haddress]; rfl)]
    rfl
  | some mac =>
    obtain ⟨address, hplace, hpayload⟩ := h.attributed.some IFLA_MAX IFLA_ADDRESS hlen
      (by decide) (by rw [h.address, haddress]; rfl)
    rw [hplace]
    dsimp only
    rw [ok_bind (memcpy_payload hpayload mac.length_toList), overwrite_toList, h.ifindex, h.type]
    cases n.gone <;> rfl

/-- The address is read by its family. -/
theorem ifAddr_eq {a : NlAddr} {address : Nat} (hfamily : ((mem 16).toNat : Int) = a.family)
    (haddress : payloadAt mem address = a.bytes) :
    ifAddr mem address = .ok (some (addrOf a.bytes)) := by
  unfold ifAddr
  rw [hfamily, ← overwrite_replicate]
  cases a with
  | v4 a =>
    rw [NlAddr.family, if_pos rfl, ok_bind (memcpy_payload haddress (by simp [NlAddr.bytes]))]
    rfl
  | v6 a =>
    rw [NlAddr.family, if_neg (by decide), if_pos rfl,
      ok_bind (memcpy_payload haddress (by simp [NlAddr.bytes]))]
    rfl

theorem addr_told {n : AddrNews} {as : List (Nat × List UInt8)} (h : AddrNews.At mem n as) :
    netlinkReadNlmsgAddr mem ifIndextoname = .ok (n.told ifIndextoname) := by
  have hlen : (word mem 0 : Int) - 24 = (word mem 0 : Int) - (24 : Nat) := rfl
  rw [netlinkReadNlmsgAddr, if_neg (Nat.not_lt.mpr h.attributed.long), ok_bind attrTable_eq,
    AddrNews.told]
  cases haddress : n.address with
  | none =>
    rw [h.attributed.none IFA_MAX IFA_ADDRESS hlen (by decide) (by rw [h.address, haddress]; rfl)]
    rfl
  | some a =>
    obtain ⟨address, hplace, hpayload⟩ := h.attributed.some IFA_MAX IFA_ADDRESS hlen
      (by decide) (by rw [h.address, haddress]; rfl)
    rw [hplace]
    dsimp only
    rw [ok_bind (ifAddr_eq (h.family a haddress) hpayload)]
    dsimp only
    rw [h.ifindex, h.family a haddress, h.linkScope, h.type]
    cases n.gone <;> rfl

end Interfaces

/-! ## Next hop objects -/

section Objects

variable {mem : Nat → UInt8}

/-- An entry is its id and its members. -/
theorem nhEntry_eq {nh : InternalMsgNhEntry} {members : List InternalMsgNhMember}
    (hmax : members.length ≤ MAX_ECMP_ENTRY) (hid : nh.kernelNhId = 0)
    (hcount : nh.nhcnt = members.length) (hmembers : ∀ i, nh.members i = members[i]?.getD .zero) :
    nh = nhEntry members := by
  obtain ⟨kernelNhId, nhcnt, ms, hle⟩ := nh
  obtain rfl : kernelNhId = 0 := hid
  obtain rfl : nhcnt = members.length := hcount
  obtain rfl : ms = fun i => members[i]?.getD .zero := funext hmembers
  rw [nhEntry]
  simp only [List.take_of_length_le hmax]

/-- The members of a group that lies in memory. -/
theorem groupMember_eq {members : List GroupHop} {grp : Nat}
    (h : bytesFrom mem grp (8 * members.length) = members.flatMap GroupHop.bytes) (i : Nat)
    (hi : i < members.length) : groupMember mem grp i = members[i].member := by
  induction members generalizing grp i with
  | nil => cases hi
  | cons m members ih =>
    have hbytes : m.bytes.length = 8 := by simp [GroupHop.bytes, le32]
    rw [List.length_cons, Nat.mul_succ, Nat.add_comm, bytesFrom_add, List.flatMap_cons] at h
    obtain ⟨hfirst, hrest⟩ := List.append_inj h (by rw [length_bytesFrom, hbytes])
    cases i with
    | zero =>
      have hid : bytesFrom mem grp 4 ++ bytesFrom mem (grp + 4) 4 = m.bytes :=
        (bytesFrom_add grp 4 4).symm.trans hfirst
      obtain ⟨hid, hweight⟩ := List.append_inj hid (by rw [length_bytesFrom]; rfl)
      have hweight : mem (grp + 4) = m.weight := (List.cons.inj hweight).1
      rw [groupMember, Nat.mul_zero, Nat.add_zero, int32, word_of_bytes hid, hweight]
      have hint : BitVec.ofNat 32 m.id.toNat = m.id.toBitVec := BitVec.eq_of_toNat_eq (by simp)
      rw [hint]
      rfl
    | succ i =>
      have hplace : grp + 8 * (i + 1) = grp + 8 + 8 * i := by omega
      rw [List.getElem_cons_succ, ← ih hrest i (Nat.lt_of_succ_lt_succ hi), groupMember, groupMember,
        hplace]

theorem readGroup_eq {members : List GroupHop} {rta : Nat}
    (h : payloadAt mem rta = members.flatMap GroupHop.bytes) :
    readGroup mem rta
      = if members.length > MAX_ECMP_ENTRY then none
        else some (nhEntry (members.map GroupHop.member)) := by
  have hlen : half mem rta - 4 = 8 * members.length := by
    rw [← length_payloadAt, h, List.length_flatMap, List.map_congr_left (g := fun _ => 8) fun m _ => by
      simp [GroupHop.bytes, le32], List.map_const', List.sum_replicate, smul_eq_mul, Nat.mul_comm]
  rw [payloadAt, hlen] at h
  have hcount : (half mem rta - 4) / 8 = members.length := by rw [hlen, Nat.mul_div_cancel_left _ (by omega)]
  unfold readGroup
  dsimp only
  split
  · next hmax =>
    rw [hcount] at hmax
    rw [if_neg (Nat.not_lt.mpr hmax)]
    refine congrArg some (nhEntry_eq (by rwa [List.length_map]) rfl (by rw [List.length_map]; exact hcount)
      fun i => ?_)
    dsimp only
    rw [hcount, List.getElem?_map]
    split
    · next hi => rw [List.getElem?_eq_getElem hi, groupMember_eq h i hi]; rfl
    · next hi => rw [List.getElem?_eq_none (Nat.not_lt.mp hi)]; rfl
  · next hmax =>
    rw [hcount] at hmax
    rw [if_pos (Nat.not_le.mp hmax)]

theorem readObject_eq {family : Int} {oif : Option UInt32} {gateway : Option NlAddr}
    {as : List (Nat × List UInt8)} (hattrs : Attributed mem 24 as)
    (hfamily : ((mem 16).toNat : Int) = family) (h : KindAt family as (.object oif gateway)) :
    readObject mem (tableOf mem NHA_MAX (attrsFrom mem 24 ((word mem 0 : Int) - 24)))
      = .ok (nhEntry [objectMember family oif gateway]) := by
  have hlen : (word mem 0 : Int) - 24 = (word mem 0 : Int) - (24 : Nat) := rfl
  obtain ⟨hgroup, hoif, hgateway, hsame⟩ := h
  have hinfo : readObjectGateway mem (tableOf mem NHA_MAX (attrsFrom mem 24 ((word mem 0 : Int) - 24)))
      { NhInfo.zero with family := family, oif := oif.elim 0 UInt32.toNat }
      = .ok (objectMember family oif gateway).info := by
    rw [readObjectGateway]
    cases gateway with
    | none => rw [hattrs.none NHA_MAX NHA_GATEWAY hlen (by decide) hgateway]; rfl
    | some gw =>
      obtain ⟨rta, hplace, hpayload⟩ := hattrs.some NHA_MAX NHA_GATEWAY hlen
        (by decide) hgateway
      have hgw : overwrite NhInfo.zero.gw gw.bytes = addrOf gw.bytes := overwrite_replicate _
      rw [hplace, hfamily, ← hsame gw rfl]
      dsimp only
      cases gw with
      | v4 a =>
        rw [NlAddr.family, if_pos rfl, ok_bind (memcpy_payload hpayload (by simp [NlAddr.bytes])), hgw]
        rfl
      | v6 a =>
        rw [NlAddr.family, if_neg (by decide), if_pos rfl,
          ok_bind (memcpy_payload hpayload (by simp [NlAddr.bytes])), hgw]
        rfl
  rw [readObject]
  dsimp only
  rw [hattrs.elim_word NHA_MAX NHA_OIF hlen (by decide) hoif, hfamily, ok_bind hinfo]
  refine congrArg Except.ok (nhEntry_eq one_le_maxEcmpEntry rfl rfl fun i => ?_)
  dsimp only
  cases i with
  | zero => rfl
  | succ i => rfl

theorem nexthop_told {n : NexthopNews} {as : List (Nat × List UInt8)} (h : NexthopNews.At mem n as) :
    netlinkReadNlmsgNexthop mem = .ok n.told := by
  have hlen : (word mem 0 : Int) - 24 = (word mem 0 : Int) - (24 : Nat) := rfl
  have hid : (tableOf mem NHA_MAX (attrsFrom mem 24 ((word mem 0 : Int) - 24)) NHA_ID).elim 0
      (fun rta => int32 mem (rta + 4)) = n.id.toBitVec.toInt :=
    @Attributed.elim_int _ _ _ _ h.attributed NHA_MAX NHA_ID hlen (by decide) (some n.id) h.id
  have hnew : ∀ nh : InternalMsgNhEntry,
      (if half mem 4 = RTM_NEWNEXTHOP then pure (some (RoutingMsg.nexthopEntryAdd nh))
        else if half mem 4 = RTM_DELNEXTHOP then pure (some (.nexthopEntryDel nh))
        else pure none : Except TableFault (Option RoutingMsg))
      = .ok (if n.gone then some (.nexthopEntryDel nh) else some (.nexthopEntryAdd nh)) := by
    intro nh
    rw [h.type]
    cases n.gone <;> rfl
  rw [netlinkReadNlmsgNexthop, if_neg (Nat.not_lt.mpr h.attributed.long), ok_bind attrTable_eq,
    NexthopNews.told]
  have hkind := h.kind
  cases hcase : n.kind with
  | object oif gateway =>
    rw [hcase] at hkind
    have hgroup : lastOf NHA_GROUP as = none := by cases hkind; assumption
    rw [h.attributed.none NHA_MAX NHA_GROUP hlen (by decide) hgroup]
    have hone : ¬(NexthopKind.members n.family (.object oif gateway)).length > MAX_ECMP_ENTRY :=
      Nat.not_lt.mpr one_le_maxEcmpEntry
    dsimp only
    rw [readObject_eq h.attributed h.family hkind, if_neg hone]
    refine Eq.trans ?_ (hnew _)
    show (if _ then _ else _) = _
    rw [hid]
    rfl
  | group members =>
    rw [hcase] at hkind
    obtain ⟨rta, hplace, hpayload⟩ : ∃ rta, tableOf mem NHA_MAX
        (attrsFrom mem 24 ((word mem 0 : Int) - 24)) NHA_GROUP = some rta
        ∧ payloadAt mem rta = members.flatMap GroupHop.bytes := by
      cases hkind with
      | group hgroup => exact h.attributed.some NHA_MAX NHA_GROUP hlen (by decide) hgroup
    rw [hplace]
    dsimp only
    rw [readGroup_eq hpayload, NexthopKind.members, List.length_map]
    split
    · rfl
    · refine Eq.trans ?_ (hnew _)
      show (if _ then _ else _) = _
      rw [hid]

end Objects

/-! ## Routes -/

section Routes

variable {mem : Nat → UInt8}

theorem copyPayload_eq {rta : Nat} {bs : List UInt8} (h : payloadAt mem rta = bs)
    (hsmall : bs.length ≤ 16) : copyPayload mem 16 (some rta) = .ok (addrOf bs) := by
  rw [← h, length_payloadAt] at hsmall
  rw [copyPayload, memcpy, if_pos hsmall, ok_bind rfl, overwrite_replicate, ← h]
  rfl

/-- The gateway, if there is one. -/
theorem gatewayInfo_eq {rtas : Attrs} {gateway : Option (List UInt8)}
    (h : (rtas RTA_GATEWAY).map (payloadAt mem) = gateway)
    (hsmall : ∀ gw, gateway = some gw → gw.length ≤ 16) (info : NhInfo) :
    gatewayInfo mem rtas info = .ok { info with
      type := if gateway.isSome then .gateway else .connected
      gw := addrOf (gateway.getD []) } := by
  subst h
  rw [gatewayInfo]
  cases hrta : rtas RTA_GATEWAY with
  | none =>
    simp [addrOf_nil]
    rfl
  | some rta =>
    dsimp only
    rw [ok_bind (copyPayload_eq rfl (hsmall _ (by rw [hrta]; rfl)))]
    rfl

theorem readRtnexthop_eq {stop p : Nat} {hop : Hop} (h : HopAt mem stop p hop) (family : Int) :
    readRtnexthop mem family p = .ok (hop.member family) := by
  obtain ⟨as, has, hgateway⟩ := h.attrs
  have hlong := h.long
  rw [readRtnexthop, Hop.member, h.oif]
  dsimp only
  split
  · next hattrs =>
    have hlast : (tableOf mem RTA_MAX (attrsFrom mem (p + 8) ((half mem p : Int) - 8)) RTA_GATEWAY).map
        (payloadAt mem) = lastOf RTA_GATEWAY as :=
      payload_of_attrs has (by push_cast; omega) (by decide)
    rw [ok_bind attrTable_eq, ok_bind (gatewayInfo_eq (hlast.trans hgateway.symm) h.small _)]
    rfl
  · next hnone =>
    have hno : hop.gateway = none := by
      cases has with
      | nil done => exact hgateway
      | cons long fits rest => omega
    rw [hno]
    exact congrArg Except.ok (by simp [addrOf_nil, NhInfo.zero, InternalMsgNhMember.zero])

/-- The loop reads the next hops, and stops behind the last one. -/
theorem multipathLoop_eq (family : Int) {stop p e : Nat} (room : Nat) (len : Int) {hops : List Hop}
    (h : HopList mem stop p hops e) (hlen : (stop : Int) - p ≤ len) (hroom : hops.length ≤ room)
    (hstops : hops.length = room ∨ ¬LooksLikeHop mem e len) :
    multipathLoop mem family len room p = .ok (hops.map (Hop.member family)) := by
  induction h generalizing room with
  | nil done =>
    cases room with
    | zero => rfl
    | succ room =>
      rw [multipathLoop, if_neg (hstops.resolve_left (by simp))]
      rfl
  | @cons p e hop hops first rest ih =>
    rw [List.length_cons] at hroom hstops
    obtain ⟨room, rfl⟩ : ∃ k, room = k + 1 := ⟨room - 1, by omega⟩
    have hlong := first.long
    have hfits := first.fits
    have hrest := ih room (by push_cast; omega) (by omega) (hstops.imp_left (by omega))
    rw [multipathLoop, if_pos ⟨hlong, by omega⟩, ok_bind (readRtnexthop_eq first family), ok_bind hrest]
    rfl

theorem copyPayload_of_fits {k type : Nat} {ps : List Nat} (h : PayloadFits mem k type ps) :
    ∃ v, copyPayload mem k (lastOfType mem type ps) = .ok v := by
  cases hlast : lastOfType mem type ps with
  | none => exact ⟨_, rfl⟩
  | some rta =>
    rw [copyPayload, memcpy, if_pos (h rta hlast)]
    exact ⟨_, rfl⟩

theorem netlinkParseSeg6local_of_fits {rta : Nat} (h : Seg6localFits mem rta) :
    ∃ param, netlinkParseSeg6local mem rta = .ok param := by
  obtain ⟨nh4, hnh4⟩ := copyPayload_of_fits h.1
  obtain ⟨nh6, hnh6⟩ := copyPayload_of_fits h.2
  rw [nestedPlaces] at hnh4 hnh6
  rw [netlinkParseSeg6local, ok_bind attrTable_eq, tableOf_of_le (by decide),
    tableOf_of_le (by decide), ok_bind hnh4, ok_bind hnh6]
  exact ⟨_, rfl⟩

/-- An encapsulation is read, and nothing is made of it. -/
theorem readEncap_eq (h : EncapFits mem) :
    readEncap mem (tableOf mem RTA_MAX (messagePlaces mem)) = .ok () := by
  unfold readEncap
  rw [tableOf_of_le (by decide), tableOf_of_le (by decide)]
  cases hrta : lastOfType mem RTA_ENCAP (messagePlaces mem) with
  | none => rfl
  | some rta =>
    obtain ⟨encapType, htype, hfits⟩ := h rta hrta
    rw [htype]
    dsimp only
    split
    · rw [netlinkParseSeg6, ok_bind attrTable_eq]
      rfl
    · split
      · next hlocal =>
        obtain ⟨param, hparam⟩ := netlinkParseSeg6local_of_fits (hfits hlocal)
        rw [ok_bind hparam]
        rfl
      · rfl

section Via

variable {as : List (Nat × List UInt8)} {via : RouteVia}

theorem payload_of_none {type : Nat} (h : Attributed mem 28 as) (htype : type ≤ RTA_MAX)
    (hlast : lastOf type as = none) : tableOf mem RTA_MAX (messagePlaces mem) type = none :=
  h.none RTA_MAX type rfl htype hlast

/-- The next hops that the message leads to. -/
theorem readVia_eq (family : Int) (hattrs : Attributed mem 28 as) (h : ViaAt mem as via) :
    ∃ nh, readMultipath mem family (tableOf mem RTA_MAX (messagePlaces mem)) = .ok nh
      ∧ readSingle mem family (tableOf mem RTA_MAX (messagePlaces mem)) nh
        = .ok (nhEntry (via.members family)) := by
  cases h with
  | nothing multipath gateway oif =>
    refine ⟨nhEntry [], ?_, ?_⟩
    · rw [readMultipath, payload_of_none hattrs (by decide) multipath]
      rfl
    · rw [readSingle, payload_of_none hattrs (by decide) gateway, payload_of_none hattrs (by decide) oif]
      rfl
  | @hop oif gateway some multipath gateway_at oif_at =>
    refine ⟨nhEntry [], ?_, ?_⟩
    · rw [readMultipath, payload_of_none hattrs (by decide) multipath]
      rfl
    · have hgateway : (tableOf mem RTA_MAX (messagePlaces mem) RTA_GATEWAY).map (payloadAt mem)
          = gateway.map NlAddr.bytes := (hattrs.payload rfl (by decide)).trans gateway_at
      have hoif : (tableOf mem RTA_MAX (messagePlaces mem) RTA_OIF).map (payloadAt mem) = oif.map le32 :=
        (hattrs.payload rfl (by decide)).trans oif_at
      have hword : (tableOf mem RTA_MAX (messagePlaces mem) RTA_OIF).elim 0 (fun rta => word mem (rta + 4))
          = oif.elim 0 UInt32.toNat := hattrs.elim_word RTA_MAX RTA_OIF rfl (by decide) oif_at
      have hsome : (tableOf mem RTA_MAX (messagePlaces mem) RTA_GATEWAY).isSome
          ∨ (tableOf mem RTA_MAX (messagePlaces mem) RTA_OIF).isSome := by
        have hgateway_some := congrArg Option.isSome hgateway
        have hoif_some := congrArg Option.isSome hoif
        rw [Option.isSome_map, Option.isSome_map] at hgateway_some hoif_some
        rw [hgateway_some, hoif_some]
        exact some.symm
      have hsmall : ∀ gw, gateway.map NlAddr.bytes = .some gw → gw.length ≤ 16 := by
        intro gw hgw
        obtain ⟨a, -, rfl⟩ := Option.map_eq_some_iff.mp hgw
        exact a.length_bytes.2
      rw [readSingle, if_pos hsome, ok_bind (gatewayInfo_eq hgateway hsmall _)]
      dsimp only
      rw [hword]
      refine congrArg Except.ok (nhEntry_eq one_le_maxEcmpEntry rfl rfl fun i => ?_)
      cases i with
      | zero => rfl
      | succ i => rfl
  | @multipath hops rta e gateway oif place encodes max stops =>
    refine ⟨nhEntry (hops.map (Hop.member family)), ?_, ?_⟩
    · rw [readMultipath, tableOf_of_le (by decide), place]
      dsimp only
      rw [ok_bind (multipathLoop_eq family MAX_ECMP_ENTRY ((half mem rta : Int) - 4) encodes
        (by push_cast; omega) max stops)]
      rfl
    · rw [readSingle, payload_of_none hattrs (by decide) gateway, payload_of_none hattrs (by decide) oif]
      rfl

theorem route_told {n : RouteNews} (h : RouteNews.At mem n as) :
    netlinkReadNlmsgRoute mem = .ok n.told := by
  have hplaces : attrsFrom mem 28 ((word mem 0 : Int) - 28) = messagePlaces mem := rfl
  have hdst : copyPayload mem 16 (tableOf mem RTA_MAX (messagePlaces mem) RTA_DST)
      = .ok (addrOf n.dst.bytes) := by
    rcases h.dst with hdst | ⟨hnone, -, hzero⟩
    · obtain ⟨rta, hplace, hpayload⟩ := h.attributed.some RTA_MAX RTA_DST rfl (by decide) hdst
      rw [← hplaces]
      exact (congrArg _ hplace).trans (copyPayload_eq hpayload n.dst.length_bytes.2)
    · rw [payload_of_none h.attributed (by decide) hnone, hzero]
      rfl
  have hnoDst : ¬(tableOf mem RTA_MAX (messagePlaces mem) RTA_DST = none ∧ (mem 17).toNat ≠ 0) := by
    rintro ⟨hnone, hplen⟩
    rcases h.dst with hdst | ⟨-, hzero, -⟩
    · obtain ⟨rta, hplace, -⟩ := h.attributed.some RTA_MAX RTA_DST rfl (by decide) hdst
      cases hplace.symm.trans hnone
    · exact hplen (h.plen.trans hzero)
  have hid : (tableOf mem RTA_MAX (messagePlaces mem) RTA_NH_ID).elim 0 (fun rta => int32 mem (rta + 4))
      = n.nhId.elim 0 fun id => id.toBitVec.toInt :=
    h.attributed.elim_int RTA_MAX RTA_NH_ID rfl (by decide) h.nhId
  have hidSome : (tableOf mem RTA_MAX (messagePlaces mem) RTA_NH_ID).isSome = n.nhId.isSome := by
    have hpayload : (tableOf mem RTA_MAX (messagePlaces mem) RTA_NH_ID).map (payloadAt mem)
        = n.nhId.map le32 := (h.attributed.payload rfl (by decide)).trans h.nhId
    have hsome := congrArg Option.isSome hpayload
    rwa [Option.isSome_map, Option.isSome_map] at hsome
  obtain ⟨nh, hmulti, hsingle⟩ := readVia_eq n.dst.family h.attributed h.via
  have hentry : routeEntry mem (tableOf mem RTA_MAX (messagePlaces mem)) = .ok n.entry := by
    rw [routeEntry, ok_bind hdst, h.family, ok_bind hmulti, ok_bind hsingle,
      ok_bind (readEncap_eq h.encap), h.tableId, h.plen, hid, hidSome]
    rfl
  rw [netlinkReadNlmsgRoute, if_neg (Nat.not_lt.mpr h.attributed.long), ok_bind attrTable_eq, hplaces,
    h.tableId, RouteNews.told]
  by_cases htable : (n.tableId : Int) ≠ RT_TABLE_MAIN
  · rw [if_pos htable, if_pos htable]
    rfl
  · rw [if_neg htable, if_neg htable, if_neg hnoDst, ok_bind hentry, h.type]
    cases n.gone <;> rfl

end Via

end Routes

/-! ## Datagrams -/

section Datagrams

variable {mem : Nat → UInt8} (ifIndextoname : Nat → CharBuf)

/-- A message goes to its reader, which tells what it announces. -/
theorem readNlmsg_tells {a : Announcement} (h : Announces mem a) (stack : NeighEntry) :
    ∃ sent, readNlmsg mem ifIndextoname stack = .ok sent ∧ a.Tells ifIndextoname sent := by
  unfold readNlmsg
  cases a with
  | neigh n =>
    obtain ⟨as, h⟩ := h
    have htype : half mem 4 = RTM_NEWNEIGH ∨ half mem 4 = RTM_DELNEIGH := by
      rw [h.type]
      cases n.gone <;> decide
    obtain ⟨request, hrequest, htells⟩ := @neigh_told mem stack n as h
    rw [if_pos htype, hrequest]
    exact ⟨_, rfl, htells⟩
  | route n =>
    obtain ⟨as, h⟩ := h
    rw [route_told h, h.type]
    cases n.gone <;> exact ⟨_, rfl, rfl⟩
  | nexthop n =>
    obtain ⟨as, h⟩ := h
    rw [nexthop_told h, h.type]
    cases n.gone <;> exact ⟨_, rfl, rfl⟩
  | link n =>
    obtain ⟨as, h⟩ := h
    rw [link_told h, h.type]
    cases n.gone <;> exact ⟨_, rfl, rfl⟩
  | addr n =>
    obtain ⟨as, h⟩ := h
    rw [addr_told h, h.type]
    cases n.gone <;> exact ⟨_, rfl, rfl⟩
  | done =>
    rw [show half mem 4 = NLMSG_DONE from h]
    exact ⟨_, rfl, rfl⟩
  | other =>
    have hother : half mem 4 ∉ NLMSG_DONE :: readTypes := h
    simp only [readTypes, List.mem_cons, List.not_mem_nil, or_false, not_or] at hother
    obtain ⟨-, hneigh, hneigh', hroute, hroute', hlink, hlink', haddr, haddr', hnexthop, hnexthop'⟩ := hother
    simp only [hneigh, hneigh', hroute, hroute', hlink, hlink', haddr, haddr', hnexthop, hnexthop', or_self,
      if_false]
    exact ⟨_, rfl, rfl⟩

/-- The end of a dump is seen. -/
theorem announces_done {a : Announcement} (h : Announces mem a) :
    decide (half mem 4 = NLMSG_DONE) = a.isDone := by
  cases a with
  | neigh n =>
    obtain ⟨as, h⟩ := h
    rw [h.type]
    cases n.gone <;> rfl
  | route n =>
    obtain ⟨as, h⟩ := h
    rw [h.type]
    cases n.gone <;> rfl
  | nexthop n =>
    obtain ⟨as, h⟩ := h
    rw [h.type]
    cases n.gone <;> rfl
  | link n =>
    obtain ⟨as, h⟩ := h
    rw [h.type]
    cases n.gone <;> rfl
  | addr n =>
    obtain ⟨as, h⟩ := h
    rw [h.type]
    cases n.gone <;> rfl
  | done => exact decide_eq_true h
  | other => exact decide_eq_false fun heq => h (heq ▸ List.mem_cons_self)

/-- The messages of a datagram, one after another. -/
theorem netlinkMessages_tells {buf : Nat → UInt8} {stop p : Nat} {as : List Announcement}
    (h : Datagram buf stop p as) (fuel : Nat) (hfuel : stop - p ≤ fuel) (stack : Nat → NeighEntry) :
    ∃ sent, List.Forall₂ (Announcement.Tells ifIndextoname) as sent
      ∧ netlinkMessages ifIndextoname buf fuel stack p ((stop : Int) - p)
        = .ok (sent.reduceOption, as.any Announcement.isDone) := by
  induction h generalizing fuel stack with
  | @nil p few =>
    refine ⟨[], .nil, ?_⟩
    cases fuel with
    | zero => rfl
    | succ fuel =>
      rw [netlinkMessages, if_neg fun hok => absurd hok.1 (by omega)]
      rfl
  | @cons p a as long fits first rest ih =>
    obtain ⟨fuel, rfl⟩ : ∃ k, fuel = k + 1 := ⟨fuel - 1, by omega⟩
    have halign := le_align4 (word buf p)
    have hlen : (stop : Int) - p - align4 (word buf p) = (stop : Int) - (p + align4 (word buf p) : Nat) := by
      omega
    obtain ⟨sent, hsent, htells⟩ := readNlmsg_tells ifIndextoname first (stack 0)
    obtain ⟨others, hothers, hread⟩ := ih fuel (by omega) fun n => stack (n + 1)
    refine ⟨sent :: others, .cons htells hothers, ?_⟩
    rw [netlinkMessages, if_pos ⟨by omega, long, by omega⟩, ok_bind hsent, announces_done first, hlen,
      ok_bind hread]
    cases sent <;> rfl

/-- **What is announced is told**: whatever datagrams are received, with the messages in them and the
    attributes in these in any order, up to the end of a dump one message is sent for each
    announcement that there is something to tell about, in order, and says what was announced. -/
theorem netlink_read_sends {received : List Received} {news : List (List Announcement)}
    (h : Carries received news) (stack : Nat → Nat → NeighEntry) :
    ∃ sent, List.Forall₂ (Announcement.Tells ifIndextoname) (untilDone news) sent
      ∧ netlinkRead ifIndextoname stack received = .ok sent.reduceOption := by
  induction h generalizing stack with
  | nil => exact ⟨[], .nil, rfl⟩
  | failed rest ih => exact ih stack
  | foreign foreign rest ih =>
    obtain ⟨sent, htells, hread⟩ := ih stack
    exact ⟨sent, htells, by rw [netlinkRead, if_pos foreign, hread]⟩
  | @kernel len buf as received news long holds rest ih =>
    obtain ⟨sent, htells, hread⟩ := netlinkMessages_tells ifIndextoname holds len (Nat.sub_le ..) (stack 0)
    obtain ⟨others, hothers, hrest⟩ := ih fun n => stack (n + 1)
    have hkernel : ¬(len = 0 ∨ true = false) := by
      rintro (hzero | hfalse)
      · omega
      · cases hfalse
    rw [netlinkRead, if_neg (not_not_intro rfl), if_neg hkernel]
    rw [Nat.cast_zero, sub_zero] at hread
    rw [ok_bind hread, untilDone]
    dsimp only
    by_cases hdone : as.any Announcement.isDone = true
    · rw [if_pos hdone, if_pos hdone]
      exact ⟨sent, htells, rfl⟩
    · rw [if_neg hdone, if_neg hdone, ok_bind hrest]
      exact ⟨sent ++ others, List.rel_append htells hothers, by rw [List.reduceOption_append]; rfl⟩

end Datagrams

end Tables

end SdPlane
