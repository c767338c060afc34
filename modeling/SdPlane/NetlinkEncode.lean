import SdPlane.Lib.Buffer
import SdPlane.NetlinkTold

/-!
# Messages as the kernel writes them

`encode` writes an announcement with the attributes that it comes with: a header, the fixed part by
kind, and the attributes, each padded to four bytes. The attributes are given as a list, in the order
in which the kernel chooses to write them and with others that it adds; `Described` says that the
announcement is in them. Reading such messages back gives the announcements
(`netlink_round_trip`), whatever is left in the buffer behind them.

Three things are not written here. Reading a multipath attribute depends on what is behind it, an
encapsulation has attributes of its own, and an attribute of a neighbor above `NDA_MAX` would come to
lie outside the array that is there for them.
-/

set_option autoImplicit false

namespace SdPlane

open Lib (Lies lies_append lies_cons)

/-! ## Writing -/

def le16 (n : Nat) : List UInt8 := [UInt8.ofNat n, UInt8.ofNat (n / 256)]

/-- An attribute, with its type and its payload. -/
def rtattr (a : Nat × List UInt8) : List UInt8 :=
  le16 (4 + a.2.length) ++ le16 a.1 ++ a.2
    ++ List.replicate (align4 (4 + a.2.length) - (4 + a.2.length)) 0

def familyByte (family : Int) : UInt8 := UInt8.ofNat family.toNat

namespace Announcement

def type : Announcement → Nat
  | .neigh n => if n.gone then RTM_DELNEIGH else RTM_NEWNEIGH
  | .route n => if n.gone then RTM_DELROUTE else RTM_NEWROUTE
  | .nexthop n => if n.gone then RTM_DELNEXTHOP else RTM_NEWNEXTHOP
  | .link n => if n.gone then RTM_DELLINK else RTM_NEWLINK
  | .addr n => if n.gone then RTM_DELADDR else RTM_NEWADDR
  | .done => NLMSG_DONE
  -- `NLMSG_NOOP`
  | .other => 1

/-- `struct ndmsg`, `rtmsg`, `nhmsg`, `ifinfomsg`, `ifaddrmsg`. -/
def fixedPart : Announcement → List UInt8
  | .neigh n => [familyByte n.dst.family, 0, 0, 0] ++ le32 (UInt32.ofInt n.ifindex)
      ++ [n.state, 0, 0, 0]
  | .route n => [familyByte n.dst.family, UInt8.ofNat n.plen, 0, 0] ++ [UInt8.ofNat n.tableId, 0, 0, 0]
      ++ [0, 0, 0, 0]
  | .nexthop n => [familyByte n.family, 0, 0, 0] ++ [0, 0, 0, 0]
  | .link n => [0, 0, 0, 0] ++ le32 (UInt32.ofNat n.ifindex) ++ [0, 0, 0, 0] ++ [0, 0, 0, 0]
  | .addr n => [familyByte (n.address.elim AF_INET NlAddr.family), 0, 0,
      if n.linkScope then UInt8.ofNat RT_SCOPE_LINK else 0] ++ le32 (UInt32.ofNat n.ifindex)
  | .done => [0, 0, 0, 0]
  | .other => []

end Announcement

/-- What comes behind the length of a message. -/
def encodeRest (m : Announcement × List (Nat × List UInt8)) : List UInt8 :=
  le16 m.1.type ++ List.replicate 10 0 ++ m.1.fixedPart ++ m.2.flatMap rtattr

def encode (m : Announcement × List (Nat × List UInt8)) : List UInt8 :=
  le32 (UInt32.ofNat (4 + (encodeRest m).length)) ++ encodeRest m

/-- The attributes, of which the last of each type counts, describe what is announced. -/
def Described (as : List (Nat × List UInt8)) : Announcement → Prop
  | .neigh n => (∀ a ∈ as, a.1 ≤ NDA_MAX) ∧ (-2147483648 ≤ n.ifindex ∧ n.ifindex < 2147483648)
      ∧ lastOf NDA_DST as = some n.dst.bytes ∧ lastOf NDA_LLADDR as = n.lladdr.map Vector.toList
  -- a default route has no destination; in any memory, which no multipath attribute is
  | .route n => n.plen < 256 ∧ n.tableId < 256
      ∧ (lastOf RTA_DST as = some n.dst.bytes
        ∨ lastOf RTA_DST as = none ∧ n.plen = 0 ∧ addrOf n.dst.bytes = .zero)
      ∧ (∀ mem, Tables.ViaAt mem as n.via) ∧ lastOf RTA_NH_ID as = n.nhId.map le32
      ∧ lastOf RTA_ENCAP as = none
  | .nexthop n => (0 ≤ n.family ∧ n.family < 256) ∧ lastOf NHA_ID as = some (le32 n.id)
      ∧ Tables.KindAt n.family as n.kind
  | .link n => n.ifindex < 4294967296 ∧ lastOf IFLA_ADDRESS as = n.address.map Vector.toList
  | .addr n => n.ifindex < 4294967296 ∧ lastOf IFA_ADDRESS as = n.address.map NlAddr.bytes
  | .done | .other => as = []

/-- A message that can be written: its numbers fit in their fields. -/
structure Encodable (m : Announcement × List (Nat × List UInt8)) : Prop where
  described : Described m.2 m.1
  attrs : ∀ a ∈ m.2, a.1 < 65536 ∧ a.2.length < 65532
  small : (encode m).length < 4294967296

namespace Tables

/-! ## What lies in memory -/

section Lying

variable {mem : Nat → UInt8} {p : Nat}

theorem half_of_lies {n : Nat} (h : Lies mem p (le16 n)) (hn : n < 65536) : half mem p = n := by
  obtain ⟨h₀, h₁, -⟩ := h
  rw [half, h₀, h₁]
  simp only [UInt8.toNat_ofNat']
  omega

theorem bytesFrom_of_lies {bs : List UInt8} (h : Lies mem p bs) : bytesFrom mem p bs.length = bs :=
  h.slice_eq

theorem word_of_lies {n : UInt32} (h : Lies mem p (le32 n)) : word mem p = n.toNat :=
  word_of_bytes (bytesFrom_of_lies h)

theorem length_rtattr (a : Nat × List UInt8) : (rtattr a).length = align4 (4 + a.2.length) := by
  have := le_align4 (4 + a.2.length)
  simp only [rtattr, le16, List.length_append, List.length_cons, List.length_nil, List.length_replicate]
  omega

/-- Attributes that were written are there to be read. -/
theorem attrList_of_lies (as : List (Nat × List UInt8)) (h : Lies mem p (as.flatMap rtattr))
    (hsmall : ∀ a ∈ as, a.1 < 65536 ∧ a.2.length < 65532) :
    AttrList mem (p + (as.flatMap rtattr).length) p as := by
  induction as generalizing p with
  | nil => exact .nil (le_refl p)
  | cons a as ih =>
    rw [List.flatMap_cons, lies_append] at h
    obtain ⟨hfirst, hrest⟩ := h
    obtain ⟨htype, hpayload⟩ := hsmall a List.mem_cons_self
    rw [length_rtattr] at hrest
    rw [rtattr, lies_append, lies_append, lies_append] at hfirst
    obtain ⟨⟨⟨hlen, htypes⟩, hbytes⟩, -⟩ := hfirst
    have hhalf : half mem p = 4 + a.2.length := half_of_lies hlen (by omega)
    have htype : half mem (p + 2) = a.1 := half_of_lies htypes htype
    have hplaces : bytesFrom mem (p + 4) (half mem p - 4) = a.2 := by
      rw [hhalf, Nat.add_sub_cancel_left]
      exact bytesFrom_of_lies hbytes
    have halign := le_align4 (4 + a.2.length)
    have hothers := ih hrest fun b hb =>
      hsmall b (List.mem_cons_of_mem _ hb)
    have hstop : p + align4 (4 + a.2.length) + (as.flatMap rtattr).length
        = p + ((a :: as).flatMap rtattr).length := by
      rw [List.flatMap_cons, List.length_append, length_rtattr, Nat.add_assoc]
    rw [hstop] at hothers
    have hcons := @AttrList.cons mem (p + ((a :: as).flatMap rtattr).length) p as (by omega)
      (by rw [hhalf, ← hstop]; omega) (by rw [hhalf]; exact hothers)
    rwa [htype, hplaces] at hcons

end Lying

/-! ## Messages -/

section Messages

variable {mem : Nat → UInt8} {a : Announcement} {as : List (Nat × List UInt8)}

/-- What is where in a message. -/
structure Written (mem : Nat → UInt8) (a : Announcement) (as : List (Nat × List UInt8)) : Prop where
  length : word mem 0 = 16 + a.fixedPart.length + (as.flatMap rtattr).length
  type : half mem 4 = a.type
  fixed : Lies mem 16 a.fixedPart
  attrs : AttrList mem (word mem 0) (16 + a.fixedPart.length) as

theorem Announcement.type_lt (a : Announcement) : a.type < 65536 := by
  cases a with
  | neigh n => rw [Announcement.type]; split <;> decide
  | route n => rw [Announcement.type]; split <;> decide
  | nexthop n => rw [Announcement.type]; split <;> decide
  | link n => rw [Announcement.type]; split <;> decide
  | addr n => rw [Announcement.type]; split <;> decide
  | done => decide
  | other => decide

theorem length_encode (m : Announcement × List (Nat × List UInt8)) :
    (encode m).length = 16 + m.1.fixedPart.length + (m.2.flatMap rtattr).length := by
  simp only [encode, encodeRest, le32, le16, List.length_append, List.length_cons, List.length_nil,
    List.length_replicate]
  omega

theorem align4_of_dvd {n : Nat} (h : 4 ∣ n) : align4 n = n := by
  unfold align4
  omega

/-- Nothing is left over between messages. -/
theorem four_dvd_length_encode (m : Announcement × List (Nat × List UInt8)) :
    4 ∣ (encode m).length := by
  have hattrs : 4 ∣ (m.2.flatMap rtattr).length := by
    induction m.2 with
    | nil => exact Nat.dvd_zero 4
    | cons a as ih =>
      rw [List.flatMap_cons, List.length_append, length_rtattr, align4]
      omega
  have hfixed : 4 ∣ m.1.fixedPart.length := by
    cases m.1 <;> simp [Announcement.fixedPart, le32]
  rw [length_encode]
  omega

theorem written_of_lies (h : Lies mem 0 (encode (a, as))) (hencodable : Encodable (a, as)) :
    Written mem a as := by
  obtain ⟨hlen, hrest⟩ := lies_append.mp h
  have hsmall := hencodable.small
  have hlength : (encode (a, as)).length = 4 + (encodeRest (a, as)).length := List.length_append
  have hword : word mem 0 = 16 + a.fixedPart.length + (as.flatMap rtattr).length := by
    rw [word_of_lies hlen, UInt32.toNat_ofNat', ← hlength, Nat.mod_eq_of_lt hsmall, length_encode]
  replace hrest : Lies mem 4 (encodeRest (a, as)) := hrest
  obtain ⟨hhead, hattrs⟩ := lies_append.mp hrest
  obtain ⟨hhead, hfixed⟩ := lies_append.mp hhead
  have hplace : 4 + (le16 a.type ++ List.replicate 10 0 ++ a.fixedPart).length
      = 16 + a.fixedPart.length := by
    simp only [le16, List.length_append, List.length_cons, List.length_nil, List.length_replicate]
    omega
  refine ⟨hword, half_of_lies (lies_append.mp hhead).1 (Announcement.type_lt a), hfixed, ?_⟩
  rw [hword]
  rw [hplace] at hattrs
  exact attrList_of_lies as hattrs hencodable.attrs

theorem Written.attributed (h : Written mem a as) {p : Nat} (hp : p = 16 + a.fixedPart.length) :
    Attributed mem p as := by
  subst hp
  exact ⟨by rw [h.length]; omega, h.attrs⟩

theorem familyByte_addr (a : NlAddr) : ((familyByte a.family).toNat : Int) = a.family := by
  cases a <;> rfl

theorem int32_of_lies {p : Nat} {i : Int} (h : Lies mem p (le32 (UInt32.ofInt i)))
    (hi : -2147483648 ≤ i ∧ i < 2147483648) : int32 mem p = i := by
  rw [int32, word_of_lies h]
  have hnat : (UInt32.ofInt i).toNat = (i % 4294967296).toNat := by
    rw [UInt32.ofInt, UInt32.toNat_ofNat']
    omega
  have hvec : BitVec.ofNat 32 (UInt32.ofInt i).toNat = BitVec.ofInt 32 i :=
    BitVec.eq_of_toNat_eq (by
      rw [hnat, BitVec.toNat_ofNat, BitVec.toNat_ofInt]
      omega)
  rw [hvec, BitVec.toInt_ofInt]
  exact Int.bmod_eq_of_le (by omega) (by omega)

theorem word_of_lies_ofNat {p n : Nat} (h : Lies mem p (le32 (UInt32.ofNat n))) (hn : n < 4294967296) :
    word mem p = n := by
  rw [word_of_lies h, UInt32.toNat_ofNat']
  exact Nat.mod_eq_of_lt hn

theorem toNat_ofNat_byte {n : Nat} (hn : n < 256) : (UInt8.ofNat n).toNat = n := by
  rw [UInt8.toNat_ofNat']
  exact Nat.mod_eq_of_lt hn

/-- A message that was written announces what it was written for. -/
theorem announces_of_written (h : Written mem a as) (hdescribed : Described as a) : Announces mem a := by
  have htype := h.type
  have hfixed := h.fixed
  cases a with
  | neigh n =>
    obtain ⟨htypes, hindex, hdst, hlladdr⟩ := hdescribed
    simp only [Announcement.fixedPart, List.cons_append, List.nil_append, lies_cons, lies_append] at hfixed
    obtain ⟨hfamily, -, -, -, hifindex, hstate, hzero, -⟩ := hfixed
    refine ⟨as, ?_⟩
    exact {
      attributed := h.attributed rfl
      type := htype
      types := htypes
      family := by rw [hfamily, familyByte_addr]
      ifindex := int32_of_lies hifindex hindex
      state := by
        have hstate : mem 24 = n.state := hstate
        have hzero : mem 25 = 0 := hzero
        rw [half, hstate, hzero]
        simp
      dst := hdst
      lladdr := hlladdr }
  | route n =>
    obtain ⟨hplen, htable, hdst, hvia, hid, hencap⟩ := hdescribed
    simp only [Announcement.fixedPart, List.cons_append, List.nil_append, lies_cons] at hfixed
    obtain ⟨hfamily, hlen, -, -, htableId, -⟩ := hfixed
    have hattributed : Attributed mem 28 as := h.attributed rfl
    refine ⟨as, ?_⟩
    exact {
      attributed := hattributed
      type := htype
      family := by rw [hfamily, familyByte_addr]
      plen := by rw [hlen, toNat_ofNat_byte hplen]
      tableId := by rw [htableId, toNat_ofNat_byte htable]
      dst := hdst
      via := hvia mem
      nhId := hid
      encap := by
        intro rta hrta
        have hnone := @payload_of_none mem as RTA_ENCAP hattributed (by decide) hencap
        rw [tableOf_of_le (by decide), hrta] at hnone
        cases hnone }
  | nexthop n =>
    obtain ⟨hrange, hid, hkind⟩ := hdescribed
    simp only [Announcement.fixedPart, List.cons_append, List.nil_append, lies_cons] at hfixed
    refine ⟨as, ?_⟩
    exact {
      attributed := h.attributed rfl
      type := htype
      family := by
        rw [hfixed.1, familyByte, toNat_ofNat_byte (by omega)]
        omega
      id := hid
      kind := hkind }
  | link n =>
    obtain ⟨hindex, haddress⟩ := hdescribed
    simp only [Announcement.fixedPart, List.cons_append, List.nil_append, lies_cons, lies_append] at hfixed
    obtain ⟨-, -, -, -, hifindex⟩ := hfixed
    refine ⟨as, ?_⟩
    exact {
      attributed := h.attributed rfl
      type := htype
      ifindex := word_of_lies_ofNat hifindex.1.1 hindex
      address := haddress }
  | addr n =>
    obtain ⟨hindex, haddress⟩ := hdescribed
    simp only [Announcement.fixedPart, List.cons_append, List.nil_append, lies_cons] at hfixed
    obtain ⟨hfamily, -, -, hscope, hifindex⟩ := hfixed
    have hscope : mem 19 = if n.linkScope then UInt8.ofNat RT_SCOPE_LINK else 0 := hscope
    refine ⟨as, ?_⟩
    exact {
      attributed := h.attributed rfl
      type := htype
      ifindex := word_of_lies_ofNat hifindex hindex
      linkScope := by
        rw [hscope]
        cases n.linkScope <;> rfl
      family := by
        intro a ha
        rw [hfamily, ha]
        exact familyByte_addr a
      address := haddress }
  | done => exact htype
  | other =>
    show half mem 4 ∉ NLMSG_DONE :: readTypes
    rw [htype]
    decide

/-- A datagram of such messages. -/
theorem datagram_of_lies {buf : Nat → UInt8} {stop : Nat}
    (ms : List (Announcement × List (Nat × List UInt8))) (hms : ∀ m ∈ ms, Encodable m) {p : Nat}
    (h : Lies buf p (ms.flatMap encode)) (hstop : stop = p + (ms.flatMap encode).length) :
    Datagram buf stop p (ms.map Prod.fst) := by
  induction ms generalizing p with
  | nil => exact .nil (by subst hstop; simp)
  | cons m ms ih =>
    obtain ⟨a, as⟩ := m
    obtain ⟨hfirst, hrest⟩ := lies_append.mp h
    have hencodable := hms _ List.mem_cons_self
    have hwritten : Written (fromPlace buf p) a as :=
      written_of_lies (hfirst.move fun k _ => by rw [fromPlace, Nat.zero_add]) hencodable
    have hword : word buf p = (encode (a, as)).length := by
      rw [length_encode]
      exact hwritten.length
    have halign : align4 (word buf p) = (encode (a, as)).length := by
      rw [hword, align4_of_dvd (four_dvd_length_encode _)]
    have hlong := length_encode (a, as)
    rw [List.flatMap_cons, List.length_append] at hstop
    refine .cons (by omega) (by omega) (announces_of_written hwritten hencodable.described) ?_
    rw [halign]
    exact ih (fun m hm => hms m (List.mem_cons_of_mem _ hm)) hrest (by omega)

end Messages

/-- A datagram with messages as the kernel writes them is received. Behind them the buffer may hold
    anything. -/
def Holding (received : Received) (ms : List (Announcement × List (Nat × List UInt8))) : Prop :=
  ∃ buf, received = .datagram 0 true (ms.flatMap encode).length buf ∧ Lies buf 0 (ms.flatMap encode)
    ∧ ms ≠ [] ∧ ∀ m ∈ ms, Encodable m

theorem carries_of_holding {received : List Received}
    {written : List (List (Announcement × List (Nat × List UInt8)))}
    (h : List.Forall₂ Holding received written) : Carries received (written.map (List.map Prod.fst)) := by
  induction h with
  | nil => exact .nil
  | @cons _ ms _ _ hfirst _ ih =>
    obtain ⟨buf, rfl, hlies, hsome, hms⟩ := hfirst
    refine .kernel ?_ (datagram_of_lies ms hms hlies (Nat.zero_add _).symm) ih
    obtain ⟨m, ms, rfl⟩ := List.exists_cons_of_ne_nil hsome
    have hlong := length_encode m
    rw [List.flatMap_cons, List.length_append]
    omega

/-- The neighbor 10.10.10.10. -/
def someNeighbor (lladdr : Option EtherAddr) : NeighNews := ⟨false, .v4 (.replicate 4 10), 3, 2, lladdr⟩

/-- It is the next hop of the default route. -/
def someDefaultRoute : RouteNews :=
  ⟨false, 254, .v4 (.replicate 4 0), 0, .hop (some 3) (some (.v4 (.replicate 4 10))), none⟩

/-- It gets an address and moves, and the dump is over. -/
def someDump : List (Announcement × List (Nat × List UInt8)) :=
  [(.neigh (someNeighbor none), [(NDA_DST, [10, 10, 10, 10])]),
    (.neigh (someNeighbor (some (.replicate 6 2))),
      [(NDA_LLADDR, [2, 2, 2, 2, 2, 2]), (NDA_DST, [10, 10, 10, 10])]),
    (.route someDefaultRoute, [(RTA_OIF, [3, 0, 0, 0]), (RTA_GATEWAY, [10, 10, 10, 10])]),
    (.neigh (someNeighbor (some (.replicate 6 6))),
      [(NDA_DST, [10, 10, 10, 10]), (NDA_LLADDR, [6, 6, 6, 6, 6, 6])]), (.done, [])]

def someDatagram : Received :=
  .datagram 0 true (someDump.flatMap encode).length (Lib.memcpy (fun _ => 0) 0 (someDump.flatMap encode))

theorem holding_someDatagram : Holding someDatagram someDump := by
  refine ⟨_, rfl, Lib.lies_memcpy, by decide, ?_⟩
  intro m hm
  simp only [someDump, List.mem_cons, List.not_mem_nil, or_false] at hm
  rcases hm with rfl | rfl | rfl | rfl | rfl
  · exact ⟨⟨by decide, by decide, rfl, rfl⟩, by decide, by decide +kernel⟩
  · exact ⟨⟨by decide, by decide, rfl, rfl⟩, by decide, by decide +kernel⟩
  · refine ⟨⟨by decide, by decide, .inr ⟨rfl, rfl, by decide +kernel⟩, fun _ => ?_, rfl, rfl⟩,
      by decide, by decide +kernel⟩
    exact .hop (.inl rfl) rfl rfl rfl
  · exact ⟨⟨by decide, by decide, rfl, rfl⟩, by decide, by decide +kernel⟩
  · exact ⟨rfl, by decide, by decide +kernel⟩

end Tables

end SdPlane
