import SdPlane.Srv6

/-!
# The segments of a packet, from router to router

What one router does to a packet with a segment list is a matter of bytes: a count goes down, and 16
bytes are copied. What it is for is a path. The packet has a list of addresses ahead, and a router
that owns the first of them takes it off, unless it is the last.

`segments_in_order` is that the bytes do that, through any number of routers with whatever tables of
local SIDs: what is left of the path at the end is what `advance` leaves, one router after the other.
So no segment is skipped or visited twice, whoever is on the way, and the list itself is not touched.
Between two routers the hop limit changes, and the packet may lie elsewhere in its frame.
-/

set_option autoImplicit false

namespace SdPlane

open Lib (Traced)

/-! ## The path -/

/-- A table of local SIDs, with a count. -/
structure LocalSids where
  addr : Nat → IpAddr
  num : Int

instance (t : LocalSids) (dst : IpAddr) : Decidable (InTable t.addr t.num dst) :=
  decidable_of_iff (∃ i < t.num.toNat, t.addr i = dst)
    (exists_congr fun i => and_congr_left fun _ => by omega)

/-- The addresses ahead, once the packet has been at a router: it takes its own off, if there is
    another one. -/
def LocalSids.advance (t : LocalSids) : List IpAddr → List IpAddr
  | dst :: next :: path => if InTable t.addr t.num dst then next :: path else dst :: next :: path
  | path => path

/-- Some of the path is behind, and never all of it. -/
theorem LocalSids.advance_drop (t : LocalSids) (path : List IpAddr) :
    t.advance path = path ∨ (t.advance path = path.drop 1 ∧ 2 ≤ path.length) := by
  cases path with
  | nil => exact .inl rfl
  | cons dst path =>
    cases path with
    | nil => exact .inl rfl
    | cons next path =>
      by_cases hin : InTable t.addr t.num dst
      · exact .inr ⟨if_pos hin, by simp⟩
      · exact .inl (if_neg hin)

theorem walk_drop (routers : List LocalSids) (path : List IpAddr) :
    ∃ k, routers.foldl (fun path t => t.advance path) path = path.drop k
      ∧ (k = 0 ∨ k < path.length) ∧ k ≤ routers.length := by
  induction routers generalizing path with
  | nil => exact ⟨0, rfl, .inl rfl, le_refl _⟩
  | cons t routers ih =>
    obtain ⟨k, hk, hlt, hle⟩ := ih (t.advance path)
    rw [List.foldl_cons, hk, List.length_cons]
    rcases t.advance_drop path with hsame | ⟨hdrop, htwo⟩
    · rw [hsame] at hlt ⊢
      exact ⟨k, rfl, hlt, Nat.le_succ_of_le hle⟩
    · rw [hdrop, List.length_drop] at hlt
      rw [hdrop, List.drop_drop]
      exact ⟨1 + k, rfl, .inr (by omega), by omega⟩

/-! ## The packet -/

/-- A packet from its IPv6 header on. -/
structure Srv6Packet where
  len : Nat
  bytes : Nat → UInt8

namespace Srv6Packet

def segmentsLeft (p : Srv6Packet) : Nat := (p.bytes 43).toNat

/-- Where the routing header ends. -/
def srhEnd (p : Srv6Packet) : Nat := 48 + 8 * (p.bytes 41).toNat

/-- The destination, and the segments that are left. -/
def path (p : Srv6Packet) : List IpAddr :=
  sidAt p.bytes 24 :: (List.range p.segmentsLeft).reverse.map fun n => sidAt p.bytes (48 + 16 * n)

/-- There is a routing header of type 4, it is all there, and its fields agree. -/
structure InOrder (p : Srv6Packet) : Prop where
  routing : p.bytes 6 = IPPROTO_ROUTING
  type : p.bytes 42 = RTE_IPV6_SRCRT_TYPE_4
  lastEntry : ((p.bytes 44).toNat : Int) ≤ ((p.bytes 41).toNat / 2 : Nat) - 1
  most : p.segmentsLeft ≤ (p.bytes 44).toNat + 1
  complete : p.srhEnd ≤ p.len

/-- A router with the local SIDs `t` has processed `p`, and `q` is what it has made of it. -/
def ProcessedBy (p : Srv6Packet) (t : LocalSids) (q : Srv6Packet) : Prop :=
  ∃ (pktLen ipv6 : Nat) (s : Traced UInt8), p.len ≤ pktLen ∧ q.len = p.len
    ∧ (∀ i < p.len, s.mem (ipv6 + i) = p.bytes i)
    ∧ ∀ i < p.len,
        ((processSrv6PacketMultiSids pktLen ipv6 t.addr t.num).run s).2.mem (ipv6 + i) = q.bytes i

/-- Traffic class, flow label and hop limit may change on the way, and nothing else. -/
structure Transit (p q : Srv6Packet) : Prop where
  length : q.len = p.len
  bytes : ∀ i, 6 ≤ i → i ≠ 7 → i < p.len → q.bytes i = p.bytes i

/-- The packet has been at the routers, in this order. -/
inductive Travels (p : Srv6Packet) : List LocalSids → Srv6Packet → Prop
  | start : Travels p [] p
  | hop {routers : List LocalSids} {u v w : Srv6Packet} {t : LocalSids} (before : Travels p routers u)
      (processed : u.ProcessedBy t v) (transit : Transit v w) : Travels p (routers ++ [t]) w

/-- `q` has the header of `p`, but for the segments left and the destination, and what is behind. -/
structure SameList (p q : Srv6Packet) : Prop where
  length : q.len = p.len
  bytes : ∀ i, 6 ≤ i → i ≠ 7 → i ≠ 43 → ¬ (24 ≤ i ∧ i < 40) → i < p.len → q.bytes i = p.bytes i

theorem SameList.refl (p : Srv6Packet) : SameList p p := ⟨rfl, fun _ _ _ _ _ _ => rfl⟩

theorem SameList.trans {p q r : Srv6Packet} (h : SameList p q) (h' : SameList q r) :
    SameList p r := by
  refine ⟨h'.length.trans h.length, fun i hi h₇ h₄₃ hdst hlt => ?_⟩
  rw [h'.bytes i hi h₇ h₄₃ hdst (hlt.trans_eq h.length.symm), h.bytes i hi h₇ h₄₃ hdst hlt]

/-! ## One router -/

section Hop

variable {p q : Srv6Packet}

/-- The list ends where the routing header does. -/
theorem InOrder.within (h : p.InOrder) {n : Nat} (hn : n < p.segmentsLeft) :
    48 + 16 * n + 16 ≤ p.len := by
  have hlast := h.lastEntry
  have hmost := h.most
  have hcomplete := h.complete
  rw [srhEnd] at hcomplete
  omega

theorem InOrder.len_ge (h : p.InOrder) : 64 ≤ p.len := by
  have hlast := h.lastEntry
  have hcomplete := h.complete
  rw [srhEnd] at hcomplete
  omega

theorem InOrder.congr (h : p.InOrder) (hsame : SameList p q)
    (hleft : q.segmentsLeft ≤ p.segmentsLeft) : q.InOrder := by
  have hlen := h.len_ge
  have hbyte : ∀ i, 6 ≤ i → i ≠ 7 → i ≠ 43 → ¬ (24 ≤ i ∧ i < 40) → i < 64 → q.bytes i = p.bytes i :=
    fun i hi h₇ h₄₃ hdst hlt => hsame.bytes i hi h₇ h₄₃ hdst (hlt.trans_le hlen)
  have h41 := hbyte 41 (by omega) (by omega) (by omega) (by omega) (by omega)
  have h44 := hbyte 44 (by omega) (by omega) (by omega) (by omega) (by omega)
  refine ⟨?_, ?_, ?_, ?_, ?_⟩
  · rw [hbyte 6 (by omega) (by omega) (by omega) (by omega) (by omega)]
    exact h.routing
  · rw [hbyte 42 (by omega) (by omega) (by omega) (by omega) (by omega)]
    exact h.type
  · rw [h41, h44]
    exact h.lastEntry
  · rw [h44]
    exact hleft.trans h.most
  · rw [srhEnd, h41, hsame.length]
    exact h.complete

/-- An address is the same where its bytes are. -/
theorem sidAt_congr {mem mem' : Nat → UInt8} {i j : Nat}
    (h : ∀ k < 16, mem (i + k) = mem' (j + k)) : sidAt mem i = sidAt mem' j :=
  Vector.ext fun k hk => by simp [sidAt, h k hk]

/-- The segments of the list are those of `p`. -/
theorem SameList.segment (h : SameList p q) (hp : p.InOrder) {n : Nat} (hn : n < p.segmentsLeft) :
    sidAt q.bytes (48 + 16 * n) = sidAt p.bytes (48 + 16 * n) := by
  have hwithin := hp.within hn
  exact sidAt_congr fun k hk => h.bytes _ (by omega) (by omega) (by omega) (by omega) (by omega)

theorem SameList.segments (h : SameList p q) (hp : p.InOrder) {n : Nat} (hn : n ≤ p.segmentsLeft) :
    ((List.range n).reverse.map fun k => sidAt q.bytes (48 + 16 * k))
      = (List.range n).reverse.map fun k => sidAt p.bytes (48 + 16 * k) := by
  refine List.map_congr_left fun k hk => ?_
  rw [List.mem_reverse, List.mem_range] at hk
  exact h.segment hp (hk.trans_le hn)

theorem path_of_left_eq_zero (h : p.segmentsLeft = 0) : p.path = [sidAt p.bytes 24] := by
  simp [path, h]

theorem path_of_left_eq_succ {n : Nat} (h : p.segmentsLeft = n + 1) : p.path
    = sidAt p.bytes 24 :: sidAt p.bytes (48 + 16 * n)
      :: (List.range n).reverse.map fun k => sidAt p.bytes (48 + 16 * k) := by
  simp [path, h, List.range_succ]

theorem Transit.path_eq (h : Transit p q) (hp : p.InOrder) :
    q.path = p.path ∧ q.segmentsLeft = p.segmentsLeft ∧ SameList p q := by
  have hlen := hp.len_ge
  have hsame : SameList p q := ⟨h.length, fun i hi h₇ _ _ hlt => h.bytes i hi h₇ hlt⟩
  have hleft : q.segmentsLeft = p.segmentsLeft := by
    rw [segmentsLeft, segmentsLeft, h.bytes 43 (by omega) (by omega) (by omega)]
  have hdst : sidAt q.bytes 24 = sidAt p.bytes 24 :=
    sidAt_congr fun k hk => h.bytes _ (by omega) (by omega) (by omega)
  refine ⟨?_, hleft, hsame⟩
  rw [path, path, hdst, hleft, hsame.segments hp (le_refl _)]

/-- When a segment of the packet ends at the router, in its own terms. -/
theorem InOrder.endSid_iff (hp : p.InOrder) {mem : Nat → UInt8} {pktLen ipv6 : Nat}
    {sids : IpAddr → Prop} (hlen : p.len ≤ pktLen) (hmem : ∀ i < p.len, mem (ipv6 + i) = p.bytes i) :
    EndSid mem pktLen ipv6 sids ↔ 0 < p.segmentsLeft ∧ sids (sidAt p.bytes 24) := by
  have hge := hp.len_ge
  have hdst : sidAt mem (ipv6 + 24) = sidAt p.bytes 24 :=
    sidAt_congr fun k hk => (congrArg mem (Nat.add_assoc ipv6 24 k)).trans (hmem _ (by omega))
  constructor
  · intro h
    have hsome := h.some
    have hlocal := h.isLocal
    rw [hmem 43 (by omega)] at hsome
    rw [hdst] at hlocal
    exact ⟨hsome, hlocal⟩
  · rintro ⟨hsome, hlocal⟩
    refine ⟨?_, by omega, ?_, ?_, ?_, ?_, ?_⟩
    · rw [hmem 6 (by omega)]
      exact hp.routing
    · rw [hmem 42 (by omega)]
      exact hp.type
    · rw [hmem 44 (by omega), hmem 41 (by omega)]
      exact hp.lastEntry
    · rw [hmem 43 (by omega), hmem 44 (by omega)]
      exact hp.most
    · rw [hmem 43 (by omega)]
      exact hsome
    · rw [hdst]
      exact hlocal

/-- **One router takes its own address off the path, and leaves the rest as it is.** -/
theorem ProcessedBy.path_eq {t : LocalSids} (h : p.ProcessedBy t q) (hp : p.InOrder) :
    q.path = t.advance p.path ∧ q.InOrder ∧ SameList p q := by
  obtain ⟨pktLen, ipv6, s, hlen, hqlen, hbefore, hafter⟩ := h
  have hge := hp.len_ge
  obtain ⟨found, l, hrun, hfound, -⟩ :=
    @processSrv6_run pktLen ipv6 _ _ (compares_table t.addr t.num) s
  have hends : EndSid s.mem pktLen ipv6 (InTable t.addr t.num)
      ↔ 0 < p.segmentsLeft ∧ InTable t.addr t.num (sidAt p.bytes 24) := hp.endSid_iff hlen hbefore
  have hiff := hfound.trans hends
  rw [processSrv6PacketMultiSids, hrun] at hafter
  by_cases hend : found = true
  · -- the next segment is the one with the number that is left
    have hsid := hfound.mp hend
    obtain ⟨hsome, hlocal⟩ := hiff.mp hend
    have hnext : NextSegment s.mem
        ((nextSegment (ipv6 + 24) (ipv6 + 40)).run (s.touch l)).2.mem ipv6 :=
      @nextSegment_mem _ _ _ (s.touch l) hsid
    simp only [if_pos hend] at hafter
    have hleft : q.segmentsLeft + 1 = p.segmentsLeft := by
      have hless := hnext.left
      rw [hafter 43 (by omega), hbefore 43 (by omega)] at hless
      exact hless
    have hsame : SameList p q := by
      refine ⟨hqlen, fun i hi h₇ h₄₃ hdst hlt => ?_⟩
      rw [← hafter i hlt, ← hbefore i hlt]
      exact hnext.rest _ (by omega) (by omega)
    have hdst : sidAt q.bytes 24 = sidAt p.bytes (48 + 16 * q.segmentsLeft) := by
      have hwithin := hp.within (n := q.segmentsLeft) (by omega)
      have hcopied := hnext.dst
      rw [hafter 43 (by omega)] at hcopied
      have hto : sidAt q.bytes 24
          = sidAt ((nextSegment (ipv6 + 24) (ipv6 + 40)).run (s.touch l)).2.mem (ipv6 + 24) :=
        sidAt_congr fun k hk => by
          rw [Nat.add_assoc]
          exact (hafter _ (by omega)).symm
      have hfrom : sidAt s.mem (ipv6 + 48 + 16 * q.segmentsLeft)
          = sidAt p.bytes (48 + 16 * q.segmentsLeft) :=
        sidAt_congr fun k hk => by
          rw [Nat.add_assoc, Nat.add_assoc, ← Nat.add_assoc 48]
          exact hbefore _ (by omega)
      rw [hto, ← hfrom]
      exact hcopied
    refine ⟨?_, hp.congr hsame (by omega), hsame⟩
    rw [path_of_left_eq_succ hleft.symm, LocalSids.advance, if_pos hlocal, path, hdst,
      hsame.segments hp (by omega)]
  · -- nothing is written
    simp only [if_neg hend, Traced.mem_touch] at hafter
    have hbytes : ∀ i < p.len, q.bytes i = p.bytes i := fun i hi =>
      (hafter i hi).symm.trans (hbefore i hi)
    obtain ⟨hpath, hleft, hsame⟩ := Transit.path_eq ⟨hqlen, fun i _ _ hi => hbytes i hi⟩ hp
    refine ⟨?_, hp.congr hsame hleft.le, hsame⟩
    rw [hpath]
    have hnot := fun hand => hend (hiff.mpr hand)
    cases hn : p.segmentsLeft with
    | zero =>
      rw [path_of_left_eq_zero hn]
      rfl
    | succ n =>
      have hforeign : ¬InTable t.addr t.num (sidAt p.bytes 24) := fun hlocal =>
        hnot ⟨by omega, hlocal⟩
      rw [path_of_left_eq_succ hn, LocalSids.advance, if_neg hforeign]

end Hop

/-! ## Any number of routers -/

theorem Travels.path_eq {p q : Srv6Packet} {routers : List LocalSids} (h : Travels p routers q)
    (hp : p.InOrder) : q.path = routers.foldl (fun path t => t.advance path) p.path
      ∧ q.InOrder ∧ SameList p q := by
  induction h with
  | start => exact ⟨rfl, hp, SameList.refl p⟩
  | hop before processed transit ih =>
    obtain ⟨hpath, hu, hsame⟩ := ih
    obtain ⟨hnext, hv, hsame'⟩ := processed.path_eq hu
    obtain ⟨hcarried, hleft, hsame''⟩ := transit.path_eq hv
    refine ⟨?_, hv.congr hsame'' hleft.le, (hsame.trans hsame').trans hsame''⟩
    rw [hcarried, hnext, hpath, List.foldl_append]
    rfl

end Srv6Packet

open Srv6Packet

/-- **The segments are visited in order.** What is left of the path is what the routers on the way
    leave of it, each taking off its own address; there are as many segments fewer in the count; and
    the list, the other headers and the data are as they were sent. -/
theorem segments_in_order {p q : Srv6Packet} {routers : List LocalSids} (h : Travels p routers q)
    (hp : p.InOrder) :
    q.path = routers.foldl (fun path t => t.advance path) p.path
      ∧ (∃ k ≤ routers.length, q.path = p.path.drop k ∧ q.segmentsLeft + k = p.segmentsLeft)
      ∧ SameList p q := by
  obtain ⟨hpath, -, hsame⟩ := h.path_eq hp
  obtain ⟨k, hk, hlt, hle⟩ := walk_drop routers p.path
  have hdrop : q.path = p.path.drop k := hpath.trans hk
  refine ⟨hpath, ⟨k, hle, hdrop, ?_⟩, hsame⟩
  have hlength := congrArg List.length hdrop
  simp only [path, List.length_cons, List.length_map, List.length_reverse, List.length_range,
    List.length_drop] at hlength hlt
  omega

/-- The routing header of one segment, and a destination that is no `0`. -/
def oneSegment : Srv6Packet :=
  { len := 64, bytes := fun i => if i = 6 then 43 else if i = 24 then 7 else if i = 41 then 2
      else if i = 42 then 4 else if i = 43 then 1 else 0 }

/-- The router that the packet is sent to. -/
def sevenRouter : LocalSids := { addr := fun _ => sidAt oneSegment.bytes 24, num := 1 }

/-- At its router, it is given the segment as its destination. -/
theorem segments_in_order_one : ∃ q, Travels oneSegment [sevenRouter] q
    ∧ q.path = [Vector.replicate 16 0] := by
  let s : Traced UInt8 := { mem := oneSegment.bytes, touched := [] }
  let q : Srv6Packet := { len := 64, bytes :=
    ((processSrv6PacketMultiSids 64 0 sevenRouter.addr sevenRouter.num).run s).2.mem }
  have htravels : Travels oneSegment [sevenRouter] q := by
    have hprocessed : ProcessedBy oneSegment sevenRouter q :=
      ⟨64, 0, s, le_refl _, rfl, fun i _ => by rw [Nat.zero_add], fun i _ => by rw [Nat.zero_add]⟩
    exact .hop .start hprocessed ⟨rfl, fun _ _ _ _ => rfl⟩
  refine ⟨q, htravels, ?_⟩
  rw [(segments_in_order htravels (by constructor <;> decide)).1]
  decide

end SdPlane
