import SdPlane.Lib.Access
import SdPlane.Lib.Loop
import SdPlane.Forwarding

/-!
# Segment routing (`srv6.h`)

A packet that has reached the end of a segment carries, behind the IPv6 header, the list of the
segments and how many of them are left. The next one becomes the destination.

The two functions are programs that access the bytes of the packet, through the pointer to the IPv6
header. They differ only in how the destination is compared: with one address or with each of a
table. `EndSid` is when it is this router that the segment ends at and the header is in order;
`processSrv6_end` is all that happens then, and that nothing happens otherwise.
-/

set_option autoImplicit false

namespace SdPlane

open Lib (Access Traced)

def IPPROTO_ROUTING : UInt8 := 43
def RTE_IPV6_SRCRT_TYPE_4 : UInt8 := 4

/-- The end of both functions: the next segment becomes the destination. -/
def nextSegment (dstAddr srh : Nat) : Access UInt8 Unit := do
  let segmentsLeft ← .load (srh + 3)
  .store (srh + 3) (segmentsLeft - 1)
  let sidList := srh + 8
  let next ← .load (srh + 3)
  let sid ← .loadN (sidList + 16 * next.toNat) 16
  .storeN dstAddr sid

/-- What both functions do. `isLocal` compares the destination, which it is given the place of. -/
def processSrv6 (pktLen ipv6 : Nat) (isLocal : Nat → Access UInt8 Bool) : Access UInt8 Bool := do
  let proto ← .load (ipv6 + 6)
  if proto ≠ IPPROTO_ROUTING then return false
  else if pktLen < 40 + 8 then return false
  else
    let srh := ipv6 + 40
    let type ← .load (srh + 2)
    if type ≠ RTE_IPV6_SRCRT_TYPE_4 then return false
    else
      let hdrLen ← .load (srh + 1)
      let maxLastEntry : Int := (hdrLen.toNat / 2 : Nat) - 1
      let lastEntry ← .load (srh + 4)
      if (lastEntry.toNat : Int) > maxLastEntry then return false
      else
        let segmentsLeft ← .load (srh + 3)
        if (segmentsLeft.toNat : Int) > lastEntry.toNat + 1 then return false
        else if segmentsLeft = 0 then return false
        else
          let dstAddr := ipv6 + 24
          let found ← isLocal dstAddr
          if found = false then return false
          else
            nextSegment dstAddr srh
            return true

/-- `memcmp (dst_addr, local_end_sid, 16)` says that they are equal. -/
def isEndSid (localEndSid : IpAddr) (dstAddr : Nat) : Access UInt8 Bool := do
  let dst ← .loadN dstAddr 16
  return decide (dst = localEndSid)

/-- `match`, after `n` rounds of the loop. -/
def countEndSids (localEndSid : Nat → IpAddr) (dstAddr : Nat) : Nat → Access UInt8 Nat
  | 0 => return 0
  | n + 1 => do
    let count ← countEndSids localEndSid dstAddr n
    let equal ← isEndSid (localEndSid n) dstAddr
    if equal = true then return count + 1 else return count

/-- `_process_srv6_packet`. -/
def processSrv6Packet (pktLen ipv6 : Nat) (localEndSid : IpAddr) : Access UInt8 Bool :=
  processSrv6 pktLen ipv6 (isEndSid localEndSid)

/-- `_process_srv6_packet_multi_sids`. -/
def processSrv6PacketMultiSids (pktLen ipv6 : Nat) (localEndSid : Nat → IpAddr) (numSids : Int) :
    Access UInt8 Bool :=
  processSrv6 pktLen ipv6 fun dstAddr => do
    let count ← countEndSids localEndSid dstAddr numSids.toNat
    return decide (count ≠ 0)

/-! ## The end of a segment -/

/-- The 16 bytes at `i`. -/
def sidAt (mem : Nat → UInt8) (i : Nat) : IpAddr := Vector.ofFn fun k => mem (i + k)

/-- A segment of the packet ends at an address of `sids`, and there is another one. -/
structure EndSid (mem : Nat → UInt8) (pktLen ipv6 : Nat) (sids : IpAddr → Prop) : Prop where
  routing : mem (ipv6 + 6) = IPPROTO_ROUTING
  length : 40 + 8 ≤ pktLen
  type : mem (ipv6 + 42) = RTE_IPV6_SRCRT_TYPE_4
  lastEntry : ((mem (ipv6 + 44)).toNat : Int) ≤ ((mem (ipv6 + 41)).toNat / 2 : Nat) - 1
  most : (mem (ipv6 + 43)).toNat ≤ (mem (ipv6 + 44)).toNat + 1
  some : 0 < (mem (ipv6 + 43)).toNat
  isLocal : sids (sidAt mem (ipv6 + 24))

/-- What the packet is afterwards: there is one segment less, and the destination is the one that
    this makes the next. -/
structure NextSegment (mem mem' : Nat → UInt8) (ipv6 : Nat) : Prop where
  left : (mem' (ipv6 + 43)).toNat + 1 = (mem (ipv6 + 43)).toNat
  index : (mem' (ipv6 + 43)).toNat < (mem (ipv6 + 41)).toNat / 2
  dst : sidAt mem' (ipv6 + 24) = sidAt mem (ipv6 + 48 + 16 * (mem' (ipv6 + 43)).toNat)
  rest : ∀ i, i ≠ ipv6 + 43 → ¬ (ipv6 + 24 ≤ i ∧ i < ipv6 + 40) → mem' i = mem i

/-- `isLocal` finds out whether the destination is one of `sids`, and looks at nothing else. -/
structure Compares (isLocal : Nat → Access UInt8 Bool) (sids : IpAddr → Prop) : Prop where
  found : ∀ a s, ((isLocal a).run s).1 = true ↔ sids (sidAt s.mem a)
  touches : ∀ a s, ∃ l, ((isLocal a).run s).2 = s.touch l ∧ ∀ j ∈ l, a ≤ j ∧ j < a + 16

/-- The bytes of the two headers that are looked at lie below `n`. -/
def HeaderWithin (mem : Nat → UInt8) (pktLen ipv6 n : Nat) : Prop :=
  ipv6 + 6 < n ∧ (mem (ipv6 + 6) = IPPROTO_ROUTING → 40 + 8 ≤ pktLen →
    ipv6 + 42 < n ∧ (mem (ipv6 + 42) = RTE_IPV6_SRCRT_TYPE_4 → ipv6 + 44 < n))

section Process

variable {pktLen ipv6 : Nat} {isLocal : Nat → Access UInt8 Bool} {sids : IpAddr → Prop}

theorem headerWithin_iff {mem : Nat → UInt8} (hproto : mem (ipv6 + 6) = IPPROTO_ROUTING)
    (hlen : 40 + 8 ≤ pktLen) (htype : mem (ipv6 + 42) = RTE_IPV6_SRCRT_TYPE_4) {l : List Nat}
    (hlast : ipv6 + 44 ∈ l) (hle : ∀ j ∈ l, j ≤ ipv6 + 44) (n : Nat) :
    (∀ j ∈ l, j < n) ↔ HeaderWithin mem pktLen ipv6 n := by
  constructor
  · intro hall
    have hlt := hall _ hlast
    exact ⟨by omega, fun _ _ => ⟨by omega, fun _ => hlt⟩⟩
  · intro hwithin j hj
    exact (hle j hj).trans_lt ((hwithin.2 hproto hlen).2 htype)

/-- **What the functions do**: the headers are looked at, and if the segment ends here, the next one
    becomes the destination. -/
theorem processSrv6_run (h : Compares isLocal sids) (s : Traced UInt8) : ∃ found l,
    (processSrv6 pktLen ipv6 isLocal).run s
        = (found, if found = true then ((nextSegment (ipv6 + 24) (ipv6 + 40)).run (s.touch l)).2
          else s.touch l)
      ∧ (found = true ↔ EndSid s.mem pktLen ipv6 sids)
      ∧ ∀ n, (∀ j ∈ l, j < n) ↔ HeaderWithin s.mem pktLen ipv6 n := by
  simp only [processSrv6, Access.run_bind, Access.run_load, Access.run_ite, Access.run_pure,
    Traced.mem_touch, Traced.touch_touch, List.cons_append, List.nil_append, Nat.add_assoc,
    Nat.reduceAdd]
  split
  · next hproto =>
    refine ⟨false, _, rfl, ⟨nofun, fun hend => absurd hend.routing hproto⟩, fun n => ?_⟩
    simp [HeaderWithin, hproto]
  · next hproto =>
    have hproto := not_not.mp hproto
    split
    · next hlen =>
      refine ⟨false, _, rfl, ⟨nofun, fun hend => absurd hend.length (Nat.not_le.mpr hlen)⟩,
        fun n => ?_⟩
      simp [HeaderWithin, hproto, hlen]
    · next hlen =>
      have hlen := Nat.not_lt.mp hlen
      split
      · next htype =>
        refine ⟨false, _, rfl, ⟨nofun, fun hend => absurd hend.type htype⟩, fun n => ?_⟩
        have hboth : (∀ j ∈ [ipv6 + 42, ipv6 + 6], j < n) ↔ ipv6 + 6 < n ∧ ipv6 + 42 < n := by
          simp [and_comm]
        rw [hboth]
        exact and_congr_right fun _ => ⟨fun hlt _ _ => ⟨hlt, fun heq => absurd heq htype⟩,
          fun hwithin => (hwithin hproto hlen).1⟩
      · next htype =>
        have htype := not_not.mp htype
        -- the rest of the header is behind, and has been looked at from here on
        have within : ∀ {l : List Nat}, ipv6 + 44 ∈ l → (∀ j ∈ l, j ≤ ipv6 + 44) →
            ∀ n, (∀ j ∈ l, j < n) ↔ HeaderWithin s.mem pktLen ipv6 n :=
          fun hlast hle => headerWithin_iff hproto hlen htype hlast hle
        split
        · next hentry =>
          refine ⟨false, _, rfl, ⟨nofun, fun hend => absurd hend.lastEntry (not_le.mpr hentry)⟩,
            within ?_ ?_⟩
          · simp
          · simp
        · next hentry =>
          split
          · next hmost =>
            refine ⟨false, _, rfl, ⟨nofun, fun hend => absurd hend.most ?_⟩, within ?_ ?_⟩
            · omega
            · simp
            · simp
          · next hmost =>
            split
            · next hnone =>
              refine ⟨false, _, rfl, ⟨nofun, fun hend => absurd hend.some ?_⟩, within ?_ ?_⟩
              · rw [hnone]
                decide
              · simp
              · simp
            · next hsome =>
              obtain ⟨l, hl, hrange⟩ := h.touches (ipv6 + 24)
                (s.touch [ipv6 + 43, ipv6 + 44, ipv6 + 41, ipv6 + 42, ipv6 + 6])
              have hfound := h.found (ipv6 + 24)
                (s.touch [ipv6 + 43, ipv6 + 44, ipv6 + 41, ipv6 + 42, ipv6 + 6])
              rw [Traced.mem_touch] at hfound
              rw [hl, Traced.touch_touch]
              have hlast : ipv6 + 44 ∈ l ++ [ipv6 + 43, ipv6 + 44, ipv6 + 41, ipv6 + 42, ipv6 + 6] := by
                simp
              have hle : ∀ j ∈ l ++ [ipv6 + 43, ipv6 + 44, ipv6 + 41, ipv6 + 42, ipv6 + 6],
                  j ≤ ipv6 + 44 := by
                intro j hj
                rcases List.mem_append.mp hj with hj | hj
                · have hdst := hrange j hj
                  omega
                · simp at hj
                  omega
              cases hresult : ((isLocal (ipv6 + 24)).run
                  (s.touch [ipv6 + 43, ipv6 + 44, ipv6 + 41, ipv6 + 42, ipv6 + 6])).1 with
              | false =>
                rw [hresult] at hfound
                exact ⟨false, _, rfl, ⟨nofun, fun hend => absurd (hfound.mpr hend.isLocal) nofun⟩,
                  within hlast hle⟩
              | true =>
                rw [hresult] at hfound
                refine ⟨true, _, rfl, ⟨fun _ => ⟨hproto, hlen, htype, ?_, ?_, ?_, hfound.mp rfl⟩,
                  fun _ => rfl⟩, within hlast hle⟩
                · exact not_lt.mp hentry
                · omega
                · exact Nat.pos_of_ne_zero fun hzero => hsome (UInt8.toNat_inj.mp hzero)

/-- **The next segment becomes the destination, and nothing else changes.** -/
theorem nextSegment_mem {s : Traced UInt8} (h : EndSid s.mem pktLen ipv6 sids) :
    NextSegment s.mem ((nextSegment (ipv6 + 24) (ipv6 + 40)).run s).2.mem ipv6 := by
  have hsome := h.some
  have hmost := h.most
  have hentry := h.lastEntry
  have hone : (1 : UInt8) ≤ s.mem (ipv6 + 43) := UInt8.le_iff_toNat_le.mpr hsome
  have hleft : (s.mem (ipv6 + 43) - 1).toNat = (s.mem (ipv6 + 43)).toNat - 1 :=
    UInt8.toNat_sub_of_le _ _ hone
  have hmem : ((nextSegment (ipv6 + 24) (ipv6 + 40)).run s).2.mem = fun j =>
      if ipv6 + 24 ≤ j ∧ j < ipv6 + 40 then
        s.mem (ipv6 + 48 + 16 * (s.mem (ipv6 + 43) - 1).toNat + (j - (ipv6 + 24)))
      else if j = ipv6 + 43 then s.mem (ipv6 + 43) - 1 else s.mem j := by
    funext j
    have hlist : ∀ k, 48 + k ≠ 43 := fun k => by omega
    simp [nextSegment, Function.update_apply, Nat.add_assoc, hlist]
  have hself : ((nextSegment (ipv6 + 24) (ipv6 + 40)).run s).2.mem (ipv6 + 43)
      = s.mem (ipv6 + 43) - 1 := by
    rw [hmem]
    simp
  constructor
  · rw [hself, hleft]
    omega
  · rw [hself, hleft]
    omega
  · rw [hself, hmem]
    refine Vector.ext fun k hk => ?_
    have hin : ipv6 + 24 ≤ ipv6 + 24 + k ∧ ipv6 + 24 + k < ipv6 + 40 := by omega
    simp [sidAt, hin]
  · intro i hi hout
    rw [hmem]
    simp only [if_neg hout, if_neg hi]

/-- The bytes that are touched on the way. -/
theorem nextSegment_touched (s : Traced UInt8) (n : Nat) :
    (∀ j ∈ ((nextSegment (ipv6 + 24) (ipv6 + 40)).run s).2.touched, j < n)
      ↔ (∀ j ∈ s.touched, j < n) ∧ ipv6 + 43 < n
        ∧ ipv6 + 64 + 16 * (s.mem (ipv6 + 43) - 1).toNat ≤ n := by
  have htouched : ∀ j, j ∈ ((nextSegment (ipv6 + 24) (ipv6 + 40)).run s).2.touched
      ↔ (ipv6 + 24 ≤ j ∧ j < ipv6 + 24 + 16)
        ∨ (ipv6 + 48 + 16 * (s.mem (ipv6 + 43) - 1).toNat ≤ j
          ∧ j < ipv6 + 48 + 16 * (s.mem (ipv6 + 43) - 1).toNat + 16)
        ∨ j = ipv6 + 43 ∨ j ∈ s.touched := by
    intro j
    simp [nextSegment, Traced.touch, Access.mem_span]
  simp only [htouched]
  constructor
  · intro hall
    refine ⟨fun j hj => hall j (.inr (.inr (.inr hj))), hall _ (.inr (.inr (.inl rfl))), ?_⟩
    have hlast := hall (ipv6 + 48 + 16 * (s.mem (ipv6 + 43) - 1).toNat + 15)
      (.inr (.inl ⟨by omega, by omega⟩))
    omega
  · rintro ⟨hbefore, hleft, hsegment⟩ j (hj | hj | rfl | hj)
    · omega
    · omega
    · exact hleft
    · exact hbefore j hj

end Process

/-! ## How the destination is compared -/

theorem compares_isEndSid (sid : IpAddr) : Compares (isEndSid sid) (· = sid) := by
  constructor
  · intro a s
    simp [isEndSid, sidAt]
  · intro a s
    exact ⟨Access.span a 16, rfl, fun j hj => Access.mem_span.mp hj⟩

theorem countEndSids_run (localEndSid : Nat → IpAddr) (a : Nat) (s : Traced UInt8) (n : Nat) :
    (((countEndSids localEndSid a n).run s).1 ≠ 0 ↔ ∃ i < n, localEndSid i = sidAt s.mem a)
      ∧ ∃ l, ((countEndSids localEndSid a n).run s).2 = s.touch l ∧ ∀ j ∈ l, a ≤ j ∧ j < a + 16 := by
  induction n with
  | zero => exact ⟨by simp [countEndSids], [], rfl, nofun⟩
  | succ n ih =>
    obtain ⟨hcount, l, hl, hrange⟩ := ih
    have hcompare := (compares_isEndSid (localEndSid n)).found a (s.touch l)
    obtain ⟨l', hl', hrange'⟩ := (compares_isEndSid (localEndSid n)).touches a (s.touch l)
    rw [Traced.mem_touch] at hcompare
    rw [Traced.touch_touch] at hl'
    have hrun : (countEndSids localEndSid a (n + 1)).run s
        = (if ((isEndSid (localEndSid n) a).run (s.touch l)).1 = true then
            ((countEndSids localEndSid a n).run s).1 + 1 else ((countEndSids localEndSid a n).run s).1,
          s.touch (l' ++ l)) := by
      simp only [countEndSids, Access.run_bind, Access.run_ite, Access.run_pure, hl, hl']
      split <;> rfl
    rw [hrun]
    refine ⟨?_, l' ++ l, rfl, fun j hj => ?_⟩
    · rw [Nat.exists_lt_succ_right, ← hcount]
      split
      · next hequal => simp [(hcompare.mp hequal).symm]
      · next hnot =>
        have hne : ¬ localEndSid n = sidAt s.mem a := fun heq => hnot (hcompare.mpr heq.symm)
        simp [hne]
    · rcases List.mem_append.mp hj with hj | hj
      · exact hrange' j hj
      · exact hrange j hj

/-- The addresses of a table with a count. -/
def InTable (localEndSid : Nat → IpAddr) (numSids : Int) (dst : IpAddr) : Prop :=
  ∃ i : Nat, (i : Int) < numSids ∧ localEndSid i = dst

theorem compares_table (localEndSid : Nat → IpAddr) (numSids : Int) :
    Compares (fun dstAddr => do
      let count ← countEndSids localEndSid dstAddr numSids.toNat
      return decide (count ≠ 0)) (InTable localEndSid numSids) := by
  constructor
  · intro a s
    have hcount := (countEndSids_run localEndSid a s numSids.toNat).1
    simp only [Access.run_bind, Access.run_pure, decide_eq_true_eq]
    rw [hcount]
    refine exists_congr fun i => and_congr_left fun _ => ?_
    omega
  · intro a s
    obtain ⟨l, hl, hrange⟩ := (countEndSids_run localEndSid a s numSids.toNat).2
    exact ⟨l, hl, hrange⟩

/-- To count to one and ask whether the count is not `0`. -/
theorem count_once (x : Access UInt8 Bool) :
    (do
      let count ← (do
        let count ← (return 0 : Access UInt8 Nat)
        let equal ← x
        if equal = true then return count + 1 else return count)
      return decide (count ≠ 0)) = x := by
  have hrun : ∀ s, (do
      let count ← (do
        let count ← (return 0 : Access UInt8 Nat)
        let equal ← x
        if equal = true then return count + 1 else return count)
      return decide (count ≠ 0)).run s = x.run s := by
    intro s
    cases hequal : x.run s with
    | mk equal t =>
      simp only [Access.run_bind, Access.run_pure, Access.run_ite, hequal]
      cases equal <;> rfl
  exact funext hrun

/-- With one address in the table it is the same program. -/
theorem processSrv6PacketMultiSids_one (pktLen ipv6 : Nat) (localEndSid : Nat → IpAddr) :
    processSrv6PacketMultiSids pktLen ipv6 localEndSid 1
      = processSrv6Packet pktLen ipv6 (localEndSid 0) := by
  have hisLocal : ∀ a, (do
      let count ← countEndSids localEndSid a (Int.toNat 1)
      return decide (count ≠ 0)) = isEndSid (localEndSid 0) a := by
    intro a
    rw [Int.toNat_one, countEndSids, countEndSids]
    exact count_once (isEndSid (localEndSid 0) a)
  rw [processSrv6PacketMultiSids, processSrv6Packet, funext hisLocal]

/-- **`End` of segment routing.** The packet is modified exactly when a segment ends here, and then the
    next one becomes the destination; with one address in the table it is so for both functions. -/
theorem processSrv6_end (pktLen ipv6 : Nat) (localEndSid : Nat → IpAddr) (numSids : Int)
    (s : Traced UInt8) :
    let r := (processSrv6PacketMultiSids pktLen ipv6 localEndSid numSids).run s
    (r.1 = true ↔ EndSid s.mem pktLen ipv6 (InTable localEndSid numSids))
      ∧ (r.2.mem ≠ s.mem ↔ EndSid s.mem pktLen ipv6 (InTable localEndSid numSids))
      ∧ (EndSid s.mem pktLen ipv6 (InTable localEndSid numSids) → NextSegment s.mem r.2.mem ipv6)
      ∧ (numSids = 1 → (processSrv6Packet pktLen ipv6 (localEndSid 0)).run s = r) := by
  intro r
  obtain ⟨found, l, hrun, hfound, -⟩ :=
    @processSrv6_run pktLen ipv6 _ _ (compares_table localEndSid numSids) s
  have hr : r = (found, if found = true then
      ((nextSegment (ipv6 + 24) (ipv6 + 40)).run (s.touch l)).2 else s.touch l) := hrun
  have hnext : EndSid s.mem pktLen ipv6 (InTable localEndSid numSids) →
      NextSegment s.mem r.2.mem ipv6 := by
    intro hend
    rw [hr, if_pos (hfound.mpr hend)]
    exact @nextSegment_mem _ _ _ (s.touch l) hend
  refine ⟨by rw [hr, ← hfound], ⟨fun hne => ?_, fun hend heq => ?_⟩, hnext, fun hone => ?_⟩
  · by_contra hnot
    rw [hr, if_neg fun heq => hnot (hfound.mp heq)] at hne
    exact hne rfl
  · -- one segment less is another packet
    have hleft := (hnext hend).left
    rw [heq] at hleft
    omega
  · subst hone
    rw [← processSrv6PacketMultiSids_one]

end SdPlane
