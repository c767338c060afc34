import SdPlane.PsmemTiling

/-!
# Where the pseudo memory is touched

Both handlers test the address of a request, and its end, against the region before they copy. The
test is made in 64 bits, where the end of a request may come out below its beginning, and on the
address as the byte enables move it, while a read copies from the doubleword below. So a request can
pass the test and still be copied from or to a place outside the buffer, and a write may have a
negative length, which `memcpy` takes for a huge one.

What a read copies is one stretch, from the doubleword of its address on: `mrdRead` bytes, which is
the length of the header, or four bytes less when the loop stops in front of a last doubleword that
no byte enable asks for. A header whose address is not a doubleword's can make the loop run for
ever; what it then copies is empty.
-/

set_option autoImplicit false

namespace SdPlane

open Lib

/-! ## Copies -/

/-- The copy has a length, and touches the buffer only. -/
def Copy.InBounds (c : Copy) (size : UInt32) : Prop :=
  0 ≤ c.len ∧ ∀ i : Nat, (i : Int) < c.len → (c.offset + UInt64.ofNat i).toNat < size.toNat

/-- The copies that a received request leads to. -/
inductive PsmemCopy (ps : Psmem) (requester : UInt16) (mh : TlpMrHdr) (after : Nat → UInt8) :
    Copy → Prop
  | read (mrd : tlpIsMrd mh.tlp.fmtType = true)
      (accepted : ps.refuses (tlpMrAddr mh after) ((4 * tlpLength mh.tlp.falen : Nat) : Int) = false)
      {s : MrdState} (round : Rounds (mrdRound ps requester mh) mrdAgain (mrdStart mh after) s) :
      PsmemCopy ps requester mh after (mrdRound ps requester mh s).1.copy
  | write (mwr : tlpIsMwr mh.tlp.fmtType = true) {c : Copy} (copies : mwrCopy ps mh after = some c) :
      PsmemCopy ps requester mh after c

/-- A stretch of `n` bytes is in the buffer when its end is. -/
theorem inBounds_iff {offset : UInt64} {n : Nat} {size : UInt32} (hn : 0 < n) (hmax : n ≤ 4096) :
    Copy.InBounds ⟨offset, n⟩ size ↔ offset.toNat + n ≤ size.toNat := by
  have hsize := size.toNat_lt
  have hplace (i : Nat) (hi : i < n) (hlow : offset.toNat < 2 ^ 32) :
      (offset + UInt64.ofNat i).toNat = offset.toNat + i := by
    rw [UInt64.toNat_add, UInt64.toNat_ofNat']
    omega
  constructor
  · rintro ⟨-, hin⟩
    have hfirst : (offset + UInt64.ofNat 0).toNat < size.toNat :=
      hin 0 (by show ((0 : Nat) : Int) < n; omega)
    have hlast : (offset + UInt64.ofNat (n - 1)).toNat < size.toNat :=
      hin (n - 1) (by show ((n - 1 : Nat) : Int) < n; omega)
    rw [show UInt64.ofNat 0 = 0 from rfl, UInt64.add_zero] at hfirst
    rw [hplace (n - 1) (by omega) (by omega)] at hlast
    omega
  · intro hend
    refine ⟨Int.natCast_nonneg n, fun i hi => ?_⟩
    have hi' : i < n := Int.ofNat_lt.mp hi
    show (offset + UInt64.ofNat i).toNat < size.toNat
    rw [hplace i hi' (by omega)]
    omega

/-! ## Reads -/

/-- The number of bytes a read copies. -/
def mrdRead (mh : TlpMrHdr) (addr : Nat) : Nat :=
  let len := 4 * tlpLength mh.tlp.falen
  if 256 < len ∧ len % 256 = 4 ∧ tlpMrDataLength mh + ((addr % 4 : Nat) : Int) + 4 ≤ (len : Int) then
    len - 4
  else len

theorem tlpLength_lt (fl : UInt16) : tlpLength fl < 1024 :=
  Nat.lt_succ_of_le ((UInt16.toNat_and fl _).trans_le Nat.and_le_right)

/-- The masks take away at most three bytes each. -/
theorem tlpMrDataLength_bounds (mh : TlpMrHdr) :
    ((4 * tlpLength mh.tlp.falen : Nat) : Int) - 6 ≤ tlpMrDataLength mh ∧
      tlpMrDataLength mh ≤ ((4 * tlpLength mh.tlp.falen : Nat) : Int) := by
  have hfirst : ∀ be : BitVec 4, (if bePartial be then clearAmong be fromFirst else 0) ≤ 3 := by
    decide
  have hlast : ∀ be : BitVec 4, (if bePartial be then clearBefore be fromLast else 0) ≤ 3 := by
    decide
  have h1 := hfirst mh.fstdw
  have h2 := hlast mh.lstdw
  rw [tlpMrDataLength]
  omega

/-- After `t` bytes. -/
structure After (mh : TlpMrHdr) (start : UInt64) (t : Nat) (s : MrdState) : Prop where
  len : s.len + t = ((4 * tlpLength mh.tlp.falen : Nat) : Int)
  some : 0 ≤ s.len
  whole : t % 256 = 0 ∨ s.len = 0
  addr : (s.addr >>> 2) <<< 2 = ((start >>> 2) <<< 2) + UInt64.ofNat t
  dataLen : s.dataLen + t + ((s.addr.toNat % 4 : Nat) : Int) =
    tlpMrDataLength mh + ((start.toNat % 4 : Nat) : Int)
  more : 0 < t → 0 < s.dataLen ∧ s.addr.toNat % 4 = 0

section

variable {ps : Psmem} {requester : UInt16} {mh : TlpMrHdr} {after : Nat → UInt8} {start : UInt64}
  {s : MrdState} {t : Nat}

theorem after_start (mh : TlpMrHdr) (after : Nat → UInt8) :
    After mh (tlpMrAddr mh after) 0 (mrdStart mh after) := by
  constructor <;> simp [mrdStart]

/-- What a round sends. -/
theorem After.send (h : After mh start t s) :
    ∃ send : Nat, (if s.len < MAXPAYLOADSIZE then s.len else MAXPAYLOADSIZE) = send ∧
      send % 4 = 0 ∧ send ≤ 256 ∧ (send : Int) ≤ s.len ∧
      (s.len < 256 → (send : Int) = s.len) ∧ (256 ≤ s.len → send = 256) := by
  have hlen := h.len
  have hsome := h.some
  have hwhole := h.whole
  rw [MAXPAYLOADSIZE]
  split
  · exact ⟨s.len.toNat, by omega, by omega, by omega, by omega, by omega, by omega⟩
  · exact ⟨256, rfl, by omega, by omega, by omega, by omega, by omega⟩

theorem After.next (h : After mh start t s)
    (hagain : mrdAgain (mrdRound ps requester mh s).2 = true) :
    ∃ t', After mh start t' (mrdRound ps requester mh s).2 ∧ (256 ≤ s.len → t' = t + 256) := by
  obtain ⟨send, hsend, hdw, hmax, hle, hshort, hlong⟩ := h.send
  have hlen := h.len
  have hdata := h.dataLen
  have hwhole := h.whole
  rw [mrdRound_eq ps requester mh hsend] at hagain ⊢
  have hpos : 0 < s.dataLen - (send - ((s.addr.toNat % 4 : Nat) : Int)) := of_decide_eq_true hagain
  have hplace : UInt64.ofInt (send : Int) = UInt64.ofNat send := by
    rw [UInt64.ofInt]
    congr 1
    omega
  have hlow : (((s.addr >>> 2) <<< 2) + UInt64.ofInt (send : Int)).toNat % 4 = 0 := by
    rw [hplace, UInt64.toNat_add, align_toNat, UInt64.toNat_ofNat']
    omega
  refine ⟨t + send, ⟨?_, ?_, ?_, ?_, ?_, ?_⟩, fun hge => by rw [hlong hge]⟩
  · show s.len - send + _ = _
    push_cast
    omega
  · show 0 ≤ s.len - send
    omega
  · show (t + send) % 256 = 0 ∨ s.len - send = 0
    rcases Int.lt_or_le s.len 256 with hlt | hge
    · exact .inr (by rw [hshort hlt]; omega)
    · rw [hlong hge]
      exact .inl (by omega)
  · have haligned : ∀ x : UInt64, x.toNat % 4 = 0 → (x >>> 2) <<< 2 = x := by
      intro x hx
      rw [← UInt64.toNat_inj, align_toNat]
      omega
    rw [haligned _ hlow, h.addr, hplace, UInt64.add_assoc]
    congr 1
    rw [← UInt64.toNat_inj, UInt64.toNat_add]
    simp
  · rw [hlow]
    show s.dataLen - _ + _ + _ = _
    push_cast
    omega
  · exact fun _ => ⟨hpos, hlow⟩

/-- Every round begins after some bytes. -/
theorem after_of_rounds (h : Rounds (mrdRound ps requester mh) mrdAgain (mrdStart mh after) s) :
    ∃ t, After mh (tlpMrAddr mh after) t s :=
  h.invariant (fun s => ∃ t, After mh (tlpMrAddr mh after) t s) ⟨0, after_start mh after⟩
    fun _ ⟨_, hs⟩ hagain => (hs.next hagain).imp fun _ => And.left

/-- The rounds go on until everything is copied. -/
theorem rounds_reach (k : Nat) (hk : 256 * k < mrdRead mh (tlpMrAddr mh after).toNat) :
    ∃ s, Rounds (mrdRound ps requester mh) mrdAgain (mrdStart mh after) s ∧
      After mh (tlpMrAddr mh after) (256 * k) s := by
  induction k with
  | zero => exact ⟨_, .first, after_start mh after⟩
  | succ k ih =>
    obtain ⟨s, hround, hs⟩ := ih (by omega)
    have hlen := hs.len
    have hdata := hs.dataLen
    have hbytes := (tlpMrDataLength_bounds mh).1
    have hread : mrdRead mh (tlpMrAddr mh after).toNat ≤ 4 * tlpLength mh.tlp.falen := by
      rw [mrdRead]
      split <;> omega
    have hlong : 256 ≤ s.len := by omega
    have hagain : mrdAgain (mrdRound ps requester mh s).2 = true := by
      obtain ⟨send, hsend, -, -, -, -, hfull⟩ := hs.send
      rw [mrdRound_eq ps requester mh hsend, mrdAgain, decide_eq_true_eq, hfull hlong]
      show 0 < s.dataLen - _
      rw [mrdRead] at hk
      split at hk <;> omega
    obtain ⟨t, ht, hmore⟩ := hs.next hagain
    refine ⟨_, .next hround hagain, ?_⟩
    rw [Nat.mul_succ, ← hmore hlong]
    exact ht

/-- A round copies within what the read copies. -/
theorem After.within (h : After mh start t s) :
    s.len = 0 ∨ t + min s.len.toNat 256 ≤ mrdRead mh start.toNat := by
  have hlen := h.len
  have hsome := h.some
  have hwhole := h.whole
  have hdata := h.dataLen
  rw [mrdRead]
  split
  · next hshort =>
    obtain ⟨hlong, hrest, hstops⟩ := hshort
    rcases Nat.eq_zero_or_pos t with rfl | hpos
    · omega
    · obtain ⟨hmore, hlow⟩ := h.more hpos
      omega
  · omega

/-- Where the copy of a round begins, relative to the first one. -/
theorem After.offset (h : After mh start t s) (hlow : ps.addr.toNat ≤ start.toNat / 4 * 4)
    (hsmall : start.toNat / 4 * 4 - ps.addr.toNat < 2 ^ 32) :
    (((s.addr >>> 2) <<< 2) - ps.addr).toNat = start.toNat / 4 * 4 - ps.addr.toNat + t := by
  have hstart := start.toNat_lt
  have hlen := h.len
  have hsome := h.some
  have ht : t ≤ 4 * 1023 := by
    have := tlpLength_lt mh.tlp.falen
    omega
  rw [h.addr, UInt64.toNat_sub, UInt64.toNat_add, align_toNat, UInt64.toNat_ofNat']
  omega

/-- The copy of a round, by its number of bytes. -/
theorem After.copy (h : After mh start t s) :
    (mrdRound ps requester mh s).1.copy =
      ⟨((s.addr >>> 2) <<< 2) - ps.addr, (min s.len.toNat 256 : Nat)⟩ := by
  obtain ⟨send, hsend, -, -, hle, hshort, hlong⟩ := h.send
  have hmin : send = min s.len.toNat 256 := by
    rcases Int.lt_or_le s.len 256 with hlt | hge
    · have := hshort hlt
      omega
    · have := hlong hge
      omega
  rw [mrdRound_eq ps requester mh hsend, hmin]

/-- The copies of a read stay in the buffer exactly when the whole stretch does. -/
theorem mrd_inBounds_iff (hpos : 0 < tlpLength mh.tlp.falen)
    (hpassed : ps.addr.toNat ≤ (tlpMrAddr mh after).toNat) :
    (∀ s, Rounds (mrdRound ps requester mh) mrdAgain (mrdStart mh after) s →
      (mrdRound ps requester mh s).1.copy.InBounds ps.size) ↔
    ps.addr.toNat ≤ (tlpMrAddr mh after).toNat / 4 * 4 ∧
      (tlpMrAddr mh after).toNat / 4 * 4 + mrdRead mh (tlpMrAddr mh after).toNat ≤
        ps.addr.toNat + ps.size.toNat := by
  have hsize := ps.size.toNat_lt
  have haddr := (tlpMrAddr mh after).toNat_lt
  have hread : 0 < mrdRead mh (tlpMrAddr mh after).toNat := by
    rw [mrdRead]
    split <;> omega
  constructor
  · intro hin
    have hlow : ps.addr.toNat ≤ (tlpMrAddr mh after).toNat / 4 * 4 ∧
        (tlpMrAddr mh after).toNat / 4 * 4 - ps.addr.toNat < ps.size.toNat := by
      have hfirst := hin _ .first
      have hstart := after_start mh after
      have hlen := hstart.len
      rw [hstart.copy, inBounds_iff (by omega) (by omega), hstart.addr, UInt64.toNat_sub] at hfirst
      simp only [UInt64.add_zero, align_toNat, show UInt64.ofNat 0 = 0 from rfl] at hfirst
      omega
    obtain ⟨s, hround, hs⟩ : ∃ s, Rounds (mrdRound ps requester mh) mrdAgain (mrdStart mh after) s ∧
        After mh (tlpMrAddr mh after)
          (256 * ((mrdRead mh (tlpMrAddr mh after).toNat - 1) / 256)) s :=
      rounds_reach _ (by omega)
    have hlen := hs.len
    have hlast := hin s hround
    have hwhole : mrdRead mh (tlpMrAddr mh after).toNat ≤ 4 * tlpLength mh.tlp.falen := by
      rw [mrdRead]
      split <;> omega
    rw [hs.copy, inBounds_iff (by omega) (by omega), hs.offset hlow.1 (by omega)] at hlast
    omega
  · rintro ⟨hlow, hend⟩ s hround
    obtain ⟨t, hs⟩ := after_of_rounds hround
    rw [hs.copy]
    rcases hs.within with hzero | hwithin
    · rw [hzero]
      exact ⟨le_rfl, fun i hi => absurd hi (by simp)⟩
    · rcases Nat.eq_zero_or_pos (min s.len.toNat 256) with hnone | hsome
      · rw [hnone]
        exact ⟨le_rfl, fun i hi => absurd hi (by simp)⟩
      · rw [inBounds_iff hsome (by omega), hs.offset hlow (by omega)]
        omega

end

/-! ## The test and the buffer -/

/-- A read that passed the test stays in the buffer: it is empty, or it begins in the region with its
    doubleword, and its end was not taken for a small number while the end of the region was not. The
    last case is a request whose end is past the end of the address space although what it copies is
    not. -/
def MrdConfined (ps : Psmem) (mh : TlpMrHdr) (addr : Nat) : Prop :=
  tlpLength mh.tlp.falen = 0 ∨
    ps.addr.toNat ≤ addr / 4 * 4 ∧
      (addr + 4 * tlpLength mh.tlp.falen < 2 ^ 64 ∨ 2 ^ 64 ≤ ps.addr.toNat + ps.size.toNat ∨
        addr / 4 * 4 + mrdRead mh addr ≤ ps.addr.toNat + ps.size.toNat)

/-- A write that passed the test stays in the buffer. -/
def MwrConfined (ps : Psmem) (mh : TlpMrHdr) (addr : Nat) : Prop :=
  tlpMrDataLength mh = 0 ∨
    0 < tlpMrDataLength mh ∧
      ((addr : Int) + tlpMrDataLength mh < 2 ^ 64 ∨ 2 ^ 64 ≤ ps.addr.toNat + ps.size.toNat)

instance (ps : Psmem) (mh : TlpMrHdr) (addr : Nat) : Decidable (MrdConfined ps mh addr) :=
  inferInstanceAs (Decidable (_ ∨ _))

instance (ps : Psmem) (mh : TlpMrHdr) (addr : Nat) : Decidable (MwrConfined ps mh addr) :=
  inferInstanceAs (Decidable (_ ∨ _))

/-- What a request that passed the test satisfies. -/
theorem accepted_iff {ps : Psmem} {addr : UInt64} {len : Int} :
    ps.refuses addr len = false ↔ ps.addr.toNat ≤ addr.toNat ∧
      ((addr.toNat : Int) + len) % 2 ^ 64 ≤ (ps.addr.toNat + ps.size.toNat) % 2 ^ 64 := by
  have hend : (addr + UInt64.ofInt len).toNat = (((addr.toNat : Int) + len) % 2 ^ 64).toNat := by
    rw [UInt64.toNat_add, UInt64.ofInt, UInt64.toNat_ofNat']
    omega
  rw [Psmem.refuses, Bool.or_eq_false_iff, decide_eq_false_iff_not, decide_eq_false_iff_not,
    UInt64.lt_iff_toNat_lt, gt_iff_lt, UInt64.lt_iff_toNat_lt, hend, UInt64.toNat_add,
    UInt32.toNat_toUInt64]
  omega

section

variable {ps : Psmem} {mh : TlpMrHdr} {after : Nat → UInt8}

theorem mrd_confined_iff (requester : UInt16)
    (haccepted : ps.refuses (tlpMrAddr mh after) ((4 * tlpLength mh.tlp.falen : Nat) : Int) = false) :
    (∀ s, Rounds (mrdRound ps requester mh) mrdAgain (mrdStart mh after) s →
      (mrdRound ps requester mh s).1.copy.InBounds ps.size) ↔
    MrdConfined ps mh (tlpMrAddr mh after).toNat := by
  obtain ⟨hpassed, hend⟩ := accepted_iff.mp haccepted
  rcases Nat.eq_zero_or_pos (tlpLength mh.tlp.falen) with hzero | hpos
  · refine iff_of_true (fun s hround => ?_) (.inl hzero)
    obtain ⟨t, hs⟩ := after_of_rounds hround
    have hlen := hs.len
    have hsome := hs.some
    have hempty : s.len = 0 := by omega
    rw [hs.copy, hempty]
    exact ⟨le_rfl, fun i hi => absurd hi (by simp)⟩
  · have haddr := (tlpMrAddr mh after).toNat_lt
    have hbase := ps.addr.toNat_lt
    have hsize := ps.size.toNat_lt
    have hlength := tlpLength_lt mh.tlp.falen
    have hwhole : mrdRead mh (tlpMrAddr mh after).toNat ≤ 4 * tlpLength mh.tlp.falen := by
      rw [mrdRead]
      split <;> omega
    rw [mrd_inBounds_iff hpos hpassed, MrdConfined, or_iff_right (by omega)]
    refine and_congr_right fun hlow => ⟨fun h => .inr (.inr h), fun h => ?_⟩
    rcases h with hbelow | hwrap | hin
    · omega
    · omega
    · exact hin

theorem mwr_confined_iff (haccepted : ps.refuses (tlpMrAddr mh after) (tlpMrDataLength mh) = false) :
    Copy.InBounds ⟨tlpMrAddr mh after - ps.addr, tlpMrDataLength mh⟩ ps.size ↔
      MwrConfined ps mh (tlpMrAddr mh after).toNat := by
  obtain ⟨hpassed, hend⟩ := accepted_iff.mp haccepted
  have haddr := (tlpMrAddr mh after).toNat_lt
  have hsize := ps.size.toNat_lt
  have hbytes := (tlpMrDataLength_bounds mh).2
  have hlength := tlpLength_lt mh.tlp.falen
  have hplace : (tlpMrAddr mh after - ps.addr).toNat =
      (tlpMrAddr mh after).toNat - ps.addr.toNat :=
    UInt64.toNat_sub_of_le _ _ (UInt64.le_iff_toNat_le.mpr hpassed)
  rw [MwrConfined]
  rcases lt_trichotomy (tlpMrDataLength mh) 0 with hneg | hzero | hpos
  · refine iff_of_false (fun h => ?_) (by omega)
    have : 0 ≤ tlpMrDataLength mh := h.1
    omega
  · refine iff_of_true ?_ (.inl hzero)
    rw [hzero]
    exact ⟨le_rfl, fun i hi => absurd hi (by simp)⟩
  · obtain ⟨n, hn⟩ := Int.eq_ofNat_of_zero_le hpos.le
    rw [hn] at hend hpos hbytes ⊢
    rw [inBounds_iff (by omega) (by omega), hplace]
    omega

end

/-- A request touches nothing but the buffer exactly when it is refused or `MrdConfined`, and
    `MwrConfined`. -/
theorem psmem_confined_iff (ps : Psmem) (requester : UInt16) (mh : TlpMrHdr)
    (after : Nat → UInt8) :
    (∀ c, PsmemCopy ps requester mh after c → c.InBounds ps.size) ↔
      (tlpIsMrd mh.tlp.fmtType = true →
        ps.refuses (tlpMrAddr mh after) ((4 * tlpLength mh.tlp.falen : Nat) : Int) = true ∨
          MrdConfined ps mh (tlpMrAddr mh after).toNat) ∧
      (tlpIsMwr mh.tlp.fmtType = true →
        ps.refuses (tlpMrAddr mh after) (tlpMrDataLength mh) = true ∨
          MwrConfined ps mh (tlpMrAddr mh after).toNat) := by
  constructor
  · intro h
    refine ⟨fun hmrd => ?_, fun hmwr => ?_⟩
    · refine or_iff_not_imp_left.mpr fun hnot => ?_
      have haccepted := Bool.eq_false_iff.mpr hnot
      exact (mrd_confined_iff requester haccepted).mp fun s hs => h _ (.read hmrd haccepted hs)
    · refine or_iff_not_imp_left.mpr fun hnot => ?_
      have haccepted := Bool.eq_false_iff.mpr hnot
      exact (mwr_confined_iff haccepted).mp (h _ (.write hmwr (by rw [mwrCopy, if_neg hnot])))
  · rintro ⟨hread, hwrite⟩ c hc
    cases hc with
    | read hmrd haccepted hround =>
      have hconfined := (hread hmrd).resolve_left (by rw [haccepted]; simp)
      exact (mrd_confined_iff requester haccepted).mpr hconfined _ hround
    | write hmwr hcopies =>
      rw [mwrCopy] at hcopies
      split at hcopies
      · cases hcopies
      · next hnot =>
        obtain rfl := Option.some.inj hcopies
        exact (mwr_confined_iff (Bool.eq_false_iff.mpr hnot)).mpr ((hwrite hmwr).resolve_left hnot)

/-- The end of a read of the last doubleword of the address space is zero, which lies in any region. -/
theorem psmem_read_escapes :
    ¬ ∀ (ps : Psmem) (requester : UInt16) (mh : TlpMrHdr) (after : Nat → UInt8) (c : Copy),
      PsmemCopy ps requester mh after c → c.InBounds ps.size := by
  intro h
  have hin := h ⟨0, 8192, fun _ => 0⟩ 0x0200 ⟨⟨0x20, 0, 1⟩, 0x0100, 7, 0xF, 0x0⟩
    (overlay (beBytes 8 0xFFFFFFFFFFFFFFFC) fun _ => 0) _
    (.read (by decide +kernel) (by decide +kernel) .first)
  exact absurd (hin.2 0 (by decide +kernel)) (by decide +kernel)

end SdPlane
