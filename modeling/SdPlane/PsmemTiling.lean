import SdPlane.DmaRequest
import SdPlane.Psmem

/-!
# Completions tile the request

`Tiles ps a n cs` says of a list of completions that they answer for `n` bytes from address `a` on:
each carries the next `k` of them, with its byte count at the number still outstanding and its lower
address at the next byte, and the rest answers for the rest. So every byte is carried once, in
order, without a gap. `nettlp_psmem_mrd` sends such a list for every request that was built for a
range below 1024 doublewords: after the first round the address is a doubleword's, and what
`data_len` loses in a round is what the completion carried.

The payload is another matter. The sender puts it right behind the completion header, and
`tlp_cpld_data` looks for it four bytes later, as if an address stood between them. What it reads
always ends behind the packet.
-/

set_option autoImplicit false

namespace SdPlane

open Lib

/-! ## What one completion says -/

theorem tlpCplBcnt_set (sc : UInt16) (n : Nat) (hn : n < 4096) :
    tlpCplBcnt (tlpSetCplBcnt sc n) = n := by
  have hmask : ((sc &&& ~~~TLP_CPL_BCNT_MASK) ||| UInt16.ofInt n) &&& TLP_CPL_BCNT_MASK =
      UInt16.ofInt n &&& TLP_CPL_BCNT_MASK := by
    rw [← UInt16.toBitVec_inj]
    ext i hi
    simp
    grind
  have hvalue : (UInt16.ofInt n).toNat = n := by
    rw [UInt16.ofInt, UInt16.toNat_ofNat']
    omega
  have hm : TLP_CPL_BCNT_MASK.toNat = 2 ^ 12 - 1 := rfl
  rw [tlpCplBcnt, tlpSetCplBcnt, hmask, UInt16.toNat_and, hvalue, hm,
    Nat.and_two_pow_sub_one_eq_mod]
  omega

theorem lowaddr_toNat (addr : UInt64) : ((addr &&& 0x7F).toUInt8).toNat = addr.toNat % 128 := by
  have hmask : (addr &&& 0x7F).toNat = addr.toNat % 128 := by
    rw [UInt64.toNat_and]
    exact Nat.and_two_pow_sub_one_eq_mod addr.toNat 7
  rw [UInt64.toNat_toUInt8, hmask]
  omega

theorem low8_toNat (x : UInt8) : (x &&& 0x3).toNat = x.toNat % 4 := by
  rw [UInt8.toNat_and]
  exact Nat.and_two_pow_sub_one_eq_mod x.toNat 2

/-- The header of a completion, read back. -/
theorem cplHeader_length (requester : UInt16) (mh : TlpMrHdr) (addr : UInt64) (dataLen : Int)
    {send : Nat} (hsend : send ≤ 256) :
    tlpLength (cplHeader requester mh send dataLen addr).tlp.falen = send / 4 := by
  have hdw : ((send : Int) / 4).toNat = send / 4 := by omega
  rw [cplHeader, tlpLength_set, hdw]
  omega

theorem cplHeader_bcnt (requester : UInt16) (mh : TlpMrHdr) (addr : UInt64) (send : Int) {n : Nat}
    (hn : n < 4096) : tlpCplBcnt (cplHeader requester mh send n addr).stcnt = n := by
  rw [cplHeader, tlpCplBcnt_set _ n hn]

theorem cplHeader_low (requester : UInt16) (mh : TlpMrHdr) (addr : UInt64) (send dataLen : Int) :
    ((cplHeader requester mh send dataLen addr).lowaddr &&& 0x3).toNat = addr.toNat % 4 := by
  rw [low8_toNat, cplHeader, lowaddr_toNat]
  omega

theorem cplHeader_dataLength (requester : UInt16) (mh : TlpMrHdr) (addr : UInt64) {send n : Nat}
    (hsend : send ≤ 256) (hn : n < 4096) :
    tlpCpldDataLength (cplHeader requester mh send n addr) =
      if send / 4 = (addr.toNat % 4 + n + 3) / 4 then (n : Int)
      else ((4 * (send / 4) : Nat) : Int) - ((addr.toNat % 4 : Nat) : Int) := by
  rw [tlpCpldDataLength, cplHeader_length _ _ _ _ hsend, cplHeader_bcnt _ _ _ _ hn, cplHeader_low]

/-- A completion that carries `k` of the `n` bytes outstanding, the next of which is at `a`. -/
structure CplCarries (ps : Psmem) (a n k : Nat) (c : Cpl) : Prop where
  size : c.copy.len ≤ MAXPAYLOADSIZE
  bcnt : tlpCplBcnt c.ch.stcnt = n
  lowaddr : c.ch.lowaddr.toNat = a % 128
  count : tlpCpldDataLength c.ch = k
  dwords : c.copy.len = ((4 * tlpLength c.ch.tlp.falen : Nat) : Int)
  source : c.copy.offset = UInt64.ofNat (a / 4 * 4) - ps.addr
  covers : ((a % 4 + k : Nat) : Int) ≤ c.copy.len
  data : c.data = ps.bytes c.copy.offset c.copy.len.toNat

/-- The completions answer for `n` bytes from `a` on. -/
inductive Tiles (ps : Psmem) : Nat → Nat → List Cpl → Prop
  | last {a n : Nat} {c : Cpl} (carries : CplCarries ps a n n c) : Tiles ps a n [c]
  | cons {a n k : Nat} {c : Cpl} {cs : List Cpl} (carries : CplCarries ps a n k c) (some : 0 < k)
      (less : k < n) (rest : Tiles ps (a + k) (n - k) cs) : Tiles ps a n (c :: cs)

/-- Completions that tile `n` bytes carry `n` bytes. -/
theorem Tiles.sum {ps : Psmem} {a n : Nat} {cs : List Cpl} (h : Tiles ps a n cs) :
    (cs.map fun c => tlpCpldDataLength c.ch).sum = n := by
  induction h with
  | last carries => simp [carries.count]
  | cons carries _ less _ ih =>
    rw [List.map_cons, List.sum_cons, ih, carries.count]
    omega

/-! ## The loop -/

/-- Where the loop stands when `n` bytes from `a` on are outstanding. -/
structure Outstanding (s : MrdState) (a n : Nat) : Prop where
  addr : s.addr.toNat = a
  dataLen : s.dataLen = n
  len : s.len = ((4 * ((a % 4 + n + 3) / 4) : Nat) : Int)
  some : 0 < n
  fits : a % 4 + n ≤ 4092
  within : a + n ≤ 2 ^ 64

section

variable (ps : Psmem) (requester : UInt16) (mh : TlpMrHdr) {s : MrdState} {a n : Nat}

/-- One round, when the number of bytes to be sent is known. -/
theorem mrdRound_eq {send : Nat}
    (hsend : (if s.len < MAXPAYLOADSIZE then s.len else MAXPAYLOADSIZE) = send) :
    mrdRound ps requester mh s =
      ({ ch := cplHeader requester mh send s.dataLen s.addr
         copy := ⟨((s.addr >>> 2) <<< 2) - ps.addr, send⟩
         data := ps.bytes (((s.addr >>> 2) <<< 2) - ps.addr) send },
       { len := s.len - send
         dataLen := s.dataLen - (send - ((s.addr.toNat % 4 : Nat) : Int))
         addr := ((s.addr >>> 2) <<< 2) + UInt64.ofInt send }) := by
  rw [mrdRound]
  simp only [hsend, Int.toNat_natCast, low_toNat]

/-- The completion of a round carries what the header of the completion says. -/
theorem Outstanding.carries (h : Outstanding s a n) {send k : Nat}
    (hsend : (if s.len < MAXPAYLOADSIZE then s.len else MAXPAYLOADSIZE) = send) (hmax : send ≤ 256)
    (hdw : send % 4 = 0) (hcovers : a % 4 + k ≤ send)
    (hk : (if send / 4 = (a % 4 + n + 3) / 4 then (n : Int)
      else ((4 * (send / 4) : Nat) : Int) - ((a % 4 : Nat) : Int)) = k) :
    CplCarries ps a n k (mrdRound ps requester mh s).1 := by
  have hn : n < 4096 := by have := h.fits; omega
  rw [mrdRound_eq ps requester mh hsend, h.dataLen]
  constructor
  · show (send : Int) ≤ MAXPAYLOADSIZE
    rw [MAXPAYLOADSIZE]
    omega
  · exact cplHeader_bcnt _ _ _ _ hn
  · rw [← h.addr]
    exact lowaddr_toNat s.addr
  · rw [cplHeader_dataLength _ _ _ hmax hn, h.addr, hk]
  · rw [cplHeader_length _ _ _ _ hmax]
    show (send : Int) = _
    omega
  · rw [← h.addr, ← align_toNat, UInt64.ofNat_toNat]
  · show ((a % 4 + k : Nat) : Int) ≤ send
    exact_mod_cast hcovers
  · rfl

theorem mrdRound_last (h : Outstanding s a n) (hlast : a % 4 + n ≤ 256) :
    mrdAgain (mrdRound ps requester mh s).2 = false ∧
      CplCarries ps a n n (mrdRound ps requester mh s).1 := by
  have hlen := h.len
  have hsend : (if s.len < MAXPAYLOADSIZE then s.len else MAXPAYLOADSIZE) =
      ((4 * ((a % 4 + n + 3) / 4) : Nat) : Int) := by
    rw [hlen, MAXPAYLOADSIZE]
    split <;> omega
  refine ⟨?_, h.carries ps requester mh hsend (by omega) (by omega) (by omega) ?_⟩
  · rw [mrdRound_eq ps requester mh hsend, mrdAgain, decide_eq_false_iff_not]
    show ¬ 0 < s.dataLen - _
    rw [h.dataLen, h.addr]
    omega
  · rw [if_pos (by omega)]

theorem mrdRound_more (h : Outstanding s a n) (hmore : 256 < a % 4 + n) :
    Outstanding (mrdRound ps requester mh s).2 (a + (256 - a % 4)) (n - (256 - a % 4)) ∧
      CplCarries ps a n (256 - a % 4) (mrdRound ps requester mh s).1 := by
  have hlen := h.len
  have hwithin := h.within
  have hfits := h.fits
  have hsend : (if s.len < MAXPAYLOADSIZE then s.len else MAXPAYLOADSIZE) = (256 : Nat) := by
    rw [hlen, MAXPAYLOADSIZE]
    split <;> omega
  refine ⟨?_, h.carries ps requester mh hsend (by omega) (by omega) (by omega) ?_⟩
  · rw [mrdRound_eq ps requester mh hsend]
    constructor
    · show (((s.addr >>> 2) <<< 2) + 256).toNat = _
      rw [UInt64.toNat_add, align_toNat, h.addr]
      simp
      omega
    · show s.dataLen - _ = _
      rw [h.dataLen, h.addr]
      omega
    · show s.len - _ = _
      rw [hlen]
      omega
    all_goals omega
  · rw [if_neg (by omega)]
    omega

end

/-- From any point of the loop on, the completions tile what is outstanding. -/
theorem doWhile_tiles (ps : Psmem) (requester : UInt16) (mh : TlpMrHdr) {s : MrdState} {a n : Nat}
    (h : Outstanding s a n) :
    ∃ cs, Tiles ps a n cs ∧
      ∀ fuel, n < fuel → doWhile (mrdRound ps requester mh) mrdAgain fuel s = some cs := by
  have hrule := @doWhile_of_measure _ _ (mrdRound ps requester mh) mrdAgain
    (fun s => Outstanding s s.addr.toNat s.dataLen.toNat)
    (fun s cs => Tiles ps s.addr.toNat s.dataLen.toNat cs) (fun s => s.dataLen.toNat)
    ?_ ?_ s (by rw [h.addr, h.dataLen]; exact h)
  · rw [h.addr, h.dataLen] at hrule
    exact hrule
  · intro s hs hstop
    rcases Nat.lt_or_ge 256 (s.addr.toNat % 4 + s.dataLen.toNat) with hmore | hlast
    · have hagain := (mrdRound_more ps requester mh hs hmore).1
      rw [mrdAgain, decide_eq_false_iff_not, hagain.dataLen] at hstop
      omega
    · exact .last (mrdRound_last ps requester mh hs hlast).2
  · intro s hs hagain
    rcases Nat.lt_or_ge 256 (s.addr.toNat % 4 + s.dataLen.toNat) with hmore | hlast
    · obtain ⟨hnext, hcarries⟩ :=
        mrdRound_more ps requester mh hs hmore
      have hlow : s.addr.toNat % 4 < 4 := Nat.mod_lt _ (by omega)
      rw [hnext.addr, hnext.dataLen, Int.toNat_natCast]
      exact ⟨hnext, by omega, fun cs hcs => .cons hcarries (by omega) (by omega) hcs⟩
    · rw [(mrdRound_last ps requester mh hs hlast).1] at hagain
      cases hagain

/-! ## Requests -/

/-- The request was built by `tlp_calculate_*` for `count` bytes from `addr` on. -/
structure BuiltRequest (mh : TlpMrHdr) (after : Nat → UInt8) (addr count : UInt64) : Prop where
  lstdw : tlpCalculateLstdw addr count = some mh.lstdw
  fstdw : mh.fstdw = tlpCalculateFstdw addr count
  length : ∃ fl, mh.tlp.falen = tlpSetLength fl (tlpCalculateLength addr count)
  address : beNat after 0 (if tlpIs3dw mh.tlp.fmtType then 4 else 8) = addr.toNat / 4 * 4

theorem BuiltRequest.range {mh : TlpMrHdr} {after : Nat → UInt8} {addr count : UInt64}
    (h : BuiltRequest mh after addr count) (hspan : (addr.toNat % 4 + count.toNat + 3) / 4 < 1024) :
    ∃ s, SaysRange mh addr.toNat count.toNat s := by
  have hl := h.lstdw
  obtain ⟨fl, hfl⟩ := h.length
  rw [tlpCalculateLstdw_eq, Option.map_eq_some_iff] at hl
  obtain ⟨s, hs, hlanes⟩ := hl
  refine ⟨s, hs, h.fstdw.trans (tlpCalculateFstdw_eq addr count), hlanes.symm, ?_⟩
  rw [hfl, tlpLength_set, tlpCalculateLength_eq (by omega)]

/-- The loop begins with the whole range outstanding. -/
theorem BuiltRequest.outstanding {mh : TlpMrHdr} {after : Nat → UInt8} {addr count : UInt64}
    (h : BuiltRequest mh after addr count) (hsome : 0 < count.toNat)
    (hspan : (addr.toNat % 4 + count.toNat + 3) / 4 < 1024)
    (hwithin : addr.toNat + count.toNat ≤ 2 ^ 64) :
    Outstanding (mrdStart mh after) addr.toNat count.toNat := by
  have ha := addr.toNat_lt
  obtain ⟨s, hrange⟩ := h.range hspan
  have hrepr : Representable addr.toNat count.toNat := by
    refine ⟨by omega, ?_⟩
    rcases Nat.lt_or_ge addr.toNat (2 ^ 64 - 4) with hlow | htop
    · exact .inl ⟨hlow, .inl hwithin⟩
    · have hreach := hrange.reach
      rw [lastReach_top ha hsome (by omega) htop] at hreach
      split at hreach
      · cases hreach
      · exact .inr ⟨htop, .inl (by omega)⟩
  obtain ⟨s', hs', hcount⟩ := (representable_iff ha hsome (by omega)).mpr hrepr
  obtain rfl := Option.some.inj (hs'.symm.trans hrange.reach)
  refine ⟨?_, ?_, ?_, hsome, by omega, hwithin⟩
  · rw [mrdStart, hrange.addr hsome h.address, UInt64.ofNat_toNat]
  · show tlpMrDataLength mh = _
    rw [hrange.dataLength hsome]
    omega
  · rw [mrdStart, hrange.length, Nat.mod_eq_of_lt hspan]

/-- The completions tile the request: every byte once, in order, without a gap, and their data
    lengths add up to the length of the request. -/
theorem psmemMrd_tiles (ps : Psmem) (requester : UInt16) (mh : TlpMrHdr) (after : Nat → UInt8)
    (addr count : UInt64) (hbuilt : BuiltRequest mh after addr count) (hsome : 0 < count.toNat)
    (hspan : (addr.toNat % 4 + count.toNat + 3) / 4 < 1024)
    (hwithin : addr.toNat + count.toNat ≤ 2 ^ 64)
    (haccepted : ps.refuses (tlpMrAddr mh after) ((4 * tlpLength mh.tlp.falen : Nat) : Int) = false) :
    ∃ cs, (∀ fuel, count.toNat < fuel → nettlpPsmemMrd fuel ps requester mh after = some cs) ∧
      Tiles ps addr.toNat count.toNat cs ∧
      (cs.map fun c => tlpCpldDataLength c.ch).sum = count.toNat := by
  obtain ⟨cs, htiles, hrun⟩ :=
    doWhile_tiles ps requester mh (hbuilt.outstanding hsome hspan hwithin)
  refine ⟨cs, fun fuel hfuel => ?_, htiles, htiles.sum⟩
  rw [nettlpPsmemMrd, haccepted, if_neg (by simp)]
  exact hrun fuel hfuel

/-! ## The payload of a completion -/

/-- The payload of the completions as the receiver takes it out of the packets. -/
def payloads (cs : List Cpl) : Option (List UInt8) :=
  (cs.mapM fun c => packetRead c.data (tlpCpldData c.ch) (tlpCpldDataLength c.ch)).map List.flatten

/-- What the receiver reads of a completion ends behind the packet. -/
theorem mrdRound_misread (ps : Psmem) (requester : UInt16) (mh : TlpMrHdr) (s : MrdState) {dw : Nat}
    (hlen : s.len = ((4 * dw : Nat) : Int)) :
    packetRead (mrdRound ps requester mh s).1.data (tlpCpldData (mrdRound ps requester mh s).1.ch)
      (tlpCpldDataLength (mrdRound ps requester mh s).1.ch) = none := by
  obtain ⟨dw', hdw', hmax⟩ : ∃ k : Nat,
      (if s.len < MAXPAYLOADSIZE then s.len else MAXPAYLOADSIZE) = ((4 * k : Nat) : Int) ∧ k ≤ 64 := by
    rw [hlen, MAXPAYLOADSIZE]
    split
    · exact ⟨dw, rfl, by omega⟩
    · exact ⟨64, rfl, le_rfl⟩
  rw [mrdRound_eq ps requester mh hdw']
  have h3 : tlpIs3dw (cplHeader requester mh ((4 * dw' : Nat) : Int) s.dataLen s.addr).tlp.fmtType =
      true := by
    rw [cplHeader, tlpIs3dw_setType, tlpIs3dw_set]
    rfl
  rw [packetRead, if_neg]
  rintro ⟨-, hin⟩
  simp only [Psmem.bytes, List.length_map, List.length_range, tlpCpldData, h3, if_true,
    cplHeader_low, tlpCpldDataLength, cplHeader_length _ _ _ _ (by omega : 4 * dw' ≤ 256)] at hin
  split at hin <;> omega

theorem payloads_none {ps : Psmem} {requester : UInt16} {mh : TlpMrHdr} {after : Nat → UInt8}
    {fuel : Nat} {cs : List Cpl}
    (haccepted : ps.refuses (tlpMrAddr mh after) ((4 * tlpLength mh.tlp.falen : Nat) : Int) = false)
    (hrun : nettlpPsmemMrd fuel ps requester mh after = some cs) : payloads cs = none := by
  rw [nettlpPsmemMrd, haccepted, if_neg (by simp)] at hrun
  obtain ⟨rest, rfl⟩ := doWhile_head hrun
  rw [payloads, List.mapM_cons, mrdRound_misread ps requester mh (mrdStart mh after) rfl]
  rfl

/-- No request ever gets its bytes back. -/
theorem psmemMrd_payloads_lost (ps : Psmem) (requester : UInt16) (mh : TlpMrHdr)
    (after : Nat → UInt8) (addr count : UInt64)
    (haccepted : ps.refuses (tlpMrAddr mh after) ((4 * tlpLength mh.tlp.falen : Nat) : Int) = false) :
    ¬ ∃ fuel cs, nettlpPsmemMrd fuel ps requester mh after = some cs ∧
      payloads cs = some (ps.bytes (addr - ps.addr) count.toNat) := by
  rintro ⟨fuel, cs, hrun, hread⟩
  rw [payloads_none haccepted hrun] at hread
  cases hread

/-! ## One request

300 bytes from address `0x1001` on, of a pseudo memory of 8 KiB at `0x1000`. -/

def somePsmem : Psmem := ⟨0x1000, 8192, fun offset => offset.toUInt8⟩

def someRequest : TlpMrHdr := ⟨⟨0, 0, 76⟩, 0x0100, 7, 0xE, 0x1⟩

def someAddress : Nat → UInt8 := overlay (beBytes 4 0x1000) fun _ => 0

theorem someRequest_built : BuiltRequest someRequest someAddress 0x1001 300 where
  lstdw := by decide +kernel
  fstdw := by decide +kernel
  length := ⟨0, by decide +kernel⟩
  address := by decide +kernel

theorem someRequest_accepted :
    somePsmem.refuses (tlpMrAddr someRequest someAddress)
      ((4 * tlpLength someRequest.tlp.falen : Nat) : Int) = false := by decide +kernel

theorem someRequest_tiles :
    ∃ cs, (∀ fuel, 300 < fuel →
        nettlpPsmemMrd fuel somePsmem 0x0200 someRequest someAddress = some cs) ∧
      Tiles somePsmem 0x1001 300 cs ∧ (cs.map fun c => tlpCpldDataLength c.ch).sum = 300 :=
  psmemMrd_tiles somePsmem 0x0200 someRequest someAddress 0x1001 300 someRequest_built (by decide)
    (by decide) (by decide) someRequest_accepted

theorem someRequest_lost :
    ¬ ∃ fuel cs, nettlpPsmemMrd fuel somePsmem 0x0200 someRequest someAddress = some cs ∧
      payloads cs = some (somePsmem.bytes (0x1001 - somePsmem.addr) 300) :=
  psmemMrd_payloads_lost somePsmem 0x0200 someRequest someAddress 0x1001 300 someRequest_accepted

/-- So payloads do not come back. -/
theorem payloads_not_returned :
    ¬ ∀ (ps : Psmem) (requester : UInt16) (mh : TlpMrHdr) (after : Nat → UInt8)
      (addr count : UInt64), ps.addr &&& 0x3 = 0 → BuiltRequest mh after addr count →
        (addr.toNat % 4 + count.toNat + 3) / 4 < 1024 → 0 < count.toNat →
        ps.refuses (tlpMrAddr mh after) ((4 * tlpLength mh.tlp.falen : Nat) : Int) = false →
          ∃ fuel cs, nettlpPsmemMrd fuel ps requester mh after = some cs ∧
            payloads cs = some (ps.bytes (addr - ps.addr) count.toNat) := by
  intro h
  obtain ⟨fuel, cs, hrun, hread⟩ := h somePsmem 0x0200 someRequest someAddress 0x1001 300
    (by decide) someRequest_built (by decide) (by decide) someRequest_accepted
  rw [payloads_none someRequest_accepted hrun] at hread
  cases hread

end SdPlane
