import SdPlane.TlpRange

/-!
# Requests that the receiver understands (`nettlp_send_dma_read`, `nettlp_send_dma_write`)

A request is built for an address and a count, and the receiver makes an address and a count of it.
The address always comes back. The count comes back exactly when the range is `Representable`: it
spans at most 1023 doublewords, since 1024 and 1025 do not fit the ten bits, and it does not pass
the end of the 64-bit address space, apart from a few ranges where nothing goes wrong there.

The payload of a write must also be where the receiver looks. The sender pads one byte for each
clear enable among the first three, the receiver skips the clear ones in front only, so they agree
exactly when no enable behind the payload is among the three: when the range reaches the third byte
of its first doubleword. A shorter payload is found only if it is all zero, like the padding.
-/

set_option autoImplicit false

namespace SdPlane

open Lib

/-! ## Ranges -/

/-- The ranges whose count survives: ten bits of length hold them, and no mask is reckoned past the
    end of the address space. -/
def Representable (a c : Nat) : Prop :=
  a % 4 + c ≤ 4092 ∧
    (a < 2 ^ 64 - 4 ∧ (a + c ≤ 2 ^ 64 ∨ (a + c) % 4 = 0) ∨
      2 ^ 64 - 4 ≤ a ∧ (a + c = 2 ^ 64 ∨ (a = 2 ^ 64 - 4 ∧ 4 < c ∧ c ≤ 8) ∨
        (8 ≤ c ∧ c < 36 ∧ (a + c) % 4 = 0)))

instance (a c : Nat) : Decidable (Representable a c) := inferInstanceAs (Decidable (_ ∧ _))

theorem representable_iff {a c : Nat} (ha : a < 2 ^ 64) (hc : 0 < c) (hc' : c ≤ 4096) :
    (∃ s, lastReach a c = some s ∧ 4 * ((a % 4 + c + 3) / 4 % 1024) =
      c + (a % 4 + (4 - (a % 4 + c))) + (if s = 0 then 0 else 4 - s)) ↔ Representable a c := by
  unfold Representable
  rcases Nat.lt_or_ge 4092 (a % 4 + c) with hlong | hfits
  · have hwrapped : (a % 4 + c + 3) / 4 % 1024 ≤ 1 := by omega
    constructor
    · rintro ⟨s, -, hlen⟩
      omega
    · rintro ⟨hfits, -⟩
      omega
  have hlength : (a % 4 + c + 3) / 4 % 1024 = (a % 4 + c + 3) / 4 := Nat.mod_eq_of_lt (by omega)
  rw [hlength]
  rcases Nat.lt_or_ge a (2 ^ 64 - 4) with hlow | htop
  · rcases Nat.lt_or_ge (a + c) (2 ^ 64) with hend | hend
    · rw [lastReach_below hc hlow hend]
      simp only [Option.some.injEq, exists_eq_left']
      by_cases hone : a % 4 + c ≤ 4
      · rw [if_pos hone, if_pos rfl]
        omega
      · rw [if_neg hone, if_neg (Nat.succ_ne_zero _)]
        omega
    · rw [lastReach_wrap hc hc' hlow hend]
      simp only [Option.some.injEq, exists_eq_left', if_true]
      omega
  · rw [lastReach_top ha hc hc' htop]
    split_ifs with hnone
    · simp only [false_and, exists_false, false_iff]
      omega
    · simp only [Option.some.injEq, exists_eq_left']
      split_ifs <;> omega

/-! ## Reading a request back -/

theorem mrHeader_none {stale : TlpMrHdr} {conf : NettlpConf} {type wd : UInt8} {count : UInt64}
    (h : lastReach conf.memoryAddr.toNat count.toNat = none) :
    mrHeader stale conf type wd count = none := by
  rw [mrHeader, tlpCalculateLstdw_eq, h]
  rfl

/-- What a built header says, and that the address is read back from behind it. -/
theorem mrHeader_some (stale : TlpMrHdr) {conf : NettlpConf} (type wd : UInt8) {count : UInt64}
    {s : Nat} (hc : 0 < count.toNat) (hc' : count.toNat ≤ 4096)
    (h : lastReach conf.memoryAddr.toNat count.toNat = some s) :
    ∃ mh body, mrHeader stale conf type wd count = some (mh, body) ∧
      SaysRange mh conf.memoryAddr.toNat count.toNat s ∧
      body.length = (if tlpIs3dw mh.tlp.fmtType then 4 else 8) ∧
      ∀ more rest, tlpMrAddr mh (overlay (body ++ more) rest) = conf.memoryAddr := by
  have ha := conf.memoryAddr.toNat_lt
  have hfalen : tlpLength (tlpSetLength stale.tlp.falen
      (tlpCalculateLength conf.memoryAddr count)) =
        (conf.memoryAddr.toNat % 4 + count.toNat + 3) / 4 % 1024 := by
    rw [tlpLength_set, tlpCalculateLength_eq (by omega)]
  rw [mrHeader, tlpCalculateLstdw_eq, h]
  simp only [Option.map_some]
  split
  · next h32 =>
    have hlt : conf.memoryAddr.toNat < 2 ^ 32 - 1 := UInt64.lt_iff_toNat_lt.mp h32
    refine ⟨_, _, rfl, ⟨h, tlpCalculateFstdw_eq _ _, rfl, hfalen⟩, ?_, fun more rest => ?_⟩
    · rw [length_beBytes, tlpIs3dw_set]
      rfl
    · refine (SaysRange.addr ⟨h, tlpCalculateFstdw_eq _ _, rfl, hfalen⟩ hc ?_).trans
        UInt64.ofNat_toNat
      rw [tlpIs3dw_set, clear32_toNat h32]
      exact beNat_overlay_append (by omega) more rest
  · refine ⟨_, _, rfl, ⟨h, tlpCalculateFstdw_eq _ _, rfl, hfalen⟩, ?_, fun more rest => ?_⟩
    · rw [length_beBytes, tlpIs3dw_set]
      rfl
    · refine (SaysRange.addr ⟨h, tlpCalculateFstdw_eq _ _, rfl, hfalen⟩ hc ?_).trans
        UInt64.ofNat_toNat
      rw [tlpIs3dw_set, clear64_toNat]
      exact beNat_overlay_append (by omega) more rest

/-- A request decodes to its own address and count exactly when the range is representable. -/
theorem dmaRead_decodes_iff (stale : TlpMrHdr) (conf : NettlpConf) (count : UInt64)
    (rest : Nat → UInt8) (h1 : 1 ≤ count.toNat) (h2 : count.toNat ≤ 4096) :
    (∃ mh body, nettlpSendDmaRead stale conf count = some (mh, body) ∧
      tlpMrAddr mh (overlay body rest) = conf.memoryAddr ∧
      tlpMrDataLength mh = (count.toNat : Int)) ↔
    Representable conf.memoryAddr.toNat count.toNat := by
  rw [← representable_iff conf.memoryAddr.toNat_lt h1 h2]
  constructor
  · rintro ⟨mh, body, hsend, -, hlen⟩
    cases hr : lastReach conf.memoryAddr.toNat count.toNat with
    | none => cases (mrHeader_none hr).symm.trans hsend
    | some s =>
      obtain ⟨mh', body', hbuilt, hrange, -⟩ := mrHeader_some stale TLP_TYPE_MRd TLP_FMT_WO_DATA h1 h2 hr
      obtain ⟨rfl, rfl⟩ : mh' = mh ∧ body' = body := by
        simpa using hbuilt.symm.trans hsend
      rw [hrange.dataLength h1] at hlen
      exact ⟨s, rfl, by omega⟩
  · rintro ⟨s, hr, hlen⟩
    obtain ⟨mh, body, hbuilt, hrange, -, haddr⟩ := mrHeader_some stale TLP_TYPE_MRd TLP_FMT_WO_DATA h1 h2 hr
    refine ⟨mh, body, hbuilt, by simpa using haddr [] rest, ?_⟩
    rw [hrange.dataLength h1]
    omega

theorem dmaRead_decodes_sevenBytes :
    (∃ mh body, nettlpSendDmaRead ⟨⟨0, 0, 0⟩, 0, 0, 0, 0⟩ ⟨1, 2, 0x1001⟩ 7 = some (mh, body) ∧
      tlpMrAddr mh (overlay body fun _ => 0) = 0x1001 ∧ tlpMrDataLength mh = 7) ↔
    Representable 0x1001 7 :=
  dmaRead_decodes_iff ⟨⟨0, 0, 0⟩, 0, 0, 0, 0⟩ ⟨1, 2, 0x1001⟩ 7 (fun _ => 0) (by decide) (by decide)

/-- 4096 bytes are 1024 doublewords, and the ten bits then say none. -/
theorem dmaRead_loses_page :
    ¬ ∀ (stale : TlpMrHdr) (conf : NettlpConf) (count : UInt64) (rest : Nat → UInt8),
      1 ≤ count.toNat → count.toNat ≤ 4096 →
        ∃ mh body, nettlpSendDmaRead stale conf count = some (mh, body) ∧
          tlpMrAddr mh (overlay body rest) = conf.memoryAddr ∧
          tlpMrDataLength mh = (count.toNat : Int) := by
  intro h
  obtain ⟨mh, body, hsend, -, hlen⟩ :=
    h ⟨⟨0, 0, 0⟩, 0, 0, 0, 0⟩ ⟨1, 2, 0⟩ 4096 (fun _ => 0) (by decide) (by decide)
  have hnone : (nettlpSendDmaRead ⟨⟨0, 0, 0⟩, 0, 0, 0, 0⟩ ⟨1, 2, 0⟩ 4096).map
      (fun p => tlpMrDataLength p.1) = some 0 := by decide +kernel
  rw [hsend] at hnone
  simp [hlen] at hnone

/-! ## Finding the payload of a write -/

/-- Reading a list back from behind too much padding gives the list only if it is padding. -/
theorem take_padded_iff {d : Nat} {l r : List UInt8} :
    (List.replicate d 0 ++ l ++ r).take l.length = l ↔ d = 0 ∨ ∀ b ∈ l, b = 0 := by
  cases d with
  | zero => simp
  | succ d =>
    simp only [Nat.succ_ne_zero, false_or]
    induction l with
    | nil => simp
    | cons b l ih =>
      have hstep : (List.replicate (d + 1) 0 ++ b :: l ++ r).take (b :: l).length =
          0 :: (List.replicate d 0 ++ b :: (l ++ r)).take l.length := by
        simp [List.replicate_succ]
      rw [hstep, List.cons.injEq, List.forall_mem_cons, ← ih, eq_comm]
      refine and_congr_right fun hb => ?_
      have hshift : List.replicate d 0 ++ b :: (l ++ r) = List.replicate (d + 1) 0 ++ l ++ r := by
        rw [hb, List.replicate_succ', List.append_assoc, List.append_assoc]
        rfl
      rw [hshift]

theorem packetRead_some {body bs : List UInt8} {start : Nat} {len : Int}
    (h : packetRead body start len = some bs) : len = bs.length := by
  unfold packetRead at h
  split at h
  · next hin =>
    obtain rfl := Option.some.inj h
    rw [List.length_take, List.length_drop]
    omega
  · cases h

/-- The packet of a write: the address, what the sender takes for the bytes before the payload, the
    payload, and some more padding. -/
theorem dmaWrite_packet (stale : TlpMrHdr) {conf : NettlpConf} {payload : List UInt8} {s : Nat}
    (h1 : 1 ≤ payload.length) (h2 : payload.length ≤ 4096)
    (hr : lastReach conf.memoryAddr.toNat payload.length = some s) :
    ∃ mh addr back, nettlpSendDmaWrite stale conf payload =
        some (mh, addr ++ List.replicate (conf.memoryAddr.toNat % 4 +
          (3 - (conf.memoryAddr.toNat % 4 + payload.length))) 0 ++ payload ++
            List.replicate back 0) ∧
      SaysRange mh conf.memoryAddr.toNat payload.length s ∧
      tlpMwrData mh = addr.length + conf.memoryAddr.toNat % 4 ∧
      ∀ more rest, tlpMrAddr mh (overlay (addr ++ more) rest) = conf.memoryAddr := by
  have hlen : (UInt64.ofNat payload.length).toNat = payload.length := by
    simp
    omega
  have hoff : conf.memoryAddr.toNat % 4 < 4 := Nat.mod_lt _ (by omega)
  obtain ⟨mh, addr, hbuilt, hrange, hbody, haddr⟩ :=
    mrHeader_some stale TLP_TYPE_MWr TLP_FMT_W_DATA
      (by omega) (by omega) (hlen.symm ▸ hr)
  rw [hlen] at hrange
  have hpad := firstLanes_pad hoff h1
  have hskip := firstLanes_before hoff h1
  refine ⟨mh, addr,
    if bePartial mh.lstdw then clearAmong mh.lstdw (fromLast.take 3) else 0, ?_, hrange, ?_, haddr⟩
  · rw [nettlpSendDmaWrite, hbuilt, Option.map_some]
    simp only [hrange.fstdw, hpad]
  · rw [tlpMwrData, hrange.fstdw, hskip, hbody]

/-- What the receiver of such a packet takes for the payload. -/
theorem packetRead_padded (addr payload : List UInt8) {off front : Nat} (back : Nat) (h : off ≤ front) :
    packetRead (addr ++ List.replicate front 0 ++ payload ++ List.replicate back 0)
        (addr.length + off) payload.length =
      some ((List.replicate (front - off) 0 ++ payload ++ List.replicate back 0).take
        payload.length) := by
  have hin : 0 ≤ (payload.length : Int) ∧ addr.length + off + (payload.length : Int).toNat ≤
      (addr ++ List.replicate front 0 ++ payload ++ List.replicate back 0).length := by
    simp
    omega
  have hdrop : (addr ++ List.replicate front 0 ++ payload ++ List.replicate back 0).drop
      (addr.length + off) = List.replicate (front - off) 0 ++ payload ++ List.replicate back 0 := by
    rw [List.append_assoc, List.append_assoc, ← List.drop_drop, List.drop_left,
      List.drop_append_of_le_length (by simpa using h), List.drop_replicate, List.append_assoc]
  rw [packetRead, if_pos hin, hdrop, Int.toNat_natCast]

/-- The payload of a write is found exactly when the range is representable and reaches the third
    byte of its first doubleword, or is zero. -/
theorem dmaWrite_decodes_iff (stale : TlpMrHdr) (conf : NettlpConf) (payload : List UInt8)
    (rest : Nat → UInt8) (h1 : 1 ≤ payload.length) (h2 : payload.length ≤ 4096) :
    (∃ mh body, nettlpSendDmaWrite stale conf payload = some (mh, body) ∧
      tlpMrAddr mh (overlay body rest) = conf.memoryAddr ∧
      packetRead body (tlpMwrData mh) (tlpMrDataLength mh) = some payload) ↔
    Representable conf.memoryAddr.toNat payload.length ∧
      (3 ≤ conf.memoryAddr.toNat % 4 + payload.length ∨ ∀ b ∈ payload, b = 0) := by
  rw [← representable_iff conf.memoryAddr.toNat_lt h1 h2]
  cases hr : lastReach conf.memoryAddr.toNat payload.length with
  | none =>
    have hlen : (UInt64.ofNat payload.length).toNat = payload.length := by
      simp
      omega
    rw [nettlpSendDmaWrite, mrHeader_none (by rw [hlen]; exact hr)]
    simp
  | some s =>
    obtain ⟨mh, addr, back, hsend, hrange, hdata, haddr⟩ := dmaWrite_packet stale h1 h2 hr
    have hcount := hrange.dataLength h1
    have hread := packetRead_padded addr payload back
      (Nat.le_add_right (conf.memoryAddr.toNat % 4)
        (3 - (conf.memoryAddr.toNat % 4 + payload.length)))
    rw [Nat.add_sub_cancel_left] at hread
    constructor
    · rintro ⟨mh', body', hsent, -, hfound⟩
      obtain ⟨rfl, rfl⟩ := Prod.mk.inj (Option.some.inj (hsend.symm.trans hsent))
      have hlen := packetRead_some hfound
      rw [hlen, hdata, hread, Option.some.injEq, take_padded_iff] at hfound
      refine ⟨⟨s, rfl, by omega⟩, hfound.imp_left fun h => by omega⟩
    · rintro ⟨⟨s', hs', hlen⟩, hreach⟩
      obtain rfl := Option.some.inj hs'
      refine ⟨mh, _, hsend, by simpa using haddr _ rest, ?_⟩
      have hlen' : tlpMrDataLength mh = (payload.length : Int) := by omega
      rw [hlen', hdata, hread, Option.some.injEq, take_padded_iff]
      exact hreach.imp_left fun h => by omega

theorem dmaWrite_decodes_sevenBytes :
    (∃ mh body, nettlpSendDmaWrite ⟨⟨0, 0, 0⟩, 0, 0, 0, 0⟩ ⟨1, 2, 0x1001⟩ [1, 2, 3, 4, 5, 6, 7]
        = some (mh, body) ∧
      tlpMrAddr mh (overlay body fun _ => 0) = 0x1001 ∧
      packetRead body (tlpMwrData mh) (tlpMrDataLength mh) = some [1, 2, 3, 4, 5, 6, 7]) ↔
    Representable 0x1001 7 ∧ (3 ≤ 0x1001 % 4 + 7 ∨ ∀ b ∈ [1, 2, 3, 4, 5, 6, (7 : UInt8)], b = 0) :=
  dmaWrite_decodes_iff ⟨⟨0, 0, 0⟩, 0, 0, 0, 0⟩ ⟨1, 2, 0x1001⟩ [1, 2, 3, 4, 5, 6, 7] (fun _ => 0)
    (by decide) (by decide)

/-- One byte at the start of a doubleword is sent behind two bytes of padding, which the receiver
    does not skip. -/
theorem dmaWrite_loses_byte :
    ¬ ∀ (stale : TlpMrHdr) (conf : NettlpConf) (payload : List UInt8) (rest : Nat → UInt8),
      1 ≤ payload.length → payload.length ≤ 4096 →
        ∃ mh body, nettlpSendDmaWrite stale conf payload = some (mh, body) ∧
          tlpMrAddr mh (overlay body rest) = conf.memoryAddr ∧
          packetRead body (tlpMwrData mh) (tlpMrDataLength mh) = some payload := by
  intro h
  obtain ⟨mh, body, hsend, -, hread⟩ :=
    h ⟨⟨0, 0, 0⟩, 0, 0, 0, 0⟩ ⟨1, 2, 0x1000⟩ [0x41] (fun _ => 0) (by decide) (by decide)
  have hzero : (nettlpSendDmaWrite ⟨⟨0, 0, 0⟩, 0, 0, 0, 0⟩ ⟨1, 2, 0x1000⟩ [0x41]).map
      (fun p => packetRead p.2 (tlpMwrData p.1) (tlpMrDataLength p.1)) = some (some [0]) := by
    decide +kernel
  rw [hsend] at hzero
  simp [hread] at hzero

end SdPlane
