import SdPlane.Tlp

/-!
# What a request header says

The masks and the length of a header, as arithmetic. With `off` the place of the first byte in its
doubleword, `n` bytes from there are

* the first byte enables `firstLanes off n`, of which the clear ones in front are `off`, and all
  clear ones `off` and those behind the range;
* `(off + n + 3) / 4` doublewords;
* the last byte enables `lastLanes s`, where `s` is how far the range reaches into the last
  doubleword.

From there on no proof looks at a bit.
-/

set_option autoImplicit false

namespace SdPlane

open Lib

/-! ## Doublewords -/

theorem low_toNat (x : UInt64) : (x &&& 0x3).toNat = x.toNat % 4 := by
  rw [UInt64.toNat_and]
  exact Nat.and_two_pow_sub_one_eq_mod x.toNat 2

theorem shiftRight_two_toNat (x : UInt64) : (x >>> 2).toNat = x.toNat / 4 := by
  simp [Nat.shiftRight_eq_div_pow]

theorem align_toNat (x : UInt64) : ((x >>> 2) <<< 2).toNat = x.toNat / 4 * 4 := by
  have h := x.toNat_lt
  simp [Nat.shiftRight_eq_div_pow, Nat.shiftLeft_eq]
  omega

/-- Clearing the two low bits of what is below `2 ^ w`, for a mask of `w` bits. -/
theorem clear_low {x w : Nat} (hx : x < 2 ^ w) (hw : 2 ≤ w) : x &&& (2 ^ w - 4) = x / 4 * 4 := by
  refine Nat.eq_of_testBit_eq fun i => ?_
  have hmask : 2 ^ w - 4 = (2 ^ (w - 2) - 1) * 2 ^ 2 := by
    have : 2 ^ w = 2 ^ (w - 2) * 2 ^ 2 := by rw [← Nat.pow_add]; congr 1; omega
    omega
  rw [hmask, show 4 = 2 ^ 2 from rfl, Nat.testBit_and, Nat.testBit_mul_two_pow,
    Nat.testBit_mul_two_pow, Nat.testBit_two_pow_sub_one, Nat.testBit_div_two_pow]
  by_cases hi : 2 ≤ i
  · have hback : i - 2 + 2 = i := by omega
    by_cases hlt : i - 2 < w - 2
    · simp [hi, hlt, hback]
    · have hbit : x.testBit i = false :=
        Nat.testBit_lt_two_pow (lt_of_lt_of_le hx (Nat.pow_le_pow_right (by omega) (by omega)))
      simp [hback, hbit]
  · simp [hi]

theorem clear64_toNat (x : UInt64) : (x &&& 0xFFFFFFFFFFFFFFFC).toNat = x.toNat / 4 * 4 := by
  rw [UInt64.toNat_and]
  exact clear_low x.toNat_lt (by omega)

theorem clear32_toNat {x : UInt64} (h : x < 0xFFFFFFFF) :
    (x &&& 0xFFFFFFFC).toNat = x.toNat / 4 * 4 := by
  have hlt : x.toNat < 2 ^ 32 := lt_trans (UInt64.lt_iff_toNat_lt.mp h) (by decide)
  rw [UInt64.toNat_and]
  exact clear_low hlt (by omega)

theorem tlpCalculateLength_eq {addr count : UInt64} (h : addr.toNat % 4 + count.toNat < 2 ^ 64) :
    tlpCalculateLength addr count = (addr.toNat % 4 + count.toNat + 3) / 4 := by
  have hspan : (addr + count - (addr &&& 0xFFFFFFFFFFFFFFFC)).toNat =
      addr.toNat % 4 + count.toNat := by
    have ha := addr.toNat_lt
    rw [UInt64.toNat_sub, UInt64.toNat_add, clear64_toNat]
    omega
  have hrest : (addr + count - (addr &&& 0xFFFFFFFFFFFFFFFC)) &&& 0x3 = 0 ↔
      (addr.toNat % 4 + count.toNat) % 4 = 0 := by
    rw [← UInt64.toNat_inj, low_toNat, hspan]
    rfl
  unfold tlpCalculateLength
  simp only [hrest]
  split
  · rw [shiftRight_two_toNat, hspan]
    omega
  · rw [UInt64.toNat_add, shiftRight_two_toNat, hspan]
    simp only [UInt64.reduceToNat]
    omega

/-! ## The length and the format of a header -/

theorem tlpLength_set (fl : UInt16) (v : Nat) : tlpLength (tlpSetLength fl v) = v % 1024 := by
  have hmask : ((fl &&& ~~~TLP_LENGTH_MASK) ||| UInt16.ofNat v) &&& TLP_LENGTH_MASK =
      UInt16.ofNat v &&& TLP_LENGTH_MASK := by
    rw [← UInt16.toBitVec_inj]
    ext i hi
    simp
    grind
  rw [tlpLength, tlpSetLength, hmask, UInt16.toNat_and, UInt16.toNat_ofNat']
  have := Nat.and_two_pow_sub_one_eq_mod (v % 2 ^ 16) 10
  have hm : TLP_LENGTH_MASK.toNat = 2 ^ 10 - 1 := rfl
  rw [hm, this]
  omega

theorem tlpIs3dw_set (ft dw wd : UInt8) :
    tlpIs3dw (tlpSetFmt ft dw wd) = (dw &&& TLP_FMT_DW_MASK == TLP_FMT_3DW) := by
  have hmask : tlpSetFmt ft dw wd &&& TLP_FMT_DW_MASK = dw &&& TLP_FMT_DW_MASK := by
    rw [← UInt8.toBitVec_inj]
    ext i hi
    have hi : i = 0 ∨ i = 1 ∨ i = 2 ∨ i = 3 ∨ i = 4 ∨ i = 5 ∨ i = 6 ∨ i = 7 := by omega
    rcases hi with rfl | rfl | rfl | rfl | rfl | rfl | rfl | rfl <;>
      simp [tlpSetFmt, TLP_FMT_DW_MASK, TLP_FMT_DATA_MASK]
  rw [tlpIs3dw, hmask]

theorem tlpIs3dw_setType (ft v : UInt8) : tlpIs3dw (tlpSetType ft v) = tlpIs3dw ft := by
  have hmask : tlpSetType ft v &&& TLP_FMT_DW_MASK = ft &&& TLP_FMT_DW_MASK := by
    rw [← UInt8.toBitVec_inj]
    ext i hi
    have hi : i = 0 ∨ i = 1 ∨ i = 2 ∨ i = 3 ∨ i = 4 ∨ i = 5 ∨ i = 6 ∨ i = 7 := by omega
    rcases hi with rfl | rfl | rfl | rfl | rfl | rfl | rfl | rfl <;>
      simp [tlpSetType, TLP_FMT_DW_MASK, TLP_TYPE_MASK]
  rw [tlpIs3dw, hmask, tlpIs3dw]

/-! ## Byte enables -/

/-- The first byte enables of `n` bytes that start at lane `off`. -/
def firstLanes (off n : Nat) : BitVec 4 := (if n < 4 then ~~~(0xF#4 <<< n) else 0xF#4) <<< off

/-- The byte enables of the first `s` lanes. -/
def lastLanes (s : Nat) : BitVec 4 := ~~~(0xF#4 <<< s)

theorem tlpCalculateFstdw_eq (addr count : UInt64) :
    tlpCalculateFstdw addr count = firstLanes (addr.toNat % 4) count.toNat := by
  have hlt : count < 4 ↔ count.toNat < 4 := UInt64.lt_iff_toNat_lt
  simp only [tlpCalculateFstdw, firstLanes, low_toNat, hlt]

theorem firstLanes_min (off n : Nat) : firstLanes off n = firstLanes off (min n 4) := by
  rcases Nat.lt_or_ge n 4 with h | h
  · rw [Nat.min_eq_left (by omega)]
  · rw [Nat.min_eq_right h, firstLanes, firstLanes, if_neg (by omega), if_neg (by omega)]

section

variable {off n : Nat} (hoff : off < 4) (hn : 0 < n)
include hoff hn

theorem firstLanes_before :
    (if bePartial (firstLanes off n) then clearBefore (firstLanes off n) fromFirst else 0) = off := by
  have key : ∀ o < 4, ∀ k < 5, 0 < k →
      (if bePartial (firstLanes o k) then clearBefore (firstLanes o k) fromFirst else 0) = o := by
    decide
  rw [firstLanes_min]
  exact key off hoff _ (by omega) (by omega)

theorem firstLanes_among :
    (if bePartial (firstLanes off n) then clearAmong (firstLanes off n) fromFirst else 0) =
      off + (4 - (off + n)) := by
  have key : ∀ o < 4, ∀ k < 5, 0 < k →
      (if bePartial (firstLanes o k) then clearAmong (firstLanes o k) fromFirst else 0) =
        o + (4 - (o + k)) := by
    decide
  rw [firstLanes_min, key off hoff _ (by omega) (by omega)]
  omega

theorem firstLanes_pad :
    (if bePartial (firstLanes off n) then clearAmong (firstLanes off n) (fromFirst.take 3) else 0) =
      off + (3 - (off + n)) := by
  have key : ∀ o < 4, ∀ k < 5, 0 < k →
      (if bePartial (firstLanes o k) then clearAmong (firstLanes o k) (fromFirst.take 3) else 0) =
        o + (3 - (o + k)) := by
    decide
  rw [firstLanes_min, key off hoff _ (by omega) (by omega)]
  omega

end

theorem lastLanes_min (s : Nat) : lastLanes s = lastLanes (min s 4) := by
  rcases Nat.lt_or_ge s 4 with h | h
  · rw [Nat.min_eq_left (by omega)]
  · have hzero : 0xF#4 <<< s = 0 := BitVec.shiftLeft_eq_zero h
    have hzero' : 0xF#4 <<< 4 = 0 := BitVec.shiftLeft_eq_zero (Nat.le_refl 4)
    rw [Nat.min_eq_right h, lastLanes, lastLanes, hzero, hzero']

theorem lastLanes_before (s : Nat) :
    (if bePartial (lastLanes s) then clearBefore (lastLanes s) fromLast else 0) =
      if s = 0 then 0 else 4 - s := by
  have key : ∀ k < 5,
      (if bePartial (lastLanes k) then clearBefore (lastLanes k) fromLast else 0) =
        if k = 0 then 0 else 4 - k := by
    decide
  rw [lastLanes_min, key _ (by omega)]
  split <;> split <;> omega

/-- How far a range reaches into its last doubleword, as `tlp_calculate_lstdw` reckons it: `0` when
    the first doubleword is also the last, and no answer when a shift goes too far. -/
def lastReach (a c : Nat) : Option Nat :=
  let last := (a + c) % 2 ^ 64
  let endStart := if last % 4 = 0 then (2 ^ 64 - 4 + last) % 2 ^ 64 else last / 4 * 4
  let endStart := if endStart ≤ a / 4 * 4 then (a + 4) % 2 ^ 64 else endStart
  if last < endStart then some 0
  else if 32 ≤ last - endStart then none
  else some (last - endStart)

theorem tlpCalculateLstdw_eq (addr count : UInt64) :
    tlpCalculateLstdw addr count = (lastReach addr.toNat count.toNat).map lastLanes := by
  have hlast : (addr + count).toNat = (addr.toNat + count.toNat) % 2 ^ 64 := UInt64.toNat_add _ _
  have hend : (if (addr + count) &&& 0x3 = 0 then addr + count - 4
        else ((addr + count) >>> 2) <<< 2).toNat =
      if (addr.toNat + count.toNat) % 2 ^ 64 % 4 = 0 then
        (2 ^ 64 - 4 + (addr.toNat + count.toNat) % 2 ^ 64) % 2 ^ 64
      else (addr.toNat + count.toNat) % 2 ^ 64 / 4 * 4 := by
    have hrest : (addr + count) &&& 0x3 = 0 ↔ (addr.toNat + count.toNat) % 2 ^ 64 % 4 = 0 := by
      rw [← UInt64.toNat_inj, low_toNat, hlast]
      rfl
    rw [apply_ite UInt64.toNat, align_toNat, UInt64.toNat_sub, hlast]
    simp only [hrest]
    rfl
  unfold tlpCalculateLstdw lastReach
  simp only
  rw [← hend]
  generalize (if (addr + count) &&& 0x3 = 0 then addr + count - 4
    else ((addr + count) >>> 2) <<< 2) = e
  have hcorner : (if e ≤ (addr >>> 2) <<< 2 then addr + 4 else e).toNat =
      if e.toNat ≤ addr.toNat / 4 * 4 then (addr.toNat + 4) % 2 ^ 64 else e.toNat := by
    simp only [apply_ite UInt64.toNat, UInt64.le_iff_toNat_le, align_toNat, UInt64.toNat_add]
    rfl
  rw [← hcorner]
  generalize (if e ≤ (addr >>> 2) <<< 2 then addr + 4 else e) = e'
  simp only [UInt64.lt_iff_toNat_lt, hlast]
  split
  · rfl
  · have hsub : (addr + count - e').toNat = (addr.toNat + count.toNat) % 2 ^ 64 - e'.toNat := by
      rw [UInt64.toNat_sub_of_le _ _ (by rw [UInt64.le_iff_toNat_le, hlast]; omega), hlast]
    rw [hsub]
    split
    · rfl
    · rfl

section

variable {a c : Nat} (ha : a < 2 ^ 64) (hc : 0 < c) (hc' : c ≤ 4096)
include hc

/-- A range that ends before the end of the address space. -/
theorem lastReach_below (ha : a < 2 ^ 64 - 4) (hend : a + c < 2 ^ 64) :
    lastReach a c = some (if a % 4 + c ≤ 4 then 0 else (a + c + 3) % 4 + 1) := by
  have hlast : (a + c) % 2 ^ 64 = a + c := Nat.mod_eq_of_lt hend
  unfold lastReach
  simp only [hlast]
  by_cases hone : a % 4 + c ≤ 4
  · have hcorner : (if (a + c) % 4 = 0 then (2 ^ 64 - 4 + (a + c)) % 2 ^ 64 else (a + c) / 4 * 4) ≤
        a / 4 * 4 := by
      split <;> omega
    rw [if_pos hcorner, if_pos hone]
    split_ifs <;> first | omega | (simp only [Option.some.injEq] <;> omega)
  · have hcorner : ¬ (if (a + c) % 4 = 0 then (2 ^ 64 - 4 + (a + c)) % 2 ^ 64 else (a + c) / 4 * 4) ≤
        a / 4 * 4 := by
      split <;> omega
    rw [if_neg hcorner, if_neg hone]
    split_ifs <;> first | omega | (simp only [Option.some.injEq]; omega)

include hc'

/-- A range that passes the end of the address space, but does not start in its last doubleword. -/
theorem lastReach_wrap (ha : a < 2 ^ 64 - 4) (hend : 2 ^ 64 ≤ a + c) : lastReach a c = some 0 := by
  have hlast : (a + c) % 2 ^ 64 = a + c - 2 ^ 64 := by omega
  have hbehind : a + c - 2 ^ 64 < a / 4 * 4 := by omega
  unfold lastReach
  simp only [hlast]
  split_ifs <;> first | omega | simp only

include ha

/-- A range that starts in the last doubleword. -/
theorem lastReach_top (htop : 2 ^ 64 - 4 ≤ a) :
    lastReach a c = if a + c < 2 ^ 64 ∨ 36 ≤ c then none else some (c - 4) := by
  have hcorner : (if (a + c) % 2 ^ 64 % 4 = 0 then (2 ^ 64 - 4 + (a + c) % 2 ^ 64) % 2 ^ 64
      else (a + c) % 2 ^ 64 / 4 * 4) ≤ a / 4 * 4 := by
    split <;> omega
  have hcarry : (a + 4) % 2 ^ 64 = a + 4 - 2 ^ 64 := by omega
  unfold lastReach
  simp only
  rw [if_pos hcorner, hcarry]
  rcases Nat.lt_or_ge (a + c) (2 ^ 64) with hend | hend
  · have hlast : (a + c) % 2 ^ 64 = a + c := Nat.mod_eq_of_lt hend
    rw [hlast, if_neg (by omega), if_pos (by omega), if_pos (Or.inl hend)]
  · have hlast : (a + c) % 2 ^ 64 = a + c - 2 ^ 64 := by omega
    rw [hlast]
    split_ifs <;> first | omega | (simp only [Option.some.injEq] <;> omega)

end

/-! ## A header as a whole -/

/-- The header names `c` bytes from address `a` on, as `tlp_calculate_*` put it. -/
structure SaysRange (mh : TlpMrHdr) (a c s : Nat) : Prop where
  reach : lastReach a c = some s
  fstdw : mh.fstdw = firstLanes (a % 4) c
  lstdw : mh.lstdw = lastLanes s
  length : tlpLength mh.tlp.falen = (a % 4 + c + 3) / 4 % 1024

theorem SaysRange.dataLength {mh : TlpMrHdr} {a c s : Nat} (h : SaysRange mh a c s) (hc : 0 < c) :
    tlpMrDataLength mh = ((4 * ((a % 4 + c + 3) / 4 % 1024) : Nat) : Int)
      - ((a % 4 + (4 - (a % 4 + c)) : Nat) : Int) - ((if s = 0 then 0 else 4 - s : Nat) : Int) := by
  rw [tlpMrDataLength, h.length, h.fstdw, h.lstdw, firstLanes_among (Nat.mod_lt _ (by omega)) hc,
    lastLanes_before]

/-- The address is found again behind the header, whatever its length was. -/
theorem SaysRange.addr {mh : TlpMrHdr} {a c s : Nat} (h : SaysRange mh a c s) (hc : 0 < c)
    {after : Nat → UInt8}
    (hafter : beNat after 0 (if tlpIs3dw mh.tlp.fmtType then 4 else 8) = a / 4 * 4) :
    tlpMrAddr mh after = UInt64.ofNat a := by
  have hread : (if tlpIs3dw mh.tlp.fmtType then beNat after 0 4 else beNat after 0 8) =
      a / 4 * 4 := by
    rw [← hafter]
    split <;> rfl
  have hskip := firstLanes_before (Nat.mod_lt a (by omega : 4 > 0)) hc
  rw [tlpMrAddr, hread, h.fstdw, ← UInt64.toNat_inj]
  split at hskip
  · next hp =>
    rw [if_pos hp, hskip, UInt64.toNat_add]
    simp
    omega
  · next hp =>
    rw [if_neg hp]
    simp
    omega

end SdPlane
