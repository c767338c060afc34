import SdPlane.Lib.Lpm

/-!
# Addresses as bit strings

The RIB and the FIB both read an address bit by bit, the RIB one bit at a time
(`BIT_CHECK`, `radix.c`) and the FIB two at a time (`BIT_INDEX`, `fib.c`). Both readings are
embedded here, and both are related to one stream of bits, `keyBit`, most significant bit of
the first byte first. Everything the tries are proved to do is stated over that stream.

An address is the sixteen bytes of the union `dst_ip_addr` / `key_ip_addr` / `gw`; an IPv4
address is its first four bytes. A byte past the sixteenth reads as zero. That is what
`key_safe[16]`, the sentinel of `BIT_INDEX`, holds. The byte after the sentinel, which
`BIT_INDEX` fetches at bit 128, does not reach its result (`bitIndex_past`), and `BIT_CHECK`
at bit 128 picks between two children that a tree of prefixes of at most 128 bits does not
have.
-/

set_option autoImplicit false

namespace SdPlane

/-- The sixteen bytes of an address. -/
abbrev IpAddr := Vector UInt8 16

/-- The all-zero address. -/
def IpAddr.zero : IpAddr := Vector.replicate 16 0

/-- Byte `i` at the address `key` points to. -/
def byteAt (key : IpAddr) (i : Nat) : Nat := (key[i]?.getD 0).toNat

/-- `BIT_CHECK (key, b)`: whether bit `b` is set. -/
def bitCheck (key : IpAddr) (b : Nat) : Bool :=
  byteAt key (b >>> 3) &&& (0x80 >>> (b &&& 7)) != 0

/-- The two bytes `hi`, `lo` that `BIT_INDEX` has fetched, cut down to the `n` bits that
    start at bit `s` of `hi`. -/
def cutBits (hi lo s n : Nat) : Nat :=
  ((hi <<< 8 ||| lo) >>> (16 - ((s &&& 7) + n))) &&& ((1 <<< n) - 1)

/-- `BIT_INDEX (key, s, n)`: the `n` bits of `key` from bit `s`, as a number. -/
def bitIndex (key : IpAddr) (s n : Nat) : Nat :=
  cutBits (byteAt key (s >>> 3)) (byteAt key ((s >>> 3) + 1)) s n

/-- Bit `i` of an address, counted from its most significant end. -/
def keyBit (key : IpAddr) (i : Nat) : Bool := (byteAt key (i / 8)).testBit (7 - i % 8)

/-- The first `n` bits of an address: the prefix that `key`/`n` stands for. -/
def prefixOf (key : IpAddr) (n : Nat) : List Bool := Lib.takeBits (keyBit key) n

@[simp] theorem prefixOf_length (key : IpAddr) (n : Nat) : (prefixOf key n).length = n :=
  Lib.takeBits_length _ n

theorem byteAt_lt (key : IpAddr) (i : Nat) : byteAt key i < 256 := UInt8.toNat_lt _

theorem and_seven (b : Nat) : b &&& 7 = b % 8 := Nat.and_two_pow_sub_one_eq_mod b 3

theorem shiftRight_three (b : Nat) : b >>> 3 = b / 8 := Nat.shiftRight_eq_div_pow b 3

/-- `BIT_CHECK` reads the stream. -/
@[simp] theorem bitCheck_eq_keyBit (key : IpAddr) (b : Nat) : bitCheck key b = keyBit key b := by
  unfold bitCheck keyBit
  rw [and_seven, shiftRight_three]
  have hmask : 0x80 >>> (b % 8) = 2 ^ (7 - b % 8) := by
    have hlt : b % 8 < 8 := Nat.mod_lt _ (by decide)
    interval_cases b % 8 <;> rfl
  rw [hmask, Nat.and_two_pow]
  cases (byteAt key (b / 8)).testBit (7 - b % 8) <;> simp

theorem bitIndex_lt (key : IpAddr) (s n : Nat) : bitIndex key s n < 2 ^ n := by
  unfold bitIndex cutBits
  rw [Nat.one_shiftLeft]
  exact Nat.and_lt_two_pow _ (by simp)

/-- As long as the wanted bits stay in the first of the two bytes, the second one is
    fetched in vain: this covers every read of the FIB, whose strides never straddle a
    byte, and with it the read at bit 128. -/
theorem cutBits_testBit {hi lo s n j : Nat} (hlo : lo < 256) (h : s % 8 + n ≤ 8) :
    (cutBits hi lo s n).testBit j
      = (decide (j < n) && hi.testBit (7 - (s % 8 + (n - 1 - j)))) := by
  unfold cutBits
  rw [and_seven, Nat.one_shiftLeft]
  simp only [Nat.testBit_and, Nat.testBit_shiftRight, Nat.testBit_or, Nat.testBit_shiftLeft,
    Nat.testBit_two_pow_sub_one]
  by_cases hj : j < n
  · have hlow : lo.testBit (16 - (s % 8 + n) + j) = false := by
      apply Nat.testBit_lt_two_pow
      calc lo < 2 ^ 8 := hlo
        _ ≤ 2 ^ (16 - (s % 8 + n) + j) := Nat.pow_le_pow_right (by decide) (by omega)
    have hpos : 16 - (s % 8 + n) + j - 8 = 7 - (s % 8 + (n - 1 - j)) := by omega
    have hge : 16 - (s % 8 + n) + j ≥ 8 := by omega
    simp [hlow, hj, hpos, hge]
  · simp [hj]

/-- Whatever byte lies past the sentinel, `BIT_INDEX` at the bits 128 and 129 gives the
    same number. -/
theorem bitIndex_past (key : IpAddr) {past : Nat} (h : past < 256) :
    cutBits (byteAt key (128 >>> 3)) past 128 2 = bitIndex key 128 2 := by
  refine Nat.eq_of_testBit_eq fun j => ?_
  unfold bitIndex
  rw [cutBits_testBit h (by decide), cutBits_testBit (byteAt_lt _ _) (by decide)]

theorem bitIndex_testBit (key : IpAddr) {s n j : Nat} (h : s % 8 + n ≤ 8) :
    (bitIndex key s n).testBit j = (decide (j < n) && keyBit key (s + (n - 1 - j))) := by
  unfold bitIndex
  rw [cutBits_testBit (byteAt_lt _ _) h, shiftRight_three]
  by_cases hj : j < n
  · have hdiv : (s + (n - 1 - j)) / 8 = s / 8 := by omega
    have hmod : (s + (n - 1 - j)) % 8 = s % 8 + (n - 1 - j) := by omega
    simp [hj, keyBit, hdiv, hmod]
  · simp [hj]

/-- A number below four, from its two bits. -/
theorem eq_of_two_bits {n : Nat} (h : n < 4) :
    n = 2 * (n.testBit 1).toNat + (n.testBit 0).toNat := by
  interval_cases n <;> rfl

/-- One bit of the stream. -/
theorem bitIndex_one (key : IpAddr) (s : Nat) : bitIndex key s 1 = (keyBit key s).toNat := by
  have hlt : bitIndex key s 1 < 2 := bitIndex_lt key s 1
  have hhi : (bitIndex key s 1).testBit 1 = false := by
    rw [bitIndex_testBit key (by omega)]; simp
  have hlo : (bitIndex key s 1).testBit 0 = keyBit key s := by
    rw [bitIndex_testBit key (by omega)]; simp
  rw [eq_of_two_bits (by omega : bitIndex key s 1 < 4), hhi, hlo]
  simp

/-- Two bits of the stream, from an even position. -/
theorem bitIndex_two (key : IpAddr) {s : Nat} (h : s % 2 = 0) :
    bitIndex key s 2 = 2 * (keyBit key s).toNat + (keyBit key (s + 1)).toNat := by
  have hhi : (bitIndex key s 2).testBit 1 = keyBit key s := by
    rw [bitIndex_testBit key (by omega)]; simp
  have hlo : (bitIndex key s 2).testBit 0 = keyBit key (s + 1) := by
    rw [bitIndex_testBit key (by omega)]; simp
  rw [eq_of_two_bits (bitIndex_lt key s 2), hhi, hlo]

end SdPlane
