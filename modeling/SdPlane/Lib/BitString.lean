import Mathlib

/-!
# Bit strings in bytes

Bytes are read as a string of bits, the highest bit of a byte first. `bits bytes n` are the first `n`
of them, and what is said about them here is what code needs that compares a byte at a time: whole
bytes with `bits_bytes`, and the bits of a last one, under a mask, with `xor_and_mask`.
-/

set_option autoImplicit false

namespace Lib

/-- Bit `i`, counted from the highest of the first byte. -/
def bitAt (bytes : Nat → UInt8) (i : Nat) : Bool := (bytes (i / 8)).toBitVec.getLsbD (7 - i % 8)

def bits (bytes : Nat → UInt8) (n : Nat) : List Bool := (List.range n).map (bitAt bytes)

variable {x y : Nat → UInt8} {m n : Nat}

@[simp] theorem length_bits (x : Nat → UInt8) (n : Nat) : (bits x n).length = n := by
  simp [bits]

@[simp] theorem bits_zero (x : Nat → UInt8) : bits x 0 = [] := rfl

theorem bits_succ (x : Nat → UInt8) (n : Nat) : bits x (n + 1) = bits x n ++ [bitAt x n] := by
  simp [bits, List.range_succ]

theorem bits_eq_iff : bits x n = bits y n ↔ ∀ i, i < n → bitAt x i = bitAt y i := by
  simp [bits]

theorem take_bits (h : m ≤ n) : (bits x n).take m = bits x m := by
  rw [bits, ← List.map_take, List.take_range, Nat.min_eq_left h, bits]

theorem bits_prefix (h : m ≤ n) : bits x m <+: bits x n := by
  rw [← take_bits h]
  exact List.take_prefix _ _

theorem bits_prefix_bits : bits x m <+: bits y n ↔ m ≤ n ∧ bits x m = bits y m := by
  constructor
  · intro h
    have hle : m ≤ n := by simpa using h.length_le
    refine ⟨hle, ?_⟩
    rw [← take_bits (x := y) hle, ← length_bits x m]
    simpa using List.prefix_iff_eq_take.mp h
  · rintro ⟨hle, heq⟩
    rw [heq]
    exact bits_prefix hle

theorem bits_succ_prefix {b : Bool} (h : bits y m ++ [b] <+: bits x n) : bitAt x m = b := by
  have hlt : m < n := by simpa using h.length_le
  have hget := List.prefix_iff_getElem?.mp h m (by simp)
  simpa [bits, hlt] using hget

/-! ### Bytes -/

theorem byte_ext {a b : UInt8} (h : ∀ j, j < 8 → a.toBitVec.getLsbD j = b.toBitVec.getLsbD j) :
    a = b :=
  UInt8.toBitVec_inj.mp (BitVec.eq_of_getLsbD_eq h)

/-- A byte at a time. -/
theorem bits_bytes {k : Nat} : bits x (k * 8) = bits y (k * 8) ↔ ∀ i, i < k → x i = y i := by
  rw [bits_eq_iff]
  constructor
  · intro h i hi
    refine byte_ext fun j hj => ?_
    have hbit := h (i * 8 + (7 - j)) (by omega)
    have hdiv : (i * 8 + (7 - j)) / 8 = i := by omega
    have hmod : 7 - (i * 8 + (7 - j)) % 8 = j := by omega
    simpa only [bitAt, hdiv, hmod] using hbit
  · intro h i hi
    rw [bitAt, bitAt, h (i / 8) (by omega)]

/-- A mask with the highest `k` bits. -/
def IsMask (mask : UInt8) (k : Nat) : Prop :=
  ∀ j, j < 8 → mask.toBitVec.getLsbD j = decide (8 ≤ k + j)

theorem xor_and_mask {a b mask : UInt8} {k : Nat} (hmask : IsMask mask k) :
    (a ^^^ b) &&& mask = 0 ↔
      ∀ j, j < 8 → j < k → a.toBitVec.getLsbD (7 - j) = b.toBitVec.getLsbD (7 - j) := by
  have hbit : ∀ j, j < 8 → (((a ^^^ b) &&& mask).toBitVec.getLsbD j
      = ((a.toBitVec.getLsbD j ^^ b.toBitVec.getLsbD j) && decide (8 ≤ k + j))) := fun j hj => by
    rw [UInt8.toBitVec_and, UInt8.toBitVec_xor, BitVec.getLsbD_and, BitVec.getLsbD_xor, hmask j hj]
  constructor
  · intro h j hj hk
    have hj' := hbit (7 - j) (by omega)
    have hin : 8 ≤ k + (7 - j) := by omega
    rw [h] at hj'
    simpa [hin] using hj'
  · intro h
    refine byte_ext fun j hj => ?_
    rw [hbit j hj]
    by_cases hin : 8 ≤ k + j
    · have hj' := h (7 - j) (by omega) (by omega)
      have hback : 7 - (7 - j) = j := by omega
      simp [hback] at hj'
      simp [hj']
    · simp [hin]

/-- Whole bytes and, under a mask, the first bits of the next one. -/
theorem bits_masked {mask : UInt8} (hmask : IsMask mask (n % 8)) :
    bits x n = bits y n ↔
      (∀ i, i < n / 8 → x i = y i) ∧ (x (n / 8) ^^^ y (n / 8)) &&& mask = 0 := by
  rw [← bits_bytes, xor_and_mask hmask]
  simp only [bits_eq_iff]
  constructor
  · intro h
    refine ⟨fun i hi => h i (by omega), fun j hj hk => ?_⟩
    have hbit := h (n / 8 * 8 + j) (by omega)
    have hdiv : (n / 8 * 8 + j) / 8 = n / 8 := by omega
    have hmod : (n / 8 * 8 + j) % 8 = j := by omega
    simpa only [bitAt, hdiv, hmod] using hbit
  · rintro ⟨hbytes, hlast⟩ i hi
    by_cases hlt : i < n / 8 * 8
    · exact hbytes i hlt
    · have hdiv : i / 8 = n / 8 := by omega
      rw [bitAt, bitAt, hdiv]
      exact hlast (i % 8) (by omega) (by omega)

/-- What is copied under a mask. -/
theorem bits_copy_masked {mask : UInt8} (hmask : IsMask mask (n % 8))
    (hbytes : ∀ i, i < n / 8 → x i = y i) (hlast : n % 8 ≠ 0 → x (n / 8) = y (n / 8) &&& mask) :
    bits x n = bits y n := by
  rw [bits_eq_iff]
  intro i hi
  by_cases hlt : i / 8 < n / 8
  · rw [bitAt, bitAt, hbytes _ hlt]
  · have hdiv : i / 8 = n / 8 := by omega
    have hin : 8 ≤ n % 8 + (7 - i % 8) := by omega
    rw [bitAt, bitAt, hdiv, hlast (by omega), UInt8.toBitVec_and, BitVec.getLsbD_and,
      hmask _ (by omega), decide_eq_true hin, Bool.and_true]

/-- A mask with the one bit `j`, counted from the highest. -/
def IsProbe (probe : UInt8) (j : Nat) : Prop :=
  ∀ i, i < 8 → probe.toBitVec.getLsbD i = decide (i + j = 7)

theorem IsProbe.next {probe : UInt8} {j : Nat} (h : IsProbe probe j) :
    IsProbe (probe >>> 1) (j + 1) := by
  intro i hi
  have hshift : (probe >>> 1).toBitVec.getLsbD i = probe.toBitVec.getLsbD (i + 1) := by
    simp [Nat.add_comm]
  rw [hshift]
  by_cases hlast : i + 1 < 8
  · rw [h (i + 1) hlast]
    simp [Nat.add_assoc, Nat.add_comm 1 j]
  · rw [BitVec.getLsbD_of_ge _ _ (by omega)]
    symm
    simp
    omega

theorem probe_and_xor {a b probe : UInt8} {j : Nat} (h : IsProbe probe j) (hj : j < 8) :
    probe &&& (a ^^^ b) = 0 ↔ a.toBitVec.getLsbD (7 - j) = b.toBitVec.getLsbD (7 - j) := by
  have hbit : ∀ i, i < 8 → ((probe &&& (a ^^^ b)).toBitVec.getLsbD i
      = (decide (i + j = 7) && (a.toBitVec.getLsbD i ^^ b.toBitVec.getLsbD i))) := fun i hi => by
    rw [UInt8.toBitVec_and, UInt8.toBitVec_xor, BitVec.getLsbD_and, BitVec.getLsbD_xor, h i hi]
  constructor
  · intro hzero
    have hj' := hbit (7 - j) (by omega)
    have hin : 7 - j + j = 7 := by omega
    rw [hzero] at hj'
    simpa [hin] using hj'
  · intro heq
    refine byte_ext fun i hi => ?_
    rw [hbit i hi]
    by_cases hin : i + j = 7
    · have hi' : i = 7 - j := by omega
      simp [hi', heq]
    · simp [hin]

theorem shiftRight_and_one {a : UInt8} {k : Nat} (hk : k < 8) :
    ((a >>> k.toUInt8) &&& 1 = 1) ↔ a.toBitVec.getLsbD k = true := by
  have hk' : k.toUInt8.toNat % 8 = k := by
    rw [UInt8.toNat_ofNat']
    omega
  rw [← UInt8.toNat_inj, UInt8.toNat_and, UInt8.toNat_shiftRight, hk', UInt8.toNat_one,
    Nat.and_one_is_mod, BitVec.getLsbD, Nat.testBit_eq_decide_div_mod_eq, Nat.shiftRight_eq_div_pow,
    decide_eq_true_iff]
  rfl

end Lib
