import Mathlib

/-!
# Big-endian numbers in memory

A number of `n` bytes with its most significant byte first: `beBytes n v` are the bytes that are
written, `beNat mem i n` is the number that is read from place `i` on. Reading back gives what was
written, as far as `n` bytes hold it. `overlay bs mem` is the memory after the bytes `bs` were
written to its beginning.
-/

set_option autoImplicit false

namespace Lib

/-- The `n` bytes of `v`, most significant first. -/
def beBytes : Nat → Nat → List UInt8
  | 0, _ => []
  | n + 1, v => beBytes n (v / 256) ++ [UInt8.ofNat v]

/-- The number in the `n` bytes from `i` on. -/
def beNat (mem : Nat → UInt8) (i : Nat) : Nat → Nat
  | 0 => 0
  | n + 1 => 256 * beNat mem i n + (mem (i + n)).toNat

/-- Memory that begins with `bs`. -/
def overlay (bs : List UInt8) (mem : Nat → UInt8) : Nat → UInt8 :=
  fun i => if h : i < bs.length then bs[i] else mem i

@[simp] theorem length_beBytes (n v : Nat) : (beBytes n v).length = n := by
  induction n generalizing v with
  | zero => rfl
  | succ n ih => simp [beBytes, ih]

theorem beNat_congr {mem mem' : Nat → UInt8} {i n : Nat} (h : ∀ k < n, mem (i + k) = mem' (i + k)) :
    beNat mem i n = beNat mem' i n := by
  induction n with
  | zero => rfl
  | succ n ih =>
    rw [beNat, beNat, ih fun k hk => h k (by omega), h n (by omega)]

theorem overlay_append_left {bs cs : List UInt8} {mem : Nat → UInt8} {i : Nat} (h : i < bs.length) :
    overlay (bs ++ cs) mem i = overlay bs mem i := by
  have h' : i < (bs ++ cs).length := by simp; omega
  rw [overlay, overlay, dif_pos h', dif_pos h, List.getElem_append_left h]

theorem overlay_append_right (bs cs : List UInt8) (mem : Nat → UInt8) {i : Nat} (h : i < cs.length) :
    overlay (bs ++ cs) mem (bs.length + i) = cs[i] := by
  have h' : bs.length + i < (bs ++ cs).length := by simp; omega
  rw [overlay, dif_pos h', List.getElem_append_right (by omega)]
  congr 1
  omega

/-- Reading back what was written. -/
theorem beNat_overlay_beBytes (n v : Nat) (mem : Nat → UInt8) :
    beNat (overlay (beBytes n v) mem) 0 n = v % 256 ^ n := by
  induction n generalizing v with
  | zero => simp [beNat, Nat.mod_one]
  | succ n ih =>
    have hinit : beNat (overlay (beBytes (n + 1) v) mem) 0 n =
        beNat (overlay (beBytes n (v / 256)) mem) 0 n :=
      beNat_congr fun k hk => overlay_append_left (by simpa using hk)
    have hlast : overlay (beBytes (n + 1) v) mem (0 + n) = UInt8.ofNat v := by
      have h := overlay_append_right (beBytes n (v / 256)) [UInt8.ofNat v] mem
        (by simp : 0 < [UInt8.ofNat v].length)
      simpa [beBytes] using h
    have hbyte : (UInt8.ofNat v).toNat = v % 256 := by simp
    have hpow : 256 ^ (n + 1) = 256 * 256 ^ n := by rw [Nat.pow_succ, Nat.mul_comm]
    rw [beNat, hinit, hlast, ih, hbyte, hpow, Nat.mod_mul, Nat.add_comm]

/-- What was written is also found when more follows it. -/
theorem beNat_overlay_append {n v : Nat} (hv : v < 256 ^ n) (bs : List UInt8) (mem : Nat → UInt8) :
    beNat (overlay (beBytes n v ++ bs) mem) 0 n = v := by
  have hfront : beNat (overlay (beBytes n v ++ bs) mem) 0 n =
      beNat (overlay (beBytes n v) mem) 0 n :=
    beNat_congr fun k hk => overlay_append_left (by simpa using hk)
  rw [hfront, beNat_overlay_beBytes, Nat.mod_eq_of_lt hv]

/-! ### Putting bytes together -/

/-- A number that is shifted behind the low bits does not meet them. -/
theorem shiftLeft_or {a b k : Nat} (hb : b < 2 ^ k) : a <<< k ||| b = 2 ^ k * a + b := by
  rw [← Nat.shiftLeft_add_eq_or_of_lt hb, Nat.shiftLeft_eq, Nat.mul_comm]

theorem toNat_word (b₁ b₀ : UInt8) :
    (b₁.toUInt16 <<< 8 ||| b₀.toUInt16).toNat = 256 * b₁.toNat + b₀.toNat := by
  have hshift : (b₁.toUInt16 <<< 8).toNat = b₁.toNat <<< 8 := by
    have hb := b₁.toNat_lt
    have hlt : b₁.toNat <<< 8 < 2 ^ 16 := by
      rw [Nat.shiftLeft_eq]
      omega
    simpa using Nat.mod_eq_of_lt hlt
  rw [UInt16.toNat_or, hshift, UInt8.toNat_toUInt16]
  exact shiftLeft_or b₀.toNat_lt

theorem toNat_shift_toUInt32 (b : UInt8) {k : UInt32} (hk : k.toNat ≤ 24) :
    (b.toUInt32 <<< k).toNat = b.toNat <<< k.toNat := by
  have hb := b.toNat_lt
  have hpow : 2 ^ k.toNat ≤ 2 ^ 24 := Nat.pow_le_pow_right (by decide) hk
  have hlt : b.toNat <<< k.toNat < 2 ^ 32 := by
    rw [Nat.shiftLeft_eq]
    calc b.toNat * 2 ^ k.toNat ≤ 255 * 2 ^ 24 := Nat.mul_le_mul (by omega) hpow
      _ < 2 ^ 32 := by decide
  rw [UInt32.toNat_shiftLeft, UInt8.toNat_toUInt32, Nat.mod_eq_of_lt (by omega : k.toNat < 32),
    Nat.mod_eq_of_lt hlt]

theorem toNat_long (b₃ b₂ b₁ b₀ : UInt8) :
    (b₃.toUInt32 <<< 24 ||| b₂.toUInt32 <<< 16 ||| b₁.toUInt32 <<< 8 ||| b₀.toUInt32).toNat
      = 256 * (256 * (256 * b₃.toNat + b₂.toNat) + b₁.toNat) + b₀.toNat := by
  have h₂ := b₂.toNat_lt
  have h₁ := b₁.toNat_lt
  have h₀ := b₀.toNat_lt
  have hlow : b₁.toNat <<< 8 ||| b₀.toNat = 256 * b₁.toNat + b₀.toNat := shiftLeft_or h₀
  have hmid : b₂.toNat <<< 16 ||| (256 * b₁.toNat + b₀.toNat)
      = 65536 * b₂.toNat + (256 * b₁.toNat + b₀.toNat) := shiftLeft_or (by omega)
  have hhigh : b₃.toNat <<< 24 ||| (65536 * b₂.toNat + (256 * b₁.toNat + b₀.toNat))
      = 16777216 * b₃.toNat + (65536 * b₂.toNat + (256 * b₁.toNat + b₀.toNat)) :=
    shiftLeft_or (by omega)
  rw [UInt32.toNat_or, UInt32.toNat_or, UInt32.toNat_or, toNat_shift_toUInt32 b₃ (by decide),
    toNat_shift_toUInt32 b₂ (by decide), toNat_shift_toUInt32 b₁ (by decide),
    UInt8.toNat_toUInt32, Nat.or_assoc, Nat.or_assoc]
  simp only [UInt32.reduceToNat]
  rw [hlow, hmid, hhigh]
  omega

end Lib
