import SdPlane.Lib.BigEndian
import SdPlane.Lib.Crash
import SdPlane.Lib.Simulation

/-!
# The stream buffer (`stream_buf.c`)

A buffer is read one after the other from `getp` on, or at a position that is given. In front of
every access `size - position` is compared with what is asked for. It is computed as an
`unsigned long`: a position behind the end has more bytes left than there are.

The position of the sequential reads never gets there, whatever comes between them. So it is the
other reads that decide, `streamBuf_safe_iff`: all reads stay inside, give the bytes that they
should and move `getp` as they should, exactly if the positions that are given are not behind the
end, up to those where the difference comes out too small again for what is asked for.
-/

set_option autoImplicit false

namespace SdPlane

/-- `struct stream_buf`. `putp` and `endp` are never used. -/
structure StreamBuf where
  data : Nat → UInt8
  size : UInt64
  getp : UInt64

def streamNew (size : UInt64) : StreamBuf := ⟨fun _ => 0, size, 0⟩

namespace StreamBuf

/-- `s->data[i]` -/
def byte (s : StreamBuf) (i : UInt64) : Except Lib.Crash UInt8 := do
  Lib.inside i.toNat s.size.toNat
  return s.data i.toNat

/-- `s->data[s->getp++]` -/
def next (s : StreamBuf) : Except Lib.Crash (StreamBuf × UInt8) := do
  let c ← s.byte s.getp
  return ({ s with getp := s.getp + 1 }, c)

/-- `memcpy (dst, s->data + i, len)` -/
def memcpy (s : StreamBuf) (i : Nat) : Nat → Except Lib.Crash (List UInt8)
  | 0 => .ok []
  | len + 1 => do
    Lib.inside i s.size.toNat
    let rest ← s.memcpy (i + 1) len
    return s.data i :: rest

end StreamBuf

/-- What is copied to `dst` is given back. -/
def streamGet (s : StreamBuf) (size : UInt64) : Except Lib.Crash (StreamBuf × List UInt8) := do
  let len := if s.size - s.getp < size then s.size - s.getp else size
  let dst ← s.memcpy s.getp.toNat len.toNat
  return ({ s with getp := s.getp + len }, dst)

def streamGetc (s : StreamBuf) : Except Lib.Crash (StreamBuf × UInt8) :=
  if 1 ≤ s.size - s.getp then s.next else .ok (s, 0)

def streamGetw (s : StreamBuf) : Except Lib.Crash (StreamBuf × UInt16) :=
  if 2 ≤ s.size - s.getp then do
    let (s, b₁) ← s.next
    let (s, b₀) ← s.next
    return (s, b₁.toUInt16 <<< 8 ||| b₀.toUInt16)
  else .ok (s, 0)

def streamGetl (s : StreamBuf) : Except Lib.Crash (StreamBuf × UInt32) :=
  if 4 ≤ s.size - s.getp then do
    let (s, b₃) ← s.next
    let (s, b₂) ← s.next
    let (s, b₁) ← s.next
    let (s, b₀) ← s.next
    -- the first shift is one of an `int`, whose sign bit it may reach
    return (s, b₃.toUInt32 <<< 24 ||| b₂.toUInt32 <<< 16 ||| b₁.toUInt32 <<< 8 ||| b₀.toUInt32)
  else .ok (s, 0)

def streamGetAt (pos : UInt64) (s : StreamBuf) (size : UInt64) : Except Lib.Crash (List UInt8) :=
  let len := if s.size - pos < size then s.size - pos else size
  s.memcpy pos.toNat len.toNat

def streamGetcAt (pos : UInt64) (s : StreamBuf) : Except Lib.Crash UInt8 :=
  if 0 < s.size - pos then s.byte pos else .ok 0

def streamGetwAt (pos : UInt64) (s : StreamBuf) : Except Lib.Crash UInt16 :=
  if 2 ≤ s.size - pos then do
    let b₁ ← s.byte pos
    let b₀ ← s.byte (pos + 1)
    return b₁.toUInt16 <<< 8 ||| b₀.toUInt16
  else .ok 0

def streamGetlAt (pos : UInt64) (s : StreamBuf) : Except Lib.Crash UInt32 :=
  if 4 ≤ s.size - pos then do
    let b₃ ← s.byte pos
    let b₂ ← s.byte (pos + 1)
    let b₁ ← s.byte (pos + 2)
    let b₀ ← s.byte (pos + 3)
    return b₃.toUInt32 <<< 24 ||| b₂.toUInt32 <<< 16 ||| b₁.toUInt32 <<< 8 ||| b₀.toUInt32
  else .ok 0

/-! ## What it is for -/

inductive StreamOp
  | get (size : UInt64)
  | getc
  | getw
  | getl
  | getAt (pos size : UInt64)
  | getcAt (pos : UInt64)
  | getwAt (pos : UInt64)
  | getlAt (pos : UInt64)

inductive StreamOut
  | bytes (bs : List UInt8)
  | number (value : Nat)
deriving DecidableEq

def StreamOp.run (s : StreamBuf) : StreamOp → Except Lib.Crash (StreamBuf × StreamOut)
  | .get size => do
    let (s, bs) ← streamGet s size
    return (s, .bytes bs)
  | .getc => do
    let (s, c) ← streamGetc s
    return (s, .number c.toNat)
  | .getw => do
    let (s, w) ← streamGetw s
    return (s, .number w.toNat)
  | .getl => do
    let (s, l) ← streamGetl s
    return (s, .number l.toNat)
  | .getAt pos size => do return (s, .bytes (← streamGetAt pos s size))
  | .getcAt pos => do return (s, .number (← streamGetcAt pos s).toNat)
  | .getwAt pos => do return (s, .number (← streamGetwAt pos s).toNat)
  | .getlAt pos => do return (s, .number (← streamGetlAt pos s).toNat)

section Spec

variable (data : Nat → UInt8) (n : Nat)

/-- The bytes from `p` on, at most `size` of them. -/
def bytesAt (p size : Nat) : List UInt8 := (List.range (min size (n - p))).map fun i => data (p + i)

/-- The number of `k` bytes at `p`, if there are as many. -/
def numberAt (p k : Nat) : Nat := if p + k ≤ n then Lib.beNat data p k else 0

/-- Behind them. -/
def behind (p k : Nat) : Nat := if p + k ≤ n then p + k else p

/-- Reading from a file of the bytes below `n`, at place `p`. -/
def fileRead (p : Nat) : StreamOp → Nat × StreamOut
  | .get size => (p + min size.toNat (n - p), .bytes (bytesAt data n p size.toNat))
  | .getc => (behind n p 1, .number (numberAt data n p 1))
  | .getw => (behind n p 2, .number (numberAt data n p 2))
  | .getl => (behind n p 4, .number (numberAt data n p 4))
  | .getAt pos size => (p, .bytes (bytesAt data n pos.toNat size.toNat))
  | .getcAt pos => (p, .number (numberAt data n pos.toNat 1))
  | .getwAt pos => (p, .number (numberAt data n pos.toNat 2))
  | .getlAt pos => (p, .number (numberAt data n pos.toNat 4))

/-- The buffer is at place `p` of the file. -/
structure StreamAt (s : StreamBuf) (p : Nat) : Prop where
  data : s.data = data
  size : s.size.toNat = n
  getp : s.getp.toNat = p
  le : p ≤ n

end Spec

/-- A position that is given is not behind the end, or `n - pos` is too small, modulo 2⁶⁴. -/
def StreamOp.InRange (n : UInt64) : StreamOp → Prop
  | .getAt pos size => pos ≤ n ∨ size = 0
  | .getcAt pos => pos ≤ n
  | .getwAt pos => pos ≤ n ∨ n - pos < 2
  | .getlAt pos => pos ≤ n ∨ n - pos < 4
  | _ => True

/-! ## Reads inside -/

namespace StreamBuf

variable {s : StreamBuf}

theorem byte_of_lt {i : UInt64} (h : i.toNat < s.size.toNat) : s.byte i = .ok (s.data i.toNat) := by
  rw [byte, Lib.inside_of_lt (by omega)]
  rfl

theorem byte_of_ge {i : UInt64} (h : s.size.toNat ≤ i.toNat) : s.byte i = .error .outOfBounds := by
  rw [byte, Lib.inside_of_ge (by omega)]
  rfl

theorem memcpy_of_le {i len : Nat} (h : i + len ≤ s.size.toNat) :
    s.memcpy i len = .ok ((List.range len).map fun k => s.data (i + k)) := by
  induction len generalizing i with
  | zero => rfl
  | succ len ih =>
    have hrest : (List.range len).map (fun k => s.data (i + 1 + k))
        = (List.range len).map fun k => s.data (i + (k + 1)) :=
      List.map_congr_left fun k _ => by rw [Nat.add_assoc, Nat.add_comm 1]
    rw [memcpy, Lib.inside_of_lt (by omega), Lib.ok_bind, ih (by omega), List.range_succ_eq_map]
    simp [hrest, Function.comp_def]

theorem memcpy_of_ge {i len : Nat} (h : s.size.toNat ≤ i) :
    s.memcpy i (len + 1) = .error .outOfBounds := by
  rw [memcpy, Lib.inside_of_ge (by omega)]
  rfl

/-- What seems to be left behind the end is more than nothing. -/
theorem left_pos {pos : UInt64} (h : ¬ pos ≤ s.size) : 0 < s.size - pos := by
  apply UInt64.pos_iff_ne_zero.mpr
  intro heq
  exact h (UInt64.le_of_eq (sub_eq_zero.mp heq).symm)

/-- There is as much left as is asked for, if there is, unless the difference has gone round. -/
theorem le_left {pos k : UInt64} (h : pos ≤ s.size ∨ s.size - pos < k) :
    k ≤ s.size - pos ↔ pos.toNat + k.toNat ≤ s.size.toNat := by
  by_cases hle : pos ≤ s.size
  · have hnat := UInt64.le_iff_toNat_le.mp hle
    rw [UInt64.le_iff_toNat_le, UInt64.toNat_sub_of_le _ _ hle]
    omega
  · have hlt : s.size - pos < k := h.resolve_left hle
    rw [UInt64.le_iff_toNat_le] at hle ⊢
    rw [UInt64.lt_iff_toNat_lt] at hlt
    constructor
    · intro hk
      omega
    · intro hk
      omega

theorem toNat_add_of_lt {pos k : UInt64} (h : pos.toNat + k.toNat < s.size.toNat) :
    (pos + k).toNat = pos.toNat + k.toNat := by
  have hsize := s.size.toNat_lt
  rw [UInt64.toNat_add, Nat.mod_eq_of_lt (by omega)]

theorem byte_add {pos : UInt64} (k : UInt64) (h : pos.toNat + k.toNat < s.size.toNat) :
    s.byte (pos + k) = .ok (s.data (pos.toNat + k.toNat)) := by
  rw [byte_of_lt (by rw [toNat_add_of_lt h]; exact h), toNat_add_of_lt h]

end StreamBuf

variable {data : Nat → UInt8} {n p : Nat} {s : StreamBuf}

namespace StreamAt

variable (h : StreamAt data n s p)

include h

theorem left : (s.size - s.getp).toNat = n - p := by
  have hle : s.getp ≤ s.size := by
    rw [UInt64.le_iff_toNat_le, h.getp, h.size]
    exact h.le
  rw [UInt64.toNat_sub_of_le _ _ hle, h.size, h.getp]

theorem advance {k : UInt64} (hk : p + k.toNat ≤ n) :
    StreamAt data n { s with getp := s.getp + k } (p + k.toNat) where
  data := h.data
  size := h.size
  getp := by
    have hn := s.size.toNat_lt
    rw [h.size] at hn
    show (s.getp + k).toNat = _
    rw [UInt64.toNat_add, h.getp, Nat.mod_eq_of_lt (by omega)]
  le := hk

theorem next (hlt : p < n) : ∃ t, s.next = .ok (t, data p) ∧ StreamAt data n t (p + 1) := by
  refine ⟨{ s with getp := s.getp + 1 }, ?_, h.advance (k := 1) hlt⟩
  rw [StreamBuf.next, StreamBuf.byte_of_lt (by rw [h.getp, h.size]; exact hlt), h.getp, h.data]
  rfl

theorem le_left {k : UInt64} : k ≤ s.size - s.getp ↔ p + k.toNat ≤ n := by
  rw [StreamBuf.le_left, h.getp, h.size]
  rw [UInt64.le_iff_toNat_le, h.getp, h.size]
  exact .inl h.le

theorem get (size : UInt64) : ∃ t, streamGet s size = .ok (t, bytesAt data n p size.toNat)
    ∧ StreamAt data n t (p + min size.toNat (n - p)) := by
  have hlen : (if s.size - s.getp < size then s.size - s.getp else size).toNat
      = min size.toNat (n - p) := by
    have hleft := h.left
    split
    · rename_i hlt
      rw [UInt64.lt_iff_toNat_lt] at hlt
      omega
    · rename_i hge
      rw [UInt64.lt_iff_toNat_lt] at hge
      omega
  have hle := h.le
  have hcopy := @StreamBuf.memcpy_of_le s p (min size.toNat (n - p)) (by rw [h.size]; omega)
  have hnext := h.advance (k := if s.size - s.getp < size then s.size - s.getp else size)
    (by rw [hlen]; omega)
  rw [hlen] at hnext
  refine ⟨_, ?_, hnext⟩
  rw [streamGet, hlen, h.getp, hcopy, h.data]
  rfl

theorem getc : ∃ t c, streamGetc s = .ok (t, c) ∧ c.toNat = numberAt data n p 1
    ∧ StreamAt data n t (behind n p 1) := by
  have hle := h.le_left (k := 1)
  rw [streamGetc, numberAt, behind]
  by_cases hin : p + 1 ≤ n
  · obtain ⟨t, ht, hat⟩ := h.next hin
    rw [if_pos (hle.mpr hin), if_pos hin, if_pos hin]
    exact ⟨t, data p, ht, by simp [Lib.beNat], hat⟩
  · rw [if_neg fun hl => hin (hle.mp hl), if_neg hin, if_neg hin]
    exact ⟨s, 0, rfl, rfl, h⟩

theorem getw : ∃ t w, streamGetw s = .ok (t, w) ∧ w.toNat = numberAt data n p 2
    ∧ StreamAt data n t (behind n p 2) := by
  have hle := h.le_left (k := 2)
  rw [streamGetw]
  by_cases hin : p + 2 ≤ n
  · obtain ⟨s₁, h₁, hs₁⟩ := h.next (by omega)
    obtain ⟨s₂, h₂, hs₂⟩ := hs₁.next (by omega)
    refine ⟨s₂, (data p).toUInt16 <<< 8 ||| (data (p + 1)).toUInt16, ?_, ?_, ?_⟩
    · simp only [if_pos (hle.mpr hin), h₁, h₂, Lib.ok_bind, Lib.pure_eq_ok]
    · rw [Lib.toNat_word, numberAt, if_pos hin]
      simp [Lib.beNat]
    · rw [behind, if_pos hin]
      exact hs₂
  · refine ⟨s, 0, if_neg fun hl => hin (hle.mp hl), ?_, ?_⟩
    · rw [numberAt, if_neg hin]
      rfl
    · rw [behind, if_neg hin]
      exact h

theorem getl : ∃ t l, streamGetl s = .ok (t, l) ∧ l.toNat = numberAt data n p 4
    ∧ StreamAt data n t (behind n p 4) := by
  have hle := h.le_left (k := 4)
  rw [streamGetl]
  by_cases hin : p + 4 ≤ n
  · obtain ⟨s₁, h₁, hs₁⟩ := h.next (by omega)
    obtain ⟨s₂, h₂, hs₂⟩ := hs₁.next (by omega)
    obtain ⟨s₃, h₃, hs₃⟩ := hs₂.next (by omega)
    obtain ⟨s₄, h₄, hs₄⟩ := hs₃.next (by omega)
    refine ⟨s₄, (data p).toUInt32 <<< 24 ||| (data (p + 1)).toUInt32 <<< 16
      ||| (data (p + 1 + 1)).toUInt32 <<< 8 ||| (data (p + 1 + 1 + 1)).toUInt32, ?_, ?_, ?_⟩
    · simp only [if_pos (hle.mpr hin), h₁, h₂, h₃, h₄, Lib.ok_bind, Lib.pure_eq_ok]
    · rw [Lib.toNat_long, numberAt, if_pos hin]
      simp [Lib.beNat, Nat.add_assoc]
    · rw [behind, if_pos hin]
      exact hs₄
  · refine ⟨s, 0, if_neg fun hl => hin (hle.mp hl), ?_, ?_⟩
    · rw [numberAt, if_neg hin]
      rfl
    · rw [behind, if_neg hin]
      exact h

/-! ### Reads at a position -/

variable {pos : UInt64}

theorem getAt {size : UInt64} (hpos : pos ≤ s.size ∨ size = 0) :
    streamGetAt pos s size = .ok (bytesAt data n pos.toNat size.toNat) := by
  have hlen : (if s.size - pos < size then s.size - pos else size).toNat
      = min size.toNat (n - pos.toNat) := by
    rcases hpos with hle | rfl
    · have hleft := UInt64.toNat_sub_of_le _ _ hle
      rw [h.size] at hleft
      split
      · rename_i hlt
        rw [UInt64.lt_iff_toNat_lt] at hlt
        omega
      · rename_i hge
        rw [UInt64.lt_iff_toNat_lt] at hge
        omega
    · rw [if_neg UInt64.not_lt_zero]
      exact (Nat.zero_min _).symm
  show s.memcpy _ _ = _
  rw [hlen]
  rcases hpos with hle | rfl
  · rw [UInt64.le_iff_toNat_le, h.size] at hle
    rw [StreamBuf.memcpy_of_le (by rw [h.size]; omega), h.data]
    rfl
  · simp [StreamBuf.memcpy, bytesAt]

theorem getcAt (hpos : pos ≤ s.size) :
    ∃ c, streamGetcAt pos s = .ok c ∧ c.toNat = numberAt data n pos.toNat 1 := by
  have hle : 1 ≤ s.size - pos ↔ pos.toNat + 1 ≤ s.size.toNat := StreamBuf.le_left (.inl hpos)
  rw [h.size] at hle
  have hpos : 0 < s.size - pos ↔ 1 ≤ s.size - pos := by
    rw [UInt64.lt_iff_toNat_lt, UInt64.le_iff_toNat_le]
    exact Nat.lt_iff_add_one_le
  rw [streamGetcAt, numberAt]
  by_cases hin : pos.toNat + 1 ≤ n
  · rw [if_pos (hpos.mpr (hle.mpr hin)), if_pos hin,
      StreamBuf.byte_of_lt (by rw [h.size]; exact hin), h.data]
    exact ⟨_, rfl, by simp [Lib.beNat]⟩
  · rw [if_neg fun hl => hin (hle.mp (hpos.mp hl)), if_neg hin]
    exact ⟨0, rfl, rfl⟩

theorem getwAt (hpos : pos ≤ s.size ∨ s.size - pos < 2) :
    ∃ w, streamGetwAt pos s = .ok w ∧ w.toNat = numberAt data n pos.toNat 2 := by
  have hle : 2 ≤ s.size - pos ↔ pos.toNat + 2 ≤ s.size.toNat := StreamBuf.le_left hpos
  rw [h.size] at hle
  have hsize := h.size
  rw [streamGetwAt, numberAt]
  by_cases hin : pos.toNat + 2 ≤ n
  · have h₁ : s.byte pos = .ok (s.data pos.toNat) := StreamBuf.byte_of_lt (by omega)
    have h₂ : s.byte (pos + 1) = .ok (s.data (pos.toNat + 1)) :=
      StreamBuf.byte_add 1 (by show pos.toNat + 1 < _; omega)
    simp only [if_pos (hle.mpr hin), if_pos hin, h₁, h₂, Lib.ok_bind, h.data]
    refine ⟨_, rfl, ?_⟩
    rw [Lib.toNat_word]
    simp [Lib.beNat]
  · rw [if_neg fun hl => hin (hle.mp hl), if_neg hin]
    exact ⟨0, rfl, rfl⟩

theorem getlAt (hpos : pos ≤ s.size ∨ s.size - pos < 4) :
    ∃ l, streamGetlAt pos s = .ok l ∧ l.toNat = numberAt data n pos.toNat 4 := by
  have hle : 4 ≤ s.size - pos ↔ pos.toNat + 4 ≤ s.size.toNat := StreamBuf.le_left hpos
  rw [h.size] at hle
  have hsize := h.size
  rw [streamGetlAt, numberAt]
  by_cases hin : pos.toNat + 4 ≤ n
  · have h₁ : s.byte pos = .ok (s.data pos.toNat) := StreamBuf.byte_of_lt (by omega)
    have h₂ : s.byte (pos + 1) = .ok (s.data (pos.toNat + 1)) :=
      StreamBuf.byte_add 1 (by show pos.toNat + 1 < _; omega)
    have h₃ : s.byte (pos + 2) = .ok (s.data (pos.toNat + 2)) :=
      StreamBuf.byte_add 2 (by show pos.toNat + 2 < _; omega)
    have h₄ : s.byte (pos + 3) = .ok (s.data (pos.toNat + 3)) :=
      StreamBuf.byte_add 3 (by show pos.toNat + 3 < _; omega)
    simp only [if_pos (hle.mpr hin), if_pos hin, h₁, h₂, h₃, h₄, Lib.ok_bind, h.data]
    refine ⟨_, rfl, ?_⟩
    rw [Lib.toNat_long]
    simp [Lib.beNat]
  · rw [if_neg fun hl => hin (hle.mp hl), if_neg hin]
    exact ⟨0, rfl, rfl⟩

/-! ### Any operation -/

theorem run {op : StreamOp} (hop : op.InRange s.size) :
    ∃ t, op.run s = .ok (t, (fileRead data n p op).2)
      ∧ StreamAt data n t (fileRead data n p op).1 := by
  cases op with
  | get size =>
    obtain ⟨t, ht, hat⟩ := h.get size
    exact ⟨t, by simp [StreamOp.run, ht, fileRead], hat⟩
  | getc =>
    obtain ⟨t, c, ht, hc, hat⟩ := h.getc
    exact ⟨t, by simp [StreamOp.run, ht, hc, fileRead], hat⟩
  | getw =>
    obtain ⟨t, w, ht, hw, hat⟩ := h.getw
    exact ⟨t, by simp [StreamOp.run, ht, hw, fileRead], hat⟩
  | getl =>
    obtain ⟨t, l, ht, hl, hat⟩ := h.getl
    exact ⟨t, by simp [StreamOp.run, ht, hl, fileRead], hat⟩
  | getAt pos size => exact ⟨s, by simp [StreamOp.run, h.getAt hop, fileRead], h⟩
  | getcAt pos =>
    obtain ⟨c, hc, hval⟩ := h.getcAt hop
    exact ⟨s, by simp [StreamOp.run, hc, hval, fileRead], h⟩
  | getwAt pos =>
    obtain ⟨w, hw, hval⟩ := h.getwAt hop
    exact ⟨s, by simp [StreamOp.run, hw, hval, fileRead], h⟩
  | getlAt pos =>
    obtain ⟨l, hl, hval⟩ := h.getlAt hop
    exact ⟨s, by simp [StreamOp.run, hl, hval, fileRead], h⟩

end StreamAt

/-- What is asked for behind the end is read there. -/
theorem StreamBuf.run_of_not_inRange {op : StreamOp} (hop : ¬ op.InRange s.size) :
    op.run s = .error .outOfBounds := by
  cases op with
  | getAt pos size =>
    obtain ⟨hpos, hsize⟩ := not_or.mp hop
    have hleft := left_pos hpos
    obtain ⟨len, hlen⟩ : ∃ len, (if s.size - pos < size then s.size - pos else size).toNat
        = len + 1 := by
      apply Nat.exists_eq_add_one.mpr
      split
      · exact UInt64.lt_iff_toNat_lt.mp hleft
      · exact UInt64.lt_iff_toNat_lt.mp (UInt64.pos_iff_ne_zero.mpr hsize)
    rw [UInt64.not_le, UInt64.lt_iff_toNat_lt] at hpos
    simp only [StreamOp.run, streamGetAt, hlen, memcpy_of_ge hpos.le, Lib.error_bind]
  | getcAt pos =>
    have hleft := left_pos hop
    have hpos : s.size.toNat < pos.toNat := UInt64.lt_iff_toNat_lt.mp (UInt64.not_le.mp hop)
    simp only [StreamOp.run, streamGetcAt, if_pos hleft, byte_of_ge hpos.le, Lib.error_bind]
  | getwAt pos =>
    obtain ⟨hpos, hleft⟩ := not_or.mp hop
    rw [UInt64.not_le, UInt64.lt_iff_toNat_lt] at hpos
    simp only [StreamOp.run, streamGetwAt, if_pos (UInt64.not_lt.mp hleft), byte_of_ge hpos.le,
      Lib.error_bind]
  | getlAt pos =>
    obtain ⟨hpos, hleft⟩ := not_or.mp hop
    rw [UInt64.not_le, UInt64.lt_iff_toNat_lt] at hpos
    simp only [StreamOp.run, streamGetlAt, if_pos (UInt64.not_lt.mp hleft), byte_of_ge hpos.le,
      Lib.error_bind]
  | _ => exact absurd trivial hop

/-! ## The result -/

/-- At the beginning of what has been put into a new buffer. -/
theorem streamAt_new (size : UInt64) (data : Nat → UInt8) :
    StreamAt data size.toNat { streamNew size with data } 0 :=
  ⟨rfl, rfl, rfl, Nat.zero_le _⟩

/-- **Reads stay inside and give what they should, if no position is behind the end.** -/
theorem streamBuf_safe_iff (size : UInt64) (data : Nat → UInt8) (ops : List StreamOp) :
    Lib.Simulates StreamOp.run (fileRead data size.toNat) (StreamAt data size.toNat)
        { streamNew size with data } 0 ops
      ↔ ∀ op, op ∈ ops → op.InRange size := by
  rw [← @Lib.allAllowed_const _ _ _ (fileRead data size.toNat) _ 0]
  have hsize : ∀ s p, StreamAt data size.toNat s p → s.size = size :=
    fun _ _ hs => UInt64.toNat_inj.mp hs.size
  refine Lib.simulates_iff_allAllowed (fun s p op hs _ hop => ?_) (fun _ _ hs => hs)
    (fun s p op hs _ hrun => ?_) (streamAt_new size data) (Lib.allAllowed_true _ _)
  · exact hs.run (by rwa [hsize s p hs])
  · by_contra hop
    obtain ⟨t, ht, -⟩ := hrun
    rw [StreamBuf.run_of_not_inRange (by rwa [hsize s p hs])] at ht
    cases ht

/-- Of 4 bytes, the one at 5. -/
theorem streamBuf_reads_behind : ¬ Lib.Simulates StreamOp.run (fileRead (fun _ => 0) 4)
    (StreamAt (fun _ => 0) 4) (streamNew 4) 0 [.getcAt 5] := by
  intro h
  obtain ⟨s, hrun, -⟩ := h _ List.prefix_rfl
  have hcrash : Lib.runOps StreamOp.run (streamNew 4) [.getcAt 5] = .error .outOfBounds := by
    simp only [Lib.runOps, @StreamBuf.run_of_not_inRange (streamNew 4) (.getcAt 5)
      (by simp [StreamOp.InRange, streamNew])]
  rw [hcrash] at hrun
  cases hrun

end SdPlane
