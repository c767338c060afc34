import SdPlane.Lib.Strto

/-!
# One numeral in two bases

What `strtoul` makes of a text when the text itself says what its base is, and what the same text
is when it is read as a decimal number. `strto_auto` says which the bases are, `strto_ten` that the
decimal reader takes the text as it is.

The digits of an octal number make a larger number when they are read as decimal ones. How much
larger is said by `respell`; modulo 2¹⁶ both are only the same when there is one digit.
-/

set_option autoImplicit false

namespace Lib

/-! ### Digits -/

theorem readDigits_concat (base : Nat) (cs : List Char) (c : Char) :
    readDigits base (cs ++ [c]) = readDigits base cs * base + digit c := by
  simp [readDigits]

theorem digit_eq_zero {c : Char} : digit c = 0 ↔ c = '0' := by
  rw [digit]
  constructor
  · intro h
    split at h
    · rename_i hdec
      have hle : '0'.toNat ≤ c.toNat := hdec.1
      exact Char.toNat_inj.mp (by omega)
    · split at h
      · omega
      · split at h <;> omega
  · rintro rfl
    rfl

theorem readDigits_eq_zero {base : Nat} (hbase : 0 < base) {cs : List Char} :
    readDigits base cs = 0 ↔ ∀ c ∈ cs, c = '0' := by
  induction cs using List.reverseRecOn with
  | nil => simp [readDigits]
  | append_singleton cs c ih =>
    rw [readDigits_concat, Nat.add_eq_zero_iff, Nat.mul_eq_zero, digit_eq_zero, ih,
      List.forall_mem_append, List.forall_mem_singleton, or_iff_left hbase.ne']

theorem readDigits_mono {base base' : Nat} (h : base ≤ base') (cs : List Char) :
    readDigits base cs ≤ readDigits base' cs := by
  induction cs using List.reverseRecOn with
  | nil => exact le_rfl
  | append_singleton cs c ih =>
    rw [readDigits_concat, readDigits_concat]
    exact Nat.add_le_add_right (Nat.mul_le_mul ih h) _

/-- The decimal number with the last `k` octal digits of `n`. -/
def respell : Nat → Nat → Nat
  | 0, _ => 0
  | k + 1, n => 10 * respell k (n / 8) + n % 8

theorem readDigits_respell {k : Nat} {cs : List Char} (hcs : ∀ c ∈ cs, digit c < 8)
    (hk : readDigits 8 cs < 8 ^ k) : readDigits 10 cs = respell k (readDigits 8 cs) := by
  induction cs using List.reverseRecOn generalizing k with
  | nil =>
    have hzero : ∀ k, respell k 0 = 0 := fun k => by
      induction k with
      | zero => rfl
      | succ k ih => simp [respell, ih]
    exact (hzero k).symm
  | append_singleton cs c ih =>
    have hc : digit c < 8 := hcs c (by simp)
    rw [readDigits_concat] at hk ⊢
    cases k with
    | zero =>
      rw [readDigits_concat, ih (k := 0) (fun d hd => hcs d (by simp [hd])) (by omega)]
      simp only [respell]
      omega
    | succ k =>
      have hdiv : (readDigits 8 cs * 8 + digit c) / 8 = readDigits 8 cs := by omega
      have hmod : (readDigits 8 cs * 8 + digit c) % 8 = digit c := by omega
      rw [readDigits_concat, respell, hdiv, hmod,
        ih (k := k) (fun d hd => hcs d (by simp [hd])) (by rw [Nat.pow_succ] at hk; omega)]
      omega

/-- The difference is no multiple of 2¹⁶, for numbers below it. -/
theorem respell_same {n : Nat} (hn : n < 2 ^ 16) : respell 6 n % 2 ^ 16 = n ↔ n < 8 := by
  -- the digits of `n`
  obtain ⟨d₁, hd₁⟩ : ∃ d, d = n / 8 % 8 := ⟨_, rfl⟩
  obtain ⟨d₂, hd₂⟩ : ∃ d, d = n / 8 / 8 % 8 := ⟨_, rfl⟩
  obtain ⟨d₃, hd₃⟩ : ∃ d, d = n / 8 / 8 / 8 % 8 := ⟨_, rfl⟩
  obtain ⟨d₄, hd₄⟩ : ∃ d, d = n / 8 / 8 / 8 / 8 % 8 := ⟨_, rfl⟩
  obtain ⟨d₅, hd₅⟩ : ∃ d, d = n / 8 / 8 / 8 / 8 / 8 % 8 := ⟨_, rfl⟩
  have hmore : respell 6 n = n + (2 * d₁ + 36 * d₂ + 488 * d₃ + 5904 * d₄ + 67232 * d₅) := by
    simp only [respell]
    omega
  have hlast : d₅ ≤ 1 := by omega
  have hsmall : 2 * d₁ + 36 * d₂ + 488 * d₃ + 5904 * d₄ ≤ 45010 := by omega
  have hone : n < 8 ↔ d₁ = 0 ∧ d₂ = 0 ∧ d₃ = 0 ∧ d₄ = 0 ∧ d₅ = 0 := by omega
  have hmod : ∀ more, (n + more) % 2 ^ 16 = n ↔ more % 2 ^ 16 = 0 := fun more => by omega
  rw [hmore, hone, hmod]
  clear hd₁ hd₂ hd₃ hd₄ hd₅ hmore hone hmod
  rcases Nat.le_one_iff_eq_zero_or_eq_one.mp hlast with rfl | rfl
  · rw [Nat.mul_zero, Nat.add_zero, Nat.mod_eq_of_lt (by omega)]
    omega
  · omega

/-! ### Texts -/

/-- What says the base, and the digits behind it. -/
inductive Spelling : Nat → List Char → List Char → Prop
  | hex (x d : Char) (cs : List Char) (hx : x = 'x' ∨ x = 'X') : Spelling 16 ('0' :: x :: d :: cs) (d :: cs)
  | octal (cs : List Char) : Spelling 8 ('0' :: cs) ('0' :: cs)
  | decimal (cs : List Char) (h : cs.head? ≠ some '0') : Spelling 10 cs cs

theorem skipBase_ten (body : List Char) : skipBase 10 body = (10, body) := by
  unfold skipBase
  split
  · rw [if_neg (by simp)]
    rfl
  · rfl
  · rfl

theorem skipBase_auto (body : List Char) : ∃ base digits, skipBase 0 body = (base, digits)
    ∧ Spelling base body digits := by
  unfold skipBase
  split
  · rename_i x d cs
    by_cases hhex : (0 = 0 ∨ 0 = 16) ∧ (x = 'x' ∨ x = 'X') ∧ digit d < 16
    · exact ⟨_, _, if_pos hhex, .hex x d cs hhex.2.1⟩
    · exact ⟨_, _, if_neg hhex, .octal _⟩
  · exact ⟨_, _, rfl, .octal _⟩
  · rename_i hne hne'
    refine ⟨_, _, rfl, .decimal _ fun hhead => ?_⟩
    cases body with
    | nil => cases hhead
    | cons c cs => exact hne' cs (by rw [Option.some.inj hhead])

/-- What `strtoul` takes for a number as a whole. -/
structure Numeral (word : List Char) (negative : Bool) (base : Nat) (body digits : List Char) :
    Prop where
  sign : skipSign (word.dropWhile isSpace) = (negative, body)
  spelling : Spelling base body digits
  skip : skipBase 0 body = (base, digits)
  nonempty : digits ≠ []
  digits : ∀ c ∈ digits, digit c < base

theorem strto_auto {word : List Char} (h : (strto word 0).2.2 = []) : word = [] ∨
    ∃ negative base body digits, Numeral word negative base body digits
      ∧ strto word 0 = (negative, readDigits base digits, []) := by
  cases hsign : skipSign (word.dropWhile isSpace) with
  | mk negative body =>
    obtain ⟨base, digits, hskip, hspelling⟩ := skipBase_auto body
    simp only [strto, hsign, hskip] at h ⊢
    by_cases hnone : digits.takeWhile (digit · < base) = []
    · rw [if_pos hnone] at h
      exact .inl h
    · rw [if_neg hnone] at h ⊢
      -- nothing is left of the digits
      have hle : digits.length ≤ (digits.takeWhile (digit · < base)).length :=
        List.drop_eq_nil_iff.mp h
      have hall : digits.takeWhile (digit · < base) = digits :=
        (List.takeWhile_prefix _).eq_of_length_le hle
      refine .inr ⟨negative, base, body, digits, ⟨hsign, hspelling, hskip, hall ▸ hnone, ?_⟩, ?_⟩
      · intro c hc
        rw [← hall] at hc
        simpa using List.mem_takeWhile_imp hc
      · rw [hall, List.drop_length]

/-- A decimal reader reads all of a decimal or octal number, and the zero in front of a hexadecimal
    one. -/
theorem Numeral.strto_ten {word body digits : List Char} {negative : Bool} {base : Nat}
    (h : Numeral word negative base body digits) :
    ∃ rest, strto word 10
      = (negative, if base = 16 then 0 else readDigits 10 digits, rest) := by
  have hdigits := h.digits
  have hne := h.nonempty
  simp only [strto, h.sign, skipBase_ten]
  cases h.spelling with
  | hex x d cs hx =>
    have hzero : ('0' :: x :: d :: cs).takeWhile (digit · < 10) = ['0'] := by
      rcases hx with rfl | rfl <;> rfl
    rw [hzero]
    exact ⟨_, rfl⟩
  | octal cs =>
    have hall : ('0' :: cs).takeWhile (digit · < 10) = '0' :: cs := by
      rw [List.takeWhile_eq_self_iff]
      intro c hc
      have hlt := hdigits c hc
      simp
      omega
    rw [hall]
    exact ⟨_, rfl⟩
  | decimal _ hhead =>
    have hall : body.takeWhile (digit · < 10) = body := by
      rw [List.takeWhile_eq_self_iff]
      intro c hc
      simpa using hdigits c hc
    rw [hall, if_neg hne]
    exact ⟨_, rfl⟩

end Lib
