import SdPlane.CommandOrder
import SdPlane.Lib.Numeral

/-!
# Numbers on the command line (`command.c`, `rib.c`)

A word for `<1-4094>` is read twice. `range_match` reads it with `strtoul`, which takes a leading
`0x` or `0` for a base, to see whether it is in range; the command reads it again with `atoi`, which
takes it for a decimal number, and keeps 16 bits of it.

`rangeMatch_readAlike` says of which of the words that are accepted both make the same number. It is
not all of them: `0x10` is 16 in range, and 0 for the command.
-/

set_option autoImplicit false

namespace SdPlane

def atoi (word : Str) : Int := Int.bmod (Lib.strtol word 10).1 (2 ^ 32)

/-- `uint16_t id = atoi (arg);` in `set_vswitch`, `set_vswitch_port` and
    `set_vswitch_port_tag_swap`. -/
def argUint16 (arg : Str) : Nat := (atoi arg % 2 ^ 16).toNat

/-- Nothing at all; a zero, however it is written; or, without a minus, a decimal number of 16 bits,
    or a single octal digit with zeros in front. -/
def ReadAlike (word : Str) : Prop :=
  word = [] ∨
    let (negative, body) := Lib.skipSign (word.dropWhile Lib.isSpace)
    let (base, digits) := Lib.skipBase 0 body
    (∀ c ∈ digits, c = '0')
      ∨ negative = false ∧ (base = 10 ∧ Lib.readDigits 10 digits < 2 ^ 16
        ∨ base = 8 ∧ ∀ c ∈ digits.dropLast, c = '0')

/-! ## Both readings -/

theorem argUint16_eq {word : Str} {negative : Bool} {m : Nat} {rest : Str}
    (h : Lib.strto word 10 = (negative, m, rest)) : argUint16 word
      = (max (-2 ^ 63) (min (2 ^ 63 - 1) (if negative then -(m : Int) else m)) % 2 ^ 16).toNat := by
  have hbmod : ∀ x : Int, Int.bmod x (2 ^ 32) % 2 ^ 16 = x % 2 ^ 16 := fun x => by
    rw [Int.bmod_def]
    split <;> omega
  simp only [argUint16, atoi, Lib.strtol, h, hbmod]
  rfl

theorem strtoul_eq {word : Str} {negative : Bool} {n : Nat} {rest : Str}
    (h : Lib.strto word 0 = (negative, n, rest)) : Lib.strtoul word 0
      = (if 2 ^ 64 ≤ n then 2 ^ 64 - 1 else if negative then (2 ^ 64 - n) % 2 ^ 64 else n, rest) := by
  simp only [Lib.strtoul, h, Lib.ULONG_MAX]
  by_cases hbig : 2 ^ 64 ≤ n
  · rw [if_pos (by omega), if_pos hbig]
  · rw [if_neg (by omega), if_neg hbig]
    cases negative <;> rfl

/-- A text that is `n` in its own base and `m` as a decimal number, behind a minus. -/
theorem readings_negative {n m : Nat} (hn : n ≠ 0) (hm : n ≤ m ∨ m = 0) :
    (max (-2 ^ 63) (min (2 ^ 63 - 1) (-(m : Int))) % 2 ^ 16).toNat
      ≠ if 2 ^ 64 ≤ n then 2 ^ 64 - 1 else (2 ^ 64 - n) % 2 ^ 64 := by
  have hmin : min (2 ^ 63 - 1) (-(m : Int)) = -m := by omega
  rw [hmin]
  by_cases hbig : m ≤ 2 ^ 63
  · have hmax : max (-2 ^ 63) (-(m : Int)) = -m := by omega
    rw [hmax]
    rcases hm with hm | hm
    -- the complement is far above 16 bits
    · split <;> omega
    · split <;> omega
  · have hmax : max (-2 ^ 63) (-(m : Int)) = -2 ^ 63 := by omega
    rw [hmax]
    split <;> omega

theorem readings_positive {n m : Nat} :
    (max (-2 ^ 63) (min (2 ^ 63 - 1) (m : Int)) % 2 ^ 16).toNat
      = (if 2 ^ 64 ≤ n then 2 ^ 64 - 1 else n) ↔ n < 2 ^ 16 ∧ min (2 ^ 63 - 1) m % 2 ^ 16 = n := by
  have hsame : (max (-2 ^ 63) (min (2 ^ 63 - 1) (m : Int)) % 2 ^ 16).toNat
      = min (2 ^ 63 - 1) m % 2 ^ 16 := by omega
  have hlt : min (2 ^ 63 - 1) m % 2 ^ 16 < 2 ^ 16 := Nat.mod_lt _ (by decide)
  rw [hsame]
  split <;> omega

/-- One octal digit with zeros in front. -/
theorem octal_lt_eight {digits : Str} (hdigits : ∀ c ∈ digits, Lib.digit c < 8) :
    Lib.readDigits 8 digits < 8 ↔ ∀ c ∈ digits.dropLast, c = '0' := by
  cases digits using List.reverseRecOn with
  | nil => simp [Lib.readDigits]
  | append_singleton cs c =>
    have hc : Lib.digit c < 8 := hdigits c (by simp)
    rw [List.dropLast_concat, Lib.readDigits_concat, ← Lib.readDigits_eq_zero (by decide : 0 < 8)]
    omega

theorem octal_readings {digits : Str} (hdigits : ∀ c ∈ digits, Lib.digit c < 8) :
    Lib.readDigits 8 digits < 2 ^ 16
        ∧ min (2 ^ 63 - 1) (Lib.readDigits 10 digits) % 2 ^ 16 = Lib.readDigits 8 digits
      ↔ ∀ c ∈ digits.dropLast, c = '0' := by
  rw [← octal_lt_eight hdigits]
  have hlarger (hn : Lib.readDigits 8 digits < 2 ^ 16) :
      Lib.readDigits 10 digits = Lib.respell 6 (Lib.readDigits 8 digits) :=
    Lib.readDigits_respell hdigits (by omega)
  have hclamp : ∀ n, min (2 ^ 63 - 1) (Lib.respell 6 n) = Lib.respell 6 n := fun n => by
    simp only [Lib.respell]
    omega
  constructor
  · rintro ⟨hn, hsame⟩
    rw [hlarger hn, hclamp] at hsame
    exact (Lib.respell_same hn).mp hsame
  · intro hn
    have hn' : Lib.readDigits 8 digits < 2 ^ 16 := by omega
    exact ⟨hn', by rw [hlarger hn', hclamp, Lib.respell_same hn']; exact hn⟩

theorem readAlike_numeral {word body digits : Str} {negative : Bool} {base : Nat}
    (h : Lib.Numeral word negative base body digits) : ReadAlike word ↔
      (∀ c ∈ digits, c = '0') ∨ negative = false ∧ (base = 10 ∧ Lib.readDigits 10 digits < 2 ^ 16
        ∨ base = 8 ∧ ∀ c ∈ digits.dropLast, c = '0') := by
  have hword : word ≠ [] := by
    intro hnil
    have hbody : body = [] := by
      have hsign := h.sign
      rw [hnil] at hsign
      exact (congrArg Prod.snd hsign).symm
    subst hbody
    cases h.spelling with
    | decimal => exact h.nonempty rfl
  simp only [ReadAlike, h.sign, h.skip, hword, false_or]

/-- What the command makes of an accepted word is what was compared. -/
theorem argUint16_same {word : Str} (h : (Lib.strtoul word 0).2 = []) :
    argUint16 word = (Lib.strtoul word 0).1 ↔ ReadAlike word := by
  have hrest : (Lib.strto word 0).2.2 = [] := by
    rw [strtoul_eq rfl] at h
    exact h
  obtain rfl | ⟨negative, base, body, digits, hnumeral, hauto⟩ := Lib.strto_auto hrest
  · exact iff_of_true (by decide) (.inl rfl)
  obtain ⟨rest, hten⟩ := hnumeral.strto_ten
  rw [readAlike_numeral hnumeral, argUint16_eq hten, strtoul_eq hauto]
  have hdigits := hnumeral.digits
  have hbase : base = 16 ∨ base = 8 ∨ base = 10 := by
    cases hnumeral.spelling <;> simp
  have hzero : Lib.readDigits base digits = 0 ↔ ∀ c ∈ digits, c = '0' :=
    Lib.readDigits_eq_zero (by omega)
  have hzero' : Lib.readDigits 10 digits = 0 ↔ ∀ c ∈ digits, c = '0' :=
    Lib.readDigits_eq_zero (by decide)
  by_cases hall : ∀ c ∈ digits, c = '0'
  · -- zero in any base, with or without a minus
    rw [hzero.mpr hall, hzero'.mpr hall]
    exact iff_of_true (by cases negative <;> simp) (.inl hall)
  have hne : Lib.readDigits base digits ≠ 0 := fun hn => hall (hzero.mp hn)
  simp only [hall, false_or]
  cases negative with
  | true =>
    refine iff_of_false ?_ (by simp)
    refine readings_negative hne ?_
    rcases hbase with rfl | rfl | rfl
    · exact .inr (if_pos rfl)
    · exact .inl (Lib.readDigits_mono (by decide) _)
    · exact .inl le_rfl
  | false =>
    simp only [Bool.false_eq_true, if_false, true_and]
    rcases hbase with rfl | rfl | rfl
    · refine iff_of_false ?_ (by simp)
      simp only [if_true]
      split <;> omega
    · rw [if_neg (by decide), readings_positive,
        octal_readings hdigits]
      simp
    · rw [if_neg (by decide), readings_positive]
      simp only [true_and, false_and, or_false, Nat.reduceEqDiff]
      omega

/-- The command gets the number that was found in range for the words of `ReadAlike`, and for no
    others. -/
theorem rangeMatch_readAlike (host : Host) {spec minstr maxstr word : Str}
    (hbounds : rangeBounds spec = some (minstr, maxstr)) (hint : '.' ∉ minstr ∧ '.' ∉ maxstr)
    (hmatch : rangeMatch host spec word) :
    (Lib.strtoul minstr 0).1 ≤ argUint16 word ∧ argUint16 word ≤ (Lib.strtoul maxstr 0).1
        ∧ argUint16 word = (Lib.strtoul word 0).1
      ↔ ReadAlike word := by
  have hdot : ¬('.' ∈ minstr ∨ '.' ∈ maxstr) := not_or.mpr hint
  simp only [rangeMatch, hbounds, if_neg hdot, Bool.and_eq_true, decide_eq_true_eq,
    Bool.not_eq_true', Bool.or_eq_false_iff, decide_eq_false_iff_not, not_lt] at hmatch
  obtain ⟨hrest, hlo, hhi⟩ := hmatch
  rw [← argUint16_same hrest]
  constructor
  · intro ⟨_, _, hsame⟩
    exact hsame
  · intro hsame
    exact ⟨hsame ▸ hlo, hsame ▸ hhi, hsame⟩

/-- 100 is in range, and 100 for the command. -/
theorem rangeMatch_hundred :
    rangeMatch plainHost "<1-4094>".toList "100".toList
      ∧ argUint16 "100".toList = (Lib.strtoul "100".toList 0).1 := by
  have hbounds : rangeBounds "<1-4094>".toList = some ("1".toList, "4094".toList) := by decide
  have hmatch : rangeMatch plainHost "<1-4094>".toList "100".toList := by decide
  have halike : ReadAlike "100".toList := by
    refine .inr (.inr ⟨rfl, .inl ⟨rfl, ?_⟩⟩)
    decide
  exact ⟨hmatch, ((rangeMatch_readAlike plainHost hbounds (by decide) hmatch).mpr halike).2.2⟩

/-- `0x10` is 16 and in range, and is 0 for the command. -/
theorem rangeMatch_hexadecimal :
    rangeBounds "<1-4094>".toList = some ("1".toList, "4094".toList)
      ∧ rangeMatch plainHost "<1-4094>".toList "0x10".toList
      ∧ (Lib.strtoul "0x10".toList 0).1 = 16
      ∧ argUint16 "0x10".toList = 0
      ∧ ¬((Lib.strtoul "1".toList 0).1 ≤ argUint16 "0x10".toList
        ∧ argUint16 "0x10".toList ≤ (Lib.strtoul "4094".toList 0).1
        ∧ argUint16 "0x10".toList = (Lib.strtoul "0x10".toList 0).1) := by
  decide

end SdPlane
