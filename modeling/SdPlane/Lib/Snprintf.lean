import Mathlib

/-!
# Printing into a buffer piece by piece

The idiom is

    ret = snprintf (p, end - p, ...);  p += ret;

once for every piece of a text. `snprintf` answers the length that the piece would have had,
not what it has written, so `p` may pass `end`, and then the difference, negative by now, is
taken for a `size_t`.

A buffer is addressed relative to its start; `Buf` keeps what it holds and which places have
been written. `Buf.format limit texts` prints the pieces one after the other with `limit` for
`end`, and `format_within_iff` says exactly when it stays in the buffer: when there is room,
`Room`, which looks at nothing but the lengths. With pieces of ordinary length that is to say
that all but the last fit (`room_iff`).
-/

set_option autoImplicit false

namespace Lib

/-- The largest `int`. -/
def INT_MAX : Nat := 2147483647

/-- The number of values of a `size_t`. -/
def SIZE : Int := 2 ^ 64

/-- A difference in the place of a `size_t`. -/
def sizeT (d : Int) : Nat := (d % SIZE).toNat

/-- What `snprintf` answers: the length of the text, or that it is no `int`. -/
def printed (text : List Char) : Int := if text.length ≤ INT_MAX then text.length else -1

/-- A buffer, and which of its places have been written. -/
structure Buf where
  mem : Int → Char
  touched : List Int

namespace Buf

def put (b : Buf) (i : Int) (c : Char) : Buf := ⟨Function.update b.mem i c, i :: b.touched⟩

def puts (b : Buf) (i : Int) : List Char → Buf
  | [] => b
  | c :: cs => (b.put i c).puts (i + 1) cs

/-- What `snprintf (p, size, ...)` writes: as much of the text as `size` has room for next to
    the terminator. -/
def snprintf (b : Buf) (p : Int) (size : Nat) (text : List Char) : Buf :=
  if size = 0 then b else b.puts p (text.take (size - 1) ++ ['\x00'])

/-- The pieces of a text, from `p` on. -/
def format (limit : Int) : Buf → Int → List (List Char) → Buf
  | b, _, [] => b
  | b, p, text :: texts =>
    format limit (b.snprintf p (sizeT (limit - p)) text) (p + printed text) texts

/-- Everything written lies below `size`. -/
def Within (b : Buf) (size : Int) : Prop := ∀ i ∈ b.touched, 0 ≤ i ∧ i < size

/-- There is a string in the first `size` places. -/
def Terminated (b : Buf) (size : Int) : Prop := ∃ i, 0 ≤ i ∧ i < size ∧ b.mem i = '\x00'

end Buf

/-- The pieces find room below `limit`: none starts past it. -/
def Room (limit : Int) : Int → List (List Char) → Prop
  | _, [] => True
  | p, text :: texts => (0 ≤ p ∧ p ≤ limit) ∧ Room limit (p + printed text) texts

instance Room.decidable (limit : Int) :
    ∀ (p : Int) (texts : List (List Char)), Decidable (Room limit p texts)
  | _, [] => inferInstanceAs (Decidable True)
  | p, text :: texts =>
    have := Room.decidable limit (p + printed text) texts
    inferInstanceAs (Decidable ((0 ≤ p ∧ p ≤ limit) ∧ _))

/-! ## Conversions -/

/-- `%d` -/
def fmtD (x : Int) : List Char :=
  let x := Int.bmod x (2 ^ 32)
  if x < 0 then '-' :: Nat.toDigits 10 x.natAbs else Nat.toDigits 10 x.natAbs

/-- `%u` -/
def fmtU (x : Nat) : List Char := Nat.toDigits 10 (x % 2 ^ 32)

/-- `%#hhx`; zero gets no `0x`. -/
def fmtHhx (x : UInt8) : List Char :=
  if x = 0 then ['0'] else '0' :: 'x' :: Nat.toDigits 16 x.toNat

theorem length_toDigits_le {b n k : Nat} (hb : 1 < b) (hk : 0 < k) (h : n < b ^ k) :
    (Nat.toDigits b n).length ≤ k := (Nat.length_toDigits_le_iff hb hk).mpr h

theorem length_fmtD_le (x : Int) : (fmtD x).length ≤ 11 := by
  have hlow : -(2 ^ 32 / 2) ≤ Int.bmod x (2 ^ 32) := Int.le_bmod (by decide)
  have hhigh : Int.bmod x (2 ^ 32) < (2 ^ 32 + 1) / 2 := Int.bmod_lt (by decide)
  have hlen := length_toDigits_le (b := 10) (k := 10) (n := (Int.bmod x (2 ^ 32)).natAbs)
    (by decide) (by decide) (by omega)
  unfold fmtD
  dsimp only
  split
  · rw [List.length_cons]
    omega
  · omega

theorem length_fmtU_le (x : Nat) : (fmtU x).length ≤ 10 :=
  length_toDigits_le (by decide) (by decide) (Nat.lt_trans (Nat.mod_lt x (by decide)) (by decide))

theorem length_fmtHhx_le (x : UInt8) : (fmtHhx x).length ≤ 4 := by
  unfold fmtHhx
  split
  · decide
  · have hlen := length_toDigits_le (b := 16) (k := 2) (n := x.toNat) (by decide) (by decide)
      (UInt8.toNat_lt x)
    rw [List.length_cons, List.length_cons]
    omega

/-! ## One piece -/

theorem printed_le (text : List Char) : printed text ≤ INT_MAX := by
  unfold printed
  split <;> omega

theorem printed_ge (text : List Char) : -1 ≤ printed text := by
  unfold printed
  split <;> omega

theorem printed_of_le {text : List Char} (h : text.length ≤ INT_MAX) :
    printed text = text.length := if_pos h

theorem sizeT_of_le {limit p : Int} (hp : p ≤ limit) (h : limit - p < SIZE) :
    (sizeT (limit - p) : Int) = limit - p := by
  unfold sizeT
  rw [Int.emod_eq_of_lt (by omega) h]
  omega

namespace Buf

theorem mem_touched_puts (cs : List Char) : ∀ (b : Buf) (i j : Int),
    j ∈ (b.puts i cs).touched ↔ j ∈ b.touched ∨ (i ≤ j ∧ j < i + cs.length) := by
  induction cs with
  | nil =>
    intro b i j
    have hnone : ¬ (i ≤ j ∧ j < i + (0 : Nat)) := by omega
    exact (or_iff_left hnone).symm
  | cons c cs ih =>
    intro b i j
    have hspan : (i ≤ j ∧ j < i + (cs.length + 1 : Nat))
        ↔ j = i ∨ (i + 1 ≤ j ∧ j < i + 1 + cs.length) := by omega
    rw [puts, ih, put, List.mem_cons, List.length_cons, hspan]
    tauto

/-- The last character written is there. -/
theorem mem_puts_last (cs : List Char) (c : Char) : ∀ (b : Buf) (i : Int),
    (b.puts i (cs ++ [c])).mem (i + cs.length) = c := by
  induction cs with
  | nil => intro b i; simp [puts, put]
  | cons c' cs ih =>
    intro b i
    have hplace : i + (c' :: cs).length = i + 1 + cs.length := by
      rw [List.length_cons]
      omega
    rw [hplace]
    exact ih _ _

theorem mem_touched_snprintf {b : Buf} {p j : Int} {size : Nat} {text : List Char} :
    j ∈ (b.snprintf p size text).touched
      ↔ j ∈ b.touched ∨ (p ≤ j ∧ j < p + min (text.length + 1) size) := by
  unfold snprintf
  split
  · next hzero =>
    refine (or_iff_left ?_).symm
    omega
  · next hpos =>
    have hcut : min (size - 1) text.length + 1 = min (text.length + 1) size := by omega
    rw [mem_touched_puts, List.length_append, List.length_take, List.length_singleton, hcut]

/-- Where there is room for anything at all, there is a terminator afterwards. -/
theorem terminated_snprintf {b : Buf} {p limit : Int} (text : List Char) (hp : 0 ≤ p)
    (hlt : p < limit) (hsize : limit < SIZE) :
    (b.snprintf p (sizeT (limit - p)) text).Terminated limit := by
  have hroom := sizeT_of_le hlt.le (by omega : limit - p < SIZE)
  unfold snprintf
  rw [if_neg (by omega)]
  refine ⟨p + (text.take (sizeT (limit - p) - 1)).length, by omega, ?_, mem_puts_last _ _ _ _⟩
  rw [List.length_take]
  omega

/-- At the limit itself nothing is written. -/
theorem snprintf_limit (b : Buf) (limit : Int) (text : List Char) :
    b.snprintf limit (sizeT (limit - limit)) text = b := by
  simp [snprintf, sizeT]

/-! ## All the pieces -/

theorem touched_format (limit : Int) (texts : List (List Char)) : ∀ {b : Buf} (p : Int) {i : Int},
    i ∈ b.touched → i ∈ (format limit b p texts).touched := by
  induction texts with
  | nil => intro b p i h; exact h
  | cons text texts ih =>
    intro b p i h
    exact ih _ (mem_touched_snprintf.mpr (.inl h))

/-- **When printing stays in the buffer.** `size` may be the limit, or one more. Only a text
    that is no `int` can take `p` back below the start, hence the last hypothesis. -/
theorem format_within_iff {limit size : Int} (hle : limit ≤ size) (hsize : size ≤ limit + 1)
    (hlimit : 0 ≤ limit) (hmax : limit < SIZE) (texts : List (List Char))
    (hback : limit + 1 < SIZE ∨ ∀ text ∈ texts, text.length ≤ INT_MAX) :
    ∀ (b : Buf) (p : Int), b.Within size → p ≤ limit + INT_MAX →
    (0 ≤ p ∨ (p = -1 ∧ limit + 1 < SIZE)) →
    ((format limit b p texts).Within size ↔ Room limit p texts) := by
  induction texts with
  | nil => intro b p hb _ _; exact iff_of_true hb trivial
  | cons text texts ih =>
    intro b p hb hp hp'
    rw [format, Room]
    by_cases hroom : 0 ≤ p ∧ p ≤ limit
    · have hint := sizeT_of_le hroom.2 (by omega : limit - p < SIZE)
      have hwithin : (b.snprintf p (sizeT (limit - p)) text).Within size := by
        intro j hj
        rcases mem_touched_snprintf.mp hj with hj | hj
        · exact hb j hj
        · omega
      have hle := printed_le text
      have hge := printed_ge text
      rw [ih (hback.imp_right fun h t ht => h t (List.mem_cons_of_mem _ ht)) _ _ hwithin
        (by omega) ?_]
      · simp [hroom]
      · rcases hback with hback | hshort
        · omega
        · have hlen := printed_of_le (hshort text List.mem_cons_self)
          omega
    · -- the first piece that starts outside writes its terminator there, if nothing else
      refine iff_of_false (fun h => hroom ?_) fun h => hroom h.1
      have hint : INT_MAX < SIZE := by decide
      have hpos : 0 < sizeT (limit - p) := by
        unfold sizeT
        rcases hp' with hp' | ⟨rfl, hback⟩
        · rw [← Int.add_emod_right (limit - p) SIZE, Int.emod_eq_of_lt (by omega) (by omega)]
          omega
        · rw [Int.emod_eq_of_lt (by omega) (by omega)]
          omega
      have hwritten := h p (touched_format limit texts _ (mem_touched_snprintf.mpr (.inr (by omega))))
      omega

/-- There is a terminator at the end when there was one or is room for one. -/
theorem format_terminated {limit : Int} (hmax : limit < SIZE) (texts : List (List Char)) :
    ∀ (b : Buf) (p : Int), Room limit p texts → (b.Terminated limit ∨ (p < limit ∧ texts ≠ [])) →
    (format limit b p texts).Terminated limit := by
  induction texts with
  | nil => intro b p _ h; exact h.resolve_right fun h => h.2 rfl
  | cons text texts ih =>
    intro b p hroom h
    refine ih _ _ hroom.2 (.inl ?_)
    rcases lt_or_eq_of_le hroom.1.2 with hlt | rfl
    · exact terminated_snprintf text hroom.1.1 hlt hmax
    · rw [snprintf_limit]
      exact h.resolve_right fun h => absurd h.1 (lt_irrefl _)

end Buf

/-- With pieces of ordinary length there is room when all but the last fit. -/
theorem room_iff {limit : Int} {texts : List (List Char)} (hne : texts ≠ [])
    (hshort : ∀ text ∈ texts, text.length ≤ INT_MAX) : ∀ {p : Int}, 0 ≤ p →
    (Room limit p texts ↔ p + (texts.dropLast.map List.length).sum ≤ limit) := by
  induction texts with
  | nil => exact absurd rfl hne
  | cons text texts ih =>
    intro p hp
    rw [Room, printed_of_le (hshort text List.mem_cons_self)]
    cases texts with
    | nil => simp [Room, hp]
    | cons text' texts =>
      rw [ih (by simp) (fun t ht => hshort t (List.mem_cons_of_mem _ ht)) (by omega)]
      rw [List.dropLast_cons_cons, List.map_cons, List.sum_cons]
      omega

end Lib
