import Mathlib

/-!
# The first occurrence of a text

`strstr` finds the first place of a text where another text comes. The place is known by all that
lies there, up to the end, as a pointer into a C string is.

A text without delimiters that is looked for in words with delimiters in between only comes inside a
word: the search goes past the words that it is not in (`strstr_skip`), and stops in the first that
it is in (`strstr_inside`).
-/

set_option autoImplicit false

namespace Lib

variable {α : Type*} [DecidableEq α]

/-- The text from the first place on where `needle` comes. -/
def strstr (needle : List α) : List α → Option (List α)
  | [] => if needle = [] then some [] else none
  | a :: l => if needle.isPrefixOf (a :: l) then some (a :: l) else strstr needle l

variable {needle word l : List α} {a : α}

theorem strstr_here (h : needle <+: l) : strstr needle l = some l := by
  cases l with
  | nil => exact if_pos (List.prefix_nil.mp h)
  | cons a l => exact if_pos (List.isPrefixOf_iff_prefix.mpr h)

theorem strstr_cons (h : ¬ needle <+: a :: l) : strstr needle (a :: l) = strstr needle l :=
  if_neg fun hpre => h (List.isPrefixOf_iff_prefix.mp hpre)

/-- What comes before the beginning of a word is passed. -/
theorem strstr_dropWhile (delim : α → Bool) (hne : needle ≠ []) (hword : ∀ b ∈ needle, delim b = false) :
    strstr needle (l.dropWhile delim) = strstr needle l := by
  induction l with
  | nil => rfl
  | cons a l ih =>
    cases hdelim : delim a with
    | false => rw [List.dropWhile_cons_of_neg (by simpa using hdelim)]
    | true =>
      have hnot : ¬ needle <+: a :: l := by
        intro hpre
        cases needle with
        | nil => exact hne rfl
        | cons b needle =>
          obtain ⟨rfl, -⟩ := List.cons_prefix_cons.mp hpre
          simp [hword b List.mem_cons_self] at hdelim
      rw [List.dropWhile_cons_of_pos hdelim, ih, strstr_cons hnot]

omit [DecidableEq α] in
/-- A text that begins in a word, and has no delimiter, ends in it. -/
theorem prefix_word {delim : α → Bool} (hneedle : ∀ b ∈ needle, delim b = false)
    (hl : ∀ b ∈ l.head?, delim b = true) (h : needle <+: word ++ l) : needle <+: word := by
  rcases List.prefix_or_prefix_of_prefix h (List.prefix_append word l) with hpre | ⟨rest, rfl⟩
  · exact hpre
  · have hrest : rest <+: l := (List.prefix_append_right_inj word).mp h
    cases rest with
    | nil => simp
    | cons b rest =>
      cases l with
      | nil => exact absurd hrest (by simp)
      | cons c l =>
        obtain ⟨rfl, -⟩ := List.cons_prefix_cons.mp hrest
        have hno := hneedle b (by simp)
        have hyes := hl b rfl
        simp [hno] at hyes

theorem strstr_skip {delim : α → Bool} (hneedle : ∀ b ∈ needle, delim b = false)
    (hl : ∀ b ∈ l.head?, delim b = true) (h : ¬ needle <:+: word) :
    strstr needle (word ++ l) = strstr needle l := by
  induction word with
  | nil => rfl
  | cons a word ih =>
    have hnot : ¬ needle <+: a :: (word ++ l) := by
      intro hpre
      have hword : needle <+: a :: word := prefix_word hneedle hl hpre
      exact h hword.isInfix
    rw [List.cons_append, strstr_cons hnot]
    exact ih fun hin => h (hin.trans (List.suffix_cons a word).isInfix)

theorem strstr_inside (h : needle <:+: word) : ∃ found,
    strstr needle (word ++ l) = some found ∧ needle.length + l.length ≤ found.length := by
  have hle := h.length_le
  induction word with
  | nil =>
    obtain rfl := List.infix_nil.mp h
    exact ⟨l, strstr_here List.nil_prefix, by simp⟩
  | cons a word ih =>
    by_cases hhere : needle <+: a :: (word ++ l)
    · refine ⟨_, strstr_here hhere, ?_⟩
      simp only [List.length_cons, List.length_append] at hle ⊢
      omega
    · have hin : needle <:+: word := by
        rcases List.infix_cons_iff.mp h with hpre | hin
        · exact absurd (hpre.trans (List.prefix_append (a :: word) l)) hhere
        · exact hin
      rw [List.cons_append, strstr_cons hhere]
      exact ih hin hin.length_le

end Lib
