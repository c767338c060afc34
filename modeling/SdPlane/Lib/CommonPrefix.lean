import Mathlib

/-!
# What lists have in common at the beginning

`common` is the longest common prefix of two lists, and its fold that of many. All there is to know
about it is in `prefix_foldl_common`: a list is a prefix of it when it is one of each of them.
-/

set_option autoImplicit false

namespace Lib

variable {α : Type*} [DecidableEq α]

def common : List α → List α → List α
  | a :: l, b :: m => if a = b then a :: common l m else []
  | _, _ => []

/-- The longest common prefix. -/
def LongestCommon (ls : List (List α)) (p : List α) : Prop :=
  (∀ l ∈ ls, p <+: l) ∧ ∀ q, (∀ l ∈ ls, q <+: l) → q <+: p

variable {l m p q : List α} {ls : List (List α)}

theorem prefix_common : q <+: common l m ↔ q <+: l ∧ q <+: m := by
  induction l generalizing m q with
  | nil =>
    rw [common]
    · exact ⟨fun h => ⟨h, List.prefix_nil.mp h ▸ List.nil_prefix⟩, And.left⟩
    · simp
  | cons a l ih =>
    cases m with
    | nil =>
      rw [common]
      · exact ⟨fun h => ⟨List.prefix_nil.mp h ▸ List.nil_prefix, h⟩, And.right⟩
      · simp
    | cons b m =>
      rw [common]
      cases q with
      | nil => simp
      | cons c q =>
        by_cases hab : a = b
        · subst hab
          rw [if_pos rfl, List.cons_prefix_cons, List.cons_prefix_cons, List.cons_prefix_cons, ih]
          tauto
        · rw [if_neg hab, List.cons_prefix_cons, List.cons_prefix_cons]
          constructor
          · intro h
            simp at h
          · rintro ⟨⟨rfl, -⟩, rfl, -⟩
            exact absurd rfl hab

theorem prefix_foldl_common : q <+: ls.foldl common l ↔ q <+: l ∧ ∀ m ∈ ls, q <+: m := by
  induction ls generalizing l with
  | nil => simp
  | cons m ls ih => rw [List.foldl_cons, ih, prefix_common, List.forall_mem_cons, and_assoc]

theorem longestCommon_foldl (l : List α) (ls : List (List α)) :
    LongestCommon (l :: ls) (ls.foldl common l) := by
  constructor
  · intro m hm
    obtain ⟨hl, hls⟩ := prefix_foldl_common.mp (List.prefix_refl (ls.foldl common l))
    rcases List.mem_cons.mp hm with rfl | hm
    · exact hl
    · exact hls m hm
  · intro q hq
    exact prefix_foldl_common.mpr ⟨hq l List.mem_cons_self, fun m hm => hq m (List.mem_cons_of_mem l hm)⟩

namespace LongestCommon

omit [DecidableEq α]

theorem unique (hp : LongestCommon ls p) (hq : LongestCommon ls q) : p = q :=
  (hq.2 p hp.1).eq_of_length_le (hp.2 q hq.1).length_le

theorem singleton : LongestCommon [l] p ↔ p = l := by
  constructor
  · intro h
    exact h.unique ⟨by simp, fun q hq => hq l (List.mem_singleton_self l)⟩
  · rintro rfl
    exact ⟨by simp, fun q hq => hq p (List.mem_singleton_self p)⟩

end LongestCommon

/-- Of the beginnings of two lists. -/
theorem common_take (n : Nat) : common (l.take n) m = (common l m).take n := by
  induction l generalizing m n with
  | nil => simp [common]
  | cons a l ih =>
    cases m with
    | nil => cases n <;> simp [common]
    | cons b m =>
      cases n with
      | zero => simp [common]
      | succ n =>
        rw [List.take_succ_cons, common, common, ih]
        split <;> simp

theorem foldl_common_take (n : Nat) : ls.foldl common (l.take n) = (ls.foldl common l).take n := by
  induction ls generalizing l with
  | nil => rfl
  | cons m ls ih => rw [List.foldl_cons, common_take, ih, List.foldl_cons]

end Lib
