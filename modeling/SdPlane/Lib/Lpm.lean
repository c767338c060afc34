import Mathlib

/-!
# Longest-prefix match

An address is a stream of bits `Nat → Bool`, a prefix is a finite bit string, and a prefix
covers an address when it is what the address starts with. `Longest S b r` is the
specification of a longest-prefix match in a set `S` of entries (a prefix with a value),
read by address `b`: `r` is `none` exactly when no entry covers `b`, and otherwise a
covering entry of the greatest length.

The facts the tries are verified with:

* `Longest.insert`: what one more entry does to the answer, when its prefix is new;
* `Longest.descend`: the answer at a node of a trie from the answer at its child;
* `Longest.unique`: the answer is determined, when no prefix occurs with two values.
-/

set_option autoImplicit false

namespace Lib

/-- The first `n` bits of a stream. -/
def takeBits (b : Nat → Bool) (n : Nat) : List Bool := (List.range n).map b

@[simp] theorem takeBits_length (b : Nat → Bool) (n : Nat) : (takeBits b n).length = n := by
  simp [takeBits]

@[simp] theorem takeBits_zero (b : Nat → Bool) : takeBits b 0 = [] := rfl

theorem takeBits_eq_iff {b c : Nat → Bool} {n : Nat} :
    takeBits b n = takeBits c n ↔ ∀ i, i < n → b i = c i := by
  simp [takeBits, List.map_inj_left]

/-- The prefix `p` is what the address `b` starts with. -/
def Covers (p : List Bool) (b : Nat → Bool) : Prop := takeBits b p.length = p

instance (p : List Bool) (b : Nat → Bool) : Decidable (Covers p b) :=
  inferInstanceAs (Decidable (takeBits b p.length = p))

theorem covers_takeBits (b : Nat → Bool) (n : Nat) : Covers (takeBits b n) b := by
  simp [Covers]

theorem covers_takeBits_iff {b c : Nat → Bool} {n : Nat} :
    Covers (takeBits c n) b ↔ ∀ i, i < n → b i = c i := by
  rw [Covers, takeBits_length, takeBits_eq_iff]

/-- Two prefixes of one address with one length are one prefix. -/
theorem Covers.eq_of_length {p q : List Bool} {b : Nat → Bool} (hp : Covers p b)
    (hq : Covers q b) (h : p.length = q.length) : p = q := by
  rw [← hp, ← hq, h]

variable {α : Type*}

/-- No prefix occurs with two values. -/
def Functional (S : Set (List Bool × α)) : Prop :=
  ∀ p a a', (p, a) ∈ S → (p, a') ∈ S → a = a'

/-- `r` is the longest-prefix match for the address `b` among the entries `S`. -/
def Longest (S : Set (List Bool × α)) (b : Nat → Bool) : Option (List Bool × α) → Prop
  | none => ∀ e ∈ S, ¬ Covers e.1 b
  | some e => e ∈ S ∧ Covers e.1 b ∧ ∀ e' ∈ S, Covers e'.1 b → e'.1.length ≤ e.1.length

theorem longest_empty (b : Nat → Bool) : Longest (∅ : Set (List Bool × α)) b none := by
  simp [Longest]

theorem takeBits_succ' (b : Nat → Bool) (n : Nat) :
    takeBits b (n + 1) = b 0 :: takeBits (fun i => b (i + 1)) n := by
  simp [takeBits, List.range_succ_eq_map]

@[simp] theorem covers_nil (b : Nat → Bool) : Covers [] b := rfl

theorem covers_cons {c : Bool} {p : List Bool} {b : Nat → Bool} :
    Covers (c :: p) b ↔ b 0 = c ∧ Covers p fun i => b (i + 1) := by
  simp [Covers, takeBits_succ']

/-- One level of a trie: the answer from the child that the first bit selects, and otherwise
    the entry at the root. `T` is what of `S` lies in that child. -/
theorem Longest.descend {S T : Set (List Bool × α)} {b : Nat → Bool}
    {r : Option (List Bool × α)} {root : Option α}
    (hT : ∀ p a, (b 0 :: p, a) ∈ S ↔ (p, a) ∈ T) (hroot : ∀ a, ([], a) ∈ S ↔ root = some a)
    (h : Longest T (fun i => b (i + 1)) r) :
    Longest S b ((r.map fun e => (b 0 :: e.1, e.2)).or (root.map fun a => ([], a))) := by
  have hchild : ∀ c p a, (c :: p, a) ∈ S → Covers (c :: p) b →
      (p, a) ∈ T ∧ Covers p fun i => b (i + 1) := by
    intro c p a hmem hcov
    obtain ⟨rfl, hrest⟩ := covers_cons.mp hcov
    exact ⟨(hT p a).mp hmem, hrest⟩
  cases r with
  | some e =>
    obtain ⟨he, hcov, hmax⟩ := h
    refine ⟨(hT e.1 e.2).mpr he, covers_cons.mpr ⟨rfl, hcov⟩, ?_⟩
    rintro ⟨_ | ⟨c, p⟩, a⟩ hmem hcov'
    · exact Nat.zero_le _
    · obtain ⟨hin, hrest⟩ := hchild c p a hmem hcov'
      exact Nat.succ_le_succ (hmax (p, a) hin hrest)
  | none =>
    have hnone : ∀ c p a, (c :: p, a) ∈ S → ¬ Covers (c :: p) b := by
      intro c p a hmem hcov
      obtain ⟨hin, hrest⟩ := hchild c p a hmem hcov
      exact h (p, a) hin hrest
    cases root with
    | none =>
      rintro ⟨_ | ⟨c, p⟩, a⟩ hmem
      · simpa using (hroot a).mp hmem
      · exact hnone c p a hmem
    | some a =>
      refine ⟨(hroot a).mpr rfl, covers_nil b, ?_⟩
      rintro ⟨_ | ⟨c, p⟩, a'⟩ hmem hcov
      · exact Nat.le_refl _
      · exact absurd hcov (hnone c p a' hmem)

/-- The answer is determined by the entries and the address. -/
theorem Longest.unique {S : Set (List Bool × α)} {b : Nat → Bool}
    {r r' : Option (List Bool × α)} (hS : Functional S) (h : Longest S b r)
    (h' : Longest S b r') : r = r' := by
  cases r with
  | none =>
    cases r' with
    | none => rfl
    | some e' => exact absurd h'.2.1 (h e' h'.1)
  | some e =>
    cases r' with
    | none => exact absurd h.2.1 (h' e h.1)
    | some e' =>
      have hlen : e.1.length = e'.1.length :=
        Nat.le_antisymm (h'.2.2 e h.1 h.2.1) (h.2.2 e' h'.1 h'.2.1)
      have hp : e.1 = e'.1 := h.2.1.eq_of_length h'.2.1 hlen
      have ha : e.2 = e'.2 := hS e.1 e.2 e'.2 h.1 (hp ▸ h'.1)
      rw [show e = e' from Prod.ext hp ha]

/-- One more entry: it is the new answer exactly when it covers the address and is longer
    than the old one. That its prefix is new rules out a tie, which no trie could break. -/
theorem Longest.insert {S : Set (List Bool × α)} {b : Nat → Bool} {r : Option (List Bool × α)}
    {p : List Bool} {a : α} (hnew : ∀ a', (p, a') ∉ S) (h : Longest S b r) :
    Longest (insert (p, a) S) b
      (if Covers p b ∧ ∀ e ∈ r, e.1.length < p.length then some (p, a) else r) := by
  by_cases hc : Covers p b
  · cases r with
    | none =>
      rw [if_pos ⟨hc, by simp⟩]
      refine ⟨Set.mem_insert _ _, hc, fun e' he' hce' => ?_⟩
      rcases Set.mem_insert_iff.mp he' with rfl | he'
      · exact Nat.le_refl _
      · exact absurd hce' (h e' he')
    | some e =>
      obtain ⟨he, hce, hmax⟩ := h
      by_cases hlt : e.1.length < p.length
      · rw [if_pos ⟨hc, by simpa using hlt⟩]
        refine ⟨Set.mem_insert _ _, hc, fun e' he' hce' => ?_⟩
        rcases Set.mem_insert_iff.mp he' with rfl | he'
        · exact Nat.le_refl _
        · exact (hmax e' he' hce').trans (Nat.le_of_lt hlt)
      · rw [if_neg (by simp [hlt])]
        have hne : p.length ≠ e.1.length := by
          intro heq
          have hpe : p = e.1 := hc.eq_of_length hce heq
          exact hnew e.2 (hpe ▸ he)
        refine ⟨Set.mem_insert_of_mem _ he, hce, fun e' he' hce' => ?_⟩
        rcases Set.mem_insert_iff.mp he' with rfl | he'
        · simp only; omega
        · exact hmax e' he' hce'
  · rw [if_neg (by simp [hc])]
    cases r with
    | none =>
      intro e' he'
      rcases Set.mem_insert_iff.mp he' with rfl | he'
      · exact hc
      · exact h e' he'
    | some e =>
      refine ⟨Set.mem_insert_of_mem _ h.1, h.2.1, fun e' he' hce' => ?_⟩
      rcases Set.mem_insert_iff.mp he' with rfl | he'
      · exact absurd hce' hc
      · exact h.2.2 e' he' hce'

end Lib
