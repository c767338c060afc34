import Mathlib

/-!
# A loop that tests at its end

`do { … } while (again)` of C: a round turns the state into an output and the next state, and the
test looks at the next state. The loop need not come to an end, so there are two ways to speak of
it. `Rounds` are the states in which a round begins, of any loop, and what must hold of **every**
round is an invariant of them (`Rounds.invariant`). `doWhile` is what a loop that ends gives out;
it takes fuel, one unit for a round, and a measure says how much is enough
(`doWhile_of_measure`).
-/

set_option autoImplicit false

namespace Lib

variable {σ ω : Type*} (round : σ → ω × σ) (again : σ → Bool)

/-- The states in which a round begins. -/
inductive Rounds (s₀ : σ) : σ → Prop
  | first : Rounds s₀ s₀
  | next {s : σ} (begun : Rounds s₀ s) (more : again (round s).2 = true) : Rounds s₀ (round s).2

/-- The outputs of all rounds, in order; `none` when the fuel ran out first. -/
def doWhile : Nat → σ → Option (List ω)
  | 0, _ => none
  | fuel + 1, s =>
    if again (round s).2 then (doWhile fuel (round s).2).map ((round s).1 :: ·)
    else some [(round s).1]

variable {round again}

theorem Rounds.invariant {s₀ s : σ} (Inv : σ → Prop) (init : Inv s₀)
    (pres : ∀ s, Inv s → again (round s).2 = true → Inv (round s).2)
    (h : Rounds round again s₀ s) : Inv s := by
  induction h with
  | first => exact init
  | next _ more ih => exact pres _ ih more

/-- The first round is made in any case. -/
theorem doWhile_head {fuel : Nat} {s : σ} {os : List ω} (h : doWhile round again fuel s = some os) :
    ∃ rest, os = (round s).1 :: rest := by
  cases fuel with
  | zero => cases h
  | succ fuel =>
    rw [doWhile] at h
    split at h
    · obtain ⟨rest, -, rfl⟩ := Option.map_eq_some_iff.mp h
      exact ⟨rest, rfl⟩
    · exact ⟨[], (Option.some.inj h).symm⟩

/-- The rule for loops that end. `Inv` holds whenever a round begins, `P` relates a state to what
    is given out from there on, and the measure goes down from round to round. -/
theorem doWhile_of_measure (Inv : σ → Prop) (P : σ → List ω → Prop) (measure : σ → Nat)
    (last : ∀ s, Inv s → again (round s).2 = false → P s [(round s).1])
    (more : ∀ s, Inv s → again (round s).2 = true →
      Inv (round s).2 ∧ measure (round s).2 < measure s ∧
        ∀ os, P (round s).2 os → P s ((round s).1 :: os))
    (s : σ) (hs : Inv s) :
    ∃ os, P s os ∧ ∀ fuel, measure s < fuel → doWhile round again fuel s = some os := by
  generalize hm : measure s = m
  induction m using Nat.strong_induction_on generalizing s with
  | _ m ih =>
    cases ha : again (round s).2 with
    | false =>
      refine ⟨_, last s hs ha, fun fuel hfuel => ?_⟩
      obtain ⟨fuel, rfl⟩ : ∃ k, fuel = k + 1 := ⟨fuel - 1, by omega⟩
      simp [doWhile, ha]
    | true =>
      obtain ⟨hinv, hlt, hP⟩ := more s hs ha
      obtain ⟨os, hos, hrun⟩ := ih _ (hm ▸ hlt) (round s).2 hinv rfl
      refine ⟨_, hP os hos, fun fuel hfuel => ?_⟩
      obtain ⟨fuel, rfl⟩ : ∃ k, fuel = k + 1 := ⟨fuel - 1, by omega⟩
      simp [doWhile, ha, hrun fuel (by omega)]

end Lib
