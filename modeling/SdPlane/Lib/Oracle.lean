import Mathlib

/-!
# Computations that number their questions

A computation over a state `σ` may put yes-or-no questions to an oracle, a `Nat → Bool`: the
`j`-th question of a whole run is answered `o j`, and the state counts how many there have
been. Resources that may run out are modelled this way, memory first of all.

`Asks count f` says that `f` is such a computation: the count only goes up, and two oracles
that agree on the questions put in a run make for the same run. It is closed under
sequencing, and what it is for is `Asks.granted_iff`: whether a run is refused nothing can be
read off the run in which nothing is ever refused.
-/

set_option autoImplicit false

namespace Lib

variable {σ α β : Type*}

/-- The oracle says yes to the questions from `m` up to `m'`. -/
def Granted (o : Nat → Bool) (m m' : Nat) : Prop := ∀ j, m ≤ j → j < m' → o j = true

theorem granted_self (o : Nat → Bool) (m : Nat) : Granted o m m := fun j hj hlt => by omega

/-- A question that has been answered yes need not be looked at. -/
theorem granted_succ_iff {o : Nat → Bool} {m m' : Nat} (h : o m = true) :
    Granted o m m' ↔ Granted o (m + 1) m' := by
  constructor
  · intro hall j hj hlt
    exact hall j (by omega) hlt
  · intro hall j hj hlt
    rcases Nat.eq_or_lt_of_le hj with rfl | hj
    · exact h
    · exact hall j hj hlt

/-- `f` puts questions to the oracle, and `count` numbers them. -/
structure Asks (count : σ → Nat) (f : (Nat → Bool) → σ → α × σ) : Prop where
  grows : ∀ o s, count s ≤ count (f o s).2
  stable : ∀ o o' s, (∀ j, count s ≤ j → j < count (f o s).2 → o' j = o j) → f o' s = f o s

namespace Asks

variable {count : σ → Nat} {f : (Nat → Bool) → σ → α × σ}

/-- What asks nothing. -/
theorem silent {g : σ → α × σ} (h : ∀ s, count (g s).2 = count s) :
    Asks count fun _ s => g s where
  grows _ s := (h s).ge
  stable _ _ _ _ := rfl

theorem pure (a : α) : Asks count fun _ s => (a, s) := silent fun _ => rfl

/-- One question. -/
theorem ask {next : σ → σ} (h : ∀ s, count (next s) = count s + 1) :
    Asks count fun o s => (o (count s), next s) where
  grows _ s := (h s).ge.trans' (Nat.le_succ _)
  stable o o' s heq := by
    rw [heq (count s) le_rfl]
    exact (h s).ge.trans_lt' (Nat.lt_succ_self _)

/-- One computation after the other. -/
theorem bind {g : α → (Nat → Bool) → σ → β × σ} (hf : Asks count f)
    (hg : ∀ a, Asks count (g a)) : Asks count fun o s => g (f o s).1 o (f o s).2 where
  grows o s := (hf.grows o s).trans ((hg _).grows o _)
  stable o o' s h := by
    have hfirst : f o' s = f o s :=
      hf.stable o o' s fun j hj hlt => h j hj (hlt.trans_le ((hg _).grows o _))
    simp only [hfirst]
    exact (hg _).stable o o' _ fun j hj hlt => h j ((hf.grows o s).trans hj) hlt

/-- A result is passed on, and what is passed on depends on nothing else. -/
theorem map (hf : Asks count f) (g : α → β) : Asks count fun o s => (g (f o s).1, (f o s).2) :=
  hf.bind fun a => pure (g a)

/-- The state may change after the questions, except in their count. -/
theorem andThen (hf : Asks count f) {g : σ → σ} (h : ∀ s, count (g s) = count s) :
    Asks count fun o s => ((f o s).1, g (f o s).2) :=
  hf.bind fun a => silent (g := fun s => (a, g s)) h

theorem ite {p : Prop} [Decidable p] {g : (Nat → Bool) → σ → α × σ} (hf : Asks count f)
    (hg : Asks count g) : Asks count fun o s => if p then f o s else g o s := by
  by_cases h : p <;> simpa [h]

/-- A run in which nothing is refused is the run that knows no refusal. -/
theorem eq_of_granted (hf : Asks count f) {o : Nat → Bool} {s : σ}
    (h : Granted o (count s) (count (f (fun _ => true) s).2)) : f o s = f (fun _ => true) s :=
  hf.stable _ o s fun j hj hlt => h j hj hlt

/-- **Whether a run is refused nothing can be read off the run that knows no refusal.** -/
theorem granted_iff (hf : Asks count f) (o : Nat → Bool) (s : σ) :
    Granted o (count s) (count (f o s).2)
      ↔ Granted o (count s) (count (f (fun _ => true) s).2) := by
  constructor
  · intro h
    rwa [hf.stable o (fun _ => true) s fun j hj hlt => (h j hj hlt).symm]
  · intro h
    rwa [hf.eq_of_granted h]

end Asks

end Lib
