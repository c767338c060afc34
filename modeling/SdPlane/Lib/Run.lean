import Mathlib

/-!
# Runs of a step relation

A component that takes one message after another is a relation `step s m t`: in state `s`
it takes the message `m` and is in state `t` afterwards. A step that faults relates to no
`t`, so a run simply ends there.

Three kinds of statement are made about runs, and each has one rule here:

* `Run.invariant`: what holds at the start and survives every step holds in every state
  reached;
* `throughout_iff`: when, from a state where `P` holds, a step leads to `P` **exactly**
  when the guard `G` holds of the state and the message, then a run keeps `P` throughout
  exactly when every one of its steps meets `G`. `throughout_of_stepwise` is the half
  of it that needs only that `G` is enough;
* `run_of_guarded`: when `G` is enough for a step to be possible, a run whose messages meet
  `G` gets to its end.

Everything is over arbitrary states and messages.
-/

set_option autoImplicit false

namespace Lib

variable {σ μ : Type*}

/-- `Run step s₀ ms s`: from `s₀`, taking the messages `ms` in order ends in `s`. The last
    message is peeled off first, since invariants talk about the state reached so far. -/
inductive Run (step : σ → μ → σ → Prop) (s₀ : σ) : List μ → σ → Prop
  | nil : Run step s₀ [] s₀
  | snoc {ms : List μ} {s t : σ} {m : μ} (run : Run step s₀ ms s) (last : step s m t) :
      Run step s₀ (ms ++ [m]) t

namespace Run

variable {step : σ → μ → σ → Prop} {s₀ : σ}

/-- The inductive-invariant rule. -/
theorem invariant (Inv : σ → Prop) (init : Inv s₀)
    (pres : ∀ s m t, Inv s → step s m t → Inv t) {ms : List μ} {s : σ}
    (h : Run step s₀ ms s) : Inv s := by
  induction h with
  | nil => exact init
  | snoc _ last ih => exact pres _ _ _ ih last

theorem append {ms ms' : List μ} {s t : σ} (h : Run step s₀ ms s) (h' : Run step s ms' t) :
    Run step s₀ (ms ++ ms') t := by
  induction h' with
  | nil => rwa [List.append_nil]
  | snoc _ last ih =>
    rw [← List.append_assoc]
    exact ih.snoc last

/-- The last step of a run that ends with `m`. -/
theorem snoc_inv {ms : List μ} {m : μ} {t : σ} (h : Run step s₀ (ms ++ [m]) t) :
    ∃ s, Run step s₀ ms s ∧ step s m t := by
  generalize hl : ms ++ [m] = l at h
  cases h with
  | nil => simp at hl
  | snoc run last =>
    obtain ⟨rfl, hm⟩ := List.append_inj' hl rfl
    obtain rfl : m = _ := by simpa using hm
    exact ⟨_, run, last⟩

theorem nil_inv {s : σ} (h : Run step s₀ [] s) : s = s₀ := by
  generalize hl : ([] : List μ) = l at h
  cases h with
  | nil => rfl
  | snoc _ _ => simp at hl

/-- The first step of a run that starts with `m`. -/
theorem cons_inv {ms : List μ} {m : μ} {t : σ} (h : Run step s₀ (m :: ms) t) :
    ∃ s, step s₀ m s ∧ Run step s ms t := by
  induction ms using List.reverseRecOn generalizing t with
  | nil =>
    replace h : Run step s₀ ([] ++ [m]) t := h
    obtain ⟨s, hs, last⟩ := h.snoc_inv
    obtain rfl := hs.nil_inv
    exact ⟨t, last, .nil⟩
  | append_singleton ms m' ih =>
    rw [← List.cons_append] at h
    obtain ⟨u, hu, last⟩ := h.snoc_inv
    obtain ⟨s, hs, hrun⟩ := ih hu
    exact ⟨s, hs, hrun.snoc last⟩

/-- Where every step has one outcome, so has every run. -/
theorem unique (det : ∀ s m t t', step s m t → step s m t' → t = t') {ms : List μ}
    {s t : σ} (hs : Run step s₀ ms s) (ht : Run step s₀ ms t) : s = t := by
  induction hs generalizing t with
  | nil => exact ht.nil_inv.symm
  | snoc _ last ih =>
    obtain ⟨u, hu, hlast⟩ := ht.snoc_inv
    obtain rfl := ih hu
    exact det _ _ _ _ last hlast

end Run

/-- `P` holds in the first state and in every state the run `ms` passes through. -/
def Throughout (step : σ → μ → σ → Prop) (s₀ : σ) (P : σ → Prop) (ms : List μ) : Prop :=
  ∀ pre s, pre <+: ms → Run step s₀ pre s → P s

/-- Every completed step of the run `ms` is taken from a state and with a message that
    meet `G`. -/
def Stepwise (step : σ → μ → σ → Prop) (s₀ : σ) (G : σ → μ → Prop) (ms : List μ) : Prop :=
  ∀ pre m s t, (pre ++ [m]) <+: ms → Run step s₀ pre s → step s m t → G s m

section Steps

variable {step : σ → μ → σ → Prop} {s₀ : σ} {G : σ → μ → Prop}

/-- The run goes on from wherever its first step leads to. -/
theorem stepwise_cons {ms : List μ} {m : μ} (first : G s₀ m)
    (rest : ∀ t, step s₀ m t → Stepwise step t G ms) : Stepwise step s₀ G (m :: ms) := by
  intro pre m' s t hpre hrun hstep
  cases pre with
  | nil =>
    obtain rfl := hrun.nil_inv
    obtain ⟨rfl, -⟩ := List.cons_prefix_cons.mp hpre
    exact first
  | cons m₀ pre =>
    obtain ⟨rfl, hrest⟩ := List.cons_prefix_cons.mp hpre
    obtain ⟨u, hu, hrun⟩ := hrun.cons_inv
    exact rest u hu pre m' s t hrest hrun hstep

/-- Nothing is taken by the empty run. -/
theorem stepwise_nil : Stepwise step s₀ G [] := by
  intro pre m s t hpre
  exact absurd (List.prefix_nil.mp hpre) (by simp)

theorem Stepwise.snoc {ms : List μ} {m : μ} (h : Stepwise step s₀ G ms)
    (last : ∀ s t, Run step s₀ ms s → step s m t → G s m) : Stepwise step s₀ G (ms ++ [m]) := by
  intro pre m' s t hpre hrun hstep
  rcases List.prefix_concat_iff.mp hpre with heq | hpre
  · obtain ⟨rfl, hm⟩ := List.append_inj' heq rfl
    obtain rfl : m' = m := by simpa using hm
    exact last s t hrun hstep
  · exact h pre m' s t hpre hrun hstep

end Steps

section Guarded

variable {step : σ → μ → σ → Prop} {s₀ : σ} {P : σ → Prop} {G : σ → μ → Prop}

/-- Guarded runs keep `P`, with an invariant `Inv` that every step keeps as support. -/
theorem throughout_of_stepwise (Inv : σ → Prop) (init : Inv s₀) (pres : ∀ s m t, Inv s → step s m t → Inv t)
    (start : P s₀) (guard : ∀ s m t, Inv s → P s → step s m t → G s m → P t)
    {ms : List μ} (h : Stepwise step s₀ G ms) : Throughout step s₀ P ms := by
  intro pre s hpre hrun
  induction hrun with
  | nil => exact start
  | snoc run last ih =>
    have hle := (List.prefix_append _ _).trans hpre
    exact guard _ _ _ (run.invariant Inv init pres) (ih hle) last (h _ _ _ _ hpre run last)

/-- **A run keeps `P` exactly when each of its steps meets the guard.** -/
theorem throughout_iff (Inv : σ → Prop) (init : Inv s₀) (pres : ∀ s m t, Inv s → step s m t → Inv t)
    (start : P s₀) (guard : ∀ s m t, Inv s → P s → step s m t → (P t ↔ G s m))
    {ms : List μ} : Throughout step s₀ P ms ↔ Stepwise step s₀ G ms := by
  constructor
  · intro h pre m s t hpre hrun hstep
    have hle := (List.prefix_append pre [m]).trans hpre
    exact (guard _ _ _ (hrun.invariant Inv init pres) (h pre s hle hrun) hstep).mp
      (h _ t hpre (.snoc hrun hstep))
  · intro h
    exact throughout_of_stepwise Inv init pres start
      (fun s m t hi hp hs hg => (guard s m t hi hp hs).mpr hg) h

end Guarded

section Progress

variable {step : σ → μ → σ → Prop} {s₀ : σ} {G : σ → μ → Prop}

/-- Every message that the run `ms` gets to meets `G`, whether or not it can be taken. -/
def Guarded (step : σ → μ → σ → Prop) (s₀ : σ) (G : σ → μ → Prop) (ms : List μ) : Prop :=
  ∀ pre m s, (pre ++ [m]) <+: ms → Run step s₀ pre s → G s m

theorem guarded_nil : Guarded step s₀ G [] := by
  intro pre m s hpre
  exact absurd (List.prefix_nil.mp hpre) (by simp)

theorem Guarded.snoc {ms : List μ} {m : μ} (h : Guarded step s₀ G ms)
    (last : ∀ s, Run step s₀ ms s → G s m) : Guarded step s₀ G (ms ++ [m]) := by
  intro pre m' s hpre hrun
  rcases List.prefix_concat_iff.mp hpre with heq | hpre
  · obtain ⟨rfl, hm⟩ := List.append_inj' heq rfl
    obtain rfl : m' = m := by simpa using hm
    exact last s hrun
  · exact h pre m' s hpre hrun

/-- **A run is never stuck** when from a state with the invariant every message that meets the
    guard can be taken, and leads to such a state again. -/
theorem run_of_guarded (Inv : σ → Prop) (init : Inv s₀)
    (pres : ∀ s m t, Inv s → G s m → step s m t → Inv t)
    (progress : ∀ s m, Inv s → G s m → ∃ t, step s m t) {ms : List μ}
    (h : Guarded step s₀ G ms) : ∃ t, Run step s₀ ms t ∧ Inv t := by
  induction ms using List.reverseRecOn with
  | nil => exact ⟨s₀, .nil, init⟩
  | append_singleton ms m ih =>
    obtain ⟨s, hrun, hs⟩ := ih fun pre m' s hpre => h pre m' s (hpre.trans (List.prefix_append _ _))
    have hm := h ms m s List.prefix_rfl hrun
    obtain ⟨t, ht⟩ := progress s m hs hm
    exact ⟨t, hrun.snoc ht, pres s m t hs hm ht⟩

end Progress

end Lib
