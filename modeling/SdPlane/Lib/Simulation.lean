import Mathlib

/-!
# Machines that may crash, and what they are for

A machine takes one operation after the other; each gives out something, or ends it. What it is
for is said by another one, the specification, that never crashes. `Simulates` is that the machine
does as it should over a whole sequence of operations: after each of them it has given out what it
should have, and its state stands for that of the specification.

`simulates_iff` is the rule. The invariant `R` makes a guarded operation go right and is kept by it,
and an operation that goes right has met its guard; then a sequence of operations goes right exactly
when each of them meets the guard in the state that it comes to. The operations that come into
question at all may be cut down by `AllAllowed`, which looks at the specification only.
-/

set_option autoImplicit false

namespace Lib

variable {σ α μ ω ε : Type*}

/-- One operation after the other, with what they give out. -/
def runOps (step : σ → μ → Except ε (σ × ω)) (s : σ) : List μ → Except ε (σ × List ω)
  | [] => .ok (s, [])
  | m :: ms =>
    match step s m with
    | .error e => .error e
    | .ok (t, o) =>
      match runOps step t ms with
      | .error e => .error e
      | .ok (u, os) => .ok (u, o :: os)

/-- The same for a specification. -/
def specOps (spec : α → μ → α × ω) (a : α) : List μ → α × List ω
  | [] => (a, [])
  | m :: ms =>
    let (b, o) := spec a m
    let (c, os) := specOps spec b ms
    (c, o :: os)

variable {step : σ → μ → Except ε (σ × ω)} {spec : α → μ → α × ω}

theorem specOps_concat (a : α) (ms : List μ) (m : μ) : specOps spec a (ms ++ [m])
    = ((spec (specOps spec a ms).1 m).1, (specOps spec a ms).2 ++ [(spec (specOps spec a ms).1 m).2]) := by
  induction ms generalizing a with
  | nil => rfl
  | cons m' ms ih => simp [specOps, ih]

theorem runOps_concat {s t : σ} {ms : List μ} {os : List ω} (h : runOps step s ms = .ok (t, os))
    (m : μ) : runOps step s (ms ++ [m]) = match step t m with
      | .error e => .error e
      | .ok (u, o) => .ok (u, os ++ [o]) := by
  induction ms generalizing s os with
  | nil =>
    simp only [runOps, Except.ok.injEq, Prod.mk.injEq] at h
    obtain ⟨rfl, rfl⟩ := h
    simp only [List.nil_append, runOps]
  | cons m' ms ih =>
    simp only [runOps] at h
    cases hm : step s m' with
    | error e => simp [hm] at h
    | ok r =>
      simp only [hm] at h
      cases hr : runOps step r.1 ms with
      | error e => simp [hr] at h
      | ok r' =>
        simp only [hr, Except.ok.injEq, Prod.mk.injEq] at h
        obtain ⟨rfl, rfl⟩ := h
        simp only [List.cons_append, runOps, hm, ih hr]
        cases step r'.1 m <;> rfl

section Rule

variable (step spec) (P : σ → α → Prop) (Allowed : α → μ → Prop) (G : σ → α → μ → Prop)

/-- After every operation the machine has given out what it should have, and `P` holds of the
    states. -/
def Simulates (s₀ : σ) (a₀ : α) (ms : List μ) : Prop :=
  ∀ pre, pre <+: ms → ∃ s, runOps step s₀ pre = .ok (s, (specOps spec a₀ pre).2)
    ∧ P s (specOps spec a₀ pre).1

/-- Every operation is allowed where it comes. -/
def AllAllowed (a₀ : α) (ms : List μ) : Prop :=
  ∀ pre m, (pre ++ [m]) <+: ms → Allowed (specOps spec a₀ pre).1 m

/-- Every operation that the machine gets to meets the guard. -/
def AllGuarded (s₀ : σ) (a₀ : α) (ms : List μ) : Prop :=
  ∀ pre m s os, (pre ++ [m]) <+: ms → runOps step s₀ pre = .ok (s, os) →
    G s (specOps spec a₀ pre).1 m

variable {step spec P Allowed G}

theorem allAllowed_true (a₀ : α) (ms : List μ) : AllAllowed spec (fun _ _ => True) a₀ ms :=
  fun _ _ _ => trivial

theorem allAllowed_nil (a₀ : α) : AllAllowed spec Allowed a₀ [] := by
  intro pre m hpre
  exact absurd (List.prefix_nil.mp hpre) (by simp)

/-- One operation at a time. -/
theorem allAllowed_cons {a₀ : α} {m : μ} {ms : List μ} : AllAllowed spec Allowed a₀ (m :: ms)
    ↔ Allowed a₀ m ∧ AllAllowed spec Allowed (spec a₀ m).1 ms := by
  constructor
  · intro h
    refine ⟨h [] m (by simp), fun pre m' hpre => ?_⟩
    exact h (m :: pre) m' (List.cons_prefix_cons.mpr ⟨rfl, hpre⟩)
  · rintro ⟨hm, h⟩ pre m' hpre
    cases pre with
    | nil =>
      obtain ⟨rfl, -⟩ := List.cons_prefix_cons.mp hpre
      exact hm
    | cons m₁ pre =>
      obtain ⟨rfl, hrest⟩ := List.cons_prefix_cons.mp hpre
      exact h pre m' hrest

instance decidableAllAllowed [∀ a m, Decidable (Allowed a m)] :
    ∀ (a₀ : α) (ms : List μ), Decidable (AllAllowed spec Allowed a₀ ms)
  | a₀, [] => .isTrue (allAllowed_nil a₀)
  | a₀, m :: ms =>
    have := decidableAllAllowed (spec a₀ m).1 ms
    decidable_of_iff _ allAllowed_cons.symm

/-- Where it does not matter how far the specification has got. -/
theorem allAllowed_const {H : μ → Prop} {a₀ : α} {ms : List μ} :
    AllAllowed spec (fun _ => H) a₀ ms ↔ ∀ m, m ∈ ms → H m := by
  induction ms generalizing a₀ with
  | nil => simp [allAllowed_nil]
  | cons m ms ih => simp [allAllowed_cons, ih]

theorem AllAllowed.allGuarded {H : α → μ → Prop} {s₀ : σ} {a₀ : α} {ms : List μ}
    (h : AllAllowed spec H a₀ ms) : AllGuarded step spec (fun _ => H) s₀ a₀ ms :=
  fun pre m _ _ hpre _ => h pre m hpre

variable (R : σ → α → Prop)
  (good : ∀ s a m, R s a → Allowed a m → G s a m →
    ∃ t, step s m = .ok (t, (spec a m).2) ∧ R t (spec a m).1)
  {s₀ : σ} {a₀ : α} (init : R s₀ a₀) {ms : List μ} (hallowed : AllAllowed spec Allowed a₀ ms)

include good init hallowed in
/-- The invariant `R` is kept as long as the operations meet the guard. -/
theorem simulates_of_guarded (h : AllGuarded step spec G s₀ a₀ ms) :
    Simulates step spec R s₀ a₀ ms := by
  intro pre
  induction pre using List.reverseRecOn with
  | nil => exact fun _ => ⟨s₀, rfl, init⟩
  | append_singleton pre m ih =>
    intro hpre
    obtain ⟨s, hrun, hs⟩ := ih ((List.prefix_append _ _).trans hpre)
    obtain ⟨t, ht, hR⟩ := good s _ m hs (hallowed pre m hpre) (h pre m s _ hpre hrun)
    refine ⟨t, ?_, ?_⟩
    · rw [runOps_concat hrun, ht, specOps_concat]
    · rw [specOps_concat]
      exact hR

variable (sound : ∀ s a, R s a → P s a)
  (bad : ∀ s a m, R s a → Allowed a m →
    (∃ t, step s m = .ok (t, (spec a m).2) ∧ P t (spec a m).1) → G s a m)

theorem Simulates.mono {Q : σ → α → Prop} (h : Simulates step spec P s₀ a₀ ms)
    (himp : ∀ s a, P s a → Q s a) : Simulates step spec Q s₀ a₀ ms := by
  intro pre hpre
  obtain ⟨s, hrun, hs⟩ := h pre hpre
  exact ⟨s, hrun, himp _ _ hs⟩

/-- What a sequence that goes right says of its last operation. -/
theorem Simulates.last {pre : List μ} {m : μ} (h : Simulates step spec P s₀ a₀ (pre ++ [m]))
    {s : σ} {os : List ω} (hrun : runOps step s₀ pre = .ok (s, os)) :
    ∃ t, step s m = .ok (t, (spec (specOps spec a₀ pre).1 m).2)
      ∧ P t (spec (specOps spec a₀ pre).1 m).1 := by
  obtain ⟨s', hrun', -⟩ := h pre (List.prefix_append _ _)
  obtain ⟨t, ht, hP⟩ := h _ List.prefix_rfl
  rw [hrun] at hrun'
  obtain ⟨rfl, rfl⟩ := Prod.mk.inj (Except.ok.inj hrun')
  rw [runOps_concat hrun, specOps_concat] at ht
  rw [specOps_concat] at hP
  cases hm : step s m with
  | error e => simp [hm] at ht
  | ok r =>
    simp only [hm, Except.ok.injEq, Prod.mk.injEq, List.append_cancel_left_eq,
      List.cons.injEq, and_true] at ht
    exact ⟨t, by rw [← ht.1, ← ht.2], hP⟩

include good init hallowed sound bad in
/-- **A sequence goes right exactly when each operation meets the guard.** -/
theorem simulates_iff : Simulates step spec P s₀ a₀ ms ↔ AllGuarded step spec G s₀ a₀ ms := by
  constructor
  · intro h
    -- the invariant, up to any operation, and the guard of the next one
    have hinv : ∀ pre, pre <+: ms → ∃ s, runOps step s₀ pre = .ok (s, (specOps spec a₀ pre).2)
        ∧ R s (specOps spec a₀ pre).1 := by
      intro pre
      induction pre using List.reverseRecOn with
      | nil => exact fun _ => ⟨s₀, rfl, init⟩
      | append_singleton pre m ih =>
        intro hpre
        obtain ⟨s, hrun, hs⟩ := ih ((List.prefix_append _ _).trans hpre)
        have hlast := Simulates.last (fun p hp => h p (hp.trans hpre)) hrun
        have hm := hallowed pre m hpre
        obtain ⟨t, ht, hR⟩ := good s _ m hs hm (bad s _ m hs hm hlast)
        refine ⟨t, ?_, ?_⟩
        · rw [runOps_concat hrun, ht, specOps_concat]
        · rw [specOps_concat]
          exact hR
    intro pre m s os hpre hrun
    obtain ⟨s', hrun', hs⟩ := hinv pre ((List.prefix_append _ _).trans hpre)
    rw [hrun] at hrun'
    obtain ⟨rfl, -⟩ := Prod.mk.inj (Except.ok.inj hrun')
    exact bad s _ m hs (hallowed pre m hpre) (Simulates.last (fun p hp => h p (hp.trans hpre)) hrun)
  · intro h
    exact (simulates_of_guarded R good init hallowed h).mono sound

end Rule

section Abstract

variable {R P : σ → α → Prop} {Allowed H : α → μ → Prop}

/-- A guard that looks at the specification only. -/
theorem simulates_of_allAllowed
    (good : ∀ s a m, R s a → Allowed a m → H a m →
      ∃ t, step s m = .ok (t, (spec a m).2) ∧ R t (spec a m).1)
    (sound : ∀ s a, R s a → P s a) {s₀ : σ} {a₀ : α} (init : R s₀ a₀) {ms : List μ}
    (hallowed : AllAllowed spec Allowed a₀ ms) (h : AllAllowed spec H a₀ ms) :
    Simulates step spec P s₀ a₀ ms :=
  (simulates_of_guarded R good init hallowed h.allGuarded).mono sound

theorem simulates_iff_allAllowed
    (good : ∀ s a m, R s a → Allowed a m → H a m →
      ∃ t, step s m = .ok (t, (spec a m).2) ∧ R t (spec a m).1)
    (sound : ∀ s a, R s a → P s a)
    (bad : ∀ s a m, R s a → Allowed a m →
      (∃ t, step s m = .ok (t, (spec a m).2) ∧ P t (spec a m).1) → H a m)
    {s₀ : σ} {a₀ : α} (init : R s₀ a₀) {ms : List μ} (hallowed : AllAllowed spec Allowed a₀ ms) :
    Simulates step spec P s₀ a₀ ms ↔ AllAllowed spec H a₀ ms := by
  have hiff := simulates_iff (G := fun _ => H) R good init hallowed sound bad
  constructor
  · intro h pre m hpre
    obtain ⟨s, hrun, -⟩ := h pre ((List.prefix_append _ _).trans hpre)
    exact hiff.mp h pre m s _ hpre hrun
  · exact simulates_of_allAllowed good sound init hallowed

/-- Where no operation is in doubt, every sequence goes right. -/
theorem simulates_of_steps
    (good : ∀ s a m, R s a → Allowed a m →
      ∃ t, step s m = .ok (t, (spec a m).2) ∧ R t (spec a m).1)
    {s₀ : σ} {a₀ : α} (init : R s₀ a₀) {ms : List μ} (hallowed : AllAllowed spec Allowed a₀ ms) :
    Simulates step spec R s₀ a₀ ms :=
  simulates_of_guarded (G := fun _ _ _ => True) R (fun s a m hs hm _ => good s a m hs hm) init
    hallowed fun _ _ _ _ _ _ => trivial

end Abstract

end Lib
