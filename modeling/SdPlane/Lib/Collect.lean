import Mathlib

/-!
# Loops that send

A loop over a list whose rounds each send something, or fail, is `collect`: what all rounds have
sent, in order, or the first failure. It fails exactly when a round does (`collect_ok`,
`collect_error`).

A failure ends the loop but does not take back what has been sent before it. Where that matters,
the loop is `collectUntil`, which returns both. Its failures are those of `collect`, and a round has
sent something if no round before it failed (`mem_collectUntil_range`).
-/

set_option autoImplicit false

namespace Lib

variable {α β ε : Type*} {f : α → Except ε (List β)}

def collect (f : α → Except ε (List β)) : List α → Except ε (List β)
  | [] => .ok []
  | a :: rest =>
    match f a, collect f rest with
    | .error e, _ => .error e
    | .ok _, .error e => .error e
    | .ok sent, .ok more => .ok (sent ++ more)

theorem collect_error {l : List α} {e : ε} (h : collect f l = .error e) :
    ∃ a ∈ l, f a = .error e := by
  induction l with
  | nil => cases h
  | cons a rest ih =>
    simp only [collect] at h
    split at h
    · next heq =>
      obtain rfl := Except.error.inj h
      exact ⟨a, List.mem_cons_self, heq⟩
    · next hrest =>
      obtain rfl := Except.error.inj h
      obtain ⟨b, hb, hfb⟩ := ih hrest
      exact ⟨b, List.mem_cons_of_mem a hb, hfb⟩
    · cases h

theorem collect_ok {l : List α} {sent : List β} (h : collect f l = .ok sent) :
    ∀ a ∈ l, ∃ out, f a = .ok out := by
  induction l generalizing sent with
  | nil => exact fun a ha => nomatch ha
  | cons b rest ih =>
    simp only [collect] at h
    split at h
    · cases h
    · cases h
    · next out more hout hmore =>
      intro a ha
      cases ha with
      | head => exact ⟨out, hout⟩
      | tail _ ha => exact ih hmore a ha

theorem exists_collect_ok {l : List α} (h : ∀ a ∈ l, ∃ out, f a = .ok out) :
    ∃ sent, collect f l = .ok sent := by
  cases hl : collect f l with
  | ok sent => exact ⟨sent, rfl⟩
  | error e =>
    obtain ⟨a, ha, herror⟩ := collect_error hl
    obtain ⟨out, hout⟩ := h a ha
    cases hout.symm.trans herror

/-- What is sent is sent in some round. -/
theorem mem_collect {l : List α} {sent : List β} (h : collect f l = .ok sent) {b : β} :
    b ∈ sent ↔ ∃ a ∈ l, ∃ out, f a = .ok out ∧ b ∈ out := by
  induction l generalizing sent with
  | nil =>
    obtain rfl := Except.ok.inj h
    simp
  | cons a rest ih =>
    simp only [collect] at h
    split at h
    · cases h
    · cases h
    · next out more hout hmore =>
      obtain rfl := Except.ok.inj h
      simp [ih hmore, hout]

theorem collect_congr {g : α → Except ε (List β)} {l : List α} (h : ∀ a ∈ l, f a = g a) :
    collect f l = collect g l := by
  induction l with
  | nil => rfl
  | cons a rest ih =>
    have hrest := ih fun b hb => h b (List.mem_cons_of_mem a hb)
    simp only [collect, h a List.mem_cons_self, hrest]

/-- Rounds that each send no more than one thing of their own send in the order of the list. -/
theorem collect_sublist {γ : Type*} {g : β → γ} {k : α → γ} {l : List α} {sent : List β}
    (h : collect f l = .ok sent)
    (hone : ∀ a ∈ l, ∀ out, f a = .ok out → (out.map g).Sublist [k a]) :
    (sent.map g).Sublist (l.map k) := by
  induction l generalizing sent with
  | nil =>
    obtain rfl := Except.ok.inj h
    exact .slnil
  | cons a rest ih =>
    simp only [collect] at h
    split at h
    · cases h
    · cases h
    · next out more hout hmore =>
      obtain rfl := Except.ok.inj h
      have hrest := ih hmore fun b hb => hone b (List.mem_cons_of_mem a hb)
      rw [List.map_append, List.map_cons]
      exact (hone a List.mem_cons_self out hout).append hrest

/-! ## What has been sent before a failure -/

/-- What the rounds up to the first failure have sent, and the failure. -/
def collectUntil (f : α → Except ε (List β)) : List α → List β × Option ε
  | [] => ([], none)
  | a :: rest =>
    match f a with
    | .error e => ([], some e)
    | .ok sent => (sent ++ (collectUntil f rest).1, (collectUntil f rest).2)

theorem collectUntil_cons_ok {a : α} {sent : List β} (h : f a = .ok sent) (rest : List α) :
    collectUntil f (a :: rest)
      = (sent ++ (collectUntil f rest).1, (collectUntil f rest).2) := by
  simp only [collectUntil, h]

theorem collectUntil_cons_error {a : α} {e : ε} (h : f a = .error e) (rest : List α) :
    collectUntil f (a :: rest) = ([], some e) := by
  simp only [collectUntil, h]

/-- A loop that gets to its end has sent the same either way; otherwise the failure is the same. -/
theorem collect_eq_collectUntil (f : α → Except ε (List β)) (l : List α) :
    collect f l = (collectUntil f l).2.elim (.ok (collectUntil f l).1) .error := by
  induction l with
  | nil => rfl
  | cons a rest ih =>
    cases hround : f a with
    | error e => simp only [collect, hround, collectUntil_cons_error hround, Option.elim_some]
    | ok sent =>
      simp only [collect, hround, collectUntil_cons_ok hround, ih]
      cases (collectUntil f rest).2 with
      | none => rfl
      | some e => rfl

theorem collectUntil_error {l : List α} {e : ε} (h : (collectUntil f l).2 = some e) :
    ∃ a ∈ l, f a = .error e := by
  apply collect_error
  rw [collect_eq_collectUntil, h, Option.elim_some]

/-- What has been sent was sent in a round that no failure precedes. -/
theorem mem_collectUntil {l : List α} {b : β} :
    b ∈ (collectUntil f l).1
      ↔ ∃ before a after out, l = before ++ a :: after ∧ f a = .ok out ∧ b ∈ out
        ∧ ∀ x ∈ before, ∃ out, f x = .ok out := by
  induction l with
  | nil => simp [collectUntil]
  | cons c rest ih =>
    cases hround : f c with
    | error e =>
      rw [collectUntil_cons_error hround]
      refine iff_of_false List.not_mem_nil ?_
      rintro ⟨before, a, after, out, hsplit, hout, -, hbefore⟩
      cases before with
      | nil =>
        obtain ⟨rfl, -⟩ := List.cons.inj hsplit
        cases hround.symm.trans hout
      | cons x before =>
        obtain ⟨rfl, -⟩ := List.cons.inj hsplit
        obtain ⟨out', hout'⟩ := hbefore c List.mem_cons_self
        cases hround.symm.trans hout'
    | ok sent =>
      rw [collectUntil_cons_ok hround, List.mem_append, ih]
      constructor
      · rintro (hb | ⟨before, a, after, out, rfl, hout, hb, hbefore⟩)
        · exact ⟨[], c, rest, sent, rfl, hround, hb, fun x hx => absurd hx List.not_mem_nil⟩
        · refine ⟨c :: before, a, after, out, rfl, hout, hb, fun x hx => ?_⟩
          cases hx with
          | head => exact ⟨sent, hround⟩
          | tail _ hx => exact hbefore x hx
      · rintro ⟨before, a, after, out, hsplit, hout, hb, hbefore⟩
        cases before with
        | nil =>
          obtain ⟨rfl, rfl⟩ := List.cons.inj hsplit
          obtain rfl := Except.ok.inj (hround.symm.trans hout)
          exact .inl hb
        | cons x before =>
          obtain ⟨rfl, rfl⟩ := List.cons.inj hsplit
          exact .inr ⟨before, a, after, out, rfl, hout, hb,
            fun y hy => hbefore y (List.mem_cons_of_mem _ hy)⟩

/-- Of a loop that counts: round `i` has sent something, and none below it failed. -/
theorem mem_collectUntil_range {f : Nat → Except ε (List β)} {n : Nat} {b : β} :
    b ∈ (collectUntil f (List.range n)).1
      ↔ ∃ i < n, ∃ out, f i = .ok out ∧ b ∈ out ∧ ∀ j < i, ∃ out, f j = .ok out := by
  have hcut : ∀ {before i after}, List.range n = before ++ i :: after →
      i < n ∧ before = List.range i := by
    intro before i after hsplit
    rw [List.range_eq_range'] at hsplit ⊢
    obtain ⟨k, -, hbefore, hrest⟩ := List.range'_eq_append_iff.mp hsplit
    obtain ⟨rfl, hlt, -⟩ := List.range'_eq_cons_iff.mp hrest.symm
    exact ⟨by omega, by simpa using hbefore⟩
  rw [mem_collectUntil]
  constructor
  · rintro ⟨before, i, after, out, hsplit, hout, hb, hbefore⟩
    obtain ⟨hi, rfl⟩ := hcut hsplit
    exact ⟨i, hi, out, hout, hb, fun j hj => hbefore j (List.mem_range.mpr hj)⟩
  · rintro ⟨i, hi, out, hout, hb, hbefore⟩
    obtain ⟨before, after, hsplit⟩ := List.append_of_mem (List.mem_range.mpr hi)
    obtain ⟨-, rfl⟩ := hcut hsplit
    exact ⟨_, i, after, out, hsplit, hout, hb, fun j hj => hbefore j (List.mem_range.mp hj)⟩

theorem collectUntil_congr {g : α → Except ε (List β)} {l : List α} (h : ∀ a ∈ l, f a = g a) :
    collectUntil f l = collectUntil g l := by
  induction l with
  | nil => rfl
  | cons a rest ih =>
    have hrest := ih fun b hb => h b (List.mem_cons_of_mem a hb)
    simp only [collectUntil, h a List.mem_cons_self, hrest]

end Lib
