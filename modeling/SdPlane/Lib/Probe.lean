import Mathlib

/-!
# A table that is probed in a fixed order

An open-addressing table keeps a key in one of the slots of its probe sequence `order`. When
entries can be taken out without leaving a mark, an insertion may stop in front of an older
entry of the same key, and then the key stands in the table twice. What a lookup answers is
still right as long as the entries of one key stand **newest first** along its probe sequence.

`view` is the table as one key sees it: what a slot holds under that key, with the time at which
it was written, and `none` for every other slot. There are three things that can happen to it,
and one lemma for each of them and each of the two notions:

* a slot is written in front of everything the key has (`findSome?_write`, `NewestFirst.write`);
* entries are dropped by their age (`findSome?_keep`, `NewestFirst.keep`);
* a slot that the key does not hold changes hands, which it does not see.
-/

set_option autoImplicit false

namespace Lib

variable {ι β : Type*}

/-- Along `order`, what was written later stands earlier. -/
def NewestFirst (order : List ι) (view : ι → Option (Int × β)) : Prop :=
  order.Pairwise fun a b => ∀ x ∈ view a, ∀ y ∈ view b, y.1 ≤ x.1

theorem newestFirst_none (order : List ι) :
    NewestFirst order (fun _ => none : ι → Option (Int × β)) := by
  unfold NewestFirst
  exact List.pairwise_of_forall fun a b x hx => absurd hx (by simp)

/-- An age limit, as a filter: what was written more than `maxAge` ago is dropped. -/
def young (now maxAge : Int) (x : Int × β) : Bool := decide (now - x.1 ≤ maxAge)

theorem young_iff {now maxAge : Int} {x : Int × β} :
    young now maxAge x = true ↔ now - x.1 ≤ maxAge := by simp [young]

theorem NewestFirst.keep {order : List ι} {view : ι → Option (Int × β)}
    (h : NewestFirst order view) (p : Int × β → Bool) :
    NewestFirst order (fun i => (view i).filter p) := by
  refine List.Pairwise.imp ?_ h
  intro a b hab x hx y hy
  exact hab x (Option.mem_filter_iff.mp hx).1 y (Option.mem_filter_iff.mp hy).1

/-- Ageing drops the newest entry only together with all the others. -/
theorem findSome?_keep {order : List ι} {view : ι → Option (Int × β)}
    (h : NewestFirst order view) (now maxAge : Int) :
    order.findSome? (fun i => (view i).filter (young now maxAge))
      = (order.findSome? view).filter (young now maxAge) := by
  induction order with
  | nil => rfl
  | cons a rest ih =>
    obtain ⟨ha, hrest⟩ := List.pairwise_cons.mp h
    cases hv : view a with
    | none => simp [hv, ih hrest]
    | some x =>
      by_cases hx : young now maxAge x = true
      · simp [hv, hx]
      · simp only [List.findSome?_cons, hv, Option.filter_some, hx]
        -- what stands behind `x` is older than `x`
        refine List.findSome?_eq_none_iff.mpr fun b hb => ?_
        rw [Option.filter_eq_none_iff]
        intro y hy hyoung
        have hle := ha b hb x hv y hy
        rw [young_iff] at hx hyoung
        omega

section Write

variable [DecidableEq ι] {order before after : List ι} {view : ι → Option (Int × β)} {p : ι}

theorem findSome?_write (horder : order = before ++ p :: after)
    (hbefore : ∀ i ∈ before, i ≠ p ∧ view i = none) (x : Int × β) :
    order.findSome? (Function.update view p (some x)) = some x := by
  subst horder
  have hnone : before.findSome? (Function.update view p (some x)) = none := by
    refine List.findSome?_eq_none_iff.mpr fun i hi => ?_
    rw [Function.update_of_ne (hbefore i hi).1, (hbefore i hi).2]
  simp [List.findSome?_append, hnone]

theorem NewestFirst.write (h : NewestFirst order view) (horder : order = before ++ p :: after)
    (hnodup : order.Nodup) (hbefore : ∀ i ∈ before, view i = none) {x : Int × β}
    (hnewest : ∀ i, ∀ y ∈ view i, y.1 ≤ x.1) :
    NewestFirst order (Function.update view p (some x)) := by
  subst horder
  unfold NewestFirst at h ⊢
  rw [List.pairwise_append, List.pairwise_cons] at h ⊢
  obtain ⟨hb, ⟨-, ha⟩, hba⟩ := h
  obtain ⟨-, hpa, hpb⟩ := List.nodup_append.mp hnodup
  rw [List.nodup_cons] at hpa
  have hne : ∀ i ∈ before, i ≠ p := fun i hi => hpb i hi p (List.mem_cons_self ..)
  have hne' : ∀ i ∈ after, i ≠ p := fun i hi heq => hpa.1 (heq ▸ hi)
  refine ⟨?_, ⟨?_, ?_⟩, ?_⟩
  · refine hb.imp_of_mem fun {a b} hma hmb hab => ?_
    rw [Function.update_of_ne (hne a hma), Function.update_of_ne (hne b hmb)]
    exact hab
  · intro b hmb
    rw [Function.update_self, Function.update_of_ne (hne' b hmb)]
    intro z hz y hy
    obtain rfl : x = z := by simpa using hz
    exact hnewest b y hy
  · refine ha.imp_of_mem fun {a b} hma hmb hab => ?_
    rw [Function.update_of_ne (hne' a hma), Function.update_of_ne (hne' b hmb)]
    exact hab
  · intro a hma b _
    rw [Function.update_of_ne (hne a hma), hbefore a hma]
    intro z hz
    exact absurd hz (by simp)

end Write

end Lib
