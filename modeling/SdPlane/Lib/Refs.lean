import Mathlib

/-!
# Reference counts

`H` is the finite set of places that may hold a reference and `f` says to what each of them
refers. `refs H f x` is the number of references to `x`, which is what a reference count is
meant to be. A place is taken up (`refs_insert`) or given up (`refs_erase`), and the count of
one target changes by one; the other places keep what they refer to.
-/

set_option autoImplicit false

namespace Lib

variable {ι α : Type*} [DecidableEq α]

/-- How many of the places `H` refer to `x`. -/
def refs (H : Finset ι) (f : ι → α) (x : α) : Int := ((H.filter fun p => f p = x).card : Int)

theorem refs_nonneg (H : Finset ι) (f : ι → α) (x : α) : 0 ≤ refs H f x := Int.natCast_nonneg _

theorem refs_congr {H : Finset ι} {f g : ι → α} (h : ∀ p ∈ H, f p = g p) (x : α) :
    refs H f x = refs H g x := by
  unfold refs
  rw [Finset.filter_congr fun p hp => by rw [h p hp]]

theorem refs_pos {H : Finset ι} {f : ι → α} {p : ι} (hp : p ∈ H) : 0 < refs H f (f p) := by
  have hmem : p ∈ H.filter fun q => f q = f p := by simpa using hp
  unfold refs
  exact_mod_cast Finset.card_pos.mpr ⟨p, hmem⟩

theorem refs_eq_zero_iff {H : Finset ι} {f : ι → α} {x : α} :
    refs H f x = 0 ↔ ∀ p ∈ H, f p ≠ x := by
  unfold refs
  rw [Int.natCast_eq_zero, Finset.card_eq_zero, Finset.filter_eq_empty_iff]

/-- A place is taken up. -/
theorem refs_insert [DecidableEq ι] {H : Finset ι} {f g : ι → α} {p : ι} (hp : p ∉ H)
    (h : ∀ q ∈ H, f q = g q) (x : α) :
    refs (insert p H) g x = refs H f x + if g p = x then 1 else 0 := by
  rw [refs_congr h x]
  unfold refs
  rw [Finset.filter_insert]
  split
  · rw [Finset.card_insert_of_notMem (by simp [hp])]
    push_cast
    rfl
  · simp

/-- A place is given up. -/
theorem refs_erase [DecidableEq ι] {H : Finset ι} {f g : ι → α} {p : ι} (hp : p ∈ H)
    (h : ∀ q ∈ H.erase p, f q = g q) (x : α) :
    refs (H.erase p) g x = refs H f x - if f p = x then 1 else 0 := by
  rw [← refs_congr h x]
  have hins := refs_insert (f := f) (g := f) (Finset.notMem_erase p H) (fun _ _ => rfl) x
  rw [Finset.insert_erase hp] at hins
  omega

end Lib
