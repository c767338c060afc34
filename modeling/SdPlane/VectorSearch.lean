import SdPlane.Lib.Comparison
import SdPlane.PtrVector

/-!
# The binary search in a vector (`vector_lookup_index_bsearch`)

The search halves a number of slots. With an odd number the slots on both sides of the middle are as
many as half of it, with an even one there is one less behind the middle, and the middle is searched
again. What the search says once it has come down to one slot is checked by its caller.

`Answers` is what a search is to say. In a sorted vector the search only looks at elements of the
vector, and finds one that compares as equal if there is any, exactly as long as the number of
elements is an `int`. Otherwise the number it is called with is negative, and the program is ended.
-/

set_option autoImplicit false

namespace SdPlane

/-- What a search answers, and the slots that it has looked at. -/
structure Searched where
  index : Int
  inspected : List Int

/-- A slot is looked at before the others. -/
def Searched.after (middle : Int) (r : Searched) : Searched := ⟨r.index, middle :: r.inspected⟩

variable {α : Type}

/-- `vector_binsearch` -/
def vectorBinsearch (data : Option α) (index size : Int) (cmp : Option α → Option α → Int)
    (v : PtrVector α) : Except Lib.Crash Searched := do
  let middle ← Lib.int (index + size.tdiv 2)
  let shift : Int := if size.tmod 2 = 1 then 1 else 0
  if _hneg : size < 0 then .error .assertion
  else do
    Lib.inside middle v.limit
    let ret := cmp data (v.array middle.toNat)
    if ret = 0 then return ⟨middle, [middle]⟩
    else if _hsmall : size = 0 ∨ size = 1 then return ⟨-1, [middle]⟩
    else if ret < 0 then (vectorBinsearch data index (size.tdiv 2) cmp v).map (.after middle)
    else do
      let start ← Lib.int (middle + shift)
      (vectorBinsearch data start (size.tdiv 2) cmp v).map (.after middle)
termination_by size.toNat
decreasing_by
  all_goals
    rw [Int.tdiv_eq_ediv_of_nonneg (by omega)]
    omega

/-- `vector_lookup_index_bsearch`; the size of the vector becomes an `int`. -/
def PtrVector.lookupIndexBsearch (data : Option α) (cmp : Option α → Option α → Int)
    (v : PtrVector α) : Except Lib.Crash Searched :=
  if v.size = 0 then .ok ⟨-1, []⟩
  else do
    let r ← vectorBinsearch data 0 (Int.bmod v.size (2 ^ 32)) cmp v
    if r.index < 0 then return ⟨-1, r.inspected⟩
    Lib.inside r.index v.limit
    let inspected := r.inspected ++ [r.index]
    if cmp data (v.array r.index.toNat) = 0 then return ⟨r.index, inspected⟩
    return ⟨-1, inspected⟩

/-! ## What it is to answer -/

/-- Of the `n` slots from `start` on, none but these has been looked at, and `r` is the index of one
    that compares as equal, or -1 where there is none. -/
structure Answers (data : Option α) (cmp : Option α → Option α → Int) (v : PtrVector α)
    (start n : Nat) (r : Searched) : Prop where
  inspected : ∀ i, i ∈ r.inspected → start ≤ i ∧ i < start + n
  found : r.index ≠ -1 →
    start ≤ r.index ∧ r.index < start + n ∧ cmp data (v.array r.index.toNat) = 0
  missed : r.index = -1 → ∀ i, start ≤ i → i < start + n → cmp data (v.array i) ≠ 0

/-! ## One step -/

section

variable {data : Option α} {cmp : Option α → Option α → Int} {v : PtrVector α} {start n : Nat}

/-- The search among `n` slots from `start` on. -/
theorem vectorBinsearch_eq {middle : Nat} (hmid : middle = start + n / 2) (hn : 0 < n)
    (hint : start + n < 2 ^ 31) (hlimit : start + n ≤ v.limit) :
    vectorBinsearch data start n cmp v
      = if cmp data (v.array middle) = 0 then .ok ⟨middle, [(middle : Int)]⟩
        else if n = 1 then .ok ⟨-1, [(middle : Int)]⟩
        else if cmp data (v.array middle) < 0 then
          (vectorBinsearch data start (n / 2 : Nat) cmp v).map (.after middle)
        else
          (vectorBinsearch data (middle + n % 2 : Nat) (n / 2 : Nat) cmp v).map (.after middle) := by
  have hhalf : (n : Int).tdiv 2 = (n / 2 : Nat) := by
    rw [Int.tdiv_eq_ediv_of_nonneg (by omega)]
    omega
  have hshift : (if (n : Int).tmod 2 = 1 then (1 : Int) else 0) = (n % 2 : Nat) := by
    rw [Int.tmod_eq_emod_of_nonneg (by omega)]
    split <;> omega
  have hmiddle : Lib.int ((start : Int) + (n / 2 : Nat)) = .ok (middle : Int) := by
    rw [hmid]
    exact Lib.int_of_fits (by omega)
  have hin : Lib.inside (middle : Int) v.limit = .ok () := Lib.inside_of_lt (by omega)
  have hstart : Lib.int ((middle : Int) + (n % 2 : Nat)) = .ok ((middle + n % 2 : Nat) : Int) :=
    Lib.int_of_fits (by omega)
  have hneg : ¬ (n : Int) < 0 := by omega
  have hone : ((n : Int) = 0 ∨ (n : Int) = 1) ↔ n = 1 := by omega
  rw [vectorBinsearch]
  simp only [hhalf, hshift, hmiddle, hstart, Lib.ok_bind, dif_neg hneg, hin, Int.toNat_natCast,
    hone, Lib.pure_eq_ok, dite_eq_ite]

theorem answers_found {middle : Nat} (hmiddle : start ≤ middle ∧ middle < start + n)
    (heq : cmp data (v.array middle) = 0) :
    Answers data cmp v start n ⟨middle, [(middle : Int)]⟩ where
  inspected := by
    intro i hi
    obtain rfl := List.mem_singleton.mp hi
    omega
  found := fun _ => ⟨Int.ofNat_le.mpr hmiddle.1, by dsimp only; omega, heq⟩
  missed := fun hmissed => absurd hmissed (by dsimp only; omega)

/-- A single slot with another element. -/
theorem answers_missed (hne : ¬ cmp data (v.array start) = 0) :
    Answers data cmp v start 1 ⟨-1, [(start : Int)]⟩ where
  inspected := by
    intro i hi
    obtain rfl := List.mem_singleton.mp hi
    omega
  found := fun hfound => absurd rfl hfound
  missed := by
    intro _ i hge hlt
    obtain rfl : i = start := by omega
    exact hne

/-- The slots that are searched on are those in question. -/
theorem Answers.after {start' n' middle : Nat} {r : Searched} (h : Answers data cmp v start' n' r)
    (hmiddle : start ≤ middle ∧ middle < start + n)
    (hsub : start ≤ start' ∧ start' + n' ≤ start + n)
    (hrest : ∀ i, start ≤ i → i < start + n → i < start' ∨ start' + n' ≤ i →
      cmp data (v.array i) ≠ 0) :
    Answers data cmp v start n (r.after middle) where
  inspected := by
    intro i hi
    cases hi with
    | head => omega
    | tail _ hi =>
      have hin := h.inspected i hi
      omega
  found := by
    intro hne
    obtain ⟨hge, hlt, heq⟩ := h.found hne
    exact ⟨by dsimp only [Searched.after]; omega, by dsimp only [Searched.after]; omega, heq⟩
  missed := by
    intro hmissed i hge hlt
    rcases Nat.lt_or_ge i start' with hbefore | hfrom
    · exact hrest i hge hlt (.inl hbefore)
    · rcases Nat.lt_or_ge i (start' + n') with hin | hbehind
      · exact h.missed hmissed i hfrom hin
      · exact hrest i hge hlt (.inr hbehind)

/-- A search by halves, among any slots of a sorted vector. -/
theorem vectorBinsearch_answers (hcmp : Lib.TotalPreorder cmp)
    (hsorted : Lib.Ascends cmp v.array v.size) (hint : v.size < 2 ^ 31) (hlimit : v.size ≤ v.limit)
    (hn : 0 < n) (hsize : start + n ≤ v.size) :
    ∃ r, vectorBinsearch data start n cmp v = .ok r ∧ Answers data cmp v start n r := by
  induction n using Nat.strong_induction_on generalizing start with
  | _ n ih =>
    obtain ⟨middle, hmid⟩ : ∃ middle, middle = start + n / 2 := ⟨_, rfl⟩
    rw [vectorBinsearch_eq hmid hn (by omega) (by omega)]
    by_cases heq : cmp data (v.array middle) = 0
    · rw [if_pos heq]
      exact ⟨_, rfl, answers_found (by omega) heq⟩
    rw [if_neg heq]
    by_cases hone : n = 1
    · rw [if_pos hone]
      obtain rfl : middle = start := by omega
      rw [hone]
      exact ⟨_, rfl, answers_missed heq⟩
    rw [if_neg hone]
    by_cases hlt : cmp data (v.array middle) < 0
    · -- what is looked for is before the middle
      obtain ⟨r, hr, hanswers⟩ := @ih (n / 2) (by omega) start (by omega) (by omega)
      rw [if_pos hlt, hr]
      refine ⟨_, rfl, hanswers.after (by omega) (by omega) fun i hge hend hout => ?_⟩
      have hle : middle ≤ i := by omega
      have hbehind := hcmp.lt_of_behind hsorted hle (by omega) hlt
      omega
    · -- it is behind it, or the middle of an even number, which is searched again
      obtain ⟨r, hr, hanswers⟩ := @ih (n / 2) (by omega) (middle + n % 2) (by omega) (by omega)
      rw [if_neg hlt, hr]
      refine ⟨_, rfl, hanswers.after (by omega) (by omega) fun i hge hend hout => ?_⟩
      have hle : i ≤ middle := by omega
      have hgt : 0 < cmp data (v.array middle) := by omega
      have hbefore := hcmp.gt_of_before hsorted hle (by omega) hgt
      omega

/-! ## The result -/

/-- A size that is no `int` is a negative number. -/
theorem lookupIndexBsearch_of_big (hsize : v.size < 2 ^ 32) (hbig : 2 ^ 31 ≤ v.size) :
    v.lookupIndexBsearch data cmp = .error .assertion := by
  have hneg : Int.bmod v.size (2 ^ 32) = v.size - 2 ^ 32 := by
    rw [Int.bmod_def]
    omega
  have hmiddle : Lib.int (0 + ((v.size : Int) - 2 ^ 32).tdiv 2)
      = .ok (0 + ((v.size : Int) - 2 ^ 32).tdiv 2) := by
    apply Lib.int_of_fits
    rw [Int.tdiv_eq_ediv, Int.sign_eq_one_of_pos (by decide)]
    split <;> omega
  have hlt : (v.size : Int) - 2 ^ 32 < 0 := by omega
  rw [PtrVector.lookupIndexBsearch, if_neg (by omega), hneg, vectorBinsearch]
  simp only [hmiddle, Lib.ok_bind, dif_pos hlt, Lib.error_bind]

theorem lookupIndexBsearch_answers (hcmp : Lib.TotalPreorder cmp)
    (hsorted : Lib.Ascends cmp v.array v.size) (hint : v.size < 2 ^ 31)
    (hlimit : v.size ≤ v.limit) :
    ∃ r, v.lookupIndexBsearch data cmp = .ok r ∧ Answers data cmp v 0 v.size r := by
  rw [PtrVector.lookupIndexBsearch]
  by_cases hzero : v.size = 0
  · rw [if_pos hzero, hzero]
    exact ⟨_, rfl, fun _ hi => absurd hi List.not_mem_nil, fun hne => absurd rfl hne,
      fun _ i _ hlt => absurd hlt (by omega)⟩
  have hsame : Int.bmod v.size (2 ^ 32) = v.size := by
    rw [Int.bmod_def]
    omega
  obtain ⟨r, hr, hanswers⟩ := @vectorBinsearch_answers α data cmp v 0 v.size hcmp hsorted hint
    hlimit (Nat.pos_of_ne_zero hzero) (by omega)
  rw [if_neg hzero, hsame]
  rw [Nat.cast_zero] at hr
  rw [hr, Lib.ok_bind]
  by_cases hmissed : r.index = -1
  · have hneg : r.index < 0 := by omega
    rw [if_pos hneg]
    exact ⟨_, rfl, hanswers.inspected, fun hne => absurd rfl hne, fun _ => hanswers.missed hmissed⟩
  · obtain ⟨hge, hlt, heq⟩ := hanswers.found hmissed
    have hpos : ¬ r.index < 0 := by omega
    have hin : Lib.inside r.index v.limit = .ok () := Lib.inside_of_lt (by omega)
    simp only [if_neg hpos, hin, Lib.ok_bind, if_pos heq, Lib.pure_eq_ok]
    refine ⟨_, rfl, fun i hi => ?_, fun _ => ⟨hge, hlt, heq⟩, hanswers.missed⟩
    rcases List.mem_append.mp hi with hi | hi
    · exact hanswers.inspected i hi
    · obtain rfl := List.mem_singleton.mp hi
      exact ⟨hge, hlt⟩

/-- **Binary search**: in a sorted vector it looks at no other slots than those in use, and finds an
    element that compares as equal if there is one, exactly as long as the size is an `int`. -/
theorem vector_bsearch_iff (hcmp : Lib.TotalPreorder cmp) (hsorted : Lib.Ascends cmp v.array v.size)
    (hlimit : v.size ≤ v.limit) (hunsigned : v.limit < 2 ^ 32) (data : Option α) :
    (∃ r, v.lookupIndexBsearch data cmp = .ok r ∧ Answers data cmp v 0 v.size r)
      ↔ v.size < 2 ^ 31 := by
  constructor
  · rintro ⟨r, hr, -⟩
    by_contra hbig
    rw [lookupIndexBsearch_of_big (by omega) (by omega)] at hr
    cases hr
  · intro hint
    exact lookupIndexBsearch_answers hcmp hsorted hint hlimit

end

/-- Numbers in their order. -/
def byNumber (a b : Option Nat) : Int := (a.getD 0 : Int) - (b.getD 0 : Int)

theorem byNumber_preorder : Lib.TotalPreorder byNumber where
  swap := fun a b => by simp only [byNumber]; omega
  trans := fun a b c => by simp only [byNumber]; omega

theorem countingVector_ascends (n : Nat) :
    Lib.Ascends byNumber (countingVector n).array (countingVector n).size := by
  intro i j hij _
  simp only [byNumber, countingVector, Option.getD_some]
  omega

/-- The fourth number is found among five. -/
theorem vector_bsearch_five : ∃ r, (countingVector 5).lookupIndexBsearch (some 3) byNumber = .ok r
    ∧ Answers (some 3) byNumber (countingVector 5) 0 5 r :=
  (vector_bsearch_iff byNumber_preorder (countingVector_ascends 5) le_rfl (by decide) (some 3)).mpr
    (by decide)

/-- The size of a vector of 2³¹ elements comes out negative. -/
theorem vector_bsearch_negative : ¬ ∀ v : PtrVector Nat, Lib.Ascends byNumber v.array v.size →
    v.size ≤ v.limit → v.limit < 2 ^ 32 → ∀ data, ∃ r,
      v.lookupIndexBsearch data byNumber = .ok r ∧ Answers data byNumber v 0 v.size r := by
  intro h
  obtain ⟨n, hn⟩ : ∃ n, n = 2 ^ 31 := ⟨_, rfl⟩
  have hlimit : (countingVector n).limit < 2 ^ 32 := by
    show n < 2 ^ 32
    omega
  have hbig : 2 ^ 31 ≤ (countingVector n).size := Nat.le_of_eq hn.symm
  obtain ⟨r, hr, -⟩ := h (countingVector n) (countingVector_ascends n) le_rfl hlimit none
  rw [lookupIndexBsearch_of_big hlimit hbig] at hr
  cases hr

end SdPlane
