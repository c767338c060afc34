import SdPlane.PtrVector

/-!
# Removing from a vector that is gone through (`vector_head`, `vector_next`)

`for (node = vector_head (v); node; node = vector_next (node))` keeps an index and the element that it
has seen there. A loop that removes the current element moves the next one to its place; the element
at the index is another one then, and `vector_next` stays where it is. Where there is nothing to move
the slot may keep whatever was behind, also a copy of the element itself; the index is the size then,
which is looked at before.

`iterate_iff` is the result: whatever the body removes, it sees every element once, in order, and the
loop ends, if there is memory for the node and the index stays an `int`.
-/

set_option autoImplicit false

namespace SdPlane

/-- `struct vector_node`, without the vector. -/
structure VectorNode (α : Type) where
  index : Nat
  data : Option α

variable {α : Type}

/-- `vector_head`; `granted` says whether there is memory for the node. -/
def vectorHead (granted : Bool) (v : PtrVector α) : Except Lib.Crash (Option (VectorNode α)) :=
  if v.size = 0 then .ok none
  else if granted then do
    Lib.inside 0 v.limit
    return some ⟨0, v.array 0⟩
  else .ok none

variable [DecidableEq α]

/-- `vector_next` -/
def vectorNext (node : VectorNode α) (v : PtrVector α) : Except Lib.Crash (Option (VectorNode α)) := do
  Lib.inside node.index v.limit
  let index ← (if node.data = v.array node.index ∧ node.index < v.size then
    Lib.int (node.index + 1) else .ok node.index)
  if index = v.size then return none
  Lib.inside index v.limit
  return some ⟨index.toNat, v.array index.toNat⟩

/-- `vector_remove`, of a pointer that may be `NULL`. -/
def PtrVector.removePtr (data : Option α) (v : PtrVector α) : Except Lib.Crash (PtrVector α) :=
  match (List.range v.size).find? fun i => v.array i = data with
  | none => .error .assertion
  | some index => v.removeAt index

theorem PtrVector.removePtr_some (data : α) (v : PtrVector α) :
    v.removePtr (some data) = v.remove data := rfl

/-- The loop from `node` on, whose body removes the current element in the rounds of which `removes`
    says so: what it sees, and what becomes of the vector. `more` is how many tests there may still
    be. -/
def iterateFrom (removes : Nat → Bool) : Nat → Nat → Option (VectorNode α) → PtrVector α →
    Except Lib.Crash (List (Option α) × PtrVector α)
  | 0, _, _, _ => .error .diverges
  | _ + 1, _, none, v => .ok ([], v)
  | more + 1, round, some node, v => do
    let v ← (if removes round then v.removePtr node.data else .ok v)
    let next ← vectorNext node v
    let (seen, v) ← iterateFrom removes more (round + 1) next v
    return (node.data :: seen, v)

def iterate (granted : Bool) (removes : Nat → Bool) (more : Nat) (v : PtrVector α) :
    Except Lib.Crash (List (Option α) × PtrVector α) := do
  let node ← vectorHead granted v
  iterateFrom removes more 0 node v

/-! ## What stays -/

omit [DecidableEq α] in
/-- The elements that are not removed, from a round on. -/
def kept (removes : Nat → Bool) : Nat → List α → List α
  | _, [] => []
  | round, data :: rest =>
    if removes round then kept removes (round + 1) rest else data :: kept removes (round + 1) rest

/-- The loop is at `cur`: what it has kept is before that, what it has not seen yet behind. -/
structure StandsAt (v : PtrVector α) (done : List α) (cur : α) (rest : List α) : Prop where
  contents : v.contents = (done ++ cur :: rest).map some
  distinct : (done ++ cur :: rest).Nodup
  le : v.size ≤ v.limit
  small : v.limit < 2 ^ 32

/-- What is kept after a round. -/
def staying (remove : Bool) (done : List α) (cur : α) : List α :=
  if remove then done else done ++ [cur]

/-! ## One round -/

theorem iterateFrom_ok {removes : Nat → Bool} {more round : Nat} {node : VectorNode α}
    {v : PtrVector α} {r : List (Option α) × PtrVector α}
    (h : iterateFrom removes more round (some node) v = .ok r) :
    ∃ more' v' next r', (if removes round then v.removePtr node.data else .ok v) = .ok v'
      ∧ vectorNext node v' = .ok next
      ∧ iterateFrom removes more' (round + 1) next v' = .ok r' := by
  cases more with
  | zero => cases h
  | succ more =>
    rw [iterateFrom] at h
    cases hbody : (if removes round then v.removePtr node.data else .ok v) with
    | error e =>
      rw [hbody] at h
      cases h
    | ok v' =>
      rw [hbody, Lib.ok_bind] at h
      cases hnext : vectorNext node v' with
      | error e =>
        rw [hnext] at h
        cases h
      | ok next =>
        rw [hnext, Lib.ok_bind] at h
        cases hrest : iterateFrom removes more (round + 1) next v' with
        | error e =>
          rw [hrest] at h
          cases h
        | ok r' => exact ⟨more, v', next, r', rfl, hnext, hrest⟩

section

variable {v : PtrVector α} {done rest : List α} {cur : α}

/-- The element has been removed; another one is in its place, or the end. -/
theorem vectorNext_removed (hcontents : v.contents = (done ++ rest).map some) (hnot : cur ∉ rest)
    (hin : done.length < v.limit) :
    vectorNext ⟨done.length, some cur⟩ v
      = .ok (rest.head?.map fun data => ⟨done.length, some data⟩) := by
  have hinside : Lib.inside (done.length : Int) v.limit = .ok () := Lib.inside_of_lt (by omega)
  have hsize : v.size = done.length + rest.length := by
    rw [PtrVector.size_eq hcontents, List.length_append]
  have hstay : ¬ (some cur = v.array done.length ∧ done.length < v.size) := by
    rintro ⟨heq, hlt⟩
    have hget := (PtrVector.array_eq hcontents).mp ⟨hlt, heq.symm⟩
    rw [List.getElem?_append_right le_rfl] at hget
    exact hnot (List.mem_of_getElem? hget)
  simp only [vectorNext, hinside, if_neg hstay, Lib.ok_bind, Int.toNat_natCast]
  cases rest with
  | nil =>
    have hend : (done.length : Int) = v.size := by rw [hsize]; rfl
    rw [if_pos hend]
    rfl
  | cons data rest =>
    have hmore : ¬ (done.length : Int) = v.size := by
      rw [hsize, List.length_cons]
      omega
    have hdata : v.array done.length = some data :=
      ((PtrVector.array_eq hcontents).mpr (by simp)).2
    rw [if_neg hmore, hdata]
    rfl

/-- The element is where it was. -/
theorem vectorNext_kept (hcontents : v.contents = (done ++ cur :: rest).map some)
    (hle : v.size ≤ v.limit) (hint : done.length + 1 < 2 ^ 31) :
    vectorNext ⟨done.length, some cur⟩ v
      = .ok (rest.head?.map fun data => ⟨done.length + 1, some data⟩) := by
  have hsize : v.size = done.length + (rest.length + 1) := by
    rw [PtrVector.size_eq hcontents, List.length_append, List.length_cons]
  have hinside : Lib.inside (done.length : Int) v.limit = .ok () := Lib.inside_of_lt (by omega)
  have hstep : some cur = v.array done.length ∧ done.length < v.size :=
    ⟨((PtrVector.array_eq hcontents).mpr (by simp)).2.symm, by omega⟩
  have hnext : Lib.int ((done.length : Int) + 1) = .ok ((done.length + 1 : Nat) : Int) :=
    Lib.int_of_fits (by omega)
  simp only [vectorNext, hinside, if_pos hstep, hnext, Lib.ok_bind, Int.toNat_natCast]
  cases rest with
  | nil =>
    have hend : ((done.length + 1 : Nat) : Int) = v.size := by rw [hsize]; rfl
    rw [if_pos hend]
    rfl
  | cons data rest =>
    rw [List.length_cons] at hsize
    have hmore : ¬ ((done.length + 1 : Nat) : Int) = v.size := by omega
    have hinside' : Lib.inside ((done.length + 1 : Nat) : Int) v.limit = .ok () :=
      Lib.inside_of_lt (by omega)
    have hdata : v.array (done.length + 1) = some data :=
      ((PtrVector.array_eq hcontents).mpr (by simp)).2
    rw [if_neg hmore, hinside', hdata]
    rfl

namespace StandsAt

variable (h : StandsAt v done cur rest)

include h

omit [DecidableEq α] in
theorem index_lt : done.length < v.size := by
  rw [PtrVector.size_eq h.contents, List.length_append, List.length_cons]
  omega

omit [DecidableEq α] in
theorem cur_notMem : cur ∉ done ∧ cur ∉ rest := by
  have hdistinct := h.distinct
  rw [List.nodup_append] at hdistinct
  refine ⟨fun hmem => ?_, (List.nodup_cons.mp hdistinct.2.1).1⟩
  exact hdistinct.2.2 cur hmem cur List.mem_cons_self rfl

theorem remove_eq : v.removePtr (some cur) = v.removeAt done.length := by
  have hmem : cur ∈ done ++ cur :: rest := by simp
  rw [PtrVector.removePtr_some, PtrVector.remove_eq h.contents hmem,
    List.idxOf_append_of_notMem h.cur_notMem.1, List.idxOf_cons_self, Nat.add_zero]

omit [DecidableEq α] in
theorem removed : (v.closeUp done.length).contents = (done ++ rest).map some
    ∧ (v.closeUp done.length).size ≤ v.limit := by
  have hlt := h.index_lt
  have hle := h.le
  have hsmall := h.small
  constructor
  · rw [PtrVector.closeUp_contents h.contents hlt hle (by omega),
      List.eraseIdx_append_of_length_le le_rfl, Nat.sub_self, List.eraseIdx_cons_zero]
  · rw [PtrVector.closeUp_size hlt (by omega)]
    omega

/-- What one round does. -/
theorem round (hint : done.length + 1 < 2 ^ 31) (remove : Bool) :
    ∃ v', (if remove then v.removePtr (some cur) else .ok v) = .ok v'
      ∧ v'.limit = v.limit ∧ v'.size ≤ v.limit
      ∧ v'.contents = (staying remove done cur ++ rest).map some
      ∧ vectorNext ⟨done.length, some cur⟩ v'
        = .ok (rest.head?.map fun data => ⟨(staying remove done cur).length, some data⟩) := by
  have hlt := h.index_lt
  have hle := h.le
  cases remove with
  | true =>
    obtain ⟨hcontents, hsize⟩ := h.removed
    refine ⟨v.closeUp done.length, ?_, rfl, hsize, hcontents, ?_⟩
    · rw [if_pos rfl, h.remove_eq, PtrVector.removeAt_eq (by omega) hint]
    · exact vectorNext_removed hcontents h.cur_notMem.2 (Nat.lt_of_lt_of_le hlt hle)
  | false =>
    refine ⟨v, rfl, rfl, hle, ?_, ?_⟩
    · rw [h.contents, staying]
      simp
    · rw [vectorNext_kept h.contents hle hint, staying]
      simp

/-- A round that is gone through, with or without a removal, has had an `int` for its next place. -/
theorem round_int {remove : Bool} {v' : PtrVector α} {next : Option (VectorNode α)}
    (hbody : (if remove then v.removePtr (some cur) else .ok v) = .ok v')
    (hnext : vectorNext ⟨done.length, some cur⟩ v' = .ok next) : done.length + 1 < 2 ^ 31 := by
  have hlt := h.index_lt
  have hle := h.le
  cases remove with
  | true =>
    rw [if_pos rfl, h.remove_eq] at hbody
    exact (PtrVector.removeAt_ok (Nat.lt_of_lt_of_le hlt hle) hbody).1
  | false =>
    obtain rfl : v = v' := Except.ok.inj hbody
    by_contra hbig
    have hinside : Lib.inside (done.length : Int) v.limit = .ok () := Lib.inside_of_lt (by omega)
    have hint : Lib.int ((done.length : Int) + 1) = .error .overflow := Lib.int_of_big (by omega)
    have hstep : some cur = v.array done.length ∧ done.length < v.size :=
      ⟨((PtrVector.array_eq h.contents).mpr (by simp)).2.symm, hlt⟩
    simp only [vectorNext, hinside, if_pos hstep, hint, Lib.ok_bind, Lib.error_bind] at hnext
    cases hnext

omit [DecidableEq α] in
theorem next {v' : PtrVector α} {data : α} {rest' : List α} {remove : Bool}
    (hrest : rest = data :: rest') (hlimit : v'.limit = v.limit) (hsize : v'.size ≤ v.limit)
    (hcontents : v'.contents = (staying remove done cur ++ rest).map some) :
    StandsAt v' (staying remove done cur) data rest' := by
  subst hrest
  refine ⟨hcontents, ?_, hlimit ▸ hsize, hlimit ▸ h.small⟩
  have hsub : (staying remove done cur ++ data :: rest').Sublist (done ++ cur :: data :: rest') := by
    cases remove with
    | true => exact (List.Sublist.refl done).append (List.sublist_cons_self cur _)
    | false => exact List.append_cons done cur _ ▸ List.Sublist.refl _
  exact h.distinct.sublist hsub

omit h [DecidableEq α] in
theorem length_staying (removes : Nat → Bool) (round : Nat) (l : List α) :
    (staying (removes round) done cur).length + (kept removes (round + 1) l).length
      = done.length + (kept removes round (cur :: l)).length := by
  rw [staying, kept]
  split
  · rfl
  · simp only [List.length_append, List.length_cons, List.length_nil]
    omega

omit h [DecidableEq α] in
theorem staying_append (removes : Nat → Bool) (round : Nat) (l : List α) :
    staying (removes round) done cur ++ kept removes (round + 1) l
      = done ++ kept removes round (cur :: l) := by
  rw [staying, kept]
  split
  · rfl
  · exact (List.append_cons done cur _).symm

/-! ### All rounds -/

/-- The rest of the loop, with as many tests as there are elements, and one. -/
theorem run {removes : Nat → Bool} {round : Nat}
    (hint : done.length + (kept removes round (cur :: rest).dropLast).length + 1 < 2 ^ 31) :
    ∃ v', v'.contents = (done ++ kept removes round (cur :: rest)).map some
      ∧ ∀ more, rest.length + 1 < more →
        iterateFrom removes more round (some ⟨done.length, some cur⟩) v
          = .ok ((cur :: rest).map some, v') := by
  induction rest generalizing v done cur round with
  | nil =>
    obtain ⟨v', hbody, -, -, hcontents, hnext⟩ := h.round (by omega) (removes round)
    refine ⟨v', ?_, fun more hmore => ?_⟩
    · rw [hcontents, ← staying_append]
      rfl
    · obtain ⟨more, rfl⟩ : ∃ k, more = k + 2 := ⟨more - 2, by simp at hmore; omega⟩
      simp only [iterateFrom, hbody, hnext, Lib.ok_bind]
      rfl
  | cons data rest ih =>
    rw [List.dropLast_cons_cons] at hint
    have hlater : (staying (removes round) done cur).length
        + (kept removes (round + 1) (data :: rest).dropLast).length + 1 < 2 ^ 31 := by
      rw [length_staying]
      exact hint
    obtain ⟨v', hbody, hlimit, hsize, hcontents, hnext⟩ := h.round (by omega) (removes round)
    obtain ⟨v'', hcontents', hrun⟩ := ih (h.next rfl hlimit hsize hcontents) hlater
    refine ⟨v'', by rw [hcontents', staying_append], fun more hmore => ?_⟩
    obtain ⟨more, rfl⟩ : ∃ k, more = k + 1 := ⟨more - 1, by omega⟩
    rw [List.length_cons] at hmore
    simp only [iterateFrom, hbody, hnext, Lib.ok_bind, List.head?_cons, Option.map_some,
      hrun more (by omega)]
    rfl

/-- A loop that has ended has had an `int` at each element. -/
theorem int_of_run {removes : Nat → Bool} {more round : Nat} {r : List (Option α) × PtrVector α}
    (hrun : iterateFrom removes more round (some ⟨done.length, some cur⟩) v = .ok r) :
    done.length + (kept removes round (cur :: rest).dropLast).length + 1 < 2 ^ 31 := by
  induction rest generalizing v done cur round more r with
  | nil =>
    obtain ⟨_, _, _, _, hbody, hnext, -⟩ := iterateFrom_ok hrun
    exact h.round_int hbody hnext
  | cons data rest ih =>
    obtain ⟨more, v', next, r', hbody, hnext, hrest⟩ := iterateFrom_ok hrun
    obtain ⟨v'', hbody', hlimit, hsize, hcontents, hnext'⟩ :=
      h.round (h.round_int hbody hnext) (removes round)
    obtain rfl : v'' = v' := Except.ok.inj (hbody'.symm.trans hbody)
    obtain rfl := Except.ok.inj (hnext'.symm.trans hnext)
    have hlater := ih (h.next rfl hlimit hsize hcontents) hrest
    rw [length_staying] at hlater
    rw [List.dropLast_cons_cons]
    exact hlater

end StandsAt

end

/-! ## The result -/

section Result

variable {v : PtrVector α} {l : List α} (hcontents : v.contents = l.map some) (hdistinct : l.Nodup)
  (hle : v.size ≤ v.limit) (hsmall : v.limit < 2 ^ 32)

include hcontents

omit [DecidableEq α] in
theorem vectorHead_cons {data : α} {rest : List α} (hl : l = data :: rest) (hle : v.size ≤ v.limit) :
    vectorHead true v = .ok (some ⟨0, some data⟩) := by
  subst hl
  have hsize := PtrVector.size_eq hcontents
  rw [List.length_cons] at hsize
  have hin : Lib.inside 0 v.limit = .ok () := Lib.inside_of_lt (by omega)
  have hdata : v.array 0 = some data := ((PtrVector.array_eq hcontents).mpr (by simp)).2
  rw [vectorHead, if_neg (by omega), if_pos rfl, hin, hdata]
  rfl

omit [DecidableEq α] in
theorem vectorHead_none {granted : Bool} (h : l = [] ∨ granted = false) :
    vectorHead granted v = .ok none := by
  rw [vectorHead]
  split
  · rfl
  · next hsize =>
    rcases h with rfl | rfl
    · exact absurd (PtrVector.size_eq hcontents) hsize
    · rfl

include hdistinct hle hsmall

/-- What is left is what has been kept. -/
theorem iterate_kept {removes : Nat → Bool} (hne : l ≠ [])
    (hint : (kept removes 0 l.dropLast).length + 1 < 2 ^ 31) :
    ∃ v', v'.contents = (kept removes 0 l).map some
      ∧ ∀ more, l.length < more → iterate true removes more v = .ok (l.map some, v') := by
  obtain ⟨data, rest, rfl⟩ := List.exists_cons_of_ne_nil hne
  have hfirst : StandsAt v [] data rest := ⟨hcontents, hdistinct, hle, hsmall⟩
  obtain ⟨v', hkept, hrun⟩ := hfirst.run (by simpa using hint)
  refine ⟨v', hkept, fun more hmore => ?_⟩
  rw [iterate, vectorHead_cons hcontents rfl hle]
  exact hrun more hmore

theorem int_of_iterate {removes : Nat → Bool} {more : Nat} {r : List (Option α) × PtrVector α}
    (hne : l ≠ []) (hrun : iterate true removes more v = .ok r) :
    (kept removes 0 l.dropLast).length + 1 < 2 ^ 31 := by
  obtain ⟨data, rest, rfl⟩ := List.exists_cons_of_ne_nil hne
  have hfirst : StandsAt v [] data rest := ⟨hcontents, hdistinct, hle, hsmall⟩
  rw [iterate, vectorHead_cons hcontents rfl hle] at hrun
  simpa using hfirst.int_of_run hrun

/-- **Removing while iterating**: whichever elements the body removes, it sees all of them once, in
    order, and the loop ends, if and only if there are none, or there is memory for the node and a
    next `int` for the place of each. -/
theorem iterate_iff (granted : Bool) (removes : Nat → Bool) :
    (∃ more v', iterate granted removes more v = .ok (l.map some, v'))
      ↔ l = [] ∨ granted = true ∧ (kept removes 0 l.dropLast).length + 1 < 2 ^ 31 := by
  by_cases hnone : l = [] ∨ granted = false
  · -- the body is not run at all
    have hrun : ∀ more, iterate granted removes (more + 1) v = .ok ([], v) := by
      intro more
      rw [iterate, vectorHead_none hcontents hnone]
      rfl
    constructor
    · rintro ⟨more, v', hall⟩
      cases more with
      | zero =>
        rw [iterate, vectorHead_none hcontents hnone] at hall
        cases hall
      | succ more =>
        rw [hrun] at hall
        exact .inl (List.map_eq_nil_iff.mp (Prod.mk.inj (Except.ok.inj hall)).1.symm)
    · rintro (rfl | ⟨rfl, -⟩)
      · exact ⟨1, v, hrun 0⟩
      · obtain rfl := hnone.resolve_right (by decide)
        exact ⟨1, v, hrun 0⟩
  · obtain ⟨hne, hgranted⟩ := not_or.mp hnone
    obtain rfl : granted = true := Bool.eq_true_of_not_eq_false hgranted
    constructor
    · rintro ⟨more, v', hall⟩
      exact .inr ⟨rfl, int_of_iterate hcontents hdistinct hle hsmall hne hall⟩
    · rintro (hnil | ⟨-, hint⟩)
      · exact absurd hnil hne
      · obtain ⟨v', -, hrun⟩ := iterate_kept hcontents hdistinct hle hsmall hne hint
        exact ⟨l.length + 1, v', hrun _ (Nat.lt_succ_self _)⟩

end Result

theorem countingVector_contents (n : Nat) :
    (countingVector n).contents = (List.range n).map some := rfl

/-- The second of three elements is removed. -/
theorem iterate_three : ∃ more v', iterate true (fun round => round = 1) more (countingVector 3)
    = .ok ((List.range 3).map some, v') :=
  (iterate_iff (countingVector_contents 3) List.nodup_range le_rfl (by decide) true _).mpr
    (.inr ⟨rfl, by decide⟩)

omit [DecidableEq α] in
theorem kept_all (round : Nat) (l : List α) : kept (fun _ => false) round l = l := by
  induction l generalizing round with
  | nil => rfl
  | cons data rest ih => rw [kept, ih, if_neg Bool.false_ne_true]

/-- At the last of 2³¹ elements there is no next index. -/
theorem iterate_overflows : ¬ ∀ (v : PtrVector Nat) (l : List Nat), v.contents = l.map some →
    l.Nodup → v.size ≤ v.limit → v.limit < 2 ^ 32 → ∀ removes, ∃ more v',
      iterate true removes more v = .ok (l.map some, v') := by
  intro h
  obtain ⟨n, hn⟩ : ∃ n, n = 2 ^ 31 := ⟨_, rfl⟩
  have hlimit : (countingVector n).limit < 2 ^ 32 := by
    show n < 2 ^ 32
    omega
  have hne : List.range n ≠ [] := by
    rw [ne_eq, List.range_eq_nil]
    omega
  obtain ⟨more, v', hrun⟩ := h (countingVector n) (List.range n) (countingVector_contents n)
    List.nodup_range le_rfl hlimit fun _ => false
  have hint := int_of_iterate (countingVector_contents n) List.nodup_range le_rfl hlimit hne hrun
  rw [kept_all, List.length_dropLast, List.length_range] at hint
  omega

end SdPlane
