import SdPlane.FibLpm
import SdPlane.Lib.Oracle

/-!
# Adding to the FIB when memory runs out (`fib.c`)

The main results:

* `kept_of_failure`: a call of `_add` that reports failure has lost nothing;
* `reported_iff`: `AddReported` says which calls report every allocation that fails;
* `addFaithful_iff`: the two together for `fib_route_add`, over any tree built by it.

`_add` is a computation that asks for memory (`asks_add`, `SdPlane/Lib/Oracle.lean`), so a
call that is refused nothing does what a call with memory does, and `add_spec` says what that
is. What is left is who writes `*success` last. A call that creates a path of nodes stops at
the first that is refused. One that hands a prefix down to everything below a node leaves the
word to the last place it visits. Case 2 has it itself, and always says that all is well.
-/

set_option autoImplicit false

namespace SdPlane.Fib

/-! ## What a call does -/

section AddAt

variable {down : FibNode → IpAddr → Nat → Int → Acc → FibNode × Acc} {existed leaf : Bool}
  {nKey : IpAddr} {nKeylen : Nat} {nNhId : Int} {child : Fin BRANCH_SZ → FibNode}
  {key : IpAddr} {keylen : Nat} {nhId : Int} {curPlen : Nat} {acc : Acc}

/-- What case 2 does to a child: a copy of the leaf that is split, and the new prefix where it
    reaches. -/
def spread (down : FibNode → IpAddr → Nat → Int → Acc → FibNode × Acc) (nKey : IpAddr)
    (nKeylen : Nat) (nNhId : Int) (key : IpAddr) (nhId : Int) (leaf : Bool)
    (keylen curPlen : Nat) (i : Fin BRANCH_SZ) (c : FibNode) (acc : Acc) : FibNode × Acc :=
  let copy := if leaf then down c nKey nKeylen nNhId acc else (c, acc)
  if inRange key keylen curPlen i then down copy.1 key keylen nhId copy.2 else copy

/-- Case 1 at an inner node: the prefix goes on to every child. -/
theorem addAt_push (hle : keylen ≤ curPlen) :
    addAt down true false nKey nKeylen nNhId child key keylen nhId curPlen acc =
      let r := forBranches (fun _ c acc => down c key keylen nhId acc) child acc
      (.node false nKey nKeylen nNhId r.1, r.2) := by
  simp [addAt, hle]

/-- Case 1 at a leaf: the longer of the two prefixes stays. -/
theorem addAt_leaf (hle : keylen ≤ curPlen) :
    addAt down existed true nKey nKeylen nNhId child key keylen nhId curPlen acc =
      (if keylen > nKeylen then .node true key keylen nhId child
        else .node true nKey nKeylen nNhId child, { acc with success := 0 }) := by
  by_cases h : keylen > nKeylen <;> simp [addAt, hle, h]

/-- Case 1 at a node just created. -/
theorem addAt_new (hle : keylen ≤ curPlen) :
    addAt down false false nKey nKeylen nNhId child key keylen nhId curPlen acc =
      (.node true key keylen nhId child, { acc with success := 0 }) := by
  simp [addAt, hle]

/-- Case 2. Success is reported whatever has happened to the children. -/
theorem addAt_spread (hlt : curPlen < keylen) (h : keylen < curPlen + K ∨ leaf = true) :
    addAt down existed leaf nKey nKeylen nNhId child key keylen nhId curPlen acc =
      let r := forBranches (spread down nKey nKeylen nNhId key nhId leaf keylen curPlen) child acc
      (.node false nKey 0 nNhId r.1, { r.2 with success := 0 }) := by
  rw [addAt, if_neg (by omega), if_pos (by simpa using h)]
  rfl

/-- Case 3. -/
theorem addAt_down (h : curPlen + K ≤ keylen) :
    addAt down existed false nKey nKeylen nNhId child key keylen nhId curPlen acc =
      let r := down (child (childIndex key curPlen)) key keylen nhId acc
      (.node false nKey nKeylen nNhId (Function.update child (childIndex key curPlen) r.1),
        r.2) := by
  have hlt : ¬ keylen ≤ curPlen := by unfold K at h; omega
  have hshort : ¬ keylen < curPlen + K := by omega
  simp [addAt, hlt, hshort]

end AddAt

/-- The recursive call of `_add`. -/
abbrev addDown (malloc : Nat → Bool) (fuel curPlen : Nat) (c : FibNode) (key : IpAddr)
    (keylen : Nat) (nhId : Int) (acc : Acc) : FibNode × Acc :=
  add malloc fuel c key keylen nhId (curPlen + K) acc

/-- `_add` at a place that is still empty: a node is asked for first. -/
theorem add_null (malloc : Nat → Bool) (fuel : Nat) (key : IpAddr) (keylen : Nat) (nhId : Int)
    (curPlen : Nat) (acc : Acc) :
    add malloc (fuel + 1) .null key keylen nhId curPlen acc =
      if malloc acc.mallocs then
        addAt (addDown malloc fuel curPlen) false false .zero 0 0 (fun _ => .null) key keylen nhId
          curPlen { acc with mallocs := acc.mallocs + 1 }
      else (.null, ⟨acc.mallocs + 1, -1⟩) := by
  rw [add, createFibNode]
  cases malloc acc.mallocs <;> simp

theorem add_node (malloc : Nat → Bool) (fuel : Nat) (leaf : Bool) (nKey : IpAddr)
    (nKeylen : Nat) (nNhId : Int) (child : Fin BRANCH_SZ → FibNode) (key : IpAddr)
    (keylen : Nat) (nhId : Int) (curPlen : Nat) (acc : Acc) :
    add malloc (fuel + 1) (.node leaf nKey nKeylen nNhId child) key keylen nhId curPlen acc =
      addAt (addDown malloc fuel curPlen) true leaf nKey nKeylen nNhId child key keylen nhId
        curPlen acc := rfl

/-! ## What `_add` asks for -/

theorem asks_forBranches
    {f : (Nat → Bool) → Fin BRANCH_SZ → FibNode → Acc → FibNode × Acc}
    (hf : ∀ i c, Lib.Asks Acc.mallocs fun malloc acc => f malloc i c acc)
    (child : Fin BRANCH_SZ → FibNode) :
    Lib.Asks Acc.mallocs fun malloc acc => forBranches (f malloc) child acc :=
  (hf 0 _).bind fun c₀ => (hf 1 _).bind fun c₁ => (hf 2 _).bind fun c₂ =>
    (hf 3 _).map fun c₃ => ![c₀, c₁, c₂, c₃]

/-- What is done without a question, and reports success. -/
theorem asks_done (n : FibNode) :
    Lib.Asks Acc.mallocs fun _ acc => (n, { acc with success := 0 }) :=
  .silent (g := fun acc : Acc => (n, { acc with success := 0 })) fun _ => rfl

theorem asks_addAt
    {down : (Nat → Bool) → FibNode → IpAddr → Nat → Int → Acc → FibNode × Acc}
    (hdown : ∀ c key keylen nhId,
      Lib.Asks Acc.mallocs fun malloc acc => down malloc c key keylen nhId acc)
    (existed leaf : Bool) (nKey : IpAddr) (nKeylen : Nat) (nNhId : Int)
    (child : Fin BRANCH_SZ → FibNode) (key : IpAddr) (keylen : Nat) (nhId : Int)
    (curPlen : Nat) :
    Lib.Asks Acc.mallocs fun malloc acc =>
      addAt (down malloc) existed leaf nKey nKeylen nNhId child key keylen nhId curPlen acc := by
  unfold addAt
  refine .ite (.ite ?_ (.ite (.ite (asks_done _) (asks_done _)) (asks_done _))) (.ite ?_ ?_)
  · exact (asks_forBranches (fun _ c => hdown c key keylen nhId) child).map
      fun child => FibNode.node leaf nKey nKeylen nNhId child
  · refine ((asks_forBranches (f := fun malloc =>
        spread (down malloc) nKey nKeylen nNhId key nhId leaf keylen curPlen)
      (fun i c => ?_) child).map fun child => FibNode.node false nKey 0 nNhId child).andThen
        (g := fun acc => { acc with success := 0 }) fun _ => rfl
    exact Lib.Asks.bind (f := fun malloc acc =>
        if leaf then down malloc c nKey nKeylen nNhId acc else (c, acc))
      (g := fun c malloc acc =>
        if inRange key keylen curPlen i then down malloc c key keylen nhId acc else (c, acc))
      (.ite (hdown _ _ _ _) (.pure _)) fun c => .ite (hdown _ _ _ _) (.pure _)
  · exact (hdown _ _ _ _).map fun c =>
      FibNode.node leaf nKey nKeylen nNhId (Function.update child _ c)

/-- `_add` asks for memory, and for nothing else that may be refused. -/
theorem asks_add (fuel : Nat) : ∀ (n : FibNode) (key : IpAddr) (keylen : Nat) (nhId : Int)
    (curPlen : Nat),
    Lib.Asks Acc.mallocs fun malloc acc => add malloc fuel n key keylen nhId curPlen acc := by
  induction fuel with
  | zero => intro n key keylen nhId curPlen; exact .pure n
  | succ fuel ih =>
    intro n key keylen nhId curPlen
    have hdown := fun c key keylen nhId => ih c key keylen nhId (curPlen + K)
    cases n with
    | null =>
      simp only [add_null]
      refine Lib.Asks.bind (f := fun malloc acc =>
          (malloc acc.mallocs, { acc with mallocs := acc.mallocs + 1 }))
        (g := fun given malloc acc => if given then
            addAt (addDown malloc fuel curPlen) false false .zero 0 0 (fun _ => .null) key keylen
              nhId curPlen acc
          else (.null, ⟨acc.mallocs, -1⟩))
        (.ask fun _ => rfl) fun given => .ite ?_ (.silent fun _ => rfl)
      exact asks_addAt hdown ..
    | node leaf nKey nKeylen nNhId child => exact asks_addAt hdown ..

/-! ## The shape of the tree -/

theorem wf_forBranches {f : Fin BRANCH_SZ → FibNode → Acc → FibNode × Acc}
    {child : Fin BRANCH_SZ → FibNode} {depth : Nat}
    (hf : ∀ i c acc, WF c depth → WF (f i c acc).1 depth) (h : ∀ i, WF (child i) depth)
    (acc : Acc) (i : Fin BRANCH_SZ) : WF ((forBranches f child acc).1 i) depth := by
  obtain ⟨acc', hi⟩ := forBranches_child f child acc i
  rw [hi]
  exact hf i _ _ (h i)

theorem wf_addAt {down : FibNode → IpAddr → Nat → Int → Acc → FibNode × Acc} {curPlen : Nat}
    (hdown : ∀ c key keylen nhId acc, WF c (curPlen + K) →
      WF (down c key keylen nhId acc).1 (curPlen + K))
    {existed leaf : Bool} {nKey : IpAddr} {nKeylen : Nat} {nNhId : Int}
    {child : Fin BRANCH_SZ → FibNode} (key : IpAddr) (keylen : Nat) (nhId : Int) (acc : Acc)
    (hwf : WF (.node leaf nKey nKeylen nNhId child) curPlen)
    (hnew : existed = false → ∀ i, child i = .null) :
    WF (addAt down existed leaf nKey nKeylen nNhId child key keylen nhId curPlen acc).1
      curPlen := by
  by_cases hle : keylen ≤ curPlen
  · cases leaf with
    | true =>
      rw [addAt_leaf hle]
      dsimp only
      split
      · exact ⟨fun _ => ⟨hle, (hwf.1 rfl).2⟩, hwf.2⟩
      · exact hwf
    | false =>
      cases existed with
      | true =>
        rw [addAt_push hle]
        exact ⟨Bool.noConfusion,
          wf_forBranches (fun _ c acc => hdown c key keylen nhId acc) hwf.2 acc⟩
      | false =>
        rw [addAt_new hle]
        exact ⟨fun _ => ⟨hle, hnew rfl⟩, hwf.2⟩
  · by_cases hspread : keylen < curPlen + K ∨ leaf = true
    · rw [addAt_spread (by omega) hspread]
      refine ⟨Bool.noConfusion, wf_forBranches (fun i c acc hc => ?_) hwf.2 acc⟩
      have hcopy : WF (if leaf then down c nKey nKeylen nNhId acc else (c, acc)).1
          (curPlen + K) := by
        split
        · exact hdown _ _ _ _ _ hc
        · exact hc
      rw [spread]
      split
      · exact hdown _ _ _ _ _ hcopy
      · exact hcopy
    · obtain ⟨hlong, hleaf⟩ := not_or.mp hspread
      obtain rfl : leaf = false := by simpa using hleaf
      rw [addAt_down (by omega)]
      refine ⟨Bool.noConfusion, fun i => ?_⟩
      by_cases hi : i = childIndex key curPlen
      · subst hi
        simpa using hdown _ _ _ _ _ (hwf.2 _)
      · simpa [Function.update_of_ne hi] using hwf.2 i

/-- `_add` keeps the shape of the tree, whatever memory there is. -/
theorem wf_add (malloc : Nat → Bool) (fuel : Nat) : ∀ (n : FibNode) (key : IpAddr)
    (keylen : Nat) (nhId : Int) (curPlen : Nat) (acc : Acc), WF n curPlen →
    WF (add malloc fuel n key keylen nhId curPlen acc).1 curPlen := by
  induction fuel with
  | zero => intro n key keylen nhId curPlen acc h; exact h
  | succ fuel ih =>
    intro n key keylen nhId curPlen acc h
    cases n with
    | null =>
      rw [add_null]
      split
      · exact wf_addAt (fun c _ _ _ _ hc => ih c _ _ _ _ _ hc) key keylen nhId _
          ⟨Bool.noConfusion, fun _ => trivial⟩ fun _ _ => rfl
      · trivial
    | node leaf nKey nKeylen nNhId child =>
      exact wf_addAt (fun c _ _ _ _ hc => ih c _ _ _ _ _ hc) key keylen nhId acc h
        Bool.noConfusion

/-- Every tree built by adding routes has it. -/
theorem wf_fibRouteAddAll (malloc : Nat → Bool) (rs : List FibRoute) : ∀ s : FibTree × Nat,
    WF s.1.root 0 → WF (fibRouteAddAll malloc s rs).1.root 0 := by
  induction rs with
  | nil => intro s h; exact h
  | cons r rs ih =>
    intro s h
    exact ih _ (wf_add malloc _ _ r.key r.keylen r.sdplaneNhId 0 ⟨s.2, 0⟩ h)

/-! ## What a failed call leaves behind -/

/-- What a lookup answers once the route is in. -/
def answerWith (n : FibNode) (key : IpAddr) (keylen : Nat) (nhId : Int) (curPlen : Nat)
    (k : IpAddr) : Option (Nat × Int) :=
  if Agree key k curPlen keylen ∧ ∀ e ∈ look n k curPlen, e.1 < keylen then some (keylen, nhId)
  else look n k curPlen

/-- Every answer is the one before the call, or the one after a call that succeeds. -/
def Kept (n n' : FibNode) (key : IpAddr) (keylen : Nat) (nhId : Int) (curPlen : Nat) : Prop :=
  ∀ k, look n' k curPlen = look n k curPlen
    ∨ look n' k curPlen = answerWith n key keylen nhId curPlen k

/-- Where nothing can be found yet, a call that reports failure leaves nothing to be found. -/
theorem look_null_of_failure (malloc : Nat → Bool) (fuel : Nat) : ∀ (key : IpAddr)
    (keylen : Nat) (nhId : Int) (curPlen : Nat) (acc : Acc), keylen - curPlen < fuel →
    (add malloc fuel .null key keylen nhId curPlen acc).2.success ≠ 0 →
    ∀ k, look (add malloc fuel .null key keylen nhId curPlen acc).1 k curPlen = none := by
  induction fuel with
  | zero => intro key keylen nhId curPlen acc hfuel; omega
  | succ fuel ih =>
    intro key keylen nhId curPlen acc hfuel
    rw [add_null]
    split
    · by_cases hle : keylen ≤ curPlen
      · simp [addAt_new hle]
      · by_cases hshort : keylen < curPlen + K
        · rw [addAt_spread (not_le.mp hle) (Or.inl hshort)]
          intro hfail
          exact absurd rfl hfail
        · rw [addAt_down (not_lt.mp hshort)]
          intro hfail k
          rw [look_inner]
          by_cases hi : childIndex k curPlen = childIndex key curPlen
          · rw [hi, Function.update_self]
            exact ih _ _ _ _ _ (by unfold K; omega) hfail k
          · rw [Function.update_of_ne hi, look_null]
    · simp

/-- Handing a prefix down to everything below a node puts it into some of the empty places
    and on top of the shorter leaves. -/
theorem kept_push (malloc : Nat → Bool) (fuel : Nat) : ∀ (n : FibNode) (key : IpAddr)
    (keylen : Nat) (nhId : Int) (curPlen : Nat) (acc : Acc), WF n curPlen → n.height < fuel →
    keylen ≤ curPlen →
    Kept n (add malloc fuel n key keylen nhId curPlen acc).1 key keylen nhId curPlen := by
  induction fuel with
  | zero => intro n key keylen nhId curPlen acc _ hfuel; omega
  | succ fuel ih =>
    intro n key keylen nhId curPlen acc hwf hfuel hle k
    have hagree : Agree key k curPlen keylen := agree_of_le key k hle
    have hle' : keylen ≤ curPlen + K := hle.trans (Nat.le_add_right _ _)
    cases n with
    | null =>
      rw [add_null]
      split
      · right
        rw [addAt_new hle, answerWith, look_leaf _ _ _ fun _ => rfl]
        simp [hagree]
      · left; rfl
    | node leaf nKey nKeylen nNhId child =>
      rw [add_node]
      cases leaf with
      | true =>
        right
        have hnull := (hwf.1 rfl).2
        rw [addAt_leaf hle, answerWith, look_leaf _ _ _ hnull]
        by_cases hlonger : keylen > nKeylen
        · rw [if_pos hlonger, if_pos ⟨hagree, by simpa using hlonger⟩, look_leaf _ _ _ hnull]
        · rw [if_neg hlonger, if_neg (by simpa using fun _ => not_lt.mp hlonger),
            look_leaf _ _ _ hnull]
      | false =>
        rw [addAt_push hle, answerWith, look_inner, look_inner]
        obtain ⟨acc', hi⟩ := forBranches_child (fun _ c acc =>
          addDown malloc fuel curPlen c key keylen nhId acc) child acc (childIndex k curPlen)
        rw [hi]
        have hh := height_child false nKey nKeylen nNhId child (childIndex k curPlen)
        have hkept := ih (child (childIndex k curPlen)) key keylen nhId (curPlen + K) acc'
          (hwf.2 _) (by omega) hle' k
        simpa only [answerWith, hagree, agree_of_le key k hle', true_and] using hkept

/-- **A call that reports failure has lost nothing.** -/
theorem kept_of_failure (malloc : Nat → Bool) (fuel : Nat) : ∀ (n : FibNode) (key : IpAddr)
    (keylen : Nat) (nhId : Int) (curPlen : Nat) (acc : Acc), WF n curPlen → curPlen % 2 = 0 →
    n.height + (keylen - curPlen) < fuel →
    (add malloc fuel n key keylen nhId curPlen acc).2.success ≠ 0 →
    Kept n (add malloc fuel n key keylen nhId curPlen acc).1 key keylen nhId curPlen := by
  induction fuel with
  | zero => intro n key keylen nhId curPlen acc _ _ hfuel; omega
  | succ fuel ih =>
    intro n key keylen nhId curPlen acc hwf heven hfuel hfail
    by_cases hle : keylen ≤ curPlen
    · exact kept_push malloc _ n key keylen nhId curPlen acc hwf (by omega) hle
    cases n with
    | null =>
      intro k
      left
      exact look_null_of_failure malloc _ key keylen nhId curPlen acc
        (by simp only [FibNode.height] at hfuel; omega) hfail k
    | node leaf nKey nKeylen nNhId child =>
      rw [add_node] at hfail ⊢
      by_cases hspread : keylen < curPlen + K ∨ leaf = true
      · -- the split reports success
        rw [addAt_spread (not_le.mp hle) hspread] at hfail
        exact absurd rfl hfail
      · obtain ⟨hlong, hleaf⟩ := not_or.mp hspread
        obtain rfl : leaf = false := by simpa using hleaf
        rw [addAt_down (not_lt.mp hlong)] at hfail ⊢
        have hh := height_child false nKey nKeylen nNhId child (childIndex key curPlen)
        have hkept := ih (child (childIndex key curPlen)) key keylen nhId (curPlen + K) acc
          (hwf.2 _) (by unfold K; omega) (by unfold K; omega) hfail
        intro k
        rw [answerWith, look_inner, look_inner]
        by_cases hi : childIndex k curPlen = childIndex key curPlen
        · rw [hi, Function.update_self]
          have hr := (inRange_long (not_lt.mp hlong) (childIndex k curPlen)).mpr hi
          simpa only [answerWith, agree_iff heven (not_le.mp hle), hr, true_and] using hkept k
        · left
          rw [Function.update_of_ne hi]

/-! ## How much a call asks for -/

/-- The empty places below `n` that a prefix handed down to all of them fills. -/
def emptyPlaces : FibNode → Nat
  | .null => 1
  | .node leaf _ _ _ child => if leaf then 0 else ∑ i, emptyPlaces (child i)

/-- The last place below `n`, in the order in which they are visited, is empty. -/
def lastEmpty : FibNode → Bool
  | .null => true
  | .node leaf _ _ _ child => !leaf && lastEmpty (child 3)

/-- A loop over the children adds up what the rounds ask for. -/
theorem forBranches_mallocs {f : Fin BRANCH_SZ → FibNode → Acc → FibNode × Acc}
    (child : Fin BRANCH_SZ → FibNode) (w : Fin BRANCH_SZ → Nat)
    (hf : ∀ i acc, (f i (child i) acc).2.mallocs = acc.mallocs + w i) (acc : Acc) :
    (forBranches f child acc).2.mallocs = acc.mallocs + ∑ i, w i := by
  have hlast : (forBranches f child acc).2
      = (f 3 (child 3) (f 2 (child 2) (f 1 (child 1) (f 0 (child 0) acc).2).2).2).2 := rfl
  rw [hlast, hf, hf, hf, hf, Fin.sum_univ_four]
  omega

/-- Where every round reports success or failure, the last one decides. -/
theorem forBranches_success_eq {f : Fin BRANCH_SZ → FibNode → Acc → FibNode × Acc}
    (child : Fin BRANCH_SZ → FibNode) (res : Nat → Int)
    (hres : ∀ acc, (f 3 (child 3) acc).2.success = res (f 3 (child 3) acc).2.mallocs)
    (acc : Acc) :
    (forBranches f child acc).2.success = res (forBranches f child acc).2.mallocs := hres _

/-- A prefix handed down to all places asks for a node at each that is empty, and the last
    place alone decides about success. -/
theorem push_acc (malloc : Nat → Bool) (fuel : Nat) : ∀ (n : FibNode) (key : IpAddr)
    (keylen : Nat) (nhId : Int) (curPlen : Nat) (acc : Acc), n.height < fuel →
    keylen ≤ curPlen →
    (add malloc fuel n key keylen nhId curPlen acc).2 = ⟨acc.mallocs + emptyPlaces n,
      if lastEmpty n && !malloc (acc.mallocs + emptyPlaces n - 1) then -1 else 0⟩ := by
  induction fuel with
  | zero => intro n key keylen nhId curPlen acc hfuel; omega
  | succ fuel ih =>
    intro n key keylen nhId curPlen acc hfuel hle
    cases n with
    | null =>
      rw [add_null]
      cases hgiven : malloc acc.mallocs with
      | true => simp [addAt_new hle, emptyPlaces, lastEmpty, hgiven]
      | false => simp [emptyPlaces, lastEmpty, hgiven]
    | node leaf nKey nKeylen nNhId child =>
      rw [add_node]
      cases leaf with
      | true => rw [addAt_leaf hle]; simp [emptyPlaces, lastEmpty]
      | false =>
        rw [addAt_push hle]
        have hchild : ∀ i acc, (addDown malloc fuel curPlen (child i) key keylen nhId acc).2
            = ⟨acc.mallocs + emptyPlaces (child i), if lastEmpty (child i) &&
                !malloc (acc.mallocs + emptyPlaces (child i) - 1) then -1 else 0⟩ := by
          intro i acc
          have hh := height_child false nKey nKeylen nNhId child i
          exact ih _ _ _ _ _ _ (by omega) (hle.trans (Nat.le_add_right _ _))
        let f (_ : Fin BRANCH_SZ) (c : FibNode) := addDown malloc fuel curPlen c key keylen nhId
        have hcount := forBranches_mallocs (f := f) child (fun i => emptyPlaces (child i))
          (fun i acc => congrArg Acc.mallocs (hchild i acc)) acc
        have hlast := forBranches_success_eq (f := f) child
          (fun m => if lastEmpty (child 3) && !malloc (m - 1) then -1 else 0)
          (fun acc => by simp only [f, hchild]) acc
        rw [hcount] at hlast
        refine (congrArg₂ Acc.mk hcount hlast).trans ?_
        simp [emptyPlaces, lastEmpty]

/-- A prefix reaches one child, or two when it ends within the stride. -/
theorem sum_inRange (key : IpAddr) {keylen curPlen : Nat} (hlt : curPlen < keylen) (x : Nat) :
    (∑ i : Fin BRANCH_SZ, if inRange key keylen curPlen i then x else 0)
      = if keylen = curPlen + 1 then 2 * x else x := by
  by_cases hshort : keylen = curPlen + 1
  · have hbase : bitIndex key curPlen 1 < 2 := bitIndex_lt key curPlen 1
    have hin : ∀ i : Nat, inRange key keylen curPlen i
        = (decide (2 * bitIndex key curPlen 1 ≤ i)
          && decide (i < 2 * bitIndex key curPlen 1 + 2)) := by
      intro i
      rw [inRange, hshort]
      simp [Nat.shiftLeft_eq, Nat.mul_comm]
    rw [if_pos hshort, Fin.sum_univ_four]
    simp only [hin]
    obtain h | h : bitIndex key curPlen 1 = 0 ∨ bitIndex key curPlen 1 = 1 := by omega
    · simp [h, BRANCH_SZ]; omega
    · simp [h, BRANCH_SZ]; omega
  · rw [if_neg hshort, Finset.sum_eq_single (childIndex key curPlen)]
    · rw [if_pos ((inRange_long (by unfold K; omega) _).mpr rfl)]
    · intro i _ hi
      rw [if_neg fun h => hi ((inRange_long (by unfold K; omega) i).mp h)]
    · simp

/-- Case 2 at an inner node asks for the empty places below the children in range. -/
theorem spread_inner_mallocs (malloc : Nat → Bool) {fuel : Nat} (nKey : IpAddr) (nKeylen : Nat)
    (nNhId : Int) (key : IpAddr) (nhId : Int) {keylen curPlen : Nat} (i : Fin BRANCH_SZ)
    {c : FibNode} (acc : Acc) (hfuel : c.height < fuel) (hle : keylen ≤ curPlen + K) :
    (spread (addDown malloc fuel curPlen) nKey nKeylen nNhId key nhId false keylen curPlen i c
        acc).2.mallocs
      = acc.mallocs + if inRange key keylen curPlen i then emptyPlaces c else 0 := by
  simp only [spread, Bool.false_eq_true, if_false]
  split
  · rw [push_acc malloc fuel c key keylen nhId _ acc hfuel hle]
  · rfl

/-- Splitting a leaf asks for four copies on every level down to the end of the new prefix. -/
theorem split_mallocs (fuel : Nat) : ∀ (nKey : IpAddr) (nKeylen : Nat) (nNhId : Int)
    (key : IpAddr) (keylen : Nat) (nhId : Int) (curPlen : Nat) (acc : Acc), nKeylen ≤ curPlen →
    keylen - curPlen + 1 < fuel →
    (add mallocOk fuel (.node true nKey nKeylen nNhId fun _ => .null) key keylen nhId curPlen
      acc).2.mallocs = acc.mallocs + 4 * ((keylen - curPlen + 1) / 2) := by
  induction fuel with
  | zero => intro nKey nKeylen nNhId key keylen nhId curPlen acc _ hfuel; omega
  | succ fuel ih =>
    intro nKey nKeylen nNhId key keylen nhId curPlen acc hn hfuel
    rw [add_node]
    by_cases hle : keylen ≤ curPlen
    · have hnone : (keylen - curPlen + 1) / 2 = 0 := by omega
      rw [addAt_leaf hle, hnone]
      simp
    have hlt : curPlen < keylen := not_le.mp hle
    rw [addAt_spread (hlt) (Or.inr rfl)]
    have hn' : nKeylen ≤ curPlen + K := hn.trans (Nat.le_add_right _ _)
    obtain ⟨fuel, rfl⟩ : ∃ f, fuel = f + 1 := ⟨fuel - 1, by omega⟩
    have hcopy : ∀ acc, addDown mallocOk (fuel + 1) curPlen .null nKey nKeylen nNhId acc
        = (.node true nKey nKeylen nNhId fun _ => .null, ⟨acc.mallocs + 1, 0⟩) := by
      intro acc
      rw [addDown, add_null, if_pos rfl, addAt_new hn']
    have hround : ∀ i acc, (spread (addDown mallocOk (fuel + 1) curPlen) nKey nKeylen nNhId key
        nhId true keylen curPlen i .null acc).2.mallocs = acc.mallocs
          + (1 + if inRange key keylen curPlen i then 4 * ((keylen - (curPlen + K) + 1) / 2)
              else 0) := by
      intro i acc
      simp only [spread, if_true, hcopy]
      split
      · rw [addDown, ih _ _ _ _ _ _ _ _ hn' (by unfold K; omega)]
        simp only []
        omega
      · rfl
    have hcount := forBranches_mallocs _ _ hround acc
    have hfour : ∑ _i : Fin BRANCH_SZ, 1 = 4 := by simp
    rw [Finset.sum_add_distrib, sum_inRange key hlt, hfour] at hcount
    refine hcount.trans ?_
    unfold K
    split <;> omega

/-! ## When a failure is reported -/

/-- The calls of `_add` that report every allocation that fails, `m` being the number of the
    first one. -/
def AddReported (malloc : Nat → Bool) (key : IpAddr) (keylen : Nat) :
    FibNode → Nat → Nat → Prop
  | .null, curPlen, m =>
    -- one node for every two bits, and at the end of an odd rest two leaves next to each other
    (keylen - curPlen) % 2 = 0 ∨ (∃ j ≤ (keylen - curPlen) / 2, malloc (m + j) = false)
      ∨ Lib.Granted malloc (m + (keylen - curPlen) / 2 + 1) (m + (keylen - curPlen) / 2 + 3)
  | .node true _ _ _ _, curPlen, m =>
    -- the copies of a leaf that is split, on every level
    Lib.Granted malloc m (m + 4 * ((keylen - curPlen + 1) / 2))
  | .node false _ _ _ child, curPlen, m =>
    if keylen ≤ curPlen then
      let places := ∑ i : Fin BRANCH_SZ, emptyPlaces (child i)
      Lib.Granted malloc m (m + places)
        ∨ (lastEmpty (child 3) = true ∧ malloc (m + places - 1) = false)
    else if keylen < curPlen + K then
      Lib.Granted malloc m
        (m + ∑ i : Fin BRANCH_SZ,
          if inRange key keylen curPlen i then emptyPlaces (child i) else 0)
    else AddReported malloc key keylen (child (childIndex key curPlen)) (curPlen + K) m

/-- What the property asks of the report. -/
def Reported (malloc : Nat → Bool) (m : Nat) (acc : Acc) : Prop :=
  ¬ Lib.Granted malloc m acc.mallocs → acc.success ≠ 0

theorem reported_of_success {malloc : Nat → Bool} {m m' : Nat} :
    Reported malloc m ⟨m', 0⟩ ↔ Lib.Granted malloc m m' := by
  simp [Reported]

theorem reported_of_failure {malloc : Nat → Bool} {m m' : Nat} :
    Reported malloc m ⟨m', -1⟩ := by
  simp [Reported]

theorem reported_succ_iff {malloc : Nat → Bool} {m : Nat} {acc : Acc} (h : malloc m = true) :
    Reported malloc m acc ↔ Reported malloc (m + 1) acc := by
  rw [Reported, Lib.granted_succ_iff h, Reported]

/-- A refusal among the next `h + 1` questions comes after the first, if that is granted. -/
theorem refused_succ_iff {malloc : Nat → Bool} {m h : Nat} (hgiven : malloc m = true) :
    (∃ j ≤ h + 1, malloc (m + j) = false) ↔ ∃ j ≤ h, malloc (m + 1 + j) = false := by
  constructor
  · rintro ⟨j, hj, hfail⟩
    cases j with
    | zero => simp [hgiven] at hfail
    | succ j => exact ⟨j, by omega, by rwa [Nat.add_right_comm]⟩
  · rintro ⟨j, hj, hfail⟩
    exact ⟨j + 1, by omega, by rwa [← Nat.add_assoc, Nat.add_right_comm]⟩

/-- At an empty place. -/
theorem reported_null (malloc : Nat → Bool) (fuel : Nat) : ∀ (key : IpAddr) (keylen : Nat)
    (nhId : Int) (curPlen : Nat) (acc : Acc), keylen - curPlen < fuel →
    (Reported malloc acc.mallocs (add malloc fuel .null key keylen nhId curPlen acc).2
      ↔ AddReported malloc key keylen .null curPlen acc.mallocs) := by
  induction fuel with
  | zero => intro key keylen nhId curPlen acc hfuel; omega
  | succ fuel ih =>
    intro key keylen nhId curPlen acc hfuel
    rw [add_null]
    cases hgiven : malloc acc.mallocs with
    | false =>
      simp only [Bool.false_eq_true, if_false, AddReported]
      exact iff_of_true reported_of_failure (Or.inr (Or.inl ⟨0, Nat.zero_le _, hgiven⟩))
    | true =>
      rw [if_pos rfl, reported_succ_iff hgiven]
      by_cases hle : keylen ≤ curPlen
      · have hzero : keylen - curPlen = 0 := by omega
        rw [addAt_new hle, AddReported, hzero]
        exact iff_of_true (reported_of_success.mpr (Lib.granted_self _ _)) (Or.inl rfl)
      by_cases hshort : keylen < curPlen + K
      · have hone : keylen = curPlen + 1 := by unfold K at hshort; omega
        have hrest : keylen - curPlen = 1 := by omega
        have hheight : FibNode.null.height < fuel := by simp only [FibNode.height]; omega
        rw [addAt_spread (not_le.mp hle) (Or.inl hshort)]
        have hcount := forBranches_mallocs (fun _ => .null) _ (fun i acc =>
          spread_inner_mallocs malloc .zero 0 0 key nhId i acc hheight hshort.le)
          { acc with mallocs := acc.mallocs + 1 }
        rw [sum_inRange key (not_le.mp hle), if_pos hone] at hcount
        simp only [hcount, reported_of_success, AddReported, hrest, emptyPlaces]
        simp [hgiven]
      · rw [addAt_down (not_lt.mp hshort)]
        have hlong : curPlen + K ≤ keylen := not_lt.mp hshort
        unfold K at hlong
        have hrest : keylen - curPlen = keylen - (curPlen + K) + 2 := by unfold K; omega
        have hhalf : (keylen - curPlen) / 2 = (keylen - (curPlen + K)) / 2 + 1 := by omega
        refine (ih key keylen nhId (curPlen + K) { acc with mallocs := acc.mallocs + 1 }
          (by unfold K; omega)).trans ?_
        have hfrom : acc.mallocs + ((keylen - (curPlen + K)) / 2 + 1)
            = acc.mallocs + 1 + (keylen - (curPlen + K)) / 2 := by omega
        simp only [AddReported, hhalf, hfrom, refused_succ_iff hgiven]
        rw [hrest, Nat.add_mod_right]

/-- A call that always reports success reports failures when there are none. -/
theorem reported_spread {malloc : Nat → Bool} {fuel : Nat} {n : FibNode} {key : IpAddr}
    {keylen : Nat} {nhId : Int} {curPlen count : Nat} {acc : Acc}
    (hok : (add malloc fuel n key keylen nhId curPlen acc).2.success = 0)
    (hcount : (add mallocOk fuel n key keylen nhId curPlen acc).2.mallocs = acc.mallocs + count) :
    Reported malloc acc.mallocs (add malloc fuel n key keylen nhId curPlen acc).2
      ↔ Lib.Granted malloc acc.mallocs (acc.mallocs + count) := by
  have hrun := (asks_add fuel n key keylen nhId curPlen).granted_iff malloc acc
  rw [← hcount, ← hrun]
  simp [Reported, hok]

/-- **When `_add` reports every allocation that fails.** -/
theorem reported_iff (malloc : Nat → Bool) (fuel : Nat) : ∀ (n : FibNode) (key : IpAddr)
    (keylen : Nat) (nhId : Int) (curPlen : Nat) (acc : Acc), WF n curPlen →
    n.height + (keylen - curPlen) < fuel →
    (Reported malloc acc.mallocs (add malloc fuel n key keylen nhId curPlen acc).2
      ↔ AddReported malloc key keylen n curPlen acc.mallocs) := by
  induction fuel with
  | zero => intro n key keylen nhId curPlen acc _ hfuel; omega
  | succ fuel ih =>
    intro n key keylen nhId curPlen acc hwf hfuel
    cases n with
    | null => exact reported_null malloc _ key keylen nhId curPlen acc (by omega)
    | node leaf nKey nKeylen nNhId child =>
      cases leaf with
      | true =>
        obtain ⟨hn, hnull⟩ := hwf.1 rfl
        obtain rfl : child = fun _ => .null := funext hnull
        have hheight : (FibNode.node true nKey nKeylen nNhId fun _ => .null).height = 1 := by
          simp [FibNode.height]
        refine reported_spread ?_ (split_mallocs _ nKey nKeylen nNhId key keylen nhId curPlen acc
          hn (by omega))
        rw [add_node]
        by_cases hle : keylen ≤ curPlen
        · rw [addAt_leaf hle]
        · rw [addAt_spread (not_le.mp hle) (Or.inr rfl)]
      | false =>
        have hh := height_child false nKey nKeylen nNhId child
        rw [AddReported]
        by_cases hle : keylen ≤ curPlen
        · -- the last place decides
          rw [if_pos hle, push_acc malloc _ _ key keylen nhId curPlen acc (by omega) hle]
          simp only [emptyPlaces, lastEmpty, Reported, Bool.not_false, Bool.true_and,
            Bool.false_eq_true, if_false]
          by_cases hall : Lib.Granted malloc acc.mallocs
              (acc.mallocs + ∑ i, emptyPlaces (child i))
          · simp [hall]
          · simp [hall]
        rw [if_neg hle]
        by_cases hshort : keylen < curPlen + K
        · rw [if_pos hshort]
          refine reported_spread ?_ ?_
          · rw [add_node, addAt_spread (not_le.mp hle) (Or.inl hshort)]
          · rw [add_node, addAt_spread (not_le.mp hle) (Or.inl hshort)]
            exact forBranches_mallocs _ _ (fun i acc => spread_inner_mallocs mallocOk nKey nKeylen
              nNhId key nhId i acc (by have := hh i; omega) hshort.le) acc
        · rw [if_neg hshort, add_node, addAt_down (not_lt.mp hshort)]
          have hidx := hh (childIndex key curPlen)
          exact ih _ _ _ _ _ _ (hwf.2 _) (by unfold K; omega)

/-! ## A whole tree -/

/-- What the property says of one call of `fib_route_add`, `m` being the number of its first
    allocation: a failed one makes it return nonzero, and every lookup answers what it did
    before or what it does when nothing fails. -/
def AddFaithful (malloc : Nat → Bool) (t : FibTree) (key : IpAddr) (keylen : Nat)
    (sdplaneNhId : Int) (m : Nat) : Prop :=
  let (t', acc) := fibRouteAdd malloc t key keylen sdplaneNhId m
  ((∃ j, m ≤ j ∧ j < acc.mallocs ∧ malloc j = false) → acc.success ≠ 0)
    ∧ ∀ k, (fibRouteLookup t' k).map FibNode.route = (fibRouteLookup t k).map FibNode.route
        ∨ (fibRouteLookup t' k).map FibNode.route
          = (fibRouteLookup (fibRouteAdd mallocOk t key keylen sdplaneNhId m).1 k).map
              FibNode.route

/-- **Insertion reports allocation failures under `AddReported`, and only then.** Where it
    reports them nothing is lost either. -/
theorem addFaithful_iff (malloc : Nat → Bool) (rs : List FibRoute) (key : IpAddr)
    (keylen : Nat) (sdplaneNhId : Int) :
    let s := fibRouteAddAll malloc (fibNew, 0) rs
    AddFaithful malloc s.1 key keylen sdplaneNhId s.2
      ↔ AddReported malloc key keylen s.1.root 0 s.2 := by
  intro s
  have hwf : WF s.1.root 0 := wf_fibRouteAddAll malloc rs (fibNew, 0) trivial
  let fuel := s.1.root.height + keylen + 1
  have hfuel : s.1.root.height + (keylen - 0) < fuel := by omega
  have hrep := reported_iff malloc fuel s.1.root key keylen sdplaneNhId 0 ⟨s.2, 0⟩ hwf hfuel
  have hnot : ∀ m', ¬ Lib.Granted malloc s.2 m'
      ↔ ∃ j, s.2 ≤ j ∧ j < m' ∧ malloc j = false := by
    intro m'
    simp [Lib.Granted]
  rw [Reported, hnot] at hrep
  refine ⟨fun h => hrep.mp h.1, fun h => ⟨hrep.mpr h, fun k => ?_⟩⟩
  have hspec := add_spec fuel s.1.root key keylen sdplaneNhId 0 ⟨s.2, 0⟩ hwf rfl hfuel
  by_cases hall : Lib.Granted malloc s.2
      (add malloc fuel s.1.root key keylen sdplaneNhId 0 ⟨s.2, 0⟩).2.mallocs
  · -- nothing failed
    right
    have hasks := asks_add fuel s.1.root key keylen sdplaneNhId 0
    have hrun := hasks.eq_of_granted ((hasks.granted_iff malloc ⟨s.2, 0⟩).mp hall)
    exact congrArg (fun r => look r.1 k 0) hrun
  · have hkept := kept_of_failure malloc fuel s.1.root key keylen sdplaneNhId 0 ⟨s.2, 0⟩ hwf rfl
      hfuel (hrep.mpr h ((hnot _).mp hall)) k
    rcases hkept with hbefore | hafter
    · exact Or.inl hbefore
    · exact Or.inr (hafter.trans (hspec.look k).symm)

/-- A default route is in the tree. When a /1 comes, the leaf at the root is split into four,
    and the first copy gets no memory: the call returns 0, and the default route has
    disappeared for a quarter of all addresses. -/
theorem split_loses_default_route :
    ¬ ∀ (malloc : Nat → Bool) (rs : List FibRoute) (r : FibRoute),
      Lib.Granted malloc 0 (fibRouteAddAll malloc (fibNew, 0) rs).2 → r.pfx ∉ rs.map FibRoute.pfx →
      AddFaithful malloc (fibRouteAddAll malloc (fibNew, 0) rs).1 r.key r.keylen r.sdplaneNhId
        (fibRouteAddAll malloc (fibNew, 0) rs).2 := by
  intro h
  let malloc : Nat → Bool := fun j => decide (j ≠ 1)
  have hgranted : Lib.Granted malloc 0
      (fibRouteAddAll malloc (fibNew, 0) [⟨.zero, 0, 7⟩]).2 := by
    intro j _ hj
    have hone : j < 1 := hj
    simp [malloc]
    omega
  have hfaithful := h malloc [⟨.zero, 0, 7⟩]
    ⟨#v[128, 0, 0, 0, 0, 0, 0, 0, 0, 0, 0, 0, 0, 0, 0, 0], 1, 9⟩ hgranted (by decide)
  exact hfaithful.1 ⟨1, by decide, by decide, by decide⟩ (by decide)

end SdPlane.Fib
