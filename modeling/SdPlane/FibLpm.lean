import SdPlane.Fib

/-!
# The FIB answers longest-prefix matches

`WF` is the shape every FIB tree has: a leaf stands for a prefix that ends at or above it and
has no children. Over such trees one lemma, `add_spec`, says what `_add` does to the answer
of every lookup:

> the new route is the answer for the addresses it covers, unless the answer so far is at
> least as long; every other answer stays.

The lemma is an induction on the fuel with the node, the depth and the prefix all free. The
depth is what makes it go through: below depth `curPlen` only the bits from `curPlen` on
still have to agree (`Agree`), the others having been compared on the way down. Splitting a
leaf is the one case with two calls in a row on the same child, the copy of the leaf and the
new prefix below it, and the only one where the fuel has to pay for a level that was not
there before.
-/

set_option autoImplicit false

namespace SdPlane.Fib

/-- Every allocation succeeds. -/
abbrev mallocOk : Nat → Bool := fun _ => true

/-- The shape of the trees that `_add` builds, at depth `curPlen`. -/
def WF : FibNode → Nat → Prop
  | .null, _ => True
  | .node leaf _ keylen _ child, curPlen =>
    (leaf = true → keylen ≤ curPlen ∧ ∀ i, child i = .null) ∧ ∀ i, WF (child i) (curPlen + K)

/-- What a lookup from this node answers, as a prefix length and a next hop. -/
def look (n : FibNode) (k : IpAddr) (curPlen : Nat) : Option (Nat × Int) :=
  (lookup n none k curPlen).map FibNode.route

/-- The bits of `k` and of `key` agree from `curPlen` up to `keylen`. -/
def Agree (key k : IpAddr) (curPlen keylen : Nat) : Prop :=
  ∀ i, curPlen ≤ i → i < keylen → keyBit k i = keyBit key i

instance (key k : IpAddr) (curPlen keylen : Nat) : Decidable (Agree key k curPlen keylen) :=
  Nat.decidableLoHi _ _ _

/-! ## Lookups -/

@[simp] theorem look_null (k : IpAddr) (curPlen : Nat) : look .null k curPlen = none := rfl

/-- A leaf answers itself. -/
theorem look_leaf (nKey : IpAddr) (nKeylen : Nat) (nNhId : Int)
    {child : Fin BRANCH_SZ → FibNode} (h : ∀ i, child i = .null) (k : IpAddr)
    (curPlen : Nat) : look (.node true nKey nKeylen nNhId child) k curPlen
      = some (nKeylen, nNhId) := by
  simp [look, lookup, h, FibNode.route]

/-- An inner node passes the question on. -/
theorem look_inner (nKey : IpAddr) (nKeylen : Nat) (nNhId : Int)
    (child : Fin BRANCH_SZ → FibNode) (k : IpAddr) (curPlen : Nat) :
    look (.node false nKey nKeylen nNhId child) k curPlen
      = look (child (childIndex k curPlen)) k (curPlen + K) := by
  simp [look, lookup]

/-! ## The range of a prefix within a stride -/

/-- One bit of the stride is determined: two children are in range. -/
theorem inRange_short {key : IpAddr} {curPlen : Nat} {k : IpAddr} (heven : curPlen % 2 = 0) :
    inRange key (curPlen + 1) curPlen (childIndex k curPlen) = true
      ↔ keyBit k curPlen = keyBit key curPlen := by
  have hidx : ((childIndex k curPlen : Fin BRANCH_SZ) : Nat)
      = 2 * (keyBit k curPlen).toNat + (keyBit k (curPlen + 1)).toNat := bitIndex_two k heven
  have hbits : curPlen + 1 - curPlen = 1 := by omega
  have hone : ¬ (1 : Nat) > K - 1 := by decide
  rw [inRange, hidx, hbits]
  simp only [hone, if_false, bitIndex_one]
  cases keyBit k curPlen <;> cases keyBit k (curPlen + 1) <;> cases keyBit key curPlen <;> decide

/-- From two bits on, the range of a prefix is the child it descends into. -/
theorem inRange_long {key : IpAddr} {keylen curPlen : Nat} (h : curPlen + K ≤ keylen)
    (i : Fin BRANCH_SZ) : inRange key keylen curPlen i = true ↔ i = childIndex key curPlen := by
  have hbits : keylen - curPlen > K - 1 := by unfold K at *; omega
  rw [inRange]
  simp only [hbits, if_true, Fin.ext_iff, childIndex]
  simp
  omega

/-- Two addresses descend into one child exactly when they agree on the stride. -/
theorem childIndex_eq_iff {key k : IpAddr} {curPlen : Nat} (heven : curPlen % 2 = 0) :
    childIndex k curPlen = childIndex key curPlen
      ↔ keyBit k curPlen = keyBit key curPlen
        ∧ keyBit k (curPlen + 1) = keyBit key (curPlen + 1) := by
  simp only [childIndex, Fin.ext_iff, K, bitIndex_two _ heven]
  cases keyBit k curPlen <;> cases keyBit k (curPlen + 1) <;> cases keyBit key curPlen <;>
    cases keyBit key (curPlen + 1) <;> simp

/-- A child is in the range of a prefix exactly when the bits of the stride that the prefix
    determines are the prefix's. -/
theorem inRange_childIndex {key k : IpAddr} {keylen curPlen : Nat} (heven : curPlen % 2 = 0)
    (hlt : curPlen < keylen) :
    inRange key keylen curPlen (childIndex k curPlen) = true
      ↔ ∀ i, curPlen ≤ i → i < keylen → i < curPlen + K → keyBit k i = keyBit key i := by
  unfold K
  by_cases hshort : keylen = curPlen + 1
  · subst hshort
    rw [inRange_short heven]
    constructor
    · intro h i hi hi' _
      obtain rfl : i = curPlen := by omega
      exact h
    · intro h
      exact h curPlen (Nat.le_refl _) hlt (by omega)
  · rw [inRange_long (by unfold K; omega), childIndex_eq_iff heven]
    constructor
    · rintro ⟨h₀, h₁⟩ i hi _ hi'
      obtain rfl | rfl : i = curPlen ∨ i = curPlen + 1 := by omega
      · exact h₀
      · exact h₁
    · intro h
      exact ⟨h curPlen (Nat.le_refl _) hlt (by omega),
        h (curPlen + 1) (by omega) (by omega) (by omega)⟩

/-- Agreement from a depth on is agreement within the stride and from the next depth on. -/
theorem agree_iff {key k : IpAddr} {keylen curPlen : Nat} (heven : curPlen % 2 = 0)
    (hlt : curPlen < keylen) :
    Agree key k curPlen keylen
      ↔ inRange key keylen curPlen (childIndex k curPlen) = true
        ∧ Agree key k (curPlen + K) keylen := by
  rw [inRange_childIndex heven hlt]
  constructor
  · intro h
    exact ⟨fun i hi hi' _ => h i hi hi', fun i hi hi' => h i (by omega) hi'⟩
  · rintro ⟨h₁, h₂⟩ i hi hi'
    by_cases hb : i < curPlen + K
    · exact h₁ i hi hi' hb
    · exact h₂ i (by omega) hi'

theorem agree_of_le (key k : IpAddr) {keylen curPlen : Nat} (h : keylen ≤ curPlen) :
    Agree key k curPlen keylen := fun i hi hi' => by omega

/-! ## One call of `_add` -/

@[simp] theorem createFibNode_ok (acc : Acc) :
    createFibNode mallocOk acc
      = (.node false .zero 0 0 fun _ => .null, { acc with mallocs := acc.mallocs + 1 }) := by
  simp [createFibNode]

/-- The loop over the children treats each of them alone, up to what it hands on. -/
theorem forBranches_child (f : Fin BRANCH_SZ → FibNode → Acc → FibNode × Acc)
    (child : Fin BRANCH_SZ → FibNode) (acc : Acc) (i : Fin BRANCH_SZ) :
    ∃ acc', (forBranches f child acc).1 i = (f i (child i) acc').1 := by
  fin_cases i <;> exact ⟨_, rfl⟩

theorem height_child (leaf : Bool) (nKey : IpAddr) (nKeylen : Nat) (nNhId : Int)
    (child : Fin BRANCH_SZ → FibNode) (i : Fin BRANCH_SZ) :
    (child i).height < (FibNode.node leaf nKey nKeylen nNhId child).height := by
  have hle : (child i).height ≤ Finset.univ.sup fun i => (child i).height :=
    @Finset.le_sup _ _ _ _ _ (fun i => (child i).height) _ (Finset.mem_univ i)
  exact Nat.lt_succ_of_le hle

/-- A prefix that ends above an empty place becomes a leaf there. -/
theorem add_null_of_le {fuel : Nat} {key : IpAddr} {keylen curPlen : Nat} {nhId : Int}
    {acc : Acc} (h : keylen ≤ curPlen) :
    (add mallocOk (fuel + 1) .null key keylen nhId curPlen acc).1
      = .node true key keylen nhId fun _ => .null := by
  simp [add, addAt, h]

/-- Below an inner node, and below a place that is still empty, a longer prefix goes to the
    children in its range and to no other. -/
theorem add_inner (fuel : Nat) (key : IpAddr) (nhId : Int) (acc : Acc) {n : FibNode}
    {nKey : IpAddr} {nKeylen : Nat} {nNhId : Int} {child : Fin BRANCH_SZ → FibNode}
    {keylen curPlen : Nat} (hn : n = .node false nKey nKeylen nNhId child
      ∨ (n = .null ∧ nKey = .zero ∧ nKeylen = 0 ∧ nNhId = 0 ∧ child = fun _ => .null))
    (hlt : curPlen < keylen) :
    ∃ nKeylen' child', (add mallocOk (fuel + 1) n key keylen nhId curPlen acc).1
        = .node false nKey nKeylen' nNhId child'
      ∧ ∀ i, ∃ acc', child' i = if inRange key keylen curPlen i = true
          then (add mallocOk fuel (child i) key keylen nhId (curPlen + K) acc').1
          else child i := by
  have hle : ¬ keylen ≤ curPlen := by omega
  by_cases hshort : keylen < curPlen + K
  · have hsplit : ∃ acc₀, (add mallocOk (fuel + 1) n key keylen nhId curPlen acc).1
        = .node false nKey 0 nNhId (forBranches (fun i c acc =>
            if inRange key keylen curPlen i then
              add mallocOk fuel c key keylen nhId (curPlen + K) acc
            else (c, acc)) child acc₀).1 := by
      rcases hn with rfl | ⟨rfl, rfl, rfl, rfl, rfl⟩
      · exact ⟨acc, by simp [add, addAt, hle, hshort]⟩
      · exact ⟨{ acc with mallocs := acc.mallocs + 1 }, by simp [add, addAt, hle, hshort]⟩
    obtain ⟨acc₀, hres⟩ := hsplit
    refine ⟨_, _, hres, fun i => ?_⟩
    obtain ⟨acc', h⟩ := forBranches_child (fun i c acc =>
      if inRange key keylen curPlen i then
        add mallocOk fuel c key keylen nhId (curPlen + K) acc
      else (c, acc)) child acc₀ i
    refine ⟨acc', h.trans ?_⟩
    split <;> rfl
  · have hdown : ∃ acc₀, (add mallocOk (fuel + 1) n key keylen nhId curPlen acc).1
        = .node false nKey nKeylen nNhId (Function.update child (childIndex key curPlen)
            (add mallocOk fuel (child (childIndex key curPlen)) key keylen nhId
              (curPlen + K) acc₀).1) := by
      rcases hn with rfl | ⟨rfl, rfl, rfl, rfl, rfl⟩
      · exact ⟨acc, by simp [add, addAt, hle, hshort]⟩
      · exact ⟨{ acc with mallocs := acc.mallocs + 1 }, by simp [add, addAt, hle, hshort]⟩
    obtain ⟨acc₀, hres⟩ := hdown
    refine ⟨_, _, hres, fun i => ⟨acc₀, ?_⟩⟩
    by_cases hi : i = childIndex key curPlen
    · rw [if_pos ((inRange_long (by omega) i).mpr hi), hi, Function.update_self]
    · rw [if_neg (fun h => hi ((inRange_long (by omega) i).mp h)), Function.update_of_ne hi]

/-- Splitting a leaf: every child gets a copy of it, and those in the range of the new
    prefix get the new prefix on top. -/
theorem add_split (fuel : Nat) (key : IpAddr) (nhId : Int) (acc : Acc) (nKey : IpAddr)
    (nNhId : Int) {nKeylen : Nat} {child : Fin BRANCH_SZ → FibNode} {keylen curPlen : Nat}
    (hnull : ∀ i, child i = .null) (hleaf : nKeylen ≤ curPlen)
    (hlt : curPlen < keylen) :
    ∃ child', (add mallocOk (fuel + 2) (.node true nKey nKeylen nNhId child) key keylen nhId
          curPlen acc).1 = .node false nKey 0 nNhId child'
      ∧ ∀ i, ∃ acc', child' i = if inRange key keylen curPlen i = true
          then (add mallocOk (fuel + 1) (.node true nKey nKeylen nNhId fun _ => .null) key keylen
            nhId (curPlen + K) acc').1
          else .node true nKey nKeylen nNhId fun _ => .null := by
  have hle : ¬ keylen ≤ curPlen := by omega
  -- the body of the loop, as `add` has it for a leaf
  let body (i : Fin BRANCH_SZ) (c : FibNode) (acc : Acc) : FibNode × Acc :=
    let copy := add mallocOk (fuel + 1) c nKey nKeylen nNhId (curPlen + K) acc
    if inRange key keylen curPlen i then
      add mallocOk (fuel + 1) copy.1 key keylen nhId (curPlen + K) copy.2
    else copy
  have hres : (add mallocOk (fuel + 2) (.node true nKey nKeylen nNhId child) key keylen nhId
      curPlen acc).1 = .node false nKey 0 nNhId (forBranches body child acc).1 := by
    simp only [add, addAt, hle, Bool.or_true, if_true, if_false]
    rfl
  refine ⟨_, hres, fun i => ?_⟩
  obtain ⟨acc', h⟩ := forBranches_child body child acc i
  rw [h, hnull i]
  have hcopy : (add mallocOk (fuel + 1) .null nKey nKeylen nNhId (curPlen + K) acc').1
      = .node true nKey nKeylen nNhId fun _ => .null := add_null_of_le (by omega)
  refine ⟨(add mallocOk (fuel + 1) .null nKey nKeylen nNhId (curPlen + K) acc').2, ?_⟩
  rw [← hcopy]
  simp only [body]
  split <;> rfl

/-! ## What `_add` does to every lookup -/

/-- The tree `n'` answers as `n` does with the route `key`/`keylen` → `nhId` added. -/
structure Added (n n' : FibNode) (key : IpAddr) (keylen : Nat) (nhId : Int)
    (curPlen : Nat) : Prop where
  wf : WF n' curPlen
  look : ∀ k, look n' k curPlen =
    if Agree key k curPlen keylen ∧ ∀ e ∈ look n k curPlen, e.1 < keylen then
      some (keylen, nhId)
    else look n k curPlen

/-- An inner node answers as its child does, whatever its own fields say. -/
theorem Added.inner {n : FibNode} {nKey' : IpAddr} {nKeylen' : Nat} {nNhId' : Int}
    {child' : Fin BRANCH_SZ → FibNode} {key : IpAddr} {keylen curPlen : Nat} {nhId : Int}
    (child : Fin BRANCH_SZ → FibNode) (heven : curPlen % 2 = 0) (hlt : curPlen < keylen)
    (hn : ∀ k, Fib.look n k curPlen = Fib.look (child (childIndex k curPlen)) k (curPlen + K))
    (hwf : ∀ i, WF (child i) (curPlen + K))
    (h : ∀ i : Fin BRANCH_SZ, (inRange key keylen curPlen i = true
        → Added (child i) (child' i) key keylen nhId (curPlen + K))
      ∧ (inRange key keylen curPlen i = false → child' i = child i)) :
    Added n (.node false nKey' nKeylen' nNhId' child') key keylen nhId curPlen := by
  constructor
  · refine ⟨fun h => Bool.noConfusion h, fun i => ?_⟩
    cases hr : inRange key keylen curPlen i with
    | true => exact ((h i).1 hr).wf
    | false => rw [(h i).2 hr]; exact hwf i
  · intro k
    rw [look_inner, hn k]
    simp only [agree_iff heven hlt]
    cases hr : inRange key keylen curPlen (childIndex k curPlen) with
    | true => rw [((h _).1 hr).look k]; simp only [true_and]
    | false => rw [(h _).2 hr, if_neg (by simp)]

/-- **The specification of `_add`**: from any well-formed tree, with enough fuel, the new
    route is the answer for the addresses it covers unless a route at least as long was, and
    nothing else changes. -/
theorem add_spec : ∀ (fuel : Nat) (n : FibNode) (key : IpAddr) (keylen : Nat) (nhId : Int)
    (curPlen : Nat) (acc : Acc), WF n curPlen → curPlen % 2 = 0 →
    n.height + (keylen - curPlen) + 1 ≤ fuel →
    Added n (add mallocOk fuel n key keylen nhId curPlen acc).1 key keylen nhId curPlen := by
  intro fuel
  induction fuel with
  | zero => intro n key keylen nhId curPlen acc _ _ hfuel; omega
  | succ fuel ih =>
    intro n key keylen nhId curPlen acc hwf heven hfuel
    have heven' : (curPlen + K) % 2 = 0 := by unfold K; omega
    by_cases hle : keylen ≤ curPlen
    · -- the prefix ends here: it covers everything below
      have hagree : ∀ k, Agree key k curPlen keylen := fun k => agree_of_le key k hle
      cases n with
      | null =>
        rw [add_null_of_le hle]
        refine ⟨⟨fun _ => ⟨hle, fun _ => rfl⟩, fun _ => trivial⟩, fun k => ?_⟩
        rw [look_leaf _ _ _ (fun _ => rfl)]
        simp [hagree k]
      | node leaf nKey nKeylen nNhId child =>
        cases leaf with
        | true =>
          obtain ⟨hk, hnull⟩ := hwf.1 rfl
          have hlook := look_leaf nKey nKeylen nNhId hnull
          by_cases hlonger : keylen > nKeylen
          · have hres : (add mallocOk (fuel + 1) (.node true nKey nKeylen nNhId child) key keylen
                nhId curPlen acc).1 = .node true key keylen nhId child := by
              simp [add, addAt, hle, hlonger]
            rw [hres]
            refine ⟨⟨fun _ => ⟨hle, hnull⟩, hwf.2⟩, fun k => ?_⟩
            rw [look_leaf _ _ _ hnull, hlook k, if_pos ⟨hagree k, by simpa using hlonger⟩]
          · have hres : (add mallocOk (fuel + 1) (.node true nKey nKeylen nNhId child) key keylen
                nhId curPlen acc).1 = .node true nKey nKeylen nNhId child := by
              simp [add, addAt, hle, hlonger]
            rw [hres]
            refine ⟨hwf, fun k => ?_⟩
            rw [hlook k, if_neg (by simpa using fun _ => hlonger)]
        | false =>
          -- an inner node hands the prefix to all its children
          have hres : ∃ child', (add mallocOk (fuel + 1) (.node false nKey nKeylen nNhId child)
              key keylen nhId curPlen acc).1 = .node false nKey nKeylen nNhId child'
              ∧ ∀ i, ∃ acc', child' i
                = (add mallocOk fuel (child i) key keylen nhId (curPlen + K) acc').1 := by
            refine ⟨(forBranches (fun _ c acc => add mallocOk fuel c key keylen nhId
              (curPlen + K) acc) child acc).1, by simp [add, addAt, hle], fun i => ?_⟩
            exact forBranches_child _ child acc i
          obtain ⟨child', hres, hchild⟩ := hres
          have hadded : ∀ i, Added (child i) (child' i) key keylen nhId (curPlen + K) := by
            intro i
            obtain ⟨acc', hi⟩ := hchild i
            have hh := height_child false nKey nKeylen nNhId child i
            rw [hi]
            exact ih _ _ _ _ _ _ (hwf.2 i) heven' (by omega)
          rw [hres]
          refine ⟨⟨fun h => Bool.noConfusion h, fun i => (hadded i).wf⟩, fun k => ?_⟩
          have hbelow := agree_of_le key k (Nat.le_trans hle (Nat.le_add_right curPlen K))
          rw [look_inner, look_inner, (hadded _).look k]
          simp only [hagree k, hbelow, true_and]
    · -- the prefix goes on below this node
      have hlt : curPlen < keylen := by omega
      have hstride : keylen - (curPlen + K) < keylen - curPlen := by unfold K; omega
      cases n with
      | null =>
        obtain ⟨nKeylen', child', hres, hchild⟩ :=
          add_inner fuel key nhId acc (Or.inr ⟨rfl, rfl, rfl, rfl, rfl⟩) hlt
        rw [hres]
        refine Added.inner (fun _ => .null) heven hlt (fun k => rfl) (fun _ => trivial)
          fun i => ?_
        obtain ⟨acc', hi⟩ := hchild i
        refine ⟨fun hr => ?_, fun hr => by rw [hi, if_neg (by simp [hr])]⟩
        rw [hi, if_pos hr]
        exact ih _ _ _ _ _ _ trivial heven' (by simp only [FibNode.height] at *; omega)
      | node leaf nKey nKeylen nNhId child =>
        cases leaf with
        | true =>
          obtain ⟨hk, hnull⟩ := hwf.1 rfl
          have hpos : 1 ≤ (FibNode.node true nKey nKeylen nNhId child).height :=
            Nat.le_add_left 1 _
          obtain ⟨fuel, rfl⟩ : ∃ f, fuel = f + 1 := ⟨fuel - 1, by omega⟩
          obtain ⟨child', hres, hchild⟩ := add_split fuel key nhId acc nKey nNhId hnull hk hlt
          rw [hres]
          let copy : FibNode := .node true nKey nKeylen nNhId fun _ => .null
          have hcopy : WF copy (curPlen + K) :=
            ⟨fun _ => ⟨Nat.le_trans hk (Nat.le_add_right _ _), fun _ => rfl⟩, fun _ => trivial⟩
          have hheight : copy.height = 1 := by simp [copy, FibNode.height]
          refine Added.inner (fun _ => copy) heven hlt
            (fun k => by rw [look_leaf _ _ _ hnull, look_leaf _ _ _ fun _ => rfl]) (fun _ => hcopy)
            fun i => ?_
          obtain ⟨acc', hi⟩ := hchild i
          refine ⟨fun hr => ?_, fun hr => by rw [hi, if_neg (by simp [hr])]⟩
          rw [hi, if_pos hr]
          exact ih _ _ _ _ _ _ hcopy heven' (by omega)
        | false =>
          obtain ⟨nKeylen', child', hres, hchild⟩ :=
            add_inner fuel key nhId acc (Or.inl rfl) hlt
          rw [hres]
          refine Added.inner child heven hlt (fun k => look_inner ..) hwf.2 fun i => ?_
          obtain ⟨acc', hi⟩ := hchild i
          have hh := height_child false nKey nKeylen nNhId child i
          refine ⟨fun hr => ?_, fun hr => by rw [hi, if_neg (by simp [hr])]⟩
          rw [hi, if_pos hr]
          exact ih _ _ _ _ _ _ (hwf.2 i) heven' (by omega)

/-! ## A whole tree -/

/-- The tree answers every lookup with the longest match among the entries `S`. An answer
    covers its address, so its prefix is what the address starts with. -/
structure Answers (t : FibTree) (S : Set (List Bool × Int)) : Prop where
  wf : WF t.root 0
  longest : ∀ k, Lib.Longest S (keyBit k)
    ((look t.root k 0).map fun e => (prefixOf k e.1, e.2))

theorem answers_empty {t : FibTree} (h : t.root = .null) : Answers t ∅ where
  wf := by rw [h]; trivial
  longest k := by simpa [h] using Lib.longest_empty _

/-- Agreement from the top is what it means for a prefix to cover an address. -/
theorem agree_iff_covers {key k : IpAddr} {keylen : Nat} :
    Agree key k 0 keylen ↔ Lib.Covers (prefixOf key keylen) (keyBit k) := by
  rw [prefixOf, Lib.covers_takeBits_iff]
  exact ⟨fun h i hi => h i (Nat.zero_le i) hi, fun h i _ hi => h i hi⟩

/-- **Adding a route to a tree adds it to what the tree answers for.** -/
theorem Answers.add {t : FibTree} {S : Set (List Bool × Int)} {key : IpAddr} {keylen : Nat}
    (h : Answers t S) (hnew : ∀ a, (prefixOf key keylen, a) ∉ S) (nhId : Int) (mallocs : Nat) :
    Answers (fibRouteAdd mallocOk t key keylen nhId mallocs).1
      (insert (prefixOf key keylen, nhId) S) := by
  have hadd := add_spec (t.root.height + keylen + 1) t.root key keylen nhId 0 ⟨mallocs, 0⟩
    h.wf rfl (by omega)
  refine ⟨hadd.wf, fun k => ?_⟩
  have hins := Lib.Longest.insert (a := nhId) hnew (h.longest k)
  have hlook := hadd.look k
  have hroot : (fibRouteAdd mallocOk t key keylen nhId mallocs).1.root
      = (Fib.add mallocOk (t.root.height + keylen + 1) t.root key keylen nhId 0
          ⟨mallocs, 0⟩).1 := rfl
  rw [hroot, hlook]
  by_cases hagree : Agree key k 0 keylen
  · have hcov : Lib.Covers (prefixOf key keylen) (keyBit k) := agree_iff_covers.mp hagree
    have hpre : prefixOf k keylen = prefixOf key keylen := by
      simpa [Lib.Covers, prefixOf] using hcov
    cases hl : look t.root k 0 with
    | none =>
      rw [hl] at hins
      simpa [hagree, hcov, hpre] using hins
    | some e =>
      rw [hl] at hins
      by_cases hlt : e.1 < keylen
      · simpa [hagree, hcov, hpre, hlt] using hins
      · simpa [hcov, hlt] using hins
  · have hcov : ¬ Lib.Covers (prefixOf key keylen) (keyBit k) :=
      fun h => hagree (agree_iff_covers.mpr h)
    simpa [hagree, hcov] using hins

theorem forBranches_success (f : Fin BRANCH_SZ → FibNode → Acc → FibNode × Acc)
    (child : Fin BRANCH_SZ → FibNode) {acc : Acc}
    (hf : ∀ i c acc, acc.success = 0 → (f i c acc).2.success = 0) (h : acc.success = 0) :
    (forBranches f child acc).2.success = 0 :=
  hf _ _ _ (hf _ _ _ (hf _ _ _ (hf _ _ _ h)))

theorem addAt_success {down : FibNode → IpAddr → Nat → Int → Acc → FibNode × Acc}
    {existed leaf : Bool} {nKey : IpAddr} {nKeylen : Nat} {nNhId : Int}
    {child : Fin BRANCH_SZ → FibNode} {key : IpAddr} {keylen : Nat} {nhId : Int}
    {curPlen : Nat} {acc : Acc}
    (hdown : ∀ c key keylen nhId acc, acc.success = 0 →
      (down c key keylen nhId acc).2.success = 0) (h : acc.success = 0) :
    (addAt down existed leaf nKey nKeylen nNhId child key keylen nhId curPlen acc).2.success
      = 0 := by
  unfold addAt
  split_ifs
  · exact forBranches_success _ child (fun _ c acc h => hdown c key keylen nhId acc h) h
  · rfl
  · rfl
  · rfl
  -- the split of case 2 reports success whatever happened below
  all_goals first | rfl | exact hdown _ _ _ _ _ h

/-- With memory, `_add` reports success. -/
theorem add_success : ∀ (fuel : Nat) (n : FibNode) (key : IpAddr) (keylen : Nat) (nhId : Int)
    (curPlen : Nat) (acc : Acc), acc.success = 0 →
    (Fib.add mallocOk fuel n key keylen nhId curPlen acc).2.success = 0 := by
  intro fuel
  induction fuel with
  | zero => intro n key keylen nhId curPlen acc h; exact h
  | succ fuel ih =>
    intro n key keylen nhId curPlen acc h
    cases n with
    | null =>
      rw [Fib.add, createFibNode_ok]
      exact addAt_success (fun c _ _ _ _ h => ih c _ _ _ _ _ h) h
    | node leaf nKey nKeylen nNhId child =>
      rw [Fib.add]
      exact addAt_success (fun c _ _ _ _ h => ih c _ _ _ _ _ h) h

/-- A route as it is given to `fib_route_add`. -/
structure FibRoute where
  key : IpAddr
  keylen : Nat
  sdplaneNhId : Int

namespace FibRoute

/-- The route matches an address: the first `keylen` bits are the same. -/
def Matches (r : FibRoute) (k : IpAddr) : Prop :=
  ∀ i, i < r.keylen → keyBit k i = keyBit r.key i

/-- The prefix that a route is for, its host bits cut off. -/
def pfx (r : FibRoute) : List Bool := prefixOf r.key r.keylen

/-- A route as an entry of the abstract table. -/
def entry (r : FibRoute) : List Bool × Int := (r.pfx, r.sdplaneNhId)

theorem matches_iff {r : FibRoute} {k : IpAddr} :
    r.Matches k ↔ Lib.Covers r.pfx (keyBit k) := Lib.covers_takeBits_iff.symm

end FibRoute

/-- `fib_route_add` for one route after the other. The number is that of the allocations
    asked for on the way. -/
def fibRouteAddAll (malloc : Nat → Bool) (s : FibTree × Nat) (rs : List FibRoute) :
    FibTree × Nat :=
  rs.foldl (fun s r =>
    let (t, acc) := fibRouteAdd malloc s.1 r.key r.keylen r.sdplaneNhId s.2
    (t, acc.mallocs)) s

/-- Routes with different prefixes, added in any order, are what the tree answers for. -/
theorem Answers.addAll {S : Set (List Bool × Int)} : ∀ (rs : List FibRoute) (s : FibTree × Nat),
    Answers s.1 S → (rs.map FibRoute.pfx).Nodup →
    (∀ r ∈ rs, ∀ a, (r.pfx, a) ∉ S) →
    Answers (fibRouteAddAll mallocOk s rs).1 (S ∪ {e | ∃ r ∈ rs, r.entry = e}) := by
  intro rs
  induction rs generalizing S with
  | nil => intro s h _ _; simpa [fibRouteAddAll] using h
  | cons r rs ih =>
    intro s h hnodup hnew
    obtain ⟨hr, hnodup⟩ := List.nodup_cons.mp hnodup
    have hstep := h.add (hnew r List.mem_cons_self) r.sdplaneNhId s.2
    have hrest := ih (S := insert r.entry S) (_, (fibRouteAdd mallocOk s.1 r.key r.keylen
      r.sdplaneNhId s.2).2.mallocs) hstep hnodup (by
      intro r' hr' a hmem
      rcases Set.mem_insert_iff.mp hmem with heq | hmem
      · have hpfx : r'.pfx = r.pfx := congrArg Prod.fst heq
        exact hr (hpfx ▸ List.mem_map_of_mem hr')
      · exact hnew r' (List.mem_cons_of_mem _ hr') a hmem)
    have hset : insert r.entry S ∪ {e | ∃ r' ∈ rs, r'.entry = e}
        = S ∪ {e | ∃ r' ∈ r :: rs, r'.entry = e} := by
      ext e
      simp only [Set.mem_union, Set.mem_insert_iff, Set.mem_ofPred_eq, List.mem_cons,
        exists_eq_or_imp]
      tauto
    exact hset ▸ hrest

/-- A lookup answers a leaf. -/
theorem lookup_isLeaf (n : FibNode) (k : IpAddr) (curPlen : Nat) (cand : Option FibNode)
    (hcand : ∀ c ∈ cand, c.isLeaf = true) : ∀ c ∈ lookup n cand k curPlen, c.isLeaf = true := by
  induction n generalizing curPlen cand with
  | null => simpa [lookup] using hcand
  | node leaf nKey nKeylen nNhId child ih =>
    rw [lookup]
    refine ih _ _ _ ?_
    cases leaf with
    | true => simp [FibNode.isLeaf]
    | false => simpa using hcand

/-- **Longest-prefix match.** Routes for different prefixes, whatever their host bits and in
    whatever order they are added, make a tree whose lookup answers `NULL` exactly when no
    route matches the address, and otherwise a leaf with the length and the next hop of the
    longest route that does. -/
theorem fibRouteLookup_longestMatch (rs : List FibRoute) (h : (rs.map FibRoute.pfx).Nodup)
    (k : IpAddr) :
    (fibRouteLookup (fibRouteAddAll mallocOk (fibNew, 0) rs).1 k = none
        ↔ ∀ r ∈ rs, ¬ r.Matches k)
      ∧ ∀ n, fibRouteLookup (fibRouteAddAll mallocOk (fibNew, 0) rs).1 k = some n →
          n.isLeaf = true ∧ ∃ r ∈ rs, r.Matches k ∧ n.keylen = r.keylen
            ∧ n.nhId = r.sdplaneNhId ∧ ∀ r' ∈ rs, r'.Matches k → r'.keylen ≤ r.keylen := by
  have hans := Answers.addAll rs (fibNew, 0) (answers_empty rfl) h (by simp)
  have hlong := hans.longest k
  rw [Set.empty_union] at hlong
  have hlook : look (fibRouteAddAll mallocOk (fibNew, 0) rs).1.root k 0
      = (fibRouteLookup (fibRouteAddAll mallocOk (fibNew, 0) rs).1 k).map FibNode.route := rfl
  rw [hlook] at hlong
  cases hres : fibRouteLookup (fibRouteAddAll mallocOk (fibNew, 0) rs).1 k with
  | none =>
    rw [hres] at hlong
    refine ⟨⟨fun _ r hr hm => ?_, fun _ => rfl⟩, by simp⟩
    exact hlong r.entry ⟨r, hr, rfl⟩ (FibRoute.matches_iff.mp hm)
  | some n =>
    rw [hres] at hlong
    obtain ⟨⟨r, hr, hentry⟩, hcov, hmax⟩ := hlong
    have hpfx : r.pfx = prefixOf k n.keylen := congrArg Prod.fst hentry
    have hmatch : r.Matches k := FibRoute.matches_iff.mpr (hpfx ▸ hcov)
    have hlen : n.keylen = r.keylen := by
      simpa [FibRoute.pfx] using (congrArg List.length hpfx).symm
    refine ⟨⟨by simp, fun hnone => absurd hmatch (hnone r hr)⟩, fun m hm => ?_⟩
    obtain rfl : n = m := Option.some.inj hm
    refine ⟨lookup_isLeaf _ k 0 none (by simp) n hres, r, hr, hmatch, hlen,
      (congrArg Prod.snd hentry).symm, fun r' hr' hm' => ?_⟩
    have hle := hmax r'.entry ⟨r', hr', rfl⟩ (FibRoute.matches_iff.mp hm')
    simpa [FibRoute.entry, FibRoute.pfx, ← hlen, FibNode.keylen] using hle

/-- Three nested routes, one with host bits set and one of odd length. -/
def exampleRoutes : List FibRoute :=
  [⟨#v[10, 3, 0, 1, 0, 0, 0, 0, 0, 0, 0, 0, 0, 0, 0, 0], 15, 2⟩, ⟨.zero, 0, 1⟩,
    ⟨#v[10, 2, 0, 0, 0, 0, 0, 0, 0, 0, 0, 0, 0, 0, 0, 0], 16, 3⟩]

/-- An address that the default route and the /15 match, but not the /16. -/
def exampleAddr : IpAddr := #v[10, 3, 7, 7, 0, 0, 0, 0, 0, 0, 0, 0, 0, 0, 0, 0]

theorem fibRouteLookup_longestMatch_nested :
    (exampleRoutes.map FibRoute.pfx).Nodup
      ∧ fibRouteLookup (fibRouteAddAll mallocOk (fibNew, 0) exampleRoutes).1 exampleAddr ≠ none := by
  refine ⟨by decide, fun hnone => ?_⟩
  have hno := (fibRouteLookup_longestMatch exampleRoutes (by decide) exampleAddr).1.mp hnone
  exact hno ⟨.zero, 0, 1⟩ (by simp [exampleRoutes]) (fun i hi => absurd hi (Nat.not_lt_zero i))

example : (fibRouteLookup (fibRouteAddAll mallocOk (fibNew, 0) exampleRoutes).1
    exampleAddr).map FibNode.route = some (15, 2) := by decide +kernel

end SdPlane.Fib
