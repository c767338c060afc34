import SdPlane.RibDelete
import SdPlane.FibFailure
import SdPlane.RibInfo

/-!
# Where the tries read the key (`fib.c`, `radix.c`)

`BIT_INDEX` fetches two neighbouring bytes of the seventeen in `key_safe`, `BIT_CHECK` one of
the sixteen of the key. The functions that read the key are restated here with these accesses
checked, under the name of the function with `In` behind it; what they compute is otherwise
what `SdPlane/Fib.lean` and `SdPlane/Radix.lean` have.

Adding and deleting stop where the prefix ends, and look at no bit beyond it. A lookup stops
where there is no node, so at a node at depth 128 it asks once more.
-/

set_option autoImplicit false

namespace SdPlane

/-- `BIT_INDEX`, its two fetches from `key_safe` checked. -/
def bitIndexIn (key : IpAddr) (s n : Nat) : Except Fault Nat := do
  inBounds (s >>> 3) 17
  inBounds ((s >>> 3) + 1) 17
  return bitIndex key s n

/-- `BIT_CHECK`, its fetch from the key checked. -/
def bitCheckIn (key : IpAddr) (b : Nat) : Except Fault Bool := do
  inBounds (b >>> 3) 16
  return bitCheck key b

theorem bitIndexIn_of_lt (key : IpAddr) {s : Nat} (n : Nat) (h : s < 128) :
    bitIndexIn key s n = .ok (bitIndex key s n) := by
  have hs : s >>> 3 < 16 := by rw [shiftRight_three]; omega
  rw [bitIndexIn, inBounds, inBounds, if_pos (by omega), if_pos (by omega)]
  rfl

theorem bitIndexIn_of_ge (key : IpAddr) {s : Nat} (n : Nat) (h : 128 ≤ s) :
    bitIndexIn key s n = .error .outOfBounds := by
  have hs : ¬ s >>> 3 + 1 < 17 := by rw [shiftRight_three]; omega
  rw [bitIndexIn, inBounds, inBounds, if_neg hs]
  split <;> rfl

theorem bitCheckIn_of_lt (key : IpAddr) {b : Nat} (h : b < 128) :
    bitCheckIn key b = .ok (bitCheck key b) := by
  have hb : b >>> 3 < 16 := by rw [shiftRight_three]; omega
  rw [bitCheckIn, inBounds, if_pos hb]
  rfl

theorem bitCheckIn_of_ge (key : IpAddr) {b : Nat} (h : 128 ≤ b) :
    bitCheckIn key b = .error .outOfBounds := by
  have hb : ¬ b >>> 3 < 16 := by rw [shiftRight_three]; omega
  rw [bitCheckIn, inBounds, if_neg hb]
  rfl

namespace Fib

/-! ## The FIB -/

/-- `forBranches` with a body that may fail. -/
def forBranchesIn (f : Fin BRANCH_SZ → FibNode → Acc → Except Fault (FibNode × Acc))
    (child : Fin BRANCH_SZ → FibNode) (acc : Acc) :
    Except Fault ((Fin BRANCH_SZ → FibNode) × Acc) := do
  let (c₀, acc) ← f 0 (child 0) acc
  let (c₁, acc) ← f 1 (child 1) acc
  let (c₂, acc) ← f 2 (child 2) acc
  let (c₃, acc) ← f 3 (child 3) acc
  return (![c₀, c₁, c₂, c₃], acc)

/-- The body of `_add`, `BIT_INDEX` checked. -/
def addAtIn (down : FibNode → IpAddr → Nat → Int → Acc → Except Fault (FibNode × Acc))
    (existed leaf : Bool) (nKey : IpAddr) (nKeylen : Nat) (nNhId : Int)
    (child : Fin BRANCH_SZ → FibNode) (key : IpAddr) (keylen : Nat) (sdplaneNhId : Int)
    (curPlen : Nat) (acc : Acc) : Except Fault (FibNode × Acc) :=
  if keylen ≤ curPlen then
    if !leaf && existed then do
      let (child, acc) ← forBranchesIn (fun _ c acc => down c key keylen sdplaneNhId acc) child acc
      return (.node leaf nKey nKeylen nNhId child, acc)
    else if leaf then
      if keylen > nKeylen then
        return (.node leaf key keylen sdplaneNhId child, { acc with success := 0 })
      else return (.node leaf nKey nKeylen nNhId child, { acc with success := 0 })
    else return (.node true key keylen sdplaneNhId child, { acc with success := 0 })
  else if keylen < curPlen + K || leaf then do
    let bitsInDepth := keylen - curPlen
    let bitsInDepth := if bitsInDepth > K - 1 then K else bitsInDepth
    let _base ← bitIndexIn key curPlen bitsInDepth
    let (child, acc) ← forBranchesIn
      (fun i c acc => do
        let (c, acc) ← if leaf then down c nKey nKeylen nNhId acc else .ok (c, acc)
        if inRange key keylen curPlen i then down c key keylen sdplaneNhId acc else .ok (c, acc))
      child acc
    return (.node false nKey 0 nNhId child, { acc with success := 0 })
  else do
    let _index ← bitIndexIn key curPlen K
    let index := childIndex key curPlen
    let (c, acc) ← down (child index) key keylen sdplaneNhId acc
    return (.node leaf nKey nKeylen nNhId (Function.update child index c), acc)

/-- `_add`, `BIT_INDEX` checked. -/
def addIn (malloc : Nat → Bool) :
    Nat → FibNode → IpAddr → Nat → Int → Nat → Acc → Except Fault (FibNode × Acc)
  | 0, n, _, _, _, _, acc => .ok (n, acc)
  | fuel + 1, .null, key, keylen, sdplaneNhId, curPlen, acc =>
    match createFibNode malloc acc with
    | (.null, acc) => .ok (.null, { acc with success := -1 })
    | (.node leaf nKey nKeylen nNhId child, acc) =>
      addAtIn (fun c key keylen nhId acc => addIn malloc fuel c key keylen nhId (curPlen + K) acc)
        false leaf nKey nKeylen nNhId child key keylen sdplaneNhId curPlen acc
  | fuel + 1, .node leaf nKey nKeylen nNhId child, key, keylen, sdplaneNhId, curPlen, acc =>
    addAtIn (fun c key keylen nhId acc => addIn malloc fuel c key keylen nhId (curPlen + K) acc)
      true leaf nKey nKeylen nNhId child key keylen sdplaneNhId curPlen acc

/-- `fib_route_add`, `BIT_INDEX` checked. -/
def fibRouteAddIn (malloc : Nat → Bool) (t : FibTree) (key : IpAddr) (keylen : Nat)
    (sdplaneNhId : Int) (mallocs : Nat) : Except Fault (FibTree × Acc) := do
  let fuel := t.root.height + keylen + 1
  let (root, acc) ← addIn malloc fuel t.root key keylen sdplaneNhId 0 ⟨mallocs, 0⟩
  return ({ t with root := root }, acc)

/-- `_lookup`, `BIT_INDEX` checked. -/
def lookupIn : FibNode → Option FibNode → IpAddr → Nat → Except Fault (Option FibNode)
  | .null, cand, _, _ => .ok cand
  | .node leaf nKey nKeylen nNhId child, cand, key, curPlen => do
    let _index ← bitIndexIn key curPlen K
    lookupIn (child (childIndex key curPlen))
      (if leaf then some (.node leaf nKey nKeylen nNhId child) else cand) key (curPlen + K)

/-- `fib_route_lookup`, `BIT_INDEX` checked. -/
def fibRouteLookupIn (t : FibTree) (key : IpAddr) : Except Fault (Option FibNode) :=
  lookupIn t.root none key 0

/-! Adding -/

theorem forBranchesIn_eq {f : Fin BRANCH_SZ → FibNode → Acc → Except Fault (FibNode × Acc)}
    {g : Fin BRANCH_SZ → FibNode → Acc → FibNode × Acc} {child : Fin BRANCH_SZ → FibNode}
    (h : ∀ i acc, f i (child i) acc = .ok (g i (child i) acc)) (acc : Acc) :
    forBranchesIn f child acc = .ok (forBranches g child acc) := by
  simp only [forBranchesIn, h, bind, Except.bind]
  rfl

/-- One call reads within the key when the calls below it do. -/
theorem addAtIn_eq {down : FibNode → IpAddr → Nat → Int → Acc → FibNode × Acc}
    {downIn : FibNode → IpAddr → Nat → Int → Acc → Except Fault (FibNode × Acc)}
    {existed leaf : Bool} {nKey : IpAddr} {nKeylen : Nat} {nNhId : Int}
    {child : Fin BRANCH_SZ → FibNode} {key : IpAddr} {keylen : Nat} {nhId : Int}
    {curPlen : Nat} {acc : Acc} (hlen : keylen ≤ 128 ∨ keylen ≤ curPlen)
    (hleaf : leaf = true → nKeylen ≤ curPlen)
    (hwf : ∀ i, WF (child i) (curPlen + K))
    (hkeep : ∀ c key keylen nhId acc, WF c (curPlen + K) →
      WF (down c key keylen nhId acc).1 (curPlen + K))
    (hdown : ∀ c key keylen nhId acc, WF c (curPlen + K) →
      (keylen ≤ 128 ∨ keylen ≤ curPlen + K) →
      downIn c key keylen nhId acc = .ok (down c key keylen nhId acc)) :
    addAtIn downIn existed leaf nKey nKeylen nNhId child key keylen nhId curPlen acc
      = .ok (addAt down existed leaf nKey nKeylen nNhId child key keylen nhId curPlen acc) := by
  have hlen' : keylen ≤ 128 ∨ keylen ≤ curPlen + K := by omega
  unfold addAtIn addAt
  by_cases hle : keylen ≤ curPlen
  · rw [if_pos hle, if_pos hle]
    split
    · rw [forBranchesIn_eq (g := fun _ c acc => down c key keylen nhId acc)
        fun i acc => hdown _ _ _ _ _ (hwf i) hlen']
      rfl
    · split
      · split <;> rfl
      · rfl
  have hread : curPlen < 128 := by omega
  rw [if_neg hle, if_neg hle]
  split
  · simp only [bitIndexIn_of_lt key _ hread]
    rw [forBranchesIn_eq (g := spread down nKey nKeylen nNhId key nhId leaf keylen curPlen)
      fun i acc => ?_]
    · rfl
    · cases leaf with
      | true =>
        have hcopy : nKeylen ≤ curPlen + K := (hleaf rfl).trans (Nat.le_add_right _ _)
        simp only [if_true, hdown _ nKey nKeylen nNhId acc (hwf i) (.inr hcopy), spread]
        cases hr : inRange key keylen curPlen i with
        | true =>
          exact hdown _ _ _ _ _ (hkeep _ _ _ _ _ (hwf i)) hlen'
        | false => rfl
      | false =>
        cases hr : inRange key keylen curPlen i with
        | true =>
          have hchild := hdown _ key keylen nhId acc (hwf i) hlen'
          simpa [spread, hr, bind, Except.bind] using hchild
        | false => simp [spread, hr, bind, Except.bind]
  · simp only [bitIndexIn_of_lt key K hread]
    rw [hdown _ key keylen nhId acc (hwf _) hlen']
    rfl

/-- A prefix of at most 128 bits is added without a look past the key. -/
theorem addIn_eq (malloc : Nat → Bool) (fuel : Nat) : ∀ (n : FibNode) (key : IpAddr)
    (keylen : Nat) (nhId : Int) (curPlen : Nat) (acc : Acc), WF n curPlen →
    (keylen ≤ 128 ∨ keylen ≤ curPlen) →
    addIn malloc fuel n key keylen nhId curPlen acc
      = .ok (add malloc fuel n key keylen nhId curPlen acc) := by
  induction fuel with
  | zero => intro n key keylen nhId curPlen acc _ _; rfl
  | succ fuel ih =>
    intro n key keylen nhId curPlen acc hwf hlen
    have hdown : ∀ c key keylen nhId acc, WF c (curPlen + K) →
        (keylen ≤ 128 ∨ keylen ≤ curPlen + K) →
        addIn malloc fuel c key keylen nhId (curPlen + K) acc
          = .ok (addDown malloc fuel curPlen c key keylen nhId acc) :=
      fun c key keylen nhId acc hc hle => ih c key keylen nhId _ acc hc hle
    have hkeep : ∀ c key keylen nhId acc, WF c (curPlen + K) →
        WF (addDown malloc fuel curPlen c key keylen nhId acc).1 (curPlen + K) :=
      fun c key keylen nhId acc hc => wf_add malloc fuel c key keylen nhId _ acc hc
    cases n with
    | null =>
      rw [addIn, add, createFibNode]
      cases malloc acc.mallocs with
      | true =>
        exact addAtIn_eq hlen (fun h => Bool.noConfusion h) (fun _ => trivial) hkeep hdown
      | false => rfl
    | node leaf nKey nKeylen nNhId child =>
      exact addAtIn_eq hlen (fun h => (hwf.1 h).1) hwf.2 hkeep hdown

/-! Looking up -/

/-- The node that an address leads to, `levels` further down. -/
def descend : Nat → FibNode → IpAddr → Nat → FibNode
  | 0, n, _, _ => n
  | _ + 1, .null, _, _ => .null
  | levels + 1, .node _ _ _ _ child, key, curPlen =>
    descend levels (child (childIndex key curPlen)) key (curPlen + K)

/-- A lookup stays within the key exactly when its path ends above depth 128. -/
theorem lookupIn_eq_iff (key : IpAddr) (n : FibNode) : ∀ (cand : Option FibNode)
    (levels curPlen : Nat), curPlen + 2 * levels = 128 →
    (lookupIn n cand key curPlen = .ok (lookup n cand key curPlen)
      ↔ descend levels n key curPlen = .null) := by
  induction n with
  | null =>
    intro cand levels curPlen _
    cases levels <;> simp [lookupIn, lookup, descend]
  | node leaf nKey nKeylen nNhId child ih =>
    intro cand levels curPlen hdepth
    cases levels with
    | zero =>
      rw [lookupIn, bitIndexIn_of_ge key K (by omega)]
      exact iff_of_false (fun h => by cases h) fun h => by cases h
    | succ levels =>
      rw [lookupIn, lookup, descend, bitIndexIn_of_lt key K (by omega)]
      exact ih _ _ _ _ (by unfold K; omega)

/-! ### How deep a tree is -/

def FibNode.isInner : FibNode → Bool
  | .null => false
  | .node leaf _ _ _ _ => !leaf

@[simp] theorem descend_null (levels : Nat) (k : IpAddr) (curPlen : Nat) :
    descend levels .null k curPlen = .null := by
  cases levels <;> rfl

/-- There is no inner node in a leaf. -/
theorem descend_leaf {nKey : IpAddr} {nKeylen : Nat} {nNhId : Int}
    {child : Fin BRANCH_SZ → FibNode} (hnull : ∀ i, child i = .null) (levels : Nat) (k : IpAddr)
    (curPlen : Nat) :
    (descend levels (.node true nKey nKeylen nNhId child) k curPlen).isInner = false := by
  cases levels with
  | zero => rfl
  | succ levels => simp [descend, hnull, FibNode.isInner]

/-- What adding a route does to the inner nodes on the path of `k`: where the path is the
    prefix's too, there is one above the end of the prefix. -/
def Deepened (n n' : FibNode) (key : IpAddr) (keylen : Nat) (k : IpAddr) (curPlen : Nat) : Prop :=
  ∀ levels, (descend levels n' k curPlen).isInner = true
    ↔ (descend levels n k curPlen).isInner = true
      ∨ (curPlen + 2 * levels < keylen ∧ Agree key k curPlen (curPlen + 2 * levels))

theorem Deepened.inner {n : FibNode} {nKey' : IpAddr} {nKeylen' : Nat} {nNhId' : Int}
    {child' : Fin BRANCH_SZ → FibNode} {key : IpAddr} {keylen curPlen : Nat} {k : IpAddr}
    (child : Fin BRANCH_SZ → FibNode) (heven : curPlen % 2 = 0) (hlt : curPlen < keylen)
    (hn : ∀ levels, (descend (levels + 1) n k curPlen).isInner
      = (descend levels (child (childIndex k curPlen)) k (curPlen + K)).isInner)
    (h : ∀ i : Fin BRANCH_SZ, (inRange key keylen curPlen i = true
        → Deepened (child i) (child' i) key keylen k (curPlen + K))
      ∧ (inRange key keylen curPlen i = false → child' i = child i)) :
    Deepened n (.node false nKey' nKeylen' nNhId' child') key keylen k curPlen := by
  intro levels
  cases levels with
  | zero => simp [descend, FibNode.isInner, hlt, agree_of_le]
  | succ levels =>
    have hdepth : curPlen + 2 * (levels + 1) = curPlen + K + 2 * levels := by unfold K; omega
    have hagree : Agree key k curPlen (curPlen + K + 2 * levels)
        ↔ inRange key (curPlen + K + 2 * levels) curPlen (childIndex k curPlen) = true
          ∧ Agree key k (curPlen + K) (curPlen + K + 2 * levels) :=
      agree_iff heven (by unfold K; omega)
    rw [hn, descend, hdepth, hagree, inRange_long (Nat.le_add_right _ _)]
    cases hr : inRange key keylen curPlen (childIndex k curPlen) with
    | true =>
      rw [(h _).1 hr levels]
      refine or_congr_right (and_congr_right fun hlong => ?_)
      have hidx := (inRange_long (by omega) (childIndex k curPlen)).mp hr
      simp only [hidx, true_and]
    | false =>
      rw [(h _).2 hr]
      refine (or_iff_left ?_).symm
      rintro ⟨hlong, hidx, -⟩
      rw [(inRange_long (by omega) _).mpr hidx] at hr
      exact Bool.noConfusion hr

theorem add_deepened (fuel : Nat) : ∀ (n : FibNode) (key : IpAddr) (keylen : Nat) (nhId : Int)
    (k : IpAddr) (curPlen : Nat) (acc : Acc), WF n curPlen → curPlen % 2 = 0 →
    n.height + (keylen - curPlen) < fuel →
    Deepened n (add mallocOk fuel n key keylen nhId curPlen acc).1 key keylen k curPlen := by
  induction fuel with
  | zero => intro n key keylen nhId k curPlen acc _ _ hfuel; omega
  | succ fuel ih =>
    intro n key keylen nhId k curPlen acc hwf heven hfuel
    have heven' : (curPlen + K) % 2 = 0 := by unfold K; omega
    by_cases hle : keylen ≤ curPlen
    · -- the inner nodes stay the same
      intro levels
      have hshort : ¬ curPlen + 2 * levels < keylen := by omega
      rw [or_iff_left fun h => hshort h.1]
      cases n with
      | null =>
        rw [add_null_of_le hle, descend_leaf fun _ => rfl, descend_null]
        rfl
      | node leaf nKey nKeylen nNhId child =>
        rw [add_node]
        cases leaf with
        | true =>
          have hnull := (hwf.1 rfl).2
          rw [addAt_leaf hle]
          dsimp only
          split <;> simp [descend_leaf hnull]
        | false =>
          rw [addAt_push hle]
          cases levels with
          | zero => rfl
          | succ levels =>
            obtain ⟨acc', hi⟩ := forBranches_child (fun _ c acc =>
              addDown mallocOk fuel curPlen c key keylen nhId acc) child acc
              (childIndex k curPlen)
            have hh := height_child false nKey nKeylen nNhId child (childIndex k curPlen)
            have hdeep := ih _ key keylen nhId k _ acc' (hwf.2 (childIndex k curPlen)) heven'
              (by unfold K; omega) levels
            rw [descend, descend, hi, hdeep, or_iff_left fun h => by unfold K at h; omega]
    · have hlt : curPlen < keylen := not_le.mp hle
      cases n with
      | null =>
        obtain ⟨nKeylen', child', hres, hchild⟩ :=
          add_inner fuel key nhId acc (Or.inr ⟨rfl, rfl, rfl, rfl, rfl⟩) hlt
        rw [hres]
        refine .inner (fun _ => .null) heven hlt (fun levels => by simp) fun i => ?_
        obtain ⟨acc', hi⟩ := hchild i
        refine ⟨fun hr => ?_, fun hr => by rw [hi, if_neg (by simp [hr])]⟩
        rw [hi, if_pos hr]
        exact ih _ _ _ _ _ _ _ trivial heven'
          (by simp only [FibNode.height] at *; unfold K; omega)
      | node leaf nKey nKeylen nNhId child =>
        cases leaf with
        | true =>
          obtain ⟨hk, hnull⟩ := hwf.1 rfl
          have hpos : 1 ≤ (FibNode.node true nKey nKeylen nNhId child).height :=
            Nat.le_add_left 1 _
          obtain ⟨fuel, rfl⟩ : ∃ f, fuel = f + 1 := ⟨fuel - 1, by omega⟩
          obtain ⟨child', hres, hchild⟩ := add_split fuel key nhId acc nKey nNhId hnull hk hlt
          rw [hres]
          let copy : FibNode := .node true nKey nKeylen nNhId fun _ => .null
          have hcopy : WF copy (curPlen + K) :=
            ⟨fun _ => ⟨hk.trans (Nat.le_add_right _ _), fun _ => rfl⟩, fun _ => trivial⟩
          have hheight : copy.height = 1 := by simp [copy, FibNode.height]
          refine .inner (fun _ => copy) heven hlt (fun levels => ?_) fun i => ?_
          · rw [descend_leaf hnull, descend_leaf fun _ => rfl]
          obtain ⟨acc', hi⟩ := hchild i
          refine ⟨fun hr => ?_, fun hr => by rw [hi, if_neg (by simp [hr])]⟩
          rw [hi, if_pos hr]
          exact ih _ _ _ _ _ _ _ hcopy heven' (by unfold K; omega)
        | false =>
          obtain ⟨nKeylen', child', hres, hchild⟩ :=
            add_inner fuel key nhId acc (Or.inl rfl) hlt
          rw [hres]
          refine .inner child heven hlt (fun levels => rfl) fun i => ?_
          obtain ⟨acc', hi⟩ := hchild i
          have hh := height_child false nKey nKeylen nNhId child i
          refine ⟨fun hr => ?_, fun hr => by rw [hi, if_neg (by simp [hr])]⟩
          rw [hi, if_pos hr]
          exact ih _ _ _ _ _ _ _ (hwf.2 i) heven' (by unfold K; omega)

theorem wf_descend (levels : Nat) : ∀ {n : FibNode} (k : IpAddr) {curPlen : Nat},
    WF n curPlen → WF (descend levels n k curPlen) (curPlen + 2 * levels) := by
  induction levels with
  | zero => intro n k curPlen h; exact h
  | succ levels ih =>
    intro n k curPlen h
    cases n with
    | null => simp [WF]
    | node leaf nKey nKeylen nNhId child =>
      have hchild := ih k (h.2 (childIndex k curPlen))
      have hdepth : curPlen + K + 2 * levels = curPlen + 2 * (levels + 1) := by unfold K; omega
      rwa [hdepth] at hchild

/-- One level more. -/
theorem descend_succ (levels : Nat) : ∀ (n : FibNode) (k : IpAddr) (curPlen : Nat),
    descend (levels + 1) n k curPlen
      = descend 1 (descend levels n k curPlen) k (curPlen + 2 * levels) := by
  induction levels with
  | zero => intro n k curPlen; rfl
  | succ levels ih =>
    intro n k curPlen
    cases n with
    | null => simp
    | node leaf nKey nKeylen nNhId child =>
      have hdepth : curPlen + K + 2 * levels = curPlen + 2 * (levels + 1) := by unfold K; omega
      have hchild := ih (child (childIndex k curPlen)) k (curPlen + K)
      rwa [hdepth] at hchild

/-- Above an inner node nothing answers. -/
theorem look_descend (levels : Nat) : ∀ {n : FibNode} (k : IpAddr) {curPlen : Nat},
    WF n curPlen → (descend levels n k curPlen).isInner = true →
    look n k curPlen = look (descend levels n k curPlen) k (curPlen + 2 * levels) := by
  induction levels with
  | zero => intro n k curPlen _ _; rfl
  | succ levels ih =>
    intro n k curPlen hwf hinner
    cases n with
    | null => simp [FibNode.isInner] at hinner
    | node leaf nKey nKeylen nNhId child =>
      cases leaf with
      | true => simp [descend_leaf (hwf.1 rfl).2] at hinner
      | false =>
        have hdepth : curPlen + K + 2 * levels = curPlen + 2 * (levels + 1) := by unfold K; omega
        have hchild := ih k (hwf.2 (childIndex k curPlen)) hinner
        rw [hdepth] at hchild
        rw [look_inner, hchild]
        rfl

/-- The inner nodes of a tree, from the routes added. -/
theorem isInner_addAll (k : IpAddr) (levels : Nat) (rs : List FibRoute) :
    ∀ s : FibTree × Nat, WF s.1.root 0 →
    ((descend levels (fibRouteAddAll mallocOk s rs).1.root k 0).isInner = true
      ↔ (descend levels s.1.root k 0).isInner = true
        ∨ ∃ r ∈ rs, 2 * levels < r.keylen ∧ Agree r.key k 0 (2 * levels)) := by
  induction rs with
  | nil => intro s _; simp [fibRouteAddAll]
  | cons r rs ih =>
    intro s h
    have hwf := wf_add mallocOk (s.1.root.height + r.keylen + 1) _ r.key r.keylen r.sdplaneNhId 0
      ⟨s.2, 0⟩ h
    have hstep := add_deepened (s.1.root.height + r.keylen + 1) _ r.key r.keylen r.sdplaneNhId k 0
      ⟨s.2, 0⟩ h rfl (by omega) levels
    rw [Nat.zero_add] at hstep
    refine (ih _ hwf).trans ?_
    simp only [fibRouteAdd, hstep, List.mem_cons, exists_eq_or_imp, or_assoc]

/-- Something is found exactly for the addresses of the routes. -/
theorem look_addAll (k : IpAddr) (rs : List FibRoute) : ∀ s : FibTree × Nat, WF s.1.root 0 →
    (look (fibRouteAddAll mallocOk s rs).1.root k 0 ≠ none
      ↔ look s.1.root k 0 ≠ none ∨ ∃ r ∈ rs, r.Matches k) := by
  induction rs with
  | nil => intro s _; simp [fibRouteAddAll]
  | cons r rs ih =>
    intro s h
    have hadd := add_spec (s.1.root.height + r.keylen + 1) _ r.key r.keylen r.sdplaneNhId 0
      ⟨s.2, 0⟩ h rfl (by omega)
    have hmatch : Agree r.key k 0 r.keylen ↔ r.Matches k :=
      ⟨fun ha i hi => ha i (Nat.zero_le i) hi, fun ha i _ hi => ha i hi⟩
    have hstep : look (fibRouteAdd mallocOk s.1 r.key r.keylen r.sdplaneNhId s.2).1.root k 0 ≠ none
        ↔ look s.1.root k 0 ≠ none ∨ r.Matches k := by
      have hroot : (fibRouteAdd mallocOk s.1 r.key r.keylen r.sdplaneNhId s.2).1.root
          = (add mallocOk (s.1.root.height + r.keylen + 1) s.1.root r.key r.keylen r.sdplaneNhId 0
              ⟨s.2, 0⟩).1 := rfl
      rw [← hmatch, hroot, hadd.look k]
      cases hl : look s.1.root k 0 with
      | none => simp
      | some e => split <;> simp
    refine (ih _ hadd.wf).trans ?_
    simp only [hstep, List.mem_cons, exists_eq_or_imp, or_assoc]

/-- **With memory, the path of an address reaches depth 128 exactly when a route of at least
    127 bits agrees with it in the first 126, and some route matches it.** -/
theorem descend_host_iff {rs : List FibRoute} (hlen : ∀ r ∈ rs, r.keylen ≤ 128) (k : IpAddr) :
    descend 64 (fibRouteAddAll mallocOk (fibNew, 0) rs).1.root k 0 ≠ .null
      ↔ (∃ r ∈ rs, 126 < r.keylen ∧ Agree r.key k 0 126) ∧ ∃ r ∈ rs, r.Matches k := by
  have hnew : WF (fibNew, 0).1.root 0 := trivial
  have hwf := wf_fibRouteAddAll mallocOk rs (fibNew, 0) hnew
  have habove := isInner_addAll k 63 rs (fibNew, 0) hnew
  have hat := isInner_addAll k 64 rs (fibNew, 0) hnew
  have hlook := look_addAll k rs (fibNew, 0) hnew
  generalize (fibRouteAddAll mallocOk (fibNew, 0) rs).1.root = root at *
  simp only [fibNew, descend_null, FibNode.isInner, look_null, Bool.false_eq_true, false_or,
    ne_eq, not_true_eq_false] at habove hat hlook
  rw [← habove, ← hlook, descend_succ 63]
  have hleaf : (descend 64 root k 0).isInner = false := by
    rw [Bool.eq_false_iff]
    intro h
    obtain ⟨r, hr, hlong, -⟩ := hat.mp h
    exact absurd (hlen r hr) (by omega)
  rw [descend_succ 63] at hleaf
  have hwf63 := wf_descend 63 k hwf
  have hlook63 := look_descend 63 k hwf
  cases hn : descend 63 root k 0 with
  | null => simp
  | node leaf nKey nKeylen nNhId child =>
    rw [hn] at hleaf hwf63 hlook63
    cases leaf with
    | true => simp [descend, (hwf63.1 rfl).2]
    | false =>
      rw [hlook63 rfl, look_inner]
      have hbelow := hwf63.2 (childIndex k (0 + 2 * 63))
      rw [descend, descend] at hleaf ⊢
      cases hc : child (childIndex k (0 + 2 * 63)) with
      | null => simp
      | node leaf nKey nKeylen nNhId child =>
        rw [hc] at hleaf hbelow
        obtain rfl : leaf = true := by simpa [FibNode.isInner] using hleaf
        simp [look_leaf _ _ _ (hbelow.1 rfl).2]

end Fib

namespace Radix

open Fib (Acc FibTree)

/-! ## The RIB -/

/-- The body of `_add`, `BIT_CHECK` checked. -/
def addAtIn (down : RibNode → Acc → Except Fault (RibNode × Acc)) (valid : Bool)
    (entry : RouteEntry) (left right : RibNode) (key : IpAddr) (keylen : Nat)
    (data : RouteEntry) (depth : Nat) (acc : Acc) : Except Fault (RibNode × Acc) :=
  if depth = keylen then return (.node true data left right, { acc with success := 0 })
  else do
    if ← bitCheckIn key depth then
      let (right, acc) ← down right acc
      return (.node valid entry left right, acc)
    else
      let (left, acc) ← down left acc
      return (.node valid entry left right, acc)

/-- `_add`, `BIT_CHECK` checked. -/
def addIn (malloc : Nat → Bool) :
    Nat → RibNode → IpAddr → Nat → RouteEntry → Nat → Acc → Except Fault (RibNode × Acc)
  | 0, n, _, _, _, _, acc => .ok (n, acc)
  | fuel + 1, .null, key, keylen, data, depth, acc =>
    match createRibNode malloc acc with
    | (.null, acc) => .ok (.null, { acc with success := -1 })
    | (.node valid entry left right, acc) =>
      addAtIn (fun c acc => addIn malloc fuel c key keylen data (depth + 1) acc)
        valid entry left right key keylen data depth acc
  | fuel + 1, .node valid entry left right, key, keylen, data, depth, acc =>
    addAtIn (fun c acc => addIn malloc fuel c key keylen data (depth + 1) acc)
      valid entry left right key keylen data depth acc

/-- `rib_route_add`, `BIT_CHECK` checked. -/
def ribRouteAddIn (malloc : Nat → Bool) (t : RibTree) (key : IpAddr) (keylen : Nat)
    (data : RouteEntry) : Except Fault (RibTree × Int) := do
  let (root, acc) ← addIn malloc (keylen + 1) t.root key keylen data 0 ⟨0, 0⟩
  return ({ t with root := root }, acc.success)

/-- `_delete`, `BIT_CHECK` checked. -/
def deleteIn : RibNode → IpAddr → Nat → Nat → Int → Except Fault (RibNode × Int)
  | .null, _, _, _, success => .ok (.null, success)
  | .node valid entry left right, key, keylen, depth, success =>
    if depth = keylen then
      if valid then return (shrink (.node false .zero left right), 0)
      else return (.null, -1)
    else do
      if ← bitCheckIn key depth then
        let (right, success) ← deleteIn right key keylen (depth + 1) success
        return (.node valid entry left right, success)
      else
        let (left, success) ← deleteIn left key keylen (depth + 1) success
        return (.node valid entry left right, success)

/-- `rib_route_delete`, `BIT_CHECK` checked. -/
def ribRouteDeleteIn (t : RibTree) (key : IpAddr) (keylen : Nat) :
    Except Fault (RibTree × Int) := do
  let (root, success) ← deleteIn t.root key keylen 0 0
  return ({ t with root := root }, success)

/-- `_lookup`, `BIT_CHECK` checked. -/
def lookupIn : RibNode → Option RibNode → IpAddr → Nat → Except Fault (Option RibNode)
  | .null, cand, _, _ => .ok cand
  | .node valid entry left right, cand, key, depth => do
    let cand := if valid then some (.node valid entry left right) else cand
    if ← bitCheckIn key depth then lookupIn right cand key (depth + 1)
    else lookupIn left cand key (depth + 1)

/-- `rib_route_lookup`, `BIT_CHECK` checked. -/
def ribRouteLookupIn (t : RibTree) (key : IpAddr) : Except Fault (Option RibNode) :=
  lookupIn t.root none key 0

theorem addAtIn_eq {down : RibNode → Acc → RibNode × Acc}
    {downIn : RibNode → Acc → Except Fault (RibNode × Acc)} {valid : Bool} {entry : RouteEntry}
    {left right : RibNode} {key : IpAddr} {keylen depth : Nat} {data : RouteEntry} {acc : Acc}
    (hlen : keylen ≤ 128) (hdepth : depth ≤ keylen)
    (hdown : depth < keylen → ∀ c acc, downIn c acc = .ok (down c acc)) :
    addAtIn downIn valid entry left right key keylen data depth acc
      = .ok (addAt down valid entry left right key keylen data depth acc) := by
  unfold addAtIn addAt
  by_cases heq : depth = keylen
  · rw [if_pos heq, if_pos heq]
    rfl
  · have hlt : depth < keylen := by omega
    rw [if_neg heq, if_neg heq, bitCheckIn_of_lt key (by omega)]
    simp only [hdown hlt, bind, Except.bind]
    split <;> rfl

theorem addIn_eq (malloc : Nat → Bool) (fuel : Nat) : ∀ (n : RibNode) (key : IpAddr)
    (keylen : Nat) (data : RouteEntry) (depth : Nat) (acc : Acc), keylen ≤ 128 →
    depth ≤ keylen → addIn malloc fuel n key keylen data depth acc
      = .ok (add malloc fuel n key keylen data depth acc) := by
  induction fuel with
  | zero => intro n key keylen data depth acc _ _; rfl
  | succ fuel ih =>
    intro n key keylen data depth acc hlen hdepth
    have hdown : depth < keylen → ∀ c acc,
        addIn malloc fuel c key keylen data (depth + 1) acc
          = .ok (add malloc fuel c key keylen data (depth + 1) acc) :=
      fun hlt c acc => ih c key keylen data _ acc hlen hlt
    cases n with
    | null =>
      rw [addIn, add, createRibNode]
      cases malloc acc.mallocs with
      | true => exact addAtIn_eq hlen hdepth hdown
      | false => rfl
    | node valid entry left right => exact addAtIn_eq hlen hdepth hdown

theorem deleteIn_eq (key : IpAddr) {keylen : Nat} (hlen : keylen ≤ 128) (n : RibNode) :
    ∀ (depth : Nat) (success : Int), depth ≤ keylen →
    deleteIn n key keylen depth success = .ok (delete n key keylen depth success) := by
  induction n with
  | null => intro depth success _; rfl
  | node valid entry left right ihl ihr =>
    intro depth success hdepth
    unfold deleteIn delete
    by_cases heq : depth = keylen
    · rw [if_pos heq, if_pos heq]
      split <;> rfl
    · rw [if_neg heq, if_neg heq, bitCheckIn_of_lt key (by omega)]
      simp only [ihl _ _ (by omega : depth + 1 ≤ keylen), ihr _ _ (by omega : depth + 1 ≤ keylen),
        bind, Except.bind]
      split <;> rfl

/-- A lookup stays within the key exactly when there is no node at depth 128 on its path. -/
theorem lookupIn_eq_iff (key : IpAddr) (n : RibNode) : ∀ (cand : Option RibNode)
    (levels depth : Nat), depth + levels = 128 →
    (lookupIn n cand key depth = .ok (lookup n cand key depth)
      ↔ nodeAt n (bitsFrom key depth levels) = .null) := by
  induction n with
  | null => intro cand levels depth _; simp [lookupIn, lookup]
  | node valid entry left right ihl ihr =>
    intro cand levels depth hdepth
    cases levels with
    | zero =>
      rw [lookupIn, bitCheckIn_of_ge key (by omega)]
      exact iff_of_false (fun h => by cases h) fun h => by cases h
    | succ levels =>
      rw [lookupIn, lookup, bitsFrom_succ, nodeAt_cons, bitCheckIn_of_lt key (by omega),
        bitCheck_eq_keyBit]
      cases hbit : keyBit key depth with
      | true => exact ihr _ levels (depth + 1) (by omega)
      | false => exact ihl _ levels (depth + 1) (by omega)

/-! ### The nodes at depth 128 -/

/-- At depth 128 there are routes only, and nothing below them. -/
def Fits : RibNode → Nat → Prop
  | .null, _ => True
  | .node valid _ left right, depth =>
    (depth = 128 → valid = true ∧ left = .null ∧ right = .null)
      ∧ Fits left (depth + 1) ∧ Fits right (depth + 1)

theorem Fits.addAt {down : RibNode → Acc → RibNode × Acc} {valid : Bool} {entry : RouteEntry}
    {left right : RibNode} {key : IpAddr} {keylen depth : Nat} {data : RouteEntry} {acc : Acc}
    (hlen : keylen ≤ 128) (hdepth : depth ≤ keylen)
    (hend : depth = 128 → left = .null ∧ right = .null)
    (hleft : Fits left (depth + 1)) (hright : Fits right (depth + 1))
    (hdown : depth < keylen → ∀ c acc, Fits c (depth + 1) → Fits (down c acc).1 (depth + 1)) :
    Fits (addAt down valid entry left right key keylen data depth acc).1 depth := by
  unfold Radix.addAt
  by_cases heq : depth = keylen
  · rw [if_pos heq]
    exact ⟨fun h => ⟨rfl, hend h⟩, hleft, hright⟩
  · have hlt : depth < keylen := by omega
    rw [if_neg heq]
    split
    · exact ⟨fun h => absurd h (by omega), hleft, hdown hlt _ _ hright⟩
    · exact ⟨fun h => absurd h (by omega), hdown hlt _ _ hleft, hright⟩

theorem fits_add (malloc : Nat → Bool) (fuel : Nat) : ∀ (n : RibNode) (key : IpAddr)
    (keylen : Nat) (data : RouteEntry) (depth : Nat) (acc : Acc), keylen ≤ 128 →
    depth ≤ keylen → Fits n depth →
    Fits (add malloc fuel n key keylen data depth acc).1 depth := by
  induction fuel with
  | zero => intro n key keylen data depth acc _ _ h; exact h
  | succ fuel ih =>
    intro n key keylen data depth acc hlen hdepth h
    have hdown : depth < keylen → ∀ c acc, Fits c (depth + 1) →
        Fits (add malloc fuel c key keylen data (depth + 1) acc).1 (depth + 1) :=
      fun hlt c acc hc => ih c key keylen data _ acc hlen hlt hc
    cases n with
    | null =>
      rw [add, createRibNode]
      cases malloc acc.mallocs with
      | true => exact .addAt hlen hdepth (fun _ => ⟨rfl, rfl⟩) trivial trivial hdown
      | false => trivial
    | node valid entry left right =>
      exact .addAt hlen hdepth (fun hd => (h.1 hd).2) h.2.1 h.2.2 hdown

theorem fits_shrink (n : RibNode) : ∀ depth : Nat, Fits n depth → Fits (shrink n) depth := by
  induction n with
  | null => intro depth h; exact h
  | node valid entry left right ihl ihr =>
    intro depth ⟨hend, hleft, hright⟩
    unfold shrink
    split
    · trivial
    · refine ⟨fun hd => ?_, ihl _ hleft, ihr _ hright⟩
      obtain ⟨hvalid, rfl, rfl⟩ := hend hd
      exact ⟨hvalid, rfl, rfl⟩

theorem fits_delete (key : IpAddr) {keylen : Nat} (hlen : keylen ≤ 128) (n : RibNode) :
    ∀ (depth : Nat) (success : Int), depth ≤ keylen → Fits n depth →
    Fits (delete n key keylen depth success).1 depth := by
  induction n with
  | null => intro depth success _ h; exact h
  | node valid entry left right ihl ihr =>
    intro depth success hdepth ⟨hend, hleft, hright⟩
    rw [delete]
    by_cases heq : depth = keylen
    · rw [if_pos heq]
      split
      · by_cases hd : depth = 128
        · -- a route of full length is a leaf, and shrinks to nothing
          obtain ⟨-, rfl, rfl⟩ := hend hd
          trivial
        · exact fits_shrink _ depth ⟨fun h => absurd h hd, hleft, hright⟩
      · trivial
    · rw [if_neg heq]
      split
      · exact ⟨fun hd => absurd hd (by omega), hleft, ihr _ _ (by omega) hright⟩
      · exact ⟨fun hd => absurd hd (by omega), ihl _ _ (by omega) hleft, hright⟩

theorem Fits.nodeAt (p : List Bool) : ∀ {n : RibNode} {depth : Nat}, Fits n depth →
    Fits (nodeAt n p) (depth + p.length) := by
  induction p with
  | nil => intro n depth h; simpa using h
  | cons b p ih =>
    intro n depth h
    have hdepth : depth + (b :: p).length = depth + 1 + p.length := by
      rw [List.length_cons]
      omega
    rw [hdepth]
    cases n with
    | null => trivial
    | node valid entry left right =>
      cases b with
      | true => exact ih h.2.2
      | false => exact ih h.2.1

/-- The length of the prefix that a call is about. -/
def RibCall.keylen : RibCall → Nat
  | .add _ _ keylen _ => keylen
  | .delete _ keylen => keylen

theorem fits_treeAfter {calls : List RibCall} (h : ∀ call ∈ calls, call.keylen ≤ 128) :
    Fits (treeAfter calls).root 0 := by
  refine List.foldlRecOn calls afterCall (motive := fun t => Fits t.root 0)
    (show Fits ribNew.root 0 from trivial) ?_
  intro t ht call hcall
  have hlen := h call hcall
  cases call with
  | add malloc key keylen data =>
    exact fits_add malloc _ _ key keylen data 0 _ hlen (Nat.zero_le _) ht
  | delete key keylen => exact fits_delete key hlen _ 0 _ (Nat.zero_le _) ht

/-- In such a tree the node at depth 128 is the host route. -/
theorem nodeAt_host_iff {n : RibNode} (h : Fits n 0) (key : IpAddr) :
    nodeAt n (prefixOf key 128) = .null ↔ routes n (prefixOf key 128) = none := by
  have hfits := Fits.nodeAt (prefixOf key 128) h
  have hroute := isSome_routes n (prefixOf key 128)
  cases hn : nodeAt n (prefixOf key 128) with
  | null =>
    rw [hn] at hroute
    simpa [RibNode.isValid] using hroute
  | node valid entry left right =>
    rw [hn] at hroute hfits
    have hvalid : valid = true := (hfits.1 (by simp)).1
    rw [RibNode.isValid, hvalid] at hroute
    refine iff_of_false (fun h => by cases h) fun hnone => ?_
    simp [hnone] at hroute

end Radix

/-! ## Both tries -/

open Fib (FibRoute FibTree fibNew fibRouteAdd fibRouteAddAll fibRouteAddIn fibRouteLookup
  fibRouteLookupIn mallocOk)
open Radix

/-- Every operation on the two trees that is given `key` stays within the key: with its reads
    checked it does what it does without. Prefixes have at most 128 bits. -/
structure KeyReads (rib : RibTree) (fib : FibTree) (key : IpAddr) : Prop where
  fibAdd : ∀ malloc keylen nhId mallocs, keylen ≤ 128 →
    fibRouteAddIn malloc fib key keylen nhId mallocs
      = .ok (fibRouteAdd malloc fib key keylen nhId mallocs)
  fibLookup : fibRouteLookupIn fib key = .ok (fibRouteLookup fib key)
  ribAdd : ∀ malloc keylen data, keylen ≤ 128 →
    ribRouteAddIn malloc rib key keylen data = .ok (ribRouteAdd malloc rib key keylen data)
  ribDelete : ∀ keylen, keylen ≤ 128 →
    ribRouteDeleteIn rib key keylen = .ok (ribRouteDelete rib key keylen)
  ribLookup : ribRouteLookupIn rib key = .ok (ribRouteLookup rib key)

/-- Only the lookups are at risk. -/
theorem keyReads_of_lookups {rib : RibTree} {fib : FibTree} {key : IpAddr}
    (hwf : Fib.WF fib.root 0) (hrib : nodeAt rib.root (prefixOf key 128) = .null)
    (hfib : Fib.descend 64 fib.root key 0 = .null) : KeyReads rib fib key where
  fibAdd malloc keylen nhId mallocs hlen := by
    rw [fibRouteAddIn, Fib.addIn_eq malloc _ _ key keylen nhId 0 _ hwf (.inl hlen)]
    rfl
  fibLookup := (Fib.lookupIn_eq_iff key fib.root none 64 0 rfl).mpr hfib
  ribAdd malloc keylen data hlen := by
    rw [ribRouteAddIn, Radix.addIn_eq malloc _ _ key keylen data 0 _ hlen (Nat.zero_le _)]
    rfl
  ribDelete keylen hlen := by
    rw [ribRouteDeleteIn, Radix.deleteIn_eq key hlen _ 0 0 (Nat.zero_le _)]
    rfl
  ribLookup := by
    rw [← bitsFrom_zero_eq] at hrib
    exact (Radix.lookupIn_eq_iff key rib.root none 128 0 rfl).mpr hrib

/-- **The tries stay within a key exactly when the RIB has no host route for it and its path
    in the FIB ends above depth 128.** With memory, the latter is a matter of the routes: none
    of 127 bits or more agrees with the key in the first 126, or none matches it at all. -/
theorem keyReads_iff (calls : List RibCall) (hcalls : ∀ call ∈ calls, call.keylen ≤ 128)
    (malloc : Nat → Bool) (rs : List FibRoute) (hrs : ∀ r ∈ rs, r.keylen ≤ 128) (key : IpAddr) :
    (KeyReads (treeAfter calls) (fibRouteAddAll malloc (fibNew, 0) rs).1 key
      ↔ routes (treeAfter calls).root (prefixOf key 128) = none
        ∧ Fib.descend 64 (fibRouteAddAll malloc (fibNew, 0) rs).1.root key 0 = .null)
    ∧ (Fib.descend 64 (fibRouteAddAll mallocOk (fibNew, 0) rs).1.root key 0 = .null
      ↔ ¬ ((∃ r ∈ rs, 126 < r.keylen ∧ Fib.Agree r.key key 0 126)
          ∧ ∃ r ∈ rs, r.Matches key)) := by
  have hwf := Fib.wf_fibRouteAddAll malloc rs (fibNew, 0) trivial
  have hhost := nodeAt_host_iff (fits_treeAfter hcalls) key
  constructor
  · rw [← hhost]
    constructor
    · intro h
      have hrib := (Radix.lookupIn_eq_iff key _ none 128 0 rfl).mp h.ribLookup
      rw [bitsFrom_zero_eq] at hrib
      exact ⟨hrib, (Fib.lookupIn_eq_iff key _ none 64 0 rfl).mp h.fibLookup⟩
    · rintro ⟨hrib, hfib⟩
      exact keyReads_of_lookups hwf hrib hfib
  · rw [← Fib.descend_host_iff hrs key, not_not]

/-- A /24 in the FIB, and the RIB still empty. -/
theorem keyReads_short : KeyReads (treeAfter [])
    (fibRouteAddAll mallocOk (fibNew, 0) [⟨.zero, 24, 1⟩]).1 .zero := by
  have hkey := keyReads_iff [] (by simp) mallocOk [⟨.zero, 24, 1⟩] (by simp) .zero
  refine hkey.1.mpr ⟨rfl, hkey.2.mpr ?_⟩
  simp

/-- The FIB looks past the sentinel for the address of a host route. -/
theorem lookup_reads_past_key :
    ¬ ∀ (calls : List RibCall) (rs : List FibRoute) (key : IpAddr),
      (∀ call ∈ calls, call.keylen ≤ 128) → (∀ r ∈ rs, r.keylen ≤ 128) →
      KeyReads (treeAfter calls) (fibRouteAddAll mallocOk (fibNew, 0) rs).1 key := by
  intro h
  have hreads := h [] [⟨.zero, 128, 1⟩] .zero (by simp) (by simp)
  have hdeep : Fib.descend 64
      (fibRouteAddAll mallocOk (fibNew, 0) [⟨.zero, 128, 1⟩]).1.root .zero 0 ≠ .null := by
    rw [Fib.descend_host_iff (by simp)]
    simp [Fib.Agree, FibRoute.Matches]
  exact hdeep ((Fib.lookupIn_eq_iff .zero _ none 64 0 rfl).mp hreads.fibLookup)

end SdPlane
