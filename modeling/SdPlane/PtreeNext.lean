import SdPlane.PtreeSearch

/-!
# Going through all of the nodes (`ptree.c`)

`ptree_next` finds the next node without remembering the way: down if there is a child, or else up
until there is a way down on the right that was not taken (`Up`). From the top this is preorder, in
every tree (`visits_tree`).

`ptree_traversal_iff` is the result, over any sequence of additions; and `ptree_count`, which goes
this way, gives the number of keys exactly if that is an `int`.
-/

set_option autoImplicit false

namespace SdPlane

open Lib.Patricia

variable {D : Type} {s : Ptree D} {u q : Option Addr} {p k : List Bool} {t : Tree D} {v : Addr}
  {d : Option D} {c : Bool → Tree D}

/-- `q` is what comes after all that is below `v`, whose parent is `u`. -/
inductive Up (s : Ptree D) : Addr → Option Addr → Option Addr → Prop
  | top (v : Addr) : Up s v none none
  | right {v w r : Addr} {y : PtreeNode D} (hy : s.heap w = some y)
      (hleft : y.child false = some v) (hright : y.child true = some r) (hne : r ≠ v) :
      Up s v (some w) (some r)
  | above {v w : Addr} {q : Option Addr} {y : PtreeNode D} (hy : s.heap w = some y)
      (hlast : y.child true = some v ∧ y.child false ≠ some v ∨ y.child true = none)
      (hshort : ∀ w' y', y.parent = some w' → s.heap w' = some y' → y'.keylen < y.keylen)
      (hup : Up s w y.parent q) : Up s v (some w) q

theorem climb_up (h : Up s v u q) (more : Nat) (hpos : 0 < more)
    (hmore : ∀ w y, u = some w → s.heap w = some y → y.keylen + 1 < more) :
    ∃ r, climb s more (some v) u = .ok r ∧ match r with
      | none => q = none
      | some w => ∃ y, s.heap w = some y ∧ (y.child true).isSome ∧ y.child true = q := by
  induction h generalizing more with
  | top v =>
    obtain ⟨more, rfl⟩ := Nat.exists_eq_succ_of_ne_zero hpos.ne'
    exact ⟨none, rfl, rfl⟩
  | right hy hleft hright hne =>
    obtain ⟨more, rfl⟩ := Nat.exists_eq_succ_of_ne_zero hpos.ne'
    rw [climb, node_of_heap hy, Lib.ok_bind, if_neg (by simp [hright, hne])]
    exact ⟨_, rfl, _, hy, by simp [hright], hright⟩
  | above hy hlast hshort hup ih =>
    obtain ⟨more, rfl⟩ := Nat.exists_eq_succ_of_ne_zero hpos.ne'
    have hfuel := hmore _ _ rfl hy
    rw [climb, node_of_heap hy, Lib.ok_bind, if_pos]
    · refine ih more (by omega) fun w' y' hw' hy' => ?_
      have hlt := hshort w' y' hw' hy'
      omega
    · rcases hlast with ⟨htrue, -⟩ | hnone
      · exact .inl htrue
      · exact .inr (by simp [hnone])

/-- A node without children. -/
theorem next_leaf {x : PtreeNode D} (hx : s.heap v = some x) (hchild : ∀ b, x.child b = none)
    (h : Up s v x.parent q) : ptreeNext v s = .ok q := by
  rw [ptreeNext, node_of_heap hx, Lib.ok_bind, if_neg (by simp [hchild]),
    if_neg (by simp [hchild])]
  cases hu : x.parent with
  | none =>
    rw [hu] at h
    cases h
    rfl
  | some w =>
    rw [hu] at h
    cases h with
    | right hy hleft hright hne =>
      dsimp only
      rw [node_of_heap hy, Lib.ok_bind, if_pos ⟨hleft, by simp [hright]⟩, hright]
      rfl
    | @above _ _ _ y hy hlast hshort hup =>
      have hno : ¬(y.child false = some v ∧ (y.child true).isSome) := by
        rintro ⟨hfalse, htrue⟩
        rcases hlast with ⟨-, hne⟩ | hnone
        · exact hne hfalse
        · simp [hnone] at htrue
      obtain ⟨r, hr, hend⟩ := climb_up hup (y.keylen + 1) (Nat.succ_pos _) fun w' y' hw' hy' =>
        Nat.succ_lt_succ (hshort w' y' hw' hy')
      dsimp only
      rw [node_of_heap hy, Lib.ok_bind, if_neg hno, hr, Lib.ok_bind]
      cases r with
      | none =>
        rw [hend]
        rfl
      | some w' =>
        obtain ⟨z, hz, hsome, rfl⟩ := hend
        dsimp only
        rw [node_of_heap hz, Lib.ok_bind, Lib.assert_of hsome]
        rfl

/-! ## Preorder -/

/-- `ptree_next` goes through a list, and then to `q`. -/
def Visits (s : Ptree D) : List Addr → Option Addr → Prop
  | [], _ => True
  | a :: l, q => ptreeNext a s = .ok (l.head?.or q) ∧ Visits s l q

theorem Visits.append {l l' : List Addr} (h : Visits s l (l'.head?.or q)) (h' : Visits s l' q) :
    Visits s (l ++ l') q := by
  induction l with
  | nil => exact h'
  | cons a l ih =>
    refine ⟨?_, ih h.2⟩
    rw [h.1]
    cases l <;> rfl

theorem head_names (t : Tree D) : t.names.head? = t.root := by
  cases t <;> rfl

/-- Every part of a tree, with what comes after it. -/
theorem visits_tree (h : Rep s.heap u t) (hunder : t.Under p) (hnodup : t.names.Nodup)
    (hup : ∀ a, t.root = some a → Up s a u q)
    (hshort : ∀ w y, u = some w → s.heap w = some y → y.keylen < p.length) :
    Visits s t.names q := by
  induction t generalizing u p q with
  | nil => trivial
  | node a k d c ih =>
    obtain ⟨⟨x, hx, hholds⟩, hbelow⟩ := h
    obtain ⟨hout, hnodups, hdisj⟩ := nodup_node.mp hnodup
    have hlen : x.keylen = k.length := by rw [← hholds.bits, PtreeNode.length_bits]
    have hp := hunder.1.length_le
    have habove : Up s a u q := hup a rfl
    have hshort' : ∀ w' y', x.parent = some w' → s.heap w' = some y' → y'.keylen < x.keylen :=
      fun w' y' hw' hy' => by
        have hlt := hshort w' y' (hholds.parent ▸ hw') hy'
        omega
    have hshort'' : ∀ b w y, some a = some w → s.heap w = some y → y.keylen < (k ++ [b]).length :=
      fun b w y hw hy => by
        obtain rfl := Option.some.inj hw
        obtain rfl := Option.some.inj (hx.symm.trans hy)
        simp [hlen]
    have hparent : Up s a x.parent q := hholds.parent ▸ habove
    -- the right side, and before it the left one
    have hright : Visits s (c true).names q := by
      refine ih true (hbelow true) (hunder.2 true) (hnodups true) (fun b hb => ?_) (hshort'' true)
      refine .above hx (.inl ⟨by rw [hholds.child, hb], fun heq => ?_⟩) hshort' hparent
      rw [hholds.child] at heq
      exact hdisj (root_mem heq) (root_mem hb)
    have hleft : Visits s (c false).names ((c true).names.head?.or q) := by
      refine ih false (hbelow false) (hunder.2 false) (hnodups false) (fun b hb => ?_)
        (hshort'' false)
      rw [head_names]
      cases hr : (c true).root with
      | none => exact .above hx (.inr (by rw [hholds.child, hr])) hshort' hparent
      | some r =>
        refine .right hx (by rw [hholds.child, hb]) (by rw [hholds.child, hr]) fun heq => ?_
        exact hdisj (root_mem hb) (heq ▸ root_mem hr)
    rw [names_node]
    refine ⟨?_, hleft.append hright⟩
    have hhead : ∀ b, x.child b = (c b).names.head? := fun b => by rw [hholds.child, head_names]
    cases hl : x.child false with
    | some l =>
      rw [ptreeNext, node_of_heap hx, Lib.ok_bind, if_pos (by simp [hl])]
      rw [List.head?_append, ← hhead, hl]
      rfl
    | none =>
      cases hr : x.child true with
      | some r =>
        rw [ptreeNext, node_of_heap hx, Lib.ok_bind, if_neg (by simp [hl]), if_pos (by simp [hr]),
          List.head?_append, ← hhead, ← hhead, hl, hr]
        rfl
      | none =>
        rw [List.head?_append, ← hhead, ← hhead, hl, hr]
        refine next_leaf hx (fun b => ?_) hparent
        cases b <;> assumption

/-- The nodes below a pointer: each before its left side, and that before its right side. -/
inductive Preorder (s : Ptree D) : Option Addr → List Addr → Prop
  | nil : Preorder s none []
  | node {a : Addr} {x : PtreeNode D} {l r : List Addr} (hx : s.heap a = some x)
      (hl : Preorder s (x.child false) l) (hr : Preorder s (x.child true) r) :
      Preorder s (some a) (a :: (l ++ r))

theorem Rep.preorder (h : Rep s.heap u t) : Preorder s t.root t.names := by
  induction t generalizing u with
  | nil => exact .nil
  | node a k d c ih =>
    obtain ⟨⟨x, hx, hholds⟩, hbelow⟩ := h
    rw [names_node]
    refine .node hx ?_ ?_
    · rw [hholds.child]
      exact ih false (hbelow false)
    · rw [hholds.child]
      exact ih true (hbelow true)

/-- Every node once, in preorder, and then the end. -/
structure Traversed (s : Ptree D) (l : List Addr) : Prop where
  preorder : Preorder s s.top l
  nodup : l.Nodup
  all : ∀ a, a ∈ l ↔ s.heap a ≠ none
  head : ptreeHead s = l.head?
  visits : Visits s l none

theorem Shape.traversed (h : Shape s t) : Traversed s t.names where
  preorder := by
    rw [h.top]
    exact h.rep.preorder
  nodup := h.nodup
  all a := (h.live a).symm
  head := by rw [ptreeHead, h.top, head_names]
  visits := visits_tree h.rep h.under h.nodup (fun a _ => .top a) nofun

/-! ## The number of keys -/

def hasData (s : Ptree D) (a : Addr) : Bool := (s.heap a).any (·.data.isSome)

/-- The nodes with data are counted in an `int`. -/
theorem countLoop_eq {l : List Addr} (hvisits : Visits s l none)
    (hlive : ∀ a, a ∈ l → s.heap a ≠ none) (more n : Nat) (hmore : l.length < more)
    (hn : n < 2 ^ 31) :
    countLoop s more n l.head? = if n + l.countP (hasData s) < 2 ^ 31
      then .ok ((n + l.countP (hasData s) : Nat) : Int) else .error .overflow := by
  induction l generalizing more n with
  | nil =>
    obtain ⟨more, rfl⟩ := Nat.exists_eq_succ_of_ne_zero (Nat.ne_zero_of_lt hmore)
    rw [List.countP_nil, Nat.add_zero, if_pos hn]
    rfl
  | cons a l ih =>
    obtain ⟨more, rfl⟩ := Nat.exists_eq_succ_of_ne_zero (Nat.ne_zero_of_lt hmore)
    obtain ⟨x, hx⟩ := Option.ne_none_iff_exists'.mp (hlive a List.mem_cons_self)
    have hnext : ptreeNext a s = .ok l.head? := by simpa using hvisits.1
    have hrest := fun m => ih hvisits.2 (fun a' ha' => hlive a' (List.mem_cons_of_mem _ ha')) more m
      (Nat.lt_of_succ_lt_succ hmore)
    rw [List.head?_cons, countLoop, node_of_heap hx, Lib.ok_bind]
    cases hd : x.data with
    | none =>
      have hno : hasData s a = false := by simp [hasData, hx, hd]
      rw [if_neg (by simp), Lib.ok_bind, hnext, Lib.ok_bind, hrest n hn,
        List.countP_cons_of_neg (by simp [hno])]
    | some d =>
      have hyes : hasData s a = true := by simp [hasData, hx, hd]
      rw [if_pos (by simp), List.countP_cons_of_pos hyes]
      by_cases hbig : n + 1 < 2 ^ 31
      · have hint : Lib.int ((n : Int) + 1) = .ok ((n + 1 : Nat) : Int) :=
          Lib.int_of_fits (by omega)
        rw [hint, Lib.ok_bind, hnext, Lib.ok_bind, hrest (n + 1) hbig]
        have hassoc : n + 1 + l.countP (hasData s) = n + (l.countP (hasData s) + 1) := by omega
        rw [hassoc]
      · have hint : Lib.int ((n : Int) + 1) = .error .overflow := Lib.int_of_big (by omega)
        rw [hint, if_neg (by omega)]
        rfl

/-- As many nodes as there were blocks at the most. -/
theorem Shape.length_names (h : Shape s t) : t.names.length ≤ s.next := by
  have hsub : t.names ⊆ List.range s.next := fun a ha => List.mem_range.mpr (h.used a ha)
  simpa using (List.subperm_of_subset h.nodup hsub).length_le

theorem Shape.count (h : Shape s t) : ptreeCount s
    = if t.names.countP (hasData s) < 2 ^ 31 then .ok (t.names.countP (hasData s) : Nat)
      else .error .overflow := by
  have hall := h.traversed
  have hcount := countLoop_eq hall.visits (fun a ha => (hall.all a).mp ha) (s.next + 1) 0
    (Nat.lt_succ_of_le h.length_names) (by decide)
  rw [Nat.zero_add] at hcount
  rw [ptreeCount, hall.head]
  exact hcount

/-! ## Every run -/

/-- What is stored after some calls, each with whether it got its node. -/
def storedMap (m : List Bool → Option D) : List (AddOp D × Bool) → List Bool → Option D
  | [] => m
  | (op, added) :: calls =>
    storedMap (if added then Function.update m op.bits op.data else m) calls

/-- The keys that have data, each once. -/
def storedKeys (calls : List (AddOp D × Bool)) : List (List Bool) :=
  (calls.map (·.1.bits)).dedup.filter fun q => (storedMap (fun _ => none) calls q).isSome

theorem standsFor_run {s' : Ptree D} {m : List Bool → Option D} {ops : List (AddOp D)}
    {outs : List Bool} (h : StandsFor s m) (hrun : Lib.runOps AddOp.run s ops = .ok (s', outs)) :
    StandsFor s' (storedMap m (ops.zip outs)) := by
  induction ops generalizing s m outs with
  | nil =>
    obtain ⟨rfl, rfl⟩ := Prod.mk.inj (Except.ok.inj hrun)
    exact h
  | cons op ops ih =>
    rw [Lib.runOps] at hrun
    have hop := op.run_standsFor h
    cases hr : op.run s with
    | error e => simp [hr] at hrun
    | ok r =>
      obtain ⟨s₁, added⟩ := r
      rw [hr] at hrun hop
      cases hrest : Lib.runOps AddOp.run s₁ ops with
      | error e => simp [hrest] at hrun
      | ok r' =>
        obtain ⟨s₂, outs'⟩ := r'
        simp only [hrest, Except.ok.injEq, Prod.mk.injEq] at hrun
        obtain ⟨rfl, rfl⟩ := hrun
        exact ih hop.2.2 hrest

theorem mem_of_storedMap {m : List Bool → Option D} {calls : List (AddOp D × Bool)} {q : List Bool}
    (h : (storedMap m calls q).isSome) : (m q).isSome ∨ q ∈ calls.map (·.1.bits) := by
  induction calls generalizing m with
  | nil => exact .inl h
  | cons call calls ih =>
    obtain ⟨op, added⟩ := call
    rcases ih h with hm | hmem
    · by_cases hq : q = op.bits
      · exact .inr (by simp [hq])
      · cases added with
        | false => exact .inl hm
        | true =>
          rw [if_pos rfl, Function.update_of_ne hq] at hm
          exact .inl hm
    · exact .inr (by simp only [List.map_cons, List.mem_cons, hmem, or_true])

theorem storedKeys_length {m : List Bool → Option D} {calls : List (AddOp D × Bool)}
    (h : Shape s t) (hm : Stores t m) (hcalls : storedMap (fun _ => none) calls = m) :
    t.names.countP (hasData s) = (storedKeys calls).length := by
  -- the keys of the nodes with data
  have hnames : t.names.countP (hasData s)
      = ((t.entries.filter (·.data.isSome)).map (·.key)).length := by
    rw [names, List.countP_map, List.length_map, ← List.countP_eq_length_filter]
    refine List.countP_congr fun e he => ?_
    obtain ⟨x, hx, -, hdata⟩ := h.rep.entry he
    simp [hasData, hx, hdata]
  have hnodup : ((t.entries.filter (·.data.isSome)).map (·.key)).Nodup := by
    refine List.Nodup.map_on (fun e he f hf heq => ?_) ((List.Nodup.of_map _ h.nodup).filter _)
    exact h.under.key_inj (List.mem_of_mem_filter he) (List.mem_of_mem_filter hf) heq
  have hmem : ∀ q, q ∈ (t.entries.filter (·.data.isSome)).map (·.key) ↔ (m q).isSome := fun q => by
    rw [List.mem_map, Option.isSome_iff_exists]
    constructor
    · rintro ⟨e, he, rfl⟩
      obtain ⟨he, hd⟩ := List.mem_filter.mp he
      obtain ⟨d, hd⟩ := Option.isSome_iff_exists.mp hd
      exact ⟨d, (hm _ d).mpr ⟨e, he, rfl, hd⟩⟩
    · rintro ⟨d, hd⟩
      obtain ⟨e, he, rfl, hed⟩ := (hm q d).mp hd
      exact ⟨e, List.mem_filter.mpr ⟨he, by simp [hed]⟩, rfl⟩
  rw [hnames]
  refine ((List.perm_ext_iff_of_nodup hnodup ((List.nodup_dedup _).filter _)).mpr fun q => ?_).length_eq
  rw [hmem, List.mem_filter, List.mem_dedup, hcalls]
  refine ⟨fun hq => ⟨?_, hq⟩, And.right⟩
  rw [← hcalls] at hq
  exact (mem_of_storedMap hq).resolve_left (by simp)

theorem count_of_run {ops : List (AddOp D)} {outs : List Bool}
    (hrun : Lib.runOps AddOp.run ptreeCreate ops = .ok (s, outs)) :
    (∃ l, Traversed s l) ∧ ptreeCount s = if (storedKeys (ops.zip outs)).length < 2 ^ 31
      then .ok ((storedKeys (ops.zip outs)).length : Nat) else .error .overflow := by
  obtain ⟨t, hshape, hstores⟩ := standsFor_run standsFor_create hrun
  have hcount := hshape.count
  rw [storedKeys_length hshape hstores rfl] at hcount
  exact ⟨⟨_, hshape.traversed⟩, hcount⟩

/-- **The traversal is complete**, after any additions: every node once, in preorder, and then
    `NULL`. With it goes the number of keys that have data, if that is an `int`. -/
theorem ptree_traversal_iff {ops : List (AddOp D)} {outs : List Bool}
    (hrun : Lib.runOps AddOp.run ptreeCreate ops = .ok (s, outs)) :
    ((∃ l, Traversed s l) ∧ ptreeCount s = .ok ((storedKeys (ops.zip outs)).length : Nat))
      ↔ (storedKeys (ops.zip outs)).length < 2 ^ 31 := by
  obtain ⟨htraversed, hcount⟩ := count_of_run hrun
  rw [hcount]
  constructor
  · rintro ⟨-, hok⟩
    by_contra hbig
    rw [if_neg hbig] at hok
    cases hok
  · intro hsmall
    exact ⟨htraversed, if_pos hsmall⟩

/-- Two keys, the first of them added twice. -/
theorem ptree_traversal_sample : ∃ s outs,
    Lib.runOps AddOp.run ptreeCreate sampleAdds = .ok (s, outs)
      ∧ (∃ l, Traversed s l) ∧ ptreeCount s = .ok 2 := by
  obtain ⟨s, hrun⟩ : ∃ s, Lib.runOps AddOp.run ptreeCreate sampleAdds
      = .ok (s, [true, true, true]) := ⟨_, rfl⟩
  have hkeys : (storedKeys (sampleAdds.zip [true, true, true])).length = 2 := by decide
  have hall := (ptree_traversal_iff hrun).mpr (by rw [hkeys]; decide)
  rw [hkeys] at hall
  exact ⟨s, _, hrun, hall⟩

/-! ### More keys than an `int` counts -/

/-- An address of 32 bits. -/
def hostAdd (i : Nat) : AddOp Nat :=
  ⟨fun j => (i / 256 ^ (3 - j)).toUInt8, 32, some i, some fun _ => 0, some fun _ => 0⟩

theorem hostAdd_inj {i j : Nat} (hi : i < 2 ^ 32) (hj : j < 2 ^ 32)
    (h : (hostAdd i).bits = (hostAdd j).bits) : i = j := by
  have hbytes : ∀ b, b < 4 → (hostAdd i).key b = (hostAdd j).key b := Lib.bits_bytes.mp h
  have hbyte : ∀ b, b < 4 → i / 256 ^ (3 - b) % 256 = j / 256 ^ (3 - b) % 256 := fun b hb => by
    simpa [hostAdd] using congrArg UInt8.toNat (hbytes b hb)
  have h₀ := hbyte 0 (by decide)
  have h₁ := hbyte 1 (by decide)
  have h₂ := hbyte 2 (by decide)
  have h₃ := hbyte 3 (by decide)
  norm_num at h₀ h₁ h₂ h₃
  omega

theorem run_all_granted {m : List Bool → Option D} {ops : List (AddOp D)} (h : StandsFor s m)
    (hops : ∀ op, op ∈ ops → op.Granted ∧ op.Fits) :
    ∃ s', Lib.runOps AddOp.run s ops = .ok (s', List.replicate ops.length true) := by
  induction ops generalizing s m with
  | nil => exact ⟨s, rfl⟩
  | cons op ops ih =>
    obtain ⟨hgranted, hfits⟩ := hops op List.mem_cons_self
    obtain ⟨s₁, hrun, hs₁⟩ := run_granted h hgranted hfits
    obtain ⟨s', hrest⟩ := ih hs₁ fun op' hop' => hops op' (List.mem_cons_of_mem _ hop')
    refine ⟨s', ?_⟩
    rw [Lib.runOps, hrun]
    simp only [storeSpec, hrest]
    rfl

theorem storedMap_all {m : List Bool → Option D} {ops : List (AddOp D)} {q : List Bool}
    (hops : ∀ op, op ∈ ops → op.data.isSome) (hq : (m q).isSome ∨ q ∈ ops.map AddOp.bits) :
    (storedMap m (ops.zip (List.replicate ops.length true)) q).isSome := by
  induction ops generalizing m with
  | nil => exact hq.resolve_right (by simp)
  | cons op ops ih =>
    have hdata := hops op List.mem_cons_self
    refine ih (fun op' hop' => hops op' (List.mem_cons_of_mem _ hop')) ?_
    rw [if_pos rfl]
    by_cases heq : q = op.bits
    · exact .inl (by rw [heq, Function.update_self]; exact hdata)
    · rw [Function.update_of_ne heq]
      exact hq.imp_right fun hmem => (List.mem_cons.mp hmem).resolve_left heq

/-- `n` addresses are `n` keys. -/
theorem storedKeys_hosts {n : Nat} (hn : n ≤ 2 ^ 32) :
    (storedKeys (((List.range n).map hostAdd).zip (List.replicate n true))).length = n := by
  have hlen : ((List.range n).map hostAdd).length = n := by simp
  have hkeys : (((List.range n).map hostAdd).zip (List.replicate n true)).map (·.1.bits)
      = (List.range n).map fun i => (hostAdd i).bits := by
    have hcomp : (fun x : AddOp Nat × Bool => x.1.bits) = AddOp.bits ∘ Prod.fst := rfl
    rw [hcomp, ← List.map_map, List.map_fst_zip (by simp), List.map_map]
    rfl
  have hnodup : ((List.range n).map fun i => (hostAdd i).bits).Nodup := by
    refine List.Nodup.map_on (fun i hi j hj heq => ?_) List.nodup_range
    exact hostAdd_inj ((List.mem_range.mp hi).trans_le hn) ((List.mem_range.mp hj).trans_le hn) heq
  rw [storedKeys, hkeys, hnodup.dedup, List.filter_eq_self.mpr]
  · simp
  · intro q hq
    have hdata : ∀ op, op ∈ (List.range n).map hostAdd → op.data.isSome := fun op hop => by
      obtain ⟨i, -, rfl⟩ := List.mem_map.mp hop
      rfl
    have hmem : q ∈ ((List.range n).map hostAdd).map AddOp.bits := by
      rw [List.map_map]
      exact hq
    have hall := storedMap_all (m := fun _ => none) hdata (.inr hmem)
    rwa [hlen] at hall

/-- 2³¹ addresses are too many. -/
theorem ptree_count_overflows : ∃ s outs,
    Lib.runOps AddOp.run ptreeCreate ((List.range (2 ^ 31)).map hostAdd) = .ok (s, outs)
      ∧ (storedKeys (((List.range (2 ^ 31)).map hostAdd).zip outs)).length = 2 ^ 31
      ∧ ptreeCount s = .error .overflow := by
  obtain ⟨n, hn⟩ : ∃ n, n = 2 ^ 31 := ⟨_, rfl⟩
  rw [← hn]
  have hfits : (hostAdd 0).Fits := by unfold AddOp.Fits; decide
  have hgranted : ∀ op, op ∈ (List.range n).map hostAdd → op.Granted ∧ op.Fits := fun op hop => by
    obtain ⟨i, -, rfl⟩ := List.mem_map.mp hop
    exact ⟨⟨rfl, rfl⟩, hfits⟩
  obtain ⟨s, hrun⟩ := run_all_granted standsFor_create hgranted
  have hlen : ((List.range n).map hostAdd).length = n := by simp
  rw [hlen] at hrun
  have hkeys : (storedKeys _).length = n := storedKeys_hosts (by omega)
  refine ⟨s, _, hrun, hkeys, ?_⟩
  obtain ⟨-, hcount⟩ := count_of_run hrun
  rw [hcount, hkeys, if_neg (by omega)]

end SdPlane
