import SdPlane.Lib.Simulation
import SdPlane.PtreeAdd

/-!
# What the Patricia tree is for (`ptree.c`)

A tree to which keys are added is a map from bit strings, the last data of a key being the one that
counts, and `ptree_search` finds the longest of its keys that a bit string begins with.

`ptree_map_iff` is the result: any number of additions, with the memory that they ask for, do
that as long as the length of every key, rounded up to bytes, is an `int`.
-/

set_option autoImplicit false

namespace SdPlane

variable {D : Type}

/-- What the searches find in a tree that stands for `m`, and how its keys are ordered. -/
structure Searches (s : Ptree D) (m : List Bool → Option D) : Prop where
  searchExact : ∀ key keylen, ∃ r, ptreeSearchExact key keylen s = .ok r ∧ match r with
    | none => m (Lib.bits key keylen) = none
    | some a => ∃ x, s.heap a = some x ∧ x.bits = Lib.bits key keylen ∧ x.data.isSome
      ∧ m (Lib.bits key keylen) = x.data
  search : ∀ key keylen, ∃ r, ptreeSearch key keylen s = .ok r ∧ match r with
    | none => ∀ k, k <+: Lib.bits key keylen → m k = none
    | some a => ∃ x, s.heap a = some x ∧ x.bits <+: Lib.bits key keylen ∧ x.data.isSome
      ∧ m x.bits = x.data
      ∧ ∀ k, k <+: Lib.bits key keylen → (m k).isSome → k.length ≤ x.keylen
  lookup : ∀ key keylen, (m (Lib.bits key keylen)).isSome → ∃ a x,
    ptreeLookup key keylen s = .ok (some a) ∧ s.heap a = some x ∧ x.bits = Lib.bits key keylen
      ∧ x.data = m (Lib.bits key keylen)
  child : ∀ a x b c, s.heap a = some x → x.child b = some c →
    ∃ y, s.heap c = some y ∧ y.parent = some a ∧ x.bits ++ [b] <+: y.bits

/-- An addition to a map. -/
def storeSpec (m : List Bool → Option D) (op : AddOp D) : (List Bool → Option D) × Bool :=
  (Function.update m op.bits op.data, true)

/-! ## Every tree of this shape -/

section Shape

variable {s : Ptree D} {t : Tree D} {m : List Bool → Option D}

theorem stores_entry (hm : Stores t m) {e : Lib.Patricia.Entry Addr D}
    (he : e ∈ t.entries) (hd : e.data.isSome) : m e.key = e.data := by
  obtain ⟨d, hd⟩ := Option.isSome_iff_exists.mp hd
  rw [hd, hm e.key d]
  exact ⟨e, he, rfl, hd⟩

theorem stores_best (hunder : t.Under []) (hm : Stores t m) {k q : List Bool}
    (hk : (m k).isSome) (hq : k <+: q) :
    ∃ f, t.best q = some f ∧ k.length ≤ f.key.length := by
  obtain ⟨d, hd⟩ := Option.isSome_iff_exists.mp hk
  obtain ⟨e, he, rfl, hed⟩ := (hm k d).mp hd
  exact hunder.best_longest he (by simp [hed]) hq

theorem searches_of_shape (h : Shape s t) (hm : Stores t m) : Searches s m := by
  constructor
  case searchExact =>
    intro key keylen
    rw [h.searchExact]
    refine ⟨_, rfl, ?_⟩
    cases hfind : (t.find (Lib.bits key keylen)).filter (·.data.isSome) with
    | none =>
      rw [Option.filter_eq_none_iff] at hfind
      by_contra hne
      obtain ⟨d, hd⟩ := Option.ne_none_iff_exists'.mp hne
      obtain ⟨e, he, hkey, hed⟩ := (hm _ d).mp hd
      exact hfind e (hkey ▸ h.under.find_mem he) (by simp [hed])
    | some e =>
      obtain ⟨hfind, hd⟩ := Option.filter_eq_some_iff.mp hfind
      obtain ⟨he, hkey⟩ := Lib.Patricia.find_some hfind
      obtain ⟨x, hx, hbits, hdata⟩ := h.rep.entry he
      refine ⟨x, hx, hbits.trans hkey, by rw [hdata]; exact hd, ?_⟩
      rw [← hkey, hdata]
      exact stores_entry hm he hd
  case search =>
    intro key keylen
    rw [h.search]
    cases hbest : t.best (Lib.bits key keylen) with
    | none =>
      refine ⟨none, rfl, fun k hk => ?_⟩
      by_contra hne
      obtain ⟨f, hf, -⟩ := stores_best h.under hm (Option.isSome_iff_ne_none.mpr hne) hk
      simp [hbest] at hf
    | some e =>
      obtain ⟨he, hd, hpre⟩ := Lib.Patricia.best_some hbest
      obtain ⟨x, hx, hbits, hdata⟩ := h.rep.entry he
      refine ⟨some e.name, rfl, x, hx, by rw [hbits]; exact hpre, by rw [hdata]; exact hd, ?_,
        fun k hk hmk => ?_⟩
      · rw [hbits, hdata]
        exact stores_entry hm he hd
      · obtain ⟨f, hf, hle⟩ := stores_best h.under hm hmk hk
        obtain rfl := Option.some.inj (hbest.symm.trans hf)
        rwa [← hbits, PtreeNode.length_bits] at hle
  case lookup =>
    intro key keylen hmq
    obtain ⟨d, hd⟩ := Option.isSome_iff_exists.mp hmq
    obtain ⟨e, he, hkey, hed⟩ := (hm _ d).mp hd
    obtain ⟨x, hx, hbits, hdata⟩ := h.rep.entry he
    refine ⟨e.name, x, ?_, hx, hbits.trans hkey, by rw [hdata, hed, hd]⟩
    rw [h.lookup, ← hkey, h.under.find_mem he]
    rfl
  case child =>
    intro a x b c hx hc
    have ha : a ∈ t.names := (h.live a).mp (by simp [hx])
    exact h.rep.child h.under ha hx hc

end Shape

/-! ## Every run -/

theorem StandsFor.searches {s : Ptree D} {m : List Bool → Option D} (h : StandsFor s m) :
    Searches s m := by
  obtain ⟨t, hshape, hstores⟩ := h
  exact searches_of_shape hshape hstores

section Result

variable {ops : List (AddOp D)}

/-- An addition with memory. -/
theorem run_granted {s : Ptree D} {m : List Bool → Option D} {op : AddOp D} (h : StandsFor s m)
    (hop : op.Granted) (hfits : op.Fits) :
    ∃ s', op.run s = .ok (s', (storeSpec m op).2) ∧ StandsFor s' (storeSpec m op).1 := by
  have hrun := op.run_standsFor h
  cases hr : op.run s with
  | error e =>
    rw [hr] at hrun
    exact absurd ⟨hop, hfits⟩ hrun
  | ok r =>
    obtain ⟨s', added⟩ := r
    rw [hr] at hrun
    obtain ⟨hrefused, -, hrep⟩ := hrun
    cases added with
    | false => exact absurd hop (hrefused rfl)
    | true => exact ⟨s', rfl, hrep⟩

theorem fits_of_added {s s' : Ptree D} {m : List Bool → Option D} {op : AddOp D}
    (h : StandsFor s m) (hr : op.run s = .ok (s', true)) : op.Fits := by
  have hrun := op.run_standsFor h
  rw [hr] at hrun
  exact hrun.2.1 rfl

theorem keysFit_of_simulates (hops : ∀ op, op ∈ ops → op.data.isSome ∧ op.Granted)
    (h : Lib.Simulates AddOp.run storeSpec Searches ptreeCreate (fun _ => none) ops) :
    ∀ op, op ∈ ops → op.Fits := by
  have hallowed : Lib.AllAllowed storeSpec (fun _ op => op.data.isSome ∧ op.Granted)
      (fun _ => none) ops := Lib.allAllowed_const.mpr hops
  refine Lib.allAllowed_const.mp ((Lib.simulates_iff_allAllowed (R := StandsFor) ?_ ?_ ?_
    standsFor_create hallowed).mp h)
  · exact fun _ _ _ hr hop hfits => run_granted hr hop.2 hfits
  · exact fun _ _ hr => hr.searches
  · rintro _ _ _ hr - ⟨_, hrun, -⟩
    exact fits_of_added hr hrun

/-- **The tree is a map with search for the longest key.** Any number of keys are added, with data
    and with the memory for it; it does what a map does exactly as long as no key is too long. -/
theorem ptree_map_iff (hops : ∀ op, op ∈ ops → op.data.isSome ∧ op.Granted) :
    Lib.Simulates AddOp.run storeSpec Searches ptreeCreate (fun _ => none) ops
      ↔ ∀ op, op ∈ ops → op.Fits := by
  refine ⟨keysFit_of_simulates hops, fun h => ?_⟩
  refine Lib.Simulates.mono (P := StandsFor) ?_ fun _ _ hr => hr.searches
  have hallowed : Lib.AllAllowed storeSpec (fun _ op => op.Granted ∧ op.Fits) (fun _ => none)
      ops := Lib.allAllowed_const.mpr fun op hop => ⟨(hops op hop).2, h op hop⟩
  refine Lib.simulates_of_steps ?_ standsFor_create hallowed
  exact fun _ _ _ hr hop => run_granted hr hop.1 hop.2

end Result

/-- 10.0.0.0/8 and 10.1.0.0/16, then other data for the first. -/
def sampleAdds : List (AddOp Nat) :=
  let key := fun i => if i = 0 then 10 else if i = 1 then 1 else 0
  let mem := some fun _ => 0
  [⟨key, 8, some 1, mem, mem⟩, ⟨key, 16, some 2, mem, mem⟩, ⟨key, 8, some 3, mem, mem⟩]

theorem ptree_map_sample :
    Lib.Simulates AddOp.run storeSpec Searches ptreeCreate (fun _ => none) sampleAdds := by
  refine (ptree_map_iff fun op hop => ?_).mpr fun op hop => ?_
  · simp only [sampleAdds, List.mem_cons, List.not_mem_nil, or_false] at hop
    rcases hop with rfl | rfl | rfl <;> exact ⟨rfl, rfl, rfl⟩
  · simp only [sampleAdds, List.mem_cons, List.not_mem_nil, or_false] at hop
    rcases hop with rfl | rfl | rfl <;> simp [AddOp.Fits]

/-- The longest key that an `int` says. -/
def longestAdd : AddOp Nat := ⟨fun _ => 0, 2 ^ 31 - 1, some 1, some fun _ => 0, some fun _ => 0⟩

/-- With memory and data, and nothing comes of it. -/
theorem ptree_longest_key : longestAdd.data.isSome ∧ longestAdd.Granted
    ∧ ¬Lib.Simulates AddOp.run storeSpec Searches ptreeCreate (fun _ => none) [longestAdd] := by
  refine ⟨rfl, ⟨rfl, rfl⟩, fun h => ?_⟩
  obtain ⟨s, hrun, -⟩ := h [longestAdd] List.prefix_rfl
  have hlong : AddOp.run ptreeCreate longestAdd = .error .overflow := by
    have hloop : getLoop longestAdd.key longestAdd.keylen (ptreeCreate : Ptree Nat)
        (longestAdd.keylen + 2) none none = .ok (.inr (none, none)) := rfl
    have htop : (ptreeCreate : Ptree Nat).top = none := rfl
    have hsize : 2 ^ 31 ≤ longestAdd.keylen + 7 := by decide
    rw [AddOp.run, ptreeAdd, ptreeGet, htop, hloop, Lib.ok_bind]
    simp only [getInsert]
    rw [ptreeNodeCreate_long _ _ hsize]
    rfl
  simp only [Lib.runOps, hlong] at hrun
  cases hrun

end SdPlane
