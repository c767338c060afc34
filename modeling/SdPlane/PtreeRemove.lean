import SdPlane.PtreeAdd

/-!
# A node is taken out (`ptree.c`)

`ptree_remove` gets a node and no tree. A node with two children stays; the pointer of the parent to
any other is made to point to its only child, or nowhere. `remove_local_iff` is what comes of it in
every tree that additions and removals make: all is well for each node except the top of the tree,
which has no parent, and of that too as long as it has two children.
-/

set_option autoImplicit false

namespace SdPlane

open Lib.Patricia

variable {D : Type} {s s' : Ptree D} {u : Option Addr} {p k : List Bool} {t t' : Tree D} {a v : Addr}
  {d : Option D} {c : Bool → Tree D} {b : Bool}

@[simp] theorem delete_self (v : Addr) (s : Ptree D) : (ptreeNodeDelete v s).heap v = none :=
  Function.update_self ..

theorem delete_of_ne {y : Addr} (s : Ptree D) (h : y ≠ v) :
    (ptreeNodeDelete v s).heap y = s.heap y := Function.update_of_ne h ..

theorem names_one (hnil : c (!b) = .nil) {y : Addr} :
    y ∈ (Lib.Patricia.node v k d c).names ↔ y = v ∨ y ∈ (c b).names := by
  rw [(names_perm b).mem_iff, hnil, names_nil, List.append_nil, List.mem_cons]

/-- The only child hangs where the node did, and then the node is freed. -/
theorem delete_grafts (h : Hangs s (some a) p (.node v k d c)) (hnil : c (!b) = .nil)
    (hrep : Rep s'.heap (some a) (c b)) (hnext : s'.next = s.next) (htop : s'.top = s.top)
    (hslot : ∀ x b', s.heap a = some x → p = x.bits ++ [b'] →
      s'.heap a = some { x with child := Function.update x.child b' (c b).root })
    (hother : ∀ y, y ≠ a → y ∉ (c b).names → s'.heap y = s.heap y) :
    Grafts s (ptreeNodeDelete v s') (some a) p (.node v k d c) (c b) := by
  obtain ⟨hout, hnodup, -⟩ := nodup_node.mp h.nodup
  obtain ⟨-, ha, -⟩ := h.slot a rfl
  rw [names_one hnil, not_or] at ha
  constructor
  case rep => exact hrep.frame fun y hy => delete_of_ne s' fun heq => hout b (heq ▸ hy)
  case under => exact (h.under.2 b).shorten (h.under.1.trans (List.prefix_append _ _))
  case nodup => exact hnodup b
  case fresh => exact fun y hy => .inl ((names_one hnil).mpr (.inr hy))
  case next => exact hnext.ge
  case top => exact htop
  case slot =>
    intro a' x b' hu hx hp
    obtain rfl := Option.some.inj hu
    rw [delete_of_ne s' ha.1]
    exact hslot x b' hx hp
  case other =>
    intro y hu hy
    have hya : y ≠ a := fun heq => hu (congrArg some heq.symm)
    by_cases hyv : y = v
    · rw [hyv, delete_self, if_pos ((names_one hnil).mpr (.inl rfl))]
    · rw [delete_of_ne s' hyv, hother y hya hy, if_neg]
      rw [names_one hnil, not_or]
      exact ⟨hyv, hy⟩

/-- A node with a parent, without a child on one side. -/
theorem ptreeRemove_grafts (h : Hangs s (some a) p (.node v k none c)) (hnil : c (!b) = .nil) :
    ∃ s', ptreeRemove v s = .ok s' ∧ Grafts s s' (some a) p (.node v k none c) (c b) := by
  obtain ⟨x, hx, hholds⟩ := h.rep.1
  obtain ⟨-, ha, y, b', hy, hp, hroot, hside⟩ := h.slot a rfl
  have hdata : x.data.isNone := by simp [hholds.data]
  have hother : x.child (!b) = none := by rw [hholds.child, hnil]; rfl
  have hboth : ¬((x.child false).isSome ∧ (x.child true).isSome) := by
    cases b <;> simp_all
  have hava : v ≠ a := fun heq => ha (mem_names_node.mpr (.inl heq.symm))
  rw [ptreeRemove, node_of_heap hx, Lib.ok_bind, Lib.assert_of hdata, Lib.ok_bind, if_neg hboth,
    hholds.parent, node_of_heap hy]
  cases hcb : c b with
  | nil =>
    have hnone : (x.child false).isNone ∧ (x.child true).isNone := by
      have hthis : x.child b = none := by rw [hholds.child, hcb]; rfl
      cases b <;> simp_all
    -- the side of the parent that is tested first, or the other one
    have hbit : (if y.child false = some v then false else true) = b' := by
      cases b' with
      | false => exact if_pos hroot
      | true => exact if_neg fun heq => (hside v heq).2 (mem_names_node.mpr (.inl rfl))
    rw [if_pos hnone, Lib.ok_bind]
    dsimp only
    rw [hbit, Ptree.assign_ok hy, Lib.ok_bind]
    refine ⟨_, rfl, ?_⟩
    rw [← hcb]
    refine delete_grafts h hnil (hcb ▸ trivial) rfl rfl (fun x' b'' hx' hp' => ?_) fun z hz _ => ?_
    · obtain rfl := Option.some.inj (hx'.symm.trans hy)
      obtain ⟨-, hb⟩ := List.append_inj' (hp.symm.trans hp') rfl
      obtain rfl := List.cons.inj hb |>.1
      rw [Ptree.set_self, hcb]
      rfl
    · exact Ptree.set_of_ne _ _ hz
  | node w kw dw cw =>
    obtain ⟨hout, hnodup, -⟩ := nodup_node.mp h.nodup
    have hthis : x.child b = some w := by rw [hholds.child, hcb]; rfl
    have hnone : ¬((x.child false).isNone ∧ (x.child true).isNone) := by
      cases b <;> simp_all
    have hw : (if (x.child false).isSome then x.child false else x.child true) = some w := by
      cases b <;> simp_all
    rw [if_neg hnone]
    dsimp only
    rw [hw, ← hcb]
    have hrep : Rep s.heap (some v) (.node w kw dw cw) := hcb ▸ h.rep.2 b
    have hunder : (Lib.Patricia.node w kw dw cw).Under p := by
      have hbelow := (h.under.2 b).shorten (h.under.1.trans (List.prefix_append _ _))
      rwa [hcb] at hbelow
    have hin : ∀ z, z ∈ (Lib.Patricia.node w kw dw cw).names → z ∈ (Lib.Patricia.node v k (none : Option D) c).names :=
      fun z hz => (names_one hnil).mpr (.inr (hcb ▸ hz))
    obtain ⟨s₁, hlink, hrep', hnext, htop, hslot, hother'⟩ := linkUpper_ok (u := some a) hrep nofun hunder
      (hcb ▸ hnodup b) fun a' ha' => by
        obtain rfl := Option.some.inj ha'
        exact ⟨fun hmem => ha (hin a hmem), y, b', hy, hp⟩
    rw [linkUpper] at hlink
    rw [hlink, Lib.ok_bind]
    refine ⟨_, rfl, delete_grafts h hnil (hcb ▸ hrep') hnext htop (fun x' b'' hx' hp' => ?_)
      fun z hz hz' => ?_⟩
    · rw [hslot a x' b'' rfl hx' hp', hcb]
      rfl
    · rw [hcb] at hz'
      exact hother' z (fun heq => hz (Option.some.inj heq).symm) hz'

/-! ## In a whole tree -/

def BothChildren (x : PtreeNode D) : Prop := (x.child false).isSome ∧ (x.child true).isSome

theorem exists_nil {x : PtreeNode D} (hholds : NodeHolds x k d u c) (h : ¬BothChildren x) :
    ∃ b, c (!b) = .nil := by
  have hnil : ∀ b, x.child b = none → c b = .nil := fun b hb => by
    rw [hholds.child] at hb
    cases hc : c b with
    | nil => rfl
    | node a' k' d' c' => simp [hc] at hb
  cases hfalse : x.child false with
  | none => exact ⟨true, hnil false hfalse⟩
  | some y =>
    refine ⟨false, hnil true ?_⟩
    by_contra hne
    exact h ⟨by simp [hfalse], Option.isSome_iff_ne_none.mpr hne⟩

theorem ptreeRemove_both {x : PtreeNode D} (hx : s.heap v = some x) (hd : x.data = none)
    (hboth : BothChildren x) : ptreeRemove v s = .ok s := by
  have hdata : x.data.isNone := by simp [hd]
  unfold BothChildren at hboth
  rw [ptreeRemove, node_of_heap hx, Lib.ok_bind, Lib.assert_of hdata, Lib.ok_bind, if_pos hboth]
  rfl

/-- The node at the top has no parent to be looked at. -/
theorem ptreeRemove_top {x : PtreeNode D} (hx : s.heap v = some x) (hd : x.data = none)
    (hboth : ¬BothChildren x) (hparent : x.parent = none) :
    ∀ s', ptreeRemove v s ≠ .ok s' := by
  have hdata : x.data.isNone := by simp [hd]
  unfold BothChildren at hboth
  rw [ptreeRemove, node_of_heap hx, Lib.ok_bind, Lib.assert_of hdata, Lib.ok_bind,
    if_neg hboth, hparent]
  intro s'
  by_cases hleaf : (x.child false).isNone ∧ (x.child true).isNone
  · rw [if_pos hleaf]
    exact fun h => by cases h
  · rw [if_neg hleaf]
    dsimp only
    generalize (if (x.child false).isSome then x.child false else x.child true) = w
    have hlink : ∃ e, ptreeLink none w s = .error e := by
      rw [ptreeLink]
      cases s.node w with
      | error e => exact ⟨e, rfl⟩
      | ok wn => exact ⟨_, rfl⟩
    obtain ⟨e, he⟩ := hlink
    rw [he]
    exact fun h => by cases h

/-- The top of the tree is what has no parent. -/
theorem Shape.parent_none {x : PtreeNode D} (h : Shape s t) (hx : s.heap v = some x) :
    x.parent = none ↔ s.top = some v := by
  have hrep := h.rep
  rw [h.top]
  constructor
  · intro hparent
    have hv : v ∈ t.names := (h.live v).mp (by simp [hx])
    obtain ⟨-, hroot⟩ | ⟨w, y, b, hparent', -⟩ := hrep.parent hv hx
    · exact hroot
    · simp [hparent] at hparent'
  · intro hroot
    cases t with
    | nil => cases hroot
    | node a k d c =>
      obtain rfl := Option.some.inj hroot
      obtain ⟨y, hy, hholds⟩ := hrep.1
      obtain rfl := Option.some.inj (hx.symm.trans hy)
      exact hholds.parent

/-- All but the node stay, whatever becomes of it. -/
theorem Shape.remove {x : PtreeNode D} (h : Shape s t) (hx : s.heap v = some x) (hd : x.data = none)
    (hgood : s.top ≠ some v ∨ BothChildren x) :
    ∃ s' t', ptreeRemove v s = .ok s' ∧ Shape s' t' ∧ ∀ e, e ∈ t.entries → e.name ≠ v →
      e ∈ t'.entries := by
  by_cases hboth : BothChildren x
  · exact ⟨s, t, ptreeRemove_both hx hd hboth, h, fun e he _ => he⟩
  · have htop := hgood.resolve_right hboth
    have hv : v ∈ t.names := (h.live v).mp (by simp [hx])
    obtain ⟨u, p, k, d, c, hw⟩ := within_mem h.hangs hv
    obtain ⟨x', hx', hholds⟩ := hw.hangs.rep.1
    obtain rfl := Option.some.inj (hx.symm.trans hx')
    obtain rfl : d = none := hholds.data.symm.trans hd
    obtain ⟨b, hnil⟩ := exists_nil hholds hboth
    cases u with
    | none => exact absurd (hw.hangs.top rfl) htop
    | some a =>
      obtain ⟨s', hremove, hg⟩ := ptreeRemove_grafts hw.hangs hnil
      obtain ⟨rest, hrest, hgraft⟩ := hw.graft
      obtain ⟨t', hg', hperm⟩ := hgraft s' _ hg
      -- the entries that are left
      have hentries : ∀ e, e ∈ t.entries ↔ e = ⟨v, k, none⟩ ∨ e ∈ t'.entries := fun e => by
        rw [hrest.mem_iff, hperm.mem_iff, List.mem_append, List.mem_append,
          (entries_perm b).mem_iff, hnil]
        simp [or_assoc]
      refine ⟨s', t', hremove, h.graft hg' fun e he => h.fits e ((hentries e).mpr (.inr he)),
        fun e he hne => ((hentries e).mp he).resolve_left fun heq => hne (by rw [heq])⟩

/-! ## Every tree that there can be -/

/-- Additions, with or without data or memory, and removals, as far as the program gets. -/
inductive Reachable : Ptree D → Prop
  | create : Reachable ptreeCreate
  | add {s s' : Ptree D} {added : Bool} (op : AddOp D) (h : Reachable s)
      (hrun : op.run s = .ok (s', added)) : Reachable s'
  | remove {s s' : Ptree D} (v : Addr) (h : Reachable s) (hrun : ptreeRemove v s = .ok s') :
      Reachable s'

/-- Nothing is removed that has data, or is not there. -/
theorem removed_node (h : ptreeRemove v s = .ok s') : ∃ x, s.heap v = some x ∧ x.data = none := by
  cases hx : s.heap v with
  | none => simp [ptreeRemove, Ptree.node, hx] at h
  | some x =>
    refine ⟨x, rfl, ?_⟩
    rw [ptreeRemove, node_of_heap hx, Lib.ok_bind] at h
    cases hd : x.data with
    | none => rfl
    | some d => simp [hd, Lib.assert] at h

theorem Reachable.shape (h : Reachable s) : ∃ t, Shape s t := by
  induction h with
  | create =>
    obtain ⟨t, hshape, -⟩ := standsFor_create (D := D)
    exact ⟨t, hshape⟩
  | add op _ hrun ih =>
    obtain ⟨t, hshape⟩ := ih
    have hadd := op.run_standsFor hshape.standsFor
    rw [hrun] at hadd
    obtain ⟨-, -, t', hshape', -⟩ := hadd
    exact ⟨t', hshape'⟩
  | @remove s s' v _ hrun ih =>
    obtain ⟨t, hshape⟩ := ih
    obtain ⟨x, hx, hd⟩ := removed_node hrun
    by_cases hgood : s.top ≠ some v ∨ BothChildren x
    · obtain ⟨s'', t', hremove, hshape', -⟩ := hshape.remove hx hd hgood
      obtain rfl := Except.ok.inj (hrun.symm.trans hremove)
      exact ⟨t', hshape'⟩
    · rw [not_or, not_ne_iff] at hgood
      exact absurd hrun
        (ptreeRemove_top hx hd hgood.2 ((hshape.parent_none hx).mpr hgood.1) _)

/-- What there should be after a removal: every other node, found under its key and with its data;
    pointers both ways; and a tree that points to its top, if there is one. -/
structure RestIntact (s s' : Ptree D) (v : Addr) : Prop where
  found : ∀ a x, a ≠ v → s.heap a = some x → ∃ x', s'.heap a = some x' ∧ x'.bits = x.bits
    ∧ x'.data = x.data ∧ ∀ key keylen, Lib.bits key keylen = x.bits →
      ptreeLookup key keylen s' = .ok (some a)
        ∧ (x.data.isSome → ptreeSearchExact key keylen s' = .ok (some a))
  child : ∀ a x b c, s'.heap a = some x → x.child b = some c →
    ∃ y, s'.heap c = some y ∧ y.parent = some a
  parent : ∀ a x w, s'.heap a = some x → x.parent = some w →
    ∃ y b, s'.heap w = some y ∧ y.child b = some a
  top : ∀ a, s'.top = some a → s'.heap a ≠ none
  empty : s'.top = none → ∀ a, s'.heap a = none

theorem restIntact_of_shape (h : Shape s t) (h' : Shape s' t')
    (hkept : ∀ e, e ∈ t.entries → e.name ≠ v → e ∈ t'.entries) : RestIntact s s' v := by
  constructor
  case found =>
    intro a x hne hx
    have hmem : (⟨a, x.bits, x.data⟩ : Entry Addr D) ∈ t'.entries :=
      hkept _ (h.rep.mem_entries ((h.live a).mp (by simp [hx])) hx) hne
    obtain ⟨x', hx', hbits, hdata⟩ := h'.rep.entry hmem
    refine ⟨x', hx', hbits, hdata, fun key keylen hkey => ?_⟩
    have hfind : t'.find (Lib.bits key keylen) = some ⟨a, x.bits, x.data⟩ := by
      rw [hkey]
      exact h'.under.find_mem hmem
    refine ⟨by rw [h'.lookup, hfind]; rfl, fun hd => ?_⟩
    rw [h'.searchExact, hfind, Option.filter_some, if_pos hd]
    rfl
  case child =>
    intro a x b c hx hc
    obtain ⟨y, hy, hparent, -⟩ := h'.rep.child h'.under ((h'.live a).mp (by simp [hx])) hx hc
    exact ⟨y, hy, hparent⟩
  case parent =>
    intro a x w hx hw
    obtain ⟨hnone, -⟩ | ⟨w', y, b, hparent, -, hy, hchild⟩ :=
      h'.rep.parent ((h'.live a).mp (by simp [hx])) hx
    · simp [hw] at hnone
    · obtain rfl := Option.some.inj (hw.symm.trans hparent)
      exact ⟨y, b, hy, hchild⟩
  case top =>
    intro a ha
    exact (h'.live a).mpr (root_mem (h'.top ▸ ha))
  case empty =>
    intro hnone a
    by_contra hne
    have hmem := (h'.live a).mp hne
    rw [h'.top] at hnone
    cases t' with
    | nil => cases hmem
    | node a' k d c => cases hnone

/-- **Removing a node is local**, in every tree that there can be, exactly for the nodes that have
    two children, where nothing is done, and those that are not the top. -/
theorem remove_local_iff {x : PtreeNode D} (h : Reachable s) (hx : s.heap v = some x)
    (hd : x.data = none) :
    (∃ s', ptreeRemove v s = .ok s' ∧ RestIntact s s' v) ↔ s.top ≠ some v ∨ BothChildren x := by
  obtain ⟨t, hshape⟩ := h.shape
  constructor
  · rintro ⟨s', hremove, -⟩
    by_contra hbad
    rw [not_or, not_ne_iff] at hbad
    exact ptreeRemove_top hx hd hbad.2 ((hshape.parent_none hx).mpr hbad.1) s' hremove
  · intro hgood
    obtain ⟨s', t', hremove, hshape', hkept⟩ := hshape.remove hx hd hgood
    exact ⟨s', hremove, restIntact_of_shape hshape hshape' hkept⟩

/-- A key of zeros. -/
def zerosAdd (keylen : Nat) (data : Option Nat) : AddOp Nat :=
  ⟨fun _ => 0, keylen, data, some fun _ => 0, some fun _ => 0⟩

/-- A leaf without data. -/
theorem remove_local_leaf : ∃ s : Ptree Nat, Reachable s ∧ s.top ≠ some 1
    ∧ ∃ s', ptreeRemove 1 s = .ok s' ∧ RestIntact s s' 1 := by
  obtain ⟨s, hs, h⟩ : ∃ s, Reachable s ∧ ∃ x : PtreeNode Nat, s.heap 1 = some x ∧ x.data = none
      ∧ s.top = some 0 :=
    ⟨_, .add (zerosAdd 2 none) (.add (zerosAdd 1 (some 7)) .create rfl) rfl, _, rfl, rfl, rfl⟩
  obtain ⟨x, hx, hd, htop⟩ := h
  have hne : s.top ≠ some 1 := by simp [htop]
  exact ⟨s, hs, hne, (remove_local_iff hs hx hd).mpr (.inl hne)⟩

/-- The only node: its parent is looked at, and it has none. -/
theorem remove_only_node : ∃ (s : Ptree Nat) (x : PtreeNode Nat), Reachable s
    ∧ s.heap 0 = some x ∧ x.data = none ∧ s.top = some 0
    ∧ ptreeRemove 0 s = .error .nullPointer
    ∧ ¬∃ s', ptreeRemove 0 s = .ok s' ∧ RestIntact s s' 0 := by
  refine ⟨_, _, .add (zerosAdd 1 none) .create rfl, rfl, rfl, rfl, rfl, ?_⟩
  rintro ⟨s', h, -⟩
  cases h

end SdPlane
