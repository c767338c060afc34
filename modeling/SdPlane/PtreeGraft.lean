import SdPlane.PtreeShape

/-!
# Changing the tree at one place (`ptree.c`)

A part of the tree hangs at a pointer: that of the tree, or one of the two of a node above
(`Hangs`). What is done at that pointer replaces the part by another one and leaves the rest of the
memory as it is (`Grafts`); the replacement is then one of every larger part as well (`Within`).
So a place is found by going down, and nothing about the way there has to be known when the
change is made.
-/

set_option autoImplicit false

namespace SdPlane

open Lib.Patricia

variable {D : Type}

/-- The part `t` hangs at `u`, where keys begin with `p`. -/
structure Hangs (s : Ptree D) (u : Option Addr) (p : List Bool) (t : Tree D) : Prop where
  rep : Rep s.heap u t
  under : t.Under p
  nodup : t.names.Nodup
  used : ∀ a, a ∈ t.names → a < s.next
  unused : ∀ a, s.next ≤ a → s.heap a = none
  top : u = none → s.top = t.root
  slot : ∀ a, u = some a → a < s.next ∧ a ∉ t.names ∧ ∃ x b, s.heap a = some x
    ∧ p = x.bits ++ [b] ∧ x.child b = t.root ∧ ∀ y, x.child (!b) = some y → y < s.next ∧ y ∉ t.names

/-- In `s'` it is `t'` that hangs there. -/
structure Grafts (s s' : Ptree D) (u : Option Addr) (p : List Bool) (t t' : Tree D) : Prop where
  rep : Rep s'.heap u t'
  under : t'.Under p
  nodup : t'.names.Nodup
  fresh : ∀ a, a ∈ t'.names → a ∈ t.names ∨ s.next ≤ a ∧ a < s'.next
  next : s.next ≤ s'.next
  top : s'.top = if u = none then t'.root else s.top
  slot : ∀ a x b, u = some a → s.heap a = some x → p = x.bits ++ [b] →
    s'.heap a = some { x with child := Function.update x.child b t'.root }
  other : ∀ a, u ≠ some a → a ∉ t'.names → s'.heap a = if a ∈ t.names then none else s.heap a

variable {s s' s'' : Ptree D} {u : Option Addr} {p : List Bool} {t t' t'' : Tree D} {a : Addr}
  {k : List Bool} {d : Option D} {c : Bool → Tree D} {b : Bool}

/-- No part of it. -/
theorem Hangs.child (h : Hangs s u p (.node a k d c)) (b : Bool) :
    Hangs s (some a) (k ++ [b]) (c b) := by
  obtain ⟨⟨x, hx, hholds⟩, hbelow⟩ := h.rep
  obtain ⟨hout, hnodup, -⟩ := nodup_node.mp h.nodup
  have hin : ∀ b y, y ∈ (c b).names → y ∈ (Lib.Patricia.node a k d c).names := fun b y hy =>
    mem_names_node.mpr (.inr ⟨b, hy⟩)
  refine ⟨hbelow b, h.under.2 b, hnodup b, fun y hy => h.used y (hin b y hy), h.unused, nofun, ?_⟩
  intro a' ha
  obtain rfl := Option.some.inj ha
  refine ⟨h.used a (mem_names_node.mpr (.inl rfl)), hout b, x, b, hx, by rw [hholds.bits],
    hholds.child b, fun y hy => ?_⟩
  rw [hholds.child] at hy
  have hmem := root_mem hy
  exact ⟨h.used y (hin _ y hmem), fun hy' => nodup_sides h.nodup b hy' hmem⟩

/-- Nothing is changed. -/
theorem Hangs.refl (h : Hangs s u p t) : Grafts s s u p t t where
  rep := h.rep
  under := h.under
  nodup := h.nodup
  fresh _ ha := .inl ha
  next := le_rfl
  top := by
    split
    · exact h.top ‹_›
    · rfl
  slot a x b hu hx hp := by
    obtain ⟨-, -, x', b', hx', hp', hroot, -⟩ := h.slot a hu
    obtain rfl := Option.some.inj (hx.symm.trans hx')
    obtain ⟨-, hb⟩ := List.append_inj' (hp.symm.trans hp') rfl
    obtain rfl := List.cons.inj hb |>.1
    rw [← hroot, Function.update_eq_self]
    exact hx
  other a _ ha := by rw [if_neg ha]

/-- What hangs there afterwards. -/
theorem Grafts.hangs (hg : Grafts s s' u p t t') (h : Hangs s u p t) : Hangs s' u p t' where
  rep := hg.rep
  under := hg.under
  nodup := hg.nodup
  used a ha := (hg.fresh a ha).elim (fun h' => (h.used a h').trans_le hg.next) And.right
  unused a ha := by
    have hlt : ¬a < s.next := not_lt.mpr (hg.next.trans ha)
    have hold : a ∉ t.names := fun hmem => hlt (h.used a hmem)
    have hnew : a ∉ t'.names := fun hmem =>
      (hg.fresh a hmem).elim hold fun h' => absurd h'.2 (not_lt.mpr ha)
    have hu : u ≠ some a := fun hu => hlt (h.slot a hu).1
    rw [hg.other a hu hnew, if_neg hold]
    exact h.unused a (hg.next.trans ha)
  top hu := by rw [hg.top, if_pos hu]
  slot a hu := by
    obtain ⟨hlt, hout, x, b, hx, hp, -, hother⟩ := h.slot a hu
    have hfresh : ∀ y, y < s.next → y ∉ t.names → y ∉ t'.names := fun y hy hy' hmem =>
      (hg.fresh y hmem).elim hy' fun h' => absurd h'.1 (not_le.mpr hy)
    refine ⟨hlt.trans_le hg.next, hfresh a hlt hout, _, b, hg.slot a x b hu hx hp, hp, ?_, ?_⟩
    · simp
    · intro y hy
      have hside : (!b) ≠ b := by simp
      simp only [Function.update_of_ne hside] at hy
      obtain ⟨hylt, hyout⟩ := hother y hy
      exact ⟨hylt.trans_le hg.next, hfresh y hylt hyout⟩

/-- One change after the other. -/
theorem Grafts.trans (h : Hangs s u p t) (hg : Grafts s s' u p t t') (hg' : Grafts s' s'' u p t' t'') :
    Grafts s s'' u p t t'' where
  rep := hg'.rep
  under := hg'.under
  nodup := hg'.nodup
  fresh a ha := by
    obtain hmem | ⟨hle, hlt⟩ := hg'.fresh a ha
    · exact (hg.fresh a hmem).imp_right fun h' => ⟨h'.1, h'.2.trans_le hg'.next⟩
    · exact .inr ⟨hg.next.trans hle, hlt⟩
  next := hg.next.trans hg'.next
  top := by
    rw [hg'.top, hg.top]
    split <;> rfl
  slot a x b hu hx hp := by
    rw [hg'.slot a _ b hu (hg.slot a x b hu hx hp) hp]
    simp
  other a hu ha := by
    rw [hg'.other a hu ha]
    by_cases hmid : a ∈ t'.names
    · rw [if_pos hmid]
      by_cases hold : a ∈ t.names
      · rw [if_pos hold]
      · rw [if_neg hold]
        exact (h.unused a ((hg.fresh a hmid).resolve_left hold).1).symm
    · rw [if_neg hmid]
      exact hg.other a hu hmid

/-- A change of a child is one of the whole. -/
theorem Grafts.lift (hg : Grafts s s' (some a) (k ++ [b]) (c b) t') (h : Hangs s u p (.node a k d c)) :
    Grafts s s' u p (.node a k d c) (.node a k d (Function.update c b t')) := by
  obtain ⟨⟨x, hx, hholds⟩, hbelow⟩ := h.rep
  obtain ⟨hout, hnodup, -⟩ := nodup_node.mp h.nodup
  have ha : a < s.next := h.used a (mem_names_node.mpr (.inl rfl))
  have hin : ∀ b y, y ∈ (c b).names → y ∈ (Lib.Patricia.node a k d c).names := fun b y hy =>
    mem_names_node.mpr (.inr ⟨b, hy⟩)
  -- what was there before and is not in the child stays out of it
  have hkeep : ∀ y, y < s.next → y ∉ (c b).names → y ∉ t'.names := fun y hy hy' hmem =>
    (hg.fresh y hmem).elim hy' fun h' => absurd h'.1 (not_le.mpr hy)
  have hsame : ∀ y, y ∈ (c !b).names → s'.heap y = s.heap y := fun y hy => by
    have hne : some a ≠ some y := fun heq => hout (!b) (Option.some.inj heq ▸ hy)
    have hy' : y ∉ (c b).names := fun hmem => nodup_sides h.nodup b hmem hy
    rw [hg.other y hne (hkeep y (h.used y (hin _ y hy)) hy'), if_neg hy']
  have hnames : ∀ y, y ∈ (Lib.Patricia.node a k d (Function.update c b t')).names
      ↔ y = a ∨ y ∈ t'.names ∨ y ∈ (c !b).names := fun y => by
    rw [mem_names_node]
    cases b <;> simp [Function.update, or_comm]
  constructor
  case rep =>
    refine ⟨⟨_, hg.slot a x b rfl hx (by rw [hholds.bits]), ?_⟩, fun b' => ?_⟩
    · refine ⟨hholds.bits, hholds.data, hholds.parent, fun b' => ?_⟩
      rcases eq_or_ne b' b with rfl | hne
      · simp
      · simp [Function.update_of_ne hne, hholds.child]
    · rcases eq_or_ne b' b with rfl | hne
      · rw [Function.update_self]
        exact hg.rep
      · rw [Function.update_of_ne hne]
        obtain rfl : b' = !b := by cases b <;> cases b' <;> simp_all
        exact (hbelow _).frame hsame
  case under => exact h.under.update hg.under
  case nodup =>
    refine (names_perm b).nodup_iff.mpr ?_
    have hside : (!b) ≠ b := by simp
    rw [Function.update_self, Function.update_of_ne hside, List.nodup_cons, List.mem_append, not_or,
      List.nodup_append']
    refine ⟨⟨hkeep a ha (hout b), hout _⟩, hg.nodup, hnodup _, fun y hy hy' => ?_⟩
    exact hkeep y (h.used y (hin _ y hy')) (fun hmem => nodup_sides h.nodup b hmem hy') hy
  case fresh =>
    intro y hy
    rcases (hnames y).mp hy with rfl | hy | hy
    · exact .inl (mem_names_node.mpr (.inl rfl))
    · exact (hg.fresh y hy).imp_left (hin b y)
    · exact .inl (hin _ y hy)
  case next => exact hg.next
  case top =>
    rw [hg.top, if_neg (by simp)]
    split
    · exact h.top ‹_›
    · rfl
  case slot =>
    intro a' x' b' hu hx' hp
    obtain ⟨hlt, hout', -⟩ := h.slot a' hu
    have hne : some a ≠ some a' := fun heq =>
      hout' (mem_names_node.mpr (.inl (Option.some.inj heq).symm))
    have hcb : a' ∉ (c b).names := fun hmem => hout' (hin b a' hmem)
    rw [hg.other a' hne (hkeep a' hlt hcb), if_neg hcb]
    exact h.refl.slot a' x' b' hu hx' hp
  case other =>
    intro y hu hy
    rw [hnames, not_or, not_or] at hy
    have hne : some a ≠ some y := fun heq => hy.1 (Option.some.inj heq).symm
    rw [hg.other y hne hy.2.1]
    congr 1
    rw [mem_names_node, eq_iff_iff]
    constructor
    · exact fun hmem => .inr ⟨b, hmem⟩
    · rintro (rfl | ⟨b', hmem⟩)
      · exact absurd rfl hy.1
      · rcases eq_or_ne b' b with rfl | hne'
        · exact hmem
        · obtain rfl : b' = !b := by cases b <;> cases b' <;> simp_all
          exact absurd hmem hy.2.2

/-! ## Places -/

/-- `t₀` is a part of `t`, and a change there is one of `t`. -/
structure Within (s : Ptree D) (u : Option Addr) (p : List Bool) (t : Tree D) (u₀ : Option Addr)
    (p₀ : List Bool) (t₀ : Tree D) : Prop where
  hangs : Hangs s u₀ p₀ t₀
  graft : ∃ rest, t.entries.Perm (t₀.entries ++ rest) ∧ ∀ s' t₀', Grafts s s' u₀ p₀ t₀ t₀' →
    ∃ t', Grafts s s' u p t t' ∧ t'.entries.Perm (t₀'.entries ++ rest)

theorem Within.refl (h : Hangs s u p t) : Within s u p t u p t :=
  ⟨h, [], by simp, fun _ t' hg => ⟨t', hg, by simp⟩⟩

theorem entries_update (t' : Tree D) : (Lib.Patricia.node a k d (Function.update c b t')).entries.Perm
    (t'.entries ++ ⟨a, k, d⟩ :: (c !b).entries) := by
  have hside : (!b) ≠ b := by simp
  have hperm := entries_perm (a := a) (k := k) (d := d) (c := Function.update c b t') b
  rw [Function.update_self, Function.update_of_ne hside] at hperm
  exact hperm.trans List.perm_middle.symm

theorem Within.down {u₀ : Option Addr} {p₀ : List Bool} {t₀ : Tree D} (h : Hangs s u p (.node a k d c))
    (hw : Within s (some a) (k ++ [b]) (c b) u₀ p₀ t₀) : Within s u p (.node a k d c) u₀ p₀ t₀ := by
  obtain ⟨rest, hperm, hgraft⟩ := hw.graft
  have hwhole := entries_update (a := a) (k := k) (d := d) (c := c) (b := b) (c b)
  rw [Function.update_eq_self] at hwhole
  refine ⟨hw.hangs, rest ++ ⟨a, k, d⟩ :: (c !b).entries, ?_, fun s' t₀' hg => ?_⟩
  · rw [← List.append_assoc]
    exact hwhole.trans (hperm.append_right _)
  · obtain ⟨t', hg', hperm'⟩ := hgraft s' t₀' hg
    refine ⟨_, hg'.lift h, ?_⟩
    rw [← List.append_assoc]
    exact (entries_update t').trans (hperm'.append_right _)

/-- Every node is at some place. -/
theorem within_mem {v : Addr} (h : Hangs s u p t) (hv : v ∈ t.names) :
    ∃ u₀ p₀ k d c, Within s u p t u₀ p₀ (.node v k d c) := by
  induction t generalizing u p with
  | nil => cases hv
  | node a k d c ih =>
    obtain rfl | ⟨b, hb⟩ := mem_names_node.mp hv
    · exact ⟨_, _, _, _, _, .refl h⟩
    · obtain ⟨u₀, p₀, k₀, d₀, c₀, hw⟩ := ih b (h.child b) hb
      exact ⟨u₀, p₀, k₀, d₀, c₀, hw.down h⟩

/-! ### All of it -/

theorem Shape.hangs (h : Shape s t) : Hangs s none [] t where
  rep := h.rep
  under := h.under
  nodup := h.nodup
  used := h.used
  unused a ha := by
    by_contra hne
    exact absurd (h.used a ((h.live a).mp hne)) (not_lt.mpr ha)
  top _ := h.top
  slot := nofun

theorem Rep.live {heap : Addr → Option (PtreeNode D)} (h : Rep heap u t) (ha : a ∈ t.names) :
    heap a ≠ none := by
  obtain ⟨e, he, rfl⟩ := List.mem_map.mp ha
  obtain ⟨x, hx, -⟩ := h.entry he
  simp [hx]

theorem Shape.graft (h : Shape s t) (hg : Grafts s s' none [] t t')
    (hfits : ∀ e, e ∈ t'.entries → e.key.length + 7 < 2 ^ 31) : Shape s' t' where
  top := by rw [hg.top, if_pos rfl]
  rep := hg.rep
  under := hg.under
  nodup := hg.nodup
  live a := by
    refine ⟨fun hne => ?_, hg.rep.live⟩
    by_contra hnew
    rw [hg.other a nofun hnew] at hne
    split at hne
    · exact hne rfl
    · exact absurd ((h.live a).mp hne) ‹_›
  used := (hg.hangs h.hangs).used
  fits := hfits

/-! ## Links -/

/-- Two nodes are changed. -/
theorem ptreeLink_ok {v w : Addr} {vn wn : PtreeNode D} (hv : s.heap v = some vn)
    (hw : s.heap w = some wn) (hne : v ≠ w) :
    ∃ s', ptreeLink (some v) (some w) s = .ok s' ∧ s'.top = s.top ∧ s'.next = s.next
      ∧ s'.heap v = some { vn with
        child := Function.update vn.child (Lib.bitAt wn.key vn.keylen) (some w) }
      ∧ s'.heap w = some { wn with parent := some v }
      ∧ ∀ y, y ≠ v → y ≠ w → s'.heap y = s.heap y := by
  simp only [ptreeLink, node_of_heap hw, node_of_heap hv, Lib.ok_bind, checkBit_eq,
    Ptree.assign_ok hv]
  rw [Ptree.assign_ok ((Ptree.set_of_ne s _ hne.symm).trans hw)]
  refine ⟨_, rfl, rfl, rfl, ?_, Ptree.set_self .., fun y hyv hyw => ?_⟩
  · rw [Ptree.set_of_ne _ _ hne, Ptree.set_self]
  · rw [Ptree.set_of_ne _ _ hyw, Ptree.set_of_ne _ _ hyv]

/-- Only the parent is another one. -/
theorem Rep.reparent {heap heap' : Addr → Option (PtreeNode D)} {u' : Option Addr}
    (h : Rep heap u (.node a k d c)) (hnodup : (Lib.Patricia.node a k d c).names.Nodup)
    (ha : ∀ x, heap a = some x → heap' a = some { x with parent := u' })
    (hsame : ∀ y, y ∈ (Lib.Patricia.node a k d c).names → y ≠ a → heap' y = heap y) :
    Rep heap' u' (.node a k d c) := by
  obtain ⟨⟨x, hx, hholds⟩, hbelow⟩ := h
  obtain ⟨hout, -⟩ := nodup_node.mp hnodup
  refine ⟨⟨_, ha x hx, hholds.bits, hholds.data, rfl, hholds.child⟩, fun b => (hbelow b).frame ?_⟩
  intro y hy
  exact hsame y (mem_names_node.mpr (.inr ⟨b, hy⟩)) fun heq => hout b (heq ▸ hy)

/-- What `ptree_link` does with a part that keys say belongs there. -/
theorem linkUpper_ok {u₂ : Option Addr} (hrep : Rep s.heap u₂ (.node a k d c))
    (hparent : u = none → u₂ = none) (hunder : (Lib.Patricia.node a k d c).Under p)
    (hnodup : (Lib.Patricia.node a k d c).names.Nodup)
    (hslot : ∀ v, u = some v → v ∉ (Lib.Patricia.node a k d c).names
      ∧ ∃ x b, s.heap v = some x ∧ p = x.bits ++ [b]) :
    ∃ s', linkUpper u (some a) s = .ok s' ∧ Rep s'.heap u (.node a k d c) ∧ s'.next = s.next
      ∧ s'.top = (if u = none then some a else s.top)
      ∧ (∀ v x b, u = some v → s.heap v = some x → p = x.bits ++ [b] →
        s'.heap v = some { x with child := Function.update x.child b (some a) })
      ∧ ∀ y, u ≠ some y → y ∉ (Lib.Patricia.node a k d c).names → s'.heap y = s.heap y := by
  cases u with
  | none =>
    obtain rfl := hparent rfl
    exact ⟨_, rfl, hrep, rfl, rfl, nofun, fun y _ _ => rfl⟩
  | some v =>
    obtain ⟨hout, x, b, hx, hp⟩ := hslot v rfl
    obtain ⟨y, hy, hholds⟩ := hrep.1
    have hne : v ≠ a := fun heq => hout (mem_names_node.mpr (.inl heq))
    have hbit : Lib.bitAt y.key x.keylen = b := by
      refine Lib.bits_succ_prefix (y := x.key) (n := y.keylen) ?_
      have hpre := hunder.1
      rw [hp, ← hholds.bits] at hpre
      exact hpre
    obtain ⟨s', hlink, htop, hnext, hv, ha, hother⟩ := ptreeLink_ok hx hy hne
    rw [hbit] at hv
    refine ⟨s', hlink, ?_, hnext, htop, ?_, ?_⟩
    · refine hrep.reparent hnodup (fun x' hx' => ?_) fun y' hy' hya => ?_
      · obtain rfl := Option.some.inj (hx'.symm.trans hy)
        exact ha
      · exact hother y' (fun heq => hout (heq ▸ hy')) hya
    · intro v' x' b' hv' hx' hp'
      obtain rfl := Option.some.inj hv'
      obtain rfl := Option.some.inj (hx'.symm.trans hx)
      obtain ⟨-, hb⟩ := List.append_inj' (hp.symm.trans hp') rfl
      obtain rfl := List.cons.inj hb |>.1
      exact hv
    · intro y' hv' hy'
      exact hother y' (fun heq => hv' (congrArg some heq.symm))
        fun heq => hy' (mem_names_node.mpr (.inl heq))

end SdPlane
