import SdPlane.PtreeGraft

/-!
# A key is added (`ptree.c`)

`ptree_get` goes down as far as the key does, and puts a new node where it comes to the end of the
tree (`graft_leaf`), or a node above the one where the keys part (`graft_branch`), which is the new
node itself if the key ends there, or gets it for its other child. `ptreeGet_got` is what can come
of it: with the memory that it asks for, and a key that is not as long as an `int` can say, there is
a node with the key. Nothing of what was there before is lost in any case.
-/

set_option autoImplicit false

namespace SdPlane

open Lib.Patricia

variable {D : Type} {s : Ptree D} {u : Option Addr} {p k : List Bool} {t : Tree D} {a : Addr}
  {d : Option D} {c : Bool → Tree D} {b : Bool}

/-- Where the loop ends: at the node with the key, or where there is to be one. -/
theorem getLoop_within (key : Nat → UInt8) (keylen more : Nat) (h : Hangs s u p t)
    (hpre : p <+: Lib.bits key keylen) (hmore : keylen + 2 ≤ p.length + more) (hpos : 0 < more) :
    ∃ r, getLoop key keylen s more u t.root = .ok r ∧ match r with
      | .inl x => ∃ e, e ∈ t.entries ∧ e.name = x ∧ e.key = Lib.bits key keylen
      | .inr (u₀, x) => ∃ p₀ t₀, x = t₀.root ∧ Within s u p t u₀ p₀ t₀ ∧ p₀ <+: Lib.bits key keylen
        ∧ ∀ a k d c, t₀ = .node a k d c → ¬k <+: Lib.bits key keylen := by
  induction t generalizing u p more with
  | nil =>
    obtain ⟨more, rfl⟩ := Nat.exists_eq_succ_of_ne_zero hpos.ne'
    exact ⟨.inr (u, none), rfl, p, .nil, rfl, .refl h, hpre, nofun⟩
  | node a k d c ih =>
    obtain ⟨more, rfl⟩ := Nat.exists_eq_succ_of_ne_zero hpos.ne'
    obtain ⟨x, hx, hholds⟩ := h.rep.1
    have hlen : k.length = x.keylen := by rw [← hholds.bits, PtreeNode.length_bits]
    have hp := h.under.1.length_le
    have hmatch : x.keylen ≤ keylen ∧ ptreeMatch x.key key x.keylen
        ↔ k <+: Lib.bits key keylen := by
      rw [match_iff_begins, ← PtreeNode.bits, hholds.bits]
    simp only [root_node, getLoop, node_of_heap hx, Lib.ok_bind, hmatch]
    by_cases hdown : k <+: Lib.bits key keylen
    · have hle : k.length ≤ keylen := by simpa using hdown.length_le
      rw [if_pos hdown]
      by_cases hhere : x.keylen = keylen
      · rw [if_pos hhere]
        refine ⟨.inl a, rfl, ⟨a, k, d⟩, mem_entries_node.mpr (.inl rfl), rfl, ?_⟩
        exact hdown.eq_of_length (by simp [hlen, hhere])
      · rw [if_neg hhere, hholds.child]
        have hlt : x.keylen < keylen := by omega
        have hbit : k ++ [checkBit key x.keylen] <+: Lib.bits key keylen := by
          have hk : Lib.bits key x.keylen = k := by
            rw [← hlen]
            exact (Lib.take_bits hle).symm.trans (List.prefix_iff_eq_take.mp hdown).symm
          rw [← hk, checkBit_eq, ← Lib.bits_succ]
          exact Lib.bits_prefix hlt
        obtain ⟨r, hr, hend⟩ := ih (checkBit key x.keylen) more (h.child _) hbit
          (by simp only [List.length_append, List.length_singleton]; omega) (by omega)
        refine ⟨r, hr, ?_⟩
        cases r with
        | inl y =>
          obtain ⟨e, he, hrest⟩ := hend
          exact ⟨e, mem_entries_node.mpr (.inr ⟨_, he⟩), hrest⟩
        | inr r =>
          obtain ⟨p₀, t₀, hroot, hw, hrest⟩ := hend
          exact ⟨p₀, t₀, hroot, hw.down h, hrest⟩
    · rw [if_neg hdown]
      refine ⟨.inr (u, some a), rfl, p, .node a k d c, rfl, .refl h, hpre, fun _ _ _ _ heq => ?_⟩
      cases heq
      exact hdown

/-! ## New nodes -/

theorem ptreeNodeCreate_ok (mem key : Nat → UInt8) {keylen : Nat} (h : keylen + 7 < 2 ^ 31) :
    ∃ x, NodeHolds x (Lib.bits key keylen) (none : Option D) none (fun _ => .nil)
      ∧ ptreeNodeCreate (some mem) key keylen s = .ok (some s.next, s.alloc x) := by
  have hint : Lib.int ((keylen : Int) + 7) = .ok ((keylen : Int) + 7) :=
    Lib.int_of_fits (by omega)
  simp only [ptreeNodeCreate, hint, Lib.ok_bind]
  refine ⟨_, ⟨?_, rfl, rfl, fun _ => rfl⟩, rfl⟩
  refine Lib.bits_copy_masked (isMask_mask (Nat.mod_lt keylen (by decide)).le) (fun i hi => ?_)
    fun hlast => ?_
  · have hcopied : (i : Int) < ((keylen : Int) + 7) / 8 := by
      change i < keylen / 8 at hi
      omega
    dsimp only
    split
    · rw [Function.update_of_ne hi.ne, if_pos hcopied]
    · exact if_pos hcopied
  · dsimp only
    rw [if_pos hlast, Function.update_self]

theorem ptreeNodeCreate_refused (key : Nat → UInt8) {keylen : Nat} (h : keylen + 7 < 2 ^ 31) :
    ptreeNodeCreate none key keylen s = .ok (none, s) := by
  have hint : Lib.int ((keylen : Int) + 7) = .ok ((keylen : Int) + 7) :=
    Lib.int_of_fits (by omega)
  simp only [ptreeNodeCreate, hint, Lib.ok_bind]
  rfl

/-- The size of the key in bytes is rounded up in an `int`. -/
theorem ptreeNodeCreate_long (mem : Option (Nat → UInt8)) (key : Nat → UInt8) {keylen : Nat}
    (h : 2 ^ 31 ≤ keylen + 7) : ptreeNodeCreate mem key keylen s = .error .overflow := by
  have hint : Lib.int ((keylen : Int) + 7) = .error .overflow := Lib.int_of_big (by omega)
  simp only [ptreeNodeCreate, hint, Lib.error_bind]

@[simp] theorem alloc_new (s : Ptree D) (x : PtreeNode D) : (s.alloc x).heap s.next = some x :=
  Ptree.set_self ..

theorem alloc_of_ne (s : Ptree D) {y : Addr} (x : PtreeNode D) (h : y ≠ s.next) :
    (s.alloc x).heap y = s.heap y := Ptree.set_of_ne _ _ h

/-- A part with all that was there, with a new root, is linked. -/
theorem graft_upper {s₂ : Ptree D} {u₂ : Option Addr} (h : Hangs s u p t)
    (hrep : Rep s₂.heap u₂ (.node a k d c)) (hparent : u = none → u₂ = none)
    (hunder : (Lib.Patricia.node a k d c).Under p) (hnodup : (Lib.Patricia.node a k d c).names.Nodup)
    (htop : s₂.top = s.top) (hnext : s₂.next = s.next + 1)
    (hnames : ∀ y, y ∈ (Lib.Patricia.node a k d c).names ↔ y = s.next ∨ y ∈ t.names)
    (hsame : ∀ y, y ∉ (Lib.Patricia.node a k d c).names → s₂.heap y = s.heap y) :
    ∃ s', linkUpper u (some a) s₂ = .ok s' ∧ s'.next = s.next + 1
      ∧ Grafts s s' u p t (.node a k d c) := by
  have hout : ∀ v, u = some v → v ∉ (Lib.Patricia.node a k d c).names := fun v hu hmem => by
    obtain ⟨hlt, hv, -⟩ := h.slot v hu
    exact ((hnames v).mp hmem).elim hlt.ne hv
  obtain ⟨s', hlink, hrep', hnext', htop', hslot', hother'⟩ := linkUpper_ok hrep hparent hunder hnodup
    fun v hu => by
      obtain ⟨-, -, x, b, hx, hp, -⟩ := h.slot v hu
      exact ⟨hout v hu, x, b, (hsame v (hout v hu)).trans hx, hp⟩
  refine ⟨s', hlink, hnext'.trans hnext, hrep', hunder, hnodup, fun y hy => ?_, ?_, ?_, ?_, ?_⟩
  · rcases (hnames y).mp hy with rfl | hold
    · exact .inr ⟨le_rfl, by rw [hnext', hnext]; exact Nat.lt_succ_self _⟩
    · exact .inl hold
  · rw [hnext', hnext]
    exact Nat.le_succ _
  · rw [htop', htop]
    rfl
  · exact fun v x b hu hx hp => hslot' v x b hu ((hsame v (hout v hu)).trans hx) hp
  · intro y hu hy
    have hold : y ∉ t.names := fun hmem => hy ((hnames y).mpr (.inr hmem))
    rw [hother' y hu hy, hsame y hy, if_neg hold]

theorem graft_leaf {x : PtreeNode D} (h : Hangs s u p .nil)
    (hx : NodeHolds x k none none (fun _ => .nil)) (hpre : p <+: k) :
    ∃ s', linkUpper u (some s.next) (s.alloc x) = .ok s' ∧ s'.next = s.next + 1
      ∧ Grafts s s' u p .nil (.node s.next k none fun _ => .nil) := by
  have hrep : Rep (s.alloc x).heap none (.node s.next k none fun _ => .nil) :=
    ⟨⟨x, alloc_new s x, hx⟩, fun _ => trivial⟩
  refine graft_upper h hrep (fun _ => rfl) ⟨hpre, fun _ => trivial⟩ (by simp [names_node]) rfl rfl
    (fun y => by simp) fun y hy => ?_
  exact alloc_of_ne s x fun heq => hy (by simp [heq])

/-- A node above the root of a part, with one child. -/
theorem graft_branch {x : PtreeNode D} {k₀ : List Bool} (h : Hangs s u p (.node a k d c))
    (hx : NodeHolds x k₀ none none (fun _ => .nil)) (hpre : p <+: k₀) (hbit : k₀ ++ [b] <+: k) :
    ∃ s₂ s', ptreeLink (some s.next) (some a) (s.alloc x) = .ok s₂
      ∧ linkUpper u (some s.next) s₂ = .ok s' ∧ s'.next = s.next + 1
      ∧ Grafts s s' u p (.node a k d c)
        (.node s.next k₀ none (Function.update (fun _ => .nil) b (.node a k d c))) := by
  obtain ⟨y, hy, hholds⟩ := h.rep.1
  have ha : a < s.next := h.used a (mem_names_node.mpr (.inl rfl))
  obtain ⟨s₂, hlink, htop, hnext, hnew, hroot, hother⟩ := ptreeLink_ok (alloc_new s x)
    ((alloc_of_ne s x ha.ne).trans hy) ha.ne'
  have hside : Lib.bitAt y.key x.keylen = b := by
    refine Lib.bits_succ_prefix (y := x.key) (n := y.keylen) ?_
    rw [← hx.bits, ← hholds.bits] at hbit
    exact hbit
  rw [hside] at hnew
  have hnames : ∀ y, y ∈ (Lib.Patricia.node s.next k₀ none
      (Function.update (fun _ => Lib.Patricia.nil) b (.node a k d c))).names
      ↔ y = s.next ∨ y ∈ (Lib.Patricia.node a k d c).names := fun y => by
    rw [(names_perm b).mem_iff, Function.update_self, Function.update_of_ne (by simp)]
    simp
  have hfresh : s.next ∉ (Lib.Patricia.node a k d c).names := fun hmem => (h.used _ hmem).ne rfl
  -- what the lower link makes
  have hbelow : Rep s₂.heap (some s.next) (.node a k d c) := by
    refine h.rep.reparent h.nodup (fun y' hy' => ?_) fun y' hmem hne => ?_
    · obtain rfl := Option.some.inj (hy'.symm.trans hy)
      exact hroot
    · have hne' : y' ≠ s.next := fun heq => hfresh (heq ▸ hmem)
      rw [hother y' hne' hne, alloc_of_ne s x hne']
  have hrep : Rep s₂.heap none
      (.node s.next k₀ none (Function.update (fun _ => .nil) b (.node a k d c))) := by
    refine ⟨⟨_, hnew, hx.bits, hx.data, hx.parent, fun b' => ?_⟩, fun b' => ?_⟩
    · rcases eq_or_ne b' b with rfl | hne
      · simp
      · simp [Function.update_of_ne hne, hx.child]
    · rcases eq_or_ne b' b with rfl | hne
      · rw [Function.update_self]
        exact hbelow
      · rw [Function.update_of_ne hne]
        trivial
  have hunder : (Lib.Patricia.node s.next k₀ (none : Option D)
      (Function.update (fun _ => .nil) b (.node a k d c))).Under p := by
    refine Under.update (c := fun _ => .nil) ⟨hpre, fun _ => trivial⟩ ⟨hbit, h.under.2⟩
  have hnodup : (Lib.Patricia.node s.next k₀ (none : Option D)
      (Function.update (fun _ => .nil) b (.node a k d c))).names.Nodup := by
    refine (names_perm b).nodup_iff.mpr ?_
    rw [Function.update_self, Function.update_of_ne (by simp), names_nil, List.append_nil,
      List.nodup_cons]
    exact ⟨hfresh, h.nodup⟩
  obtain ⟨s', hupper, hrest⟩ := graft_upper h hrep (fun _ => rfl) hunder hnodup htop hnext hnames
    fun y' hy' => by
      have hout := mt (hnames y').mpr hy'
      rw [not_or] at hout
      have hya : y' ≠ a := fun heq => hout.2 (mem_names_node.mpr (.inl heq))
      rw [hother y' hout.1 hya, alloc_of_ne s x hout.1]
  exact ⟨s₂, s', hlink, hupper, hrest⟩

/-! ## What `ptree_get` comes back with -/

/-- More nodes without data, and one of them, or one that was there, with the key. -/
structure Got (mem mem' : Option (Nat → UInt8)) (q : List Bool) (t : Tree D)
    (r : Except Lib.Crash (Option Addr × Ptree D)) : Prop where
  error : ∀ e, r = .error e → ¬(mem.isSome ∧ mem'.isSome ∧ q.length + 7 < 2 ^ 31)
  ok : ∀ v s', r = .ok (v, s') → ∃ t' new, Shape s' t' ∧ t'.entries.Perm (t.entries ++ new)
    ∧ (∀ e, e ∈ new → e.data = none) ∧ (v = none → ¬(mem.isSome ∧ mem'.isSome))
    ∧ ∀ x, v = some x → ∃ e, e ∈ t'.entries ∧ e.name = x ∧ e.key = q

variable {mem mem' : Option (Nat → UInt8)} {q : List Bool}

theorem got_of_error {e : Lib.Crash} (h : ¬(mem.isSome ∧ mem'.isSome ∧ q.length + 7 < 2 ^ 31)) :
    Got mem mem' q t (.error e) :=
  ⟨fun _ _ => h, nofun⟩

theorem got_of_long {e : Lib.Crash} (h : 2 ^ 31 ≤ q.length + 7) : Got mem mem' q t (.error e) :=
  got_of_error fun hall => absurd hall.2.2 (not_lt.mpr h)

theorem got_of_graft {s' : Ptree D} {t₀ t₀' : Tree D} {v : Option Addr}
    (new : List (Entry Addr D)) (h : Shape s t) (hw : Within s none [] t u p t₀)
    (hg : Grafts s s' u p t₀ t₀') (hperm : t₀'.entries.Perm (t₀.entries ++ new))
    (hnew : ∀ e, e ∈ new → e.data = none ∧ e.key.length + 7 < 2 ^ 31)
    (hnone : v = none → ¬(mem.isSome ∧ mem'.isSome))
    (hsome : ∀ x, v = some x → ∃ e, e ∈ t₀'.entries ∧ e.name = x ∧ e.key = q) :
    Got mem mem' q t (.ok (v, s')) := by
  obtain ⟨rest, hrest, hgraft⟩ := hw.graft
  obtain ⟨t', hg', hperm'⟩ := hgraft s' t₀' hg
  have hentries : t'.entries.Perm (t.entries ++ new) := by
    refine (hperm'.trans (hperm.append_right rest)).trans ?_
    refine List.Perm.trans ?_ (hrest.symm.append_right new)
    simpa using List.perm_append_comm.append_left t₀.entries
  refine ⟨nofun, fun v' s'' heq => ?_⟩
  obtain ⟨rfl, rfl⟩ := Prod.mk.inj (Except.ok.inj heq)
  refine ⟨t', new, h.graft hg' fun e he => ?_, hentries, fun e he => (hnew e he).1, hnone,
    fun x hx => ?_⟩
  · rcases List.mem_append.mp (hentries.mem_iff.mp he) with he | he
    · exact h.fits e he
    · exact (hnew e he).2
  · obtain ⟨e, he, hrest⟩ := hsome x hx
    exact ⟨e, hperm'.mem_iff.mpr (List.mem_append_left _ he), hrest⟩

/-- Below the end of the tree. -/
theorem getInsert_leaf (mem mem' : Option (Nat → UInt8)) {key : Nat → UInt8} {keylen : Nat}
    (h : Shape s t) (hw : Within s none [] t u p .nil) (hpre : p <+: Lib.bits key keylen) :
    Got mem mem' (Lib.bits key keylen) t (getInsert mem mem' key keylen u none s) := by
  simp only [getInsert]
  rcases Nat.lt_or_ge (keylen + 7) (2 ^ 31) with hlen | hlong
  swap
  · rw [ptreeNodeCreate_long mem key hlong]
    exact got_of_long (by rw [Lib.length_bits]; exact hlong)
  cases mem with
  | none =>
    simp only [ptreeNodeCreate_refused key hlen, Lib.ok_bind]
    cases u with
    | none =>
      have hsame : ({ s with top := none } : Ptree D) = s := by
        have htop : s.top = none := hw.hangs.top rfl
        rw [← htop]
      simp only [linkUpper, Lib.ok_bind, hsame]
      exact got_of_graft [] h hw hw.hangs.refl (by simp) nofun (by simp) nofun
    | some v => exact got_of_error (by simp)
  | some m =>
    obtain ⟨x, hx, hcreate⟩ := ptreeNodeCreate_ok (s := s) m key hlen
    obtain ⟨s', hlink, -, hg⟩ := graft_leaf hw.hangs hx hpre
    simp only [hcreate, Lib.ok_bind, hlink]
    refine got_of_graft [⟨s.next, Lib.bits key keylen, none⟩] h hw hg (by simp [entries])
      (fun e he => ?_) nofun fun y hy => ?_
    · obtain rfl := List.mem_singleton.mp he
      exact ⟨rfl, by rw [Lib.length_bits]; exact hlen⟩
    · obtain rfl := Option.some.inj hy
      exact ⟨_, mem_entries_node.mpr (.inl rfl), rfl, rfl⟩

/-- Where two keys part that agree on `p`, the second not being what the first begins with. -/
theorem keyCommonLen_parts {key : Nat → UInt8} {keylen : Nat} {x : PtreeNode D}
    (hpre : p <+: Lib.bits key keylen) (hpre' : p <+: x.bits)
    (hnot : ¬x.bits <+: Lib.bits key keylen) :
    let n := keyCommonLen key keylen x.key x.keylen
    n ≤ keylen ∧ n < x.keylen ∧ p <+: Lib.bits key n
      ∧ Lib.bits key n ++ [Lib.bitAt x.key n] <+: x.bits
      ∧ (n < keylen → Lib.bits key n ++ [!Lib.bitAt x.key n] <+: Lib.bits key keylen) := by
  have hspec := keyCommonLen_spec key keylen x.key x.keylen
  intro n
  change n ≤ _ ∧ Lib.bits key n = Lib.bits x.key n
    ∧ (n < min keylen x.keylen → Lib.bitAt key n ≠ Lib.bitAt x.key n) at hspec
  clear_value n
  obtain ⟨hle, hsame, hdiff⟩ := hspec
  have hkey : n ≤ keylen := hle.trans (min_le_left _ _)
  have hnode : n ≤ x.keylen := hle.trans (min_le_right _ _)
  have hlt : n < x.keylen := by
    rcases hnode.lt_or_eq with hlt | heq
    · exact hlt
    · refine absurd ?_ hnot
      have hbits : x.bits = Lib.bits key n := by rw [hsame, heq, PtreeNode.bits]
      rw [hbits]
      exact Lib.bits_prefix hkey
  have hpart : n < keylen → Lib.bitAt key n ≠ Lib.bitAt x.key n := fun hlt' =>
    hdiff (lt_min hlt' hlt)
  have hp : p.length ≤ n := by
    -- the keys do not part within `p`
    by_contra hgt
    have hgt' : n < p.length := not_le.mp hgt
    have hlen : p.length ≤ keylen := by simpa using hpre.length_le
    have hget := List.prefix_iff_getElem?.mp hpre n hgt'
    have hget' := List.prefix_iff_getElem?.mp hpre' n hgt'
    rw [Lib.bits, List.getElem?_map, List.getElem?_range (by omega)] at hget
    rw [PtreeNode.bits, Lib.bits, List.getElem?_map, List.getElem?_range hlt] at hget'
    exact hpart (by omega) (Option.some.inj (hget.trans hget'.symm))
  refine ⟨hkey, hlt, ?_, ?_, fun hlt' => ?_⟩
  · exact List.prefix_of_prefix_length_le hpre (Lib.bits_prefix hkey) (by simpa using hp)
  · rw [hsame, ← Lib.bits_succ]
    exact Lib.bits_prefix hlt
  · have hbit : (!Lib.bitAt x.key n) = Lib.bitAt key n := by
      have hne := hpart hlt'
      cases h : Lib.bitAt x.key n <;> cases h' : Lib.bitAt key n <;> simp_all
    rw [hbit, ← Lib.bits_succ]
    exact Lib.bits_prefix hlt'

/-- The branching node is there, and the key goes on. -/
theorem getOther_got {m : Nat → UInt8} {key : Nat → UInt8} {keylen : Nat} {s₃ : Ptree D}
    {t₀ : Tree D} (h : Shape s t) (hw : Within s none [] t u p t₀)
    (hg : Grafts s s₃ u p t₀ (.node a k none (Function.update (fun _ => .nil) b t₀)))
    (hbit : k ++ [!b] <+: Lib.bits key keylen) (hk : k.length + 7 < 2 ^ 31) :
    Got (some m) mem' (Lib.bits key keylen) t (getOther mem' key keylen a s₃) := by
  have hone : (Lib.Patricia.node a k none (Function.update (fun _ => .nil) b t₀)).entries.Perm
      (t₀.entries ++ [⟨a, k, none⟩]) := entries_update (c := fun _ => .nil) t₀
  rw [getOther]
  rcases Nat.lt_or_ge (keylen + 7) (2 ^ 31) with hlen | hlong
  swap
  · rw [ptreeNodeCreate_long mem' key hlong]
    exact got_of_long (by rw [Lib.length_bits]; exact hlong)
  cases mem' with
  | none =>
    simp only [ptreeNodeCreate_refused key hlen, Lib.ok_bind]
    refine got_of_graft [⟨a, k, none⟩] h hw hg hone (fun e he => ?_) (by simp) nofun
    obtain rfl := List.mem_singleton.mp he
    exact ⟨rfl, hk⟩
  | some m' =>
    obtain ⟨x, hx, hcreate⟩ := ptreeNodeCreate_ok (s := s₃) m' key hlen
    -- the other child is free
    have hnil : Function.update (fun _ => Lib.Patricia.nil) b t₀ (!b) = .nil :=
      Function.update_of_ne (by simp) _ _
    have hthere := hg.hangs hw.hangs
    have hplace := hthere.child (!b)
    rw [hnil] at hplace
    obtain ⟨s₄, hlink, -, hleaf⟩ := graft_leaf hplace hx hbit
    rw [linkUpper] at hlink
    simp only [hcreate, Lib.ok_bind, hlink]
    have hleaf' : Grafts s₃ s₄ (some a) (k ++ [!b])
        (Function.update (fun _ => Lib.Patricia.nil) b t₀ (!b))
        (.node s₃.next (Lib.bits key keylen) none fun _ => .nil) := by
      rw [hnil]
      exact hleaf
    have hboth := entries_update (a := a) (k := k) (d := none) (b := !b)
      (c := Function.update (fun _ => Lib.Patricia.nil) b t₀)
      (.node s₃.next (Lib.bits key keylen) none fun _ => .nil)
    rw [Bool.not_not, Function.update_self] at hboth
    refine got_of_graft [⟨a, k, none⟩, ⟨s₃.next, Lib.bits key keylen, none⟩] h hw
      (hg.trans hw.hangs (hleaf'.lift hthere)) (hboth.trans ?_) (fun e he => ?_) nofun fun y hy => ?_
    · refine (List.Perm.swap _ _ _).trans ?_
      have hcomm : ∀ es : List (Entry Addr D), (es ++ t₀.entries).Perm (t₀.entries ++ es) :=
        fun es => List.perm_append_comm
      exact hcomm [_, _]
    · rcases List.mem_pair.mp he with rfl | rfl
      · exact ⟨rfl, hk⟩
      · exact ⟨rfl, by rw [Lib.length_bits]; exact hlen⟩
    · obtain rfl := Option.some.inj hy
      refine ⟨⟨s₃.next, Lib.bits key keylen, none⟩, hboth.mem_iff.mpr ?_, rfl, rfl⟩
      simp [entries]

/-- Above the node where the key parts from the tree. -/
theorem getInsert_branch (mem mem' : Option (Nat → UInt8)) {key : Nat → UInt8} {keylen : Nat}
    (h : Shape s t) (hw : Within s none [] t u p (.node a k d c)) (hpre : p <+: Lib.bits key keylen)
    (hnot : ¬k <+: Lib.bits key keylen) :
    Got mem mem' (Lib.bits key keylen) t (getInsert mem mem' key keylen u (some a) s) := by
  obtain ⟨x, hx, hholds⟩ := hw.hangs.rep.1
  have hpre' := hw.hangs.under.1
  have hmem : (⟨a, k, d⟩ : Entry Addr D) ∈ t.entries := by
    obtain ⟨rest, hrest, -⟩ := hw.graft
    exact hrest.mem_iff.mpr (List.mem_append_left _ (mem_entries_node.mpr (.inl rfl)))
  have hfits := h.fits _ hmem
  rw [← hholds.bits] at hnot hpre' hfits
  rw [PtreeNode.length_bits] at hfits
  have hparts := keyCommonLen_parts hpre hpre' hnot
  rw [getInsert, node_of_heap hx, Lib.ok_bind, ptreeCommon]
  generalize keyCommonLen key keylen x.key x.keylen = n at hparts ⊢
  obtain ⟨hkey, hlt, hp, hside, hother⟩ := hparts
  have hn : n + 7 < 2 ^ 31 := by omega
  cases mem with
  | none =>
    simp only [ptreeNodeCreate_refused key hn, Lib.ok_bind]
    exact got_of_graft [] h hw hw.hangs.refl (by simp) nofun (by simp) nofun
  | some m =>
    obtain ⟨xn, hxn, hcreate⟩ := ptreeNodeCreate_ok (s := s) m key hn
    rw [hholds.bits] at hside
    obtain ⟨s₂, s₃, hlower, hupper, -, hg⟩ := graft_branch hw.hangs hxn hp hside
    obtain ⟨y, hy, hyholds⟩ := hg.rep.1
    have hlen : y.keylen = n := by simpa using congrArg List.length hyholds.bits
    simp only [hcreate, Lib.ok_bind, hlower, hupper, node_of_heap hy, hlen]
    by_cases hend : n = keylen
    · rw [if_pos hend]
      refine got_of_graft [⟨s.next, Lib.bits key n, none⟩] h hw hg
        (entries_update (c := fun _ => .nil) _) (fun e he => ?_) nofun fun z hz => ?_
      · obtain rfl := List.mem_singleton.mp he
        exact ⟨rfl, by rw [Lib.length_bits]; exact hn⟩
      · obtain rfl := Option.some.inj hz
        exact ⟨_, mem_entries_node.mpr (.inl rfl), rfl, by rw [hend]⟩
    · rw [if_neg hend]
      have hless : n < keylen := lt_of_le_of_ne hkey hend
      exact getOther_got h hw hg (hother hless)
        (by rw [Lib.length_bits]; exact hn)

theorem ptreeGet_got (mem mem' : Option (Nat → UInt8)) (key : Nat → UInt8) (keylen : Nat)
    (h : Shape s t) : Got mem mem' (Lib.bits key keylen) t (ptreeGet mem mem' key keylen s) := by
  obtain ⟨r, hr, hend⟩ := getLoop_within key keylen (keylen + 2) h.hangs (List.nil_prefix)
    (by simp) (by omega)
  simp only [ptreeGet, h.top, hr, Lib.ok_bind]
  cases r with
  | inl x =>
    refine got_of_graft [] h (.refl h.hangs) h.hangs.refl (by simp) nofun nofun fun y hy => ?_
    obtain rfl := Option.some.inj hy
    exact hend
  | inr r =>
    obtain ⟨u, x⟩ := r
    obtain ⟨p, t₀, rfl, hw, hpre, hnot⟩ := hend
    cases t₀ with
    | nil => exact getInsert_leaf mem mem' h hw hpre
    | node a k d c => exact getInsert_branch mem mem' h hw hpre (hnot a k d c rfl)

/-! ## The data -/

theorem Rep.setData {x : PtreeNode D} (h : Rep s.heap u t) (hx : s.heap a = some x) :
    Rep (s.set a { x with data := d }).heap u (t.setData a d) := by
  induction t generalizing u with
  | nil => trivial
  | node a' k d' c ih =>
    obtain ⟨⟨y, hy, hholds⟩, hbelow⟩ := h
    refine ⟨?_, fun b => ih b (hbelow b)⟩
    by_cases heq : a' = a
    · subst heq
      obtain rfl := Option.some.inj (hx.symm.trans hy)
      refine ⟨_, Ptree.set_self .., hholds.bits, by simp, hholds.parent, fun b => ?_⟩
      simp [hholds.child b]
    · refine ⟨y, (Ptree.set_of_ne s _ heq).trans hy, hholds.bits, ?_, hholds.parent, fun b => ?_⟩
      · simp [heq, hholds.data]
      · simp [hholds.child b]

theorem Shape.setData {x : PtreeNode D} (h : Shape s t) (hx : s.heap a = some x) :
    Shape (s.set a { x with data := d }) (t.setData a d) where
  top := by simp [h.top]
  rep := h.rep.setData hx
  under := h.under.setData
  nodup := by simpa using h.nodup
  live a' := by
    rw [names_setData, ← h.live a']
    by_cases heq : a' = a
    · simp [heq, hx]
    · rw [Ptree.set_of_ne _ _ heq]
  used := by simpa using h.used
  fits e he := by
    rw [entries_setData] at he
    obtain ⟨e', he', rfl⟩ := List.mem_map.mp he
    split <;> exact h.fits e' he'

/-- What is stored under each key. -/
def Stores (t : Tree D) (m : List Bool → Option D) : Prop :=
  ∀ q d, m q = some d ↔ ∃ e, e ∈ t.entries ∧ e.key = q ∧ e.data = some d

theorem Stores.of_perm {t' : Tree D} {new : List (Entry Addr D)} {m : List Bool → Option D}
    (h : Stores t m) (hperm : t'.entries.Perm (t.entries ++ new))
    (hnew : ∀ e, e ∈ new → e.data = none) : Stores t' m := by
  intro q d
  rw [h q d]
  constructor
  · rintro ⟨e, he, hrest⟩
    exact ⟨e, hperm.mem_iff.mpr (List.mem_append_left _ he), hrest⟩
  · rintro ⟨e, he, hkey, hd⟩
    rcases List.mem_append.mp (hperm.mem_iff.mp he) with he | he
    · exact ⟨e, he, hkey, hd⟩
    · rw [hnew e he] at hd
      cases hd

theorem Stores.setData {m : List Bool → Option D} {e : Entry Addr D} (h : Stores t m)
    (hunder : t.Under p) (hnodup : t.names.Nodup) (he : e ∈ t.entries) :
    Stores (t.setData e.name d) (Function.update m e.key d) := by
  -- no other entry has this name or this key
  have hname : ∀ f, f ∈ t.entries → f.name = e.name → f = e := fun f hf heq =>
    List.inj_on_of_nodup_map hnodup hf he heq
  intro q d'
  rw [entries_setData]
  by_cases hq : q = e.key
  · subst hq
    rw [Function.update_self]
    constructor
    · rintro rfl
      exact ⟨_, List.mem_map_of_mem he, by simp⟩
    · rintro ⟨f', hf', hkey, hd'⟩
      obtain ⟨f, hf, rfl⟩ := List.mem_map.mp hf'
      by_cases hfe : f.name = e.name
      · rw [if_pos hfe] at hd'
        exact hd'
      · rw [if_neg hfe] at hkey
        exact absurd (congrArg Entry.name (hunder.key_inj hf he hkey)) hfe
  · rw [Function.update_of_ne hq, h q d']
    constructor
    · rintro ⟨f, hf, rfl, hd'⟩
      have hfe : f.name ≠ e.name := fun heq => hq (congrArg Entry.key (hname f hf heq))
      refine ⟨_, List.mem_map_of_mem hf, ?_⟩
      rw [if_neg hfe]
      exact ⟨rfl, hd'⟩
    · rintro ⟨f', hf', hkey, hd'⟩
      obtain ⟨f, hf, rfl⟩ := List.mem_map.mp hf'
      by_cases hfe : f.name = e.name
      · rw [if_pos hfe] at hkey
        have hfkey : f.key = q := hkey
        exact absurd (hfkey.symm.trans (congrArg Entry.key (hname f hf hfe))) hq
      · rw [if_neg hfe] at hkey hd'
        exact ⟨f, hf, hkey, hd'⟩

/-- A call of `ptree_add`, with what `malloc` finds during it. -/
structure AddOp (D : Type) where
  key : Nat → UInt8
  keylen : Nat
  data : Option D
  mem : Option (Nat → UInt8)
  mem' : Option (Nat → UInt8)

namespace AddOp

def bits (op : AddOp D) : List Bool := Lib.bits op.key op.keylen

/-- It gives out whether there is a node. -/
def run (s : Ptree D) (op : AddOp D) : Except Lib.Crash (Ptree D × Bool) := do
  let (v, s) ← ptreeAdd op.mem op.mem' op.key op.keylen op.data s
  return (s, v.isSome)

def Granted (op : AddOp D) : Prop := op.mem.isSome ∧ op.mem'.isSome

/-- Rounded up to bytes, the length is an `int`. -/
def Fits (op : AddOp D) : Prop := op.keylen + 7 < 2 ^ 31

end AddOp

/-- The tree holds what the map does. -/
def StandsFor (s : Ptree D) (m : List Bool → Option D) : Prop := ∃ t, Shape s t ∧ Stores t m

theorem standsFor_create : StandsFor (ptreeCreate : Ptree D) fun _ => none :=
  ⟨.nil, ⟨rfl, trivial, trivial, List.nodup_nil, fun a => by simp [ptreeCreate], nofun, nofun⟩,
    fun q d => by simp⟩

theorem Shape.standsFor (h : Shape s t) :
    StandsFor s fun q => (t.find q).bind (·.data) := by
  refine ⟨t, h, fun q d => ?_⟩
  rw [Option.bind_eq_some_iff]
  constructor
  · rintro ⟨e, he, hd⟩
    obtain ⟨hmem, hkey⟩ := find_some he
    exact ⟨e, hmem, hkey, hd⟩
  · rintro ⟨e, he, rfl, hd⟩
    exact ⟨e, h.under.find_mem he, hd⟩

/-- Memory is what an addition may be short of; else only a key may be too long for it. -/
theorem AddOp.run_standsFor {m : List Bool → Option D} (op : AddOp D) (h : StandsFor s m) :
    match op.run s with
    | .error _ => ¬(op.Granted ∧ op.Fits)
    | .ok (s', added) => (added = false → ¬op.Granted) ∧ (added → op.Fits)
      ∧ StandsFor s' (if added then Function.update m op.bits op.data else m) := by
  obtain ⟨t, hshape, hstores⟩ := h
  have hgot := ptreeGet_got op.mem op.mem' op.key op.keylen hshape
  cases hget : ptreeGet op.mem op.mem' op.key op.keylen s with
  | error e =>
    have herr := hgot.error e hget
    rw [Lib.length_bits] at herr
    simp only [AddOp.run, ptreeAdd, hget, Lib.error_bind]
    exact fun hall => herr ⟨hall.1.1, hall.1.2, hall.2⟩
  | ok r =>
    obtain ⟨v, s'⟩ := r
    obtain ⟨t', new, hshape', hperm, hnew, hnone, hsome⟩ := hgot.ok v s' hget
    have hstores' := hstores.of_perm hperm hnew
    cases v with
    | none =>
      simp only [AddOp.run, ptreeAdd, hget, Lib.ok_bind]
      exact ⟨fun _ => hnone rfl, nofun, t', hshape', hstores'⟩
    | some x =>
      obtain ⟨e, he, rfl, hkey⟩ := hsome x rfl
      obtain ⟨y, hy, -⟩ := hshape'.rep.entry he
      have hfits := hshape'.fits e he
      rw [hkey, Lib.length_bits] at hfits
      simp only [AddOp.run, ptreeAdd, hget, Lib.ok_bind, Ptree.assign_ok hy]
      refine ⟨nofun, fun _ => hfits, t'.setData e.name op.data, hshape'.setData hy, ?_⟩
      have hset := hstores'.setData (d := op.data) hshape'.under hshape'.nodup he
      rw [hkey] at hset
      exact hset

end SdPlane
