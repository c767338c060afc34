import SdPlane.Lib.Refs
import SdPlane.NexthopFill

/-!
# The reference counts of gateways are exact

`refcnt` of a gateway is the number of members of live groups that point at it, in every
state that calls of `nexthop_add_entry` and `nexthop_del_entry` lead to, whether they succeed
or fail. `InfoExact` is the invariant, stated over the places that count while a group is
half built.

Along with the counts goes what they are for: a gateway that is pointed at keeps its
content. `InfoExact` carries it for a set `K` of places that keep counting throughout,
compared with the state `s₀` at the start. The proof takes `K` to be empty; the results about
routes take it to be the members of the groups that routes use.
-/

set_option autoImplicit false

namespace SdPlane

/-- The places that count, with `built` members of each slot counting. -/
def places (built : Built) : Finset Place :=
  (Finset.range MAX_NEXTHOP_GRP_SIZE).sigma fun g => Finset.range (built g)

theorem mem_places {built : Built} {p : Place} :
    p ∈ places built ↔ p.1 < MAX_NEXTHOP_GRP_SIZE ∧ p.2 < built p.1 := by
  simp [places]

/-- A slot of which nothing is built has no places. -/
theorem ne_of_mem_places {built : Built} {slot : Nat} {p : Place}
    (h : p ∈ places (Function.update built slot 0)) : p.1 ≠ slot := by
  intro heq
  have hlt := (mem_places.mp h).2
  rw [heq, Function.update_self] at hlt
  exact Nat.not_lt_zero _ hlt

/-- The members of live groups. -/
abbrev live (s : NhState) : Finset Place := places s.cnt

theorem places_succ {built : Built} {slot : Nat} (h : slot < MAX_NEXTHOP_GRP_SIZE) :
    places (Function.update built slot (built slot + 1))
      = insert ⟨slot, built slot⟩ (places built) := by
  ext ⟨g, j⟩
  rw [Finset.mem_insert, mem_places, mem_places]
  by_cases hg : g = slot
  · subst hg
    simp only [Function.update_self, h, true_and, Sigma.mk.injEq, heq_eq_eq]
    omega
  · simp only [Function.update_of_ne hg, Sigma.mk.injEq, hg, false_and, false_or]

theorem notMem_places_next {built : Built} {slot : Nat} :
    (⟨slot, built slot⟩ : Place) ∉ places built := by
  rw [mem_places]
  exact fun h => Nat.lt_irrefl _ h.2

/-- The places that are left when the first `j` members of a slot have been given up. -/
def placesFrom (built : Built) (slot j : Nat) : Finset Place :=
  (places built).filter fun p => p.1 = slot → j ≤ p.2

theorem placesFrom_zero (built : Built) (slot : Nat) : placesFrom built slot 0 = places built := by
  apply Finset.filter_true_of_mem
  intro p _ _
  exact Nat.zero_le _

theorem placesFrom_succ (built : Built) (slot j : Nat) :
    placesFrom built slot (j + 1) = (placesFrom built slot j).erase ⟨slot, j⟩ := by
  ext ⟨g, i⟩
  simp only [placesFrom, Finset.mem_filter, Finset.mem_erase, ne_eq, Sigma.mk.injEq, heq_eq_eq]
  by_cases hg : g = slot
  · simp only [hg, true_and, true_implies]
    constructor
    · rintro ⟨hp, hj⟩
      exact ⟨by omega, hp, by omega⟩
    · rintro ⟨hne, hp, hj⟩
      exact ⟨hp, by omega⟩
  · simp [hg]

theorem mem_placesFrom {built : Built} {slot j : Nat} (hslot : slot < MAX_NEXTHOP_GRP_SIZE)
    (hj : j < built slot) : (⟨slot, j⟩ : Place) ∈ placesFrom built slot j := by
  rw [placesFrom, Finset.mem_filter, mem_places]
  exact ⟨⟨hslot, hj⟩, fun _ => Nat.le_refl j⟩

theorem placesFrom_all (built : Built) (slot : Nat) :
    placesFrom built slot (built slot) = places (Function.update built slot 0) := by
  ext ⟨g, i⟩
  simp only [placesFrom, Finset.mem_filter, mem_places]
  by_cases hg : g = slot
  · subst hg
    simp only [Function.update_self]
    constructor
    · rintro ⟨⟨-, hlt⟩, hge⟩
      exact absurd hlt (Nat.not_lt.mpr (hge trivial))
    · rintro ⟨-, hlt⟩
      exact absurd hlt (Nat.not_lt_zero i)
  · simp [hg]

/-- The counts of gateways are exact over the places `H`, and the places `K` among them point
    at what they pointed at in `s₀`. -/
structure InfoExact (K : Finset Place) (s₀ : NhState) (H : Finset Place) (s : NhState) :
    Prop where
  count : ∀ i, i < MAX_NEXTHOP_INFO_SIZE → (s.infoPool i).refcnt = Lib.refs H s.info i
  bound : ∀ p, -1 ≤ s.info p ∧ s.info p < MAX_NEXTHOP_INFO_SIZE
  kept : K ⊆ H
  member : ∀ p ∈ K, s.member p = s₀.member p
  content : ∀ p ∈ K, ∀ i : Nat, s₀.info p = i →
    (s.infoPool i).content = (s₀.infoPool i).content

namespace InfoExact

variable {K H : Finset Place} {s₀ s t : NhState}

/-- What is pointed at is live. -/
theorem positive (h : InfoExact K s₀ H s) {p : Place} (hp : p ∈ H) {i : Nat} (hi : s.info p = i) :
    0 < (s.infoPool i).refcnt := by
  have hlt : (i : Int) < MAX_NEXTHOP_INFO_SIZE := hi ▸ (h.bound p).2
  rw [h.count i (by exact_mod_cast hlt), ← hi]
  exact Lib.refs_pos hp

theorem refcnt_nonneg (h : InfoExact K s₀ H s) {i : Nat} (hi : i < MAX_NEXTHOP_INFO_SIZE) :
    0 ≤ (s.infoPool i).refcnt := by
  rw [h.count i hi]
  exact Lib.refs_nonneg ..

/-- Nothing happens to the gateways and to the members that count. -/
theorem congr (h : InfoExact K s₀ H s) (hpool : t.infoPool = s.infoPool)
    (hmem : ∀ p ∈ H, t.member p = s.member p)
    (hbound : ∀ p, -1 ≤ t.info p ∧ t.info p < MAX_NEXTHOP_INFO_SIZE) :
    InfoExact K s₀ H t where
  count i hi := by
    rw [hpool, h.count i hi]
    apply Lib.refs_congr
    intro p hp
    rw [NhState.info, NhState.info, hmem p hp]
  bound := hbound
  kept := h.kept
  member p hp := (hmem p (h.kept hp)).trans (h.member p hp)
  content := by rw [hpool]; exact h.content

/-- The member at `p` is set, and what it points at gains a reference. A gateway that was
    live keeps its content. -/
theorem take (h : InfoExact K s₀ H s) {p : Place} (hp : p ∉ H)
    (hmem : ∀ q, q ≠ p → t.member q = s.member q)
    (hbound : -1 ≤ t.info p ∧ t.info p < MAX_NEXTHOP_INFO_SIZE)
    (hcount : ∀ i, i < MAX_NEXTHOP_INFO_SIZE →
      (t.infoPool i).refcnt = (s.infoPool i).refcnt + if t.info p = i then 1 else 0)
    (hcontent : ∀ i, i < MAX_NEXTHOP_INFO_SIZE → 0 < (s.infoPool i).refcnt →
      (t.infoPool i).content = (s.infoPool i).content) :
    InfoExact K s₀ (insert p H) t where
  count i hi := by
    rw [hcount i hi, h.count i hi]
    symm
    apply Lib.refs_insert hp
    intro q hq
    rw [NhState.info, NhState.info, hmem q fun heq => hp (heq ▸ hq)]
  bound q := by
    by_cases hq : q = p
    · rw [hq]; exact hbound
    · rw [NhState.info, hmem q hq]; exact h.bound q
  kept := h.kept.trans (Finset.subset_insert p H)
  member q hq := by
    rw [hmem q fun heq => hp (heq ▸ h.kept hq)]
    exact h.member q hq
  content q hq i hi := by
    have hsame : s.info q = i := by rw [NhState.info, h.member q hq]; exact hi
    have hlt : (i : Int) < MAX_NEXTHOP_INFO_SIZE := hsame ▸ (h.bound q).2
    rw [hcontent i (by exact_mod_cast hlt) (h.positive (h.kept hq) hsame)]
    exact h.content q hq i hi

/-- The place `p` stops counting, and its gateway is released. -/
theorem release (h : InfoExact K s₀ H s) {p : Place} (hp : p ∈ H) (hK : p ∉ K)
    (hmem : ∀ q, t.member q = s.member q)
    (hpool : t.infoPool = (infoRelease s (s.info p)).infoPool) :
    InfoExact K s₀ (H.erase p) t where
  count i hi := by
    have herase : Lib.refs (H.erase p) t.info i
        = Lib.refs H s.info i - if s.info p = i then 1 else 0 := by
      apply Lib.refs_erase hp
      intro q _
      rw [NhState.info, NhState.info, hmem q]
    have hpos : s.info p = i → 0 < (s.infoPool i).refcnt := h.positive hp
    rw [herase, ← h.count i hi, hpool, infoPool_infoRelease s _ hi]
    by_cases heq : s.info p = i
    · have hpos := hpos heq
      rw [if_pos heq, if_pos heq]
      split
      · show (0 : Int) = _
        omega
      · rfl
    · rw [if_neg heq, if_neg heq, Int.sub_zero]
  bound q := by rw [NhState.info, hmem q]; exact h.bound q
  kept q hq := Finset.mem_erase.mpr ⟨fun heq => hK (heq ▸ hq), h.kept hq⟩
  member q hq := (hmem q).trans (h.member q hq)
  content q hq i hi := by
    have hsame : s.info q = i := by rw [NhState.info, h.member q hq]; exact hi
    have hlt : i < MAX_NEXTHOP_INFO_SIZE := by
      have hlt : (i : Int) < MAX_NEXTHOP_INFO_SIZE := hsame ▸ (h.bound q).2
      exact_mod_cast hlt
    rw [hpool, infoPool_infoRelease s _ hlt, ← h.content q hq i hi]
    by_cases heq : s.info p = i
    · -- `q` points there too, so this is not the last reference
      have htwo : 1 < (s.infoPool i).refcnt := by
        have herase := Lib.refs_erase (f := s.info) (g := s.info) hp (fun _ _ => rfl) (i : Int)
        have hq' : q ∈ H.erase p := Finset.mem_erase.mpr ⟨fun heq => hK (heq ▸ hq), h.kept hq⟩
        have hpos := Lib.refs_pos (f := s.info) hq'
        rw [hsame] at hpos
        rw [h.count i hlt]
        rw [if_pos heq] at herase
        omega
      rw [if_pos heq, if_neg (by omega)]
      rfl
    · rw [if_neg heq]

end InfoExact

section Steps

variable {K : Finset Place} {s₀ s t : NhState} {built : Built} {slot : Nat}

/-- A round of a release loop, whichever of the two it is. -/
theorem InfoExact.release_round (hslot : slot < MAX_NEXTHOP_GRP_SIZE)
    (hK : ∀ p ∈ K, p.1 ≠ slot) {j : Nat} (hj : j < built slot)
    (h : InfoExact K s₀ (placesFrom built slot j) s) (hmem : ∀ q, t.member q = s.member q)
    (hpool : t.infoPool = (infoRelease s (s.info ⟨slot, j⟩)).infoPool) :
    InfoExact K s₀ (placesFrom built slot (j + 1)) t := by
  rw [placesFrom_succ]
  exact h.release (mem_placesFrom hslot hj) (fun hp => hK _ hp rfl) hmem hpool

theorem InfoExact.releaseMembers (h : InfoExact K s₀ (places built) s)
    (hslot : slot < MAX_NEXTHOP_GRP_SIZE) (hK : ∀ p ∈ K, p.1 ≠ slot) :
    InfoExact K s₀ (places (Function.update built slot 0))
      (releaseMembers s slot (built slot)) := by
  rw [← placesFrom_all]
  rw [← placesFrom_zero built slot] at h
  apply Lib.forUpTo_rule (fun j t => InfoExact K s₀ (placesFrom built slot j) t) h
  intro j t hj ht
  exact ht.release_round hslot hK hj (fun q => member_releaseMember ..) (infoPool_releaseMember ..)

theorem InfoExact.releaseInfos (h : InfoExact K s₀ (places built) s)
    (hslot : slot < MAX_NEXTHOP_GRP_SIZE) (hK : ∀ p ∈ K, p.1 ≠ slot) :
    InfoExact K s₀ (places (Function.update built slot 0))
      (releaseInfos s slot (built slot)) := by
  rw [← placesFrom_all]
  rw [← placesFrom_zero built slot] at h
  apply Lib.forUpTo_rule (fun j t => InfoExact K s₀ (placesFrom built slot j) t) h
  intro j t hj ht
  exact ht.release_round hslot hK hj (fun q => member_infoRelease ..) rfl

/-- Clearing a slot of which nothing counts. -/
theorem InfoExact.clear (h : InfoExact K s₀ (places (Function.update built slot 0)) s) :
    InfoExact K s₀ (places (Function.update built slot 0)) (s.clearGroup slot) := by
  refine h.congr rfl (fun p hp => ?_) fun p => ?_
  · rw [NhState.member_clearGroup, if_neg (ne_of_mem_places hp)]
  · rw [NhState.info, NhState.member_clearGroup]
    split
    · exact ⟨Int.negSucc_le_zero 0, Int.ofNat_lt.mpr MAX_NEXTHOP_INFO_SIZE_pos⟩
    · exact h.bound p

theorem InfoExact.reserve (h : InfoExact K s₀ (places built) s) (slot : Nat)
    (e : InternalMsgNhEntry) : InfoExact K s₀ (places built) (reserve s slot e) :=
  h.congr rfl (fun p _ => member_reserve ..) fun p => by
    rw [NhState.info, member_reserve]
    exact h.bound p

/-- Setting the next member of a half-built group. -/
theorem InfoExact.takeNext (h : InfoExact K s₀ (places built) s)
    (hslot : slot < MAX_NEXTHOP_GRP_SIZE) {m : NhMember}
    (hmem : ∀ q, t.member q = if q = ⟨slot, built slot⟩ then m else s.member q)
    (hbound : -1 ≤ m.infoIndex ∧ m.infoIndex < MAX_NEXTHOP_INFO_SIZE)
    (hcount : ∀ i, i < MAX_NEXTHOP_INFO_SIZE →
      (t.infoPool i).refcnt = (s.infoPool i).refcnt + if m.infoIndex = i then 1 else 0)
    (hcontent : ∀ i, i < MAX_NEXTHOP_INFO_SIZE → 0 < (s.infoPool i).refcnt →
      (t.infoPool i).content = (s.infoPool i).content) :
    InfoExact K s₀ (places (Function.update built slot (built slot + 1))) t := by
  have hinfo : t.info ⟨slot, built slot⟩ = m.infoIndex := by
    rw [NhState.info, hmem, if_pos rfl]
  rw [places_succ hslot]
  refine h.take notMem_places_next (fun q hq => ?_) ?_ ?_ hcontent
  · rw [hmem, if_neg hq]
  · rw [hinfo]; exact hbound
  · rw [hinfo]; exact hcount

theorem InfoExact.share (h : InfoExact K s₀ (places built) s)
    (hslot : slot < MAX_NEXTHOP_GRP_SIZE) (refSlot w : Nat) :
    InfoExact K s₀ (places (Function.update built slot (built slot + 1)))
      (shareMember s slot (built slot) refSlot w) := by
  apply h.takeNext hslot (m := ⟨refSlot, s.info ⟨refSlot, 0⟩, w⟩)
  · intro q; exact member_shareMember ..
  · exact h.bound _
  · intro i _
    rw [infoPool_shareMember]
    split
    · rfl
    · rw [Int.add_zero]
  · intro i _ _
    rw [infoPool_shareMember]
    split
    · rfl
    · rfl

theorem InfoExact.alloc (h : InfoExact K s₀ (places built) s)
    (hslot : slot < MAX_NEXTHOP_GRP_SIZE) {src : NhInfo} {idx w : Nat}
    (halloc : infoAlloc s src = some (idx, t)) :
    InfoExact K s₀ (places (Function.update built slot (built slot + 1)))
      (t.setMember slot (built slot) ⟨-1, idx, w⟩) := by
  obtain ⟨hidx, hcases⟩ := infoAlloc_cases halloc
  apply h.takeNext hslot (m := ⟨-1, idx, w⟩)
  · intro q; rw [NhState.member_setMember, member_infoAlloc halloc]
  · exact ⟨by simp only; omega, Int.ofNat_lt.mpr hidx⟩
  · intro i hi
    have hnonneg := h.refcnt_nonneg hi
    have hiff : (idx : Int) = i ↔ i = idx := by omega
    show _ = _ + if (idx : Int) = i then 1 else 0
    simp only [hiff]
    rw [NhState.infoPool_setMember]
    rcases hcases with ⟨-, rfl⟩ | ⟨-, hfree, rfl⟩
    · rw [NhState.infoPool_holdInfo]
      by_cases heq : i = idx
      · rw [if_pos heq, if_pos heq]
      · rw [if_neg heq, if_neg heq, Int.add_zero]
    · show ((s.setInfo idx { src with refcnt := 1 }).infoPool i).refcnt = _
      rw [NhState.infoPool_setInfo]
      by_cases heq : i = idx
      · rw [if_pos heq, if_pos heq]
        rw [← heq] at hfree
        show (1 : Int) = _
        omega
      · rw [if_neg heq, if_neg heq, Int.add_zero]
  · intro i _ hpos
    rw [NhState.infoPool_setMember]
    rcases hcases with ⟨-, rfl⟩ | ⟨-, hfree, rfl⟩
    · rw [NhState.infoPool_holdInfo]
      split
      · rfl
      · rfl
    · have hne : i ≠ idx := by
        rintro rfl
        omega
      show ((s.setInfo idx { src with refcnt := 1 }).infoPool i).content = _
      rw [NhState.infoPool_setInfo, if_neg hne]

/-- **The counts of gateways survive everything that happens to the pools.** -/
theorem poolInv_infoExact {malloc : Bool} {nh : InternalMsgNhEntry}
    (hK : ∀ p ∈ K, s₀.cnt p.1 ≠ 0) :
    PoolInv malloc s₀ nh (fun _ => True) (fun _ => True)
      fun built s => InfoExact K s₀ (places built) s where
  reserve built s slot e h _ _ _ _ := h.reserve slot e
  abandon built s slot e h _ _ _ hbuilt _ _ := by
    have hclear := (hbuilt ▸ Function.update_eq_self slot built :
      Function.update built slot 0 = built)
    have hstart := h.reserve slot e
    rw [← hclear] at hstart ⊢
    exact hstart.clear
  unresolved built s slot w h hslot _ := by
    apply h.takeNext hslot (m := ⟨-1, -1, w⟩)
    · intro q; exact NhState.member_setMember ..
    · exact ⟨Int.le_refl _, by simp only; omega⟩
    · intro i _
      rw [NhState.infoPool_setMember, if_neg (by simp only; omega), Int.add_zero]
    · intro i _ _; rfl
  share built s slot refSlot w h hslot _ _ _ := h.share hslot refSlot w
  alloc built s slot src idx t w h hslot _ halloc := h.alloc hslot halloc
  rollback built s slot h hslot hfree _ _ _ :=
    (h.releaseMembers hslot fun p hp heq => hK p hp (heq ▸ hfree)).clear
  rollbackInfos built s slot h hslot hfree _ _ _ _ _ :=
    (h.releaseInfos hslot fun p hp heq => hK p hp (heq ▸ hfree)).clear
  top built s t h := h.congr rfl (fun _ _ => rfl) h.bound
  hash built s ht h := h.congr rfl (fun _ _ => rfl) h.bound

end Steps

/-! ## Runs -/

/-- A call from outside. -/
inductive NhCall
  | add (malloc : Bool) (nh : InternalMsgNhEntry)
  | del (nh : InternalMsgNhEntry)

/-- What a call does, and what it returns. -/
def nhCall (s : NhState) : NhCall → NhState × Option Nat
  | .add malloc nh => nexthopAddEntry malloc s nh
  | .del nh => nexthopDelEntry s nh

/-- What holds between calls. -/
structure NhGood (s : NhState) : Prop where
  info : InfoExact ∅ s (live s) s
  top : s.groupsTop < MAX_NEXTHOP_GRP_SIZE
  slots : ∀ k v, s.nhHt.find k = some v → v < MAX_NEXTHOP_GRP_SIZE

/-- Between calls the comparison may start anew, with any members of live groups. -/
theorem InfoExact.restart {K K' H : Finset Place} {s₀ s : NhState} (h : InfoExact K s₀ H s)
    (hK : K' ⊆ H) : InfoExact K' s H s where
  count := h.count
  bound := h.bound
  kept := hK
  member _ _ := rfl
  content _ _ _ _ := rfl

theorem InfoExact.forget {K H : Finset Place} {s₀ s : NhState} (h : InfoExact K s₀ H s) :
    InfoExact ∅ s H s := h.restart (Finset.empty_subset H)

/-- After a call every member of every group counts. -/
theorem Grown.complete {I : Built → NhState → Prop} {s t : NhState} {built : Built}
    (h : Grown I s s.cnt t built) : I t.cnt t := by
  have hbuilt : built = t.cnt := by
    funext g
    rcases h.slots g with ⟨hcnt, hb⟩ | ⟨-, hb⟩
    · exact hb.trans hcnt.symm
    · exact hb
  exact hbuilt ▸ h.inv

theorem infoExact_nexthopAddEntry {K : Finset Place} {s : NhState} (malloc : Bool)
    (nh : InternalMsgNhEntry) (h : InfoExact ∅ s (live s) s)
    (htop : s.groupsTop < MAX_NEXTHOP_GRP_SIZE) (hK : K ⊆ live s) :
    InfoExact K s (live (nexthopAddEntry malloc s nh).1) (nexthopAddEntry malloc s nh).1
      ∧ (nexthopAddEntry malloc s nh).1.groupsTop < MAX_NEXTHOP_GRP_SIZE := by
  have hbusy : ∀ p ∈ K, s.cnt p.1 ≠ 0 := by
    intro p hp
    have hlt := (mem_places.mp (hK hp)).2
    omega
  obtain ⟨built, hgrown⟩ := (poolInv_infoExact hbusy).addEntry
    (h.restart hK) (fun _ hg => hg) htop (fun _ _ _ => trivial) fun _ _ => .inl trivial
  exact ⟨hgrown.complete, hgrown.top⟩

/-- The head of a slot that is freed. -/
theorem cnt_freeGroup (s : NhState) (slot : Nat) :
    (freeGroup s slot).cnt = Function.update s.cnt slot 0 := by
  funext g
  rw [freeGroup, NhState.cnt_clearGroup, Function.update_apply,
    (headsKept_releaseMembers ..).cnt]

theorem kernel_freeGroup (s : NhState) (slot g : Nat) :
    (freeGroup s slot).kernel g = if g = slot then 0 else s.kernel g := by
  rw [freeGroup, NhState.kernel_clearGroup, (headsKept_releaseMembers ..).kernel]

theorem infoExact_freeGroup {K : Finset Place} {s₀ s : NhState} {slot : Nat}
    (h : InfoExact K s₀ (live s) s) (hslot : slot < MAX_NEXTHOP_GRP_SIZE)
    (hK : ∀ p ∈ K, p.1 ≠ slot) :
    InfoExact K s₀ (live (freeGroup s slot)) (freeGroup s slot) := by
  rw [live, cnt_freeGroup]
  exact (h.releaseMembers hslot hK).clear

/-- The two pools have one size. -/
theorem sizes_eq : MAX_NEXTHOP_INFO_SIZE = MAX_NEXTHOP_GRP_SIZE := by
  unfold MAX_NEXTHOP_INFO_SIZE MAX_NEXTHOP_GRP_SIZE
  rfl

/-- A reference of a route comes or goes. -/
theorem live_addRef (s : NhState) (slot : Nat) (d : Int) : live (s.addRef slot d) = live s := by
  rw [live, live]
  congr 1
  funext g
  exact NhState.cnt_addRef ..

namespace NhGood

variable {s : NhState}

/-- With no group in use, whatever the hash table leads to. -/
theorem empty {ht : HashTable nexthopKeyOps}
    (hslots : ∀ k v, ht.find k = some v → v < MAX_NEXTHOP_GRP_SIZE) : NhGood ⟨.zero, ht⟩ where
  info := by
    have hnone : live ⟨.zero, ht⟩ = ∅ := by
      rw [Finset.eq_empty_iff_forall_notMem]
      intro p hp
      exact absurd (mem_places.mp hp).2 (Nat.not_lt_zero _)
    rw [hnone]
    refine ⟨fun i _ => rfl, fun p => ⟨Int.negSucc_le_zero 0, ?_⟩, Finset.Subset.refl _,
      fun _ _ => rfl, fun _ _ _ _ => rfl⟩
    exact Int.ofNat_lt.mpr MAX_NEXTHOP_INFO_SIZE_pos
  top := MAX_NEXTHOP_GRP_SIZE_pos
  slots := hslots

theorem init : NhGood nexthopInit := empty fun k v h => by simp at h

theorem add (h : NhGood s) (malloc : Bool) (nh : InternalMsgNhEntry) :
    NhGood (nexthopAddEntry malloc s nh).1 where
  info := (infoExact_nexthopAddEntry malloc nh h.info h.top (Finset.empty_subset _)).1.forget
  top := (infoExact_nexthopAddEntry malloc nh h.info h.top (Finset.empty_subset _)).2
  slots k v hfind := by
    have hheads := nexthopAddEntry_heads malloc s nh h.top
    generalize (nexthopAddEntry malloc s nh).1 = t, (nexthopAddEntry malloc s nh).2 = r
      at hheads hfind
    cases hheads with
    | kept _ hht => rw [hht] at hfind; exact h.slots k v hfind
    | indexed slot _ hdone _ _ _ hins =>
      rw [HashTable.find_insert hins] at hfind
      split at hfind
      · rw [← Option.some.inj hfind]
        exact (findSlot_some hdone.2.1 h.top).1
      · exact h.slots k v hfind

/-- The slot that an add answers is a slot. -/
theorem addSlot_lt (h : NhGood s) {malloc : Bool} {nh : InternalMsgNhEntry} {t : NhState} {slot : Nat}
    (hadd : nexthopAddEntry malloc s nh = (t, some slot)) : slot < MAX_NEXTHOP_GRP_SIZE := by
  have hres := addEntryWith_result (addStandalone malloc) malloc s nh
  rw [show addEntryWith (addStandalone malloc) malloc s nh = (t, some slot) from hadd] at hres
  cases hres with
  | reused g hex =>
    unfold findExisting at hex
    split at hex
    · exact h.slots _ _ (nexthopGetIndexByNhid_eq_some.mp hex).2.2
    · exact (legacyFind_some hex).1
  | legacy _ slot hslot => exact (findSlot_some hslot h.top).1
  | indexed _ slot hslot => exact (findSlot_some hslot h.top).1

/-- The slot that a delete frees is a slot. -/
theorem delSlot_lt (h : NhGood s) {nh : InternalMsgNhEntry} {slot : Nat}
    (hdel : delSlot s nh = some slot) : slot < MAX_NEXTHOP_GRP_SIZE := by
  unfold delSlot at hdel
  split at hdel
  · exact h.slots _ _ (nexthopGetIndexByNhid_eq_some.mp hdel).2.2
  · rw [← sizes_eq]
    exact (legacyFind_some hdel).1

theorem removeNhid (h : NhGood s) (k : Int) : NhGood (removeNhid s k) where
  info := h.info.congr (t := SdPlane.removeNhid s k) rfl (fun _ _ => rfl) h.info.bound |>.forget
  top := h.top
  slots k' v hfind := by
    unfold SdPlane.removeNhid at hfind
    cases hrem : s.nhHt.remove k with
    | none =>
      rw [hrem] at hfind
      exact h.slots k' v hfind
    | some ht =>
      rw [hrem] at hfind
      change ht.find k' = some v at hfind
      rw [HashTable.find_remove hrem] at hfind
      split at hfind
      · cases hfind
      · exact h.slots k' v hfind

theorem freeGroup (h : NhGood s) {slot : Nat} (hslot : slot < MAX_NEXTHOP_GRP_SIZE) :
    NhGood (freeGroup s slot) where
  info := (infoExact_freeGroup h.info hslot (by simp)).forget
  top := by
    rw [SdPlane.freeGroup, NhState.groupsTop_clearGroup, (headsKept_releaseMembers ..).groupsTop]
    exact h.top
  slots k v hfind := by
    rw [SdPlane.freeGroup, NhState.nhHt_clearGroup, (headsKept_releaseMembers ..).nhHt] at hfind
    exact h.slots k v hfind

theorem del (h : NhGood s) (nh : InternalMsgNhEntry) : NhGood (nexthopDelEntry s nh).1 := by
  unfold nexthopDelEntry
  split
  · exact h
  · next slot hdel =>
    have hslot := h.delSlot_lt hdel
    dsimp only
    split
    · exact (h.removeNhid _).freeGroup hslot
    · exact h.freeGroup hslot

theorem call (h : NhGood s) (c : NhCall) : NhGood (nhCall s c).1 := by
  cases c with
  | add malloc nh => exact h.add malloc nh
  | del nh => exact h.del nh

theorem addRef (h : NhGood s) (slot : Nat) (d : Int) : NhGood (s.addRef slot d) where
  info := by
    rw [live_addRef]
    have hmember : ∀ p, (s.addRef slot d).member p = s.member p := fun p => NhState.member_addRef ..
    refine (@InfoExact.congr _ _ _ _ (s.addRef slot d) h.info rfl (fun p _ => hmember p)
      fun p => ?_).forget
    rw [NhState.info, hmember]
    exact h.info.bound p
  top := h.top
  slots := h.slots

theorem addRefcnt (h : NhGood s) (id d : Int) : NhGood (nexthopAddRefcnt s id d) := by
  unfold nexthopAddRefcnt
  split
  · exact h.addRef _ d
  · exact h

end NhGood

/-- The state after a sequence of calls. -/
def nhAfter (calls : List NhCall) : NhState :=
  calls.foldl (fun s c => (nhCall s c).1) nexthopInit

theorem nhGood_nhAfter (calls : List NhCall) : NhGood (nhAfter calls) := by
  unfold nhAfter
  induction calls using List.reverseRecOn with
  | nil => exact NhGood.init
  | append_singleton calls c ih =>
    rw [List.foldl_append]
    exact ih.call c

/-- **Reference counts of gateways are exact.** After any sequence of calls, succeeding or
    failing, the count of a gateway is the number of members of live groups that point at it.
    So none is negative, and what a live group points at is live. -/
theorem infoRefcnt_exact (calls : List NhCall) :
    (∀ i, i < MAX_NEXTHOP_INFO_SIZE → ((nhAfter calls).infoPool i).refcnt
        = ((live (nhAfter calls)).filter fun p => (nhAfter calls).info p = i).card)
      ∧ (∀ p ∈ live (nhAfter calls), 0 ≤ (nhAfter calls).info p →
          (nhAfter calls).info p < MAX_NEXTHOP_INFO_SIZE
            ∧ 0 < ((nhAfter calls).infoPool ((nhAfter calls).info p).toNat).refcnt)
      ∧ ∀ i, i < MAX_NEXTHOP_INFO_SIZE → 0 ≤ ((nhAfter calls).infoPool i).refcnt := by
  have hgood := nhGood_nhAfter calls
  refine ⟨hgood.info.count, fun p hp hnonneg => ⟨(hgood.info.bound p).2, ?_⟩,
    fun i hi => hgood.info.refcnt_nonneg hi⟩
  exact hgood.info.positive hp (Int.toNat_of_nonneg hnonneg).symm

end SdPlane
