import SdPlane.NexthopUndo

/-!
# What a group stands for

A route by content names its gateways, and `nexthop_add_entry` answers with a slot. `legacyMatch`
reads the slot back: its members have the gateways of the entry. That holds of every slot that is
handed out (`addEntry_matches`), whether the group was there or is new, and with groups of their own
made for the members on the way. And it stays so: whatever is added later (`legacyMatch_add`), and
whatever other group is freed (`legacyMatch_freeGroup`).
-/

set_option autoImplicit false

namespace SdPlane

/-- An entry that names its gateways, and no kernel ids. -/
structure ByContent (nh : InternalMsgNhEntry) : Prop where
  kernelNhId : nh.kernelNhId = 0
  nhcnt : 1 ≤ nh.nhcnt
  members : ∀ i < nh.nhcnt, (nh.members i).kernelNhId = 0

/-! ## Members that are there -/

section Kept

variable {K H : Finset Place} {s₀ s : NhState}

/-- A member that is followed has the gateway that it had. -/
theorem InfoExact.memberMatch_eq (h : InfoExact K s₀ H s) {p : Place} (hp : p ∈ K) (b : NhInfo) :
    memberMatch s (s.info p) b = memberMatch s₀ (s₀.info p) b := by
  have hinfo : s.info p = s₀.info p := by rw [NhState.info, NhState.info, h.member p hp]
  rw [hinfo, memberMatch, memberMatch]
  by_cases hnonneg : 0 ≤ s₀.info p
  · have hcontent := h.content p hp _ (Int.toNat_of_nonneg hnonneg).symm
    rw [Quiet.same_of_content hcontent]
  · simp [hnonneg]

/-- So a group all of whose members are followed has the content that it had. -/
theorem InfoExact.legacyMatch_eq (h : InfoExact K s₀ H s) {g : Nat} (hK : ∀ i < s₀.cnt g, ⟨g, i⟩ ∈ K)
    (hcnt : s.cnt g = s₀.cnt g) (hkernel : s.kernel g = s₀.kernel g) (e : InternalMsgNhEntry) :
    legacyMatch s e (s.groups g) = legacyMatch s₀ e (s₀.groups g) := by
  rw [Bool.eq_iff_iff, legacyMatch_iff, legacyMatch_iff, hcnt, hkernel]
  refine and_congr_right fun _ => and_congr_right fun _ => and_congr_right fun hn =>
    forall₂_congr fun i hi => ?_
  rw [h.memberMatch_eq (hK i (hn ▸ hi))]

end Kept

section Keep

variable {malloc : Bool} {s t : NhState} {nh e : InternalMsgNhEntry} {g slot : Nat}

/-- A group keeps its content while entries are added. -/
theorem legacyMatch_add (hgood : NhGood s) (hg : g < MAX_NEXTHOP_GRP_SIZE)
    (h : legacyMatch s e (s.groups g) = true) :
    legacyMatch (nexthopAddEntry malloc s nh).1 e ((nexthopAddEntry malloc s nh).1.groups g)
      = true := by
  have hbusy : s.cnt g ≠ 0 := (legacyMatch_iff.mp h).1
  obtain ⟨hexact, -⟩ := infoExact_nexthopAddEntry (K := live s) malloc nh hgood.info hgood.top
    (Finset.Subset.refl _)
  have hhead : HeadKept s (nexthopAddEntry malloc s nh).1 g := by
    have hheads := nexthopAddEntry_heads malloc s nh hgood.top
    generalize (nexthopAddEntry malloc s nh).1 = t, (nexthopAddEntry malloc s nh).2 = r at hheads
    cases hheads with
    | kept _ _ hheads => exact hheads g
    | indexed slot _ hdone _ _ hheads =>
      -- the slot that got the new group was free
      obtain ⟨-, hslot, -⟩ := hdone
      refine hheads g fun heq => hbusy ?_
      rw [heq]
      exact (findSlot_some hslot hgood.top).2
  obtain ⟨hcnt, hkernel⟩ := hhead.resolve_right fun hfree => hbusy hfree.1
  rw [hexact.legacyMatch_eq (fun i hi => mem_places.mpr ⟨hg, hi⟩) hcnt hkernel]
  exact h

/-- And while others are freed. -/
theorem legacyMatch_freeGroup (hgood : NhGood s) (hslot : slot < MAX_NEXTHOP_GRP_SIZE)
    (hg : g < MAX_NEXTHOP_GRP_SIZE) (hne : g ≠ slot) (h : legacyMatch s e (s.groups g) = true) :
    legacyMatch (freeGroup s slot) e ((freeGroup s slot).groups g) = true := by
  have hexact := infoExact_freeGroup (K := (live s).filter fun p => p.1 ≠ slot)
    (hgood.info.restart (Finset.filter_subset _ _)) hslot fun p hp => (Finset.mem_filter.mp hp).2
  have hcnt : (freeGroup s slot).cnt g = s.cnt g := by
    rw [cnt_freeGroup, Function.update_of_ne hne]
  have hkernel : (freeGroup s slot).kernel g = s.kernel g := by
    rw [kernel_freeGroup, if_neg hne]
  rw [hexact.legacyMatch_eq (fun i hi => ?_) hcnt hkernel]
  · exact h
  · exact Finset.mem_filter.mpr ⟨mem_places.mpr ⟨hg, hi⟩, hne⟩

/-- A reference does not change what a group stands for. -/
theorem legacyMatch_addRef (s : NhState) (slot : Nat) (d : Int) (e : InternalMsgNhEntry) (g : Nat) :
    legacyMatch (s.addRef slot d) e ((s.addRef slot d).groups g) = legacyMatch s e (s.groups g) := by
  rw [Bool.eq_iff_iff, legacyMatch_iff, legacyMatch_iff, NhState.cnt_addRef, NhState.kernel_addRef]
  simp only [NhState.info, NhState.member_addRef]
  rfl

end Keep

/-! ## Members that are new -/

section New

variable {malloc : Bool} {s t u : NhState} {nh : InternalMsgNhEntry} {slot i : Nat}

/-- What a gateway of its own gives a member. -/
theorem memberMatch_alloc {idx w : Nat} {x : NhInfo} (h : infoAlloc t x = some (idx, u)) :
    memberMatch (u.setMember slot i ⟨-1, idx, w⟩)
      ((u.setMember slot i ⟨-1, idx, w⟩).info ⟨slot, i⟩) x = true := by
  have hinfo : (u.setMember slot i ⟨-1, idx, w⟩).info ⟨slot, i⟩ = idx := by
    rw [NhState.info, NhState.member_setMember, if_pos rfl]
  have hsame : (u.infoPool idx).same x = true := by
    obtain ⟨-, ⟨hfind, rfl⟩ | ⟨-, -, rfl⟩⟩ := infoAlloc_cases h
    · rw [NhState.infoPool_holdInfo, if_pos rfl]
      exact (infoFind_some hfind).2.2
    · show ((t.setInfo idx { x with refcnt := 1 }).infoPool idx).same x = true
      rw [NhState.infoPool_setInfo, if_pos rfl]
      simp [NhInfo.same]
  rw [hinfo, memberMatch, Int.toNat_natCast, NhState.infoPool_setMember, hsame]
  simp

/-- What a group gives a member that shares its gateway. -/
theorem memberMatch_share {refSlot w : Nat} {x : NhInfo}
    (h : memberMatch t (t.info ⟨refSlot, 0⟩) x = true) :
    memberMatch (shareMember t slot i refSlot w)
      ((shareMember t slot i refSlot w).info ⟨slot, i⟩) x = true := by
  have hinfo : (shareMember t slot i refSlot w).info ⟨slot, i⟩ = t.info ⟨refSlot, 0⟩ := by
    rw [NhState.info, member_shareMember, if_pos rfl]
  rw [hinfo, memberMatch, infoPool_shareMember]
  split
  · exact h
  · exact h

/-- The group of its own that a member is given has its gateway. -/
theorem memberMatch_standalone {m : InternalMsgNhMember} (hm : m.kernelNhId = 0) {g : Nat}
    (h : addStandalone malloc t (standaloneEntry m) = (u, some g)) :
    memberMatch u (u.info ⟨g, 0⟩) m.info = true := by
  have hres := addEntryWith_result (fun s _ => (s, none)) malloc t (standaloneEntry m)
  rw [show addEntryWith _ malloc t (standaloneEntry m) = (u, some g) from h] at hres
  cases hres with
  | reused g hex =>
    rw [findExisting_standalone] at hex
    exact (legacyMatch_iff.mp (legacyFind_some hex).2).2.2.2 0 Nat.one_pos
  | legacy _ g hslot v hpop _ =>
    have hround := @populate_standalone m g (reserve t g (standaloneEntry m))
    rw [hpop] at hround
    cases hround with
    | unresolved hid => exact absurd hm hid
    | resolved hid => exact absurd hm hid
    | standalone _ hmulti => exact absurd hmulti.1 (Nat.lt_irrefl 1)
    | inline _ _ idx w halloc => exact memberMatch_alloc halloc
  | indexed _ _ _ _ _ hid => exact absurd rfl hid

/-- The members of a half-built group that are there have the gateways of the entry. -/
structure Matching (s : NhState) (nh : InternalMsgNhEntry) (slot i : Nat) (t : NhState)
    (built : Built) : Prop where
  filling : Filling s nh slot (fun built t => InfoExact ∅ s (places built) t) s.cnt i t built
  matched : ∀ j < i, memberMatch t (t.info ⟨slot, j⟩) (nh.members j).info = true

/-- The members of a slot that are there. -/
def slotPlaces (slot i : Nat) : Finset Place := (Finset.range i).image fun j => ⟨slot, j⟩

theorem mem_slotPlaces {slot i : Nat} {p : Place} : p ∈ slotPlaces slot i ↔ p.1 = slot ∧ p.2 < i := by
  obtain ⟨g, j⟩ := p
  simp only [slotPlaces, Finset.mem_image, Finset.mem_range, Sigma.mk.injEq, heq_eq_eq]
  constructor
  · rintro ⟨k, hk, rfl, rfl⟩
    exact ⟨rfl, hk⟩
  · rintro ⟨rfl, hj⟩
    exact ⟨j, hj, rfl, rfl⟩

/-- One round: the members that are there are followed, and one more is compared. -/
theorem Matching.round {built : Built} (h : Matching s nh slot i t built) (hgood : NhGood s)
    (hnh : ByContent nh) (hslot : findSlot s = some slot) (hi : i < nh.nhcnt)
    (hround : populateMember (addStandalone malloc) nh slot i t = .ok u) :
    ∃ built', Matching s nh slot (i + 1) u built' := by
  obtain ⟨hlt, hz⟩ := findSlot_some hslot hgood.top
  obtain ⟨built', hfilling⟩ := ((poolInv_infoExact (by simp)).round (fun _ hg => hg) hgood.top hslot
    h.filling hi fun _ _ _ _ _ => trivial).1 u hround
  refine ⟨built', hfilling, ?_⟩
  have hbuilt : built slot = i := h.filling.here
  -- from here on the members of the slot are followed
  have hfollow : InfoExact (slotPlaces slot i) t (places built) t := h.filling.inv.restart fun p hp => by
    obtain ⟨hp₁, hp₂⟩ := mem_slotPlaces.mp hp
    exact mem_places.mpr ⟨hp₁ ▸ hlt, by rw [hp₁, hbuilt]; exact hp₂⟩
  have hcntslot : t.cnt slot ≠ 0 := by
    rw [h.filling.cnt]
    omega
  have hold : ∀ {H : Finset Place} {v : NhState}, InfoExact (slotPlaces slot i) t H v →
      ∀ j < i, memberMatch v (v.info ⟨slot, j⟩) (nh.members j).info = true := by
    intro H v hv j hj
    rw [hv.memberMatch_eq (mem_slotPlaces.mpr ⟨rfl, hj⟩)]
    exact h.matched j hj
  have hnext : memberMatch u (u.info ⟨slot, i⟩) (nh.members i).info = true →
      (∀ j < i, memberMatch u (u.info ⟨slot, j⟩) (nh.members j).info = true) →
      ∀ j < i + 1, memberMatch u (u.info ⟨slot, j⟩) (nh.members j).info = true := by
    intro hnew hold j hj
    rcases Nat.lt_succ_iff_lt_or_eq.mp hj with hj | rfl
    · exact hold j hj
    · exact hnew
  have hr := populateMember_round (addStandalone malloc) nh slot i t
  rw [hround] at hr
  cases hr with
  | unresolved hid => exact absurd (hnh.members i hi) hid
  | resolved hid => exact absurd (hnh.members i hi) hid
  | standalone hid hmulti v refSlot hself =>
    refine hnext (memberMatch_share (memberMatch_standalone hid hself)) ?_
    have hfree : ∀ g, t.cnt g = 0 → built g = 0 := by
      intro g hg
      obtain ⟨hne, hg₀⟩ := h.filling.freer hi hg
      rcases h.filling.others g hne with ⟨-, -, hb⟩ | ⟨-, -, hb⟩
      · rw [hb, hg₀]
      · rw [hb, hg]
    have hpool : PoolInv malloc t nh (fun _ => True) (fun _ => True)
        fun built s => InfoExact (slotPlaces slot i) t (places built) s :=
      poolInv_infoExact fun p hp => by rwa [(mem_slotPlaces.mp hp).1]
    obtain ⟨built'', hinv, -, -, hslots, -⟩ :=
      hpool.addStandalone hfollow hfree (fun _ hg => hg) h.filling.top hmulti hid
        (fun _ _ _ => trivial) hself
    have hbuilt'' : built'' slot = i := by
      rw [((hslots slot).busy hcntslot).2.2, hbuilt]
    have hshare := hinv.share hlt refSlot (nh.members i).weight
    rw [hbuilt''] at hshare
    exact hold hshare
  | inline hid hown idx v halloc =>
    refine hnext (memberMatch_alloc halloc) ?_
    have halloc' := hfollow.alloc (w := (nh.members i).weight) hlt halloc
    rw [hbuilt] at halloc'
    exact hold halloc'

/-- All rounds. -/
theorem Matching.populate (hgood : NhGood s) (hnh : ByContent nh) (hslot : findSlot s = some slot)
    (h : populate (addStandalone malloc) nh slot (reserve s slot nh) = .ok t) :
    ∃ built, Matching s nh slot nh.nhcnt t built := by
  obtain ⟨hlt, hz⟩ := findSlot_some hslot hgood.top
  have hstart : Matching s nh slot 0 (reserve s slot nh) s.cnt :=
    ⟨.start (hgood.info.reserve slot nh) (fun _ hg => hg) hgood.top hz, fun j hj => absurd hj (by simp)⟩
  refine (Lib.forRange_rule (fun i t => ∃ built, Matching s nh slot i t built) (fun _ => True)
    ⟨_, hstart⟩ ?_).1 t h
  rintro i t hi ⟨built, ht⟩
  exact ⟨fun u hround => ht.round hgood hnh hslot hi hround, fun _ _ => trivial⟩

/-- **A slot that is handed out has the gateways of the entry.** -/
theorem addEntry_matches (hgood : NhGood s) (hnh : ByContent nh) {g : Nat}
    (hadd : nexthopAddEntry malloc s nh = (t, some g)) : legacyMatch t nh (t.groups g) = true := by
  have hres := addEntryWith_result (addStandalone malloc) malloc s nh
  rw [show addEntryWith (addStandalone malloc) malloc s nh = (t, some g) from hadd] at hres
  cases hres with
  | reused g hex =>
    rw [findExisting, if_neg (not_not.mpr hnh.kernelNhId)] at hex
    exact (legacyFind_some hex).2
  | legacy _ g hslot v hpop _ =>
    obtain ⟨built, hmatching⟩ := Matching.populate hgood hnh hslot hpop
    have hcnt : v.cnt g = nh.nhcnt := hmatching.filling.cnt
    have hkernel : v.kernel g = 0 := hmatching.filling.kernel.trans hnh.kernelNhId
    have hpos := hnh.nhcnt
    exact legacyMatch_iff.mpr ⟨by show v.cnt g ≠ 0; omega, hkernel, hcnt, hmatching.matched⟩
  | indexed _ _ _ _ _ hid => exact absurd hnh.kernelNhId hid

end New

end SdPlane
