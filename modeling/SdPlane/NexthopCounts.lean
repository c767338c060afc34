import SdPlane.NexthopAtomic

/-!
# The reference counts after an entry has been refused (`nexthop.c`)

`SameLive` compares the groups in use. The other slots have reference counts, too: a group that is
freed may still be named by routes and members, and its kernel id still leads to it. An entry that
is given up clears the slot that it was to have, with the count. In an entry with several members
and no kernel id, the group of the member that fails has had a slot of its own, which is cleared as
well. In all other entries the references of the members before are left, to whatever slots.

`CountsBack` says when the counts of all slots are what they were (`refcnt_back_iff`).
-/

set_option autoImplicit false

namespace SdPlane

/-- The number of members before member `i` that are going to refer to slot `g`. -/
def sharers (s : NhState) (nh : InternalMsgNhEntry) (i g : Nat) : Nat :=
  (List.range i).countP fun j => sharedGroup s nh j = some g

/-- Giving up at member `i` leaves all counts as they were: those of the slots that are cleared were
    zero, and the references of members go to no other slot if they are not given back. -/
def CountsBack (s : NhState) (nh : InternalMsgNhEntry) (i : Nat) : Prop :=
  ∀ slot, findSlot s = some slot → s.refcnt slot = 0
    ∧ (Multipath nh → ∀ g, findSlot (reserve s slot nh) = some g →
      s.refcnt g + sharers s nh i g = 0)
    ∧ (¬Multipath nh → ∀ j < i, ∀ g, sharedGroup s nh j = some g → g = slot)

section

variable {malloc : Bool} {s t u : NhState} {nh : InternalMsgNhEntry} {slot i g : Nat}

theorem sharers_succ : sharers s nh (i + 1) g
    = sharers s nh i g + if sharedGroup s nh i = some g then 1 else 0 := by
  rw [sharers, List.range_succ, List.countP_append, List.countP_singleton]
  simp only [decide_eq_true_eq]
  rfl

theorem sharers_eq_zero : sharers s nh i g = 0 ↔ ∀ j < i, sharedGroup s nh j ≠ some g := by
  simp [sharers, List.countP_eq_zero]

theorem sharedGroup_lt (hgood : NhGood s) {j : Nat} (h : sharedGroup s nh j = some g) :
    g < MAX_NEXTHOP_GRP_SIZE := by
  rw [sharedGroup] at h
  split at h
  · exact hgood.slots _ _ (nexthopGetIndexByNhid_eq_some.mp h).2.2
  · split at h
    · exact (legacyFind_some h).1
    · cases h

theorem findSlot_congr (hcnt : ∀ g, t.cnt g = s.cnt g) (htop : t.groupsTop = s.groupsTop) :
    findSlot t = findSlot s := by
  have hgroups : ∀ g, (t.groups g).nhcnt = (s.groups g).nhcnt := hcnt
  simp only [findSlot, findNextFreeGroupSlot, htop, hgroups]

/-! ## While members are filled in -/

/-- The members before member `i` are there, and are all that has changed the counts. -/
structure Counted (s : NhState) (nh : InternalMsgNhEntry) (slot i : Nat) (t : NhState) : Prop where
  ref : ∀ j < i, ∀ g : Nat, t.ref ⟨slot, j⟩ = g ↔ sharedGroup s nh j = some g
  refcnt : ∀ g, t.refcnt g = (if g = slot then 0 else s.refcnt g) + sharers s nh i g
  top : t.groupsTop = s.groupsTop

namespace Counted

theorem start : Counted s nh slot 0 (reserve s slot nh) :=
  ⟨fun j hj => absurd hj (Nat.not_lt_zero j), fun g => by rw [refcnt_reserve]; simp [sharers], rfl⟩

/-- One more member. -/
theorem next (h : Counted s nh slot i t) {m : NhMember}
    (hmem : ∀ p, u.member p = if p = ⟨slot, i⟩ then m else t.member p)
    (href : ∀ g : Nat, m.refSdplaneNhId = g ↔ sharedGroup s nh i = some g)
    (hrefcnt : ∀ g, u.refcnt g = t.refcnt g + if sharedGroup s nh i = some g then 1 else 0)
    (htop : u.groupsTop = t.groupsTop) : Counted s nh slot (i + 1) u := by
  refine ⟨fun j hj g => ?_, fun g => ?_, htop.trans h.top⟩
  · rw [NhState.ref, hmem]
    by_cases hji : j = i
    · subst hji
      rw [if_pos rfl]
      exact href g
    · rw [if_neg (by simp [hji])]
      exact h.ref j (by omega) g
  · rw [hrefcnt, h.refcnt, sharers_succ]
    push_cast
    exact Int.add_assoc ..

/-- A member that refers to no group. -/
theorem own (h : Counted s nh slot i t) (hshared : sharedGroup s nh i = none) (idx : Int) (w : Nat)
    (hmem : ∀ p, u.member p = if p = ⟨slot, i⟩ then ⟨-1, idx, w⟩ else t.member p)
    (hrefcnt : ∀ g, u.refcnt g = t.refcnt g) (htop : u.groupsTop = t.groupsTop) :
    Counted s nh slot (i + 1) u := by
  refine h.next hmem (fun g => iff_of_false (fun heq => ?_) (by simp [hshared])) (fun g => ?_) htop
  · have hneg : (-1 : Int) = g := heq
    omega
  · rw [hrefcnt, hshared]
    simp

theorem round (h : Counted s nh slot i t) (hround : QuietRound s nh slot i t u) :
    Counted s nh slot (i + 1) u := by
  cases hround with
  | unresolved _ hshared =>
    exact h.own hshared _ _ (fun _ => NhState.member_setMember ..)
      (fun _ => NhState.refcnt_setMember ..) rfl
  | shared refSlot hshared =>
    refine h.next (m := ⟨refSlot, t.info ⟨refSlot, 0⟩, (nh.members i).weight⟩)
      (fun _ => member_shareMember ..) (fun g => ?_) (fun g => ?_) (groupsTop_shareMember ..)
    · simp [hshared]
    · rw [refcnt_shareMember, hshared]
      simp only [Option.some.injEq, eq_comm]
  | own _ _ hshared idx v halloc =>
    refine h.own hshared idx (nh.members i).weight (fun p => ?_) (fun g => ?_)
      (rest_infoAlloc halloc).2
    · rw [NhState.member_setMember, member_infoAlloc halloc]
    · rw [NhState.refcnt_setMember, refcnt_infoAlloc halloc]

theorem of_filled (hgood : NhGood s) (hslot : slot < MAX_NEXTHOP_GRP_SIZE) (hfree : s.cnt slot = 0)
    (hfilled : filled malloc s nh slot i = .ok t)
    (hreused : ∀ j < i, Multipath nh → (nh.members j).kernelNhId = 0 →
      sharedGroup s nh j ≠ none) : Counted s nh slot i t := by
  induction i generalizing t with
  | zero =>
    obtain rfl := Except.ok.inj hfilled
    exact .start
  | succ i ih =>
    obtain ⟨t', ht', hround⟩ := filled_prev hfilled
    have hbefore := fun j (hj : j < i) => hreused j (Nat.lt_succ_of_lt hj)
    have hquiet := Quiet.of_filled hgood hslot hfree ht' hbefore
    exact (ih ht' hbefore).round (hquiet.round_cases (hreused i (Nat.lt_succ_self i)) hround)

end Counted

/-! ## The roll-backs -/

theorem refcnt_releaseMembers (s : NhState) (slot n g : Nat) :
    (releaseMembers s slot n).refcnt g
      = s.refcnt g - ((List.range n).countP fun j => s.ref ⟨slot, j⟩ = g : Nat) := by
  have hboth : (∀ p, (releaseMembers s slot n).member p = s.member p)
      ∧ (releaseMembers s slot n).refcnt g
        = s.refcnt g - ((List.range n).countP fun j => s.ref ⟨slot, j⟩ = g : Nat) := by
    refine Lib.forUpTo_rule (fun j (t : NhState) => (∀ p, t.member p = s.member p)
      ∧ t.refcnt g = s.refcnt g - ((List.range j).countP fun j => s.ref ⟨slot, j⟩ = g : Nat))
      ⟨fun _ => rfl, by simp⟩ ?_
    rintro j t _ ⟨hmem, hrefcnt⟩
    refine ⟨fun p => (member_releaseMember ..).trans (hmem p), ?_⟩
    have href : t.ref ⟨slot, j⟩ = s.ref ⟨slot, j⟩ := by rw [NhState.ref, NhState.ref, hmem]
    rw [refcnt_releaseMember, hrefcnt, href, List.range_succ, List.countP_append,
      List.countP_singleton]
    simp only [decide_eq_true_eq]
    split <;> push_cast <;> omega
  exact hboth.2

/-- The references of the members are given back. -/
theorem Counted.releaseMembers (h : Counted s nh slot i t) {u : NhState}
    (hmem : ∀ j, u.member ⟨slot, j⟩ = t.member ⟨slot, j⟩) (g : Nat) :
    (releaseMembers u slot i).refcnt g = u.refcnt g - sharers s nh i g := by
  rw [refcnt_releaseMembers, sharers]
  congr 2
  refine List.countP_congr fun j hj => ?_
  rw [decide_eq_true_eq, decide_eq_true_eq, ← h.ref j (List.mem_range.mp hj) g, NhState.ref, hmem,
    NhState.ref]

theorem countsBack_iff (hslot : findSlot s = some slot) : CountsBack s nh i ↔ s.refcnt slot = 0
    ∧ (Multipath nh → ∀ g, findSlot (reserve s slot nh) = some g →
      s.refcnt g + sharers s nh i g = 0)
    ∧ (¬Multipath nh → ∀ j < i, ∀ g, sharedGroup s nh j = some g → g = slot) := by
  constructor
  · intro h
    exact h slot hslot
  · intro h slot' hslot'
    obtain rfl := Option.some.inj (hslot.symm.trans hslot')
    exact h

theorem countsBack_multipath_iff (hslot : findSlot s = some slot) (hmulti : Multipath nh) :
    CountsBack s nh i ↔ s.refcnt slot = 0
      ∧ ∀ g, findSlot (reserve s slot nh) = some g → s.refcnt g + sharers s nh i g = 0 := by
  rw [countsBack_iff hslot]
  exact and_congr_right fun _ =>
    ⟨fun h => h.1 hmulti, fun h => ⟨fun _ => h, fun hown => absurd hmulti hown⟩⟩

theorem countsBack_own_iff (hslot : findSlot s = some slot) (hown : ¬Multipath nh) :
    CountsBack s nh i ↔ s.refcnt slot = 0
      ∧ ∀ j < i, ∀ g, sharedGroup s nh j = some g → g = slot := by
  rw [countsBack_iff hslot]
  exact and_congr_right fun _ =>
    ⟨fun h => h.2 hown, fun h => ⟨fun hmulti => absurd hmulti hown, fun _ => h⟩⟩

/-- After the roll-back that gives up gateways alone. -/
theorem Counted.releaseInfos_iff (h : Counted s nh slot i t) (hgood : NhGood s)
    (hlt : slot < MAX_NEXTHOP_GRP_SIZE) :
    (∀ g < MAX_NEXTHOP_GRP_SIZE,
      ((releaseInfos t slot i).clearGroup slot).refcnt g = s.refcnt g)
      ↔ s.refcnt slot = 0 ∧ ∀ j < i, ∀ g, sharedGroup s nh j = some g → g = slot := by
  have hrefcnt : ∀ g, ((releaseInfos t slot i).clearGroup slot).refcnt g
      = if g = slot then 0 else s.refcnt g + sharers s nh i g := by
    intro g
    rw [NhState.refcnt_clearGroup, (headsKept_releaseInfos t slot i).2, h.refcnt]
    split
    · rfl
    · rfl
  constructor
  · intro hback
    refine ⟨?_, fun j hj g hshared => ?_⟩
    · rw [← hback slot hlt, hrefcnt, if_pos rfl]
    · by_contra hne
      have hsame := hback g (sharedGroup_lt hgood hshared)
      rw [hrefcnt, if_neg hne] at hsame
      have hnone : sharers s nh i g = 0 := by omega
      exact sharers_eq_zero.mp hnone j hj hshared
  · rintro ⟨hzero, hown⟩ g -
    rw [hrefcnt]
    split
    · next heq => rw [heq, hzero]
    · next hne =>
      rw [sharers_eq_zero.mpr fun j hj hshared => hne (hown j hj g hshared)]
      exact Int.add_zero _

/-- After the roll-back that gives up the references as well, slot `a` having been tried for
    member `i`. -/
theorem Counted.releaseMembers_iff (h : Counted s nh slot i t) (hlt : slot < MAX_NEXTHOP_GRP_SIZE)
    {a : Option Nat} (ha : ∀ g ∈ a, g ≠ slot ∧ g < MAX_NEXTHOP_GRP_SIZE)
    (hmem : ∀ j, u.member ⟨slot, j⟩ = t.member ⟨slot, j⟩)
    (hrefcnt : ∀ g, u.refcnt g = if g ∈ a then 0 else t.refcnt g) :
    (∀ g < MAX_NEXTHOP_GRP_SIZE,
      ((SdPlane.releaseMembers u slot i).clearGroup slot).refcnt g = s.refcnt g)
      ↔ s.refcnt slot = 0 ∧ ∀ g, a = some g → s.refcnt g + sharers s nh i g = 0 := by
  have hleft : ∀ g, ((SdPlane.releaseMembers u slot i).clearGroup slot).refcnt g
      = if g = slot then 0 else if g ∈ a then -(sharers s nh i g : Int) else s.refcnt g := by
    intro g
    rw [NhState.refcnt_clearGroup, h.releaseMembers hmem, hrefcnt, h.refcnt]
    split
    · rfl
    · split <;> omega
  constructor
  · intro hback
    refine ⟨?_, fun g hg => ?_⟩
    · rw [← hback slot hlt, hleft, if_pos rfl]
    · obtain ⟨hne, hgmax⟩ := ha g hg
      have hsame := hback g hgmax
      rw [hleft, if_neg hne, if_pos (show g ∈ a from hg)] at hsame
      omega
  · rintro ⟨hzero, htried⟩ g -
    rw [hleft]
    split
    · next heq => rw [heq, hzero]
    · split
      · next hg =>
        have hsum := htried g hg
        omega
      · rfl

/-- The group of a member is refused: the slot that was tried is the first one that is left when
    `slot` is taken. -/
theorem Counted.noStandalone_iff (h : Counted s nh slot i t) (hquiet : Quiet s nh slot i t)
    (hlt : slot < MAX_NEXTHOP_GRP_SIZE) (hmulti : Multipath nh) {m : InternalMsgNhMember}
    (hself : addStandalone malloc t (standaloneEntry m) = (u, none)) :
    (∀ g < MAX_NEXTHOP_GRP_SIZE,
      ((SdPlane.releaseMembers u slot i).clearGroup slot).refcnt g = s.refcnt g)
      ↔ s.refcnt slot = 0
        ∧ ∀ g, findSlot (reserve s slot nh) = some g → s.refcnt g + sharers s nh i g = 0 := by
  have htried : findSlot t = findSlot (reserve s slot nh) :=
    findSlot_congr (fun g => by rw [hquiet.cnt, cnt_reserve]) h.top
  rw [← htried]
  refine h.releaseMembers_iff hlt (fun g hg => ?_) (fun j => ?_) fun g => ?_
  · obtain ⟨hgmax, hzero⟩ := findSlot_some hg hquiet.top
    exact ⟨(hquiet.freer hmulti.1 hzero).1, hgmax⟩
  · rcases addStandalone_failed hself with ⟨-, rfl⟩ | ⟨a, ha, rfl⟩
    · rfl
    · have hne := (hquiet.freer hmulti.1 (findSlot_some ha hquiet.top).2).1
      rw [NhState.member_clearGroup, if_neg (Ne.symm hne), member_reserve]
  · rcases addStandalone_failed hself with ⟨hnone, rfl⟩ | ⟨a, ha, rfl⟩
    · simp [hnone]
    · rw [NhState.refcnt_clearGroup, refcnt_reserve, ha]
      simp only [Option.mem_some_iff, eq_comm]
      split <;> rfl

/-- **What an entry that is given up leaves of the counts.** -/
theorem refcnt_back_iff (hgood : NhGood s) (h : GivesUp malloc s nh i)
    (hharmless : ∀ j < i, Harmless s nh j) :
    (∀ g < MAX_NEXTHOP_GRP_SIZE, (nexthopAddEntry malloc s nh).1.refcnt g = s.refcnt g)
      ↔ CountsBack s nh i := by
  cases h with
  | member hnew slot hslot t hfilled hi u hround =>
    obtain ⟨hlt, hfree⟩ := findSlot_some hslot hgood.top
    have hreused : ∀ j < i, Multipath nh → (nh.members j).kernelNhId = 0 →
        sharedGroup s nh j ≠ none := by
      intro j hj hmulti hown
      have hj' := hharmless j hj
      rw [Harmless, if_pos hmulti] at hj'
      exact hj' hown
    have hcounted := Counted.of_filled hgood hlt hfree hfilled hreused
    rw [addEntry_of_error hnew hslot hfilled hi hround]
    have hr := populateMember_round (addStandalone malloc) nh slot i t
    rw [hround] at hr
    cases hr with
    | noStandalone hid hmulti v hself =>
      have hquiet := Quiet.of_filled hgood hlt hfree hfilled hreused
      rw [hcounted.noStandalone_iff hquiet hlt hmulti hself, countsBack_multipath_iff hslot hmulti]
    | poolFull hid hown hnone =>
      rw [hcounted.releaseInfos_iff hgood hlt, countsBack_own_iff hslot hown]
  | hash hnew slot hslot t hfilled hi hid hins =>
    obtain ⟨hlt, hfree⟩ := findSlot_some hslot hgood.top
    have hown : ¬Multipath nh := fun hmulti => hid hmulti.2
    subst hi
    have hcounted := Counted.of_filled hgood hlt hfree hfilled fun _ _ hmulti => absurd hmulti hown
    -- the hint is not a count
    have hrefcnt : ∀ g, ((SdPlane.releaseInfos (updateHint t slot) slot nh.nhcnt).clearGroup
        slot).refcnt g = ((SdPlane.releaseInfos t slot nh.nhcnt).clearGroup slot).refcnt g := by
      intro g
      rw [NhState.refcnt_clearGroup, NhState.refcnt_clearGroup, (headsKept_releaseInfos ..).2,
        (headsKept_releaseInfos ..).2]
      rfl
    rw [addEntry_of_hash hnew hslot hfilled hid hins, countsBack_own_iff hslot hown]
    simp only [hrefcnt]
    exact hcounted.releaseInfos_iff hgood hlt

end

end SdPlane
