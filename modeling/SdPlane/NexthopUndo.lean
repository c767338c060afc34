import SdPlane.NexthopAtomic

/-!
# Giving a next hop back (`nexthop.c`)

A route without a kernel id gives its next hop back by content: `nexthop_del_entry` looks for a
group with the members of the entry, as `nexthop_add_entry` did. So it finds the group that the
route was given, and frees it, whether other routes use it or not. Nothing is left of a group that
was made for the route, unless

* members were given groups of their own on the way: these stay;
* a member has a kernel id, and the gateway that it was given is not the one of the entry. Then
  the group is not found.

`Undoable` is when adding and deleting cancel (`group_undone_iff`).
-/

set_option autoImplicit false

namespace SdPlane

/-! ## When they cancel -/

/-- The gateway that a reference to a group brings along is that of its first member. -/
def firstGateway (s : NhState) : Option Nat → Int
  | none => -1
  | some g => s.info ⟨g, 0⟩

/-- The gateway that member `j` of a new group is given, where it refers to a group. If that is the
    slot of the new group itself, its first member is there by then. -/
def recordedGateway (s : NhState) (nh : InternalMsgNhEntry) (j : Nat) : Int :=
  firstGateway s (sharedGroup s nh (if sharedGroup s nh j = findSlot s then 0 else j))

/-- The member is found again by its content, and no group is made for it. -/
def Recoverable (s : NhState) (nh : InternalMsgNhEntry) (j : Nat) : Prop :=
  if (nh.members j).kernelNhId ≠ 0 then
    memberMatch s (recordedGateway s nh j) (nh.members j).info = true
  else nh.nhcnt > 1 → sharedGroup s nh j ≠ none

/-- The group is made, and nothing else is. -/
def Undoable (s : NhState) (nh : InternalMsgNhEntry) : Prop :=
  findExisting s nh = none ∧ ∀ j < nh.nhcnt, Recoverable s nh j

/-! ## Members that refer to groups -/

/-- The members before member `i` have been given gateways of the groups that they refer to. -/
structure Recorded (s : NhState) (nh : InternalMsgNhEntry) (slot i : Nat) (t : NhState) : Prop where
  content : ∀ k, (t.infoPool k).content = (s.infoPool k).content
  others : ∀ g, g ≠ slot → ∀ j, t.info ⟨g, j⟩ = s.info ⟨g, j⟩
  own : ∀ j < i, t.info ⟨slot, j⟩ = recordedGateway s nh j
  first : i = 0 → t.info ⟨slot, 0⟩ = s.info ⟨slot, 0⟩

namespace Recorded

variable {malloc : Bool} {s t u : NhState} {nh : InternalMsgNhEntry} {slot i : Nat}

theorem start : Recorded s nh slot 0 (reserve s slot nh) := by
  have hinfo : ∀ p, (reserve s slot nh).info p = s.info p := by
    intro p
    rw [NhState.info, member_reserve, NhState.info]
  exact ⟨fun _ => rfl, fun g _ j => hinfo ⟨g, j⟩, fun j hj => absurd hj (Nat.not_lt_zero j),
    fun _ => hinfo ⟨slot, 0⟩⟩

/-- One more member. -/
theorem next (h : Recorded s nh slot i t) {m : NhMember}
    (hcontent : ∀ k, (u.infoPool k).content = (t.infoPool k).content)
    (hmember : ∀ p, u.member p = if p = ⟨slot, i⟩ then m else t.member p)
    (hm : m.infoIndex = recordedGateway s nh i) : Recorded s nh slot (i + 1) u := by
  refine ⟨fun k => (hcontent k).trans (h.content k), fun g hg j => ?_, fun j hj => ?_, nofun⟩
  · have hne : (⟨g, j⟩ : Place) ≠ ⟨slot, i⟩ := by simp [hg]
    rw [NhState.info, hmember, if_neg hne]
    exact h.others g hg j
  · rw [NhState.info, hmember]
    by_cases heq : j = i
    · rw [if_pos (by rw [heq]), hm, heq]
    · have hne : (⟨slot, j⟩ : Place) ≠ ⟨slot, i⟩ := by simp [heq]
      rw [if_neg hne]
      exact h.own j (by omega)

/-- A member that refers to a group is given the gateway of that group. -/
theorem gateway (h : Recorded s nh slot i t) (hslot : findSlot s = some slot) {g : Nat}
    (hshared : sharedGroup s nh i = some g) : t.info ⟨g, 0⟩ = recordedGateway s nh i := by
  rw [recordedGateway, hshared, hslot]
  by_cases hself : g = slot
  · rw [if_pos (by rw [hself]), hself]
    cases i with
    | zero => rw [h.first rfl, hshared, hself, firstGateway]
    | succ i =>
      rw [h.own 0 (Nat.succ_pos i), recordedGateway, ite_self]
  · rw [if_neg fun heq => hself (Option.some.inj heq), hshared, firstGateway, h.others g hself]

theorem share (h : Recorded s nh slot i t) (hslot : findSlot s = some slot) {g : Nat}
    (hshared : sharedGroup s nh i = some g) (w : Nat) :
    Recorded s nh slot (i + 1) (shareMember t slot i g w) := by
  refine h.next (fun k => ?_) (fun p => member_shareMember ..) (h.gateway hslot hshared)
  rw [infoPool_shareMember]
  split
  · rfl
  · rfl

/-- A round of a member that is not given a gateway of its own. -/
theorem round (h : Recorded s nh slot i t) (hslot : findSlot s = some slot)
    (hrefers : (nh.members i).kernelNhId ≠ 0 ∨ Multipath nh)
    (hround : QuietRound s nh slot i t u) : Recorded s nh slot (i + 1) u := by
  cases hround with
  | unresolved hid hshared =>
    refine h.next (fun _ => rfl) (fun p => NhState.member_setMember ..) ?_
    rw [recordedGateway, hshared, hslot, if_neg (fun h => by cases h), hshared, firstGateway]
  | shared g hshared => exact h.share hslot hshared _
  | own hid hown => exact absurd hid (hrefers.resolve_right hown)

end Recorded

/-! ## The group is found again -/

section Found

variable {malloc : Bool} {s t : NhState} {nh : InternalMsgNhEntry} {slot i : Nat}

/-- No member makes a group be made for it. -/
theorem Recorded.of_filled (hgood : NhGood s) (hslot : findSlot s = some slot)
    (hfilled : filled malloc s nh slot i = .ok t)
    (hrefers : ∀ j < i, (nh.members j).kernelNhId ≠ 0 ∨ Multipath nh)
    (hreused : ∀ j < i, Multipath nh → (nh.members j).kernelNhId = 0 →
      sharedGroup s nh j ≠ none) : Recorded s nh slot i t := by
  obtain ⟨hlt, hfree⟩ := findSlot_some hslot hgood.top
  induction i generalizing t with
  | zero =>
    obtain rfl := Except.ok.inj hfilled
    exact .start
  | succ i ih =>
    obtain ⟨t', ht', hround⟩ := filled_prev hfilled
    have hquiet := Quiet.of_filled hgood hlt hfree ht' fun j hj => hreused j (Nat.lt_succ_of_lt hj)
    have hrecorded := ih ht' (fun j hj => hrefers j (Nat.lt_succ_of_lt hj))
      fun j hj => hreused j (Nat.lt_succ_of_lt hj)
    exact hrecorded.round hslot (hrefers i (Nat.lt_succ_self i))
      (hquiet.round_cases (hreused i (Nat.lt_succ_self i)) hround)

theorem memberMatch_congr {a b : NhState} (h : ∀ k, (a.infoPool k).content = (b.infoPool k).content)
    (idx : Int) (x : NhInfo) : memberMatch a idx x = memberMatch b idx x := by
  rw [memberMatch, memberMatch, Quiet.same_of_content (h idx.toNat)]

/-- Where a member is given the group of its content, it is given its content. -/
theorem memberMatch_shared (hmulti : Multipath nh) {j : Nat} (hid : (nh.members j).kernelNhId = 0)
    (hshared : sharedGroup s nh j ≠ none) (hslot : findSlot s = some slot) (hfree : s.cnt slot = 0) :
    memberMatch s (recordedGateway s nh j) (nh.members j).info = true := by
  obtain ⟨g, hg⟩ := Option.ne_none_iff_exists'.mp hshared
  have hfind : legacyFind MAX_NEXTHOP_GRP_SIZE s (standaloneEntry (nh.members j)) = some g := by
    rwa [sharedGroup, if_neg (not_not.mpr hid), if_pos hmulti] at hg
  obtain ⟨hbusy, -, -, hmembers⟩ := legacyMatch_iff.mp (legacyFind_some hfind).2
  have hne : g ≠ slot := by
    rintro rfl
    exact hbusy hfree
  rw [recordedGateway, hg, hslot, if_neg fun heq => hne (Option.some.inj heq), hg]
  exact hmembers 0 Nat.one_pos

/-- The only member is given the gateway of its content, and that is what is compared. -/
theorem memberMatch_inline {u : NhState} {idx w : Nat} {x : NhInfo}
    (h : infoAlloc t x = some (idx, u)) :
    memberMatch (u.setMember slot 0 ⟨-1, idx, w⟩)
      ((u.setMember slot 0 ⟨-1, idx, w⟩).info ⟨slot, 0⟩) x = true := by
  have hinfo : (u.setMember slot 0 ⟨-1, idx, w⟩).info ⟨slot, 0⟩ = idx := by
    rw [NhState.info, NhState.member_setMember, if_pos rfl]
  have hsame : (u.infoPool idx).same x = true := by
    obtain ⟨-, ⟨hfind, rfl⟩ | ⟨-, -, rfl⟩⟩ := infoAlloc_cases h
    · rw [NhState.infoPool_holdInfo, if_pos rfl]
      exact (infoFind_some hfind).2.2
    · show ((t.setInfo idx { x with refcnt := 1 }).infoPool idx).same x = true
      rw [NhState.infoPool_setInfo, if_pos rfl]
      simp [NhInfo.same]
  rw [hinfo, memberMatch, Int.toNat_natCast, NhState.infoPool_setMember, hsame]
  simp

/-- **The new group is found by the content of the entry** if its members are. -/
theorem legacyMatch_new_iff (hgood : NhGood s) (hslot : findSlot s = some slot)
    (hlegacy : nh.kernelNhId = 0) (hcnt : 1 ≤ nh.nhcnt)
    (hfilled : filled malloc s nh slot nh.nhcnt = .ok t)
    (hreused : ∀ j < nh.nhcnt, Multipath nh → (nh.members j).kernelNhId = 0 →
      sharedGroup s nh j ≠ none) :
    legacyMatch t nh (t.groups slot) = true ↔ ∀ j < nh.nhcnt, Recoverable s nh j := by
  obtain ⟨hlt, hfree⟩ := findSlot_some hslot hgood.top
  obtain ⟨_, hfill⟩ := exists_filling hgood.top hslot hfilled
  have hheads : t.cnt slot ≠ 0 ∧ t.kernel slot = 0 ∧ t.cnt slot = nh.nhcnt := by
    rw [hfill.cnt, hfill.kernel]
    exact ⟨Nat.ne_of_gt hcnt, hlegacy, rfl⟩
  have hmatch : legacyMatch t nh (t.groups slot) = true
      ↔ ∀ j < nh.nhcnt, memberMatch t (t.info ⟨slot, j⟩) (nh.members j).info = true := by
    rw [legacyMatch_iff]
    exact ⟨fun h => h.2.2.2, fun h => ⟨hheads.1, hheads.2.1, hheads.2.2, h⟩⟩
  rw [hmatch]
  by_cases hrefers : ∀ j < nh.nhcnt, (nh.members j).kernelNhId ≠ 0 ∨ Multipath nh
  · have hrecorded := Recorded.of_filled hgood hslot hfilled hrefers hreused
    refine forall₂_congr fun j hj => ?_
    rw [memberMatch_congr hrecorded.content, hrecorded.own j hj, Recoverable]
    split
    · exact Iff.rfl
    · next hid =>
      have hid : (nh.members j).kernelNhId = 0 := not_not.mp hid
      have hmulti := (hrefers j hj).resolve_left (not_not.mpr hid)
      have hshared := hreused j hj hmulti hid
      exact iff_of_true (memberMatch_shared hmulti hid hshared hslot hfree) fun _ => hshared
  · -- the only member has a gateway of its own
    push Not at hrefers
    obtain ⟨j, hj, hid, hown⟩ := hrefers
    have hone : nh.nhcnt = 1 := by
      by_contra hmore
      exact hown ⟨by omega, hlegacy⟩
    have hj : j = 0 := by omega
    subst hj
    have hround : populateMember (addStandalone malloc) nh slot 0 (reserve s slot nh) = .ok t := by
      rw [hone] at hfilled
      exact hfilled
    have hr := populateMember_round (addStandalone malloc) nh slot 0 (reserve s slot nh)
    rw [hround] at hr
    have hmember : memberMatch t (t.info ⟨slot, 0⟩) (nh.members 0).info = true := by
      cases hr with
      | unresolved hne => exact absurd hid hne
      | resolved hne => exact absurd hid hne
      | standalone _ hmulti => exact absurd hmulti hown
      | inline _ _ idx u halloc => exact memberMatch_inline halloc
    refine iff_of_true (fun k hk => ?_) fun k hk => ?_
    · obtain rfl : k = 0 := by omega
      exact hmember
    · obtain rfl : k = 0 := by omega
      rw [Recoverable, if_neg (not_not.mpr hid)]
      omega

end Found

/-! ## The group is given back -/

section Undo

variable {malloc : Bool} {s t u : NhState} {nh : InternalMsgNhEntry} {slot i : Nat}

/-- A reference to a group does not change what is found. -/
theorem delSlot_addRef (hlegacy : nh.kernelNhId = 0) (d : Int) :
    delSlot (s.addRef slot d) nh = legacyFind MAX_NEXTHOP_INFO_SIZE s nh := by
  rw [delSlot, if_neg (not_not.mpr hlegacy)]
  refine List.find?_congr fun g _ => ?_
  rw [Bool.eq_iff_iff, legacyMatch_iff, legacyMatch_iff, NhState.cnt_addRef,
    NhState.kernel_addRef]
  have hinfo : ∀ p, (s.addRef slot d).info p = s.info p := fun p => by
    rw [NhState.info, NhState.member_addRef, NhState.info]
  simp only [hinfo]
  exact Iff.rfl

theorem nexthopDelEntry_legacy (hlegacy : nh.kernelNhId = 0) {g : Nat}
    (h : delSlot s nh = some g) : nexthopDelEntry s nh = (freeGroup s g, some g) := by
  simp only [nexthopDelEntry, h, if_neg (not_not.mpr hlegacy)]

/-- If the new group is found by its content, it is found first. -/
theorem Quiet.legacyFind_slot (h : Quiet s nh slot i t) (hslot : slot < MAX_NEXTHOP_GRP_SIZE)
    (hlegacy : nh.kernelNhId = 0) (hnew : findExisting s nh = none)
    (hmatch : legacyMatch t nh (t.groups slot) = true) :
    legacyFind MAX_NEXTHOP_INFO_SIZE t nh = some slot := by
  rw [findExisting, if_neg (not_not.mpr hlegacy), legacyFind, List.find?_eq_none] at hnew
  rw [legacyFind, sizes_eq, List.find?_range_eq_some]
  refine ⟨hmatch, List.mem_range.mpr hslot, fun g hg => ?_⟩
  have hlt : g < MAX_NEXTHOP_GRP_SIZE := hg.trans hslot
  have hcnt : t.cnt g = s.cnt g := by rw [h.cnt, if_neg (Nat.ne_of_lt hg)]
  by_cases hbusy : s.cnt g = 0
  · rw [Bool.not_eq_true', Bool.eq_false_iff]
    exact fun hfound => (legacyMatch_iff.mp hfound).1 (hcnt.trans hbusy)
  · rw [h.legacyMatch_eq hlt hbusy, Bool.not_eq_true', Bool.eq_false_iff]
    exact hnew g (List.mem_range.mpr hlt)

/-- The reference of the route is one to a group that was not there. -/
theorem Quiet.addRef (h : Quiet s nh slot i t) (d : Int) : Quiet s nh slot i (t.addRef slot d) := by
  have hrefcnt : ∀ g, s.cnt g ≠ 0 → (t.addRef slot d).refcnt g = t.refcnt g := by
    intro g hg
    rw [NhState.refcnt_addRef, if_neg (h.ne hg), Int.add_zero]
  refine ⟨h.free, fun g => (NhState.cnt_addRef ..).trans (h.cnt g),
    fun g hg => (h.group g hg).trans (.addRef ..), h.nhHt, h.top, ?_, ?_,
    fun g hg => (hrefcnt g hg).trans (h.refcnt g hg)⟩
  · have hmember : ∀ p, (t.addRef slot d).member p = t.member p := fun p => NhState.member_addRef ..
    exact h.info.congr rfl (fun p _ => hmember p) fun p => by
      rw [NhState.info, hmember]
      exact h.info.bound p
  · exact h.balance.congr (fun g hg => (hrefcnt g hg)) fun p _ => NhState.member_addRef ..

/-- A reference to a free slot is none. -/
theorem SameLive.addRef (h : SameLive s t) (hfree : s.cnt slot = 0) (d : Int) :
    SameLive s (t.addRef slot d) := by
  refine ⟨fun g hg => (NhState.cnt_addRef ..).trans (h.cnt g hg), fun g hg hbusy => ?_, h.live,
    h.info⟩
  have hne : g ≠ slot := by
    rintro rfl
    exact hbusy hfree
  rw [NhState.addRef, NhState.groups_setGroup, if_neg hne, h.group g hg hbusy]

theorem Quiet.undone (h : Quiet s nh slot nh.nhcnt t) (hgood : NhGood s)
    (hslot : slot < MAX_NEXTHOP_GRP_SIZE) :
    SameLive s ((freeGroup (t.addRef slot 1) slot).addRef slot (-1)) := by
  have hheld := h.addRef 1
  have hcnt : ((t.addRef slot 1).groups slot).nhcnt = nh.nhcnt := by
    have hcnt := hheld.cnt slot
    rwa [if_pos rfl] at hcnt
  rw [freeGroup, hcnt]
  exact (hheld.sameLive_releaseMembers hgood hslot).addRef h.free _

/-- The slot that is freed is free, and the groups of other sizes are still there. -/
theorem cnt_undone (s : NhState) (slot g g' : Nat) :
    ((freeGroup (s.addRef slot 1) g).addRef g (-1)).cnt g' = if g' = g then 0 else s.cnt g' := by
  rw [NhState.cnt_addRef, cnt_freeGroup, Function.update_apply, NhState.cnt_addRef]

/-- A route that gets a group for its entry and gives it back. -/
def GivenBack (s : NhState) (nh : InternalMsgNhEntry) (u : NhState) (slot : Nat) : Prop :=
  ∃ v g, nexthopDelEntry (u.addRef slot 1) nh = (v, some g) ∧ SameLive s (v.addRef g (-1))

/-- **Everything is as it was if and only if the group is made, and nothing else is.** -/
theorem group_undone_iff (hgood : NhGood s) (hlegacy : nh.kernelNhId = 0) (hcnt : 1 ≤ nh.nhcnt)
    (hadd : nexthopAddEntry malloc s nh = (u, some slot)) :
    GivenBack s nh u slot ↔ Undoable s nh := by
  -- what is found afterwards has the members of the entry
  have hfound : ∀ v g, nexthopDelEntry (u.addRef slot 1) nh = (v, some g) →
      g < MAX_NEXTHOP_GRP_SIZE ∧ legacyMatch u nh (u.groups g) = true
        ∧ v = freeGroup (u.addRef slot 1) g := by
    intro v g hdel
    cases hfind : delSlot (u.addRef slot 1) nh with
    | none =>
      simp only [nexthopDelEntry, hfind] at hdel
      cases hdel
    | some g' =>
      rw [nexthopDelEntry_legacy hlegacy hfind] at hdel
      obtain ⟨rfl, heq⟩ := Prod.mk.inj hdel
      obtain rfl := Option.some.inj heq
      rw [delSlot_addRef hlegacy] at hfind
      obtain ⟨hlt, hmatch⟩ := legacyFind_some hfind
      exact ⟨sizes_eq ▸ hlt, hmatch, rfl⟩
  have hres := addEntryWith_result (addStandalone malloc) malloc s nh
  rw [show addEntryWith (addStandalone malloc) malloc s nh = (u, some slot) from hadd] at hres
  cases hres with
  | reused _ hex =>
    -- another route may have used what is freed
    refine iff_of_false ?_ fun hundo => nomatch hundo.1.symm.trans hex
    rintro ⟨v, g, hdel, hsame⟩
    obtain ⟨hlt, hmatch, rfl⟩ := hfound v g hdel
    have hgone := hsame.cnt g hlt
    rw [cnt_undone, if_pos rfl] at hgone
    exact (legacyMatch_iff.mp hmatch).1 hgone.symm
  | legacy hnew _ hslot t hpop =>
    obtain ⟨hlt, hfree⟩ := findSlot_some hslot hgood.top
    have hfilled : filled malloc s nh slot nh.nhcnt = .ok t := hpop
    obtain ⟨_, hfill⟩ := exists_filling hgood.top hslot hpop
    by_cases hreused : ∀ j < nh.nhcnt, Multipath nh → (nh.members j).kernelNhId = 0 →
        sharedGroup s nh j ≠ none
    · have hquiet := (Quiet.of_filled hgood hlt hfree hfilled hreused).hint hlt
      have hiff := legacyMatch_new_iff hgood hslot hlegacy hcnt hfilled hreused
      constructor
      · rintro ⟨v, g, hdel, hsame⟩
        obtain ⟨hg, hmatch, rfl⟩ := hfound v g hdel
        -- no other slot has changed, so the new group is the one that was freed
        have hgone := hsame.cnt slot hlt
        rw [cnt_undone, hfree] at hgone
        have heq : slot = g := by
          by_contra hne
          rw [if_neg hne] at hgone
          have hmade : (updateHint t slot).cnt slot = nh.nhcnt := hfill.cnt
          omega
        subst heq
        exact ⟨hnew, hiff.mp hmatch⟩
      · rintro ⟨-, hrecoverable⟩
        have hmatch : legacyMatch (updateHint t slot) nh ((updateHint t slot).groups slot) = true :=
          hiff.mpr hrecoverable
        refine ⟨_, slot, nexthopDelEntry_legacy hlegacy ?_, hquiet.undone hgood hlt⟩
        rw [delSlot_addRef hlegacy]
        exact hquiet.legacyFind_slot hlt hlegacy hnew hmatch
    · push Not at hreused
      obtain ⟨j, hj, hmulti, hid, hnone⟩ := hreused
      refine iff_of_false ?_ fun hundo => ?_
      · -- the group that was made for the member is not freed
        rintro ⟨v, g, hdel, hsame⟩
        obtain ⟨hg, hmatch, rfl⟩ := hfound v g hdel
        obtain ⟨-, m, hm, -, hzero, hmade⟩ :=
          exists_made hgood hlt hfree hmulti hfilled hj hid hnone
        have hsize : t.cnt g = nh.nhcnt := (legacyMatch_iff.mp hmatch).2.2.1
        have hne : m ≠ g := by
          rintro rfl
          have hgt := hmulti.1
          omega
        have hleft := hsame.cnt m hm
        rw [cnt_undone, if_neg hne] at hleft
        have hleft : t.cnt m = s.cnt m := hleft
        omega
      · have hrecoverable := hundo.2 j hj
        rw [Recoverable, if_neg (not_not.mpr hid)] at hrecoverable
        exact hrecoverable hmulti.1 hnone
  | indexed _ _ _ _ _ hid => exact absurd hlegacy hid

end Undo

end SdPlane
