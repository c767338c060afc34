import SdPlane.NexthopRefs

/-!
# What `nexthop_add_entry` leaves behind when it fails (`nexthop.c`)

The function gives up in three places: a member finds no gateway, a member finds no group of its
own, or there is no memory for the node of the hash table. The members that are there by then are
taken back. Two kinds of them leave something:

* where the entry has several members and no kernel id, a member may have been given a group of its
  own by the recursive call. The roll-back gives up the reference to it, and the group stays;
* in all other entries, a member with a kernel id counts as a reference to the group with that id.
  The roll-back gives up the gateway, and the reference stays.

`Harmless` is what a member of neither kind is. The call leaves everything as it was if and only if
it does not give up after a member that is not (`nexthopAddEntry_atomic_iff`).
-/

set_option autoImplicit false

namespace SdPlane

/-! ## What is to stay the same -/

/-- The groups and gateways in use are the same, with their members and counts. -/
structure SameLive (s t : NhState) : Prop where
  cnt : ∀ g < MAX_NEXTHOP_GRP_SIZE, t.cnt g = s.cnt g
  group : ∀ g < MAX_NEXTHOP_GRP_SIZE, s.cnt g ≠ 0 → t.groups g = s.groups g
  live : ∀ i < MAX_NEXTHOP_INFO_SIZE, 0 < (t.infoPool i).refcnt ↔ 0 < (s.infoPool i).refcnt
  info : ∀ i < MAX_NEXTHOP_INFO_SIZE, 0 < (s.infoPool i).refcnt → t.infoPool i = s.infoPool i

theorem SameLive.refl (s : NhState) : SameLive s s :=
  ⟨fun _ _ => rfl, fun _ _ _ => rfl, fun _ _ => Iff.rfl, fun _ _ _ => rfl⟩

/-- A call that fails has changed nothing. -/
def AddAtomic (malloc : Bool) (s : NhState) (nh : InternalMsgNhEntry) : Prop :=
  (nexthopAddEntry malloc s nh).2 = none → SameLive s (nexthopAddEntry malloc s nh).1

/-- The group that a member is going to refer to, if it is there already. -/
def sharedGroup (s : NhState) (nh : InternalMsgNhEntry) (j : Nat) : Option Nat :=
  if (nh.members j).kernelNhId ≠ 0 then nexthopGetIndexByNhid s (nh.members j).kernelNhId
  else if nh.nhcnt > 1 ∧ nh.kernelNhId = 0 then
    legacyFind MAX_NEXTHOP_GRP_SIZE s (standaloneEntry (nh.members j))
  else none

/-- The roll-back takes back all that the member has done. -/
def Harmless (s : NhState) (nh : InternalMsgNhEntry) (j : Nat) : Prop :=
  if nh.nhcnt > 1 ∧ nh.kernelNhId = 0 then
    -- the member has its group already, or it has a kernel id
    (nh.members j).kernelNhId = 0 → sharedGroup s nh j ≠ none
  else
    -- the kernel id is not that of a group
    ∀ g, sharedGroup s nh j = some g → s.cnt g = 0

/-! ## Groups of which only the count changes -/

def RefOnly (s t : NhState) (g : Nat) : Prop :=
  t.groups g = { s.groups g with refcnt := t.refcnt g }

namespace RefOnly

variable {s t u : NhState} {slot g : Nat}

theorem of_eq (h : t.groups g = s.groups g) : RefOnly s t g := by
  rw [RefOnly, NhState.refcnt, h]

theorem trans (h : RefOnly s t g) (h' : RefOnly t u g) : RefOnly s u g := by
  rw [RefOnly] at h h' ⊢
  rw [h', h]

theorem cnt (h : RefOnly s t g) : t.cnt g = s.cnt g := by
  rw [NhState.cnt, h, NhState.cnt]

theorem kernel (h : RefOnly s t g) : t.kernel g = s.kernel g := by
  rw [NhState.kernel, h, NhState.kernel]

theorem member (h : RefOnly s t g) (j : Nat) : t.member ⟨g, j⟩ = s.member ⟨g, j⟩ := by
  rw [NhState.member, NhState.member, h]

/-- With the same count, nothing has changed. -/
theorem eq (h : RefOnly s t g) (hrefcnt : t.refcnt g = s.refcnt g) : t.groups g = s.groups g := by
  rw [h, hrefcnt, NhState.refcnt]

theorem setGroup (hne : g ≠ slot) (grp : NhGroup) : RefOnly s (s.setGroup slot grp) g :=
  .of_eq (by rw [NhState.groups_setGroup, if_neg hne])

theorem addRef (slot : Nat) (d : Int) : RefOnly s (s.addRef slot d) g := by
  by_cases heq : g = slot
  · rw [RefOnly, NhState.refcnt_addRef, if_pos heq, NhState.addRef, NhState.groups_setGroup,
      if_pos heq, heq]
    rfl
  · exact .setGroup heq _

theorem shareMember (hne : g ≠ slot) (i refSlot w : Nat) :
    RefOnly s (shareMember s slot i refSlot w) g := by
  unfold SdPlane.shareMember
  have hset : RefOnly s (s.setMember slot i ⟨refSlot, ((s.groups refSlot).members 0).infoIndex, w⟩)
      g := .setGroup hne _
  refine .trans ?_ (.addRef ..)
  split
  · exact hset.trans (.of_eq rfl)
  · exact hset

theorem infoRelease (idx : Int) : RefOnly s (infoRelease s idx) g := by
  apply RefOnly.of_eq
  unfold SdPlane.infoRelease
  split
  · rfl
  · dsimp only
    split
    · rfl
    · rfl

theorem releaseMember (slot j : Nat) : RefOnly s (releaseMember slot j s) g := by
  unfold SdPlane.releaseMember
  dsimp only
  refine .trans ?_ (.infoRelease _)
  split
  · exact .addRef ..
  · exact .of_eq rfl

theorem releaseMembers (slot n : Nat) : RefOnly s (releaseMembers s slot n) g :=
  Lib.forUpTo_rule (fun _ t => RefOnly s t g) (.of_eq rfl) fun _ _ _ h =>
    h.trans (.releaseMember ..)

theorem releaseInfos (slot n : Nat) : RefOnly s (releaseInfos s slot n) g :=
  Lib.forUpTo_rule (fun _ t => RefOnly s t g) (.of_eq rfl) fun _ _ _ h =>
    h.trans (.infoRelease _)

end RefOnly

/-! ## How the loop ends -/

section Loop

variable {malloc : Bool} {s : NhState} {nh : InternalMsgNhEntry} {slot : Nat}

/-- The rounds before a round that was reached. -/
theorem filled_prev {i : Nat} {u : NhState} (h : filled malloc s nh slot (i + 1) = .ok u) :
    ∃ t, filled malloc s nh slot i = .ok t
      ∧ populateMember (addStandalone malloc) nh slot i t = .ok u := by
  rw [filled, Lib.forRange] at h
  split at h
  · next t ht => exact ⟨t, ht, h⟩
  · cases h

theorem filled_error {i : Nat} {t u : NhState} (h : filled malloc s nh slot i = .ok t)
    (hround : populateMember (addStandalone malloc) nh slot i t = .error u) {n : Nat} (hn : i < n) :
    filled malloc s nh slot n = .error u := by
  induction n, hn using Nat.le_induction with
  | base =>
    rw [filled] at h ⊢
    rw [Lib.forRange, h]
    exact hround
  | succ n _ ih =>
    rw [filled] at ih ⊢
    rw [Lib.forRange, ih]

theorem exists_error {n : Nat} {u : NhState} (h : filled malloc s nh slot n = .error u) :
    ∃ i < n, ∃ t, filled malloc s nh slot i = .ok t
      ∧ populateMember (addStandalone malloc) nh slot i t = .error u := by
  induction n with
  | zero => cases h
  | succ n ih =>
    rw [filled, Lib.forRange] at h
    split at h
    · next t ht => exact ⟨n, Nat.lt_succ_self n, t, ht, h⟩
    · next e he =>
      obtain rfl := Except.error.inj h
      obtain ⟨i, hi, t, ht, hround⟩ := ih he
      exact ⟨i, Nat.lt_succ_of_lt hi, t, ht, hround⟩

/-- A call that fails has found no slot, or has given up. -/
theorem exists_givesUp (h : (nexthopAddEntry malloc s nh).2 = none) :
    (nexthopAddEntry malloc s nh).1 = s ∨ ∃ i, GivesUp malloc s nh i := by
  have hres := addEntryWith_result (addStandalone malloc) malloc s nh
  change AddResult (addStandalone malloc) malloc s nh (nexthopAddEntry malloc s nh) at hres
  generalize nexthopAddEntry malloc s nh = res at h hres
  cases hres with
  | reused => cases h
  | full => exact .inl rfl
  | rolledBack hnew slot hslot t hpop =>
    obtain ⟨i, hi, u, hfilled, hround⟩ := exists_error hpop
    exact .inr ⟨i, .member hnew slot hslot u hfilled hi t hround⟩
  | legacy => cases h
  | notIndexed hnew slot hslot t hpop hid hins =>
    exact .inr ⟨_, .hash hnew slot hslot t hpop rfl hid hins⟩
  | indexed => cases h

/-- What is left where it gives up at a member. -/
theorem addEntry_of_error {i : Nat} {t u : NhState} (hnew : findExisting s nh = none)
    (hslot : findSlot s = some slot) (hfilled : filled malloc s nh slot i = .ok t)
    (hi : i < nh.nhcnt)
    (hround : populateMember (addStandalone malloc) nh slot i t = .error u) :
    nexthopAddEntry malloc s nh = (u, none) := by
  have hpop : populate (addStandalone malloc) nh slot (reserve s slot nh) = .error u :=
    filled_error hfilled hround hi
  simp only [nexthopAddEntry, addEntryWith, hnew, hslot, hpop]

/-- What is left where it gives up at the hash table. -/
theorem addEntry_of_hash {t : NhState} (hnew : findExisting s nh = none)
    (hslot : findSlot s = some slot) (hfilled : filled malloc s nh slot nh.nhcnt = .ok t)
    (hid : nh.kernelNhId ≠ 0) (hins : t.nhHt.insert malloc nh.kernelNhId slot = none) :
    nexthopAddEntry malloc s nh
      = ((releaseInfos (updateHint t slot) slot nh.nhcnt).clearGroup slot, none) := by
  have hpop : populate (addStandalone malloc) nh slot (reserve s slot nh) = .ok t := hfilled
  have hins : (updateHint t slot).nhHt.insert malloc nh.kernelNhId slot = none := hins
  simp only [nexthopAddEntry, addEntryWith, hnew, hslot, hpop, if_pos hid, hins]

end Loop

/-! ## The recursive call -/

section Standalone

variable {malloc : Bool} {t t' : NhState} {m : InternalMsgNhMember}

theorem findExisting_standalone (t : NhState) (m : InternalMsgNhMember) :
    findExisting t (standaloneEntry m) = legacyFind MAX_NEXTHOP_GRP_SIZE t (standaloneEntry m) :=
  if_neg (not_not.mpr rfl)

/-- The group is there already. -/
theorem addStandalone_found {g : Nat}
    (h : legacyFind MAX_NEXTHOP_GRP_SIZE t (standaloneEntry m) = some g) :
    addStandalone malloc t (standaloneEntry m) = (t, some g) := by
  rw [← findExisting_standalone] at h
  simp only [addStandalone, addEntryWith, h]

/-- The first round is the whole loop. -/
theorem populate_standalone (slot : Nat) (u : NhState) :
    Round (fun s _ => (s, none)) (standaloneEntry m) slot 0 u
      (populate (fun s _ => (s, none)) (standaloneEntry m) slot u) :=
  populateMember_round _ _ slot 0 u

/-- The group is made. -/
theorem addStandalone_made (htop : t.groupsTop < MAX_NEXTHOP_GRP_SIZE) (hm : m.kernelNhId = 0)
    (hnew : legacyFind MAX_NEXTHOP_GRP_SIZE t (standaloneEntry m) = none) {g : Nat}
    (h : addStandalone malloc t (standaloneEntry m) = (t', some g)) :
    g < MAX_NEXTHOP_GRP_SIZE ∧ t.cnt g = 0 ∧ t'.cnt g = 1 := by
  have hres := addEntryWith_result (fun s _ => (s, none)) malloc t (standaloneEntry m)
  rw [show addEntryWith _ malloc t (standaloneEntry m) = (t', some g) from h] at hres
  cases hres with
  | reused g hex =>
    rw [findExisting_standalone, hnew] at hex
    cases hex
  | legacy _ g hslot u hpop _ =>
    obtain ⟨hlt, hfree⟩ := findSlot_some hslot htop
    refine ⟨hlt, hfree, ?_⟩
    have hround := @populate_standalone m g (reserve t g (standaloneEntry m))
    rw [hpop] at hround
    cases hround with
    | unresolved hid => exact absurd hm hid
    | resolved hid => exact absurd hm hid
    | standalone _ hmulti => exact absurd hmulti.1 (Nat.lt_irrefl 1)
    | inline _ _ idx v halloc =>
      show (v.setMember g 0 ⟨-1, idx, m.weight⟩).cnt g = 1
      rw [NhState.cnt_setMember, cnt_infoAlloc halloc, cnt_reserve, if_pos rfl]
      rfl
  | indexed _ _ _ _ _ hid => exact absurd rfl hid

/-- Nothing is left of a group that is not made, but for what was in its slot before. -/
theorem addStandalone_failed (h : addStandalone malloc t (standaloneEntry m) = (t', none)) :
    findSlot t = none ∧ t' = t
      ∨ ∃ g, findSlot t = some g ∧ t' = (reserve t g (standaloneEntry m)).clearGroup g := by
  have hres := addEntryWith_result (fun s _ => (s, none)) malloc t (standaloneEntry m)
  rw [show addEntryWith _ malloc t (standaloneEntry m) = (t', none) from h] at hres
  cases hres with
  | full _ hfull => exact .inl ⟨hfull, rfl⟩
  | rolledBack _ g hslot _ hpop =>
    have hround := @populate_standalone m g (reserve t g (standaloneEntry m))
    rw [hpop] at hround
    cases hround with
    | noStandalone _ hmulti => exact absurd hmulti.1 (Nat.lt_irrefl 1)
    | poolFull => exact .inr ⟨g, hslot, rfl⟩
  | notIndexed _ _ _ _ _ hid => exact absurd rfl hid

/-- Whatever becomes of it, the groups in use stay. -/
theorem addStandalone_busy (htop : t.groupsTop < MAX_NEXTHOP_GRP_SIZE)
    {nh : InternalMsgNhEntry} (hmulti : Multipath nh) (hm : m.kernelNhId = 0) {r : Option Nat}
    (h : addStandalone malloc t (standaloneEntry m) = (t', r)) :
    t'.groupsTop < MAX_NEXTHOP_GRP_SIZE ∧ ∀ g, t.cnt g ≠ 0 → t'.cnt g = t.cnt g := by
  obtain ⟨built, -, htop', -, hslots, -⟩ := @PoolInv.addStandalone _ t _ _ _ _
    (poolInv_true malloc t nh) t t.cnt trivial (fun _ hg => hg) (fun _ hg => hg) htop hmulti m hm
    (fun _ _ _ => trivial) t' r h
  exact ⟨htop', fun g hg => ((hslots g).busy hg).1⟩

end Standalone

/-! ## Members that leave no group behind -/

/-- The counts of the groups that are not references of members. -/
def others (s : NhState) (g : Nat) : Int := s.refcnt g - Lib.refs (live s) s.ref g

/-- The members before member `i` are there, and no group has been made for one. -/
structure Quiet (s : NhState) (nh : InternalMsgNhEntry) (slot i : Nat) (t : NhState) : Prop where
  free : s.cnt slot = 0
  cnt : ∀ g, t.cnt g = if g = slot then nh.nhcnt else s.cnt g
  group : ∀ g, s.cnt g ≠ 0 → RefOnly s t g
  nhHt : t.nhHt = s.nhHt
  top : t.groupsTop < MAX_NEXTHOP_GRP_SIZE
  info : InfoExact (live s) s (places (Function.update s.cnt slot i)) t
  balance : RefBalance (fun g => s.cnt g ≠ 0) (others s)
    (places (Function.update s.cnt slot i)) t
  refcnt : ∀ g, s.cnt g ≠ 0 → t.refcnt g
    = s.refcnt g + ((List.range i).countP fun j => sharedGroup s nh j = some g)

/-- What a round does that makes no group for its member. -/
inductive QuietRound (s : NhState) (nh : InternalMsgNhEntry) (slot i : Nat) (t : NhState) :
    NhState → Prop
  | unresolved (hid : (nh.members i).kernelNhId ≠ 0) (hshared : sharedGroup s nh i = none) :
      QuietRound s nh slot i t (t.setMember slot i ⟨-1, -1, (nh.members i).weight⟩)
  | shared (refSlot : Nat) (hshared : sharedGroup s nh i = some refSlot) :
      QuietRound s nh slot i t (shareMember t slot i refSlot (nh.members i).weight)
  | own (hid : (nh.members i).kernelNhId = 0) (hown : ¬Multipath nh)
      (hshared : sharedGroup s nh i = none) (idx : Nat) (v : NhState)
      (halloc : infoAlloc t (nh.members i).info = some (idx, v)) :
      QuietRound s nh slot i t (v.setMember slot i ⟨-1, idx, (nh.members i).weight⟩)

namespace Quiet

variable {malloc : Bool} {s t u : NhState} {nh : InternalMsgNhEntry} {slot i : Nat}

theorem live_busy {p : Place} (hp : p ∈ live s) : s.cnt p.1 ≠ 0 := by
  have hlt := (mem_places.mp hp).2
  omega

theorem places_free (hfree : s.cnt slot = 0) : places (Function.update s.cnt slot 0) = live s := by
  rw [← hfree, Function.update_eq_self]

theorem start (hgood : NhGood s) (hfree : s.cnt slot = 0) :
    Quiet s nh slot 0 (reserve s slot nh) := by
  have hplaces := places_free hfree
  have hne : ∀ g, s.cnt g ≠ 0 → g ≠ slot := by
    rintro g hg rfl
    exact hg hfree
  refine ⟨hfree, fun g => cnt_reserve .., fun g hg => .setGroup (hne g hg) _, rfl, hgood.top, ?_,
    ?_, fun g hg => ?_⟩
  · rw [hplaces]
    exact (hgood.info.restart (Finset.Subset.refl _)).reserve slot nh
  · rw [hplaces]
    have hbalance : RefBalance (fun g => s.cnt g ≠ 0) (others s) (live s) s := by
      intro g _
      rw [others]
      omega
    exact hbalance.reserve nh fun hbusy => absurd hfree hbusy
  · rw [refcnt_reserve, if_neg (hne g hg)]
    simp

/-- The slot that is being filled was free. -/
theorem ne (h : Quiet s nh slot i t) {g : Nat} (hg : s.cnt g ≠ 0) : g ≠ slot := by
  rintro rfl
  exact hg h.free

/-- One more member. -/
theorem next (h : Quiet s nh slot i t) (hcnt : ∀ g, u.cnt g = t.cnt g)
    (hgroup : ∀ g, g ≠ slot → RefOnly t u g) (hht : u.nhHt = t.nhHt)
    (htop : u.groupsTop = t.groupsTop)
    (hinfo : InfoExact (live s) s (places (Function.update s.cnt slot (i + 1))) u)
    (hbalance : RefBalance (fun g => s.cnt g ≠ 0) (others s)
      (places (Function.update s.cnt slot (i + 1))) u)
    (hrefcnt : ∀ g, u.refcnt g = t.refcnt g + if sharedGroup s nh i = some g then 1 else 0) :
    Quiet s nh slot (i + 1) u := by
  refine ⟨h.free, fun g => (hcnt g).trans (h.cnt g),
    fun g hg => (h.group g hg).trans (hgroup g (h.ne hg)),
    hht.trans h.nhHt, htop ▸ h.top, hinfo, hbalance, fun g hg => ?_⟩
  rw [hrefcnt, h.refcnt g hg, List.range_succ, List.countP_append, List.countP_singleton]
  by_cases hshared : sharedGroup s nh i = some g
  · simp only [hshared, decide_true, if_true]
    omega
  · simp only [hshared, decide_false, if_false, Bool.false_eq_true]
    omega

/-- The hash table leads where it did. -/
theorem index (h : Quiet s nh slot i t) (k : Int) :
    nexthopGetIndexByNhid t k = nexthopGetIndexByNhid s k := by
  unfold nexthopGetIndexByNhid
  rw [h.nhHt]

theorem share (h : Quiet s nh slot i t) (hslot : slot < MAX_NEXTHOP_GRP_SIZE) {refSlot : Nat}
    (hshared : sharedGroup s nh i = some refSlot) (w : Nat) :
    Quiet s nh slot (i + 1) (shareMember t slot i refSlot w) := by
  have hinfo := h.info.share hslot refSlot w
  have hbalance := h.balance.share hslot refSlot w
  rw [Function.update_self, Function.update_idem] at hinfo hbalance
  refine h.next (fun g => cnt_shareMember ..) (fun g hne => .shareMember hne ..)
    (nhHt_shareMember ..) (groupsTop_shareMember ..) hinfo hbalance fun g => ?_
  rw [refcnt_shareMember, hshared]
  simp only [Option.some.injEq, eq_comm]

/-- A member that refers to no group, with a gateway or without one. -/
theorem own (h : Quiet s nh slot i t) (hshared : sharedGroup s nh i = none)
    (hcnt : ∀ g, u.cnt g = t.cnt g) (hgroup : ∀ g, g ≠ slot → RefOnly t u g)
    (hht : u.nhHt = t.nhHt) (htop : u.groupsTop = t.groupsTop)
    (hrefcnt : ∀ g, u.refcnt g = t.refcnt g)
    (hinfo : InfoExact (live s) s (places (Function.update s.cnt slot (i + 1))) u)
    (hbalance : RefBalance (fun g => s.cnt g ≠ 0) (others s)
      (places (Function.update s.cnt slot (i + 1))) u) : Quiet s nh slot (i + 1) u := by
  refine h.next hcnt hgroup hht htop hinfo hbalance fun g => ?_
  rw [hrefcnt, hshared]
  simp

theorem same_of_content {x y : NhInfo} (h : x.content = y.content) (b : NhInfo) :
    x.same b = y.same b := by
  simp only [NhInfo.content, NhInfo.mk.injEq] at h
  rw [NhInfo.same, NhInfo.same, h.1, h.2.2.1, h.2.2.2.1]

/-- A member that was there has the gateway that it had. -/
theorem memberMatch_eq (h : Quiet s nh slot i t) {p : Place} (hp : p ∈ live s) (b : NhInfo) :
    memberMatch t (t.info p) b = memberMatch s (s.info p) b := by
  have hinfo : t.info p = s.info p := by rw [NhState.info, NhState.info, h.info.member p hp]
  rw [hinfo, memberMatch, memberMatch]
  by_cases hnonneg : 0 ≤ s.info p
  · have hcontent := h.info.content p hp _ (Int.toNat_of_nonneg hnonneg).symm
    rw [same_of_content hcontent]
  · simp [hnonneg]

/-- A group that was in use has the content that it had. -/
theorem legacyMatch_eq (h : Quiet s nh slot i t) {g : Nat} (hg : g < MAX_NEXTHOP_GRP_SIZE)
    (hbusy : s.cnt g ≠ 0) (e : InternalMsgNhEntry) :
    legacyMatch t e (t.groups g) = legacyMatch s e (s.groups g) := by
  rw [Bool.eq_iff_iff, legacyMatch_iff, legacyMatch_iff, (h.group g hbusy).cnt,
    (h.group g hbusy).kernel]
  refine and_congr_right fun _ => and_congr_right fun _ => and_congr_right fun hcnt =>
    forall₂_congr fun j hj => ?_
  rw [h.memberMatch_eq (mem_places.mpr ⟨hg, hcnt ▸ hj⟩)]

/-- Where an entry has several members, the group that is being filled is not taken for one of
    theirs, so the groups that were there are found as before. -/
theorem legacyFind_eq (h : Quiet s nh slot i t) (hmulti : nh.nhcnt > 1)
    (m : InternalMsgNhMember) : legacyFind MAX_NEXTHOP_GRP_SIZE t (standaloneEntry m)
      = legacyFind MAX_NEXTHOP_GRP_SIZE s (standaloneEntry m) := by
  refine List.find?_congr fun g hg => ?_
  by_cases hbusy : s.cnt g = 0
  · rw [Bool.eq_iff_iff, legacyMatch_iff, legacyMatch_iff]
    refine iff_of_false (fun hmatch => ?_) fun hmatch => hmatch.1 hbusy
    have hcnt : t.cnt g = 1 := hmatch.2.2.1
    rw [h.cnt g, hbusy] at hcnt
    split at hcnt
    · omega
    · exact Nat.zero_ne_one hcnt
  · exact h.legacyMatch_eq (List.mem_range.mp hg) hbusy _

theorem round_cases (h : Quiet s nh slot i t)
    (hreused : Multipath nh → (nh.members i).kernelNhId = 0 → sharedGroup s nh i ≠ none)
    (hround : populateMember (addStandalone malloc) nh slot i t = .ok u) :
    QuietRound s nh slot i t u := by
  have hr := populateMember_round (addStandalone malloc) nh slot i t
  rw [hround] at hr
  cases hr with
  | unresolved hid hnone =>
    rw [h.index] at hnone
    exact .unresolved hid (by rw [sharedGroup, if_pos hid, hnone])
  | resolved hid refSlot hsome =>
    rw [h.index] at hsome
    exact .shared refSlot (by rw [sharedGroup, if_pos hid, hsome])
  | standalone hid hmulti t' refSlot hself =>
    -- the group is there already, so nothing is made
    have hshared : sharedGroup s nh i
        = legacyFind MAX_NEXTHOP_GRP_SIZE s (standaloneEntry (nh.members i)) := by
      rw [sharedGroup, if_neg (not_not.mpr hid), if_pos hmulti]
    cases hfind : legacyFind MAX_NEXTHOP_GRP_SIZE s (standaloneEntry (nh.members i)) with
    | none => exact absurd (hshared.trans hfind) (hreused hmulti hid)
    | some g =>
      rw [addStandalone_found ((h.legacyFind_eq hmulti.1 _).trans hfind)] at hself
      obtain ⟨rfl, heq⟩ := Prod.mk.inj hself
      obtain rfl := Option.some.inj heq
      exact .shared _ (hshared.trans hfind)
  | inline hid hown idx t' halloc =>
    exact .own hid hown (by rw [sharedGroup, if_neg (not_not.mpr hid), if_neg hown]) idx t' halloc

/-- A round that makes no group for its member. -/
theorem round (h : Quiet s nh slot i t) (hslot : slot < MAX_NEXTHOP_GRP_SIZE)
    (hround : QuietRound s nh slot i t u) : Quiet s nh slot (i + 1) u := by
  have hupdate : Function.update (Function.update s.cnt slot i) slot (i + 1)
      = Function.update s.cnt slot (i + 1) := Function.update_idem ..
  cases hround with
  | unresolved hid hshared =>
    have hinfo := (@poolInv_infoExact _ _ true nh fun p hp => live_busy hp).unresolved _ _ slot
      (nh.members i).weight h.info hslot h.free
    have hbalance := h.balance.unresolved hslot (nh.members i).weight
    rw [Function.update_self, hupdate] at hinfo hbalance
    exact h.own hshared (fun g => NhState.cnt_setMember ..) (fun g hne => .setGroup hne _) rfl rfl
      (fun g => NhState.refcnt_setMember ..) hinfo hbalance
  | shared refSlot hshared => exact h.share hslot hshared _
  | own hid hown hshared idx t' halloc =>
    have hinfo := h.info.alloc (w := (nh.members i).weight) hslot halloc
    have hbalance := h.balance.alloc (w := (nh.members i).weight) hslot halloc
    rw [Function.update_self, hupdate] at hinfo hbalance
    refine h.own hshared (fun g => ?_) (fun g hne => ?_) (rest_infoAlloc halloc).1
      (rest_infoAlloc halloc).2 (fun g => ?_) hinfo hbalance
    · rw [NhState.cnt_setMember, cnt_infoAlloc halloc]
    · exact .trans (.of_eq (congrFun (groups_infoAlloc halloc) g)) (.setGroup hne _)
    · rw [NhState.refcnt_setMember, refcnt_infoAlloc halloc]

/-- The loop, as long as no group is made. -/
theorem of_filled (hgood : NhGood s) (hslot : slot < MAX_NEXTHOP_GRP_SIZE) (hfree : s.cnt slot = 0)
    (hfilled : filled malloc s nh slot i = .ok t)
    (hreused : ∀ j < i, Multipath nh → (nh.members j).kernelNhId = 0 →
      sharedGroup s nh j ≠ none) : Quiet s nh slot i t := by
  induction i generalizing t with
  | zero =>
    obtain rfl := Except.ok.inj hfilled
    exact .start hgood hfree
  | succ i ih =>
    obtain ⟨t', ht', hround⟩ := filled_prev hfilled
    have hquiet := ih ht' fun j hj => hreused j (Nat.lt_succ_of_lt hj)
    exact hquiet.round hslot (hquiet.round_cases (hreused i (Nat.lt_succ_self i)) hround)

/-- A slot that is free between two rounds was free before, and is not the one being filled. -/
theorem freer (h : Quiet s nh slot i t) (hmulti : nh.nhcnt > 1) {g : Nat} (hzero : t.cnt g = 0) :
    g ≠ slot ∧ s.cnt g = 0 := by
  have hne : g ≠ slot := by
    rintro rfl
    rw [h.cnt, if_pos rfl] at hzero
    omega
  exact ⟨hne, by rwa [h.cnt, if_neg hne] at hzero⟩

/-- A group that could not be made for a member leaves a slot cleared that was free. -/
theorem abandon (h : Quiet s nh slot i t) (hmulti : nh.nhcnt > 1) {g : Nat} (hzero : t.cnt g = 0)
    (e : InternalMsgNhEntry) : Quiet s nh slot i ((reserve t g e).clearGroup g) := by
  obtain ⟨hne, hfree⟩ := h.freer hmulti hzero
  have hother : ∀ g', s.cnt g' ≠ 0 → g' ≠ g := by
    rintro g' hg' rfl
    exact hg' hfree
  have hbuilt : Function.update (Function.update s.cnt slot i) g 0
      = Function.update s.cnt slot i := by
    rw [Function.update_eq_self_iff, Function.update_of_ne hne, hfree]
  have hinfo := h.info.reserve g e
  have hbalance := h.balance.reserve e fun hbusy => absurd hfree hbusy
  refine ⟨h.free, fun g' => ?_, fun g' hg' => ?_, h.nhHt, h.top, ?_, ?_, fun g' hg' => ?_⟩
  · rw [NhState.cnt_clearGroup, cnt_reserve]
    by_cases heq : g' = g
    · rw [if_pos heq, heq, if_neg hne, hfree]
    · rw [if_neg heq, if_neg heq, h.cnt]
  · have heq := hother g' hg'
    exact (h.group g' hg').trans (.trans (.setGroup heq _) (.setGroup heq _))
  · rw [← hbuilt] at hinfo ⊢
    exact hinfo.clear
  · rw [← hbuilt] at hbalance ⊢
    exact hbalance.clear fun hbusy => absurd hfree hbusy
  · have heq := hother g' hg'
    rw [NhState.refcnt_clearGroup, if_neg heq, refcnt_reserve, if_neg heq, h.refcnt g' hg']

theorem hint (h : Quiet s nh slot i t) (hslot : slot < MAX_NEXTHOP_GRP_SIZE) :
    Quiet s nh slot i (updateHint t slot) :=
  ⟨h.free, h.cnt, h.group, h.nhHt, groupsTop_updateHint hslot,
    h.info.congr rfl (fun _ _ => rfl) h.info.bound, h.balance, h.refcnt⟩

end Quiet

/-! ## The roll-backs -/

section Rollback

variable {malloc : Bool} {s t u : NhState} {nh : InternalMsgNhEntry} {slot i : Nat}

/-- With exact counts before and after, gateways are the same when members are. -/
theorem SameLive.of_exact (hgood : NhGood s) (hcnt : ∀ g, u.cnt g = s.cnt g)
    (hgroup : ∀ g < MAX_NEXTHOP_GRP_SIZE, s.cnt g ≠ 0 → u.groups g = s.groups g)
    (hinfo : InfoExact (SdPlane.live s) s (SdPlane.live s) u) : SameLive s u := by
  have hrefcnt : ∀ i < MAX_NEXTHOP_INFO_SIZE, (u.infoPool i).refcnt = (s.infoPool i).refcnt := by
    intro i hi
    rw [hinfo.count i hi, hgood.info.count i hi]
    apply Lib.refs_congr
    intro p hp
    rw [NhState.info, NhState.info, hinfo.member p hp]
  refine ⟨fun g _ => hcnt g, hgroup, fun i hi => by rw [hrefcnt i hi], fun i hi hpos => ?_⟩
  -- what is in use is pointed at
  have hpointed : ∃ p ∈ SdPlane.live s, s.info p = i := by
    by_contra hnone
    push Not at hnone
    rw [hgood.info.count i hi, Lib.refs_eq_zero_iff.mpr hnone] at hpos
    exact Int.lt_irrefl 0 hpos
  obtain ⟨p, hp, hpoints⟩ := hpointed
  have hcontent := hinfo.content p hp i hpoints
  have hcount := hrefcnt i hi
  generalize u.infoPool i = x, s.infoPool i = y at hcontent hcount
  cases x
  cases y
  simp only [NhInfo.content, NhInfo.mk.injEq] at hcontent hcount ⊢
  exact ⟨hcontent.1, hcontent.2.1, hcontent.2.2.1, hcontent.2.2.2.1, hcount⟩

namespace Quiet

/-- After a roll-back that has given up the gateways, the counts of groups are all that may
    differ. -/
theorem sameLive_iff (h : Quiet s nh slot i t) (hgood : NhGood s) (hu : HeadsKept t u)
    (hgroup : ∀ g, RefOnly t u g)
    (hinfo : InfoExact (live s) s
      (places (Function.update (Function.update s.cnt slot i) slot 0)) u) :
    SameLive s (u.clearGroup slot)
      ↔ ∀ g < MAX_NEXTHOP_GRP_SIZE, s.cnt g ≠ 0 → u.refcnt g = s.refcnt g := by
  have hclear := hinfo.clear
  rw [Function.update_idem, places_free h.free] at hclear
  constructor
  · intro hsame g hg hbusy
    have heq := hsame.group g hg hbusy
    rw [NhState.clearGroup, NhState.groups_setGroup, if_neg (h.ne hbusy)] at heq
    rw [NhState.refcnt, heq, NhState.refcnt]
  · intro hrefcnt
    refine .of_exact hgood (fun g => ?_) (fun g hg hbusy => ?_) hclear
    · rw [NhState.cnt_clearGroup, hu.cnt, h.cnt]
      split
      · next heq => rw [heq, h.free]
      · rfl
    · rw [NhState.clearGroup, NhState.groups_setGroup, if_neg (h.ne hbusy)]
      exact ((h.group g hbusy).trans (hgroup g)).eq (hrefcnt g hg hbusy)

/-- The roll-back that gives up gateways alone. -/
theorem sameLive_releaseInfos (h : Quiet s nh slot i t) (hgood : NhGood s)
    (hslot : slot < MAX_NEXTHOP_GRP_SIZE) (hown : ¬Multipath nh) :
    SameLive s ((releaseInfos t slot i).clearGroup slot) ↔ ∀ j < i, Harmless s nh j := by
  have hinfo := h.info.releaseInfos hslot fun p hp => h.ne (live_busy hp)
  rw [Function.update_self] at hinfo
  obtain ⟨hkept, hrefcnt⟩ := headsKept_releaseInfos t slot i
  rw [h.sameLive_iff hgood hkept (fun g => .releaseInfos slot i) hinfo]
  constructor
  · intro hsame j hj
    rw [Harmless, if_neg hown]
    intro g hshared
    by_contra hbusy
    have hlt : g < MAX_NEXTHOP_GRP_SIZE := by
      rw [sharedGroup, if_neg hown] at hshared
      split at hshared
      · exact hgood.slots _ _ (nexthopGetIndexByNhid_eq_some.mp hshared).2.2
      · cases hshared
    have hcount := hsame g hlt hbusy
    rw [hrefcnt, h.refcnt g hbusy] at hcount
    have hpos : 0 < (List.range i).countP fun j => sharedGroup s nh j = some g :=
      List.countP_pos_iff.mpr ⟨j, List.mem_range.mpr hj, decide_eq_true hshared⟩
    omega
  · intro hharmless g _ hbusy
    have hzero : ((List.range i).countP fun j => sharedGroup s nh j = some g) = 0 := by
      rw [List.countP_eq_zero]
      intro j hj hshared
      have hj' := hharmless j (List.mem_range.mp hj)
      rw [Harmless, if_neg hown] at hj'
      exact hbusy (hj' g (of_decide_eq_true hshared))
    rw [hrefcnt, h.refcnt g hbusy, hzero]
    omega

/-- The roll-back that gives up the groups of the members as well. -/
theorem sameLive_releaseMembers (h : Quiet s nh slot i t) (hgood : NhGood s)
    (hslot : slot < MAX_NEXTHOP_GRP_SIZE) :
    SameLive s ((releaseMembers t slot i).clearGroup slot) := by
  have hinfo := h.info.releaseMembers hslot fun p hp => h.ne (live_busy hp)
  have hbalance := h.balance.releaseMembers hslot
  have hkept := headsKept_releaseMembers t slot i
  rw [Function.update_self] at hinfo hbalance
  rw [Function.update_idem, places_free h.free] at hbalance
  rw [h.sameLive_iff hgood hkept (fun g => .releaseMembers slot i) hinfo]
  intro g _ hbusy
  have hrefs : Lib.refs (live s) (releaseMembers t slot i).ref g = Lib.refs (live s) s.ref g := by
    apply Lib.refs_congr
    intro p hp
    rw [NhState.ref, NhState.ref, hkept.member, h.info.member p hp]
  rw [hbalance g hbusy, hrefs, others]
  omega

end Quiet

end Rollback

/-! ## Members that leave a group behind -/

section Multipath

variable {malloc : Bool} {s t u : NhState} {nh : InternalMsgNhEntry} {slot i j : Nat}

/-- A round keeps the groups in use. -/
theorem round_busy (hmulti : Multipath nh) (htop : t.groupsTop < MAX_NEXTHOP_GRP_SIZE)
    (hround : populateMember (addStandalone malloc) nh slot i t = .ok u) :
    u.groupsTop < MAX_NEXTHOP_GRP_SIZE ∧ ∀ g, t.cnt g ≠ 0 → u.cnt g = t.cnt g := by
  have hr := populateMember_round (addStandalone malloc) nh slot i t
  rw [hround] at hr
  cases hr with
  | unresolved => exact ⟨htop, fun g _ => NhState.cnt_setMember ..⟩
  | resolved =>
    rw [groupsTop_shareMember]
    exact ⟨htop, fun g _ => cnt_shareMember ..⟩
  | standalone hid _ t' refSlot hself =>
    obtain ⟨htop', hbusy⟩ := addStandalone_busy htop hmulti hid hself
    rw [groupsTop_shareMember]
    refine ⟨htop', fun g hg => ?_⟩
    rw [cnt_shareMember]
    exact hbusy g hg
  | inline _ hown => exact absurd hmulti hown

/-- So do all rounds from `j` to `i`. -/
theorem filled_busy (hmulti : Multipath nh) (htop : t.groupsTop < MAX_NEXTHOP_GRP_SIZE)
    (ht : filled malloc s nh slot j = .ok t) (hji : j ≤ i)
    (hu : filled malloc s nh slot i = .ok u) :
    u.groupsTop < MAX_NEXTHOP_GRP_SIZE ∧ ∀ g, t.cnt g ≠ 0 → u.cnt g = t.cnt g := by
  induction i, hji using Nat.le_induction generalizing u with
  | base =>
    obtain rfl := Except.ok.inj (ht.symm.trans hu)
    exact ⟨htop, fun g _ => rfl⟩
  | succ i _ ih =>
    obtain ⟨v, hv, hround⟩ := filled_prev hu
    obtain ⟨htop', hbusy⟩ := ih hv
    obtain ⟨htop'', hbusy'⟩ := round_busy hmulti htop' hround
    refine ⟨htop'', fun g hg => ?_⟩
    have hsame := hbusy g hg
    rw [hbusy' g (by rw [hsame]; exact hg), hsame]

/-- The round of a member without a kernel id that has no group yet makes one. -/
theorem Quiet.made (h : Quiet s nh slot i t) (hmulti : Multipath nh)
    (hid : (nh.members i).kernelNhId = 0) (hshared : sharedGroup s nh i = none)
    (hround : populateMember (addStandalone malloc) nh slot i t = .ok u) :
    ∃ g, g < MAX_NEXTHOP_GRP_SIZE ∧ g ≠ slot ∧ s.cnt g = 0 ∧ u.cnt g = 1 := by
  have hr := populateMember_round (addStandalone malloc) nh slot i t
  rw [hround] at hr
  cases hr with
  | unresolved hne => exact absurd hid hne
  | resolved hne => exact absurd hid hne
  | standalone _ _ t' g hself =>
    have hnew : legacyFind MAX_NEXTHOP_GRP_SIZE t (standaloneEntry (nh.members i)) = none := by
      rw [h.legacyFind_eq hmulti.1]
      rwa [sharedGroup, if_neg (not_not.mpr hid), if_pos hmulti] at hshared
    obtain ⟨hlt, hfree, hmade⟩ := addStandalone_made h.top hid hnew hself
    obtain ⟨hne, hzero⟩ := h.freer hmulti.1 hfree
    refine ⟨g, hlt, hne, hzero, ?_⟩
    rw [cnt_shareMember]
    exact hmade
  | inline _ hown => exact absurd hmulti hown

/-- A member without a kernel id that has no group yet makes one be made, for itself or for a
    member before it, and that one is there from then on. -/
theorem exists_made (hgood : NhGood s) (hslot : slot < MAX_NEXTHOP_GRP_SIZE)
    (hfree : s.cnt slot = 0) (hmulti : Multipath nh) (hfilled : filled malloc s nh slot i = .ok t)
    (hj : j < i) (hid : (nh.members j).kernelNhId = 0) (hnone : sharedGroup s nh j = none) :
    t.groupsTop < MAX_NEXTHOP_GRP_SIZE
      ∧ ∃ g, g < MAX_NEXTHOP_GRP_SIZE ∧ g ≠ slot ∧ s.cnt g = 0 ∧ t.cnt g = 1 := by
  induction j using Nat.strong_induction_on with
  | _ j ih =>
    by_cases hbefore : ∃ k < j, (nh.members k).kernelNhId = 0 ∧ sharedGroup s nh k = none
    · obtain ⟨k, hk, hid', hnone'⟩ := hbefore
      exact ih k hk (hk.trans hj) hid' hnone'
    · -- up to member `j` no group has been made
      obtain ⟨v, hv⟩ : ∃ v, filled malloc s nh slot (j + 1) = .ok v := by
        cases hv : filled malloc s nh slot (j + 1) with
        | ok v => exact ⟨v, rfl⟩
        | error e =>
          obtain ⟨k, hk, w, hw, hround⟩ := exists_error hv
          rw [filled_error hw hround (show k < i by omega)] at hfilled
          cases hfilled
      obtain ⟨w, hw, hround⟩ := filled_prev hv
      have hquiet : Quiet s nh slot j w :=
        .of_filled hgood hslot hfree hw fun k hk _ hid' hnone' =>
          hbefore ⟨k, hk, hid', hnone'⟩
      obtain ⟨g, hlt, hne, hzero, hmade⟩ := hquiet.made hmulti hid hnone hround
      have hvtop := (round_busy hmulti hquiet.top hround).1
      obtain ⟨httop, hbusy⟩ := filled_busy hmulti hvtop hv hj hfilled
      exact ⟨httop, g, hlt, hne, hzero, (hbusy g (by omega)).trans hmade⟩

/-- The first member that is not harmless makes a group, which is there after the roll-back. -/
theorem harmless_of_sameLive (hgood : NhGood s) (hslot : slot < MAX_NEXTHOP_GRP_SIZE)
    (hfree : s.cnt slot = 0) (hmulti : Multipath nh) (hfilled : filled malloc s nh slot i = .ok t)
    (hid : (nh.members i).kernelNhId = 0)
    (hself : addStandalone malloc t (standaloneEntry (nh.members i)) = (u, none))
    (hsame : SameLive s ((releaseMembers u slot i).clearGroup slot)) (hj : j < i) :
    Harmless s nh j := by
  rw [Harmless, if_pos hmulti]
  intro hown hnone
  obtain ⟨httop, g, hlt, hne, hzero, ht⟩ :=
    exists_made hgood hslot hfree hmulti hfilled hj hown hnone
  have hu : u.cnt g = 1 := by
    rw [(addStandalone_busy httop hmulti hid hself).2 g (by omega), ht]
  have hcnt := hsame.cnt g hlt
  rw [NhState.cnt_clearGroup, if_neg hne, (headsKept_releaseMembers u slot i).cnt, hu, hzero]
    at hcnt
  exact absurd hcnt Nat.one_ne_zero

end Multipath

/-! ## The whole call -/

/-- Where the call gives up, everything is as it was if all members before are harmless. -/
theorem sameLive_iff_of_givesUp {malloc : Bool} {s : NhState} {nh : InternalMsgNhEntry} {i : Nat}
    (hgood : NhGood s) (h : GivesUp malloc s nh i) :
    (nexthopAddEntry malloc s nh).2 = none
      ∧ (SameLive s (nexthopAddEntry malloc s nh).1 ↔ ∀ j < i, Harmless s nh j) := by
  cases h with
  | member hnew slot hslot t hfilled hi u hround =>
    obtain ⟨hlt, hfree⟩ := findSlot_some hslot hgood.top
    rw [addEntry_of_error hnew hslot hfilled hi hround]
    refine ⟨rfl, ?_⟩
    have hr := populateMember_round (addStandalone malloc) nh slot i t
    rw [hround] at hr
    cases hr with
    | noStandalone hid hmulti u hself =>
      refine ⟨fun hsame j => harmless_of_sameLive hgood hlt hfree hmulti hfilled hid hself hsame,
        fun hharmless => ?_⟩
      have hquiet : Quiet s nh slot i t := by
        refine .of_filled hgood hlt hfree hfilled fun j hj _ hown => ?_
        have hj' := hharmless j hj
        rw [Harmless, if_pos hmulti] at hj'
        exact hj' hown
      rcases addStandalone_failed hself with ⟨-, rfl⟩ | ⟨g, hg, rfl⟩
      · exact hquiet.sameLive_releaseMembers hgood hlt
      · have hzero := (findSlot_some hg hquiet.top).2
        exact (hquiet.abandon hmulti.1 hzero _).sameLive_releaseMembers hgood hlt
    | poolFull hid hown hnone =>
      have hquiet := Quiet.of_filled hgood hlt hfree hfilled fun _ _ hmulti => absurd hmulti hown
      exact hquiet.sameLive_releaseInfos hgood hlt hown
  | hash hnew slot hslot t hfilled hi hid hins =>
    obtain ⟨hlt, hfree⟩ := findSlot_some hslot hgood.top
    have hown : ¬Multipath nh := fun hmulti => hid hmulti.2
    subst hi
    rw [addEntry_of_hash hnew hslot hfilled hid hins]
    have hquiet := Quiet.of_filled hgood hlt hfree hfilled fun _ _ hmulti => absurd hmulti hown
    exact ⟨rfl, (hquiet.hint hlt).sameLive_releaseInfos hgood hlt hown⟩

/-- What the rest of the program does to the pools: routes count as references to groups. -/
inductive NhUse
  | call (c : NhCall)
  | increment (sdplaneNhId : Int)
  | decrement (sdplaneNhId : Int)

def nhUse (s : NhState) : NhUse → NhState
  | .call c => (nhCall s c).1
  | .increment sdplaneNhId => nexthopIncrementRefcnt s sdplaneNhId
  | .decrement sdplaneNhId => nexthopDecrementRefcnt s sdplaneNhId

def nhUsed (uses : List NhUse) : NhState := uses.foldl nhUse nexthopInit

theorem nhGood_nhUsed (uses : List NhUse) : NhGood (nhUsed uses) := by
  unfold nhUsed
  induction uses using List.reverseRecOn with
  | nil => exact NhGood.init
  | append_singleton uses c ih =>
    rw [List.foldl_append]
    cases c with
    | call c => exact ih.call c
    | increment id => exact ih.addRefcnt id 1
    | decrement id => exact ih.addRefcnt id (-1)

/-- **A call that fails leaves everything as it was if and only if** it does not give up after a
    member that is not harmless. -/
theorem nexthopAddEntry_atomic_iff (uses : List NhUse) (malloc : Bool) (nh : InternalMsgNhEntry) :
    AddAtomic malloc (nhUsed uses) nh
      ↔ ∀ i, GivesUp malloc (nhUsed uses) nh i → ∀ j < i, Harmless (nhUsed uses) nh j := by
  have hgood := nhGood_nhUsed uses
  constructor
  · intro hatomic i hgives
    obtain ⟨hnone, hiff⟩ := sameLive_iff_of_givesUp hgood hgives
    exact hiff.mp (hatomic hnone)
  · intro hharmless hnone
    rcases exists_givesUp hnone with heq | ⟨i, hgives⟩
    · rw [heq]
      exact .refl _
    · exact (sameLive_iff_of_givesUp hgood hgives).2.mpr (hharmless i hgives)

/-- A next hop with a kernel id. -/
def nhidEntry (kernelNhId : Int) (member : InternalMsgNhMember) : InternalMsgNhEntry :=
  { standaloneEntry member with kernelNhId := kernelNhId }

/-- The group `3` of the next hop `2` finds no memory, and the reference to `2` is left. The next
    hop `1` is in slot `0`, where none is found. -/
theorem reference_left : ¬ ∀ (uses : List NhUse) (malloc : Bool) (nh : InternalMsgNhEntry),
    AddAtomic malloc (nhUsed uses) nh := by
  intro hall
  have hsame := hall
    [.call (.add true (nhidEntry 1 .zero)), .call (.add true (nhidEntry 2 .zero))] false
    (nhidEntry 3 ⟨2, .zero, 1⟩) (by decide +kernel)
  have hgroup := congrArg NhGroup.refcnt (hsame.group 1 (by decide +kernel) (by decide +kernel))
  exact absurd hgroup (by decide +kernel)

end SdPlane
