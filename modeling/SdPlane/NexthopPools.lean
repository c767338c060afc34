import SdPlane.NexthopInfo

/-!
# Which slots the allocators find (`nexthop.c`)

Both pools are searched from a hint, and both searches leave the slot of the hint out. The search
for a group looks at that slot beforehand. `_info_alloc` does not, so a free slot is not found if it
is the one the hint is at and there is no other (`poolsComplete_iff`).

That can happen. The hint is at slot 1 once the pool has been filled, one gateway after the other.
When the gateway there goes, the next one finds the pool full (`hint_slot_not_found`).
-/

set_option autoImplicit false

namespace SdPlane

/-! ## The hint is a slot -/

namespace NhState

variable (s : NhState) (slot i : Nat)

@[simp] theorem infoTop_setMember (m : NhMember) : (s.setMember slot i m).infoTop = s.infoTop := rfl

@[simp] theorem infoTop_addRef (d : Int) : (s.addRef slot d).infoTop = s.infoTop := rfl

@[simp] theorem infoTop_clearGroup : (s.clearGroup slot).infoTop = s.infoTop := rfl

@[simp] theorem infoTop_holdInfo : (s.holdInfo i).infoTop = s.infoTop := rfl

end NhState

section Hint

variable {s : NhState}

@[simp] theorem infoTop_infoRelease (s : NhState) (idx : Int) :
    (infoRelease s idx).infoTop = s.infoTop := by
  unfold infoRelease
  split
  · rfl
  · dsimp only
    split
    · rfl
    · rfl

@[simp] theorem infoTop_shareMember (s : NhState) (slot i refSlot weight : Nat) :
    (shareMember s slot i refSlot weight).infoTop = s.infoTop := by
  unfold shareMember
  rw [NhState.infoTop_addRef]
  split <;> simp

@[simp] theorem infoTop_releaseMember (slot j : Nat) (s : NhState) :
    (releaseMember slot j s).infoTop = s.infoTop := by
  unfold releaseMember
  rw [infoTop_infoRelease]
  split <;> simp

@[simp] theorem infoTop_releaseMembers (s : NhState) (slot n : Nat) :
    (releaseMembers s slot n).infoTop = s.infoTop := by
  apply Lib.forUpTo_rule (fun _ (t : NhState) => t.infoTop = s.infoTop) rfl
  intro j t _ ht
  rw [infoTop_releaseMember, ht]

@[simp] theorem infoTop_releaseInfos (s : NhState) (slot n : Nat) :
    (releaseInfos s slot n).infoTop = s.infoTop := by
  apply Lib.forUpTo_rule (fun _ (t : NhState) => t.infoTop = s.infoTop) rfl
  intro j t _ ht
  rw [infoTop_infoRelease, ht]

theorem infoTop_infoAlloc {t : NhState} {src : NhInfo} {idx : Nat}
    (h : infoAlloc s src = some (idx, t)) (htop : s.infoTop < MAX_NEXTHOP_INFO_SIZE) :
    t.infoTop < MAX_NEXTHOP_INFO_SIZE := by
  obtain ⟨-, ⟨-, rfl⟩ | ⟨-, -, rfl⟩⟩ := infoAlloc_cases h
  · exact htop
  · exact Nat.mod_lt _ MAX_NEXTHOP_INFO_SIZE_pos

theorem poolInv_infoTop (malloc : Bool) (s₀ : NhState) (nh : InternalMsgNhEntry) :
    PoolInv malloc s₀ nh (fun _ => True) (fun _ => True)
      fun _ s => s.infoTop < MAX_NEXTHOP_INFO_SIZE where
  reserve _ _ _ _ h _ _ _ _ := h
  abandon _ _ _ _ h _ _ _ _ _ _ := h
  unresolved _ _ _ _ h _ _ := h
  share _ s slot refSlot w h _ _ _ _ := by
    rw [infoTop_shareMember]
    exact h
  alloc _ s slot src idx t w h _ _ halloc := by
    rw [NhState.infoTop_setMember]
    exact infoTop_infoAlloc halloc h
  rollback _ s slot h _ _ _ _ _ := by
    rw [NhState.infoTop_clearGroup, infoTop_releaseMembers]
    exact h
  rollbackInfos _ s slot h _ _ _ _ _ _ _ := by
    rw [NhState.infoTop_clearGroup, infoTop_releaseInfos]
    exact h
  top _ _ _ h := h
  hash _ _ _ h := h

theorem infoTop_freeGroup (s : NhState) (slot : Nat) : (freeGroup s slot).infoTop = s.infoTop := by
  rw [freeGroup, NhState.infoTop_clearGroup, infoTop_releaseMembers]

theorem infoTop_nexthopDelEntry (s : NhState) (nh : InternalMsgNhEntry) :
    (nexthopDelEntry s nh).1.infoTop = s.infoTop := by
  unfold nexthopDelEntry
  split
  · rfl
  · dsimp only
    rw [infoTop_freeGroup]
    split <;> rfl

theorem infoTop_nexthopAddEntry (malloc : Bool) (nh : InternalMsgNhEntry)
    (h : s.infoTop < MAX_NEXTHOP_INFO_SIZE) (htop : s.groupsTop < MAX_NEXTHOP_GRP_SIZE) :
    (nexthopAddEntry malloc s nh).1.infoTop < MAX_NEXTHOP_INFO_SIZE := by
  obtain ⟨_, hgrown⟩ := @PoolInv.addEntry _ _ _ _ _ _ s.cnt (poolInv_infoTop malloc s nh) h
    (fun _ hg => hg) htop (fun _ _ _ => trivial) fun _ _ => .inl trivial
  exact hgrown.inv

theorem nhAfter_snoc (calls : List NhCall) (c : NhCall) :
    nhAfter (calls ++ [c]) = (nhCall (nhAfter calls) c).1 := by
  rw [nhAfter, List.foldl_append]
  rfl

theorem infoTop_lt (calls : List NhCall) : (nhAfter calls).infoTop < MAX_NEXTHOP_INFO_SIZE := by
  induction calls using List.reverseRecOn with
  | nil => exact MAX_NEXTHOP_INFO_SIZE_pos
  | append_singleton calls c ih =>
    rw [nhAfter_snoc]
    cases c with
    | add malloc nh => exact infoTop_nexthopAddEntry malloc nh ih (nhGood_nhAfter calls).top
    | del nh => exact (infoTop_nexthopDelEntry _ nh).trans_lt ih

end Hint

/-! ## What the searches find -/

/-- The gateway in the slot is in use. -/
def NhState.InfoLive (s : NhState) (i : Nat) : Prop := 0 < (s.infoPool i).refcnt

instance (s : NhState) (i : Nat) : Decidable (s.InfoLive i) := inferInstanceAs (Decidable (_ < _))

theorem infoFind_none {s : NhState} {src : NhInfo} (h : infoFind s src = none) {i : Nat}
    (hi : i < MAX_NEXTHOP_INFO_SIZE) (hlive : s.InfoLive i) : (s.infoPool i).same src = false := by
  have hno := List.find?_eq_none.mp h i (List.mem_range.mpr hi)
  have hlive : 0 < (s.infoPool i).refcnt := hlive
  simpa [hlive] using hno

theorem infoFind_eq_none {s : NhState} {src : NhInfo} (h : ∀ i < MAX_NEXTHOP_INFO_SIZE,
    s.InfoLive i → (s.infoPool i).same src = false) : infoFind s src = none := by
  refine List.find?_eq_none.mpr fun i hi hmatch => ?_
  rw [Bool.and_eq_true, decide_eq_true_eq] at hmatch
  exact Bool.false_ne_true ((h i (List.mem_range.mp hi) hmatch.1).symm.trans hmatch.2)

/-- Where `_info_alloc` gives up. -/
theorem infoAlloc_none_iff {s : NhState} (htop : s.infoTop < MAX_NEXTHOP_INFO_SIZE)
    {src : NhInfo} : infoAlloc s src = none ↔ infoFind s src = none
      ∧ ∀ i < MAX_NEXTHOP_INFO_SIZE, i ≠ s.infoTop → s.InfoLive i := by
  unfold infoAlloc
  cases hfind : infoFind s src with
  | some idx => simp
  | none =>
    cases hscan : Lib.ringScan MAX_NEXTHOP_INFO_SIZE s.infoTop
        fun i => decide ((s.infoPool i).refcnt ≤ 0) with
    | some i =>
      refine iff_of_false nofun fun h => ?_
      -- the slot that was found is not the hint
      have hmem := List.mem_of_find?_eq_some hscan
      obtain ⟨hi, hne⟩ := (Lib.mem_ringFrom htop).mp hmem
      have hfree : (s.infoPool i).refcnt ≤ 0 := by simpa using List.find?_some hscan
      have hlive : 0 < (s.infoPool i).refcnt := h.2 i hi hne
      omega
    | none =>
      refine iff_of_true rfl ⟨rfl, fun i hi hne => ?_⟩
      have hno := Lib.ringScan_none htop hscan hi hne
      rw [NhState.InfoLive]
      simpa using hno

/-- The search for a group leaves no slot out. -/
theorem findSlot_none {s : NhState} (htop : s.groupsTop < MAX_NEXTHOP_GRP_SIZE)
    (h : findSlot s = none) {g : Nat} (hg : g < MAX_NEXTHOP_GRP_SIZE) : s.cnt g ≠ 0 := by
  unfold findSlot at h
  split at h
  · cases h
  · next hbusy =>
    by_cases hgt : g = s.groupsTop
    · rw [hgt]
      exact hbusy
    · have hno := Lib.ringScan_none htop h hg hgt
      rw [decide_eq_false_iff_not] at hno
      exact hno

/-- What is asked of the two searches in state `s`, when a gateway `src` is wanted. -/
structure PoolsComplete (s : NhState) (src : NhInfo) : Prop where
  infoFull : infoAlloc s src = none → ∀ i < MAX_NEXTHOP_INFO_SIZE,
    s.InfoLive i ∧ (s.infoPool i).same src = false
  infoFree : ∀ idx t, infoAlloc s src = some (idx, t) → infoFind s src = some idx
    ∨ infoFind s src = none ∧ idx < MAX_NEXTHOP_INFO_SIZE ∧ ¬ s.InfoLive idx
  groupsFull : findSlot s = none → ∀ g < MAX_NEXTHOP_GRP_SIZE, s.cnt g ≠ 0
  groupFree : ∀ slot, findSlot s = some slot → slot < MAX_NEXTHOP_GRP_SIZE ∧ s.cnt slot = 0

/-- There is such a gateway, or the hint is at one in use, or there is another free slot. -/
def HintSuffices (s : NhState) (src : NhInfo) : Prop :=
  (∃ i < MAX_NEXTHOP_INFO_SIZE, s.InfoLive i ∧ (s.infoPool i).same src = true)
    ∨ s.InfoLive s.infoTop
    ∨ ∃ i < MAX_NEXTHOP_INFO_SIZE, i ≠ s.infoTop ∧ ¬ s.InfoLive i

/-- **When the searches find what there is.** -/
theorem poolsComplete_iff (calls : List NhCall) (src : NhInfo) :
    PoolsComplete (nhAfter calls) src ↔ HintSuffices (nhAfter calls) src := by
  have htop := infoTop_lt calls
  have hgroups := (nhGood_nhAfter calls).top
  generalize nhAfter calls = s at htop hgroups
  constructor
  · intro h
    by_contra hnot
    rw [HintSuffices, not_or, not_or] at hnot
    obtain ⟨hnone, hhint, hothers⟩ := hnot
    refine hhint (h.infoFull ((infoAlloc_none_iff htop).mpr ⟨?_, fun i hi hne => ?_⟩) _ htop).1
    · exact infoFind_eq_none fun i hi hlive => by
        simpa using fun hsame => hnone ⟨i, hi, hlive, hsame⟩
    · by_contra hfree
      exact hothers ⟨i, hi, hne, hfree⟩
  · intro h
    refine ⟨fun hnone => ?_, fun idx t halloc => ?_, fun hnone g hg => findSlot_none hgroups hnone hg,
      fun slot hslot => findSlot_some hslot hgroups⟩
    · obtain ⟨hfind, hothers⟩ := (infoAlloc_none_iff htop).mp hnone
      have hlive : ∀ i < MAX_NEXTHOP_INFO_SIZE, s.InfoLive i := by
        rcases h with ⟨i, hi, hlive, hsame⟩ | hhint | ⟨i, hi, hne, hfree⟩
        · cases (infoFind_none hfind hi hlive).symm.trans hsame
        · intro i hi
          by_cases hne : i = s.infoTop
          · rw [hne]
            exact hhint
          · exact hothers i hi hne
        · exact absurd (hothers i hi hne) hfree
      exact fun i hi => ⟨hlive i hi, infoFind_none hfind hi (hlive i hi)⟩
    · obtain ⟨hlt, ⟨hfind, -⟩ | ⟨hfind, hfree, -⟩⟩ := infoAlloc_cases halloc
      · exact .inl hfind
      · exact .inr ⟨hfind, hlt, Int.not_lt.mpr hfree⟩

/-! ## A pool that is filled and loses one gateway -/

def numbered (n : Nat) : NhInfo := ⟨2, .gateway, .zero, n, 0⟩

/-- An entry for a gateway of its own, behind interface `n`. -/
def numberedEntry (n : Nat) : InternalMsgNhEntry := standaloneEntry ⟨0, numbered n, 1⟩

def NhState.liveGroups (s : NhState) : Finset Nat :=
  (Finset.range MAX_NEXTHOP_GRP_SIZE).filter fun g => s.cnt g ≠ 0

def NhState.liveInfos (s : NhState) : Finset Nat :=
  (Finset.range MAX_NEXTHOP_INFO_SIZE).filter fun i => s.InfoLive i

/-- The entries `0 .. n` have been added, each with a group and a gateway of its own. -/
structure Filled (n : Nat) (s : NhState) : Prop where
  good : NhGood s
  top : s.infoTop < MAX_NEXTHOP_INFO_SIZE
  groups : ∀ g, s.cnt g ≠ 0 → s.cnt g = 1 ∧ s.kernel g = 0
  infos : ∀ i < MAX_NEXTHOP_INFO_SIZE, s.InfoLive i →
    ∃ m < n, s.infoPool i = { numbered m with refcnt := 1 }
  once : ∀ i < MAX_NEXTHOP_INFO_SIZE, ∀ j < MAX_NEXTHOP_INFO_SIZE, s.InfoLive i → s.InfoLive j →
    s.infoPool i = s.infoPool j → i = j
  groupsCard : s.liveGroups.card = n
  infosCard : s.liveInfos.card = n

namespace Filled

variable {n : Nat} {s : NhState}

theorem init : Filled 0 nexthopInit := by
  refine ⟨.init, MAX_NEXTHOP_INFO_SIZE_pos, fun g hg => absurd rfl hg, fun i _ hi => ?_,
    fun i _ j _ hi => ?_, ?_, ?_⟩
  · exact absurd hi (Int.lt_irrefl 0)
  · exact absurd hi (Int.lt_irrefl 0)
  · exact Finset.card_eq_zero.mpr (Finset.filter_false_of_mem fun g _ hg => hg rfl)
  · exact Finset.card_eq_zero.mpr (Finset.filter_false_of_mem fun i _ hi => Int.lt_irrefl 0 hi)

/-- The gateway of an entry is where its group points at. -/
theorem match_info (h : Filled n s) {m g : Nat} (hg : g < MAX_NEXTHOP_GRP_SIZE)
    (hmatch : legacyMatch s (numberedEntry m) (s.groups g) = true) :
    ∃ i < MAX_NEXTHOP_INFO_SIZE, s.info ⟨g, 0⟩ = i ∧ s.InfoLive i ∧ m < n
      ∧ s.infoPool i = { numbered m with refcnt := 1 } := by
  obtain ⟨hcnt, -, -, hmembers⟩ := legacyMatch_iff.mp hmatch
  have hmember := hmembers 0 Nat.zero_lt_one
  rw [memberMatch, Bool.and_eq_true, decide_eq_true_eq] at hmember
  have hinfo : s.info ⟨g, 0⟩ = (s.info ⟨g, 0⟩).toNat := (Int.toNat_of_nonneg hmember.1).symm
  have hplace : (⟨g, 0⟩ : Place) ∈ live s := mem_places.mpr ⟨hg, Nat.pos_of_ne_zero hcnt⟩
  have hlt : (s.info ⟨g, 0⟩).toNat < MAX_NEXTHOP_INFO_SIZE := by
    have hbound := (h.good.info.bound ⟨g, 0⟩).2
    omega
  have hlive : s.InfoLive (s.info ⟨g, 0⟩).toNat := h.good.info.positive hplace hinfo
  obtain ⟨m', hm', hpool⟩ := h.infos _ hlt hlive
  have hsame := hmember.2
  rw [hpool] at hsame
  have hm : m' = m := of_decide_eq_true (Bool.and_eq_true_iff.mp hsame).2
  exact ⟨_, hlt, hinfo, hlive, hm ▸ hm', hm ▸ hpool⟩

/-- An entry that was not added is not found. -/
theorem findExisting_none (h : Filled n s) : findExisting s (numberedEntry n) = none := by
  have hlegacy : findExisting s (numberedEntry n)
      = legacyFind MAX_NEXTHOP_GRP_SIZE s (numberedEntry n) := if_neg (not_not.mpr rfl)
  rw [hlegacy]
  cases hfind : legacyFind MAX_NEXTHOP_GRP_SIZE s (numberedEntry n) with
  | none => rfl
  | some g =>
    obtain ⟨hg, hmatch⟩ := legacyFind_some hfind
    obtain ⟨i, -, -, -, hlt, -⟩ := h.match_info hg hmatch
    exact absurd hlt (Nat.lt_irrefl n)

theorem infoFind_none (h : Filled n s) {k : Nat} (hk : n ≤ k) : infoFind s (numbered k) = none := by
  refine infoFind_eq_none fun i hi hlive => ?_
  obtain ⟨m, hm, hpool⟩ := h.infos i hi hlive
  rw [hpool]
  have hne : m ≠ k := by omega
  simp [NhInfo.same, numbered, hne]

theorem exists_free (h : Filled n s) (hn : n < MAX_NEXTHOP_INFO_SIZE) :
    (¬ ∀ g < MAX_NEXTHOP_GRP_SIZE, s.cnt g ≠ 0)
      ∧ ¬ ∀ i < MAX_NEXTHOP_INFO_SIZE, s.InfoLive i := by
  constructor
  · intro hall
    have hcard := h.groupsCard
    rw [NhState.liveGroups, Finset.filter_true_of_mem fun g hg => hall g (Finset.mem_range.mp hg),
      Finset.card_range, ← sizes_eq] at hcard
    omega
  · intro hall
    have hcard := h.infosCard
    rw [NhState.liveInfos, Finset.filter_true_of_mem fun i hi => hall i (Finset.mem_range.mp hi),
      Finset.card_range] at hcard
    omega

/-- The state after one more entry. -/
theorem next {t : NhState} {slot idx : Nat} (h : Filled n s) (hslot : slot < MAX_NEXTHOP_GRP_SIZE)
    (hslotFree : s.cnt slot = 0) (hidx : idx < MAX_NEXTHOP_INFO_SIZE) (hidxFree : ¬ s.InfoLive idx)
    (hgood : NhGood t) (htop : t.infoTop < MAX_NEXTHOP_INFO_SIZE)
    (hcnt : ∀ g, t.cnt g = if g = slot then 1 else s.cnt g)
    (hkernel : ∀ g, t.kernel g = if g = slot then 0 else s.kernel g)
    (hpool : ∀ i, t.infoPool i = if i = idx then { numbered n with refcnt := 1 }
      else s.infoPool i) : Filled (n + 1) t := by
  have hinfo : ∀ i, t.InfoLive i ↔ i = idx ∨ s.InfoLive i := by
    intro i
    rw [NhState.InfoLive, NhState.InfoLive, hpool]
    by_cases hi : i = idx
    · simp [hi]
    · simp [hi]
  have hnew : ∀ i < MAX_NEXTHOP_INFO_SIZE, s.InfoLive i →
      s.infoPool i ≠ { numbered n with refcnt := 1 } := by
    intro i hi hlive heq
    obtain ⟨m, hm, hpool⟩ := h.infos i hi hlive
    have hoif := congrArg NhInfo.oif (hpool.symm.trans heq)
    exact absurd hoif (Nat.ne_of_lt hm)
  refine ⟨hgood, htop, fun g hg => ?_, fun i hi hlive => ?_, fun i hi j hj hlive hlive' heq => ?_,
    ?_, ?_⟩
  · rw [hcnt, hkernel]
    by_cases hgs : g = slot
    · simp [hgs]
    · rw [hcnt, if_neg hgs] at hg
      simpa [hgs] using h.groups g hg
  · rw [hpool]
    by_cases hii : i = idx
    · exact ⟨n, Nat.lt_succ_self n, if_pos hii⟩
    · obtain ⟨m, hm, heq⟩ := h.infos i hi (((hinfo i).mp hlive).resolve_left hii)
      exact ⟨m, Nat.lt_succ_of_lt hm, (if_neg hii).trans heq⟩
  · rw [hpool, hpool] at heq
    by_cases hii : i = idx
    · by_cases hjj : j = idx
      · rw [hii, hjj]
      · rw [if_pos hii, if_neg hjj] at heq
        exact absurd heq.symm (hnew j hj (((hinfo j).mp hlive').resolve_left hjj))
    · have hold := ((hinfo i).mp hlive).resolve_left hii
      by_cases hjj : j = idx
      · rw [if_neg hii, if_pos hjj] at heq
        exact absurd heq (hnew i hi hold)
      · rw [if_neg hii, if_neg hjj] at heq
        exact h.once i hi j hj hold (((hinfo j).mp hlive').resolve_left hjj) heq
  · have hinsert : t.liveGroups = insert slot s.liveGroups := by
      ext g
      rw [Finset.mem_insert, NhState.liveGroups, NhState.liveGroups, Finset.mem_filter,
        Finset.mem_filter, Finset.mem_range, hcnt]
      by_cases hg : g = slot
      · simp [hg, hslot]
      · simp [hg]
    rw [hinsert, Finset.card_insert_of_notMem (by simp [NhState.liveGroups, hslotFree]), h.groupsCard]
  · have hinsert : t.liveInfos = insert idx s.liveInfos := by
      ext i
      rw [Finset.mem_insert, NhState.liveInfos, NhState.liveInfos, Finset.mem_filter,
        Finset.mem_filter, Finset.mem_range, hinfo]
      by_cases hi : i = idx
      · simp [hi, hidx]
      · simp [hi]
    rw [hinsert, Finset.card_insert_of_notMem (by simp [NhState.liveInfos, hidxFree]), h.infosCard]

/-- One more entry is added. A search that finds what there is finds a slot for it. -/
theorem add (h : Filled n s) (hn : n < MAX_NEXTHOP_INFO_SIZE)
    (hcomplete : PoolsComplete s (numbered n)) :
    Filled (n + 1) (nexthopAddEntry true s (numberedEntry n)).1 := by
  obtain ⟨hgroupFree, hinfoFree⟩ := h.exists_free hn
  have hgood := h.good.add true (numberedEntry n)
  have htop := infoTop_nexthopAddEntry true (numberedEntry n) h.top h.good.top
  have hres := addEntryWith_result (addStandalone true) true s (numberedEntry n)
  change AddResult (addStandalone true) true s (numberedEntry n)
    (nexthopAddEntry true s (numberedEntry n)) at hres
  generalize nexthopAddEntry true s (numberedEntry n) = res at hgood htop hres
  have hround : ∀ slot, Round (addStandalone true) (numberedEntry n) slot 0
      (reserve s slot (numberedEntry n))
      (populate (addStandalone true) (numberedEntry n) slot (reserve s slot (numberedEntry n))) :=
    fun slot => populateMember_round _ _ slot 0 _
  cases hres with
  | reused g hex => cases h.findExisting_none.symm.trans hex
  | full hnew hfull => exact absurd (hcomplete.groupsFull hfull) hgroupFree
  | rolledBack hnew slot hslot t hpop =>
    have hr := hround slot
    rw [hpop] at hr
    cases hr with
    | noStandalone _ hmulti => exact absurd hmulti.1 (Nat.lt_irrefl 1)
    | poolFull _ _ hnone =>
      have htop' : (reserve s slot (numberedEntry n)).infoTop < MAX_NEXTHOP_INFO_SIZE := h.top
      have hnone : infoAlloc s (numbered n) = none :=
        (infoAlloc_none_iff h.top).mpr ((infoAlloc_none_iff htop').mp hnone)
      exact absurd (fun i hi => (hcomplete.infoFull hnone i hi).1) hinfoFree
  | legacy hnew slot hslot t hpop hid =>
    obtain ⟨hlt, hfree⟩ := hcomplete.groupFree slot hslot
    have hr := hround slot
    rw [hpop] at hr
    cases hr with
    | unresolved hid => exact absurd rfl hid
    | resolved hid => exact absurd rfl hid
    | standalone _ hmulti => exact absurd hmulti.1 (Nat.lt_irrefl 1)
    | inline _ _ idx u halloc =>
      obtain ⟨hidx, ⟨hfind, -⟩ | ⟨-, hidxFree, hu⟩⟩ := infoAlloc_cases halloc
      · cases (h.infoFind_none (Nat.le_refl n)).symm.trans hfind
      · have hnot : ¬ s.InfoLive idx := Int.not_lt.mpr hidxFree
        refine h.next hlt hfree hidx hnot hgood htop (fun g => ?_) (fun g => ?_) fun i => ?_
        · show (u.setMember slot 0 ⟨-1, idx, 1⟩).cnt g = _
          rw [NhState.cnt_setMember, cnt_infoAlloc halloc, cnt_reserve]
          rfl
        · show (u.setMember slot 0 ⟨-1, idx, 1⟩).kernel g = _
          rw [NhState.kernel_setMember, kernel_infoAlloc halloc, kernel_reserve]
          rfl
        · show (u.setMember slot 0 ⟨-1, idx, 1⟩).infoPool i = _
          rw [NhState.infoPool_setMember, hu]
          exact NhState.infoPool_setInfo ..
  | notIndexed hnew slot hslot t hpop hid hins => exact absurd rfl hid
  | indexed hnew slot hslot t hpop hid ht hins => exact absurd rfl hid

/-- The gateway at the hint goes, and it was the only one that could have been found free. -/
theorem del (h : Filled MAX_NEXTHOP_INFO_SIZE s) : ∃ m, ¬ PoolsComplete
    (nexthopDelEntry s (numberedEntry m)).1 (numbered MAX_NEXTHOP_INFO_SIZE) := by
  have hall : ∀ i < MAX_NEXTHOP_INFO_SIZE, s.InfoLive i := by
    have hsub : s.liveInfos ⊆ Finset.range MAX_NEXTHOP_INFO_SIZE := Finset.filter_subset ..
    have heq := Finset.eq_of_subset_of_card_le hsub (by rw [Finset.card_range, h.infosCard])
    intro i hi
    have hmem := Finset.mem_range.mpr hi
    rw [← heq] at hmem
    exact (Finset.mem_filter.mp hmem).2
  have htoplive := hall s.infoTop h.top
  obtain ⟨m, hm, hpool⟩ := h.infos s.infoTop h.top htoplive
  -- some group points at it
  obtain ⟨⟨g, j⟩, hplace, hinfo⟩ : ∃ p ∈ live s, s.info p = s.infoTop := by
    by_contra hnone
    have hzero := Lib.refs_eq_zero_iff.mpr fun p hp heq => hnone ⟨p, hp, heq⟩
    have hcount := h.good.info.count s.infoTop h.top
    have hpos : 0 < (s.infoPool s.infoTop).refcnt := htoplive
    omega
  obtain ⟨hg, hj⟩ := mem_places.mp hplace
  obtain ⟨hcnt, hkernel⟩ := h.groups g (Nat.ne_of_gt (Nat.zero_lt_of_lt hj))
  obtain rfl : j = 0 := by
    rw [hcnt] at hj
    exact Nat.lt_one_iff.mp hj
  have hmatch : legacyMatch s (numberedEntry m) (s.groups g) = true := by
    refine legacyMatch_iff.mpr ⟨by omega, hkernel, hcnt, fun i hi => ?_⟩
    obtain rfl : i = 0 := Nat.lt_one_iff.mp hi
    rw [hinfo, memberMatch, Int.toNat_natCast, hpool]
    simp [NhInfo.same, numbered, numberedEntry, standaloneEntry]
  -- so the entry is found, and it is the gateway at the hint that is released with it
  obtain ⟨slot, hslot⟩ : ∃ slot, delSlot s (numberedEntry m) = some slot := by
    cases hdel : delSlot s (numberedEntry m) with
    | some slot => exact ⟨slot, rfl⟩
    | none =>
      have hlegacy : legacyFind MAX_NEXTHOP_INFO_SIZE s (numberedEntry m) = none := hdel
      rw [legacyFind, sizes_eq] at hlegacy
      exact absurd hmatch (List.find?_eq_none.mp hlegacy g (List.mem_range.mpr hg))
  obtain ⟨hlt, hmatch'⟩ := legacyFind_some (show legacyFind MAX_NEXTHOP_INFO_SIZE s _ = _ from hslot)
  rw [sizes_eq] at hlt
  obtain ⟨i, hi, hinfo', hlive', -, hpool'⟩ := h.match_info hlt hmatch'
  obtain rfl : i = s.infoTop := h.once i hi s.infoTop h.top hlive' htoplive (hpool'.trans hpool.symm)
  have hcnt' := (h.groups slot (legacyMatch_iff.mp hmatch').1).1
  have hdel : (nexthopDelEntry s (numberedEntry m)).1 = freeGroup s slot := by
    rw [nexthopDelEntry, hslot]
    rfl
  have hfreed : ∀ i < MAX_NEXTHOP_INFO_SIZE, (freeGroup s slot).infoPool i
      = if i = s.infoTop then .zero else s.infoPool i := by
    intro i hi
    have hone : (s.groups slot).nhcnt = 1 := hcnt'
    rw [freeGroup, NhState.infoPool_clearGroup, hone]
    show (releaseMember slot 0 s).infoPool i = _
    rw [infoPool_releaseMember, infoPool_infoRelease s _ hi, hinfo']
    by_cases hit : i = s.infoTop
    · subst hit
      simp [hpool]
    · have hne : ¬ (s.infoTop : Int) = i := by omega
      rw [if_neg hne, if_neg hit]
  refine ⟨m, fun hcomplete => ?_⟩
  rw [hdel] at hcomplete
  have hlive : ∀ i < MAX_NEXTHOP_INFO_SIZE, i ≠ s.infoTop → (freeGroup s slot).InfoLive i := by
    intro i hi hne
    rw [NhState.InfoLive, hfreed i hi, if_neg hne]
    exact hall i hi
  have htop : (freeGroup s slot).infoTop = s.infoTop := infoTop_freeGroup ..
  have hdead : ¬ (freeGroup s slot).InfoLive s.infoTop := by
    rw [NhState.InfoLive, hfreed _ h.top, if_pos rfl]
    exact Int.lt_irrefl 0
  have hnone : infoAlloc (freeGroup s slot) (numbered MAX_NEXTHOP_INFO_SIZE) = none := by
    rw [infoAlloc_none_iff (htop ▸ h.top), htop]
    refine ⟨infoFind_eq_none fun i hi hlive => ?_, hlive⟩
    have hne : i ≠ s.infoTop := fun heq => hdead (heq ▸ hlive)
    obtain ⟨k, hk, hpoolk⟩ := h.infos i hi (hall i hi)
    rw [hfreed i hi, if_neg hne, hpoolk]
    simp [NhInfo.same, numbered, Nat.ne_of_lt hk]
  exact hdead (hcomplete.infoFull hnone s.infoTop h.top).1

end Filled

/-- The calls that fill the pools. -/
def fillCalls (n : Nat) : List NhCall := (List.range n).map fun m => .add true (numberedEntry m)

theorem fillCalls_succ (n : Nat) :
    fillCalls (n + 1) = fillCalls n ++ [.add true (numberedEntry n)] := by
  simp [fillCalls, List.range_succ]

/-- The pool is filled with gateways, one of them goes, and another one is wanted. -/
theorem hint_slot_not_found : ¬ ∀ (calls : List NhCall) (src : NhInfo),
    PoolsComplete (nhAfter calls) src := by
  intro hall
  have hfilled : ∀ n ≤ MAX_NEXTHOP_INFO_SIZE, Filled n (nhAfter (fillCalls n)) := by
    intro n
    induction n with
    | zero => exact fun _ => .init
    | succ n ih =>
      intro hn
      rw [fillCalls_succ, nhAfter_snoc]
      exact (ih (Nat.le_of_succ_le hn)).add hn (hall _ _)
  obtain ⟨m, hm⟩ := (hfilled _ (Nat.le_refl _)).del
  have hcomplete := hall (fillCalls MAX_NEXTHOP_INFO_SIZE ++ [.del (numberedEntry m)])
    (numbered MAX_NEXTHOP_INFO_SIZE)
  rw [nhAfter_snoc] at hcomplete
  exact hm hcomplete

end SdPlane
