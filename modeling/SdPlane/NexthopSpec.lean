import SdPlane.Nexthop

/-!
# What the next-hop operations do

The facts about `nexthop.c` that everything later is derived from, said once:

* what each write changes, field by field, and that it changes nothing else;
* `infoAlloc_cases`, what it is to take a gateway, and that its release changes the pool alone;
* `Round` and `AddResult`, every way through the loop over the members and through the whole call.

`nexthopAddEntry_eq` closes the recursion: the model satisfies the equation of the source.
-/

set_option autoImplicit false

namespace SdPlane

theorem MAX_NEXTHOP_INFO_SIZE_pos : 0 < MAX_NEXTHOP_INFO_SIZE := by
  unfold MAX_NEXTHOP_INFO_SIZE; omega

theorem MAX_NEXTHOP_GRP_SIZE_pos : 0 < MAX_NEXTHOP_GRP_SIZE := by
  unfold MAX_NEXTHOP_GRP_SIZE; omega

/-- A place for a reference: slot and number of a member. -/
abbrev Place := Σ _ : ℕ, ℕ

namespace NhState

def member (s : NhState) (p : Place) : NhMember := (s.groups p.1).members p.2

def info (s : NhState) (p : Place) : Int := (s.member p).infoIndex

def ref (s : NhState) (p : Place) : Int := (s.member p).refSdplaneNhId

/-- The number of members of the group in a slot; a slot with none is free. -/
def cnt (s : NhState) (g : Nat) : Nat := (s.groups g).nhcnt

def kernel (s : NhState) (g : Nat) : Int := (s.groups g).kernelNhId

def refcnt (s : NhState) (g : Nat) : Int := (s.groups g).refcnt

variable (s : NhState)

/-! ## Field by field -/

section setGroup
variable (slot : Nat) (grp : NhGroup) (g : Nat)

theorem groups_setGroup : (s.setGroup slot grp).groups g = if g = slot then grp else s.groups g :=
  Function.update_apply ..

@[simp] theorem infoPool_setGroup : (s.setGroup slot grp).infoPool = s.infoPool := rfl
@[simp] theorem nhHt_setGroup : (s.setGroup slot grp).nhHt = s.nhHt := rfl
@[simp] theorem groupsTop_setGroup : (s.setGroup slot grp).groupsTop = s.groupsTop := rfl
@[simp] theorem infoTop_setGroup : (s.setGroup slot grp).infoTop = s.infoTop := rfl

end setGroup

section setInfo
variable (idx : Nat) (x : NhInfo) (i : Nat) (p : Place) (g : Nat)

theorem infoPool_setInfo : (s.setInfo idx x).infoPool i = if i = idx then x else s.infoPool i :=
  Function.update_apply ..

@[simp] theorem member_setInfo : (s.setInfo idx x).member p = s.member p := rfl
@[simp] theorem cnt_setInfo : (s.setInfo idx x).cnt g = s.cnt g := rfl
@[simp] theorem kernel_setInfo : (s.setInfo idx x).kernel g = s.kernel g := rfl
@[simp] theorem refcnt_setInfo : (s.setInfo idx x).refcnt g = s.refcnt g := rfl
@[simp] theorem nhHt_setInfo : (s.setInfo idx x).nhHt = s.nhHt := rfl
@[simp] theorem groupsTop_setInfo : (s.setInfo idx x).groupsTop = s.groupsTop := rfl

theorem infoPool_holdInfo : (s.holdInfo idx).infoPool i
    = if i = idx then { s.infoPool i with refcnt := (s.infoPool i).refcnt + 1 }
      else s.infoPool i := by
  rw [holdInfo, infoPool_setInfo]
  split
  · next h => rw [h]
  · rfl

@[simp] theorem member_holdInfo : (s.holdInfo idx).member p = s.member p := rfl
@[simp] theorem cnt_holdInfo : (s.holdInfo idx).cnt g = s.cnt g := rfl
@[simp] theorem kernel_holdInfo : (s.holdInfo idx).kernel g = s.kernel g := rfl
@[simp] theorem refcnt_holdInfo : (s.holdInfo idx).refcnt g = s.refcnt g := rfl
@[simp] theorem nhHt_holdInfo : (s.holdInfo idx).nhHt = s.nhHt := rfl
@[simp] theorem groupsTop_holdInfo : (s.holdInfo idx).groupsTop = s.groupsTop := rfl

end setInfo

section setMember
variable (slot i : Nat) (m : NhMember) (p : Place) (g : Nat)

theorem member_setMember : (s.setMember slot i m).member p
    = if p = ⟨slot, i⟩ then m else s.member p := by
  obtain ⟨g, j⟩ := p
  rw [member, setMember, groups_setGroup]
  by_cases hg : g = slot
  · subst hg
    by_cases hj : j = i
    · simp [hj]
    · simp [hj, member]
  · simp [hg, member]

@[simp] theorem cnt_setMember : (s.setMember slot i m).cnt g = s.cnt g := by
  rw [cnt, setMember, groups_setGroup]
  split
  · next h => rw [h]; rfl
  · rfl

@[simp] theorem kernel_setMember : (s.setMember slot i m).kernel g = s.kernel g := by
  rw [kernel, setMember, groups_setGroup]
  split
  · next h => rw [h]; rfl
  · rfl

@[simp] theorem refcnt_setMember : (s.setMember slot i m).refcnt g = s.refcnt g := by
  rw [refcnt, setMember, groups_setGroup]
  split
  · next h => rw [h]; rfl
  · rfl

@[simp] theorem infoPool_setMember : (s.setMember slot i m).infoPool = s.infoPool := rfl
@[simp] theorem nhHt_setMember : (s.setMember slot i m).nhHt = s.nhHt := rfl
@[simp] theorem groupsTop_setMember : (s.setMember slot i m).groupsTop = s.groupsTop := rfl

end setMember

section addRef
variable (slot : Nat) (d : Int) (p : Place) (g : Nat)

@[simp] theorem member_addRef : (s.addRef slot d).member p = s.member p := by
  rw [member, addRef, groups_setGroup]
  split
  · next h => rw [← h]; rfl
  · rfl

@[simp] theorem cnt_addRef : (s.addRef slot d).cnt g = s.cnt g := by
  rw [cnt, addRef, groups_setGroup]
  split
  · next h => rw [h]; rfl
  · rfl

@[simp] theorem kernel_addRef : (s.addRef slot d).kernel g = s.kernel g := by
  rw [kernel, addRef, groups_setGroup]
  split
  · next h => rw [h]; rfl
  · rfl

theorem refcnt_addRef : (s.addRef slot d).refcnt g
    = s.refcnt g + if g = slot then d else 0 := by
  rw [refcnt, addRef, groups_setGroup]
  split
  · next h => rw [h]; rfl
  · rw [Int.add_zero]; rfl

@[simp] theorem infoPool_addRef : (s.addRef slot d).infoPool = s.infoPool := rfl
@[simp] theorem nhHt_addRef : (s.addRef slot d).nhHt = s.nhHt := rfl
@[simp] theorem groupsTop_addRef : (s.addRef slot d).groupsTop = s.groupsTop := rfl

end addRef

section clearGroup
variable (slot : Nat) (p : Place) (g : Nat)

theorem member_clearGroup : (s.clearGroup slot).member p
    = if p.1 = slot then .zero else s.member p := by
  rw [member, clearGroup, groups_setGroup]
  split
  · rfl
  · rfl

theorem cnt_clearGroup : (s.clearGroup slot).cnt g = if g = slot then 0 else s.cnt g := by
  rw [cnt, clearGroup, groups_setGroup]
  split
  · rfl
  · rfl

theorem kernel_clearGroup : (s.clearGroup slot).kernel g
    = if g = slot then 0 else s.kernel g := by
  rw [kernel, clearGroup, groups_setGroup]
  split
  · rfl
  · rfl

theorem refcnt_clearGroup : (s.clearGroup slot).refcnt g
    = if g = slot then 0 else s.refcnt g := by
  rw [refcnt, clearGroup, groups_setGroup]
  split
  · rfl
  · rfl

@[simp] theorem infoPool_clearGroup : (s.clearGroup slot).infoPool = s.infoPool := rfl
@[simp] theorem nhHt_clearGroup : (s.clearGroup slot).nhHt = s.nhHt := rfl
@[simp] theorem groupsTop_clearGroup : (s.clearGroup slot).groupsTop = s.groupsTop := rfl

end clearGroup

end NhState

section reserve
variable (s : NhState) (slot : Nat) (nh : InternalMsgNhEntry) (p : Place) (g : Nat)

@[simp] theorem member_reserve : (reserve s slot nh).member p = s.member p := by
  rw [NhState.member, reserve, NhState.groups_setGroup]
  split
  · next h => rw [← h]; rfl
  · rfl

theorem cnt_reserve : (reserve s slot nh).cnt g = if g = slot then nh.nhcnt else s.cnt g := by
  rw [NhState.cnt, reserve, NhState.groups_setGroup]
  split
  · rfl
  · rfl

theorem kernel_reserve : (reserve s slot nh).kernel g
    = if g = slot then nh.kernelNhId else s.kernel g := by
  rw [NhState.kernel, reserve, NhState.groups_setGroup]
  split
  · rfl
  · rfl

theorem refcnt_reserve : (reserve s slot nh).refcnt g
    = if g = slot then 0 else s.refcnt g := by
  rw [NhState.refcnt, reserve, NhState.groups_setGroup]
  split
  · rfl
  · rfl

@[simp] theorem infoPool_reserve : (reserve s slot nh).infoPool = s.infoPool := rfl
@[simp] theorem nhHt_reserve : (reserve s slot nh).nhHt = s.nhHt := rfl
@[simp] theorem groupsTop_reserve : (reserve s slot nh).groupsTop = s.groupsTop := rfl

end reserve

/-! ## Gateways -/

/-- What two gateways are compared by when a route is traced back to its next hop. -/
def NhInfo.content (x : NhInfo) : NhInfo := { x with refcnt := 0 }

theorem infoFind_some {s : NhState} {src : NhInfo} {idx : Nat} (h : infoFind s src = some idx) :
    idx < MAX_NEXTHOP_INFO_SIZE ∧ 0 < (s.infoPool idx).refcnt
      ∧ (s.infoPool idx).same src = true := by
  have hlt := List.mem_range.mp (List.mem_of_find?_eq_some h)
  have hp := List.find?_some h
  simp only [Bool.and_eq_true, decide_eq_true_eq] at hp
  exact ⟨hlt, hp.1, hp.2⟩

/-- `_info_alloc` shares a live gateway with the same address and interface, or fills a free
    one. -/
theorem infoAlloc_cases {s s' : NhState} {src : NhInfo} {idx : Nat}
    (h : infoAlloc s src = some (idx, s')) : idx < MAX_NEXTHOP_INFO_SIZE ∧
      ((infoFind s src = some idx ∧ s' = s.holdInfo idx)
        ∨ (infoFind s src = none ∧ (s.infoPool idx).refcnt ≤ 0
          ∧ s' = { s.setInfo idx { src with refcnt := 1 } with
              infoTop := (idx + 1) % MAX_NEXTHOP_INFO_SIZE })) := by
  unfold infoAlloc at h
  split at h
  · next i hfind =>
    obtain ⟨rfl, rfl⟩ := Prod.mk.inj (Option.some.inj h)
    exact ⟨(infoFind_some hfind).1, .inl ⟨hfind, rfl⟩⟩
  · next hfind =>
    split at h
    · next i hscan =>
      obtain ⟨rfl, rfl⟩ := Prod.mk.inj (Option.some.inj h)
      obtain ⟨hlt, hfree⟩ := Lib.ringScan_some MAX_NEXTHOP_INFO_SIZE_pos hscan
      exact ⟨hlt, .inr ⟨hfind, by simpa using hfree, rfl⟩⟩
    · cases h

section infoAlloc
variable {s s' : NhState} {src : NhInfo} {idx : Nat} (h : infoAlloc s src = some (idx, s'))
include h

theorem groups_infoAlloc : s'.groups = s.groups := by
  obtain ⟨-, ⟨-, rfl⟩ | ⟨-, -, rfl⟩⟩ := infoAlloc_cases h
  · rfl
  · rfl

theorem member_infoAlloc (p : Place) : s'.member p = s.member p := by
  rw [NhState.member, groups_infoAlloc h]; rfl

theorem cnt_infoAlloc (g : Nat) : s'.cnt g = s.cnt g := by
  rw [NhState.cnt, groups_infoAlloc h]; rfl

theorem kernel_infoAlloc (g : Nat) : s'.kernel g = s.kernel g := by
  rw [NhState.kernel, groups_infoAlloc h]; rfl

theorem refcnt_infoAlloc (g : Nat) : s'.refcnt g = s.refcnt g := by
  rw [NhState.refcnt, groups_infoAlloc h]; rfl

theorem rest_infoAlloc : s'.nhHt = s.nhHt ∧ s'.groupsTop = s.groupsTop := by
  obtain ⟨-, ⟨-, rfl⟩ | ⟨-, -, rfl⟩⟩ := infoAlloc_cases h
  · exact ⟨rfl, rfl⟩
  · exact ⟨rfl, rfl⟩

end infoAlloc

section infoRelease
variable (s : NhState) (idx : Int) (p : Place) (g : Nat)

@[simp] theorem groups_infoRelease : (infoRelease s idx).groups = s.groups := by
  unfold infoRelease
  split
  · rfl
  · dsimp only
    split
    · rfl
    · rfl

@[simp] theorem nhHt_infoRelease : (infoRelease s idx).nhHt = s.nhHt := by
  unfold infoRelease
  split
  · rfl
  · dsimp only
    split
    · rfl
    · rfl

@[simp] theorem groupsTop_infoRelease : (infoRelease s idx).groupsTop = s.groupsTop := by
  unfold infoRelease
  split
  · rfl
  · dsimp only
    split
    · rfl
    · rfl

@[simp] theorem member_infoRelease : (infoRelease s idx).member p = s.member p := by
  rw [NhState.member, groups_infoRelease]; rfl

@[simp] theorem cnt_infoRelease : (infoRelease s idx).cnt g = s.cnt g := by
  rw [NhState.cnt, groups_infoRelease]; rfl

@[simp] theorem kernel_infoRelease : (infoRelease s idx).kernel g = s.kernel g := by
  rw [NhState.kernel, groups_infoRelease]; rfl

@[simp] theorem refcnt_infoRelease : (infoRelease s idx).refcnt g = s.refcnt g := by
  rw [NhState.refcnt, groups_infoRelease]; rfl

/-- A release is about the pool alone. -/
theorem infoPool_infoRelease_congr {s t : NhState} (h : t.infoPool = s.infoPool) (idx : Int) :
    (infoRelease t idx).infoPool = (infoRelease s idx).infoPool := by
  unfold infoRelease
  rw [h]
  split
  · exact h
  · dsimp only
    split
    · simp [NhState.setInfo, h]
    · simp [NhState.setInfo, h]

/-- The gateway that is released loses a reference, and with the last one its content. -/
theorem infoPool_infoRelease {i : Nat} (hi : i < MAX_NEXTHOP_INFO_SIZE) :
    (infoRelease s idx).infoPool i
      = if idx = i then
          if (s.infoPool i).refcnt - 1 ≤ 0 then .zero
          else { s.infoPool i with refcnt := (s.infoPool i).refcnt - 1 }
        else s.infoPool i := by
  unfold infoRelease
  by_cases heq : idx = i
  · subst heq
    rw [if_neg (by omega), if_pos rfl]
    dsimp only
    rw [Int.toNat_natCast]
    split
    · rw [NhState.infoPool_setInfo, if_pos rfl]
    · rw [NhState.infoPool_setInfo, if_pos rfl]
  · rw [if_neg heq]
    split
    · rfl
    · next hin =>
      dsimp only
      have hne : i ≠ idx.toNat := by omega
      split
      · rw [NhState.infoPool_setInfo, if_neg hne]
      · rw [NhState.infoPool_setInfo, if_neg hne]

end infoRelease

section shareMember
variable (s : NhState) (slot i refSlot weight : Nat) (p : Place) (g : Nat)

theorem member_shareMember : (shareMember s slot i refSlot weight).member p
    = if p = ⟨slot, i⟩ then ⟨refSlot, s.info ⟨refSlot, 0⟩, weight⟩ else s.member p := by
  unfold shareMember
  rw [NhState.member_addRef]
  split
  · rw [NhState.member_holdInfo, NhState.member_setMember]; rfl
  · rw [NhState.member_setMember]; rfl

@[simp] theorem cnt_shareMember : (shareMember s slot i refSlot weight).cnt g = s.cnt g := by
  unfold shareMember
  rw [NhState.cnt_addRef]
  split <;> simp

@[simp] theorem kernel_shareMember :
    (shareMember s slot i refSlot weight).kernel g = s.kernel g := by
  unfold shareMember
  rw [NhState.kernel_addRef]
  split <;> simp

theorem refcnt_shareMember : (shareMember s slot i refSlot weight).refcnt g
    = s.refcnt g + if g = refSlot then 1 else 0 := by
  unfold shareMember
  rw [NhState.refcnt_addRef]
  split <;> simp

theorem infoPool_shareMember (idx : Nat) : (shareMember s slot i refSlot weight).infoPool idx
    = if s.info ⟨refSlot, 0⟩ = idx then
        { s.infoPool idx with refcnt := (s.infoPool idx).refcnt + 1 }
      else s.infoPool idx := by
  unfold shareMember
  rw [NhState.infoPool_addRef]
  show (if s.info ⟨refSlot, 0⟩ ≥ 0 then _ else _ : NhState).infoPool idx = _
  split
  · next h =>
    rw [NhState.infoPool_holdInfo, NhState.infoPool_setMember]
    change s.info ⟨refSlot, 0⟩ ≥ 0 at h
    change (if idx = (s.info ⟨refSlot, 0⟩).toNat then _ else _) = _
    by_cases heq : s.info ⟨refSlot, 0⟩ = idx
    · rw [if_pos heq, if_pos (by omega)]
    · rw [if_neg heq, if_neg (by omega)]
  · next h =>
    rw [NhState.infoPool_setMember, if_neg (by omega)]

@[simp] theorem nhHt_shareMember : (shareMember s slot i refSlot weight).nhHt = s.nhHt := by
  unfold shareMember
  rw [NhState.nhHt_addRef]
  split <;> simp

@[simp] theorem groupsTop_shareMember :
    (shareMember s slot i refSlot weight).groupsTop = s.groupsTop := by
  unfold shareMember
  rw [NhState.groupsTop_addRef]
  split <;> simp

end shareMember

/-! ## Giving members up -/

section releaseMember
variable (slot j : Nat) (s : NhState) (p : Place) (g : Nat)

@[simp] theorem member_releaseMember : (releaseMember slot j s).member p = s.member p := by
  unfold releaseMember
  rw [member_infoRelease]
  split <;> simp

@[simp] theorem cnt_releaseMember : (releaseMember slot j s).cnt g = s.cnt g := by
  unfold releaseMember
  rw [cnt_infoRelease]
  split <;> simp

@[simp] theorem kernel_releaseMember : (releaseMember slot j s).kernel g = s.kernel g := by
  unfold releaseMember
  rw [kernel_infoRelease]
  split <;> simp

@[simp] theorem nhHt_releaseMember : (releaseMember slot j s).nhHt = s.nhHt := by
  unfold releaseMember
  rw [nhHt_infoRelease]
  split <;> simp

@[simp] theorem groupsTop_releaseMember :
    (releaseMember slot j s).groupsTop = s.groupsTop := by
  unfold releaseMember
  rw [groupsTop_infoRelease]
  split <;> simp

theorem refcnt_releaseMember : (releaseMember slot j s).refcnt g
    = s.refcnt g - if s.ref ⟨slot, j⟩ = g then 1 else 0 := by
  unfold releaseMember
  rw [refcnt_infoRelease]
  show (if s.ref ⟨slot, j⟩ ≥ 0 then s.addRef (s.ref ⟨slot, j⟩).toNat (-1) else s).refcnt g = _
  split
  · next h =>
    rw [NhState.refcnt_addRef]
    by_cases heq : s.ref ⟨slot, j⟩ = g
    · rw [if_pos heq, if_pos (by omega)]; rfl
    · rw [if_neg heq, if_neg (by omega)]; rfl
  · rw [if_neg (by omega), Int.sub_zero]

theorem infoPool_releaseMember :
    (releaseMember slot j s).infoPool = (infoRelease s (s.info ⟨slot, j⟩)).infoPool := by
  unfold releaseMember
  dsimp only
  split
  · exact infoPool_infoRelease_congr (NhState.infoPool_addRef s _ _) _
  · rfl

end releaseMember

/-- What giving up members leaves alone. -/
structure HeadsKept (s t : NhState) : Prop where
  member : ∀ p, t.member p = s.member p
  cnt : ∀ g, t.cnt g = s.cnt g
  kernel : ∀ g, t.kernel g = s.kernel g
  nhHt : t.nhHt = s.nhHt
  groupsTop : t.groupsTop = s.groupsTop

theorem HeadsKept.refl (s : NhState) : HeadsKept s s :=
  ⟨fun _ => rfl, fun _ => rfl, fun _ => rfl, rfl, rfl⟩

theorem headsKept_releaseMembers (s : NhState) (slot n : Nat) :
    HeadsKept s (releaseMembers s slot n) := by
  apply Lib.forUpTo_rule (fun _ t => HeadsKept s t) (.refl s)
  intro j t _ h
  constructor
  · intro p; rw [member_releaseMember, h.member]
  · intro g; rw [cnt_releaseMember, h.cnt]
  · intro g; rw [kernel_releaseMember, h.kernel]
  · rw [nhHt_releaseMember, h.nhHt]
  · rw [groupsTop_releaseMember, h.groupsTop]

theorem headsKept_releaseInfos (s : NhState) (slot n : Nat) :
    HeadsKept s (releaseInfos s slot n) ∧ ∀ g, (releaseInfos s slot n).refcnt g = s.refcnt g := by
  apply Lib.forUpTo_rule (fun _ t => HeadsKept s t ∧ ∀ g, t.refcnt g = s.refcnt g)
    ⟨.refl s, fun _ => rfl⟩
  intro j t _ ⟨h, hrefcnt⟩
  refine ⟨⟨?_, ?_, ?_, ?_, ?_⟩, ?_⟩
  · intro p; rw [member_infoRelease, h.member]
  · intro g; rw [cnt_infoRelease, h.cnt]
  · intro g; rw [kernel_infoRelease, h.kernel]
  · rw [nhHt_infoRelease, h.nhHt]
  · rw [groupsTop_infoRelease, h.groupsTop]
  · intro g; rw [refcnt_infoRelease, hrefcnt]

/-! ## Finding -/

/-- `nexthop_get_index_by_nhid` reads the table, and takes slot `0` for an absent key. -/
theorem nexthopGetIndexByNhid_eq_some {s : NhState} {k : Int} {v : Nat} :
    nexthopGetIndexByNhid s k = some v ↔ k ≠ 0 ∧ v ≠ 0 ∧ s.nhHt.find k = some v := by
  unfold nexthopGetIndexByNhid HashTable.lookup
  split
  · next h => simp [h]
  · next h =>
    cases hfind : s.nhHt.find k with
    | none => simp
    | some w =>
      cases w with
      | zero => simp; omega
      | succ w => simp [h]; omega

theorem legacyFind_some {size : Nat} {s : NhState} {nh : InternalMsgNhEntry} {g : Nat}
    (h : legacyFind size s nh = some g) :
    g < size ∧ legacyMatch s nh (s.groups g) = true := by
  have hmatch := List.find?_some h
  exact ⟨List.mem_range.mp (List.mem_of_find?_eq_some h), hmatch⟩

theorem legacyMatch_iff {s : NhState} {nh : InternalMsgNhEntry} {g : Nat} :
    legacyMatch s nh (s.groups g) = true ↔ s.cnt g ≠ 0 ∧ s.kernel g = 0 ∧ s.cnt g = nh.nhcnt
      ∧ ∀ i, i < nh.nhcnt → memberMatch s (s.info ⟨g, i⟩) (nh.members i).info = true := by
  simp only [legacyMatch, Bool.and_eq_true, Bool.not_eq_true', Bool.or_eq_false_iff,
    decide_eq_false_iff_not, decide_eq_true_eq, List.all_eq_true, List.mem_range, ne_eq,
    Decidable.not_not]
  exact ⟨fun ⟨⟨⟨a, b⟩, c⟩, d⟩ => ⟨a, b, c, d⟩, fun ⟨a, b, c, d⟩ => ⟨⟨⟨a, b⟩, c⟩, d⟩⟩

/-- A slot that is handed out is free, and in range when the hint is. -/
theorem findSlot_some {s : NhState} {slot : Nat} (h : findSlot s = some slot)
    (htop : s.groupsTop < MAX_NEXTHOP_GRP_SIZE) :
    slot < MAX_NEXTHOP_GRP_SIZE ∧ s.cnt slot = 0 := by
  unfold findSlot at h
  split at h
  · next hfree => obtain rfl := Option.some.inj h; exact ⟨htop, hfree⟩
  · obtain ⟨hlt, hfree⟩ := Lib.ringScan_some MAX_NEXTHOP_GRP_SIZE_pos h
    exact ⟨hlt, of_decide_eq_true hfree⟩

theorem groupsTop_updateHint {s : NhState} {slot : Nat} (h : slot < MAX_NEXTHOP_GRP_SIZE) :
    (updateHint s slot).groupsTop < MAX_NEXTHOP_GRP_SIZE := by
  have htop : (updateHint s slot).groupsTop = (findNextFreeGroupSlot s slot).getD slot := rfl
  rw [htop]
  cases hnext : findNextFreeGroupSlot s slot with
  | none => exact h
  | some i => exact (Lib.ringScan_some MAX_NEXTHOP_GRP_SIZE_pos hnext).1

/-! ## The ways through `nexthop_add_entry` -/

/-- The ways through one round of the loop over the members. -/
inductive Round (self : NhState → InternalMsgNhEntry → NhState × Option Nat)
    (nh : InternalMsgNhEntry) (slot i : Nat) (s : NhState) : Except NhState NhState → Prop
  | unresolved (hid : (nh.members i).kernelNhId ≠ 0)
      (hnone : nexthopGetIndexByNhid s (nh.members i).kernelNhId = none) :
      Round self nh slot i s (.ok (s.setMember slot i ⟨-1, -1, (nh.members i).weight⟩))
  | resolved (hid : (nh.members i).kernelNhId ≠ 0) (refSlot : Nat)
      (hsome : nexthopGetIndexByNhid s (nh.members i).kernelNhId = some refSlot) :
      Round self nh slot i s (.ok (shareMember s slot i refSlot (nh.members i).weight))
  | noStandalone (hid : (nh.members i).kernelNhId = 0) (hmulti : nh.nhcnt > 1 ∧ nh.kernelNhId = 0)
      (t : NhState) (hself : self s (standaloneEntry (nh.members i)) = (t, none)) :
      Round self nh slot i s (.error ((releaseMembers t slot i).clearGroup slot))
  | standalone (hid : (nh.members i).kernelNhId = 0) (hmulti : nh.nhcnt > 1 ∧ nh.kernelNhId = 0)
      (t : NhState) (refSlot : Nat)
      (hself : self s (standaloneEntry (nh.members i)) = (t, some refSlot)) :
      Round self nh slot i s (.ok (shareMember t slot i refSlot (nh.members i).weight))
  | poolFull (hid : (nh.members i).kernelNhId = 0)
      (hown : ¬(nh.nhcnt > 1 ∧ nh.kernelNhId = 0))
      (hnone : infoAlloc s (nh.members i).info = none) :
      Round self nh slot i s (.error ((releaseInfos s slot i).clearGroup slot))
  | inline (hid : (nh.members i).kernelNhId = 0) (hown : ¬(nh.nhcnt > 1 ∧ nh.kernelNhId = 0))
      (idx : Nat) (t : NhState) (halloc : infoAlloc s (nh.members i).info = some (idx, t)) :
      Round self nh slot i s (.ok (t.setMember slot i ⟨-1, idx, (nh.members i).weight⟩))

theorem populateMember_round (self : NhState → InternalMsgNhEntry → NhState × Option Nat)
    (nh : InternalMsgNhEntry) (slot i : Nat) (s : NhState) :
    Round self nh slot i s (populateMember self nh slot i s) := by
  unfold populateMember
  dsimp only
  split
  · next hid =>
    split
    · next hnone => exact .unresolved hid hnone
    · next refSlot hsome => exact .resolved hid refSlot hsome
  · next hid =>
    have hid : (nh.members i).kernelNhId = 0 := Decidable.not_not.mp hid
    split
    · next hmulti =>
      split
      · next t hself => exact .noStandalone hid hmulti t hself
      · next t refSlot hself => exact .standalone hid hmulti t refSlot hself
    · next hown =>
      split
      · next hnone => exact .poolFull hid hown hnone
      · next idx t halloc => exact .inline hid hown idx t halloc

/-- The ways through `nexthop_add_entry`. -/
inductive AddResult (self : NhState → InternalMsgNhEntry → NhState × Option Nat) (malloc : Bool)
    (s : NhState) (nh : InternalMsgNhEntry) : NhState × Option Nat → Prop
  | reused (g : Nat) (hex : findExisting s nh = some g) : AddResult self malloc s nh (s, some g)
  | full (hnew : findExisting s nh = none) (hfull : findSlot s = none) :
      AddResult self malloc s nh (s, none)
  | rolledBack (hnew : findExisting s nh = none) (slot : Nat) (hslot : findSlot s = some slot)
      (t : NhState) (hpop : populate self nh slot (reserve s slot nh) = .error t) :
      AddResult self malloc s nh (t, none)
  | legacy (hnew : findExisting s nh = none) (slot : Nat) (hslot : findSlot s = some slot)
      (t : NhState) (hpop : populate self nh slot (reserve s slot nh) = .ok t)
      (hid : nh.kernelNhId = 0) : AddResult self malloc s nh (updateHint t slot, some slot)
  | notIndexed (hnew : findExisting s nh = none) (slot : Nat) (hslot : findSlot s = some slot)
      (t : NhState) (hpop : populate self nh slot (reserve s slot nh) = .ok t)
      (hid : nh.kernelNhId ≠ 0) (hins : t.nhHt.insert malloc nh.kernelNhId slot = none) :
      AddResult self malloc s nh
        ((releaseInfos (updateHint t slot) slot nh.nhcnt).clearGroup slot, none)
  | indexed (hnew : findExisting s nh = none) (slot : Nat) (hslot : findSlot s = some slot)
      (t : NhState) (hpop : populate self nh slot (reserve s slot nh) = .ok t)
      (hid : nh.kernelNhId ≠ 0) (ht : HashTable nexthopKeyOps)
      (hins : t.nhHt.insert malloc nh.kernelNhId slot = some ht) :
      AddResult self malloc s nh ({ updateHint t slot with nhHt := ht }, some slot)

theorem addEntryWith_result (self : NhState → InternalMsgNhEntry → NhState × Option Nat)
    (malloc : Bool) (s : NhState) (nh : InternalMsgNhEntry) :
    AddResult self malloc s nh (addEntryWith self malloc s nh) := by
  unfold addEntryWith
  split
  · next g hex => exact .reused g hex
  · next hnew =>
    split
    · next hfull => exact .full hnew hfull
    · next slot hslot =>
      split
      · next t hpop => exact .rolledBack hnew slot hslot t hpop
      · next t hpop =>
        dsimp only
        split
        · next hid =>
          split
          · next hins => exact .notIndexed hnew slot hslot t hpop hid hins
          · next ht hins => exact .indexed hnew slot hslot t hpop hid ht hins
        · next hid => exact .legacy hnew slot hslot t hpop (Decidable.not_not.mp hid)

/-- The recursive call is for entries of one member only. -/
theorem populate_congr {self self' : NhState → InternalMsgNhEntry → NhState × Option Nat}
    (nh : InternalMsgNhEntry)
    (h : nh.nhcnt > 1 → ∀ s m, self s (standaloneEntry m) = self' s (standaloneEntry m))
    (slot : Nat) (s : NhState) : populate self nh slot s = populate self' nh slot s := by
  unfold populate
  congr 1
  funext i s
  unfold populateMember
  dsimp only
  split
  · rfl
  · split
    · next hmulti => rw [h hmulti.1]
    · rfl

theorem addEntryWith_congr {self self' : NhState → InternalMsgNhEntry → NhState × Option Nat}
    (malloc : Bool) (s : NhState) (nh : InternalMsgNhEntry)
    (h : nh.nhcnt > 1 → ∀ s m, self s (standaloneEntry m) = self' s (standaloneEntry m)) :
    addEntryWith self malloc s nh = addEntryWith self' malloc s nh := by
  unfold addEntryWith
  simp only [populate_congr nh h]

/-- **`nexthop_add_entry` calls itself.** -/
theorem nexthopAddEntry_eq (malloc : Bool) :
    nexthopAddEntry malloc = addEntryWith (nexthopAddEntry malloc) malloc := by
  funext s nh
  refine addEntryWith_congr malloc s nh fun _ s m => ?_
  exact addEntryWith_congr malloc s (standaloneEntry m) fun hlt => absurd hlt (Nat.lt_irrefl 1)

end SdPlane
