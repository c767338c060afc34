import SdPlane.NexthopInfo

/-!
# The reference counts of groups

A group is referred to by members of other groups, which `nexthop.c` counts itself, and by
routes, which it knows nothing of. `RefBalance G c H s` takes the second kind as given: the
count of a group `g` is the number of members that refer to it, plus `c g`. The operations on
the pools keep the balance, and so `c` says what the routes have to add up to.

They do so under conditions. A slot that is taken for a new group starts from a count of zero,
whoever still refers to it, and the roll-backs that give up gateways alone forget the groups
that were referred to. `AddSafe` says when neither matters.
-/

set_option autoImplicit false

namespace SdPlane

/-- The counts of the groups `G` are the references from the places `H`, plus `c`. -/
def RefBalance (G : Nat → Prop) (c : Nat → Int) (H : Finset Place) (s : NhState) : Prop :=
  ∀ g, G g → s.refcnt g = Lib.refs H s.ref g + c g

namespace RefBalance

variable {G : Nat → Prop} {c : Nat → Int} {H : Finset Place} {s t : NhState}

theorem congr (h : RefBalance G c H s) (hrefcnt : ∀ g, G g → t.refcnt g = s.refcnt g)
    (hmem : ∀ p ∈ H, t.member p = s.member p) : RefBalance G c H t := by
  intro g hg
  rw [hrefcnt g hg, h g hg]
  congr 1
  apply Lib.refs_congr
  intro p hp
  rw [NhState.ref, NhState.ref, hmem p hp]

/-- The member at `p` is set, and the group that it refers to gains a reference. -/
theorem take (h : RefBalance G c H s) {p : Place} (hp : p ∉ H)
    (hmem : ∀ q, q ≠ p → t.member q = s.member q)
    (hrefcnt : ∀ g : Nat, t.refcnt g = s.refcnt g + if t.ref p = g then 1 else 0) :
    RefBalance G c (insert p H) t := by
  intro g hg
  have hsame : ∀ q ∈ H, s.ref q = t.ref q := by
    intro q hq
    rw [NhState.ref, NhState.ref, hmem q fun heq => hp (heq ▸ hq)]
  rw [hrefcnt, h g hg, Lib.refs_insert hp hsame]
  omega

/-- The place `p` stops counting, and the group that it refers to loses a reference. -/
theorem release (h : RefBalance G c H s) {p : Place} (hp : p ∈ H)
    (hmem : ∀ q, t.member q = s.member q)
    (hrefcnt : ∀ g : Nat, t.refcnt g = s.refcnt g - if s.ref p = g then 1 else 0) :
    RefBalance G c (H.erase p) t := by
  intro g hg
  have hsame : ∀ q ∈ H.erase p, s.ref q = t.ref q := by
    intro q _
    rw [NhState.ref, NhState.ref, hmem q]
  rw [hrefcnt, h g hg, Lib.refs_erase hp hsame]
  omega

/-- A group that nobody refers to has no reference that could be given up. -/
theorem zero_mono {H' : Finset Place} (h : RefBalance G c H s) (h' : RefBalance G c H' t)
    (hsub : H' ⊆ H) (hmem : ∀ q, t.member q = s.member q) {g : Nat} (hg : G g) (hc : 0 ≤ c g)
    (hzero : s.refcnt g = 0) : t.refcnt g = 0 := by
  have hbal := h g hg
  have hnonneg := Lib.refs_nonneg H s.ref (g : Int)
  have hnone : ∀ p ∈ H, s.ref p ≠ g := Lib.refs_eq_zero_iff.mp (by omega)
  have hnone' : Lib.refs H' t.ref (g : Int) = 0 := by
    apply Lib.refs_eq_zero_iff.mpr
    intro p hp
    rw [NhState.ref, hmem p]
    exact hnone p (hsub hp)
  rw [h' g hg, hnone']
  omega

end RefBalance

section Steps

variable {G : Nat → Prop} {c : Nat → Int} {s t : NhState} {built : Built} {slot : Nat}

theorem places_clear_subset (built : Built) (slot : Nat) :
    places (Function.update built slot 0) ⊆ places built := by
  intro p hp
  obtain ⟨hlt, hbuilt⟩ := mem_places.mp hp
  rw [Function.update_apply] at hbuilt
  split at hbuilt
  · exact absurd hbuilt (Nat.not_lt_zero _)
  · exact mem_places.mpr ⟨hlt, hbuilt⟩

theorem RefBalance.releaseMembers (h : RefBalance G c (places built) s)
    (hslot : slot < MAX_NEXTHOP_GRP_SIZE) :
    RefBalance G c (places (Function.update built slot 0))
      (releaseMembers s slot (built slot)) := by
  rw [← placesFrom_all]
  rw [← placesFrom_zero built slot] at h
  apply Lib.forUpTo_rule (fun j t => RefBalance G c (placesFrom built slot j) t) h
  intro j t hj ht
  rw [placesFrom_succ]
  apply ht.release (mem_placesFrom hslot hj)
  · intro q
    exact member_releaseMember ..
  · intro g
    exact refcnt_releaseMember ..

/-- Giving up gateways alone keeps the balance if the members refer to no group. -/
theorem RefBalance.releaseInfos (h : RefBalance G c (places built) s)
    (hslot : slot < MAX_NEXTHOP_GRP_SIZE) (href : ∀ j, j < built slot → s.ref ⟨slot, j⟩ = -1) :
    RefBalance G c (places (Function.update built slot 0))
      (releaseInfos s slot (built slot)) := by
  rw [← placesFrom_all]
  rw [← placesFrom_zero built slot] at h
  have hboth : RefBalance G c (placesFrom built slot (built slot))
        (SdPlane.releaseInfos s slot (built slot))
      ∧ ∀ q, (SdPlane.releaseInfos s slot (built slot)).member q = s.member q := by
    apply Lib.forUpTo_rule
      (fun j t => RefBalance G c (placesFrom built slot j) t ∧ ∀ q, t.member q = s.member q)
      ⟨h, fun _ => rfl⟩
    intro j t hj ht
    obtain ⟨hbal, hmem⟩ := ht
    refine ⟨?_, ?_⟩
    · rw [placesFrom_succ]
      apply hbal.release (mem_placesFrom hslot hj)
      · intro q
        exact member_infoRelease ..
      · intro g
        have hnone : t.ref ⟨slot, j⟩ = -1 := by
          rw [NhState.ref, hmem]
          exact href j hj
        rw [refcnt_infoRelease, hnone, if_neg (by omega), Int.sub_zero]
    · intro q
      rw [member_infoRelease, hmem]
  exact hboth.1

/-- Clearing a slot of which nothing counts, and to which nothing refers. -/
theorem RefBalance.clear (h : RefBalance G c (places (Function.update built slot 0)) s)
    (hzero : G slot → s.refcnt slot = 0) :
    RefBalance G c (places (Function.update built slot 0)) (s.clearGroup slot) := by
  apply h.congr
  · intro g hg
    rw [NhState.refcnt_clearGroup]
    split
    · next heq =>
      subst heq
      exact (hzero hg).symm
    · rfl
  · intro p hp
    rw [NhState.member_clearGroup, if_neg (ne_of_mem_places hp)]

theorem RefBalance.reserve (h : RefBalance G c (places built) s) (e : InternalMsgNhEntry)
    (hzero : G slot → s.refcnt slot = 0) : RefBalance G c (places built) (reserve s slot e) := by
  apply h.congr
  · intro g hg
    rw [refcnt_reserve]
    split
    · next heq =>
      subst heq
      exact (hzero hg).symm
    · rfl
  · intro p _
    exact member_reserve ..

/-- Setting the next member of a half-built group. -/
theorem RefBalance.takeNext (h : RefBalance G c (places built) s)
    (hslot : slot < MAX_NEXTHOP_GRP_SIZE) {m : NhMember}
    (hmem : ∀ q, t.member q = if q = ⟨slot, built slot⟩ then m else s.member q)
    (hrefcnt : ∀ g : Nat, t.refcnt g = s.refcnt g + if m.refSdplaneNhId = g then 1 else 0) :
    RefBalance G c (places (Function.update built slot (built slot + 1))) t := by
  have href : t.ref ⟨slot, built slot⟩ = m.refSdplaneNhId := by
    rw [NhState.ref, hmem, if_pos rfl]
  rw [places_succ hslot]
  apply h.take notMem_places_next
  · intro q hq
    rw [hmem, if_neg hq]
  · intro g
    rw [href]
    exact hrefcnt g

theorem RefBalance.share (h : RefBalance G c (places built) s)
    (hslot : slot < MAX_NEXTHOP_GRP_SIZE) (refSlot w : Nat) :
    RefBalance G c (places (Function.update built slot (built slot + 1)))
      (shareMember s slot (built slot) refSlot w) := by
  apply h.takeNext hslot (m := ⟨refSlot, s.info ⟨refSlot, 0⟩, w⟩)
  · intro q
    exact member_shareMember ..
  · intro g
    rw [refcnt_shareMember]
    simp only [Nat.cast_inj, eq_comm]

/-- A member that refers to no group. -/
theorem RefBalance.takeOwn (h : RefBalance G c (places built) s)
    (hslot : slot < MAX_NEXTHOP_GRP_SIZE) {idx : Int} {w : Nat}
    (hmem : ∀ q, t.member q = if q = ⟨slot, built slot⟩ then ⟨-1, idx, w⟩ else s.member q)
    (hrefcnt : ∀ g, t.refcnt g = s.refcnt g) :
    RefBalance G c (places (Function.update built slot (built slot + 1))) t := by
  apply h.takeNext hslot hmem
  intro g
  rw [hrefcnt, if_neg (by simp only; omega), Int.add_zero]

theorem RefBalance.alloc (h : RefBalance G c (places built) s)
    (hslot : slot < MAX_NEXTHOP_GRP_SIZE) {src : NhInfo} {idx w : Nat}
    (halloc : infoAlloc s src = some (idx, t)) :
    RefBalance G c (places (Function.update built slot (built slot + 1)))
      (t.setMember slot (built slot) ⟨-1, idx, w⟩) := by
  apply h.takeOwn hslot (w := w)
  · intro q
    rw [NhState.member_setMember, member_infoAlloc halloc]
  · intro g
    rw [NhState.refcnt_setMember, refcnt_infoAlloc halloc]

theorem RefBalance.unresolved (h : RefBalance G c (places built) s)
    (hslot : slot < MAX_NEXTHOP_GRP_SIZE) (w : Nat) :
    RefBalance G c (places (Function.update built slot (built slot + 1)))
      (s.setMember slot (built slot) ⟨-1, -1, w⟩) := by
  apply h.takeOwn hslot (w := w)
  · intro q
    exact NhState.member_setMember ..
  · intro g
    exact NhState.refcnt_setMember ..

end Steps

/-! ## Additions -/

/-- An entry can be added without a count going wrong. -/
structure AddSafe (malloc : Bool) (s : NhState) (nh : InternalMsgNhEntry) : Prop where
  /-- nothing refers to the slot that is free for the group -/
  slot : ∀ slot, findSlot s = some slot → s.refcnt slot = 0
  /-- nor to one that is taken for an auxiliary group -/
  free : Multipath nh → ∀ g, TakenFor malloc s nh g → s.refcnt g = 0
  /-- which no member names by a kernel id, either -/
  named : Multipath nh → ∀ g, TakenFor malloc s nh g → ∀ j < nh.nhcnt,
    nexthopGetIndexByNhid s (nh.members j).kernelNhId ≠ some g
  /-- a group that is given up again has not referred to another -/
  back : ¬Multipath nh → ∀ i, GivesUp malloc s nh i → ∀ j < i, Unshared s (nh.members j)

/-- Nothing refers to the slots in which groups are made, while a group is being filled: not to the
    new one, but for the new group itself, and not to one of an auxiliary group before it is
    made. -/
structure Unreferenced (malloc : Bool) (s₀ : NhState) (nh : InternalMsgNhEntry) (c : Nat → Int)
    (built : Built) (s : NhState) : Prop where
  new : ∀ slot, findSlot s₀ = some slot →
    c slot = 0 ∧ ∀ p ∈ places built, p.1 ≠ slot → s.ref p ≠ slot
  aux : Multipath nh → ∀ g, TakenFor malloc s₀ nh g → s₀.cnt g = 0 → s.cnt g ≠ 1 →
    s.refcnt g = 0

namespace Unreferenced

variable {malloc : Bool} {s₀ s t : NhState} {nh : InternalMsgNhEntry} {c : Nat → Int}
  {built : Built} {slot : Nat}

theorem congr (h : Unreferenced malloc s₀ nh c built s) (hcnt : ∀ g, t.cnt g = s.cnt g)
    (hrefcnt : ∀ g, t.refcnt g = s.refcnt g) (hmem : ∀ q, t.member q = s.member q) :
    Unreferenced malloc s₀ nh c built t where
  new slot hslot := by
    obtain ⟨hc, hnone⟩ := h.new slot hslot
    refine ⟨hc, fun p hp hne => ?_⟩
    rw [NhState.ref, hmem]
    exact hnone p hp hne
  aux hmulti g htaken hfree := by
    rw [hcnt, hrefcnt]
    exact h.aux hmulti g htaken hfree

theorem reserve (h : Unreferenced malloc s₀ nh c built s) (slot : Nat) (e : InternalMsgNhEntry) :
    Unreferenced malloc s₀ nh c built (reserve s slot e) where
  new g hg := by
    obtain ⟨hc, hnone⟩ := h.new g hg
    refine ⟨hc, fun p hp hne => ?_⟩
    rw [NhState.ref, member_reserve]
    exact hnone p hp hne
  aux hmulti g htaken hfree hone := by
    rw [refcnt_reserve]
    split
    · rfl
    · next hne =>
      rw [cnt_reserve, if_neg hne] at hone
      exact h.aux hmulti g htaken hfree hone

/-- Of a slot that is cleared nothing counts. -/
theorem clear (h : Unreferenced malloc s₀ nh c (Function.update built slot 0) s) :
    Unreferenced malloc s₀ nh c (Function.update built slot 0) (s.clearGroup slot) where
  new g hg := by
    obtain ⟨hc, hnone⟩ := h.new g hg
    refine ⟨hc, fun p hp hne => ?_⟩
    rw [NhState.ref, NhState.member_clearGroup, if_neg (ne_of_mem_places hp)]
    exact hnone p hp hne
  aux hmulti g htaken hfree hone := by
    rw [NhState.refcnt_clearGroup]
    split
    · rfl
    · next hne =>
      rw [NhState.cnt_clearGroup, if_neg hne] at hone
      exact h.aux hmulti g htaken hfree hone

/-- One more member, which refers to no group unless it is one of the new group. -/
theorem take (h : Unreferenced malloc s₀ nh c built s) (hslot : slot < MAX_NEXTHOP_GRP_SIZE)
    {m : NhMember}
    (hmem : ∀ q, t.member q = if q = ⟨slot, built slot⟩ then m else s.member q)
    (href : m.refSdplaneNhId = -1 ∨ findSlot s₀ = some slot)
    (haux : Multipath nh → ∀ g, TakenFor malloc s₀ nh g → s₀.cnt g = 0 → t.cnt g ≠ 1 →
      t.refcnt g = 0) :
    Unreferenced malloc s₀ nh c (Function.update built slot (built slot + 1)) t where
  new g hg := by
    obtain ⟨hc, hnone⟩ := h.new g hg
    refine ⟨hc, fun p hp hne => ?_⟩
    rw [NhState.ref, hmem]
    rw [places_succ hslot] at hp
    split
    · next heq =>
      rcases href with href | hnew
      · omega
      · obtain rfl := Option.some.inj (hnew.symm.trans hg)
        exact absurd (heq ▸ rfl) hne
    · next hother => exact hnone p (Finset.mem_of_mem_insert_of_ne hp hother) hne
  aux := haux

/-- What is shared is not one of the slots that are still to be taken. -/
theorem share (h : Unreferenced malloc s₀ nh c built s) (hslot : slot < MAX_NEXTHOP_GRP_SIZE)
    (hnamed : Multipath nh → ∀ g, TakenFor malloc s₀ nh g → ∀ j < nh.nhcnt,
      nexthopGetIndexByNhid s₀ (nh.members j).kernelNhId ≠ some g)
    (hnew : findSlot s₀ = some slot) {refSlot : Nat} (hshare : Shareable s₀ nh s refSlot)
    (w : Nat) :
    Unreferenced malloc s₀ nh c (Function.update built slot (built slot + 1))
      (shareMember s slot (built slot) refSlot w) := by
  apply h.take hslot (m := ⟨refSlot, s.info ⟨refSlot, 0⟩, w⟩) (fun q => member_shareMember ..)
    (.inr hnew)
  intro hmulti g htaken hfree hone
  rw [cnt_shareMember] at hone
  have hne : g ≠ refSlot := by
    intro heq
    subst heq
    rcases hshare with ⟨-, -, hbusy | haux⟩ | ⟨j, hj, hsome⟩
    · exact hbusy hfree
    · exact hone haux
    · exact hnamed hmulti g htaken j hj hsome
  rw [refcnt_shareMember, if_neg hne, Int.add_zero]
  exact h.aux hmulti g htaken hfree hone

/-- A member without a group. -/
theorem takeOwn (h : Unreferenced malloc s₀ nh c built s) (hslot : slot < MAX_NEXTHOP_GRP_SIZE)
    {idx : Int} {w : Nat}
    (hmem : ∀ q, t.member q = if q = ⟨slot, built slot⟩ then ⟨-1, idx, w⟩ else s.member q)
    (hcnt : ∀ g, t.cnt g = s.cnt g) (hrefcnt : ∀ g, t.refcnt g = s.refcnt g) :
    Unreferenced malloc s₀ nh c (Function.update built slot (built slot + 1)) t := by
  apply h.take hslot hmem (.inl rfl)
  intro hmulti g
  rw [hcnt, hrefcnt]
  exact h.aux hmulti g

/-- Once the members of the new group are given up, nothing refers to it. -/
theorem zero {G : Nat → Prop} (h : Unreferenced malloc s₀ nh c (Function.update built slot 0) s)
    (hbal : RefBalance G c (places (Function.update built slot 0)) s) (hG : G slot)
    (hnew : findSlot s₀ = some slot) : s.refcnt slot = 0 := by
  obtain ⟨hc, hnone⟩ := h.new slot hnew
  have hrefs : Lib.refs (places (Function.update built slot 0)) s.ref (slot : Int) = 0 :=
    Lib.refs_eq_zero_iff.mpr fun p hp => hnone p hp (ne_of_mem_places hp)
  rw [hbal slot hG, hrefs, hc, Int.add_zero]

/-- Fewer places count, and a count that was zero still is. -/
theorem mono {built' : Built} (h : Unreferenced malloc s₀ nh c built s)
    (hsub : places built' ⊆ places built) (hmem : ∀ q, t.member q = s.member q)
    (hcnt : ∀ g, t.cnt g = s.cnt g) (hrefcnt : ∀ g, s.refcnt g = 0 → t.refcnt g = 0) :
    Unreferenced malloc s₀ nh c built' t where
  new g hg := by
    obtain ⟨hc, hnone⟩ := h.new g hg
    refine ⟨hc, fun p hp hne => ?_⟩
    rw [NhState.ref, hmem]
    exact hnone p (hsub hp) hne
  aux hmulti g htaken hfree hone := by
    rw [hcnt] at hone
    exact hrefcnt g (h.aux hmulti g htaken hfree hone)

end Unreferenced

/-- **The balance survives every safe addition.** -/
theorem poolInv_refBalance {malloc : Bool} {s₀ : NhState} {nh : InternalMsgNhEntry}
    {c : Nat → Int} (hsafe : AddSafe malloc s₀ nh) (hc : ∀ g, 0 ≤ c g) :
    PoolInv malloc s₀ nh (fun i => ∀ j < i, Unshared s₀ (nh.members j)) (TakenFor malloc s₀ nh)
      fun built s => RefBalance (fun _ => True) c (places built) s
        ∧ Unreferenced malloc s₀ nh c built s where
  reserve built s slot e h _ hcnt hfree hwhich := by
    refine ⟨h.1.reserve e fun _ => ?_, h.2.reserve slot e⟩
    rcases hwhich with ⟨rfl, hslot, -⟩ | ⟨hmulti, -, htaken⟩
    · exact hsafe.slot slot hslot
    · exact h.2.aux hmulti slot htaken hfree (by omega)
  abandon built s slot e h _ hcnt hfree hbuilt hmulti htaken := by
    have hzero := h.2.aux hmulti slot htaken hfree (by omega)
    have hstart := h.1.reserve e fun _ => hzero
    have hnone := h.2.reserve slot e
    rw [← (hbuilt ▸ Function.update_eq_self slot built : Function.update built slot 0 = built)]
      at hstart hnone ⊢
    refine ⟨hstart.clear fun _ => ?_, hnone.clear⟩
    rw [refcnt_reserve, if_pos rfl]
  unresolved built s slot w h hslot _ :=
    ⟨h.1.unresolved hslot w, h.2.takeOwn hslot (w := w) (fun _ => NhState.member_setMember ..)
      (fun _ => NhState.cnt_setMember ..) fun _ => NhState.refcnt_setMember ..⟩
  share built s slot refSlot w h hslot _ hnew hshare :=
    ⟨h.1.share hslot refSlot w, h.2.share hslot hsafe.named hnew hshare w⟩
  alloc built s slot src idx t w h hslot _ halloc :=
    ⟨h.1.alloc hslot halloc, h.2.takeOwn hslot (w := w)
      (fun _ => by rw [NhState.member_setMember, member_infoAlloc halloc])
      (fun _ => by rw [NhState.cnt_setMember, cnt_infoAlloc halloc])
      fun _ => by rw [NhState.refcnt_setMember, refcnt_infoAlloc halloc]⟩
  rollback built s slot h hslot _ _ hnew _ := by
    have hrel := h.1.releaseMembers hslot
    have hkept := headsKept_releaseMembers s slot (built slot)
    -- nothing refers to a slot with a count of zero, so giving references up does not change it
    have hnone := h.2.mono (places_clear_subset built slot) hkept.member hkept.cnt fun g hg =>
      h.1.zero_mono hrel (places_clear_subset built slot) hkept.member trivial (hc g) hg
    exact ⟨hrel.clear fun _ => hnone.zero hrel trivial hnew, hnone.clear⟩
  rollbackInfos built s slot h hslot _ hback _ hnew _ href := by
    have hkept := headsKept_releaseInfos s slot (built slot)
    have hrel := h.1.releaseInfos hslot fun j hj => href j hj (hback j hj)
    have hnone := h.2.mono (places_clear_subset built slot) hkept.1.member hkept.1.cnt
      fun g hg => (hkept.2 g).trans hg
    exact ⟨hrel.clear fun _ => hnone.zero hrel trivial hnew, hnone.clear⟩
  top built s t h := ⟨h.1, h.2.congr (fun _ => rfl) (fun _ => rfl) fun _ => rfl⟩
  hash built s ht h := ⟨h.1, h.2.congr (fun _ => rfl) (fun _ => rfl) fun _ => rfl⟩

/-! ## The entry points -/

section Calls

variable {c : Nat → Int} {s : NhState}

theorem refBalance_nexthopAddEntry (h : RefBalance (fun _ => True) c (live s) s)
    (hc : ∀ g, 0 ≤ c g) (htop : s.groupsTop < MAX_NEXTHOP_GRP_SIZE) (malloc : Bool)
    (nh : InternalMsgNhEntry) (hsafe : findExisting s nh = none → AddSafe malloc s nh) :
    RefBalance (fun _ => True) c (live (nexthopAddEntry malloc s nh).1)
      (nexthopAddEntry malloc s nh).1 := by
  cases hex : findExisting s nh with
  | some g =>
    have hsame : nexthopAddEntry malloc s nh = (s, some g) := by
      simp only [nexthopAddEntry, addEntryWith, hex]
    rw [hsame]
    exact h
  | none =>
    have hadd := hsafe hex
    have hstart : Unreferenced malloc s nh c s.cnt s := by
      refine ⟨fun slot hslot => ?_, fun hmulti g htaken _ _ => hadd.free hmulti g htaken⟩
      have hbal := h slot trivial
      have hrefs := Lib.refs_nonneg (live s) s.ref (slot : Int)
      have hroutes := hc slot
      rw [hadd.slot slot hslot] at hbal
      have hnone : Lib.refs (live s) s.ref (slot : Int) = 0 := by omega
      exact ⟨by omega, fun p hp _ => Lib.refs_eq_zero_iff.mp hnone p hp⟩
    obtain ⟨built, hgrown⟩ := (poolInv_refBalance hadd hc).addEntry ⟨h, hstart⟩
      (fun _ hg => hg) htop (fun _ _ htaken => htaken) fun i hgives => by
        by_cases hmulti : Multipath nh
        · exact .inr hmulti
        · exact .inl (hadd.back hmulti i hgives)
    exact hgrown.complete.1

theorem refBalance_freeGroup {G : Nat → Prop} (h : RefBalance G c (live s) s) {slot : Nat}
    (hslot : slot < MAX_NEXTHOP_GRP_SIZE)
    (hunused : G slot → c slot = 0 ∧ ∀ p ∈ live s, p.1 ≠ slot → s.ref p ≠ slot) :
    RefBalance G c (live (freeGroup s slot)) (freeGroup s slot) := by
  rw [live, cnt_freeGroup]
  have hrel := h.releaseMembers hslot
  apply hrel.clear
  intro hG
  obtain ⟨hc, hnone⟩ := hunused hG
  have hzero : Lib.refs (places (Function.update s.cnt slot 0))
      (releaseMembers s slot (s.cnt slot)).ref (slot : Int) = 0 := by
    apply Lib.refs_eq_zero_iff.mpr
    intro p hp
    rw [NhState.ref, (headsKept_releaseMembers s slot (s.cnt slot)).member]
    exact hnone p (places_clear_subset _ _ hp) (ne_of_mem_places hp)
  show (releaseMembers s slot (s.cnt slot)).refcnt slot = 0
  rw [hrel slot hG, hzero, hc, Int.add_zero]

/-- A reference of a route comes or goes. -/
theorem RefBalance.addRef {G : Nat → Prop} {H : Finset Place} (h : RefBalance G c H s) (slot : Nat)
    (d : Int) : RefBalance G (fun g => c g + if g = slot then d else 0) H (s.addRef slot d) := by
  intro g hg
  rw [NhState.refcnt_addRef, h g hg, ← Int.add_assoc]
  congr 2
  apply Lib.refs_congr
  intro p _
  rw [NhState.ref, NhState.ref, NhState.member_addRef]

end Calls

end SdPlane
