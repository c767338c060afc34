import SdPlane.NexthopSpec

/-!
# Invariants of the pools while a group is being filled

Between two calls of `nexthop.c` the members that count are those of the groups, `j < nhcnt`.
Inside `nexthop_add_entry` that is not so: the new slot has its `nhcnt` from the start and
its members one by one, and the recursive call runs in between. So an invariant is stated
over `built`, the number of members of each slot that count already. `PoolInv` lists what an
invariant has to survive, one field for each thing that happens to the pools, and the loop,
its two roll-backs and the recursion are gone through here once (`PoolInv.populate`,
`PoolInv.addEntry`).

`s₀` is the state in which the call was made and `nh` its entry. Both are fixed, so that an
invariant may speak of what was there before. Every slot but the new one is `SlotKept`: it is
as before, or it was free and now holds one of the auxiliary groups.
-/

set_option autoImplicit false

namespace SdPlane

/-- The number of members of each slot that count. -/
abbrev Built := ℕ → ℕ

/-- An entry without a kernel id and with several members: the one kind that recursive calls are
    made for. -/
abbrev Multipath (nh : InternalMsgNhEntry) : Prop := nh.nhcnt > 1 ∧ nh.kernelNhId = 0

/-- The member refers to no group that was there. -/
def Unshared (s : NhState) (m : InternalMsgNhMember) : Prop :=
  m.kernelNhId = 0 ∨ nexthopGetIndexByNhid s m.kernelNhId = none

/-- The group that a member is about to share a gateway with: one that was there before, or an
    auxiliary one, or, named by a kernel id, any slot that the hash table leads to. -/
def Shareable (s₀ : NhState) (nh : InternalMsgNhEntry) (s : NhState) (refSlot : Nat) : Prop :=
  (Multipath nh ∧ s.cnt refSlot ≠ 0 ∧ (s₀.cnt refSlot ≠ 0 ∨ s.cnt refSlot = 1))
    ∨ ∃ j, j < nh.nhcnt ∧ nexthopGetIndexByNhid s₀ (nh.members j).kernelNhId = some refSlot

/-- The members before member `i` are there. -/
def filled (malloc : Bool) (s : NhState) (nh : InternalMsgNhEntry) (slot i : Nat) :
    Except NhState NhState :=
  Lib.forRange i (fun j t => populateMember (addStandalone malloc) nh slot j t) (reserve s slot nh)

/-- A new entry is given up at member `i`, or, after all of them, at the hash table. -/
inductive GivesUp (malloc : Bool) (s : NhState) (nh : InternalMsgNhEntry) (i : Nat) : Prop
  | member (hnew : findExisting s nh = none) (slot : Nat) (hslot : findSlot s = some slot)
      (t : NhState) (hfilled : filled malloc s nh slot i = .ok t) (hi : i < nh.nhcnt) (u : NhState)
      (hround : populateMember (addStandalone malloc) nh slot i t = .error u) :
      GivesUp malloc s nh i
  | hash (hnew : findExisting s nh = none) (slot : Nat) (hslot : findSlot s = some slot)
      (t : NhState) (hfilled : filled malloc s nh slot i = .ok t) (hi : i = nh.nhcnt)
      (hid : nh.kernelNhId ≠ 0) (hins : t.nhHt.insert malloc nh.kernelNhId slot = none) :
      GivesUp malloc s nh i

/-- An auxiliary group is made in slot `g`, or tried: it is the slot that is found for a member
    without a kernel id, of which there is no group yet. -/
def TakenFor (malloc : Bool) (s : NhState) (nh : InternalMsgNhEntry) (g : Nat) : Prop :=
  ∃ slot, findSlot s = some slot ∧ ∃ i < nh.nhcnt, (nh.members i).kernelNhId = 0
    ∧ ∃ t, filled malloc s nh slot i = .ok t
      ∧ findExisting t (standaloneEntry (nh.members i)) = none ∧ findSlot t = some g

/-- What must keep an invariant `I` of the pools. Auxiliary groups are made in slots of which `aux`
    holds. The roll-back that forgets which groups the members refer to is gone through only after
    a number of them of which `back` holds. -/
structure PoolInv (malloc : Bool) (s₀ : NhState) (nh : InternalMsgNhEntry) (back aux : Nat → Prop)
    (I : Built → NhState → Prop) : Prop where
  reserve : ∀ built s slot e, I built s → slot < MAX_NEXTHOP_GRP_SIZE → s.cnt slot = 0 →
    s₀.cnt slot = 0 →
    (s = s₀ ∧ findSlot s₀ = some slot ∧ e = nh ∨ Multipath nh ∧ e.nhcnt = 1 ∧ aux slot) →
    I built (SdPlane.reserve s slot e)
  /-- an auxiliary group that finds no gateway -/
  abandon : ∀ built s slot e, I built s → slot < MAX_NEXTHOP_GRP_SIZE → s.cnt slot = 0 →
    s₀.cnt slot = 0 → built slot = 0 → Multipath nh → aux slot →
    I built ((SdPlane.reserve s slot e).clearGroup slot)
  unresolved : ∀ built s slot w, I built s → slot < MAX_NEXTHOP_GRP_SIZE → s₀.cnt slot = 0 →
    I (Function.update built slot (built slot + 1)) (s.setMember slot (built slot) ⟨-1, -1, w⟩)
  share : ∀ built s slot refSlot w, I built s → slot < MAX_NEXTHOP_GRP_SIZE →
    s₀.cnt slot = 0 → findSlot s₀ = some slot → Shareable s₀ nh s refSlot →
    I (Function.update built slot (built slot + 1)) (shareMember s slot (built slot) refSlot w)
  alloc : ∀ built s slot src idx t w, I built s → slot < MAX_NEXTHOP_GRP_SIZE →
    s₀.cnt slot = 0 → infoAlloc s src = some (idx, t) →
    I (Function.update built slot (built slot + 1)) (t.setMember slot (built slot) ⟨-1, idx, w⟩)
  rollback : ∀ built s slot, I built s → slot < MAX_NEXTHOP_GRP_SIZE → s₀.cnt slot = 0 →
    Multipath nh → findSlot s₀ = some slot → s.cnt slot = nh.nhcnt →
    I (Function.update built slot 0) ((releaseMembers s slot (built slot)).clearGroup slot)
  rollbackInfos : ∀ built s slot, I built s → slot < MAX_NEXTHOP_GRP_SIZE → s₀.cnt slot = 0 →
    back (built slot) → ¬Multipath nh → findSlot s₀ = some slot → built slot ≤ nh.nhcnt →
    (∀ j, j < built slot → Unshared s₀ (nh.members j) → s.ref ⟨slot, j⟩ = -1) →
    I (Function.update built slot 0) ((releaseInfos s slot (built slot)).clearGroup slot)
  top : ∀ built s t, I built s → I built { s with groupsTop := t }
  hash : ∀ built s ht, I built s → I built { s with nhHt := ht }

/-- A slot is as before, or was free and holds a group without a kernel id. -/
def SlotKept (s : NhState) (built : Built) (s' : NhState) (built' : Built) (g : Nat) : Prop :=
  (s'.cnt g = s.cnt g ∧ s'.kernel g = s.kernel g ∧ built' g = built g)
    ∨ (s.cnt g = 0 ∧ s'.kernel g = 0 ∧ built' g = s'.cnt g)

theorem SlotKept.refl {s : NhState} {built : Built} {g : Nat} : SlotKept s built s built g :=
  .inl ⟨rfl, rfl, rfl⟩

theorem SlotKept.trans {s s' s'' : NhState} {built built' built'' : Built} {g : Nat}
    (h : SlotKept s built s' built' g) (h' : SlotKept s' built' s'' built'' g) :
    SlotKept s built s'' built'' g := by
  rcases h with ⟨hcnt, hkernel, hbuilt⟩ | ⟨hfree, hkernel, hbuilt⟩
  · rcases h' with ⟨hcnt', hkernel', hbuilt'⟩ | ⟨hfree', hkernel', hbuilt'⟩
    · exact .inl ⟨hcnt'.trans hcnt, hkernel'.trans hkernel, hbuilt'.trans hbuilt⟩
    · exact .inr ⟨hcnt ▸ hfree', hkernel', hbuilt'⟩
  · rcases h' with ⟨hcnt', hkernel', hbuilt'⟩ | ⟨-, hkernel', hbuilt'⟩
    · exact .inr ⟨hfree, hkernel'.trans hkernel, by rw [hbuilt', hbuilt, hcnt']⟩
    · exact .inr ⟨hfree, hkernel', hbuilt'⟩

theorem SlotKept.busy {s s' : NhState} {built built' : Built} {g : Nat}
    (h : SlotKept s built s' built' g) (hg : s.cnt g ≠ 0) :
    s'.cnt g = s.cnt g ∧ s'.kernel g = s.kernel g ∧ built' g = built g :=
  h.resolve_right fun hfree => hg hfree.1

theorem SlotKept.free {s s' : NhState} {built built' : Built} {g : Nat}
    (h : SlotKept s built s' built' g) (hg : s'.cnt g = 0) : s.cnt g = 0 := by
  rcases h with ⟨hcnt, -, -⟩ | ⟨hfree, -, -⟩
  · rw [← hcnt, hg]
  · exact hfree

/-- Changes that keep the heads of all slots and what of them counts. -/
theorem SlotKept.of_eq {s s' : NhState} {built built' : Built} {g : Nat}
    (hcnt : s'.cnt g = s.cnt g) (hkernel : s'.kernel g = s.kernel g) (hb : built' g = built g) :
    SlotKept s built s' built' g := .inl ⟨hcnt, hkernel, hb⟩

/-- A group is being filled in `slot`: `i` of its members are there. -/
structure Filling (s₀ : NhState) (nh : InternalMsgNhEntry) (slot : Nat)
    (I : Built → NhState → Prop) (built₀ : Built) (i : Nat) (s : NhState) (built : Built) :
    Prop where
  inv : I built s
  here : built slot = i
  cnt : s.cnt slot = nh.nhcnt
  kernel : s.kernel slot = nh.kernelNhId
  others : ∀ g, g ≠ slot → SlotKept s₀ built₀ s built g
  top : s.groupsTop < MAX_NEXTHOP_GRP_SIZE
  nhHt : s.nhHt = s₀.nhHt
  unshared : ¬Multipath nh → ∀ j, j < i → Unshared s₀ (nh.members j) → s.ref ⟨slot, j⟩ = -1

/-- The filling has been rolled back. -/
structure Cleared (s₀ : NhState) (slot : Nat) (I : Built → NhState → Prop) (built₀ : Built)
    (s : NhState) (built : Built) : Prop where
  inv : I built s
  here : built slot = 0
  cnt : s.cnt slot = 0
  kernel : s.kernel slot = 0
  others : ∀ g, g ≠ slot → SlotKept s₀ built₀ s built g
  top : s.groupsTop < MAX_NEXTHOP_GRP_SIZE
  nhHt : s.nhHt = s₀.nhHt

section Fill

variable {s₀ : NhState} {nh : InternalMsgNhEntry} {slot : Nat}
  {I : Built → NhState → Prop} {built₀ : Built}

theorem Filling.start (hinv : I built₀ (reserve s₀ slot nh))
    (hfree : ∀ g, s₀.cnt g = 0 → built₀ g = 0) (htop : s₀.groupsTop < MAX_NEXTHOP_GRP_SIZE)
    (hcnt : s₀.cnt slot = 0) : Filling s₀ nh slot I built₀ 0 (reserve s₀ slot nh) built₀ where
  inv := hinv
  here := hfree slot hcnt
  cnt := by rw [cnt_reserve, if_pos rfl]
  kernel := by rw [kernel_reserve, if_pos rfl]
  others g hg := .of_eq (by rw [cnt_reserve, if_neg hg]) (by rw [kernel_reserve, if_neg hg]) rfl
  top := htop
  nhHt := rfl
  unshared _ j hj := absurd hj (Nat.not_lt_zero j)

/-- The members of a half-built group are given up, by one of the two roll-backs. -/
theorem Filling.clear {i : Nat} {s t : NhState} {built : Built}
    (h : Filling s₀ nh slot I built₀ i s built) (ht : HeadsKept s t)
    (hinv : I (Function.update built slot 0) (t.clearGroup slot)) :
    Cleared s₀ slot I built₀ (t.clearGroup slot) (Function.update built slot 0) where
  inv := hinv
  here := Function.update_self ..
  cnt := by rw [NhState.cnt_clearGroup, if_pos rfl]
  kernel := by rw [NhState.kernel_clearGroup, if_pos rfl]
  others g hg := (h.others g hg).trans (.of_eq (by rw [NhState.cnt_clearGroup, if_neg hg, ht.cnt])
    (by rw [NhState.kernel_clearGroup, if_neg hg, ht.kernel]) (Function.update_of_ne hg ..))
  top := by rw [NhState.groupsTop_clearGroup, ht.groupsTop]; exact h.top
  nhHt := by rw [NhState.nhHt_clearGroup, ht.nhHt]; exact h.nhHt

/-- Seen from the call, a slot that is cleared again is as it was. -/
theorem Cleared.slotKept {s : NhState} {built : Built} (h : Cleared s₀ slot I built₀ s built)
    (hcnt : s₀.cnt slot = 0) (g : Nat) : SlotKept s₀ built₀ s built g := by
  by_cases hg : g = slot
  · subst hg
    exact .inr ⟨hcnt, h.kernel, by rw [h.here, h.cnt]⟩
  · exact h.others g hg

/-- One more member is there: `t` is `s` with member `i` set, up to reference counts. -/
theorem Filling.next {i : Nat} {s t : NhState} {built : Built} {m : NhMember}
    (h : Filling s₀ nh slot I built₀ i s built)
    (hinv : I (Function.update built slot (built slot + 1)) t)
    (hcnt : ∀ g, t.cnt g = s.cnt g) (hkernel : ∀ g, t.kernel g = s.kernel g)
    (hmem : ∀ p, t.member p = if p = ⟨slot, built slot⟩ then m else s.member p)
    (htop : t.groupsTop = s.groupsTop) (hht : t.nhHt = s.nhHt)
    (hm : ¬Multipath nh → Unshared s₀ (nh.members i) → m.refSdplaneNhId = -1) :
    Filling s₀ nh slot I built₀ (i + 1) t (Function.update built slot (built slot + 1)) where
  inv := hinv
  here := by rw [Function.update_self, h.here]
  cnt := by rw [hcnt, h.cnt]
  kernel := by rw [hkernel, h.kernel]
  others g hg := (h.others g hg).trans (.of_eq (hcnt g) (hkernel g) (Function.update_of_ne hg ..))
  top := by rw [htop]; exact h.top
  nhHt := by rw [hht]; exact h.nhHt
  unshared hown j hj hid := by
    rw [NhState.ref, hmem]
    by_cases hji : j = i
    · rw [if_pos (by rw [h.here, hji])]
      exact hm hown (hji ▸ hid)
    · have hne : (⟨slot, j⟩ : Place) ≠ ⟨slot, built slot⟩ := by
        rw [h.here]
        exact fun heq => hji (by simpa using heq)
      rw [if_neg hne]
      exact h.unshared hown j (by omega) hid

/-- The group is complete. -/
theorem Filling.slotKept {s : NhState} {built : Built}
    (h : Filling s₀ nh slot I built₀ nh.nhcnt s built) (hid : nh.kernelNhId = 0)
    (hcnt : s₀.cnt slot = 0) (g : Nat) : SlotKept s₀ built₀ s built g := by
  by_cases hg : g = slot
  · subst hg
    exact .inr ⟨hcnt, by rw [h.kernel, hid], by rw [h.here, h.cnt]⟩
  · exact h.others g hg

/-- A member with a gateway of its own. -/
theorem Filling.own {i : Nat} {s t : NhState} {built : Built} {src : NhInfo} {idx w : Nat}
    (h : Filling s₀ nh slot I built₀ i s built) (halloc : infoAlloc s src = some (idx, t))
    (hinv : I (Function.update built slot (built slot + 1))
      (t.setMember slot (built slot) ⟨-1, idx, w⟩)) :
    Filling s₀ nh slot I built₀ (i + 1) (t.setMember slot (built slot) ⟨-1, idx, w⟩)
      (Function.update built slot (built slot + 1)) := by
  apply h.next hinv (m := ⟨-1, idx, w⟩)
  · intro g; rw [NhState.cnt_setMember, cnt_infoAlloc halloc]
  · intro g; rw [NhState.kernel_setMember, kernel_infoAlloc halloc]
  · intro p; rw [NhState.member_setMember, member_infoAlloc halloc]
  · exact (rest_infoAlloc halloc).2
  · exact (rest_infoAlloc halloc).1
  · exact fun _ _ => rfl

/-- A member that shares the gateway of a group. -/
theorem Filling.shared {i : Nat} {s : NhState} {built : Built} {refSlot w : Nat}
    (h : Filling s₀ nh slot I built₀ i s built)
    (hm : ¬Multipath nh → ¬Unshared s₀ (nh.members i))
    (hinv : I (Function.update built slot (built slot + 1))
      (shareMember s slot (built slot) refSlot w)) :
    Filling s₀ nh slot I built₀ (i + 1) (shareMember s slot (built slot) refSlot w)
      (Function.update built slot (built slot + 1)) := by
  apply h.next hinv (m := ⟨refSlot, s.info ⟨refSlot, 0⟩, w⟩)
  · intro g; rw [cnt_shareMember]
  · intro g; rw [kernel_shareMember]
  · intro p; rw [member_shareMember]
  · exact groupsTop_shareMember ..
  · exact nhHt_shareMember ..
  · exact fun hown hid => absurd hid (hm hown)

/-- The hash table is as it was when the call was made. -/
theorem Filling.index {i : Nat} {s : NhState} {built : Built}
    (h : Filling s₀ nh slot I built₀ i s built) (k : Int) :
    nexthopGetIndexByNhid s k = nexthopGetIndexByNhid s₀ k := by
  unfold nexthopGetIndexByNhid
  rw [h.nhHt]

end Fill

/-! ## The passes -/

section Pass

variable {malloc : Bool} {s₀ : NhState} {nh : InternalMsgNhEntry} {back aux : Nat → Prop}
  {I : Built → NhState → Prop}

/-- What a call leaves behind: every slot is as before, or was free and counts in full. -/
structure Grown (I : Built → NhState → Prop) (s : NhState) (built : Built) (s' : NhState)
    (built' : Built) : Prop where
  inv : I built' s'
  top : s'.groupsTop < MAX_NEXTHOP_GRP_SIZE
  slots : ∀ g, (s'.cnt g = s.cnt g ∧ built' g = built g)
    ∨ (s.cnt g = 0 ∧ built' g = s'.cnt g)

theorem SlotKept.slot {s s' : NhState} {built built' : Built} {g : Nat}
    (h : SlotKept s built s' built' g) :
    (s'.cnt g = s.cnt g ∧ built' g = built g) ∨ (s.cnt g = 0 ∧ built' g = s'.cnt g) :=
  h.imp (fun h => ⟨h.1, h.2.2⟩) fun h => ⟨h.1, h.2.2⟩

/-- The recursive call, made while another group is half built. -/
theorem PoolInv.addStandalone (hI : PoolInv malloc s₀ nh back aux I) {s : NhState} {built : Built}
    (h : I built s) (hfree : ∀ g, s.cnt g = 0 → built g = 0)
    (hs₀ : ∀ g, s.cnt g = 0 → s₀.cnt g = 0) (htop : s.groupsTop < MAX_NEXTHOP_GRP_SIZE)
    (hmulti : Multipath nh) {m : InternalMsgNhMember}
    (hm : m.kernelNhId = 0)
    (haux : findExisting s (standaloneEntry m) = none → ∀ slot, findSlot s = some slot → aux slot)
    {t : NhState} {r : Option Nat}
    (hadd : addStandalone malloc s (standaloneEntry m) = (t, r)) :
    ∃ built', I built' t ∧ t.groupsTop < MAX_NEXTHOP_GRP_SIZE ∧ t.nhHt = s.nhHt
      ∧ (∀ g, SlotKept s built t built' g) ∧ ∀ g, r = some g → t.cnt g = 1 := by
  have hround : ∀ slot u, Round (fun s _ => (s, none)) (standaloneEntry m) slot 0 u
      (populate (fun s _ => (s, none)) (standaloneEntry m) slot u) :=
    fun slot u => populateMember_round _ _ slot 0 u
  have hreserve : ∀ slot, aux slot → slot < MAX_NEXTHOP_GRP_SIZE → s.cnt slot = 0 →
      I built (SdPlane.reserve s slot (standaloneEntry m)) :=
    fun slot haux hlt hz => hI.reserve _ _ _ _ h hlt hz (hs₀ slot hz) (.inr ⟨hmulti, rfl, haux⟩)
  have hres := addEntryWith_result (fun s _ => (s, none)) malloc s (standaloneEntry m)
  rw [show addEntryWith _ malloc s (standaloneEntry m) = (t, r) from hadd] at hres
  cases hres with
  | reused g hex =>
    refine ⟨built, h, htop, rfl, fun _ => .refl, ?_⟩
    intro g' heq
    obtain rfl := Option.some.inj heq
    exact (legacyMatch_iff.mp (legacyFind_some hex).2).2.2.1
  | full hnew hfull => exact ⟨built, h, htop, rfl, fun _ => .refl, by simp⟩
  | rolledBack hnew slot hslot t hpop =>
    obtain ⟨hlt, hz⟩ := findSlot_some hslot htop
    have hstart := Filling.start (hreserve slot (haux hnew slot hslot) hlt hz) hfree htop hz
    have hr := hround slot (SdPlane.reserve s slot (standaloneEntry m))
    rw [hpop] at hr
    cases hr with
    | noStandalone _ hmulti => exact absurd hmulti.1 (Nat.lt_irrefl 1)
    | poolFull =>
      have hclear := hstart.clear (headsKept_releaseInfos _ slot 0).1 (by
        have hclear : Function.update built slot 0 = built := by
          rw [← hfree slot hz, Function.update_eq_self]
        rw [hclear]
        exact hI.abandon _ _ slot _ h hlt hz (hs₀ slot hz) (hfree slot hz) hmulti
          (haux hnew slot hslot))
      exact ⟨_, hclear.inv, hclear.top, hclear.nhHt, hclear.slotKept hz, by simp⟩
  | legacy hnew slot hslot t hpop hid =>
    obtain ⟨hlt, hz⟩ := findSlot_some hslot htop
    have hstart := Filling.start (hreserve slot (haux hnew slot hslot) hlt hz) hfree htop hz
    have hr := hround slot (SdPlane.reserve s slot (standaloneEntry m))
    rw [hpop] at hr
    cases hr with
    | unresolved hid => exact absurd hm hid
    | resolved hid => exact absurd hm hid
    | standalone _ hmulti => exact absurd hmulti.1 (Nat.lt_irrefl 1)
    | inline _ _ idx u halloc =>
      have hinv := hI.alloc _ _ slot _ _ _ m.weight hstart.inv hlt (hs₀ slot hz) halloc
      have hnext := hstart.own halloc hinv
      rw [hstart.here] at hnext
      refine ⟨_, hI.top _ _ _ hnext.inv, groupsTop_updateHint hlt, hnext.nhHt,
        hnext.slotKept rfl hz, ?_⟩
      intro g' heq
      obtain rfl := Option.some.inj heq
      exact hnext.cnt
  | notIndexed hnew slot hslot t hpop hid hins => exact absurd rfl hid
  | indexed hnew slot hslot t hpop hid ht hins => exact absurd rfl hid

variable {built₀ : Built} {slot : Nat}

/-- The state in which a round is entered is related to the state of the call everywhere. -/
theorem Filling.freer {i : Nat} {s : NhState} {built : Built}
    (h : Filling s₀ nh slot I built₀ i s built) (hi : i < nh.nhcnt) {g : Nat}
    (hg : s.cnt g = 0) : g ≠ slot ∧ s₀.cnt g = 0 := by
  have hne : g ≠ slot := by
    rintro rfl
    rw [h.cnt] at hg
    omega
  exact ⟨hne, (h.others g hne).free hg⟩

/-- The recursive call does not touch the group that is being filled. -/
theorem Filling.across {i : Nat} {s t : NhState} {built built' : Built}
    (h : Filling s₀ nh slot I built₀ i s built)
    (hmulti : Multipath nh) (hinv : I built' t)
    (hslots : ∀ g, SlotKept s built t built' g) (htop : t.groupsTop < MAX_NEXTHOP_GRP_SIZE)
    (hht : t.nhHt = s.nhHt) : Filling s₀ nh slot I built₀ i t built' := by
  obtain ⟨hcnt, hkernel, hbuilt⟩ := (hslots slot).busy (by rw [h.cnt]; omega)
  exact
    { inv := hinv
      here := by rw [hbuilt, h.here]
      cnt := by rw [hcnt, h.cnt]
      kernel := by rw [hkernel, h.kernel]
      others := fun g hg => (h.others g hg).trans (hslots g)
      top := htop
      nhHt := by rw [hht, h.nhHt]
      unshared := fun hown => absurd hmulti hown }

/-- One round of the loop over the members. -/
theorem PoolInv.round (hI : PoolInv malloc s₀ nh back aux I)
    (hfree : ∀ g, s₀.cnt g = 0 → built₀ g = 0) (htop : s₀.groupsTop < MAX_NEXTHOP_GRP_SIZE)
    (hslot : findSlot s₀ = some slot) {i : Nat} {s : NhState}
    {built : Built} (h : Filling s₀ nh slot I built₀ i s built) (hi : i < nh.nhcnt)
    (haux : Multipath nh → (nh.members i).kernelNhId = 0 →
      findExisting s (standaloneEntry (nh.members i)) = none → ∀ g, findSlot s = some g → aux g) :
    (∀ s', populateMember (SdPlane.addStandalone malloc) nh slot i s = .ok s' →
        ∃ built', Filling s₀ nh slot I built₀ (i + 1) s' built')
      ∧ ∀ s', populateMember (SdPlane.addStandalone malloc) nh slot i s = .error s' →
        back i ∨ Multipath nh → ∃ built', Cleared s₀ slot I built₀ s' built' := by
  obtain ⟨hlt, hz⟩ := findSlot_some hslot htop
  obtain rfl : built slot = i := h.here
  have hcall : ∀ t r, (nh.members (built slot)).kernelNhId = 0 → Multipath nh →
      SdPlane.addStandalone malloc s (standaloneEntry (nh.members (built slot))) = (t, r) →
      ∃ built', Filling s₀ nh slot I built₀ (built slot) t built'
        ∧ ∀ g, r = some g → t.cnt g = 1 := by
    intro t r hid hmulti hself
    obtain ⟨built', hinv, htop, hht, hslots, hr⟩ := hI.addStandalone h.inv
      (fun g hg => by
        obtain ⟨hne, hg₀⟩ := h.freer hi hg
        rcases h.others g hne with ⟨-, -, hb⟩ | ⟨-, -, hb⟩
        · rw [hb, hfree g hg₀]
        · rw [hb, hg])
      (fun g hg => (h.freer hi hg).2) h.top hmulti hid (haux hmulti hid) hself
    exact ⟨built', h.across hmulti hinv hslots htop hht, hr⟩
  have hround := populateMember_round (SdPlane.addStandalone malloc) nh slot (built slot) s
  generalize populateMember (SdPlane.addStandalone malloc) nh slot (built slot) s = res at hround
  cases hround with
  | unresolved hid hnone =>
    refine ⟨fun s' heq => ?_, fun s' heq => by cases heq⟩
    obtain rfl := Except.ok.inj heq
    have hinv := hI.unresolved _ _ slot (nh.members (built slot)).weight h.inv hlt hz
    refine ⟨_, h.next (m := ⟨-1, -1, (nh.members (built slot)).weight⟩) hinv (fun g => ?_)
      (fun g => ?_) (fun p => ?_) rfl rfl fun _ _ => rfl⟩
    · rw [NhState.cnt_setMember]
    · rw [NhState.kernel_setMember]
    · rw [NhState.member_setMember]
  | resolved hid refSlot hsome =>
    refine ⟨fun s' heq => ?_, fun s' heq => by cases heq⟩
    obtain rfl := Except.ok.inj heq
    rw [h.index] at hsome
    have hshared : ¬Unshared s₀ (nh.members (built slot)) := by
      rintro (hzero | hnone)
      · exact hid hzero
      · cases hnone.symm.trans hsome
    exact ⟨_, h.shared (fun _ => hshared)
      (hI.share _ _ slot refSlot _ h.inv hlt hz hslot (.inr ⟨_, hi, hsome⟩))⟩
  | noStandalone hid hmulti t hself =>
    refine ⟨fun s' heq => (by cases heq), fun s' heq _ => ?_⟩
    obtain rfl := Except.error.inj heq
    obtain ⟨built', hfill, -⟩ := hcall t none hid hmulti hself
    have hinv := hI.rollback _ _ slot hfill.inv hlt hz hmulti hslot hfill.cnt
    rw [hfill.here] at hinv
    exact ⟨_, hfill.clear (headsKept_releaseMembers ..) hinv⟩
  | standalone hid hmulti t refSlot hself =>
    refine ⟨fun s' heq => ?_, fun s' heq => by cases heq⟩
    obtain rfl := Except.ok.inj heq
    obtain ⟨built', hfill, hone⟩ := hcall t (some refSlot) hid hmulti hself
    have hone : t.cnt refSlot = 1 := hone refSlot rfl
    have hinv := hI.share _ _ slot refSlot (nh.members (built slot)).weight hfill.inv hlt hz hslot
      (.inl ⟨hmulti, by omega, .inr hone⟩)
    have hshared := hfill.shared (fun hown => absurd hmulti hown) hinv
    rw [hfill.here] at hshared
    exact ⟨_, hshared⟩
  | poolFull hid hown hnone =>
    refine ⟨fun s' heq => (by cases heq), fun s' heq hback => ?_⟩
    obtain rfl := Except.error.inj heq
    have hinv := hI.rollbackInfos _ _ slot h.inv hlt hz (hback.resolve_right hown) hown hslot
      (Nat.le_of_lt hi) (fun j hj => h.unshared hown j hj)
    exact ⟨_, h.clear (headsKept_releaseInfos ..).1 hinv⟩
  | inline hid hown idx t halloc =>
    refine ⟨fun s' heq => ?_, fun s' heq => by cases heq⟩
    obtain rfl := Except.ok.inj heq
    exact ⟨_, h.own halloc (hI.alloc _ _ slot _ _ _ _ h.inv hlt hz halloc)⟩

/-- The loop over the members. -/
theorem PoolInv.populate (hI : PoolInv malloc s₀ nh back aux I) (h₀ : I built₀ s₀)
    (hfree : ∀ g, s₀.cnt g = 0 → built₀ g = 0) (htop : s₀.groupsTop < MAX_NEXTHOP_GRP_SIZE)
    (hslot : findSlot s₀ = some slot)
    (haux : Multipath nh → ∀ g, TakenFor malloc s₀ nh g → aux g) :
    (∀ s', populate (SdPlane.addStandalone malloc) nh slot (SdPlane.reserve s₀ slot nh) = .ok s' →
        ∃ built', Filling s₀ nh slot I built₀ nh.nhcnt s' built')
      ∧ ∀ s', populate (SdPlane.addStandalone malloc) nh slot (SdPlane.reserve s₀ slot nh)
          = .error s' →
        (∀ i t, i < nh.nhcnt → filled malloc s₀ nh slot i = .ok t →
          populateMember (SdPlane.addStandalone malloc) nh slot i t = .error s' →
          back i ∨ Multipath nh) →
        ∃ built', Cleared s₀ slot I built₀ s' built' := by
  obtain ⟨hlt, hz⟩ := findSlot_some hslot htop
  have hrounds := @Lib.forRange_rule _ _
    (fun i s => filled malloc s₀ nh slot i = .ok s ∧ ∃ built, Filling s₀ nh slot I built₀ i s built)
    (fun s' => (∀ i t, i < nh.nhcnt → filled malloc s₀ nh slot i = .ok t →
        populateMember (SdPlane.addStandalone malloc) nh slot i t = .error s' →
        back i ∨ Multipath nh) → ∃ built', Cleared s₀ slot I built₀ s' built')
    nh.nhcnt (fun i s => populateMember (SdPlane.addStandalone malloc) nh slot i s) _
    ⟨rfl, built₀, .start (hI.reserve _ _ _ _ h₀ hlt hz hz (.inl ⟨rfl, hslot, rfl⟩)) hfree htop hz⟩
    fun i s hi hs => ?_
  · exact ⟨fun s' hs' => (hrounds.1 s' hs').2, hrounds.2⟩
  · obtain ⟨hreached, built, hfill⟩ := hs
    have hround := hI.round hfree htop hslot hfill hi fun hmulti hid hnew g hg =>
      haux hmulti g ⟨slot, hslot, i, hi, hid, s, hreached, hnew, hg⟩
    refine ⟨fun s' hs' => ⟨?_, hround.1 s' hs'⟩, fun e he hback =>
      hround.2 e he (hback i s hi hreached he)⟩
    rw [filled, Lib.forRange, ← filled, hreached]
    exact hs'

theorem Filling.hint {i : Nat} {s : NhState} {built : Built}
    (h : Filling s₀ nh slot I built₀ i s built) (hI : PoolInv malloc s₀ nh back aux I)
    (hlt : slot < MAX_NEXTHOP_GRP_SIZE) :
    Filling s₀ nh slot I built₀ i (updateHint s slot) built where
  inv := hI.top _ _ _ h.inv
  here := h.here
  cnt := h.cnt
  kernel := h.kernel
  others := h.others
  top := groupsTop_updateHint hlt
  nhHt := h.nhHt
  unshared := h.unshared

/-- **What `nexthop_add_entry` does to an invariant of the pools.** -/
theorem PoolInv.addEntry (hI : PoolInv malloc s₀ nh back aux I) (h₀ : I built₀ s₀)
    (hfree : ∀ g, s₀.cnt g = 0 → built₀ g = 0) (htop : s₀.groupsTop < MAX_NEXTHOP_GRP_SIZE)
    (haux : Multipath nh → ∀ g, TakenFor malloc s₀ nh g → aux g)
    (hback : ∀ i, GivesUp malloc s₀ nh i → back i ∨ Multipath nh) :
    ∃ built', Grown I s₀ built₀ (nexthopAddEntry malloc s₀ nh).1 built' := by
  have hres := addEntryWith_result (SdPlane.addStandalone malloc) malloc s₀ nh
  show ∃ built', Grown I s₀ built₀ (addEntryWith (SdPlane.addStandalone malloc) malloc s₀ nh).1
    built'
  generalize addEntryWith (SdPlane.addStandalone malloc) malloc s₀ nh = res at hres
  cases hres with
  | reused g hex => exact ⟨built₀, h₀, htop, fun g => .inl ⟨rfl, rfl⟩⟩
  | full hnew hfull => exact ⟨built₀, h₀, htop, fun g => .inl ⟨rfl, rfl⟩⟩
  | rolledBack hnew slot hslot t hpop =>
    obtain ⟨-, hz⟩ := findSlot_some hslot htop
    obtain ⟨built', hclear⟩ := (hI.populate h₀ hfree htop hslot haux).2 t hpop
      fun i u hi hfilled hround => hback i (.member hnew slot hslot u hfilled hi t hround)
    exact ⟨built', hclear.inv, hclear.top, fun g => (hclear.slotKept hz g).slot⟩
  | legacy hnew slot hslot t hpop hid =>
    obtain ⟨hlt, hz⟩ := findSlot_some hslot htop
    obtain ⟨built', hfill⟩ := (hI.populate h₀ hfree htop hslot haux).1 t hpop
    exact ⟨built', hI.top _ _ _ hfill.inv, groupsTop_updateHint hlt,
      fun g => (hfill.slotKept hid hz g).slot⟩
  | notIndexed hnew slot hslot t hpop hid hins =>
    obtain ⟨hlt, hz⟩ := findSlot_some hslot htop
    obtain ⟨built', hfill⟩ := (hI.populate h₀ hfree htop hslot haux).1 t hpop
    have hhint := hfill.hint hI hlt
    have hown : ¬Multipath nh := fun hmulti => hid hmulti.2
    have hgives : back nh.nhcnt :=
      (hback _ (.hash hnew slot hslot t hpop rfl hid hins)).resolve_right hown
    have hinv := hI.rollbackInfos _ _ slot hhint.inv hlt hz (hhint.here ▸ hgives) hown
      hslot (Nat.le_of_eq hhint.here) (fun j hj => hhint.unshared hown j (by rwa [← hhint.here]))
    rw [hhint.here] at hinv
    have hclear := hhint.clear (headsKept_releaseInfos ..).1 hinv
    exact ⟨_, hclear.inv, hclear.top, fun g => (hclear.slotKept hz g).slot⟩
  | indexed hnew slot hslot t hpop hid ht hins =>
    obtain ⟨hlt, hz⟩ := findSlot_some hslot htop
    obtain ⟨built', hfill⟩ := (hI.populate h₀ hfree htop hslot haux).1 t hpop
    refine ⟨built', hI.hash _ _ ht (hfill.hint hI hlt).inv, groupsTop_updateHint hlt, fun g => ?_⟩
    by_cases hg : g = slot
    · subst hg
      exact .inr ⟨hz, hfill.here.trans hfill.cnt.symm⟩
    · exact (hfill.others g hg).slot

end Pass

/-! ## Heads and the hash table -/

/-- Nothing is asked of the pools. -/
theorem poolInv_true (malloc : Bool) (s₀ : NhState) (nh : InternalMsgNhEntry) :
    PoolInv malloc s₀ nh (fun _ => True) (fun _ => True) fun _ _ => True := by
  constructor <;> intros <;> trivial

/-- The members of a new group are there. -/
theorem exists_filling {malloc : Bool} {s t : NhState} {nh : InternalMsgNhEntry} {slot : Nat}
    (htop : s.groupsTop < MAX_NEXTHOP_GRP_SIZE) (hslot : findSlot s = some slot)
    (hpop : populate (addStandalone malloc) nh slot (reserve s slot nh) = .ok t) :
    ∃ built, Filling s nh slot (fun _ _ => True) s.cnt nh.nhcnt t built :=
  ((poolInv_true malloc s nh).populate trivial (fun _ hg => hg) htop hslot
    fun _ _ _ => trivial).1 t hpop

/-- A slot has the head it had, or was free and holds no kernel id. -/
def HeadKept (s t : NhState) (g : Nat) : Prop :=
  (t.cnt g = s.cnt g ∧ t.kernel g = s.kernel g) ∨ (s.cnt g = 0 ∧ t.kernel g = 0)

theorem SlotKept.head {s t : NhState} {built built' : Built} {g : Nat}
    (h : SlotKept s built t built' g) : HeadKept s t g :=
  h.imp (fun h => ⟨h.1, h.2.1⟩) fun h => ⟨h.1, h.2.1⟩

/-- An entry that is not there yet finds a slot, gateways for its members and memory for its
    node in the hash table. -/
def Completes (malloc : Bool) (s : NhState) (nh : InternalMsgNhEntry) (slot : Nat) : Prop :=
  findExisting s nh = none ∧ findSlot s = some slot
    ∧ (∃ t, populate (addStandalone malloc) nh slot (reserve s slot nh) = .ok t)
    ∧ s.nhHt.insert malloc nh.kernelNhId slot ≠ none

/-- What `nexthop_add_entry` does to the heads of the slots and to the hash table. -/
inductive AddHeads (malloc : Bool) (s : NhState) (nh : InternalMsgNhEntry) :
    NhState → Option Nat → Prop
  | kept (t : NhState) (r : Option Nat) (hht : t.nhHt = s.nhHt) (hheads : ∀ g, HeadKept s t g)
      (hr : nh.kernelNhId ≠ 0 → r = findExisting s nh ∧ ∀ slot, ¬Completes malloc s nh slot) :
      AddHeads malloc s nh t r
  | indexed (t : NhState) (slot : Nat) (hid : nh.kernelNhId ≠ 0)
      (hdone : Completes malloc s nh slot)
      (hcnt : t.cnt slot = nh.nhcnt) (hkernel : t.kernel slot = nh.kernelNhId)
      (hheads : ∀ g, g ≠ slot → HeadKept s t g)
      (hins : s.nhHt.insert malloc nh.kernelNhId slot = some t.nhHt) :
      AddHeads malloc s nh t (some slot)

theorem nexthopAddEntry_heads (malloc : Bool) (s : NhState) (nh : InternalMsgNhEntry)
    (htop : s.groupsTop < MAX_NEXTHOP_GRP_SIZE) :
    AddHeads malloc s nh (nexthopAddEntry malloc s nh).1 (nexthopAddEntry malloc s nh).2 := by
  have hI := poolInv_true malloc s nh
  have hpop := fun slot (hslot : findSlot s = some slot) => hI.populate trivial
    (fun _ _ => rfl) htop hslot fun _ _ _ => trivial
  have hres := addEntryWith_result (addStandalone malloc) malloc s nh
  show AddHeads malloc s nh (addEntryWith (addStandalone malloc) malloc s nh).1
    (addEntryWith (addStandalone malloc) malloc s nh).2
  generalize addEntryWith (addStandalone malloc) malloc s nh = res at hres
  cases hres with
  | reused g hex =>
    refine .kept _ _ rfl (fun _ => .inl ⟨rfl, rfl⟩) fun _ => ⟨hex.symm, ?_⟩
    rintro slot ⟨hnew, -⟩
    rw [hex] at hnew
    cases hnew
  | full hnew hfull =>
    refine .kept _ _ rfl (fun _ => .inl ⟨rfl, rfl⟩) fun _ => ⟨hnew.symm, ?_⟩
    rintro slot ⟨-, hslot, -⟩
    rw [hfull] at hslot
    cases hslot
  | rolledBack hnew slot hslot t hpop' =>
    obtain ⟨built, hclear⟩ := (hpop slot hslot).2 t hpop' fun _ _ _ _ _ => .inl trivial
    refine .kept _ _ hclear.nhHt
      (fun g => (hclear.slotKept (findSlot_some hslot htop).2 g).head) fun _ => ⟨hnew.symm, ?_⟩
    rintro slot' ⟨-, hslot', ⟨u, hok⟩, -⟩
    obtain rfl := Option.some.inj (hslot.symm.trans hslot')
    rw [hpop'] at hok
    cases hok
  | legacy hnew slot hslot t hpop' hid =>
    obtain ⟨built, hfill⟩ := (hpop slot hslot).1 t hpop'
    exact .kept _ _ hfill.nhHt
      (fun g => (hfill.slotKept hid (findSlot_some hslot htop).2 g).head)
      fun hne => absurd hid hne
  | notIndexed hnew slot hslot t hpop' hid hins =>
    obtain ⟨built, hfill⟩ := (hpop slot hslot).1 t hpop'
    have hclear := (hfill.hint hI (findSlot_some hslot htop).1).clear
      (headsKept_releaseInfos (updateHint t slot) slot nh.nhcnt).1 trivial
    refine .kept _ _ hclear.nhHt
      (fun g => (hclear.slotKept (findSlot_some hslot htop).2 g).head) fun _ => ⟨hnew.symm, ?_⟩
    rintro slot' ⟨-, hslot', -, hok⟩
    obtain rfl := Option.some.inj (hslot.symm.trans hslot')
    rw [hfill.nhHt] at hins
    exact hok hins
  | indexed hnew slot hslot t hpop' hid ht hins =>
    obtain ⟨built, hfill⟩ := (hpop slot hslot).1 t hpop'
    rw [hfill.nhHt] at hins
    exact .indexed _ slot hid ⟨hnew, hslot, ⟨t, hpop'⟩, by simp [hins]⟩ hfill.cnt hfill.kernel
      (fun g hg => (hfill.others g hg).head) hins

end SdPlane
