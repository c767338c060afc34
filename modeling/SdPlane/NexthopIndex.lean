import SdPlane.Lib.Run
import SdPlane.NexthopInfo

/-!
# Kernel ids and slots

`nh_ht` is to lead from a kernel's id to the live group that carries it, and to nothing
otherwise (`KernelIdExact`). Two entries defeat it:

* a group in **slot 0** is stored as the pointer `0`, and `nexthop_get_index_by_nhid` takes
  that for an absent key. The group is there, nothing finds it, and its id can be added again;
* an entry with **no members** leaves its slot free, since `nhcnt = 0` is the mark of a free
  slot, while the table leads there.

`kernelId_index_exact_iff` says that these are all: a sequence of calls keeps the index exact,
and every id that was added can be deleted, exactly when every new kernel id that is carried
through comes with a member and takes a slot other than 0.
-/

set_option autoImplicit false

namespace SdPlane

/-- A live group carries the kernel id. -/
def Carries (s : NhState) (k : Int) (g : Nat) : Prop :=
  g < MAX_NEXTHOP_GRP_SIZE ∧ s.cnt g ≠ 0 ∧ s.kernel g = k

/-- `nexthop_get_index_by_nhid` finds the one live group that carries an id. -/
structure KernelIdExact (s : NhState) : Prop where
  index : ∀ k, k ≠ 0 → ∀ g, nexthopGetIndexByNhid s k = some g ↔ Carries s k g
  unique : ∀ k, k ≠ 0 → ∀ g g', Carries s k g → Carries s k g' → g = g'

theorem KernelIdExact.of_index {s : NhState}
    (h : ∀ k, k ≠ 0 → ∀ g, nexthopGetIndexByNhid s k = some g ↔ Carries s k g) :
    KernelIdExact s where
  index := h
  unique k hk g g' hg hg' :=
    Option.some.inj (((h k hk g).mpr hg).symm.trans ((h k hk g').mpr hg'))

theorem nexthopGetIndexByNhid_congr {s t : NhState} (h : t.nhHt = s.nhHt) (k : Int) :
    nexthopGetIndexByNhid t k = nexthopGetIndexByNhid s k := by
  unfold nexthopGetIndexByNhid
  rw [h]

/-- Heads that are kept carry the ids that they carried. -/
theorem HeadKept.carries {s t : NhState} {k : Int} (hk : k ≠ 0) {g : Nat} (h : HeadKept s t g) :
    Carries t k g ↔ Carries s k g := by
  unfold Carries
  rcases h with ⟨hcnt, hkernel⟩ | ⟨hfree, hzero⟩
  · rw [hcnt, hkernel]
  · constructor
    · rintro ⟨-, -, hid⟩
      exact absurd (hid.symm.trans hzero) hk
    · rintro ⟨-, hbusy, -⟩
      exact absurd hfree hbusy

theorem KernelIdExact.congr {s t : NhState} (h : KernelIdExact s) (hht : t.nhHt = s.nhHt)
    (hheads : ∀ g, HeadKept s t g) : KernelIdExact t := by
  apply KernelIdExact.of_index
  intro k hk g
  rw [nexthopGetIndexByNhid_congr hht, (hheads g).carries hk, h.index k hk g]

/-- `nexthop_eq_kernel_nh_id` is equality. -/
theorem nexthopKeyOps_keyEq {a b : Int} : nexthopKeyOps.keyEq a b = true ↔ a = b := by
  simp [nexthopKeyOps, nexthopEqKernelNhId]

theorem nhHt_find_insert {ht ht' : HashTable nexthopKeyOps} {malloc : Bool} {k k' : Int} {v : Nat}
    (h : ht.insert malloc k v = some ht') :
    ht'.find k' = if k' = k then some v else ht.find k' := by
  rw [HashTable.find_insert h]
  by_cases hk : k' = k
  · rw [if_pos (nexthopKeyOps_keyEq.mpr hk.symm), if_pos hk]
  · rw [if_neg (fun heq => hk (nexthopKeyOps_keyEq.mp heq).symm), if_neg hk]

/-- The lookup after `hash_table_remove`, whether the id was there or not. -/
theorem nexthopGetIndexByNhid_removeNhid (s : NhState) (k k' : Int) :
    nexthopGetIndexByNhid (removeNhid s k) k'
      = if k' = k then none else nexthopGetIndexByNhid s k' := by
  have hfind : (removeNhid s k).nhHt.find k' = if k' = k then none else s.nhHt.find k' := by
    unfold removeNhid
    cases hrem : s.nhHt.remove k with
    | none =>
      show s.nhHt.find k' = _
      split
      · next heq => rw [heq]; exact HashTable.remove_eq_none.mp hrem
      · rfl
    | some ht =>
      show ht.find k' = _
      rw [HashTable.find_remove hrem]
      by_cases hk : k' = k
      · rw [if_pos (nexthopKeyOps_keyEq.mpr hk.symm), if_pos hk]
      · rw [if_neg (fun heq => hk (nexthopKeyOps_keyEq.mp heq).symm), if_neg hk]
  unfold nexthopGetIndexByNhid HashTable.lookup
  rw [hfind]
  by_cases hk : k' = k
  · simp [hk]
  · simp only [if_neg hk]

/-- Freeing a slot: no id but its own loses its group. -/
theorem carries_freeGroup {s : NhState} {slot g : Nat} {k : Int} :
    Carries (freeGroup s slot) k g ↔ g ≠ slot ∧ Carries s k g := by
  unfold Carries
  rw [cnt_freeGroup, kernel_freeGroup]
  by_cases hg : g = slot
  · simp [hg]
  · simp [hg]

theorem nexthopGetIndexByNhid_freeGroup (s : NhState) (slot : Nat) (k : Int) :
    nexthopGetIndexByNhid (freeGroup s slot) k = nexthopGetIndexByNhid s k := by
  apply nexthopGetIndexByNhid_congr
  rw [freeGroup, NhState.nhHt_clearGroup, (headsKept_releaseMembers ..).nhHt]

/-- A delete keeps an exact index exact. -/
theorem KernelIdExact.del {s : NhState} (h : KernelIdExact s) (nh : InternalMsgNhEntry) :
    KernelIdExact (nexthopDelEntry s nh).1 := by
  unfold nexthopDelEntry
  split
  · exact h
  · next slot hdel =>
    apply KernelIdExact.of_index
    intro k hk g
    unfold delSlot at hdel
    dsimp only
    split
    · next hid =>
      rw [if_pos hid] at hdel
      have hslot : Carries s nh.kernelNhId slot := (h.index _ hid slot).mp hdel
      rw [nexthopGetIndexByNhid_freeGroup, nexthopGetIndexByNhid_removeNhid, carries_freeGroup]
      have hrem : Carries (removeNhid s nh.kernelNhId) k g ↔ Carries s k g := Iff.rfl
      rw [hrem]
      by_cases heq : k = nh.kernelNhId
      · subst heq
        simp only [if_true, reduceCtorEq, false_iff, not_and]
        exact fun hne hg => hne (h.unique _ hk g slot hg hslot)
      · rw [if_neg heq, h.index k hk g]
        refine ⟨fun hg => ⟨?_, hg⟩, fun hg => hg.2⟩
        rintro rfl
        exact heq (hg.2.2.symm.trans hslot.2.2)
    · next hid =>
      rw [if_neg hid] at hdel
      have hlegacy := (legacyMatch_iff.mp (legacyFind_some hdel).2).2.1
      rw [nexthopGetIndexByNhid_freeGroup, carries_freeGroup, h.index k hk g]
      refine ⟨fun hg => ⟨?_, hg⟩, fun hg => hg.2⟩
      rintro rfl
      exact hk (hg.2.2.symm.trans hlegacy)

/-! ## Sequences of calls -/

/-- A call from outside, with the ids that were added and not deleted since. -/
def IndexStep (s : NhState × Set Int) (c : NhCall) (t : NhState × Set Int) : Prop :=
  t.1 = (nhCall s.1 c).1 ∧ t.2 = match c with
    | .add _ nh =>
      if nh.kernelNhId ≠ 0 ∧ (nhCall s.1 c).2 ≠ none then insert nh.kernelNhId s.2 else s.2
    | .del nh => s.2 \ {nh.kernelNhId}

/-- The index is exact, and what was added can be deleted. -/
structure Indexed (s : NhState × Set Int) : Prop where
  exact : KernelIdExact s.1
  deletable : ∀ nh : InternalMsgNhEntry, nh.kernelNhId ∈ s.2 → (nexthopDelEntry s.1 nh).2 ≠ none

/-- A kernel id that is new comes with a member and does not take slot 0. -/
def NewIdSafe (s : NhState × Set Int) : NhCall → Prop
  | .add malloc nh => nh.kernelNhId ≠ 0 → ∀ slot, Completes malloc s.1 nh slot →
      slot ≠ 0 ∧ nh.nhcnt ≠ 0
  | .del _ => True

theorem nexthopDelEntry_isSome {s : NhState} {nh : InternalMsgNhEntry} (h : nh.kernelNhId ≠ 0) :
    (nexthopDelEntry s nh).2 ≠ none ↔ nexthopGetIndexByNhid s nh.kernelNhId ≠ none := by
  have hslot : delSlot s nh = nexthopGetIndexByNhid s nh.kernelNhId := if_pos h
  unfold nexthopDelEntry
  rw [hslot]
  cases nexthopGetIndexByNhid s nh.kernelNhId with
  | none => simp
  | some slot => simp

/-- A delete does not change what is found for other ids. -/
theorem nexthopGetIndexByNhid_del {s : NhState} {nh : InternalMsgNhEntry} {k : Int}
    (h : k ≠ nh.kernelNhId) : nexthopGetIndexByNhid (nexthopDelEntry s nh).1 k
      = nexthopGetIndexByNhid s k := by
  unfold nexthopDelEntry
  split
  · rfl
  · dsimp only
    rw [nexthopGetIndexByNhid_freeGroup]
    split
    · rw [nexthopGetIndexByNhid_removeNhid, if_neg h]
    · rfl

section Step

variable {s t : NhState × Set Int}

theorem Indexed.deletable_of_same (h : Indexed s) (h0 : (0 : Int) ∉ s.2) (hsub : t.2 ⊆ s.2)
    (hsame : ∀ k, k ∈ t.2 → nexthopGetIndexByNhid t.1 k = nexthopGetIndexByNhid s.1 k)
    (nh : InternalMsgNhEntry) (hnh : nh.kernelNhId ∈ t.2) : (nexthopDelEntry t.1 nh).2 ≠ none := by
  have hid : nh.kernelNhId ≠ 0 := fun heq => h0 (heq ▸ hsub hnh)
  rw [nexthopDelEntry_isSome hid, hsame _ hnh, ← nexthopDelEntry_isSome hid]
  exact h.deletable nh (hsub hnh)

/-- An add that leaves table and heads alone. -/
theorem Indexed.add_kept {malloc : Bool} {nh : InternalMsgNhEntry} {r : Option Nat}
    (h : Indexed s) (h0 : (0 : Int) ∉ s.2) (hht : t.1.nhHt = s.1.nhHt)
    (hheads : ∀ g, HeadKept s.1 t.1 g)
    (hadded : t.2 = if nh.kernelNhId ≠ 0 ∧ r ≠ none then insert nh.kernelNhId s.2 else s.2)
    (hr : nh.kernelNhId ≠ 0 →
      r = findExisting s.1 nh ∧ ∀ slot, ¬Completes malloc s.1 nh slot) : Indexed t := by
  refine ⟨h.exact.congr hht hheads, ?_⟩
  split at hadded
  · next hnew =>
    obtain ⟨hid, hsome⟩ := hnew
    rw [(hr hid).1, findExisting, if_pos hid] at hsome
    intro nh' hnh'
    rw [hadded] at hnh'
    rcases Set.mem_insert_iff.mp hnh' with heq | hold
    · rw [nexthopDelEntry_isSome (heq ▸ hid), heq, nexthopGetIndexByNhid_congr hht]
      exact hsome
    · have hid' : nh'.kernelNhId ≠ 0 := fun heq => h0 (heq ▸ hold)
      rw [nexthopDelEntry_isSome hid', nexthopGetIndexByNhid_congr hht,
        ← nexthopDelEntry_isSome hid']
      exact h.deletable nh' hold
  · exact h.deletable_of_same h0 hadded.le fun k _ => nexthopGetIndexByNhid_congr hht k

/-- An add that enters a new id into the table. -/
theorem Indexed.add_indexed_iff {nh : InternalMsgNhEntry} {slot : Nat} {malloc : Bool}
    (h : Indexed s) (h0 : (0 : Int) ∉ s.2) (hid : nh.kernelNhId ≠ 0)
    (hnew : findExisting s.1 nh = none) (hlt : slot < MAX_NEXTHOP_GRP_SIZE)
    (hz : s.1.cnt slot = 0) (hcnt : t.1.cnt slot = nh.nhcnt)
    (hkernel : t.1.kernel slot = nh.kernelNhId)
    (hheads : ∀ g, g ≠ slot → HeadKept s.1 t.1 g)
    (hins : s.1.nhHt.insert malloc nh.kernelNhId slot = some t.1.nhHt)
    (hadded : t.2 = insert nh.kernelNhId s.2) :
    Indexed t ↔ slot ≠ 0 ∧ nh.nhcnt ≠ 0 := by
  have hindex : ∀ k g, nexthopGetIndexByNhid t.1 k = some g
      ↔ k ≠ 0 ∧ g ≠ 0 ∧ (if k = nh.kernelNhId then some slot else s.1.nhHt.find k) = some g := by
    intro k g
    rw [nexthopGetIndexByNhid_eq_some, nhHt_find_insert hins]
  constructor
  · intro ht
    have hdel := ht.deletable nh (hadded ▸ Set.mem_insert _ _)
    rw [nexthopDelEntry_isSome hid] at hdel
    obtain ⟨g, hg⟩ := Option.ne_none_iff_exists'.mp hdel
    obtain ⟨-, hg0, hslot⟩ := (hindex _ g).mp hg
    rw [if_pos rfl] at hslot
    obtain rfl := Option.some.inj hslot
    have hcarries := (ht.exact.index _ hid slot).mp hg
    exact ⟨hg0, fun heq => hcarries.2.1 (hcnt.trans heq)⟩
  · rintro ⟨hslot0, hmembers⟩
    have hhere : Carries t.1 nh.kernelNhId slot :=
      ⟨hlt, fun heq => hmembers (hcnt.symm.trans heq), hkernel⟩
    have hnone : ∀ g, ¬Carries s.1 nh.kernelNhId g := by
      intro g hg
      have hsome := (h.exact.index _ hid g).mpr hg
      rw [findExisting, if_pos hid] at hnew
      rw [hnew] at hsome
      cases hsome
    refine ⟨KernelIdExact.of_index fun k hk g => ?_, fun nh' hnh' => ?_⟩
    · rw [hindex]
      by_cases hkk : k = nh.kernelNhId
      · subst hkk
        rw [if_pos rfl]
        constructor
        · rintro ⟨-, -, heq⟩
          exact Option.some.inj heq ▸ hhere
        · intro hg
          by_cases hgs : g = slot
          · exact ⟨hk, hgs ▸ hslot0, by rw [hgs]⟩
          · exact absurd (((hheads g hgs).carries hk).mp hg) (hnone g)
      · rw [if_neg hkk, ← nexthopGetIndexByNhid_eq_some, h.exact.index k hk g]
        by_cases hgs : g = slot
        · subst hgs
          constructor
          · exact fun hg => absurd hz hg.2.1
          · exact fun hg => absurd (hg.2.2.symm.trans hkernel) hkk
        · exact ((hheads g hgs).carries hk).symm
    · rw [hadded] at hnh'
      have hid' : nh'.kernelNhId ≠ 0 := by
        rcases Set.mem_insert_iff.mp hnh' with heq | hold
        · rw [heq]; exact hid
        · exact fun heq => h0 (heq ▸ hold)
      rw [nexthopDelEntry_isSome hid', Option.ne_none_iff_exists']
      rcases Set.mem_insert_iff.mp hnh' with heq | hold
      · exact ⟨slot, (hindex _ slot).mpr ⟨hid', hslot0, if_pos heq⟩⟩
      · by_cases hkk : nh'.kernelNhId = nh.kernelNhId
        · exact ⟨slot, (hindex _ slot).mpr ⟨hid', hslot0, if_pos hkk⟩⟩
        · have hold' := h.deletable nh' hold
          rw [nexthopDelEntry_isSome hid', Option.ne_none_iff_exists'] at hold'
          obtain ⟨g, hg⟩ := hold'
          refine ⟨g, (hindex _ g).mpr ?_⟩
          rw [if_neg hkk]
          exact nexthopGetIndexByNhid_eq_some.mp hg

/-- One call keeps the index exact exactly when it is safe. -/
theorem indexed_step_iff {c : NhCall} (hgood : NhGood s.1) (h0 : (0 : Int) ∉ s.2) (h : Indexed s)
    (hstep : IndexStep s c t) : Indexed t ↔ NewIdSafe s c := by
  obtain ⟨hstate, hadded⟩ := hstep
  cases c with
  | add malloc nh =>
    change t.1 = (nexthopAddEntry malloc s.1 nh).1 at hstate
    change t.2 = if nh.kernelNhId ≠ 0 ∧ (nexthopAddEntry malloc s.1 nh).2 ≠ none then _ else _
      at hadded
    have hheads := nexthopAddEntry_heads malloc s.1 nh hgood.top
    rw [← hstate] at hheads
    generalize (nexthopAddEntry malloc s.1 nh).2 = r at hheads hadded
    cases hheads with
    | kept _ hht hheads hr =>
      refine iff_of_true (h.add_kept h0 hht hheads hadded hr) fun hid slot hdone => ?_
      exact absurd hdone ((hr hid).2 slot)
    | indexed slot hid hdone hcnt hkernel hheads hins =>
      obtain ⟨hlt, hz⟩ := findSlot_some hdone.2.1 hgood.top
      rw [if_pos ⟨hid, by simp⟩] at hadded
      rw [h.add_indexed_iff h0 hid hdone.1 hlt hz hcnt hkernel hheads hins hadded]
      constructor
      · intro hsafe _ slot' hdone'
        obtain rfl := Option.some.inj (hdone.2.1.symm.trans hdone'.2.1)
        exact hsafe
      · intro hsafe
        exact hsafe hid slot hdone
  | del nh =>
    change t.1 = (nexthopDelEntry s.1 nh).1 at hstate
    change t.2 = s.2 \ {nh.kernelNhId} at hadded
    refine iff_of_true ⟨?_, ?_⟩ trivial
    · rw [hstate]; exact h.exact.del nh
    · refine h.deletable_of_same h0 (hadded ▸ Set.sdiff_subset) fun k hk => ?_
      rw [hstate]
      rw [hadded] at hk
      exact nexthopGetIndexByNhid_del hk.2

end Step

/-- **The kernel-id index is exact throughout a sequence of calls exactly when every new id
    that is carried through comes with a member and takes a slot other than 0.** -/
theorem kernelId_index_exact_iff (calls : List NhCall) :
    Lib.Throughout IndexStep (nexthopInit, ∅) Indexed calls
      ↔ Lib.Stepwise IndexStep (nexthopInit, ∅) NewIdSafe calls := by
  apply Lib.throughout_iff fun s => NhGood s.1 ∧ (0 : Int) ∉ s.2
  · exact ⟨NhGood.init, Set.notMem_empty _⟩
  · rintro s c t ⟨hgood, h0⟩ ⟨hstate, hadded⟩
    refine ⟨hstate ▸ hgood.call c, ?_⟩
    cases c with
    | add malloc nh =>
      rw [hadded]
      dsimp only
      split
      · next hnew => exact fun hmem => (Set.mem_insert_iff.mp hmem).elim (fun heq => hnew.1 heq.symm) h0
      · exact h0
    | del nh =>
      rw [hadded]
      exact fun hmem => h0 hmem.1
  · constructor
    · apply KernelIdExact.of_index
      intro k hk g
      rw [nexthopGetIndexByNhid_eq_some]
      constructor
      · rintro ⟨-, -, hfind⟩
        simp [nexthopInit] at hfind
      · rintro ⟨-, hbusy, -⟩
        exact absurd rfl hbusy
    · intro nh hnh
      exact absurd hnh (Set.notMem_empty _)
  · exact fun s c t hinv h hstep => indexed_step_iff hinv.1 hinv.2 h hstep

/-- The kernel's next hop 5, by the gateway 10.0.0.1. -/
def firstNhid : InternalMsgNhEntry where
  kernelNhId := 5
  nhcnt := 1
  members := fun _ =>
    ⟨0, ⟨2, .gateway, #v[10, 0, 0, 1, 0, 0, 0, 0, 0, 0, 0, 0, 0, 0, 0, 0], 3, 0⟩, 1⟩
  nhcnt_le := one_le_maxEcmpEntry

/-- The first id ever added takes slot 0, and is not found. -/
theorem first_nhid_not_found :
    ¬ ∀ calls : List NhCall, Lib.Throughout IndexStep (nexthopInit, ∅) Indexed calls := by
  intro hall
  obtain ⟨added, hstep⟩ : ∃ added, IndexStep (nexthopInit, ∅) (.add true firstNhid)
    ((nexthopAddEntry true nexthopInit firstNhid).1, added) := ⟨_, rfl, rfl⟩
  have hrun := (Lib.Run.nil).snoc hstep
  have hcarries : Carries (nexthopAddEntry true nexthopInit firstNhid).1 5 0 := by
    unfold Carries
    decide +kernel
  have hfound := ((hall _ _ _ List.prefix_rfl hrun).exact.index 5 (by decide) 0).mpr hcarries
  have hnone : nexthopGetIndexByNhid (nexthopAddEntry true nexthopInit firstNhid).1 5 = none := by
    decide +kernel
  rw [hnone] at hfound
  cases hfound

end SdPlane
