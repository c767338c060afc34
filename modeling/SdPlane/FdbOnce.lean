import SdPlane.Fdb
import SdPlane.Lib.Run

/-!
# An address that the forwarding database holds twice

`fdb_add_entry` means to update the entry of an address that is there (`updated fdb[..]`), and stops
at the first free slot. Ageing makes slots free in the middle of a probe sequence, and an entry
behind such a hole is not seen by the add, which writes a second one into the hole.

`HoldsOnce` is what fails then. It is kept exactly while every address that is added is `InReach`:
no free slot comes before its entry, if it has one (`fdb_holdsOnce_iff`). The clock plays no part
in this.
-/

set_option autoImplicit false

namespace SdPlane

/-- Slot `o` is active with the key. -/
def FdbHolds (fdb : Nat → FdbEntry) (macAddr : EtherAddr) (vlanId : UInt16) (o : Nat) : Prop :=
  o < FDB_SIZE ∧ (fdb o).state = FDB_STATE_ACTIVE ∧ (fdb o).l2addr = macAddr ∧ (fdb o).vlanId = vlanId

/-- Every key has at most one active slot. -/
def HoldsOnce (fdb : Nat → FdbEntry) : Prop :=
  ∀ macAddr vlanId o o', FdbHolds fdb macAddr vlanId o → FdbHolds fdb macAddr vlanId o' → o = o'

/-- No free slot comes before the entry of the key, along its probe sequence. -/
def InReach (fdb : Nat → FdbEntry) (macAddr : EtherAddr) (vlanId : UInt16) : Prop :=
  ∀ before o after, fdbProbe macAddr vlanId = before ++ o :: after → FdbHolds fdb macAddr vlanId o →
    ∀ i ∈ before, (fdb i).state ≠ FDB_STATE_NONE

/-- One call. -/
def FdbStep (fdb : Nat → FdbEntry) (op : FdbOp) (fdb' : Nat → FdbEntry) : Prop :=
  fdb' = op.apply fdb

/-- What an add has to find. -/
def FdbOp.Reaches (fdb : Nat → FdbEntry) : FdbOp → Prop
  | .add _ macAddr vlanId _ => InReach fdb macAddr vlanId
  | .age _ _ => True

section Steps

variable {fdb : Nat → FdbEntry} {macAddr : EtherAddr} {vlanId : UInt16}

theorem active_ne_none : FDB_STATE_ACTIVE ≠ FDB_STATE_NONE := by decide

/-- What is active after ageing was so before. -/
theorem FdbHolds.of_age {time maxAge : Int} {o : Nat}
    (h : FdbHolds (fdbAgingProcess fdb time maxAge) macAddr vlanId o) :
    FdbHolds fdb macAddr vlanId o := by
  obtain ⟨ho, hstate, hkey⟩ := h
  unfold fdbAgingProcess at hstate hkey
  split at hstate
  · exact absurd hstate.symm active_ne_none
  · next hyoung =>
    rw [if_neg hyoung] at hkey
    exact ⟨ho, hstate, hkey⟩

/-- Two places of one sequence: one of them comes before the other. -/
theorem mem_before {α : Type} {l before after before' after' : List α} {o o' : α}
    (h : l = before ++ o :: after) (h' : l = before' ++ o' :: after') (hne : o ≠ o') :
    o' ∈ before ∨ o ∈ before' := by
  rw [h] at h'
  rcases List.append_eq_append_iff.mp h' with ⟨mid, rfl, hrest⟩ | ⟨mid, rfl, hrest⟩
  · cases mid with
    | nil => exact absurd (List.cons.inj hrest).1 hne
    | cons x mid =>
      obtain ⟨rfl, -⟩ := List.cons.inj hrest
      exact .inr (by simp)
  · cases mid with
    | nil => exact absurd (List.cons.inj hrest).1.symm hne
    | cons x mid =>
      obtain ⟨rfl, -⟩ := List.cons.inj hrest
      exact .inl (by simp)

theorem exists_fdbProbe {o : Nat} (macAddr : EtherAddr) (vlanId : UInt16) (ho : o < FDB_SIZE) :
    ∃ before after, fdbProbe macAddr vlanId = before ++ o :: after :=
  List.append_of_mem (mem_fdbProbe.mpr ho)

/-- A slot that is written holds the new key, and the others what they held. -/
theorem fdbHolds_update {mac : EtherAddr} {vlan : UInt16} {port time : Int} {o : Nat}
    (ho : o < FDB_SIZE) (o' : Nat) :
    FdbHolds (Function.update fdb o ⟨mac, port, vlan, FDB_STATE_ACTIVE, time⟩) macAddr vlanId o' ↔
      if o' = o then mac = macAddr ∧ vlan = vlanId else FdbHolds fdb macAddr vlanId o' := by
  unfold FdbHolds
  rw [Function.update_apply]
  split
  · next heq =>
    rw [heq]
    exact ⟨fun h => h.2.2, fun h => ⟨ho, rfl, h⟩⟩
  · rfl

/-- **One call keeps the addresses apart exactly when what is added is in reach.** -/
theorem holdsOnce_step_iff (hstates : FdbStates fdb) (honce : HoldsOnce fdb) (op : FdbOp) :
    HoldsOnce (op.apply fdb) ↔ op.Reaches fdb := by
  cases op with
  | age time maxAge =>
    refine iff_of_true (fun mac vlan o o' ho ho' => ?_) trivial
    exact honce mac vlan o o' ho.of_age ho'.of_age
  | add time mac vlan port =>
    have hadded := fdbAdded fdb time mac vlan port
    simp only [FdbOp.apply, FdbOp.Reaches]
    generalize fdbAddEntry fdb time mac vlan port = res at hadded
    cases hadded with
    | full hfull =>
      refine iff_of_true honce fun before o after hprobe ho i hi => ?_
      have hmem : i ∈ fdbProbe mac vlan := hprobe ▸ List.mem_append_left _ hi
      exact (hfull i (mem_fdbProbe.mp hmem)).1
    | @placed before after o hprobe hbefore hslot =>
      have ho : o < FDB_SIZE := mem_fdbProbe.mp (hprobe ▸ List.mem_append_right _ List.mem_cons_self)
      constructor
      · intro honce' before' o' after' hprobe' ho' i hi hfree
        -- the add has stopped in front of `o'`, and both hold the key now
        have hne : o' ≠ o := by
          rintro rfl
          have hnodup := fdbProbe_nodup mac vlan
          rw [hprobe, List.nodup_middle, List.nodup_cons, List.mem_append, not_or] at hnodup
          obtain ⟨rfl, -⟩ := (List.append_cons_inj_of_notMem hnodup.1.1 hnodup.1.2).mp
            (hprobe.symm.trans hprobe')
          exact (hbefore i hi).1 hfree
        refine hne (honce' mac vlan o' o ?_ ?_)
        · rw [fdbHolds_update ho, if_neg hne]
          exact ho'
        · rw [fdbHolds_update ho, if_pos rfl]
          exact ⟨rfl, rfl⟩
      · intro hreach
        -- what holds the key already is the slot that is written
        have hhere : ∀ o', FdbHolds fdb mac vlan o' → o' = o := by
          intro o' ho'
          by_contra hne
          obtain ⟨before', after', hprobe'⟩ := exists_fdbProbe mac vlan ho'.1
          rcases mem_before hprobe hprobe' (Ne.symm hne) with hmem | hmem
          · exact (hbefore o' hmem).2 ho'.2.2
          · have hbusy := hreach before' o' after' hprobe' ho' o hmem
            have hkey := hslot.resolve_left hbusy
            have hactive := (hstates o).resolve_left hbusy
            exact hne (honce mac vlan o' o ho' ⟨ho, hactive, hkey⟩)
        intro mac' vlan' o₁ o₂ h₁ h₂
        rw [fdbHolds_update ho] at h₁ h₂
        by_cases hkey : mac = mac' ∧ vlan = vlan'
        · obtain ⟨rfl, rfl⟩ := hkey
          have hall : ∀ o', (if o' = o then mac = mac ∧ vlan = vlan else FdbHolds fdb mac vlan o') →
              o' = o := by
            intro o' ho'
            split at ho'
            · assumption
            · exact hhere o' ho'
          rw [hall o₁ h₁, hall o₂ h₂]
        · split at h₁
          · exact absurd h₁ hkey
          · split at h₂
            · exact absurd h₂ hkey
            · exact honce mac' vlan' o₁ o₂ h₁ h₂

end Steps

/-- **When the forwarding database holds each address once.** It does so throughout a sequence of
    calls if and only if every address that is added is in reach. -/
theorem fdb_holdsOnce_iff (ops : List FdbOp) :
    Lib.Throughout FdbStep (fun _ => .zero) HoldsOnce ops
      ↔ Lib.Stepwise FdbStep (fun _ => .zero) (fun fdb op => op.Reaches fdb) ops := by
  apply Lib.throughout_iff FdbStates
  · exact fun _ => .inl rfl
  · intro fdb op fdb' hstates hstep
    rw [hstep]
    exact hstates.step op
  · intro mac vlan o o' ho
    exact absurd ho.2.1.symm active_ne_none
  · intro fdb op fdb' hstates honce hstep
    rw [hstep]
    exact holdsOnce_step_iff hstates honce op

/-- A host of vlan 10. -/
def hostAddr (i : UInt8) : EtherAddr := #v[2, 0, 0, 0, 0, i]

/-- Two hosts have the same hash. The first is forgotten, and the second is heard again. -/
theorem address_held_twice : ¬ ∀ ops : List FdbOp,
    Lib.Throughout FdbStep (fun _ => .zero) HoldsOnce ops := by
  intro hall
  have hrun : ∀ ops : List FdbOp, Lib.Run FdbStep (fun _ => .zero) ops (fdbRun ops) := by
    intro ops
    induction ops using List.reverseRecOn with
    | nil => exact .nil
    | append_singleton ops op ih => exact ih.snoc (fdbRun_snoc ops op)
  have honce := hall [.add 0 (hostAddr 14) 10 1, .add 100 (hostAddr 66) 10 2, .age 100 60,
    .add 100 (hostAddr 66) 10 3] _ _ List.prefix_rfl (hrun _)
  have hfirst : FdbHolds (fdbRun [.add 0 (hostAddr 14) 10 1, .add 100 (hostAddr 66) 10 2,
      .age 100 60, .add 100 (hostAddr 66) 10 3]) (hostAddr 66) 10 687 := by
    unfold FdbHolds
    decide +kernel
  have hsecond : FdbHolds (fdbRun [.add 0 (hostAddr 14) 10 1, .add 100 (hostAddr 66) 10 2,
      .age 100 60, .add 100 (hostAddr 66) 10 3]) (hostAddr 66) 10 688 := by
    unfold FdbHolds
    decide +kernel
  exact absurd (honce _ _ _ _ hfirst hsecond) (by decide)

end SdPlane
