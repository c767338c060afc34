import SdPlane.RibConf
import SdPlane.Lib.Probe

/-!
# The forwarding database as a map with ageing

`fdb_add_entry` writes into the first slot of the probe sequence that is free or holds the key;
ageing frees slots and leaves no mark. So an add may stop at a hole in front of an older entry
of its key, and from then on the key has several active slots, with different ports and
different ages. `fdb_lookup_entry` does not stop at holes: it answers with the first active slot
of the key in the whole round.

That this is the newest one is an invariant of the table (`Lib.NewestFirst`, for every key),
and it needs a clock that does not run backwards. `Remembers` is the invariant together with
what the history of the calls says: where the last successful add of a key was, and whether an
ageing run since has found it too old.
-/

set_option autoImplicit false

namespace SdPlane

open Lib (NewestFirst young)

/-! ## The code -/

/-- The offsets from the hash on, round the table once. -/
def fdbProbe (macAddr : EtherAddr) (vlanId : UInt16) : List Nat :=
  (List.range FDB_SIZE).map fun d => (fdbJenkinsHash macAddr vlanId + d) % FDB_SIZE

/-- `fdb_lookup_entry`. -/
def fdbLookupEntry (fdb : Nat → FdbEntry) (macAddr : EtherAddr) (vlanId : UInt16) : Int :=
  match (fdbProbe macAddr vlanId).find? fun offset =>
      decide ((fdb offset).l2addr = macAddr) && decide ((fdb offset).vlanId = vlanId)
        && decide ((fdb offset).state = FDB_STATE_ACTIVE) with
  | some offset => (fdb offset).port
  | none => -1

/-- `fdb_aging_process`. -/
def fdbAgingProcess (fdb : Nat → FdbEntry) (time maxAge : Int) : Nat → FdbEntry := fun i =>
  if i < FDB_SIZE ∧ (fdb i).state = FDB_STATE_ACTIVE ∧ time - (fdb i).lastSeen > maxAge then
    { fdb i with state := FDB_STATE_NONE }
  else fdb i

/-! ## The probe sequence -/

theorem fdbJenkinsHash_lt (macAddr : EtherAddr) (vlanId : UInt16) :
    fdbJenkinsHash macAddr vlanId < FDB_SIZE := by
  unfold fdbJenkinsHash FDB_SIZE
  exact Nat.and_lt_two_pow _ (n := 10) (by norm_num)

theorem mem_fdbProbe {macAddr : EtherAddr} {vlanId : UInt16} {o : Nat} :
    o ∈ fdbProbe macAddr vlanId ↔ o < FDB_SIZE := by
  have hhash := fdbJenkinsHash_lt macAddr vlanId
  simp only [fdbProbe, List.mem_map, List.mem_range]
  constructor
  · rintro ⟨d, -, rfl⟩
    exact Nat.mod_lt _ (by decide)
  · intro ho
    rcases Nat.lt_or_ge o (fdbJenkinsHash macAddr vlanId) with hlt | hge
    · refine ⟨o + FDB_SIZE - fdbJenkinsHash macAddr vlanId, by omega, ?_⟩
      rw [show fdbJenkinsHash macAddr vlanId + (o + FDB_SIZE - fdbJenkinsHash macAddr vlanId)
        = o + FDB_SIZE by omega, Nat.add_mod_right, Nat.mod_eq_of_lt ho]
    · refine ⟨o - fdbJenkinsHash macAddr vlanId, by omega, ?_⟩
      rw [Nat.add_sub_cancel' hge, Nat.mod_eq_of_lt ho]

theorem fdbProbe_nodup (macAddr : EtherAddr) (vlanId : UInt16) :
    (fdbProbe macAddr vlanId).Nodup := by
  have hhash := fdbJenkinsHash_lt macAddr vlanId
  refine List.Nodup.map_on ?_ List.nodup_range
  intro a ha b hb heq
  rw [List.mem_range] at ha hb
  have hmod : a ≡ b [MOD FDB_SIZE] := Nat.ModEq.add_left_cancel' _ heq
  unfold Nat.ModEq at hmod
  rwa [Nat.mod_eq_of_lt ha, Nat.mod_eq_of_lt hb] at hmod

/-! ## The table as one key sees it -/

/-- What slot `o` holds under the key: the time at which it was written, and the port. -/
def fdbView (fdb : Nat → FdbEntry) (macAddr : EtherAddr) (vlanId : UInt16) (o : Nat) :
    Option (Int × Int) :=
  if o < FDB_SIZE ∧ (fdb o).state = FDB_STATE_ACTIVE ∧ (fdb o).l2addr = macAddr
    ∧ (fdb o).vlanId = vlanId then some ((fdb o).lastSeen, (fdb o).port)
  else none

theorem fdbView_eq_some {fdb : Nat → FdbEntry} {macAddr : EtherAddr} {vlanId : UInt16} {o : Nat}
    {x : Int × Int} : fdbView fdb macAddr vlanId o = some x ↔
      (o < FDB_SIZE ∧ (fdb o).state = FDB_STATE_ACTIVE ∧ (fdb o).l2addr = macAddr
        ∧ (fdb o).vlanId = vlanId) ∧ ((fdb o).lastSeen, (fdb o).port) = x := by
  unfold fdbView
  split
  · next h => simp [h]
  · next h => simp [h]

/-- The newest entry of the key. -/
def fdbNewest (fdb : Nat → FdbEntry) (macAddr : EtherAddr) (vlanId : UInt16) :
    Option (Int × Int) :=
  (fdbProbe macAddr vlanId).findSome? (fdbView fdb macAddr vlanId)

theorem fdbLookupEntry_eq (fdb : Nat → FdbEntry) (macAddr : EtherAddr) (vlanId : UInt16) :
    fdbLookupEntry fdb macAddr vlanId = ((fdbNewest fdb macAddr vlanId).map (·.2)).getD (-1) := by
  have hscan : ∀ order : List Nat, (∀ o ∈ order, o < FDB_SIZE) →
      order.findSome? (fdbView fdb macAddr vlanId)
        = (order.find? fun offset =>
            decide ((fdb offset).l2addr = macAddr) && decide ((fdb offset).vlanId = vlanId)
              && decide ((fdb offset).state = FDB_STATE_ACTIVE)).map
            fun o => ((fdb o).lastSeen, (fdb o).port) := by
    intro order horder
    induction order with
    | nil => rfl
    | cons o rest ih =>
      have ho := horder o (List.mem_cons_self ..)
      have ih := ih fun i hi => horder i (List.mem_cons_of_mem _ hi)
      by_cases hkey : (fdb o).l2addr = macAddr ∧ (fdb o).vlanId = vlanId
          ∧ (fdb o).state = FDB_STATE_ACTIVE
      · obtain ⟨hmac, hvlan, hstate⟩ := hkey
        simp [fdbView, ho, hmac, hvlan, hstate]
      · have hview : fdbView fdb macAddr vlanId o = none := by
          unfold fdbView
          rw [if_neg]
          tauto
        have hmiss : (decide ((fdb o).l2addr = macAddr) && decide ((fdb o).vlanId = vlanId)
            && decide ((fdb o).state = FDB_STATE_ACTIVE)) = false := by
          simp only [Bool.and_eq_false_imp, Bool.and_eq_true, decide_eq_true_eq,
            decide_eq_false_iff_not]
          tauto
        rw [List.findSome?_cons, hview, List.find?_cons, hmiss, ih]
  rw [fdbNewest, hscan _ fun o ho => mem_fdbProbe.mp ho]
  unfold fdbLookupEntry
  cases (fdbProbe macAddr vlanId).find? fun offset =>
    decide ((fdb offset).l2addr = macAddr) && decide ((fdb offset).vlanId = vlanId)
      && decide ((fdb offset).state = FDB_STATE_ACTIVE) with
  | none => rfl
  | some o => rfl

/-! ## What the operations do -/

/-- The answer and the table after `fdb_add_entry`. -/
inductive FdbAdded (fdb : Nat → FdbEntry) (time : Int) (macAddr : EtherAddr) (vlanId : UInt16)
    (port : Int) : Option Nat × (Nat → FdbEntry) → Prop
  | full (hfull : ∀ o < FDB_SIZE, (fdb o).state ≠ FDB_STATE_NONE
      ∧ ¬((fdb o).l2addr = macAddr ∧ (fdb o).vlanId = vlanId)) :
      FdbAdded fdb time macAddr vlanId port (none, fdb)
  | placed {before after : List Nat} {o : Nat}
      (hprobe : fdbProbe macAddr vlanId = before ++ o :: after)
      (hbefore : ∀ i ∈ before, (fdb i).state ≠ FDB_STATE_NONE
        ∧ ¬((fdb i).l2addr = macAddr ∧ (fdb i).vlanId = vlanId))
      (hslot : (fdb o).state = FDB_STATE_NONE
        ∨ (fdb o).l2addr = macAddr ∧ (fdb o).vlanId = vlanId) :
      FdbAdded fdb time macAddr vlanId port
        (some o, Function.update fdb o ⟨macAddr, port, vlanId, FDB_STATE_ACTIVE, time⟩)

theorem fdbAdded (fdb : Nat → FdbEntry) (time : Int) (macAddr : EtherAddr) (vlanId : UInt16)
    (port : Int) :
    FdbAdded fdb time macAddr vlanId port (fdbAddEntry fdb time macAddr vlanId port) := by
  have hstop : ∀ o, (decide ((fdb o).state = FDB_STATE_NONE)
      || (decide ((fdb o).l2addr = macAddr) && decide ((fdb o).vlanId = vlanId))) = true ↔
      (fdb o).state = FDB_STATE_NONE ∨ (fdb o).l2addr = macAddr ∧ (fdb o).vlanId = vlanId := by
    simp
  unfold fdbAddEntry
  dsimp only
  rw [show ((List.range FDB_SIZE).map fun d => (fdbJenkinsHash macAddr vlanId + d) % FDB_SIZE)
    = fdbProbe macAddr vlanId from rfl]
  cases hfind : (fdbProbe macAddr vlanId).find? fun offset =>
      decide ((fdb offset).state = FDB_STATE_NONE)
        || (decide ((fdb offset).l2addr = macAddr) && decide ((fdb offset).vlanId = vlanId)) with
  | none =>
    refine .full fun o ho => ?_
    have hmiss := List.find?_eq_none.mp hfind o (mem_fdbProbe.mpr ho)
    rw [hstop] at hmiss
    exact not_or.mp hmiss
  | some o =>
    obtain ⟨hslot, before, after, hprobe, hbefore⟩ := List.find?_eq_some_iff_append.mp hfind
    rw [hstop] at hslot
    have hother : ∀ i ∈ before, (fdb i).state ≠ FDB_STATE_NONE
        ∧ ¬((fdb i).l2addr = macAddr ∧ (fdb i).vlanId = vlanId) := by
      intro i hi
      have hmiss := hbefore i hi
      rw [Bool.not_eq_true', ← Bool.not_eq_true, hstop] at hmiss
      exact not_or.mp hmiss
    have hplaced : FdbAdded fdb time macAddr vlanId port
        (some o, Function.update fdb o ⟨macAddr, port, vlanId, FDB_STATE_ACTIVE, time⟩) :=
      .placed hprobe hother hslot
    dsimp only
    split
    · next hstate =>
      obtain ⟨hmac, hvlan⟩ := hslot.resolve_left hstate
      rwa [show ({ fdb o with port := port, lastSeen := time, state := FDB_STATE_ACTIVE }
        : FdbEntry) = ⟨macAddr, port, vlanId, FDB_STATE_ACTIVE, time⟩ by rw [← hmac, ← hvlan]]
    · exact hplaced

section Views

variable {fdb : Nat → FdbEntry} {macAddr : EtherAddr} {vlanId : UInt16} {time port : Int} {o : Nat}

/-- The key that is added sees one slot written. -/
theorem fdbView_placed (ho : o < FDB_SIZE) :
    fdbView (Function.update fdb o ⟨macAddr, port, vlanId, FDB_STATE_ACTIVE, time⟩) macAddr vlanId
      = Function.update (fdbView fdb macAddr vlanId) o (some (time, port)) := by
  funext i
  by_cases hi : i = o
  · subst hi
    simp [fdbView, ho]
  · simp [fdbView, Function.update_of_ne hi]

/-- Another key sees nothing. -/
theorem fdbView_placed_other {mac : EtherAddr} {vlan : UInt16}
    (hslot : (fdb o).state = FDB_STATE_NONE ∨ (fdb o).l2addr = macAddr ∧ (fdb o).vlanId = vlanId)
    (hne : ¬(mac = macAddr ∧ vlan = vlanId)) :
    fdbView (Function.update fdb o ⟨macAddr, port, vlanId, FDB_STATE_ACTIVE, time⟩) mac vlan
      = fdbView fdb mac vlan := by
  funext i
  by_cases hi : i = o
  · subst hi
    unfold fdbView
    rw [Function.update_self, if_neg, if_neg]
    · rintro ⟨-, hactive, hmac, hvlan⟩
      rcases hslot with hnone | ⟨hmac', hvlan'⟩
      · rw [hnone] at hactive
        exact absurd hactive (by decide)
      · exact hne ⟨hmac.symm.trans hmac', hvlan.symm.trans hvlan'⟩
    · rintro ⟨-, -, hmac, hvlan⟩
      exact hne ⟨hmac.symm, hvlan.symm⟩
  · simp [fdbView, Function.update_of_ne hi]

/-- What is written in front of everything the key has is the newest. -/
theorem fdbNewest_write {fdb' : Nat → FdbEntry} {before after : List Nat} {x : Int × Int}
    (hprobe : fdbProbe macAddr vlanId = before ++ o :: after)
    (hbefore : ∀ i ∈ before, fdbView fdb macAddr vlanId i = none)
    (hview : fdbView fdb' macAddr vlanId
      = Function.update (fdbView fdb macAddr vlanId) o (some x)) :
    fdbNewest fdb' macAddr vlanId = some x := by
  have hnodup := fdbProbe_nodup macAddr vlanId
  rw [hprobe] at hnodup
  rw [fdbNewest, hview]
  refine Lib.findSome?_write hprobe (fun i hi => ⟨?_, hbefore i hi⟩) x
  rintro rfl
  exact (List.nodup_append.mp hnodup).2.2 i hi i (List.mem_cons_self ..) rfl

/-- Ageing is a filter on what every key sees. -/
theorem fdbView_aging (fdb : Nat → FdbEntry) (now maxAge : Int) :
    fdbView (fdbAgingProcess fdb now maxAge) macAddr vlanId
      = fun i => (fdbView fdb macAddr vlanId i).filter (young now maxAge) := by
  funext i
  by_cases hheld : i < FDB_SIZE ∧ (fdb i).state = FDB_STATE_ACTIVE ∧ (fdb i).l2addr = macAddr
      ∧ (fdb i).vlanId = vlanId
  · obtain ⟨hi, hstate, hmac, hvlan⟩ := hheld
    by_cases hold : now - (fdb i).lastSeen > maxAge
    · have hnone : FDB_STATE_NONE ≠ FDB_STATE_ACTIVE := by decide
      have hnot : young now maxAge ((fdb i).lastSeen, (fdb i).port) = false := by
        simp only [young, decide_eq_false_iff_not]
        omega
      simp [fdbView, fdbAgingProcess, hi, hstate, hmac, hvlan, hold, hnone, Option.filter, hnot]
    · have hyoung : young now maxAge ((fdb i).lastSeen, (fdb i).port) = true := by
        rw [Lib.young_iff]
        omega
      simp [fdbView, fdbAgingProcess, hi, hstate, hmac, hvlan, hold, Option.filter, hyoung]
  · have hview : fdbView fdb macAddr vlanId i = none := by
      unfold fdbView
      rw [if_neg hheld]
    rw [hview, Option.filter_none]
    unfold fdbView
    rw [if_neg]
    intro hheld'
    apply hheld
    unfold fdbAgingProcess at hheld'
    split at hheld'
    · have hstate : FDB_STATE_NONE = FDB_STATE_ACTIVE := hheld'.2.1
      exact absurd hstate (by decide)
    · exact hheld'

end Views

/-! ## Sequences of calls -/

/-- A call, and the time it reads off the clock. -/
inductive FdbOp
  | add (time : Int) (macAddr : EtherAddr) (vlanId : UInt16) (port : Int)
  | age (time maxAge : Int)
deriving DecidableEq

def FdbOp.time : FdbOp → Int
  | .add time _ _ _ => time
  | .age time _ => time

def FdbOp.apply (fdb : Nat → FdbEntry) : FdbOp → Nat → FdbEntry
  | .add time macAddr vlanId port => (fdbAddEntry fdb time macAddr vlanId port).2
  | .age time maxAge => fdbAgingProcess fdb time maxAge

/-- The table after the calls, from the zero table. -/
def fdbRun (ops : List FdbOp) : Nat → FdbEntry := ops.foldl FdbOp.apply fun _ => .zero

@[simp] theorem fdbRun_nil : fdbRun [] = fun _ => FdbEntry.zero := rfl

theorem fdbRun_snoc (ops : List FdbOp) (op : FdbOp) :
    fdbRun (ops ++ [op]) = op.apply (fdbRun ops) := by simp [fdbRun]

/-- `op`, called on the table `fdb`, is an add of the key that does not answer `-1`. -/
def FdbOp.Adds (fdb : Nat → FdbEntry) (macAddr : EtherAddr) (vlanId : UInt16) (time port : Int)
    (op : FdbOp) : Prop :=
  op = .add time macAddr vlanId port ∧ (fdbAddEntry fdb time macAddr vlanId port).1 ≠ none

/-- The last successful add of the key stands between `before` and `after`. -/
structure LastAdd (ops : List FdbOp) (macAddr : EtherAddr) (vlanId : UInt16)
    (before after : List FdbOp) (time port : Int) : Prop where
  split : ops = before ++ .add time macAddr vlanId port :: after
  succeeds : (fdbAddEntry (fdbRun before) time macAddr vlanId port).1 ≠ none
  last : ∀ mid op rest t p, after = mid ++ op :: rest →
    ¬op.Adds (fdbRun (before ++ .add time macAddr vlanId port :: mid)) macAddr vlanId t p

/-- No later ageing run has found the age limit exceeded for an add at `time`. -/
def NotAged (after : List FdbOp) (time : Int) : Prop :=
  ∀ t maxAge, .age t maxAge ∈ after → t - time ≤ maxAge

section History

variable {ops before after : List FdbOp} {op : FdbOp} {macAddr : EtherAddr} {vlanId : UInt16}
  {time port : Int}

/-- One more call is the last add itself, or follows it. -/
theorem lastAdd_snoc : LastAdd (ops ++ [op]) macAddr vlanId before after time port ↔
    (before = ops ∧ after = [] ∧ op.Adds (fdbRun ops) macAddr vlanId time port)
      ∨ ∃ after', after = after' ++ [op] ∧ LastAdd ops macAddr vlanId before after' time port
          ∧ ∀ t p, ¬op.Adds (fdbRun ops) macAddr vlanId t p := by
  constructor
  · rintro ⟨hsplit, hsucc, hlast⟩
    rcases List.eq_nil_or_concat after with rfl | ⟨after', op', rfl⟩
    · obtain ⟨rfl, hop⟩ := List.append_inj' hsplit rfl
      obtain rfl : op = _ := by simpa using hop
      exact .inl ⟨rfl, rfl, rfl, hsucc⟩
    · rw [List.concat_eq_append] at hsplit hlast ⊢
      rw [← List.cons_append, ← List.append_assoc] at hsplit
      obtain ⟨rfl, hop⟩ := List.append_inj' hsplit rfl
      obtain rfl : op = op' := by simpa using hop
      refine .inr ⟨after', rfl, ⟨rfl, hsucc, ?_⟩, ?_⟩
      · intro mid op' rest t p heq
        exact hlast mid op' (rest ++ [op]) t p (by simp [heq])
      · intro t p
        exact hlast after' op [] t p rfl
  · rintro (⟨rfl, rfl, rfl, hsucc⟩ | ⟨after', rfl, ⟨rfl, hsucc, hlast⟩, hop⟩)
    · exact ⟨rfl, hsucc, fun mid op' rest t p heq => absurd heq (by simp)⟩
    · refine ⟨by simp, hsucc, ?_⟩
      intro mid op' rest t p heq
      rcases List.eq_nil_or_concat rest with rfl | ⟨rest', op'', rfl⟩
      · obtain ⟨rfl, hop'⟩ := List.append_inj' heq rfl
        obtain rfl : op = op' := by simpa using hop'
        exact hop t p
      · rw [List.concat_eq_append, ← List.cons_append, ← List.append_assoc] at heq
        obtain ⟨heq', -⟩ := List.append_inj' heq rfl
        exact hlast mid op' rest' t p heq'

theorem notAged_snoc : NotAged (after ++ [op]) time ↔
    NotAged after time ∧ ∀ t maxAge, op = .age t maxAge → t - time ≤ maxAge := by
  constructor
  · intro h
    refine ⟨fun t m hmem => h t m (List.mem_append_left _ hmem), ?_⟩
    rintro t m rfl
    exact h t m (by simp)
  · rintro ⟨h, hop⟩ t m hmem
    rcases List.mem_append.mp hmem with hmem | hmem
    · exact h t m hmem
    · exact hop t m (List.mem_singleton.mp hmem).symm

end History

/-- What the table has of a key, after a history of calls. -/
structure Remembers (ops : List FdbOp) (now : Int) (macAddr : EtherAddr) (vlanId : UInt16) :
    Prop where
  newest : NewestFirst (fdbProbe macAddr vlanId) (fdbView (fdbRun ops) macAddr vlanId)
  past : ∀ o, ∀ x ∈ fdbView (fdbRun ops) macAddr vlanId o, x.1 ≤ now
  kept : ∀ before after time port, LastAdd ops macAddr vlanId before after time port →
    NotAged after time → fdbNewest (fdbRun ops) macAddr vlanId = some (time, port)
  aged : ∀ before after time port, LastAdd ops macAddr vlanId before after time port →
    ¬NotAged after time → fdbNewest (fdbRun ops) macAddr vlanId = none
  never : (∀ before after time port, ¬LastAdd ops macAddr vlanId before after time port) →
    fdbNewest (fdbRun ops) macAddr vlanId = none

section Steps

variable {ops : List FdbOp} {now : Int} {macAddr : EtherAddr} {vlanId : UInt16}

theorem remembers_nil (now : Int) (macAddr : EtherAddr) (vlanId : UInt16) :
    Remembers [] now macAddr vlanId := by
  have hview : fdbView (fdbRun []) macAddr vlanId = fun _ => none := by
    funext o
    unfold fdbView
    rw [if_neg]
    rintro ⟨-, hstate, -⟩
    have hzero : FdbEntry.zero.state = FDB_STATE_ACTIVE := hstate
    exact absurd hzero (by decide)
  have hlast : ∀ before after time port, ¬LastAdd [] macAddr vlanId before after time port := by
    intro before after time port h
    exact absurd h.split (by simp)
  refine ⟨?_, ?_, ?_, ?_, ?_⟩
  · rw [hview]
    exact Lib.newestFirst_none _
  · intro o x hx
    rw [hview] at hx
    exact absurd hx (by simp)
  · intro before after time port h
    exact absurd h (hlast before after time port)
  · intro before after time port h
    exact absurd h (hlast before after time port)
  · intro _
    rw [fdbNewest, hview]
    exact List.findSome?_eq_none_iff.mpr fun _ _ => rfl

/-- The key is added. -/
theorem Remembers.added (h : Remembers ops now macAddr vlanId) {time port : Int}
    (hnow : now ≤ time) {before after : List Nat} {o : Nat}
    (hprobe : fdbProbe macAddr vlanId = before ++ o :: after)
    (hbefore : ∀ i ∈ before, fdbView (fdbRun ops) macAddr vlanId i = none)
    (hview : fdbView (fdbRun (ops ++ [.add time macAddr vlanId port])) macAddr vlanId
      = Function.update (fdbView (fdbRun ops) macAddr vlanId) o (some (time, port)))
    (hsucc : (fdbAddEntry (fdbRun ops) time macAddr vlanId port).1 ≠ none) :
    Remembers (ops ++ [.add time macAddr vlanId port]) time macAddr vlanId := by
  have hpast : ∀ i, ∀ x ∈ fdbView (fdbRun ops) macAddr vlanId i, x.1 ≤ time :=
    fun i x hx => le_trans (h.past i x hx) hnow
  have hnodup := fdbProbe_nodup macAddr vlanId
  have hnewest : fdbNewest (fdbRun (ops ++ [.add time macAddr vlanId port])) macAddr vlanId
      = some (time, port) := fdbNewest_write hprobe hbefore hview
  -- whatever the last add is, it is this one
  have hthis : ∀ before' after' t p,
      LastAdd (ops ++ [.add time macAddr vlanId port]) macAddr vlanId before' after' t p →
      after' = [] ∧ t = time ∧ p = port := by
    intro before' after' t p hlast
    rcases lastAdd_snoc.mp hlast with ⟨-, rfl, hop, -⟩ | ⟨-, -, -, hnot⟩
    · obtain ⟨rfl, -, -, rfl⟩ := FdbOp.add.inj hop
      exact ⟨rfl, rfl, rfl⟩
    · exact absurd ⟨rfl, hsucc⟩ (hnot time port)
  refine ⟨?_, ?_, ?_, ?_, ?_⟩
  · rw [hview]
    exact h.newest.write hprobe hnodup hbefore hpast
  · intro i x hx
    rw [hview] at hx
    by_cases hi : i = o
    · subst hi
      rw [Function.update_self] at hx
      obtain rfl : (time, port) = x := by simpa using hx
      exact le_refl time
    · rw [Function.update_of_ne hi] at hx
      exact hpast i x hx
  · intro before' after' t p hlast _
    obtain ⟨-, rfl, rfl⟩ := hthis before' after' t p hlast
    exact hnewest
  · intro before' after' t p hlast haged
    obtain ⟨rfl, -, -⟩ := hthis before' after' t p hlast
    exact absurd (fun t m hmem => absurd hmem (by simp)) haged
  · intro hnever
    exact absurd (lastAdd_snoc.mpr (.inl ⟨rfl, rfl, rfl, hsucc⟩)) (hnever ops [] time port)

/-- A call that is not an add of the key, or fails, and changes nothing that the key sees. -/
theorem Remembers.unseen (h : Remembers ops now macAddr vlanId) {op : FdbOp} {now' : Int}
    (hnow : now ≤ now')
    (hview : fdbView (fdbRun (ops ++ [op])) macAddr vlanId = fdbView (fdbRun ops) macAddr vlanId)
    (hop : ∀ t p, ¬op.Adds (fdbRun ops) macAddr vlanId t p) (hage : ∀ t m, op ≠ .age t m) :
    Remembers (ops ++ [op]) now' macAddr vlanId := by
  have hnewest : fdbNewest (fdbRun (ops ++ [op])) macAddr vlanId
      = fdbNewest (fdbRun ops) macAddr vlanId := by rw [fdbNewest, hview, fdbNewest]
  -- the last add is the one of the calls before
  have hbefore : ∀ before after time port, LastAdd (ops ++ [op]) macAddr vlanId before after time port →
      ∃ after', after = after' ++ [op] ∧ LastAdd ops macAddr vlanId before after' time port := by
    intro before after time port hlast
    rcases lastAdd_snoc.mp hlast with ⟨-, -, hadds⟩ | ⟨after', rfl, hlast, -⟩
    · exact absurd hadds (hop time port)
    · exact ⟨after', rfl, hlast⟩
  have haged : ∀ {after : List FdbOp} {time : Int}, NotAged (after ++ [op]) time ↔ NotAged after time := by
    intro after time
    rw [notAged_snoc, and_iff_left fun t m heq => absurd heq (hage t m)]
  refine ⟨?_, ?_, ?_, ?_, ?_⟩
  · rw [hview]
    exact h.newest
  · intro o x hx
    rw [hview] at hx
    exact le_trans (h.past o x hx) hnow
  · intro before after time port hlast hnot
    obtain ⟨after', rfl, hprev⟩ := hbefore before after time port hlast
    rw [hnewest]
    exact h.kept before after' time port hprev (haged.mp hnot)
  · intro before after time port hlast hnot
    obtain ⟨after', rfl, hprev⟩ := hbefore before after time port hlast
    rw [hnewest]
    exact h.aged before after' time port hprev fun hage => hnot (haged.mpr hage)
  · intro hnever
    rw [hnewest]
    refine h.never fun before after time port hlast => ?_
    exact hnever before (after ++ [op]) time port (lastAdd_snoc.mpr (.inr ⟨after, rfl, hlast, hop⟩))

/-- An ageing run. -/
theorem Remembers.aging (h : Remembers ops now macAddr vlanId) {time maxAge : Int}
    (hnow : now ≤ time) : Remembers (ops ++ [.age time maxAge]) time macAddr vlanId := by
  have hview : fdbView (fdbRun (ops ++ [.age time maxAge])) macAddr vlanId
      = fun i => (fdbView (fdbRun ops) macAddr vlanId i).filter (young time maxAge) := by
    rw [fdbRun_snoc]
    exact fdbView_aging _ time maxAge
  have hnewest : fdbNewest (fdbRun (ops ++ [.age time maxAge])) macAddr vlanId
      = (fdbNewest (fdbRun ops) macAddr vlanId).filter (young time maxAge) := by
    rw [fdbNewest, hview]
    exact Lib.findSome?_keep h.newest time maxAge
  have hop : ∀ t p, ¬(FdbOp.age time maxAge).Adds (fdbRun ops) macAddr vlanId t p :=
    fun t p hadds => nomatch hadds.1
  have hbefore : ∀ before after t p,
      LastAdd (ops ++ [.age time maxAge]) macAddr vlanId before after t p →
      ∃ after', after = after' ++ [.age time maxAge] ∧ LastAdd ops macAddr vlanId before after' t p := by
    intro before after t p hlast
    rcases lastAdd_snoc.mp hlast with ⟨-, -, hadds⟩ | ⟨after', rfl, hlast, -⟩
    · exact absurd hadds (hop t p)
    · exact ⟨after', rfl, hlast⟩
  have haged : ∀ {after : List FdbOp} {t : Int},
      NotAged (after ++ [.age time maxAge]) t ↔ NotAged after t ∧ time - t ≤ maxAge := by
    intro after t
    rw [notAged_snoc, and_congr_right_iff]
    intro _
    exact ⟨fun hage => hage time maxAge rfl, fun hle t' m heq => by cases heq; exact hle⟩
  refine ⟨?_, ?_, ?_, ?_, ?_⟩
  · rw [hview]
    exact h.newest.keep _
  · intro o x hx
    rw [hview] at hx
    exact le_trans (h.past o x (Option.mem_filter_iff.mp hx).1) hnow
  · intro before after t p hlast hnot
    obtain ⟨after', rfl, hprev⟩ := hbefore before after t p hlast
    obtain ⟨hnot, hyoung⟩ := haged.mp hnot
    rw [hnewest, h.kept before after' t p hprev hnot]
    simp [Option.filter, Lib.young_iff, hyoung]
  · intro before after t p hlast hnot
    obtain ⟨after', rfl, hprev⟩ := hbefore before after t p hlast
    rw [hnewest]
    by_cases hkept : NotAged after' t
    · have hold : ¬time - t ≤ maxAge := fun hle => hnot (haged.mpr ⟨hkept, hle⟩)
      rw [h.kept before after' t p hprev hkept]
      simp [Option.filter, Lib.young_iff, hold]
    · rw [h.aged before after' t p hprev hkept]
      rfl
  · intro hnever
    rw [hnewest, h.never fun before after t p hlast => hnever before (after ++ [.age time maxAge]) t p
      (lastAdd_snoc.mpr (.inr ⟨after, rfl, hlast, hop⟩))]
    rfl

theorem Remembers.step (h : Remembers ops now macAddr vlanId) {op : FdbOp}
    (hnow : now ≤ op.time) : Remembers (ops ++ [op]) op.time macAddr vlanId := by
  cases op with
  | age time maxAge => exact h.aging hnow
  | add time mac vlan port =>
    have hadded := fdbAdded (fdbRun ops) time mac vlan port
    have hrun : fdbRun (ops ++ [.add time mac vlan port])
        = (fdbAddEntry (fdbRun ops) time mac vlan port).2 := fdbRun_snoc ops _
    generalize hres : fdbAddEntry (fdbRun ops) time mac vlan port = res at hadded hrun
    cases hadded with
    | full hfull =>
      refine h.unseen hnow (by rw [hrun]) ?_ (fun _ _ heq => nomatch heq)
      rintro t p ⟨hop, hsucc⟩
      obtain ⟨rfl, rfl, rfl, rfl⟩ := FdbOp.add.inj hop
      exact hsucc (by rw [hres])
    | placed hprobe hbefore hslot =>
      by_cases hkey : macAddr = mac ∧ vlanId = vlan
      · obtain ⟨rfl, rfl⟩ := hkey
        have ho := mem_fdbProbe.mp (hprobe ▸ List.mem_append_right _ (List.mem_cons_self ..))
        refine h.added hnow hprobe ?_ ?_ (by rw [hres]; simp)
        · intro i hi
          rw [← Option.not_isSome_iff_eq_none, Option.isSome_iff_exists]
          rintro ⟨x, hx⟩
          exact (hbefore i hi).2 (fdbView_eq_some.mp hx).1.2.2
        · rw [hrun]
          exact fdbView_placed ho
      · refine h.unseen hnow ?_ ?_ (fun _ _ heq => nomatch heq)
        · rw [hrun]
          exact fdbView_placed_other hslot hkey
        · rintro t p ⟨hop, -⟩
          obtain ⟨-, rfl, rfl, -⟩ := FdbOp.add.inj hop
          exact hkey ⟨rfl, rfl⟩

end Steps

/-! ## Every sequence of calls -/

theorem Remembers.mono {ops : List FdbOp} {now now' : Int} {macAddr : EtherAddr} {vlanId : UInt16}
    (h : Remembers ops now macAddr vlanId) (hle : now ≤ now') :
    Remembers ops now' macAddr vlanId :=
  ⟨h.newest, fun o x hx => le_trans (h.past o x hx) hle, h.kept, h.aged, h.never⟩

theorem remembers_run (macAddr : EtherAddr) (vlanId : UInt16) {ops : List FdbOp}
    (hclock : (ops.map FdbOp.time).Pairwise (· ≤ ·)) {now : Int}
    (hnow : ∀ op ∈ ops, op.time ≤ now) : Remembers ops now macAddr vlanId := by
  induction ops using List.reverseRecOn generalizing now with
  | nil => exact remembers_nil now macAddr vlanId
  | append_singleton ops op ih =>
    simp only [List.map_append, List.map_cons, List.map_nil, List.pairwise_append,
      List.mem_map, List.mem_singleton] at hclock
    obtain ⟨hclock, -, hlast⟩ := hclock
    have hbefore := ih hclock fun op' hop' => hlast _ ⟨op', hop', rfl⟩ _ rfl
    exact (hbefore.step (le_refl _)).mono (hnow op (by simp))

/-- A slot is free or active. -/
def FdbStates (fdb : Nat → FdbEntry) : Prop :=
  ∀ o, (fdb o).state = FDB_STATE_NONE ∨ (fdb o).state = FDB_STATE_ACTIVE

theorem FdbStates.step {fdb : Nat → FdbEntry} (h : FdbStates fdb) (op : FdbOp) :
    FdbStates (op.apply fdb) := by
  intro o
  cases op with
  | age time maxAge =>
    simp only [FdbOp.apply, fdbAgingProcess]
    split
    · exact .inl rfl
    · exact h o
  | add time mac vlan port =>
    have hadded := fdbAdded fdb time mac vlan port
    simp only [FdbOp.apply]
    generalize fdbAddEntry fdb time mac vlan port = res at hadded
    cases hadded with
    | full _ => exact h o
    | @placed _ _ o' _ _ _ =>
      dsimp only
      rw [Function.update_apply]
      split
      · exact .inr rfl
      · exact h o

theorem fdbRun_states (ops : List FdbOp) : FdbStates (fdbRun ops) := by
  induction ops using List.reverseRecOn with
  | nil => exact fun _ => .inl rfl
  | append_singleton ops op ih =>
    rw [fdbRun_snoc]
    exact ih.step op

/-- **The forwarding database is a map with ageing.** After any calls under a clock that does
    not run backwards, a key is looked up as its last successful add left it, until an ageing
    run finds that add too old; and an add fails only when every slot is active with another
    key. -/
theorem fdb_refines_ageing_map (ops : List FdbOp) (hclock : (ops.map FdbOp.time).Pairwise (· ≤ ·))
    (macAddr : EtherAddr) (vlanId : UInt16) :
    (∀ before after time port, LastAdd ops macAddr vlanId before after time port →
        NotAged after time → fdbLookupEntry (fdbRun ops) macAddr vlanId = port)
      ∧ ((∀ before after time port, LastAdd ops macAddr vlanId before after time port →
          ¬NotAged after time) → fdbLookupEntry (fdbRun ops) macAddr vlanId = -1)
      ∧ ∀ time port, (fdbAddEntry (fdbRun ops) time macAddr vlanId port).1 = none →
          ∀ o < FDB_SIZE, (fdbRun ops o).state = FDB_STATE_ACTIVE
            ∧ ¬((fdbRun ops o).l2addr = macAddr ∧ (fdbRun ops o).vlanId = vlanId) := by
  have hbound : ∃ now : Int, ∀ op ∈ ops, op.time ≤ now := by
    obtain ⟨now, hnow⟩ := (ops.map FdbOp.time).toFinset.exists_le
    exact ⟨now, fun op hop => hnow _ (List.mem_toFinset.mpr (List.mem_map_of_mem hop))⟩
  obtain ⟨now, hnow⟩ := hbound
  have hrem := remembers_run macAddr vlanId hclock hnow
  refine ⟨?_, ?_, ?_⟩
  · intro before after time port hlast hyoung
    rw [fdbLookupEntry_eq, hrem.kept before after time port hlast hyoung]
    rfl
  · intro hold
    have hnone : fdbNewest (fdbRun ops) macAddr vlanId = none := by
      by_cases hex : ∃ before after time port, LastAdd ops macAddr vlanId before after time port
      · obtain ⟨before, after, time, port, hlast⟩ := hex
        exact hrem.aged before after time port hlast (hold before after time port hlast)
      · exact hrem.never fun before after time port hlast => hex ⟨before, after, time, port, hlast⟩
    rw [fdbLookupEntry_eq, hnone]
    rfl
  · intro time port hfail o ho
    have hadded := fdbAdded (fdbRun ops) time macAddr vlanId port
    generalize fdbAddEntry (fdbRun ops) time macAddr vlanId port = res at hadded hfail
    cases hadded with
    | full hfull =>
      exact ⟨(fdbRun_states ops o).resolve_left (hfull o ho).1, (hfull o ho).2⟩
    | placed _ _ _ => exact absurd hfail (by simp)

/-- A host that was forgotten, came back on another port and is still young. -/
theorem fdb_refines_ageing_map_returned :
    fdbLookupEntry (fdbRun [.add 0 (zeros 6) 10 1, .age 100 60, .add 100 (zeros 6) 10 2,
      .age 130 60]) (zeros 6) 10 = 2 := by
  refine (fdb_refines_ageing_map [.add 0 (zeros 6) 10 1, .age 100 60, .add 100 (zeros 6) 10 2,
    .age 130 60] (by decide) (zeros 6) 10).1 [.add 0 (zeros 6) 10 1, .age 100 60] [.age 130 60]
    100 2 ⟨rfl, by decide +kernel, ?_⟩ ?_
  · rintro mid op rest t p heq ⟨rfl, -⟩
    have hmem : FdbOp.add t (zeros 6) 10 p ∈ [FdbOp.age 130 60] := by
      rw [heq]
      simp
    simp at hmem
  · intro t maxAge hmem
    obtain ⟨rfl, rfl⟩ : t = 130 ∧ maxAge = 60 := by simpa using hmem
    decide

end SdPlane
