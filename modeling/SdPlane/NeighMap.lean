import SdPlane.Lib.Increasing
import SdPlane.Lib.Run
import SdPlane.Neigh

/-!
# The neighbor table as a map

The entries of a table are kept in the order of their addresses, of which a table of ARP entries
compares four bytes and one of ND entries sixteen. `NeighMap` is what such a table is for, a map
from these bytes to entries, and `Represents` says that the table holds what the map does, in
order. Both operations keep it (`represents_run`): the bisection ends at the entry, or at the one
place where an entry can be put in.

An add that answers `-1` leaves the map alone. It does so whenever the table is full, since that is
looked at before the address is: an entry that is there is not updated then
(`neighAdd_accepts_iff`).
-/

set_option autoImplicit false

namespace SdPlane

open Lib (Increasing PlaceFor insertAt eraseAt)

/-! ## Keys -/

/-- The key of entry `i`. -/
def NeighTable.keys (t : NeighTable) (type : Nat) : Nat → List UInt8 :=
  fun i => neighKey type (t.entries i).ipAddr

/-- An entry of the table has the key. -/
def NeighTable.Has (t : NeighTable) (type : Nat) (key : List UInt8) : Prop :=
  ∃ i, i < t.numEntries.toNat ∧ t.keys type i = key

/-! ## Bisection -/

/-- What is left of the array in a round of the bisection. -/
structure Window (keys : Nat → List UInt8) (n : Nat) (key : List UInt8) (left right : Nat) : Prop where
  le : left ≤ right
  bound : right ≤ n
  before : ∀ i, i < left → compare (keys i) key = .lt
  after : ∀ j, right ≤ j → j < n → compare key (keys j) = .lt

/-- The bisection ends at the entry with the key, or at the place for it. -/
theorem neighBisect_spec {type : Nat} {entries : Nat → NeighEntry} {key : IpAddr} {n : Nat}
    (hinc : Increasing (fun i => neighKey type (entries i).ipAddr) n) {fuel left right : Nat}
    (h : Window (fun i => neighKey type (entries i).ipAddr) n (neighKey type key) left right)
    (hfuel : right - left ≤ fuel) :
    (∃ pos, neighBisect type entries key fuel left right = (pos, true) ∧ pos < n
        ∧ neighKey type (entries pos).ipAddr = neighKey type key)
      ∨ ∃ pos, neighBisect type entries key fuel left right = (pos, false)
        ∧ PlaceFor (fun i => neighKey type (entries i).ipAddr) n (neighKey type key) pos := by
  have hdone : ∀ {left right : Nat}, ¬ left < right →
      Window (fun i => neighKey type (entries i).ipAddr) n (neighKey type key) left right →
      PlaceFor (fun i => neighKey type (entries i).ipAddr) n (neighKey type key) left := by
    intro left right hge hw
    have hle := hw.le
    obtain rfl : left = right := by omega
    exact ⟨hw.bound, hw.before, hw.after⟩
  induction fuel generalizing left right with
  | zero => exact .inr ⟨left, rfl, hdone (by omega) h⟩
  | succ fuel ih =>
    unfold neighBisect
    by_cases hlt : left < right
    · rw [if_pos hlt]
      dsimp only
      have hbound := h.bound
      generalize hmid : (left + (right - 1)) / 2 = mid
      have hin : left ≤ mid ∧ mid < right := by omega
      split
      · next heq =>
        exact .inl ⟨mid, rfl, by omega, Std.LawfulEqOrd.eq_of_compare heq⟩
      · next hless =>
        refine ih ⟨by omega, hbound, fun i hi => ?_, h.after⟩ (by omega)
        rcases Nat.lt_succ_iff_lt_or_eq.mp hi with hi | rfl
        · exact Std.TransCmp.lt_trans (hinc i mid hi (by omega)) hless
        · exact hless
      · next hgreater =>
        have hless := Std.OrientedCmp.lt_of_gt hgreater
        refine ih ⟨by omega, by omega, h.before, fun j hj hjn => ?_⟩ (by omega)
        rcases Nat.eq_or_lt_of_le hj with rfl | hj
        · exact hless
        · exact Std.TransCmp.lt_trans hless (hinc mid j hj hjn)
    · rw [if_neg hlt]
      exact .inr ⟨left, rfl, hdone hlt h⟩

/-- What `neigh_manager_lookup` answers for a table in order. -/
inductive LookedUp (type : Nat) (t : NeighTable) (key : IpAddr) : Nat × Bool → Prop
  | found {pos : Nat} (hpos : pos < t.numEntries.toNat) (hkey : t.keys type pos = neighKey type key) :
      LookedUp type t key (pos, true)
  | place {pos : Nat} (hplace : PlaceFor (t.keys type) t.numEntries.toNat (neighKey type key) pos) :
      LookedUp type t key (pos, false)

theorem lookedUp {type : Nat} {t : NeighTable} (hinc : Increasing (t.keys type) t.numEntries.toNat)
    (key : IpAddr) : LookedUp type t key (neighManagerLookup t type key) := by
  have hstart : Window (t.keys type) t.numEntries.toNat (neighKey type key) 0 t.numEntries.toNat :=
    ⟨Nat.zero_le _, le_rfl, fun i hi => absurd hi (Nat.not_lt_zero i),
      fun j hj hjn => absurd hjn (Nat.not_lt.mpr hj)⟩
  unfold neighManagerLookup
  rcases neighBisect_spec hinc hstart (Nat.sub_le ..) with ⟨pos, heq, hpos, hkey⟩ | ⟨pos, heq, hplace⟩
  · rw [heq]
    exact .found hpos hkey
  · rw [heq]
    exact .place hplace

/-- What becomes of an add. -/
inductive NeighAdded (type : Nat) (t : NeighTable) (data : NeighEntry) :
    Option Nat × NeighTable → Prop
  | full (hfull : t.numEntries ≥ MAX_NEIGHBOR_ENTRY_SIZE) : NeighAdded type t data (none, t)
  | updated {pos : Nat} (hroom : t.numEntries < MAX_NEIGHBOR_ENTRY_SIZE)
      (hpos : pos < t.numEntries.toNat) (hkey : t.keys type pos = neighKey type data.ipAddr) :
      NeighAdded type t data (some pos, { t with entries := Function.update t.entries pos data })
  | inserted {pos : Nat} (hroom : t.numEntries < MAX_NEIGHBOR_ENTRY_SIZE)
      (hplace : PlaceFor (t.keys type) t.numEntries.toNat (neighKey type data.ipAddr) pos) :
      NeighAdded type t data (some pos,
        ⟨Function.update (moveUp t.entries pos (t.numEntries.toNat - pos)) pos data, t.numEntries + 1⟩)

theorem neighAdded {type : Nat} {t : NeighTable} (hinc : Increasing (t.keys type) t.numEntries.toNat)
    (data : NeighEntry) : NeighAdded type t data (neighManagerAddEntry t type data) := by
  have hlooked := lookedUp hinc data.ipAddr
  unfold neighManagerAddEntry
  split
  · next hfull => exact .full hfull
  · next hroom =>
    generalize neighManagerLookup t type data.ipAddr = r at hlooked
    cases hlooked with
    | found hpos hkey => exact .updated (by omega) hpos hkey
    | place hplace =>
      have hle := hplace.le
      dsimp only
      rw [if_neg (by omega)]
      exact .inserted (by omega) hplace

/-! ## The map -/

/-- What is known of neighbors, by the bytes of the address that count. -/
abbrev NeighMap := List UInt8 → Option NeighEntry

/-- The table is in order and holds what the map does. -/
structure Represents (type : Nat) (t : NeighTable) (m : NeighMap) : Prop where
  sized : t.Sized
  increasing : Increasing (t.keys type) t.numEntries.toNat
  holds : ∀ key data, m key = some data ↔
    (∃ i, i < t.numEntries.toNat ∧ t.entries i = data) ∧ neighKey type data.ipAddr = key

/-- A call from outside. The key of an add is the address in the entry, as its one caller has it. -/
inductive NeighOp
  | add (data : NeighEntry)
  | del (key : IpAddr)

/-- What a call does to the table. -/
def NeighOp.apply (type : Nat) (t : NeighTable) : NeighOp → NeighTable
  | .add data => (neighManagerAddEntry t type data).2
  | .del key => (neighManagerDeleteEntry t type key).2

/-- What it is meant to do, when an add that answers `-1` is not counted. -/
def NeighOp.record (type : Nat) (t : NeighTable) (m : NeighMap) : NeighOp → NeighMap
  | .add data =>
    match (neighManagerAddEntry t type data).1 with
    | none => m
    | some _ => Function.update m (neighKey type data.ipAddr) (some data)
  | .del key => Function.update m (neighKey type key) none

/-- The table and the map after the calls, from the empty table. -/
def neighRun (type : Nat) (ops : List NeighOp) : NeighTable × NeighMap :=
  ops.foldl (fun s op => (op.apply type s.1, op.record type s.1 s.2)) (.zero, fun _ => none)

namespace Represents

variable {type : Nat} {t : NeighTable} {m : NeighMap}

theorem has_iff (h : Represents type t m) (key : List UInt8) :
    t.Has type key ↔ ∃ data, m key = some data := by
  constructor
  · rintro ⟨i, hi, hkey⟩
    exact ⟨t.entries i, (h.holds key _).mpr ⟨⟨i, hi, rfl⟩, hkey⟩⟩
  · rintro ⟨data, hdata⟩
    obtain ⟨⟨i, hi, rfl⟩, hkey⟩ := (h.holds key data).mp hdata
    exact ⟨i, hi, hkey⟩

theorem zero (type : Nat) : Represents type .zero fun _ => none := by
  refine ⟨⟨le_rfl, Int.natCast_nonneg _⟩, fun i j _ hj => absurd hj (Nat.not_lt_zero j), ?_⟩
  intro key data
  constructor
  · exact nofun
  · rintro ⟨⟨i, hi, -⟩, -⟩
    exact absurd hi (Nat.not_lt_zero i)

/-- An entry that is there is written over. -/
theorem update (h : Represents type t m) {pos : Nat} {data : NeighEntry}
    (hpos : pos < t.numEntries.toNat) (hkey : t.keys type pos = neighKey type data.ipAddr) :
    Represents type { t with entries := Function.update t.entries pos data }
      (Function.update m (neighKey type data.ipAddr) (some data)) := by
  have hkeys : NeighTable.keys { t with entries := Function.update t.entries pos data } type
      = t.keys type := by
    funext i
    by_cases hi : i = pos
    · subst hi
      simp only [NeighTable.keys, Function.update_self]
      exact hkey.symm
    · simp only [NeighTable.keys, Function.update_of_ne hi]
  refine ⟨h.sized, by rw [hkeys]; exact h.increasing, fun key data' => ?_⟩
  rw [Function.update_apply]
  by_cases hk : key = neighKey type data.ipAddr
  · rw [if_pos hk]
    constructor
    · intro heq
      obtain rfl := Option.some.inj heq
      exact ⟨⟨pos, hpos, Function.update_self ..⟩, hk.symm⟩
    · rintro ⟨⟨i, hi, hi'⟩, hdata⟩
      -- one place has the key
      have hsame : t.keys type i = t.keys type pos := by
        rw [← hkeys, NeighTable.keys, hi', hdata, hk, hkeys, hkey]
      obtain rfl := h.increasing.injective hi hpos hsame
      rw [← hi']
      simp
  · rw [if_neg hk, h.holds]
    constructor
    · rintro ⟨⟨i, hi, rfl⟩, hdata⟩
      have hne : i ≠ pos := by
        rintro rfl
        exact hk (hdata.symm.trans hkey)
      exact ⟨⟨i, hi, Function.update_of_ne hne ..⟩, hdata⟩
    · rintro ⟨⟨i, hi, hi'⟩, hdata⟩
      have hne : i ≠ pos := by
        rintro rfl
        rw [show data = data' by simpa using hi'] at hk
        exact hk hdata.symm
      rw [← hi']
      dsimp only
      rw [Function.update_of_ne hne]
      rw [← hi'] at hdata
      dsimp only at hdata
      rw [Function.update_of_ne hne] at hdata
      exact ⟨⟨i, hi, rfl⟩, hdata⟩

/-- An entry that is not there is put in at its place. -/
theorem insert (h : Represents type t m) {pos : Nat} {data : NeighEntry}
    (hplace : PlaceFor (t.keys type) t.numEntries.toNat (neighKey type data.ipAddr) pos)
    (hroom : t.numEntries < MAX_NEIGHBOR_ENTRY_SIZE) :
    Represents type
      ⟨Function.update (moveUp t.entries pos (t.numEntries.toNat - pos)) pos data, t.numEntries + 1⟩
      (Function.update m (neighKey type data.ipAddr) (some data)) := by
  obtain ⟨hnonneg, -⟩ := h.sized
  have hle := hplace.le
  have hsize : (t.numEntries + 1).toNat = t.numEntries.toNat + 1 := by omega
  have hentries : ∀ i, i < t.numEntries.toNat + 1 →
      Function.update (moveUp t.entries pos (t.numEntries.toNat - pos)) pos data i
        = insertAt t.entries pos data i := by
    intro i hi
    rcases Nat.lt_trichotomy i pos with hlt | rfl | hgt
    · rw [Function.update_of_ne (by omega), Lib.insertAt_lt data hlt, moveUp, if_neg (by omega)]
    · rw [Function.update_self, Lib.insertAt_self]
    · rw [Function.update_of_ne (by omega), Lib.insertAt_gt data hgt, moveUp, if_pos (by omega)]
  have hkeys : ∀ i, i < t.numEntries.toNat + 1 →
      NeighTable.keys ⟨Function.update (moveUp t.entries pos (t.numEntries.toNat - pos)) pos data,
        t.numEntries + 1⟩ type i = insertAt (t.keys type) pos (neighKey type data.ipAddr) i := by
    intro i hi
    simp only [NeighTable.keys, hentries i hi, insertAt]
    split
    · rfl
    · split
      · rfl
      · rfl
  refine ⟨⟨by show 0 ≤ t.numEntries + 1; omega, hroom⟩, ?_, fun key data' => ?_⟩
  · show Increasing _ (t.numEntries + 1).toNat
    rw [hsize]
    exact (hplace.insert h.increasing).congr hkeys
  · have hthere : (∃ i, i < (t.numEntries + 1).toNat ∧
          Function.update (moveUp t.entries pos (t.numEntries.toNat - pos)) pos data i = data')
        ↔ data = data' ∨ ∃ i, i < t.numEntries.toNat ∧ t.entries i = data' := by
      rw [hsize, ← Lib.exists_insertAt hle fun x => x = data']
      exact exists_congr fun i => and_congr_right fun hi => by rw [hentries i hi]
    rw [hthere, Function.update_apply]
    by_cases hk : key = neighKey type data.ipAddr
    · rw [if_pos hk]
      constructor
      · intro heq
        obtain rfl := Option.some.inj heq
        exact ⟨.inl rfl, hk.symm⟩
      · rintro ⟨rfl | ⟨i, hi, rfl⟩, hdata⟩
        · rfl
        · exact absurd (hdata.trans hk) (hplace.absent hi)
    · rw [if_neg hk, h.holds]
      constructor
      · rintro ⟨hold, hdata⟩
        exact ⟨.inr hold, hdata⟩
      · rintro ⟨rfl | hold, hdata⟩
        · exact absurd hdata.symm hk
        · exact ⟨hold, hdata⟩

/-- The entry is taken out. -/
theorem delete (h : Represents type t m) {pos : Nat} {key : IpAddr}
    (hpos : pos < t.numEntries.toNat) (hkey : t.keys type pos = neighKey type key) :
    Represents type
      ⟨moveDown t.entries pos ((t.numEntries - 1).toNat - pos), t.numEntries - 1⟩
      (Function.update m (neighKey type key) none) := by
  obtain ⟨hnonneg, hmax⟩ := h.sized
  have hsize : (t.numEntries - 1).toNat = t.numEntries.toNat - 1 := by omega
  have hentries : ∀ i, i < (t.numEntries - 1).toNat →
      moveDown t.entries pos ((t.numEntries - 1).toNat - pos) i = eraseAt t.entries pos i := by
    intro i hi
    rw [moveDown, eraseAt]
    split
    · next hdown => rw [if_neg (by omega)]
    · next hkept => rw [if_pos (by omega)]
  have hkeys : ∀ i, i < (t.numEntries - 1).toNat →
      NeighTable.keys ⟨moveDown t.entries pos ((t.numEntries - 1).toNat - pos), t.numEntries - 1⟩
        type i = eraseAt (t.keys type) pos i := by
    intro i hi
    simp only [NeighTable.keys, hentries i hi, eraseAt]
    split
    · rfl
    · rfl
  refine ⟨⟨by show 0 ≤ t.numEntries - 1; omega, by show t.numEntries - 1 ≤ _; omega⟩, ?_,
    fun key' data => ?_⟩
  · have herased := h.increasing.erase pos
    rw [← hsize] at herased
    exact herased.congr hkeys
  · have hthere : (∃ i, i < (t.numEntries - 1).toNat ∧
          moveDown t.entries pos ((t.numEntries - 1).toNat - pos) i = data)
        ↔ ∃ i, i < t.numEntries.toNat ∧ i ≠ pos ∧ t.entries i = data := by
      rw [← Lib.exists_eraseAt hpos fun x => x = data, ← hsize]
      exact exists_congr fun i => and_congr_right fun hi => by rw [hentries i hi]
    rw [hthere, Function.update_apply]
    by_cases hk : key' = neighKey type key
    · rw [if_pos hk]
      constructor
      · exact nofun
      · rintro ⟨⟨i, hi, hne, rfl⟩, hdata⟩
        exact absurd (h.increasing.injective hi hpos ((hdata.trans hk).trans hkey.symm)) hne
    · rw [if_neg hk, h.holds]
      constructor
      · rintro ⟨⟨i, hi, rfl⟩, hdata⟩
        have hne : i ≠ pos := by
          rintro rfl
          exact hk (hdata.symm.trans hkey)
        exact ⟨⟨i, hi, hne, rfl⟩, hdata⟩
      · rintro ⟨⟨i, hi, -, rfl⟩, hdata⟩
        exact ⟨⟨i, hi, rfl⟩, hdata⟩

/-- What is not there need not be deleted. -/
theorem absent (h : Represents type t m) {key : List UInt8} (hno : ¬ t.Has type key) :
    Function.update m key none = m := by
  have hnone : m key = none := by
    cases hm : m key with
    | none => rfl
    | some data => exact absurd ((h.has_iff key).mpr ⟨data, hm⟩) hno
  rw [← hnone, Function.update_eq_self]

/-! ## The operations -/

theorem lookup_found_iff (h : Represents type t m) (key : IpAddr) :
    (neighManagerLookup t type key).2 = true ↔ t.Has type (neighKey type key) := by
  have hlooked := lookedUp h.increasing key
  generalize neighManagerLookup t type key = r at hlooked
  cases hlooked with
  | found hpos hkey => exact iff_of_true rfl ⟨_, hpos, hkey⟩
  | place hplace =>
    refine iff_of_false nofun ?_
    rintro ⟨i, hi, hkey⟩
    exact hplace.absent hi hkey

theorem add (h : Represents type t m) (data : NeighEntry) :
    Represents type ((NeighOp.add data).apply type t) ((NeighOp.add data).record type t m) := by
  have hadded := neighAdded h.increasing data
  simp only [NeighOp.apply, NeighOp.record]
  generalize neighManagerAddEntry t type data = r at hadded
  cases hadded with
  | full _ => exact h
  | updated _ hpos hkey => exact h.update hpos hkey
  | inserted hroom hplace => exact h.insert hplace hroom

theorem del (h : Represents type t m) (key : IpAddr) :
    Represents type ((NeighOp.del key).apply type t) ((NeighOp.del key).record type t m) := by
  have hlooked := lookedUp h.increasing key
  simp only [NeighOp.apply, NeighOp.record, neighManagerDeleteEntry]
  generalize neighManagerLookup t type key = r at hlooked
  cases hlooked with
  | found hpos hkey => exact h.delete hpos hkey
  | place hplace =>
    rw [h.absent]
    · exact h
    · rintro ⟨i, hi, hkey⟩
      exact hplace.absent hi hkey

end Represents

/-! ## Sequences of calls -/

theorem neighRun_snoc (type : Nat) (ops : List NeighOp) (op : NeighOp) :
    neighRun type (ops ++ [op]) = (op.apply type (neighRun type ops).1,
      op.record type (neighRun type ops).1 (neighRun type ops).2) := by
  simp [neighRun]

theorem represents_run (type : Nat) (ops : List NeighOp) :
    Represents type (neighRun type ops).1 (neighRun type ops).2 := by
  induction ops using List.reverseRecOn with
  | nil => exact .zero type
  | append_singleton ops op ih =>
    rw [neighRun_snoc]
    cases op with
    | add data => exact ih.add data
    | del key => exact ih.del key

/-- **The neighbor table is a sorted map.** After any calls it is in order and holds what was added
    and not deleted since, and a lookup ends at the entry of its key or at the one place where the
    key can be put in. -/
theorem neighTable_refines_map (type : Nat) (ops : List NeighOp) (key : IpAddr) :
    Represents type (neighRun type ops).1 (neighRun type ops).2
      ∧ ((neighManagerLookup (neighRun type ops).1 type key).2 = true ↔
          (neighRun type ops).2 (neighKey type key) ≠ none)
      ∧ ((neighManagerLookup (neighRun type ops).1 type key).2 = true →
          (neighRun type ops).2 (neighKey type key) = some ((neighRun type ops).1.entries
            (neighManagerLookup (neighRun type ops).1 type key).1))
      ∧ ((neighManagerLookup (neighRun type ops).1 type key).2 = false →
          ∀ pos, (pos ≤ (neighRun type ops).1.numEntries.toNat
              ∧ Increasing (insertAt ((neighRun type ops).1.keys type) pos (neighKey type key))
                  ((neighRun type ops).1.numEntries.toNat + 1))
            ↔ pos = (neighManagerLookup (neighRun type ops).1 type key).1) := by
  have h := represents_run type ops
  generalize (neighRun type ops).1 = t, (neighRun type ops).2 = m at h ⊢
  refine ⟨h, ?_, ?_⟩
  · rw [h.lookup_found_iff, h.has_iff, Option.ne_none_iff_exists']
  · have hlooked := lookedUp h.increasing key
    generalize neighManagerLookup t type key = r at hlooked
    cases hlooked with
    | found hpos hkey =>
      refine ⟨fun _ => ?_, nofun⟩
      rw [h.holds]
      exact ⟨⟨_, hpos, rfl⟩, hkey⟩
    | place hplace =>
      refine ⟨nofun, fun _ pos => ?_⟩
      constructor
      · rintro ⟨hpos, hinc⟩
        exact ((Lib.increasing_insertAt_iff h.increasing hpos).mp hinc).unique hplace
      · rintro rfl
        exact ⟨hplace.le, hplace.insert h.increasing⟩

/-! ## A full table -/

/-- An add fails only for want of room, stores what is known already, and changes nothing when it
    fails. -/
structure AcceptsUpdate (type : Nat) (t : NeighTable) (data : NeighEntry) : Prop where
  fails : (neighManagerAddEntry t type data).1 = none →
    ¬ t.Has type (neighKey type data.ipAddr) ∧ t.numEntries = MAX_NEIGHBOR_ENTRY_SIZE
  stores : t.Has type (neighKey type data.ipAddr) →
    ∃ i, i < (neighManagerAddEntry t type data).2.numEntries.toNat
      ∧ (neighManagerAddEntry t type data).2.entries i = data
  unchanged : (neighManagerAddEntry t type data).1 = none → (neighManagerAddEntry t type data).2 = t

/-- **Known neighbors are updated exactly while there is room for another one.** -/
theorem neighAdd_accepts_iff (type : Nat) (ops : List NeighOp) (data : NeighEntry) :
    AcceptsUpdate type (neighRun type ops).1 data ↔
      ((neighRun type ops).1.Has type (neighKey type data.ipAddr) →
        (neighRun type ops).1.numEntries < MAX_NEIGHBOR_ENTRY_SIZE) := by
  have h := represents_run type ops
  generalize (neighRun type ops).1 = t, (neighRun type ops).2 = m at h ⊢
  have hmax := h.sized.2
  have hadded := neighAdded h.increasing data
  constructor
  · intro haccepts hhas
    by_contra hfull
    have hnone : (neighManagerAddEntry t type data).1 = none := by
      rw [neighManagerAddEntry, if_pos (by omega)]
    exact (haccepts.fails hnone).1 hhas
  · intro hroom
    have hrest : (neighManagerAddEntry t type data).1 = none →
        t.numEntries = MAX_NEIGHBOR_ENTRY_SIZE ∧ (neighManagerAddEntry t type data).2 = t := by
      generalize neighManagerAddEntry t type data = r at hadded
      cases hadded with
      | full hfull => exact fun _ => ⟨by omega, rfl⟩
      | updated _ _ _ => exact fun h => by cases h
      | inserted _ _ => exact fun h => by cases h
    refine ⟨fun hnone => ⟨fun hhas => ?_, (hrest hnone).1⟩, fun hhas => ?_, fun hnone => (hrest hnone).2⟩
    · have hlt := hroom hhas
      have heq := (hrest hnone).1
      omega
    · have hlt := hroom hhas
      generalize neighManagerAddEntry t type data = r at hadded
      cases hadded with
      | full hfull => omega
      | updated _ hpos _ => exact ⟨_, hpos, Function.update_self ..⟩
      | inserted _ hplace =>
        obtain ⟨i, hi, hkey⟩ := hhas
        exact absurd hkey (hplace.absent hi)

/-- The neighbor 10.0.0.0, or one of those after it. -/
def neighbor (i : Nat) : NeighEntry :=
  { NeighEntry.zero with
    ipAddr := #v[10, 0, UInt8.ofNat (i / 256), UInt8.ofNat i, 0, 0, 0, 0, 0, 0, 0, 0, 0, 0, 0, 0] }

theorem neighKey_neighbor (i : Nat) :
    neighKey 0 (neighbor i).ipAddr = [10, 0, UInt8.ofNat (i / 256), UInt8.ofNat i] := rfl

theorem neighKey_neighbor_inj {i j : Nat} (hi : i < 1024) (hj : j < 1024)
    (h : neighKey 0 (neighbor i).ipAddr = neighKey 0 (neighbor j).ipAddr) : i = j := by
  rw [neighKey_neighbor, neighKey_neighbor] at h
  simp only [List.cons.injEq, true_and, and_true] at h
  have hhi := congrArg UInt8.toNat h.1
  have hlo := congrArg UInt8.toNat h.2
  simp only [UInt8.toNat_ofNat'] at hhi hlo
  omega

/-- The first `n` of them. -/
def neighborsAdded (n : Nat) : List NeighOp := (List.range n).map fun i => .add (neighbor i)

theorem neighRun_neighborsAdded {n : Nat} (hn : n ≤ 1024) :
    (neighRun 0 (neighborsAdded n)).1.numEntries = n
      ∧ ∀ key, (neighRun 0 (neighborsAdded n)).1.Has 0 key
          ↔ ∃ i, i < n ∧ neighKey 0 (neighbor i).ipAddr = key := by
  induction n with
  | zero =>
    refine ⟨rfl, fun key => iff_of_false ?_ ?_⟩
    · rintro ⟨i, hi, -⟩
      exact absurd hi (Nat.not_lt_zero i)
    · rintro ⟨i, hi, -⟩
      exact absurd hi (Nat.not_lt_zero i)
  | succ n ih =>
    obtain ⟨hsize, hkeys⟩ := ih (by omega)
    have hsnoc : neighborsAdded (n + 1) = neighborsAdded n ++ [.add (neighbor n)] := by
      simp [neighborsAdded, List.range_succ]
    have h := represents_run 0 (neighborsAdded n)
    have h' := represents_run 0 (neighborsAdded (n + 1))
    rw [hsnoc, neighRun_snoc] at h' ⊢
    simp only [NeighOp.apply, NeighOp.record] at h' ⊢
    have hnew : ¬ (neighRun 0 (neighborsAdded n)).1.Has 0 (neighKey 0 (neighbor n).ipAddr) := by
      rw [hkeys]
      rintro ⟨i, hi, hkey⟩
      have heq := neighKey_neighbor_inj (by omega) (by omega) hkey
      omega
    generalize (neighRun 0 (neighborsAdded n)).1 = t, (neighRun 0 (neighborsAdded n)).2 = m
      at hsize hkeys h h' hnew ⊢
    have hadded := neighAdded h.increasing (neighbor n)
    generalize neighManagerAddEntry t 0 (neighbor n) = r at hadded h' ⊢
    cases hadded with
    | full hfull =>
      rw [hsize] at hfull
      exact absurd hfull (by unfold MAX_NEIGHBOR_ENTRY_SIZE; omega)
    | updated _ hpos hkey => exact absurd ⟨_, hpos, hkey⟩ hnew
    | inserted hroom hplace =>
      refine ⟨by show t.numEntries + 1 = _; rw [hsize]; rfl, fun key => ?_⟩
      rw [h'.has_iff]
      dsimp only
      rw [Function.update_apply]
      by_cases hk : key = neighKey 0 (neighbor n).ipAddr
      · rw [if_pos hk]
        exact iff_of_true ⟨_, rfl⟩ ⟨n, Nat.lt_succ_self n, hk.symm⟩
      · rw [if_neg hk, ← h.has_iff, hkeys]
        constructor
        · exact fun ⟨i, hi, hkey⟩ => ⟨i, hi.trans (Nat.lt_succ_self n), hkey⟩
        · rintro ⟨i, hi, hkey⟩
          rcases Nat.lt_succ_iff_lt_or_eq.mp hi with hi | rfl
          · exact ⟨i, hi, hkey⟩
          · exact absurd hkey.symm hk

/-- In a table of 1024 neighbors the first of them cannot be updated. -/
theorem full_table_refuses_update : ¬ ∀ (type : Nat) (ops : List NeighOp) (data : NeighEntry),
    AcceptsUpdate type (neighRun type ops).1 data := by
  intro hall
  obtain ⟨hsize, hkeys⟩ := neighRun_neighborsAdded (le_refl 1024)
  have haccepts := hall 0 (neighborsAdded 1024) { neighbor 0 with state := 1 }
  have hnone : (neighManagerAddEntry (neighRun 0 (neighborsAdded 1024)).1 0
      { neighbor 0 with state := 1 }).1 = none := by
    rw [neighManagerAddEntry, if_pos (by rw [hsize]; exact le_rfl)]
  exact (haccepts.fails hnone).1 ((hkeys _).mpr ⟨0, by decide, rfl⟩)

end SdPlane
