import SdPlane.RibConfSpec

/-!
# The neighbor manager (`neigh_manager.c`)

The neighbor manager keeps one table for each of the two kinds of neighbors, ARP and ND: the
entries are sorted by address, and an entry is found by bisection. What a request changes it
tells the RIB manager, and it does not send the entry alone but the **place** of the change and
the number of entries after it, since the RIB manager does not sort: it moves the rest of its
own table up or down at that place (`neighEntryAdd`, `neighEntryDel`).

`Change` is what one request does to a table together with what is sent about it. That there
are no other changes is `changed`, and the two sides are compared through it alone.
-/

set_option autoImplicit false

namespace SdPlane

/-! ## The code -/

/-- `neigh_key_lengths`. -/
def neighKeyLengths (type : Nat) : Nat := if type = 0 then 4 else 16

/-- The bytes of an address that `memcmp` compares in a table of the type. -/
def neighKey (type : Nat) (ipAddr : IpAddr) : List UInt8 :=
  ipAddr.toList.take (neighKeyLengths type)

/-- The loop of `neigh_manager_lookup` over the entries from `left` on and before `right`,
    where the source has `right - 1`. Each round halves what is left, so `right - left` rounds
    are enough. -/
def neighBisect (type : Nat) (entries : Nat → NeighEntry) (key : IpAddr) :
    Nat → Nat → Nat → Nat × Bool
  | 0, left, _ => (left, false)
  | fuel + 1, left, right =>
    if left < right then
      let mid := (left + (right - 1)) / 2
      match compare (neighKey type (entries mid).ipAddr) (neighKey type key) with
      | .eq => (mid, true)
      | .lt => neighBisect type entries key fuel (mid + 1) right
      | .gt => neighBisect type entries key fuel left mid
    else (left, false)

/-- `neigh_manager_lookup`: the index of the entry, or the one at which to insert it. -/
def neighManagerLookup (neighTable : NeighTable) (type : Nat) (key : IpAddr) : Nat × Bool :=
  neighBisect type neighTable.entries key neighTable.numEntries.toNat 0 neighTable.numEntries.toNat

/-- `memmove (&entries[pos + 1], &entries[pos], n entries)`. -/
def moveUp (entries : Nat → NeighEntry) (pos n : Nat) : Nat → NeighEntry :=
  fun j => if pos < j ∧ j ≤ pos + n then entries (j - 1) else entries j

/-- `memmove (&entries[pos], &entries[pos + 1], n entries)`. -/
def moveDown (entries : Nat → NeighEntry) (pos n : Nat) : Nat → NeighEntry :=
  fun j => if pos ≤ j ∧ j < pos + n then entries (j + 1) else entries j

/-- `neigh_manager_add_entry`. `none` is the `-1`: the table is full. -/
def neighManagerAddEntry (neighTable : NeighTable) (type : Nat) (data : NeighEntry) :
    Option Nat × NeighTable :=
  if neighTable.numEntries ≥ MAX_NEIGHBOR_ENTRY_SIZE then (none, neighTable)
  else
    let n := neighTable.numEntries.toNat
    match neighManagerLookup neighTable type data.ipAddr with
    | (pos, true) =>
      (some pos, { neighTable with entries := Function.update neighTable.entries pos data })
    | (pos, false) =>
      if pos > n then (none, neighTable)
      else
        (some pos, { entries := Function.update (moveUp neighTable.entries pos (n - pos)) pos data
                     numEntries := neighTable.numEntries + 1 })

/-- `neigh_manager_delete_entry`. `none` is the `-1`: there is no such entry. -/
def neighManagerDeleteEntry (neighTable : NeighTable) (type : Nat) (key : IpAddr) :
    Option Nat × NeighTable :=
  match neighManagerLookup neighTable type key with
  | (pos, true) =>
    let n := (neighTable.numEntries - 1).toNat
    (some pos, { entries := moveDown neighTable.entries pos (n - pos)
                 numEntries := neighTable.numEntries - 1 })
  | (_, false) => (none, neighTable)

/-- What the neighbor manager is asked, for the table of the type. -/
inductive NeighRequest
  | add (type : Nat) (data : NeighEntry)
  | del (type : Nat) (data : NeighEntry)

def NeighRequest.type : NeighRequest → Nat
  | .add type _ | .del type _ => type

/-- `neigh_manager_process_message`: the tables, and the message that is forwarded. -/
def neighManagerProcessMessage (neighTables : Nat → NeighTable) :
    NeighRequest → (Nat → NeighTable) × Option ConfMsg
  | .add type data =>
    match neighManagerAddEntry (neighTables type) type data with
    | (none, _) => (neighTables, none)
    | (some pos, table) => (Function.update neighTables type table,
        some (.neighEntryAdd ⟨type, pos, table.numEntries, data⟩))
  | .del type data =>
    match neighManagerDeleteEntry (neighTables type) type data.ipAddr with
    | (none, _) => (neighTables, none)
    | (some pos, table) => (Function.update neighTables type table,
        some (.neighEntryDel ⟨type, pos, table.numEntries, data⟩))

/-- The tables after `memset`. -/
def NeighTable.zero : NeighTable := ⟨fun _ => .zero, 0⟩

/-! ## Bisection -/

theorem neighBisect_bounds (type : Nat) (entries : Nat → NeighEntry) (key : IpAddr)
    (fuel left right : Nat) (hle : left ≤ right) :
    left ≤ (neighBisect type entries key fuel left right).1
      ∧ (neighBisect type entries key fuel left right).1 ≤ right
      ∧ ((neighBisect type entries key fuel left right).2 = true →
          (neighBisect type entries key fuel left right).1 < right) := by
  induction fuel generalizing left right with
  | zero => exact ⟨le_refl _, hle, fun h => nomatch h⟩
  | succ fuel ih =>
    unfold neighBisect
    by_cases hlt : left < right
    · rw [if_pos hlt]
      dsimp only
      split
      · exact ⟨by omega, by omega, fun _ => by omega⟩
      · obtain ⟨h₁, h₂, h₃⟩ := ih ((left + (right - 1)) / 2 + 1) right (by omega)
        exact ⟨by omega, h₂, h₃⟩
      · obtain ⟨h₁, h₂, h₃⟩ := ih left ((left + (right - 1)) / 2) (by omega)
        exact ⟨h₁, by omega, fun h => by have := h₃ h; omega⟩
    · rw [if_neg hlt]
      exact ⟨le_refl _, hle, fun h => nomatch h⟩

/-! ## What a request does to a table -/

/-- A table in its array. -/
def NeighTable.Sized (t : NeighTable) : Prop :=
  0 ≤ t.numEntries ∧ t.numEntries ≤ MAX_NEIGHBOR_ENTRY_SIZE

/-- A change of a table of the type, and what is sent about it. -/
inductive Change (type : Nat) (t : NeighTable) : ConfMsg → NeighTable → Prop
  | update {pos : Nat} {data : NeighEntry} (hpos : (pos : Int) < t.numEntries) :
      Change type t (.neighEntryAdd ⟨type, pos, t.numEntries, data⟩)
        ⟨Function.update t.entries pos data, t.numEntries⟩
  | insert {pos : Nat} {data : NeighEntry} (hpos : (pos : Int) ≤ t.numEntries)
      (hroom : t.numEntries < MAX_NEIGHBOR_ENTRY_SIZE) :
      Change type t (.neighEntryAdd ⟨type, pos, t.numEntries + 1, data⟩)
        ⟨Function.update (moveUp t.entries pos (t.numEntries.toNat - pos)) pos data,
          t.numEntries + 1⟩
  | delete {pos : Nat} {data : NeighEntry} (hpos : (pos : Int) < t.numEntries) :
      Change type t (.neighEntryDel ⟨type, pos, t.numEntries - 1, data⟩)
        ⟨moveDown t.entries pos ((t.numEntries - 1).toNat - pos), t.numEntries - 1⟩

theorem Change.sized {type : Nat} {t t' : NeighTable} {msg : ConfMsg} (h : Change type t msg t')
    (hsized : t.Sized) : t'.Sized := by
  obtain ⟨hnonneg, hmax⟩ := hsized
  cases h with
  | update hpos => exact ⟨hnonneg, hmax⟩
  | insert hpos hroom => exact ⟨by show 0 ≤ t.numEntries + 1; omega, hroom⟩
  | delete hpos =>
    refine ⟨?_, ?_⟩
    · show 0 ≤ t.numEntries - 1
      omega
    · show t.numEntries - 1 ≤ _
      omega

/-- **A request changes nothing and sends nothing, or makes one change of its table.** -/
theorem changed {neighTables : Nat → NeighTable} {request : NeighRequest}
    (hsized : (neighTables request.type).Sized) :
    neighManagerProcessMessage neighTables request = (neighTables, none)
      ∨ ∃ msg t, Change request.type (neighTables request.type) msg t
          ∧ neighManagerProcessMessage neighTables request
            = (Function.update neighTables request.type t, some msg) := by
  obtain ⟨hnonneg, -⟩ := hsized
  cases request with
  | add type data =>
    simp only [NeighRequest.type] at hnonneg ⊢
    simp only [neighManagerProcessMessage, neighManagerAddEntry]
    by_cases hfull : (neighTables type).numEntries ≥ MAX_NEIGHBOR_ENTRY_SIZE
    · simp [if_pos hfull]
    · rw [if_neg hfull]
      obtain ⟨-, hle, hlt⟩ := neighBisect_bounds type (neighTables type).entries data.ipAddr
        (neighTables type).numEntries.toNat 0 (neighTables type).numEntries.toNat (Nat.zero_le _)
      have hlookup : neighManagerLookup (neighTables type) type data.ipAddr
        = neighBisect type (neighTables type).entries data.ipAddr
          (neighTables type).numEntries.toNat 0 (neighTables type).numEntries.toNat := rfl
      rw [← hlookup] at hle hlt
      generalize neighManagerLookup (neighTables type) type data.ipAddr = found at hle hlt
      obtain ⟨pos, found⟩ := found
      cases found with
      | true =>
        have hpos := hlt rfl
        dsimp only at hpos ⊢
        exact .inr ⟨_, _, .update (by omega), rfl⟩
      | false =>
        dsimp only at hle ⊢
        rw [if_neg (by omega)]
        exact .inr ⟨_, _, .insert (by omega) (by omega), rfl⟩
  | del type data =>
    simp only [NeighRequest.type] at hnonneg ⊢
    simp only [neighManagerProcessMessage, neighManagerDeleteEntry]
    obtain ⟨-, -, hlt⟩ := neighBisect_bounds type (neighTables type).entries data.ipAddr
      (neighTables type).numEntries.toNat 0 (neighTables type).numEntries.toNat (Nat.zero_le _)
    have hlookup : neighManagerLookup (neighTables type) type data.ipAddr
      = neighBisect type (neighTables type).entries data.ipAddr
        (neighTables type).numEntries.toNat 0 (neighTables type).numEntries.toNat := rfl
    rw [← hlookup] at hlt
    generalize neighManagerLookup (neighTables type) type data.ipAddr = found at hlt
    obtain ⟨pos, found⟩ := found
    cases found with
    | true =>
      have hpos := hlt rfl
      dsimp only at hpos ⊢
      exact .inr ⟨_, _, .delete (by omega), rfl⟩
    | false => exact .inl rfl

end SdPlane
