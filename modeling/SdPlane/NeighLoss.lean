import SdPlane.NeighReplica

/-!
# Lost neighbor messages

`internal_msg_send_to` frees a message for which the queue has no room, and the neighbor manager
goes on as if it had been sent. The positions in the messages that follow are positions in a
table that the RIB manager does not have. `neigh_manager_add_entry` checks a position before it
moves entries; the RIB manager does not, and a position behind its last entry makes the length
that it passes to `memmove` negative.

`Fits` is what a message has to be for the copy that it arrives at: an insertion comes at a
place of this table, between the neighbors it sorts between, and makes it one longer; an update
comes between its neighbors; a deletion makes the table shorter, or leaves it as it is. A run
whose messages all fit, whatever else is lost, keeps the copy sorted and keeps every entry in it one
that the neighbor manager once had (`sound_of_fits`).
-/

set_option autoImplicit false

namespace SdPlane

/-! ## Runs with losses -/

/-- One event; an access outside of the table ends the run with a fault. -/
inductive LossyStep : Except Fault NeighSys → NeighEvent → Except Fault NeighSys → Prop
  | ok {s t : NeighSys} {event : NeighEvent} (hstep : NeighStep s event t) :
      LossyStep (.ok s) event (.ok t)
  | fault {s : NeighSys} {env : Env} {msg : ConfMsg} {rest : List ConfMsg} {e : Fault}
      (hqueue : s.queue = msg :: rest) (hallocs : env.AllocsOk)
      (hfault : ribManagerProcessMessage env s.rib (.conf msg) = .error e) :
      LossyStep (.ok s) (.process env) (.error e)

/-- `memcmp` puts the address of `a` before that of `b`. -/
def Before (type : Nat) (a b : NeighEntry) : Prop :=
  compare (neighKey type a.ipAddr) (neighKey type b.ipAddr) = .lt

/-- The entries are strictly sorted by address. -/
def NeighTable.Sorted (type : Nat) (t : NeighTable) : Prop :=
  ∀ i j : Nat, i < j → (j : Int) < t.numEntries → Before type (t.entries i) (t.entries j)

/-- The neighbor manager has, or had, the entry in its table. -/
def NeighSys.Held (s : NeighSys) (type : Nat) (e : NeighEntry) : Prop :=
  ∃ t ∈ s.changes type, ∃ i : Nat, (i : Int) < t.numEntries ∧ t.entries i = e

/-- What should hold of a copy. -/
structure SoundCopy (s : NeighSys) (type : Nat) : Prop where
  sized : (s.rib.conf.neighTables type).Sized
  sorted : (s.rib.conf.neighTables type).Sorted type
  held : ∀ j : Nat, (j : Int) < (s.rib.conf.neighTables type).numEntries →
    s.Held type ((s.rib.conf.neighTables type).entries j)

/-- There was no fault, and both copies are sound. -/
def Sound (x : Except Fault NeighSys) : Prop :=
  ∃ s, x = .ok s ∧ ∀ type < NEIGH_NR_TABLES, SoundCopy s type

/-- The message fits the table. -/
def Fits (type : Nat) (t : NeighTable) : ConfMsg → Prop
  | .neighEntryAdd msg =>
    (∀ i : Nat, (i : Int) < msg.pos → Before type (t.entries i) msg.data)
      ∧ if msg.numEntries > t.numEntries then
          msg.numEntries = t.numEntries + 1 ∧ msg.pos ≤ t.numEntries
            ∧ ∀ i : Nat, msg.pos ≤ i → (i : Int) < t.numEntries → Before type msg.data (t.entries i)
        else ∀ i : Nat, msg.pos < i → (i : Int) < msg.numEntries → Before type msg.data (t.entries i)
  | .neighEntryDel msg =>
    -- where no entry is moved, the length may stay
    msg.numEntries ≤ t.numEntries ∧ (msg.pos < msg.numEntries → msg.numEntries < t.numEntries)
  | _ => True

/-- The message that is processed, if one is, fits the table that it is about. -/
def FitsNext (x : Except Fault NeighSys) : NeighEvent → Prop
  | .process _ => ∀ s msg rest, x = .ok s → s.queue = msg :: rest →
      Fits msg.neighType (s.rib.conf.neighTables msg.neighType) msg
  | .request _ | .lost _ | .other _ _ => True

/-! ## What is in the queue -/

/-- Every message is about a change that was made. -/
structure Sent (s : NeighSys) : Prop where
  sized : ∀ type < NEIGH_NR_TABLES, (s.master type).Sized
  queue : ∀ msg ∈ s.queue, ∃ type t t', type < NEIGH_NR_TABLES ∧ t.Sized ∧ Change type t msg t'
    ∧ t' ∈ s.changes type

theorem NeighSys.Held.mono {s t : NeighSys} {type : Nat} {e : NeighEntry}
    (hle : ∀ x ∈ s.changes type, x ∈ t.changes type) (h : s.Held type e) : t.Held type e := by
  obtain ⟨x, hx, i, hi, heq⟩ := h
  exact ⟨x, hle x hx, i, hi, heq⟩

/-- A request, with its message sent or lost. -/
theorem sent_handle {s : NeighSys} {request : NeighRequest} (h : Sent s)
    (htype : request.type < NEIGH_NR_TABLES) (sent : Bool) :
    Sent (s.handle request sent)
      ∧ (s.handle request sent).rib = s.rib
      ∧ ∀ type, ∀ x ∈ s.changes type, x ∈ (s.handle request sent).changes type := by
  rcases changed (h.sized request.type htype) with hnone | ⟨msg, t, hchange, hsome⟩
  · have hsame : s.handle request sent = s := by rw [NeighSys.handle, hnone]
    rw [hsame]
    exact ⟨h, rfl, fun _ _ hx => hx⟩
  · have hnext : s.handle request sent = { s with
        master := Function.update s.master request.type t
        queue := if sent then s.queue ++ [msg] else s.queue
        changes := Function.update s.changes request.type (s.changes request.type ++ [t]) } := by
      rw [NeighSys.handle, hsome]
      simp
    have hgrow : ∀ type, ∀ x ∈ s.changes type,
        x ∈ Function.update s.changes request.type (s.changes request.type ++ [t]) type := by
      intro type x hx
      by_cases heq : type = request.type
      · subst heq
        rw [Function.update_self]
        exact List.mem_append_left _ hx
      · rwa [Function.update_of_ne heq]
    rw [hnext]
    refine ⟨⟨fun type htype' => ?_, fun m hm => ?_⟩, rfl, hgrow⟩
    · by_cases heq : type = request.type
      · subst heq
        simp only [Function.update_self]
        exact hchange.sized (h.sized _ htype)
      · simp only [Function.update_of_ne heq]
        exact h.sized type htype'
    · have hold : ∀ m ∈ s.queue, ∃ type t₁ t', type < NEIGH_NR_TABLES ∧ t₁.Sized
          ∧ Change type t₁ m t' ∧ t' ∈ Function.update s.changes request.type
            (s.changes request.type ++ [t]) type := by
        intro m hm
        obtain ⟨type, t₁, t', htype', hsized, hchange', hmem⟩ := h.queue m hm
        exact ⟨type, t₁, t', htype', hsized, hchange', hgrow type t' hmem⟩
      cases sent with
      | false => exact hold m hm
      | true =>
        rcases List.mem_append.mp (show m ∈ s.queue ++ [msg] from hm) with hm | hm
        · exact hold m hm
        · obtain rfl := List.mem_singleton.mp hm
          refine ⟨request.type, s.master request.type, t, htype, h.sized _ htype, hchange, ?_⟩
          simp

/-! ## A message that fits -/

section Tables

variable {type pos : Nat} {t : NeighTable} {data : NeighEntry}

theorem sorted_update {num : Int} (h : t.Sorted type) (hle : num ≤ t.numEntries)
    (hbelow : ∀ i : Nat, (i : Int) < pos → Before type (t.entries i) data)
    (habove : ∀ i : Nat, (pos : Int) < i → (i : Int) < num → Before type data (t.entries i)) :
    NeighTable.Sorted type ⟨Function.update t.entries pos data, num⟩ := by
  intro i j hij hj
  dsimp only at hj ⊢
  by_cases hi' : i = pos
  · subst hi'
    rw [Function.update_self, Function.update_of_ne (by omega)]
    exact habove j (by omega) hj
  · rw [Function.update_of_ne hi']
    by_cases hj' : j = pos
    · subst hj'
      rw [Function.update_self]
      exact hbelow i (by omega)
    · rw [Function.update_of_ne hj']
      exact h i j hij (by omega)

theorem sorted_insert (h : t.Sorted type) (hnonneg : 0 ≤ t.numEntries)
    (hpos : (pos : Int) ≤ t.numEntries)
    (hbelow : ∀ i : Nat, (i : Int) < pos → Before type (t.entries i) data)
    (habove : ∀ i : Nat, (pos : Int) ≤ i → (i : Int) < t.numEntries →
      Before type data (t.entries i)) :
    NeighTable.Sorted type ⟨Function.update (moveUp t.entries pos (t.numEntries.toNat - pos)) pos
      data, t.numEntries + 1⟩ := by
  -- the entry at `i` of the new table
  have hget : ∀ i : Nat, (i : Int) < t.numEntries + 1 →
      Function.update (moveUp t.entries pos (t.numEntries.toNat - pos)) pos data i
        = if i < pos then t.entries i else if i = pos then data else t.entries (i - 1) := by
    intro i hi
    by_cases hi' : i = pos
    · subst hi'
      simp
    · rw [Function.update_of_ne hi', moveUp]
      split_ifs <;> first | rfl | omega
  intro i j hij hj
  dsimp only at hj ⊢
  rw [hget i (by omega), hget j hj]
  split_ifs with h₁ h₂ h₃ h₄ h₅ h₆ <;> first | omega | skip
  · exact h i j hij (by omega)
  · exact hbelow i (by omega)
  · exact h i (j - 1) (by omega) (by omega)
  · exact habove (j - 1) (by omega) (by omega)
  · exact h (i - 1) (j - 1) (by omega) (by omega)

theorem sorted_delete {num : Int} (h : t.Sorted type) (hle : num ≤ t.numEntries)
    (hmoved : (pos : Int) < num → num < t.numEntries) :
    NeighTable.Sorted type ⟨moveDown t.entries pos (num.toNat - pos), num⟩ := by
  intro i j hij hj
  dsimp only at hj ⊢
  unfold moveDown
  split_ifs
  · exact h _ _ (by omega) (by omega)
  · omega
  · exact h _ _ (by omega) (by omega)
  · exact h _ _ (by omega) (by omega)

end Tables

/-- A message that fits is processed, and leaves a sound copy. -/
theorem sound_process {s : NeighSys} {env : Env} {msg : ConfMsg} {type : Nat} {t t' : NeighTable}
    (htype : type < NEIGH_NR_TABLES) (hsized : t.Sized) (hchange : Change type t msg t')
    (hmem : t' ∈ s.changes type) (hsound : SoundCopy s type)
    (hfits : Fits type (s.rib.conf.neighTables type) msg) :
    ∃ r, confMessage env s.rib.rib s.rib.conf.next s.rib.rings msg
        = .ok (some (s.rib.conf.next.setNeigh type r, s.rib.rings))
      ∧ r.Sized ∧ r.Sorted type
      ∧ ∀ j : Nat, (j : Int) < r.numEntries → s.Held type (r.entries j) := by
  obtain ⟨⟨hnonneg, hmax⟩, hsorted, hheld⟩ := hsound
  obtain ⟨htnonneg, htmax⟩ := hsized
  -- an addition: `num` entries on the other side, of which the one at `pos` is `data`
  have hadd : ∀ {pos : Nat} {num : Int} {data : NeighEntry}, (pos : Int) < num →
      num ≤ MAX_NEIGHBOR_ENTRY_SIZE → s.Held type data →
      Fits type (s.rib.conf.neighTables type) (.neighEntryAdd ⟨type, pos, num, data⟩) →
      ∃ r, confMessage env s.rib.rib s.rib.conf.next s.rib.rings
          (.neighEntryAdd ⟨type, pos, num, data⟩)
          = .ok (some (s.rib.conf.next.setNeigh type r, s.rib.rings))
        ∧ r.Sized ∧ r.Sorted type
        ∧ ∀ j : Nat, (j : Int) < r.numEntries → s.Held type (r.entries j) := by
    intro pos num data hpos hnum hdata hfits
    have hpos' : pos < MAX_NEIGHBOR_ENTRY_SIZE := by omega
    obtain ⟨hbelow, hrest⟩ := hfits
    dsimp only at hbelow hrest
    by_cases hmore : num > (s.rib.conf.neighTables type).numEntries
    · rw [if_pos hmore] at hrest
      obtain ⟨rfl, hle, habove⟩ := hrest
      have hok := RibConf.neighEntryAdd_insert (c := s.rib.conf.next) _ data htype hpos'
        hmore hle (show (s.rib.conf.neighTables type).numEntries < MAX_NEIGHBOR_ENTRY_SIZE by omega)
      rw [show s.rib.conf.next.neighTables = s.rib.conf.neighTables from rfl] at hok
      refine ⟨_, by rw [confMessage, hok]; rfl, ⟨?_, hnum⟩,
        sorted_insert hsorted hnonneg hle hbelow habove, ?_⟩
      · show 0 ≤ (s.rib.conf.neighTables type).numEntries + 1
        omega
      · intro j hj
        by_cases hj' : j = pos
        · subst hj'
          simpa using hdata
        · simp only [Function.update_of_ne hj', moveUp]
          dsimp only at hj
          split
          · exact hheld (j - 1) (by omega)
          · exact hheld j (by omega)
    · rw [if_neg hmore] at hrest
      have hok := RibConf.neighEntryAdd_update (c := s.rib.conf.next) num data htype hpos'
        (show num ≤ (s.rib.conf.neighTables type).numEntries by omega)
      refine ⟨_, by rw [confMessage, hok]; rfl, ⟨?_, hnum⟩,
        sorted_update hsorted (by omega) hbelow hrest, ?_⟩
      · show 0 ≤ num
        omega
      · intro j hj
        by_cases hj' : j = pos
        · subst hj'
          simpa using hdata
        · simp only [Function.update_of_ne hj']
          dsimp only at hj
          exact hheld j (by omega)
  cases hchange with
  | @update pos data hlt =>
    exact hadd hlt htmax ⟨_, hmem, pos, hlt, by simp⟩ hfits
  | @insert pos data hle hroom =>
    exact hadd (by omega) (by omega) ⟨_, hmem, pos, by dsimp only; omega, by simp⟩ hfits
  | @delete pos data hlt =>
    obtain ⟨hle, hmoved⟩ : t.numEntries - 1 ≤ (s.rib.conf.neighTables type).numEntries
        ∧ ((pos : Int) < t.numEntries - 1 →
          t.numEntries - 1 < (s.rib.conf.neighTables type).numEntries) := hfits
    have hok := RibConf.neighEntryDel_delete (c := s.rib.conf.next) (t.numEntries - 1) data
      htype (show pos < MAX_NEIGHBOR_ENTRY_SIZE by omega) (by omega) (by omega)
    refine ⟨_, by rw [confMessage, hok]; rfl, ⟨?_, ?_⟩, sorted_delete hsorted hle hmoved, ?_⟩
    · show 0 ≤ t.numEntries - 1
      omega
    · show t.numEntries - 1 ≤ _
      omega
    · intro j hj
      simp only [moveDown]
      dsimp only at hj
      split
      · exact hheld (j + 1) (by omega)
      · exact hheld j (by omega)

/-! ## Every run -/

theorem SoundCopy.of_conf {s t : NeighSys} {type : Nat} (h : SoundCopy s type)
    (hconf : t.rib.conf.neighTables type = s.rib.conf.neighTables type)
    (hle : ∀ x ∈ s.changes type, x ∈ t.changes type) : SoundCopy t type := by
  constructor
  · rw [hconf]
    exact h.sized
  · rw [hconf]
    exact h.sorted
  · rw [hconf]
    intro j hj
    exact (h.held j hj).mono hle

theorem sent_step {s t : NeighSys} {event : NeighEvent} (h : Sent s) (hstep : NeighStep s event t) :
    Sent t := by
  cases hstep with
  | request htype => exact (sent_handle h htype true).1
  | lost htype => exact (sent_handle h htype false).1
  | process hqueue _ _ =>
    exact ⟨h.sized, fun m hm => h.queue m (hqueue ▸ List.mem_cons_of_mem _ hm)⟩
  | other _ _ _ => exact ⟨h.sized, h.queue⟩

theorem sound_step {s : NeighSys} {x : Except Fault NeighSys} {event : NeighEvent} (hsent : Sent s)
    (hsound : ∀ type < NEIGH_NR_TABLES, SoundCopy s type) (hstep : LossyStep (.ok s) event x)
    (hfits : FitsNext (.ok s) event) : Sound x := by
  -- what processing the first message comes to
  have hfirst : ∀ {env : Env} {msg : ConfMsg} {rest : List ConfMsg}, event = .process env →
      s.queue = msg :: rest → msg.neighType < NEIGH_NR_TABLES
        ∧ ∃ r, confMessage env s.rib.rib s.rib.conf.next s.rib.rings msg
            = .ok (some (s.rib.conf.next.setNeigh msg.neighType r, s.rib.rings))
          ∧ r.Sized ∧ r.Sorted msg.neighType
          ∧ ∀ j : Nat, (j : Int) < r.numEntries → s.Held msg.neighType (r.entries j) := by
    intro env msg rest hevent hqueue
    obtain ⟨type, t, t', htype, hsized, hchange, hmem⟩ :=
      hsent.queue msg (hqueue ▸ List.mem_cons_self ..)
    obtain rfl := hchange.neighType
    rw [hevent] at hfits
    exact ⟨htype, sound_process htype hsized hchange hmem (hsound _ htype)
      (hfits s msg rest rfl hqueue)⟩
  cases hstep with
  | ok hstep =>
    refine ⟨_, rfl, fun type htype => ?_⟩
    cases hstep with
    | request hreq =>
      obtain ⟨-, hrib, hgrow⟩ := sent_handle hsent hreq true
      exact (hsound type htype).of_conf (by rw [hrib]) (hgrow type)
    | lost hreq =>
      obtain ⟨-, hrib, hgrow⟩ := sent_handle hsent hreq false
      exact (hsound type htype).of_conf (by rw [hrib]) (hgrow type)
    | @process env msg rest t hqueue hallocs hprocess =>
      obtain ⟨-, r, hresult, hsized, hsorted, hheld⟩ := hfirst rfl hqueue
      have hconf : t.conf = s.rib.conf.next.setNeigh msg.neighType r :=
        conf_of_handled hresult hprocess
      by_cases heq : type = msg.neighType
      · subst heq
        have htable : t.conf.neighTables msg.neighType = r := by
          rw [hconf, RibConf.setNeigh_self]
        constructor
        · rw [htable]
          exact hsized
        · rw [htable]
          exact hsorted
        · rw [htable]
          exact hheld
      · refine (hsound type htype).of_conf ?_ (fun _ hx => hx)
        show t.conf.neighTables type = _
        rw [hconf, RibConf.setNeigh_of_ne heq]
        rfl
    | other hmsg hallocs hprocess =>
      refine (hsound type htype).of_conf ?_ (fun _ hx => hx)
      exact congrFun (keepsTables_of_ok hallocs hmsg hprocess).neigh type
  | fault hqueue hallocs hfault =>
    obtain ⟨-, r, hresult, -⟩ := hfirst rfl hqueue
    obtain ⟨t, ht⟩ := process_ok hallocs hresult
    rw [ht] at hfault
    cases hfault

/-- **When replication survives losses.** Whatever messages are lost, as long as every message
    that is processed fits the copy it arrives at, the copies stay sorted, hold what the
    neighbor manager once held, and no entry is moved from or to outside of the table. -/
theorem sound_of_fits {rib : RibState}
    (hempty : ∀ type < NEIGH_NR_TABLES, (rib.conf.neighTables type).numEntries = 0)
    {events : List NeighEvent}
    (h : Lib.Stepwise LossyStep (.ok (.start rib)) FitsNext events) :
    Lib.Throughout LossyStep (.ok (.start rib)) Sound events := by
  have hguard : ∀ x event y, (∀ s, x = .ok s → Sent s) → Sound x → LossyStep x event y →
      FitsNext x event → Sound y := by
    rintro x event y hsent ⟨s, rfl, hsound⟩ hstep hfits
    exact sound_step (hsent s rfl) hsound hstep hfits
  refine Lib.throughout_of_stepwise (fun x => ∀ s, x = .ok s → Sent s) ?_ ?_ ?_ hguard h
  · intro s hs
    obtain rfl := Except.ok.inj hs
    exact ⟨fun _ _ => ⟨le_refl 0, Int.natCast_nonneg _⟩, fun msg hmsg => nomatch hmsg⟩
  · intro x event y hsent hstep t ht
    subst ht
    cases hstep with
    | ok hstep => exact sent_step (hsent _ rfl) hstep
  · refine ⟨_, rfl, fun type htype => ⟨?_, ?_, ?_⟩⟩
    · have hzero := hempty type htype
      refine ⟨?_, ?_⟩
      · show 0 ≤ (rib.conf.neighTables type).numEntries
        omega
      · show (rib.conf.neighTables type).numEntries ≤ _
        rw [hzero]
        decide
    · intro i j _ hj
      have hzero := hempty type htype
      have hj : (j : Int) < (rib.conf.neighTables type).numEntries := hj
      omega
    · intro j hj
      have hzero := hempty type htype
      have hj : (j : Int) < (rib.conf.neighTables type).numEntries := hj
      omega

/-- The first message about a neighbor. -/
theorem processed_first {s : NeighSys} {x : Except Fault NeighSys} {last : UInt8}
    {rest : List ConfMsg} (h : LossyStep (.ok s) (.process .plain) x)
    (hqueue : s.queue = .neighEntryAdd ⟨0, 0, 1, arpEntry last⟩ :: rest) (hrib : s.rib = .init) :
    ∃ t, x = .ok t ∧ t.master = s.master ∧ t.queue = rest
      ∧ (t.rib.conf.neighTables 0).numEntries = 1
      ∧ (t.rib.conf.neighTables 0).entries 0 = arpEntry last := by
  obtain ⟨r, hok, hnum, hentry⟩ : ∃ r, s.rib.conf.next.neighEntryAdd ⟨0, 0, 1, arpEntry last⟩
      = .ok (s.rib.conf.next.setNeigh 0 r) ∧ r.numEntries = 1 ∧ r.entries 0 = arpEntry last := by
    rw [hrib]
    exact ⟨_, RibConf.neighEntryAdd_insert 1 _ (by decide) (by decide) (by decide) (by decide)
      (by decide), rfl, rfl⟩
  have hresult : confMessage .plain s.rib.rib s.rib.conf.next s.rib.rings
      (.neighEntryAdd ⟨0, 0, 1, arpEntry last⟩)
      = .ok (some (s.rib.conf.next.setNeigh 0 r, s.rib.rings)) := by
    rw [confMessage, hok]
    rfl
  cases h with
  | ok hstep =>
    cases hstep with
    | process hq _ hprocess =>
      obtain ⟨rfl, rfl⟩ := List.cons.inj (hqueue.symm.trans hq)
      refine ⟨_, rfl, rfl, rfl, ?_⟩
      rw [conf_of_handled hresult hprocess, RibConf.setNeigh_self]
      exact ⟨hnum, hentry⟩
  | fault hq hallocs hfault =>
    obtain ⟨rfl, rfl⟩ := List.cons.inj (hqueue.symm.trans hq)
    obtain ⟨t, ht⟩ := process_ok hallocs hresult
    cases ht.symm.trans hfault

/-- The message about a change to a neighbor is lost, and the next neighbor is learned. -/
theorem sound_of_fits_update_lost : Lib.Throughout LossyStep (.ok (.start RibState.init)) Sound
    [.request (.add 0 (arpEntry 1)), .process .plain, .lost (.add 0 { arpEntry 1 with state := 1 }),
      .request (.add 0 (arpEntry 2)), .process .plain] := by
  refine sound_of_fits (fun _ _ => rfl) (Lib.stepwise_cons trivial fun x hx => ?_)
  cases hx with | ok hx =>
  cases hx
  refine Lib.stepwise_cons ?_ fun x hx => ?_
  · intro s msg rest hs hqueue
    obtain rfl := Except.ok.inj hs
    have hsent : ([.neighEntryAdd ⟨0, 0, 1, arpEntry 1⟩] : List ConfMsg) = msg :: rest := hqueue
    obtain ⟨rfl, rfl⟩ := List.cons.inj hsent
    refine ⟨fun i hi => absurd hi (by simp), ?_⟩
    refine (if_pos (show (1 : Int) > 0 by decide)).mpr ⟨rfl, le_refl _, fun i _ hi => ?_⟩
    have hi : (i : Int) < 0 := hi
    omega
  obtain ⟨s, rfl, hmaster, hempty, hnum, hentry⟩ := processed_first hx rfl rfl
  refine Lib.stepwise_cons trivial fun x hx => ?_
  cases hx with | ok hx =>
  cases hx
  refine Lib.stepwise_cons trivial fun x hx => ?_
  cases hx with | ok hx =>
  cases hx
  refine Lib.stepwise_cons ?_ fun _ _ => Lib.stepwise_nil
  intro s' msg rest hs hqueue
  obtain rfl := Except.ok.inj hs
  obtain ⟨master, queue, rib, changes, taken⟩ := s
  dsimp only at hmaster hempty
  subst hmaster hempty
  have hsent : ([.neighEntryAdd ⟨0, 1, 2, arpEntry 2⟩] : List ConfMsg) = msg :: rest := by
    with_unfolding_all exact hqueue
  obtain ⟨rfl, rfl⟩ := List.cons.inj hsent
  rw [(handle_rib ..).1, (handle_rib ..).1]
  show Fits 0 (rib.conf.neighTables 0) (.neighEntryAdd ⟨0, 1, 2, arpEntry 2⟩)
  change (rib.conf.neighTables 0).numEntries = 1 at hnum
  change (rib.conf.neighTables 0).entries 0 = arpEntry 1 at hentry
  generalize rib.conf.neighTables 0 = table at hnum hentry ⊢
  obtain ⟨entries, num⟩ := table
  dsimp only at hnum hentry
  subst hnum
  refine ⟨fun i hi => ?_, (if_pos (show (2 : Int) > 1 by decide)).mpr
    ⟨rfl, le_refl _, fun i hle hi => by dsimp only at hle hi; omega⟩⟩
  dsimp only at hi
  obtain rfl : i = 0 := by omega
  show Before 0 (entries 0) (arpEntry 2)
  rw [hentry]
  unfold Before
  decide

/-- The first message is lost, and the second one is about a table with two entries. -/
theorem lost_message_faults : ¬∀ events,
    Lib.Throughout LossyStep (.ok (.start RibState.init)) Sound events := by
  intro h
  have hlost : LossyStep (.ok (.start RibState.init)) (.lost (.add 0 (arpEntry 1))) _ :=
    .ok (.lost (by decide))
  have hrequest := LossyStep.ok (@NeighStep.request
    ((NeighSys.start RibState.init).handle (.add 0 (arpEntry 1)) false) (.add 0 (arpEntry 2))
    (by decide))
  have hfault := LossyStep.fault (s := ((NeighSys.start RibState.init).handle
      (.add 0 (arpEntry 1)) false).handle (.add 0 (arpEntry 2)) true)
    (e := .outOfBounds)
    rfl Env.plain_allocs rfl
  obtain ⟨s, hs, -⟩ := h _ _ _ (List.prefix_refl _)
    (((Lib.Run.nil.snoc hlost).snoc hrequest).snoc hfault)
  cases hs

end SdPlane
