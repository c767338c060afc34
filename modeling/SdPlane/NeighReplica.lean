import SdPlane.Lib.Run
import SdPlane.Neigh

/-!
# Two copies of the neighbor tables

The neighbor manager and the RIB manager run on their own, with a queue between them. `NeighSys`
is the two of them and the queue; an event is a request to the one, or that the other takes a
message off the queue, or that it processes a message from somewhere else. The queue may be
full, and then the message is lost, which the neighbor manager does not see.

Two histories are kept along: `changes` are the neighbor manager's own tables, each as it was
right after a change, and `taken` counts the messages that the RIB manager has processed.

Without loss the RIB manager lags behind and is never wrong: its table is the one that the
neighbor manager had some changes ago (`replicated`). What is in flight is exactly what leads
from that table to the present one (`InFlight`), and every message is about the table it finds.
-/

set_option autoImplicit false

namespace SdPlane

/-! ## The system -/

structure NeighSys where
  master : Nat → NeighTable
  queue : List ConfMsg
  rib : RibState
  changes : Nat → List NeighTable
  taken : Nat → Nat

inductive NeighEvent
  | request (request : NeighRequest)
  | lost (request : NeighRequest)
  | process (env : Env)
  | other (env : Env) (msg : Msg)

/-- The table that a message is about. -/
def ConfMsg.neighType : ConfMsg → Nat
  | .neighEntryAdd msg | .neighEntryDel msg => msg.type.toNat
  | _ => 0

/-- The request is processed; `sent` is what becomes of the message. -/
def NeighSys.handle (s : NeighSys) (request : NeighRequest) (sent : Bool) : NeighSys :=
  match neighManagerProcessMessage s.master request with
  | (_, none) => s
  | (master, some msg) => { s with
      master := master
      queue := if sent then s.queue ++ [msg] else s.queue
      changes := Function.update s.changes request.type
        (s.changes request.type ++ [master request.type]) }

/-- The RIB manager does not know of it yet. -/
theorem handle_rib (s : NeighSys) (request : NeighRequest) (sent : Bool) :
    (s.handle request sent).rib = s.rib ∧ (s.handle request sent).taken = s.taken := by
  rw [NeighSys.handle]
  split
  · exact ⟨rfl, rfl⟩
  · exact ⟨rfl, rfl⟩

/-- One event. Memory does not run out, and a fault is the end of a run. -/
inductive NeighStep (s : NeighSys) : NeighEvent → NeighSys → Prop
  | request {request : NeighRequest} (htype : request.type < NEIGH_NR_TABLES) :
      NeighStep s (.request request) (s.handle request true)
  | lost {request : NeighRequest} (htype : request.type < NEIGH_NR_TABLES) :
      NeighStep s (.lost request) (s.handle request false)
  | process {env : Env} {msg : ConfMsg} {rest : List ConfMsg} {t : RibState}
      (hqueue : s.queue = msg :: rest) (hallocs : env.AllocsOk)
      (hprocess : ribManagerProcessMessage env s.rib (.conf msg) = .ok t) :
      NeighStep s (.process env) { s with
        queue := rest
        rib := t
        taken := Function.update s.taken msg.neighType (s.taken msg.neighType + 1) }
  | other {env : Env} {msg : Msg} {t : RibState} (hmsg : msg.Elsewhere) (hallocs : env.AllocsOk)
      (hprocess : ribManagerProcessMessage env s.rib msg = .ok t) :
      NeighStep s (.other env msg) { s with rib := t }

/-- No message is lost. -/
def LosslessStep (s : NeighSys) (event : NeighEvent) (t : NeighSys) : Prop :=
  NeighStep s event t ∧ ∀ request, event ≠ .lost request

/-- Both tables are empty on both sides. -/
def NeighSys.start (rib : RibState) : NeighSys :=
  ⟨fun _ => .zero, [], rib, fun _ => [], fun _ => 0⟩

/-- As many entries, and the same ones. -/
structure SameEntries (a b : NeighTable) : Prop where
  num : a.numEntries = b.numEntries
  entries : ∀ j : Nat, (j : Int) < b.numEntries → a.entries j = b.entries j

/-- After the `k + 1`-st message about a table the RIB manager has it as the neighbor manager
    had it after the `k + 1`-st change; and the next message will be no fault. -/
structure Replicated (s : NeighSys) : Prop where
  table : ∀ type < NEIGH_NR_TABLES, ∀ k, s.taken type = k + 1 →
    ∃ t, (s.changes type)[k]? = some t ∧ SameEntries (s.rib.conf.neighTables type) t
  next : ∀ env msg rest, env.AllocsOk → s.queue = msg :: rest →
    ∃ t, ribManagerProcessMessage env s.rib (.conf msg) = .ok t

/-! ## One message on one copy -/

namespace RibConf

/-- The table of the type is replaced. -/
def setNeigh (c : RibConf) (type : Nat) (t : NeighTable) : RibConf :=
  { c with neighTables := Function.update c.neighTables type t }

variable {c : RibConf} {type pos : Nat} (num : Int) (data : NeighEntry)

@[simp] theorem setNeigh_self (t : NeighTable) : (c.setNeigh type t).neighTables type = t :=
  Function.update_self ..

theorem setNeigh_of_ne {type' : Nat} (h : type' ≠ type) (t : NeighTable) :
    (c.setNeigh type t).neighTables type' = c.neighTables type' := Function.update_of_ne h ..

/-- Type and position are used as indices by every handler. -/
theorem neighPos_ok (htype : type < NEIGH_NR_TABLES) (hpos : pos < MAX_NEIGHBOR_ENTRY_SIZE) :
    neighPos ⟨type, pos, num, data⟩ = .ok (type, pos) := by
  unfold neighPos
  rw [if_neg (by dsimp only; omega)]
  simp only [inBounds, Int.toNat_natCast, if_pos htype, if_pos hpos]
  rfl

theorem neighMoved_ok {n : Int} (hle : (pos : Int) ≤ n) (hn : n < MAX_NEIGHBOR_ENTRY_SIZE) :
    neighMoved n pos = .ok (n.toNat - pos) := by
  unfold neighMoved
  rw [if_neg (by omega)]
  have hcount : (n - pos).toNat = n.toNat - pos := by omega
  dsimp only
  rw [hcount]
  split
  · rfl
  · rw [Int.toNat_natCast, inBounds, if_pos (by omega)]
    rfl

/-- An entry is overwritten. -/
theorem neighEntryAdd_update (htype : type < NEIGH_NR_TABLES)
    (hpos : pos < MAX_NEIGHBOR_ENTRY_SIZE) (hnum : num ≤ (c.neighTables type).numEntries) :
    c.neighEntryAdd ⟨type, pos, num, data⟩ = .ok (c.setNeigh type
      ⟨Function.update (c.neighTables type).entries pos data, num⟩) := by
  have hnot : ¬num > (c.neighTables type).numEntries := by omega
  simp only [neighEntryAdd, neighPos_ok num data htype hpos, bind, Except.bind, if_neg hnot]
  rfl

/-- The entries from the position on move up, and one is inserted. -/
theorem neighEntryAdd_insert (htype : type < NEIGH_NR_TABLES)
    (hpos : pos < MAX_NEIGHBOR_ENTRY_SIZE) (hnum : num > (c.neighTables type).numEntries)
    (hle : (pos : Int) ≤ (c.neighTables type).numEntries)
    (hroom : (c.neighTables type).numEntries < MAX_NEIGHBOR_ENTRY_SIZE) :
    c.neighEntryAdd ⟨type, pos, num, data⟩ = .ok (c.setNeigh type
      ⟨Function.update (moveUp (c.neighTables type).entries pos
        ((c.neighTables type).numEntries.toNat - pos)) pos data, num⟩) := by
  simp only [neighEntryAdd, neighPos_ok num data htype hpos, bind, Except.bind, if_pos hnum,
    neighMoved_ok hle hroom]
  rfl

/-- The entries behind the position move down. -/
theorem neighEntryDel_delete (htype : type < NEIGH_NR_TABLES)
    (hpos : pos < MAX_NEIGHBOR_ENTRY_SIZE) (hle : (pos : Int) ≤ num)
    (hroom : num < MAX_NEIGHBOR_ENTRY_SIZE) :
    c.neighEntryDel ⟨type, pos, num, data⟩ = .ok (c.setNeigh type
      ⟨moveDown (c.neighTables type).entries pos (num.toNat - pos), num⟩) := by
  simp only [neighEntryDel, neighPos_ok num data htype hpos, bind, Except.bind, neighMoved_ok hle hroom]
  rfl

end RibConf

/-- A change arrives at a copy of the table that it was made to. -/
theorem change_replayed {c : RibConf} {type : Nat} {msg : ConfMsg} {t t' : NeighTable}
    (htype : type < NEIGH_NR_TABLES) (hsized : t.Sized) (hchange : Change type t msg t')
    (hsame : SameEntries (c.neighTables type) t) (env : Env) (old : Option Rib) (rings : Rings) :
    ∃ r', SameEntries r' t'
      ∧ confMessage env old c rings msg = .ok (some (c.setNeigh type r', rings)) := by
  obtain ⟨hnum, hentries⟩ := hsame
  obtain ⟨hnonneg, hmax⟩ := hsized
  cases hchange with
  | @update pos data hlt =>
    have hadd := RibConf.neighEntryAdd_update (c := c) t.numEntries data htype
      (show pos < MAX_NEIGHBOR_ENTRY_SIZE by omega) (by omega)
    refine ⟨⟨Function.update (c.neighTables type).entries pos data, t.numEntries⟩,
      ⟨rfl, fun j hj => ?_⟩, by rw [confMessage, hadd]; rfl⟩
    by_cases hj' : j = pos
    · subst hj'
      simp
    · simp only [Function.update_of_ne hj']
      exact hentries j hj
  | @insert pos data hle hroom =>
    have hadd := RibConf.neighEntryAdd_insert (c := c) (t.numEntries + 1) data htype
      (show pos < MAX_NEIGHBOR_ENTRY_SIZE by omega) (by omega) (by omega) (by omega)
    refine ⟨⟨Function.update (moveUp (c.neighTables type).entries pos
        ((c.neighTables type).numEntries.toNat - pos)) pos data, t.numEntries + 1⟩,
      ⟨rfl, fun j hj => ?_⟩, by rw [confMessage, hadd]; rfl⟩
    rw [hnum]
    by_cases hj' : j = pos
    · subst hj'
      simp
    · simp only [Function.update_of_ne hj', moveUp]
      dsimp only at hj
      split
      · exact hentries (j - 1) (by omega)
      · exact hentries j (by omega)
  | @delete pos data hlt =>
    have hdel := RibConf.neighEntryDel_delete (c := c) (t.numEntries - 1) data htype
      (show pos < MAX_NEIGHBOR_ENTRY_SIZE by omega) (by omega) (by omega)
    refine ⟨⟨moveDown (c.neighTables type).entries pos ((t.numEntries - 1).toNat - pos),
        t.numEntries - 1⟩, ⟨rfl, fun j hj => ?_⟩, by rw [confMessage, hdel]; rfl⟩
    simp only [moveDown]
    dsimp only at hj
    split
    · exact hentries (j + 1) (by omega)
    · exact hentries j (by omega)

/-! ## What is in flight -/

/-- The messages make the tables out of the first one, one after the other. -/
inductive Linked (type : Nat) : NeighTable → List ConfMsg → List NeighTable → Prop
  | nil {t : NeighTable} : Linked type t [] []
  | cons {t t' : NeighTable} {msg : ConfMsg} {msgs : List ConfMsg} {ts : List NeighTable}
      (change : Change type t msg t') (rest : Linked type t' msgs ts) :
      Linked type t (msg :: msgs) (t' :: ts)

theorem Change.neighType {type : Nat} {t t' : NeighTable} {msg : ConfMsg}
    (h : Change type t msg t') : msg.neighType = type := by
  cases h with
  | update _ => exact Int.toNat_natCast type
  | insert _ _ => exact Int.toNat_natCast type
  | delete _ => exact Int.toNat_natCast type

theorem Linked.sized {type : Nat} {t : NeighTable} {msgs : List ConfMsg} {ts : List NeighTable}
    (h : Linked type t msgs ts) (hsized : t.Sized) : ∀ t' ∈ t :: ts, t'.Sized := by
  induction h with
  | nil =>
    intro t' ht'
    obtain rfl := List.mem_singleton.mp ht'
    exact hsized
  | cons change _ ih =>
    intro t' ht'
    rcases List.mem_cons.mp ht' with rfl | ht'
    · exact hsized
    · exact ih (change.sized hsized) t' ht'

/-- One more change at the end. -/
theorem Linked.snoc {type : Nat} {t last t' : NeighTable} {msg : ConfMsg} {msgs : List ConfMsg}
    {ts : List NeighTable} (h : Linked type t msgs ts) (hlast : (t :: ts).getLast? = some last)
    (change : Change type last msg t') : Linked type t (msgs ++ [msg]) (ts ++ [t']) := by
  induction h with
  | nil =>
    obtain rfl : _ = last := by simpa using hlast
    exact .cons change .nil
  | cons first rest ih =>
    refine .cons first (ih ?_)
    rwa [List.getLast?_cons_cons] at hlast

/-- The messages about a table that have not been processed. -/
def NeighSys.pending (s : NeighSys) (type : Nat) : List ConfMsg :=
  s.queue.filter fun msg => decide (msg.neighType = type)

/-- The RIB manager has the table as `base`, and what is in flight leads from there to the
    present table of the neighbor manager. -/
structure InFlight (s : NeighSys) (type : Nat) (base : NeighTable) : Prop where
  same : SameEntries (s.rib.conf.neighTables type) base
  sized : base.Sized
  linked : Linked type base (s.pending type) ((s.changes type).drop (s.taken type))
  present : (base :: (s.changes type).drop (s.taken type)).getLast? = some (s.master type)
  behind : s.taken type ≤ (s.changes type).length
  before : ∀ k, s.taken type = k + 1 → (s.changes type)[k]? = some base

theorem InFlight.master_sized {s : NeighSys} {type : Nat} {base : NeighTable}
    (h : InFlight s type base) : (s.master type).Sized :=
  h.linked.sized h.sized _ (List.mem_of_getLast? h.present)

/-- Both tables are in flight, and nothing else is. -/
def Lagging (s : NeighSys) : Prop :=
  (∀ type < NEIGH_NR_TABLES, ∃ base, InFlight s type base)
    ∧ ∀ msg ∈ s.queue, msg.neighType < NEIGH_NR_TABLES

theorem lagging_start {rib : RibState}
    (hempty : ∀ type < NEIGH_NR_TABLES, (rib.conf.neighTables type).numEntries = 0) :
    Lagging (.start rib) := by
  refine ⟨fun type htype => ⟨.zero, ?_⟩, fun msg hmsg => nomatch hmsg⟩
  refine ⟨⟨hempty type htype, fun j hj => ?_⟩, ⟨le_refl _, by decide⟩, .nil, rfl, le_refl _,
    fun k hk => nomatch hk⟩
  exact absurd hj (by simp [NeighTable.zero])

theorem lagging_request {s : NeighSys} {request : NeighRequest} (h : Lagging s)
    (htype : request.type < NEIGH_NR_TABLES) : Lagging (s.handle request true) := by
  obtain ⟨htables, hqueue⟩ := h
  obtain ⟨base, hbase⟩ := htables request.type htype
  rcases changed hbase.master_sized with hnone | ⟨msg, t, hchange, hsome⟩
  · have hsame : s.handle request true = s := by rw [NeighSys.handle, hnone]
    rw [hsame]
    exact ⟨htables, hqueue⟩
  · have hmsg := hchange.neighType
    have hnext : s.handle request true = { s with
        master := Function.update s.master request.type t
        queue := s.queue ++ [msg]
        changes := Function.update s.changes request.type (s.changes request.type ++ [t]) } := by
      rw [NeighSys.handle, hsome]
      simp
    rw [hnext]
    refine ⟨fun type htype' => ?_, fun m hm => ?_⟩
    · by_cases heq : type = request.type
      · subst heq
        refine ⟨base, hbase.same, hbase.sized, ?_, ?_, ?_, ?_⟩
        · have hdrop : (s.changes request.type ++ [t]).drop (s.taken request.type)
              = (s.changes request.type).drop (s.taken request.type) ++ [t] :=
            List.drop_append_of_le_length hbase.behind
          simp only [NeighSys.pending, Function.update_self, List.filter_append, hdrop]
          rw [List.filter_cons_of_pos (by simpa using hmsg), List.filter_nil]
          exact hbase.linked.snoc hbase.present hchange
        · have hdrop : (s.changes request.type ++ [t]).drop (s.taken request.type)
              = (s.changes request.type).drop (s.taken request.type) ++ [t] :=
            List.drop_append_of_le_length hbase.behind
          simp only [Function.update_self, hdrop]
          rw [← List.cons_append, List.getLast?_append]
          rfl
        · simp only [Function.update_self, List.length_append]
          exact Nat.le_add_right_of_le hbase.behind
        · intro k hk
          simp only [Function.update_self]
          have hlt : k < (s.changes request.type).length := by
            have := hbase.behind
            dsimp only at hk
            omega
          rw [List.getElem?_append_left hlt]
          exact hbase.before k hk
      · obtain ⟨base', hbase'⟩ := htables type htype'
        refine ⟨base', hbase'.same, hbase'.sized, ?_, ?_, ?_, ?_⟩
        · have hskip : decide (msg.neighType = type) = false := by
            rw [hmsg]
            simpa using Ne.symm heq
          simp only [NeighSys.pending, Function.update_of_ne heq, List.filter_append]
          rw [List.filter_cons_of_neg (by simp [hskip]), List.filter_nil, List.append_nil]
          exact hbase'.linked
        · simp only [Function.update_of_ne heq]
          exact hbase'.present
        · simp only [Function.update_of_ne heq]
          exact hbase'.behind
        · simp only [Function.update_of_ne heq]
          exact hbase'.before
    · rcases List.mem_append.mp hm with hm | hm
      · exact hqueue m hm
      · obtain rfl := List.mem_singleton.mp hm
        rw [hmsg]
        exact htype

/-- The first message about a table is a change of the table that the RIB manager has. -/
theorem first_replayed {s : NeighSys} {msg : ConfMsg} {rest : List ConfMsg} (h : Lagging s)
    (hqueue : s.queue = msg :: rest) (env : Env) :
    ∃ base t' r' ts, InFlight s msg.neighType base ∧ Change msg.neighType base msg t'
      ∧ Linked msg.neighType t' (rest.filter fun m => decide (m.neighType = msg.neighType)) ts
      ∧ (s.changes msg.neighType).drop (s.taken msg.neighType) = t' :: ts
      ∧ SameEntries r' t' ∧ confMessage env s.rib.rib s.rib.conf.next s.rib.rings msg
        = .ok (some (s.rib.conf.next.setNeigh msg.neighType r', s.rib.rings)) := by
  obtain ⟨htables, hall⟩ := h
  rw [hqueue] at hall
  have htype := hall msg (List.mem_cons_self ..)
  obtain ⟨base, hbase⟩ := htables msg.neighType htype
  have hpending : s.pending msg.neighType = msg :: rest.filter fun m =>
      decide (m.neighType = msg.neighType) := by
    rw [NeighSys.pending, hqueue, List.filter_cons_of_pos (by simp)]
  have hlinked := hbase.linked
  rw [hpending] at hlinked
  generalize hdrop : (s.changes msg.neighType).drop (s.taken msg.neighType) = ts at hlinked
  cases hlinked with
  | cons hchange hrest =>
    obtain ⟨r', hsame', hresult⟩ := change_replayed (c := s.rib.conf.next) htype hbase.sized hchange
      hbase.same env s.rib.rib s.rib.rings
    exact ⟨base, _, r', _, hbase, hchange, hrest, rfl, hsame', hresult⟩

theorem lagging_process {s : NeighSys} {msg : ConfMsg} {rest : List ConfMsg} {env : Env}
    {t : RibState} (h : Lagging s) (hqueue : s.queue = msg :: rest)
    (hprocess : ribManagerProcessMessage env s.rib (.conf msg) = .ok t) :
    Lagging { s with
      queue := rest
      rib := t
      taken := Function.update s.taken msg.neighType (s.taken msg.neighType + 1) } := by
  obtain ⟨base, t', r', ts, hbase, hchange, hrest, hdrop, hsame', hresult⟩ :=
    first_replayed h hqueue env
  have hconf : t.conf = s.rib.conf.next.setNeigh msg.neighType r' :=
    conf_of_handled hresult hprocess
  have hget : (s.changes msg.neighType)[s.taken msg.neighType]? = some t' := by
    have hhead := congrArg List.head? hdrop
    rwa [List.head?_drop] at hhead
  have hlt : s.taken msg.neighType < (s.changes msg.neighType).length :=
    (List.getElem?_eq_some_iff.mp hget).1
  have hdrop' : (s.changes msg.neighType).drop (s.taken msg.neighType + 1) = ts := by
    rw [← List.tail_drop, hdrop, List.tail_cons]
  obtain ⟨htables, hall⟩ := h
  refine ⟨fun type htype' => ?_, fun m hm => hall m (hqueue ▸ List.mem_cons_of_mem _ hm)⟩
  by_cases heq : type = msg.neighType
  · subst heq
    refine ⟨t', ?_, hchange.sized hbase.sized, ?_, ?_, ?_, ?_⟩
    · simp only [hconf, RibConf.setNeigh_self]
      exact hsame'
    · simp only [NeighSys.pending, Function.update_self, hdrop']
      exact hrest
    · simp only [Function.update_self, hdrop']
      have hpresent := hbase.present
      rw [hdrop, List.getLast?_cons_cons] at hpresent
      exact hpresent
    · simp only [Function.update_self]
      exact hlt
    · intro k hk
      simp only [Function.update_self, Nat.succ.injEq] at hk
      rw [← hk]
      exact hget
  · obtain ⟨base', hbase'⟩ := htables type htype'
    have hpending' : s.pending type = rest.filter fun m => decide (m.neighType = type) := by
      rw [NeighSys.pending, hqueue, List.filter_cons_of_neg (by simpa using Ne.symm heq)]
    have hlinked' := hbase'.linked
    rw [hpending'] at hlinked'
    refine ⟨base', ?_, hbase'.sized, ?_, ?_, ?_, ?_⟩
    · simp only [hconf, RibConf.setNeigh_of_ne heq]
      exact hbase'.same
    · simp only [NeighSys.pending, Function.update_of_ne heq]
      exact hlinked'
    · simp only [Function.update_of_ne heq]
      exact hbase'.present
    · simp only [Function.update_of_ne heq]
      exact hbase'.behind
    · simp only [Function.update_of_ne heq]
      exact hbase'.before

theorem lagging_step {s t : NeighSys} {event : NeighEvent} (h : Lagging s)
    (hstep : LosslessStep s event t) : Lagging t := by
  obtain ⟨hstep, hlossless⟩ := hstep
  cases hstep with
  | request htype => exact lagging_request h htype
  | lost _ => exact absurd rfl (hlossless _)
  | process hqueue _ hprocess => exact lagging_process h hqueue hprocess
  | other hmsg hallocs hprocess =>
    obtain ⟨htables, hqueue⟩ := h
    refine ⟨fun type htype => ?_, hqueue⟩
    obtain ⟨base, hbase⟩ := htables type htype
    refine ⟨base, ?_, hbase.sized, hbase.linked, hbase.present, hbase.behind, hbase.before⟩
    rw [(keepsTables_of_ok hallocs hmsg hprocess).neigh]
    exact hbase.same

/-- **The tables are replicated.** Without loss, whatever requests come in between, the RIB
    manager has each table after its `k`-th message as the neighbor manager had it after its
    `k`-th change. -/
theorem replicated {rib : RibState}
    (hempty : ∀ type < NEIGH_NR_TABLES, (rib.conf.neighTables type).numEntries = 0)
    (events : List NeighEvent) : Lib.Throughout LosslessStep (.start rib) Replicated events := by
  intro pre s _ hrun
  have hlag := hrun.invariant Lagging (lagging_start hempty) fun _ _ _ h hstep => lagging_step h hstep
  constructor
  · intro type htype k hk
    obtain ⟨base, hbase⟩ := hlag.1 type htype
    exact ⟨base, hbase.before k hk, hbase.same⟩
  · intro env msg rest hallocs hqueue
    obtain ⟨_, _, _, _, _, _, _, _, _, hresult⟩ := first_replayed hlag hqueue env
    exact process_ok hallocs hresult

/-- An entry of the ARP table. -/
def arpEntry (last : UInt8) : NeighEntry :=
  { NeighEntry.zero with ipAddr := Vector.ofFn fun i => if i.val = 3 then last else 0 }

/-- Two neighbors are learned, in the order that they are not sorted in, one is forgotten while the
    messages are on their way, and one of the other table is learned. -/
theorem replicated_interleaved : Lib.Throughout LosslessStep (.start RibState.init) Replicated
    [.request (.add 0 (arpEntry 2)), .request (.add 0 (arpEntry 1)), .process .plain,
      .request (.del 0 (arpEntry 2)), .process .plain, .request (.add 1 .zero), .process .plain,
      .process .plain] :=
  replicated (fun _ _ => rfl) _

end SdPlane
