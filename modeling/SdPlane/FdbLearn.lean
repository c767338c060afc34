import SdPlane.Fdb
import SdPlane.Lib.Run
import SdPlane.RibConfSpec

/-!
# MAC learning

Learning is split over two threads. `l3_tap_handler` looks the source address of every frame up
in the published forwarding database and sends `FDB_ENTRY_ADD` only if it is not there;
`rib_manager` adds what it is told, to the next version. `fdb_add_entry` has a branch that
updates the port and the time of an entry that is there, and the filter in front of it sees to
it that this branch is never taken for an active host.

So what is learned about a host is its **first** frame. `Learned` is what should hold instead,
for a history `heard` of the most recent frame of every host, and `learned_iff` says when it
does: a run keeps it exactly when every frame either comes from a host that is not in the
database, or repeats what the database has, port and time.

Frames are not alone in the runs here. Ageing runs come in between, and forget hosts that have
been silent for too long, and so does every message that is about something else.
-/

set_option autoImplicit false

namespace SdPlane

open Lib (NewestFirst young)

/-! ## The two threads -/

def FDB_AGING_TIME_DEFAULT : Int := 7200

/-- What learning reads of an mbuf: the source address and the port. -/
structure RxFrame where
  srcAddr : EtherAddr
  port : UInt16

/-- `is_fdb_send_add`. -/
def isFdbSendAdd (ribInfo : RibInfo) (m : RxFrame) (vlanId : UInt16) : Bool :=
  decide (fdbLookupEntry ribInfo.fdb m.srcAddr vlanId < 0)

/-- `send_fdb_entry_add_msg`: the message. -/
def sendFdbEntryAddMsg (m : RxFrame) (vlanId : UInt16) : ConfMsg :=
  .fdbEntryAdd ⟨m.srcAddr, vlanId, m.port⟩

/-- One round of the loop in `l3_tap_handler_dequeue_burst`, as far as it learns: the message
    that is sent, if one is. -/
def l3TapHandlerLearn (ribInfo : RibInfo) (vswitch : VswitchConf) (m : RxFrame) :
    Option ConfMsg :=
  if isFdbSendAdd ribInfo m vswitch.vlanId then some (sendFdbEntryAddMsg m vswitch.vlanId)
  else none

/-- The ageing run in the main loop of `rib_manager`, on the published version itself. -/
def ribManagerAging (s : RibState) (time : Int) : RibState :=
  match s.published with
  | some info =>
    { s with rib := some ⟨some { info with toRibConf := { info.toRibConf with
      fdb := fdbAgingProcess info.fdb time FDB_AGING_TIME_DEFAULT } }⟩ }
  | none => s

/-! ## The system -/

/-- The state of the manager, and the most recent frame of every host: its port and its time.
    A host that has been silent for longer than the ageing time is no longer counted. -/
structure Learner where
  rib : RibState
  heard : EtherAddr → UInt16 → Option (Int × Int)

inductive LearnEvent
  | frame (env : Env) (vswitch : Nat) (m : RxFrame)
  | aging (time : Int)
  | other (env : Env) (msg : Msg)

/-- The key is heard from at `time` on `port`. -/
def hear (heard : EtherAddr → UInt16 → Option (Int × Int)) (macAddr : EtherAddr)
    (vlanId : UInt16) (time port : Int) : EtherAddr → UInt16 → Option (Int × Int) :=
  fun mac vlan => if mac = macAddr ∧ vlan = vlanId then some (time, port) else heard mac vlan

/-- One event. The message a frame gives rise to is processed before the next event, and there
    is room for it. -/
inductive LearnStep (s : Learner) : LearnEvent → Learner → Prop
  | silent {env : Env} {i : Nat} {m : RxFrame} {info : RibInfo}
      (hinfo : s.rib.published = some info) (hi : i < info.vswitchSize.toNat)
      (hmsg : l3TapHandlerLearn info (info.vswitch i) m = none) :
      LearnStep s (.frame env i m)
        ⟨s.rib, hear s.heard m.srcAddr (info.vswitch i).vlanId env.time m.port.toNat⟩
  | sent {env : Env} {i : Nat} {m : RxFrame} {info : RibInfo} {msg : ConfMsg} {t : RibState}
      (hinfo : s.rib.published = some info) (hi : i < info.vswitchSize.toNat)
      (hmsg : l3TapHandlerLearn info (info.vswitch i) m = some msg)
      (hprocess : ribManagerProcessMessage env s.rib (.conf msg) = .ok t)
      (hroom : (fdbAddEntry info.fdb env.time m.srcAddr (info.vswitch i).vlanId
        m.port.toNat).1 ≠ none) :
      LearnStep s (.frame env i m)
        ⟨t, hear s.heard m.srcAddr (info.vswitch i).vlanId env.time m.port.toNat⟩
  | aging {time : Int} (hinfo : s.rib.published.isSome) :
      LearnStep s (.aging time) ⟨ribManagerAging s.rib time,
        fun mac vlan => (s.heard mac vlan).filter (young time FDB_AGING_TIME_DEFAULT)⟩
  | other {env : Env} {msg : Msg} {t : RibState} (hmsg : msg.Elsewhere) (hallocs : env.AllocsOk)
      (hprocess : ribManagerProcessMessage env s.rib msg = .ok t) :
      LearnStep s (.other env msg) ⟨t, s.heard⟩

/-- What was heard last of a host is what the database has of it: the port that a lookup
    answers with, and the time. -/
def Learned (s : Learner) : Prop :=
  ∀ mac vlan x, s.heard mac vlan = some x →
    fdbNewest s.rib.conf.fdb mac vlan = some x ∧ fdbLookupEntry s.rib.conf.fdb mac vlan = x.2

/-- The frame is the first of its host, or says what the database says already. -/
def FirstOrSame (s : Learner) : LearnEvent → Prop
  | .frame env i m =>
    let vlanId := (s.rib.conf.vswitch i).vlanId
    fdbLookupEntry s.rib.conf.fdb m.srcAddr vlanId < 0
      ∨ fdbNewest s.rib.conf.fdb m.srcAddr vlanId = some (env.time, (m.port.toNat : Int))
  | .aging _ | .other _ _ => True

/-! ## No key has two entries -/

/-- With the filter in front of it, the database holds every key once, and real ports. -/
structure Unduplicated (fdb : Nat → FdbEntry) : Prop where
  single : ∀ mac vlan o o' x y, fdbView fdb mac vlan o = some x → fdbView fdb mac vlan o' = some y →
    o = o'
  port : ∀ mac vlan o x, fdbView fdb mac vlan o = some x → 0 ≤ x.2

namespace Unduplicated

variable {fdb : Nat → FdbEntry} {mac : EtherAddr} {vlan : UInt16}

theorem newest (h : Unduplicated fdb) (mac : EtherAddr) (vlan : UInt16) :
    NewestFirst (fdbProbe mac vlan) (fdbView fdb mac vlan) := by
  refine List.Pairwise.imp ?_ (fdbProbe_nodup mac vlan)
  intro a b hne x hx y hy
  exact absurd (h.single mac vlan a b x y hx hy) hne

theorem newest_port (h : Unduplicated fdb) {x : Int × Int}
    (hx : fdbNewest fdb mac vlan = some x) : 0 ≤ x.2 := by
  obtain ⟨o, -, ho⟩ := List.exists_of_findSome?_eq_some hx
  exact h.port mac vlan o x ho

/-- A lookup misses exactly when there is no entry. -/
theorem lookup_neg_iff (h : Unduplicated fdb) :
    fdbLookupEntry fdb mac vlan < 0 ↔ fdbNewest fdb mac vlan = none := by
  rw [fdbLookupEntry_eq]
  cases hnew : fdbNewest fdb mac vlan with
  | none => simp
  | some x => simpa using h.newest_port hnew

theorem view_none (hnew : fdbNewest fdb mac vlan = none) (o : Nat) :
    fdbView fdb mac vlan o = none := by
  by_cases ho : o < FDB_SIZE
  · exact List.findSome?_eq_none_iff.mp hnew o (mem_fdbProbe.mpr ho)
  · unfold fdbView
    rw [if_neg fun h => ho h.1]

theorem aging (h : Unduplicated fdb) (time maxAge : Int) :
    Unduplicated (fdbAgingProcess fdb time maxAge) := by
  constructor
  · intro mac vlan o o' x y hx hy
    rw [fdbView_aging] at hx hy
    exact h.single mac vlan o o' x y (Option.mem_filter_iff.mp hx).1 (Option.mem_filter_iff.mp hy).1
  · intro mac vlan o x hx
    rw [fdbView_aging] at hx
    exact h.port mac vlan o x (Option.mem_filter_iff.mp hx).1

/-- A host that is not there is added. -/
theorem added (h : Unduplicated fdb) (hnew : fdbNewest fdb mac vlan = none) {time port : Int}
    (hport : 0 ≤ port) (hroom : (fdbAddEntry fdb time mac vlan port).1 ≠ none) :
    Unduplicated (fdbAddEntry fdb time mac vlan port).2
      ∧ fdbNewest (fdbAddEntry fdb time mac vlan port).2 mac vlan = some (time, port)
      ∧ ∀ mac' vlan', ¬(mac' = mac ∧ vlan' = vlan) →
          fdbNewest (fdbAddEntry fdb time mac vlan port).2 mac' vlan' = fdbNewest fdb mac' vlan' := by
  have hadded := fdbAdded fdb time mac vlan port
  generalize fdbAddEntry fdb time mac vlan port = res at hadded hroom
  cases hadded with
  | full _ => exact absurd rfl hroom
  | @placed before after o hprobe hbefore hslot =>
    have ho := mem_fdbProbe.mp (hprobe ▸ List.mem_append_right _ (List.mem_cons_self ..))
    have hnone := view_none hnew
    have hown : fdbView (Function.update fdb o ⟨mac, port, vlan, FDB_STATE_ACTIVE, time⟩) mac vlan
        = Function.update (fdbView fdb mac vlan) o (some (time, port)) := fdbView_placed ho
    have hother : ∀ mac' vlan', ¬(mac' = mac ∧ vlan' = vlan) → fdbView (Function.update fdb o
        ⟨mac, port, vlan, FDB_STATE_ACTIVE, time⟩) mac' vlan' = fdbView fdb mac' vlan' :=
      fun mac' vlan' hne => fdbView_placed_other hslot hne
    refine ⟨⟨?_, ?_⟩, ?_, ?_⟩
    · intro mac' vlan' a b x y hx hy
      by_cases hkey : mac' = mac ∧ vlan' = vlan
      · obtain ⟨rfl, rfl⟩ := hkey
        have honly : ∀ {c z}, fdbView (Function.update fdb o
            ⟨mac', port, vlan', FDB_STATE_ACTIVE, time⟩) mac' vlan' c = some z → c = o := by
          intro c z hz
          by_contra hc
          rw [hown, Function.update_of_ne hc, hnone c] at hz
          cases hz
        rw [honly hx, honly hy]
      · rw [hother mac' vlan' hkey] at hx hy
        exact h.single mac' vlan' a b x y hx hy
    · intro mac' vlan' a x hx
      by_cases hkey : mac' = mac ∧ vlan' = vlan
      · obtain ⟨rfl, rfl⟩ := hkey
        rw [hown] at hx
        by_cases ha : a = o
        · subst ha
          rw [Function.update_self] at hx
          obtain rfl := Option.some.inj hx
          exact hport
        · rw [Function.update_of_ne ha, hnone a] at hx
          cases hx
      · rw [hother mac' vlan' hkey] at hx
        exact h.port mac' vlan' a x hx
    · exact fdbNewest_write hprobe (fun i _ => hnone i) hown
    · intro mac' vlan' hne
      rw [fdbNewest, hother mac' vlan' hne, fdbNewest]

end Unduplicated

/-! ## One event -/

theorem conf_of_published {s : RibState} {info : RibInfo} (h : s.published = some info) :
    s.conf = info.toRibConf := by rw [RibState.conf, h]; rfl

theorem conf_of_fdbEntryAdd {env : Env} {s t : RibState} {msg : InternalMsgFdbEntry}
    (h : ribManagerProcessMessage env s (.conf (.fdbEntryAdd msg)) = .ok t) :
    t.conf = { s.conf.next with
        fdb := (fdbAddEntry s.conf.fdb env.time msg.macAddr msg.vlanId msg.port.toNat).2 }
      ∧ t.published.isSome := by
  rcases conf_of_ok h with ⟨c, rings, hresult, rfl, hpub, -⟩ | ⟨hresult, -⟩
  · obtain ⟨hconf, -⟩ := Prod.mk.inj (Option.some.inj (Except.ok.inj hresult))
    rw [show s.conf.next.fdb = s.conf.fdb from rfl] at hconf
    exact ⟨hconf.symm, hpub⟩
  · cases hresult

theorem fdb_ribManagerAging {s : RibState} (h : s.published.isSome) (time : Int) :
    (ribManagerAging s time).conf.fdb
      = fdbAgingProcess s.conf.fdb time FDB_AGING_TIME_DEFAULT := by
  obtain ⟨info, hinfo⟩ := Option.isSome_iff_exists.mp h
  rw [conf_of_published hinfo, ribManagerAging, hinfo]
  rfl

/-- What a frame does to the database. -/
theorem frame_fdb {s t : Learner} {env : Env} {i : Nat} {m : RxFrame}
    (hinv : Unduplicated s.rib.conf.fdb) (h : LearnStep s (.frame env i m) t) :
    let vlanId := (s.rib.conf.vswitch i).vlanId
    t.heard = hear s.heard m.srcAddr vlanId env.time m.port.toNat
      ∧ ((fdbNewest s.rib.conf.fdb m.srcAddr vlanId ≠ none ∧ t.rib = s.rib)
        ∨ (fdbNewest s.rib.conf.fdb m.srcAddr vlanId = none
          ∧ (fdbAddEntry s.rib.conf.fdb env.time m.srcAddr vlanId m.port.toNat).1 ≠ none
          ∧ t.rib.conf.fdb
              = (fdbAddEntry s.rib.conf.fdb env.time m.srcAddr vlanId m.port.toNat).2)) := by
  cases h with
  | @silent _ _ _ info hinfo hi hmsg =>
    have hconf := conf_of_published hinfo
    refine ⟨by rw [hconf], .inl ⟨?_, rfl⟩⟩
    rw [l3TapHandlerLearn, ite_eq_right_iff] at hmsg
    intro hnone
    refine absurd (hmsg ?_) (by simp)
    rw [isFdbSendAdd, decide_eq_true_eq]
    rw [← hinv.lookup_neg_iff, hconf] at hnone
    exact hnone
  | @sent _ _ _ info msg t' hinfo hi hmsg hprocess hroom =>
    have hconf := conf_of_published hinfo
    unfold l3TapHandlerLearn at hmsg
    split at hmsg
    · next hsend =>
      obtain rfl := Option.some.inj hmsg
      rw [isFdbSendAdd, decide_eq_true_eq] at hsend
      refine ⟨by rw [hconf], .inr ⟨?_, ?_, ?_⟩⟩
      · rw [← hinv.lookup_neg_iff, hconf]
        exact hsend
      · rw [hconf]
        exact hroom
      · rw [hconf]
        show t'.conf.fdb = _
        rw [(conf_of_fdbEntryAdd hprocess).1, hconf]
    · cases hmsg

theorem unduplicated_step {s t : Learner} {event : LearnEvent} (h : Unduplicated s.rib.conf.fdb)
    (hstep : LearnStep s event t) : Unduplicated t.rib.conf.fdb := by
  cases event with
  | frame env i m =>
    rcases (frame_fdb h hstep).2 with ⟨-, hsame⟩ | ⟨hnew, hroom, hfdb⟩
    · rw [hsame]
      exact h
    · rw [hfdb]
      exact (h.added hnew (Int.natCast_nonneg _) hroom).1
  | aging time =>
    cases hstep with
    | aging hinfo =>
      rw [fdb_ribManagerAging hinfo]
      exact h.aging time _
  | other env msg =>
    cases hstep with
    | other hmsg hallocs hprocess =>
      rw [(keepsTables_of_ok hallocs hmsg hprocess).fdb]
      exact h

theorem hear_self (heard : EtherAddr → UInt16 → Option (Int × Int)) (macAddr : EtherAddr)
    (vlanId : UInt16) (time port : Int) :
    hear heard macAddr vlanId time port macAddr vlanId = some (time, port) := if_pos ⟨rfl, rfl⟩

theorem hear_other {heard : EtherAddr → UInt16 → Option (Int × Int)} {macAddr mac : EtherAddr}
    {vlanId vlan : UInt16} {time port : Int} (h : ¬(mac = macAddr ∧ vlan = vlanId)) :
    hear heard macAddr vlanId time port mac vlan = heard mac vlan := if_neg h

/-- The lookup answers with the port of the newest entry, so `Learned` is about that entry. -/
theorem learned_of_newest {s : Learner} (h : ∀ mac vlan x, s.heard mac vlan = some x →
    fdbNewest s.rib.conf.fdb mac vlan = some x) : Learned s := by
  intro mac vlan x hx
  have hnew := h mac vlan x hx
  refine ⟨hnew, ?_⟩
  rw [fdbLookupEntry_eq, hnew]
  rfl

/-- **A step lemma.** From a state where everything is learned, an event leads to such a state
    exactly when it is no frame of a known host with something new to say. -/
theorem learned_step_iff {s t : Learner} {event : LearnEvent}
    (hinv : Unduplicated s.rib.conf.fdb) (hlearned : Learned s) (hstep : LearnStep s event t) :
    Learned t ↔ FirstOrSame s event := by
  cases event with
  | frame env i m =>
    obtain ⟨hheard, hcases⟩ := frame_fdb hinv hstep
    rcases hcases with ⟨hknown, hsame⟩ | ⟨hnew, hroom, hfdb⟩
    · constructor
      · intro h
        have hown := (h m.srcAddr (s.rib.conf.vswitch i).vlanId (env.time, m.port.toNat)
          (by rw [hheard]; exact hear_self ..)).1
        rw [hsame] at hown
        exact .inr hown
      · intro h
        have hentry := h.resolve_left fun hneg => hknown (hinv.lookup_neg_iff.mp hneg)
        refine learned_of_newest fun mac vlan x hx => ?_
        rw [hsame]
        rw [hheard] at hx
        by_cases hkey : mac = m.srcAddr ∧ vlan = (s.rib.conf.vswitch i).vlanId
        · obtain ⟨rfl, rfl⟩ := hkey
          rw [hear_self] at hx
          exact hentry.trans hx
        · rw [hear_other hkey] at hx
          exact (hlearned mac vlan x hx).1
    · refine ⟨fun _ => .inl (hinv.lookup_neg_iff.mpr hnew), fun _ => ?_⟩
      obtain ⟨-, hown, hother⟩ := hinv.added hnew (Int.natCast_nonneg _) hroom
      refine learned_of_newest fun mac vlan x hx => ?_
      rw [hfdb]
      rw [hheard] at hx
      by_cases hkey : mac = m.srcAddr ∧ vlan = (s.rib.conf.vswitch i).vlanId
      · obtain ⟨rfl, rfl⟩ := hkey
        rw [hear_self] at hx
        exact hown.trans hx
      · rw [hear_other hkey] at hx
        rw [hother mac vlan hkey]
        exact (hlearned mac vlan x hx).1
  | aging time =>
    refine ⟨fun _ => trivial, fun _ => ?_⟩
    cases hstep with
    | aging hinfo =>
      -- a host that is counted still is young enough for the run to leave its entry
      refine learned_of_newest fun mac vlan x hx => ?_
      obtain ⟨hheard, hyoung⟩ := Option.mem_filter_iff.mp hx
      rw [fdb_ribManagerAging hinfo, fdbNewest, fdbView_aging,
        Lib.findSome?_keep (hinv.newest mac vlan), Option.filter_eq_some_iff]
      exact ⟨(hlearned mac vlan x hheard).1, hyoung⟩
  | other env msg =>
    refine ⟨fun _ => trivial, fun _ => ?_⟩
    cases hstep with
    | other hmsg hallocs hprocess =>
      intro mac vlan x hx
      rw [(keepsTables_of_ok hallocs hmsg hprocess).fdb]
      exact hlearned mac vlan x hx

/-! ## Every sequence of frames -/

/-- Nothing has been heard yet. -/
def Learner.start (rib : RibState) : Learner := ⟨rib, fun _ _ => none⟩

/-- **When learning follows the host.** From a version with an empty database, what was heard
    last of every host is what the database has of it, in every state on the way, exactly when
    no frame of a host that is in the database comes on another port or at another time than its
    entry has. -/
theorem learned_iff {rib : RibState} (hempty : ∀ o, (rib.conf.fdb o).state = FDB_STATE_NONE)
    (events : List LearnEvent) :
    Lib.Throughout LearnStep (.start rib) Learned events
      ↔ Lib.Stepwise LearnStep (.start rib) FirstOrSame events := by
  have hview : ∀ mac vlan o, fdbView rib.conf.fdb mac vlan o = none := by
    intro mac vlan o
    unfold fdbView
    rw [if_neg]
    rintro ⟨-, hstate, -⟩
    rw [hempty o] at hstate
    exact absurd hstate (by decide)
  refine Lib.throughout_iff (fun s => Unduplicated s.rib.conf.fdb) ?_ ?_ ?_ ?_
  · constructor
    · intro mac vlan o o' x y hx
      cases (hview mac vlan o).symm.trans hx
    · intro mac vlan o x hx
      cases (hview mac vlan o).symm.trans hx
  · intro s event t hinv hstep
    exact unduplicated_step hinv hstep
  · intro mac vlan x hx
    cases hx
  · intro s event t hinv hlearned hstep
    exact learned_step_iff hinv hlearned hstep

/-- A version with one vswitch, on vlan 10. -/
def oneVswitchInfo : RibInfo where
  toRibConf := { RibConf.zero with
    vswitchSize := 1
    vswitch := fun _ => { VswitchConf.zero with vswitchId := 1, vlanId := 10 } }
  nexthop := .zero
  fibTree := fun _ => none

def oneVswitch : RibState := { RibState.init with rib := some ⟨some oneVswitchInfo⟩ }

/-- What a frame or an ageing run leaves of the database, with vswitches that stay. -/
def learnFdb (vswitch : Nat → VswitchConf) (fdb : Nat → FdbEntry) : LearnEvent → Nat → FdbEntry
  | .frame env i m =>
    if fdbLookupEntry fdb m.srcAddr (vswitch i).vlanId < 0 then
      (fdbAddEntry fdb env.time m.srcAddr (vswitch i).vlanId m.port.toNat).2
    else fdb
  | .aging time => fdbAgingProcess fdb time FDB_AGING_TIME_DEFAULT
  | .other _ _ => fdb

/-- The frame is the first of its host, or says what the database says already. -/
def firstOrSame (vswitch : Nat → VswitchConf) (fdb : Nat → FdbEntry) : LearnEvent → Bool
  | .frame env i m =>
    decide (fdbLookupEntry fdb m.srcAddr (vswitch i).vlanId < 0
      ∨ fdbNewest fdb m.srcAddr (vswitch i).vlanId = some (env.time, (m.port.toNat : Int)))
  | .aging _ => true
  | .other _ _ => false

/-- All events are such frames, and ageing runs. -/
def learnMeets (vswitch : Nat → VswitchConf) : List LearnEvent → (Nat → FdbEntry) → Bool
  | [], _ => true
  | event :: events, fdb =>
    firstOrSame vswitch fdb event && learnMeets vswitch events (learnFdb vswitch fdb event)

theorem learnStep_conf {s t : Learner} {event : LearnEvent} (hstep : LearnStep s event t)
    (hown : ∀ env msg, event ≠ .other env msg) :
    t.rib.conf.vswitch = s.rib.conf.vswitch
      ∧ t.rib.conf.fdb = learnFdb s.rib.conf.vswitch s.rib.conf.fdb event := by
  cases hstep with
  | @silent _ _ m info hinfo _ hmsg =>
    rw [l3TapHandlerLearn, isFdbSendAdd, ite_eq_right_iff, decide_eq_true_eq] at hmsg
    have hknown := fun hsend => Option.some_ne_none _ (hmsg hsend)
    rw [learnFdb, conf_of_published hinfo, if_neg hknown]
    exact ⟨rfl, rfl⟩
  | @sent _ _ m info _ t hinfo _ hmsg hprocess _ =>
    unfold l3TapHandlerLearn at hmsg
    split at hmsg
    · next hsend =>
      obtain rfl := Option.some.inj hmsg
      rw [isFdbSendAdd, decide_eq_true_eq] at hsend
      show t.conf.vswitch = _ ∧ t.conf.fdb = _
      rw [(conf_of_fdbEntryAdd hprocess).1, learnFdb, conf_of_published hinfo, if_pos hsend]
      exact ⟨rfl, by with_reducible rfl⟩
    · cases hmsg
  | aging hinfo =>
    refine ⟨?_, fdb_ribManagerAging hinfo _⟩
    obtain ⟨info, hinfo⟩ := Option.isSome_iff_exists.mp hinfo
    rw [conf_of_published hinfo, ribManagerAging, hinfo]
    rfl
  | other => exact absurd rfl (hown _ _)

theorem stepwise_of_learnMeets {s₀ : Learner} {events : List LearnEvent}
    (h : learnMeets s₀.rib.conf.vswitch events s₀.rib.conf.fdb = true) :
    Lib.Stepwise LearnStep s₀ FirstOrSame events := by
  induction events generalizing s₀ with
  | nil => exact Lib.stepwise_nil
  | cons event events ih =>
    rw [learnMeets, Bool.and_eq_true] at h
    obtain ⟨hfirst, hrest⟩ := h
    have hnext : (∀ env msg, event ≠ .other env msg) → ∀ t, LearnStep s₀ event t →
        Lib.Stepwise LearnStep t FirstOrSame events := by
      intro hown t hstep
      obtain ⟨hvswitch, hfdb⟩ := learnStep_conf hstep hown
      refine ih ?_
      rw [hvswitch, hfdb]
      exact hrest
    cases event with
    | frame env i m =>
      rw [firstOrSame, decide_eq_true_eq] at hfirst
      exact Lib.stepwise_cons hfirst (hnext fun _ _ => LearnEvent.noConfusion)
    | aging time => exact Lib.stepwise_cons trivial (hnext fun _ _ => LearnEvent.noConfusion)
    | other env msg => cases hfirst

/-- Of two hosts the first one is heard twice, and at the other port when it has been forgotten. -/
theorem learned_iff_moved_later : Lib.Throughout LearnStep (.start oneVswitch) Learned
    [.frame .plain 0 ⟨zeros 6, 0⟩, .frame .plain 0 ⟨.replicate 6 1, 1⟩,
      .frame .plain 0 ⟨zeros 6, 0⟩, .aging 7201,
      .frame { Env.plain with time := 7300 } 0 ⟨zeros 6, 1⟩] :=
  (learned_iff (fun _ => rfl) _).mpr (stepwise_of_learnMeets (by decide +kernel))

/-- A host that moves is not found at its new port. -/
theorem moved_host_not_learned :
    ¬∀ events, Lib.Throughout LearnStep (.start oneVswitch) Learned events := by
  intro h
  obtain ⟨t, ht⟩ : ∃ t, ribManagerProcessMessage Env.plain oneVswitch
      (.conf (sendFdbEntryAddMsg ⟨zeros 6, 0⟩ 10)) = .ok t := ⟨_, rfl⟩
  obtain ⟨hconf, hpub⟩ := conf_of_fdbEntryAdd ht
  obtain ⟨info, hinfo⟩ := Option.isSome_iff_exists.mp hpub
  rw [conf_of_published hinfo] at hconf
  have hsend : isFdbSendAdd oneVswitchInfo ⟨zeros 6, 0⟩ 10 = true := by decide +kernel
  have hroom : (fdbAddEntry oneVswitchInfo.fdb 0 (zeros 6) 10 0).1 ≠ none := by decide +kernel
  have hfirst : LearnStep (.start oneVswitch) (.frame Env.plain 0 ⟨zeros 6, 0⟩)
      ⟨t, hear (fun _ _ => none) (zeros 6) 10 0 0⟩ :=
    .sent rfl Nat.zero_lt_one (if_pos hsend) ht hroom
  -- the host is there, so its second frame is not sent on
  have hknown : l3TapHandlerLearn info (info.vswitch 0) ⟨zeros 6, 1⟩ = none := by
    rw [l3TapHandlerLearn, isFdbSendAdd, hconf, if_neg]
    decide +kernel
  have hsize : 0 < info.vswitchSize.toNat := by
    rw [hconf]
    decide
  have hmoved := @LearnStep.silent ⟨t, hear (fun _ _ => none) (zeros 6) 10 0 0⟩ Env.plain _ _ _
    hinfo hsize hknown
  have hrun := Lib.Run.snoc (.snoc .nil hfirst) hmoved
  have hlearned := (h _ _ _ (List.prefix_refl _) hrun (zeros 6) (info.vswitch 0).vlanId _
    (hear_self ..)).2
  rw [conf_of_published hinfo, hconf] at hlearned
  exact absurd hlearned (by decide +kernel)

end SdPlane
