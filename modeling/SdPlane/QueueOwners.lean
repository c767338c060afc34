import SdPlane.QueuesFit
import SdPlane.RibReaders
import SdPlane.SetThread

/-!
# One lcore for each receive queue

`rte_eth_rx_burst` must not be called for one queue by two lcores at a time. Each lcore calls it for
the queues that its version of the rib gives it, and lcores may hold different versions: while the
rib manager waits in `urcu_qsbr_synchronize_rcu`, some have the version that is published and some
still the one before. So it is not enough that each version gives a queue to one lcore only. Two
versions in a row must not give it to two.

`oneAtATime_iff` says that this is exact, whatever the lcores run and in whatever order, with any
library that ends grace periods as liburcu promises to. And
`queues_one_at_a_time_iff` is about the rib manager: it is right just as long as a `QCONF` that takes
a queue from one lcore to another finds the memory for the version without `rib_info` that is
published in between.
-/

set_option autoImplicit false

namespace SdPlane

open Lib.Qsbr

/-! ## 1. What a version gives to an lcore -/

/-- The functions that receive from the queues of their lcore. -/
def Reader.polls : Reader → Bool
  | .enhancedRepeater | .l2Repeater | .l2Switch | .nettlpThread | .router | .srv6Router
  | .vlanSwitch => true
  | .dhcpServer | .l3TapHandler | .tapHandler => false

/-- `rib->rib_info->lcore_qconf[lcore_id]`; a version without `rib_info` is left at once. -/
def ribQueues (rib : Option Rib) (lcore : Nat) : List PortQueueConf :=
  match rib.bind Rib.ribInfo with
  | none => []
  | some info => (info.lcoreQconf lcore).queues

/-- No queue belongs to one lcore in `a` and to another in `b`. -/
def Compatible (a b : Nat → List PortQueueConf) : Prop :=
  ∀ l l' q, q ∈ a l → q ∈ b l' → l = l'

theorem Compatible.symm {a b : Nat → List PortQueueConf} (h : Compatible a b) : Compatible b a :=
  fun l l' q hq hq' => (h l' l q hq' hq).symm

/-! ## 2. Lcores that receive -/

/-- The lcores of the workers, and that of `lthread_main`, which may do what it likes. -/
def pollThreads (workers : Nat → List Worker) (main : List (Act RibPtr)) :
    Option Nat → List (Act RibPtr)
  | some lcore => lcoreActs (workers lcore)
  | none => main

/-- The lcore is about to receive from the queue. -/
def Polling (versions : List (Option Rib)) (s : Sys (Option Nat) RibPtr) (lcore : Nat)
    (q : PortQueueConf) : Prop :=
  ∃ r v rib, Reader.polls r ∧ s.AboutToRead (some lcore) (.rib r) v ∧ versions[v]? = some rib
    ∧ q ∈ ribQueues rib lcore

/-- While these versions are published one after the other, no two lcores are about to receive from
    one queue, whatever runs on them and in whatever order. -/
def OneAtATime (urcu : GracePeriod (Option Nat)) (versions : List (Option Rib)) : Prop :=
  ∀ workers main es l l' q,
    Polling versions ((Sys.init (pollThreads workers main)).run urcu es) l q →
    Polling versions ((Sys.init (pollThreads workers main)).run urcu es) l' q → l = l'

/-- A worker that receives once. -/
def pollOnce (lcore lcore' : Nat) (l : Nat) : List Worker :=
  if l = lcore ∨ l = lcore' then [.reader .router [1]] else []

/-- **Queues have one lcore at a time exactly when versions in a row are compatible.** -/
theorem oneAtATime_iff {urcu : GracePeriod (Option Nat)} {versions : List (Option Rib)}
    (hself : ∀ rib ∈ versions, Compatible (ribQueues rib) (ribQueues rib)) :
    OneAtATime urcu versions ↔ versions.IsChain fun a b => Compatible (ribQueues a) (ribQueues b) := by
  rw [List.isChain_iff_getElem]
  constructor
  · intro h i hi l l' q hq hq'
    by_contra hne
    have hthreads : some l ≠ some l' := fun heq => hne (Option.some.inj heq)
    have hprog : ∀ lcore, lcore = l ∨ lcore = l' → pollThreads (pollOnce l l') [] (some lcore)
        = .register :: .deref (.rib .router) :: .read (.rib .router) :: [.quiescent, .unregister] := by
      intro lcore hlcore
      simp [pollThreads, pollOnce, hlcore, lcoreActs, Worker.acts, Reader.turn]
    obtain ⟨es, hread, hread', -⟩ :=
      exists_aboutToRead urcu hthreads (hprog l (.inl rfl)) (hprog l' (.inr rfl)) i
    refine hne (h (pollOnce l l') [] es l l' q ⟨.router, i, versions[i], rfl, hread, ?_, hq⟩
      ⟨.router, i + 1, versions[i + 1], rfl, hread', ?_, hq'⟩)
    · exact List.getElem?_eq_getElem _
    · exact List.getElem?_eq_getElem _
  · intro h workers main es l l' q
    rintro ⟨r, v, rib, -, hread, hv, hq⟩ ⟨r', v', rib', -, hread', hv', hq'⟩
    obtain ⟨hlt, rfl⟩ := List.getElem?_eq_some_iff.mp hv
    obtain ⟨hlt', rfl⟩ := List.getElem?_eq_some_iff.mp hv'
    have hdisciplined : ∀ lcore,
        Disciplined Mode.init (pollThreads workers main (some lcore)) :=
      fun lcore => disciplined_lcoreActs (workers lcore) _
    rcases adjacent_of_aboutToRead (hdisciplined l) (hdisciplined l') hread hread' with
      rfl | rfl | rfl
    · exact hself _ (List.getElem_mem hlt) l l' q hq hq'
    · exact h v hlt' l l' q hq hq'
    · exact (h v' hlt).symm l l' q hq hq'

/-! ## 3. What the rib manager publishes -/

def ConfMsg.isQconf : ConfMsg → Bool
  | .qconf _ => true
  | _ => false

/-- The versions that `rib_manager_process_message` gives to `rib_replace`. `zero` is whether there
    is memory for the one without `rib_info`. -/
def ribReplaced (zero : Bool) (env : Env) (s : RibState) : Msg → Except Fault (List (Option Rib))
  | .portGetRequest portId => do
    let s' ← ribManagerProcessPortGet env s portId
    .ok [s'.rib]
  | .conf msg => do
    let info ← deref ((ribCreate env 0 s.rib).bind Rib.ribInfo)
    match ← confMessage env s.rib info.toRibConf s.rings msg with
    | none => .ok []
    | some (conf, rings) => do
      let s' ← publish env { s with rings := rings } (some ⟨some { info with toRibConf := conf }⟩)
      .ok ((if msg.isQconf && zero then [some ⟨none⟩] else []) ++ [s'.rib])
  | .routing msg => do
    let s' ← ribManagerProcessMessage env s (.routing msg)
    .ok [s'.rib]
  | .unknown type => do
    let s' ← ribManagerProcessMessage env s (.unknown type)
    .ok [s'.rib]

/-- What the rib manager meets with one message: what the world answers, and whether there is memory
    for the version without `rib_info`. -/
structure RibEvent where
  env : Env
  zero : Bool
  msg : Msg

/-- The rib manager, and what it has published so far. -/
abbrev Replacing := RibState × List (Option Rib)

/-- One message, on a machine with so many lcores. -/
def ReplacingStep (lcores : UInt16) (s : Replacing) (event : RibEvent) (t : Replacing) : Prop :=
  event.env.lcoreCount = lcores ∧ Step s.1 (event.env, event.msg) t.1
    ∧ ∃ new, ribReplaced event.zero event.env s.1 event.msg = .ok new ∧ t.2 = s.2 ++ new

/-- The queues of every lcore when a `QCONF` has been passed. -/
def queuesPassed (env : Env) (s : RibState) (qconf : Nat → LcoreQconf) (lcore : Nat) :
    List PortQueueConf :=
  (queuesAfter env s.conf.lcoreQconf qconf lcore).queues

/-- A `QCONF` is refused, or no queue goes from one lcore to another, or there is memory for the
    version in between. -/
def HandsOver (s : Replacing) (event : RibEvent) : Prop :=
  ∀ qconf, event.msg = .conf (.qconf qconf) → QconfAccepted event.env s.1 qconf →
    event.zero ∨ Compatible (ribQueues s.1.rib) (queuesPassed event.env s.1 qconf)

/-! ## 4. One message -/

theorem ribQueues_eq (s : RibState) (lcore : Nat) :
    ribQueues s.rib lcore = (s.conf.lcoreQconf lcore).queues := by
  unfold ribQueues RibState.conf
  cases hpub : s.rib.bind Rib.ribInfo with
  | none =>
    rw [show s.published = none from hpub]
    rfl
  | some info =>
    rw [show s.published = some info from hpub]
    rfl

/-- What has been published with a message. -/
inductive Replaced (zero : Bool) (env : Env) (s t : RibState) : Msg → List (Option Rib) → Prop
  | kept {msg : Msg} (h : t.conf.lcoreQconf = s.conf.lcoreQconf)
      (hqconf : ∀ q, msg = .conf (.qconf q) → ¬QconfAccepted env s q) : Replaced zero env s t msg []
  | same {msg : Msg} (h : t.conf.lcoreQconf = s.conf.lcoreQconf)
      (hqconf : ∀ q, msg = .conf (.qconf q) → ¬QconfAccepted env s q) :
      Replaced zero env s t msg [t.rib]
  | gone {msg : Msg} (h : t.published = none) (hqconf : ∀ q, msg ≠ .conf (.qconf q)) :
      Replaced zero env s t msg [t.rib]
  | passed {q : Nat → LcoreQconf} {c : RibConf} {r : RibConf × Rings}
      (hmade : Made env s q c) (hcheck : ribCheck env c s.rings = .ok (some r))
      (h : t.conf.lcoreQconf = c.lcoreQconf) (haccepted : QconfAccepted env s q) :
      Replaced zero env s t (.conf (.qconf q)) ((if zero then [some ⟨none⟩] else []) ++ [t.rib])

theorem replaced_conf {zero : Bool} {env : Env} {s t : RibState} {msg : ConfMsg}
    {new : List (Option Rib)} (h : ribReplaced zero env s (.conf msg) = .ok new)
    (hstep : ribManagerProcessMessage env s (.conf msg) = .ok t) :
    Replaced zero env s t (.conf msg) new := by
  have hconf := conf_of_ok hstep
  obtain ⟨info, hinfo, h⟩ := bind_ok h
  obtain ⟨result, hresult, h⟩ := bind_ok h
  obtain ⟨info', hinfo', hstep⟩ := bind_ok hstep
  obtain rfl := Except.ok.inj (hinfo.symm.trans hinfo')
  obtain ⟨result', hresult', hstep⟩ := bind_ok hstep
  obtain rfl := Except.ok.inj (hresult.symm.trans hresult')
  rw [ribCreate_conf (deref_ok hinfo)] at hresult
  cases result with
  | none =>
    obtain rfl := Except.ok.inj h
    refine .kept ?_ fun q heq => ?_
    · rcases hconf with ⟨_, _, hsome, -⟩ | ⟨-, hsame | hflag⟩
      · cases hresult.symm.trans hsome
      · rw [hsame]
      · rw [putStopFlag] at hflag
        split at hflag
        · cases hflag
        · rw [← Except.ok.inj hflag]
    · obtain rfl := Msg.conf.inj heq
      rintro ⟨c, hc, r, hr⟩
      obtain ⟨c', hc', hresult⟩ := bind_ok hresult
      obtain ⟨_, -, hcheck⟩ := bind_ok hresult
      obtain rfl := Except.ok.inj (hc.symm.trans hc')
      cases hr.symm.trans hcheck
  | some r =>
    obtain ⟨c, rings⟩ := r
    obtain rfl := Except.ok.inj hstep
    obtain rfl := Except.ok.inj h
    cases hq : msg.isQconf with
    | false =>
      have hne : ∀ q, Msg.conf msg ≠ .conf (.qconf q) := by
        rintro q heq
        obtain rfl := Msg.conf.inj heq
        cases hq
      rw [Bool.false_and, if_neg Bool.false_ne_true, List.nil_append]
      refine .same ?_ fun q heq => absurd heq (hne q)
      show c.lcoreQconf = s.conf.lcoreQconf
      rcases (outcome_of_some hresult).queues_cases with hkeeps | ⟨hlists, -⟩ | ⟨q, _, rfl, -⟩
      · exact hkeeps.qconf
      · exact hlists
      · cases hq
    | true =>
      cases msg with
      | qconf q =>
        obtain ⟨c', hc', hresult⟩ := bind_ok hresult
        obtain ⟨_, -, hcheck⟩ := bind_ok hresult
        exact .passed (made_of_ok hc') hcheck (ribCheck_keepsQueues hcheck).1 ⟨c', hc', _, hcheck⟩
      | _ => cases hq

theorem replaced_of_ok {zero : Bool} {env : Env} {s t : RibState} {msg : Msg}
    {new : List (Option Rib)} (h : ribReplaced zero env s msg = .ok new)
    (hstep : ribManagerProcessMessage env s msg = .ok t) : Replaced zero env s t msg new := by
  cases msg with
  | conf msg => exact replaced_conf h hstep
  | portGetRequest portId =>
    obtain ⟨s', hs', h⟩ := bind_ok h
    obtain rfl := Except.ok.inj h
    obtain ⟨info, hinfo, ht⟩ := portGet_ok hstep
    obtain ⟨t', ht', hstep⟩ := bind_ok hstep
    obtain ⟨_, -, hstep⟩ := bind_ok hstep
    obtain rfl := Except.ok.inj hstep
    obtain rfl := Except.ok.inj (hs'.symm.trans ht')
    refine .same ?_ fun q heq => by cases heq
    have hlists : info.lcoreQconf = s.conf.next.lcoreQconf :=
      congrArg RibConf.lcoreQconf (ribCreate_conf hinfo)
    rw [ht]
    exact hlists
  | routing msg =>
    obtain ⟨s', hs', h⟩ := bind_ok h
    obtain rfl := Except.ok.inj h
    obtain rfl := Except.ok.inj (hs'.symm.trans hstep)
    refine .same ?_ fun q heq => by cases heq
    obtain ⟨info, hinfo, hstep⟩ := bind_ok hstep
    obtain rfl := Except.ok.inj hstep
    show info.lcoreQconf = s.conf.lcoreQconf
    rw [ribCreate_conf (deref_ok hinfo)]
    rfl
  | unknown type =>
    obtain ⟨s', hs', h⟩ := bind_ok h
    obtain rfl := Except.ok.inj h
    obtain rfl := Except.ok.inj (hs'.symm.trans hstep)
    cases hnew : (ribCreate env 0 s.rib).bind Rib.ribInfo with
    | none =>
      refine .gone ?_ fun q heq => by cases heq
      simp only [ribManagerProcessMessage, publish, hnew] at hstep
      split at hstep
      · cases hstep
      · obtain rfl := Except.ok.inj hstep
        exact hnew
    | some info =>
      refine .same ?_ fun q heq => by cases heq
      simp only [ribManagerProcessMessage, publish, hnew] at hstep
      obtain rfl := Except.ok.inj hstep
      show info.lcoreQconf = s.conf.lcoreQconf
      rw [ribCreate_conf hnew]
      rfl

/-! ## 5. One version -/

/-- Every queue has one lcore, and no lcore beyond the last one has any. -/
structure Assigned (lcores : UInt16) (c : RibConf) : Prop where
  once : EachOnce (queuesIn c.lcoreQconf lcores.toNat)
  beyond : ∀ l, lcores.toNat ≤ l → (c.lcoreQconf l).nrxq = 0

theorem Assigned.of_lists {lcores : UInt16} {c d : RibConf} (h : Assigned lcores c)
    (hlists : d.lcoreQconf = c.lcoreQconf) : Assigned lcores d := by
  refine ⟨?_, fun l hl => ?_⟩
  · rw [hlists]
    exact h.once
  · rw [hlists]
    exact h.beyond l hl

theorem assigned_zero (lcores : UInt16) : Assigned lcores .zero := by
  have hnone : queuesIn RibConf.zero.lcoreQconf lcores.toNat = [] :=
    List.flatMap_eq_nil_iff.mpr fun _ _ => rfl
  refine ⟨?_, fun _ _ => rfl⟩
  rw [hnone]
  exact fun port => ⟨List.nodup_nil, 0, fun k => by simp [queueIds]⟩

theorem EachOnce.nodup {queues : List PortQueueConf} (h : EachOnce queues) : queues.Nodup := by
  rw [List.nodup_iff_count_le_one]
  intro q
  have hids := List.nodup_iff_count_le_one.mp (h q.portId).1 q.queueId.toNat
  refine le_trans ?_ hids
  rw [queueIds]
  refine le_trans ?_ (List.count_le_count_map (x := q) (f := fun x => x.queueId.toNat))
  rw [List.count_filter (by simp)]

/-- One version never gives a queue to two lcores. -/
theorem Assigned.compatible {lcores : UInt16} {c : RibConf} (h : Assigned lcores c) :
    Compatible (fun l => (c.lcoreQconf l).queues) fun l => (c.lcoreQconf l).queues := by
  have hlt : ∀ l q, q ∈ (c.lcoreQconf l).queues → l < lcores.toNat := by
    intro l q hq
    by_contra hl
    rw [LcoreQconf.queues, h.beyond l (Nat.le_of_not_lt hl)] at hq
    cases hq
  obtain ⟨-, hpairwise⟩ := List.nodup_flatMap.mp h.once.nodup
  intro l l' q hq hq'
  by_contra hne
  have hdisjoint := (List.pairwise_iff_getElem.mp hpairwise)
  rcases Nat.lt_or_gt_of_ne hne with hlt' | hlt'
  · have hd := hdisjoint l l' (by simpa using hlt l q hq) (by simpa using hlt l' q hq') hlt'
    simp only [List.getElem_range] at hd
    exact hd hq hq'
  · have hd := hdisjoint l' l (by simpa using hlt l' q hq') (by simpa using hlt l q hq) hlt'
    simp only [List.getElem_range] at hd
    exact hd hq' hq

theorem Made.assigned {env : Env} {s : RibState} {q : Nat → LcoreQconf} {c : RibConf}
    {r : RibConf × Rings} (h : Made env s q c) (hs : Assigned env.lcoreCount s.conf)
    (hcheck : ribCheck env c s.rings = .ok (some r)) : Assigned env.lcoreCount c where
  once := by
    have hnumbered := (ribCheck_some hcheck).1
    rw [RibConf.queues, h.size, numbered_iff_eachOnce] at hnumbered
    exact hnumbered
  beyond l hl := by
    rw [h.others l hl]
    exact hs.beyond l hl

theorem Made.queues_passed {env : Env} {s : RibState} {q : Nat → LcoreQconf} {c : RibConf}
    (h : Made env s q c) (l : Nat) : (c.lcoreQconf l).queues = queuesPassed env s q l := by
  rw [queuesPassed, queuesAfter, LcoreQconf.queues, LcoreQconf.queues, LcoreQconf.entries_eq_iff]
  split
  · next hl => exact h.queues l hl
  · next hl =>
    rw [h.others l (Nat.le_of_not_lt hl)]
    exact ⟨rfl, fun _ _ => rfl⟩

/-! ## 6. Runs -/

/-- The last version has the queues of the state, and every version gives each queue to one lcore. -/
structure Tracked (lcores : UInt16) (s : Replacing) : Prop where
  assigned : Assigned lcores s.1.conf
  last : ribQueues (s.2.getLast?.getD none) = ribQueues s.1.rib
  self : ∀ rib ∈ s.2, Compatible (ribQueues rib) (ribQueues rib)

theorem Assigned.rib_compatible {lcores : UInt16} {s : RibState} (h : Assigned lcores s.conf) :
    Compatible (ribQueues s.rib) (ribQueues s.rib) := by
  rw [show ribQueues s.rib = fun l => (s.conf.lcoreQconf l).queues from funext (ribQueues_eq s)]
  exact h.compatible

theorem tracked_init (lcores : UInt16) : Tracked lcores (.init, []) where
  assigned := assigned_zero lcores
  last := rfl
  self _ h := by cases h

theorem compatible_empty_left (b : Nat → List PortQueueConf) :
    Compatible (ribQueues (some ⟨none⟩)) b := by
  intro l l' q hq
  cases hq

/-- Versions in a row. -/
def InARow (versions : List (Option Rib)) : Prop :=
  versions.IsChain fun a b => Compatible (ribQueues a) (ribQueues b)

theorem inARow_snoc {versions : List (Option Rib)} {rib : Option Rib} :
    InARow (versions ++ [rib])
      ↔ InARow versions ∧ Compatible (ribQueues (versions.getLast?.getD none)) (ribQueues rib) := by
  rw [InARow, List.isChain_append]
  cases hlast : versions.getLast? with
  | none =>
    have hnone : Compatible (ribQueues none) (ribQueues rib) := fun l l' q hq => by cases hq
    simp [InARow, hnone]
  | some last => simp [InARow]

/-- **One message**: the versions stay in a row exactly when the queues are handed over. -/
theorem Tracked.step {lcores : UInt16} {s t : Replacing} {event : RibEvent} (h : Tracked lcores s)
    (hstep : ReplacingStep lcores s event t) :
    Tracked lcores t ∧ (InARow s.2 → (InARow t.2 ↔ HandsOver s event)) := by
  obtain ⟨env, zero, msg⟩ := event
  obtain ⟨s, old⟩ := s
  obtain ⟨t, versions⟩ := t
  obtain ⟨rfl, hstep, new, hnew, rfl⟩ := hstep
  have hqueues : ∀ {u v : RibState}, v.conf.lcoreQconf = u.conf.lcoreQconf →
      ribQueues v.rib = ribQueues u.rib := by
    intro u v huv
    funext l
    rw [ribQueues_eq, ribQueues_eq, huv]
  have hself : Compatible (ribQueues s.rib) (ribQueues s.rib) := h.assigned.rib_compatible
  have hlast : ribQueues (old.getLast?.getD none) = ribQueues s.rib := h.last
  have hreplaced : Replaced zero env s t msg new := replaced_of_ok hnew hstep
  cases hreplaced with
  | kept hlists hqconf =>
    rw [List.append_nil]
    refine ⟨⟨h.assigned.of_lists hlists, ?_, h.self⟩, fun hrow => ?_⟩
    · rw [hqueues hlists]
      exact hlast
    · exact iff_of_true hrow fun q hq haccepted => absurd haccepted (hqconf q hq)
  | same hlists hqconf =>
    refine ⟨⟨h.assigned.of_lists hlists, by simp, fun rib hrib => ?_⟩, fun hrow => ?_⟩
    · rcases List.mem_append.mp hrib with hrib | hrib
      · exact h.self rib hrib
      · rw [List.mem_singleton.mp hrib, hqueues hlists]
        exact hself
    · refine iff_of_true (inARow_snoc.mpr ⟨hrow, ?_⟩)
        fun q hq haccepted => absurd haccepted (hqconf q hq)
      rw [hlast, hqueues hlists]
      exact hself
  | gone hpub hqconf =>
    have hconf : t.conf = .zero := by
      rw [RibState.conf, hpub]
      rfl
    have hempty : ∀ b, Compatible b (ribQueues t.rib) := by
      intro b l l' q _ hq
      rw [ribQueues_eq, hconf] at hq
      cases hq
    refine ⟨⟨?_, by simp, fun rib hrib => ?_⟩, fun hrow => ?_⟩
    · show Assigned _ t.conf
      rw [hconf]
      exact assigned_zero _
    · rcases List.mem_append.mp hrib with hrib | hrib
      · exact h.self rib hrib
      · rw [List.mem_singleton.mp hrib]
        exact hempty _
    · exact iff_of_true (inARow_snoc.mpr ⟨hrow, hempty _⟩) fun q hq => absurd hq (hqconf q)
  | @passed q c r hmade hcheck hlists haccepted =>
    have hassigned : Assigned env.lcoreCount t.conf :=
      (hmade.assigned h.assigned hcheck).of_lists hlists
    have hpassed : ribQueues t.rib = queuesPassed env s q := by
      funext l
      rw [ribQueues_eq, hlists, hmade.queues_passed]
    have hplain : InARow old → (InARow (old ++ [t.rib])
        ↔ Compatible (ribQueues s.rib) (queuesPassed env s q)) := by
      intro hrow
      rw [inARow_snoc, hlast, hpassed]
      exact and_iff_right hrow
    have hboth : ∀ rib, rib ∈ old ∨ rib = some ⟨none⟩ ∨ rib = t.rib →
        Compatible (ribQueues rib) (ribQueues rib) := by
      rintro rib (hrib | rfl | rfl)
      · exact h.self rib hrib
      · exact compatible_empty_left _
      · exact hassigned.rib_compatible
    have hguard : HandsOver (s, old) ⟨env, zero, .conf (.qconf q)⟩
        ↔ zero ∨ Compatible (ribQueues s.rib) (queuesPassed env s q) := by
      constructor
      · exact fun hover => hover q rfl haccepted
      · rintro hover q' heq -
        obtain rfl := ConfMsg.qconf.inj (Msg.conf.inj heq)
        exact hover
    cases zero with
    | false =>
      refine ⟨⟨hassigned, by simp, fun rib hrib => hboth rib ?_⟩, fun hrow => ?_⟩
      · exact (List.mem_append.mp hrib).imp_right fun hlast => .inr (by simpa using hlast)
      · rw [hguard]
        simpa using hplain hrow
    | true =>
      refine ⟨⟨hassigned, by simp, fun rib hrib => hboth rib ?_⟩, fun hrow => ?_⟩
      · simpa [or_assoc] using hrib
      · refine iff_of_true ?_ (hguard.mpr (.inl rfl))
        -- the version in between has no queues
        have hzero : InARow (old ++ [some ⟨none⟩]) :=
          inARow_snoc.mpr ⟨hrow, (compatible_empty_left _).symm⟩
        have hrow' := inARow_snoc.mpr ⟨hzero, by simpa using compatible_empty_left (ribQueues t.rib)⟩
        simpa using hrow'

theorem Tracked.oneAtATime_iff {urcu : GracePeriod (Option Nat)} {lcores : UInt16} {s : Replacing}
    (h : Tracked lcores s) : OneAtATime urcu s.2 ↔ InARow s.2 := SdPlane.oneAtATime_iff h.self

/-- **Each receive queue has one lcore at a time**, throughout a run of the rib manager and whatever
    the lcores do meanwhile, exactly when the queues are handed over. -/
theorem queues_one_at_a_time_iff (urcu : GracePeriod (Option Nat)) (lcores : UInt16)
    (events : List RibEvent) :
    Lib.Throughout (ReplacingStep lcores) (.init, []) (fun s => OneAtATime urcu s.2) events
      ↔ Lib.Stepwise (ReplacingStep lcores) (.init, []) HandsOver events := by
  have hpres : ∀ (s : Replacing) (event : RibEvent) (t : Replacing), Tracked lcores s →
      ReplacingStep lcores s event t → Tracked lcores t := fun _ _ _ hs hstep => (hs.step hstep).1
  have hinit : OneAtATime urcu (RibState.init, ([] : List (Option Rib))).2 :=
    (tracked_init lcores).oneAtATime_iff.mpr List.isChain_nil
  refine Lib.throughout_iff (Tracked lcores) (tracked_init lcores) hpres hinit ?_
  intro s event t hs hone hstep
  obtain ⟨ht, hrow⟩ := hs.step hstep
  rw [ht.oneAtATime_iff]
  exact hrow (hs.oneAtATime_iff.mp hone)

end SdPlane
