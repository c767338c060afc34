import SdPlane.StopFlags

/-!
# Queue configuration (`INTERNAL_MSG_TYPE_QCONF`)

The message holds the queues of every lcore: `set thread` changes its own table, and sends all of
it. The handler passes over the lcores that have no queue in the message. An lcore that has just
lost its last queue to another one is such a lcore: in the new version it has kept the queue, which
now belongs to two lcores, and `rib_check` refuses the version.

`qconf_takesEffect_iff` says when a message has the effect that it asks for: when no lcore is left
with queues that the message does not give it, or when the queues are refused with and without
what is left.
-/

set_option autoImplicit false

namespace SdPlane

/-! ## What is asked for -/

/-- The version that the message describes, with nothing configured before. -/
def RibConf.ofQconf (env : Env) (qconf : Nat → LcoreQconf) : RibConf :=
  { RibConf.zero with
    lcoreSize := env.lcoreCount.toUInt8
    lcoreQconf := fun l => if l < env.lcoreCount.toNat then qconf l else ⟨0, fun _ => ⟨0, 0⟩⟩ }

def RibConf.Passes (env : Env) (c : RibConf) (rings : Rings) : Prop :=
  ∃ r, ribCheck env c rings = .ok (some r)

/-- `rib_check` passes the version that the handler has made. -/
def QconfAccepted (env : Env) (s : RibState) (qconf : Nat → LcoreQconf) : Prop :=
  ∃ c, s.conf.next.qconf env qconf = .ok c ∧ c.Passes env s.rings

def LcoreQconf.Same (a b : LcoreQconf) : Prop :=
  a.nrxq = b.nrxq ∧ ∀ j < b.nrxq.toNat, a.rxQueueList j = b.rxQueueList j

/-- A message that is accepted is in force for every lcore, whether it is accepted is a matter of
    the message alone, and one that is refused changes nothing. -/
structure TakesEffect (env : Env) (s : RibState) (qconf : Nat → LcoreQconf) (t : RibState) :
    Prop where
  inForce : QconfAccepted env s qconf → t.published.isSome
    ∧ ∀ l < t.conf.lcoreSize.toNat, (t.conf.lcoreQconf l).Same (qconf l)
  alone : QconfAccepted env s qconf ↔ (RibConf.ofQconf env qconf).Passes env s.rings
  refused : ¬ QconfAccepted env s qconf → t.rib = s.rib

/-! ## When it comes about -/

/-- No lcore that the message passes over has a queue. -/
def NothingLeft (env : Env) (s : RibState) (qconf : Nat → LcoreQconf) : Prop :=
  ∀ l < env.lcoreCount.toNat, (qconf l).nrxq = 0 → (s.conf.lcoreQconf l).nrxq = 0

/-- The queues of the message, and those that are left. -/
def withLeft (old qconf : Nat → LcoreQconf) : Nat → LcoreQconf :=
  fun l => if (qconf l).nrxq = 0 then old l else qconf l

/-- Queues that `rib_check` can be content with. -/
def Acceptable (queues : List PortQueueConf) : Prop :=
  (∀ x ∈ queues, x.InRange) ∧ Numbered queues

theorem LcoreQconf.entries_eq_iff {a b : LcoreQconf} :
    Lib.entries a.rxQueueList a.nrxq.toNat = Lib.entries b.rxQueueList b.nrxq.toNat
      ↔ a.Same b := by
  constructor
  · intro h
    have hlength : a.nrxq.toNat = b.nrxq.toNat := by simpa using congrArg List.length h
    refine ⟨UInt16.toNat_inj.mp hlength, fun j hj => ?_⟩
    have hj' := congrArg (fun l : List PortQueueConf => l[j]?) h
    simpa [Lib.entries, hj, hlength] using hj'
  · rintro ⟨hsize, hlist⟩
    rw [hsize]
    exact Lib.entries_congr hlist

theorem length_queuesIn (qconf : Nat → LcoreQconf) (n : Nat) :
    (queuesIn qconf n).length = ((List.range n).map fun l => (qconf l).nrxq.toNat).sum := by
  simp [queuesIn, List.length_flatMap]

theorem length_queuesIn_le {qconf qconf' : Nat → LcoreQconf} {n : Nat}
    (h : ∀ l < n, (qconf l).nrxq.toNat ≤ (qconf' l).nrxq.toNat) :
    (queuesIn qconf n).length ≤ (queuesIn qconf' n).length := by
  rw [length_queuesIn, length_queuesIn]
  exact List.sum_le_sum fun l hl => h l (List.mem_range.mp hl)

/-! ## The version that the handler makes -/

/-- The handler's version `c`. -/
structure Made (env : Env) (s : RibState) (qconf : Nat → LcoreQconf) (c : RibConf) : Prop where
  lcores : env.lcoreCount.toNat ≤ RTE_MAX_LCORE
  room : ∀ l < env.lcoreCount.toNat, (qconf l).nrxq.toNat ≤ MAX_RX_QUEUE_PER_LCORE
  size : c.lcoreSize.toNat = env.lcoreCount.toNat
  queues : ∀ l < env.lcoreCount.toNat,
    (c.lcoreQconf l).Same (withLeft s.conf.lcoreQconf qconf l)
  others : ∀ l, env.lcoreCount.toNat ≤ l → c.lcoreQconf l = s.conf.lcoreQconf l
  vswitchSize : c.vswitchSize = s.conf.vswitchSize

theorem toUInt8_lcoreCount {n : UInt16} (h : n.toNat ≤ RTE_MAX_LCORE) :
    n.toUInt8.toNat = n.toNat := by
  rw [UInt16.toNat_toUInt8]
  exact Nat.mod_eq_of_lt (h.trans_lt (by decide))

theorem made_of_ok {env : Env} {s : RibState} {qconf : Nat → LcoreQconf} {c : RibConf}
    (h : s.conf.next.qconf env qconf = .ok c) : Made env s qconf c := by
  unfold RibConf.qconf at h
  dsimp only at h
  split at h
  · cases h
  · next hguard =>
    obtain ⟨hlcores, hroom⟩ := not_or.mp hguard
    obtain rfl := Except.ok.inj h
    have hlcores := Nat.le_of_not_lt hlcores
    refine ⟨hlcores, fun l hl => ?_, toUInt8_lcoreCount hlcores, fun l hl => ?_,
      fun l hl => if_neg fun hsome => absurd hsome.1 (Nat.not_lt.mpr hl), rfl⟩
    · by_contra hmore
      refine hroom (List.any_eq_true.mpr ⟨l, List.mem_range.mpr hl, decide_eq_true ?_⟩)
      exact Nat.lt_of_not_le hmore
    · dsimp only [withLeft]
      by_cases hnone : (qconf l).nrxq = 0
      · rw [if_neg fun hsome => hsome.2 hnone, if_pos hnone]
        exact ⟨rfl, fun j _ => rfl⟩
      · rw [if_pos ⟨hl, hnone⟩, if_neg hnone]
        exact ⟨rfl, fun j hj => if_pos hj⟩

/-- The handler faults on a message that is too large, and on no other. -/
theorem exists_qconf {env : Env} {qconf : Nat → LcoreQconf} (c : RibConf)
    (hlcores : env.lcoreCount.toNat ≤ RTE_MAX_LCORE)
    (hroom : ∀ l < env.lcoreCount.toNat, (qconf l).nrxq.toNat ≤ MAX_RX_QUEUE_PER_LCORE) :
    ∃ d, c.qconf env qconf = .ok d := by
  unfold RibConf.qconf
  dsimp only
  refine ⟨_, if_neg ?_⟩
  rintro (hmany | hlong)
  · exact Nat.not_lt.mpr hlcores hmany
  · obtain ⟨l, hl, hmore⟩ := List.any_eq_true.mp hlong
    exact Nat.not_lt.mpr (hroom l (List.mem_range.mp hl)) (of_decide_eq_true hmore)

namespace Made

variable {env : Env} {s : RibState} {qconf : Nat → LcoreQconf} {c : RibConf}

theorem queues_eq (h : Made env s qconf c) :
    c.queues = queuesIn (withLeft s.conf.lcoreQconf qconf) env.lcoreCount.toNat := by
  rw [RibConf.queues, h.size]
  exact queuesIn_congr fun l hl => LcoreQconf.entries_eq_iff.mpr (h.queues l hl)

/-- Every lcore has the queues of the message exactly when no others are left. -/
theorem same_iff (h : Made env s qconf c) :
    (∀ l < env.lcoreCount.toNat, (c.lcoreQconf l).Same (qconf l)) ↔ NothingLeft env s qconf := by
  refine forall₂_congr fun l hl => ?_
  obtain ⟨hsize, hlist⟩ := h.queues l hl
  by_cases hnone : (qconf l).nrxq = 0
  · rw [withLeft, if_pos hnone] at hsize
    rw [LcoreQconf.Same, hsize, hnone]
    exact ⟨fun hsame _ => hsame.1, fun hold => ⟨hold rfl, fun j hj => nomatch hj⟩⟩
  · rw [withLeft, if_neg hnone] at hsize hlist
    exact iff_of_true ⟨hsize, hlist⟩ fun hzero => absurd hzero hnone

/-- With nothing left, the version has the queues of the message. -/
theorem queues_of_nothingLeft (h : Made env s qconf c) (hleft : NothingLeft env s qconf) :
    c.queues = queuesIn qconf env.lcoreCount.toNat := by
  rw [RibConf.queues, h.size]
  exact queuesIn_congr fun l hl => LcoreQconf.entries_eq_iff.mpr (h.same_iff.mpr hleft l hl)

/-- Where the check does not fault, it decides by the queues. -/
theorem passes_iff (h : Made env s qconf c) {result : Option (RibConf × Rings)}
    (hcheck : ribCheck env c s.rings = .ok result) :
    c.Passes env s.rings ↔ Acceptable c.queues := by
  have hlcores : c.lcoreSize.toNat ≤ RTE_MAX_LCORE := h.size ▸ h.lcores
  cases result with
  | some r =>
    obtain ⟨hnumbered, -, hids, -⟩ := ribCheck_some hcheck
    exact iff_of_true ⟨r, hcheck⟩ ⟨fun x hx => hids x (queuesIn_mono hlcores hx), hnumbered⟩
  | none =>
    refine iff_of_false ?_ fun hacc => ribCheck_none hcheck ⟨fun x hx => (hacc.1 x hx).1, hacc.2⟩
    rintro ⟨r, hr⟩
    cases hr.symm.trans hcheck

/-- The same of the message on its own, which cannot have more queues. -/
theorem alone_passes_iff (h : Made env s qconf c) {result : Option (RibConf × Rings)}
    (hcheck : ribCheck env c s.rings = .ok result) :
    (RibConf.ofQconf env qconf).Passes env s.rings
      ↔ Acceptable (queuesIn qconf env.lcoreCount.toNat) := by
  have hsize : (RibConf.ofQconf env qconf).lcoreSize.toNat = env.lcoreCount.toNat :=
    toUInt8_lcoreCount h.lcores
  have hlists : ∀ l < env.lcoreCount.toNat, (RibConf.ofQconf env qconf).lcoreQconf l = qconf l :=
    fun l hl => if_pos hl
  have hqueues : (RibConf.ofQconf env qconf).queues = queuesIn qconf env.lcoreCount.toNat := by
    rw [RibConf.queues, hsize]
    exact queuesIn_congr fun l hl => by rw [hlists l hl]
  have hall : ∀ x, x ∈ queuesIn (RibConf.ofQconf env qconf).lcoreQconf RTE_MAX_LCORE →
      x ∈ queuesIn qconf env.lcoreCount.toNat := by
    intro x hx
    obtain ⟨l, -, j, hj, hx⟩ := mem_queuesIn.mp hx
    by_cases hl : l < env.lcoreCount.toNat
    · rw [hlists l hl] at hj hx
      exact mem_queuesIn.mpr ⟨l, hl, j, hj, hx⟩
    · have hempty : (RibConf.ofQconf env qconf).lcoreQconf l = ⟨0, fun _ => ⟨0, 0⟩⟩ := if_neg hl
      rw [hempty] at hj
      exact absurd hj (Nat.not_lt_zero j)
  constructor
  · rintro ⟨r, hr⟩
    obtain ⟨hnumbered, -, hids, -⟩ := ribCheck_some hr
    rw [hqueues] at hnumbered
    refine ⟨fun x hx => hids x ?_, hnumbered⟩
    rw [← hqueues, RibConf.queues] at hx
    exact queuesIn_mono (hsize ▸ h.lcores) hx
  · rintro ⟨hids, hnumbered⟩
    have htotal : (RibConf.ofQconf env qconf).queues.length ≤ MAX_PORT_QCONF := by
      refine le_trans ?_ (ribCheck_ok hcheck).2.2
      rw [hqueues, h.queues_eq]
      apply length_queuesIn_le
      intro l hl
      unfold withLeft
      split
      · next hnone =>
        rw [hnone]
        exact Nat.zero_le _
      · exact le_refl _
    have hcheckable : Checkable (RibConf.ofQconf env qconf) := by
      refine ⟨hsize ▸ h.lcores, fun l hl => ?_, htotal, fun x hx => hids x (hall x hx),
        Nat.zero_le _⟩
      by_cases hl' : l < env.lcoreCount.toNat
      · rw [hlists l hl']
        exact h.room l hl'
      · have hempty : (RibConf.ofQconf env qconf).lcoreQconf l = ⟨0, fun _ => ⟨0, 0⟩⟩ := if_neg hl'
        rw [hempty]
        exact Nat.zero_le _
    exact (ribCheck_of_checkable hcheckable env s.rings).1 (hqueues ▸ hnumbered)

end Made

/-! ## The message -/

/-- Making rings does not touch the queues. -/
theorem ribCheck_keepsQueues {env : Env} {c d : RibConf} {rings rings' : Rings}
    (h : ribCheck env c rings = .ok (some (d, rings'))) :
    d.lcoreQconf = c.lcoreQconf ∧ d.lcoreSize = c.lcoreSize := by
  obtain ⟨_, _, _, _, _, rfl⟩ := OnlyWiring.ribCheck h
  exact ⟨rfl, rfl⟩

/-- A `QCONF` that is processed was passed, and is published, or it was refused. -/
theorem qconf_of_ok {env : Env} {s t : RibState} {qconf : Nat → LcoreQconf}
    (hs : Unstopped s.conf)
    (h : ribManagerProcessMessage env s (.conf (.qconf qconf)) = .ok t) :
    ∃ c, s.conf.next.qconf env qconf = .ok c
      ∧ ((∃ r, ribCheck env c s.rings = .ok (some r)) ∧ t.published.isSome
          ∧ t.conf.lcoreQconf = c.lcoreQconf ∧ t.conf.lcoreSize = c.lcoreSize
        ∨ ribCheck env c s.rings = .ok none ∧ t.rib = s.rib) := by
  obtain ⟨info, hinfo, h⟩ := bind_ok h
  obtain ⟨result, hresult, h⟩ := bind_ok h
  rw [ribCreate_conf (deref_ok hinfo)] at hresult
  obtain ⟨c, hc, hresult⟩ := bind_ok hresult
  obtain ⟨_, -, hcheck⟩ := bind_ok hresult
  refine ⟨c, hc, ?_⟩
  cases result with
  | none =>
    obtain ⟨rib, hrib, h⟩ := bind_ok h
    obtain rfl := Except.ok.inj h
    exact .inr ⟨hcheck, stopPorts_of_unstopped hs hrib⟩
  | some r =>
    obtain ⟨d, rings⟩ := r
    obtain rfl := Except.ok.inj h
    exact .inl ⟨⟨_, hcheck⟩, rfl, ribCheck_keepsQueues hcheck⟩

/-- What a message does from a version without stop flags. -/
theorem takesEffect_iff {env : Env} {s t : RibState} {qconf : Nat → LcoreQconf}
    (hs : Unstopped s.conf)
    (h : ribManagerProcessMessage env s (.conf (.qconf qconf)) = .ok t) :
    TakesEffect env s qconf t ↔ NothingLeft env s qconf
      ∨ ¬ Acceptable (queuesIn qconf env.lcoreCount.toNat)
        ∧ ¬ Acceptable (queuesIn (withLeft s.conf.lcoreQconf qconf) env.lcoreCount.toNat) := by
  obtain ⟨c, hc, hcases⟩ := qconf_of_ok hs h
  have hmade := made_of_ok hc
  have haccepted : QconfAccepted env s qconf ↔ c.Passes env s.rings := by
    constructor
    · rintro ⟨c', hc', hpasses⟩
      obtain rfl := Except.ok.inj (hc.symm.trans hc')
      exact hpasses
    · exact fun hpasses => ⟨c, hc, hpasses⟩
  rw [← hmade.queues_eq]
  rcases hcases with ⟨⟨r, hcheck⟩, hpub, hqconf, hsize⟩ | ⟨hcheck, hrib⟩
  · -- passed
    have hpasses : c.Passes env s.rings := ⟨r, hcheck⟩
    have hacc := (hmade.passes_iff hcheck).mp hpasses
    have hinForce : (∀ l < t.conf.lcoreSize.toNat, (t.conf.lcoreQconf l).Same (qconf l))
        ↔ NothingLeft env s qconf := by
      rw [hqconf, hsize, hmade.size]
      exact hmade.same_iff
    constructor
    · intro heffect
      exact .inl (hinForce.mp (heffect.inForce (haccepted.mpr hpasses)).2)
    · rintro (hleft | ⟨-, hnot⟩)
      · refine ⟨fun _ => ⟨hpub, hinForce.mpr hleft⟩, iff_of_true (haccepted.mpr hpasses) ?_,
          fun hnot => absurd (haccepted.mpr hpasses) hnot⟩
        rw [hmade.queues_of_nothingLeft hleft] at hacc
        exact (hmade.alone_passes_iff hcheck).mpr hacc
      · exact absurd hacc hnot
  · -- refused
    have hnot : ¬ c.Passes env s.rings := by
      rintro ⟨r, hr⟩
      cases hr.symm.trans hcheck
    have hrefused : ¬ QconfAccepted env s qconf := fun hacc => hnot (haccepted.mp hacc)
    have hunacceptable := mt (hmade.passes_iff hcheck).mpr hnot
    constructor
    · intro heffect
      refine .inr ⟨fun hacc => hrefused ?_, hunacceptable⟩
      exact heffect.alone.mpr ((hmade.alone_passes_iff hcheck).mpr hacc)
    · intro hcond
      have halone : ¬ Acceptable (queuesIn qconf env.lcoreCount.toNat) := by
        rcases hcond with hleft | ⟨halone, -⟩
        · rw [← hmade.queues_of_nothingLeft hleft]
          exact hunacceptable
        · exact halone
      refine ⟨fun hacc => absurd hacc hrefused, iff_of_false hrefused ?_, fun _ => hrib⟩
      exact mt (hmade.alone_passes_iff hcheck).mp halone

/-- **In every reachable state, a `QCONF` has the effect that it asks for exactly when it leaves
    no lcore with other queues, or asks for what cannot be had anyway.** -/
theorem qconf_takesEffect_iff {events : List (Env × Msg)} {env : Env} {s t : RibState}
    {qconf : Nat → LcoreQconf} (hrun : Lib.Run Step .init events s)
    (h : ribManagerProcessMessage env s (.conf (.qconf qconf)) = .ok t) :
    TakesEffect env s qconf t ↔ NothingLeft env s qconf
      ∨ ¬ Acceptable (queuesIn qconf env.lcoreCount.toNat)
        ∧ ¬ Acceptable (queuesIn (withLeft s.conf.lcoreQconf qconf) env.lcoreCount.toNat) :=
  takesEffect_iff (unstopped_of_run hrun) h

/-! ## A queue that moves -/

/-- A message whose version fits is processed. -/
theorem qconf_ok {env : Env} (hallocs : env.AllocsOk) {s : RibState} {qconf : Nat → LcoreQconf}
    {c : RibConf} (hstop : env.nbPorts = 0 ∨ s.published.isSome ∧ env.nbPorts.toNat ≤ MAX_ETH_PORTS)
    (hc : s.conf.next.qconf env qconf = .ok c) (hcheckable : Checkable c) :
    ∃ t, ribManagerProcessMessage env s (.conf (.qconf qconf)) = .ok t := by
  obtain ⟨info, hinfo⟩ := ribCreate_allocs hallocs 0 s.rib
  obtain ⟨_, hset⟩ := (@stopPorts_ok_iff env true s.rib).mpr hstop
  obtain ⟨_, hcleared⟩ := (@stopPorts_ok_iff env false s.rib).mpr hstop
  have hcheck := ribCheck_of_checkable hcheckable env s.rings
  simp only [ribManagerProcessMessage, confMessage, ribCheckStopped, hinfo, deref, bind, Except.bind,
    ribCreate_conf hinfo, hc, hset]
  by_cases hnumbered : Numbered c.queues
  · obtain ⟨r, hr⟩ := hcheck.1 hnumbered
    rw [hr]
    exact ⟨_, rfl⟩
  · rw [hcheck.2 hnumbered]
    dsimp only
    rw [hcleared]
    exact ⟨_, rfl⟩

/-- Two lcores and one port. -/
def Env.twoLcores : Env := { Env.plain with lcoreCount := 2 }

theorem Env.twoLcores_allocs : Env.twoLcores.AllocsOk := ⟨rfl, rfl, rfl, rfl, rfl, rfl, rfl⟩

/-- The queue of the port belongs to this lcore. -/
def queueOn (lcore : Nat) : Nat → LcoreQconf :=
  fun l => ⟨if l = lcore then 1 else 0, fun _ => ⟨0, 0⟩⟩

/-- No lcore has another queue than the one of the port. -/
def OneQueue (c : RibConf) : Prop :=
  c.vswitchSize = 0 ∧ ∀ l, (c.lcoreQconf l).nrxq.toNat ≤ 1
    ∧ ∀ j < (c.lcoreQconf l).nrxq.toNat, (c.lcoreQconf l).rxQueueList j = ⟨0, 0⟩

theorem OneQueue.checkable {c : RibConf} (h : OneQueue c) (hsize : c.lcoreSize.toNat ≤ 2) : Checkable c := by
  refine ⟨hsize.trans (by decide), fun l _ => (h.2 l).1.trans (by decide), ?_, fun x hx => ?_, ?_⟩
  · rw [length_queuesIn]
    have hsum := List.sum_le_card_nsmul ((List.range c.lcoreSize.toNat).map fun l =>
      (c.lcoreQconf l).nrxq.toNat) 1 (by
        intro n hn
        obtain ⟨l, -, rfl⟩ := List.mem_map.mp hn
        exact (h.2 l).1)
    simp only [List.length_map, List.length_range, smul_eq_mul, mul_one] at hsum
    exact hsum.trans (hsize.trans (by decide))
  · obtain ⟨l, -, j, hj, rfl⟩ := mem_queuesIn.mp hx
    rw [(h.2 l).2 j hj]
    exact ⟨by decide, by decide⟩
  · rw [h.1]
    exact Nat.zero_le _

theorem made_oneQueue {s : RibState} {lcore : Nat} {c : RibConf} (hs : OneQueue s.conf)
    (h : Made .twoLcores s (queueOn lcore) c) : OneQueue c ∧ c.lcoreSize.toNat = 2 := by
  refine ⟨⟨h.vswitchSize.trans hs.1, fun l => ?_⟩, h.size⟩
  by_cases hl : l < Env.twoLcores.lcoreCount.toNat
  · obtain ⟨hsize, hlist⟩ := h.queues l hl
    by_cases hnone : (queueOn lcore l).nrxq = 0
    · simp only [withLeft, if_pos hnone] at hsize hlist
      rw [hsize]
      exact ⟨(hs.2 l).1, fun j hj => (hlist j hj).trans ((hs.2 l).2 j hj)⟩
    · simp only [withLeft, if_neg hnone] at hsize hlist
      rw [hsize]
      refine ⟨?_, fun j hj => hlist j hj⟩
      unfold queueOn
      dsimp only
      split <;> decide
  · rw [h.others l (Nat.le_of_not_lt hl)]
    exact hs.2 l

theorem numbered_one : Numbered [⟨0, 0⟩] := by
  intro port
  unfold queueIds
  by_cases hport : port = 0
  · subst hport
    exact List.Perm.refl _
  · have hnot : ((0 : UInt16) = port) = False := eq_false fun h => hport h.symm
    simp [hnot]

theorem acceptable_one : Acceptable [⟨0, 0⟩] :=
  ⟨fun x hx => List.mem_singleton.mp hx ▸ ⟨by decide, by decide⟩, numbered_one⟩

/-- The message is processed wherever there is a published version with one queue at most. -/
theorem queueOn_ok {s : RibState} {lcore : Nat} {c : RibConf} (hs : OneQueue s.conf)
    (hpub : s.published.isSome) (hc : s.conf.next.qconf .twoLcores (queueOn lcore) = .ok c) :
    ∃ t, ribManagerProcessMessage .twoLcores s (.conf (.qconf (queueOn lcore))) = .ok t := by
  obtain ⟨hone, hsize⟩ := made_oneQueue hs (made_of_ok hc)
  exact qconf_ok Env.twoLcores_allocs (.inr ⟨hpub, by decide⟩) hc (hone.checkable hsize.le)

/-- Lcores and port are known, and the first lcore has got the queue. -/
theorem queue_on_first : ∃ events s, Lib.Run Step .init events s ∧ s.published.isSome
    ∧ OneQueue s.conf ∧ (s.conf.lcoreQconf 0).nrxq = 1 := by
  have hstatus : ∃ t, ribManagerProcessMessage .twoLcores .init (.conf .portStatus) = .ok t
      ∧ t.published.isSome ∧ t.conf.vswitchSize = 0 ∧ t.conf.lcoreQconf = RibConf.zero.lcoreQconf :=
    ⟨_, rfl, rfl, rfl, rfl⟩
  obtain ⟨s, hs, hpub, hsize, hqconf⟩ := hstatus
  have hnone : OneQueue s.conf := by
    refine ⟨hsize, fun l => ?_⟩
    rw [hqconf]
    exact ⟨Nat.zero_le _, fun j _ => rfl⟩
  obtain ⟨c, hc⟩ := @exists_qconf .twoLcores (queueOn 0) s.conf.next (by decide) (by decide)
  obtain ⟨t, ht⟩ := queueOn_ok hnone hpub hc
  have hrun : Lib.Run Step .init [(.twoLcores, .conf .portStatus)] s := Lib.Run.nil.snoc hs
  obtain ⟨c', hc', hcases⟩ := qconf_of_ok (unstopped_of_run hrun) ht
  obtain rfl := Except.ok.inj (hc.symm.trans hc')
  have hmade := made_of_ok hc
  obtain ⟨hone, hcount⟩ := made_oneQueue hnone hmade
  have hqueues : c.queues = [⟨0, 0⟩] := by
    apply hmade.queues_of_nothingLeft
    intro l _ _
    rw [hqconf]
    rfl
  rcases hcases with ⟨-, hpub', hqconf', -⟩ | ⟨hcheck, -⟩
  · have hwiring : WiringStep s.conf.next (.qconf (queueOn 0)) t.conf :=
      wiringStep_of_ok (@wired_confStep .init s (.twoLcores, .portStatus) Wired.zero hs) ht
    cases hwiring with
    | other _ hkeeps =>
      have hlast : Step s (.twoLcores, .conf (.qconf (queueOn 0))) t := ht
      refine ⟨_, t, hrun.snoc hlast, hpub', ⟨hkeeps.vswitchSize.trans hsize, ?_⟩, ?_⟩
      · rw [hqconf']
        exact hone.2
      · rw [hqconf']
        exact (hmade.queues 0 (by decide)).1
  · -- one queue is numbered
    refine absurd ?_ (ribCheck_none hcheck)
    rw [hqueues]
    exact ⟨fun x hx => (acceptable_one.1 x hx).1, acceptable_one.2⟩

/-- Moving the queue to the other lcore is refused, and so has no effect. -/
theorem moved_queue : ∃ events s t, Lib.Run Step .init events s
    ∧ ribManagerProcessMessage .twoLcores s (.conf (.qconf (queueOn 1))) = .ok t
    ∧ ¬ TakesEffect .twoLcores s (queueOn 1) t := by
  obtain ⟨events, s, hrun, hpub, hone, hfirst⟩ := queue_on_first
  obtain ⟨c, hc⟩ := @exists_qconf .twoLcores (queueOn 1) s.conf.next (by decide) (by decide)
  obtain ⟨t, ht⟩ := queueOn_ok hone hpub hc
  refine ⟨events, s, t, hrun, ht, ?_⟩
  rw [takesEffect_iff (unstopped_of_run hrun) ht]
  rintro (hleft | ⟨halone, -⟩)
  · have hzero := hleft 0 (by decide) rfl
    rw [hfirst] at hzero
    cases hzero
  · exact halone acceptable_one

theorem qconf_not_in_force :
    ¬ ∀ (events : List (Env × Msg)) (env : Env) (s t : RibState) (qconf : Nat → LcoreQconf),
      Lib.Run Step .init events s →
      ribManagerProcessMessage env s (.conf (.qconf qconf)) = .ok t →
      TakesEffect env s qconf t := by
  intro h
  obtain ⟨events, s, t, hrun, ht, hnot⟩ := moved_queue
  exact hnot (h events .twoLcores s t _ hrun ht)

/-- The same, by the general theorem. -/
theorem qconf_takesEffect_iff_moved : ∃ s t,
    ribManagerProcessMessage .twoLcores s (.conf (.qconf (queueOn 1))) = .ok t
    ∧ (TakesEffect .twoLcores s (queueOn 1) t ↔ NothingLeft .twoLcores s (queueOn 1)
      ∨ ¬ Acceptable (queuesIn (queueOn 1) 2)
        ∧ ¬ Acceptable (queuesIn (withLeft s.conf.lcoreQconf (queueOn 1)) 2)) := by
  obtain ⟨events, s, t, hrun, ht, -⟩ := moved_queue
  exact ⟨s, t, ht, qconf_takesEffect_iff hrun ht⟩

end SdPlane
