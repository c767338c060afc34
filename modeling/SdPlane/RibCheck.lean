import SdPlane.RibConfSpec
import SdPlane.Lib.Entries

/-!
# What `rib_check` decides

`rib_check` collects the receive queues of the lcores, sorts them by port and queue, and counts
up through them. What it decides by that has nothing to do with order: the queues of each port
have to be numbered from `0`, each number once (`Numbered`).

The numbers of ports and queues index arrays, and so does the number of queues; `Checkable` is what
the function relies on. A version that fits never faults, and is passed exactly when its queues
are numbered (`ribCheck_of_checkable`). What is known of a version that has been passed, or refused,
is `ribCheck_some` and `ribCheck_none`.
-/

set_option autoImplicit false

namespace SdPlane

/-- The receive queues of the first `n` lcores. -/
def queuesIn (qconf : Nat → LcoreQconf) (n : Nat) : List PortQueueConf :=
  (List.range n).flatMap fun l => Lib.entries (qconf l).rxQueueList (qconf l).nrxq.toNat

/-- The numbers of the queues of a port. -/
def queueIds (port : UInt16) (queues : List PortQueueConf) : List Nat :=
  (queues.filter fun x => decide (x.portId = port)).map fun x => x.queueId.toNat

/-- The queues of each port are numbered from `0`, each number once. -/
def Numbered (queues : List PortQueueConf) : Prop :=
  ∀ port, (queueIds port queues).Perm (List.range (queueIds port queues).length)

/-- What indexes an array is inside of it. -/
def PortQueueConf.InRange (x : PortQueueConf) : Prop :=
  x.portId.toNat < RTE_MAX_ETHPORTS ∧ x.queueId.toNat < MAX_RX_QUEUE_PER_LCORE

/-! ## Lists of queues -/

theorem mem_queuesIn {qconf : Nat → LcoreQconf} {n : Nat} {x : PortQueueConf} :
    x ∈ queuesIn qconf n
      ↔ ∃ l < n, ∃ j < (qconf l).nrxq.toNat, (qconf l).rxQueueList j = x := by
  simp [queuesIn, Lib.mem_entries]

theorem queuesIn_mono {qconf : Nat → LcoreQconf} {m n : Nat} (h : m ≤ n) {x : PortQueueConf}
    (hx : x ∈ queuesIn qconf m) : x ∈ queuesIn qconf n := by
  obtain ⟨l, hl, hqueue⟩ := mem_queuesIn.mp hx
  exact mem_queuesIn.mpr ⟨l, hl.trans_le h, hqueue⟩

theorem queuesIn_congr {qconf qconf' : Nat → LcoreQconf} {n : Nat}
    (h : ∀ l < n, Lib.entries (qconf l).rxQueueList (qconf l).nrxq.toNat
      = Lib.entries (qconf' l).rxQueueList (qconf' l).nrxq.toNat) :
    queuesIn qconf n = queuesIn qconf' n := by
  rw [queuesIn, queuesIn, List.flatMap_def, List.flatMap_def]
  congr 1
  apply List.map_congr_left
  intro l hl
  exact h l (List.mem_range.mp hl)

theorem queueIds_perm {queues queues' : List PortQueueConf} (h : queues.Perm queues')
    (port : UInt16) : (queueIds port queues).Perm (queueIds port queues') :=
  (h.filter _).map _

theorem queueIds_cons (port : UInt16) (x : PortQueueConf) (queues : List PortQueueConf) :
    queueIds port (x :: queues)
      = if x.portId = port then x.queueId.toNat :: queueIds port queues
        else queueIds port queues := by
  unfold queueIds
  rw [List.filter_cons]
  split
  · next h => rw [if_pos (of_decide_eq_true h), List.map_cons]
  · next h => rw [if_neg fun h' => h (decide_eq_true h')]

/-! ## Sorting -/

theorem portQconfLe_iff {a b : PortQueueConf} : portQconfLe a b = true
    ↔ a.portId.toNat < b.portId.toNat
      ∨ a.portId.toNat = b.portId.toNat ∧ a.queueId.toNat ≤ b.queueId.toNat := by
  simp [portQconfLe, UInt16.lt_iff_toNat_lt, UInt16.le_iff_toNat_le, UInt16.toNat_inj]

theorem portQconfLe_trans (a b c : PortQueueConf) (hab : portQconfLe a b = true)
    (hbc : portQconfLe b c = true) : portQconfLe a c = true := by
  rw [portQconfLe_iff] at hab hbc ⊢
  omega

theorem portQconfLe_total (a b : PortQueueConf) :
    (portQconfLe a b || portQconfLe b a) = true := by
  rw [Bool.or_eq_true, portQconfLe_iff, portQconfLe_iff]
  omega

/-- In the sorted list, so are the queues of each port. -/
theorem queueIds_sorted (queues : List PortQueueConf) (port : UInt16) :
    (queueIds port (queues.mergeSort portQconfLe)).Pairwise (· ≤ ·) := by
  have hsorted := List.pairwise_mergeSort portQconfLe_trans portQconfLe_total queues
  refine List.pairwise_map.mpr ((hsorted.filter _).imp_of_mem ?_)
  intro a b ha hb hle
  have hpa : a.portId = port := of_decide_eq_true (List.mem_filter.mp ha).2
  have hpb : b.portId = port := of_decide_eq_true (List.mem_filter.mp hb).2
  rcases portQconfLe_iff.mp hle with hlt | ⟨-, hqueue⟩
  · rw [hpa, hpb] at hlt
    exact absurd hlt (Nat.lt_irrefl _)
  · exact hqueue

/-! ## Counting -/

theorem queuesOrdered_nil (portNrxq : Nat → Nat) : queuesOrdered [] portNrxq = .ok true := rfl

/-- The loop goes on counting from what it has counted: it gets to the end when the queues of
    each port follow on from there. -/
theorem queuesOrdered_iff (queues : List PortQueueConf) (portNrxq : Nat → Nat) :
    queuesOrdered queues portNrxq = .ok true
      ↔ (∀ x ∈ queues, x.portId.toNat < RTE_MAX_ETHPORTS)
        ∧ ∀ port : UInt16, queueIds port queues
          = List.range' (portNrxq port.toNat) (queueIds port queues).length := by
  induction queues generalizing portNrxq with
  | nil => exact iff_of_true rfl ⟨fun x hx => (by cases hx), fun port => rfl⟩
  | cons x rest ih =>
    by_cases hport : x.portId.toNat < RTE_MAX_ETHPORTS
    · by_cases hqueue : portNrxq x.portId.toNat = x.queueId.toNat
      · have hnext : queuesOrdered (x :: rest) portNrxq = queuesOrdered rest
            (Function.update portNrxq x.portId.toNat (portNrxq x.portId.toNat + 1)) := by
          simp [queuesOrdered, inBounds, hport, hqueue, bind, Except.bind]
        rw [hnext, ih]
        refine and_congr ?_ (forall_congr' fun port => ?_)
        · simp [hport]
        · rw [queueIds_cons]
          by_cases heq : x.portId = port
          · subst heq
            simp [List.range'_succ, hqueue]
          · have hne : port.toNat ≠ x.portId.toNat :=
              fun h => heq (UInt16.toNat_inj.mp h.symm)
            rw [if_neg heq, Function.update_of_ne hne]
      · have hstop : queuesOrdered (x :: rest) portNrxq = .ok false := by
          simp [queuesOrdered, inBounds, hport, hqueue, bind, Except.bind]
        rw [hstop]
        refine iff_of_false (by simp) ?_
        rintro ⟨-, hids⟩
        have hfirst := hids x.portId
        rw [queueIds_cons, if_pos rfl, List.length_cons, List.range'_succ] at hfirst
        exact hqueue (List.cons.inj hfirst).1.symm
    · have hfault : queuesOrdered (x :: rest) portNrxq = .error .outOfBounds := by
        simp [queuesOrdered, inBounds, hport, bind, Except.bind]
      rw [hfault]
      exact iff_of_false (by simp) fun h => hport (h.1 x List.mem_cons_self)

/-- The loop faults on the number of a port and on nothing else. -/
theorem queuesOrdered_ok {queues : List PortQueueConf}
    (h : ∀ x ∈ queues, x.portId.toNat < RTE_MAX_ETHPORTS) (portNrxq : Nat → Nat) :
    ∃ b, queuesOrdered queues portNrxq = .ok b := by
  induction queues generalizing portNrxq with
  | nil => exact ⟨true, rfl⟩
  | cons x rest ih =>
    have hport := h x List.mem_cons_self
    simp only [queuesOrdered, inBounds, hport, if_true, bind, Except.bind]
    split
    · exact ih (fun y hy => h y (List.mem_cons_of_mem x hy)) _
    · exact ⟨false, rfl⟩

/-- **The queues pass when those of each port are numbered.** -/
theorem ordered_iff_numbered (queues : List PortQueueConf) :
    queuesOrdered (queues.mergeSort portQconfLe) (fun _ => 0) = .ok true
      ↔ (∀ x ∈ queues, x.portId.toNat < RTE_MAX_ETHPORTS) ∧ Numbered queues := by
  have hperm := List.mergeSort_perm queues portQconfLe
  rw [queuesOrdered_iff]
  refine and_congr (forall_congr' fun x => by rw [hperm.mem_iff]) (forall_congr' fun port => ?_)
  have hids := queueIds_perm hperm port
  rw [hids.length_eq, ← List.range_eq_range']
  constructor
  · intro heq
    rw [← heq]
    exact hids.symm
  · intro hnumbered
    exact (hids.trans hnumbered).eq_of_pairwise (fun a b _ _ => Nat.le_antisymm)
      (queueIds_sorted queues port) List.pairwise_le_range

/-- What the queues come to is settled when a port is found whose queues are not in order. -/
theorem queuesOrdered_append {queues : List PortQueueConf} {portNrxq : Nat → Nat}
    (h : queuesOrdered queues portNrxq = .ok false) (rest : List PortQueueConf) :
    queuesOrdered (queues ++ rest) portNrxq = .ok false := by
  induction queues generalizing portNrxq with
  | nil => cases h
  | cons x queues ih =>
    rw [List.cons_append]
    unfold queuesOrdered at h ⊢
    obtain ⟨_, hport, h⟩ := bind_ok h
    rw [hport]
    dsimp only [bind, Except.bind]
    split at h
    · next hqueue =>
      rw [if_pos hqueue]
      exact ih h
    · next hqueue => rw [if_neg hqueue]

/-- The queues of a port that there can be are not numbered. -/
def OutOfOrder (queues : List PortQueueConf) : Prop :=
  ∃ port : UInt16, port.toNat < RTE_MAX_ETHPORTS
    ∧ ¬ (queueIds port queues).Perm (List.range (queueIds port queues).length)

/-- There can be such a port. -/
def PortQueueConf.possible (x : PortQueueConf) : Bool :=
  decide (x.portId.toNat < RTE_MAX_ETHPORTS)

/-- The sorted list has the ports that there can be in front. -/
theorem queueIds_takeWhile (queues : List PortQueueConf) {port : UInt16}
    (hport : port.toNat < RTE_MAX_ETHPORTS) :
    queueIds port ((queues.mergeSort portQconfLe).takeWhile PortQueueConf.possible)
      = queueIds port (queues.mergeSort portQconfLe) := by
  have hsorted := List.pairwise_mergeSort portQconfLe_trans portQconfLe_total queues
  generalize queues.mergeSort portQconfLe = sorted at hsorted
  induction hsorted with
  | nil => rfl
  | @cons x rest hle _ ih =>
    by_cases hx : x.possible = true
    · rw [List.takeWhile_cons_of_pos hx, queueIds_cons, queueIds_cons, ih]
    · -- no port after this one is smaller
      rw [List.takeWhile_cons_of_neg hx]
      have hlarge : ¬ x.portId.toNat < RTE_MAX_ETHPORTS := fun h => hx (decide_eq_true h)
      have hlater : ∀ y ∈ x :: rest, y.portId ≠ port := by
        intro y hy hyp
        rcases List.mem_cons.mp hy with rfl | hy
        · exact hlarge (hyp ▸ hport)
        · have hxy := portQconfLe_iff.mp (hle y hy)
          rw [hyp] at hxy
          omega
      have hnone : (x :: rest).filter (fun y => decide (y.portId = port)) = [] :=
        List.filter_eq_nil_iff.mpr fun y hy h => hlater y hy (of_decide_eq_true h)
      rw [queueIds, queueIds, hnone]
      rfl

/-- **Queues out of order are found to be so before an impossible port is looked at.** -/
theorem queuesOrdered_of_outOfOrder {queues : List PortQueueConf} (h : OutOfOrder queues) :
    queuesOrdered (queues.mergeSort portQconfLe) (fun _ => 0) = .ok false := by
  obtain ⟨port, hport, hnot⟩ := h
  obtain ⟨ordered, hordered⟩ := @queuesOrdered_ok
    ((queues.mergeSort portQconfLe).takeWhile PortQueueConf.possible)
    (fun x hx => by
      have hpossible : x.possible = true := List.mem_takeWhile_imp hx
      exact of_decide_eq_true hpossible) fun _ => 0
  rw [← @List.takeWhile_append_dropWhile _ PortQueueConf.possible (queues.mergeSort portQconfLe)]
  cases ordered with
  | false => exact queuesOrdered_append hordered _
  | true =>
    have hids := ((queuesOrdered_iff _ _).mp hordered).2 port
    have hperm := queueIds_perm (List.mergeSort_perm queues portQconfLe) port
    rw [queueIds_takeWhile queues hport, ← List.range_eq_range', hperm.length_eq] at hids
    refine absurd ?_ hnot
    rw [← hids]
    exact hperm.symm

theorem queuesOrdered_prefix {queues : List PortQueueConf} {portNrxq : Nat → Nat}
    (h : queuesOrdered queues portNrxq = .ok true) (rest : List PortQueueConf) :
    ∃ portNrxq', queuesOrdered (queues ++ rest) portNrxq = queuesOrdered rest portNrxq' := by
  induction queues generalizing portNrxq with
  | nil => exact ⟨portNrxq, rfl⟩
  | cons x queues ih =>
    unfold queuesOrdered at h
    obtain ⟨_, hport, h⟩ := bind_ok h
    rw [List.cons_append, queuesOrdered, hport]
    dsimp only [bind, Except.bind]
    split at h
    · next hqueue =>
      rw [if_pos hqueue]
      exact ih h
    · cases h

/-- **No others are.** -/
theorem outOfOrder_of_queuesOrdered {queues : List PortQueueConf}
    (h : queuesOrdered (queues.mergeSort portQconfLe) (fun _ => 0) = .ok false) :
    OutOfOrder queues := by
  by_contra hnot
  have hcounted : queuesOrdered
      ((queues.mergeSort portQconfLe).takeWhile PortQueueConf.possible) (fun _ => 0) = .ok true := by
    rw [queuesOrdered_iff]
    have hpossible : ∀ x ∈ (queues.mergeSort portQconfLe).takeWhile PortQueueConf.possible,
        x.portId.toNat < RTE_MAX_ETHPORTS := by
      intro x hx
      have hx : x.possible = true := List.mem_takeWhile_imp hx
      exact of_decide_eq_true hx
    refine ⟨hpossible, fun port => ?_⟩
    by_cases hport : port.toNat < RTE_MAX_ETHPORTS
    · have hids := queueIds_perm (List.mergeSort_perm queues portQconfLe) port
      have hnumbered : (queueIds port queues).Perm (List.range (queueIds port queues).length) := by
        by_contra hperm
        exact hnot ⟨port, hport, hperm⟩
      rw [queueIds_takeWhile queues hport, ← List.range_eq_range', hids.length_eq]
      exact (hids.trans hnumbered).eq_of_pairwise (fun a b _ _ => Nat.le_antisymm)
        (queueIds_sorted queues port) List.pairwise_le_range
    · have hnone : queueIds port
          ((queues.mergeSort portQconfLe).takeWhile PortQueueConf.possible) = [] := by
        rw [queueIds, List.map_eq_nil_iff, List.filter_eq_nil_iff]
        intro x hx heq
        exact hport (of_decide_eq_true heq ▸ hpossible x hx)
      rw [hnone]
      rfl
  obtain ⟨counted, hcont⟩ := queuesOrdered_prefix hcounted
    ((queues.mergeSort portQconfLe).dropWhile PortQueueConf.possible)
  rw [List.takeWhile_append_dropWhile, h] at hcont
  -- the next port is one that there cannot be
  cases hrest : (queues.mergeSort portQconfLe).dropWhile PortQueueConf.possible with
  | nil =>
    rw [hrest] at hcont
    cases hcont
  | cons x rest =>
    have hx : x.possible = false := by
      have hhead := List.head?_dropWhile_not PortQueueConf.possible (queues.mergeSort portQconfLe)
      rw [hrest] at hhead
      simpa using hhead
    have hport : ¬ x.portId.toNat < RTE_MAX_ETHPORTS := of_decide_eq_false hx
    rw [hrest] at hcont
    simp [queuesOrdered, inBounds, hport, bind, Except.bind] at hcont

/-! ## Collecting -/

theorem mapM_ok {α β : Type} {f : α → Except Fault β} {g : α → β} {l : List α}
    (h : ∀ a ∈ l, f a = .ok (g a)) : l.mapM f = .ok (l.map g) := by
  induction l with
  | nil => rfl
  | cons a l ih =>
    have hrest := ih fun b hb => h b (List.mem_cons_of_mem a hb)
    rw [List.mapM_cons, h a List.mem_cons_self, hrest]
    rfl

theorem of_mapM_ok {α β : Type} {f : α → Except Fault β} {l : List α} {bs : List β}
    (h : l.mapM f = .ok bs) : ∀ a ∈ l, ∃ b, f a = .ok b := by
  induction l generalizing bs with
  | nil => exact fun a ha => nomatch ha
  | cons a l ih =>
    rw [List.mapM_cons] at h
    obtain ⟨b, hb, h⟩ := bind_ok h
    obtain ⟨bs', hbs, -⟩ := bind_ok h
    intro x hx
    rcases List.mem_cons.mp hx with rfl | hx
    · exact ⟨b, hb⟩
    · exact ih hbs x hx

/-- No lcore has more queues than its list holds. -/
def QueueRoom (c : RibConf) (n : Nat) : Prop :=
  ∀ l < n, (c.lcoreQconf l).nrxq.toNat ≤ MAX_RX_QUEUE_PER_LCORE

theorem queuesOf_eq {c : RibConf} {n : Nat} (h : QueueRoom c n) :
    queuesOf c n = .ok (queuesIn c.lcoreQconf n) := by
  have hlists : (List.range n).mapM (fun lcore => rxQueues (c.lcoreQconf lcore))
      = .ok ((List.range n).map fun l =>
          Lib.entries (c.lcoreQconf l).rxQueueList (c.lcoreQconf l).nrxq.toNat) := by
    apply mapM_ok
    intro l hl
    rw [rxQueues, if_pos (h l (List.mem_range.mp hl))]
    rfl
  rw [queuesOf, hlists, queuesIn, List.flatMap_def]
  rfl

theorem queuesOf_ok {c : RibConf} {n : Nat} {queues : List PortQueueConf}
    (h : queuesOf c n = .ok queues) : QueueRoom c n ∧ queues = queuesIn c.lcoreQconf n := by
  have hroom : QueueRoom c n := by
    obtain ⟨lists, hlists, -⟩ := bind_ok h
    intro l hl
    obtain ⟨b, hb⟩ := of_mapM_ok hlists l (List.mem_range.mpr hl)
    rw [rxQueues] at hb
    split at hb
    · next hle => exact hle
    · cases hb
  rw [queuesOf_eq hroom] at h
  exact ⟨hroom, (Except.ok.inj h).symm⟩

/-! ## Rings for queues -/

/-- The rings of the interfaces are the same. -/
structure Rings.SameInterfaces (rings rings' : Rings) : Prop where
  routerUp : rings'.routerIfRingUp = rings.routerIfRingUp
  routerDn : rings'.routerIfRingDn = rings.routerIfRingDn
  captureUp : rings'.captureIfRingUp = rings.captureIfRingUp
  captureDn : rings'.captureIfRingDn = rings.captureIfRingDn

theorem createQueueRings_ok_iff (env : Env) (queues : List PortQueueConf) (rings : Rings) :
    (∃ rings', createQueueRings env queues rings = .ok rings')
      ↔ ∀ x ∈ queues, x.InRange := by
  induction queues generalizing rings with
  | nil => exact iff_of_true ⟨rings, rfl⟩ fun x hx => nomatch hx
  | cons x rest ih =>
    by_cases hport : x.portId.toNat < RTE_MAX_ETHPORTS
    · by_cases hqueue : x.queueId.toNat < MAX_RX_QUEUE_PER_LCORE
      · simp only [createQueueRings, inBounds, hport, hqueue, if_true, bind, Except.bind, ih,
          List.forall_mem_cons]
        exact (and_iff_right ⟨hport, hqueue⟩).symm
      · refine iff_of_false ?_ fun h => hqueue (h x List.mem_cons_self).2
        simp [createQueueRings, inBounds, hport, hqueue, bind, Except.bind]
    · refine iff_of_false ?_ fun h => hport (h x List.mem_cons_self).1
      simp [createQueueRings, inBounds, hport, bind, Except.bind]

theorem createQueueRings_interfaces {env : Env} {queues : List PortQueueConf}
    {rings rings' : Rings} (h : createQueueRings env queues rings = .ok rings') :
    rings.SameInterfaces rings' := by
  induction queues generalizing rings with
  | nil =>
    obtain rfl := Except.ok.inj h
    exact ⟨rfl, rfl, rfl, rfl⟩
  | cons x rest ih =>
    obtain ⟨_, -, h⟩ := bind_ok h
    obtain ⟨_, -, h⟩ := bind_ok h
    have hrest := ih h
    exact ⟨hrest.routerUp, hrest.routerDn, hrest.captureUp, hrest.captureDn⟩

/-! ## The check -/

/-- What `rib_check` relies on. -/
structure Checkable (c : RibConf) : Prop where
  lcores : c.lcoreSize.toNat ≤ RTE_MAX_LCORE
  room : QueueRoom c RTE_MAX_LCORE
  total : (queuesIn c.lcoreQconf c.lcoreSize.toNat).length ≤ MAX_PORT_QCONF
  ids : ∀ x ∈ queuesIn c.lcoreQconf RTE_MAX_LCORE, x.InRange
  vswitches : c.vswitchSize.toNat ≤ MAX_VSWITCH

/-- The queues that `rib_check` looks at. -/
def RibConf.queues (c : RibConf) : List PortQueueConf :=
  queuesIn c.lcoreQconf c.lcoreSize.toNat

/-- The rest of the check, once the queues have been collected. -/
theorem ribCheck_eq {c : RibConf} (hlcores : c.lcoreSize.toNat ≤ RTE_MAX_LCORE)
    (hroom : QueueRoom c c.lcoreSize.toNat) (htotal : c.queues.length ≤ MAX_PORT_QCONF)
    (env : Env) (rings : Rings) :
    ribCheck env c rings = (do
      let ordered ← queuesOrdered (c.queues.mergeSort portQconfLe) fun _ => 0
      if ordered then
        let all ← queuesOf c RTE_MAX_LCORE
        let rings ← createQueueRings env all rings
        inBounds (c.vswitchSize.toNat - 1) MAX_VSWITCH
        .ok (some (Lib.forUpTo c.vswitchSize.toNat (createIfRings env) (c, rings)))
      else .ok none) := by
  simp only [ribCheck, Nat.not_lt.mpr hlcores, if_false, queuesOf_eq hroom, bind, Except.bind]
  rw [show queuesIn c.lcoreQconf c.lcoreSize.toNat = c.queues from rfl,
    if_neg (Nat.not_lt.mpr htotal)]

/-- **A version that fits is passed or refused, by its queues.** -/
theorem ribCheck_of_checkable {c : RibConf} (h : Checkable c) (env : Env) (rings : Rings) :
    (Numbered c.queues → ∃ r, ribCheck env c rings = .ok (some r))
      ∧ (¬ Numbered c.queues → ribCheck env c rings = .ok none) := by
  have hports : ∀ x ∈ c.queues, x.portId.toNat < RTE_MAX_ETHPORTS :=
    fun x hx => (h.ids x (queuesIn_mono h.lcores hx)).1
  have hroom : QueueRoom c c.lcoreSize.toNat := fun l hl => h.room l (hl.trans_le h.lcores)
  rw [ribCheck_eq h.lcores hroom h.total]
  constructor
  · intro hnumbered
    rw [(ordered_iff_numbered c.queues).mpr ⟨hports, hnumbered⟩, queuesOf_eq h.room]
    obtain ⟨rings', hrings⟩ := (createQueueRings_ok_iff env _ rings).mpr h.ids
    have hsize : c.vswitchSize.toNat - 1 < MAX_VSWITCH :=
      (Nat.sub_le_sub_right h.vswitches 1).trans_lt (by decide)
    simp only [bind, Except.bind, if_true, hrings, inBounds, hsize]
    exact ⟨_, rfl⟩
  · intro hnot
    obtain ⟨ordered, hordered⟩ := queuesOrdered_ok
      (fun x hx => hports x ((List.mergeSort_perm c.queues portQconfLe).mem_iff.mp hx)) fun _ => 0
    cases ordered with
    | true => exact absurd ((ordered_iff_numbered c.queues).mp hordered).2 hnot
    | false =>
      rw [hordered]
      rfl

/-- It is refused, too, if it does not fit but is out of order. -/
theorem ribCheck_of_outOfOrder {c : RibConf} (hlcores : c.lcoreSize.toNat ≤ RTE_MAX_LCORE)
    (hroom : QueueRoom c c.lcoreSize.toNat) (htotal : c.queues.length ≤ MAX_PORT_QCONF)
    (h : OutOfOrder c.queues) (env : Env) (rings : Rings) : ribCheck env c rings = .ok none := by
  rw [ribCheck_eq hlcores hroom htotal, queuesOrdered_of_outOfOrder h]
  rfl

/-- What is known of a version that has been looked at to the end of its queues. -/
theorem ribCheck_ok {env : Env} {c : RibConf} {rings : Rings} {result : Option (RibConf × Rings)}
    (h : ribCheck env c rings = .ok result) :
    c.lcoreSize.toNat ≤ RTE_MAX_LCORE ∧ QueueRoom c c.lcoreSize.toNat
      ∧ c.queues.length ≤ MAX_PORT_QCONF := by
  unfold ribCheck at h
  split at h
  · cases h
  · next hlcores =>
    obtain ⟨queues, hqueues, h⟩ := bind_ok h
    obtain ⟨hroom, rfl⟩ := queuesOf_ok hqueues
    split at h
    · cases h
    · next htotal => exact ⟨Nat.le_of_not_lt hlcores, hroom, Nat.le_of_not_lt htotal⟩

/-- A version that has been passed: its queues are numbered, and it has got its rings. -/
theorem ribCheck_some {env : Env} {c : RibConf} {rings : Rings} {r : RibConf × Rings}
    (h : ribCheck env c rings = .ok (some r)) :
    Numbered c.queues ∧ QueueRoom c RTE_MAX_LCORE
      ∧ (∀ x ∈ queuesIn c.lcoreQconf RTE_MAX_LCORE, x.InRange)
      ∧ ∃ rings', rings.SameInterfaces rings'
        ∧ r = Lib.forUpTo c.vswitchSize.toNat (createIfRings env) (c, rings') := by
  obtain ⟨hlcores, hroom, htotal⟩ := ribCheck_ok h
  rw [ribCheck_eq hlcores hroom htotal] at h
  obtain ⟨ordered, hordered, h⟩ := bind_ok h
  cases ordered with
  | false => cases h
  | true =>
    obtain ⟨all, hall, h⟩ := bind_ok h
    obtain ⟨rings', hrings, h⟩ := bind_ok h
    obtain ⟨_, -, h⟩ := bind_ok h
    obtain rfl := Option.some.inj (Except.ok.inj h)
    obtain ⟨hroom, rfl⟩ := queuesOf_ok hall
    exact ⟨((ordered_iff_numbered c.queues).mp hordered).2, hroom,
      (createQueueRings_ok_iff env _ rings).mp ⟨rings', hrings⟩, rings',
      createQueueRings_interfaces hrings, rfl⟩

/-- A version that has been refused. -/
theorem ribCheck_none {env : Env} {c : RibConf} {rings : Rings}
    (h : ribCheck env c rings = .ok none) :
    ¬ ((∀ x ∈ c.queues, x.portId.toNat < RTE_MAX_ETHPORTS) ∧ Numbered c.queues) := by
  obtain ⟨hlcores, hroom, htotal⟩ := ribCheck_ok h
  rw [ribCheck_eq hlcores hroom htotal] at h
  obtain ⟨ordered, hordered, h⟩ := bind_ok h
  cases ordered with
  | true =>
    obtain ⟨_, -, h⟩ := bind_ok h
    obtain ⟨_, -, h⟩ := bind_ok h
    obtain ⟨_, -, h⟩ := bind_ok h
    cases h
  | false =>
    intro hpass
    rw [(ordered_iff_numbered c.queues).mpr hpass] at hordered
    cases hordered

/-- **When the check stays inside of its arrays.** The queues have to fit in the one that they are
    collected in, and unless they are refused before, their numbers in those that they index. -/
theorem ribCheck_ok_iff {c : RibConf} (hlcores : c.lcoreSize.toNat ≤ RTE_MAX_LCORE)
    (hroom : QueueRoom c RTE_MAX_LCORE) (hsize : c.vswitchSize.toNat ≤ MAX_VSWITCH) (env : Env)
    (rings : Rings) :
    (∃ result, ribCheck env c rings = .ok result)
      ↔ c.queues.length ≤ MAX_PORT_QCONF
        ∧ (OutOfOrder c.queues ∨ ∀ x ∈ queuesIn c.lcoreQconf RTE_MAX_LCORE, x.InRange) := by
  constructor
  · rintro ⟨result, hresult⟩
    obtain ⟨-, hroom', htotal⟩ := ribCheck_ok hresult
    refine ⟨htotal, ?_⟩
    cases result with
    | some r =>
      obtain ⟨-, -, hids, -⟩ := ribCheck_some hresult
      exact .inr hids
    | none =>
      rw [ribCheck_eq hlcores hroom' htotal] at hresult
      obtain ⟨ordered, hordered, hresult⟩ := bind_ok hresult
      cases ordered with
      | false => exact .inl (outOfOrder_of_queuesOrdered hordered)
      | true =>
        obtain ⟨_, -, hresult⟩ := bind_ok hresult
        obtain ⟨_, -, hresult⟩ := bind_ok hresult
        obtain ⟨_, -, hresult⟩ := bind_ok hresult
        cases hresult
  · rintro ⟨htotal, horder | hids⟩
    · exact ⟨_, ribCheck_of_outOfOrder hlcores (fun l hl => hroom l (hl.trans_le hlcores)) htotal
        horder env rings⟩
    · obtain ⟨hpassed, hrefused⟩ :=
        ribCheck_of_checkable ⟨hlcores, hroom, htotal, hids, hsize⟩ env rings
      by_cases hnumbered : Numbered c.queues
      · obtain ⟨r, hr⟩ := hpassed hnumbered
        exact ⟨_, hr⟩
      · exact ⟨_, hrefused hnumbered⟩

/-! ## What is passed -/

/-- The queues of each port are those below some number, and none is listed twice. -/
def EachOnce (queues : List PortQueueConf) : Prop :=
  ∀ port, (queueIds port queues).Nodup ∧ ∃ n, ∀ k, k ∈ queueIds port queues ↔ k < n

theorem numbered_iff_eachOnce (queues : List PortQueueConf) :
    Numbered queues ↔ EachOnce queues := by
  refine forall_congr' fun port => ⟨fun hperm => ?_, ?_⟩
  · refine ⟨hperm.nodup_iff.mpr List.nodup_range, (queueIds port queues).length, fun k => ?_⟩
    rw [hperm.mem_iff, List.mem_range]
  · rintro ⟨hnodup, n, hmem⟩
    have hperm : (queueIds port queues).Perm (List.range n) :=
      (List.perm_ext_iff_of_nodup hnodup List.nodup_range).mpr fun k => by
        rw [hmem, List.mem_range]
    have hlength : (queueIds port queues).length = n := by
      rw [hperm.length_eq, List.length_range]
    rwa [hlength]

/-- Where the queues stand does not matter. -/
theorem EachOnce.perm {queues queues' : List PortQueueConf} (h : EachOnce queues)
    (hperm : queues.Perm queues') : EachOnce queues' := by
  intro port
  have hids := queueIds_perm hperm port
  obtain ⟨hnodup, n, hmem⟩ := h port
  exact ⟨hids.nodup_iff.mp hnodup, n, fun k => by rw [← hids.mem_iff, hmem]⟩

/-- The queues fit in the lists of their lcores and in the array that they are collected in, and
    their ports are ports that there can be. -/
structure Collectable (c : RibConf) : Prop where
  lcores : c.lcoreSize.toNat ≤ RTE_MAX_LCORE
  room : QueueRoom c RTE_MAX_LCORE
  total : c.queues.length ≤ MAX_PORT_QCONF
  ports : ∀ x ∈ queuesIn c.lcoreQconf RTE_MAX_LCORE, x.portId.toNat < RTE_MAX_ETHPORTS
  vswitches : c.vswitchSize.toNat ≤ MAX_VSWITCH

theorem ribCheck_refuses_iff {c : RibConf} (h : Collectable c) (env : Env) (rings : Rings) :
    ribCheck env c rings = .ok none ↔ ¬ EachOnce c.queues := by
  have hports : ∀ x ∈ c.queues, x.portId.toNat < RTE_MAX_ETHPORTS :=
    fun x hx => h.ports x (queuesIn_mono h.lcores hx)
  rw [← numbered_iff_eachOnce]
  constructor
  · exact fun hnone hnumbered => ribCheck_none hnone ⟨hports, hnumbered⟩
  · intro hnot
    obtain ⟨ordered, hordered⟩ := queuesOrdered_ok
      (fun x hx => hports x ((List.mergeSort_perm c.queues portQconfLe).mem_iff.mp hx)) fun _ => 0
    rw [ribCheck_eq h.lcores (fun l hl => h.room l (hl.trans_le h.lcores)) h.total]
    cases ordered with
    | true => exact absurd ((ordered_iff_numbered c.queues).mp hordered).2 hnot
    | false =>
      rw [hordered]
      rfl

/-- It is passed if its queues are numbered and their numbers index the rings. -/
theorem ribCheck_passes_iff {c : RibConf} (h : Collectable c) (env : Env) (rings : Rings) :
    (∃ r, ribCheck env c rings = .ok (some r))
      ↔ EachOnce c.queues ∧ ∀ x ∈ queuesIn c.lcoreQconf RTE_MAX_LCORE,
          x.queueId.toNat < MAX_RX_QUEUE_PER_LCORE := by
  rw [← numbered_iff_eachOnce]
  constructor
  · rintro ⟨r, hr⟩
    obtain ⟨hnumbered, -, hids, -⟩ := ribCheck_some hr
    exact ⟨hnumbered, fun x hx => (hids x hx).2⟩
  · rintro ⟨hnumbered, hids⟩
    have hcheckable : Checkable c :=
      ⟨h.lcores, h.room, h.total, fun x hx => ⟨h.ports x hx, hids x hx⟩, h.vswitches⟩
    exact (ribCheck_of_checkable hcheckable env rings).1 hnumbered

/-- The version is passed if the queues of each port, listed anywhere, are those below some number,
    and otherwise it is refused. -/
def CheckedExactly (env : Env) (c : RibConf) (rings : Rings) : Prop :=
  ∀ queues, c.queues.Perm queues →
    ((∃ r, ribCheck env c rings = .ok (some r)) ↔ EachOnce queues)
      ∧ (ribCheck env c rings = .ok none ↔ ¬ EachOnce queues)

/-- **When the check of the queues is exact.** A queue that is not numbered is always found,
    on whichever lcores and in whatever order the queues are listed. But numbered queues are passed
    only if a port has no more of them than one lcore may have: their rings are kept in arrays of
    that size. -/
theorem ribCheck_exact_iff {c : RibConf} (h : Collectable c) (env : Env) (rings : Rings) :
    CheckedExactly env c rings ↔
      (EachOnce c.queues → ∀ x ∈ queuesIn c.lcoreQconf RTE_MAX_LCORE,
        x.queueId.toNat < MAX_RX_QUEUE_PER_LCORE) := by
  constructor
  · intro hexact heach
    exact ((ribCheck_passes_iff h env rings).mp ((hexact _ (List.Perm.refl _)).1.mpr heach)).2
  · intro hids queues hperm
    have heach : EachOnce c.queues ↔ EachOnce queues :=
      ⟨fun heach => heach.perm hperm, fun heach => heach.perm hperm.symm⟩
    rw [ribCheck_passes_iff h, ribCheck_refuses_iff h, ← heach]
    exact ⟨and_iff_left_of_imp hids, Iff.rfl⟩

/-- Queues of one port only, in whatever order. -/
theorem eachOnce_of_port {queues : List PortQueueConf} {port : UInt16} {n : Nat}
    (hports : ∀ x ∈ queues, x.portId = port)
    (hids : (queueIds port queues).Perm (List.range n)) : EachOnce queues := by
  intro other
  by_cases hother : other = port
  · subst hother
    exact ⟨hids.nodup_iff.mpr List.nodup_range, n, fun k => by rw [hids.mem_iff, List.mem_range]⟩
  · have hnone : queueIds other queues = [] := by
      rw [queueIds, List.filter_eq_nil_iff.mpr]
      · rfl
      · intro x hx
        rw [hports x hx]
        simpa using Ne.symm hother
    rw [hnone]
    exact ⟨List.nodup_nil, 0, fun k => by simp⟩

/-- Two queues of one port, the second one first, on two lcores. -/
def twoLcores : RibConf := { RibConf.zero with
  lcoreSize := 2
  lcoreQconf := fun l => ⟨if l < 2 then 1 else 0, fun _ => ⟨0, if l = 0 then 1 else 0⟩⟩ }

theorem ribCheck_exact_twoLcores :
    EachOnce twoLcores.queues ∧ CheckedExactly .plain twoLcores .none :=
  ⟨@eachOnce_of_port _ 0 2 (by decide) (by decide),
    (ribCheck_exact_iff ⟨by decide, fun l _ => by simp only [twoLcores]; split <;> decide,
      by decide, by decide +kernel, by decide⟩ .plain .none).mpr fun _ => by decide +kernel⟩

/-- The queues `0` to `16` of one port: sixteen on one lcore, and the last one on another. -/
def seventeenQueues : RibConf := { RibConf.zero with
  lcoreSize := 2
  lcoreQconf := fun l =>
    if l = 0 then ⟨16, fun j => ⟨0, UInt16.ofNat j⟩⟩
    else ⟨if l = 1 then 1 else 0, fun _ => ⟨0, 16⟩⟩ }

/-- They are numbered, but the rings of a port are an array of sixteen. -/
theorem seventeenQueues_not_passed : ¬ ∀ (env : Env) (c : RibConf) (rings : Rings), Collectable c →
    CheckedExactly env c rings := by
  intro hall
  have hcollectable : Collectable seventeenQueues := by
    refine ⟨by decide, fun l _ => ?_, by decide, by decide +kernel, by decide⟩
    simp only [seventeenQueues]
    split_ifs <;> decide
  have heach : EachOnce seventeenQueues.queues :=
    @eachOnce_of_port _ 0 17 (by decide +kernel) (by decide +kernel)
  have hpassed := ((hall .plain _ .none hcollectable) _ (List.Perm.refl _)).1.mpr heach
  have hids := ((ribCheck_passes_iff hcollectable .plain .none).mp hpassed).2
  exact absurd (hids ⟨0, 16⟩ (mem_queuesIn.mpr ⟨1, by decide, 0, by decide, rfl⟩)) (by decide)

end SdPlane
