import SdPlane.QueueConf

/-!
# Queues that are moved (`queue_config.c`)

`set thread <lcore> port <port> queue <queue>` gives a receive queue to an lcore. What has been
given is in the table `thread_qconf`, a list of queues for each lcore, and the whole table is what the
command sends. A queue is to be on one list only, so the command takes it off the lists of all other
lcores, and then puts it on the list of this one, if there is room.

If there is no room, the queue has been taken off all the same (`Crowded`): it is on no list any
more. Nothing else goes wrong (`setThread_moves_iff`).
-/

set_option autoImplicit false

namespace SdPlane

/-- `thread_qconf`. -/
abbrev ThreadQconf := Nat → LcoreQconf

def ThreadQconf.zero : ThreadQconf := fun _ => ⟨0, fun _ => ⟨0, 0⟩⟩

/-- The arguments of the command. -/
structure SetThread where
  lcoreId : UInt16
  portId : UInt16
  queueId : UInt16

def SetThread.queue (cmd : SetThread) : PortQueueConf := ⟨cmd.portId, cmd.queueId⟩

/-- The queues of an lcore. -/
def LcoreQconf.queues (q : LcoreQconf) : List PortQueueConf := Lib.entries q.rxQueueList q.nrxq.toNat

/-- The search on the list of another lcore. It goes on over what `memmove` has moved up. -/
def LcoreQconf.remove (x : PortQueueConf) (q : LcoreQconf) : LcoreQconf :=
  Lib.forUpTo q.nrxq.toNat (fun j q =>
    if j < q.nrxq.toNat ∧ q.rxQueueList j = x then
      ⟨q.nrxq - 1, shiftDown q.rxQueueList j q.nrxq.toNat⟩
    else q) q

/-- The search on the list of this lcore, and what is done if it finds nothing. -/
def LcoreQconf.append (x : PortQueueConf) (q : LcoreQconf) : LcoreQconf :=
  if x ∈ q.queues then q
  else if q.nrxq.toNat < MAX_RX_QUEUE_PER_LCORE then
    ⟨q.nrxq + 1, Function.update q.rxQueueList q.nrxq.toNat x⟩
  else q

/-- A loop goes through the lists of all lcores. -/
def goThrough (t : ThreadQconf) : Except Fault Unit := do
  let _ ← (List.range RTE_MAX_LCORE).mapM fun i => rxQueues (t i)
  .ok ()

/-- `set_thread_lcore_port_queue`: the table, which is also what is sent. -/
def setThreadLcorePortQueue (t : ThreadQconf) (cmd : SetThread) : Except Fault ThreadQconf := do
  goThrough t
  let t : ThreadQconf := fun i =>
    if i < RTE_MAX_LCORE ∧ i ≠ cmd.lcoreId.toNat then (t i).remove cmd.queue else t i
  inBounds cmd.lcoreId.toNat RTE_MAX_LCORE
  let t := Function.update t cmd.lcoreId.toNat ((t cmd.lcoreId.toNat).append cmd.queue)
  -- it is printed
  goThrough t
  .ok t

def SetStep (t : ThreadQconf) (cmd : SetThread) (u : ThreadQconf) : Prop :=
  setThreadLcorePortQueue t cmd = .ok u

/-! ## The property -/

/-- No queue is listed twice, a queue that is listed stays listed, on one lcore, and a command gives
    the queue to the lcore or changes nothing. -/
structure QueuesMoved (cmds : List SetThread) : Prop where
  once : ∀ pre t, pre <+: cmds → Lib.Run SetStep .zero pre t → (queuesIn t RTE_MAX_LCORE).Nodup
  stay : ∀ pre mid t u, pre ++ mid <+: cmds → Lib.Run SetStep .zero pre t →
    Lib.Run SetStep t mid u → ∀ x ∈ queuesIn t RTE_MAX_LCORE,
      ∃! l, l < RTE_MAX_LCORE ∧ x ∈ (u l).queues
  placed : ∀ pre cmd t u, pre ++ [cmd] <+: cmds → Lib.Run SetStep .zero pre t → SetStep t cmd u →
    cmd.queue ∈ (u cmd.lcoreId.toNat).queues
      ∨ ∀ l < RTE_MAX_LCORE, (u l).queues = (t l).queues

/-- The queue belongs to another lcore, and the list of the new one is full. -/
structure Crowded (t : ThreadQconf) (cmd : SetThread) : Prop where
  other : ∃ l < RTE_MAX_LCORE, l ≠ cmd.lcoreId.toNat ∧ cmd.queue ∈ (t l).queues
  full : (t cmd.lcoreId.toNat).nrxq.toNat = MAX_RX_QUEUE_PER_LCORE

/-! ## One list -/

theorem LcoreQconf.length_queues (q : LcoreQconf) : q.queues.length = q.nrxq.toNat :=
  Lib.length_entries _ _

theorem LcoreQconf.queues_remove {q : LcoreQconf} (x : PortQueueConf) (hnodup : q.queues.Nodup) :
    (q.remove x).queues = q.queues.erase x := by
  rw [remove, ← q.length_queues]
  apply Lib.erase_loop LcoreQconf.queues hnodup
  · intro i q' hx
    have hx := Lib.getElem?_entries.mp hx
    rw [if_pos hx, queues, toNat_pred (Nat.zero_lt_of_lt hx.1), entries_shiftDown _ hx.1]
    rfl
  · intro i q' hx
    rw [if_neg fun hx' => hx (Lib.getElem?_entries.mpr hx')]

/-- A list that does not have the queue, and has room, gets it. -/
theorem LcoreQconf.queues_append (x : PortQueueConf) (q : LcoreQconf) :
    (q.append x).queues
      = if x ∈ q.queues then q.queues
        else if q.nrxq.toNat < MAX_RX_QUEUE_PER_LCORE then q.queues ++ [x]
        else q.queues := by
  unfold append
  split
  · rfl
  · split
    · next hroom =>
      have hsize : (q.nrxq + 1).toNat = q.nrxq.toNat + 1 := by
        rw [MAX_RX_QUEUE_PER_LCORE] at hroom
        rw [UInt16.toNat_add, UInt16.toNat_one]
        omega
      rw [queues, hsize, Lib.entries_push]
      rfl
    · rfl

/-! ## The command -/

/-- No list is longer than it can be. -/
def ThreadQconf.Room (t : ThreadQconf) : Prop :=
  ∀ l < RTE_MAX_LCORE, (t l).nrxq.toNat ≤ MAX_RX_QUEUE_PER_LCORE

theorem goThrough_ok_iff (t : ThreadQconf) : goThrough t = .ok () ↔ ThreadQconf.Room t := by
  constructor
  · intro h l hl
    obtain ⟨lists, hlists, -⟩ := bind_ok h
    obtain ⟨queues, hqueues⟩ := of_mapM_ok hlists l (List.mem_range.mpr hl)
    rw [rxQueues] at hqueues
    split at hqueues
    · next hle => exact hle
    · cases hqueues
  · intro hroom
    rw [goThrough, mapM_ok (g := fun l => (List.range (t l).nrxq.toNat).map (t l).rxQueueList)]
    · rfl
    · intro l hl
      rw [rxQueues, if_pos (hroom l (List.mem_range.mp hl))]

theorem LcoreQconf.nrxq_remove_le (x : PortQueueConf) (q : LcoreQconf) :
    (q.remove x).nrxq.toNat ≤ q.nrxq.toNat := by
  refine Lib.forUpTo_rule (fun _ (q' : LcoreQconf) => q'.nrxq.toNat ≤ q.nrxq.toNat) le_rfl ?_
  intro i q' _ hle
  split
  · next hx =>
    dsimp only
    rw [toNat_pred (Nat.zero_lt_of_lt hx.1)]
    exact (Nat.sub_le _ _).trans hle
  · exact hle

theorem LcoreQconf.nrxq_append_le (x : PortQueueConf) {q : LcoreQconf}
    (h : q.nrxq.toNat ≤ MAX_RX_QUEUE_PER_LCORE) :
    (q.append x).nrxq.toNat ≤ MAX_RX_QUEUE_PER_LCORE := by
  rw [← length_queues, queues_append]
  split
  · rwa [length_queues]
  · split
    · next hroom =>
      rw [List.length_append, length_queues]
      exact hroom
    · rwa [length_queues]

/-- What a command makes of each list. -/
theorem setThread_eq {t : ThreadQconf} {cmd : SetThread} (hroom : ThreadQconf.Room t)
    (hlcore : cmd.lcoreId.toNat < RTE_MAX_LCORE) :
    ∃ u, setThreadLcorePortQueue t cmd = .ok u ∧ ThreadQconf.Room u ∧
      ∀ l < RTE_MAX_LCORE, u l = if l = cmd.lcoreId.toNat then (t l).append cmd.queue
        else (t l).remove cmd.queue := by
  let removed : ThreadQconf := fun i =>
    if i < RTE_MAX_LCORE ∧ i ≠ cmd.lcoreId.toNat then (t i).remove cmd.queue else t i
  let u : ThreadQconf := Function.update removed cmd.lcoreId.toNat
    ((removed cmd.lcoreId.toNat).append cmd.queue)
  have hlists : ∀ l < RTE_MAX_LCORE, u l = if l = cmd.lcoreId.toNat then (t l).append cmd.queue
      else (t l).remove cmd.queue := by
    intro l hl
    by_cases heq : l = cmd.lcoreId.toNat
    · subst heq
      simp [u, removed]
    · simp [u, removed, heq, hl]
  have hu : ThreadQconf.Room u := by
    intro l hl
    rw [hlists l hl]
    split
    · exact LcoreQconf.nrxq_append_le _ (hroom l hl)
    · exact (LcoreQconf.nrxq_remove_le _ _).trans (hroom l hl)
  refine ⟨u, ?_, hu, hlists⟩
  rw [setThreadLcorePortQueue, (goThrough_ok_iff t).mpr hroom]
  dsimp only [bind, Except.bind]
  rw [inBounds, if_pos hlcore]
  dsimp only
  rw [(goThrough_ok_iff _).mpr hu]

theorem setThread_ok {t u : ThreadQconf} {cmd : SetThread}
    (h : setThreadLcorePortQueue t cmd = .ok u) :
    ThreadQconf.Room t ∧ cmd.lcoreId.toNat < RTE_MAX_LCORE := by
  obtain ⟨_, hroom, h⟩ := bind_ok h
  obtain ⟨_, hlcore, -⟩ := bind_ok h
  refine ⟨(goThrough_ok_iff t).mp hroom, ?_⟩
  by_contra hnot
  rw [inBounds, if_neg hnot] at hlcore
  cases hlcore

/-! ## Once -/

/-- No queue is listed twice. -/
structure ThreadQconf.Once (t : ThreadQconf) : Prop where
  nodup : ∀ l < RTE_MAX_LCORE, (t l).queues.Nodup
  one : ∀ x, ∀ l < RTE_MAX_LCORE, ∀ l' < RTE_MAX_LCORE, x ∈ (t l).queues → x ∈ (t l').queues →
    l = l'

theorem mem_queuesIn_iff {t : ThreadQconf} {n : Nat} {x : PortQueueConf} :
    x ∈ queuesIn t n ↔ ∃ l < n, x ∈ (t l).queues := by
  simp [queuesIn, LcoreQconf.queues]

theorem ThreadQconf.Once.nodup_queuesIn {t : ThreadQconf} (h : Once t) :
    (queuesIn t RTE_MAX_LCORE).Nodup := by
  refine List.nodup_flatMap.mpr ⟨fun l hl => h.nodup l (List.mem_range.mp hl), ?_⟩
  refine List.nodup_range.imp_of_mem fun {l l'} hl hl' hne => ?_
  intro x hx hx'
  exact hne (h.one x l (List.mem_range.mp hl) l' (List.mem_range.mp hl') hx hx')

section Step

variable {t u : ThreadQconf} {cmd : SetThread}

/-- What is listed after a command. -/
theorem mem_after (honce : ThreadQconf.Once t) (h : SetStep t cmd u) {l : Nat}
    (hl : l < RTE_MAX_LCORE) (x : PortQueueConf) :
    x ∈ (u l).queues ↔ if l = cmd.lcoreId.toNat
      then x ∈ (t l).queues ∨ x = cmd.queue ∧ (t l).nrxq.toNat < MAX_RX_QUEUE_PER_LCORE
      else x ∈ (t l).queues ∧ x ≠ cmd.queue := by
  obtain ⟨hroom, hlcore⟩ := setThread_ok h
  obtain ⟨u', hu', -, hlists⟩ := setThread_eq hroom hlcore
  obtain rfl := Except.ok.inj (h.symm.trans hu')
  rw [hlists l hl]
  split
  · rw [LcoreQconf.queues_append]
    split
    · next hmem =>
      constructor
      · exact .inl
      · rintro (hx | ⟨rfl, -⟩)
        · exact hx
        · exact hmem
    · split
      · next hfree => simp [hfree]
      · next hfull => simp [hfull]
  · rw [LcoreQconf.queues_remove _ (honce.nodup l hl), (honce.nodup l hl).mem_erase_iff]
    exact and_comm

theorem once_after (honce : ThreadQconf.Once t) (h : SetStep t cmd u) : ThreadQconf.Once u := by
  obtain ⟨hroom, hlcore⟩ := setThread_ok h
  obtain ⟨u', hu', -, hlists⟩ := setThread_eq hroom hlcore
  obtain rfl := Except.ok.inj (h.symm.trans hu')
  constructor
  · intro l hl
    rw [hlists l hl]
    split
    · rw [LcoreQconf.queues_append]
      split
      · exact honce.nodup l hl
      · next hnot =>
        split
        · exact List.nodup_append'.mpr ⟨honce.nodup l hl, List.nodup_singleton _, by simpa using hnot⟩
        · exact honce.nodup l hl
    · rw [LcoreQconf.queues_remove _ (honce.nodup l hl)]
      exact (honce.nodup l hl).erase _
  · intro x l hl l' hl' hx hx'
    rw [mem_after honce h hl] at hx
    rw [mem_after honce h hl'] at hx'
    split at hx <;> split at hx'
    · next heq heq' => exact heq.trans heq'.symm
    · rcases hx with hx | ⟨hx, -⟩
      · exact honce.one x l hl l' hl' hx hx'.1
      · exact absurd hx hx'.2
    · rcases hx' with hx' | ⟨hx', -⟩
      · exact honce.one x l hl l' hl' hx.1 hx'
      · exact absurd hx' hx.2
    · exact honce.one x l hl l' hl' hx.1 hx'.1

/-- A queue that is listed stays so, unless the command takes it to an lcore that is full. -/
theorem listed_after (honce : ThreadQconf.Once t) (h : SetStep t cmd u) (hfree : ¬ Crowded t cmd)
    {x : PortQueueConf} (hx : x ∈ queuesIn t RTE_MAX_LCORE) : x ∈ queuesIn u RTE_MAX_LCORE := by
  obtain ⟨hroom, hlcore⟩ := setThread_ok h
  obtain ⟨l, hl, hx⟩ := mem_queuesIn_iff.mp hx
  by_cases hown : l = cmd.lcoreId.toNat
  · refine mem_queuesIn_iff.mpr ⟨l, hl, ?_⟩
    rw [mem_after honce h hl, if_pos hown]
    exact .inl hx
  · by_cases hmoved : x = cmd.queue
    · -- it goes to the other lcore
      refine mem_queuesIn_iff.mpr ⟨_, hlcore, ?_⟩
      rw [mem_after honce h hlcore, if_pos rfl]
      refine .inr ⟨hmoved, Nat.lt_of_le_of_ne (hroom _ hlcore) fun hfull => hfree ⟨?_, hfull⟩⟩
      exact ⟨l, hl, hown, hmoved ▸ hx⟩
    · refine mem_queuesIn_iff.mpr ⟨l, hl, ?_⟩
      rw [mem_after honce h hl, if_neg hown]
      exact ⟨hx, hmoved⟩

/-- Then the queue is lost. -/
theorem Crowded.lost (hcrowded : Crowded t cmd) (honce : ThreadQconf.Once t) (h : SetStep t cmd u) :
    cmd.queue ∈ queuesIn t RTE_MAX_LCORE ∧ cmd.queue ∉ queuesIn u RTE_MAX_LCORE := by
  obtain ⟨l, hl, hother, hmem⟩ := hcrowded.other
  refine ⟨mem_queuesIn_iff.mpr ⟨l, hl, hmem⟩, fun hafter => ?_⟩
  obtain ⟨l', hl', hmem'⟩ := mem_queuesIn_iff.mp hafter
  rw [mem_after honce h hl'] at hmem'
  split at hmem'
  · next hown =>
    subst hown
    rcases hmem' with hmem' | ⟨-, hfree⟩
    · exact hother (honce.one _ l hl _ hl' hmem hmem')
    · rw [hcrowded.full] at hfree
      exact Nat.lt_irrefl _ hfree
  · exact hmem'.2 rfl

theorem placed_after (honce : ThreadQconf.Once t) (h : SetStep t cmd u) (hfree : ¬ Crowded t cmd) :
    cmd.queue ∈ (u cmd.lcoreId.toNat).queues
      ∨ ∀ l < RTE_MAX_LCORE, (u l).queues = (t l).queues := by
  obtain ⟨hroom, hlcore⟩ := setThread_ok h
  obtain ⟨u', hu', -, hlists⟩ := setThread_eq hroom hlcore
  obtain rfl := Except.ok.inj (h.symm.trans hu')
  by_cases hplaced : cmd.queue ∈ (u cmd.lcoreId.toNat).queues
  · exact .inl hplaced
  · -- the list is full, and no other list has the queue
    rw [mem_after honce h hlcore, if_pos rfl, not_or] at hplaced
    obtain ⟨hnot, hfull⟩ := hplaced
    have hfull : ¬ (t cmd.lcoreId.toNat).nrxq.toNat < MAX_RX_QUEUE_PER_LCORE :=
      fun hlt => hfull ⟨rfl, hlt⟩
    refine .inr fun l hl => ?_
    rw [hlists l hl]
    split
    · next hown =>
      subst hown
      rw [LcoreQconf.queues_append, if_neg hnot, if_neg hfull]
    · next hother =>
      rw [LcoreQconf.queues_remove _ (honce.nodup l hl), List.erase_of_not_mem]
      intro hmem
      exact hfree ⟨⟨l, hl, hother, hmem⟩,
        Nat.le_antisymm (hroom _ hlcore) (Nat.le_of_not_lt hfull)⟩

end Step

/-! ## Runs of commands -/

theorem zero_queues (l : Nat) : (ThreadQconf.zero l).queues = [] := rfl

theorem ThreadQconf.Once.zero : Once .zero := by
  refine ⟨fun l _ => by rw [zero_queues]; exact List.nodup_nil, fun x l _ l' _ hx => ?_⟩
  rw [zero_queues] at hx
  cases hx

theorem ThreadQconf.Room.zero : Room .zero := fun _ _ => Nat.zero_le _

/-- The invariant of the table. -/
theorem once_of_run {cmds : List SetThread} {t : ThreadQconf} (h : Lib.Run SetStep .zero cmds t) :
    t.Once ∧ t.Room := by
  refine h.invariant (fun t => ThreadQconf.Once t ∧ ThreadQconf.Room t) ⟨.zero, .zero⟩ ?_
  intro t cmd u ⟨honce, _⟩ hstep
  refine ⟨once_after honce hstep, ?_⟩
  obtain ⟨hroom, hlcore⟩ := setThread_ok hstep
  obtain ⟨u', hu', hroom', -⟩ := setThread_eq hroom hlcore
  obtain rfl := Except.ok.inj (hstep.symm.trans hu')
  exact hroom'

/-- Over several commands, too, what is listed stays so. -/
theorem listed_of_run {mid : List SetThread} {t u : ThreadQconf} (honce : t.Once)
    (hrun : Lib.Run SetStep t mid u)
    (hfree : Lib.Guarded SetStep t (fun t cmd => ¬ Crowded t cmd) mid) :
    u.Once ∧ ∀ x ∈ queuesIn t RTE_MAX_LCORE, x ∈ queuesIn u RTE_MAX_LCORE := by
  induction hrun with
  | nil => exact ⟨honce, fun x hx => hx⟩
  | @snoc ms s u cmd run last ih =>
    obtain ⟨hs, hlisted⟩ := ih fun pre m s' hpre => hfree pre m s' (hpre.trans (List.prefix_append _ _))
    have hcmd := hfree ms cmd s List.prefix_rfl run
    exact ⟨once_after hs last, fun x hx => listed_after hs last hcmd (hlisted x hx)⟩

/-- **Queues are moved, and never lost or doubled,** by commands for lcores that there can be,
    exactly when none of them takes a queue from its lcore to one that is full. -/
theorem setThread_moves_iff (cmds : List SetThread)
    (hvalid : ∀ cmd ∈ cmds, cmd.lcoreId.toNat < RTE_MAX_LCORE) :
    QueuesMoved cmds ↔ Lib.Guarded SetStep .zero (fun t cmd => ¬ Crowded t cmd) cmds := by
  constructor
  · intro hmoved pre cmd t hpre hrun hcrowded
    obtain ⟨honce, hroom⟩ := once_of_run hrun
    have hlcore := hvalid cmd (hpre.subset (by simp))
    obtain ⟨u, hu, -⟩ := setThread_eq hroom hlcore
    obtain ⟨hlisted, hlost⟩ := hcrowded.lost honce hu
    obtain ⟨l, hl, -⟩ := hmoved.stay pre [cmd] t u hpre hrun (Lib.Run.nil.snoc hu) _ hlisted
    exact hlost (mem_queuesIn_iff.mpr ⟨l, hl⟩)
  · intro hfree
    refine ⟨fun pre t _ hrun => (once_of_run hrun).1.nodup_queuesIn, ?_, ?_⟩
    · intro pre mid t u hpre hrun hmid x hx
      have hguard : Lib.Guarded SetStep t (fun t cmd => ¬ Crowded t cmd) mid := by
        intro mid' cmd s hmid' hrun'
        refine hfree (pre ++ mid') cmd s ?_ (hrun.append hrun')
        rw [List.append_assoc]
        exact ((List.prefix_append_right_inj pre).mpr hmid').trans hpre
      obtain ⟨honce, hlisted⟩ := listed_of_run (once_of_run hrun).1 hmid hguard
      obtain ⟨l, hl, hxl⟩ := mem_queuesIn_iff.mp (hlisted x hx)
      exact ⟨l, ⟨hl, hxl⟩, fun l' ⟨hl', hxl'⟩ => honce.one x l' hl' l hl hxl' hxl⟩
    · intro pre cmd t u hpre hrun hstep
      exact placed_after (once_of_run hrun).1 hstep (hfree pre cmd t hpre hrun)

/-- The queue of a port, to one lcore and then to another. -/
theorem setThread_moves_one :
    QueuesMoved [⟨0, 0, 0⟩, ⟨1, 0, 0⟩]
      ↔ Lib.Guarded SetStep .zero (fun t cmd => ¬ Crowded t cmd) [⟨0, 0, 0⟩, ⟨1, 0, 0⟩] :=
  setThread_moves_iff [⟨0, 0, 0⟩, ⟨1, 0, 0⟩] (by decide)

def setThreads : List SetThread → ThreadQconf → Except Fault ThreadQconf
  | [], t => .ok t
  | cmd :: rest, t => do setThreads rest (← setThreadLcorePortQueue t cmd)

theorem run_of_setThreads {cmds : List SetThread} {t u : ThreadQconf}
    (h : setThreads cmds t = .ok u) : Lib.Run SetStep t cmds u := by
  induction cmds generalizing t with
  | nil =>
    obtain rfl := Except.ok.inj h
    exact .nil
  | cons cmd rest ih =>
    obtain ⟨s, hs, hrest⟩ := bind_ok h
    exact (Lib.Run.nil.snoc hs : Lib.Run SetStep t [cmd] s).append (ih hrest)

/-- Sixteen queues of port 0 on lcore 0, and the queue of port 1 on lcore 1. -/
def sixteen : List SetThread := (List.range 16).map (fun k => ⟨0, 0, UInt16.ofNat k⟩) ++ [⟨1, 1, 0⟩]

/-- The queue of port 1 is to go to lcore 0. -/
theorem queue_lost : ¬ ∀ cmds : List SetThread,
    (∀ cmd ∈ cmds, cmd.lcoreId.toNat < RTE_MAX_LCORE) → QueuesMoved cmds := by
  intro hall
  have hfacts : (setThreads sixteen .zero).map (fun t => ((t 0).nrxq.toNat, (t 1).queues))
      = .ok (16, [⟨1, 0⟩]) := by decide +kernel
  obtain ⟨t, ht, hpair⟩ := map_ok hfacts
  obtain ⟨hfull, hother⟩ := Prod.mk.inj hpair
  have hrun := run_of_setThreads ht
  obtain ⟨honce, hroom⟩ := once_of_run hrun
  have hcrowded : Crowded t ⟨0, 1, 0⟩ :=
    ⟨⟨1, by decide, by decide, by rw [hother]; exact List.mem_singleton_self _⟩, hfull⟩
  obtain ⟨u, hu, -⟩ := @setThread_eq _ ⟨0, 1, 0⟩ hroom (by decide)
  obtain ⟨hlisted, hlost⟩ := hcrowded.lost honce hu
  have hmoved := hall (sixteen ++ [⟨0, 1, 0⟩]) (by decide)
  obtain ⟨l, hl, -⟩ := hmoved.stay sixteen [⟨0, 1, 0⟩] t u List.prefix_rfl hrun
    (Lib.Run.nil.snoc hu) _ hlisted
  exact hlost (mem_queuesIn_iff.mpr ⟨l, hl⟩)

end SdPlane
