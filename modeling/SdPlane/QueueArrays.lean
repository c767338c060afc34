import SdPlane.QueuesFit
import SdPlane.SetThread

/-!
# Queues and the arrays that they index (`queue_config.c`, `rib_manager.c`)

The numbers of `set thread` are looked at by nobody: the command takes lcores up to 128, and ports
and queues up to 128. The number of the lcore indexes `thread_qconf` in the command itself. The
other two go to the RIB manager in the table, and there index `port_nrxq`, `ring_up` and `ring_dn`;
and the queues of all lcores are collected in `port_qconf`, which is smaller than their lists
together.

A `QueueState` has both sides and what has been sent between them. `inArrays_iff` says of every event
in every run when its accesses stay inside of the arrays.
-/

set_option autoImplicit false

namespace SdPlane

structure QueueState where
  threadQconf : ThreadQconf
  /-- The tables that have been sent, and that the RIB manager has not come to. -/
  sent : List ThreadQconf
  rib : RibState

def QueueState.init : QueueState := ⟨.zero, [], .init⟩

inductive QueueEvent
  /-- The command; `room` is whether the ring of the RIB manager takes the message. -/
  | set (cmd : SetThread) (room : Bool)
  /-- The RIB manager handles the `QCONF` that was sent first. -/
  | qconf (env : Env)
  /-- It handles another configuration message. -/
  | conf (env : Env) (msg : ConfMsg)

inductive QueueStep : QueueState → QueueEvent → QueueState → Prop
  | set {s : QueueState} {cmd : SetThread} {room : Bool} {t : ThreadQconf}
      (h : SetStep s.threadQconf cmd t) :
      QueueStep s (.set cmd room)
        { s with threadQconf := t, sent := if room then s.sent ++ [t] else s.sent }
  | qconf {s : QueueState} {env : Env} {q : ThreadQconf} {rest : List ThreadQconf} {rib : RibState}
      (first : s.sent = q :: rest) (h : ConfStep s.rib (env, .qconf q) rib) :
      QueueStep s (.qconf env) { s with sent := rest, rib := rib }
  | conf {s : QueueState} {env : Env} {msg : ConfMsg} {rib : RibState}
      (other : ∀ q, msg ≠ .qconf q) (h : ConfStep s.rib (env, msg) rib) :
      QueueStep s (.conf env msg) { s with rib := rib }

/-- The command takes numbers up to 128, and DPDK has no more lcores than it has room for. -/
def QueueEvent.Possible : QueueEvent → Prop
  | .set cmd _ => cmd.lcoreId.toNat ≤ 128 ∧ cmd.portId.toNat ≤ 128 ∧ cmd.queueId.toNat ≤ 128
  | .qconf env => env.lcoreCount.toNat ≤ RTE_MAX_LCORE
  | .conf _ _ => True

/-- The accesses of the command, and those of `rib_check` when it checks what was sent, are inside
    of the arrays. -/
def InArrays (s : QueueState) : QueueEvent → Prop
  | .set cmd _ => ∃ t, setThreadLcorePortQueue s.threadQconf cmd = .ok t
  | .qconf env => ∀ q rest, s.sent = q :: rest → ∃ c result, s.rib.conf.next.qconf env q = .ok c
      ∧ ribCheck env c s.rib.rings = .ok result
  | .conf _ _ => True

/-- The queues that the check collects fit in `port_qconf`. Their numbers are inside of the arrays
    that they index, or the queues are refused before they index any. -/
structure QueuesInArrays (env : Env) (old qconf : ThreadQconf) : Prop where
  total : (queuesIn (queuesAfter env old qconf) env.lcoreCount.toNat).length ≤ MAX_PORT_QCONF
  ids : OutOfOrder (queuesIn (queuesAfter env old qconf) env.lcoreCount.toNat)
    ∨ ∀ x ∈ queuesIn (queuesAfter env old qconf) RTE_MAX_LCORE, x.InRange

def NumbersFit (s : QueueState) : QueueEvent → Prop
  | .set cmd _ => cmd.lcoreId.toNat < RTE_MAX_LCORE
  | .qconf env => ∀ q rest, s.sent = q :: rest → QueuesInArrays env s.rib.conf.lcoreQconf q
  | .conf _ _ => True

/-! ## The invariant -/

/-- No list on either side, or between them, is longer than it can be. -/
structure QueueState.Room (s : QueueState) : Prop where
  table : ThreadQconf.Room s.threadQconf
  sent : ∀ q ∈ s.sent, ThreadQconf.Room q
  rib : QueueRoom s.rib.conf RTE_MAX_LCORE
  wired : Wired s.rib.conf

theorem QueueState.Room.init : Room .init :=
  ⟨ThreadQconf.Room.zero, fun _ hq => (by cases hq), fun _ _ => Nat.zero_le _, Wired.zero⟩

theorem QueueRoom.keep {c d : RibConf} (h : QueueRoom c RTE_MAX_LCORE)
    (hkeeps : d.lcoreQconf = c.lcoreQconf) : QueueRoom d RTE_MAX_LCORE := by
  intro l hl
  rw [hkeeps]
  exact h l hl

/-- Only a `QCONF` changes the lists, and it has passed the check, which has gone through them. -/
theorem Outcome.queueRoom {env : Env} {c d : RibConf} {rings rings' : Rings} {msg : ConfMsg}
    (h : Outcome env c rings msg d rings') (hroom : QueueRoom c RTE_MAX_LCORE) :
    QueueRoom d RTE_MAX_LCORE := by
  rcases h.queues_cases with hkeeps | ⟨hlists, -⟩ | ⟨q, c', -, -, hcheck⟩
  · exact hroom.keep hkeeps.qconf
  · exact hroom.keep hlists
  · obtain ⟨-, hroom', -⟩ := ribCheck_some hcheck
    exact QueueRoom.keep hroom' (ribCheck_keepsQueues hcheck).1

theorem queueRoom_of_conf {env : Env} {s t : RibState} {msg : ConfMsg}
    (h : ConfStep s (env, msg) t) (hroom : QueueRoom s.conf RTE_MAX_LCORE) :
    QueueRoom t.conf RTE_MAX_LCORE := by
  rcases conf_of_ok h with ⟨c, rings, hresult, rfl, -, -⟩ | ⟨-, hsame | hflag⟩
  · exact (outcome_of_some hresult).queueRoom hroom
  · rw [hsame]
    exact hroom
  · exact hroom.keep (KeepsQueues.of_onlyWiring (.putStopFlag hflag)).qconf

theorem QueueState.Room.step {s t : QueueState} {event : QueueEvent} (hs : s.Room)
    (h : QueueStep s event t) : t.Room := by
  cases h with
  | @set cmd room table h =>
    obtain ⟨hroom, hlcore⟩ := setThread_ok h
    obtain ⟨table', hu, hroom', -⟩ := setThread_eq hroom hlcore
    obtain rfl := Except.ok.inj (h.symm.trans hu)
    refine ⟨hroom', fun q hq => ?_, hs.rib, hs.wired⟩
    cases room with
    | false => exact hs.sent q hq
    | true =>
      rcases List.mem_append.mp hq with hq | hq
      · exact hs.sent q hq
      · obtain rfl := List.mem_singleton.mp hq
        exact hroom'
  | qconf first h =>
    refine ⟨hs.table, fun q hq => hs.sent q ?_, queueRoom_of_conf h hs.rib,
      wired_confStep hs.wired h⟩
    rw [first]
    exact List.mem_cons_of_mem _ hq
  | conf other h =>
    exact ⟨hs.table, hs.sent, queueRoom_of_conf h hs.rib, wired_confStep hs.wired h⟩

/-! ## When accesses stay inside -/

/-- The version that the handler makes of a table is checked to its end exactly when its queues
    fit. -/
theorem ribCheck_made_iff {env : Env} {s : RibState} {q : ThreadQconf}
    (hlcores : env.lcoreCount.toNat ≤ RTE_MAX_LCORE) (hq : ThreadQconf.Room q)
    (hroom : QueueRoom s.conf RTE_MAX_LCORE) (hw : Wired s.conf) :
    (∃ c result, s.conf.next.qconf env q = .ok c ∧ ribCheck env c s.rings = .ok result)
      ↔ QueuesInArrays env s.conf.lcoreQconf q := by
  obtain ⟨c, hc⟩ := exists_qconf s.conf.next hlcores fun l hl => hq l (hl.trans_le hlcores)
  have hmade := made_of_ok hc
  have hsize : c.lcoreSize.toNat ≤ RTE_MAX_LCORE := hmade.size.le.trans hlcores
  have hroomc := hmade.roomAfter hroom
  have hvswitches : c.vswitchSize.toNat ≤ MAX_VSWITCH := by
    rw [hmade.vswitchSize]
    exact hw.vswitchSize
  have hcheck := ribCheck_ok_iff hsize hroomc hvswitches env s.rings
  rw [RibConf.queues, hmade.queuesIn_eq, hmade.queuesIn_eq, hmade.size] at hcheck
  constructor
  · rintro ⟨c', result, hc', hresult⟩
    obtain rfl := Except.ok.inj (hc.symm.trans hc')
    obtain ⟨htotal, hids⟩ := hcheck.mp ⟨result, hresult⟩
    exact ⟨htotal, hids⟩
  · rintro ⟨htotal, hids⟩
    obtain ⟨result, hresult⟩ := hcheck.mpr ⟨htotal, hids⟩
    exact ⟨c, result, hc, hresult⟩

theorem QueueState.Room.inArrays_step_iff {s : QueueState} (hs : s.Room) {event : QueueEvent}
    (hpossible : event.Possible) : InArrays s event ↔ NumbersFit s event := by
  cases event with
  | set cmd room =>
    constructor
    · rintro ⟨t, ht⟩
      exact (setThread_ok ht).2
    · intro hlcore
      obtain ⟨t, ht, -⟩ := setThread_eq hs.table hlcore
      exact ⟨t, ht⟩
  | qconf env =>
    refine forall₂_congr fun q rest => forall_congr' fun first => ?_
    have hq : q ∈ s.sent := by
      rw [first]
      exact List.mem_cons_self
    exact ribCheck_made_iff hpossible (hs.sent q hq) hs.rib hs.wired
  | conf env msg => exact Iff.rfl

/-- **When the numbers of queues stay inside of the arrays.** In every run of commands and of the
    messages that the RIB manager gets, all accesses are inside exactly when each command names an
    lcore that there can be, and each table that is checked has queues that fit. -/
theorem inArrays_iff (events : List QueueEvent) (hpossible : ∀ e ∈ events, e.Possible) :
    Lib.Guarded QueueStep .init InArrays events ↔ Lib.Guarded QueueStep .init NumbersFit events := by
  refine forall₃_congr fun pre event s => forall₂_congr fun hpre hrun => ?_
  have hroom : s.Room := hrun.invariant QueueState.Room .init fun _ _ _ hs h => hs.step h
  exact hroom.inArrays_step_iff (hpossible event (hpre.subset (by simp)))

/-- The queue of a port, which is then checked. -/
theorem inArrays_one : Lib.Guarded QueueStep .init InArrays [.set ⟨0, 0, 0⟩ true, .qconf .plain]
    ↔ Lib.Guarded QueueStep .init NumbersFit [.set ⟨0, 0, 0⟩ true, .qconf .plain] := by
  refine inArrays_iff _ fun e he => ?_
  rcases List.mem_cons.mp he with rfl | he
  · exact ⟨by decide, by decide, by decide⟩
  · obtain rfl := List.mem_singleton.mp he
    exact show Env.plain.lcoreCount.toNat ≤ RTE_MAX_LCORE by decide

/-- There is no lcore 128. -/
theorem thread128_out_of_bounds : ¬ ∀ events : List QueueEvent, (∀ e ∈ events, e.Possible) →
    Lib.Guarded QueueStep .init InArrays events := by
  intro hall
  have hguarded := hall [.set ⟨128, 0, 0⟩ true] fun e he => by
    obtain rfl := List.mem_singleton.mp he
    exact ⟨by decide, by decide, by decide⟩
  obtain ⟨t, ht⟩ := hguarded [] (.set ⟨128, 0, 0⟩ true) .init List.prefix_rfl .nil
  exact absurd (setThread_ok ht).2 (by decide)

end SdPlane
