import Mathlib

/-!
# Quiescent-state-based reclamation

A writer publishes one version of a structure after the other. After each it waits for a grace
period and frees the version before. Readers are threads, each with its own pointer variables: it
takes the published version into one of them, reads through it, and says now and then that it holds
nothing any more (`quiescent`). When a grace period is over is up to a library, of which no more is
known than what it promises (`GracePeriod`): it waits until every thread that was registered at its
start has said so, or has unregistered, and no longer.

`Sys.run` is one interleaving of the writer and the threads. Whether **some** interleaving lets a
thread read a version that has been freed is decided thread by thread: `Disciplined` looks at the
actions of one thread only, and `safe_iff_disciplined` says that it is exact.

A thread may itself be a scheduler for others, which it runs one slice at a time (`sliced`); that it
does so is what a `Scheduler` promises. Then what one of them holds can grow stale in another one's
slice; `disciplined_sliced` is the rule for slices that can stand alone.
-/

set_option autoImplicit false

namespace Lib.Qsbr

set_option linter.unusedSectionVars false

variable {T X : Type} [DecidableEq T] [DecidableEq X]

/-! ## 1. Threads and versions -/

/-- What a thread does: with its registration, and with its pointer variables. -/
inductive Act (X : Type)
  | register
  | unregister
  | quiescent
  /-- Takes the published version into `x`. -/
  | deref (x : X)
  /-- Sets `x` to the null pointer. -/
  | clear (x : X)
  /-- Reads the version that `x` points to. A null pointer is left alone. -/
  | read (x : X)
  deriving DecidableEq

/-- Either the next action of a thread, or a step of the writer. -/
inductive Event (T : Type)
  | thread (t : T)
  | publish
  | free

/-- What a library promises that ends grace periods. `isOver` is asked with the threads that were
    registered at the start and have neither been quiescent nor unregistered since. -/
structure GracePeriod (T : Type) where
  isOver : List T → Bool
  /-- It waits for all of them, -/
  waits : ∀ {waiting : List T}, isOver waiting → waiting = []
  /-- and for nothing else. -/
  ends : isOver []

instance : Inhabited (GracePeriod T) :=
  ⟨⟨List.isEmpty, List.isEmpty_iff.mp, rfl⟩⟩

structure Sys (T X : Type) where
  /-- The version that the global pointer points to. -/
  published : Option Nat
  /-- How many versions there have been. -/
  versions : Nat
  /-- The version that the writer frees next, while it waits. -/
  retired : Option Nat
  registry : List T
  /-- The threads that the grace period still waits for. -/
  waiting : List T
  freed : List Nat
  var : T → X → Option Nat
  todo : T → List (Act X)
  /-- Some thread has read a version after it was freed. -/
  fault : Bool

namespace Sys

/-- Nothing is published yet. -/
def init (prog : T → List (Act X)) : Sys T X :=
  { published := none, versions := 0, retired := none, registry := [], waiting := [], freed := [],
    var := fun _ _ => none, todo := prog, fault := false }

/-- One action of the thread `t`. -/
def act (s : Sys T X) (t : T) : Act X → Sys T X
  | .register => { s with registry := t :: s.registry }
  | .unregister => { s with registry := s.registry.filter (· ≠ t), waiting := s.waiting.filter (· ≠ t) }
  | .quiescent => { s with waiting := s.waiting.filter (· ≠ t) }
  | .deref x => { s with var := Function.update s.var t (Function.update (s.var t) x s.published) }
  | .clear x => { s with var := Function.update s.var t (Function.update (s.var t) x none) }
  | .read x => { s with fault := s.fault || (s.var t x).any (· ∈ s.freed) }

/-- The writer publishes when it waits for nothing, and frees when everybody has answered. -/
def step (s : Sys T X) (grace : GracePeriod T) : Event T → Sys T X
  | .thread t =>
    match s.todo t with
    | [] => s
    | a :: as => { s.act t a with todo := Function.update s.todo t as }
  | .publish =>
    if s.retired = none then
      { s with published := some s.versions, versions := s.versions + 1, retired := s.published,
               waiting := s.registry }
    else s
  | .free =>
    match s.retired with
    | none => s
    | some v => if grace.isOver s.waiting then { s with retired := none, freed := v :: s.freed } else s

def run (s : Sys T X) (grace : GracePeriod T) (es : List (Event T)) : Sys T X :=
  es.foldl (fun s e => s.step grace e) s

variable {grace : GracePeriod T}

@[simp] theorem run_nil (s : Sys T X) : s.run grace [] = s := rfl

@[simp] theorem run_cons (s : Sys T X) (e : Event T) (es : List (Event T)) :
    s.run grace (e :: es) = (s.step grace e).run grace es := rfl

theorem run_append (s : Sys T X) (es es' : List (Event T)) :
    s.run grace (es ++ es') = (s.run grace es).run grace es' := by
  apply List.foldl_append

end Sys

/-- Whatever the order, no thread reads a version after it was freed. -/
def Safe (grace : GracePeriod T) (prog : T → List (Act X)) : Prop :=
  ∀ es, ((Sys.init prog).run grace es).fault = false

/-! ## 2. One thread by itself -/

/-- What may have become of the version that a variable points to. -/
inductive Status
  | null
  /-- Taken since the last quiescent state, while registered. -/
  | fresh
  | stale
  deriving DecidableEq

def Status.expire : Status → Status
  | .fresh => .stale
  | s => s

theorem Status.expire_eq_null {s : Status} : s.expire = .null ↔ s = .null := by
  cases s <;> simp [expire]

theorem Status.expire_eq_stale {s : Status} (h : s ≠ .null) : s.expire = .stale := by
  cases s <;> simp [expire] at h ⊢

theorem Status.expire_ne_fresh (s : Status) : s.expire ≠ .fresh := by
  cases s <;> simp [expire]

structure Mode (X : Type) where
  online : Bool
  status : X → Status

namespace Mode

def init : Mode X := ⟨false, fun _ => .null⟩

def next (m : Mode X) : Act X → Mode X
  | .register => { m with online := true }
  | .unregister => ⟨false, fun x => (m.status x).expire⟩
  | .quiescent => { m with status := fun x => (m.status x).expire }
  | .deref x => { m with status := Function.update m.status x (if m.online then .fresh else .stale) }
  | .clear x => { m with status := Function.update m.status x .null }
  | .read _ => m

/-- A read of a stale pointer is what a thread must not do. -/
def allows (m : Mode X) : Act X → Bool
  | .read x => m.status x ≠ .stale
  | _ => true

def after (m : Mode X) (as : List (Act X)) : Mode X := as.foldl next m

@[simp] theorem after_nil (m : Mode X) : m.after [] = m := rfl

@[simp] theorem after_cons (m : Mode X) (a : Act X) (as : List (Act X)) :
    m.after (a :: as) = (m.next a).after as := rfl

theorem after_append (m : Mode X) (as bs : List (Act X)) :
    m.after (as ++ bs) = (m.after as).after bs := by
  apply List.foldl_append

end Mode

/-- From the mode `m`, no action reads a stale pointer. -/
def Disciplined (m : Mode X) : List (Act X) → Bool
  | [] => true
  | a :: as => m.allows a && Disciplined (m.next a) as

theorem disciplined_append {m : Mode X} {as bs : List (Act X)} :
    Disciplined m (as ++ bs) ↔ Disciplined m as ∧ Disciplined (m.after as) bs := by
  induction as generalizing m with
  | nil => simp [Disciplined]
  | cons a as ih => simp [Disciplined, ih, and_assoc]

/-- One block of actions after the other, with what holds of the mode between them. -/
theorem disciplined_flatMap {α : Type} (P : Mode X → Prop) {f : α → List (Act X)}
    (hf : ∀ a m, P m → Disciplined m (f a) ∧ P (m.after (f a))) (l : List α) {m : Mode X}
    (hm : P m) : Disciplined m (l.flatMap f) ∧ P (m.after (l.flatMap f)) := by
  induction l generalizing m with
  | nil => exact ⟨rfl, hm⟩
  | cons a l ih =>
    obtain ⟨hd, hP⟩ := hf a m hm
    rw [List.flatMap_cons, disciplined_append, Mode.after_append]
    exact ⟨⟨hd, (ih hP).1⟩, (ih hP).2⟩

/-- A pointer may be read as often as one likes. -/
theorem disciplined_reads {m : Mode X} {x : X} (hx : m.status x ≠ .stale) (n : Nat) :
    Disciplined m (List.replicate n (.read x)) ∧ m.after (List.replicate n (.read x)) = m := by
  induction n with
  | zero => exact ⟨rfl, rfl⟩
  | succ n ih =>
    rw [List.replicate_succ, Mode.after_cons]
    exact ⟨by simp [Disciplined, Mode.allows, hx, Mode.next, ih.1], ih.2⟩

theorem disciplined_quiescents (m : Mode X) (n : Nat) :
    Disciplined m (List.replicate n .quiescent) := by
  induction n generalizing m with
  | zero => rfl
  | succ n ih =>
    rw [List.replicate_succ, Disciplined, ih]
    rfl

/-- Where discipline breaks, and what has been read there. -/
theorem exists_of_not_disciplined {m : Mode X} {as : List (Act X)} (h : ¬ Disciplined m as) :
    ∃ pre x post, as = pre ++ .read x :: post ∧ (m.after pre).status x = .stale := by
  induction as generalizing m with
  | nil => simp [Disciplined] at h
  | cons a as ih =>
    cases hm : m.allows a with
    | false =>
      cases a with
      | read x => exact ⟨[], x, as, rfl, by simpa [Mode.allows] using hm⟩
      | _ => simp [Mode.allows] at hm
    | true =>
      obtain ⟨pre, x, post, rfl, hx⟩ := ih (m := m.next a) (by simpa [Disciplined, hm] using h)
      exact ⟨a :: pre, x, post, rfl, hx⟩

/-! ## 3. Discipline keeps every interleaving safe -/

/-- What holds between the system, the thread `t` and the mode that it has got to. A fresh pointer
    is to the published version, or the grace period of the one before still waits for `t`. -/
structure Follows (s : Sys T X) (t : T) (m : Mode X) : Prop where
  online : m.online ↔ t ∈ s.registry
  null : ∀ x, m.status x = .null → s.var t x = none
  registered : ∀ x, m.status x = .fresh → t ∈ s.registry
  fresh : ∀ x v, m.status x = .fresh → s.var t x = some v →
    s.published = some v ∨ s.retired = some v ∧ t ∈ s.waiting

/-- The writer's side: the versions that are out are not freed. -/
structure Kept (s : Sys T X) : Prop where
  published : ∀ v, s.published = some v → v < s.versions ∧ v ∉ s.freed ∧ s.retired ≠ some v
  retired : ∀ v, s.retired = some v → v < s.versions ∧ v ∉ s.freed
  freed : ∀ v, v ∈ s.freed → v < s.versions

/-- The threads of `D` are the disciplined ones. Only if all are is there no fault. -/
structure Tracks (D : T → Prop) (s : Sys T X) (mode : T → Mode X) : Prop where
  kept : Kept s
  follows : ∀ t, Follows s t (mode t)
  disciplined : ∀ t, D t → Disciplined (mode t) (s.todo t)
  safe : (∀ t, D t) → s.fault = false

section Act

variable {s : Sys T X} {t u : T} (a : Act X)

@[simp] theorem Sys.published_act : (s.act t a).published = s.published := by
  cases a <;> rfl

@[simp] theorem Sys.retired_act : (s.act t a).retired = s.retired := by
  cases a <;> rfl

@[simp] theorem Sys.todo_act : (s.act t a).todo = s.todo := by
  cases a <;> rfl

@[simp] theorem Sys.freed_act : (s.act t a).freed = s.freed := by
  cases a <;> rfl

theorem Sys.var_act_of_ne (hu : u ≠ t) : (s.act t a).var u = s.var u := by
  cases a <;> simp [act, hu]

theorem Sys.mem_registry_act_of_ne (hu : u ≠ t) : u ∈ (s.act t a).registry ↔ u ∈ s.registry := by
  cases a <;> simp [act, hu]

theorem Sys.mem_waiting_act_of_ne (hu : u ≠ t) : u ∈ (s.act t a).waiting ↔ u ∈ s.waiting := by
  cases a <;> simp [act, hu]

theorem Kept.act (h : Kept s) : Kept (s.act t a) := by
  cases a <;> exact ⟨h.published, h.retired, h.freed⟩

/-- A thread's action is nothing to the others. -/
theorem Follows.act_of_ne {m : Mode X} (h : Follows s u m) (hu : u ≠ t) :
    Follows (s.act t a) u m where
  online := by rw [Sys.mem_registry_act_of_ne a hu, h.online]
  null x hx := by rw [Sys.var_act_of_ne a hu, h.null x hx]
  registered x hx := by
    rw [Sys.mem_registry_act_of_ne a hu]
    exact h.registered x hx
  fresh x v hx hv := by
    rw [Sys.var_act_of_ne a hu] at hv
    rw [Sys.published_act, Sys.retired_act, Sys.mem_waiting_act_of_ne a hu]
    exact h.fresh x v hx hv

/-- The thread's own mode goes on with its action. -/
theorem Follows.act {m : Mode X} (h : Follows s t m) : Follows (s.act t a) t (m.next a) := by
  cases a with
  | register =>
    refine ⟨by simp [Mode.next, Sys.act], h.null, ?_, h.fresh⟩
    intro x _
    exact List.mem_cons_self
  | unregister =>
    refine ⟨by simp [Mode.next, Sys.act], ?_, ?_, ?_⟩
    · intro x hx
      exact h.null x (Status.expire_eq_null.mp hx)
    · intro x hx
      exact absurd hx (Status.expire_ne_fresh _)
    · intro x v hx
      exact absurd hx (Status.expire_ne_fresh _)
  | quiescent =>
    refine ⟨h.online, ?_, ?_, ?_⟩
    · intro x hx
      exact h.null x (Status.expire_eq_null.mp hx)
    · intro x hx
      exact absurd hx (Status.expire_ne_fresh _)
    · intro x v hx
      exact absurd hx (Status.expire_ne_fresh _)
  | deref y =>
    have hother : ∀ x, x ≠ y → (m.next (.deref y)).status x = m.status x := by
      intro x hx
      simp [Mode.next, hx]
    have hself : (m.next (.deref y)).status y = if m.online then .fresh else .stale := by
      simp [Mode.next]
    refine ⟨h.online, ?_, ?_, ?_⟩
    · intro x hx
      by_cases hxy : x = y
      · subst hxy
        rw [hself] at hx
        split at hx <;> cases hx
      · simpa [Sys.act, hxy] using h.null x (by rwa [hother x hxy] at hx)
    · intro x hx
      by_cases hxy : x = y
      · subst hxy
        rw [hself] at hx
        refine h.online.mp ?_
        by_contra ho
        simp [ho] at hx
      · exact h.registered x (by rwa [hother x hxy] at hx)
    · intro x v hx hv
      by_cases hxy : x = y
      · subst hxy
        exact .inl (by simpa [Sys.act] using hv)
      · exact h.fresh x v (by rwa [hother x hxy] at hx) (by simpa [Sys.act, hxy] using hv)
  | clear y =>
    have hother : ∀ x, x ≠ y → (m.next (.clear y)).status x = m.status x := by
      intro x hx
      simp [Mode.next, hx]
    have hself : (m.next (.clear y)).status y = .null := by
      simp [Mode.next]
    refine ⟨h.online, ?_, ?_, ?_⟩
    · intro x hx
      by_cases hxy : x = y
      · simp [Sys.act, hxy]
      · simpa [Sys.act, hxy] using h.null x (by rwa [hother x hxy] at hx)
    · intro x hx
      by_cases hxy : x = y
      · subst hxy
        rw [hself] at hx
        cases hx
      · exact h.registered x (by rwa [hother x hxy] at hx)
    · intro x v hx hv
      by_cases hxy : x = y
      · subst hxy
        rw [hself] at hx
        cases hx
      · exact h.fresh x v (by rwa [hother x hxy] at hx) (by simpa [Sys.act, hxy] using hv)
  | read y => exact ⟨h.online, h.null, h.registered, h.fresh⟩

/-- What a fresh pointer points to has not been freed. -/
theorem Follows.not_freed {m : Mode X} (h : Follows s t m) (hk : Kept s) {x : X} {v : Nat}
    (hx : m.status x = .fresh) (hv : s.var t x = some v) : v ∉ s.freed := by
  rcases h.fresh x v hx hv with hp | ⟨hr, -⟩
  · exact (hk.published v hp).2.1
  · exact (hk.retired v hr).2

theorem Follows.fault_act {m : Mode X} (h : Follows s t m) (hk : Kept s) (ha : m.allows a)
    (hs : s.fault = false) : (s.act t a).fault = false := by
  cases a with
  | read y =>
    have hy : m.status y ≠ .stale := by simpa [Mode.allows] using ha
    suffices hv : ∀ v, s.var t y = some v → v ∉ s.freed by
      simpa [Sys.act, hs, Option.any_eq_false] using hv
    intro v hv
    cases hst : m.status y with
    | null => simp [h.null y hst] at hv
    | fresh => exact h.not_freed hk hst hv
    | stale => exact absurd hst hy
  | _ => exact hs

end Act

theorem tracks_init {D : T → Prop} {prog : T → List (Act X)}
    (h : ∀ t, D t → Disciplined Mode.init (prog t)) : Tracks D (Sys.init prog) fun _ => Mode.init where
  kept := ⟨by simp [Sys.init], by simp [Sys.init], by simp [Sys.init]⟩
  follows t := ⟨by simp [Mode.init, Sys.init], fun _ _ => rfl, by simp [Mode.init], by simp [Mode.init]⟩
  disciplined := h
  safe _ := rfl

namespace Tracks

variable {D : T → Prop} {s : Sys T X} {mode : T → Mode X} {grace : GracePeriod T}

/-- The version that was out is retired, and everybody who may hold it is waited for. -/
theorem publish (h : Tracks D s mode) : Tracks D (s.step grace .publish) mode := by
  by_cases hr : s.retired = none
  · simp only [Sys.step, hr, if_true]
    refine ⟨⟨?_, ?_, ?_⟩, fun t => ?_, h.disciplined, h.safe⟩
    · intro v hv
      obtain rfl : s.versions = v := by simpa using hv
      refine ⟨by simp, fun hf => absurd (h.kept.freed _ hf) (by simp), fun hp => ?_⟩
      exact absurd (h.kept.published _ hp).1 (by simp)
    · intro v hv
      obtain ⟨hlt, hf, -⟩ := h.kept.published v hv
      exact ⟨Nat.lt_succ_of_lt hlt, hf⟩
    · intro v hv
      exact Nat.lt_succ_of_lt (h.kept.freed v hv)
    · have ht := h.follows t
      refine ⟨ht.online, ht.null, ht.registered, ?_⟩
      intro x v hx hv
      rcases ht.fresh x v hx hv with hp | ⟨hr', -⟩
      · exact .inr ⟨hp, ht.registered x hx⟩
      · rw [hr] at hr'
        cases hr'
  · simpa only [Sys.step, hr, if_false] using h

/-- Nobody is waited for, so nobody holds the version that is freed. -/
theorem free (h : Tracks D s mode) : Tracks D (s.step grace .free) mode := by
  cases hr : s.retired with
  | none => simpa only [Sys.step, hr] using h
  | some old =>
    by_cases hw : grace.isOver s.waiting
    · simp only [Sys.step, hr, hw, if_true]
      refine ⟨⟨?_, ?_, ?_⟩, fun t => ?_, h.disciplined, h.safe⟩
      · intro v hv
        obtain ⟨hlt, hf, hne⟩ := h.kept.published v hv
        have hold : v ≠ old := by
          rintro rfl
          exact hne hr
        exact ⟨hlt, by simp [hold, hf], by simp⟩
      · intro v hv
        cases hv
      · intro v hv
        rcases List.mem_cons.mp hv with rfl | hv
        · exact (h.kept.retired v hr).1
        · exact h.kept.freed v hv
      · have ht := h.follows t
        refine ⟨ht.online, ht.null, ht.registered, ?_⟩
        intro x v hx hv
        rcases ht.fresh x v hx hv with hp | ⟨-, hwait⟩
        · exact .inl hp
        · simp [grace.waits hw] at hwait
    · simpa only [Sys.step, hr, hw, Bool.false_eq_true, if_false] using h

theorem thread (h : Tracks D s mode) {t : T} {a : Act X} {as : List (Act X)} (ht : s.todo t = a :: as) :
    Tracks D (s.step grace (.thread t)) (Function.update mode t ((mode t).next a)) := by
  have hd : D t → (mode t).allows a ∧ Disciplined ((mode t).next a) as := by
    intro hD
    have hd := h.disciplined t hD
    rw [ht] at hd
    simpa [Disciplined] using hd
  have hkept := h.kept.act (t := t) a
  have hsafe : (∀ t, D t) → (s.act t a).fault = false := fun hD =>
    (h.follows t).fault_act a h.kept (hd (hD t)).1 (h.safe hD)
  simp only [Sys.step, ht]
  refine ⟨⟨hkept.published, hkept.retired, hkept.freed⟩, fun u => ?_, fun u hD => ?_, hsafe⟩
  · by_cases hu : u = t
    · subst hu
      have := (h.follows u).act a
      rw [Function.update_self]
      exact ⟨this.online, this.null, this.registered, this.fresh⟩
    · have := (h.follows u).act_of_ne a hu
      rw [Function.update_of_ne hu]
      exact ⟨this.online, this.null, this.registered, this.fresh⟩
  · by_cases hu : u = t
    · subst hu
      simpa using (hd hD).2
    · simpa [hu] using h.disciplined u hD

theorem step (h : Tracks D s mode) (e : Event T) : ∃ mode', Tracks D (s.step grace e) mode' := by
  cases e with
  | publish => exact ⟨mode, h.publish⟩
  | free => exact ⟨mode, h.free⟩
  | thread t =>
    cases ht : s.todo t with
    | nil => exact ⟨mode, by simpa only [Sys.step, ht] using h⟩
    | cons a as => exact ⟨_, h.thread ht⟩

theorem run (grace : GracePeriod T) (h : Tracks D s mode) (es : List (Event T)) : ∃ mode', Tracks D (s.run grace es) mode' := by
  induction es generalizing s mode with
  | nil => exact ⟨mode, h⟩
  | cons e es ih =>
    obtain ⟨mode', h'⟩ := h.step e
    exact ih h'

end Tracks

variable {grace : GracePeriod T}

theorem safe_of_disciplined {prog : T → List (Act X)} (h : ∀ t, Disciplined Mode.init (prog t)) :
    Safe grace prog := by
  intro es
  obtain ⟨mode, hrun⟩ := (tracks_init (D := fun _ => True) fun t _ => h t).run grace es
  exact hrun.safe fun _ => trivial

/-! ### The versions that are in use -/

/-- The thread `t` is about to read the version `v`, through the variable `x`. -/
def Sys.AboutToRead (s : Sys T X) (t : T) (x : X) (v : Nat) : Prop :=
  s.var t x = some v ∧ ∃ as, s.todo t = .read x :: as

/-- The published version is the last one, and the one that is retired comes right before it. -/
structure Latest (s : Sys T X) : Prop where
  published : ∀ v, s.published = some v → v + 1 = s.versions
  retired : ∀ v, s.retired = some v → v + 2 = s.versions

theorem Latest.step {s : Sys T X} (h : Latest s) (e : Event T) : Latest (s.step grace e) := by
  cases e with
  | thread t =>
    cases ht : s.todo t with
    | nil => simpa only [Sys.step, ht] using h
    | cons a as =>
      simp only [Sys.step, ht]
      refine ⟨fun v hv => ?_, fun v hv => ?_⟩
      · cases a <;> exact h.published v hv
      · cases a <;> exact h.retired v hv
  | publish =>
    simp only [Sys.step]
    split
    · refine ⟨fun v hv => ?_, fun v hv => ?_⟩
      · rw [Option.some.inj hv]
      · show v + 2 = s.versions + 1
        rw [← h.published v hv]
    · exact h
  | free =>
    simp only [Sys.step]
    split
    · exact h
    · split
      · exact ⟨h.published, fun v hv => by cases hv⟩
      · exact h

theorem latest_run (grace : GracePeriod T) (prog : T → List (Act X)) (es : List (Event T)) :
    Latest ((Sys.init prog).run grace es) := by
  have hinit : Latest (Sys.init prog) := ⟨by simp [Sys.init], by simp [Sys.init]⟩
  induction es using List.reverseRecOn with
  | nil => exact hinit
  | append_singleton es e ih =>
    rw [Sys.run_append]
    exact ih.step e

/-- A disciplined thread reads one of the last two versions. -/
theorem version_of_aboutToRead {prog : T → List (Act X)} {t : T} (h : Disciplined Mode.init (prog t))
    {es : List (Event T)} {x : X} {v : Nat} (hread : ((Sys.init prog).run grace es).AboutToRead t x v) :
    v + 1 = ((Sys.init prog).run grace es).versions ∨ v + 2 = ((Sys.init prog).run grace es).versions := by
  have hinit : Tracks (fun u => u = t) (Sys.init prog) fun _ => Mode.init :=
    tracks_init fun u hu => hu ▸ h
  obtain ⟨mode, htracks⟩ := hinit.run grace es
  have hlatest := latest_run grace prog es
  obtain ⟨hvar, as, htodo⟩ := hread
  have hd := htracks.disciplined t rfl
  rw [htodo, Disciplined, Bool.and_eq_true] at hd
  have hstale : (mode t).status x ≠ .stale := by simpa [Mode.allows] using hd.1
  have hfollows := htracks.follows t
  cases hst : (mode t).status x with
  | null => simp [hfollows.null x hst] at hvar
  | stale => exact absurd hst hstale
  | fresh =>
    rcases hfollows.fresh x v hst hvar with hp | ⟨hr, -⟩
    · exact .inl (hlatest.published v hp)
    · exact .inr (hlatest.retired v hr)

/-- **Two disciplined threads that are about to read hold the same version, or one after the
    other.** -/
theorem adjacent_of_aboutToRead {prog : T → List (Act X)} {t u : T}
    (ht : Disciplined Mode.init (prog t)) (hu : Disciplined Mode.init (prog u)) {es : List (Event T)}
    {x y : X} {v w : Nat} (hv : ((Sys.init prog).run grace es).AboutToRead t x v)
    (hw : ((Sys.init prog).run grace es).AboutToRead u y w) : v = w ∨ v + 1 = w ∨ w + 1 = v := by
  have hv := version_of_aboutToRead ht hv
  have hw := version_of_aboutToRead hu hw
  omega

/-- Versions come and go while no thread has started. -/
theorem run_rounds (grace : GracePeriod T) (prog : T → List (Act X)) (v : Nat) :
    ∃ es : List (Event T), ((Sys.init prog).run grace es).versions = v
      ∧ ((Sys.init prog).run grace es).retired = none ∧ ((Sys.init prog).run grace es).registry = []
      ∧ ((Sys.init prog).run grace es).todo = prog := by
  induction v with
  | zero => exact ⟨[], rfl, rfl, rfl, rfl⟩
  | succ v ih =>
    obtain ⟨es, hversions, hretired, hregistry, htodo⟩ := ih
    refine ⟨es ++ [.publish, .free], ?_⟩
    rw [Sys.run_append]
    generalize (Sys.init prog).run grace es = s at hversions hretired hregistry htodo
    cases hpub : s.published with
    | none => simp [Sys.step, hversions, hretired, hregistry, htodo, hpub]
    | some w => simp [Sys.step, grace.ends, hversions, hretired, hregistry, htodo, hpub]

/-- Two threads that start with a read can be brought to hold any version and the next one. -/
theorem exists_aboutToRead (grace : GracePeriod T) {prog : T → List (Act X)} {t u : T}
    (htu : t ≠ u) {x y : X} {as bs : List (Act X)}
    (ht : prog t = .register :: .deref x :: .read x :: as)
    (hu : prog u = .register :: .deref y :: .read y :: bs) (v : Nat) :
    ∃ es, ((Sys.init prog).run grace es).AboutToRead t x v
      ∧ ((Sys.init prog).run grace es).AboutToRead u y (v + 1)
      ∧ ((Sys.init prog).run grace es).versions = v + 2 := by
  obtain ⟨es, hversions, hretired, hregistry, htodo⟩ := run_rounds grace prog v
  refine ⟨es ++ [.publish, .free, .thread t, .thread t, .publish, .thread u, .thread u], ?_⟩
  rw [Sys.run_append]
  generalize (Sys.init prog).run grace es = s at hversions hretired hregistry htodo
  cases hpub : s.published with
  | none =>
    simp [Sys.step, Sys.act, Sys.AboutToRead, hversions, hretired, hregistry, htodo, hpub, ht, hu,
      htu, htu.symm]
  | some w =>
    simp [Sys.step, Sys.act, Sys.AboutToRead, grace.ends, hversions, hretired, hregistry, htodo,
      hpub, ht, hu, htu, htu.symm]

/-! ## 4. Without discipline some interleaving goes wrong

The thread is run by itself until it has taken the pointer that it reads later. Then the next version
is published, the thread goes on through the state that ends the grace period, and the old version is
freed before the read. -/

/-- The action puts something else into `x`. -/
def Act.sets (x : X) : Act X → Bool
  | .deref y => x = y
  | .clear y => x = y
  | _ => false

/-- Where a pointer that is not null was taken, and how it grew stale since. -/
theorem exists_deref {m : Mode X} {as : List (Act X)} {x : X} (hm : m.status x = .null)
    (h : (m.after as).status x ≠ .null) :
    ∃ pre mid, as = pre ++ .deref x :: mid ∧ (∀ a ∈ mid, a.sets x = false) ∧
      ((m.after as).status x = .stale →
        (m.after pre).online = false ∨ .quiescent ∈ mid ∨ .unregister ∈ mid) := by
  induction as using List.reverseRecOn with
  | nil => exact absurd hm h
  | append_singleton as a ih =>
    rw [Mode.after_append, Mode.after_cons, Mode.after_nil] at h ⊢
    cases hset : a.sets x with
    | true =>
      cases a with
      | deref y =>
        obtain rfl : x = y := by simpa [Act.sets] using hset
        refine ⟨as, [], rfl, by simp, fun hs => .inl ?_⟩
        by_contra ho
        simp [Mode.next, ho] at hs
      | clear y =>
        obtain rfl : x = y := by simpa [Act.sets] using hset
        simp [Mode.next] at h
      | _ => simp [Act.sets] at hset
    | false =>
      -- the status was there before, and only these two make it stale
      have hprev : (m.after as).status x ≠ .null := by
        intro hnull
        cases a with
        | deref y => exact h (by simpa [Mode.next, show x ≠ y by simpa [Act.sets] using hset] using hnull)
        | clear y => exact h (by simpa [Mode.next, show x ≠ y by simpa [Act.sets] using hset] using hnull)
        | _ => exact h (by simp [Mode.next, hnull, Status.expire])
      obtain ⟨pre, mid, rfl, hmid, hstale⟩ := ih hprev
      refine ⟨pre, mid ++ [a], by simp, ?_, fun hs => ?_⟩
      · intro b hb
        rcases List.mem_append.mp hb with hb | hb
        · exact hmid b hb
        · rwa [List.mem_singleton.mp hb]
      · have hmore : (m.after (pre ++ .deref x :: mid)).status x = .stale →
            (m.after pre).online = false ∨ .quiescent ∈ mid ++ [a] ∨ .unregister ∈ mid ++ [a] := by
          intro h
          rcases hstale h with h | h | h <;> simp [h]
        cases a with
        | quiescent => simp
        | unregister => simp
        | register => exact hmore hs
        | read y => exact hmore hs
        | deref y => exact hmore (by simpa [Mode.next, show x ≠ y by simpa [Act.sets] using hset] using hs)
        | clear y => exact hmore (by simpa [Mode.next, show x ≠ y by simpa [Act.sets] using hset] using hs)

namespace Sys

/-- The thread `t` by itself. -/
def acts (s : Sys T X) (t : T) (as : List (Act X)) : Sys T X := as.foldl (fun s a => s.act t a) s

variable {s : Sys T X} {t : T} {as : List (Act X)}

@[simp] theorem acts_nil : s.acts t [] = s := rfl

@[simp] theorem acts_cons (a : Act X) : s.acts t (a :: as) = (s.act t a).acts t as := rfl

theorem acts_append (bs : List (Act X)) : s.acts t (as ++ bs) = (s.acts t as).acts t bs := by
  apply List.foldl_append

theorem acts_withTodo (todo : T → List (Act X)) :
    { s with todo := todo }.acts t as = { s.acts t as with todo := todo } := by
  induction as generalizing s with
  | nil => rfl
  | cons a as ih =>
    have ha : { s with todo := todo }.act t a = { s.act t a with todo := todo } := by
      cases a <;> rfl
    rw [acts_cons, acts_cons, ha, ih]

theorem run_alone (grace : GracePeriod T) {bs : List (Act X)} (h : s.todo t = as ++ bs) :
    s.run grace (List.replicate as.length (.thread t))
      = { s.acts t as with todo := Function.update s.todo t bs } := by
  induction as generalizing s with
  | nil =>
    have : Function.update s.todo t bs = s.todo := by
      rw [← show s.todo t = bs from h, Function.update_eq_self]
    rw [this]
    rfl
  | cons a as ih =>
    rw [List.length_cons, List.replicate_succ, run_cons]
    simp only [step, h, List.cons_append]
    rw [ih (by simp), acts_withTodo, acts_cons]
    simp

@[simp] theorem published_acts : (s.acts t as).published = s.published := by
  induction as generalizing s with
  | nil => rfl
  | cons a as ih => simp [ih]

@[simp] theorem retired_acts : (s.acts t as).retired = s.retired := by
  induction as generalizing s with
  | nil => rfl
  | cons a as ih => simp [ih]

@[simp] theorem freed_acts : (s.acts t as).freed = s.freed := by
  induction as generalizing s with
  | nil => rfl
  | cons a as ih => simp [ih]

theorem var_acts {x : X} (h : ∀ a ∈ as, a.sets x = false) : (s.acts t as).var t x = s.var t x := by
  induction as generalizing s with
  | nil => rfl
  | cons a as ih =>
    have ha : (s.act t a).var t x = s.var t x := by
      have hset := h a List.mem_cons_self
      cases a with
      | deref y => simp [act, show x ≠ y by simpa [Act.sets] using hset]
      | clear y => simp [act, show x ≠ y by simpa [Act.sets] using hset]
      | _ => rfl
    rw [acts_cons, ih fun b hb => h b (List.mem_cons_of_mem _ hb), ha]

theorem registry_acts (h : ∀ u ∈ s.registry, u = t) : ∀ u ∈ (s.acts t as).registry, u = t := by
  induction as generalizing s with
  | nil => exact h
  | cons a as ih =>
    refine ih ?_
    cases a with
    | register =>
      intro u hu
      rcases List.mem_cons.mp hu with rfl | hu
      · rfl
      · exact h u hu
    | unregister =>
      intro u hu
      exact h u (List.mem_filter.mp hu).1
    | _ => exact h

/-- The grace period that waits for `t` only is over once `t` has answered. -/
theorem waiting_acts (h : ∀ u ∈ s.waiting, u = t)
    (hq : s.waiting = [] ∨ .quiescent ∈ as ∨ .unregister ∈ as) : (s.acts t as).waiting = [] := by
  induction as generalizing s with
  | nil => simpa using hq
  | cons a as ih =>
    have hnil : s.waiting.filter (· ≠ t) = [] := by
      rw [List.filter_eq_nil_iff]
      intro u hu
      simp [h u hu]
    cases a with
    | quiescent => exact ih (fun u hu => h u (List.mem_filter.mp hu).1) (.inl hnil)
    | unregister => exact ih (fun u hu => h u (List.mem_filter.mp hu).1) (.inl hnil)
    | _ => exact ih h (by simpa [act] using hq)

end Sys

theorem Follows.acts {s : Sys T X} {t : T} {m : Mode X} (h : Follows s t m) (as : List (Act X)) :
    Follows (s.acts t as) t (m.after as) := by
  induction as generalizing s m with
  | nil => exact h
  | cons a as ih => exact ih (h.act a)

theorem disciplined_of_safe {prog : T → List (Act X)} (h : Safe grace prog) (t : T) :
    Disciplined Mode.init (prog t) := by
  by_contra hnot
  obtain ⟨as, x, post, hprog, hstale⟩ := exists_of_not_disciplined hnot
  obtain ⟨pre, mid, rfl, hmid, hquiet⟩ :=
    exists_deref (m := Mode.init) (x := x) rfl (by rw [hstale]; simp)
  -- up to the dereference, by itself
  let s₁ := (Sys.init prog).step grace .publish
  let s₂ := s₁.acts t (pre ++ [.deref x])
  have hs₁ : s₁.published = some 0 ∧ s₁.retired = none ∧ s₁.registry = [] := ⟨rfl, rfl, rfl⟩
  have htodo₁ : s₁.todo t = (pre ++ [.deref x]) ++ (mid ++ .read x :: post) := by
    simpa [s₁, Sys.step, Sys.init] using hprog
  have hrun₂ := Sys.run_alone grace htodo₁
  have hvar₂ : s₂.var t x = some 0 := by
    simp [s₂, Sys.acts_append, Sys.act, hs₁]
  have hreg₂ : ∀ u ∈ s₂.registry, u = t := Sys.registry_acts (by simp [hs₁])
  -- the next version, and the thread goes on to the read
  let s₃ := { s₂ with todo := Function.update s₁.todo t (mid ++ Act.read x :: post) }.step grace .publish
  have hs₃ : s₃.retired = some 0 ∧ s₃.waiting = s₂.registry ∧ s₃.var = s₂.var := by
    simp [s₃, s₂, Sys.step, hs₁]
  have htodo₃ : s₃.todo t = mid ++ (.read x :: post) := by
    simp [s₃, s₂, Sys.step, hs₁]
  have hrun₃ := Sys.run_alone grace htodo₃
  have hwait : (s₃.acts t mid).waiting = [] := by
    refine Sys.waiting_acts (by rwa [hs₃.2.1]) ?_
    rcases hquiet hstale with hoff | hq
    · refine .inl ?_
      have hfollow : Follows s₂ t (Mode.init.after (pre ++ [.deref x])) := by
        have h₁ : Follows s₁ t Mode.init := ⟨by simp [Mode.init, hs₁], fun _ _ => rfl,
          by simp [Mode.init], by simp [Mode.init]⟩
        exact h₁.acts _
      have hoff₂ : t ∉ s₂.registry := by
        rw [← hfollow.online, Mode.after_append]
        simp [Mode.next, hoff]
      rw [hs₃.2.1, List.eq_nil_iff_forall_not_mem]
      intro u hu
      exact hoff₂ (hreg₂ u hu ▸ hu)
    · exact .inr hq
  -- freed, and read
  have hfault := h (.publish :: (List.replicate (pre ++ [Act.deref x]).length (.thread t)
    ++ .publish :: (List.replicate mid.length (.thread t) ++ [.free, .thread t])))
  rw [Sys.run_cons, Sys.run_append, hrun₂, Sys.run_cons, Sys.run_append, hrun₃] at hfault
  simp [Sys.step, hs₃, hwait, grace.ends, Sys.act, Sys.var_acts hmid, hvar₂] at hfault

/-- **Some interleaving reads what has been freed exactly when some thread is not disciplined.** -/
theorem safe_iff_disciplined {prog : T → List (Act X)} :
    Safe grace prog ↔ ∀ t, Disciplined Mode.init (prog t) :=
  ⟨disciplined_of_safe, safe_of_disciplined⟩

/-! ## 5. Threads that run others a slice at a time -/

section Slices

variable {L : Type} [DecidableEq L]

/-- The actions of a thread that for each entry of `sched` runs the next slice of that one. -/
def sliced (progs : L → List (List (Act X))) : List L → List (Act X)
  | [] => []
  | l :: sched =>
    match progs l with
    | [] => sliced progs sched
    | slice :: rest => slice ++ sliced (Function.update progs l rest) sched

/-- What a library promises that runs threads of its own on one thread. -/
structure Scheduler (L X : Type) [DecidableEq L] where
  Runs : (L → List (List (Act X))) → List (Act X) → Prop
  /-- Nothing is interrupted but where it gives way, -/
  cooperative : ∀ {progs : L → List (List (Act X))} {acts : List (Act X)}, Runs progs acts →
    ∃ sched, acts = sliced progs sched
  /-- and then any of them may be the next. -/
  any : ∀ (progs : L → List (List (Act X))) (sched : List L), Runs progs (sliced progs sched)

instance : Inhabited (Scheduler L X) :=
  ⟨⟨fun progs acts => ∃ sched, acts = sliced progs sched, id, fun _ sched => ⟨sched, rfl⟩⟩⟩

/-- A program is cut into slices where it gives way (`none`). -/
def cut : List (Option (Act X)) → List (List (Act X))
  | [] => [[]]
  | none :: steps => [] :: cut steps
  | some a :: steps =>
    match cut steps with
    | [] => [[a]]
    | slice :: rest => (a :: slice) :: rest

/-- Registered, and nothing that was taken is safe any more. -/
def Mode.resumed : Mode X := ⟨true, fun _ => .stale⟩

/-- The action leaves the registration alone. -/
def Act.inside (a : Act X) : Bool := a ≠ .register && a ≠ .unregister

/-- A slice that relies on nothing that was taken before it. -/
def Standalone (slice : List (Act X)) : Bool := slice.all Act.inside && Disciplined Mode.resumed slice

/-- From the mode `m` on, and from `resumed` on wherever the program has given way. -/
def Resumable (m : Mode X) : List (Option (Act X)) → Bool
  | [] => true
  | none :: steps => Resumable Mode.resumed steps
  | some a :: steps => a.inside && m.allows a && Resumable (m.next a) steps

/-- How much can go wrong with a pointer. -/
def Status.risk : Status → Nat
  | .null => 0
  | .fresh => 1
  | .stale => 2

theorem Status.risk_expire {s s' : Status} (h : s.risk ≤ s'.risk) : s.expire.risk ≤ s'.expire.risk := by
  cases s <;> cases s' <;> simp [risk, expire] at h ⊢

theorem Status.risk_le_two (s : Status) : s.risk ≤ 2 := by
  cases s <;> simp [risk]

structure Mode.Safer (m m' : Mode X) : Prop where
  online : m.online = m'.online
  risk : ∀ x, (m.status x).risk ≤ (m'.status x).risk

theorem Mode.safer_resumed {m : Mode X} (hm : m.online) : m.Safer Mode.resumed :=
  ⟨hm, fun _ => Status.risk_le_two _⟩

theorem Mode.Safer.allows {m m' : Mode X} (h : m.Safer m') {a : Act X} (ha : m'.allows a) :
    m.allows a := by
  cases a with
  | read x =>
    have hx := h.risk x
    simp only [Mode.allows, ne_eq, decide_eq_true_eq] at ha ⊢
    intro hs
    rw [hs] at hx
    cases hs' : m'.status x with
    | stale => exact ha hs'
    | _ => simp [hs', Status.risk] at hx
  | _ => rfl

theorem Mode.Safer.next {m m' : Mode X} (h : m.Safer m') (a : Act X) : (m.next a).Safer (m'.next a) := by
  cases a with
  | register => exact ⟨rfl, h.risk⟩
  | unregister => exact ⟨rfl, fun x => Status.risk_expire (h.risk x)⟩
  | quiescent => exact ⟨h.online, fun x => Status.risk_expire (h.risk x)⟩
  | deref y =>
    refine ⟨h.online, fun x => ?_⟩
    by_cases hx : x = y
    · simp [Mode.next, hx, h.online]
    · simpa [Mode.next, hx] using h.risk x
  | clear y =>
    refine ⟨h.online, fun x => ?_⟩
    by_cases hx : x = y
    · simp [Mode.next, hx]
    · simpa [Mode.next, hx] using h.risk x
  | read y => exact h

/-- What is disciplined from a mode is so from one with less at risk. -/
theorem Mode.Safer.disciplined {m m' : Mode X} (h : m.Safer m') {as : List (Act X)}
    (hd : Disciplined m' as) : Disciplined m as := by
  induction as generalizing m m' with
  | nil => rfl
  | cons a as ih =>
    obtain ⟨hallow, hrest⟩ : m'.allows a ∧ Disciplined (m'.next a) as := by
      simpa [Disciplined] using hd
    simp [Disciplined, h.allows hallow, ih (h.next a) hrest]

theorem Mode.online_after {as : List (Act X)} (h : as.all Act.inside) (m : Mode X) :
    (m.after as).online = m.online := by
  induction as generalizing m with
  | nil => rfl
  | cons a as ih =>
    obtain ⟨ha, has⟩ : a.inside ∧ as.all Act.inside := by simpa using h
    rw [after_cons, ih has]
    cases a with
    | register => simp [Act.inside] at ha
    | unregister => simp [Act.inside] at ha
    | _ => rfl

/-- **Slices that stand alone may be run in any order.** -/
theorem disciplined_sliced {progs : L → List (List (Act X))}
    (h : ∀ l, ∀ slice ∈ progs l, Standalone slice) {m : Mode X} (hm : m.online) (sched : List L) :
    Disciplined m (sliced progs sched) := by
  induction sched generalizing progs m with
  | nil => rfl
  | cons l sched ih =>
    cases hl : progs l with
    | nil =>
      simp only [sliced, hl]
      exact ih h hm
    | cons slice rest =>
      simp only [sliced, hl]
      obtain ⟨hin, hd⟩ : slice.all Act.inside ∧ Disciplined Mode.resumed slice := by
        simpa [Standalone] using h l slice (by simp [hl])
      rw [disciplined_append]
      refine ⟨(Mode.safer_resumed hm).disciplined hd, ih ?_ (by rw [Mode.online_after hin, hm])⟩
      intro l' slice' hmem
      by_cases hl' : l' = l
      · subst hl'
        rw [Function.update_self] at hmem
        exact h l' slice' (by simp [hl, hmem])
      · rw [Function.update_of_ne hl'] at hmem
        exact h l' slice' hmem

/-- The first slices of one program, run one after the other. -/
theorem sliced_replicate {progs : L → List (List (Act X))} {l : L} {slices rest : List (List (Act X))}
    (h : progs l = slices ++ rest) (sched : List L) :
    sliced progs (List.replicate slices.length l ++ sched)
      = slices.flatten ++ sliced (Function.update progs l rest) sched := by
  induction slices generalizing progs with
  | nil =>
    have : Function.update progs l rest = progs := by
      rw [← show progs l = rest from h, Function.update_eq_self]
    rw [this]
    rfl
  | cons slice slices ih =>
    have hrest := ih (Function.update_self l (slices ++ rest) progs)
    simp only [List.length_cons, List.replicate_succ, List.cons_append, sliced, h, hrest]
    simp

/-- All of one program between two parts of another. -/
theorem sliced_between {progs : L → List (List (Act X))} {l o : L} (ho : o ≠ l)
    {pre rest others : List (List (Act X))} (hl : progs l = pre ++ rest) (hother : progs o = others) :
    sliced progs (List.replicate pre.length l
      ++ (List.replicate others.length o ++ (List.replicate rest.length l ++ [])))
      = pre.flatten ++ (others.flatten ++ rest.flatten) := by
  have ho' : Function.update progs l rest o = others ++ [] := by simp [ho, hother]
  have hl' : Function.update (Function.update progs l rest) o [] l = rest ++ [] := by
    simp [ho.symm]
  rw [sliced_replicate hl, sliced_replicate ho', sliced_replicate hl']
  simp [sliced]

/-! ### Where a program gives way -/

theorem cut_ne_nil (steps : List (Option (Act X))) : cut steps ≠ [] := by
  cases steps with
  | nil => simp [cut]
  | cons step steps =>
    cases step with
    | none => simp [cut]
    | some a =>
      rw [cut]
      split <;> simp

theorem cut_append_none (pre post : List (Option (Act X))) :
    cut (pre ++ none :: post) = cut pre ++ cut post := by
  induction pre with
  | nil => rfl
  | cons step pre ih =>
    cases step with
    | none => simp [cut, ih]
    | some a =>
      simp only [List.cons_append, cut, ih]
      cases hpre : cut pre with
      | nil => exact absurd hpre (cut_ne_nil pre)
      | cons slice rest => rfl

theorem flatten_cut (steps : List (Option (Act X))) : (cut steps).flatten = steps.reduceOption := by
  induction steps with
  | nil => rfl
  | cons step steps ih =>
    cases step with
    | none => simpa [cut] using ih
    | some a =>
      simp only [cut, List.reduceOption_cons_of_some, ← ih]
      cases cut steps <;> rfl

theorem exists_cut {m : Mode X} {steps : List (Option (Act X))} (h : Resumable m steps) :
    ∃ slice rest, cut steps = slice :: rest ∧ slice.all Act.inside ∧ Disciplined m slice ∧
      ∀ s ∈ rest, Standalone s := by
  induction steps generalizing m with
  | nil => exact ⟨[], [], rfl, rfl, rfl, by simp⟩
  | cons step steps ih =>
    cases step with
    | none =>
      obtain ⟨slice, rest, hcut, hin, hd, hrest⟩ := ih (show Resumable Mode.resumed steps from h)
      refine ⟨[], slice :: rest, by rw [cut, hcut], rfl, rfl, ?_⟩
      intro s hs
      rcases List.mem_cons.mp hs with rfl | hs
      · rw [Standalone, hin, hd]
        rfl
      · exact hrest s hs
    | some a =>
      obtain ⟨⟨ha, hallow⟩, hsteps⟩ : (a.inside ∧ m.allows a) ∧ Resumable (m.next a) steps := by
        simpa [Resumable] using h
      obtain ⟨slice, rest, hcut, hin, hd, hrest⟩ := ih hsteps
      refine ⟨a :: slice, rest, by simp only [cut, hcut], ?_, ?_, hrest⟩
      · rw [List.all_cons, ha, hin]
        rfl
      · rw [Disciplined, hallow, hd]
        rfl

/-- Up to where the program gives way next. -/
theorem resumable_append {m : Mode X} {as : List (Act X)} {steps : List (Option (Act X))} :
    Resumable m (as.map some ++ steps)
      ↔ as.all Act.inside ∧ Disciplined m as ∧ Resumable (m.after as) steps := by
  induction as generalizing m with
  | nil => simp [Disciplined]
  | cons a as ih =>
    simp only [List.map_cons, List.cons_append, Resumable, Bool.and_eq_true, ih, List.all_cons,
      Disciplined, Mode.after_cons]
    tauto

/-- Programs that can each be resumed, one after the other. -/
theorem resumable_flatMap {α : Type} {f : α → List (Option (Act X))} {l : List α}
    (hf : ∀ a ∈ l, ∀ steps, (∀ m, Resumable m steps) → ∀ m, Resumable m (f a ++ steps))
    (m : Mode X) : Resumable m (l.flatMap f) := by
  induction l generalizing m with
  | nil => rfl
  | cons a l ih =>
    rw [List.flatMap_cons]
    exact hf a List.mem_cons_self _ (ih fun b hb => hf b (List.mem_cons_of_mem _ hb)) m

/-- A program that gives way and then stands alone up to where it gives way again. -/
theorem resumable_turn {as : List (Act X)} (h : Standalone as) {steps : List (Option (Act X))}
    (hsteps : ∀ m, Resumable m steps) (m : Mode X) :
    Resumable m (none :: (as.map some ++ steps)) := by
  obtain ⟨hin, hd⟩ : as.all Act.inside ∧ Disciplined Mode.resumed as := by
    simpa [Standalone] using h
  exact resumable_append.mpr ⟨hin, hd, hsteps _⟩

/-- A program that can be resumed stands alone slice by slice. -/
theorem standalone_of_mem_cut {steps : List (Option (Act X))} (h : Resumable Mode.resumed steps)
    {slice : List (Act X)} (hs : slice ∈ cut steps) : Standalone slice := by
  obtain ⟨first, rest, hcut, hin, hd, hrest⟩ := exists_cut h
  rw [hcut] at hs
  rcases List.mem_cons.mp hs with rfl | hs
  · rw [Standalone, hin, hd]
    rfl
  · exact hrest slice hs

/-- A pointer that has been taken does not become null by itself. -/
theorem Mode.status_after_ne_null {m : Mode X} {x : X} (hx : m.status x ≠ .null) {as : List (Act X)}
    (hset : ∀ a ∈ as, a.sets x = false) : (m.after as).status x ≠ .null := by
  induction as generalizing m with
  | nil => exact hx
  | cons a as ih =>
    refine ih ?_ fun b hb => hset b (List.mem_cons_of_mem _ hb)
    have ha := hset a List.mem_cons_self
    cases a with
    | deref y => simpa [next, show x ≠ y by simpa [Act.sets] using ha] using hx
    | clear y => simpa [next, show x ≠ y by simpa [Act.sets] using ha] using hx
    | _ => simpa [next, Status.expire_eq_null] using hx

/-- A stale pointer that is read before anything else is put into it. -/
theorem not_disciplined_of_stale {m : Mode X} {x : X} (hx : m.status x = .stale)
    {as bs : List (Act X)} (hset : ∀ a ∈ as, a.sets x = false) (hread : .read x ∈ as) :
    ¬ Disciplined m (as ++ bs) := by
  induction as generalizing m with
  | nil => simp at hread
  | cons a as ih =>
    rcases List.mem_cons.mp hread with rfl | hread
    · simp [Disciplined, Mode.allows, hx]
    · have ha := hset a List.mem_cons_self
      have hnext : (m.next a).status x = .stale := by
        cases a with
        | deref y => simpa [Mode.next, show x ≠ y by simpa [Act.sets] using ha] using hx
        | clear y => simpa [Mode.next, show x ≠ y by simpa [Act.sets] using ha] using hx
        | _ => simp [Mode.next, hx, Status.expire]
      have hrest := ih hnext (fun b hb => hset b (List.mem_cons_of_mem _ hb)) hread
      simp [Disciplined, hrest]

end Slices

end Lib.Qsbr
