import SdPlane.Lib.Qsbr

/-!
# Who holds a version of the rib, and when it is freed

`rib_replace` publishes a version and frees the one before after `urcu_qsbr_synchronize_rcu`. The
threads that read the rib take the published version into a pointer of their own at the head of each
turn of their loop, and call `urcu_qsbr_quiescent_state` at its end. The forwarding functions have an
lcore to themselves. The shells share one: on the core of `lthread_main` they run as lthreads, and
each gives way to the others wherever it calls `lthread_sleep`. What they share is not only the core,
but its registration and the pointer `rib_tlocal`.

A shell that reads its input runs every command line that has come in before it lets go of the
version. Some commands sleep. `rib_reads_live_iff` says what that costs: **no thread ever reads a
freed version, whatever the interleaving of the lcores, the lthreads and the rib manager, exactly
when no shell has a command that reads the rib behind one that sleeps** in the same turn.

Only the actions on the pointers and on the registration are kept of the loops, with the number of
times that a turn reads. The threads are followed until `force_quit`, the lthreads from the end of
`startup_config` on. Neither liburcu nor the lthread library is at hand. They come in as a
`GracePeriod` and a `Scheduler`, of which no more is known than what they promise.
-/

set_option autoImplicit false

namespace SdPlane

open Lib.Qsbr

/-! ## 1. The loops -/

/-- The functions that have a `struct rib *rib` of their own. -/
inductive Reader
  | dhcpServer
  | enhancedRepeater
  | l2Repeater
  | l2Switch
  | l3TapHandler
  | nettlpThread
  | router
  | srv6Router
  | tapHandler
  | vlanSwitch
  deriving DecidableEq

/-- The pointers to a version of the rib. All of them are `__thread`. -/
inductive RibPtr
  | rib (r : Reader)
  | ribTlocal
  deriving DecidableEq

/-- One turn of the loop of `r`, which reads the rib `n` times. -/
def Reader.turn (r : Reader) (n : Nat) : List (Act RibPtr) :=
  .deref (.rib r) :: (List.replicate n (.read (.rib r)) ++ [.quiescent])

/-- What is started on an lcore, with the number of reads in each turn. -/
inductive Worker
  | reader (r : Reader) (turns : List Nat)
  | netlinkThread (turns : Nat)

/-- From `urcu_qsbr_register_thread` to `urcu_qsbr_unregister_thread`. -/
def Worker.acts : Worker → List (Act RibPtr)
  | .reader r turns => .register :: (turns.flatMap r.turn ++ [.unregister])
  | .netlinkThread turns => .register :: (List.replicate turns .quiescent ++ [.unregister])

/-- An lcore runs one worker after another, as they are started and stopped. -/
def lcoreActs (workers : List Worker) : List (Act RibPtr) := workers.flatMap Worker.acts

/-! ## 2. The shells -/

/-- The commands, by what they do to `rib_tlocal` and to the schedule. -/
inductive ShellCommand
  /-- One of those that start with `struct rib *rib = rib_tlocal`. -/
  | withRib (reads : Nat)
  | sleepCmd (sec : Nat)
  /-- `set worker lthread` of the rib manager, the neighbour manager or the DHCP server, which
      gives way once for the new lthread to start. -/
  | setWorkerLthread
  | other

def ShellCommand.sleeps : ShellCommand → Bool
  | .sleepCmd _ => true
  | .setWorkerLthread => true
  | _ => false

def ShellCommand.readsRib : ShellCommand → Bool
  | .withRib reads => reads ≠ 0
  | _ => false

/-- The steps of one command: `none` is a call of `lthread_sleep`. -/
def ShellCommand.steps : ShellCommand → List (Option (Act RibPtr))
  | .withRib reads => List.replicate reads (some (.read .ribTlocal))
  | .sleepCmd sec => if sec > 0 then List.replicate sec none else [none]
  | .setWorkerLthread => [none]
  | .other => []

/-- One turn of `console_shell` or `vty_shell`, with the command lines that it finds in its input. -/
def shellTurn (script : List ShellCommand) : List (Option (Act RibPtr)) :=
  none :: some (.deref .ribTlocal) ::
    (script.flatMap ShellCommand.steps ++ [some (.clear .ribTlocal), some .quiescent])

/-- What runs on the core of `lthread_main`. -/
inductive Lthread
  | shell (turns : List (List ShellCommand))
  | vtyServer (turns : Nat)
  | netlinkThread (turns : Nat)
  /-- The rib manager, with the number of versions that each turn publishes. To wait in
      `urcu_qsbr_synchronize_rcu` is to be quiescent for one's own thread. -/
  | ribManager (turns : List Nat)
  /-- `l3_tap_handler` or `dhcp_server`. -/
  | reader (r : Reader) (turns : List Nat)

def Lthread.steps : Lthread → List (Option (Act RibPtr))
  | .shell turns => turns.flatMap shellTurn
  | .vtyServer turns => (List.replicate turns [none, some .quiescent]).flatten
  | .netlinkThread turns => (List.replicate turns [none, some .quiescent]).flatten
  | .ribManager turns => turns.flatMap fun n => none :: List.replicate n (some .quiescent)
  | .reader r turns => turns.flatMap fun n => none :: (r.turn n).map some

/-- The loop of `lthread_main` itself. -/
def lthreadMainSteps (turns : Nat) : List (Option (Act RibPtr)) :=
  (List.replicate turns [none, some .quiescent]).flatten

variable {C L : Type} [DecidableEq C] [DecidableEq L]

/-- What the core of `lthread_main` has to run: its own loop, `none`, and the lthreads. -/
def lthreadSlices (lthreads : L → Lthread) (turns : Nat) : Option L → List (List (Act RibPtr))
  | none => cut (lthreadMainSteps turns)
  | some l => cut (lthreads l).steps

/-- The core registers its thread, and then the lthreads run as the lthread library has it. -/
def LthreadCore (lthread : Scheduler (Option L) RibPtr) (lthreads : L → Lthread) (turns : Nat)
    (acts : List (Act RibPtr)) : Prop :=
  ∃ ran, lthread.Runs (lthreadSlices lthreads turns) ran ∧ acts = .register :: ran

/-- The threads: the lcores of the workers and, `none`, that of `lthread_main`. -/
def ribThreads (workers : C → List Worker) (main : List (Act RibPtr)) : Option C → List (Act RibPtr)
  | some c => lcoreActs (workers c)
  | none => main

/-- No command that reads the rib comes behind one that sleeps. -/
def keepsSection : List ShellCommand → Bool
  | [] => true
  | c :: cs => if c.sleeps then cs.all (!·.readsRib) else keepsSection cs

/-! ## 3. The workers keep their discipline -/

theorem Reader.disciplined_turn (r : Reader) (n : Nat) {m : Mode RibPtr} (hm : m.online) :
    Disciplined m (r.turn n) ∧ (m.after (r.turn n)).online := by
  obtain ⟨hd, ha⟩ := disciplined_reads (m := m.next (.deref (.rib r))) (x := .rib r)
    (by simp [Mode.next, hm]) n
  have hturn : Disciplined m (r.turn n) := by
    rw [turn, Disciplined, Bool.and_eq_true, disciplined_append, ha]
    exact ⟨rfl, hd, rfl⟩
  refine ⟨hturn, ?_⟩
  rw [turn, Mode.after_cons, Mode.after_append, ha]
  exact hm

theorem Worker.disciplined (w : Worker) (m : Mode RibPtr) : Disciplined m w.acts := by
  cases w with
  | reader r turns =>
    have hturns := disciplined_flatMap (fun m => m.online) (fun n _ hm => r.disciplined_turn n hm)
      turns (m := m.next .register) rfl
    rw [acts, Disciplined, Bool.and_eq_true, disciplined_append]
    exact ⟨rfl, hturns.1, rfl⟩
  | netlinkThread turns =>
    rw [acts, Disciplined, Bool.and_eq_true, disciplined_append]
    exact ⟨rfl, disciplined_quiescents _ _, rfl⟩

theorem disciplined_lcoreActs (workers : List Worker) (m : Mode RibPtr) :
    Disciplined m (lcoreActs workers) :=
  (disciplined_flatMap (fun _ => True) (fun w m _ => ⟨w.disciplined m, trivial⟩) workers trivial).1

/-! ## 4. The lthreads -/

theorem Reader.standalone_turn (r : Reader) (n : Nat) : Standalone (r.turn n) := by
  rw [Standalone, (r.disciplined_turn n (m := Mode.resumed) rfl).1]
  simp [turn, Act.inside]

theorem standalone_quiescents (n : Nat) : Standalone (List.replicate n (.quiescent : Act RibPtr)) := by
  rw [Standalone, disciplined_quiescents]
  simp [Act.inside]

/-- A loop that gives way at the head of each turn and is quiescent at its end. -/
theorem resumable_quiescent_turns (turns : Nat) (m : Mode RibPtr) :
    Resumable m (List.replicate turns [none, some .quiescent]).flatten := by
  induction turns generalizing m with
  | zero => rfl
  | succ turns ih =>
    rw [List.replicate_succ, List.flatten_cons]
    exact resumable_turn (standalone_quiescents 1) ih m

theorem resumable_sleep {steps : List (Option (Act RibPtr))} (h : ∀ m, Resumable m steps) (n : Nat)
    (m : Mode RibPtr) : Resumable m (List.replicate n none ++ steps) := by
  induction n generalizing m with
  | zero => exact h m
  | succ n ih => exact ih _

/-- Behind a command that sleeps, nothing is read any more. -/
theorem resumable_noReads {script : List ShellCommand} (h : script.all (!·.readsRib))
    {steps : List (Option (Act RibPtr))} (hsteps : ∀ m, Resumable m steps) (m : Mode RibPtr) :
    Resumable m (script.flatMap ShellCommand.steps ++ steps) := by
  induction script generalizing m with
  | nil => exact hsteps m
  | cons c cs ih =>
    obtain ⟨hc, hcs⟩ : c.readsRib = false ∧ cs.all (!·.readsRib) := by simpa using h
    rw [List.flatMap_cons, List.append_assoc]
    have hsleep := resumable_sleep (ih hcs)
    cases c with
    | withRib reads =>
      obtain rfl : reads = 0 := by simpa [ShellCommand.readsRib] using hc
      exact ih hcs m
    | sleepCmd sec =>
      rw [ShellCommand.steps]
      split
      · exact hsleep sec m
      · exact hsleep 1 m
    | setWorkerLthread => exact hsleep 1 m
    | other => exact ih hcs m

/-- A turn of a shell that keeps to its section, while the version is the shell's own. -/
theorem resumable_keepsSection {script : List ShellCommand} (h : keepsSection script)
    {steps : List (Option (Act RibPtr))} (hsteps : ∀ m, Resumable m steps) {m : Mode RibPtr}
    (hm : m.status .ribTlocal ≠ .stale) :
    Resumable m (script.flatMap ShellCommand.steps ++ steps) := by
  induction script with
  | nil => exact hsteps m
  | cons c cs ih =>
    rw [keepsSection] at h
    rw [List.flatMap_cons, List.append_assoc]
    have hsleep : cs.all (!·.readsRib) → ∀ n m, Resumable m (List.replicate n none
        ++ (cs.flatMap ShellCommand.steps ++ steps)) :=
      fun hcs => resumable_sleep (resumable_noReads hcs hsteps)
    cases c with
    | withRib reads =>
      have hcs : keepsSection cs := by simpa [ShellCommand.sleeps] using h
      obtain ⟨hd, ha⟩ := disciplined_reads hm reads
      rw [ShellCommand.steps, ← List.map_replicate, resumable_append, ha]
      exact ⟨by simp [Act.inside], hd, ih hcs⟩
    | sleepCmd sec =>
      have hcs : cs.all (!·.readsRib) := by simpa [ShellCommand.sleeps] using h
      rw [ShellCommand.steps]
      split
      · exact hsleep hcs sec m
      · exact hsleep hcs 1 m
    | setWorkerLthread => exact hsleep (by simpa [ShellCommand.sleeps] using h) 1 m
    | other => exact ih (by simpa [ShellCommand.sleeps] using h)

theorem resumable_shellTurn {script : List ShellCommand} (h : keepsSection script)
    {steps : List (Option (Act RibPtr))} (hsteps : ∀ m, Resumable m steps) (m : Mode RibPtr) :
    Resumable m (shellTurn script ++ steps) := by
  have hend : ∀ m, Resumable m ([Act.clear .ribTlocal, .quiescent].map some ++ steps) := by
    intro m
    exact resumable_append.mpr ⟨rfl, rfl, hsteps _⟩
  have hturn := resumable_keepsSection h hend (m := Mode.resumed.next (.deref .ribTlocal))
    (by simp [Mode.next, Mode.resumed])
  simpa [shellTurn, Resumable, Act.inside, Mode.allows] using hturn

/-- What the shells have to keep to. -/
def ShellsKeepSections (lthreads : L → Lthread) : Prop :=
  ∀ l turns, lthreads l = .shell turns → ∀ script ∈ turns, keepsSection script

theorem Lthread.resumable {l : Lthread} (h : ∀ turns, l = .shell turns → ∀ script ∈ turns, keepsSection script)
    (m : Mode RibPtr) : Resumable m l.steps := by
  cases l with
  | shell turns =>
    exact resumable_flatMap (fun script hs steps hsteps m =>
      resumable_shellTurn (h turns rfl script hs) hsteps m) m
  | vtyServer turns => exact resumable_quiescent_turns turns m
  | netlinkThread turns => exact resumable_quiescent_turns turns m
  | ribManager turns =>
    refine resumable_flatMap (fun n _ steps hsteps m => ?_) m
    rw [← List.map_replicate]
    exact resumable_turn (standalone_quiescents n) hsteps m
  | reader r turns =>
    exact resumable_flatMap (fun n _ steps hsteps m => resumable_turn (r.standalone_turn n) hsteps m) m

theorem disciplined_lthreadCore {lthread : Scheduler (Option L) RibPtr} {lthreads : L → Lthread}
    (h : ShellsKeepSections lthreads) {turns : Nat} {acts : List (Act RibPtr)}
    (hacts : LthreadCore lthread lthreads turns acts) (m : Mode RibPtr) : Disciplined m acts := by
  obtain ⟨ran, hran, rfl⟩ := hacts
  obtain ⟨sched, rfl⟩ := lthread.cooperative hran
  rw [Disciplined, Bool.and_eq_true]
  refine ⟨rfl, disciplined_sliced ?_ rfl sched⟩
  intro l slice hs
  cases l with
  | none => exact standalone_of_mem_cut (resumable_quiescent_turns turns _) hs
  | some l => exact standalone_of_mem_cut (Lthread.resumable (h l) _) hs

/-! ## 5. A shell that reads behind a sleep -/

/-- Where a script gives way before a command that reads. -/
theorem exists_of_not_keepsSection {script : List ShellCommand} (h : ¬ keepsSection script) :
    ∃ pre c mid reads post, script = pre ++ c :: (mid ++ .withRib reads :: post) ∧ c.sleeps
      ∧ reads ≠ 0 := by
  induction script with
  | nil => simp [keepsSection] at h
  | cons c cs ih =>
    rw [keepsSection] at h
    cases hc : c.sleeps with
    | false =>
      obtain ⟨pre, d, mid, reads, post, rfl, hd, hreads⟩ := ih (by simpa [hc] using h)
      exact ⟨c :: pre, d, mid, reads, post, rfl, hd, hreads⟩
    | true =>
      obtain ⟨d, hmem, hd⟩ : ∃ d ∈ cs, d.readsRib := by simpa [hc] using h
      obtain ⟨mid, post, rfl⟩ := List.append_of_mem hmem
      cases d with
      | withRib reads => exact ⟨[], c, mid, reads, post, rfl, hc, by simpa [ShellCommand.readsRib] using hd⟩
      | _ => simp [ShellCommand.readsRib] at hd

/-- A command that sleeps gives way before anything else. -/
theorem ShellCommand.steps_of_sleeps {c : ShellCommand} (h : c.sleeps) :
    ∃ n, c.steps = none :: List.replicate n none := by
  cases c with
  | sleepCmd sec =>
    rw [steps]
    split
    · next hsec =>
      obtain ⟨n, rfl⟩ : ∃ n, sec = n + 1 := ⟨sec - 1, by omega⟩
      exact ⟨n, List.replicate_succ⟩
    · exact ⟨0, rfl⟩
  | setWorkerLthread => exact ⟨0, rfl⟩
  | _ => simp [sleeps] at h

/-- The commands of a shell leave its pointer alone. -/
theorem sets_of_mem_steps {script : List ShellCommand} {a : Act RibPtr}
    (h : a ∈ (script.flatMap ShellCommand.steps).reduceOption) :
    a.sets .ribTlocal = false ∧ a.inside := by
  rw [List.reduceOption_mem_iff] at h
  obtain ⟨c, -, hc⟩ := List.mem_flatMap.mp h
  cases c with
  | withRib reads =>
    obtain ⟨-, rfl⟩ : reads ≠ 0 ∧ a = .read .ribTlocal := by
      simpa [ShellCommand.steps, List.mem_replicate] using hc
    exact ⟨rfl, rfl⟩
  | sleepCmd sec =>
    rw [ShellCommand.steps] at hc
    split at hc <;> simp at hc
  | _ => simp [ShellCommand.steps] at hc

/-- What a shell holds while it sleeps is stale after a turn of `lthread_main`. -/
theorem stale_after_turn (before : List (List ShellCommand)) (pre : List ShellCommand) {m : Mode RibPtr} :
    (m.after ((before.flatMap shellTurn ++ none :: some (.deref .ribTlocal)
      :: pre.flatMap ShellCommand.steps).reduceOption ++ [.quiescent])).status .ribTlocal = .stale := by
  rw [Mode.after_append, List.reduceOption_append, Mode.after_append, List.reduceOption_cons_of_none,
    List.reduceOption_cons_of_some, Mode.after_cons _ (Act.deref RibPtr.ribTlocal)]
  refine Status.expire_eq_stale (Mode.status_after_ne_null ?_ fun a ha => (sets_of_mem_steps ha).1)
  simp only [Mode.next, Function.update_self]
  split <;> simp

/-- The schedule that breaks it: the shell up to where it sleeps, one turn of `lthread_main`, and the
    shell again. -/
theorem not_disciplined_lthreadCore {lthreads : L → Lthread} {l : L}
    {turns : List (List ShellCommand)} (hl : lthreads l = .shell turns) {script : List ShellCommand}
    (hmem : script ∈ turns) (hscript : ¬ keepsSection script) :
    ∃ sched, ¬ Disciplined Mode.init (.register :: sliced (lthreadSlices lthreads 1) sched) := by
  obtain ⟨before, after, rfl⟩ := List.append_of_mem hmem
  obtain ⟨pre, c, mid, reads, post, rfl, hc, hreads⟩ := exists_of_not_keepsSection hscript
  obtain ⟨n, hsteps⟩ := c.steps_of_sleeps hc
  let held := before.flatMap shellTurn ++ none :: some (Act.deref .ribTlocal) ::
    pre.flatMap ShellCommand.steps
  let read := (mid ++ [ShellCommand.withRib reads]).flatMap ShellCommand.steps
  let rest := post.flatMap ShellCommand.steps ++ [some (.clear .ribTlocal), some .quiescent]
    ++ after.flatMap shellTurn
  have hcut : cut (lthreads l).steps = cut held ++ cut (List.replicate n none ++ read ++ rest) := by
    rw [← cut_append_none, hl]
    simp [Lthread.steps, shellTurn, hsteps, held, read, rest]
  have hbehind : (cut (List.replicate n none ++ read ++ rest)).flatten
      = read.reduceOption ++ rest.reduceOption := by
    have hnone : (List.replicate n (none : Option (Act RibPtr))).reduceOption = [] := by
      rw [List.reduceOption, List.filterMap_replicate_of_none rfl]
    rw [flatten_cut, List.reduceOption_append, List.reduceOption_append, hnone, List.nil_append]
  have hmain : lthreadSlices lthreads 1 none = [[], [.quiescent]] := by
    simp [lthreadSlices, lthreadMainSteps, cut]
  have hown : lthreadSlices lthreads 1 (some l) = cut (lthreads l).steps := rfl
  have hslices := sliced_between (Option.some_ne_none l).symm (hown.trans hcut) hmain
  have hbad : ¬ Disciplined Mode.init (.register :: (held.reduceOption
      ++ ([.quiescent] ++ (read.reduceOption ++ rest.reduceOption)))) := by
    rw [Disciplined, ← List.append_assoc held.reduceOption, Bool.and_eq_true, disciplined_append]
    rintro ⟨-, -, hd⟩
    refine not_disciplined_of_stale (stale_after_turn before pre)
      (fun a ha => (sets_of_mem_steps ha).1) ?_ hd
    rw [List.reduceOption_mem_iff]
    simp [ShellCommand.steps, List.mem_replicate, hreads]
  refine ⟨List.replicate (cut held).length (some l) ++ (List.replicate 2 none
    ++ (List.replicate (cut (List.replicate n none ++ read ++ rest)).length (some l) ++ [])), ?_⟩
  rw [flatten_cut, hbehind] at hslices
  exact fun hd => hbad (hslices ▸ hd)

/-- **No thread reads a freed version, whatever the order, exactly when no shell reads the rib behind
    a sleep.** Of liburcu and of the lthread library nothing is used but what they promise. -/
theorem rib_reads_live_iff (urcu : GracePeriod (Option C)) (lthread : Scheduler (Option L) RibPtr)
    (workers : C → List Worker) (lthreads : L → Lthread) :
    (∀ turns main, LthreadCore lthread lthreads turns main → Safe urcu (ribThreads workers main))
      ↔ ShellsKeepSections lthreads := by
  constructor
  · intro h l turns hl script hmem
    by_contra hscript
    obtain ⟨sched, hnot⟩ := not_disciplined_lthreadCore hl hmem hscript
    exact hnot (safe_iff_disciplined.mp (h 1 _ ⟨_, lthread.any _ sched, rfl⟩) none)
  · intro h turns main hmain
    refine safe_iff_disciplined.mpr fun t => ?_
    cases t with
    | none => exact disciplined_lthreadCore h hmain _
    | some c => exact disciplined_lcoreActs (workers c) _

end SdPlane
