import SdPlane.Lib.Crash
import SdPlane.Lib.Ring
import SdPlane.Lib.Simulation

/-!
# The ring queue (`queue.c`)

A queue is a ring of slots in an array that is doubled when it is full, which it counts as when one
slot is left. What the queue holds may go over the end of the array at that time; that part is
moved behind the old end.

`queue_fifo_iff` is the result: over any sequence of operations the queue does as a list does to
which elements are appended and whose first is taken, exactly as long as the list stays shorter than
2³⁰. From there on the size of the array is no `int` any more.
-/

set_option autoImplicit false

namespace SdPlane

def QUEUE_INIT_SIZE : Nat := 2

/-- `struct queue`; `none` is `NULL`. -/
structure Queue (α : Type) where
  array : Nat → Option α
  arraySize : Nat
  start : Nat
  endp : Nat

variable {α : Type}

def queueCreate : Queue α := ⟨fun _ => none, QUEUE_INIT_SIZE, 0, 0⟩

def queueSize (queue : Queue α) : Except Lib.Crash Int := do
  let size : Int :=
    if queue.endp < queue.start then queue.arraySize - queue.start + queue.endp
    else queue.endp - queue.start
  Lib.assert (0 ≤ size)
  return size

/-- `mem` is what lies in the memory that `realloc` adds. -/
def queueExpand (mem : Nat → Option α) (queue : Queue α) : Except Lib.Crash (Queue α) := do
  let array := fun i => if i < queue.arraySize then queue.array i else mem i
  let moved :=
    if queue.endp < queue.start then
      -- memcpy
      { queue with
        array := fun i =>
          if queue.arraySize ≤ i ∧ i < queue.arraySize + queue.endp then array (i - queue.arraySize)
          else array i
        endp := queue.arraySize + queue.endp }
    else { queue with array }
  let arraySize ← Lib.int (queue.arraySize * 2)
  return { moved with arraySize := arraySize.toNat }

def queueEnqueue (mem : Nat → Option α) (queue : Queue α) (data : α) :
    Except Lib.Crash (Queue α) := do
  let size ← queueSize queue
  let queue ← (if size = queue.arraySize - 1 then queueExpand mem queue else .ok queue)
  Lib.inside queue.endp queue.arraySize
  let queue :=
    { queue with array := Function.update queue.array queue.endp (some data), endp := queue.endp + 1 }
  return if queue.endp = queue.arraySize then { queue with endp := 0 } else queue

def queueDequeue (queue : Queue α) : Except Lib.Crash (Queue α × Option α) := do
  let size ← queueSize queue
  if size = 0 then return (queue, none)
  Lib.inside queue.start queue.arraySize
  let data := queue.array queue.start
  let queue := { queue with start := queue.start + 1 }
  return (if queue.start = queue.arraySize then { queue with start := 0 } else queue, data)

/-! ## What it is for -/

inductive QueueOp (α : Type)
  | enqueue (data : α) (mem : Nat → Option α)
  | dequeue

/-- With what is given back, if anything. -/
def QueueOp.run (queue : Queue α) : QueueOp α → Except Lib.Crash (Queue α × Option α)
  | .enqueue data mem => do
    let queue ← queueEnqueue mem queue data
    return (queue, none)
  | .dequeue => queueDequeue queue

/-- First in, first out. -/
def fifo (l : List α) : QueueOp α → List α × Option α
  | .enqueue data _ => (l ++ [data], none)
  | .dequeue => (l.tail, l.head?)

/-- What can be seen of a queue that holds a list. -/
def SizeOf (queue : Queue α) (l : List α) : Prop := queueSize queue = .ok l.length

/-- There is room for one more element in the largest array. -/
def QueueOp.Fits (l : List α) : QueueOp α → Prop
  | .enqueue _ _ => l.length + 1 < 2 ^ 30
  | .dequeue => True

/-! ## The invariant -/

/-- The list in the slots from `start` to `end`, one of the others staying free. -/
structure QueueHolds (queue : Queue α) (l : List α) : Prop where
  power : ∃ k, k ≤ 30 ∧ queue.arraySize = 2 ^ k
  start : queue.start < queue.arraySize
  room : l.length < queue.arraySize
  endp : queue.endp = (queue.start + l.length) % queue.arraySize
  slots : Lib.ring queue.array queue.arraySize queue.start l.length = l.map some

theorem queueHolds_create : QueueHolds (queueCreate : Queue α) [] where
  power := ⟨1, by decide, rfl⟩
  start := Nat.zero_lt_two
  room := Nat.zero_lt_two
  endp := rfl
  slots := rfl

namespace QueueHolds

variable {queue : Queue α} {l : List α} (h : QueueHolds queue l)

include h

/-- The contents lie in one piece or go over the end. -/
theorem endp_cases : (queue.start + l.length < queue.arraySize
      ∧ queue.endp = queue.start + l.length)
    ∨ (queue.arraySize ≤ queue.start + l.length
      ∧ queue.endp = queue.start + l.length - queue.arraySize) := by
  have hstart := h.start
  have hroom := h.room
  rcases Nat.lt_or_ge (queue.start + l.length) queue.arraySize with hlt | hge
  · exact .inl ⟨hlt, by rw [h.endp, Nat.mod_eq_of_lt hlt]⟩
  · refine .inr ⟨hge, ?_⟩
    rw [h.endp, Nat.mod_eq_sub_mod hge, Nat.mod_eq_of_lt (by omega)]

theorem sizeOf : SizeOf queue l := by
  have hstart := h.start
  have hsize : (if queue.endp < queue.start
      then (queue.arraySize : Int) - queue.start + queue.endp
      else queue.endp - queue.start) = l.length := by
    rcases h.endp_cases with ⟨hlt, hend⟩ | ⟨hge, hend⟩
    · rw [if_neg (by omega), hend]
      omega
    · rw [if_pos (by have hroom := h.room; omega), hend]
      omega
  simp [SizeOf, queueSize, hsize, Lib.assert]

/-- Below the largest size there is a next one. -/
theorem next_power (hsize : queue.arraySize < 2 ^ 30) :
    ∃ k, k ≤ 30 ∧ queue.arraySize * 2 = 2 ^ k := by
  obtain ⟨k, hk, hpow⟩ := h.power
  rw [hpow] at hsize
  have hlt : k < 30 := (Nat.pow_lt_pow_iff_right (by decide)).mp hsize
  exact ⟨k + 1, hlt, by rw [hpow, Nat.pow_succ]⟩

/-- Doubling moves what lies before `start` behind the old end. -/
theorem expand (mem : Nat → Option α) (hsize : queue.arraySize < 2 ^ 30) :
    ∃ queue', queueExpand mem queue = .ok queue' ∧ QueueHolds queue' l
      ∧ queue'.arraySize = queue.arraySize * 2 := by
  have hstart := h.start
  have hroom := h.room
  have hfits : -2 ^ 31 ≤ (queue.arraySize * 2 : Int) ∧ (queue.arraySize * 2 : Int) < 2 ^ 31 := by
    omega
  have hnat : (queue.arraySize * 2 : Int).toNat = queue.arraySize * 2 := by omega
  have hmod : ∀ {m : Nat}, m < queue.arraySize * 2 → m % (queue.arraySize * 2) = m :=
    fun hm => Nat.mod_eq_of_lt hm
  rcases h.endp_cases with ⟨hlt, hend⟩ | ⟨hge, hend⟩
  · have hfront : ¬ queue.endp < queue.start := by omega
    refine ⟨{ queue with
      array := fun i => if i < queue.arraySize then queue.array i else mem i
      arraySize := queue.arraySize * 2 }, ?_, ⟨h.next_power hsize, ?_, ?_, ?_, ?_⟩, rfl⟩
    · simp [queueExpand, hfront, Lib.int_of_fits hfits, hnat]
    · dsimp only
      omega
    · dsimp only
      omega
    · dsimp only
      rw [hmod (by omega)]
      exact hend
    · dsimp only
      rw [← h.slots]
      apply Lib.ring_congr
      intro i hi
      rw [hmod (by omega), Nat.mod_eq_of_lt (by omega)]
      exact if_pos (by omega)
  · have hover : queue.endp < queue.start := by omega
    refine ⟨{ queue with
      array := fun i =>
        if queue.arraySize ≤ i ∧ i < queue.arraySize + queue.endp then
          if i - queue.arraySize < queue.arraySize then queue.array (i - queue.arraySize)
          else mem (i - queue.arraySize)
        else if i < queue.arraySize then queue.array i else mem i
      arraySize := queue.arraySize * 2
      endp := queue.arraySize + queue.endp }, ?_, ⟨h.next_power hsize, ?_, ?_, ?_, ?_⟩, rfl⟩
    · simp [queueExpand, hover, Lib.int_of_fits hfits, hnat]
    · dsimp only
      omega
    · dsimp only
      omega
    · dsimp only
      rw [hmod (by omega)]
      omega
    · dsimp only
      rw [← h.slots]
      apply Lib.ring_congr
      intro i hi
      rw [hmod (by omega)]
      rcases Nat.lt_or_ge (queue.start + i) queue.arraySize with hlt | hge
      · rw [if_neg (by omega), if_pos hlt, Nat.mod_eq_of_lt hlt]
      · rw [if_pos (by omega), if_pos (by omega), Nat.mod_eq_sub_mod hge,
          Nat.mod_eq_of_lt (by omega)]

/-- The next position, as the code makes it. -/
theorem endp_succ : (if queue.endp + 1 = queue.arraySize then 0 else queue.endp + 1)
    = (queue.start + (l.length + 1)) % queue.arraySize := by
  have hstart := h.start
  have hroom := h.room
  rcases h.endp_cases with ⟨hlt, hend⟩ | ⟨hge, hend⟩
  · rcases Nat.lt_or_ge (queue.endp + 1) queue.arraySize with hin | hout
    · rw [if_neg (by omega), Nat.mod_eq_of_lt (by omega)]
      omega
    · rw [if_pos (by omega), show queue.start + (l.length + 1) = queue.arraySize by omega,
        Nat.mod_self]
  · rw [if_neg (by omega), Nat.mod_eq_sub_mod (by omega), Nat.mod_eq_of_lt (by omega)]
    omega

/-- One more element, where more than one slot is free. -/
theorem push (hfree : l.length + 1 < queue.arraySize) (data : α) :
    QueueHolds { queue with
      array := Function.update queue.array queue.endp (some data)
      endp := if queue.endp + 1 = queue.arraySize then 0 else queue.endp + 1 } (l ++ [data]) where
  power := h.power
  start := h.start
  room := by simpa using hfree
  endp := by simpa using h.endp_succ
  slots := by
    have hpush := @Lib.ring_push _ queue.array _ queue.start _ h.room (some data)
    rw [← h.endp, h.slots] at hpush
    simpa using hpush

theorem pop {data : α} {rest : List α} (hl : l = data :: rest) :
    queue.array queue.start = some data ∧
    QueueHolds { queue with
      start := if queue.start + 1 = queue.arraySize then 0 else queue.start + 1 } rest := by
  subst hl
  have hstart := h.start
  have hroom := h.room
  have hslots := h.slots
  have hnext : (queue.start + 1) % queue.arraySize
      = if queue.start + 1 = queue.arraySize then 0 else queue.start + 1 := by
    split
    · next heq => rw [heq, Nat.mod_self]
    · exact Nat.mod_eq_of_lt (by omega)
  rw [List.length_cons, Lib.ring_cons, Nat.mod_eq_of_lt hstart, List.map_cons,
    List.cons.injEq, hnext] at hslots
  refine ⟨hslots.1, h.power, ?_, Nat.lt_of_succ_lt hroom, ?_, hslots.2⟩
  · dsimp only
    split <;> omega
  · dsimp only
    rw [← hnext, Nat.mod_add_mod, h.endp, List.length_cons, Nat.add_assoc, Nat.add_comm 1]

/-- An operation that fits. -/
theorem run {op : QueueOp α} (hfits : op.Fits l) :
    ∃ queue', op.run queue = .ok (queue', (fifo l op).2) ∧ QueueHolds queue' (fifo l op).1 := by
  have hsize := h.sizeOf
  have hroom := h.room
  have hstart := h.start
  cases op with
  | enqueue data mem =>
    -- doubled first if need be
    obtain ⟨queue', hgrow, hq, hfree⟩ : ∃ queue',
        (if (l.length : Int) = queue.arraySize - 1 then queueExpand mem queue else .ok queue)
          = .ok queue' ∧ QueueHolds queue' l ∧ l.length + 1 < queue'.arraySize := by
      rcases Nat.lt_or_ge (l.length + 1) queue.arraySize with hlt | hge
      · exact ⟨queue, if_neg (by omega), h, hlt⟩
      · have hsmall : queue.arraySize < 2 ^ 30 := by
          have : l.length + 1 < 2 ^ 30 := hfits
          omega
        obtain ⟨queue', hexpand, hq, hdouble⟩ := h.expand mem hsmall
        exact ⟨queue', by rw [if_pos (by omega), hexpand], hq, by omega⟩
    have hin : Lib.inside queue'.endp queue'.arraySize = .ok () := by
      apply Lib.inside_of_lt
      have hlt : queue'.endp < queue'.arraySize := by
        rw [hq.endp]
        exact Nat.mod_lt _ (by omega)
      omega
    refine ⟨_, ?_, hq.push hfree data⟩
    rw [SizeOf] at hsize
    simp only [QueueOp.run, queueEnqueue, hsize, Lib.ok_bind, hgrow, hin, Lib.pure_eq_ok, fifo]
    split <;> rfl
  | dequeue =>
    rw [SizeOf] at hsize
    cases l with
    | nil => exact ⟨queue, by simp [QueueOp.run, queueDequeue, hsize, fifo], h⟩
    | cons data rest =>
      obtain ⟨hdata, hrest⟩ := h.pop rfl
      have hin : Lib.inside queue.start queue.arraySize = .ok () :=
        Lib.inside_of_lt (by omega)
      refine ⟨_, ?_, hrest⟩
      have hne : ¬ ((data :: rest).length : Int) = 0 := by simp; omega
      simp only [QueueOp.run, queueDequeue, hsize, Lib.ok_bind, hne, if_false, hin, hdata,
        Lib.pure_eq_ok, fifo]
      split <;> rfl

/-- An operation that goes right has fitted: from the largest array on, doubling has no result. -/
theorem fits {op : QueueOp α} {queue' : Queue α} {data : Option α}
    (hrun : op.run queue = .ok (queue', data)) : op.Fits l := by
  cases op with
  | dequeue => trivial
  | enqueue data mem =>
    by_contra hbig
    have hroom := h.room
    obtain ⟨k, hk, hpow⟩ := h.power
    have hle : queue.arraySize ≤ 2 ^ 30 := hpow ▸ Nat.pow_le_pow_right (by decide) hk
    have hfull : queue.arraySize = 2 ^ 30 ∧ l.length = 2 ^ 30 - 1 := by
      have : ¬ l.length + 1 < 2 ^ 30 := hbig
      omega
    have hexpand : queueExpand mem queue = .error .overflow := by
      have hbound : 2 ^ 31 ≤ (queue.arraySize * 2 : Int) := by omega
      simp [queueExpand, Lib.int_of_big hbound]
    have hsize := h.sizeOf
    rw [SizeOf] at hsize
    simp only [QueueOp.run, queueEnqueue, hsize, Lib.ok_bind,
      if_pos (by omega : (l.length : Int) = queue.arraySize - 1), hexpand, Lib.error_bind] at hrun
    cases hrun

end QueueHolds

/-! ## The result -/

theorem fits_of_simulates {ops : List (QueueOp α)}
    (h : Lib.Simulates QueueOp.run fifo SizeOf queueCreate [] ops) :
    Lib.AllAllowed fifo (fun l op => op.Fits l) [] ops := by
  refine (Lib.simulates_iff_allAllowed (R := QueueHolds) ?_ ?_ ?_ queueHolds_create
    (Lib.allAllowed_true _ _)).mp h
  · exact fun _ _ _ h _ hfits => h.run hfits
  · exact fun _ _ h => h.sizeOf
  · rintro _ _ _ h _ ⟨_, hrun, -⟩
    exact h.fits hrun

/-- **The ring queue is first in, first out**, with the number of elements for its size, exactly as
    long as there are fewer than 2³⁰ of them. -/
theorem queue_fifo_iff (ops : List (QueueOp α)) :
    Lib.Simulates QueueOp.run fifo SizeOf queueCreate [] ops
      ↔ Lib.AllAllowed fifo (fun l op => op.Fits l) [] ops := by
  refine ⟨fits_of_simulates, Lib.simulates_of_allAllowed (R := QueueHolds) ?_ ?_ queueHolds_create
    (Lib.allAllowed_true _ _)⟩
  · exact fun _ _ _ hq _ hfits => hq.run hfits
  · exact fun _ _ hq => hq.sizeOf

theorem length_fifo_replicate (data : α) (mem : Nat → Option α) (n : Nat) :
    (Lib.specOps fifo [] (List.replicate n (.enqueue data mem))).1.length = n := by
  induction n with
  | zero => rfl
  | succ n ih => simp [List.replicate_succ', Lib.specOps_concat, fifo, ih]

/-- 2³⁰ elements are too many. -/
theorem queue_overflows : ¬ Lib.Simulates QueueOp.run fifo SizeOf queueCreate []
    (List.replicate (2 ^ 30) (.enqueue 7 fun _ => none)) := by
  intro h
  obtain ⟨n, hn⟩ : ∃ n, n + 1 = 2 ^ 30 := ⟨2 ^ 30 - 1, rfl⟩
  have hlast := fits_of_simulates h (List.replicate n (.enqueue 7 fun _ => none))
    (.enqueue 7 fun _ => none) (by rw [← hn, List.replicate_succ'])
  have hlt : (Lib.specOps fifo [] (List.replicate n (.enqueue 7 fun _ => none))).1.length + 1
      < 2 ^ 30 := hlast
  rw [length_fifo_replicate] at hlt
  omega

end SdPlane
