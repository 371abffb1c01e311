/-
# `Jar.Concurrency.RrScheduler` — the round-robin scheduler

`rr_scheduler` owns a vector of task queues and two wrapping counters.
`schedule(task)` draws a start index from the push counter, offers the task to
queue after queue with `try_push`, four rounds of them, and then pushes it to
the queue it started at.  `scheduled()` scans the queues with `try_pop`, once
round starting at the calling thread's home queue, and then blocks in `pop` on
the home queue.  `clear()` clears the queues one after the other.

The home queue of a thread is given by `thread_index`, which is drawn from the
pop counter when the thread first comes by and kept in a `static thread_local`.

The scheduler is a client of its queues in the sense of `Jar.Lib.Client`: the
control part below says where each caller stands between its calls on queues,
and the queues are monitors.  A call of `schedule` is named by the task it is
given, a thread in `scheduled()` by its thread, a call of `clear` by an index of
its own; there may be any number of each.
-/
import Jar.Concurrency.Queue
import Jar.Lib.Client
import Mathlib.Algebra.GroupWithZero.Nat
import Mathlib.Data.Fintype.Sum
import Mathlib.Tactic.DeriveFintype

namespace Jar.Concurrency

open Jar.Lib

namespace RrScheduler

/-! ## Control -/

/-- The number of queues: an `unsigned` that the constructor has checked with
`contract::not_zero`. -/
structure QueueCount where
  size : ℕ
  pos : 0 < size
  fits : size < 2 ^ 32

instance (n : QueueCount) : NeZero n.size := ⟨Nat.pos_iff_ne_zero.mp n.pos⟩

def QueueCount.two : QueueCount := ⟨2, by decide, by decide⟩

def QueueCount.three : QueueCount := ⟨3, by decide, by decide⟩

/-- The constructor's check. -/
def QueueCount.make (queueCount : BitVec 32) : Except String QueueCount :=
  if h : queueCount.toNat = 0 then .error "queue_count cannot be zero"
  else .ok ⟨queueCount.toNat, Nat.pos_of_ne_zero h, queueCount.isLt⟩

/-- `m_task_queue[i % m_task_queue.size()]`. -/
def slot (n : QueueCount) (i : BitVec 32) : Fin n.size := ⟨i.toNat % n.size, Nat.mod_lt _ n.pos⟩

/-- `try_n_times`, a `std::size_t`: four times an `unsigned` fits. -/
def tryNTimes (n : QueueCount) : ℕ := n.size * 4

/-- Who is inside the scheduler: a thread in `scheduled()`, the call
`schedule(x)`, or a call of `clear()`. -/
inductive Caller (ι τ κ : Type) where
  | scheduled (i : ι)
  | schedule (x : τ)
  | clear (k : κ)
  deriving DecidableEq, Repr, Fintype

/-- A thread in `scheduled()`.  `scanning n` is the loop head, `trying n` inside
the `try_pop` of round `n`, `waiting` inside the final `pop`. -/
inductive ScheduledPc (τ : Type) where
  | outside
  | entered
  | scanning (n : BitVec 32)
  | trying (n : BitVec 32)
  | waiting
  | done (task : Option τ)
  deriving DecidableEq, Repr

/-- A call of `schedule`.  `looping index n` is the loop head, `trying index n`
inside the `try_push` of round `n`, `pushing index` inside the final `push`. -/
inductive SchedulePc where
  | uncalled
  | entered
  | looping (index n : BitVec 32)
  | trying (index n : BitVec 32)
  | pushing (index : BitVec 32)
  | returned
  deriving DecidableEq, Repr

/-- A call of `clear`, about to clear queue `j` or inside it. -/
inductive ClearPc where
  | uncalled
  | looping (j : ℕ)
  | clearing (j : ℕ)
  | returned
  deriving DecidableEq, Repr

/-- The counters, the thread-local indices, and where every caller stands. -/
structure Control (ι τ κ : Type) where
  pushIndex : BitVec 32
  popIndex : BitVec 32
  threadIndex : ι → Option (BitVec 32)
  scheduled : ι → ScheduledPc τ
  schedule : τ → SchedulePc
  clear : κ → ClearPc

/-- The steps of the three functions, between and at their calls on queues. -/
inductive Step (n : QueueCount) (ι τ κ : Type) where
  | enter (i : ι)
  | initIndex (i : ι)
  | readIndex (i : ι)
  | tryPop (i : ι) (k : BitVec 32)
  | tryPopRet (i : ι) (k : BitVec 32) (task : Option τ)
  | pop (i : ι) (k : BitVec 32)
  | popRet (i : ι) (task : Option τ)
  | leave (i : ι) (task : Option τ)
  | schedule (x : τ)
  | fetchPush (x : τ)
  | tryPush (x : τ) (index k : BitVec 32)
  | tryPushRet (x : τ) (index k : BitVec 32) (ok : Bool)
  | push (x : τ) (index k : BitVec 32)
  | pushRet (x : τ) (index : BitVec 32)
  | clear (k : κ)
  | clearQueue (k : κ) (j : Fin n.size)
  | clearQueueRet (k : κ) (j : Fin n.size)
  | clearRet (k : κ)
  deriving DecidableEq, Repr

variable {n : QueueCount} {ι τ κ : Type}

/-- `thread_index` as the code reads it; it is set before it is read. -/
def Control.index (c : Control ι τ κ) (i : ι) : BitVec 32 := (c.threadIndex i).getD 0

def guard (n : QueueCount) (c : Control ι τ κ) : Step n ι τ κ → Prop
  | .enter i => c.scheduled i = .outside
  | .initIndex i => c.scheduled i = .entered ∧ c.threadIndex i = none
  | .readIndex i => c.scheduled i = .entered ∧ c.threadIndex i ≠ none
  | .tryPop i k => c.scheduled i = .scanning k ∧ k.toNat ≠ n.size
  | .tryPopRet i k _ => c.scheduled i = .trying k
  | .pop i k => c.scheduled i = .scanning k ∧ k.toNat = n.size
  | .popRet i _ => c.scheduled i = .waiting
  | .leave i task => c.scheduled i = .done task
  | .schedule x => c.schedule x = .uncalled
  | .fetchPush x => c.schedule x = .entered
  | .tryPush x index k => c.schedule x = .looping index k ∧ k.toNat ≠ tryNTimes n
  | .tryPushRet x index k _ => c.schedule x = .trying index k
  | .push x index k => c.schedule x = .looping index k ∧ k.toNat = tryNTimes n
  | .pushRet x index => c.schedule x = .pushing index
  | .clear k => c.clear k = .uncalled
  | .clearQueue k j => c.clear k = .looping j
  | .clearQueueRet k j => c.clear k = .clearing j
  | .clearRet k => c.clear k = .looping n.size

variable [DecidableEq ι] [DecidableEq τ] [DecidableEq κ]

def Control.setScheduled (c : Control ι τ κ) (i : ι) (p : ScheduledPc τ) : Control ι τ κ :=
  { c with scheduled := Function.update c.scheduled i p }

def Control.setSchedule (c : Control ι τ κ) (x : τ) (p : SchedulePc) : Control ι τ κ :=
  { c with schedule := Function.update c.schedule x p }

def Control.setClear (c : Control ι τ κ) (k : κ) (p : ClearPc) : Control ι τ κ :=
  { c with clear := Function.update c.clear k p }

def step (c : Control ι τ κ) : Step n ι τ κ → Control ι τ κ
  | .enter i => c.setScheduled i .entered
  -- `thread_index{m_pop_index.fetch_add(1U)}`, on the thread's first visit to any scheduler
  | .initIndex i =>
      { c.setScheduled i (.scanning 0) with
        threadIndex := Function.update c.threadIndex i (some c.popIndex)
        popIndex := c.popIndex + 1 }
  | .readIndex i => c.setScheduled i (.scanning 0)
  | .tryPop i k => c.setScheduled i (.trying k)
  | .tryPopRet i k task =>
      c.setScheduled i (if task.isSome then .done task else .scanning (k + 1))
  | .pop i _ => c.setScheduled i .waiting
  | .popRet i task => c.setScheduled i (.done task)
  | .leave i _ => c.setScheduled i .outside
  | .schedule x => c.setSchedule x .entered
  | .fetchPush x =>
      { c.setSchedule x (.looping c.pushIndex 0) with pushIndex := c.pushIndex + 1 }
  | .tryPush x index k => c.setSchedule x (.trying index k)
  | .tryPushRet x index k ok =>
      c.setSchedule x (if ok then .returned else .looping index (k + 1))
  | .push x index _ => c.setSchedule x (.pushing index)
  | .pushRet x _ => c.setSchedule x .returned
  | .clear k => c.setClear k (.looping 0)
  | .clearQueue k j => c.setClear k (.clearing j)
  | .clearQueueRet k j => c.setClear k (.looping (j + 1))
  | .clearRet k => c.setClear k .returned

/-- The calls on queues.  The task offered by `try_push` is a copy, the one handed
to `push` is moved; either way the queue is given task `x`. -/
def act (c : Control ι τ κ) :
    Step n ι τ κ → Act (Fin n.size) (Caller ι τ κ) (Queue.Op τ) (Queue.Ret τ)
  | .tryPop i k => .call (slot n (c.index i + k)) (.scheduled i) .tryPop
  | .tryPopRet i k task => .ret (slot n (c.index i + k)) (.scheduled i) .tryPop (.item task)
  | .pop i _ => .call (slot n (c.index i)) (.scheduled i) .pop
  | .popRet i task => .ret (slot n (c.index i)) (.scheduled i) .pop (.item task)
  | .tryPush x index k => .call (slot n (index + k)) (.schedule x) (.tryPush x)
  | .tryPushRet x index k ok => .ret (slot n (index + k)) (.schedule x) (.tryPush x) (.pushed ok)
  | .push x index _ => .call (slot n index) (.schedule x) (.push x)
  | .pushRet x index => .ret (slot n index) (.schedule x) (.push x) .unit
  | .clearQueue k j => .call j (.clear k) .clear
  | .clearQueueRet k j => .ret j (.clear k) .clear .unit
  | _ => .silent

/-- The queue and the operation a caller is in. -/
def site (n : QueueCount) (c : Control ι τ κ) : Caller ι τ κ → Option (Fin n.size × Queue.Op τ)
  | .scheduled i =>
      match c.scheduled i with
      | .trying k => some (slot n (c.index i + k), .tryPop)
      | .waiting => some (slot n (c.index i), .pop)
      | _ => none
  | .schedule x =>
      match c.schedule x with
      | .trying index k => some (slot n (index + k), .tryPush x)
      | .pushing index => some (slot n index, .push x)
      | _ => none
  | .clear k =>
      match c.clear k with
      | .clearing j => if h : j < n.size then some (⟨j, h⟩, .clear) else none
      | _ => none

/-- A fresh scheduler; its threads may have served other schedulers before. -/
def Control.initial (threadIndex : ι → Option (BitVec 32)) : Control ι τ κ where
  pushIndex := 0
  popIndex := 0
  threadIndex := threadIndex
  scheduled _ := .outside
  schedule _ := .uncalled
  clear _ := .uncalled

def client (n : QueueCount) (ι τ κ : Type) [DecidableEq ι] [DecidableEq τ] [DecidableEq κ] :
    Client (Fin n.size) (Caller ι τ κ) (Queue.Op τ) (Queue.Ret τ) (Control ι τ κ)
      (Step n ι τ κ) where
  Init c := ∃ threadIndex, c = Control.initial threadIndex
  guard := guard n
  step := step
  act := act
  site := site n

abbrev State (n : QueueCount) (ι τ κ : Type) :=
  Client.State (Fin n.size) (Caller ι τ κ) (Queue.Core τ) (Queue.Op τ) (Queue.Ret τ)
    (Control ι τ κ)

abbrev Event (n : QueueCount) (ι τ κ : Type) :=
  Client.Event (Fin n.size) (Caller ι τ κ) (Queue.Op τ) (Queue.Ret τ) (Step n ι τ κ)

/-- Any number of threads and calls on one scheduler with `n` queues. -/
abbrev machine (n : QueueCount) (ι τ κ : Type) [DecidableEq ι] [DecidableEq τ] [DecidableEq κ] :
    Machine (State n ι τ κ) (Event n ι τ κ) :=
  (client n ι τ κ).machine (Queue.object τ) Queue.Core.empty

instance (c : Control ι τ κ) (e : Step n ι τ κ) : Decidable (guard n c e) := by
  cases e <;> unfold guard <;> infer_instance

instance (c : Control ι τ κ) (e : Step n ι τ κ) : Decidable ((client n ι τ κ).guard c e) :=
  inferInstanceAs (Decidable (guard n c e))

instance [Fintype ι] [Fintype τ] [Fintype κ] (s : State n ι τ κ) (e : Event n ι τ κ) :
    Decidable ((machine n ι τ κ).Enabled s e) :=
  inferInstanceAs (Decidable ((client n ι τ κ).enabled (Queue.object τ) s e))

/-! ## The scheduler is a lawful client

A step moves one caller; its own control changes as the step says, and nobody
else is moved to or from a queue. -/

/-- The caller whose step it is. -/
def Step.caller : Step n ι τ κ → Caller ι τ κ
  | .enter i | .initIndex i | .readIndex i | .tryPop i _ | .tryPopRet i _ _ => .scheduled i
  | .pop i _ | .popRet i _ | .leave i _ => .scheduled i
  | .schedule x | .fetchPush x | .tryPush x _ _ | .tryPushRet x _ _ _ => .schedule x
  | .push x _ _ | .pushRet x _ => .schedule x
  | .clear k | .clearQueue k _ | .clearQueueRet k _ | .clearRet k => .clear k

omit [DecidableEq ι] [DecidableEq τ] [DecidableEq κ] in
theorem site_congr {c c' : Control ι τ κ} {u : Caller ι τ κ}
    (hscheduled : ∀ i, u = .scheduled i →
      c'.scheduled i = c.scheduled i ∧ c'.threadIndex i = c.threadIndex i)
    (hschedule : ∀ x, u = .schedule x → c'.schedule x = c.schedule x)
    (hclear : ∀ k, u = .clear k → c'.clear k = c.clear k) : site n c' u = site n c u := by
  cases u with
  | scheduled i =>
      obtain ⟨hpc, hindex⟩ := hscheduled i rfl
      simp only [site, Control.index, hpc, hindex]
  | schedule x => simp only [site, hschedule x rfl]
  | clear k => simp only [site, hclear k rfl]

omit [DecidableEq τ] [DecidableEq κ] in
theorem site_setScheduled (c : Control ι τ κ) (i : ι) (p : ScheduledPc τ) {u : Caller ι τ κ}
    (h : u ≠ .scheduled i) : site n (c.setScheduled i p) u = site n c u := by
  refine site_congr ?_ (fun _ _ => rfl) (fun _ _ => rfl)
  rintro j rfl
  have hj : j ≠ i := by rintro rfl; exact h rfl
  exact ⟨Function.update_of_ne hj _ _, rfl⟩

omit [DecidableEq ι] [DecidableEq κ] in
theorem site_setSchedule (c : Control ι τ κ) (x : τ) (p : SchedulePc) {u : Caller ι τ κ}
    (h : u ≠ .schedule x) : site n (c.setSchedule x p) u = site n c u := by
  refine site_congr (fun _ _ => ⟨rfl, rfl⟩) ?_ (fun _ _ => rfl)
  rintro y rfl
  have hy : y ≠ x := by rintro rfl; exact h rfl
  exact Function.update_of_ne hy _ _

omit [DecidableEq ι] [DecidableEq τ] in
theorem site_setClear (c : Control ι τ κ) (k : κ) (p : ClearPc) {u : Caller ι τ κ}
    (h : u ≠ .clear k) : site n (c.setClear k p) u = site n c u := by
  refine site_congr (fun _ _ => ⟨rfl, rfl⟩) (fun _ _ => rfl) ?_
  rintro l rfl
  have hl : l ≠ k := by rintro rfl; exact h rfl
  exact Function.update_of_ne hl _ _

theorem site_step_of_ne (c : Control ι τ κ) (e : Step n ι τ κ) {u : Caller ι τ κ}
    (h : u ≠ e.caller) : site n (step c e) u = site n c u := by
  cases e with
  | initIndex i =>
      -- the step also draws the thread's index, which only `scheduled()` on that thread reads
      refine site_congr ?_ (fun _ _ => rfl) (fun _ _ => rfl)
      rintro j rfl
      have hj : j ≠ i := by rintro rfl; exact h rfl
      exact ⟨Function.update_of_ne hj _ _, Function.update_of_ne hj _ _⟩
  | fetchPush x => exact site_setSchedule c x _ h
  | enter i | readIndex i | tryPop i _ | tryPopRet i _ _ | pop i _ | popRet i _ | leave i _ =>
      exact site_setScheduled c i _ h
  | schedule x | tryPush x _ _ | tryPushRet x _ _ _ | push x _ _ | pushRet x _ =>
      exact site_setSchedule c x _ h
  | clear k | clearQueue k _ | clearQueueRet k _ | clearRet k => exact site_setClear c k _ h

theorem site_own {c : Control ι τ κ} {e : Step n ι τ κ} (hg : guard n c e) :
    match act c e with
    | .silent => site n (step c e) e.caller = site n c e.caller
    | .call q t op => t = e.caller ∧ site n c t = none ∧ site n (step c e) t = some (q, op)
    | .ret _ t _ _ => t = e.caller ∧ site n (step c e) t = none := by
  cases e with
  | enter i =>
      have hi : c.scheduled i = .outside := hg
      simp [act, site, step, Step.caller, Control.setScheduled, hi]
  | initIndex i =>
      have hi := hg.1
      simp [act, site, step, Step.caller, Control.setScheduled, hi]
  | readIndex i =>
      have hi := hg.1
      simp [act, site, step, Step.caller, Control.setScheduled, hi]
  | tryPop i k =>
      have hi := hg.1
      simp [act, site, step, Step.caller, Control.setScheduled, Control.index, hi]
  | tryPopRet i k task =>
      cases task with
      | none => simp [act, site, step, Step.caller, Control.setScheduled]
      | some x => simp [act, site, step, Step.caller, Control.setScheduled]
  | pop i k =>
      have hi := hg.1
      simp [act, site, step, Step.caller, Control.setScheduled, Control.index, hi]
  | popRet i task => simp [act, site, step, Step.caller, Control.setScheduled]
  | leave i task =>
      have hi : c.scheduled i = .done task := hg
      simp [act, site, step, Step.caller, Control.setScheduled, hi]
  | schedule x =>
      have hx : c.schedule x = .uncalled := hg
      simp [act, site, step, Step.caller, Control.setSchedule, hx]
  | fetchPush x =>
      have hx : c.schedule x = .entered := hg
      simp [act, site, step, Step.caller, Control.setSchedule, hx]
  | tryPush x index k =>
      have hx := hg.1
      simp [act, site, step, Step.caller, Control.setSchedule, hx]
  | tryPushRet x index k ok =>
      cases ok with
      | false => simp [act, site, step, Step.caller, Control.setSchedule]
      | true => simp [act, site, step, Step.caller, Control.setSchedule]
  | push x index k =>
      have hx := hg.1
      simp [act, site, step, Step.caller, Control.setSchedule, hx]
  | pushRet x index => simp [act, site, step, Step.caller, Control.setSchedule]
  | clear k =>
      have hk : c.clear k = .uncalled := hg
      simp [act, site, step, Step.caller, Control.setClear, hk]
  | clearQueue k j =>
      have hk : c.clear k = .looping j := hg
      simp [act, site, step, Step.caller, Control.setClear, hk]
  | clearQueueRet k j => simp [act, site, step, Step.caller, Control.setClear]
  | clearRet k =>
      have hk : c.clear k = .looping n.size := hg
      simp [act, site, step, Step.caller, Control.setClear, hk]

theorem lawful (n : QueueCount) (ι τ κ : Type) [DecidableEq ι] [DecidableEq τ] [DecidableEq κ] :
    (client n ι τ κ).Lawful where
  init c t := by
    rintro ⟨threadIndex, rfl⟩
    cases t <;> rfl
  silent c e hg ha u := by
    have hown := site_own hg
    rw [show act c e = .silent from ha] at hown
    by_cases hu : u = e.caller
    · subst hu; exact hown
    · exact site_step_of_ne c e hu
  call c e q t op hg ha := by
    have hown := site_own hg
    rw [show act c e = .call q t op from ha] at hown
    obtain ⟨rfl, hnone, hsome⟩ := hown
    exact ⟨hnone, hsome, fun u hu => site_step_of_ne c e hu⟩
  ret c e q t op r hg ha := by
    have hown := site_own hg
    rw [show act c e = .ret q t op r from ha] at hown
    obtain ⟨rfl, hnone⟩ := hown
    exact ⟨hnone, fun u hu => site_step_of_ne c e hu⟩

end RrScheduler

end Jar.Concurrency
