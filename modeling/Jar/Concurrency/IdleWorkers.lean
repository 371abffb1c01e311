/-
# `Jar.Concurrency.IdleWorkers` — which tasks an idle worker waits for

A worker takes tasks from every queue while it scans, and then sleeps on its
home queue alone; a producer chooses its queue by a counter and notifies the
sleepers of that queue.  So an idle worker waits for the tasks of one queue.

A pool is quiescent when every worker is inside a task or asleep and nobody else
is under way.  Then the home queue of a sleeping worker is empty, and what still
is in some queue waits for the worker whose home that queue is to end its task
(`quiescent_queues`).  It waits although other workers are idle: a task may lie
in the home queue of a busy worker while its neighbour sleeps
(`idle_neighbour`).
-/
import Jar.Concurrency.Conservation

namespace Jar.Concurrency

open Jar.Lib

namespace ThreadPool

open RrScheduler (QueueCount)

variable {n : QueueCount} {τ : Type} [DecidableEq τ]

/-- Every worker is inside a task or asleep in `scheduled()`, and no call of
`schedule` is under way. -/
structure Quiescent (s : State n τ) : Prop where
  workers : ∀ w, (∃ x, s.run w = .running x) ∨ ∃ q, AsleepOn s w q
  producers : ∀ x, s.sched.ctl.schedule x = .uncalled ∨ s.sched.ctl.schedule x = .returned

/-! ## A worker inside a task has a home -/

theorem threadIndex_step {c : RrScheduler.Control (Fin n.size) τ Unit}
    {e : RrScheduler.Step n (Fin n.size) τ Unit} {w : Fin n.size}
    (h : (c.threadIndex w).isSome) : ((RrScheduler.step c e).threadIndex w).isSome := by
  cases e with
  | initIndex i =>
      show (Function.update c.threadIndex i (some c.popIndex) w).isSome
      rcases eq_or_ne w i with rfl | hne
      · rw [Function.update_self]
        rfl
      · rw [Function.update_of_ne hne]
        exact h
  | _ => exact h

theorem threadIndex_next {s : State n τ} {e : Event n τ} {w : Fin n.size}
    (h : (s.sched.ctl.threadIndex w).isSome) : ((next s e).sched.ctl.threadIndex w).isSome := by
  rw [sched_next]
  cases hb : seen e with
  | none => exact h
  | some b =>
      cases b with
      | ctl e => exact threadIndex_step h
      | inner q m => exact h

/-- A worker that has been given a task has drawn its index. -/
theorem running_indexed {s : State n τ} (h : (machine n τ).Reachable s) {w : Fin n.size} {x : τ}
    (hx : s.run w = .running x) : (s.sched.ctl.threadIndex w).isSome := by
  refine h.invariant
    (I := fun s => ∀ w x, s.run w = .running x → (s.sched.ctl.threadIndex w).isSome) ?_ ?_ w x hx
  · intro s hs w x hx
    rw [show s = State.initial n τ from hs] at hx
    cases hx
  · intro s e hr he ih w x hx
    refine threadIndex_next ?_
    change enabled s e at he
    have hupdate : ∀ (v : Fin n.size) (p : RunPc τ), (p = .running x → v = w →
        (s.sched.ctl.threadIndex w).isSome) → Function.update s.run v p w = .running x →
        (s.sched.ctl.threadIndex w).isSome := by
      intro v p hp hw
      rcases eq_or_ne w v with rfl | hne
      · rw [Function.update_self] at hw
        exact hp hw rfl
      · rw [Function.update_of_ne hne] at hw
        exact ih w x hw
    cases e with
    | ask v old => exact hupdate v (.asking old) nofun hx
    | got v old task =>
        refine hupdate v (.assigned task) ?_ hx
        rintro - rfl
        have hdone : s.sched.ctl.scheduled v = .done task := he.2.1
        exact (indexed hr).known v (by rw [hdone]; exact nofun) (by rw [hdone]; exact nofun)
    | finish v y => exact hupdate v (.loop (some y)) nofun hx
    | _ => exact ih w x hx

/-! ## Quiescent pools

Nobody is about to do anything but the workers inside a task.  A worker that sleeps
does so at home, and finds nothing there. -/

theorem asleep_home {s : State n τ} (h : (machine n τ).Reachable s) {w q : Fin n.size}
    (hs : AsleepOn s w q) : Home s w q := by
  obtain ⟨w', hw', hhome⟩ := home_of_pop h hs rfl
  cases hw'
  exact hhome

theorem Quiescent.home {s : State n τ} (hq : Quiescent s) (h : (machine n τ).Reachable s)
    (w : Fin n.size) : ∃ q, Home s w q := by
  rcases hq.workers w with ⟨x, hx⟩ | ⟨q, hs⟩
  · obtain ⟨v, hv⟩ := Option.isSome_iff_exists.mp (running_indexed h hx)
    exact ⟨_, v, hv, rfl⟩
  · exact ⟨q, asleep_home h hs⟩

theorem Quiescent.not_pending {s : State n τ} (hq : Quiescent s) (h : (machine n τ).Reachable s)
    (q : Fin n.size) : ¬ NotifyPending s q := by
  rintro ⟨x, op, r, hpc⟩
  have hinside := (RrScheduler.agree (sched_reachable h)).inside hpc rfl
  cases hinside with
  | tryPush hx | push hx => rcases hq.producers x with hp | hp <;> rw [hx] at hp <;> cases hp

/-- **In a quiescent pool that has not been cleared, the home queue of a sleeping worker
is empty, and a queue that is not is the home of a worker inside a task.** -/
theorem quiescent_queues {s : State n τ} (h : (machine n τ).Reachable s)
    (hclear : s.sched.ctl.clear () = .uncalled) (hq : Quiescent s) :
    (∀ w q, AsleepOn s w q → Home s w q ∧ RrScheduler.contents s.sched q = []) ∧
      ∀ q, RrScheduler.contents s.sched q ≠ [] → ∃ w x, Home s w q ∧ s.run w = .running x := by
  have hempty : ∀ w q, AsleepOn s w q → RrScheduler.contents s.sched q = [] := by
    intro w q hs
    by_contra htask
    exact hq.not_pending h q (answered h hclear htask hs)
  refine ⟨fun w q hs => ⟨asleep_home h hs, hempty w q hs⟩, fun q htask => ?_⟩
  obtain ⟨w, hw⟩ := home_surjective h (hq.home h) q
  rcases hq.workers w with ⟨x, hx⟩ | ⟨p, hs⟩
  · exact ⟨w, x, hw, hx⟩
  · -- a worker asleep is asleep at home, and its home is `q`
    obtain ⟨v, hv, rfl⟩ := hw
    obtain ⟨v', hv', rfl⟩ := asleep_home h hs
    rw [hv] at hv'
    cases hv'
    exact absurd (hempty w _ hs) htask

/-! ## An idle neighbour

A worker looks through all queues before it goes to sleep, and then waits for its own
only.  The task that comes into another queue waits for the worker whose home that is. -/

def twoWorkers : QueueCount := .two

/-- The producer of task `x`, which finds queue `q` free and nobody asleep on it. -/
def produce (x : TaskName) (index : BitVec 32) (q : Fin twoWorkers.size) :
    List (Event twoWorkers TaskName) :=
  [.sched (.ctl (.schedule x)), .sched (.ctl (.fetchPush x)), .sched (.ctl (.tryPush x index 0)),
   .sched (.inner q (.lock (.schedule x) (.tryPush x))),
   .sched (.inner q (.body (.schedule x) (.tryPush x))),
   .sched (.inner q (.notifyOne (.schedule x) (.tryPush x) (.pushed true) none)),
   .sched (.ctl (.tryPushRet x index 0 true))]

/-- Round `k` of the scan of worker `w`, on queue `q`. -/
def look (w q : Fin twoWorkers.size) (k : BitVec 32) (task : Option TaskName) :
    List (Event twoWorkers TaskName) :=
  [.sched (.ctl (.tryPop w k)), .sched (.inner q (.lock (.scheduled w) .tryPop)),
   .sched (.inner q (.body (.scheduled w) .tryPop)), .sched (.ctl (.tryPopRet w k task))]

/-- The first task goes to the home queue of the first worker.  The second worker takes it
from there; the first finds nothing and goes to sleep; then the second task is scheduled,
and its queue is the home of the second. -/
def stolenThenScheduled : List (Event twoWorkers TaskName) :=
  [.ask 0 none, .sched (.ctl (.initIndex 0)), .ask 1 none, .sched (.ctl (.initIndex 1))] ++
    produce .first 0 0 ++ look 1 1 0 none ++ look 1 0 1 (some .first) ++
    [.got 1 none (some .first)] ++ look 0 0 0 none ++ look 0 1 1 none ++
    [.sched (.ctl (.pop 0 2)), .sched (.inner 0 (.lock (.scheduled 0) .pop)),
     .sched (.inner 0 (.body (.scheduled 0) .pop))] ++ produce .second 1 1

/-- What that run leads to. -/
def neighbours : State twoWorkers TaskName :=
  (machine twoWorkers TaskName).after (State.initial twoWorkers TaskName) stolenThenScheduled

theorem neighbours_reachable : (machine twoWorkers TaskName).Reachable neighbours :=
  Machine.Reachable.of_run rfl (by decide +kernel)

theorem neighbours_quiescent : Quiescent neighbours where
  workers := by
    unfold AsleepOn
    decide +kernel
  producers := by decide +kernel

theorem quiescent_queues_neighbours :
    ∃ w x, Home neighbours w 1 ∧ neighbours.run w = .running x :=
  (quiescent_queues neighbours_reachable (by decide +kernel) neighbours_quiescent).2 1
    (by decide +kernel)

/-- Quiescent, a worker asleep, and a task in a queue. -/
theorem idle_neighbour :
    ∃ s : State twoWorkers TaskName, (machine twoWorkers TaskName).Reachable s ∧
      s.sched.ctl.clear () = .uncalled ∧ Quiescent s ∧ (∃ w q, AsleepOn s w q) ∧
      ∃ q, RrScheduler.contents s.sched q ≠ [] :=
  ⟨neighbours, neighbours_reachable, by decide +kernel, neighbours_quiescent,
    ⟨0, 0, by unfold AsleepOn; decide +kernel⟩, 1, by decide +kernel⟩

end ThreadPool

end Jar.Concurrency
