/-
# `Jar.Concurrency.Construction` — a pool whose threads cannot all be started

The constructor of `thread_pool` starts its threads one after the other, and a
thread is in `run()` as soon as it is started.  Starting one may fail.  Then those
started before it are taken down by the destructor's own `join()`, which clears the
scheduler and joins every thread that is joinable, and the exception goes on; the
members of the pool, its scheduler among them, are destroyed after that.

    starting 0 ▸ starting 1 ▸ …  ▸ starting N ▸ constructed
        │            │
        └── fail ────┴──▸ clearing ▸ joining ▸ … ▸ thrown

Nobody has the scheduler yet, so no task is ever scheduled.  What has to be seen is
that `join()` comes to its end (`construction_ends`), and that it leaves nobody
inside the scheduler that is destroyed next (`nobody_left_behind`).
-/
import Jar.Concurrency.StepBounds

namespace Jar.Concurrency

open Jar.Lib

namespace Construction

open RrScheduler (QueueCount slot)

/-! ## The constructor

It starts the threads in order, or is in its handler with those that were started
before one failed.  The pool it works on is that of `Jar.Concurrency.ThreadPool`. -/

/-- The constructor about to start thread `j`; in its handler, with `k` threads started;
or at its end. -/
inductive CtorPc where
  | starting (j : ℕ)
  | clearing (k : ℕ)
  | joining (k j : ℕ)
  | constructed
  | thrown (k : ℕ)
  deriving DecidableEq, Repr

/-- The threads started so far. -/
def CtorPc.started (n : QueueCount) : CtorPc → ℕ
  | .starting j => j
  | .clearing k | .joining k _ | .thrown k => k
  | .constructed => n.size

/-- The pool, and how far its constructor is.  The pool's own `join` only tells whether
`clear()` has been called. -/
structure State (n : QueueCount) (τ : Type) where
  pool : ThreadPool.State n τ
  ctor : CtorPc

/-- A thread is started or fails to start; the constructor takes a step in its handler;
or a step is taken in the pool. -/
inductive Event (n : QueueCount) (τ : Type) where
  | start (w : Fin n.size)
  | fail (w : Fin n.size)
  | done
  | cleared (k : ℕ)
  | joinThread (k : ℕ) (w : Fin n.size)
  | skip (k : ℕ) (w : Fin n.size)
  | rethrow (k : ℕ)
  | pool (e : ThreadPool.Event n τ)

variable {n : QueueCount} {τ : Type}

/-- The steps of the threads that have been started: nobody calls `schedule`, and
`join()` is the constructor's. -/
def works (k : ℕ) : ThreadPool.Event n τ → Bool
  | .ask w _ | .got w _ _ | .finish w _ => decide (w.val < k)
  | .sched (.ctl (.schedule _)) | .destroy | .cleared | .joinThread _ | .joined => false
  | .sched _ => true

variable [DecidableEq τ]

def enabled (s : State n τ) : Event n τ → Prop
  | .start w => s.ctor = .starting w
  | .fail w => s.ctor = .starting w ∧ ThreadPool.enabled s.pool .destroy
  | .done => s.ctor = .starting n.size
  | .cleared k => s.ctor = .clearing k ∧ s.pool.sched.ctl.clear () = .returned
  -- `if (thread.joinable())`
  | .joinThread k w => s.ctor = .joining k w ∧ w.val < k ∧ s.pool.run w = .exited
  | .skip k w => s.ctor = .joining k w ∧ k ≤ w.val
  | .rethrow k => s.ctor = .joining k n.size
  | .pool e => works (s.ctor.started n) e = true ∧ ThreadPool.enabled s.pool e

def next (s : State n τ) : Event n τ → State n τ
  | .start w => { s with ctor := .starting (w + 1) }
  | .fail w => ⟨ThreadPool.next s.pool .destroy, .clearing w⟩
  | .done => { s with ctor := .constructed }
  | .cleared k => { s with ctor := .joining k 0 }
  | .joinThread k w | .skip k w => { s with ctor := .joining k (w + 1) }
  | .rethrow k => { s with ctor := .thrown k }
  | .pool e => { s with pool := ThreadPool.next s.pool e }

def machine (n : QueueCount) (τ : Type) [DecidableEq τ] : Machine (State n τ) (Event n τ) where
  Init s := s = ⟨ThreadPool.State.initial n τ, .starting 0⟩
  Enabled := enabled
  next := next

instance [Fintype τ] (s : State n τ) (e : Event n τ) : Decidable (enabled s e) := by
  cases e <;> unfold enabled <;> infer_instance

instance [Fintype τ] (s : State n τ) (e : Event n τ) : Decidable ((machine n τ).Enabled s e) :=
  inferInstanceAs (Decidable (enabled s e))

variable {s : State n τ} {e : Event n τ}

/-! ## The pool under construction

A worker that has not been started does not move, and nobody calls `schedule`.  In the
handler the destructor's `join()` runs on the threads that are joinable; once
`clear()` has returned there, it stays so. -/

/-- What the constructor knows of its pool. -/
structure Built (s : State n τ) : Prop where
  pool : (ThreadPool.machine n τ).Reachable s.pool
  started : s.ctor.started n ≤ n.size
  unstarted : ∀ w : Fin n.size, s.ctor.started n ≤ w.val → s.pool.run w = .loop none
  unscheduled : ∀ x, s.pool.sched.ctl.schedule x = .uncalled
  join : s.pool.join = match s.ctor with
    | .starting _ | .constructed => .alive
    | _ => .clearing
  cleared : ∀ k, (∃ j, s.ctor = .joining k j) ∨ s.ctor = .thrown k →
    s.pool.sched.ctl.clear () = .returned
  joining : ∀ k j, s.ctor = .joining k j → j ≤ n.size ∧
    ∀ w : Fin n.size, w.val < k → w.val < j → s.pool.run w = .exited
  thrown : ∀ k, s.ctor = .thrown k → ∀ w : Fin n.size, w.val < k → s.pool.run w = .exited

theorem Built.initial : Built (⟨ThreadPool.State.initial n τ, .starting 0⟩ : State n τ) where
  pool := Machine.Reachable.of_init rfl
  started := Nat.zero_le _
  unstarted _ _ := rfl
  unscheduled _ := rfl
  join := rfl
  cleared k h := by rcases h with ⟨j, h⟩ | h <;> cases h
  joining k j h := by cases h
  thrown k h := by cases h

theorem run_unstarted {p : ThreadPool.State n τ} {e : ThreadPool.Event n τ} {k : ℕ}
    (he : works k e = true) {w : Fin n.size} (hw : k ≤ w.val) :
    (ThreadPool.next p e).run w = p.run w := by
  have hne : ∀ v : Fin n.size, v.val < k → w ≠ v := by
    rintro v hlt rfl
    exact absurd hlt (Nat.not_lt.mpr hw)
  cases e with
  | ask v old => exact Function.update_of_ne (hne v (of_decide_eq_true he)) _ _
  | got v old task => exact Function.update_of_ne (hne v (of_decide_eq_true he)) _ _
  | finish v x => exact Function.update_of_ne (hne v (of_decide_eq_true he)) _ _
  | _ => rfl

theorem unscheduled_next {p : ThreadPool.State n τ} {e : ThreadPool.Event n τ} {k : ℕ}
    (hw : works k e = true) (he : ThreadPool.enabled p e) {x : τ}
    (hx : p.sched.ctl.schedule x = .uncalled) :
    (ThreadPool.next p e).sched.ctl.schedule x = .uncalled := by
  by_contra hnew
  cases e with
  | sched b =>
      cases b with
      | inner q m => exact hnew hx
      | ctl b =>
          obtain rfl := ThreadPool.called_of_begins he.2.1 hx hnew
          cases hw
  | _ => exact hnew hx

theorem returned_next {p : ThreadPool.State n τ} {e : ThreadPool.Event n τ} {k : ℕ}
    (hw : works k e = true) (he : ThreadPool.enabled p e)
    (hreturned : p.sched.ctl.clear () = .returned) :
    (ThreadPool.next p e).sched.ctl.clear () = .returned := by
  cases e with
  | sched b =>
      cases b with
      | inner q m => exact hreturned
      | ctl b =>
          rcases ThreadPool.clear_step he.2.1 with hsame | rfl | ⟨-, hunder, -⟩
          · exact hsame.trans hreturned
          · cases he.1
          · exact absurd hreturned hunder
  | destroy => cases hw
  | _ => exact hreturned

theorem join_next {p : ThreadPool.State n τ} {e : ThreadPool.Event n τ} {k : ℕ}
    (hw : works k e = true) : (ThreadPool.next p e).join = p.join := by
  cases e with
  | destroy | cleared | joinThread | joined => cases hw
  | _ => rfl

theorem Built.pool_next (h : Built s) {e : ThreadPool.Event n τ} (he : enabled s (.pool e)) :
    Built (next s (.pool e)) where
  pool := h.pool.step he.2
  started := h.started
  unstarted w hw := (run_unstarted he.1 hw).trans (h.unstarted w hw)
  unscheduled x := unscheduled_next he.1 he.2 (h.unscheduled x)
  join := (join_next he.1).trans h.join
  cleared k hk := returned_next he.1 he.2 (h.cleared k hk)
  joining k j hj := by
    obtain ⟨hle, hexited⟩ := h.joining k j hj
    exact ⟨hle, fun w hk hw => ThreadPool.exited_next he.2 (hexited w hk hw)⟩
  thrown k hk w hw := ThreadPool.exited_next he.2 (h.thrown k hk w hw)

theorem Built.fail (h : Built s) {w : Fin n.size} (he : enabled s (.fail w)) :
    Built (next s (.fail w)) where
  pool := h.pool.step he.2
  started := Nat.le_of_lt w.isLt
  unstarted v hv := by
    refine h.unstarted v ?_
    rw [he.1]
    exact hv
  unscheduled x := h.unscheduled x
  join := rfl
  cleared k hk := by
    rcases hk with ⟨j, hj⟩ | hk
    · cases hj
    · cases hk
  joining k j hj := by cases hj
  thrown k hk := by cases hk

theorem Built.handle (h : Built s) (hreturned : s.pool.sched.ctl.clear () = .returned) {k : ℕ}
    (hk : s.ctor.started n = k) (hjoin : s.pool.join = .clearing) {j : ℕ} (hj : j ≤ n.size)
    (hexited : ∀ w : Fin n.size, w.val < k → w.val < j → s.pool.run w = .exited) :
    Built { s with ctor := .joining k j } where
  pool := h.pool
  started := hk ▸ h.started
  unstarted w hw := h.unstarted w (hk ▸ hw)
  unscheduled := h.unscheduled
  join := hjoin
  cleared _ _ := hreturned
  joining k' j' hjoining := by
    cases hjoining
    exact ⟨hj, hexited⟩
  thrown _ hthrown := by cases hthrown

/-- The handler that joins the threads: `clear()` is behind it, and the threads it has
passed have exited. -/
theorem Built.handling (h : Built s) {k j : ℕ} (hctor : s.ctor = .joining k j) :
    s.pool.sched.ctl.clear () = .returned ∧ s.ctor.started n = k ∧ s.pool.join = .clearing := by
  have hjoin := h.join
  rw [hctor] at hjoin
  exact ⟨h.cleared k (Or.inl ⟨j, hctor⟩), by rw [hctor]; rfl, hjoin⟩

theorem Built.next (h : Built s) (he : enabled s e) : Built (next s e) := by
  cases e with
  | start w =>
      have hctor : s.ctor = .starting w := he
      refine ⟨h.pool, w.isLt, fun v hv => h.unstarted v ?_, h.unscheduled, ?_, fun k hk => ?_,
        nofun, nofun⟩
      · rw [hctor]
        exact Nat.le_of_succ_le hv
      · have hjoin := h.join
        rw [hctor] at hjoin
        exact hjoin
      · rcases hk with ⟨j, hj⟩ | hk
        · cases hj
        · cases hk
  | fail w => exact h.fail he
  | done =>
      have hctor : s.ctor = .starting n.size := he
      refine ⟨h.pool, Nat.le_refl _, fun v hv => absurd v.isLt (Nat.not_lt.mpr hv), h.unscheduled,
        ?_, fun k hk => ?_, nofun, nofun⟩
      · have hjoin := h.join
        rw [hctor] at hjoin
        exact hjoin
      · rcases hk with ⟨j, hj⟩ | hk
        · cases hj
        · cases hk
  | cleared k =>
      obtain ⟨hctor, hreturned⟩ := he
      have hjoin := h.join
      rw [hctor] at hjoin
      exact h.handle hreturned (by rw [hctor]; rfl) hjoin (Nat.zero_le _)
        fun w _ hw => absurd hw (Nat.not_lt_zero _)
  | joinThread k w =>
      obtain ⟨hctor, hlt, hout⟩ := he
      obtain ⟨hreturned, hstarted, hjoin⟩ := h.handling hctor
      refine h.handle hreturned hstarted hjoin w.isLt fun v hv hvw => ?_
      rcases Nat.lt_or_eq_of_le (Nat.le_of_lt_succ hvw) with hless | heq
      · exact (h.joining k w hctor).2 v hv hless
      · rw [Fin.ext heq]
        exact hout
  | skip k w =>
      obtain ⟨hctor, hle⟩ := he
      obtain ⟨hreturned, hstarted, hjoin⟩ := h.handling hctor
      refine h.handle hreturned hstarted hjoin w.isLt fun v hv hvw => ?_
      exact (h.joining k w hctor).2 v hv (Nat.lt_of_lt_of_le hv hle)
  | rethrow k =>
      have hctor : s.ctor = .joining k n.size := he
      obtain ⟨hreturned, hstarted, hjoin⟩ := h.handling hctor
      refine ⟨h.pool, hstarted ▸ h.started, fun v hv => h.unstarted v (hstarted ▸ hv),
        h.unscheduled, hjoin, fun _ _ => hreturned, nofun,
        fun k' hk' w hw => ?_⟩
      cases hk'
      exact (h.joining k n.size hctor).2 w hw w.isLt
  | pool e => exact h.pool_next he

theorem built (h : (machine n τ).Reachable s) : Built s := by
  refine h.invariant (I := Built) ?_ fun s e _ he hs => hs.next he
  intro s hs
  rw [show s = ⟨ThreadPool.State.initial n τ, .starting 0⟩ from hs]
  exact Built.initial

/-! ## No task, and nobody left behind

A worker is given no task, for none was ever scheduled.  So when the exception goes on
the workers have left `run()`, no thread is inside `scheduled()`, and nothing moves
any more. -/

theorem Built.no_task (h : Built s) (x : τ) :
    x ∉ s.pool.executed ∧ ∀ w, s.pool.run w ≠ .running x := by
  have hplaces := ThreadPool.places_eq_entered h.pool x
  rw [ThreadPool.entered_uncalled (h.unscheduled x), ThreadPool.places] at hplaces
  refine ⟨List.count_eq_zero.mp (by omega), fun w hw => ?_⟩
  have hholder := ThreadPool.holders_running hw
  omega

theorem Built.outside (h : Built s) {k : ℕ} (hthrown : s.ctor = .thrown k) (w : Fin n.size) :
    s.pool.sched.ctl.scheduled w = .outside := by
  refine (ThreadPool.calling h.pool w).mpr fun old hasking => ?_
  rcases Nat.lt_or_ge w.val k with hlt | hge
  · rw [h.thrown k hthrown w hlt] at hasking
    cases hasking
  · rw [h.unstarted w (by rw [hthrown]; exact hge)] at hasking
    cases hasking

theorem Built.idle (h : Built s) {k : ℕ} (hthrown : s.ctor = .thrown k) (q : Fin n.size)
    (u : RrScheduler.Caller (Fin n.size) τ Unit) : (s.pool.sched.obj q).pc u = .idle := by
  refine RrScheduler.callable (ThreadPool.sched_reachable h.pool) ?_ q
  cases u with
  | schedule x => simp [RrScheduler.site, h.unscheduled x]
  | clear l => simp [RrScheduler.site, h.cleared k (Or.inr hthrown)]
  | scheduled w => simp [RrScheduler.site, h.outside hthrown w]

theorem Built.no_step (h : Built s) {k : ℕ} (hthrown : s.ctor = .thrown k) (e : Event n τ) :
    ¬ enabled s e := by
  have hreturned := h.cleared k (Or.inr hthrown)
  have hends : ∀ {c : CtorPc}, s.ctor = c → (∀ j, c ≠ .thrown j) → False :=
    fun hc hne => hne k (hc.symm.trans hthrown)
  intro he
  cases e with
  | start w => exact hends he nofun
  | fail w => exact hends he.1 nofun
  | done => exact hends he nofun
  | cleared k => exact hends he.1 nofun
  | joinThread k w => exact hends he.1 nofun
  | skip k w => exact hends he.1 nofun
  | rethrow k => exact hends he nofun
  | pool e =>
      obtain ⟨hworks, he⟩ := he
      rw [hthrown] at hworks
      cases e with
      | destroy | cleared | joinThread | joined => cases hworks
      | ask w old =>
          have hexited := h.thrown k hthrown w (of_decide_eq_true hworks)
          rw [he.1] at hexited
          cases hexited
      | got w old task =>
          have hexited := h.thrown k hthrown w (of_decide_eq_true hworks)
          rw [he.1] at hexited
          cases hexited
      | finish w x => exact (h.no_task x).2 w he
      | sched e =>
          obtain ⟨hauto, he⟩ := he
          by_cases ho : RrScheduler.own e = true
          · refine RrScheduler.Rests.atRest (s := s.pool.sched)
              ⟨fun x => Or.inl (h.unscheduled x), fun _ => Or.inr hreturned,
                fun w => Or.inl (h.outside hthrown w)⟩ (ThreadPool.sched_reachable h.pool) e ho he
          · cases e with
            | inner q m =>
                have hsource := (Monitor.enabled_source he.2).symm.trans (h.idle hthrown q m.thread)
                cases m with
                | spurious => cases hsource
                | call | ret => cases he.1
                | _ => exact ho rfl
            | ctl e =>
                cases e with
                | schedule => cases hworks
                | enter | leave | clear => cases hauto
                | _ => exact ho rfl

/-- **A constructor that fails leaves nobody behind.**  When it lets the exception go on,
the threads it had started have left `run()`, the others were never started, nobody is in
any operation of the scheduler's queues, no task was executed, and nothing moves any more. -/
theorem nobody_left_behind (h : (machine n τ).Reachable s) {k : ℕ} (hthrown : s.ctor = .thrown k) :
    (∀ w : Fin n.size, w.val < k → s.pool.run w = .exited) ∧
      (∀ w : Fin n.size, k ≤ w.val → s.pool.run w = .loop none) ∧
      (∀ q u, (s.pool.sched.obj q).pc u = .idle) ∧ s.pool.executed = [] ∧
      ∀ e, ¬ (machine n τ).Enabled s e := by
  have hbuilt := built h
  have hunstarted : ∀ w : Fin n.size, k ≤ w.val → s.pool.run w = .loop none := by
    intro w hw
    exact hbuilt.unstarted w (by rw [hthrown]; exact hw)
  exact ⟨hbuilt.thrown k hthrown, hunstarted, hbuilt.idle hthrown,
    List.eq_nil_iff_forall_not_mem.mpr fun x => (hbuilt.no_task x).1, hbuilt.no_step hthrown⟩

/-- The first thread looks into both queues and goes to sleep. -/
def fallsAsleep : List (ThreadPool.Event QueueCount.two Unit) :=
  [.ask 0 none, .sched (.ctl (.initIndex 0)),
   .sched (.ctl (.tryPop 0 0)), .sched (.inner 0 (.lock (.scheduled 0) .tryPop)),
   .sched (.inner 0 (.body (.scheduled 0) .tryPop)), .sched (.ctl (.tryPopRet 0 0 none)),
   .sched (.ctl (.tryPop 0 1)), .sched (.inner 1 (.lock (.scheduled 0) .tryPop)),
   .sched (.inner 1 (.body (.scheduled 0) .tryPop)), .sched (.ctl (.tryPopRet 0 1 none)),
   .sched (.ctl (.pop 0 2)), .sched (.inner 0 (.lock (.scheduled 0) .pop)),
   .sched (.inner 0 (.body (.scheduled 0) .pop))]

def clearsBoth : List (ThreadPool.Event QueueCount.two Unit) :=
  [.sched (.ctl (.clearQueue () 0)), .sched (.inner 0 (.lock (.clear ()) .clear)),
   .sched (.inner 0 (.body (.clear ()) .clear)),
   .sched (.inner 0 (.notifyAll (.clear ()) .clear .unit)), .sched (.ctl (.clearQueueRet () 0)),
   .sched (.ctl (.clearQueue () 1)), .sched (.inner 1 (.lock (.clear ()) .clear)),
   .sched (.inner 1 (.body (.clear ()) .clear)),
   .sched (.inner 1 (.notifyAll (.clear ()) .clear .unit)), .sched (.ctl (.clearQueueRet () 1)),
   .sched (.ctl (.clearRet ()))]

def wakesUp : List (ThreadPool.Event QueueCount.two Unit) :=
  [.sched (.inner 0 (.relock (.scheduled 0) .pop)), .sched (.inner 0 (.again (.scheduled 0) .pop)),
   .sched (.ctl (.popRet 0 none)), .got 0 none none]

/-- The first thread is asleep already when the second fails to start. -/
def secondFails : List (Event QueueCount.two Unit) :=
  [.start 0] ++ fallsAsleep.map .pool ++ [.fail 1] ++ clearsBoth.map .pool ++ [.cleared 1] ++
    wakesUp.map .pool ++ [.joinThread 1 0, .skip 1 1, .rethrow 1]

def refused : State QueueCount.two Unit :=
  (machine QueueCount.two Unit).after ⟨ThreadPool.State.initial QueueCount.two Unit, .starting 0⟩
    secondFails

theorem refused_reachable : (machine QueueCount.two Unit).Reachable refused :=
  Machine.Reachable.of_run rfl (by decide +kernel)

theorem nobody_left_behind_refused : refused.pool.run 0 = .exited ∧ refused.pool.executed = [] :=
  have hleft := nobody_left_behind (n := QueueCount.two) refused_reachable (k := 1)
    (by decide +kernel)
  ⟨hleft.1 0 (by decide), hleft.2.2.2.1⟩

/-! ## The constructor comes to its end

The scheduler's own steps are steps of the threads that have been started, and a
worker that `join()` waits for can go on to its exit. -/

/-- The steps that do not depend on the system: a thread may always fail to start, and a
spurious wake-up may never come. -/
def own : Event n τ → Bool
  | .fail _ => false
  | .pool e => ThreadPool.own e
  | _ => true

/-- Neither the constructor nor a thread it has started can take a step. -/
def AtRest (s : State n τ) : Prop := ∀ e, own e = true → ¬ enabled s e

omit [DecidableEq τ] in
theorem works_of_own {k : ℕ} {e : RrScheduler.Event n (Fin n.size) τ Unit}
    (ho : RrScheduler.own e = true) :
    works k (.sched e) = true ∧ own (.pool (.sched e)) = true ∧ ThreadPool.autonomous e = true := by
  cases e with
  | inner q m => exact ⟨rfl, ho, rfl⟩
  | ctl e =>
      cases e with
      | enter | leave | schedule | clear => cases ho
      | _ => exact ⟨rfl, rfl, rfl⟩

theorem AtRest.scheduler (hrest : AtRest s) : RrScheduler.AtRest s.pool.sched := by
  intro e ho he
  obtain ⟨hworks, hown, hauto⟩ := works_of_own ho
  exact hrest (.pool (.sched e)) hown ⟨hworks, hauto, he⟩

/-- A worker that `join()` waits for can go on to its exit. -/
theorem AtRest.exited (hrest : AtRest s) (h : Built s)
    (hreturned : s.pool.sched.ctl.clear () = .returned) {w : Fin n.size}
    (hw : w.val < s.ctor.started n) : s.pool.run w = .exited := by
  have hsched := ThreadPool.sched_reachable h.pool
  cases hrun : s.pool.run w with
  | exited => rfl
  | running x => exact absurd hrun ((h.no_task x).2 w)
  | loop old =>
      have hout : s.pool.sched.ctl.scheduled w = .outside :=
        (ThreadPool.calling h.pool w).mpr fun old' hold => by rw [hrun] at hold; cases hold
      exact absurd ⟨decide_eq_true hw, hrun, hout, trivial⟩ (hrest (.pool (.ask w old)) rfl)
  | asking old =>
      rcases (hrest.scheduler.rests hsched).scheduled w with hout | ⟨task, hdone⟩ | ⟨-, -, hcore⟩
      · exact absurd hrun ((ThreadPool.calling h.pool w).mp hout old)
      · exact absurd ⟨decide_eq_true hw, hrun, hdone, trivial⟩ (hrest (.pool (.got w old task)) rfl)
      · -- nobody sleeps on a queue that `clear()` has left
        have hcancelled := RrScheduler.all_cancelled hsched hreturned
          (slot n (s.pool.sched.ctl.index w))
        rw [RrScheduler.cancelled, hcore] at hcancelled
        cases hcancelled

/-- **The constructor comes to its end**, whether its threads start or not: when nothing can
move any more, it has built the pool or has let the exception go on. -/
theorem construction_ends (h : (machine n τ).Reachable s) (hrest : AtRest s) :
    s.ctor = .constructed ∨ ∃ k, s.ctor = .thrown k := by
  have hbuilt := built h
  cases hctor : s.ctor with
  | constructed => exact Or.inl rfl
  | thrown k => exact Or.inr ⟨k, rfl⟩
  | starting j =>
      have hle := hbuilt.started
      rw [hctor] at hle
      rcases Nat.lt_or_eq_of_le hle with hlt | heq
      · exact absurd hctor (hrest (.start ⟨j, hlt⟩) rfl)
      · exact absurd (hctor.trans (congrArg _ heq)) (hrest .done rfl)
  | clearing k =>
      have hjoin := hbuilt.join
      rw [hctor] at hjoin
      have hclear := (hrest.scheduler.rests (ThreadPool.sched_reachable hbuilt.pool)).clear ()
      rcases hclear with huncalled | hreturned
      · have halive := (ThreadPool.destroying hbuilt.pool).alive.mpr huncalled
        rw [hjoin] at halive
        cases halive
      · exact absurd ⟨hctor, hreturned⟩ (hrest (.cleared k) rfl)
  | joining k j =>
      obtain ⟨hreturned, hstarted, -⟩ := hbuilt.handling hctor
      obtain ⟨hle, -⟩ := hbuilt.joining k j hctor
      rcases Nat.lt_or_eq_of_le hle with hlt | rfl
      · rcases Nat.lt_or_ge j k with hjk | hkj
        · have hexited := hrest.exited hbuilt hreturned (w := ⟨j, hlt⟩) (hstarted.symm ▸ hjk)
          exact absurd ⟨hctor, hjk, hexited⟩ (hrest (.joinThread k ⟨j, hlt⟩) rfl)
        · exact absurd ⟨hctor, hkj⟩ (hrest (.skip k ⟨j, hlt⟩) rfl)
      · exact absurd hctor (hrest (.rethrow k) rfl)

theorem construction_ends_refused : refused.ctor = .constructed ∨ ∃ k, refused.ctor = .thrown k :=
  construction_ends (n := QueueCount.two) refused_reachable fun e _ =>
    (built refused_reachable).no_step (by decide +kernel : refused.ctor = .thrown 1) e

end Construction

end Jar.Concurrency
