/-
# `Jar.Concurrency.Settlement` — every future of a destroyed pool is settled

`wait(chain)` on a pool makes a promise, shared by all copies of its receiver: in
`wait` itself and the objects it builds, in the task it gives to `schedule`, and
in the copies of that task in the pool.  Receivers are copied and never moved, so
every one of these is counted in the `use_count` of the promise, and the promise
is destroyed, and breaks its state if nobody has resolved it, when the last of
them goes.

    use_count x  =  copies in wait(x) and what it builds
                  + copies of the task in the pool, as long as the pool is there

The count is kept here as the code keeps it, step by step, and the equation is an
invariant (`ledger`).  When the destructor has finished and `wait` has returned
both terms on the right are 0, so the state is settled (`futures_settled`):
whoever let go last, a worker, `clear()`, the destructor of a queue, or `wait`.
-/
import Jar.Concurrency.SharedState
import Jar.Concurrency.TaskCopies

namespace Jar.Concurrency

open Jar.Lib

namespace Settlement

open RrScheduler (QueueCount SchedulePc Pushing)
open ThreadPool (inPool queued copied movedIn released)

/-! ## Calls of `wait` on a pool

Each call of `wait` has a promise, which its receiver owns, and a future.  The
receiver is copied along with the task that captures it: into the argument of
`schedule`, into a queue, into the hand of a worker. -/

inductive WaitPc where
  | uncalled
  | active
  | returned
  deriving DecidableEq, Repr

/-- The task a worker runs: about to ask `is_canceled`, running its chain, or with
the outcome reported to the receiver. -/
inductive TaskPc where
  | starting
  | computing
  | ended
  deriving DecidableEq, Repr

/-- The pool, and for every call `x` of `wait`, whose chain gives a value of type `V x`:
where it stands, how many copies of the receiver it holds, the `use_count` of its
promise, and the shared state behind its future. -/
structure State (n : QueueCount) (τ : Type) (V : τ → Type) (E : Type) where
  pool : ThreadPool.State n τ
  alive : Bool
  wait : τ → WaitPc
  frame : τ → ℕ
  useCount : τ → ℕ
  shared : ∀ x, SharedState (V x) E
  task : Fin n.size → TaskPc

/-- A step of a call of `wait`, of the pool, of a task under execution, of the owner
of a future, or the end of the pool's destructor. -/
inductive Event (n : QueueCount) (τ : Type) (V : τ → Type) (E : Type) where
  | create (x : τ)
  | copy (x : τ)
  | drop (x : τ)
  | ret (x : τ)
  | pool (e : ThreadPool.Event n τ)
  | check (w : Fin n.size) (x : τ)
  | settle (w : Fin n.size) (x : τ) (outcome : Except E (V x))
  | cancel (x : τ)
  | destroyQueues

variable {n : QueueCount} {τ : Type} {V : τ → Type} {E : Type} [DecidableEq τ]

/-- The function object of the call `schedule(x)`, which is not yet moved into the
last `push`: one of the copies that `wait(x)` holds. -/
def functionAt : SchedulePc → ℕ
  | .entered | .looping _ _ | .trying _ _ => 1
  | _ => 0

/-- What a step of the pool has to wait for: `schedule` is called by `wait`, with a
function object built, and a worker ends a task when it has run. -/
def ready (s : State n τ V E) : ThreadPool.Event n τ → Bool
  | .sched (.ctl (.schedule x)) => s.wait x = .active ∧ 2 ≤ s.frame x
  | .finish w _ => s.task w = .ended
  | _ => true

/-- `wait` drops the copies it has made, the function object after its call, and the
local `receiver` last.  The queues are destroyed when the destructor has joined
the workers and nobody is inside the scheduler. -/
def enabled (s : State n τ V E) : Event n τ V E → Prop
  | .create x => s.wait x = .uncalled
  | .copy x => s.wait x = .active
  | .drop x => s.wait x = .active ∧ 1 + functionAt (s.pool.sched.ctl.schedule x) < s.frame x
  | .ret x => s.wait x = .active ∧ s.pool.sched.ctl.schedule x = .returned ∧ s.frame x = 1
  | .pool e => s.alive = true ∧ (ThreadPool.machine n τ).Enabled s.pool e ∧ ready s e
  | .check w x => s.pool.run w = .running x ∧ s.task w = .starting
  | .settle w x _ => s.pool.run w = .running x ∧ s.task w = .computing
  | .cancel x => s.wait x ≠ .uncalled
  | .destroyQueues => s.alive = true ∧ s.pool.join = .joined ∧
      ∀ x, s.pool.sched.ctl.schedule x = .uncalled ∨ s.pool.sched.ctl.schedule x = .returned

/-- `m x` copies of receiver `x` are destroyed; with the last one goes the promise,
which breaks a state that is not resolved. -/
def State.release (s : State n τ V E) (m : τ → ℕ) : State n τ V E :=
  { s with useCount := fun x => s.useCount x - m x
           shared := fun x =>
             if 0 < m x ∧ s.useCount x ≤ m x then SharedState.broken (s.shared x)
             else s.shared x }

/-- How a chain's outcome is reported: `set_value` or `set_exception`. -/
def report {V E : Type} : Except E V → SharedState V E → SharedState V E
  | .ok v => SharedState.setValue (some v)
  | .error e => SharedState.setException e

def next (s : State n τ V E) : Event n τ V E → State n τ V E
  | .create x =>
      { s with wait := Function.update s.wait x .active
               frame := Function.update s.frame x 1
               useCount := Function.update s.useCount x 1
               shared := Function.update s.shared x .fresh }
  | .copy x =>
      { s with frame := Function.update s.frame x (s.frame x + 1)
               useCount := Function.update s.useCount x (s.useCount x + 1) }
  | .drop x =>
      { s with frame := Function.update s.frame x (s.frame x - 1) }.release (Pi.single x 1)
  | .ret x =>
      { s with wait := Function.update s.wait x .returned
               frame := Function.update s.frame x 0 }.release (Pi.single x 1)
  | .pool e =>
      { s with pool := (ThreadPool.machine n τ).next s.pool e
               frame := fun x => s.frame x - movedIn x e
               useCount := fun x => s.useCount x + copied x e
               task := match e with
                 | .finish w _ => Function.update s.task w .starting
                 | _ => s.task }.release fun x => released s.pool x e
  | .check w x =>
      { s with task := Function.update s.task w
                 (if (s.shared x).isCanceled then .ended else .computing) }
  | .settle w x outcome =>
      { s with shared := Function.update s.shared x (report outcome (s.shared x))
               task := Function.update s.task w .ended }
  | .cancel x => { s with shared := Function.update s.shared x (SharedState.cancel (s.shared x)) }
  | .destroyQueues => { s with alive := false }.release (queued s.pool)

def State.initial : State n τ V E where
  pool := ThreadPool.State.initial n τ
  alive := true
  wait _ := .uncalled
  frame _ := 0
  useCount _ := 0
  shared _ := .fresh
  task _ := .starting

def machine (n : QueueCount) (τ : Type) (V : τ → Type) (E : Type) [DecidableEq τ] :
    Machine (State n τ V E) (Event n τ V E) where
  Init s := s = State.initial
  Enabled := enabled
  next := next

instance [Fintype τ] (s : State n τ V E) (e : Event n τ V E) : Decidable (enabled s e) := by
  cases e <;> unfold enabled <;> infer_instance

instance [Fintype τ] (s : State n τ V E) (e : Event n τ V E) :
    Decidable ((machine n τ V E).Enabled s e) :=
  inferInstanceAs (Decidable (enabled s e))

/-! ## The control of `schedule`, seen from `wait`

The function object of a call is there from its beginning until it is moved into
`push` or the call is over.  A step of the pool is a step of that call, or leaves it
alone. -/

omit [DecidableEq τ] in
/-- A step of a call, its beginning apart, finds the call under way. -/
theorem under_way {c : RrScheduler.Control (Fin n.size) τ Unit}
    {e : RrScheduler.Step n (Fin n.size) τ Unit} (hg : RrScheduler.guard n c e) {x : τ}
    (hcaller : e.caller = .schedule x) (hne : e ≠ .schedule x) :
    c.schedule x ≠ .uncalled ∧ c.schedule x ≠ .returned := by
  have hpc : ∀ {p : SchedulePc}, c.schedule x = p → p ≠ .uncalled → p ≠ .returned →
      c.schedule x ≠ .uncalled ∧ c.schedule x ≠ .returned := by
    intro p hp huncalled hreturned
    rw [hp]
    exact ⟨huncalled, hreturned⟩
  cases e with
  | schedule y =>
      cases hcaller
      exact absurd rfl hne
  | fetchPush y | tryPushRet y _ _ _ | pushRet y _ =>
      cases hcaller
      exact hpc hg nofun nofun
  | tryPush y _ _ | push y _ _ =>
      have hy := hg.1
      cases hcaller
      exact hpc hy nofun nofun
  | _ => cases hcaller

/-- The function object goes when it is moved into `push`, or when the call is over;
it is there from the beginning of the call. -/
theorem function_step {c : RrScheduler.Control (Fin n.size) τ Unit}
    {e : RrScheduler.Step n (Fin n.size) τ Unit} (hg : RrScheduler.guard n c e) {x : τ}
    (hcaller : e.caller = .schedule x) (hne : e ≠ .schedule x) :
    functionAt ((RrScheduler.step c e).schedule x) + movedIn x (.sched (.ctl e)) ≤
      functionAt (c.schedule x) := by
  cases e with
  | schedule y =>
      cases hcaller
      exact absurd rfl hne
  | fetchPush y =>
      have hy : c.schedule y = .entered := hg
      cases hcaller
      simp [RrScheduler.step, RrScheduler.Control.setSchedule, hy, functionAt, movedIn]
  | tryPush y index k =>
      have hy := hg.1
      cases hcaller
      simp [RrScheduler.step, RrScheduler.Control.setSchedule, hy, functionAt, movedIn]
  | tryPushRet y index k ok =>
      have hy : c.schedule y = .trying index k := hg
      cases hcaller
      cases ok <;>
        simp [RrScheduler.step, RrScheduler.Control.setSchedule, hy, functionAt, movedIn]
  | push y index k =>
      have hy := hg.1
      cases hcaller
      simp [RrScheduler.step, RrScheduler.Control.setSchedule, hy, functionAt, movedIn]
  | pushRet y index =>
      have hy : c.schedule y = .pushing index := hg
      cases hcaller
      simp [RrScheduler.step, RrScheduler.Control.setSchedule, hy, functionAt, movedIn]
  | _ => cases hcaller

/-- A step of the pool that is not one of the call `schedule(x)` leaves it where it
is, and its function object alone. -/
theorem schedule_elsewhere (p : ThreadPool.State n τ) {e : ThreadPool.Event n τ} {x : τ}
    (h : ∀ c, e = .sched (.ctl c) → c.caller ≠ .schedule x) :
    ((ThreadPool.machine n τ).next p e).sched.ctl.schedule x = p.sched.ctl.schedule x ∧
      copied x e = 0 ∧ movedIn x e = 0 := by
  cases e with
  | sched e =>
      cases e with
      | inner q m => exact ⟨rfl, rfl, rfl⟩
      | ctl c =>
          have hcaller := h c rfl
          exact ⟨RrScheduler.step_schedule_of_ne _ c hcaller, ThreadPool.copies_of_ne hcaller⟩
  | _ => exact ⟨rfl, rfl, rfl⟩

/-- What a step of the pool does to the call `schedule(x)`: nothing; or it begins
the call; or it is a step of the call under way. -/
theorem schedule_moves {p : ThreadPool.State n τ} {e : ThreadPool.Event n τ}
    (he : (ThreadPool.machine n τ).Enabled p e) (x : τ) :
    (((ThreadPool.machine n τ).next p e).sched.ctl.schedule x = p.sched.ctl.schedule x ∧
        copied x e = 0 ∧ movedIn x e = 0) ∨
      e = .sched (.ctl (.schedule x)) ∨
      ((p.sched.ctl.schedule x ≠ .uncalled ∧ p.sched.ctl.schedule x ≠ .returned) ∧
        functionAt (((ThreadPool.machine n τ).next p e).sched.ctl.schedule x) + movedIn x e ≤
          functionAt (p.sched.ctl.schedule x)) := by
  by_cases hctl : ∃ c, e = .sched (.ctl c) ∧ c.caller = .schedule x
  case neg =>
    exact Or.inl (schedule_elsewhere p fun c hc hcaller => hctl ⟨c, hc, hcaller⟩)
  obtain ⟨c, rfl, hcaller⟩ := hctl
  have hg : RrScheduler.guard n p.sched.ctl c := he.2.1
  by_cases hne : c = .schedule x
  · exact Or.inr (Or.inl (by rw [hne]))
  · exact Or.inr (Or.inr ⟨under_way hg hcaller hne, function_step hg hcaller hne⟩)

/-! ## The ledger

For each call the copies of its receiver are counted, and the count is that of its
owners.  When the last one goes, the promise breaks what is not resolved. -/

/-- **The receivers of a call are accounted for**: `frame` of them are held by `wait`,
one for as long as it is active and one more while `schedule` has the function
object, and `copies` are in the pool. -/
structure Account (wait : WaitPc) (call : SchedulePc) (frame copies useCount : ℕ) : Prop where
  count : useCount = frame + copies
  uncalled : wait = .uncalled → useCount = 0 ∧ call = .uncalled
  active : wait = .active → 1 + functionAt call ≤ frame
  returned : wait = .returned → frame = 0 ∧ call = .returned

namespace Account

variable {call : SchedulePc} {frame copies useCount : ℕ}

theorem create (h : Account .uncalled call frame copies useCount) :
    Account .active call 1 copies 1 := by
  obtain ⟨hnone, rfl⟩ := h.uncalled rfl
  have hcount := h.count
  exact ⟨by omega, nofun, fun _ => Nat.le_refl 1, nofun⟩

theorem copy (h : Account .active call frame copies useCount) :
    Account .active call (frame + 1) copies (useCount + 1) := by
  have hcount := h.count
  have hactive := h.active rfl
  exact ⟨by omega, nofun, fun _ => by omega, nofun⟩

theorem drop (h : Account .active call frame copies useCount) (hlt : 1 + functionAt call < frame) :
    Account .active call (frame - 1) copies (useCount - 1) := by
  have hcount := h.count
  exact ⟨by omega, nofun, fun _ => by omega, nofun⟩

theorem ret (h : Account .active .returned 1 copies useCount) :
    Account .returned .returned 0 copies (useCount - 1) := by
  have hcount := h.count
  exact ⟨by omega, nofun, nofun, fun _ => ⟨rfl, rfl⟩⟩

theorem outside {wait : WaitPc} (h : Account wait call frame copies useCount) {released copies' : ℕ}
    (hcopies : copies' + released = copies) :
    Account wait call frame copies' (useCount - released) := by
  have hcount := h.count
  refine ⟨by omega, ?_, h.active, h.returned⟩
  intro hw
  obtain ⟨hnone, hcall⟩ := h.uncalled hw
  exact ⟨by omega, hcall⟩

theorem schedule (h : Account .active .uncalled frame copies useCount) (hframe : 2 ≤ frame) :
    Account .active .entered frame copies useCount :=
  ⟨h.count, nofun, fun _ => hframe, nofun⟩

theorem inside {wait : WaitPc} (h : Account wait call frame copies useCount)
    (huncalled : call ≠ .uncalled) (hreturned : call ≠ .returned)
    {call' : SchedulePc} {copied moved released copies' : ℕ}
    (hfunction : functionAt call' + moved ≤ functionAt call)
    (hcopies : copies' + released = copies + copied + moved) :
    Account wait call' (frame - moved) copies' (useCount + copied - released) := by
  have hcount := h.count
  cases wait with
  | uncalled => exact absurd (h.uncalled rfl).2 huncalled
  | returned => exact absurd (h.returned rfl).2 hreturned
  | active =>
      have hactive := h.active rfl
      exact ⟨by omega, nofun, fun _ => by omega, nofun⟩

end Account

/-- The receivers of call `x` in the pool; there are none when the pool is gone. -/
def State.copies (s : State n τ V E) (x : τ) : ℕ := if s.alive then inPool s.pool x else 0

def State.account (s : State n τ V E) (x : τ) : Prop :=
  Account (s.wait x) (s.pool.sched.ctl.schedule x) (s.frame x) (s.copies x) (s.useCount x)

/-- A promise that has been made and has no receiver left has a resolved state. -/
def Settled (s : State n τ V E) : Prop :=
  ∀ x, s.wait x ≠ .uncalled → s.useCount x = 0 → (s.shared x).state ≠ .init

structure Ledger (s : State n τ V E) : Prop where
  pool : (ThreadPool.machine n τ).Reachable s.pool
  account : ∀ x, s.account x
  settled : Settled s

variable {s s' : State n τ V E} {x : τ}

omit [DecidableEq τ] in
theorem Settled.release (h : Settled s) (m : τ → ℕ) : Settled (s.release m) := by
  intro x hx hcount
  change s.useCount x - m x = 0 at hcount
  show (if 0 < m x ∧ s.useCount x ≤ m x then SharedState.broken (s.shared x)
    else s.shared x).state ≠ .init
  split
  · exact SharedState.resolve_ready _ _
  · rename_i hlast
    exact h x hx (by omega)

theorem Ledger.account_of (h : Ledger s) {p : WaitPc} (hx : s.wait x = p) :
    Account p (s.pool.sched.ctl.schedule x) (s.frame x) (s.copies x) (s.useCount x) := by
  rw [← hx]
  exact h.account x

theorem Ledger.initial : Ledger (State.initial : State n τ V E) where
  pool := Machine.Reachable.of_init rfl
  account x := by
    refine ⟨?_, fun _ => ⟨rfl, rfl⟩, nofun, nofun⟩
    have hqueued : queued (ThreadPool.State.initial n τ) x = 0 := tally_eq_zero fun _ _ => rfl
    have hholders : ThreadPool.holders (ThreadPool.State.initial n τ) x = 0 :=
      tally_eq_zero fun _ _ => rfl
    have hleft : ThreadPool.leftovers (ThreadPool.State.initial n τ) x = 0 :=
      tally_eq_zero fun _ _ => rfl
    show 0 = 0 + (0 + queued (ThreadPool.State.initial n τ) x +
      ThreadPool.holders (ThreadPool.State.initial n τ) x +
      ThreadPool.leftovers (ThreadPool.State.initial n τ) x)
    rw [hqueued, hholders, hleft]
  settled _ h := absurd rfl h

theorem Ledger.step_wait (h : Ledger s) {p : WaitPc} {k c : ℕ}
    (hpool : s'.pool = s.pool) (halive : s'.alive = s.alive)
    (hwait : s'.wait = Function.update s.wait x p)
    (hframe : s'.frame = Function.update s.frame x k)
    (hcount : s'.useCount = Function.update s.useCount x c)
    (hx : Account p (s.pool.sched.ctl.schedule x) k (s.copies x) c)
    (hsettled : Settled s') : Ledger s' where
  pool := by rw [hpool]; exact h.pool
  account y := by
    have hcopies : s'.copies y = s.copies y := by
      unfold State.copies
      rw [halive, hpool]
    unfold State.account
    rw [hpool, hwait, hframe, hcount, hcopies]
    by_cases hy : y = x
    · subst hy
      rw [Function.update_self, Function.update_self, Function.update_self]
      exact hx
    · rw [Function.update_of_ne hy, Function.update_of_ne hy, Function.update_of_ne hy]
      exact h.account y
  settled := hsettled

theorem release_single (x : τ) :
    (s.release (Pi.single x 1)).useCount = Function.update s.useCount x (s.useCount x - 1) := by
  refine Function.eq_update_iff.mpr ⟨?_, ?_⟩
  · show s.useCount x - (Pi.single x 1 : τ → ℕ) x = _
    rw [Pi.single_eq_same]
  · intro y hy
    show s.useCount y - (Pi.single x 1 : τ → ℕ) y = _
    rw [Pi.single_eq_of_ne hy, Nat.sub_zero]

theorem Ledger.create (h : Ledger s) (he : enabled s (.create x)) :
    Ledger (next s (.create x)) := by
  refine h.step_wait rfl rfl rfl rfl rfl (h.account_of he).create ?_
  intro y hw hcount
  change Function.update s.wait x .active y ≠ _ at hw
  change Function.update s.useCount x 1 y = 0 at hcount
  show (Function.update s.shared x .fresh y).state ≠ _
  by_cases hy : y = x
  · subst hy
    rw [Function.update_self] at hcount
    cases hcount
  · rw [Function.update_of_ne hy] at hw hcount ⊢
    exact h.settled y hw hcount

theorem Ledger.copy (h : Ledger s) (he : enabled s (.copy x)) :
    Ledger (next s (.copy x)) := by
  refine h.step_wait rfl rfl (Function.eq_update_self_iff.mpr he) rfl rfl
    (h.account_of he).copy ?_
  intro y hw hcount
  refine h.settled y hw ?_
  change Function.update s.useCount x (s.useCount x + 1) y = 0 at hcount
  by_cases hy : y = x
  · subst hy
    rw [Function.update_self] at hcount
    cases hcount
  · rwa [Function.update_of_ne hy] at hcount

theorem Ledger.drop (h : Ledger s) (he : enabled s (.drop x)) :
    Ledger (next s (.drop x)) := by
  obtain ⟨hx, hlt⟩ := he
  exact h.step_wait rfl rfl (Function.eq_update_self_iff.mpr hx) rfl (release_single x)
    ((h.account_of hx).drop hlt) (Settled.release (s := { s with frame := _ }) h.settled _)

theorem Ledger.ret (h : Ledger s) (he : enabled s (.ret x)) :
    Ledger (next s (.ret x)) := by
  obtain ⟨hx, hcall, hlast⟩ := he
  have haccount := h.account_of hx
  rw [hcall, hlast] at haccount
  refine h.step_wait rfl rfl rfl rfl (release_single x) ?_ (Settled.release ?_ _)
  · rw [hcall]
    exact haccount.ret
  · intro y hw hcount
    refine h.settled y ?_ hcount
    change Function.update s.wait x .returned y ≠ _ at hw
    by_cases hy : y = x
    · rw [hy, hx]
      exact nofun
    · rwa [Function.update_of_ne hy] at hw

/-! ### Steps of the pool, and of whoever resolves a state

A step that only resolves shared states, or only moves tasks along, changes no count;
the others make one copy or let one go, and so does the destructor of the queues for
each task left in them. -/

theorem Ledger.step_pool (h : Ledger s) {e : ThreadPool.Event n τ} (he : enabled s (.pool e)) :
    Ledger (next s (.pool e)) := by
  obtain ⟨halive, hen, hready⟩ := he
  refine ⟨h.pool.step hen, fun x => ?_, Settled.release ?_ _⟩
  · have haccount := h.account x
    have hcopies := ThreadPool.inPool_next h.pool hen x
    unfold State.account State.copies at haccount ⊢
    change Account (s.wait x) (((ThreadPool.machine n τ).next s.pool e).sched.ctl.schedule x)
      (s.frame x - movedIn x e)
      (if s.alive then inPool ((ThreadPool.machine n τ).next s.pool e) x else 0)
      (s.useCount x + copied x e - released s.pool x e)
    rw [if_pos halive] at haccount ⊢
    rcases schedule_moves hen x with ⟨hsame, hcopied, hmoved⟩ | rfl | ⟨⟨huncalled, hreturned⟩, hle⟩
    · rw [hcopied, hmoved] at hcopies
      rw [hsame, hcopied, hmoved]
      exact haccount.outside hcopies
    · obtain ⟨hx, hframe⟩ := of_decide_eq_true hready
      have hcall : s.pool.sched.ctl.schedule x = .uncalled := hen.2.1
      rw [hx, hcall] at haccount
      have hentered : ((ThreadPool.machine n τ).next s.pool
          (.sched (.ctl (.schedule x)))).sched.ctl.schedule x = .entered :=
        Function.update_self _ _ _
      rw [hentered, hx]
      exact (haccount.schedule hframe).outside hcopies
    · exact haccount.inside huncalled hreturned hle hcopies
  · intro x hw hcount
    exact h.settled x hw (Nat.eq_zero_of_add_eq_zero_right hcount)

theorem Ledger.resolved (h : Ledger s) (hpool : s'.pool = s.pool) (halive : s'.alive = s.alive)
    (hwait : s'.wait = s.wait) (hframe : s'.frame = s.frame) (hcount : s'.useCount = s.useCount)
    (hshared : ∀ x, s'.shared x = s.shared x ∨ (s'.shared x).state ≠ .init) : Ledger s' where
  pool := by rw [hpool]; exact h.pool
  account := by
    unfold State.account State.copies
    rw [hpool, halive, hwait, hframe, hcount]
    exact h.account
  settled := by
    intro x hw hzero
    rcases hshared x with hsame | hready
    · rw [hwait] at hw
      rw [hcount] at hzero
      rw [hsame]
      exact h.settled x hw hzero
    · exact hready

theorem Ledger.destroyQueues (h : Ledger s) (he : enabled s .destroyQueues) :
    Ledger (next s .destroyQueues) := by
  obtain ⟨halive, hjoined, hcalls⟩ := he
  refine ⟨h.pool, fun x => ?_, Settled.release (s := { s with alive := _ }) h.settled _⟩
  have hnotpushing : ¬ Pushing (s.pool.sched.ctl.schedule x) := by
    rcases hcalls x with hcall | hcall
    · rw [hcall]; exact nofun
    · rw [hcall]; exact nofun
  have haccount := h.account x
  unfold State.account State.copies at haccount
  rw [if_pos halive, ThreadPool.inPool_joined h.pool hjoined hnotpushing] at haccount
  exact haccount.outside (Nat.zero_add _)

theorem Ledger.next (h : Ledger s) {e : Event n τ V E} (he : enabled s e) :
    Ledger (next s e) := by
  cases e with
  | create x => exact h.create he
  | copy x => exact h.copy he
  | drop x => exact h.drop he
  | ret x => exact h.ret he
  | pool e => exact h.step_pool he
  | check w x => exact h.resolved rfl rfl rfl rfl rfl fun _ => Or.inl rfl
  | settle w x outcome =>
      cases outcome with
      | ok v => exact h.resolved rfl rfl rfl rfl rfl fun y =>
          SharedState.update_resolve s.shared (.setValue (some v)) y
      | error e => exact h.resolved rfl rfl rfl rfl rfl fun y =>
          SharedState.update_resolve s.shared (.setException e) y
  | cancel x => exact h.resolved rfl rfl rfl rfl rfl fun y =>
      SharedState.update_resolve s.shared (x := x) .cancel y
  | destroyQueues => exact h.destroyQueues he

theorem ledger (h : (machine n τ V E).Reachable s) : Ledger s := by
  refine h.invariant ?_ ?_
  · intro s hs
    rw [show s = State.initial from hs]
    exact Ledger.initial
  · intro s e _ he ih
    exact ih.next he

/-! ## The pool is gone -/

/-- **Destroying the pool settles every future.**  When the destructor has finished,
queues included, the state behind the future of every `wait` that has returned is
not `init`. -/
theorem futures_settled (h : (machine n τ V E).Reachable s) (hdead : s.alive = false) (x : τ)
    (hx : s.wait x = .returned) : (s.shared x).state ≠ .init := by
  have hledger := ledger h
  have haccount := hledger.account x
  obtain ⟨hframe, -⟩ := haccount.returned hx
  have hcopies : s.copies x = 0 := by
    unfold State.copies
    rw [hdead]
    rfl
  have hcount : s.useCount x = 0 := by
    have htotal := haccount.count
    rw [hframe, hcopies] at htotal
    exact htotal
  refine hledger.settled x ?_ hcount
  rw [hx]
  exact nofun

/-- The destructor clears the scheduler and its only worker leaves; then `wait` puts
its task into the cleared queue, where nobody looks any more, and returns. -/
def leftInQueue : List (Event ThreadPool.oneWorker Unit (fun _ => ℕ) String) :=
  [.pool .destroy, .pool (.sched (.ctl (.clearQueue () 0))),
   .pool (.sched (.inner 0 (.lock (.clear ()) .clear))),
   .pool (.sched (.inner 0 (.body (.clear ()) .clear))),
   .pool (.sched (.inner 0 (.notifyAll (.clear ()) .clear .unit))),
   .pool (.sched (.ctl (.clearQueueRet () 0))), .pool (.sched (.ctl (.clearRet ()))),
   .pool .cleared,
   .pool (.ask 0 none), .pool (.sched (.ctl (.initIndex 0))), .pool (.sched (.ctl (.tryPop 0 0))),
   .pool (.sched (.inner 0 (.lock (.scheduled 0) .tryPop))),
   .pool (.sched (.inner 0 (.body (.scheduled 0) .tryPop))),
   .pool (.sched (.ctl (.tryPopRet 0 0 none))), .pool (.sched (.ctl (.pop 0 1))),
   .pool (.sched (.inner 0 (.lock (.scheduled 0) .pop))),
   .pool (.sched (.inner 0 (.body (.scheduled 0) .pop))), .pool (.sched (.ctl (.popRet 0 none))),
   .pool (.got 0 none none),
   .create (), .copy (), .pool (.sched (.ctl (.schedule ()))),
   .pool (.sched (.ctl (.fetchPush ()))),
   .pool (.sched (.ctl (.tryPush () 0 0))),
   .pool (.sched (.inner 0 (.lock (.schedule ()) (.tryPush ())))),
   .pool (.sched (.inner 0 (.body (.schedule ()) (.tryPush ())))),
   .pool (.sched (.inner 0 (.notifyOne (.schedule ()) (.tryPush ()) (.pushed true) none))),
   .pool (.sched (.ctl (.tryPushRet () 0 0 true))), .drop (), .ret (),
   .pool (.joinThread 0), .pool .joined, .destroyQueues]

theorem futures_settled_leftInQueue :
    (((machine ThreadPool.oneWorker Unit (fun _ => ℕ) String).after State.initial
      leftInQueue).shared ()).state ≠ .init :=
  futures_settled (Machine.Reachable.of_run rfl (by decide)) (by decide) () (by decide)

end Settlement

end Jar.Concurrency
