/-
# `Jar.Concurrency.Retention` — what an idle worker holds on to

`run()` assigns its local `task` when `scheduled()` has returned, so the task a
worker executed last stays in the local, with all it captured, for as long as the
worker waits for the next one.  A promise that the task captured and left unset is
not broken, and whoever waits on its future waits until that worker gets another
task, or the pool is destroyed.

Tasks here are any function objects that share a promise: the copies of task `x`
are those of `Jar.Concurrency.TaskCopies` and the object the caller of `schedule(x)`
has, and the promise is destroyed with the last of them.

`letGo_iff` says exactly what is retained: of the tasks a worker has executed, the
last one.  So nothing is retained in precisely the runs in which no worker that has
executed a task is ever inside `scheduled()` (`nothing_retained_iff`).
-/
import Jar.Concurrency.Settlement

namespace Jar.Concurrency

open Jar.Lib

namespace Retention

open RrScheduler (QueueCount entered)
open ThreadPool (RunPc inPool queued holders leftovers leftAt itemAt copied movedIn released)
open Settlement (functionAt)
open SharedState (Resolution)

/-! ## A pool whose tasks capture promises

The function objects of a task share a promise, and with the last of them it is
destroyed. -/

/-- The pool, and the state behind the promise that task `x` captures. -/
structure State (n : QueueCount) (τ : Type) (V : τ → Type) (E : Type) where
  pool : ThreadPool.State n τ
  shared : ∀ x, SharedState (V x) E

/-- A step of the pool; a task under execution sets its promise; the owner of its future
cancels it. -/
inductive Event (n : QueueCount) (τ : Type) (V : τ → Type) (E : Type) where
  | pool (e : ThreadPool.Event n τ)
  | set (w : Fin n.size) (x : τ) (outcome : Except E (V x))
  | cancel (x : τ)

variable {n : QueueCount} {τ : Type} {V : τ → Type} {E : Type} [DecidableEq τ]

/-- The function objects of task `x`: the caller's, and those in the pool. -/
def references (p : ThreadPool.State n τ) (x : τ) : ℕ :=
  functionAt (p.sched.ctl.schedule x) + inPool p x

def enabled (s : State n τ V E) : Event n τ V E → Prop
  | .pool e => (ThreadPool.machine n τ).Enabled s.pool e
  | .set w x _ => s.pool.run w = .running x
  | .cancel _ => True

/-- With the last function object goes the promise, which breaks an unresolved state. -/
def next (s : State n τ V E) : Event n τ V E → State n τ V E
  | .pool e =>
      { pool := (ThreadPool.machine n τ).next s.pool e
        shared := fun x =>
          if 0 < references s.pool x ∧ references ((ThreadPool.machine n τ).next s.pool e) x = 0
          then SharedState.broken (s.shared x) else s.shared x }
  | .set _ x outcome =>
      { s with shared := Function.update s.shared x (Settlement.report outcome (s.shared x)) }
  | .cancel x => { s with shared := Function.update s.shared x (SharedState.cancel (s.shared x)) }

/-- A pool that has just been constructed, and promises that nobody has set. -/
def State.initial : State n τ V E := ⟨ThreadPool.State.initial n τ, fun _ => .fresh⟩

def machine (n : QueueCount) (τ : Type) (V : τ → Type) (E : Type) [DecidableEq τ] :
    Machine (State n τ V E) (Event n τ V E) where
  Init s := s = State.initial
  Enabled := enabled
  next := next

instance [Fintype τ] (s : State n τ V E) (e : Event n τ V E) : Decidable (enabled s e) := by
  cases e <;> unfold enabled <;> infer_instance

instance [Fintype τ] (s : State n τ V E) (e : Event n τ V E) :
    Decidable ((machine n τ V E).Enabled s e) :=
  inferInstanceAs (Decidable (enabled s e))

/-! ## What should be let go, and what is retained -/

/-- The tasks that worker `w` has executed, in order. -/
def executedBy (w : Fin n.size) (es : List (Event n τ V E)) : List τ :=
  es.filterMap fun
    | .pool (.finish v x) => if v = w then some x else none
    | _ => none

/-- Worker `w` is inside `scheduled()`. -/
def Waiting (s : State n τ V E) (w : Fin n.size) : Prop := ∃ old, s.pool.run w = .asking old

/-- Task `x` is destroyed, and, with the call that scheduled it over, so is what it captured:
its promise, if nobody has set it, is broken. -/
def LetGo (s : State n τ V E) (x : τ) : Prop :=
  inPool s.pool x = 0 ∧
    (s.pool.sched.ctl.schedule x = .returned → (s.shared x).state ≠ .init)

/-- A worker that waits for its next task has let go of all it has executed. -/
def NothingRetained (es : List (Event n τ V E)) : Prop :=
  ∀ w, Waiting ((machine n τ V E).after .initial es) w → ∀ x ∈ executedBy w es,
    LetGo ((machine n τ V E).after .initial es) x

variable {s : State n τ V E} {e : Event n τ V E} {es : List (Event n τ V E)} {w : Fin n.size}
  {x : τ}

/-- The pool of a reachable state is one the pool can reach. -/
def refines (n : QueueCount) (τ : Type) (V : τ → Type) (E : Type) [DecidableEq τ] :
    (machine n τ V E).Refines (ThreadPool.machine n τ) where
  view s := s.pool
  event _
    | .pool e => some e
    | _ => none
  init s hs := by
    rw [show s = State.initial from hs]
    rfl
  silent s e _ h := by
    cases e with
    | pool e => cases h
    | set w x outcome => rfl
    | cancel x => rfl
  visible s e b he h := by
    cases e with
    | pool e =>
        cases h
        exact ⟨he, rfl⟩
    | set w x outcome => cases h
    | cancel x => cases h

theorem pool_reachable (h : (machine n τ V E).Reachable s) :
    (ThreadPool.machine n τ).Reachable s.pool :=
  (refines n τ V E).reachable h

/-! ## The local of a worker

`run()` keeps the task it has executed last in a local, while it is inside
`scheduled()` for the next one. -/

omit [DecidableEq τ] in
theorem executedBy_finish (w : Fin n.size) (v : Fin n.size) (x : τ) :
    executedBy w (es ++ [.pool (.finish v x)]) =
      if v = w then executedBy w es ++ [x] else executedBy w es := by
  rcases eq_or_ne v w with rfl | hv
  · simp [executedBy]
  · simp [executedBy, hv]

omit [DecidableEq τ] in
theorem executedBy_of_ne (h : ∀ v x, e ≠ .pool (.finish v x)) :
    executedBy w (es ++ [e]) = executedBy w es := by
  have hlast : executedBy w [e] = [] := by
    cases e with
    | pool e =>
        cases e with
        | finish v x => exact absurd rfl (h v x)
        | _ => rfl
    | _ => rfl
  have hsplit : executedBy w (es ++ [e]) = executedBy w es ++ executedBy w [e] :=
    List.filterMap_append ..
  rw [hsplit, hlast, List.append_nil]

/-- What the local `task` holds between two tasks. -/
def kept : RunPc τ → Option (Option τ)
  | .loop task | .asking task => some task
  | _ => none

theorem leftAt_eq (x : τ) (p : RunPc τ) : leftAt x p = if kept p = some (some x) then 1 else 0 := by
  cases p with
  | loop task => simp [leftAt, kept]
  | asking task => simp [leftAt, kept]
  | running y => simp [leftAt, kept]
  | exited => simp [leftAt, kept]

/-- The local holds the task executed last. -/
def KeepsLast (es : List (Event n τ V E)) (s : State n τ V E) : Prop :=
  ∀ w task, kept (s.pool.run w) = some task → task = (executedBy w es).getLast?

theorem KeepsLast.next (h : KeepsLast es s) (he : enabled s e) :
    KeepsLast (es ++ [e]) (next s e) := by
  -- a step that is no end of a task, and leaves in the locals what is there
  have hkeep : (∀ v x, e ≠ .pool (.finish v x)) →
      (∀ w task, kept ((Retention.next s e).pool.run w) = some task →
        kept (s.pool.run w) = some task) → KeepsLast (es ++ [e]) (Retention.next s e) := by
    intro hne hlocal w task htask
    rw [executedBy_of_ne hne]
    exact h w task (hlocal w task htask)
  cases e with
  | set w x outcome => exact hkeep nofun fun _ _ htask => htask
  | cancel x => exact hkeep nofun fun _ _ htask => htask
  | pool e =>
      cases e with
      | finish v x =>
          intro w task htask
          change kept (Function.update s.pool.run v (.loop (some x)) w) = some task at htask
          rw [executedBy_finish]
          rcases eq_or_ne w v with rfl | hw
          · rw [Function.update_self] at htask
            rw [if_pos rfl, List.getLast?_concat]
            exact (Option.some.inj htask).symm
          · rw [Function.update_of_ne hw] at htask
            rw [if_neg (Ne.symm hw)]
            exact h w task htask
      | ask v old =>
          refine hkeep nofun fun w task htask => ?_
          change kept (Function.update s.pool.run v (.asking old) w) = some task at htask
          rcases eq_or_ne w v with rfl | hw
          · rw [Function.update_self] at htask
            rw [show s.pool.run w = .loop old from he.1]
            exact htask
          · rwa [Function.update_of_ne hw] at htask
      | got v old task' =>
          refine hkeep nofun fun w task htask => ?_
          change kept (Function.update s.pool.run v (.assigned task') w) = some task at htask
          rcases eq_or_ne w v with rfl | hw
          · rw [Function.update_self] at htask
            cases task' <;> cases htask
          · rwa [Function.update_of_ne hw] at htask
      | _ => exact hkeep nofun fun _ _ htask => htask

theorem keepsLast (h : (machine n τ V E).Run .initial es) :
    KeepsLast es ((machine n τ V E).after .initial es) := by
  refine Machine.Run.history (I := KeepsLast) ?_ (fun fs e _ he hfs => hfs.next he) h
  intro w task htask
  exact (Option.some.inj htask).symm

/-! ## Who has executed a task

No task is executed twice, so the copies in the pool of one that was executed are
those in the local of one worker. -/

/-- The workers' tasks are among the tasks executed, and not those of one worker among
those of another. -/
structure Recorded (es : List (Event n τ V E)) (s : State n τ V E) : Prop where
  each : ∀ w x, (executedBy w es).count x ≤ s.pool.executed.count x
  apart : ∀ w w' x, w ≠ w' →
    (executedBy w es).count x + (executedBy w' es).count x ≤ s.pool.executed.count x

theorem Recorded.next (h : Recorded es s) (e : Event n τ V E) :
    Recorded (es ++ [e]) (next s e) := by
  have hkeep : (∀ v x, e ≠ .pool (.finish v x)) →
      (Retention.next s e).pool.executed = s.pool.executed →
      Recorded (es ++ [e]) (Retention.next s e) := by
    intro hne hsame
    constructor
    · intro w x
      rw [executedBy_of_ne hne, hsame]
      exact h.each w x
    · intro w w' x hw
      rw [executedBy_of_ne hne, executedBy_of_ne hne, hsame]
      exact h.apart w w' x hw
  cases e with
  | set w x outcome => exact hkeep nofun rfl
  | cancel x => exact hkeep nofun rfl
  | pool e =>
      cases e with
      | finish v y =>
          have hexecuted : ∀ x, (Retention.next s (.pool (.finish v y))).pool.executed.count x =
              s.pool.executed.count x + [y].count x := fun x => List.count_append
          have hmine : ∀ w x, (executedBy w (es ++ [.pool (.finish v y)])).count x =
              (executedBy w es).count x + if v = w then [y].count x else 0 := by
            intro w x
            rw [executedBy_finish]
            rcases eq_or_ne v w with rfl | hv
            · rw [if_pos rfl, if_pos rfl, List.count_append]
            · rw [if_neg hv, if_neg hv, Nat.add_zero]
          constructor
          · intro w x
            have hbefore := h.each w x
            rw [hmine, hexecuted]
            split <;> omega
          · intro w w' x hw
            have hbefore := h.apart w w' x hw
            rw [hmine, hmine, hexecuted]
            split <;> split <;> omega
      | _ => exact hkeep nofun rfl

theorem recorded (h : (machine n τ V E).Run .initial es) :
    Recorded es ((machine n τ V E).after .initial es) := by
  refine Machine.Run.history (I := Recorded) ?_ (fun _ e _ _ hfs => Recorded.next hfs e) h
  exact ⟨fun _ _ => Nat.zero_le _, fun _ _ _ _ => Nat.zero_le _⟩

theorem reachable_of_run (h : (machine n τ V E).Run .initial es) :
    (machine n τ V E).Reachable ((machine n τ V E).after .initial es) :=
  Machine.Reachable.of_run rfl h

/-- The copies in the pool of a task that has been executed: the one in the local of the
worker that executed it, if there is one. -/
theorem inPool_executed (h : (machine n τ V E).Run .initial es) (hx : x ∈ executedBy w es) :
    inPool ((machine n τ V E).after .initial es).pool x =
      leftAt x (((machine n τ V E).after .initial es).pool.run w) := by
  have hpool := pool_reachable (reachable_of_run h)
  have hrecorded := recorded h
  have hmine : 0 < (executedBy w es).count x := List.count_pos_iff.mpr hx
  have heach := hrecorded.each w x
  have hone := RrScheduler.entered_le_one
    ((machine n τ V E).after .initial es).pool.sched x
  have hentered := ThreadPool.places_eq_entered hpool x
  unfold ThreadPool.places at hentered
  have hitem : itemAt (((machine n τ V E).after .initial es).pool.sched.ctl.schedule x)
      (entered ((machine n τ V E).after .initial es).pool.sched x) = 0 := by
    unfold itemAt
    split
    · omega
    · rfl
  -- another worker's local holds a task that other worker has executed
  have hothers : ∀ v ∈ Finset.univ, v ≠ w →
      leftAt x (((machine n τ V E).after .initial es).pool.run v) = 0 := by
    intro v _ hv
    rw [leftAt_eq, if_neg]
    intro hkept
    have hlast := keepsLast h v (some x) hkept
    have htheirs : 0 < (executedBy v es).count x :=
      List.count_pos_iff.mpr (List.mem_of_getLast? hlast.symm)
    have hapart := hrecorded.apart v w x hv
    omega
  have hleft : leftovers ((machine n τ V E).after .initial es).pool x =
      leftAt x (((machine n τ V E).after .initial es).pool.run w) :=
    tally_eq_single (Finset.mem_univ w) hothers
  rw [inPool, hitem, hleft]
  omega

/-! ## Promises

A promise whose task was destroyed is broken or was resolved before; only the call
itself gives a task that was not scheduled a function object. -/

/-- A promise without a function object is gone, and its state resolved. -/
def Broken (s : State n τ V E) : Prop :=
  ∀ x, s.pool.sched.ctl.schedule x ≠ .uncalled → references s.pool x = 0 →
    (s.shared x).state ≠ .init

theorem Broken.resolved (h : Broken s) {s' : State n τ V E} (hpool : s'.pool = s.pool)
    (hshared : ∀ x, s'.shared x = s.shared x ∨ (s'.shared x).state ≠ .init) : Broken s' := by
  intro x hcalled hnone
  rw [hpool] at hcalled hnone
  rcases hshared x with hsame | hready
  · rw [hsame]
    exact h x hcalled hnone
  · exact hready

theorem called_before {p : ThreadPool.State n τ} {e : ThreadPool.Event n τ}
    (he : (ThreadPool.machine n τ).Enabled p e)
    (hcalled : ((ThreadPool.machine n τ).next p e).sched.ctl.schedule x ≠ .uncalled)
    (hnone : references ((ThreadPool.machine n τ).next p e) x = 0) :
    p.sched.ctl.schedule x ≠ .uncalled := by
  rcases Settlement.schedule_moves he x with ⟨hsame, -, -⟩ | rfl | ⟨⟨hbefore, -⟩, -⟩
  · rwa [hsame] at hcalled
  · have hentered : ((ThreadPool.machine n τ).next p
        (.sched (.ctl (.schedule x)))).sched.ctl.schedule x = .entered :=
      Function.update_self _ _ _
    rw [references, hentered, functionAt] at hnone
    omega
  · exact hbefore

theorem Broken.next (h : Broken s) (he : enabled s e) : Broken (next s e) := by
  cases e with
  | set w x outcome =>
      cases outcome with
      | ok v => exact h.resolved rfl fun y =>
          SharedState.update_resolve s.shared (.setValue (some v)) y
      | error e => exact h.resolved rfl fun y =>
          SharedState.update_resolve s.shared (.setException e) y
  | cancel x => exact h.resolved rfl fun y =>
      SharedState.update_resolve s.shared (x := x) .cancel y
  | pool e =>
      intro x hcalled hnone
      have hbefore := called_before he hcalled hnone
      show (if 0 < references s.pool x ∧
          references ((ThreadPool.machine n τ).next s.pool e) x = 0
        then SharedState.broken (s.shared x) else s.shared x).state ≠ .init
      split
      · exact SharedState.resolve_ready _ _
      · next hkept =>
          refine h x hbefore (Nat.eq_zero_of_not_pos fun hpos => hkept ⟨hpos, hnone⟩)

theorem broken (h : (machine n τ V E).Reachable s) : Broken s := by
  refine h.invariant (I := Broken) ?_ fun s e _ he hs => hs.next he
  intro s hs x hcalled
  rw [show s = State.initial from hs] at hcalled
  exact absurd rfl hcalled

/-! ## What is retained -/

/-- **Of the tasks it has executed a waiting worker retains the last one, and only that.** -/
theorem letGo_iff (h : (machine n τ V E).Run .initial es)
    (hw : Waiting ((machine n τ V E).after .initial es) w) (hx : x ∈ executedBy w es) :
    LetGo ((machine n τ V E).after .initial es) x ↔ (executedBy w es).getLast? ≠ some x := by
  obtain ⟨old, hasking⟩ := hw
  have hlast : old = (executedBy w es).getLast? := keepsLast h w old (by rw [hasking]; rfl)
  have hcopies := inPool_executed h hx
  rw [hasking, hlast] at hcopies
  change _ = (if (executedBy w es).getLast? = some x then 1 else 0) at hcopies
  constructor
  · rintro ⟨hnone, -⟩ heq
    rw [hnone, if_pos heq] at hcopies
    cases hcopies
  · intro hne
    rw [if_neg hne] at hcopies
    refine ⟨hcopies, fun hreturned => broken (reachable_of_run h) x ?_ ?_⟩
    · rw [hreturned]
      exact nofun
    · rw [references, hreturned, hcopies]
      rfl

theorem nothingRetained_iff (h : (machine n τ V E).Run .initial es) :
    NothingRetained es ↔
      ∀ w, Waiting ((machine n τ V E).after .initial es) w → executedBy w es = [] := by
  constructor
  · intro hnothing w hw
    cases hlast : (executedBy w es).getLast? with
    | none => exact List.getLast?_eq_none_iff.mp hlast
    | some x =>
        have hx := List.mem_of_getLast? hlast
        exact absurd hlast ((letGo_iff h hw hx).mp (hnothing w hw x hx))
  · intro hnone w hw x hx
    rw [hnone w hw] at hx
    cases hx

/-- A worker that is inside `scheduled()` has just asked, or was there before and has
finished nothing. -/
theorem waiting_before (hw : Waiting (next s e) w) :
    (∃ old, e = .pool (.ask w old)) ∨ Waiting s w ∧ ∀ x, e ≠ .pool (.finish w x) := by
  obtain ⟨task, htask⟩ := hw
  cases e with
  | set v x outcome => exact Or.inr ⟨⟨task, htask⟩, nofun⟩
  | cancel x => exact Or.inr ⟨⟨task, htask⟩, nofun⟩
  | pool e =>
      cases e with
      | ask v old =>
          rcases eq_or_ne w v with rfl | hv
          · exact Or.inl ⟨old, rfl⟩
          · change Function.update s.pool.run v _ w = _ at htask
            rw [Function.update_of_ne hv] at htask
            exact Or.inr ⟨⟨task, htask⟩, nofun⟩
      | got v old task' =>
          change Function.update s.pool.run v _ w = _ at htask
          rcases eq_or_ne w v with rfl | hv
          · rw [Function.update_self] at htask
            cases task' <;> cases htask
          · rw [Function.update_of_ne hv] at htask
            exact Or.inr ⟨⟨task, htask⟩, nofun⟩
      | finish v x =>
          change Function.update s.pool.run v _ w = _ at htask
          rcases eq_or_ne w v with rfl | hv
          · rw [Function.update_self] at htask
            cases htask
          · rw [Function.update_of_ne hv] at htask
            refine Or.inr ⟨⟨task, htask⟩, fun y heq => ?_⟩
            cases heq
            exact hv rfl
      | _ => exact Or.inr ⟨⟨task, htask⟩, nofun⟩

theorem executedBy_nil
    (hask : ∀ (fs : List (Event n τ V E)) w old,
      fs ++ [.pool (.ask w old)] <+: es → executedBy w fs = [])
    (hw : Waiting ((machine n τ V E).after .initial es) w) : executedBy w es = [] := by
  induction es using List.reverseRecOn with
  | nil => rfl
  | append_singleton es e ih =>
      rw [Machine.after_append] at hw
      rcases waiting_before (e := e) hw with ⟨old, rfl⟩ | ⟨hbefore, hne⟩
      · rw [executedBy_of_ne nofun]
        exact hask es w old (List.prefix_refl _)
      · have hnone : executedBy w es = [] :=
          ih (fun fs v old hfs => hask fs v old (hfs.trans (List.prefix_append _ _))) hbefore
        by_cases hfinish : ∃ v x, e = .pool (.finish v x)
        · obtain ⟨v, x, rfl⟩ := hfinish
          rw [executedBy_finish, if_neg, hnone]
          rintro rfl
          exact hne x rfl
        · rw [executedBy_of_ne fun v x heq => hfinish ⟨v, x, heq⟩]
          exact hnone

/-- **Nothing is retained in precisely the runs in which no worker asks for a task when it has
executed one.** -/
theorem nothing_retained_iff (es : List (Event n τ V E))
    (h : (machine n τ V E).Run .initial es) :
    (∀ fs, fs <+: es → NothingRetained fs) ↔
      ∀ fs w old, fs ++ [.pool (.ask w old)] <+: es → executedBy w fs = [] := by
  have hrun : ∀ fs, fs <+: es → (machine n τ V E).Run .initial fs := by
    rintro fs ⟨gs, rfl⟩
    exact ((Machine.run_append _).mp h).1
  constructor
  · intro hall fs w old hfs
    have hnone := (nothingRetained_iff (hrun _ hfs)).mp (hall _ hfs) w
    rw [executedBy_of_ne nofun, Machine.after_append] at hnone
    exact hnone ⟨old, Function.update_self ..⟩
  · intro hask fs hfs
    refine (nothingRetained_iff (hrun fs hfs)).mpr fun w hw => ?_
    exact executedBy_nil (fun gs v old hgs => hask gs v old (hgs.trans hfs)) hw

/-- A worker goes to look for its first task and finds one, and executes it. -/
def firstTask : List (Event ThreadPool.oneWorker Unit (fun _ => ℕ) String) :=
  [.pool (.ask 0 none), .pool (.sched (.ctl (.schedule ()))),
   .pool (.sched (.ctl (.fetchPush ()))), .pool (.sched (.ctl (.tryPush () 0 0))),
   .pool (.sched (.inner 0 (.lock (.schedule ()) (.tryPush ())))),
   .pool (.sched (.inner 0 (.body (.schedule ()) (.tryPush ())))),
   .pool (.sched (.inner 0 (.notifyOne (.schedule ()) (.tryPush ()) (.pushed true) none))),
   .pool (.sched (.ctl (.tryPushRet () 0 0 true))),
   .pool (.sched (.ctl (.initIndex 0))), .pool (.sched (.ctl (.tryPop 0 0))),
   .pool (.sched (.inner 0 (.lock (.scheduled 0) .tryPop))),
   .pool (.sched (.inner 0 (.body (.scheduled 0) .tryPop))),
   .pool (.sched (.ctl (.tryPopRet 0 0 (some ())))),
   .pool (.got 0 none (some ())), .pool (.finish 0 ())]

theorem nothing_retained_iff_firstTask :
    (∀ fs, fs <+: firstTask → NothingRetained fs) ↔
      ∀ fs w old, fs ++ [.pool (.ask w old)] <+: firstTask → executedBy w fs = [] :=
  nothing_retained_iff firstTask (by decide)

/-- The worker, its first task executed, asks again, finds nothing and goes to sleep. -/
def backToSleep : List (Event ThreadPool.oneWorker Unit (fun _ => ℕ) String) :=
  firstTask ++
    [.pool (.ask 0 (some ())), .pool (.sched (.ctl (.readIndex 0))),
     .pool (.sched (.ctl (.tryPop 0 0))),
     .pool (.sched (.inner 0 (.lock (.scheduled 0) .tryPop))),
     .pool (.sched (.inner 0 (.body (.scheduled 0) .tryPop))),
     .pool (.sched (.ctl (.tryPopRet 0 0 none))), .pool (.sched (.ctl (.pop 0 1))),
     .pool (.sched (.inner 0 (.lock (.scheduled 0) .pop))),
     .pool (.sched (.inner 0 (.body (.scheduled 0) .pop)))]

/-- The promise of the task that has been executed, and left it unset, is not broken while the
worker sleeps. -/
theorem kept_unbroken :
    (machine ThreadPool.oneWorker Unit (fun _ => ℕ) String).Run .initial backToSleep ∧
    executedBy 0 backToSleep = [()] ∧
    Waiting ((machine ThreadPool.oneWorker Unit (fun _ => ℕ) String).after .initial backToSleep) 0 ∧
    (((machine ThreadPool.oneWorker Unit (fun _ => ℕ) String).after .initial
      backToSleep).shared ()).state = .init ∧
    ¬ NothingRetained backToSleep := by
  have hrun : (machine ThreadPool.oneWorker Unit (fun _ => ℕ) String).Run .initial backToSleep := by
    decide +kernel
  have hexecuted : executedBy 0 backToSleep = [()] := by decide
  have hwaiting : Waiting ((machine ThreadPool.oneWorker Unit (fun _ => ℕ) String).after .initial
      backToSleep) 0 := ⟨some (), by decide⟩
  refine ⟨hrun, hexecuted, hwaiting, by decide +kernel, fun h => ?_⟩
  rw [(nothingRetained_iff hrun).mp h 0 hwaiting] at hexecuted
  cases hexecuted

end Retention

end Jar.Concurrency
