/-
# `Jar.Concurrency.Chains` — what `wait(chain)` on a pool delivers

`Jar.Concurrency.Sender` says what a chain computes when its task is run by nobody in
particular; `Jar.Concurrency.Settlement` says who runs it, and leaves open what it
computes.  Here the two are put together.  Every call of `wait` has its chain, with
what the steps of the chain have captured, and a task that is executed reports what
that chain gives.

    get()   =   a canceled result            if the future was canceled in time
                the chain's last result,
                or the exception it threw    if its task was executed
                "broken promise"             if the pool was destroyed before

`wait_delivers` is this for a destroyed pool, whatever was scheduled, stolen,
canceled or thrown away on the way there.  `no_future_starves` is for a pool that is
left alone: it comes to an end, and at its end every future has its answer.
-/
import Jar.Concurrency.Outcome
import Jar.Concurrency.Sender

namespace Jar.Concurrency

open Jar.Lib

/-! ## Chains with what they have captured

A step of a chain may read and change what it has captured.  Executing the task of a
chain is asking once whether it is canceled, and if it is not, running the chain and
reporting its result. -/

/-- A chain, and the state that its steps work on and nobody else sees. -/
structure Operation (E : Type) (b : Ret) where
  Captured : Type
  chain : Sender Captured E b
  captured : Captured

variable {E : Type} {b : Ret}

def Operation.result (o : Operation E b) : Except E b.Carrier := (o.chain.run o.captured).result

/-- What `get` makes of the chain's result. -/
def Operation.answer (o : Operation E b) :
    Except (SharedState.Thrown E) (FutureResult b.Carrier) :=
  match o.result with
  | .ok v => .ok (some v)
  | .error e => .error (.exception e)

namespace Settlement

theorem start_reports (o : Operation E b) (shared : SharedState b.Carrier E) :
    (o.chain.connect valueReceiver).start ⟨o.captured, [], shared⟩ =
      (.ok (), if shared.isCanceled then ⟨o.captured, [], shared⟩
        else ⟨(o.chain.run o.captured).user, (o.chain.run o.captured).calls,
          report o.result shared⟩) := by
  rw [start_connect]
  change (if shared.isCanceled then _ else _) = _
  split
  · rfl
  · unfold Operation.result
    cases (o.chain.run o.captured).result with
    | ok v => rfl
    | error e => rfl

/-! ## Shared states on the way to an answer

What is stored in a resolved state is the chain's result, a cancellation or a broken
promise, and what a settled state answers is read off it. -/

/-- A shared state that was not resolved, or once: by the report `r`, by `cancel`, or by
the end of its promise. -/
inductive Settles {V : Type} (r : Except E V) : SharedState V E → Prop
  | fresh : Settles r .fresh
  | reported : Settles r (report r .fresh)
  | canceled : Settles r (SharedState.cancel .fresh)
  | broken : Settles r (SharedState.broken .fresh)

section Settles

variable {V : Type} {r : Except E V} {shared : SharedState V E}

theorem Settles.resolve (h : Settles r shared) {op : SharedState.Resolution V E}
    (hop : Settles r (SharedState.resolve op .fresh)) :
    Settles r (SharedState.resolve op shared) := by
  by_cases hinit : shared.state = .init
  · cases h with
    | fresh => exact hop
    | reported => cases r <;> cases hinit
    | canceled | broken => cases hinit
  · rw [SharedState.resolve_of_ready hinit]
    exact h

theorem Settles.report (h : Settles r shared) : Settles r (report r shared) := by
  have hfresh : Settles r (Settlement.report r .fresh) := .reported
  cases r with
  | ok v => exact h.resolve hfresh
  | error e => exact h.resolve hfresh

theorem Settles.cancel (h : Settles r shared) : Settles r (SharedState.cancel shared) :=
  h.resolve .canceled

theorem Settles.break (h : Settles r shared) : Settles r (SharedState.broken shared) :=
  h.resolve .broken

end Settles

/-- What a settled state answers is read off its state. -/
theorem Settles.get {o : Operation E b} {shared : SharedState b.Carrier E}
    (h : Settles o.result shared) (moved : b.Carrier → b.Carrier) :
    (ByChain shared.state → (SharedState.get moved shared).1 = o.answer) ∧
    (shared.state = .canceled → (SharedState.get moved shared).1 = .ok none) ∧
    (shared.state = .broken →
      (SharedState.get moved shared).1 = .error (.domainError "broken promise")) := by
  cases h with
  | fresh => exact ⟨fun h => (by rcases h with h | h <;> cases h), nofun, nofun⟩
  | reported =>
      unfold Operation.answer
      cases o.result with
      | ok v => exact ⟨fun _ => rfl, nofun, nofun⟩
      | error e => exact ⟨fun _ => rfl, nofun, nofun⟩
  | canceled => exact ⟨fun h => (by rcases h with h | h <;> cases h), fun _ => rfl, nofun⟩
  | broken => exact ⟨fun h => (by rcases h with h | h <;> cases h), nofun, fun _ => rfl⟩

/-! ## A pool that runs chains -/

variable {n : RrScheduler.QueueCount} {τ : Type} {b : τ → Ret} [DecidableEq τ]

/-- What a future of `x` is a future of. -/
abbrev Value (b : τ → Ret) (x : τ) : Type := (b x).Carrier

/-- A task reports what its chain gives. -/
def Computes (operation : ∀ x, Operation E (b x)) : Event n τ (Value b) E → Prop
  | .settle _ x outcome => outcome = (operation x).result
  | _ => True

instance [DecidableEq E] [∀ x, DecidableEq (b x).Carrier] (operation : ∀ x, Operation E (b x)) :
    (e : Event n τ (Value b) E) → Decidable (Computes operation e)
  | .settle _ x outcome => inferInstanceAs (Decidable (outcome = (operation x).result))
  | .create _ | .copy _ | .drop _ | .ret _ | .pool _ | .check _ _ | .cancel _ | .destroyQueues =>
      instDecidableTrue

/-- Calls of `wait`, each with its chain, on one pool. -/
def chainMachine (n : RrScheduler.QueueCount) (operation : ∀ x, Operation E (b x)) :
    Machine (State n τ (Value b) E) (Event n τ (Value b) E) :=
  (machine n τ (Value b) E).restrict fun _ => Computes operation

variable {operation : ∀ x, Operation E (b x)} {s : State n τ (Value b) E}
variable {e : Event n τ (Value b) E}

omit [DecidableEq τ] in
/-- Receivers that are destroyed can only break a promise. -/
theorem settles_release (h : ∀ x, Settles (operation x).result (s.shared x)) (m : τ → ℕ) (x : τ) :
    Settles (operation x).result ((s.release m).shared x) := by
  show Settles _ (if 0 < m x ∧ s.useCount x ≤ m x then SharedState.broken (s.shared x)
    else s.shared x)
  split
  · exact (h x).break
  · exact h x

theorem settles_update (h : ∀ x, Settles (operation x).result (s.shared x)) {y : τ}
    {shared : SharedState (Value b y) E} (hy : Settles (operation y).result shared) (x : τ) :
    Settles (operation x).result (Function.update s.shared y shared x) := by
  rcases eq_or_ne x y with rfl | hne
  · rw [Function.update_self]
    exact hy
  · rw [Function.update_of_ne hne]
    exact h x

/-- **Nothing but the chain's result, a cancellation or a broken promise** is ever in a
shared state. -/
theorem settles (h : (chainMachine n operation).Reachable s) (x : τ) :
    Settles (operation x).result (s.shared x) := by
  refine h.invariant (I := fun s => ∀ x, Settles (operation x).result (s.shared x)) ?_ ?_ x
  · intro s hs x
    rw [show s = State.initial from hs]
    exact .fresh
  · rintro s e - ⟨he, hcomputes⟩ ih x
    cases e with
    | create y => exact settles_update ih .fresh x
    | copy y | check w y => exact ih x
    | drop y =>
        exact settles_release
          (s := { s with frame := Function.update s.frame y (s.frame y - 1) }) ih _ x
    | ret y =>
        exact settles_release
          (s := { s with wait := Function.update s.wait y .returned
                         frame := Function.update s.frame y 0 }) ih _ x
    | pool e =>
        exact settles_release
          (s := { s with pool := (ThreadPool.machine n τ).next s.pool e
                         frame := fun x => s.frame x - ThreadPool.movedIn x e
                         useCount := fun x => s.useCount x + ThreadPool.copied x e
                         task := (next s (.pool e)).task }) ih _ x
    | settle w y outcome =>
        obtain rfl : outcome = (operation y).result := hcomputes
        exact settles_update ih (ih y).report x
    | cancel y => exact settles_update ih (ih y).cancel x
    | destroyQueues => exact settles_release (s := { s with alive := false }) ih _ x

/-- **What `wait(chain)` delivers, on a pool that has been destroyed.**  If the future was
canceled in time, a canceled result; otherwise, if its task was executed, what the chain
computes from what it captured; otherwise the promise is broken. -/
theorem wait_delivers (h : (chainMachine n operation).Reachable s) (hdead : s.alive = false)
    (x : τ) (hx : s.wait x = .returned) (moved : (b x).Carrier → (b x).Carrier) :
    (SharedState.get moved (s.shared x)).1 =
      if (s.shared x).isCanceled then .ok none
      else if x ∈ s.pool.executed then (operation x).answer
      else .error (.domainError "broken promise") := by
  obtain ⟨hchain, hcanceled, hbroken⟩ := (settles h x).get moved
  split
  · next hcancel => exact hcanceled (of_decide_eq_true hcancel)
  · next hcancel =>
      have hnot : (s.shared x).state ≠ .canceled := fun hc => hcancel (decide_eq_true hc)
      obtain ⟨hdone, hleft⟩ := future_tells h.of_restrict hdead x hx hnot
      split
      · next hmem => exact hchain (hdone.mpr hmem)
      · next hmem => exact hbroken (hleft.mpr hmem)

/-- `schedule(s) | then([n] { return n; })`, with seven captured. -/
def seven : Operation String (.value ℕ) := ⟨ℕ, .then_ .schedule ⟨fun _ n => (.ok n, n)⟩, 7⟩

def sevens : ∀ _ : Unit, Operation String (.value ℕ) := fun _ => seven

/-- `wait` schedules its task, the worker executes it and goes to sleep. -/
def oneFuture : List (Event ThreadPool.oneWorker Unit (fun _ => ℕ) String) :=
  [.create (), .copy ()] ++ (ThreadPool.oneTask.take 14).map .pool ++
    [.check 0 (), .settle 0 () (.ok 7)] ++ (ThreadPool.oneTask.drop 14).map .pool ++
    [.drop (), .ret ()]

/-- After that the pool is destroyed. -/
def answeredThenDestroyed : List (Event ThreadPool.oneWorker Unit (fun _ => ℕ) String) :=
  oneFuture ++ ([.destroy, .sched (.ctl (.clearQueue () 0)),
    .sched (.inner 0 (.lock (.clear ()) .clear)), .sched (.inner 0 (.body (.clear ()) .clear)),
    .sched (.inner 0 (.notifyAll (.clear ()) .clear .unit)), .sched (.ctl (.clearQueueRet () 0)),
    .sched (.ctl (.clearRet ())), .cleared, .sched (.inner 0 (.relock (.scheduled 0) .pop)),
    .sched (.inner 0 (.again (.scheduled 0) .pop)), .sched (.ctl (.popRet 0 none)),
    .got 0 (some ()) none, .joinThread 0, .joined] : List (ThreadPool.Event _ _)).map .pool ++
    [.destroyQueues]

theorem answeredThenDestroyed_run :
    (chainMachine ThreadPool.oneWorker sevens).Run State.initial answeredThenDestroyed := by
  have hequal : ∀ _ : Unit, DecidableEq (Ret.value ℕ).Carrier := fun _ => instDecidableEqNat
  exact Machine.Run.restrict (by decide +kernel) (by decide +kernel)

theorem wait_delivers_answeredThenDestroyed :
    (SharedState.get id (((machine ThreadPool.oneWorker Unit (fun _ => ℕ) String).after
      State.initial answeredThenDestroyed).shared ())).1 = .ok (some 7) := by
  have hreachable := Machine.Reachable.of_run (M := chainMachine ThreadPool.oneWorker sevens) rfl
    answeredThenDestroyed_run
  rw [show (chainMachine ThreadPool.oneWorker sevens).after _ _ = _ from
    Machine.after_restrict] at hreachable
  rw [wait_delivers hreachable (by decide +kernel) () (by decide +kernel) id]
  decide +kernel

/-! ## Every future gets its answer

Each step of the pool, or of a task, uses up some of what is left; such steps leave
the calls of `wait` and the destructor alone. -/

/-- The steps a task has before it can end. -/
def stepsLeft : TaskPc → ℕ
  | .starting => 2
  | .computing => 1
  | .ended => 0

/-- What the pool and the tasks it executes have left: three for a step of the pool, which
may start a task. -/
def left (T : Finset τ) (s : State n τ (Value b) E) : ℕ :=
  3 * ThreadPool.left T s.pool + tally stepsLeft s.task Finset.univ

theorem stepsLeft_le (p : TaskPc) : stepsLeft p ≤ 2 := by
  cases p <;> decide

/-- The pool and its tasks have come to an end. -/
def Ended (operation : ∀ x, Operation E (b x)) (s : State n τ (Value b) E) : Prop :=
  ∀ e, Proceeds e → ¬ (chainMachine n operation).Enabled s e

theorem spend (hfits : RrScheduler.tryNTimes n < 2 ^ 32)
    (h : (ThreadPool.machine n τ).Reachable s.pool) {T : Finset τ}
    (hT : ThreadPool.CalledIn T s.pool) (he : enabled s e) (hproceeds : Proceeds e) :
    left T (next s e) + 1 ≤ left T s := by
  have htask : ∀ (w : Fin n.size) (p : TaskPc),
      tally stepsLeft (Function.update s.task w p) Finset.univ + stepsLeft (s.task w) =
        tally stepsLeft s.task Finset.univ + stepsLeft p :=
    fun w p => tally_update (Finset.mem_univ w) p
  cases e with
  | pool e =>
      have hp : ThreadPool.Proceeds e := hproceeds
      have hspend := ThreadPool.spend hfits h he.2.1 hT (by rw [hp.called]; exact nofun)
      rw [hp.brought, Nat.add_zero] at hspend
      have hstart : tally stepsLeft (next s (.pool e)).task Finset.univ ≤
          tally stepsLeft s.task Finset.univ + 2 := by
        cases e with
        | finish w x =>
            have hw := htask w .starting
            have hle := stepsLeft_le .starting
            show tally stepsLeft (Function.update s.task w .starting) Finset.univ ≤ _
            omega
        | _ => exact Nat.le_add_right _ _
      show 3 * ThreadPool.left T ((ThreadPool.machine n τ).next s.pool e) +
        tally stepsLeft (next s (.pool e)).task Finset.univ + 1 ≤ left T s
      unfold left
      change ThreadPool.left T ((ThreadPool.machine n τ).next s.pool e) + 1 ≤ _ at hspend
      omega
  | check w x =>
      have hw := htask w (if (s.shared x).isCanceled then .ended else .computing)
      have hle : stepsLeft (if (s.shared x).isCanceled then .ended else .computing) ≤ 1 := by
        split <;> decide
      have hstarting : stepsLeft (s.task w) = 2 := by rw [he.2]; rfl
      show 3 * ThreadPool.left T s.pool + tally stepsLeft (Function.update s.task w _) Finset.univ +
        1 ≤ left T s
      unfold left
      omega
  | settle w x outcome =>
      have hw := htask w .ended
      have hzero : stepsLeft .ended = 0 := rfl
      have hcomputing : stepsLeft (s.task w) = 1 := by rw [he.2]; rfl
      show 3 * ThreadPool.left T s.pool + tally stepsLeft (Function.update s.task w _) Finset.univ +
        1 ≤ left T s
      unfold left
      omega
  | _ => cases hproceeds

theorem Proceeds.keeps {s : State n τ (Value b) E} {es : List (Event n τ (Value b) E)}
    (hes : ∀ e ∈ es, Proceeds e) (hrun : (chainMachine n operation).Run s es) :
    (((chainMachine n operation).after s es).alive = s.alive) ∧
      (((chainMachine n operation).after s es).pool.join = .alive ↔ s.pool.join = .alive) ∧
      ((chainMachine n operation).after s es).wait = s.wait := by
  induction es generalizing s with
  | nil => exact ⟨rfl, Iff.rfl, rfl⟩
  | cons e es ih =>
      obtain ⟨⟨he, -⟩, hrest⟩ := hrun
      obtain ⟨halive, hjoin, hwait⟩ := ih (fun e' he' => hes e' (List.mem_cons_of_mem e he')) hrest
      have hproceeds := hes e List.mem_cons_self
      have hone : (next s e).alive = s.alive ∧
          ((next s e).pool.join = .alive ↔ s.pool.join = .alive) ∧ (next s e).wait = s.wait := by
        cases e with
        | pool e => exact ⟨rfl, ThreadPool.Proceeds.alive hproceeds he.2.1, rfl⟩
        | check w x | settle w x outcome => exact ⟨rfl, Iff.rfl, rfl⟩
        | _ => cases hproceeds
      exact ⟨halive.trans hone.1, hjoin.trans hone.2.1, hwait.trans hone.2.2⟩

theorem Ended.answers (h : (chainMachine n operation).Reachable s) (hend : Ended operation s)
    (halive : s.alive = true) (hjoin : s.pool.join = .alive) (x : τ) (hx : s.wait x = .returned)
    (moved : (b x).Carrier → (b x).Carrier) :
    s.pool.executed.count x = 1 ∧ (SharedState.get moved (s.shared x)).1 =
      if (s.shared x).isCanceled then .ok none else (operation x).answer := by
  have hrest : ThreadPool.AtRest s.pool :=
    fun e ho he => hend (.pool e) (Or.inl ho) ⟨⟨halive, he, ready_own ho⟩, trivial⟩
  have hidle : ∀ w y, s.pool.run w ≠ .running y := by
    intro w y hw
    cases htask : s.task w with
    | starting => exact hend (.check w y) trivial ⟨⟨hw, htask⟩, trivial⟩
    | computing =>
        exact hend (.settle w y (operation y).result) trivial ⟨⟨hw, htask⟩, rfl⟩
    | ended =>
        exact hend (.pool (.finish w y)) (Or.inr ⟨w, y, rfl⟩)
          ⟨⟨halive, hw, decide_eq_true htask⟩, trivial⟩
  obtain ⟨hcount, htold⟩ := executed_and_told h.of_restrict hjoin hrest hidle x hx
  obtain ⟨hchain, hcanceled, -⟩ := (settles h x).get moved
  refine ⟨hcount, ?_⟩
  split
  · next hcancel => exact hcanceled (of_decide_eq_true hcancel)
  · next hcancel => exact hchain (htold.resolve_right fun hc => hcancel (decide_eq_true hc))

/-- **No future starves** in a pool whose `4 * N` is below `2 ^ 32`.  When such a pool is not
being destroyed and is left alone, it comes to an end after a bounded number of steps,
whichever step is taken when; and then every call of `wait` that had returned has had its
task executed, exactly once, and its future gives what its chain computes, unless it was
canceled. -/
theorem no_future_starves (hfits : RrScheduler.tryNTimes n < 2 ^ 32)
    (h : (chainMachine n operation).Reachable s) (halive : s.alive = true)
    (hjoin : s.pool.join = .alive) :
    (∃ bound, ∀ es, (chainMachine n operation).Run s es → (∀ e ∈ es, Proceeds e) →
      es.length ≤ bound) ∧
    (∃ es, (chainMachine n operation).Run s es ∧ (∀ e ∈ es, Proceeds e) ∧
      Ended operation ((chainMachine n operation).after s es)) ∧
    ∀ es, (chainMachine n operation).Run s es → (∀ e ∈ es, Proceeds e) →
      Ended operation ((chainMachine n operation).after s es) →
      ∀ x, s.wait x = .returned → ∀ moved : (b x).Carrier → (b x).Carrier,
        ((chainMachine n operation).after s es).pool.executed.count x = 1 ∧
        (SharedState.get moved (((chainMachine n operation).after s es).shared x)).1 =
          if (((chainMachine n operation).after s es).shared x).isCanceled then .ok none
          else (operation x).answer := by
  obtain ⟨T, hT⟩ := ThreadPool.calledIn (ledger h.of_restrict).pool
  have hstep : ∀ s e, (chainMachine n operation).Enabled s e → Proceeds e →
      (ThreadPool.machine n τ).Reachable s.pool ∧ ThreadPool.CalledIn T s.pool →
      ((ThreadPool.machine n τ).Reachable (next s e).pool ∧
        ThreadPool.CalledIn T (next s e).pool) ∧ left T (next s e) + 1 ≤ left T s := by
    rintro s e ⟨he, -⟩ hproceeds ⟨hpool, hcalled⟩
    refine ⟨?_, spend hfits hpool hcalled he hproceeds⟩
    cases e with
    | pool e =>
        have hp : ThreadPool.Proceeds e := hproceeds
        exact ⟨hpool.step he.2.1, hcalled.next he.2.1 (by rw [hp.called]; exact nofun)⟩
    | check w x | settle w x outcome => exact ⟨hpool, hcalled⟩
    | _ => cases hproceeds
  have hstart := And.intro (ledger h.of_restrict).pool hT
  refine ⟨⟨left T s, fun es hrun hes => ?_⟩, ?_, fun es hrun hes hend x hx moved => ?_⟩
  · exact hrun.spent (Φ := left T) hstep hes hstart
  · exact Machine.exists_rest (M := chainMachine n operation) (Φ := left T) hstep hstart
  · obtain ⟨hkeep, hstill, hwait⟩ := Proceeds.keeps hes hrun
    exact hend.answers (h.reaches ⟨es, hrun, rfl⟩) (hkeep.trans halive) (hstill.mpr hjoin) x
      (by rw [hwait]; exact hx) moved

/-- `wait` has returned, and its task lies in the queue. -/
def leftWaiting : List (Event ThreadPool.oneWorker Unit (fun _ => ℕ) String) :=
  [.create (), .copy ()] ++ ([.sched (.ctl (.schedule ())), .sched (.ctl (.fetchPush ())),
    .sched (.ctl (.tryPush () 0 0)), .sched (.inner 0 (.lock (.schedule ()) (.tryPush ()))),
    .sched (.inner 0 (.body (.schedule ()) (.tryPush ()))),
    .sched (.inner 0 (.notifyOne (.schedule ()) (.tryPush ()) (.pushed true) none)),
    .sched (.ctl (.tryPushRet () 0 0 true))] : List (ThreadPool.Event _ _)).map .pool ++
    [.drop (), .ret ()]

theorem no_future_starves_leftWaiting :
    ∃ es, ((chainMachine ThreadPool.oneWorker sevens).after ((machine ThreadPool.oneWorker Unit
      (fun _ => ℕ) String).after State.initial leftWaiting) es).pool.executed.count () = 1 := by
  have hequal : ∀ _ : Unit, DecidableEq (Ret.value ℕ).Carrier := fun _ => instDecidableEqNat
  have hrun : (chainMachine ThreadPool.oneWorker sevens).Run State.initial leftWaiting :=
    Machine.Run.restrict (by decide +kernel) (by decide +kernel)
  have hreachable := Machine.Reachable.of_run (M := chainMachine ThreadPool.oneWorker sevens) rfl
    hrun
  rw [show (chainMachine ThreadPool.oneWorker sevens).after _ _ = _ from
    Machine.after_restrict] at hreachable
  obtain ⟨-, ⟨es, hes, hproceed, hend⟩, hall⟩ := no_future_starves (n := ThreadPool.oneWorker)
    (by decide) hreachable (by decide +kernel) (by decide +kernel)
  exact ⟨es, (hall es hes hproceed hend () (by decide +kernel) id).1⟩

end Settlement

end Jar.Concurrency
