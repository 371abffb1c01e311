/-
# `Jar.Concurrency.Sender` — chains of steps, and the receivers they complete

`schedule(s) | then(f₁) | … | then(fₙ)` is a nest of senders.  Connecting it to a
receiver turns it inside out: the outermost sender wraps the receiver in an
adapter that calls `fₙ`, and passes it to the sender below, so that the receiver
that reaches `schedule_sender` calls `f₁` first.  Starting the operation gives
the scheduler one task.  It looks at `is_canceled`, completes the receiver, and
turns an exception that comes out of that into `fail`.

    then_ (then_ schedule f₁) f₂
      connect r   =   schedule connected to   f₁ ▸ f₂ ▸ r

What a chain means is `Sender.run`: the composition of its steps, each on the
result of the one before, up to the first that throws.  `connect_complete` says
that completing the connected receiver runs exactly that and then completes, or
leaves the exception to be caught; `wait_computes` is what follows for `wait`.

Invocables are arbitrary functions on a state of the user's, and every call of
one is recorded with its argument.
-/
import Jar.Concurrency.SharedState
import Mathlib.Logic.Function.Iterate

namespace Jar.Concurrency

/-! ## Results and invocables -/

/-- The type of a result: `void`, or the values of a type. -/
inductive Ret : Type 1 where
  | void
  | value (α : Type)

/-- What a result is passed on as: nothing, or the value. -/
abbrev Ret.Carrier : Ret → Type
  | .void => Unit
  | .value α => α

/-- A callable on the previous result that returns or throws. -/
structure Invocable (σ E : Type) (a b : Ret) where
  invoke : a.Carrier → σ → Except E b.Carrier × σ

/-- A step of a chain, whatever its types. -/
structure Step (σ E : Type) where
  arg : Ret
  ret : Ret
  invocable : Invocable σ E arg ret

/-- A call of a step on an argument. -/
structure Call (σ E : Type) where
  step : Step σ E
  arg : step.arg.Carrier

/-- The user's state, the calls made so far, and the state of the receiver. -/
structure World (σ E ρ : Type) where
  user : σ
  calls : List (Call σ E)
  receiver : ρ

variable {σ E ρ : Type} {a b : Ret}

/-- Calling an invocable: `.error` is an exception on its way up. -/
def Invocable.call (f : Invocable σ E a b) (arg : a.Carrier) (w : World σ E ρ) :
    Except E b.Carrier × World σ E ρ :=
  ((f.invoke arg w.user).1,
    { w with user := (f.invoke arg w.user).2, calls := w.calls ++ [⟨⟨a, b, f⟩, arg⟩] })

/-! ## Receivers

A receiver has three functions that complete it, and can be asked whether it is
canceled.  An adapter changes the first of them and passes the rest through. -/

/-- A receiver of results of type `a`.  Completing it may let an exception out; the
other three are `noexcept`. -/
structure Receiver (σ E ρ : Type) (a : Ret) where
  complete : a.Carrier → World σ E ρ → Except E Unit × World σ E ρ
  fail : E → World σ E ρ → World σ E ρ
  cancel : World σ E ρ → World σ E ρ
  isCanceled : World σ E ρ → Bool

/-- `receiver_adapter`: its `complete` calls the invocable and completes the receiver
below with the result, or with nothing when the result is `void`. -/
def receiverAdapter (r : Receiver σ E ρ b) (f : Invocable σ E a b) : Receiver σ E ρ a where
  complete arg w :=
    match b, r, f with
    | .void, r, f =>
        match f.call arg w with
        | (.ok _, w') => r.complete () w'
        | (.error e, w') => (.error e, w')
    | .value _, r, f =>
        match f.call arg w with
        | (.ok v, w') => r.complete v w'
        | (.error e, w') => (.error e, w')
  fail := r.fail
  cancel := r.cancel
  isCanceled := r.isCanceled

theorem receiverAdapter_complete (r : Receiver σ E ρ b) (f : Invocable σ E a b) (arg : a.Carrier)
    (w : World σ E ρ) :
    (receiverAdapter r f).complete arg w =
      match f.call arg w with
      | (.ok v, w') => r.complete v w'
      | (.error e, w') => (.error e, w') := by
  cases b with
  | void =>
      simp only [receiverAdapter]
      cases f.call arg w with
      | mk result w' => cases result <;> rfl
  | value β =>
      simp only [receiverAdapter]
      cases f.call arg w with
      | mk result w' => cases result <;> rfl

/-! ## Senders -/

/-- `schedule(s)`, and `then(sender, invocable)`, which makes a `sender_adapter`. -/
inductive Sender (σ E : Type) : Ret → Type 1 where
  | schedule : Sender σ E .void
  | then_ {a b : Ret} (sender : Sender σ E a) (invocable : Invocable σ E a b) : Sender σ E b

/-- `schedule_state`: the receiver, next to the scheduler that will run the task. -/
structure ScheduleState (σ E ρ : Type) where
  receiver : Receiver σ E ρ .void

/-- `connect`; the `composite_state` around an inner state only forwards `start`. -/
def Sender.connect : {b : Ret} → Sender σ E b → Receiver σ E ρ b → ScheduleState σ E ρ
  | _, .schedule, r => ⟨r⟩
  | _, .then_ sender f, r => sender.connect (receiverAdapter r f)

/-- The task that `start` gives to the scheduler.  The first component is `.error`
if an exception leaves it. -/
def ScheduleState.start (s : ScheduleState σ E ρ) (w : World σ E ρ) :
    Except E Unit × World σ E ρ :=
  if s.receiver.isCanceled w then (.ok (), w)
  else
    match s.receiver.complete () w with
    | (.ok _, w') => (.ok (), w')
    | (.error e, w') => (.ok (), s.receiver.fail e w')

/-! ## What a chain means

The steps called are the first ones of the chain, in its order and once each, up to
the one that throws. -/

/-- What comes of a chain: its result or the exception that ended it, the user's
state, and the calls made. -/
structure Outcome (σ E : Type) (b : Ret) where
  result : Except E b.Carrier
  user : σ
  calls : List (Call σ E)

/-- The steps one after the other, each on the previous result, up to the first
that throws. -/
def Sender.run : {b : Ret} → Sender σ E b → σ → Outcome σ E b
  | _, .schedule, u => ⟨.ok (), u, []⟩
  | _, .then_ (a := a) (b := b) sender f, u =>
      match sender.run u with
      | ⟨.ok v, u', calls⟩ => ⟨(f.invoke v u').1, (f.invoke v u').2, calls ++ [⟨⟨a, b, f⟩, v⟩]⟩
      | ⟨.error e, u', calls⟩ => ⟨.error e, u', calls⟩

/-- The steps of a chain, first to last. -/
def Sender.steps : {b : Ret} → Sender σ E b → List (Step σ E)
  | _, .schedule => []
  | _, .then_ (a := a) (b := b) sender f => sender.steps ++ [⟨a, b, f⟩]

/-- The steps called are the first ones of the chain, in its order and once each;
without an exception they are all. -/
theorem run_calls (c : Sender σ E b) (u : σ) :
    ∃ later, c.steps = (c.run u).calls.map Call.step ++ later ∧
      (∀ v, (c.run u).result = .ok v → later = []) := by
  induction c with
  | schedule => exact ⟨[], rfl, fun _ _ => rfl⟩
  | then_ sender f ih =>
      obtain ⟨later, hsteps, hall⟩ := ih
      simp only [Sender.steps, Sender.run]
      cases hrun : sender.run u with
      | mk result u' calls =>
          rw [hrun] at hsteps hall
          cases result with
          | ok v =>
              obtain rfl := hall v rfl
              exact ⟨[], by simp [hsteps], fun _ _ => rfl⟩
          | error e =>
              refine ⟨later ++ [⟨_, _, f⟩], by simp [hsteps], ?_⟩
              intro v hv
              cases hv

/-- An exception comes from the last call made. -/
theorem run_throws (c : Sender σ E b) (u : σ) {e : E} (h : (c.run u).result = .error e) :
    ∃ calls call u', (c.run u).calls = calls ++ [call] ∧
      (call.step.invocable.invoke call.arg u').1 = .error e := by
  induction c with
  | schedule => cases h
  | then_ sender f ih =>
      simp only [Sender.run] at h ⊢
      cases hrun : sender.run u with
      | mk result u' calls =>
          rw [hrun] at h ih
          cases result with
          | ok v => exact ⟨calls, ⟨⟨_, _, f⟩, v⟩, u', rfl, h⟩
          | error e' =>
              cases h
              exact ih rfl

/-! ## The connected receiver

Completing the outermost adapter runs the chain.  The other functions are passed on as
they are, so the task of a connected chain looks for cancellation where the receiver
does, and lets no exception escape to the thread that runs it. -/

/-- The world after a chain has run in it. -/
def World.ran (w : World σ E ρ) (o : Outcome σ E b) : World σ E ρ :=
  { w with user := o.user, calls := w.calls ++ o.calls }

/-- **Completing the connected receiver runs the chain**, and then completes the
receiver it was connected to, or lets the exception out. -/
theorem connect_complete (c : Sender σ E b) (r : Receiver σ E ρ b) (w : World σ E ρ) :
    (c.connect r).receiver.complete () w =
      match (c.run w.user).result with
      | .ok v => r.complete v (w.ran (c.run w.user))
      | .error e => (.error e, w.ran (c.run w.user)) := by
  induction c with
  | schedule =>
      show r.complete () w = r.complete () { w with calls := w.calls ++ [] }
      rw [List.append_nil]
  | then_ sender f ih =>
      -- the adapter is what the inner sender completes
      show (sender.connect (receiverAdapter r f)).receiver.complete () w = _
      rw [ih]
      simp only [Sender.run]
      cases hrun : sender.run w.user with
      | mk result u' calls =>
          cases result with
          | error e => rfl
          | ok v =>
              simp only [receiverAdapter_complete, Invocable.call, World.ran, List.append_assoc]
              cases (f.invoke v u').1 with
              | ok v' => rfl
              | error e => rfl

theorem connect_receiver (c : Sender σ E b) (r : Receiver σ E ρ b) :
    (c.connect r).receiver.fail = r.fail ∧ (c.connect r).receiver.cancel = r.cancel ∧
      (c.connect r).receiver.isCanceled = r.isCanceled := by
  induction c with
  | schedule => exact ⟨rfl, rfl, rfl⟩
  | then_ sender f ih => exact ih (receiverAdapter r f)

/-- The task of a connected chain: nothing if the receiver says that it is canceled,
else the chain's run, reported to the receiver. -/
theorem start_connect (c : Sender σ E b) (r : Receiver σ E ρ b) (w : World σ E ρ) :
    (c.connect r).start w =
      if r.isCanceled w then (.ok (), w)
      else
        match (c.run w.user).result with
        | .ok v =>
            match r.complete v (w.ran (c.run w.user)) with
            | (.ok _, w') => (.ok (), w')
            | (.error e, w') => (.ok (), r.fail e w')
        | .error e => (.ok (), r.fail e (w.ran (c.run w.user))) := by
  obtain ⟨hfail, -, hcanceled⟩ := connect_receiver c r
  unfold ScheduleState.start
  rw [hfail, hcanceled, connect_complete]
  cases (c.run w.user).result with
  | ok v => rfl
  | error e => rfl

/-- The task never lets an exception escape to the thread that runs it. -/
theorem start_returns (s : ScheduleState σ E ρ) (w : World σ E ρ) : (s.start w).1 = .ok () := by
  unfold ScheduleState.start
  split
  · rfl
  · split
    · rfl
    · rfl

/-! ## `wait` -/

/-- `value_receiver`: it resolves the shared state of its promise.  Storing the
result does not throw. -/
def valueReceiver {b : Ret} : Receiver σ E (SharedState b.Carrier E) b where
  complete v w := (.ok (), { w with receiver := SharedState.setValue (some v) w.receiver })
  fail e w := { w with receiver := SharedState.setException e w.receiver }
  cancel w := { w with receiver := SharedState.cancel w.receiver }
  isCanceled w := w.receiver.isCanceled

/-- `wait(c)`, its future cancelled so many times, and then its task run. -/
def wait (c : Sender σ E b) (u : σ) (cancels : ℕ) :
    Except E Unit × World σ E (SharedState b.Carrier E) :=
  (c.connect valueReceiver).start ⟨u, [], SharedState.cancel^[cancels] SharedState.fresh⟩

theorem cancel_iterate {V : Type} {cancels : ℕ} (h : 0 < cancels) :
    SharedState.cancel^[cancels] (SharedState.fresh : SharedState V E) =
      ⟨.canceled, .result none⟩ := by
  induction cancels with
  | zero => exact absurd h (Nat.lt_irrefl 0)
  | succ k ih =>
      rw [Function.iterate_succ_apply']
      rcases Nat.eq_zero_or_pos k with rfl | hk
      · rfl
      · rw [ih hk]
        exact SharedState.resolve_of_ready nofun

/-- **A chain computes the composition of its steps.**  The task returns normally.
If the future was cancelled before it ran, no step is called and `get` gives a
cancelled result.  Otherwise the calls are those of `run`: the first steps of the
chain in order, all of them unless the last one called throws; and `get` gives the
last result, or throws that exception again. -/
theorem wait_computes (moved : b.Carrier → b.Carrier) (c : Sender σ E b) (u : σ) (cancels : ℕ) :
    (wait c u cancels).1 = .ok () ∧
    (0 < cancels → (wait c u cancels).2.user = u ∧ (wait c u cancels).2.calls = [] ∧
      (SharedState.get moved (wait c u cancels).2.receiver).1 = .ok none) ∧
    (cancels = 0 → (wait c u cancels).2.user = (c.run u).user ∧
      (wait c u cancels).2.calls = (c.run u).calls ∧
      (∃ later, c.steps = (c.run u).calls.map Call.step ++ later ∧
        (∀ v, (c.run u).result = .ok v → later = [])) ∧
      (∀ e, (c.run u).result = .error e → ∃ calls call u', (c.run u).calls = calls ++ [call] ∧
        (call.step.invocable.invoke call.arg u').1 = .error e) ∧
      (SharedState.get moved (wait c u cancels).2.receiver).1 =
        match (c.run u).result with
        | .ok v => .ok (some v)
        | .error e => .error (.exception e)) := by
  refine ⟨start_returns _ _, ?_, ?_⟩
  · intro h
    have hwait : wait c u cancels = (.ok (), ⟨u, [], ⟨.canceled, .result none⟩⟩) := by
      rw [wait, start_connect, cancel_iterate h]
      rfl
    rw [hwait]
    exact ⟨rfl, rfl, rfl⟩
  · intro h
    subst h
    have hrun := run_calls c u
    have hthrows := fun e => run_throws c u (e := e)
    rw [show wait c u 0 = _ from start_connect c valueReceiver _]
    simp only [Function.iterate_zero, id_eq]
    cases hresult : (c.run u).result with
    | ok v =>
        rw [hresult] at hrun hthrows
        exact ⟨rfl, rfl, hrun, hthrows, rfl⟩
    | error e =>
        rw [hresult] at hrun hthrows
        exact ⟨rfl, rfl, hrun, hthrows, rfl⟩

/-- A step that counts itself and returns nothing. -/
def countStep : Invocable ℕ String .void .void := ⟨fun _ n => (.ok (), n + 1)⟩

/-- A step that throws. -/
def throwStep : Invocable ℕ String .void (.value ℕ) := ⟨fun _ n => (.error "e", n)⟩

/-- A step that adds its argument to the count. -/
def addStep : Invocable ℕ String (.value ℕ) (.value ℕ) := ⟨fun k n => (.ok (k + n), n + k)⟩

theorem wait_computes_throwStep :
    (SharedState.get id
      (wait (.then_ (.then_ (.then_ .schedule countStep) throwStep) addStep) 0 0).2.receiver).1 =
      .error (.exception "e") :=
  ((wait_computes id
    (.then_ (.then_ (.then_ .schedule countStep) throwStep) addStep) 0 0).2.2 rfl).2.2.2.2

end Jar.Concurrency
