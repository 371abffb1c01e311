/-
# `Jar.Concurrency.ThrowingHandlers` — an exception while an operation completes

A sender completes its receiver inside a `try`, and gives what it catches to `fail`.
The exception may come from a step of the chain or from the complete handler of a
callback receiver at its end, and either way the error handler should hear of it
(`Reported`).

It hears of a step's exception if nothing was signalled to the receiver before.  It
never hears of the handler's own: `complete` leaves `initial` before it invokes the
handler, and the `fail` that follows finds the receiver `completed`
(`reported_iff`).

`mock_state` starts its operation without the question that `schedule_state` asks
first; the operation itself is the same (`start_eq_attempt`, `mock_start_eq_attempt`).
-/
import Jar.Concurrency.CallbackReceiver

namespace Jar.Concurrency

variable {σ E ρ : Type} {a b : Ret}

/-! ## The senders' protocol

Both innermost senders call `complete` in a `try` and `fail` in its `catch`, and the
one of the tests differs in not asking for cancellation.  What is connected to them
does not depend on which it is. -/

/-- `mock_state`: the receiver alone. -/
structure MockState (σ E ρ : Type) where
  receiver : Receiver σ E ρ .void

/-- `mock_state::start`. -/
def MockState.start (s : MockState σ E ρ) (w : World σ E ρ) : Except E Unit × World σ E ρ :=
  match s.receiver.complete () w with
  | (.ok _, w') => (.ok (), w')
  | (.error e, w') => (.ok (), s.receiver.fail e w')

/-- `connect`, of a chain that begins with a `mock_sender` in the place of `schedule`. -/
def Sender.connectMock : {b : Ret} → Sender σ E b → Receiver σ E ρ b → MockState σ E ρ
  | _, .schedule, r => ⟨r⟩
  | _, .then_ sender f, r => sender.connectMock (receiverAdapter r f)

theorem connectMock_receiver (c : Sender σ E b) (r : Receiver σ E ρ b) :
    (c.connectMock r).receiver = (c.connect r).receiver := by
  induction c with
  | schedule => rfl
  | then_ sender f ih => exact ih (receiverAdapter r f)

/-- Complete, and report what is thrown. -/
def attempt (r : Receiver σ E ρ .void) (w : World σ E ρ) : World σ E ρ :=
  match r.complete () w with
  | (.ok _, w') => w'
  | (.error e, w') => r.fail e w'

theorem attempt_of_error {r : Receiver σ E ρ .void} {w w' : World σ E ρ} {e : E}
    (h : r.complete () w = (.error e, w')) : attempt r w = r.fail e w' := by
  unfold attempt
  rw [h]

theorem mock_start_eq_attempt (c : Sender σ E b) (r : Receiver σ E ρ b) (w : World σ E ρ) :
    ((c.connectMock r).start w).2 = attempt (c.connect r).receiver w := by
  unfold MockState.start attempt
  rw [connectMock_receiver]
  cases (c.connect r).receiver.complete () w with
  | mk result w' =>
      cases result with
      | ok u => rfl
      | error e => rfl

theorem start_eq_attempt (c : Sender σ E b) (r : Receiver σ E ρ b) {w : World σ E ρ}
    (h : r.isCanceled w = false) :
    ((c.connect r).start w).2 = attempt (c.connect r).receiver w := by
  obtain ⟨-, -, hcanceled⟩ := connect_receiver c r
  unfold ScheduleState.start attempt
  rw [hcanceled, h]
  cases (c.connect r).receiver.complete () w with
  | mk result w' =>
      cases result with
      | ok u => rfl
      | error e => rfl

namespace CallbackReceiver

/-! ## What the callback receiver makes of it

`complete` exchanges the state before it invokes its handler, so by the time the
handler throws the receiver is no longer initial, and `fail` does nothing. -/

variable (c : Sender σ E b) (h : Handlers σ E b) (w : World σ E (State E b))

/-- An exception that leaves the completion of the receiver is given to the error handler,
in the world `after` that the operation leaves. -/
def Reported (after : World σ E (State E b)) : Prop :=
  ∀ e w', (c.connect (callbackReceiver h)).receiver.complete () w = (.error e, w') →
    after.receiver.handled = w'.receiver.handled ++ [.error e]

/-- The error handler can hear of what is thrown: a step throws while nothing is signalled
yet, or the steps do not throw and neither does the complete handler, if it is invoked. -/
def Heard : Prop :=
  match (c.run w.user).result with
  | .error _ => w.receiver.state = .initial
  | .ok v => w.receiver.state = .initial → ∀ e, (h.complete v (c.run w.user).user).1 ≠ .error e

variable {c h w}

theorem fail_handled_of_initial {e : E} (hinitial : w.receiver.state = .initial) :
    ((callbackReceiver h).fail e w).receiver.handled = w.receiver.handled ++ [.error e] := by
  simp only [callbackReceiver, if_pos hinitial]

theorem fail_handled_of_signalled {e : E} (hsignalled : w.receiver.state ≠ .initial) :
    ((callbackReceiver h).fail e w).receiver.handled = w.receiver.handled := by
  simp only [callbackReceiver, if_neg hsignalled]

/-- A caught exception is reported if and only if the receiver is still initial when it
is caught. -/
theorem attempt_handled_iff {e : E} {w' : World σ E (State E b)}
    (hthrows : (c.connect (callbackReceiver h)).receiver.complete () w = (.error e, w')) :
    (attempt (c.connect (callbackReceiver h)).receiver w).receiver.handled =
      w'.receiver.handled ++ [.error e] ↔ w'.receiver.state = .initial := by
  obtain ⟨hfail, -, -⟩ := connect_receiver c (callbackReceiver h)
  rw [attempt_of_error hthrows, hfail]
  constructor
  · intro hhandled
    by_contra hsignalled
    rw [fail_handled_of_signalled hsignalled] at hhandled
    exact absurd hhandled (by simp)
  · exact fail_handled_of_initial

/-- `complete` exits by an exception only when the handler does, and then the receiver is
no longer initial. -/
theorem complete_throws {v : b.Carrier} {e : E} {w' : World σ E (State E b)}
    (hthrows : (callbackReceiver h).complete v w = (.error e, w')) :
    w.receiver.state = .initial ∧ (h.complete v w.user).1 = .error e ∧
      w'.receiver.state = .completed := by
  rcases eq_or_ne w.receiver.state .initial with hinitial | hsignalled
  · simp only [callbackReceiver, if_pos hinitial] at hthrows
    obtain ⟨herror, rfl⟩ := Prod.mk.inj hthrows
    exact ⟨hinitial, herror, rfl⟩
  · simp only [callbackReceiver, if_neg hsignalled] at hthrows
    cases hthrows

theorem complete_of_throws {v : b.Carrier} {e : E} (hinitial : w.receiver.state = .initial)
    (herror : (h.complete v w.user).1 = .error e) :
    ∃ w', (callbackReceiver h).complete v w = (.error e, w') := by
  simp only [callbackReceiver, if_pos hinitial, herror]
  exact ⟨_, rfl⟩

theorem attempt_reported_iff :
    Reported c h w (attempt (c.connect (callbackReceiver h)).receiver w) ↔ Heard c h w := by
  have hcomplete := connect_complete c (callbackReceiver h) w
  unfold Heard
  cases hresult : (c.run w.user).result with
  | error e =>
      -- a step threw, and the receiver is as it was
      rw [hresult] at hcomplete
      constructor
      · intro hreported
        exact (attempt_handled_iff hcomplete).mp (hreported e _ hcomplete)
      · intro hinitial e' w' hthrows
        obtain ⟨-, rfl⟩ := Prod.mk.inj (hcomplete.symm.trans hthrows)
        exact (attempt_handled_iff hthrows).mpr hinitial
  | ok v =>
      -- the receiver was completed, which is all that can throw
      rw [hresult] at hcomplete
      constructor
      · intro hreported hinitial e herror
        obtain ⟨w', hw'⟩ := complete_of_throws
          (w := w.ran (c.run w.user)) (v := v) hinitial herror
        have hthrows := hcomplete.trans hw'
        have hlate := (complete_throws hw').2.2
        rw [(attempt_handled_iff hthrows).mp (hreported e w' hthrows)] at hlate
        cases hlate
      · intro hheard e w' hthrows
        obtain ⟨hinitial, herror, -⟩ := complete_throws (hcomplete.symm.trans hthrows)
        exact absurd herror (hheard hinitial e)

/-- **An exception that leaves the completion of a started operation reaches the error
handler exactly when a step throws it and the receiver is not signalled yet.**  The
complete handler's own does not.  The operation of a `schedule_state` does not complete
at all when the receiver says that it is canceled. -/
theorem reported_iff (c : Sender σ E b) (h : Handlers σ E b) (w : World σ E (State E b)) :
    (Reported c h w ((c.connectMock (callbackReceiver h)).start w).2 ↔ Heard c h w) ∧
      (((callbackReceiver h).isCanceled w = false →
          Reported c h w ((c.connect (callbackReceiver h)).start w).2) ↔
        (callbackReceiver h).isCanceled w = true ∨ Heard c h w) := by
  refine ⟨?_, ?_⟩
  · rw [mock_start_eq_attempt]
    exact attempt_reported_iff
  · cases hcanceled : (callbackReceiver h).isCanceled w with
    | true => exact iff_of_true nofun (Or.inl rfl)
    | false =>
        rw [start_eq_attempt c (callbackReceiver h) hcanceled, attempt_reported_iff]
        constructor
        · intro hheard
          exact Or.inr (hheard rfl)
        · intro hheard _
          exact hheard.resolve_left nofun

/-- A complete handler that throws. -/
def throwingHandlers : Handlers ℕ String .void :=
  ⟨fun _ n => (.error "e", n + 1), fun _ n => n + 10, fun n => n + 100⟩

/-- The handler is invoked and throws; the error handler is not invoked, and the task
returns as if nothing had happened. -/
theorem swallowed :
    let r := callbackReceiver throwingHandlers
    let w : World ℕ String (State String .void) := ⟨0, [], .fresh⟩
    let after := ((Sender.schedule.connectMock r).start w).2
    (r.complete () w).1 = .error "e" ∧ after.receiver.handled = [.complete ()] ∧
      ¬ Reported .schedule throwingHandlers w after := by
  refine ⟨rfl, rfl, fun hreported => ?_⟩
  have hhandled := hreported "e" _ rfl
  cases hhandled

end CallbackReceiver

end Jar.Concurrency
