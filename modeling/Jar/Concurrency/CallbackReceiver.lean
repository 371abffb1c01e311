/-
# `Jar.Concurrency.CallbackReceiver` — handlers on a chain of steps

A callback receiver has three handlers and a state of its own, which leaves
`initial` once: the first of `complete`, `fail` and `cancel` to be called gets
its handler invoked, and the others do nothing.

The task of a scheduled chain first asks the receiver whether it is canceled.
`callback_receiver::is_canceled` answers with `failed != m_state`, which is true
of a receiver nothing has happened to, so the task does nothing: no handler is
ever invoked by it (`start_callback`).  The receiver has been signalled, as it
should, only when `cancel` had done so before (`signalled_iff_canceled`).
-/
import Jar.Concurrency.Sender

namespace Jar.Concurrency

namespace CallbackReceiver

/-! ## The receiver -/

/-- `enum class receiver_state`. -/
inductive ReceiverState where
  | initial
  | completed
  | failed
  | canceled
  deriving DecidableEq, Repr

variable {σ E : Type} {b : Ret}

/-- An invocation of a handler. -/
inductive Handled (E : Type) (b : Ret) where
  | complete (v : b.Carrier)
  | error (e : E)
  | cancel

/-- `m_state`, and the handlers invoked so far. -/
structure State (E : Type) (b : Ret) where
  state : ReceiverState
  handled : List (Handled E b)

/-- The three handlers; the complete handler may throw. -/
structure Handlers (σ E : Type) (b : Ret) where
  complete : b.Carrier → σ → Except E Unit × σ
  error : E → σ → σ
  cancel : σ → σ

/-- A receiver that has just been made. -/
def State.fresh : State E b := ⟨.initial, []⟩

/-- `callback_receiver`: each function exchanges `initial` for its own state, and
invokes its handler if it was the first. -/
def callbackReceiver (h : Handlers σ E b) : Receiver σ E (State E b) b where
  complete v w :=
    if w.receiver.state = .initial then
      ((h.complete v w.user).1,
        { w with user := (h.complete v w.user).2
                 receiver := ⟨.completed, w.receiver.handled ++ [.complete v]⟩ })
    else (.ok (), w)
  fail e w :=
    if w.receiver.state = .initial then
      { w with user := h.error e w.user
               receiver := ⟨.failed, w.receiver.handled ++ [.error e]⟩ }
    else w
  cancel w :=
    if w.receiver.state = .initial then
      { w with user := h.cancel w.user
               receiver := ⟨.canceled, w.receiver.handled ++ [.cancel]⟩ }
    else w
  isCanceled w := .failed ≠ w.receiver.state

/-! ## A started chain

Before the task the receiver may have been canceled, but it has not failed; so
`is_canceled` answers yes, and the task stops there. -/

/-- The world in which the task runs: `cancel` was called so many times before. -/
def canceledBefore (h : Handlers σ E b) (u : σ) (cancels : ℕ) : World σ E (State E b) :=
  (callbackReceiver h).cancel^[cancels] ⟨u, [], .fresh⟩

/-- What the receiver should have been told when the task has run. -/
def signal (c : Sender σ E b) (u : σ) (cancels : ℕ) : List (Handled E b) :=
  if 0 < cancels then [.cancel]
  else
    match (c.run u).result with
    | .ok v => [.complete v]
    | .error e => [.error e]

theorem canceledBefore_pos (h : Handlers σ E b) (u : σ) {cancels : ℕ} (hpos : 0 < cancels) :
    canceledBefore h u cancels = ⟨h.cancel u, [], ⟨.canceled, [.cancel]⟩⟩ := by
  unfold canceledBefore
  induction cancels with
  | zero => exact absurd hpos (Nat.lt_irrefl 0)
  | succ k ih =>
      rw [Function.iterate_succ_apply']
      rcases Nat.eq_zero_or_pos k with rfl | hk
      · rfl
      · rw [ih hk]
        rfl

theorem isCanceled_canceledBefore (h : Handlers σ E b) (u : σ) (cancels : ℕ) :
    (callbackReceiver h).isCanceled (canceledBefore h u cancels) = true := by
  rcases Nat.eq_zero_or_pos cancels with rfl | hpos
  · rfl
  · rw [canceledBefore_pos h u hpos]
    rfl

theorem start_callback (c : Sender σ E b) (h : Handlers σ E b) (u : σ) (cancels : ℕ) :
    (c.connect (callbackReceiver h)).start (canceledBefore h u cancels) =
      (.ok (), canceledBefore h u cancels) := by
  rw [start_connect, isCanceled_canceledBefore]
  rfl

/-- **The receiver is signalled as it should be exactly when it was canceled before
the task ran.** -/
theorem signalled_iff_canceled (c : Sender σ E b) (h : Handlers σ E b) (u : σ) (cancels : ℕ) :
    ((c.connect (callbackReceiver h)).start (canceledBefore h u cancels)).2.receiver.handled =
      signal c u cancels ↔ 0 < cancels := by
  rw [start_callback]
  constructor
  · intro hsignal
    by_contra hzero
    obtain rfl : cancels = 0 := Nat.eq_zero_of_not_pos hzero
    -- nobody was told anything, and somebody should have been
    change [] = signal c u 0 at hsignal
    unfold signal at hsignal
    cases hresult : (c.run u).result with
    | ok v => rw [hresult] at hsignal; cases hsignal
    | error e => rw [hresult] at hsignal; cases hsignal
  · intro hpos
    rw [canceledBefore_pos h u hpos, signal, if_pos hpos]

/-- Handlers that count themselves. -/
def countingHandlers : Handlers ℕ String .void :=
  ⟨fun _ n => (.ok (), n + 1), fun _ n => n + 10, fun n => n + 100⟩

theorem signalled_iff_canceled_once :
    ((Sender.connect .schedule (callbackReceiver countingHandlers)).start
      (canceledBefore countingHandlers 0 1)).2.receiver.handled = [.cancel] :=
  (signalled_iff_canceled .schedule countingHandlers 0 1).mpr (by decide)

/-- A chain that completes, started with a fresh receiver: no handler is invoked. -/
theorem not_signalled :
    ((Sender.connect .schedule (callbackReceiver countingHandlers)).start
      (canceledBefore countingHandlers 0 0)).2.receiver.handled = [] ∧
      signal (.schedule : Sender ℕ String .void) 0 0 = [.complete ()] :=
  ⟨rfl, rfl⟩

end CallbackReceiver

end Jar.Concurrency
