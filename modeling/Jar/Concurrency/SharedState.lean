/-
# `Jar.Concurrency.SharedState` — what a promise and its future share

`shared_state<Value>` holds `m_state`, one of five states, and `m_data`, a
variant that is empty, an exception or a result.  It leaves the state `init` at
most once: `set_value`, `set_exception`, `cancel` and `broken` each try to
exchange `init` for a state of their own, and the one that succeeds stores its
data and notifies the waiting thread.  `get` hands out what was stored.

The functions are given here as they act when nothing happens in between; the
steps they consist of, and their interleavings, are `Jar.Concurrency.Future`.
A shared state is only ever made by `std::make_shared`, which zero-initialises
it, so `m_state` starts as `init`.
-/
import Mathlib.Data.Option.Basic

namespace Jar.Concurrency

/-- `future_result<Value>`: a value, or nothing when the promise was canceled.
`future_result<void>` is the one with `V` the unit type. -/
abbrev FutureResult (V : Type) := Option V

namespace SharedState

/-- `enum class state`. -/
inductive State where
  | init
  | value
  | error
  | canceled
  | broken
  deriving DecidableEq, Repr

/-- `std::variant<std::monostate, std::exception_ptr, future_result<Value>>`. -/
inductive Data (V E : Type) where
  | monostate
  | exception (e : E)
  | result (r : FutureResult V)
  deriving DecidableEq, Repr

/-- The four functions that resolve a shared state. -/
inductive Resolution (V E : Type) where
  | setValue (r : FutureResult V)
  | setException (e : E)
  | cancel
  | broken
  deriving DecidableEq, Repr

variable {V E : Type}

/-- The state a function exchanges `init` for. -/
def Resolution.announces : Resolution V E → State
  | .setValue _ => .value
  | .setException _ => .error
  | .cancel => .canceled
  | .broken => .broken

/-- What it then assigns to `m_data`; `broken` assigns nothing. -/
def Resolution.stores : Resolution V E → Option (Data V E)
  | .setValue r => some (.result r)
  | .setException e => some (.exception e)
  | .cancel => some (.result none)
  | .broken => none

theorem Resolution.announces_ne_init (op : Resolution V E) : op.announces ≠ .init := by
  cases op <;> exact nofun

/-- What `get` throws. -/
inductive Thrown (E : Type) where
  | exception (e : E)
  | domainError (what : String)
  | badVariantAccess
  deriving DecidableEq, Repr

end SharedState

/-- `m_state` and `m_data`. -/
structure SharedState (V E : Type) where
  state : SharedState.State
  data : SharedState.Data V E
  deriving DecidableEq, Repr

namespace SharedState

variable {V E : Type}

def fresh : SharedState V E := ⟨.init, .monostate⟩

/-- The common shape of the four: exchange `init` for the new state, and if that
succeeds assign the data. -/
def resolve (op : Resolution V E) (s : SharedState V E) : SharedState V E :=
  if s.state = .init then ⟨op.announces, op.stores.getD s.data⟩ else s

def setValue (r : FutureResult V) : SharedState V E → SharedState V E := resolve (.setValue r)
def setException (e : E) : SharedState V E → SharedState V E := resolve (.setException e)
def cancel : SharedState V E → SharedState V E := resolve .cancel
def broken : SharedState V E → SharedState V E := resolve .broken

def isCanceled (s : SharedState V E) : Bool := s.state = .canceled
def isReady (s : SharedState V E) : Bool := s.state ≠ .init

/-- `std::get<future_result<Value>>` and `std::get<std::exception_ptr>` on the data
that state `st` announces, and the exceptions of the other states. -/
def examine (st : State) (data : Data V E) : Except (Thrown E) (FutureResult V) :=
  match st with
  | .canceled | .value =>
      match data with
      | .result r => .ok r
      | _ => .error .badVariantAccess
  | .error =>
      match data with
      | .exception e => .error (.exception e)
      | _ => .error .badVariantAccess
  | .broken => .error (.domainError "broken promise")
  | .init => .error (.domainError "shared state broken")

/-- The result is moved out: the variant keeps its alternative, with the value the
move leaves behind. -/
def Data.movedFrom (moved : V → V) : Data V E → Data V E
  | .result r => .result (r.map moved)
  | d => d

/-- `get` after its `wait`. -/
def get (moved : V → V) (s : SharedState V E) :
    Except (Thrown E) (FutureResult V) × SharedState V E :=
  match examine s.state s.data with
  | .ok r => (.ok r, { s with data := s.data.movedFrom moved })
  | .error x => (.error x, s)

theorem isReady_iff {s : SharedState V E} : s.isReady = true ↔ s.state ≠ .init := by
  simp [isReady]

/-! ## Resolved once

A state is resolved for good: later attempts leave it as it is.  What is announced and
what is stored are two members, and `get()` examines the second on the word of the
first. -/

theorem resolve_of_ready {op : Resolution V E} {s : SharedState V E} (h : s.state ≠ .init) :
    resolve op s = s := if_neg h

theorem resolve_ready (op : Resolution V E) (s : SharedState V E) :
    (resolve op s).state ≠ .init := by
  unfold resolve
  split
  · exact op.announces_ne_init
  · assumption

theorem update_resolve {α : Type} [DecidableEq α] {V : α → Type} (f : ∀ x, SharedState (V x) E)
    {x : α} (op : Resolution (V x) E) (y : α) : Function.update f x (resolve op (f x)) y = f y ∨
      (Function.update f x (resolve op (f x)) y).state ≠ .init := by
  rcases eq_or_ne y x with rfl | hy
  · rw [Function.update_self]
    exact Or.inr (resolve_ready op _)
  · exact Or.inl (Function.update_of_ne hy _ _)

/-- The data is of the alternative that the state announces. -/
def Announced (st : State) (data : Data V E) : Prop :=
  match st with
  | .value | .canceled => ∃ r, data = .result r
  | .error => ∃ e, data = .exception e
  | .init | .broken => True

theorem announced_stores (op : Resolution V E) :
    Announced op.announces (op.stores.getD .monostate) := by
  cases op with
  | setValue r => exact ⟨r, rfl⟩
  | setException e => exact ⟨e, rfl⟩
  | cancel => exact ⟨none, rfl⟩
  | broken => trivial

theorem examine_eq_ok {st : State} {data : Data V E} {r : FutureResult V}
    (h : examine st data = .ok r) : data = .result r ∧ (st = .value ∨ st = .canceled) := by
  cases st with
  | init => cases h
  | broken => cases h
  | error => cases data <;> cases h
  | value =>
      cases data with
      | result r' =>
          cases h
          exact ⟨rfl, Or.inl rfl⟩
      | monostate => cases h
      | exception e => cases h
  | canceled =>
      cases data with
      | result r' =>
          cases h
          exact ⟨rfl, Or.inr rfl⟩
      | monostate => cases h
      | exception e => cases h

/-- A `std::get` on the variant fails exactly when the announced alternative is missing. -/
theorem announced_iff {st : State} {data : Data V E} :
    Announced st data ↔ examine st data ≠ .error .badVariantAccess := by
  cases st with
  | init => exact ⟨fun _ => nofun, fun _ => trivial⟩
  | broken => exact ⟨fun _ => nofun, fun _ => trivial⟩
  | value => cases data <;> simp [Announced, examine]
  | canceled => cases data <;> simp [Announced, examine]
  | error => cases data <;> simp [Announced, examine]

end SharedState

end Jar.Concurrency
