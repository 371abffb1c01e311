/-
# `Jar.Concurrency.ThrowingMoves` — results whose move throws

Moving a result of the user's type may throw.  It is moved when `promise::set_value`
makes the `future_result`, again when `shared_state::set_value` assigns that to
`m_data`, and once more when `get` hands it out.

`set_value` exchanges `m_state` before it assigns.  An exception in the assignment
therefore leaves a state that says `value` over a variant that lost its alternative:
the `fail` that the task makes when it catches the exception comes too late, the
exception is dropped, nobody is notified, and `get` throws `bad_variant_access`.
An exception before the exchange does no harm.  `rolledBack_iff` is the line
between the two, for the task of any chain.

Where nothing throws, all this is `Jar.Concurrency.Sender` and its shared state
(`start_shared`).
-/
import Jar.Concurrency.Sender

namespace Jar.Concurrency

namespace ThrowingMoves

open SharedState

/-! ## The shared state, with its moves

Each of the three moves of a value may throw.  Besides `m_state` and `m_data` a shared
state has its sleepers here, for it matters whether they are told. -/

/-- What a move of a value comes to: into the `future_result`, from there into `m_data`,
and out of `m_data` again, which leaves something behind in either case. -/
structure Moves (V E : Type) where
  construct : V → Except E V
  store : V → Except E V
  take : V → Except E V × V

/-- `m_state`, `m_data`, and how many threads sleep in `wait`.  The variant is `none` when
it is valueless by exception. -/
structure Cell (V E : Type) where
  state : SharedState.State
  data : Option (Data V E)
  asleep : ℕ

variable {V E : Type}

/-- Moves that never throw and hand on what they are given; the one out leaves `moved`. -/
structure Moves.Total (moves : Moves V E) (moved : V → V) : Prop where
  construct : ∀ v, moves.construct v = .ok v
  store : ∀ v, moves.store v = .ok v
  take : ∀ v, moves.take v = (.ok v, moved v)

/-- A canceled result holds nothing to move. -/
def Moves.storeResult (moves : Moves V E) : FutureResult V → Except E (FutureResult V)
  | some v => (moves.store v).map some
  | none => .ok none

namespace Cell

def fresh : Cell V E := ⟨.init, some .monostate, 0⟩

def notifyOne (s : Cell V E) : Cell V E := { s with asleep := s.asleep - 1 }

/-- `set_value`: the old content of `m_data` is destroyed before the new one is made, so a
move that throws leaves none. -/
def setValue (moves : Moves V E) (r : FutureResult V) (s : Cell V E) :
    Except E Unit × Cell V E :=
  if s.state = .init then
    match moves.storeResult r with
    | .ok r' => (.ok (), notifyOne { s with state := .value, data := some (.result r') })
    | .error e => (.error e, { s with state := .value, data := none })
  else (.ok (), s)

/-- The other three store nothing that throws. -/
def resolve (op : Resolution V E) (s : Cell V E) : Cell V E :=
  if s.state = .init then
    notifyOne { s with state := op.announces, data := op.stores.elim s.data some }
  else s

def setException (e : E) : Cell V E → Cell V E := resolve (.setException e)
def cancel : Cell V E → Cell V E := resolve .cancel
def broken : Cell V E → Cell V E := resolve .broken

/-- `get` after its `wait`.  A valueless variant has no alternative to get. -/
def get (moves : Moves V E) (s : Cell V E) :
    Except (Thrown E) (FutureResult V) × Cell V E :=
  match examine s.state (s.data.getD .monostate) with
  | .ok (some v) =>
      (match (moves.take v).1 with
        | .ok u => .ok (some u)
        | .error e => .error (.exception e),
      { s with data := some (.result (some (moves.take v).2)) })
  | .ok none => (.ok none, s)
  | .error x => (.error x, s)

/-- `promise::set_value`. -/
def promiseSetValue (moves : Moves V E) (v : V) (s : Cell V E) : Except E Unit × Cell V E :=
  match moves.construct v with
  | .ok u => s.setValue moves (some u)
  | .error e => (.error e, s)

/-- What the promise and its futures may be asked for, and a thread that starts to wait. -/
inductive Operation (V E : Type) where
  | setValue (v : V)
  | setException (e : E)
  | cancel
  | broken
  | get
  | wait

def perform (moves : Moves V E) (s : Cell V E) : Operation V E → Cell V E
  | .setValue v => (s.promiseSetValue moves v).2
  | .setException e => s.setException e
  | .cancel => s.cancel
  | .broken => s.broken
  | .get => if s.state = .init then s else (s.get moves).2
  | .wait => if s.state = .init then { s with asleep := s.asleep + 1 } else s

/-! ## When nothing throws -/

/-- The shared state as it is without exceptions. -/
def shared (s : Cell V E) : SharedState V E := ⟨s.state, s.data.getD .monostate⟩

theorem shared_resolve (op : Resolution V E) (s : Cell V E) :
    (s.resolve op).shared = SharedState.resolve op s.shared := by
  unfold resolve SharedState.resolve
  rw [show s.shared.state = s.state from rfl]
  split
  · cases hstores : op.stores with
    | none => rfl
    | some d => rfl
  · rfl

theorem shared_promiseSetValue {moves : Moves V E} {moved : V → V} (hmoves : moves.Total moved)
    (v : V) (s : Cell V E) : s.promiseSetValue moves v =
      (.ok (), (s.promiseSetValue moves v).2) ∧
      (s.promiseSetValue moves v).2.shared = SharedState.setValue (some v) s.shared := by
  have hstore : moves.storeResult (some v) = .ok (some v) := by
    rw [Moves.storeResult, hmoves.store]
    rfl
  simp only [promiseSetValue, hmoves.construct, setValue, SharedState.setValue,
    SharedState.resolve, hstore]
  rw [show s.shared.state = s.state from rfl]
  split
  · exact ⟨rfl, rfl⟩
  · exact ⟨rfl, rfl⟩

theorem shared_get {moves : Moves V E} {moved : V → V} (hmoves : moves.Total moved)
    (s : Cell V E) :
    ((s.get moves).1, (s.get moves).2.shared) = SharedState.get moved s.shared := by
  unfold get SharedState.get
  rw [show examine s.shared.state s.shared.data = examine s.state (s.data.getD .monostate) from rfl]
  cases hexamine : examine s.state (s.data.getD .monostate) with
  | error x => rfl
  | ok r =>
      have hdata : s.data.getD .monostate = .result r := (examine_eq_ok hexamine).1
      cases r with
      | none => simp only [shared, hdata, Data.movedFrom, Option.map_none]
      | some v => simp only [shared, hdata, hmoves.take, Data.movedFrom, Option.map_some,
          Option.getD_some]

/-! ## Where the exception comes from

In the argument, the exchange was not reached.  In the assignment, the exchange was
made and the notification is not.  There is no other place. -/

variable {moves : Moves V E} {e : E} {s : Cell V E}

theorem resolve_of_ready (h : s.state ≠ .init) (op : Resolution V E) : s.resolve op = s := if_neg h

theorem promiseSetValue_of_ready (h : s.state ≠ .init) (v : V) :
    (s.promiseSetValue moves v).2 = s := by
  unfold promiseSetValue setValue
  cases moves.construct v with
  | ok u => exact congrArg Prod.snd (if_neg h)
  | error e => rfl

theorem promiseSetValue_construct {v : V} (h : moves.construct v = .error e) :
    s.promiseSetValue moves v = (.error e, s) := by
  unfold promiseSetValue
  rw [h]

theorem promiseSetValue_store {v u : V} (hs : s.state = .init) (hu : moves.construct v = .ok u)
    (h : moves.store u = .error e) :
    s.promiseSetValue moves v = (.error e, { s with state := .value, data := none }) := by
  have hstore : moves.storeResult (some u) = .error e := by
    rw [Moves.storeResult, h]
    rfl
  simp only [promiseSetValue, hu, setValue, if_pos hs, hstore]

theorem promiseSetValue_ok {v u w : V} (hu : moves.construct v = .ok u)
    (h : moves.store u = .ok w) : (s.promiseSetValue moves v).1 = .ok () := by
  have hstore : moves.storeResult (some u) = .ok (some w) := by
    rw [Moves.storeResult, h]
    rfl
  simp only [promiseSetValue, hu, setValue, hstore]
  split
  · rfl
  · rfl

/-! ## A failed state is final

The exchange is not undone, so no later call changes such a state; `get` throws again,
and leaves it where it is. -/

/-- `fail` took effect: the state holds the exception. -/
structure Failed (e : E) (s : Cell V E) : Prop where
  state : s.state = .error
  data : s.data = some (.exception e)

theorem Failed.ready (h : s.Failed e) : s.state ≠ .init := by
  rw [h.state]
  exact nofun

theorem Failed.get (h : s.Failed e) : s.get moves = (.error (.exception e), s) := by
  unfold Cell.get
  rw [h.state, h.data]
  rfl

theorem Failed.perform (h : s.Failed e) (op : Operation V E) : s.perform moves op = s := by
  cases op with
  | setValue v => exact promiseSetValue_of_ready h.ready v
  | setException e => exact resolve_of_ready h.ready _
  | cancel => exact resolve_of_ready h.ready _
  | broken => exact resolve_of_ready h.ready _
  | get =>
      have hperform : s.perform moves .get = (s.get moves).2 := if_neg h.ready
      rw [hperform, h.get]
  | wait => exact if_neg h.ready

theorem Failed.performed (h : s.Failed e) (ops : List (Operation V E)) :
    ops.foldl (Cell.perform moves) s = s := by
  induction ops with
  | nil => rfl
  | cons op ops ih =>
      rw [List.foldl_cons, h.perform]
      exact ih

end Cell

/-! ## The task of a chain

A move that throws in the argument is reported by `set_exception`, which finds the
state unresolved.  One that throws in the assignment is reported too, but to a state
that is taken. -/

variable {σ : Type}

/-- `value_receiver`, with a promise of a type whose move may throw. -/
def valueReceiver (moves : Moves V E) : Receiver σ E (Cell V E) (.value V) where
  complete v w :=
    ((w.receiver.promiseSetValue moves v).1,
      { w with receiver := (w.receiver.promiseSetValue moves v).2 })
  fail e w := { w with receiver := w.receiver.setException e }
  cancel w := { w with receiver := w.receiver.cancel }
  isCanceled w := w.receiver.state = .canceled

/-- The same world, its shared state as it is without exceptions. -/
def World.shared (w : World σ E (Cell V E)) : World σ E (SharedState V E) :=
  ⟨w.user, w.calls, w.receiver.shared⟩

theorem valueReceiver_complete {moves : Moves V E} {v : V} {w : World σ E (Cell V E)}
    {result : Except E Unit} {s : Cell V E}
    (h : w.receiver.promiseSetValue moves v = (result, s)) :
    (valueReceiver moves).complete v w = (result, { w with receiver := s }) := by
  simp only [valueReceiver, h]

theorem shared_fail (moves : Moves V E) (e : E) (w : World σ E (Cell V E)) :
    World.shared ((valueReceiver moves).fail e w) =
      (Concurrency.valueReceiver (b := .value V)).fail e (World.shared w) := by
  simp only [World.shared, valueReceiver, Concurrency.valueReceiver, Cell.setException,
    SharedState.setException, Cell.shared_resolve]

theorem start_shared {moves : Moves V E} {moved : V → V} (hmoves : moves.Total moved)
    (c : Sender σ E (.value V)) (w : World σ E (Cell V E)) :
    World.shared ((c.connect (valueReceiver moves)).start w).2 =
      ((c.connect Concurrency.valueReceiver).start (World.shared w)).2 := by
  rw [start_connect, start_connect]
  have hcanceled : (Concurrency.valueReceiver (b := .value V)).isCanceled (World.shared w) =
    (valueReceiver moves).isCanceled w := rfl
  rw [hcanceled, show (World.shared w).user = w.user from rfl]
  split
  · rfl
  · cases hresult : (c.run w.user).result with
    | error e => exact shared_fail moves e (w.ran (c.run w.user))
    | ok v =>
        obtain ⟨hok, hshared⟩ := Cell.shared_promiseSetValue hmoves v w.receiver
        have hcomplete := valueReceiver_complete (w := w.ran (c.run w.user)) hok
        simp only [hcomplete, World.shared, Concurrency.valueReceiver, hshared]
        rfl

/-- A `set_value` of the chain's result that exits by an exception leaves `m_state` as it
was; and if that was `init`, the `fail` of the task takes effect: a thread that waits is
notified, and `get` throws the exception again, whatever is called in between. -/
def RolledBack (moves : Moves V E) (c : Sender σ E (.value V)) (w : World σ E (Cell V E)) : Prop :=
  ∀ v e, (c.run w.user).result = .ok v → (w.receiver.promiseSetValue moves v).1 = .error e →
    (w.receiver.promiseSetValue moves v).2.state = w.receiver.state ∧
    (w.receiver.state = .init →
      ((c.connect (valueReceiver moves)).start w).2.receiver.state = .error ∧
      ((c.connect (valueReceiver moves)).start w).2.receiver.asleep = w.receiver.asleep - 1 ∧
      ∀ ops : List (Cell.Operation V E), ((ops.foldl (Cell.perform moves)
        ((c.connect (valueReceiver moves)).start w).2.receiver).get moves).1 =
          .error (.exception e))

/-- Nothing throws any more once the exchange is made. -/
def StoresSafely (moves : Moves V E) (c : Sender σ E (.value V)) (w : World σ E (Cell V E)) :
    Prop :=
  w.receiver.state = .init → ∀ v u, (c.run w.user).result = .ok v → moves.construct v = .ok u →
    ∃ u', moves.store u = .ok u'

theorem start_construct {moves : Moves V E} {c : Sender σ E (.value V)}
    {w : World σ E (Cell V E)} {v : V} {e : E} (hinit : w.receiver.state = .init)
    (hv : (c.run w.user).result = .ok v) (he : moves.construct v = .error e) :
    ((c.connect (valueReceiver moves)).start w).2.receiver = w.receiver.setException e := by
  have hcanceled : (valueReceiver moves).isCanceled w = false := by
    simp [valueReceiver, hinit]
  have hset : w.receiver.promiseSetValue moves v = (.error e, w.receiver) :=
    Cell.promiseSetValue_construct he
  have hcomplete := valueReceiver_complete (w := w.ran (c.run w.user)) hset
  rw [start_connect, hcanceled, hv]
  simp only [hcomplete]
  rfl

theorem setException_failed {s : Cell V E} (hinit : s.state = .init) (e : E) :
    (s.setException e).Failed e ∧ (s.setException e).asleep = s.asleep - 1 := by
  have hset : s.setException e =
      Cell.notifyOne { s with state := .error, data := some (.exception e) } := if_pos hinit
  rw [hset]
  exact ⟨⟨rfl, rfl⟩, rfl⟩

/-- **A failed `set_value` leaves the state unresolved exactly when the move that fails is
not the one into `m_data`.** -/
theorem rolledBack_iff (moves : Moves V E) (c : Sender σ E (.value V))
    (w : World σ E (Cell V E)) : RolledBack moves c w ↔ StoresSafely moves c w := by
  constructor
  · intro h hinit v u hv hu
    cases hstore : moves.store u with
    | ok u' => exact ⟨u', rfl⟩
    | error e =>
        have hset := Cell.promiseSetValue_store hinit hu hstore
        obtain ⟨hstate, -⟩ := h v e hv (by rw [hset])
        rw [hset, hinit] at hstate
        cases hstate
  · intro h v e hv he
    rcases eq_or_ne w.receiver.state .init with hinit | hready
    · cases hu : moves.construct v with
      | ok u =>
          obtain ⟨u', hstore⟩ := h hinit v u hv hu
          rw [Cell.promiseSetValue_ok hu hstore] at he
          cases he
      | error e' =>
          rw [Cell.promiseSetValue_construct hu] at he ⊢
          cases he
          obtain ⟨hfailed, hasleep⟩ := setException_failed hinit e
          rw [start_construct hinit hv hu]
          refine ⟨rfl, fun _ => ⟨hfailed.state, hasleep, fun ops => ?_⟩⟩
          rw [hfailed.performed, hfailed.get]
    · rw [Cell.promiseSetValue_of_ready hready]
      exact ⟨rfl, fun hinit => absurd hinit hready⟩

/-- A value whose move into `m_data` throws. -/
def fragile : Moves ℕ String := ⟨.ok, fun _ => .error "move", fun v => (.ok v, v)⟩

/-- A step that returns a number. -/
def produce : Invocable Unit String .void (.value ℕ) := ⟨fun _ u => (.ok 7, u)⟩

/-- A thread waits for the result of the step.  Afterwards it still sleeps, the state says
`value`, and `get` finds nothing. -/
theorem dropped :
    let w : World Unit String (Cell ℕ String) := ⟨(), [], Cell.fresh.perform fragile .wait⟩
    let s := (((Sender.schedule.then_ produce).connect (valueReceiver fragile)).start w).2.receiver
    s = ⟨.value, none, 1⟩ ∧ (s.get fragile).1 = .error .badVariantAccess ∧
      ¬ RolledBack fragile (Sender.schedule.then_ produce) w := by
  refine ⟨rfl, rfl, fun h => ?_⟩
  obtain ⟨hstate, -⟩ := h 7 "move" rfl rfl
  cases hstate

end ThrowingMoves

end Jar.Concurrency
