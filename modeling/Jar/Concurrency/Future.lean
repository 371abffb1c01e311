/-
# `Jar.Concurrency.Future` — resolving a shared state while a thread waits on it

The functions of `shared_state` step by step: one load or compare-exchange of
`m_state`, one assignment of `m_data`, one lock, one evaluation of the wait
predicate, one notification at a time, sequentially consistent.  Any number of
threads resolve; one thread waits, in `wait()` or in `get()`, which begins with
`wait()`.

    resolver   calling ─exchange─▸ storing ─store─▸ notifying ─notify─▸ returned
                          └───────────── (too late) ───────────────────▸ ▲
    waiter     checking ▸ locking ▸ rechecking ▸ testing ▸ blocking ▸ asleep ▸ woken
                  └──────────────────── ready ◂ unlocking ◂─┘ ◂─────────────────┘

Two orders in the source decide what can go wrong.  The resolver exchanges the
state before it assigns the data, so a getter that does not have to wait may
find the data missing: exactly while the resolver stands between the two
(`announced_iff_not_storing`).  And the resolver notifies without the mutex, so
its only notification may fall between the waiter's last look at the state and
its going to sleep: in the runs where it never does, no wake-up is missed
(`not_stuck`).
-/
import Jar.Concurrency.SharedState
import Jar.Lib.Machine
import Mathlib.Data.Nat.Notation

namespace Jar.Concurrency

open Jar.Lib

namespace Future

open SharedState (Resolution Data Thrown Announced examine)

/-! ## The threads -/

/-- A call of `set_value`, `set_exception`, `cancel` or `broken`. -/
inductive ResolverPc (V E : Type) where
  | idle
  | calling (op : Resolution V E)
  | storing (op : Resolution V E)
  | notifying (op : Resolution V E)
  | returned (op : Resolution V E)
  deriving DecidableEq, Repr

/-- The waiting thread.  `rechecking`, `testing`, `blocking` and `unlocking` have the
mutex; `blocking` is the thread whose predicate was false and that has not yet
released the mutex and gone to sleep.  At `ready` its `wait()` is over; in `get()`
it goes on to load the state and then examines the data. -/
inductive WaiterPc (V E : Type) where
  | idle
  | checking
  | locking
  | rechecking
  | testing
  | blocking
  | asleep
  | woken
  | unlocking
  | ready
  | examining (st : SharedState.State)
  | done (outcome : Except (Thrown E) (FutureResult V))

/-- The shared state, `m_mutex`, and the threads. -/
structure State (ρ V E : Type) where
  shared : SharedState V E
  locked : Bool
  waiter : WaiterPc V E
  resolver : ρ → ResolverPc V E

inductive Event (ρ V E : Type) where
  | call (r : ρ) (op : Resolution V E)
  | exchange (r : ρ) (op : Resolution V E)
  | store (r : ρ) (op : Resolution V E)
  | notify (r : ρ) (op : Resolution V E)
  | enter
  | check
  | lock
  | recheck
  | test
  | sleep
  | spurious
  | relock
  | unlock
  | leave
  | load
  | examine (st : SharedState.State)
  | ret (outcome : Except (Thrown E) (FutureResult V))

variable {ρ V E : Type}

def enabled (s : State ρ V E) : Event ρ V E → Prop
  | .call r _ => s.resolver r = .idle
  | .exchange r op => s.resolver r = .calling op
  | .store r op => s.resolver r = .storing op
  | .notify r op => s.resolver r = .notifying op
  | .enter => s.waiter = .idle
  | .check => s.waiter = .checking
  | .lock => s.waiter = .locking ∧ s.locked = false
  | .recheck => s.waiter = .rechecking
  | .test => s.waiter = .testing
  | .sleep => s.waiter = .blocking
  | .spurious => s.waiter = .asleep
  | .relock => s.waiter = .woken ∧ s.locked = false
  | .unlock => s.waiter = .unlocking
  | .leave => s.waiter = .ready
  | .load => s.waiter = .ready
  | .examine st => s.waiter = .examining st
  | .ret outcome => s.waiter = .done outcome

/-- Where a resolver goes on after a successful exchange. -/
def ResolverPc.won (op : Resolution V E) : ResolverPc V E :=
  if op.stores.isSome then .storing op else .notifying op

/-- A notification wakes the waiter if it sleeps, and is lost otherwise. -/
def WaiterPc.notified : WaiterPc V E → WaiterPc V E
  | .asleep => .woken
  | p => p

variable [DecidableEq ρ]

def next (moved : V → V) (s : State ρ V E) : Event ρ V E → State ρ V E
  | .call r op => { s with resolver := Function.update s.resolver r (.calling op) }
  | .exchange r op =>
      if s.shared.state = .init then
        { s with shared := { s.shared with state := op.announces }
                 resolver := Function.update s.resolver r (.won op) }
      else { s with resolver := Function.update s.resolver r (.returned op) }
  | .store r op =>
      { s with shared := { s.shared with data := op.stores.getD s.shared.data }
               resolver := Function.update s.resolver r (.notifying op) }
  | .notify r op =>
      { s with waiter := s.waiter.notified
               resolver := Function.update s.resolver r (.returned op) }
  | .enter => { s with waiter := .checking }
  | .check => { s with waiter := if s.shared.isReady then .ready else .locking }
  | .lock => { s with waiter := .rechecking, locked := true }
  | .recheck => { s with waiter := if s.shared.isReady then .unlocking else .testing }
  | .test => { s with waiter := if s.shared.isReady then .unlocking else .blocking }
  | .sleep => { s with waiter := .asleep, locked := false }
  | .spurious => { s with waiter := .woken }
  | .relock => { s with waiter := .testing, locked := true }
  | .unlock => { s with waiter := .ready, locked := false }
  | .leave => { s with waiter := .idle }
  | .load => { s with waiter := .examining s.shared.state }
  | .examine st =>
      { s with waiter := .done (SharedState.examine st s.shared.data)
               shared := { s.shared with
                 data := match SharedState.examine st s.shared.data with
                   | .ok _ => s.shared.data.movedFrom moved
                   | .error _ => s.shared.data } }
  | .ret _ => { s with waiter := .idle }

/-- A fresh shared state that nobody has touched. -/
def State.initial : State ρ V E := ⟨.fresh, false, .idle, fun _ => .idle⟩

/-- Any number of resolving threads, and one that waits; `moved` is what moving a
value out leaves of it. -/
def machine (ρ : Type) [DecidableEq ρ] {V : Type} (E : Type) (moved : V → V) :
    Machine (State ρ V E) (Event ρ V E) where
  Init s := s = State.initial
  Enabled := enabled
  next := next moved

/-! ## One resolver wins

All calls but the winner's are passive, whatever they still do.  Nobody but the winner
stores, and nobody but the winner notifies, once its data is there; moving a result
out keeps the variant's alternative. -/

/-- A call that has not exchanged the state, or came too late, or has ended. -/
def ResolverPc.passive : ResolverPc V E → Bool
  | .idle | .calling _ | .returned _ => true
  | _ => false

/-- A call that has not exchanged the state yet. -/
def ResolverPc.early : ResolverPc V E → Bool
  | .idle | .calling _ => true
  | _ => false

theorem ResolverPc.passive_of_early {p : ResolverPc V E} (h : p.early = true) :
    p.passive = true := by
  cases p with
  | idle | calling => rfl
  | storing | notifying | returned => cases h

theorem ResolverPc.not_early_of_busy {p : ResolverPc V E} (h : p.passive = false) :
    p.early ≠ true := by
  intro hearly
  rw [passive_of_early hearly] at h
  cases h

theorem ResolverPc.eq_of_busy {pc : ρ → ResolverPc V E} {r w : ρ}
    (h : (pc r).passive = false) (hall : ∀ u, u ≠ w → (pc u).passive = true) : r = w := by
  by_contra hrw
  rw [hall r hrw] at h
  cases h

/-- The three phases of a shared state: nobody has resolved it, the winner has
announced its data without storing it, the announced data is there. -/
inductive Phase (s : State ρ V E) : Prop
  | unresolved (hstate : s.shared.state = .init) (hdata : s.shared.data = .monostate)
      (hall : ∀ r, (s.resolver r).early = true)
  | storing (w : ρ) (op : Resolution V E) (hstate : s.shared.state = op.announces)
      (hw : s.resolver w = .storing op) (hop : op.stores.isSome = true)
      (hdata : s.shared.data = .monostate)
      (hall : ∀ r, r ≠ w → (s.resolver r).passive = true)
  | stored (w : ρ) (op : Resolution V E) (hstate : s.shared.state = op.announces)
      (hw : s.resolver w = .notifying op ∨ s.resolver w = .returned op)
      (hdata : Announced s.shared.state s.shared.data)
      (hall : ∀ r, r ≠ w → (s.resolver r).passive = true)

theorem announced_movedFrom {moved : V → V} {st : SharedState.State} {d : Data V E}
    (h : Announced st d) : Announced st (d.movedFrom moved) := by
  cases st with
  | init | broken => trivial
  | value | canceled =>
      obtain ⟨r, rfl⟩ := h
      exact ⟨r.map moved, rfl⟩
  | error =>
      obtain ⟨e, rfl⟩ := h
      exact ⟨e, rfl⟩

omit [DecidableEq ρ] in
theorem Phase.keep {s s' : State ρ V E} (h : Phase s) (hs : s'.shared = s.shared)
    (hr : s'.resolver = s.resolver) : Phase s' := by
  cases h with
  | unresolved hstate hdata hall =>
      exact .unresolved (hs ▸ hstate) (hs ▸ hdata) (hr ▸ hall)
  | storing w op hstate hw hop hdata hall =>
      exact .storing w op (hs ▸ hstate) (hr ▸ hw) hop (hs ▸ hdata) (hr ▸ hall)
  | stored w op hstate hw hdata hall =>
      exact .stored w op (hs ▸ hstate) (hr ▸ hw) (hs ▸ hdata) (hr ▸ hall)

omit [DecidableEq ρ] in
theorem Phase.moveOut {moved : V → V} {s : State ρ V E} (h : Phase s) {p : WaiterPc V E} :
    Phase { s with waiter := p
                   shared := { s.shared with data := s.shared.data.movedFrom moved } } := by
  cases h with
  | unresolved hstate hdata hall =>
      exact .unresolved hstate (by simp [hdata, Data.movedFrom]) hall
  | storing w op hstate hw hop hdata hall =>
      exact .storing w op hstate hw hop (by simp [hdata, Data.movedFrom]) hall
  | stored w op hstate hw hdata hall =>
      exact .stored w op hstate hw (announced_movedFrom hdata) hall

theorem Phase.passive {s : State ρ V E} (h : Phase s) {r : ρ} {p : ResolverPc V E}
    (hold : (s.resolver r).early = true) (hp : p.passive = true)
    (hearly : s.shared.state = .init → p.early = true) :
    Phase { s with resolver := Function.update s.resolver r p } := by
  have hother : ∀ w, (s.resolver w).early = false → w ≠ r := by
    intro w hw heq
    rw [heq, hold] at hw
    cases hw
  have hrest : ∀ w, (∀ u, u ≠ w → (s.resolver u).passive = true) →
      ∀ u, u ≠ w → (Function.update s.resolver r p u).passive = true := by
    intro w hall
    exact (Function.forall_update_iff s.resolver fun u q => u ≠ w → q.passive = true).mpr
      ⟨fun _ => hp, fun u _ => hall u⟩
  cases h with
  | unresolved hstate hdata hall =>
      exact .unresolved hstate hdata
        ((Function.forall_update_iff s.resolver fun _ q => q.early = true).mpr
          ⟨hearly hstate, fun u _ => hall u⟩)
  | storing w op hstate hw hop hdata hall =>
      have hne := hother w (by rw [hw]; rfl)
      exact .storing w op hstate (by simpa [hne] using hw) hop hdata (hrest w hall)
  | stored w op hstate hw hdata hall =>
      have hne := hother w (by rcases hw with hw | hw <;> rw [hw] <;> rfl)
      exact .stored w op hstate (by simpa [hne] using hw) hdata (hrest w hall)

omit [DecidableEq ρ] in
theorem Phase.of_init {s : State ρ V E} (h : Phase s) (hinit : s.shared.state = .init) :
    s.shared.data = .monostate ∧ ∀ r, (s.resolver r).early = true := by
  cases h with
  | unresolved _ hdata hall => exact ⟨hdata, hall⟩
  | storing w op hstate => rw [hinit] at hstate; exact absurd hstate.symm op.announces_ne_init
  | stored w op hstate => rw [hinit] at hstate; exact absurd hstate.symm op.announces_ne_init

/-- A call that has still to store is the winner. -/
theorem Phase.of_storing {s : State ρ V E} (h : Phase s) {r : ρ} {op : Resolution V E}
    (hr : s.resolver r = .storing op) :
    s.shared.state = op.announces ∧ s.shared.data = .monostate ∧
      ∀ u, u ≠ r → (s.resolver u).passive = true := by
  have hbusy : (s.resolver r).passive = false := by rw [hr]; rfl
  cases h with
  | unresolved _ _ hall => exact absurd (hall r) (ResolverPc.not_early_of_busy hbusy)
  | stored w op' _ hw _ hall =>
      obtain rfl := ResolverPc.eq_of_busy hbusy hall
      rw [hr] at hw
      rcases hw with hw | hw <;> cases hw
  | storing w op' hstate hw _ hdata hall =>
      obtain rfl := ResolverPc.eq_of_busy hbusy hall
      rw [hr] at hw
      cases hw
      exact ⟨hstate, hdata, hall⟩

theorem Phase.win {s : State ρ V E} (h : Phase s) (hinit : s.shared.state = .init) {r : ρ}
    {op : Resolution V E} :
    Phase { s with shared := { s.shared with state := op.announces }
                   resolver := Function.update s.resolver r (.won op) } := by
  obtain ⟨hdata, hall⟩ := h.of_init hinit
  have hrest : ∀ u, u ≠ r → (Function.update s.resolver r (.won op) u).passive = true := by
    intro u hu
    rw [Function.update_of_ne hu]
    exact ResolverPc.passive_of_early (hall u)
  cases hop : op.stores with
  | some d =>
      refine .storing r op rfl ?_ (by rw [hop]; rfl) hdata hrest
      simp [ResolverPc.won, hop]
  | none =>
      refine .stored r op rfl (Or.inl ?_) ?_ hrest
      · simp [ResolverPc.won, hop]
      · have hann := SharedState.announced_stores op
        rw [hop] at hann
        rwa [← hdata] at hann

theorem Phase.store {s : State ρ V E} (h : Phase s) {r : ρ} {op : Resolution V E}
    (hr : s.resolver r = .storing op) :
    Phase { s with shared := { s.shared with data := op.stores.getD s.shared.data }
                   resolver := Function.update s.resolver r (.notifying op) } := by
  obtain ⟨hstate, hdata, hall⟩ := h.of_storing hr
  refine .stored r op hstate (Or.inl (by simp)) ?_ ?_
  · show Announced s.shared.state (op.stores.getD s.shared.data)
    rw [hstate, hdata]
    exact SharedState.announced_stores op
  · intro u hu
    show (Function.update s.resolver r _ u).passive = true
    rw [Function.update_of_ne hu]
    exact hall u hu

theorem Phase.notify {s : State ρ V E} (h : Phase s) {r : ρ} {op : Resolution V E}
    (hr : s.resolver r = .notifying op) {p : WaiterPc V E} :
    Phase { s with waiter := p, resolver := Function.update s.resolver r (.returned op) } ∧
      ∀ u, (Function.update s.resolver r (.returned op) u).passive = true := by
  have hbusy : (s.resolver r).passive = false := by rw [hr]; rfl
  cases h with
  | unresolved _ _ hall => exact absurd (hall r) (ResolverPc.not_early_of_busy hbusy)
  | storing w op' _ hw _ _ hall =>
      obtain rfl := ResolverPc.eq_of_busy hbusy hall
      rw [hr] at hw
      cases hw
  | stored w op' hstate hw hdata hall =>
      obtain rfl := ResolverPc.eq_of_busy hbusy hall
      rw [hr] at hw
      obtain rfl : op = op' := by rcases hw with hw | hw <;> cases hw; rfl
      have hrest : ∀ u, u ≠ r →
          (Function.update s.resolver r (.returned op) u).passive = true := by
        intro u hu
        rw [Function.update_of_ne hu]
        exact hall u hu
      exact ⟨.stored r op hstate (Or.inr (by simp)) hdata hrest,
        (Function.forall_update_iff s.resolver fun _ q => q.passive = true).mpr ⟨rfl, hall⟩⟩

variable {moved : V → V} {s : State ρ V E} {e : Event ρ V E}

theorem Phase.next (h : Phase s) (he : enabled s e) : Phase (next moved s e) := by
  cases e with
  | call r op =>
      have hr : s.resolver r = .idle := he
      exact h.passive (by rw [hr]; rfl) rfl fun _ => rfl
  | exchange r op =>
      have hr : s.resolver r = .calling op := he
      by_cases hinit : s.shared.state = .init
      · simp only [Future.next, if_pos hinit]
        exact h.win hinit
      · simp only [Future.next, if_neg hinit]
        exact h.passive (by rw [hr]; rfl) rfl fun hi => absurd hi hinit
  | store r op => exact h.store he
  | notify r op => exact (h.notify he).1
  | examine st =>
      simp only [Future.next]
      cases SharedState.examine st s.shared.data with
      | ok r => exact h.moveOut
      | error x => exact h.keep rfl rfl
  | _ => exact h.keep rfl rfl

theorem phase (h : (machine ρ E moved).Reachable s) : Phase s := by
  refine h.invariant (I := Phase) ?_ ?_
  · intro s hs
    rw [show s = State.initial from hs]
    exact .unresolved rfl rfl fun _ => rfl
  · intro s e _ he hs
    exact hs.next he

/-! ## What the waiter has seen

A resolved state is never left, nor changed for another, so what the waiter has seen
stays true for as long as it does not take the state back itself. -/

theorem next_state (he : enabled s e) (hs : s.shared.state ≠ .init) :
    (next moved s e).shared.state = s.shared.state := by
  cases e with
  | exchange r op => simp only [next, if_neg hs]
  | _ => rfl

/-- A waiter that is past its `wait()` has seen the state resolved, and the state it
has loaded is the one that is still there. -/
def SeenAt (now : SharedState.State) : WaiterPc V E → Prop
  | .unlocking | .ready => now ≠ .init
  | .examining st => st = now ∧ st ≠ .init
  | _ => True

theorem SeenAt.mono {now now' : SharedState.State} {p : WaiterPc V E} (h : SeenAt now p)
    (hnow : now ≠ .init → now' = now) : SeenAt now' p := by
  cases p with
  | unlocking => rw [SeenAt, hnow h]; exact h
  | ready => rw [SeenAt, hnow h]; exact h
  | examining st =>
      obtain ⟨rfl, hne⟩ := h
      exact ⟨(hnow hne).symm, hne⟩
  | _ => trivial

omit [DecidableEq ρ] in
theorem seenAt_look {s : State ρ V E} {p p' : WaiterPc V E}
    (hp : s.shared.state ≠ .init → SeenAt s.shared.state p) (hp' : SeenAt s.shared.state p') :
    SeenAt s.shared.state (if s.shared.isReady then p else p') := by
  split
  · next h => exact hp (SharedState.isReady_iff.mp h)
  · exact hp'

theorem seenAt_next (he : enabled s e) (ih : SeenAt s.shared.state s.waiter) :
    SeenAt (next moved s e).shared.state (next moved s e).waiter := by
  cases e with
  | exchange r op =>
      have hwaiter : (next moved s (.exchange r op)).waiter = s.waiter := by
        simp only [next]
        split <;> rfl
      rw [hwaiter]
      exact ih.mono (next_state he)
  | call r op => exact ih
  | store r op => exact ih
  | notify r op =>
      show SeenAt s.shared.state s.waiter.notified
      cases hw : s.waiter with
      | asleep => trivial
      | _ => rw [hw] at ih; exact ih
  | check => exact seenAt_look (fun hs => hs) trivial
  | recheck => exact seenAt_look (fun hs => hs) trivial
  | test => exact seenAt_look (fun hs => hs) trivial
  | unlock =>
      rw [show s.waiter = .unlocking from he] at ih
      exact ih
  | load =>
      rw [show s.waiter = .ready from he] at ih
      exact ⟨rfl, ih⟩
  | _ => trivial

theorem seen (h : (machine ρ E moved).Reachable s) : SeenAt s.shared.state s.waiter := by
  refine h.invariant (I := fun s => SeenAt s.shared.state s.waiter) ?_ ?_
  · intro s hs
    rw [show s = State.initial from hs]
    trivial
  · intro s e _ he ih
    exact seenAt_next he ih

/-! ## The data a getter finds

Between the exchange of the state and the assignment of the data the state announces
what is not there yet. -/

/-- **A getter finds the announced data exactly when nobody stands between the
exchange of the state and the assignment of the data.** -/
theorem announced_iff_not_storing (h : (machine ρ E moved).Reachable s) {st : SharedState.State}
    (hw : s.waiter = .examining st) :
    (Announced st s.shared.data ↔ ∀ r op, s.resolver r ≠ .storing op) ∧
    (examine st s.shared.data ≠ .error .badVariantAccess ↔
      ∀ r op, s.resolver r ≠ .storing op) := by
  have hseen := seen h
  rw [hw] at hseen
  obtain ⟨rfl, hne⟩ := hseen
  have hiff : Announced s.shared.state s.shared.data ↔ ∀ r op, s.resolver r ≠ .storing op := by
    cases phase h with
    | unresolved hstate => exact absurd hstate hne
    | storing w op hstate hwin hop hdata hall =>
        refine ⟨fun hann => ?_, fun hno => absurd hwin (hno w op)⟩
        -- the announced alternative is missing: the variant is still empty
        rw [hstate, hdata] at hann
        cases op with
        | setValue | cancel =>
            obtain ⟨r, hr⟩ := hann
            cases hr
        | setException =>
            obtain ⟨r, hr⟩ := hann
            cases hr
        | broken => cases hop
    | stored w op hstate hwin hdata hall =>
        refine ⟨fun _ r op' hr => ?_, fun _ => hdata⟩
        by_cases hrw : r = w
        · rw [hrw] at hr
          rw [hr] at hwin
          rcases hwin with hwin | hwin <;> cases hwin
        · have hpass := hall r hrw
          rw [hr] at hpass
          cases hpass
  exact ⟨hiff, SharedState.announced_iff.symm.trans hiff⟩

/-- A value is set, stored and announced before `get()` looks at it. -/
def storedFirst : List (Event Unit ℕ ℕ) :=
  [.call () (.setValue (some 7)), .exchange () (.setValue (some 7)), .store () (.setValue (some 7)),
   .enter, .check, .load]

theorem announced_iff_not_storing_storedFirst :
    Announced .value
      ((machine Unit ℕ (id : ℕ → ℕ)).after State.initial storedFirst).shared.data := by
  have hreach : (machine Unit ℕ (id : ℕ → ℕ)).Reachable
      ((machine Unit ℕ (id : ℕ → ℕ)).after State.initial storedFirst) :=
    Machine.Reachable.of_run rfl ⟨rfl, rfl, rfl, rfl, rfl, rfl, trivial⟩
  refine (announced_iff_not_storing hreach rfl).1.mpr ?_
  intro r op
  rw [Subsingleton.elim r ()]
  exact nofun

/-- The value is announced, and `get()` examines the data before it is stored. -/
theorem examined_too_early :
    ∃ s : State Unit ℕ ℕ, (machine Unit ℕ (id : ℕ → ℕ)).Reachable s ∧
      s.waiter = .examining .value ∧ s.shared.data = .monostate ∧
      examine .value s.shared.data = .error .badVariantAccess :=
  ⟨(machine Unit ℕ (id : ℕ → ℕ)).after State.initial
      [.call () (.setValue (some 7)), .exchange () (.setValue (some 7)), .enter, .check, .load],
    Machine.Reachable.of_run rfl ⟨rfl, rfl, rfl, rfl, rfl, trivial⟩, rfl, rfl, rfl⟩

/-! ## The wake-up of the waiter

A shared state is notified at most once.  A waiter that is past its predicate and not
yet asleep misses that notification, and then sleeps until it wakes by itself. -/

/-- A call that has resolved the state and has not notified yet. -/
def ResolverPc.owing : ResolverPc V E → Bool
  | .storing _ | .notifying _ => true
  | _ => false

/-- The state is resolved, every call has returned, and the waiter sleeps without a
notification. -/
def Stuck (s : State ρ V E) : Prop :=
  s.shared.state ≠ .init ∧ (∀ r, s.resolver r = .idle ∨ ∃ op, s.resolver r = .returned op) ∧
    s.waiter = .asleep

/-- The notification falls between the waiter's last look at the state and its
going to sleep. -/
def FallsInWindow (s : State ρ V E) : Event ρ V E → Prop
  | .notify _ _ => s.waiter = .blocking
  | _ => False

/-- Once the state is resolved and nobody owes a notification, it stays so: whoever
comes now comes too late. -/
theorem passive_next (he : enabled s e) (hst : s.shared.state ≠ .init)
    (hall : ∀ r, (s.resolver r).passive = true) :
    (next moved s e).shared.state ≠ .init ∧ ∀ r, ((next moved s e).resolver r).passive = true := by
  refine ⟨by rw [next_state he hst]; exact hst, ?_⟩
  have hset : ∀ {r : ρ} {p : ResolverPc V E}, p.passive = true →
      ∀ u, (Function.update s.resolver r p u).passive = true := by
    intro r p hp
    exact (Function.forall_update_iff s.resolver fun _ q => q.passive = true).mpr
      ⟨hp, fun u _ => hall u⟩
  cases e with
  | call r op => exact hset rfl
  | exchange r op =>
      simp only [next, if_neg hst]
      exact hset rfl
  | store r op =>
      have hbusy := hall r
      rw [show s.resolver r = .storing op from he] at hbusy
      cases hbusy
  | notify r op => exact hset rfl
  | _ => exact hall

theorem notified_once (h : (machine ρ E moved).Reachable s) {r : ρ} {op : Resolution V E}
    (he : enabled s (.notify r op)) {s' : State ρ V E}
    (hs : (machine ρ E moved).Reaches (next moved s (.notify r op)) s') (u : ρ)
    (op' : Resolution V E) : ¬ enabled s' (.notify u op') := by
  have hready : s.shared.state ≠ .init := by
    cases phase h with
    | unresolved _ _ hall =>
        have hearly := hall r
        rw [show s.resolver r = .notifying op from he] at hearly
        cases hearly
    | storing w op' hstate => rw [hstate]; exact op'.announces_ne_init
    | stored w op' hstate => rw [hstate]; exact op'.announces_ne_init
  have hpassive := (hs.stable (P := fun s => s.shared.state ≠ .init ∧
    ∀ r, (s.resolver r).passive = true) (fun s e he hs => passive_next he hs.1 hs.2)
    ⟨hready, ((phase h).notify he (p := .idle)).2⟩).2 u
  intro hu
  rw [show s'.resolver u = .notifying op' from hu] at hpassive
  cases hpassive

/-- A waiter that sleeps, or is about to, on a resolved state is owed a notification. -/
def Owed (s : State ρ V E) : Prop :=
  s.shared.state ≠ .init → (s.waiter = .blocking ∨ s.waiter = .asleep) →
    ∃ r, (s.resolver r).owing = true

theorem Owed.next (h : Owed s) (he : enabled s e) (hwin : ¬ FallsInWindow s e) :
    Owed (next moved s e) := by
  have hbusy : ∀ {r : ρ} {p : ResolverPc V E}, (s.resolver r).owing = false →
      (∃ u, (s.resolver u).owing = true) →
      ∃ u, (Function.update s.resolver r p u).owing = true := by
    intro r p hr ⟨u, hu⟩
    have hne : u ≠ r := by
      rintro rfl
      rw [hr] at hu
      cases hu
    exact ⟨u, by rw [Function.update_of_ne hne]; exact hu⟩
  cases e with
  | call r op =>
      intro hst hw
      exact hbusy (by rw [show s.resolver r = .idle from he]; rfl) (h hst hw)
  | exchange r op =>
      have hr : s.resolver r = .calling op := he
      by_cases hinit : s.shared.state = .init
      · intro _ _
        refine ⟨r, ?_⟩
        simp only [Future.next, if_pos hinit, Function.update_self]
        unfold ResolverPc.won
        split <;> rfl
      · simp only [Future.next, if_neg hinit]
        intro hst hw
        exact hbusy (by rw [hr]; rfl) (h hst hw)
  | store r op => exact fun _ _ => ⟨r, by simp [Future.next, ResolverPc.owing]⟩
  | notify r op =>
      -- the waiter is not in the window: it is awake, or this wakes it
      intro _ hw
      have hnot : s.waiter ≠ .blocking := hwin
      change s.waiter.notified = .blocking ∨ s.waiter.notified = .asleep at hw
      cases hs : s.waiter with
      | blocking => exact absurd hs hnot
      | _ => rw [hs] at hw; rcases hw with hw | hw <;> cases hw
  | check =>
      intro _ hw
      change (if s.shared.isReady then _ else _) = _ ∨ (if s.shared.isReady then _ else _) = _ at hw
      split at hw <;> rcases hw with hw | hw <;> cases hw
  | recheck =>
      intro _ hw
      change (if s.shared.isReady then _ else _) = _ ∨ (if s.shared.isReady then _ else _) = _ at hw
      split at hw <;> rcases hw with hw | hw <;> cases hw
  | test =>
      -- a predicate that is false means that nothing is resolved yet
      intro hst hw
      change s.shared.state ≠ .init at hst
      change (if s.shared.isReady then _ else _) = _ ∨ (if s.shared.isReady then _ else _) = _ at hw
      rw [if_pos (SharedState.isReady_iff.mpr hst)] at hw
      rcases hw with hw | hw <;> cases hw
  | sleep => exact fun hst _ => h hst (Or.inl he)
  | examine st =>
      intro _ hw
      rcases hw with hw | hw <;> cases hw
  | _ =>
      intro _ hw
      rcases hw with hw | hw <;> cases hw

/-- **No wake-up is missed in the runs in which no notification falls into the
window** between the waiter's predicate and its going to sleep. -/
theorem not_stuck
    (h : ((machine ρ E moved).restrict fun s e => ¬ FallsInWindow s e).Reachable s) :
    ¬ Stuck s := by
  have howed : Owed s := by
    refine h.invariant (I := Owed) ?_ ?_
    · intro s hs
      rw [show s = State.initial from hs]
      exact fun hst => absurd rfl hst
    · intro s e _ he hs
      exact hs.next he.1 he.2
  intro ⟨hst, hall, hw⟩
  obtain ⟨r, hr⟩ := howed hst (Or.inr hw)
  rcases hall r with hidle | ⟨op, hret⟩
  · rw [hidle] at hr
    cases hr
  · rw [hret] at hr
    cases hr

/-- The waiter sleeps before the value is set, and is woken. -/
def sleptFirst : List (Event Unit ℕ ℕ) :=
  [.enter, .check, .lock, .recheck, .test, .sleep,
   .call () (.setValue (some 7)), .exchange () (.setValue (some 7)), .store () (.setValue (some 7)),
   .notify () (.setValue (some 7))]

theorem not_stuck_sleptFirst :
    ¬ Stuck ((machine Unit ℕ (id : ℕ → ℕ)).after State.initial sleptFirst) := by
  have hrun : ((machine Unit ℕ (id : ℕ → ℕ)).restrict fun s e => ¬ FallsInWindow s e).Run
      State.initial sleptFirst :=
    ⟨⟨rfl, id⟩, ⟨rfl, id⟩, ⟨⟨rfl, rfl⟩, id⟩, ⟨rfl, id⟩, ⟨rfl, id⟩, ⟨rfl, id⟩, ⟨rfl, id⟩,
      ⟨rfl, id⟩, ⟨rfl, id⟩, ⟨rfl, nofun⟩, trivial⟩
  have hreach : ((machine Unit ℕ (id : ℕ → ℕ)).restrict fun s e => ¬ FallsInWindow s e).Reachable
      ((machine Unit ℕ (id : ℕ → ℕ)).after State.initial sleptFirst) :=
    ⟨State.initial, rfl, sleptFirst, hrun, rfl⟩
  exact not_stuck hreach

/-- The waiter has found its predicate false; before it sleeps the value is set and
the notification issued. -/
theorem stuck_reachable :
    ∃ s : State Unit ℕ ℕ, (machine Unit ℕ (id : ℕ → ℕ)).Reachable s ∧ Stuck s := by
  refine ⟨(machine Unit ℕ (id : ℕ → ℕ)).after State.initial
      [.enter, .check, .lock, .recheck, .test,
       .call () (.setValue (some 7)), .exchange () (.setValue (some 7)),
       .store () (.setValue (some 7)), .notify () (.setValue (some 7)), .sleep],
    Machine.Reachable.of_run rfl
      ⟨rfl, rfl, ⟨rfl, rfl⟩, rfl, rfl, rfl, rfl, rfl, rfl, rfl, trivial⟩, nofun, ?_, rfl⟩
  intro r
  rw [Subsingleton.elim r ()]
  exact Or.inr ⟨_, rfl⟩

end Future

end Jar.Concurrency
