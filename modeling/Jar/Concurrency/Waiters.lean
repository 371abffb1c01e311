/-
# `Jar.Concurrency.Waiters` — one shared state, any number of calls on it

`future::wait` is const and `promise::get_future` may be called again and again,
so any number of threads wait on one shared state and any number try to resolve
it.  Here are all of them: every resolving call and every waiting thread takes
the steps of `Jar.Concurrency.Future`, one at a time in any order.  The one step
that concerns several waiters is the notification: `notify_one` reaches one of
the sleepers.  With a single waiter this is the machine of that module
(`oneWaiter`).

* `phase` — where the shared state is: nobody has won, or the winner of the
  exchange is known and has stored its data, or still has to; what becomes of
  it in a run is read off from that (`Jar.Concurrency.FirstWins`);
* `released_iff` — the notification releases all who slept when the call took
  effect exactly when there are none or it has no choice.
-/
import Jar.Concurrency.Future
import Jar.Lib.CondVar

namespace Jar.Concurrency

open Jar.Lib

namespace Waiters

open SharedState (Resolution)
open Future (WaiterPc ResolverPc)

/-- The shared state, `m_mutex`, the waiting threads and the resolving calls. -/
structure State (ω ρ V E : Type) where
  shared : SharedState V E
  locked : Bool
  waiter : ω → WaiterPc V E
  resolver : ρ → ResolverPc V E

/-- A resolving call `r` moves, or a waiting thread `t` does; a notification says
which sleeper it reaches. -/
inductive Event (ω ρ V E : Type) where
  | call (r : ρ) (op : Resolution V E)
  | exchange (r : ρ) (op : Resolution V E)
  | store (r : ρ) (op : Resolution V E)
  | notify (r : ρ) (op : Resolution V E) (u : Option ω)
  | waiter (t : ω) (e : Future.Event ρ V E)

variable {ω ρ V E : Type}

/-- The threads asleep on `m_condition`. -/
def sleepers (V E : Type) : CondVar (WaiterPc V E) where
  asleep
    | .asleep => true
    | _ => false
  wake := WaiterPc.notified
  awake p h := by
    cases p with
    | asleep => rfl
    | _ => cases h

/-- The steps that are a waiter's own. -/
def ownStep : Future.Event ρ V E → Bool
  | .call _ _ | .exchange _ _ | .store _ _ | .notify _ _ => false
  | _ => true

namespace State

/-- What thread `t` sees: the shared state, the mutex, itself. -/
def view (s : State ω ρ V E) (t : ω) : Future.State ρ V E :=
  ⟨s.shared, s.locked, s.waiter t, s.resolver⟩

/-- What a resolving call sees: it does not look at the waiters. -/
def unattended (s : State ω ρ V E) : Future.State ρ V E :=
  ⟨s.shared, s.locked, .idle, s.resolver⟩

/-- After a step of thread `t` on what it sees. -/
def put [DecidableEq ω] (s : State ω ρ V E) (t : ω) (v : Future.State ρ V E) : State ω ρ V E :=
  ⟨v.shared, v.locked, Function.update s.waiter t v.waiter, v.resolver⟩

/-- After a step of a resolving call. -/
def resolved (s : State ω ρ V E) (v : Future.State ρ V E) : State ω ρ V E :=
  { s with shared := v.shared, resolver := v.resolver }

end State

def enabled (s : State ω ρ V E) : Event ω ρ V E → Prop
  | .call r op => Future.enabled s.unattended (.call r op)
  | .exchange r op => Future.enabled s.unattended (.exchange r op)
  | .store r op => Future.enabled s.unattended (.store r op)
  | .notify r op u =>
      Future.enabled s.unattended (.notify r op) ∧ (sleepers V E).Target s.waiter u
  | .waiter t e => ownStep e = true ∧ Future.enabled (s.view t) e

variable [DecidableEq ω] [DecidableEq ρ]

def next (moved : V → V) (s : State ω ρ V E) : Event ω ρ V E → State ω ρ V E
  | .call r op => s.resolved (Future.next moved s.unattended (.call r op))
  | .exchange r op => s.resolved (Future.next moved s.unattended (.exchange r op))
  | .store r op => s.resolved (Future.next moved s.unattended (.store r op))
  | .notify r op u =>
      { s.resolved (Future.next moved s.unattended (.notify r op)) with
        waiter := (sleepers V E).wakeOne s.waiter u }
  | .waiter t e => s.put t (Future.next moved (s.view t) e)

/-- A fresh shared state that nobody has touched. -/
def State.initial : State ω ρ V E := ⟨.fresh, false, fun _ => .idle, fun _ => .idle⟩

/-- Any number of calls and any number of waiting threads on one shared state. -/
def machine (ω ρ : Type) [DecidableEq ω] [DecidableEq ρ] {V : Type} (E : Type) (moved : V → V) :
    Machine (State ω ρ V E) (Event ω ρ V E) where
  Init s := s = State.initial
  Enabled := enabled
  next := next moved

section Exchange

variable {moved : V → V} {s : State ω ρ V E} {r : ρ} {op : Resolution V E}

theorem next_exchange_init (h : s.shared.state = .init) : next moved s (.exchange r op) =
    { s with shared := { s.shared with state := op.announces }
             resolver := Function.update s.resolver r (.won op) } := by
  simp [next, Future.next, State.unattended, State.resolved, h]

theorem next_exchange_ready (h : s.shared.state ≠ .init) : next moved s (.exchange r op) =
    { s with resolver := Function.update s.resolver r (.returned op) } := by
  simp [next, Future.next, State.unattended, State.resolved, h]

end Exchange

/-! ## With one waiter -/

/-- The one waiter as a family of waiters. -/
def ofFuture (s : Future.State ρ V E) : State Unit ρ V E :=
  ⟨s.shared, s.locked, fun _ => s.waiter, s.resolver⟩

/-- A notification reaches the one waiter if it sleeps. -/
def eventOf (s : Future.State ρ V E) : Future.Event ρ V E → Event Unit ρ V E
  | .call r op => .call r op
  | .exchange r op => .exchange r op
  | .store r op => .store r op
  | .notify r op => .notify r op (if (sleepers V E).asleep s.waiter then some () else none)
  | e => .waiter () e

omit [DecidableEq ρ] in
theorem ofFuture_put (s : State Unit ρ V E) (v : Future.State ρ V E) : ofFuture v = s.put () v := by
  have hwaiter : (fun _ => v.waiter) = Function.update s.waiter () v.waiter := by
    funext u
    rw [Subsingleton.elim u (), Function.update_self]
  simp only [ofFuture, State.put, hwaiter]

theorem ofFuture_exchange (moved : V → V) (s : Future.State ρ V E) (r : ρ) (op : Resolution V E) :
    ofFuture (Future.next moved s (.exchange r op)) =
      next moved (ofFuture s) (.exchange r op) := by
  rcases eq_or_ne s.shared.state .init with hinit | hready
  · rw [next_exchange_init hinit]
    simp only [Future.next, if_pos hinit]
    rfl
  · rw [next_exchange_ready hready]
    simp only [Future.next, if_neg hready]
    rfl

/-- The notification reaches the waiter exactly if it sleeps. -/
theorem ofFuture_notify (moved : V → V) {s : Future.State ρ V E} {r : ρ} {op : Resolution V E}
    (he : Future.enabled s (.notify r op)) :
    enabled (ofFuture s) (eventOf s (.notify r op)) ∧
      ofFuture (Future.next moved s (.notify r op)) =
        next moved (ofFuture s) (eventOf s (.notify r op)) := by
  have hput := ofFuture_put (ofFuture s) (Future.next moved s (.notify r op))
  cases hs : s.waiter with
  | asleep =>
      have hasleep : (sleepers V E).asleep s.waiter = true := by rw [hs]; rfl
      simp only [eventOf, if_pos hasleep]
      exact ⟨⟨he, hasleep⟩, hput⟩
  | _ =>
      have hawake : (sleepers V E).asleep s.waiter = false := by rw [hs]; rfl
      have hsame : s.waiter.notified = s.waiter := by rw [hs]; rfl
      simp only [eventOf, hawake]
      refine ⟨⟨he, fun _ => hawake⟩, ?_⟩
      simp only [ofFuture, next, Future.next, hsame]
      rfl

/-- The machine with one waiter is the one of `Jar.Concurrency.Future`. -/
def oneWaiter (moved : V → V) :
    (Future.machine ρ E moved).Refines (machine Unit ρ E moved) where
  view := ofFuture
  event s e := some (eventOf s e)
  init s hs := by
    rw [show s = Future.State.initial from hs]
    rfl
  silent s e _ h := by cases h
  visible s e b he h := by
    cases h
    change Future.enabled s e at he
    cases e with
    | call r op => exact ⟨he, rfl⟩
    | exchange r op => exact ⟨he, ofFuture_exchange moved s r op⟩
    | store r op => exact ⟨he, rfl⟩
    | notify r op => exact ofFuture_notify moved he
    | _ => exact ⟨⟨rfl, he⟩, ofFuture_put (ofFuture s) _⟩

/-! ## What every step is, seen from the thread that takes it

Nothing in the three phases depends on how many threads wait.  A thread that does not
move is left alone, or woken. -/

/-- The step of `Jar.Concurrency.Future` that an event is. -/
def Event.base : Event ω ρ V E → Future.Event ρ V E
  | .call r op => .call r op
  | .exchange r op => .exchange r op
  | .store r op => .store r op
  | .notify r op _ => .notify r op
  | .waiter _ e => e

/-- What the thread that takes it sees. -/
def State.seenBy (s : State ω ρ V E) : Event ω ρ V E → Future.State ρ V E
  | .waiter t _ => s.view t
  | _ => s.unattended

variable {moved : V → V} {s : State ω ρ V E} {e : Event ω ρ V E}

omit [DecidableEq ω] [DecidableEq ρ] in
theorem enabled_base (he : enabled s e) : Future.enabled (s.seenBy e) e.base := by
  cases e with
  | notify r op u => exact he.1
  | waiter t e => exact he.2
  | _ => exact he

theorem next_shared (moved : V → V) (s : State ω ρ V E) (e : Event ω ρ V E) :
    (next moved s e).shared = (Future.next moved (s.seenBy e) e.base).shared := by
  cases e <;> rfl

theorem next_resolver (moved : V → V) (s : State ω ρ V E) (e : Event ω ρ V E) :
    (next moved s e).resolver = (Future.next moved (s.seenBy e) e.base).resolver := by
  cases e <;> rfl

omit [DecidableEq ω] [DecidableEq ρ] in
theorem seenBy_shared (s : State ω ρ V E) (e : Event ω ρ V E) :
    (s.seenBy e).shared = s.shared := by
  cases e <;> rfl

omit [DecidableEq ω] [DecidableEq ρ] in
theorem seenBy_resolver (s : State ω ρ V E) (e : Event ω ρ V E) :
    (s.seenBy e).resolver = s.resolver := by
  cases e <;> rfl

theorem next_state (he : enabled s e) (hs : s.shared.state ≠ .init) :
    (next moved s e).shared.state = s.shared.state := by
  rw [next_shared, Future.next_state (enabled_base he) (by rw [seenBy_shared]; exact hs),
    seenBy_shared]

theorem ready_next (he : enabled s e) (hs : s.shared.state ≠ .init) :
    (next moved s e).shared.state ≠ .init := by
  rw [next_state he hs]
  exact hs

theorem phase (h : (machine ω ρ E moved).Reachable s) : Future.Phase s.unattended := by
  refine h.invariant (I := fun s => Future.Phase s.unattended) ?_ ?_
  · intro s hs
    rw [show s = State.initial from hs]
    exact .unresolved rfl rfl fun _ => rfl
  · intro s e _ he ih
    have hseen : Future.Phase (s.seenBy e) := ih.keep (seenBy_shared s e) (seenBy_resolver s e)
    exact (hseen.next (enabled_base he)).keep (next_shared moved s e) (next_resolver moved s e)

omit [DecidableEq ω] [DecidableEq ρ] in
theorem enabled_notify_some {r : ρ} {op : Resolution V E} {u : ω} :
    enabled s (.notify r op (some u)) ↔ s.resolver r = .notifying op ∧ s.waiter u = .asleep := by
  have hasleep : (sleepers V E).asleep (s.waiter u) = true ↔ s.waiter u = .asleep := by
    cases s.waiter u <;> simp [sleepers]
  exact and_congr_right fun _ => hasleep

theorem next_waiter_of_ne (moved : V → V) (he : enabled s e) {t : ω} (ht : ∀ f, e ≠ .waiter t f) :
    (next moved s e).waiter t = s.waiter t ∨
      ∃ r op, e = .notify r op (some t) ∧ s.waiter t = .asleep ∧
        (next moved s e).waiter t = .woken := by
  cases e with
  | waiter u f =>
      have hne : t ≠ u := by
        rintro rfl
        exact ht f rfl
      exact Or.inl (Function.update_of_ne hne _ _)
  | notify r op o =>
      cases o with
      | none => exact Or.inl rfl
      | some u =>
          rcases eq_or_ne t u with rfl | hne
          · have hasleep : s.waiter t = .asleep := (enabled_notify_some.mp he).2
            refine Or.inr ⟨r, op, rfl, hasleep, ?_⟩
            show Function.update s.waiter t _ t = _
            rw [Function.update_self, hasleep]
            rfl
          · exact Or.inl (Function.update_of_ne hne _ _)
  | _ => exact Or.inl rfl

theorem next_waiter_self (moved : V → V) (s : State ω ρ V E) (t : ω) (f : Future.Event ρ V E) :
    (next moved s (.waiter t f)).waiter t = (Future.next moved (s.view t) f).waiter :=
  Function.update_self _ _ _

theorem seen (h : (machine ω ρ E moved).Reachable s) (t : ω) :
    Future.SeenAt s.shared.state (s.waiter t) := by
  refine h.invariant (I := fun s => ∀ t, Future.SeenAt s.shared.state (s.waiter t)) ?_ ?_ t
  · intro s hs t
    rw [show s = State.initial from hs]
    trivial
  · intro s e _ he ih t
    change enabled s e at he
    show Future.SeenAt (next moved s e).shared.state ((next moved s e).waiter t)
    by_cases hself : ∃ f, e = .waiter t f
    · obtain ⟨f, rfl⟩ := hself
      rw [next_waiter_self]
      exact Future.seenAt_next (enabled_base he) (ih t)
    · rcases next_waiter_of_ne moved he (not_exists.mp hself) with hw | ⟨_, _, _, _, hw⟩
      · rw [hw]
        exact (ih t).mono (next_state he)
      · rw [hw]
        trivial

/-! ## What every step does to a call -/

/-- The call a step is part of. -/
def Event.caller : Event ω ρ V E → Option ρ
  | .call r _ | .exchange r _ | .store r _ | .notify r _ _ => some r
  | .waiter _ _ => none

theorem next_resolver_of_ne (moved : V → V) (he : enabled s e) {r : ρ} (hr : e.caller ≠ some r) :
    (next moved s e).resolver r = s.resolver r := by
  have hne : ∀ {u : ρ}, some u ≠ some r → r ≠ u := fun hu heq => hu (congrArg some heq.symm)
  cases e with
  | call u op => exact Function.update_of_ne (hne hr) _ _
  | exchange u op =>
      rcases eq_or_ne s.shared.state .init with hinit | hready
      · rw [next_exchange_init hinit]
        exact Function.update_of_ne (hne hr) _ _
      · rw [next_exchange_ready hready]
        exact Function.update_of_ne (hne hr) _ _
  | store u op => exact Function.update_of_ne (hne hr) _ _
  | notify u op o => exact Function.update_of_ne (hne hr) _ _
  | waiter t f =>
      obtain ⟨hown, -⟩ := he
      cases f with
      | call | exchange | store | notify => cases hown
      | _ => rfl

/-- How call `r` gets from one counter to the next. -/
inductive Moves (s : State ω ρ V E) (r : ρ) :
    Event ω ρ V E → ResolverPc V E → ResolverPc V E → Prop
  | call {op : Resolution V E} : Moves s r (.call r op) .idle (.calling op)
  | won {op : Resolution V E} (hinit : s.shared.state = .init) (hop : op.stores.isSome = true) :
      Moves s r (.exchange r op) (.calling op) (.storing op)
  | wonBare {op : Resolution V E} (hinit : s.shared.state = .init) (hop : op.stores = none) :
      Moves s r (.exchange r op) (.calling op) (.notifying op)
  | late {op : Resolution V E} (hready : s.shared.state ≠ .init) :
      Moves s r (.exchange r op) (.calling op) (.returned op)
  | store {op : Resolution V E} : Moves s r (.store r op) (.storing op) (.notifying op)
  | notify {op : Resolution V E} {u : Option ω} :
      Moves s r (.notify r op u) (.notifying op) (.returned op)
  | other {e : Event ω ρ V E} {p : ResolverPc V E} (he : e.caller ≠ some r) : Moves s r e p p

theorem moves (moved : V → V) (he : enabled s e) (r : ρ) :
    Moves s r e (s.resolver r) ((next moved s e).resolver r) := by
  rcases em (e.caller = some r) with hr | hr
  · cases e with
    | waiter => cases hr
    | call u op =>
        obtain rfl : u = r := Option.some_inj.mp hr
        rw [show s.resolver u = .idle from he,
          show (next moved s (.call u op)).resolver u = .calling op from Function.update_self _ _ _]
        exact .call
    | exchange u op =>
        obtain rfl : u = r := Option.some_inj.mp hr
        rw [show s.resolver u = .calling op from he]
        rcases eq_or_ne s.shared.state .init with hinit | hready
        · have hnew : (next moved s (.exchange u op)).resolver u = .won op := by
            rw [next_exchange_init hinit]
            exact Function.update_self _ _ _
          rw [hnew]
          cases hop : op.stores with
          | some d =>
              have hsome : op.stores.isSome = true := by rw [hop]; rfl
              rw [ResolverPc.won, if_pos hsome]
              exact .won hinit hsome
          | none =>
              rw [ResolverPc.won, if_neg (by rw [hop]; exact Bool.false_ne_true)]
              exact .wonBare hinit hop
        · have hnew : (next moved s (.exchange u op)).resolver u = .returned op := by
            rw [next_exchange_ready hready]
            exact Function.update_self _ _ _
          rw [hnew]
          exact .late hready
    | store u op =>
        obtain rfl : u = r := Option.some_inj.mp hr
        rw [show s.resolver u = .storing op from he,
          show (next moved s (.store u op)).resolver u = .notifying op from
            Function.update_self _ _ _]
        exact .store
    | notify u op o =>
        obtain rfl : u = r := Option.some_inj.mp hr
        rw [show s.resolver u = .notifying op from he.1,
          show (next moved s (.notify u op o)).resolver u = .returned op from
            Function.update_self _ _ _]
        exact .notify
  · rw [next_resolver_of_ne moved he hr]
    exact .other hr

/-! ## Who is left asleep

Once the state is resolved nobody decides to sleep any more, and a sleep is ended by a
notification or a spurious wake-up only.  One call comes to notify after its exchange,
and it wakes one thread. -/

/-- A wake-up that nobody sent. -/
def Event.spurious : Event ω ρ V E → Bool
  | .waiter _ .spurious => true
  | _ => false

/-- The runs without spurious wake-ups. -/
abbrev undisturbed (ω ρ : Type) [DecidableEq ω] [DecidableEq ρ] {V : Type} (E : Type)
    (moved : V → V) : Machine (State ω ρ V E) (Event ω ρ V E) :=
  (machine ω ρ E moved).restrict fun _ e => e.spurious = false

theorem asleep_next (he : enabled s e) (hs : e.spurious = false)
    (hn : ∀ r op u, e ≠ .notify r op u) {t : ω} (ht : s.waiter t = .asleep) :
    (next moved s e).waiter t = .asleep := by
  by_cases hself : ∃ f, e = .waiter t f
  · obtain ⟨f, rfl⟩ := hself
    obtain ⟨hown, hf⟩ := he
    have hview : (s.view t).waiter = .asleep := ht
    cases f with
    | spurious => cases hs
    | call | exchange | store | notify => cases hown
    | lock | relock =>
        rw [hf.1] at hview
        cases hview
    | _ =>
        rw [show (s.view t).waiter = _ from hf] at hview
        cases hview
  · rcases next_waiter_of_ne moved he (not_exists.mp hself) with hw | ⟨r, op, rfl, -⟩
    · rw [hw]
      exact ht
    · exact absurd rfl (hn r op (some t))

/-- A thread that neither sleeps nor is about to. -/
def Awake (p : WaiterPc V E) : Prop := p ≠ .asleep ∧ p ≠ .blocking

theorem awake_next (he : enabled s e) (hst : s.shared.state ≠ .init) {t : ω}
    (ht : Awake (s.waiter t)) : Awake ((next moved s e).waiter t) := by
  by_cases hself : ∃ f, e = .waiter t f
  · obtain ⟨f, rfl⟩ := hself
    obtain ⟨hown, hf⟩ := he
    have hready : (s.view t).shared.isReady = true := SharedState.isReady_iff.mpr hst
    rw [next_waiter_self]
    cases f with
    | call | exchange | store | notify => cases hown
    | sleep => exact absurd hf ht.2
    | check | recheck | test =>
        simp only [Future.next, if_pos hready]
        constructor <;> (intro h; cases h)
    | _ => constructor <;> (intro h; cases h)
  · rcases next_waiter_of_ne moved he (not_exists.mp hself) with hw | ⟨_, _, _, _, hw⟩
    · rw [hw]
      exact ht
    · rw [hw]
      constructor <;> (intro h; cases h)

omit [DecidableEq ω] [DecidableEq ρ] in
theorem ResolverPc.passive_of_owing {p : ResolverPc V E} (h : p.owing = true) :
    p.passive = false := by
  cases p with
  | idle | calling | returned => cases h
  | storing | notifying => rfl

/-- Only one call is between its exchange and its return. -/
theorem busy_unique {v : Future.State ρ V E} (h : Future.Phase v) {r u : ρ}
    (hr : (v.resolver r).passive = false) (hu : (v.resolver u).passive = false) : r = u := by
  have honly : ∀ w, (∀ x, x ≠ w → (v.resolver x).passive = true) → r = u := by
    intro w hall
    have hrw : r = w := by
      by_contra hne
      rw [hall r hne] at hr
      cases hr
    have huw : u = w := by
      by_contra hne
      rw [hall u hne] at hu
      cases hu
    rw [hrw, huw]
  cases h with
  | unresolved _ _ hall =>
      rw [ResolverPc.passive_of_early (hall r)] at hr
      cases hr
  | storing w op _ _ _ _ hall => exact honly w hall
  | stored w op _ _ _ hall => exact honly w hall

/-- Call `r` has taken effect; until it notifies, those who slept then still sleep. -/
def StillAsleep (s₀ : State ω ρ V E) (r : ρ) (s : State ω ρ V E) : Prop :=
  (∃ op, s.resolver r = .returned op) ∨
    ((s.resolver r).owing = true ∧ ∀ t, s₀.waiter t = .asleep → s.waiter t = .asleep)

theorem StillAsleep.next {s₀ : State ω ρ V E} {r : ρ} (h : StillAsleep s₀ r s)
    (hphase : Future.Phase s.unattended) (he : enabled s e) (hs : e.spurious = false) :
    StillAsleep s₀ r (next moved s e) := by
  have hmoves := moves moved he r
  rcases h with ⟨op, hret⟩ | ⟨howing, hsleep⟩
  · rw [hret] at hmoves
    refine Or.inl ⟨op, ?_⟩
    revert hmoves
    generalize (Waiters.next moved s e).resolver r = q
    intro hmoves
    cases hmoves with
    | other => rfl
  · -- the call is the winner, so nobody else has a notification to send
    have hquiet : e.caller ≠ some r → ∀ u op o, e ≠ .notify u op o := by
      rintro hr u op o rfl
      have hu : (s.resolver u).passive = false := by
        rw [show s.resolver u = .notifying op from he.1]
        rfl
      exact hr (congrArg some (busy_unique hphase hu (ResolverPc.passive_of_owing howing)))
    have hstay : (∀ u op o, e ≠ .notify u op o) → ∀ t, s₀.waiter t = .asleep →
        (Waiters.next moved s e).waiter t = .asleep :=
      fun hn t ht => asleep_next he hs hn (hsleep t ht)
    revert howing hmoves
    rw [StillAsleep]
    generalize s.resolver r = p, (Waiters.next moved s e).resolver r = q
    intro hmoves howing
    cases hmoves with
    | call | won | wonBare | late => cases howing
    | store => exact Or.inr ⟨rfl, hstay nofun⟩
    | notify => exact Or.inl ⟨_, rfl⟩
    | other hr => exact Or.inr ⟨howing, hstay (hquiet hr)⟩

/-- Those who sleep when a call takes effect still sleep when it comes to notify. -/
theorem asleep_until_notified {s₀ : State ω ρ V E} (h : (machine ω ρ E moved).Reachable s₀)
    {r : ρ} {op : Resolution V E} (he : (machine ω ρ E moved).Enabled s₀ (.exchange r op))
    (hinit : s₀.shared.state = .init)
    (hs : (undisturbed ω ρ E moved).Reaches (next moved s₀ (.exchange r op)) s)
    (hr : s.resolver r = .notifying op) {t : ω} (ht : s₀.waiter t = .asleep) :
    s.waiter t = .asleep := by
  have hstart : StillAsleep s₀ r (next moved s₀ (.exchange r op)) := by
    rw [next_exchange_init hinit]
    refine Or.inr ⟨?_, fun t ht => ht⟩
    show (Function.update s₀.resolver r (.won op) r).owing = true
    rw [Function.update_self]
    unfold ResolverPc.won
    split <;> rfl
  have hreach : (machine ω ρ E moved).Reachable (next moved s₀ (.exchange r op)) := h.step he
  have hpair := hs.stable
    (P := fun s => (machine ω ρ E moved).Reachable s ∧ StillAsleep s₀ r s)
    (by
      rintro s e ⟨he, hq⟩ ⟨hs, hstill⟩
      exact ⟨hs.step he, hstill.next (phase hs) he hq⟩)
    ⟨hreach, hstart⟩
  rcases hpair.2 with ⟨op', hret⟩ | ⟨-, hsleep⟩
  · rw [hr] at hret
    cases hret
  · exact hsleep t ht

theorem ready_for_good {s' : State ω ρ V E} (hst : s.shared.state ≠ .init)
    (hs : (undisturbed ω ρ E moved).Reaches s s') : s'.shared.state ≠ .init :=
  hs.stable (P := fun s => s.shared.state ≠ .init)
    (by
      rintro s e ⟨he, -⟩ hst
      exact ready_next he hst)
    hst

theorem awake_for_good {s' : State ω ρ V E} (hst : s.shared.state ≠ .init) {t : ω}
    (ht : Awake (s.waiter t)) (hs : (undisturbed ω ρ E moved).Reaches s s') :
    Awake (s'.waiter t) := by
  have hpair := hs.stable (P := fun s => s.shared.state ≠ .init ∧ Awake (s.waiter t))
    (by
      rintro s e ⟨he, -⟩ ⟨hst, ht⟩
      exact ⟨ready_next he hst, awake_next he hst ht⟩)
    ⟨hst, ht⟩
  exact hpair.2

theorem notify_asleep (moved : V → V) (s : State ω ρ V E) (r : ρ) (op : Resolution V E)
    (u t : ω) (ht : s.waiter t = .asleep) :
    (next moved s (.notify r op (some u))).waiter t = if t = u then .woken else .asleep := by
  show Function.update s.waiter u _ t = _
  split
  · next heq =>
      subst heq
      rw [Function.update_self, ht]
      rfl
  · next hne => rw [Function.update_of_ne hne, ht]

theorem notify_only (moved : V → V) {r : ρ} {op : Resolution V E} {u : Option ω}
    (he : enabled s (.notify r op u)) {t : ω} (ht : s.waiter t = .asleep)
    (honly : ∀ v, s.waiter v = .asleep → t = v) :
    Awake ((next moved s (.notify r op u)).waiter t) := by
  cases u with
  | none =>
      have hno : (sleepers V E).asleep (s.waiter t) = false := he.2 t
      rw [ht] at hno
      cases hno
  | some u =>
      rw [notify_asleep moved s r op u t ht, if_pos (honly u (enabled_notify_some.mp he).2)]
      constructor <;> (intro h; cases h)

/-- **A resolving call releases everybody who slept when it took effect exactly when
nobody did, or when no more than one thread sleeps as it comes to notify.** -/
theorem released_iff {s₀ : State ω ρ V E} (h : (machine ω ρ E moved).Reachable s₀) {r : ρ}
    {op : Resolution V E} (he : (machine ω ρ E moved).Enabled s₀ (.exchange r op))
    (hinit : s₀.shared.state = .init)
    (hs : (undisturbed ω ρ E moved).Reaches (next moved s₀ (.exchange r op)) s)
    (hr : s.resolver r = .notifying op) :
    (∀ u, enabled s (.notify r op u) →
      ∀ s', (undisturbed ω ρ E moved).Reaches (next moved s (.notify r op u)) s' →
        ∀ t, s₀.waiter t = .asleep → s'.waiter t ≠ .asleep) ↔
      (∀ t, s₀.waiter t ≠ .asleep) ∨
        ∀ t t', s.waiter t = .asleep → s.waiter t' = .asleep → t = t' := by
  have hslept : ∀ t, s₀.waiter t = .asleep → s.waiter t = .asleep :=
    fun t ht => asleep_until_notified h he hinit hs hr ht
  have hready : s.shared.state ≠ .init := by
    refine ready_for_good ?_ hs
    rw [next_exchange_init hinit]
    exact op.announces_ne_init
  constructor
  · intro hall
    rcases em (∀ t, s₀.waiter t ≠ .asleep) with hnone | hsome
    · exact Or.inl hnone
    -- a sleeper from before is the one reached, whichever sleeper that is
    obtain ⟨t, ht⟩ := not_forall_not.mp hsome
    have honly : ∀ u, s.waiter u = .asleep → t = u := by
      intro u hu
      by_contra htu
      refine hall (some u) (enabled_notify_some.mpr ⟨hr, hu⟩) _ (Machine.Reaches.refl _) t ht ?_
      rw [notify_asleep moved s r op u t (hslept t ht), if_neg htu]
    exact Or.inr fun u u' hu hu' => (honly u hu).symm.trans (honly u' hu')
  · intro hcond u he s' hs' t ht
    rcases hcond with hnone | hone
    · exact absurd ht (hnone t)
    have hawake : Awake ((next moved s (.notify r op u)).waiter t) :=
      notify_only moved he (hslept t ht) fun v hv => hone t v (hslept t ht) hv
    exact (awake_for_good (ready_next he hready) hawake hs').1

/-- A thread finds the state unresolved and goes to sleep. -/
def fallAsleep (t : ω) : List (Event ω ρ V E) :=
  [.waiter t .enter, .waiter t .check, .waiter t .lock, .waiter t .recheck, .waiter t .test,
   .waiter t .sleep]

/-- One thread sleeps, and a value is about to be set. -/
def oneSleeper : State Bool Unit ℕ ℕ :=
  (machine Bool Unit ℕ (id : ℕ → ℕ)).after State.initial
    (fallAsleep false ++ [.call () (.setValue (some 7))])

/-- The value is set, and the call is about to notify. -/
def oneToNotify : State Bool Unit ℕ ℕ :=
  (machine Bool Unit ℕ (id : ℕ → ℕ)).after
    ((machine Bool Unit ℕ (id : ℕ → ℕ)).next oneSleeper (.exchange () (.setValue (some 7))))
    [.store () (.setValue (some 7))]

theorem released_iff_oneSleeper :
    oneSleeper.waiter false = .asleep ∧
      ∀ u, enabled oneToNotify (.notify () (.setValue (some 7)) u) →
      ∀ s', (undisturbed Bool Unit ℕ (id : ℕ → ℕ)).Reaches
          (next id oneToNotify (.notify () (.setValue (some 7)) u)) s' →
        ∀ t, oneSleeper.waiter t = .asleep → s'.waiter t ≠ .asleep := by
  have hrun : (machine Bool Unit ℕ (id : ℕ → ℕ)).Run State.initial
      (fallAsleep false ++ [.call () (.setValue (some 7))]) :=
    ⟨⟨rfl, rfl⟩, ⟨rfl, rfl⟩, ⟨rfl, rfl, rfl⟩, ⟨rfl, rfl⟩, ⟨rfl, rfl⟩, ⟨rfl, rfl⟩, rfl, trivial⟩
  have he : (machine Bool Unit ℕ (id : ℕ → ℕ)).Enabled oneSleeper
      (.exchange () (.setValue (some 7))) := rfl
  have hstore : (undisturbed Bool Unit ℕ (id : ℕ → ℕ)).Run
      (next id oneSleeper (.exchange () (.setValue (some 7)))) [.store () (.setValue (some 7))] :=
    ⟨⟨rfl, rfl⟩, trivial⟩
  refine ⟨rfl, (released_iff (Machine.Reachable.of_run rfl hrun) he rfl ⟨_, hstore, rfl⟩
    rfl).mpr (Or.inr ?_)⟩
  intro t t' ht ht'
  cases t with
  | true => cases ht
  | false =>
      cases t' with
      | true => cases ht'
      | false => rfl

/-- Two threads sleep, and a value is about to be set. -/
def twoSleepers : State Bool Unit ℕ ℕ :=
  (machine Bool Unit ℕ (id : ℕ → ℕ)).after State.initial
    (fallAsleep false ++ fallAsleep true ++ [.call () (.setValue (some 7))])

/-- The notification reaches one of them; the call has returned and the other sleeps on. -/
theorem left_asleep :
    ∃ s : State Bool Unit ℕ ℕ, (machine Bool Unit ℕ (id : ℕ → ℕ)).Reachable twoSleepers ∧
      enabled twoSleepers (.exchange () (.setValue (some 7))) ∧
      twoSleepers.shared.state = .init ∧ (∀ t, twoSleepers.waiter t = .asleep) ∧
      (undisturbed Bool Unit ℕ (id : ℕ → ℕ)).Reaches
        (next id twoSleepers (.exchange () (.setValue (some 7)))) s ∧
      s.resolver () = .returned (.setValue (some 7)) ∧ s.waiter true = .asleep := by
  have hrun : (machine Bool Unit ℕ (id : ℕ → ℕ)).Run State.initial
      (fallAsleep false ++ fallAsleep true ++ [.call () (.setValue (some 7))]) :=
    ⟨⟨rfl, rfl⟩, ⟨rfl, rfl⟩, ⟨rfl, rfl, rfl⟩, ⟨rfl, rfl⟩, ⟨rfl, rfl⟩, ⟨rfl, rfl⟩,
      ⟨rfl, rfl⟩, ⟨rfl, rfl⟩, ⟨rfl, rfl, rfl⟩, ⟨rfl, rfl⟩, ⟨rfl, rfl⟩, ⟨rfl, rfl⟩, rfl, trivial⟩
  have hrest : (undisturbed Bool Unit ℕ (id : ℕ → ℕ)).Run
      (next id twoSleepers (.exchange () (.setValue (some 7))))
      [.store () (.setValue (some 7)), .notify () (.setValue (some 7)) (some false)] :=
    ⟨⟨rfl, rfl⟩, ⟨⟨rfl, rfl⟩, rfl⟩, trivial⟩
  refine ⟨_, Machine.Reachable.of_run rfl hrun, rfl, rfl, ?_, ⟨_, hrest, rfl⟩, rfl, rfl⟩
  intro t
  cases t <;> rfl

end Waiters

end Jar.Concurrency
