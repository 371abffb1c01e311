/-
# `Jar.Concurrency.Promise` — promise objects and the states they let go of

A promise owns a shared state until it is destroyed, moved from or assigned
over.  Programs make promises, move them about, resolve them, take futures from
them and destroy them, in any order; a machine of such operations on any number
of objects is given here, each shared state on a heap of its own.

A promise that is destroyed breaks the state it still owns, so its future does
not wait for ever.  Move assignment is defaulted, and lets go of the old state
of its target without breaking it.  `abandoned_iff` says that this is the only
way to lose a state unresolved: the runs that leave no unresolved state without
a promise are exactly those in which no promise is assigned over while it owns
an unresolved state that a future waits on.
-/
import Jar.Concurrency.SharedState
import Jar.Lib.Machine
import Mathlib.Data.Nat.Notation

namespace Jar.Concurrency

open Jar.Lib

/-- A promise object: `m_shared_state`, null once it was moved from. -/
structure Promise where
  sharedState : Option ℕ
  deriving DecidableEq, Repr

namespace Promise

open SharedState (Resolution)

/-! ## Programs on promises -/

/-- The shared states made so far are those below `made`; an object that is not
constructed, or destroyed, is `none`. -/
structure State (π φ V E : Type) where
  heap : ℕ → SharedState V E
  made : ℕ
  promise : π → Option Promise
  future : φ → Option ℕ

/-- The operations of `promise`, and those of `future` that matter to it: it may
cancel, and it may be destroyed or assigned over. -/
inductive Event (π φ V E : Type) where
  | construct (p : π)
  | moveConstruct (p q : π)
  | moveAssign (p q : π)
  | setValue (p : π) (value : V)
  | setException (p : π) (e : E)
  | cancel (p : π)
  | getFuture (p : π) (f : φ)
  | destroy (p : π)
  | cancelFuture (f : φ)
  | dropFuture (f : φ)

variable {π φ V E : Type}

/-- The state a promise owns. -/
def State.owned (s : State π φ V E) (p : π) : Option ℕ := (s.promise p).bind Promise.sharedState

/-- Setting and cancelling go through the pointer, so they need a promise that was
not moved from. -/
def enabled (s : State π φ V E) : Event π φ V E → Prop
  | .construct p => s.promise p = none
  | .moveConstruct p q => s.promise p = none ∧ s.promise q ≠ none
  | .moveAssign p q => s.promise p ≠ none ∧ s.promise q ≠ none
  | .setValue p _ => s.owned p ≠ none
  | .setException p _ => s.owned p ≠ none
  | .cancel p => s.owned p ≠ none
  | .getFuture p _ => s.promise p ≠ none
  | .destroy p => s.promise p ≠ none
  | .cancelFuture f => s.future f ≠ none
  | .dropFuture _ => True

/-- A call on the shared state behind a pointer; nothing when the pointer is null. -/
def State.resolve (s : State π φ V E) (op : Resolution V E) : Option ℕ → State π φ V E
  | some id => { s with heap := Function.update s.heap id (SharedState.resolve op (s.heap id)) }
  | none => s

variable [DecidableEq π] [DecidableEq φ]

/-- Both defaulted moves: the pointer goes over, and the source is left null. -/
def State.move (s : State π φ V E) (p q : π) : State π φ V E :=
  { s with promise := Function.update (Function.update s.promise q (some ⟨none⟩)) p (s.promise q) }

def next (s : State π φ V E) : Event π φ V E → State π φ V E
  | .construct p =>
      { s with heap := Function.update s.heap s.made .fresh
               made := s.made + 1
               promise := Function.update s.promise p (some ⟨some s.made⟩) }
  | .moveConstruct p q => s.move p q
  | .moveAssign p q => s.move p q
  | .setValue p value => s.resolve (.setValue (some value)) (s.owned p)
  | .setException p e => s.resolve (.setException e) (s.owned p)
  | .cancel p => s.resolve .cancel (s.owned p)
  | .getFuture p f => { s with future := Function.update s.future f (s.owned p) }
  -- `~promise` breaks the state if the pointer is not null
  | .destroy p =>
      { s.resolve .broken (s.owned p) with promise := Function.update s.promise p none }
  | .cancelFuture f => s.resolve .cancel (s.future f)
  | .dropFuture f => { s with future := Function.update s.future f none }

def State.initial : State π φ V E := ⟨fun _ => .fresh, 0, fun _ => none, fun _ => none⟩

def machine (π φ V E : Type) [DecidableEq π] [DecidableEq φ] :
    Machine (State π φ V E) (Event π φ V E) where
  Init s := s = State.initial
  Enabled := enabled
  next := next

instance (s : State π φ V E) (e : Event π φ V E) : Decidable (enabled s e) := by
  cases e <;> unfold enabled <;> infer_instance

instance (s : State π φ V E) (e : Event π φ V E) : Decidable ((machine π φ V E).Enabled s e) :=
  inferInstanceAs (Decidable (enabled s e))

/-! ## Owners

An unresolved shared state belongs to one promise object at most.  A move, the
self-move included, hands it on; resolving changes no owner. -/

variable {s : State π φ V E} {e : Event π φ V E}

/-- No state has two owners, and owners and futures refer to states that were made. -/
structure Owned (s : State π φ V E) : Prop where
  made : ∀ p id, s.owned p = some id → id < s.made
  unique : ∀ p q id, s.owned p = some id → s.owned q = some id → p = q
  future : ∀ f id, s.future f = some id → id < s.made

section

omit [DecidableEq π] [DecidableEq φ]

@[simp] theorem resolve_promise (s : State π φ V E) (op : Resolution V E) (o : Option ℕ) :
    (s.resolve op o).promise = s.promise := by
  cases o <;> rfl

@[simp] theorem resolve_made (s : State π φ V E) (op : Resolution V E) (o : Option ℕ) :
    (s.resolve op o).made = s.made := by
  cases o <;> rfl

@[simp] theorem resolve_future (s : State π φ V E) (op : Resolution V E) (o : Option ℕ) :
    (s.resolve op o).future = s.future := by
  cases o <;> rfl

theorem resolve_heap (s : State π φ V E) (op : Resolution V E) (o : Option ℕ) {id : ℕ}
    (h : (s.heap id).state ≠ .init) : ((s.resolve op o).heap id).state ≠ .init := by
  cases o with
  | none => exact h
  | some id' =>
      show (Function.update s.heap id' (SharedState.resolve op (s.heap id')) id).state ≠ .init
      rcases SharedState.update_resolve (V := fun _ => V) s.heap (x := id') op id with
        hsame | hready
      · rw [hsame]
        exact h
      · exact hready

theorem resolve_heap_self (s : State π φ V E) (op : Resolution V E) (id : ℕ) :
    ((s.resolve op (some id)).heap id).state ≠ .init := by
  show (Function.update s.heap id (SharedState.resolve op (s.heap id)) id).state ≠ .init
  rw [Function.update_self]
  exact SharedState.resolve_ready op _

theorem owned_congr {s s' : State π φ V E} (h : s'.promise = s.promise) : s'.owned = s.owned := by
  funext p
  simp only [State.owned, h]

theorem Owned.congr {s s' : State π φ V E} (h : Owned s) (howned : s'.owned = s.owned)
    (hmade : s'.made = s.made) (hfuture : s'.future = s.future) : Owned s' := by
  refine ⟨?_, ?_, ?_⟩
  · rw [howned, hmade]; exact h.made
  · rw [howned]; exact h.unique
  · rw [hfuture, hmade]; exact h.future

theorem Owned.resolve (h : Owned s) (op : Resolution V E) (o : Option ℕ) :
    Owned (s.resolve op o) :=
  h.congr (owned_congr (resolve_promise s op o)) (resolve_made s op o) (resolve_future s op o)

end

omit [DecidableEq φ] in
theorem owned_move (s : State π φ V E) (p q r : π) :
    (s.move p q).owned r = if r = p then s.owned q else if r = q then none else s.owned r := by
  unfold State.owned State.move
  by_cases hp : r = p
  · simp [hp]
  · by_cases hq : r = q
    · subst hq
      simp [hp]
    · simp [hp, hq]

omit [DecidableEq φ] in
theorem Owned.move (h : Owned s) (p q : π) : Owned (s.move p q) := by
  -- every owner after the move stands for one before it
  have hback : ∀ r id, (s.move p q).owned r = some id →
      ∃ r', s.owned r' = some id ∧ (r = p ∧ r' = q ∨ r ≠ p ∧ r ≠ q ∧ r' = r) := by
    intro r id hr
    rw [owned_move] at hr
    by_cases hp : r = p
    · rw [if_pos hp] at hr
      exact ⟨q, hr, Or.inl ⟨hp, rfl⟩⟩
    · rw [if_neg hp] at hr
      by_cases hq : r = q
      · rw [if_pos hq] at hr
        cases hr
      · rw [if_neg hq] at hr
        exact ⟨r, hr, Or.inr ⟨hp, hq, rfl⟩⟩
  refine ⟨?_, ?_, h.future⟩
  · intro r id hr
    obtain ⟨r', hr', -⟩ := hback r id hr
    exact h.made r' id hr'
  · intro r u id hr hu
    obtain ⟨r', hr', hcase⟩ := hback r id hr
    obtain ⟨u', hu', hcase'⟩ := hback u id hu
    have heq := h.unique r' u' id hr' hu'
    rcases hcase with ⟨rfl, rfl⟩ | ⟨-, hrq, rfl⟩
    · rcases hcase' with ⟨rfl, -⟩ | ⟨-, huq, rfl⟩
      · rfl
      · exact absurd heq.symm huq
    · rcases hcase' with ⟨-, rfl⟩ | ⟨-, -, rfl⟩
      · exact absurd heq hrq
      · exact heq

theorem owned_construct (s : State π φ V E) (p r : π) :
    (next s (.construct p)).owned r = if r = p then some s.made else s.owned r := by
  unfold State.owned next
  by_cases hp : r = p
  · simp [hp]
  · simp [hp]

theorem owned_destroy (s : State π φ V E) (p r : π) :
    (next s (.destroy p)).owned r = if r = p then none else s.owned r := by
  unfold State.owned next
  by_cases hp : r = p
  · simp [hp]
  · simp [hp]

theorem Owned.construct (h : Owned s) (p : π) : Owned (next s (.construct p)) := by
  refine ⟨?_, ?_, ?_⟩
  · intro r id hr
    rw [owned_construct] at hr
    split at hr
    · cases hr
      exact Nat.lt_succ_self _
    · exact Nat.lt_succ_of_lt (h.made r id hr)
  · intro r u id hr hu
    rw [owned_construct] at hr hu
    split at hr
    · next hrp =>
        split at hu
        · next hup => rw [hrp, hup]
        · cases hr
          exact absurd (h.made u _ hu) (Nat.lt_irrefl _)
    · split at hu
      · cases hu
        exact absurd (h.made r _ hr) (Nat.lt_irrefl _)
      · exact h.unique r u id hr hu
  · intro f id hf
    exact Nat.lt_succ_of_lt (h.future f id hf)

theorem Owned.destroy (h : Owned s) (p : π) : Owned (next s (.destroy p)) := by
  have hback : ∀ r id, (next s (.destroy p)).owned r = some id → s.owned r = some id := by
    intro r id hr
    rw [owned_destroy] at hr
    split at hr
    · cases hr
    · exact hr
  have hmade : (next s (.destroy p)).made = s.made := resolve_made s .broken (s.owned p)
  refine ⟨?_, ?_, ?_⟩
  · intro r id hr
    rw [hmade]
    exact h.made r id (hback r id hr)
  · intro r u id hr hu
    exact h.unique r u id (hback r id hr) (hback u id hu)
  · intro f id hf
    simp only [Promise.next, resolve_future, resolve_made] at hf ⊢
    exact h.future f id hf

theorem Owned.next (h : Owned s) : Owned (next s e) := by
  cases e with
  | construct p => exact h.construct p
  | moveConstruct p q => exact h.move p q
  | moveAssign p q => exact h.move p q
  | setValue p value => exact h.resolve _ _
  | setException p x => exact h.resolve _ _
  | cancel p => exact h.resolve _ _
  | cancelFuture f => exact h.resolve _ _
  | getFuture p f =>
      refine ⟨h.made, h.unique, ?_⟩
      intro g id hg
      rcases update_eq_some hg with ⟨-, hp⟩ | ⟨-, hg⟩
      · exact h.made p id hp
      · exact h.future g id hg
  | dropFuture f =>
      refine ⟨h.made, h.unique, ?_⟩
      intro g id hg
      exact h.future g id (some_of_update_none hg).2
  | destroy p => exact h.destroy p

theorem owned (h : (machine π φ V E).Reachable s) : Owned s := by
  refine h.invariant (I := Owned) ?_ ?_
  · intro s hs
    rw [show s = State.initial from hs]
    refine ⟨?_, ?_, ?_⟩
    · intro p id hp
      cases hp
    · intro p q id hp
      cases hp
    · intro f id hf
      cases hf
  · intro s e _ _ hs
    exact hs.next

/-! ## Abandoned states

What keeps an abandoned state alive is a future.  The destructor resolves the state it
lets go of, a move assignment lets go of what its target owned and resolves nothing,
and no other step lets go of a state. -/

/-- A shared state is there as long as a promise or a future refers to it. -/
def Alive (s : State π φ V E) (id : ℕ) : Prop :=
  (∃ p, s.owned p = some id) ∨ ∃ f, s.future f = some id

/-- A shared state that no promise owns any more. -/
def Abandoned (s : State π φ V E) (id : ℕ) : Prop := Alive s id ∧ ∀ p, s.owned p ≠ some id

omit [DecidableEq π] [DecidableEq φ] in
theorem abandoned_future {id : ℕ} :
    Abandoned s id ↔ (∃ f, s.future f = some id) ∧ ∀ p, s.owned p ≠ some id := by
  constructor
  · intro ⟨halive, hno⟩
    rcases halive with ⟨p, hp⟩ | hf
    · exact absurd hp (hno p)
    · exact ⟨hf, hno⟩
  · intro ⟨hf, hno⟩
    exact ⟨Or.inr hf, hno⟩

/-- Every state without a promise is resolved. -/
def AllBroken (s : State π φ V E) : Prop := ∀ id, Abandoned s id → (s.heap id).state ≠ .init

/-- A promise that owns an unresolved state with a future is assigned over from
another one. -/
def AssignedOver (s : State π φ V E) : Event π φ V E → Prop
  | .moveAssign p q =>
      p ≠ q ∧ ∃ id, s.owned p = some id ∧ (s.heap id).state = .init ∧ ∃ f, s.future f = some id
  | _ => False

omit [DecidableEq π] [DecidableEq φ] in
theorem AllBroken.keep {s s' : State π φ V E} (h : AllBroken s)
    (habandoned : ∀ id, Abandoned s' id → Abandoned s id)
    (hheap : ∀ id, (s.heap id).state ≠ .init → (s'.heap id).state ≠ .init) : AllBroken s' := by
  intro id hid
  exact hheap id (h id (habandoned id hid))

omit [DecidableEq π] [DecidableEq φ] in
theorem AllBroken.resolve (h : AllBroken s) (op : Resolution V E) (o : Option ℕ) :
    AllBroken (s.resolve op o) := by
  refine h.keep ?_ fun id => resolve_heap s op o
  intro id hid
  rw [abandoned_future, owned_congr (resolve_promise s op o), resolve_future] at hid
  exact abandoned_future.mpr hid

omit [DecidableEq φ] in
theorem abandoned_move {p q : π} {id : ℕ} (h : Abandoned (s.move p q) id)
    (hp : p ≠ q → s.owned p ≠ some id) : Abandoned s id := by
  obtain ⟨hf, hno⟩ := abandoned_future.mp h
  refine abandoned_future.mpr ⟨hf, fun r hr => ?_⟩
  have hq := hno p
  rw [owned_move, if_pos rfl] at hq
  by_cases hrq : r = q
  · exact hq (hrq ▸ hr)
  · by_cases hrp : r = p
    · subst hrp
      exact hp hrq hr
    · have hr' := hno r
      rw [owned_move, if_neg hrp, if_neg hrq] at hr'
      exact hr' hr

theorem AllBroken.construct (hs : AllBroken s) (h : Owned s) {p : π} (hp : s.promise p = none) :
    AllBroken (next s (.construct p)) := by
  intro id hid
  obtain ⟨⟨f, hf⟩, hno⟩ := abandoned_future.mp hid
  have hne : id ≠ s.made := Nat.ne_of_lt (h.future f id hf)
  show (Function.update s.heap s.made .fresh id).state ≠ .init
  rw [Function.update_of_ne hne]
  refine hs id (abandoned_future.mpr ⟨⟨f, hf⟩, fun r hr => ?_⟩)
  have hr' := hno r
  rw [owned_construct] at hr'
  split at hr'
  · next hrp =>
      rw [hrp, State.owned, hp] at hr
      cases hr
  · exact hr' hr

theorem AllBroken.destroy (hs : AllBroken s) (p : π) : AllBroken (next s (.destroy p)) := by
  intro id hid
  obtain ⟨hf, hno⟩ := abandoned_future.mp hid
  change ((s.resolve .broken (s.owned p)).heap id).state ≠ .init
  rcases eq_or_ne (s.owned p) (some id) with hp | hp
  · rw [hp]
    exact resolve_heap_self s .broken id
  · refine resolve_heap s .broken _ (hs id (abandoned_future.mpr ⟨?_, fun r hr => ?_⟩))
    · simpa [next] using hf
    · have hr' := hno r
      rw [owned_destroy] at hr'
      split at hr'
      · next hrp => exact hp (hrp ▸ hr)
      · exact hr' hr

omit [DecidableEq φ] in
theorem allBroken_moveAssign (hs : AllBroken s) (h : Owned s) (p q : π) :
    AllBroken (s.move p q) ↔ ¬ AssignedOver s (.moveAssign p q) := by
  constructor
  · intro hall ⟨hpq, id, hp, hinit, hf⟩
    refine hall id (abandoned_future.mpr ⟨hf, fun r => ?_⟩) hinit
    intro hr
    rw [owned_move] at hr
    split at hr
    · exact hpq (h.unique p q id hp hr)
    · next hrp =>
        split at hr
        · cases hr
        · exact hrp (h.unique r p id hr hp)
  · intro hno id hid hinit
    refine hs id (abandoned_move hid fun hpq howned => ?_) hinit
    exact hno ⟨hpq, id, howned, hinit, (abandoned_future.mp hid).1⟩

/-- One step keeps every state without a promise resolved, unless it assigns over a
promise that owns an unresolved one: then that one is lost. -/
theorem allBroken_next (h : (machine π φ V E).Reachable s) (he : (machine π φ V E).Enabled s e)
    (hs : AllBroken s) : AllBroken ((machine π φ V E).next s e) ↔ ¬ AssignedOver s e := by
  cases e with
  | construct p => exact ⟨fun _ => id, fun _ => hs.construct (owned h) he⟩
  | moveConstruct p q =>
      refine ⟨fun _ => id, fun _ => hs.keep (fun id hid => ?_) fun _ hst => hst⟩
      refine abandoned_move hid fun _ hp => ?_
      rw [State.owned, show s.promise p = none from he.1] at hp
      cases hp
  | moveAssign p q => exact allBroken_moveAssign hs (owned h) p q
  | setValue p value => exact ⟨fun _ => id, fun _ => hs.resolve _ _⟩
  | setException p x => exact ⟨fun _ => id, fun _ => hs.resolve _ _⟩
  | cancel p => exact ⟨fun _ => id, fun _ => hs.resolve _ _⟩
  | cancelFuture f => exact ⟨fun _ => id, fun _ => hs.resolve _ _⟩
  | getFuture p f =>
      refine ⟨fun _ => id, fun _ => hs.keep (fun id hid => ?_) fun _ hst => hst⟩
      obtain ⟨⟨g, hg⟩, hno⟩ := abandoned_future.mp hid
      rcases update_eq_some hg with ⟨-, hp⟩ | ⟨-, hg⟩
      · exact absurd hp (hno p)
      · exact abandoned_future.mpr ⟨⟨g, hg⟩, hno⟩
  | dropFuture f =>
      refine ⟨fun _ => id, fun _ => hs.keep (fun id hid => ?_) fun _ hst => hst⟩
      obtain ⟨⟨g, hg⟩, hno⟩ := abandoned_future.mp hid
      exact abandoned_future.mpr ⟨⟨g, (some_of_update_none hg).2⟩, hno⟩
  | destroy p => exact ⟨fun _ => id, fun _ => hs.destroy p⟩

/-- **An abandoned promise is broken, in exactly the runs in which no promise is
assigned over while it owns an unresolved state that has a future.** -/
theorem abandoned_iff (es : List (Event π φ V E)) (h : (machine π φ V E).Run State.initial es) :
    (∀ fs, fs <+: es → AllBroken ((machine π φ V E).after State.initial fs)) ↔
      ((machine π φ V E).restrict fun s e => ¬ AssignedOver s e).Run State.initial es := by
  refine (Machine.run_restrict_iff (fun s e hr he hs => allBroken_next hr he hs)
    (Machine.Reachable.of_init rfl) ?_ h).symm
  intro id hid
  obtain ⟨⟨f, hf⟩, -⟩ := abandoned_future.mp hid
  cases hf

/-- A promise is moved, its state resolved through the new object, and both destroyed. -/
def movedAndSet : List (Event (Fin 2) (Fin 1) ℕ ℕ) :=
  [.construct 0, .getFuture 0 0, .moveConstruct 1 0, .destroy 0, .setValue 1 7, .destroy 1]

theorem abandoned_iff_movedAndSet :
    AllBroken ((machine (Fin 2) (Fin 1) ℕ ℕ).after State.initial movedAndSet) :=
  (abandoned_iff movedAndSet (by decide)).mpr
    ⟨⟨rfl, id⟩, ⟨nofun, id⟩, ⟨⟨rfl, nofun⟩, id⟩, ⟨nofun, id⟩, ⟨nofun, id⟩, ⟨nofun, id⟩, trivial⟩
    movedAndSet (List.prefix_refl _)

/-- A promise with a future is assigned over: the state it owned is left unresolved,
owned by no promise, and the future waits on it. -/
theorem lost_state :
    ∃ s : State (Fin 2) (Fin 1) ℕ ℕ, (machine (Fin 2) (Fin 1) ℕ ℕ).Reachable s ∧
      s.future 0 = some 0 ∧ Abandoned s 0 ∧ (s.heap 0).state = .init := by
  refine ⟨(machine (Fin 2) (Fin 1) ℕ ℕ).after State.initial
      [.construct 0, .getFuture 0 0, .construct 1, .moveAssign 0 1],
    Machine.Reachable.of_run rfl (by decide), rfl, ⟨Or.inr ⟨0, rfl⟩, ?_⟩, rfl⟩
  decide

end Promise

end Jar.Concurrency
