/-
# `Jar.System.BasicHandle` — owning a native handle

`basic_handle<Resource>` holds a native handle and destroys it when it is
destroyed itself, unless the handle is `invalid_value()`.  It is constructed from
arguments, by `Resource::construct`, or from a native value; it can be moved,
which invalidates the object that was moved from; sockets are built on it with
defaulted moves.

The move assignment does not compile when it is used: its guard compares a pointer
with a handle, and it returns nothing.  It is modelled as it is meant, with a guard
that tests for self-assignment and a `return *this`; what it does to the two handles
is as the source has it.

What it is for is that every open handle has one owner and is closed once
(`OwnedOnce`).  A program is a sequence of constructions, moves, assignments and
destructions of any number of objects; `ownedOnce_iff` says which sequences keep
that.  Move assignment does not destroy what it overwrites, so it loses a handle
whenever the object assigned to is valid (`leaked`).
-/
import Jar.Lib.Machine
import Mathlib.Data.Nat.Notation
import Mathlib.Logic.Equiv.Basic

namespace Jar.System

open Jar.Lib

namespace BasicHandle

/-- The objects with their `m_value`; `opened` and `destroyed` count how often a native
handle was opened and passed to `Resource::destroy`, and `movedFrom` says of an object
that it was moved from and not assigned since. -/
structure State (π H : Type) where
  object : π → Option H
  movedFrom : π → Bool
  opened : H → ℕ
  destroyed : H → ℕ

/-- `construct p h` is a construction in which `Resource::construct` returned `h`; in
`constructThrows` it threw. -/
inductive Event (π H : Type) where
  | construct (p : π) (h : H)
  | constructThrows (p : π)
  | fromNative (p : π) (h : H)
  | moveConstruct (p q : π)
  | moveAssign (p q : π)
  | destroy (p : π)
  deriving DecidableEq, Repr

variable {π H : Type}

/-- A handle is open when it was opened more often than destroyed. -/
def State.IsOpen (s : State π H) (h : H) : Prop := s.destroyed h < s.opened h

instance (s : State π H) (h : H) : Decidable (s.IsOpen h) :=
  inferInstanceAs (Decidable (s.destroyed h < s.opened h))

/-- `Resource::construct` never returns a handle that is still open. -/
def enabled (s : State π H) : Event π H → Prop
  | .construct p h => s.object p = none ∧ ¬ s.IsOpen h
  | .constructThrows p => s.object p = none
  | .fromNative p _ => s.object p = none
  | .moveConstruct p q => s.object p = none ∧ s.object q ≠ none
  | .moveAssign p q => s.object p ≠ none ∧ s.object q ≠ none
  | .destroy p => s.object p ≠ none

variable [DecidableEq π] [DecidableEq H]

instance decEnabled (s : State π H) : ∀ e, Decidable (enabled s e)
  | .construct p h => inferInstanceAs (Decidable (s.object p = none ∧ ¬ s.IsOpen h))
  | .constructThrows p => inferInstanceAs (Decidable (s.object p = none))
  | .fromNative p _ => inferInstanceAs (Decidable (s.object p = none))
  | .moveConstruct p q => inferInstanceAs (Decidable (s.object p = none ∧ s.object q ≠ none))
  | .moveAssign p q => inferInstanceAs (Decidable (s.object p ≠ none ∧ s.object q ≠ none))
  | .destroy p => inferInstanceAs (Decidable (s.object p ≠ none))

/-- `m_value{handle}`, in a new object.  A handle that was not open is from now on. -/
def State.acquire (invalid : H) (s : State π H) (p : π) (h : H) : State π H :=
  { s with
    object := Function.update s.object p (some h)
    movedFrom := Function.update s.movedFrom p false
    opened := if h = invalid ∨ s.IsOpen h then s.opened
      else Function.update s.opened h (s.opened h + 1) }

/-- `m_value = other.m_value; other.m_value = invalid_handle();` -/
def State.take (invalid : H) (s : State π H) (p q : π) : State π H :=
  { s with
    object := Function.update (Function.update s.object p (s.object q)) q (some invalid)
    movedFrom := Function.update (Function.update s.movedFrom p false) q true }

/-- `~basic_handle()`. -/
def State.release (invalid : H) (s : State π H) (p : π) : State π H :=
  { s with
    object := Function.update s.object p none
    destroyed := match s.object p with
      | some h => if h = invalid then s.destroyed
          else Function.update s.destroyed h (s.destroyed h + 1)
      | none => s.destroyed }

def next (invalid : H) (s : State π H) : Event π H → State π H
  | .construct p h => s.acquire invalid p h
  | .constructThrows _ => s
  | .fromNative p h => s.acquire invalid p h
  | .moveConstruct p q => s.take invalid p q
  | .moveAssign p q => if p = q then s else s.take invalid p q
  | .destroy p => s.release invalid p

/-- No objects, and no handle ever opened. -/
def State.initial : State π H := ⟨fun _ => none, fun _ => false, fun _ => 0, fun _ => 0⟩

/-- Any number of objects `π` of one resource with handles `H`. -/
def machine (π : Type) [DecidableEq π] {H : Type} [DecidableEq H] (invalid : H) :
    Machine (State π H) (Event π H) where
  Init s := s = State.initial
  Enabled := enabled
  next := next invalid

instance (invalid : H) (s : State π H) (e : Event π H) :
    Decidable ((machine π invalid).Enabled s e) := inferInstanceAs (Decidable (enabled s e))

/-! ## Exclusive ownership

What is held is open, and two objects never hold the same valid handle. -/

/-- What the class is for: every open handle is held by exactly one object; an object that
was moved from is invalid; once all objects are gone each handle was destroyed as often as
it was opened; and the invalid value never was. -/
structure OwnedOnce (invalid : H) (s : State π H) : Prop where
  one_owner : ∀ h, s.IsOpen h → ∃ p, s.object p = some h ∧ ∀ q, s.object q = some h → q = p
  moved_from : ∀ p h, s.movedFrom p = true → s.object p = some h → h = invalid
  closed_once : (∀ p, s.object p = none) → ∀ h, s.opened h = s.destroyed h
  invalid_not_closed : s.destroyed invalid = 0

/-- As an invariant: a handle is one opening ahead of its destructions while it is held,
and level with them when nobody holds it. -/
structure Exclusive (invalid : H) (s : State π H) : Prop where
  one_owner : ∀ h, s.IsOpen h → ∃ p, s.object p = some h ∧ ∀ q, s.object q = some h → q = p
  held : ∀ p h, s.object p = some h → h ≠ invalid → s.opened h = s.destroyed h + 1
  not_held : ∀ h, (∀ p, s.object p ≠ some h) → s.opened h = s.destroyed h
  moved_from : ∀ p h, s.movedFrom p = true → s.object p = some h → h = invalid
  never_invalid : s.opened invalid = 0 ∧ s.destroyed invalid = 0

variable {invalid : H} {s s' : State π H}

section Ownership

omit [DecidableEq π] [DecidableEq H]

theorem Exclusive.isOpen (hs : Exclusive invalid s) {p : π} {h : H} (hp : s.object p = some h)
    (hvalid : h ≠ invalid) : s.IsOpen h := by
  rw [State.IsOpen, hs.held p h hp hvalid]
  exact Nat.lt_succ_self _

theorem Exclusive.unique (hs : Exclusive invalid s) {p q : π} {h : H} (hp : s.object p = some h)
    (hq : s.object q = some h) (hvalid : h ≠ invalid) : p = q := by
  obtain ⟨r, -, honly⟩ := hs.one_owner h (hs.isOpen hp hvalid)
  rw [honly p hp, honly q hq]

theorem Exclusive.ownedOnce (hs : Exclusive invalid s) : OwnedOnce invalid s where
  one_owner := hs.one_owner
  moved_from := hs.moved_from
  closed_once hnone h := hs.not_held h fun p hp => by
    rw [hnone p] at hp
    cases hp
  invalid_not_closed := hs.never_invalid.2

theorem exclusive_initial : Exclusive invalid (State.initial : State π H) := by
  refine ⟨?_, ?_, fun _ _ => rfl, ?_, rfl, rfl⟩
  · intro h hopen
    exact absurd hopen (Nat.lt_irrefl 0)
  · intro p h hp
    cases hp
  · intro p h hmoved
    cases hmoved

theorem Exclusive.rename (hs : Exclusive invalid s) (e : π ≃ π)
    (hobject : ∀ p h, h ≠ invalid → (s'.object p = some h ↔ s.object (e p) = some h))
    (hopened : s'.opened = s.opened) (hdestroyed : s'.destroyed = s.destroyed)
    (hmoved : ∀ p h, s'.movedFrom p = true → s'.object p = some h → h = invalid) :
    Exclusive invalid s' := by
  have hvalid : ∀ h, s'.IsOpen h → h ≠ invalid := by
    rintro h hopen rfl
    rw [State.IsOpen, hopened, hs.never_invalid.1] at hopen
    cases hopen
  refine ⟨?_, ?_, ?_, hmoved, ?_⟩
  · intro h hopen
    have hne := hvalid h hopen
    obtain ⟨p, hp, honly⟩ := hs.one_owner h (by rwa [State.IsOpen, hopened, hdestroyed] at hopen)
    refine ⟨e.symm p, (hobject _ h hne).mpr (by rw [e.apply_symm_apply]; exact hp), ?_⟩
    intro q hq
    rw [← honly (e q) ((hobject q h hne).mp hq), e.symm_apply_apply]
  · intro p h hp hne
    rw [hopened, hdestroyed]
    exact hs.held (e p) h ((hobject p h hne).mp hp) hne
  · intro h hno
    rw [hopened, hdestroyed]
    rcases eq_or_ne h invalid with rfl | hne
    · rw [hs.never_invalid.1, hs.never_invalid.2]
    · refine hs.not_held h fun p hp => hno (e.symm p) ?_
      exact (hobject _ h hne).mpr (by rw [e.apply_symm_apply]; exact hp)
  · rw [hopened, hdestroyed]
    exact hs.never_invalid

end Ownership

/-! ## What each operation does to ownership

A new object takes a new handle, an invalid one, or one that is open; the last has two
owners then.  A move hands the valid handles round among the objects, but where it
overwrites one: that stays open, and nobody holds it any more.  The destructor of a
valid object closes its handle, that of an invalid one closes nothing. -/

theorem acquire_object_self (s : State π H) (p : π) (h : H) :
    (s.acquire invalid p h).object p = some h := Function.update_self _ _ _

theorem acquire_object_of_ne (s : State π H) {p q : π} (hq : q ≠ p) (h : H) :
    (s.acquire invalid p h).object q = s.object q := Function.update_of_ne hq _ _

theorem acquire_object_of_some {p q : π} {g : H} (hp : s.object p = none)
    (hq : s.object q = some g) (h : H) :
    q ≠ p ∧ (s.acquire invalid p h).object q = some g := by
  have hne : q ≠ p := by
    rintro rfl
    rw [hp] at hq
    cases hq
  exact ⟨hne, (acquire_object_of_ne s hne h).trans hq⟩

theorem acquire_object {p q : π} {g h : H} (hq : (s.acquire invalid p h).object q = some g) :
    q = p ∧ g = h ∨ q ≠ p ∧ s.object q = some g := by
  rcases update_eq_some hq with ⟨hp, hnew⟩ | hold
  · exact Or.inl ⟨hp, (Option.some_inj.mp hnew).symm⟩
  · exact Or.inr hold

theorem Exclusive.acquire_moved (hs : Exclusive invalid s) (p : π) (h : H) (q : π) (g : H)
    (hmoved : (s.acquire invalid p h).movedFrom q = true)
    (hq : (s.acquire invalid p h).object q = some g) : g = invalid := by
  have hne : q ≠ p := by
    rintro rfl
    rw [show (s.acquire invalid q h).movedFrom q = false from Function.update_self _ _ _] at hmoved
    cases hmoved
  rw [acquire_object_of_ne s hne] at hq
  refine hs.moved_from q g ?_ hq
  rw [← hmoved]
  exact (Function.update_of_ne hne _ _).symm

theorem Exclusive.acquire_invalid (hs : Exclusive invalid s) {p : π} (hp : s.object p = none) :
    Exclusive invalid (s.acquire invalid p invalid) := by
  refine hs.rename (Equiv.refl π) ?_ (if_pos (Or.inl rfl)) rfl (hs.acquire_moved p invalid)
  intro q h hne
  rcases eq_or_ne q p with rfl | hq
  · rw [acquire_object_self, Equiv.refl_apply, hp]
    exact ⟨fun heq => absurd (Option.some_inj.mp heq).symm hne, nofun⟩
  · rw [acquire_object_of_ne s hq, Equiv.refl_apply]

theorem Exclusive.acquire_closed (hs : Exclusive invalid s) {p : π} {h : H}
    (hp : s.object p = none) (hvalid : h ≠ invalid) (hclosed : ¬ s.IsOpen h) :
    Exclusive invalid (s.acquire invalid p h) := by
  have hnobody : ∀ q, s.object q ≠ some h := by
    intro q hq
    exact hclosed (hs.isOpen hq hvalid)
  have hopened : (s.acquire invalid p h).opened = Function.update s.opened h (s.opened h + 1) :=
    if_neg (not_or.mpr ⟨hvalid, hclosed⟩)
  refine ⟨?_, ?_, ?_, hs.acquire_moved p h, ?_⟩
  · intro g hopen
    rcases eq_or_ne g h with rfl | hg
    · refine ⟨p, acquire_object_self s p g, fun q hq => ?_⟩
      rcases acquire_object hq with ⟨rfl, -⟩ | ⟨-, hq⟩
      · rfl
      · exact absurd hq (hnobody q)
    · rw [State.IsOpen, hopened, Function.update_of_ne hg] at hopen
      obtain ⟨q, hq, honly⟩ := hs.one_owner g hopen
      refine ⟨q, (acquire_object_of_some hp hq h).2, fun r hr => ?_⟩
      rcases acquire_object hr with ⟨-, heq⟩ | ⟨-, hr⟩
      · exact absurd heq hg
      · exact honly r hr
  · intro q g hq hne
    rw [hopened]
    rcases acquire_object hq with ⟨-, rfl⟩ | ⟨-, hold⟩
    · rw [Function.update_self, hs.not_held g hnobody]
      rfl
    · have hg : g ≠ h := by
        rintro rfl
        exact hnobody q hold
      rw [Function.update_of_ne hg]
      exact hs.held q g hold hne
  · intro g hno
    have hg : g ≠ h := by
      rintro rfl
      exact hno p (acquire_object_self s p g)
    rw [hopened, Function.update_of_ne hg]
    exact hs.not_held g fun q hq => hno q (acquire_object_of_some hp hq h).2
  · rw [hopened, Function.update_of_ne hvalid.symm]
    exact hs.never_invalid

theorem Exclusive.acquire (hs : Exclusive invalid s) {p : π} {h : H} (hp : s.object p = none)
    (hclosed : h = invalid ∨ ¬ s.IsOpen h) : Exclusive invalid (s.acquire invalid p h) := by
  rcases eq_or_ne h invalid with rfl | hvalid
  · exact hs.acquire_invalid hp
  · exact hs.acquire_closed hp hvalid (hclosed.resolve_left hvalid)

/-- A handle that is open and gets a new object has two owners then. -/
theorem Exclusive.shared (hs : Exclusive invalid s) {p : π} {h : H} (hp : s.object p = none)
    (hs' : OwnedOnce invalid (s.acquire invalid p h)) : h = invalid ∨ ¬ s.IsOpen h := by
  by_contra hno
  obtain ⟨hvalid, hopen⟩ := not_or.mp hno
  have hopen : s.IsOpen h := not_not.mp hopen
  obtain ⟨q, hq, -⟩ := hs.one_owner h hopen
  obtain ⟨hqp, hkeeps⟩ := acquire_object_of_some hp hq h
  have hopened : (s.acquire invalid p h).opened = s.opened := if_pos (Or.inr hopen)
  have hopen' : (s.acquire invalid p h).IsOpen h := by
    rw [State.IsOpen, hopened]
    exact hopen
  obtain ⟨r, -, honly⟩ := hs'.one_owner h hopen'
  have hp' : p = r := honly p (acquire_object_self s p h)
  have hq' : q = r := honly q hkeeps
  exact hqp (hq'.trans hp'.symm)

section Take

omit [DecidableEq H]

theorem take_object_left (s : State π H) {p q : π} (hne : p ≠ q) :
    (s.take invalid p q).object p = s.object q :=
  (Function.update_of_ne hne _ _).trans (Function.update_self _ _ _)

theorem take_object_right (s : State π H) (p q : π) :
    (s.take invalid p q).object q = some invalid := Function.update_self _ _ _

theorem take_object_of_ne (s : State π H) {p q r : π} (hp : r ≠ p) (hq : r ≠ q) :
    (s.take invalid p q).object r = s.object r :=
  (Function.update_of_ne hq _ _).trans (Function.update_of_ne hp _ _)

theorem Exclusive.take_moved (hs : Exclusive invalid s) {p q : π} (hne : p ≠ q) (r : π) (h : H)
    (hmoved : (s.take invalid p q).movedFrom r = true)
    (hr : (s.take invalid p q).object r = some h) : h = invalid := by
  rcases eq_or_ne r q with rfl | hrq
  · rw [take_object_right] at hr
    exact (Option.some_inj.mp hr).symm
  · have hold : (s.take invalid p q).movedFrom r = Function.update s.movedFrom p false r :=
      Function.update_of_ne hrq _ _
    rw [hold] at hmoved
    rcases eq_or_ne r p with rfl | hrp
    · rw [Function.update_self] at hmoved
      cases hmoved
    · rw [Function.update_of_ne hrp] at hmoved
      rw [take_object_of_ne s hrp hrq] at hr
      exact hs.moved_from r h hmoved hr

theorem Exclusive.take (hs : Exclusive invalid s) {p q : π} (hne : p ≠ q)
    (hp : s.object p = none ∨ s.object p = some invalid) :
    Exclusive invalid (s.take invalid p q) := by
  refine hs.rename (Equiv.swap p q) ?_ rfl rfl (hs.take_moved hne)
  intro r h hvalid
  rcases eq_or_ne r p with rfl | hrp
  · rw [take_object_left s hne, Equiv.swap_apply_left]
  · rcases eq_or_ne r q with rfl | hrq
    · rw [take_object_right, Equiv.swap_apply_right]
      refine ⟨fun heq => absurd (Option.some_inj.mp heq).symm hvalid, fun heq => ?_⟩
      rcases hp with hp | hp
      · rw [hp] at heq
        cases heq
      · rw [hp] at heq
        exact absurd (Option.some_inj.mp heq).symm hvalid
    · rw [take_object_of_ne s hrp hrq, Equiv.swap_apply_of_ne_of_ne hrp hrq]

theorem Exclusive.overwritten (hs : Exclusive invalid s) {p q : π} (hne : p ≠ q) {h : H}
    (hp : s.object p = some h) (hvalid : h ≠ invalid) :
    (s.take invalid p q).IsOpen h ∧ ∀ r, (s.take invalid p q).object r ≠ some h := by
  constructor
  · exact hs.isOpen hp hvalid
  · intro r hr
    rcases eq_or_ne r q with rfl | hrq
    · rw [take_object_right] at hr
      exact hvalid (Option.some_inj.mp hr).symm
    · rcases eq_or_ne r p with rfl | hrp
      · rw [take_object_left s hne] at hr
        exact hne (hs.unique hp hr hvalid)
      · rw [take_object_of_ne s hrp hrq] at hr
        exact hrp (hs.unique hr hp hvalid)

end Take

theorem Exclusive.lost (hs : Exclusive invalid s) {p q : π} (hne : p ≠ q)
    (hp : s.object p ≠ none) (hs' : OwnedOnce invalid (s.take invalid p q)) :
    s.object p = some invalid := by
  cases hobject : s.object p with
  | none => exact absurd hobject hp
  | some h =>
      refine congrArg some ?_
      by_contra hvalid
      obtain ⟨hopen, hnobody⟩ := hs.overwritten hne hobject hvalid
      obtain ⟨r, hr, -⟩ := hs'.one_owner h hopen
      exact hnobody r hr

theorem release_object_self (s : State π H) (p : π) :
    (s.release invalid p).object p = none := Function.update_self _ _ _

theorem release_object_of_ne (s : State π H) {p q : π} (hq : q ≠ p) :
    (s.release invalid p).object q = s.object q := Function.update_of_ne hq _ _

theorem release_object (s : State π H) {p q : π} {h : H}
    (hq : (s.release invalid p).object q = some h) : q ≠ p ∧ s.object q = some h :=
  some_of_update_none hq

theorem release_object_of_other {p q : π} {g h : H} (hp : s.object p = some h) (hg : g ≠ h)
    (hq : s.object q = some g) : (s.release invalid p).object q = some g := by
  have hne : q ≠ p := by
    rintro rfl
    rw [hp] at hq
    exact hg (Option.some_inj.mp hq).symm
  exact (release_object_of_ne s hne).trans hq

theorem Exclusive.release_invalid (hs : Exclusive invalid s) {p : π}
    (hp : s.object p = some invalid) : Exclusive invalid (s.release invalid p) := by
  have hdestroyed : (s.release invalid p).destroyed = s.destroyed := by
    simp only [State.release, hp, if_pos]
  refine hs.rename (Equiv.refl π) ?_ rfl hdestroyed fun q h hmoved hq => ?_
  · intro q h hvalid
    rw [Equiv.refl_apply]
    rcases eq_or_ne q p with rfl | hne
    · rw [release_object_self, hp]
      exact ⟨nofun, fun heq => absurd (Option.some_inj.mp heq).symm hvalid⟩
    · rw [release_object_of_ne s hne]
  · exact hs.moved_from q h hmoved (release_object s hq).2

theorem Exclusive.release_valid (hs : Exclusive invalid s) {p : π} {h : H}
    (hp : s.object p = some h) (hvalid : h ≠ invalid) :
    Exclusive invalid (s.release invalid p) := by
  have hdestroyed : (s.release invalid p).destroyed =
      Function.update s.destroyed h (s.destroyed h + 1) := by
    simp only [State.release, hp, if_neg hvalid]
  have hother : ∀ q g, (s.release invalid p).object q = some g →
      g ≠ invalid → g ≠ h := by
    rintro q g hq hg rfl
    obtain ⟨hne, hq⟩ := release_object s hq
    exact hne (hs.unique hq hp hg)
  refine ⟨?_, ?_, ?_, ?_, ?_⟩
  · intro g hopen
    rw [State.IsOpen, hdestroyed] at hopen
    have hg : g ≠ h := by
      rintro rfl
      rw [Function.update_self, ← hs.held p g hp hvalid] at hopen
      exact absurd hopen (Nat.lt_irrefl _)
    rw [Function.update_of_ne hg] at hopen
    obtain ⟨q, hq, honly⟩ := hs.one_owner g hopen
    refine ⟨q, release_object_of_other hp hg hq, fun r hr => ?_⟩
    exact honly r (release_object s hr).2
  · intro q g hq hg
    rw [hdestroyed, Function.update_of_ne (hother q g hq hg)]
    exact hs.held q g (release_object s hq).2 hg
  · intro g hno
    rw [hdestroyed]
    rcases eq_or_ne g h with rfl | hg
    · rw [Function.update_self]
      exact hs.held p g hp hvalid
    · rw [Function.update_of_ne hg]
      exact hs.not_held g fun q hq => hno q (release_object_of_other hp hg hq)
  · intro q g hmoved hq
    exact hs.moved_from q g hmoved (release_object s hq).2
  · rw [hdestroyed, Function.update_of_ne hvalid.symm]
    exact hs.never_invalid

/-! ## Which programs keep it

Of all the operations only a wrap of a handle that is open and an assignment over a
valid object can share a handle or lose it, and they do. -/

/-- Taking over a native value that no object owns, and assigning to an object that
holds nothing or to itself. -/
def Keeps (invalid : H) (s : State π H) : Event π H → Prop
  | .fromNative _ h => h = invalid ∨ ¬ s.IsOpen h
  | .moveAssign p q => p = q ∨ s.object p = some invalid
  | _ => True

theorem Exclusive.step (hs : Exclusive invalid s) {e : Event π H} (he : enabled s e)
    (hkeeps : Keeps invalid s e) : Exclusive invalid (next invalid s e) := by
  cases e with
  | construct p h => exact hs.acquire he.1 (Or.inr he.2)
  | constructThrows p => exact hs
  | fromNative p h => exact hs.acquire he hkeeps
  | moveConstruct p q =>
      obtain ⟨hp, hq⟩ := he
      have hne : p ≠ q := by
        rintro rfl
        exact hq hp
      exact hs.take hne (Or.inl hp)
  | moveAssign p q =>
      rcases eq_or_ne p q with rfl | hne
      · have hself : next invalid s (.moveAssign p p) = s := if_pos rfl
        rw [hself]
        exact hs
      · have htake : next invalid s (.moveAssign p q) = s.take invalid p q := if_neg hne
        rw [htake]
        exact hs.take hne (Or.inr (hkeeps.resolve_left hne))
  | destroy p =>
      cases hp : s.object p with
      | none => exact absurd hp he
      | some h =>
          rcases eq_or_ne h invalid with rfl | hvalid
          · exact hs.release_invalid hp
          · exact hs.release_valid hp hvalid

theorem Exclusive.keeps (hs : Exclusive invalid s) {e : Event π H} (he : enabled s e)
    (hs' : OwnedOnce invalid (next invalid s e)) : Keeps invalid s e := by
  cases e with
  | construct p h => trivial
  | constructThrows p => trivial
  | fromNative p h => exact hs.shared he hs'
  | moveConstruct p q => trivial
  | moveAssign p q =>
      rcases eq_or_ne p q with rfl | hne
      · exact Or.inl rfl
      · have htake : next invalid s (.moveAssign p q) = s.take invalid p q := if_neg hne
        rw [htake] at hs'
        exact Or.inr (hs.lost hne he.1 hs')
  | destroy p => trivial

/-- A program keeps exclusive ownership throughout if and only if it never assigns to a
valid object other than the one moved from, and never wraps a native handle that is
open already. -/
theorem ownedOnce_iff (π : Type) [DecidableEq π] {H : Type} [DecidableEq H] (invalid : H)
    {es : List (Event π H)} (hrun : (machine π invalid).Run State.initial es) :
    ((machine π invalid).restrict (Keeps invalid)).Run State.initial es ↔
      ∀ fs, fs <+: es → OwnedOnce invalid ((machine π invalid).after State.initial fs) :=
  Machine.run_restrict_iff_of (fun _ hs => hs.ownedOnce)
    (fun _ _ _ he hs hkeeps => hs.step he hkeeps) (fun _ _ _ he hs hs' => hs.keeps he hs')
    (Machine.Reachable.of_init rfl) exclusive_initial hrun

/-- Two handles are opened, the first object is assigned the second, and both are
destroyed. -/
def overwriting : List (Event Bool ℕ) :=
  [.construct false 1, .construct true 2, .moveAssign false true, .destroy false, .destroy true]

theorem ownedOnce_iff_overwriting :
    (machine Bool 0).Run State.initial overwriting ∧
      (((machine Bool 0).restrict (Keeps 0)).Run State.initial overwriting ↔
        ∀ fs, fs <+: overwriting → OwnedOnce 0 ((machine Bool 0).after State.initial fs)) :=
  have hrun : (machine Bool 0).Run State.initial overwriting := by decide
  ⟨hrun, ownedOnce_iff Bool 0 hrun⟩

/-- All objects are destroyed, and `1` was opened once and destroyed never. -/
theorem leaked :
    (machine Bool 0).Run State.initial overwriting ∧
      (∀ p, ((machine Bool 0).after State.initial overwriting).object p = none) ∧
      ((machine Bool 0).after State.initial overwriting).opened 1 = 1 ∧
      ((machine Bool 0).after State.initial overwriting).destroyed 1 = 0 ∧
      ¬ OwnedOnce 0 ((machine Bool 0).after State.initial overwriting) := by
  refine ⟨by decide, by decide, rfl, rfl, fun howned => ?_⟩
  have hclosed := howned.closed_once (by decide) 1
  cases hclosed

end BasicHandle

end Jar.System
