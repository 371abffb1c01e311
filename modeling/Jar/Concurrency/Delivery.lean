/-
# `Jar.Concurrency.Delivery` — who gets the value

A promise hands out as many futures as it is asked for, and all of them share its
state.  `get` moves the result out of the shared state: what it returns is the value
that was set, and what stays behind is the remainder of the move.  Neither the state
nor the future says so afterwards, so the next `get`, through the same future or
another one, returns that remainder (`remainder_delivered`).

What a program should be able to rely on is `Faithful`: a value that comes out of a
`get` was passed to `set_value`, and only one `get` delivers one.  `faithful_iff` says
which programs may: those that ask no more once they have been given the value.
-/
import Jar.Concurrency.SharedState
import Jar.Lib.Machine

namespace Jar.Concurrency

namespace Delivery

open Jar.Lib
open SharedState (Thrown Data Resolution examine resolve_of_ready examine_eq_ok)

variable {V E : Type}

/-- The shared state, whether the promise still exists, and how many futures were taken
from it; `given` are the arguments of `set_value`, and `answers` what the calls of `get`
came to, the first one first. -/
structure State (V E : Type) where
  shared : SharedState V E
  promise : Bool
  futures : ℕ
  given : List V
  answers : List (Except (Thrown E) (FutureResult V))

/-- The calls, on the promise or on one of the futures; a `get` is taken at its return. -/
inductive Event (V E : Type) where
  | getFuture
  | setValue (v : V)
  | setException (e : E)
  | cancelPromise
  | cancelFuture (i : ℕ)
  | destroyPromise
  | get (i : ℕ)

/-- A program sets `Proper` values; `get` does not return before there is a result. -/
def enabled (Proper : V → Prop) (s : State V E) : Event V E → Prop
  | .getFuture => s.promise = true
  | .setValue v => s.promise = true ∧ Proper v
  | .setException _ => s.promise = true
  | .cancelPromise => s.promise = true
  | .cancelFuture i => i < s.futures
  | .destroyPromise => s.promise = true
  | .get i => i < s.futures ∧ s.shared.state ≠ .init

instance decEnabled (Proper : V → Prop) [DecidablePred Proper] (s : State V E) :
    ∀ e, Decidable (enabled Proper s e)
  | .getFuture => inferInstanceAs (Decidable (s.promise = true))
  | .setValue v => inferInstanceAs (Decidable (s.promise = true ∧ Proper v))
  | .setException _ => inferInstanceAs (Decidable (s.promise = true))
  | .cancelPromise => inferInstanceAs (Decidable (s.promise = true))
  | .cancelFuture i => inferInstanceAs (Decidable (i < s.futures))
  | .destroyPromise => inferInstanceAs (Decidable (s.promise = true))
  | .get i => inferInstanceAs (Decidable (i < s.futures ∧ s.shared.state ≠ .init))

def next (moved : V → V) (s : State V E) : Event V E → State V E
  | .getFuture => { s with futures := s.futures + 1 }
  | .setValue v => { s with shared := s.shared.setValue (some v), given := s.given ++ [v] }
  | .setException e => { s with shared := s.shared.setException e }
  | .cancelPromise => { s with shared := s.shared.cancel }
  | .cancelFuture _ => { s with shared := s.shared.cancel }
  | .destroyPromise => { s with shared := s.shared.broken, promise := false }
  | .get _ => { s with shared := (s.shared.get moved).2
                       answers := s.answers ++ [(s.shared.get moved).1] }

/-- A promise that was just made. -/
def State.initial : State V E := ⟨SharedState.fresh, true, 0, [], []⟩

/-- One promise and its futures; `moved` is what a move leaves behind. -/
def machine (E : Type) {V : Type} (moved : V → V) (Proper : V → Prop) :
    Machine (State V E) (Event V E) where
  Init s := s = State.initial
  Enabled := enabled Proper
  next := next moved

instance (moved : V → V) (Proper : V → Prop) [DecidablePred Proper] (s : State V E)
    (e : Event V E) : Decidable ((machine E moved Proper).Enabled s e) :=
  inferInstanceAs (Decidable (enabled Proper s e))

/-! ## What comes out of a shared state

The calls of `get` that deliver nothing change nothing.  The first one that delivers
hands out what was set, and moves it out; what a further one returns is the remainder,
and nobody set that. -/

/-- A result that is not a cancelled one. -/
def delivers : Except (Thrown E) (FutureResult V) → Bool
  | .ok (some _) => true
  | _ => false

/-- Every value that came out was put in, and at most one came out. -/
structure Faithful (s : State V E) : Prop where
  given : ∀ v, .ok (some v) ∈ s.answers → v ∈ s.given
  once : s.answers.countP delivers ≤ 1

/-- Some `get` has returned a value. -/
def Delivered (s : State V E) : Prop := 0 < s.answers.countP delivers

/-- Nobody asks for the value again. -/
def AsksOnce (s : State V E) : Event V E → Prop
  | .get _ => ¬ Delivered s
  | _ => True

/-- The invariant: the data is a value that was set until one is delivered, and the
remainder of a move from then on. -/
structure Kept (moved : V → V) (Proper : V → Prop) (s : State V E) : Prop where
  proper : ∀ v ∈ s.given, Proper v
  faithful : Faithful s
  stored : s.shared.state = .value → ¬ Delivered s →
    ∃ v ∈ s.given, s.shared.data = .result (some v)
  emptied : Delivered s →
    s.shared.state = .value ∧ ∃ v, s.shared.data = .result (some (moved v))
  canceled : s.shared.state = .canceled → s.shared.data = .result none

variable {moved : V → V} {Proper : V → Prop} {s : State V E}

theorem kept_initial : Kept moved Proper (State.initial : State V E) := by
  refine ⟨nofun, ⟨nofun, Nat.zero_le 1⟩, nofun, ?_, nofun⟩
  intro hdelivered
  exact absurd hdelivered (Nat.lt_irrefl 0)

theorem Kept.resolve (hs : Kept moved Proper s) (op : Resolution V E) {given : List V}
    (hsub : s.given ⊆ given) (hproper : ∀ v ∈ given, Proper v)
    (hop : ∀ r, op = .setValue r → ∃ v ∈ given, r = some v) (promise : Bool) :
    Kept moved Proper { s with shared := SharedState.resolve op s.shared, promise := promise,
                               given := given } := by
  have hfaithful : ∀ v, .ok (some v) ∈ s.answers → v ∈ given :=
    fun v hv => hsub (hs.faithful.given v hv)
  rcases eq_or_ne s.shared.state .init with hinit | hready
  · have hresolve : SharedState.resolve op s.shared =
        ⟨op.announces, op.stores.getD s.shared.data⟩ := if_pos hinit
    have hnot : ¬ Delivered s := by
      intro hdelivered
      rw [(hs.emptied hdelivered).1] at hinit
      cases hinit
    rw [hresolve]
    refine ⟨hproper, ⟨hfaithful, hs.faithful.once⟩, ?_, fun h => absurd h hnot, ?_⟩
    · -- only `set_value` announces a value
      intro hvalue _
      cases op with
      | setValue r =>
          obtain ⟨v, hv, rfl⟩ := hop r rfl
          exact ⟨v, hv, rfl⟩
      | setException e => cases hvalue
      | cancel => cases hvalue
      | broken => cases hvalue
    · intro hcanceled
      cases op with
      | cancel => rfl
      | setValue r => cases hcanceled
      | setException e => cases hcanceled
      | broken => cases hcanceled
  · rw [resolve_of_ready hready]
    refine ⟨hproper, ⟨hfaithful, hs.faithful.once⟩, ?_, hs.emptied, hs.canceled⟩
    intro hvalue hnot
    obtain ⟨v, hv, hdata⟩ := hs.stored hvalue hnot
    exact ⟨v, hsub hv, hdata⟩

theorem Kept.resolved (hs : Kept moved Proper s) (op : Resolution V E)
    (hop : ∀ r, op ≠ .setValue r) (promise : Bool) :
    Kept moved Proper { s with shared := SharedState.resolve op s.shared, promise := promise } :=
  hs.resolve op (List.Subset.refl _) hs.proper (fun r hr => absurd hr (hop r)) promise

theorem get_of_ok {r : FutureResult V} (h : examine s.shared.state s.shared.data = .ok r) :
    s.shared.get moved =
      (.ok r, { s.shared with data := .result (r.map moved) }) := by
  have hdata : s.shared.data = .result r := (examine_eq_ok h).1
  unfold SharedState.get
  rw [h]
  simp only [hdata, Data.movedFrom]

theorem get_of_error {x : Thrown E} (h : examine s.shared.state s.shared.data = .error x) :
    s.shared.get moved = (.error x, s.shared) := by
  unfold SharedState.get
  rw [h]

theorem Kept.answer (hs : Kept moved Proper s) {a : Except (Thrown E) (FutureResult V)}
    (ha : delivers a = false) : Kept moved Proper { s with answers := s.answers ++ [a] } := by
  have hcount : (s.answers ++ [a]).countP delivers = s.answers.countP delivers := by
    rw [List.countP_append, List.countP_singleton, ha]
    rfl
  refine ⟨hs.proper, ⟨?_, ?_⟩, ?_, ?_, hs.canceled⟩
  · intro v hv
    rcases List.mem_append.mp hv with hv | hv
    · exact hs.faithful.given v hv
    · obtain rfl := List.mem_singleton.mp hv
      cases ha
  · rw [hcount]
    exact hs.faithful.once
  · intro hvalue hnot
    exact hs.stored hvalue (by rwa [Delivered, hcount] at hnot)
  · intro hdelivered
    exact hs.emptied (by rwa [Delivered, hcount] at hdelivered)

theorem Kept.deliver (hs : Kept moved Proper s) (hvalue : s.shared.state = .value)
    (hnot : ¬ Delivered s) :
    ∃ v, s.shared.data = .result (some v) ∧
      Kept moved Proper { s with shared := { s.shared with data := .result (some (moved v)) }
                                 answers := s.answers ++ [.ok (some v)] } := by
  obtain ⟨v, hv, hdata⟩ := hs.stored hvalue hnot
  have hzero : s.answers.countP delivers = 0 := Nat.eq_zero_of_not_pos hnot
  have hone : (s.answers ++ [Except.ok (some v)]).countP delivers = 1 := by
    rw [List.countP_append, hzero]
    rfl
  refine ⟨v, hdata, hs.proper, ⟨?_, ?_⟩, ?_, fun _ => ⟨hvalue, v, rfl⟩, ?_⟩
  · intro u hu
    rcases List.mem_append.mp hu with hu | hu
    · exact hs.faithful.given u hu
    · cases List.mem_singleton.mp hu
      exact hv
  · exact Nat.le_of_eq hone
  · intro _ hnot'
    exact absurd (by rw [Delivered, hone]; exact Nat.one_pos) hnot'
  · intro hcanceled
    rw [hvalue] at hcanceled
    cases hcanceled

theorem Kept.get (hs : Kept moved Proper s) (hnot : ¬ Delivered s) (i : ℕ) :
    Kept moved Proper (next moved s (.get i)) := by
  simp only [next]
  cases hexamine : examine s.shared.state s.shared.data with
  | error x =>
      rw [get_of_error hexamine]
      exact hs.answer rfl
  | ok r =>
      rw [get_of_ok hexamine]
      obtain ⟨hdata, hstate⟩ := examine_eq_ok hexamine
      rcases hstate with hvalue | hcanceled
      · obtain ⟨v, hv, hkept⟩ := hs.deliver hvalue hnot
        obtain rfl : r = some v := by
          rw [hdata] at hv
          cases hv
          rfl
        exact hkept
      · obtain rfl : r = none := by
          rw [hs.canceled hcanceled] at hdata
          cases hdata
          rfl
        have hsame : ({ s.shared with data := .result none } : SharedState V E) = s.shared := by
          rw [← hdata]
        rw [Option.map_none, hsame]
        exact hs.answer rfl

theorem Kept.step (hs : Kept moved Proper s) {e : Event V E} (he : enabled Proper s e)
    (hasks : AsksOnce s e) : Kept moved Proper (next moved s e) := by
  cases e with
  | getFuture =>
      exact ⟨hs.proper, ⟨hs.faithful.given, hs.faithful.once⟩, hs.stored, hs.emptied, hs.canceled⟩
  | setValue v =>
      refine hs.resolve (.setValue (some v)) (List.subset_append_left _ _) ?_ ?_ s.promise
      · intro u hu
        rcases List.mem_append.mp hu with hu | hu
        · exact hs.proper u hu
        · obtain rfl := List.mem_singleton.mp hu
          exact he.2
      · intro r hr
        cases hr
        exact ⟨v, List.mem_append_right _ (List.mem_singleton_self v), rfl⟩
  | setException e => exact hs.resolved (.setException e) (fun _ => nofun) s.promise
  | cancelPromise => exact hs.resolved .cancel (fun _ => nofun) s.promise
  | cancelFuture i => exact hs.resolved .cancel (fun _ => nofun) s.promise
  | destroyPromise => exact hs.resolved .broken (fun _ => nofun) false
  | get i => exact hs.get hasks i

theorem Kept.asksOnce (hs : Kept moved Proper s) (hmoved : ∀ v, ¬ Proper (moved v))
    {e : Event V E} (hnext : Faithful (next moved s e)) : AsksOnce s e := by
  cases e with
  | get i =>
      intro hdelivered
      obtain ⟨hvalue, v, hdata⟩ := hs.emptied hdelivered
      have hexamine : examine s.shared.state s.shared.data = .ok (some (moved v)) := by
        rw [hvalue, hdata]
        rfl
      have hanswer : (.ok (some (moved v)) : Except (Thrown E) (FutureResult V)) ∈
          (next moved s (.get i)).answers := by
        simp only [next, get_of_ok hexamine]
        exact List.mem_append_right _ (List.mem_singleton_self _)
      exact hmoved v (hs.proper _ (hnext.given _ hanswer))
  | _ => trivial

/-- **Every `get` delivers what was set, and one at most delivers it, exactly as long as
nobody calls `get` after it has returned a value.** -/
theorem faithful_iff (moved : V → V) (Proper : V → Prop) (hmoved : ∀ v, ¬ Proper (moved v))
    {es : List (Event V E)} (hrun : (machine E moved Proper).Run State.initial es) :
    ((machine E moved Proper).restrict AsksOnce).Run State.initial es ↔
      ∀ fs, fs <+: es → Faithful ((machine E moved Proper).after State.initial fs) :=
  Machine.run_restrict_iff_of (fun _ hs => hs.faithful)
    (fun _ _ _ he hs hasks => hs.step he hasks) (fun _ _ _ _ hs hnext => hs.asksOnce hmoved hnext)
    (Machine.Reachable.of_init rfl) kept_initial hrun

/-- Values as pointers: a move leaves the null pointer, and a program sets others. -/
def moveOut : ℕ → ℕ := fun _ => 0

/-- A value is set, and two futures are asked for it. -/
def askedTwice : List (Event ℕ String) :=
  [.getFuture, .getFuture, .setValue 7, .get 0, .get 1]

theorem faithful_iff_askedTwice :
    (machine String moveOut (0 < ·)).Run State.initial askedTwice ∧
      (((machine String moveOut (0 < ·)).restrict AsksOnce).Run State.initial askedTwice ↔
        ∀ fs, fs <+: askedTwice →
          Faithful ((machine String moveOut (0 < ·)).after State.initial fs)) :=
  have hrun : (machine String moveOut (0 < ·)).Run State.initial askedTwice := by decide
  ⟨hrun, faithful_iff moveOut (0 < ·) (fun _ => Nat.lt_irrefl 0) hrun⟩

/-- The second one is given the null pointer that the first one left. -/
theorem remainder_delivered :
    let s := (machine String moveOut (0 < ·)).after State.initial askedTwice
    (machine String moveOut (0 < ·)).Run State.initial askedTwice ∧ s.given = [7] ∧
      s.answers = [.ok (some 7), .ok (some 0)] ∧ ¬ Faithful s := by
  refine ⟨by decide, rfl, rfl, fun h => ?_⟩
  exact absurd h.once (by decide)

end Delivery

end Jar.Concurrency
