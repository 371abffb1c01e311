/-
# `Jar.Lib.Machine` — event machines, their runs, and what holds along them

A concurrent program is given as a machine: a type of states, a type of events,
a predicate saying in which states an event may happen, and the state it leads
to.  An event names everything that is not determined by the state — which
thread moves, which branch of the environment is taken, which sleeper a
notification reaches — so a run is a list of events and can be replayed.

Five things are proved once and used by every machine:

* `Reachable.invariant` — what holds initially and survives every event holds
  in every reachable state;
* `Run.history` — the same for what relates a state to the events before it, and
  `Run.once` for what can happen only once;
* `Reaches.stable` — the same from an arbitrary state on;
* `restrict` — the machine whose runs are the runs all of whose steps meet a
  condition, which is how "the property holds of every run that avoids this step"
  is stated;
* `Refines` — a machine seen through a smaller one: every event is either
  invisible or an event of the smaller machine, and reachability transfers.

States keep families of things that may be missing; the last section says what is
there after one entry was set.
-/
import Mathlib.Data.List.Induction
import Mathlib.Logic.Function.Basic

namespace Jar.Lib

/-- A machine over states `σ` moved by events `ε`. -/
structure Machine (σ ε : Type*) where
  Init : σ → Prop
  Enabled : σ → ε → Prop
  next : σ → ε → σ

namespace Machine

variable {σ ε α β : Type*} (M : Machine σ ε)

/-! ## Runs

A run is a list of events, each enabled in the state that those before it have led to.
Runs are concatenated, so what can be reached from a reachable state is reachable. -/

/-- `M.Run s es`: starting in `s`, each event of `es` is enabled when its turn comes. -/
def Run : σ → List ε → Prop
  | _, [] => True
  | s, e :: es => M.Enabled s e ∧ Run (M.next s e) es

/-- The state after a list of events. -/
def after : σ → List ε → σ
  | s, [] => s
  | s, e :: es => after (M.next s e) es

instance decRun [h : ∀ s e, Decidable (M.Enabled s e)] :
    ∀ (s : σ) (es : List ε), Decidable (M.Run s es)
  | _, [] => isTrue trivial
  | s, e :: es =>
      have := decRun (M.next s e) es
      inferInstanceAs (Decidable (M.Enabled s e ∧ M.Run (M.next s e) es))

theorem run_append {s : σ} {es fs : List ε} :
    M.Run s (es ++ fs) ↔ M.Run s es ∧ M.Run (M.after s es) fs := by
  induction es generalizing s with
  | nil => simp [Run, after]
  | cons e es ih => simp [Run, after, ih, and_assoc]

theorem after_append {s : σ} {es fs : List ε} :
    M.after s (es ++ fs) = M.after (M.after s es) fs := by
  induction es generalizing s with
  | nil => rfl
  | cons e es ih => exact ih

/-- `s'` comes after `s` in some run. -/
def Reaches (s s' : σ) : Prop := ∃ es, M.Run s es ∧ M.after s es = s'

/-- `s'` occurs in a run from an initial state. -/
def Reachable (s' : σ) : Prop := ∃ s, M.Init s ∧ M.Reaches s s'

variable {M}

theorem Reaches.refl (s : σ) : M.Reaches s s := ⟨[], trivial, rfl⟩

theorem Reaches.trans {s s' s'' : σ} (h : M.Reaches s s') (h' : M.Reaches s' s'') :
    M.Reaches s s'' := by
  obtain ⟨es, hr, rfl⟩ := h
  obtain ⟨fs, hr', rfl⟩ := h'
  exact ⟨es ++ fs, (M.run_append).mpr ⟨hr, hr'⟩, M.after_append⟩

theorem Reaches.single {s : σ} {e : ε} (h : M.Enabled s e) : M.Reaches s (M.next s e) :=
  ⟨[e], ⟨h, trivial⟩, rfl⟩

theorem Reachable.of_init {s : σ} (h : M.Init s) : M.Reachable s := ⟨s, h, Reaches.refl s⟩

theorem Reachable.reaches {s s' : σ} (h : M.Reachable s) (h' : M.Reaches s s') :
    M.Reachable s' := by
  obtain ⟨s₀, h₀, hs⟩ := h
  exact ⟨s₀, h₀, hs.trans h'⟩

theorem Reachable.step {s : σ} {e : ε} (h : M.Reachable s) (he : M.Enabled s e) :
    M.Reachable (M.next s e) :=
  h.reaches (Reaches.single he)

theorem Reachable.of_run {s : σ} (h : M.Init s) {es : List ε} (hr : M.Run s es) :
    M.Reachable (M.after s es) :=
  ⟨s, h, es, hr, rfl⟩

/-! ## Invariants

The induction over a run, in the forms in which it is used: from the state on in which
a property first holds, from the initial states, with the events so far, and for what
can happen once only. -/

/-- A property that no event destroys holds from the state on in which it first holds. -/
theorem Reaches.stable {P : σ → Prop} (hP : ∀ s e, M.Enabled s e → P s → P (M.next s e))
    {s s' : σ} (h : M.Reaches s s') (hs : P s) : P s' := by
  obtain ⟨es, hr, rfl⟩ := h
  induction es generalizing s with
  | nil => exact hs
  | cons e es ih => exact ih (hP s e hr.1 hs) hr.2

/-- A property that holds initially and that no event destroys in a reachable
state holds in every reachable state. -/
theorem Reachable.invariant {I : σ → Prop} (h₀ : ∀ s, M.Init s → I s)
    (hI : ∀ s e, M.Reachable s → M.Enabled s e → I s → I (M.next s e))
    {s : σ} (h : M.Reachable s) : I s := by
  obtain ⟨s₀, hs₀, hs⟩ := h
  have hpair : M.Reachable s ∧ I s :=
    hs.stable (P := fun t => M.Reachable t ∧ I t)
      (fun t e he ht => ⟨ht.1.step he, hI t e ht.1 he ht.2⟩)
      ⟨Reachable.of_init hs₀, h₀ s₀ hs₀⟩
  exact hpair.2

/-- What relates a state to the events before it: if it holds of the empty history
and of every history that is one event longer, it holds of every run. -/
theorem Run.history {I : List ε → σ → Prop} {s : σ} (h₀ : I [] s)
    (hI : ∀ es e, M.Run s es → M.Enabled (M.after s es) e → I es (M.after s es) →
      I (es ++ [e]) (M.next (M.after s es) e))
    {es : List ε} (h : M.Run s es) : I es (M.after s es) := by
  induction es using List.reverseRecOn with
  | nil => exact h₀
  | append_singleton es e ih =>
      obtain ⟨hrun, he, -⟩ := (M.run_append).mp h
      rw [M.after_append]
      exact hI es e hrun he (ih hrun)

/-- What a step brings about for good is brought about once: two positions of a run at
which it is brought about are the same. -/
theorem Run.once {Q : σ → Prop} (hQ : ∀ s e, M.Enabled s e → Q s → Q (M.next s e)) {s : σ}
    {fs gs fs' gs' : List ε} {e e' : ε} (h : M.Run s (fs ++ e :: gs))
    (heq : fs ++ e :: gs = fs' ++ e' :: gs')
    (hbefore : ¬ Q (M.after s fs)) (hafter : Q (M.next (M.after s fs) e))
    (hbefore' : ¬ Q (M.after s fs')) (hafter' : Q (M.next (M.after s fs') e')) : fs = fs' := by
  induction fs generalizing s fs' with
  | nil =>
      cases fs' with
      | nil => rfl
      | cons x fs' =>
          obtain ⟨rfl, hrest⟩ := List.cons.inj heq
          have hrun : M.Run (M.next s e) fs' := ((M.run_append).mp (hrest ▸ h.2)).1
          exact absurd (Reaches.stable hQ ⟨fs', hrun, rfl⟩ hafter) hbefore'
  | cons x fs ih =>
      cases fs' with
      | nil =>
          obtain ⟨rfl, hrest⟩ := List.cons.inj heq
          have hrun : M.Run (M.next s x) fs := ((M.run_append).mp h.2).1
          exact absurd (Reaches.stable hQ ⟨fs, hrun, rfl⟩ hafter') hbefore
      | cons y fs' =>
          obtain ⟨rfl, hrest⟩ := List.cons.inj heq
          rw [ih h.2 hrest hbefore hafter hbefore' hafter']

/-! ## Runs whose steps meet a condition

The machine that is restricted to a condition has the states of the whole one, and its
runs are runs of it.  `run_restrict_iff` is the shape of a result that says exactly
when a property holds along a run: of a property that is its own invariant, it is a
fact about one step. -/

variable (M) in
/-- The machine that only takes the steps of `M` meeting `C`. -/
def restrict (C : σ → ε → Prop) : Machine σ ε where
  Init := M.Init
  Enabled s e := M.Enabled s e ∧ C s e
  next := M.next

instance {C : σ → ε → Prop} (s : σ) (e : ε) [Decidable (M.Enabled s e)] [Decidable (C s e)] :
    Decidable ((M.restrict C).Enabled s e) :=
  inferInstanceAs (Decidable (M.Enabled s e ∧ C s e))

theorem Run.of_restrict {C : σ → ε → Prop} :
    ∀ {es : List ε} {s : σ}, (M.restrict C).Run s es → M.Run s es
  | [], _, _ => trivial
  | _ :: _, _, h => ⟨h.1.1, Run.of_restrict h.2⟩

theorem Run.restrict {C : ε → Prop} {es : List ε} {s : σ} (h : M.Run s es) (hC : ∀ e ∈ es, C e) :
    (M.restrict fun _ => C).Run s es := by
  induction es generalizing s with
  | nil => trivial
  | cons e es ih =>
      obtain ⟨he, hes⟩ := List.forall_mem_cons.mp hC
      exact ⟨⟨h.1, he⟩, ih h.2 hes⟩

theorem after_restrict {C : σ → ε → Prop} {s : σ} {es : List ε} :
    (M.restrict C).after s es = M.after s es := by
  induction es generalizing s with
  | nil => rfl
  | cons e es ih => exact ih

theorem Reaches.of_restrict {C : σ → ε → Prop} {s s' : σ}
    (h : (M.restrict C).Reaches s s') : M.Reaches s s' := by
  obtain ⟨es, hr, rfl⟩ := h
  exact ⟨es, hr.of_restrict, after_restrict.symm⟩

theorem Reachable.of_restrict {C : σ → ε → Prop} {s : σ}
    (h : (M.restrict C).Reachable s) : M.Reachable s := by
  obtain ⟨s₀, h₀, hs⟩ := h
  exact ⟨s₀, h₀, hs.of_restrict⟩

/-- An invariant that entails a property and survives the steps meeting a condition,
when the property fails after any other step: the runs that keep the property throughout
are those whose steps all meet the condition. -/
theorem run_restrict_iff_of {P Q : σ → Prop} {C : σ → ε → Prop} (hPQ : ∀ s, P s → Q s)
    (hkeep : ∀ s e, M.Reachable s → M.Enabled s e → P s → C s e → P (M.next s e))
    (hneed : ∀ s e, M.Reachable s → M.Enabled s e → P s → Q (M.next s e) → C s e)
    {es : List ε} {s : σ} (h : M.Reachable s) (hs : P s) (hrun : M.Run s es) :
    (M.restrict C).Run s es ↔ ∀ fs, fs <+: es → Q (M.after s fs) := by
  induction es generalizing s with
  | nil =>
      refine ⟨fun _ fs hfs => ?_, fun _ => trivial⟩
      rw [List.prefix_nil.mp hfs]
      exact hPQ s hs
  | cons e es ih =>
      obtain ⟨he, hrest⟩ := hrun
      constructor
      · intro ⟨⟨_, hc⟩, htail⟩ fs hfs
        cases fs with
        | nil => exact hPQ s hs
        | cons f fs =>
            obtain ⟨rfl, hpre⟩ := List.cons_prefix_cons.mp hfs
            exact (ih (h.step he) (hkeep s f h he hs hc) hrest).mp htail fs hpre
      · intro hall
        have hnext : Q (M.next s e) := hall [e] (List.cons_prefix_cons.mpr ⟨rfl, List.nil_prefix⟩)
        have hc : C s e := hneed s e h he hs hnext
        refine ⟨⟨he, hc⟩, (ih (h.step he) (hkeep s e h he hs hc) hrest).mpr fun fs hfs => ?_⟩
        exact hall (e :: fs) (List.cons_prefix_cons.mpr ⟨rfl, hfs⟩)

theorem run_restrict_iff {P : σ → Prop} {C : σ → ε → Prop}
    (hstep : ∀ s e, M.Reachable s → M.Enabled s e → P s → (P (M.next s e) ↔ C s e))
    {es : List ε} {s : σ} (h : M.Reachable s) (hs : P s) (hrun : M.Run s es) :
    (M.restrict C).Run s es ↔ ∀ fs, fs <+: es → P (M.after s fs) :=
  run_restrict_iff_of (fun _ hs => hs) (fun s e h he hs => (hstep s e h he hs).mpr)
    (fun s e h he hs => (hstep s e h he hs).mp) h hs hrun

/-! ## One machine seen through another

A view need not be about all of the machine, and most steps may not show in it.  What
holds of all states the smaller machine can reach holds of all views. -/

/-- `M` seen through `A`: a view of its states, and for every step what of it
shows in the view — nothing, or an event of `A`. -/
structure Refines (M : Machine σ ε) (A : Machine α β) where
  view : σ → α
  event : σ → ε → Option β
  init : ∀ s, M.Init s → A.Init (view s)
  silent : ∀ s e, M.Enabled s e → event s e = none → view (M.next s e) = view s
  visible : ∀ s e b, M.Enabled s e → event s e = some b →
    A.Enabled (view s) b ∧ view (M.next s e) = A.next (view s) b

variable {A : Machine α β}

theorem Refines.reaches (R : M.Refines A) {s s' : σ} (h : M.Reaches s s') :
    A.Reaches (R.view s) (R.view s') := by
  refine h.stable (P := fun t => A.Reaches (R.view s) (R.view t)) ?_ (Reaches.refl _)
  intro t e he ht
  cases hv : R.event t e with
  | none => rw [R.silent t e he hv]; exact ht
  | some b =>
      obtain ⟨hb, hn⟩ := R.visible t e b he hv
      rw [hn]
      exact ht.trans (Reaches.single hb)

theorem Refines.reachable (R : M.Refines A) {s : σ} (h : M.Reachable s) :
    A.Reachable (R.view s) := by
  obtain ⟨s₀, h₀, hs⟩ := h
  exact ⟨R.view s₀, R.init s₀ h₀, R.reaches hs⟩

end Machine

/-! ## A component that may be missing

After one entry of a family was set, what is there is that entry or was there before. -/

section Update

variable {α β : Type*} [DecidableEq α] {f : α → Option β} {i j : α}

theorem update_eq_some {o : Option β} {x : β} (h : Function.update f j o i = some x) :
    i = j ∧ o = some x ∨ i ≠ j ∧ f i = some x := by
  rcases eq_or_ne i j with rfl | hne
  · rw [Function.update_self] at h
    exact Or.inl ⟨rfl, h⟩
  · rw [Function.update_of_ne hne] at h
    exact Or.inr ⟨hne, h⟩

theorem some_of_update_none {x : β} (h : Function.update f j none i = some x) :
    i ≠ j ∧ f i = some x := by
  rcases update_eq_some h with ⟨-, hnone⟩ | hold
  · cases hnone
  · exact hold

end Update

end Jar.Lib
