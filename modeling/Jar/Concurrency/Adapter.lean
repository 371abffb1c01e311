/-
# `Jar.Concurrency.Adapter` — the arguments of a deferred call

`rr_scheduler::adapter::schedule(f, args...)` makes a task of a call and gives it to
`schedule`.  The task is a lambda that holds the invocable by value and, made by
`std::forward_as_tuple`, a tuple of *references* to the arguments; when a worker
runs it, `std::apply` hands the references on to the invocable.

So the task does not have the arguments, it has the places they were in.  What the
invocable sees is what is there when the worker comes to it: after any changes the
caller has made to its variables, and with the temporaries of the call, and the
variables whose lifetime is over, gone.

The caller's objects are an explicit store from places to values; a place without a
value holds no object.
-/
import Mathlib.Data.List.Induction
import Mathlib.Logic.Function.Basic

namespace Jar.Concurrency

namespace Adapter

variable {F Var Val : Type}

/-- An argument expression: a plain variable of the caller, or a plain value. -/
inductive Arg (Var Val : Type) where
  | var (v : Var)
  | val (x : Val)

/-- A place: a variable, or the temporary made for the `k`-th argument of the call. -/
inductive Place (Var : Type) where
  | var (v : Var)
  | temporary (k : ℕ)
  deriving DecidableEq

/-- The objects there are, and their values. -/
abbrev Store (Var Val : Type) := Place Var → Option Val

/-- The store while the call of `adapter::schedule` is evaluated: its plain values are
objects too. -/
def Store.withTemporaries (σ : Store Var Val) (args : List (Arg Var Val)) : Store Var Val
  | .var v => σ (.var v)
  | .temporary k =>
      match args[k]? with
      | some (.val x) => some x
      | _ => none

/-- The end of that expression ends the lifetime of its temporaries. -/
def Store.withoutTemporaries (σ : Store Var Val) : Store Var Val
  | .var v => σ (.var v)
  | .temporary _ => none

/-- What the `k`-th reference of the pack is bound to. -/
def Arg.place (k : ℕ) : Arg Var Val → Place Var
  | .var v => .var v
  | .val _ => .temporary k

/-- `std::forward_as_tuple(std::forward<Args>(args)...)`. -/
def forwardAsTuple (args : List (Arg Var Val)) : List (Place Var) := args.mapIdx Arg.place

/-- The lambda: a copy of the invocable, and the tuple.  With a reference to a temporary in
the tuple it cannot be copied, and so not be made a `std::function`; without that it would be
as follows. -/
structure Task (F Var : Type) where
  invocable : F
  args : List (Place Var)

/-- The task that `adapter::schedule` makes. -/
def schedule (invocable : F) (args : List (Arg Var Val)) : Task F Var :=
  ⟨invocable, forwardAsTuple args⟩

/-- `std::apply`: the invocable is called with what the references refer to; `none` is a
reference to no object. -/
def Task.run (task : Task F Var) (σ : Store Var Val) : F × List (Option Val) :=
  (task.invocable, task.args.map σ)

/-- What a caller does to its variables. -/
inductive Action (Var Val : Type) where
  | assign (v : Var) (x : Val)
  | endLifetime (v : Var)

variable [DecidableEq Var]

/-- Only an object can be assigned to. -/
def Action.on (σ : Store Var Val) : Action Var Val → Store Var Val
  | .assign v x => if (σ (.var v)).isSome then Function.update σ (.var v) (some x) else σ
  | .endLifetime v => Function.update σ (.var v) none

/-- The store when the task runs: the call is over, and the caller has gone on. -/
def later (σ : Store Var Val) (actions : List (Action Var Val)) : Store Var Val :=
  actions.foldl Action.on σ.withoutTemporaries

/-! ## What the deferred call should be

What the invocable is given when the task runs, next to what the arguments were when
`schedule` was called.  Run before the call is over, the two agree; afterwards the
temporaries are gone, and the caller cannot bring one back. -/

/-- The value of an argument. -/
def Arg.eval (σ : Store Var Val) : Arg Var Val → Option Val
  | .var v => σ (.var v)
  | .val x => some x

/-- The call, with the values the arguments have in store `σ`. -/
def meant (invocable : F) (args : List (Arg Var Val)) (σ : Store Var Val) :
    F × List (Option Val) :=
  (invocable, args.map (Arg.eval σ))

/-- An argument that is still there as it was: a variable that lives and has kept its value. -/
def Arg.Kept (σ σ' : Store Var Val) : Arg Var Val → Prop
  | .var v => (σ' (.var v)).isSome = true ∧ σ' (.var v) = σ (.var v)
  | .val _ => False

variable {args : List (Arg Var Val)} {σ : Store Var Val}

omit [DecidableEq Var] in
/-- A task run before the call of `adapter::schedule` is over makes the call that was meant. -/
theorem run_during (invocable : F) (args : List (Arg Var Val)) (σ : Store Var Val) :
    (schedule invocable args).run (σ.withTemporaries args) = meant invocable args σ := by
  refine Prod.ext rfl (List.ext_getElem? fun k => ?_)
  show ((args.mapIdx Arg.place).map (σ.withTemporaries args))[k]? = (args.map (Arg.eval σ))[k]?
  rw [List.getElem?_map, List.getElem?_mapIdx, List.getElem?_map]
  cases harg : args[k]? with
  | none => rfl
  | some a =>
      cases a with
      | var v => rfl
      | val x => simp [Arg.place, Arg.eval, Store.withTemporaries, harg]

/-- The caller cannot bring a temporary back. -/
theorem later_temporary (σ : Store Var Val) (actions : List (Action Var Val)) (k : ℕ) :
    later σ actions (.temporary k) = none := by
  have hstep : ∀ (σ' : Store Var Val) (a : Action Var Val),
      a.on σ' (.temporary k) = σ' (.temporary k) := by
    intro σ' a
    cases a with
    | assign v x =>
        rw [Action.on]
        split
        · exact Function.update_of_ne (by intro h; cases h) _ _
        · rfl
    | endLifetime v =>
        rw [Action.on]
        exact Function.update_of_ne (by intro h; cases h) _ _
  unfold later
  induction actions using List.reverseRecOn with
  | nil => rfl
  | append_singleton actions a ih =>
      rw [List.foldl_append]
      exact (hstep _ a).trans ih

omit [DecidableEq Var] in
/-- One reference: it is bound to the value the argument had exactly when the argument is
kept. -/
theorem place_eq_eval_iff {σ' : Store Var Val} (htemporary : ∀ k, σ' (.temporary k) = none)
    (a : Arg Var Val) (k : ℕ) :
    (a.eval σ).isSome = true ∧ σ' (a.place k) = a.eval σ ↔ a.Kept σ σ' := by
  cases a with
  | var v =>
      refine and_congr_left fun hsame => ?_
      rw [← show σ' (.var v) = (Arg.var v).eval σ from hsame]
  | val x =>
      constructor
      · rintro ⟨-, h⟩
        rw [Arg.place, htemporary] at h
        cases h
      · exact False.elim

/-- **A deferred task calls its invocable with the values the arguments had when it was
scheduled, and they all had one, exactly when every argument is a variable that, when the
task runs, is there with the value it had.** -/
theorem run_iff (invocable : F) (args : List (Arg Var Val)) (σ : Store Var Val)
    (actions : List (Action Var Val)) :
    ((∀ a ∈ args, (a.eval σ).isSome = true) ∧
      (schedule invocable args).run (later σ actions) = meant invocable args σ) ↔
      ∀ a ∈ args, a.Kept σ (later σ actions) := by
  have hplace := place_eq_eval_iff (σ := σ) (later_temporary σ actions)
  have hargs : (schedule invocable args).run (later σ actions) = meant invocable args σ ↔
      ∀ k : ℕ, ((args.mapIdx Arg.place).map (later σ actions))[k]? =
        (args.map (Arg.eval σ))[k]? := by
    rw [← List.ext_getElem?_iff]
    exact ⟨fun h => congrArg Prod.snd h, fun h => Prod.ext rfl h⟩
  rw [hargs]
  constructor
  · rintro ⟨hsome, h⟩ a ha
    obtain ⟨k, hk⟩ := List.mem_iff_getElem?.mp ha
    have hsame := h k
    rw [List.getElem?_map, List.getElem?_mapIdx, List.getElem?_map, hk] at hsame
    exact (hplace a k).mp ⟨hsome a ha, Option.some.inj hsame⟩
  · intro h
    refine ⟨fun a ha => ((hplace a 0).mpr (h a ha)).1, fun k => ?_⟩
    rw [List.getElem?_map, List.getElem?_mapIdx, List.getElem?_map]
    cases hk : args[k]? with
    | none => rfl
    | some a =>
        have hkept := h a (List.mem_of_getElem? hk)
        exact congrArg some ((hplace a k).mpr hkept).2

/-- A caller with one variable, of value 1, which it passes. -/
def oneVariable : Store Unit ℕ
  | .var _ => some 1
  | .temporary _ => none

def passed : List (Arg Unit ℕ) := [.var ()]

/-- The caller assigns 2 to its variable before a worker comes by, or the variable's
lifetime ends. -/
theorem sees_later_value :
    (schedule "f" passed).run (later oneVariable [.assign () 2]) = ("f", [some 2]) ∧
      (schedule "f" passed).run (later oneVariable [.endLifetime ()]) = ("f", [none]) ∧
      meant "f" passed oneVariable = ("f", [some 1]) ∧
      (schedule "f" passed).run (later oneVariable [.assign () 2]) ≠
        meant "f" passed oneVariable := by
  have hassigned : (schedule "f" passed).run (later oneVariable [.assign () 2]) =
      ("f", [some 2]) := rfl
  refine ⟨hassigned, rfl, rfl, fun h => ?_⟩
  rw [hassigned] at h
  cases h

end Adapter

end Jar.Concurrency
