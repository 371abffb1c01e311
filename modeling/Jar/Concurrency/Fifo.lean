/-
# `Jar.Concurrency.Fifo` — the queue is a linearizable list

A list that is appended to at the end, taken from at the front and emptied by
`clear` is what the queue is for.  `Acts` says what each operation does to that
list, and knows nothing of the mutex, of waiting or of notifications.  Every
critical section of the queue acts so (`does_acts`); a run is the sequence of
its critical sections; so what went in is what came out, in order, followed by
what is still there (`accounted`).
-/
import Jar.Concurrency.Queue
import Jar.Lib.Linearization

namespace Jar.Concurrency

open Jar.Lib

namespace Queue

/-! ## The list a queue is -/

/-- What an operation with its result does to the list of items.  A refused
operation and one that finds nothing leave it alone. -/
inductive Acts {T : Type*} (xs : List T) : Op T → Ret T → List T → Prop
  | popped {x : T} {ys : List T} : xs = x :: ys → Acts xs .pop (.item (some x)) ys
  | canceled : Acts xs .pop (.item none) xs
  | tryPopped {x : T} {ys : List T} : xs = x :: ys → Acts xs .tryPop (.item (some x)) ys
  | nothing : Acts xs .tryPop (.item none) xs
  | pushed {x : T} : Acts xs (.push x) .unit (xs ++ [x])
  | tryPushed {x : T} : Acts xs (.tryPush x) (.pushed true) (xs ++ [x])
  | refused {x : T} : Acts xs (.tryPush x) (.pushed false) xs
  | cleared : Acts xs .clear .unit []

/-- How items leave the list: handed to a consumer, or thrown away as a block. -/
inductive Departure (T : Type*) where
  | returned (item : T)
  | discarded (block : List T)
  deriving DecidableEq, Repr

def Departure.items {T : Type*} : Departure T → List T
  | .returned item => [item]
  | .discarded block => block

variable {ι T : Type*}

/-- The items an operation puts into the list. -/
def accepts : Op T → Ret T → List T
  | .push item, _ => [item]
  | .tryPush item, .pushed true => [item]
  | _, _ => []

/-- What an operation takes out of the list `xs`. -/
def departs (xs : List T) : Op T → Ret T → List (Departure T)
  | .pop, .item (some item) => [.returned item]
  | .tryPop, .item (some item) => [.returned item]
  | .clear, _ => [.discarded xs]
  | _, _ => []

/-- What was there and what is put in is what is taken out and what is left. -/
theorem Acts.flow {xs ys : List T} {op : Op T} {r : Ret T} (h : Acts xs op r ys) :
    xs ++ accepts op r = (departs xs op r).flatMap Departure.items ++ ys := by
  cases h with
  | popped hx => simpa [accepts, departs, Departure.items] using hx
  | tryPopped hx => simpa [accepts, departs, Departure.items] using hx
  | _ => simp [accepts, departs, Departure.items]

theorem Effect.acts {c c' : Core T} {op : Op T} {r : Ret T} {n : Monitor.Signal}
    (h : Effect c op (.done c' r n)) : Acts c.container op r c'.container := by
  cases h with
  | cancelled => exact .canceled
  | popped _ hx => exact .popped hx
  | empty => exact .nothing
  | tryPopped hx => exact .tryPopped hx
  | pushed => exact .pushed
  | tryPushed => exact .tryPushed
  | cleared => exact .cleared

/-! ## What the queue does, operation by operation

Each operation takes effect in its critical section, or is refused and has changed
nothing.  A `pop` comes back without an item from a cancelled queue only. -/

theorem does_cases {op : Op T} {c c' : Core T} {r : Ret T} (h : (object T).Does op c r c') :
    (refusal op = some r ∧ c' = c) ∨ ∃ n, Effect c op (.done c' r n) := by
  cases h with
  | refused h => exact Or.inl ⟨h, rfl⟩
  | completed h =>
      have heff := body_effect op c
      rw [show body op c = .done c' r _ from h] at heff
      exact Or.inr ⟨_, heff⟩
  | resumed h =>
      have heff := again_effect op c
      rw [show again op c = .done c' r _ from h] at heff
      exact Or.inr ⟨_, heff⟩

/-- **Every operation of the queue acts on its container as on a list.** -/
theorem does_acts {op : Op T} {c c' : Core T} {r : Ret T} (h : (object T).Does op c r c') :
    Acts c.container op r c'.container := by
  rcases does_cases h with ⟨href, rfl⟩ | ⟨n, heff⟩
  · cases op with
    | tryPop => cases href; exact .nothing
    | tryPush item => cases href; exact .refused
    | _ => cases href
  · exact heff.acts

theorem does_unchanged {op : Op T} {c c' : Core T} {r : Ret T} (h : (object T).Does op c r c')
    (hr : r = .pushed false ∨ r = .item none) : c' = c := by
  rcases does_cases h with ⟨-, rfl⟩ | ⟨n, heff⟩
  · rfl
  · cases heff with
    | cancelled => rfl
    | empty => rfl
    | _ => rcases hr with hr | hr <;> cases hr

/-- `pop` returns nothing on a cancelled queue only. -/
theorem does_pop_none {c c' : Core T} (h : (object T).Does .pop c (.item none) c') :
    c.isCancelled = true := by
  rcases does_cases h with ⟨href, -⟩ | ⟨n, heff⟩
  · cases href
  · cases heff with
    | cancelled hc => exact hc

theorem does_isCancelled {op : Op T} {c c' : Core T} {r : Ret T} (h : (object T).Does op c r c')
    (hop : op ≠ .clear) : c'.isCancelled = c.isCancelled := by
  rcases does_cases h with ⟨-, rfl⟩ | ⟨n, heff⟩
  · rfl
  · exact heff.stays_open hop

/-! ## What a run does

The sections of a run are linked, each beginning where the one before has ended, so
their lists add up to one. -/

abbrev Section (ι T : Type*) := Monitor.Section ι (Core T) (Op T) (Ret T)

/-- The items a section puts into the container. -/
def accepted (a : Section ι T) : List T := accepts a.op a.result

/-- What a section takes out of the container it finds. -/
def departed (a : Section ι T) : List (Departure T) := departs a.before.container a.op a.result

theorem linked_flow {c c' : Core T} {as : List (Section ι T)}
    (h : Monitor.Linked (object T) c as c') : c.container ++ as.flatMap accepted =
      (as.flatMap departed).flatMap Departure.items ++ c'.container := by
  induction as generalizing c with
  | nil =>
      obtain rfl : c = c' := h
      simp
  | cons a as ih =>
      obtain ⟨rfl, hdoes, hrest⟩ := h
      calc a.before.container ++ (a :: as).flatMap accepted
          = (a.before.container ++ accepted a) ++ as.flatMap accepted := by
            rw [List.flatMap_cons, List.append_assoc]
        _ = (departed a).flatMap Departure.items ++ (a.after.container ++ as.flatMap accepted) := by
            rw [accepted, (does_acts hdoes).flow, departed, List.append_assoc]
        _ = ((a :: as).flatMap departed).flatMap Departure.items ++ c'.container := by
            rw [ih hrest, List.flatMap_cons, List.flatMap_append, List.append_assoc]

theorem linked_cleared {c c' : Core T} {as : List (Section ι T)}
    (h : Monitor.Linked (object T) c as c') (hc : c.isCancelled = false)
    (hc' : c'.isCancelled = true) : ∃ a ∈ as, a.op = .clear := by
  induction as generalizing c with
  | nil =>
      obtain rfl : c = c' := h
      rw [hc] at hc'
      cases hc'
  | cons a as ih =>
      obtain ⟨rfl, hdoes, hrest⟩ := h
      by_cases hop : a.op = .clear
      · exact ⟨a, List.mem_cons_self, hop⟩
      · obtain ⟨b, hb, hclear⟩ := ih hrest ((does_isCancelled hdoes hop).trans hc)
        exact ⟨b, List.mem_cons_of_mem a hb, hclear⟩

variable [DecidableEq ι]

/-- The sections `as` account for the run `es` that has led to `s`: they are what every
thread has called and been given, in its own order, and one list of items explains
them all. -/
structure Accounts (es : List (Event ι T)) (as : List (Section ι T)) (s : State ι T) : Prop where
  linked : Monitor.Linked (object T) Core.empty as s.core
  returned : ∀ t, Monitor.decided t as = Monitor.returned t es ++ (s.pc t).decided
  called : ∀ t, Monitor.called t es = (Monitor.decided t as).map Prod.fst ++ (s.pc t).undecided
  fifo : (as.flatMap departed).flatMap Departure.items ++ s.core.container = as.flatMap accepted
  unchanged : ∀ a ∈ as, a.result = .pushed false ∨ a.result = .item none → a.after = a.before
  cleared : ∀ before a later, as = before ++ a :: later → a.op = .pop → a.result = .item none →
    ∃ b ∈ before, b.op = .clear

/-- **The queue is a linearizable FIFO.** -/
theorem accounted {es : List (Event ι T)}
    (h : (machine ι T).Run (Monitor.State.initial Core.empty) es) :
    Accounts es (Monitor.sections (object T) (Monitor.State.initial Core.empty) es)
      ((machine ι T).after (Monitor.State.initial Core.empty) es) := by
  have hlinked := Monitor.linked h
  refine ⟨hlinked, Monitor.decided_eq h, Monitor.called_eq h, (linked_flow hlinked).symm, ?_, ?_⟩
  · intro a ha hr
    exact does_unchanged (hlinked.does a ha) hr
  · intro before a later has hop hr
    rw [has] at hlinked
    obtain ⟨c, hbefore, ha⟩ := hlinked.split
    have hdoes := ha.2.1
    rw [hop, hr, ha.1] at hdoes
    exact linked_cleared hbefore rfl (does_pop_none hdoes)

/-- One thread sleeps in `pop` until the other pushes.  The next item is thrown away by
`clear`, one more is refused, and a last `pop` finds the queue canceled. -/
def pushPopClear : List (Event Bool ℕ) :=
  [.call false .pop, .lock false .pop, .body false .pop,
   .call true (.push 7), .lock true (.push 7), .body true (.push 7),
   .notifyOne true (.push 7) .unit (some false), .ret true (.push 7) .unit,
   .relock false .pop, .again false .pop, .ret false .pop (.item (some 7)),
   .call true (.push 8), .lock true (.push 8), .body true (.push 8),
   .call false (.tryPush 9), .refuse false (.tryPush 9) (.pushed false),
   .notifyOne true (.push 8) .unit none, .ret true (.push 8) .unit,
   .call true .clear, .lock true .clear, .body true .clear,
   .ret false (.tryPush 9) (.pushed false), .call false .pop, .lock false .pop, .body false .pop]

theorem accounted_pushPopClear :
    Accounts pushPopClear
      (Monitor.sections (object ℕ) (Monitor.State.initial Core.empty) pushPopClear)
      ((machine Bool ℕ).after (Monitor.State.initial Core.empty) pushPopClear) :=
  accounted (by decide)

example : (Monitor.sections (object ℕ) (Monitor.State.initial Core.empty) pushPopClear).flatMap
    departed = [.returned 7, .discarded [8]] := by decide

end Queue

end Jar.Concurrency
