/-
# `Jar.Concurrency.ThrowingItems` — a queue of items whose move throws

The operations of the queue are `noexcept` for an item type that moves without
throwing; for any other they let the exception out.  `push` moves its item into the
container.  `pop_front` moves the front item twice: into a local variable, and, once
its slot is dropped, from there into the optional it returns.

Whatever throws before the slot is dropped leaves the container as it was.  The
second move of `pop_front` does not: the item is in neither place any more.
`keeps_iff` is the line between the two, for every operation.

Where nothing throws, all this is `Jar.Concurrency.Queue` (`object_total`).
-/
import Jar.Concurrency.Queue

namespace Jar.Concurrency

open Jar.Lib

namespace ThrowingItems

open Queue (Core Op)

/-! ## The operations, with their moves

The section of `Jar.Concurrency.Queue`, with an outcome for each move of an item: into
the container, out of it, and into the optional that is returned. -/

/-- What the moves of one call come to: into the container, out of its front, and into
the returned optional.  A move that throws leaves its source unchanged. -/
structure Moves (T E : Type*) where
  put : T → Except E T
  take : T → Except E T
  give : T → Except E T

variable {T E : Type*}

/-- Moves that never throw and hand on what they are given. -/
structure Moves.Total (m : Moves T E) : Prop where
  put : ∀ x, m.put x = .ok x
  take : ∀ x, m.take x = .ok x
  give : ∀ x, m.give x = .ok x

abbrev Outcome (T E : Type*) := Monitor.Outcome (Core T) (Except E (Queue.Ret T))

/-- `pop_front`. -/
def popFront (m : Moves T E) (c : Core T) : Except E (Option T) × Core T :=
  match c.container with
  | [] => (.ok none, c)
  | x :: xs =>
      match m.take x with
      | .error e => (.error e, c)
      | .ok item => ((m.give item).map some, { c with container := xs })

/-- A section that ends in `pop_front`. -/
def popped (m : Moves T E) (c : Core T) : Outcome T E :=
  .done (popFront m c).2 ((popFront m c).1.map .item) .none

/-- `pop` after its wait. -/
def popTail (m : Moves T E) (c : Core T) : Outcome T E :=
  if c.isCancelled then .done c (.ok (.item none)) .none else popped m c

/-- The wait of `pop`. -/
def popWait (m : Moves T E) (c : Core T) : Outcome T E :=
  if Queue.ready c then popTail m c else .block

def popBody (m : Moves T E) (c : Core T) : Outcome T E :=
  if c.container.isEmpty || !c.isCancelled then popWait m c else popTail m c

def tryPopBody (m : Moves T E) (c : Core T) : Outcome T E :=
  if c.container.isEmpty then .done c (.ok (.item none)) .none else popped m c

/-- `push` and `try_push` once they have the mutex.  A failed `emplace_back` leaves the
container as it was, and the notification is not reached. -/
def pushed (m : Moves T E) (item : T) (r : Queue.Ret T) (c : Core T) : Outcome T E :=
  match m.put item with
  | .error e => .done c (.error e) .none
  | .ok x => .done { c with container := c.container ++ [x] } (.ok r) .one

def pushBody (m : Moves T E) (item : T) : Core T → Outcome T E := pushed m item .unit

def tryPushBody (m : Moves T E) (item : T) : Core T → Outcome T E := pushed m item (.pushed true)

def clearBody (_ : Core T) : Outcome T E := .done ⟨true, []⟩ (.ok .unit) .all

def body (m : Moves T E) : Op T → Core T → Outcome T E
  | .pop => popBody m
  | .tryPop => tryPopBody m
  | .push item => pushBody m item
  | .tryPush item => tryPushBody m item
  | .clear => clearBody

def again (m : Moves T E) : Op T → Core T → Outcome T E
  | .pop => popWait m
  | op => body m op

/-- Every call comes with moves of its own. -/
def object (T E : Type*) : Monitor.Object (Core T) (Op T × Moves T E) (Except E (Queue.Ret T)) where
  refusal call := (Queue.refusal call.1).map .ok
  body call := body call.2 call.1
  again call := again call.2 call.1

/-! ## When nothing throws

With moves that do not throw this is the plain queue, and a wait that is entered at
all does not change the outcome. -/

/-- A section of the queue, as one that might have thrown. -/
def returning : Monitor.Outcome (Core T) (Queue.Ret T) → Outcome T E
  | .done c r n => .done c (.ok r) n
  | .block => .block

theorem popped_total {m : Moves T E} (hm : m.Total) (c : Core T) :
    popped m c = returning (.done (Queue.popFront c).2 (.item (Queue.popFront c).1) .none) := by
  unfold popped popFront Queue.popFront
  cases c.container with
  | nil => rfl
  | cons x xs =>
      simp only [hm.take, hm.give]
      rfl

theorem popTail_total {m : Moves T E} (hm : m.Total) (c : Core T) :
    popTail m c = returning (Queue.popTail c) := by
  unfold popTail Queue.popTail
  rw [popped_total hm]
  split
  · rfl
  · rfl

theorem popWait_total {m : Moves T E} (hm : m.Total) (c : Core T) :
    popWait m c = returning (Queue.popWait c) := by
  unfold popWait Queue.popWait
  rw [popTail_total hm]
  split
  · rfl
  · rfl

theorem body_total {m : Moves T E} (hm : m.Total) (op : Op T) (c : Core T) :
    body m op c = returning (Queue.body op c) := by
  cases op with
  | pop =>
      change popBody m c = returning (Queue.popBody c)
      unfold popBody Queue.popBody
      rw [popWait_total hm, popTail_total hm]
      split
      · rfl
      · rfl
  | tryPop =>
      change tryPopBody m c = returning (Queue.tryPopBody c)
      unfold tryPopBody Queue.tryPopBody
      rw [popped_total hm]
      split
      · rfl
      · rfl
  | push item =>
      simp only [body, pushBody, pushed, hm.put]
      rfl
  | tryPush item =>
      simp only [body, tryPushBody, pushed, hm.put]
      rfl
  | clear => rfl

theorem again_eq_body (m : Moves T E) (op : Op T) (c : Core T) : again m op c = body m op c := by
  obtain ⟨cancelled, xs⟩ := c
  cases op with
  | pop => cases cancelled <;> cases xs <;> rfl
  | _ => rfl

theorem object_total {m : Moves T E} (hm : m.Total) (op : Op T) (c : Core T) :
    (object T E).body (op, m) c = returning ((Queue.object T).body op c) ∧
      (object T E).again (op, m) c = returning ((Queue.object T).again op c) := by
  refine ⟨body_total hm op c, ?_⟩
  change again m op c = returning (Queue.again op c)
  rw [again_eq_body, Queue.again_eq_body]
  exact body_total hm op c

/-! ## Which item a section removes

A push that throws has pushed nothing, and a section with nothing to move out keeps
everything.  Of the three ways `pop_front` can go the second loses the item. -/

/-- The item the section is about to move out: the front one, unless `pop` finds the queue
cancelled. -/
def front (op : Op T) (c : Core T) : Option T :=
  match op with
  | .pop => if c.isCancelled then none else c.container.head?
  | .tryPop => c.container.head?
  | _ => none

theorem body_of_front {m : Moves T E} {op : Op T} {c : Core T} {x : T} (h : front op c = some x) :
    ∃ xs, c.container = x :: xs ∧ body m op c = popped m c := by
  obtain ⟨cancelled, xs⟩ := c
  cases op with
  | pop =>
      cases cancelled with
      | true => cases h
      | false =>
          cases xs with
          | nil => cases h
          | cons x' xs =>
              cases h
              exact ⟨xs, rfl, rfl⟩
  | tryPop =>
      cases xs with
      | nil => cases h
      | cons x' xs =>
          cases h
          exact ⟨xs, rfl, rfl⟩
  | push item => cases h
  | tryPush item => cases h
  | clear => cases h

/-- An exception leaves the container with the items it had, in their order; an item that is
returned is the front one, moved twice, and the container has lost that one only. -/
def Keeps (m : Moves T E) (c : Core T) : Outcome T E → Prop
  | .done c' (.error _) _ => c'.container = c.container
  | .done c' (.ok (.item (some z))) _ =>
      ∃ x y, c.container = x :: c'.container ∧ m.take x = .ok y ∧ m.give y = .ok z
  | _ => True

theorem keeps_pushed {m : Moves T E} {item : T} {r : Queue.Ret T} {c : Core T}
    (hr : ∀ z, r ≠ .item (some z)) : Keeps m c (pushed m item r c) := by
  unfold pushed
  cases m.put item with
  | error e => exact rfl
  | ok x =>
      cases r with
      | item z =>
          cases z with
          | none => trivial
          | some z => exact absurd rfl (hr z)
      | _ => trivial

theorem keeps_of_front_none {m : Moves T E} {op : Op T} {c : Core T} (h : front op c = none) :
    Keeps m c (body m op c) := by
  cases op with
  | pop =>
      obtain ⟨cancelled, xs⟩ := c
      cases cancelled with
      | true => cases xs <;> trivial
      | false =>
          cases xs with
          | nil => trivial
          | cons x xs => cases h
  | tryPop =>
      obtain ⟨cancelled, xs⟩ := c
      cases xs with
      | nil => trivial
      | cons x xs => cases h
  | push item => exact keeps_pushed (fun _ => nofun)
  | tryPush item => exact keeps_pushed (fun _ => nofun)
  | clear => trivial

section PopFront

variable {m : Moves T E} {c : Core T} {x y z : T} {xs : List T} {e : E}

theorem popped_take_error (hc : c.container = x :: xs) (htake : m.take x = .error e) :
    popped m c = .done c (.error e) .none := by
  simp only [popped, popFront, hc, htake]
  rfl

theorem popped_give_error (hc : c.container = x :: xs) (htake : m.take x = .ok y)
    (hgive : m.give y = .error e) :
    popped m c = .done { c with container := xs } (.error e) .none := by
  simp only [popped, popFront, hc, htake, hgive]
  rfl

theorem popped_ok (hc : c.container = x :: xs) (htake : m.take x = .ok y)
    (hgive : m.give y = .ok z) :
    popped m c = .done { c with container := xs } (.ok (.item (some z))) .none := by
  simp only [popped, popFront, hc, htake, hgive]
  rfl

theorem keeps_popped_iff (hc : c.container = x :: xs) :
    Keeps m c (popped m c) ↔ ∀ y, m.take x = .ok y → ∃ z, m.give y = .ok z := by
  cases htake : m.take x with
  | error e =>
      rw [popped_take_error hc htake]
      constructor
      · intro _ y hy
        cases hy
      · intro _
        exact rfl
  | ok y =>
      cases hgive : m.give y with
      | error e =>
          rw [popped_give_error hc htake hgive]
          constructor
          · intro h
            have hlost : xs = x :: xs := Eq.trans h hc
            exact absurd hlost (List.cons_ne_self x xs).symm
          · intro h
            obtain ⟨z, hz⟩ := h y rfl
            rw [hgive] at hz
            cases hz
      | ok z =>
          rw [popped_ok hc htake hgive]
          constructor
          · intro _ y' hy'
            cases hy'
            exact ⟨z, hgive⟩
          · intro _
            exact ⟨x, y, hc, htake, hgive⟩

end PopFront

/-- **A section, entered first or after a wait, loses no item exactly when it removes none,
or the move of the one it removes into the returned optional does not throw once the move out
of the container has succeeded.** -/
theorem keeps_iff (m : Moves T E) (op : Op T) (c : Core T) :
    (Keeps m c ((object T E).body (op, m) c) ∧ Keeps m c ((object T E).again (op, m) c)) ↔
      ∀ x y, front op c = some x → m.take x = .ok y → ∃ z, m.give y = .ok z := by
  change (Keeps m c (body m op c) ∧ Keeps m c (again m op c)) ↔ _
  rw [again_eq_body, and_self]
  cases hfront : front op c with
  | none =>
      constructor
      · intro _ x y hx
        cases hx
      · intro _
        exact keeps_of_front_none hfront
  | some x =>
      obtain ⟨xs, hc, hbody⟩ := body_of_front (m := m) hfront
      rw [hbody, keeps_popped_iff hc]
      constructor
      · intro h x' y hx
        cases hx
        exact h y
      · intro h y
        exact h x y rfl

/-- Moves of which only the last throws. -/
def fragile : Moves ℕ String := ⟨.ok, .ok, fun _ => .error "move"⟩

/-- The only item of a queue, popped in either way: an exception, and an empty queue. -/
theorem item_lost :
    let c : Core ℕ := ⟨false, [7]⟩
    body fragile .pop c = .done Core.empty (.error "move") .none ∧
      body fragile .tryPop c = .done Core.empty (.error "move") .none ∧
      ¬ Keeps fragile c (body fragile .pop c) ∧ ¬ Keeps fragile c (body fragile .tryPop c) := by
  refine ⟨rfl, rfl, ?_, ?_⟩
  · intro h
    cases h
  · intro h
    cases h

end ThrowingItems

end Jar.Concurrency
