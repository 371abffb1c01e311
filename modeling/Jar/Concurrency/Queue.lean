/-
# `Jar.Concurrency.Queue` — the blocking queue

`queue<T>` is a container, a cancellation flag, one mutex and one condition
variable.  Its five operations each have one critical section; `pop` waits in
its section for an item or for cancellation, `push` and `try_push` notify one
consumer after theirs, `clear` cancels, empties the container and notifies
everybody.  `try_pop` and `try_push` only try the mutex and give up when it is
refused.

The sections are functions of the container and the flag, written as the source
computes them; `object` hands them to the monitor machine, which adds the mutex,
the sleeping, the notifications and the interleaving of any number of threads.

| source            | here                        |
| :--               | :--                         |
| `pop`             | `popBody`, `popWait`        |
| `try_pop`         | `tryPopBody`, `refusal`     |
| `push`            | `pushBody`                  |
| `try_push`        | `tryPushBody`, `refusal`    |
| `clear`           | `clearBody`                 |
| `pop_front`       | `popFront`                  |

What is proved here is that the queue has no lost wake-up: `asleep_drained`.
-/
import Jar.Lib.Monitor

namespace Jar.Concurrency

open Jar.Lib

namespace Queue

/-! ## The operations

`pop` and `try_pop` differ in what they do when there is nothing to take, `push` and
`try_push` in whether they wait for the mutex.  What they share is `popFront`, and a
consumer that is woken runs the end of `pop` again. -/

/-- `m_is_cancelled` and `m_container`; the mutex and the condition variable
belong to the monitor. -/
structure Core (T : Type*) where
  isCancelled : Bool
  container : List T
  deriving DecidableEq, Repr

/-- The constructor: not cancelled, empty. -/
def Core.empty {T : Type*} : Core T := ⟨false, []⟩

inductive Op (T : Type*) where
  | pop
  | tryPop
  | push (item : T)
  | tryPush (item : T)
  | clear
  deriving DecidableEq, Repr

/-- What an operation returns: an optional item, `try_push`'s flag, or nothing. -/
inductive Ret (T : Type*) where
  | item (item : Option T)
  | pushed (ok : Bool)
  | unit
  deriving DecidableEq, Repr

variable {T : Type*}

/-- `pop_front`: the front item is moved out and its slot dropped.  On an empty
container the source would read past the end; `popWait_front` and
`tryPopBody_front` say that no caller does. -/
def popFront (c : Core T) : Option T × Core T :=
  match c.container with
  | [] => (none, c)
  | x :: xs => (some x, { c with container := xs })

/-- The predicate `pop` waits for. -/
def ready (c : Core T) : Bool := !c.container.isEmpty || c.isCancelled

/-- `pop` after its wait. -/
def popTail (c : Core T) : Monitor.Outcome (Core T) (Ret T) :=
  if c.isCancelled then .done c (.item none) .none
  else .done (popFront c).2 (.item (popFront c).1) .none

/-- The wait of `pop`: the predicate is tested before sleeping and after every wake-up. -/
def popWait (c : Core T) : Monitor.Outcome (Core T) (Ret T) :=
  if ready c then popTail c else .block

/-- `pop`, from taking the mutex on. -/
def popBody (c : Core T) : Monitor.Outcome (Core T) (Ret T) :=
  if c.container.isEmpty || !c.isCancelled then popWait c else popTail c

/-- `try_pop` once it has the mutex.  The flag is not looked at. -/
def tryPopBody (c : Core T) : Monitor.Outcome (Core T) (Ret T) :=
  if c.container.isEmpty then .done c (.item none) .none
  else .done (popFront c).2 (.item (popFront c).1) .none

def pushBody (item : T) (c : Core T) : Monitor.Outcome (Core T) (Ret T) :=
  .done { c with container := c.container ++ [item] } .unit .one

def tryPushBody (item : T) (c : Core T) : Monitor.Outcome (Core T) (Ret T) :=
  .done { c with container := c.container ++ [item] } (.pushed true) .one

def clearBody (_ : Core T) : Monitor.Outcome (Core T) (Ret T) :=
  .done ⟨true, []⟩ .unit .all

/-- What `try_pop` and `try_push` return when the mutex is refused; the others block on it. -/
def refusal : Op T → Option (Ret T)
  | .tryPop => some (.item none)
  | .tryPush _ => some (.pushed false)
  | _ => none

def body : Op T → Core T → Monitor.Outcome (Core T) (Ret T)
  | .pop => popBody
  | .tryPop => tryPopBody
  | .push item => pushBody item
  | .tryPush item => tryPushBody item
  | .clear => clearBody

/-- Only `pop` sleeps, so only `pop` is ever resumed. -/
def again : Op T → Core T → Monitor.Outcome (Core T) (Ret T)
  | .pop => popWait
  | op => body op

def object (T : Type*) : Monitor.Object (Core T) (Op T) (Ret T) where
  refusal := refusal
  body := body
  again := again

abbrev Pc (T : Type*) := Monitor.Pc (Op T) (Ret T)
abbrev State (ι T : Type*) := Monitor.State ι (Core T) (Op T) (Ret T)
abbrev Event (ι T : Type*) := Monitor.Event ι (Op T) (Ret T)

/-- Any number of threads on one fresh queue. -/
abbrev machine (ι T : Type*) [DecidableEq ι] : Machine (State ι T) (Event ι T) :=
  Monitor.machine ι (object T) Core.empty

/-! ## What the sections do

A section appends an item, takes the front one, throws all of them away, or leaves the
container as it is; `Effect` says which, together with what the caller is told and
whom it notifies. -/

/-- `pop` on a cancelled, non-empty queue skips the wait; the wait would not have
blocked either, so both ways agree. -/
theorem popBody_eq (c : Core T) : popBody c = popWait c := by
  cases c with
  | mk cancelled xs => cases cancelled <;> cases xs <;> rfl

theorem popWait_nil : popWait (⟨false, []⟩ : Core T) = .block := rfl

theorem popWait_front (x : T) (xs : List T) :
    popWait ⟨false, x :: xs⟩ = .done ⟨false, xs⟩ (.item (some x)) .none := rfl

theorem popWait_cancelled (xs : List T) :
    popWait ⟨true, xs⟩ = .done ⟨true, xs⟩ (.item none) .none := by
  cases xs <;> rfl

theorem tryPopBody_nil (b : Bool) :
    tryPopBody (⟨b, []⟩ : Core T) = .done ⟨b, []⟩ (.item none) .none := rfl

theorem tryPopBody_front (b : Bool) (x : T) (xs : List T) :
    tryPopBody ⟨b, x :: xs⟩ = .done ⟨b, xs⟩ (.item (some x)) .none := rfl

/-- The critical sections, case by case: everything the proofs below need to
know about the five operations. -/
inductive Effect (c : Core T) : Op T → Monitor.Outcome (Core T) (Ret T) → Prop
  | sleep : c.isCancelled = false → c.container = [] → Effect c .pop .block
  | cancelled : c.isCancelled = true → Effect c .pop (.done c (.item none) .none)
  | popped {x : T} {xs : List T} : c.isCancelled = false → c.container = x :: xs →
      Effect c .pop (.done { c with container := xs } (.item (some x)) .none)
  | empty : c.container = [] → Effect c .tryPop (.done c (.item none) .none)
  | tryPopped {x : T} {xs : List T} : c.container = x :: xs →
      Effect c .tryPop (.done { c with container := xs } (.item (some x)) .none)
  | pushed {x : T} :
      Effect c (.push x) (.done { c with container := c.container ++ [x] } .unit .one)
  | tryPushed {x : T} :
      Effect c (.tryPush x) (.done { c with container := c.container ++ [x] } (.pushed true) .one)
  | cleared : Effect c .clear (.done ⟨true, []⟩ .unit .all)

theorem popWait_effect (c : Core T) : Effect c .pop (popWait c) := by
  obtain ⟨b, xs⟩ := c
  cases b with
  | true => rw [popWait_cancelled]; exact .cancelled rfl
  | false =>
      cases xs with
      | nil => rw [popWait_nil]; exact .sleep rfl rfl
      | cons x xs => rw [popWait_front]; exact .popped rfl rfl

theorem body_effect (op : Op T) (c : Core T) : Effect c op (body op c) := by
  cases op with
  | pop => rw [body, popBody_eq]; exact popWait_effect c
  | tryPop =>
      obtain ⟨b, xs⟩ := c
      cases xs with
      | nil => rw [body, tryPopBody_nil]; exact .empty rfl
      | cons x xs => rw [body, tryPopBody_front]; exact .tryPopped rfl
  | push x => exact .pushed
  | tryPush x => exact .tryPushed
  | clear => exact .cleared

theorem again_eq_body (op : Op T) (c : Core T) : again op c = body op c := by
  cases op with
  | pop => exact (popBody_eq c).symm
  | tryPop => rfl
  | push item => rfl
  | tryPush item => rfl
  | clear => rfl

theorem again_effect (op : Op T) (c : Core T) : Effect c op (again op c) := by
  rw [again_eq_body]
  exact body_effect op c

/-! ## Who sleeps, who notifies, and who cancels

Only `pop` sleeps, a `push` tells one sleeper and `clear` tells all of them.
Cancellation is `clear`'s doing and is final. -/

theorem effect_of_emits {op : Op T} {r : Ret T} {n : Monitor.Signal}
    (h : (object T).Emits op r n) : ∃ c c', Effect c op (.done c' r n) := by
  obtain ⟨c, c', hb | ha⟩ := h
  · exact ⟨c, c', hb ▸ body_effect op c⟩
  · exact ⟨c, c', ha ▸ again_effect op c⟩

theorem blocks_pop {op : Op T} (h : (object T).Blocks op) : op = .pop := by
  obtain ⟨c, hc⟩ := h
  have heff : Effect c op .block := hc ▸ body_effect op c
  cases heff
  rfl

theorem emits_all {op : Op T} {r : Ret T} (h : (object T).Emits op r .all) :
    op = .clear ∧ r = .unit := by
  obtain ⟨c, c', heff⟩ := effect_of_emits h
  cases heff
  exact ⟨rfl, rfl⟩

theorem emits_one {op : Op T} {r : Ret T} (h : (object T).Emits op r .one) :
    ∃ x, (op = .push x ∧ r = .unit) ∨ (op = .tryPush x ∧ r = .pushed true) := by
  obtain ⟨c, c', heff⟩ := effect_of_emits h
  cases heff with
  | pushed => exact ⟨_, Or.inl ⟨rfl, rfl⟩⟩
  | tryPushed => exact ⟨_, Or.inr ⟨rfl, rfl⟩⟩

theorem Effect.stays_cancelled {c : Core T} {op : Op T} {o : Monitor.Outcome (Core T) (Ret T)}
    (h : Effect c op o) (hc : c.isCancelled = true) : (o.core c).isCancelled = true := by
  cases h with
  | cleared => rfl
  | _ => exact hc

theorem Effect.stays_open {c : Core T} {op : Op T} {o : Monitor.Outcome (Core T) (Ret T)}
    (h : Effect c op o) (hop : op ≠ .clear) : (o.core c).isCancelled = c.isCancelled := by
  cases h with
  | cleared => exact absurd rfl hop
  | _ => rfl

theorem Effect.cancels {c : Core T} {op : Op T} {o : Monitor.Outcome (Core T) (Ret T)}
    (h : Effect c op o) {r : Ret T}
    (hpc : o.pc op = .notifyAll .clear r ∨ o.pc op = .returned .clear r) :
    (o.core c).isCancelled = true := by
  cases h with
  | cleared => rfl
  | _ => rcases hpc with hpc | hpc <;> cases hpc

section Steps

variable {ι : Type*} [DecidableEq ι]

/-- What a step does to the container and the flag: nothing, or one section of the
operation its thread is in. -/
theorem next_effect {s : State ι T} {e : Event ι T} (he : s.enabled (object T) e) :
    (s.next (object T) e).core = s.core ∨
      ∃ op o, (s.pc e.thread).op = some op ∧ Effect s.core op o ∧
        (s.next (object T) e).core = o.core s.core ∧
        (s.next (object T) e).pc e.thread = o.pc op := by
  have hsrc := Monitor.enabled_source he
  have hself := Monitor.next_pc_self (object T) s e
  rcases Monitor.next_core (M := object T) (s := s) (e := e) with h | ⟨t, op, rfl, h⟩ |
    ⟨t, op, rfl, h⟩
  · exact Or.inl h
  · exact Or.inr ⟨op, _, by rw [hsrc]; rfl, body_effect op s.core, h, hself⟩
  · exact Or.inr ⟨op, _, by rw [hsrc]; rfl, again_effect op s.core, h, hself⟩

theorem next_isCancelled {s : State ι T} {e : Event ι T} (he : s.enabled (object T) e)
    (hc : s.core.isCancelled = true) : (s.next (object T) e).core.isCancelled = true := by
  rcases next_effect he with h | ⟨op, o, -, heff, h, -⟩
  · rw [h]; exact hc
  · rw [h]; exact heff.stays_cancelled hc

/-- A queue becomes cancelled by a thread that is in `clear`. -/
theorem cancelled_by {s : State ι T} {e : Event ι T} (he : s.enabled (object T) e)
    (hc : (s.next (object T) e).core.isCancelled = true) :
    s.core.isCancelled = true ∨ (s.pc e.thread).op = some .clear := by
  rcases next_effect he with h | ⟨op, o, hop, heff, h, -⟩
  · rw [h] at hc; exact Or.inl hc
  · by_cases hclear : op = .clear
    · subst hclear; exact Or.inr hop
    · rw [h, heff.stays_open hclear] at hc
      exact Or.inl hc

/-- A `clear` whose section is behind it has cancelled the queue. -/
def ClearsCancel (s : State ι T) : Prop :=
  ∀ t r, s.pc t = .notifyAll .clear r ∨ s.pc t = .returned .clear r → s.core.isCancelled = true

theorem clearsCancel {s : State ι T} (h : (machine ι T).Reachable s) : ClearsCancel s := by
  refine h.invariant (I := ClearsCancel) ?_ ?_
  · rintro s rfl t r (ht | ht) <;> cases ht
  · intro s e hr he hs t r ht
    change s.enabled (object T) e at he
    change ((s.next (object T) e).pc t = _ ∨ (s.next (object T) e).pc t = _) at ht
    show (s.next (object T) e).core.isCancelled = true
    by_cases hte : t = e.thread
    · subst hte
      rw [Monitor.next_pc_self] at ht
      cases e with
      | body t op =>
          rw [show (s.next (object T) (.body t op)).core = (body op s.core).core s.core from
            Monitor.finish_core s t op _]
          exact (body_effect op s.core).cancels ht
      | again t op =>
          rw [show (s.next (object T) (.again t op)).core = (again op s.core).core s.core from
            Monitor.finish_core s t op _]
          exact (again_effect op s.core).cancels ht
      | notifyAll t op r' =>
          rcases ht with ht | ht
          · cases ht
          · cases ht
            exact next_isCancelled he (hs t r (Or.inl he))
      | refuse t op r' =>
          rcases ht with ht | ht
          · cases ht
          · cases ht
            cases he.2
      | notifyOne t op r' u =>
          rcases ht with ht | ht
          · cases ht
          · cases ht
            -- `clear` does not notify one
            have hem : (object T).Emits .clear r .one := by
              have hsound := Monitor.pc_sound hr t
              rwa [he.1] at hsound
            obtain ⟨x, ⟨hx, -⟩ | ⟨hx, -⟩⟩ := emits_one hem <;> cases hx
      | _ => rcases ht with ht | ht <;> cases ht
    · rcases Monitor.next_pc_of_ne he hte with hsame | ⟨op, -, hnew⟩
      · rw [hsame] at ht
        exact next_isCancelled he (hs t r ht)
      · rw [hnew] at ht
        rcases ht with ht | ht <;> cases ht

end Steps

/-! ## No wake-up is lost

The items are the work, cancellation shuts the queue.  The one thing to see is
that a woken `pop` which finishes on an open queue has taken an item: that is
the unit it was answering for. -/

/-- The items a queue holds, as work announced by its notifications. -/
def supply (T : Type*) : Monitor.Supply (object T) where
  work c := c.container.length
  shut c := c.isCancelled = true
  body_block op c h := by
    have heff : Effect c op .block := h ▸ body_effect op c
    cases heff with
    | sleep hopen hnil => exact ⟨by simp [hopen], by simp [hnil]⟩
  again_block op c _ h := by
    have heff : Effect c op .block := h ▸ again_effect op c
    cases heff with
    | sleep hopen hnil => exact ⟨by simp [hopen], by simp [hnil]⟩
  body_done op c c' r n h hn hopen := by
    have heff : Effect c op (.done c' r n) := h ▸ body_effect op c
    cases heff with
    | cancelled hc => exact absurd hc hopen
    | popped _ hx => exact ⟨hopen, by simp [hx]; omega⟩
    | empty _ => exact ⟨hopen, Nat.le_add_right _ _⟩
    | tryPopped hx => exact ⟨hopen, by simp [hx]; omega⟩
    | pushed => exact ⟨hopen, by simp [Monitor.Signal.weight]⟩
    | tryPushed => exact ⟨hopen, by simp [Monitor.Signal.weight]⟩
    | cleared => exact absurd rfl hn
  again_done op c c' r n hop h _ hopen := by
    obtain rfl := blocks_pop hop
    have heff : Effect c .pop (.done c' r n) := h ▸ again_effect .pop c
    cases heff with
    | cancelled hc => exact absurd hc hopen
    | popped _ hx => exact ⟨hopen, by simp [hx]⟩

/-- A caller between its critical section and its notification. -/
def AboutToNotify : Pc T → Prop
  | .notifyOne _ _ | .notifyAll _ _ => True
  | _ => False

/-- A consumer that was woken and has not run its critical section again. -/
def OnItsWayBack : Pc T → Prop
  | .woken _ | .rechecking _ => True
  | _ => False

instance : DecidablePred (AboutToNotify (T := T))
  | .notifyOne _ _ | .notifyAll _ _ => isTrue trivial
  | .idle | .calling _ | .holding _ | .asleep _ | .woken _ | .rechecking _ | .returned _ _ =>
      isFalse id

instance : DecidablePred (OnItsWayBack (T := T))
  | .woken _ | .rechecking _ => isTrue trivial
  | .idle | .calling _ | .holding _ | .asleep _ | .notifyOne _ _ | .notifyAll _ _
  | .returned _ _ => isFalse id

variable {ι : Type*} [DecidableEq ι]

/-- **No lost wake-up.**  When no caller stands between its critical section and
its notification and no woken consumer is on its way back, a sleeping consumer
means that the container is empty and the queue not cancelled. -/
theorem asleep_drained {s : State ι T} (h : (machine ι T).Reachable s)
    (hnotify : ∀ t, ¬ AboutToNotify (s.pc t)) (hback : ∀ t, ¬ OnItsWayBack (s.pc t))
    (hs : ∃ t op, s.pc t = .asleep op) :
    s.core.container = [] ∧ s.core.isCancelled = false := by
  have hall : ¬ s.Announced := by
    rintro ⟨t, op, r, ht⟩
    have hno := hnotify t
    rw [ht] at hno
    exact hno trivial
  have hdue : ∀ t, Monitor.due (s.pc t) = 0 := by
    intro t
    have h₁ := hnotify t
    have h₂ := hback t
    cases hpc : s.pc t with
    | notifyOne op r => rw [hpc] at h₁; exact absurd trivial h₁
    | woken op => rw [hpc] at h₂; exact absurd trivial h₂
    | rechecking op => rw [hpc] at h₂; exact absurd trivial h₂
    | _ => rfl
  obtain ⟨hopen, hzero⟩ := ((supply T).covered h).settled hs hall hdue
  exact ⟨List.eq_nil_of_length_eq_zero hzero, by simpa [supply] using hopen⟩

/-- A consumer sleeps, an item is pushed, the notification wakes the consumer, a
second consumer takes the item first, and the woken one goes back to sleep. -/
def stolenItem : List (Event (Fin 3) ℕ) :=
  [.call 0 .pop, .lock 0 .pop, .body 0 .pop,
   .call 1 (.push 7), .lock 1 (.push 7), .body 1 (.push 7),
   .notifyOne 1 (.push 7) .unit (some 0),
   .call 2 .tryPop, .lock 2 .tryPop, .body 2 .tryPop,
   .relock 0 .pop, .again 0 .pop]

theorem asleep_drained_stolenItem :
    ((machine (Fin 3) ℕ).after (Monitor.State.initial Core.empty) stolenItem).core =
      Core.empty := by
  obtain ⟨hc, hf⟩ := asleep_drained
    (s := (machine (Fin 3) ℕ).after (Monitor.State.initial Core.empty) stolenItem)
    (Machine.Reachable.of_run rfl (by decide))
    (by decide) (by decide) ⟨0, .pop, by decide⟩
  exact congrArg₂ Core.mk hf hc

end Queue

end Jar.Concurrency
