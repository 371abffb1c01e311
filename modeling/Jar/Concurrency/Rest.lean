/-
# `Jar.Concurrency.Rest` — a pool that makes no more steps has done its work

Nobody in this library waits for anything but a mutex or a condition variable,
so what cannot move is asleep (`Jar.Lib.Progress`).  That is carried up through
the layers here.  A queue at rest has nobody in it but sleeping consumers of an
open, empty queue.  A scheduler at rest has nobody inside `schedule()` or
`clear()`, and in `scheduled()` only threads asleep on their home queue.

For a pool this means that it stops only when it is done.  Its tasks apart, a
pool that cannot move either has not been destroyed, and then every task given to
it has been executed, exactly once, and all workers sleep; or its destructor has
joined them all (`rest_done`).  No worker, no call of `schedule` and no
destructor hangs half-way, whatever the interleaving was.
-/
import Jar.Lib.Progress
import Jar.Concurrency.IdleWorkers
import Jar.Concurrency.TaskCopies
import Mathlib.Data.Fintype.Option

namespace Jar.Concurrency

open Jar.Lib

/-! ## The queue

Every operation but `pop` comes back, with a result of its own kind, and `pop` sleeps
only while the queue is open and empty. -/

namespace Queue

variable {ι T : Type*} [DecidableEq ι]

/-- The kind of result an operation has. -/
def Returns : Op T → Ret T → Prop
  | .pop, .item _ | .tryPop, .item _ | .tryPush _, .pushed _ => True
  | .push _, .unit | .clear, .unit => True
  | _, _ => False

theorem returns_of_sound {op : Op T} {r : Ret T}
    (h : (Monitor.Pc.returned op r : Pc T).Sound (object T)) : Returns op r := by
  rcases h with hrefusal | ⟨n, hemits⟩
  · cases op with
    | tryPop | tryPush => cases hrefusal; trivial
    | pop | push | clear => cases hrefusal
  · obtain ⟨c, c', heff⟩ := effect_of_emits hemits
    cases heff <;> trivial

/-- A thread that is outside, back with its result, or asleep in `pop` on an open and
empty queue. -/
def Resting (s : State ι T) (t : ι) : Prop :=
  s.pc t = .idle ∨ (∃ op r, s.pc t = .returned op r ∧ Returns op r) ∨
    s.pc t = .asleep .pop ∧ s.core = Core.empty

theorem Resting.of_atRest {s : State ι T} (h : (machine ι T).Reachable s)
    (hrest : Monitor.AtRest (object T) s) (t : ι) : Resting s t := by
  unfold Resting
  have hsound := Monitor.pc_sound h t
  have hrests := hrest.rests (Monitor.exclusive h) t
  cases hpc : s.pc t with
  | idle => exact Or.inl rfl
  | returned op r =>
      rw [hpc] at hsound
      exact Or.inr (Or.inl ⟨op, r, rfl, returns_of_sound hsound⟩)
  | asleep op =>
      rw [hpc] at hsound
      obtain rfl := blocks_pop hsound
      obtain ⟨hopen, hzero⟩ := hrest.drained (S := supply T) h hpc
      have hflag : s.core.isCancelled = false := Bool.eq_false_iff.mpr hopen
      have hnil : s.core.container = [] := List.eq_nil_of_length_eq_zero hzero
      exact Or.inr (Or.inr ⟨rfl, congrArg₂ Core.mk hflag hnil⟩)
  | _ =>
      rw [hpc] at hrests
      cases hrests

/-- **In a queue at rest** a thread is outside, back with its result, or asleep in
`pop`, and the queue is then open and empty. -/
theorem rest_drained {s : State ι T} (h : (machine ι T).Reachable s)
    (hrest : Monitor.AtRest (object T) s) (t : ι) :
    s.pc t = .idle ∨ (∃ op r, s.pc t = .returned op r ∧ Returns op r) ∨
      s.pc t = .asleep .pop ∧ s.core = Core.empty :=
  Resting.of_atRest h hrest t

/-- A consumer asleep, another back with an item, and a producer whose `try_push` was
refused the mutex. -/
def restingThree : List (Event (Option Bool) ℕ) :=
  [.call none (.push 7), .lock none (.push 7), .body none (.push 7),
   .notifyOne none (.push 7) .unit none, .call (some true) .pop, .lock (some true) .pop,
   .body (some true) .pop, .ret none (.push 7) .unit, .call (some false) .pop,
   .lock (some false) .pop, .call none (.tryPush 9), .refuse none (.tryPush 9) (.pushed false),
   .body (some false) .pop]

theorem rest_drained_restingThree :
    ((machine (Option Bool) ℕ).after (Monitor.State.initial Core.empty) restingThree).core =
      Core.empty := by
  have hrests := rest_drained (ι := Option Bool) (T := ℕ)
    (s := (machine (Option Bool) ℕ).after (Monitor.State.initial Core.empty) restingThree)
    (Machine.Reachable.of_run rfl (by decide)) (Monitor.atRest_of_rests (by decide)) (some false)
  rcases hrests with hpc | ⟨op, r, hpc, -⟩ | ⟨-, hcore⟩
  · exact absurd hpc (by decide)
  · cases hpc
  · exact hcore

theorem Effect.gives_nothing {c : Core T} {o : Monitor.Outcome (Core T) (Ret T)} {op : Op T}
    (h : Effect c op o) (hpc : o.pc op = .returned .pop (.item none)) :
    (o.core c).isCancelled = true := by
  cases h with
  | cancelled hc => exact hc
  | _ => cases hpc

/-- A `pop` that returns nothing returns from a cancelled queue. -/
theorem nothing_cancelled {s : State ι T} (h : (machine ι T).Reachable s) {t : ι}
    (ht : s.pc t = .returned .pop (.item none)) : s.core.isCancelled = true := by
  refine h.invariant
    (I := fun s => ∀ t, s.pc t = .returned .pop (.item none) → s.core.isCancelled = true)
    ?_ ?_ t ht
  · rintro s rfl t ht
    cases ht
  · intro s e hr he ih t ht
    change s.enabled (object T) e at he
    change (s.next (object T) e).pc t = _ at ht
    show (s.next (object T) e).core.isCancelled = true
    by_cases hte : t = e.thread
    case neg =>
      rcases Monitor.next_pc_of_ne he hte with hsame | ⟨op, -, hnew⟩
      · rw [hsame] at ht
        exact next_isCancelled he (ih t ht)
      · rw [hnew] at ht
        cases ht
    subst hte
    rw [Monitor.next_pc_self] at ht
    have hsound := Monitor.pc_sound hr e.thread
    rw [Monitor.enabled_source he] at hsound
    cases e with
    | body t op =>
        rw [show (s.next (object T) (.body t op)).core = (body op s.core).core s.core from
          Monitor.finish_core s t op _]
        exact (body_effect op s.core).gives_nothing ht
    | again t op =>
        rw [show (s.next (object T) (.again t op)).core = (again op s.core).core s.core from
          Monitor.finish_core s t op _]
        exact (again_effect op s.core).gives_nothing ht
    | refuse t op r =>
        cases ht
        cases he.2
    | notifyOne t op r u =>
        -- `pop` notifies nobody
        cases ht
        obtain ⟨x, ⟨hx, -⟩ | ⟨hx, -⟩⟩ := emits_one hsound <;> cases hx
    | notifyAll t op r =>
        cases ht
        obtain ⟨hx, -⟩ := emits_all hsound
        cases hx
    | _ => cases ht

end Queue

/-! ## The scheduler

A caller that is back from an operation can go on, and one that has not entered it can
call it.  So who cannot move inside the scheduler is asleep, and that is in `pop`,
which only `scheduled()` calls, on the home queue. -/

namespace RrScheduler

variable {n : QueueCount} {ι τ κ : Type} [DecidableEq ι] [DecidableEq τ] [DecidableEq κ]
variable {s : State n ι τ κ}

/-- The steps taken inside the three functions: their calls, the return from
`scheduled()` and spurious wake-ups are not among them. -/
def own : Event n ι τ κ → Bool
  | .ctl (.enter _) | .ctl (.leave _ _) | .ctl (.schedule _) | .ctl (.clear _) => false
  | .ctl _ => true
  | .inner _ e => e.own

/-- Nobody inside the scheduler can take a step. -/
def AtRest (s : State n ι τ κ) : Prop :=
  ∀ e, own e = true → ¬ (machine n ι τ κ).Enabled s e

/-- The loop of `clear()` stays within the queues. -/
def ClearPc.InRange (n : QueueCount) : ClearPc → Prop
  | .looping j => j ≤ n.size
  | .clearing j => j < n.size
  | _ => True

theorem clear_inRange (h : (machine n ι τ κ).Reachable s) (k : κ) :
    (s.ctl.clear k).InRange n := by
  refine h.invariant (I := fun s => ∀ k, (s.ctl.clear k).InRange n) ?_ ?_ k
  · rintro s ⟨⟨threadIndex, hctl⟩, -⟩ k
    rw [hctl]
    trivial
  · intro s e _ he ih k
    cases e with
    | inner q m => exact ih k
    | ctl e =>
        show ((step s.ctl e).clear k).InRange n
        by_cases hk : e.caller = .clear k
        case neg =>
          rw [step_clear_of_ne s.ctl e hk]
          exact ih k
        have hown : ∀ p : ClearPc, p.InRange n → (Function.update s.ctl.clear k p k).InRange n := by
          intro p hp
          rw [Function.update_self]
          exact hp
        cases e with
        | clear l => cases hk; exact hown _ (Nat.zero_le _)
        | clearQueue l j => cases hk; exact hown _ j.isLt
        | clearQueueRet l j => cases hk; exact hown _ j.isLt
        | clearRet l => cases hk; exact hown _ trivial
        | _ => cases hk

/-- What a scheduler at rest looks like. -/
structure Rests (s : State n ι τ κ) : Prop where
  schedule : ∀ x, s.ctl.schedule x = .uncalled ∨ s.ctl.schedule x = .returned
  clear : ∀ k, s.ctl.clear k = .uncalled ∨ s.ctl.clear k = .returned
  scheduled : ∀ i, s.ctl.scheduled i = .outside ∨ (∃ task, s.ctl.scheduled i = .done task) ∨
    s.ctl.scheduled i = .waiting ∧
      (s.obj (slot n (s.ctl.index i))).pc (.scheduled i) = .asleep .pop ∧
      (s.obj (slot n (s.ctl.index i))).core = Queue.Core.empty

theorem AtRest.objects (hrest : AtRest s) :
    Client.ObjectsAtRest (client n ι τ κ) (Queue.object τ) s :=
  fun q e ho => hrest (.inner q e) ho

theorem callable (h : (machine n ι τ κ).Reachable s) {u : Caller ι τ κ}
    (hu : site n s.ctl u = none) (q : Fin n.size) : (s.obj q).pc u = .idle :=
  Client.Bound.idle (P := client n ι τ κ) (t := u) (agree h) hu q

/-- A caller in an operation that cannot sleep is back from it, with a result of the
kind the operation has. -/
theorem AtRest.back (hrest : AtRest s) (h : (machine n ι τ κ).Reachable s)
    {u : Caller ι τ κ} {q : Fin n.size} {op : Queue.Op τ} (hu : site n s.ctl u = some (q, op))
    (hop : op ≠ .pop) : ∃ r, (s.obj q).pc u = .returned op r ∧ Queue.Returns op r := by
  rcases hrest.objects.inside (lawful n ι τ κ) h hu with ⟨-, hblocks⟩ | ⟨r, hr⟩
  · exact absurd (Queue.blocks_pop hblocks) hop
  · have hsound := Monitor.pc_sound (Client.obj_reachable h q) u
    rw [hr] at hsound
    exact ⟨r, hr, Queue.returns_of_sound hsound⟩

theorem AtRest.schedule (hrest : AtRest s) (h : (machine n ι τ κ).Reachable s) (x : τ) :
    s.ctl.schedule x = .uncalled ∨ s.ctl.schedule x = .returned := by
  have hidle := callable h (u := .schedule x)
  cases hx : s.ctl.schedule x with
  | uncalled => exact Or.inl rfl
  | returned => exact Or.inr rfl
  | entered => exact absurd ⟨hx, trivial⟩ (hrest (.ctl (.fetchPush x)) rfl)
  | looping index k =>
      have hcall := hidle (by simp [site, hx])
      by_cases hk : k.toNat = tryNTimes n
      · exact absurd ⟨⟨hx, hk⟩, hcall _⟩ (hrest (.ctl (.push x index k)) rfl)
      · exact absurd ⟨⟨hx, hk⟩, hcall _⟩ (hrest (.ctl (.tryPush x index k)) rfl)
  | trying index k =>
      have hsite : site n s.ctl (.schedule x) = some (slot n (index + k), .tryPush x) := by
        simp [site, hx]
      obtain ⟨r, hr, hreturns⟩ := hrest.back h hsite (by simp)
      cases r with
      | pushed ok => exact absurd ⟨hx, hr⟩ (hrest (.ctl (.tryPushRet x index k ok)) rfl)
      | item | unit => cases hreturns
  | pushing index =>
      have hsite : site n s.ctl (.schedule x) = some (slot n index, .push x) := by
        simp [site, hx]
      obtain ⟨r, hr, hreturns⟩ := hrest.back h hsite (by simp)
      cases r with
      | unit => exact absurd ⟨hx, hr⟩ (hrest (.ctl (.pushRet x index)) rfl)
      | item | pushed => cases hreturns

theorem AtRest.clear (hrest : AtRest s) (h : (machine n ι τ κ).Reachable s) (k : κ) :
    s.ctl.clear k = .uncalled ∨ s.ctl.clear k = .returned := by
  have hrange := clear_inRange h k
  cases hk : s.ctl.clear k with
  | uncalled => exact Or.inl rfl
  | returned => exact Or.inr rfl
  | looping j =>
      rw [hk] at hrange
      rcases Nat.lt_or_eq_of_le hrange with hlt | rfl
      · have hcall := callable h (u := .clear k) (by simp [site, hk])
        exact absurd ⟨hk, hcall ⟨j, hlt⟩⟩ (hrest (.ctl (.clearQueue k ⟨j, hlt⟩)) rfl)
      · exact absurd ⟨hk, trivial⟩ (hrest (.ctl (.clearRet k)) rfl)
  | clearing j =>
      rw [hk] at hrange
      have hlt : j < n.size := hrange
      have hsite : site n s.ctl (.clear k) = some (⟨j, hlt⟩, .clear) := by simp [site, hk, hlt]
      obtain ⟨r, hr, hreturns⟩ := hrest.back h hsite (by simp)
      cases r with
      | unit => exact absurd ⟨hk, hr⟩ (hrest (.ctl (.clearQueueRet k ⟨j, hlt⟩)) rfl)
      | item | pushed => cases hreturns

theorem AtRest.scheduled (hrest : AtRest s) (h : (machine n ι τ κ).Reachable s) (i : ι) :
    s.ctl.scheduled i = .outside ∨ (∃ task, s.ctl.scheduled i = .done task) ∨
      s.ctl.scheduled i = .waiting ∧
        (s.obj (slot n (s.ctl.index i))).pc (.scheduled i) = .asleep .pop ∧
        (s.obj (slot n (s.ctl.index i))).core = Queue.Core.empty := by
  have hidle := callable h (u := .scheduled i)
  cases hi : s.ctl.scheduled i with
  | outside => exact Or.inl rfl
  | done task => exact Or.inr (Or.inl ⟨task, rfl⟩)
  | entered =>
      by_cases hindex : s.ctl.threadIndex i = none
      · exact absurd ⟨⟨hi, hindex⟩, trivial⟩ (hrest (.ctl (.initIndex i)) rfl)
      · exact absurd ⟨⟨hi, hindex⟩, trivial⟩ (hrest (.ctl (.readIndex i)) rfl)
  | scanning k =>
      have hcall := hidle (by simp [site, hi])
      by_cases hk : k.toNat = n.size
      · exact absurd ⟨⟨hi, hk⟩, hcall _⟩ (hrest (.ctl (.pop i k)) rfl)
      · exact absurd ⟨⟨hi, hk⟩, hcall _⟩ (hrest (.ctl (.tryPop i k)) rfl)
  | trying k =>
      have hsite : site n s.ctl (.scheduled i) = some (slot n (s.ctl.index i + k), .tryPop) := by
        simp [site, hi]
      obtain ⟨r, hr, hreturns⟩ := hrest.back h hsite (by simp)
      cases r with
      | item task => exact absurd ⟨hi, hr⟩ (hrest (.ctl (.tryPopRet i k task)) rfl)
      | pushed | unit => cases hreturns
  | waiting =>
      have hsite : site n s.ctl (.scheduled i) = some (slot n (s.ctl.index i), .pop) := by
        simp [site, hi]
      have hop := (agree h (slot n (s.ctl.index i)) (.scheduled i) .pop).mpr hsite
      rcases Queue.Resting.of_atRest (Client.obj_reachable h (slot n (s.ctl.index i)))
        (hrest.objects.obj _) (.scheduled i) with hpc | ⟨op, r, hpc, hreturns⟩ | hasleep
      · rw [hpc] at hop
        cases hop
      · rw [hpc] at hop
        cases hop
        cases r with
        | item task => exact absurd ⟨hi, hpc⟩ (hrest (.ctl (.popRet i task)) rfl)
        | pushed | unit => cases hreturns
      · exact Or.inr (Or.inr ⟨rfl, hasleep⟩)

/-- **Nobody hangs inside the scheduler**, but for threads in `scheduled()` that sleep
on their home queue while it is open and empty. -/
theorem AtRest.rests (hrest : AtRest s) (h : (machine n ι τ κ).Reachable s) : Rests s :=
  ⟨hrest.schedule h, hrest.clear h, hrest.scheduled h⟩

theorem Rests.atRest (hrests : Rests s) (h : (machine n ι τ κ).Reachable s) : AtRest s := by
  intro e ho he
  cases e with
  | inner q m =>
      have hsrc : (s.obj q).pc m.thread = m.source := Monitor.enabled_source he.2
      obtain ⟨op, -, hsite⟩ := (agree h).inner_site he
      change site n s.ctl m.thread = _ at hsite
      cases hu : m.thread with
      | schedule x =>
          rw [hu] at hsite
          rcases hrests.schedule x with hx | hx <;> simp [site, hx] at hsite
      | clear k =>
          rw [hu] at hsite
          rcases hrests.clear k with hk | hk <;> simp [site, hk] at hsite
      | scheduled i =>
          rw [hu] at hsite hsrc
          rcases hrests.scheduled i with hi | ⟨task, hi⟩ | ⟨hi, hasleep, -⟩
          · simp [site, hi] at hsite
          · simp [site, hi] at hsite
          · simp only [site, hi, Option.some.injEq, Prod.mk.injEq] at hsite
            rw [hsite.1, hsrc] at hasleep
            cases m with
            | spurious => cases ho
            | _ => cases hasleep
  | ctl e =>
      obtain ⟨hg, hact⟩ := id he
      cases e with
      | enter | leave | schedule | clear => cases ho
      | fetchPush x | tryPushRet x | pushRet x =>
          have hx : s.ctl.schedule x = _ := hg
          rcases hrests.schedule x with hold | hold <;> rw [hx] at hold <;> cases hold
      | tryPush x | push x =>
          have hx := hg.1
          rcases hrests.schedule x with hold | hold <;> rw [hx] at hold <;> cases hold
      | clearQueue k | clearQueueRet k | clearRet k =>
          have hk : s.ctl.clear k = _ := hg
          rcases hrests.clear k with hold | hold <;> rw [hk] at hold <;> cases hold
      | initIndex i | readIndex i | tryPop i | pop i =>
          have hi := hg.1
          rcases hrests.scheduled i with hold | ⟨task, hold⟩ | ⟨hold, -, -⟩ <;>
            rw [hi] at hold <;> cases hold
      | tryPopRet i =>
          have hi : s.ctl.scheduled i = _ := hg
          rcases hrests.scheduled i with hold | ⟨task, hold⟩ | ⟨hold, -, -⟩ <;>
            rw [hi] at hold <;> cases hold
      | popRet i task =>
          have hi : s.ctl.scheduled i = .waiting := hg
          have hreturned : (s.obj (slot n (s.ctl.index i))).pc (.scheduled i) =
              .returned .pop (.item task) := hact
          rcases hrests.scheduled i with hold | ⟨task', hold⟩ | ⟨-, hasleep, -⟩
          · rw [hi] at hold
            cases hold
          · rw [hi] at hold
            cases hold
          · rw [hreturned] at hasleep
            cases hasleep

/-- **What it means for a scheduler to be at rest**: nobody is inside `schedule()` or
`clear()`, and in `scheduled()` only threads asleep at home on an open, empty queue. -/
theorem nobody_hangs (h : (machine n ι τ κ).Reachable s) : AtRest s ↔ Rests s :=
  ⟨fun hrest => hrest.rests h, fun hrests => hrests.atRest h⟩

/-- A thread goes to sleep at home, and nobody else is there. -/
def sleepsAtHome : List (Event QueueCount.two Bool Unit Unit) :=
  [.ctl (.enter false), .ctl (.initIndex false),
   .ctl (.tryPop false 0), .inner 0 (.refuse (.scheduled false) .tryPop (.item none)),
   .ctl (.tryPopRet false 0 none),
   .ctl (.tryPop false 1), .inner 1 (.lock (.scheduled false) .tryPop),
   .inner 1 (.body (.scheduled false) .tryPop), .ctl (.tryPopRet false 1 none),
   .ctl (.pop false 2), .inner 0 (.lock (.scheduled false) .pop),
   .inner 0 (.body (.scheduled false) .pop)]

def slept : State QueueCount.two Bool Unit Unit :=
  (machine QueueCount.two Bool Unit Unit).after
    ⟨.initial fun _ => none, fun _ => Monitor.State.initial Queue.Core.empty⟩ sleepsAtHome

theorem slept_reachable : (machine QueueCount.two Bool Unit Unit).Reachable slept :=
  ⟨_, ⟨⟨_, rfl⟩, rfl⟩, sleepsAtHome, by decide, rfl⟩

theorem nobody_hangs_slept : AtRest slept :=
  (nobody_hangs slept_reachable).mpr ⟨by decide, by decide, Bool.forall_bool.mpr
    ⟨Or.inr (Or.inr ⟨by decide, by decide, by decide⟩), Or.inl (by decide)⟩⟩

/-- `scheduled()` gives no task only when some queue has been cancelled. -/
theorem nothing_cancelled (h : (machine n ι τ κ).Reachable s) {i : ι}
    (hi : s.ctl.scheduled i = .done none) : ∃ q, cancelled s q = true := by
  refine h.invariant
    (I := fun s => ∀ i, s.ctl.scheduled i = .done none → ∃ q, cancelled s q = true) ?_ ?_ i hi
  · rintro s ⟨⟨threadIndex, hctl⟩, -⟩ i hi
    rw [hctl] at hi
    cases hi
  · intro s e hr he ih i hi
    have hkeep : (∃ q, cancelled s q = true) →
        ∃ q, cancelled ((machine n ι τ κ).next s e) q = true :=
      fun ⟨q, hq⟩ => ⟨q, cancelled_next he hq⟩
    cases e with
    | inner q m => exact hkeep (ih i hi)
    | ctl e =>
        change (step s.ctl e).scheduled i = .done none at hi
        by_cases hcaller : e.caller = .scheduled i
        case neg =>
          rw [step_scheduled_of_ne s.ctl e hcaller] at hi
          exact hkeep (ih i hi)
        obtain ⟨hg, hact⟩ := id he
        cases e with
        | popRet j task =>
            cases hcaller
            simp only [step, Control.setScheduled, Function.update_self] at hi
            cases hi
            exact hkeep ⟨_, Queue.nothing_cancelled (Client.obj_reachable hr _) hact⟩
        | tryPopRet j k task =>
            cases hcaller
            simp only [step, Control.setScheduled, Function.update_self] at hi
            cases task <;> cases hi
        | enter j | initIndex j | readIndex j | tryPop j k | pop j k | leave j task =>
            cases hcaller
            simp [step, Control.setScheduled] at hi
        | _ => cases hcaller

end RrScheduler

/-! ## The pool -/

namespace ThreadPool

open RrScheduler (QueueCount slot)

variable {n : QueueCount} {τ : Type} [DecidableEq τ] {s : State n τ} {e : Event n τ}

/-- The steps the pool takes of its own accord.  The calls of `schedule` and of the
destructor come from outside, a task ends when it wants, and a spurious wake-up may
never come. -/
def own : Event n τ → Bool
  | .sched (.ctl (.schedule _)) | .destroy | .finish _ _ => false
  | .sched (.ctl _) => true
  | .sched (.inner _ e) => e.own
  | _ => true

/-- The pool can take no step of its own. -/
def AtRest (s : State n τ) : Prop := ∀ e, own e = true → ¬ enabled s e

theorem cleared_next (h : s.sched.ctl.clear () ≠ .uncalled) :
    (next s e).sched.ctl.clear () ≠ .uncalled := by
  rw [sched_next]
  cases hb : seen e with
  | none => exact h
  | some b =>
      cases b with
      | inner q m => exact h
      | ctl b => exact RrScheduler.step_called b h

/-- A worker leaves `run()` only when the destructor has begun. -/
theorem exited_cleared (h : (machine n τ).Reachable s) {w : Fin n.size}
    (hw : s.run w = .exited) : s.sched.ctl.clear () ≠ .uncalled := by
  refine h.invariant
    (I := fun s => ∀ w, s.run w = .exited → s.sched.ctl.clear () ≠ .uncalled) ?_ ?_ w hw
  · intro s hs w hw
    rw [show s = State.initial n τ from hs] at hw
    cases hw
  · intro s e hr he ih w hw
    change enabled s e at he
    refine cleared_next ?_
    have hother : ∀ (v : Fin n.size) (p : RunPc τ), p ≠ .exited →
        Function.update s.run v p w = .exited → s.sched.ctl.clear () ≠ .uncalled := by
      intro v p hp hv
      rcases eq_or_ne w v with rfl | hne
      · rw [Function.update_self] at hv
        exact absurd hv hp
      · rw [Function.update_of_ne hne] at hv
        exact ih w hv
    cases e with
    | ask v old => exact hother v (.asking old) nofun hw
    | finish v x => exact hother v (.loop (some x)) nofun hw
    | got v old task =>
        cases task with
        | some x => exact hother v (.running x) nofun hw
        | none =>
            have hdone : s.sched.ctl.scheduled v = .done none := he.2.1
            obtain ⟨q, hq⟩ := RrScheduler.nothing_cancelled (sched_reachable hr) hdone
            obtain ⟨k, hk⟩ := RrScheduler.clear_called (sched_reachable hr) hq
            exact hk
    | _ => exact ih w hw

/-- Where the destructor stands, and how far its call of `clear()` then is. -/
structure Destroying (s : State n τ) : Prop where
  alive : s.join = .alive ↔ s.sched.ctl.clear () = .uncalled
  cleared : s.join ≠ .alive → s.join ≠ .clearing → s.sched.ctl.clear () = .returned
  joining : ∀ j, s.join = .joining j → j ≤ n.size

theorem clear_step {c : RrScheduler.Control (Fin n.size) τ Unit}
    {e : RrScheduler.Step n (Fin n.size) τ Unit} (hg : RrScheduler.guard n c e) :
    (RrScheduler.step c e).clear () = c.clear () ∨ e = .clear () ∨
      c.clear () ≠ .uncalled ∧ c.clear () ≠ .returned ∧
        (RrScheduler.step c e).clear () ≠ .uncalled := by
  by_cases hcaller : e.caller = .clear ()
  case neg => exact Or.inl (RrScheduler.step_clear_of_ne c e hcaller)
  have hunder : ∀ {p p' : RrScheduler.ClearPc}, c.clear () = p → p ≠ .uncalled → p ≠ .returned →
      p' ≠ .uncalled → c.clear () ≠ .uncalled ∧ c.clear () ≠ .returned ∧
        Function.update c.clear () p' () ≠ .uncalled := by
    intro p p' hp huncalled hreturned hp'
    rw [hp, Function.update_self]
    exact ⟨huncalled, hreturned, hp'⟩
  cases e with
  | clear k => exact Or.inr (Or.inl rfl)
  | clearQueue k j => exact Or.inr (Or.inr (hunder hg nofun nofun nofun))
  | clearQueueRet k j => exact Or.inr (Or.inr (hunder hg nofun nofun nofun))
  | clearRet k => exact Or.inr (Or.inr (hunder hg nofun nofun nofun))
  | _ => cases hcaller

omit [DecidableEq τ] in
theorem Destroying.keep {s' : State n τ} (h : Destroying s) (hjoin : s'.join = s.join)
    (huncalled : s'.sched.ctl.clear () = .uncalled ↔ s.sched.ctl.clear () = .uncalled)
    (hreturned : s.sched.ctl.clear () = .returned → s'.sched.ctl.clear () = .returned) :
    Destroying s' := by
  refine ⟨by rw [hjoin, huncalled]; exact h.alive, fun halive hclearing => ?_, fun j hj => ?_⟩
  · rw [hjoin] at halive hclearing
    exact hreturned (h.cleared halive hclearing)
  · exact h.joining j (hjoin ▸ hj)

omit [DecidableEq τ] in
theorem Destroying.joinStep (hret : s.sched.ctl.clear () = .returned) {p : JoinPc}
    (halive : p ≠ .alive) (hle : ∀ j, p = .joining j → j ≤ n.size) :
    Destroying { s with join := p } := by
  have hcalled : s.sched.ctl.clear () ≠ .uncalled := by rw [hret]; exact nofun
  exact ⟨iff_of_false halive hcalled, fun _ _ => hret, hle⟩

theorem Destroying.next (h : Destroying s) (he : enabled s e) : Destroying (next s e) := by
  have hreturned : ∀ {p : JoinPc}, s.join = p → p ≠ .alive → p ≠ .clearing →
      s.sched.ctl.clear () = .returned := by
    intro p hp halive hclearing
    exact h.cleared (hp ▸ halive) (hp ▸ hclearing)
  cases e with
  | sched e =>
      cases e with
      | inner q m => exact h.keep rfl Iff.rfl id
      | ctl e =>
          rcases clear_step he.2.1 with hsame | rfl | ⟨huncalled, hunder, hcalled⟩
          · have hclear : (next s (.sched (.ctl e))).sched.ctl.clear () = s.sched.ctl.clear () :=
              hsame
            exact h.keep rfl (by rw [hclear]) (by rw [hclear]; exact id)
          · cases he.1
          · exact h.keep rfl (iff_of_false hcalled huncalled) fun hret => absurd hret hunder
  | ask w old => exact h.keep rfl Iff.rfl id
  | got w old task => exact h.keep rfl Iff.rfl id
  | finish w x => exact h.keep rfl Iff.rfl id
  | destroy =>
      have hclear : (next s .destroy).sched.ctl.clear () = .looping 0 := rfl
      refine ⟨iff_of_false nofun ?_, fun _ hclearing => absurd rfl hclearing, nofun⟩
      rw [hclear]
      exact nofun
  | cleared =>
      refine Destroying.joinStep he.2 nofun fun j hj => ?_
      cases hj
      exact Nat.zero_le _
  | joinThread w =>
      refine Destroying.joinStep (hreturned he.1 nofun nofun) nofun fun j hj => ?_
      cases hj
      exact w.isLt
  | joined => exact Destroying.joinStep (hreturned he nofun nofun) nofun nofun

theorem destroying (h : (machine n τ).Reachable s) : Destroying s := by
  refine h.invariant (I := Destroying) ?_ fun s e _ he hs => hs.next he
  intro s hs
  rw [show s = State.initial n τ from hs]
  exact ⟨iff_of_true rfl rfl, fun halive => absurd rfl halive, nofun⟩

/-! ### At rest

A pool at rest has its scheduler at rest, and its workers are asleep or inside a task.
Sleeping workers hold nothing and their homes are empty; these are all the queues, so
nothing is left to do. -/

theorem AtRest.scheduler (hrest : AtRest s) : RrScheduler.AtRest s.sched := by
  intro e ho he
  cases e with
  | inner q m => exact hrest (.sched (.inner q m)) ho ⟨rfl, he⟩
  | ctl e =>
      cases e with
      | enter | leave | schedule | clear => cases ho
      | _ => exact hrest (.sched (.ctl _)) rfl ⟨rfl, he⟩

/-- Where a worker of a pool at rest stands. -/
inductive WorkerRests (s : State n τ) (w : Fin n.size) : Prop
  | running (x : τ) (h : s.run w = .running x)
  | exited (h : s.run w = .exited)
  | asleep (q : Fin n.size) (h : AsleepOn s w q) (hcore : (s.sched.obj q).core = Queue.Core.empty)

theorem AtRest.worker (hrest : AtRest s) (h : (machine n τ).Reachable s) (w : Fin n.size) :
    WorkerRests s w := by
  have hrests := (hrest.scheduler.rests (sched_reachable h)).scheduled w
  cases hw : s.run w with
  | running x => exact .running x hw
  | exited => exact .exited hw
  | loop old =>
      have hout : s.sched.ctl.scheduled w = .outside :=
        (calling h w).mpr fun old' => by rw [hw]; exact nofun
      exact absurd ⟨hw, hout, trivial⟩ (hrest (.ask w old) rfl)
  | asking old =>
      rcases hrests with hout | ⟨task, hdone⟩ | ⟨-, hasleep, hcore⟩
      · exact absurd hw ((calling h w).mp hout old)
      · exact absurd ⟨hw, hdone, trivial⟩ (hrest (.got w old task) rfl)
      · exact .asleep _ hasleep hcore

/-- The destructor of a pool at rest has not been called, is done, or waits for a worker
that is inside a task. -/
theorem AtRest.destructor (hrest : AtRest s) (h : (machine n τ).Reachable s) :
    s.join = .alive ∨ s.join = .joined ∨ ∃ w x, s.join = .joining w.val ∧ s.run w = .running x := by
  have hdestroying := destroying h
  cases hj : s.join with
  | alive => exact Or.inl rfl
  | joined => exact Or.inr (Or.inl rfl)
  | clearing =>
      have hclear := (hrest.scheduler.rests (sched_reachable h)).clear ()
      rcases hclear with huncalled | hreturned
      · have halive := hdestroying.alive.mpr huncalled
        rw [hj] at halive
        cases halive
      · exact absurd ⟨hj, hreturned⟩ (hrest .cleared rfl)
  | joining j =>
      have hreturned := hdestroying.cleared (by rw [hj]; exact nofun) (by rw [hj]; exact nofun)
      rcases Nat.lt_or_eq_of_le (hdestroying.joining j hj) with hlt | rfl
      · cases hrest.worker h ⟨j, hlt⟩ with
        | running x hx => exact Or.inr (Or.inr ⟨⟨j, hlt⟩, x, rfl, hx⟩)
        | exited hw => exact absurd ⟨hj, hw⟩ (hrest (.joinThread ⟨j, hlt⟩) rfl)
        | asleep q _ hcore =>
            -- nobody sleeps on a queue that `clear()` has left
            have hcancelled := RrScheduler.all_cancelled (sched_reachable h) hreturned q
            rw [RrScheduler.cancelled, hcore] at hcancelled
            cases hcancelled
      · exact absurd hj (hrest .joined rfl)

/-- A sleeping worker is in the call of `scheduled()` that `run()` makes. -/
theorem asleep_asking (h : (machine n τ).Reachable s) {w q : Fin n.size} (hs : AsleepOn s w q) :
    ∃ old, s.run w = .asking old := by
  have hinside := (RrScheduler.agree (sched_reachable h)).inside hs rfl
  cases hinside with
  | pop hw =>
      by_contra hno
      have hout := (calling h w).mpr fun old hold => hno ⟨old, hold⟩
      rw [hw] at hout
      cases hout

/-- What a pool at rest looks like. -/
structure Rests (s : State n τ) : Prop where
  schedule : ∀ x, s.sched.ctl.schedule x = .uncalled ∨ s.sched.ctl.schedule x = .returned
  worker : ∀ w, WorkerRests s w
  destructor :
    s.join = .alive ∨ s.join = .joined ∨ ∃ w x, s.join = .joining w.val ∧ s.run w = .running x

theorem AtRest.rests (hrest : AtRest s) (h : (machine n τ).Reachable s) : Rests s :=
  ⟨(hrest.scheduler.rests (sched_reachable h)).schedule, hrest.worker h, hrest.destructor h⟩

theorem Rests.scheduler (hrests : Rests s) (h : (machine n τ).Reachable s) :
    RrScheduler.Rests s.sched := by
  have hdestroying := destroying h
  refine ⟨hrests.schedule, ?_, fun w => ?_⟩
  · rintro ⟨⟩
    rcases hrests.destructor with halive | hjoined | ⟨w, x, hjoining, -⟩
    · exact Or.inl (hdestroying.alive.mp halive)
    · exact Or.inr
        (hdestroying.cleared (by rw [hjoined]; exact nofun) (by rw [hjoined]; exact nofun))
    · exact Or.inr
        (hdestroying.cleared (by rw [hjoining]; exact nofun) (by rw [hjoining]; exact nofun))
  · cases hrests.worker w with
    | running x hx => exact Or.inl ((calling h w).mpr fun old => by rw [hx]; exact nofun)
    | exited hw => exact Or.inl ((calling h w).mpr fun old => by rw [hw]; exact nofun)
    | asleep q hs hcore =>
        have hinside := (RrScheduler.agree (sched_reachable h)).inside hs rfl
        cases hinside with
        | pop hw => exact Or.inr (Or.inr ⟨hw, hs, hcore⟩)

theorem Rests.atRest (hrests : Rests s) (h : (machine n τ).Reachable s) : AtRest s := by
  have hsched := hrests.scheduler h
  have hquiet := hsched.atRest (sched_reachable h)
  intro e ho he
  cases e with
  | sched e =>
      cases e with
      | inner q m => exact hquiet (.inner q m) ho he.2
      | ctl e =>
          cases e with
          | enter | leave | clear => cases he.1
          | schedule => cases ho
          | _ => exact hquiet (.ctl _) rfl he.2
  | destroy | finish => cases ho
  | ask w old =>
      have hw : s.run w = .loop old := he.1
      cases hrests.worker w with
      | running x hx => rw [hw] at hx; cases hx
      | exited hexited => rw [hw] at hexited; cases hexited
      | asleep q hs _ =>
          obtain ⟨old', hasking⟩ := asleep_asking h hs
          rw [hw] at hasking
          cases hasking
  | got w old task =>
      obtain ⟨hw, hdone, -⟩ := he
      cases hrests.worker w with
      | running x hx => rw [hw] at hx; cases hx
      | exited hexited => rw [hw] at hexited; cases hexited
      | asleep q hs _ =>
          have hinside := (RrScheduler.agree (sched_reachable h)).inside hs rfl
          cases hinside with
          | pop hwaiting =>
              have hdone' : s.sched.ctl.scheduled w = .done task := hdone
              rw [hwaiting] at hdone'
              cases hdone'
  | cleared =>
      have hj : s.join = .clearing := he.1
      rcases hrests.destructor with halive | hjoined | ⟨w, x, hjoining, -⟩
      · rw [hj] at halive; cases halive
      · rw [hj] at hjoined; cases hjoined
      · rw [hj] at hjoining; cases hjoining
  | joinThread w =>
      have hj : s.join = .joining w := he.1
      rcases hrests.destructor with halive | hjoined | ⟨v, x, hjoining, hx⟩
      · rw [hj] at halive; cases halive
      · rw [hj] at hjoined; cases hjoined
      · rw [hj] at hjoining
        cases Fin.ext (JoinPc.joining.inj hjoining)
        rw [he.2] at hx
        cases hx
  | joined =>
      have hj : s.join = .joining n.size := he
      rcases hrests.destructor with halive | hjoined | ⟨v, x, hjoining, -⟩
      · rw [hj] at halive; cases halive
      · rw [hj] at hjoined; cases hjoined
      · rw [hj] at hjoining
        exact absurd (JoinPc.joining.inj hjoining).symm (Nat.ne_of_lt v.isLt)

theorem atRest_iff (h : (machine n τ).Reachable s) : AtRest s ↔ Rests s :=
  ⟨fun hrest => hrest.rests h, fun hrests => hrests.atRest h⟩

theorem held_asleep (h : (machine n τ).Reachable s) {w q : Fin n.size} (hs : AsleepOn s w q) :
    held s w = none := by
  have hagree := RrScheduler.agree (sched_reachable h)
  have hinside := hagree.inside hs rfl
  cases hinside with
  | pop hw =>
      have hplace : RrScheduler.place s.sched (.scheduled w) = .asleep .pop := by
        rw [← hs]
        exact Client.place_of_site (hagree.site_of_pc hs rfl)
      have hhand : RrScheduler.hand s.sched w = none := by
        rw [RrScheduler.hand, hw, hplace]
        rfl
      obtain ⟨old, hold⟩ := asleep_asking h hs
      rw [held, hhand, hold]
      rfl

/-- In a pool at rest that is not being destroyed, and whose workers are not inside a task,
they all sleep. -/
theorem AtRest.sleeping (hrest : AtRest s) (h : (machine n τ).Reachable s)
    (hidle : ∀ w x, s.run w ≠ .running x) (halive : s.join = .alive) (w : Fin n.size) :
    ∃ q, AsleepOn s w q := by
  cases hrest.worker h w with
  | running x hx => exact absurd hx (hidle w x)
  | exited hw => exact absurd ((destroying h).alive.mp halive) (exited_cleared h hw)
  | asleep q hs _ => exact ⟨q, hs⟩

theorem AtRest.emptied (hrest : AtRest s) (h : (machine n τ).Reachable s)
    (hidle : ∀ w x, s.run w ≠ .running x) (halive : s.join = .alive) (q : Fin n.size) :
    RrScheduler.contents s.sched q = [] := by
  have hasleep := hrest.sleeping h hidle halive
  have hquiet : Quiescent s :=
    ⟨fun w => Or.inr (hasleep w), (hrest.scheduler.rests (sched_reachable h)).schedule⟩
  obtain ⟨w, hw⟩ := home_surjective h (hquiet.home h) q
  obtain ⟨p, hs⟩ := hasleep w
  obtain ⟨v, hv, rfl⟩ := hw
  obtain ⟨v', hv', rfl⟩ := asleep_home h hs
  rw [hv] at hv'
  cases hv'
  by_contra htask
  exact hquiet.not_pending h _ (answered h ((destroying h).alive.mp halive) htask hs)

theorem AtRest.executed (hrest : AtRest s) (h : (machine n τ).Reachable s)
    (hidle : ∀ w x, s.run w ≠ .running x) (halive : s.join = .alive) (x : τ)
    (hx : s.sched.ctl.schedule x ≠ .uncalled) : s.executed.count x = 1 := by
  have hreturned :=
    ((hrest.scheduler.rests (sched_reachable h)).schedule x).resolve_left hx
  have hplaces := places_eq_entered h x
  have hqueued : queued s x = 0 :=
    tally_eq_zero fun q _ => by rw [hrest.emptied h hidle halive q]; rfl
  have hholders : holders s x = 0 := tally_eq_zero fun w _ => by
    obtain ⟨q, hs⟩ := hrest.sleeping h hidle halive w
    rw [held_asleep h hs]
    rfl
  rw [places, discarded_nil h ((destroying h).alive.mp halive), hqueued, hholders,
    RrScheduler.entered, hreturned] at hplaces
  simpa [RrScheduler.enteredAt] using hplaces

theorem AtRest.joined (hrest : AtRest s) (h : (machine n τ).Reachable s)
    (hidle : ∀ w x, s.run w ≠ .running x) (hdead : s.join ≠ .alive) :
    s.join = .joined ∧ ∀ w, s.run w = .exited := by
  rcases hrest.destructor h with halive | hjoined | ⟨w, x, -, hx⟩
  · exact absurd halive hdead
  · have hexited := joined_exited h
    unfold Joined at hexited
    rw [hjoined] at hexited
    exact ⟨hjoined, hexited⟩
  · exact absurd hx (hidle w x)

/-- **A pool at rest is done.**  When the pool can take no step of its own and no worker
is inside a task, nobody is inside `schedule`; if the destructor has not been called,
the workers sleep, the queues are empty, and every task ever given to `schedule` has
been executed exactly once; and if it has been called it has finished, with every
worker out of `run()`. -/
theorem rest_done (h : (machine n τ).Reachable s) (hrest : AtRest s)
    (hidle : ∀ w x, s.run w ≠ .running x) :
    (∀ x, s.sched.ctl.schedule x = .uncalled ∨ s.sched.ctl.schedule x = .returned) ∧
    (s.join = .alive → (∀ w, ∃ q, AsleepOn s w q) ∧ (∀ q, RrScheduler.contents s.sched q = []) ∧
      ∀ x, s.sched.ctl.schedule x ≠ .uncalled → s.executed.count x = 1) ∧
    (s.join ≠ .alive → s.join = .joined ∧ ∀ w, s.run w = .exited) :=
  ⟨(hrest.scheduler.rests (sched_reachable h)).schedule,
    fun halive => ⟨hrest.sleeping h hidle halive, hrest.emptied h hidle halive,
      hrest.executed h hidle halive⟩,
    hrest.joined h hidle⟩

/-- The only worker executes the only task and goes back to sleep. -/
def oneTask : List (Event oneWorker Unit) :=
  [.ask 0 none, .sched (.ctl (.initIndex 0)),
   .sched (.ctl (.schedule ())), .sched (.ctl (.fetchPush ())), .sched (.ctl (.tryPush () 0 0)),
   .sched (.inner 0 (.lock (.schedule ()) (.tryPush ()))),
   .sched (.inner 0 (.body (.schedule ()) (.tryPush ()))),
   .sched (.inner 0 (.notifyOne (.schedule ()) (.tryPush ()) (.pushed true) none)),
   .sched (.ctl (.tryPushRet () 0 0 true)),
   .sched (.ctl (.tryPop 0 0)), .sched (.inner 0 (.lock (.scheduled 0) .tryPop)),
   .sched (.inner 0 (.body (.scheduled 0) .tryPop)), .sched (.ctl (.tryPopRet 0 0 (some ()))),
   .got 0 none (some ()), .finish 0 (), .ask 0 (some ()), .sched (.ctl (.readIndex 0)),
   .sched (.ctl (.tryPop 0 0)), .sched (.inner 0 (.lock (.scheduled 0) .tryPop)),
   .sched (.inner 0 (.body (.scheduled 0) .tryPop)), .sched (.ctl (.tryPopRet 0 0 none)),
   .sched (.ctl (.pop 0 1)), .sched (.inner 0 (.lock (.scheduled 0) .pop)),
   .sched (.inner 0 (.body (.scheduled 0) .pop))]

theorem rest_done_oneTask :
    ((machine oneWorker Unit).after (State.initial oneWorker Unit) oneTask).executed.count () =
      1 := by
  have hreachable : (machine oneWorker Unit).Reachable
      ((machine oneWorker Unit).after (State.initial oneWorker Unit) oneTask) :=
    Machine.Reachable.of_run rfl (by decide +kernel)
  have hrests : Rests ((machine oneWorker Unit).after (State.initial oneWorker Unit) oneTask) :=
    ⟨by decide +kernel,
      Fin.forall_fin_one.mpr (.asleep 0 (by unfold AsleepOn; decide +kernel) (by decide +kernel)),
      Or.inl rfl⟩
  have hdone := rest_done (n := oneWorker) (τ := Unit) hreachable (hrests.atRest hreachable)
    (Fin.forall_fin_one.mpr (by decide +kernel))
  exact (hdone.2.1 rfl).2.2 () (by decide +kernel)

end ThreadPool

end Jar.Concurrency
