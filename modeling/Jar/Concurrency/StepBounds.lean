/-
# `Jar.Concurrency.StepBounds` — how long a pool can be busy

Whatever the interleaving, a pool cannot be busy for ever with a given number of
tasks.  What its threads have left to do is counted (`Jar.Lib.Budget`), and every
step uses some of it:

* a call of `schedule` tries each queue four times and pushes, so it takes a number
  of steps that is linear in the number `N` of queues;
* a worker makes one scan of the queues for each task it executes, and one more
  before it goes to sleep;
* the destructor clears the queues and joins the workers;
* a wake-up, and a spurious one in particular, costs a sleeper three steps.

Hence a run with `c` calls of `schedule` and `u` spurious wake-ups takes at most
`N * (4 * N + 7) + (16 * N + 18) * c + 3 * u + (8 * N + 4)` steps (`run_length`),
the steps spent on a mutex that is refused included.  With `Jar.Concurrency.Rest`
this gives that no task is put off for ever, without any assumption about which
thread is scheduled when: when nothing comes from outside, every run ends, and has
executed every task when it can go no further (`no_task_starves`).

The loop of `schedule` counts its attempts in an `unsigned`, up to four times the
number of queues.  All this is for pools in which `4 * N` is below `2 ^ 32`; with more
queues the loop need not end at all (`Jar.Concurrency.Attempts`).
-/
import Jar.Lib.Budget
import Jar.Concurrency.Rest

namespace Jar.Concurrency

open Jar.Lib

/-! ## The queue -/

namespace Queue

variable {T : Type*}

/-- What an operation has left once it has the mutex.  An item is worth `a`. -/
def sectionLeft (a m : ℕ) : Op T → ℕ
  | .pop | .tryPop => 2
  | .push _ => a + 5
  | .tryPush _ => a + 8
  | .clear => 2 * m + 3

/-- What a result is worth to who takes it: an item is carried on, and a refused
`try_push` has its item still to deliver. -/
def retLeft (a : ℕ) : Ret T → ℕ
  | .item (some _) => a + 1
  | .pushed false => a + 8
  | _ => 1

def pcLeft (a m : ℕ) : Pc T → ℕ
  | .idle => 0
  | .calling op => sectionLeft a m op + 1
  | .holding op => sectionLeft a m op
  | .asleep _ => 1
  | .woken _ => 3
  | .rechecking _ => 2
  | .notifyOne _ _ => 4
  | .notifyAll _ _ => 2 * m + 2
  | .returned _ r => retLeft a r

theorem Effect.spends {a m : ℕ} {c : Core T} {op : Op T} {o : Monitor.Outcome (Core T) (Ret T)}
    (h : Effect c op o) : pcLeft a m (o.pc op) + a * (o.core c).container.length + 1 ≤
      sectionLeft a m op + a * c.container.length := by
  cases h with
  | sleep | cancelled | empty =>
      simp only [pcLeft, sectionLeft, retLeft, Monitor.Outcome.pc, Monitor.Outcome.core,
        Monitor.Signal.pc]
      omega
  | popped _ hx | tryPopped hx =>
      simp only [pcLeft, sectionLeft, retLeft, Monitor.Outcome.pc, Monitor.Outcome.core,
        Monitor.Signal.pc, hx, List.length_cons, Nat.mul_add]
      omega
  | pushed | tryPushed =>
      simp only [pcLeft, sectionLeft, Monitor.Outcome.pc, Monitor.Outcome.core,
        Monitor.Signal.pc, List.length_append, List.length_singleton, Nat.mul_add]
      omega
  | cleared =>
      simp only [pcLeft, sectionLeft, Monitor.Outcome.pc, Monitor.Outcome.core,
        Monitor.Signal.pc, List.length_nil]
      omega

/-- The units of a queue on which at most `m` threads sleep at a time. -/
def budget (T : Type*) (a m : ℕ) : Monitor.Budget (object T) m where
  pc := pcLeft a m
  work c := a * c.container.length
  wake := 2
  idle := rfl
  lock _ := Nat.le_refl _
  refuse op r h := by
    cases op with
    | tryPop | tryPush => cases h; simp [pcLeft, sectionLeft, retLeft]
    | pop | push | clear => cases h
  body op c := (body_effect op c).spends
  notifyOne op r h := by
    obtain ⟨x, ⟨rfl, rfl⟩ | ⟨rfl, rfl⟩⟩ := emits_one h <;> simp [pcLeft, retLeft]
  notifyAll op r h := by
    obtain ⟨rfl, rfl⟩ := emits_all h
    simp only [pcLeft, retLeft]
    omega
  woken _ := Nat.le_refl _
  relock _ := Nat.le_refl _
  again op c h := by
    obtain rfl := blocks_pop h
    exact (again_effect .pop c).spends

end Queue

/-! ## The scheduler -/

namespace RrScheduler

variable {n : QueueCount} {ι τ κ : Type} [DecidableEq ι] [DecidableEq τ] [DecidableEq κ]
variable {s : State n ι τ κ} {e : Event n ι τ κ} {a m : ℕ}

/-! ### The loops stay within their bounds

The counters of the two loops are 32-bit numbers, and incremented below a bound they
do not wrap.  This is where `4 * N` has to be below `2 ^ 32`: otherwise the retry loop
of `schedule` need not end. -/

def ScheduledPc.InRange (n : QueueCount) : ScheduledPc τ → Prop
  | .scanning k => k.toNat ≤ n.size
  | .trying k => k.toNat < n.size
  | _ => True

def SchedulePc.InRange (n : QueueCount) : SchedulePc → Prop
  | .looping _ k => k.toNat ≤ tryNTimes n
  | .trying _ k => k.toNat < tryNTimes n
  | _ => True

theorem succ_inRange {k : BitVec 32} {bound : ℕ} (hk : k.toNat < bound) (hfits : bound < 2 ^ 32) :
    (k + 1).toNat = k.toNat + 1 := by
  rw [BitVec.toNat_add]
  exact Nat.mod_eq_of_lt (by simp; omega)

theorem scheduled_inRange (h : (machine n ι τ κ).Reachable s) (i : ι) :
    (s.ctl.scheduled i).InRange n := by
  refine h.invariant (I := fun s => ∀ i, (s.ctl.scheduled i).InRange n) ?_ ?_ i
  · rintro s ⟨⟨threadIndex, hctl⟩, -⟩ i
    rw [hctl]
    trivial
  · intro s e _ he ih i
    cases e with
    | inner q m => exact ih i
    | ctl e =>
        show ((step s.ctl e).scheduled i).InRange n
        by_cases hi : e.caller = .scheduled i
        case neg =>
          rw [step_scheduled_of_ne s.ctl e hi]
          exact ih i
        have hown : ∀ p : ScheduledPc τ, p.InRange n →
            (Function.update s.ctl.scheduled i p i).InRange n := by
          intro p hp
          rw [Function.update_self]
          exact hp
        have hg := he.1
        cases e with
        | enter j | readIndex j | initIndex j =>
            cases hi
            first | exact hown _ trivial | exact hown _ (Nat.zero_le _)
        | tryPop j k =>
            cases hi
            have hk := ih i
            rw [hg.1] at hk
            exact hown _ (Nat.lt_of_le_of_ne hk hg.2)
        | tryPopRet j k task =>
            cases hi
            have hj : s.ctl.scheduled i = .trying k := hg
            have hk := ih i
            rw [hj] at hk
            cases task with
            | some x => exact hown _ trivial
            | none =>
                refine hown (.scanning (k + 1)) ?_
                show (k + 1).toNat ≤ n.size
                rw [succ_inRange hk n.fits]
                exact hk
        | pop j k | popRet j task | leave j task => cases hi; exact hown _ trivial
        | _ => cases hi

theorem schedule_inRange (hfits : tryNTimes n < 2 ^ 32) (h : (machine n ι τ κ).Reachable s)
    (x : τ) : (s.ctl.schedule x).InRange n := by
  refine h.invariant (I := fun s => ∀ x, (s.ctl.schedule x).InRange n) ?_ ?_ x
  · rintro s ⟨⟨threadIndex, hctl⟩, -⟩ x
    rw [hctl]
    trivial
  · intro s e _ he ih x
    cases e with
    | inner q m => exact ih x
    | ctl e =>
        show ((step s.ctl e).schedule x).InRange n
        by_cases hx : e.caller = .schedule x
        case neg =>
          rw [step_schedule_of_ne s.ctl e hx]
          exact ih x
        have hown : ∀ p : SchedulePc, p.InRange n →
            (Function.update s.ctl.schedule x p x).InRange n := by
          intro p hp
          rw [Function.update_self]
          exact hp
        have hg := he.1
        cases e with
        | schedule y => cases hx; exact hown _ trivial
        | fetchPush y => cases hx; exact hown _ (Nat.zero_le _)
        | tryPush y index k =>
            cases hx
            have hk := ih x
            rw [hg.1] at hk
            exact hown _ (Nat.lt_of_le_of_ne hk hg.2)
        | tryPushRet y index k ok =>
            cases hx
            have hy : s.ctl.schedule x = .trying index k := hg
            have hk := ih x
            rw [hy] at hk
            cases ok with
            | true => exact hown _ trivial
            | false =>
                refine hown (.looping index (k + 1)) ?_
                show (k + 1).toNat ≤ tryNTimes n
                rw [succ_inRange hk hfits]
                exact hk
        | push y index k | pushRet y index => cases hx; exact hown _ trivial
        | _ => cases hx

/-! ### What a caller has left

Each of the three functions pays for its loop round by round, so what a caller has
left depends on its own control and is spent by its own steps only. -/

/-- What a thread has left with what `scheduled()` gives it; a task is worth `a`. -/
def taskLeft (a : ℕ) : Option τ → ℕ
  | some _ => a
  | none => 1

def scheduledLeft (n : QueueCount) (a : ℕ) : ScheduledPc τ → ℕ
  | .outside => 0
  | .entered => 4 * n.size + 6
  | .scanning k => 4 * (n.size - k.toNat) + 5
  | .trying k => 4 * (n.size - (k.toNat + 1)) + 5
  | .waiting => 1
  | .done task => taskLeft a task

def scheduleLeft (n : QueueCount) (a : ℕ) : SchedulePc → ℕ
  | .uncalled | .pushing _ | .returned => 0
  | .entered => 3 * tryNTimes n + a + 8
  | .looping _ k => 3 * (tryNTimes n - k.toNat) + a + 7
  | .trying _ k => 3 * (tryNTimes n - (k.toNat + 1))

def clearLeft (n : QueueCount) (m : ℕ) : ClearPc → ℕ
  | .uncalled | .returned => 0
  | .looping j => (2 * m + 5) * (n.size - j) + 1
  | .clearing j => (2 * m + 5) * (n.size - (j + 1)) + 1

def callerLeft (n : QueueCount) (a m : ℕ) (c : Control ι τ κ) : Caller ι τ κ → ℕ
  | .scheduled i => scheduledLeft n a (c.scheduled i)
  | .schedule x => scheduleLeft n a (c.schedule x)
  | .clear k => clearLeft n m (c.clear k)

/-- What a step brings: a call has everything before it, and a spurious wake-up pays
for itself. -/
def brought (n : QueueCount) (a m : ℕ) : Event n ι τ κ → ℕ
  | .ctl (.enter _) => 4 * n.size + 7
  | .ctl (.schedule _) => 3 * tryNTimes n + a + 9
  | .ctl (.clear _) => (2 * m + 5) * n.size + 2
  | .ctl _ => 0
  | .inner _ e => (Queue.budget τ a m).brought e

/-- What a step uses: leaving `scheduled()` takes along what the task is worth. -/
def used (a : ℕ) : Event n ι τ κ → ℕ
  | .ctl (.leave _ task) => taskLeft a task
  | _ => 1

theorem callerLeft_of_ne (c : Control ι τ κ) (e : Step n ι τ κ) {u : Caller ι τ κ}
    (hu : u ≠ e.caller) : callerLeft n a m (step c e) u = callerLeft n a m c u := by
  cases u with
  | scheduled i => rw [callerLeft, step_scheduled_of_ne c e (Ne.symm hu)]; rfl
  | schedule x => rw [callerLeft, step_schedule_of_ne c e (Ne.symm hu)]; rfl
  | clear k => rw [callerLeft, step_clear_of_ne c e (Ne.symm hu)]; rfl

section Setters

variable (c : Control ι τ κ)

omit [DecidableEq τ] [DecidableEq κ] in
@[simp] theorem callerLeft_setScheduled (i : ι) (p : ScheduledPc τ) :
    callerLeft n a m (c.setScheduled i p) (.scheduled i) = scheduledLeft n a p := by
  show scheduledLeft n a (Function.update c.scheduled i p i) = _
  rw [Function.update_self]

omit [DecidableEq ι] [DecidableEq κ] in
@[simp] theorem callerLeft_setSchedule (x : τ) (p : SchedulePc) :
    callerLeft n a m (c.setSchedule x p) (.schedule x) = scheduleLeft n a p := by
  show scheduleLeft n a (Function.update c.schedule x p x) = _
  rw [Function.update_self]

omit [DecidableEq ι] [DecidableEq τ] in
@[simp] theorem callerLeft_setClear (k : κ) (p : ClearPc) :
    callerLeft n a m (c.setClear k p) (.clear k) = clearLeft n m p := by
  show clearLeft n m (Function.update c.clear k p k) = _
  rw [Function.update_self]

end Setters

/-- A step of control is paid for by its caller, with what it brings and what it gets back
from a queue. -/
def Paid (n : QueueCount) (a m : ℕ) (c : Control ι τ κ) (e : Step n ι τ κ) : Prop :=
  callerLeft n a m (step c e) e.caller + Client.handed (Queue.budget τ a m) (act c e) +
      used a (.ctl e : Event n ι τ κ) ≤
    callerLeft n a m c e.caller + Client.takenBack (Queue.budget τ a m) (act c e) +
      brought n a m (.ctl e : Event n ι τ κ)

theorem paid_scheduled {c : Control ι τ κ} {e : Step n ι τ κ} (hg : guard n c e) {i : ι}
    (hcaller : e.caller = .scheduled i) (hrange : (c.scheduled i).InRange n) : Paid n a m c e := by
  have hold : ∀ {p}, c.scheduled i = p →
      callerLeft n a m c (.scheduled i) = scheduledLeft n a p := by
    rintro p rfl
    rfl
  unfold Paid
  cases e with
  | enter i =>
      cases hcaller
      simp only [step, Step.caller, callerLeft_setScheduled, hold hg, scheduledLeft, act,
        Client.handed, Client.takenBack, used, brought]
      omega
  | initIndex i =>
      cases hcaller
      have hset : callerLeft n a m (step c (.initIndex i : Step n ι τ κ)) (.scheduled i) =
          scheduledLeft n a (.scanning 0) := callerLeft_setScheduled (m := m) c i _
      simp only [Step.caller, hset, hold hg.1, scheduledLeft, act, Client.handed,
        Client.takenBack, used, brought]
      omega
  | readIndex i =>
      cases hcaller
      simp only [step, Step.caller, callerLeft_setScheduled, hold hg.1, scheduledLeft, act,
        Client.handed, Client.takenBack, used, brought]
      omega
  | tryPop i k =>
      cases hcaller
      have hk := hrange
      rw [hg.1] at hk
      have hlt : k.toNat < n.size := Nat.lt_of_le_of_ne hk hg.2
      simp only [step, Step.caller, callerLeft_setScheduled, hold hg.1, scheduledLeft, act,
        Client.handed, Client.takenBack, used, brought, Queue.budget, Queue.pcLeft,
        Queue.sectionLeft]
      omega
  | tryPopRet i k task =>
      cases hcaller
      have hi : c.scheduled i = .trying k := hg
      have hk := hrange
      rw [hi] at hk
      have hsucc := succ_inRange hk n.fits
      cases task <;>
        simp only [step, Step.caller, callerLeft_setScheduled, hold hg, scheduledLeft, act,
          Client.handed, Client.takenBack, used, brought, Queue.budget, Queue.pcLeft,
          Queue.retLeft, taskLeft, Option.isSome_none, Option.isSome_some, if_true,
          Bool.false_eq_true, if_false, hsucc] <;>
        omega
  | pop i k =>
      cases hcaller
      simp only [step, Step.caller, callerLeft_setScheduled, hold hg.1, scheduledLeft, act,
        Client.handed, Client.takenBack, used, brought, Queue.budget, Queue.pcLeft,
        Queue.sectionLeft]
      omega
  | popRet i task =>
      cases hcaller
      cases task <;>
        simp only [step, Step.caller, callerLeft_setScheduled, hold hg, scheduledLeft, act,
          Client.handed, Client.takenBack, used, brought, Queue.budget, Queue.pcLeft,
          Queue.retLeft, taskLeft] <;>
        omega
  | leave i task =>
      cases hcaller
      simp only [step, Step.caller, callerLeft_setScheduled, hold hg, scheduledLeft, act,
        Client.handed, Client.takenBack, used, brought]
      omega
  | _ => cases hcaller

theorem paid_schedule (hfits : tryNTimes n < 2 ^ 32) {c : Control ι τ κ} {e : Step n ι τ κ}
    (hg : guard n c e) {x : τ} (hcaller : e.caller = .schedule x)
    (hrange : (c.schedule x).InRange n) : Paid n a m c e := by
  have hold : ∀ {p}, c.schedule x = p →
      callerLeft n a m c (.schedule x) = scheduleLeft n a p := by
    rintro p rfl
    rfl
  unfold Paid
  cases e with
  | schedule x =>
      cases hcaller
      simp only [step, Step.caller, callerLeft_setSchedule, hold hg, scheduleLeft, act,
        Client.handed, Client.takenBack, used, brought]
      omega
  | fetchPush x =>
      cases hcaller
      have hset : callerLeft n a m (step c (.fetchPush x : Step n ι τ κ)) (.schedule x) =
          scheduleLeft n a (.looping c.pushIndex 0) := callerLeft_setSchedule (m := m) c x _
      simp only [Step.caller, hset, hold hg, scheduleLeft, act, Client.handed,
        Client.takenBack, used, brought]
      omega
  | tryPush x index k =>
      cases hcaller
      have hk := hrange
      rw [hg.1] at hk
      have hlt : k.toNat < tryNTimes n := Nat.lt_of_le_of_ne hk hg.2
      simp only [step, Step.caller, callerLeft_setSchedule, hold hg.1, scheduleLeft, act,
        Client.handed, Client.takenBack, used, brought, Queue.budget, Queue.pcLeft,
        Queue.sectionLeft]
      omega
  | tryPushRet x index k ok =>
      cases hcaller
      have hx : c.schedule x = .trying index k := hg
      have hk : k.toNat < tryNTimes n := by
        rwa [hx] at hrange
      have hsucc := succ_inRange hk hfits
      cases ok with
      | true =>
          simp only [step, Step.caller, callerLeft_setSchedule, hold hg, scheduleLeft, act,
            Client.handed, Client.takenBack, used, brought, Queue.budget, Queue.pcLeft,
            Queue.retLeft, if_true]
          omega
      | false =>
          simp only [step, Step.caller, callerLeft_setSchedule, hold hg, scheduleLeft, act,
            Client.handed, Client.takenBack, used, brought, Queue.budget, Queue.pcLeft,
            Queue.retLeft, Bool.false_eq_true, if_false, hsucc]
          omega
  | push x index k =>
      cases hcaller
      simp only [step, Step.caller, callerLeft_setSchedule, hold hg.1, scheduleLeft, act,
        Client.handed, Client.takenBack, used, brought, Queue.budget, Queue.pcLeft,
        Queue.sectionLeft]
      omega
  | pushRet x index =>
      cases hcaller
      simp only [step, Step.caller, callerLeft_setSchedule, hold hg, scheduleLeft, act,
        Client.handed, Client.takenBack, used, brought, Queue.budget, Queue.pcLeft,
        Queue.retLeft]
      omega
  | _ => cases hcaller

theorem paid_clear {c : Control ι τ κ} {e : Step n ι τ κ} (hg : guard n c e) {k : κ}
    (hcaller : e.caller = .clear k) : Paid n a m c e := by
  have hold : ∀ {p}, c.clear k = p → callerLeft n a m c (.clear k) = clearLeft n m p := by
    rintro p rfl
    rfl
  unfold Paid
  cases e with
  | clear k =>
      cases hcaller
      simp only [step, Step.caller, callerLeft_setClear, hold hg, clearLeft, act,
        Client.handed, Client.takenBack, used, brought, Nat.sub_zero]
      omega
  | clearQueue k j =>
      cases hcaller
      have hrounds : n.size - j.val = n.size - (j.val + 1) + 1 := by omega
      simp only [step, Step.caller, callerLeft_setClear, hold hg, clearLeft, act,
        Client.handed, Client.takenBack, used, brought, Queue.budget, Queue.pcLeft,
        Queue.sectionLeft, hrounds, Nat.mul_add]
      omega
  | clearQueueRet k j =>
      cases hcaller
      simp only [step, Step.caller, callerLeft_setClear, hold hg, clearLeft, act,
        Client.handed, Client.takenBack, used, brought, Queue.budget, Queue.pcLeft,
        Queue.retLeft]
      omega
  | clearRet k =>
      cases hcaller
      simp only [step, Step.caller, callerLeft_setClear, hold hg, clearLeft, act,
        Client.handed, Client.takenBack, used, brought]
      omega
  | _ => cases hcaller

theorem paid (hfits : tryNTimes n < 2 ^ 32) {c : Control ι τ κ} {e : Step n ι τ κ}
    (hg : guard n c e) (hscheduled : ∀ i, (c.scheduled i).InRange n)
    (hschedule : ∀ x, (c.schedule x).InRange n) : Paid n a m c e := by
  cases hcaller : e.caller with
  | scheduled i => exact paid_scheduled hg hcaller (hscheduled i)
  | schedule x => exact paid_schedule hfits hg hcaller (hschedule x)
  | clear k => exact paid_clear hg hcaller

theorem step_made {c : Control ι τ κ} (e : Step n ι τ κ) {x : τ} (h : c.schedule x ≠ .uncalled) :
    (step c e).schedule x ≠ .uncalled := by
  by_cases hx : e.caller = .schedule x
  · cases e with
    | schedule y | fetchPush y | tryPush y _ _ | push y _ _ | pushRet y _ =>
        cases hx
        simp [step, Control.setSchedule]
    | tryPushRet y _ _ ok => cases hx; cases ok <;> simp [step, Control.setSchedule]
    | _ => cases hx
  · rw [step_schedule_of_ne c e hx]
    exact h

/-! ### A step of the scheduler

Together the callers have what they had before the step, but for the one whose step it
is; a caller that is not counted takes nothing from those that are. -/

/-- What the callers in `S` have left, in the functions and in the queues. -/
def left (n : QueueCount) (a m : ℕ) (S : Finset (Caller ι τ κ)) (s : State n ι τ κ) : ℕ :=
  tally id (callerLeft n a m s.ctl) S + Client.objectsLeft (Queue.budget τ a m) S s.obj

/-- Whose step it is. -/
def doer : Event n ι τ κ → Caller ι τ κ
  | .ctl e => e.caller
  | .inner _ e => e.thread

omit [DecidableEq ι] [DecidableEq τ] [DecidableEq κ] in
theorem moves_caller {c : Control ι τ κ} {e : Step n ι τ κ} {u : Caller ι τ κ}
    (h : Client.Act.Moves (act c e) u) : u = e.caller := by
  cases e with
  | enter | initIndex | readIndex | leave | schedule | fetchPush | clear | clearRet => cases h
  | _ => cases h; rfl

theorem callersLeft_step (c : Control ι τ κ) (e : Step n ι τ κ) {S : Finset (Caller ι τ κ)}
    (hS : e.caller ∈ S) :
    tally id (callerLeft n a m (step c e)) S + callerLeft n a m c e.caller =
      tally id (callerLeft n a m c) S + callerLeft n a m (step c e) e.caller := by
  have hupdate : callerLeft n a m (step c e) = Function.update (callerLeft n a m c)
      e.caller (callerLeft n a m (step c e) e.caller) := by
    funext u
    rcases eq_or_ne u e.caller with rfl | hu
    · rw [Function.update_self]
    · rw [Function.update_of_ne hu, callerLeft_of_ne c e hu]
  have hsum := tally_update (w := id) (f := callerLeft n a m c) hS
    (callerLeft n a m (step c e) e.caller)
  rw [← hupdate] at hsum
  exact hsum

/-- A step is paid for when its call in the scheduler is. -/
theorem spend_of_paid (h : (machine n ι τ κ).Reachable s) (he : (machine n ι τ κ).Enabled s e)
    {S : Finset (Caller ι τ κ)} (hS : doer e ∈ S)
    (hm : ∀ q, (Monitor.sleeping S (s.obj q)).card ≤ m)
    (hpaid : ∀ c : Step n ι τ κ, e = .ctl c → Paid n a m s.ctl c) :
    left n a m S ((machine n ι τ κ).next s e) + used a e ≤ left n a m S s + brought n a m e := by
  cases e with
  | inner q e =>
      have hobjects := Client.objectsLeft_inner (Queue.budget τ a m) h he hS (hm q)
      simp only [left, used, brought]
      simp only [Client.machine, Client.next] at hobjects ⊢
      omega
  | ctl e =>
      have hown : Paid n a m s.ctl e := hpaid e rfl
      have hcallers := callersLeft_step (n := n) (a := a) (m := m) s.ctl e hS
      -- What the step gives to a queue or takes back is what its caller has more or less.
      have hobjects : Client.objectsLeft (Queue.budget τ a m) S
            (Client.applyAct (Queue.object τ) s.obj (act s.ctl e)) +
            Client.takenBack (Queue.budget τ a m) (act s.ctl e) =
          Client.objectsLeft (Queue.budget τ a m) S s.obj +
            Client.handed (Queue.budget τ a m) (act s.ctl e) :=
        Client.objectsLeft_act (Queue.budget τ a m) he.2 fun t ht => by
          rw [moves_caller ht]
          exact hS
      have hleft : left n a m S ((machine n ι τ κ).next s (.ctl e)) =
          tally id (callerLeft n a m (step s.ctl e)) S +
            Client.objectsLeft (Queue.budget τ a m) S
              (Client.applyAct (Queue.object τ) s.obj (act s.ctl e)) := rfl
      unfold Paid at hown
      rw [hleft, left]
      omega

/-- **Every step of the scheduler is paid for.** -/
theorem spend (hfits : tryNTimes n < 2 ^ 32) (h : (machine n ι τ κ).Reachable s)
    (he : (machine n ι τ κ).Enabled s e) {S : Finset (Caller ι τ κ)} (hS : doer e ∈ S)
    (hm : ∀ q, (Monitor.sleeping S (s.obj q)).card ≤ m) :
    left n a m S ((machine n ι τ κ).next s e) + used a e ≤ left n a m S s + brought n a m e := by
  refine spend_of_paid h he hS hm ?_
  rintro c rfl
  exact paid hfits he.1 (scheduled_inRange h) (schedule_inRange hfits h)

theorem seen_thread {q : Fin n.size} {m : Monitor.Event (Caller ι τ κ) (Queue.Op τ) (Queue.Ret τ)}
    (h : (client n ι τ κ).seen q s e = some m) : m.thread = doer e := by
  cases e with
  | inner q' m' =>
      simp only [Client.seen] at h
      split at h
      · cases h
        rfl
      · cases h
  | ctl c =>
      simp only [Client.seen, client] at h
      cases hact : act s.ctl c with
      | silent =>
          rw [hact] at h
          cases h
      | call q' t op =>
          have ht : t = c.caller := moves_caller (c := s.ctl) (e := c) (by rw [hact]; rfl)
          rw [hact] at h
          dsimp only at h
          split at h
          · cases h
            exact ht
          · cases h
      | ret q' t op r =>
          have ht : t = c.caller := moves_caller (c := s.ctl) (e := c) (by rw [hact]; rfl)
          rw [hact] at h
          dsimp only at h
          split at h
          · cases h
            exact ht
          · cases h

/-- A step of a caller that is not counted leaves those that are as they were, while
nobody sleeps and the queues are empty. -/
theorem left_of_notMem (he : (machine n ι τ κ).Enabled s e) {S : Finset (Caller ι τ κ)}
    (hS : doer e ∉ S) (hawake : ∀ q t op, (s.obj q).pc t ≠ .asleep op)
    (hold : ∀ q, contents s q = [])
    (hnew : ∀ q, contents ((machine n ι τ κ).next s e) q = []) :
    left n a m S ((machine n ι τ κ).next s e) = left n a m S s := by
  have hobjects : Client.objectsLeft (Queue.budget τ a m) S ((machine n ι τ κ).next s e).obj =
      Client.objectsLeft (Queue.budget τ a m) S s.obj := by
    refine Client.objectsLeft_of_notMem (Queue.budget τ a m) he (fun q m hm => ?_) hawake
      fun q => ?_
    · rw [seen_thread hm]
      exact hS
    · show a * (contents ((machine n ι τ κ).next s e) q).length = a * (contents s q).length
      rw [hold q, hnew q]
  have hcallers : tally id (callerLeft n a m ((machine n ι τ κ).next s e).ctl) S =
      tally id (callerLeft n a m s.ctl) S := by
    refine Finset.sum_congr rfl fun u hu => ?_
    cases e with
    | inner q m => rfl
    | ctl c =>
        have hne : u ≠ c.caller := by
          rintro rfl
          exact hS hu
        exact callerLeft_of_ne s.ctl c hne
  unfold left
  rw [hobjects, hcallers]

end RrScheduler

/-! ## The pool -/

namespace ThreadPool

open RrScheduler (QueueCount tryNTimes)

variable {n : QueueCount} {τ : Type} [DecidableEq τ] {s : State n τ} {e : Event n τ}
variable {es : List (Event n τ)}

/-- What a task is worth: a round of `run()`, with the scan that follows it. -/
def taskWorth (n : QueueCount) : ℕ := 4 * n.size + 9

def runLeft (n : QueueCount) : RunPc τ → ℕ
  | .loop _ => 4 * n.size + 7
  | .running _ => 4 * n.size + 8
  | .asking _ | .exited => 0

def joinLeft (n : QueueCount) : JoinPc → ℕ
  | .alive | .joined => 0
  | .clearing => n.size + 2
  | .joining j => n.size - j + 1

/-- The workers, the destructor, and the calls of `schedule` for the tasks in `T`. -/
def callers (n : QueueCount) (T : Finset τ) : Finset (RrScheduler.Caller (Fin n.size) τ Unit) :=
  Finset.univ.image .scheduled ∪ T.image .schedule ∪ {.clear ()}

/-- What the pool has left to do. -/
def left (T : Finset τ) (s : State n τ) : ℕ :=
  RrScheduler.left n (taskWorth n) 1 (callers n T) s.sched + tally (runLeft n) s.run Finset.univ +
    joinLeft n s.join

/-- The task a step calls `schedule` for. -/
def called : Event n τ → Option τ
  | .sched (.ctl (.schedule x)) => some x
  | _ => none

/-- What comes from outside: the calls, the destructor, and spurious wake-ups. -/
def brought (n : QueueCount) : Event n τ → ℕ
  | .sched (.ctl (.schedule _)) => 16 * n.size + 18
  | .sched (.inner _ (.spurious _ _)) => 3
  | .destroy => 8 * n.size + 4
  | _ => 0

/-- The calls made so far are those for tasks in `T`. -/
def CalledIn (T : Finset τ) (s : State n τ) : Prop :=
  ∀ x, s.sched.ctl.schedule x ≠ .uncalled → x ∈ T

theorem mem_callers {T : Finset τ} {u : RrScheduler.Caller (Fin n.size) τ Unit} :
    u ∈ callers n T ↔ ∀ x, u = .schedule x → x ∈ T := by
  cases u with
  | scheduled w => simp [callers]
  | schedule x => simp [callers]
  | clear k => simp [callers]

/-- Each queue has one sleeper at most: its home worker. -/
theorem one_sleeper (h : (machine n τ).Reachable s)
    (S : Finset (RrScheduler.Caller (Fin n.size) τ Unit)) (q : Fin n.size) :
    (Monitor.sleeping S (s.sched.obj q)).card ≤ 1 := by
  have hasleep : ∀ u ∈ Monitor.sleeping S (s.sched.obj q), ∃ w, u = .scheduled w ∧ Home s w q := by
    intro u hu
    obtain ⟨op, hop⟩ := Monitor.sleepers_asleep.mp (Finset.mem_filter.mp hu).2
    have hsound := Monitor.pc_sound (Client.obj_reachable (sched_reachable h) q) u
    rw [hop] at hsound
    obtain rfl := Queue.blocks_pop hsound
    exact home_of_pop h hop rfl
  refine Finset.card_le_one.mpr fun u hu v hv => ?_
  obtain ⟨w, rfl, hw⟩ := hasleep u hu
  obtain ⟨w', rfl, hw'⟩ := hasleep v hv
  rw [home_injective h hw hw']

theorem called_of_begins {c : RrScheduler.Control (Fin n.size) τ Unit}
    {b : RrScheduler.Step n (Fin n.size) τ Unit} (hg : RrScheduler.guard n c b) {x : τ}
    (hold : c.schedule x = .uncalled) (hnew : (RrScheduler.step c b).schedule x ≠ .uncalled) :
    b = .schedule x := by
  by_cases hcaller : b.caller = .schedule x
  case neg =>
    rw [RrScheduler.step_schedule_of_ne c b hcaller] at hnew
    exact absurd hold hnew
  have hno : ∀ p : RrScheduler.SchedulePc, c.schedule x = p → p ≠ .uncalled → False := by
    rintro p rfl hp
    exact hp hold
  cases b with
  | schedule y => cases hcaller; rfl
  | fetchPush y => cases hcaller; exact (hno _ hg nofun).elim
  | tryPush y index k => cases hcaller; exact (hno _ hg.1 nofun).elim
  | tryPushRet y index k ok => cases hcaller; exact (hno _ hg nofun).elim
  | push y index k => cases hcaller; exact (hno _ hg.1 nofun).elim
  | pushRet y index => cases hcaller; exact (hno _ hg nofun).elim
  | _ => cases hcaller

theorem CalledIn.next {T : Finset τ} (hT : CalledIn T s) (he : enabled s e)
    (hcall : ∀ x, called e = some x → x ∈ T) : CalledIn T (next s e) := by
  intro x hx
  by_cases hold : s.sched.ctl.schedule x = .uncalled
  case neg => exact hT x hold
  cases e with
  | sched b =>
      cases b with
      | inner q m => exact absurd hold hx
      | ctl b => exact hcall x (by rw [called_of_begins he.2.1 hold hx]; rfl)
  | _ => exact absurd hold hx

theorem doer_mem {T : Finset τ} {s : RrScheduler.State n (Fin n.size) τ Unit}
    (h : (scheduler n τ).Reachable s) (hT : ∀ x, s.ctl.schedule x ≠ .uncalled → x ∈ T)
    {b : RrScheduler.Event n (Fin n.size) τ Unit} (he : (scheduler n τ).Enabled s b)
    (hcall : ∀ x, b = .ctl (.schedule x) → x ∈ T) : RrScheduler.doer b ∈ callers n T := by
  refine mem_callers.mpr fun x hx => ?_
  cases b with
  | inner q m =>
      obtain ⟨op, -, hsite⟩ := (RrScheduler.agree h).inner_site he
      rw [show m.thread = .schedule x from hx] at hsite
      refine hT x fun hold => ?_
      simp [RrScheduler.client, RrScheduler.site, hold] at hsite
  | ctl b =>
      have hno : ∀ p : RrScheduler.SchedulePc, s.ctl.schedule x = p → p ≠ .uncalled → x ∈ T := by
        rintro p rfl hp
        exact hT x hp
      have hg : RrScheduler.guard n s.ctl b := he.1
      cases b with
      | schedule y => cases hx; exact hcall _ rfl
      | fetchPush y => cases hx; exact hno _ hg (by simp)
      | tryPush y index k => cases hx; exact hno _ hg.1 (by simp)
      | tryPushRet y index k ok => cases hx; exact hno _ hg (by simp)
      | push y index k => cases hx; exact hno _ hg.1 (by simp)
      | pushRet y index => cases hx; exact hno _ hg (by simp)
      | _ => cases hx

theorem sched_spend (hfits : tryNTimes n < 2 ^ 32) (h : (machine n τ).Reachable s) {T : Finset τ}
    (hT : CalledIn T s) {b : RrScheduler.Event n (Fin n.size) τ Unit}
    (hb : (scheduler n τ).Enabled s.sched b) (hcall : ∀ x, b = .ctl (.schedule x) → x ∈ T) :
    RrScheduler.left n (taskWorth n) 1 (callers n T) ((scheduler n τ).next s.sched b) +
        RrScheduler.used (taskWorth n) b ≤
      RrScheduler.left n (taskWorth n) 1 (callers n T) s.sched +
        RrScheduler.brought n (taskWorth n) 1 b :=
  RrScheduler.spend hfits (sched_reachable h) hb
    (doer_mem (sched_reachable h) hT hb hcall) (one_sleeper h _)

theorem spend_of_sched (he : enabled s e) {T : Finset τ}
    (hsched : ∀ b, seen e = some b →
      RrScheduler.left n (taskWorth n) 1 (callers n T) ((scheduler n τ).next s.sched b) +
          RrScheduler.used (taskWorth n) b ≤
        RrScheduler.left n (taskWorth n) 1 (callers n T) s.sched +
          RrScheduler.brought n (taskWorth n) 1 b) :
    left T (next s e) + 1 ≤ left T s + brought n e := by
  have hrun : ∀ {w : Fin n.size} {p : RunPc τ}, s.run w = p → ∀ p',
      tally (runLeft n) (Function.update s.run w p') Finset.univ + runLeft n p =
        tally (runLeft n) s.run Finset.univ + runLeft n p' := by
    rintro w p rfl p'
    exact tally_update (Finset.mem_univ w) p'
  cases e with
  | sched b =>
      have hsched := hsched b rfl
      have hbrought : RrScheduler.brought n (taskWorth n) 1 b ≤ brought n (.sched b) := by
        cases b with
        | inner q m => cases m <;> exact Nat.le_refl _
        | ctl b =>
            cases b with
            | enter | leave | clear => cases he.1
            | schedule x => simp only [RrScheduler.brought, brought, taskWorth, tryNTimes]; omega
            | _ => exact Nat.le_refl _
      have hused : 1 ≤ RrScheduler.used (taskWorth n) b := by
        cases b with
        | inner => exact Nat.le_refl _
        | ctl b =>
            cases b with
            | leave => cases he.1
            | _ => exact Nat.le_refl _
      simp only [left, next]
      omega
  | ask w old =>
      have hsched := hsched _ rfl
      have hsum := hrun he.1 (.asking old)
      simp only [left, next, brought, RrScheduler.used, RrScheduler.brought, runLeft] at *
      omega
  | got w old task =>
      have hsched := hsched _ rfl
      have hsum := hrun he.1 (RunPc.assigned task)
      cases task <;>
        simp only [left, next, brought, RrScheduler.used, RrScheduler.brought, runLeft,
          RunPc.assigned, RrScheduler.taskLeft, taskWorth] at * <;>
        omega
  | finish w x =>
      have hsum := hrun he (.loop (some x))
      simp only [left, next, brought, runLeft] at *
      omega
  | destroy =>
      have hsched := hsched _ rfl
      have hjoin : s.join = .alive := he.1
      simp only [left, next, brought, RrScheduler.used, RrScheduler.brought, joinLeft, hjoin] at *
      omega
  | cleared =>
      have hjoin : s.join = .clearing := he.1
      simp only [left, next, brought, joinLeft, hjoin]
      omega
  | joinThread w =>
      have hjoin : s.join = .joining w := he.1
      have hw := w.isLt
      simp only [left, next, brought, joinLeft, hjoin]
      omega
  | joined =>
      have hjoin : s.join = .joining n.size := he
      simp only [left, next, brought, joinLeft, hjoin]
      omega

/-- **Every step of the pool is paid for.** -/
theorem spend (hfits : tryNTimes n < 2 ^ 32) (h : (machine n τ).Reachable s) (he : enabled s e)
    {T : Finset τ} (hT : CalledIn T s) (hcall : ∀ x, called e = some x → x ∈ T) :
    left T (next s e) + 1 ≤ left T s + brought n e := by
  refine spend_of_sched he fun b hb => sched_spend hfits h hT (sched_enabled he hb) fun x hx => ?_
  cases e with
  | sched c =>
      cases hb
      exact hcall x (by rw [hx]; rfl)
  | ask | got | destroy =>
      cases hb
      cases hx
  | _ => cases hb

/-! ### Runs -/

def isCall (e : Event n τ) : Bool := (called e).isSome

def isSpurious : Event n τ → Bool
  | .sched (.inner _ (.spurious _ _)) => true
  | _ => false

def isDestroy : Event n τ → Bool
  | .destroy => true
  | _ => false

omit [DecidableEq τ] in
theorem brought_eq (e : Event n τ) : brought n e = (16 * n.size + 18) * (isCall e).toNat +
    3 * (isSpurious e).toNat + (8 * n.size + 4) * (isDestroy e).toNat := by
  cases e with
  | sched b =>
      cases b with
      | inner q m => cases m <;> simp [brought, isCall, isSpurious, isDestroy, called]
      | ctl b => cases b <;> simp [brought, isCall, isSpurious, isDestroy, called]
  | _ => simp [brought, isCall, isSpurious, isDestroy, called]

omit [DecidableEq τ] in
theorem sum_brought (es : List (Event n τ)) : (es.map (brought n)).sum =
    (16 * n.size + 18) * es.countP isCall + 3 * es.countP isSpurious +
      (8 * n.size + 4) * es.countP isDestroy := by
  rw [funext brought_eq, List.sum_map_add, List.sum_map_add, sum_toNat, sum_toNat, sum_toNat]

theorem left_initial (T : Finset τ) :
    left T (State.initial n τ) = n.size * (4 * n.size + 7) := by
  have hcallers : tally id (RrScheduler.callerLeft n (taskWorth n) 1
      (State.initial n τ).sched.ctl) (callers n T) = 0 :=
    tally_eq_zero fun u _ => by cases u <;> rfl
  have hobjects : Client.objectsLeft (Queue.budget τ (taskWorth n) 1) (callers n T)
      (State.initial n τ).sched.obj = 0 :=
    Finset.sum_eq_zero fun q _ =>
      Nat.add_eq_zero_iff.mpr ⟨tally_eq_zero fun u _ => rfl, Nat.mul_zero _⟩
  have hworkers : tally (runLeft n) (State.initial n τ).run Finset.univ =
      n.size * (4 * n.size + 7) := by
    calc ∑ w : Fin n.size, runLeft n ((State.initial n τ).run w)
        = (Finset.univ : Finset (Fin n.size)).card * (4 * n.size + 7) :=
          Finset.sum_const_nat fun _ _ => rfl
      _ = n.size * (4 * n.size + 7) := by rw [Finset.card_univ, Fintype.card_fin]
  have hjoin : joinLeft n (State.initial n τ).join = 0 := rfl
  rw [left, RrScheduler.left, hcallers, hobjects, hworkers, hjoin, Nat.add_zero, Nat.zero_add]

/-- A run from `s` in which `schedule` is called for tasks in `T`. -/
theorem length_le (hfits : tryNTimes n < 2 ^ 32) (h : (machine n τ).Reachable s) {T : Finset τ}
    (hT : CalledIn T s) {es : List (Event n τ)} (hrun : (machine n τ).Run s es)
    (hcall : ∀ e ∈ es, ∀ x, called e = some x → x ∈ T) :
    es.length + left T ((machine n τ).after s es) ≤ left T s + (es.map (brought n)).sum :=
  (hrun.amortised (I := fun s => (machine n τ).Reachable s ∧ CalledIn T s)
    (fun _ _ he hC hs => ⟨⟨hs.1.step he, hs.2.next he hC⟩, spend hfits hs.1 he hs.2 hC⟩)
    hcall ⟨h, hT⟩).2

/-- **A run of the pool is as long as its calls and wake-ups make it.** -/
theorem run_length (hfits : tryNTimes n < 2 ^ 32) {es : List (Event n τ)}
    (hrun : (machine n τ).Run (State.initial n τ) es) :
    es.length ≤ n.size * (4 * n.size + 7) + (16 * n.size + 18) * es.countP isCall +
      3 * es.countP isSpurious + (8 * n.size + 4) * es.countP isDestroy := by
  have hlength := length_le hfits (Machine.Reachable.of_init rfl)
    (T := (es.filterMap called).toFinset) (fun x hx => absurd rfl hx) hrun fun e he x hx =>
      List.mem_toFinset.mpr (List.mem_filterMap.mpr ⟨e, he, hx⟩)
  rw [left_initial, sum_brought] at hlength
  omega

/-! ### No task starves

Of a pool that is left to itself nothing is brought any more.  Its runs are bounded,
and where they end `rest_done` says what has become of the tasks. -/

/-- The steps of the pool and of the tasks it executes: nothing comes from outside. -/
def Proceeds (e : Event n τ) : Prop := own e = true ∨ ∃ w x, e = .finish w x

omit [DecidableEq τ] in
theorem Proceeds.called {e : Event n τ} (h : Proceeds e) : called e = none := by
  rcases h with hown | ⟨w, x, rfl⟩
  · cases e with
    | sched b =>
        cases b with
        | inner => rfl
        | ctl b =>
            cases b with
            | schedule => cases hown
            | _ => rfl
    | _ => rfl
  · rfl

omit [DecidableEq τ] in
theorem Proceeds.brought {e : Event n τ} (h : Proceeds e) : brought n e = 0 := by
  rcases h with hown | ⟨w, x, rfl⟩
  · cases e with
    | sched b =>
        cases b with
        | inner q m =>
            cases m with
            | spurious => cases hown
            | _ => rfl
        | ctl b =>
            cases b with
            | schedule => cases hown
            | _ => rfl
    | destroy => cases hown
    | _ => rfl
  · rfl

/-- The calls made so far are finitely many. -/
theorem calledIn (h : (machine n τ).Reachable s) : ∃ T, CalledIn T s := by
  refine h.invariant (I := fun s => ∃ T, CalledIn T s) ?_ ?_
  · intro s hs
    rw [show s = State.initial n τ from hs]
    exact ⟨∅, fun x hx => absurd rfl hx⟩
  · rintro s e _ he ⟨T, hT⟩
    refine ⟨T ∪ (called e).toFinset, CalledIn.next (fun x hx => ?_) he fun x hx => ?_⟩
    · exact Finset.mem_union_left _ (hT x hx)
    · exact Finset.mem_union_right _ (Option.mem_toFinset.mpr hx)

theorem Proceeds.alive {e : Event n τ} (h : Proceeds e) (he : enabled s e) :
    (next s e).join = .alive ↔ s.join = .alive := by
  cases e with
  | destroy =>
      rcases h with hown | ⟨w, x, hfinish⟩
      · cases hown
      · cases hfinish
  | cleared => exact iff_of_false nofun (by rw [he.1]; exact nofun)
  | joinThread w => exact iff_of_false nofun (by rw [he.1]; exact nofun)
  | joined => exact iff_of_false nofun (by rw [show s.join = .joining n.size from he]; exact nofun)
  | _ => exact Iff.rfl

theorem called_next {x : τ} (hx : s.sched.ctl.schedule x ≠ .uncalled) :
    (next s e).sched.ctl.schedule x ≠ .uncalled := by
  rw [sched_next]
  cases hb : seen e with
  | none => exact hx
  | some b =>
      cases b with
      | inner q m => exact hx
      | ctl b => exact RrScheduler.step_made b hx

theorem Proceeds.keeps (hes : ∀ e ∈ es, Proceeds e) (hrun : (machine n τ).Run s es) :
    (((machine n τ).after s es).join = .alive ↔ s.join = .alive) ∧
      ∀ x, s.sched.ctl.schedule x ≠ .uncalled →
        ((machine n τ).after s es).sched.ctl.schedule x ≠ .uncalled := by
  induction es generalizing s with
  | nil => exact ⟨Iff.rfl, fun _ hx => hx⟩
  | cons e es ih =>
      obtain ⟨he, hrest⟩ := hrun
      obtain ⟨hjoin, hcalls⟩ := ih (fun e' he' => hes e' (List.mem_cons_of_mem e he')) hrest
      exact ⟨hjoin.trans ((hes e List.mem_cons_self).alive he),
        fun x hx => hcalls x (called_next hx)⟩

/-- The pool and its tasks have come to an end: none of their steps is possible. -/
def Finished (s : State n τ) : Prop := ∀ e, Proceeds e → ¬ enabled s e

/-- **No task starves** in a pool whose `4 * N` is below `2 ^ 32`.  Left to itself, from any
state it can reach, such a pool comes to an end after a bounded number of steps, whichever
step is taken when.  If it has not been destroyed, it then has executed every task that
`schedule` was called for, exactly once; and otherwise the destructor is done and all
workers have left `run()`. -/
theorem no_task_starves (hfits : tryNTimes n < 2 ^ 32) (h : (machine n τ).Reachable s) :
    (∃ bound, ∀ es, (machine n τ).Run s es → (∀ e ∈ es, Proceeds e) → es.length ≤ bound) ∧
    (∃ es, (machine n τ).Run s es ∧ (∀ e ∈ es, Proceeds e) ∧
      Finished ((machine n τ).after s es)) ∧
    ∀ es, (machine n τ).Run s es → (∀ e ∈ es, Proceeds e) →
      Finished ((machine n τ).after s es) →
      (s.join = .alive → ∀ x, s.sched.ctl.schedule x ≠ .uncalled →
        ((machine n τ).after s es).executed.count x = 1) ∧
      (s.join ≠ .alive → ((machine n τ).after s es).join = .joined ∧
        ∀ w, ((machine n τ).after s es).run w = .exited) := by
  obtain ⟨T, hT⟩ := calledIn h
  have hnone : ∀ {e : Event n τ}, Proceeds e → ∀ x, called e = some x → x ∈ T := by
    intro e he x hx
    rw [he.called] at hx
    cases hx
  refine ⟨⟨left T s, fun es hrun hes => ?_⟩, ?_, fun es hrun hes hend => ?_⟩
  · have hlength := length_le hfits h hT hrun fun e he => hnone (hes e he)
    have hsum : (es.map (brought n)).sum = 0 :=
      List.sum_eq_zero fun k hk => by
        obtain ⟨e, he, rfl⟩ := List.mem_map.mp hk
        exact (hes e he).brought
    omega
  · refine Machine.exists_rest (M := machine n τ) (Φ := left T)
      (I := fun s => (machine n τ).Reachable s ∧ CalledIn T s) ?_ ⟨h, hT⟩
    intro s e he hA hs
    have hspend := spend hfits hs.1 he hs.2 (hnone hA)
    rw [hA.brought, Nat.add_zero] at hspend
    exact ⟨⟨hs.1.step he, hs.2.next he (hnone hA)⟩, hspend⟩
  · have hreach := h.reaches ⟨es, hrun, rfl⟩
    obtain ⟨hjoin, hcalls⟩ := Proceeds.keeps hes hrun
    have hrest : AtRest ((machine n τ).after s es) := fun e he => hend e (Or.inl he)
    have hidle : ∀ w x, ((machine n τ).after s es).run w ≠ .running x :=
      fun w x hx => hend (.finish w x) (Or.inr ⟨w, x, rfl⟩) hx
    exact ⟨fun hs x hx => hrest.executed hreach hidle (hjoin.mpr hs) x (hcalls x hx),
      fun hs => hrest.joined hreach hidle fun hs' => hs (hjoin.mp hs')⟩

theorem no_task_starves_pushedToSleeper :
    ∃ es, ((machine oneWorker Unit).after ((machine oneWorker Unit).after
      (State.initial oneWorker Unit) pushedToSleeper) es).executed.count () = 1 := by
  obtain ⟨-, ⟨es, hrun, hes, hend⟩, hall⟩ := no_task_starves (n := oneWorker) (τ := Unit)
    (s := (machine oneWorker Unit).after (State.initial oneWorker Unit) pushedToSleeper)
    (by decide) (Machine.Reachable.of_run rfl (by decide))
  exact ⟨es, (hall es hrun hes hend).1 rfl () (by decide)⟩

theorem run_length_pushedToSleeper : pushedToSleeper.length ≤ 45 := by
  have hlength : pushedToSleeper.length ≤ _ :=
    run_length (n := oneWorker) (τ := Unit) (by decide) (by decide)
  exact hlength.trans (by decide)

end ThreadPool

end Jar.Concurrency
