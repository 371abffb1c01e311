/-
# `Jar.Concurrency.Transfer` — where a task is inside the scheduler

A task handed to `schedule` is first in its caller's hands, then in a queue, and
then in the hands of the thread whose `try_pop` or `pop` took it, until that
thread returns from `scheduled()`.  Two readings of a scheduler state say where
it is, besides the containers themselves:

* `entered s x` — 1 once the call `schedule(x)` has put `x` into a queue;
* `hand s i` — the task thread `i` carries out of `scheduled()`.

`transfer` is the inversion lemma for the whole scheduler: every step either
moves no task, or puts one into a queue, or takes the front one out, or empties
a queue, or ends a `scheduled()` call.  What holds of tasks later on is read off
from these five cases and never from the steps themselves.
-/
import Jar.Concurrency.RrScheduler

namespace Jar.Concurrency

open Jar.Lib

namespace RrScheduler

variable {n : QueueCount} {ι τ κ : Type} [DecidableEq ι] [DecidableEq τ] [DecidableEq κ]

/-! ## Who is in which operation

Where a caller stands on a queue can be read off its own control: `Inside q op` is the
caller that has called `op` there and has not returned from it. -/

/-- The operations a caller can be in, and where its control then stands. -/
inductive Inside (n : QueueCount) (c : Control ι τ κ) :
    Caller ι τ κ → Fin n.size → Queue.Op τ → Prop
  | tryPop {i : ι} {k : BitVec 32} : c.scheduled i = .trying k →
      Inside n c (.scheduled i) (slot n (c.index i + k)) .tryPop
  | pop {i : ι} : c.scheduled i = .waiting → Inside n c (.scheduled i) (slot n (c.index i)) .pop
  | tryPush {x : τ} {index k : BitVec 32} : c.schedule x = .trying index k →
      Inside n c (.schedule x) (slot n (index + k)) (.tryPush x)
  | push {x : τ} {index : BitVec 32} : c.schedule x = .pushing index →
      Inside n c (.schedule x) (slot n index) (.push x)
  | clear {k : κ} {j : Fin n.size} : c.clear k = .clearing j → Inside n c (.clear k) j .clear

omit [DecidableEq ι] [DecidableEq τ] [DecidableEq κ] in
theorem inside_of_site {c : Control ι τ κ} {u : Caller ι τ κ} {q : Fin n.size} {op : Queue.Op τ}
    (h : site n c u = some (q, op)) : Inside n c u q op := by
  cases u with
  | scheduled i =>
      simp only [site] at h
      split at h
      · next k hk => cases h; exact .tryPop hk
      · next hw => cases h; exact .pop hw
      · cases h
  | schedule x =>
      simp only [site] at h
      split at h
      · next index k hk => cases h; exact .tryPush hk
      · next index hp => cases h; exact .push hp
      · cases h
  | clear k =>
      simp only [site] at h
      split at h
      · next j hj =>
          split at h
          · next hlt => cases h; exact .clear (j := ⟨j, hlt⟩) hj
          · cases h
      · cases h

/-- Where a caller stands in the queue operation it is in. -/
abbrev place (s : State n ι τ κ) (u : Caller ι τ κ) : Queue.Pc τ := (client n ι τ κ).place s u

/-- The tasks in queue `q`. -/
def contents (s : State n ι τ κ) (q : Fin n.size) : List τ := (s.obj q).core.container

/-- `m_is_cancelled` of queue `q`. -/
def cancelled (s : State n ι τ κ) (q : Fin n.size) : Bool := (s.obj q).core.isCancelled

abbrev Agree (s : State n ι τ κ) : Prop := (client n ι τ κ).Bound s

theorem agree {s : State n ι τ κ} (h : (machine n ι τ κ).Reachable s) : Agree s :=
  Client.bound (lawful n ι τ κ) h

theorem Agree.inside {s : State n ι τ κ} (h : Agree s) {q : Fin n.size} {u : Caller ι τ κ}
    {p : Queue.Pc τ} {op : Queue.Op τ} (hp : (s.obj q).pc u = p) (hop : p.op = some op) :
    Inside n s.ctl u q op :=
  inside_of_site (h.site_of_pc hp hop)

/-- A call of `schedule` inside `try_push` or `push`. -/
def Pushing : SchedulePc → Prop
  | .trying _ _ | .pushing _ => True
  | _ => False

instance : DecidablePred Pushing
  | .trying _ _ | .pushing _ => isTrue trivial
  | .uncalled | .entered | .looping _ _ | .returned => isFalse id

/-! ## Hands

Between the section that takes a task and the return of `scheduled()` the task is in
the hand of the thread that took it.  On the other side a task is in the hand of the
producer until it has entered a queue, and a call of `schedule()` that goes on after a
refusal has delivered nothing yet.  Asleep or woken, a thread carries nothing. -/

/-- The task a queue operation is about to return. -/
def carried : Queue.Pc τ → Option τ
  | .returned _ (.item task) => task
  | _ => none

/-- Whether an operation has pushed its task. -/
def delivered : Queue.Pc τ → ℕ
  | .notifyOne _ _ => 1
  | .returned (.push _) _ => 1
  | .returned (.tryPush _) (.pushed true) => 1
  | _ => 0

def handAt (p : ScheduledPc τ) (pl : Queue.Pc τ) : Option τ :=
  match p with
  | .done task => task
  | _ => carried pl

def enteredAt (p : SchedulePc) (pl : Queue.Pc τ) : ℕ :=
  match p with
  | .returned => 1
  | _ => delivered pl

/-- The task thread `i` carries out of `scheduled()`. -/
def hand (s : State n ι τ κ) (i : ι) : Option τ :=
  handAt (s.ctl.scheduled i) (place s (.scheduled i))

/-- 1 once the call `schedule(x)` has put `x` into a queue, 0 before. -/
def entered (s : State n ι τ κ) (x : τ) : ℕ :=
  enteredAt (s.ctl.schedule x) (place s (.schedule x))

omit [DecidableEq τ] in
theorem delivered_le_one (pl : Queue.Pc τ) : delivered pl ≤ 1 := by
  unfold delivered
  split <;> omega

theorem entered_le_one (s : State n ι τ κ) (x : τ) : entered s x ≤ 1 := by
  unfold entered enteredAt
  split
  · exact le_rfl
  · exact delivered_le_one _

theorem hand_same {s s' : State n ι τ κ} {i : ι}
    (hc : s'.ctl.scheduled i = s.ctl.scheduled i)
    (hp : place s' (.scheduled i) = place s (.scheduled i) ∨
      ∃ op, place s (.scheduled i) = .asleep op ∧ place s' (.scheduled i) = .woken op) :
    hand s' i = hand s i := by
  unfold hand
  rw [hc]
  rcases hp with hsame | ⟨op, hold, hnew⟩
  · rw [hsame]
  · rw [hold, hnew]
    cases s.ctl.scheduled i <;> rfl

theorem entered_same {s s' : State n ι τ κ} {x : τ}
    (hc : s'.ctl.schedule x = s.ctl.schedule x)
    (hp : place s' (.schedule x) = place s (.schedule x) ∨
      ∃ op, place s (.schedule x) = .asleep op ∧ place s' (.schedule x) = .woken op) :
    entered s' x = entered s x := by
  unfold entered
  rw [hc]
  rcases hp with hsame | ⟨op, hold, hnew⟩
  · rw [hsame]
  · rw [hold, hnew]
    cases s.ctl.schedule x <;> rfl

/-! ## The five ways a step moves tasks

A task enters, is taken, is handed to the caller, is thrown away with the rest of its
queue, or stays where it is. -/

/-- What a step does to the tasks. -/
inductive Transfer (s s' : State n ι τ κ) : Event n ι τ κ → Prop
  | quiet {e : Event n ι τ κ} (hleave : ∀ i task, e ≠ .ctl (.leave i task))
      (hclear : ∀ q t, e ≠ .inner q (.body t .clear))
      (hcontents : contents s' = contents s) (hhand : hand s' = hand s)
      (hentered : entered s' = entered s) : Transfer s s' e
  | enqueue {e : Event n ι τ κ} (q : Fin n.size) (x : τ)
      (hleave : ∀ i task, e ≠ .ctl (.leave i task))
      (hclear : ∀ q t, e ≠ .inner q (.body t .clear))
      (hin : Pushing (s.ctl.schedule x))
      (hfresh : entered s x = 0)
      (hcontents : contents s' = Function.update (contents s) q (contents s q ++ [x]))
      (hhand : hand s' = hand s)
      (hentered : entered s' = Function.update (entered s) x 1) : Transfer s s' e
  | take {e : Event n ι τ κ} (q : Fin n.size) (i : ι) (x : τ) (xs : List τ)
      (hleave : ∀ i task, e ≠ .ctl (.leave i task))
      (hclear : ∀ q t, e ≠ .inner q (.body t .clear))
      (hin : s.ctl.scheduled i ≠ .outside)
      (hhow : e = .inner q (.body (.scheduled i) .tryPop) ∨ cancelled s q = false)
      (hfront : contents s q = x :: xs) (hempty : hand s i = none)
      (hcontents : contents s' = Function.update (contents s) q xs)
      (hhand : hand s' = Function.update (hand s) i (some x))
      (hentered : entered s' = entered s) : Transfer s s' e
  | clear (q : Fin n.size) (k : κ)
      (hcontents : contents s' = Function.update (contents s) q [])
      (hhand : hand s' = hand s)
      (hentered : entered s' = entered s) : Transfer s s' (.inner q (.body (.clear k) .clear))
  | leave (i : ι) (task : Option τ) (htask : hand s i = task)
      (hdone : s.ctl.scheduled i = .done task)
      (hcontents : contents s' = contents s)
      (hhand : hand s' = Function.update (hand s) i none)
      (hentered : entered s' = entered s) : Transfer s s' (.ctl (.leave i task))

/-! ## Steps of control

A step of control touches no queue and moves nobody but its caller.  What a caller has
taken it carries on to the next step, so a task changes hands only where `scheduled()`
returns. -/

theorem step_scheduled_of_ne (c : Control ι τ κ) (e : Step n ι τ κ) {j : ι}
    (h : e.caller ≠ .scheduled j) : (step c e).scheduled j = c.scheduled j := by
  cases e with
  | enter i | initIndex i | readIndex i | tryPop i _ | tryPopRet i _ _ | pop i _ | popRet i _
  | leave i _ =>
      have hj : j ≠ i := by rintro rfl; exact h rfl
      simp [step, Control.setScheduled, hj]
  | _ => rfl

theorem step_schedule_of_ne (c : Control ι τ κ) (e : Step n ι τ κ) {x : τ}
    (h : e.caller ≠ .schedule x) : (step c e).schedule x = c.schedule x := by
  cases e with
  | schedule y | fetchPush y | tryPush y _ _ | tryPushRet y _ _ _ | push y _ _ | pushRet y _ =>
      have hx : x ≠ y := by rintro rfl; exact h rfl
      simp [step, Control.setSchedule, hx]
  | _ => rfl

theorem ctl_contents (s : State n ι τ κ) (e : Step n ι τ κ) :
    contents ((client n ι τ κ).next (Queue.object τ) s (.ctl e)) = contents s := by
  funext q
  exact congrArg Queue.Core.container (Client.ctl_core (P := client n ι τ κ) e q)

variable {s : State n ι τ κ} {e : Step n ι τ κ}

theorem ctl_place_of_ne (hs : Agree s)
    (he : (client n ι τ κ).enabled (Queue.object τ) s (.ctl e)) {u : Caller ι τ κ}
    (hu : u ≠ e.caller) :
    place ((client n ι τ κ).next (Queue.object τ) s (.ctl e)) u = place s u := by
  have hown := site_own (n := n) he.1
  cases ha : act s.ctl e with
  | silent => exact Client.ctl_place_silent (lawful n ι τ κ) he ha u
  | call q t op =>
      rw [ha] at hown
      exact (Client.ctl_place_call (lawful n ι τ κ) he ha).2.2 u (hown.1 ▸ hu)
  | ret q t op r =>
      rw [ha] at hown
      exact (Client.ctl_place_ret (lawful n ι τ κ) hs he ha).2.2 u (hown.1 ▸ hu)

theorem ctl_hand_of_ne (hs : Agree s)
    (he : (client n ι τ κ).enabled (Queue.object τ) s (.ctl e)) {j : ι}
    (hj : e.caller ≠ .scheduled j) :
    hand ((client n ι τ κ).next (Queue.object τ) s (.ctl e)) j = hand s j :=
  hand_same (step_scheduled_of_ne s.ctl e hj) (Or.inl (ctl_place_of_ne hs he (Ne.symm hj)))

theorem ctl_entered_of_ne (hs : Agree s)
    (he : (client n ι τ κ).enabled (Queue.object τ) s (.ctl e)) {x : τ}
    (hx : e.caller ≠ .schedule x) :
    entered ((client n ι τ κ).next (Queue.object τ) s (.ctl e)) x = entered s x :=
  entered_same (step_schedule_of_ne s.ctl e hx) (Or.inl (ctl_place_of_ne hs he (Ne.symm hx)))

/-- Within `scheduled()` a step of control keeps what the thread carries: a result
taken from a queue operation is carried on, and nothing else changes hands. -/
theorem ctl_hand (hs : Agree s) (he : (client n ι τ κ).enabled (Queue.object τ) s (.ctl e))
    (hleave : ∀ i task, e ≠ .leave i task) :
    hand ((client n ι τ κ).next (Queue.object τ) s (.ctl e)) = hand s := by
  funext j
  by_cases hj : e.caller = .scheduled j
  case neg => exact ctl_hand_of_ne hs he hj
  obtain ⟨hg, -⟩ := id he
  have hstep : ((client n ι τ κ).next (Queue.object τ) s (.ctl e)).ctl = step s.ctl e := rfl
  unfold hand
  rw [hstep]
  cases e with
  | enter i =>
      have hi : s.ctl.scheduled i = .outside := hg
      cases hj
      rw [show place _ _ = _ from Client.ctl_place_silent (lawful n ι τ κ) he rfl _]
      simp [step, Control.setScheduled, hi, handAt]
  | initIndex i =>
      have hi := hg.1
      cases hj
      rw [show place _ _ = _ from Client.ctl_place_silent (lawful n ι τ κ) he rfl _]
      simp [step, Control.setScheduled, hi, handAt]
  | readIndex i =>
      have hi := hg.1
      cases hj
      rw [show place _ _ = _ from Client.ctl_place_silent (lawful n ι τ κ) he rfl _]
      simp [step, Control.setScheduled, hi, handAt]
  | tryPop i k =>
      have hi := hg.1
      cases hj
      obtain ⟨hidle, hcall, -⟩ := Client.ctl_place_call (lawful n ι τ κ) he rfl
      rw [show place s _ = _ from hidle, show place _ _ = _ from hcall]
      simp [step, Control.setScheduled, hi, handAt, carried]
  | tryPopRet i k task =>
      have hi : s.ctl.scheduled i = .trying k := hg
      cases hj
      obtain ⟨hret, hidle, -⟩ := Client.ctl_place_ret (lawful n ι τ κ) hs he rfl
      rw [show place s _ = _ from hret, show place _ _ = _ from hidle]
      cases task <;> simp [step, Control.setScheduled, hi, handAt, carried]
  | pop i k =>
      have hi := hg.1
      cases hj
      obtain ⟨hidle, hcall, -⟩ := Client.ctl_place_call (lawful n ι τ κ) he rfl
      rw [show place s _ = _ from hidle, show place _ _ = _ from hcall]
      simp [step, Control.setScheduled, hi, handAt, carried]
  | popRet i task =>
      have hi : s.ctl.scheduled i = .waiting := hg
      cases hj
      obtain ⟨hret, hidle, -⟩ := Client.ctl_place_ret (lawful n ι τ κ) hs he rfl
      rw [show place s _ = _ from hret, show place _ _ = _ from hidle]
      simp [step, Control.setScheduled, hi, handAt, carried]
  | leave i task => exact absurd rfl (hleave i task)
  | _ => cases hj

/-- A step of control neither delivers a task nor forgets that it was delivered:
a failed attempt leaves the loop where it was, a successful one ends it. -/
theorem ctl_entered (hs : Agree s) (he : (client n ι τ κ).enabled (Queue.object τ) s (.ctl e)) :
    entered ((client n ι τ κ).next (Queue.object τ) s (.ctl e)) = entered s := by
  funext y
  by_cases hy : e.caller = .schedule y
  case neg => exact ctl_entered_of_ne hs he hy
  obtain ⟨hg, -⟩ := id he
  have hstep : ((client n ι τ κ).next (Queue.object τ) s (.ctl e)).ctl = step s.ctl e := rfl
  unfold entered
  rw [hstep]
  cases e with
  | schedule x =>
      have hx : s.ctl.schedule x = .uncalled := hg
      cases hy
      rw [show place _ _ = _ from Client.ctl_place_silent (lawful n ι τ κ) he rfl _]
      simp [step, Control.setSchedule, hx, enteredAt]
  | fetchPush x =>
      have hx : s.ctl.schedule x = .entered := hg
      cases hy
      rw [show place _ _ = _ from Client.ctl_place_silent (lawful n ι τ κ) he rfl _]
      simp [step, Control.setSchedule, hx, enteredAt]
  | tryPush x index k =>
      have hx := hg.1
      cases hy
      obtain ⟨hidle, hcall, -⟩ := Client.ctl_place_call (lawful n ι τ κ) he rfl
      rw [show place s _ = _ from hidle, show place _ _ = _ from hcall]
      simp [step, Control.setSchedule, hx, enteredAt, delivered]
  | tryPushRet x index k ok =>
      have hx : s.ctl.schedule x = .trying index k := hg
      cases hy
      obtain ⟨hret, hidle, -⟩ := Client.ctl_place_ret (lawful n ι τ κ) hs he rfl
      rw [show place s _ = _ from hret, show place _ _ = _ from hidle]
      cases ok <;> simp [step, Control.setSchedule, hx, enteredAt, delivered]
  | push x index k =>
      have hx := hg.1
      cases hy
      obtain ⟨hidle, hcall, -⟩ := Client.ctl_place_call (lawful n ι τ κ) he rfl
      rw [show place s _ = _ from hidle, show place _ _ = _ from hcall]
      simp [step, Control.setSchedule, hx, enteredAt, delivered]
  | pushRet x index =>
      have hx : s.ctl.schedule x = .pushing index := hg
      cases hy
      obtain ⟨hret, hidle, -⟩ := Client.ctl_place_ret (lawful n ι τ κ) hs he rfl
      rw [show place s _ = _ from hret, show place _ _ = _ from hidle]
      simp [step, Control.setSchedule, hx, enteredAt, delivered]
  | _ => cases hy

/-- A thread outside `scheduled()` carries nothing. -/
theorem hand_outside {i : ι} (hi : s.ctl.scheduled i = .outside) : hand s i = none := by
  have hidle : place s (.scheduled i) = .idle :=
    Client.place_of_idle (show site n s.ctl (.scheduled i) = none by simp [site, hi])
  unfold hand
  rw [hidle, hi]
  rfl

/-- Returning from `scheduled()` hands the task over to the caller. -/
theorem leave_hand (hs : Agree s) {i : ι} {task : Option τ}
    (he : (client n ι τ κ).enabled (Queue.object τ) s (.ctl (.leave i task))) :
    hand s i = task ∧ hand ((client n ι τ κ).next (Queue.object τ) s (.ctl (.leave i task))) =
      Function.update (hand s) i none := by
  have hi : s.ctl.scheduled i = .done task := he.1
  refine ⟨by simp [hand, hi, handAt], Function.eq_update_iff.mpr ⟨?_, ?_⟩⟩
  · exact hand_outside (by simp [Client.next, client, step, Control.setScheduled])
  · intro j hj
    refine ctl_hand_of_ne hs he ?_
    rintro ⟨⟩
    exact hj rfl

theorem ctl_transfer (hs : Agree s)
    (he : (client n ι τ κ).enabled (Queue.object τ) s (.ctl e)) :
    Transfer s ((client n ι τ κ).next (Queue.object τ) s (.ctl e)) (.ctl e) := by
  by_cases hleave : ∃ i task, e = .leave i task
  · obtain ⟨i, task, rfl⟩ := hleave
    obtain ⟨htask, hhand⟩ := leave_hand hs he
    exact .leave i task htask he.1 (ctl_contents s _) hhand (ctl_entered hs he)
  · have hne : ∀ i task, e ≠ .leave i task := fun i task h => hleave ⟨i, task, h⟩
    refine .quiet ?_ ?_ (ctl_contents s e) (ctl_hand hs he hne) (ctl_entered hs he)
    · intro i task h
      cases h
      exact hne i task rfl
    · rintro q t ⟨⟩

/-! ## Steps inside a queue

Here the one step that matters is the critical section, for it alone changes the
container.  It is run by a thread that carries nothing and has delivered nothing, and
only that thread's hand changes with it. -/

section Inner

variable {q : Fin n.size} {m : Monitor.Event (Caller ι τ κ) (Queue.Op τ) (Queue.Ret τ)}

theorem inner_contents (s : State n ι τ κ) (q : Fin n.size)
    (m : Monitor.Event (Caller ι τ κ) (Queue.Op τ) (Queue.Ret τ)) :
    contents ((client n ι τ κ).next (Queue.object τ) s (.inner q m)) =
      Function.update (contents s) q ((s.obj q).next (Queue.object τ) m).core.container := by
  refine Function.eq_update_iff.mpr ⟨?_, ?_⟩
  · simp [contents, Client.next]
  · intro q' hq
    simp [contents, Client.next, hq]

theorem inner_contents_same (hcore : ((s.obj q).next (Queue.object τ) m).core = (s.obj q).core) :
    contents ((client n ι τ κ).next (Queue.object τ) s (.inner q m)) = contents s := by
  rw [inner_contents, hcore]
  exact Function.update_eq_self q (contents s)

omit [DecidableEq τ] in
theorem handAt_congr {p : ScheduledPc τ} {pl pl' : Queue.Pc τ} (h : carried pl' = carried pl) :
    handAt p pl' = handAt p pl := by
  cases p with
  | done task => rfl
  | _ => exact h

omit [DecidableEq τ] in
theorem enteredAt_congr {p : SchedulePc} {pl pl' : Queue.Pc τ} (h : delivered pl' = delivered pl) :
    enteredAt p pl' = enteredAt p pl := by
  cases p with
  | returned => rfl
  | _ => exact h

theorem inner_hand_of_ne (he : (client n ι τ κ).enabled (Queue.object τ) s (.inner q m)) {j : ι}
    (hj : Caller.scheduled j ≠ m.thread) :
    hand ((client n ι τ κ).next (Queue.object τ) s (.inner q m)) j = hand s j :=
  hand_same rfl (Client.inner_place_of_ne he hj)

theorem inner_entered_of_ne (he : (client n ι τ κ).enabled (Queue.object τ) s (.inner q m)) {x : τ}
    (hx : Caller.schedule x ≠ m.thread) :
    entered ((client n ι τ κ).next (Queue.object τ) s (.inner q m)) x = entered s x :=
  entered_same rfl (Client.inner_place_of_ne he hx)

theorem inner_hand (hs : Agree s) (he : (client n ι τ κ).enabled (Queue.object τ) s (.inner q m))
    (h : carried (m.target (Queue.object τ) (s.obj q).core) = carried m.source) :
    hand ((client n ι τ κ).next (Queue.object τ) s (.inner q m)) = hand s := by
  funext j
  by_cases hj : Caller.scheduled j = m.thread
  · obtain ⟨hsrc, htgt⟩ := hs.inner_place he
    rw [← hj] at hsrc htgt
    refine handAt_congr ?_
    rw [show place s (.scheduled j) = _ from hsrc, show place _ (.scheduled j) = _ from htgt]
    exact h
  · exact inner_hand_of_ne he hj

theorem inner_entered (hs : Agree s)
    (he : (client n ι τ κ).enabled (Queue.object τ) s (.inner q m))
    (h : delivered (m.target (Queue.object τ) (s.obj q).core) = delivered m.source) :
    entered ((client n ι τ κ).next (Queue.object τ) s (.inner q m)) = entered s := by
  funext x
  by_cases hx : Caller.schedule x = m.thread
  · obtain ⟨hsrc, htgt⟩ := hs.inner_place he
    rw [← hx] at hsrc htgt
    refine enteredAt_congr ?_
    rw [show place s (.schedule x) = _ from hsrc, show place _ (.schedule x) = _ from htgt]
    exact h
  · exact inner_entered_of_ne he hx

omit [DecidableEq ι] [DecidableEq τ] [DecidableEq κ] in
theorem not_leave (i : ι) (task : Option τ) :
    (.inner q m : Event n ι τ κ) ≠ .ctl (.leave i task) := by
  rintro ⟨⟩

/-- A step that runs no critical section moves no task. -/
theorem inner_quiet (hs : Agree s) (he : (client n ι τ κ).enabled (Queue.object τ) s (.inner q m))
    (hbody : ∀ t op, m ≠ .body t op)
    (hcore : ((s.obj q).next (Queue.object τ) m).core = (s.obj q).core)
    (hc : carried (m.target (Queue.object τ) (s.obj q).core) = carried m.source)
    (hd : delivered (m.target (Queue.object τ) (s.obj q).core) = delivered m.source) :
    Transfer s ((client n ι τ κ).next (Queue.object τ) s (.inner q m)) (.inner q m) := by
  refine .quiet not_leave ?_ (inner_contents_same hcore) (inner_hand hs he hc)
    (inner_entered hs he hd)
  intro q' t h
  cases h
  exact hbody t .clear rfl

/-- Step `m` inside queue `q` runs a critical section of `op` that ends as `o`. -/
structure Section (s : State n ι τ κ) (q : Fin n.size)
    (m : Monitor.Event (Caller ι τ κ) (Queue.Op τ) (Queue.Ret τ)) (op : Queue.Op τ)
    (o : Monitor.Outcome (Queue.Core τ) (Queue.Ret τ)) : Prop where
  agree : Agree s
  enabled : (client n ι τ κ).enabled (Queue.object τ) s (.inner q m)
  form : m = .body m.thread op ∨ (m = .again m.thread op ∧ op = .pop)
  core : ((s.obj q).next (Queue.object τ) m).core = o.core (s.obj q).core
  target : m.target (Queue.object τ) (s.obj q).core = o.pc op

namespace Section

variable {op : Queue.Op τ} {o : Monitor.Outcome (Queue.Core τ) (Queue.Ret τ)}

theorem source (h : Section s q m op o) :
    carried m.source = none ∧ delivered m.source = 0 ∧ m.source.op = some op := by
  rcases h.form with hm | ⟨hm, -⟩ <;> rw [hm] <;> exact ⟨rfl, rfl, rfl⟩

theorem inside (h : Section s q m op o) : Inside n s.ctl m.thread q op :=
  h.agree.inside (Monitor.enabled_source h.enabled.2) h.source.2.2

theorem not_clear (h : Section s q m op o) (hop : op ≠ .clear) (q' : Fin n.size)
    (t : Caller ι τ κ) : (.inner q m : Event n ι τ κ) ≠ .inner q' (.body t .clear) := by
  intro heq
  cases heq
  rcases h.form with hm | ⟨hm, -⟩
  · cases hm; exact hop rfl
  · cases hm

theorem quiet (h : Section s q m op o) (hop : op ≠ .clear)
    (hsame : o.core (s.obj q).core = (s.obj q).core) (hc : carried (o.pc op) = none)
    (hd : delivered (o.pc op) = 0) :
    Transfer s ((client n ι τ κ).next (Queue.object τ) s (.inner q m)) (.inner q m) := by
  obtain ⟨hcarried, hdelivered, -⟩ := h.source
  exact .quiet not_leave (h.not_clear hop) (inner_contents_same (h.core.trans hsame))
    (inner_hand h.agree h.enabled (by rw [h.target, hc, hcarried]))
    (inner_entered h.agree h.enabled (by rw [h.target, hd, hdelivered]))

theorem take {x : τ} {xs : List τ} {c' : Queue.Core τ}
    (h : Section s q m op (.done c' (.item (some x)) .none)) (hc' : c'.container = xs)
    (hfront : contents s q = x :: xs) (hop : op = .pop ∨ op = .tryPop)
    (hhow : m = .body m.thread .tryPop ∨ cancelled s q = false) :
    Transfer s ((client n ι τ κ).next (Queue.object τ) s (.inner q m)) (.inner q m) := by
  obtain ⟨hcarried, hdelivered, -⟩ := h.source
  obtain ⟨hsrc, htgt⟩ := h.agree.inner_place h.enabled
  obtain ⟨i, hi, hp⟩ : ∃ i, m.thread = .scheduled i ∧
      (s.ctl.scheduled i = .waiting ∨ ∃ k, s.ctl.scheduled i = .trying k) := by
    have hinside := h.inside
    generalize m.thread = t at hinside
    cases hinside with
    | tryPop hi => exact ⟨_, rfl, Or.inr ⟨_, hi⟩⟩
    | pop hi => exact ⟨_, rfl, Or.inl hi⟩
    | _ => rcases hop with h | h <;> cases h
  have hhand : ∀ pl : Queue.Pc τ, handAt (s.ctl.scheduled i) pl = carried pl := by
    intro pl
    rcases hp with hp | ⟨k, hp⟩ <;> rw [hp] <;> rfl
  have hne : op ≠ .clear := by rcases hop with h | h <;> rw [h] <;> exact nofun
  rw [hi] at hsrc htgt
  refine .take q i x xs not_leave (h.not_clear hne) ?_ ?_ hfront ?_ ?_ ?_ ?_
  · rcases hp with hp | ⟨k, hp⟩ <;> rw [hp] <;> exact nofun
  · rw [← hi]
    rcases hhow with h | h
    · exact Or.inl (congrArg _ h)
    · exact Or.inr h
  · show handAt (s.ctl.scheduled i) (place s (.scheduled i)) = none
    rw [hhand, show place s (.scheduled i) = _ from hsrc, hcarried]
  · rw [inner_contents, h.core, ← hc']
    rfl
  · refine Function.eq_update_iff.mpr ⟨?_, ?_⟩
    · show handAt (s.ctl.scheduled i) (place _ (.scheduled i)) = some x
      rw [hhand, show place _ (.scheduled i) = _ from htgt, h.target]
      rfl
    · intro j hj
      refine inner_hand_of_ne h.enabled ?_
      rw [hi]
      rintro ⟨⟩
      exact hj rfl
  · refine inner_entered h.agree h.enabled ?_
    rw [h.target, hdelivered]
    rcases hop with h | h <;> rw [h] <;> rfl

theorem push {x : τ} {r : Queue.Ret τ} {c' : Queue.Core τ}
    (h : Section s q m op (.done c' r .one)) (hc' : c'.container = contents s q ++ [x])
    (hop : op = .push x ∨ op = .tryPush x) :
    Transfer s ((client n ι τ κ).next (Queue.object τ) s (.inner q m)) (.inner q m) := by
  obtain ⟨hcarried, hdelivered, -⟩ := h.source
  obtain ⟨hsrc, htgt⟩ := h.agree.inner_place h.enabled
  obtain ⟨hx, hp⟩ : m.thread = .schedule x ∧ Pushing (s.ctl.schedule x) := by
    have hinside := h.inside
    generalize m.thread = t at hinside
    cases hinside with
    | tryPush hx =>
        rcases hop with heq | heq <;> cases heq
        exact ⟨rfl, by rw [hx]; trivial⟩
    | push hx =>
        rcases hop with heq | heq <;> cases heq
        exact ⟨rfl, by rw [hx]; trivial⟩
    | _ => rcases hop with heq | heq <;> cases heq
  have hent : ∀ pl : Queue.Pc τ, enteredAt (s.ctl.schedule x) pl = delivered pl := by
    intro pl
    unfold enteredAt
    split
    · next h => rw [h] at hp; exact hp.elim
    · rfl
  have hne : op ≠ .clear := by rcases hop with h | h <;> rw [h] <;> exact nofun
  rw [hx] at hsrc htgt
  refine .enqueue q x not_leave (h.not_clear hne) hp ?_ ?_ (inner_hand h.agree h.enabled ?_) ?_
  · show enteredAt (s.ctl.schedule x) (place s (.schedule x)) = 0
    rw [hent, show place s (.schedule x) = _ from hsrc, hdelivered]
  · rw [inner_contents, h.core, ← hc']
    rfl
  · rw [h.target, hcarried]
    rfl
  · refine Function.eq_update_iff.mpr ⟨?_, ?_⟩
    · show enteredAt (s.ctl.schedule x) (place _ (.schedule x)) = 1
      rw [hent, show place _ (.schedule x) = _ from htgt, h.target]
      rfl
    · intro y hy
      refine inner_entered_of_ne h.enabled ?_
      rw [hx]
      rintro ⟨⟩
      exact hy rfl

theorem clear {c' : Queue.Core τ} (h : Section s q m .clear (.done c' .unit .all))
    (hc' : c'.container = []) :
    Transfer s ((client n ι τ κ).next (Queue.object τ) s (.inner q m)) (.inner q m) := by
  obtain ⟨hcarried, hdelivered, -⟩ := h.source
  have hm := h.form
  rcases hm with hm | ⟨-, hop⟩
  case inr => cases hop
  obtain ⟨k, hk⟩ : ∃ k, m.thread = .clear k := by
    have hinside := h.inside
    generalize m.thread = t at hinside
    cases hinside with
    | clear h => exact ⟨_, rfl⟩
  have hcont := inner_contents s q m
  have hhand := inner_hand h.agree h.enabled (by rw [h.target, hcarried]; rfl)
  have hent := inner_entered h.agree h.enabled (by rw [h.target, hdelivered]; rfl)
  rw [h.core, show (Monitor.Outcome.core (s.obj q).core (.done c' Queue.Ret.unit .all)).container
    = [] from hc'] at hcont
  rw [hk] at hm
  subst hm
  exact .clear q k hcont hhand hent

theorem transfer (h : Section s q m op o) (heff : Queue.Effect (s.obj q).core op o) :
    Transfer s ((client n ι τ κ).next (Queue.object τ) s (.inner q m)) (.inner q m) := by
  cases heff with
  | sleep => exact h.quiet nofun rfl rfl rfl
  | cancelled => exact h.quiet nofun rfl rfl rfl
  | empty => exact h.quiet nofun rfl rfl rfl
  | popped hopen hfront => exact h.take rfl hfront (Or.inl rfl) (Or.inr hopen)
  | tryPopped hfront =>
      refine h.take rfl hfront (Or.inr rfl) (Or.inl ?_)
      rcases h.form with hm | ⟨-, hop⟩
      · exact hm
      · cases hop
  | pushed => exact h.push rfl (Or.inl rfl)
  | tryPushed => exact h.push rfl (Or.inr rfl)
  | cleared => exact h.clear rfl

end Section

theorem inner_transfer {s : State n ι τ κ} (h : (machine n ι τ κ).Reachable s)
    (he : (client n ι τ κ).enabled (Queue.object τ) s (.inner q m)) :
    Transfer s ((client n ι τ κ).next (Queue.object τ) s (.inner q m)) (.inner q m) := by
  have hs := agree h
  have hsound := fun t => Monitor.pc_sound (Client.obj_reachable h q) t
  cases m with
  | call | ret => cases he.1
  | body t op =>
      exact Section.transfer ⟨hs, he, Or.inl rfl, Monitor.finish_core _ t op _, rfl⟩
        (Queue.body_effect op _)
  | again t op =>
      have hpop : op = .pop := by
        refine Queue.blocks_pop ?_
        have hsnd := hsound t
        rwa [show (s.obj q).pc t = _ from he.2] at hsnd
      exact Section.transfer ⟨hs, he, Or.inr ⟨rfl, hpop⟩, Monitor.finish_core _ t op _, rfl⟩
        (Queue.again_effect op _)
  | lock t op => exact inner_quiet hs he nofun rfl rfl rfl
  | refuse t op r =>
      obtain ⟨-, href⟩ := he.2
      cases op with
      | tryPop => cases href; exact inner_quiet hs he nofun rfl rfl rfl
      | tryPush x => cases href; exact inner_quiet hs he nofun rfl rfl rfl
      | _ => cases href
  | notifyOne t op r u =>
      have hem : (Queue.object τ).Emits op r .one := by
        have hsnd := hsound t
        rwa [he.2.1] at hsnd
      obtain ⟨x, ⟨rfl, rfl⟩ | ⟨rfl, rfl⟩⟩ := Queue.emits_one hem
      · exact inner_quiet hs he nofun rfl rfl rfl
      · exact inner_quiet hs he nofun rfl rfl rfl
  | notifyAll t op r =>
      have hem : (Queue.object τ).Emits op r .all := by
        have hsnd := hsound t
        rwa [show (s.obj q).pc t = _ from he.2] at hsnd
      obtain ⟨rfl, rfl⟩ := Queue.emits_all hem
      exact inner_quiet hs he nofun rfl rfl rfl
  | spurious t op => exact inner_quiet hs he nofun rfl rfl rfl
  | relock t op => exact inner_quiet hs he nofun rfl rfl rfl

end Inner

/-- **Every step moves tasks in one of five ways.** -/
theorem transfer {s : State n ι τ κ} (h : (machine n ι τ κ).Reachable s) {e : Event n ι τ κ}
    (he : (machine n ι τ κ).Enabled s e) : Transfer s ((machine n ι τ κ).next s e) e := by
  cases e with
  | ctl e => exact ctl_transfer (agree h) he
  | inner q m => exact inner_transfer h he

end RrScheduler

end Jar.Concurrency
