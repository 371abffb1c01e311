/-
# `Jar.Concurrency.SharedBag` — the scheduler is a bag

What `rr_scheduler` is for can be said without its queues, its indices, its attempts and
its refusals: tasks are given to it, threads take them, `clear()` closes it.  Here the
scheduler is followed, step by step, by `Jar.Lib.Bag`:

| a call of    | takes effect                                                         |
|--------------|----------------------------------------------------------------------|
| `schedule`   | when the task is appended to a queue, whichever attempt that is      |
| `scheduled`  | when the task is taken off a queue, or `pop` comes back without one  |
| `clear`      | bit by bit, when it empties a queue                                  |

So every run of the scheduler shows its users the calls and returns of a run of the bag
(`follows_bag`), however many queues there are and however the threads interleave; what
no bag shows, no scheduler shows (`taken_once`).  The order in which a bag hands tasks
out is free, and so is the scheduler's.
-/
import Jar.Concurrency.Rest
import Jar.Lib.Bag
import Mathlib.Data.Multiset.Basic

namespace Jar.Concurrency

open Jar.Lib

namespace RrScheduler

variable {n : QueueCount} {ι τ κ : Type} [DecidableEq ι] [DecidableEq τ] [DecidableEq κ]
variable {s : State n ι τ κ} {e : Event n ι τ κ}

/-! ## The scheduler as its users see it

The bag has the tasks of all queues, and every caller is where its own control says;
what a thread carries inside `scheduled()` it has taken out of the bag. -/

/-- A call of `schedule` that has not begun or has returned; or one under way, before its
task is in a queue or after. -/
def giverAt : SchedulePc → ℕ → Bag.Giver
  | .uncalled, _ => .idle
  | .returned, _ => .done
  | _, 0 => .giving
  | _, _ + 1 => .given

def takerAt : ScheduledPc τ → Option τ → Bag.Taker τ
  | .outside, _ => .idle
  | .done task, _ => .took task
  | _, some x => .took (some x)
  | _, none => .taking

def closerAt : ClearPc → Bag.Closer
  | .uncalled => .idle
  | .returned => .closed
  | _ => .closing

/-- The tasks of all the queues. -/
def pooled (f : Fin n.size → List τ) : Multiset τ := ∑ q, (f q : Multiset τ)

def bagView (s : State n ι τ κ) : Bag.State ι τ κ where
  content := pooled (contents s)
  giver x := giverAt (s.ctl.schedule x) (entered s x)
  taker i := takerAt (s.ctl.scheduled i) (hand s i)
  closer k := closerAt (s.ctl.clear k)

/-- The calls of the three functions and their returns. -/
def shown : Event n ι τ κ → Option (Bag.Label ι τ κ)
  | .ctl (.schedule x) => some (.give x)
  | .ctl (.tryPushRet x _ _ true) | .ctl (.pushRet x _) => some (.gave x)
  | .ctl (.enter i) => some (.take i)
  | .ctl (.leave i task) => some (.took i task)
  | .ctl (.clear k) => some (.close k)
  | .ctl (.clearRet k) => some (.closed k)
  | _ => none

/-! ## Emptying and filling one queue -/

omit [DecidableEq τ] in
/-- What leaves one queue and what enters it, against the tasks of all. -/
theorem pooled_update (f : Fin n.size → List τ) (q : Fin n.size) (xs : List τ) :
    pooled (Function.update f q xs) + (f q : Multiset τ) = pooled f + (xs : Multiset τ) := by
  have hold : pooled f = (f q : Multiset τ) + ∑ p ∈ Finset.univ \ {q}, (f p : Multiset τ) :=
    Finset.sum_eq_add_sum_sdiff_singleton_of_mem (Finset.mem_univ q) _
  have hnew : pooled (Function.update f q xs) =
      (xs : Multiset τ) + ∑ p ∈ Finset.univ \ {q}, (f p : Multiset τ) := by
    have hcomp : (fun p => (Function.update f q xs p : Multiset τ)) =
        Function.update (fun p => (f p : Multiset τ)) q (xs : Multiset τ) :=
      Function.comp_update (fun l : List τ => (l : Multiset τ)) f q xs
    rw [pooled, hcomp]
    exact Finset.sum_update_of_mem (Finset.mem_univ q) _ _
  rw [hold, hnew]
  ac_rfl

section

omit [DecidableEq τ]

theorem pooled_append (f : Fin n.size → List τ) (q : Fin n.size) (x : τ) :
    pooled (Function.update f q (f q ++ [x])) = x ::ₘ pooled f := by
  have hupdate := pooled_update f q (f q ++ [x])
  rw [← Multiset.coe_add, ← add_assoc, add_right_comm] at hupdate
  have hcancel := add_right_cancel hupdate
  rw [hcancel, Multiset.coe_singleton, add_comm, Multiset.singleton_add]

theorem pooled_front {f : Fin n.size → List τ} {q : Fin n.size} {x : τ} {xs : List τ}
    (hfront : f q = x :: xs) : pooled f = x ::ₘ pooled (Function.update f q xs) := by
  have hupdate := pooled_update f q xs
  rw [hfront, ← Multiset.cons_coe, ← Multiset.singleton_add, ← add_assoc] at hupdate
  have hcancel := add_right_cancel hupdate
  rw [← hcancel, add_comm, Multiset.singleton_add]

theorem pooled_nil (f : Fin n.size → List τ) (q : Fin n.size) :
    pooled f = pooled (Function.update f q []) + (f q : Multiset τ) := by
  have hupdate := pooled_update f q []
  rw [Multiset.coe_nil, add_zero] at hupdate
  exact hupdate.symm

end

/-! ## Steps of control

A step of control moves its own caller and no task.  Seen by the users it is a call, a
return, or nothing. -/

theorem bagView_ctl (hs : Agree s) {e : Step n ι τ κ} (he : (machine n ι τ κ).Enabled s (.ctl e))
    (hleave : ∀ i task, e ≠ .leave i task) :
    bagView ((machine n ι τ κ).next s (.ctl e)) =
      { content := (bagView s).content
        giver := fun x => giverAt ((step s.ctl e).schedule x) (entered s x)
        taker := fun i => takerAt ((step s.ctl e).scheduled i) (hand s i)
        closer := fun k => closerAt ((step s.ctl e).clear k) } := by
  unfold bagView
  rw [show contents ((machine n ι τ κ).next s (.ctl e)) = contents s from ctl_contents s e,
    show entered ((machine n ι τ κ).next s (.ctl e)) = entered s from ctl_entered hs he,
    show hand ((machine n ι τ κ).next s (.ctl e)) = hand s from ctl_hand hs he hleave]
  rfl

theorem bagView_schedule (hs : Agree s) {e : Step n ι τ κ} {x : τ} (hx : e.caller = .schedule x)
    (he : (machine n ι τ κ).Enabled s (.ctl e)) :
    bagView ((machine n ι τ κ).next s (.ctl e)) =
      { bagView s with
        giver := Function.update (bagView s).giver x
          (giverAt ((step s.ctl e).schedule x) (entered s x)) } := by
  have hother : ∀ u, u ≠ .schedule x → e.caller ≠ u := fun u hu hcall => hu (hcall.symm.trans hx)
  rw [bagView_ctl hs he (by rintro i task rfl; cases hx)]
  congr 1
  · refine Function.eq_update_iff.mpr ⟨rfl, fun y hy => ?_⟩
    have hne : e.caller ≠ .schedule y := hother _ fun heq => hy (by cases heq; rfl)
    simp only [step_schedule_of_ne s.ctl e hne, bagView]
  · funext i
    simp only [step_scheduled_of_ne s.ctl e (hother (.scheduled i) (by simp)), bagView]
  · funext k
    simp only [step_clear_of_ne s.ctl e (hother (.clear k) (by simp)), bagView]

theorem bagView_scheduled (hs : Agree s) {e : Step n ι τ κ} {i : ι} (hi : e.caller = .scheduled i)
    (he : (machine n ι τ κ).Enabled s (.ctl e)) (hleave : ∀ i task, e ≠ .leave i task) :
    bagView ((machine n ι τ κ).next s (.ctl e)) =
      { bagView s with
        taker := Function.update (bagView s).taker i
          (takerAt ((step s.ctl e).scheduled i) (hand s i)) } := by
  have hother : ∀ u, u ≠ .scheduled i → e.caller ≠ u := fun u hu hcall => hu (hcall.symm.trans hi)
  rw [bagView_ctl hs he hleave]
  congr 1
  · funext x
    simp only [step_schedule_of_ne s.ctl e (hother (.schedule x) (by simp)), bagView]
  · refine Function.eq_update_iff.mpr ⟨rfl, fun j hj => ?_⟩
    have hne : e.caller ≠ .scheduled j := hother _ fun heq => hj (by cases heq; rfl)
    simp only [step_scheduled_of_ne s.ctl e hne, bagView]
  · funext k
    simp only [step_clear_of_ne s.ctl e (hother (.clear k) (by simp)), bagView]

theorem bagView_leave (hs : Agree s) {i : ι} {task : Option τ}
    (he : (machine n ι τ κ).Enabled s (.ctl (.leave i task))) :
    bagView ((machine n ι τ κ).next s (.ctl (.leave i task))) =
      { bagView s with taker := Function.update (bagView s).taker i .idle } := by
  obtain ⟨-, hhand⟩ := leave_hand hs he
  unfold bagView
  rw [show contents ((machine n ι τ κ).next s (.ctl (.leave i task))) = contents s from
      ctl_contents s _,
    show entered ((machine n ι τ κ).next s (.ctl (.leave i task))) = entered s from
      ctl_entered hs he,
    show hand ((machine n ι τ κ).next s (.ctl (.leave i task))) = _ from hhand]
  congr 1
  refine Function.eq_update_iff.mpr ⟨?_, fun j hj => ?_⟩
  · show takerAt (Function.update s.ctl.scheduled i .outside i) _ = .idle
    rw [Function.update_self]
    rfl
  · show takerAt (Function.update s.ctl.scheduled i .outside j) _ = _
    rw [Function.update_of_ne hj, Function.update_of_ne hj]

theorem bagView_clear (hs : Agree s) {e : Step n ι τ κ} {k : κ} (hk : e.caller = .clear k)
    (he : (machine n ι τ κ).Enabled s (.ctl e)) :
    bagView ((machine n ι τ κ).next s (.ctl e)) =
      { bagView s with
        closer := Function.update (bagView s).closer k (closerAt ((step s.ctl e).clear k)) } := by
  have hother : ∀ u, u ≠ .clear k → e.caller ≠ u := fun u hu hcall => hu (hcall.symm.trans hk)
  rw [bagView_ctl hs he (by rintro i task rfl; cases hk)]
  congr 1
  · funext x
    simp only [step_schedule_of_ne s.ctl e (hother (.schedule x) (by simp)), bagView]
  · funext i
    simp only [step_scheduled_of_ne s.ctl e (hother (.scheduled i) (by simp)), bagView]
  · refine Function.eq_update_iff.mpr ⟨rfl, fun l hl => ?_⟩
    have hne : e.caller ≠ .clear l := hother _ fun heq => hl (by cases heq; rfl)
    simp only [step_clear_of_ne s.ctl e hne, bagView]

/-- A step that is followed: by nothing, or by one step of the bag that shows the same. -/
def Followed (s : State n ι τ κ) (e : Event n ι τ κ) : Prop :=
  (bagView ((machine n ι τ κ).next s e) = bagView s ∧ shown e = none) ∨
    ∃ b, Bag.enabled (bagView s) b ∧
      bagView ((machine n ι τ κ).next s e) = Bag.next (bagView s) b ∧ b.label = shown e

theorem followed_loop (hs : Agree s) {e : Step n ι τ κ} {x : τ} (hx : e.caller = .schedule x)
    (he : (machine n ι τ κ).Enabled s (.ctl e)) (hshown : shown (.ctl e : Event n ι τ κ) = none)
    (hsame : giverAt ((step s.ctl e).schedule x) (entered s x) = (bagView s).giver x) :
    Followed s (.ctl e) := by
  refine Or.inl ⟨?_, hshown⟩
  rw [bagView_schedule hs hx he, hsame, Function.update_eq_self]

theorem followed_gave (hs : Agree s) {e : Step n ι τ κ} {x : τ} (hx : e.caller = .schedule x)
    (he : (machine n ι τ κ).Enabled s (.ctl e)) (hshown : shown (.ctl e) = some (.gave x))
    (hpushing : Pushing (s.ctl.schedule x)) (hreturned : (step s.ctl e).schedule x = .returned) :
    Followed s (.ctl e) := by
  have hentered : entered s x = 1 := by
    rw [← ctl_entered hs he]
    show enteredAt ((step s.ctl e).schedule x) _ = 1
    rw [hreturned]
    rfl
  refine Or.inr ⟨.gave x, ?_, ?_, hshown.symm⟩
  · show giverAt (s.ctl.schedule x) (entered s x) = .given
    rw [hentered]
    cases hpc : s.ctl.schedule x with
    | uncalled | entered | looping | returned =>
        rw [hpc] at hpushing
        cases hpushing
    | trying | pushing => rfl
  · rw [bagView_schedule hs hx he, hreturned]
    rfl

theorem followed_schedule (hs : Agree s) {e : Step n ι τ κ} {x : τ} (hx : e.caller = .schedule x)
    (he : (machine n ι τ κ).Enabled s (.ctl e)) : Followed s (.ctl e) := by
  have hg : guard n s.ctl e := he.1
  cases e with
  | schedule y =>
      cases hx
      have hidle : s.ctl.schedule x = .uncalled := hg
      have hfresh : entered s x = 0 := by
        unfold entered
        rw [hidle, show place s (.schedule x) = .idle from Client.place_of_idle
          (show site n s.ctl (.schedule x) = none by simp [site, hidle])]
        rfl
      refine Or.inr ⟨.give x, ?_, ?_, rfl⟩
      · show giverAt (s.ctl.schedule x) (entered s x) = .idle
        rw [hidle]
        rfl
      · rw [bagView_schedule hs rfl he, hfresh]
        simp only [step, Control.setSchedule, Function.update_self]
        rfl
  | fetchPush y =>
      cases hx
      have hpc : s.ctl.schedule x = .entered := hg
      refine followed_loop hs rfl he rfl ?_
      simp only [bagView, hpc, step, Control.setSchedule, Function.update_self]
      cases entered s x <;> rfl
  | tryPush y index k =>
      cases hx
      refine followed_loop hs rfl he rfl ?_
      simp only [bagView, hg.1, step, Control.setSchedule, Function.update_self]
      cases entered s x <;> rfl
  | tryPushRet y index k ok =>
      cases hx
      have hpc : s.ctl.schedule x = .trying index k := hg
      cases ok with
      | true =>
          refine followed_gave hs rfl he rfl (by rw [hpc]; trivial) ?_
          simp [step, Control.setSchedule]
      | false =>
          refine followed_loop hs rfl he rfl ?_
          simp only [bagView, hpc, step, Control.setSchedule, Function.update_self]
          cases entered s x <;> rfl
  | push y index k =>
      cases hx
      refine followed_loop hs rfl he rfl ?_
      simp only [bagView, hg.1, step, Control.setSchedule, Function.update_self]
      cases entered s x <;> rfl
  | pushRet y index =>
      cases hx
      have hpc : s.ctl.schedule x = .pushing index := hg
      refine followed_gave hs rfl he rfl (by rw [hpc]; trivial) ?_
      simp [step, Control.setSchedule]
  | _ => cases hx

theorem followed_scan (hs : Agree s) {e : Step n ι τ κ} {i : ι} (hi : e.caller = .scheduled i)
    (he : (machine n ι τ κ).Enabled s (.ctl e)) (hleave : ∀ i task, e ≠ .leave i task)
    (hshown : shown (.ctl e : Event n ι τ κ) = none)
    (hsame : takerAt ((step s.ctl e).scheduled i) (hand s i) = (bagView s).taker i) :
    Followed s (.ctl e) := by
  refine Or.inl ⟨?_, hshown⟩
  rw [bagView_scheduled hs hi he hleave, hsame, Function.update_eq_self]

/-- What a thread carries is what it is back with. -/
theorem hand_done (hs : Agree s) {e : Step n ι τ κ} {i : ι} {task : Option τ}
    (he : (machine n ι τ κ).Enabled s (.ctl e)) (hleave : ∀ i task, e ≠ .leave i task)
    (hdone : (step s.ctl e).scheduled i = .done task) : hand s i = task := by
  rw [← ctl_hand hs he hleave]
  show handAt ((step s.ctl e).scheduled i) _ = task
  rw [hdone]
  rfl

theorem followed_scheduled (h : (machine n ι τ κ).Reachable s) {e : Step n ι τ κ} {i : ι}
    (hi : e.caller = .scheduled i) (he : (machine n ι τ κ).Enabled s (.ctl e)) :
    Followed s (.ctl e) := by
  have hs := agree h
  have hg : guard n s.ctl e := he.1
  cases e with
  | enter j =>
      cases hi
      have hout : s.ctl.scheduled i = .outside := hg
      refine Or.inr ⟨.take i, ?_, ?_, rfl⟩
      · show takerAt (s.ctl.scheduled i) (hand s i) = .idle
        rw [hout]
        rfl
      · rw [bagView_scheduled hs rfl he (by simp), hand_outside hout]
        simp only [step, Control.setScheduled, Function.update_self]
        rfl
  | initIndex j =>
      cases hi
      refine followed_scan hs rfl he (by simp) rfl ?_
      simp only [bagView, hg.1, step, Control.setScheduled, Function.update_self]
      cases hand s i <;> rfl
  | readIndex j =>
      cases hi
      refine followed_scan hs rfl he (by simp) rfl ?_
      simp only [bagView, hg.1, step, Control.setScheduled, Function.update_self]
      cases hand s i <;> rfl
  | tryPop j k =>
      cases hi
      refine followed_scan hs rfl he (by simp) rfl ?_
      simp only [bagView, hg.1, step, Control.setScheduled, Function.update_self]
      cases hand s i <;> rfl
  | tryPopRet j k task =>
      cases hi
      have hpc : s.ctl.scheduled i = .trying k := hg
      refine followed_scan hs rfl he (by simp) rfl ?_
      cases task with
      | none =>
          simp only [bagView, hpc, step, Control.setScheduled, Function.update_self]
          cases hand s i <;> rfl
      | some x =>
          have hhand : hand s i = some x :=
            hand_done hs he (by simp) (by simp [step, Control.setScheduled])
          simp only [bagView, hpc, hhand, step, Control.setScheduled, Function.update_self]
          rfl
  | pop j k =>
      cases hi
      refine followed_scan hs rfl he (by simp) rfl ?_
      simp only [bagView, hg.1, step, Control.setScheduled, Function.update_self]
      cases hand s i <;> rfl
  | popRet j task =>
      cases hi
      have hpc : s.ctl.scheduled i = .waiting := hg
      have hdone : (step s.ctl (.popRet i task : Step n ι τ κ)).scheduled i = .done task := by
        simp [step, Control.setScheduled]
      have hhand : hand s i = task := hand_done hs he (by simp) hdone
      cases task with
      | some x =>
          refine followed_scan hs rfl he (by simp) rfl ?_
          simp only [bagView, hpc, hhand, hdone]
          rfl
      | none =>
          -- `pop` comes back without a task only from a queue that was cancelled
          obtain ⟨q, hq⟩ := nothing_cancelled (h.step he) hdone
          obtain ⟨k, hk⟩ := clear_called (h.step he) hq
          have hcalled : s.ctl.clear k ≠ .uncalled := hk
          refine Or.inr ⟨.nothing i, ⟨?_, k, ?_⟩, ?_, rfl⟩
          · show takerAt (s.ctl.scheduled i) (hand s i) = .taking
            rw [hpc, hhand]
            rfl
          · show closerAt (s.ctl.clear k) ≠ .idle
            cases hpc : s.ctl.clear k with
            | uncalled => exact absurd hpc hcalled
            | looping | clearing | returned => simp [closerAt]
          · rw [bagView_scheduled hs rfl he (by simp), hdone]
            rfl
  | leave j task =>
      cases hi
      have hpc : s.ctl.scheduled i = .done task := hg
      refine Or.inr ⟨.took i task, ?_, ?_, rfl⟩
      · show takerAt (s.ctl.scheduled i) (hand s i) = .took task
        rw [hpc]
        rfl
      · exact bagView_leave hs he
  | _ => cases hi

theorem followed_clear (hs : Agree s) {e : Step n ι τ κ} {k : κ} (hk : e.caller = .clear k)
    (he : (machine n ι τ κ).Enabled s (.ctl e)) : Followed s (.ctl e) := by
  have hg : guard n s.ctl e := he.1
  cases e with
  | clear l =>
      cases hk
      have hidle : s.ctl.clear k = .uncalled := hg
      refine Or.inr ⟨.close k, ?_, ?_, rfl⟩
      · show closerAt (s.ctl.clear k) = .idle
        rw [hidle]
        rfl
      · rw [bagView_clear hs rfl he]
        simp only [step, Control.setClear, Function.update_self]
        rfl
  | clearQueue l j =>
      cases hk
      have hpc : s.ctl.clear k = .looping j := hg
      refine Or.inl ⟨?_, rfl⟩
      rw [bagView_clear hs rfl he, Function.update_eq_self_iff.mpr]
      simp only [bagView, hpc, step, Control.setClear, Function.update_self]
      rfl
  | clearQueueRet l j =>
      cases hk
      have hpc : s.ctl.clear k = .clearing j := hg
      refine Or.inl ⟨?_, rfl⟩
      rw [bagView_clear hs rfl he, Function.update_eq_self_iff.mpr]
      simp only [bagView, hpc, step, Control.setClear, Function.update_self]
      rfl
  | clearRet l =>
      cases hk
      have hpc : s.ctl.clear k = .looping n.size := hg
      refine Or.inr ⟨.closed k, ?_, ?_, rfl⟩
      · show closerAt (s.ctl.clear k) = .closing
        rw [hpc]
        rfl
      · rw [bagView_clear hs rfl he]
        simp only [step, Control.setClear, Function.update_self]
        rfl
  | _ => cases hk

/-! ## Steps inside the queues

A step inside a queue moves tasks, and nobody else; the sections are where the bag
puts and picks. -/

theorem bagView_inner {q : Fin n.size} {m : Monitor.Event (Caller ι τ κ) (Queue.Op τ) (Queue.Ret τ)}
    {s' : State n ι τ κ} (hs' : s' = (machine n ι τ κ).next s (.inner q m))
    {f : Fin n.size → List τ} (hcontents : contents s' = f) {g : ι → Option τ} (hhand : hand s' = g)
    {k : τ → ℕ} (hentered : entered s' = k) :
    bagView s' =
      { content := pooled f
        giver := fun x => giverAt (s.ctl.schedule x) (k x)
        taker := fun i => takerAt (s.ctl.scheduled i) (g i)
        closer := (bagView s).closer } := by
  subst hcontents hhand hentered hs'
  rfl

theorem followed_inner (h : (machine n ι τ κ).Reachable s) {q : Fin n.size}
    {m : Monitor.Event (Caller ι τ κ) (Queue.Op τ) (Queue.Ret τ)}
    (he : (machine n ι τ κ).Enabled s (.inner q m)) : Followed s (.inner q m) := by
  cases transfer h he with
  | quiet _ _ hcontents hhand hentered =>
      exact Or.inl ⟨bagView_inner rfl hcontents hhand hentered, rfl⟩
  | enqueue q' x _ _ hin hfresh hcontents hhand hentered =>
      refine Or.inr ⟨.put x, ?_, ?_, rfl⟩
      · show giverAt (s.ctl.schedule x) (entered s x) = .giving
        rw [hfresh]
        cases hpc : s.ctl.schedule x with
        | uncalled | entered | looping | returned =>
            rw [hpc] at hin
            cases hin
        | trying | pushing => rfl
      · rw [bagView_inner rfl hcontents hhand hentered, pooled_append]
        refine congrArg (fun g => Bag.State.mk _ g _ _) (Function.eq_update_iff.mpr
          ⟨?_, fun y hy => ?_⟩)
        · rw [Function.update_self]
          cases hpc : s.ctl.schedule x with
          | uncalled | entered | looping | returned =>
              rw [hpc] at hin
              cases hin
          | trying | pushing => rfl
        · rw [Function.update_of_ne hy]
          rfl
  | take q' i x xs _ _ hin _ hfront hempty hcontents hhand hentered =>
      have hpooled := pooled_front hfront
      -- the thread is still in its loop: a thread that is done carries what it is done with
      have hpc : takerAt (s.ctl.scheduled i) none = .taking ∧
          takerAt (s.ctl.scheduled i) (some x) = .took (some x) := by
        have hnew : hand ((machine n ι τ κ).next s (.inner q m)) i = some x := by
          rw [show hand ((machine n ι τ κ).next s (.inner q m)) = _ from hhand,
            Function.update_self]
        cases hpc : s.ctl.scheduled i with
        | outside => exact absurd hpc hin
        | done task =>
            have hold : hand s i = task := by simp [hand, hpc, handAt]
            change handAt (s.ctl.scheduled i) _ = some x at hnew
            rw [hpc] at hnew
            rw [hempty] at hold
            change task = some x at hnew
            rw [hnew] at hold
            cases hold
        | entered | scanning | trying | waiting => exact ⟨rfl, rfl⟩
      refine Or.inr ⟨.pick i x, ⟨?_, ?_⟩, ?_, rfl⟩
      · show takerAt (s.ctl.scheduled i) (hand s i) = .taking
        rw [hempty]
        exact hpc.1
      · show x ∈ pooled (contents s)
        rw [hpooled]
        exact Multiset.mem_cons_self x _
      · rw [bagView_inner rfl hcontents hhand hentered]
        have hcontent : pooled (Function.update (contents s) q' xs) =
            (pooled (contents s)).erase x := by rw [hpooled, Multiset.erase_cons_head]
        rw [hcontent]
        refine congrArg (fun f => Bag.State.mk _ _ f _) (Function.eq_update_iff.mpr
          ⟨?_, fun j hj => ?_⟩)
        · rw [Function.update_self]
          exact hpc.2
        · rw [Function.update_of_ne hj]
          rfl
  | clear q' k hcontents hhand hentered =>
      have hinside := (agree h).inside
        (show (s.obj q).pc (.clear k) = .holding .clear from he.2) rfl
      have hclosing : closerAt (s.ctl.clear k) = .closing := by
        cases hinside with
        | clear hk =>
            rw [hk]
            rfl
      refine Or.inr ⟨.discard k (contents s q), ⟨hclosing, ?_⟩, ?_, rfl⟩
      · show (contents s q : Multiset τ) ≤ pooled (contents s)
        rw [pooled_nil (contents s) q]
        exact Multiset.le_add_left _ _
      · rw [bagView_inner rfl hcontents hhand hentered]
        refine congrArg (fun c => Bag.State.mk c _ _ _) ?_
        show pooled (Function.update (contents s) q []) = pooled (contents s) - contents s q
        rw [pooled_nil (contents s) q, Multiset.add_sub_cancel_right]

/-! ## The simulation -/

/-- **Every step of the scheduler is followed by the bag.** -/
theorem followed (h : (machine n ι τ κ).Reachable s) (he : (machine n ι τ κ).Enabled s e) :
    Followed s e := by
  cases e with
  | inner q m => exact followed_inner h he
  | ctl e =>
      cases hcaller : e.caller with
      | schedule x => exact followed_schedule (agree h) hcaller he
      | scheduled i => exact followed_scheduled h hcaller he
      | clear k => exact followed_clear (agree h) hcaller he

theorem bagView_initial {s : State n ι τ κ} (hs : (machine n ι τ κ).Init s) :
    bagView s = Bag.State.initial := by
  obtain ⟨⟨threadIndex, hctl⟩, hobj⟩ := hs
  have hcontents : contents s = fun _ => [] := by
    funext q
    rw [contents, hobj]
    rfl
  have hpooled : pooled (fun _ : Fin n.size => ([] : List τ)) = 0 := Finset.sum_const_zero
  unfold bagView
  rw [hcontents, hpooled, hctl]
  rfl

/-- The scheduler, followed by the bag. -/
def bagSimulation (n : QueueCount) (ι τ κ : Type) [DecidableEq ι] [DecidableEq τ]
    [DecidableEq κ] :
    (machine n ι τ κ).Simulation (Bag.machine ι τ κ) shown Bag.Event.label where
  view := bagView
  init _ hs := bagView_initial hs
  step _ _ h he := followed h he

variable {es : List (Event n ι τ κ)}

/-- **The scheduler is a bag.**  Whatever calls and returns a run of `rr_scheduler` shows, a
run of the bag shows them too, and ends with the tasks that are in the queues. -/
theorem follows_bag (hs : (machine n ι τ κ).Init s) (h : (machine n ι τ κ).Run s es) :
    ∃ bs, (Bag.machine ι τ κ).Run Bag.State.initial bs ∧
      (Bag.machine ι τ κ).after Bag.State.initial bs =
        bagView ((machine n ι τ κ).after s es) ∧
      Machine.observed Bag.Event.label bs = Machine.observed shown es := by
  obtain ⟨bs, hbs, hafter, hshown⟩ :=
    (bagSimulation n ι τ κ).run (Machine.Reachable.of_init hs) h
  rw [show (bagSimulation n ι τ κ).view s = Bag.State.initial from bagView_initial hs]
    at hbs hafter
  exact ⟨bs, hbs, hafter, hshown⟩

/-- **A task is handed out once**, to one thread, and only after `schedule` was called for it. -/
theorem taken_once (hs : (machine n ι τ κ).Init s) (h : (machine n ι τ κ).Run s es) (x : τ) :
    (Machine.observed shown es).countP (Bag.Label.hands x) ≤ 1 ∧
      (0 < (Machine.observed shown es).countP (Bag.Label.hands x) →
        .give x ∈ Machine.observed shown es) :=
  (bagSimulation n ι τ κ).observed
    (P := fun ls => ls.countP (Bag.Label.hands x) ≤ 1 ∧
      (0 < ls.countP (Bag.Label.hands x) → .give x ∈ ls))
    (fun _ _ ha hbs => by
      rw [show _ = Bag.State.initial from ha] at hbs
      exact Bag.take_once hbs x) hs h

/-- One task is scheduled, found and returned. -/
def handedOut : List (Event QueueCount.two Bool Unit Unit) :=
  [.ctl (.schedule ()), .ctl (.fetchPush ()), .ctl (.tryPush () 0 0),
   .inner 0 (.lock (.schedule ()) (.tryPush ())), .inner 0 (.body (.schedule ()) (.tryPush ())),
   .inner 0 (.notifyOne (.schedule ()) (.tryPush ()) (.pushed true) none),
   .ctl (.tryPushRet () 0 0 true), .ctl (.enter false), .ctl (.initIndex false),
   .ctl (.tryPop false 0), .inner 0 (.lock (.scheduled false) .tryPop),
   .inner 0 (.body (.scheduled false) .tryPop), .ctl (.tryPopRet false 0 (some ())),
   .ctl (.leave false (some ()))]

/-- The scheduler before its first call. -/
def unused : State QueueCount.two Bool Unit Unit :=
  ⟨.initial fun _ => none, fun _ => Monitor.State.initial Queue.Core.empty⟩

theorem unused_init : (machine QueueCount.two Bool Unit Unit).Init unused := ⟨⟨_, rfl⟩, rfl⟩

theorem handedOut_run : (machine QueueCount.two Bool Unit Unit).Run unused handedOut := by
  decide

theorem follows_bag_handedOut :
    ∃ bs, (Bag.machine Bool Unit Unit).Run Bag.State.initial bs ∧
      Machine.observed Bag.Event.label bs =
        [.give (), .gave (), .take false, .took false (some ())] := by
  obtain ⟨bs, hbs, -, hshown⟩ := follows_bag unused_init handedOut_run
  exact ⟨bs, hbs, hshown⟩

theorem taken_once_handedOut :
    Bag.Label.give () ∈ Machine.observed shown handedOut :=
  (taken_once unused_init handedOut_run ()).2 (by decide)

end RrScheduler

end Jar.Concurrency
