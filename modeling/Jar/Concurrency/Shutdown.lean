/-
# `Jar.Concurrency.Shutdown` — what still runs after `clear()`

Once `clear()` has returned every queue is cancelled, and a blocking `pop` on a
cancelled queue gives no task.  But `push` and `try_push` go on accepting tasks,
and `try_pop` does not look at the flag: a task scheduled after `clear()` is
taken out by the next scan and executed (`rescheduled`), so a task that
schedules itself again keeps its worker, and the destructor, going for ever.

A push onto a cancelled queue is called late (`PushesLate`).  In the runs without
one shutdown is final, `nothing_new_after_clear`:

    scheduled()   begun after clear() returned: gives nothing, after at most 4 N + 7 steps
    run()         executes the task it holds, if any, and ends
    join()        joins the workers and ends

That these end is said without assuming anything about the order in which threads
are scheduled.  The steps left to them are bounded, however many others are taken
in between; and as long as they are not done one of their steps can be taken, or a
late push can, by a thread that has a mutex they wait for.
-/
import Jar.Concurrency.StepBounds

namespace Jar.Concurrency

open Jar.Lib

namespace RrScheduler

variable {n : QueueCount} {ι τ κ : Type} [DecidableEq ι] [DecidableEq τ] [DecidableEq κ]
variable {s : State n ι τ κ} {e : Event n ι τ κ}

/-! ## Late pushes

A push is late when its critical section finds the queue cancelled.  It is the only
way for a task to come into a cancelled queue, so where no push is late the cancelled
queues are empty. -/

/-- A task is put into a cancelled queue. -/
def PushesLate (s : State n ι τ κ) : Event n ι τ κ → Prop
  | .inner q (.body _ (.push _)) => cancelled s q = true
  | .inner q (.body _ (.tryPush _)) => cancelled s q = true
  | _ => False

instance (s : State n ι τ κ) (e : Event n ι τ κ) : Decidable (PushesLate s e) := by
  unfold PushesLate
  split <;> infer_instance

/-- Cancelled queues are empty. -/
def Emptied (s : State n ι τ κ) : Prop := ∀ q, cancelled s q = true → contents s q = []

omit [DecidableEq τ] in
theorem effect_keeps_empty {c : Queue.Core τ} {op : Queue.Op τ}
    {o : Monitor.Outcome (Queue.Core τ) (Queue.Ret τ)} (heff : Queue.Effect c op o)
    (hpush : ∀ x, op = .push x ∨ op = .tryPush x → c.isCancelled = false)
    (ih : c.isCancelled = true → c.container = [])
    (hc : (o.core c).isCancelled = true) : (o.core c).container = [] := by
  cases heff with
  | sleep | cancelled | empty => exact ih hc
  | popped hopen => rw [show c.isCancelled = true from hc] at hopen; cases hopen
  | tryPopped hfront => rw [ih hc] at hfront; cases hfront
  | pushed =>
      rw [hpush _ (Or.inl rfl)] at hc
      cases hc
  | tryPushed =>
      rw [hpush _ (Or.inr rfl)] at hc
      cases hc
  | cleared => rfl

theorem Emptied.next (hs : Emptied s) (h : (machine n ι τ κ).Reachable s)
    (he : (machine n ι τ κ).Enabled s e) (hlate : ¬ PushesLate s e) :
    Emptied ((machine n ι τ κ).next s e) := by
  intro q hq
  change (((client n ι τ κ).next (Queue.object τ) s e).obj q).core.isCancelled = true at hq
  show (((client n ι τ κ).next (Queue.object τ) s e).obj q).core.container = []
  rcases Client.next_core (P := client n ι τ κ) (M := Queue.object τ) s e q with
    hcore | ⟨m, rfl, hobj⟩
  · rw [hcore] at hq ⊢
    exact hs q hq
  rw [hobj] at hq ⊢
  rcases Monitor.next_core (M := Queue.object τ) (s := s.obj q) (e := m) with
    hsame | ⟨t, op, rfl, hcore⟩ | ⟨t, op, rfl, hcore⟩
  · rw [hsame] at hq ⊢
    exact hs q hq
  · rw [hcore] at hq ⊢
    refine effect_keeps_empty (Queue.body_effect op _) ?_ (hs q) hq
    intro x hop
    refine Bool.eq_false_iff.mpr fun hc => hlate ?_
    rcases hop with rfl | rfl <;> exact hc
  · have hpop : op = .pop := by
      have hsound := Monitor.pc_sound (Client.obj_reachable h q) t
      rw [show (s.obj q).pc t = _ from he.2] at hsound
      exact Queue.blocks_pop hsound
    rw [hcore] at hq ⊢
    refine effect_keeps_empty (Queue.again_effect op _) ?_ (hs q) hq
    intro x hop
    rw [hpop] at hop
    rcases hop with h | h <;> cases h

theorem Emptied.of_init (hs : (machine n ι τ κ).Init s) : Emptied s := by
  intro q hq
  rw [cancelled, hs.2] at hq
  cases hq

/-! ## After `clear()`

The queues are cancelled and nobody sleeps on them; without late pushes they are empty
for good, and no thread comes to carry a task. -/

/-- Every queue is cancelled and empty, and nobody sleeps: what `clear()` leaves when
nothing is pushed late. -/
structure Shut (s : State n ι τ κ) : Prop where
  closed : ∀ q, Queue.Closed (s.obj q)
  emptied : Emptied s

theorem shut (h : ((machine n ι τ κ).restrict fun s e => ¬ PushesLate s e).Reachable s) {k : κ}
    (hk : s.ctl.clear k = .returned) : Shut s := by
  refine ⟨all_closed h.of_restrict hk, ?_⟩
  exact h.invariant (fun _ hs => .of_init hs) fun _ _ hr he ih => ih.next hr.of_restrict he.1 he.2

omit [DecidableEq ι] [DecidableEq τ] [DecidableEq κ] in
theorem Shut.empty (hs : Shut s) (q : Fin n.size) : contents s q = [] :=
  hs.emptied q (hs.closed q).1

omit [DecidableEq ι] [DecidableEq τ] [DecidableEq κ] in
theorem Shut.awake (hs : Shut s) (q : Fin n.size) (t : Caller ι τ κ) (op : Queue.Op τ) :
    (s.obj q).pc t ≠ .asleep op :=
  (hs.closed q).2 t op

theorem Shut.next (hs : Shut s) (h : (machine n ι τ κ).Reachable s)
    (he : (machine n ι τ κ).Enabled s e) (hlate : ¬ PushesLate s e) :
    Shut ((machine n ι τ κ).next s e) := by
  refine ⟨fun q => ?_, hs.emptied.next h he hlate⟩
  cases hseen : (client n ι τ κ).seen q s e with
  | none =>
      rw [show ((machine n ι τ κ).next s e).obj q = s.obj q from
        Client.next_obj_of_seen_none hseen]
      exact hs.closed q
  | some b =>
      obtain ⟨hb, hnext⟩ := Client.next_obj_of_seen_some he hseen
      rw [show ((machine n ι τ κ).next s e).obj q = _ from hnext]
      exact (hs.closed q).next hb

theorem Shut.hand_next (hs : Shut s) (h : (machine n ι τ κ).Reachable s)
    (he : (machine n ι τ κ).Enabled s e) {i : ι} {x : τ}
    (hx : hand ((machine n ι τ κ).next s e) i = some x) : hand s i = some x := by
  cases transfer h he with
  | quiet _ _ _ hhand => rw [← hhand]; exact hx
  | enqueue _ _ _ _ _ _ _ hhand => rw [← hhand]; exact hx
  | take q j y ys _ _ _ _ hfront =>
      rw [hs.empty q] at hfront
      cases hfront
  | clear _ _ _ hhand => rw [← hhand]; exact hx
  | leave j task _ _ _ hhand =>
      rw [hhand] at hx
      exact (some_of_update_none hx).2

theorem Shut.hand_none (hs : Shut s) (h : (machine n ι τ κ).Reachable s)
    (he : (machine n ι τ κ).Enabled s e) {i : ι} (hi : hand s i = none) :
    hand ((machine n ι τ κ).next s e) i = none :=
  Option.eq_none_iff_forall_ne_some.mpr fun x hx => by
    rw [hs.hand_next h he hx] at hi
    cases hi

/-! ### A call of `scheduled()` comes to its end

Each step of the thread uses one of a bounded number of steps, and such a step is
there unless somebody else has the mutex of the queue: then that one can move. -/

/-- The caller can take a step, or waits for the mutex of a queue that another has, who
can. -/
def CanMove (s : State n ι τ κ) (u : Caller ι τ κ) : Prop :=
  ∃ e, (machine n ι τ κ).Enabled s e ∧
    (doer e = u ∨ ∃ q m, e = .inner q m ∧ ((s.obj q).pc u).waits = true ∧ m.source.holds = true)

theorem CanMove.ctl {e : Step n ι τ κ} (he : (machine n ι τ κ).Enabled s (.ctl e)) :
    CanMove s e.caller :=
  ⟨.ctl e, he, Or.inl rfl⟩

theorem CanMove.of_site (h : (machine n ι τ κ).Reachable s) {u : Caller ι τ κ} {q : Fin n.size}
    {op : Queue.Op τ} (hu : site n s.ctl u = some (q, op)) (hawake : (s.obj q).pc u ≠ .asleep op)
    (hback : ∀ r, (s.obj q).pc u = .returned op r → Queue.Returns op r → CanMove s u) :
    CanMove s u := by
  rcases Client.inside_cases (lawful n ι τ κ) h hu with
    ⟨hasleep, -⟩ | ⟨r, hr⟩ | ⟨m, -, hm, hwho⟩
  · exact absurd hasleep hawake
  · have hsound := Monitor.pc_sound (Client.obj_reachable h q) u
    rw [hr] at hsound
    exact hback r hr (Queue.returns_of_sound hsound)
  · exact ⟨.inner q m, hm, hwho.imp id fun hwaits => ⟨q, m, rfl, hwaits⟩⟩

theorem CanMove.scheduled (h : (machine n ι τ κ).Reachable s) {i : ι}
    (hin : s.ctl.scheduled i ≠ .outside)
    (hawake : ∀ q op, (s.obj q).pc (.scheduled i) ≠ .asleep op) : CanMove s (.scheduled i) := by
  have hidle := callable h (u := .scheduled i)
  cases hi : s.ctl.scheduled i with
  | outside => exact absurd hi hin
  | done task => exact .ctl (e := .leave i task) ⟨hi, trivial⟩
  | entered =>
      by_cases hindex : s.ctl.threadIndex i = none
      · exact .ctl (e := .initIndex i) ⟨⟨hi, hindex⟩, trivial⟩
      · exact .ctl (e := .readIndex i) ⟨⟨hi, hindex⟩, trivial⟩
  | scanning k =>
      have hcall := hidle (by simp [site, hi])
      by_cases hk : k.toNat = n.size
      · exact .ctl (e := .pop i k) ⟨⟨hi, hk⟩, hcall _⟩
      · exact .ctl (e := .tryPop i k) ⟨⟨hi, hk⟩, hcall _⟩
  | trying k =>
      have hsite : site n s.ctl (.scheduled i) = some (slot n (s.ctl.index i + k), .tryPop) := by
        simp [site, hi]
      refine .of_site h hsite (hawake _ _) fun r hr hreturns => ?_
      cases r with
      | item task => exact .ctl (e := .tryPopRet i k task) ⟨hi, hr⟩
      | pushed | unit => cases hreturns
  | waiting =>
      have hsite : site n s.ctl (.scheduled i) = some (slot n (s.ctl.index i), .pop) := by
        simp [site, hi]
      refine .of_site h hsite (hawake _ _) fun r hr hreturns => ?_
      cases r with
      | item task => exact .ctl (e := .popRet i task) ⟨hi, hr⟩
      | pushed | unit => cases hreturns

theorem pushesLate_of_holds (h : (machine n ι τ κ).Reachable s) {q : Fin n.size}
    {m : Monitor.Event (Caller ι τ κ) (Queue.Op τ) (Queue.Ret τ)}
    (he : (machine n ι τ κ).Enabled s (.inner q m)) (hm : m.source.holds = true)
    (hq : cancelled s q = true) {x : τ} (hx : m.thread = .schedule x) :
    PushesLate s (.inner q m) := by
  cases m with
  | body t op =>
      obtain rfl : t = .schedule x := hx
      have hpc : (s.obj q).pc (.schedule x) = .holding op := he.2
      have hinside := (agree h).inside hpc rfl
      cases hinside <;> exact hq
  | again t op =>
      obtain rfl : t = .schedule x := hx
      have hpc : (s.obj q).pc (.schedule x) = .rechecking op := he.2
      have hsound := Monitor.pc_sound (Client.obj_reachable h q) (.schedule x)
      have hinside := (agree h).inside hpc rfl
      rw [hpc] at hsound
      obtain rfl := Queue.blocks_pop hsound
      cases hinside
  | _ => cases hm

/-- Thread `i` calls `scheduled()`. -/
def isEnter (i : ι) : Event n ι τ κ → Bool
  | .ctl (.enter j) => j = i
  | _ => false

/-- What the calls of `scheduled()` by thread `i` have left. -/
def callsLeft (s : State n ι τ κ) (i : ι) : ℕ := left n 1 0 {Caller.scheduled i} s

theorem Shut.callsLeft_outside (hs : Shut s) (h : (machine n ι τ κ).Reachable s) {i : ι}
    (hi : s.ctl.scheduled i = .outside) : callsLeft s i = 0 := by
  have hidle := callable h (u := .scheduled i) (by simp [site, hi])
  have hcaller : tally id (callerLeft n 1 0 s.ctl) {Caller.scheduled i} = 0 :=
    tally_eq_zero fun u hu => by
      rw [Finset.mem_singleton.mp hu, callerLeft, hi]
      rfl
  have hobjects : Client.objectsLeft (Queue.budget τ 1 0) {Caller.scheduled i} s.obj = 0 := by
    refine Finset.sum_eq_zero fun q _ => Nat.add_eq_zero_iff.mpr ⟨tally_eq_zero fun u hu => ?_, ?_⟩
    · rw [Finset.mem_singleton.mp hu, hidle q]
      rfl
    · show 1 * (contents s q).length = 0
      rw [hs.empty q]
      rfl
  rw [callsLeft, left, hcaller, hobjects]

theorem Shut.callsLeft_next (hs : Shut s) (h : (machine n ι τ κ).Reachable s)
    (he : (machine n ι τ κ).Enabled s e) (hlate : ¬ PushesLate s e) (i : ι) :
    callsLeft ((machine n ι τ κ).next s e) i + (decide (doer e = .scheduled i)).toNat ≤
      callsLeft s i + (4 * n.size + 7) * (isEnter i e).toNat := by
  by_cases hdoer : doer e = .scheduled i
  case neg =>
    have hsame := left_of_notMem (a := 1) (m := 0) he
      (S := {Caller.scheduled i}) (fun hmem => hdoer (Finset.mem_singleton.mp hmem)) hs.awake
      hs.empty (hs.next h he hlate).empty
    rw [decide_eq_false hdoer]
    exact Nat.le_add_right_of_le (le_of_eq hsame)
  have hnobody : ∀ q, (Monitor.sleeping {Caller.scheduled i} (s.obj q)).card ≤ 0 := by
    refine fun q => le_of_eq (Finset.card_eq_zero.mpr (Finset.filter_eq_empty_iff.mpr ?_))
    intro u _ hu
    obtain ⟨op, hop⟩ := Monitor.sleepers_asleep.mp hu
    exact hs.awake q u op hop
  have hspend := spend_of_paid (a := 1) h he (Finset.mem_singleton.mpr hdoer) hnobody
    fun c hc => by
      subst hc
      exact paid_scheduled he.1 hdoer (scheduled_inRange h i)
  have hused : 1 ≤ used 1 e := by
    cases e with
    | inner q m => exact le_rfl
    | ctl c =>
        cases c with
        | leave j task => cases task <;> exact le_rfl
        | _ => exact le_rfl
  have hbrought : brought n 1 0 e ≤ (4 * n.size + 7) * (isEnter i e).toNat := by
    cases e with
    | inner q m =>
        cases m with
        | spurious t op => exact absurd he.2 (hs.awake q t op)
        | _ => exact Nat.zero_le _
    | ctl c =>
        cases c with
        | enter j =>
            cases hdoer
            simp [brought, isEnter]
        | schedule | clear => cases hdoer
        | _ => exact Nat.zero_le _
  rw [decide_eq_true hdoer, Bool.toNat_true]
  change callsLeft _ i + used 1 e ≤ callsLeft s i + brought n 1 0 e at hspend
  omega

/-- What the calls of `scheduled()` come to that thread `i` began in the run `es`, which
has led to `s`: they have given nothing, and the last one has ended or can go on. -/
structure Ends (s : State n ι τ κ) (i : ι) (es : List (Event n ι τ κ)) : Prop where
  nothing : ∀ r, s.ctl.scheduled i = .done r → r = none
  bounded : es.countP (fun e => doer e = .scheduled i) ≤
    (4 * n.size + 7) * es.countP (isEnter i)
  moves : s.ctl.scheduled i = .outside ∨ CanMove s (.scheduled i)

theorem Shut.ends {s₀ : State n ι τ κ} (hs : Shut s₀) (h : (machine n ι τ κ).Reachable s₀) {i : ι}
    (hi : s₀.ctl.scheduled i = .outside) {es : List (Event n ι τ κ)}
    (hrun : ((machine n ι τ κ).restrict fun s e => ¬ PushesLate s e).Run s₀ es) :
    Ends ((machine n ι τ κ).after s₀ es) i es := by
  have hstep : ∀ (s : State n ι τ κ) (e : Event n ι τ κ),
      ((machine n ι τ κ).restrict fun s e => ¬ PushesLate s e).Enabled s e → True →
      ((machine n ι τ κ).Reachable s ∧ Shut s ∧ hand s i = none) →
      ((machine n ι τ κ).Reachable ((machine n ι τ κ).next s e) ∧
        Shut ((machine n ι τ κ).next s e) ∧ hand ((machine n ι τ κ).next s e) i = none) ∧
      callsLeft ((machine n ι τ κ).next s e) i + 1 * (decide (doer e = .scheduled i)).toNat ≤
        callsLeft s i + (4 * n.size + 7) * (isEnter i e).toNat := by
    rintro s e ⟨he, hlate⟩ - ⟨hr, hs, hnone⟩
    refine ⟨⟨hr.step he, hs.next hr he hlate, hs.hand_none hr he hnone⟩, ?_⟩
    rw [Nat.one_mul]
    exact hs.callsLeft_next hr he hlate i
  obtain ⟨⟨hreach, hshut, hnone⟩, hsum⟩ := Machine.Run.balanced (Φ := fun s => callsLeft s i)
    (fun e => 1 * (decide (doer e = .scheduled i)).toNat)
    (fun e => (4 * n.size + 7) * (isEnter i e).toNat) hstep hrun (fun _ _ => trivial)
    ⟨h, hs, hand_outside hi⟩
  rw [Machine.after_restrict] at hreach hshut hnone hsum
  rw [sum_toNat, sum_toNat, hs.callsLeft_outside h hi] at hsum
  refine ⟨fun r hr => ?_, by omega, ?_⟩
  · rw [← hnone, hand, hr]
    rfl
  · by_cases hout : ((machine n ι τ κ).after s₀ es).ctl.scheduled i = .outside
    · exact Or.inl hout
    · exact Or.inr (.scheduled hreach hout fun q op => hshut.awake q _ op)

end RrScheduler

namespace ThreadPool

open RrScheduler (QueueCount hand contents cancelled)

variable {n : QueueCount} {τ : Type} [DecidableEq τ] {s : State n τ} {e : Event n τ}

/-! ## The pool -/

/-- A step of the pool that puts a task into a cancelled queue. -/
def PushesLate (s : State n τ) : Event n τ → Prop
  | .sched e => RrScheduler.PushesLate s.sched e
  | _ => False

instance (s : State n τ) : ∀ e : Event n τ, Decidable (PushesLate s e)
  | .sched e => inferInstanceAs (Decidable (RrScheduler.PushesLate s.sched e))
  | .ask _ _ | .got _ _ _ | .finish _ _ | .destroy | .cleared | .joinThread _ | .joined =>
      isFalse id

omit [DecidableEq τ] in
theorem not_pushesLate {b : RrScheduler.Event n (Fin n.size) τ Unit} (hb : seen e = some b)
    (hlate : ¬ PushesLate s e) : ¬ RrScheduler.PushesLate s.sched b := by
  cases e with
  | sched | ask | got | destroy => cases hb; exact hlate
  | _ => cases hb

theorem emptied (h : ((machine n τ).restrict fun s e => ¬ PushesLate s e).Reachable s) :
    RrScheduler.Emptied s.sched := by
  refine h.invariant (I := fun s => RrScheduler.Emptied s.sched) ?_ ?_
  · intro s hs
    exact RrScheduler.Emptied.of_init ((refines n τ).init s hs)
  · rintro s e hr ⟨he, hlate⟩ ih
    show RrScheduler.Emptied (next s e).sched
    rw [sched_next]
    cases hb : seen e with
    | none => exact ih
    | some b =>
        exact ih.next (sched_reachable hr.of_restrict) (sched_enabled he hb)
          (not_pushesLate hb hlate)

/-- What the destructor leaves behind of its call of `clear()`. -/
structure Cleared (s : State n τ) : Prop where
  returned : s.sched.ctl.clear () = .returned
  shut : RrScheduler.Shut s.sched

theorem cleared (h : ((machine n τ).restrict fun s e => ¬ PushesLate s e).Reachable s)
    (hclear : s.sched.ctl.clear () = .returned) : Cleared s :=
  ⟨hclear, fun q => RrScheduler.all_closed (sched_reachable h.of_restrict) hclear q, emptied h⟩

theorem Cleared.next (hs : Cleared s) (h : (machine n τ).Reachable s) (he : enabled s e)
    (hlate : ¬ PushesLate s e) : Cleared (ThreadPool.next s e) := by
  have hsched := sched_next (s := s) (e := e)
  cases hb : seen e with
  | none =>
      rw [hb] at hsched
      exact ⟨by rw [hsched]; exact hs.returned, by rw [hsched]; exact hs.shut⟩
  | some b =>
      have hen := sched_enabled he hb
      rw [hb] at hsched
      refine ⟨?_, ?_⟩
      · rw [hsched]
        cases b with
        | inner q m => exact hs.returned
        | ctl b =>
            rcases clear_step hen.1 with hsame | rfl | ⟨-, hunder, -⟩
            · exact hsame.trans hs.returned
            · have huncalled : s.sched.ctl.clear () = .uncalled := hen.1
              rw [hs.returned] at huncalled
              cases huncalled
            · exact absurd hs.returned hunder
      · rw [hsched]
        exact hs.shut.next (sched_reachable h) hen (not_pushesLate hb hlate)

/-! ### The steps that are left -/

/-- The steps of the workers, at the end of a task too, and of the destructor. -/
def ofPool : Event n τ → Bool
  | .sched b =>
      match RrScheduler.doer b with
      | .schedule _ => false
      | _ => true
  | _ => true

theorem Cleared.worker (hs : Cleared s) (h : (machine n τ).Reachable s) {w : Fin n.size}
    (hw : s.run w ≠ .exited) : ∃ e, enabled s e ∧ (ofPool e = true ∨ PushesLate s e) := by
  have hreach := sched_reachable h
  cases hrun : s.run w with
  | exited => exact absurd hrun hw
  | running x => exact ⟨.finish w x, hrun, Or.inl rfl⟩
  | loop old =>
      have hout : s.sched.ctl.scheduled w = .outside :=
        (calling h w).mpr fun old' => by rw [hrun]; exact nofun
      exact ⟨.ask w old, ⟨hrun, hout, trivial⟩, Or.inl rfl⟩
  | asking old =>
      have hin : s.sched.ctl.scheduled w ≠ .outside := fun hout =>
        (calling h w).mp hout old hrun
      obtain ⟨b, hb, hdoer | ⟨q, m, rfl, -, hholds⟩⟩ :=
        RrScheduler.CanMove.scheduled hreach hin fun q op => hs.shut.awake q _ op
      · cases b with
        | inner q m => exact ⟨.sched (.inner q m), ⟨rfl, hb⟩, Or.inl (by rw [ofPool, hdoer])⟩
        | ctl c =>
            cases c with
            | enter v =>
                cases hdoer
                exact absurd hb.1 hin
            | leave v task =>
                cases hdoer
                exact ⟨.got w old task, ⟨hrun, hb⟩, Or.inl rfl⟩
            | clear => cases hdoer
            | _ => exact ⟨.sched (.ctl _), ⟨rfl, hb⟩, Or.inl (by rw [ofPool, hdoer])⟩
      · refine ⟨.sched (.inner q m), ⟨rfl, hb⟩, ?_⟩
        cases hthread : m.thread with
        | schedule x =>
            exact Or.inr (RrScheduler.pushesLate_of_holds hreach hb hholds (hs.shut.closed q).1
              hthread)
        | _ => exact Or.inl (by rw [ofPool, RrScheduler.doer, hthread])

theorem Cleared.ends (hs : Cleared s) (h : (machine n τ).Reachable s) :
    (s.join = .joined ∧ ∀ w, s.run w = .exited) ∨
      ∃ e, enabled s e ∧ (ofPool e = true ∨ PushesLate s e) := by
  by_cases hall : ∀ w, s.run w = .exited
  case neg =>
    obtain ⟨w, hw⟩ := not_forall.mp hall
    exact Or.inr (hs.worker h hw)
  have hdestroying := destroying h
  cases hj : s.join with
  | joined => exact Or.inl ⟨rfl, hall⟩
  | alive =>
      have huncalled := hdestroying.alive.mp hj
      rw [hs.returned] at huncalled
      cases huncalled
  | clearing => exact Or.inr ⟨.cleared, ⟨hj, hs.returned⟩, Or.inl rfl⟩
  | joining j =>
      rcases Nat.lt_or_eq_of_le (hdestroying.joining j hj) with hlt | rfl
      · exact Or.inr ⟨.joinThread ⟨j, hlt⟩, ⟨hj, hall _⟩, Or.inl rfl⟩
      · exact Or.inr ⟨.joined, hj, Or.inl rfl⟩

end ThreadPool

end Jar.Concurrency
