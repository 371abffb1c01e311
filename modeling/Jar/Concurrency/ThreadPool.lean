/-
# `Jar.Concurrency.ThreadPool` — workers on the round-robin scheduler

`thread_pool<rr_scheduler>` owns a scheduler with `N` queues and `N` workers.
A worker runs `run()`: it asks the scheduler for a task, executes it, and asks
again, until it is given none.  The destructor runs `join()`: it clears the
scheduler and joins the workers one after the other.

The pool adds to the scheduler who calls it.  Its workers are the only threads
in `scheduled()`, and its destructor is the only one to call `clear()`; calls of
`schedule` come from anywhere, at any time, tasks under execution included.  The
steps inside the three functions are the scheduler's own, so seen from there a
run of the pool is a run of the scheduler (`refines`).

What is proved here is that no task is stranded in a pool that has not been
cleared, `no_stranded_task`: a worker does not sleep on its home queue while the
queue holds a task, unless the producer's notification is still to come.
-/
import Jar.Concurrency.Cancellation

namespace Jar.Concurrency

open Jar.Lib

namespace ThreadPool

open RrScheduler (QueueCount slot)

/-! ## The pool

A worker runs `scheduled()` and its result in turn until it is given nothing, the
thread that destroys the pool calls `clear()` and joins the workers one after the
other, and anybody else may call `schedule()`. -/

/-- A worker in `run()`.  `task` is the local of that name: what it holds at the
loop head and while `scheduled()` runs is the task executed last. -/
inductive RunPc (τ : Type) where
  | loop (task : Option τ)
  | asking (task : Option τ)
  | running (x : τ)
  | exited
  deriving DecidableEq, Repr

/-- `run()` once `task` is assigned: the task is executed, or the loop ends. -/
def RunPc.assigned {τ : Type} : Option τ → RunPc τ
  | some x => .running x
  | none => .exited

/-- The destructor in `join()`. -/
inductive JoinPc where
  | alive
  | clearing
  | joining (j : ℕ)
  | joined
  deriving DecidableEq, Repr

/-- The scheduler, the workers and the destructor; `executed` and `discarded` record
the tasks run to their end and the tasks removed by `clear()`. -/
structure State (n : QueueCount) (τ : Type) where
  sched : RrScheduler.State n (Fin n.size) τ Unit
  run : Fin n.size → RunPc τ
  join : JoinPc
  executed : List τ
  discarded : List τ

/-- A step inside the scheduler, a step of a worker, or a step of the destructor. -/
inductive Event (n : QueueCount) (τ : Type) where
  | sched (e : RrScheduler.Event n (Fin n.size) τ Unit)
  | ask (w : Fin n.size) (old : Option τ)
  | got (w : Fin n.size) (old task : Option τ)
  | finish (w : Fin n.size) (x : τ)
  | destroy
  | cleared
  | joinThread (w : Fin n.size)
  | joined

variable {n : QueueCount} {τ : Type}

/-- The steps of the scheduler that nobody has to ask for: all but the beginning
and the end of `scheduled()`, which belong to a worker, and the call of
`clear()`, which belongs to the destructor. -/
def autonomous : RrScheduler.Event n (Fin n.size) τ Unit → Bool
  | .ctl (.enter _) | .ctl (.leave _ _) | .ctl (.clear _) => false
  | _ => true

/-- The tasks a step of the scheduler throws away. -/
def thrown (s : RrScheduler.State n (Fin n.size) τ Unit) :
    RrScheduler.Event n (Fin n.size) τ Unit → List τ
  | .inner q (.body _ .clear) => RrScheduler.contents s q
  | _ => []

variable [DecidableEq τ]

/-- The scheduler of the pool: its workers call `scheduled()`, its destructor `clear()`. -/
abbrev scheduler (n : QueueCount) (τ : Type) [DecidableEq τ] :
    Machine (RrScheduler.State n (Fin n.size) τ Unit) (RrScheduler.Event n (Fin n.size) τ Unit) :=
  RrScheduler.machine n (Fin n.size) τ Unit

def enabled (s : State n τ) : Event n τ → Prop
  | .sched e => autonomous e = true ∧ (scheduler n τ).Enabled s.sched e
  | .ask w old => s.run w = .loop old ∧ (scheduler n τ).Enabled s.sched (.ctl (.enter w))
  | .got w old task =>
      s.run w = .asking old ∧ (scheduler n τ).Enabled s.sched (.ctl (.leave w task))
  | .finish w x => s.run w = .running x
  | .destroy => s.join = .alive ∧ (scheduler n τ).Enabled s.sched (.ctl (.clear ()))
  | .cleared => s.join = .clearing ∧ s.sched.ctl.clear () = .returned
  | .joinThread w => s.join = .joining w ∧ s.run w = .exited
  | .joined => s.join = .joining n.size

def next (s : State n τ) : Event n τ → State n τ
  | .sched e =>
      { s with sched := (scheduler n τ).next s.sched e
               discarded := s.discarded ++ thrown s.sched e }
  | .ask w old =>
      { s with sched := (scheduler n τ).next s.sched (.ctl (.enter w))
               run := Function.update s.run w (.asking old) }
  | .got w _ task =>
      { s with sched := (scheduler n τ).next s.sched (.ctl (.leave w task))
               run := Function.update s.run w (.assigned task) }
  | .finish w x =>
      { s with run := Function.update s.run w (.loop (some x)), executed := s.executed ++ [x] }
  | .destroy =>
      { s with sched := (scheduler n τ).next s.sched (.ctl (.clear ())), join := .clearing }
  | .cleared => { s with join := .joining 0 }
  | .joinThread w => { s with join := .joining (w + 1) }
  | .joined => { s with join := .joined }

/-- A pool that has just been constructed: fresh queues, fresh threads. -/
def State.initial (n : QueueCount) (τ : Type) : State n τ where
  sched := ⟨.initial fun _ => none, fun _ => Monitor.State.initial Queue.Core.empty⟩
  run _ := .loop none
  join := .alive
  executed := []
  discarded := []

def machine (n : QueueCount) (τ : Type) [DecidableEq τ] : Machine (State n τ) (Event n τ) where
  Init s := s = State.initial n τ
  Enabled := enabled
  next := next

instance [Fintype τ] (s : State n τ) (e : Event n τ) : Decidable (enabled s e) := by
  cases e <;> unfold enabled <;> infer_instance

instance [Fintype τ] (s : State n τ) (e : Event n τ) : Decidable ((machine n τ).Enabled s e) :=
  inferInstanceAs (Decidable (enabled s e))

/-! ## The pool runs its scheduler

Seen from the scheduler, a step of a worker between two calls is no step at all, so
whatever holds of the scheduler with any callers holds of the one inside a pool. -/

/-- What the scheduler sees of a step of the pool. -/
def seen : Event n τ → Option (RrScheduler.Event n (Fin n.size) τ Unit)
  | .sched e => some e
  | .ask w _ => some (.ctl (.enter w))
  | .got w _ task => some (.ctl (.leave w task))
  | .destroy => some (.ctl (.clear ()))
  | _ => none

theorem sched_next {s : State n τ} {e : Event n τ} :
    (next s e).sched = match seen e with
      | some b => (scheduler n τ).next s.sched b
      | none => s.sched := by
  cases e <;> rfl

theorem sched_enabled {s : State n τ} {e : Event n τ} (he : enabled s e)
    {b : RrScheduler.Event n (Fin n.size) τ Unit} (hb : seen e = some b) :
    (scheduler n τ).Enabled s.sched b := by
  cases e with
  | sched | ask | got | destroy => cases hb; exact he.2
  | _ => cases hb

/-- Seen from the scheduler, a run of the pool is a run of the scheduler. -/
def refines (n : QueueCount) (τ : Type) [DecidableEq τ] :
    (machine n τ).Refines (scheduler n τ) where
  view s := s.sched
  event _ e := seen e
  init s hs := by
    rw [show s = State.initial n τ from hs]
    exact ⟨⟨_, rfl⟩, rfl⟩
  silent s e _ hb := by
    show (next s e).sched = s.sched
    rw [sched_next, hb]
  visible s e b he hb := by
    refine ⟨sched_enabled he hb, ?_⟩
    show (next s e).sched = _
    rw [sched_next, hb]

theorem sched_reachable {s : State n τ} (h : (machine n τ).Reachable s) :
    (scheduler n τ).Reachable s.sched :=
  (refines n τ).reachable h

/-! ## Home queues

The workers are fresh, so each draws its index from the pop counter exactly
once; there are fewer of them than the counter has values, so the indices are
different numbers below `N`, and every queue is the home of one worker. -/

/-- The indices drawn so far. -/
structure Indexed {ι : Type} [Fintype ι] {τ κ : Type} (c : RrScheduler.Control ι τ κ) : Prop where
  below : ∀ i v, c.threadIndex i = some v → v.toNat < c.popIndex.toNat
  distinct : ∀ i j v, c.threadIndex i = some v → c.threadIndex j = some v → i = j
  drawn : c.popIndex.toNat = (Finset.univ.filter fun i => (c.threadIndex i).isSome).card
  known : ∀ i, c.scheduled i ≠ .outside → c.scheduled i ≠ .entered → (c.threadIndex i).isSome

section Indices

variable {ι κ : Type} [Fintype ι] [DecidableEq ι] [DecidableEq κ]

omit [DecidableEq τ] [DecidableEq ι] [DecidableEq κ] in
theorem Indexed.keep {c c' : RrScheduler.Control ι τ κ} (h : Indexed c)
    (hthread : c'.threadIndex = c.threadIndex) (hpop : c'.popIndex = c.popIndex)
    (hsched : ∀ i, c'.scheduled i ≠ .outside → c'.scheduled i ≠ .entered →
      c.scheduled i ≠ .outside ∧ c.scheduled i ≠ .entered ∨ (c.threadIndex i).isSome) :
    Indexed c' := by
  refine ⟨?_, ?_, ?_, ?_⟩
  · rw [hthread, hpop]; exact h.below
  · rw [hthread]; exact h.distinct
  · rw [hthread, hpop]; exact h.drawn
  · intro i ho he
    rw [hthread]
    rcases hsched i ho he with ⟨ho', he'⟩ | hsome
    · exact h.known i ho' he'
    · exact hsome

omit [DecidableEq τ] [DecidableEq κ] in
theorem Indexed.draw {c : RrScheduler.Control ι τ κ} (h : Indexed c)
    (hcard : Fintype.card ι < 2 ^ 32) {i : ι} (hi : c.threadIndex i = none)
    {p : RrScheduler.ScheduledPc τ} :
    Indexed { c.setScheduled i p with
      threadIndex := Function.update c.threadIndex i (some c.popIndex)
      popIndex := c.popIndex + 1 } := by
  have hnotin : i ∉ Finset.univ.filter fun j => (c.threadIndex j).isSome := by simp [hi]
  have hlt : (Finset.univ.filter fun j => (c.threadIndex j).isSome).card < Fintype.card ι :=
    Finset.card_lt_univ_of_notMem hnotin
  have hsucc : (c.popIndex + 1).toNat = c.popIndex.toNat + 1 := by
    have hdrawn := h.drawn
    rw [BitVec.toNat_add]
    exact Nat.mod_eq_of_lt (by simp; omega)
  have hfilter : (Finset.univ.filter fun j =>
        (Function.update c.threadIndex i (some c.popIndex) j).isSome) =
      insert i (Finset.univ.filter fun j => (c.threadIndex j).isSome) := by
    ext j
    by_cases hj : j = i
    · subst hj; simp
    · simp [hj]
  refine ⟨?_, ?_, ?_, ?_⟩
  · intro j v hv
    simp only [hsucc]
    rcases update_eq_some hv with ⟨-, hnew⟩ | ⟨-, hold⟩
    · cases hnew
      exact Nat.lt_succ_self _
    · exact Nat.lt_succ_of_lt (h.below j v hold)
  · -- the new index is above all that were drawn
    intro j k v hj hk
    rcases update_eq_some hj with ⟨rfl, hnew⟩ | ⟨-, hold⟩
    · rcases update_eq_some hk with ⟨rfl, -⟩ | ⟨-, hold'⟩
      · rfl
      · cases hnew
        exact absurd (h.below k _ hold') (lt_irrefl _)
    · rcases update_eq_some hk with ⟨rfl, hnew'⟩ | ⟨-, hold'⟩
      · cases hnew'
        exact absurd (h.below j _ hold) (lt_irrefl _)
      · exact h.distinct j k v hold hold'
  · simp only [hsucc, hfilter]
    rw [Finset.card_insert_of_notMem hnotin, h.drawn]
  · intro j ho he
    by_cases hj : j = i
    · subst hj; simp
    · simp only [RrScheduler.Control.setScheduled, Function.update_of_ne hj] at ho he ⊢
      exact h.known j ho he

theorem Indexed.step {c : RrScheduler.Control ι τ κ} (h : Indexed c)
    (hcard : Fintype.card ι < 2 ^ 32) {e : RrScheduler.Step n ι τ κ}
    (hg : RrScheduler.guard n c e) : Indexed (RrScheduler.step c e) := by
  have hset : ∀ (i : ι) (p : RrScheduler.ScheduledPc τ),
      (p ≠ .outside → p ≠ .entered →
        c.scheduled i ≠ .outside ∧ c.scheduled i ≠ .entered ∨ (c.threadIndex i).isSome) →
      Indexed (c.setScheduled i p) := by
    intro i p hp
    refine h.keep rfl rfl fun j ho he => ?_
    by_cases hj : j = i
    · subst hj
      simp only [RrScheduler.Control.setScheduled, Function.update_self] at ho he
      exact hp ho he
    · simp only [RrScheduler.Control.setScheduled, Function.update_of_ne hj] at ho he
      exact Or.inl ⟨ho, he⟩
  cases e with
  | initIndex i => exact h.draw hcard hg.2
  | enter i => exact hset i _ fun _ hp => absurd rfl hp
  | readIndex i => exact hset i _ fun _ _ => Or.inr (Option.isSome_iff_ne_none.mpr hg.2)
  | tryPop i k => exact hset i _ fun _ _ => Or.inl (by simp [hg.1])
  | tryPopRet i k task =>
      have hi : c.scheduled i = .trying k := hg
      exact hset i _ fun _ _ => Or.inl (by simp [hi])
  | pop i k => exact hset i _ fun _ _ => Or.inl (by simp [hg.1])
  | popRet i task =>
      have hi : c.scheduled i = .waiting := hg
      exact hset i _ fun _ _ => Or.inl (by simp [hi])
  | leave i task => exact hset i _ fun hp => absurd rfl hp
  | _ => exact h.keep rfl rfl fun _ ho he => Or.inl ⟨ho, he⟩

end Indices

theorem indexed {s : State n τ} (h : (machine n τ).Reachable s) : Indexed s.sched.ctl := by
  obtain ⟨s₀, h₀, hs⟩ := h
  have hcard : Fintype.card (Fin n.size) < 2 ^ 32 := by rw [Fintype.card_fin]; exact n.fits
  refine ((refines n τ).reaches hs).stable (P := fun t => Indexed t.ctl) ?_ ?_
  · intro t e he ht
    cases e with
    | ctl e => exact ht.step hcard he.1
    | inner q m => exact ht
  · rw [show s₀ = State.initial n τ from h₀]
    refine ⟨nofun, nofun, ?_, fun i ho => absurd rfl ho⟩
    simp [refines, State.initial, RrScheduler.Control.initial]

/-- Queue `q` is the home of worker `w`: its index has been drawn, and leads there. -/
def Home (s : State n τ) (w : Fin n.size) (q : Fin n.size) : Prop :=
  ∃ v, s.sched.ctl.threadIndex w = some v ∧ slot n v = q

theorem index_lt {s : State n τ} (h : (machine n τ).Reachable s) {w : Fin n.size} {v : BitVec 32}
    (hv : s.sched.ctl.threadIndex w = some v) : v.toNat < n.size := by
  have hidx := indexed h
  have hcard := Finset.card_le_univ
    (Finset.univ.filter fun i => (s.sched.ctl.threadIndex i).isSome)
  rw [Fintype.card_fin, ← hidx.drawn] at hcard
  exact lt_of_lt_of_le (hidx.below w v hv) hcard

/-- No two workers share a home. -/
theorem home_injective {s : State n τ} (h : (machine n τ).Reachable s) {w w' q : Fin n.size}
    (hw : Home s w q) (hw' : Home s w' q) : w = w' := by
  obtain ⟨v, hv, rfl⟩ := hw
  obtain ⟨v', hv', hslot⟩ := hw'
  have hval : v'.toNat % n.size = v.toNat % n.size := congrArg Fin.val hslot
  rw [Nat.mod_eq_of_lt (index_lt h hv), Nat.mod_eq_of_lt (index_lt h hv')] at hval
  obtain rfl : v' = v := BitVec.eq_of_toNat_eq hval
  exact (indexed h).distinct w w' v' hv hv'

/-- Once every worker has its index, every queue is a home. -/
theorem home_surjective {s : State n τ} (h : (machine n τ).Reachable s)
    (hall : ∀ w, ∃ q, Home s w q) (q : Fin n.size) : ∃ w, Home s w q := by
  choose f hf using hall
  have hinj : Function.Injective f := fun w w' heq =>
    home_injective h (hf w) (by rw [heq]; exact hf w')
  obtain ⟨w, rfl⟩ := Finite.surjective_of_injective hinj q
  exact ⟨w, hf w⟩

/-! ## No task is stranded

A worker waits nowhere but at home.  If its queue holds a task while it sleeps,
something answers for that task: a producer that is about to notify, or, since homes
are not shared, the worker itself on its way back. -/

/-- Worker `w` sleeps on the condition variable of queue `q`. -/
def AsleepOn (s : State n τ) (w q : Fin n.size) : Prop :=
  (s.sched.obj q).pc (.scheduled w) = .asleep .pop

/-- A producer has pushed onto `q` and its `notify_one` is still to be executed. -/
def NotifyPending (s : State n τ) (q : Fin n.size) : Prop :=
  ∃ x op r, (s.sched.obj q).pc (.schedule x) = .notifyOne op r

theorem home_of_pop {s : State n τ} (h : (machine n τ).Reachable s)
    {t : RrScheduler.Caller (Fin n.size) τ Unit} {q : Fin n.size} {p : Queue.Pc τ}
    (hp : (s.sched.obj q).pc t = p) (hop : p.op = some .pop) :
    ∃ w, t = .scheduled w ∧ Home s w q := by
  have hinside := (RrScheduler.agree (sched_reachable h)).inside hp hop
  cases hinside with
  | pop hw =>
      refine ⟨_, rfl, ?_⟩
      have hsome := (indexed h).known _ (by rw [hw]; exact nofun) (by rw [hw]; exact nofun)
      obtain ⟨v, hv⟩ := Option.isSome_iff_exists.mp hsome
      exact ⟨v, hv, by rw [RrScheduler.Control.index, hv]; rfl⟩

/-- Before `clear()` is called, what answers for the tasks of a queue on which
somebody sleeps is a producer about to notify, or the home worker on its way back. -/
theorem answered {s : State n τ} (h : (machine n τ).Reachable s)
    (hclear : s.sched.ctl.clear () = .uncalled) {q w : Fin n.size}
    (htask : RrScheduler.contents s.sched q ≠ []) (hs : AsleepOn s w q) : NotifyPending s q := by
  have hsched := sched_reachable h
  have hobj := Client.obj_reachable hsched q
  have hnone : ¬ (s.sched.obj q).Announced := by
    rintro ⟨t, op, r, ht⟩
    have hsound := Monitor.pc_sound hobj t
    rw [ht] at hsound
    obtain ⟨rfl, -⟩ := Queue.emits_all hsound
    have hinside := (RrScheduler.agree hsched).inside ht rfl
    cases hinside with
    | clear hk => rw [hclear] at hk; cases hk
  have hwork : 0 < (Queue.supply τ).work (s.sched.obj q).core :=
    List.length_pos_iff.mpr htask
  obtain ⟨t, ht⟩ := ((Queue.supply τ).covered hobj).answered ⟨_, _, hs⟩ hnone hwork
  have hsound := Monitor.pc_sound hobj t
  -- a worker that was woken on this queue is at home here, and so is the sleeper
  have hback : ∀ p : Queue.Pc τ, (s.sched.obj q).pc t = p → p.op = some .pop →
      (p = .woken .pop ∨ p = .rechecking .pop) → NotifyPending s q := by
    intro p hp hop hwoken
    obtain ⟨w', rfl, hhome'⟩ := home_of_pop h hp hop
    obtain ⟨w'', hw'', hhome⟩ := home_of_pop h hs rfl
    cases hw''
    rw [home_injective h hhome' hhome, show (s.sched.obj q).pc (.scheduled w) = _ from hs] at hp
    rcases hwoken with rfl | rfl <;> cases hp
  cases hpc : (s.sched.obj q).pc t with
  | notifyOne op r =>
      rw [hpc] at hsound
      obtain ⟨x, ⟨rfl, -⟩ | ⟨rfl, -⟩⟩ := Queue.emits_one hsound
      · have hinside := (RrScheduler.agree hsched).inside hpc rfl
        cases hinside
        exact ⟨x, _, _, hpc⟩
      · have hinside := (RrScheduler.agree hsched).inside hpc rfl
        cases hinside
        exact ⟨x, _, _, hpc⟩
  | woken op =>
      rw [hpc] at hsound
      obtain rfl := Queue.blocks_pop hsound
      exact hback _ hpc rfl (Or.inl rfl)
  | rechecking op =>
      rw [hpc] at hsound
      obtain rfl := Queue.blocks_pop hsound
      exact hback _ hpc rfl (Or.inr rfl)
  | _ => rw [hpc] at ht; exact absurd ht (lt_irrefl 0)

/-- **No task is stranded.**  Before `clear()` is called, a worker does not sleep on
its home queue while that queue holds a task, unless the `notify_one` of a
producer that has pushed onto it is still to be executed.  Hence it never
happens that a task is queued, every worker sleeps and no wake-up is under way. -/
theorem no_stranded_task {s : State n τ} (h : (machine n τ).Reachable s)
    (hclear : s.sched.ctl.clear () = .uncalled) :
    (∀ q w, RrScheduler.contents s.sched q ≠ [] → Home s w q → ¬ NotifyPending s q →
      ¬ AsleepOn s w q) ∧
    ¬ ((∃ q, RrScheduler.contents s.sched q ≠ []) ∧ (∀ w, ∃ q, AsleepOn s w q) ∧
      ∀ q, ¬ NotifyPending s q) := by
  refine ⟨fun q w htask _ hno hs => hno (answered h hclear htask hs), ?_⟩
  rintro ⟨⟨q, htask⟩, hall, hno⟩
  have hhome : ∀ w, ∃ q, AsleepOn s w q ∧ Home s w q := by
    intro w
    obtain ⟨p, hp⟩ := hall w
    obtain ⟨w', hw', hhome⟩ := home_of_pop h hp rfl
    cases hw'
    exact ⟨p, hp, hhome⟩
  obtain ⟨w, hw⟩ := home_surjective h (fun w => (hhome w).imp fun _ hp => hp.2) q
  -- the worker at home in `q` sleeps, and it can only sleep at home
  obtain ⟨p, hp, hwp⟩ := hhome w
  obtain ⟨v, hv, rfl⟩ := hw
  obtain ⟨v', hv', rfl⟩ := hwp
  rw [hv] at hv'
  cases hv'
  exact hno _ (answered h hclear htask hp)

/-- A pool with one worker, which goes to sleep; then a task is pushed, and the
producer is stopped before it notifies. -/
def oneWorker : QueueCount := ⟨1, by decide, by decide⟩

def pushedToSleeper : List (Event oneWorker Unit) :=
  [.ask 0 none, .sched (.ctl (.initIndex 0)),
   .sched (.ctl (.tryPop 0 0)), .sched (.inner 0 (.lock (.scheduled 0) .tryPop)),
   .sched (.inner 0 (.body (.scheduled 0) .tryPop)), .sched (.ctl (.tryPopRet 0 0 none)),
   .sched (.ctl (.pop 0 1)), .sched (.inner 0 (.lock (.scheduled 0) .pop)),
   .sched (.inner 0 (.body (.scheduled 0) .pop)),
   .sched (.ctl (.schedule ())), .sched (.ctl (.fetchPush ())), .sched (.ctl (.tryPush () 0 0)),
   .sched (.inner 0 (.lock (.schedule ()) (.tryPush ()))),
   .sched (.inner 0 (.body (.schedule ()) (.tryPush ())))]

theorem no_stranded_task_pushedToSleeper :
    NotifyPending ((machine oneWorker Unit).after (State.initial oneWorker Unit)
      pushedToSleeper) 0 := by
  by_contra hno
  exact (no_stranded_task (n := oneWorker) (τ := Unit)
    (s := (machine oneWorker Unit).after (State.initial oneWorker Unit) pushedToSleeper)
    (Machine.Reachable.of_run rfl (by decide)) (by decide)).1 0 0 (by decide)
    ⟨0, by decide, by decide⟩ hno (by unfold AsleepOn; decide)

end ThreadPool

end Jar.Concurrency
