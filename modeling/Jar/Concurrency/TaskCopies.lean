/-
# `Jar.Concurrency.TaskCopies` — the copies of a task in the pool

A task is a function object, and `try_push` takes it by value: while `schedule`
looks for a queue that will have it there is the caller's object and the item of
the attempt under way.  A refused item is destroyed; an accepted one is moved
into the container, from there into the hands of a worker, and stays in that
worker's local, executed, until the worker has its next task.  `clear()` and the
destructor of a queue destroy what they find in it.

`inPool_next` follows this: the copies of a task that are in the pool, before and
after a step, with the copies the step adds to them and destroys.  It is read
off from `moves` and from the control of `schedule`.
-/
import Jar.Concurrency.Conservation

namespace Jar.Concurrency

open Jar.Lib

namespace ThreadPool

open RrScheduler (QueueCount SchedulePc hand entered contents cancelled Pushing)

variable {n : QueueCount} {τ : Type} [DecidableEq τ] {s : State n τ} {e : Event n τ}

/-! ## Copies of a task in the pool

A copy is with the call `schedule(x)`, in a queue, or with a worker.  Only a step of
that call copies or moves its function object; a task is put into a queue out of the
call that pushes it, `clear()` destroys what it finds, and a worker keeps the task it
has run. -/

/-- The parameter of the `try_push` or `push` under way for task `x`, until it is
moved into the container. -/
def itemAt (p : SchedulePc) (entered : ℕ) : ℕ := if Pushing p then 1 - entered else 0

/-- A worker that has run the task and keeps it in its local until the next one. -/
def leftAt (x : τ) : RunPc τ → ℕ
  | .loop task | .asking task => if task = some x then 1 else 0
  | _ => 0

/-- The workers that have run task `x` and still have it. -/
def leftovers (s : State n τ) (x : τ) : ℕ := tally (leftAt x) s.run Finset.univ

/-- The copies of task `x` in the pool. -/
def inPool (s : State n τ) (x : τ) : ℕ :=
  itemAt (s.sched.ctl.schedule x) (entered s.sched x) + queued s x + holders s x + leftovers s x

/-- The copy of task `x` that a step makes: the argument of `try_push`. -/
def copied (x : τ) : Event n τ → ℕ
  | .sched (.ctl (.tryPush y _ _)) => if y = x then 1 else 0
  | _ => 0

/-- The copy of task `x` that a step moves into the pool: the argument of the last
`push`. -/
def movedIn (x : τ) : Event n τ → ℕ
  | .sched (.ctl (.push y _ _)) => if y = x then 1 else 0
  | _ => 0

/-- The copies of task `x` that a step destroys: the argument of a `try_push` that
was refused, what `clear()` finds in its queue, and the task a worker had before. -/
def released (s : State n τ) (x : τ) : Event n τ → ℕ
  | .sched (.ctl (.tryPushRet y _ _ ok)) => if y = x ∧ ok = false then 1 else 0
  | .sched e => (thrown s.sched e).count x
  | .got _ old _ => if old = some x then 1 else 0
  | _ => 0

theorem copies_of_ne {e : RrScheduler.Step n (Fin n.size) τ Unit} {x : τ}
    (h : e.caller ≠ .schedule x) :
    copied x (.sched (.ctl e) : Event n τ) = 0 ∧ movedIn x (.sched (.ctl e) : Event n τ) = 0 := by
  cases e with
  | tryPush y index k | push y index k =>
      have hne : y ≠ x := by
        rintro rfl
        exact h rfl
      simp [copied, movedIn, hne]
  | _ => exact ⟨rfl, rfl⟩

theorem entered_ret (h : (machine n τ).Reachable s) {e : RrScheduler.Step n (Fin n.size) τ Unit}
    (he : (scheduler n τ).Enabled s.sched (.ctl e)) {q : Fin n.size} {x : τ} {op : Queue.Op τ}
    {r : Queue.Ret τ} (hact : RrScheduler.act s.sched.ctl e = .ret q (.schedule x) op r)
    (hx : s.sched.ctl.schedule x ≠ .returned) :
    entered s.sched x = RrScheduler.delivered (.returned op r) := by
  have hplace : RrScheduler.place s.sched (.schedule x) = .returned op r :=
    (Client.ctl_place_ret (RrScheduler.lawful n (Fin n.size) τ Unit)
      (RrScheduler.agree (sched_reachable h)) he hact).1
  unfold entered RrScheduler.enteredAt
  rw [hplace]
  split
  · next hreturned => exact absurd hreturned hx
  · rfl

theorem item_ctl (h : (machine n τ).Reachable s) {e : RrScheduler.Step n (Fin n.size) τ Unit}
    (he : (scheduler n τ).Enabled s.sched (.ctl e)) (x : τ) :
    itemAt ((RrScheduler.step s.sched.ctl e).schedule x) (entered s.sched x) +
        released s x (.sched (.ctl e)) =
      itemAt (s.sched.ctl.schedule x) (entered s.sched x) +
        copied x (.sched (.ctl e)) + movedIn x (.sched (.ctl e)) := by
  have hg : RrScheduler.guard n s.sched.ctl e := he.1
  by_cases hx : e.caller = .schedule x
  case neg =>
    rw [RrScheduler.step_schedule_of_ne _ e hx]
    rw [(copies_of_ne hx).1, (copies_of_ne hx).2]
    cases e with
    | tryPushRet y index k ok =>
        have hne : y ≠ x := by
          rintro rfl
          exact hx rfl
        simp [released, hne]
    | _ => rfl
  cases e with
  | schedule y =>
      have hy : s.sched.ctl.schedule y = .uncalled := hg
      cases hx
      simp [RrScheduler.step, RrScheduler.Control.setSchedule, hy, itemAt, Pushing, released,
        copied, movedIn, thrown]
  | fetchPush y =>
      have hy : s.sched.ctl.schedule y = .entered := hg
      cases hx
      simp [RrScheduler.step, RrScheduler.Control.setSchedule, hy, itemAt, Pushing, released,
        copied, movedIn, thrown]
  | tryPush y index k =>
      have hy := hg.1
      have hzero := entered_looping hy
      cases hx
      simp [RrScheduler.step, RrScheduler.Control.setSchedule, hy, hzero, itemAt, Pushing, released,
        copied, movedIn, thrown]
  | tryPushRet y index k ok =>
      have hy : s.sched.ctl.schedule y = .trying index k := hg
      cases hx
      have hunder : s.sched.ctl.schedule x ≠ .returned := by
        rw [hy]
        intro hreturned
        cases hreturned
      have hret : entered s.sched x = if ok then 1 else 0 := by
        rw [entered_ret h he rfl hunder]
        cases ok <;> rfl
      rw [hret]
      cases ok <;>
        simp [RrScheduler.step, RrScheduler.Control.setSchedule, hy, itemAt, Pushing, released,
          copied, movedIn]
  | push y index k =>
      have hy := hg.1
      have hzero := entered_looping hy
      cases hx
      simp [RrScheduler.step, RrScheduler.Control.setSchedule, hy, hzero, itemAt, Pushing, released,
        copied, movedIn, thrown]
  | pushRet y index =>
      have hy : s.sched.ctl.schedule y = .pushing index := hg
      cases hx
      have hunder : s.sched.ctl.schedule x ≠ .returned := by
        rw [hy]
        intro hreturned
        cases hreturned
      have hret : entered s.sched x = 1 := entered_ret h he rfl hunder
      rw [hret]
      simp [RrScheduler.step, RrScheduler.Control.setSchedule, hy, itemAt, Pushing, released,
        copied, movedIn, thrown]
  | _ => cases hx

/-- A task is put into a queue out of the call that pushes it. -/
theorem entered_moves {s' : State n τ} (h : Moves s s' e) (x : τ) :
    entered s'.sched x = entered s.sched x ∨
      Pushing (s.sched.ctl.schedule x) ∧ entered s.sched x = 0 ∧ entered s'.sched x = 1 := by
  cases h with
  | enqueue q y hin hfresh _ _ hentered =>
      rw [hentered]
      by_cases hxy : x = y
      · subst hxy
        exact Or.inr ⟨hin, hfresh, Function.update_self _ _ _⟩
      · exact Or.inl (Function.update_of_ne hxy _ _)
  | quiet _ _ hentered => exact Or.inl (congrFun hentered x)
  | take _ _ _ _ _ _ _ _ _ hentered => exact Or.inl (congrFun hentered x)
  | clear _ _ _ _ hentered => exact Or.inl (congrFun hentered x)
  | finish _ _ _ _ _ hentered => exact Or.inl (congrFun hentered x)

theorem moves_next (h : (machine n τ).Reachable s) (he : enabled s e) : Moves s (next s e) e :=
  moves h he

theorem inPool_ctl (h : (machine n τ).Reachable s) {e : RrScheduler.Step n (Fin n.size) τ Unit}
    (he : enabled s (.sched (.ctl e))) (x : τ) :
    inPool (next s (.sched (.ctl e))) x + released s x (.sched (.ctl e)) =
      inPool s x + copied x (.sched (.ctl e)) + movedIn x (.sched (.ctl e)) := by
  have hplaces := places_next (moves_next h he) x
  have hitem := item_ctl h he.2 x
  have hentered : entered (next s (.sched (.ctl e))).sched x = entered s.sched x :=
    congrFun (RrScheduler.ctl_entered (RrScheduler.agree (sched_reachable h)) he.2) x
  have hexecuted : (next s (.sched (.ctl e))).executed = s.executed := rfl
  have hdiscarded : (next s (.sched (.ctl e))).discarded.count x = s.discarded.count x := by
    have hnothing : thrown s.sched (.ctl e) = [] := rfl
    rw [show (next s (.sched (.ctl e))).discarded = s.discarded ++ thrown s.sched (.ctl e) from rfl,
      hnothing, List.append_nil]
  have hleft : leftovers (next s (.sched (.ctl e))) x = leftovers s x := rfl
  unfold places at hplaces
  unfold inPool
  change itemAt ((RrScheduler.step s.sched.ctl e).schedule x) _ + _ + _ + _ + _ = _
  rw [hentered]
  rw [hexecuted] at hplaces
  omega

/-- In a queue a task comes from the call that pushes it, and `clear()` destroys what it
finds. -/
theorem inPool_inner (h : (machine n τ).Reachable s) {q : Fin n.size}
    {m : Queue.Event (RrScheduler.Caller (Fin n.size) τ Unit) τ}
    (he : enabled s (.sched (.inner q m))) (x : τ) :
    inPool (next s (.sched (.inner q m))) x + (thrown s.sched (.inner q m)).count x =
      inPool s x := by
  have hplaces := places_next (moves_next h he) x
  have hexecuted : (next s (.sched (.inner q m))).executed = s.executed := rfl
  have hdiscarded : (next s (.sched (.inner q m))).discarded.count x =
      s.discarded.count x + (thrown s.sched (.inner q m)).count x := List.count_append
  have hleft : leftovers (next s (.sched (.inner q m))) x = leftovers s x := rfl
  unfold places at hplaces
  unfold inPool
  change itemAt (s.sched.ctl.schedule x) _ + _ + _ + _ + _ = _
  rw [hexecuted] at hplaces
  rcases entered_moves (moves_next h he) x with hsame | ⟨hin, hbefore, hafter⟩
  · rw [hsame] at hplaces ⊢
    omega
  · rw [hbefore, hafter] at hplaces
    rw [hbefore, hafter]
    unfold itemAt
    rw [if_pos hin, if_pos hin]
    omega

theorem inPool_worker {s' : State n τ} (h : Moves s s' e) (x : τ)
    (hschedule : s'.sched.ctl.schedule = s.sched.ctl.schedule)
    (hentered : entered s'.sched = entered s.sched) (hexecuted : s'.executed = s.executed)
    (hdiscarded : s'.discarded = s.discarded) :
    inPool s' x + leftovers s x = inPool s x + leftovers s' x := by
  have hplaces := places_next h x
  unfold places at hplaces
  unfold inPool
  rw [hentered, hexecuted, hdiscarded] at hplaces
  rw [hschedule, hentered]
  omega

/-- A worker that has run a task keeps it. -/
theorem inPool_finish (h : (machine n τ).Reachable s) {w : Fin n.size} {y : τ}
    (he : enabled s (.finish w y)) (x : τ) : inPool (next s (.finish w y)) x = inPool s x := by
  have hplaces := places_next (moves_next h he) x
  have hw : s.run w = .running y := he
  have hupd := tally_update (w := leftAt x) (f := s.run) (Finset.mem_univ w) (.loop (some y))
  have hzero : leftAt x (s.run w) = 0 := by rw [hw]; rfl
  have hone : leftAt x (.loop (some y)) = [y].count x := by
    simp [leftAt, List.count_singleton]
  have hexecuted : (next s (.finish w y)).executed.count x =
      s.executed.count x + [y].count x := List.count_append
  have hdiscarded : (next s (.finish w y)).discarded = s.discarded := rfl
  have hentered : entered (next s (.finish w y)).sched = entered s.sched := rfl
  unfold places at hplaces
  unfold inPool
  change itemAt (s.sched.ctl.schedule x) (entered s.sched x) + _ + _ +
    tally (leftAt x) (Function.update s.run w (.loop (some y))) Finset.univ =
      _ + tally (leftAt x) s.run Finset.univ
  rw [hdiscarded, hentered] at hplaces
  omega

/-- **The copies of a task in the pool**, before and after a step. -/
theorem inPool_next (h : (machine n τ).Reachable s) (he : enabled s e) (x : τ) :
    inPool (next s e) x + released s x e = inPool s x + copied x e + movedIn x e := by
  cases e with
  | sched e =>
      cases e with
      | ctl e => exact inPool_ctl h he x
      | inner q m => exact inPool_inner h he x
  | ask w old =>
      obtain ⟨-, -, hentered⟩ := quiet_ask h he
      have hleft : leftovers (next s (.ask w old)) x = leftovers s x :=
        tally_update_same (by rw [he.1]; rfl)
      have hsame := inPool_worker (moves_next h he) x rfl hentered rfl rfl
      change inPool (next s (.ask w old)) x + 0 = inPool s x + 0 + 0
      omega
  | got w old task =>
      have hw : s.run w = .asking old := he.1
      have hentered : entered (next s (.got w old task)).sched = entered s.sched :=
        RrScheduler.ctl_entered (RrScheduler.agree (sched_reachable h)) he.2
      have hupd := tally_update (w := leftAt x) (f := s.run) (Finset.mem_univ w) (.assigned task)
      have hnone : leftAt x (.assigned task) = 0 := by cases task <;> rfl
      have hold : leftAt x (s.run w) = if old = some x then 1 else 0 := by rw [hw]; rfl
      have hsame := inPool_worker (moves_next h he) x rfl hentered rfl rfl
      change _ + tally (leftAt x) s.run Finset.univ =
        _ + tally (leftAt x) (Function.update s.run w (.assigned task)) Finset.univ at hsame
      change inPool (next s (.got w old task)) x + (if old = some x then 1 else 0) =
        inPool s x + 0 + 0
      omega
  | finish w y => exact inPool_finish h he x
  | destroy =>
      obtain ⟨-, -, hentered⟩ := quiet_destroy h he
      have hleft : leftovers (next s .destroy) x = leftovers s x := rfl
      have hsame := inPool_worker (moves_next h he) x rfl hentered rfl rfl
      change inPool (next s .destroy) x + 0 = inPool s x + 0 + 0
      omega
  | cleared | joinThread | joined => rfl

/-! ## Workers that have left

They keep nothing, so with no call of `schedule` under way the copies that are left
are those in the queues. -/

/-- The workers the destructor has joined have left `run()`. -/
def Joined (s : State n τ) : Prop :=
  match s.join with
  | .joining j => ∀ w, w.val < j → s.run w = .exited
  | .joined => ∀ w, s.run w = .exited
  | _ => True

theorem exited_next (he : enabled s e) {w : Fin n.size} (hw : s.run w = .exited) :
    (next s e).run w = .exited := by
  have hother : ∀ {v : Fin n.size} {p : RunPc τ}, s.run v ≠ .exited →
      Function.update s.run v p w = .exited := by
    intro v p hv
    have hne : w ≠ v := by
      rintro rfl
      exact hv hw
    rw [Function.update_of_ne hne]
    exact hw
  cases e with
  | ask v old => exact hother (by rw [he.1]; exact nofun)
  | got v old task => exact hother (by rw [he.1]; exact nofun)
  | finish v x => exact hother (by rw [show s.run v = .running x from he]; exact nofun)
  | _ => exact hw

theorem joined_exited (h : (machine n τ).Reachable s) : Joined s := by
  refine h.invariant (I := Joined) ?_ ?_
  · intro s hs
    rw [show s = State.initial n τ from hs]
    trivial
  · intro s e _ he ih
    have hkeep : (next s e).join = s.join → Joined (next s e) := by
      intro hjoin
      unfold Joined at ih ⊢
      rw [hjoin]
      cases hj : s.join with
      | joining j =>
          rw [hj] at ih
          exact fun w hw => exited_next he (ih w hw)
      | joined =>
          rw [hj] at ih
          exact fun w => exited_next he (ih w)
      | _ => trivial
    cases e with
    | sched e => exact hkeep rfl
    | ask w old => exact hkeep rfl
    | got w old task => exact hkeep rfl
    | finish w x => exact hkeep rfl
    | destroy => trivial
    | cleared => exact fun w hw => absurd hw (Nat.not_lt_zero _)
    | joinThread v =>
        obtain ⟨hj, hv⟩ := he
        unfold Joined at ih
        rw [hj] at ih
        intro w hw
        rcases Nat.lt_succ_iff_lt_or_eq.mp hw with hlt | heq
        · exact ih w hlt
        · rw [Fin.ext heq]
          exact hv
    | joined =>
        unfold Joined at ih
        rw [show s.join = .joining n.size from he] at ih
        exact fun w => ih w w.isLt

theorem inPool_joined (h : (machine n τ).Reachable s) (hjoined : s.join = .joined) {x : τ}
    (hx : ¬ Pushing (s.sched.ctl.schedule x)) : inPool s x = queued s x := by
  have hexited : ∀ w, s.run w = .exited := by
    have hj := joined_exited h
    unfold Joined at hj
    rwa [hjoined] at hj
  have hholders : holders s x = 0 := tally_eq_zero fun w _ => by
    simp [held, heldAt, hexited w]
  have hleft : leftovers s x = 0 := tally_eq_zero fun w _ => by
    simp [leftAt, hexited w]
  unfold inPool itemAt
  rw [if_neg hx, hholders, hleft]
  omega

end ThreadPool

end Jar.Concurrency
