/-
# `Jar.Concurrency.Sequential` — a pool with one worker

Tasks on a pool are executed in no particular order: producers and workers choose
their queues, and workers overtake each other.  With one worker there is one queue
and nobody to overtake.  What has been executed, what the worker holds and what is
still queued then form one line, in the order in which the tasks were put into the
queue: it is appended to at its end, taken from in the middle without changing it,
and cut off by `clear()`.

So a task whose `schedule` call had returned before the call for another began is
executed before the other (`one_worker_in_order`), by whatever threads they were
scheduled, and tasks under execution included.
-/
import Jar.Concurrency.Conservation

namespace Jar.Concurrency

open Jar.Lib

namespace ThreadPool

open RrScheduler (QueueCount contents entered)

variable {n : QueueCount} {τ : Type} [DecidableEq τ] {s s' : State n τ} {e : Event n τ} {x y : τ}

/-- The only worker, and the only queue, of a pool with one thread. -/
def sole (n : QueueCount) : Fin n.size := ⟨0, n.pos⟩

theorem eq_sole (hone : n.size = 1) (w : Fin n.size) : w = sole n := by
  have hw : w.val < 1 := lt_of_lt_of_eq w.isLt hone
  exact Fin.ext (Nat.lt_one_iff.mp hw)

/-- The tasks in the order in which they are executed. -/
def line (s : State n τ) : List τ :=
  s.executed ++ ((held s (sole n)).toList ++ contents s.sched (sole n))

theorem executed_line (s : State n τ) : s.executed.Sublist (line s) :=
  List.sublist_append_left _ _

theorem tally_sole {P : Type} (hone : n.size = 1) (w : P → ℕ) (f : Fin n.size → P) :
    tally w f Finset.univ = w (f (sole n)) :=
  tally_eq_single (Finset.mem_univ _) fun v _ hv => absurd (eq_sole hone v) hv

/-- A task is in the line once it has been put into the queue, unless it was discarded. -/
theorem count_line (hone : n.size = 1) (h : (machine n τ).Reachable s) (x : τ) :
    (line s).count x + s.discarded.count x = entered s.sched x := by
  have hplaces := places_eq_entered h x
  have hheld : (held s (sole n)).toList.count x = if held s (sole n) = some x then 1 else 0 := by
    cases hsole : held s (sole n) with
    | none => rfl
    | some z => simp [List.count_singleton]
  rw [places, queued, holders, tally_sole hone, tally_sole hone] at hplaces
  rw [line, List.count_append, List.count_append, hheld]
  omega

/-- What a step does to the line: it leaves it or cuts it off, or appends a task that has
not been put into the queue before. -/
theorem Moves.line (hone : n.size = 1) (h : Moves s s' e) :
    (line s').Sublist (line s) ∧ entered s'.sched = entered s.sched ∨
      ∃ z, entered s.sched z = 0 ∧ line s' = line s ++ [z] ∧
        entered s'.sched = Function.update (entered s.sched) z 1 := by
  cases h with
  | quiet hcontents hheld hentered hexecuted _ =>
      refine Or.inl ⟨?_, hentered⟩
      rw [ThreadPool.line, ThreadPool.line, hcontents, hheld, hexecuted]
  | enqueue q z _ hfresh hcontents hheld hentered hexecuted _ =>
      refine Or.inr ⟨z, hfresh, ?_, hentered⟩
      rw [ThreadPool.line, ThreadPool.line, hcontents, hheld, hexecuted, eq_sole hone q,
        Function.update_self, List.append_assoc, List.append_assoc]
  | take q w z zs _ hfront hempty hcontents hheld hentered hexecuted _ =>
      refine Or.inl ⟨?_, hentered⟩
      rw [eq_sole hone q] at hfront hcontents
      rw [eq_sole hone w] at hempty hheld
      rw [ThreadPool.line, ThreadPool.line, hcontents, hheld, hexecuted, hfront, hempty,
        Function.update_self, Function.update_self]
      rfl
  | clear q _ hcontents hheld hentered hexecuted _ =>
      refine Or.inl ⟨?_, hentered⟩
      rw [ThreadPool.line, ThreadPool.line, hcontents, hheld, hexecuted, eq_sole hone q,
        Function.update_self]
      exact ((List.nil_sublist _).append_left _).append_left _
  | finish w z hz hcontents hheld hentered hexecuted _ =>
      refine Or.inl ⟨?_, hentered⟩
      rw [eq_sole hone w] at hz hheld
      rw [ThreadPool.line, ThreadPool.line, hcontents, hheld, hexecuted, hz, Function.update_self,
        List.append_assoc]
      rfl

/-- Task `x` is in the queue or past it, and `y` does not precede it. -/
structure Ahead (x y : τ) (s : State n τ) : Prop where
  entered : entered s.sched x = 1
  notAfter : ¬ [y, x].Sublist (line s)

theorem Ahead.next (hone : n.size = 1) (h : Moves s s' e) (ha : Ahead x y s) : Ahead x y s' := by
  rcases h.line hone with ⟨hline, hentered⟩ | ⟨z, hfresh, hline, hentered⟩
  · exact ⟨hentered ▸ ha.entered, fun hafter => ha.notAfter (hafter.trans hline)⟩
  · have hxz : x ≠ z := by
      rintro rfl
      rw [ha.entered] at hfresh
      cases hfresh
    refine ⟨by rw [hentered, Function.update_of_ne hxz]; exact ha.entered, fun hafter => ?_⟩
    rw [hline] at hafter
    obtain ⟨front, last, hsplit, hfront, hlast⟩ := List.sublist_append_iff.mp hafter
    rcases List.sublist_singleton.mp hlast with rfl | rfl
    · rw [List.append_nil] at hsplit
      exact ha.notAfter (hsplit ▸ hfront)
    · obtain ⟨-, hlast⟩ := List.append_inj' (show [y] ++ [x] = front ++ [z] from hsplit) rfl
      exact hxz (List.singleton_inj.mp hlast)

theorem ahead (hone : n.size = 1) (h : (machine n τ).Reachable s)
    (hx : s.sched.ctl.schedule x = .returned) (hy : s.sched.ctl.schedule y = .uncalled) :
    Ahead x y s := by
  refine ⟨by rw [RrScheduler.entered, hx]; rfl, fun hafter => ?_⟩
  have hcount := count_line hone h y
  rw [entered_uncalled hy] at hcount
  have hmem : y ∈ line s := hafter.subset List.mem_cons_self
  have hpos := List.count_pos_iff.mpr hmem
  omega

omit [DecidableEq τ] in
/-- Two different members of a list stand in it in one order or the other. -/
theorem sublist_pair {l : List τ} (hx : x ∈ l) (hy : y ∈ l) (hxy : x ≠ y) :
    [x, y].Sublist l ∨ [y, x].Sublist l := by
  induction l with
  | nil => cases hx
  | cons a l ih =>
      rcases List.mem_cons.mp hx with rfl | hx'
      · have hy' := (List.mem_cons.mp hy).resolve_left (Ne.symm hxy)
        exact Or.inl (List.Sublist.cons_cons _ (List.singleton_sublist.mpr hy'))
      · rcases List.mem_cons.mp hy with rfl | hy'
        · exact Or.inr (List.Sublist.cons_cons _ (List.singleton_sublist.mpr hx'))
        · exact (ih hx' hy').imp (List.Sublist.cons _) (List.Sublist.cons _)

/-- **One worker executes in order.**  Let the call `schedule(x)` have returned before the
call `schedule(y)` begins.  If `y` has been executed at some later point, then `x` has been
as well, unless the destructor has begun; and if both have been, `x` was first. -/
theorem one_worker_in_order (hone : n.size = 1) (h : (machine n τ).Reachable s)
    (hx : s.sched.ctl.schedule x = .returned) (hy : s.sched.ctl.schedule y = .uncalled)
    (hs : (machine n τ).Reaches s s') (hdone : y ∈ s'.executed) :
    (s'.sched.ctl.clear () = .uncalled → x ∈ s'.executed) ∧
      (x ∈ s'.executed → [x, y].Sublist s'.executed) := by
  have hahead : (machine n τ).Reachable s' ∧ Ahead x y s' :=
    hs.stable (P := fun s => (machine n τ).Reachable s ∧ Ahead x y s)
      (fun t e he ht => ⟨ht.1.step he, ht.2.next hone (moves ht.1 he)⟩) ⟨h, ahead hone h hx hy⟩
  have hxy : x ≠ y := by
    rintro rfl
    rw [hx] at hy
    cases hy
  have hfirst : x ∈ s'.executed → [x, y].Sublist s'.executed := by
    intro hx'
    refine (sublist_pair hx' hdone hxy).resolve_right fun hafter => ?_
    exact hahead.2.notAfter (hafter.trans (executed_line s'))
  refine ⟨fun hclear => ?_, hfirst⟩
  -- nothing was discarded, so `x` is in the line, and not behind `y`
  have hcount := count_line hone hahead.1 x
  rw [discarded_nil hahead.1 hclear, hahead.2.entered] at hcount
  have hmem : x ∈ line s' := List.count_pos_iff.mp (by rw [List.count_nil] at hcount; omega)
  rcases List.mem_append.mp hmem with hx' | hrest
  · exact hx'
  · refine absurd ?_ hahead.2.notAfter
    exact (List.singleton_sublist.mpr hdone).append (List.singleton_sublist.mpr hrest)

/-- The first task is scheduled. -/
def firstScheduled : List (Event oneWorker TaskName) :=
  [.sched (.ctl (.schedule .first)), .sched (.ctl (.fetchPush .first)),
   .sched (.ctl (.tryPush .first 0 0)),
   .sched (.inner 0 (.lock (.schedule .first) (.tryPush .first))),
   .sched (.inner 0 (.body (.schedule .first) (.tryPush .first))),
   .sched (.inner 0 (.notifyOne (.schedule .first) (.tryPush .first) (.pushed true) none)),
   .sched (.ctl (.tryPushRet .first 0 0 true))]

/-- Then the second is; the worker executes both. -/
def bothExecuted : List (Event oneWorker TaskName) :=
  [.sched (.ctl (.schedule .second)), .sched (.ctl (.fetchPush .second)),
   .sched (.ctl (.tryPush .second 1 0)),
   .sched (.inner 0 (.lock (.schedule .second) (.tryPush .second))),
   .sched (.inner 0 (.body (.schedule .second) (.tryPush .second))),
   .ask 0 none, .sched (.ctl (.initIndex 0)), .sched (.ctl (.tryPop 0 0)),
   .sched (.inner 0 (.lock (.scheduled 0) .tryPop)),
   .sched (.inner 0 (.body (.scheduled 0) .tryPop)),
   .sched (.ctl (.tryPopRet 0 0 (some .first))), .got 0 none (some .first), .finish 0 .first,
   .ask 0 (some .first), .sched (.ctl (.readIndex 0)), .sched (.ctl (.tryPop 0 0)),
   .sched (.inner 0 (.lock (.scheduled 0) .tryPop)),
   .sched (.inner 0 (.body (.scheduled 0) .tryPop)),
   .sched (.ctl (.tryPopRet 0 0 (some .second))), .got 0 (some .first) (some .second),
   .finish 0 .second]

theorem one_worker_in_order_bothExecuted :
    [TaskName.first, .second].Sublist ((machine oneWorker TaskName).after
      ((machine oneWorker TaskName).after (State.initial oneWorker TaskName) firstScheduled)
        bothExecuted).executed := by
  obtain ⟨hwas, horder⟩ := one_worker_in_order (n := oneWorker) (τ := TaskName) (x := .first)
    (y := .second)
    (s := (machine oneWorker TaskName).after (State.initial oneWorker TaskName) firstScheduled)
    rfl (Machine.Reachable.of_run rfl (by decide)) (by decide) (by decide)
    ⟨bothExecuted, by decide +kernel, rfl⟩ (by decide +kernel)
  exact horder (hwas (by decide +kernel))

end ThreadPool

end Jar.Concurrency
