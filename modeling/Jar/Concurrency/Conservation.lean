/-
# `Jar.Concurrency.Conservation` — where every task of a pool is

A task that `schedule` has put into a queue is afterwards in one of four places:

    queued      in a container
    held        taken out by a worker that has not finished it
    executed    run to its end by a worker
    discarded   removed by `clear()`

`moves` reads off the steps of the pool what they do to the four places, from
the same lemma about the scheduler; `tasks_conserved` is the balance that
follows.  The retry loop of `schedule` shows in it as the number of copies that
have been put into some queue, which is 0 while the loop goes on and 1 at its
end, however many attempts were refused.
-/
import Jar.Concurrency.ThreadPool

namespace Jar.Concurrency

open Jar.Lib

namespace ThreadPool

open RrScheduler (QueueCount slot hand entered contents cancelled)

variable {n : QueueCount} {τ : Type} [DecidableEq τ] {s : State n τ} {e : Event n τ}

/-! ## Workers in `scheduled()` -/

theorem step_outside {c : RrScheduler.Control (Fin n.size) τ Unit}
    {e : RrScheduler.Step n (Fin n.size) τ Unit} (hg : RrScheduler.guard n c e)
    (ha : autonomous (.ctl e) = true) (w : Fin n.size) :
    (RrScheduler.step c e).scheduled w = .outside ↔ c.scheduled w = .outside := by
  by_cases hw : e.caller = .scheduled w
  case neg => rw [RrScheduler.step_scheduled_of_ne c e hw]
  cases e with
  | initIndex i =>
      cases hw
      simp [RrScheduler.step, RrScheduler.Control.setScheduled, hg.1]
  | readIndex i =>
      cases hw
      simp [RrScheduler.step, RrScheduler.Control.setScheduled, hg.1]
  | tryPop i k =>
      cases hw
      simp [RrScheduler.step, RrScheduler.Control.setScheduled, hg.1]
  | tryPopRet i k task =>
      have hi : c.scheduled i = .trying k := hg
      cases hw
      cases task <;> simp [RrScheduler.step, RrScheduler.Control.setScheduled, hi]
  | pop i k =>
      cases hw
      simp [RrScheduler.step, RrScheduler.Control.setScheduled, hg.1]
  | popRet i task =>
      have hi : c.scheduled i = .waiting := hg
      cases hw
      simp [RrScheduler.step, RrScheduler.Control.setScheduled, hi]
  | enter i | leave i _ => cases ha
  | _ => cases hw

/-- A worker is inside `scheduled()` exactly while it is asking. -/
def Calling (s : State n τ) : Prop :=
  ∀ w, s.sched.ctl.scheduled w = .outside ↔ ∀ old, s.run w ≠ .asking old

theorem calling (h : (machine n τ).Reachable s) : Calling s := by
  refine h.invariant (I := Calling) ?_ ?_
  · intro s hs w
    rw [show s = State.initial n τ from hs]
    exact ⟨fun _ _ => nofun, fun _ => rfl⟩
  · intro s e _ he ih w
    have hother : ∀ (v : Fin n.size) (p : RrScheduler.ScheduledPc τ) (p' : RunPc τ),
        (p = .outside ↔ ∀ old, p' ≠ .asking old) →
        (Function.update s.sched.ctl.scheduled v p w = .outside ↔
          ∀ old, Function.update s.run v p' w ≠ .asking old) := by
      intro v p p' hp
      by_cases hv : w = v
      · subst hv
        simpa using hp
      · simpa [hv] using ih w
    cases e with
    | sched e =>
        cases e with
        | inner q m => exact ih w
        | ctl e => exact (step_outside he.2.1 he.1 w).trans (ih w)
    | ask v old => exact hother v .entered (.asking old) (by simp)
    | got v old task =>
        exact hother v .outside (.assigned task) (by cases task <;> simp [RunPc.assigned])
    | finish v x =>
        have hv : s.run v = .running x := he
        have hout : s.sched.ctl.scheduled v = .outside := (ih v).mpr (by simp [hv])
        have := hother v .outside (.loop (some x)) (by simp)
        rwa [← hout, Function.update_eq_self, hout] at this
    | destroy => exact ih w
    | cleared | joinThread | joined => exact ih w

/-! ## The four places

A task that has entered a queue lies in one, is held by a worker, has been executed,
or was thrown away by `clear()`.  A worker that moves changes what it holds itself,
and what it holds depends on where it stands and what it carries.  All other steps of
control move no task. -/

/-- What a worker holds: what it carries out of `scheduled()`, or what it runs. -/
def heldAt (p : RunPc τ) (carried : Option τ) : Option τ :=
  match p with
  | .asking _ => carried
  | .running x => some x
  | _ => none

/-- The task a worker has taken and not finished. -/
def held (s : State n τ) (w : Fin n.size) : Option τ := heldAt (s.run w) (hand s.sched w)

/-- The positions of task `x` in the queues. -/
def queued (s : State n τ) (x : τ) : ℕ := tally (List.count x) (contents s.sched) Finset.univ

/-- The workers that hold task `x`. -/
def holders (s : State n τ) (x : τ) : ℕ :=
  tally (fun o => if o = some x then 1 else 0) (held s) Finset.univ

/-- All the places of task `x`, counted. -/
def places (s : State n τ) (x : τ) : ℕ :=
  queued s x + holders s x + s.executed.count x + s.discarded.count x

/-- What a step of the pool does to the tasks. -/
inductive Moves (s s' : State n τ) : Event n τ → Prop
  | quiet {e : Event n τ} (hcontents : contents s'.sched = contents s.sched)
      (hheld : held s' = held s) (hentered : entered s'.sched = entered s.sched)
      (hexecuted : s'.executed = s.executed) (hdiscarded : s'.discarded = s.discarded) :
      Moves s s' e
  | enqueue {e : Event n τ} (q : Fin n.size) (x : τ)
      (hin : RrScheduler.Pushing (s.sched.ctl.schedule x)) (hfresh : entered s.sched x = 0)
      (hcontents : contents s'.sched =
        Function.update (contents s.sched) q (contents s.sched q ++ [x]))
      (hheld : held s' = held s)
      (hentered : entered s'.sched = Function.update (entered s.sched) x 1)
      (hexecuted : s'.executed = s.executed) (hdiscarded : s'.discarded = s.discarded) :
      Moves s s' e
  | take {e : Event n τ} (q w : Fin n.size) (x : τ) (xs : List τ)
      (hhow : e = .sched (.inner q (.body (.scheduled w) .tryPop)) ∨ cancelled s.sched q = false)
      (hfront : contents s.sched q = x :: xs) (hempty : held s w = none)
      (hcontents : contents s'.sched = Function.update (contents s.sched) q xs)
      (hheld : held s' = Function.update (held s) w (some x))
      (hentered : entered s'.sched = entered s.sched)
      (hexecuted : s'.executed = s.executed) (hdiscarded : s'.discarded = s.discarded) :
      Moves s s' e
  | clear {e : Event n τ} (q : Fin n.size)
      (hcalled : s.sched.ctl.clear () ≠ .uncalled)
      (hcontents : contents s'.sched = Function.update (contents s.sched) q [])
      (hheld : held s' = held s) (hentered : entered s'.sched = entered s.sched)
      (hexecuted : s'.executed = s.executed)
      (hdiscarded : s'.discarded = s.discarded ++ contents s.sched q) : Moves s s' e
  | finish {e : Event n τ} (w : Fin n.size) (x : τ) (hx : held s w = some x)
      (hcontents : contents s'.sched = contents s.sched)
      (hheld : held s' = Function.update (held s) w none)
      (hentered : entered s'.sched = entered s.sched)
      (hexecuted : s'.executed = s.executed ++ [x]) (hdiscarded : s'.discarded = s.discarded) :
      Moves s s' e

theorem held_congr {s s' : State n τ} (hrun : s'.run = s.run)
    (hhand : hand s'.sched = hand s.sched) :
    held s' = held s := by
  funext w
  unfold held
  rw [hrun, hhand]

theorem held_update {s s' : State n τ} {w : Fin n.size} {p : RunPc τ} {o : Option τ}
    (hrun : s'.run = Function.update s.run w p)
    (hhand : ∀ v, v ≠ w → hand s'.sched v = hand s.sched v) (ho : heldAt p (hand s'.sched w) = o) :
    held s' = Function.update (held s) w o := by
  funext v
  unfold held
  by_cases hv : v = w
  · subst hv
    rw [hrun, Function.update_self, Function.update_self, ho]
  · rw [hrun, Function.update_of_ne hv, Function.update_of_ne hv, hhand v hv]

omit [DecidableEq τ] in
theorem thrown_nil {s : RrScheduler.State n (Fin n.size) τ Unit}
    {e : RrScheduler.Event n (Fin n.size) τ Unit} (h : ∀ q t, e ≠ .inner q (.body t .clear)) :
    thrown s e = [] := by
  unfold thrown
  split
  · next q t => exact absurd rfl (h q t)
  · rfl

theorem quiet_ctl {s t : State n τ} (hs : (machine n τ).Reachable s)
    {e : RrScheduler.Step n (Fin n.size) τ Unit}
    (he : (scheduler n τ).Enabled s.sched (.ctl e)) (hleave : ∀ i task, e ≠ .leave i task)
    (hsched : t.sched = (scheduler n τ).next s.sched (.ctl e)) :
    contents t.sched = contents s.sched ∧ hand t.sched = hand s.sched ∧
      entered t.sched = entered s.sched := by
  have ha := RrScheduler.agree (sched_reachable hs)
  rw [hsched]
  exact ⟨RrScheduler.ctl_contents _ e, RrScheduler.ctl_hand ha he hleave,
    RrScheduler.ctl_entered ha he⟩

theorem quiet_ask (h : (machine n τ).Reachable s) {w : Fin n.size} {old : Option τ}
    (he : enabled s (.ask w old)) :
    contents (next s (.ask w old)).sched = contents s.sched ∧
      hand (next s (.ask w old)).sched = hand s.sched ∧
      entered (next s (.ask w old)).sched = entered s.sched :=
  quiet_ctl h he.2 nofun rfl

theorem quiet_destroy (h : (machine n τ).Reachable s) (he : enabled s .destroy) :
    contents (next s .destroy).sched = contents s.sched ∧
      hand (next s .destroy).sched = hand s.sched ∧
      entered (next s .destroy).sched = entered s.sched :=
  quiet_ctl h he.2 nofun rfl

theorem moves_sched (h : (machine n τ).Reachable s) {e : RrScheduler.Event n (Fin n.size) τ Unit}
    (he : enabled s (.sched e)) : Moves s (next s (.sched e)) (.sched e) := by
  obtain ⟨hauto, hen⟩ := he
  have hkeep : ∀ ys, s.discarded ++ thrown s.sched e = s.discarded ++ ys →
      (next s (.sched e)).discarded = s.discarded ++ ys := fun _ h => h
  have hnone : (∀ q t, e ≠ .inner q (.body t .clear)) →
      (next s (.sched e)).discarded = s.discarded := fun hc => by
    rw [hkeep [] (by rw [thrown_nil hc]), List.append_nil]
  cases RrScheduler.transfer (sched_reachable h) hen with
  | quiet _ hclear hcontents hhand hentered =>
      exact .quiet hcontents (held_congr rfl hhand) hentered rfl (hnone hclear)
  | enqueue q x _ hclear hin hfresh hcontents hhand hentered =>
      exact .enqueue q x hin hfresh hcontents (held_congr rfl hhand) hentered rfl (hnone hclear)
  | take q w x xs _ hclear hin hhow hfront hempty hcontents hhand hentered =>
      obtain ⟨old, hold⟩ : ∃ old, s.run w = .asking old := by
        by_contra hno
        exact hin ((calling h w).mpr fun old hw => hno ⟨old, hw⟩)
      refine .take q w x xs ?_ hfront ?_ hcontents ?_ hentered rfl (hnone hclear)
      · rcases hhow with rfl | hopen
        · exact Or.inl rfl
        · exact Or.inr hopen
      · simp [held, heldAt, hold, hempty]
      · have hw : Function.update s.run w (.asking old) = s.run := by
          rw [← hold, Function.update_eq_self]
        refine held_update (p := .asking old) hw.symm (fun v hv => ?_) ?_
        · rw [show hand (next s (.sched e)).sched = _ from hhand, Function.update_of_ne hv]
        · show hand (next s (.sched e)).sched w = some x
          rw [show hand (next s (.sched e)).sched = _ from hhand, Function.update_self]
  | clear q k hcontents hhand hentered =>
      refine .clear q ?_ hcontents (held_congr rfl hhand) hentered rfl rfl
      have hinside := (RrScheduler.agree (sched_reachable h)).inside
        (show (s.sched.obj q).pc (.clear k) = .holding .clear from hen.2) rfl
      cases hinside with
      | clear hk => rw [hk]; exact nofun
  | leave i task => cases hauto

/-- **Every step of the pool** moves tasks between the four places, if at all. -/
theorem moves (h : (machine n τ).Reachable s) (he : (machine n τ).Enabled s e) :
    Moves s ((machine n τ).next s e) e := by
  have hout : ∀ w, (∀ old, s.run w ≠ .asking old) → hand s.sched w = none := fun w hw =>
    RrScheduler.hand_outside ((calling h w).mpr hw)
  cases e with
  | sched e => exact moves_sched h he
  | ask w old =>
      obtain ⟨hc, hh, hn⟩ := quiet_ask h he
      have hw : s.run w = .loop old := he.1
      have hnone := hout w (by simp [hw])
      refine .quiet hc ?_ hn rfl rfl
      have hheld : held s w = none := by simp [held, heldAt, hw]
      rw [← Function.update_eq_self w (held s), hheld]
      exact held_update rfl (fun v _ => congrFun hh v) ((congrFun hh w).trans hnone)
  | got w old task =>
      obtain ⟨hw, hen⟩ := he
      have ha := RrScheduler.agree (sched_reachable h)
      obtain ⟨htask, hhand⟩ := RrScheduler.leave_hand ha hen
      refine .quiet (RrScheduler.ctl_contents _ _) ?_ (RrScheduler.ctl_entered ha hen) rfl rfl
      have hheld : held s w = task := by simp [held, heldAt, hw, htask]
      rw [← Function.update_eq_self w (held s), hheld]
      refine held_update rfl (fun v hv => ?_) ?_
      · rw [show hand ((machine n τ).next s (.got w old task)).sched = _ from hhand,
          Function.update_of_ne hv]
      · cases task <;> rfl
  | finish w x =>
      have hw : s.run w = .running x := he
      exact .finish w x (by simp [held, heldAt, hw]) rfl (held_update rfl (fun _ _ => rfl) rfl)
        rfl rfl rfl
  | destroy =>
      obtain ⟨hc, hh, hn⟩ := quiet_destroy h he
      exact .quiet hc (held_congr rfl hh) hn rfl rfl
  | cleared => exact .quiet rfl rfl rfl rfl rfl
  | joinThread w => exact .quiet rfl rfl rfl rfl rfl
  | joined => exact .quiet rfl rfl rfl rfl rfl

/-! ## The balance

The places of a task are as many as its copies that have entered a queue, and these
are as many as the calls that have put it there.  Whether a call has done so can be
read off its program counter: the final `push` enqueues the task in its critical
section, an attempt only when it is accepted. -/

theorem places_next {s' : State n τ} (h : Moves s s' e) (x : τ) :
    places s' x + entered s.sched x = places s x + entered s'.sched x := by
  have hmem : ∀ v : Fin n.size, v ∈ Finset.univ := Finset.mem_univ
  unfold places queued holders
  cases h with
  | quiet hcontents hheld hentered hexecuted hdiscarded =>
      rw [hcontents, hheld, hentered, hexecuted, hdiscarded]
  | enqueue q y _ hfresh hcontents hheld hentered hexecuted hdiscarded =>
      have hq := tally_update (w := List.count x) (f := contents s.sched) (hmem q)
        (contents s.sched q ++ [y])
      rw [hcontents, hheld, hentered, hexecuted, hdiscarded]
      rw [List.count_append] at hq
      by_cases hxy : x = y
      · subst hxy
        rw [Function.update_self, hfresh]
        simp only [List.count_singleton_self] at hq
        omega
      · rw [Function.update_of_ne hxy]
        simp only [List.count_singleton, beq_iff_eq, if_neg (Ne.symm hxy)] at hq
        omega
  | take q w y ys _ hfront hempty hcontents hheld hentered hexecuted hdiscarded =>
      have hq := tally_update (w := List.count x) (f := contents s.sched) (hmem q) ys
      have hw := tally_update (w := fun o => if o = some x then 1 else 0) (f := held s) (hmem w)
        (some y)
      rw [hcontents, hheld, hentered, hexecuted, hdiscarded]
      rw [hfront] at hq
      rw [hempty] at hw
      by_cases hxy : x = y
      · subst hxy
        simp only [List.count_cons_self, reduceCtorEq, if_false, if_true] at hq hw
        omega
      · rw [List.count_cons_of_ne (Ne.symm hxy)] at hq
        simp only [reduceCtorEq, if_false, Option.some.injEq, if_neg (Ne.symm hxy)] at hw
        omega
  | clear q _ hcontents hheld hentered hexecuted hdiscarded =>
      have hq := tally_update (w := List.count x) (f := contents s.sched) (hmem q) []
      rw [hcontents, hheld, hentered, hexecuted, hdiscarded, List.count_append]
      rw [List.count_nil] at hq
      omega
  | finish w y hy hcontents hheld hentered hexecuted hdiscarded =>
      have hw :=
        tally_update (w := fun o => if o = some x then 1 else 0) (f := held s) (hmem w) none
      rw [hcontents, hheld, hentered, hexecuted, hdiscarded, List.count_append]
      rw [hy] at hw
      by_cases hxy : x = y
      · subst hxy
        simp only [List.count_singleton_self, reduceCtorEq, if_false, if_true] at hw ⊢
        omega
      · simp only [List.count_singleton, beq_iff_eq, reduceCtorEq, if_false, Option.some.injEq,
          if_neg (Ne.symm hxy)] at hw ⊢
        omega

/-- The places of a task are as many as the copies put into a queue. -/
theorem places_eq_entered (h : (machine n τ).Reachable s) (x : τ) :
    places s x = entered s.sched x := by
  refine h.invariant (I := fun s => places s x = entered s.sched x) ?_ ?_
  · intro s hs
    rw [show s = State.initial n τ from hs]
    have hqueued : queued (State.initial n τ) x = 0 := tally_eq_zero fun q _ => rfl
    have hheld : holders (State.initial n τ) x = 0 := tally_eq_zero fun w _ => rfl
    unfold places
    rw [hqueued, hheld]
    rfl
  · intro s e hr he ih
    have hstep := places_next (moves hr he) x
    omega

/-- Nothing is discarded before `clear()` is called. -/
theorem discarded_nil (h : (machine n τ).Reachable s)
    (hclear : s.sched.ctl.clear () = .uncalled) : s.discarded = [] := by
  refine h.invariant (I := fun s => s.sched.ctl.clear () = .uncalled → s.discarded = [])
    ?_ ?_ hclear
  · intro s hs _
    rw [show s = State.initial n τ from hs]
    rfl
  · intro s e hr he ih hnext
    have hbefore : s.sched.ctl.clear () = .uncalled := by
      by_contra hcalled
      cases hseen : seen e with
      | none =>
          rw [show ((machine n τ).next s e).sched = s.sched by
            rw [show ((machine n τ).next s e).sched = _ from sched_next, hseen]] at hnext
          exact hcalled hnext
      | some b =>
          rw [show ((machine n τ).next s e).sched = (scheduler n τ).next s.sched b by
            rw [show ((machine n τ).next s e).sched = _ from sched_next, hseen]] at hnext
          cases b with
          | inner q m => exact hcalled hnext
          | ctl b => exact RrScheduler.step_called b hcalled hnext
    cases moves hr he with
    | quiet _ _ _ _ hdiscarded => rw [hdiscarded]; exact ih hbefore
    | enqueue _ _ _ _ _ _ _ _ hdiscarded => rw [hdiscarded]; exact ih hbefore
    | take _ _ _ _ _ _ _ _ _ _ _ hdiscarded => rw [hdiscarded]; exact ih hbefore
    | clear _ hcalled => exact absurd hbefore hcalled
    | finish _ _ _ _ _ _ _ hdiscarded => rw [hdiscarded]; exact ih hbefore

theorem entered_looping {s : RrScheduler.State n (Fin n.size) τ Unit} {x : τ}
    {index k : BitVec 32} (hx : s.ctl.schedule x = .looping index k) : entered s x = 0 := by
  have hidle : RrScheduler.place s (.schedule x) = .idle :=
    Client.place_of_idle (show RrScheduler.site n s.ctl (.schedule x) = none by
      simp [RrScheduler.site, hx])
  unfold entered
  rw [hx, hidle]
  rfl

theorem entered_uncalled {s : RrScheduler.State n (Fin n.size) τ Unit} {x : τ}
    (hx : s.ctl.schedule x = .uncalled) : entered s x = 0 := by
  have hidle : RrScheduler.place s (.schedule x) = .idle :=
    Client.place_of_idle (show RrScheduler.site n s.ctl (.schedule x) = none by
      simp [RrScheduler.site, hx])
  unfold entered
  rw [hx, hidle]
  rfl

/-- The worker that runs a task holds it. -/
theorem holders_running {w : Fin n.size} {x : τ} (hw : s.run w = .running x) :
    0 < holders s x := by
  have hheld : held s w = some x := by rw [held, hw]; rfl
  have hle := le_tally (w := fun o => if o = some x then 1 else 0) (f := held s)
    (Finset.mem_univ w)
  rw [hheld, if_pos rfl] at hle
  exact hle

/-- The call `schedule(x)` waits in its final `push` for the mutex of queue `q`, or has it. -/
def BeforePush (s : State n τ) (q : Fin n.size) (x : τ) : Prop :=
  (s.sched.obj q).pc (.schedule x) = .calling (.push x) ∨
    (s.sched.obj q).pc (.schedule x) = .holding (.push x)

/-- Its critical section is behind it. -/
def AfterPush (s : State n τ) (q : Fin n.size) (x : τ) : Prop :=
  ∃ r, (s.sched.obj q).pc (.schedule x) = .notifyOne (.push x) r ∨
    (s.sched.obj q).pc (.schedule x) = .returned (.push x) r

/-- The final `push` enqueues the task in its critical section, and only there. -/
theorem entered_pushing (h : (machine n τ).Reachable s) {x : τ} {index : BitVec 32}
    (hx : s.sched.ctl.schedule x = .pushing index) :
    BeforePush s (slot n index) x ∧ entered s.sched x = 0 ∨
      AfterPush s (slot n index) x ∧ entered s.sched x = 1 := by
  have hreach := sched_reachable h
  have hsite : RrScheduler.site n s.sched.ctl (.schedule x) = some (slot n index, .push x) := by
    simp [RrScheduler.site, hx]
  have hop : ((s.sched.obj (slot n index)).pc (.schedule x)).op = some (.push x) :=
    (RrScheduler.agree hreach _ _ _).mpr hsite
  have hsound := Monitor.pc_sound (Client.obj_reachable hreach (slot n index)) (.schedule x)
  have hentered : entered s.sched x =
      RrScheduler.delivered ((s.sched.obj (slot n index)).pc (.schedule x)) := by
    rw [entered, hx, RrScheduler.place, Client.place_of_site hsite]
    rfl
  rw [hentered]
  unfold BeforePush AfterPush
  cases hpc : (s.sched.obj (slot n index)).pc (.schedule x) with
  | idle => rw [hpc] at hop; cases hop
  | calling op => rw [hpc] at hop; cases hop; exact Or.inl ⟨Or.inl rfl, rfl⟩
  | holding op => rw [hpc] at hop; cases hop; exact Or.inl ⟨Or.inr rfl, rfl⟩
  | notifyOne op r => rw [hpc] at hop; cases hop; exact Or.inr ⟨⟨r, Or.inl rfl⟩, rfl⟩
  | returned op r => rw [hpc] at hop; cases hop; exact Or.inr ⟨⟨r, Or.inr rfl⟩, rfl⟩
  | asleep op | woken op | rechecking op =>
      rw [hpc] at hop hsound
      cases hop
      cases Queue.blocks_pop hsound
  | notifyAll op r =>
      rw [hpc] at hop hsound
      cases hop
      cases (Queue.emits_all hsound).1

/-- **Tasks are conserved.**  A task whose `schedule` call has returned is in
exactly one place; no task is ever in two; between two attempts of the retry
loop nothing has been enqueued, whatever the refused attempts were, and neither
has anything when the final `push` reaches its critical section, which adds one
copy; and nothing is discarded as long as `clear()` has not been called. -/
theorem tasks_conserved (h : (machine n τ).Reachable s) (x : τ) :
    (s.sched.ctl.schedule x = .returned →
      queued s x + holders s x + s.executed.count x + s.discarded.count x = 1) ∧
    queued s x + holders s x + s.executed.count x + s.discarded.count x ≤ 1 ∧
    (∀ index k, s.sched.ctl.schedule x = .looping index k →
      queued s x + holders s x + s.executed.count x + s.discarded.count x = 0) ∧
    (∀ index, s.sched.ctl.schedule x = .pushing index →
      BeforePush s (slot n index) x ∧
          queued s x + holders s x + s.executed.count x + s.discarded.count x = 0 ∨
        AfterPush s (slot n index) x ∧
          queued s x + holders s x + s.executed.count x + s.discarded.count x = 1) ∧
    (s.sched.ctl.clear () = .uncalled → s.discarded = []) := by
  have hplaces : queued s x + holders s x + s.executed.count x + s.discarded.count x =
      entered s.sched x := places_eq_entered h x
  refine ⟨?_, ?_, ?_, ?_, discarded_nil h⟩
  · intro hx
    rw [hplaces, entered, hx]
    rfl
  · rw [hplaces]
    exact RrScheduler.entered_le_one s.sched x
  · intro index k hx
    rw [hplaces]
    exact entered_looping hx
  · intro index hx
    rw [hplaces]
    exact entered_pushing h hx

/-- The tasks of concrete runs. -/
inductive TaskName where
  | first
  | second
  deriving DecidableEq

instance : Fintype TaskName := ⟨{.first, .second}, fun x => by cases x <;> simp⟩

/-- The four attempts are refused, and the call blocks in `push` until it has the mutex. -/
def allRefused : List (Event oneWorker Unit) :=
  [.sched (.ctl (.schedule ())), .sched (.ctl (.fetchPush ())),
   .sched (.ctl (.tryPush () 0 0)),
   .sched (.inner 0 (.refuse (.schedule ()) (.tryPush ()) (.pushed false))),
   .sched (.ctl (.tryPushRet () 0 0 false)),
   .sched (.ctl (.tryPush () 0 1)),
   .sched (.inner 0 (.refuse (.schedule ()) (.tryPush ()) (.pushed false))),
   .sched (.ctl (.tryPushRet () 0 1 false)),
   .sched (.ctl (.tryPush () 0 2)),
   .sched (.inner 0 (.refuse (.schedule ()) (.tryPush ()) (.pushed false))),
   .sched (.ctl (.tryPushRet () 0 2 false)),
   .sched (.ctl (.tryPush () 0 3)),
   .sched (.inner 0 (.refuse (.schedule ()) (.tryPush ()) (.pushed false))),
   .sched (.ctl (.tryPushRet () 0 3 false)),
   .sched (.ctl (.push () 0 4)), .sched (.inner 0 (.lock (.schedule ()) (.push ())))]

/-- The push that follows. -/
def finalPush : List (Event oneWorker Unit) :=
  [.sched (.inner 0 (.body (.schedule ()) (.push ()))),
   .sched (.inner 0 (.notifyOne (.schedule ()) (.push ()) .unit none)),
   .sched (.ctl (.pushRet () 0))]

theorem tasks_conserved_allRefused :
    places ((machine oneWorker Unit).after (State.initial oneWorker Unit) allRefused) () = 0 ∧
    places ((machine oneWorker Unit).after (State.initial oneWorker Unit)
      (allRefused ++ finalPush)) () = 1 := by
  refine ⟨?_, (tasks_conserved (n := oneWorker) (τ := Unit)
    (s := (machine oneWorker Unit).after (State.initial oneWorker Unit) (allRefused ++ finalPush))
    (Machine.Reachable.of_run rfl (by decide)) ()).1 (by decide)⟩
  have hholding : (((machine oneWorker Unit).after (State.initial oneWorker Unit)
      allRefused).sched.obj 0).pc (.schedule ()) = .holding (.push ()) := by decide
  rcases (tasks_conserved (n := oneWorker) (τ := Unit)
      (s := (machine oneWorker Unit).after (State.initial oneWorker Unit) allRefused)
      (Machine.Reachable.of_run rfl (by decide)) ()).2.2.2.1 0 (by decide) with
    ⟨-, hnone⟩ | ⟨⟨r, hafter⟩, -⟩
  · exact hnone
  · rw [show slot oneWorker 0 = 0 from rfl, hholding] at hafter
    rcases hafter with hafter | hafter <;> cases hafter

end ThreadPool

end Jar.Concurrency
