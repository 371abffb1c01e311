/-
# `Jar.Concurrency.Outcome` — a future tells whether its task has run

`Jar.Concurrency.Settlement` says that destroying a pool leaves no future waiting.
Here it is what the owner of a future learns from it.  Leaving aside the futures
that were canceled, a future of a destroyed pool has a value or an exception when
a worker has executed its task to the end, and is broken when nobody has:

    executed    ⟷   value, error         the chain reported to the receiver
    discarded,                           the last receiver went without a report
    left over   ⟷   broken

The one thing that could go wrong is a promise that is broken too early, with a
receiver still to report, or a task that ends without a report.  `Told` rules out
both, as an invariant: a broken promise has no receivers left, and the worker that
runs a task holds one.
-/
import Jar.Concurrency.Settlement
import Jar.Concurrency.StepBounds

namespace Jar.Concurrency

open Jar.Lib

namespace Settlement

open RrScheduler (QueueCount)
open ThreadPool (copied movedIn released)

variable {n : QueueCount} {τ : Type} {V : τ → Type} {E : Type} [DecidableEq τ]
variable {s s' : State n τ V E} {x : τ}

/-- The receiver was told: by the chain, or that nobody is interested any more. -/
def Reported (st : SharedState.State) : Prop := st ≠ .init ∧ st ≠ .broken

/-- The receiver was told by the chain. -/
def ByChain (st : SharedState.State) : Prop := st = .value ∨ st = .error

/-- How a state can go on, apart from a report: it stays, or is canceled, or is broken,
and then `gone` holds. -/
def Evolves (gone : Prop) (st st' : SharedState.State) : Prop :=
  st' = st ∨ st = .init ∧ (st' = .canceled ∨ st' = .broken ∧ gone)

theorem Evolves.reported {gone : Prop} {st st' : SharedState.State} (h : Evolves gone st st')
    (hst : Reported st) : Reported st' := by
  rcases h with rfl | ⟨hinit, -⟩
  · exact hst
  · exact absurd hinit hst.1

theorem Evolves.byChain {gone : Prop} {st st' : SharedState.State} (h : Evolves gone st st')
    (hst : ByChain st') : ByChain st := by
  rcases h with rfl | ⟨-, rfl | ⟨rfl, -⟩⟩
  · exact hst
  · rcases hst with hst | hst <;> cases hst
  · rcases hst with hst | hst <;> cases hst

/-! ## What the shared states tell

The record of what was executed and the state of the promise agree for every call of
`wait`, as long as its receivers are there. -/

/-- A worker that has ended its task has reported, and so has every task that was
executed; only such tasks report; and a broken promise is gone. -/
structure Told (s : State n τ V E) : Prop where
  joined : s.alive = false → s.pool.join = .joined
  starting : ∀ w, (∀ x, s.pool.run w ≠ .running x) → s.task w = .starting
  ended : ∀ w x, s.pool.run w = .running x → s.task w = .ended → Reported (s.shared x).state
  executed : ∀ x ∈ s.pool.executed, Reported (s.shared x).state
  byChain : ∀ x, ByChain (s.shared x).state → x ∈ s.pool.executed ∨
    ∃ w, s.pool.run w = .running x ∧ s.task w = .ended
  broken : ∀ x, (s.shared x).state = .broken → s.useCount x = 0

omit [DecidableEq τ] in
theorem Told.initial : Told (State.initial : State n τ V E) where
  joined h := by cases h
  starting _ _ := rfl
  ended _ _ h := by cases h
  executed _ h := by cases h
  byChain _ h := by rcases h with h | h <;> cases h
  broken _ _ := rfl

omit [DecidableEq τ] in
theorem Told.evolve (h : Told s) (hpool : s'.pool = s.pool) (htask : s'.task = s.task)
    (halive : s'.alive = false → s.pool.join = .joined)
    (hshared : ∀ x, Evolves (s'.useCount x = 0) (s.shared x).state (s'.shared x).state)
    (hcount : ∀ x, (s.shared x).state = .broken → s'.useCount x = 0) : Told s' where
  joined hdead := by rw [hpool]; exact halive hdead
  starting w hw := by
    rw [htask]
    exact h.starting w (hpool ▸ hw)
  ended w x hw hend := by
    rw [hpool] at hw
    rw [htask] at hend
    exact (hshared x).reported (h.ended w x hw hend)
  executed x hx := by
    rw [hpool] at hx
    exact (hshared x).reported (h.executed x hx)
  byChain x hx := by
    rw [hpool, htask]
    exact h.byChain x ((hshared x).byChain hx)
  broken x hx := by
    rcases hshared x with hsame | ⟨-, hcanceled | ⟨-, hgone⟩⟩
    · exact hcount x (hsame ▸ hx)
    · rw [hcanceled] at hx
      cases hx
    · exact hgone

omit [DecidableEq τ] in
theorem Told.release (h : Told s) (m : τ → ℕ) : Told (s.release m) := by
  refine h.evolve rfl rfl h.joined (fun x => ?_) fun x hx => ?_
  · show Evolves (s.useCount x - m x = 0) (s.shared x).state
      (if 0 < m x ∧ s.useCount x ≤ m x then SharedState.broken (s.shared x)
        else s.shared x).state
    split
    · next hlast =>
        by_cases hinit : (s.shared x).state = .init
        · refine Or.inr ⟨hinit, Or.inr ⟨?_, Nat.sub_eq_zero_of_le hlast.2⟩⟩
          rw [SharedState.broken, SharedState.resolve, if_pos hinit]
          rfl
        · exact Or.inl (by rw [SharedState.broken, SharedState.resolve_of_ready hinit])
    · exact Or.inl rfl
  · show s.useCount x - m x = 0
    rw [h.broken x hx, Nat.zero_sub]

/-! ## Receivers that are still there

The worker that runs a task holds a receiver of it, and so does a call of `wait` that
is active.  So the promise of a task that is still to report is not broken. -/

/-- The worker that runs a task holds a receiver of it. -/
theorem useCount_running (h : Ledger s) (ht : Told s) {w : Fin n.size}
    (hw : s.pool.run w = .running x) : 0 < s.useCount x := by
  have halive : s.alive = true := by
    refine Bool.eq_true_of_not_eq_false fun hdead => ?_
    have hexited := ThreadPool.joined_exited h.pool
    unfold ThreadPool.Joined at hexited
    rw [ht.joined hdead] at hexited
    have hout : s.pool.run w = .exited := hexited w
    rw [hw] at hout
    cases hout
  have hholder := ThreadPool.holders_running hw
  have hcount := (h.account x).count
  rw [State.copies, if_pos halive, ThreadPool.inPool] at hcount
  omega

theorem useCount_active (h : Ledger s) (hx : s.wait x = .active) : 0 < s.useCount x := by
  have haccount := h.account_of hx
  have hcount := haccount.count
  have hactive := haccount.active rfl
  omega

omit [DecidableEq τ] in
theorem Told.not_broken (h : Told s) (hx : 0 < s.useCount x) : (s.shared x).state ≠ .broken := by
  intro hbroken
  rw [h.broken x hbroken] at hx
  exact absurd hx (lt_irrefl 0)

theorem useCount_copied (h : Ledger s) {e : ThreadPool.Event n τ} (he : enabled s (.pool e))
    (hx : 0 < copied x e) : 0 < s.useCount x := by
  cases e with
  | sched b =>
      cases b with
      | inner => cases hx
      | ctl b =>
          cases b with
          | tryPush y index k =>
              have hcaller : y = x := by
                by_contra hne
                simp [copied, hne] at hx
              subst hcaller
              have hunder : s.pool.sched.ctl.schedule y = .looping index k := he.2.1.2.1.1
              cases hwait : s.wait y with
              | uncalled =>
                  have hcall := ((h.account y).uncalled hwait).2
                  rw [hunder] at hcall
                  cases hcall
              | active => exact useCount_active h hwait
              | returned =>
                  have hcall := ((h.account y).returned hwait).2
                  rw [hunder] at hcall
                  cases hcall
          | _ => cases hx
  | _ => cases hx

/-! ## Every step keeps it so

A promise is made, a task asks whether it is canceled, its chain reports, receivers
are destroyed; the other steps of the pool leave the shared states alone. -/

theorem Told.create (h : Told s) (hl : Ledger s) (he : enabled s (.create x)) :
    Told (next s (.create x)) := by
  have hcall : s.pool.sched.ctl.schedule x = .uncalled := ((hl.account x).uncalled he).2
  have hplaces := ThreadPool.places_eq_entered hl.pool x
  rw [ThreadPool.entered_uncalled hcall, ThreadPool.places] at hplaces
  have hexecuted : x ∉ s.pool.executed := List.count_eq_zero.mp (by omega)
  have hrunning : ∀ w, s.pool.run w ≠ .running x := by
    intro w hw
    have hholder := ThreadPool.holders_running hw
    omega
  have hshared : ∀ y, y ≠ x → (next s (.create x)).shared y = s.shared y :=
    fun y hy => Function.update_of_ne hy _ _
  have hfresh : (next s (.create x)).shared x = .fresh := Function.update_self ..
  refine ⟨h.joined, h.starting, fun w y hw hend => ?_, fun y hy => ?_, fun y hy => ?_,
    fun y hy => ?_⟩
  · rw [hshared y (by rintro rfl; exact hrunning w hw)]
    exact h.ended w y hw hend
  · rw [hshared y (by rintro rfl; exact hexecuted hy)]
    exact h.executed y hy
  · rcases eq_or_ne y x with rfl | hne
    · rw [hfresh] at hy
      rcases hy with hy | hy <;> cases hy
    · rw [hshared y hne] at hy
      exact h.byChain y hy
  · rcases eq_or_ne y x with rfl | hne
    · rw [hfresh] at hy
      cases hy
    · rw [hshared y hne] at hy
      show Function.update s.useCount x 1 y = 0
      rw [Function.update_of_ne hne]
      exact h.broken y hy

omit [DecidableEq τ] in
theorem Told.move (h : Told s) {w : Fin n.size} {p : TaskPc} (hw : s.pool.run w = .running x)
    (hstarted : s.task w ≠ .ended)
    (hpool : s'.pool = s.pool) (htask : s'.task = Function.update s.task w p)
    (halive : s'.alive = s.alive) (hcount : s'.useCount = s.useCount)
    (hother : ∀ y, y ≠ x → s'.shared y = s.shared y)
    (hkeep : Reported (s.shared x).state → Reported (s'.shared x).state)
    (hended : p = .ended → Reported (s'.shared x).state)
    (hchain : ByChain (s'.shared x).state → ByChain (s.shared x).state ∨ p = .ended)
    (hbroken : (s'.shared x).state = .broken → (s.shared x).state = .broken) : Told s' := by
  have hkeep' : ∀ y, Reported (s.shared y).state → Reported (s'.shared y).state := by
    intro y hy
    rcases eq_or_ne y x with rfl | hne
    · exact hkeep hy
    · rw [hother y hne]
      exact hy
  refine ⟨?_, fun v hv => ?_, fun v y hv hend => ?_, fun y hy => ?_, fun y hy => ?_,
    fun y hy => ?_⟩
  · rw [halive, hpool]
    exact h.joined
  · rw [hpool] at hv
    have hne : v ≠ w := by rintro rfl; exact hv x hw
    rw [htask, Function.update_of_ne hne]
    exact h.starting v hv
  · rw [hpool] at hv
    rcases eq_or_ne v w with rfl | hne
    · rw [hv] at hw
      cases hw
      rw [htask, Function.update_self] at hend
      exact hended hend
    · rw [htask, Function.update_of_ne hne] at hend
      exact hkeep' y (h.ended v y hv hend)
  · rw [hpool] at hy
    exact hkeep' y (h.executed y hy)
  · rw [hpool, htask]
    have hold : ByChain (s.shared y).state → y ∈ s.pool.executed ∨
        ∃ v, s.pool.run v = .running y ∧ Function.update s.task w p v = .ended := by
      intro hy
      refine (h.byChain y hy).imp_right ?_
      rintro ⟨v, hv, hend⟩
      have hne : v ≠ w := by rintro rfl; exact hstarted hend
      exact ⟨v, hv, by rw [Function.update_of_ne hne]; exact hend⟩
    rcases eq_or_ne y x with rfl | hne
    · rcases hchain hy with hy | hp
      · exact hold hy
      · exact Or.inr ⟨w, hw, by rw [Function.update_self]; exact hp⟩
    · rw [hother y hne] at hy
      exact hold hy
  · rw [hcount]
    rcases eq_or_ne y x with rfl | hne
    · exact h.broken y (hbroken hy)
    · rw [hother y hne] at hy
      exact h.broken y hy

theorem report_state {W F : Type} (outcome : Except F W) {shared : SharedState W F}
    (hnot : shared.state ≠ .broken) : Reported (report outcome shared).state := by
  by_cases hinit : shared.state = .init
  · cases outcome <;>
      simp [report, SharedState.setValue, SharedState.setException, SharedState.resolve, hinit,
        Reported, SharedState.Resolution.announces]
  · cases outcome <;>
      simp [report, SharedState.setValue, SharedState.setException,
        SharedState.resolve_of_ready hinit, Reported, hinit, hnot]

theorem Told.settle (h : Told s) (hl : Ledger s) {w : Fin n.size} {outcome : Except E (V x)}
    (he : enabled s (.settle w x outcome)) : Told (next s (.settle w x outcome)) := by
  obtain ⟨hw, htask⟩ := he
  have hreported := report_state outcome (h.not_broken (useCount_running hl h hw))
  have hself : (next s (.settle w x outcome)).shared x = report outcome (s.shared x) :=
    Function.update_self ..
  rw [← hself] at hreported
  refine h.move hw (by rw [htask]; exact nofun) rfl rfl rfl rfl
    (fun y hy => Function.update_of_ne hy _ _) (fun _ => hreported) (fun _ => hreported)
    (fun _ => Or.inr rfl) fun hbroken => absurd hbroken hreported.2

theorem Told.check (h : Told s) {w : Fin n.size} (he : enabled s (.check w x)) :
    Told (next s (.check w x)) := by
  obtain ⟨hw, htask⟩ := he
  refine h.move hw (by rw [htask]; exact nofun) rfl rfl rfl rfl (fun _ _ => rfl) id ?_
    Or.inl id
  intro hended
  split at hended
  · next hcanceled =>
      have hstate : (s.shared x).state = .canceled := of_decide_eq_true hcanceled
      show Reported (s.shared x).state
      rw [hstate]
      exact ⟨nofun, nofun⟩
  · cases hended

/-- A step of the pool, as far as the tasks under execution are concerned: a worker
keeps its task, or has a new one that is about to start, or has ended it. -/
structure Runs (s : State n τ V E) (p : ThreadPool.State n τ) (task : Fin n.size → TaskPc) :
    Prop where
  starting : ∀ w, (∀ x, p.run w ≠ .running x) → task w = .starting
  running : ∀ w x, p.run w = .running x →
    s.pool.run w = .running x ∧ task w = s.task w ∨ task w = .starting
  executed : ∀ x ∈ p.executed, x ∈ s.pool.executed ∨ Reported (s.shared x).state
  stays : ∀ x ∈ s.pool.executed, x ∈ p.executed
  ends : ∀ w x, s.pool.run w = .running x → s.task w = .ended →
    x ∈ p.executed ∨ p.run w = .running x ∧ task w = .ended

omit [DecidableEq τ] in
theorem Told.runs_update (h : Told s) {w : Fin n.size} {r : ThreadPool.RunPc τ}
    (hw : ∀ x, s.pool.run w ≠ .running x) {p : ThreadPool.State n τ}
    (hrun : p.run = Function.update s.pool.run w r) (hexecuted : p.executed = s.pool.executed) :
    Runs s p s.task where
  starting v hv := by
    rcases eq_or_ne v w with rfl | hne
    · exact h.starting v hw
    · rw [hrun, Function.update_of_ne hne] at hv
      exact h.starting v hv
  running v x hv := by
    rcases eq_or_ne v w with rfl | hne
    · exact Or.inr (h.starting v hw)
    · rw [hrun, Function.update_of_ne hne] at hv
      exact Or.inl ⟨hv, rfl⟩
  executed x hx := Or.inl (hexecuted ▸ hx)
  stays x hx := by rw [hexecuted]; exact hx
  ends v x hv hend := by
    have hne : v ≠ w := by rintro rfl; exact hw x hv
    exact Or.inr ⟨by rw [hrun, Function.update_of_ne hne]; exact hv, hend⟩

theorem Told.runs (h : Told s) {e : ThreadPool.Event n τ} (he : enabled s (.pool e)) :
    Runs s ((ThreadPool.machine n τ).next s.pool e) (next s (.pool e)).task := by
  have hsame : ∀ {p : ThreadPool.State n τ}, p.run = s.pool.run →
      p.executed = s.pool.executed → Runs s p s.task := by
    intro p hrun hexecuted
    refine ⟨fun w hw => h.starting w (hrun ▸ hw), fun w x hw => Or.inl ⟨hrun ▸ hw, rfl⟩,
      fun x hx => Or.inl (hexecuted ▸ hx), fun x hx => by rw [hexecuted]; exact hx,
      fun w x hw hend => Or.inr ⟨by rw [hrun]; exact hw, hend⟩⟩
  obtain ⟨-, hen, hready⟩ := he
  cases e with
  | ask w old =>
      have hw : s.pool.run w = .loop old := hen.1
      exact h.runs_update (fun x hx => by rw [hw] at hx; cases hx) rfl rfl
  | got w old task =>
      have hw : s.pool.run w = .asking old := hen.1
      exact h.runs_update (fun x hx => by rw [hw] at hx; cases hx) rfl rfl
  | finish w x =>
      have hw : s.pool.run w = .running x := hen
      have hended : s.task w = .ended := of_decide_eq_true hready
      refine ⟨fun v hv => ?_, fun v y hv => ?_, fun y hy => ?_, fun y hy => ?_,
        fun v y hv hend => ?_⟩
      · show Function.update s.task w .starting v = .starting
        rcases eq_or_ne v w with rfl | hne
        · rw [Function.update_self]
        · rw [Function.update_of_ne hne]
          change ∀ y, Function.update s.pool.run w _ v ≠ _ at hv
          rw [Function.update_of_ne hne] at hv
          exact h.starting v hv
      · change Function.update s.pool.run w (.loop (some x)) v = .running y at hv
        have hne : v ≠ w := by
          rintro rfl
          rw [Function.update_self] at hv
          cases hv
        rw [Function.update_of_ne hne] at hv
        exact Or.inl ⟨hv, Function.update_of_ne hne _ _⟩
      · rcases List.mem_append.mp hy with hy | hy
        · exact Or.inl hy
        · rw [List.mem_singleton.mp hy]
          exact Or.inr (h.ended w x hw hended)
      · exact List.mem_append_left _ hy
      · rcases eq_or_ne v w with rfl | hne
        · rw [hw] at hv
          cases hv
          exact Or.inl (List.mem_append_right _ (List.mem_singleton_self _))
        · refine Or.inr ⟨?_, ?_⟩
          · show Function.update s.pool.run w _ v = _
            rw [Function.update_of_ne hne]
            exact hv
          · show Function.update s.task w _ v = _
            rw [Function.update_of_ne hne]
            exact hend
  | _ => exact hsame rfl rfl

omit [DecidableEq τ] in
theorem Told.of_runs (h : Told s) (hruns : Runs s s'.pool s'.task) (halive : s'.alive = true)
    (hshared : s'.shared = s.shared)
    (hcount : ∀ x, (s.shared x).state = .broken → s'.useCount x = 0) : Told s' where
  joined hdead := by rw [halive] at hdead; cases hdead
  starting := hruns.starting
  ended w x hw hend := by
    rw [hshared]
    rcases hruns.running w x hw with ⟨hold, htask⟩ | hstarting
    · exact h.ended w x hold (htask ▸ hend)
    · rw [hstarting] at hend
      cases hend
  executed x hx := by
    rw [hshared]
    exact (hruns.executed x hx).elim (h.executed x) id
  byChain x hx := by
    rw [hshared] at hx
    rcases h.byChain x hx with hdone | ⟨w, hw, hend⟩
    · exact Or.inl (hruns.stays x hdone)
    · exact (hruns.ends w x hw hend).imp_right fun hstill => ⟨w, hstill⟩
  broken x hx := hcount x (hshared ▸ hx)

theorem Told.pool (h : Told s) (hl : Ledger s) {e : ThreadPool.Event n τ}
    (he : enabled s (.pool e)) : Told (next s (.pool e)) := by
  have hstep : Told ({ s with pool := (ThreadPool.machine n τ).next s.pool e
                              frame := fun x => s.frame x - movedIn x e
                              useCount := fun x => s.useCount x + copied x e
                              task := (next s (.pool e)).task } : State n τ V E) := by
    refine h.of_runs (h.runs he) he.1 rfl fun x hx => ?_
    show s.useCount x + copied x e = 0
    have hzero := h.broken x hx
    by_contra hpos
    have hcopied : 0 < copied x e := by omega
    have huse := useCount_copied hl he hcopied
    omega
  exact hstep.release _

theorem Told.next (h : Told s) (hl : Ledger s) {e : Event n τ V E} (he : enabled s e) :
    Told (next s e) := by
  cases e with
  | create x => exact h.create hl he
  | copy x =>
      refine h.evolve rfl rfl h.joined (fun _ => Or.inl rfl) fun y hy => ?_
      have hne : y ≠ x := by
        rintro rfl
        exact h.not_broken (useCount_active hl he) hy
      show Function.update s.useCount x _ y = 0
      rw [Function.update_of_ne hne]
      exact h.broken y hy
  | drop x =>
      exact Told.release (s := { s with frame := Function.update s.frame x (s.frame x - 1) })
        (h.evolve rfl rfl h.joined (fun _ => Or.inl rfl) h.broken) _
  | ret x =>
      exact Told.release
        (s := { s with
          wait := Function.update s.wait x .returned
          frame := Function.update s.frame x 0 })
        (h.evolve rfl rfl h.joined (fun _ => Or.inl rfl) h.broken) _
  | pool e => exact h.pool hl he
  | check w x => exact h.check he
  | settle w x outcome => exact h.settle hl he
  | cancel x =>
      refine h.evolve rfl rfl h.joined (fun y => ?_) h.broken
      show Evolves _ _ (Function.update s.shared x (SharedState.cancel (s.shared x)) y).state
      rcases eq_or_ne y x with rfl | hne
      · rw [Function.update_self, SharedState.cancel]
        by_cases hinit : (s.shared y).state = .init
        · refine Or.inr ⟨hinit, Or.inl ?_⟩
          rw [SharedState.resolve, if_pos hinit]
          rfl
        · exact Or.inl (by rw [SharedState.resolve_of_ready hinit])
      · rw [Function.update_of_ne hne]
        exact Or.inl rfl
  | destroyQueues =>
      exact Told.release (s := { s with alive := false })
        (h.evolve rfl rfl (fun _ => he.2.1) (fun _ => Or.inl rfl) h.broken) _

theorem told (h : (machine n τ V E).Reachable s) : Told s := by
  have hboth : Ledger s ∧ Told s := by
    refine h.invariant (I := fun s => Ledger s ∧ Told s) ?_ ?_
    · intro s hs
      rw [show s = State.initial from hs]
      exact ⟨Ledger.initial, Told.initial⟩
    · intro s e _ he ih
      exact ⟨ih.1.next he, ih.2.next ih.1 he⟩
  exact hboth.2

theorem Ledger.receivers_gone (h : Ledger s) (hdead : s.alive = false) {x : τ}
    (hx : s.wait x = .returned) : s.useCount x = 0 := by
  have hcount := (h.account x).count
  rw [((h.account x).returned hx).1, State.copies, hdead] at hcount
  exact hcount

/-- **A future tells whether its task has run.**  When the destructor of the pool has
finished and `wait` has returned, a future that was not canceled holds what its chain
reported if its task was executed, and is broken if it was not. -/
theorem future_tells (h : (machine n τ V E).Reachable s) (hdead : s.alive = false) (x : τ)
    (hx : s.wait x = .returned) (hcanceled : (s.shared x).state ≠ .canceled) :
    (ByChain (s.shared x).state ↔ x ∈ s.pool.executed) ∧
      ((s.shared x).state = .broken ↔ x ∉ s.pool.executed) := by
  have htold := told h
  have hledger := ledger h
  have hsettled : (s.shared x).state ≠ .init :=
    hledger.settled x (by rw [hx]; exact nofun) (hledger.receivers_gone hdead hx)
  -- the workers are gone, so what was reported was reported by a task that has ended
  have hexecuted : ByChain (s.shared x).state → x ∈ s.pool.executed := by
    intro hchain
    refine (htold.byChain x hchain).resolve_right ?_
    rintro ⟨w, hw, -⟩
    have hexited := ThreadPool.joined_exited (ledger h).pool
    unfold ThreadPool.Joined at hexited
    rw [htold.joined hdead] at hexited
    have hout : s.pool.run w = .exited := hexited w
    rw [hw] at hout
    cases hout
  have hcases : ByChain (s.shared x).state ∨ (s.shared x).state = .broken := by
    cases hstate : (s.shared x).state with
    | init => exact absurd hstate hsettled
    | value => exact Or.inl (Or.inl rfl)
    | error => exact Or.inl (Or.inr rfl)
    | canceled => exact absurd hstate hcanceled
    | broken => exact Or.inr rfl
  refine ⟨⟨hexecuted, fun hdone => ?_⟩, fun hbroken hdone => ?_, fun hnot => ?_⟩
  · exact hcases.resolve_right (htold.executed x hdone).2
  · exact (htold.executed x hdone).2 hbroken
  · exact hcases.resolve_left fun hchain => hnot (hexecuted hchain)

/-! ## A pool that is left alone -/

/-- The steps of the pool and of the tasks it executes. -/
def Proceeds : Event n τ V E → Prop
  | .pool e => ThreadPool.Proceeds e
  | .check _ _ | .settle _ _ _ => True
  | _ => False

omit [DecidableEq τ] in
/-- Only the call of `schedule` and the end of a task are not up to the pool. -/
theorem ready_own {e : ThreadPool.Event n τ} (h : ThreadPool.own e = true) : ready s e = true := by
  cases e with
  | sched b =>
      cases b with
      | inner => rfl
      | ctl b =>
          cases b with
          | schedule => cases h
          | _ => rfl
  | finish => cases h
  | _ => rfl

/-- A pool that is not being destroyed and has come to rest has executed the task of every
call of `wait` that has returned, and it was told. -/
theorem executed_and_told (h : (machine n τ V E).Reachable s) (hjoin : s.pool.join = .alive)
    (hrest : ThreadPool.AtRest s.pool) (hidle : ∀ w x, s.pool.run w ≠ .running x) (x : τ)
    (hx : s.wait x = .returned) :
    s.pool.executed.count x = 1 ∧
      (ByChain (s.shared x).state ∨ (s.shared x).state = .canceled) := by
  have hledger := ledger h
  have hcall := ((hledger.account x).returned hx).2
  have hcount := hrest.executed hledger.pool hidle hjoin x (by rw [hcall]; exact nofun)
  have hmem : x ∈ s.pool.executed := List.count_pos_iff.mp (by omega)
  obtain ⟨hinit, hbroken⟩ := (told h).executed x hmem
  refine ⟨hcount, ?_⟩
  cases hstate : (s.shared x).state with
  | init => exact absurd hstate hinit
  | broken => exact absurd hstate hbroken
  | value => exact Or.inl (Or.inl rfl)
  | error => exact Or.inl (Or.inr rfl)
  | canceled => exact Or.inr rfl

end Settlement

end Jar.Concurrency
