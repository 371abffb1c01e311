/-
# `Jar.Concurrency.Cancellation` — what `clear()` has cancelled so far

`clear()` goes through the queues in order and cancels one after the other; a
queue that is cancelled stays so, and nothing but `clear()` cancels one.  Hence
a cancelled queue tells that `clear()` was called (`clear_called`), and once
some call of `clear()` has returned every queue is cancelled (`all_cancelled`)
and nobody sleeps on any of them (`all_closed`).
-/
import Jar.Concurrency.Transfer

namespace Jar.Concurrency

open Jar.Lib

/-! ## One queue

A cancelled queue on which nobody sleeps stays so: `pop` does not wait there.  It is
closed as soon as a `clear` is back from its notification, which wakes whoever was
asleep. -/

namespace Queue

variable {ι T : Type*} [DecidableEq ι] {s : State ι T} {e : Event ι T}

/-- The queue is cancelled, and nobody sleeps on it. -/
def Closed (s : State ι T) : Prop := s.core.isCancelled = true ∧ ∀ t op, s.pc t ≠ .asleep op

theorem Effect.stays_awake {c : Core T} {op : Op T} {o : Monitor.Outcome (Core T) (Ret T)}
    (h : Effect c op o) (hc : c.isCancelled = true) (op' : Op T) : o.pc op ≠ .asleep op' := by
  cases h with
  | sleep hopen =>
      rw [hc] at hopen
      cases hopen
  | _ => exact nofun

theorem Closed.next (h : Closed s) (he : s.enabled (object T) e) :
    Closed (s.next (object T) e) := by
  refine ⟨next_isCancelled he h.1, fun t op ht => ?_⟩
  by_cases hte : t = e.thread
  · subst hte
    rw [Monitor.next_pc_self] at ht
    cases e with
    | body t op' => exact (body_effect op' s.core).stays_awake h.1 op ht
    | again t op' => exact (again_effect op' s.core).stays_awake h.1 op ht
    | _ => cases ht
  · rcases Monitor.next_pc_of_ne he hte with hsame | ⟨op', -, hwoken⟩
    · exact h.2 t op (hsame ▸ ht)
    · rw [hwoken] at ht
      cases ht

theorem Effect.announces {c : Core T} {op : Op T} {o : Monitor.Outcome (Core T) (Ret T)}
    (h : Effect c op o) (r : Ret T) : o.pc op ≠ .returned .clear r := by
  cases h <;> exact nofun

theorem closed_of_cleared (h : (machine ι T).Reachable s) {t : ι} {r : Ret T}
    (ht : s.pc t = .returned .clear r) : Closed s := by
  refine h.invariant (I := fun s => ∀ t r, s.pc t = .returned .clear r → Closed s) ?_ ?_ t r ht
  · rintro s rfl t r ht
    cases ht
  · intro s e hr he ih t r ht
    by_cases hte : t = e.thread
    case neg =>
      rcases Monitor.next_pc_of_ne he hte with hsame | ⟨op, -, hwoken⟩
      · exact (ih t r (hsame ▸ ht)).next he
      · rw [show ((machine ι T).next s e).pc t = .woken op from hwoken] at ht
        cases ht
    subst hte
    rw [show ((machine ι T).next s e).pc e.thread = _ from Monitor.next_pc_self _ s e] at ht
    have hsound := Monitor.pc_sound hr e.thread
    rw [Monitor.enabled_source he] at hsound
    cases e with
    | body t op => exact absurd ht ((body_effect op s.core).announces r)
    | again t op => exact absurd ht ((again_effect op s.core).announces r)
    | refuse t op r' =>
        cases ht
        cases he.2
    | notifyOne t op r' u =>
        cases ht
        obtain ⟨x, ⟨hx, -⟩ | ⟨hx, -⟩⟩ := emits_one hsound <;> cases hx
    | notifyAll t op r' =>
        cases ht
        have hcancelled : s.core.isCancelled = true := clearsCancel hr t r (Or.inl he)
        refine ⟨hcancelled, fun u op hu => ?_⟩
        change Function.update ((Monitor.sleepers _ _).wakeAll s.pc) t _ u = _ at hu
        rcases eq_or_ne u t with rfl | hne
        · rw [Function.update_self] at hu
          cases hu
        · rw [Function.update_of_ne hne] at hu
          have hawake : (Monitor.sleepers (Op T) (Ret T)).asleep
              ((Monitor.sleepers (Op T) (Ret T)).wakeAll s.pc u) = false :=
            CondVar.wakeAll_awake s.pc u
          rw [hu] at hawake
          cases hawake
    | _ => cases ht

end Queue

/-! ## The scheduler -/

namespace RrScheduler

variable {n : QueueCount} {ι τ κ : Type} [DecidableEq ι] [DecidableEq τ] [DecidableEq κ]
variable {s : State n ι τ κ} {e : Event n ι τ κ}

theorem cancelled_next (he : (machine n ι τ κ).Enabled s e) {q : Fin n.size}
    (hq : cancelled s q = true) : cancelled ((machine n ι τ κ).next s e) q = true := by
  rcases Client.next_core (P := client n ι τ κ) (M := Queue.object τ) s e q with
    hcore | ⟨m, rfl, hobj⟩
  · rw [← hq]
    exact congrArg Queue.Core.isCancelled hcore
  · unfold cancelled
    rw [show ((machine n ι τ κ).next s (.inner q m)).obj q = _ from hobj]
    exact Queue.next_isCancelled he.2 hq

/-- A queue that a step cancels is cancelled by a thread in `clear()`. -/
theorem newly_cancelled (hs : Agree s) (he : (machine n ι τ κ).Enabled s e) {q : Fin n.size}
    (hq : cancelled ((machine n ι τ κ).next s e) q = true) :
    cancelled s q = true ∨ ∃ k, s.ctl.clear k = .clearing q := by
  rcases Client.next_core (P := client n ι τ κ) (M := Queue.object τ) s e q with
    hcore | ⟨m, rfl, hobj⟩
  · refine Or.inl ?_
    rw [← hq]
    exact (congrArg Queue.Core.isCancelled hcore).symm
  · unfold cancelled at hq
    rw [show ((machine n ι τ κ).next s (.inner q m)).obj q = _ from hobj] at hq
    rcases Queue.cancelled_by he.2 hq with hold | hop
    · exact Or.inl hold
    · have hinside := hs.inside rfl hop
      generalize m.thread = t at hinside
      cases hinside with
      | clear hk => exact Or.inr ⟨_, hk⟩

/-! ## The loop of `clear()`

What holds of a queue when a `clear` returns from it, and goes on holding, holds of
every queue that the loop has passed; at its end these are all the queues. -/

theorem step_clear_of_ne (c : Control ι τ κ) (e : Step n ι τ κ) {k : κ}
    (h : e.caller ≠ .clear k) : (step c e).clear k = c.clear k := by
  cases e with
  | clear l | clearQueue l _ | clearQueueRet l _ | clearRet l =>
      have hk : k ≠ l := by rintro rfl; exact h rfl
      simp [step, Control.setClear, hk]
  | _ => rfl

theorem step_called {c : Control ι τ κ} (e : Step n ι τ κ) {k : κ} (h : c.clear k ≠ .uncalled) :
    (step c e).clear k ≠ .uncalled := by
  by_cases hk : e.caller = .clear k
  · cases e with
    | clear l | clearQueue l _ | clearQueueRet l _ | clearRet l =>
        cases hk
        simp [step, Control.setClear]
    | _ => cases hk
  · rw [step_clear_of_ne c e hk]
    exact h

/-- Only `clear()` cancels: a cancelled queue tells that it was called. -/
theorem clear_called (h : (machine n ι τ κ).Reachable s) {q : Fin n.size}
    (hq : cancelled s q = true) : ∃ k, s.ctl.clear k ≠ .uncalled := by
  refine h.invariant (I := fun s => cancelled s q = true → ∃ k, s.ctl.clear k ≠ .uncalled)
    ?_ ?_ hq
  · rintro s ⟨-, hobj⟩ hq
    rw [cancelled, hobj] at hq
    cases hq
  · intro s e hr he ih hq
    have hstill : ∀ k, s.ctl.clear k ≠ .uncalled →
        ((machine n ι τ κ).next s e).ctl.clear k ≠ .uncalled := by
      intro k hk
      cases e with
      | ctl e => exact step_called e hk
      | inner q m => exact hk
    rcases newly_cancelled (agree hr) he hq with hold | ⟨k, hk⟩
    · obtain ⟨k, hk⟩ := ih hold
      exact ⟨k, hstill k hk⟩
    · exact ⟨k, hstill k (by rw [hk]; exact nofun)⟩

/-- The queues a call of `clear()` has behind it. -/
def ClearPc.passed (n : QueueCount) : ClearPc → ℕ
  | .uncalled => 0
  | .looping j | .clearing j => j
  | .returned => n.size

theorem passed_invariant {C : Queue.State (Caller ι τ κ) τ → Prop}
    (hkeep : ∀ m e, m.enabled (Queue.object τ) e → C m → C (m.next (Queue.object τ) e))
    (hcleared : ∀ m t r, (Queue.machine (Caller ι τ κ) τ).Reachable m →
      m.pc t = .returned .clear r → C m)
    (h : (machine n ι τ κ).Reachable s) (k : κ) {q : Fin n.size}
    (hq : q.val < (s.ctl.clear k).passed n) : C (s.obj q) := by
  refine h.invariant
    (I := fun s => ∀ k q, q.val < (s.ctl.clear k).passed n → C (s.obj q)) ?_ ?_ k q hq
  · rintro s ⟨⟨threadIndex, hctl⟩, -⟩ k q hq
    rw [hctl] at hq
    exact absurd hq (Nat.not_lt_zero _)
  · intro s e hr he ih k q hq
    have hstep : C (s.obj q) → C (((machine n ι τ κ).next s e).obj q) := by
      intro hC
      cases hseen : (client n ι τ κ).seen q s e with
      | none =>
          rw [show ((machine n ι τ κ).next s e).obj q = s.obj q from
            Client.next_obj_of_seen_none hseen]
          exact hC
      | some b =>
          obtain ⟨hb, hnext⟩ := Client.next_obj_of_seen_some he hseen
          rw [show ((machine n ι τ κ).next s e).obj q = _ from hnext]
          exact hkeep _ b hb hC
    by_cases hold : q.val < (s.ctl.clear k).passed n
    · exact hstep (ih k q hold)
    refine hstep ?_
    cases e with
    | inner q' m => exact absurd hq hold
    | ctl e =>
        change q.val < ((step s.ctl e).clear k).passed n at hq
        by_cases hk : e.caller = .clear k
        case neg =>
          rw [step_clear_of_ne s.ctl e hk] at hq
          exact absurd hq hold
        obtain ⟨hg, hact⟩ := he
        cases e with
        | clear l =>
            cases hk
            simp [step, Control.setClear, ClearPc.passed] at hq
        | clearQueue l j =>
            have hl : s.ctl.clear l = .looping j := hg
            cases hk
            rw [hl] at hold
            simp only [step, Control.setClear, Function.update_self] at hq
            exact absurd hq hold
        | clearQueueRet l j =>
            -- the section of this `clear` is behind it
            have hl : s.ctl.clear l = .clearing j := hg
            cases hk
            rw [hl] at hold
            simp only [step, Control.setClear, Function.update_self, ClearPc.passed] at hq hold
            obtain rfl : q = j := Fin.ext (by omega)
            exact hcleared _ _ _ (Client.obj_reachable hr q) hact
        | clearRet l =>
            have hl : s.ctl.clear l = .looping n.size := hg
            cases hk
            rw [hl] at hold
            exact absurd q.isLt hold
        | _ => cases hk

/-- Once a call of `clear()` has returned, every queue is cancelled. -/
theorem all_cancelled (h : (machine n ι τ κ).Reachable s) {k : κ}
    (hk : s.ctl.clear k = .returned) (q : Fin n.size) : cancelled s q = true :=
  passed_invariant (C := fun m => m.core.isCancelled = true)
    (fun _ _ he hm => Queue.next_isCancelled he hm)
    (fun _ t r hr ht => Queue.clearsCancel hr t r (Or.inr ht)) h k
    (by rw [hk]; exact q.isLt)

/-- Once a call of `clear()` has returned, nobody sleeps on a queue. -/
theorem all_closed (h : (machine n ι τ κ).Reachable s) {k : κ}
    (hk : s.ctl.clear k = .returned) (q : Fin n.size) : Queue.Closed (s.obj q) :=
  passed_invariant (fun _ _ he hm => hm.next he) (fun _ _ _ hr ht => Queue.closed_of_cleared hr ht)
    h k (by rw [hk]; exact q.isLt)

end RrScheduler

end Jar.Concurrency
