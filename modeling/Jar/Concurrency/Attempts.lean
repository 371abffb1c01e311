/-
# `Jar.Concurrency.Attempts` — how often one call of `schedule` tries

The loop of `schedule` offers the task to the queues with `try_push`, up to four
times the number of queues, and counts its rounds in an `unsigned`; the bound it
compares with is a `std::size_t`.  A `try_push` is refused whenever another thread
has the mutex, so nothing but the bound ends the loop.

With fewer than `2^30` queues the bound is one of the numbers the counter takes.
A call then makes at most that many attempts, and falls back on `push`, which
waits for the mutex.  With `2^30` queues or more the counter wraps below the
bound: the call never gets to `push`, and can be refused any number of times.
-/
import Jar.Concurrency.Placement
import Jar.Concurrency.StepBounds

namespace Jar.Concurrency

open Jar.Lib

namespace RrScheduler

variable {n : QueueCount} {ι τ κ : Type} [DecidableEq ι] [DecidableEq τ] [DecidableEq κ]
variable {s : State n ι τ κ} {x : τ}

/-- The step with which the call `schedule(x)` makes an attempt. -/
def attempt (x : τ) : Event n ι τ κ → Bool
  | .ctl (.tryPush y _ _) => y = x
  | _ => false

/-- The attempts a call has made, as its control tells. -/
def SchedulePc.Made (n : QueueCount) (p : SchedulePc) (made : ℕ) : Prop :=
  match p with
  | .uncalled | .entered => made = 0
  | .looping _ k => made = k.toNat
  | .trying _ k => made = k.toNat + 1
  | .pushing _ | .returned => made ≤ tryNTimes n

/-! ## A counter that fits

The attempts a call has made can be read off its control, and do not exceed the bound
of the loop. -/

theorem made (hfits : tryNTimes n < 2 ^ 32) {s₀ : State n ι τ κ} (h₀ : (machine n ι τ κ).Init s₀)
    {es : List (Event n ι τ κ)} (hrun : (machine n ι τ κ).Run s₀ es) :
    (((machine n ι τ κ).after s₀ es).ctl.schedule x).Made n (es.countP (attempt x)) := by
  refine hrun.history (I := fun es s => (s.ctl.schedule x).Made n (es.countP (attempt x))) ?_ ?_
  · obtain ⟨⟨threadIndex, hctl⟩, -⟩ := h₀
    rw [hctl]
    rfl
  · intro es e hrun he ih
    rw [List.countP_append, List.countP_singleton]
    have hreach := Machine.Reachable.of_run h₀ hrun
    generalize (machine n ι τ κ).after s₀ es = s at he ih hreach
    cases e with
    | inner q m => exact ih
    | ctl e =>
        show ((step s.ctl e).schedule x).Made n _
        by_cases hx : e.caller = .schedule x
        case neg =>
          rw [step_schedule_of_ne s.ctl e hx]
          have hno : attempt x (.ctl e : Event n ι τ κ) = false := by
            cases e with
            | tryPush y index k =>
                refine decide_eq_false fun hy => hx ?_
                rw [hy]
                rfl
            | _ => rfl
          rw [hno]
          exact ih
        have hrange := schedule_inRange hfits hreach x
        have hg := he.1
        cases e with
        | schedule y =>
            cases hx
            rw [show s.ctl.schedule x = .uncalled from hg] at ih
            simpa [step, Control.setSchedule, attempt, SchedulePc.Made] using ih
        | fetchPush y =>
            cases hx
            rw [show s.ctl.schedule x = .entered from hg] at ih
            simpa [step, Control.setSchedule, attempt, SchedulePc.Made] using ih
        | tryPush y index k =>
            cases hx
            rw [hg.1] at ih
            simpa [step, Control.setSchedule, attempt, SchedulePc.Made] using ih
        | tryPushRet y index k ok =>
            cases hx
            rw [show s.ctl.schedule x = .trying index k from hg] at ih hrange
            have hsucc := succ_inRange hrange hfits
            cases ok with
            | true =>
                simp only [step, Control.setSchedule, Function.update_self, if_true, attempt]
                exact (Nat.add_zero _).trans_le (ih.trans_le hrange)
            | false =>
                simp only [step, Control.setSchedule, Function.update_self, attempt]
                exact ih.trans hsucc.symm
        | push y index k =>
            cases hx
            rw [hg.1] at ih hrange
            simp only [step, Control.setSchedule, Function.update_self, attempt]
            exact ih.trans_le hrange
        | pushRet y index =>
            cases hx
            rw [show s.ctl.schedule x = .pushing index from hg] at ih
            simpa [step, Control.setSchedule, attempt, SchedulePc.Made] using ih
        | _ => cases hx

theorem attempts_le (hfits : tryNTimes n < 2 ^ 32) {s₀ : State n ι τ κ}
    (h₀ : (machine n ι τ κ).Init s₀) {es : List (Event n ι τ κ)}
    (hrun : (machine n ι τ κ).Run s₀ es) : es.countP (attempt x) ≤ tryNTimes n := by
  have hmade := made (x := x) hfits h₀ hrun
  have hrange := schedule_inRange hfits (Machine.Reachable.of_run h₀ hrun) x
  generalize (machine n ι τ κ).after s₀ es = s at hmade hrange
  cases hx : s.ctl.schedule x with
  | uncalled | entered =>
      rw [hx] at hmade
      exact hmade.trans_le (Nat.zero_le _)
  | looping index k | trying index k =>
      rw [hx] at hmade hrange
      exact hmade.trans_le hrange
  | pushing index | returned =>
      rw [hx] at hmade
      exact hmade

/-! ## A counter that wraps -/

/-- `rounds` attempts in a row, from round `k` on, all of them refused. -/
def refusals (n : QueueCount) (ι κ : Type) (x : τ) (index : BitVec 32) :
    BitVec 32 → ℕ → List (Event n ι τ κ)
  | _, 0 => []
  | k, rounds + 1 =>
      [.ctl (.tryPush x index k),
       .inner (slot n (index + k)) (.refuse (.schedule x) (.tryPush x) (.pushed false)),
       .ctl (.tryPushRet x index k false)] ++ refusals n ι κ x index (k + 1) rounds

omit [DecidableEq ι] [DecidableEq κ] in
theorem refusals_attempts (index k : BitVec 32) (rounds : ℕ) :
    (refusals n ι κ x index k rounds).countP (attempt x) = rounds := by
  induction rounds generalizing k with
  | zero => rfl
  | succ rounds ih =>
      rw [refusals, List.countP_append, ih]
      simp [attempt, Nat.add_comm]

theorem run_refusals (hlarge : 2 ^ 32 ≤ tryNTimes n) {index k : BitVec 32}
    (hx : s.ctl.schedule x = .looping index k) (hidle : ∀ q, (s.obj q).pc (.schedule x) = .idle)
    (rounds : ℕ) : (machine n ι τ κ).Run s (refusals n ι κ x index k rounds) := by
  induction rounds generalizing s k with
  | zero => trivial
  | succ rounds ih =>
      have hround : k.toNat ≠ tryNTimes n := by
        have hk := k.isLt
        omega
      obtain ⟨hrun, hafter⟩ := Client.run_refused (P := client n ι τ κ) (M := Queue.object τ)
        (c := Queue.Core.empty) (s := s) (e := .tryPush x index k)
        (d := .tryPushRet x index k false)
        ⟨hx, hround⟩ rfl (Function.update_self ..) rfl (hidle _) rfl
      refine (Machine.run_append _).mpr ⟨hrun, ?_⟩
      rw [hafter]
      exact ih (Function.update_self ..) hidle

/-- **How often `schedule` tries.**  The attempts of a call are bounded exactly when the
loop's counter can hold the bound; and when it cannot, no call ever gets to `push`. -/
theorem attempts_bounded_iff (n : QueueCount) (x : τ) :
    ((∃ bound, ∀ (s : State n ι τ κ) es, (machine n ι τ κ).Init s → (machine n ι τ κ).Run s es →
        es.countP (attempt x) ≤ bound) ↔ tryNTimes n < 2 ^ 32) ∧
      (2 ^ 32 ≤ tryNTimes n → ∀ s : State n ι τ κ, (machine n ι τ κ).Reachable s →
        ∀ index, s.ctl.schedule x ≠ .pushing index) := by
  refine ⟨⟨fun ⟨bound, hbound⟩ => ?_, fun hfits =>
    ⟨tryNTimes n, fun s es h₀ hrun => attempts_le hfits h₀ hrun⟩⟩, fun hlarge s h index => ?_⟩
  · by_contra hfits
    have hlarge : 2 ^ 32 ≤ tryNTimes n := Nat.le_of_not_lt hfits
    obtain ⟨hdraw, hdrawn⟩ := run_draw (n := n) (ι := ι) (κ := κ) (x := x)
      (s := ⟨.initial fun _ => none, fun _ => Monitor.State.initial .empty⟩) rfl
    have hrun := run_refusals (n := n) (ι := ι) (κ := κ) (x := x) hlarge
      (s := drawn ⟨.initial fun _ => none, fun _ => Monitor.State.initial .empty⟩ x)
      (Function.update_self ..) (fun _ => rfl) (bound + 1)
    rw [← hdrawn] at hrun
    have hle := hbound _ _ ⟨⟨_, rfl⟩, rfl⟩ ((Machine.run_append _).mpr ⟨hdraw, hrun⟩)
    rw [List.countP_append, refusals_attempts] at hle
    omega
  · refine h.invariant (I := fun s => ∀ index, s.ctl.schedule x ≠ .pushing index) ?_ ?_ index
    · rintro s ⟨⟨threadIndex, hctl⟩, -⟩ index
      rw [hctl]
      exact nofun
    · intro s e _ he ih index hpush
      cases e with
      | inner q m => exact ih index hpush
      | ctl e =>
          change (step s.ctl e).schedule x = .pushing index at hpush
          by_cases hx : e.caller = .schedule x
          case neg =>
            rw [step_schedule_of_ne s.ctl e hx] at hpush
            exact ih index hpush
          cases e with
          | push y index k =>
              have hk := k.isLt
              have hround : k.toNat = tryNTimes n := he.1.2
              omega
          | tryPushRet y index k ok =>
              cases hx
              cases ok <;> simp [step, Control.setSchedule] at hpush
          | schedule y | fetchPush y | tryPush y _ _ | pushRet y _ =>
              cases hx
              simp [step, Control.setSchedule] at hpush
          | _ => cases hx

end RrScheduler

end Jar.Concurrency
