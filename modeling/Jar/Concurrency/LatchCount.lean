/-
# `Jar.Concurrency.LatchCount` — a latch and its count

`try_wait` compares the counter with zero, and `count_down` subtracts whatever it
is given from a `size_t`.  While the subtractions add up to no more than the latch
was made with, the counter is what is left of it: `try_wait` is true exactly when
everything is subtracted, and stays true.  The first subtraction beyond that
wraps the counter past zero, and the latch is closed, for good or until the
counter happens to come by zero again.

Here the calls are the ones the class admits, any number of them with any sizes;
the machine of `Jar.Concurrency.Latch`, whose callers count down by what the latch
was made with, is a part of it (`run_of_machine`).
-/
import Jar.Concurrency.Latch
import Mathlib.Algebra.GroupWithZero.Nat

namespace Jar.Concurrency

open Jar.Lib

namespace Latch

variable {ι : Type} [DecidableEq ι] {total : BitVec 64} {s : State ι} {e : Event ι}
  {es fs : List (Event ι)}

/-- The steps that take the mutex. -/
def Event.locks : Event ι → Bool
  | .lock _ | .relock _ => true
  | _ => false

/-- A thread takes its next step; the mutex is free when it is taken. -/
def ready (s : State ι) (e : Event ι) : Prop :=
  s.pc e.thread = e.source ∧ (e.locks = true → s.locked = false)

/-- Any calls, with any sizes, on a latch made with any count. -/
def anyCalls (ι : Type) [DecidableEq ι] : Machine (State ι) (Event ι) where
  Init s := ∃ total, s = State.initial total
  Enabled := ready
  next := next

/-- What has been subtracted, as a natural number. -/
def subtracted (es : List (Event ι)) : ℕ := (es.map fun e => e.takes.toNat).sum

/-- What `try_wait` and the counter should do in a run. -/
structure Opens (total : BitVec 64) (es : List (Event ι)) : Prop where
  opens : ∀ fs, fs <+: es →
    (((anyCalls ι).after (.initial total) fs).tryWait = true ↔ total.toNat ≤ subtracted fs)
  stays : ∀ fs gs, fs <+: gs → gs <+: es →
    ((anyCalls ι).after (.initial total) fs).tryWait = true →
      ((anyCalls ι).after (.initial total) gs).tryWait = true
  unwrapped : ∀ fs e, fs ++ [e] <+: es →
    e.takes.toNat ≤ ((anyCalls ι).after (.initial total) fs).expected.toNat

/-! ## The calls of `Jar.Concurrency.Latch`

The class admits every call, so the runs of that machine, whose callers keep within
the count, are among those considered here. -/

omit [DecidableEq ι] in
theorem ready_of_enabled (he : enabled total s e) : ready s e := by
  refine ⟨enabled_source he, fun hlocks => ?_⟩
  cases e with
  | lock | relock => exact he.2
  | _ => cases hlocks

theorem run_of_machine (h : (machine ι total).Run s es) :
    (anyCalls ι).Run s es ∧ (anyCalls ι).after s es = (machine ι total).after s es := by
  induction es generalizing s with
  | nil => exact ⟨trivial, rfl⟩
  | cons e es ih => exact ⟨⟨ready_of_enabled h.1, (ih h.2).1⟩, (ih h.2).2⟩

/-! ## The counter along a run

While no more is subtracted than the latch was made with, the counter is what is left,
and zero when nothing is.  The first subtraction beyond that does not give zero, so it
closes an open latch. -/

omit [DecidableEq ι] in
theorem subtracted_append : subtracted (es ++ fs) = subtracted es + subtracted fs := by
  simp [subtracted]

omit [DecidableEq ι] in
theorem subtracted_mono (h : fs <+: es) : subtracted fs ≤ subtracted es := by
  obtain ⟨gs, rfl⟩ := h
  rw [subtracted_append]
  exact Nat.le_add_right _ _

omit [DecidableEq ι] in
theorem subtracted_snoc : subtracted (fs ++ [e]) = subtracted fs + e.takes.toNat := by
  simp [subtracted]

theorem expected_snoc :
    ((anyCalls ι).after (.initial total) (fs ++ [e])).expected =
      ((anyCalls ι).after (.initial total) fs).expected - e.takes := by
  rw [Machine.after_append]
  exact next_expected _ e

theorem expected_eq (hle : subtracted es ≤ total.toNat) :
    ((anyCalls ι).after (.initial total) es).expected.toNat + subtracted es = total.toNat := by
  induction es using List.reverseRecOn with
  | nil => rfl
  | append_singleton fs e ih =>
      rw [subtracted_snoc] at hle ⊢
      have hleft := ih (by omega)
      rw [expected_snoc]
      bv_omega

omit [DecidableEq ι] in
theorem tryWait_of_left {n : ℕ} (h : s.expected.toNat + n = total.toNat) :
    s.tryWait = true ↔ total.toNat ≤ n := by
  rw [tryWait_iff]
  constructor
  · intro hzero
    rw [hzero] at h
    exact Nat.le_of_eq (h.symm.trans (Nat.zero_add n))
  · intro hle
    bv_omega

/-- A subtraction of more than is left does not give zero. -/
theorem sub_ne_zero {x n : BitVec 64} (h : x.toNat < n.toNat) : x - n ≠ 0 := by
  intro hzero
  bv_omega

theorem Opens.of_le (h : subtracted es ≤ total.toNat) : Opens total es where
  opens fs hfs := tryWait_of_left (expected_eq ((subtracted_mono hfs).trans h))
  stays fs gs hfg hgs hopen := by
    have hfs := expected_eq (((subtracted_mono hfg).trans (subtracted_mono hgs)).trans h)
    have hgs' := expected_eq ((subtracted_mono hgs).trans h)
    exact (tryWait_of_left hgs').mpr
      (((tryWait_of_left hfs).mp hopen).trans (subtracted_mono hfg))
  unwrapped fs e hfs := by
    have hle := (subtracted_mono hfs).trans h
    rw [subtracted_snoc] at hle
    have hsum : subtracted fs ≤ total.toNat := by omega
    have hleft := expected_eq hsum
    omega

/-- The first subtraction beyond the count leaves the latch closed, so a latch that is open
whenever it should be has not been given one. -/
theorem Opens.le (h : Opens total es) : subtracted es ≤ total.toNat := by
  have hopens := h.opens
  clear h
  induction es using List.reverseRecOn with
  | nil => exact Nat.zero_le _
  | append_singleton fs e ih =>
      have hfs : subtracted fs ≤ total.toNat :=
        ih fun gs hgs => hopens gs (hgs.trans (List.prefix_append _ _))
      have hleft := expected_eq hfs
      by_contra hover
      have htotal : total.toNat ≤ subtracted (fs ++ [e]) := Nat.le_of_not_le hover
      have hzero := tryWait_iff.mp ((hopens _ (List.prefix_refl _)).mpr htotal)
      rw [expected_snoc] at hzero
      rw [subtracted_snoc] at hover
      exact sub_ne_zero (by omega) hzero

/-- **A latch opens when its count has arrived, stays open, and its counter does not wrap,
in exactly the runs whose subtractions add up to no more than it was made with.** -/
theorem opens_iff (total : BitVec 64) (es : List (Event ι)) :
    Opens total es ↔ subtracted es ≤ total.toNat :=
  ⟨Opens.le, Opens.of_le⟩

/-- Two threads arrive at a latch made for one. -/
def oneTooMany : List (Event Bool) :=
  [.countDown false 1 false, .countDown true 1 false, .subtract true 1 false,
    .subtract false 1 false]

/-- The second arrival closes the latch that the first one had opened. -/
theorem closes_again : (anyCalls Bool).Run (.initial 1) oneTooMany ∧
    ((anyCalls Bool).after (.initial 1) (oneTooMany.take 3)).tryWait = true ∧
    ((anyCalls Bool).after (.initial 1) oneTooMany).tryWait = false ∧
    ¬ Opens 1 oneTooMany := by
  have hclosed : ((anyCalls Bool).after (.initial 1) oneTooMany).tryWait = false := by decide
  refine ⟨⟨⟨rfl, nofun⟩, ⟨rfl, nofun⟩, ⟨rfl, nofun⟩, ⟨rfl, nofun⟩, trivial⟩, by decide, hclosed, ?_⟩
  intro h
  rw [(h.opens oneTooMany (List.prefix_refl _)).mpr (by decide)] at hclosed
  cases hclosed

/-! ## The runs that are bounded by the count -/

/-- What is subtracted in a run of `machine` is what its states say is counted. -/
theorem counted_eq_subtracted (es : List (Event ι)) :
    ((machine ι total).after (.initial total) es).counted = subtracted es := by
  induction es using List.reverseRecOn with
  | nil => rfl
  | append_singleton es e ih =>
      rw [Machine.after_append, subtracted_snoc, ← ih]
      exact next_counted _ e

theorem opens_of_machine (h : (machine ι total).Run (.initial total) es) : Opens total es := by
  have hcounts := counts (Machine.Reachable.of_run (M := machine ι total) rfl h)
  have hleft := hcounts.1
  rw [counted_eq_subtracted] at hleft
  exact .of_le (by omega)

end Latch

end Jar.Concurrency
