/-
# `Jar.Lib.CondVar` — sleeping on a condition variable and being notified

A condition variable has no state of its own: it is the set of threads asleep
on it.  A system describes that set by its program counters — which counters
mean "asleep here", and which counter a sleeper continues at once woken.
`notify_one` reaches one sleeper if there is one and is lost otherwise, and
which sleeper it reaches is the environment's choice, so it is part of the
event; `notify_all` reaches every sleeper.  A spurious wake-up is a `notify_one`
nobody sent.
-/
import Mathlib.Data.Fintype.Basic
import Mathlib.Logic.Function.Basic

namespace Jar.Lib

/-- Which program counters are asleep on the variable, and where a sleeper goes on. -/
structure CondVar (P : Type*) where
  asleep : P → Bool
  wake : P → P
  awake : ∀ p, asleep p = true → asleep (wake p) = false

namespace CondVar

variable {ι P : Type*} (cv : CondVar P)

/-- The thread a `notify_one` reaches: some sleeper, or none when nobody sleeps. -/
def Target (pc : ι → P) : Option ι → Prop
  | some u => cv.asleep (pc u) = true
  | none => ∀ u, cv.asleep (pc u) = false

instance decTarget [Fintype ι] (pc : ι → P) : ∀ u : Option ι, Decidable (cv.Target pc u)
  | some u => inferInstanceAs (Decidable (cv.asleep (pc u) = true))
  | none => inferInstanceAs (Decidable (∀ u, cv.asleep (pc u) = false))

/-- The program counters after a `notify_one` that reaches `u`. -/
def wakeOne [DecidableEq ι] (pc : ι → P) : Option ι → ι → P
  | some u => Function.update pc u (cv.wake (pc u))
  | none => pc

/-- The program counters after a `notify_all`. -/
def wakeAll (pc : ι → P) : ι → P :=
  fun u => if cv.asleep (pc u) then cv.wake (pc u) else pc u

variable {cv}

theorem wakeAll_awake (pc : ι → P) (u : ι) : cv.asleep (cv.wakeAll pc u) = false := by
  unfold wakeAll
  split
  case isTrue h => exact cv.awake _ h
  case isFalse h => simpa using h

theorem wakeAll_of_awake {pc : ι → P} {u : ι} (h : cv.asleep (pc u) = false) :
    cv.wakeAll pc u = pc u := by
  simp [wakeAll, h]

theorem wakeAll_of_asleep {pc : ι → P} {u : ι} (h : cv.asleep (pc u) = true) :
    cv.wakeAll pc u = cv.wake (pc u) := by
  simp [wakeAll, h]

variable [DecidableEq ι]

theorem wakeOne_of_awake {pc : ι → P} {o : Option ι} (ho : cv.Target pc o) {t : ι}
    (ht : cv.asleep (pc t) = false) : cv.wakeOne pc o t = pc t := by
  cases o with
  | none => rfl
  | some u =>
      have hne : t ≠ u := by
        rintro rfl
        rw [show cv.asleep (pc t) = true from ho] at ht
        cases ht
      exact Function.update_of_ne hne _ _

end CondVar

end Jar.Lib
