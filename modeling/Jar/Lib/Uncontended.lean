/-
# `Jar.Lib.Uncontended` — an operation that nobody gets in the way of

A thread that calls an operation on an object whose mutex is free, and that is
left alone, takes the mutex, runs the body and returns: four steps, or five with a
notification, that nobody is asleep to get.  Seen from outside it is one step,
from the call to the return, which changes the object as the body says.  One that is
refused the mutex is a step that changes nothing.
-/
import Jar.Lib.Client

namespace Jar.Lib

namespace Client

variable {K A σ Op ρ χ η : Type*} [DecidableEq K] [DecidableEq A] {P : Client K A Op ρ χ η}
  {M : Monitor.Object σ Op ρ} {c c' : σ}

/-- The steps inside an operation that returns `r` and announces `n`. -/
def inside (q : K) (t : A) (op : Op) (r : ρ) : Monitor.Signal → List (Event K A Op ρ η)
  | .none => [.inner q (.lock t op), .inner q (.body t op)]
  | .one => [.inner q (.lock t op), .inner q (.body t op), .inner q (.notifyOne t op r none)]
  | .all => [.inner q (.lock t op), .inner q (.body t op), .inner q (.notifyAll t op r)]

/-- Nobody sleeps on the object. -/
def Awake (m : Monitor.State A σ Op ρ) : Prop :=
  ∀ u, (Monitor.sleepers Op ρ).asleep (m.pc u) = false

theorem Awake.update {m : Monitor.State A σ Op ρ} (h : Awake m) (t : A) {p : Monitor.Pc Op ρ}
    (hp : (Monitor.sleepers Op ρ).asleep p = false) (u : A) :
    (Monitor.sleepers Op ρ).asleep (Function.update m.pc t p u) = false := by
  rcases eq_or_ne u t with rfl | hu
  · rw [Function.update_self]
    exact hp
  · rw [Function.update_of_ne hu]
    exact h u

variable {s : State K A σ Op ρ χ} {q : K} {t : A} {op : Op} {r : ρ} {n : Monitor.Signal}

/-! ## From the call to the return

While the mutex is free and nobody sleeps on the object, the steps of a thread from
its call to its return are determined, and can be taken one after the other. -/

theorem next_call {e : η} (h : P.act s.ctl e = .call q t op) :
    P.next M s (.ctl e) =
      ⟨P.step s.ctl e, Function.update s.obj q ((s.obj q).setPc t (.calling op))⟩ := by
  rw [next, h]
  rfl

theorem next_ret {e : η} (h : P.act s.ctl e = .ret q t op r) :
    P.next M s (.ctl e) =
      ⟨P.step s.ctl e, Function.update s.obj q ((s.obj q).setPc t .idle)⟩ := by
  rw [next, h]
  rfl

theorem run_inside (hpc : (s.obj q).pc t = .calling op) (hfree : (s.obj q).locked = false)
    (hbody : M.body op (s.obj q).core = .done c' r n) (hawake : n = .none ∨ Awake (s.obj q)) :
    (P.machine M c).Run s (inside q t op r n) ∧
      (P.machine M c).after s (inside q t op r n) =
        ⟨s.ctl, Function.update s.obj q
          ⟨c', false, Function.update (s.obj q).pc t (.returned op r)⟩⟩ := by
  have hlock : (s.obj q).enabled M (.lock t op) := ⟨hpc, hfree⟩
  cases n with
  | none =>
      refine ⟨⟨⟨rfl, hlock⟩, ⟨rfl, ?_⟩, trivial⟩, ?_⟩
      · simp [machine, next, Monitor.State.enabled, Monitor.State.next, Monitor.State.setPc]
      · simp [inside, Machine.after, machine, next, Monitor.State.next, Monitor.State.setPc,
          Monitor.State.finish, hbody, Monitor.Signal.pc]
  | one =>
      have hnobody : Awake (s.obj q) := hawake.resolve_left (by intro h; cases h)
      refine ⟨⟨⟨rfl, hlock⟩, ⟨rfl, ?_⟩, ⟨rfl, ?_⟩, trivial⟩, ?_⟩
      · simp [machine, next, Monitor.State.enabled, Monitor.State.next, Monitor.State.setPc]
      · simp only [machine, next, Monitor.State.enabled, Monitor.State.next, Monitor.State.setPc,
          Monitor.State.finish, hbody, Monitor.Signal.pc, Function.update_self,
          Function.update_idem]
        exact ⟨trivial, hnobody.update t rfl⟩
      · simp [inside, Machine.after, machine, next, Monitor.State.next, Monitor.State.setPc,
          Monitor.State.finish, hbody, Monitor.Signal.pc, CondVar.wakeOne]
  | all =>
      have hnobody : Awake (s.obj q) := hawake.resolve_left (by intro h; cases h)
      have hwake : (Monitor.sleepers Op ρ).wakeAll
          (Function.update (s.obj q).pc t (.notifyAll op r)) =
          Function.update (s.obj q).pc t (.notifyAll op r) :=
        funext fun u => CondVar.wakeAll_of_awake (hnobody.update t rfl u)
      refine ⟨⟨⟨rfl, hlock⟩, ⟨rfl, ?_⟩, ⟨rfl, ?_⟩, trivial⟩, ?_⟩
      · simp [machine, next, Monitor.State.enabled, Monitor.State.next, Monitor.State.setPc]
      · simp [machine, next, Monitor.State.enabled, Monitor.State.next, Monitor.State.setPc,
          Monitor.State.finish, hbody, Monitor.Signal.pc]
      · simp [inside, Machine.after, machine, next, Monitor.State.next, Monitor.State.setPc,
          Monitor.State.finish, hbody, Monitor.Signal.pc, hwake]

/-- **An operation that nobody gets in the way of**: between the two steps of control only
the object is changed, and as its body says. -/
theorem run_operation {e d : η} (hcall : P.guard s.ctl e) (hcallAct : P.act s.ctl e = .call q t op)
    (hret : P.guard (P.step s.ctl e) d) (hretAct : P.act (P.step s.ctl e) d = .ret q t op r)
    (hidle : (s.obj q).pc t = .idle) (hfree : (s.obj q).locked = false)
    (hbody : M.body op (s.obj q).core = .done c' r n) (hawake : n = .none ∨ Awake (s.obj q)) :
    (P.machine M c).Run s (.ctl e :: (inside q t op r n ++ [.ctl d])) ∧
      (P.machine M c).after s (.ctl e :: (inside q t op r n ++ [.ctl d])) =
        ⟨P.step (P.step s.ctl e) d, Function.update s.obj q ⟨c', false, (s.obj q).pc⟩⟩ := by
  have hcalled := next_call (M := M) hcallAct
  have hobj : (P.next M s (.ctl e)).obj q = (s.obj q).setPc t (.calling op) := by
    rw [hcalled]
    exact Function.update_self ..
  obtain ⟨hrun, hafter⟩ := run_inside (P := P) (M := M) (c := c) (s := P.next M s (.ctl e))
    (by rw [hobj]; exact Function.update_self ..) (by rw [hobj]; exact hfree)
    (by rw [hobj]; exact hbody)
    (hawake.imp_right fun hall => by rw [hobj]; exact hall.update t rfl)
  have hreturned : (P.machine M c).after (P.next M s (.ctl e)) (inside q t op r n) =
      ⟨P.step s.ctl e, Function.update s.obj q
        ⟨c', false, Function.update (s.obj q).pc t (.returned op r)⟩⟩ := by
    rw [hafter, hobj, hcalled]
    simp [Monitor.State.setPc]
  have hlast : P.enabled M ⟨P.step s.ctl e, Function.update s.obj q
      ⟨c', false, Function.update (s.obj q).pc t (.returned op r)⟩⟩ (.ctl d) := by
    refine ⟨hret, ?_⟩
    simp [hretAct, actEnabled, Monitor.State.enabled]
  constructor
  · refine ⟨⟨hcall, ?_⟩, (Machine.run_append _).mpr ⟨hrun, ?_, trivial⟩⟩
    · rw [hcallAct]
      exact hidle
    · rw [show (P.machine M c).next s (.ctl e) = P.next M s (.ctl e) from rfl, hreturned]
      exact hlast
  · show (P.machine M c).after (P.next M s (.ctl e)) _ = _
    rw [Machine.after_append, hreturned]
    show P.next M _ (.ctl d) = _
    have hback : Function.update (s.obj q).pc t .idle = (s.obj q).pc := by
      rw [← hidle]
      exact Function.update_eq_self ..
    rw [next_ret hretAct]
    simp [Monitor.State.setPc, hback]

/-- **An operation that is refused the mutex** leaves the objects as they were. -/
theorem run_refused {e d : η} (hcall : P.guard s.ctl e) (hcallAct : P.act s.ctl e = .call q t op)
    (hret : P.guard (P.step s.ctl e) d) (hretAct : P.act (P.step s.ctl e) d = .ret q t op r)
    (hidle : (s.obj q).pc t = .idle) (hrefusal : M.refusal op = some r) :
    (P.machine M c).Run s [.ctl e, .inner q (.refuse t op r), .ctl d] ∧
      (P.machine M c).after s [.ctl e, .inner q (.refuse t op r), .ctl d] =
        ⟨P.step (P.step s.ctl e) d, s.obj⟩ := by
  have hcalled := next_call (M := M) hcallAct
  have hrefused : P.next M (P.next M s (.ctl e)) (.inner q (.refuse t op r)) =
      ⟨P.step s.ctl e, Function.update s.obj q ((s.obj q).setPc t (.returned op r))⟩ := by
    rw [hcalled]
    simp [next, Monitor.State.next, Monitor.State.setPc]
  have hback : Function.update (s.obj q).pc t .idle = (s.obj q).pc := by
    rw [← hidle]
    exact Function.update_eq_self ..
  refine ⟨⟨⟨hcall, ?_⟩, ⟨rfl, ?_⟩, ⟨?_, ?_⟩, trivial⟩, ?_⟩
  · rw [hcallAct]
    exact hidle
  · refine ⟨?_, hrefusal⟩
    show ((P.next M s (.ctl e)).obj q).pc t = .calling op
    rw [hcalled]
    simp [Monitor.State.setPc]
  · show P.guard (P.next M (P.next M s (.ctl e)) (.inner q (.refuse t op r))).ctl d
    rw [hrefused]
    exact hret
  · show actEnabled M (P.next M (P.next M s (.ctl e)) (.inner q (.refuse t op r))).obj
      (P.act (P.next M (P.next M s (.ctl e)) (.inner q (.refuse t op r))).ctl d)
    rw [hrefused, hretAct]
    simp [actEnabled, Monitor.State.enabled, Monitor.State.setPc]
  · show P.next M (P.next M (P.next M s (.ctl e)) (.inner q (.refuse t op r))) (.ctl d) = _
    rw [hrefused, next_ret hretAct]
    simp [Monitor.State.setPc, hback]

end Client

end Jar.Lib
