/-
# `Jar.Lib.Progress` — nobody is stuck in a monitor but its sleepers

A thread inside an operation of a monitor can be kept from its next step by two
things: the mutex, if another thread has it, and sleep.  A thread that has the
mutex runs its critical section to the end; a notification can always be issued.
So a thread inside an operation can move or waits for one that can (`exists_step`),
and a monitor in which no thread can move is one in which everybody is outside,
asleep, or back from its section with the result not yet taken (`AtRest.rests`).  And
as sleepers are covered (`Supply`), the object they sleep on is then open and
holds no work.

    calling ──lock──▸ holding ──body──▸ …          one of the two moves:
    woken ──relock──▸ rechecking ──again──▸ …      the thread, or who has the mutex

The steps counted here are those that a thread takes when it is scheduled.
Calling an operation and taking its result is up to the program around the
monitor, and nobody may rely on a spurious wake-up.
-/
import Jar.Lib.Client

namespace Jar.Lib

namespace Monitor

variable {ι σ Op ρ : Type*} [DecidableEq ι] {M : Object σ Op ρ} {c : σ}
variable {s : State ι σ Op ρ} {e : Event ι Op ρ}

/-! ## The mutex

A step takes the mutex and finds it free, releases it and belongs to the thread that
had it, or has nothing to do with it.  In each case one thread at most has it
afterwards; waking a thread does not give it the mutex. -/

/-- A thread that has the mutex: it is about to run its critical section. -/
def Pc.holds : Pc Op ρ → Bool
  | .holding _ | .rechecking _ => true
  | _ => false

/-- **Mutual exclusion**: one thread at most has the mutex, and it is locked exactly
when one has. -/
structure Exclusive (s : State ι σ Op ρ) : Prop where
  locked : s.locked = true → ∃ t, (s.pc t).holds = true
  unlocked : s.locked = false → ∀ t, (s.pc t).holds = false
  unique : ∀ t u, (s.pc t).holds = true → (s.pc u).holds = true → t = u

theorem Outcome.pc_holds (op : Op) (o : Outcome σ ρ) : (o.pc op).holds = false := by
  cases o with
  | block => rfl
  | done c r n => cases n <;> rfl

theorem holds_of_ne (he : s.enabled M e) {u : ι} (hu : u ≠ e.thread) :
    ((s.next M e).pc u).holds = (s.pc u).holds := by
  rcases next_pc_of_ne he hu with hsame | ⟨op, hold, hnew⟩
  · rw [hsame]
  · rw [hold, hnew]
    rfl

theorem Exclusive.lock (h : Exclusive s) (he : s.enabled M e) (hfree : s.locked = false)
    (hnext : (s.next M e).locked = true) (hown : (e.target M s.core).holds = true) :
    Exclusive (s.next M e) := by
  have hother : ∀ u, u ≠ e.thread → ((s.next M e).pc u).holds = false := by
    intro u hu
    rw [holds_of_ne he hu]
    exact h.unlocked hfree u
  refine ⟨fun _ => ⟨e.thread, by rw [next_pc_self]; exact hown⟩, ?_, ?_⟩
  · intro hunlocked
    rw [hnext] at hunlocked
    cases hunlocked
  · intro t u ht hu
    by_contra hne
    rcases eq_or_ne t e.thread with rfl | hte
    · rw [hother u (Ne.symm hne)] at hu
      cases hu
    · rw [hother t hte] at ht
      cases ht

theorem Exclusive.unlock (h : Exclusive s) (he : s.enabled M e) (hold : e.source.holds = true)
    (hnext : (s.next M e).locked = false) (hown : (e.target M s.core).holds = false) :
    Exclusive (s.next M e) := by
  have hsrc : (s.pc e.thread).holds = true := by rw [enabled_source he, hold]
  have hnone : ∀ u, ((s.next M e).pc u).holds = false := by
    intro u
    rcases eq_or_ne u e.thread with rfl | hu
    · rw [next_pc_self, hown]
    · rw [holds_of_ne he hu]
      refine Bool.eq_false_iff.mpr fun hholds => hu (h.unique u e.thread hholds hsrc)
  refine ⟨?_, fun _ => hnone, ?_⟩
  · intro hlocked
    rw [hnext] at hlocked
    cases hlocked
  · intro t u ht
    rw [hnone t] at ht
    cases ht

theorem Exclusive.keep (h : Exclusive s) (he : s.enabled M e) (hold : e.source.holds = false)
    (hnext : (s.next M e).locked = s.locked) (hown : (e.target M s.core).holds = false) :
    Exclusive (s.next M e) := by
  have hall : ∀ u, ((s.next M e).pc u).holds = (s.pc u).holds := by
    intro u
    rcases eq_or_ne u e.thread with rfl | hu
    · rw [next_pc_self, hown, enabled_source he, hold]
    · exact holds_of_ne he hu
  refine ⟨?_, ?_, ?_⟩
  · intro hlocked
    obtain ⟨t, ht⟩ := h.locked (hnext ▸ hlocked)
    exact ⟨t, by rw [hall, ht]⟩
  · intro hunlocked u
    rw [hall]
    exact h.unlocked (hnext ▸ hunlocked) u
  · intro t u ht hu
    rw [hall] at ht hu
    exact h.unique t u ht hu

theorem Exclusive.next (h : Exclusive s) (he : s.enabled M e) : Exclusive (s.next M e) := by
  cases e with
  | lock t op => exact h.lock he he.2 rfl rfl
  | relock t op => exact h.lock he he.2 rfl rfl
  | body t op =>
      refine h.unlock he rfl ?_ (Outcome.pc_holds op _)
      show (s.finish t op (M.body op s.core)).locked = false
      cases M.body op s.core <;> rfl
  | again t op =>
      refine h.unlock he rfl ?_ (Outcome.pc_holds op _)
      show (s.finish t op (M.again op s.core)).locked = false
      cases M.again op s.core <;> rfl
  | _ => exact h.keep he rfl rfl rfl

theorem exclusive (h : (machine ι M c).Reachable s) : Exclusive s := by
  refine h.invariant (I := Exclusive) ?_ fun s e _ he hs => hs.next he
  rintro s rfl
  exact ⟨nofun, fun _ _ => rfl, nofun⟩

/-! ## A monitor at rest

Whoever has the mutex can run its critical section, and a `notify_one` always finds
its target: a sleeper, or nobody.  So a thread is kept from its next step by sleep, by
the mutex of another, or because its operation is over. -/

/-- The steps inside an operation that its thread takes when it is scheduled: a
spurious wake-up is not one of them. -/
def Event.own : Event ι Op ρ → Bool
  | .call _ _ | .ret _ _ _ | .spurious _ _ => false
  | _ => true

omit [DecidableEq ι] in
theorem Event.own_inner (h : e.own = true) : e.inner = true := by
  cases e with
  | call | ret | spurious => cases h
  | _ => rfl

/-- No thread can take a step inside its operation. -/
def AtRest (M : Object σ Op ρ) (s : State ι σ Op ρ) : Prop :=
  ∀ e : Event ι Op ρ, e.own = true → ¬ s.enabled M e

/-- Where a thread of a monitor at rest stands. -/
inductive Pc.Rests : Pc Op ρ → Prop
  | idle : Rests .idle
  | asleep (op : Op) : Rests (.asleep op)
  | returned (op : Op) (r : ρ) : Rests (.returned op r)

instance : DecidablePred (@Pc.Rests Op ρ)
  | .idle => isTrue .idle
  | .asleep op => isTrue (.asleep op)
  | .returned op r => isTrue (.returned op r)
  | .calling _ | .holding _ | .woken _ | .rechecking _ | .notifyOne _ _ | .notifyAll _ _ =>
      isFalse nofun

/-- A thread that is about to take the mutex. -/
def Pc.waits : Pc Op ρ → Bool
  | .calling _ | .woken _ => true
  | _ => false

omit [DecidableEq ι] in
theorem Exclusive.release (h : Exclusive s) (hlocked : s.locked = true) :
    ∃ e : Event ι Op ρ, e.own = true ∧ s.enabled M e ∧ e.source.holds = true := by
  obtain ⟨t, ht⟩ := h.locked hlocked
  cases hpc : s.pc t with
  | holding op => exact ⟨.body t op, rfl, hpc, rfl⟩
  | rechecking op => exact ⟨.again t op, rfl, hpc, rfl⟩
  | _ =>
      rw [hpc] at ht
      cases ht

omit [DecidableEq ι] in
theorem exists_target (s : State ι σ Op ρ) : ∃ u, (sleepers Op ρ).Target s.pc u := by
  by_cases h : ∃ u, (sleepers Op ρ).asleep (s.pc u) = true
  · obtain ⟨u, hu⟩ := h
    exact ⟨some u, hu⟩
  · exact ⟨none, fun u => Bool.eq_false_iff.mpr fun hu => h ⟨u, hu⟩⟩

omit [DecidableEq ι] in
/-- **A thread inside an operation can move**, or waits for one that can. -/
theorem exists_step (h : Exclusive s) {t : ι} (ht : ¬ (s.pc t).Rests) :
    ∃ e : Event ι Op ρ, e.own = true ∧ s.enabled M e ∧
      (e.thread = t ∨ (s.pc t).waits = true ∧ e.source.holds = true) := by
  have hwait : (s.pc t).waits = true → s.locked = true → ∃ e : Event ι Op ρ, e.own = true ∧
      s.enabled M e ∧ (e.thread = t ∨ (s.pc t).waits = true ∧ e.source.holds = true) := by
    intro hwaits hlocked
    obtain ⟨e, ho, he, hholds⟩ := h.release (M := M) hlocked
    exact ⟨e, ho, he, Or.inr ⟨hwaits, hholds⟩⟩
  cases hpc : s.pc t with
  | idle => exact absurd (hpc ▸ .idle) ht
  | asleep op => exact absurd (hpc ▸ .asleep op) ht
  | returned op r => exact absurd (hpc ▸ .returned op r) ht
  | calling op =>
      cases hlocked : s.locked with
      | false => exact ⟨.lock t op, rfl, ⟨hpc, hlocked⟩, Or.inl rfl⟩
      | true => exact hpc ▸ hwait (by rw [hpc]; rfl) hlocked
  | woken op =>
      cases hlocked : s.locked with
      | false => exact ⟨.relock t op, rfl, ⟨hpc, hlocked⟩, Or.inl rfl⟩
      | true => exact hpc ▸ hwait (by rw [hpc]; rfl) hlocked
  | holding op => exact ⟨.body t op, rfl, hpc, Or.inl rfl⟩
  | rechecking op => exact ⟨.again t op, rfl, hpc, Or.inl rfl⟩
  | notifyAll op r => exact ⟨.notifyAll t op r, rfl, hpc, Or.inl rfl⟩
  | notifyOne op r =>
      obtain ⟨u, hu⟩ := exists_target s
      exact ⟨.notifyOne t op r u, rfl, ⟨hpc, hu⟩, Or.inl rfl⟩

omit [DecidableEq ι] in
/-- So a thread that cannot, and waits for nobody, is outside, asleep, or back with its
result. -/
theorem AtRest.rests (hrest : AtRest M s) (hmutex : Exclusive s) (t : ι) : (s.pc t).Rests := by
  by_contra hno
  obtain ⟨e, ho, he, -⟩ := exists_step (M := M) hmutex hno
  exact hrest e ho he

omit [DecidableEq ι] in
theorem atRest_of_rests (h : ∀ t, (s.pc t).Rests) : AtRest M s := by
  intro e ho he
  have hrests := h e.thread
  rw [enabled_source he] at hrests
  cases e with
  | call | ret | spurious => cases ho
  | _ => cases hrests

theorem AtRest.drained {S : Supply M} (hrest : AtRest M s) (h : (machine ι M c).Reachable s)
    {t : ι} {op : Op} (ht : s.pc t = .asleep op) : ¬ S.shut s.core ∧ S.work s.core = 0 := by
  have hrests := hrest.rests (exclusive h)
  refine (S.covered h).settled ⟨t, op, ht⟩ ?_ ?_
  · rintro ⟨u, op', r, hu⟩
    have hno := hrests u
    rw [hu] at hno
    cases hno
  · intro u
    have hu := hrests u
    cases hpc : s.pc u with
    | idle | asleep | returned => rfl
    | _ =>
        rw [hpc] at hu
        cases hu

end Monitor

/-! ## Its clients

The same for the threads of a program: the control says which operation a thread is
in, and the monitor where in it. -/

namespace Client

variable {K A σ Op ρ χ η : Type*} [DecidableEq K] [DecidableEq A]
variable {P : Client K A Op ρ χ η} {M : Monitor.Object σ Op ρ} {c : σ} {s : State K A σ Op ρ χ}

/-- No thread can take a step inside an operation of any object. -/
def ObjectsAtRest (P : Client K A Op ρ χ η) (M : Monitor.Object σ Op ρ)
    (s : State K A σ Op ρ χ) : Prop :=
  ∀ q (e : Monitor.Event A Op ρ), e.own = true → ¬ P.enabled M s (.inner q e)

omit [DecidableEq K] [DecidableEq A] in
theorem ObjectsAtRest.obj (h : ObjectsAtRest P M s) (q : K) : Monitor.AtRest M (s.obj q) :=
  fun e ho he => h q e ho ⟨Monitor.Event.own_inner ho, he⟩

omit [DecidableEq K] [DecidableEq A] in
theorem Bound.idle (h : P.Bound s) {t : A} (ht : P.site s.ctl t = none) (q : K) :
    (s.obj q).pc t = .idle := by
  have hnone : ∀ op, ((s.obj q).pc t).op ≠ some op := by
    intro op hop
    rw [(h q t op).mp hop] at ht
    cases ht
  cases hpc : (s.obj q).pc t with
  | idle => rfl
  | _ =>
      rw [hpc] at hnone
      exact absurd rfl (hnone _)

/-- A thread in an operation of an object is asleep in it or back from it, or can move,
or waits for one that can. -/
theorem inside_cases (hP : P.Lawful) (h : (P.machine M c).Reachable s) {t : A} {q : K} {op : Op}
    (ht : P.site s.ctl t = some (q, op)) :
    ((s.obj q).pc t = .asleep op ∧ M.Blocks op) ∨ (∃ r, (s.obj q).pc t = .returned op r) ∨
      ∃ e : Monitor.Event A Op ρ, e.own = true ∧ P.enabled M s (.inner q e) ∧
        (e.thread = t ∨ ((s.obj q).pc t).waits = true ∧ e.source.holds = true) := by
  have hop := (bound hP h q t op).mpr ht
  by_cases hrests : ((s.obj q).pc t).Rests
  case neg =>
    obtain ⟨e, ho, he, hwho⟩ :=
      Monitor.exists_step (M := M) (Monitor.exclusive (obj_reachable h q)) hrests
    exact Or.inr (Or.inr ⟨e, ho, ⟨Monitor.Event.own_inner ho, he⟩, hwho⟩)
  have hsound := Monitor.pc_sound (obj_reachable h q) t
  cases hpc : (s.obj q).pc t with
  | idle =>
      rw [hpc] at hop
      cases hop
  | asleep op' =>
      rw [hpc] at hop hsound
      cases hop
      exact Or.inl ⟨rfl, hsound⟩
  | returned op' r =>
      rw [hpc] at hop
      cases hop
      exact Or.inr (Or.inl ⟨r, rfl⟩)
  | _ =>
      rw [hpc] at hrests
      cases hrests

theorem ObjectsAtRest.inside (hrest : ObjectsAtRest P M s) (hP : P.Lawful)
    (h : (P.machine M c).Reachable s) {t : A} {q : K} {op : Op}
    (ht : P.site s.ctl t = some (q, op)) :
    (s.obj q).pc t = .asleep op ∧ M.Blocks op ∨ ∃ r, (s.obj q).pc t = .returned op r := by
  rcases inside_cases hP h ht with hasleep | hback | ⟨e, ho, he, -⟩
  · exact Or.inl hasleep
  · exact Or.inr hback
  · exact absurd he (hrest q e ho)

end Client

end Jar.Lib
