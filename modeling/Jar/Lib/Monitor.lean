/-
# `Jar.Lib.Monitor` — objects guarded by one mutex and one condition variable

A monitor object has a state, operations on it, and for every operation the
body of its critical section as a function of the state.  A body either ends —
with a new state, a result, and a notification to be issued once the mutex is
released — or finds its wait predicate false and blocks.  A blocked operation
sleeps on the condition variable, and once woken takes the mutex again and runs
`again`, the predicate loop re-entered.

    idle ─call─▸ calling ─lock─▸ holding ─body─▸ notifyOne/notifyAll ─▸ returned ─ret─▸ idle
                    │                │ └────────────────────────────────▸ ▲
                 refuse            body                                   │
                    ▼                ▼                                  again
                 returned         asleep ─▸ woken ─relock─▸ rechecking ───┘

Taking the mutex is a step of its own, so a thread may be stopped between
taking it and running its body, and the others find it locked.  An operation
that only tries the mutex may be refused at any time (`refusal` is what it then
returns).  Notifications are issued after the mutex is released, one step later.

The theorem about all monitors is `Supply.covered`: if the work an object holds
only grows by what its notifications announce, sleepers are never left behind.
-/
import Jar.Lib.CondVar
import Jar.Lib.Machine
import Jar.Lib.Tally

namespace Jar.Lib

namespace Monitor

/-! ## Objects

An operation is given by what its critical section does, and by what it does when it
is resumed after a sleep.  Where a thread stands in it is its program counter:

    idle ──call──▸ calling ──lock──▸ holding ──body──▸ notifyOne, notifyAll ──▸ returned
                      └──refuse──▸ returned     └──▸ asleep ──▸ woken ──▸ rechecking -/

/-- The notification a critical section leaves to be issued after unlocking. -/
inductive Signal where
  | none
  | one
  | all
  deriving DecidableEq, Repr

/-- How a critical section ends. -/
inductive Outcome (σ ρ : Type*) where
  | done (c : σ) (r : ρ) (n : Signal)
  | block
  deriving DecidableEq, Repr

/-- The operations of an object with state `σ` and results `ρ`. -/
structure Object (σ Op ρ : Type*) where
  refusal : Op → Option ρ
  body : Op → σ → Outcome σ ρ
  again : Op → σ → Outcome σ ρ

/-- Where a thread stands in its operation. -/
inductive Pc (Op ρ : Type*) where
  | idle
  | calling (op : Op)
  | holding (op : Op)
  | asleep (op : Op)
  | woken (op : Op)
  | rechecking (op : Op)
  | notifyOne (op : Op) (r : ρ)
  | notifyAll (op : Op) (r : ρ)
  | returned (op : Op) (r : ρ)
  deriving DecidableEq, Repr

/-- The operation a thread is in. -/
def Pc.op {Op ρ : Type*} : Pc Op ρ → Option Op
  | .idle => none
  | .calling op | .holding op | .asleep op | .woken op | .rechecking op => some op
  | .notifyOne op _ | .notifyAll op _ | .returned op _ => some op

/-- Where a thread stands once its critical section has ended. -/
def Signal.pc {Op ρ : Type*} (op : Op) (r : ρ) : Signal → Pc Op ρ
  | .none => .returned op r
  | .one => .notifyOne op r
  | .all => .notifyAll op r

@[simp] theorem Signal.pc_op {Op ρ : Type*} (op : Op) (r : ρ) (n : Signal) :
    (n.pc op r).op = some op := by
  cases n <;> rfl

/-- Sleepers on the object's condition variable; a woken one goes for the mutex. -/
def sleepers (Op ρ : Type*) : CondVar (Pc Op ρ) where
  asleep
    | .asleep _ => true
    | _ => false
  wake
    | .asleep op => .woken op
    | p => p
  awake p h := by
    cases p with
    | asleep op => rfl
    | _ => cases h

/-- The object with its mutex, and the threads using it. -/
structure State (ι σ Op ρ : Type*) where
  core : σ
  locked : Bool
  pc : ι → Pc Op ρ

/-- One step of one thread.  Events carry the operation and result they are
about, and a notification the sleeper it reaches. -/
inductive Event (ι Op ρ : Type*) where
  | call (t : ι) (op : Op)
  | lock (t : ι) (op : Op)
  | refuse (t : ι) (op : Op) (r : ρ)
  | body (t : ι) (op : Op)
  | notifyOne (t : ι) (op : Op) (r : ρ) (u : Option ι)
  | notifyAll (t : ι) (op : Op) (r : ρ)
  | spurious (t : ι) (op : Op)
  | relock (t : ι) (op : Op)
  | again (t : ι) (op : Op)
  | ret (t : ι) (op : Op) (r : ρ)
  deriving DecidableEq, Repr

variable {ι σ Op ρ : Type*}

/-- Steps inside an operation: everything but calling it and returning from it. -/
def Event.inner : Event ι Op ρ → Bool
  | .call _ _ | .ret _ _ _ => false
  | _ => true

variable [DecidableEq ι]

namespace State

def setPc (s : State ι σ Op ρ) (t : ι) (p : Pc Op ρ) : State ι σ Op ρ :=
  { s with pc := Function.update s.pc t p }

/-- The end of a critical section: the mutex is released in either case. -/
def finish (s : State ι σ Op ρ) (t : ι) (op : Op) : Outcome σ ρ → State ι σ Op ρ
  | .done c r n => ⟨c, false, Function.update s.pc t (n.pc op r)⟩
  | .block => ⟨s.core, false, Function.update s.pc t (.asleep op)⟩

def enabled (M : Object σ Op ρ) (s : State ι σ Op ρ) : Event ι Op ρ → Prop
  | .call t _ => s.pc t = .idle
  | .lock t op => s.pc t = .calling op ∧ s.locked = false
  | .refuse t op r => s.pc t = .calling op ∧ M.refusal op = some r
  | .body t op => s.pc t = .holding op
  | .notifyOne t op r u => s.pc t = .notifyOne op r ∧ (sleepers Op ρ).Target s.pc u
  | .notifyAll t op r => s.pc t = .notifyAll op r
  | .spurious t op => s.pc t = .asleep op
  | .relock t op => s.pc t = .woken op ∧ s.locked = false
  | .again t op => s.pc t = .rechecking op
  | .ret t op r => s.pc t = .returned op r

def next (M : Object σ Op ρ) (s : State ι σ Op ρ) : Event ι Op ρ → State ι σ Op ρ
  | .call t op => s.setPc t (.calling op)
  | .lock t op => { s.setPc t (.holding op) with locked := true }
  | .refuse t op r => s.setPc t (.returned op r)
  | .body t op => s.finish t op (M.body op s.core)
  | .notifyOne t op r u =>
      { s with pc := Function.update ((sleepers Op ρ).wakeOne s.pc u) t (.returned op r) }
  | .notifyAll t op r =>
      { s with pc := Function.update ((sleepers Op ρ).wakeAll s.pc) t (.returned op r) }
  | .spurious t op => s.setPc t (.woken op)
  | .relock t op => { s.setPc t (.rechecking op) with locked := true }
  | .again t op => s.finish t op (M.again op s.core)
  | .ret t _ _ => s.setPc t .idle

end State

instance decEnabled [DecidableEq Op] [DecidableEq ρ] [Fintype ι] (M : Object σ Op ρ)
    (s : State ι σ Op ρ) (e : Event ι Op ρ) : Decidable (s.enabled M e) := by
  cases e <;> unfold State.enabled <;> infer_instance

/-- The object in state `c`, unlocked, with nobody using it. -/
def State.initial (c : σ) : State ι σ Op ρ := ⟨c, false, fun _ => .idle⟩

/-- Any number of threads using an object that starts in state `c`. -/
def machine (ι : Type*) [DecidableEq ι] (M : Object σ Op ρ) (c : σ) :
    Machine (State ι σ Op ρ) (Event ι Op ρ) where
  Init s := s = State.initial c
  Enabled := State.enabled M
  next := State.next M

instance [DecidableEq Op] [DecidableEq ρ] [Fintype ι] (M : Object σ Op ρ) (c : σ)
    (s : State ι σ Op ρ) (e : Event ι Op ρ) : Decidable ((machine ι M c).Enabled s e) :=
  decEnabled M s e

/-! ## One step, seen from one thread

Every event takes its own thread from one program counter to the next; another
thread is left alone, or woken if it sleeps.  These two facts are all that the
thread-local invariants below need to know about a step. -/

/-- The thread an event belongs to. -/
def Event.thread : Event ι Op ρ → ι
  | .call t _ | .lock t _ | .refuse t _ _ | .body t _ | .notifyOne t _ _ _ => t
  | .notifyAll t _ _ | .spurious t _ | .relock t _ | .again t _ | .ret t _ _ => t

/-- Where its thread stands before an event. -/
def Event.source : Event ι Op ρ → Pc Op ρ
  | .call _ _ => .idle
  | .lock _ op | .refuse _ op _ => .calling op
  | .body _ op => .holding op
  | .notifyOne _ op r _ => .notifyOne op r
  | .notifyAll _ op r => .notifyAll op r
  | .spurious _ op => .asleep op
  | .relock _ op => .woken op
  | .again _ op => .rechecking op
  | .ret _ op r => .returned op r

/-- Where a thread stands once its critical section has ended or blocked. -/
def Outcome.pc (op : Op) : Outcome σ ρ → Pc Op ρ
  | .done _ r n => n.pc op r
  | .block => .asleep op

/-- The state a critical section leaves. -/
def Outcome.core (c : σ) : Outcome σ ρ → σ
  | .done c' _ _ => c'
  | .block => c

/-- Where its thread stands after an event. -/
def Event.target (M : Object σ Op ρ) (c : σ) : Event ι Op ρ → Pc Op ρ
  | .call _ op => .calling op
  | .lock _ op => .holding op
  | .refuse _ op r | .notifyOne _ op r _ | .notifyAll _ op r => .returned op r
  | .body _ op => (M.body op c).pc op
  | .spurious _ op => .woken op
  | .relock _ op => .rechecking op
  | .again _ op => (M.again op c).pc op
  | .ret _ _ _ => .idle

theorem sleepers_asleep {p : Pc Op ρ} : (sleepers Op ρ).asleep p = true ↔ ∃ op, p = .asleep op := by
  cases p <;> simp [sleepers]

omit [DecidableEq ι] in
theorem enabled_source {M : Object σ Op ρ} {s : State ι σ Op ρ} {e : Event ι Op ρ}
    (he : s.enabled M e) : s.pc e.thread = e.source := by
  cases e with
  | lock | refuse | notifyOne | relock => exact he.1
  | call | body | notifyAll | spurious | again | ret => exact he

theorem finish_pc_self (s : State ι σ Op ρ) (t : ι) (op : Op) (o : Outcome σ ρ) :
    (s.finish t op o).pc t = o.pc op := by
  cases o <;> exact Function.update_self _ _ _

theorem finish_pc_of_ne (s : State ι σ Op ρ) {t u : ι} (op : Op) (o : Outcome σ ρ) (h : u ≠ t) :
    (s.finish t op o).pc u = s.pc u := by
  cases o <;> exact Function.update_of_ne h _ _

theorem finish_core (s : State ι σ Op ρ) (t : ι) (op : Op) (o : Outcome σ ρ) :
    (s.finish t op o).core = o.core s.core := by
  cases o <;> rfl

theorem next_pc_self (M : Object σ Op ρ) (s : State ι σ Op ρ) (e : Event ι Op ρ) :
    (s.next M e).pc e.thread = e.target M s.core := by
  cases e with
  | body t op => exact finish_pc_self s t op _
  | again t op => exact finish_pc_self s t op _
  | _ => exact Function.update_self _ _ _

theorem next_pc_of_ne {M : Object σ Op ρ} {s : State ι σ Op ρ} {e : Event ι Op ρ}
    (he : s.enabled M e) {u : ι} (hu : u ≠ e.thread) :
    (s.next M e).pc u = s.pc u ∨
      ∃ op, s.pc u = .asleep op ∧ (s.next M e).pc u = .woken op := by
  cases e with
  | body t op => exact Or.inl (finish_pc_of_ne s op _ hu)
  | again t op => exact Or.inl (finish_pc_of_ne s op _ hu)
  | notifyOne t op r o =>
      have hother : (s.next M (.notifyOne t op r o)).pc u = (sleepers Op ρ).wakeOne s.pc o u :=
        Function.update_of_ne hu _ _
      rw [hother]
      cases o with
      | none => exact Or.inl rfl
      | some v =>
          by_cases huv : u = v
          · subst huv
            obtain ⟨op', hop⟩ := sleepers_asleep.mp he.2
            exact Or.inr ⟨op', hop, by simp [CondVar.wakeOne, hop, sleepers]⟩
          · exact Or.inl (Function.update_of_ne huv _ _)
  | notifyAll t op r =>
      have hother : (s.next M (.notifyAll t op r)).pc u = (sleepers Op ρ).wakeAll s.pc u :=
        Function.update_of_ne hu _ _
      rw [hother]
      cases hs : (sleepers Op ρ).asleep (s.pc u) with
      | false => exact Or.inl (CondVar.wakeAll_of_awake hs)
      | true =>
          obtain ⟨op', hop⟩ := sleepers_asleep.mp hs
          refine Or.inr ⟨op', hop, ?_⟩
          rw [CondVar.wakeAll_of_asleep hs, hop]
          rfl
  | _ => exact Or.inl (Function.update_of_ne hu _ _)

theorem next_core {M : Object σ Op ρ} {s : State ι σ Op ρ} {e : Event ι Op ρ} :
    (s.next M e).core = s.core ∨
      (∃ t op, e = .body t op ∧ (s.next M e).core = (M.body op s.core).core s.core) ∨
      (∃ t op, e = .again t op ∧ (s.next M e).core = (M.again op s.core).core s.core) := by
  cases e with
  | body t op => exact Or.inr (Or.inl ⟨t, op, rfl, finish_core s t op _⟩)
  | again t op => exact Or.inr (Or.inr ⟨t, op, rfl, finish_core s t op _⟩)
  | _ => exact Or.inl rfl

/-- A thread-local invariant: it survives being woken, and every event re-establishes
it for the thread that moves. -/
theorem local_invariant {M : Object σ Op ρ} {c : σ} {J : Pc Op ρ → Prop} (hidle : J .idle)
    (hwoken : ∀ op, J (.asleep op) → J (.woken op))
    (hmove : ∀ (s : State ι σ Op ρ) (e : Event ι Op ρ), s.enabled M e → J e.source →
      J (e.target M s.core))
    {s : State ι σ Op ρ} (h : (machine ι M c).Reachable s) (t : ι) : J (s.pc t) := by
  refine h.invariant (I := fun s => ∀ t, J (s.pc t)) ?_ ?_ t
  · rintro s rfl t
    exact hidle
  · intro s e _ he hs u
    show J ((s.next M e).pc u)
    by_cases hu : u = e.thread
    · subst hu
      rw [next_pc_self]
      exact hmove s e he (enabled_source (M := M) he ▸ hs e.thread)
    · rcases next_pc_of_ne (M := M) he hu with hsame | ⟨op, hold, hnew⟩
      · rw [hsame]; exact hs u
      · rw [hnew]; exact hwoken op (hold ▸ hs u)

theorem Outcome.pc_op (op : Op) (o : Outcome σ ρ) : (o.pc op).op = some op := by
  cases o with
  | done c r n => exact Signal.pc_op op r n
  | block => rfl

/-- The operation of a thread is fixed by its calls and returns: nothing that
happens inside an operation changes it, for the thread itself or for another. -/
theorem inner_op {M : Object σ Op ρ} {s : State ι σ Op ρ} {e : Event ι Op ρ}
    (he : s.enabled M e) (hi : e.inner = true) (t : ι) :
    ((s.next M e).pc t).op = (s.pc t).op := by
  by_cases ht : t = e.thread
  · subst ht
    rw [next_pc_self, enabled_source he]
    cases e with
    | call | ret => cases hi
    | body t op => exact Outcome.pc_op op _
    | again t op => exact Outcome.pc_op op _
    | _ => rfl
  · rcases next_pc_of_ne he ht with hsame | ⟨op, hold, hnew⟩
    · rw [hsame]
    · rw [hold, hnew]
      rfl

/-! ## Who waits, and what is signalled

Only an operation whose body can block is ever asleep, woken or resumed, and a
notification or a result on its way was left by a critical section of that
operation, or by a refused mutex. -/

/-- The operation a thread waits in, from going to sleep to running again. -/
def Pc.waiting : Pc Op ρ → Option Op
  | .asleep op | .woken op | .rechecking op => some op
  | _ => none

/-- The operations whose body can find its predicate false. -/
def Object.Blocks (M : Object σ Op ρ) (op : Op) : Prop := ∃ c, M.body op c = .block

/-- Some critical section of `op` ends with result `r` and leaves signal `n`. -/
def Object.Emits (M : Object σ Op ρ) (op : Op) (r : ρ) (n : Signal) : Prop :=
  ∃ c c', M.body op c = .done c' r n ∨ M.again op c = .done c' r n

/-- What a program counter presupposes. -/
def Pc.Sound (M : Object σ Op ρ) : Pc Op ρ → Prop
  | .asleep op | .woken op | .rechecking op => M.Blocks op
  | .notifyOne op r => M.Emits op r .one
  | .notifyAll op r => M.Emits op r .all
  | .returned op r => M.refusal op = some r ∨ ∃ n, M.Emits op r n
  | _ => True

theorem Signal.pc_sound {M : Object σ Op ρ} {op : Op} {r : ρ} {n : Signal}
    (h : M.Emits op r n) : (n.pc op r : Pc Op ρ).Sound M := by
  cases n with
  | none => exact Or.inr ⟨_, h⟩
  | one => exact h
  | all => exact h

theorem pc_sound {M : Object σ Op ρ} {c : σ} {s : State ι σ Op ρ}
    (h : (machine ι M c).Reachable s) (t : ι) : (s.pc t).Sound M := by
  refine local_invariant (M := M) trivial (fun op hop => hop) (fun s e he hsrc => ?_) h t
  cases e with
  | call | lock | ret => trivial
  | refuse t op r => exact Or.inl he.2
  | body t op =>
      simp only [Event.target]
      cases ho : M.body op s.core with
      | done c r n => exact Signal.pc_sound ⟨s.core, c, Or.inl ho⟩
      | block => exact ⟨s.core, ho⟩
  | notifyOne t op r o => exact Or.inr ⟨_, hsrc⟩
  | notifyAll t op r => exact Or.inr ⟨_, hsrc⟩
  | spurious t op => exact hsrc
  | relock t op => exact hsrc
  | again t op =>
      simp only [Event.target]
      cases ho : M.again op s.core with
      | done c r n => exact Signal.pc_sound ⟨s.core, c, Or.inr ho⟩
      | block => exact hsrc

theorem waiting_blocks {M : Object σ Op ρ} {p : Pc Op ρ} (h : p.Sound M) {op : Op}
    (hp : p.waiting = some op) : M.Blocks op := by
  cases p with
  | asleep | woken | rechecking => cases hp; exact h
  | _ => cases hp

/-! ## Sleepers are covered

The work an object holds is what its sleepers are waiting for.  While somebody
sleeps, every unit of it is answered for: by a notification still to be issued,
or by a woken thread still to run.  A thread goes to sleep only when there is
no work, a notification that finds nobody asleep has nobody to serve, and one
that does turns a pending notification into a woken thread; so the balance is
never lost.  An object that is shut serves everybody, and says so to all. -/

def Signal.weight : Signal → ℕ
  | .one => 1
  | _ => 0

/-- What a thread answers for: one unit, if it is about to notify or was woken. -/
def due : Pc Op ρ → ℕ
  | .notifyOne _ _ | .woken _ | .rechecking _ => 1
  | _ => 0

theorem due_signal (op : Op) (r : ρ) (n : Signal) : due (n.pc op r) = n.weight := by
  cases n <;> rfl

/-- A measure of the work an object holds under which its notifications are honest. -/
structure Supply (M : Object σ Op ρ) where
  work : σ → ℕ
  shut : σ → Prop
  body_block : ∀ op c, M.body op c = .block → ¬ shut c ∧ work c = 0
  again_block : ∀ op c, M.Blocks op → M.again op c = .block → ¬ shut c ∧ work c = 0
  body_done : ∀ op c c' r n, M.body op c = .done c' r n → n ≠ .all → ¬ shut c →
    ¬ shut c' ∧ work c' ≤ work c + n.weight
  again_done : ∀ op c c' r n, M.Blocks op → M.again op c = .done c' r n → n ≠ .all →
    ¬ shut c → ¬ shut c' ∧ work c' + 1 ≤ work c + n.weight

/-- Somebody is asleep. -/
def State.Asleep (s : State ι σ Op ρ) : Prop := ∃ t op, s.pc t = .asleep op

/-- A `notify_all` is still to be issued. -/
def State.Announced (s : State ι σ Op ρ) : Prop := ∃ t op r, s.pc t = .notifyAll op r

/-- While somebody sleeps, everybody is about to be woken or the work is answered for. -/
def Supply.Covered {M : Object σ Op ρ} (S : Supply M) (s : State ι σ Op ρ) : Prop :=
  ∃ T : Finset ι, (∀ t, t ∉ T → s.pc t = .idle) ∧
    (s.Asleep → s.Announced ∨ (¬ S.shut s.core ∧ S.work s.core ≤ tally due s.pc T))

variable {M : Object σ Op ρ} {S : Supply M}

/-- A step of one thread keeps the balance when what it adds to the work it also
adds to what it answers for; it may go to sleep only when there is no work. -/
theorem Supply.Covered.update {s : State ι σ Op ρ} (h : S.Covered s) {t : ι} {c' : σ} {l' : Bool}
    {p' : Pc Op ρ} (hall : ∀ op r, s.pc t ≠ .notifyAll op r)
    (hsleep : ∀ op, p' = .asleep op → ¬ S.shut c' ∧ S.work c' = 0)
    (hbal : ¬ S.shut s.core → (∃ op r, p' = .notifyAll op r) ∨ (∃ op, p' = .asleep op) ∨
      (¬ S.shut c' ∧ S.work c' + due (s.pc t) ≤ S.work s.core + due p')) :
    S.Covered ⟨c', l', Function.update s.pc t p'⟩ := by
  obtain ⟨T, hT, hcov⟩ := h
  refine ⟨insert t T, ?_, ?_⟩
  · intro u hu
    rw [Finset.mem_insert, not_or] at hu
    simp only [Function.update_of_ne hu.1]
    exact hT u hu.2
  · rintro ⟨u, op, hu⟩
    by_cases hut : u = t
    · subst hut
      simp only [Function.update_self] at hu
      obtain ⟨hshut, hzero⟩ := hsleep op hu
      exact Or.inr ⟨hshut, by simp [hzero]⟩
    · simp only [Function.update_of_ne hut] at hu
      rcases hcov ⟨u, op, hu⟩ with ⟨k, op', r, hk⟩ | ⟨hopen, hle⟩
      · have hkt : k ≠ t := by
          rintro rfl
          exact hall op' r hk
        exact Or.inl ⟨k, op', r, by simp only [Function.update_of_ne hkt, hk]⟩
      · rcases hbal hopen with ⟨op', r, hp⟩ | ⟨op', hp⟩ | ⟨hopen', hwork⟩
        · exact Or.inl ⟨t, op', r, by simp [hp]⟩
        · obtain ⟨hshut, hzero⟩ := hsleep op' hp
          exact Or.inr ⟨hshut, by simp [hzero]⟩
        · have hins : tally due s.pc (insert t T) = tally due s.pc T := by
            by_cases ht : t ∈ T
            · rw [Finset.insert_eq_of_mem ht]
            · exact tally_insert_zero (by rw [hT t ht]; rfl)
          have hupd := tally_update (w := due) (f := s.pc) (Finset.mem_insert_self t T) p'
          exact Or.inr ⟨hopen', by simp only; omega⟩

theorem Supply.Covered.finish {s : State ι σ Op ρ} (h : S.Covered s) {t : ι} {op : Op}
    {o : Outcome σ ρ} (hall : ∀ op r, s.pc t ≠ .notifyAll op r)
    (hblock : o = .block → ¬ S.shut s.core ∧ S.work s.core = 0)
    (hdone : ∀ c r n, o = .done c r n → n ≠ .all → ¬ S.shut s.core →
      ¬ S.shut c ∧ S.work c + due (s.pc t) ≤ S.work s.core + n.weight) :
    S.Covered (s.finish t op o) := by
  cases o with
  | block =>
      refine h.update hall (fun _ _ => hblock rfl) (fun _ => ?_)
      exact Or.inr (Or.inl ⟨op, rfl⟩)
  | done c r n =>
      refine h.update hall (fun op' hp => by cases n <;> cases hp) (fun hopen => ?_)
      by_cases hn : n = .all
      · subst hn
        exact Or.inl ⟨op, r, rfl⟩
      · rw [due_signal]
        exact Or.inr (Or.inr (hdone c r n rfl hn hopen))

theorem Supply.Covered.setPc {s : State ι σ Op ρ} (h : S.Covered s) {t : ι} {l' : Bool}
    {p' : Pc Op ρ} (hall : ∀ op r, s.pc t ≠ .notifyAll op r) (hsleep : ∀ op, p' ≠ .asleep op)
    (hdue : due (s.pc t) ≤ due p') :
    S.Covered ⟨s.core, l', Function.update s.pc t p'⟩ :=
  h.update hall (fun op hp => absurd hp (hsleep op))
    (fun hopen => Or.inr (Or.inr ⟨hopen, by omega⟩))

/-- Issuing a `notify_one`: the unit it answered for passes to the thread it woke. -/
theorem Supply.Covered.notifyOne {s : State ι σ Op ρ} (h : S.Covered s) {t : ι} {op : Op} {r : ρ}
    {o : Option ι} (ht : s.pc t = .notifyOne op r) (ho : (sleepers Op ρ).Target s.pc o) :
    S.Covered (s.next M (.notifyOne t op r o)) := by
  have hawake : (sleepers Op ρ).asleep (s.pc t) = false := by rw [ht]; rfl
  have hpc : (sleepers Op ρ).wakeOne s.pc o t = s.pc t := CondVar.wakeOne_of_awake ho hawake
  cases o with
  | none =>
      -- nobody sleeps, so there is nothing to balance
      obtain ⟨T, hT, -⟩ := h
      refine ⟨insert t T, ?_, ?_⟩
      · intro u hu
        rw [Finset.mem_insert, not_or] at hu
        simp only [State.next, CondVar.wakeOne, Function.update_of_ne hu.1]
        exact hT u hu.2
      · rintro ⟨u, op', hu⟩
        by_cases hut : u = t
        · subst hut; simp [State.next] at hu
        · simp only [State.next, CondVar.wakeOne, Function.update_of_ne hut] at hu
          have hno : (sleepers Op ρ).asleep (s.pc u) = false := ho u
          rw [hu] at hno
          cases hno
  | some u =>
      obtain ⟨opu, hu⟩ := sleepers_asleep.mp (show (sleepers Op ρ).asleep (s.pc u) = true from ho)
      have hut : u ≠ t := by
        rintro rfl
        rw [ht] at hu
        cases hu
      obtain ⟨T, hT, hcov⟩ := h
      have huT : u ∈ T := by
        by_contra hno
        rw [hT u hno] at hu
        cases hu
      have htT : t ∈ T := by
        by_contra hno
        rw [hT t hno] at ht
        cases ht
      refine ⟨T, ?_, ?_⟩
      · intro v hv
        have hvt : v ≠ t := by rintro rfl; exact hv htT
        have hvu : v ≠ u := by rintro rfl; exact hv huT
        simp only [State.next, CondVar.wakeOne, Function.update_of_ne hvt,
          Function.update_of_ne hvu]
        exact hT v hv
      · rintro -
        rcases hcov ⟨u, opu, hu⟩ with ⟨k, op', r', hk⟩ | ⟨hopen, hle⟩
        · have hkt : k ≠ t := by rintro rfl; rw [ht] at hk; cases hk
          have hku : k ≠ u := by rintro rfl; rw [hu] at hk; cases hk
          exact Or.inl ⟨k, op', r', by
            simp only [State.next, CondVar.wakeOne, Function.update_of_ne hkt,
              Function.update_of_ne hku, hk]⟩
        · refine Or.inr ⟨hopen, ?_⟩
          have hone := tally_update (w := due) (f := s.pc) huT ((sleepers Op ρ).wake (s.pc u))
          have htwo := tally_update (w := due) (f := (sleepers Op ρ).wakeOne s.pc (some u)) htT
            (.returned op r)
          rw [hpc, ht] at htwo
          rw [hu] at hone
          simp only [State.next, CondVar.wakeOne, hu] at htwo ⊢
          have h1 : due (.asleep opu : Pc Op ρ) = 0 := rfl
          have h2 : due ((sleepers Op ρ).wake (.asleep opu)) = 1 := rfl
          have h3 : due (.notifyOne op r : Pc Op ρ) = 1 := rfl
          have h4 : due (.returned op r : Pc Op ρ) = 0 := rfl
          omega

theorem Supply.Covered.notifyAll {s : State ι σ Op ρ} (h : S.Covered s) {t : ι} {op : Op} {r : ρ}
    (ht : s.pc t = .notifyAll op r) :
    S.Covered (s.next M (.notifyAll t op r)) := by
  obtain ⟨T, hT, -⟩ := h
  refine ⟨T, ?_, ?_⟩
  · intro u hu
    have hidle := hT u hu
    have hut : u ≠ t := by rintro rfl; rw [ht] at hidle; cases hidle
    simp only [State.next, Function.update_of_ne hut]
    rw [CondVar.wakeAll_of_awake (by rw [hidle]; rfl), hidle]
  · rintro ⟨u, op', hu⟩
    by_cases hut : u = t
    · subst hut; simp [State.next] at hu
    · simp only [State.next, Function.update_of_ne hut] at hu
      have hno := (sleepers Op ρ).wakeAll_awake s.pc u
      rw [hu] at hno
      cases hno

theorem Supply.Covered.next {s : State ι σ Op ρ} (h : S.Covered s) (hw : ∀ t, (s.pc t).Sound M)
    {e : Event ι Op ρ} (he : s.enabled M e) : S.Covered (s.next M e) := by
  cases e with
  | call t op =>
      have hpc : s.pc t = .idle := he
      exact h.setPc (by simp [hpc]) (by simp) (by simp [hpc, due])
  | lock t op =>
      have hpc := he.1
      exact h.setPc (by simp [hpc]) (by simp) (by simp [hpc, due])
  | refuse t op r =>
      have hpc := he.1
      exact h.setPc (by simp [hpc]) (by simp) (by simp [hpc, due])
  | body t op =>
      have hpc : s.pc t = .holding op := he
      refine h.finish (by simp [hpc]) (S.body_block op s.core) (fun c r n ho hn hopen => ?_)
      rw [hpc]
      exact S.body_done op s.core c r n ho hn hopen
  | notifyOne t op r u => exact h.notifyOne he.1 he.2
  | notifyAll t op r => exact h.notifyAll he
  | spurious t op =>
      have hpc : s.pc t = .asleep op := he
      exact h.setPc (by simp [hpc]) (by simp) (by simp [hpc, due])
  | relock t op =>
      have hpc := he.1
      exact h.setPc (by simp [hpc]) (by simp) (by simp [hpc, due])
  | again t op =>
      have hpc : s.pc t = .rechecking op := he
      have hop : M.Blocks op := waiting_blocks (hw t) (by rw [hpc]; rfl)
      refine h.finish (by simp [hpc]) (S.again_block op s.core hop) (fun c r n ho hn hopen => ?_)
      rw [hpc]
      exact S.again_done op s.core c r n hop ho hn hopen
  | ret t op r =>
      have hpc : s.pc t = .returned op r := he
      exact h.setPc (by simp [hpc]) (by simp) (by simp [hpc, due])

omit [DecidableEq ι] in
theorem Supply.covered_initial (c : σ) : S.Covered (State.initial c : State ι σ Op ρ) :=
  ⟨∅, fun _ _ => rfl, fun ⟨_, _, h⟩ => nomatch h⟩

/-- **Sleepers are covered** in every state the threads of a monitor can reach. -/
theorem Supply.covered {c : σ} {s : State ι σ Op ρ} (h : (machine ι M c).Reachable s) :
    S.Covered s :=
  h.invariant (fun s hs => by rw [show s = State.initial c from hs]; exact S.covered_initial c)
    (fun _ _ hr he hs => hs.next (pc_sound hr) he)

omit [DecidableEq ι] in
/-- Once every notification has been issued and every woken thread has run, a
sleeper means that the object is open and holds no work. -/
theorem Supply.Covered.settled {s : State ι σ Op ρ} (h : S.Covered s) (hs : s.Asleep)
    (hall : ¬ s.Announced) (hdue : ∀ t, due (s.pc t) = 0) :
    ¬ S.shut s.core ∧ S.work s.core = 0 := by
  obtain ⟨T, -, hcov⟩ := h
  rcases hcov hs with ha | ⟨hopen, hle⟩
  · exact absurd ha hall
  · rw [tally_eq_zero fun t _ => hdue t] at hle
    exact ⟨hopen, by omega⟩

omit [DecidableEq ι] in
/-- With work in an open object and a sleeper, some thread answers for it. -/
theorem Supply.Covered.answered {s : State ι σ Op ρ} (h : S.Covered s) (hs : s.Asleep)
    (hall : ¬ s.Announced) (hwork : 0 < S.work s.core) : ∃ t, 0 < due (s.pc t) := by
  obtain ⟨T, -, hcov⟩ := h
  rcases hcov hs with ha | ⟨-, hle⟩
  · exact absurd ha hall
  · obtain ⟨t, -, ht⟩ := exists_of_tally_pos (show 0 < tally due s.pc T by omega)
    exact ⟨t, ht⟩

end Monitor

end Jar.Lib
