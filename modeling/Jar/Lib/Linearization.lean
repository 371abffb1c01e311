/-
# `Jar.Lib.Linearization` — the sections of a monitor, in their order

A run of a monitor interleaves the steps of many operations, but every operation
takes effect at one of them: the critical section that decides its result, or
the refusal of the mutex.  `sections` lists these points in the order of the
run, each with the state it found, the result it decided and the state it left.

* `linked` — the list is a sequential execution of the object, from the state the
  monitor starts in to the state it has reached: no step in between counts;
* `decided_eq` and `called_eq` — seen from one thread, the list lies between the
  calls and the returns: what has returned was decided, in the order of the
  returns, and what was decided had been called.  Both hold after every prefix
  of the run, so each point lies between its call and its return.
-/
import Jar.Lib.Monitor

namespace Jar.Lib

namespace Monitor

/-- The point at which an operation takes effect. -/
structure Section (ι σ Op ρ : Type*) where
  thread : ι
  op : Op
  before : σ
  result : ρ
  after : σ

variable {ι σ Op ρ : Type*}

/-- A section that blocks decides nothing. -/
def Outcome.decides (t : ι) (op : Op) (c : σ) : Outcome σ ρ → Option (Section ι σ Op ρ)
  | .done c' r _ => some ⟨t, op, c, r, c'⟩
  | .block => none

/-- The section a step completes, if it completes one. -/
def Event.decides (M : Object σ Op ρ) (c : σ) : Event ι Op ρ → Option (Section ι σ Op ρ)
  | .refuse t op r => some ⟨t, op, c, r, c⟩
  | .body t op => (M.body op c).decides t op c
  | .again t op => (M.again op c).decides t op c
  | _ => none

/-- One operation of the object, taken as a whole. -/
inductive Object.Does (M : Object σ Op ρ) (op : Op) (c : σ) (r : ρ) : σ → Prop
  | refused : M.refusal op = some r → M.Does op c r c
  | completed {c' : σ} {n : Signal} : M.body op c = .done c' r n → M.Does op c r c'
  | resumed {c' : σ} {n : Signal} : M.again op c = .done c' r n → M.Does op c r c'

/-- The sections follow one another: each is an operation of the object and starts
where the one before it ended. -/
def Linked (M : Object σ Op ρ) : σ → List (Section ι σ Op ρ) → σ → Prop
  | c, [], c' => c = c'
  | c, a :: as, c' => a.before = c ∧ M.Does a.op a.before a.result a.after ∧ Linked M a.after as c'

theorem Linked.append {M : Object σ Op ρ} {c c' c'' : σ} {as bs : List (Section ι σ Op ρ)}
    (h : Linked M c as c') (h' : Linked M c' bs c'') : Linked M c (as ++ bs) c'' := by
  induction as generalizing c with
  | nil =>
      obtain rfl : c = c' := h
      exact h'
  | cons a as ih => exact ⟨h.1, h.2.1, ih h.2.2⟩

theorem Linked.split {M : Object σ Op ρ} {c c'' : σ} {as bs : List (Section ι σ Op ρ)}
    (h : Linked M c (as ++ bs) c'') : ∃ c', Linked M c as c' ∧ Linked M c' bs c'' := by
  induction as generalizing c with
  | nil => exact ⟨c, rfl, h⟩
  | cons a as ih =>
      obtain ⟨c', has, hbs⟩ := ih h.2.2
      exact ⟨c', ⟨h.1, h.2.1, has⟩, hbs⟩

theorem Linked.does {M : Object σ Op ρ} {c c' : σ} {as : List (Section ι σ Op ρ)}
    (h : Linked M c as c') : ∀ a ∈ as, M.Does a.op a.before a.result a.after := by
  induction as generalizing c with
  | nil => exact fun a ha => by cases ha
  | cons b as ih =>
      intro a ha
      rcases List.mem_cons.mp ha with rfl | ha
      · exact h.2.1
      · exact ih h.2.2 a ha

theorem Outcome.decides_does {M : Object σ Op ρ} {t : ι} {op : Op} {c : σ} {o : Outcome σ ρ}
    (h : ∀ c' r n, o = .done c' r n → M.Does op c r c') :
    Linked M c (o.decides t op c).toList (o.core c) := by
  cases o with
  | block => rfl
  | done c' r n => exact ⟨rfl, h c' r n rfl, rfl⟩

variable [DecidableEq ι]

theorem decides_linked {M : Object σ Op ρ} {s : State ι σ Op ρ} {e : Event ι Op ρ}
    (he : s.enabled M e) : Linked M s.core (e.decides M s.core).toList (s.next M e).core := by
  cases e with
  | refuse t op r => exact ⟨rfl, .refused he.2, rfl⟩
  | body t op =>
      rw [show (s.next M (.body t op)).core = (M.body op s.core).core s.core from
        finish_core s t op _]
      exact Outcome.decides_does fun c' r n h => .completed h
  | again t op =>
      rw [show (s.next M (.again t op)).core = (M.again op s.core).core s.core from
        finish_core s t op _]
      exact Outcome.decides_does fun c' r n h => .resumed h
  | _ => rfl

/-! ## The sections of a run

The critical sections that decide the result of an operation come one after the other,
each in the state that the one before has left.  That list is the order in which the
operations take effect. -/

/-- The sections of a run, in their order. -/
def sections (M : Object σ Op ρ) : State ι σ Op ρ → List (Event ι Op ρ) → List (Section ι σ Op ρ)
  | _, [] => []
  | s, e :: es => (e.decides M s.core).toList ++ sections M (s.next M e) es

variable {M : Object σ Op ρ} {c : σ} {s : State ι σ Op ρ} {e : Event ι Op ρ}
  {es : List (Event ι Op ρ)}

theorem sections_append {fs : List (Event ι Op ρ)} :
    sections M s (es ++ fs) = sections M s es ++ sections M ((machine ι M c).after s es) fs := by
  induction es generalizing s with
  | nil => rfl
  | cons e es ih =>
      rw [List.cons_append, sections, sections, ih, List.append_assoc]
      rfl

theorem sections_snoc : sections M s (es ++ [e]) =
    sections M s es ++ (e.decides M ((machine ι M c).after s es).core).toList := by
  rw [sections_append (c := c), sections, sections, List.append_nil]

/-- **The sections of a run are a sequential execution of the object.** -/
theorem linked (h : (machine ι M c).Run s es) :
    Linked M s.core (sections M s es) ((machine ι M c).after s es).core := by
  induction es generalizing s with
  | nil => rfl
  | cons e es ih => exact (decides_linked h.1).append (ih h.2)

/-! ## Calls, sections and returns of one thread

A thread calls an operation, decides it and returns from it, in this order, and begins
the next one only then.  So what it has called, decided and returned are three lists
of which each is a prefix of the one before, and lags behind by one operation at most;
a thread that does not move adds to none of them. -/

/-- The operation a step calls, if it is a call of thread `t`. -/
def Event.calls (t : ι) : Event ι Op ρ → Option Op
  | .call u op => if u = t then some op else none
  | _ => none

/-- The operation a step returns from, if it is a return of thread `t`. -/
def Event.returns (t : ι) : Event ι Op ρ → Option (Op × ρ)
  | .ret u op r => if u = t then some (op, r) else none
  | _ => none

/-- What a section decides, if it is one of thread `t`. -/
def Section.decidedBy (t : ι) (a : Section ι σ Op ρ) : Option (Op × ρ) :=
  if a.thread = t then some (a.op, a.result) else none

/-- The operations a thread has called. -/
def called (t : ι) (es : List (Event ι Op ρ)) : List Op := es.filterMap (Event.calls t)

/-- The operations a thread has returned from, with their results. -/
def returned (t : ι) (es : List (Event ι Op ρ)) : List (Op × ρ) := es.filterMap (Event.returns t)

/-- The operations of a thread that have taken effect, with their results. -/
def decided (t : ι) (as : List (Section ι σ Op ρ)) : List (Op × ρ) :=
  as.filterMap (Section.decidedBy t)

/-- An operation that has taken effect and not yet returned. -/
def Pc.decided : Pc Op ρ → List (Op × ρ)
  | .notifyOne op r | .notifyAll op r | .returned op r => [(op, r)]
  | _ => []

/-- An operation that has been called and has not yet taken effect. -/
def Pc.undecided : Pc Op ρ → List Op
  | .calling op | .holding op | .asleep op | .woken op | .rechecking op => [op]
  | _ => []

@[simp] theorem Signal.pc_decided (op : Op) (r : ρ) (n : Signal) :
    (n.pc op r).decided = [(op, r)] := by
  cases n <;> rfl

@[simp] theorem Signal.pc_undecided (op : Op) (r : ρ) (n : Signal) :
    (n.pc op r).undecided = [] := by
  cases n <;> rfl

theorem called_append (t : ι) (es fs : List (Event ι Op ρ)) :
    called t (es ++ fs) = called t es ++ called t fs := List.filterMap_append

theorem returned_append (t : ι) (es fs : List (Event ι Op ρ)) :
    returned t (es ++ fs) = returned t es ++ returned t fs := List.filterMap_append

theorem decided_append (t : ι) (as bs : List (Section ι σ Op ρ)) :
    decided t (as ++ bs) = decided t as ++ decided t bs := List.filterMap_append

theorem Outcome.decides_self (t : ι) (op : Op) (o : Outcome σ ρ) :
    decided t (o.decides t op c).toList = (o.pc op).decided ∧
      (decided t (o.decides t op c).toList).map Prod.fst ++ (o.pc op).undecided = [op] := by
  cases o with
  | block => exact ⟨rfl, rfl⟩
  | done c' r n => simp [Outcome.decides, Outcome.pc, decided, Section.decidedBy]

omit [DecidableEq ι] in
theorem decides_thread {a : Section ι σ Op ρ} (h : e.decides M c = some a) :
    a.thread = e.thread := by
  have hout : ∀ {t : ι} {op : Op} {o : Outcome σ ρ}, o.decides t op c = some a → a.thread = t := by
    intro t op o ho
    cases o with
    | block => cases ho
    | done c' r n => cases ho; rfl
  cases e with
  | refuse t op r => cases h; rfl
  | body t op => exact hout h
  | again t op => exact hout h
  | _ => cases h

theorem others_nothing {t : ι} (ht : e.thread ≠ t) :
    called t [e] = [] ∧ decided t (e.decides M c).toList = [] ∧ returned t [e] = [] := by
  refine ⟨List.filterMap_eq_nil_iff.mpr ?_, List.filterMap_eq_nil_iff.mpr ?_,
    List.filterMap_eq_nil_iff.mpr ?_⟩
  · intro f hf
    rw [List.mem_singleton.mp hf]
    cases e with
    | call u op => exact if_neg ht
    | _ => rfl
  · intro a ha
    rw [Option.mem_toList] at ha
    exact if_neg (decides_thread ha ▸ ht)
  · intro f hf
    rw [List.mem_singleton.mp hf]
    cases e with
    | ret u op r => exact if_neg ht
    | _ => rfl

theorem others_pc (he : s.enabled M e) {t : ι} (ht : t ≠ e.thread) :
    ((s.next M e).pc t).decided = (s.pc t).decided ∧
      ((s.next M e).pc t).undecided = (s.pc t).undecided := by
  rcases next_pc_of_ne he ht with hsame | ⟨op, hold, hnew⟩
  · rw [hsame]
    exact ⟨rfl, rfl⟩
  · rw [hold, hnew]
    exact ⟨rfl, rfl⟩

theorem decided_step (he : s.enabled M e) (t : ι) :
    (s.pc t).decided ++ decided t (e.decides M s.core).toList =
      returned t [e] ++ ((s.next M e).pc t).decided := by
  rcases eq_or_ne t e.thread with rfl | ht
  · rw [next_pc_self, enabled_source he]
    cases e with
    | body t op => exact (Outcome.decides_self t op _).1
    | again t op => exact (Outcome.decides_self t op _).1
    | refuse t op r => simp [Event.decides, Event.thread, Event.source, Event.target, decided,
        Section.decidedBy, returned, Event.returns, Pc.decided]
    | ret t op r => simp [Event.decides, Event.thread, Event.source, Event.target, decided,
        returned, Event.returns, Pc.decided]
    | _ => rfl
  · obtain ⟨-, hdec, hret⟩ := others_nothing (M := M) (c := s.core) ht.symm
    rw [hdec, hret, (others_pc he ht).1, List.append_nil, List.nil_append]

theorem undecided_step (he : s.enabled M e) (t : ι) :
    (s.pc t).undecided ++ called t [e] =
      (decided t (e.decides M s.core).toList).map Prod.fst ++ ((s.next M e).pc t).undecided := by
  rcases eq_or_ne t e.thread with rfl | ht
  · rw [next_pc_self, enabled_source he]
    cases e with
    | body t op => exact (Outcome.decides_self t op _).2.symm
    | again t op => exact (Outcome.decides_self t op _).2.symm
    | refuse t op r => simp [Event.decides, Event.thread, Event.source, Event.target, decided,
        Section.decidedBy, called, Event.calls, Pc.undecided]
    | call t op => simp [Event.decides, Event.thread, Event.source, Event.target, decided,
        called, Event.calls, Pc.undecided]
    | _ => rfl
  · obtain ⟨hcall, hdec, -⟩ := others_nothing (M := M) (c := s.core) ht.symm
    rw [hdec, hcall, (others_pc he ht).2, List.append_nil, List.map_nil, List.nil_append]

/-- **What a thread has returned was decided, in that order**, and at most one
operation is decided and still to return. -/
theorem decided_eq (h : (machine ι M c).Run (State.initial c) es) (t : ι) :
    decided t (sections M (State.initial c) es) =
      returned t es ++ (((machine ι M c).after (State.initial c) es).pc t).decided := by
  refine h.history (I := fun es s =>
    decided t (sections M (State.initial c) es) = returned t es ++ (s.pc t).decided) rfl ?_
  intro es e _ he ih
  rw [sections_snoc (c := c), decided_append, ih, List.append_assoc, decided_step he,
    returned_append, List.append_assoc]
  rfl

/-- **What a thread has decided was called, in that order**, and at most one operation
is called and still to decide. -/
theorem called_eq (h : (machine ι M c).Run (State.initial c) es) (t : ι) :
    called t es = (decided t (sections M (State.initial c) es)).map Prod.fst ++
      (((machine ι M c).after (State.initial c) es).pc t).undecided := by
  refine h.history (I := fun es s => called t es =
    (decided t (sections M (State.initial c) es)).map Prod.fst ++ (s.pc t).undecided) rfl ?_
  intro es e _ he ih
  rw [sections_snoc (c := c), decided_append, List.map_append, called_append, ih,
    List.append_assoc, undecided_step he, List.append_assoc]
  rfl

end Monitor

end Jar.Lib
