/-
# `Jar.Lib.Client` — a program whose threads use a family of monitors

A program with several monitor objects is described in two parts.  The control
part says where each of its threads stands and which calls it makes: a step of
control is silent, calls an operation on one object, or takes the result of a
returned one.  The objects are monitors.  The composed machine runs both, and
the steps inside an operation belong to the object alone.

    control   ──call q op──▸             ──ret q op r──▸
    object q       calling ▸ holding ▸ … ▸ returned

Two facts connect the parts and are proved for every client:

* `refines` — seen from object `q`, a run of the program is a run of threads on
  that monitor, so every fact about monitors holds of each object;
* `bound` — a thread is inside an operation of object `q` exactly when its
  control says so (`site`).
-/
import Jar.Lib.Monitor

namespace Jar.Lib

/-- What a step of control does to the objects. -/
inductive Act (K A Op ρ : Type*) where
  | silent
  | call (q : K) (t : A) (op : Op)
  | ret (q : K) (t : A) (op : Op) (r : ρ)

/-- The control part of a program with objects `K` and threads `A`. -/
structure Client (K A Op ρ χ η : Type*) where
  Init : χ → Prop
  guard : χ → η → Prop
  step : χ → η → χ
  act : χ → η → Act K A Op ρ
  site : χ → A → Option (K × Op)

namespace Client

variable {K A σ Op ρ χ η : Type*}

/-- A call puts the calling thread at the object, a return takes it away, and
nothing else moves a thread. -/
structure Lawful (P : Client K A Op ρ χ η) : Prop where
  init : ∀ c t, P.Init c → P.site c t = none
  silent : ∀ c e, P.guard c e → P.act c e = .silent → ∀ u, P.site (P.step c e) u = P.site c u
  call : ∀ c e q t op, P.guard c e → P.act c e = .call q t op → P.site c t = none ∧
    P.site (P.step c e) t = some (q, op) ∧ ∀ u, u ≠ t → P.site (P.step c e) u = P.site c u
  ret : ∀ c e q t op r, P.guard c e → P.act c e = .ret q t op r →
    P.site (P.step c e) t = none ∧ ∀ u, u ≠ t → P.site (P.step c e) u = P.site c u

/-- Control and objects together. -/
structure State (K A σ Op ρ χ : Type*) where
  ctl : χ
  obj : K → Monitor.State A σ Op ρ

/-- A step of control, or a step inside an operation on one object. -/
inductive Event (K A Op ρ η : Type*) where
  | ctl (e : η)
  | inner (q : K) (e : Monitor.Event A Op ρ)

variable [DecidableEq K] [DecidableEq A]

/-- The objects after an act of control. -/
def applyAct (M : Monitor.Object σ Op ρ) (f : K → Monitor.State A σ Op ρ) :
    Act K A Op ρ → K → Monitor.State A σ Op ρ
  | .silent => f
  | .call q t op => Function.update f q ((f q).next M (.call t op))
  | .ret q t op r => Function.update f q ((f q).next M (.ret t op r))

/-- An act is possible when the object is ready for it. -/
def actEnabled (M : Monitor.Object σ Op ρ) (f : K → Monitor.State A σ Op ρ) :
    Act K A Op ρ → Prop
  | .silent => True
  | .call q t op => (f q).enabled M (.call t op)
  | .ret q t op r => (f q).enabled M (.ret t op r)

def enabled (P : Client K A Op ρ χ η) (M : Monitor.Object σ Op ρ)
    (s : State K A σ Op ρ χ) : Event K A Op ρ η → Prop
  | .ctl e => P.guard s.ctl e ∧ actEnabled M s.obj (P.act s.ctl e)
  | .inner q e => e.inner = true ∧ (s.obj q).enabled M e

def next (P : Client K A Op ρ χ η) (M : Monitor.Object σ Op ρ)
    (s : State K A σ Op ρ χ) : Event K A Op ρ η → State K A σ Op ρ χ
  | .ctl e => ⟨P.step s.ctl e, applyAct M s.obj (P.act s.ctl e)⟩
  | .inner q e => { s with obj := Function.update s.obj q ((s.obj q).next M e) }

/-- The program over objects that all start in state `c`. -/
def machine (P : Client K A Op ρ χ η) (M : Monitor.Object σ Op ρ) (c : σ) :
    Machine (State K A σ Op ρ χ) (Event K A Op ρ η) where
  Init s := P.Init s.ctl ∧ s.obj = fun _ => Monitor.State.initial c
  Enabled := P.enabled M
  next := P.next M

instance [DecidableEq Op] [DecidableEq ρ] [Fintype A] (M : Monitor.Object σ Op ρ)
    (f : K → Monitor.State A σ Op ρ) (a : Act K A Op ρ) : Decidable (actEnabled M f a) := by
  cases a <;> unfold actEnabled <;> infer_instance

instance [DecidableEq Op] [DecidableEq ρ] [Fintype A] (P : Client K A Op ρ χ η)
    [∀ c e, Decidable (P.guard c e)] (M : Monitor.Object σ Op ρ) (s : State K A σ Op ρ χ)
    (e : Event K A Op ρ η) : Decidable (P.enabled M s e) := by
  cases e <;> unfold enabled <;> infer_instance

variable {P : Client K A Op ρ χ η} {M : Monitor.Object σ Op ρ} {c : σ}

/-! ## Each object sees a run of its own

What an object is shown of a step is the event inside it, or the call or return that
the control makes on it.  So whatever holds of a monitor with any threads holds of
each object here. -/

/-- The part of a step that object `q` sees. -/
def seen (P : Client K A Op ρ χ η) (q : K) (s : State K A σ Op ρ χ) :
    Event K A Op ρ η → Option (Monitor.Event A Op ρ)
  | .inner q' e => if q' = q then some e else none
  | .ctl e =>
      match P.act s.ctl e with
      | .silent => none
      | .call q' t op => if q' = q then some (.call t op) else none
      | .ret q' t op r => if q' = q then some (.ret t op r) else none

theorem next_obj_of_seen_none {q : K} {s : State K A σ Op ρ χ} {e : Event K A Op ρ η}
    (h : P.seen q s e = none) : (P.next M s e).obj q = s.obj q := by
  cases e with
  | inner q' e =>
      have hq : q' ≠ q := by
        rintro rfl
        simp [seen] at h
      exact Function.update_of_ne (Ne.symm hq) _ _
  | ctl e =>
      simp only [seen] at h
      simp only [next]
      cases ha : P.act s.ctl e with
      | silent => rfl
      | call q' t op =>
          have hq : q' ≠ q := by
            rintro rfl
            simp [ha] at h
          exact Function.update_of_ne (Ne.symm hq) _ _
      | ret q' t op r =>
          have hq : q' ≠ q := by
            rintro rfl
            simp [ha] at h
          exact Function.update_of_ne (Ne.symm hq) _ _

theorem next_obj_of_seen_some {q : K} {s : State K A σ Op ρ χ} {e : Event K A Op ρ η}
    {b : Monitor.Event A Op ρ} (he : P.enabled M s e) (h : P.seen q s e = some b) :
    (s.obj q).enabled M b ∧ (P.next M s e).obj q = (s.obj q).next M b := by
  cases e with
  | inner q' e =>
      simp only [seen] at h
      split at h
      · next hq =>
          subst hq
          cases h
          exact ⟨he.2, Function.update_self _ _ _⟩
      · cases h
  | ctl e =>
      obtain ⟨-, hact⟩ := he
      simp only [seen] at h
      simp only [next]
      cases ha : P.act s.ctl e with
      | silent => simp [ha] at h
      | call q' t op =>
          rw [ha] at hact
          simp only [ha] at h
          split at h
          · next hq =>
              subst hq
              cases h
              exact ⟨hact, Function.update_self _ _ _⟩
          · cases h
      | ret q' t op r =>
          rw [ha] at hact
          simp only [ha] at h
          split at h
          · next hq =>
              subst hq
              cases h
              exact ⟨hact, Function.update_self _ _ _⟩
          · cases h

/-- Seen from one object, the program is threads using a monitor. -/
def refines (P : Client K A Op ρ χ η) (M : Monitor.Object σ Op ρ) (c : σ) (q : K) :
    (P.machine M c).Refines (Monitor.machine A M c) where
  view s := s.obj q
  event := P.seen q
  init _ hs := congrFun hs.2 q
  silent _ _ _ h := next_obj_of_seen_none h
  visible _ _ _ he h := next_obj_of_seen_some he h

theorem obj_reachable {s : State K A σ Op ρ χ} (h : (P.machine M c).Reachable s) (q : K) :
    (Monitor.machine A M c).Reachable (s.obj q) :=
  (refines P M c q).reachable h

/-! ## Control knows where its threads are

The places of the threads are kept twice, in the control and in the objects.  That the
two agree is the invariant that a lawful client keeps. -/

/-- A thread is in an operation of an object exactly when its control says so. -/
def Bound (P : Client K A Op ρ χ η) (s : State K A σ Op ρ χ) : Prop :=
  ∀ q t op, ((s.obj q).pc t).op = some op ↔ P.site s.ctl t = some (q, op)

/-- A thread called out of or returned into control moves in one object only. -/
theorem Bound.moved {s : State K A σ Op ρ χ} (h : P.Bound s) {q : K} {t : A}
    {p : Monitor.Pc Op ρ} {χ' : χ}
    (ht : ∀ q' op, P.site χ' t = some (q', op) ↔ q' = q ∧ p.op = some op)
    (hq : ∀ q' op, q' ≠ q → ((s.obj q').pc t).op ≠ some op)
    (hu : ∀ u, u ≠ t → P.site χ' u = P.site s.ctl u) :
    P.Bound ⟨χ', Function.update s.obj q ((s.obj q).setPc t p)⟩ := by
  intro q' u op
  by_cases hut : u = t
  · subst hut
    rw [ht]
    by_cases hqq : q' = q
    · subst hqq
      simp [Monitor.State.setPc]
    · simp only [Function.update_of_ne hqq]
      constructor
      · intro hop
        exact absurd hop (hq q' op hqq)
      · intro hop
        exact absurd hop.1 hqq
  · rw [hu u hut, ← h q' u op]
    by_cases hqq : q' = q
    · subst hqq
      simp [Monitor.State.setPc, hut]
    · simp only [Function.update_of_ne hqq]

theorem Bound.next (hP : P.Lawful) {s : State K A σ Op ρ χ} (h : P.Bound s)
    {e : Event K A Op ρ η} (he : P.enabled M s e) : P.Bound (P.next M s e) := by
  cases e with
  | inner q e =>
      intro q' t op
      show (((Function.update s.obj q ((s.obj q).next M e)) q').pc t).op = some op ↔
        P.site s.ctl t = some (q', op)
      rw [← h q' t op]
      by_cases hq : q' = q
      · subst hq
        rw [Function.update_self, Monitor.inner_op he.2 he.1]
      · rw [Function.update_of_ne hq]
  | ctl e =>
      obtain ⟨hg, hact⟩ := he
      show P.Bound ⟨P.step s.ctl e, applyAct M s.obj (P.act s.ctl e)⟩
      cases ha : P.act s.ctl e with
      | silent =>
          intro q t op
          rw [hP.silent s.ctl e hg ha t]
          exact h q t op
      | call q t op =>
          rw [ha] at hact
          obtain ⟨hnone, hsite, hrest⟩ := hP.call s.ctl e q t op hg ha
          refine h.moved (fun q' op' => ?_) (fun q' op' hq hop => ?_) hrest
          · rw [hsite]
            constructor
            · intro heq; cases heq; exact ⟨rfl, rfl⟩
            · rintro ⟨rfl, hop⟩; cases hop; rfl
          · have hop' := (h q' t op').mp hop
            rw [hnone] at hop'
            cases hop'
      | ret q t op r =>
          rw [ha] at hact
          obtain ⟨hsite, hrest⟩ := hP.ret s.ctl e q t op r hg ha
          have hret : (s.obj q).pc t = .returned op r := hact
          have hat : P.site s.ctl t = some (q, op) := (h q t op).mp (by rw [hret]; rfl)
          refine h.moved (fun q' op' => ?_) (fun q' op' hq hop => ?_) hrest
          · rw [hsite]
            constructor
            · intro heq; cases heq
            · rintro ⟨-, hop⟩; cases hop
          · have hop' := (h q' t op').mp hop
            rw [hat] at hop'
            cases hop'
            exact hq rfl

theorem Bound.of_init (hP : P.Lawful) {s : State K A σ Op ρ χ}
    (hs : (P.machine M c).Init s) : P.Bound s := by
  intro q t op
  rw [hP.init s.ctl t hs.1, hs.2]
  constructor
  · intro h; cases h
  · intro h; cases h

/-- Control and objects agree, in every state a lawful client can reach, on who
is in which operation of which object. -/
theorem bound (hP : P.Lawful) {s : State K A σ Op ρ χ} (h : (P.machine M c).Reachable s) :
    P.Bound s :=
  h.invariant (I := P.Bound) (fun _ hs => Bound.of_init hP hs)
    (fun _ _ _ he hs => Bound.next (M := M) hP hs he)

/-! ## One step, seen from one thread of the program

A thread is in at most one operation, so it has one place.  A step of control
moves its own thread out of or into an operation; a step inside an operation
takes its own thread from the event's source to its target; everybody else
stays, or is woken. -/

/-- Where a thread stands in the operation it is in. -/
def place (P : Client K A Op ρ χ η) (s : State K A σ Op ρ χ) (t : A) : Monitor.Pc Op ρ :=
  match P.site s.ctl t with
  | some (q, _) => (s.obj q).pc t
  | none => .idle

section

omit [DecidableEq K] [DecidableEq A]

theorem place_of_site {s : State K A σ Op ρ χ} {q : K} {t : A} {op : Op}
    (h : P.site s.ctl t = some (q, op)) : P.place s t = (s.obj q).pc t := by
  simp only [place, h]

theorem place_of_idle {s : State K A σ Op ρ χ} {t : A} (h : P.site s.ctl t = none) :
    P.place s t = .idle := by
  simp only [place, h]

theorem Bound.site_of_pc {s : State K A σ Op ρ χ} (h : P.Bound s) {q : K} {t : A} {op : Op}
    {p : Monitor.Pc Op ρ} (hp : (s.obj q).pc t = p) (hop : p.op = some op) :
    P.site s.ctl t = some (q, op) :=
  (h q t op).mp (by rw [hp]; exact hop)

end

omit [DecidableEq A] in
theorem inner_source {e : Monitor.Event A Op ρ} (h : e.inner = true) :
    ∃ op, e.source.op = some op := by
  cases e with
  | call | ret => cases h
  | _ => exact ⟨_, rfl⟩

omit [DecidableEq K] [DecidableEq A] in
theorem Bound.inner_site {s : State K A σ Op ρ χ} (h : P.Bound s) {q : K}
    {e : Monitor.Event A Op ρ} (he : P.enabled M s (.inner q e)) :
    ∃ op, e.source.op = some op ∧ P.site s.ctl e.thread = some (q, op) := by
  obtain ⟨op, hop⟩ := inner_source he.1
  exact ⟨op, hop, h.site_of_pc (Monitor.enabled_source he.2) hop⟩

theorem Bound.inner_place {s : State K A σ Op ρ χ} (h : P.Bound s) {q : K}
    {e : Monitor.Event A Op ρ} (he : P.enabled M s (.inner q e)) :
    P.place s e.thread = e.source ∧
      P.place (P.next M s (.inner q e)) e.thread = e.target M (s.obj q).core := by
  obtain ⟨op, -, hsite⟩ := h.inner_site he
  refine ⟨?_, ?_⟩
  · rw [place_of_site hsite]
    exact Monitor.enabled_source he.2
  · rw [place_of_site (s := P.next M s (.inner q e)) hsite]
    show ((Function.update s.obj q ((s.obj q).next M e)) q).pc e.thread = _
    rw [Function.update_self]
    exact Monitor.next_pc_self M _ e

theorem inner_place_of_ne {s : State K A σ Op ρ χ} {q : K} {e : Monitor.Event A Op ρ}
    (he : P.enabled M s (.inner q e)) {u : A} (hu : u ≠ e.thread) :
    P.place (P.next M s (.inner q e)) u = P.place s u ∨
      ∃ op, P.place s u = .asleep op ∧ P.place (P.next M s (.inner q e)) u = .woken op := by
  cases hsite : P.site s.ctl u with
  | none =>
      rw [place_of_idle hsite, place_of_idle (s := P.next M s (.inner q e)) hsite]
      exact Or.inl rfl
  | some site =>
      obtain ⟨q', op⟩ := site
      rw [place_of_site hsite, place_of_site (s := P.next M s (.inner q e)) hsite]
      show ((Function.update s.obj q ((s.obj q).next M e)) q').pc u = _ ∨ ∃ op, _ ∧
        ((Function.update s.obj q ((s.obj q).next M e)) q').pc u = _
      by_cases hq : q' = q
      · subst hq
        rw [Function.update_self]
        exact Monitor.next_pc_of_ne he.2 hu
      · rw [Function.update_of_ne hq]
        exact Or.inl rfl

omit [DecidableEq A] in
theorem update_core {f : K → Monitor.State A σ Op ρ} {q : K} {m : Monitor.State A σ Op ρ}
    (h : m.core = (f q).core) (q' : K) : (Function.update f q m q').core = (f q').core := by
  rcases eq_or_ne q' q with rfl | hq
  · rw [Function.update_self, h]
  · rw [Function.update_of_ne hq]

theorem ctl_core {s : State K A σ Op ρ χ} (e : η) (q : K) :
    ((P.next M s (.ctl e)).obj q).core = (s.obj q).core := by
  show (applyAct M s.obj (P.act s.ctl e) q).core = _
  cases P.act s.ctl e with
  | silent => rfl
  | call q' t op =>
      have hcore : ((s.obj q').next M (.call t op)).core = (s.obj q').core := rfl
      exact update_core hcore q
  | ret q' t op r =>
      have hcore : ((s.obj q').next M (.ret t op r)).core = (s.obj q').core := rfl
      exact update_core hcore q

theorem next_core (s : State K A σ Op ρ χ) (e : Event K A Op ρ η) (q : K) :
    ((P.next M s e).obj q).core = (s.obj q).core ∨
      ∃ m, e = .inner q m ∧ (P.next M s e).obj q = (s.obj q).next M m := by
  cases e with
  | ctl e => exact Or.inl (ctl_core e q)
  | inner q' m =>
      rcases eq_or_ne q q' with rfl | hq
      · exact Or.inr ⟨m, rfl, Function.update_self _ _ _⟩
      · exact Or.inl (congrArg Monitor.State.core (Function.update_of_ne hq _ _))

omit [DecidableEq K] [DecidableEq A] in
theorem place_keep {s : State K A σ Op ρ χ} {c : χ} {f : K → Monitor.State A σ Op ρ} {u : A}
    (hs : P.site c u = P.site s.ctl u) (hf : ∀ q, (f q).pc u = (s.obj q).pc u) :
    P.place ⟨c, f⟩ u = P.place s u := by
  simp only [place, hs]
  cases P.site s.ctl u with
  | none => rfl
  | some site => exact hf site.1

theorem setPc_pc_of_ne {s : State K A σ Op ρ χ} {q : K} {t u : A} {p : Monitor.Pc Op ρ}
    (h : u ≠ t) (q' : K) :
    ((Function.update s.obj q ((s.obj q).setPc t p)) q').pc u = (s.obj q').pc u := by
  by_cases hq : q' = q
  · subst hq
    simp [Monitor.State.setPc, h]
  · rw [Function.update_of_ne hq]

theorem ctl_place_silent (hP : P.Lawful) {s : State K A σ Op ρ χ} {e : η}
    (he : P.enabled M s (.ctl e)) (ha : P.act s.ctl e = .silent) (u : A) :
    P.place (P.next M s (.ctl e)) u = P.place s u := by
  show P.place ⟨P.step s.ctl e, applyAct M s.obj (P.act s.ctl e)⟩ u = P.place s u
  rw [ha]
  exact place_keep (hP.silent s.ctl e he.1 ha u) fun _ => rfl

theorem ctl_place_call (hP : P.Lawful) {s : State K A σ Op ρ χ} {e : η} {q : K} {t : A} {op : Op}
    (he : P.enabled M s (.ctl e)) (ha : P.act s.ctl e = .call q t op) :
    P.place s t = .idle ∧ P.place (P.next M s (.ctl e)) t = .calling op ∧
      ∀ u, u ≠ t → P.place (P.next M s (.ctl e)) u = P.place s u := by
  obtain ⟨hnone, hsite, hrest⟩ := hP.call s.ctl e q t op he.1 ha
  refine ⟨place_of_idle hnone, ?_, fun u hu => ?_⟩
  · rw [place_of_site (s := P.next M s (.ctl e)) hsite]
    show ((applyAct M s.obj (P.act s.ctl e)) q).pc t = _
    rw [ha]
    simp [applyAct, Monitor.State.next, Monitor.State.setPc]
  · show P.place ⟨P.step s.ctl e, applyAct M s.obj (P.act s.ctl e)⟩ u = P.place s u
    rw [ha]
    exact place_keep (hrest u hu) (setPc_pc_of_ne hu)

theorem ctl_place_ret (hP : P.Lawful) {s : State K A σ Op ρ χ} (hs : P.Bound s) {e : η} {q : K}
    {t : A} {op : Op} {r : ρ} (he : P.enabled M s (.ctl e)) (ha : P.act s.ctl e = .ret q t op r) :
    P.place s t = .returned op r ∧ P.place (P.next M s (.ctl e)) t = .idle ∧
      ∀ u, u ≠ t → P.place (P.next M s (.ctl e)) u = P.place s u := by
  obtain ⟨hsite, hrest⟩ := hP.ret s.ctl e q t op r he.1 ha
  have hpc : (s.obj q).pc t = .returned op r := by
    have hact := he.2
    rw [ha] at hact
    exact hact
  refine ⟨?_, place_of_idle (s := P.next M s (.ctl e)) hsite, fun u hu => ?_⟩
  · rw [place_of_site (hs.site_of_pc hpc rfl), hpc]
  · show P.place ⟨P.step s.ctl e, applyAct M s.obj (P.act s.ctl e)⟩ u = P.place s u
    rw [ha]
    exact place_keep (hrest u hu) (setPc_pc_of_ne hu)

end Client

end Jar.Lib
