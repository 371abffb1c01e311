/-
# `Jar.Lib.Budget` — how many steps a run can take

A machine whose steps are paid for stops.  Every state is assigned what is left to
spend, a number; a step uses up one unit at least, and some steps bring units with
them.  Then a run is no longer than what was there at its beginning and what its
steps brought (`Run.amortised`), and a run that brings nothing comes to rest
(`exists_rest`).

For a monitor the units lie with its threads and with the work it holds.  What a
thread has left depends on where it stands in its operation, and is no smaller
than what the next step costs: its own move, and the wake-ups it causes.

    calling ▸ holding ▸ notifyOne ▸ returned         each move costs one
       └─ what the notification gives to a sleeper ──▸ asleep ▸ woken

A program over monitors (`Jar.Lib.Client`) has in addition what its control has
left.  A call hands the units of the operation to the object, and the return takes
back what was not used (`objectsLeft_act`).
-/
import Jar.Lib.Progress
import Mathlib.Algebra.GroupWithZero.Nat

namespace Jar.Lib

/-! ## Paid steps

What is left to spend is a potential.  A step that costs something is paid for out of
it, and out of what the step itself brings; over a run the two sides add up. -/

theorem sum_toNat {ε : Type*} (k : ℕ) (p : ε → Bool) (es : List ε) :
    (es.map fun e => k * (p e).toNat).sum = k * es.countP p := by
  induction es with
  | nil => rfl
  | cons e es ih =>
      rw [List.map_cons, List.sum_cons, ih, List.countP_cons, Nat.mul_add, Nat.add_comm]
      cases p e <;> rfl

namespace Machine

variable {σ ε : Type*} {M : Machine σ ε} {I : σ → Prop} {Φ : σ → ℕ}

/-- **Amortised runs.**  When each step is paid for out of what is left and what the step
brings, so is a run. -/
theorem Run.balanced {C : ε → Prop} (cost pay : ε → ℕ)
    (hstep : ∀ s e, M.Enabled s e → C e → I s →
      I (M.next s e) ∧ Φ (M.next s e) + cost e ≤ Φ s + pay e)
    {es : List ε} {s : σ} (hrun : M.Run s es) (hC : ∀ e ∈ es, C e) (hs : I s) :
    I (M.after s es) ∧ (es.map cost).sum + Φ (M.after s es) ≤ Φ s + (es.map pay).sum := by
  induction es generalizing s with
  | nil => exact ⟨hs, by simp [after]⟩
  | cons e es ih =>
      obtain ⟨he, hrest⟩ := hrun
      obtain ⟨hC₀, hC₁⟩ := List.forall_mem_cons.mp hC
      obtain ⟨hs', hspent⟩ := hstep s e he hC₀ hs
      obtain ⟨hs'', hlen⟩ := ih hrest hC₁ hs'
      refine ⟨hs'', ?_⟩
      simp only [List.map_cons, List.sum_cons, after]
      omega

theorem Run.amortised {C : ε → Prop} {pay : ε → ℕ}
    (hstep : ∀ s e, M.Enabled s e → C e → I s →
      I (M.next s e) ∧ Φ (M.next s e) + 1 ≤ Φ s + pay e)
    {es : List ε} {s : σ} (hrun : M.Run s es) (hC : ∀ e ∈ es, C e) (hs : I s) :
    I (M.after s es) ∧ es.length + Φ (M.after s es) ≤ Φ s + (es.map pay).sum := by
  obtain ⟨hs', hsum⟩ := hrun.balanced (fun _ => 1) pay hstep hC hs
  rw [List.map_const', List.sum_replicate_nat, Nat.mul_one] at hsum
  exact ⟨hs', hsum⟩

theorem Run.spent {A : ε → Prop}
    (hstep : ∀ s e, M.Enabled s e → A e → I s → I (M.next s e) ∧ Φ (M.next s e) + 1 ≤ Φ s)
    {es : List ε} {s : σ} (hrun : M.Run s es) (hA : ∀ e ∈ es, A e) (hs : I s) :
    es.length ≤ Φ s := by
  have hpaid : ∀ s e, M.Enabled s e → A e → I s →
      I (M.next s e) ∧ Φ (M.next s e) + 1 ≤ Φ s + 0 := hstep
  have hlength := (hrun.amortised hpaid hA hs).2
  have hsum : (es.map fun _ => 0).sum = 0 := by simp
  omega

/-- Steps that bring nothing cannot go on for ever: they lead to a state in which none
of them is enabled. -/
theorem exists_rest {A : ε → Prop}
    (hstep : ∀ s e, M.Enabled s e → A e → I s → I (M.next s e) ∧ Φ (M.next s e) + 1 ≤ Φ s)
    {s : σ} (hs : I s) :
    ∃ es, M.Run s es ∧ (∀ e ∈ es, A e) ∧ ∀ e, A e → ¬ M.Enabled (M.after s es) e := by
  generalize hk : Φ s = k
  induction k using Nat.strong_induction_on generalizing s with
  | _ k ih =>
      by_cases hmove : ∃ e, A e ∧ M.Enabled s e
      · obtain ⟨e, hA, he⟩ := hmove
        obtain ⟨hs', hspent⟩ := hstep s e he hA hs
        obtain ⟨es, hrun, hAs, hrest⟩ := ih (Φ (M.next s e)) (by omega) hs' rfl
        exact ⟨e :: es, ⟨he, hrun⟩, List.forall_mem_cons.mpr ⟨hA, hAs⟩, hrest⟩
      · exact ⟨[], trivial, nofun, fun e hA he => hmove ⟨e, hA, he⟩⟩

end Machine

/-! ## What the threads of a monitor have left

The fields of a budget are the inequalities that the steps need: each position of an
operation has one unit more than the next one, and a notification has what it gives to
the sleepers. -/

namespace Monitor

variable {ι σ Op ρ : Type*} [DecidableEq ι] {M : Object σ Op ρ} {m : ℕ}
variable {s : State ι σ Op ρ} {e : Event ι Op ρ} {S : Finset ι}

/-- The units of a monitor on which at most `m` threads sleep at a time. -/
structure Budget (M : Object σ Op ρ) (m : ℕ) where
  /-- what a thread has left -/
  pc : Pc Op ρ → ℕ
  /-- what the work the object holds is worth -/
  work : σ → ℕ
  /-- what a wake-up costs -/
  wake : ℕ
  idle : pc .idle = 0
  lock : ∀ op, pc (.holding op) + 1 ≤ pc (.calling op)
  refuse : ∀ op r, M.refusal op = some r → pc (.returned op r) + 1 ≤ pc (.calling op)
  body : ∀ op c, pc ((M.body op c).pc op) + work ((M.body op c).core c) + 1 ≤
    pc (.holding op) + work c
  notifyOne : ∀ op r, M.Emits op r .one → pc (.returned op r) + wake + 1 ≤ pc (.notifyOne op r)
  notifyAll : ∀ op r, M.Emits op r .all →
    pc (.returned op r) + wake * m + 1 ≤ pc (.notifyAll op r)
  woken : ∀ op, pc (.woken op) ≤ pc (.asleep op) + wake
  relock : ∀ op, pc (.rechecking op) + 1 ≤ pc (.woken op)
  again : ∀ op c, M.Blocks op → pc ((M.again op c).pc op) + work ((M.again op c).core c) + 1 ≤
    pc (.rechecking op) + work c

variable (b : Budget M m)

/-- What the threads in `S` and the work of the object have left together. -/
def Budget.left (S : Finset ι) (s : State ι σ Op ρ) : ℕ := tally b.pc s.pc S + b.work s.core

/-- What a step inside an operation brings: a spurious wake-up pays for itself. -/
def Budget.brought : Event ι Op ρ → ℕ
  | .spurious _ _ => b.wake + 1
  | _ => 0

/-- The threads of `S` that sleep. -/
def sleeping (S : Finset ι) (s : State ι σ Op ρ) : Finset ι :=
  S.filter fun t => (sleepers Op ρ).asleep (s.pc t) = true

theorem Budget.wakeOne_le {u : Option ι} (hu : (sleepers Op ρ).Target s.pc u) :
    tally b.pc ((sleepers Op ρ).wakeOne s.pc u) S ≤ tally b.pc s.pc S + b.wake := by
  cases u with
  | none => exact Nat.le_add_right _ _
  | some u =>
      obtain ⟨op, hop⟩ := sleepers_asleep.mp hu
      show tally b.pc (Function.update s.pc u ((sleepers Op ρ).wake (s.pc u))) S ≤ _
      by_cases hmem : u ∈ S
      · have hsum := tally_update (w := b.pc) (f := s.pc) hmem ((sleepers Op ρ).wake (s.pc u))
        have hwake : b.pc ((sleepers Op ρ).wake (s.pc u)) ≤ b.pc (s.pc u) + b.wake := by
          rw [hop]
          exact b.woken op
        omega
      · rw [tally_update_of_notMem hmem]
        exact Nat.le_add_right _ _

omit [DecidableEq ι] in
theorem Budget.wakeAll_le (hm : (sleeping S s).card ≤ m) :
    tally b.pc ((sleepers Op ρ).wakeAll s.pc) S ≤ tally b.pc s.pc S + b.wake * m := by
  have heach : ∀ t ∈ S, b.pc ((sleepers Op ρ).wakeAll s.pc t) ≤
      b.pc (s.pc t) + if (sleepers Op ρ).asleep (s.pc t) = true then b.wake else 0 := by
    intro t _
    cases hs : (sleepers Op ρ).asleep (s.pc t) with
    | false =>
        rw [CondVar.wakeAll_of_awake hs]
        exact Nat.le_add_right _ _
    | true =>
        obtain ⟨op, hop⟩ := sleepers_asleep.mp hs
        rw [CondVar.wakeAll_of_asleep hs, hop]
        exact b.woken op
  calc tally b.pc ((sleepers Op ρ).wakeAll s.pc) S
      ≤ ∑ t ∈ S, (b.pc (s.pc t) + if (sleepers Op ρ).asleep (s.pc t) = true then b.wake else 0) :=
        Finset.sum_le_sum heach
    _ = tally b.pc s.pc S + b.wake * (sleeping S s).card := by
        rw [Finset.sum_add_distrib, ← Finset.sum_filter,
          Finset.sum_const_nat (m := b.wake) fun _ _ => rfl, Nat.mul_comm]
        rfl
    _ ≤ tally b.pc s.pc S + b.wake * m :=
        Nat.add_le_add_left (Nat.mul_le_mul_left _ hm) _

theorem finish_pc (s : State ι σ Op ρ) (t : ι) (op : Op) (o : Outcome σ ρ) :
    (s.finish t op o).pc = Function.update s.pc t (o.pc op) := by
  cases o <;> rfl

/-- **A step inside an operation uses a unit.** -/
theorem Budget.spend {c : σ} (h : (machine ι M c).Reachable s) (he : s.enabled M e)
    (hi : e.inner = true) (ht : e.thread ∈ S) (hm : (sleeping S s).card ≤ m) :
    b.left S (s.next M e) + 1 ≤ b.left S s + b.brought e := by
  have hsrc := enabled_source he
  have hsound := pc_sound h e.thread
  rw [hsrc] at hsound
  -- a step that only moves its own thread
  have hmove : ∀ p, tally b.pc (Function.update s.pc e.thread p) S + b.pc e.source =
      tally b.pc s.pc S + b.pc p := by
    intro p
    have hsum := tally_update (w := b.pc) (f := s.pc) ht p
    rwa [hsrc] at hsum
  cases e with
  | call | ret => cases hi
  | lock t op =>
      have hsum := hmove (.holding op)
      have hcost := b.lock op
      simp only [left, State.next, State.setPc, brought, Event.thread, Event.source] at hsum ⊢
      omega
  | refuse t op r =>
      have hsum := hmove (.returned op r)
      have hcost := b.refuse op r he.2
      simp only [left, State.next, State.setPc, brought, Event.thread, Event.source] at hsum ⊢
      omega
  | body t op =>
      have hsum := hmove ((M.body op s.core).pc op)
      have hcost := b.body op s.core
      simp only [left, State.next, finish_pc, finish_core, brought, Event.thread,
        Event.source] at hsum ⊢
      omega
  | again t op =>
      have hsum := hmove ((M.again op s.core).pc op)
      have hcost := b.again op s.core hsound
      simp only [left, State.next, finish_pc, finish_core, brought, Event.thread,
        Event.source] at hsum ⊢
      omega
  | spurious t op =>
      have hsum := hmove (.woken op)
      have hcost := b.woken op
      simp only [left, State.next, State.setPc, brought, Event.thread, Event.source] at hsum ⊢
      omega
  | relock t op =>
      have hsum := hmove (.rechecking op)
      have hcost := b.relock op
      simp only [left, State.next, State.setPc, brought, Event.thread, Event.source] at hsum ⊢
      omega
  | notifyOne t op r u =>
      have hawake : (sleepers Op ρ).asleep (s.pc t) = false := by rw [he.1]; rfl
      have hsum := tally_update (w := b.pc) (f := (sleepers Op ρ).wakeOne s.pc u) ht
        (.returned op r)
      have hwoken := b.wakeOne_le (S := S) he.2
      have hcost := b.notifyOne op r hsound
      simp only [Event.thread] at hsum
      rw [CondVar.wakeOne_of_awake he.2 hawake, he.1] at hsum
      simp only [left, State.next, brought]
      omega
  | notifyAll t op r =>
      have hpc : s.pc t = .notifyAll op r := he
      have hawake : (sleepers Op ρ).asleep (s.pc t) = false := by rw [hpc]; rfl
      have hsum := tally_update (w := b.pc) (f := (sleepers Op ρ).wakeAll s.pc) ht
        (.returned op r)
      have hwoken := b.wakeAll_le hm
      have hcost := b.notifyAll op r hsound
      simp only [Event.thread] at hsum
      rw [CondVar.wakeAll_of_awake hawake, hpc] at hsum
      simp only [left, State.next, brought]
      omega

theorem Budget.threads_of_notMem (he : s.enabled M e) (ht : e.thread ∉ S)
    (hawake : ∀ t op, s.pc t ≠ .asleep op) :
    tally b.pc (s.next M e).pc S = tally b.pc s.pc S := by
  refine Finset.sum_congr rfl fun u hu => ?_
  have hne : u ≠ e.thread := by
    rintro rfl
    exact ht hu
  rcases next_pc_of_ne he hne with hsame | ⟨op, hasleep, -⟩
  · rw [hsame]
  · exact absurd hasleep (hawake u op)

end Monitor

/-! ## A program over monitors

A call moves the units of the operation from the control into the object, and a return
moves what is left of them back.  Steps of threads that are not counted change nothing
but the work of the objects. -/

namespace Client

variable {K A σ Op ρ χ η : Type*} [DecidableEq K] [Fintype K] [DecidableEq A]
variable {P : Client K A Op ρ χ η} {M : Monitor.Object σ Op ρ} {m : ℕ}
variable (b : Monitor.Budget M m) {S : Finset A}

/-- What is left in the objects. -/
def objectsLeft (S : Finset A) (f : K → Monitor.State A σ Op ρ) : ℕ := ∑ q, b.left S (f q)

/-- What an act of control hands to an object, and what it takes back. -/
def handed : Act K A Op ρ → ℕ
  | .call _ _ op => b.pc (.calling op)
  | _ => 0

def takenBack : Act K A Op ρ → ℕ
  | .ret _ _ op r => b.pc (.returned op r)
  | _ => 0

/-- The thread an act moves. -/
def Act.Moves : Act K A Op ρ → A → Prop
  | .silent, _ => False
  | .call _ t _, u | .ret _ t _ _, u => t = u

omit [DecidableEq A] in
theorem objectsLeft_update {f : K → Monitor.State A σ Op ρ} {q : K} {s : Monitor.State A σ Op ρ} :
    objectsLeft b S (Function.update f q s) + b.left S (f q) = objectsLeft b S f + b.left S s :=
  tally_update (w := b.left S) (Finset.mem_univ q) s

theorem objectsLeft_act {f : K → Monitor.State A σ Op ρ} {a : Act K A Op ρ}
    (ha : actEnabled M f a) (hS : ∀ t, Act.Moves a t → t ∈ S) :
    objectsLeft b S (applyAct M f a) + takenBack b a = objectsLeft b S f + handed b a := by
  cases a with
  | silent => rfl
  | call q t op =>
      have hidle : (f q).pc t = .idle := ha
      have hsum := objectsLeft_update b (S := S) (f := f) (q := q)
        (s := (f q).next M (.call t op))
      have hthread := tally_update (w := b.pc) (f := (f q).pc) (hS t rfl) (.calling op)
      rw [hidle, b.idle] at hthread
      simp only [Monitor.Budget.left, Monitor.State.next, Monitor.State.setPc] at hsum
      simp only [applyAct, takenBack, handed, Monitor.State.next, Monitor.State.setPc]
      omega
  | ret q t op r =>
      have hpc : (f q).pc t = .returned op r := ha
      have hsum := objectsLeft_update b (S := S) (f := f) (q := q)
        (s := (f q).next M (.ret t op r))
      have hthread := tally_update (w := b.pc) (f := (f q).pc) (hS t rfl) .idle
      rw [hpc, b.idle] at hthread
      simp only [Monitor.Budget.left, Monitor.State.next, Monitor.State.setPc] at hsum
      simp only [applyAct, takenBack, handed, Monitor.State.next, Monitor.State.setPc]
      omega

theorem objectsLeft_inner {c : σ} {s : State K A σ Op ρ χ} (h : (P.machine M c).Reachable s)
    {q : K} {e : Monitor.Event A Op ρ} (he : P.enabled M s (.inner q e)) (ht : e.thread ∈ S)
    (hm : (Monitor.sleeping S (s.obj q)).card ≤ m) :
    objectsLeft b S (P.next M s (.inner q e)).obj + 1 ≤ objectsLeft b S s.obj + b.brought e := by
  have hspend := b.spend (obj_reachable h q) he.2 he.1 ht hm
  have hsum := objectsLeft_update b (S := S) (f := s.obj) (q := q) (s := (s.obj q).next M e)
  simp only [next]
  omega

theorem objectsLeft_of_notMem {s : State K A σ Op ρ χ} {e : Event K A Op ρ η}
    (he : P.enabled M s e) (ht : ∀ q m, P.seen q s e = some m → m.thread ∉ S)
    (hawake : ∀ q t op, (s.obj q).pc t ≠ .asleep op)
    (hwork : ∀ q, b.work ((P.next M s e).obj q).core = b.work (s.obj q).core) :
    objectsLeft b S (P.next M s e).obj = objectsLeft b S s.obj := by
  refine Finset.sum_congr rfl fun q _ => ?_
  unfold Monitor.Budget.left
  rw [hwork q]
  cases hseen : P.seen q s e with
  | none => rw [next_obj_of_seen_none hseen]
  | some m =>
      obtain ⟨hm, hnext⟩ := next_obj_of_seen_some he hseen
      rw [hnext, b.threads_of_notMem hm (ht q m hseen) (hawake q)]

end Client

end Jar.Lib
