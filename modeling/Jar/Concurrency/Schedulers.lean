/-
# `Jar.Concurrency.Schedulers` — several schedulers, the same threads

`thread_index` is `static thread_local` in `rr_scheduler::scheduled()`: a thread
has one, whichever scheduler it serves, and it is drawn from the pop counter of
the first.  Here is a collection of schedulers with the threads they share; each
step is a step of one of them, which sees the one index of every thread.

A scheduler whose threads have all drawn their index from it behaves as if it
were alone (`alone_run`).  The `k`-th thread to draw then has index `k`
(`ordered`), so up to `N` threads have different homes, and nothing that
happens on other schedulers matters (`homes_own`).  A thread that brings an index
from elsewhere breaks both: two threads serving two queues share a home
(`shared_home`).
-/
import Jar.Concurrency.RrScheduler
import Mathlib.Data.Fintype.Option

namespace Jar.Concurrency

open Jar.Lib

namespace RrScheduler

/-! ## The index as a parameter

The same scheduler with other indices makes the same steps, as long as the steps that
read an index read the same one.  A thread reads its index past the draw. -/

section Index

variable {n : QueueCount} {ι τ κ : Type} [DecidableEq ι] [DecidableEq τ] [DecidableEq κ]

/-- The same scheduler with other thread-local indices. -/
def Control.withIndex (c : Control ι τ κ) (f : ι → Option (BitVec 32)) : Control ι τ κ :=
  { c with threadIndex := f }

def withIndex (s : State n ι τ κ) (f : ι → Option (BitVec 32)) : State n ι τ κ :=
  { s with ctl := s.ctl.withIndex f }

/-- The thread whose index a step reads. -/
def Step.reads : Step n ι τ κ → Option ι
  | .initIndex i | .readIndex i | .tryPop i _ | .tryPopRet i _ _ | .pop i _ | .popRet i _ => some i
  | _ => none

/-- The thread that draws its index in a step. -/
def drawer : Event n ι τ κ → Option ι
  | .ctl (.initIndex i) => some i
  | _ => none

/-- The indices `f` after a step: the drawer gets the value of the pop counter. -/
def State.indices (s : State n ι τ κ) (f : ι → Option (BitVec 32)) (e : Event n ι τ κ) :
    ι → Option (BitVec 32) :=
  match drawer e with
  | some i => Function.update f i (some s.ctl.popIndex)
  | none => f

variable {c : Control ι τ κ} {e : Step n ι τ κ} {f g : ι → Option (BitVec 32)}

omit [DecidableEq ι] [DecidableEq τ] [DecidableEq κ] in
theorem guard_withIndex (h : ∀ i, e.reads = some i → f i = g i) (hg : guard n (c.withIndex f) e) :
    guard n (c.withIndex g) e := by
  cases e with
  | initIndex i => exact ⟨hg.1, (h i rfl).symm.trans hg.2⟩
  | readIndex i => exact ⟨hg.1, fun hnone => hg.2 ((h i rfl).trans hnone)⟩
  | _ => exact hg

omit [DecidableEq ι] [DecidableEq τ] [DecidableEq κ] in
theorem act_withIndex (h : ∀ i, e.reads = some i → f i = g i) :
    act (c.withIndex f) e = act (c.withIndex g) e := by
  have hindex : ∀ i, e.reads = some i → (c.withIndex f).index i = (c.withIndex g).index i := by
    intro i hi
    show (f i).getD 0 = (g i).getD 0
    rw [h i hi]
  cases e with
  | tryPop i k => simp only [act, hindex i rfl]
  | tryPopRet i k task => simp only [act, hindex i rfl]
  | pop i k => simp only [act, hindex i rfl]
  | popRet i task => simp only [act, hindex i rfl]
  | _ => rfl

theorem enabled_withIndex {s : State n ι τ κ} {e : Event n ι τ κ}
    (h : ∀ i d, e = .ctl d → d.reads = some i → f i = g i)
    (he : (machine n ι τ κ).Enabled (withIndex s f) e) :
    (machine n ι τ κ).Enabled (withIndex s g) e := by
  cases e with
  | inner q m => exact he
  | ctl d =>
      have hd := fun i => h i d rfl
      refine ⟨guard_withIndex hd he.1, ?_⟩
      show Client.actEnabled _ _ (act (s.ctl.withIndex g) d)
      rw [← act_withIndex hd]
      exact he.2

theorem next_withIndex {s : State n ι τ κ} {e : Event n ι τ κ}
    (h : ∀ i d, e = .ctl d → d.reads = some i → f i = g i) :
    (machine n ι τ κ).next (withIndex s g) e =
      withIndex ((machine n ι τ κ).next (withIndex s f) e) (State.indices s g e) := by
  cases e with
  | inner q m => rfl
  | ctl d =>
      have hact := act_withIndex (c := s.ctl) fun i => h i d rfl
      show (⟨step (s.ctl.withIndex g) d, Client.applyAct _ _ (act (s.ctl.withIndex g) d)⟩ :
        State n ι τ κ) = _
      rw [← hact]
      cases d <;> rfl

theorem past_draw (hg : guard n c e) {i : ι} (ho : (step c e).scheduled i ≠ .outside)
    (he : (step c e).scheduled i ≠ .entered) :
    (c.scheduled i ≠ .outside ∧ c.scheduled i ≠ .entered) ∨
      e = .initIndex i ∨ e = .readIndex i := by
  have hset : ∀ (j : ι) (p : ScheduledPc τ), Function.update c.scheduled j p i ≠ .outside →
      Function.update c.scheduled j p i ≠ .entered →
      (c.scheduled i ≠ .outside ∧ c.scheduled i ≠ .entered) ∨
        (j = i ∧ p ≠ .outside ∧ p ≠ .entered) := by
    intro j p ho he
    rcases eq_or_ne i j with rfl | hne
    · rw [Function.update_self] at ho he
      exact Or.inr ⟨rfl, ho, he⟩
    · rw [Function.update_of_ne hne] at ho he
      exact Or.inl ⟨ho, he⟩
  have hold : ∀ (j : ι), c.scheduled j ≠ .outside → c.scheduled j ≠ .entered → ∀ p,
      Function.update c.scheduled j p i ≠ .outside → Function.update c.scheduled j p i ≠ .entered →
      c.scheduled i ≠ .outside ∧ c.scheduled i ≠ .entered := by
    intro j hjo hje p ho he
    rcases hset j p ho he with hi | ⟨rfl, -⟩
    · exact hi
    · exact ⟨hjo, hje⟩
  cases e with
  | enter j =>
      rcases hset j .entered ho he with hi | ⟨-, -, hp⟩
      · exact Or.inl hi
      · exact absurd rfl hp
  | initIndex j =>
      rcases hset j (.scanning 0) ho he with hi | ⟨rfl, -⟩
      · exact Or.inl hi
      · exact Or.inr (Or.inl rfl)
  | readIndex j =>
      rcases hset j (.scanning 0) ho he with hi | ⟨rfl, -⟩
      · exact Or.inl hi
      · exact Or.inr (Or.inr rfl)
  | leave j task =>
      rcases hset j .outside ho he with hi | ⟨-, hp, -⟩
      · exact Or.inl hi
      · exact absurd rfl hp
  | tryPop j k =>
      have hj : c.scheduled j = .scanning k := hg.1
      exact Or.inl (hold j (by rw [hj]; exact nofun) (by rw [hj]; exact nofun) _ ho he)
  | tryPopRet j k task =>
      have hj : c.scheduled j = .trying k := hg
      exact Or.inl (hold j (by rw [hj]; exact nofun) (by rw [hj]; exact nofun) _ ho he)
  | pop j k =>
      have hj : c.scheduled j = .scanning k := hg.1
      exact Or.inl (hold j (by rw [hj]; exact nofun) (by rw [hj]; exact nofun) _ ho he)
  | popRet j task =>
      have hj : c.scheduled j = .waiting := hg
      exact Or.inl (hold j (by rw [hj]; exact nofun) (by rw [hj]; exact nofun) _ ho he)
  | _ => exact Or.inl ⟨ho, he⟩

omit [DecidableEq ι] [DecidableEq τ] [DecidableEq κ] in
theorem reads_past (hg : guard n c e) {i : ι} (hi : e.reads = some i) :
    e = .initIndex i ∨ e = .readIndex i ∨
      (c.scheduled i ≠ .outside ∧ c.scheduled i ≠ .entered) := by
  cases e with
  | initIndex j => cases hi; exact Or.inl rfl
  | readIndex j => cases hi; exact Or.inr (Or.inl rfl)
  | tryPop j k =>
      cases hi
      have hj : c.scheduled i = .scanning k := hg.1
      exact Or.inr (Or.inr ⟨by rw [hj]; exact nofun, by rw [hj]; exact nofun⟩)
  | tryPopRet j k task =>
      cases hi
      have hj : c.scheduled i = .trying k := hg
      exact Or.inr (Or.inr ⟨by rw [hj]; exact nofun, by rw [hj]; exact nofun⟩)
  | pop j k =>
      cases hi
      have hj : c.scheduled i = .scanning k := hg.1
      exact Or.inr (Or.inr ⟨by rw [hj]; exact nofun, by rw [hj]; exact nofun⟩)
  | popRet j task =>
      cases hi
      have hj : c.scheduled i = .waiting := hg
      exact Or.inr (Or.inr ⟨by rw [hj]; exact nofun, by rw [hj]; exact nofun⟩)
  | _ => cases hi

/-! ## The order of drawing

The counter is drawn from in turn, so among as many threads as there are queues no two
have the same home. -/

/-- A scheduler that nobody has called, and threads without an index. -/
def fresh (n : QueueCount) (ι τ κ : Type) : State n ι τ κ :=
  ⟨.initial fun _ => none, fun _ => Monitor.State.initial Queue.Core.empty⟩

/-- The threads that draw their index in a run, in order. -/
def drawers (es : List (Event n ι τ κ)) : List ι := es.filterMap drawer

/-- The threads `is` have drawn, in this order: each has its place as its index. -/
structure Ordered (is : List ι) (c : Control ι τ κ) : Prop where
  nodup : is.Nodup
  popIndex : c.popIndex = BitVec.ofNat 32 is.length
  drawn : ∀ i ∈ is, c.threadIndex i = some (BitVec.ofNat 32 (is.idxOf i))
  undrawn : ∀ i, i ∉ is → c.threadIndex i = none

theorem next_popIndex (s : State n ι τ κ) (e : Event n ι τ κ) :
    ((machine n ι τ κ).next s e).ctl.popIndex =
      match drawer e with
      | some _ => s.ctl.popIndex + 1
      | none => s.ctl.popIndex := by
  cases e with
  | inner q m => rfl
  | ctl d => cases d <;> rfl

theorem next_threadIndex (s : State n ι τ κ) (e : Event n ι τ κ) :
    ((machine n ι τ κ).next s e).ctl.threadIndex = State.indices s s.ctl.threadIndex e := by
  cases e with
  | inner q m => rfl
  | ctl d => cases d <;> rfl

theorem drawer_fresh {s : State n ι τ κ} {e : Event n ι τ κ} (he : (machine n ι τ κ).Enabled s e)
    {i : ι} (hi : drawer e = some i) : s.ctl.threadIndex i = none := by
  cases e with
  | inner q m => cases hi
  | ctl d =>
      cases d with
      | initIndex j => cases hi; exact he.1.2
      | _ => cases hi

theorem Ordered.next {is : List ι} {s : State n ι τ κ} (h : Ordered is s.ctl) {e : Event n ι τ κ}
    (he : (machine n ι τ κ).Enabled s e) :
    Ordered (is ++ (drawer e).toList) ((machine n ι τ κ).next s e).ctl := by
  have hpop := next_popIndex s e
  have hthread := next_threadIndex s e
  cases hd : drawer e with
  | none =>
      rw [hd] at hpop
      rw [State.indices, hd] at hthread
      rw [Option.toList_none, List.append_nil]
      exact ⟨h.nodup, hpop.trans h.popIndex, fun i hi => by rw [hthread]; exact h.drawn i hi,
        fun i hi => by rw [hthread]; exact h.undrawn i hi⟩
  | some j =>
      rw [hd] at hpop
      rw [State.indices, hd] at hthread
      have hj : j ∉ is := by
        intro hmem
        have hnone := drawer_fresh he hd
        rw [h.drawn j hmem] at hnone
        cases hnone
      rw [Option.toList_some]
      refine ⟨?_, ?_, ?_, ?_⟩
      · refine List.nodup_append.mpr ⟨h.nodup, List.nodup_singleton j, ?_⟩
        intro a ha b hb
        rw [List.mem_singleton.mp hb]
        rintro rfl
        exact hj ha
      · rw [hpop, h.popIndex, List.length_append]
        exact (BitVec.ofNat_add is.length 1).symm
      · intro i hi
        rw [hthread]
        rcases List.mem_append.mp hi with hmem | hlast
        · have hne : i ≠ j := by
            rintro rfl
            exact hj hmem
          simp only [Function.update_of_ne hne]
          rw [h.drawn i hmem, List.idxOf_append_of_mem hmem]
        · obtain rfl := List.mem_singleton.mp hlast
          simp only [Function.update_self]
          rw [h.popIndex, List.idxOf_append_of_notMem hj, List.idxOf_cons_self, Nat.add_zero]
      · intro i hi
        rw [List.mem_append, not_or, List.mem_singleton] at hi
        rw [hthread]
        simp only [Function.update_of_ne hi.2]
        exact h.undrawn i hi.1

/-- **The `k`-th thread to draw has index `k`.** -/
theorem ordered {es : List (Event n ι τ κ)} (h : (machine n ι τ κ).Run (fresh n ι τ κ) es) :
    Ordered (drawers es) ((machine n ι τ κ).after (fresh n ι τ κ) es).ctl := by
  refine h.history (I := fun es s => Ordered (drawers es) s.ctl) ?_ ?_
  · refine ⟨List.nodup_nil, rfl, ?_, fun _ _ => rfl⟩
    intro i hi
    cases hi
  · intro es e _ he ih
    have hdrawers : drawers (es ++ [e]) = drawers es ++ (drawer e).toList := by
      rw [drawers, List.filterMap_append, ← drawers]
      cases hd : drawer e <;> simp [hd]
    rw [hdrawers]
    exact ih.next he

omit [DecidableEq τ] [DecidableEq κ] in
theorem Ordered.slot_inj {is : List ι} {c : Control ι τ κ} (h : Ordered is c)
    (hlength : is.length ≤ n.size) {i j : ι} (hi : i ∈ is) (hj : j ∈ is)
    (hslot : slot n (c.index i) = slot n (c.index j)) : i = j := by
  have hval : ∀ k ∈ is, (slot n (c.index k)).val = is.idxOf k := by
    intro k hk
    have hlt : is.idxOf k < n.size := lt_of_lt_of_le (List.idxOf_lt_length_of_mem hk) hlength
    rw [Control.index, h.drawn k hk, Option.getD_some, slot]
    show (BitVec.ofNat 32 (is.idxOf k)).toNat % n.size = _
    rw [BitVec.toNat_ofNat, Nat.mod_eq_of_lt (lt_trans hlt n.fits), Nat.mod_eq_of_lt hlt]
  have hidx : is.idxOf i = is.idxOf j := by rw [← hval i hi, ← hval j hj, hslot]
  exact (List.idxOf_inj hi).mp hidx

end Index

end RrScheduler

/-! ## Schedulers in company

The index is `thread_local` and static, so one for all schedulers of the type: a
thread that has drawn one for `a` uses it on `b`. -/

namespace Schedulers

open RrScheduler (QueueCount slot withIndex fresh drawer drawers)

variable {β : Type}

/-- The schedulers, and what they share: the one `thread_index` of every thread.
`drawnOn` records whose pop counter it is from.  The indices that each scheduler's own
state carries are those of its last step and not looked at again. -/
structure State (n : β → QueueCount) (ι τ κ : Type) where
  threadIndex : ι → Option (BitVec 32)
  drawnOn : ι → Option β
  sched : ∀ b, RrScheduler.State (n b) ι τ κ

/-- A step of scheduler `b`. -/
inductive Event (n : β → QueueCount) (ι τ κ : Type) where
  | on (b : β) (e : RrScheduler.Event (n b) ι τ κ)

variable {n : β → QueueCount} {ι τ κ : Type}

/-- Scheduler `b` as its functions see it, with the index every thread has. -/
def State.of (s : State n ι τ κ) (b : β) : RrScheduler.State (n b) ι τ κ :=
  withIndex (s.sched b) s.threadIndex

/-- A thread is in `scheduled()` of one scheduler at a time. -/
def Free (s : State n ι τ κ) (b : β) : RrScheduler.Event (n b) ι τ κ → Prop
  | .ctl (.enter i) => ∀ b', b' ≠ b → (s.sched b').ctl.scheduled i = .outside
  | _ => True

variable [DecidableEq β] [DecidableEq ι] [DecidableEq τ] [DecidableEq κ]

def enabled (s : State n ι τ κ) : Event n ι τ κ → Prop
  | .on b e => (RrScheduler.machine (n b) ι τ κ).Enabled (s.of b) e ∧ Free s b e

def next (s : State n ι τ κ) : Event n ι τ κ → State n ι τ κ
  | .on b e =>
      { threadIndex := ((RrScheduler.machine (n b) ι τ κ).next (s.of b) e).ctl.threadIndex
        drawnOn := match drawer e with
          | some i => Function.update s.drawnOn i (some b)
          | none => s.drawnOn
        sched := Function.update s.sched b ((RrScheduler.machine (n b) ι τ κ).next (s.of b) e) }

instance decFree [Fintype β] (s : State n ι τ κ) (b : β) :
    ∀ e : RrScheduler.Event (n b) ι τ κ, Decidable (Free s b e)
  | .ctl (.enter i) => inferInstanceAs
      (Decidable (∀ b', b' ≠ b → (s.sched b').ctl.scheduled i = .outside))
  | .ctl (.initIndex _) | .ctl (.readIndex _) | .ctl (.tryPop _ _) | .ctl (.tryPopRet _ _ _)
  | .ctl (.pop _ _) | .ctl (.popRet _ _) | .ctl (.leave _ _) | .ctl (.schedule _)
  | .ctl (.fetchPush _) | .ctl (.tryPush _ _ _) | .ctl (.tryPushRet _ _ _ _) | .ctl (.push _ _ _)
  | .ctl (.pushRet _ _) | .ctl (.clear _) | .ctl (.clearQueue _ _) | .ctl (.clearQueueRet _ _)
  | .ctl (.clearRet _) | .inner _ _ => isTrue trivial

instance decEnabled [Fintype β] [Fintype ι] [Fintype τ] [Fintype κ] (s : State n ι τ κ) :
    ∀ e : Event n ι τ κ, Decidable (enabled s e)
  | .on b e => inferInstanceAs
      (Decidable ((RrScheduler.machine (n b) ι τ κ).Enabled (s.of b) e ∧ Free s b e))

/-- Nobody has called anything. -/
def State.initial (n : β → QueueCount) (ι τ κ : Type) : State n ι τ κ :=
  ⟨fun _ => none, fun _ => none, fun b => fresh (n b) ι τ κ⟩

def machine (n : β → QueueCount) (ι τ κ : Type) [DecidableEq ι] [DecidableEq τ] [DecidableEq κ] :
    Machine (State n ι τ κ) (Event n ι τ κ) where
  Init s := s = State.initial n ι τ κ
  Enabled := enabled
  next := next

instance [Fintype β] [Fintype ι] [Fintype τ] [Fintype κ] (s : State n ι τ κ) (e : Event n ι τ κ) :
    Decidable ((machine n ι τ κ).Enabled s e) := decEnabled s e

/-- The queue whose blocking `pop` thread `i` falls back to on scheduler `b`. -/
def home (s : State n ι τ κ) (b : β) (i : ι) : Fin (n b).size := slot (n b) ((s.of b).ctl.index i)

/-- What scheduler `b` sees of a step. -/
def Event.seen (b : β) : Event n ι τ κ → Option (RrScheduler.Event (n b) ι τ κ)
  | .on b' e => if h : b' = b then some (h ▸ e) else none

/-- The calls made on scheduler `b`, step by step. -/
def calls (b : β) (es : List (Event n ι τ κ)) : List (RrScheduler.Event (n b) ι τ κ) :=
  es.filterMap (Event.seen b)

/-- Thread `i` has called `scheduled()` on `b` and looked for its index. -/
def Served (b : β) (es : List (Event n ι τ κ)) (i : ι) : Prop :=
  .ctl (.initIndex i) ∈ calls b es ∨ .ctl (.readIndex i) ∈ calls b es

/-- Thread `i` brings to scheduler `b` an index from elsewhere. -/
def BringsIndex (b : β) (s : State n ι τ κ) (e : Event n ι τ κ) : Prop :=
  ∃ i, e = .on b (.ctl (.readIndex i)) ∧ s.drawnOn i ≠ some b

instance decBringsIndex (b : β) (s : State n ι τ κ) :
    ∀ e : Event n ι τ κ, Decidable (BringsIndex b s e)
  | .on b' (.ctl (.readIndex i)) =>
      decidable_of_iff (b' = b ∧ s.drawnOn i ≠ some b)
        ⟨by rintro ⟨rfl, hne⟩; exact ⟨i, rfl, hne⟩,
          by rintro ⟨j, heq, hne⟩; cases heq; exact ⟨rfl, hne⟩⟩
  | .on _ (.ctl (.enter _)) | .on _ (.ctl (.initIndex _)) | .on _ (.ctl (.tryPop _ _))
  | .on _ (.ctl (.tryPopRet _ _ _)) | .on _ (.ctl (.pop _ _)) | .on _ (.ctl (.popRet _ _))
  | .on _ (.ctl (.leave _ _)) | .on _ (.ctl (.schedule _)) | .on _ (.ctl (.fetchPush _))
  | .on _ (.ctl (.tryPush _ _ _)) | .on _ (.ctl (.tryPushRet _ _ _ _))
  | .on _ (.ctl (.push _ _ _)) | .on _ (.ctl (.pushRet _ _)) | .on _ (.ctl (.clear _))
  | .on _ (.ctl (.clearQueue _ _)) | .on _ (.ctl (.clearQueueRet _ _)) | .on _ (.ctl (.clearRet _))
  | .on _ (.inner _ _) => isFalse (by rintro ⟨j, heq, -⟩; cases heq)

/-! ## A scheduler that draws its own indices is as if alone

On `b` nobody then reads an index from elsewhere, and a step of another scheduler
draws for a thread that has no index.  So a step of `b` is its step as if alone, and
the others do not show. -/

/-- The indices drawn on `b`. -/
def State.own (s : State n ι τ κ) (b : β) (i : ι) : Option (BitVec 32) :=
  if s.drawnOn i = some b then s.threadIndex i else none

/-- Scheduler `b` with the indices drawn on it. -/
def State.alone (s : State n ι τ κ) (b : β) : RrScheduler.State (n b) ι τ κ :=
  withIndex (s.sched b) (s.own b)

/-- A thread has an index from the scheduler it was drawn on, and who is past the draw in
`b` has it from there. -/
structure Drawn (b : β) (s : State n ι τ κ) : Prop where
  some_iff : ∀ i, (s.threadIndex i).isSome ↔ (s.drawnOn i).isSome
  inside : ∀ i, (s.sched b).ctl.scheduled i ≠ .outside → (s.sched b).ctl.scheduled i ≠ .entered →
    s.drawnOn i = some b

variable {b : β} {s : State n ι τ κ}

theorem next_sched_of_ne {b' : β} (hb : b' ≠ b) (e : RrScheduler.Event (n b') ι τ κ) :
    (next s (.on b' e)).sched b = s.sched b :=
  Function.update_of_ne hb.symm _ _

theorem next_sched_self (e : RrScheduler.Event (n b) ι τ κ) :
    (next s (.on b e)).sched b = (RrScheduler.machine (n b) ι τ κ).next (s.of b) e :=
  Function.update_self _ _ _

theorem alone_of_ne {b' : β} (hb : b' ≠ b) {e : RrScheduler.Event (n b') ι τ κ}
    (he : enabled s (.on b' e)) : (next s (.on b' e)).alone b = s.alone b := by
  have hown : (next s (.on b' e)).own b = s.own b := by
    funext i
    have hthread := RrScheduler.next_threadIndex (s.of b') e
    simp only [State.own, next, hthread, RrScheduler.State.indices]
    cases hd : drawer e with
    | none => rfl
    | some j =>
        rcases eq_or_ne i j with rfl | hne
        · have hnone : s.threadIndex i = none := RrScheduler.drawer_fresh he.1 hd
          simp [hb, hnone]
        · simp only [Function.update_of_ne hne]
          rfl
  rw [State.alone, next_sched_of_ne hb, hown]
  rfl

theorem own_self (e : RrScheduler.Event (n b) ι τ κ) :
    (next s (.on b e)).own b = RrScheduler.State.indices (s.sched b) (s.own b) e := by
  funext i
  have hthread := RrScheduler.next_threadIndex (s.of b) e
  simp only [State.own, next, hthread, RrScheduler.State.indices]
  cases hd : drawer e with
  | none => rfl
  | some j =>
      rcases eq_or_ne i j with rfl | hne
      · simp only [Function.update_self, if_true]
        rfl
      · simp only [Function.update_of_ne hne]
        rfl

/-- On `b` nobody reads an index from elsewhere. -/
theorem reads_own (h : Drawn b s) {e : RrScheduler.Event (n b) ι τ κ} (he : enabled s (.on b e))
    (hbrings : ¬ BringsIndex b s (.on b e)) (i : ι) (d : RrScheduler.Step (n b) ι τ κ)
    (hd : e = .ctl d) (hi : d.reads = some i) : s.threadIndex i = s.own b i := by
  subst hd
  have hown : s.drawnOn i = some b → s.threadIndex i = s.own b i := fun hb => (if_pos hb).symm
  rcases RrScheduler.reads_past he.1.1 hi with rfl | rfl | ⟨ho, hentered⟩
  · have hnone : s.threadIndex i = none := he.1.1.2
    rw [State.own, hnone, ite_self]
  · exact hown (not_not.mp fun hne => hbrings ⟨i, rfl, hne⟩)
  · exact hown (h.inside i ho hentered)

theorem alone_self (h : Drawn b s) {e : RrScheduler.Event (n b) ι τ κ}
    (he : enabled s (.on b e)) (hbrings : ¬ BringsIndex b s (.on b e)) :
    (RrScheduler.machine (n b) ι τ κ).Enabled (s.alone b) e ∧
      (next s (.on b e)).alone b = (RrScheduler.machine (n b) ι τ κ).next (s.alone b) e := by
  have hreads := reads_own h he hbrings
  refine ⟨RrScheduler.enabled_withIndex hreads he.1, ?_⟩
  rw [State.alone, next_sched_self, own_self]
  exact (RrScheduler.next_withIndex hreads).symm

theorem Drawn.stays (h : Drawn b s) {e : Event n ι τ κ} (he : enabled s e) {i : ι}
    (hi : s.drawnOn i = some b) : (next s e).drawnOn i = some b := by
  obtain ⟨b', e⟩ := e
  simp only [Schedulers.next]
  cases hd : drawer e with
  | none => exact hi
  | some j =>
      have hne : i ≠ j := by
        rintro rfl
        have hsome := (h.some_iff i).mpr (by rw [hi]; rfl)
        rw [show s.threadIndex i = none from RrScheduler.drawer_fresh he.1 hd] at hsome
        cases hsome
      simp only [Function.update_of_ne hne]
      exact hi

theorem Drawn.next (h : Drawn b s) {e : Event n ι τ κ} (he : enabled s e)
    (hbrings : ¬ BringsIndex b s e) : Drawn b (next s e) := by
  obtain ⟨b', e⟩ := e
  have hthread := RrScheduler.next_threadIndex (s.of b') e
  constructor
  · intro i
    simp only [Schedulers.next, hthread, RrScheduler.State.indices]
    cases hd : drawer e with
    | none => exact h.some_iff i
    | some j =>
        rcases eq_or_ne i j with rfl | hne
        · simp only [Function.update_self]
          exact ⟨fun _ => rfl, fun _ => rfl⟩
        · simp only [Function.update_of_ne hne]
          exact h.some_iff i
  · intro i ho hentered
    rcases eq_or_ne b' b with rfl | hb
    · rw [next_sched_self] at ho hentered
      cases e with
      | inner q m => exact h.stays he (h.inside i ho hentered)
      | ctl d =>
          rcases RrScheduler.past_draw he.1.1 ho hentered with ⟨ho', he'⟩ | rfl | rfl
          · exact h.stays he (h.inside i ho' he')
          · exact Function.update_self _ _ _
          · exact h.stays he (not_not.mp fun hne => hbrings ⟨i, rfl, hne⟩)
    · rw [next_sched_of_ne hb] at ho hentered
      exact h.stays he (h.inside i ho hentered)

/-! ## Runs -/

/-- The runs in which no thread brings an index from elsewhere to `b`. -/
abbrev undisturbed (n : β → QueueCount) (ι τ κ : Type) [DecidableEq ι] [DecidableEq τ]
    [DecidableEq κ] (b : β) : Machine (State n ι τ κ) (Event n ι τ κ) :=
  (machine n ι τ κ).restrict fun s e => ¬ BringsIndex b s e

omit [DecidableEq ι] [DecidableEq τ] [DecidableEq κ] in
theorem calls_self (es : List (Event n ι τ κ)) (e : RrScheduler.Event (n b) ι τ κ) :
    calls b (es ++ [.on b e]) = calls b es ++ [e] := by
  simp [calls, Event.seen]

omit [DecidableEq ι] [DecidableEq τ] [DecidableEq κ] in
theorem calls_of_ne (es : List (Event n ι τ κ)) {b' : β} (hb : b' ≠ b)
    (e : RrScheduler.Event (n b') ι τ κ) : calls b (es ++ [.on b' e]) = calls b es := by
  simp [calls, Event.seen, hb]

/-- What a run has made of scheduler `b`. -/
structure Alone (b : β) (es : List (Event n ι τ κ)) (s : State n ι τ κ) : Prop where
  run : (RrScheduler.machine (n b) ι τ κ).Run (fresh (n b) ι τ κ) (calls b es)
  state : (RrScheduler.machine (n b) ι τ κ).after (fresh (n b) ι τ κ) (calls b es) = s.alone b
  drawn : Drawn b s
  served : ∀ i, Served b es i → s.drawnOn i = some b

/-- **A scheduler whose threads bring no index from elsewhere behaves as if alone.** -/
theorem alone_run {es : List (Event n ι τ κ)}
    (h : (undisturbed n ι τ κ b).Run (State.initial n ι τ κ) es) :
    Alone b es ((machine n ι τ κ).after (State.initial n ι τ κ) es) := by
  rw [← Machine.after_restrict]
  refine h.history (I := Alone b) ?_ ?_
  · refine ⟨trivial, rfl, ⟨fun i => Iff.rfl, fun i ho => absurd rfl ho⟩, ?_⟩
    rintro i (hi | hi) <;> cases hi
  · rintro es ⟨b', e⟩ - ⟨he, hbrings⟩ ih
    have he' : enabled ((undisturbed n ι τ κ b).after (State.initial n ι τ κ) es) (.on b' e) := he
    have hstays := fun i hi => ih.drawn.stays he' (ih.served i hi)
    rcases eq_or_ne b' b with rfl | hb
    · obtain ⟨halone, hnext⟩ := alone_self ih.drawn he' hbrings
      refine ⟨?_, ?_, ih.drawn.next he' hbrings, ?_⟩
      · rw [calls_self, Machine.run_append, ih.state]
        exact ⟨ih.run, halone, trivial⟩
      · rw [calls_self, Machine.after_append, ih.state]
        exact hnext.symm
      · intro i hi
        rw [Served, calls_self, List.mem_append, List.mem_append, List.mem_singleton,
          List.mem_singleton] at hi
        rcases hi with (hi | rfl) | (hi | rfl)
        · exact hstays i (Or.inl hi)
        · exact Function.update_self _ _ _
        · exact hstays i (Or.inr hi)
        · exact ih.drawn.stays he' (not_not.mp fun hne => hbrings ⟨i, rfl, hne⟩)
    · refine ⟨?_, ?_, ih.drawn.next he' hbrings, ?_⟩
      · rw [calls_of_ne es hb]
        exact ih.run
      · rw [calls_of_ne es hb, ih.state]
        exact (alone_of_ne hb he').symm
      · intro i hi
        rw [Served, calls_of_ne es hb] at hi
        exact hstays i hi

/-! ## Homes -/

/-- Who has served `b` has its index, and its home, from the calls made on `b`. -/
theorem Alone.home {es : List (Event n ι τ κ)} (h : Alone b es s) {i : ι}
    (hi : Served b es i) : i ∈ drawers (calls b es) ∧ home s b i = slot (n b)
      (((RrScheduler.machine (n b) ι τ κ).after (fresh (n b) ι τ κ) (calls b es)).ctl.index i) := by
  have hdrawn := h.served i hi
  have hown : s.own b i = s.threadIndex i := if_pos hdrawn
  have hordered := RrScheduler.ordered h.run
  rw [h.state] at hordered ⊢
  constructor
  · by_contra hno
    have hsome := (h.drawn.some_iff i).mpr (by rw [hdrawn]; rfl)
    rw [← hown, show s.own b i = none from hordered.undrawn i hno] at hsome
    cases hsome
  · show slot (n b) ((s.threadIndex i).getD 0) = slot (n b) ((s.own b i).getD 0)
    rw [hown]

theorem Alone.drawers_length {es : List (Event n ι τ κ)} (h : Alone b es s) {T : Finset ι}
    (hT : ∀ i, Served b es i → i ∈ T) : (drawers (calls b es)).length ≤ T.card := by
  rw [← List.toFinset_card_of_nodup (RrScheduler.ordered h.run).nodup]
  refine Finset.card_le_card fun i hi => hT i (Or.inl ?_)
  obtain ⟨e, he, hdraw⟩ := List.mem_filterMap.mp (List.mem_toFinset.mp hi)
  cases e with
  | inner q m => cases hdraw
  | ctl d =>
      cases d with
      | initIndex j => cases hdraw; exact he
      | _ => cases hdraw

/-- **In the runs in which no thread brings an index from elsewhere to `b`, up to as many
threads as `b` has queues have different homes on `b`, and the home of a thread depends
on the calls made on `b` alone.** -/
theorem homes_own {es : List (Event n ι τ κ)}
    (h : (undisturbed n ι τ κ b).Run (State.initial n ι τ κ) es) :
    (∀ T : Finset ι, T.card ≤ (n b).size → (∀ i, Served b es i → i ∈ T) →
      ∀ i j, Served b es i → Served b es j →
        home ((machine n ι τ κ).after (State.initial n ι τ κ) es) b i =
          home ((machine n ι τ κ).after (State.initial n ι τ κ) es) b j → i = j) ∧
    ∀ es', (undisturbed n ι τ κ b).Run (State.initial n ι τ κ) es' → calls b es' = calls b es →
      ∀ i, Served b es i →
        home ((machine n ι τ κ).after (State.initial n ι τ κ) es') b i =
          home ((machine n ι τ κ).after (State.initial n ι τ κ) es) b i := by
  have halone := alone_run h
  constructor
  · intro T hcard hT i j hi hj heq
    obtain ⟨hmem, hhome⟩ := halone.home hi
    obtain ⟨hmem', hhome'⟩ := halone.home hj
    rw [hhome, hhome'] at heq
    exact (RrScheduler.ordered halone.run).slot_inj ((halone.drawers_length hT).trans hcard)
      hmem hmem' heq
  · intro es' h' hcalls i hi
    have hi' : Served b es' i := by
      rw [Served, hcalls]
      exact hi
    rw [(halone.home hi).2, ((alone_run h').home hi').2, hcalls]

def twoQueues : QueueCount := .two

/-- Two threads serve the second of two schedulers.  The first of them is given a task, and
then serves the first scheduler with the index it has; a third one has drawn there before. -/
def inCompany : List (Event (fun _ : Bool => twoQueues) (Option Bool) Unit Unit) :=
  [.on false (.ctl (.enter none)), .on false (.ctl (.initIndex none)),
   .on true (.ctl (.schedule ())), .on true (.ctl (.fetchPush ())),
   .on true (.ctl (.tryPush () 0 0)), .on true (.inner 0 (.lock (.schedule ()) (.tryPush ()))),
   .on true (.inner 0 (.body (.schedule ()) (.tryPush ()))),
   .on true (.inner 0 (.notifyOne (.schedule ()) (.tryPush ()) (.pushed true) none)),
   .on true (.ctl (.tryPushRet () 0 0 true)),
   .on true (.ctl (.enter (some false))), .on true (.ctl (.initIndex (some false))),
   .on true (.ctl (.tryPop (some false) 0)),
   .on true (.inner 0 (.lock (.scheduled (some false)) .tryPop)),
   .on true (.inner 0 (.body (.scheduled (some false)) .tryPop)),
   .on true (.ctl (.tryPopRet (some false) 0 (some ()))),
   .on true (.ctl (.leave (some false) (some ()))),
   .on false (.ctl (.enter (some false))), .on false (.ctl (.readIndex (some false))),
   .on true (.ctl (.enter (some true))), .on true (.ctl (.initIndex (some true)))]

/-- The same calls on the second scheduler, and none on the first. -/
def alone : List (Event (fun _ : Bool => twoQueues) (Option Bool) Unit Unit) :=
  (calls true inCompany).map (.on true)

theorem homes_own_inCompany :
    home ((machine (fun _ : Bool => twoQueues) (Option Bool) Unit Unit).after
        (State.initial _ _ _ _) inCompany) true (some false) ≠
      home ((machine (fun _ : Bool => twoQueues) (Option Bool) Unit Unit).after
        (State.initial _ _ _ _) inCompany) true (some true) ∧
    home ((machine (fun _ : Bool => twoQueues) (Option Bool) Unit Unit).after
        (State.initial _ _ _ _) alone) true (some true) =
      home ((machine (fun _ : Bool => twoQueues) (Option Bool) Unit Unit).after
        (State.initial _ _ _ _) inCompany) true (some true) := by
  have hserved : ∀ i, Served true inCompany i ↔ i ∈ ({some false, some true} : Finset _) := by
    rintro (_ | _ | _) <;> simp [Served, calls, inCompany, Event.seen]
  obtain ⟨hdiffer, hsame⟩ := homes_own (b := true)
    (show (undisturbed (fun _ : Bool => twoQueues) (Option Bool) Unit Unit true).Run
      (State.initial _ _ _ _) inCompany by decide +kernel)
  refine ⟨fun heq => ?_,
    hsame alone (by decide +kernel) rfl (some true) ((hserved (some true)).mpr (by decide))⟩
  exact absurd (hdiffer {some false, some true} (by decide) (fun i => (hserved i).mp) (some false)
    (some true) ((hserved _).mpr (by decide)) ((hserved _).mpr (by decide)) heq) (by decide)

/-- A thread is given a task by the first scheduler and then serves the second; another
thread serves the second only. -/
def broughtIndex : List (Event (fun _ : Bool => twoQueues) Bool Unit Unit) :=
  [.on false (.ctl (.schedule ())), .on false (.ctl (.fetchPush ())),
   .on false (.ctl (.tryPush () 0 0)), .on false (.inner 0 (.lock (.schedule ()) (.tryPush ()))),
   .on false (.inner 0 (.body (.schedule ()) (.tryPush ()))),
   .on false (.inner 0 (.notifyOne (.schedule ()) (.tryPush ()) (.pushed true) none)),
   .on false (.ctl (.tryPushRet () 0 0 true)),
   .on false (.ctl (.enter false)), .on false (.ctl (.initIndex false)),
   .on false (.ctl (.tryPop false 0)), .on false (.inner 0 (.lock (.scheduled false) .tryPop)),
   .on false (.inner 0 (.body (.scheduled false) .tryPop)),
   .on false (.ctl (.tryPopRet false 0 (some ()))), .on false (.ctl (.leave false (some ()))),
   .on true (.ctl (.enter false)), .on true (.ctl (.readIndex false)),
   .on true (.ctl (.enter true)), .on true (.ctl (.initIndex true))]

/-- Two threads serve the two queues of the second scheduler, and have one home. -/
theorem shared_home :
    (machine (fun _ : Bool => twoQueues) Bool Unit Unit).Run (State.initial _ _ _ _) broughtIndex ∧
      (∀ i, Served true broughtIndex i) ∧ (Finset.univ : Finset Bool).card = twoQueues.size ∧
      home ((machine (fun _ : Bool => twoQueues) Bool Unit Unit).after (State.initial _ _ _ _)
          broughtIndex) true false =
        home ((machine (fun _ : Bool => twoQueues) Bool Unit Unit).after (State.initial _ _ _ _)
          broughtIndex) true true := by
  refine ⟨by decide +kernel, ?_, rfl, by decide +kernel⟩
  intro i
  cases i
  · exact Or.inr (by simp [calls, broughtIndex, Event.seen])
  · exact Or.inl (by simp [calls, broughtIndex, Event.seen])

end Schedulers

end Jar.Concurrency
