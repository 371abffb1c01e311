/-
# `Jar.Concurrency.Latch` — counting down, and waiting for it

`latch` has an atomic counter, one mutex and one condition variable.
`count_down` subtracts, reads the counter again and, if it finds zero, notifies
all; it never takes the mutex.  `wait` takes the mutex, reads the counter and
sleeps on the condition variable until it finds zero.  `arrive_and_wait` is the
one and then the other.

    count_down   counting ─subtract─▸ rereading ─reread─▸ notifying ─notifyAll─▸ (over)
                                          └──── not zero ────────────────────────▸ ▲
    wait         locking ▸ checking ▸ testing ▸ blocking ▸ asleep ▸ woken
                              └────▸ unlocking ◂─┘ ◂──────────────────┘

Waiters are never released early (`waited_counted`).  They may be left asleep: a
`notify_all` that falls between a waiter's look at the counter and its going to
sleep does not reach it.  That is the only way (`never_stuck`), and unless another
`count_down` is still to notify it always is one (`stuck_after`).

The counter is a `size_t`, so it wraps; the calls of one latch count down by
what it was made with and no more, which is what the machine asks of its
environment.
-/
import Jar.Lib.CondVar
import Jar.Lib.Machine
import Jar.Lib.Tally

namespace Jar.Concurrency

open Jar.Lib

namespace Latch

/-! ## The threads

Any number of threads count down or wait, in any order.  The counter is a 64-bit
number, and `count_down` subtracts from it without a check. -/

/-- Where a thread stands.  The flag of a `count_down` says whether it is part of an
`arrive_and_wait`.  `checking`, `testing`, `blocking` and `unlocking` have the mutex;
`blocking` has found the counter not zero and not yet gone to sleep. -/
inductive Pc where
  | idle
  | counting (n : BitVec 64) (andWait : Bool)
  | rereading (andWait : Bool)
  | notifying (andWait : Bool)
  | locking
  | checking
  | testing
  | blocking
  | asleep
  | woken
  | unlocking
  | waited
  deriving DecidableEq, Repr

/-- `m_expected`, `m_mutex` and the threads; `called` and `counted` add up what the calls so
far count down by and what has been subtracted. -/
structure State (ι : Type) where
  expected : BitVec 64
  locked : Bool
  pc : ι → Pc
  called : ℕ
  counted : ℕ

inductive Event (ι : Type) where
  | countDown (t : ι) (n : BitVec 64) (andWait : Bool)
  | subtract (t : ι) (n : BitVec 64) (andWait : Bool)
  | reread (t : ι) (andWait : Bool)
  | notifyAll (t : ι) (andWait : Bool)
  | wait (t : ι)
  | lock (t : ι)
  | check (t : ι)
  | test (t : ι)
  | sleep (t : ι)
  | spurious (t : ι)
  | relock (t : ι)
  | unlock (t : ι)
  | ret (t : ι)
  deriving DecidableEq, Repr

variable {ι : Type}

/-- `try_wait`. -/
def State.tryWait (s : State ι) : Bool := s.expected = 0

/-- Where `count_down` leads. -/
def afterCount (andWait : Bool) : Pc := if andWait then .locking else .idle

/-- The threads asleep on `m_condition`; a woken one goes for the mutex. -/
def sleepers : CondVar Pc where
  asleep p := p = .asleep
  wake
    | .asleep => .woken
    | p => p
  awake p h := by
    obtain rfl : p = .asleep := by simpa using h
    rfl

def enabled (total : BitVec 64) (s : State ι) : Event ι → Prop
  | .countDown t n _ => s.pc t = .idle ∧ s.called + n.toNat ≤ total.toNat
  | .subtract t n andWait => s.pc t = .counting n andWait
  | .reread t andWait => s.pc t = .rereading andWait
  | .notifyAll t andWait => s.pc t = .notifying andWait
  | .wait t => s.pc t = .idle
  | .lock t => s.pc t = .locking ∧ s.locked = false
  | .check t => s.pc t = .checking
  | .test t => s.pc t = .testing
  | .sleep t => s.pc t = .blocking
  | .spurious t => s.pc t = .asleep
  | .relock t => s.pc t = .woken ∧ s.locked = false
  | .unlock t => s.pc t = .unlocking
  | .ret t => s.pc t = .waited

variable [DecidableEq ι]

def State.setPc (s : State ι) (t : ι) (p : Pc) : State ι :=
  { s with pc := Function.update s.pc t p }

def next (s : State ι) : Event ι → State ι
  | .countDown t n andWait =>
      { s.setPc t (.counting n andWait) with called := s.called + n.toNat }
  | .subtract t n andWait =>
      { s.setPc t (.rereading andWait) with
        expected := s.expected - n, counted := s.counted + n.toNat }
  | .reread t andWait => s.setPc t (if s.tryWait then .notifying andWait else afterCount andWait)
  | .notifyAll t andWait =>
      { s with pc := Function.update (sleepers.wakeAll s.pc) t (afterCount andWait) }
  | .wait t => s.setPc t .locking
  | .lock t => { s.setPc t .checking with locked := true }
  | .check t => s.setPc t (if s.tryWait then .unlocking else .testing)
  | .test t => s.setPc t (if s.tryWait then .unlocking else .blocking)
  | .sleep t => { s.setPc t .asleep with locked := false }
  | .spurious t => s.setPc t .woken
  | .relock t => { s.setPc t .testing with locked := true }
  | .unlock t => { s.setPc t .waited with locked := false }
  | .ret t => s.setPc t .idle

/-- A latch that nobody has touched. -/
def State.initial (total : BitVec 64) : State ι := ⟨total, false, fun _ => .idle, 0, 0⟩

/-- Any number of threads on a latch made with `total`. -/
def machine (ι : Type) [DecidableEq ι] (total : BitVec 64) : Machine (State ι) (Event ι) where
  Init s := s = State.initial total
  Enabled := enabled total
  next := next

/-! ## What a step does to a thread -/

def Event.thread : Event ι → ι
  | .countDown t _ _ | .subtract t _ _ | .reread t _ | .notifyAll t _ | .wait t | .lock t
  | .check t | .test t | .sleep t | .spurious t | .relock t | .unlock t | .ret t => t

/-- Where its thread stands before an event, -/
def Event.source : Event ι → Pc
  | .countDown _ _ _ | .wait _ => .idle
  | .subtract _ n w => .counting n w
  | .reread _ w => .rereading w
  | .notifyAll _ w => .notifying w
  | .lock _ => .locking
  | .check _ => .checking
  | .test _ => .testing
  | .sleep _ => .blocking
  | .spurious _ => .asleep
  | .relock _ => .woken
  | .unlock _ => .unlocking
  | .ret _ => .waited

/-- and after it. -/
def Event.target (s : State ι) : Event ι → Pc
  | .countDown _ n w => .counting n w
  | .subtract _ _ w => .rereading w
  | .reread _ w => if s.tryWait then .notifying w else afterCount w
  | .notifyAll _ w => afterCount w
  | .wait _ => .locking
  | .lock _ => .checking
  | .check _ => if s.tryWait then .unlocking else .testing
  | .test _ => if s.tryWait then .unlocking else .blocking
  | .sleep _ => .asleep
  | .spurious _ => .woken
  | .relock _ => .testing
  | .unlock _ => .waited
  | .ret _ => .idle

/-- How thread `u` gets from one counter to the next. -/
inductive Moves (s : State ι) (u : ι) : Event ι → Pc → Pc → Prop
  | countDown {n : BitVec 64} {w : Bool} : Moves s u (.countDown u n w) .idle (.counting n w)
  | subtract {n : BitVec 64} {w : Bool} :
      Moves s u (.subtract u n w) (.counting n w) (.rereading w)
  | rereadZero {w : Bool} (hz : s.expected = 0) :
      Moves s u (.reread u w) (.rereading w) (.notifying w)
  | rereadMore {w : Bool} (hz : s.expected ≠ 0) {q : Pc} (hq : q = .locking ∨ q = .idle) :
      Moves s u (.reread u w) (.rereading w) q
  | notifyAll {w : Bool} {q : Pc} (hq : q = .locking ∨ q = .idle) :
      Moves s u (.notifyAll u w) (.notifying w) q
  | wait : Moves s u (.wait u) .idle .locking
  | lock : Moves s u (.lock u) .locking .checking
  | checkZero (hz : s.expected = 0) : Moves s u (.check u) .checking .unlocking
  | checkMore (hz : s.expected ≠ 0) : Moves s u (.check u) .checking .testing
  | testZero (hz : s.expected = 0) : Moves s u (.test u) .testing .unlocking
  | testMore (hz : s.expected ≠ 0) : Moves s u (.test u) .testing .blocking
  | sleep : Moves s u (.sleep u) .blocking .asleep
  | spurious : Moves s u (.spurious u) .asleep .woken
  | relock : Moves s u (.relock u) .woken .testing
  | unlock : Moves s u (.unlock u) .unlocking .waited
  | ret : Moves s u (.ret u) .waited .idle
  | woken {t : ι} {w : Bool} (ht : t ≠ u) : Moves s u (.notifyAll t w) .asleep .woken
  | other {e : Event ι} {p : Pc} (he : e.thread ≠ u)
      (hp : ∀ t w, e = .notifyAll t w → p ≠ .asleep) : Moves s u e p p

variable {total : BitVec 64} {s : State ι} {e : Event ι}

omit [DecidableEq ι] in
theorem enabled_source (he : enabled total s e) : s.pc e.thread = e.source := by
  cases e with
  | countDown | lock | relock => exact he.1
  | _ => exact he

/-- What an event makes of the threads other than its own: a notification wakes them. -/
def Event.others (s : State ι) : Event ι → ι → Pc
  | .notifyAll _ _ => sleepers.wakeAll s.pc
  | _ => s.pc

theorem next_pc (s : State ι) (e : Event ι) :
    (next s e).pc = Function.update (e.others s) e.thread (e.target s) := by
  cases e <;> rfl

theorem next_pc_of_ne (s : State ι) {u : ι} (hu : e.thread ≠ u) :
    (next s e).pc u = s.pc u ∧ (∀ t w, e = .notifyAll t w → s.pc u ≠ .asleep) ∨
      (∃ t w, e = .notifyAll t w ∧ s.pc u = .asleep ∧ (next s e).pc u = .woken) := by
  rw [next_pc, Function.update_of_ne hu.symm]
  cases e with
  | notifyAll t w =>
      rw [Event.others]
      cases hs : sleepers.asleep (s.pc u) with
      | true =>
          have hasleep : s.pc u = .asleep := by simpa [sleepers] using hs
          refine Or.inr ⟨t, w, rfl, hasleep, ?_⟩
          rw [CondVar.wakeAll_of_asleep hs, hasleep]
          rfl
      | false =>
          refine Or.inl ⟨CondVar.wakeAll_of_awake hs, fun _ _ _ hasleep => ?_⟩
          rw [hasleep] at hs
          cases hs
  | _ => exact Or.inl ⟨rfl, nofun⟩

omit [DecidableEq ι] in
theorem tryWait_iff {s : State ι} : s.tryWait = true ↔ s.expected = 0 := by simp [State.tryWait]

theorem afterCount_eq (w : Bool) : afterCount w = .locking ∨ afterCount w = .idle := by
  cases w
  · exact Or.inr rfl
  · exact Or.inl rfl

omit [DecidableEq ι] in
theorem moves_self (s : State ι) (e : Event ι) : Moves s e.thread e e.source (e.target s) := by
  have hzero : s.tryWait = false → s.expected ≠ 0 := by
    intro h hz
    rw [tryWait_iff.mpr hz] at h
    cases h
  cases e with
  | countDown => exact .countDown
  | subtract => exact .subtract
  | notifyAll t w => exact .notifyAll (afterCount_eq w)
  | wait => exact .wait
  | lock => exact .lock
  | sleep => exact .sleep
  | spurious => exact .spurious
  | relock => exact .relock
  | unlock => exact .unlock
  | ret => exact .ret
  | reread t w =>
      rw [Event.target]
      cases h : s.tryWait with
      | true => exact .rereadZero (tryWait_iff.mp h)
      | false => exact .rereadMore (hzero h) (afterCount_eq w)
  | check t =>
      rw [Event.target]
      cases h : s.tryWait with
      | true => exact .checkZero (tryWait_iff.mp h)
      | false => exact .checkMore (hzero h)
  | test t =>
      rw [Event.target]
      cases h : s.tryWait with
      | true => exact .testZero (tryWait_iff.mp h)
      | false => exact .testMore (hzero h)

theorem moves (he : enabled total s e) (u : ι) : Moves s u e (s.pc u) ((next s e).pc u) := by
  rcases eq_or_ne e.thread u with rfl | hu
  · rw [enabled_source he, next_pc, Function.update_self]
    exact moves_self s e
  · rcases next_pc_of_ne s hu with ⟨hsame, hawake⟩ | ⟨t, w, rfl, hold, hnew⟩
    · rw [hsame]
      exact .other hu hawake
    · rw [hold, hnew]
      exact .woken hu

/-! ## The count

A thread owes what it has called for and not subtracted.  What is subtracted was owed,
and all that is owed was expected at the beginning; so the counter does not wrap, and
is zero exactly when everything is subtracted. -/

/-- What a thread has still to subtract. -/
def pending : Pc → ℕ
  | .counting n _ => n.toNat
  | _ => 0

/-- The counter is what is left to count down, and what was called for is subtracted or
about to be. -/
def Counts (total : BitVec 64) (s : State ι) : Prop :=
  s.expected.toNat + s.counted = total.toNat ∧ s.called ≤ total.toNat ∧
    ∃ T : Finset ι, (∀ t, t ∉ T → s.pc t = .idle) ∧ s.counted + tally pending s.pc T = s.called

theorem tally_next (he : enabled total s e) {T : Finset ι} (hT : ∀ t, t ∉ T → s.pc t = .idle) :
    (∀ t, t ∉ insert e.thread T → (next s e).pc t = .idle) ∧
      tally pending (next s e).pc (insert e.thread T) + pending e.source =
        tally pending s.pc T + pending (e.target s) := by
  constructor
  · intro t ht
    rw [Finset.mem_insert, not_or] at ht
    rcases next_pc_of_ne s (Ne.symm ht.1) with ⟨hsame, -⟩ | ⟨_, _, _, hasleep, -⟩
    · rw [hsame, hT t ht.2]
    · rw [hT t ht.2] at hasleep
      cases hasleep
  · have hothers : ∀ u, pending (e.others s u) = pending (s.pc u) := by
      intro u
      cases e with
      | notifyAll t w =>
          show pending (sleepers.wakeAll s.pc u) = _
          cases hs : sleepers.asleep (s.pc u) with
          | true =>
              rw [CondVar.wakeAll_of_asleep hs, show s.pc u = .asleep by simpa [sleepers] using hs]
              rfl
          | false => rw [CondVar.wakeAll_of_awake hs]
      | _ => rfl
    have hsum : tally pending (e.others s) (insert e.thread T) = tally pending s.pc T := by
      calc tally pending (e.others s) (insert e.thread T)
          = tally pending s.pc (insert e.thread T) := Finset.sum_congr rfl fun u _ => hothers u
        _ = tally pending s.pc T := by
          by_cases ht : e.thread ∈ T
          · rw [Finset.insert_eq_of_mem ht]
          · exact tally_insert_zero (by rw [hT e.thread ht]; rfl)
    have hupd := tally_update (w := pending) (f := e.others s)
      (Finset.mem_insert_self e.thread T) (e.target s)
    rw [hothers, enabled_source he] at hupd
    rw [next_pc]
    omega

/-- What an event calls for, and what it subtracts. -/
def Event.adds : Event ι → ℕ
  | .countDown _ n _ => n.toNat
  | _ => 0

def Event.takes : Event ι → BitVec 64
  | .subtract _ n _ => n
  | _ => 0

theorem next_called (s : State ι) (e : Event ι) : (next s e).called = s.called + e.adds := by
  cases e <;> rfl

theorem next_counted (s : State ι) (e : Event ι) :
    (next s e).counted = s.counted + e.takes.toNat := by
  cases e <;> rfl

theorem next_expected (s : State ι) (e : Event ι) :
    (next s e).expected = s.expected - e.takes := by
  cases e with
  | subtract => rfl
  | _ => exact (BitVec.sub_zero _).symm

theorem pending_afterCount (w : Bool) : pending (afterCount w) = 0 := by
  cases w <;> rfl

omit [DecidableEq ι] in
theorem pending_target (s : State ι) (e : Event ι) :
    pending (e.target s) + e.takes.toNat = pending e.source + e.adds := by
  cases e with
  | countDown t n w => simp [Event.target, Event.source, Event.takes, Event.adds, pending]
  | subtract t n w => simp [Event.target, Event.source, Event.takes, Event.adds, pending]
  | reread t w =>
      simp only [Event.target]
      split
      · rfl
      · rw [pending_afterCount]; rfl
  | notifyAll t w => simp only [Event.target]; rw [pending_afterCount]; rfl
  | check t => simp only [Event.target]; split <;> rfl
  | test t => simp only [Event.target]; split <;> rfl
  | _ => rfl

/-- What is subtracted was pending, so the counter does not wrap. -/
theorem takes_le (h : Counts total s) (he : enabled total s e) :
    e.takes.toNat ≤ s.expected.toNat := by
  obtain ⟨hleft, hbound, T, hT, hsum⟩ := h
  have htakes : e.takes.toNat ≤ pending (s.pc e.thread) := by
    rw [enabled_source he]
    cases e <;> simp [Event.takes, Event.source, pending]
  have hpending : pending (s.pc e.thread) ≤ tally pending s.pc T := by
    by_cases ht : e.thread ∈ T
    · exact le_tally ht
    · rw [hT _ ht]
      exact Nat.zero_le _
  omega

theorem Counts.next (h : Counts total s) (he : enabled total s e) : Counts total (next s e) := by
  have htakes := takes_le h he
  obtain ⟨hleft, hbound, T, hT, hsum⟩ := h
  obtain ⟨hT', htally⟩ := tally_next he hT
  have hpending := pending_target s e
  refine ⟨?_, ?_, _, hT', ?_⟩
  · rw [next_expected, next_counted]
    bv_omega
  · cases e with
    | countDown t n w => exact he.2
    | _ => exact hbound
  · rw [next_counted, next_called]
    omega

theorem counts (h : (machine ι total).Reachable s) : Counts total s := by
  refine h.invariant (I := Counts total) ?_ ?_
  · intro s hs
    rw [show s = State.initial total from hs]
    exact ⟨Nat.add_zero _, Nat.zero_le _, ∅, fun _ _ => rfl, rfl⟩
  · intro s e _ he hs
    exact hs.next he

omit [DecidableEq ι] in
theorem Counts.expected_iff (h : Counts total s) : s.expected = 0 ↔ s.counted = total.toNat := by
  have hleft := h.1
  constructor
  · intro hz
    rw [hz] at hleft
    simpa using hleft
  · intro hc
    bv_omega

theorem Counts.next_zero (h : Counts total s) (he : enabled total s e) (hz : s.expected = 0) :
    (Latch.next s e).expected = 0 := by
  have htakes := takes_le h he
  rw [next_expected]
  bv_omega

/-! ## Not too early -/

/-- A thread that has found the counter at zero. -/
def Pc.foundZero : Pc → Bool
  | .notifying _ | .unlocking | .waited => true
  | _ => false

/-- What a thread has found is still so. -/
def Found (s : State ι) : Prop := ∀ t, (s.pc t).foundZero = true → s.expected = 0

theorem Found.next (h : Found s) (hc : Counts total s) (he : enabled total s e) :
    Found (next s e) := by
  intro t ht
  have hmoves := moves he t
  have hold := h t
  refine hc.next_zero he ?_
  revert hmoves hold ht
  generalize s.pc t = p, (Latch.next s e).pc t = q
  intro ht hmoves hold
  cases hmoves with
  | rereadZero hz => exact hz
  | checkZero hz => exact hz
  | testZero hz => exact hz
  | unlock => exact hold rfl
  | other => exact hold ht
  | rereadMore _ hq => rcases hq with rfl | rfl <;> cases ht
  | notifyAll hq => rcases hq with rfl | rfl <;> cases ht
  | _ => cases ht

theorem found (h : (machine ι total).Reachable s) : Found s := by
  refine h.invariant (I := Found) ?_ ?_
  · intro s hs t ht
    rw [show s = State.initial total from hs] at ht
    cases ht
  · intro s e hr he hs
    exact hs.next (counts hr) he

/-- **No `wait` returns before everything is counted down.** -/
theorem waited_counted (h : (machine ι total).Reachable s) {t : ι} (ht : s.pc t = .waited) :
    s.counted = total.toNat :=
  (counts h).expected_iff.mp (found h t (by rw [ht]; rfl))

/-! ## Not never

The subtraction that makes the counter zero is followed by a second look at it and a
notification.  Nobody decides to sleep on a counter that is zero, so a thread that
sleeps afterwards has looked before the subtraction and gone to sleep after the
notification. -/

/-- A `count_down` that is under way. -/
def Pc.counts : Pc → Bool
  | .counting _ _ | .rereading _ | .notifying _ => true
  | _ => false

/-- Everything is called for, every `count_down` has returned, and a thread sleeps without a
notification. -/
def Stuck (total : BitVec 64) (s : State ι) : Prop :=
  s.called = total.toNat ∧ (∀ t, (s.pc t).counts = false) ∧ ∃ t, s.pc t = .asleep

/-- The last notification falls between a thread's look at the counter and its going to
sleep: no other `count_down` is under way that would notify again. -/
def FallsInWindow (s : State ι) : Event ι → Prop
  | .notifyAll t _ => (∃ u, s.pc u = .blocking) ∧ ∀ u, u ≠ t → (s.pc u).counts = false
  | _ => False

/-- While a thread sleeps, or is about to, on a counter that is zero, some `count_down` is
under way: it will find zero and notify. -/
def Owed (s : State ι) : Prop :=
  s.expected = 0 → (∃ t, s.pc t = .blocking ∨ s.pc t = .asleep) → ∃ u, (s.pc u).counts = true

/-- Whoever counts down goes on counting down, until it finds the counter not zero or has
notified. -/
theorem counts_stay (he : enabled total s e) {u : ι} (hu : (s.pc u).counts = true)
    (hz : s.expected = 0) (hn : ∀ w, e ≠ .notifyAll u w) : ((next s e).pc u).counts = true := by
  have hmoves := moves he u
  revert hmoves hu
  generalize s.pc u = p, (next s e).pc u = q
  intro hu hmoves
  cases hmoves with
  | subtract => rfl
  | rereadZero => rfl
  | rereadMore hne => exact absurd hz hne
  | notifyAll => exact absurd rfl (hn _)
  | other => exact hu
  | _ => cases hu

theorem sleeper_before (he : enabled total s e) (hz : s.expected = 0) {t : ι}
    (ht : (next s e).pc t = .blocking ∨ (next s e).pc t = .asleep) :
    (s.pc t = .blocking ∨ s.pc t = .asleep) ∧
      ∀ u w, e = .notifyAll u w → s.pc t = .blocking := by
  have hmoves := moves he t
  revert hmoves ht
  generalize s.pc t = p, (next s e).pc t = q
  intro ht hmoves
  cases hmoves with
  | testMore hne => exact absurd hz hne
  | sleep => exact ⟨Or.inl rfl, nofun⟩
  | other _ hp => exact ⟨ht, fun u w heq => ht.resolve_right (hp u w heq)⟩
  | rereadMore _ hq => rcases hq with rfl | rfl <;> rcases ht with ht | ht <;> cases ht
  | notifyAll hq => rcases hq with rfl | rfl <;> rcases ht with ht | ht <;> cases ht
  | _ => rcases ht with ht | ht <;> cases ht

theorem counts_zeroed (he : enabled total s e) (hne : s.expected ≠ 0)
    (hz : (next s e).expected = 0) : ((next s e).pc e.thread).counts = true := by
  rw [next_expected] at hz
  rw [next_pc, Function.update_self]
  cases e with
  | subtract => rfl
  | _ => exact absurd ((BitVec.sub_zero _).symm.trans hz) hne

theorem Owed.next (h : Owed s) (he : enabled total s e) (hwin : ¬ FallsInWindow s e) :
    Owed (Latch.next s e) := by
  intro hz hsleeper
  rcases eq_or_ne s.expected 0 with hzero | hne
  · obtain ⟨t, ht⟩ := hsleeper
    obtain ⟨hbefore, hblocking⟩ := sleeper_before he hzero ht
    by_cases hnotify : ∃ u w, e = .notifyAll u w
    · -- the sleeper was not yet asleep, so somebody else is to notify
      obtain ⟨u, w, rfl⟩ := hnotify
      have hother : ∃ v, v ≠ u ∧ (s.pc v).counts = true := by
        by_contra hno
        refine hwin ⟨⟨t, hblocking u w rfl⟩, fun v hv => ?_⟩
        rw [← Bool.not_eq_true]
        exact fun hcounts => hno ⟨v, hv, hcounts⟩
      obtain ⟨v, hv, hcounts⟩ := hother
      refine ⟨v, counts_stay he hcounts hzero fun w' heq => ?_⟩
      cases heq
      exact hv rfl
    · obtain ⟨u, hu⟩ := h hzero ⟨t, hbefore⟩
      exact ⟨u, counts_stay he hu hzero fun w heq => hnotify ⟨u, w, heq⟩⟩
  · exact ⟨e.thread, counts_zeroed he hne hz⟩

/-- The runs in which no last notification falls into the window. -/
abbrev timely (ι : Type) [DecidableEq ι] (total : BitVec 64) : Machine (State ι) (Event ι) :=
  (machine ι total).restrict fun s e => ¬ FallsInWindow s e

omit [DecidableEq ι] in
theorem Counts.counted_eq (h : Counts total s) (hcalled : s.called = total.toNat)
    (hover : ∀ t, (s.pc t).counts = false) : s.counted = total.toNat := by
  obtain ⟨-, -, T, -, hsum⟩ := h
  have hnone : tally pending s.pc T = 0 := by
    refine tally_eq_zero fun t _ => ?_
    have hpc := hover t
    revert hpc
    cases s.pc t with
    | counting => exact nofun
    | _ => exact fun _ => rfl
  omega

/-- **A latch releases its waiters in the runs in which no last notification falls
between a waiter's look at the counter and its going to sleep.** -/
theorem never_stuck (h : (timely ι total).Reachable s) : ¬ Stuck total s := by
  have howed : Owed s := by
    refine h.invariant (I := Owed) ?_ ?_
    · rintro s hs - ⟨t, ht⟩
      rw [show s = State.initial total from hs] at ht
      rcases ht with ht | ht <;> cases ht
    · rintro s e - ⟨he, hwin⟩ hs
      exact hs.next he hwin
  rintro ⟨hcalled, hover, t, ht⟩
  have hcounts := counts h.of_restrict
  obtain ⟨u, hu⟩ := howed (hcounts.expected_iff.mpr (hcounts.counted_eq hcalled hover))
    ⟨t, Or.inr ht⟩
  rw [hover u] at hu
  cases hu

theorem notify_over {t : ι} {w : Bool} (he : enabled total s (.notifyAll t w))
    (hothers : ∀ u, u ≠ t → (s.pc u).counts = false) (u : ι) :
    ((next s (.notifyAll t w)).pc u).counts = false := by
  have hmoves := moves he u
  have hold := hothers u
  revert hmoves hold
  generalize s.pc u = p, (next s (.notifyAll t w)).pc u = q
  intro hmoves hold
  cases hmoves with
  | notifyAll hq => rcases hq with rfl | rfl <;> rfl
  | woken => rfl
  | other hu => exact hold (Ne.symm hu)

theorem sleep_over {u : ι} (he : enabled total s (.sleep u))
    (hover : ∀ v, (s.pc v).counts = false) (v : ι) :
    ((next s (.sleep u)).pc v).counts = false := by
  have hmoves := moves he v
  have hold := hover v
  revert hmoves hold
  generalize s.pc v = p, (next s (.sleep u)).pc v = q
  intro hmoves hold
  cases hmoves with
  | sleep => rfl
  | other => exact hold

/-- **Every last notification that falls into the window leaves a thread asleep.** -/
theorem stuck_after (h : (machine ι total).Reachable s) (he : (machine ι total).Enabled s e)
    (hwin : FallsInWindow s e) :
    ∃ s', (machine ι total).Reaches (next s e) s' ∧ Stuck total s' := by
  cases e with
  | notifyAll t w =>
      obtain ⟨⟨u, hu⟩, hothers⟩ := hwin
      have hnotifying : s.pc t = .notifying w := he
      have hblocking : (next s (.notifyAll t w)).pc u = .blocking := by
        have hne : t ≠ u := by
          rintro rfl
          rw [hnotifying] at hu
          cases hu
        rcases next_pc_of_ne s (e := .notifyAll t w) hne with ⟨hsame, -⟩ | ⟨_, _, _, hasleep, -⟩
        · rw [hsame, hu]
        · rw [hu] at hasleep
          cases hasleep
      have hsleep : (machine ι total).Enabled (next s (.notifyAll t w)) (.sleep u) := hblocking
      refine ⟨_, .single hsleep, ?_, ?_, u, Function.update_self _ _ _⟩
      · -- the notifier has found the counter at zero, so everything is called for
        obtain ⟨-, hbound, T, -, hsum⟩ := counts h
        have hcounted := (counts h).expected_iff.mp (found h t (by rw [hnotifying]; rfl))
        show s.called = total.toNat
        omega
      · have hnotify : enabled total s (.notifyAll t w) := he
        have hlast : enabled total (next s (.notifyAll t w)) (.sleep u) := hblocking
        exact sleep_over hlast (notify_over hnotify hothers)
  | _ => exact hwin.elim

/-! ## The latch -/

/-- **The latch releases its waiters never early, and never only when the last
notification falls into the window.** -/
theorem released (ι : Type) [DecidableEq ι] (total : BitVec 64) :
    (∀ s, (machine ι total).Reachable s → ∀ t, s.pc t = .waited → s.counted = total.toNat) ∧
      (∀ s, (timely ι total).Reachable s → ¬ Stuck total s) ∧
      ∀ s e, (machine ι total).Reachable s → (machine ι total).Enabled s e → FallsInWindow s e →
        ∃ s', (machine ι total).Reaches (next s e) s' ∧ Stuck total s' :=
  ⟨fun _ h _ ht => waited_counted h ht, fun _ h => never_stuck h, fun _ _ => stuck_after⟩

/-- A thread sleeps, is woken by the last `count_down`, and returns. -/
def sleptFirst : List (Event Bool) :=
  [.wait false, .lock false, .check false, .test false, .sleep false,
   .countDown true 1 false, .subtract true 1 false, .reread true false, .notifyAll true false,
   .relock false, .test false, .unlock false]

theorem released_sleptFirst :
    ((machine Bool 1).after (State.initial 1) sleptFirst).counted = 1 ∧
      ¬ Stuck 1 ((machine Bool 1).after (State.initial 1) sleptFirst) := by
  have hwindow : ¬ FallsInWindow ((machine Bool 1).after (State.initial 1) (sleptFirst.take 8))
      (.notifyAll true false) := by
    rintro ⟨⟨u, hu⟩, -⟩
    cases u <;> cases hu
  have hrun : (timely Bool 1).Run (State.initial 1) sleptFirst :=
    ⟨⟨rfl, id⟩, ⟨⟨rfl, rfl⟩, id⟩, ⟨rfl, id⟩, ⟨rfl, id⟩, ⟨rfl, id⟩, ⟨⟨rfl, by decide⟩, id⟩,
      ⟨rfl, id⟩, ⟨rfl, id⟩, ⟨rfl, hwindow⟩, ⟨⟨rfl, rfl⟩, id⟩, ⟨rfl, id⟩, ⟨rfl, id⟩, trivial⟩
  have hreach : (timely Bool 1).Reachable ((machine Bool 1).after (State.initial 1) sleptFirst) :=
    ⟨State.initial 1, rfl, sleptFirst, hrun, rfl⟩
  exact ⟨(released Bool 1).1 _ hreach.of_restrict false rfl, (released Bool 1).2.1 _ hreach⟩

/-- A waiter has found the counter at one; before it sleeps the other thread counts down
and notifies. -/
theorem asleep_at_zero : ∃ s : State Bool, (machine Bool 1).Reachable s ∧ Stuck 1 s := by
  refine ⟨(machine Bool 1).after (State.initial 1)
    [.wait false, .lock false, .check false, .test false,
     .countDown true 1 false, .subtract true 1 false, .reread true false, .notifyAll true false,
     .sleep false], Machine.Reachable.of_run rfl ?_, rfl, ?_, false, rfl⟩
  · exact ⟨rfl, ⟨rfl, rfl⟩, rfl, rfl, ⟨rfl, by decide⟩, rfl, rfl, rfl, rfl, trivial⟩
  · intro t
    cases t <;> rfl

end Latch

end Jar.Concurrency
