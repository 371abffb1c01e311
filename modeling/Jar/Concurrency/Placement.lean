/-
# `Jar.Concurrency.Placement` — where the tasks go, in the long run

`schedule` draws a start index from a 32-bit counter and reduces it modulo the
number of queues.  Without contention the first `try_push` is accepted, so the task
goes to the queue the call starts at, and the calls start at the queues in turn —
until the counter wraps.  There the turn jumps back to queue 0, unless the number of
queues divides `2^32`, and queue 0 is ahead of the last queue by two from then on,
but for the moments of the second time round at which a turn is complete.

Here the calls are made one after the other; `run_schedules` says that the
scheduler's machine does the same when nobody else is about.
-/
import Jar.Concurrency.Scanning

namespace Jar.Concurrency

open Jar.Lib

namespace RrScheduler

variable {n : QueueCount} {ι τ κ : Type}

/-! ## Calls one after the other -/

/-- `m_push_index` and the queues. -/
structure Placed (n : QueueCount) (τ : Type) where
  pushIndex : BitVec 32
  queues : Fin n.size → List τ

/-- A fresh scheduler. -/
def Placed.fresh (n : QueueCount) (τ : Type) : Placed n τ := ⟨0, fun _ => []⟩

/-- The queue at which the next call of `schedule` starts. -/
def Placed.start (p : Placed n τ) : Fin n.size := probe n p.pushIndex 0

/-- `schedule`, with no contention: the `try_push` of the first round is accepted. -/
def Placed.schedule (p : Placed n τ) (x : τ) : Placed n τ :=
  ⟨p.pushIndex + 1, Function.update p.queues p.start (p.queues p.start ++ [x])⟩

/-- The calls for a list of tasks. -/
def Placed.schedules (p : Placed n τ) (xs : List τ) : Placed n τ := xs.foldl Placed.schedule p

/-- Tasks are placed in turn: the queues' lengths differ by one at most, and every call
starts at the queue after the one at which the call before it started. -/
structure RoundRobin (n : QueueCount) (xs : List τ) : Prop where
  balanced : ∀ p q, (((Placed.fresh n τ).schedules xs).queues p).length ≤
    (((Placed.fresh n τ).schedules xs).queues q).length + 1
  consecutive : ∀ j, j + 1 < xs.length →
    ((Placed.fresh n τ).schedules (xs.take (j + 1))).start.val =
      (((Placed.fresh n τ).schedules (xs.take j)).start + 1) % n.size

/-! ## Starts and lengths

A queue is as long as the counter has come by it.  The turn goes on over the wrap only
if the wrap is a turn's end, and then the lengths differ by one at most; after any
other wrap they do so on the second time round, when a turn is complete, and never
again. -/

theorem schedules_snoc (p : Placed n τ) (xs : List τ) (x : τ) :
    p.schedules (xs ++ [x]) = (p.schedules xs).schedule x := by
  rw [Placed.schedules, List.foldl_append]
  rfl

theorem schedules_pushIndex (xs : List τ) :
    ((Placed.fresh n τ).schedules xs).pushIndex = BitVec.ofNat 32 xs.length := by
  induction xs using List.reverseRecOn with
  | nil => rfl
  | append_singleton xs x ih =>
      rw [schedules_snoc, Placed.schedule, ih, List.length_append]
      apply BitVec.eq_of_toNat_eq
      simp [BitVec.toNat_add]

theorem schedules_start (xs : List τ) :
    ((Placed.fresh n τ).schedules xs).start.val = xs.length % 2 ^ 32 % n.size := by
  rw [Placed.start, schedules_pushIndex]
  show (BitVec.ofNat 32 xs.length + BitVec.ofNat 32 0).toNat % n.size = _
  simp

theorem start_of_take {xs : List τ} {j : ℕ} (hj : j ≤ xs.length) :
    ((Placed.fresh n τ).schedules (xs.take j)).start.val = j % 2 ^ 32 % n.size := by
  rw [schedules_start, List.length_take, Nat.min_eq_left hj]

theorem schedules_length (xs : List τ) (q : Fin n.size) :
    (((Placed.fresh n τ).schedules xs).queues q).length =
      WrappingCounter.visits (2 ^ 32) n.size xs.length q := by
  induction xs using List.reverseRecOn with
  | nil => rfl
  | append_singleton xs x ih =>
      have hstart := schedules_start (n := n) xs
      rw [schedules_snoc, Placed.schedule, List.length_append, List.length_singleton,
        WrappingCounter.visits, Nat.count_succ, ← WrappingCounter.visits, ← ih, ← hstart]
      rcases eq_or_ne ((Placed.fresh n τ).schedules xs).start q with rfl | hq
      · simp
      · rw [if_neg fun hval => hq (Fin.ext hval)]
        exact congrArg List.length (Function.update_of_ne hq.symm _ _)

theorem balanced_iff_visits (xs : List τ) :
    (∀ p q, (((Placed.fresh n τ).schedules xs).queues p).length ≤
      (((Placed.fresh n τ).schedules xs).queues q).length + 1) ↔
      WrappingCounter.Balanced (2 ^ 32) n.size xs.length := by
  constructor
  · intro h p q hp hq
    have hpq := h ⟨p, hp⟩ ⟨q, hq⟩
    rwa [schedules_length, schedules_length] at hpq
  · intro h p q
    rw [schedules_length, schedules_length]
    exact h p q p.isLt q.isLt

/-- **The lengths alone**: they differ by one at most also on the second time round, when a
turn is complete, and never again. -/
theorem lengths_balanced_iff (n : QueueCount) (xs : List τ) :
    (∀ p q, (((Placed.fresh n τ).schedules xs).queues p).length ≤
      (((Placed.fresh n τ).schedules xs).queues q).length + 1) ↔
      n.size ∣ 2 ^ 32 ∨ xs.length ≤ 2 ^ 32 ∨
        xs.length < 2 * 2 ^ 32 ∧ n.size ∣ xs.length - 2 ^ 32 := by
  rw [balanced_iff_visits]
  exact WrappingCounter.balanced_iff n.pos (by decide)

theorem RoundRobin.of_turn {xs : List τ} (h : n.size ∣ 2 ^ 32 ∨ xs.length ≤ 2 ^ 32) :
    RoundRobin n xs where
  balanced := (balanced_iff_visits xs).mpr (WrappingCounter.balanced_of_turn h)
  consecutive j hj := by
    have hread : ∀ i, i < xs.length → i % 2 ^ 32 % n.size = i % n.size := by
      intro i hi
      rcases h with hdvd | hle
      · exact Nat.mod_mod_of_dvd i hdvd
      · rw [Nat.mod_eq_of_lt (Nat.lt_of_lt_of_le hi hle)]
    have hbefore : j < xs.length := Nat.lt_of_succ_lt hj
    rw [start_of_take (Nat.le_of_lt hj), start_of_take (Nat.le_of_lt hbefore), hread _ hj,
      hread _ hbefore, Nat.mod_add_mod]

theorem RoundRobin.turn {xs : List τ} (h : RoundRobin n xs) :
    n.size ∣ 2 ^ 32 ∨ xs.length ≤ 2 ^ 32 := by
  rcases Nat.lt_or_ge (2 ^ 32) xs.length with hlt | hle
  · have hlast : 2 ^ 32 - 1 + 1 ≤ xs.length := Nat.le_of_lt hlt
    have hstep := h.consecutive (2 ^ 32 - 1) hlt
    rw [start_of_take hlast, start_of_take (Nat.le_of_succ_le hlast), Nat.mod_add_mod] at hstep
    exact Or.inl (Nat.dvd_of_mod_eq_zero (by simpa using hstep.symm))
  · exact Or.inr hle

/-- **Tasks are placed in turn, and the queues kept balanced, exactly as long as the counter
has not wrapped, and for ever when the number of queues divides `2^32`.** -/
theorem roundRobin_iff (n : QueueCount) (xs : List τ) :
    RoundRobin n xs ↔ n.size ∣ 2 ^ 32 ∨ xs.length ≤ 2 ^ 32 :=
  ⟨RoundRobin.turn, RoundRobin.of_turn⟩

/-- With three queues and one call more than the counter can tell apart, queue 0 is two
tasks ahead of queue 2. -/
theorem ahead_of_length {xs : List τ} (hlength : xs.length = 2 ^ 32 + 1) :
    (((Placed.fresh .three τ).schedules xs).queues 0).length =
      (((Placed.fresh .three τ).schedules xs).queues 2).length + 2 := by
  have hround := WrappingCounter.visits_after_round (M := 2 ^ 32) (N := QueueCount.three.size)
    (by decide) (by decide) (by decide)
  have hfirst : ((0 : Fin QueueCount.three.size) : ℕ) = 0 := rfl
  have hlast : ((2 : Fin QueueCount.three.size) : ℕ) = QueueCount.three.size - 1 := rfl
  rw [schedules_length, schedules_length, hlength, hfirst, hlast, hround]

theorem two_ahead : ∃ xs : List Unit, xs.length = 2 ^ 32 + 1 ∧
    (((Placed.fresh .three Unit).schedules xs).queues 0).length =
      (((Placed.fresh .three Unit).schedules xs).queues 2).length + 2 ∧
    ¬ RoundRobin .three xs := by
  have hlists : ∀ m, ∃ xs : List Unit, xs.length = m :=
    fun m => ⟨List.replicate m (), List.length_replicate⟩
  obtain ⟨xs, hlength⟩ := hlists (2 ^ 32 + 1)
  have hahead := ahead_of_length hlength
  refine ⟨xs, hlength, hahead, fun h => ?_⟩
  have hle := h.balanced 0 2
  omega

/-! ## The calls of the machine

In a scheduler in which nobody is under way a call runs from its beginning to its end,
and leaves its task at the end of the queue it starts at. -/

section Machine

variable [DecidableEq ι] [DecidableEq τ] [DecidableEq κ] {s : State n ι τ κ}

/-- Nobody is in any queue, and no mutex is held. -/
structure Quiet (s : State n ι τ κ) : Prop where
  free : ∀ q, (s.obj q).locked = false
  idle : ∀ q u, (s.obj q).pc u = .idle

omit [DecidableEq ι] [DecidableEq τ] [DecidableEq κ] in
theorem Quiet.awake (h : Quiet s) (q : Fin n.size) : Client.Awake (s.obj q) := by
  intro u
  rw [h.idle q u]
  rfl

/-- `m_push_index` and the queues of the machine. -/
def placed (s : State n ι τ κ) : Placed n τ := ⟨s.ctl.pushIndex, contents s⟩

/-- The steps of a call of `schedule` that nobody gets in the way of. -/
def placing (p : Placed n τ) (x : τ) : List (Event n ι τ κ) :=
  .ctl (.schedule x) :: .ctl (.fetchPush x) :: .ctl (.tryPush x p.pushIndex 0) ::
    (Client.inside p.start (.schedule x) (.tryPush x) (.pushed true) .one ++
      [.ctl (.tryPushRet x p.pushIndex 0 true)])

/-- The steps of calls one after the other. -/
def placings (p : Placed n τ) : List τ → List (Event n ι τ κ)
  | [] => []
  | x :: xs => placing p x ++ placings (p.schedule x) xs

/-- The state in which call `x` has drawn its index. -/
def drawn (s : State n ι τ κ) (x : τ) : State n ι τ κ :=
  { s with ctl := { s.ctl.setSchedule x (.looping s.ctl.pushIndex 0) with
                    pushIndex := s.ctl.pushIndex + 1 } }

theorem run_draw {x : τ} (hx : s.ctl.schedule x = .uncalled) :
    (machine n ι τ κ).Run s [.ctl (.schedule x), .ctl (.fetchPush x)] ∧
      (machine n ι τ κ).after s [.ctl (.schedule x), .ctl (.fetchPush x)] = drawn s x := by
  refine ⟨⟨⟨hx, trivial⟩, ⟨Function.update_self .., trivial⟩, trivial⟩, ?_⟩
  show (⟨step (n := n) (step (n := n) s.ctl (.schedule x)) (.fetchPush x), s.obj⟩ :
    State n ι τ κ) = _
  simp [step, Control.setSchedule, drawn]

theorem run_placing (hs : Quiet s) {x : τ} (hx : s.ctl.schedule x = .uncalled) :
    (machine n ι τ κ).Run s (placing (placed s) x) ∧
      (machine n ι τ κ).after s (placing (placed s) x) =
        ⟨{ s.ctl.setSchedule x .returned with pushIndex := s.ctl.pushIndex + 1 },
          Function.update s.obj (placed s).start
            ⟨{ (s.obj (placed s).start).core with
                container := (s.obj (placed s).start).core.container ++ [x] },
              false, (s.obj (placed s).start).pc⟩⟩ := by
  obtain ⟨hdraw, hdrawn⟩ := run_draw hx
  have hround : (0 : BitVec 32).toNat ≠ tryNTimes n := by
    have hpos := n.pos
    simp [tryNTimes]
    omega
  obtain ⟨hrun, hafter⟩ := Client.run_operation (P := client n ι τ κ) (M := Queue.object τ)
    (c := Queue.Core.empty) (s := drawn s x) (e := .tryPush x s.ctl.pushIndex 0)
    (d := .tryPushRet x s.ctl.pushIndex 0 true) ⟨Function.update_self .., hround⟩ rfl
    (Function.update_self ..) rfl (hs.idle _ _) (hs.free _) rfl (Or.inr (hs.awake _))
  have hsplit : (placing (placed s) x : List (Event n ι τ κ)) =
      [.ctl (.schedule x), .ctl (.fetchPush x)] ++ (placing (placed s) x).drop 2 := rfl
  rw [hsplit]
  constructor
  · refine (Machine.run_append _).mpr ⟨hdraw, ?_⟩
    rw [hdrawn]
    exact hrun
  · rw [Machine.after_append, hdrawn]
    refine hafter.trans ?_
    simp [client, step, drawn, Control.setSchedule, Placed.start, probe, placed]

theorem quiet_placing (hs : Quiet s) {x : τ} (hx : s.ctl.schedule x = .uncalled) :
    Quiet ((machine n ι τ κ).after s (placing (placed s) x)) := by
  rw [(run_placing hs hx).2]
  constructor
  · intro q
    rcases eq_or_ne q (placed s).start with rfl | hq
    · simp
    · simp [hq, hs.free q]
  · intro q u
    rcases eq_or_ne q (placed s).start with rfl | hq
    · simp [hs.idle]
    · simp [hq, hs.idle q u]

theorem placed_placing (hs : Quiet s) {x : τ} (hx : s.ctl.schedule x = .uncalled) :
    placed ((machine n ι τ κ).after s (placing (placed s) x)) = (placed s).schedule x := by
  rw [(run_placing hs hx).2, Placed.schedule]
  refine congrArg (Placed.mk _) (funext fun q => ?_)
  show (Function.update s.obj (placed s).start _ q).core.container =
    Function.update (contents s) (placed s).start _ q
  rcases eq_or_ne q (placed s).start with rfl | hq
  · rw [Function.update_self, Function.update_self]
    rfl
  · rw [Function.update_of_ne hq, Function.update_of_ne hq]
    rfl

/-- Calls one after the other, of tasks not scheduled before, do what `schedules` says. -/
theorem run_schedules (hs : Quiet s) {xs : List τ} (hnew : ∀ x ∈ xs, s.ctl.schedule x = .uncalled)
    (hnodup : xs.Nodup) :
    (machine n ι τ κ).Run s (placings (placed s) xs) ∧
      placed ((machine n ι τ κ).after s (placings (placed s) xs)) = (placed s).schedules xs := by
  induction xs generalizing s with
  | nil => exact ⟨trivial, rfl⟩
  | cons x xs ih =>
      have hx := hnew x (List.mem_cons_self ..)
      obtain ⟨hfresh, hrest⟩ := List.nodup_cons.mp hnodup
      have hlater := ih (quiet_placing hs hx) (fun y hy => ?_) hrest
      · rw [placed_placing hs hx] at hlater
        refine ⟨(Machine.run_append _).mpr ⟨(run_placing hs hx).1, hlater.1⟩, ?_⟩
        rw [placings, Machine.after_append]
        exact hlater.2
      · have hyx : y ≠ x := by
          rintro rfl
          exact hfresh hy
        rw [(run_placing hs hx).2]
        show Function.update s.ctl.schedule x .returned y = .uncalled
        rw [Function.update_of_ne hyx]
        exact hnew y (List.mem_cons_of_mem _ hy)

theorem run_schedules_fresh (threadIndex : ι → Option (BitVec 32)) {xs : List τ}
    (hnodup : xs.Nodup) :
    (machine n ι τ κ).Run ⟨.initial threadIndex, fun _ => Monitor.State.initial .empty⟩
        (placings (.fresh n τ) xs) ∧
      contents ((machine n ι τ κ).after
          ⟨.initial threadIndex, fun _ => Monitor.State.initial .empty⟩
          (placings (.fresh n τ) xs)) =
        ((Placed.fresh n τ).schedules xs).queues := by
  have hruns := run_schedules (n := n) (ι := ι) (κ := κ)
    (s := ⟨.initial threadIndex, fun _ => Monitor.State.initial .empty⟩)
    ⟨fun _ => rfl, fun _ _ => rfl⟩ (fun _ _ => rfl) hnodup
  exact ⟨hruns.1, congrArg Placed.queues hruns.2⟩

end Machine

end RrScheduler

end Jar.Concurrency
