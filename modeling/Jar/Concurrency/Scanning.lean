/-
# `Jar.Concurrency.Scanning` — does a thread looking for work see every queue?

`scheduled()` probes the queues from the thread's home queue on, one round, before
it blocks on the home queue.  The position of a probe is `thread_index + n`, added
in 32 bits and only then reduced modulo the number of queues.  When the sum wraps
the scan jumps back to queue 0, probes the queues from there on a second time, and
passes others by: with work only there it ends in the blocking `pop`.

Here one thread runs alone: `scheduled` is the loop over the queues' contents, and
`run_scan` says that the scheduler's machine does the same when no mutex is held.
`takesFirst_iff` is about that loop: it takes the first task round the ring exactly
when the number of queues divides `2^32` or the sum does not wrap on the way.
-/
import Jar.Concurrency.Transfer
import Jar.Lib.Uncontended
import Jar.Lib.WrappingCounter

namespace Jar.Concurrency

open Jar.Lib

namespace RrScheduler

variable {n : QueueCount} {ι τ κ : Type}

/-! ## The loop -/

/-- What `scheduled` does before it blocks: the queues probed, in order, and the task
found, with what that leaves in the queues. -/
structure Scan (n : QueueCount) (τ : Type) where
  probed : List (Fin n.size)
  found : Option (τ × (Fin n.size → List τ))

/-- The queue of round `k`: `(thread_index + n) % m_task_queue.size()`. -/
def probe (n : QueueCount) (index : BitVec 32) (k : ℕ) : Fin n.size :=
  slot n (index + BitVec.ofNat 32 k)

/-- The rounds of the loop: a `try_pop` that finds a task ends it. -/
def scan (index : BitVec 32) (queues : Fin n.size → List τ) : List ℕ → Scan n τ
  | [] => ⟨[], none⟩
  | k :: ks =>
      match queues (probe n index k) with
      | [] =>
          ⟨probe n index k :: (scan index queues ks).probed, (scan index queues ks).found⟩
      | x :: xs => ⟨[probe n index k], some (x, Function.update queues (probe n index k) xs)⟩

/-- `scheduled`, up to its blocking `pop`, which it reaches if nothing is found. -/
def scheduled (n : QueueCount) (index : BitVec 32) (queues : Fin n.size → List τ) : Scan n τ :=
  scan index queues (List.range n.size)

/-! ## What it is for

From its home queue on a thread goes round the ring, by every queue and only once, and
takes the first task there is. -/

/-- The queues in cyclic order from one on. -/
def ring (n : QueueCount) (home : Fin n.size) : List (Fin n.size) :=
  (List.range n.size).map fun k => ⟨(home + k) % n.size, Nat.mod_lt _ n.pos⟩

/-- There is work in a queue. -/
def works (queues : Fin n.size → List τ) (q : Fin n.size) : Bool := !(queues q).isEmpty

/-- How far round from the home queue the first task is. -/
def distance (n : QueueCount) (index : BitVec 32) (queues : Fin n.size → List τ) : ℕ :=
  (ring n (slot n index)).findIdx (works queues)

/-- The queues are probed in cyclic order from the home queue on, as far as the first
that is not empty; its front task is taken, and nothing else. -/
structure TakesFirst (n : QueueCount) (index : BitVec 32) (queues : Fin n.size → List τ) :
    Prop where
  probed : (scheduled n index queues).probed =
    (ring n (slot n index)).take (distance n index queues + 1)
  found : ∃ q x xs, (ring n (slot n index))[distance n index queues]? = some q ∧
    queues q = x :: xs ∧ (scheduled n index queues).found = some (x, Function.update queues q xs)

theorem works_iff {queues : Fin n.size → List τ} {q : Fin n.size} :
    works queues q = true ↔ queues q ≠ [] := by
  simp [works]

theorem ring_length (n : QueueCount) (home : Fin n.size) : (ring n home).length = n.size := by
  simp [ring]

theorem mem_ring (home q : Fin n.size) : q ∈ ring n home := by
  refine List.mem_map.mpr ⟨(q + (n.size - home)) % n.size, ?_, ?_⟩
  · exact List.mem_range.mpr (Nat.mod_lt _ n.pos)
  · have hsum : home.val + (q + (n.size - home)) = q + n.size := by omega
    apply Fin.ext
    show (home.val + (q + (n.size - home)) % n.size) % n.size = q
    rw [Nat.add_mod_mod, hsum, Nat.add_mod_right, Nat.mod_eq_of_lt q.isLt]

theorem ring_nodup (n : QueueCount) (home : Fin n.size) : (ring n home).Nodup := by
  refine List.Nodup.map_on ?_ List.nodup_range
  intro a ha b hb hab
  have hmod : home.val + a ≡ home + b [MOD n.size] := congrArg Fin.val hab
  have hcancel : a % n.size = b % n.size := hmod.add_left_cancel'
  rwa [Nat.mod_eq_of_lt (List.mem_range.mp ha), Nat.mod_eq_of_lt (List.mem_range.mp hb)] at hcancel

theorem distance_lt {index : BitVec 32} {queues : Fin n.size → List τ}
    (hwork : ∃ q, queues q ≠ []) : distance n index queues < (ring n (slot n index)).length := by
  obtain ⟨q, hq⟩ := hwork
  exact List.findIdx_lt_length_of_exists ⟨q, mem_ring _ q, works_iff.mpr hq⟩

/-! ## The loop searches its own order

The queues probed are those up to the first that is not empty, in the order in which
the loop comes by them.  That is the order of the ring for as long as the sum does not
wrap, or if the wrap cannot be seen. -/

section Loop

variable (index : BitVec 32) (queues : Fin n.size → List τ)

theorem scan_probed (ks : List ℕ) :
    (scan index queues ks).probed =
      (ks.map (probe n index)).take ((ks.map (probe n index)).findIdx (works queues) + 1) := by
  induction ks with
  | nil => rfl
  | cons k ks ih =>
      rw [List.map_cons, List.findIdx_cons, scan]
      cases hq : queues (probe n index k) with
      | nil =>
          have hidle : works queues (probe n index k) = false := by simp [works, hq]
          rw [hidle, ih]
          rfl
      | cons x xs =>
          have hwork : works queues (probe n index k) = true := by simp [works, hq]
          rw [hwork]
          rfl

theorem scan_found {ks : List ℕ} {q : Fin n.size} {x : τ} {xs : List τ}
    (hfirst : (ks.map (probe n index))[(ks.map (probe n index)).findIdx (works queues)]? = some q)
    (hq : queues q = x :: xs) :
    (scan index queues ks).found = some (x, Function.update queues q xs) := by
  induction ks with
  | nil => cases hfirst
  | cons k ks ih =>
      rw [List.map_cons, List.findIdx_cons] at hfirst
      rw [scan]
      cases hk : queues (probe n index k) with
      | nil =>
          have hidle : works queues (probe n index k) = false := by simp [works, hk]
          rw [hidle] at hfirst
          exact ih hfirst
      | cons y ys =>
          have hwork : works queues (probe n index k) = true := by simp [works, hk]
          rw [hwork] at hfirst
          obtain rfl : probe n index k = q := Option.some.inj hfirst
          rw [hk] at hq
          obtain ⟨rfl, rfl⟩ := List.cons.inj hq
          rfl

/-- The loop agrees with the ring as far as the sum, reduced, does. -/
theorem take_eq_iff {k : ℕ} (hk : k < n.size) :
    ((List.range n.size).map (probe n index)).take (k + 1) = (ring n (slot n index)).take (k + 1) ↔
      n.size ∣ 2 ^ 32 ∨ index.toNat + k < 2 ^ 32 := by
  have hfits := n.fits
  have hread : ∀ j, j ≤ k → (probe n index j =
      (⟨((slot n index).val + j) % n.size, Nat.mod_lt _ n.pos⟩ : Fin n.size) ↔
      (index.toNat + j) % 2 ^ 32 % n.size = (index.toNat + j) % n.size) := by
    intro j hj
    rw [Fin.ext_iff]
    show (index + BitVec.ofNat 32 j).toNat % n.size = (index.toNat % n.size + j) % n.size ↔ _
    rw [BitVec.toNat_add, BitVec.toNat_ofNat, Nat.add_mod_mod, Nat.mod_add_mod]
  rw [ring, ← List.map_take, ← List.map_take, List.take_range, List.map_inj_left,
    ← WrappingCounter.forall_mod_mod_iff index.isLt (by omega)]
  constructor
  · intro hall j hj
    exact (hread j hj).mp (hall j (List.mem_range.mpr (by omega)))
  · intro hall j hj
    have hjk : j ≤ k := by
      have := List.mem_range.mp hj
      omega
    exact (hread j hjk).mpr (hall j hjk)

end Loop

/-- **A thread that looks for work takes the first task round the ring from its home
queue exactly when the number of queues divides `2^32` or its index does not wrap on the
way there.** -/
theorem takesFirst_iff (n : QueueCount) (index : BitVec 32) (queues : Fin n.size → List τ)
    (hwork : ∃ q, queues q ≠ []) :
    TakesFirst n index queues ↔
      n.size ∣ 2 ^ 32 ∨ index.toNat + distance n index queues < 2 ^ 32 := by
  have hlt : distance n index queues < (ring n (slot n index)).length := distance_lt hwork
  have hlen : ((List.range n.size).map (probe n index)).length =
      (ring n (slot n index)).length := by
    rw [ring_length, List.length_map, List.length_range]
  have hsearch := WrappingCounter.take_findIdx_iff (p := works queues) hlen hlt
  rw [← take_eq_iff index (ring_length n _ ▸ hlt)]
  constructor
  · intro h
    refine hsearch.mp ?_
    rw [← scan_probed]
    exact h.probed
  · intro h
    have hfirst := WrappingCounter.findIdx_of_take_eq hlt h
    obtain ⟨q, hq⟩ : ∃ q, (ring n (slot n index))[distance n index queues]? = some q :=
      ⟨_, List.getElem?_eq_getElem hlt⟩
    have hloop : ((List.range n.size).map (probe n index))[distance n index queues]? = some q := by
      have hget := congrArg (fun l => l[distance n index queues]?) h
      rw [← hq]
      simpa [distance, List.getElem?_take] using hget
    obtain ⟨x, xs, hx⟩ : ∃ x xs, queues q = x :: xs :=
      List.exists_cons_of_ne_nil (works_iff.mp (List.findIdx_of_getElem?_eq_some hq))
    refine ⟨?_, q, x, xs, hq, hx, ?_⟩
    · rw [scheduled, scan_probed]
      exact hsearch.mpr h
    · refine scan_found index queues ?_ hx
      rw [hfirst]
      exact hloop

/-- A task in queue 1 of two. -/
def oneTask : Fin QueueCount.two.size → List ℕ := fun q => if q = 1 then [7] else []

theorem takesFirst_iff_two : TakesFirst .two (BitVec.ofNat 32 (2 ^ 32 - 1)) oneTask ↔
    2 ∣ 2 ^ 32 ∨ 2 ^ 32 - 1 + distance .two (BitVec.ofNat 32 (2 ^ 32 - 1)) oneTask < 2 ^ 32 :=
  takesFirst_iff .two (BitVec.ofNat 32 (2 ^ 32 - 1)) oneTask ⟨1, by decide⟩

/-- A task in the last queue of three. -/
def lastTask : Fin QueueCount.three.size → List ℕ := fun q => if q = 2 then [7] else []

/-- The index of a thread that came by after `2 ^ 32 - 1` others: it probes queue 0 twice and
queue 1, and blocks, with a task in queue 2. -/
theorem passes_by : (∃ q, lastTask q ≠ []) ∧
    (scheduled .three (BitVec.ofNat 32 (2 ^ 32 - 1)) lastTask).probed = [0, 0, 1] ∧
    (scheduled .three (BitVec.ofNat 32 (2 ^ 32 - 1)) lastTask).found = none ∧
    ¬ TakesFirst .three (BitVec.ofNat 32 (2 ^ 32 - 1)) lastTask := by
  have hnone : (scheduled .three (BitVec.ofNat 32 (2 ^ 32 - 1)) lastTask).found = none := rfl
  refine ⟨⟨2, by decide⟩, by decide, hnone, fun h => ?_⟩
  obtain ⟨_, _, _, -, -, hfound⟩ := h.found
  rw [hnone] at hfound
  cases hfound

theorem TakesFirst.probed_nodup {index : BitVec 32} {queues : Fin n.size → List τ}
    (h : TakesFirst n index queues) : (scheduled n index queues).probed.Nodup := by
  rw [h.probed]
  exact (ring_nodup n _).sublist (List.take_sublist _ _)

/-! ## The loop of the machine

Alone, with no mutex held, a thread of the scheduler makes its rounds one after the
other, each of them a call of `try_pop` that comes back. -/

section Machine

variable [DecidableEq ι] [DecidableEq τ] [DecidableEq κ] {s : State n ι τ κ} {i : ι}

/-- The steps of one round: `try_pop` on the queue of the round. -/
def tryRound (n : QueueCount) (index : BitVec 32) (i : ι) (k : ℕ) (r : Option τ) :
    List (Event n ι τ κ) :=
  .ctl (.tryPop i (BitVec.ofNat 32 k)) ::
    (Client.inside (probe n index k) (.scheduled i) .tryPop (.item r) .none ++
      [.ctl (.tryPopRet i (BitVec.ofNat 32 k) r)])

/-- The steps of the loop. -/
def rounds (index : BitVec 32) (queues : Fin n.size → List τ) (i : ι) :
    List ℕ → List (Event n ι τ κ)
  | [] => []
  | k :: ks =>
      match queues (probe n index k) with
      | [] => tryRound n index i k none ++ rounds index queues i ks
      | x :: _ => tryRound n index i k (some x)

/-- Nobody holds a mutex, and thread `i` is in no queue. -/
structure Undisturbed (s : State n ι τ κ) (i : ι) : Prop where
  free : ∀ q, (s.obj q).locked = false
  idle : ∀ q, (s.obj q).pc (.scheduled i) = .idle

theorem run_tryRound (hs : Undisturbed s i) {k : ℕ} (hk : k < n.size)
    (hpc : s.ctl.scheduled i = .scanning (BitVec.ofNat 32 k)) {c : Queue.Core τ} {r : Option τ}
    (hbody : Queue.tryPopBody (s.obj (probe n (s.ctl.index i) k)).core =
      .done c (.item r) .none) :
    (machine n ι τ κ).Run s (tryRound n (s.ctl.index i) i k r) ∧
      (machine n ι τ κ).after s (tryRound n (s.ctl.index i) i k r) =
        ⟨s.ctl.setScheduled i (if r.isSome then .done r else .scanning (BitVec.ofNat 32 (k + 1))),
          Function.update s.obj (probe n (s.ctl.index i) k)
            ⟨c, false, (s.obj (probe n (s.ctl.index i) k)).pc⟩⟩ := by
  have hfits := n.fits
  have hround : (BitVec.ofNat 32 k).toNat ≠ n.size := by
    rw [BitVec.toNat_ofNat]
    omega
  have hcounter : BitVec.ofNat 32 k + 1 = BitVec.ofNat 32 (k + 1) := by
    apply BitVec.eq_of_toNat_eq
    simp [BitVec.toNat_add]
  have hsteps := Client.run_operation (P := client n ι τ κ) (M := Queue.object τ)
    (c := Queue.Core.empty) (s := s) (e := .tryPop i (BitVec.ofNat 32 k))
    (d := .tryPopRet i (BitVec.ofNat 32 k) r) ⟨hpc, hround⟩ rfl (Function.update_self ..) rfl
    (hs.idle _) (hs.free _) hbody (Or.inl rfl)
  refine ⟨hsteps.1, hsteps.2.trans ?_⟩
  rw [← hcounter]
  show (⟨Control.setScheduled _ _ _, _⟩ : State n ι τ κ) = _
  simp [client, step, Control.setScheduled, probe, Control.index]

theorem run_tryRound_nil (hs : Undisturbed s i) {k : ℕ} (hk : k < n.size)
    (hpc : s.ctl.scheduled i = .scanning (BitVec.ofNat 32 k))
    (hnil : contents s (probe n (s.ctl.index i) k) = []) :
    (machine n ι τ κ).Run s (tryRound n (s.ctl.index i) i k none) ∧
      (machine n ι τ κ).after s (tryRound n (s.ctl.index i) i k none) =
        { s with ctl := s.ctl.setScheduled i (.scanning (BitVec.ofNat 32 (k + 1))) } := by
  have hbody : Queue.tryPopBody (s.obj (probe n (s.ctl.index i) k)).core =
      .done (s.obj (probe n (s.ctl.index i) k)).core (.item none) .none := by
    rw [Queue.tryPopBody, show (s.obj (probe n (s.ctl.index i) k)).core.container = [] from hnil]
    rfl
  obtain ⟨hrun, hafter⟩ := run_tryRound hs hk hpc hbody
  have hsame : (⟨(s.obj (probe n (s.ctl.index i) k)).core, false,
      (s.obj (probe n (s.ctl.index i) k)).pc⟩ : Queue.State (Caller ι τ κ) τ) =
      s.obj (probe n (s.ctl.index i) k) := by
    rw [← hs.free (probe n (s.ctl.index i) k)]
  refine ⟨hrun, hafter.trans ?_⟩
  rw [hsame, Function.update_eq_self]
  rfl

theorem run_tryRound_cons (hs : Undisturbed s i) {k : ℕ} (hk : k < n.size)
    (hpc : s.ctl.scheduled i = .scanning (BitVec.ofNat 32 k)) {x : τ} {xs : List τ}
    (hcons : contents s (probe n (s.ctl.index i) k) = x :: xs) :
    (machine n ι τ κ).Run s (tryRound n (s.ctl.index i) i k (some x)) ∧
      ((machine n ι τ κ).after s (tryRound n (s.ctl.index i) i k (some x))).ctl =
        s.ctl.setScheduled i (.done (some x)) ∧
      contents ((machine n ι τ κ).after s (tryRound n (s.ctl.index i) i k (some x))) =
        Function.update (contents s) (probe n (s.ctl.index i) k) xs := by
  have hbody : Queue.tryPopBody (s.obj (probe n (s.ctl.index i) k)).core =
      .done { (s.obj (probe n (s.ctl.index i) k)).core with container := xs }
        (.item (some x)) .none := by
    have hcontainer : (s.obj (probe n (s.ctl.index i) k)).core.container = x :: xs := hcons
    rw [Queue.tryPopBody, Queue.popFront, hcontainer]
    rfl
  obtain ⟨hrun, hafter⟩ := run_tryRound hs hk hpc hbody
  rw [hafter]
  refine ⟨hrun, rfl, funext fun q => ?_⟩
  rcases eq_or_ne q (probe n (s.ctl.index i) k) with rfl | hq
  · simp [contents]
  · simp [contents, hq]

/-- Where the loop leaves its thread and the queues: with the task found, or with the blocking
`pop` in front of it. -/
def LoopEnds (s s' : State n ι τ κ) (i : ι) : Option (τ × (Fin n.size → List τ)) → Prop
  | some (x, queues) => s'.ctl.scheduled i = .done (some x) ∧ contents s' = queues
  | none => s'.ctl.scheduled i = .scanning (BitVec.ofNat 32 n.size) ∧ contents s' = contents s

theorem run_scan (hs : Undisturbed s i) {k r : ℕ} (hr : k + r = n.size)
    (hpc : s.ctl.scheduled i = .scanning (BitVec.ofNat 32 k)) :
    (machine n ι τ κ).Run s (rounds (s.ctl.index i) (contents s) i (List.range' k r)) ∧
      LoopEnds s ((machine n ι τ κ).after s
          (rounds (s.ctl.index i) (contents s) i (List.range' k r))) i
        (scan (s.ctl.index i) (contents s) (List.range' k r)).found := by
  induction r generalizing s k with
  | zero =>
      obtain rfl : k = n.size := hr
      exact ⟨trivial, hpc, rfl⟩
  | succ r ih =>
      rw [List.range'_succ, rounds, scan]
      cases hq : contents s (probe n (s.ctl.index i) k) with
      | nil =>
          obtain ⟨hrun, hafter⟩ := run_tryRound_nil hs (by omega) hpc hq
          have hrest := ih (s := { s with
            ctl := s.ctl.setScheduled i (.scanning (BitVec.ofNat 32 (k + 1))) }) (k := k + 1)
            ⟨hs.free, hs.idle⟩ (by omega) (Function.update_self ..)
          refine ⟨(Machine.run_append _).mpr ⟨hrun, ?_⟩, ?_⟩
          · rw [hafter]
            exact hrest.1
          · rw [Machine.after_append, hafter]
            exact hrest.2
      | cons x xs =>
          obtain ⟨hrun, hctl, hcontents⟩ := run_tryRound_cons hs (by omega) hpc hq
          refine ⟨hrun, ?_, hcontents⟩
          rw [hctl]
          exact Function.update_self ..

/-- A thread that is not in a queue operation is in no queue. -/
theorem undisturbed (h : (machine n ι τ κ).Reachable s) (hfree : ∀ q, (s.obj q).locked = false)
    {k : BitVec 32} (hpc : s.ctl.scheduled i = .scanning k) : Undisturbed s i := by
  refine ⟨hfree, fun q => ?_⟩
  have hnone : ∀ op, ((s.obj q).pc (.scheduled i)).op ≠ some op := by
    intro op hop
    have hsite := (agree h q (.scheduled i) op).mp hop
    simp [client, site, hpc] at hsite
  cases hp : (s.obj q).pc (.scheduled i) with
  | idle => rfl
  | _ => exact absurd (by rw [hp]; rfl) (hnone _)

/-- Alone, with no mutex held, a thread of the machine does what `scheduled` says. -/
theorem run_scheduled (h : (machine n ι τ κ).Reachable s) (hfree : ∀ q, (s.obj q).locked = false)
    (hpc : s.ctl.scheduled i = .scanning 0) :
    (machine n ι τ κ).Run s (rounds (s.ctl.index i) (contents s) i (List.range n.size)) ∧
      LoopEnds s ((machine n ι τ κ).after s
          (rounds (s.ctl.index i) (contents s) i (List.range n.size))) i
        (scheduled n (s.ctl.index i) (contents s)).found := by
  rw [scheduled, List.range_eq_range']
  exact run_scan (undisturbed h hfree hpc) (Nat.zero_add _) hpc

end Machine

end RrScheduler

end Jar.Concurrency
