/-
# `Jar.Com.NonBlocking` — the mode of a socket and the flags beside it

The non-blocking mode is one of the status flags of an open socket, and the kernel
reads and writes all of them at a time.  `non_blocking` therefore reads the flags,
changes its own bit, and writes them back, in two system calls:

    idle ──call──▸ entered ──F_GETFL──▸ read ──F_SETFL──▸ returned ──ret──▸ idle
                      └──── is_non_blocking, or an error ────▴

Between the two anybody may write: another thread in the same function, or code outside
the library, to which the flags belong as well (a duplicate of the descriptor shares
them).  The library's own calls never disturb a flag but the mode, however they
interleave; what others write is lost exactly if it falls between the two system calls
of a call and differs from what that call has read (`keeps_flags_iff`).
-/
import Jar.Core.Contract
import Jar.Lib.Machine

namespace Jar.Com

open Jar.Lib

namespace NonBlocking

/-- Status flags: an `int`. -/
abbrev Flags := BitVec 32

/-- `O_NONBLOCK`. -/
def oNonblock : Flags := 0x800#32

/-- `(flags & O_NONBLOCK) == O_NONBLOCK`. -/
def isNonBlocking (flags : Flags) : Bool := flags &&& oNonblock == oNonblock

/-- The flags that `non_blocking` writes back. -/
def newFlags (mode : Bool) (flags : Flags) : Flags :=
  if mode then flags ||| oNonblock else flags &&& ~~~oNonblock

/-- `F_SETFL`: the kernel takes over the flags that can be changed on an open file. -/
def setFlags (changeable flags requested : Flags) : Flags :=
  (flags &&& ~~~changeable) ||| (requested &&& changeable)

/-! ## The calls -/

inductive Op where
  | nonBlocking (mode : Bool)
  | isNonBlocking
  deriving DecidableEq, Repr

/-- Where a thread stands; a result is `none` for `void`. -/
inductive Pc where
  | idle
  | entered (op : Op)
  | read (mode : Bool) (flags : Flags)
  | returned (result : Except Error (Option Bool))
  deriving DecidableEq

/-- The flags of the socket, what they would be if only others had written them, and the
threads. -/
structure State (ι : Type) where
  flags : Flags
  others : Flags
  pc : ι → Pc

/-- A step of a thread, with the `errno` if its system call fails, or `F_SETFL` by others. -/
inductive Event (ι : Type) where
  | call (t : ι) (op : Op)
  | getFlags (t : ι) (op : Op) (failed : Option Errno)
  | setFlags (t : ι) (mode : Bool) (flags : Flags) (failed : Option Errno)
  | ret (t : ι) (result : Except Error (Option Bool))
  | othersSet (requested : Flags)

variable {ι : Type}

/-- The thread whose step it is, if it is one of a call. -/
def Event.thread : Event ι → Option ι
  | .call t _ | .getFlags t _ _ | .setFlags t _ _ _ | .ret t _ => some t
  | .othersSet _ => none

def enabled (s : State ι) : Event ι → Prop
  | .call t _ => s.pc t = .idle
  | .getFlags t op _ => s.pc t = .entered op
  | .setFlags t mode flags _ => s.pc t = .read mode flags
  | .ret t result => s.pc t = .returned result
  | .othersSet _ => True

instance (s : State ι) : ∀ e, Decidable (enabled s e)
  | .call t _ => inferInstanceAs (Decidable (s.pc t = .idle))
  | .getFlags t op _ => inferInstanceAs (Decidable (s.pc t = .entered op))
  | .setFlags t mode flags _ => inferInstanceAs (Decidable (s.pc t = .read mode flags))
  | .ret t result => inferInstanceAs (Decidable (s.pc t = .returned result))
  | .othersSet _ => instDecidableTrue

variable [DecidableEq ι]

def State.setPc (s : State ι) (t : ι) (p : Pc) : State ι :=
  { s with pc := Function.update s.pc t p }

/-- `get_descriptor_flags`, and what each function makes of it. -/
def State.got (s : State ι) (t : ι) : Op → Option Errno → State ι
  | _, some code => s.setPc t (.returned (Contract.noSystemError (.error code)))
  | .nonBlocking mode, none => s.setPc t (.read mode s.flags)
  | .isNonBlocking, none => s.setPc t (.returned (.ok (some (isNonBlocking s.flags))))

def next (changeable : Flags) (s : State ι) : Event ι → State ι
  | .call t op => s.setPc t (.entered op)
  | .getFlags t op failed => s.got t op failed
  | .setFlags t _ _ (some code) => s.setPc t (.returned (Contract.noSystemError (.error code)))
  | .setFlags t mode flags none =>
      { s with flags := setFlags changeable s.flags (newFlags mode flags) }.setPc t
        (.returned (.ok none))
  | .ret t _ => s.setPc t .idle
  | .othersSet requested =>
      { s with flags := setFlags changeable s.flags requested
               others := setFlags changeable s.others requested }

/-- A socket with some flags, and no calls yet. -/
def State.initial (flags : Flags) : State ι := ⟨flags, flags, fun _ => .idle⟩

/-- Any number of threads and one socket, of whose flags some can be changed. -/
def machine (ι : Type) [DecidableEq ι] (changeable : Flags) : Machine (State ι) (Event ι) where
  Init s := ∃ flags, s = .initial flags
  Enabled := enabled
  next := next changeable

variable {changeable : Flags}

instance (s : State ι) (e : Event ι) : Decidable ((machine ι changeable).Enabled s e) :=
  inferInstanceAs (Decidable (enabled s e))

variable {s : State ι} {e : Event ι} {flags requested : Flags} {mode : Bool}

/-! ## Bits

The mode is one bit of the flags.  Of those beside it `F_SETFL` changes some and
leaves the rest, so flags that agree beside the mode still do when both have been
written. -/

/-- The flags without the mode. -/
def rest (flags : Flags) : Flags := flags &&& ~~~oNonblock

theorem rest_newFlags (mode : Bool) (flags : Flags) : rest (newFlags mode flags) = rest flags := by
  unfold rest newFlags
  cases mode with
  | true =>
      rw [if_pos rfl]
      ext i hi
      simp only [BitVec.getElem_and, BitVec.getElem_or, BitVec.getElem_not]
      cases flags[i] <;> cases oNonblock[i] <;> rfl
  | false =>
      rw [if_neg Bool.false_ne_true]
      ext i hi
      simp only [BitVec.getElem_and, BitVec.getElem_not]
      cases flags[i] <;> cases oNonblock[i] <;> rfl

theorem eq_iff_getElem {v w : Flags} : v = w ↔ ∀ i (hi : i < 32), v[i] = w[i] :=
  ⟨fun h i hi => by rw [h], fun h => BitVec.eq_of_getElem_eq h⟩

/-- What is written agrees with what was there beside the mode exactly when it does on the
flags that can be changed. -/
theorem rest_setFlags_iff : rest (setFlags changeable flags requested) = rest flags ↔
    rest requested &&& changeable = rest flags &&& changeable := by
  rw [eq_iff_getElem, eq_iff_getElem]
  refine forall₂_congr fun i hi => ?_
  unfold rest setFlags
  simp only [BitVec.getElem_and, BitVec.getElem_or, BitVec.getElem_not]
  cases flags[i] <;> cases oNonblock[i] <;> cases requested[i] <;> cases changeable[i] <;> decide

/-- Flags that agree beside the mode still do when others have written both. -/
theorem rest_setFlags_congr {others : Flags} (h : rest flags = rest others) :
    rest (setFlags changeable flags requested) = rest (setFlags changeable others requested) := by
  rw [eq_iff_getElem] at h ⊢
  intro i hi
  have hbit := h i hi
  unfold rest at hbit
  unfold rest setFlags
  simp only [BitVec.getElem_and, BitVec.getElem_or, BitVec.getElem_not] at hbit ⊢
  revert hbit
  cases flags[i] <;> cases oNonblock[i] <;> cases requested[i] <;> cases changeable[i] <;>
    cases others[i] <;> decide

theorem isNonBlocking_eq (flags : Flags) : isNonBlocking flags = flags[11] := by
  have hbits : ∀ i (hi : i < 32), oNonblock[i] = decide (i = 11) := by decide
  have hiff : flags &&& oNonblock = oNonblock ↔ flags[11] = true := by
    rw [eq_iff_getElem]
    simp only [BitVec.getElem_and, hbits]
    constructor
    · intro h
      have heleven := h 11 (by decide)
      simpa using heleven
    · intro h i hi
      rcases eq_or_ne i 11 with rfl | hne
      · rw [h]
        rfl
      · rw [decide_eq_false hne, Bool.and_false]
  rw [Bool.eq_iff_iff, ← hiff]
  exact beq_iff_eq

theorem isNonBlocking_newFlags (mode : Bool) (flags : Flags) :
    isNonBlocking (newFlags mode flags) = mode := by
  rw [isNonBlocking_eq]
  unfold newFlags
  have heleven : oNonblock[11] = true := by decide
  cases mode with
  | true => rw [if_pos rfl, BitVec.getElem_or, heleven, Bool.or_true]
  | false =>
      rw [if_neg Bool.false_ne_true, BitVec.getElem_and, BitVec.getElem_not, heleven]
      exact Bool.and_false _

theorem isNonBlocking_setFlags (h : isNonBlocking changeable = true) :
    isNonBlocking (setFlags changeable flags requested) = isNonBlocking requested := by
  rw [isNonBlocking_eq] at h
  rw [isNonBlocking_eq, isNonBlocking_eq]
  unfold setFlags
  rw [BitVec.getElem_or, BitVec.getElem_and, BitVec.getElem_and, BitVec.getElem_not, h]
  simp

/-! ## The flags of others -/

/-- The flags a call is about to write back are those there are. -/
def Current (changeable : Flags) (s : State ι) : Event ι → Prop
  | .setFlags _ _ flags none => rest flags &&& changeable = rest s.flags &&& changeable
  | _ => True

def ByOthers : Event ι → Prop
  | .othersSet _ => True
  | _ => False

@[simp] theorem got_flags (s : State ι) (t : ι) (op : Op) (failed : Option Errno) :
    (s.got t op failed).flags = s.flags := by
  cases failed <;> cases op <;> rfl

@[simp] theorem got_others (s : State ι) (t : ι) (op : Op) (failed : Option Errno) :
    (s.got t op failed).others = s.others := by
  cases failed <;> cases op <;> rfl

/-- While only the mode differs, a step keeps it so exactly when it writes back what is
there. -/
theorem keeps_step (h : rest s.flags = rest s.others) :
    rest (next changeable s e).flags = rest (next changeable s e).others ↔
      Current changeable s e := by
  cases e with
  | call t op => exact iff_of_true h trivial
  | getFlags t op failed =>
      refine iff_of_true ?_ trivial
      show rest (s.got t op failed).flags = rest (s.got t op failed).others
      rw [got_flags, got_others, h]
  | setFlags t mode flags failed =>
      cases failed with
      | some code => exact iff_of_true h trivial
      | none =>
          show rest (setFlags changeable s.flags (newFlags mode flags)) = rest s.others ↔ _
          rw [← h, rest_setFlags_iff, rest_newFlags]
          rfl
  | ret t result => exact iff_of_true h trivial
  | othersSet requested => exact iff_of_true (rest_setFlags_congr h) trivial

/-- **Exactly the writes that do not write back what is there lose a flag of others.** -/
theorem keeps_flags_iff {es : List (Event ι)}
    (hrun : (machine ι changeable).Run (.initial flags) es) :
    ((machine ι changeable).restrict (Current changeable)).Run (.initial flags) es ↔
      ∀ fs, fs <+: es →
        rest ((machine ι changeable).after (.initial flags) fs).flags =
          rest ((machine ι changeable).after (.initial flags) fs).others :=
  Machine.run_restrict_iff (P := fun s => rest s.flags = rest s.others)
    (fun _ _ _ _ h => keeps_step h)
    (Machine.Reachable.of_init (M := machine ι changeable) ⟨flags, rfl⟩) rfl hrun

/-- Where a step takes the thread whose step it is. -/
inductive Arrives (s : State ι) (t : ι) : Event ι → Pc → Prop
  | call (op : Op) : Arrives s t (.call t op) (.entered op)
  | getFails (op : Op) (code : Errno) : Arrives s t (.getFlags t op (some code))
      (.returned (Contract.noSystemError (.error code)))
  | read (mode : Bool) : Arrives s t (.getFlags t (.nonBlocking mode) none) (.read mode s.flags)
  | answered : Arrives s t (.getFlags t .isNonBlocking none)
      (.returned (.ok (some (isNonBlocking s.flags))))
  | setFails (mode : Bool) (flags : Flags) (code : Errno) :
      Arrives s t (.setFlags t mode flags (some code))
        (.returned (Contract.noSystemError (.error code)))
  | set (mode : Bool) (flags : Flags) :
      Arrives s t (.setFlags t mode flags none) (.returned (.ok none))
  | ret (result : Except Error (Option Bool)) : Arrives s t (.ret t result) .idle

/-- A thread that a step moves has arrived where the step takes it; the others stay where
they are. -/
theorem Arrives.setPc {t : ι} {p : Pc} (h : Arrives s t e p) (hthread : e.thread = some t)
    (s' : State ι) (hpc : s'.pc = s.pc) (u : ι) :
    e.thread ≠ some u ∧ (s'.setPc t p).pc u = s.pc u ∨ Arrives s u e ((s'.setPc t p).pc u) := by
  rcases eq_or_ne u t with rfl | hne
  · rw [show (s'.setPc u p).pc u = p from Function.update_self _ _ _]
    exact Or.inr h
  · rw [hthread, ← hpc]
    exact Or.inl ⟨fun ht => hne (Option.some.inj ht).symm, Function.update_of_ne hne _ _⟩

theorem arrives (changeable : Flags) (s : State ι) (e : Event ι) (u : ι) :
    e.thread ≠ some u ∧ (next changeable s e).pc u = s.pc u ∨
      Arrives s u e ((next changeable s e).pc u) := by
  cases e with
  | call t op => exact (Arrives.call op).setPc rfl s rfl u
  | getFlags t op failed =>
      cases failed with
      | some code => cases op <;> exact (Arrives.getFails _ code).setPc rfl s rfl u
      | none =>
          cases op with
          | nonBlocking mode => exact (Arrives.read mode).setPc rfl s rfl u
          | isNonBlocking => exact Arrives.answered.setPc rfl s rfl u
  | setFlags t mode flags failed =>
      cases failed with
      | some code => exact (Arrives.setFails mode flags code).setPc rfl s rfl u
      | none =>
          exact (Arrives.set (s := s) mode flags).setPc rfl
            { s with flags := setFlags changeable s.flags (newFlags mode flags) } rfl u
  | ret t result => exact (Arrives.ret result).setPc rfl s rfl u
  | othersSet requested => exact Or.inl ⟨nofun, rfl⟩

/-- The flags beside the mode, in the socket and in every call, are `kept`. -/
structure Keeps (kept : Flags) (s : State ι) : Prop where
  flags : rest s.flags = kept
  read : ∀ t mode flags, s.pc t = .read mode flags → rest flags = kept

theorem Keeps.next {kept : Flags} (h : Keeps kept s) (he : enabled s e) (hown : ¬ ByOthers e) :
    Keeps kept (next changeable s e) := by
  have hflags : rest (NonBlocking.next changeable s e).flags = kept := by
    cases e with
    | call t op | ret t result => exact h.flags
    | getFlags t op failed =>
        show rest (s.got t op failed).flags = kept
        rw [got_flags, h.flags]
    | setFlags t mode flags failed =>
        cases failed with
        | some code => exact h.flags
        | none =>
            refine Eq.trans (rest_setFlags_iff.mpr ?_) h.flags
            rw [rest_newFlags, h.read t mode flags he, h.flags]
    | othersSet requested => exact absurd trivial hown
  refine ⟨hflags, fun t mode flags ht => ?_⟩
  rcases arrives changeable s e t with ⟨-, hsame⟩ | harrives
  · exact h.read t mode flags (hsame.symm.trans ht)
  · rw [ht] at harrives
    cases harrives with
    | read => exact h.flags

theorem keeps_flags {es : List (Event ι)}
    (hrun : (machine ι changeable).Run (.initial flags) es) (hown : ∀ e ∈ es, ¬ ByOthers e) :
    rest ((machine ι changeable).after (.initial flags) es).flags = rest flags := by
  have hreaches : ((machine ι changeable).restrict fun _ e => ¬ ByOthers e).Reaches
      (.initial flags) ((machine ι changeable).after (.initial flags) es) :=
    ⟨es, hrun.restrict hown, Machine.after_restrict⟩
  have hkeeps : Keeps (rest flags) ((machine ι changeable).after (.initial flags) es) :=
    hreaches.stable (P := Keeps (rest flags))
      (fun _ _ (he : enabled _ _ ∧ ¬ ByOthers _) hs => hs.next he.1 he.2) ⟨rfl, nofun⟩
  exact hkeeps.flags

/-! ## The mode -/

/-- The mode is set by a call that succeeds, and by others. -/
def modeNext (mode : Bool) : Event ι → Bool
  | .setFlags _ m _ none => m
  | .othersSet requested => isNonBlocking requested
  | _ => mode

/-- The mode that was set last. -/
def lastMode (mode : Bool) (es : List (Event ι)) : Bool := es.foldl modeNext mode

theorem mode_next (h : isNonBlocking changeable = true) :
    isNonBlocking (next changeable s e).flags = modeNext (isNonBlocking s.flags) e := by
  cases e with
  | call t op | ret t result => rfl
  | getFlags t op failed =>
      show isNonBlocking (s.got t op failed).flags = _
      rw [got_flags]
      rfl
  | setFlags t mode flags failed =>
      cases failed with
      | some code => rfl
      | none => exact (isNonBlocking_setFlags h).trans (isNonBlocking_newFlags mode flags)
  | othersSet requested => exact isNonBlocking_setFlags h

theorem mode_after (h : isNonBlocking changeable = true) (s : State ι) (es : List (Event ι)) :
    isNonBlocking ((machine ι changeable).after s es).flags =
      lastMode (isNonBlocking s.flags) es := by
  induction es generalizing s with
  | nil => rfl
  | cons e es ih =>
      rw [Machine.after, ih]
      exact congrArg (fun mode => lastMode mode es) (mode_next h)

/-- An answer of `is_non_blocking` is the mode at the moment the call read the flags, which
is the last thing its thread has done. -/
theorem answers (h : isNonBlocking changeable = true) {es : List (Event ι)}
    (hrun : (machine ι changeable).Run (.initial flags) es) (t : ι) (b : Bool)
    (ht : ((machine ι changeable).after (.initial flags) es).pc t = .returned (.ok (some b))) :
    ∃ fs gs, es = fs ++ .getFlags t .isNonBlocking none :: gs ∧
      (∀ g ∈ gs, g.thread ≠ some t) ∧ b = lastMode (isNonBlocking flags) fs := by
  refine hrun.history (I := fun es s => ∀ b, s.pc t = .returned (.ok (some b)) →
    ∃ fs gs, es = fs ++ .getFlags t .isNonBlocking none :: gs ∧
      (∀ g ∈ gs, g.thread ≠ some t) ∧ b = lastMode (isNonBlocking flags) fs)
    (fun b hb => by cases hb) ?_ b ht
  intro es e _ _ ih b hb
  rcases arrives changeable ((machine ι changeable).after (.initial flags) es) e t with
    ⟨hother, hsame⟩ | harrives
  · obtain ⟨fs, gs, rfl, hgs, hmode⟩ := ih b (hsame.symm.trans hb)
    refine ⟨fs, gs ++ [e], by rw [List.append_assoc, List.cons_append], fun g hg => ?_, hmode⟩
    rcases List.mem_append.mp hg with hold | hnew
    · exact hgs g hold
    · rw [List.mem_singleton.mp hnew]
      exact hother
  · change (next changeable _ e).pc t = _ at hb
    rw [hb] at harrives
    cases harrives with
    | answered => exact ⟨es, [], rfl, nofun, mode_after h _ es⟩

/-- **The calls change the mode and nothing else.**  In every interleaving of any number of
calls, with others writing the flags in between: what others have written is in place
throughout exactly when no call writes back flags that others have changed since it read
them, and always when there are no others; the mode is the one that was set last, and a
call of `is_non_blocking` answers with the mode at the moment it has read the flags. -/
theorem only_the_mode (h : isNonBlocking changeable = true) {es : List (Event ι)}
    (hrun : (machine ι changeable).Run (.initial flags) es) :
    (((machine ι changeable).restrict (Current changeable)).Run (.initial flags) es ↔
      ∀ fs, fs <+: es →
        rest ((machine ι changeable).after (.initial flags) fs).flags =
          rest ((machine ι changeable).after (.initial flags) fs).others) ∧
    ((∀ e ∈ es, ¬ ByOthers e) →
      rest ((machine ι changeable).after (.initial flags) es).flags = rest flags) ∧
    isNonBlocking ((machine ι changeable).after (.initial flags) es).flags =
      lastMode (isNonBlocking flags) es ∧
    ∀ t b, ((machine ι changeable).after (.initial flags) es).pc t = .returned (.ok (some b)) →
      ∃ fs gs, es = fs ++ .getFlags t .isNonBlocking none :: gs ∧
        (∀ g ∈ gs, g.thread ≠ some t) ∧ b = lastMode (isNonBlocking flags) fs :=
  ⟨keeps_flags_iff hrun, keeps_flags hrun, mode_after h _ es, answers h hrun⟩

/-- Others set `O_APPEND` while a call of `non_blocking` has read the flags and not written
them back.  Another thread asks for the mode before and after, and gets two answers. -/
def appendBetween : List (Event Bool) :=
  [.call true .isNonBlocking, .getFlags true .isNonBlocking none, .ret true (.ok (some false)),
   .call false (.nonBlocking true), .call true .isNonBlocking,
   .getFlags false (.nonBlocking true) none, .othersSet 0x402#32,
   .setFlags false true 0x2#32 none, .getFlags true .isNonBlocking none,
   .ret false (.ok none)]

theorem only_the_mode_appendBetween :
    isNonBlocking ((machine Bool 0xc00#32).after (.initial 0x2#32) appendBetween).flags = true ∧
      rest ((machine Bool 0xc00#32).after (.initial 0x2#32) appendBetween).flags = 0x2#32 ∧
      ∃ fs gs, appendBetween = fs ++ .getFlags true .isNonBlocking none :: gs ∧
        (∀ g ∈ gs, g.thread ≠ some true) ∧ lastMode (isNonBlocking 0x2#32) fs = true := by
  have hrun : (machine Bool 0xc00#32).Run (.initial 0x2#32) appendBetween := by decide
  obtain ⟨-, -, hmode, hanswer⟩ := only_the_mode (by decide) hrun
  obtain ⟨fs, gs, hsplit, hgs, hlast⟩ := hanswer true true (by decide)
  exact ⟨hmode, by decide, fs, gs, hsplit, hgs, hlast.symm⟩

end NonBlocking

end Jar.Com
