/-
# `Jar.Com.Sockets` — socket objects over a table of descriptors

The native handle of a socket is a descriptor: a number that the kernel gives out again
as soon as it has been closed, to this library or to anything else in the process.  A
socket object that kept a closed descriptor, or closed one twice, would act on somebody
else's socket.

Here the objects of `Jar.System.BasicHandle` live in one process with the kernel's table
and with code that opens and closes descriptors of its own.  Sockets are numbered in
the order in which the kernel made them; `reaches` is the socket a call on an object
acts on.

    ::socket, ::accept ──▸ k behind h ──▸ object ──move──▸ object ──~basic_handle──▸ ::close
                                             └──assigned over──▸ lost

`reaches_own` holds of every program, also of those that lose sockets: an object
reaches a socket of its own for as long as it holds it, whatever else happens.  `Fate`
is the account: a socket is held, closed once, or lost.

The move assignments of the socket classes are defaulted and come down to that of
`basic_handle`, which does not compile as it stands (its guard, and no `return`).  They
are modelled with it repaired; a program without them loses no socket.
-/
import Jar.Core.Contract
import Jar.System.BasicHandle

namespace Jar.Com

open Jar.Lib Jar.System

/-! ## The operations -/

/-- `socket::construct`. -/
def Socket.construct (answer : Except Errno ℤ) : Except Error ℤ := Contract.noSystemError answer

/-- `socket::accept`. -/
def Socket.accept (answer : Except Errno ℤ) : Except Error ℤ := Contract.noSystemError answer

/-- `socket::destroy`: whether it calls `std::terminate`. -/
def Socket.destroy (answer : Except Errno Unit) : Bool := Contract.isSystemError answer

/-- `accept`, up to the construction of the `stream_socket` for its handler. -/
def StreamServerSocket.accept (handler : Option Unit) (answer : Except Errno ℤ) :
    Except Error ℤ := do
  let _ ← Contract.notNull handler "handler cannot be nullptr"
  Socket.accept answer

namespace Sockets

/-- `socket::invalid_value()`. -/
def invalidValue : ℤ := -1

/-! ## The process -/

/-- The objects, and which socket the kernel has behind a descriptor.  `opened` are the
sockets that were made for an object, `closed` those a destructor has closed, and `lost`
those an object held when it was assigned over. -/
structure State (π : Type) where
  handles : BasicHandle.State π ℤ
  table : ℤ → Option ℕ
  made : ℕ
  opened : List ℕ
  closed : List ℕ
  lost : List ℕ
  terminated : Bool

/-- `accept p t` hands its handler the object `t`, which is destroyed when the handler
has returned or thrown; what the handler does are steps in between.  The objects are of
any of the socket classes; that a move is between two of one class is up to the compiler. -/
inductive Event (π : Type) where
  | construct (p : π) (answer : Except Errno ℤ)
  | accept (p t : π) (handler : Option Unit) (answer : Except Errno ℤ)
  | moveConstruct (p q : π)
  | moveAssign (p q : π)
  | destroy (p : π) (answer : Except Errno Unit)
  | otherOpens (h : ℤ)
  | otherCloses (h : ℤ)

variable {π : Type}

/-- The socket that a call on an object acts on; without one it fails with `EBADF`. -/
def State.reaches (s : State π) (p : π) : Option ℕ := (s.handles.object p).bind s.table

/-- The kernel only gives out descriptors that are free. -/
def State.Free (s : State π) (h : ℤ) : Prop := 0 ≤ h ∧ s.table h = none

instance (s : State π) (h : ℤ) : Decidable (s.Free h) :=
  inferInstanceAs (Decidable (0 ≤ h ∧ s.table h = none))

def State.Answers (s : State π) : Except Errno ℤ → Prop
  | .ok h => s.Free h
  | .error _ => True

instance (s : State π) : ∀ answer, Decidable (s.Answers answer)
  | .ok h => inferInstanceAs (Decidable (s.Free h))
  | .error _ => instDecidableTrue

/-- `::close` answers `EBADF` exactly for a descriptor that is not open. -/
def State.Closes (s : State π) (h : ℤ) (answer : Except Errno Unit) : Prop :=
  answer = .error .ebadf ↔ s.table h = none

instance (s : State π) (h : ℤ) (answer : Except Errno Unit) : Decidable (s.Closes h answer) :=
  inferInstanceAs (Decidable (answer = .error .ebadf ↔ s.table h = none))

/-- The descriptor of a socket that was not made for an object. -/
def State.isOthers (s : State π) (h : ℤ) : Bool :=
  match s.table h with
  | some k => decide (k ∉ s.opened)
  | none => false

/-- The code around the library closes what it has opened itself. -/
def enabled (s : State π) (e : Event π) : Prop :=
  s.terminated = false ∧
    match e with
    | .construct p answer => s.handles.object p = none ∧ s.Answers answer
    | .accept p t _ answer => s.handles.object p ≠ none ∧ s.handles.object t = none ∧
        s.Answers answer ∧ (s.reaches p = none → answer = .error .ebadf)
    | .moveConstruct p q => s.handles.object p = none ∧ s.handles.object q ≠ none
    | .moveAssign p q => s.handles.object p ≠ none ∧ s.handles.object q ≠ none
    | .destroy p answer => s.handles.object p ≠ none ∧
        ∀ h ∈ s.handles.object p, h ≠ invalidValue → s.Closes h answer
    | .otherOpens h => s.Free h
    | .otherCloses h => s.isOthers h = true

instance decEnabled (s : State π) : ∀ e, Decidable (enabled s e)
  | .construct p answer =>
      inferInstanceAs (Decidable (_ ∧ s.handles.object p = none ∧ s.Answers answer))
  | .accept p t _ answer =>
      inferInstanceAs (Decidable (_ ∧ s.handles.object p ≠ none ∧ s.handles.object t = none ∧
        s.Answers answer ∧ (s.reaches p = none → answer = .error .ebadf)))
  | .moveConstruct p q =>
      inferInstanceAs (Decidable (_ ∧ s.handles.object p = none ∧ s.handles.object q ≠ none))
  | .moveAssign p q =>
      inferInstanceAs (Decidable (_ ∧ s.handles.object p ≠ none ∧ s.handles.object q ≠ none))
  | .destroy p answer =>
      inferInstanceAs (Decidable (_ ∧ s.handles.object p ≠ none ∧
        ∀ h ∈ s.handles.object p, h ≠ invalidValue → s.Closes h answer))
  | .otherOpens h => inferInstanceAs (Decidable (_ ∧ s.Free h))
  | .otherCloses h => inferInstanceAs (Decidable (_ ∧ s.isOthers h = true))

variable [DecidableEq π]

/-- The kernel puts a new socket behind a descriptor. -/
def State.give (s : State π) (h : ℤ) : State π :=
  { s with table := Function.update s.table h (some s.made), made := s.made + 1 }

/-- An object is made for it. -/
def State.acquire (s : State π) (p : π) (h : ℤ) : State π :=
  { s.give h with handles := s.handles.acquire invalidValue p h
                  opened := s.opened ++ [s.made] }

/-- What an object holds is taken over by another, and what that held is lost. -/
def State.take (s : State π) (p q : π) : State π :=
  { s with handles := s.handles.take invalidValue p q
           lost := s.lost ++ (s.reaches p).toList }

/-- `~basic_handle()`: the descriptor of a valid object is closed. -/
def State.release (s : State π) (p : π) (answer : Except Errno Unit) : State π :=
  { s with
    handles := s.handles.release invalidValue p
    table := match s.handles.object p with
      | some h => if h = invalidValue then s.table else Function.update s.table h none
      | none => s.table
    closed := s.closed ++ (s.reaches p).toList
    terminated := match s.handles.object p with
      | some h => if h = invalidValue then s.terminated else Socket.destroy answer
      | none => s.terminated }

def next (s : State π) : Event π → State π
  | .construct p answer =>
      match Socket.construct answer with
      | .ok h => s.acquire p h
      | .error _ => s
  | .accept _ t handler answer =>
      match StreamServerSocket.accept handler answer with
      | .ok h => s.acquire t h
      | .error _ => s
  | .moveConstruct p q => s.take p q
  | .moveAssign p q => if p = q then s else s.take p q
  | .destroy p answer => s.release p answer
  | .otherOpens h => s.give h
  | .otherCloses h => { s with table := Function.update s.table h none }

/-- The descriptors that are open at the beginning belong to others. -/
structure Begins (s : State π) : Prop where
  handles : s.handles = .initial
  opened : s.opened = []
  closed : s.closed = []
  lost : s.lost = []
  apart : ∀ g h k, s.table g = some k → s.table h = some k → g = h
  young : ∀ h k, s.table h = some k → k < s.made ∧ h ≠ invalidValue

/-- One process. -/
def machine (π : Type) [DecidableEq π] : Machine (State π) (Event π) where
  Init := Begins
  Enabled := enabled
  next := next

instance (s : State π) (e : Event π) : Decidable ((machine π).Enabled s e) := decEnabled s e

variable {s s' : State π} {p q : π} {g h : ℤ} {k : ℕ} {answer : Except Errno Unit}

/-! ## What the objects reach

Nobody holds a descriptor that is free, or one that belongs to others, and no two
objects hold the same.  So what the kernel has behind a descriptor is the matter of
the object that holds it, and what becomes of other descriptors does not matter. -/

/-- Every object that holds a descriptor is the only one to, and has a socket of its own
behind it. -/
structure Sound (s : State π) : Prop where
  held : ∀ p h, s.handles.object p = some h → h ≠ invalidValue →
    ∃ k ∈ s.opened, s.table h = some k
  alone : ∀ p q h, s.handles.object p = some h → s.handles.object q = some h →
    h ≠ invalidValue → p = q
  apart : ∀ g h k, s.table g = some k → s.table h = some k → g = h
  young : ∀ h k, s.table h = some k → k < s.made ∧ h ≠ invalidValue
  made : ∀ k ∈ s.opened, k < s.made

section

omit [DecidableEq π]

theorem reaches_eq_some : s.reaches p = some k ↔
    ∃ h, s.handles.object p = some h ∧ s.table h = some k := Option.bind_eq_some_iff

theorem Begins.sound (hs : Begins s) : Sound s where
  held p h hp _ := by
    rw [hs.handles] at hp
    cases hp
  alone p q h hp _ _ := by
    rw [hs.handles] at hp
    cases hp
  apart := hs.apart
  young := hs.young
  made k hk := by
    rw [hs.opened] at hk
    cases hk

theorem reaches_update (hnobody : ∀ p, s.handles.object p ≠ some h) (o : Option ℕ) (q : π) :
    { s with table := Function.update s.table h o }.reaches q = s.reaches q := by
  unfold State.reaches
  cases hq : s.handles.object q with
  | none => rfl
  | some g =>
      have hg : g ≠ h := by
        rintro rfl
        exact hnobody q hq
      exact Function.update_of_ne hg _ _

end

theorem reaches_acquire_self : (s.acquire p h).reaches p = some s.made := by
  unfold State.reaches State.acquire
  rw [BasicHandle.acquire_object_self, Option.bind_some]
  exact Function.update_self _ _ _

theorem reaches_take_left (hne : p ≠ q) : (s.take p q).reaches p = s.reaches q := by
  unfold State.reaches State.take
  rw [BasicHandle.take_object_left _ hne]

theorem reaches_take_of_ne {r : π} (hp : r ≠ p) (hq : r ≠ q) :
    (s.take p q).reaches r = s.reaches r := by
  unfold State.reaches State.take
  rw [BasicHandle.take_object_of_ne _ hp hq]

theorem reaches_release_self : (s.release p answer).reaches p = none := by
  unfold State.reaches State.release
  rw [BasicHandle.release_object_self]
  rfl

theorem release_table (hg : s.handles.object p ≠ some g ∨ g = invalidValue) :
    (s.release p answer).table g = s.table g := by
  unfold State.release
  cases hp : s.handles.object p with
  | none => rfl
  | some h =>
      dsimp only
      split
      · rfl
      · next hvalid =>
          refine Function.update_of_ne ?_ _ _
          rintro rfl
          exact hg.elim (fun hne => hne hp) hvalid

theorem release_table_self (hp : s.handles.object p = some h) (hvalid : h ≠ invalidValue) :
    (s.release p answer).table h = none := by
  unfold State.release
  rw [hp]
  dsimp only
  rw [if_neg hvalid, Function.update_self]

theorem release_table_le (hk : (s.release p answer).table g = some k) : s.table g = some k := by
  by_cases hg : s.handles.object p ≠ some g ∨ g = invalidValue
  · rwa [release_table hg] at hk
  · obtain ⟨hp, hvalid⟩ := not_or.mp hg
    rw [release_table_self (not_not.mp hp) hvalid] at hk
    cases hk

/-- A valid handle that an object holds after a move was held by the object it comes from. -/
theorem take_object {r : π} (hne : p ≠ q)
    (hr : (s.take p q).handles.object r = some h) (hvalid : h ≠ invalidValue) :
    s.handles.object (Equiv.swap p q r) = some h := by
  unfold State.take at hr
  rcases eq_or_ne r p with rfl | hrp
  · rw [BasicHandle.take_object_left _ hne] at hr
    rwa [Equiv.swap_apply_left]
  · rcases eq_or_ne r q with rfl | hrq
    · rw [BasicHandle.take_object_right] at hr
      exact absurd (Option.some_inj.mp hr).symm hvalid
    · rw [BasicHandle.take_object_of_ne _ hrp hrq] at hr
      rwa [Equiv.swap_apply_of_ne_of_ne hrp hrq]

namespace Sound

section

omit [DecidableEq π]

theorem unique (hs : Sound s) (hp : s.reaches p = some k) (hq : s.reaches q = some k) :
    p = q := by
  obtain ⟨g, hg, hgk⟩ := reaches_eq_some.mp hp
  obtain ⟨h, hh, hhk⟩ := reaches_eq_some.mp hq
  obtain rfl := hs.apart g h k hgk hhk
  exact hs.alone p q g hg hh (hs.young g k hgk).2

theorem reached (hs : Sound s) (hp : s.handles.object p = some h) (hvalid : h ≠ invalidValue) :
    ∃ k ∈ s.opened, s.reaches p = some k := by
  obtain ⟨k, hk, htable⟩ := hs.held p h hp hvalid
  exact ⟨k, hk, reaches_eq_some.mpr ⟨h, hp, htable⟩⟩

/-- A socket that is reached was made for an object. -/
theorem opened (hs : Sound s) (hp : s.reaches p = some k) : k ∈ s.opened := by
  obtain ⟨h, hh, hk⟩ := reaches_eq_some.mp hp
  obtain ⟨k', hk', htable⟩ := hs.held p h hh (hs.young h k hk).2
  obtain rfl : k = k' := Option.some_inj.mp (hk.symm.trans htable)
  exact hk'

/-- Nobody holds a descriptor that is free. -/
theorem free (hs : Sound s) (hfree : s.Free h) (p : π) : s.handles.object p ≠ some h := by
  intro hp
  have hvalid : h ≠ invalidValue := by
    rintro rfl
    exact absurd hfree.1 (by decide)
  obtain ⟨k, -, hk⟩ := hs.held p h hp hvalid
  rw [hfree.2] at hk
  cases hk

/-- Nor one that belongs to others. -/
theorem others (hs : Sound s) (hothers : s.isOthers h = true) (p : π) :
    s.handles.object p ≠ some h := by
  intro hp
  unfold State.isOthers at hothers
  split at hothers
  · next k hk =>
      obtain ⟨k', hk', htable⟩ := hs.held p h hp (hs.young h k hk).2
      obtain rfl : k = k' := Option.some_inj.mp (hk.symm.trans htable)
      exact of_decide_eq_true hothers hk'
  · cases hothers

theorem give (hs : Sound s) (hfree : s.Free h) : Sound (s.give h) := by
  have hnew : ∀ g k, (s.give h).table g = some k →
      g = h ∧ k = s.made ∨ g ≠ h ∧ s.table g = some k := by
    intro g k hk
    rcases update_eq_some hk with ⟨hg, hmade⟩ | hold
    · exact Or.inl ⟨hg, (Option.some_inj.mp hmade).symm⟩
    · exact Or.inr hold
  refine ⟨fun p g hp hvalid => ?_, hs.alone, fun g g' k hg hg' => ?_, fun g k hk => ?_,
    fun k hk => Nat.lt_succ_of_lt (hs.made k hk)⟩
  · obtain ⟨k, hk, htable⟩ := hs.held p g hp hvalid
    have hg : g ≠ h := by
      rintro rfl
      exact hs.free hfree p hp
    exact ⟨k, hk, (Function.update_of_ne hg _ _).trans htable⟩
  · rcases hnew g k hg with ⟨rfl, rfl⟩ | ⟨-, hold⟩
    · rcases hnew g' _ hg' with ⟨rfl, -⟩ | ⟨-, hold'⟩
      · rfl
      · exact absurd (hs.young g' _ hold').1 (Nat.lt_irrefl _)
    · rcases hnew g' k hg' with ⟨rfl, rfl⟩ | ⟨-, hold'⟩
      · exact absurd (hs.young g _ hold).1 (Nat.lt_irrefl _)
      · exact hs.apart g g' k hold hold'
  · rcases hnew g k hk with ⟨rfl, rfl⟩ | ⟨-, hold⟩
    · refine ⟨Nat.lt_succ_self _, ?_⟩
      rintro rfl
      exact absurd hfree.1 (by decide)
    · exact ⟨Nat.lt_succ_of_lt (hs.young g k hold).1, (hs.young g k hold).2⟩

end

theorem acquire (hs : Sound s) (hp : s.handles.object p = none) (hfree : s.Free h) :
    Sound (s.acquire p h) := by
  have hgive := hs.give hfree
  have hobject : ∀ q g, (s.acquire p h).handles.object q = some g →
      q = p ∧ g = h ∨ q ≠ p ∧ s.handles.object q = some g :=
    fun q g hq => BasicHandle.acquire_object hq
  refine ⟨fun q g hq hvalid => ?_, fun q q' g hq hq' hvalid => ?_, hgive.apart, hgive.young,
    fun k hk => ?_⟩
  · rcases hobject q g hq with ⟨-, rfl⟩ | ⟨-, hold⟩
    · exact ⟨s.made, List.mem_append_right _ List.mem_cons_self, Function.update_self _ _ _⟩
    · obtain ⟨k, hk, htable⟩ := hgive.held q g hold hvalid
      exact ⟨k, List.mem_append_left _ hk, htable⟩
  · rcases hobject q g hq with ⟨rfl, rfl⟩ | ⟨-, hold⟩
    · rcases hobject q' g hq' with ⟨rfl, -⟩ | ⟨-, hold'⟩
      · rfl
      · exact absurd hold' (hs.free hfree q')
    · rcases hobject q' g hq' with ⟨rfl, rfl⟩ | ⟨-, hold'⟩
      · exact absurd hold (hs.free hfree q)
      · exact hs.alone q q' g hold hold' hvalid
  · rcases List.mem_append.mp hk with hk | hk
    · exact hgive.made k hk
    · rw [List.mem_singleton.mp hk]
      exact Nat.lt_succ_self _

theorem take (hs : Sound s) (hne : p ≠ q) : Sound (s.take p q) := by
  refine ⟨fun r g hr hvalid => ?_, fun r r' g hr hr' hvalid => ?_, hs.apart, hs.young, hs.made⟩
  · exact hs.held _ g (take_object hne hr hvalid) hvalid
  · exact (Equiv.swap p q).injective
      (hs.alone _ _ g (take_object hne hr hvalid) (take_object hne hr' hvalid) hvalid)

theorem release_held (hs : Sound s) {r : π} (hr : (s.release p answer).handles.object r = some g) :
    s.handles.object r = some g ∧ (s.release p answer).table g = s.table g := by
  obtain ⟨hne, hold⟩ := BasicHandle.release_object _ hr
  refine ⟨hold, release_table ?_⟩
  by_contra hno
  obtain ⟨hp, hvalid⟩ := not_or.mp hno
  exact hne (hs.alone r p g hold (not_not.mp hp) hvalid)

theorem release (hs : Sound s) : Sound (s.release p answer) := by
  refine ⟨fun r g hr hvalid => ?_, fun r r' g hr hr' hvalid => ?_, fun g g' k hg hg' => ?_,
    fun g k hk => hs.young g k (release_table_le hk), hs.made⟩
  · obtain ⟨hold, htable⟩ := hs.release_held hr
    rw [htable]
    exact hs.held r g hold hvalid
  · exact hs.alone r r' g (hs.release_held hr).1 (hs.release_held hr').1 hvalid
  · exact hs.apart g g' k (release_table_le hg) (release_table_le hg')

omit [DecidableEq π] in
theorem otherCloses (hs : Sound s) (hothers : s.isOthers h = true) :
    Sound { s with table := Function.update s.table h none } := by
  refine ⟨fun p g hp hvalid => ?_, hs.alone, fun g g' k hg hg' => ?_, fun g k hk => ?_, hs.made⟩
  · obtain ⟨k, hk, htable⟩ := hs.held p g hp hvalid
    have hg : g ≠ h := by
      rintro rfl
      exact hs.others hothers p hp
    exact ⟨k, hk, (Function.update_of_ne hg _ _).trans htable⟩
  · exact hs.apart g g' k (some_of_update_none hg).2 (some_of_update_none hg').2
  · exact hs.young g k (some_of_update_none hk).2

end Sound

/-! ## What a step does

A step gives an object a new descriptor or that of another object, or takes it away and
closes it; what remains is the doing of others.  An object that a step does not touch
goes on reaching the socket it reaches. -/

/-- The events that move an object, assign to it or destroy it. -/
def Touches (p : π) : Event π → Prop
  | .moveConstruct _ q => q = p
  | .moveAssign r q => r ≠ q ∧ (r = p ∨ q = p)
  | .destroy r _ => r = p
  | _ => False

/-- Everything a step can do. -/
inductive Step (s : State π) (e : Event π) : State π → Prop
  | same : Step s e s
  | acquire (p : π) (h : ℤ) : s.handles.object p = none → s.Free h → Step s e (s.acquire p h)
  | take (p q : π) : p ≠ q → Touches q e → (s.handles.object p ≠ none → Touches p e) →
      Step s e (s.take p q)
  | release (p : π) (answer : Except Errno Unit) : Touches p e → Step s e (s.release p answer)
  | give (h : ℤ) : s.Free h → Step s e (s.give h)
  | otherCloses (h : ℤ) : s.isOthers h = true →
      Step s e { s with table := Function.update s.table h none }

theorem next_moveAssign_self : next s (.moveAssign p p) = s := if_pos rfl

theorem next_moveAssign_of_ne (hne : p ≠ q) : next s (.moveAssign p q) = s.take p q :=
  if_neg hne

theorem step {e : Event π} (he : enabled s e) : Step s e (next s e) := by
  obtain ⟨-, he⟩ := he
  cases e with
  | construct p answer =>
      cases answer with
      | ok h => exact .acquire p h he.1 he.2
      | error code => exact .same
  | accept p t handler answer =>
      obtain ⟨-, ht, hanswer, -⟩ := he
      cases handler with
      | none => exact .same
      | some _ =>
          cases answer with
          | ok h => exact .acquire t h ht hanswer
          | error code => exact .same
  | moveConstruct p q =>
      obtain ⟨hp, hq⟩ := he
      have hne : p ≠ q := by
        rintro rfl
        exact hq hp
      exact .take p q hne rfl fun hno => absurd hp hno
  | moveAssign p q =>
      rcases eq_or_ne p q with rfl | hne
      · rw [next_moveAssign_self]
        exact .same
      · rw [next_moveAssign_of_ne hne]
        exact .take p q hne ⟨hne, Or.inr rfl⟩ fun _ => ⟨hne, Or.inl rfl⟩
  | destroy p answer => exact .release p answer rfl
  | otherOpens h => exact .give h he
  | otherCloses h => exact .otherCloses h he

theorem Step.sound {e : Event π} (h : Step s e s') (hs : Sound s) : Sound s' := by
  cases h with
  | same => exact hs
  | acquire p h hp hfree => exact hs.acquire hp hfree
  | take p q hne _ _ => exact hs.take hne
  | release p answer _ => exact hs.release
  | give h hfree => exact hs.give hfree
  | otherCloses h hothers => exact hs.otherCloses hothers

theorem sound (h : (machine π).Reachable s) : Sound s :=
  h.invariant (I := Sound) (fun _ hs => Begins.sound hs) fun _ _ _ he hs => (step he).sound hs

theorem Sound.reaches_acquire_of_ne (hs : Sound s) (hfree : s.Free h) (hq : q ≠ p) :
    (s.acquire p h).reaches q = s.reaches q := by
  refine Eq.trans ?_ (reaches_update (hs.free hfree) (some s.made) q)
  unfold State.reaches State.acquire
  rw [BasicHandle.acquire_object_of_ne _ hq]
  rfl

theorem Sound.reaches_take_right (hs : Sound s) : (s.take p q).reaches q = none := by
  unfold State.reaches State.take
  rw [BasicHandle.take_object_right, Option.bind_some]
  cases hk : s.table invalidValue with
  | none => rfl
  | some k => exact absurd rfl (hs.young invalidValue k hk).2

theorem Sound.reaches_release_of_ne (hs : Sound s) (hq : q ≠ p) :
    (s.release p answer).reaches q = s.reaches q := by
  have hobject : (s.release p answer).handles.object q = s.handles.object q :=
    BasicHandle.release_object_of_ne _ hq
  unfold State.reaches
  rw [hobject]
  cases hg : s.handles.object q with
  | none => rfl
  | some g => exact (hs.release_held (hobject.trans hg)).2

theorem Step.reaches {e : Event π} (h : Step s e s') (hs : Sound s) (hp : s.reaches p = some k)
    (htouches : ¬ Touches p e) : s'.reaches p = some k := by
  have hobject : s.handles.object p ≠ none := by
    obtain ⟨g, hg, -⟩ := reaches_eq_some.mp hp
    rw [hg]
    exact nofun
  cases h with
  | same => exact hp
  | acquire r h hr hfree =>
      have hne : p ≠ r := by
        rintro rfl
        exact hobject hr
      rw [hs.reaches_acquire_of_ne hfree hne]
      exact hp
  | take r q _ hq hr =>
      have hpr : p ≠ r := by
        rintro rfl
        exact htouches (hr hobject)
      have hpq : p ≠ q := by
        rintro rfl
        exact htouches hq
      rw [reaches_take_of_ne hpr hpq]
      exact hp
  | release r answer hr =>
      have hne : p ≠ r := by
        rintro rfl
        exact htouches hr
      rw [hs.reaches_release_of_ne hne]
      exact hp
  | give h hfree => exact (reaches_update (hs.free hfree) _ p).trans hp
  | otherCloses h hothers => exact (reaches_update (hs.others hothers) _ p).trans hp

/-- **An object reaches a socket of its own.**  A valid object always has an open socket
behind its descriptor, no other object has the same one, and it goes on reaching it
whatever is constructed, accepted, moved, destroyed, opened or closed elsewhere, until it
is moved from, assigned to or destroyed itself.  A move hands the socket over, and a
destructor never closes a descriptor that is not open. -/
theorem reaches_own (hs : (machine π).Reachable s) :
    (∀ p h, s.handles.object p = some h → h ≠ invalidValue →
      ∃ k ∈ s.opened, s.reaches p = some k) ∧
    (∀ p q k, s.reaches p = some k → s.reaches q = some k → p = q) ∧
    (∀ p k es, s.reaches p = some k → (machine π).Run s es → (∀ e ∈ es, ¬ Touches p e) →
      ((machine π).after s es).reaches p = some k) ∧
    (∀ p q e, p ≠ q → e = .moveConstruct p q ∨ e = .moveAssign p q → enabled s e →
      (next s e).reaches p = s.reaches q ∧ (next s e).reaches q = none) ∧
    (∀ p h answer, s.handles.object p = some h → h ≠ invalidValue →
      enabled s (.destroy p answer) → answer ≠ .error .ebadf) := by
  have hsound := sound hs
  refine ⟨fun p h hp hvalid => hsound.reached hp hvalid, fun p q k hp hq => hsound.unique hp hq,
    fun p k es hp hrun htouches => ?_, ?_, ?_⟩
  · induction es generalizing s with
    | nil => exact hp
    | cons e es ih =>
        obtain ⟨htouch, hrest⟩ := List.forall_mem_cons.mp htouches
        have hstep := step hrun.1
        exact ih (hs.step hrun.1) (hstep.sound hsound) (hstep.reaches hsound hp htouch) hrun.2
          hrest
  · rintro p q e hne (rfl | rfl) he
    · exact ⟨reaches_take_left hne, hsound.reaches_take_right⟩
    · rw [next_moveAssign_of_ne hne]
      exact ⟨reaches_take_left hne, hsound.reaches_take_right⟩
  · rintro p h answer hp hvalid he rfl
    obtain ⟨k, -, hk⟩ := hsound.held p h hp hvalid
    have hclosed : s.table h = none := (he.2.2 h hp hvalid).mp rfl
    rw [hclosed] at hk
    cases hk

/-- A process in which descriptor 0 is somebody else's, and there are no objects yet. -/
def startup : State Bool :=
  ⟨.initial, fun h => if h = 0 then some 0 else none, 1, [], [], [], false⟩

theorem startup_begins : Begins startup where
  handles := rfl
  opened := rfl
  closed := rfl
  lost := rfl
  apart g h k hg hh := by
    have hzero : ∀ h, startup.table h = some k → h = 0 := fun h hk => by
      by_contra hne
      rw [show startup.table h = none from if_neg hne] at hk
      cases hk
    rw [hzero g hg, hzero h hh]
  young h k hk := by
    by_cases hzero : h = 0
    · subst hzero
      obtain rfl : 0 = k := Option.some_inj.mp hk
      exact ⟨by decide, by decide⟩
    · rw [show startup.table h = none from if_neg hzero] at hk
      cases hk

/-- A server is constructed. -/
def serverUp : List (Event Bool) := [.construct false (.ok 3)]

/-- A connection is accepted and closed, and its descriptor is given to others. -/
def oneConnection : List (Event Bool) :=
  [.accept false true (some ()) (.ok 4), .destroy true (.ok ()), .otherOpens 4, .otherCloses 4]

theorem reaches_own_oneConnection :
    ((machine Bool).after ((machine Bool).after startup serverUp) oneConnection).reaches false =
      some 1 := by
  have hserver : (machine Bool).Reachable ((machine Bool).after startup serverUp) :=
    Machine.Reachable.of_run startup_begins (by decide)
  obtain ⟨-, -, hreaches, -, -⟩ := reaches_own hserver
  refine hreaches false 1 oneConnection rfl (by decide) ?_
  intro e he
  simp only [oneConnection, List.mem_cons, List.not_mem_nil, or_false] at he
  rcases he with rfl | rfl | rfl | rfl
  · exact id
  · exact Bool.noConfusion
  · exact id
  · exact id

/-! ## What becomes of a socket

Behind a descriptor that was free there was no socket, and there is a new one.  A
destructor closes what its object held, a move assignment loses what its target held,
and otherwise sockets only change hands. -/

/-- Some object reaches it. -/
def Held (s : State π) (k : ℕ) : Prop := ∃ p, s.reaches p = some k

/-- Some descriptor has it behind it. -/
def Open (s : State π) (k : ℕ) : Prop := ∃ h, s.table h = some k

/-- What has become of a socket that was made for an object. -/
inductive Fate (s : State π) (k : ℕ) : Prop
  | held : Held s k → s.closed.count k = 0 → s.lost.count k = 0 → Fate s k
  | closed : s.closed.count k = 1 → s.lost.count k = 0 → ¬ Open s k → Fate s k
  | lost : s.lost.count k = 1 → s.closed.count k = 0 → Open s k → ¬ Held s k → Fate s k

omit [DecidableEq π] in
theorem Fate.of_same (h : Fate s k) (hheld : Held s' k ↔ Held s k) (hopen : Open s' k ↔ Open s k)
    (hclosed : s'.closed.count k = s.closed.count k) (hlost : s'.lost.count k = s.lost.count k) :
    Fate s' k := by
  cases h with
  | held h hc hl => exact .held (hheld.mpr h) (hclosed.trans hc) (hlost.trans hl)
  | closed hc hl h => exact .closed (hclosed.trans hc) (hlost.trans hl) fun h' => h (hopen.mp h')
  | lost hl hc h hno =>
      exact .lost (hlost.trans hl) (hclosed.trans hc) (hopen.mpr h) fun h' => hno (hheld.mp h')

/-- The account of all sockets. -/
structure Account (s : State π) : Prop where
  sound : Sound s
  fate : ∀ k ∈ s.opened, Fate s k
  others : ∀ k, k ∉ s.opened → s.closed.count k = 0 ∧ s.lost.count k = 0

theorem count_toList_of_ne {l : List ℕ} {o : Option ℕ} (h : o ≠ some k) :
    (l ++ o.toList).count k = l.count k := by
  cases o with
  | none => exact congrArg (List.count k) (List.append_nil l)
  | some j =>
      have hj : j ≠ k := fun hj => h (congrArg some hj)
      rw [List.count_append, Option.toList_some, List.count_singleton, if_neg (by simpa using hj)]
      rfl

theorem count_toList_self {l : List ℕ} {o : Option ℕ} (h : o = some k) :
    (l ++ o.toList).count k = l.count k + 1 := by
  rw [h, List.count_append, Option.toList_some, List.count_singleton_self]

namespace Account

omit [DecidableEq π] in
theorem same (hs : Account s) (hsound : Sound s') (hopened : s'.opened = s.opened)
    (hclosed : s'.closed = s.closed) (hlost : s'.lost = s.lost)
    (hheld : ∀ k ∈ s.opened, Held s' k ↔ Held s k)
    (hopen : ∀ k ∈ s.opened, Open s' k ↔ Open s k) : Account s' where
  sound := hsound
  fate k hk := by
    rw [hopened] at hk
    exact (hs.fate k hk).of_same (hheld k hk) (hopen k hk) (by rw [hclosed]) (by rw [hlost])
  others k hk := by
    rw [hopened] at hk
    rw [hclosed, hlost]
    exact hs.others k hk

omit [DecidableEq π] in
theorem open_give (hs : Account s) (hfree : s.Free h) (hk : k ∈ s.opened) :
    Open (s.give h) k ↔ Open s k := by
  constructor
  · rintro ⟨g, hg⟩
    rcases update_eq_some hg with ⟨-, hmade⟩ | ⟨-, hold⟩
    · rw [Option.some_inj] at hmade
      exact absurd (hs.sound.made k hk) (by omega)
    · exact ⟨g, hold⟩
  · rintro ⟨g, hg⟩
    refine ⟨g, (Function.update_of_ne ?_ _ _).trans hg⟩
    rintro rfl
    rw [hfree.2] at hg
    cases hg

omit [DecidableEq π] in
theorem give (hs : Account s) (hfree : s.Free h) : Account (s.give h) :=
  hs.same (hs.sound.give hfree) rfl rfl rfl
    (fun k _ => exists_congr fun p => by
      rw [show (s.give h).reaches p = s.reaches p from
        reaches_update (hs.sound.free hfree) (some s.made) p])
    fun _ hk => hs.open_give hfree hk

omit [DecidableEq π] in
theorem otherCloses (hs : Account s) (hothers : s.isOthers h = true) :
    Account { s with table := Function.update s.table h none } := by
  refine hs.same (hs.sound.otherCloses hothers) rfl rfl rfl (fun k _ => ?_) fun k hk => ?_
  · exact exists_congr fun p => by rw [reaches_update (hs.sound.others hothers)]
  · constructor
    · rintro ⟨g, hg⟩
      exact ⟨g, (some_of_update_none hg).2⟩
    · rintro ⟨g, hg⟩
      refine ⟨g, (Function.update_of_ne ?_ _ _).trans hg⟩
      rintro rfl
      rw [State.isOthers, hg] at hothers
      exact of_decide_eq_true hothers hk

theorem acquire (hs : Account s) (hp : s.handles.object p = none) (hfree : s.Free h) :
    Account (s.acquire p h) where
  sound := hs.sound.acquire hp hfree
  fate k hk := by
    have hnew : s.made ∉ s.opened := fun hmade => Nat.lt_irrefl _ (hs.sound.made _ hmade)
    rcases List.mem_append.mp hk with hold | hmade
    · refine (hs.fate k hold).of_same ?_ (hs.open_give hfree hold) rfl rfl
      constructor
      · rintro ⟨q, hq⟩
        refine ⟨q, ?_⟩
        rcases eq_or_ne q p with rfl | hne
        · rw [reaches_acquire_self, Option.some_inj] at hq
          exact absurd (hs.sound.made k hold) (by omega)
        · rwa [hs.sound.reaches_acquire_of_ne hfree hne] at hq
      · rintro ⟨q, hq⟩
        refine ⟨q, ?_⟩
        have hne : q ≠ p := by
          rintro rfl
          obtain ⟨g, hg, -⟩ := reaches_eq_some.mp hq
          rw [hp] at hg
          cases hg
        rwa [hs.sound.reaches_acquire_of_ne hfree hne]
    · obtain rfl := List.mem_singleton.mp hmade
      obtain ⟨hclosed, hlost⟩ := hs.others _ hnew
      exact .held ⟨p, reaches_acquire_self⟩ hclosed hlost
  others k hk := hs.others k fun hold => hk (List.mem_append_left _ hold)

theorem take (hs : Account s) (hne : p ≠ q) : Account (s.take p q) where
  sound := hs.sound.take hne
  fate k hk := by
    by_cases hp : s.reaches p = some k
    · cases hs.fate k hk with
      | closed _ _ hno =>
          obtain ⟨h, -, hh⟩ := reaches_eq_some.mp hp
          exact absurd ⟨h, hh⟩ hno
      | lost _ _ _ hno => exact absurd ⟨p, hp⟩ hno
      | held _ hc hl =>
          obtain ⟨h, -, hh⟩ := reaches_eq_some.mp hp
          have hlost : (s.take p q).lost.count k = s.lost.count k + 1 := count_toList_self hp
          refine .lost (hlost.trans (by rw [hl])) hc ⟨h, hh⟩ ?_
          rintro ⟨r, hr⟩
          rcases eq_or_ne r q with rfl | hrq
          · rw [hs.sound.reaches_take_right] at hr
            cases hr
          · rcases eq_or_ne r p with rfl | hrp
            · rw [reaches_take_left hne] at hr
              exact hne (hs.sound.unique hp hr)
            · rw [reaches_take_of_ne hrp hrq] at hr
              exact hrp (hs.sound.unique hr hp)
    · refine (hs.fate k hk).of_same ?_ Iff.rfl rfl (count_toList_of_ne hp)
      constructor
      · rintro ⟨r, hr⟩
        rcases eq_or_ne r q with rfl | hrq
        · rw [hs.sound.reaches_take_right] at hr
          cases hr
        · rcases eq_or_ne r p with rfl | hrp
          · exact ⟨q, (reaches_take_left hne).symm.trans hr⟩
          · exact ⟨r, (reaches_take_of_ne hrp hrq).symm.trans hr⟩
      · rintro ⟨r, hr⟩
        have hrp : r ≠ p := by
          rintro rfl
          exact hp hr
        rcases eq_or_ne r q with rfl | hrq
        · exact ⟨p, (reaches_take_left hne).trans hr⟩
        · exact ⟨r, (reaches_take_of_ne hrp hrq).trans hr⟩
  others k hk := by
    have hp : s.reaches p ≠ some k := fun hp => hk (hs.sound.opened hp)
    exact ⟨(hs.others k hk).1, (count_toList_of_ne hp).trans (hs.others k hk).2⟩

theorem release (hs : Account s) : Account (s.release p answer) where
  sound := hs.sound.release
  fate k hk := by
    by_cases hp : s.reaches p = some k
    · obtain ⟨h, hh, hhk⟩ := reaches_eq_some.mp hp
      cases hs.fate k hk with
      | closed _ _ hno => exact absurd ⟨h, hhk⟩ hno
      | lost _ _ _ hno => exact absurd ⟨p, hp⟩ hno
      | held _ hc hl =>
          have hclosed : (s.release p answer).closed.count k = s.closed.count k + 1 :=
            count_toList_self hp
          refine .closed (hclosed.trans (by rw [hc])) hl ?_
          rintro ⟨g, hg⟩
          obtain rfl := hs.sound.apart g h k (release_table_le hg) hhk
          rw [release_table_self hh (hs.sound.young g k hhk).2] at hg
          cases hg
    · refine (hs.fate k hk).of_same ?_ ?_ (count_toList_of_ne hp) rfl
      · constructor
        · rintro ⟨r, hr⟩
          rcases eq_or_ne r p with rfl | hrp
          · rw [reaches_release_self] at hr
            cases hr
          · exact ⟨r, (hs.sound.reaches_release_of_ne hrp).symm.trans hr⟩
        · rintro ⟨r, hr⟩
          have hrp : r ≠ p := by
            rintro rfl
            exact hp hr
          exact ⟨r, (hs.sound.reaches_release_of_ne hrp).trans hr⟩
      · constructor
        · rintro ⟨g, hg⟩
          exact ⟨g, release_table_le hg⟩
        · rintro ⟨g, hg⟩
          refine ⟨g, (release_table ?_).trans hg⟩
          by_contra hno
          have hheld := not_not.mp (not_or.mp hno).1
          exact hp (reaches_eq_some.mpr ⟨g, hheld, hg⟩)
  others k hk := by
    have hp : s.reaches p ≠ some k := fun hp => hk (hs.sound.opened hp)
    exact ⟨(count_toList_of_ne hp).trans (hs.others k hk).1, (hs.others k hk).2⟩

end Account

theorem Step.account {e : Event π} (h : Step s e s') (hs : Account s) : Account s' := by
  cases h with
  | same => exact hs
  | acquire p h hp hfree => exact hs.acquire hp hfree
  | take p q hne _ _ => exact hs.take hne
  | release p answer _ => exact hs.release
  | give h hfree => exact hs.give hfree
  | otherCloses h hothers => exact hs.otherCloses hothers

theorem account (h : (machine π).Reachable s) : Account s := by
  refine h.invariant (I := Account) (fun s hs => ?_) fun _ _ _ he hs => (step he).account hs
  refine ⟨Begins.sound hs, fun k hk => ?_, fun k _ => ?_⟩
  · rw [Begins.opened hs] at hk
    cases hk
  · rw [Begins.closed hs, Begins.lost hs]
    exact ⟨rfl, rfl⟩

omit [DecidableEq π] in
theorem Account.closed (hs : Account s) (hk : k ∈ s.closed) :
    s.closed.count k = 1 ∧ ¬ Open s k := by
  have hpos : 0 < s.closed.count k := List.count_pos_iff.mpr hk
  by_cases hopened : k ∈ s.opened
  · cases hs.fate k hopened with
    | held _ hc _ => omega
    | closed hc _ hno => exact ⟨hc, hno⟩
    | lost _ hc _ _ => omega
  · have hnone := (hs.others k hopened).1
    omega

omit [DecidableEq π] in
theorem Account.lost (hs : Account s) (hk : k ∈ s.lost) :
    s.lost.count k = 1 ∧ Open s k ∧ ¬ Held s k := by
  have hpos : 0 < s.lost.count k := List.count_pos_iff.mpr hk
  by_cases hopened : k ∈ s.opened
  · cases hs.fate k hopened with
    | held _ _ hl => omega
    | closed _ hl _ => omega
    | lost hl _ hopen hno => exact ⟨hl, hopen, hno⟩
  · have hnone := (hs.others k hopened).2
    omega

/-- Assigning to an object that reaches a socket. -/
def Overwrites (s : State π) : Event π → Prop
  | .moveAssign p q => p ≠ q ∧ s.reaches p ≠ none
  | _ => False

theorem Step.grows {e : Event π} (h : Step s e s') :
    s.closed <+: s'.closed ∧ s.lost <+: s'.lost := by
  cases h with
  | take p q _ _ _ => exact ⟨List.prefix_rfl, List.prefix_append _ _⟩
  | release p answer _ => exact ⟨List.prefix_append _ _, List.prefix_rfl⟩
  | _ => exact ⟨List.prefix_rfl, List.prefix_rfl⟩

theorem grows {es : List (Event π)} (hrun : (machine π).Run s es) :
    s.closed <+: ((machine π).after s es).closed ∧ s.lost <+: ((machine π).after s es).lost := by
  induction es generalizing s with
  | nil => exact ⟨List.prefix_rfl, List.prefix_rfl⟩
  | cons e es ih =>
      obtain ⟨hclosed, hlost⟩ := (step hrun.1).grows
      obtain ⟨hclosed', hlost'⟩ := ih hrun.2
      exact ⟨hclosed.trans hclosed', hlost.trans hlost'⟩

theorem lost_next {e : Event π} (he : enabled s e) :
    (next s e).lost = s.lost ↔ ¬ Overwrites s e := by
  have htake : ∀ p q, (s.take p q).lost = s.lost ↔ s.reaches p = none := by
    intro p q
    show s.lost ++ (s.reaches p).toList = s.lost ↔ _
    rw [List.append_right_eq_self, Option.toList_eq_nil_iff]
  obtain ⟨-, he⟩ := he
  cases e with
  | construct p answer => cases answer <;> exact iff_of_true rfl id
  | accept p t handler answer =>
      cases handler with
      | none => exact iff_of_true rfl id
      | some _ => cases answer <;> exact iff_of_true rfl id
  | moveConstruct p q =>
      refine iff_of_true ((htake p q).mpr ?_) id
      unfold State.reaches
      rw [he.1]
      rfl
  | moveAssign p q =>
      rcases eq_or_ne p q with rfl | hne
      · rw [next_moveAssign_self]
        exact iff_of_true rfl fun h => h.1 rfl
      · rw [next_moveAssign_of_ne hne, htake]
        exact ⟨fun hnone h => h.2 hnone, fun h => not_not.mp fun hnone => h ⟨hne, hnone⟩⟩
  | destroy p answer | otherOpens h | otherCloses h => exact iff_of_true rfl id

/-- A program loses sockets exactly by assigning to objects that reach one. -/
theorem lost_iff {es : List (Event π)} (hrun : (machine π).Run s es) :
    ((machine π).after s es).lost = s.lost ↔
      ((machine π).restrict fun s e => ¬ Overwrites s e).Run s es := by
  induction es generalizing s with
  | nil => exact iff_of_true rfl trivial
  | cons e es ih =>
      obtain ⟨he, hrest⟩ := hrun
      constructor
      · intro hlost
        have hfirst : (next s e).lost = s.lost := by
          have hback : ((machine π).after s (e :: es)).lost.length ≤ (next s e).lost.length := by
            rw [hlost]
            exact (step he).grows.2.length_le
          have hsame := (grows hrest).2.eq_of_length_le hback
          exact hsame.trans hlost
        exact ⟨⟨he, (lost_next he).mp hfirst⟩, (ih hrest).mp (hlost.trans hfirst.symm)⟩
      · rintro ⟨⟨_, hkeeps⟩, hkept⟩
        exact ((ih hrest).mpr hkept).trans ((lost_next he).mpr hkeeps)

/-- **Sockets are accounted for.**  In every run a socket that was made for an object is
held by one, or was closed once, or was lost; the last two are for good.  A program loses
sockets exactly by assigning to an object that reaches one, and when all objects are gone
every socket that was not lost has been closed. -/
theorem sockets_accounted (hs : (machine π).Reachable s) {es : List (Event π)}
    (hrun : (machine π).Run s es) :
    let s' := (machine π).after s es
    (∀ k ∈ s'.opened, Fate s' k) ∧
    (∀ k ∈ s.closed, s'.closed.count k = 1 ∧ ¬ Open s' k) ∧
    (∀ k ∈ s.lost, s'.lost.count k = 1 ∧ Open s' k ∧ ¬ Held s' k) ∧
    (s'.lost = s.lost ↔ ((machine π).restrict fun s e => ¬ Overwrites s e).Run s es) ∧
    ((∀ p, s'.handles.object p = none) →
      ∀ k ∈ s'.opened, s'.closed.count k + s'.lost.count k = 1) := by
  have haccount := account (hs.reaches ⟨es, hrun, rfl⟩)
  obtain ⟨hclosed, hlost⟩ := grows hrun
  refine ⟨haccount.fate, fun k hk => haccount.closed (hclosed.subset hk),
    fun k hk => haccount.lost (hlost.subset hk), lost_iff hrun, fun hnone k hk => ?_⟩
  cases haccount.fate k hk with
  | held h _ _ =>
      obtain ⟨p, hp⟩ := h
      obtain ⟨g, hg, -⟩ := reaches_eq_some.mp hp
      rw [hnone p] at hg
      cases hg
  | closed hc hl _ => omega
  | lost hl hc _ _ => omega

/-- Two sockets are made, the first object is assigned the second, and both are destroyed. -/
def overwritten : List (Event Bool) :=
  [.construct false (.ok 3), .construct true (.ok 4), .moveAssign false true,
   .destroy true (.ok ()), .destroy false (.ok ())]

theorem sockets_accounted_overwritten :
    ((machine Bool).after startup overwritten).closed.count 1 = 0 ∧
      ((machine Bool).after startup overwritten).lost.count 1 = 1 := by
  have hrun : (machine Bool).Run startup overwritten := by decide
  have hall := (sockets_accounted (Machine.Reachable.of_init startup_begins) hrun).2.2.2.2
    (by decide) 1 (by decide)
  have hclosed : ((machine Bool).after startup overwritten).closed.count 1 = 0 := by decide
  omega

/-! ## The handles of the objects

Read as handles, the descriptors that the objects hold make up a program of
`basic_handle`. -/

/-- The socket behind the descriptor was made for an object. -/
def State.isMine (s : State π) (h : ℤ) : Bool :=
  match s.table h with
  | some k => decide (k ∈ s.opened)
  | none => false

/-- The handles that `basic_handle` has opened and not destroyed are the descriptors the
kernel has open for the objects. -/
def Level (s : State π) : Prop :=
  ∀ h, s.handles.opened h = s.handles.destroyed h + if s.isMine h then 1 else 0

section

omit [DecidableEq π]

theorem isMine_eq {g : ℤ} (htable : s'.table g = s.table g)
    (hopened : ∀ k, s.table g = some k → (k ∈ s'.opened ↔ k ∈ s.opened)) :
    s'.isMine g = s.isMine g := by
  unfold State.isMine
  rw [htable]
  cases hk : s.table g with
  | none => rfl
  | some k => exact decide_eq_decide.mpr (hopened k hk)

theorem isMine_none (hk : s.table h = none) : s.isMine h = false := by
  unfold State.isMine
  rw [hk]

theorem Sound.isMine_held (hs : Sound s) (hp : s.handles.object p = some h)
    (hvalid : h ≠ invalidValue) : s.isMine h = true := by
  obtain ⟨k, hk, htable⟩ := hs.held p h hp hvalid
  unfold State.isMine
  rw [htable]
  exact decide_eq_true hk

end

omit [DecidableEq π] in
theorem Level.not_isOpen (hlevel : Level s) (hfree : s.Free h) : ¬ s.handles.IsOpen h := by
  have hequal := hlevel h
  rw [isMine_none hfree.2] at hequal
  unfold BasicHandle.State.IsOpen
  simp at hequal
  omega

theorem Level.acquire (hlevel : Level s) (hs : Sound s) (hfree : s.Free h) :
    Level (s.acquire p h) := by
  intro g
  have hvalid : h ≠ invalidValue := by
    rintro rfl
    exact absurd hfree.1 (by decide)
  have hopened : (s.acquire p h).handles.opened =
      Function.update s.handles.opened h (s.handles.opened h + 1) :=
    if_neg (not_or.mpr ⟨hvalid, hlevel.not_isOpen hfree⟩)
  rw [hopened]
  rcases eq_or_ne g h with rfl | hg
  · have hmine : (s.acquire p g).isMine g = true := by
      unfold State.isMine
      rw [show (s.acquire p g).table g = some s.made from Function.update_self _ _ _]
      exact decide_eq_true (List.mem_append_right _ List.mem_cons_self)
    have hequal := hlevel g
    rw [isMine_none hfree.2] at hequal
    rw [Function.update_self, hmine, hequal]
    rfl
  · have hmine : (s.acquire p h).isMine g = s.isMine g := by
      refine isMine_eq (Function.update_of_ne hg _ _) fun k hk => ?_
      have hlt := (hs.young g k hk).1
      refine ⟨fun hmem => ?_, fun hold => List.mem_append_left _ hold⟩
      rcases List.mem_append.mp hmem with hold | hnew
      · exact hold
      · rw [List.mem_singleton.mp hnew] at hlt
        exact absurd hlt (Nat.lt_irrefl _)
    rw [Function.update_of_ne hg, hmine]
    exact hlevel g

omit [DecidableEq π] in
theorem Level.give (hlevel : Level s) (hs : Sound s) (hfree : s.Free h) : Level (s.give h) := by
  intro g
  have hmine : (s.give h).isMine g = s.isMine g := by
    rcases eq_or_ne g h with rfl | hg
    · rw [isMine_none hfree.2]
      unfold State.isMine
      rw [show (s.give g).table g = some s.made from Function.update_self _ _ _]
      exact decide_eq_false fun hmade => Nat.lt_irrefl _ (hs.made _ hmade)
    · exact isMine_eq (Function.update_of_ne hg _ _) fun _ _ => Iff.rfl
  rw [hmine]
  exact hlevel g

theorem Level.release (hlevel : Level s) (hs : Sound s) : Level (s.release p answer) := by
  intro g
  by_cases hg : s.handles.object p ≠ some g ∨ g = invalidValue
  · have hmine : (s.release p answer).isMine g = s.isMine g :=
      isMine_eq (release_table hg) fun _ _ => Iff.rfl
    have hdestroyed : (s.release p answer).handles.destroyed g = s.handles.destroyed g := by
      show (s.handles.release invalidValue p).destroyed g = _
      unfold BasicHandle.State.release
      cases hp : s.handles.object p with
      | none => rfl
      | some h =>
          dsimp only
          split
          · rfl
          · next hvalid =>
              refine Function.update_of_ne ?_ _ _
              rintro rfl
              exact hg.elim (fun hne => hne hp) hvalid
    rw [hmine, hdestroyed]
    exact hlevel g
  · obtain ⟨hp, hvalid⟩ := not_or.mp hg
    have hp := not_not.mp hp
    have hequal := hlevel g
    rw [hs.isMine_held hp hvalid] at hequal
    have hmine : (s.release p answer).isMine g = false :=
      isMine_none (release_table_self hp hvalid)
    have hdestroyed : (s.release p answer).handles.destroyed g = s.handles.destroyed g + 1 := by
      show (s.handles.release invalidValue p).destroyed g = _
      simp only [BasicHandle.State.release, hp, if_neg hvalid, Function.update_self]
    rw [hmine, hdestroyed]
    exact hequal

omit [DecidableEq π] in
theorem Level.otherCloses (hlevel : Level s) (hothers : s.isOthers h = true) :
    Level { s with table := Function.update s.table h none } := by
  intro g
  have hmine : ({ s with table := Function.update s.table h none } : State π).isMine g =
      s.isMine g := by
    rcases eq_or_ne g h with rfl | hg
    · rw [isMine_none (Function.update_self _ _ _)]
      unfold State.isOthers at hothers
      unfold State.isMine
      split at hothers
      · exact (decide_eq_false (of_decide_eq_true hothers)).symm
      · rfl
    · exact isMine_eq (Function.update_of_ne hg _ _) fun _ _ => Iff.rfl
  rw [hmine]
  exact hlevel g

theorem Step.level {e : Event π} (h : Step s e s') (hs : Sound s) (hlevel : Level s) :
    Level s' := by
  cases h with
  | same | take => exact hlevel
  | acquire p h hp hfree => exact hlevel.acquire hs hfree
  | release p answer _ => exact hlevel.release hs
  | give h hfree => exact hlevel.give hs hfree
  | otherCloses h hothers => exact hlevel.otherCloses hothers

/-- The handles of a process run a program of `basic_handle`, for which the kernel never
constructs a handle that is open. -/
theorem handles_reachable (h : (machine π).Reachable s) :
    (BasicHandle.machine π invalidValue).Reachable s.handles ∧ Level s := by
  refine h.invariant (I := fun s => (BasicHandle.machine π invalidValue).Reachable s.handles ∧
    Level s) (fun s hs => ?_) fun s e hr he hs => ?_
  · refine ⟨Machine.Reachable.of_init (Begins.handles hs), fun h => ?_⟩
    have hmine : s.isMine h = false := by
      unfold State.isMine
      split
      · rw [Begins.opened hs]
        rfl
      · rfl
    rw [Begins.handles hs, hmine]
    rfl
  · obtain ⟨hhandles, hlevel⟩ := hs
    refine ⟨?_, (step he).level (sound hr) hlevel⟩
    have hstep : ∀ e, BasicHandle.enabled s.handles e → (BasicHandle.machine π
        invalidValue).Reachable (BasicHandle.next invalidValue s.handles e) :=
      fun e he => hhandles.step (e := e) he
    obtain ⟨-, he⟩ := he
    cases e with
    | construct p answer =>
        cases answer with
        | ok h => exact hstep (.construct p h) ⟨he.1, hlevel.not_isOpen he.2⟩
        | error code => exact hhandles
    | accept p t handler answer =>
        cases handler with
        | none => exact hhandles
        | some _ =>
            cases answer with
            | ok h => exact hstep (.fromNative t h) he.2.1
            | error code => exact hhandles
    | moveConstruct p q => exact hstep (.moveConstruct p q) he
    | moveAssign p q =>
        have hmoved := hstep (.moveAssign p q) he
        change (BasicHandle.machine π invalidValue).Reachable (next s (.moveAssign p q)).handles
        rcases eq_or_ne p q with rfl | hne
        · rw [next_moveAssign_self]
          exact hhandles
        · rw [show BasicHandle.next invalidValue s.handles (.moveAssign p q) =
            s.handles.take invalidValue p q from if_neg hne] at hmoved
          rw [next_moveAssign_of_ne hne]
          exact hmoved
    | destroy p answer => exact hstep (.destroy p) he.1
    | otherOpens h | otherCloses h => exact hhandles

end Sockets

end Jar.Com
