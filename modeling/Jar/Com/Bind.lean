/-
# `Jar.Com.Bind` — binding a socket to a path

`bind` of a `datagram_socket` and of a `stream_server_socket` is the same in all but
a message: the address must not be empty, whatever is at its path is unlinked, and the
socket is bound.  Each of the three may throw.

A directory entry that was unlinked is not put back when the system's `bind` fails
after it.  `bind_iff` says when that happens; nothing else is ever changed by a call that
throws (`Binds.error`).
-/
import Jar.System.IpcAddress
import Mathlib.Logic.Function.Basic

namespace Jar.Com

open Jar.System

/-! ## The kernel

Its entries and its sockets, as far as `unlink` and `bind` go.  The system's `bind`
fails for a socket that is invalid or bound, and when it cannot create the entry, and
then has no effect. -/

/-- Directory entries by path, and for each handle that is an open socket what that is
bound to. -/
structure World (H Entry : Type) where
  entries : List UInt8 → Option Entry
  socket : H → Option (Option (List UInt8))

variable {H Entry : Type}

/-- `unlink` took effect. -/
def World.remove (w : World H Entry) (path : List UInt8) : World H Entry :=
  { w with entries := Function.update w.entries path none }

/-- The kernel's reasons not to unlink a path and not to create an entry at it, which
are its own, and the entry it makes for a socket. -/
structure Kernel (H Entry : Type) where
  refusesUnlink : World H Entry → List UInt8 → Option Errno
  refusesEntry : World H Entry → List UInt8 → Option Errno
  socketFile : H → Entry

namespace Kernel

variable [DecidableEq H] (k : Kernel H Entry) (handle : H) (path : List UInt8)
  (w : World H Entry)

/-- `::unlink` removes an existing entry. -/
def unlink : Except Errno Unit × World H Entry :=
  match k.refusesUnlink w path, w.entries path with
  | some code, _ => (.error code, w)
  | none, none => (.error .enoent, w)
  | none, some _ => (.ok (), w.remove path)

/-- `::bind` binds an open socket that is not bound, to a path where nothing is. -/
def bind : Except Errno Unit × World H Entry :=
  match w.socket handle, w.entries path, k.refusesEntry w path with
  | none, _, _ => (.error .ebadf, w)
  | some (some _), _, _ => (.error .einval, w)
  | some none, some _, _ => (.error .eaddrinuse, w)
  | some none, none, some code => (.error code, w)
  | some none, none, none => (.ok (), {
      entries := Function.update w.entries path (some (k.socketFile handle))
      socket := Function.update w.socket handle (some (some path)) })

variable {k handle path w}

/-- `::bind` that fails has no effect. -/
theorem bind_error {code : Errno} (h : (k.bind handle path w).1 = .error code) :
    (k.bind handle path w).2 = w := by
  unfold bind at h ⊢
  split at h
  · rfl
  · rfl
  · rfl
  · rfl
  · cases h

theorem bind_fails_iff (hfree : w.entries path = none) :
    (∃ code, (k.bind handle path w).1 = .error code) ↔
      w.socket handle ≠ some none ∨ k.refusesEntry w path ≠ none := by
  unfold bind
  rw [hfree]
  cases w.socket handle with
  | none => exact iff_of_true ⟨_, rfl⟩ (Or.inl nofun)
  | some bound =>
      cases bound with
      | some _ => exact iff_of_true ⟨_, rfl⟩ (Or.inl nofun)
      | none =>
          cases k.refusesEntry w path with
          | some code => exact iff_of_true ⟨code, rfl⟩ (Or.inr nofun)
          | none =>
              refine iff_of_false ?_ ?_
              · rintro ⟨code, h⟩
                cases h
              · rintro (h | h)
                · exact h rfl
                · exact h rfl

end Kernel

/-! ## The operations -/

section Operations

variable [DecidableEq H] (k : Kernel H Entry)

/-- `ipc_address::unlink`. -/
def unlink (socketPath : List UInt8) (w : World H Entry) : Except Error Unit × World H Entry :=
  match Contract.notZero socketPath.length "address cannot be empty" with
  | .error e => (.error e, w)
  | .ok () =>
      let unlinked := k.unlink socketPath w
      (Contract.noSystemErrorOtherThan [.enoent] unlinked.1, unlinked.2)

/-- `socket::bind`.  The kernel reads the path as a C string. -/
def Socket.bind (handle : H) (address : Address) (w : World H Entry) :
    Except Error Unit × World H Entry :=
  let bound := k.bind handle address.toStringView w
  (Contract.noSystemError bound.1, bound.2)

/-- `bind`, up to the message for an empty address. -/
def bindTo (message : String) (handle : H) (address : Address) (w : World H Entry) :
    Except Error Unit × World H Entry :=
  match Contract.notZero address.length message with
  | .error e => (.error e, w)
  | .ok () =>
      match unlink k address.toStringView w with
      | (.error e, w) => (.error e, w)
      | (.ok (), w) => Socket.bind k handle address w

def DatagramSocket.bind : H → Address → World H Entry → Except Error Unit × World H Entry :=
  bindTo k "local_address cannot be empty"

def StreamServerSocket.bind : H → Address → World H Entry → Except Error Unit × World H Entry :=
  bindTo k "address cannot be empty"

end Operations

/-- What is at the path, and may be removed. -/
def Unlinks (k : Kernel H Entry) (w : World H Entry) (path : List UInt8) : Prop :=
  k.refusesUnlink w path = none ∧ w.entries path ≠ none

/-! ## What a call does

It throws before anything was done, after the entry was unlinked, or not at all.
`std::invalid_argument` is about the argument of `bind`; the check in `unlink` is made
in vain. -/

/-- Every way `bind` can go: the address is empty; nothing is unlinked, with an error or
without; or the entry is unlinked first. -/
inductive Binds [DecidableEq H] (k : Kernel H Entry) (message : String) (handle : H)
    (address : Address) (w : World H Entry) : Except Error Unit × World H Entry → Prop
  | empty : address.length = 0 →
      Binds k message handle address w (.error (.invalidArgument message), w)
  | refused (code : Errno) : ¬ Unlinks k w address.toStringView →
      Binds k message handle address w (.error (.systemError code), w)
  | nothing : ¬ Unlinks k w address.toStringView →
      Binds k message handle address w (Socket.bind k handle address w)
  | unlinked : address.length ≠ 0 → Unlinks k w address.toStringView →
      Binds k message handle address w
        (Socket.bind k handle address (w.remove address.toStringView))

theorem binds [DecidableEq H] (k : Kernel H Entry) (message : String) (handle : H)
    (address : Address) (w : World H Entry) :
    Binds k message handle address w (bindTo k message handle address w) := by
  rcases eq_or_ne address.length 0 with hlength | hlength
  · have hempty : bindTo k message handle address w = (.error (.invalidArgument message), w) := by
      unfold bindTo Contract.notZero
      rw [if_pos hlength]
    rw [hempty]
    exact .empty hlength
  · have hpath : Contract.notZero address.toStringView.length "address cannot be empty" = .ok () :=
      Contract.notZero_of_ne hlength _
    unfold bindTo unlink Kernel.unlink
    rw [Contract.notZero_of_ne hlength, hpath]
    cases hrefuses : k.refusesUnlink w address.toStringView with
    | some code =>
        have hnot : ¬ Unlinks k w address.toStringView := by
          rintro ⟨hnone, -⟩
          rw [hrefuses] at hnone
          cases hnone
        cases code with
        | enoent => exact .nothing hnot
        | _ => exact .refused _ hnot
    | none =>
        cases hentry : w.entries address.toStringView with
        | none => exact .nothing (fun h => h.2 hentry)
        | some entry => exact .unlinked hlength ⟨hrefuses, hentry ▸ nofun⟩

variable [DecidableEq H] {k : Kernel H Entry} {message : String} {handle : H}
  {address : Address} {w : World H Entry} {r : Except Error Unit × World H Entry}

theorem Socket.bind_error {e : Error} (h : (Socket.bind k handle address w).1 = .error e) :
    (Socket.bind k handle address w).2 = w ∧ ∃ code, e = .systemError code := by
  unfold Socket.bind at h ⊢
  dsimp only at h ⊢
  cases hbind : (k.bind handle address.toStringView w).1 with
  | error code =>
      rw [hbind] at h
      cases h
      exact ⟨Kernel.bind_error hbind, code, rfl⟩
  | ok _ =>
      rw [hbind] at h
      cases h

theorem Socket.bind_fails_iff (hfree : w.entries address.toStringView = none) :
    (∃ e, (Socket.bind k handle address w).1 = .error e) ↔
      w.socket handle ≠ some none ∨ k.refusesEntry w address.toStringView ≠ none := by
  rw [← Kernel.bind_fails_iff hfree]
  unfold Socket.bind
  dsimp only
  cases (k.bind handle address.toStringView w).1 with
  | error code => exact iff_of_true ⟨_, rfl⟩ ⟨code, rfl⟩
  | ok _ =>
      refine iff_of_false ?_ ?_
      · rintro ⟨e, h⟩
        cases h
      · rintro ⟨code, h⟩
        cases h

/-- A call that throws has changed nothing but the entry at its path, and that only if it
could be unlinked. -/
theorem Binds.error {e : Error} (h : Binds k message handle address w r)
    (hr : r.1 = .error e) :
    r.2 = w ∨ Unlinks k w address.toStringView ∧ r.2 = w.remove address.toStringView := by
  cases h with
  | empty hlength => exact Or.inl rfl
  | refused code hnot => exact Or.inl rfl
  | nothing hnot => exact Or.inl (Socket.bind_error hr).1
  | unlinked hlength hunlinks => exact Or.inr ⟨hunlinks, (Socket.bind_error hr).1⟩

theorem Binds.invalidArgument {what : String} (h : Binds k message handle address w r)
    (hr : r.1 = .error (.invalidArgument what)) : address.length = 0 ∧ what = message := by
  cases h with
  | empty hlength =>
      cases hr
      exact ⟨hlength, rfl⟩
  | refused code hnot => cases hr
  | nothing hnot =>
      obtain ⟨-, code, hcode⟩ := Socket.bind_error hr
      cases hcode
  | unlinked hlength hunlinks =>
      obtain ⟨-, code, hcode⟩ := Socket.bind_error hr
      cases hcode

/-! ## A bind that fails -/

/-- If the call throws, the entry at the path and the binding of the socket are as before. -/
def ChangesNothing (handle : H) (address : Address) (w : World H Entry)
    (r : Except Error Unit × World H Entry) : Prop :=
  ∀ e, r.1 = .error e → r.2.entries address.toStringView = w.entries address.toStringView ∧
    r.2.socket handle = w.socket handle

/-- There is something at the path to unlink, and the socket cannot be bound afterwards. -/
def UnlinksInVain (k : Kernel H Entry) (handle : H) (address : Address) (w : World H Entry) :
    Prop :=
  address.length ≠ 0 ∧ Unlinks k w address.toStringView ∧
    (w.socket handle ≠ some none ∨
      k.refusesEntry (w.remove address.toStringView) address.toStringView ≠ none)

omit [DecidableEq H] in
theorem changesNothing_of_eq (h : r.2 = w) : ChangesNothing handle address w r := by
  intro e _
  rw [h]
  exact ⟨rfl, rfl⟩

theorem Binds.changesNothing_iff (h : Binds k message handle address w r) :
    ChangesNothing handle address w r ↔ ¬ UnlinksInVain k handle address w := by
  cases h with
  | empty hlength => exact iff_of_true (changesNothing_of_eq rfl) (fun h => h.1 hlength)
  | refused code hnot => exact iff_of_true (changesNothing_of_eq rfl) (fun h => hnot h.2.1)
  | nothing hnot =>
      refine iff_of_true ?_ (fun h => hnot h.2.1)
      intro e hr
      exact changesNothing_of_eq (Socket.bind_error hr).1 e hr
  | unlinked hlength hunlinks =>
      have hfree : (w.remove address.toStringView).entries address.toStringView = none :=
        Function.update_self _ _ _
      constructor
      · rintro h ⟨-, -, hfails⟩
        have hthrows : ∃ e, (Socket.bind k handle address (w.remove address.toStringView)).1 =
            .error e := (Socket.bind_fails_iff hfree).mpr hfails
        obtain ⟨e, hr⟩ := hthrows
        have hgone := (h e hr).1
        rw [(Socket.bind_error hr).1, hfree] at hgone
        exact hunlinks.2 hgone.symm
      · intro h e hr
        exact absurd ⟨hlength, hunlinks, (Socket.bind_fails_iff hfree).mp ⟨e, hr⟩⟩ h

/-- **A failing `bind`, of either kind of socket, changes nothing exactly when there is
nothing to unlink or the socket can be bound afterwards.** -/
theorem bind_iff (k : Kernel H Entry) (handle : H) (address : Address) (w : World H Entry) :
    (ChangesNothing handle address w (DatagramSocket.bind k handle address w) ↔
      ¬ UnlinksInVain k handle address w) ∧
    (ChangesNothing handle address w (StreamServerSocket.bind k handle address w) ↔
      ¬ UnlinksInVain k handle address w) :=
  ⟨(binds k _ handle address w).changesNothing_iff,
    (binds k _ handle address w).changesNothing_iff⟩

/-- A kernel that refuses nothing. -/
def permissive : Kernel ℤ ℤ := ⟨fun _ _ => none, fun _ _ => none, id⟩

/-- The path `/b`. -/
def served : Path := ⟨[47, 98], by decide, by decide, by decide⟩

/-- Socket 4 serves `/b`, and socket 3 is bound to `/c`. -/
def serving : World ℤ ℤ where
  entries path := if path = served.bytes then some 4 else none
  socket handle := if handle = 3 then some (some [47, 99]) else none

/-- Neither a bound socket nor one that was moved from can be bound to `/b`; the attempt
unlinks what socket 4 serves. -/
theorem served_unlinked :
    let bound := DatagramSocket.bind permissive 3 served.address serving
    let movedFrom := StreamServerSocket.bind permissive (-1) served.address serving
    serving.entries served.bytes = some 4 ∧
    bound.1 = .error (.systemError .einval) ∧ bound.2.entries served.bytes = none ∧
    movedFrom.1 = .error (.systemError .ebadf) ∧ movedFrom.2.entries served.bytes = none ∧
    ¬ ChangesNothing 3 served.address serving bound ∧
    ¬ ChangesNothing (-1) served.address serving movedFrom := by
  refine ⟨rfl, rfl, rfl, rfl, rfl, ?_, ?_⟩
  · intro h
    have hgone : (none : Option ℤ) = some 4 := (h _ rfl).1
    cases hgone
  · intro h
    have hgone : (none : Option ℤ) = some 4 := (h _ rfl).1
    cases hgone

end Jar.Com
