/-
# `Jar.Core.Contract` — checked arguments and checked system calls

The checks of `contract.hpp` throw `std::invalid_argument` with the message they are
given, or `std::system_error` with the `errno` of a system call that returned -1.  A
system call is its result or its `errno`.
-/
import Mathlib.Data.Nat.Notation

namespace Jar

/-- The errors the system calls of this library are known to fail with, and all others. -/
inductive Errno where
  | enoent
  | ebadf
  | einval
  | eaddrinuse
  | edom
  | other (code : ℕ)
  deriving DecidableEq, Repr

inductive Error where
  | invalidArgument (what : String)
  | systemError (code : Errno)
  deriving DecidableEq, Repr

namespace Contract

variable {α : Type*}

def noSystemError : Except Errno α → Except Error α
  | .ok value => .ok value
  | .error code => .error (.systemError code)

def isSystemError : Except Errno α → Bool
  | .ok _ => false
  | .error _ => true

/-- What was ignored has done nothing, and returns nothing. -/
def noSystemErrorOtherThan (ignored : List Errno) : Except Errno α → Except Error Unit
  | .ok _ => .ok ()
  | .error code => if code ∈ ignored then .ok () else .error (.systemError code)

/-- A pointer is what it points to, and `nullptr` is `none`. -/
def notNull (nullable : Option α) (message : String) : Except Error α :=
  match nullable with
  | none => .error (.invalidArgument message)
  | some value => .ok value

def notZero (value : ℕ) (message : String) : Except Error Unit :=
  if value = 0 then .error (.invalidArgument message) else .ok ()

def notGreater (value max : ℕ) (message : String) : Except Error Unit :=
  if value > max then .error (.invalidArgument message) else .ok ()

/-- What a sequence of checks returns is returned by its last step. -/
theorem bind_eq_ok {α β : Type _} {x : Except Error α} {f : α → Except Error β} {r : β}
    (h : x >>= f = .ok r) : ∃ a, x = .ok a ∧ f a = .ok r := by
  cases x with
  | error e => cases h
  | ok a => exact ⟨a, rfl, h⟩

theorem notZero_of_ne {value : ℕ} (h : value ≠ 0) (message : String) :
    notZero value message = .ok () := if_neg h

theorem notGreater_of_le {value max : ℕ} (h : value ≤ max) (message : String) :
    notGreater value max message = .ok () := if_neg (Nat.not_lt.mpr h)

theorem notGreater_of_lt {value max : ℕ} (h : max < value) (message : String) :
    notGreater value max message = .error (.invalidArgument message) := if_pos h

end Contract

end Jar
