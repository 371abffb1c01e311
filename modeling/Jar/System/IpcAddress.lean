/-
# `Jar.System.IpcAddress` — the address of a unix socket

`posix::ipc_address` are the traits of an address that is a `sockaddr_un`: the family
and the 108 bytes of `sun_path`.  `construct` copies a path into a zeroed one, and
everything else reads `sun_path` as a C string.  `basic_address` holds such a
`sockaddr_un`; here it comes with the NUL that keeps the reading inside
(`Address.terminated`).

`to_string_view` takes its argument by value and returns a view of it; a view is read
here by content.

A path is counted and a C string is not: a path with a NUL in it is copied as a whole, and
read back up to there only.  `isItsPath_pair_iff` says which addresses are their paths.
-/
import Jar.Core.Contract
import Jar.Lib.CString
import Mathlib.Data.UInt

namespace Jar.System

open Jar.Lib

/-- `sizeof(sockaddr_un::sun_path)`. -/
def sizeofSunPath : ℕ := 108

/-- `sizeof(sockaddr_un::sun_family)`. -/
def sizeofSunFamily : ℕ := 2

def afLocal : UInt16 := 1

structure SockaddrUn where
  sunFamily : UInt16
  sunPath : List UInt8
  size : sunPath.length = sizeofSunPath
  deriving DecidableEq

namespace SockaddrUn

/-- `::sockaddr_un{}`. -/
def zero : SockaddrUn := ⟨0, List.replicate sizeofSunPath 0, List.length_replicate⟩

/-- The loop that copies a path into `sun_path`; `none` when it writes past the end. -/
def copyPath (path : List UInt8) (address : SockaddrUn) : Option SockaddrUn :=
  match h : writeFrom 0 path address.sunPath with
  | some sunPath => some { address with
      sunPath := sunPath
      size := (length_writeFrom h).trans address.size }
  | none => none

/-- The first `n` bytes become those of `source`; no `n` ends within the family. -/
def overwrite (n : ℕ) (source address : SockaddrUn) : SockaddrUn where
  sunFamily := if sizeofSunFamily ≤ n then source.sunFamily else address.sunFamily
  sunPath := Lib.overwrite (n - sizeofSunFamily) source.sunPath address.sunPath
  size := by rw [length_overwrite _ (source.size.trans address.size.symm), address.size]

end SockaddrUn

namespace IpcAddress

def maxLength : ℕ := sizeofSunPath - 1

def construct (socketPath : List UInt8) : Except Error (Option SockaddrUn) := do
  Contract.notGreater socketPath.length maxLength "socket path is too long"
  return (SockaddrUn.zero.copyPath socketPath).map fun address =>
    { address with sunFamily := afLocal }

def toStringView (address : SockaddrUn) : List UInt8 := cString address.sunPath

def length (address : SockaddrUn) : ℕ := (toStringView address).length

def equal (lh rh : SockaddrUn) : Bool := cString lh.sunPath = cString rh.sunPath

end IpcAddress

/-! ## What `construct` makes

The path is copied byte by byte into a zeroed `sun_path`, and what is read back is the
path up to its first NUL. -/

/-- The address of a path that fits: the path, and NULs up to the end. -/
def pathAddress (path : List UInt8) (h : path.length ≤ IpcAddress.maxLength) : SockaddrUn where
  sunFamily := afLocal
  sunPath := path ++ List.replicate (sizeofSunPath - path.length) 0
  size := by
    rw [List.length_append, List.length_replicate]
    exact Nat.add_sub_cancel' (h.trans (Nat.sub_le _ _))

theorem SockaddrUn.copyPath_zero {path : List UInt8} (h : path.length ≤ IpcAddress.maxLength) :
    (SockaddrUn.zero.copyPath path).map (fun address => { address with sunFamily := afLocal }) =
      some (pathAddress path h) := by
  have hfits : path.length ≤ SockaddrUn.zero.sunPath.length := by
    rw [SockaddrUn.zero.size]
    exact h.trans (Nat.sub_le _ _)
  have hdrop : SockaddrUn.zero.sunPath.drop path.length =
      List.replicate (sizeofSunPath - path.length) 0 := List.drop_replicate
  have hwritten := writeFrom_zero hfits
  rw [hdrop] at hwritten
  unfold SockaddrUn.copyPath
  split
  · rename_i sunPath hsome
    rw [hwritten] at hsome
    cases hsome
    rfl
  · rename_i hnone
    rw [hwritten] at hnone
    cases hnone

theorem IpcAddress.construct_eq {path : List UInt8} (h : path.length ≤ maxLength) :
    construct path = .ok (some (pathAddress path h)) := by
  unfold construct
  rw [Contract.notGreater_of_le h]
  exact congrArg Except.ok (SockaddrUn.copyPath_zero h)

theorem sunPath_pathAddress {path : List UInt8} (h : path.length ≤ IpcAddress.maxLength) :
    (pathAddress path h).sunPath =
      path ++ 0 :: List.replicate (IpcAddress.maxLength - path.length) 0 := by
  have hroom : sizeofSunPath - path.length = IpcAddress.maxLength - path.length + 1 := by
    simp only [IpcAddress.maxLength, sizeofSunPath] at h ⊢
    omega
  change path ++ List.replicate (sizeofSunPath - path.length) 0 = _
  rw [hroom, List.replicate_succ]

/-- What is read back is the path up to its first NUL. -/
theorem IpcAddress.toStringView_pathAddress {path : List UInt8} (h : path.length ≤ maxLength) :
    toStringView (pathAddress path h) = cString path := by
  unfold toStringView
  rw [sunPath_pathAddress h, cString_append]

/-! ## Addresses -/

/-- `basic_address` over these traits: its `m_address`, which holds a C string. -/
structure Address where
  address : SockaddrUn
  terminated : Terminated address.sunPath

namespace Address

/-- The default constructor. -/
def empty : Address := ⟨.zero, List.mem_replicate.mpr ⟨by decide, rfl⟩⟩

def ofPath (path : List UInt8) (h : path.length ≤ IpcAddress.maxLength) : Address where
  address := pathAddress path h
  terminated := by
    rw [sunPath_pathAddress h]
    exact terminated_append_zero path _

def toStringView (a : Address) : List UInt8 := IpcAddress.toStringView a.address

def length (a : Address) : ℕ := IpcAddress.length a.address

/-- `operator==`. -/
def equal (lh rh : Address) : Bool := IpcAddress.equal lh.address rh.address

theorem equal_iff {lh rh : Address} : lh.equal rh = true ↔ lh.toStringView = rh.toStringView :=
  decide_eq_true_iff

theorem length_eq_zero {a : Address} : a.length = 0 ↔ a.toStringView = [] := List.length_eq_zero_iff

/-- Whatever an address holds, what is read from it is short enough to be constructed from,
and has no NUL. -/
theorem length_le (a : Address) : a.length ≤ IpcAddress.maxLength := by
  have hlt := a.terminated.length_cString_lt
  rw [a.address.size] at hlt
  exact Nat.le_sub_one_of_lt hlt

theorem zero_notMem_toStringView (a : Address) : (0 : UInt8) ∉ a.toStringView :=
  zero_notMem_cString _

@[simp] theorem toStringView_empty : empty.toStringView = [] := rfl

/-- A path without a NUL is read back. -/
theorem toStringView_ofPath {path : List UInt8} (h : path.length ≤ IpcAddress.maxLength)
    (hnul : (0 : UInt8) ∉ path) : (ofPath path h).toStringView = path :=
  (IpcAddress.toStringView_pathAddress h).trans (cString_eq_self_iff.mpr hnul)

end Address

/-- What a socket can be bound to by its address. -/
structure Path where
  bytes : List UInt8
  nonempty : bytes ≠ []
  noNul : (0 : UInt8) ∉ bytes
  fits : bytes.length ≤ IpcAddress.maxLength

def Path.address (path : Path) : Address := .ofPath path.bytes path.fits

@[simp] theorem Path.toStringView_address (path : Path) :
    path.address.toStringView = path.bytes := Address.toStringView_ofPath path.fits path.noNul

/-! ## An address and the path it is constructed from

A path that is not too long is accepted, whatever is in it.  A path without a NUL is
read back, and told apart from others. -/

namespace IpcAddress

variable {p q : List UInt8} {a : SockaddrUn}

theorem construct_too_long (h : maxLength < p.length) :
    construct p = .error (.invalidArgument "socket path is too long") := by
  unfold construct
  rw [Contract.notGreater_of_lt h]
  rfl

/-- A path that is not too long is accepted, and the loop stays inside `sun_path`; there is
no other way to get an address. -/
theorem construct_ok_iff :
    construct p = .ok (some a) ↔ ∃ h : p.length ≤ maxLength, a = pathAddress p h := by
  rcases Nat.lt_or_ge maxLength p.length with hlong | hfits
  · rw [construct_too_long hlong]
    constructor
    · intro h
      cases h
    · rintro ⟨hfits, -⟩
      exact absurd hlong (Nat.not_lt.mpr hfits)
  · rw [construct_eq hfits]
    constructor
    · intro h
      cases h
      exact ⟨hfits, rfl⟩
    · rintro ⟨-, rfl⟩
      rfl

theorem construct_throws_iff :
    (∃ what, construct p = .error (.invalidArgument what)) ↔ maxLength < p.length := by
  constructor
  · rintro ⟨what, h⟩
    by_contra hfits
    rw [construct_eq (Nat.not_lt.mp hfits)] at h
    cases h
  · intro hlong
    exact ⟨_, construct_too_long hlong⟩

theorem terminated_pathAddress (h : p.length ≤ maxLength) :
    Terminated (pathAddress p h).sunPath := (Address.ofPath p h).terminated

theorem equal_pathAddress (hp : p.length ≤ maxLength) (hq : q.length ≤ maxLength) :
    equal (pathAddress p hp) (pathAddress q hq) = true ↔ cString p = cString q := by
  rw [← toStringView_pathAddress hp, ← toStringView_pathAddress hq]
  exact decide_eq_true_iff

/-- `construct` rejects what is too long, and nothing else; of what it accepts it makes a C
string that reads as the path. -/
structure IsItsPath (p : List UInt8) : Prop where
  rejected : (∃ what, construct p = .error (.invalidArgument what)) ↔ maxLength < p.length
  accepted : p.length ≤ maxLength → ∃ a, construct p = .ok (some a) ∧ Terminated a.sunPath ∧
    toStringView a = p ∧ length a = p.length

/-- Addresses of `p` and `q` are equal when these are. -/
def EqualAsPaths (p q : List UInt8) : Prop :=
  ∀ a b, construct p = .ok (some a) → construct q = .ok (some b) → (equal a b = true ↔ p = q)

theorem isItsPath_iff : IsItsPath p ↔ (p.length ≤ maxLength → (0 : UInt8) ∉ p) := by
  constructor
  · intro h hfits
    obtain ⟨a, ha, -, hview, -⟩ := h.accepted hfits
    obtain ⟨_, rfl⟩ := construct_ok_iff.mp ha
    rw [toStringView_pathAddress hfits] at hview
    exact cString_eq_self_iff.mp hview
  · intro hnul
    refine ⟨construct_throws_iff, fun hfits => ?_⟩
    have hview : toStringView (pathAddress p hfits) = p := by
      rw [toStringView_pathAddress hfits]
      exact cString_eq_self_iff.mpr (hnul hfits)
    exact ⟨_, construct_eq hfits, terminated_pathAddress hfits, hview, congrArg List.length hview⟩

theorem equalAsPaths_iff :
    EqualAsPaths p q ↔
      (p.length ≤ maxLength → q.length ≤ maxLength → cString p = cString q → p = q) := by
  constructor
  · intro h hp hq hsame
    exact (h _ _ (construct_eq hp) (construct_eq hq)).mp ((equal_pathAddress hp hq).mpr hsame)
  · intro h a b ha hb
    obtain ⟨hp, rfl⟩ := construct_ok_iff.mp ha
    obtain ⟨hq, rfl⟩ := construct_ok_iff.mp hb
    rw [equal_pathAddress hp hq]
    constructor
    · exact h hp hq
    · exact congrArg cString

theorem equalAsPaths_of_noNul (hp : (0 : UInt8) ∉ p) (hq : (0 : UInt8) ∉ q) : EqualAsPaths p q := by
  refine equalAsPaths_iff.mpr fun _ _ hsame => ?_
  rw [cString_eq_self_iff.mpr hp, cString_eq_self_iff.mpr hq] at hsame
  exact hsame

/-- **An address is its path, and equal to the address of another path exactly when the paths
are, precisely for paths that are too long to be accepted or hold no NUL.** -/
theorem isItsPath_pair_iff (p q : List UInt8) :
    (IsItsPath p ∧ IsItsPath q ∧ EqualAsPaths p q ↔
      (p.length ≤ maxLength → (0 : UInt8) ∉ p) ∧ (q.length ≤ maxLength → (0 : UInt8) ∉ q)) ∧
    (EqualAsPaths p q ↔
      (p.length ≤ maxLength → q.length ≤ maxLength → cString p = cString q → p = q)) := by
  refine ⟨?_, equalAsPaths_iff⟩
  rw [isItsPath_iff, isItsPath_iff]
  constructor
  · rintro ⟨hp, hq, -⟩
    exact ⟨hp, hq⟩
  · rintro ⟨hp, hq⟩
    refine ⟨hp, hq, fun a b ha hb => ?_⟩
    obtain ⟨hpfits, -⟩ := construct_ok_iff.mp ha
    obtain ⟨hqfits, -⟩ := construct_ok_iff.mp hb
    exact equalAsPaths_of_noNul (hp hpfits) (hq hqfits) a b ha hb

/-- `a`, and `a` with a NUL and another byte after it: the second is accepted as well, reads as
the first, and their addresses are equal. -/
theorem cut_at_nul :
    ∃ a b, construct [97] = .ok (some a) ∧ construct [97, 0, 98] = .ok (some b) ∧
      toStringView b = [97] ∧ length b = 1 ∧ equal a b = true ∧
      ¬ IsItsPath [97, 0, 98] ∧ ¬ EqualAsPaths [97] [97, 0, 98] := by
  refine ⟨pathAddress [97] (by decide), pathAddress [97, 0, 98] (by decide), construct_eq _,
    construct_eq _, toStringView_pathAddress _, congrArg List.length (toStringView_pathAddress _),
    (equal_pathAddress _ _).mpr rfl, ?_, ?_⟩
  · intro h
    exact absurd (isItsPath_iff.mp h (by decide)) (by decide)
  · intro h
    exact absurd (equalAsPaths_iff.mp h (by decide) (by decide) rfl) (by decide)

end IpcAddress

end Jar.System
