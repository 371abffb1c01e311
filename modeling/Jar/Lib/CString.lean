/-
# `Jar.Lib.CString` — fixed buffers that hold a string up to its first NUL

A buffer of a fixed length is a list; reading it as a C string gives the elements
before the first zero, and is within bounds when there is one (`Terminated`).  Two
ways to fill a buffer are here: element by element from some index on, which may run
past the end (`writeFrom`), and by a prefix of another buffer, which leaves the rest
as it was (`overwrite`).
-/
import Mathlib.Algebra.Notation.Defs
import Mathlib.Data.List.TakeWhile
import Mathlib.Data.Nat.Notation

namespace Jar.Lib

variable {β : Type*}

/-! ## Reading

What precedes the first NUL is all that is read, whatever follows it.  A buffer with a
NUL in it is its string, the NUL and bytes that nobody reads, so reading stays inside. -/

section Read

variable [Zero β] [DecidableEq β]

/-- The elements before the first NUL. -/
def cString (buffer : List β) : List β := buffer.takeWhile (· ≠ 0)

/-- There is a NUL to stop at. -/
def Terminated (buffer : List β) : Prop := (0 : β) ∈ buffer

instance (buffer : List β) : Decidable (Terminated buffer) :=
  inferInstanceAs (Decidable (0 ∈ buffer))

theorem zero_notMem_cString (buffer : List β) : (0 : β) ∉ cString buffer := by
  intro h
  have hne := List.mem_takeWhile_imp h
  simp at hne

theorem cString_eq_self_iff {s : List β} : cString s = s ↔ (0 : β) ∉ s := by
  unfold cString
  rw [List.takeWhile_eq_self_iff]
  constructor
  · intro hall hzero
    exact of_decide_eq_true (hall 0 hzero) rfl
  · intro hzero b hb
    exact decide_eq_true (ne_of_mem_of_not_mem hb hzero)

theorem cString_append (s rest : List β) : cString (s ++ 0 :: rest) = cString s := by
  induction s with
  | nil => exact List.takeWhile_cons_of_neg (by simp)
  | cons b s ih =>
      unfold cString at ih ⊢
      rw [List.cons_append, List.takeWhile_cons, List.takeWhile_cons, ih]

theorem cString_append_zero {s : List β} (hs : (0 : β) ∉ s) (rest : List β) :
    cString (s ++ 0 :: rest) = s := (cString_append s rest).trans (cString_eq_self_iff.mpr hs)

theorem Terminated.split {buffer : List β} (h : Terminated buffer) :
    ∃ rest, buffer = cString buffer ++ 0 :: rest := by
  obtain ⟨s, rest, rfl, hs⟩ := List.eq_append_cons_of_mem h
  exact ⟨rest, by rw [cString_append_zero hs]⟩

theorem Terminated.length_cString_lt {buffer : List β} (h : Terminated buffer) :
    (cString buffer).length < buffer.length := by
  obtain ⟨rest, hrest⟩ := h.split
  have hlen := congrArg List.length hrest
  rw [List.length_append, List.length_cons] at hlen
  omega

end Read

theorem terminated_append_zero [Zero β] (s rest : List β) : Terminated (s ++ 0 :: rest) :=
  List.mem_append_right s List.mem_cons_self

/-! ## Writing

Writing stops at the end of the buffer; what is shorter leaves the rest as it was. -/

/-- The elements are written one by one, the first at index `i`; `none` when one of them
is written past the end. -/
def writeFrom (i : ℕ) : List β → List β → Option (List β)
  | [], buffer => some buffer
  | b :: s, buffer => if i < buffer.length then writeFrom (i + 1) s (buffer.set i b) else none

theorem length_writeFrom {s : List β} {i : ℕ} {buffer written : List β}
    (h : writeFrom i s buffer = some written) : written.length = buffer.length := by
  induction s generalizing i buffer with
  | nil =>
      cases h
      rfl
  | cons b s ih =>
      rw [writeFrom] at h
      split at h
      · rw [ih h, List.length_set]
      · cases h

theorem writeFrom_eq (s : List β) (i : ℕ) (buffer : List β) (h : i + s.length ≤ buffer.length) :
    writeFrom i s buffer = some (buffer.take i ++ s ++ buffer.drop (i + s.length)) := by
  induction s generalizing i buffer with
  | nil =>
      simp only [writeFrom, List.append_nil, List.length_nil, Nat.add_zero]
      rw [List.take_append_drop]
  | cons b s ih =>
      have hi : i < buffer.length := by
        simp only [List.length_cons] at h
        omega
      have hrest : i + 1 + s.length ≤ (buffer.set i b).length := by
        simp only [List.length_cons] at h
        rw [List.length_set]
        omega
      have htake : (buffer.set i b).take (i + 1) = buffer.take i ++ [b] := by
        rw [List.take_succ_eq_append_getElem (by rw [List.length_set]; exact hi),
          List.getElem_set_self, List.take_set_of_le (Nat.le_refl i)]
      have hdrop : (buffer.set i b).drop (i + 1 + s.length) =
          buffer.drop (i + (b :: s).length) := by
        rw [List.drop_set_of_lt (by omega), List.length_cons]
        congr 1
        omega
      rw [writeFrom, if_pos hi, ih (i + 1) (buffer.set i b) hrest, htake, hdrop]
      simp only [List.append_assoc, List.cons_append, List.nil_append]

theorem writeFrom_zero {s buffer : List β} (h : s.length ≤ buffer.length) :
    writeFrom 0 s buffer = some (s ++ buffer.drop s.length) := by
  rw [writeFrom_eq s 0 buffer (by omega), List.take_zero, List.nil_append, Nat.zero_add]

/-- The first `n` elements become those of `source`. -/
def overwrite (n : ℕ) (source buffer : List β) : List β := source.take n ++ buffer.drop n

theorem length_overwrite (n : ℕ) {source buffer : List β}
    (h : source.length = buffer.length) : (overwrite n source buffer).length = buffer.length := by
  rw [overwrite, List.length_append, List.length_take, List.length_drop, h]
  omega

/-- A string that comes with its NUL is read back, whatever was in the buffer before. -/
theorem overwrite_string [Zero β] (s rest buffer : List β) :
    overwrite (s.length + 1) (s ++ 0 :: rest) buffer = s ++ 0 :: buffer.drop (s.length + 1) := by
  rw [overwrite, List.take_length_add_append, List.append_assoc]
  rfl

end Jar.Lib
