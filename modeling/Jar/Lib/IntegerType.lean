/-
# `Jar.Lib.IntegerType` — the integer types of C and C++

An integer type is a width and whether it is signed; its values are integers in a
range.  A conversion reduces modulo the width.  Arithmetic on an unsigned type does so
as well, on a signed one it is undefined when the result leaves the range.
-/
import Mathlib.Data.Int.Notation
import Mathlib.Data.Int.Order.Basic
import Mathlib.Data.Nat.Notation
import Mathlib.Tactic.NormNum

namespace Jar.Lib

structure IntegerType where
  signed : Bool
  width : ℕ
  deriving DecidableEq, Repr

namespace IntegerType

def least (t : IntegerType) : ℤ := if t.signed then -2 ^ (t.width - 1) else 0

def greatest (t : IntegerType) : ℤ := if t.signed then 2 ^ (t.width - 1) - 1 else 2 ^ t.width - 1

def Holds (t : IntegerType) (n : ℤ) : Prop := t.least ≤ n ∧ n ≤ t.greatest

instance (t : IntegerType) (n : ℤ) : Decidable (t.Holds n) :=
  inferInstanceAs (Decidable (t.least ≤ n ∧ n ≤ t.greatest))

/-- The value of a conversion to `t`. -/
def convert (t : IntegerType) (n : ℤ) : ℤ :=
  if t.signed then n.bmod (2 ^ t.width) else n % 2 ^ t.width

/-- The product in `t`; `none` when it is undefined. -/
def mul (t : IntegerType) (a b : ℤ) : Option ℤ :=
  if t.Holds (a * b) then some (a * b)
  else if t.signed then none else some (t.convert (a * b))

/-- The type both operands of an arithmetic operator are converted to, for types no
narrower than `int`: the wider one, and of two of the same width the unsigned one. -/
def common (t u : IntegerType) : IntegerType :=
  if t.width < u.width then u
  else if u.width < t.width then t
  else ⟨t.signed && u.signed, t.width⟩

theorem common_of_lt {t u : IntegerType} (h : t.width < u.width) : t.common u = u := if_pos h

theorem common_of_gt {t u : IntegerType} (h : u.width < t.width) : t.common u = t := by
  rw [common, if_neg (Nat.lt_asymm h), if_pos h]

theorem common_of_eq {t u : IntegerType} (h : t.width = u.width) :
    t.common u = ⟨t.signed && u.signed, t.width⟩ := by
  rw [common, if_neg h.not_lt, if_neg h.symm.not_lt]

variable {t : IntegerType} {n a b : ℤ}

theorem convert_of_holds (hwidth : 0 < t.width) (h : t.Holds n) : t.convert n = n := by
  obtain ⟨hleast, hgreatest⟩ := h
  have htwice : (2 : ℤ) ^ t.width = 2 * 2 ^ (t.width - 1) := by
    rw [← pow_succ', Nat.sub_add_cancel hwidth]
  unfold least at hleast
  unfold greatest at hgreatest
  unfold convert
  split_ifs at hleast hgreatest ⊢
  · refine Int.bmod_eq_of_le_mul_two ?_ ?_
    · push_cast
      omega
    · push_cast
      omega
  · exact Int.emod_eq_of_lt hleast (by omega)

theorem mul_of_holds (h : t.Holds (a * b)) : t.mul a b = some (a * b) := if_pos h

/-- A product that is defined although it does not fit has lost multiples of `2 ^ width`. -/
theorem mul_of_not_holds (h : ¬ t.Holds (a * b)) (hmul : t.mul a b = some n) (h0 : 0 ≤ a * b) :
    t.signed = false ∧ 0 ≤ n ∧ n + 2 ^ t.width ≤ a * b := by
  unfold mul at hmul
  rw [if_neg h] at hmul
  cases hsigned : t.signed with
  | true =>
      rw [hsigned, if_pos rfl] at hmul
      cases hmul
  | false =>
      rw [hsigned, if_neg Bool.false_ne_true] at hmul
      have hn : n = (a * b) % 2 ^ t.width := by
        rw [← Option.some.inj hmul, convert, hsigned, if_neg Bool.false_ne_true]
      have hpos : (0 : ℤ) < 2 ^ t.width := by positivity
      have hbig : (2 : ℤ) ^ t.width ≤ a * b := by
        by_contra hlt
        refine h ⟨?_, ?_⟩
        · rw [least, hsigned, if_neg Bool.false_ne_true]
          exact h0
        · rw [greatest, hsigned, if_neg Bool.false_ne_true]
          omega
      have hquot : 1 ≤ a * b / 2 ^ t.width := (Int.le_ediv_iff_mul_le hpos).mpr (by omega)
      have hdiv := Int.emod_add_mul_ediv (a * b) (2 ^ t.width)
      refine ⟨rfl, ?_, ?_⟩
      · rw [hn]
        exact Int.emod_nonneg _ hpos.ne'
      · have hlost : (2 : ℤ) ^ t.width ≤ 2 ^ t.width * (a * b / 2 ^ t.width) :=
          le_mul_of_one_le_right hpos.le hquot
        rw [hn]
        omega

end IntegerType

end Jar.Lib
