/-
# `Jar.Lib.Tally` — adding up a weight over threads

A counting invariant says that some weight, summed over the threads of a
system, balances a quantity of the shared state.  A step changes the local
state of one thread, so all that is ever needed is how a sum reacts to one
update.  The index set is explicit: a system with infinitely many threads has
only finitely many of them under way at any moment, and the sum runs over those.
-/
import Mathlib.Algebra.BigOperators.Group.Finset.Piecewise
import Mathlib.Algebra.Order.BigOperators.Group.Finset

namespace Jar.Lib

variable {ι P : Type*}

/-- The weights of the threads in `S`, added up. -/
def tally (w : P → ℕ) (f : ι → P) (S : Finset ι) : ℕ := ∑ t ∈ S, w (f t)

/-- A thread with a positive weight can be named when the sum is positive. -/
theorem exists_of_tally_pos {w : P → ℕ} {f : ι → P} {S : Finset ι} (h : 0 < tally w f S) :
    ∃ t ∈ S, 0 < w (f t) := by
  by_contra hno
  have hz : tally w f S = 0 := Finset.sum_eq_zero fun t ht => by
    by_contra hne
    exact hno ⟨t, ht, Nat.pos_of_ne_zero hne⟩
  omega

theorem le_tally {w : P → ℕ} {f : ι → P} {S : Finset ι} {t : ι} (ht : t ∈ S) :
    w (f t) ≤ tally w f S :=
  Finset.single_le_sum (f := fun u => w (f u)) (fun _ _ => Nat.zero_le _) ht

theorem tally_eq_zero {w : P → ℕ} {f : ι → P} {S : Finset ι} (h : ∀ t ∈ S, w (f t) = 0) :
    tally w f S = 0 :=
  Finset.sum_eq_zero h

theorem tally_eq_single {w : P → ℕ} {f : ι → P} {S : Finset ι} {t : ι} (ht : t ∈ S)
    (h : ∀ u ∈ S, u ≠ t → w (f u) = 0) : tally w f S = w (f t) :=
  Finset.sum_eq_single_of_mem t ht h

variable [DecidableEq ι]

theorem weight_update (w : P → ℕ) (f : ι → P) (t : ι) (a : P) :
    (fun u => w (Function.update f t a u)) = Function.update (fun u => w (f u)) t (w a) :=
  Function.comp_update w f t a

/-- Replacing one summand: the old one leaves, the new one enters. -/
theorem tally_update {w : P → ℕ} {f : ι → P} {S : Finset ι} {t : ι} (ht : t ∈ S) (a : P) :
    tally w (Function.update f t a) S + w (f t) = tally w f S + w a := by
  have hold : tally w f S = w (f t) + ∑ u ∈ S \ {t}, w (f u) :=
    Finset.sum_eq_add_sum_sdiff_singleton_of_mem ht fun u => w (f u)
  have hnew : tally w (Function.update f t a) S = w a + ∑ u ∈ S \ {t}, w (f u) := by
    rw [tally, weight_update]
    exact Finset.sum_update_of_mem ht _ _
  omega

theorem tally_update_of_notMem {w : P → ℕ} {f : ι → P} {S : Finset ι} {t : ι} (ht : t ∉ S)
    (a : P) : tally w (Function.update f t a) S = tally w f S := by
  rw [tally, weight_update]
  exact Finset.sum_update_of_notMem ht _ _

theorem tally_update_same {w : P → ℕ} {f : ι → P} {S : Finset ι} {t : ι} {a : P}
    (h : w a = w (f t)) : tally w (Function.update f t a) S = tally w f S := by
  by_cases ht : t ∈ S
  · have := tally_update (w := w) (f := f) ht a
    omega
  · exact tally_update_of_notMem ht a

theorem tally_insert_zero {w : P → ℕ} {f : ι → P} {S : Finset ι} {t : ι} (h : w (f t) = 0) :
    tally w f (insert t S) = tally w f S := by
  by_cases ht : t ∈ S
  · rw [Finset.insert_eq_of_mem ht]
  · unfold tally
    rw [Finset.sum_insert ht, h, Nat.zero_add]

end Jar.Lib
