/-
# `Jar.Lib.WrappingCounter` — a counter that wraps, read as a position

A counter below `M` that wraps is reduced once more, modulo a number `N` of
places.  As long as the counter does not wrap this walks round the places; at a
wrap the walk goes on as before exactly when `N` divides `M`, and otherwise jumps
back to the first place.

* `add_mod_mod_iff` — the reading after `k` more steps is the place `k` further
  round;
* `take_findIdx_iff` — two orders in which to search for the first hit agree on
  the search exactly when they agree up to the first hit of one of them;
* `visits`, `balanced_iff` — how often each place has been read after `m` readings
  from zero on, and when these numbers differ by at most one.
-/
import Mathlib.Data.Int.CardIntervalMod
import Mathlib.Data.Nat.Count

namespace Jar.Lib

namespace WrappingCounter

variable {M N : ℕ}

/-! ## One reading

When `N` divides `M` nobody notices the wrap; otherwise the first reading after it is
out of turn, and so are those that follow. -/

theorem mod_mod_eq_iff {d : ℕ} (hd : d < M) : (M + d) % M % N = (M + d) % N ↔ N ∣ M := by
  rw [Nat.add_mod_left, Nat.mod_eq_of_lt hd]
  have hdvd := Nat.modEq_iff_dvd' (n := N) (Nat.le_add_left d M)
  rw [Nat.add_sub_cancel] at hdvd
  exact hdvd

theorem add_mod_mod_iff {i k : ℕ} (hi : i < M) (hk : k < M) :
    (i + k) % M % N = (i + k) % N ↔ N ∣ M ∨ i + k < M := by
  rcases Nat.lt_or_ge (i + k) M with hlt | hge
  · rw [Nat.mod_eq_of_lt hlt]
    exact iff_of_true rfl (Or.inr hlt)
  · obtain ⟨d, hd⟩ := Nat.exists_eq_add_of_le hge
    rw [hd, mod_mod_eq_iff (by omega)]
    constructor
    · exact Or.inl
    · rintro (hdvd | hlt)
      · exact hdvd
      · omega

theorem forall_mod_mod_iff {i k : ℕ} (hi : i < M) (hk : k < M) :
    (∀ j, j ≤ k → (i + j) % M % N = (i + j) % N) ↔ N ∣ M ∨ i + k < M := by
  constructor
  · intro hall
    rcases Nat.lt_or_ge (i + k) M with hlt | hge
    · exact Or.inr hlt
    · -- the first reading after the wrap
      have hwrap := (add_mod_mod_iff hi (by omega)).mp (hall (M - i) (by omega))
      exact Or.inl (hwrap.resolve_right (by omega))
  · intro h j hj
    refine (add_mod_mod_iff hi (by omega)).mpr (h.imp_right ?_)
    omega

/-! ## Searching in one order and in another

A search looks at its list up to the first hit, so it depends on no more of the order
than that. -/

section Search

variable {α : Type*} {p : α → Bool} {xs ys : List α}

theorem findIdx_of_take_eq (h : ys.findIdx p < ys.length)
    (heq : xs.take (ys.findIdx p + 1) = ys.take (ys.findIdx p + 1)) :
    xs.findIdx p = ys.findIdx p := by
  have hpre : ys.take (ys.findIdx p + 1) <+: xs := heq ▸ List.take_prefix _ _
  have hidx : (ys.take (ys.findIdx p + 1)).findIdx p = ys.findIdx p := by
    rw [List.findIdx_take]
    omega
  have hlt : (ys.take (ys.findIdx p + 1)).findIdx p < (ys.take (ys.findIdx p + 1)).length := by
    rw [hidx, List.length_take]
    omega
  rw [hpre.findIdx_eq_of_findIdx_lt_length hlt, hidx]

/-- Searching `xs` looks at what searching `ys` looks at exactly when the two agree up to
the first hit of `ys`. -/
theorem take_findIdx_iff (hlen : xs.length = ys.length) (h : ys.findIdx p < ys.length) :
    xs.take (xs.findIdx p + 1) = ys.take (ys.findIdx p + 1) ↔
      xs.take (ys.findIdx p + 1) = ys.take (ys.findIdx p + 1) := by
  constructor
  · intro heq
    have hlengths := congrArg List.length heq
    rw [List.length_take, List.length_take] at hlengths
    rcases Nat.lt_or_ge (xs.findIdx p) xs.length with hlt | hge
    · rwa [show ys.findIdx p = xs.findIdx p by omega] at heq ⊢
    · -- everything is looked at, in both
      rw [List.take_of_length_le (by omega)] at heq
      rw [List.take_of_length_le (by omega)]
      exact heq
  · intro heq
    rw [findIdx_of_take_eq h heq]
    exact heq

end Search

/-! ## Many readings

Up to the first wrap the places are read in turn, so equally often up to one.  A wrap
that is noticed comes in the middle of a round and goes back to the first place, which
then is ahead by one already; from there on to the second wrap the numbers are level
only where a round is complete. -/

/-- How often place `q` is read by the first `m` readings of a counter from zero on. -/
def visits (M N m q : ℕ) : ℕ := Nat.count (fun j => j % M % N = q) m

/-- No place is read twice more often than another. -/
def Balanced (M N m : ℕ) : Prop :=
  ∀ p q, p < N → q < N → visits M N m p ≤ visits M N m q + 1

variable {m q : ℕ}

theorem count_congr {P Q : ℕ → Prop} [DecidablePred P] [DecidablePred Q]
    (h : ∀ j, j < m → (P j ↔ Q j)) : Nat.count P m = Nat.count Q m :=
  le_antisymm (Nat.count_mono_left fun j hj => (h j hj).mp)
    (Nat.count_mono_left fun j hj => (h j hj).mpr)

/-- Before the first wrap, or without noticing it, the places are read in turn. -/
theorem visits_eq (hq : q < N) (h : N ∣ M ∨ m ≤ M) :
    visits M N m q = m / N + if q < m % N then 1 else 0 := by
  have hcount := Nat.count_modEq_card m (Nat.zero_lt_of_lt hq) q
  rw [Nat.mod_eq_of_lt hq] at hcount
  rw [← hcount]
  refine count_congr fun j hj => ?_
  have hread : j % M % N = j % N := by
    rcases h with hdvd | hle
    · exact Nat.mod_mod_of_dvd j hdvd
    · rw [Nat.mod_eq_of_lt (Nat.lt_of_lt_of_le hj hle)]
  rw [hread, Nat.ModEq, Nat.mod_eq_of_lt hq]

theorem visits_add (M N m q : ℕ) :
    visits M N (M + m) q = visits M N M q + visits M N m q := by
  rw [visits, Nat.count_add]
  congr 1
  exact count_congr fun j _ => by rw [Nat.add_mod_left]

theorem visits_last_le (hN : 0 < N) (hM : 0 < M) (m : ℕ) :
    visits M N m (N - 1) ≤ visits M N m 0 := by
  induction m using Nat.strong_induction_on with
  | _ m ih =>
      have hround : ∀ k, k ≤ M → visits M N k (N - 1) ≤ visits M N k 0 := by
        intro k hk
        rw [visits_eq (by omega) (Or.inr hk), visits_eq hN (Or.inr hk)]
        split <;> split <;> omega
      rcases Nat.le_total m M with hle | hge
      · exact hround m hle
      · obtain ⟨d, rfl⟩ := Nat.exists_eq_add_of_le hge
        rw [visits_add, visits_add]
        exact Nat.add_le_add (hround M (Nat.le_refl M)) (ih d (by omega))

theorem visits_first_round (hdvd : ¬ N ∣ M) (hN : 0 < N) :
    visits M N M 0 = visits M N M (N - 1) + 1 := by
  have hpos : 0 < M % N := Nat.pos_of_ne_zero fun hzero => hdvd (Nat.dvd_of_mod_eq_zero hzero)
  have hlt : M % N < N := Nat.mod_lt _ hN
  rw [visits_eq hN (Or.inr (Nat.le_refl M)), visits_eq (by omega) (Or.inr (Nat.le_refl M)),
    if_pos hpos, if_neg (by omega)]

theorem visits_after_round (hdvd : ¬ N ∣ M) (hN : 0 < N) (hM : 0 < M) :
    visits M N (M + 1) 0 = visits M N (M + 1) (N - 1) + 2 := by
  have hN1 : N ≠ 1 := by
    rintro rfl
    exact hdvd (Nat.one_dvd M)
  have hmod : 1 % N = 1 := Nat.mod_eq_of_lt (by omega)
  rw [visits_add, visits_add, visits_first_round hdvd hN, visits_eq hN (Or.inr hM),
    visits_eq (by omega) (Or.inr hM), hmod, if_pos Nat.zero_lt_one, if_neg (by omega)]
  omega

theorem balanced_of_turn (h : N ∣ M ∨ m ≤ M) : Balanced M N m := by
  intro p q hp hq
  rw [visits_eq hp h, visits_eq hq h]
  split <;> split <;> omega

/-- **The places are read equally often, up to one, before the counter wraps, if the wrap
is not noticed, and on the way round after the first wrap whenever a round is complete.** -/
theorem balanced_iff (hN : 0 < N) (hM : 0 < M) :
    Balanced M N m ↔ N ∣ M ∨ m ≤ M ∨ m < 2 * M ∧ N ∣ m - M := by
  constructor
  · intro hbalanced
    by_contra hno
    obtain ⟨hdvd, hlt, hrest⟩ : ¬ N ∣ M ∧ M < m ∧ ¬ (m < 2 * M ∧ N ∣ m - M) := by
      exact ⟨fun h => hno (Or.inl h), Nat.lt_of_not_le fun h => hno (Or.inr (Or.inl h)),
        fun h => hno (Or.inr (Or.inr h))⟩
    obtain ⟨d, rfl⟩ := Nat.exists_eq_add_of_le (Nat.le_of_lt hlt)
    have hgap := hbalanced 0 (N - 1) hN (by omega)
    rw [visits_add, visits_add, visits_first_round hdvd hN] at hgap
    rw [Nat.add_sub_cancel_left] at hrest
    rcases Nat.lt_or_ge d M with hd | hd
    · -- the second round is under way, and has gone once more to the first place
      have hpos : 0 < d % N :=
        Nat.pos_of_ne_zero fun hzero => hrest ⟨by omega, Nat.dvd_of_mod_eq_zero hzero⟩
      have hmod : d % N < N := Nat.mod_lt _ hN
      rw [visits_eq hN (Or.inr (Nat.le_of_lt hd)), if_pos hpos,
        visits_eq (by omega) (Or.inr (Nat.le_of_lt hd)), if_neg (by omega)] at hgap
      omega
    · -- a second round is complete, and has been noticed as well
      obtain ⟨d', rfl⟩ := Nat.exists_eq_add_of_le hd
      have hlater := visits_last_le hN hM d'
      rw [visits_add, visits_add, visits_first_round hdvd hN] at hgap
      omega
  · rintro (hdvd | hle | ⟨hlt, hdvd⟩)
    · exact balanced_of_turn (Or.inl hdvd)
    · exact balanced_of_turn (Or.inr hle)
    · rcases Nat.le_total m M with hle | hge
      · exact balanced_of_turn (Or.inr hle)
      · obtain ⟨d, rfl⟩ := Nat.exists_eq_add_of_le hge
        rw [Nat.add_sub_cancel_left] at hdvd
        have hd : N ∣ M ∨ d ≤ M := Or.inr (by omega)
        intro p q hp hq
        rw [visits_add, visits_add, visits_eq hp hd, visits_eq hq hd, Nat.mod_eq_zero_of_dvd hdvd,
          visits_eq hp (Or.inr (Nat.le_refl M)), visits_eq hq (Or.inr (Nat.le_refl M))]
        split <;> split <;> simp <;> omega

end WrappingCounter

end Jar.Lib
