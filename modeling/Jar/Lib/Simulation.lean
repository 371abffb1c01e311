/-
# `Jar.Lib.Simulation` — the runs of one machine, told as runs of another

A machine that says what a component is for is smaller than the machine of its code,
and takes fewer steps.  A simulation follows the code step by step: a view of its
states, and for every step either nothing or one step of the smaller machine.  What a
user notices, the calls and the returns, is written on the steps of both, and is the
same (`Simulation.run`).  So whatever the smaller machine never shows, the code never
shows either (`Simulation.observed`).

Only reachable states have to be followed, so invariants of the code may be used.
-/
import Jar.Lib.Machine

namespace Jar.Lib.Machine

variable {σ ε α β ℓ : Type*}

/-- What is noticed of a run. -/
def observed (label : ε → Option ℓ) (es : List ε) : List ℓ := es.filterMap label

theorem observed_append (label : ε → Option ℓ) (es fs : List ε) :
    observed label (es ++ fs) = observed label es ++ observed label fs :=
  List.filterMap_append

theorem observed_cons (label : ε → Option ℓ) (e : ε) (es : List ε) :
    observed label (e :: es) = (label e).toList ++ observed label es := by
  unfold observed
  cases h : label e with
  | none => simp [h]
  | some a => simp [h]

/-- `A` follows `M`; what is noticed of `M` is `label`, of `A` it is `shown`. -/
structure Simulation (M : Machine σ ε) (A : Machine α β) (label : ε → Option ℓ)
    (shown : β → Option ℓ) where
  view : σ → α
  init : ∀ s, M.Init s → A.Init (view s)
  step : ∀ s e, M.Reachable s → M.Enabled s e →
    (view (M.next s e) = view s ∧ label e = none) ∨
      ∃ b, A.Enabled (view s) b ∧ view (M.next s e) = A.next (view s) b ∧ shown b = label e

variable {M : Machine σ ε} {A : Machine α β} {label : ε → Option ℓ} {shown : β → Option ℓ}

/-- **Every run is followed by a run of the smaller machine** that shows the same. -/
theorem Simulation.run (S : M.Simulation A label shown) {s : σ} {es : List ε}
    (hs : M.Reachable s) (h : M.Run s es) :
    ∃ bs, A.Run (S.view s) bs ∧ A.after (S.view s) bs = S.view (M.after s es) ∧
      observed shown bs = observed label es := by
  induction es generalizing s with
  | nil => exact ⟨[], trivial, rfl, rfl⟩
  | cons e es ih =>
      obtain ⟨he, hes⟩ := h
      obtain ⟨bs, hbs, hafter, hshown⟩ := ih (hs.step he) hes
      rcases S.step s e hs he with ⟨hview, hnone⟩ | ⟨b, hb, hview, hsame⟩
      · refine ⟨bs, hview ▸ hbs, hview ▸ hafter, ?_⟩
        rw [observed_cons, hnone]
        exact hshown
      · rw [hview] at hbs hafter
        refine ⟨b :: bs, ⟨hb, hbs⟩, hafter, ?_⟩
        rw [observed_cons, observed_cons, hsame, hshown]

theorem Simulation.observed (S : M.Simulation A label shown) {P : List ℓ → Prop}
    (hP : ∀ a bs, A.Init a → A.Run a bs → P (observed shown bs)) {s : σ} {es : List ε}
    (hs : M.Init s) (h : M.Run s es) : P (observed label es) := by
  obtain ⟨bs, hbs, -, hshown⟩ := S.run (Reachable.of_init hs) h
  exact hshown ▸ hP _ bs (S.init s hs) hbs

end Jar.Lib.Machine
