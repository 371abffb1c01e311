/-
# `Jar.Concurrency.FirstWins` — the first call to resolve a shared state decides it

`set_value`, `set_exception`, `cancel` and `broken` begin with the same
compare-exchange, and only the call whose exchange finds `init` does anything.
So whatever the calls and however their steps fall, there is at most one winner;
it alone changes the state, it alone stores, and what it stores is what the
first `get` finds.

`Course` relates a state to the run that has led to it: the winner is an event
of the run, not a field of the state.
-/
import Jar.Concurrency.Waiters

namespace Jar.Concurrency

open Jar.Lib

namespace Waiters

open SharedState (Resolution Thrown)
open Future (ResolverPc)

variable {ω ρ V E : Type} [DecidableEq ω] [DecidableEq ρ]

/-! ## Winning, storing, examining

The winner is the exchange that finds `init`.  What it meant is what examining the
data gives once it is stored. -/

/-- Call `r` is the one whose exchange found the state unresolved. -/
def Wins (moved : V → V) (es : List (Event ω ρ V E)) (r : ρ) (op : Resolution V E) : Prop :=
  ∃ fs gs, es = fs ++ .exchange r op :: gs ∧
    ((machine ω ρ E moved).after State.initial fs).shared.state = .init

/-- A `get` looks at the data, and moves a result out. -/
def Event.examines : Event ω ρ V E → Bool
  | .waiter _ (.examine _) => true
  | _ => false

/-- No `get` has got anything yet. -/
def Unexamined (es : List (Event ω ρ V E)) : Prop := ∀ e ∈ es, e.examines = false

/-- What `get` gives when `op` has decided the state. -/
def outcome : Resolution V E → Except (Thrown E) (FutureResult V)
  | .setValue r => .ok r
  | .setException e => .error (.exception e)
  | .cancel => .ok none
  | .broken => .error (.domainError "broken promise")

theorem examine_stores (op : Resolution V E) :
    SharedState.examine op.announces (op.stores.getD .monostate) = outcome op := by
  cases op <;> rfl

variable {moved : V → V} {s : State ω ρ V E} {e : Event ω ρ V E} {es : List (Event ω ρ V E)}
  {r : ρ} {op : Resolution V E}

theorem Wins.append (h : Wins moved es r op) (later : List (Event ω ρ V E)) :
    Wins moved (es ++ later) r op := by
  obtain ⟨fs, gs, rfl, hinit⟩ := h
  exact ⟨fs, gs ++ later, by simp, hinit⟩

theorem wins_snoc (h : Wins moved (es ++ [e]) r op) : Wins moved es r op ∨
    (e = .exchange r op ∧ ((machine ω ρ E moved).after State.initial es).shared.state = .init) := by
  obtain ⟨fs, gs, heq, hinit⟩ := h
  rcases List.eq_nil_or_concat gs with rfl | ⟨gs, f, rfl⟩
  · obtain ⟨rfl, hlast⟩ := List.append_inj' heq rfl
    exact Or.inr ⟨(List.cons.inj hlast).1, hinit⟩
  · rw [List.concat_eq_append, ← List.cons_append, ← List.append_assoc] at heq
    obtain ⟨rfl, -⟩ := List.append_inj' heq rfl
    exact Or.inl ⟨fs, gs, rfl, hinit⟩

omit [DecidableEq ω] [DecidableEq ρ] in
theorem Unexamined.init (h : Unexamined (es ++ [e])) : Unexamined es :=
  fun f hf => h f (List.mem_append_left _ hf)

/-! ## What a step does to the state and to the data -/

/-- Two cells, and who writes them: the exchange that finds `init`, the call that
stores, and the `get` that moves a result out. -/
inductive Touches (s : State ω ρ V E) : Event ω ρ V E → SharedState V E → Prop
  | nothing {e : Event ω ρ V E} (hlost : ∀ r op, e = .exchange r op → s.shared.state ≠ .init) :
      Touches s e s.shared
  | exchange {r : ρ} {op : Resolution V E} (hinit : s.shared.state = .init) :
      Touches s (.exchange r op) { s.shared with state := op.announces }
  | store {r : ρ} {op : Resolution V E} :
      Touches s (.store r op) { s.shared with data := op.stores.getD s.shared.data }
  | examine {t : ω} {st : SharedState.State} {d : SharedState.Data V E} :
      Touches s (.waiter t (.examine st)) { s.shared with data := d }

theorem touches (moved : V → V) (he : enabled s e) : Touches s e (next moved s e).shared := by
  cases e with
  | call r op => exact .nothing nofun
  | exchange r op =>
      rcases eq_or_ne s.shared.state .init with hinit | hready
      · rw [next_exchange_init hinit]
        exact .exchange hinit
      · rw [next_exchange_ready hready]
        exact .nothing fun _ _ _ => hready
  | store r op => exact .store
  | notify r op u => exact .nothing nofun
  | waiter t f =>
      obtain ⟨hown, -⟩ := he
      cases f with
      | call | exchange | store | notify => cases hown
      | examine st => exact .examine
      | _ => exact .nothing nofun

/-- Once the state is resolved, a call that does not store never will. -/
theorem next_not_storing (he : enabled s e) (hst : s.shared.state ≠ .init)
    (hidle : ∀ u op', s.resolver u ≠ .storing op') (u : ρ) (op' : Resolution V E) :
    (next moved s e).resolver u ≠ .storing op' := by
  have hmoves := moves moved he u
  have hold := hidle u
  revert hmoves hold
  generalize s.resolver u = p, (next moved s e).resolver u = q
  intro hmoves hold
  cases hmoves with
  | won hinit => exact absurd hinit hst
  | other => exact hold op'
  | _ => exact nofun

/-! ## The course of a run

Nobody has won yet, the winner has still to store, or nobody stores any more: a run
goes through the three in this order. -/

/-- How a run has gone: nobody has won; the winner has still to store; nobody stores
any more, and the data, unless a `get` has moved it out, is the winner's. -/
inductive Course (moved : V → V) (es : List (Event ω ρ V E)) (s : State ω ρ V E) : Prop
  | unresolved (hstate : s.shared.state = .init) (hnone : ∀ r op, ¬ Wins moved es r op)
  | storing (r : ρ) (op : Resolution V E) (hwins : Wins moved es r op)
      (hr : s.resolver r = .storing op)
  | stored (r : ρ) (op : Resolution V E) (hwins : Wins moved es r op)
      (hstate : s.shared.state = op.announces) (hidle : ∀ u op', s.resolver u ≠ .storing op')
      (hdata : Unexamined es → s.shared.data = op.stores.getD .monostate)

theorem next_state_of_ne (moved : V → V) (he : enabled s e) (hne : ∀ r op, e ≠ .exchange r op) :
    (next moved s e).shared.state = s.shared.state := by
  have htouch := touches moved he
  revert htouch
  generalize (next moved s e).shared = shared
  intro htouch
  cases htouch with
  | exchange => exact absurd rfl (hne _ _)
  | _ => rfl

theorem Course.of_unresolved (hphase : Future.Phase s.unattended) (he : enabled s e)
    (hafter : (machine ω ρ E moved).after State.initial es = s)
    (hstate : s.shared.state = .init) (hnone : ∀ r op, ¬ Wins moved es r op) :
    Course moved (es ++ [e]) (next moved s e) := by
  by_cases hex : ∃ r op, e = .exchange r op
  · obtain ⟨r, op, rfl⟩ := hex
    obtain ⟨hdata, hall⟩ := hphase.of_init hstate
    have hwins : Wins moved (es ++ [.exchange r op]) r op := ⟨es, [], rfl, by rw [hafter, hstate]⟩
    rw [next_exchange_init hstate]
    cases hop : op.stores with
    | some d => exact .storing r op hwins (by simp [ResolverPc.won, hop])
    | none =>
        refine .stored r op hwins rfl ?_ fun _ => by rw [hop]; exact hdata
        refine (Function.forall_update_iff s.resolver fun _ p => ∀ op', p ≠ .storing op').mpr
          ⟨fun op' => by simp [ResolverPc.won, hop], fun u _ op' hu => ?_⟩
        have hearly : (s.resolver u).early = true := hall u
        rw [hu] at hearly
        cases hearly
  · have hne : ∀ r op, e ≠ .exchange r op := fun r op heq => hex ⟨r, op, heq⟩
    refine .unresolved ((next_state_of_ne moved he hne).trans hstate) fun r op hwins => ?_
    rcases wins_snoc hwins with hold | ⟨heq, -⟩
    · exact hnone r op hold
    · exact hne r op heq

theorem Course.of_storing (hphase : Future.Phase s.unattended) (he : enabled s e)
    (hwins : Wins moved es r op) (hr : s.resolver r = .storing op) :
    Course moved (es ++ [e]) (next moved s e) := by
  obtain ⟨hstate, hdata, hall⟩ := hphase.of_storing hr
  have hmoves := moves moved he r
  rw [hr] at hmoves
  by_cases hcaller : e.caller = some r
  · obtain rfl : e = .store r op := by
      revert hmoves
      generalize (next moved s e).resolver r = q
      intro hmoves
      cases hmoves with
      | store => rfl
      | other hne => exact absurd hcaller hne
    refine .stored r op (hwins.append _) hstate ?_ fun _ => ?_
    · refine (Function.forall_update_iff s.resolver fun _ p => ∀ op', p ≠ .storing op').mpr
        ⟨fun op' => nofun, fun w hw op' hwst => ?_⟩
      have hpassive : (s.resolver w).passive = true := hall w hw
      rw [hwst] at hpassive
      cases hpassive
    · show op.stores.getD s.shared.data = _
      rw [show s.shared.data = _ from hdata]
  · exact .storing r op (hwins.append [e]) ((next_resolver_of_ne moved he hcaller).trans hr)

theorem Course.of_stored (he : enabled s e) (hwins : Wins moved es r op)
    (hstate : s.shared.state = op.announces) (hidle : ∀ u op', s.resolver u ≠ .storing op')
    (hdata : Unexamined es → s.shared.data = op.stores.getD .monostate) :
    Course moved (es ++ [e]) (next moved s e) := by
  have hready : s.shared.state ≠ .init := by
    rw [hstate]
    exact op.announces_ne_init
  refine .stored r op (hwins.append [e]) ((next_state he hready).trans hstate)
    (next_not_storing he hready hidle) ?_
  intro hun
  have htouch := touches moved he
  revert htouch
  generalize (next moved s e).shared = shared
  intro htouch
  cases htouch with
  | nothing => exact hdata hun.init
  | exchange hinit => exact absurd hinit hready
  | store => exact absurd he (hidle _ _)
  | examine => cases hun _ (List.mem_append_right es (List.mem_singleton_self _))

/-- **The course of every run.** -/
theorem course (h : (machine ω ρ E moved).Run State.initial es) :
    Course moved es ((machine ω ρ E moved).after State.initial es) := by
  refine h.history (I := Course moved) ?_ ?_
  · refine .unresolved rfl fun r op hwins => ?_
    obtain ⟨fs, gs, heq, -⟩ := hwins
    simp at heq
  · intro es e hrun he ih
    have hphase := phase (Machine.Reachable.of_run rfl hrun)
    cases ih with
    | unresolved hstate hnone => exact .of_unresolved hphase he rfl hstate hnone
    | storing r op hwins hr => exact .of_storing hphase he hwins hr
    | stored r op hwins hstate hidle hdata => exact .of_stored he hwins hstate hidle hdata

/-! ## One winner

No two exchanges of a run find the state unresolved, so the call that stores is the
one that has won, and it stores once. -/

/-- The state after the events `es`. -/
abbrev stateAfter (moved : V → V) (es : List (Event ω ρ V E)) : State ω ρ V E :=
  (machine ω ρ E moved).after State.initial es

theorem run_upto {fs gs : List (Event ω ρ V E)}
    (h : (machine ω ρ E moved).Run State.initial (fs ++ e :: gs)) :
    (machine ω ρ E moved).Run State.initial fs ∧ enabled (stateAfter moved fs) e :=
  ⟨((machine ω ρ E moved).run_append.mp h).1, ((machine ω ρ E moved).run_append.mp h).2.1⟩

theorem winner_unique (h : (machine ω ρ E moved).Run State.initial es) {r' : ρ}
    {op' : Resolution V E} (hw : Wins moved es r op) (hw' : Wins moved es r' op') :
    r = r' ∧ op = op' := by
  obtain ⟨fs, gs, rfl, hinit⟩ := hw
  obtain ⟨fs', gs', heq, hinit'⟩ := hw'
  have hsame : fs = fs' := by
    refine h.once (Q := fun s => s.shared.state ≠ .init) (fun _ _ => ready_next) heq
      (not_not.mpr hinit) ?_ (not_not.mpr hinit') ?_
    · show (next moved _ (.exchange r op)).shared.state ≠ .init
      rw [next_exchange_init hinit]
      exact op.announces_ne_init
    · show (next moved _ (.exchange r' op')).shared.state ≠ .init
      rw [next_exchange_init hinit']
      exact op'.announces_ne_init
  subst hsame
  have hev := (List.cons.inj (List.append_cancel_left heq)).1
  exact Event.exchange.inj hev

theorem stored_by (h : (machine ω ρ E moved).Run State.initial es)
    (he : enabled (stateAfter moved es) (.store r op)) : Wins moved es r op := by
  have hr : (stateAfter moved es).resolver r = .storing op := he
  have hphase := phase (Machine.Reachable.of_run rfl h)
  cases course h with
  | unresolved hstate hnone =>
      have hearly : ((stateAfter moved es).resolver r).early = true := (hphase.of_init hstate).2 r
      rw [hr] at hearly
      cases hearly
  | stored r' op' hwins hstate hidle => exact absurd hr (hidle r op)
  | storing r' op' hwins hr' =>
      obtain rfl : r = r' := by
        by_contra hne
        have hpassive : ((stateAfter moved es).resolver r).passive = true :=
          (hphase.of_storing hr').2.2 r hne
        rw [hr] at hpassive
        cases hpassive
      rw [hr] at hr'
      cases hr'
      exact hwins

/-- A call of the shared state that is announced and stored, or needs no store. -/
def Settled (s : State ω ρ V E) : Prop :=
  s.shared.state ≠ .init ∧ ∀ u op', s.resolver u ≠ .storing op'

theorem settled_next (he : enabled s e) (h : Settled s) : Settled (next moved s e) :=
  ⟨ready_next he h.1, next_not_storing he h.1 h.2⟩

theorem settled_store (hphase : Future.Phase s.unattended) (he : enabled s (.store r op)) :
    Settled (next moved s (.store r op)) := by
  obtain ⟨hstate, -, hall⟩ := hphase.of_storing he
  refine ⟨?_, (Function.forall_update_iff s.resolver fun _ p => ∀ op', p ≠ .storing op').mpr
    ⟨fun _ => nofun, fun u hu op' hst => ?_⟩⟩
  · show s.shared.state ≠ .init
    rw [show s.shared.state = _ from hstate]
    exact op.announces_ne_init
  · have hpassive : (s.resolver u).passive = true := hall u hu
    rw [hst] at hpassive
    cases hpassive

theorem stored_once {fs gs fs' gs' : List (Event ω ρ V E)} {r' : ρ} {op' : Resolution V E}
    (h : (machine ω ρ E moved).Run State.initial (fs ++ .store r op :: gs))
    (heq : fs ++ .store r op :: gs = fs' ++ .store r' op' :: gs') : fs = fs' := by
  obtain ⟨hrun, he⟩ := run_upto h
  obtain ⟨hrun', he'⟩ := run_upto (heq ▸ h)
  exact h.once (Q := Settled) (fun _ _ => settled_next) heq
    (fun hs => hs.2 r op he) (settled_store (phase (Machine.Reachable.of_run rfl hrun)) he)
    (fun hs => hs.2 r' op' he') (settled_store (phase (Machine.Reachable.of_run rfl hrun')) he')

/-- A call that has not won leaves the shared state alone. -/
theorem others_idle {fs gs : List (Event ω ρ V E)}
    (h : (machine ω ρ E moved).Run State.initial (fs ++ e :: gs)) (hr : e.caller = some r)
    (hlost : ∀ op, ¬ Wins moved (fs ++ e :: gs) r op) :
    (next moved (stateAfter moved fs) e).shared = (stateAfter moved fs).shared := by
  obtain ⟨hrun, he⟩ := run_upto h
  have htouch := touches moved he
  revert htouch
  generalize (next moved (stateAfter moved fs) e).shared = shared
  intro htouch
  cases htouch with
  | nothing => rfl
  | exchange hinit =>
      obtain rfl := Option.some_inj.mp hr
      exact absurd ⟨fs, gs, rfl, hinit⟩ (hlost _)
  | store =>
      obtain rfl := Option.some_inj.mp hr
      exact absurd ((stored_by hrun he).append _) (hlost _)
  | examine => cases hr

theorem state_final {s' : State ω ρ V E} (h : (machine ω ρ E moved).Reaches s s')
    (hready : s.shared.state ≠ .init) : s'.shared.state = s.shared.state := by
  have hpair := h.stable
    (P := fun x => x.shared.state = s.shared.state ∧ x.shared.state ≠ .init)
    (fun x e he hx => ⟨(next_state he hx.2).trans hx.1, ready_next he hx.2⟩) ⟨rfl, hready⟩
  exact hpair.1

/-! ## What the first `get` gets -/

/-- What `get` gives says who has won, when values are what is set. -/
structure Gives (op : Resolution V E) (x : Except (Thrown E) (FutureResult V)) : Prop where
  value : ∀ v, x = .ok (some v) ↔ op = .setValue (some v)
  exception : ∀ e, x = .error (.exception e) ↔ op = .setException e
  canceled : x = .ok none ↔ op = .cancel
  broken : (∃ what, x = .error (.domainError what)) ↔ op = .broken

theorem gives_outcome (hop : op ≠ .setValue none) : Gives op (outcome op) := by
  cases op with
  | setValue r =>
      cases r with
      | none => exact absurd rfl hop
      | some v => exact ⟨by simp [outcome], by simp [outcome], by simp [outcome], by simp [outcome]⟩
  | _ => exact ⟨by simp [outcome], by simp [outcome], by simp [outcome], by simp [outcome]⟩

/-- What is exchanged was called. -/
theorem called_before (h : (machine ω ρ E moved).Run State.initial es) :
    ∀ r op, (stateAfter moved es).resolver r = .calling op → .call r op ∈ es := by
  refine h.history (I := fun es s => ∀ r op, s.resolver r = .calling op → .call r op ∈ es) ?_ ?_
  · intro r op hr
    cases hr
  · intro es e _ he ih r op hr
    have hmoves := moves moved he r
    rw [show (next moved _ e).resolver r = .calling op from hr] at hmoves
    have hold := ih r op
    revert hmoves hold
    generalize ((machine ω ρ E moved).after State.initial es).resolver r = p
    intro hmoves hold
    cases hmoves with
    | call => exact List.mem_append_right es (List.mem_singleton_self _)
    | other => exact List.mem_append_left _ (hold rfl)

theorem Wins.called (h : (machine ω ρ E moved).Run State.initial es) (hw : Wins moved es r op) :
    .call r op ∈ es := by
  obtain ⟨fs, gs, rfl, -⟩ := hw
  obtain ⟨hrun, he⟩ := run_upto h
  exact List.mem_append_left _ (called_before hrun r op he)

/-- A call that has notified is behind its store. -/
def Past (r : ρ) (s : State ω ρ V E) : Prop :=
  ∃ op, s.resolver r = .notifying op ∨ s.resolver r = .returned op

theorem past_next (he : enabled s e) (h : Past r s) : Past r (next moved s e) := by
  have hmoves := moves moved he r
  obtain ⟨op, h⟩ := h
  rw [Past]
  revert hmoves h
  generalize s.resolver r = p, (next moved s e).resolver r = q
  intro hmoves h
  cases hmoves with
  | notify => exact ⟨_, Or.inr rfl⟩
  | other => exact ⟨op, h⟩
  | _ => rcases h with h | h <;> cases h

theorem past_notified {u : Option ω} (h : (machine ω ρ E moved).Run State.initial es)
    (hmem : .notify r op u ∈ es) : Past r (stateAfter moved es) := by
  obtain ⟨fs, gs, rfl⟩ := List.append_of_mem hmem
  have hrun := ((machine ω ρ E moved).run_append.mp h).2
  have hpast : Past r (next moved (stateAfter moved fs) (.notify r op u)) :=
    ⟨op, Or.inr (Function.update_self _ _ _)⟩
  rw [stateAfter, Machine.after_append]
  exact Machine.Reaches.stable (fun _ _ => past_next) ⟨gs, hrun.2, rfl⟩ hpast

/-- **The first `get` after the winning call has returned gives what the winner meant.** -/
theorem first_get {t : ω} {st : SharedState.State} {u : Option ω}
    (h : (machine ω ρ E moved).Run State.initial (es ++ [.waiter t (.examine st)]))
    (hun : Unexamined es) (hw : Wins moved es r op) (hret : .notify r op u ∈ es) :
    (stateAfter moved (es ++ [.waiter t (.examine st)])).waiter t = .done (outcome op) := by
  obtain ⟨hrun, hexamining⟩ := run_upto h
  have hstored : (stateAfter moved es).shared.state = op.announces ∧
      (stateAfter moved es).shared.data = op.stores.getD .monostate := by
    cases course hrun with
    | unresolved _ hnone => exact absurd hw (hnone r op)
    | storing r' op' hw' hr' =>
        obtain ⟨rfl, rfl⟩ := winner_unique hrun hw hw'
        obtain ⟨op', hpast⟩ := past_notified hrun hret
        rw [hr'] at hpast
        rcases hpast with hpast | hpast <;> cases hpast
    | stored r' op' hw' hstate _ hdata =>
        obtain ⟨rfl, rfl⟩ := winner_unique hrun hw hw'
        exact ⟨hstate, hdata hun⟩
  have hpc : (stateAfter moved es).waiter t = .examining st := hexamining.2
  have hseen : Future.SeenAt _ ((stateAfter moved es).waiter t) :=
    seen (Machine.Reachable.of_run rfl hrun) t
  rw [hpc] at hseen
  calc (stateAfter moved (es ++ [.waiter t (.examine st)])).waiter t
      = (next moved (stateAfter moved es) (.waiter t (.examine st))).waiter t := by
        rw [stateAfter, Machine.after_append]
        rfl
    _ = .done (SharedState.examine st (stateAfter moved es).shared.data) := next_waiter_self _ _ _ _
    _ = .done (SharedState.examine op.announces (op.stores.getD .monostate)) := by
        rw [hseen.1, hstored.2, show ((machine ω ρ E moved).after State.initial es).shared.state = _
          from hstored.1]
    _ = .done (outcome op) := by rw [examine_stores]

/-! ## The whole -/

/-- What a run makes of the calls on a shared state. -/
structure FirstWins (moved : V → V) (es : List (Event ω ρ V E)) : Prop where
  final : ∀ fs gs, es = fs ++ gs → (stateAfter moved fs).shared.state ≠ .init →
    (stateAfter moved es).shared.state = (stateAfter moved fs).shared.state
  resolved_by : (stateAfter moved es).shared.state ≠ .init →
    ∃ r op, Wins moved es r op ∧ (stateAfter moved es).shared.state = op.announces
  one_winner : ∀ r op r' op', Wins moved es r op → Wins moved es r' op' → r = r' ∧ op = op'
  stored_by : ∀ fs r op gs, es = fs ++ .store r op :: gs → Wins moved fs r op
  stored_once : ∀ fs r op gs fs' r' op' gs', es = fs ++ .store r op :: gs →
    es = fs' ++ .store r' op' :: gs' → fs = fs'
  others_idle : ∀ fs e gs r, es = fs ++ e :: gs → e.caller = some r →
    (∀ op, ¬ Wins moved es r op) →
    (next moved (stateAfter moved fs) e).shared = (stateAfter moved fs).shared
  first_get : (∀ r, .call r (.setValue none) ∉ es) →
    ∀ fs t st gs r op u, es = fs ++ .waiter t (.examine st) :: gs → Unexamined fs →
      Wins moved fs r op → .notify r op u ∈ fs →
      ∃ x, (stateAfter moved (fs ++ [.waiter t (.examine st)])).waiter t = .done x ∧ Gives op x

/-- **The first resolver wins, and the outcome is final.** -/
theorem first_wins (h : (machine ω ρ E moved).Run State.initial es) : FirstWins moved es where
  final fs gs hes hready := by
    subst hes
    have hrest := ((machine ω ρ E moved).run_append.mp h).2
    rw [stateAfter, Machine.after_append]
    exact state_final ⟨gs, hrest, rfl⟩ hready
  resolved_by hready := by
    cases course h with
    | unresolved hstate => exact absurd hstate hready
    | storing r op hwins hr =>
        exact ⟨r, op, hwins, ((phase (Machine.Reachable.of_run rfl h)).of_storing hr).1⟩
    | stored r op hwins hstate => exact ⟨r, op, hwins, hstate⟩
  one_winner r op r' op' hw hw' := winner_unique h hw hw'
  stored_by fs r op gs hes := by
    subst hes
    obtain ⟨hrun, he⟩ := run_upto h
    exact Waiters.stored_by hrun he
  stored_once fs r op gs fs' r' op' gs' hes hes' := by
    subst hes
    exact Waiters.stored_once h hes'
  others_idle fs e gs r hes hr hlost := by
    subst hes
    exact Waiters.others_idle h hr hlost
  first_get hvalue fs t st gs r op u hes hun hw hret := by
    subst hes
    have hsplit : fs ++ .waiter t (.examine st) :: gs =
        (fs ++ [.waiter t (.examine st)]) ++ gs := by simp
    have hrun := ((machine ω ρ E moved).run_append.mp (hsplit ▸ h)).1
    refine ⟨outcome op, Waiters.first_get hrun hun hw hret, gives_outcome ?_⟩
    rintro rfl
    exact hvalue r (List.mem_append_left _ (hw.called (run_upto h).1))

/-- A `cancel` and a `set_value` race, the value wins, and a `get` finds it. -/
def valueBeforeCancel : List (Event Unit Bool ℕ ℕ) :=
  [.call true .cancel, .call false (.setValue (some 7)), .exchange false (.setValue (some 7)),
   .exchange true .cancel, .store false (.setValue (some 7)),
   .notify false (.setValue (some 7)) none, .waiter () .enter, .waiter () .check,
   .waiter () .load, .waiter () (.examine .value), .waiter () (.ret (.ok (some 7)))]

theorem first_wins_valueBeforeCancel : FirstWins (id : ℕ → ℕ) valueBeforeCancel :=
  first_wins ⟨rfl, rfl, rfl, rfl, rfl, ⟨rfl, fun _ => rfl⟩, ⟨rfl, rfl⟩, ⟨rfl, rfl⟩, ⟨rfl, rfl⟩,
    ⟨rfl, rfl⟩, ⟨rfl, rfl⟩, trivial⟩

end Waiters

end Jar.Concurrency
