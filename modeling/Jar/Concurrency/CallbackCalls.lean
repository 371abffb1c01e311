/-
# `Jar.Concurrency.CallbackCalls` — a callback receiver fires once

Any number of callers call `complete`, `fail` and `cancel` on one callback
receiver.  A call is a compare-exchange of `m_state` and, for the call that found
`initial`, an invocation of its own handler; the steps of different calls fall in
any order.  A handler that calls the receiver again is one more caller.

    idle ──call──▸ entered ──exchange──▸ won ──invoke──▸ leaving ──ret──▸ idle
                       └────────────── exchange ─────────────▴

Between calls the receiver may be moved to a new object, which copies the state,
takes the handlers, and is called from then on.

`Course` says how a run can have gone: nothing exchanged yet, the winner about to
invoke, or its handler invoked.  From it: at most one invocation in any run, and
exactly the one of the first exchange when all calls have returned (`fires_once`).
Called by one caller at a time the receiver is `callbackReceiver` (`solo`).
-/
import Jar.Concurrency.CallbackReceiver
import Jar.Lib.Machine

namespace Jar.Concurrency

open Jar.Lib

namespace CallbackReceiver

/-- The state a call exchanges `initial` for. -/
def Handled.announces {E : Type} {b : Ret} : Handled E b → ReceiverState
  | .complete _ => .completed
  | .error _ => .failed
  | .cancel => .canceled

end CallbackReceiver

namespace CallbackCalls

open CallbackReceiver (ReceiverState Handled Handlers callbackReceiver)

/-! ## The object

The atomic state, and the handlers where they still are.  Moving the receiver takes
them out of it. -/

/-- `callback_receiver`; a handler that has been moved out, or invoked as an rvalue,
is not there any more. -/
structure Object (C F X : Type) where
  state : ReceiverState
  completeHandler : Option C
  errorHandler : Option F
  cancelHandler : Option X

/-- An invocation: the handler that was there to be invoked, and its argument. -/
inductive Invoked (C F X E : Type) (b : Ret) where
  | complete (handler : Option C) (v : b.Carrier)
  | error (handler : Option F) (e : E)
  | cancel (handler : Option X)

variable {A C F X E σ : Type} {b : Ret}

/-- The constructor. -/
def Object.construct (c : C) (f : F) (x : X) : Object C F X :=
  ⟨.initial, some c, some f, some x⟩

/-- The move constructor: the new object, and what it leaves of `other`. -/
def Object.move (other : Object C F X) : Object C F X × Object C F X :=
  (⟨other.state, other.completeHandler, other.errorHandler, other.cancelHandler⟩,
    ⟨other.state, none, none, none⟩)

/-- `std::invoke(std::move(handler), ...)` of the call's own handler. -/
def Object.invoke (o : Object C F X) : Handled E b → Invoked C F X E b × Object C F X
  | .complete v => (.complete o.completeHandler v, { o with completeHandler := none })
  | .error e => (.error o.errorHandler e, { o with errorHandler := none })
  | .cancel => (.cancel o.cancelHandler, { o with cancelHandler := none })

/-- The invocation that a call should lead to. -/
def Invoked.of (c : C) (f : F) (x : X) : Handled E b → Invoked C F X E b
  | .complete v => .complete (some c) v
  | .error e => .error (some f) e
  | .cancel => .cancel (some x)

/-- An invocation without the handler. -/
def Invoked.handled : Invoked C F X E b → Handled E b
  | .complete _ v => .complete v
  | .error _ e => .error e
  | .cancel _ => .cancel

/-! ## The callers -/

/-- Where a caller stands in its call. -/
inductive Pc (E : Type) (b : Ret) where
  | idle
  | entered (op : Handled E b)
  | won (op : Handled E b)
  | leaving (op : Handled E b)

/-- The receiver that is in use, the objects it was moved out of, the callers, and
the invocations so far. -/
structure State (A C F X E : Type) (b : Ret) where
  receiver : Object C F X
  movedFrom : List (Object C F X)
  pc : A → Pc E b
  invoked : List (Invoked C F X E b)

/-- A step of a caller, or a move of the receiver. -/
inductive Event (A E : Type) (b : Ret) where
  | call (t : A) (op : Handled E b)
  | exchange (t : A) (op : Handled E b)
  | invoke (t : A) (op : Handled E b)
  | ret (t : A) (op : Handled E b)
  | move

/-- A receiver that has just been constructed. -/
def State.initial (c : C) (f : F) (x : X) : State A C F X E b :=
  ⟨.construct c f x, [], fun _ => .idle, []⟩

/-- A step is its caller's next one; a move is made between calls. -/
def enabled (s : State A C F X E b) : Event A E b → Prop
  | .call t _ => s.pc t = .idle
  | .exchange t op => s.pc t = .entered op
  | .invoke t op => s.pc t = .won op
  | .ret t op => s.pc t = .leaving op
  | .move => ∀ t, s.pc t = .idle

variable [DecidableEq A]

def State.setPc (s : State A C F X E b) (t : A) (p : Pc E b) : State A C F X E b :=
  { s with pc := Function.update s.pc t p }

def next (s : State A C F X E b) : Event A E b → State A C F X E b
  | .call t op => s.setPc t (.entered op)
  | .exchange t op =>
      if s.receiver.state = .initial then
        { s with receiver := { s.receiver with state := op.announces } }.setPc t (.won op)
      else s.setPc t (.leaving op)
  | .invoke t op =>
      { s with receiver := (s.receiver.invoke op).2
               invoked := s.invoked ++ [(s.receiver.invoke op).1] }.setPc t (.leaving op)
  | .ret t _ => s.setPc t .idle
  | .move => { s with receiver := s.receiver.move.1
                      movedFrom := s.receiver.move.2 :: s.movedFrom }

variable (A C F X E b) in
def machine : Machine (State A C F X E b) (Event A E b) where
  Init s := ∃ c f x, s = .initial c f x
  Enabled := enabled
  next := next

/-- The calls in the order of their exchanges. -/
def exchanged (es : List (Event A E b)) : List (Handled E b) :=
  es.filterMap fun
    | .exchange _ op => some op
    | _ => none

/-- Somebody has called. -/
def Called (es : List (Event A E b)) : Prop := ∃ t op, Event.call t op ∈ es

variable {s : State A C F X E b} {e : Event A E b} {es : List (Event A E b)} {t u : A}
  {op op' : Handled E b} {p : Pc E b}

/-! ## What a step changes

The state changes at the first exchange only.  What is invoked is recorded at the
winner's step, which also takes the handler it invokes. -/

@[simp] theorem setPc_receiver : (s.setPc t p).receiver = s.receiver := rfl
@[simp] theorem setPc_self : (s.setPc t p).pc t = p := Function.update_self ..

theorem setPc_of_ne (h : u ≠ t) : (s.setPc t p).pc u = s.pc u := Function.update_of_ne h ..

theorem setPc_won (h : (s.setPc t p).pc u = .won op) :
    u = t ∧ p = .won op ∨ u ≠ t ∧ s.pc u = .won op := by
  rcases eq_or_ne u t with rfl | hne
  · rw [setPc_self] at h
    exact Or.inl ⟨rfl, h⟩
  · rw [setPc_of_ne hne] at h
    exact Or.inr ⟨hne, h⟩

theorem next_exchange_initial (h : s.receiver.state = .initial) :
    next s (.exchange t op) =
      { s with receiver := { s.receiver with state := op.announces } }.setPc t (.won op) :=
  if_pos h

theorem next_exchange_ne (h : s.receiver.state ≠ .initial) :
    next s (.exchange t op) = s.setPc t (.leaving op) :=
  if_neg h

omit [DecidableEq A] in
@[simp] theorem announces_ne_initial : op.announces ≠ .initial := by
  cases op <;> exact nofun

omit [DecidableEq A] in
/-- With all handlers in place the invocation is the one the call should lead to. -/
theorem invoke_fst {o : Object C F X} {c : C} {f : F} {x : X} {st : ReceiverState}
    (h : o = { Object.construct c f x with state := st }) :
    (o.invoke op).1 = Invoked.of c f x op := by
  subst h
  cases op <;> rfl

omit [DecidableEq A] in
theorem invoke_state (o : Object C F X) : (o.invoke op).2.state = o.state := by
  cases op <;> rfl

omit [DecidableEq A] in
theorem exchanged_snoc_exchange :
    exchanged (es ++ [.exchange t op]) = exchanged es ++ [op] := by
  simp [exchanged]

omit [DecidableEq A] in
theorem exchanged_snoc (h : ∀ t op, e ≠ .exchange t op) :
    exchanged (es ++ [e]) = exchanged es := by
  cases e with
  | exchange t op => exact absurd rfl (h t op)
  | _ => simp [exchanged]

/-! ## The course of a run

Nobody has exchanged yet, one caller has and is to invoke, or the handler has been
invoked.  From the first exchange on nobody else gets anywhere, and the state names
it. -/

/-- How a run has gone: nobody has exchanged, and a call that was made is about to;
the caller that exchanged first has still to invoke; its handler has been invoked. -/
inductive Course (c : C) (f : F) (x : X) (es : List (Event A E b)) (s : State A C F X E b) : Prop
  | untouched (hnone : exchanged es = []) (hfresh : s.receiver = .construct c f x)
      (hpc : ∀ t, s.pc t = .idle ∨ ∃ op, s.pc t = .entered op)
      (hcalled : Called es → ∃ t op, s.pc t = .entered op) (hinvoked : s.invoked = [])
  | winning (op : Handled E b) (t : A) (hfirst : (exchanged es).head? = some op)
      (hstate : s.receiver = { Object.construct c f x with state := op.announces })
      (ht : s.pc t = .won op) (honly : ∀ u op', s.pc u = .won op' → u = t)
      (hinvoked : s.invoked = [])
  | fired (op : Handled E b) (hfirst : (exchanged es).head? = some op)
      (hstate : s.receiver.state = op.announces) (hidle : ∀ u op', s.pc u ≠ .won op')
      (hinvoked : s.invoked = [Invoked.of c f x op])

omit [DecidableEq A] in
theorem first_append (h : (exchanged es).head? = some op) (later : List (Event A E b)) :
    (exchanged (es ++ later)).head? = some op := by
  rw [exchanged, List.filterMap_append, List.head?_append]
  rw [exchanged] at h
  rw [h]
  rfl

omit [DecidableEq A] in
theorem Called.of_snoc (h : Called (es ++ [e])) (he : ∀ t op, e ≠ .call t op) : Called es := by
  obtain ⟨t, op, hmem⟩ := h
  rcases List.mem_append.mp hmem with hold | hlast
  · exact ⟨t, op, hold⟩
  · exact absurd (List.mem_singleton.mp hlast).symm (he t op)

theorem won_of_setPc (hp : ∀ op, p ≠ .won op) (h : (s.setPc t p).pc u = .won op) :
    u ≠ t ∧ s.pc u = .won op := by
  rcases setPc_won h with ⟨-, hwon⟩ | hold
  · exact absurd hwon (hp op)
  · exact hold

section Steps

variable {c : C} {f : F} {x : X}

theorem Course.of_untouched (he : enabled s e) (hnone : exchanged es = [])
    (hfresh : s.receiver = .construct c f x)
    (hpc : ∀ t, s.pc t = .idle ∨ ∃ op, s.pc t = .entered op)
    (hcalled : Called es → ∃ t op, s.pc t = .entered op) (hinvoked : s.invoked = []) :
    Course c f x (es ++ [e]) (next s e) := by
  have hwon : ∀ u op', s.pc u ≠ .won op' := by
    intro u op' hu
    rcases hpc u with hidle | ⟨op, hentered⟩
    · rw [hu] at hidle; cases hidle
    · rw [hu] at hentered; cases hentered
  cases e with
  | call t op =>
      refine .untouched ?_ hfresh ?_ (fun _ => ⟨t, op, setPc_self⟩) hinvoked
      · rw [exchanged_snoc (by intro _ _ h; cases h)]
        exact hnone
      · intro u
        rcases eq_or_ne u t with rfl | hne
        · exact Or.inr ⟨op, setPc_self⟩
        · rw [next, setPc_of_ne hne]
          exact hpc u
  | exchange t op =>
      have hinitial : s.receiver.state = .initial := by rw [hfresh]; rfl
      rw [next_exchange_initial hinitial]
      refine .winning op t ?_ ?_ setPc_self (fun u op' hu => ?_) hinvoked
      · rw [exchanged_snoc_exchange, hnone]
        rfl
      · rw [setPc_receiver, hfresh]
      · rcases setPc_won hu with ⟨rfl, -⟩ | ⟨-, hold⟩
        · rfl
        · exact absurd hold (hwon u op')
  | invoke t op => exact absurd he (hwon t op)
  | ret t op =>
      have hleaving : s.pc t = .leaving op := he
      rcases hpc t with hidle | ⟨op', hentered⟩
      · rw [hidle] at hleaving; cases hleaving
      · rw [hentered] at hleaving; cases hleaving
  | move =>
      refine .untouched ?_ hfresh hpc (fun h => hcalled ?_) hinvoked
      · rw [exchanged_snoc (by intro _ _ h; cases h)]
        exact hnone
      · exact h.of_snoc (by intro _ _ h; cases h)

theorem Course.of_winning (he : enabled s e) (hfirst : (exchanged es).head? = some op)
    (hstate : s.receiver = { Object.construct c f x with state := op.announces })
    (ht : s.pc t = .won op) (honly : ∀ u op', s.pc u = .won op' → u = t)
    (hinvoked : s.invoked = []) : Course c f x (es ++ [e]) (next s e) := by
  have hne : s.receiver.state ≠ .initial := by
    rw [hstate]
    exact announces_ne_initial
  -- a step of somebody else, to anywhere but `won`
  have hother : ∀ {u : A} {p : Pc E b}, s.pc u ≠ .won op → (∀ op', p ≠ .won op') →
      Course c f x (es ++ [e]) (s.setPc u p) := by
    intro u p hu hp
    have htu : t ≠ u := by rintro rfl; exact hu ht
    refine .winning op t (first_append hfirst _) hstate ?_ (fun v op' hv => ?_) hinvoked
    · rw [setPc_of_ne htu]
      exact ht
    · exact honly v op' (won_of_setPc hp hv).2
  cases e with
  | call u op' =>
      have hidle : s.pc u = .idle := he
      exact hother (by rw [hidle]; exact nofun) nofun
  | exchange u op' =>
      have hentered : s.pc u = .entered op' := he
      rw [next_exchange_ne hne]
      exact hother (by rw [hentered]; exact nofun) nofun
  | invoke u op' =>
      have hu : s.pc u = .won op' := he
      obtain rfl : u = t := honly u op' hu
      obtain rfl : op = op' := by
        rw [ht] at hu
        cases hu
        rfl
      refine .fired op (first_append hfirst _) ?_ (fun v op' hv => ?_) ?_
      · show (s.receiver.invoke op).2.state = _
        rw [invoke_state, hstate]
      · obtain ⟨hvu, hv⟩ := won_of_setPc (p := .leaving op) nofun hv
        exact hvu (honly v op' hv)
      · show s.invoked ++ [(s.receiver.invoke op).1] = _
        rw [hinvoked, invoke_fst hstate]
        rfl
  | ret u op' =>
      have hleaving : s.pc u = .leaving op' := he
      exact hother (by rw [hleaving]; exact nofun) nofun
  | move =>
      have hidle : s.pc t = .idle := he t
      rw [ht] at hidle
      cases hidle

theorem Course.of_fired (he : enabled s e) (hfirst : (exchanged es).head? = some op)
    (hstate : s.receiver.state = op.announces) (hidle : ∀ u op', s.pc u ≠ .won op')
    (hinvoked : s.invoked = [Invoked.of c f x op]) : Course c f x (es ++ [e]) (next s e) := by
  have hne : s.receiver.state ≠ .initial := by
    rw [hstate]
    exact announces_ne_initial
  have hstep : ∀ {u : A} {p : Pc E b}, (∀ op', p ≠ .won op') →
      Course c f x (es ++ [e]) (s.setPc u p) := by
    intro u p hp
    refine .fired op (first_append hfirst _) hstate (fun v op' hv => ?_) hinvoked
    exact hidle v op' (won_of_setPc hp hv).2
  cases e with
  | call u op' => exact hstep nofun
  | exchange u op' =>
      rw [next_exchange_ne hne]
      exact hstep nofun
  | invoke u op' => exact absurd he (hidle u op')
  | ret u op' => exact hstep nofun
  | move => exact .fired op (first_append hfirst _) hstate hidle hinvoked

theorem Course.next (h : Course c f x es s) (he : enabled s e) :
    Course c f x (es ++ [e]) (next s e) := by
  cases h with
  | untouched hnone hfresh hpc hcalled hinvoked =>
      exact .of_untouched he hnone hfresh hpc hcalled hinvoked
  | winning op t hfirst hstate ht honly hinvoked =>
      exact .of_winning he hfirst hstate ht honly hinvoked
  | fired op hfirst hstate hidle hinvoked =>
      exact .of_fired he hfirst hstate hidle hinvoked

theorem course (h : (machine A C F X E b).Run (.initial c f x) es) :
    Course c f x es ((machine A C F X E b).after (.initial c f x) es) := by
  refine Machine.Run.history (I := Course c f x) ?_ (fun fs e _ he hfs => hfs.next he) h
  refine .untouched rfl rfl (fun t => Or.inl rfl) (fun hcalled => ?_) rfl
  obtain ⟨t, op, hmem⟩ := hcalled
  cases hmem

omit [DecidableEq A] in
theorem Course.invoked_le (h : Course c f x es s) : s.invoked.length ≤ 1 := by
  cases h with
  | untouched _ _ _ _ hinvoked => simp [hinvoked]
  | winning _ _ _ _ _ _ hinvoked => simp [hinvoked]
  | fired _ _ _ _ hinvoked => simp [hinvoked]

omit [DecidableEq A] in
theorem Course.invoked_of_idle (h : Course c f x es s) (hcalled : Called es)
    (hall : ∀ t, s.pc t = .idle) :
    ∃ op, (exchanged es).head? = some op ∧ s.invoked = [Invoked.of c f x op] := by
  cases h with
  | untouched _ _ _ hentered _ =>
      obtain ⟨t, op, ht⟩ := hentered hcalled
      rw [hall t] at ht
      cases ht
  | winning op t _ _ ht _ _ =>
      rw [hall t] at ht
      cases ht
  | fired op hfirst _ _ hinvoked => exact ⟨op, hfirst, hinvoked⟩

omit [DecidableEq A] in
theorem Course.state_of_first (h : Course c f x es s) (hfirst : (exchanged es).head? = some op) :
    s.receiver.state = op.announces := by
  cases h with
  | untouched hnone _ _ _ _ =>
      rw [hnone] at hfirst
      cases hfirst
  | winning op' _ hfirst' hstate _ _ _ =>
      rw [hfirst'] at hfirst
      cases hfirst
      rw [hstate]
  | fired op' hfirst' hstate _ _ =>
      rw [hfirst'] at hfirst
      cases hfirst
      exact hstate

/-- **A callback receiver fires once**: in every run at most one handler is invoked; when
somebody has called and all calls are over, exactly one is, the handler of the call that exchanged
first, with that call's argument; and from the first exchange on the receiver's state
names that call. -/
theorem fires_once (c : C) (f : F) (x : X) (es : List (Event A E b))
    (h : (machine A C F X E b).Run (.initial c f x) es) :
    ((machine A C F X E b).after (.initial c f x) es).invoked.length ≤ 1 ∧
      (Called es → (∀ t, ((machine A C F X E b).after (.initial c f x) es).pc t = .idle) →
        ∃ op, (exchanged es).head? = some op ∧
          ((machine A C F X E b).after (.initial c f x) es).invoked = [Invoked.of c f x op]) ∧
      ∀ op, (exchanged es).head? = some op → ∀ later,
        (machine A C F X E b).Run ((machine A C F X E b).after (.initial c f x) es) later →
        ((machine A C F X E b).after (.initial c f x) (es ++ later)).receiver.state =
          op.announces := by
  refine ⟨(course h).invoked_le, (course h).invoked_of_idle, fun op hfirst later hlater => ?_⟩
  have hrun : (machine A C F X E b).Run (.initial c f x) (es ++ later) :=
    Machine.run_append _ |>.mpr ⟨h, hlater⟩
  exact (course hrun).state_of_first (first_append hfirst later)

end Steps

/-- Two callers race on a receiver: `complete` exchanges first, and the receiver is moved
when both calls are over. -/
def race : List (Event Bool String (.value ℕ)) :=
  [.call true .cancel, .call false (.complete 7), .exchange false (.complete 7),
    .exchange true .cancel, .invoke false (.complete 7), .ret true .cancel,
    .ret false (.complete 7), .move]

theorem fires_once_race :
    (∃ op, (exchanged race).head? = some op ∧
      ((machine Bool ℕ ℕ ℕ String (.value ℕ)).after (.initial 1 2 3) race).invoked =
        [Invoked.of 1 2 3 op]) ∧
      ((machine Bool ℕ ℕ ℕ String (.value ℕ)).after (.initial 1 2 3) race).receiver.state =
        .completed := by
  have hidle : ∀ t, ((machine Bool ℕ ℕ ℕ String (.value ℕ)).after (.initial 1 2 3) race).pc t =
      .idle := by
    intro t
    cases t <;> rfl
  obtain ⟨-, hfired, hnamed⟩ := fires_once 1 2 3 race
    ⟨rfl, rfl, rfl, rfl, rfl, rfl, rfl, fun t => by cases t <;> rfl, trivial⟩
  exact ⟨hfired ⟨true, .cancel, List.mem_cons_self ..⟩ hidle, hnamed _ rfl [] trivial⟩

/-! ## One caller at a time -/

/-- The receiver as the sequential function sees it. -/
def State.view (s : State A C F X E b) : CallbackReceiver.State E b :=
  ⟨s.receiver.state, s.invoked.map Invoked.handled⟩

/-- A call of the sequential receiver. -/
def signalled (h : Handlers σ E b) (op : Handled E b)
    (w : World σ E (CallbackReceiver.State E b)) : World σ E (CallbackReceiver.State E b) :=
  match op with
  | .complete v => ((callbackReceiver h).complete v w).2
  | .error e => (callbackReceiver h).fail e w
  | .cancel => (callbackReceiver h).cancel w

/-- The steps of a call that nobody gets in the way of. -/
def solo (s : State A C F X E b) (t : A) (op : Handled E b) : List (Event A E b) :=
  if s.receiver.state = .initial then
    [.call t op, .exchange t op, .invoke t op, .ret t op]
  else [.call t op, .exchange t op, .ret t op]

omit [DecidableEq A] in
theorem invoke_handled (o : Object C F X) (op : Handled E b) :
    (o.invoke op).1.handled = op := by
  cases op <;> rfl

omit [DecidableEq A] in
theorem signalled_receiver (h : Handlers σ E b) (op : Handled E b)
    (w : World σ E (CallbackReceiver.State E b)) :
    (signalled h op w).receiver =
      if w.receiver.state = .initial then ⟨op.announces, w.receiver.handled ++ [op]⟩
      else w.receiver := by
  rcases eq_or_ne w.receiver.state .initial with hinitial | hne
  · cases op <;> simp [signalled, callbackReceiver, hinitial, Handled.announces]
  · cases op <;> simp [signalled, callbackReceiver, hne]

/-- A call that nobody gets in the way of is a call of `callbackReceiver`. -/
theorem solo_call (h : Handlers σ E b) (w : World σ E (CallbackReceiver.State E b))
    (hw : w.receiver = s.view) (ht : s.pc t = .idle) (op : Handled E b) :
    (machine A C F X E b).Run s (solo s t op) ∧
      ((machine A C F X E b).after s (solo s t op)).view = (signalled h op w).receiver := by
  rw [signalled_receiver, hw]
  rcases eq_or_ne s.receiver.state .initial with hinitial | hne
  · have hexchange : next (next s (.call t op)) (.exchange t op) = _ :=
      next_exchange_initial hinitial
    rw [solo, if_pos hinitial, if_pos (show s.view.state = .initial from hinitial)]
    refine ⟨⟨ht, setPc_self, ?_, ?_, trivial⟩, ?_⟩
    · show (next (next s (.call t op)) (.exchange t op)).pc t = .won op
      rw [hexchange, setPc_self]
    · exact setPc_self
    · show (next (next (next (next s (.call t op)) (.exchange t op)) (.invoke t op))
        (.ret t op)).view = _
      rw [hexchange]
      simp [next, State.view, State.setPc, invoke_state, invoke_handled]
  · have hexchange : next (next s (.call t op)) (.exchange t op) = _ := next_exchange_ne hne
    rw [solo, if_neg hne, if_neg (show s.view.state ≠ .initial from hne)]
    refine ⟨⟨ht, setPc_self, ?_, trivial⟩, ?_⟩
    · show (next (next s (.call t op)) (.exchange t op)).pc t = .leaving op
      rw [hexchange, setPc_self]
    · show (next (next (next s (.call t op)) (.exchange t op)) (.ret t op)).view = _
      rw [hexchange]
      rfl

end CallbackCalls

end Jar.Concurrency
