/-
# `Jar.Lib.Bag` — a bag of items that threads share

Callers give items, threads take them, and somebody may close the bag.  Each call takes
effect at one moment between its beginning and its return:

    give x ── put x ── gave x          take i ── pick i x ─┬─ took i task
                                               └ nothing i ┘
    close k ── discard k xs … ── closed k

Nobody promises an order, and a thread that takes may wait as long as it likes; but what
it takes has been put, it comes away empty only from a bag that is being closed, and only
a call that closes the bag throws items away.  An item is named by the call that gives
it, so `take_once` can say that it is taken once.
-/
import Jar.Lib.Simulation
import Mathlib.Data.Multiset.AddSub

namespace Jar.Lib.Bag

/-! ## The bag

Givers hand items in, takers take them out, closers throw away what there is.  What
the users notice of it are the calls and the returns; putting and picking happen in
between and are not seen. -/

inductive Giver where
  | idle
  | giving
  | given
  | done
  deriving DecidableEq, Repr

inductive Taker (τ : Type*) where
  | idle
  | taking
  | took (task : Option τ)
  deriving DecidableEq, Repr

inductive Closer where
  | idle
  | closing
  | closed
  deriving DecidableEq, Repr

structure State (ι τ κ : Type*) where
  content : Multiset τ
  giver : τ → Giver
  taker : ι → Taker τ
  closer : κ → Closer

inductive Event (ι τ κ : Type*) where
  | give (x : τ)
  | put (x : τ)
  | gave (x : τ)
  | take (i : ι)
  | pick (i : ι) (x : τ)
  | nothing (i : ι)
  | took (i : ι) (task : Option τ)
  | close (k : κ)
  | discard (k : κ) (xs : Multiset τ)
  | closed (k : κ)

/-- The calls and their returns. -/
inductive Label (ι τ κ : Type*) where
  | give (x : τ)
  | gave (x : τ)
  | take (i : ι)
  | took (i : ι) (task : Option τ)
  | close (k : κ)
  | closed (k : κ)
  deriving DecidableEq, Repr

variable {ι τ κ : Type*}

def Event.label : Event ι τ κ → Option (Label ι τ κ)
  | .give x => some (.give x)
  | .gave x => some (.gave x)
  | .take i => some (.take i)
  | .took i task => some (.took i task)
  | .close k => some (.close k)
  | .closed k => some (.closed k)
  | .put _ | .pick _ _ | .nothing _ | .discard _ _ => none

def enabled (s : State ι τ κ) : Event ι τ κ → Prop
  | .give x => s.giver x = .idle
  | .put x => s.giver x = .giving
  | .gave x => s.giver x = .given
  | .take i => s.taker i = .idle
  | .pick i x => s.taker i = .taking ∧ x ∈ s.content
  | .nothing i => s.taker i = .taking ∧ ∃ k, s.closer k ≠ .idle
  | .took i task => s.taker i = .took task
  | .close k => s.closer k = .idle
  | .discard k xs => s.closer k = .closing ∧ xs ≤ s.content
  | .closed k => s.closer k = .closing

variable [DecidableEq ι] [DecidableEq τ] [DecidableEq κ]

def next (s : State ι τ κ) : Event ι τ κ → State ι τ κ
  | .give x => { s with giver := Function.update s.giver x .giving }
  | .put x => { s with content := x ::ₘ s.content, giver := Function.update s.giver x .given }
  | .gave x => { s with giver := Function.update s.giver x .done }
  | .take i => { s with taker := Function.update s.taker i .taking }
  | .pick i x =>
      { s with content := s.content.erase x, taker := Function.update s.taker i (.took (some x)) }
  | .nothing i => { s with taker := Function.update s.taker i (.took none) }
  | .took i _ => { s with taker := Function.update s.taker i .idle }
  | .close k => { s with closer := Function.update s.closer k .closing }
  | .discard _ xs => { s with content := s.content - xs }
  | .closed k => { s with closer := Function.update s.closer k .closed }

/-- The empty bag, and nobody near it. -/
def State.initial : State ι τ κ := ⟨0, fun _ => .idle, fun _ => .idle, fun _ => .idle⟩

def machine (ι τ κ : Type*) [DecidableEq ι] [DecidableEq τ] [DecidableEq κ] :
    Machine (State ι τ κ) (Event ι τ κ) where
  Init s := s = State.initial
  Enabled := enabled
  next := next

variable {s : State ι τ κ} {ls : List (Label ι τ κ)} {x : τ}

/-! ## An item is taken once

From the moment its giver has called, an item is on its way, lies in the bag, is
carried by one taker, or is gone.  A step moves it forward or leaves it where it is,
and only a return that hands it out is counted. -/

/-- The return that hands item `x` out. -/
def Label.hands (x : τ) : Label ι τ κ → Bool
  | .took _ (some y) => decide (y = x)
  | _ => false

/-- The item has been given. -/
def Giver.Gave (g : Giver) : Prop := g = .given ∨ g = .done

/-- Nobody carries item `x`. -/
def Uncarried (s : State ι τ κ) (x : τ) : Prop := ∀ i, s.taker i ≠ .took (some x)

/-- Where item `x` is, after the calls and returns `ls`: with its giver, in the bag, with one
taker, or out of it all. -/
inductive Place (ls : List (Label ι τ κ)) (s : State ι τ κ) (x : τ) : Prop
  | ungiven (hgiver : s.giver x = .idle ∨ s.giver x = .giving) (hcontent : s.content.count x = 0)
      (htaker : Uncarried s x) (hhanded : ls.countP (Label.hands x) = 0)
  | inside (hgiver : (s.giver x).Gave) (hcontent : s.content.count x = 1)
      (htaker : Uncarried s x) (hhanded : ls.countP (Label.hands x) = 0)
  | carried (i : ι) (hgiver : (s.giver x).Gave) (hcontent : s.content.count x = 0)
      (htaker : ∀ j, s.taker j = .took (some x) ↔ j = i)
      (hhanded : ls.countP (Label.hands x) = 0)
  | out (hgiver : (s.giver x).Gave) (hcontent : s.content.count x = 0)
      (htaker : Uncarried s x) (hhanded : ls.countP (Label.hands x) ≤ 1)

variable {s' : State ι τ κ} {ls' : List (Label ι τ κ)}

omit [DecidableEq ι] [DecidableEq κ] in
theorem Place.keep (h : Place ls s x) (hgiver : s'.giver x = s.giver x)
    (hcontent : s'.content.count x = s.content.count x)
    (htaker : ∀ i, s'.taker i = .took (some x) ↔ s.taker i = .took (some x))
    (hhanded : ls'.countP (Label.hands x) = ls.countP (Label.hands x)) : Place ls' s' x := by
  have hfree : Uncarried s x → Uncarried s' x := fun hs i hi => hs i ((htaker i).mp hi)
  cases h with
  | ungiven hg hc ht hh =>
      exact .ungiven (hgiver ▸ hg) (hcontent.trans hc) (hfree ht) (hhanded.trans hh)
  | inside hg hc ht hh =>
      exact .inside (hgiver ▸ hg) (hcontent.trans hc) (hfree ht) (hhanded.trans hh)
  | carried i hg hc ht hh =>
      exact .carried i (hgiver ▸ hg) (hcontent.trans hc) (fun j => (htaker j).trans (ht j))
        (hhanded.trans hh)
  | out hg hc ht hh =>
      exact .out (hgiver ▸ hg) (hcontent.trans hc) (hfree ht) (hhanded.trans_le hh)

omit [DecidableEq ι] [DecidableEq κ] in
theorem countP_label {l : Label ι τ κ} (h : Label.hands x l = false) :
    (ls ++ [l]).countP (Label.hands x) = ls.countP (Label.hands x) := by
  rw [List.countP_append, List.countP_singleton, h]
  rfl

omit [DecidableEq τ] [DecidableEq κ] in
theorem taker_update {i : ι} {p : Taker τ} (hold : s.taker i ≠ .took (some x))
    (hnew : p ≠ .took (some x)) (j : ι) :
    Function.update s.taker i p j = .took (some x) ↔ s.taker j = .took (some x) := by
  rcases eq_or_ne j i with rfl | hne
  · rw [Function.update_self]
    exact iff_of_false hnew hold
  · rw [Function.update_of_ne hne]

theorem Place.put (h : Place ls s x) (he : enabled s (.put x)) : Place ls (next s (.put x)) x := by
  have hgiver : s.giver x = .giving := he
  have hafter : (next s (.put x)).giver x = .given := Function.update_self _ _ _
  cases h with
  | ungiven hg hc ht hh =>
      refine .inside (Or.inl hafter) ?_ ht hh
      show (x ::ₘ s.content).count x = 1
      rw [Multiset.count_cons_self, hc]
  | inside hg | out hg | carried _ hg =>
      rcases hg with hg | hg <;> rw [hgiver] at hg <;> cases hg

theorem Place.pick (h : Place ls s x) {i : ι} (he : enabled s (.pick i x)) :
    Place ls (next s (.pick i x)) x := by
  have hpos : 0 < s.content.count x := Multiset.count_pos.mpr he.2
  cases h with
  | inside hg hc ht hh =>
      refine .carried i hg ?_ (fun j => ?_) hh
      · show (s.content.erase x).count x = 0
        rw [Multiset.count_erase_self, hc]
      · show Function.update s.taker i (.took (some x)) j = .took (some x) ↔ j = i
        rcases eq_or_ne j i with rfl | hne
        · simp
        · rw [Function.update_of_ne hne]
          exact iff_of_false (ht j) hne
  | ungiven _ hc | carried _ _ hc | out _ hc =>
      rw [hc] at hpos
      exact absurd hpos (Nat.lt_irrefl 0)

theorem Place.took (h : Place ls s x) {i : ι} (he : enabled s (.took i (some x))) :
    Place (ls ++ [.took i (some x)]) (next s (.took i (some x))) x := by
  have hi : s.taker i = .took (some x) := he
  cases h with
  | carried k hg hc ht hh =>
      obtain rfl := (ht i).mp hi
      refine .out hg hc (fun j hj => ?_) ?_
      · change Function.update s.taker i .idle j = .took (some x) at hj
        rcases eq_or_ne j i with rfl | hne
        · rw [Function.update_self] at hj
          cases hj
        · rw [Function.update_of_ne hne] at hj
          exact hne ((ht j).mp hj)
      · rw [List.countP_append, hh]
        exact (Nat.zero_add _).trans_le (List.countP_le_length)
  | ungiven _ _ ht | inside _ _ ht | out _ _ ht => exact absurd hi (ht i)

theorem Place.discard (h : Place ls s x) {k : κ} {xs : Multiset τ} :
    Place ls (next s (.discard k xs)) x := by
  have hcount : (next s (.discard k xs)).content.count x = s.content.count x - xs.count x :=
    Multiset.count_sub x s.content xs
  cases h with
  | ungiven hg hc ht hh => exact .ungiven hg (by rw [hcount, hc, Nat.zero_sub]) ht hh
  | carried i hg hc ht hh => exact .carried i hg (by rw [hcount, hc, Nat.zero_sub]) ht hh
  | out hg hc ht hh => exact .out hg (by rw [hcount, hc, Nat.zero_sub]) ht hh
  | inside hg hc ht hh =>
      rw [hc] at hcount
      rcases Nat.eq_zero_or_pos (xs.count x) with hzero | hpos
      · exact .inside hg (by rw [hcount, hzero]) ht hh
      · exact .out hg (by omega) ht (by omega)

/-- **A step moves an item forward**, or leaves it where it is. -/
theorem Place.next (h : Place ls s x) {e : Event ι τ κ} (he : enabled s e) :
    Place (ls ++ e.label.toList) (next s e) x := by
  cases e with
  | give y =>
      rcases eq_or_ne x y with rfl | hne
      · have hgiver : s.giver x = .idle := he
        cases h with
        | ungiven hg hc ht hh =>
            exact .ungiven (Or.inr (Function.update_self _ _ _)) hc ht ((countP_label rfl).trans hh)
        | inside hg | out hg | carried _ hg =>
            rcases hg with hg | hg <;> rw [hgiver] at hg <;> cases hg
      · exact h.keep (Function.update_of_ne hne _ _) rfl (fun _ => Iff.rfl) (countP_label rfl)
  | put y =>
      rw [show (Event.put y : Event ι τ κ).label.toList = [] from rfl, List.append_nil]
      rcases eq_or_ne x y with rfl | hne
      · exact h.put he
      · exact h.keep (Function.update_of_ne hne _ _) (Multiset.count_cons_of_ne hne _)
          (fun _ => Iff.rfl) rfl
  | gave y =>
      rcases eq_or_ne x y with rfl | hne
      · have hgiver : s.giver x = .given := he
        have hafter : ((Bag.next s (.gave x)).giver x).Gave := Or.inr (Function.update_self _ _ _)
        cases h with
        | ungiven hg => rcases hg with hg | hg <;> rw [hgiver] at hg <;> cases hg
        | inside hg hc ht hh => exact .inside hafter hc ht ((countP_label rfl).trans hh)
        | carried i hg hc ht hh => exact .carried i hafter hc ht ((countP_label rfl).trans hh)
        | out hg hc ht hh => exact .out hafter hc ht ((countP_label rfl).trans_le hh)
      · exact h.keep (Function.update_of_ne hne _ _) rfl (fun _ => Iff.rfl) (countP_label rfl)
  | take i =>
      have hi : s.taker i = .idle := he
      exact h.keep rfl rfl (taker_update (by rw [hi]; nofun) nofun) (countP_label rfl)
  | pick i y =>
      rw [show (Event.pick i y : Event ι τ κ).label.toList = [] from rfl, List.append_nil]
      rcases eq_or_ne x y with rfl | hne
      · exact h.pick he
      · refine h.keep rfl (Multiset.count_erase_of_ne hne _)
          (taker_update (by rw [he.1]; nofun) ?_) rfl
        rintro ⟨⟩
        exact hne rfl
  | nothing i =>
      rw [show (Event.nothing i : Event ι τ κ).label.toList = [] from rfl, List.append_nil]
      exact h.keep rfl rfl (taker_update (by rw [he.1]; nofun) nofun) rfl
  | took i task =>
      by_cases htask : task = some x
      · subst htask
        exact h.took he
      · have hi : s.taker i = .took task := he
        refine h.keep rfl rfl (taker_update ?_ nofun) (countP_label ?_)
        · rw [hi]
          rintro ⟨⟩
          exact htask rfl
        · cases task with
          | none => rfl
          | some y => exact decide_eq_false fun hxy => htask (congrArg some hxy)
  | close k | closed k => exact h.keep rfl rfl (fun _ => Iff.rfl) (countP_label rfl)
  | discard k xs =>
      rw [show (Event.discard k xs : Event ι τ κ).label.toList = [] from rfl, List.append_nil]
      exact h.discard

theorem called_next (h : s.giver x ≠ .idle → .give x ∈ ls) {e : Event ι τ κ} (he : enabled s e)
    (hx : (next s e).giver x ≠ .idle) : .give x ∈ ls ++ e.label.toList := by
  by_cases hidle : s.giver x = .idle
  case neg => exact List.mem_append_left _ (h hidle)
  have hother : ∀ {y : τ} {g : Giver}, s.giver y ≠ .idle →
      Function.update s.giver y g x = .idle := by
    rintro y g hy
    have hne : x ≠ y := by
      rintro rfl
      exact hy hidle
    rw [Function.update_of_ne hne, hidle]
  cases e with
  | give y =>
      rcases eq_or_ne x y with rfl | hne
      · exact List.mem_append_right _ (List.mem_singleton.mpr rfl)
      · change Function.update s.giver y .giving x ≠ .idle at hx
        rw [Function.update_of_ne hne] at hx
        exact absurd hidle hx
  | put y =>
      have hy : s.giver y = .giving := he
      exact absurd (hother (by rw [hy]; nofun)) hx
  | gave y =>
      have hy : s.giver y = .given := he
      exact absurd (hother (by rw [hy]; nofun)) hx
  | _ => exact absurd hidle hx

/-- Where an item is after a run, and that its giver has called. -/
theorem placed {es : List (Event ι τ κ)} (h : (machine ι τ κ).Run State.initial es) (x : τ) :
    Place (Machine.observed Event.label es) ((machine ι τ κ).after State.initial es) x ∧
      (((machine ι τ κ).after State.initial es).giver x ≠ .idle →
        .give x ∈ Machine.observed Event.label es) := by
  have hsnoc : ∀ (es : List (Event ι τ κ)) (e : Event ι τ κ),
      Machine.observed Event.label (es ++ [e]) =
        Machine.observed Event.label es ++ e.label.toList := by
    intro es e
    rw [Machine.observed_append, Machine.observed_cons]
    exact congrArg _ (List.append_nil _)
  refine h.history (I := fun es s => Place (Machine.observed Event.label es) s x ∧
    (s.giver x ≠ .idle → .give x ∈ Machine.observed Event.label es)) ?_ ?_
  · exact ⟨.ungiven (Or.inl rfl) (Multiset.count_zero x) nofun rfl, fun hx => absurd rfl hx⟩
  · rintro es e - he ⟨hplace, hcalled⟩
    rw [hsnoc]
    exact ⟨hplace.next he, called_next hcalled he⟩

/-- **An item is taken once, and only when it has been given.** -/
theorem take_once {es : List (Event ι τ κ)} (h : (machine ι τ κ).Run State.initial es) (x : τ) :
    (Machine.observed Event.label es).countP (Label.hands x) ≤ 1 ∧
      (0 < (Machine.observed Event.label es).countP (Label.hands x) →
        .give x ∈ Machine.observed Event.label es) := by
  obtain ⟨hplace, hcalled⟩ := placed h x
  cases hplace with
  | ungiven _ _ _ hh | inside _ _ _ hh | carried _ _ _ _ hh => omega
  | out hg _ _ hh =>
      refine ⟨hh, fun _ => hcalled ?_⟩
      rcases hg with hg | hg <;> rw [hg] <;> nofun

end Jar.Lib.Bag
