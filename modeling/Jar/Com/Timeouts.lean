/-
# `Jar.Com.Timeouts` — the encoding of a timeout

`set_timeout` and its two halves cast a duration of any type to microseconds, and put
those into the `tv_usec` of a `timeval` whose `tv_sec` is zero.  The kernel takes at
most 999999 there, and reads a `timeval` of zero as no timeout.

So a timeout is encoded faithfully when it is a microsecond at least, and less than a
second: `encodes_iff`.  The cast multiplies before it divides, and for some periods the
product overflows although the quotient is small; that is the third condition.
-/
import Jar.Core.Contract
import Jar.Lib.IntegerType
import Mathlib.Algebra.Order.Field.Basic
import Mathlib.Data.Nat.Cast.Field
import Mathlib.Data.Rat.Cast.Order
import Mathlib.Tactic.NormNum

namespace Jar.Com

open Jar.Lib

/-! ## Durations

A count of some integer type, in periods.  The cast to microseconds is the one of the
standard library: it multiplies by one factor and divides by another, in the common
type of the two representations and `std::intmax_t`. -/

/-- `std::int64_t`, which is `std::intmax_t`, `suseconds_t` and the representation of
`std::chrono::microseconds` as well. -/
def int64 : IntegerType := ⟨true, 64⟩

/-- A `std::ratio` of seconds, such that its ratio to a microsecond is one as well. -/
structure Period where
  num : ℕ
  den : ℕ
  num_pos : 0 < num
  den_pos : 0 < den
  num_fits : num * 1000000 / Nat.gcd (num * 1000000) den ≤ 2 ^ 63 - 1
  den_fits : den ≤ 2 ^ 63 - 1

namespace Period

/-- `std::ratio_divide<Period, std::micro>`. -/
def factorNum (p : Period) : ℕ := p.num * 1000000 / Nat.gcd (p.num * 1000000) p.den

def factorDen (p : Period) : ℕ := p.den / Nat.gcd (p.num * 1000000) p.den

theorem gcd_pos (p : Period) : 0 < Nat.gcd (p.num * 1000000) p.den :=
  Nat.gcd_pos_of_pos_right _ p.den_pos

theorem factorDen_pos (p : Period) : 0 < p.factorDen :=
  Nat.div_pos (Nat.le_of_dvd p.den_pos (Nat.gcd_dvd_right _ _)) p.gcd_pos

theorem factorDen_lt (p : Period) : p.factorDen < 2 ^ 64 := by
  have hle : p.factorDen ≤ p.den := Nat.div_le_self _ _
  have hfits := p.den_fits
  omega

/-- The factor is the number of microseconds of the period. -/
theorem factor_eq (p : Period) :
    (p.factorNum : ℚ) / p.factorDen = p.num * 1000000 / p.den := by
  have hgcd : ((Nat.gcd (p.num * 1000000) p.den : ℕ) : ℚ) ≠ 0 := by
    exact_mod_cast p.gcd_pos.ne'
  rw [factorNum, factorDen, Nat.cast_div (Nat.gcd_dvd_left _ _) hgcd,
    Nat.cast_div (Nat.gcd_dvd_right _ _) hgcd, div_div_div_cancel_right₀ hgcd, Nat.cast_mul]
  norm_num

end Period

/-- `std::chrono::duration` over an integral representation. -/
structure Duration where
  rep : IntegerType
  period : Period
  count : ℤ
  holds : rep.Holds count

namespace Duration

/-- The duration itself, in microseconds. -/
def microseconds (d : Duration) : ℚ := d.count * (d.period.num * 1000000 / d.period.den)

/-- The type `duration_cast` computes in. -/
def castType (d : Duration) : IntegerType := (int64.common d.rep).common int64

/-- `duration_cast<microseconds>`; `none` when a signed product overflows. -/
def durationCast (d : Duration) : Option ℤ :=
  (d.castType.mul d.count d.period.factorNum).map fun product =>
    int64.convert (product.tdiv d.period.factorDen)

end Duration

/-! ## Setting a timeout -/

structure Timeval where
  tvSec : ℤ
  tvUsec : ℤ
  deriving DecidableEq, Repr

inductive SocketOption where
  | sndtimeo
  | rcvtimeo
  deriving DecidableEq, Repr

/-- What `setsockopt` is passed. -/
structure Setting where
  option : SocketOption
  value : Timeval
  deriving DecidableEq, Repr

/-- `setsockopt`: `EDOM` for a `tv_usec` out of range; whatever other reason the kernel has
to refuse is its own. -/
def setsockopt (refuses : Setting → Option Errno) (s : Setting) : Except Errno Unit :=
  if s.value.tvUsec < 0 ∨ 1000000 ≤ s.value.tvUsec then .error .edom
  else match refuses s with
    | some code => .error code
    | none => .ok ()

section Operations

variable (refuses : Setting → Option Errno)

/-- The two functions of `posix::socket`, which differ in the option. -/
def setSocketTimeout (option : SocketOption) (microseconds : ℤ) :
    Except Error Unit × List Setting :=
  let setting : Setting := ⟨option, { tvSec := 0, tvUsec := microseconds }⟩
  (Contract.noSystemError (setsockopt refuses setting), [setting])

def Socket.setSendTimeout : ℤ → Except Error Unit × List Setting :=
  setSocketTimeout refuses .sndtimeo

def Socket.setReceiveTimeout : ℤ → Except Error Unit × List Setting :=
  setSocketTimeout refuses .rcvtimeo

/-- `basic_socket::set_send_timeout`: what it returns, and what was passed to the kernel. -/
def setSendTimeout (timeout : Duration) : Option (Except Error Unit × List Setting) :=
  timeout.durationCast.map (Socket.setSendTimeout refuses)

def setReceiveTimeout (timeout : Duration) : Option (Except Error Unit × List Setting) :=
  timeout.durationCast.map (Socket.setReceiveTimeout refuses)

/-- `set_timeout` sets the send timeout, then the other. -/
def setTimeout (timeout : Duration) : Option (Except Error Unit × List Setting) :=
  timeout.durationCast.bind fun send =>
    match Socket.setSendTimeout refuses send with
    | (.error e, settings) => some (.error e, settings)
    | (.ok (), settings) =>
        timeout.durationCast.map fun receive =>
          let received := Socket.setReceiveTimeout refuses receive
          (received.1, settings ++ received.2)

end Operations

/-! ## What is encoded

In true numbers first, and then in those of the type in which the cast computes.  It
computes in an unsigned type only where the duration is unsigned, division truncates
towards zero, and a quotient below a second fits `std::int64_t`; so what can go wrong
is the product. -/

def Timeval.microseconds (tv : Timeval) : ℚ := tv.tvSec * 1000000 + tv.tvUsec

/-- The `timeval` is normalised, is not "no timeout", and denotes the duration up to less
than a microsecond. -/
structure Encodes (d : Duration) (tv : Timeval) : Prop where
  normalised : 0 ≤ tv.tvUsec ∧ tv.tvUsec < 1000000
  nonzero : tv ≠ ⟨0, 0⟩
  near : |tv.microseconds - d.microseconds| < 1

/-- The cast is defined, and its result encodes the duration. -/
def Duration.Encodable (d : Duration) : Prop :=
  ∃ microseconds, d.durationCast = some microseconds ∧ Encodes d ⟨0, microseconds⟩

/-- At least a microsecond, less than a second, and cast without an overflow. -/
structure Duration.Subsecond (d : Duration) : Prop where
  least : 1 ≤ d.microseconds
  greatest : d.microseconds < 1000000
  fits : d.castType.Holds (d.count * d.period.factorNum)

namespace Duration

variable {d : Duration}

theorem microseconds_eq (d : Duration) :
    d.microseconds = ((d.count * d.period.factorNum : ℤ) : ℚ) / d.period.factorDen := by
  rw [microseconds, ← d.period.factor_eq, Int.cast_mul, Int.cast_natCast, mul_div_assoc]

theorem factorDen_pos (d : Duration) : (0 : ℚ) < d.period.factorDen := by
  exact_mod_cast d.period.factorDen_pos

theorem one_le_microseconds_iff :
    1 ≤ d.microseconds ↔ (d.period.factorDen : ℤ) ≤ d.count * d.period.factorNum := by
  rw [microseconds_eq, one_le_div d.factorDen_pos]
  exact_mod_cast Iff.rfl

theorem microseconds_lt_iff :
    d.microseconds < 1000000 ↔
      d.count * d.period.factorNum < 1000000 * (d.period.factorDen : ℤ) := by
  rw [microseconds_eq, div_lt_iff₀ d.factorDen_pos]
  exact_mod_cast Iff.rfl

theorem near_iff {n : ℤ} :
    |Timeval.microseconds ⟨0, n⟩ - d.microseconds| < 1 ↔
      n * d.period.factorDen < d.count * d.period.factorNum + d.period.factorDen ∧
      d.count * d.period.factorNum < n * d.period.factorDen + (d.period.factorDen : ℤ) := by
  have hvalue : Timeval.microseconds ⟨0, n⟩ = n := by
    simp only [Timeval.microseconds, Int.cast_zero, zero_mul, zero_add]
  rw [hvalue, microseconds_eq, abs_sub_lt_iff, sub_lt_iff_lt_add', sub_lt_iff_lt_add',
    div_add_one d.factorDen_pos.ne', lt_div_iff₀ d.factorDen_pos, div_lt_iff₀ d.factorDen_pos,
    add_mul, one_mul]
  exact_mod_cast Iff.rfl

/-- A representation narrower than 64 bits is widened, any other is kept. -/
theorem castType_eq (d : Duration) :
    d.castType = if d.rep.width < 64 then int64 else d.rep := by
  unfold castType
  rcases lt_trichotomy d.rep.width 64 with hlt | heq | hgt
  · have hfirst : int64.common d.rep = int64 := IntegerType.common_of_gt hlt
    rw [if_pos hlt, hfirst]
    rfl
  · have hrep : d.rep = ⟨d.rep.signed, 64⟩ := by rw [← heq]
    have hfirst : int64.common d.rep = d.rep :=
      (IntegerType.common_of_eq heq.symm).trans hrep.symm
    rw [if_neg heq.not_lt, hfirst, IntegerType.common_of_eq heq]
    simp only [int64, Bool.and_true]
  · have hfirst : int64.common d.rep = d.rep := IntegerType.common_of_lt hgt
    rw [if_neg hgt.not_gt, hfirst]
    exact IntegerType.common_of_gt hgt

theorem castType_unsigned (h : d.castType.signed = false) :
    0 ≤ d.count ∧ 64 ≤ d.castType.width := by
  rw [castType_eq] at h ⊢
  split at h
  · cases h
  · rename_i hwidth
    obtain ⟨hleast, -⟩ := d.holds
    rw [IntegerType.least, h, if_neg Bool.false_ne_true] at hleast
    rw [if_neg hwidth]
    exact ⟨hleast, not_lt.mp hwidth⟩

theorem tdiv_bounds {a b : ℤ} (ha : 0 ≤ a) (hb : 0 < b) :
    0 ≤ a.tdiv b ∧ a.tdiv b * b ≤ a ∧ a < a.tdiv b * b + b := by
  have hsum := Int.tdiv_mul_add_tmod a b
  have hlow := Int.tmod_nonneg b ha
  have hhigh := Int.tmod_lt_of_pos a hb
  refine ⟨Int.tdiv_nonneg ha hb.le, ?_, ?_⟩
  · omega
  · omega

theorem convert_tdiv {a b : ℤ} (ha : 0 ≤ a) (hb : 0 < b) (h : a < 1000000 * b) :
    int64.convert (a.tdiv b) = a.tdiv b ∧ a.tdiv b < 1000000 := by
  obtain ⟨hnonneg, hle, -⟩ := tdiv_bounds ha hb
  have hlt : a.tdiv b < 1000000 := lt_of_mul_lt_mul_right (hle.trans_lt h) hb.le
  refine ⟨IntegerType.convert_of_holds (by decide) ⟨?_, ?_⟩, hlt⟩
  · exact le_trans (by decide) hnonneg
  · exact le_trans hlt.le (by decide)

/-- What the multiplication gives is at most the true product, and less by a microsecond at
least when that does not fit. -/
theorem product_le {product : ℤ} (hmul : d.castType.mul d.count d.period.factorNum = some product)
    (hpos : 0 < d.count * d.period.factorNum) :
    0 ≤ product ∧ product ≤ d.count * d.period.factorNum ∧
      (¬ d.castType.Holds (d.count * d.period.factorNum) →
        product + d.period.factorDen ≤ d.count * d.period.factorNum) := by
  by_cases hfits : d.castType.Holds (d.count * d.period.factorNum)
  · rw [IntegerType.mul_of_holds hfits] at hmul
    cases hmul
    exact ⟨hpos.le, le_refl _, fun h => absurd hfits h⟩
  · obtain ⟨hsigned, hnonneg, hlost⟩ := IntegerType.mul_of_not_holds hfits hmul hpos.le
    have hwidth : (2 : ℤ) ^ 64 ≤ 2 ^ d.castType.width :=
      pow_le_pow_right₀ (by decide) (castType_unsigned hsigned).2
    have hden : (d.period.factorDen : ℤ) < 2 ^ 64 := by exact_mod_cast d.period.factorDen_lt
    exact ⟨hnonneg, by omega, fun _ => by omega⟩

theorem encodable_iff : d.Encodable ↔ d.Subsecond := by
  have hden : (0 : ℤ) < d.period.factorDen := by exact_mod_cast d.period.factorDen_pos
  constructor
  · rintro ⟨n, hcast, ⟨h0, hnorm⟩, hnonzero, hnear⟩
    obtain ⟨product, hmul, hconvert⟩ := Option.map_eq_some_iff.mp hcast
    obtain ⟨hbelow, habove⟩ := near_iff.mp hnear
    have hn : 1 ≤ n := by
      refine Int.lt_iff_add_one_le.mp (lt_of_le_of_ne h0 ?_)
      intro h
      exact hnonzero (h ▸ rfl)
    have hleast : (d.period.factorDen : ℤ) ≤ n * d.period.factorDen :=
      le_mul_of_one_le_left hden.le hn
    have hgreatest : n * d.period.factorDen + d.period.factorDen ≤
        1000000 * (d.period.factorDen : ℤ) := by
      rw [← add_one_mul]
      exact mul_le_mul_of_nonneg_right hnorm hden.le
    obtain ⟨hnonneg, hle, hlost⟩ := product_le hmul (by omega)
    obtain ⟨hquot, -⟩ := convert_tdiv hnonneg hden (by omega)
    rw [hquot] at hconvert
    obtain ⟨-, hfloor, -⟩ := tdiv_bounds hnonneg hden
    rw [hconvert] at hfloor
    refine ⟨one_le_microseconds_iff.mpr (by omega), microseconds_lt_iff.mpr (by omega), ?_⟩
    by_contra hfits
    have hgap := hlost hfits
    omega
  · rintro ⟨hleast, hgreatest, hfits⟩
    rw [one_le_microseconds_iff] at hleast
    rw [microseconds_lt_iff] at hgreatest
    have hpos : 0 ≤ d.count * d.period.factorNum := by omega
    obtain ⟨hconvert, hlt⟩ := convert_tdiv hpos hden hgreatest
    obtain ⟨hnonneg, hfloor, hceil⟩ := tdiv_bounds hpos hden
    have hcast : d.durationCast =
        some ((d.count * d.period.factorNum).tdiv d.period.factorDen) := by
      rw [durationCast, IntegerType.mul_of_holds hfits, Option.map_some, hconvert]
    refine ⟨_, hcast, ⟨hnonneg, hlt⟩, ?_, near_iff.mpr ⟨by omega, hceil⟩⟩
    intro hzero
    have hquot : (d.count * d.period.factorNum).tdiv d.period.factorDen = 0 :=
      congrArg Timeval.tvUsec hzero
    rw [hquot, zero_mul] at hceil
    omega

end Duration

/-! ## What the kernel is passed

A `timeval` that is normalised is refused for reasons of the kernel's own only.  What
is set first does not depend on whether the second is reached. -/

/-- Something is passed to `setsockopt`, all of it encodes the timeout, and none of it is
refused but for reasons of the kernel's own. -/
def Faithful (refuses : Setting → Option Errno) (d : Duration)
    (outcome : Option (Except Error Unit × List Setting)) : Prop :=
  ∃ result settings, outcome = some (result, settings) ∧ settings ≠ [] ∧
    (∀ s ∈ settings, Encodes d s.value) ∧
    ∀ e, result = .error e → ∃ s ∈ settings, ∃ code, refuses s = some code ∧ e = .systemError code

variable {refuses : Setting → Option Errno} {d : Duration}

theorem setSocketTimeout_error {option : SocketOption} {n : ℤ} (h : Encodes d ⟨0, n⟩) {e : Error}
    (he : (setSocketTimeout refuses option n).1 = .error e) :
    ∃ code, refuses ⟨option, ⟨0, n⟩⟩ = some code ∧ e = .systemError code := by
  have hrange : ¬ (n < 0 ∨ 1000000 ≤ n) := by
    have hnorm : 0 ≤ n ∧ n < 1000000 := h.normalised
    omega
  have hset : setsockopt refuses ⟨option, ⟨0, n⟩⟩ =
      match refuses ⟨option, ⟨0, n⟩⟩ with
      | some code => .error code
      | none => .ok () := if_neg hrange
  change Contract.noSystemError (setsockopt refuses ⟨option, ⟨0, n⟩⟩) = .error e at he
  rw [hset] at he
  cases hrefuses : refuses ⟨option, ⟨0, n⟩⟩ with
  | none =>
      rw [hrefuses] at he
      cases he
  | some code =>
      rw [hrefuses] at he
      cases he
      exact ⟨code, rfl, rfl⟩

theorem faithful_one_iff (option : SocketOption) :
    Faithful refuses d (d.durationCast.map (setSocketTimeout refuses option)) ↔ d.Encodable := by
  constructor
  · rintro ⟨result, settings, hsome, -, hencodes, -⟩
    obtain ⟨n, hcast, hset⟩ := Option.map_eq_some_iff.mp hsome
    cases hset
    exact ⟨n, hcast, hencodes _ List.mem_cons_self⟩
  · rintro ⟨n, hcast, h⟩
    refine ⟨_, [⟨option, ⟨0, n⟩⟩], by rw [hcast]; rfl, nofun, ?_, ?_⟩
    · intro s hs
      rw [List.mem_singleton.mp hs]
      exact h
    · intro e he
      obtain ⟨code, hcode⟩ := setSocketTimeout_error h he
      exact ⟨_, List.mem_cons_self, code, hcode⟩

theorem setTimeout_error {n : ℤ} {e : Error} (hcast : d.durationCast = some n)
    (h : (setSocketTimeout refuses .sndtimeo n).1 = .error e) :
    setTimeout refuses d = some (.error e, [⟨.sndtimeo, ⟨0, n⟩⟩]) := by
  have hsend : Socket.setSendTimeout refuses n = (.error e, [⟨.sndtimeo, ⟨0, n⟩⟩]) :=
    Prod.ext h rfl
  unfold setTimeout
  rw [hcast, Option.bind_some, hsend]

theorem setTimeout_ok {n : ℤ} (hcast : d.durationCast = some n)
    (h : (setSocketTimeout refuses .sndtimeo n).1 = .ok ()) :
    setTimeout refuses d = some ((setSocketTimeout refuses .rcvtimeo n).1,
      [⟨.sndtimeo, ⟨0, n⟩⟩, ⟨.rcvtimeo, ⟨0, n⟩⟩]) := by
  have hsend : Socket.setSendTimeout refuses n = (.ok (), [⟨.sndtimeo, ⟨0, n⟩⟩]) :=
    Prod.ext h rfl
  unfold setTimeout
  rw [hcast, Option.bind_some, hsend]
  rfl

theorem faithful_both_iff : Faithful refuses d (setTimeout refuses d) ↔ d.Encodable := by
  constructor
  · rintro ⟨result, settings, hsome, -, hencodes, -⟩
    obtain ⟨n, hcast, -⟩ := Option.bind_eq_some_iff.mp hsome
    refine ⟨n, hcast, hencodes ⟨.sndtimeo, ⟨0, n⟩⟩ ?_⟩
    cases hsend : (setSocketTimeout refuses .sndtimeo n).1 with
    | error e =>
        rw [setTimeout_error hcast hsend] at hsome
        cases hsome
        exact List.mem_cons_self
    | ok _ =>
        rw [setTimeout_ok hcast hsend] at hsome
        cases hsome
        exact List.mem_cons_self
  · rintro ⟨n, hcast, h⟩
    cases hsend : (setSocketTimeout refuses .sndtimeo n).1 with
    | error e =>
        refine ⟨_, _, setTimeout_error hcast hsend, nofun, ?_, ?_⟩
        · intro s hs
          rw [List.mem_singleton.mp hs]
          exact h
        · intro e' he'
          cases he'
          obtain ⟨code, hcode⟩ := setSocketTimeout_error h hsend
          exact ⟨_, List.mem_cons_self, code, hcode⟩
    | ok _ =>
        refine ⟨_, _, setTimeout_ok hcast hsend, nofun, ?_, ?_⟩
        · intro s hs
          rcases List.mem_cons.mp hs with rfl | hs
          · exact h
          · rw [List.mem_singleton.mp hs]
            exact h
        · intro e' he'
          obtain ⟨code, hcode⟩ := setSocketTimeout_error h he'
          exact ⟨_, List.mem_cons_of_mem _ List.mem_cons_self, code, hcode⟩

/-- **A timeout is encoded faithfully, by each of the three operations, exactly when it is
at least a microsecond, less than a second, and cast without an overflow.** -/
theorem encodes_iff (refuses : Setting → Option Errno) (d : Duration) :
    (Faithful refuses d (setTimeout refuses d) ↔ d.Subsecond) ∧
    (Faithful refuses d (setSendTimeout refuses d) ↔ d.Subsecond) ∧
    (Faithful refuses d (setReceiveTimeout refuses d) ↔ d.Subsecond) := by
  rw [← Duration.encodable_iff]
  exact ⟨faithful_both_iff, faithful_one_iff .sndtimeo, faithful_one_iff .rcvtimeo⟩

/-- `std::chrono::seconds`. -/
def seconds : Period := ⟨1, 1, Nat.one_pos, Nat.one_pos, by decide, by decide⟩

/-- `std::chrono::nanoseconds`. -/
def nanoseconds : Period := ⟨1, 1000000000, Nat.one_pos, by decide, by decide, by decide⟩

/-- A second is refused, and a nanosecond is no timeout at all. -/
theorem second_refused :
    let second : Duration := ⟨int64, seconds, 1, by decide⟩
    let nanosecond : Duration := ⟨int64, nanoseconds, 1, by decide⟩
    setTimeout (fun _ => none) second =
      some (.error (.systemError .edom), [⟨.sndtimeo, ⟨0, 1000000⟩⟩]) ∧
    setReceiveTimeout (fun _ => none) nanosecond = some (.ok (), [⟨.rcvtimeo, ⟨0, 0⟩⟩]) ∧
    ¬ Faithful (fun _ => none) second (setTimeout (fun _ => none) second) ∧
    ¬ Faithful (fun _ => none) nanosecond (setReceiveTimeout (fun _ => none) nanosecond) := by
  refine ⟨by decide +kernel, by decide +kernel, ?_, ?_⟩
  · intro h
    have hgreatest := Duration.microseconds_lt_iff.mp
      (Duration.encodable_iff.mp (faithful_both_iff.mp h)).greatest
    exact absurd hgreatest (by decide +kernel)
  · intro h
    have hleast := Duration.one_le_microseconds_iff.mp
      (Duration.encodable_iff.mp ((faithful_one_iff .rcvtimeo).mp h)).least
    exact absurd hleast (by decide +kernel)

end Jar.Com
