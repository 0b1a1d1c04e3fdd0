import Gfhttpd.Http3.Conn

/-!
# From nanoseconds to a timer (`main/http3/http3.c`)

`quiche_conn_timeout_as_nanos` returns an unsigned 64-bit number, of which `UINT64_MAX` means no
timeout and 0 an expired one.  `flush_egress` stores it in an `int64_t`, and `set_timeout` rounds it
up to milliseconds and splits them.  It takes 0 for no timeout, and `UINT64_MAX`, which is -1 by
then, for a timeout.

- `armedTimer`: the `timeval` that is passed to `evtimer_add`
- `deadline_kept_iff`: the values for which it is the deadline
-/

namespace Gfhttpd.Http3

open Http

/-! ## Timers -/

/-- `UINT64_MAX`. -/
def UINT64_MAX : UInt64 := 18446744073709551615

/-- `int64_t q_tout = quiche_conn_timeout_as_nanos(conn)`. -/
def qTout (v : UInt64) : ℤ :=
  wrap64 v.toNat

/-- The argument of the `evtimer_add` in `set_timeout`, if it is called. -/
def armedTimer (timeoutEv : Option ℕ) (qTout : ℤ) : Option Timeval :=
  if qTout ≠ 0 ∧ timeoutEv ≠ none then some (timeoutTimer qTout) else none

theorem setTimeout_eq (c : Conn) (qTout : ℤ) : setTimeout c qTout =
    match armedTimer c.hs.timeoutEv qTout with
    | none => c
    | some timer => { c with hs := { c.hs with timer := timer }, timeoutPending := true } := by
  unfold setTimeout armedTimer
  split
  · rfl
  · rfl

/-- The microseconds are less than a second. -/
def normalised (tv : Timeval) : Prop :=
  0 ≤ tv.tvUsec ∧ tv.tvUsec < 1000000

/-- The duration in nanoseconds. -/
def nanos (tv : Timeval) : ℤ :=
  tv.tvSec * 1000000000 + tv.tvUsec * 1000

/-! ## The property -/

/-- The timer of the connection for the answer `v` of `quiche`: the deadline in whole milliseconds,
and no timer where there is no deadline. -/
structure DeadlineKept (c : Conn) (v : UInt64) : Prop where
  /-- `q_tout + 999999` is an `int64_t` -/
  inside : qTout v + 999999 < 2 ^ 63
  armed : v ≠ UINT64_MAX → ∃ tv, armedTimer c.hs.timeoutEv (qTout v) = some tv ∧ normalised tv ∧
    v.toNat ≤ nanos tv ∧ nanos tv < v.toNat + 1000000
  idle : v = UINT64_MAX → armedTimer c.hs.timeoutEv (qTout v) = none

/-! ## The conversion -/

/-- Without an overflow, and from 0 on: the milliseconds, rounded up. -/
theorem timeoutTimer_of_nonneg {q : ℤ} (hq : 0 ≤ q) (hinside : q + 999999 < 2 ^ 63) :
    timeoutTimer q = ⟨(q + 999999) / 1000000 / 1000, (q + 999999) / 1000000 % 1000 * 1000⟩ := by
  have hwrap : wrap64 (q + 999999) = q + 999999 := by
    simp only [wrap64]
    omega
  -- from 0 on, the divisions of C are those of the integers
  have hms : 0 ≤ (q + 999999) / 1000000 := by omega
  unfold timeoutTimer
  rw [hwrap, Int.tdiv_eq_ediv_of_nonneg (by omega)]
  dsimp only
  rw [Int.tdiv_eq_ediv_of_nonneg hms, Int.tmod_eq_emod_of_nonneg hms]
  generalize (q + 999999) / 1000000 = ms at hms ⊢
  have husec : ms % 1000 % 2 ^ 32 * 1000 % 2 ^ 32 = ms % 1000 * 1000 := by omega
  rw [husec, if_neg (by omega)]

theorem timeoutTimer_deadline {q : ℤ} (hq : 0 ≤ q) (hinside : q + 999999 < 2 ^ 63) :
    normalised (timeoutTimer q) ∧ q ≤ nanos (timeoutTimer q) ∧
      nanos (timeoutTimer q) < q + 1000000 := by
  rw [timeoutTimer_of_nonneg hq hinside]
  simp only [normalised, nanos]
  omega

theorem tdiv_nonpos_of_lt {a b : ℤ} (hb : 0 < b) (h : a < b) : a.tdiv b ≤ 0 := by
  rcases Int.lt_or_le a 0 with hneg | hpos
  · have hdiv := Int.tdiv_nonneg (a := -a) (b := b) (by omega) (Int.le_of_lt hb)
    rw [Int.neg_tdiv] at hdiv
    omega
  · exact Int.le_of_eq (Int.tdiv_eq_zero_of_lt hpos h)

/-- A negative number of nanoseconds is a short timer, however it is split. -/
theorem nanos_timeoutTimer_neg {q : ℤ} (hlo : -2 ^ 63 ≤ q) (hq : q < 0) :
    nanos (timeoutTimer q) < 2 ^ 62 := by
  have hwrap : wrap64 (q + 999999) = q + 999999 := by
    simp only [wrap64]
    omega
  -- rounding towards 0 does not make it positive
  have hms : (q + 999999).tdiv 1000000 ≤ 0 := tdiv_nonpos_of_lt (by decide) (by omega)
  have hsec : ((q + 999999).tdiv 1000000).tdiv 1000 ≤ 0 :=
    tdiv_nonpos_of_lt (by decide) (by omega)
  unfold timeoutTimer
  rw [hwrap]
  generalize (q + 999999).tdiv 1000000 = ms at hms hsec ⊢
  dsimp only [nanos]
  split
  · dsimp only
    omega
  · dsimp only
    omega

/-! ## All values -/

/-- **The timer is the deadline for every answer from 1 to 2^63 - 1000000 nanoseconds, and for no
other; a connection without its timeout event needs the answer `UINT64_MAX`.** -/
theorem deadline_kept_iff (c : Conn) (v : UInt64) : DeadlineKept c v ↔
    (c.hs.timeoutEv ≠ none ∧ 1 ≤ v.toNat ∧ v.toNat ≤ 2 ^ 63 - 1000000) ∨
      (c.hs.timeoutEv = none ∧ v = UINT64_MAX) := by
  have hv : v.toNat < 2 ^ 64 := v.toNat_lt
  have hnone : v ≠ UINT64_MAX ↔ v.toNat ≠ 2 ^ 64 - 1 := by
    rw [ne_eq, ← UInt64.toNat_inj]
    rfl
  constructor
  · rintro ⟨hinside, harmed, hidle⟩
    by_cases hmax : v = UINT64_MAX
    · -- -1 is a timeout like any other
      refine Or.inr ⟨?_, hmax⟩
      have hnot := hidle hmax
      by_contra hev
      have hq : qTout v ≠ 0 := by
        rw [hmax]
        decide
      rw [armedTimer, if_pos ⟨hq, hev⟩] at hnot
      cases hnot
    · obtain ⟨tv, htv, -, hdeadline, -⟩ := harmed hmax
      simp only [armedTimer, Option.ite_none_right_eq_some, Option.some.injEq] at htv
      obtain ⟨⟨hq, hev⟩, rfl⟩ := htv
      refine Or.inl ⟨hev, ?_⟩
      rcases Nat.lt_or_ge v.toNat (2 ^ 63) with hsmall | hbig
      · -- the answer is what `q_tout` holds: not 0, and without an overflow
        have hsame : qTout v = v.toNat := by
          simp only [qTout, wrap64]
          omega
        rw [hsame] at hq hinside
        omega
      · -- the answer is negative, and its timer too short
        have hneg : qTout v = v.toNat - 2 ^ 64 := by
          simp only [qTout, wrap64]
          omega
        have hshort := nanos_timeoutTimer_neg (q := qTout v) (by omega) (by omega)
        omega
  · rintro (⟨hev, hlo, hhi⟩ | ⟨hev, rfl⟩)
    · have hsame : qTout v = v.toNat := by
        simp only [qTout, wrap64]
        omega
      have hinside : qTout v + 999999 < 2 ^ 63 := by
        rw [hsame]
        omega
      refine ⟨hinside, fun _ => ⟨timeoutTimer (qTout v), ?_, ?_⟩, fun hmax => ?_⟩
      · rw [armedTimer, if_pos ⟨by rw [hsame]; omega, hev⟩]
      · have hdeadline := timeoutTimer_deadline (by rw [hsame]; omega) hinside
        rw [hsame] at hdeadline ⊢
        exact hdeadline
      · exact absurd hmax (hnone.mpr (by omega))
    · refine ⟨by decide, fun hmax => absurd rfl hmax, fun _ => ?_⟩
      rw [armedTimer, if_neg fun hboth => hboth.2 hev]

/-- An expired deadline arms nothing, and no deadline an immediate timer. -/
theorem deadline_not_kept_extremes :
    armedTimer (Conn.create 5 []).hs.timeoutEv (qTout 0) = none ∧
      armedTimer (Conn.create 5 []).hs.timeoutEv (qTout UINT64_MAX) = some ⟨0, 0⟩ ∧
      ¬ DeadlineKept (Conn.create 5 []) 0 ∧ ¬ DeadlineKept (Conn.create 5 []) UINT64_MAX := by
  have hexpired : armedTimer (Conn.create 5 []).hs.timeoutEv (qTout 0) = none :=
    if_neg fun hboth => hboth.1 (by decide)
  have hendless : armedTimer (Conn.create 5 []).hs.timeoutEv (qTout UINT64_MAX) = some ⟨0, 0⟩ := by
    decide
  refine ⟨hexpired, hendless, ?_, ?_⟩
  · rintro ⟨-, harmed, -⟩
    obtain ⟨tv, htv, -⟩ := harmed (by decide)
    rw [hexpired] at htv
    cases htv
  · rintro ⟨-, -, hidle⟩
    have hnot := hidle rfl
    rw [hendless] at hnot
    cases hnot

end Gfhttpd.Http3
