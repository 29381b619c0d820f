import Sst.Lib.Word

/-!
# Timers

A timer counts its intervals off a failure period, and grows its interval at each restart up to a
limit. Its arithmetic is that of 64-bit signed integers.

* `Timer`, `Timer.start`, `Timer.restart`, `Timer.expire`, `Timer.failed`: the timer.
* `ticking`: a timer after its start and so many expirations, each followed by a restart.
* `interval`, `elapsed`, `reports`: the intervals, their sums, and whether an expiration reports
  failure.
* **`retry_deadline`**: failure is reported from the time on at which the failure period is over.
-/

namespace Sst.Time

/-- Assignment to a `qint64`. -/
def int64 (x : ℤ) : ℤ := Word.wrap 64 x

/-- `Timer`; `te` is the interval for which its engine was started last, if it runs. -/
structure Timer where
  iv : ℤ
  fail : ℤ
  act : Bool
  te : Option ℤ
  deriving DecidableEq

namespace Timer

def retryMin : ℤ := 500 * 1000

def failMax : ℤ := 20 * 1000 * 1000

/-- Exponential backoff; the division rounds towards zero. -/
def backoff (period maxperiod : ℤ) : ℤ := min ((int64 (period * 3)).tdiv 2) maxperiod

/-- The constructor. -/
def new : Timer := ⟨retryMin, failMax, false, none⟩

def start (t : Timer) (initperiod failperiod : ℤ) : Timer :=
  { t with iv := initperiod, fail := failperiod, act := true, te := some initperiod }

def stop (t : Timer) : Timer := { t with act := false, te := none }

def restart (t : Timer) : Timer :=
  let iv := backoff t.iv failMax
  { t with iv := iv, act := true, te := some iv }

/-- The engine expires, and `TimerEngine::timeout` counts its interval off the deadline. -/
def expire (t : Timer) : Timer := { t with fail := int64 (t.fail - t.iv), te := none }

/-- Whether the hard failure deadline is reached, which is also what `timeout` signals. -/
def failed (t : Timer) : Bool := t.fail ≤ 0

end Timer

open Timer

section

variable (t : Timer) (initperiod failperiod : ℤ)

/-- The timer after a start and `n` expirations, each followed by a restart. -/
def ticking : ℕ → Timer
  | 0 => t.start initperiod failperiod
  | n + 1 => (ticking n).expire.restart

/-- The interval that ends with the expiration `n`. -/
def interval (n : ℕ) : ℤ := (ticking t initperiod failperiod n).iv

/-- The sum of the first `n` intervals. -/
def elapsed : ℕ → ℤ
  | 0 => 0
  | n + 1 => elapsed n + interval t initperiod failperiod n

/-- The expiration `n` reports failure. -/
def reports (n : ℕ) : Bool := (ticking t initperiod failperiod n).expire.failed

end

theorem int64_eq {x : ℤ} (h1 : -2 ^ 63 ≤ x) (h2 : x < 2 ^ 63) : int64 x = x :=
  Word.wrap_eq_self (by decide) h1 h2

/-! ## Intervals -/

/-- **Backoff** neither shrinks an interval below the limit nor leads beyond it. -/
theorem backoff_bounds {iv b : ℤ} (h1 : 1 ≤ iv) (h2 : iv ≤ b) (h3 : b * 3 < 2 ^ 63)
    (h4 : failMax ≤ b) : 1 ≤ backoff iv failMax ∧ backoff iv failMax ≤ b := by
  have hw : int64 (iv * 3) = iv * 3 := int64_eq (by omega) (by omega)
  have hmax : (1 : ℤ) ≤ failMax := by decide
  rw [backoff, hw, Int.tdiv_eq_ediv_of_nonneg (by omega)]
  exact ⟨le_min (by omega) hmax, (min_le_right _ _).trans h4⟩

variable {t : Timer} {initperiod failperiod : ℤ}

theorem max_lt (h : initperiod * 3 < 2 ^ 63) : max initperiod failMax * 3 < 2 ^ 63 := by
  have hmax : failMax * 3 < 2 ^ 63 := by decide
  rcases max_cases initperiod failMax with ⟨hm, -⟩ | ⟨hm, -⟩ <;> rw [hm] <;> assumption

variable (t failperiod)

theorem interval_bounds (h1 : 1 ≤ initperiod) (h2 : initperiod * 3 < 2 ^ 63) (n : ℕ) :
    1 ≤ interval t initperiod failperiod n ∧
      interval t initperiod failperiod n ≤ max initperiod failMax := by
  induction n with
  | zero => exact ⟨h1, le_max_left _ _⟩
  | succ n ih => exact backoff_bounds ih.1 ih.2 (max_lt h2) (le_max_right _ _)

theorem elapsed_add_le (h1 : 1 ≤ initperiod) (h2 : initperiod * 3 < 2 ^ 63) (n k : ℕ) :
    elapsed t initperiod failperiod n + k ≤ elapsed t initperiod failperiod (n + k) := by
  induction k with
  | zero => exact (add_zero _).le
  | succ k ih =>
    have h := (interval_bounds t failperiod h1 h2 (n + k)).1
    change _ ≤ elapsed t initperiod failperiod (n + k) + interval t initperiod failperiod (n + k)
    push_cast
    omega

/-! ## The deadline -/

variable {t failperiod}

theorem fail_eq (h1 : 1 ≤ initperiod) (h2 : initperiod * 3 < 2 ^ 63) (h3 : failperiod < 2 ^ 63)
    {n : ℕ} (hn : -2 ^ 63 ≤ failperiod - elapsed t initperiod failperiod n) :
    (ticking t initperiod failperiod n).fail =
      failperiod - elapsed t initperiod failperiod n := by
  induction n with
  | zero => exact (sub_zero _).symm
  | succ n ih =>
    have h0 := elapsed_add_le t failperiod h1 h2 0 (n + 1)
    have hstep := elapsed_add_le t failperiod h1 h2 n 1
    rw [Nat.zero_add, elapsed] at h0
    have hsum : elapsed t initperiod failperiod (n + 1) =
      elapsed t initperiod failperiod n + interval t initperiod failperiod n := rfl
    change int64 ((ticking t initperiod failperiod n).fail - interval t initperiod failperiod n) = _
    rw [ih (by omega), hsum, int64_eq (by omega) (by omega)]
    omega

/-- **An expiration reports failure** if the failure period is over. -/
theorem reports_iff (h1 : 1 ≤ initperiod) (h2 : initperiod * 3 < 2 ^ 63) (h3 : failperiod < 2 ^ 63)
    {n : ℕ} (hn : -2 ^ 63 ≤ failperiod - elapsed t initperiod failperiod (n + 1)) :
    reports t initperiod failperiod n = true ↔
      failperiod ≤ elapsed t initperiod failperiod (n + 1) := by
  have hfail : (ticking t initperiod failperiod n).expire.fail = _ := fail_eq h1 h2 h3 hn
  rw [reports, failed, decide_eq_true_eq, hfail]
  omega

/-- **The failure deadline.** After a start with an interval of at least a microsecond, and as long
as the counter does not wrap, exactly those expirations report failure at which the failure period
is over; there is a first one, and all later ones do. Intervals are never 0 and never longer than
the initial one or the limit. -/
theorem retry_deadline (t : Timer) {initperiod failperiod : ℤ} (h1 : 1 ≤ initperiod)
    (h2 : initperiod * 3 < 2 ^ 63) (h3 : failperiod < 2 ^ 63)
    (h4 : -2 ^ 63 ≤ failperiod - max initperiod failMax) :
    (∀ n, interval t initperiod failperiod n ≠ 0 ∧
      interval t initperiod failperiod n ≤ max initperiod failMax) ∧
    (∀ n, -2 ^ 63 ≤ failperiod - elapsed t initperiod failperiod (n + 1) →
      (reports t initperiod failperiod n = true ↔
        failperiod ≤ elapsed t initperiod failperiod (n + 1))) ∧
    ∃ n, reports t initperiod failperiod n = true ∧
      failperiod ≤ elapsed t initperiod failperiod (n + 1) ∧
      (∀ m < n, reports t initperiod failperiod m = false ∧
        elapsed t initperiod failperiod (m + 1) < failperiod) ∧
      ∀ m ≥ n, -2 ^ 63 ≤ failperiod - elapsed t initperiod failperiod (m + 1) →
        reports t initperiod failperiod m = true := by
  have hiv := interval_bounds t failperiod h1 h2
  have helapsed := elapsed_add_le t failperiod h1 h2
  have hreports : ∀ n, -2 ^ 63 ≤ failperiod - elapsed t initperiod failperiod (n + 1) →
      (reports t initperiod failperiod n = true ↔
        failperiod ≤ elapsed t initperiod failperiod (n + 1)) := fun _ => reports_iff h1 h2 h3
  refine ⟨fun n => ⟨by have := (hiv n).1; omega, (hiv n).2⟩, hreports, ?_⟩
  have hex : ∃ n, failperiod ≤ elapsed t initperiod failperiod (n + 1) := by
    refine ⟨failperiod.toNat, ?_⟩
    have := helapsed 0 (failperiod.toNat + 1)
    rw [Nat.zero_add, elapsed] at this
    omega
  classical
  let n := Nat.find hex
  have hn : failperiod ≤ elapsed t initperiod failperiod (n + 1) := Nat.find_spec hex
  have hbefore : ∀ m < n, elapsed t initperiod failperiod (m + 1) < failperiod := fun m hm =>
    not_le.mp (Nat.find_min hex hm)
  have hsum : ∀ m, elapsed t initperiod failperiod (m + 1) =
    elapsed t initperiod failperiod m + interval t initperiod failperiod m := fun _ => rfl
  -- The counter is positive before, so that the interval in force cannot make it wrap.
  have hfits : -2 ^ 63 ≤ failperiod - elapsed t initperiod failperiod (n + 1) := by
    have hle := (hiv n).2
    rw [hsum]
    rcases Nat.eq_zero_or_pos n with h0 | hpos
    · rw [h0] at hle ⊢
      rw [elapsed]
      omega
    · have := hbefore (n - 1) (by omega)
      rw [Nat.sub_add_cancel hpos] at this
      have hmax := max_lt h2
      omega
  refine ⟨n, (hreports n hfits).mpr hn, hn, fun m hm => ⟨?_, hbefore m hm⟩, fun m hm hwrap => ?_⟩
  · have hlt := hbefore m hm
    rw [Bool.eq_false_iff, Ne, hreports m (by omega)]
    omega
  · refine (hreports m hwrap).mpr (hn.trans ?_)
    have := helapsed (n + 1) (m - n)
    rw [show n + 1 + (m - n) = m + 1 by omega] at this
    omega

/-- With the default periods, the deadline is reached with the eighth expiration. -/
theorem retry_deadline_default :
    interval .new retryMin failMax 7 ≤ failMax ∧
    (reports .new retryMin failMax 7 = true ↔ failMax ≤ elapsed .new retryMin failMax 8) ∧
    elapsed .new retryMin failMax 7 < failMax ∧ failMax ≤ elapsed .new retryMin failMax 8 := by
  obtain ⟨h1, h2, -⟩ :=
    @retry_deadline .new retryMin failMax (by decide) (by decide) (by decide) (by decide)
  exact ⟨(h1 7).2, h2 7 (by decide +kernel), by decide +kernel, by decide +kernel⟩

end Sst.Time
