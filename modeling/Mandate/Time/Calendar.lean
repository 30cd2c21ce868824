/-
  Mandate.Time.Calendar
  ────────────────────────────────
  **THE CALENDAR.**

  Dates of the years 1 to 9999 in the Gregorian calendar, carried back to year
  one.  A date is numbered by the days before it, and a number in range has
  exactly one date.

  Main results:
    * `ordinal_ofOrdinal` — the date of a number has that number;
    * `ofOrdinal_valid`   — the date of a number in range is a date.

  The year is guessed from the mean length of a year and corrected by at most
  one, so that both results come down to linear arithmetic.
-/

namespace Mandate.Time

/-- A year, a month and a day, counted from one. -/
structure Date where
  year : Nat
  month : Nat
  day : Nat
  deriving DecidableEq, Inhabited, Repr

/-! ## §1. Lengths. -/

/-- Leap years: every fourth, but of the full centuries only every fourth. -/
def isLeap (year : Nat) : Bool :=
  year % 4 == 0 && (year % 100 != 0 || year % 400 == 0)

/-- The days of the months of a year. -/
def monthLengths (year : Nat) : List Nat :=
  [31, if isLeap year then 29 else 28, 31, 30, 31, 30, 31, 31, 30, 31, 30, 31]

/-- The days of a month; none for a number that is no month. -/
def daysInMonth (year month : Nat) : Nat :=
  if month = 0 then 0 else (monthLengths year).getD (month - 1) 0

/-- The days of months of the given lengths. -/
def daysOfMonths : List Nat → Nat
  | [] => 0
  | length :: more => length + daysOfMonths more

/-- The days of the first so many years. -/
def daysOfYears (years : Nat) : Nat :=
  365 * years + years / 4 - years / 100 + years / 400

/-- The days of the years 1 to 9999. -/
def daySpan : Nat := 3652059

/-- A date of the years 1 to 9999. -/
def Date.Valid (d : Date) : Prop :=
  1 ≤ d.year ∧ d.year ≤ 9999 ∧ 1 ≤ d.month ∧ d.month ≤ 12 ∧
    1 ≤ d.day ∧ d.day ≤ daysInMonth d.year d.month

instance (d : Date) : Decidable d.Valid :=
  inferInstanceAs (Decidable (_ ∧ _))

/-! ## §2. Numbering. -/

/-- The days before a date, from the first of January of year one. -/
def Date.ordinal (d : Date) : Nat :=
  daysOfYears (d.year - 1) + daysOfMonths ((monthLengths d.year).take (d.month - 1)) + (d.day - 1)

/-- The month that holds a day of the year, and the day of that month, both
from zero, given the lengths of the months. -/
def monthAt : List Nat → Nat → Nat × Nat
  | [], day => (0, day)
  | length :: more, day =>
      if day < length then (0, day)
      else
        let (m, d) := monthAt more (day - length)
        (m + 1, d)

/-- The full years before a day. -/
def yearsBefore (ordinal : Nat) : Nat :=
  let guess := ordinal * 400 / 146097
  if ordinal < daysOfYears guess then guess - 1
  else if daysOfYears (guess + 1) ≤ ordinal then guess + 1
  else guess

/-- The date with the given number of days before it. -/
def Date.ofOrdinal (ordinal : Nat) : Date :=
  let years := yearsBefore ordinal
  let (m, d) := monthAt (monthLengths (years + 1)) (ordinal - daysOfYears years)
  ⟨years + 1, m + 1, d + 1⟩

/-! ## §3. Numbering is exact. -/

theorem daysOfYears_succ (y : Nat) :
    daysOfYears (y + 1) = daysOfYears y + daysOfMonths (monthLengths (y + 1)) := by
  have hs : daysOfMonths (monthLengths (y + 1)) = if isLeap (y + 1) then 366 else 365 := by
    cases h : isLeap (y + 1) <;> simp [daysOfMonths, monthLengths, h]
  rw [hs]
  have quotient (k : Nat) (hk : 0 < k) :
      (y + 1) / k = y / k + if (y + 1) % k = 0 then 1 else 0 := by
    rw [Nat.succ_div]
    simp only [Nat.dvd_iff_mod_eq_zero]
  have hc : (y + 1) / 100 ≤ (y + 1) / 4 := Nat.div_le_div_left (by decide) (by decide)
  have hc' : y / 100 ≤ y / 4 := Nat.div_le_div_left (by decide) (by decide)
  have h₁ : (y + 1) % 400 = 0 → (y + 1) % 100 = 0 := by omega
  have h₂ : (y + 1) % 100 = 0 → (y + 1) % 4 = 0 := by omega
  unfold daysOfYears isLeap
  rw [quotient 4 (by decide), quotient 100 (by decide)] at *
  rw [quotient 400 (by decide)]
  by_cases a : (y + 1) % 4 = 0 <;> by_cases b : (y + 1) % 100 = 0 <;>
    by_cases c : (y + 1) % 400 = 0 <;> simp_all <;> omega

theorem yearsBefore_spec (n : Nat) :
    daysOfYears (yearsBefore n) ≤ n ∧ n < daysOfYears (yearsBefore n + 1) := by
  have hlow : daysOfYears (n * 400 / 146097 - 1) ≤ n := by unfold daysOfYears; omega
  have hhigh : n < daysOfYears (n * 400 / 146097 + 2) := by unfold daysOfYears; omega
  have hone : n < daysOfYears (n * 400 / 146097) → 1 ≤ n * 400 / 146097 := by
    unfold daysOfYears; omega
  unfold yearsBefore
  dsimp only
  generalize n * 400 / 146097 = g at *
  split
  next h =>
    have := hone h
    exact ⟨hlow, by rwa [show g - 1 + 1 = g by omega]⟩
  next h =>
    split
    next h' => exact ⟨h', hhigh⟩
    next h' => omega

theorem monthAt_spec (lengths : List Nat) (day : Nat) (h : day < daysOfMonths lengths) :
    (monthAt lengths day).1 < lengths.length ∧
      daysOfMonths (lengths.take (monthAt lengths day).1) + (monthAt lengths day).2 = day ∧
      (monthAt lengths day).2 < lengths.getD (monthAt lengths day).1 0 := by
  induction lengths generalizing day with
  | nil => simp [daysOfMonths] at h
  | cons l ls ih =>
      simp only [daysOfMonths] at h
      by_cases hd : day < l
      · simp [daysOfMonths, monthAt, hd]
      · obtain ⟨h₁, h₂, h₃⟩ := ih (day - l) (by omega)
        simp only [monthAt, hd, if_false, List.length_cons, List.take_succ_cons, daysOfMonths,
          List.getD_cons_succ]
        exact ⟨by omega, by omega, h₃⟩

theorem ofOrdinal_offset (n : Nat) :
    n - daysOfYears (yearsBefore n) < daysOfMonths (monthLengths (yearsBefore n + 1)) := by
  obtain ⟨h₁, h₂⟩ := yearsBefore_spec n
  rw [daysOfYears_succ] at h₂
  omega

/-- The date of a number has that number. -/
theorem ordinal_ofOrdinal (n : Nat) : (Date.ofOrdinal n).ordinal = n := by
  obtain ⟨_, h₂, _⟩ := monthAt_spec _ _ (ofOrdinal_offset n)
  have h := (yearsBefore_spec n).1
  simp only [Date.ofOrdinal, Date.ordinal, Nat.add_sub_cancel]
  omega

/-- The date of a number in range is a date. -/
theorem ofOrdinal_valid (n : Nat) (hn : n < daySpan) : (Date.ofOrdinal n).Valid := by
  obtain ⟨h₁, _, h₃⟩ := monthAt_spec _ _ (ofOrdinal_offset n)
  obtain ⟨hy, _⟩ := yearsBefore_spec n
  have hlen : (monthLengths (yearsBefore n + 1)).length = 12 := rfl
  have hyear : yearsBefore n < 9999 := Nat.lt_of_not_le fun hge => by
    have : daysOfYears 9999 ≤ daysOfYears (yearsBefore n) := by unfold daysOfYears; omega
    have : daysOfYears 9999 = daySpan := by decide
    omega
  refine ⟨by simp [Date.ofOrdinal], by simp only [Date.ofOrdinal]; omega,
    by simp [Date.ofOrdinal], by simp only [Date.ofOrdinal]; omega,
    by simp [Date.ofOrdinal], ?_⟩
  simp only [Date.ofOrdinal, daysInMonth, Nat.add_sub_cancel]
  rw [if_neg (by omega)]
  omega

/-! ## §4. Weeks. -/

/-- The day of the week, from zero for Monday. -/
def weekday (ordinal : Nat) : Nat := ordinal % 7

/-- Years with a week 53: those that start on a Thursday, and leap years that
start on a Wednesday. -/
def hasWeek53 (year : Nat) : Bool :=
  let first := weekday (daysOfYears (year - 1))
  first == 3 || (first == 2 && isLeap year)

/-- The day number of a week date.  Week one is the week with the first
Thursday of the year; days count from one for Monday.  The first days of week
one may lie before the year. -/
def weekOrdinal? (year week day : Nat) : Option Int :=
  if year < 1 ∨ 9999 < year ∨ week < 1 ∨ 53 < week ∨ day < 1 ∨ 7 < day then none
  else if week = 53 ∧ hasWeek53 year = false then none
  else
    let january := daysOfYears (year - 1)
    let first := weekday january
    let monday : Int := (january : Int) - first + (if 3 < first then 7 else 0)
    some (monday + ((week - 1) * 7 + (day - 1) : Nat))

end Mandate.Time
