/-
  Mandate.Time.Stamp
  ────────────────────────────────
  **TIMES WITH AN OFFSET.**

  A civil time is a date and a time of day without a place, counted in
  microseconds from the start of year one.  A stamp is a civil time with its
  offset from UTC; what it denotes is its `instant`, and every comparison of
  stamps is one of instants.  The same instant has many stamps, and exactly one
  in UTC unless UTC leaves the years 1 to 9999 there (`Stamp.inUtc?`).

  A stamp is written with its offset (`Stamp.isoText`) or, in documents, in UTC
  with a final `Z` (`Stamp.documentText?`).
-/
import Mandate.Number.Shortest
import Mandate.Time.Calendar

namespace Mandate.Time

/-! ## §1. Civil times. -/

/-- Microseconds of a second. -/
def second : Nat := 1000000

/-- Microseconds of a day. -/
def day : Nat := 86400 * second

/-- Microseconds of the years 1 to 9999. -/
def civilSpan : Nat := daySpan * day

theorem zero_lt_civilSpan : 0 < civilSpan := by decide

/-- A date and a time of day, in microseconds from the start of year one. -/
structure Civil where
  micros : Nat
  inRange : micros < civilSpan
  deriving DecidableEq, Repr

/-- A time of day. -/
structure Clock where
  hour : Nat
  minute : Nat
  second : Nat
  micro : Nat
  deriving DecidableEq, Inhabited, Repr

/-- A time of day that a clock can show. -/
def Clock.Valid (c : Clock) : Prop :=
  c.hour ≤ 23 ∧ c.minute ≤ 59 ∧ c.second ≤ 59 ∧ c.micro < 1000000

instance (c : Clock) : Decidable c.Valid :=
  inferInstanceAs (Decidable (_ ∧ _))

/-- Microseconds from midnight. -/
def Clock.micros (c : Clock) : Nat :=
  ((c.hour * 60 + c.minute) * 60 + c.second) * 1000000 + c.micro

/-- The time of day so many microseconds after midnight. -/
def Clock.ofMicros (n : Nat) : Clock :=
  ⟨n / 3600000000, n / 60000000 % 60, n / 1000000 % 60, n % 1000000⟩

/-- The date of a civil time. -/
def Civil.date (c : Civil) : Date := Date.ofOrdinal (c.micros / day)

/-- The time of day of a civil time. -/
def Civil.clock (c : Civil) : Clock := Clock.ofMicros (c.micros % day)

/-- The civil time of a date and a time of day, if both are valid. -/
def Civil.ofParts? (d : Date) (c : Clock) : Option Civil :=
  if d.Valid ∧ c.Valid then
    let n := d.ordinal * day + c.micros
    if h : n < civilSpan then some ⟨n, h⟩ else none
  else none

theorem clock_valid (c : Civil) : c.clock.Valid := by
  have h : c.micros % day < day := Nat.mod_lt _ (by decide)
  simp only [Civil.clock, Clock.ofMicros, Clock.Valid, day, second] at *
  omega

theorem clock_micros (n : Nat) : (Clock.ofMicros n).micros = n := by
  simp only [Clock.ofMicros, Clock.micros]
  omega

theorem date_valid (c : Civil) : c.date.Valid := by
  refine ofOrdinal_valid _ ?_
  have h := c.inRange
  rw [civilSpan] at h
  exact Nat.div_lt_of_lt_mul (by rwa [Nat.mul_comm])

/-- Date and time of day give the civil time back. -/
theorem ofParts?_date_clock (c : Civil) : Civil.ofParts? c.date c.clock = some c := by
  have hn : c.date.ordinal * day + c.clock.micros = c.micros := by
    simp only [Civil.date, Civil.clock, ordinal_ofOrdinal, clock_micros]
    rw [Nat.mul_comm]
    exact Nat.div_add_mod c.micros day
  simp only [Civil.ofParts?, date_valid c, clock_valid c, and_self, if_true, hn, c.inRange,
    dite_true]

/-! ## §2. Stamps. -/

/-- The distance of a place's clocks from UTC, less than a day either way. -/
structure Offset where
  micros : Int
  bounded : micros.natAbs < day
  deriving DecidableEq, Repr

/-- No distance. -/
def Offset.utc : Offset := ⟨0, by decide⟩

/-- A civil time with its offset from UTC. -/
structure Stamp where
  civil : Civil
  offset : Offset
  deriving DecidableEq, Repr

namespace Stamp

/-- What a stamp denotes, in microseconds from the start of year one in UTC. -/
def instant (s : Stamp) : Int := s.civil.micros - s.offset.micros

/-- The stamp of an instant in UTC, if its year is one of 1 to 9999. -/
def ofInstant? (n : Int) : Option Stamp :=
  if h : 0 ≤ n ∧ n.toNat < civilSpan then some ⟨⟨n.toNat, h.2⟩, .utc⟩ else none

/-- The stamp of the same instant in UTC, if its year is one of 1 to 9999. -/
def inUtc? (s : Stamp) : Option Stamp := ofInstant? s.instant

theorem instant_ofInstant? {n : Int} {t : Stamp} (h : ofInstant? n = some t) :
    t.instant = n := by
  unfold ofInstant? at h
  split at h
  next hr =>
    cases h
    simp only [instant, Offset.utc]
    omega
  next => exact absurd h (by simp)

theorem instant_inUtc? {s t : Stamp} (h : s.inUtc? = some t) : t.instant = s.instant :=
  instant_ofInstant? h

end Stamp

/-- A time as it is written, with or without an offset. -/
structure Moment where
  civil : Civil
  offset? : Option Offset
  deriving DecidableEq, Repr

/-- A time written without an offset is in UTC. -/
def Moment.stamp (m : Moment) : Stamp := ⟨m.civil, m.offset?.getD .utc⟩

/-! ## §3. Written forms. -/

/-- A natural in at least `width` digits. -/
def padded (width n : Nat) : List Char :=
  let ds := Decimal.digitsOf n
  List.replicate (width - ds.length) '0' ++ ds

/-- Hours, minutes and seconds, and six places if there is a fraction. -/
def Clock.chars (c : Clock) : List Char :=
  padded 2 c.hour ++ ':' :: padded 2 c.minute ++ ':' :: padded 2 c.second
    ++ (if c.micro = 0 then [] else '.' :: padded 6 c.micro)

/-- Year, month and day. -/
def Date.chars (d : Date) : List Char :=
  padded 4 d.year ++ '-' :: padded 2 d.month ++ '-' :: padded 2 d.day

/-- Date and time of day. -/
def Civil.chars (c : Civil) : List Char :=
  c.date.chars ++ 'T' :: c.clock.chars

/-- Sign, hours and minutes; seconds and fraction only where there are any. -/
def Offset.chars (o : Offset) : List Char :=
  let c := Clock.ofMicros o.micros.natAbs
  let sign := if o.micros < 0 then '-' else '+'
  sign :: padded 2 c.hour ++ ':' :: padded 2 c.minute
    ++ (if c.second = 0 ∧ c.micro = 0 then [] else ':' :: padded 2 c.second)
    ++ (if c.micro = 0 then [] else '.' :: padded 6 c.micro)

namespace Stamp

/-- A stamp with its offset. -/
def isoText (s : Stamp) : String :=
  String.ofList (s.civil.chars ++ s.offset.chars)

/-- A civil time of UTC as documents carry it. -/
def utcChars (c : Civil) : List Char := c.chars ++ ['Z']

/-- A stamp as documents carry it: in UTC, with a final `Z`. -/
def documentText? (s : Stamp) : Option String :=
  s.inUtc?.map fun u => String.ofList (utcChars u.civil)

end Stamp

/-! ## §4. Literals. -/

/-- A length of time by days, seconds of the day and microseconds, as far as
they are not zero. -/
def spanLiteral (micros : Int) : String :=
  let days := micros.fdiv day
  let rest := (micros.fmod day).toNat
  let parts := [("days", days), ("seconds", (rest / second : Nat)),
    ("microseconds", (rest % second : Nat))]
  let shown := parts.filter (·.2 != 0)
  if shown.isEmpty then "datetime.timedelta(0)"
  else "datetime.timedelta(" ++
    String.intercalate ", " (shown.map fun p => p.1 ++ "=" ++ toString p.2) ++ ")"

/-- A zone by its offset. -/
def Offset.literal (o : Offset) : String :=
  if o.micros = 0 then "datetime.timezone.utc"
  else "datetime.timezone(" ++ spanLiteral o.micros ++ ")"

/-- A stamp as a literal: seconds and microseconds as far as they are needed. -/
def Stamp.literal (s : Stamp) : String :=
  let d := s.civil.date
  let c := s.civil.clock
  let tail := if c.micro ≠ 0 then [c.second, c.micro] else if c.second ≠ 0 then [c.second] else []
  let numbers := [d.year, d.month, d.day, c.hour, c.minute] ++ tail
  "datetime.datetime(" ++ String.intercalate ", " (numbers.map toString) ++ ", tzinfo="
    ++ s.offset.literal ++ ")"

end Mandate.Time
