/-
  Mandate.Time.Span
  ────────────────────────────────
  **LENGTHS OF TIME.**

  A length of time is a whole number of microseconds of less than a billion
  days.  It is given in seconds: a whole number of them is taken exactly, a
  double is taken apart into its whole part and its fraction, and the fraction
  is rounded to microseconds, a half going to the even neighbour.
-/
import Mandate.Number.Basic
import Mandate.Time.Stamp

namespace Mandate.Time

/-- The bound on the days of a span. -/
def maxSpanDays : Nat := 999999999

/-- A length of time in microseconds. -/
structure Span where
  micros : Int
  deriving DecidableEq, Repr

/-- Why a number of seconds is no span. -/
inductive SpanFault where
  /-- More days than a span may have. -/
  | tooLong (days : Int)
  /-- So many days that they are not even counted. -/
  | uncounted
  | infinite
  | undefined
  deriving DecidableEq, Repr

/-- The fault in words. -/
def SpanFault.message : SpanFault → String
  | .tooLong days =>
      "days=" ++ toString days ++ "; must have magnitude <= " ++ toString maxSpanDays
  | .uncounted => "Python int too large to convert to C int"
  | .infinite => "cannot convert float infinity to integer"
  | .undefined => "cannot convert float NaN to integer"

namespace Span

/-- The span of so many microseconds. -/
def ofMicros (micros : Int) : Except SpanFault Span :=
  let days := micros.fdiv day
  if days < -0x80000000 ∨ 0x80000000 ≤ days then .error .uncounted
  else if days.natAbs ≤ maxSpanDays then .ok ⟨micros⟩
  else .error (.tooLong days)

/-- A double rounded to the nearest integer, a half going to the even
neighbour. -/
def nearestInt (x : Binary64) : Int :=
  let (n, k) := x.fraction
  let m := Binary64.roundedQuotient n.natAbs (Nat.pow 2 k)
  if n < 0 then -(m : Int) else m

/-- The microseconds of so many seconds, for a finite double: the fraction is
first multiplied as a double and only then rounded. -/
def microsOfDouble (x : Binary64) : Int :=
  let (n, k) := x.fraction
  let whole := n.tdiv (Nat.pow 2 k : Nat)
  let rest := n - whole * (Nat.pow 2 k : Nat)
  let product := Binary64.ofRatio (rest < 0) (rest.natAbs * second) (Nat.pow 2 k)
  whole * second + nearestInt product

/-- The span of so many seconds. -/
def ofSeconds : Number → Except SpanFault Span
  | .int n => ofMicros (n * second)
  | .double x =>
      if x.isNaN then .error .undefined
      else if x.isInfinite then .error .infinite
      else ofMicros (microsOfDouble x)

/-- The seconds of a span, as the nearest double. -/
def seconds (s : Span) : Number :=
  .double (Binary64.ofRatio (s.micros < 0) s.micros.natAbs second)

end Span

end Mandate.Time
