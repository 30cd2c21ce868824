/-
  Mandate.Number.Places
  ────────────────────────────────
  **DOUBLES IN A GIVEN NUMBER OF PLACES.**

  A double is a quotient of integers, so a given number of its decimal places
  is one rounding, a half going to the even neighbour.

      fixed p         — p places behind the point
      exponential p   — one digit, p places, and an exponent of two digits or more
      general p       — p significant digits in the shorter of the two forms
-/
import Mandate.Number.Shortest

namespace Mandate.Binary64

/-- The digits of a natural, at least `width` of them. -/
def digitsWide (width n : Nat) : List Char :=
  let ds := Decimal.digitsOf n
  List.replicate (width - ds.length) '0' ++ ds

/-- The magnitude of a finite double times a power of ten, rounded. -/
def scaled (x : Binary64) (power : Int) : Nat :=
  let (n, k) := x.fraction
  if power < 0 then roundedQuotient n.natAbs (Nat.pow 2 k * Nat.pow 10 (-power).toNat)
  else roundedQuotient (n.natAbs * Nat.pow 10 power.toNat) (Nat.pow 2 k)

/-- Digits with a point in front of the last `places`. -/
def pointed (places : Nat) (keepPoint : Bool) (n : Nat) : List Char :=
  let ds := digitsWide (places + 1) n
  let whole := ds.take (ds.length - places)
  if places = 0 then (if keepPoint then whole ++ ['.'] else whole)
  else whole ++ '.' :: ds.drop (ds.length - places)

/-- The magnitude in `places` places behind the point. -/
def fixed (places : Nat) (keepPoint : Bool) (x : Binary64) : List Char :=
  pointed places keepPoint (x.scaled places)

/-- The decimal exponent of a finite magnitude other than zero: the power of ten
of its first digit. -/
def decimalExponent (x : Binary64) : Int :=
  let (n, k) := x.fraction
  let n := n.natAbs
  -- the estimate from the digits of both parts is one too high at most
  let estimate : Int :=
    (Decimal.digitsOf n).length - (Decimal.digitsOf (Nat.pow 2 k)).length
  let reached : Bool :=
    if estimate < 0 then decide (Nat.pow 2 k ≤ n * Nat.pow 10 (-estimate).toNat)
    else decide (Nat.pow 2 k * Nat.pow 10 estimate.toNat ≤ n)
  if reached then estimate else estimate - 1

/-- Mantissa of `places + 1` digits and exponent of a finite magnitude. -/
def mantissa (places : Nat) (x : Binary64) : Nat × Int :=
  if x.fraction.1 = 0 then (0, 0)
  else
    let e := x.decimalExponent
    let m := x.scaled ((places : Int) - e)
    -- rounding up may reach the next power of ten
    if m = Nat.pow 10 (places + 1) then (Nat.pow 10 places, e + 1) else (m, e)

/-- The exponent behind its letter. -/
def exponentChars (letter : Char) (e : Int) : List Char :=
  letter :: (if e < 0 then '-' else '+') :: digitsWide 2 e.natAbs

/-- The magnitude with one digit in front of the point and an exponent. -/
def exponential (places : Nat) (keepPoint : Bool) (letter : Char) (x : Binary64) : List Char :=
  let (m, e) := x.mantissa places
  pointed places keepPoint m ++ exponentChars letter e

/-- Digits without the zeros behind the point, nor a point at the end. -/
def withoutZeros (cs : List Char) : List Char :=
  if cs.contains '.' then
    let kept := cs.reverse.dropWhile (· == '0')
    (if kept.head? == some '.' then kept.tail else kept).reverse
  else cs

/-- The magnitude in so many significant digits, in the shorter form. -/
def general (digits : Nat) (keepZeros : Bool) (letter : Char) (x : Binary64) : List Char :=
  let digits := max 1 digits
  let (m, e) := x.mantissa (digits - 1)
  let trim (cs : List Char) : List Char := if keepZeros then cs else withoutZeros cs
  if -4 ≤ e ∧ e < digits then
    trim (x.fixed ((digits : Int) - 1 - e).toNat keepZeros)
  else trim (pointed (digits - 1) keepZeros m) ++ exponentChars letter e

end Mandate.Binary64
