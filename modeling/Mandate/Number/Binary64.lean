/-
  Mandate.Number.Binary64
  ────────────────────────────────
  **DOUBLES BY THEIR BITS.**

  A double is held by its 64 bits, so equality of values is decidable and
  every operation below is exact arithmetic on naturals followed by one
  rounding.  The rounding is always the same function, `ofRatio`: the double
  nearest to a quotient of naturals, an exact tie going to the even mantissa,
  and infinity from the overflow threshold on.  Reading a decimal, turning an
  integer into a double, dividing two counts and subtracting two doubles are
  all instances of it.

      ofRatio s num den   — nearest double to (-1)^s · num / den
      parts x             — x = m · 2 ^ q for a finite magnitude x
      compare? x y        — order of two doubles, none with a NaN
-/

namespace Mandate

/-- A double-precision number, given by its sign bit, eleven exponent bits and
fifty-two mantissa bits. -/
structure Binary64 where
  bits : UInt64
  deriving DecidableEq, Inhabited, Repr

namespace Binary64

/-- The weight of the sign bit, two to the power 63. -/
def signWeight : Nat := 0x8000000000000000

/-- The weight of the lowest exponent bit, two to the power 52. -/
def exponentWeight : Nat := 0x10000000000000

/-! ## §1. Taking a double apart. -/

/-- The sign bit: true for negative numbers and for negative zero. -/
def isNegative (x : Binary64) : Bool :=
  x.bits.toNat / signWeight == 1

/-- The bits without the sign. -/
def magnitude (x : Binary64) : Nat :=
  x.bits.toNat % signWeight

/-- The bits of infinity; larger magnitudes are not numbers. -/
def infinityBits : Nat :=
  2047 * exponentWeight

/-- No number at all. -/
def isNaN (x : Binary64) : Bool :=
  infinityBits < x.magnitude

/-- One of the two infinities. -/
def isInfinite (x : Binary64) : Bool :=
  x.magnitude == infinityBits

/-- Neither infinite nor undefined. -/
def isFinite (x : Binary64) : Bool :=
  x.magnitude < infinityBits

/-- Mantissa `m` and exponent `q` of a finite magnitude, which is `m · 2 ^ q`. -/
def parts (x : Binary64) : Nat × Int :=
  let e : Nat := x.magnitude / exponentWeight
  let f : Nat := x.magnitude % exponentWeight
  if e = 0 then (f, -1074) else (exponentWeight + f, (e : Int) - 1075)

/-- A finite double as an integer numerator over a power of two:
`x = numerator / 2 ^ scale`. -/
def fraction (x : Binary64) : Int × Nat :=
  let (m, q) := x.parts
  let n : Int := if x.isNegative then -(m : Int) else m
  if q < 0 then (n, (-q).toNat) else (n * (Nat.pow 2 q.toNat : Nat), 0)

/-! ## §2. Rounding. -/

/-- The double with the given sign and magnitude bits. -/
def ofMagnitude (negative : Bool) (magnitude : Nat) : Binary64 :=
  ⟨UInt64.ofNat (if negative then signWeight + magnitude else magnitude)⟩

/-- Infinity of the given sign. -/
def infinity (negative : Bool) : Binary64 :=
  ofMagnitude negative infinityBits

/-- Zero of the given sign. -/
def zero (negative : Bool) : Binary64 :=
  ofMagnitude negative 0

/-- The value that stands for no number. -/
def nan : Binary64 :=
  ofMagnitude false (infinityBits + exponentWeight / 2)

/-- The quotient rounded to the nearest natural, a half going to the even
neighbour. -/
def roundedQuotient (num den : Nat) : Nat :=
  let q := num / den
  let r := num % den
  if 2 * r < den then q
  else if den < 2 * r then q + 1
  else if q % 2 = 0 then q else q + 1

/-- The exponent of the last mantissa place of a double near `num / den`: the
place fifty-two below the leading bit, and never below `2 ^ -1074`. -/
def lastPlace (num den : Nat) : Int :=
  let estimate : Int := (num.log2 : Int) - (den.log2 : Int)
  -- the quotient lies between half of `2 ^ estimate` and twice it
  let reached : Bool :=
    if estimate < 0 then decide (den ≤ num * Nat.pow 2 (-estimate).toNat)
    else decide (den * Nat.pow 2 estimate.toNat ≤ num)
  max ((if reached then estimate else estimate - 1) - 52) (-1074)

/-- The double nearest to `num / den` with the given sign.  A mantissa that
rounds up to a full power of two carries into the exponent by itself, since
magnitudes are ordered as their bits are. -/
def ofRatio (negative : Bool) (num den : Nat) : Binary64 :=
  if num = 0 ∨ den = 0 then zero negative
  else
    let q := lastPlace num den
    let m := if q < 0 then roundedQuotient (num * Nat.pow 2 (-q).toNat) den
      else roundedQuotient num (den * Nat.pow 2 q.toNat)
    let bits := (q + 1074).toNat * exponentWeight + m
    if infinityBits ≤ bits then infinity negative else ofMagnitude negative bits

/-- The double nearest to `digits · 10 ^ exponent`.  Exponents beyond every
double are settled without building the power of ten. -/
def ofDecimal (negative : Bool) (digits : Nat) (exponent : Int) : Binary64 :=
  if digits = 0 then zero negative
  else if 400 < exponent then infinity negative
  else if (digits.log2 : Int) + 1 + 3 * exponent < -1100 then zero negative
  else if exponent < 0 then ofRatio negative digits (Nat.pow 10 (-exponent).toNat)
  else ofRatio negative (digits * Nat.pow 10 exponent.toNat) 1

/-- The double nearest to an integer, if one is in range. -/
def ofInt? (n : Int) : Option Binary64 :=
  let x := ofRatio (n < 0) n.natAbs 1
  if x.isFinite then some x else none

/-! ## §3. Order and difference. -/

/-- The order of `a / 2 ^ i` and `b / 2 ^ j`. -/
def compareFractions (a : Int × Nat) (b : Int × Nat) : Ordering :=
  compare (a.1 * (Nat.pow 2 b.2 : Nat)) (b.1 * (Nat.pow 2 a.2 : Nat))

/-- The order of two doubles by value; a NaN is not ordered. -/
def compare? (x y : Binary64) : Option Ordering :=
  if x.isNaN || y.isNaN then none
  else if x.isInfinite || y.isInfinite then
    let rank (z : Binary64) : Int :=
      if z.isInfinite then (if z.isNegative then -1 else 1) else 0
    some (compare (rank x) (rank y))
  else some (compareFractions x.fraction y.fraction)

/-- The double nearest to the exact difference. -/
def sub (x y : Binary64) : Binary64 :=
  if x.isNaN || y.isNaN then nan
  else if x.isInfinite then
    if y.isInfinite && (x.isNegative == y.isNegative) then nan else x
  else if y.isInfinite then infinity (!y.isNegative)
  else
    let (a, i) := x.fraction
    let (b, j) := y.fraction
    let d := a * (Nat.pow 2 j : Nat) - b * (Nat.pow 2 i : Nat)
    ofRatio (d < 0) d.natAbs (Nat.pow 2 (i + j))

end Binary64

end Mandate
