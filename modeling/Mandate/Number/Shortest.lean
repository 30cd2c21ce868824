/-
  Mandate.Number.Shortest
  ────────────────────────────────
  **THE FEWEST DIGITS THAT READ BACK.**

  A double stands for an interval of reals, those that round to it.  Its
  shortest text has the fewest decimal digits of any point of that interval;
  of two such points the one nearer to the double is taken, and of two equally
  near ones the even one.  The search below walks the decimal grids from one
  digit on and tests the two neighbours of the double on each grid, in exact
  arithmetic on naturals.

  The layout is the second half: exponents of the leading digit from -4 up to
  15 are written positionally, with a `.0` where no fraction is left; all
  others with a signed exponent of at least two digits.
-/
import Mandate.Number.Binary64

namespace Mandate

/-- A positive decimal `digits · 10 ^ exponent`. -/
structure Decimal where
  digits : Nat
  exponent : Int
  deriving DecidableEq, Repr

namespace Decimal

/-! ## §1. The digits of a natural. -/

/-- Decimal digits of a natural, most significant first; zero has one digit. -/
def digitsOf (n : Nat) : List Char :=
  Nat.toDigits 10 n

/-- The order of `a · 10 ^ i` and `n · 2 ^ j`. -/
def compareScaled (a : Nat) (i : Int) (n : Nat) (j : Int) : Ordering :=
  compare (a * Nat.pow 10 i.toNat * Nat.pow 2 (-j).toNat)
    (n * Nat.pow 2 j.toNat * Nat.pow 10 (-i).toNat)

/-! ## §2. The rounding interval. -/

/-- A decimal lies among the reals that round to `m · 2 ^ q`.  The interval
reaches half way to either neighbour, the lower neighbour of a power of two
being half as far away; its ends belong to it when the mantissa is even. -/
def roundsTo (d : Decimal) (m : Nat) (q : Int) (narrowBelow : Bool) : Bool :=
  let low := if narrowBelow then 4 * m - 1 else 4 * m - 2
  let high := 4 * m + 2
  let closed := m % 2 == 0
  let below := compareScaled d.digits d.exponent low (q - 2)
  let above := compareScaled d.digits d.exponent high (q - 2)
  (below == .gt || (closed && below == .eq)) && (above == .lt || (closed && above == .eq))

/-- The least `k` with `m · 2 ^ q < 10 ^ k`, searched upwards from a bound that
is never above it. -/
def scale (m : Nat) (q : Int) : Int :=
  let start : Int := ((m.log2 : Int) + q) * 30103 / 100000 - 1
  let fits (k : Int) : Bool := compareScaled 1 k m q == .gt
  match (List.range 4).find? (fun (i : Nat) => fits (start + i)) with
  | some i => start + i
  | none => start + 4

/-- The neighbours of `m · 2 ^ q` on the grid `10 ^ e` that round to it, the
nearer one if both do, the even one if both are equally near. -/
def onGrid (m : Nat) (q : Int) (narrowBelow : Bool) (e : Int) : Option Decimal :=
  let num := m * Nat.pow 2 q.toNat * Nat.pow 10 (-e).toNat
  let den := Nat.pow 10 e.toNat * Nat.pow 2 (-q).toNat
  let n := num / den
  let lower : Decimal := ⟨n, e⟩
  let upper : Decimal := ⟨n + 1, e⟩
  match lower.roundsTo m q narrowBelow, upper.roundsTo m q narrowBelow with
  | false, false => none
  | true, false => some lower
  | false, true => some upper
  | true, true => some ⟨Binary64.roundedQuotient num den, e⟩

/-- Trailing zeros moved into the exponent. -/
def strip : Nat → Decimal → Decimal
  | 0, d => d
  | fuel + 1, d =>
      if d.digits % 10 = 0 ∧ d.digits ≠ 0 then strip fuel ⟨d.digits / 10, d.exponent + 1⟩ else d

/-- The shortest decimal that rounds to a finite, non-zero double.  Seventeen
digits always suffice; the exact value stands behind the search. -/
def shortest (x : Binary64) : Decimal :=
  let (m, q) := x.parts
  let narrowBelow := m == Binary64.exponentWeight && (-1074 : Int) < q
  let k := scale m q
  let found := (List.range 17).findSome? fun (n : Nat) => onGrid m q narrowBelow (k - 1 - n)
  let exact : Decimal := ⟨m * Nat.pow 2 q.toNat * Nat.pow 5 (-q).toNat, min q 0⟩
  let d := found.getD exact
  d.strip (digitsOf d.digits).length

/-! ## §3. The layout. -/

/-- A signed exponent of at least two digits. -/
def exponentText (e : Int) : List Char :=
  let digits := digitsOf e.natAbs
  let padded := if digits.length < 2 then '0' :: digits else digits
  (if e < 0 then '-' else '+') :: padded

/-- Positional for exponents of the leading digit from -4 to 15, otherwise with
an exponent. -/
def layout (d : Decimal) : List Char :=
  let ds := digitsOf d.digits
  let point : Int := (ds.length : Int) + d.exponent
  if point ≤ -4 ∨ 16 < point then
    let mantissa := match ds with
      | [] => []
      | [c] => [c]
      | c :: rest => c :: '.' :: rest
    mantissa ++ 'e' :: exponentText (point - 1)
  else if point ≤ 0 then
    '0' :: '.' :: (List.replicate (-point).toNat '0' ++ ds)
  else if d.exponent < 0 then
    ds.take point.toNat ++ '.' :: ds.drop point.toNat
  else
    ds ++ List.replicate d.exponent.toNat '0' ++ ['.', '0']

end Decimal

namespace Binary64

/-- The texts of the values that are not finite. -/
structure SpecialTexts where
  nan : String
  infinity : String

/-- The shortest text of a double, with the given texts for the values that are
not finite. -/
def render (texts : SpecialTexts) (x : Binary64) : List Char :=
  let sign := if x.isNegative then ['-'] else []
  if x.isNaN then texts.nan.toList
  else if x.isInfinite then sign ++ texts.infinity.toList
  else if x.magnitude = 0 then sign ++ ['0', '.', '0']
  else sign ++ (Decimal.shortest x).layout

end Binary64

end Mandate
