/-
  Mandate.Number.Basic
  ────────────────────────────────
  **NUMBERS OF DOCUMENTS AND CLOCKS.**

  A numeral without a fraction or an exponent is an integer of any size, every
  other numeral a double.  Two numbers compare by value, exactly, whichever of
  the two forms they have; a difference is exact between integers and a
  rounded double as soon as a double takes part.
-/
import Mandate.Number.Binary64

namespace Mandate

/-- An integer of any size or a double. -/
inductive Number where
  | int (n : Int)
  | double (x : Binary64)
  deriving DecidableEq, Inhabited, Repr

namespace Number

/-- The order of two numbers by value; a NaN is not ordered. -/
def compare? : Number → Number → Option Ordering
  | .int a, .int b => some (compare a b)
  | .double x, .double y => x.compare? y
  | .int a, .double y =>
      if y.isNaN then none
      else if y.isInfinite then some (if y.isNegative then .gt else .lt)
      else some (Binary64.compareFractions (a, 0) y.fraction)
  | .double x, .int b =>
      if x.isNaN then none
      else if x.isInfinite then some (if x.isNegative then .lt else .gt)
      else some (Binary64.compareFractions x.fraction (b, 0))

/-- Equal by value: the integer one and the double one are. -/
def sameValue (a b : Number) : Bool :=
  compare? a b == some .eq

/-- The double nearest to a number; an integer out of range becomes infinite. -/
def toBinary64 : Number → Binary64
  | .int n => Binary64.ofRatio (n < 0) n.natAbs 1
  | .double x => x

/-- Exact between integers, otherwise the double nearest to the difference. -/
def sub : Number → Number → Number
  | .int a, .int b => .int (a - b)
  | a, b => .double (a.toBinary64.sub b.toBinary64)

instance : Sub Number := ⟨sub⟩

instance : LE Number := ⟨fun a b => compare? a b = some .lt ∨ compare? a b = some .eq⟩

instance (a b : Number) : Decidable (a ≤ b) :=
  inferInstanceAs (Decidable (compare? a b = some .lt ∨ compare? a b = some .eq))

end Number

end Mandate
