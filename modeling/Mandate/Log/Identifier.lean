/-
  Mandate.Log.Identifier
  ────────────────────────────────
  **FRESH IDENTIFIERS.**

  An identifier is made of sixteen random bytes, six bits of which give way to
  a mark of the sort: four for the version, two for the variant.  It is written
  in lower case, in groups of 8, 4, 4, 4 and 12 digits.
-/
import Mandate.Text.Hexadecimal

namespace Mandate.Log

/-- The lengths of the groups. -/
def groupLengths : List Nat := [8, 4, 4, 4, 12]

/-- The bytes with the marks of the sort in place. -/
def markBytes (bytes : List Nat) : List Nat :=
  let version := bytes.modify 6 fun b => 0x40 + b % 0x10
  version.modify 8 fun b => 0x80 + b % 0x40

/-- Characters in groups of the given lengths. -/
def grouped : List Nat → List Char → List (List Char)
  | [], _ => []
  | n :: ns, cs => cs.take n :: grouped ns (cs.drop n)

/-- The identifier of random bytes. -/
def identifier (bytes : List UInt8) : String :=
  let digits := (markBytes (bytes.map (·.toNat))).flatMap (Text.hex 2)
  String.ofList (List.intercalate ['-'] (grouped groupLengths digits))

end Mandate.Log
