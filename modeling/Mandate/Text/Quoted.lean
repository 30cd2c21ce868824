/-
  Mandate.Text.Quoted
  ────────────────────────────────
  **QUOTED TEXT.**

  A text inside a message or a detail is written in single quotes, or in double
  quotes when it holds a single quote and no double one.  Backslashes and the
  quote in use are escaped, line breaks and tabs have letters, every other
  hidden character is written by its code point in two, four or eight
  hexadecimal digits, and so is a half.
-/
import Mandate.Text.Basic
import Mandate.Text.Hexadecimal
import Mandate.Text.Printable

namespace Mandate.Text

/-- A half by its unit. -/
def halfChars (h : Half) : List Char := '\\' :: 'u' :: hex 4 h.unit

/-- One point between the quotes. -/
def escapeIn (quote : Char) : Point → List Char
  | .half h => halfChars h
  | .char c =>
      if c = quote ∨ c = '\\' then ['\\', c]
      else if c = '\n' then ['\\', 'n']
      else if c = '\r' then ['\\', 'r']
      else if c = '\t' then ['\\', 't']
      else if isPrintable c then [c]
      else if c.toNat < 0x100 then '\\' :: 'x' :: hex 2 c.toNat
      else if c.toNat < 0x10000 then '\\' :: 'u' :: hex 4 c.toNat
      else '\\' :: 'U' :: hex 8 c.toNat

/-- The quote that a text is put in. -/
def quoteFor (ps : List Point) : Char :=
  if ps.contains (.char '\'') && !ps.contains (.char '"') then '"' else '\''

/-- A text in quotes. -/
def quotedChars (t : Text) : List Char :=
  let q := quoteFor t.points
  q :: t.points.flatMap (escapeIn q) ++ [q]

/-- A text in quotes. -/
def quoted (t : Text) : String :=
  String.ofList (quotedChars t)

/-- A text as it stands where halves cannot be written. -/
def withoutHalves (t : Text) : String :=
  String.ofList (t.points.flatMap fun
    | .char c => [c]
    | .half h => halfChars h)

end Mandate.Text
