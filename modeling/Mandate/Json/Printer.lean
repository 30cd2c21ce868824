/-
  Mandate.Json.Printer
  ────────────────────────────────
  **WRITING DOCUMENTS.**

  A value is written in printable ASCII: every other character of a text is
  escaped, beyond U+FFFF as a pair of 16-bit units, and so is half of such a
  pair.  On one line, items are separated by a comma and a space; indented,
  every item stands on a line of its own, and empty lists and objects stay
  closed.
-/
import Mandate.Json.Value
import Mandate.Number.Shortest
import Mandate.Text.Hexadecimal

namespace Mandate.Json

/-! ## §1. Texts. -/

/-- A 16-bit unit as an escape. -/
def escapeUnit (unit : Nat) : List Char :=
  '\\' :: 'u' :: Text.hex 4 unit

/-- One character between the quotes. -/
def escapeChar (c : Char) : List Char :=
  if c = '"' then ['\\', '"']
  else if c = '\\' then ['\\', '\\']
  else if c = '\n' then ['\\', 'n']
  else if c = '\r' then ['\\', 'r']
  else if c = '\t' then ['\\', 't']
  else if c = '\x0C' then ['\\', 'f']
  else if c = '\x08' then ['\\', 'b']
  else if 0x20 ≤ c.toNat ∧ c.toNat ≤ 0x7E then [c]
  else if c.toNat < 0x10000 then escapeUnit c.toNat
  else
    let rest := c.toNat - 0x10000
    escapeUnit (0xD800 + rest / 0x400) ++ escapeUnit (0xDC00 + rest % 0x400)

/-- One point between the quotes. -/
def escapePoint : Point → List Char
  | .char c => escapeChar c
  | .half h => escapeUnit h.unit

/-- A text in double quotes. -/
def textChars (t : Text) : List Char :=
  '"' :: t.points.flatMap escapePoint ++ ['"']

/-! ## §2. Numbers. -/

/-- The words for the doubles that are not finite. -/
def specialTexts : Binary64.SpecialTexts := ⟨"NaN", "Infinity"⟩

/-- The digits of an integer, with a minus sign in front of a negative one. -/
def intChars (n : Int) : List Char :=
  if n < 0 then '-' :: Decimal.digitsOf n.natAbs else Decimal.digitsOf n.natAbs

/-- An integer by its digits, a double by its shortest text. -/
def numberChars : Number → List Char
  | .int n => intChars n
  | .double x => x.render specialTexts

/-! ## §3. Values. -/

/-- How the items of lists and objects are set. -/
inductive Layout where
  /-- All on one line. -/
  | line
  /-- Each item on its own line, `step` blanks further in than its parent. -/
  | indented (step : Nat)

namespace Layout

/-- A line break and the blanks of a nesting depth. -/
def lineBreak (step depth : Nat) : List Char :=
  '\n' :: List.replicate (step * depth) ' '

/-- What stands in front of the first item at a nesting depth. -/
def opening : Layout → Nat → List Char
  | .line, _ => []
  | .indented step, depth => lineBreak step (depth + 1)

/-- What separates two items at a nesting depth. -/
def between : Layout → Nat → List Char
  | .line, _ => [',', ' ']
  | .indented step, depth => ',' :: lineBreak step (depth + 1)

/-- What stands behind the last item at a nesting depth. -/
def closing : Layout → Nat → List Char
  | .line, _ => []
  | .indented step, depth => lineBreak step depth

end Layout

namespace Value

mutual

/-- A value at a nesting depth. -/
def chars (layout : Layout) (depth : Nat) : Value → List Char
  | .null => ['n', 'u', 'l', 'l']
  | .bool true => ['t', 'r', 'u', 'e']
  | .bool false => ['f', 'a', 'l', 's', 'e']
  | .number n => numberChars n
  | .text t => textChars t
  | .list [] => ['[', ']']
  | .list (v :: vs) =>
      '[' :: layout.opening depth ++ chars layout (depth + 1) v ++ moreItems layout depth vs
        ++ layout.closing depth ++ [']']
  | .object [] => ['{', '}']
  | .object ((k, v) :: fs) =>
      '{' :: layout.opening depth ++ textChars k ++ [':', ' '] ++ chars layout (depth + 1) v
        ++ moreFields layout depth fs ++ layout.closing depth ++ ['}']

/-- The items behind the first. -/
def moreItems (layout : Layout) (depth : Nat) : List Value → List Char
  | [] => []
  | v :: vs =>
      layout.between depth ++ chars layout (depth + 1) v ++ moreItems layout depth vs

/-- The fields behind the first. -/
def moreFields (layout : Layout) (depth : Nat) : List (Text × Value) → List Char
  | [] => []
  | (k, v) :: fs =>
      layout.between depth ++ textChars k ++ [':', ' '] ++ chars layout (depth + 1) v
        ++ moreFields layout depth fs

end

/-- A value on one line. -/
def compact (v : Value) : String :=
  String.ofList (v.chars .line 0)

/-- A value with every item on a line of its own. -/
def indented (v : Value) : String :=
  String.ofList (v.chars (.indented 2) 0)

end Value

end Mandate.Json
