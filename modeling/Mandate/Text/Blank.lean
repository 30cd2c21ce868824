/-
  Mandate.Text.Blank
  ────────────────────────────────
  **BLANK CHARACTERS AND TRIMMING.**

  There are two sorts of white space.

      white  — the characters of the Unicode property White_Space
      blank  — those, and the four information separators U+001C to U+001F

  Names and levels are surrounded by blanks, numbers in settings by white
  space.
-/

namespace Mandate.Text

/-- White space of any script, the information separators included. -/
def isBlank (c : Char) : Bool :=
  let n := c.toNat
  (0x9 ≤ n && n ≤ 0xD) || (0x1C ≤ n && n ≤ 0x20) || n == 0x85 || n == 0xA0 || n == 0x1680 ||
  (0x2000 ≤ n && n ≤ 0x200A) || n == 0x2028 || n == 0x2029 || n == 0x202F || n == 0x205F ||
  n == 0x3000

/-- White space of any script. -/
def isWhite (c : Char) : Bool :=
  isBlank c && !(0x1C ≤ c.toNat && c.toNat ≤ 0x1F)

/-- Characters without those of a sort at either end. -/
def trimWhere (sort : Char → Bool) (cs : List Char) : List Char :=
  ((cs.dropWhile sort).reverse.dropWhile sort).reverse

/-- Characters without the blanks at either end. -/
def trimChars (cs : List Char) : List Char :=
  trimWhere isBlank cs

/-- A text without the blanks at either end. -/
def trim (s : String) : String :=
  String.ofList (trimChars s.toList)

end Mandate.Text
